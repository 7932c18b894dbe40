import LDS.Storage.Requests
import Mathlib.Data.Set.Function

/-!
# The stripes of the device

The address map takes the offsets of the device to the cells of the primaries and back, and the loops of
`Read` and `Write` take a range of the device apart into chunks that lie in one stripe each.

## Main definitions

* `Geometry.TakesApart`: chunks that a range consists of, one after the other

## Main results

* `Geometry.bijOn_address`: the address map is a bijection
* `Geometry.bijOn_mirrorIndex`: so is the map of the primaries to their mirrors
* `Geometry.takesApart_chunks`: the chunks of a range take it apart
* `Geometry.stripes`: all of this, of the chunks that the loops visit
-/

namespace LDS

open Memory

namespace Geometry

variable {g : Geometry}

/-! ## The address map -/

theorem mapsTo_address (h64 : g.capacity < 2 ^ 64) :
    Set.MapsTo (fun offset => (g.primaryIndex offset, g.localOffset offset)) (Set.Iio g.capacity)
      (Set.univ ×ˢ Set.Iio g.stripeSize) := by
  intro offset h
  rw [Set.mem_Iio] at h
  refine ⟨Set.mem_univ _, ?_⟩
  change g.localOffset offset < g.stripeSize
  rw [localOffset_eq_mod h (by omega)]
  exact Nat.mod_lt _ (stripeSize_pos_of_lt h)

/-- An offset of the device is the stripe of its primary and the offset in it. -/
theorem address_injective {offset offset' : Nat} (h : offset < g.capacity) (h' : offset' < g.capacity)
    (h64 : g.capacity < 2 ^ 64) (hp : g.primaryIndex offset = g.primaryIndex offset')
    (hl : g.localOffset offset = g.localOffset offset') : offset = offset' := by
  have hp := congrArg Fin.val hp
  rw [primaryIndex_eq_div h, primaryIndex_eq_div h'] at hp
  rw [localOffset_eq_mod h (by omega), localOffset_eq_mod h' (by omega)] at hl
  calc offset = offset / g.stripeSize * g.stripeSize + offset % g.stripeSize :=
        (Nat.div_add_mod' _ _).symm
    _ = offset' / g.stripeSize * g.stripeSize + offset' % g.stripeSize := by rw [hp, hl]
    _ = offset' := Nat.div_add_mod' _ _

/-- The cell `l` of the primary `i` is that of an offset of the device. -/
theorem address_surjective (i : Fin g.numPrimary) {l : Nat} (hl : l < g.stripeSize)
    (h64 : g.capacity < 2 ^ 64) :
    i * g.stripeSize + l < g.capacity ∧ g.primaryIndex (i * g.stripeSize + l) = i ∧
      g.localOffset (i * g.stripeSize + l) = l := by
  have hlt : i * g.stripeSize + l < g.capacity :=
    calc i * g.stripeSize + l < (i + 1) * g.stripeSize := by rw [Nat.succ_mul]; omega
      _ ≤ g.capacity := Nat.mul_le_mul_right _ i.isLt
  refine ⟨hlt, Fin.ext ?_, ?_⟩
  · rw [primaryIndex_eq_div hlt, Nat.mul_comm, Nat.mul_add_div (by omega), Nat.div_eq_of_lt hl, Nat.add_zero]
  · rw [localOffset_eq_mod hlt (by omega), Nat.mul_comm, Nat.mul_add_mod, Nat.mod_eq_of_lt hl]

theorem bijOn_address (h64 : g.capacity < 2 ^ 64) :
    Set.BijOn (fun offset => (g.primaryIndex offset, g.localOffset offset)) (Set.Iio g.capacity)
      (Set.univ ×ˢ Set.Iio g.stripeSize) := by
  refine ⟨mapsTo_address h64, ?_, ?_⟩
  · intro offset h offset' h' he
    obtain ⟨hp, hl⟩ := Prod.mk.inj he
    exact address_injective h h' h64 hp hl
  · rintro ⟨i, l⟩ ⟨-, hl⟩
    obtain ⟨hlt, hp, he⟩ := address_surjective i hl h64
    exact ⟨_, hlt, Prod.ext hp he⟩

/-- The mirrors follow the primaries. -/
theorem bijOn_mirrorIndex (g : Geometry) :
    Set.BijOn (fun i => (g.mirrorIndex i : Nat)) Set.univ (Set.Ico g.numPrimary (2 * g.numPrimary)) := by
  refine ⟨?_, ?_, ?_⟩
  · intro i _
    exact ⟨Nat.le_add_right _ _, (g.mirrorIndex i).isLt⟩
  · intro i _ j _ h
    exact mirrorIndex_injective (Fin.ext h)
  · rintro j ⟨hj, hlt⟩
    exact ⟨⟨j - g.numPrimary, by omega⟩, Set.mem_univ _, Nat.add_sub_cancel' hj⟩

/-! ## The chunks of a range -/

/-- The range consists of the chunks, which follow each other in order; each of them lies in one stripe of
one minion, and takes its bytes from where it lies in the range. -/
structure TakesApart (g : Geometry) (offset len : Nat) (cs : List Chunk) : Prop where
  nonempty : ∀ c ∈ cs, 0 < c.len
  contiguous : cs.IsChain fun c c' => c'.offset = c.offset + c.len
  disjoint : cs.Pairwise fun c c' => c.offset + c.len ≤ c'.offset
  covers : ∀ x, (∃ c ∈ cs, c.offset ≤ x ∧ x < c.offset + c.len) ↔ offset ≤ x ∧ x < offset + len
  stripe : ∀ c ∈ cs, ∀ k < c.len, (c.offset + k) / g.stripeSize = c.offset / g.stripeSize ∧
    g.primaryIndex (c.offset + k) = g.primaryIndex c.offset ∧
    g.localOffset (c.offset + k) = g.localOffset c.offset + k
  fits : ∀ c ∈ cs, g.localOffset c.offset + c.len ≤ g.stripeSize
  bufPos : ∀ c ∈ cs, offset + c.bufPos = c.offset

variable {offset remaining bufPos : Nat} {cs : List Chunk}

/-- The first chunk starts where the range does. -/
theorem Partition.head (hp : g.Partition offset remaining bufPos cs) {c : Chunk} (hc : c ∈ cs.head?) :
    c.offset = offset := by
  cases hp with
  | nil => cases hc
  | cons => exact congrArg Chunk.offset (Option.some.inj hc).symm

theorem Partition.contiguous (hp : g.Partition offset remaining bufPos cs) :
    cs.IsChain fun c c' => c'.offset = c.offset + c.len := by
  induction hp with
  | nil => exact .nil
  | cons hn hs hc hp ih => exact List.isChain_cons.mpr ⟨fun c hmem => hp.head hmem, ih⟩

theorem Partition.disjoint (hp : g.Partition offset remaining bufPos cs) :
    cs.Pairwise fun c c' => c.offset + c.len ≤ c'.offset := by
  induction hp with
  | nil => exact .nil
  | cons hn hs hc hp ih =>
    refine List.pairwise_cons.mpr ⟨fun c hmem => ?_, ih⟩
    obtain ⟨-, -, -, hfrom, -⟩ := hp.mem hmem
    exact hfrom

/-- Chunks that visit a range of the device take it apart. -/
theorem Partition.takesApart (hp : g.Partition offset remaining 0 cs) : g.TakesApart offset remaining cs where
  nonempty c hc := (hp.mem hc).1
  contiguous := hp.contiguous
  disjoint := hp.disjoint
  covers x := by
    constructor
    · rintro ⟨c, hc, hx⟩
      obtain ⟨-, -, -, hfrom, hto, -⟩ := hp.mem hc
      omega
    · rintro ⟨h₁, h₂⟩
      exact hp.exists_mem h₁ h₂
  stripe c hc k hk := by
    obtain ⟨hn, hs, hr, -⟩ := hp.mem hc
    -- no chunk crosses a stripe
    obtain ⟨hcap, h64⟩ := hr hn
    exact ⟨(add_div_mod (by omega)).1, primaryIndex_add (by omega) (by omega),
      localOffset_add (by omega) (by omega) (by omega)⟩
  fits c hc := by
    obtain ⟨hn, hs, hr, -⟩ := hp.mem hc
    exact localOffset_add_le hn hs hr
  bufPos c hc := by
    obtain ⟨-, -, -, hfrom, -, hpos⟩ := hp.mem hc
    omega

/-- **The stripes of the device.** The address map is a bijection between the offsets of the device and the
cells of the primaries, each primary has a mirror of its own, and the loops of `Read` and `Write` visit
the chunks that a range of the device consists of. -/
theorem stripes (h64 : g.capacity < 2 ^ 64) :
    Set.BijOn (fun offset => (g.primaryIndex offset, g.localOffset offset)) (Set.Iio g.capacity)
        (Set.univ ×ˢ Set.Iio g.stripeSize) ∧
      Set.BijOn (fun i => (g.mirrorIndex i : Nat)) Set.univ (Set.Ico g.numPrimary (2 * g.numPrimary)) ∧
      ∀ offset len, offset + len ≤ g.capacity →
        g.TakesApart offset len (g.chunks offset len 0) ∧
        (∀ buffer, RAIDStorage.readLoop g offset len 0 buffer =
          RAIDStorage.readChunks g buffer (g.chunks offset len 0)) ∧
        ∀ buffer, RAIDStorage.writeLoop g buffer offset len 0 =
          RAIDStorage.writeChunks g buffer (g.chunks offset len 0) := by
  refine ⟨bijOn_address h64, bijOn_mirrorIndex g, fun offset len h => ?_⟩
  have hr := inRange_of_le h64 h
  exact ⟨(partition_chunks hr 0).takesApart, RAIDStorage.readLoop_eq_of_inRange hr 0,
    fun buffer => RAIDStorage.writeLoop_eq_of_inRange hr buffer 0⟩

/-- Two primaries of four bytes, and a range across the edge between their stripes. -/
theorem stripes_two_primaries :
    let g : Geometry := ⟨2, 4, Nat.two_pos⟩
    Set.BijOn (fun offset => (g.primaryIndex offset, g.localOffset offset)) (Set.Iio 8)
        (Set.univ ×ˢ Set.Iio 4) ∧
      g.TakesApart 3 4 [⟨3, 1, 0⟩, ⟨4, 3, 1⟩] := by
  have h := stripes (g := ⟨2, 4, Nat.two_pos⟩) (by decide)
  have hchunks : Geometry.chunks ⟨2, 4, Nat.two_pos⟩ 3 4 0 = [⟨3, 1, 0⟩, ⟨4, 3, 1⟩] := by decide +kernel
  exact ⟨h.1, hchunks ▸ (h.2.2 3 4 (by decide)).1⟩

end Geometry

end LDS
