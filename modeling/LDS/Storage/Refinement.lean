import LDS.Storage.IStorage
import LDS.Storage.Requests

/-!
# `RAIDStorage` refines the flat array

Both storages refine one machine, which only remembers the writes made so far: a byte is the one
last written, a size that of the last write at its offset.

## Main definitions

* `flat`: the machine
* `RAIDStorage.Holds`, `LocalStorage.Holds`: the storage holds what the writes made

## Main results

* `RAIDStorage.refines_flat`, `LocalStorage.refines_flat`: every request inside the device
* `RAIDStorage.same_responses`: the two storages give the same responses
-/

namespace LDS

open Memory

/-! ## The flat array -/

/-- The offset→size index after the writes `ws`. -/
def sizes (ws : List (Nat × List Byte)) : SizeMap :=
  ws.foldl (fun m w => m.insert w.1 w.2.length) ∅

theorem sizes_append (ws : List (Nat × List Byte)) (w : Nat × List Byte) :
    sizes (ws ++ [w]) = (sizes ws).insert w.1 w.2.length := by
  rw [sizes, List.foldl_append]
  rfl

/-- The flat array: its state is the writes made so far. -/
def flat : Machine (List (Nat × List Byte)) Request Response where
  next ws
    | .write _ offset buffer => ws ++ [(offset, buffer)]
    | _ => ws
  output ws
    | .read _ offset len => .read .success (load (lastWritten 0 ws) offset len)
    | .write _ _ _ => .write .success
    | .getDataSize offset => .dataSize ((sizes ws)[offset]?.getD 0)
    | .listOffsets => .offsets (sizes ws).toList

/-- The range of the request lies inside a device of `capacity` bytes. -/
def Request.InRange (capacity : Nat) : Request → Prop
  | .read _ offset len => offset + len ≤ capacity
  | .write _ offset buffer => offset + buffer.length ≤ capacity
  | _ => True

/-! ## `LocalStorage` -/

namespace LocalStorage

/-- The array of `capacity` bytes and the index are as the writes `ws` left them. -/
structure Holds (capacity : Nat) (ls : LocalStorage) (ws : List (Nat × List Byte)) : Prop where
  length_eq : ls.storage.length = capacity
  view_eq : view 0 ls.storage = lastWritten 0 ws
  offsetSizes_eq : ls.offsetSizes = sizes ws

variable {capacity : Nat} {ls : LocalStorage} {ws : List (Nat × List Byte)}

theorem holds_new (capacity : Nat) : Holds capacity (new capacity) [] where
  length_eq := List.length_replicate
  view_eq := view_replicate
  offsetSizes_eq := rfl

theorem Holds.read (h : Holds capacity ls ws) (h64 : capacity < 2 ^ 64) (data : DriverData)
    (hr : data.offset + data.buffer.length ≤ capacity) :
    ls.read data =
      .ok { data with buffer := load (lastWritten 0 ws) data.offset data.buffer.length } := by
  obtain ⟨hl, hv, -⟩ := h
  rcases read_cases ls data with ⟨hg, -⟩ | ⟨-, hg, -⟩ | ⟨-, -, he⟩
  · exact absurd hg (not_addSize_gt (by omega) (by omega))
  · omega
  · rw [he, slice_eq_load (by omega), hv]

theorem Holds.write (h : Holds capacity ls ws) (h64 : capacity < 2 ^ 64) (data : DriverData)
    (hr : data.offset + data.buffer.length ≤ capacity) :
    ∃ ls', ls.write data = .ok ls' ∧ Holds capacity ls' (ws ++ [(data.offset, data.buffer)]) := by
  obtain ⟨hl, hv, hs⟩ := h
  rcases write_cases ls data with ⟨hg, -⟩ | ⟨-, hg, -⟩ | ⟨-, -, he⟩
  · exact absurd hg (not_addSize_gt (by omega) (by omega))
  · omega
  · refine ⟨_, he, (length_overwrite (by omega)).trans hl, ?_, ?_⟩
    · rw [view_overwrite (by omega), hv, lastWritten_append]
    · rw [sizes_append, ← hs]

/-- `LocalStorage` refines the flat array. -/
theorem refines_flat (h64 : capacity < 2 ^ 64) :
    Refines handler toIStorage.serve flat (Holds capacity) (Request.InRange capacity) := by
  intro ls ws r hr h
  cases r with
  | read handle offset len =>
    have he := h.read h64 (.ofRead handle offset len)
      (by rwa [DriverData.ofRead, DriverData.new, List.length_replicate])
    refine ⟨ls, ?_, h⟩
    rw [IStorage.serve, toIStorage, Prog.call_bind, Prog.run_call_of_eq (by rw [handler, he])]
    simp [DriverData.ofRead, DriverData.new, flat]
  | write handle offset buffer =>
    obtain ⟨ls', he, h'⟩ := h.write h64 (.ofWrite handle offset buffer) hr
    refine ⟨ls', ?_, h'⟩
    rw [IStorage.serve, toIStorage, Prog.call_bind, Prog.run_call_of_eq (by rw [handler, he])]
    rfl
  | getDataSize offset =>
    refine ⟨ls, ?_, h⟩
    change some (Response.dataSize (ls.offsetSizes[offset]?.getD 0), ls) = some (.dataSize _, ls)
    rw [h.offsetSizes_eq]
  | listOffsets =>
    refine ⟨ls, ?_, h⟩
    change some (Response.offsets ls.offsetSizes.toList, ls) = some (.offsets _, ls)
    rw [h.offsetSizes_eq]

end LocalStorage

/-! ## `RAIDStorage` -/

namespace RAIDStorage

variable {μ τ : Type} [LawfulMinion μ] [IMetadataStore τ] {g : Geometry}

/-- Both copies and the index are as the writes `ws` left them. -/
structure Holds (s : RAIDStorage μ τ g) (ws : List (Nat × List Byte)) : Prop where
  sized : s.Sized
  mirrored : s.Mirrored
  device_eq : ∀ x < g.capacity, s.device x = lastWritten 0 ws x
  offsetSizes_eq : s.offsetSizes = sizes ws

variable {s : RAIDStorage μ τ g} {ws : List (Nat × List Byte)}

theorem Holds.read (h : Holds s ws) (h64 : g.capacity < 2 ^ 64) (data : DriverData)
    (hr : data.offset + data.len ≤ g.capacity) :
    (read g data).run handler s = some ({ data with
      buffer := load (lastWritten 0 ws) data.offset data.len
      status := .success }, s) := by
  have hload : load s.device data.offset data.len = load (lastWritten 0 ws) data.offset data.len :=
    load_congr fun k hk => h.device_eq _ (by omega)
  rw [run_read_primary data h.sized (Geometry.stripeSize_lt h64) (Geometry.inRange_of_le h64 hr),
    hload]

theorem Holds.write (h : Holds s ws) (h64 : g.capacity < 2 ^ 64) (data : DriverData)
    (hr : data.offset + data.buffer.length ≤ g.capacity)
    (hsave : ∀ (st : τ) sizes, (IMetadataStore.save st sizes).1 = .ok ()) :
    ∃ s', (write g data).run handler s = some ({ data with status := .success }, s') ∧
      Holds s' (ws ++ [(data.offset, data.buffer)]) := by
  have hrange := Geometry.inRange_of_le h64 hr
  obtain ⟨s', he, hs⟩ := run_write data h.sized (Geometry.stripeSize_lt h64) hrange hsave
  obtain ⟨tr, hst⟩ := steps_of_run he
  have hu := unfailing_write hst rfl
  refine ⟨s', he, sized_write hst h.sized, mirrored_write hst hu h.mirrored, fun x hx => ?_, ?_⟩
  · rw [device_write hst hu hrange (Geometry.inRange_of_le h64 hx), lastWritten_append]
    by_cases hm : data.offset ≤ x ∧ x < data.offset + data.buffer.length
    · exact store_congr_of_mem hm.1 hm.2
    · rw [store_of_not_mem hm, store_of_not_mem hm, h.device_eq x hx]
  · rw [hs, sizes_append, h.offsetSizes_eq]

/-- `RAIDStorage` refines the flat array. -/
theorem refines_flat (h64 : g.capacity < 2 ^ 64)
    (hsave : ∀ (st : τ) sizes, (IMetadataStore.save st sizes).1 = .ok ()) :
    Refines handler (toIStorage g).serve flat (Holds : RAIDStorage μ τ g → _ → Prop)
      (Request.InRange g.capacity) := by
  intro s ws r hr h
  cases r with
  | read handle offset len =>
    refine ⟨s, ?_, h⟩
    have he := h.read h64 (.ofRead handle offset len) hr
    rw [IStorage.serve, toIStorage, Prog.run_bind, Prog.run_bind, he]
    rfl
  | write handle offset buffer =>
    obtain ⟨s', he, h'⟩ := h.write h64 (.ofWrite handle offset buffer) hr hsave
    refine ⟨s', ?_, h'⟩
    rw [IStorage.serve, toIStorage, Prog.run_bind, Prog.run_bind, he]
    rfl
  | getDataSize offset =>
    refine ⟨s, ?_, h⟩
    change some (Response.dataSize (s.offsetSizes[offset]?.getD 0), s) = some (.dataSize _, s)
    rw [h.offsetSizes_eq]
  | listOffsets =>
    refine ⟨s, ?_, h⟩
    change some (Response.offsets s.offsetSizes.toList, s) = some (.offsets _, s)
    rw [h.offsetSizes_eq]

theorem holds_inMemory (g : Geometry) : Holds (inMemory g) [] where
  sized := (blank_inMemory g).sized
  mirrored := (blank_inMemory g).mirrored
  device_eq x _ := congrFun (blank_inMemory g).device_eq x
  offsetSizes_eq := rfl

/-- **`RAIDStorage` is the flat array.** Built over new minions in memory it gives, request by
request, the responses of a `LocalStorage` of the same capacity, and they are those of the flat
array. -/
theorem same_responses (g : Geometry) (h64 : g.capacity < 2 ^ 64) (rs : List Request)
    (hr : ∀ r ∈ rs, r.InRange g.capacity) :
    ∃ s₀ : RAIDStorage StorageMinionMemory MemoryMetadataStore g, ∃ s ls,
      new (List.replicate g.numMinions (StorageMinionMemory.new g.stripeSize))
        (⟨∅⟩ : MemoryMetadataStore) = .ok ⟨g, s₀⟩ ∧
      (rs.mapM (toIStorage g).serve).run handler s₀ = some (flat.outputs [] rs, s) ∧
      (rs.mapM LocalStorage.toIStorage.serve).run LocalStorage.handler
        (LocalStorage.new g.capacity) = some (flat.outputs [] rs, ls) := by
  obtain ⟨s, hs, -⟩ := (refines_flat h64 fun _ _ => rfl).mapM hr (holds_inMemory g)
  obtain ⟨ls, hls, -⟩ := (LocalStorage.refines_flat h64).mapM hr (LocalStorage.holds_new g.capacity)
  exact ⟨_, s, ls, new_inMemory g, hs, hls⟩

/-- A write across the stripe of two pairs, read back with the byte before it. -/
theorem same_responses_across_stripes :
    let rs : List Request := [.write 1 1 [5, 6, 7], .read 2 0 4, .getDataSize 1, .listOffsets]
    ∃ s₀ : RAIDStorage StorageMinionMemory MemoryMetadataStore ⟨2, 2, by decide⟩, ∃ s ls,
      new (List.replicate 4 (StorageMinionMemory.new 2)) (⟨∅⟩ : MemoryMetadataStore) =
        .ok ⟨_, s₀⟩ ∧
      (rs.mapM (toIStorage _).serve).run handler s₀ = some (flat.outputs [] rs, s) ∧
      (rs.mapM LocalStorage.toIStorage.serve).run LocalStorage.handler (LocalStorage.new 4) =
        some (flat.outputs [] rs, ls) ∧
      flat.outputs [] rs =
        [.write .success, .read .success [0, 5, 6, 7], .dataSize 3, .offsets [(1, 3)]] := by
  intro rs
  obtain ⟨s₀, s, ls, hn, hs, hls⟩ := same_responses ⟨2, 2, by decide⟩ (by decide) rs (by
    simp [rs, Request.InRange, Geometry.capacity])
  exact ⟨s₀, s, ls, hn, hs, hls, by decide +kernel⟩

end RAIDStorage

end LDS
