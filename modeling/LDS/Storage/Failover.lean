import LDS.Storage.Requests

/-!
# Failover

After writes during which no minion failed, both copies of every chunk hold what was last written
there, so a `Read` may get each chunk from either of them.

## Main definitions

* `RAIDStorage.Writes s₀ ws s`: the writes `ws`, inside the device and without a failing minion,
  lead from `s₀` to `s`

## Main results

* `RAIDStorage.Writes.device_eq`: the device then holds what was last written
* `RAIDStorage.read_under_faults`: what a `Read` does while any `Read` of a minion may throw
-/

namespace LDS

open Memory

namespace RAIDStorage

variable {μ τ : Type} [LawfulMinion μ] [IMetadataStore τ] {g : Geometry}

/-- The runs of `Write` inside the device during which no minion fails, with the writes made so
far. Saving the index may fail at any time. -/
inductive Writes (s₀ : RAIDStorage μ τ g) : List (Nat × List Byte) → RAIDStorage μ τ g → Prop
  | nil : Writes s₀ [] s₀
  | snoc {ws : List (Nat × List Byte)} {s s' : RAIDStorage μ τ g} {data data' : DriverData}
      {tr : List (Exchange (RAIDCall g) RAIDCall.Answer)} (hw : Writes s₀ ws s)
      (hr : g.InRange data.offset data.buffer.length)
      (hs : Steps Answers (write g data) s tr (.ret data') s') (hu : Unfailing tr) :
      Writes s₀ (ws ++ [(data.offset, data.buffer)]) s'

variable {s₀ s : RAIDStorage μ τ g} {ws : List (Nat × List Byte)}

theorem Writes.sized (hw : Writes s₀ ws s) (h₀ : s₀.Sized) : s.Sized := by
  induction hw with
  | nil => exact h₀
  | snoc _ _ hs _ ih => exact sized_write hs ih

theorem Writes.mirrored (hw : Writes s₀ ws s) (h₀ : s₀.Mirrored) : s.Mirrored := by
  induction hw with
  | nil => exact h₀
  | snoc _ _ hs hu ih => exact mirrored_write hs hu ih

/-- The device holds what was last written. -/
theorem Writes.device_eq (hw : Writes s₀ ws s) (h₀ : s₀.Blank) {x : Nat} (hx : g.InRange x 1) :
    s.device x = lastWritten 0 ws x := by
  induction hw with
  | nil => rw [h₀.device_eq, lastWritten_nil]
  | @snoc ws s s' data data' tr _ hr hs hu ih =>
    rw [device_write hs hu hr hx, lastWritten_append]
    by_cases hm : data.offset ≤ x ∧ x < data.offset + data.buffer.length
    · exact store_congr_of_mem hm.1 hm.2
    · rw [store_of_not_mem hm, store_of_not_mem hm, ih]

/-- **Failover.** After writes without a failing minion, a `Read` inside the device succeeds if and
only if every chunk of its range has a copy that answers, and what it then returns was last written
there, whichever copies have failed. -/
theorem read_under_faults (h64 : g.stripeSize < 2 ^ 64) (h₀ : s₀.Blank) (hw : Writes s₀ ws s)
    (data : DriverData) (hr : g.InRange data.offset data.len) (faults : Faults g) :
    ∃ data', (read g data).run (faultyReads faults) s = some (data', s) ∧
      (data'.status = .success ↔ ∀ c ∈ g.chunks data.offset data.len 0, Readable faults c) ∧
      (data'.status = .success → data'.buffer = load (lastWritten 0 ws) data.offset data.len) := by
  have hz := hw.sized h₀.sized
  obtain ⟨hok, herr⟩ := run_read data hz h64 hr faults
  by_cases h : ∀ c ∈ g.chunks data.offset data.len 0, Readable faults c
  · obtain ⟨buf, hl, hcopies, he⟩ := hok h
    refine ⟨_, he, iff_of_true rfl h, fun _ => ?_⟩
    -- both copies hold what was written last
    have hload := hcopies.eq_load fun k _ => by rw [(hw.mirrored h₀.mirrored).device_eq]
    refine hload.trans ?_
    rw [hl]
    exact load_congr fun k hk => hw.device_eq h₀ (hr.one hk)
  · obtain ⟨buf, he⟩ := herr h
    exact ⟨_, he, iff_of_false (by simp) h, by simp⟩

/-- A chunk in the middle of a stripe, written to a blank pair and read while the primary fails with
the buffer half filled. -/
theorem read_under_faults_mirror :
    ∃ s : RAIDStorage StorageMinionMemory MemoryMetadataStore ⟨1, 4, by decide⟩,
      ∃ data', (read ⟨1, 4, by decide⟩ (.new .read 0 1 2)).run
          (faultyReads fun i _ => if i = 0 then some ("pread failed", [9]) else none) s =
        some (data', s) ∧ data'.status = .success ∧ data'.buffer = [7, 8] := by
  have h₀ := blank_inMemory ⟨1, 4, by decide⟩
  have hrange : Geometry.InRange ⟨1, 4, by decide⟩ 1 2 :=
    Geometry.inRange_of_le (by decide) (by decide)
  obtain ⟨s, hrun, -⟩ := run_write { DriverData.new .write 0 1 2 with buffer := [7, 8] } h₀.sized
    (by decide) hrange fun _ _ => rfl
  obtain ⟨tr, hs⟩ := steps_of_run hrun
  have hw : Writes _ [(1, [7, 8])] s := .snoc .nil hrange hs (unfailing_write hs rfl)
  obtain ⟨data', he, hst, hbuf⟩ := read_under_faults (by decide) h₀ hw (.new .read 0 1 2)
    hrange fun i _ => if i = 0 then some ("pread failed", [9]) else none
  have hok := hst.mpr fun c _ => .inr (if_neg (Geometry.primary_ne_mirrorIndex 0 _).symm)
  exact ⟨s, data', he, hok, hbuf hok⟩

end RAIDStorage

end LDS
