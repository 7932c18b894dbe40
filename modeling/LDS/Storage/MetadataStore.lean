import LDS.Storage.DriverData

/-!
# Metadata stores

A metadata store keeps the offset→size index of a `RAIDStorage` between two runs of the server.

## Main definitions

* `IMetadataStore`: the interface
* `LawfulMetadataStore`: a store whose `Save` replaces what was saved before
* `MemoryMetadataStore`: the volatile store
-/

namespace LDS

/-- `IMetadataStore`. -/
class IMetadataStore (τ : Type) where
  load : τ → SizeMap
  save : τ → SizeMap → Outcome Unit × τ
  clear : τ → τ

/-- A store that forgets what it was given before. -/
class LawfulMetadataStore (τ : Type) extends IMetadataStore τ where
  save_ok : ∀ st metadata, (save st metadata).1 = .ok ()
  save_save : ∀ st metadata metadata',
    (save (save st metadata).2 metadata').2 = (save st metadata').2

/-- `MemoryMetadataStore`. -/
structure MemoryMetadataStore where
  metadata : SizeMap

namespace MemoryMetadataStore

/-- `MemoryMetadataStore::Load`. -/
def load (st : MemoryMetadataStore) : SizeMap := st.metadata

/-- `MemoryMetadataStore::Save`. -/
def save (_ : MemoryMetadataStore) (metadata : SizeMap) : Outcome Unit × MemoryMetadataStore :=
  (.ok (), ⟨metadata⟩)

/-- `MemoryMetadataStore::Clear`. -/
def clear (_ : MemoryMetadataStore) : MemoryMetadataStore := ⟨∅⟩

instance : IMetadataStore MemoryMetadataStore where
  load := load
  save := save
  clear := clear

instance : LawfulMetadataStore MemoryMetadataStore where
  save_ok _ _ := rfl
  save_save _ _ _ := rfl

@[simp] theorem load_save (st : MemoryMetadataStore) (metadata : SizeMap) :
    load (save st metadata).2 = metadata := rfl

end MemoryMetadataStore

end LDS
