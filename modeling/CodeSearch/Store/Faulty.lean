import CodeSearch.Store.Basic

/-!
# Stores with faults

A faulty store is a store whose changes can be made to fail. A call that fails leaves
the documents as they were; reading goes on as before.
-/
namespace CodeSearch

structure FaultyStore where
  store : Store
  failsAdd : Bool := false
  failsDelete : Bool := false

namespace FaultyStore

/-- The fault of a failing call. -/
def fault : StoreError :=
  .io (.other "disk full")

def add (s : FaultyStore) (documents : List Document) : Except StoreError FaultyStore :=
  if s.failsAdd then .error fault
  else do return { s with store := ← s.store.add documents }

def delete (s : FaultyStore) (filter : Metadata) : Except StoreError (Nat × FaultyStore) :=
  if s.failsDelete then .error fault
  else do
    let (count, store) ← s.store.delete filter
    return (count, { s with store })

instance : DocumentStore FaultyStore where
  add := add
  delete := delete
  get? s := DocumentStore.get? s.store
  ids s := DocumentStore.ids s.store
  query s := s.store.query
  queryVector s := s.store.queryVector

end FaultyStore

end CodeSearch
