import RefCache.Storage.Heap

/-! # Storage that fails

`Faults` say how the listing of a storage and the removal of single resources are to fail, or to report
what is not so; they turn a storage into one that fails. -/

namespace RefCache

/-- A kind of failure. -/
inductive Fault where
  | device
  | notFound
  | alreadyCommitted
  | disabled
deriving DecidableEq, Repr

/-- The failure of this kind, told about an id. -/
def Fault.error (id : String) : Fault → StorageError
  | device => .device ("injected for " ++ id)
  | notFound => .notFound id
  | alreadyCommitted => .alreadyCommitted id
  | disabled => .disabled id

/-- How the removal of a resource goes wrong. -/
inductive RemovalFault where
  | fails (fault : Fault)
  /-- Nothing is removed, but so many bytes are said to be freed. -/
  | reports (bytes : Nat)
deriving DecidableEq, Repr

/-- What goes wrong. -/
structure Faults where
  entries : Option Fault := none
  removals : List (String × RemovalFault) := []

/-- The storage with these faults. -/
def Faults.apply {σ : Type} (f : Faults) (ops : Storage σ) : Storage σ where
  entries s :=
    match f.entries with
    | none => ops.entries s
    | some fault => .error (fault.error "entries")
  remove s id :=
    match f.removals.lookup id with
    | none => ops.remove s id
    | some (.fails fault) => (.error (fault.error id), s)
    | some (.reports bytes) => (.ok bytes, s)

end RefCache
