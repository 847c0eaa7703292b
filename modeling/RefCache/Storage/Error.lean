import RefCache.Text

/-! # Storage errors

The ways in which an operation of a storage can fail, and how each is told. -/

namespace RefCache

/-- A failure of a storage. -/
inductive StorageError where
  /-- A resource, or the data written for it so far, is not there. -/
  | notFound (id : String)
  /-- The writer has already come to its end. -/
  | alreadyCommitted (id : String)
  /-- The storage takes no resources in. -/
  | disabled (name : String)
  /-- The device failed. -/
  | device (reason : String)
deriving DecidableEq, Repr

namespace StorageError

/-- How the failure is told. -/
def message : StorageError → String
  | notFound id => "resource not found: " ++ id
  | alreadyCommitted id => "inserter for " ++ id ++ " already committed"
  | disabled name => "storage " ++ name ++ " is disabled"
  | device reason => "IO error: " ++ reason

end StorageError

end RefCache
