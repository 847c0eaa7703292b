import RefCache.Duration
import RefCache.Storage.Error
import RefCache.Total

/-! # Evicting the oldest resources

`evictOldest` brings a storage down to a size by removing resources in order of their last access. It works
on anything that can list its resources and remove one by its id, and both may fail: `Storage` is that
interface. What a removal reports to have freed is believed, whatever was listed. -/

namespace RefCache

universe u

/-- A resource as a storage lists it. -/
structure Listed where
  id : String
  /-- The time of the last access. -/
  timestamp : Duration
  size : Nat
deriving DecidableEq, Repr

/-- What eviction needs of a storage with states in `σ`. -/
structure Storage (σ : Type u) where
  /-- The resources, in any order. -/
  entries : σ → Except StorageError (List Listed)
  /-- Removes a resource and tells how many bytes that freed. -/
  remove : σ → String → Except StorageError Nat × σ

/-- How an eviction that did something ended: the bytes it freed, and those it believes to be left. -/
structure Eviction where
  freed : Nat
  left : Nat
deriving DecidableEq, Repr

namespace Storage

variable {σ : Type u}

/-- Removes listed resources, in order, until at most `target` bytes are believed to be left. A failure
ends the eviction; what has been removed by then stays removed. -/
def removeUntil (ops : Storage σ) (target : Nat) :
    List Listed → Eviction → σ → Except StorageError Eviction × σ
  | [], progress, s => (.ok progress, s)
  | e :: rest, progress, s =>
    if progress.left ≤ target then (.ok progress, s)
    else
      match ops.remove s e.id with
      | (.error error, s) => (.error error, s)
      | (.ok bytes, s) =>
        -- a removal may claim to free more than there is, so the difference stops at nothing
        removeUntil ops target rest ⟨progress.freed + bytes, progress.left - bytes⟩ s

/-- The resources in order of their last access; those of one time stay in the order of the listing. -/
def byAge (listing : List Listed) : List Listed :=
  listing.mergeSort fun a b => a.timestamp ≤ b.timestamp

/-- Removes the resources that were accessed longest ago until at most `target` bytes are left. There is
no eviction to tell of when the listing is within the target already. -/
def evictOldest (ops : Storage σ) (s : σ) (target : Nat) :
    Except StorageError (Option Eviction) × σ :=
  match ops.entries s with
  | .error error => (.error error, s)
  | .ok listing =>
    let total := totalOf Listed.size listing
    if total ≤ target then (.ok none, s)
    else
      let (result, s) := ops.removeUntil target (byAge listing) ⟨0, total⟩ s
      (result.map some, s)

end Storage

end RefCache
