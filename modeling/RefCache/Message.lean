import RefCache.Limits
import RefCache.Pressure
import RefCache.Tuning

/-! # Log messages

What the library tells a log, as data: each message has a level and a text. -/

namespace RefCache

/-- What the library tells a log. -/
inductive Message where
  /-- A setting of the adaptive policy was replaced by its default. -/
  | tuning (fault : Tuning.Fault)
  /-- A cache was created. -/
  | created (policy : String) (limits : Limits)
  /-- New limits took effect. -/
  | reloaded (limits : Limits)
  /-- Entries were evicted, and so many are left in the queue. -/
  | evicted (policy : String) (entries left : Nat)
  /-- A value was too large for what the limits leave. -/
  | rejected (size : Nat)
  /-- A trim began, with the size the queue is to have. -/
  | trimming (pressure : Pressure) (ratio : Float) (target : Nat)
  /-- A storage dropped writes that were never committed. -/
  | purged (storage : String) (resources : Nat)
  /-- A storage was brought down to a size, and so many bytes are left. -/
  | freed (storage : String) (bytes left : Nat)

namespace Message

/-- How important the message is. -/
def level : Message → String
  | tuning _ => "WARN"
  | rejected _ => "TRACE"
  | created .. | reloaded _ | evicted .. | trimming .. | purged .. | freed .. => "DEBUG"

/-- The wording of the message. -/
def text : Message → String
  | tuning fault => fault.text
  | created policy limits => "creating " ++ policy ++ " memory cache with " ++ limits.describe
  | reloaded limits => "reloaded memory cache params: " ++ limits.describe
  | evicted policy entries left =>
    policy ++ ": evicted " ++ Text.number entries ++ " exclusive entries, " ++ Text.number left
      ++ " left"
  | rejected size => "rejected value of " ++ Text.number size ++ " bytes"
  | trimming pressure ratio target =>
    "trimming for " ++ pressure.name ++ ": ratio " ++ Ratio.text ratio ++ ", eviction queue target "
      ++ Text.number target ++ " bytes"
  | purged storage resources =>
    storage ++ ": purged " ++ Text.number resources ++ " pending resources"
  | freed storage bytes left =>
    storage ++ ": evicted " ++ Text.number bytes ++ " bytes, " ++ Text.number left ++ " left"

/-- The message as a line of a log. -/
def line (m : Message) : String :=
  m.level ++ " " ++ m.text

end Message

end RefCache
