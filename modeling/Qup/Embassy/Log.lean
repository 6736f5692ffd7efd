import Qup.Embassy.Phase
import Qup.Foundation.EventLog

/-!
# What a log says

Everything the session theorems talk about, read off the log of a connection:
the request being served, the responses so far, which keys are observed, and how
many updates of a key the server has not looked at. Logs are newest first, and
each definition says what the newest event changes.
-/

namespace Qup.Embassy
open Foundation Foundation.Utf8

variable {N : ℕ} {keys : Fin N → ErasedKey}

def changedFrame (keyref : UInt16) : Frame := ⟨.changed, be16 keyref⟩

def Frame.IsResponse (f : Frame) : Prop := f.opcode ≠ .changed

instance (f : Frame) : Decidable f.IsResponse := inferInstanceAs (Decidable (_ ≠ _))

def pendingRequest : List (Event keys) → Option IncomingRequest
  | [] => none
  | .served request :: _ => some request
  | .sent f :: log => if f.IsResponse then none else pendingRequest log
  | _ :: log => pendingRequest log

def exchanges : List (Event keys) → List (IncomingRequest × Frame)
  | [] => []
  | .sent f :: log =>
    if f.IsResponse then
      match pendingRequest log with
      | some request => (request, f) :: exchanges log
      | none => exchanges log
    else exchanges log
  | _ :: log => exchanges log

def sentFrames : List (Event keys) → List Frame
  | [] => []
  | .sent f :: log => sentFrames log ++ [f]
  | _ :: log => sentFrames log

def sinceServed : List (Event keys) → List (Event keys)
  | [] => []
  | .served _ :: _ => []
  | e :: log => e :: sinceServed log

/-- Whether the last successful `OBSERVE` or `UNOBSERVE` of a keyref was an
`OBSERVE`. -/
def subscribed (keyref : UInt16) : List (IncomingRequest × Frame) → Bool
  | [] => false
  | (.observe r, f) :: rest =>
    if r = keyref ∧ f.opcode = .ok then true else subscribed keyref rest
  | (.unobserve r, f) :: rest =>
    if r = keyref ∧ f.opcode = .ok then false else subscribed keyref rest
  | _ :: rest => subscribed keyref rest

def updateCount (i : Fin N) : List (Event keys) → ℕ
  | [] => 0
  | .updated _ j :: log => if j = i then updateCount i log + 1 else updateCount i log
  | _ :: log => updateCount i log

def sinceRead (i : Fin N) : List (Event keys) → ℕ
  | [] => 0
  | .updated _ j :: log => if j = i then sinceRead i log + 1 else sinceRead i log
  | .readGeneration j _ :: log => if j = i then 0 else sinceRead i log
  | _ :: log => sinceRead i log

def changedCount (keyref : UInt16) : List (Event keys) → ℕ
  | [] => 0
  | .sent f :: log =>
    if f = changedFrame keyref then changedCount keyref log + 1 else changedCount keyref log
  | _ :: log => changedCount keyref log

def recordings (i : Fin N) : List (Event keys) → ℕ
  | [] => 0
  | .readGeneration j _ :: log =>
    if j = i ∧ (pendingRequest log).isSome then recordings i log + 1 else recordings i log
  | _ :: log => recordings i log

def recorded (i : Fin N) : List (Event keys) → Bool
  | [] => false
  | .readGeneration j _ :: log =>
    if j = i then
      match pendingRequest log with
      | some (.observe _) => true
      | some _ => false
      | none => recorded i log
    else recorded i log
  | _ :: log => recorded i log

/-- An update of an observed key that no `CHANGED` has followed, and that no
`OBSERVE` or `UNOBSERVE` has read over. -/
def unannounced (i : Fin N) : List (Event keys) → Bool
  | [] => false
  | .updated _ j :: log =>
    if j = i then recorded i log || unannounced i log else unannounced i log
  | .readGeneration j _ :: log =>
    if j = i ∧ (pendingRequest log).isSome then false else unannounced i log
  | .sent f :: log =>
    if f = changedFrame (keys i).keyref then false else unannounced i log
  | _ :: log => unannounced i log

/-- Such an update from before the last flush began, during that flush. -/
def overdue (i : Fin N) : List (Event keys) → Bool
  | [] => false
  | .flushBegin :: log => unannounced i log
  | .flushEnd :: _ => false
  | .sent f :: log => if f = changedFrame (keys i).keyref then false else overdue i log
  | _ :: log => overdue i log

/-- A `WRITE` has updated its key and its response has not been sent. -/
def owesWritten : List (Event keys) → Bool
  | [] => false
  | .updated .server _ :: _ => true
  | .sent f :: log => if f.opcode = .written then false else owesWritten log
  | _ :: log => owesWritten log

def lastRead (i : Fin N) : List (Event keys) → Option (keys i).type.Value
  | [] => none
  | .readValue j v :: log => if h : j = i then some (h ▸ v) else lastRead i log
  | _ :: log => lastRead i log

def valueAfter (memory : Memory keys) (i : Fin N) : List (Event keys) → (keys i).type.Value
  | [] => memory.value i
  | .stored _ j v :: log => if h : j = i then h ▸ v else valueAfter memory i log
  | _ :: log => valueAfter memory i log

end Qup.Embassy
