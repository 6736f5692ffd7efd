import Mathlib.Data.List.Basic
import Mathlib.Tactic.Common

/-!
# Event logs

A log lists what happened, newest first. It is justified when every event is
allowed by the events before it; a step that appends an event has to justify
that event only.
-/

namespace Foundation
variable {α : Type*}

def Justified (allowed : α → List α → Prop) : List α → Prop
  | [] => True
  | e :: log => allowed e log ∧ Justified allowed log

variable {allowed : α → List α → Prop}

theorem Justified.older {newer older : List α} (h : Justified allowed (newer ++ older)) :
    Justified allowed older := by
  induction newer with
  | nil => exact h
  | cons e newer ih => exact ih h.2

theorem Justified.allowed_at {newer older : List α} {e : α}
    (h : Justified allowed (newer ++ e :: older)) : allowed e older := h.older.1

end Foundation
