import Mathlib.Data.UInt
import Mathlib.Tactic.Common

/-!
# Wrapping counters

A 32-bit counter that is incremented by one at a time tells fewer than `2 ^ 32`
increments apart.
-/

namespace Foundation

theorem ofNat32_succ (n : ℕ) : UInt32.ofNat (n + 1) = UInt32.ofNat n + 1 := by
  rw [UInt32.ofNat_add]
  rfl

theorem ofNat32_ne_zero {n : ℕ} (h0 : 0 < n) (h : n < 2 ^ 32) : UInt32.ofNat n ≠ 0 := by
  intro hz
  have ht := congrArg UInt32.toNat hz
  rw [UInt32.toNat_ofNat'] at ht
  have h0' : (0 : UInt32).toNat = 0 := rfl
  omega

end Foundation
