import Mathlib.Data.List.Basic

/-!
# 32-bit counting

Arithmetic on 32-bit words wraps; where it does not, it is that of their values.
-/

namespace OlympusFirmware.Lib

/-- A size in units, rounded up as the flash drivers do it. -/
theorem toNat_divUp {n unit quotient : UInt32} (two : 2 ≤ unit.toNat)
    (same : quotient.toNat = n.toNat / unit.toNat) :
    (quotient + (if n % unit ≠ 0 then 1 else 0)).toNat =
      (n.toNat + (unit.toNat - 1)) / unit.toNat := by
  have small := n.toNat_lt
  have half : n.toNat / unit.toNat ≤ n.toNat / 2 := Nat.div_le_div_left two (by omega)
  have remainder : n % unit ≠ 0 ↔ n.toNat % unit.toNat ≠ 0 := by
    rw [Ne, ← UInt32.toNat_inj, UInt32.toNat_mod]
    rfl
  have whole := Nat.div_add_mod n.toNat unit.toNat
  have below := Nat.mod_lt n.toNat (show 0 < unit.toNat by omega)
  rw [UInt32.toNat_add, same]
  by_cases rest : n % unit ≠ 0
  · rw [if_pos rest, UInt32.toNat_one, Nat.mod_eq_of_lt (by omega)]
    rw [remainder] at rest
    symm
    rw [Nat.div_eq_iff (by omega)]
    constructor <;> grind
  · rw [if_neg rest, UInt32.toNat_zero, Nat.mod_eq_of_lt (by omega), Nat.add_zero]
    rw [remainder, not_not] at rest
    symm
    rw [Nat.div_eq_iff (by omega)]
    constructor <;> grind

end OlympusFirmware.Lib
