import OlympusFirmware.SlaveLib.Capture
import Mathlib.Algebra.Order.Field.Rat
import Mathlib.Tactic.Linarith
import Mathlib.Tactic.Ring

/-!
# The speed of Hermes (`hermes/drivers/speed.c`)

One count of the encoder is 1075 µm, so `d` ticks of the 48 MHz clock between two counts
are 51600000 / d mm/s. The code scales by 64 before the first division, multiplies in 32
bits and narrows the last quotient to 16: up to 1574 ticks the speed does not fit.
-/

namespace OlympusFirmware.Hermes

open OlympusFirmware.Lib OlympusFirmware.SlaveLib

/-- `UM_PER_INT`. -/
def umPerInt : UInt32 := 1075

/-- `CK_FREQ`. -/
def ckFreq : UInt32 := 48000000

/-- `MIN_TIMEOUT`. -/
def minTimeout : UInt32 := 1075

/-- `diffCountsToSpeedInMMs`, with the level of its direction pin. -/
def diffCountsToSpeedInMMs (pin : Bool) (diffCounts : UInt32) : Int16 :=
  if diffCounts ≠ 0 then
    let ckpdiff := ckFreq * 64 / diffCounts
    directed pin (ckpdiff * umPerInt / 64000)
  else 0

/-- `TIM2_IRQHandler`. -/
def tim2IrqHandler (pin : Bool) := captureIrq (diffCountsToSpeedInMMs pin)

/-- `checkTimeout`. -/
def checkTimeout := captureTimeout minTimeout

/-- The capture interrupt and the timeout, with the direction pin at one level. -/
def speedMachine (pin : Bool) := captureMachine (diffCountsToSpeedInMMs pin) minTimeout

/-- `getSpeed`. -/
def getSpeed (s : SpeedCapture) : Int16 := s.speed.read

/-- The quotient before it is narrowed. -/
theorem toNat_quotient (d : UInt32) :
    (ckFreq * 64 / d * umPerInt / 64000).toNat =
      3072000000 / d.toNat * 1075 % 4294967296 / 64000 := by
  simp [ckFreq, umPerInt]

/-- The size of a speed that fits. -/
theorem natAbs_speed {d : UInt32} (pin : Bool) (fits : 1575 ≤ d.toNat) :
    (diffCountsToSpeedInMMs pin d).toInt.natAbs = 3072000000 / d.toNat * 1075 / 64000 ∧
      0 ≤ (direction pin).toInt * (diffCountsToSpeedInMMs pin d).toInt := by
  have nonzero : d ≠ 0 := by
    rintro rfl
    simp at fits
  -- the product stays below 2^32 and the quotient below 2^15
  have scaled : 3072000000 / d.toNat ≤ 3072000000 / 1575 := Nat.div_le_div_left fits (by decide)
  have quotient := toNat_quotient d
  rw [Nat.mod_eq_of_lt (by omega)] at quotient
  simp only [diffCountsToSpeedInMMs, ne_eq, nonzero, not_false_eq_true, ↓reduceIte]
  rw [natAbs_directed, sign_directed, quotient]
  have small : 3072000000 / d.toNat * 1075 / 64000 < 32768 := by omega
  rw [Nat.mod_eq_of_lt (by omega)]
  exact ⟨Nat.min_eq_left (by omega), .inl small⟩

/-- Where the speed does not fit, it has the wrong sign or is below that of 1575 ticks. -/
theorem speed_not_fit {d : UInt32} (pin : Bool) (short : d.toNat < 1575)
    (sign : 0 ≤ (direction pin).toInt * (diffCountsToSpeedInMMs pin d).toInt) :
    (diffCountsToSpeedInMMs pin d).toInt.natAbs < 32761 := by
  have narrowed : ∀ n ∈ List.range 1575, n ≠ 0 →
      3072000000 / n * 1075 % 4294967296 / 64000 % 65536 ≤ 32768 →
      3072000000 / n * 1075 % 4294967296 / 64000 % 65536 < 32761 := by
    decide +kernel
  by_cases zero : d = 0
  · subst zero
    cases pin <;> decide
  · have nonzero : d.toNat ≠ 0 := by simpa [← UInt32.toNat_inj] using zero
    have low := narrowed d.toNat (List.mem_range.mpr short) nonzero
    simp only [diffCountsToSpeedInMMs, ne_eq, zero, not_false_eq_true, ↓reduceIte] at sign ⊢
    rw [sign_directed, toNat_quotient] at sign
    rw [natAbs_directed, toNat_quotient]
    omega

/-- What is asked of the speed at a difference: the sign of the direction, no growth with
the difference, and the exact speed to the next millimetre, where it is of 16 bits. -/
structure SpeedFaithful (pin : Bool) (d : UInt32) : Prop where
  sign : 0 ≤ (direction pin).toInt * (diffCountsToSpeedInMMs pin d).toInt
  order : ∀ d', d ≤ d' → (diffCountsToSpeedInMMs pin d').toInt.natAbs ≤
    (diffCountsToSpeedInMMs pin d).toInt.natAbs
  accuracy : (51600000 : ℚ) / d.toNat ≤ 32767 →
    ((diffCountsToSpeedInMMs pin d).toInt.natAbs : ℚ) ≤ 51600000 / d.toNat ∧
      51600000 / d.toNat - ((diffCountsToSpeedInMMs pin d).toInt.natAbs : ℚ) < 102 / 100

/-- Two truncating divisions, scaled by 64 in between, lose less than 1.02. -/
theorem quotient_accuracy {d : Nat} (positive : 0 < d) :
    ((3072000000 / d * 1075 / 64000 : Nat) : ℚ) ≤ 51600000 / d ∧
      51600000 / (d : ℚ) - (3072000000 / d * 1075 / 64000 : Nat) < 102 / 100 := by
  have pos : (0 : ℚ) < d := by exact_mod_cast positive
  have exact : (3072000000 : ℚ) / d * 1075 / 64000 = 51600000 / d := by ring
  generalize scaled : 3072000000 / d = k
  generalize speed : k * 1075 / 64000 = v
  have below : (k : ℚ) ≤ 3072000000 / d := by
    rw [le_div_iff₀ pos]
    exact_mod_cast scaled ▸ Nat.div_mul_le_self _ _
  have above : (3072000000 : ℚ) / d < k + 1 := by
    rw [div_lt_iff₀ pos]
    have next := Nat.lt_div_mul_add positive (a := 3072000000)
    rw [scaled] at next
    have : 3072000000 < (k + 1) * d := by linarith
    exact_mod_cast this
  have low : (v : ℚ) * 64000 ≤ k * 1075 := by exact_mod_cast (by omega : v * 64000 ≤ k * 1075)
  have high : (k : ℚ) * 1075 < (v + 1) * 64000 := by
    exact_mod_cast (by omega : k * 1075 < (v + 1) * 64000)
  constructor <;> linarith

/-- **The speed** is what it should be exactly where it is of 16 bits. -/
theorem speedFaithful_iff (pin : Bool) (d : UInt32) : SpeedFaithful pin d ↔ 1575 ≤ d := by
  rw [UInt32.le_iff_toNat_le, show (1575 : UInt32).toNat = 1575 by decide]
  constructor
  · intro faithful
    by_contra short
    have longer : d ≤ 1575 := by
      rw [UInt32.le_iff_toNat_le, show (1575 : UInt32).toNat = 1575 by decide]
      omega
    have order := faithful.order 1575 longer
    have low := speed_not_fit pin (by omega) faithful.sign
    rw [(natAbs_speed pin (d := 1575) (by decide)).1] at order
    have : 3072000000 / (1575 : UInt32).toNat * 1075 / 64000 = 32761 := by decide
    omega
  · intro fits
    refine ⟨(natAbs_speed pin fits).2, ?_, ?_⟩
    · intro d' later
      rw [UInt32.le_iff_toNat_le] at later
      rw [(natAbs_speed pin fits).1, (natAbs_speed pin (le_trans fits later)).1]
      have := Nat.div_le_div_left later (by omega) (a := 3072000000)
      exact Nat.div_le_div_right (Nat.mul_le_mul_right _ this)
    · intro _
      rw [(natAbs_speed pin fits).1]
      exact quotient_accuracy (by omega)

end OlympusFirmware.Hermes
