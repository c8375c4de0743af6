import OlympusFirmware.Hephaestus.Comms
import OlympusFirmware.Hermes.Comms
import OlympusFirmware.Hermes.Speed

/-!
# The steering speed of Hephaestus (`hephaestus/drivers/steer_speed.c`)

`d` ticks of the 48 MHz clock for one of the 200 counts of a revolution are 240000 / d
thousandths of a revolution a second. Up to 7 ticks that does not fit in 16 bits, and the
narrowed quotient is taken for the speed.
-/

namespace OlympusFirmware.Hephaestus

open OlympusFirmware.Lib OlympusFirmware.SlaveLib

/-- `CK_FREQ`. -/
def ckFreq : UInt32 := 48000000

/-- `TICKS_PER_REV`. -/
def ticksPerRev : UInt32 := 200

/-- `MIN_TIMEOUT`. -/
def minTimeout : UInt32 := 1000

/-- `clk_ticks_to_speed_mRev_s`, with the level of its direction pin. -/
def clkTicksToSpeedMRevS (pin : Bool) (diffCounts : UInt32) : Int16 :=
  if diffCounts = 0 then 0
  else directed pin (ckFreq / ticksPerRev / diffCounts)

/-- `TIM2_IRQHandler`. -/
def tim2IrqHandler (pin : Bool) := captureIrq (clkTicksToSpeedMRevS pin)

/-- `check_steer_speed_timeout`. -/
def checkSteerSpeedTimeout := captureTimeout minTimeout

/-- The capture interrupt and the timeout, with the direction pin at one level. -/
def steerSpeedMachine (pin : Bool) := captureMachine (clkTicksToSpeedMRevS pin) minTimeout

/-- The variables that messages reach, with the slot that `get_steer_speed_callback` reads. -/
def Vars.captured (s : SpeedCapture) (h : Vars) : Vars := { h with steerSpeed := s.speed.read }

/-! ## The conversion -/

/-- What is asked of the steering speed at a difference: the sign of the direction, and the
exact speed rounded down, where it is of 16 bits. -/
structure SteerSpeedFaithful (pin : Bool) (d : UInt32) : Prop where
  sign : 0 ≤ (direction pin).toInt * (clkTicksToSpeedMRevS pin d).toInt
  exact : 240000 / d.toNat ≤ 32767 →
    (clkTicksToSpeedMRevS pin d).toInt.natAbs = 240000 / d.toNat

/-- **The steering speed** is what it should be exactly where it is of 16 bits, and for 3
ticks, where bit 15 of the quotient happens to be clear. -/
theorem steerSpeedFaithful_iff (pin : Bool) {d : UInt32} (nonzero : d ≠ 0) :
    SteerSpeedFaithful pin d ↔ d = 3 ∨ 8 ≤ d := by
  have positive : d.toNat ≠ 0 := by simpa [← UInt32.toNat_inj] using nonzero
  have quotient : (ckFreq / ticksPerRev / d).toNat = 240000 / d.toNat := by
    simp [ckFreq, ticksPerRev]
  have value : clkTicksToSpeedMRevS pin d = directed pin (ckFreq / ticksPerRev / d) :=
    if_neg nonzero
  rw [UInt32.le_iff_toNat_le, ← UInt32.toNat_inj, show (8 : UInt32).toNat = 8 by decide,
    show (3 : UInt32).toNat = 3 by decide]
  constructor
  · intro faithful
    have sign := faithful.sign
    rw [value, sign_directed, quotient] at sign
    by_contra short
    rw [not_or, not_le] at short
    have cases : d.toNat = 1 ∨ d.toNat = 2 ∨ d.toNat = 4 ∨ d.toNat = 5 ∨ d.toNat = 6 ∨
        d.toNat = 7 := by omega
    rcases cases with h | h | h | h | h | h <;> rw [h] at sign <;> omega
  · rintro (three | fits)
    · refine ⟨?_, ?_⟩
      · rw [value, sign_directed, quotient, three]
        exact .inl (by decide)
      · intro small
        rw [three] at small
        omega
    · have small : 240000 / d.toNat ≤ 240000 / 8 := Nat.div_le_div_left fits (by decide)
      refine ⟨?_, ?_⟩
      · rw [value, sign_directed, quotient]
        omega
      · intro _
        rw [value, natAbs_directed, quotient]
        omega

/-- The two conversions of the boards. -/
theorem speed_conversions_iff (pin pin' : Bool) (d : UInt32) {e : UInt32} (steer : e ≠ 0) :
    (Hermes.SpeedFaithful pin d ↔ 1575 ≤ d) ∧
      (SteerSpeedFaithful pin' e ↔ e = 3 ∨ 8 ≤ e) :=
  ⟨Hermes.speedFaithful_iff pin d, steerSpeedFaithful_iff pin' steer⟩

/-- Two differences on the two boards. -/
theorem speed_conversions_at : (Hermes.SpeedFaithful true 2000 ↔ (1575 : UInt32) ≤ 2000) ∧
    (SteerSpeedFaithful false 5 ↔ (5 : UInt32) = 3 ∨ (8 : UInt32) ≤ 5) :=
  speed_conversions_iff true false 2000 (by decide)

/-- 51.6 m/s forward is given as 13.9 m/s backward. -/
theorem speed_conversion_fails : ¬ ∀ (pin pin' : Bool) (d e : UInt32), d ≠ 0 → e ≠ 0 →
    Hermes.SpeedFaithful pin d ∧ SteerSpeedFaithful pin' e := by
  intro faithful
  have sign := (faithful false false 1000 8 (by decide) (by decide)).1.sign
  have backward : Hermes.diffCountsToSpeedInMMs false 1000 = -13936 := by decide
  rw [backward] at sign
  revert sign
  decide

/-! ## The capture -/

/-- The speeds of both boards after a capture that follows another: those of the modular
difference, unless the counter has wrapped and one tick less is another speed. -/
theorem captured_speeds_iff (pin : Bool) (s t : SpeedCapture) (h : Vars) {xs ys : List CaptureEvent}
    {old old' : UInt32} {r r' : TimerRegisters} (last : (captures xs).getLast? = some old)
    (last' : (captures ys).getLast? = some old') (flag : r.flag) (flag' : r'.flag) :
    (Hermes.getSpeed (Hermes.tim2IrqHandler pin r ((Hermes.speedMachine pin).after s xs)) =
        Hermes.diffCountsToSpeedInMMs pin (r.capture - old) ↔
      old ≤ r.capture ∨ Hermes.diffCountsToSpeedInMMs pin (r.capture - old - 1) =
        Hermes.diffCountsToSpeedInMMs pin (r.capture - old)) ∧
    ((h.captured (tim2IrqHandler pin r' ((steerSpeedMachine pin).after t ys))).steerSpeed =
        clkTicksToSpeedMRevS pin (r'.capture - old') ↔
      old' ≤ r'.capture ∨ clkTicksToSpeedMRevS pin (r'.capture - old' - 1) =
        clkTicksToSpeedMRevS pin (r'.capture - old')) :=
  ⟨read_captureIrq_iff last flag, read_captureIrq_iff last' flag'⟩

/-- A capture of each board after a timeout, the counter of Hermes having wrapped. -/
theorem captured_speeds_at :
    (Hermes.getSpeed (Hermes.tim2IrqHandler false ⟨true, 1744, 9⟩
          ((Hermes.speedMachine false).after .reset [.irq ⟨true, 0xFFFFFF00, 8⟩, .timeout 5000])) =
        Hermes.diffCountsToSpeedInMMs false (1744 - 0xFFFFFF00) ↔
      (0xFFFFFF00 : UInt32) ≤ 1744 ∨
        Hermes.diffCountsToSpeedInMMs false (1744 - 0xFFFFFF00 - 1) =
          Hermes.diffCountsToSpeedInMMs false (1744 - 0xFFFFFF00)) ∧
    ((Vars.reset.captured (tim2IrqHandler false ⟨true, 500, 9⟩ ((steerSpeedMachine false).after
          .reset [.irq ⟨true, 200, 8⟩, .irq ⟨false, 300, 8⟩]))).steerSpeed =
        clkTicksToSpeedMRevS false (500 - 200) ↔
      (200 : UInt32) ≤ 500 ∨ clkTicksToSpeedMRevS false (500 - 200 - 1) =
        clkTicksToSpeedMRevS false (500 - 200)) :=
  captured_speeds_iff false .reset .reset .reset (by decide) (by decide) rfl rfl

/-- Captures 2000 ticks apart, with the counter's wrap between them, are given the speed of
1999 ticks. -/
theorem captured_speed_fails :
    Hermes.getSpeed (Hermes.tim2IrqHandler false ⟨true, 1744, 1⟩
        ((Hermes.speedMachine false).after .reset [.irq ⟨true, 0xFFFFFF00, 0⟩])) ≠
      Hermes.diffCountsToSpeedInMMs false (1744 - 0xFFFFFF00) := by
  decide

end OlympusFirmware.Hephaestus
