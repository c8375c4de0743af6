import OlympusFirmware.Olympus.ConsoleCommands

/-!
# Numbers from the console (`olympus/drivers/console.c`)

`parseUint8` and `parseUint16` see that a number does not fit, print that and return its
last bits all the same. Of their three callers none has more to go by than these bits and
`errno`, which is set for numbers of more than 32 bits: a number that does not fit is sent
to the actuator when its last bits look right.
-/

namespace OlympusFirmware.Olympus

/-- The three functions that send a number. -/
inductive NumberCommand
  | fnr
  | speed
  | steer
deriving DecidableEq

namespace NumberCommand

/-- Their entries in the table. -/
def callback : NumberCommand → ConsoleCallback
  | .fnr => .setFNR
  | .speed => .setSpeedTarget
  | .steer => .setSteerTarget

/-- The numbers they are for are below this. -/
def limit : NumberCommand → Int
  | .fnr => 3
  | .speed => 65536
  | .steer => 180

end NumberCommand

/-- The number in a request, if it has one. -/
def RequestFunction.number : RequestFunction → Option Int
  | .setFNR state => some state.toNat
  | .updateHermesSetSpeedTarget speedTargetMMs => some speedTargetMMs.toNat
  | .setHephaestusSteering angle => some angle.toNat
  | _ => none

section Numbers

variable (atoi : List UInt8 → Int × Bool)

/-- Whatever a command sends for this argument is the number it stands for, and in range. -/
def SendsNumber (m : NumberCommand) (s : CommandState) (argv : List (List UInt8)) : Prop :=
  ∀ request, .send request ∈ (m.callback.call atoi s argv).2 →
    request.number = some (strtol (argv.getD 0 [])).1 ∧
      0 ≤ (strtol (argv.getD 0 [])).1 ∧ (strtol (argv.getD 0 [])).1 < m.limit

/-- The last eight bits of a number. -/
theorem toNat_uint8_ofInt (v : Int) : ((UInt8.ofInt v).toNat : Int) = v % 256 := by
  have nonneg := Int.emod_nonneg v (by decide : (256 : Int) ≠ 0)
  have below := Int.emod_lt_of_pos v (by decide : (0 : Int) < 256)
  rw [UInt8.ofInt, UInt8.toNat_ofNat']
  omega

/-- The last sixteen bits of a number. -/
theorem toNat_uint16_ofInt (v : Int) : ((UInt16.ofInt v).toNat : Int) = v % 65536 := by
  have nonneg := Int.emod_nonneg v (by decide : (65536 : Int) ≠ 0)
  have below := Int.emod_lt_of_pos v (by decide : (0 : Int) < 65536)
  rw [UInt16.ofInt, UInt16.toNat_ofNat']
  omega

variable {atoi}

/-- A gear is sent whatever `errno` says: a number that is none is kept back only by its last
bits. -/
theorem sendsNumber_fnr_iff (s : CommandState) (argv : List (List UInt8)) :
    SendsNumber atoi .fnr s argv ↔
      (0 ≤ (strtol (argv.getD 0 [])).1 ∧ (strtol (argv.getD 0 [])).1 < 3) ∨
        3 ≤ (strtol (argv.getD 0 [])).1 % 256 := by
  unfold SendsNumber
  generalize num : strtol (argv.getD 0 []) = v
  have last := toNat_uint8_ofInt v.1
  have sent : (NumberCommand.fnr.callback.call atoi s argv).2 =
      if UInt8.ofInt v.1 ≤ 2 then [.send (.setFNR (.ofInt v.1))] else [] := by
    simp only [NumberCommand.callback, ConsoleCallback.call, parseUint8, num]
  have taken_iff : UInt8.ofInt v.1 ≤ 2 ↔ v.1 % 256 < 3 := by
    rw [UInt8.le_iff_toNat_le, show (2 : UInt8).toNat = 2 by decide]
    omega
  rw [sent]
  by_cases taken : v.1 % 256 < 3
  · rw [if_pos (taken_iff.mpr taken)]
    simp [RequestFunction.number, NumberCommand.limit, last]
    omega
  · rw [if_neg (mt taken_iff.mp taken)]
    simp
    omega

/-- A speed is kept back by `errno` only. -/
theorem sendsNumber_speed_iff (s : CommandState) (argv : List (List UInt8)) :
    SendsNumber atoi .speed s argv ↔
      (0 ≤ (strtol (argv.getD 0 [])).1 ∧ (strtol (argv.getD 0 [])).1 < 65536) ∨
        (s.errno || (strtol (argv.getD 0 [])).2) = true := by
  unfold SendsNumber
  generalize num : strtol (argv.getD 0 []) = v
  have last := toNat_uint16_ofInt v.1
  have sent : (NumberCommand.speed.callback.call atoi s argv).2 =
      if !(s.errno || v.2) then [.send (.updateHermesSetSpeedTarget (.ofInt v.1))] else [] := by
    simp only [NumberCommand.callback, ConsoleCallback.call, parseUint16, num]
  rw [sent]
  cases flag : s.errno || v.2
  · simp [RequestFunction.number, NumberCommand.limit]
    omega
  · simp

/-- An angle is kept back by `errno`, or by its last bits. -/
theorem sendsNumber_steer_iff (s : CommandState) (argv : List (List UInt8)) :
    SendsNumber atoi .steer s argv ↔
      (0 ≤ (strtol (argv.getD 0 [])).1 ∧ (strtol (argv.getD 0 [])).1 < 180) ∨
        180 ≤ (strtol (argv.getD 0 [])).1 % 256 ∨
          (s.errno || (strtol (argv.getD 0 [])).2) = true := by
  unfold SendsNumber
  generalize num : strtol (argv.getD 0 []) = v
  have last := toNat_uint8_ofInt v.1
  have sent : (NumberCommand.steer.callback.call atoi s argv).2 =
      if !(s.errno || v.2) && UInt8.ofInt v.1 < 180 then
        [.send (.setHephaestusSteering (.ofInt v.1))] else [] := by
    simp only [NumberCommand.callback, ConsoleCallback.call, parseUint8, num]
  have taken_iff : UInt8.ofInt v.1 < 180 ↔ v.1 % 256 < 180 := by
    rw [UInt8.lt_iff_toNat_lt, show (180 : UInt8).toNat = 180 by decide]
    omega
  rw [sent]
  cases flag : s.errno || v.2
  · by_cases taken : v.1 % 256 < 180
    · simp [taken_iff.mpr taken, RequestFunction.number, NumberCommand.limit, last]
      omega
    · simp [mt taken_iff.mp taken]
      omega
  · simp

variable (atoi)

/-- **Numbers.** When each of the three commands sends nothing but the number its argument
stands for, in range: that number is in range, or its last bits are not, or `errno` is set
and tested. -/
theorem sendsNumber_iff (m : NumberCommand) (s : CommandState) (argv : List (List UInt8)) :
    SendsNumber atoi m s argv ↔
      (0 ≤ (strtol (argv.getD 0 [])).1 ∧ (strtol (argv.getD 0 [])).1 < m.limit) ∨
        match m with
        | .fnr => 3 ≤ (strtol (argv.getD 0 [])).1 % 256
        | .speed => (s.errno || (strtol (argv.getD 0 [])).2) = true
        | .steer => 180 ≤ (strtol (argv.getD 0 [])).1 % 256 ∨
            (s.errno || (strtol (argv.getD 0 [])).2) = true := by
  cases m with
  | fnr => exact sendsNumber_fnr_iff s argv
  | speed => exact sendsNumber_speed_iff s argv
  | steer => exact sendsNumber_steer_iff s argv

/-- The gear 256 is sent as the gear 0. -/
theorem fnr_256_sent : ¬ ∀ (m : NumberCommand) (s : CommandState) (argv : List (List UInt8)),
    SendsNumber strtol m s argv := by
  intro faithful
  have exact := faithful .fnr .reset [ascii "256"] (.setFNR 0) (by decide)
  have value : strtol (ascii "256") = (256, false) := by decide
  simp [value, RequestFunction.number] at exact

end Numbers

end OlympusFirmware.Olympus
