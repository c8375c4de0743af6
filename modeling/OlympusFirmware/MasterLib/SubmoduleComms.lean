import OlympusFirmware.Update.Board

/-!
# The wait of `messageSubmodule` (`master_lib/drivers/submoduleComms.c`)

After a request the master waits for the slave's pin. The deadline is a sum of ticks that
wraps, it is compared with `<`, and when the loop is left the clock is read once more to
tell an answer from a timeout.

What happens outside is a schedule: how many ticks pass before each read, and the level
the pin has when it is read.
-/

namespace OlympusFirmware.MasterLib

open OlympusFirmware.MasterBoot (Module)
open OlympusFirmware.Update (commsErrTimeout)

/-- `SUBMODULE_START_BYTE`. -/
def submoduleStartByte : UInt8 := 0xEA

/-- One turn of a wait: the ticks before the pin is read, its level, the ticks before the
next clock read, and those before the clock is read again if the loop ends on the clock. -/
structure Turn where
  toPin : Nat
  level : Bool
  toClock : Nat
  toVerdict : Nat

/-- What is outside of a call. -/
structure Surroundings where
  /-- the turns of the wait for the answer -/
  wait : List Turn
  /-- what `HAL_SPI_Receive` leaves in `status` -/
  status : UInt8
  /-- the ticks until the second deadline is computed -/
  receiving : Nat
  /-- the turns of the wait for the end of the answer -/
  finish : List Turn

/-- A read of the pin, and the ticks since the deadline was computed. -/
structure PinRead where
  elapsed : Nat
  level : Bool

/-- The pin reads of a wait, and the ticks elapsed at the clock read behind the loop. -/
structure Waited where
  reads : List PinRead
  left : Option Nat

/-- What is done on the bus. -/
inductive BusOp
  | select (module : Module)
  | transmitReceive (bytes : List UInt8)
  | receiveStatus
  | receiveData (size : UInt8)
  | deselect (module : Module)

/-- A call: what it does, how the pin was read while it waited for the answer, and what it
returns if it does. -/
structure Call where
  ops : List BusOp
  reads : List PinRead
  returned : Option UInt8

/-- `HAL_GetTick`, `elapsed` ticks after it was `start`. -/
def tickAt (start : UInt32) (elapsed : Nat) : UInt32 := start + UInt32.ofNat elapsed

/-- `while (HAL_GPIO_ReadPin(..) != level && HAL_GetTick() < timeUp);` -/
def waitFor (level : Bool) (start timeUp : UInt32) : Nat → List Turn → Waited
  | _, [] => ⟨[], none⟩
  | elapsed, turn :: rest =>
    let atPin := elapsed + turn.toPin
    let atClock := atPin + turn.toClock
    if turn.level = level then
      -- the clock is not read by the loop
      ⟨[⟨atPin, turn.level⟩], some atClock⟩
    else if tickAt start atClock < timeUp then
      let waited := waitFor level start timeUp atClock rest
      ⟨⟨atPin, turn.level⟩ :: waited.reads, waited.left⟩
    else
      ⟨[⟨atPin, turn.level⟩], some (atClock + turn.toVerdict)⟩

/-- `messageSubmodule`, called so that the first deadline is computed at `start`. -/
def messageSubmodule (start : UInt32) (module : Module) (msgType : UInt8) (buff : List UInt8)
    (rxSize : UInt8) (timeout : UInt32) (env : Surroundings) : Call :=
  let request := [.select module, .transmitReceive [submoduleStartByte, msgType]] ++
    if buff = [] then [] else [.transmitReceive buff]
  let timeUp := start + timeout
  let waited := waitFor true start timeUp 0 env.wait
  match waited.left with
  | none => ⟨request, waited.reads, none⟩
  | some atVerdict =>
    if timeUp ≤ tickAt start atVerdict then
      ⟨request ++ [.deselect module], waited.reads, some commsErrTimeout⟩
    else
      let received := request ++
        .receiveStatus :: if rxSize = 0 then [] else [.receiveData rxSize]
      let again := tickAt start (atVerdict + env.receiving)
      match (waitFor false again (again + timeout) 0 env.finish).left with
      | none => ⟨received, waited.reads, none⟩
      | some _ => ⟨received ++ [.deselect module], waited.reads, some env.status⟩

/-- What is asked of a call: it returns a timeout only if the pin was never read as set in
time, and if the pin was read as set the status is received. -/
structure TimeoutsExact (timeout : UInt32) (call : Call) : Prop where
  only : call.returned = some commsErrTimeout →
    ∀ read ∈ call.reads, read.level = true → ¬ read.elapsed % 2 ^ 32 ≤ timeout.toNat
  receives : (∃ read ∈ call.reads, read.level = true) → .receiveStatus ∈ call.ops

/-! ## When the clock is below a wrapped deadline -/

/-- The ticks until the clock is zero again. -/
def toWrap (start : UInt32) : Nat := 2 ^ 32 - start.toNat

/-- `elapsed` ticks after `start` the clock is below the sum `start + timeout`: if the sum
does not wrap, before the deadline or when the clock itself has wrapped; if it wraps, only
when the clock has wrapped too and before the deadline. -/
def BelowDeadline (start timeout : UInt32) (elapsed : Nat) : Prop :=
  if timeout.toNat < toWrap start then
    elapsed % 2 ^ 32 < timeout.toNat ∨ toWrap start ≤ elapsed % 2 ^ 32
  else
    toWrap start ≤ elapsed % 2 ^ 32 ∧ elapsed % 2 ^ 32 < timeout.toNat

theorem tickAt_toNat (start : UInt32) (elapsed : Nat) :
    (tickAt start elapsed).toNat = (start.toNat + elapsed) % 2 ^ 32 := by
  show (start + UInt32.ofNat elapsed).toNat = _
  rw [UInt32.toNat_add, UInt32.toNat_ofNat', Nat.add_mod_mod]

theorem tickAt_lt_iff (start timeout : UInt32) (elapsed : Nat) :
    tickAt start elapsed < start + timeout ↔ BelowDeadline start timeout elapsed := by
  have below := start.toNat_lt
  have small := timeout.toNat_lt
  have wrapped := Nat.mod_lt elapsed (show 0 < 2 ^ 32 by decide)
  have tick : (start.toNat + elapsed) % 2 ^ 32 =
      (start.toNat + elapsed % 2 ^ 32) % 2 ^ 32 := by rw [Nat.add_mod_mod]
  rw [UInt32.lt_iff_toNat_lt, tickAt_toNat, UInt32.toNat_add, tick]
  unfold BelowDeadline toWrap
  split <;> omega

/-! ## The exact condition -/

/-- In every turn that is reached and reads the pin as set, the clock that is read next is
below the deadline, and a slave that answers in time does not send the code of a timeout as
its status. A turn is reached while the clock is below the deadline. -/
def AnswersInTime (start timeout : UInt32) (status : UInt8) : Nat → List Turn → Prop
  | _, [] => True
  | elapsed, turn :: rest =>
    let atPin := elapsed + turn.toPin
    let atClock := atPin + turn.toClock
    if turn.level = true then
      BelowDeadline start timeout atClock ∧
        (atPin % 2 ^ 32 ≤ timeout.toNat → status ≠ commsErrTimeout)
    else
      BelowDeadline start timeout atClock → AnswersInTime start timeout status atClock rest

/-- What a read of a set pin asks of the wait it is in. -/
structure Waited.Answered (waited : Waited) (start timeout : UInt32) (status : UInt8)
    (read : PinRead) : Prop where
  left : ∃ atVerdict, waited.left = some atVerdict ∧ tickAt start atVerdict < start + timeout
  status : read.elapsed % 2 ^ 32 ≤ timeout.toNat → status ≠ commsErrTimeout

section

variable (start timeout : UInt32) (status : UInt8)

theorem answersInTime_iff (elapsed : Nat) (turns : List Turn) :
    AnswersInTime start timeout status elapsed turns ↔
      ∀ read ∈ (waitFor true start (start + timeout) elapsed turns).reads, read.level = true →
        (waitFor true start (start + timeout) elapsed turns).Answered start timeout status
          read := by
  induction turns generalizing elapsed with
  | nil => simp [AnswersInTime, waitFor]
  | cons turn rest ih =>
    simp only [AnswersInTime, waitFor]
    cases set : turn.level with
    | true =>
      simp only [if_true, List.mem_singleton, forall_eq, forall_const]
      rw [← tickAt_lt_iff]
      constructor
      · intro ⟨below, distinct⟩
        exact ⟨⟨_, rfl, below⟩, distinct⟩
      · intro answered
        obtain ⟨_, same, below⟩ := answered.left
        cases same
        exact ⟨below, answered.status⟩
    | false =>
      simp only [Bool.false_eq_true, if_false]
      rw [← tickAt_lt_iff]
      split
      next below =>
        -- the read of this turn asks for nothing
        simp only [below, forall_const, List.mem_cons, forall_eq_or_imp, Bool.false_eq_true,
          false_implies, true_and]
        rw [ih]
        constructor
        · intro answered read mem set
          exact ⟨(answered read mem set).left, (answered read mem set).status⟩
        · intro answered read mem set
          exact ⟨(answered read mem set).left, (answered read mem set).status⟩
      next late => simp [late]

end

section

variable (start : UInt32) (module : Module) (msgType : UInt8) (buff : List UInt8)
  (rxSize : UInt8) (timeout : UInt32) (env : Surroundings)

theorem messageSubmodule_reads :
    (messageSubmodule start module msgType buff rxSize timeout env).reads =
      (waitFor true start (start + timeout) 0 env.wait).reads := by
  unfold messageSubmodule
  dsimp only
  split
  · rfl
  · split
    · rfl
    · split <;> rfl

variable {start timeout}

/-- The clock read behind the loop decides. -/
theorem messageSubmodule_receives {atVerdict : Nat}
    (left : (waitFor true start (start + timeout) 0 env.wait).left = some atVerdict)
    (below : tickAt start atVerdict < start + timeout) :
    .receiveStatus ∈ (messageSubmodule start module msgType buff rxSize timeout env).ops ∧
    ((messageSubmodule start module msgType buff rxSize timeout env).returned = none ∨
      (messageSubmodule start module msgType buff rxSize timeout env).returned =
        some env.status) := by
  unfold messageSubmodule
  dsimp only
  rw [left]
  dsimp only
  rw [if_neg (UInt32.not_le.mpr below)]
  split
  · exact ⟨by simp, .inl rfl⟩
  · exact ⟨by simp, .inr rfl⟩

theorem messageSubmodule_received
    (received : .receiveStatus ∈
      (messageSubmodule start module msgType buff rxSize timeout env).ops) :
    ∃ atVerdict, (waitFor true start (start + timeout) 0 env.wait).left = some atVerdict ∧
      tickAt start atVerdict < start + timeout := by
  unfold messageSubmodule at received
  dsimp only at received
  split at received
  next waiting =>
    split at received <;> simp at received
  next atVerdict left =>
    split at received
    next late =>
      split at received <;> simp at received
    next early => exact ⟨atVerdict, left, UInt32.not_le.mp early⟩

/-- A slave whose pin is reset when it is first read again. -/
theorem messageSubmodule_returns_status {atVerdict : Nat}
    (left : (waitFor true start (start + timeout) 0 env.wait).left = some atVerdict)
    (below : tickAt start atVerdict < start + timeout) :
    (messageSubmodule start module msgType buff rxSize timeout
      { env with finish := [⟨0, false, 0, 0⟩] }).returned = some env.status := by
  unfold messageSubmodule
  dsimp only
  rw [left]
  dsimp only
  rw [if_neg (UInt32.not_le.mpr below)]
  simp [waitFor]

end

/-- The timeouts are exact, however the call goes on after its verdict, if and only if the
answer is in time. -/
theorem timeouts_exact_iff (start : UInt32) (module : Module) (msgType : UInt8)
    (buff : List UInt8) (rxSize : UInt8) (timeout : UInt32) (wait : List Turn) (status : UInt8) :
    (∀ (receiving : Nat) (finish : List Turn),
      TimeoutsExact timeout (messageSubmodule start module msgType buff rxSize timeout
        ⟨wait, status, receiving, finish⟩)) ↔
      AnswersInTime start timeout status 0 wait := by
  rw [answersInTime_iff]
  constructor
  · intro holds read mem set
    have now := holds 0 [⟨0, false, 0, 0⟩]
    rw [← messageSubmodule_reads start module msgType buff rxSize timeout
      ⟨wait, status, 0, [⟨0, false, 0, 0⟩]⟩] at mem
    obtain ⟨atVerdict, left, below⟩ :=
      messageSubmodule_received module msgType buff rxSize _ (now.receives ⟨read, mem, set⟩)
    refine ⟨⟨atVerdict, left, below⟩, ?_⟩
    intro early same
    have returned := messageSubmodule_returns_status module msgType buff rxSize
      ⟨wait, status, 0, []⟩ left below
    exact now.only (same ▸ returned) read mem set early
  · intro answered receiving finish
    constructor
    · intro returned read mem set early
      rw [messageSubmodule_reads] at mem
      obtain ⟨⟨atVerdict, left, below⟩, distinct⟩ := answered read mem set
      obtain ⟨-, waiting | status⟩ := messageSubmodule_receives module msgType buff rxSize
        ⟨wait, status, receiving, finish⟩ left below
      · rw [waiting] at returned
        cases returned
      · rw [status] at returned
        exact distinct early (Option.some.inj returned)
    · intro ⟨read, mem, set⟩
      rw [messageSubmodule_reads] at mem
      obtain ⟨⟨atVerdict, left, below⟩, -⟩ := answered read mem set
      exact (messageSubmodule_receives module msgType buff rxSize
        ⟨wait, status, receiving, finish⟩ left below).1

/-- Sixteen ticks before the clock wraps the pin is set at once, and no tick passes: the
deadline has wrapped, and the answer is taken for a timeout. -/
theorem answer_before_wrap_times_out :
    ¬ TimeoutsExact 100 (messageSubmodule 0xFFFFFFF0 .hermes 0 [] 0 100
      ⟨[⟨0, true, 0, 0⟩], 0xAA, 0, [⟨0, false, 0, 0⟩]⟩) := by
  intro holds
  exact holds.only (by decide) ⟨0, true⟩ (by simp [messageSubmodule_reads, waitFor]) rfl
    (by decide)

end OlympusFirmware.MasterLib
