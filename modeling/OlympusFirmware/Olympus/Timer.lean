import Mathlib.Data.Fintype.Card
import OlympusFirmware.Lib.Fsm

/-!
# Callback timers (`olympus/utils/timerCallback.c`)

The interrupt sets a flag; `serviceCallbackTimer`, called from the main loop, makes one pass
over the 32 slots of `timerList` for it, counts every timer in use down and calls those that
reach zero. A callback may add timers, to the same slots the pass is walking over, and says
by its result whether its own timer goes on.

The pass is cut into its steps, so that the interrupt and the callbacks' calls of
`addCallbackTimer` can come where they can come in the code: `visiting` is before a slot,
`calling` is inside the callback of one. `passes` counts the passes begun; these are the
serviced ticks. Each timer that is accepted gets a number, which stands for its callback and
parameters.
-/

namespace OlympusFirmware.Olympus

open OlympusFirmware.Lib

/-- `Timer_Return`. -/
inductive TimerReturn
  | disableTimer
  | continueTimer
deriving DecidableEq, Repr

/-- `CallbackTimer`. -/
structure CallbackTimer where
  currentValue : UInt32
  resetValue : UInt32
  id : Nat
deriving DecidableEq

/-- Where the main loop is. -/
inductive TimerPc
  | idle
  | visiting (ndx : Nat)
  | calling (ndx : Fin 32)
deriving DecidableEq

/-- The timers. The list has `MAX_NUM_CALLBACK_TIMERS` slots; one is free while its
`resetValue` is zero. -/
structure Timers where
  timerList : Fin 32 → CallbackTimer
  shouldService : Bool
  pc : TimerPc
  passes : Nat
  accepted : Nat

/-- What can happen: the interrupt, a call of `serviceCallbackTimer`, the next slot of its
pass, the return of a callback, and a call of `addCallbackTimer` with or without a callback,
from the main loop or from inside a callback. -/
inductive TimerEvent
  | isr
  | service
  | visit
  | ret (result : TimerReturn)
  | add (count : UInt32) (callback : Bool)
deriving DecidableEq

/-- What is seen: what `addCallbackTimer` returns, calls and their results. An accepted timer
and a call come with the number of the last serviced tick. -/
inductive TimerOutput
  | accepted (id : Nat) (count : UInt32) (tick : Nat)
  | refused
  | called (id tick : Nat)
  | returned (id : Nat) (result : TimerReturn)
deriving DecidableEq

/-- After `initIGVCCallbackTimer`. -/
def Timers.reset : Timers := ⟨fun _ => ⟨0, 0, 0⟩, false, .idle, 0, 0⟩

/-- The loop of `addCallbackTimer`: the first free slot. -/
def freeSlot (timerList : Fin 32 → CallbackTimer) : Option (Fin 32) :=
  (List.finRange 32).find? fun ndx => (timerList ndx).resetValue == 0

/-- `addCallbackTimer`. -/
def addCallbackTimer (s : Timers) (count : UInt32) (callback : Bool) :
    Timers × List TimerOutput :=
  if count = 0 ∨ callback = false then (s, [.refused])
  else
    match freeSlot s.timerList with
    | none => (s, [.refused])
    | some ndx =>
        ({ s with
          timerList := Function.update s.timerList ndx ⟨count, count, s.accepted⟩
          accepted := s.accepted + 1 }, [.accepted s.accepted count s.passes])

/-- One slot of a pass, up to the call of its callback. -/
def visitSlot (s : Timers) (ndx : Fin 32) : Timers × List TimerOutput :=
  let timer := s.timerList ndx
  if timer.resetValue ≠ 0 then
    let currentValue := timer.currentValue - 1
    let timerList := Function.update s.timerList ndx { timer with currentValue := currentValue }
    if currentValue = 0 then
      ({ s with timerList := timerList, pc := .calling ndx }, [.called timer.id s.passes])
    else
      ({ s with timerList := timerList, pc := .visiting (ndx + 1) }, [])
  else
    ({ s with pc := .visiting (ndx + 1) }, [])

/-- The rest of the slot, after the callback has returned. -/
def finishCall (s : Timers) (ndx : Fin 32) (result : TimerReturn) : Timers × List TimerOutput :=
  let timer := s.timerList ndx
  let resetValue := if result = .disableTimer then 0 else timer.resetValue
  ({ s with
    timerList := Function.update s.timerList ndx ⟨resetValue, resetValue, timer.id⟩
    pc := .visiting (ndx + 1) }, [.returned timer.id result])

/-- One event. An event that the code cannot come to where it is does nothing. -/
def timerStep (s : Timers) (event : TimerEvent) : Timers × List TimerOutput :=
  match event, s.pc with
  | .isr, _ => ({ s with shouldService := true }, [])
  | .service, .idle =>
      if s.shouldService then ({ s with pc := .visiting 0, passes := s.passes + 1 }, [])
      else (s, [])
  | .visit, .visiting ndx =>
      if inside : ndx < 32 then visitSlot s ⟨ndx, inside⟩
      else ({ s with shouldService := false, pc := .idle }, [])
  | .ret result, .calling ndx => finishCall s ndx result
  | .add count callback, .idle => addCallbackTimer s count callback
  | .add count callback, .calling _ => addCallbackTimer s count callback
  | _, _ => (s, [])

/-- The timers as a machine. -/
def timerFSM : Fsm Timers TimerEvent TimerOutput where
  step := timerStep

/-- The rest of a pass from slot `ndx` on, when no timer is due in it. -/
def quietPass (ndx : Nat) : List TimerEvent := List.replicate (33 - ndx) .visit

theorem quietPass_cons {ndx : Nat} (inside : ndx < 33) :
    quietPass ndx = .visit :: quietPass (ndx + 1) := by
  unfold quietPass
  rw [← List.replicate_succ]
  congr 1
  omega

/-- A pass over free slots calls nothing and clears the flag. -/
theorem run_quietPass {s : Timers} {ndx : Nat} (inside : ndx ≤ 32)
    (visiting : s.pc = .visiting ndx)
    (free : ∀ slot : Fin 32, ndx ≤ slot.val → (s.timerList slot).resetValue = 0) :
    timerFSM.after s (quietPass ndx) = { s with shouldService := false, pc := .idle } ∧
      timerFSM.outputs s (quietPass ndx) = [] := by
  induction left : 32 - ndx generalizing s ndx with
  | zero =>
      obtain rfl : ndx = 32 := by omega
      have step : timerStep s .visit = ({ s with shouldService := false, pc := .idle }, []) := by
        simp [timerStep, visiting]
      rw [quietPass_cons (by omega)]
      exact ⟨congrArg Prod.fst step, by simp [quietPass, Fsm.emit, timerFSM, step]⟩
  | succ k ih =>
      have slotInside : ndx < 32 := by omega
      have step : timerStep s .visit = ({ s with pc := .visiting (ndx + 1) }, []) := by
        simp [timerStep, visiting, slotInside, visitSlot, free ⟨ndx, slotInside⟩ (le_refl ndx)]
      have rest := @ih { s with pc := .visiting (ndx + 1) } (ndx + 1) (by omega) rfl
        (fun slot past => free slot (by omega)) (by omega)
      rw [quietPass_cons (by omega), Fsm.after_cons, Fsm.outputs_cons]
      show timerFSM.after (timerStep s .visit).1 _ = _ ∧
        (timerStep s .visit).2 ++ timerFSM.outputs (timerStep s .visit).1 _ = _
      rw [step]
      exact rest

/-- What an event can come to. -/
inductive TimerCase (s : Timers) : TimerEvent → Timers × List TimerOutput → Prop
  | nothing (event : TimerEvent) (still : event ≠ .isr)
      (waiting : event = .service → s.pc = .idle → s.shouldService = false) :
      TimerCase s event (s, [])
  | isr : TimerCase s .isr ({ s with shouldService := true }, [])
  | start (idle : s.pc = .idle) (flag : s.shouldService = true) :
      TimerCase s .service ({ s with pc := .visiting 0, passes := s.passes + 1 }, [])
  | finish {ndx : Nat} (visiting : s.pc = .visiting ndx) (past : 32 ≤ ndx) :
      TimerCase s .visit ({ s with shouldService := false, pc := .idle }, [])
  | slot {ndx : Fin 32} (visiting : s.pc = .visiting ndx) :
      TimerCase s .visit (visitSlot s ndx)
  | ret {ndx : Fin 32} (calling : s.pc = .calling ndx) (result : TimerReturn) :
      TimerCase s (.ret result) (finishCall s ndx result)
  | add (count : UInt32) (callback : Bool) (between : ∀ ndx, s.pc ≠ .visiting ndx) :
      TimerCase s (.add count callback) (addCallbackTimer s count callback)

theorem timerStep_case (s : Timers) (event : TimerEvent) :
    TimerCase s event (timerStep s event) := by
  unfold timerStep
  cases event with
  | isr => exact .isr
  | service =>
      cases pc : s.pc with
      | idle =>
          simp only
          split
          case isTrue flag => exact .start pc flag
          case isFalse flag => exact .nothing _ (by simp) fun _ _ => by simpa using flag
      | visiting ndx => exact .nothing _ (by simp) (by simp [pc])
      | calling ndx => exact .nothing _ (by simp) (by simp [pc])
  | visit =>
      cases pc : s.pc with
      | idle => exact .nothing _ (by simp) (by simp)
      | visiting ndx =>
          simp only
          split
          case isTrue inside => exact @TimerCase.slot s ⟨ndx, inside⟩ pc
          case isFalse past => exact .finish pc (by omega)
      | calling ndx => exact .nothing _ (by simp) (by simp)
  | ret result =>
      cases pc : s.pc with
      | idle => exact .nothing _ (by simp) (by simp)
      | visiting ndx => exact .nothing _ (by simp) (by simp)
      | calling ndx => exact .ret pc result
  | add count callback =>
      cases pc : s.pc with
      | idle => exact .add count callback (by simp [pc])
      | visiting ndx => exact .nothing _ (by simp) (by simp)
      | calling ndx => exact .add count callback (by simp [pc])

/-! ## What timers are for -/

/-- The ticks at which a timer was called. -/
def calls (hist : List TimerOutput) (id : Nat) : List Nat :=
  hist.filterMap fun
    | .called called tick => if called = id then some tick else none
    | _ => none

/-- What its callback returned. -/
def results (hist : List TimerOutput) (id : Nat) : List TimerReturn :=
  hist.filterMap fun
    | .returned returned result => if returned = id then some result else none
    | _ => none

/-- `tick + count`, `tick + 2 * count` and so on, `k` of them. -/
def multiples (tick count k : Nat) : List Nat :=
  (List.range k).map fun m => tick + (m + 1) * count

/-- The last tick whose pass is over. -/
def Timers.served (s : Timers) : Nat :=
  if s.pc = .idle then s.passes else s.passes - 1

/-- A timer accepted with `count` after the serviced tick `tick` has been called at every
`count`-th tick since and at no other, up to `now` or to the call that disabled it. The last
call may still be running. -/
def OnSchedule (hist : List TimerOutput) (now id count tick : Nat) : Prop :=
  ∃ k, calls hist id = multiples tick count k ∧
    ((now < tick + (k + 1) * count ∧
        ∃ m, (m = k ∨ m + 1 = k) ∧ results hist id = List.replicate m .continueTimer) ∨
      ∃ m, k = m + 1 ∧ results hist id = List.replicate m .continueTimer ++ [.disableTimer])

/-- How many timers have been accepted. -/
def acceptedCount (hist : List TimerOutput) : Nat :=
  hist.countP fun | .accepted .. => true | _ => false

/-- How many have been disabled. -/
def disabledCount (hist : List TimerOutput) : Nat :=
  hist.countP fun | .returned _ .disableTimer => true | _ => false

/-- How many timers have been accepted and not been disabled. -/
def liveTimers (hist : List TimerOutput) : Nat :=
  acceptedCount hist - disabledCount hist

/-- A timer that a callback adds goes to a slot before the callback's own. -/
def AddsBelow (s : Timers) : TimerEvent → Prop
  | .add count callback => 0 < count → callback = true →
      ∀ ndx, s.pc = .calling ndx → ∀ slot ∈ freeSlot s.timerList, slot < ndx
  | _ => True

instance (s : Timers) : (event : TimerEvent) → Decidable (AddsBelow s event)
  | .add _ _ => inferInstanceAs (Decidable (_ → _ → _))
  | .isr | .service | .visit | .ret _ => .isTrue trivial

end OlympusFirmware.Olympus
