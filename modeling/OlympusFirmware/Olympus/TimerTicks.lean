import OlympusFirmware.Olympus.Timer

/-!
# Ticks of the callback timer

`CALLBACK_TIMER_ISR` asks for a pass by setting `shouldServiceCallbackTimer`, and
`serviceCallbackTimer` clears it, after the pass. An interrupt that comes while a pass is under
way sets a flag that is already set, and the clear takes it away with the one being served.
Every interrupt therefore becomes a pass, is waiting for one, or came during one and is lost.
-/

namespace OlympusFirmware.Olympus

open OlympusFirmware.Lib

/-- A call of `serviceCallbackTimer` begins between any two consecutive interrupts. -/
def Paced (events : List TimerEvent) : Prop :=
  ∀ pre mid post : List TimerEvent, events = pre ++ .isr :: (mid ++ .isr :: post) → .isr ∉ mid →
    ∃ before behind : List TimerEvent, mid = before ++ .service :: behind ∧
      (timerFSM.after .reset (pre ++ .isr :: before)).pc = .idle

/-- After the last interrupt a call of `serviceCallbackTimer` has begun and has returned. -/
def LastServed (events : List TimerEvent) : Prop :=
  ∀ pre mid : List TimerEvent, events = pre ++ .isr :: mid → .isr ∉ mid →
    ∃ before call behind : List TimerEvent, mid = before ++ .service :: call ++ behind ∧
      (timerFSM.after .reset (pre ++ .isr :: before)).pc = .idle ∧
      (timerFSM.after .reset (pre ++ .isr :: before ++ .service :: call)).pc = .idle

/-- An interrupt comes while a pass is under way. -/
def duringPass (s : Timers) (event : TimerEvent) : Bool :=
  event = .isr ∧ s.pc ≠ .idle

/-- A pass has been asked for and has not begun. -/
def Timers.waits (s : Timers) : Bool := decide (s.pc = .idle) && s.shouldService

theorem waits_iff {s : Timers} : s.waits = true ↔ s.pc = .idle ∧ s.shouldService = true := by
  simp [Timers.waits]

/-- No call has begun since the last interrupt. -/
def Unserved (events : List TimerEvent) : Prop :=
  ∃ pre mid : List TimerEvent, events = pre ++ .isr :: mid ∧ .isr ∉ mid ∧
    ∀ before behind : List TimerEvent, mid = before ++ .service :: behind →
      (timerFSM.after .reset (pre ++ .isr :: before)).pc ≠ .idle

theorem Unserved.snoc {events : List TimerEvent} {event : TimerEvent}
    (unserved : Unserved events) (other : event ≠ .isr)
    (busy : event = .service → (timerFSM.after .reset events).pc ≠ .idle) :
    Unserved (events ++ [event]) := by
  obtain ⟨pre, mid, rfl, last, none⟩ := unserved
  refine ⟨pre, mid ++ [event], by simp, by simpa [last] using other.symm, ?_⟩
  intro before behind split
  rcases List.eq_nil_or_concat behind with rfl | ⟨init, final, rfl⟩
  · obtain ⟨rfl, rfl⟩ : mid = before ∧ event = .service := by
      simpa using List.append_inj' split rfl
    exact busy rfl
  · apply none before init
    have cut : mid ++ [event] = (before ++ .service :: init) ++ [final] := by
      simpa using split
    exact (List.append_inj' cut rfl).1

/-- A run cut before its last event is as well paced. -/
theorem Paced.init {events : List TimerEvent} {event : TimerEvent}
    (paced : Paced (events ++ [event])) : Paced events := by
  rintro pre mid post rfl last
  exact paced pre mid (post ++ [event]) (by simp) last

/-- An interrupt is not paced while one waits to be served. -/
theorem Unserved.not_paced {events : List TimerEvent} (unserved : Unserved events) :
    ¬ Paced (events ++ [.isr]) := by
  obtain ⟨pre, mid, rfl, last, none⟩ := unserved
  intro paced
  obtain ⟨before, behind, split, idle⟩ := paced pre mid [] (by simp) last
  exact none before behind split idle

/-! ## One event -/

theorem visitSlot_pc (s : Timers) (ndx : Fin 32) : (visitSlot s ndx).1.pc ≠ .idle := by
  unfold visitSlot
  dsimp only
  split
  · split <;> simp
  · simp

theorem visitSlot_passes (s : Timers) (ndx : Fin 32) :
    (visitSlot s ndx).1.passes = s.passes := by
  unfold visitSlot
  dsimp only
  split
  · split <;> rfl
  · rfl

theorem addCallbackTimer_frame (s : Timers) (count : UInt32) (callback : Bool) :
    (addCallbackTimer s count callback).1.pc = s.pc ∧
      (addCallbackTimer s count callback).1.shouldService = s.shouldService ∧
      (addCallbackTimer s count callback).1.passes = s.passes := by
  unfold addCallbackTimer
  split
  · exact ⟨rfl, rfl, rfl⟩
  · split <;> exact ⟨rfl, rfl, rfl⟩

/-- A pass comes to be waited for by an interrupt, and stays so until a call begins. -/
theorem waits_step {s : Timers} {event : TimerEvent}
    (waits : (timerFSM.next s event).waits = true) :
    event = .isr ∨ (s.waits = true ∧ event ≠ .service) := by
  have view := timerStep_case s event
  rw [waits_iff] at waits ⊢
  change (timerStep s event).1.pc = .idle ∧ (timerStep s event).1.shouldService = true at waits
  generalize timerStep s event = result at view waits
  cases view with
  | nothing event still waiting =>
      refine .inr ⟨waits, ?_⟩
      rintro rfl
      exact absurd waits.2 (by simp [waiting rfl waits.1])
  | isr => exact .inl rfl
  | start idle flag => cases waits.1
  | finish visiting past => cases waits.2
  | slot visiting => exact absurd waits.1 (visitSlot_pc s _)
  | ret calling result => cases waits.1
  | add count callback between =>
      obtain ⟨pc, flag, -⟩ := addCallbackTimer_frame s count callback
      exact .inr ⟨⟨pc ▸ waits.1, flag ▸ waits.2⟩, by simp⟩

/-- Over each event but an interrupt while a pass waits, what was begun, is waited for and was
lost grows by the interrupts. -/
theorem passes_step (s : Timers) (event : TimerEvent) (fresh : event = .isr → s.waits = false) :
    (timerFSM.next s event).passes + (timerFSM.next s event).waits.toNat +
        (if duringPass s event then 1 else 0) =
      s.passes + s.waits.toNat + [event].count .isr := by
  have view := timerStep_case s event
  show (timerStep s event).1.passes + (timerStep s event).1.waits.toNat + _ = _
  generalize timerStep s event = result at view ⊢
  cases view with
  | nothing event still waiting => simp [duringPass, still]
  | isr =>
      by_cases idle : s.pc = .idle
      · have notSet : s.shouldService = false := by
          simpa [Timers.waits, idle] using fresh rfl
        simp [Timers.waits, duringPass, idle, notSet]
      · simp [Timers.waits, duringPass, idle]
  | start idle flag => simp [Timers.waits, duringPass, idle, flag]
  | finish visiting past => simp [Timers.waits, duringPass, visiting]
  | slot visiting =>
      simp [Timers.waits, duringPass, visiting, visitSlot_pc, visitSlot_passes]
  | ret calling result => simp [Timers.waits, duringPass, calling, finishCall]
  | add count callback between =>
      obtain ⟨pc, flag, passes⟩ := addCallbackTimer_frame s count callback
      simp [Timers.waits, duringPass, pc, flag, passes]

/-! ## Whole runs -/

/-- In a paced run every interrupt is a pass, is waited for, or was lost; one is waited for only
while no call has begun since. -/
theorem passes_run {events : List TimerEvent} (paced : Paced events) :
    events.count .isr = (timerFSM.after .reset events).passes +
        (timerFSM.after .reset events).waits.toNat +
        timerFSM.countSteps duringPass .reset events ∧
      ((timerFSM.after .reset events).waits = true → Unserved events) := by
  induction events using List.reverseRecOn with
  | nil => simp [Timers.reset, Timers.waits]
  | append_singleton events event ih =>
      obtain ⟨counted, unserved⟩ := ih paced.init
      have fresh : event = .isr → (timerFSM.after .reset events).waits = false := by
        rintro rfl
        by_contra waits
        exact (unserved (by simpa using waits)).not_paced paced
      have step := passes_step (timerFSM.after .reset events) event fresh
      rw [Fsm.after_append, Fsm.countSteps_append, List.count_append, Fsm.countSteps_cons,
        Fsm.countSteps_nil, Fsm.after_cons, Fsm.after_nil]
      refine ⟨by omega, ?_⟩
      intro waits
      rcases waits_step waits with rfl | ⟨before, other⟩
      · exact ⟨events, [], rfl, by simp, by simp⟩
      · have notIsr : event ≠ .isr := by
          intro interrupt
          simp [fresh interrupt] at before
        exact (unserved before).snoc notIsr fun service => absurd service other

/-- In a paced run whose last interrupt has been followed by a whole call, there are as many
passes as interrupts exactly when every interrupt came while no pass was under way. -/
theorem passes_eq_interrupts_iff (events : List TimerEvent) (paced : Paced events)
    (served : LastServed events) :
    (timerFSM.after .reset events).passes = events.count .isr ↔
      timerFSM.EveryStep (fun s event => event = .isr → s.pc = .idle) .reset events := by
  obtain ⟨counted, unserved⟩ := passes_run paced
  have noneWaits : (timerFSM.after .reset events).waits = false := by
    by_contra waits
    obtain ⟨pre, mid, split, last, none⟩ := unserved (by simpa using waits)
    obtain ⟨before, call, behind, within, idle, -⟩ := served pre mid split last
    exact none before (call ++ behind) (by simpa using within) idle
  rw [noneWaits, Bool.toNat_false] at counted
  have lost : timerFSM.EveryStep (fun s event => event = .isr → s.pc = .idle) .reset events ↔
      timerFSM.countSteps duringPass .reset events = 0 := by
    rw [Fsm.countSteps_eq_zero]
    apply timerFSM.everyStep_congr
    simp [duringPass]
  rw [lost]
  omega

/-! ## Two interrupts -/

/-- A run of two interrupts, with `mid` between them and `post` after. -/
def twoTicks (mid post : List TimerEvent) : List TimerEvent := .isr :: (mid ++ .isr :: post)

section TwoTicks

variable {mid post : List TimerEvent} (quiet : .isr ∉ mid) (quiet' : .isr ∉ post)

include quiet quiet'

/-- A call begins between the two. -/
theorem paced_twoTicks (before behind : List TimerEvent)
    (call : mid = before ++ .service :: behind)
    (idle : (timerFSM.after .reset (.isr :: before)).pc = .idle) :
    Paced (twoTicks mid post) := by
  intro pre mid' post' split last
  cases pre with
  | nil =>
      have tails : mid ++ .isr :: post = mid' ++ .isr :: post' := by
        simpa [twoTicks] using split
      obtain ⟨rfl, -, -⟩ := (List.append_cons_inj_of_notMem quiet quiet').mp tails
      exact ⟨before, behind, call, idle⟩
  | cons first pre =>
      -- two more interrupts do not fit after the first one
      obtain ⟨-, tails⟩ : .isr = first ∧
          mid ++ .isr :: post = pre ++ .isr :: (mid' ++ .isr :: post') := by
        simpa [twoTicks] using split
      have counts := congrArg (List.count .isr) tails
      have none := List.count_eq_zero_of_not_mem quiet
      have none' := List.count_eq_zero_of_not_mem quiet'
      simp only [List.count_append, List.count_cons_self, none, none'] at counts
      omega

/-- A whole call follows the second. -/
theorem lastServed_twoTicks (before call behind : List TimerEvent)
    (served : post = before ++ .service :: call ++ behind)
    (idle : (timerFSM.after .reset (.isr :: mid ++ .isr :: before)).pc = .idle)
    (returned : (timerFSM.after .reset
      (.isr :: mid ++ .isr :: before ++ .service :: call)).pc = .idle) :
    LastServed (twoTicks mid post) := by
  intro pre mid' split last
  cases pre with
  | nil =>
      obtain rfl : mid ++ .isr :: post = mid' := by simpa [twoTicks] using split
      simp at last
  | cons first pre =>
      obtain ⟨rfl, tails⟩ : .isr = first ∧ mid ++ .isr :: post = pre ++ .isr :: mid' := by
        simpa [twoTicks] using split
      obtain ⟨rfl, -, rfl⟩ := (List.append_cons_inj_of_notMem quiet quiet').mp tails
      exact ⟨before, call, behind, served, idle, returned⟩

end TwoTicks

/-- Two interrupts, each with a call and its pass. -/
def servedTicks : List TimerEvent := twoTicks (.service :: quietPass 0) (.service :: quietPass 0)

theorem two_passes_for_two_ticks :
    Paced servedTicks ∧ LastServed servedTicks ∧
      (timerFSM.after .reset servedTicks).passes = servedTicks.count .isr := by
  have paced : Paced servedTicks :=
    paced_twoTicks (by decide) (by decide) [] (quietPass 0) rfl rfl
  have last : LastServed servedTicks :=
    lastServed_twoTicks (by decide) (by decide) [] (quietPass 0) [] rfl rfl (by decide +kernel)
  exact ⟨paced, last, (passes_eq_interrupts_iff servedTicks paced last).mpr (by decide +kernel)⟩

/-- The second interrupt comes during the pass for the first one, and a call follows. -/
def duringFirst : List TimerEvent :=
  twoTicks [.service] (quietPass 0 ++ [TimerEvent.service])

/-- The call after the pass finds the flag cleared. -/
theorem tick_during_pass_lost :
    Paced duringFirst ∧ LastServed duringFirst ∧
      (timerFSM.after .reset duringFirst).passes ≠ duringFirst.count .isr := by
  refine ⟨?_, ?_, by decide +kernel⟩
  · exact paced_twoTicks (by decide) (by decide) [] [] rfl rfl
  · exact lastServed_twoTicks (by decide) (by decide) (quietPass 0) [] [] rfl (by decide +kernel)
      (by decide +kernel)

end OlympusFirmware.Olympus
