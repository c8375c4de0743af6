import Mathlib.Data.Fintype.Card
import OlympusFirmware.Olympus.Timer

/-!
# Callback timers fire on schedule

A timer is followed through its slot. While it waits, the ticks served so far and its
`currentValue` add up to the tick of its next call; `pendingTick` is the difference that a
pass makes for the slots it has not come to yet. That sum is what a timer added by a callback
breaks when its slot is still ahead of the pass: it is counted down in the tick that made it.
So the schedule holds in every run in which each such timer goes to a slot already passed.
-/

namespace OlympusFirmware.Olympus

open OlympusFirmware.Lib

/-! ## Slots in use -/

/-- Slot `ndx` is in use. -/
def Timers.Used (s : Timers) (ndx : Fin 32) : Prop := (s.timerList ndx).resetValue ≠ 0

instance (s : Timers) (ndx : Fin 32) : Decidable (s.Used ndx) :=
  inferInstanceAs (Decidable (_ ≠ _))

/-- The slots in use. -/
def Timers.used (s : Timers) : Finset (Fin 32) := Finset.univ.filter s.Used

theorem mem_used {s : Timers} {ndx : Fin 32} : ndx ∈ s.used ↔ s.Used ndx := by
  simp [Timers.used]

theorem Timers.Used.pos {s : Timers} {ndx : Fin 32} (used : s.Used ndx) :
    0 < (s.timerList ndx).resetValue.toNat :=
  UInt32.lt_iff_toNat_lt.mp (UInt32.pos_iff_ne_zero.mpr used)

theorem freeSlot_free {s : Timers} {ndx : Fin 32} (found : freeSlot s.timerList = some ndx) :
    ¬ s.Used ndx := by
  have zero := List.find?_some found
  simpa [Timers.Used] using zero

/-- A slot is found exactly while fewer than 32 are in use. -/
theorem freeSlot_isSome (s : Timers) : (freeSlot s.timerList).isSome ↔ s.used.card < 32 := by
  have full : s.used.card < 32 ↔ s.used ≠ Finset.univ := by
    rw [← Finset.card_lt_iff_ne_univ, Fintype.card_fin]
  rw [full]
  constructor
  · intro isSome
    obtain ⟨ndx, found⟩ := Option.isSome_iff_exists.mp isSome
    intro all
    apply freeSlot_free found
    rw [← mem_used, all]
    exact Finset.mem_univ ndx
  · intro notAll
    by_contra notFound
    have taken := List.find?_eq_none.mp (Option.not_isSome_iff_eq_none.mp notFound)
    apply notAll
    ext ndx
    simpa [mem_used, Timers.Used] using taken ndx (List.mem_finRange ndx)

/-- Two states with the same `resetValue`s use the same slots. -/
theorem used_congr {s s' : Timers}
    (same : ∀ ndx, (s'.timerList ndx).resetValue = (s.timerList ndx).resetValue) :
    s'.used = s.used := by
  ext ndx
  simp only [mem_used, Timers.Used, same]

/-- What was accepted is in use or was disabled, and a callback runs from a slot in use. -/
structure Accounted (hist : List TimerOutput) (s : Timers) : Prop where
  sum : s.used.card + disabledCount hist = acceptedCount hist
  running : ∀ ndx, s.pc = .calling ndx → s.Used ndx

theorem Accounted.liveTimers_eq {hist : List TimerOutput} {s : Timers}
    (acc : Accounted hist s) : liveTimers hist = s.used.card := by
  have sum := acc.sum
  unfold liveTimers
  omega

theorem acceptedCount_append (hist out : List TimerOutput) :
    acceptedCount (hist ++ out) = acceptedCount hist + acceptedCount out :=
  List.countP_append

theorem disabledCount_append (hist out : List TimerOutput) :
    disabledCount (hist ++ out) = disabledCount hist + disabledCount out :=
  List.countP_append

/-- A step that neither accepts nor disables keeps the account. -/
theorem Accounted.same {hist out : List TimerOutput} {s s' : Timers} (acc : Accounted hist s)
    (noneAccepted : acceptedCount out = 0) (noneDisabled : disabledCount out = 0)
    (reset : ∀ ndx, (s'.timerList ndx).resetValue = (s.timerList ndx).resetValue)
    (running : ∀ ndx, s'.pc = .calling ndx → s'.Used ndx) : Accounted (hist ++ out) s' := by
  refine ⟨?_, running⟩
  rw [acceptedCount_append, disabledCount_append, noneAccepted, noneDisabled, used_congr reset]
  exact acc.sum

/-- Changing a slot without its `resetValue` changes no `resetValue`. -/
theorem resetValue_update (timerList : Fin 32 → CallbackTimer) (ndx : Fin 32)
    (timer : CallbackTimer) (same : timer.resetValue = (timerList ndx).resetValue) (slot : Fin 32) :
    (Function.update timerList ndx timer slot).resetValue = (timerList slot).resetValue := by
  by_cases here : slot = ndx
  · subst here
    rw [Function.update_self, same]
  · rw [Function.update_of_ne here]

theorem accounted_visitSlot {hist : List TimerOutput} {s : Timers} (acc : Accounted hist s)
    (ndx : Fin 32) : Accounted (hist ++ (visitSlot s ndx).2) (visitSlot s ndx).1 := by
  unfold visitSlot
  by_cases used : (s.timerList ndx).resetValue = 0
  · simp only [used, ne_eq, not_true_eq_false, if_false]
    exact acc.same rfl rfl (fun _ => rfl) (by simp)
  · simp only [used, ne_eq, not_false_eq_true, if_true]
    split
    · apply acc.same rfl rfl
      · exact resetValue_update s.timerList ndx _ rfl
      · intro slot calling
        obtain rfl : ndx = slot := by simpa using calling
        simpa [Timers.Used] using used
    · exact acc.same rfl rfl (resetValue_update s.timerList ndx _ rfl) (by simp)

theorem accounted_finishCall {hist : List TimerOutput} {s : Timers} (acc : Accounted hist s)
    {ndx : Fin 32} (calling : s.pc = .calling ndx) (result : TimerReturn) :
    Accounted (hist ++ (finishCall s ndx result).2) (finishCall s ndx result).1 := by
  cases result with
  | continueTimer =>
      apply acc.same rfl rfl
      · exact resetValue_update s.timerList ndx _ rfl
      · simp [finishCall]
  | disableTimer =>
      refine ⟨?_, by simp [finishCall]⟩
      have erased : (finishCall s ndx .disableTimer).1.used = s.used.erase ndx := by
        ext slot
        by_cases here : slot = ndx <;>
          simp [mem_used, Timers.Used, finishCall, Function.update, here]
      have member : ndx ∈ s.used := mem_used.mpr (acc.running ndx calling)
      have card := Finset.card_erase_add_one member
      have sum := acc.sum
      rw [acceptedCount_append, disabledCount_append, erased]
      show _ + (_ + 1) = _ + 0
      omega

/-- The state after a timer has been put in slot `ndx`. -/
def Timers.place (s : Timers) (ndx : Fin 32) (count : UInt32) : Timers :=
  { s with
    timerList := Function.update s.timerList ndx ⟨count, count, s.accepted⟩
    accepted := s.accepted + 1 }

/-- What `addCallbackTimer` can do: refuse, or put the timer in a free slot. -/
theorem addCallbackTimer_cases (s : Timers) (count : UInt32) (callback : Bool) :
    (¬ (0 < count ∧ callback = true ∧ s.used.card < 32) ∧
      addCallbackTimer s count callback = (s, [.refused])) ∨
    (0 < count ∧ callback = true ∧ s.used.card < 32 ∧ ∃ ndx, freeSlot s.timerList = some ndx ∧
      addCallbackTimer s count callback =
        (s.place ndx count, [.accepted s.accepted count s.passes])) := by
  have found := freeSlot_isSome s
  unfold addCallbackTimer
  by_cases bad : count = 0 ∨ callback = false
  · rw [if_pos bad]
    left
    refine ⟨?_, rfl⟩
    rintro ⟨positive, given, -⟩
    rcases bad with rfl | rfl
    · exact absurd positive (by decide)
    · exact absurd given (by decide)
  · rw [if_neg bad]
    push Not at bad
    cases slot : freeSlot s.timerList with
    | none =>
        left
        simp only [slot, Option.isSome_none, Bool.false_eq_true, false_iff] at found
        exact ⟨fun good => found good.2.2, rfl⟩
    | some ndx =>
        right
        simp only [slot, Option.isSome_some, true_iff] at found
        exact ⟨UInt32.pos_iff_ne_zero.mpr bad.1, by simpa using bad.2, found, ndx, rfl, rfl⟩

theorem used_place {s : Timers} {count : UInt32} (positive : 0 < count) (ndx : Fin 32) :
    (s.place ndx count).used = insert ndx s.used := by
  have nonzero : count ≠ 0 := UInt32.pos_iff_ne_zero.mp positive
  ext slot
  by_cases here : slot = ndx <;>
    simp [mem_used, Timers.Used, Timers.place, Function.update, here, nonzero]

theorem accounted_addCallbackTimer {hist : List TimerOutput} {s : Timers}
    (acc : Accounted hist s) (count : UInt32) (callback : Bool) :
    Accounted (hist ++ (addCallbackTimer s count callback).2)
      (addCallbackTimer s count callback).1 := by
  obtain ⟨-, refused⟩ | ⟨positive, -, -, ndx, found, placed⟩ :=
    addCallbackTimer_cases s count callback
  · rw [refused]
    exact acc.same rfl rfl (fun _ => rfl) acc.running
  · rw [placed]
    have used := used_place (s := s) positive ndx
    constructor
    · have card := Finset.card_insert_of_notMem (mem_used.not.mpr (freeSlot_free found))
      have sum := acc.sum
      rw [acceptedCount_append, disabledCount_append, used, card]
      show _ + (_ + 0) = _ + 1
      omega
    · intro slot calling
      rw [← mem_used, used, Finset.mem_insert, mem_used]
      exact .inr (acc.running slot calling)

/-- Every event keeps the account. -/
theorem accounted_step (hist : List TimerOutput) (s : Timers) (event : TimerEvent)
    (acc : Accounted hist s) :
    Accounted (hist ++ timerFSM.emit s event) (timerFSM.next s event) := by
  have view := timerStep_case s event
  show Accounted (hist ++ (timerStep s event).2) (timerStep s event).1
  generalize timerStep s event = result at view ⊢
  cases view with
  | nothing | isr => exact acc.same rfl rfl (fun _ => rfl) acc.running
  | start | finish => exact acc.same rfl rfl (fun _ => rfl) (by simp)
  | slot visiting => exact accounted_visitSlot acc _
  | ret calling result => exact accounted_finishCall acc calling result
  | add count callback between => exact accounted_addCallbackTimer acc count callback

theorem accounted_reset : Accounted [] .reset := by
  refine ⟨?_, by simp [Timers.reset]⟩
  have empty : Timers.reset.used = ∅ := by
    ext ndx
    simp [mem_used, Timers.Used, Timers.reset]
  rw [empty]
  rfl

/-- Whatever happened before, a call of `addCallbackTimer` is answered by what it is given and
the number of timers live. -/
theorem addCallbackTimer_answer (events : List TimerEvent) (count : UInt32) (callback : Bool) :
    (∃ id tick, TimerOutput.accepted id count tick ∈
        (addCallbackTimer (timerFSM.after .reset events) count callback).2) ↔
      0 < count ∧ callback = true ∧ liveTimers (timerFSM.outputs .reset events) < 32 := by
  have acc := timerFSM.invariant_emitted accounted_step accounted_reset events
  rw [acc.liveTimers_eq]
  obtain ⟨bad, refused⟩ | ⟨positive, given, room, ndx, -, placed⟩ :=
    addCallbackTimer_cases (timerFSM.after .reset events) count callback
  · rw [refused]
    simpa using bad
  · rw [placed]
    simp [positive, given, room]

/-! ## One timer -/

theorem calls_append (hist out : List TimerOutput) (id : Nat) :
    calls (hist ++ out) id = calls hist id ++ calls out id :=
  List.filterMap_append

theorem results_append (hist out : List TimerOutput) (id : Nat) :
    results (hist ++ out) id = results hist id ++ results out id :=
  List.filterMap_append

@[simp] theorem multiples_zero (tick count : Nat) : multiples tick count 0 = [] := rfl

theorem multiples_succ (tick count k : Nat) :
    multiples tick count (k + 1) = multiples tick count k ++ [tick + (k + 1) * count] := by
  simp [multiples, List.range_succ]

/-- Slot `ndx` holds timer `id`. -/
def Timers.Holds (s : Timers) (ndx : Fin 32) (id : Nat) : Prop :=
  s.Used ndx ∧ (s.timerList ndx).id = id

/-- One while the pass under way has still to come to slot `ndx`. -/
def pendingTick (pc : TimerPc) (ndx : Fin 32) : Nat :=
  match pc with
  | .idle => 0
  | .visiting cursor => if cursor ≤ ndx then 1 else 0
  | .calling cursor => if cursor < ndx then 1 else 0

/-- How a timer accepted with `count` after tick `tick` stands: it waits in a slot for its next
call, its callback is running, or it was disabled. -/
inductive Followed (hist : List TimerOutput) (s : Timers) (id count tick : Nat) : Prop
  | waiting (ndx : Fin 32) (k : Nat) (holds : s.Holds ndx id)
      (reset : (s.timerList ndx).resetValue.toNat = count) (quiet : s.pc ≠ .calling ndx)
      (positive : 0 < (s.timerList ndx).currentValue.toNat)
      (next : s.passes + (s.timerList ndx).currentValue.toNat =
        tick + (k + 1) * count + pendingTick s.pc ndx)
      (called : calls hist id = multiples tick count k)
      (returned : results hist id = List.replicate k .continueTimer)
  | running (ndx : Fin 32) (k : Nat) (holds : s.Holds ndx id)
      (reset : (s.timerList ndx).resetValue.toNat = count) (calling : s.pc = .calling ndx)
      (now : s.passes = tick + (k + 1) * count)
      (called : calls hist id = multiples tick count (k + 1))
      (returned : results hist id = List.replicate k .continueTimer)
  | disabled (k : Nat) (gone : ∀ ndx, ¬ s.Holds ndx id)
      (called : calls hist id = multiples tick count (k + 1))
      (returned : results hist id = List.replicate k .continueTimer ++ [.disableTimer])

/-- A timer that is followed is on schedule. -/
theorem Followed.onSchedule {hist : List TimerOutput} {s : Timers} {id count tick : Nat}
    (followed : Followed hist s id count tick) : OnSchedule hist s.served id count tick := by
  cases followed with
  | waiting ndx k holds reset quiet positive next called returned =>
      refine ⟨k, called, .inl ⟨?_, k, .inl rfl, returned⟩⟩
      have used : 0 < count := by
        rw [← reset]
        exact holds.1.pos
      have due : 0 < (k + 1) * count := Nat.mul_pos (by omega) used
      have pending : pendingTick s.pc ndx ≤ if s.pc = .idle then 0 else 1 := by
        unfold pendingTick
        split <;> simp_all <;> split <;> omega
      unfold Timers.served
      split_ifs at pending ⊢ <;> omega
  | running ndx k holds reset calling now called returned =>
      refine ⟨k + 1, called, .inl ⟨?_, k, .inr rfl, returned⟩⟩
      have later : (k + 1 + 1) * count = (k + 1) * count + count := Nat.succ_mul (k + 1) count
      have used : 0 < count := by
        rw [← reset]
        exact holds.1.pos
      unfold Timers.served
      split <;> omega
  | disabled k gone called returned =>
      exact ⟨k + 1, called, .inr ⟨k, rfl, returned⟩⟩

/-- A step leaves a timer as it stands when it says nothing about it, leaves its slot alone and
moves the pass and the tick together. -/
theorem Followed.frame {hist out : List TimerOutput} {s s' : Timers} {id count tick : Nat}
    (followed : Followed hist s id count tick)
    (noCall : calls out id = []) (noResult : results out id = [])
    (kept : ∀ ndx, s.Holds ndx id → s'.timerList ndx = s.timerList ndx)
    (old : ∀ ndx, s'.Holds ndx id → s.Holds ndx id)
    (calling : ∀ ndx, s.Holds ndx id → (s'.pc = .calling ndx ↔ s.pc = .calling ndx))
    (clock : ∀ ndx, s.Holds ndx id →
      s'.passes + pendingTick s.pc ndx = s.passes + pendingTick s'.pc ndx) :
    Followed (hist ++ out) s' id count tick := by
  have sameCalls : calls (hist ++ out) id = calls hist id := by
    rw [calls_append, noCall, List.append_nil]
  have sameResults : results (hist ++ out) id = results hist id := by
    rw [results_append, noResult, List.append_nil]
  have holds' : ∀ ndx, s.Holds ndx id → s'.Holds ndx id := by
    intro ndx holds
    unfold Timers.Holds Timers.Used
    rw [kept ndx holds]
    exact holds
  cases followed with
  | waiting ndx k holds reset quiet positive next called returned =>
      have tick := clock ndx holds
      refine .waiting ndx k (holds' ndx holds) ?_ ?_ ?_ ?_ (sameCalls ▸ called)
        (sameResults ▸ returned)
      · rw [kept ndx holds, reset]
      · rwa [ne_eq, calling ndx holds]
      · rwa [kept ndx holds]
      · rw [kept ndx holds]
        omega
  | running ndx k holds reset running now called returned =>
      have still := (calling ndx holds).mpr running
      have tick := clock ndx holds
      rw [still, running, Nat.add_right_cancel_iff] at tick
      refine .running ndx k (holds' ndx holds) ?_ still (tick.trans now) (sameCalls ▸ called)
        (sameResults ▸ returned)
      rw [kept ndx holds, reset]
  | disabled k gone called returned =>
      exact .disabled k (fun ndx holds => gone ndx (old ndx holds)) (sameCalls ▸ called)
        (sameResults ▸ returned)

/-! ## All timers -/

/-- The slots in use hold different timers, all accepted, and a callback runs from one of
them. -/
structure SlotsOk (s : Timers) : Prop where
  ids : ∀ ndx id, s.Holds ndx id → id < s.accepted
  distinct : ∀ ndx slot id, s.Holds ndx id → s.Holds slot id → ndx = slot
  running : ∀ ndx, s.pc = .calling ndx → s.Used ndx

/-- Every accepted timer is followed, in a slot of its own. -/
structure TimerInv (hist : List TimerOutput) (s : Timers) : Prop where
  slots : SlotsOk s
  known : ∀ id count tick, .accepted id count tick ∈ hist → id < s.accepted
  fresh : ∀ id, s.accepted ≤ id → calls hist id = [] ∧ results hist id = []
  followed : ∀ id count tick, .accepted id count tick ∈ hist →
    Followed hist s id count.toNat tick

/-- A step that accepts no timer and brings none into a slot keeps the invariant if it keeps
each timer followed. -/
theorem TimerInv.keep {hist out : List TimerOutput} {s s' : Timers} (inv : TimerInv hist s)
    (noneAccepted : ∀ id count tick, TimerOutput.accepted id count tick ∉ out)
    (count : s'.accepted = s.accepted)
    (old : ∀ slot id, s'.Holds slot id → s.Holds slot id)
    (running : ∀ ndx, s'.pc = .calling ndx → s'.Used ndx)
    (silent : ∀ id, s.accepted ≤ id → calls out id = [] ∧ results out id = [])
    (followed : ∀ id count tick, Followed hist s id count tick →
      Followed (hist ++ out) s' id count tick) :
    TimerInv (hist ++ out) s' := by
  have before : ∀ id count tick, TimerOutput.accepted id count tick ∈ hist ++ out →
      TimerOutput.accepted id count tick ∈ hist := by
    intro id count tick member
    exact (List.mem_append.mp member).resolve_right (noneAccepted id count tick)
  refine ⟨⟨?_, ?_, running⟩, ?_, ?_, ?_⟩
  · intro ndx id holds
    rw [count]
    exact inv.slots.ids ndx id (old ndx id holds)
  · intro ndx slot id here there
    exact inv.slots.distinct ndx slot id (old ndx id here) (old slot id there)
  · intro id c tick member
    rw [count]
    exact inv.known id c tick (before id c tick member)
  · intro id late
    rw [count] at late
    obtain ⟨noCall, noResult⟩ := silent id late
    rw [calls_append, results_append, noCall, noResult, List.append_nil, List.append_nil]
    exact inv.fresh id late
  · intro id c tick member
    exact followed id c.toNat tick (inv.followed id c tick (before id c tick member))

/-- Steps that change no slot: the interrupt, the two ends of a pass, a free slot, a refused
timer. -/
theorem TimerInv.quiet {hist out : List TimerOutput} {s s' : Timers} (inv : TimerInv hist s)
    (noneAccepted : ∀ id count tick, TimerOutput.accepted id count tick ∉ out)
    (silent : ∀ id, calls out id = [] ∧ results out id = [])
    (list : s'.timerList = s.timerList) (count : s'.accepted = s.accepted)
    (running : ∀ ndx, s'.pc = .calling ndx ↔ s.pc = .calling ndx)
    (clock : ∀ ndx, s.Used ndx →
      s'.passes + pendingTick s.pc ndx = s.passes + pendingTick s'.pc ndx) :
    TimerInv (hist ++ out) s' := by
  have used : ∀ ndx, s'.Used ndx ↔ s.Used ndx := by
    intro ndx
    unfold Timers.Used
    rw [list]
  have old : ∀ ndx id, s'.Holds ndx id → s.Holds ndx id := by
    intro ndx id holds
    unfold Timers.Holds at holds ⊢
    rwa [← used, ← list]
  apply inv.keep noneAccepted count old
  · intro ndx calling
    rw [used]
    exact inv.slots.running ndx ((running ndx).mp calling)
  · intro id _
    exact silent id
  · intro id c tick followed
    apply followed.frame (silent id).1 (silent id).2
    · intro ndx _
      rw [list]
    · exact fun ndx => old ndx id
    · exact fun ndx _ => running ndx
    · exact fun ndx here => clock ndx here.1

/-- Steps that say nothing. -/
theorem TimerInv.mute {hist : List TimerOutput} {s s' : Timers} (inv : TimerInv hist s)
    (list : s'.timerList = s.timerList) (count : s'.accepted = s.accepted)
    (running : ∀ ndx, s'.pc = .calling ndx ↔ s.pc = .calling ndx)
    (clock : ∀ ndx, s.Used ndx →
      s'.passes + pendingTick s.pc ndx = s.passes + pendingTick s'.pc ndx) :
    TimerInv (hist ++ []) s' :=
  inv.quiet (by simp) (fun _ => ⟨rfl, rfl⟩) list count running clock

/-- The state with another timer in slot `ndx` and the pass at `pc`. -/
def Timers.put (s : Timers) (ndx : Fin 32) (timer : CallbackTimer) (pc : TimerPc) : Timers :=
  { s with timerList := Function.update s.timerList ndx timer, pc := pc }

@[simp] theorem Timers.put_timerList (s : Timers) (ndx : Fin 32) (timer : CallbackTimer)
    (pc : TimerPc) : (s.put ndx timer pc).timerList ndx = timer := Function.update_self ..

@[simp] theorem Timers.put_pc (s : Timers) (ndx : Fin 32) (timer : CallbackTimer)
    (pc : TimerPc) : (s.put ndx timer pc).pc = pc := rfl

@[simp] theorem Timers.put_passes (s : Timers) (ndx : Fin 32) (timer : CallbackTimer)
    (pc : TimerPc) : (s.put ndx timer pc).passes = s.passes := rfl

/-- A slot changed under its timer brings no timer into a slot. -/
theorem holds_of_put {s : Timers} {ndx : Fin 32} (used : s.Used ndx) {timer : CallbackTimer}
    (same : timer.id = (s.timerList ndx).id) {pc : TimerPc} {slot : Fin 32} {id : Nat}
    (holds : (s.put ndx timer pc).Holds slot id) : s.Holds slot id := by
  unfold Timers.Holds Timers.Used Timers.put at *
  by_cases here : slot = ndx
  · subst here
    simp only [Function.update_self] at holds
    exact ⟨used, by rw [← same, holds.2]⟩
  · simpa only [Function.update_of_ne here] using holds

/-- Steps that work on the timer of one slot and on no other. -/
theorem TimerInv.oneSlot {hist out : List TimerOutput} {s : Timers} (inv : TimerInv hist s)
    {ndx : Fin 32} (used : s.Used ndx) {timer : CallbackTimer}
    (same : timer.id = (s.timerList ndx).id) {pc : TimerPc}
    (noneAccepted : ∀ id count tick, TimerOutput.accepted id count tick ∉ out)
    (about : ∀ id, id ≠ (s.timerList ndx).id → calls out id = [] ∧ results out id = [])
    (alone : ∀ slot, slot ≠ ndx → pc ≠ .calling slot ∧ s.pc ≠ .calling slot)
    (clock : ∀ slot, slot ≠ ndx → pendingTick s.pc slot = pendingTick pc slot)
    (running : pc = .calling ndx → timer.resetValue ≠ 0)
    (self : ∀ count tick, Followed hist s timer.id count tick →
      Followed (hist ++ out) (s.put ndx timer pc) timer.id count tick) :
    TimerInv (hist ++ out) (s.put ndx timer pc) := by
  apply inv.keep noneAccepted
  · rfl
  · exact fun slot id => holds_of_put used same
  · intro slot calling
    by_cases here : slot = ndx
    · subst here
      simpa [Timers.Used] using running calling
    · exact absurd calling (alone slot here).1
  · intro id late
    have below := inv.slots.ids ndx _ ⟨used, rfl⟩
    exact about id (by omega)
  · intro id count tick followed
    by_cases mine : id = timer.id
    · subst mine
      exact self count tick followed
    · have other : ∀ slot, s.Holds slot id → slot ≠ ndx := by
        rintro slot holds rfl
        exact mine (by rw [same, holds.2])
      obtain ⟨noCall, noResult⟩ := about id (same ▸ mine)
      apply followed.frame noCall noResult
      · exact fun slot holds => Function.update_of_ne (other slot holds) _ _
      · exact fun slot => holds_of_put used same
      · intro slot holds
        have calm := alone slot (other slot holds)
        exact iff_of_false calm.1 calm.2
      · intro slot holds
        show s.passes + _ = s.passes + _
        rw [clock slot (other slot holds), Timers.put_pc]

/-- The timer of the slot the pass has come to is waiting for this tick. -/
theorem TimerInv.waiting_at {hist : List TimerOutput} {s : Timers} (inv : TimerInv hist s)
    {ndx : Fin 32} (used : s.Used ndx) (visiting : s.pc = .visiting ndx) {count tick : Nat}
    (followed : Followed hist s (s.timerList ndx).id count tick) :
    ∃ k, (s.timerList ndx).resetValue.toNat = count ∧
      0 < (s.timerList ndx).currentValue.toNat ∧
      s.passes + (s.timerList ndx).currentValue.toNat = tick + (k + 1) * count + 1 ∧
      calls hist (s.timerList ndx).id = multiples tick count k ∧
      results hist (s.timerList ndx).id = List.replicate k .continueTimer := by
  have here : s.Holds ndx (s.timerList ndx).id := ⟨used, rfl⟩
  cases followed with
  | waiting slot k holds reset quiet positive next called returned =>
      obtain rfl := inv.slots.distinct slot ndx _ holds here
      rw [visiting] at next
      simp only [pendingTick, le_refl, if_true] at next
      exact ⟨k, reset, positive, next, called, returned⟩
  | running slot k holds reset calling now called returned =>
      rw [visiting] at calling
      cases calling
  | disabled k gone called returned => exact absurd here (gone ndx)

/-- The pass moves on by one slot; for every other slot that changes nothing. -/
theorem pendingTick_succ {ndx slot : Fin 32} (other : slot ≠ ndx) :
    pendingTick (.visiting ndx) slot = pendingTick (.visiting (ndx + 1)) slot := by
  have apart : slot.val ≠ ndx.val := Fin.val_ne_of_ne other
  simp only [pendingTick]
  congr 1
  simp only [eq_iff_iff]
  omega

theorem pendingTick_calling {ndx slot : Fin 32} (other : slot ≠ ndx) :
    pendingTick (.visiting ndx) slot = pendingTick (.calling ndx) slot := by
  have apart : slot.val ≠ ndx.val := Fin.val_ne_of_ne other
  simp only [pendingTick]
  congr 1
  simp only [eq_iff_iff]
  omega

theorem toNat_pred {value : UInt32} (positive : 0 < value.toNat) :
    (value - 1).toNat = value.toNat - 1 := by
  have le : (1 : UInt32) ≤ value := UInt32.le_iff_toNat_le.mpr positive
  rw [UInt32.toNat_sub_of_le value 1 le]
  rfl

/-- A slot in use whose timer is not due: it is counted down. -/
theorem timerInv_count {hist : List TimerOutput} {s : Timers} (inv : TimerInv hist s)
    {ndx : Fin 32} (used : s.Used ndx) (visiting : s.pc = .visiting ndx)
    (more : (s.timerList ndx).currentValue - 1 ≠ 0) :
    TimerInv (hist ++ []) (s.put ndx
      { s.timerList ndx with currentValue := (s.timerList ndx).currentValue - 1 }
      (.visiting (ndx + 1))) := by
  apply inv.oneSlot used
  · rfl
  · simp
  · exact fun _ _ => ⟨rfl, rfl⟩
  · simp [visiting]
  · intro slot other
    rw [visiting]
    exact pendingTick_succ other
  · simp
  · intro count tick followed
    obtain ⟨k, reset, positive, next, called, returned⟩ :=
      inv.waiting_at used visiting followed
    have pred := toNat_pred positive
    have pos : 0 < ((s.timerList ndx).currentValue - 1).toNat :=
      UInt32.lt_iff_toNat_lt.mp (UInt32.pos_iff_ne_zero.mpr more)
    rw [List.append_nil]
    refine .waiting ndx k ?_ ?_ (by simp) ?_ ?_ called returned
    · simpa [Timers.Holds, Timers.Used] using used
    · simpa using reset
    · simpa using pos
    · have behind : ¬ ndx.val + 1 ≤ ndx.val := by omega
      simp only [Timers.put_timerList, Timers.put_pc, Timers.put_passes, pendingTick, behind,
        if_false]
      omega

/-- A slot in use whose timer is due: its callback is called. -/
theorem timerInv_fire {hist : List TimerOutput} {s : Timers} (inv : TimerInv hist s)
    {ndx : Fin 32} (used : s.Used ndx) (visiting : s.pc = .visiting ndx)
    (due : (s.timerList ndx).currentValue - 1 = 0) :
    TimerInv (hist ++ [.called (s.timerList ndx).id s.passes]) (s.put ndx
      { s.timerList ndx with currentValue := (s.timerList ndx).currentValue - 1 }
      (.calling ndx)) := by
  apply inv.oneSlot used
  · rfl
  · simp
  · intro id other
    exact ⟨by simp [calls, other.symm], rfl⟩
  · intro slot other
    exact ⟨by simp [other.symm], by simp [visiting]⟩
  · intro slot other
    rw [visiting]
    exact pendingTick_calling other
  · exact fun _ => used
  · intro count tick followed
    obtain ⟨k, reset, positive, next, called, returned⟩ :=
      inv.waiting_at used visiting followed
    have pred := toNat_pred positive
    have now : s.passes = tick + (k + 1) * count := by
      rw [due] at pred
      have zero : (0 : UInt32).toNat = 0 := rfl
      omega
    refine .running ndx k ?_ ?_ rfl now ?_ ?_
    · simpa [Timers.Holds, Timers.Used] using used
    · simpa using reset
    · rw [calls_append, called, multiples_succ, ← now]
      simp [calls]
    · rw [results_append, returned]
      simp [results]

theorem timerInv_visitSlot {hist : List TimerOutput} {s : Timers} (inv : TimerInv hist s)
    {ndx : Fin 32} (visiting : s.pc = .visiting ndx) :
    TimerInv (hist ++ (visitSlot s ndx).2) (visitSlot s ndx).1 := by
  unfold visitSlot
  by_cases used : (s.timerList ndx).resetValue = 0
  · simp only [used, ne_eq, not_true_eq_false, if_false]
    apply inv.mute
    · rfl
    · rfl
    · simp [visiting]
    · intro slot inUse
      have other : slot ≠ ndx := by
        rintro rfl
        exact inUse used
      rw [visiting, pendingTick_succ other]
  · simp only [used, ne_eq, not_false_eq_true, if_true]
    split
    case isTrue due => exact timerInv_fire inv used visiting due
    case isFalse more => exact timerInv_count inv used visiting more

/-- The timer whose callback is running has been called for this tick. -/
theorem TimerInv.running_at {hist : List TimerOutput} {s : Timers} (inv : TimerInv hist s)
    {ndx : Fin 32} (calling : s.pc = .calling ndx) {count tick : Nat}
    (followed : Followed hist s (s.timerList ndx).id count tick) :
    ∃ k, (s.timerList ndx).resetValue.toNat = count ∧ s.passes = tick + (k + 1) * count ∧
      calls hist (s.timerList ndx).id = multiples tick count (k + 1) ∧
      results hist (s.timerList ndx).id = List.replicate k .continueTimer := by
  have here : s.Holds ndx (s.timerList ndx).id := ⟨inv.slots.running ndx calling, rfl⟩
  cases followed with
  | waiting slot k holds reset quiet positive next called returned =>
      obtain rfl := inv.slots.distinct slot ndx _ holds here
      exact absurd calling quiet
  | running slot k holds reset running now called returned =>
      obtain rfl := inv.slots.distinct slot ndx _ holds here
      exact ⟨k, reset, now, called, returned⟩
  | disabled k gone called returned => exact absurd here (gone ndx)

theorem timerInv_finishCall {hist : List TimerOutput} {s : Timers} (inv : TimerInv hist s)
    {ndx : Fin 32} (calling : s.pc = .calling ndx) (result : TimerReturn) :
    TimerInv (hist ++ (finishCall s ndx result).2) (finishCall s ndx result).1 := by
  have used := inv.slots.running ndx calling
  apply inv.oneSlot used
  · rfl
  · simp [finishCall]
  · intro id other
    exact ⟨rfl, by simp [results, finishCall, other.symm]⟩
  · intro slot other
    exact ⟨by simp, by simp [calling, other.symm]⟩
  · intro slot other
    rw [calling, ← pendingTick_calling other]
    exact pendingTick_succ other
  · simp
  · intro count tick followed
    obtain ⟨k, reset, now, called, returned⟩ := inv.running_at calling followed
    have sameCalls : calls (hist ++ [.returned (s.timerList ndx).id result])
        (s.timerList ndx).id = multiples tick count (k + 1) := by
      rw [calls_append, called]
      simp [calls]
    have newResults : results (hist ++ [.returned (s.timerList ndx).id result])
        (s.timerList ndx).id = List.replicate k .continueTimer ++ [result] := by
      rw [results_append, returned]
      simp [results]
    cases result with
    | continueTimer =>
        have behind : ¬ ndx.val + 1 ≤ ndx.val := by omega
        have later : (k + 1 + 1) * count = (k + 1) * count + count := Nat.succ_mul (k + 1) count
        refine .waiting ndx (k + 1) ?_ ?_ (by simp) ?_ ?_ sameCalls ?_
        · simpa [Timers.Holds, Timers.Used] using used
        · simpa using reset
        · simpa using used.pos
        · simp only [Timers.put_timerList, Timers.put_pc, Timers.put_passes, pendingTick, behind,
            if_false, reset, reduceCtorEq]
          omega
        · rw [List.replicate_succ']
          exact newResults
    | disableTimer =>
        refine .disabled k ?_ sameCalls newResults
        intro slot holds
        by_cases here : slot = ndx
        · subst here
          simp [Timers.Holds, Timers.Used] at holds
        · have there : s.Holds slot (s.timerList ndx).id :=
            holds_of_put used (by rfl) holds
          exact here (inv.slots.distinct slot ndx _ there ⟨used, rfl⟩)

/-! ## A new timer -/

section Place

variable {s : Timers} {count : UInt32} (positive : 0 < count) {ndx : Fin 32}

include positive

theorem holds_place (slot : Fin 32) (id : Nat) :
    (s.place ndx count).Holds slot id ↔
      (slot = ndx ∧ id = s.accepted) ∨ (slot ≠ ndx ∧ s.Holds slot id) := by
  have nonzero : count ≠ 0 := UInt32.pos_iff_ne_zero.mp positive
  by_cases here : slot = ndx
  · simp [Timers.Holds, Timers.Used, Timers.place, here, nonzero, eq_comm]
  · simp [Timers.Holds, Timers.Used, Timers.place, here]

variable (free : ¬ s.Used ndx)

include free

theorem slotsOk_place (slots : SlotsOk s) : SlotsOk (s.place ndx count) := by
  constructor
  · intro slot id holds
    show id < s.accepted + 1
    rcases (holds_place positive slot id).mp holds with ⟨-, new⟩ | ⟨-, before⟩
    · omega
    · have known := slots.ids slot id before
      omega
  · intro slot slot' id here there
    rcases (holds_place positive slot id).mp here with ⟨rfl, new⟩ | ⟨-, before⟩ <;>
      rcases (holds_place positive slot' id).mp there with ⟨rfl, new'⟩ | ⟨-, before'⟩
    · rfl
    · have known := slots.ids slot' id before'
      omega
    · have known := slots.ids slot id before
      omega
    · exact slots.distinct slot slot' id before before'
  · intro slot calling
    have inUse := slots.running slot calling
    have other : slot ≠ ndx := by
      rintro rfl
      exact free inUse
    exact ((holds_place positive slot _).mpr (.inr ⟨other, inUse, rfl⟩)).1

/-- A timer put in a free slot that the pass under way will not come to. -/
theorem timerInv_place {hist : List TimerOutput} (inv : TimerInv hist s)
    (passed : pendingTick s.pc ndx = 0) :
    TimerInv (hist ++ [.accepted s.accepted count s.passes]) (s.place ndx count) := by
  have silent : ∀ id, calls (hist ++ [.accepted s.accepted count s.passes]) id = calls hist id ∧
      results (hist ++ [.accepted s.accepted count s.passes]) id = results hist id := by
    intro id
    rw [calls_append, results_append]
    exact ⟨List.append_nil _, List.append_nil _⟩
  refine ⟨slotsOk_place positive free inv.slots, ?_, ?_, ?_⟩
  · intro id c tick member
    show id < s.accepted + 1
    rcases List.mem_append.mp member with old | new
    · have known := inv.known id c tick old
      omega
    · obtain ⟨rfl, -⟩ : id = s.accepted ∧ _ := by simpa using new
      omega
  · intro id late
    rw [(silent id).1, (silent id).2]
    exact inv.fresh id (Nat.le_of_succ_le late)
  · intro id c tick member
    rcases List.mem_append.mp member with old | new
    · have known := inv.known id c tick old
      apply (inv.followed id c tick old).frame rfl rfl
      · intro slot holds
        apply Function.update_of_ne
        rintro rfl
        exact free holds.1
      · intro slot holds
        rcases (holds_place positive slot id).mp holds with ⟨-, same⟩ | ⟨-, before⟩
        · omega
        · exact before
      · exact fun _ _ => Iff.rfl
      · exact fun _ _ => rfl
    · obtain ⟨rfl, rfl, rfl⟩ : id = s.accepted ∧ c = count ∧ tick = s.passes := by
        simpa using new
      obtain ⟨noCalls, noResults⟩ := inv.fresh s.accepted (Nat.le_refl _)
      have here := (holds_place positive ndx s.accepted).mpr (.inl ⟨rfl, rfl⟩)
      refine .waiting ndx 0 here ?_ ?_ ?_ ?_ ?_ ?_
      · simp [Timers.place]
      · exact fun calling => free (inv.slots.running ndx calling)
      · simpa [Timers.place] using UInt32.lt_iff_toNat_lt.mp positive
      · simp [Timers.place, passed]
      · rw [(silent _).1, noCalls, multiples_zero]
      · rw [(silent _).2, noResults, List.replicate_zero]

end Place

theorem timerInv_addCallbackTimer {hist : List TimerOutput} {s : Timers}
    (inv : TimerInv hist s) {count : UInt32} {callback : Bool}
    (between : ∀ ndx, s.pc ≠ .visiting ndx) (below : AddsBelow s (.add count callback)) :
    TimerInv (hist ++ (addCallbackTimer s count callback).2)
      (addCallbackTimer s count callback).1 := by
  obtain ⟨-, refused⟩ | ⟨positive, given, -, ndx, found, placed⟩ :=
    addCallbackTimer_cases s count callback
  · rw [refused]
    exact inv.quiet (by simp) (fun _ => ⟨rfl, rfl⟩) rfl rfl (fun _ => Iff.rfl) (fun _ _ => rfl)
  · rw [placed]
    apply timerInv_place positive (freeSlot_free found) inv
    cases pc : s.pc with
    | idle => rfl
    | visiting slot => exact absurd pc (between slot)
    | calling slot =>
        have before := below positive given slot pc ndx found
        exact if_neg (by omega)

/-- A step at which a timer added by a callback goes below the callback's slot keeps every
timer followed. -/
theorem timerInv_step (hist : List TimerOutput) (s : Timers) (event : TimerEvent)
    (inv : TimerInv hist s) (below : AddsBelow s event) :
    TimerInv (hist ++ timerFSM.emit s event) (timerFSM.next s event) := by
  have view := timerStep_case s event
  show TimerInv (hist ++ (timerStep s event).2) (timerStep s event).1
  generalize timerStep s event = result at view ⊢
  cases view with
  | nothing | isr => exact inv.mute rfl rfl (fun _ => Iff.rfl) (fun _ _ => rfl)
  | start idle flag =>
      apply inv.mute
      · rfl
      · rfl
      · simp [idle]
      · simp [idle, pendingTick]
  | @finish ndx visiting past =>
      apply inv.mute
      · rfl
      · rfl
      · simp [visiting]
      · intro slot inUse
        have behind : ¬ ndx ≤ slot.val := by omega
        simp [visiting, pendingTick, behind]
  | slot visiting => exact timerInv_visitSlot inv visiting
  | ret calling result => exact timerInv_finishCall inv calling result
  | add count callback between => exact timerInv_addCallbackTimer inv between below

theorem timerInv_reset : TimerInv [] .reset := by
  refine ⟨⟨?_, ?_, ?_⟩, ?_, ?_, ?_⟩ <;>
    simp [Timers.reset, Timers.Used, Timers.Holds, calls, results]

/-- What the callers of the timers count on in a run: wherever it is cut, every timer accepted
so far is on schedule, and `addCallbackTimer` takes a timer exactly when its arguments are good
and fewer than 32 are live. -/
structure FireOnSchedule (events : List TimerEvent) : Prop where
  schedule : ∀ pre post : List TimerEvent, events = pre ++ post → ∀ id count tick,
    .accepted id count tick ∈ timerFSM.outputs .reset pre →
      OnSchedule (timerFSM.outputs .reset pre) (timerFSM.after .reset pre).served
        id count.toNat tick
  answers : ∀ (pre : List TimerEvent) count callback post,
    events = pre ++ .add count callback :: post →
    (∀ ndx, (timerFSM.after .reset pre).pc ≠ .visiting ndx) →
      ((∃ id tick, .accepted id count tick ∈
          timerFSM.emit (timerFSM.after .reset pre) (.add count callback)) ↔
        0 < count ∧ callback = true ∧ liveTimers (timerFSM.outputs .reset pre) < 32)

/-- A call of `addCallbackTimer` where it can be made. -/
theorem timerStep_add {s : Timers} (between : ∀ ndx, s.pc ≠ .visiting ndx) (count : UInt32)
    (callback : Bool) :
    timerStep s (.add count callback) = addCallbackTimer s count callback := by
  unfold timerStep
  cases pc : s.pc with
  | idle => rfl
  | visiting ndx => exact absurd pc (between ndx)
  | calling ndx => rfl

/-- In a run in which no callback adds a timer to a slot after its own, all timers fire on
schedule. -/
theorem timers_fire_on_schedule (events : List TimerEvent)
    (below : timerFSM.EveryStep AddsBelow .reset events) : FireOnSchedule events := by
  constructor
  · rintro pre post rfl id count tick member
    have stepsBelow := ((timerFSM.everyStep_append _ _ _ _).mp below).1
    have inv := timerFSM.invariant_outputs timerInv_step timerInv_reset stepsBelow
    rw [List.nil_append] at inv
    exact (inv.followed id count tick member).onSchedule
  · rintro pre count callback post rfl between
    have answer := addCallbackTimer_answer pre count callback
    rwa [← timerStep_add between] at answer

section QuietPass

variable {s : Timers} {pre : List TimerEvent} {ndx : Nat} (inside : ndx ≤ 32)
  (visiting : (timerFSM.after s pre).pc = .visiting ndx)
  (free : ∀ slot : Fin 32, ndx ≤ slot.val →
    ((timerFSM.after s pre).timerList slot).resetValue = 0)
  (post : List TimerEvent)

include inside visiting free

/-- A pass over free slots drops out of a run. -/
theorem outputs_quietPass :
    timerFSM.outputs s (pre ++ (quietPass ndx ++ post)) =
      timerFSM.outputs s pre ++ timerFSM.outputs
        { timerFSM.after s pre with shouldService := false, pc := .idle } post := by
  obtain ⟨reached, silent⟩ := run_quietPass inside visiting free
  rw [Fsm.outputs_append, Fsm.outputs_append, silent, reached, List.nil_append]

theorem everyStep_quietPass :
    timerFSM.EveryStep AddsBelow s (pre ++ (quietPass ndx ++ post)) ↔
      timerFSM.EveryStep AddsBelow s pre ∧ timerFSM.EveryStep AddsBelow
        { timerFSM.after s pre with shouldService := false, pc := .idle } post := by
  have visits : ∀ (n : Nat) (s : Timers),
      timerFSM.EveryStep AddsBelow s (List.replicate n .visit) := by
    intro n
    induction n with
    | zero => intro s; trivial
    | succ n ih => intro s; exact ⟨trivial, ih _⟩
  obtain ⟨reached, -⟩ := run_quietPass inside visiting free
  rw [Fsm.everyStep_append, Fsm.everyStep_append, reached]
  exact and_congr_right fun _ => and_iff_right (visits _ _)

end QuietPass

/-- Two timers are due at tick 1. The one in slot 0 is disabled; the callback of slot 1 then adds
one with count 2, which goes to slot 0. -/
def addBehind : List TimerEvent :=
  [TimerEvent.add 1 true, .add 1 true, .isr, .service, .visit, .ret .disableTimer, .visit,
    .add 2 true, .ret .disableTimer] ++ (quietPass 2 ++ ([TimerEvent.isr, .service, .visit] ++
    (quietPass 1 ++ [TimerEvent.isr, .service, .visit])))

theorem added_behind_on_schedule :
    timerFSM.EveryStep AddsBelow .reset addBehind ∧ FireOnSchedule addBehind ∧
      calls (timerFSM.outputs .reset addBehind) 2 = [3] := by
  have below : timerFSM.EveryStep AddsBelow .reset addBehind := by
    unfold addBehind
    rw [everyStep_quietPass (by decide) (by decide) (by decide +kernel),
      everyStep_quietPass (by decide) (by decide) (by decide +kernel)]
    decide +kernel
  refine ⟨below, timers_fire_on_schedule addBehind below, ?_⟩
  unfold addBehind
  rw [outputs_quietPass (by decide) (by decide) (by decide +kernel),
    outputs_quietPass (by decide) (by decide) (by decide +kernel)]
  decide +kernel

/-- A timer in slot 0 is called at tick 1; its callback adds one with count 2 and disables its
own. -/
def addAhead : List TimerEvent :=
  [TimerEvent.add 1 true, .isr, .service, .visit, .add 2 true, .ret .disableTimer, .visit] ++
    (quietPass 2 ++ [TimerEvent.isr, .service, .visit, .visit])

/-- The new timer is in slot 1, which the pass of tick 1 comes to next: it is called at tick 2
and not at tick 3. -/
theorem added_ahead_fires_early : ¬ FireOnSchedule addAhead := by
  intro fire
  have outputs : timerFSM.outputs .reset addAhead =
      [.accepted 0 1 0, .called 0 1, .accepted 1 2 1, .returned 0 .disableTimer,
        .called 1 2] := by
    unfold addAhead
    rw [outputs_quietPass (by decide) (by decide) (by decide +kernel)]
    decide +kernel
  have onSchedule := fire.schedule addAhead [] (by simp) 1 2 1
  rw [outputs] at onSchedule
  obtain ⟨k, called, -⟩ := onSchedule (by simp)
  have early : [2] = multiples 1 2 k := called
  have once : k = 1 := by
    have lengths := congrArg List.length early
    simpa [multiples, eq_comm] using lengths
  subst once
  exact absurd early (by decide)

end OlympusFirmware.Olympus
