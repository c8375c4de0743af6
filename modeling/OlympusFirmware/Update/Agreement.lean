import OlympusFirmware.Hephaestus.Comms
import OlympusFirmware.Update.Stages

/-!
# Requests and responses agree

The only thing that tells the master that a response is there is the level of the
interrupt line, and nothing tells it which message the response is for. After a timeout
the response still comes, and the next message receives it.

If every message is begun with the slave ready (the line low, the transmit ring empty,
no response under way, and nothing in the receive ring that it would take for a
message), every call returns the timeout or the answer to its own message, in whatever
order the steps of the two sides come.

The slave runs one program throughout: a callback that restarts it or jumps to the
application ends it, and what the next program answers is not followed here.
-/

namespace OlympusFirmware.Update

open OlympusFirmware.Lib OlympusFirmware.SlaveLib

section Agreement

variable {δ ε : Type} (msgResp : UInt8 → MsgInfo δ ε) (line : UInt8)

/-- A returned status is the timeout, or it and the data are the answer to the message. -/
def Agreed (hist : List LinkOutput) (k : Nat) (status : UInt8) (data : List UInt8) : Prop :=
  ∃ m, .started k m ∈ hist ∧
    ((status = commsErrTimeout ∧ data = []) ∨ Answered msgResp hist m k status data)

/-- The lengths of every message match. -/
def MatchedStart (_ : Link δ ε) : LinkInput δ → Prop
  | .start m => Matched msgResp m
  | _ => True

/-- The slave is ready for a message: it has stopped for good, or it will skip what is in
its ring and there is room for the request. The response fits the other ring. -/
structure Ready (m : Message) (s : Link δ ε) : Prop extends Still s where
  small : m.rxSize.toNat + 1 < bufferSize
  listens : (s.comms.running = false ∧ written s.todo = []) ∨
    ((∀ output ∈ s.todo, output = .clearSPIInt) ∧
      Skips msgResp s.comms (s.rxBuffer.map Prod.fst) ∧
      s.rxBuffer.length + m.request.length < bufferSize)

/-- Every message is begun with the slave ready, and the tick counter does not wrap
between the two readings of a wait. -/
def ReadyStart (s : Link δ ε) : LinkInput δ → Prop
  | .start m => s.master = .idle → Ready msgResp m s
  | .poll now later => now ≤ later
  | _ => True

/-- What holds of the message, by what the master does. -/
def AtMaster (hist : List LinkOutput) (s : Link δ ε) : Master → Prop
  -- nothing: the next message is begun with the slave ready
  | .idle => True
  | .sending m rest =>
      Current msgResp hist m s.count ∧ rest ≠ [] ∧ (Requested msgResp m s ∨ Silent s)
  | .waiting m _ => Current msgResp hist m s.count ∧ Stage msgResp hist m s
  | .receiving m got =>
      Current msgResp hist m s.count ∧ s.responding = .draining ∧ s.txBuffer ≠ [] ∧
        ∃ status data, Answered msgResp hist m s.count status data ∧
          got ++ s.txBuffer = status :: data
  | .finishing m got _ =>
      Current msgResp hist m s.count ∧
        ∃ status data, Answered msgResp hist m s.count status data ∧ got = status :: data

/-- The invariant. -/
structure LinkInv (hist : List LinkOutput) (s : Link δ ε) : Prop where
  agreed : ∀ k status data, .returned k status data ∈ hist → Agreed msgResp hist k status data
  message : AtMaster msgResp hist s s.master

variable {msgResp} {hist : List LinkOutput} {m : Message} {s : Link δ ε}

theorem Agreed.more {k : Nat} {status : UInt8} {data : List UInt8}
    (agreed : Agreed msgResp hist k status data) (new : List LinkOutput) :
    Agreed msgResp (hist ++ new) k status data := by
  obtain ⟨m, started, timeout | answered⟩ := agreed
  · exact ⟨m, List.mem_append_left new started, .inl timeout⟩
  · exact ⟨m, List.mem_append_left new started, .inr (answered.later new)⟩

/-- A step that returns nothing, or what is agreed. -/
theorem LinkInv.step {s' : Link δ ε} {new : List LinkOutput} (inv : LinkInv msgResp hist s)
    (agreed : ∀ k status data, .returned k status data ∈ new →
      Agreed msgResp (hist ++ new) k status data)
    (message : AtMaster msgResp (hist ++ new) s' s'.master) :
    LinkInv msgResp (hist ++ new) s' := by
  refine ⟨?_, message⟩
  intro k status data member
  rcases List.mem_append.mp member with old | member
  · exact (inv.agreed k status data old).more new
  · exact agreed k status data member

/-! ## The slave's steps -/

/-- A step of the slave, by what it does to the stages. -/
theorem AtMaster.slave {s' : Link δ ε} {new : List LinkOutput}
    (message : AtMaster msgResp hist s s.master)
    (same : s'.master = s.master ∧ s'.count = s.count)
    (request : ∀ m rest, s.master = .sending m rest → rest ≠ [] → Current msgResp hist m s.count →
      Requested msgResp m s ∨ Silent s → Requested msgResp m s' ∨ Silent s')
    (stage : ∀ m, Current msgResp hist m s.count → Stage msgResp hist m s →
      Stage msgResp (hist ++ new) m s')
    (drain : s.responding = .draining → s.txBuffer ≠ [] →
      s'.responding = s.responding ∧ s'.txBuffer = s.txBuffer) :
    AtMaster msgResp (hist ++ new) s' s'.master := by
  obtain ⟨master', count⟩ := same
  rw [master']
  unfold AtMaster
  rw [count]
  cases master : s.master with
  | idle => trivial
  | sending m rest =>
      rw [master] at message
      obtain ⟨current, more, requested⟩ := message
      exact ⟨current.later new, more, request m rest master more current requested⟩
  | waiting m timeUp =>
      rw [master] at message
      obtain ⟨current, here⟩ := message
      exact ⟨current.later new, stage m current here⟩
  | receiving m got =>
      rw [master] at message
      obtain ⟨current, responding, more, status, data, answered, ring⟩ := message
      obtain ⟨responding', ring'⟩ := drain responding more
      refine ⟨current.later new, responding'.trans responding, ring' ▸ more, status, data,
        answered.later new, ?_⟩
      rw [ring']
      exact ring
  | finishing m got timeUp =>
      rw [master] at message
      obtain ⟨current, status, data, answered, received⟩ := message
      exact ⟨current.later new, status, data, answered.later new, received⟩

theorem LinkInv.work (inv : LinkInv msgResp hist s) (prog : δ) :
    LinkInv msgResp (hist ++ []) { s with comms := { s.comms with prog := prog } } := by
  apply inv.step (by simp)
  refine inv.message.slave ⟨rfl, rfl⟩ ?_ ?_ ?_
  · rintro m rest - - - (requested | silent)
    · exact .inl (requested.work prog)
    · exact .inr (silent.work prog)
  · intro m current stage
    rw [List.append_nil]
    exact stage.work prog
  · intro _ _
    exact ⟨rfl, rfl⟩

theorem LinkInv.read (inv : LinkInv msgResp hist s) :
    LinkInv msgResp (hist ++ []) (readByte msgResp s) := by
  have same := readByte_master msgResp s
  apply inv.step (by simp)
  apply inv.message.slave same
  · rintro m rest master more current (requested | silent)
    · rcases requested.read current.matched.fits with requested' | ⟨complete, -⟩
      · exact .inl requested'
      · -- the rest of the request is still to come
        exfalso
        unfold Link.coming at complete
        rw [same.1, master] at complete
        simp [more] at complete
    · rw [readByte_stopped silent.stopped]
      exact .inr silent
  · intro m current stage
    rw [List.append_nil]
    exact stage.read current.matched.fits
  · intro responding _
    rw [readByte_responding (by rw [responding]; decide)]
    exact ⟨rfl, rfl⟩

theorem LinkInv.proceed (inv : LinkInv msgResp hist s) :
    LinkInv msgResp (hist ++ (proceed s).2) (Update.proceed s).1 := by
  apply inv.step
  · intro k status data member
    exact absurd member (returned_not_mem_proceed k status data)
  apply inv.message.slave (proceed_master s)
  · rintro m rest - - - (requested | silent)
    · exact .inl requested.proceed
    · exact .inr silent.proceed
  · intro m current stage
    exact stage.proceed current
  · intro responding more
    rw [proceed_draining responding more]
    exact ⟨rfl, rfl⟩

/-! ## The master's steps -/

theorem LinkInv.start (inv : LinkInv msgResp hist s) (matched : Matched msgResp m)
    (ready : s.master = .idle → Ready msgResp m s) :
    LinkInv msgResp (hist ++ (startMessage s m).2) (startMessage s m).1 := by
  unfold startMessage
  split
  · rename_i master
    have ready := ready master
    refine inv.step (by simp) ⟨⟨by simp, matched, ready.small⟩, by simp [Message.request], ?_⟩
    rcases ready.listens with ⟨stopped, nothing⟩ | ⟨clear, skips, room⟩
    · exact .inr ⟨⟨ready.responding, ready.empty, ready.low⟩, stopped, nothing⟩
    · left
      refine ⟨⟨ready.responding, ready.empty, ready.low⟩, clear, ?_, ?_, ?_⟩
      · have bytes : ((s.rxBuffer ++ m.request.map fun byte => (byte, some (s.count + 1))).map
            Prod.fst) = s.rxBuffer.map Prod.fst ++ m.request := by
          simp [Function.comp_def]
        show Awaits msgResp m s.comms (List.map Prod.fst (s.rxBuffer ++ _))
        rw [bytes]
        exact .skipping skips
      · have request : m.request ≠ [] := by simp [Message.request]
        refine ⟨s.rxBuffer ++ m.request.dropLast.map fun byte => (byte, some (s.count + 1)),
          m.request.getLast request, ?_⟩
        show s.rxBuffer ++ m.request.map (fun byte => (byte, some (s.count + 1))) = _
        conv_lhs => rw [← List.dropLast_append_getLast request]
        simp
      · show (s.rxBuffer ++ m.request.map fun byte => (byte, some (s.count + 1))).length < _
        simpa using room
  · refine inv.step (by simp) ?_
    rw [List.append_nil]
    exact inv.message

/-- A byte of the request goes from the master to the ring, and stays in front of the
slave. -/
theorem coming_send {m' : Message} {byte : UInt8} {rest : List UInt8}
    (master : s.master = .sending m' (byte :: rest)) (room : s.coming.length < bufferSize)
    (now : UInt32) :
    Link.coming { s.clock (byte, some s.count) with master := m'.afterSend now rest } =
      s.coming := by
  unfold Link.coming at room ⊢
  rw [master] at room ⊢
  simp only [List.length_append, List.length_map, List.length_cons] at room
  have free : ¬ s.rxBuffer.length + 1 = bufferSize := by omega
  cases rest with
  | nil => simp [Message.afterSend, Link.clock, receiveByte, free]
  | cons next rest => simp [Message.afterSend, Link.clock, receiveByte, free]

theorem Requested.send {m' : Message} {byte : UInt8} {rest : List UInt8}
    (requested : Requested msgResp m s) (master : s.master = .sending m' (byte :: rest))
    (now : UInt32) :
    Requested msgResp m
      { s.clock (byte, some s.count) with master := m'.afterSend now rest } := by
  have coming := coming_send master requested.room now
  have ring : s.txBuffer.tail = [] := by
    rw [requested.empty]
    rfl
  refine ⟨⟨requested.responding, ring, requested.low⟩, requested.clear, ?_, ?_, ?_⟩
  · rw [coming]
    exact requested.awaits
  · rw [coming]
    exact requested.last
  · rw [coming]
    exact requested.room

theorem Silent.send {byte : UInt8} (silent : Silent s) (master : Master) :
    Silent { s.clock (byte, some s.count) with master := master } := by
  have ring : s.txBuffer.tail = [] := by
    rw [silent.empty]
    rfl
  exact ⟨⟨silent.responding, ring, silent.low⟩, silent.stopped, silent.nothing⟩

theorem AtMaster.send {byte : UInt8} {rest : List UInt8}
    (message : AtMaster msgResp hist s (.sending m (byte :: rest)))
    (master : s.master = .sending m (byte :: rest)) (now : UInt32) :
    AtMaster msgResp (hist ++ [])
      { s.clock (byte, some s.count) with master := m.afterSend now rest }
      (m.afterSend now rest) := by
  obtain ⟨current, -, stage⟩ := message
  have stage' : Requested msgResp m
      { s.clock (byte, some s.count) with master := m.afterSend now rest } ∨
      Silent { s.clock (byte, some s.count) with master := m.afterSend now rest } :=
    stage.imp (·.send master now) (·.send _)
  cases rest with
  | nil =>
      refine ⟨current.later [], ?_⟩
      rcases stage' with requested | silent
      · exact .requested requested
      · exact .silent silent
  | cons next rest => exact ⟨current.later [], by simp, stage'⟩

theorem AtMaster.receive {got : List UInt8} (message : AtMaster msgResp hist s (.receiving m got))
    (dummy : UInt8) (now : UInt32) :
    AtMaster msgResp (hist ++ [])
      { s.clock (dummy, none) with
        master := m.afterReceive now (got ++ [s.txBuffer.headD line]) }
      (m.afterReceive now (got ++ [s.txBuffer.headD line])) := by
  obtain ⟨current, responding, more, status, data, answered, ring⟩ := message
  have size := current.matched.size status data answered.answers
  obtain ⟨byte, rest, front⟩ := List.exists_cons_of_ne_nil more
  have moved : got ++ [s.txBuffer.headD line] ++ s.txBuffer.tail = status :: data := by
    rw [← ring, front]
    simp
  have length := congrArg List.length moved
  simp only [List.length_append, List.length_cons, List.length_nil, size] at length
  unfold Message.afterReceive
  -- the response ends where the master stops receiving, since the lengths match
  split
  · rename_i last
    simp only [List.length_append, List.length_cons, List.length_nil] at last
    have none : s.txBuffer.tail = [] := by
      rw [← List.length_eq_zero_iff]
      omega
    rw [none, List.append_nil] at moved
    exact ⟨current.later [], status, data, answered.later [], moved⟩
  · rename_i missing
    simp only [List.length_append, List.length_cons, List.length_nil] at missing
    refine ⟨current.later [], responding, ?_, status, data, answered.later [], moved⟩
    intro none
    have none : s.txBuffer.tail = [] := none
    rw [none, List.length_nil] at length
    omega

theorem LinkInv.transfer (inv : LinkInv msgResp hist s) (dummy : UInt8) (now : UInt32) :
    LinkInv msgResp (hist ++ []) (transferByte line s dummy now) := by
  apply inv.step (by simp)
  have message := inv.message
  unfold transferByte
  split
  · rename_i m byte rest master
    rw [master] at message
    exact message.send master now
  · rename_i m got master
    rw [master] at message
    exact message.receive line dummy now
  · rw [List.append_nil]
    exact message

/-- Only a response sets the line. -/
theorem Stage.raised_of_int (stage : Stage msgResp hist m s) (int : s.int = true) :
    s.responding = .draining ∧ ∃ status data, Answered msgResp hist m s.count status data ∧
      s.txBuffer = status :: data := by
  cases stage with
  | raised responding answered ring => exact ⟨responding, _, _, answered, ring⟩
  | requested requested => exact absurd (int.symm.trans requested.low) (by decide)
  | silent silent => exact absurd (int.symm.trans silent.low) (by decide)
  | called called => exact absurd (int.symm.trans called.low) (by decide)
  | written _ low => exact absurd (int.symm.trans low) (by decide)

theorem LinkInv.poll (inv : LinkInv msgResp hist s) {now later : UInt32} (order : now ≤ later) :
    LinkInv msgResp (hist ++ (pollInt s now later).2) (pollInt s now later).1 := by
  have message := inv.message
  unfold pollInt
  split
  · rename_i m timeUp master
    rw [master] at message
    obtain ⟨current, stage⟩ := message
    split
    · apply inv.step (by simp)
      rw [List.append_nil]
      exact inv.message
    rename_i through
    split
    · -- the timeout
      refine inv.step ?_ trivial
      intro k status data member
      obtain ⟨rfl, rfl, rfl⟩ : k = s.count ∧ status = commsErrTimeout ∧ data = [] := by
        simpa using member
      exact ⟨m, List.mem_append_left _ current.started, .inl ⟨rfl, rfl⟩⟩
    · -- the line is set, since the time was not up
      rename_i early
      have int : s.int = true := by
        by_contra low
        exact through ⟨by simpa using low, UInt32.lt_of_le_of_lt order (UInt32.not_le.mp early)⟩
      obtain ⟨responding, status, data, answered, ring⟩ := stage.raised_of_int int
      refine inv.step (by simp) ⟨current.later [], responding, ?_, status, data,
        answered.later [], ring⟩
      show s.txBuffer ≠ []
      simp [ring]
  · rename_i m status data timeUp master
    rw [master] at message
    obtain ⟨current, status', data', answered, received⟩ := message
    obtain ⟨rfl, rfl⟩ : status = status' ∧ data = data' := by simpa using received
    split
    · apply inv.step (by simp)
      rw [List.append_nil]
      exact inv.message
    · refine inv.step ?_ trivial
      intro k status' data' member
      obtain ⟨rfl, rfl, rfl⟩ : k = s.count ∧ status' = status ∧ data' = data := by
        simpa using member
      exact ⟨m, List.mem_append_left _ current.started, .inr (answered.later _)⟩
  · apply inv.step (by simp)
    rw [List.append_nil]
    exact inv.message

/-! ## Runs -/

/-- **One step** of either side keeps the invariant. -/
theorem LinkInv.next {input : LinkInput δ} (inv : LinkInv msgResp hist s)
    (matched : MatchedStart msgResp s input) (ready : ReadyStart msgResp s input) :
    LinkInv msgResp (hist ++ (linkFSM msgResp line).emit s input)
      ((linkFSM msgResp line).next s input) := by
  cases input with
  | start m => exact inv.start matched ready
  | transfer dummy now => exact inv.transfer line dummy now
  | poll now later => exact inv.poll ready
  | read => exact inv.read
  | proceed => exact inv.proceed
  | work prog => exact inv.work prog

/-- **Agreement.** In every run in which messages with matching lengths are begun with
the slave ready, however the steps are interleaved: what a call returns is the timeout,
or it is what the slave answered to the message of that call. -/
theorem requests_agree (idle : s.master = .idle) {inputs : List (LinkInput δ)}
    (matched : (linkFSM msgResp line).EveryStep (MatchedStart msgResp) s inputs)
    (ready : (linkFSM msgResp line).EveryStep (ReadyStart msgResp) s inputs)
    {k : Nat} {status : UInt8} {data : List UInt8}
    (returned : .returned k status data ∈ (linkFSM msgResp line).outputs s inputs) :
    Agreed msgResp ((linkFSM msgResp line).outputs s inputs) k status data := by
  have start : LinkInv msgResp [] s := by
    refine ⟨by simp, ?_⟩
    rw [idle]
    trivial
  have inv := (linkFSM msgResp line).invariant_outputs (I := LinkInv msgResp)
    (C := fun s x => MatchedStart msgResp s x ∧ ReadyStart msgResp s x)
    (fun hist s x inv conditions => inv.next line conditions.1 conditions.2) start
    (((linkFSM msgResp line).everyStep_and _ _ _ _).mpr ⟨matched, ready⟩)
  rw [List.nil_append] at inv
  exact inv.agreed k status data returned

end Agreement

/-! ## A late answer -/

/-- Both sides before the first message. -/
def Link.reset {δ ε : Type} (prog : δ) : Link δ ε where
  master := .idle
  count := 0
  rxBuffer := []
  txBuffer := []
  int := false
  comms := .reset prog
  todo := []
  serving := none
  responding := .no

/-- The link to Hephaestus, with a steering average of 3000. -/
def steeringAt3000 : Link Hephaestus.Vars Empty :=
  .reset { Hephaestus.Vars.reset with steerAvg := 3000 }

/-- The message of `getHephaestusSteerPot`. -/
def steerPotMessage : Message := ⟨0x02, [], 2, 5⟩

/-- The message of `getHephaestusStatus`. -/
def statusMessage : Message := ⟨0x00, [], 0, 5⟩

theorem steerPotMessage_matched : Matched Hephaestus.hephaestus.msgResp steerPotMessage := by
  refine .of_returns ⟨by decide, Option.some_ne_none _, rfl⟩ (by decide) ?_ rfl
  intro callback buff prog known
  cases known
  exact ⟨Option.some_ne_none _, rfl⟩

theorem statusMessage_matched : Matched Hephaestus.hephaestus.msgResp statusMessage := by
  refine .of_returns ⟨by decide, Option.some_ne_none _, rfl⟩ (by decide) ?_ rfl
  intro callback buff prog known
  cases known
  exact ⟨Option.some_ne_none _, rfl⟩

/-- The steering average is asked for, and answered in time. -/
def promptRun : List (LinkInput Hephaestus.Vars) :=
  [.start steerPotMessage, .transfer 0 0, .read, .transfer 0 0, .proceed, .read, .poll 1 1,
    .proceed, .proceed, .proceed, .poll 2 2, .transfer 0 2, .transfer 0 2, .transfer 0 2,
    .proceed, .poll 3 3]

/-- The average comes back with its status. -/
theorem prompt_answer_returned :
    Agreed Hephaestus.hephaestus.msgResp
      ((linkFSM Hephaestus.hephaestus.msgResp 0xFF).outputs steeringAt3000 promptRun)
      1 0xAA [0xB8, 0x0B] := by
  have ready : Ready Hephaestus.hephaestus.msgResp steerPotMessage steeringAt3000 :=
    ⟨⟨rfl, rfl, rfl⟩, by decide, .inr ⟨nofun, .between ⟨rfl, rfl⟩ trivial, by decide⟩⟩
  refine requests_agree 0xFF rfl ?_ ?_ (by decide +kernel)
  · simp only [promptRun, Fsm.everyStep_cons, Fsm.everyStep_nil, MatchedStart, and_true]
    exact steerPotMessage_matched
  · simp only [promptRun, Fsm.everyStep_cons, Fsm.everyStep_nil, ReadyStart, and_true, true_and]
    exact ⟨fun _ => ready, by decide, by decide, by decide⟩

/-- The callback takes longer than the master waits; then the status is asked for. -/
def lateRun : List (LinkInput Hephaestus.Vars) :=
  [.start steerPotMessage, .transfer 0 0, .transfer 0 0, .read, .proceed, .read, .poll 6 6,
    .proceed, .proceed, .proceed,
    .start statusMessage, .transfer 0 10, .transfer 0 10, .poll 10 10, .transfer 0 10,
    .proceed, .poll 11 11, .read, .proceed, .read, .proceed, .proceed]

/-- The late answer goes out with the bytes of the second request, and the line is still
set: the high byte of the average is returned as the status, and the slave answers the
request only after that. -/
theorem late_answer_returned :
    (linkFSM Hephaestus.hephaestus.msgResp 0xFF).EveryStep
      (MatchedStart Hephaestus.hephaestus.msgResp) steeringAt3000 lateRun ∧
    (linkFSM Hephaestus.hephaestus.msgResp 0xFF).outputs steeringAt3000 lateRun =
      [.started 1 steerPotMessage, .returned 1 commsErrTimeout [],
        .answered (some 1) 0xAA [0xB8, 0x0B],
        .started 2 statusMessage, .returned 2 0x0B [], .answered (some 2) 0xAA []] ∧
    ¬ Agreed Hephaestus.hephaestus.msgResp
      ((linkFSM Hephaestus.hephaestus.msgResp 0xFF).outputs steeringAt3000 lateRun)
      2 0x0B [] := by
  have outputs : (linkFSM Hephaestus.hephaestus.msgResp 0xFF).outputs steeringAt3000 lateRun =
      [.started 1 steerPotMessage, .returned 1 commsErrTimeout [],
        .answered (some 1) 0xAA [0xB8, 0x0B],
        .started 2 statusMessage, .returned 2 0x0B [], .answered (some 2) 0xAA []] := by
    decide +kernel
  refine ⟨?_, outputs, ?_⟩
  · simp only [lateRun, Fsm.everyStep_cons, Fsm.everyStep_nil, MatchedStart, and_true, true_and]
    exact ⟨steerPotMessage_matched, statusMessage_matched⟩
  · rw [outputs]
    rintro ⟨m, -, ⟨timeout, -⟩ | answered⟩
    · exact absurd timeout (by decide)
    · have logged := answered.logged
      simp at logged

end OlympusFirmware.Update
