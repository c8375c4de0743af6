import Mathlib.Tactic.Common
import OlympusFirmware.Olympus.Dispatch
import OlympusFirmware.Olympus.TcpServer

/-!
# What a connection receives (`olympus/peripherals/ETH/tcp_server.c`)

`tcp_server_recv` hands the payload of each element of the chain to `runCommsFSM` and its
length to `tcp_recved`. The loop has one exit: an element without a next one, whose
`tot_len` is its `len`. At the last element of a chain of lwIP that is so; at a last element
where it is not, the same payload would be taken again and again.

`runCommsFSM` calls `runPacket`, and that the callback of the packet. `killBoard` and, with
the key, `resetBoard` do not return: then neither does the loop, and `tcp_recved` is not
called for the element.

The parser is a machine over bytes, so what it is taken through depends on the bytes and not
on the elements they come in.
-/

namespace OlympusFirmware.Olympus

open OlympusFirmware.Lib

/-- What a connection has done: the state it has reached, what was emitted, and what was passed
to `tcp_recved`. -/
structure Progress (σ ο ρ : Type) where
  state : σ
  emitted : List ο
  recved : List ρ

/-- How a loop goes: it ends, it is held in a call that does not return, or it is cut off
before either. -/
inductive RecvOutcome (α : Type)
  | ended (done : α)
  | held (done : α)
  | cutOff
deriving DecidableEq

/-- An event of a connection: whether `err` is `ERR_OK`, and the chain. -/
structure RecvEvent where
  ok : Bool
  chain : PbufChain

/-- The payloads of a chain, one after the other. -/
def PbufChain.payload (c : PbufChain) : List UInt8 :=
  (c.head :: c.rest).flatMap Pbuf.payload

/-- The bytes that events bring: a chain that comes with an error is freed. -/
def streamOf (events : List RecvEvent) : List UInt8 :=
  (events.filter (·.ok)).flatMap (·.chain.payload)

section Receive

variable {σ ο ρ : Type} (M : Fsm σ UInt8 ο) (runs : σ → Bool)

/-- A call of the parser with a payload. -/
def Progress.feed (done : Progress σ ο ρ) (p : Pbuf) : Progress σ ο ρ :=
  { done with
    state := M.after done.state p.payload
    emitted := done.emitted ++ M.outputs done.state p.payload }

/-- A call of `tcp_recved`. -/
def Progress.recv (done : Progress σ ο Nat) (p : Pbuf) : Progress σ ο Nat :=
  { done with recved := done.recved ++ [p.len] }

/-- The loop of `tcp_server_recv`, cut off after `fuel` rounds. `runs` says of the state after
the call of the parser whether it has returned. -/
def recvRounds : Nat → Progress σ ο Nat → Pbuf → List Pbuf → RecvOutcome (Progress σ ο Nat)
  | 0, _, _, _ => .cutOff
  | fuel + 1, done, curp, rest =>
      let fed := done.feed M curp
      if runs fed.state then
        match rest with
        | [] =>
            if curp.totLen = curp.len then .ended (fed.recv curp)
            else recvRounds fuel (fed.recv curp) curp []
        | next :: rest => recvRounds fuel (fed.recv curp) next rest
      else
        .held fed

/-- `tcp_server_recv` for a chain, its loop cut off after `fuel` rounds. -/
def receiveChain (fuel : Nat) (s : σ) (event : RecvEvent) : RecvOutcome (Progress σ ο Nat) :=
  if event.ok = false then .ended ⟨s, [], []⟩
  else recvRounds M runs fuel ⟨s, [], []⟩ event.chain.head event.chain.rest

/-- The lengths of an event, as those of one of several events. -/
def Progress.event (earlier : Progress σ ο (List Nat)) (done : Progress σ ο Nat) :
    Progress σ ο (List Nat) :=
  ⟨done.state, earlier.emitted ++ done.emitted, earlier.recved ++ [done.recved]⟩

/-- Successive events of a connection: what was emitted, and the lengths event by event. There
is no next event while one is held. -/
def receiveFrom (fuel : Nat) :
    Progress σ ο (List Nat) → List RecvEvent → RecvOutcome (Progress σ ο (List Nat))
  | earlier, [] => .ended earlier
  | earlier, event :: events =>
      match receiveChain M runs fuel earlier.state event with
      | .ended done => receiveFrom fuel (earlier.event done) events
      | .held done => .held (earlier.event done)
      | .cutOff => .cutOff

/-- The events of a connection whose handler is in this state. -/
def receiveEvents (fuel : Nat) (s : σ) (events : List RecvEvent) :
    RecvOutcome (Progress σ ο (List Nat)) :=
  receiveFrom M runs fuel ⟨s, [], []⟩ events

/-- The elements that a loop has taken when it ends are those of `recvLoop`. -/
theorem recvRounds_ended {fuel : Nat} {done done' : Progress σ ο Nat} {curp : Pbuf}
    {rest : List Pbuf} (ended : recvRounds M runs fuel done curp rest = .ended done') :
    ∃ taken, recvLoop fuel curp rest = some taken ∧
      done'.recved = done.recved ++ taken.map Pbuf.len := by
  induction fuel generalizing done curp rest with
  | zero => cases ended
  | succ fuel ih =>
      unfold recvRounds at ended
      dsimp only at ended
      split at ended
      · cases rest with
        | nil =>
            dsimp only at ended
            unfold recvLoop
            split at ended
            · rename_i last
              obtain rfl := RecvOutcome.ended.inj ended
              exact ⟨[curp], if_pos last, rfl⟩
            · rename_i more
              obtain ⟨taken, loop, recved⟩ := ih ended
              rw [if_neg more, loop]
              exact ⟨curp :: taken, rfl, by rw [recved]; simp [Progress.recv, Progress.feed]⟩
        | cons next rest =>
            obtain ⟨taken, loop, recved⟩ := ih ended
            unfold recvLoop
            rw [loop]
            exact ⟨curp :: taken, rfl, by rw [recved]; simp [Progress.recv, Progress.feed]⟩
      · cases ended

/-- The lengths of a chain add up to the first `tot_len`. -/
theorem sum_len {p : Pbuf} {rest : List Pbuf} (totals : ChainTotals p rest) :
    ((p :: rest).map Pbuf.len).sum = p.totLen := by
  induction rest generalizing p with
  | nil =>
      have last : p.totLen = p.len := totals
      simp [last]
  | cons next rest ih =>
      obtain ⟨total, totals⟩ := totals
      rw [List.map_cons, List.sum_cons, ih totals, total]

/-- What comes of bytes that are taken in one piece: the loop ends if the call returns, and is
held in it otherwise. -/
structure TakenAs (stream : List UInt8) (recved : List ρ) (done : Progress σ ο ρ)
    (outcome : RecvOutcome (Progress σ ο ρ)) : Prop where
  ended : runs (M.after done.state stream) = true →
    outcome = .ended ⟨M.after done.state stream, done.emitted ++ M.outputs done.state stream,
      done.recved ++ recved⟩
  held : runs (M.after done.state stream) = false →
    ∃ passed, outcome =
      .held ⟨M.after done.state stream, done.emitted ++ M.outputs done.state stream, passed⟩

/-- A machine in a call that does not return takes nothing. -/
def Stops : Prop := ∀ s x, runs s = false → M.step s x = (s, [])

variable {M runs}

theorem Stops.run (stops : Stops M runs) {s : σ} (stopped : runs s = false) (xs : List UInt8) :
    M.after s xs = s ∧ M.outputs s xs = [] :=
  M.stays fun x _ => stops s x stopped

/-- Held in the first part, held in the whole. -/
theorem TakenAs.append_held (stops : Stops M runs) {first more : List UInt8} {recved : List ρ}
    {done : Progress σ ο ρ} {passed : List ρ} {outcome : RecvOutcome (Progress σ ο ρ)}
    (stopped : runs (M.after done.state first) = false)
    (held : outcome = .held ⟨M.after done.state first,
      done.emitted ++ M.outputs done.state first, passed⟩) :
    TakenAs M runs (first ++ more) recved done outcome := by
  obtain ⟨after, outputs⟩ := stops.run stopped more
  refine ⟨fun returns => ?_, fun _ => ⟨passed, ?_⟩⟩
  · rw [Fsm.after_append, after, stopped] at returns
    cases returns
  · rw [Fsm.after_append, Fsm.outputs_append, after, outputs, List.append_nil, held]

/-- After a first part that has returned, the rest is taken from where it led. -/
theorem TakenAs.append {first more : List UInt8} {now later : List ρ}
    {done : Progress σ ο ρ} {outcome : RecvOutcome (Progress σ ο ρ)}
    (rest : TakenAs M runs more later
      ⟨M.after done.state first, done.emitted ++ M.outputs done.state first, done.recved ++ now⟩
      outcome) :
    TakenAs M runs (first ++ more) (now ++ later) done outcome := by
  obtain ⟨ended, held⟩ := rest
  dsimp only at ended held
  simp only [← Fsm.after_append, List.append_assoc, ← Fsm.outputs_append] at ended held
  exact ⟨ended, held⟩

/-- A call that does not return. -/
theorem recvRounds_held {done : Progress σ ο Nat} {curp : Pbuf} {rest : List Pbuf} {fuel : Nat}
    (stopped : runs (M.after done.state curp.payload) = false) :
    recvRounds M runs (fuel + 1) done curp rest = .held (done.feed M curp) := by
  have no : ¬ runs (done.feed M curp).state = true := by
    rw [show runs (done.feed M curp).state = false from stopped]
    exact Bool.false_ne_true
  unfold recvRounds
  exact if_neg no

/-- **The loop** takes a chain of lwIP in one piece. -/
theorem recvRounds_chain (stops : Stops M runs) {p : Pbuf} {rest : List Pbuf}
    (totals : ChainTotals p rest) {fuel : Nat} (enough : rest.length < fuel)
    (done : Progress σ ο Nat) :
    TakenAs M runs ((p :: rest).flatMap Pbuf.payload) ((p :: rest).map Pbuf.len) done
      (recvRounds M runs fuel done p rest) := by
  obtain ⟨fuel, rfl⟩ := Nat.exists_eq_succ_of_ne_zero (Nat.ne_zero_of_lt enough)
  induction rest generalizing p fuel done with
  | nil =>
      rw [List.flatMap_singleton, List.map_singleton]
      refine ⟨fun returns => ?_, fun stopped => ⟨done.recved, recvRounds_held stopped⟩⟩
      have last : p.totLen = p.len := totals
      unfold recvRounds
      dsimp only
      rw [if_pos (show runs (done.feed M p).state = true from returns), if_pos last]
      rfl
  | cons next rest ih =>
      rw [List.flatMap_cons, List.map_cons, ← List.singleton_append (x := p.len)]
      cases returns : runs (M.after done.state p.payload) with
      | false => exact TakenAs.append_held stops returns (recvRounds_held returns)
      | true =>
          unfold recvRounds
          dsimp only
          rw [if_pos (show runs (done.feed M p).state = true from returns)]
          have few : rest.length + 1 < fuel + 1 := enough
          obtain ⟨fuel, rfl⟩ : ∃ k, fuel = k + 1 := ⟨fuel - 1, by omega⟩
          exact .append (ih totals.2 ((done.feed M p).recv p) fuel (by omega))

/-- The lengths an event passes to `tcp_recved`. -/
def RecvEvent.lengths (event : RecvEvent) : List Nat :=
  if event.ok then (event.chain.head :: event.chain.rest).map Pbuf.len else []

/-- **Successive events** are taken in one piece. -/
theorem receiveFrom_events (stops : Stops M runs) {events : List RecvEvent} {fuel : Nat}
    (enough : ∀ event ∈ events, event.chain.rest.length < fuel) (done : Progress σ ο (List Nat))
    (running : runs done.state = true) :
    TakenAs M runs (streamOf events) (events.map RecvEvent.lengths) done
      (receiveFrom M runs fuel done events) := by
  induction events generalizing done with
  | nil =>
      refine ⟨fun _ => by simp [receiveFrom, streamOf], fun stopped => ?_⟩
      rw [show M.after done.state (streamOf []) = done.state from rfl, running] at stopped
      cases stopped
  | cons event events ih =>
      have others : ∀ e ∈ events, e.chain.rest.length < fuel :=
        fun e mem => enough e (List.mem_cons_of_mem _ mem)
      rw [List.map_cons, ← List.singleton_append (x := event.lengths)]
      cases ok : event.ok with
      | false =>
          have stream : streamOf (event :: events) = [] ++ streamOf events := by
            simp [streamOf, ok]
          have here : receiveChain M runs fuel done.state event = .ended ⟨done.state, [], []⟩ :=
            if_pos ok
          have lengths : event.lengths = [] := if_neg (by simp [ok])
          unfold receiveFrom
          rw [stream, here, lengths]
          exact TakenAs.append (ih others (done.event ⟨done.state, [], []⟩) running)
      | true =>
          have stream : streamOf (event :: events) = event.chain.payload ++ streamOf events := by
            simp [streamOf, ok]
          have rounds : receiveChain M runs fuel done.state event =
              recvRounds M runs fuel ⟨done.state, [], []⟩ event.chain.head event.chain.rest :=
            if_neg (by simp [ok])
          have lengths : event.lengths =
              (event.chain.head :: event.chain.rest).map Pbuf.len := if_pos ok
          have chain := recvRounds_chain stops event.chain.totals
            (enough event List.mem_cons_self) ⟨done.state, [], []⟩
          unfold receiveFrom
          rw [stream, rounds, lengths]
          cases returns : runs (M.after done.state event.chain.payload) with
          | true =>
              rw [chain.ended returns]
              exact TakenAs.append (ih others _ returns)
          | false =>
              obtain ⟨passed, held⟩ := chain.held returns
              rw [held]
              exact TakenAs.append_held stops returns rfl

/-- At each event the lengths add up to the first element's `tot_len`. -/
theorem sum_lengths (event : RecvEvent) :
    event.lengths.sum = if event.ok then event.chain.head.totLen else 0 := by
  unfold RecvEvent.lengths
  split
  · exact sum_len event.chain.totals
  · rfl

/-- So many rounds are enough for every event. -/
theorem exists_enough (events : List RecvEvent) :
    ∃ enough, ∀ fuel, enough ≤ fuel → ∀ event ∈ events, event.chain.rest.length < fuel := by
  induction events with
  | nil => exact ⟨0, fun _ _ _ mem => absurd mem List.not_mem_nil⟩
  | cons event events ih =>
      obtain ⟨enough, others⟩ := ih
      refine ⟨max (event.chain.rest.length + 1) enough, ?_⟩
      intro fuel bound e mem
      rcases List.mem_cons.mp mem with rfl | later
      · omega
      · exact others fuel (by omega) e later

end Receive

/-! ## The calls that are made -/

section Calls

variable (behind : CommsHandler → Nat → UInt8) (wild : Packet → Server → Server)

/-- Of the parser's calls those that are made: none behind one that does not return. -/
def callsMade : Server → List Call → List Call
  | _, [] => []
  | s, call :: calls =>
      if s.running then call :: callsMade ((serverFSM wild).next s call) calls else []

/-- `runCommsFSM` with the functions it calls, one byte, seen by the calls it makes. -/
def callFSM : Fsm Interface UInt8 Call where
  step o data :=
    ((interfaceFSM behind wild).next o data,
      callsMade wild o.server (commsStep behind o.handler data).2)

/-- The callback of a packet returns: it is not `killBoard`, nor `resetBoard` with the key in
`inputBuf`. -/
def Packet.Returns (p : Packet) (s : Server) : Prop :=
  match p.entry with
  | some r =>
      r.callback ≠ some .killBoard ∧
        (r.callback = some .resetBoard → leWord ((copyInput r p s.inputBuf).load 0 4) ≠ resetKey)
  | none => (wild p s).running = true

/-- A byte completes no packet whose callback does not return. -/
def Returns (o : Interface) (data : UInt8) : Prop :=
  ∀ p, Dispatches behind o data p → p.Returns wild o.server

variable {behind wild}

/-- `runPacket` returns if the callback does. -/
theorem runPacket_running_iff {p : Packet} {s : Server} (running : s.running = true) :
    (runPacket wild p s).1.running = true ↔ p.Returns wild s := by
  unfold runPacket Packet.Returns
  cases p.entry with
  | none => rfl
  | some r =>
      dsimp only
      unfold runEntry
      generalize r.callback = callback
      cases callback with
      | none => simp [running]
      | some f => cases f <;> simp [Callback.returns]

/-- A byte leaves the program running if it completes no such packet. -/
theorem next_running_iff {o : Interface} (running : o.server.running = true) (data : UInt8) :
    ((interfaceFSM behind wild).next o data).server.running = true ↔
      Returns behind wild o data := by
  have server : ((interfaceFSM behind wild).next o data).server =
      (serverFSM wild).after o.server (commsStep behind o.handler data).2 := by
    show (interfaceStep behind wild o data).1.server = _
    simp only [interfaceStep, running, if_true]
  rw [server]
  rcases commsStep_calls behind o.handler data with silent | ⟨state, checked, calls⟩
  · rw [silent]
    refine iff_of_true running fun p dispatches => ?_
    have member := dispatches.2
    rw [silent] at member
    cases member
  · generalize view : (o.handler.store o.handler.packetIdx data).packet behind = p at checked calls
    have only : Returns behind wild o data ↔ p.Returns wild o.server := by
      refine ⟨fun all => all p (dispatches_of_checked running state view checked), ?_⟩
      intro returns q dispatches
      obtain ⟨-, rfl, -, -⟩ := dispatches.view
      rw [view]
      exact returns
    have run : (serverFSM wild).next o.server (.runPacket p) = (runPacket wild p o.server).1 := by
      show (serverStep wild o.server (.runPacket p)).1 = _
      simp only [serverStep, running, if_true]
    have send : ∀ s : Server, (serverFSM wild).next s (.sendResponse p) = s := by
      intro s
      show (serverStep wild s (.sendResponse p)).1 = s
      unfold serverStep
      split <;> rfl
    rw [calls, only, Fsm.after_cons, Fsm.after_cons, Fsm.after_nil, send, run,
      runPacket_running_iff running]

theorem interfaceFSM_stops : Stops (interfaceFSM behind wild) (·.server.running) := by
  intro o data stopped
  exact if_neg (by simp [stopped])

theorem callsMade_stopped {s : Server} (stopped : s.running = false) (calls : List Call) :
    callsMade wild s calls = [] := by
  cases calls with
  | nil => rfl
  | cons call calls => exact if_neg (by simp [stopped])

theorem callFSM_stops : Stops (callFSM behind wild) (·.server.running) := by
  intro o data stopped
  have same : (interfaceFSM behind wild).next o data = o :=
    congrArg Prod.fst (interfaceFSM_stops o data stopped)
  exact Prod.ext same (callsMade_stopped stopped _)

/-- Both machines go through the same states. -/
theorem callFSM_after (o : Interface) (xs : List UInt8) :
    (callFSM behind wild).after o xs = (interfaceFSM behind wild).after o xs := by
  induction xs generalizing o with
  | nil => rfl
  | cons x xs ih => exact ih _

/-- **Bytes leave the program running** if and only if they complete no packet whose callback
does not return. -/
theorem running_iff_returns {o : Interface} (running : o.server.running = true)
    (xs : List UInt8) :
    ((interfaceFSM behind wild).after o xs).server.running = true ↔
      (interfaceFSM behind wild).EveryStep (Returns behind wild) o xs := by
  induction xs generalizing o with
  | nil => exact iff_of_true running trivial
  | cons x xs ih =>
      rw [Fsm.after_cons, Fsm.everyStep_cons, ← next_running_iff running x]
      cases next : ((interfaceFSM behind wild).next o x).server.running with
      | true => simp [ih next]
      | false =>
          rw [(interfaceFSM_stops.run next xs).1, next]
          simp

/-- If the program still runs, every call was made. -/
theorem callsMade_all {s : Server} {calls : List Call}
    (running : ((serverFSM wild).after s calls).running = true) :
    callsMade wild s calls = calls := by
  induction calls generalizing s with
  | nil => rfl
  | cons call calls ih =>
      have now : s.running = true := by
        by_contra stopped
        have stays : (serverFSM wild).after s (call :: calls) = s :=
          ((serverFSM wild).stays fun _ _ => if_neg stopped).1
        rw [stays] at running
        exact stopped running
      rw [callsMade, if_pos now, ih running]

/-- **A run that returns** is one call of `runCommsFSM`, all of whose calls are made. -/
theorem callFSM_returned {o : Interface} {xs : List UInt8}
    (returns : ((interfaceFSM behind wild).after o xs).server.running = true) :
    (interfaceFSM behind wild).after o xs =
        ⟨(runCommsFSM behind o.handler xs).1,
          (serverFSM wild).after o.server (runCommsFSM behind o.handler xs).2⟩ ∧
      (callFSM behind wild).outputs o xs = (runCommsFSM behind o.handler xs).2 := by
  induction xs generalizing o with
  | nil => exact ⟨rfl, rfl⟩
  | cons x xs ih =>
      have running : o.server.running = true := by
        by_contra stopped
        rw [(interfaceFSM_stops.run (Bool.not_eq_true _ ▸ stopped) (x :: xs)).1] at returns
        exact stopped returns
      have next : (interfaceFSM behind wild).next o x =
          ⟨(commsStep behind o.handler x).1,
            (serverFSM wild).after o.server (commsStep behind o.handler x).2⟩ := by
        show (interfaceStep behind wild o x).1 = _
        simp only [interfaceStep, running, if_true]
      have still : ((interfaceFSM behind wild).next o x).server.running = true := by
        by_contra stopped
        rw [Fsm.after_cons,
          (interfaceFSM_stops.run (Bool.not_eq_true _ ▸ stopped) xs).1] at returns
        exact stopped returns
      have made : (callFSM behind wild).emit o x = (commsStep behind o.handler x).2 := by
        refine callsMade_all ?_
        rw [next] at still
        exact still
      obtain ⟨after, outputs⟩ := ih returns
      have later : (callFSM behind wild).next o x = (interfaceFSM behind wild).next o x := rfl
      rw [Fsm.after_cons, Fsm.outputs_cons, made, later, after, outputs, next]
      refine ⟨?_, rfl⟩
      dsimp only [runCommsFSM]
      rw [← Fsm.after_append]
      rfl

end Calls

variable (behind : CommsHandler → Nat → UInt8) (wild : Packet → Server → Server)

/-- **Receiving.** For any events of a connection with chains of lwIP: if the bytes complete no
packet whose callback does not return, enough rounds of the loop end it at each event; the
handler and the calls for packets and responses are those of one `runCommsFSM` on all the bytes;
at each event the lengths passed to `tcp_recved` add up to the first element's `tot_len`.
Otherwise the loop is held, after the calls that the one `runCommsFSM` makes. -/
theorem receive_as_one (o : Interface) (running : o.server.running = true)
    (events : List RecvEvent) :
    ((interfaceFSM behind wild).EveryStep (Returns behind wild) o (streamOf events) →
      ∃ enough, ∀ fuel, enough ≤ fuel → ∃ recved,
        receiveEvents (callFSM behind wild) (·.server.running) fuel o events =
          .ended ⟨⟨(runCommsFSM behind o.handler (streamOf events)).1,
              (serverFSM wild).after o.server (runCommsFSM behind o.handler (streamOf events)).2⟩,
            (runCommsFSM behind o.handler (streamOf events)).2, recved⟩ ∧
        recved.map List.sum =
          events.map fun event => if event.ok then event.chain.head.totLen else 0) ∧
    (¬ (interfaceFSM behind wild).EveryStep (Returns behind wild) o (streamOf events) →
      ∃ enough, ∀ fuel, enough ≤ fuel → ∃ done,
        receiveEvents (callFSM behind wild) (·.server.running) fuel o events = .held done ∧
        done.emitted = (callFSM behind wild).outputs o (streamOf events)) := by
  obtain ⟨enough, rounds⟩ := exists_enough events
  have taken : ∀ fuel, enough ≤ fuel →
      TakenAs (callFSM behind wild) (·.server.running) (streamOf events)
        (events.map RecvEvent.lengths) ⟨o, [], []⟩
        (receiveEvents (callFSM behind wild) (·.server.running) fuel o events) :=
    fun fuel bound => receiveFrom_events callFSM_stops (rounds fuel bound) ⟨o, [], []⟩ running
  rw [← running_iff_returns running, ← callFSM_after]
  refine ⟨fun returns => ⟨enough, fun fuel bound => ⟨events.map RecvEvent.lengths, ?_, ?_⟩⟩,
    fun stopped => ⟨enough, fun fuel bound => ?_⟩⟩
  · have returned := returns
    rw [callFSM_after] at returned
    obtain ⟨after, outputs⟩ := callFSM_returned returned
    rw [(taken fuel bound).ended returns, callFSM_after, after, outputs]
    rfl
  · rw [List.map_map]
    exact List.map_congr_left fun event _ => sum_lengths event
  · obtain ⟨passed, held⟩ := (taken fuel bound).held (Bool.not_eq_true _ ▸ stopped)
    exact ⟨_, held, rfl⟩

/-- A command in three pieces: two elements of a chain, a chain that comes with an error, and
the rest. -/
def piecewiseCommand : List RecvEvent :=
  [⟨true, ⟨⟨[0xF0, 0x5A, 0x12], 4⟩, [⟨[0x01], 1⟩], ⟨rfl, rfl⟩⟩⟩, ⟨false, ⟨⟨[0xF0], 1⟩, [], rfl⟩⟩,
    ⟨true, ⟨⟨[0x07, 0x02, 0x5D], 3⟩, [], rfl⟩⟩]

/-- It is run and answered once. -/
theorem piecewise_command_received :
    ∃ enough, ∀ fuel, enough ≤ fuel → ∃ done,
      receiveEvents (callFSM (fun _ _ => 0) fun _ s => s) (·.server.running) fuel
        (.init (.replicate 64 0)) piecewiseCommand = .ended done ∧
      done.emitted.length = 2 ∧ done.recved.map List.sum = [4, 0, 3] := by
  have returns : (interfaceFSM (fun _ _ => 0) fun _ s => s).EveryStep
      (Returns (fun _ _ => 0) fun _ s => s) (.init (.replicate 64 0)) (streamOf piecewiseCommand) :=
    (running_iff_returns rfl _).mp (by decide +kernel)
  obtain ⟨enough, ended⟩ := (receive_as_one (fun _ _ => 0) (fun _ s => s)
    (.init (.replicate 64 0)) rfl piecewiseCommand).1 returns
  have two : (runCommsFSM (fun _ _ => 0) (Interface.init (.replicate 64 0)).handler
      (streamOf piecewiseCommand)).2.length = 2 := by decide +kernel
  refine ⟨enough, fun fuel bound => ?_⟩
  obtain ⟨recved, whole, sums⟩ := ended fuel bound
  exact ⟨_, whole, two, sums⟩

/-- The kill packet in one element. -/
def killEvent : RecvEvent := ⟨true, ⟨⟨[0xF0, 0x5A, 0x20, 0x00, 0x06, 0x38], 6⟩, [], rfl⟩⟩

/-- No number of rounds ends the loop for it. -/
theorem kill_holds_loop :
    ¬ ∀ (behind : CommsHandler → Nat → UInt8) (wild : Packet → Server → Server) (o : Interface)
      (events : List RecvEvent), o.server.running = true →
      ∃ fuel done,
        receiveEvents (callFSM behind wild) (·.server.running) fuel o events = .ended done := by
  intro all
  obtain ⟨fuel, done, ended⟩ := all (fun _ _ => 0) (fun _ s => s) (.init (.replicate 64 0))
    [killEvent] rfl
  cases fuel with
  | zero => cases ended
  | succ fuel =>
      have stops : Stops (callFSM (fun _ _ => 0) fun _ s => s) (·.server.running) := callFSM_stops
      have few : ∀ event ∈ [killEvent], event.chain.rest.length < fuel + 1 := by
        intro event mem
        rw [List.mem_singleton.mp mem]
        exact Nat.succ_pos fuel
      have taken := receiveFrom_events stops few ⟨.init (.replicate 64 0), [], []⟩ rfl
      obtain ⟨passed, held⟩ := taken.held (by decide +kernel)
      exact absurd (ended.symm.trans held) (by simp)

/-- What the functions do for the packets is the same, too, and a callback that does not return
holds the loop where it would hold the one call. -/
theorem receive_interface (o : Interface) (running : o.server.running = true)
    (events : List RecvEvent) :
    ∃ enough, ∀ fuel, enough ≤ fuel →
      TakenAs (interfaceFSM behind wild) (·.server.running) (streamOf events)
        (events.map RecvEvent.lengths) ⟨o, [], []⟩
        (receiveEvents (interfaceFSM behind wild) (·.server.running) fuel o events) := by
  obtain ⟨enough, rounds⟩ := exists_enough events
  exact ⟨enough, fun fuel bound =>
    receiveFrom_events interfaceFSM_stops (rounds fuel bound) ⟨o, [], []⟩ running⟩

end OlympusFirmware.Olympus
