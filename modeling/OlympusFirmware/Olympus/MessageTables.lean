import OlympusFirmware.Olympus.Submodules

/-!
# The message tables of master and slaves

The lengths of a message are written twice: in the call of `messageSubmodule` and in
the slave's table `msgResp`. Here a request is sent to a slave between messages, byte by
byte, and what comes back is compared with what the slave holds. The bytes the master
sends while it receives (the uninitialised status, the old buffer) are part of the
exchange.

Two requests fail: the speed of Hermes, whose entry has length zero where the master
reads two bytes, and the status of Apollo, whose main loop does not read its messages.
-/

namespace OlympusFirmware.Olympus

open OlympusFirmware.Lib OlympusFirmware.SlaveLib
open OlympusFirmware.Update (commsErrTimeout)

/-- The request functions that exchange data. -/
inductive RequestFunction
  | getHermesStatus | updateHermesAutoman | updateHermesSpeed
  | updateHermesSetSpeedTarget (speedTargetMMs : UInt16)
  | getHephaestusStatus | setHephaestusSteering (angle : UInt8)
  | getHephaestusSteerPot | getHephaestusSteerSpeed | getHephaestusBrakePot
  | getJanusStatus | setFNR (state : UInt8) | updateFNR
  | getApolloStatus | getZeusStatus
deriving DecidableEq

/-- Their requests. -/
def RequestFunction.request : RequestFunction → Request
  | .getHermesStatus => Olympus.getHermesStatus
  | .updateHermesAutoman => Olympus.updateHermesAutoman
  | .updateHermesSpeed => Olympus.updateHermesSpeed
  | .updateHermesSetSpeedTarget mms => Olympus.updateHermesSetSpeedTarget mms
  | .getHephaestusStatus => Olympus.getHephaestusStatus
  | .setHephaestusSteering angle => Olympus.setHephaestusSteering angle
  | .getHephaestusSteerPot => Olympus.getHephaestusSteerPot
  | .getHephaestusSteerSpeed => Olympus.getHephaestusSteerSpeed
  | .getHephaestusBrakePot => Olympus.getHephaestusBrakePot
  | .getJanusStatus => Olympus.getJanusStatus
  | .setFNR state => Olympus.setFNR state
  | .updateFNR => Olympus.updateFNR
  | .getApolloStatus => Olympus.getApolloStatus
  | .getZeusStatus => Olympus.getZeusStatus

/-! ## An exchange -/

/-- What an exchange comes to at the slave: the callbacks run before the last byte of the
request and in all, the bytes queued when the master begins to receive and in all, and
whether it ends between messages. -/
structure Outcome where
  early : List UInt8
  called : List UInt8
  response : List UInt8
  queued : List UInt8
  idle : Prop

/-- The exchange with a slave that runs `runCommsFSM`. Without a response the master times
out and sends nothing more. -/
def exchangeWith {δ ε : Type} (msgResp : UInt8 → MsgInfo δ ε) (c : Comms δ) (r : Request)
    (dummies : List UInt8) : Outcome :=
  let M := SlaveLib.commsFSM msgResp
  let response := SlaveLib.queued (M.outputs c r.bytes)
  let bytes := if response = [] then r.bytes else r.bytes ++ dummies
  { early := SlaveLib.called (M.outputs c r.bytes.dropLast)
    called := SlaveLib.called (M.outputs c bytes)
    response := response
    queued := SlaveLib.queued (M.outputs c bytes)
    idle := (M.after c bytes).Idle }

/-- The exchange with a slave that reads nothing. -/
def unread : Outcome := ⟨[], [], [], [], True⟩

/-- The slaves. Apollo has a table, but its main loop does not read messages. -/
structure Slaves where
  hermes : Comms Hermes.Vars
  hephaestus : Comms Hephaestus.Vars
  janus : Comms Janus.Vars
  zeus : Comms Unit

/-- All of them are between messages. -/
structure Slaves.Idle (s : Slaves) : Prop where
  hermes : s.hermes.Idle
  hephaestus : s.hephaestus.Idle
  janus : s.janus.Idle
  zeus : s.zeus.Idle

/-- The exchange with the slave a request goes to. -/
def Slaves.exchange (s : Slaves) (r : Request) (dummies : List UInt8) : Outcome :=
  match r.module with
  | .hermes => exchangeWith Hermes.hermes.msgResp s.hermes r dummies
  | .hephaestus => exchangeWith Hephaestus.hephaestus.msgResp s.hephaestus r dummies
  | .janus => exchangeWith Janus.janus.msgResp s.janus r dummies
  | .zeus => exchangeWith Update.zeus.msgResp s.zeus r dummies
  | _ => unread

/-- The status and the bytes that `messageSubmodule` receives. `line` is what it reads
once the slave has nothing more to send. -/
def received (out : Outcome) (rxSize : Nat) (line : Nat → UInt8) : UInt8 × List UInt8 :=
  let wire := fun i => (out.response[i]?).getD (line i)
  if out.response = [] then (commsErrTimeout, [])
  else (wire 0, (List.range rxSize).map fun i => wire (i + 1))

/-! ## What agreement asks -/

/-- What the slave holds for a request. -/
def RequestFunction.held (s : Slaves) : RequestFunction → List UInt8
  | .updateHermesAutoman => [if s.hermes.prog.automan then 1 else 0]
  | .updateHermesSpeed => leBytes 2 s.hermes.prog.speed.toUInt16.toNat
  | .getHephaestusSteerPot => leBytes 2 s.hephaestus.prog.steerAvg.toNat
  | .getHephaestusSteerSpeed => leBytes 2 s.hephaestus.prog.steerSpeed.toUInt16.toNat
  | .getHephaestusBrakePot => leBytes 2 s.hephaestus.prog.brakeAvg.toNat
  | .updateFNR => [Janus.getFNR s.janus.prog]
  | _ => []

/-- Where the master stores it. -/
def RequestFunction.stored (d : SubmoduleData) : RequestFunction → List UInt8
  | .updateHermesAutoman => [d.aman]
  | .updateHermesSpeed => d.speed
  | .getHephaestusSteerPot => d.steerPot
  | .getHephaestusSteerSpeed => d.steerSpeed
  | .getHephaestusBrakePot => d.brakePot
  | .updateFNR => [d.fnr]
  | _ => []

/-- The slave runs the request's callback once, on its last byte, queues the status and
as many bytes as the master reads, and ends between messages. -/
structure Outcome.Agrees (out : Outcome) (r : Request) : Prop where
  early : out.early = []
  called : out.called = [r.msgType]
  queued : out.queued.length = 1 + r.rxSize
  idle : out.idle

/-- What is sent while the master receives: the old status and buffer. -/
def RequestFunction.dummies (f : RequestFunction) (status : UInt8) (buff : Mem UInt8) :
    List UInt8 := status :: buff.load 0 f.request.rxSize

/-- The exchange agrees, and if the status is good, the master stores what the slave
holds. -/
def TablesAgree (s : Slaves) (f : RequestFunction) (status : UInt8) (buff : Mem UInt8)
    (line : Nat → UInt8) (d : SubmoduleData) : Prop :=
  let out := s.exchange f.request (f.dummies status buff)
  let result := received out f.request.rxSize line
  out.Agrees f.request ∧
    (result.1 = commsOk → f.stored (f.request.store result.1 result.2 d) = f.held s)

/-- The bytes are inert for the slave a request goes to. -/
def RequestFunction.Inert (f : RequestFunction) (bytes : List UInt8) : Prop :=
  match f.request.module with
  | .hermes => SlaveLib.Inert Hermes.hermes.msgResp bytes
  | .hephaestus => SlaveLib.Inert Hephaestus.hephaestus.msgResp bytes
  | .janus => SlaveLib.Inert Janus.janus.msgResp bytes
  | .zeus => SlaveLib.Inert Update.zeus.msgResp bytes
  | _ => True

/-! ## One exchange -/

section Exchange

variable {δ ε : Type} {msgResp : UInt8 → MsgInfo δ ε} {c : Comms δ} {r : Request}
  {callback : Mem UInt8 → δ → CallResult δ ε}

/-- What the exchange comes to, given what the request alone does. -/
theorem exchange_settled {c' : Comms δ} {status : UInt8} {data : List UInt8}
    (reached : (SlaveLib.commsFSM msgResp).after c r.bytes = c') (idle' : c'.Idle)
    (calls : SlaveLib.called ((SlaveLib.commsFSM msgResp).outputs c r.bytes) = [r.msgType])
    (queues : SlaveLib.queued ((SlaveLib.commsFSM msgResp).outputs c r.bytes) = status :: data)
    (dummies : List UInt8) :
    (exchangeWith msgResp c r dummies).response = status :: data ∧
      (((exchangeWith msgResp c r dummies).called = [r.msgType] ∧
        (exchangeWith msgResp c r dummies).idle) ↔ SlaveLib.Inert msgResp dummies) ∧
      (SlaveLib.Inert msgResp dummies →
        (exchangeWith msgResp c r dummies).queued = status :: data) := by
  have all : (if SlaveLib.queued ((SlaveLib.commsFSM msgResp).outputs c r.bytes) = [] then r.bytes
      else r.bytes ++ dummies) = r.bytes ++ dummies := by
    rw [queues]
    exact if_neg (List.cons_ne_nil _ _)
  simp only [exchangeWith, all]
  rw [Fsm.outputs_append, Fsm.after_append, reached, called_append, queued_append, calls, queues]
  refine ⟨rfl, ?_, ?_⟩
  · rw [inert_iff msgResp dummies idle']
    simp
  · intro inert
    obtain ⟨-, -, -, -, clear⟩ := feed_inert msgResp dummies inert idle'
    rw [queued_of_clear clear, List.append_nil]

/-- An exchange whose callback returns, having done at most something to the device. -/
theorem exchange_returns (idle : c.Idle) (fits : Fits msgResp r.msgType r.txData)
    (known : (msgResp r.msgType).callback = some callback) (other : r.msgType ≠ bootMsg)
    (call : ∀ buff, ∃ status acts, (callback buff c.prog).status = some status ∧
      (callback buff c.prog).outputs = List.map .device acts) (dummies : List UInt8) :
    ∃ buff status, (callback buff c.prog).status = some status ∧
      (exchangeWith msgResp c r dummies).early = [] ∧
      (exchangeWith msgResp c r dummies).response =
        status :: (callback buff c.prog).buff.load 0 (msgResp r.msgType).txDataLength.toNat ∧
      (((exchangeWith msgResp c r dummies).called = [r.msgType] ∧
        (exchangeWith msgResp c r dummies).idle) ↔ SlaveLib.Inert msgResp dummies) ∧
      (SlaveLib.Inert msgResp dummies → (exchangeWith msgResp c r dummies).queued =
        status :: (callback buff c.prog).buff.load 0 (msgResp r.msgType).txDataLength.toNat) := by
  obtain ⟨c₁, prog, running, type, loaded, reached, emitted⟩ :=
    feed_request msgResp idle fits known
  obtain ⟨status, acts, returns, only⟩ := call c₁.buff
  have silent : acknowledged (ε := ε) r.msgType r.txData = [] := if_neg fun both => other both.1
  rw [← prog] at returns only
  rw [runCallback_returns msgResp returns] at reached emitted
  rw [silent, only, type] at emitted
  have calls : SlaveLib.called ((SlaveLib.commsFSM msgResp).outputs c r.bytes) = [r.msgType] := by
    rw [Request.bytes, emitted]
    simp
  have queues : SlaveLib.queued ((SlaveLib.commsFSM msgResp).outputs c r.bytes) = status ::
      (callback c₁.buff c₁.prog).buff.load 0 (msgResp r.msgType).txDataLength.toNat := by
    rw [Request.bytes, emitted]
    simp
  have settled := exchange_settled (r := r) reached ⟨running, rfl⟩ calls queues dummies
  refine ⟨c₁.buff, status, ?_, called_before_last msgResp idle fits, ?_⟩
  · rw [← prog]
    exact returns
  · rw [← prog]
    exact settled

variable (msgResp) in
/-- **An exchange** agrees if and only if the lengths are the same on both sides and the
bytes sent in the response phase are inert. -/
theorem exchange_agrees_iff (idle : c.Idle) (fits : Fits msgResp r.msgType r.txData)
    (known : (msgResp r.msgType).callback = some callback) (other : r.msgType ≠ bootMsg)
    (call : ∀ buff, ∃ status acts, (callback buff c.prog).status = some status ∧
      (callback buff c.prog).outputs = List.map .device acts) (dummies : List UInt8) :
    (exchangeWith msgResp c r dummies).Agrees r ↔
      (msgResp r.msgType).txDataLength.toNat = r.rxSize ∧ SlaveLib.Inert msgResp dummies := by
  obtain ⟨buff, status, -, early, -, inert, queued⟩ :=
    exchange_returns idle fits known other call dummies
  constructor
  · intro agrees
    have quiet := inert.mp ⟨agrees.called, agrees.idle⟩
    have size := agrees.queued
    rw [queued quiet, List.length_cons, Mem.length_load] at size
    exact ⟨by omega, quiet⟩
  · rintro ⟨size, quiet⟩
    obtain ⟨called, between⟩ := inert.mpr quiet
    refine ⟨early, called, ?_, between⟩
    rw [queued quiet, List.length_cons, Mem.length_load]
    omega

/-- With the same lengths, the master receives the status and the start of the callback's
buffer. -/
theorem received_of_same (idle : c.Idle) (fits : Fits msgResp r.msgType r.txData)
    (known : (msgResp r.msgType).callback = some callback) (other : r.msgType ≠ bootMsg)
    (call : ∀ buff, ∃ status acts, (callback buff c.prog).status = some status ∧
      (callback buff c.prog).outputs = List.map .device acts)
    (same : (msgResp r.msgType).txDataLength.toNat = r.rxSize) (dummies : List UInt8)
    (line : Nat → UInt8) :
    ∃ buff status, (callback buff c.prog).status = some status ∧
      received (exchangeWith msgResp c r dummies) r.rxSize line =
        (status, (callback buff c.prog).buff.load 0 r.rxSize) := by
  obtain ⟨buff, status, returns, -, response, -, -⟩ :=
    exchange_returns idle fits known other call dummies
  refine ⟨buff, status, returns, ?_⟩
  rw [same] at response
  simp only [received, response, if_neg (List.cons_ne_nil _ _), List.getElem?_cons_zero,
    Option.getD_some, List.getElem?_cons_succ, Prod.mk.injEq, true_and]
  apply List.ext_getElem
  · simp
  · intro i left right
    simp only [List.length_map, List.length_range] at left
    simp [Mem.load, left]

end Exchange

/-! ## The request functions -/

section Functions

variable {s : Slaves} {f : RequestFunction} {status : UInt8} {buff : Mem UInt8}
  {line : Nat → UInt8} {d : SubmoduleData}

/-- Where what is received is stored as the slave holds it, only the exchange matters. -/
theorem tablesAgree_iff_inert {inert : Prop}
    (agrees : (s.exchange f.request (f.dummies status buff)).Agrees f.request ↔ inert)
    (stored : ∀ result, received (s.exchange f.request (f.dummies status buff)) f.request.rxSize
        line = result → result.1 = commsOk →
      f.stored (f.request.store result.1 result.2 d) = f.held s) :
    TablesAgree s f status buff line d ↔ inert := by
  unfold TablesAgree
  rw [← agrees]
  exact ⟨fun both => both.1, fun first => ⟨first, stored _ rfl⟩⟩

/-- A request function whose entry in the slave's table has the master's lengths. -/
theorem matched_iff {δ ε : Type} {msgResp : UInt8 → MsgInfo δ ε} {c : Comms δ} (idle : c.Idle)
    (exchange : ∀ dummies, s.exchange f.request dummies = exchangeWith msgResp c f.request dummies)
    (inert : ∀ bytes, f.Inert bytes ↔ SlaveLib.Inert msgResp bytes)
    (notSpeed : f ≠ .updateHermesSpeed) (notApollo : f ≠ .getApolloStatus)
    (small : f.request.msgType < bootMsg) {callback : Mem UInt8 → δ → CallResult δ ε}
    (known : (msgResp f.request.msgType).callback = some callback)
    (size : f.request.txData.length = (msgResp f.request.msgType).rxDataLength.toNat)
    (same : (msgResp f.request.msgType).txDataLength.toNat = f.request.rxSize)
    (call : ∀ buff, ∃ status acts, (callback buff c.prog).status = some status ∧
      (callback buff c.prog).outputs = List.map .device acts)
    (stored : ∀ buff, (callback buff c.prog).status = some commsOk →
      f.stored (f.request.store commsOk
        ((callback buff c.prog).buff.load 0 f.request.rxSize) d) = f.held s) :
    TablesAgree s f status buff line d ↔
      f ≠ .updateHermesSpeed ∧ f ≠ .getApolloStatus ∧ f.Inert (f.dummies status buff) := by
  have small' := UInt8.lt_iff_toNat_lt.mp small
  have inside : ¬ numMsgs ≤ f.request.msgType := by
    intro outside
    have outside' := UInt8.le_iff_toNat_le.mp outside
    simp only [numMsgs, bootMsg, UInt8.reduceToNat] at small' outside'
    omega
  have other : f.request.msgType ≠ bootMsg := by
    intro boot
    rw [boot] at small'
    exact absurd small' (lt_irrefl _)
  have fits : Fits msgResp f.request.msgType f.request.txData := ⟨inside, by simp [known], size⟩
  refine tablesAgree_iff_inert ?_ ?_
  · rw [exchange, exchange_agrees_iff msgResp idle fits known other call, inert]
    exact ⟨fun both => ⟨notSpeed, notApollo, both.2⟩, fun all => ⟨same, all.2.2⟩⟩
  · intro result from' ok
    obtain ⟨buff', status', returns, got⟩ :=
      received_of_same idle fits known other call same (f.dummies status buff) line
    rw [exchange, got] at from'
    subst from'
    obtain rfl : status' = commsOk := ok
    exact stored buff' returns

/-- What a callback that copies a 16-bit variable leaves in the buffer. -/
theorem load_store_half (buff : Mem UInt8) (value : Nat) :
    (buff.store 0 (leBytes 2 value)).load 0 2 = leBytes 2 value := by
  have back := buff.load_store_self 0 (leBytes 2 value)
  rwa [length_leBytes] at back

/-- The master accepts the mode as the callback writes it. -/
theorem automan_stored (buff : Mem UInt8) (v : Hermes.Vars) (d : SubmoduleData) :
    [(Olympus.updateHermesAutoman.store commsOk
      ((Hermes.getAmanCallback buff v).buff.load 0 1) d).aman] = [if v.automan then 1 else 0] := by
  have loaded : (Hermes.getAmanCallback buff v).buff.load 0 1 = [if v.automan then 1 else 0] :=
    buff.load_store_self 0 [_]
  rw [loaded]
  cases v.automan <;> rfl

/-- The master stores the gear as the callback writes it, also an invalid one. -/
theorem fnr_stored (buff : Mem UInt8) (v : Janus.Vars) (d : SubmoduleData) :
    [(Olympus.updateFNR.store commsOk
      ((Janus.getFnrCallback buff v).buff.load 0 1) d).fnr] = [Janus.getFNR v] := by
  have loaded : (Janus.getFnrCallback buff v).buff.load 0 1 = [Janus.getFNR v] :=
    buff.load_store_self 0 [_]
  rw [loaded]
  unfold Janus.getFNR
  split
  · rfl
  · split
    · rfl
    · split <;> rfl

/-- The callbacks that check their argument return. -/
theorem setSteer_returns (h : Hephaestus.Vars) (buff : Mem UInt8) :
    ∃ status acts, (Hephaestus.setSteerCallback buff h).status = some status ∧
      (Hephaestus.setSteerCallback buff h).outputs = List.map .device acts := by
  unfold Hephaestus.setSteerCallback
  split
  · exact ⟨_, [], rfl, rfl⟩
  · exact ⟨_, [], rfl, rfl⟩

@[inherit_doc setSteer_returns]
theorem setFnr_returns (v : Janus.Vars) (buff : Mem UInt8) :
    ∃ status acts, (Janus.setFnrCallback buff v).status = some status ∧
      (Janus.setFnrCallback buff v).outputs = List.map .device acts := by
  rw [Janus.setFnrCallback_spec]
  split
  · exact ⟨_, _, rfl, rfl⟩
  · exact ⟨_, [], rfl, rfl⟩

/-- The speed of Hermes is not sent back. -/
theorem updateHermesSpeed_disagrees (idle : s.hermes.Idle) :
    ¬ TablesAgree s .updateHermesSpeed status buff line d := by
  intro agree
  have lengths := (exchange_agrees_iff Hermes.hermes.msgResp (r := Olympus.updateHermesSpeed) idle
    ⟨show ¬ numMsgs ≤ 0x02 by decide, Option.some_ne_none _, rfl⟩ rfl
    (show (0x02 : UInt8) ≠ bootMsg by decide) (fun _ => ⟨_, [], rfl, rfl⟩) _).mp agree.1
  exact absurd lengths.1 (by decide)

/-- Apollo reads nothing. -/
theorem getApolloStatus_disagrees : ¬ TablesAgree s .getApolloStatus status buff line d := by
  intro agree
  cases agree.1.called

variable (s f status buff line d)

/-- **The tables agree.** For every request function, every state of the slaves between
messages, every old status and buffer, and whatever the line carries when nothing is
sent: the slave takes exactly the request's data, queues exactly what the master reads,
ends between messages, and the master stores what the slave holds, if and only if the
function is neither `updateHermesSpeed` nor `getApolloStatus` and the bytes sent in the
response phase are inert. -/
theorem tables_agree_iff (idle : s.Idle) :
    TablesAgree s f status buff line d ↔
      f ≠ .updateHermesSpeed ∧ f ≠ .getApolloStatus ∧ f.Inert (f.dummies status buff) := by
  cases f with
  | updateHermesSpeed =>
      exact iff_of_false (updateHermesSpeed_disagrees idle.hermes) (fun both => both.1 rfl)
  | getApolloStatus =>
      exact iff_of_false getApolloStatus_disagrees (fun both => both.2.1 rfl)
  | getHermesStatus =>
      exact matched_iff idle.hermes (fun _ => rfl) (fun _ => Iff.rfl) nofun nofun
        (show (0x00 : UInt8) < bootMsg by decide) rfl rfl rfl
        (fun _ => ⟨_, [], rfl, rfl⟩) (fun _ _ => rfl)
  | updateHermesAutoman =>
      exact matched_iff idle.hermes (fun _ => rfl) (fun _ => Iff.rfl) nofun nofun
        (show (0x01 : UInt8) < bootMsg by decide) rfl rfl rfl
        (fun _ => ⟨_, [], rfl, rfl⟩) (fun buff _ => automan_stored buff s.hermes.prog d)
  | updateHermesSetSpeedTarget mms =>
      exact matched_iff idle.hermes (fun _ => rfl) (fun _ => Iff.rfl) nofun nofun
        (show (0x05 : UInt8) < bootMsg by decide) rfl rfl rfl
        (fun _ => ⟨_, [], rfl, rfl⟩) (fun _ _ => rfl)
  | getHephaestusStatus =>
      exact matched_iff idle.hephaestus (fun _ => rfl) (fun _ => Iff.rfl) nofun nofun
        (show (0x00 : UInt8) < bootMsg by decide) rfl rfl rfl
        (fun _ => ⟨_, [], rfl, rfl⟩) (fun _ _ => rfl)
  | setHephaestusSteering angle =>
      exact matched_iff idle.hephaestus (fun _ => rfl) (fun _ => Iff.rfl) nofun nofun
        (show (0x01 : UInt8) < bootMsg by decide) rfl rfl rfl
        (setSteer_returns _) (fun _ _ => rfl)
  | getHephaestusSteerPot =>
      exact matched_iff idle.hephaestus (fun _ => rfl) (fun _ => Iff.rfl) nofun nofun
        (show (0x02 : UInt8) < bootMsg by decide) rfl rfl rfl
        (fun _ => ⟨_, [], rfl, rfl⟩) (fun buff _ => load_store_half buff _)
  | getHephaestusSteerSpeed =>
      exact matched_iff idle.hephaestus (fun _ => rfl) (fun _ => Iff.rfl) nofun nofun
        (show (0x03 : UInt8) < bootMsg by decide) rfl rfl rfl
        (fun _ => ⟨_, [], rfl, rfl⟩) (fun buff _ => load_store_half buff _)
  | getHephaestusBrakePot =>
      exact matched_iff idle.hephaestus (fun _ => rfl) (fun _ => Iff.rfl) nofun nofun
        (show (0x05 : UInt8) < bootMsg by decide) rfl rfl rfl
        (fun _ => ⟨_, [], rfl, rfl⟩) (fun buff _ => load_store_half buff _)
  | getJanusStatus =>
      exact matched_iff idle.janus (fun _ => rfl) (fun _ => Iff.rfl) nofun nofun
        (show (0x00 : UInt8) < bootMsg by decide) rfl rfl rfl
        (fun _ => ⟨_, [], rfl, rfl⟩) (fun _ _ => rfl)
  | setFNR state =>
      exact matched_iff idle.janus (fun _ => rfl) (fun _ => Iff.rfl) nofun nofun
        (show (0x02 : UInt8) < bootMsg by decide) rfl rfl rfl
        (setFnr_returns _) (fun _ _ => rfl)
  | updateFNR =>
      exact matched_iff idle.janus (fun _ => rfl) (fun _ => Iff.rfl) nofun nofun
        (show (0x01 : UInt8) < bootMsg by decide) rfl rfl rfl
        (fun _ => ⟨_, [], rfl, rfl⟩) (fun buff _ => fnr_stored buff s.janus.prog d)
  | getZeusStatus =>
      exact matched_iff idle.zeus (fun _ => rfl) (fun _ => Iff.rfl) nofun nofun
        (show (0x00 : UInt8) < bootMsg by decide) rfl rfl rfl
        (fun _ => ⟨_, [], rfl, rfl⟩) (fun _ _ => rfl)

end Functions

/-- The slaves at reset, Hermes with a speed of 291 millimetres per second. -/
def rollingSlaves : Slaves where
  hermes := .reset { Hermes.Vars.reset with speed := 0x0123 }
  hephaestus := .reset .reset
  janus := .reset Janus.janus.start
  zeus := .reset ()

theorem rollingSlaves_idle : rollingSlaves.Idle := ⟨⟨rfl, rfl⟩, ⟨rfl, rfl⟩, ⟨rfl, rfl⟩, ⟨rfl, rfl⟩⟩

/-- The position of the steering is read from a cleared buffer. -/
theorem steerPot_agrees :
    TablesAgree rollingSlaves .getHephaestusSteerPot 0x00 (fun _ => 0x00) (fun _ => 0xFF)
      ⟨[], 0, [], [], [], 0⟩ := by
  refine (tables_agree_iff rollingSlaves .getHephaestusSteerPot 0x00 (fun _ => 0x00)
    (fun _ => 0xFF) ⟨[], 0, [], [], [], 0⟩ rollingSlaves_idle).mpr ⟨nofun, nofun, ?_⟩
  show SlaveLib.Inert Hephaestus.hephaestus.msgResp [0x00, 0x00, 0x00]
  simp [SlaveLib.Inert, commsStartByte]

/-- The speed that Hermes holds is not what the master gets with a good status. -/
theorem speed_not_sent :
    RequestFunction.held rollingSlaves .updateHermesSpeed = [0x23, 0x01] ∧
    received (rollingSlaves.exchange Olympus.updateHermesSpeed
        (RequestFunction.dummies .updateHermesSpeed 0x00 (fun _ => 0x00)))
      Olympus.updateHermesSpeed.rxSize (fun _ => 0xFF) = (0xAA, [0xFF, 0xFF]) ∧
    ¬ TablesAgree rollingSlaves .updateHermesSpeed 0x00 (fun _ => 0x00) (fun _ => 0xFF)
      ⟨[], 0, [], [], [], 0⟩ :=
  ⟨by decide +kernel, by decide +kernel, updateHermesSpeed_disagrees rollingSlaves_idle.hermes⟩

end OlympusFirmware.Olympus
