import OlympusFirmware.Olympus.Checksum
import OlympusFirmware.Olympus.Dispatch

/-!
# Responses over USB (`olympus/drivers/comms.c`, `usb_otg.c`, `usbd_cdc.c`)

`sendResponse` builds the response in one static buffer and gives it to `usbWrite`.
`USBD_CDC_TransmitPacket` starts a transfer if none is in progress and refuses
otherwise; the result is not looked at. The transfer reads its bytes from the buffer
later, one after the other, until it completes and the host has it.

The main loop handles one received byte at a time, so a run is any interleaving of
received bytes, reads of the transfer and its completion. Every response arrives as
long as each request finds no transfer in progress when `sendResponse` starts; a request
that finds one overwrites the response under way and gets none.

For three types `responseData` is `NULL`, with a length other than zero; what is copied
then is what lies at address zero, and `held none` may be any bytes.
-/

namespace OlympusFirmware.Olympus

open OlympusFirmware.Lib

/-- A transfer in progress: its length and the bytes read so far. -/
structure Transfer where
  length : Nat
  sent : List UInt8

/-- The static buffer of `sendResponse`, and the IN endpoint (`TxState`). -/
structure UsbOut where
  packetBuffer : Mem UInt8
  transfer : Option Transfer

/-- `usbWrite`. `USBD_BUSY` is ignored. -/
def usbWrite (length : Nat) (out : UsbOut) : UsbOut :=
  match out.transfer with
  | none => { out with transfer := some ⟨length, []⟩ }
  | some _ => out

/-- The command interface and the endpoint. -/
structure UsbServer where
  interface : Interface
  out : UsbOut

/-- After `initCommsHandler`, with no transfer. -/
def UsbServer.init (raw : Vector UInt8 64) : UsbServer := ⟨.init raw, fun _ => 0, none⟩

/-- What happens. -/
inductive UsbEvent
  /-- the main loop handles a received byte; `held` is what the arrays hold then -/
  | received (data : UInt8) (held : Option ResponseData → Nat → UInt8)
  /-- the transfer reads its next byte -/
  | fetch
  /-- the transfer is complete -/
  | complete

/-- What is seen of it: `runCommsFSM` dispatches a packet, the host receives a response. -/
inductive UsbOutput
  | dispatched (packet : Packet)
  | response (bytes : List UInt8)

/-- The packets of calls of `runPacket`. -/
def runPackets (calls : List Call) : List Packet :=
  calls.filterMap fun
    | .runPacket p => some p
    | .sendResponse _ => none

/-- The packets that are responded to. -/
def responded (actions : List Action) : List Packet :=
  actions.filterMap fun
    | .sendResponse p => some p
    | .callback _ _ => none

section Machine

variable (behind : CommsHandler → Nat → UInt8) (wild : Packet → Server → Server)
  (stray : Packet → List UInt8)

/-- `sendResponse`. What it sends for a type outside the table is not defined: `stray`
stands for it. -/
def sendResponse (held : Option ResponseData → Nat → UInt8) (out : UsbOut) (p : Packet) :
    UsbOut :=
  let bytes := match p.entry with
    | some r => outPacket held r p
    | none => stray p
  usbWrite bytes.length { out with packetBuffer := out.packetBuffer.store 0 bytes }

/-- A received byte. -/
def receiveStep (u : UsbServer) (data : UInt8) (held : Option ResponseData → Nat → UInt8) :
    UsbServer × List UsbOutput :=
  if u.interface.server.running then
    let result := interfaceStep behind wild u.interface data
    (⟨result.1, (responded result.2).foldl (sendResponse stray held) u.out⟩,
      (runPackets (commsStep behind u.interface.handler data).2).map .dispatched)
  else
    (u, [])

/-- The transfer reads a byte. -/
def fetch (out : UsbOut) : UsbOut :=
  match out.transfer with
  | some t =>
      if t.sent.length < t.length then
        { out with
          transfer := some { t with sent := t.sent ++ [out.packetBuffer t.sent.length] } }
      else out
  | none => out

/-- The transfer completes, if all is read. -/
def complete (out : UsbOut) : UsbOut × List UsbOutput :=
  match out.transfer with
  | some t =>
      if t.sent.length = t.length then ({ out with transfer := none }, [.response t.sent])
      else (out, [])
  | none => (out, [])

/-- The responses as a machine. -/
def usbFSM : Fsm UsbServer UsbEvent UsbOutput where
  step u
    | .received data held => receiveStep behind wild stray u data held
    | .fetch => ({ u with out := fetch u.out }, [])
    | .complete => ({ u with out := (complete u.out).1 }, (complete u.out).2)

end Machine

/-! ## What is asked of a run -/

/-- The packets dispatched, in order. -/
def dispatched (outputs : List UsbOutput) : List Packet :=
  outputs.filterMap fun
    | .dispatched p => some p
    | .response _ => none

/-- The responses the host has received, in order. -/
def responses (outputs : List UsbOutput) : List (List UInt8) :=
  outputs.filterMap fun
    | .response bytes => some bytes
    | .dispatched _ => none

/-- A well-formed response to a packet. -/
structure Answers (p : Packet) (bytes : List UInt8) : Prop where
  startBytes : [startByte1, startByte2] <+: bytes
  msgType : bytes[2]? = some (p.msgType ||| 1)
  seqNumber : bytes[3]? = some p.seqNumber
  packetLen : bytes[4]? = some (UInt8.ofNat bytes.length)
  bounds : 6 ≤ bytes.length ∧ bytes.length ≤ maxPacketSize
  payload : ∃ r, p.entry = some r ∧ bytes.length = r.responseDataLen + 6
  crc : crc8 bytes = 0

/-- What the transfer in progress will have sent if the buffer stays as it is. -/
def UsbOut.underWay (out : UsbOut) : List (List UInt8) :=
  match out.transfer with
  | some t =>
      [t.sent ++ out.packetBuffer.load t.sent.length (t.length - t.sent.length)]
  | none => []

/-- A packet that is dispatched has a type inside the table, its callback returns, and
no transfer is in progress. A transfer that completes while the callback runs is one that
completes before the byte: the callback does not touch the endpoint. -/
def Undisturbed (behind : CommsHandler → Nat → UInt8) (u : UsbServer) : UsbEvent → Prop
  | .received data _ => ∀ p, Dispatches behind u.interface data p →
      u.out.transfer = none ∧ ∃ r, p.entry = some r ∧
        ∀ callback, r.callback = some callback →
          callback.returns (copyInput r p u.interface.server.inputBuf) = true
  | .fetch => True
  | .complete => True

section Outputs

variable (first rest : List UsbOutput)

@[simp] theorem dispatched_append :
    dispatched (first ++ rest) = dispatched first ++ dispatched rest := List.filterMap_append

@[simp] theorem responses_append :
    responses (first ++ rest) = responses first ++ responses rest := List.filterMap_append

end Outputs

/-! ## A response -/

/-- Appending the checksum makes the checksum zero. -/
theorem crc8_append_self (bytes : List UInt8) : crc8 (bytes ++ [crc8 bytes]) = 0 :=
  (crc8_concat_eq_zero_iff bytes _).mpr rfl

theorem responseDataLen_le {p : Packet} {r : PacketResponse} (entry : p.entry = some r) :
    r.responseDataLen ≤ 16 :=
  Packet.entry_all (P := fun r => r.responseDataLen ≤ 16) (by decide) entry

/-- What `sendResponse` builds is a well-formed response, whatever the arrays hold. -/
theorem outPacket_answers (held : Option ResponseData → Nat → UInt8) {p : Packet}
    {r : PacketResponse} (entry : p.entry = some r) : Answers p (outPacket held r p) := by
  have small := responseDataLen_le entry
  have size : (outPacket held r p).length = r.responseDataLen + 6 := by simp [outPacket]
  refine ⟨⟨_, rfl⟩, rfl, rfl, ?_, ?_, ⟨r, entry, size⟩, crc8_append_self _⟩
  · rw [size]
    rfl
  · rw [size, maxPacketSize]
    omega

/-- A dispatched packet whose callback returns is responded to once. -/
theorem Dispatches.responded {behind : CommsHandler → Nat → UInt8}
    {wild : Packet → Server → Server} {o : Interface} {data : UInt8} {p : Packet}
    {r : PacketResponse} (dispatches : Dispatches behind o data p) (entry : p.entry = some r)
    (returns : ∀ callback, r.callback = some callback →
      callback.returns (copyInput r p o.server.inputBuf) = true) :
    responded ((interfaceFSM behind wild).emit o data) = [p] := by
  have running := dispatches.1
  have called : (runEntry r p o.server).1.running = true ∧
      Olympus.responded (runEntry r p o.server).2 = [] := by
    unfold runEntry
    cases known : r.callback with
    | none => exact ⟨running, rfl⟩
    | some callback => exact ⟨returns callback known, rfl⟩
  rw [dispatches.emit entry, if_pos called.1, Olympus.responded, List.filterMap_append]
  exact congrArg (· ++ [p]) called.2

/-! ## One event -/

section Events

variable {behind : CommsHandler → Nat → UInt8} {wild : Packet → Server → Server}
  {stray : Packet → List UInt8} {u : UsbServer}

/-- A transfer never reads past its length. -/
def UsbOut.Wf (out : UsbOut) : Prop := ∀ t, out.transfer = some t → t.sent.length ≤ t.length

/-- A read leaves what is under way. -/
theorem fetch_underWay (out : UsbOut) : (fetch out).underWay = out.underWay := by
  unfold fetch
  cases transfer : out.transfer with
  | none => rfl
  | some t =>
      simp only
      split
      · rename_i more
        obtain ⟨k, rest⟩ : ∃ k, t.length - t.sent.length = 1 + k :=
          ⟨t.length - t.sent.length - 1, by omega⟩
        have next : t.length - (t.sent.length + 1) = k := by omega
        simp only [UsbOut.underWay, transfer, List.length_append, List.length_singleton, next, rest,
          Mem.load_add, List.append_assoc]
        rfl
      · rfl

theorem fetch_wf {out : UsbOut} (wf : out.Wf) : (fetch out).Wf := by
  unfold fetch
  cases transfer : out.transfer with
  | none => exact wf
  | some t =>
      simp only
      split
      · rename_i more
        intro t' same
        cases same
        rw [List.length_append, List.length_singleton]
        exact more
      · exact wf

/-- A completion hands what was under way to the host. -/
theorem complete_spec (out : UsbOut) (wf : out.Wf) :
    responses (complete out).2 ++ (complete out).1.underWay = out.underWay ∧
      dispatched (complete out).2 = [] ∧ (complete out).1.Wf := by
  unfold complete
  cases transfer : out.transfer with
  | none => exact ⟨rfl, rfl, wf⟩
  | some t =>
      simp only
      split
      · rename_i whole
        refine ⟨?_, rfl, fun t' same => by cases same⟩
        simp [responses, UsbOut.underWay, transfer, whole]
      · exact ⟨rfl, rfl, wf⟩

/-- `sendResponse` with no transfer in progress. -/
theorem sendResponse_free (stray : Packet → List UInt8)
    (held : Option ResponseData → Nat → UInt8) {out : UsbOut} {p : Packet} {r : PacketResponse}
    (entry : p.entry = some r) (free : out.transfer = none) :
    (sendResponse stray held out p).underWay = [outPacket held r p] ∧
      (sendResponse stray held out p).Wf := by
  have sent : sendResponse stray held out p =
      ⟨out.packetBuffer.store 0 (outPacket held r p), some ⟨(outPacket held r p).length, []⟩⟩ := by
    simp only [sendResponse, entry, usbWrite, free]
  rw [sent]
  refine ⟨?_, ?_⟩
  · show [[] ++ Mem.load _ 0 ((outPacket held r p).length - 0)] = _
    rw [Nat.sub_zero, Mem.load_store_self, List.nil_append]
  · intro t same
    cases same
    exact Nat.zero_le _

/-- A received byte: nothing is dispatched and nothing sent, or a packet is dispatched
and its response is under way. -/
theorem receive_spec (wild : Packet → Server → Server) (stray : Packet → List UInt8)
    {data : UInt8} {held : Option ResponseData → Nat → UInt8}
    (undisturbed : Undisturbed behind u (.received data held)) :
    ((receiveStep behind wild stray u data held).2 = [] ∧
      (receiveStep behind wild stray u data held).1.out = u.out) ∨
    ∃ p bytes, (receiveStep behind wild stray u data held).2 = [.dispatched p] ∧
      u.out.underWay = [] ∧ Answers p bytes ∧
      (receiveStep behind wild stray u data held).1.out.underWay = [bytes] ∧
      (receiveStep behind wild stray u data held).1.out.Wf := by
  unfold receiveStep
  by_cases running : u.interface.server.running = true
  case neg =>
    rw [if_neg running]
    exact .inl ⟨rfl, rfl⟩
  rw [if_pos running]
  rcases commsStep_calls behind u.interface.handler data with
    silent | ⟨-, -, calls⟩
  · left
    simp only [interfaceStep, running, if_true, silent]
    exact ⟨rfl, rfl⟩
  · right
    generalize (u.interface.handler.store u.interface.handler.packetIdx data).packet behind = p
      at calls
    have dispatches : Dispatches behind u.interface data p :=
      ⟨running, by rw [calls]; exact List.mem_cons_self⟩
    obtain ⟨free, r, entry, returns⟩ := undisturbed p dispatches
    have answered : responded (interfaceStep behind wild u.interface data).2 = [p] :=
      dispatches.responded entry returns
    obtain ⟨sent, wf'⟩ := sendResponse_free stray held entry free
    refine ⟨p, outPacket held r p, by simp [calls, runPackets], ?_,
      outPacket_answers held entry, ?_, ?_⟩
    · rw [UsbOut.underWay, free]
    · simp only [answered]
      exact sent
    · simp only [answered]
      exact wf'

/-- Dispatched packets and their responses, those received and the one under way. -/
def Agree (outputs : List UsbOutput) (out : UsbOut) : Prop :=
  List.Forall₂ Answers (dispatched outputs) (responses outputs ++ out.underWay)

/-- **One event** keeps the agreement. -/
theorem agree_next {seen : List UsbOutput} (agree : Agree seen u.out) (wf : u.out.Wf)
    {event : UsbEvent} (undisturbed : Undisturbed behind u event) :
    Agree (seen ++ (usbFSM behind wild stray).emit u event)
        ((usbFSM behind wild stray).next u event).out ∧
      ((usbFSM behind wild stray).next u event).out.Wf := by
  unfold Agree at agree ⊢
  cases event with
  | received data held =>
      show List.Forall₂ Answers (dispatched (seen ++ (receiveStep behind wild stray u data held).2))
          (responses (seen ++ (receiveStep behind wild stray u data held).2) ++
            (receiveStep behind wild stray u data held).1.out.underWay) ∧
        (receiveStep behind wild stray u data held).1.out.Wf
      rcases receive_spec wild stray undisturbed with
        ⟨silent, same⟩ | ⟨p, bytes, output, none, answers, underWay, wf'⟩
      · rw [silent, same, List.append_nil]
        exact ⟨agree, wf⟩
      · rw [none, List.append_nil] at agree
        rw [output, underWay, dispatched_append, responses_append]
        refine ⟨?_, wf'⟩
        show List.Forall₂ Answers (dispatched seen ++ [p]) (responses seen ++ [] ++ [bytes])
        rw [List.append_nil]
        exact List.rel_append agree (.cons answers .nil)
  | fetch =>
      show List.Forall₂ Answers (dispatched (seen ++ []))
          (responses (seen ++ []) ++ (fetch u.out).underWay) ∧ (fetch u.out).Wf
      rw [List.append_nil, fetch_underWay]
      exact ⟨agree, fetch_wf wf⟩
  | complete =>
      obtain ⟨handed, none, wf'⟩ := complete_spec u.out wf
      show List.Forall₂ Answers (dispatched (seen ++ (complete u.out).2))
          (responses (seen ++ (complete u.out).2) ++ (complete u.out).1.underWay) ∧
        (complete u.out).1.Wf
      rw [dispatched_append, responses_append, none, List.append_nil, List.append_assoc, handed]
      exact ⟨agree, wf'⟩

end Events

/-! ## A run -/

section Runs

variable (behind : CommsHandler → Nat → UInt8) (wild : Packet → Server → Server)
  (stray : Packet → List UInt8)

/-- The agreement along a run from `init`. -/
theorem agree_after (raw : Vector UInt8 64) {events : List UsbEvent}
    (undisturbed : (usbFSM behind wild stray).EveryStep (Undisturbed behind) (.init raw) events) :
    Agree ((usbFSM behind wild stray).outputs (.init raw) events)
        ((usbFSM behind wild stray).after (.init raw) events).out ∧
      ((usbFSM behind wild stray).after (.init raw) events).out.Wf := by
  have run := (usbFSM behind wild stray).invariant
    (I := fun seen u => (usbFSM behind wild stray).after (.init raw) seen = u ∧
      Agree ((usbFSM behind wild stray).outputs (.init raw) seen) u.out ∧ u.out.Wf)
    (fun seen u event inv condition => by
      obtain ⟨reached, agree, wf⟩ := inv
      refine ⟨by rw [Fsm.after_append, reached]; rfl, ?_⟩
      rw [Fsm.outputs_append, reached, Fsm.outputs_cons, Fsm.outputs_nil, List.append_nil]
      exact agree_next agree wf condition)
    [] ⟨rfl, .nil, fun t same => by cases same⟩ undisturbed
  exact run.2

/-- The transfer in progress can be read to its end. -/
theorem fetch_to_end (n : Nat) : ∀ u : UsbServer, u.out.Wf →
    (∀ t, u.out.transfer = some t → t.length - t.sent.length = n) →
    ∃ u', (usbFSM behind wild stray).after u (List.replicate n .fetch) = u' ∧
      (usbFSM behind wild stray).outputs u (List.replicate n .fetch) = [] ∧
      u'.out.underWay = u.out.underWay ∧
      (∀ t, u'.out.transfer = some t → t.sent.length = t.length) := by
  induction n with
  | zero =>
      intro u wf rest
      refine ⟨u, rfl, rfl, rfl, ?_⟩
      intro t same
      have low := wf t same
      have none := rest t same
      omega
  | succ n ih =>
      intro u wf rest
      obtain ⟨u', reached, silent, same, whole⟩ := ih { u with out := fetch u.out }
        (fetch_wf wf) (by
          intro t' next
          simp only [fetch] at next
          cases transfer : u.out.transfer with
          | none =>
              rw [transfer] at next
              simp [transfer] at next
          | some t =>
              have left := rest t transfer
              simp only [transfer] at next
              rw [if_pos (by omega)] at next
              cases next
              simp only [List.length_append, List.length_singleton]
              omega)
      refine ⟨u', ?_, ?_, same.trans (fetch_underWay u.out), whole⟩
      · rw [List.replicate_succ, Fsm.after_cons]
        exact reached
      · rw [List.replicate_succ, Fsm.outputs_cons]
        exact silent

/-- **One response per request.** In every run from `init` in which each packet that is
dispatched has a type inside the table, a callback that returns, and finds no transfer
in progress: the responses received so far, and the one under way, are one well-formed
response for each packet dispatched, in order; and once the transfer in progress has
been read and completes, the host has received all of them. -/
theorem one_response_per_request (raw : Vector UInt8 64) (events : List UsbEvent)
    (undisturbed : (usbFSM behind wild stray).EveryStep (Undisturbed behind) (.init raw) events) :
    Agree ((usbFSM behind wild stray).outputs (.init raw) events)
        ((usbFSM behind wild stray).after (.init raw) events).out ∧
      ∃ n, List.Forall₂ Answers
        (dispatched ((usbFSM behind wild stray).outputs (.init raw) events))
        (responses ((usbFSM behind wild stray).outputs (.init raw)
          (events ++ List.replicate n .fetch ++ [.complete]))) := by
  obtain ⟨agree, wf⟩ := agree_after behind wild stray raw undisturbed
  refine ⟨agree, ?_⟩
  generalize reached : (usbFSM behind wild stray).after (.init raw) events = u at agree wf
  obtain ⟨n, left⟩ : ∃ n, ∀ t, u.out.transfer = some t → t.length - t.sent.length = n := by
    cases u.out.transfer with
    | none => exact ⟨0, fun t same => by cases same⟩
    | some t => exact ⟨t.length - t.sent.length, fun t' same => by cases same; rfl⟩
  obtain ⟨u', fetched, silent, same, whole⟩ := fetch_to_end behind wild stray n u wf left
  refine ⟨n, ?_⟩
  have handed : responses (complete u'.out).2 = u.out.underWay := by
    rw [← same]
    unfold complete UsbOut.underWay
    cases transfer : u'.out.transfer with
    | none => rfl
    | some t =>
        have all := whole t transfer
        simp [all, responses]
  rw [Fsm.outputs_append, Fsm.outputs_append, Fsm.after_append, reached, fetched, silent,
    List.append_nil, responses_append, Fsm.outputs_cons, Fsm.outputs_nil, List.append_nil]
  show List.Forall₂ Answers _ (_ ++ responses (complete u'.out).2)
  rw [handed]
  exact agree

end Runs

/-! ## Two requests -/

/-- A status request as received, with zeros in the arrays. -/
def statusEvents (seqNumber crc : UInt8) : List UsbEvent :=
  [0xF0, 0x5A, 0x00, seqNumber, 0x06, crc].map (.received · fun _ _ => 0)

/-- Two status requests, the second after the first response has been transferred. -/
def spacedRequests : List UsbEvent :=
  statusEvents 0x01 0x6E ++ List.replicate 11 .fetch ++ [.complete] ++ statusEvents 0x02 0x51

/-- A byte that is not the last of a packet, or the last of a status request that finds no
transfer. -/
def StatusOnly (behind : CommsHandler → Nat → UInt8) (u : UsbServer) : UsbEvent → Prop
  | .received data _ => u.interface.handler.state ≠ .waitingForCrc ∨
      u.out.transfer.isNone ∧
        ((u.interface.handler.store u.interface.handler.packetIdx data).packet behind).entry =
          some response[0]
  | .fetch => True
  | .complete => True

instance (behind : CommsHandler → Nat → UInt8) (u : UsbServer) :
    (e : UsbEvent) → Decidable (StatusOnly behind u e)
  | .received _ _ => inferInstanceAs (Decidable (_ ∨ _))
  | .fetch => .isTrue trivial
  | .complete => .isTrue trivial

theorem StatusOnly.undisturbed {behind : CommsHandler → Nat → UInt8} {u : UsbServer}
    {e : UsbEvent} (only : StatusOnly behind u e) : Undisturbed behind u e := by
  cases e with
  | received data held =>
      intro p dispatches
      obtain ⟨state, view, -, -⟩ := dispatches.view
      rcases only with inside | ⟨free, entry⟩
      · exact absurd state inside
      · refine ⟨Option.isNone_iff_eq_none.mp free, response[0], by rw [view]; exact entry, ?_⟩
        intro callback known
        cases known
  | fetch => trivial
  | complete => trivial

/-- Both are answered. -/
theorem status_answered :
    ∃ n, List.Forall₂ Answers
      (dispatched ((usbFSM (fun _ _ => 0) (fun _ s => s) (fun _ => [])).outputs
        (.init (Vector.replicate 64 0)) spacedRequests))
      (responses ((usbFSM (fun _ _ => 0) (fun _ s => s) (fun _ => [])).outputs
        (.init (Vector.replicate 64 0))
        (spacedRequests ++ List.replicate n .fetch ++ [.complete]))) := by
  refine (one_response_per_request (fun _ _ => 0) (fun _ s => s) (fun _ => [])
    (Vector.replicate 64 0) spacedRequests ?_).2
  have only : (usbFSM (fun _ _ => 0) (fun _ s => s) (fun _ => [])).EveryStep
      (StatusOnly fun _ _ => 0) (.init (Vector.replicate 64 0)) spacedRequests := by
    decide +kernel
  exact Fsm.everyStep_of_invariant _ (I := fun _ => True)
    (fun _ _ _ only => ⟨trivial, only.undisturbed⟩) trivial only

/-- Of two requests, received before the first transfer has been read, only the second
is answered. -/
theorem second_request_overwrites :
    let events := statusEvents 0x01 0x6E ++ statusEvents 0x02 0x51 ++
      List.replicate 11 .fetch ++ [.complete]
    let M := usbFSM (fun _ _ => 0) (fun _ s => s) (fun _ => [])
    let outputs := M.outputs (.init (Vector.replicate 64 0)) events
    let out := (M.after (.init (Vector.replicate 64 0)) events).out
    (dispatched outputs).map Packet.seqNumber = [0x01, 0x02] ∧
      (responses outputs).map (·[3]?) = [some 0x02] ∧ out.underWay = [] ∧
      ¬ Agree outputs out := by
  refine ⟨by decide +kernel, by decide +kernel, by decide +kernel, ?_⟩
  intro agree
  exact absurd (List.Forall₂.length_eq agree) (by decide +kernel)

end OlympusFirmware.Olympus
