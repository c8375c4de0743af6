import OlympusFirmware.Lib.Fsm
import OlympusFirmware.Usb.DoubleBuffer

/-!
# USB reception (`peripherals/USB/usb_otg.c`)

The array `usbRecvData` is used twice: its halves are the double buffer, and its
start is the buffer the OUT endpoint writes a packet to before `CDC_Receive`
copies it into the active half. Of the CDC stack the model assumes what its
source does: a packet is delivered to an armed endpoint only, is placed at the
start of `usbRecvData`, and `CDC_Receive` is then called with that address and
the packet's length; `USBD_CDC_ReceivePacket` arms the endpoint again.

Addresses are offsets into `usbRecvData`. A packet that lands where the double
buffer still holds an unread byte overwrites it. As long as none does, reception
is a queue: what has been read and what is stored are what was sent, in order.
-/

namespace OlympusFirmware.Usb

open OlympusFirmware.Lib

/-- `USB_RECEIVE_BUFFER_SIZE`. -/
def usbReceiveBufferSize : Nat := 2048

/-- The receiving side: `usbRecvData`, `usbReceiveBuffer`, and whether the OUT
endpoint is armed. -/
structure UsbReceiver where
  recvData : Mem UInt8
  receiveBuffer : DoubleBuffer
  armed : Bool

/-- What can happen: a packet on the wire, or a call of `doubleBuffer_read`. -/
inductive UsbEvent
  | packet (payload : List UInt8)
  | read (len : Nat)
deriving DecidableEq

/-- What comes of it: the result of `doubleBuffer_write`, a packet the endpoint
does not take, or the bytes read. -/
inductive UsbOutput
  | written (ok : Bool)
  | nak
  | returned (bytes : List UInt8)
deriving DecidableEq

/-- `CDC_Init`, on whatever the array holds. The class driver arms the endpoint
right after it. -/
def cdcInit (recvData : Mem UInt8) : UsbReceiver where
  recvData := recvData
  receiveBuffer := .init 0 usbReceiveBufferSize
  armed := true

/-- `CDC_Receive(data, len)`. -/
def cdcReceive (u : UsbReceiver) (data len : Nat) : UsbReceiver × List UsbOutput :=
  let result := u.receiveBuffer.write u.recvData (u.recvData.load data len)
  if result.1 then
    ({ recvData := result.2.2, receiveBuffer := result.2.1, armed := true }, [.written true])
  else
    -- the endpoint is not armed again
    (u, [.written false])

/-- One event. -/
def usbStep (u : UsbReceiver) : UsbEvent → UsbReceiver × List UsbOutput
  | .packet payload =>
      if u.armed then
        cdcReceive { u with recvData := u.recvData.store 0 payload, armed := false }
          0 payload.length
      else
        (u, [.nak])
  | .read len =>
      let result := u.receiveBuffer.read u.recvData len
      ({ u with receiveBuffer := result.2 }, [.returned result.1])

/-- USB reception as a machine. -/
def usbFSM : Fsm UsbReceiver UsbEvent UsbOutput where
  step := usbStep

/-- All payload bytes sent, in order. -/
def sent : List UsbEvent → List UInt8
  | [] => []
  | .packet payload :: rest => payload ++ sent rest
  | .read _ :: rest => sent rest

/-- All bytes returned by `doubleBuffer_read`, in order. -/
def returned : List UsbOutput → List UInt8
  | [] => []
  | .returned bytes :: rest => bytes ++ returned rest
  | .written _ :: rest => returned rest
  | .nak :: rest => returned rest

/-- The packet does not land on a byte that has not been read yet. -/
def LandsFree (u : UsbReceiver) : UsbEvent → Prop
  | .packet payload => ∀ a < payload.length, ¬ u.receiveBuffer.Unread a
  | .read _ => True

instance (u : UsbReceiver) : (event : UsbEvent) → Decidable (LandsFree u event)
  | .packet payload =>
    inferInstanceAs (Decidable (∀ a < payload.length, ¬ u.receiveBuffer.Unread a))
  | .read _ => .isTrue trivial

/-- The buffer is well formed and the endpoint armed. -/
structure UsbReceiver.Inv (u : UsbReceiver) : Prop where
  wf : u.receiveBuffer.Wf
  armed : u.armed = true

theorem cdcInit_inv (recvData : Mem UInt8) : (cdcInit recvData).Inv :=
  ⟨DoubleBuffer.init_wf 0 usbReceiveBufferSize, rfl⟩

/-- What the double buffer holds. -/
def UsbReceiver.stored (u : UsbReceiver) : List UInt8 := u.receiveBuffer.stored u.recvData

/-- A read takes what it returns from the front. -/
theorem usbStep_read {u : UsbReceiver} (inv : u.Inv) (len : Nat) :
    (usbStep u (.read len)).1.Inv ∧
      returned (usbStep u (.read len)).2 ++ (usbStep u (.read len)).1.stored = u.stored := by
  obtain ⟨wf, front⟩ := DoubleBuffer.read_spec inv.wf u.recvData len
  exact ⟨⟨wf, inv.armed⟩, by simpa [usbStep, returned, UsbReceiver.stored] using front.symm⟩

/-- What a packet does to an armed receiver, in terms of `doubleBuffer_write`. -/
theorem usbStep_packet {u : UsbReceiver} (inv : u.Inv) {payload : List UInt8}
    (accepted : .written false ∉ (usbStep u (.packet payload)).2) :
    (usbStep u (.packet payload)).1.Inv ∧
      (usbStep u (.packet payload)).2 = [.written true] ∧
      (usbStep u (.packet payload)).1.stored =
        u.receiveBuffer.stored (u.recvData.store 0 payload) ++ payload := by
  have spec := DoubleBuffer.write_spec inv.wf (u.recvData.store 0 payload) payload
  simp only [usbStep, inv.armed, if_true, cdcReceive, Mem.load_store_self] at accepted ⊢
  revert spec accepted
  obtain ⟨ok, buffer, mem⟩ := u.receiveBuffer.write (u.recvData.store 0 payload) payload
  cases ok with
  | false => simp
  | true =>
      rintro ⟨wf, appended⟩ -
      exact ⟨⟨wf, rfl⟩, rfl, appended⟩

/-- A packet that lands free leaves what is stored alone. -/
theorem stored_landed {u : UsbReceiver} {payload : List UInt8}
    (free : LandsFree u (.packet payload)) :
    u.receiveBuffer.stored (u.recvData.store 0 payload) = u.stored :=
  DoubleBuffer.stored_congr fun a unread => Mem.store_outside (by
    by_contra landed
    exact free a (by omega) unread)

theorem returned_append (xs ys : List UsbOutput) :
    returned (xs ++ ys) = returned xs ++ returned ys := by
  induction xs with
  | nil => rfl
  | cons x xs ih => cases x <;> simp [returned, ih]

/-- Over a run in which every write succeeds and every packet lands free, what
was stored and sent is what was returned and is stored now. -/
theorem returned_stored_run (events : List UsbEvent) : ∀ {u : UsbReceiver}, u.Inv →
    .written false ∉ usbFSM.outputs u events → usbFSM.EveryStep LandsFree u events →
    (usbFSM.after u events).Inv ∧
      returned (usbFSM.outputs u events) ++ (usbFSM.after u events).stored =
        u.stored ++ sent events := by
  induction events with
  | nil => intro u inv _ _; exact ⟨inv, by simp [returned, sent]⟩
  | cons event rest ih =>
      intro u inv accepted free
      obtain ⟨freeHead, freeRest⟩ := free
      rw [Fsm.outputs_cons, List.mem_append, not_or] at accepted
      obtain ⟨acceptedHead, acceptedRest⟩ := accepted
      cases event with
      | read len =>
          obtain ⟨inv', front⟩ := usbStep_read inv len
          obtain ⟨invEnd, later⟩ := ih inv' acceptedRest freeRest
          refine ⟨invEnd, ?_⟩
          rw [Fsm.outputs_cons, returned_append, List.append_assoc]
          refine (congrArg _ later).trans ?_
          rw [← List.append_assoc]
          exact congrArg (· ++ sent rest) front
      | packet payload =>
          obtain ⟨inv', out, appended⟩ := usbStep_packet inv acceptedHead
          obtain ⟨invEnd, later⟩ := ih inv' acceptedRest freeRest
          rw [appended, stored_landed freeHead] at later
          refine ⟨invEnd, ?_⟩
          rw [Fsm.outputs_cons, returned_append, Fsm.emit,
            show (usbFSM.step u (.packet payload)).2 = [.written true] from out]
          exact later.trans (List.append_assoc _ _ _)

theorem sent_append (xs ys : List UsbEvent) : sent (xs ++ ys) = sent xs ++ sent ys := by
  induction xs with
  | nil => rfl
  | cons x xs ih => cases x <;> simp [sent, ih]

/-- Two reads of a half each return everything stored. -/
theorem returned_drain {u : UsbReceiver} (whole : u.receiveBuffer.Wf) {len : Nat}
    (half : u.receiveBuffer.bufferSize ≤ len) :
    usbFSM.outputs u [.read len, .read len] =
        [.returned (u.receiveBuffer.read u.recvData len).1,
          .returned ((u.receiveBuffer.read u.recvData len).2.stored u.recvData)] ∧
      returned (usbFSM.outputs u [.read len, .read len]) = u.stored := by
  obtain ⟨wf, front⟩ := DoubleBuffer.read_spec whole u.recvData len
  have rest : ((u.receiveBuffer.read u.recvData len).2.read u.recvData len).1 =
      (u.receiveBuffer.read u.recvData len).2.stored u.recvData :=
    DoubleBuffer.read_drained wf u.recvData (by simpa using half)
      (DoubleBuffer.read_half_drains whole u.recvData half)
  have out : usbFSM.outputs u [.read len, .read len] =
      [.returned (u.receiveBuffer.read u.recvData len).1,
        .returned ((u.receiveBuffer.read u.recvData len).2.stored u.recvData)] := by
    simp [Fsm.emit, Fsm.next, usbFSM, usbStep, rest]
  refine ⟨out, ?_⟩
  rw [out]
  simpa [returned, UsbReceiver.stored] using front.symm

/-- An armed endpoint's packet is refused exactly when the active half has too
little room: its contents do not matter. -/
theorem written_false_iff {u : UsbReceiver} (armed : u.armed = true) (payload : List UInt8) :
    .written false ∈ (usbStep u (.packet payload)).2 ↔
      u.receiveBuffer.bufferSize - u.receiveBuffer.bufferLengths u.receiveBuffer.activeBuffer <
        payload.length := by
  simp only [usbStep, armed, if_true, cdcReceive, DoubleBuffer.write, Mem.length_load]
  by_cases full : u.receiveBuffer.bufferSize -
      u.receiveBuffer.bufferLengths u.receiveBuffer.activeBuffer < payload.length <;>
    simp [full]

/-- A payload that differs from the memory in each of its first `n` cells. -/
def contrary (m : Mem UInt8) (n : Nat) : List UInt8 := (m.load 0 n).map (· + 1)

theorem contrary_ne (m : Mem UInt8) {a n : Nat} (inside : a < n) :
    m.store 0 (contrary m n) a ≠ m a := by
  rw [Mem.store_inside (by omega) (by simpa [contrary] using inside)]
  simp [contrary, Mem.load]

/-- A packet that lands on an unread byte can destroy it: with contents that
differ from what is there, and everything read afterwards, the bytes returned are
not a prefix of the bytes sent. -/
theorem lossy_of_not_landsFree {u : UsbReceiver} {before : List UsbEvent}
    {payload : List UInt8} {start : UsbReceiver} (startInv : start.Inv)
    (empty : start.stored = []) (reached : usbFSM.after start before = u)
    (accepted : .written false ∉ usbFSM.outputs start (before ++ [.packet payload]))
    (free : usbFSM.EveryStep LandsFree start before)
    (lands : ¬ LandsFree u (.packet payload)) :
    ∃ payload' len, payload'.length = payload.length ∧
      .written false ∉ usbFSM.outputs start
        (before ++ [UsbEvent.packet payload', .read len, .read len]) ∧
      ¬ returned (usbFSM.outputs start
          (before ++ [UsbEvent.packet payload', .read len, .read len])) <+:
        sent (before ++ [UsbEvent.packet payload', .read len, .read len]) := by
  rw [Fsm.outputs_append, reached, List.mem_append, not_or] at accepted
  obtain ⟨acceptedBefore, acceptedLast⟩ := accepted
  obtain ⟨inv, queue⟩ := returned_stored_run before startInv acceptedBefore free
  -- up to here reception was a queue
  rw [reached] at inv queue
  rw [empty, List.nil_append] at queue
  simp only [LandsFree, not_forall, not_not] at lands
  obtain ⟨a, inside, unread⟩ := lands
  -- the same length, but every cell under it changes
  let payload' := contrary u.recvData payload.length
  have same : payload'.length = payload.length := by simp [payload', contrary]
  have accepted' : .written false ∉ (usbStep u (.packet payload')).2 := by
    rw [written_false_iff inv.armed, same, ← written_false_iff inv.armed]
    simpa [Fsm.emit, usbFSM] using acceptedLast
  obtain ⟨inv', out, appended⟩ := usbStep_packet inv accepted'
  set v := (usbStep u (.packet payload')).1
  obtain ⟨reads, drained⟩ := returned_drain inv'.wf (Nat.le_refl v.receiveBuffer.bufferSize)
  have run : usbFSM.outputs start (before ++ [.packet payload',
      .read v.receiveBuffer.bufferSize, .read v.receiveBuffer.bufferSize]) =
      usbFSM.outputs start before ++ (.written true ::
        usbFSM.outputs v [.read v.receiveBuffer.bufferSize,
          .read v.receiveBuffer.bufferSize]) := by
    rw [Fsm.outputs_append, reached, Fsm.outputs_cons, Fsm.emit,
      show (usbFSM.step u (.packet payload')).2 = [.written true] from out]
    rfl
  refine ⟨payload', v.receiveBuffer.bufferSize, same, ?_, ?_⟩
  · rw [run, List.mem_append, not_or, reads]
    exact ⟨acceptedBefore, by simp⟩
  · rw [run, returned_append, returned, drained, appended, sent_append, ← queue]
    -- as many bytes come out as went in, so a prefix would be all of them
    intro lossless
    have whole := lossless.eq_of_length (by simp [sent, UsbReceiver.stored,
      DoubleBuffer.stored, DoubleBuffer.pending, DoubleBuffer.fresh])
    simp only [sent, List.append_nil, List.append_assoc, List.append_cancel_left_eq,
      List.append_cancel_right_eq] at whole
    exact contrary_ne u.recvData inside (DoubleBuffer.eq_of_stored_eq whole unread)

/-- The endpoint is armed if there is nothing left to read. -/
def ArmedWhenEmpty (u : UsbReceiver) : Prop := u.stored = [] → u.armed = true

instance (u : UsbReceiver) : Decidable (ArmedWhenEmpty u) :=
  inferInstanceAs (Decidable (_ → _))

/-- A packet that is delivered has room in the active half. -/
def Fits (u : UsbReceiver) : UsbEvent → Prop
  | .packet payload => u.armed = true → payload.length ≤
      u.receiveBuffer.bufferSize - u.receiveBuffer.bufferLengths u.receiveBuffer.activeBuffer
  | .read _ => True

/-- Two reads that empty both halves. -/
def drain : List UsbEvent :=
  [.read (usbReceiveBufferSize / 2), .read (usbReceiveBufferSize / 2)]

/-- What holds of the buffer however packets and reads are mixed. -/
structure UsbReceiver.Whole (u : UsbReceiver) : Prop where
  wf : u.receiveBuffer.Wf
  size : u.receiveBuffer.bufferSize = usbReceiveBufferSize / 2

theorem cdcInit_whole (recvData : Mem UInt8) : (cdcInit recvData).Whole :=
  ⟨DoubleBuffer.init_wf 0 usbReceiveBufferSize, rfl⟩

/-- **One event** keeps the buffer whole, also when a packet is dropped. -/
theorem usbStep_whole {u : UsbReceiver} (event : UsbEvent) (whole : u.Whole) :
    (usbFSM.next u event).Whole := by
  show (usbStep u event).1.Whole
  cases event with
  | read len =>
      exact ⟨(DoubleBuffer.read_spec whole.wf u.recvData len).1,
        (DoubleBuffer.read_bufferSize _ _ _).trans whole.size⟩
  | packet payload =>
      simp only [usbStep]
      split
      · have spec := DoubleBuffer.write_spec whole.wf (u.recvData.store 0 payload)
          ((u.recvData.store 0 payload).load 0 payload.length)
        unfold cdcReceive
        dsimp only
        split
        · rename_i ok
          rw [if_pos ok] at spec
          exact ⟨spec.1, (DoubleBuffer.write_bufferSize _ _ _).trans whole.size⟩
        · exact ⟨whole.wf, whole.size⟩
      · exact whole

theorem whole_after {u : UsbReceiver} (whole : u.Whole) (events : List UsbEvent) :
    (usbFSM.after u events).Whole :=
  usbFSM.invariant_after (fun _ event => usbStep_whole event) whole events

/-- A packet leaves the endpoint armed exactly if it was armed and had room. -/
theorem armed_packet (u : UsbReceiver) (payload : List UInt8) :
    (usbStep u (.packet payload)).1.armed = true ↔
      u.armed = true ∧ Fits u (.packet payload) := by
  by_cases armed : u.armed = true
  · simp only [usbStep, armed, if_true, cdcReceive, DoubleBuffer.write, Mem.length_load, Fits,
      true_and, forall_const]
    by_cases full : u.receiveBuffer.bufferSize -
        u.receiveBuffer.bufferLengths u.receiveBuffer.activeBuffer < payload.length
    · simp only [full, if_true]
      simpa using full
    · simp only [full, if_false]
      simpa using full
  · simp [usbStep, armed]

/-- **One event** leaves the endpoint armed exactly if it was and the event fits. -/
theorem armed_next (u : UsbReceiver) (event : UsbEvent) :
    (usbFSM.next u event).armed = true ↔ u.armed = true ∧ Fits u event := by
  cases event with
  | packet payload => exact armed_packet u payload
  | read len => exact ⟨fun armed => ⟨armed, trivial⟩, fun both => both.1⟩

/-- **A run** leaves the endpoint armed exactly if it was and every packet fits. -/
theorem armed_after (u : UsbReceiver) (events : List UsbEvent) :
    (usbFSM.after u events).armed = true ↔ u.armed = true ∧ usbFSM.EveryStep Fits u events := by
  induction events generalizing u with
  | nil => simp
  | cons event rest ih => rw [Fsm.after_cons, ih, armed_next, Fsm.everyStep_cons, and_assoc]

/-- The two reads leave nothing to read. -/
theorem stored_drain {u : UsbReceiver} (whole : u.Whole) : (usbFSM.after u drain).stored = [] := by
  have half : u.receiveBuffer.bufferSize ≤ usbReceiveBufferSize / 2 := Nat.le_of_eq whole.size
  obtain ⟨-, all⟩ := returned_drain whole.wf half
  obtain ⟨wf, first⟩ := DoubleBuffer.read_spec whole.wf u.recvData (usbReceiveBufferSize / 2)
  obtain ⟨-, second⟩ := DoubleBuffer.read_spec wf u.recvData (usbReceiveBufferSize / 2)
  -- everything was returned, so nothing is behind what was returned
  have split : u.stored =
      returned (usbFSM.outputs u drain) ++ (usbFSM.after u drain).stored := by
    rw [second] at first
    simpa [returned, drain, Fsm.emit, Fsm.next, usbFSM, usbStep, UsbReceiver.stored] using first
  rw [show returned (usbFSM.outputs u drain) = u.stored from all] at split
  simpa using split

/-- **Reception continues while packets fit.** From `CDC_Init`, take any events and let
the reader drain the buffer after them. Whenever there is nothing to read the endpoint
is armed, in every state on the way, if and only if every packet delivered has room. -/
theorem armed_when_empty_iff_fits (recvData : Mem UInt8) (events : List UsbEvent) :
    (∀ reached, reached <+: events ++ drain →
      ArmedWhenEmpty (usbFSM.after (cdcInit recvData) reached)) ↔
    usbFSM.EveryStep Fits (cdcInit recvData) events := by
  constructor
  · intro always
    have empty : (usbFSM.after (cdcInit recvData) (events ++ drain)).stored = [] := by
      rw [Fsm.after_append]
      exact stored_drain (whole_after (cdcInit_whole recvData) events)
    have armed := always (events ++ drain) List.prefix_rfl empty
    rw [armed_after, Fsm.everyStep_append] at armed
    exact armed.2.1
  · rintro fits reached ⟨rest, split⟩ -
    have all : usbFSM.EveryStep Fits (cdcInit recvData) (reached ++ rest) := by
      rw [split, Fsm.everyStep_append]
      exact ⟨fits, trivial, trivial, trivial⟩
    rw [armed_after]
    exact ⟨rfl, ((usbFSM.everyStep_append _ _ _ _).mp all).1⟩

/-- Sixteen full packets fill a half. The next one is dropped, and when everything has
been read the endpoint is still not armed. -/
theorem seventeen_packets_stall :
    (usbFSM.after (cdcInit fun _ => 0)
        (List.replicate 17 (.packet (List.replicate 64 0)) ++ drain)).stored = [] ∧
      ¬ ArmedWhenEmpty (usbFSM.after (cdcInit fun _ => 0)
        (List.replicate 17 (.packet (List.replicate 64 0)) ++ drain)) := by
  decide +kernel

end OlympusFirmware.Usb
