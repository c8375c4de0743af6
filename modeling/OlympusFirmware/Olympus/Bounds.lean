import OlympusFirmware.Olympus.Dispatch

/-!
# The array accesses of the command interface

The indices that `checkPacket`, `runPacket`, `sendResponse` and the LED callback
(`olympus/drivers/led.c`) use come from received bytes. Here every access is listed,
byte by byte, with the array it goes to; a run is safe when all of them are inside.

Three things go wrong: a length byte taken for a checksum makes `checkPacket` read
as far as it says; types past the table, or with a response length and no array; and
`writeLED` accepts the number of entries as an index, which `commsSetLeds` always
passes.
-/

namespace OlympusFirmware.Olympus

open OlympusFirmware.Lib

/-- The accesses the interface makes. -/
inductive Access
  /-- `checkPacket` reads the packet it is given -/
  | packetBuffer (index : Nat)
  | response (index : Nat)
  /-- `sendResponse` reads what `responseData` points to -/
  | responseData (array : Option ResponseData) (index : Nat)
  | ledTable (index : Nat)
deriving DecidableEq

/-- The number of entries of `LEDtable`. -/
def ledTableSize : Nat := 7

/-- The access is inside the array; there is none behind `NULL`. -/
def Access.InBounds : Access → Prop
  | .packetBuffer index => index < maxPacketSize
  | .response index => index < 18
  | .responseData (some array) index => index < array.size
  | .responseData none _ => False
  | .ledTable index => index < ledTableSize

instance : (a : Access) → Decidable a.InBounds
  | .packetBuffer _ => inferInstanceAs (Decidable (_ < _))
  | .response _ => inferInstanceAs (Decidable (_ < _))
  | .responseData (some _) _ => inferInstanceAs (Decidable (_ < _))
  | .responseData none _ => inferInstanceAs (Decidable False)
  | .ledTable _ => inferInstanceAs (Decidable (_ < _))

/-! ## The accesses of each function -/

/-- `checkPacket`: the length byte, then as many bytes as it says. -/
def checkPacketAccesses (p : Packet) : List Access :=
  .packetBuffer 4 :: (List.range p.packetLen.toNat).map .packetBuffer

/-- `writeLED`. -/
def writeLEDAccesses (ledNum state : UInt8) : List Access :=
  if (state = 1 ∨ state = 0) ∧ 0 < ledNum ∧ ledNum.toNat ≤ ledTableSize then
    [.ledTable ledNum.toNat]
  else []

/-- `commsSetLeds`. -/
def commsSetLedsAccesses (data : Mem UInt8) : List Access :=
  let byte0 := data 1
  let byte1 := data 0
  (List.range 8).flatMap (fun i =>
      writeLEDAccesses (UInt8.ofNat (i + 1)) ((byte0 >>> UInt8.ofNat i) &&& 1)) ++
    (List.range 4).flatMap (fun i =>
      writeLEDAccesses (UInt8.ofNat (i + 9)) ((byte1 >>> UInt8.ofNat i) &&& 1))

/-- `runPacket`, with its callback. -/
def runPacketAccesses (p : Packet) (inputBuf : Mem UInt8) : List Access :=
  .response p.packetType ::
    match p.entry with
    | some r =>
        if r.callback = some .commsSetLeds then commsSetLedsAccesses (copyInput r p inputBuf)
        else []
    -- nothing more is known once the entry is not one of the table
    | none => []

/-- `sendResponse`. -/
def sendResponseAccesses (p : Packet) : List Access :=
  .response p.packetType ::
    match p.entry with
    | some r => (List.range r.responseDataLen).map (.responseData r.responseData)
    | none => []

/-- A call of the parser. -/
def callAccesses (s : Server) (call : Call) : List Access :=
  if s.running then
    match call with
    | .runPacket p => runPacketAccesses p s.inputBuf
    | .sendResponse p => sendResponseAccesses p
  else []

section Accesses

variable (behind : CommsHandler → Nat → UInt8) (wild : Packet → Server → Server)

/-- The server, with its accesses as outputs. -/
def accessFSM : Fsm Server Call Access where
  step s call := ((serverStep wild s call).1, callAccesses s call)

/-- The accesses of one byte. -/
def accesses (o : Interface) (data : UInt8) : List Access :=
  if o.server.running then
    (if o.handler.state = .waitingForCrc then
      checkPacketAccesses ((o.handler.store o.handler.packetIdx data).packet behind) else []) ++
    (accessFSM wild).outputs o.server (commsStep behind o.handler data).2
  else []

/-- All accesses of a byte are inside. -/
def StaysInBounds (o : Interface) (data : UInt8) : Prop :=
  ∀ a ∈ accesses behind wild o data, a.InBounds

/-- The types that are dispatched safely. -/
def safeTypes : List Nat := [0, 1, 3, 4, 5, 6, 9, 10, 11, 12, 13, 15, 16, 17]

/-- A byte taken for the checksum of a five-byte packet, the length byte, is at most 64,
and the packet dispatched, if any, has a safe type. -/
def Tame (o : Interface) (data : UInt8) : Prop :=
  (o.server.running = true → o.handler.state = .waitingForCrc → o.handler.packetIdx = 4 →
    data.toNat ≤ 64) ∧
  ∀ p, Dispatches behind o data p → p.packetType ∈ safeTypes

end Accesses

/-! ## One byte -/

section Steps

variable {behind : CommsHandler → Nat → UInt8} {wild : Packet → Server → Server}

/-- A bit is a state of a LED. -/
theorem bit_cases (b : UInt8) : b &&& 1 = 1 ∨ b &&& 1 = 0 := by
  have parity := Nat.mod_two_eq_zero_or_one b.toNat
  simp only [← UInt8.toNat_inj, UInt8.toNat_and, UInt8.reduceToNat, Nat.and_one_is_mod]
  omega

/-- The seventh bit goes past the table, whatever it is. -/
theorem commsSetLeds_past_table (data : Mem UInt8) : .ledTable 7 ∈ commsSetLedsAccesses data := by
  refine List.mem_append_left _ (List.mem_flatMap.mpr ⟨6, by decide, ?_⟩)
  rw [writeLEDAccesses, if_pos]
  · exact List.mem_singleton.mpr rfl
  · exact ⟨bit_cases _, by decide, by decide⟩

theorem checkPacket_inBounds_iff (p : Packet) :
    (∀ a ∈ checkPacketAccesses p, a.InBounds) ↔ p.packetLen.toNat ≤ 64 := by
  simp only [checkPacketAccesses, List.forall_mem_cons, List.forall_mem_map, List.mem_range,
    Access.InBounds, maxPacketSize]
  constructor
  · rintro ⟨-, all⟩
    by_contra far
    have past := all 64 (by omega)
    omega
  · intro fits
    exact ⟨by omega, fun i inside => by omega⟩

/-- What makes an entry safe: it does not set LEDs, and it has the data it sends. -/
def PacketResponse.Safe (r : PacketResponse) : Prop :=
  r.callback ≠ some .commsSetLeds ∧
    ∀ i < r.responseDataLen, (Access.responseData r.responseData i).InBounds

instance (r : PacketResponse) : Decidable r.Safe := inferInstanceAs (Decidable (_ ∧ _))

theorem response_safe_iff : ∀ i (inside : i < 18), response[i].Safe ↔ i ∈ safeTypes := by
  decide

/-- A callback that may not return belongs to an entry without data to send. -/
theorem response_data_of_stops : ∀ i (inside : i < 18),
    response[i].callback = some .killBoard ∨ response[i].callback = some .resetBoard →
    response[i].responseDataLen = 0 := by
  decide

theorem stops_cases {callback : Callback} {inputData : Mem UInt8}
    (stops : callback.returns inputData = false) :
    callback = .killBoard ∨ callback = .resetBoard := by
  cases callback with
  | killBoard => exact .inl rfl
  | resetBoard => exact .inr rfl
  | _ => cases stops

/-- The program goes on after an entry's callback if that returns. -/
theorem runEntry_running {r : PacketResponse} {p : Packet} {s : Server}
    (running : s.running = true) :
    (runEntry r p s).1.running = true ∨
      r.callback = some .killBoard ∨ r.callback = some .resetBoard := by
  unfold runEntry
  cases known : r.callback with
  | none => exact .inl running
  | some callback =>
      cases returns : callback.returns (copyInput r p s.inputBuf) with
      | true => exact .inl returns
      | false =>
          rcases stops_cases returns with rfl | rfl
          · exact .inr (.inl rfl)
          · exact .inr (.inr rfl)

/-- The two calls for a packet. -/
theorem calls_inBounds_iff {s : Server} (running : s.running = true) (p : Packet) :
    (∀ a ∈ (accessFSM wild).outputs s [.runPacket p, .sendResponse p], a.InBounds) ↔
      p.packetType ∈ safeTypes := by
  have first : callAccesses s (.runPacket p) = runPacketAccesses p s.inputBuf := if_pos running
  have run : (serverStep wild s (.runPacket p)).1 = (runPacket wild p s).1 := by
    simp only [serverStep, running, if_true]
  simp only [Fsm.outputs_cons, Fsm.outputs_nil, Fsm.emit, Fsm.next, accessFSM, first, run,
    List.append_nil, List.forall_mem_append]
  by_cases inside : p.packetType < 18
  · have entry : p.entry = some response[p.packetType] := Vector.getElem?_eq_getElem inside
    have noData := response_data_of_stops p.packetType inside
    rw [← response_safe_iff p.packetType inside]
    revert noData
    generalize response[p.packetType] = r at entry
    intro noData
    simp only [runPacketAccesses, sendResponseAccesses, callAccesses, runPacket, entry]
    constructor
    · rintro ⟨called, sent⟩
      constructor
      · intro leds
        rw [if_pos leds] at called
        exact absurd (called _ (List.mem_cons_of_mem _ (commsSetLeds_past_table _))) (by decide)
      · intro i below
        rcases runEntry_running (r := r) (p := p) running with goes | stops
        · rw [if_pos goes] at sent
          refine sent _ (List.mem_cons_of_mem _ (List.mem_map.mpr ⟨i, ?_, rfl⟩))
          exact List.mem_range.mpr below
        · rw [noData stops] at below
          exact absurd below (Nat.not_lt_zero i)
    · rintro ⟨noLeds, held⟩
      rw [if_neg noLeds]
      refine ⟨List.forall_mem_singleton.mpr inside, ?_⟩
      intro a member
      split at member
      · rcases List.mem_cons.mp member with rfl | read
        · exact inside
        · obtain ⟨i, below, rfl⟩ := List.mem_map.mp read
          exact held i (List.mem_range.mp below)
      · cases member
  · have outside : p.packetType ∉ safeTypes := by
      intro safe
      have below : ∀ i ∈ safeTypes, i < 18 := by decide
      exact inside (below _ safe)
    refine iff_of_false ?_ outside
    rintro ⟨all, -⟩
    exact inside (all (.response p.packetType) List.mem_cons_self)

/-- The check of a packet, by the byte that completes it. -/
theorem check_inBounds_iff {h : CommsHandler} (inv : BufferInv h)
    (state : h.state = .waitingForCrc) (data : UInt8) :
    (∀ a ∈ checkPacketAccesses ((h.store h.packetIdx data).packet behind), a.InBounds) ↔
      (h.packetIdx = 4 → data.toNat ≤ 64) := by
  rw [checkPacket_inBounds_iff, CommsHandler.packet_packetLen, h.store_packetLen]
  cases inv with
  | crc _ index =>
      by_cases four : h.packetIdx = 4
      · rw [if_pos four]
        exact ⟨fun fits _ => fits, fun fits => fits four⟩
      · rw [if_neg four]
        rcases index with four' | ⟨-, high, length⟩
        · exact absurd four' four
        · exact iff_of_true (by omega) (fun four' => absurd four' four)
  | idle other | started other | header other | data other => simp [state] at other

/-- **One byte**, from a handler that occurs. -/
theorem staysInBounds_iff {o : Interface} (inv : BufferInv o.handler) (data : UInt8) :
    StaysInBounds behind wild o data ↔ Tame behind o data := by
  unfold StaysInBounds Tame accesses Dispatches
  by_cases running : o.server.running = true
  case neg => simp [running]
  simp only [running, if_true, true_and, forall_const, List.forall_mem_append]
  refine and_congr ?_ ?_
  · by_cases state : o.handler.state = .waitingForCrc
    · rw [if_pos state, check_inBounds_iff inv state]
      exact ⟨fun fits _ => fits, fun fits => fits state⟩
    · simp [state]
  · rcases commsStep_calls behind o.handler data with
      silent | ⟨-, -, calls⟩
    · simp [silent]
    · rw [calls, calls_inBounds_iff running]
      simp

end Steps

/-! ## A run -/

section Runs

variable (behind : CommsHandler → Nat → UInt8) (wild : Packet → Server → Server)

/-- **Bounds.** For every buffer at `initCommsHandler` and every stream: all array
accesses stay inside if and only if every byte is tame. -/
theorem dispatch_in_bounds_iff (raw : Vector UInt8 64) (stream : List UInt8) :
    (interfaceFSM behind wild).EveryStep (StaysInBounds behind wild) (.init raw) stream ↔
      (interfaceFSM behind wild).EveryStep (Tame behind) (.init raw) stream := by
  have start : BufferInv (Interface.init raw).handler := .idle rfl
  constructor
  · exact (interfaceFSM behind wild).everyStep_of_invariant
      (I := fun o => BufferInv o.handler)
      (fun o data inv stays =>
        ⟨interface_bufferInv inv data, (staysInBounds_iff inv data).mp stays⟩) start
  · exact (interfaceFSM behind wild).everyStep_of_invariant
      (I := fun o => BufferInv o.handler)
      (fun o data inv tame =>
        ⟨interface_bufferInv inv data, (staysInBounds_iff inv data).mpr tame⟩) start

end Runs

/-- A request that sets the LEDs writes through the entry behind the table. -/
theorem setLeds_past_table :
    ¬ (interfaceFSM (fun _ _ => 0) (fun _ s => s)).EveryStep
      (StaysInBounds (fun _ _ => 0) (fun _ s => s)) (.init (Vector.replicate 64 0))
      [0xF0, 0x5A, 0x1C, 0x00, 0x08, 0x00, 0x00, 0xBD] := by
  intro safe
  have last := (Fsm.everyStep_iff _ _ _ _).mp safe
    [0xF0, 0x5A, 0x1C, 0x00, 0x08, 0x00, 0x00] 0xBD [] rfl
  have access : Access.ledTable 7 ∈ accesses (fun _ _ => 0) (fun _ s => s)
      ((interfaceFSM (fun _ _ => 0) (fun _ s => s)).after (.init (Vector.replicate 64 0))
        [0xF0, 0x5A, 0x1C, 0x00, 0x08, 0x00, 0x00]) 0xBD := by
    decide +kernel
  exact absurd (last _ access) (by decide)

end OlympusFirmware.Olympus
