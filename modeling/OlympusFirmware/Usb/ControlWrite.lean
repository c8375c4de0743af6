import OlympusFirmware.Usb.Control

/-!
# Class data over the control endpoint

The data of a class request is gathered in `data` of the class data, packet by packet, and
`CDC_Control` then gets the command from `CmdOpCode`, which is kept right behind `data`. Nothing
bounds `wLength` by the size of `data`: the command arrives as it was sent exactly when the data
fits, and longer data overwrites it.
-/

namespace OlympusFirmware.Usb

open OlympusFirmware.Lib

/-- The host sends data in full packets and a last one; `padding` is what is in the FIFO behind
each. It gets an ACK for each, and the calls of `CDC_Control` are collected. -/
def hostWrite (padding : List UInt8 → List UInt8) :
    Nat → List UInt8 → UsbDevice → Option (List ControlOutput × UsbDevice)
  | 0, _, _ => none
  | packets + 1, data, s =>
      let bytes := data.take maxEp0Size
      match s.outPacket bytes (padding bytes) with
      | (s, .ack :: out) =>
          if data.length ≤ maxEp0Size then some (out, s)
          else (hostWrite padding packets (data.drop maxEp0Size) s).map
            fun (more, s) => (out ++ more, s)
      | _ => none

/-- A request with data: SETUP, the data, and the status packet of the device. -/
def controlWrite (desc : UsbDescriptors) (s : UsbDevice) (pdata data : List UInt8)
    (padding : List UInt8 → List UInt8) : Option (List ControlOutput × UsbDevice) :=
  match hostWrite padding (data.length / maxEp0Size + 1) data
    (s.setupPacket desc (parseSetupRequest pdata) none).1 with
  | none => none
  | some (out, s) =>
      match s.inToken with
      | (s, [.packet []]) => some (out, s)
      | _ => none

/-- A request of the class to one of its interfaces, with data for the device. -/
structure ClassRequest (req : SetupReq) : Prop where
  interface : req.bmRequest &&& 0x1F = 1
  type : req.bmRequest &&& 0x60 = 0x20
  out : req.bmRequest &&& 0x80 = 0
  index : req.wIndex % 2 ^ 8 ≤ 1
  asks : req.wLength ≠ 0
  field : req.wLength < 2 ^ 16

/-- The device is in the middle of the data: `sent` bytes of it are there, and as long as all of
it fits, so are `CmdOpCode` and `CmdLength`. -/
structure Gathering (req : SetupReq) (data : List UInt8) (sent : Nat) (s : UsbDevice)
    (hcdc : Mem UInt8) : Prop where
  stallIn : s.stallIn = false
  stallOut : s.stallOut = false
  devState : s.devState = .configured
  ep0State : s.ep0State = .dataOut
  outRem : s.outRem + sent = data.length
  classData : s.classData = some hcdc
  receive : s.receive = some (some sent)
  gathered : hcdc.load 0 sent = data.take sent
  command : data.length ≤ cdcDataSize → hcdc cdcDataSize = req.bRequest ∧
    hcdc (cdcDataSize + 1) = UInt8.ofNat data.length

variable {req : SetupReq} {data : List UInt8} {sent : Nat} {s : UsbDevice} {hcdc : Mem UInt8}
  {padding : List UInt8}

/-- A packet is stored behind what is there. -/
theorem Gathering.store (gathering : Gathering req data sent s hcdc) (padding : List UInt8)
    {bytes : List UInt8} (next : bytes <+: data.drop sent) (whole : sent % maxEp0Size = 0) :
    let hcdc' := hcdc.store sent (bytes ++ padding.take ((4 - bytes.length % 4) % 4))
    hcdc'.load 0 (sent + bytes.length) = data.take (sent + bytes.length) ∧
      (data.length ≤ cdcDataSize → hcdc' cdcDataSize = req.bRequest ∧
        hcdc' (cdcDataSize + 1) = UInt8.ofNat data.length) := by
  intro hcdc'
  have inside := next.length_le
  have rem := gathering.outRem
  rw [List.length_drop] at inside
  refine ⟨?_, ?_⟩
  · have behind := hcdc.load_store_behind 0 sent bytes
    rw [Nat.zero_add] at behind
    show (hcdc.store sent (bytes ++ _)).load 0 _ = _
    rw [← Mem.store_append, Mem.load_store_disjoint (.inl (by omega)), behind,
      gathering.gathered, List.take_add, ← List.prefix_iff_eq_take.mp next]
  · intro fits
    have words : (padding.take ((4 - bytes.length % 4) % 4)).length ≤
        (4 - bytes.length % 4) % 4 := List.length_take_le ..
    obtain ⟨command, length⟩ := gathering.command fits
    have size : maxEp0Size = 64 := rfl
    have room : cdcDataSize = 512 := rfl
    rw [size] at whole
    rw [room] at fits command length ⊢
    have short : sent + (bytes ++ padding.take ((4 - bytes.length % 4) % 4)).length ≤ 512 := by
      rw [List.length_append]
      omega
    show hcdc.store _ _ _ = _ ∧ hcdc.store _ _ _ = _
    rw [Mem.store_outside (.inr (by omega)), Mem.store_outside (.inr (by omega))]
    exact ⟨command, length⟩

/-- What an OUT packet does that is taken. -/
theorem outPacket_data {bytes : List UInt8} {at_ : Nat} (stallOut : s.stallOut = false)
    (receive : s.receive = some (some at_)) (classData : s.classData = some hcdc)
    (some : bytes ≠ []) :
    s.outPacket bytes padding =
      let (s, out) := { s with
        receive := none
        classData := Option.some (hcdc.store at_
          (bytes ++ padding.take ((4 - bytes.length % 4) % 4))) }.dataOutStage
        (Option.some (at_ + bytes.length))
      (s, .ack :: out) := by
  unfold UsbDevice.outPacket
  rw [if_neg (by rw [stallOut]; exact Bool.false_ne_true), receive]
  dsimp only
  rw [if_neg some, classData]

/-- A packet that is not the last. -/
theorem Gathering.more (gathering : Gathering req data sent s hcdc) (padding : List UInt8)
    (long : maxEp0Size < s.outRem) (whole : sent % maxEp0Size = 0) :
    ∃ s' hcdc', s.outPacket ((data.drop sent).take maxEp0Size) padding = (s', [.ack]) ∧
      Gathering req data (sent + maxEp0Size) s' hcdc' := by
  have rem := gathering.outRem
  have length : ((data.drop sent).take maxEp0Size).length = maxEp0Size := by
    rw [List.length_take, List.length_drop]
    omega
  have some : (data.drop sent).take maxEp0Size ≠ [] := by
    rw [← List.length_pos_iff, length]
    decide
  obtain ⟨gathered, command⟩ := gathering.store padding (List.take_prefix ..) whole
  rw [outPacket_data gathering.stallOut gathering.receive gathering.classData some]
  rw [length] at gathered command ⊢
  unfold UsbDevice.dataOutStage
  rw [if_pos gathering.ep0State, if_pos long]
  refine ⟨_, _, rfl, gathering.stallIn, gathering.stallOut, gathering.devState, gathering.ep0State,
    ?_, rfl, rfl, gathered, command⟩
  show s.outRem - maxEp0Size + (sent + maxEp0Size) = data.length
  omega

/-- The call of `CDC_Control` after the data, unless the command looks like none. -/
def controlCalls (hcdc : Mem UInt8) : List ControlOutput :=
  if hcdc cdcDataSize ≠ 0xFF then
    [.control (hcdc cdcDataSize) (hcdc.load 0 (hcdc (cdcDataSize + 1)).toNat)]
  else []

theorem command_of_controlCalls {cmd : UInt8} {bytes : List UInt8}
    (calls : controlCalls hcdc = [.control cmd bytes]) : hcdc cdcDataSize = cmd ∧ cmd ≠ 0xFF := by
  unfold controlCalls at calls
  split at calls
  · rename_i command
    obtain ⟨same, -⟩ := ControlOutput.control.inj (List.cons.inj calls).1
    exact ⟨same, same ▸ command⟩
  · cases calls

theorem cdcRxReady_eq (classData : s.classData = some hcdc) :
    ∃ classData', s.cdcRxReady = ({ s with classData := classData' }, controlCalls hcdc) := by
  unfold UsbDevice.cdcRxReady controlCalls
  rw [classData]
  dsimp only
  split
  · exact ⟨_, rfl⟩
  · exact ⟨s.classData, rfl⟩

/-- The status packet of the device. -/
theorem inToken_status {s' : UsbDevice} (ready : s' = s.ctlSendStatus)
    (stallIn : s.stallIn = false) : ∃ s'', s'.inToken = (s'', [.packet []]) := by
  subst ready
  unfold UsbDevice.inToken
  rw [if_neg (by show ¬ s.stallIn = true; rw [stallIn]; exact Bool.false_ne_true)]
  exact ⟨_, rfl⟩

/-- The last packet. -/
theorem Gathering.last (gathering : Gathering req data sent s hcdc) (padding : List UInt8)
    (short : s.outRem ≤ maxEp0Size) (some : sent < data.length)
    (whole : sent % maxEp0Size = 0) :
    ∃ (s' : UsbDevice) (hcdc' : Mem UInt8),
      s.outPacket ((data.drop sent).take maxEp0Size) padding = (s', .ack :: controlCalls hcdc') ∧
      (∃ s'', s'.inToken = (s'', [.packet []])) ∧ hcdc'.load 0 data.length = data ∧
      (data.length ≤ cdcDataSize → hcdc' cdcDataSize = req.bRequest ∧
        hcdc' (cdcDataSize + 1) = UInt8.ofNat data.length) := by
  have rem := gathering.outRem
  have length : ((data.drop sent).take maxEp0Size).length = s.outRem := by
    rw [List.length_take, List.length_drop]
    omega
  have notEmpty : (data.drop sent).take maxEp0Size ≠ [] := by
    rw [← List.length_pos_iff, length]
    omega
  obtain ⟨gathered, command⟩ := gathering.store padding (List.take_prefix ..) whole
  rw [outPacket_data gathering.stallOut gathering.receive gathering.classData notEmpty]
  rw [length, Nat.add_comm, rem, List.take_length] at gathered
  unfold UsbDevice.dataOutStage
  rw [if_pos gathering.ep0State, if_neg (Nat.not_lt.mpr short)]
  dsimp only
  rw [if_pos gathering.devState]
  obtain ⟨classData', ready⟩ := cdcRxReady_eq (s := { s with
    receive := none
    classData := Option.some (hcdc.store sent ((data.drop sent).take maxEp0Size ++
      padding.take ((4 - ((data.drop sent).take maxEp0Size).length % 4) % 4))) }) rfl
  rw [ready]
  refine ⟨_, _, rfl, inToken_status rfl gathering.stallIn, ?_, command⟩
  rw [length]
  exact gathered

/-- **The host sends the data.** -/
theorem Gathering.write (gathering : Gathering req data sent s hcdc)
    (padding : List UInt8 → List UInt8) (some : sent < data.length)
    (whole : sent % maxEp0Size = 0) {packets : Nat}
    (enough : (data.length - sent) / maxEp0Size + 1 ≤ packets) :
    ∃ (s' : UsbDevice) (hcdc' : Mem UInt8),
      hostWrite padding packets (data.drop sent) s = Option.some (controlCalls hcdc', s') ∧
      (∃ s'', s'.inToken = (s'', [.packet []])) ∧ hcdc'.load 0 data.length = data ∧
      (data.length ≤ cdcDataSize → hcdc' cdcDataSize = req.bRequest ∧
        hcdc' (cdcDataSize + 1) = UInt8.ofNat data.length) := by
  induction packets generalizing sent s hcdc with
  | zero => exact absurd enough (Nat.not_succ_le_zero _)
  | succ packets ih =>
      have size : maxEp0Size = 64 := rfl
      have rem := gathering.outRem
      unfold hostWrite
      dsimp only
      by_cases long : maxEp0Size < s.outRem
      · obtain ⟨s', hcdc', packet, next⟩ := gathering.more
          (padding ((data.drop sent).take maxEp0Size)) long whole
        rw [packet]
        dsimp only
        rw [List.length_drop, if_neg (by omega), List.drop_drop]
        obtain ⟨s'', hcdc'', written, rest⟩ := ih next (by omega) (by rw [size] at whole ⊢; omega)
          (by rw [size] at enough long ⊢; omega)
        rw [written]
        exact ⟨s'', hcdc'', rfl, rest⟩
      · obtain ⟨s', hcdc', packet, rest⟩ := gathering.last
          (padding ((data.drop sent).take maxEp0Size)) (Nat.le_of_not_lt long) some whole
        rw [packet]
        dsimp only
        rw [List.length_drop, if_pos (by omega)]
        exact ⟨s', hcdc', rfl, rest⟩

/-- The request is taken. -/
theorem ClassRequest.taken (class_ : ClassRequest req) (desc : UsbDescriptors)
    (configured : s.devState = .configured) (classData : s.classData = some hcdc) :
    (s.setupPacket desc req none).1 = { s with
      transmit := none, stallIn := false, stallOut := false, ep0State := .dataOut
      ep0DataLen := req.wLength, outRem := req.wLength, receive := some (some 0)
      classData := some
        (hcdc.store cdcDataSize [req.bRequest, UInt8.ofNat req.wLength]) } := by
  unfold UsbDevice.setupPacket UsbDevice.setupStage
  dsimp only
  rw [if_neg (by rw [class_.interface]; decide), if_pos class_.interface]
  unfold UsbDevice.stdItfReq
  dsimp only
  rw [configured]
  dsimp only
  rw [if_pos class_.index]
  unfold UsbDevice.cdcSetup
  dsimp only
  rw [if_pos class_.type, if_pos class_.asks, classData]
  dsimp only
  rw [if_neg (not_not.mpr class_.out), if_neg class_.asks]
  rfl

theorem ClassRequest.gathering (class_ : ClassRequest req) (desc : UsbDescriptors)
    (configured : s.devState = .configured) (classData : s.classData = some hcdc)
    (length : data.length = req.wLength) :
    ∃ hcdc', Gathering req data 0 (s.setupPacket desc req none).1 hcdc' := by
  rw [class_.taken desc configured classData]
  refine ⟨hcdc.store cdcDataSize [req.bRequest, UInt8.ofNat req.wLength], rfl, rfl, configured, rfl,
    length.symm, rfl, rfl, rfl, ?_⟩
  intro fits
  rw [length]
  constructor
  · rw [Mem.store_inside (Nat.le_refl _) (by simp)]
    simp
  · rw [Mem.store_inside (by omega) (by simp)]
    simp

/-- **A class command arrives as it was sent exactly when its data fits `data`** (and is not
the mark for no command). `CmdLength` has eight bits, so of longer data `CDC_Control` is told of
less. -/
theorem controlWrite_iff (desc : UsbDescriptors) (s : UsbDevice) (hcdc : Mem UInt8)
    (pdata : List UInt8) (class_ : ClassRequest (parseSetupRequest pdata))
    (configured : s.devState = .configured) (classData : s.classData = some hcdc) :
    (∀ data padding, data.length = (parseSetupRequest pdata).wLength →
      ∃ s', controlWrite desc s pdata data padding = some
        ([.control (parseSetupRequest pdata).bRequest
          (data.take ((parseSetupRequest pdata).wLength % 2 ^ 8))], s')) ↔
      (parseSetupRequest pdata).wLength ≤ cdcDataSize ∧
        (parseSetupRequest pdata).bRequest ≠ 0xFF := by
  have written (data : List UInt8) (padding : List UInt8 → List UInt8)
      (length : data.length = (parseSetupRequest pdata).wLength) :
      ∃ (s' : UsbDevice) (hcdc' : Mem UInt8),
        controlWrite desc s pdata data padding = some (controlCalls hcdc', s') ∧
        hcdc'.load 0 data.length = data ∧
        (data.length ≤ cdcDataSize → hcdc' cdcDataSize = (parseSetupRequest pdata).bRequest ∧
          hcdc' (cdcDataSize + 1) = UInt8.ofNat data.length) := by
    obtain ⟨hcdc₀, gathering⟩ := class_.gathering desc configured classData length
    have some : 0 < data.length := by
      rw [length]
      exact Nat.pos_of_ne_zero class_.asks
    obtain ⟨s', hcdc', host, ⟨s'', status⟩, all⟩ :=
      gathering.write padding some (Nat.zero_mod _) (Nat.le_refl _)
    rw [Nat.sub_zero, List.drop_zero] at host
    refine ⟨s'', hcdc', ?_, all⟩
    unfold controlWrite
    rw [host]
    dsimp only
    rw [status]
  generalize parseSetupRequest pdata = req at class_ written ⊢
  constructor
  · intro arrives
    have called (data : List UInt8) (length : data.length = req.wLength) :
        ∃ hcdc' : Mem UInt8, hcdc'.load 0 data.length = data ∧
          hcdc' cdcDataSize = req.bRequest ∧ req.bRequest ≠ 0xFF := by
      obtain ⟨s', hcdc', done, all, -⟩ := written data (fun _ => []) length
      obtain ⟨s'', same⟩ := arrives data (fun _ => []) length
      rw [done] at same
      have calls := (Prod.mk.inj (Option.some.inj same)).1
      exact ⟨hcdc', all, command_of_controlCalls calls⟩
    refine ⟨?_, ?_⟩
    · -- a byte that is another command gets to `CmdOpCode`
      by_contra long
      have length : (List.replicate req.wLength (req.bRequest + 1)).length = req.wLength :=
        List.length_replicate ..
      obtain ⟨hcdc', all, same, -⟩ := called _ length
      have cell := congrArg (·[cdcDataSize]?) all
      have inside : cdcDataSize < req.wLength := Nat.lt_of_not_le long
      simp only [length, Mem.load, List.getElem?_map, List.getElem?_range inside,
        List.getElem?_replicate, if_pos inside, Option.map_some, Nat.zero_add, same,
        Option.some_inj] at cell
      simp at cell
    · obtain ⟨hcdc', -, -, command⟩ := called (List.replicate req.wLength 0)
        (List.length_replicate ..)
      exact command
  · rintro ⟨fits, command⟩ data padding length
    obtain ⟨s', hcdc', done, all, kept⟩ := written data padding length
    rw [length] at all kept
    obtain ⟨same, size⟩ := kept fits
    refine ⟨s', ?_⟩
    rw [done]
    unfold controlCalls
    have told : hcdc'.load 0 (req.wLength % 2 ^ 8) = data.take (req.wLength % 2 ^ 8) := by
      rw [← Mem.load_take (Nat.mod_le ..), all]
    rw [same, size, if_pos command, UInt8.toNat_ofNat', told]

/-- SET_LINE_CODING to 115200 baud. -/
theorem controlWrite_setLineCoding :
    ∃ s', controlWrite (vcpDesc [] [])
      { UsbDevice.init with devState := .configured, classData := some fun _ => 0 }
      [0x21, 0x20, 0, 0, 0, 0, 7, 0] [0x00, 0xC2, 0x01, 0x00, 0, 0, 8] (fun _ => []) =
        some ([.control 0x20 [0x00, 0xC2, 0x01, 0x00, 0, 0, 8]], s') :=
  (controlWrite_iff (vcpDesc [] [])
    { UsbDevice.init with devState := .configured, classData := some fun _ => 0 } (fun _ => 0)
    [0x21, 0x20, 0, 0, 0, 0, 7, 0]
    ⟨by decide, by decide, by decide, by decide, by decide, by decide⟩ rfl rfl).mpr
    ⟨by decide, by decide⟩ [0x00, 0xC2, 0x01, 0x00, 0, 0, 8] (fun _ => []) rfl

/-! ## Any host -/

/-- The host uses endpoint 0, with packets that are not longer than it takes. -/
def ControlEvent.OnEp0 : ControlEvent → Prop
  | .inToken => True
  | .outPacket bytes _ => bytes.length ≤ maxEp0Size
  | _ => False

/-- Behind `CmdLength` the class data is as it was, and the next packet leaves it so: it is
stored at most behind the packets that are counted. -/
structure Confined (wLength : Nat) (before : Mem UInt8) (s : UsbDevice) : Prop where
  classData : ∃ hcdc, s.classData = some hcdc ∧ ∀ i ≥ cdcDataSize + 2, hcdc i = before i
  receive : ∀ at_, s.receive = some (some at_) → s.ep0State = .dataOut ∧
    ∃ sent, at_ ≤ sent ∧ sent % maxEp0Size = 0 ∧ s.outRem + sent = wLength ∧ 0 < s.outRem

theorem Confined.dataOutStage {wLength : Nat} {before : Mem UInt8} {pdata : Option Nat}
    (confined : Confined wLength before s) (none : s.receive = none)
    (next : s.ep0State = .dataOut → maxEp0Size < s.outRem → ∀ at_, pdata = some at_ →
      ∃ sent, at_ ≤ sent + maxEp0Size ∧ sent % maxEp0Size = 0 ∧ s.outRem + sent = wLength) :
    Confined wLength before (s.dataOutStage pdata).1 := by
  unfold UsbDevice.dataOutStage
  by_cases stage : s.ep0State = .dataOut
  · rw [if_pos stage]
    by_cases long : maxEp0Size < s.outRem
    · rw [if_pos long]
      refine ⟨confined.classData, ?_⟩
      intro at_ receive
      obtain ⟨sent, behind, whole, rem⟩ := next stage long at_ (Option.some.inj receive)
      refine ⟨stage, sent + maxEp0Size, behind, ?_, ?_, ?_⟩
      · rw [Nat.add_mod_right, whole]
      · show s.outRem - maxEp0Size + (sent + maxEp0Size) = wLength
        omega
      · show 0 < s.outRem - maxEp0Size
        omega
    · rw [if_neg long]
      obtain ⟨hcdc, classData, kept⟩ := confined.classData
      have ready : ∃ hcdc', (if s.devState = .configured then s.cdcRxReady else (s, [])).1 =
          { s with classData := some hcdc' } ∧ ∀ i ≥ cdcDataSize + 2, hcdc' i = before i := by
        split
        · unfold UsbDevice.cdcRxReady
          rw [classData]
          dsimp only
          split
          · refine ⟨_, rfl, ?_⟩
            intro i behind
            rw [Mem.store_outside (.inr (by simp only [List.length_singleton]; omega))]
            exact kept i behind
          · exact ⟨hcdc, by rw [← classData], kept⟩
        · exact ⟨hcdc, by rw [← classData], kept⟩
      obtain ⟨hcdc', done, kept'⟩ := ready
      dsimp only
      rw [done]
      refine ⟨⟨hcdc', rfl, kept'⟩, ?_⟩
      intro at_ receive
      rw [show s.receive = some (some at_) from receive] at none
      cases none
  · rw [if_neg stage]
    exact confined

/-- **One packet.** -/
theorem Confined.step {wLength : Nat} {before : Mem UInt8} (fits : wLength ≤ cdcDataSize)
    (confined : Confined wLength before s) {e : ControlEvent} (onEp0 : e.OnEp0)
    (desc : UsbDescriptors) : Confined wLength before (controlStep desc s e).1 := by
  cases e with
  | inToken =>
      show Confined wLength before s.inToken.1
      unfold UsbDevice.inToken
      split
      · exact confined
      · split
        · exact confined
        · unfold UsbDevice.dataInStage
          dsimp only
          split
          · -- what is received next has no place
            split
            · exact ⟨confined.classData, fun at_ receive => by cases receive⟩
            · split
              · exact ⟨confined.classData, fun at_ receive => by cases receive⟩
              · exact ⟨confined.classData, fun at_ receive => by cases receive⟩
          · exact ⟨confined.classData, confined.receive⟩
  | outPacket bytes padding =>
      show Confined wLength before (s.outPacket bytes padding).1
      unfold UsbDevice.outPacket
      split
      · exact confined
      · cases receive : s.receive with
        | none => exact confined
        | some pbuf =>
            dsimp only
            split
            · refine Confined.dataOutStage ⟨confined.classData, ?_⟩ rfl ?_
              · exact fun at_ none => by cases none
              · rintro stage long at_ rfl
                obtain ⟨-, sent, behind, whole, rem, -⟩ := confined.receive at_ receive
                exact ⟨sent, Nat.le_trans behind (Nat.le_add_right ..), whole, rem⟩
            · obtain ⟨hcdc, classData, kept⟩ := confined.classData
              rw [classData]
              cases pbuf with
              | none => exact ⟨⟨hcdc, rfl, kept⟩, fun at_ none => by cases none⟩
              | some at_ =>
                  obtain ⟨-, sent, behind, whole, rem, some⟩ := confined.receive at_ receive
                  refine Confined.dataOutStage ⟨⟨_, rfl, ?_⟩, ?_⟩ rfl ?_
                  · intro i far
                    have size : maxEp0Size = 64 := rfl
                    have room : cdcDataSize = 512 := rfl
                    have words := List.length_take_le ((4 - bytes.length % 4) % 4) padding
                    have small : bytes.length ≤ maxEp0Size := onEp0
                    rw [size] at whole small
                    rw [room] at fits far
                    rw [Mem.store_outside (.inr (by rw [List.length_append]; omega))]
                    exact kept i (by rw [room]; exact far)
                  · exact fun at_ none => by cases none
                  · intro stage long next at_next
                    obtain rfl := Option.some.inj at_next
                    have small : bytes.length ≤ maxEp0Size := onEp0
                    exact ⟨sent, by omega, whole, rem⟩
  | setup => exact onEp0.elim
  | reset => exact onEp0.elim
  | suspend => exact onEp0.elim
  | resume => exact onEp0.elim
  | disconnect => exact onEp0.elim
  | dataOut => exact onEp0.elim
  | usbWrite => exact onEp0.elim

/-- **Whatever a host sends as data that fits**, `RxBuffer` and the other pointers and counts
behind `CmdLength` stay as they are, until the next request or a reset. -/
theorem class_data_confined (desc : UsbDescriptors) (s : UsbDevice) (hcdc : Mem UInt8)
    (pdata : List UInt8) (class_ : ClassRequest (parseSetupRequest pdata))
    (fits : (parseSetupRequest pdata).wLength ≤ cdcDataSize)
    (configured : s.devState = .configured) (classData : s.classData = some hcdc)
    (events : List ControlEvent) (onEp0 : ∀ e ∈ events, e.OnEp0) :
    ∃ hcdc', ((controlFSM desc).after s (.setup pdata none :: events)).classData = some hcdc' ∧
      ∀ i ≥ cdcDataSize + 2, hcdc' i = hcdc i := by
  have confined : Confined (parseSetupRequest pdata).wLength hcdc
      ((controlFSM desc).next s (.setup pdata none)) := by
    show Confined _ _ (s.setupPacket desc (parseSetupRequest pdata) none).1
    rw [class_.taken desc configured classData]
    refine ⟨⟨_, rfl, ?_⟩, ?_⟩
    · intro i behind
      exact Mem.store_outside (.inr behind)
    · intro at_ receive
      obtain rfl := Option.some.inj (Option.some.inj receive)
      exact ⟨rfl, 0, Nat.le_refl _, Nat.zero_mod _, Nat.add_zero _,
        Nat.pos_of_ne_zero class_.asks⟩
  have steps : (controlFSM desc).EveryStep (fun _ e => e.OnEp0)
      (s.setupPacket desc (parseSetupRequest pdata) none).1 events := by
    rw [Fsm.everyStep_iff]
    rintro pre e post rfl
    exact onEp0 e (List.mem_append_right _ List.mem_cons_self)
  have run := (controlFSM desc).invariant (I := fun _ s =>
    Confined (parseSetupRequest pdata).wLength hcdc s) (C := fun _ e => e.OnEp0)
    (fun _ _ _ confined onEp0 => confined.step fits onEp0 desc) [] confined steps
  exact run.classData

theorem class_data_confined_setLineCoding :
    ∃ hcdc', ((controlFSM (vcpDesc [] [])).after
        { UsbDevice.init with devState := .configured, classData := some fun _ => 0 }
        [.setup [0x21, 0x20, 0, 0, 0, 0, 7, 0] none, .outPacket [1, 2, 3] [4], .inToken,
          .outPacket [5] []]).classData = some hcdc' ∧
      ∀ i ≥ cdcDataSize + 2, hcdc' i = 0 :=
  class_data_confined (vcpDesc [] [])
    { UsbDevice.init with devState := .configured, classData := some fun _ => 0 } (fun _ => 0)
    [0x21, 0x20, 0, 0, 0, 0, 7, 0]
    ⟨by decide, by decide, by decide, by decide, by decide, by decide⟩ (by decide) rfl rfl
    [.outPacket [1, 2, 3] [4], .inToken, .outPacket [5] []]
    (by simp [ControlEvent.OnEp0, maxEp0Size])

end OlympusFirmware.Usb
