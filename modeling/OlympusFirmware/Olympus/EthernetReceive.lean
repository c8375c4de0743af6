import Mathlib.Data.List.Forall2
import OlympusFirmware.Olympus.Ethernet

/-!
# Frames that are received

The DMA stores a frame in as many buffers as it takes, while the program looks at one
descriptor in each call of `ethernetif_input` and counts them in `SegCount`. Whatever the order
in which the two go on, lwIP gets the frames the DMA has stored, in order, each once and
without its checksum, save those for which there are no pbufs: the descriptors from the first
that is not released up to the DMA's hold the frames that wait.
-/

namespace OlympusFirmware.Olympus

open OlympusFirmware.Lib

/-- What a descriptor and its buffer say of a frame. -/
structure RxSegment where
  fs : Bool
  ls : Bool
  frameLength : Nat
  bytes : List UInt8

/-- How many buffers a frame takes. -/
def rxSegments (cfg : EthConfig) (length : Nat) : Nat := (length - 1) / cfg.rxBufSize + 1

/-- The `j`-th segment of a frame. -/
def rxSegment (cfg : EthConfig) (frame : List UInt8) (j : Nat) : RxSegment where
  fs := j = 0
  ls := j + 1 = rxSegments cfg frame.length
  frameLength := if j + 1 = rxSegments cfg frame.length then frame.length else 0
  bytes := (frame.drop (j * cfg.rxBufSize)).take cfg.rxBufSize

def frameSegments (cfg : EthConfig) (frame : List UInt8) : List RxSegment :=
  (List.range (rxSegments cfg frame.length)).map (rxSegment cfg frame)

/-- The frames that found a buffer. -/
def storedFrames (log : List EthRxOutput) : List (List UInt8) :=
  log.filterMap fun
    | .stored frame => some frame
    | .missed _ | .input _ | .dropped => none

/-- What `ethernetif_input` has made of the frames it took. -/
def receivedFrames (log : List EthRxOutput) : List (Option (List UInt8)) :=
  log.filterMap fun
    | .input p => some (some p.flatten)
    | .dropped => some none
    | .stored _ | .missed _ => none

theorem storedFrames_append (log more : List EthRxOutput) :
    storedFrames (log ++ more) = storedFrames log ++ storedFrames more := List.filterMap_append

theorem receivedFrames_append (log more : List EthRxOutput) :
    receivedFrames (log ++ more) = receivedFrames log ++ receivedFrames more :=
  List.filterMap_append

/-- A frame comes out without its checksum; when pbufs may be missing it may be dropped. -/
def Delivers (lossy : Prop) (frame : List UInt8) (received : Option (List UInt8)) : Prop :=
  received = some (frame.take (frame.length - 4)) ∨ received = none ∧ lossy

/-- What is left of the frame the DMA is at or comes to next. -/
def EthRx.left (s : EthRx) : Option (List UInt8) :=
  match s.storing with
  | some (_, left) => some left
  | none => s.fifo.head?

/-- A frame has its checksum behind some bytes, and its length fits the field; `pbuf_alloc`
gives a chain of the length it is asked for; the DMA does not run out of descriptors within a
frame. -/
def EthRxEvent.Fits (cfg : EthConfig) (s : EthRx) : EthRxEvent → Prop
  | .frame bytes => 4 < bytes.length ∧ bytes.length < 2 ^ 14
  | .poll pbufAlloc => ∀ len lens, pbufAlloc len = some lens → lens.sum = len
  | .cpu => True
  | .dma => ∀ left ∈ s.left, cfg.rxBufSize < left.length → (s.descs s.dma).own = true →
      (s.descs (cfg.nextRx s.dma)).own = true

section Segments

variable {cfg : EthConfig} {frame : List UInt8} {j : Nat}

theorem rxSegments_spec (cfg : EthConfig) {len : Nat} (some : 0 < len) :
    ∃ c, rxSegments cfg len = c + 1 ∧ c * cfg.rxBufSize < len ∧
      len ≤ (c + 1) * cfg.rxBufSize := by
  have whole := Nat.div_add_mod (len - 1) cfg.rxBufSize
  have rest := Nat.mod_lt (len - 1) cfg.rxSize
  rw [Nat.mul_comm] at whole
  refine ⟨(len - 1) / cfg.rxBufSize, rfl, by omega, ?_⟩
  rw [Nat.succ_mul]
  omega

/-- More than a buffer is left of a frame exactly when this is not its last segment. -/
theorem more_iff (cfg : EthConfig) (some : 0 < frame.length)
    (inside : j < rxSegments cfg frame.length) :
    (frame.drop (j * cfg.rxBufSize)).length ≤ cfg.rxBufSize ↔
      j + 1 = rxSegments cfg frame.length := by
  obtain ⟨c, count, long, short⟩ := rxSegments_spec cfg some
  rw [List.length_drop, count]
  rw [count] at inside
  constructor
  · intro whole
    by_contra other
    have before := Nat.mul_le_mul_right cfg.rxBufSize (show j + 1 ≤ c by omega)
    rw [Nat.succ_mul] at before
    omega
  · intro last
    obtain rfl := Nat.succ.inj last
    rw [Nat.succ_mul] at short
    omega

/-- Bytes of the frame are in one of its segments. -/
theorem segment_inside (off len : Nat) (positive : 0 < len)
    (inside : j * cfg.rxBufSize + off + len ≤ frame.length) :
    j < rxSegments cfg frame.length := by
  obtain ⟨c, count, -, short⟩ := rxSegments_spec cfg (show 0 < frame.length by omega)
  rw [count]
  exact Nat.lt_of_mul_lt_mul_right (a := cfg.rxBufSize) (by omega)

@[simp] theorem length_frameSegments :
    (frameSegments cfg frame).length = rxSegments cfg frame.length := by
  unfold frameSegments
  rw [List.length_map, List.length_range]

theorem getElem_frameSegments (inside : j < (frameSegments cfg frame).length) :
    (frameSegments cfg frame)[j] = rxSegment cfg frame j := by
  unfold frameSegments at inside ⊢
  rw [List.getElem_map, List.getElem_range]

theorem drop_frameSegments (inside : j < rxSegments cfg frame.length) :
    (frameSegments cfg frame).drop j =
      rxSegment cfg frame j :: (frameSegments cfg frame).drop (j + 1) := by
  have within : j < (frameSegments cfg frame).length := by
    rw [length_frameSegments]
    exact inside
  rw [List.drop_eq_getElem_cons within, getElem_frameSegments]

end Segments

section Ring

variable {cfg : EthConfig} {s : EthRx} {first : Nat} {queue : List RxSegment}

/-- Descriptor `b` and its buffer hold a segment. -/
structure HoldsReceived (cfg : EthConfig) (s : EthRx) (b : Nat) (seg : RxSegment) : Prop where
  desc : s.descs b = ⟨false, seg.fs, seg.ls, seg.frameLength⟩
  small : seg.bytes.length ≤ cfg.rxBufSize
  bytes : s.rxBuff.load (b * cfg.rxBufSize) seg.bytes.length = seg.bytes

/-- The descriptors up to the DMA's hold what waits for the program. -/
structure RxRing (cfg : EthConfig) (s : EthRx) (first : Nat) (queue : List RxSegment) :
    Prop where
  filled : Filled cfg.rxBufNb (fun i => !(s.descs i).own) (HoldsReceived cfg s) first queue
  dma : s.dma = (first + queue.length) % cfg.rxBufNb

theorem nextRx_mod (cfg : EthConfig) (k : Nat) :
    cfg.nextRx (k % cfg.rxBufNb) = (k + 1) % cfg.rxBufNb := by
  unfold EthConfig.nextRx
  rw [Nat.mod_add_mod]

theorem released_update (descs : Nat → RxDesc) (b : Nat) (desc : RxDesc) :
    (fun i => !(Function.update descs b desc i).own) =
      Function.update (fun i => !(descs i).own) b (!desc.own) := by
  funext i
  by_cases same : i = b
  · rw [same, Function.update_self, Function.update_self]
  · rw [Function.update_of_ne same, Function.update_of_ne same]

/-- The ring does not look at the other fields. -/
theorem RxRing.congr {s' : EthRx} (ring : RxRing cfg s first queue) (descs : s'.descs = s.descs)
    (rxBuff : s'.rxBuff = s.rxBuff) (dma : s'.dma = s.dma) : RxRing cfg s' first queue := by
  refine ⟨⟨?_, ?_⟩, dma.trans ring.dma⟩
  · rw [descs]
    exact ring.filled.handed
  · intro j inside
    have holds := ring.filled.slots j inside
    refine ⟨?_, holds.small, ?_⟩
    · rw [descs]
      exact holds.desc
    · rw [rxBuff]
      exact holds.bytes

/-- **The DMA fills a buffer.** -/
theorem RxRing.store (ring : RxRing cfg s first queue) (room : queue.length < cfg.rxBufNb)
    {seg : RxSegment} (small : seg.bytes.length ≤ cfg.rxBufSize) :
    RxRing cfg { s with
      rxBuff := s.rxBuff.store (s.dma * cfg.rxBufSize) seg.bytes
      descs := Function.update s.descs s.dma ⟨false, seg.fs, seg.ls, seg.frameLength⟩
      dma := cfg.nextRx s.dma } first (queue ++ [seg]) := by
  have dma := ring.dma
  refine ⟨?_, ?_⟩
  · dsimp only
    rw [released_update, dma]
    refine ring.filled.give room ⟨Function.update_self .., small, Mem.load_store_self ..⟩ ?_
    intro b other differs holds
    refine ⟨(Function.update_of_ne differs _ _).trans holds.desc, holds.small, ?_⟩
    have inside : 0 + other.bytes.length ≤ cfg.rxBufSize :=
      Nat.le_trans (Nat.le_of_eq (Nat.zero_add _)) holds.small
    have kept := Blocks.load_store_other (m := s.rxBuff) (Ne.symm differs)
      (show 0 + seg.bytes.length ≤ cfg.rxBufSize by omega) inside
    exact kept.trans holds.bytes
  · show cfg.nextRx s.dma = _
    rw [dma, nextRx_mod, List.length_append]
    rfl

/-- **The program releases a descriptor.** -/
theorem RxRing.release {seg : RxSegment} (ring : RxRing cfg s first (seg :: queue)) {b : Nat}
    (at_ : b = first % cfg.rxBufNb) :
    RxRing cfg { s with
      descs := Function.update s.descs b { s.descs b with own := true } } (first + 1) queue := by
  subst at_
  refine ⟨?_, ?_⟩
  · rw [released_update]
    refine ring.filled.take ?_
    intro b other differs holds
    exact ⟨(Function.update_of_ne differs _ _).trans holds.desc, holds.small, holds.bytes⟩
  · show s.dma = _
    rw [ring.dma, List.length_cons]
    congr 1
    omega

/-- **Bytes of a frame** are where the program looks for them. -/
theorem RxRing.load {frame : List UInt8} {rest : List RxSegment} {j off len : Nat}
    (ring : RxRing cfg s first (frameSegments cfg frame ++ rest))
    (inside : off + len ≤ cfg.rxBufSize)
    (within : j * cfg.rxBufSize + off + len ≤ frame.length) :
    s.rxBuff.load ((first + j) % cfg.rxBufNb * cfg.rxBufSize + off) len =
      (frame.drop (j * cfg.rxBufSize + off)).take len := by
  rcases Nat.eq_zero_or_pos len with rfl | positive
  · rfl
  · have few := segment_inside off len positive within
    have before : j < (frameSegments cfg frame).length := by
      rw [length_frameSegments]
      exact few
    have holds := ring.filled.slots j (by
      rw [List.length_append]
      omega)
    rw [List.getElem_append_left before, getElem_frameSegments] at holds
    have bytes := holds.bytes
    have size : (rxSegment cfg frame j).bytes.length =
        min cfg.rxBufSize (frame.length - j * cfg.rxBufSize) := by
      unfold rxSegment
      rw [List.length_take, List.length_drop]
    rw [size] at bytes
    have cut := congrArg (fun block => (block.drop off).take len) bytes
    rw [Mem.load_drop (by omega), Mem.load_take (by omega)] at cut
    rw [cut]
    unfold rxSegment
    dsimp only
    rw [List.drop_take, List.drop_drop, List.take_take, Nat.min_eq_left (by omega)]

end Ring

/-! ## The program -/

/-- Of the frame the DMA is at, the segments that are not there yet. `count` descriptors wait
for the program. -/
inductive StoreStage (cfg : EthConfig) (count : Nat) :
    Option (Nat × List UInt8) → List RxSegment → Prop
  | between : StoreStage cfg count none []
  | within {frame : List UInt8} {j : Nat} (fits : 4 < frame.length ∧ frame.length < 2 ^ 14)
      (started : 0 < j) (more : j < rxSegments cfg frame.length) (room : count < cfg.rxBufNb) :
      StoreStage cfg count (some (frame.length, frame.drop (j * cfg.rxBufSize)))
        ((frameSegments cfg frame).drop j)

/-- `HAL_ETH_GetReceivedFrame` has found the frame that starts at position `base`. -/
structure Found (cfg : EthConfig) (frame : List UInt8) (base rxDesc : Nat)
    (infos : RxFrameInfos) : Prop where
  sized : 4 < frame.length
  segCount : infos.segCount = rxSegments cfg frame.length
  fsRxDesc : infos.fsRxDesc = base % cfg.rxBufNb
  rxDesc : rxDesc = (base + rxSegments cfg frame.length) % cfg.rxBufNb

/-- The chain of pbufs holds the frame, or there is none. -/
def Carries (lossy : Prop) (frame : List UInt8) : Option (List (List UInt8)) → Prop
  | some p => p.flatten = frame.take (frame.length - 4)
  | none => lossy

/-- Where the program is, with `heth->RxDesc`, the frame it is at, those of its segments that
are not released, and the frames behind it. -/
inductive InputStage (cfg : EthConfig) (lossy : Prop) (first count rxDesc : Nat)
    (infos : RxFrameInfos) : InputPc → List (List UInt8) → List RxSegment →
    List (List UInt8) → Prop
  | idle {frames : List (List UInt8)}
      (at_ : rxDesc = (first + infos.segCount) % cfg.rxBufNb)
      (start : 0 < infos.segCount → infos.fsRxDesc = first % cfg.rxBufNb)
      (few : infos.segCount ≤ count)
      (within : infos.segCount = 0 ∨
        ∃ frame rest, frames = frame :: rest ∧ infos.segCount < rxSegments cfg frame.length) :
      InputStage cfg lossy first count rxDesc infos .idle [] [] frames
  | next {frame : List UInt8} {frames done : List (List UInt8)} {rest : List Nat} {k off : Nat}
      (found : Found cfg frame first rxDesc infos) (inside : off ≤ cfg.rxBufSize)
      (left : k * cfg.rxBufSize + off + rest.sum = frame.length - 4)
      (copied : done.flatten = frame.take (k * cfg.rxBufSize + off)) :
      InputStage cfg lossy first count rxDesc infos
        (.next done rest ((first + k) % cfg.rxBufNb) off) [frame] (frameSegments cfg frame) frames
  | copy {frame payload : List UInt8} {frames done : List (List UInt8)} {rest : List Nat}
      {k off bytes : Nat}
      (found : Found cfg frame first rxDesc infos) (inside : off ≤ cfg.rxBufSize)
      (left : k * cfg.rxBufSize + off + (bytes + rest.sum) = frame.length - 4)
      (copied : done.flatten ++ payload = frame.take (k * cfg.rxBufSize + off)) :
      InputStage cfg lossy first count rxDesc infos
        (.copy done payload bytes rest ((first + k) % cfg.rxBufNb) off) [frame]
        (frameSegments cfg frame) frames
  | release {frame : List UInt8} {frames : List (List UInt8)} {p : Option (List (List UInt8))}
      {i : Nat} (base : Nat) (found : Found cfg frame base rxDesc infos) (at_ : base + i = first)
      (few : i ≤ rxSegments cfg frame.length) (carries : Carries lossy frame p) :
      InputStage cfg lossy first count rxDesc infos
        (.release p (first % cfg.rxBufNb) i) [frame] ((frameSegments cfg frame).drop i) frames
  | resume {frame : List UInt8} {frames : List (List UInt8)} {p : Option (List (List UInt8))}
      (at_ : rxDesc = first % cfg.rxBufNb) (none : infos.segCount = 0)
      (carries : Carries lossy frame p) :
      InputStage cfg lossy first count rxDesc infos (.resume p) [frame] [] frames

/-- The frames on their way: `queue` waits in the descriptors, `head` is left of the frame the
program is at, `missing` is not stored yet. -/
structure RxQueue (cfg : EthConfig) (lossy : Prop) (log : List EthRxOutput) (first : Nat)
    (queue head missing : List RxSegment) (done current frames : List (List UInt8))
    (s : EthRx) : Prop where
  ring : RxRing cfg s first queue
  stored : queue ++ missing = head ++ frames.flatMap (frameSegments cfg)
  inside : head.length ≤ queue.length
  sized : ∀ frame ∈ frames, 4 < frame.length ∧ frame.length < 2 ^ 14
  fifo : ∀ frame ∈ s.fifo, 4 < frame.length ∧ frame.length < 2 ^ 14
  stage : InputStage cfg lossy first queue.length s.rxDesc s.infos s.pc current head frames
  conserved : storedFrames log = done ++ current ++ frames
  received : List.Forall₂ (Delivers lossy) done (receivedFrames log)

/-- What holds after every run. -/
structure RxInv (cfg : EthConfig) (lossy : Prop) (log : List EthRxOutput) (first : Nat)
    (queue head missing : List RxSegment) (done current frames : List (List UInt8))
    (s : EthRx) : Prop extends
    RxQueue cfg lossy log first queue head missing done current frames s where
  storing : StoreStage cfg queue.length s.storing missing

section Steps

variable {cfg : EthConfig} {lossy : Prop} {log : List EthRxOutput} {first count : Nat}
  {queue head missing : List RxSegment} {done current frames : List (List UInt8)} {s : EthRx}

/-- The DMA may have stored more meanwhile. -/
theorem InputStage.arrive {rxDesc count' : Nat} {infos : RxFrameInfos} {pc : InputPc}
    (stage : InputStage cfg lossy first count rxDesc infos pc current head frames)
    (more : count ≤ count') (later : List (List UInt8)) :
    InputStage cfg lossy first count' rxDesc infos pc current head (frames ++ later) := by
  cases stage with
  | idle at_ start few within =>
      refine .idle at_ start (Nat.le_trans few more) ?_
      rcases within with zero | ⟨frame, rest, rfl, within⟩
      · exact .inl zero
      · exact .inr ⟨frame, rest ++ later, rfl, within⟩
  | next found inside left copied => exact .next found inside left copied
  | copy found inside left copied => exact .copy found inside left copied
  | release base found at_ few carries => exact .release base found at_ few carries
  | resume at_ none carries => exact .resume at_ none carries

theorem StoreStage.fewer {count' : Nat} {storing : Option (Nat × List UInt8)}
    (stage : StoreStage cfg count storing missing) (fewer : count' ≤ count) :
    StoreStage cfg count' storing missing := by
  cases stage with
  | between => exact .between
  | within fits started more room => exact .within fits started more (Nat.lt_of_le_of_lt fewer room)

/-- **The DMA stores a segment** and finds the next descriptor, if there is more. -/
theorem storeSegment_eq {frame : List UInt8} {j : Nat}
    (fits : 4 < frame.length ∧ frame.length < 2 ^ 14) (inside : j < rxSegments cfg frame.length)
    (next : cfg.rxBufSize < (frame.drop (j * cfg.rxBufSize)).length →
      (s.descs (cfg.nextRx s.dma)).own = true) :
    storeSegment cfg s (j = 0) frame.length (frame.drop (j * cfg.rxBufSize)) =
      { s with
        rxBuff := s.rxBuff.store (s.dma * cfg.rxBufSize) (rxSegment cfg frame j).bytes
        descs := Function.update s.descs s.dma ⟨false, (rxSegment cfg frame j).fs,
          (rxSegment cfg frame j).ls, (rxSegment cfg frame j).frameLength⟩
        dma := cfg.nextRx s.dma
        storing := if j + 1 = rxSegments cfg frame.length then none
          else some (frame.length, frame.drop ((j + 1) * cfg.rxBufSize)) } := by
  have whole := more_iff cfg (show 0 < frame.length by omega) inside
  unfold storeSegment rxSegment
  dsimp only
  by_cases last : j + 1 = rxSegments cfg frame.length
  · have short := whole.mpr last
    have field : frame.length % 2 ^ 14 = frame.length := Nat.mod_eq_of_lt fits.2
    simp only [last, short, field, true_or, decide_true, if_true]
  · have long := mt whole.mp last
    have own := next (Nat.lt_of_not_ge long)
    simp only [last, long, own, List.drop_drop, Nat.succ_mul, decide_false, if_false, false_or,
      Bool.true_eq_false]

/-- The DMA takes up a frame. -/
theorem RxQueue.accept {frame : List UInt8} {fifo : List (List UInt8)}
    (held : RxQueue cfg lossy log first queue head [] done current frames s)
    (waits : s.fifo = frame :: fifo) :
    RxQueue cfg lossy (log ++ [.stored frame]) first queue head (frameSegments cfg frame) done
      current (frames ++ [frame]) { s with fifo := fifo } := by
  have fits := held.fifo
  rw [waits] at fits
  have stored := held.stored
  rw [List.append_nil] at stored
  refine ⟨held.ring.congr rfl rfl rfl, ?_, held.inside, ?_, ?_, ?_, ?_, ?_⟩
  · rw [stored, List.append_assoc, List.flatMap_append, List.flatMap_singleton]
  · intro other member
    rcases List.mem_append.mp member with before | last
    · exact held.sized other before
    · rw [List.mem_singleton.mp last]
      exact fits frame List.mem_cons_self
  · intro other member
    exact fits other (List.mem_cons_of_mem _ member)
  · exact held.stage.arrive (Nat.le_refl _) [frame]
  · rw [storedFrames_append, held.conserved, List.append_assoc _ frames]
    rfl
  · rw [receivedFrames_append]
    show List.Forall₂ _ _ (_ ++ [])
    rw [List.append_nil]
    exact held.received

/-- **The DMA has stored a segment.** -/
theorem RxQueue.store {frame : List UInt8} {j : Nat}
    (held : RxQueue cfg lossy log first queue head ((frameSegments cfg frame).drop j) done
      current frames s)
    (fits : 4 < frame.length ∧ frame.length < 2 ^ 14) (inside : j < rxSegments cfg frame.length)
    (room : queue.length < cfg.rxBufNb)
    (next : cfg.rxBufSize < (frame.drop (j * cfg.rxBufSize)).length →
      (s.descs (cfg.nextRx s.dma)).own = true) :
    ∃ missing', RxInv cfg lossy log first (queue ++ [rxSegment cfg frame j]) head missing' done
      current frames
      (storeSegment cfg s (j = 0) frame.length (frame.drop (j * cfg.rxBufSize))) := by
  have stored := held.stored
  rw [drop_frameSegments inside, List.append_cons] at stored
  have small : (rxSegment cfg frame j).bytes.length ≤ cfg.rxBufSize := by
    unfold rxSegment
    rw [List.length_take]
    exact Nat.min_le_left ..
  have ring := held.ring.store room small
  have more : queue.length ≤ (queue ++ [rxSegment cfg frame j]).length := by
    rw [List.length_append]
    omega
  have stage := held.stage.arrive more []
  rw [List.append_nil] at stage
  rw [storeSegment_eq fits inside next]
  refine ⟨_, ⟨ring.congr rfl rfl rfl, stored, Nat.le_trans held.inside more, held.sized,
    held.fifo, stage, held.conserved, held.received⟩, ?_⟩
  dsimp only
  have whole := more_iff cfg (show 0 < frame.length by omega) inside
  by_cases last : j + 1 = rxSegments cfg frame.length
  · rw [if_pos last, List.drop_eq_nil_of_le (by rw [length_frameSegments, last])]
    exact .between
  · rw [if_neg last]
    have own := next (Nat.lt_of_not_ge (mt whole.mp last))
    refine .within fits (Nat.succ_pos _) (by omega) ?_
    -- the next descriptor is the one behind the queue
    have behind := held.ring.filled.handed.own_behind (k := 1) cfg.rxMany
    rw [← Nat.add_assoc, ← nextRx_mod, ← held.ring.dma, own] at behind
    rw [List.length_append]
    exact behind.mp rfl

/-- **The DMA goes on.** -/
theorem RxInv.dma
    (inv : RxInv cfg lossy log first queue head missing done current frames s)
    (fits : EthRxEvent.dma.Fits cfg s) :
    ∃ queue' missing' frames', RxInv cfg lossy (log ++ (dmaReceiveStep cfg s).2) first queue' head
      missing' done current frames' (dmaReceiveStep cfg s).1 := by
  have own : (s.descs s.dma).own = true ↔ queue.length < cfg.rxBufNb := by
    have behind := inv.ring.filled.handed.own_behind (k := 0)
      (Nat.lt_of_succ_lt cfg.rxMany)
    rw [Nat.add_zero, ← inv.ring.dma] at behind
    simpa using behind
  have storing := inv.storing
  have next := fits
  dsimp only [EthRxEvent.Fits, EthRx.left] at next
  unfold dmaReceiveStep
  generalize at_ : s.storing = stage at storing next
  cases storing with
  | between =>
      dsimp only at next ⊢
      cases waits : s.fifo with
      | nil =>
          rw [List.append_nil]
          exact ⟨queue, [], frames, inv⟩
      | cons frame fifo =>
          rw [waits] at next
          have sized := inv.fifo frame (by rw [waits]; exact List.mem_cons_self)
          dsimp only
          by_cases free : (s.descs s.dma).own = true
          · rw [if_pos free]
            obtain ⟨missing', stored⟩ := (inv.toRxQueue.accept waits).store (j := 0) sized
              (Nat.succ_pos _) (own.mp free) fun long => next frame rfl (by simpa using long) free
            rw [Nat.zero_mul, List.drop_zero] at stored
            exact ⟨_, missing', _, stored⟩
          · rw [if_neg free]
            refine ⟨queue, [], frames, ⟨inv.ring.congr rfl rfl rfl, inv.stored, inv.inside,
              inv.sized, ?_, inv.stage, ?_, ?_⟩, ?_⟩
            · intro other member
              exact inv.fifo other (by rw [waits]; exact List.mem_cons_of_mem _ member)
            · rw [storedFrames_append, ← inv.conserved]
              exact List.append_nil _
            · rw [receivedFrames_append]
              show List.Forall₂ _ _ (_ ++ [])
              rw [List.append_nil]
              exact inv.received
            · exact .between
  | @within frame j sized started more room =>
      dsimp only at next ⊢
      rw [if_pos (own.mpr room), List.append_nil]
      obtain ⟨missing', stored⟩ := inv.toRxQueue.store sized more room
        fun long => next _ rfl long (own.mpr room)
      rw [decide_eq_false (Nat.ne_of_gt started)] at stored
      exact ⟨_, missing', frames, stored⟩

/-- The descriptor that `HAL_ETH_GetReceivedFrame` looks at is released exactly when it has
looked at all that wait. -/
theorem RxInv.own_rxDesc
    (inv : RxInv cfg lossy log first queue [] missing done [] frames s) (idle : s.pc = .idle) :
    (s.descs s.rxDesc).own = false ↔ s.infos.segCount < queue.length := by
  have stage := inv.stage
  have handed := inv.ring.filled.handed
  rw [idle] at stage
  cases stage with
  | idle at_ start few within =>
      rw [at_]
      have flags := handed.flags s.infos.segCount
      constructor
      · intro released
        by_contra looked
        have all : s.infos.segCount = queue.length := by omega
        have full : ¬ queue.length < cfg.rxBufNb := by
          intro room
          have behind := handed.own_behind (k := 0) (Nat.lt_of_succ_lt cfg.rxMany)
          rw [Nat.add_zero, ← all, released] at behind
          have free := behind.mpr (all ▸ room)
          cases free
        -- the frame has another segment, so the DMA is within it and has found room
        rcases within with zero | ⟨frame, rest, rfl, more⟩
        · have many := cfg.rxMany
          omega
        · have length := congrArg List.length inv.stored
          rw [List.flatMap_cons] at length
          simp only [List.length_append, List.length_nil, length_frameSegments] at length
          have storing := inv.storing
          generalize s.storing = stored at storing
          cases storing with
          | between =>
              rw [List.length_nil] at length
              omega
          | within fits started more room => exact full room
      · intro waits
        have flag := flags (Nat.lt_of_lt_of_le waits handed.few)
        rw [decide_eq_true waits] at flag
        simpa using flag

/-- The descriptor holds the next segment of the first frame. -/
theorem RxInv.descs_rxDesc
    (inv : RxInv cfg lossy log first queue [] missing done [] frames s) (idle : s.pc = .idle)
    (waits : s.infos.segCount < queue.length) :
    ∃ frame rest, frames = frame :: rest ∧
      s.infos.segCount < rxSegments cfg frame.length ∧
      s.descs s.rxDesc = ⟨false, s.infos.segCount = 0,
        s.infos.segCount + 1 = rxSegments cfg frame.length,
        if s.infos.segCount + 1 = rxSegments cfg frame.length then frame.length else 0⟩ := by
  have stage := inv.stage
  have stored := inv.stored
  rw [idle] at stage
  cases stage with
  | idle at_ start few within =>
      obtain ⟨frame, rest, rfl, more⟩ : ∃ frame rest, frames = frame :: rest ∧
          s.infos.segCount < rxSegments cfg frame.length := by
        rcases within with zero | found
        · cases frames with
          | nil =>
              rw [List.flatMap_nil, List.append_nil] at stored
              rw [(List.append_eq_nil_iff.mp stored).1] at waits
              exact absurd waits (Nat.not_lt_zero _)
          | cons frame rest =>
              rw [zero]
              exact ⟨frame, rest, rfl, Nat.succ_pos _⟩
        · exact found
      refine ⟨frame, rest, rfl, more, ?_⟩
      have holds := inv.ring.filled.slots s.infos.segCount waits
      have within : s.infos.segCount < (frameSegments cfg frame).length := by
        rw [length_frameSegments]
        exact more
      have entry := congrArg (·[s.infos.segCount]?) stored
      rw [List.nil_append, List.flatMap_cons, List.getElem?_append_left waits,
        List.getElem?_append_left within, List.getElem?_eq_getElem waits,
        List.getElem?_eq_getElem within, Option.some_inj, getElem_frameSegments] at entry
      rw [at_, holds.desc, entry]
      rfl

/-- **`HAL_ETH_GetReceivedFrame`** looks at one more descriptor, if one waits, and finds the
frame at its last segment. -/
theorem RxInv.getReceivedFrame_spec
    (inv : RxInv cfg lossy log first queue [] missing done [] frames s) (idle : s.pc = .idle) :
    queue.length ≤ s.infos.segCount ∧ getReceivedFrame cfg s = (s, false) ∨
      ∃ frame rest infos, frames = frame :: rest ∧ s.infos.segCount < queue.length ∧
        infos.segCount = s.infos.segCount + 1 ∧ infos.fsRxDesc = first % cfg.rxBufNb ∧
        (infos.segCount < rxSegments cfg frame.length ∧
            getReceivedFrame cfg s = ({ s with
              infos := infos
              rxDesc := (first + infos.segCount) % cfg.rxBufNb }, false) ∨
          infos.segCount = rxSegments cfg frame.length ∧ infos.length = frame.length - 4 ∧
            getReceivedFrame cfg s = ({ s with
              infos := infos
              rxDesc := (first + infos.segCount) % cfg.rxBufNb }, true)) := by
  have own := inv.own_rxDesc idle
  by_cases waits : s.infos.segCount < queue.length
  · right
    obtain ⟨frame, rest, rfl, more, desc⟩ := inv.descs_rxDesc idle waits
    have stage := inv.stage
    rw [idle] at stage
    cases stage with
    | idle at_ start few within =>
        have next : cfg.nextRx s.rxDesc = (first + (s.infos.segCount + 1)) % cfg.rxBufNb := by
          rw [at_, nextRx_mod]
          rfl
        unfold getReceivedFrame
        rw [desc]
        dsimp only
        rw [if_neg Bool.false_ne_true, next]
        by_cases last : s.infos.segCount + 1 = rxSegments cfg frame.length
        · obtain ⟨sized, short⟩ := inv.sized frame List.mem_cons_self
          have length : (frame.length + (2 ^ 32 - 4)) % 2 ^ 32 = frame.length - 4 := by omega
          rw [if_pos (decide_eq_true last), if_pos last, length]
          refine ⟨frame, rest, ⟨s.infos.segCount + 1,
            if s.infos.segCount + 1 = 1 then s.rxDesc else s.infos.fsRxDesc, frame.length - 4⟩,
            rfl, waits, rfl, ?_, .inr ⟨last, rfl, rfl⟩⟩
          dsimp only
          split
          · rename_i one
            rw [at_, Nat.succ.inj one, Nat.add_zero]
          · rename_i several
            exact start (by omega)
        · rw [if_neg (by simpa using last)]
          by_cases zero : s.infos.segCount = 0
          · rw [if_pos (decide_eq_true zero)]
            rw [zero] at last
            refine ⟨frame, rest, ⟨1, s.rxDesc, s.infos.length⟩, rfl, waits, ?_, ?_,
              .inl ⟨?_, ?_⟩⟩
            · rw [zero]
            · rw [at_, zero, Nat.add_zero]
            · dsimp only
              omega
            · rw [zero]
          · rw [if_neg (by simpa using zero)]
            refine ⟨frame, rest, { s.infos with segCount := s.infos.segCount + 1 }, rfl, waits,
              rfl, start (by omega), .inl ⟨?_, rfl⟩⟩
            dsimp only
            omega
  · left
    have released : (s.descs s.rxDesc).own = true := by
      rw [← Bool.not_eq_false, own]
      exact waits
    unfold getReceivedFrame
    dsimp only
    rw [if_pos released]
    exact ⟨Nat.le_of_not_lt waits, rfl⟩

/-- How many segments the program has to look at. -/
def unseen (cfg : EthConfig) (frames : List (List UInt8)) (s : EthRx) : Nat :=
  (frames.flatMap (frameSegments cfg)).length - if s.pc = .idle then s.infos.segCount else 0

/-- **The main loop calls `ethernetif_input`.** -/
theorem RxInv.poll
    (inv : RxInv cfg lossy log first queue [] missing done [] frames s) (idle : s.pc = .idle)
    {pbufAlloc : Nat → Option (List Nat)}
    (chains : ∀ len lens, pbufAlloc len = some lens → lens.sum = len)
    (lost : ∀ len, 0 < len → pbufAlloc len = none → lossy) :
    ∃ head' current' frames', RxInv cfg lossy log first queue head' missing done current' frames'
        (startInput cfg s pbufAlloc) ∧
      (missing = [] → frames ≠ [] →
        unseen cfg frames' (startInput cfg s pbufAlloc) < unseen cfg frames s) := by
  have stored := inv.stored
  have length := congrArg List.length stored
  rw [List.length_append, List.nil_append] at length
  have conserved := inv.conserved
  rcases inv.getReceivedFrame_spec idle with ⟨all, found⟩ | ⟨frame, rest, infos, rfl, waits, count,
    start, ⟨more, found⟩ | ⟨last, size, found⟩⟩
  · unfold startInput
    rw [found]
    refine ⟨[], [], frames, inv, ?_⟩
    -- all frames are in the buffers, and the program has looked at less than one of them
    rintro rfl some
    have stage := inv.stage
    rw [idle] at stage
    rw [List.length_nil, Nat.add_zero] at length
    cases stage with
    | idle at_ start few within =>
        rcases within with zero | ⟨frame, rest, rfl, more⟩
        · cases frames with
          | nil => exact absurd rfl some
          | cons frame rest =>
              rw [List.flatMap_cons, List.length_append, length_frameSegments] at length
              have positive : 0 < rxSegments cfg frame.length := Nat.succ_pos _
              omega
        · rw [List.flatMap_cons, List.length_append, length_frameSegments] at length
          omega
  · unfold startInput
    rw [found]
    dsimp only
    rw [if_neg Bool.false_ne_true]
    refine ⟨[], [], frame :: rest, ⟨⟨inv.ring.congr rfl rfl rfl, stored, inv.inside, inv.sized,
      inv.fifo, ?_, conserved, inv.received⟩, inv.storing⟩, ?_⟩
    · show InputStage cfg lossy first _ _ _ s.pc [] [] _
      rw [idle]
      refine .idle rfl (fun _ => start) ?_ (.inr ⟨frame, rest, rfl, more⟩)
      dsimp only
      omega
    · rintro rfl some
      rw [List.length_nil, Nat.add_zero] at length
      unfold unseen
      show _ - (if s.pc = .idle then infos.segCount else 0) < _
      rw [if_pos idle, if_pos idle, ← length, count]
      omega
  · obtain ⟨sized, short⟩ := inv.sized frame List.mem_cons_self
    have len : (frame.length - 4) % 2 ^ 16 = frame.length - 4 := Nat.mod_eq_of_lt (by omega)
    have inside : (frameSegments cfg frame).length ≤ queue.length := by
      rw [length_frameSegments, ← last, count]
      exact waits
    rw [List.nil_append, List.flatMap_cons] at stored
    have moved : storedFrames log = done ++ [frame] ++ rest := by
      rw [conserved, List.append_nil, List.append_assoc]
      rfl
    have found' : Found cfg frame first ((first + infos.segCount) % cfg.rxBufNb) infos :=
      ⟨sized, last, start, by rw [last]⟩
    have fewer {s' : EthRx} (pc : s'.pc ≠ .idle) : missing = [] → frame :: rest ≠ [] →
        unseen cfg rest s' < unseen cfg (frame :: rest) s := by
      rintro rfl some
      rw [List.flatMap_cons, List.length_append, List.length_nil, length_frameSegments] at length
      unfold unseen
      rw [if_pos idle, if_neg pc, List.flatMap_cons, List.length_append, length_frameSegments]
      omega
    unfold startInput
    rw [found]
    dsimp only
    rw [if_pos rfl, size, len, if_pos (by omega)]
    cases answer : pbufAlloc (frame.length - 4) with
    | some lens =>
        refine ⟨frameSegments cfg frame, [frame], rest, ⟨⟨inv.ring.congr rfl rfl rfl, stored,
          inside, ?_, inv.fifo, ?_, moved, inv.received⟩, inv.storing⟩, fewer (by simp)⟩
        · exact fun other member => inv.sized other (List.mem_cons_of_mem _ member)
        · have stage : InputStage cfg lossy first queue.length
              ((first + infos.segCount) % cfg.rxBufNb) infos
              (.next [] lens ((first + 0) % cfg.rxBufNb) 0) [frame] (frameSegments cfg frame)
              rest := by
            refine .next found' (Nat.zero_le _) ?_ ?_
            · rw [chains _ _ answer, Nat.zero_mul, Nat.zero_add]
            · rw [Nat.zero_mul, List.take_zero]
              rfl
          rw [Nat.add_zero, ← start] at stage
          exact stage
    | none =>
        refine ⟨frameSegments cfg frame, [frame], rest, ⟨⟨inv.ring.congr rfl rfl rfl, stored,
          inside, ?_, inv.fifo, ?_, moved, inv.received⟩, inv.storing⟩, fewer (by simp)⟩
        · exact fun other member => inv.sized other (List.mem_cons_of_mem _ member)
        · have stage : InputStage cfg lossy first queue.length
              ((first + infos.segCount) % cfg.rxBufNb) infos
              (.release none (first % cfg.rxBufNb) 0) [frame]
              ((frameSegments cfg frame).drop 0) rest :=
            .release first found' (Nat.add_zero _) (Nat.zero_le _) (lost _ (by omega) answer)
          rw [List.drop_zero, ← start] at stage
          exact stage

/-- What the program takes out of a buffer goes on with the frame. -/
theorem RxInv.load {frame : List UInt8} (k off len : Nat)
    (inv : RxInv cfg lossy log first queue (frameSegments cfg frame) missing done current frames s)
    (inside : off + len ≤ cfg.rxBufSize)
    (within : k * cfg.rxBufSize + off + len ≤ frame.length) :
    frame.take (k * cfg.rxBufSize + off) ++
        s.rxBuff.load ((first + k) % cfg.rxBufNb * cfg.rxBufSize + off) len =
      frame.take (k * cfg.rxBufSize + off + len) := by
  -- all segments of the frame are in the queue
  obtain ⟨rest, queued⟩ : ∃ rest, queue = frameSegments cfg frame ++ rest := by
    have stored := inv.stored
    rcases List.append_eq_append_iff.mp stored with ⟨more, head, -⟩ | ⟨more, head, -⟩
    · have length := congrArg List.length head
      have inside := inv.inside
      rw [List.length_append] at length
      have none : more = [] := List.length_eq_zero_iff.mp (by omega)
      rw [none, List.append_nil] at head
      exact ⟨[], by rw [List.append_nil, head]⟩
    · exact ⟨more, head⟩
  have ring := inv.ring
  rw [queued] at ring
  rw [ring.load inside within]
  exact List.take_add.symm

/-- A step of the program that leaves the descriptors. -/
theorem RxInv.move {s' : EthRx}
    (inv : RxInv cfg lossy log first queue head missing done current frames s)
    (ring : RxRing cfg s' first queue) (fifo : s'.fifo = s.fifo) (storing : s'.storing = s.storing)
    (stage : InputStage cfg lossy first queue.length s'.rxDesc s'.infos s'.pc current head frames) :
    RxInv cfg lossy log first queue head missing done current frames s' := by
  refine ⟨⟨ring, inv.stored, inv.inside, inv.sized, ?_, stage, inv.conserved, inv.received⟩, ?_⟩
  · rw [fifo]
    exact inv.fifo
  · rw [storing]
    exact inv.storing

/-- **The program goes on.** -/
theorem RxInv.cpu
    (inv : RxInv cfg lossy log first queue head missing done current frames s) :
    ∃ first' queue' head' done' current', RxInv cfg lossy (log ++ (inputStep cfg s).2) first' queue'
        head' missing done' current' frames (inputStep cfg s).1 ∧
      unseen cfg frames (inputStep cfg s).1 = unseen cfg frames s := by
  have stage := inv.stage
  generalize at_ : s.pc = pc at stage
  have ring {pc : InputPc} : RxRing cfg { s with pc := pc } first queue :=
    inv.ring.congr rfl rfl rfl
  have same {s' : EthRx} (old : pc ≠ .idle) (new : s'.pc ≠ .idle) :
      unseen cfg frames s' = unseen cfg frames s := by
    unfold unseen
    rw [if_neg new, at_, if_neg old]
  cases stage with
  | idle =>
      unfold inputStep
      rw [at_, List.append_nil]
      exact ⟨first, queue, [], done, [], inv, rfl⟩
  | @next frame frames collected rest k off found inside left copied =>
      have sized := found.sized
      unfold inputStep
      rw [at_]
      cases rest with
      | nil =>
          rw [List.append_nil]
          rw [List.sum_nil, Nat.add_zero] at left
          rw [left] at copied
          refine ⟨first, queue, _, done, _, inv.move ring rfl rfl ?_, same (by simp) (by simp)⟩
          have stage : InputStage cfg lossy first queue.length s.rxDesc s.infos
              (.release (some collected) (first % cfg.rxBufNb) 0) [frame]
              ((frameSegments cfg frame).drop 0) frames :=
            .release first found (Nat.add_zero _) (Nat.zero_le _) copied
          rw [List.drop_zero, ← found.fsRxDesc] at stage
          exact stage
      | cons len rest =>
          rw [List.append_nil]
          rw [List.sum_cons] at left
          exact ⟨first, queue, _, done, _, inv.move ring rfl rfl
            (.copy found inside left (by rw [List.append_nil]; exact copied)),
            same (by simp) (by simp)⟩
  | @copy frame payload frames collected rest k off bytes found inside left copied =>
      unfold inputStep
      rw [at_]
      dsimp only
      by_cases long : cfg.rxBufSize < bytes + off
      · rw [if_pos long, List.append_nil]
        have next : cfg.nextRx ((first + k) % cfg.rxBufNb) = (first + (k + 1)) % cfg.rxBufNb :=
          nextRx_mod cfg _
        have loaded := inv.load k off (cfg.rxBufSize - off) (by omega)
          (by omega)
        rw [next]
        refine ⟨first, queue, _, done, _, inv.move ring rfl rfl (.copy found (Nat.zero_le _) ?_ ?_),
          same (by simp) (by simp)⟩
        · rw [Nat.succ_mul]
          omega
        · rw [← List.append_assoc, copied, loaded, Nat.succ_mul]
          congr 1
          omega
      · rw [if_neg long, List.append_nil]
        have loaded := inv.load k off bytes (by omega) (by omega)
        refine ⟨first, queue, _, done, _, inv.move ring rfl rfl (.next found (by omega) ?_ ?_),
          same (by simp) (by simp)⟩
        · omega
        · rw [List.flatten_append, List.flatten_singleton, ← List.append_assoc, copied, loaded,
            Nat.add_assoc]
  | @release frame frames p i base found at_base few carries =>
      unfold inputStep
      rw [at_]
      dsimp only
      rw [found.segCount]
      by_cases more : i < rxSegments cfg frame.length
      · rw [if_pos more, List.append_nil]
        have stored := inv.stored
        have inside := inv.inside
        rw [drop_frameSegments more] at stored inside
        cases queue with
        | nil => exact absurd inside (Nat.not_succ_le_zero _)
        | cons seg queue =>
            have next : cfg.nextRx (first % cfg.rxBufNb) = (first + 1) % cfg.rxBufNb :=
              nextRx_mod cfg first
            rw [next]
            refine ⟨first + 1, queue, _, done, _, ⟨⟨(inv.ring.release rfl).congr rfl rfl rfl,
              (List.cons_eq_cons.mp stored).2, Nat.le_of_succ_le_succ inside, inv.sized, inv.fifo,
              .release base found ?_ more carries, inv.conserved, inv.received⟩,
              inv.storing.fewer (Nat.le_succ _)⟩, same (by simp) (by simp)⟩
            rw [← at_base, Nat.add_assoc]
      · rw [if_neg more, List.append_nil]
        have all : i = rxSegments cfg frame.length := by omega
        have empty : (frameSegments cfg frame).drop i = [] :=
          List.drop_eq_nil_of_le (by rw [length_frameSegments, all])
        rw [empty] at inv
        refine ⟨first, queue, [], done, _, inv.move (inv.ring.congr rfl rfl rfl) rfl rfl
          (.resume ?_ rfl carries), same (by simp) (by simp)⟩
        show s.rxDesc = _
        rw [found.rxDesc, ← all, at_base]
  | @resume frame frames p at_desc none carries =>
      unfold inputStep
      rw [at_]
      have conserved := inv.conserved
      refine ⟨first, queue, [], done ++ [frame], [], ⟨⟨inv.ring.congr rfl rfl rfl, inv.stored,
        inv.inside, inv.sized, inv.fifo, ?_, ?_, ?_⟩, inv.storing⟩, ?_⟩
      · refine .idle (at_desc.trans ?_) (fun some => ?_)
          (Nat.le_trans (Nat.le_of_eq none) (Nat.zero_le _))
          (.inl none)
        · dsimp only
          rw [none, Nat.add_zero]
        · exact absurd none (Nat.ne_of_gt some)
      · rw [storedFrames_append, conserved, List.append_nil]
        cases p with
        | none => exact List.append_nil _
        | some chain => exact List.append_nil _
      · rw [receivedFrames_append]
        refine List.rel_append inv.received ?_
        cases p with
        | none => exact .cons (.inr ⟨rfl, carries⟩) .nil
        | some chain => exact .cons (.inl (congrArg some carries)) .nil
      · unfold unseen
        dsimp only
        rw [if_pos rfl, if_neg (by rw [at_]; simp), none]

/-- What a poll must answer so that no frame is dropped. -/
def EthRxEvent.LosesOnlyIf (lossy : Prop) : EthRxEvent → Prop
  | .poll pbufAlloc => ∀ len, 0 < len → pbufAlloc len = none → lossy
  | _ => True

/-- **One event.** -/
theorem RxInv.step (inv : RxInv cfg lossy log first queue head missing done current frames s)
    {e : EthRxEvent} (fits : e.Fits cfg s) (loses : e.LosesOnlyIf lossy) :
    ∃ first' queue' head' missing' done' current' frames',
      RxInv cfg lossy (log ++ (ethRxStep cfg s e).2) first' queue' head' missing' done' current'
        frames' (ethRxStep cfg s e).1 := by
  cases e with
  | frame bytes =>
      dsimp only [ethRxStep]
      rw [List.append_nil]
      refine ⟨first, queue, head, missing, done, current, frames, ⟨inv.ring.congr rfl rfl rfl,
        inv.stored, inv.inside, inv.sized, ?_, inv.stage, inv.conserved, inv.received⟩,
        inv.storing⟩
      intro other member
      rcases List.mem_append.mp member with before | last
      · exact inv.fifo other before
      · rw [List.mem_singleton.mp last]
        exact fits
  | poll pbufAlloc =>
      dsimp only [ethRxStep]
      rw [List.append_nil]
      by_cases idle : s.pc = .idle
      · rw [if_pos idle]
        have stage := inv.stage
        rw [idle] at stage
        cases stage
        obtain ⟨head', current', frames', polled, -⟩ := inv.poll idle fits loses
        exact ⟨first, queue, head', missing, done, current', frames', polled⟩
      · rw [if_neg idle]
        exact ⟨first, queue, head, missing, done, current, frames, inv⟩
  | cpu =>
      obtain ⟨first', queue', head', done', current', next, -⟩ := inv.cpu
      exact ⟨first', queue', head', missing, done', current', frames, next⟩
  | dma =>
      obtain ⟨queue', missing', frames', next⟩ := inv.dma fits
      exact ⟨first, queue', head, missing', done, current, frames', next⟩

end Steps

/-! ## Runs -/

/-- How many steps `ethernetif_input` has left at most. -/
def inputWeight (segCount : Nat) : InputPc → Nat
  | .idle => 0
  | .resume _ => 1
  | .release _ _ i => segCount - i + 2
  | .next _ rest _ _ => segCount + 3 + payloads rest
  | .copy _ _ bytes rest _ off =>
      segCount + 3 + payloads rest + 3 * bytes + if off = 0 then 1 else 2
where
  payloads (rest : List Nat) : Nat := (rest.map fun len => 3 * len + 3).sum

section Runs

variable {cfg : EthConfig} {lossy : Prop} {log : List EthRxOutput} {first : Nat}
  {queue head missing : List RxSegment} {done current frames : List (List UInt8)} {s : EthRx}

theorem inputWeight_step (running : s.pc ≠ .idle) :
    inputWeight (inputStep cfg s).1.infos.segCount (inputStep cfg s).1.pc <
      inputWeight s.infos.segCount s.pc := by
  unfold inputStep
  generalize s.pc = pc at running ⊢
  cases pc with
  | idle => exact absurd rfl running
  | next done rest desc off =>
      cases rest with
      | nil =>
          dsimp only [inputWeight]
          omega
      | cons len rest =>
          dsimp only [inputWeight, inputWeight.payloads]
          rw [List.map_cons, List.sum_cons]
          split
          · omega
          · omega
  | copy done payload bytes rest desc off =>
      have size := cfg.rxSize
      dsimp only
      split
      · dsimp only [inputWeight]
        rw [if_pos rfl]
        split
        · omega
        · omega
      · dsimp only [inputWeight]
        split
        · omega
        · omega
  | release p desc i =>
      dsimp only
      split
      · dsimp only [inputWeight]
        omega
      · dsimp only [inputWeight]
        omega
  | resume p =>
      dsimp only [inputWeight]
      omega

/-- **A call of `ethernetif_input` ends.** -/
theorem RxInv.ends
    (inv : RxInv cfg lossy log first queue head missing done current frames s) :
    ∃ m first' queue' done', RxInv cfg lossy
        (log ++ (ethRxFSM cfg).outputs s (List.replicate m .cpu)) first' queue' [] missing done' []
        frames ((ethRxFSM cfg).after s (List.replicate m .cpu)) ∧
      ((ethRxFSM cfg).after s (List.replicate m .cpu)).pc = .idle ∧
      unseen cfg frames ((ethRxFSM cfg).after s (List.replicate m .cpu)) =
        unseen cfg frames s := by
  generalize weight : inputWeight s.infos.segCount s.pc = n
  induction n using Nat.strong_induction_on generalizing log first queue head done current s with
  | _ n ih =>
      by_cases idle : s.pc = .idle
      · have stage := inv.stage
        rw [idle] at stage
        cases stage
        refine ⟨0, first, queue, done, ?_, idle, rfl⟩
        show RxInv cfg lossy (log ++ []) first queue [] missing done [] frames s
        rw [List.append_nil]
        exact inv
      · obtain ⟨first', queue', head', done', current', next, same⟩ := inv.cpu
        obtain ⟨m, first'', queue'', done'', ended, quiet, kept⟩ :=
          ih _ (weight ▸ inputWeight_step idle) next rfl
        refine ⟨m + 1, first'', queue'', done'', ?_, quiet, kept.trans same⟩
        rw [List.append_assoc] at ended
        exact ended

/-- **The main loop fetches** every frame that is there. -/
theorem RxInv.drain
    (inv : RxInv cfg lossy log first queue head [] done current frames s)
    {pbufAlloc : Nat → Option (List Nat)}
    (chains : ∀ len, ∃ lens, pbufAlloc len = some lens ∧ lens.sum = len) :
    ∃ later : List EthRxEvent, (∀ e ∈ later, e = .cpu ∨ e = .poll pbufAlloc) ∧
      List.Forall₂ (Delivers lossy) (storedFrames (log ++ (ethRxFSM cfg).outputs s later))
        (receivedFrames (log ++ (ethRxFSM cfg).outputs s later)) := by
  generalize left : unseen cfg frames s = n
  induction n using Nat.strong_induction_on
    generalizing log first queue head done current frames s with
  | _ n ih =>
      obtain ⟨m, first', queue', done', ended, idle, kept⟩ := inv.ends
      by_cases none : frames = []
      · refine ⟨List.replicate m .cpu, ?_, ?_⟩
        · exact fun e member => .inl (List.eq_of_mem_replicate member)
        · subst none
          have conserved := ended.conserved
          rw [List.append_nil, List.append_nil] at conserved
          rw [conserved]
          exact ended.received
      · have total : ∀ len lens, pbufAlloc len = some lens → lens.sum = len := by
          intro len lens answer
          obtain ⟨lens', found, sum⟩ := chains len
          rw [found] at answer
          exact Option.some.inj answer ▸ sum
        have never : ∀ len, 0 < len → pbufAlloc len = Option.none → lossy := by
          intro len positive answer
          obtain ⟨lens', found, sum⟩ := chains len
          rw [found] at answer
          cases answer
        obtain ⟨head', current', frames', polled, fewer⟩ := ended.poll idle total never
        have less := fewer rfl none
        rw [kept, left] at less
        obtain ⟨later, kinds, delivered⟩ := ih _ less polled rfl
        refine ⟨List.replicate m .cpu ++ .poll pbufAlloc :: later, ?_, ?_⟩
        · intro e member
          rcases List.mem_append.mp member with before | behind
          · exact .inl (List.eq_of_mem_replicate before)
          · rcases List.mem_cons.mp behind with rfl | last
            · exact .inr rfl
            · exact kinds e last
        · have event : (ethRxFSM cfg).next
              ((ethRxFSM cfg).after s (List.replicate m .cpu)) (.poll pbufAlloc) =
              startInput cfg ((ethRxFSM cfg).after s (List.replicate m .cpu)) pbufAlloc :=
            if_pos idle
          have silent : (ethRxFSM cfg).emit
              ((ethRxFSM cfg).after s (List.replicate m .cpu)) (.poll pbufAlloc) = [] := rfl
          rw [Fsm.outputs_append, Fsm.outputs_cons, event, silent, List.nil_append,
            ← List.append_assoc]
          exact delivered

theorem rxInv_init (cfg : EthConfig) (lossy : Prop) (memory : Mem UInt8) :
    RxInv cfg lossy [] 0 [] [] [] [] [] [] (EthRx.init memory) := by
  refine ⟨⟨⟨.none fun _ => rfl, ?_⟩, rfl, Nat.le_refl _, ?_, ?_, ?_, rfl, .nil⟩, .between⟩
  · exact (Nat.zero_mod _).symm
  · intro frame member
    cases member
  · intro frame member
    cases member
  · refine .idle (Nat.zero_mod _).symm (fun some => ?_) (Nat.le_refl _) (.inl rfl)
    exact absurd some (Nat.lt_irrefl 0)

/-- **A run.** -/
theorem rxInv_run {memory : Mem UInt8} {events : List EthRxEvent}
    (steps : (ethRxFSM cfg).EveryStep (fun s e => e.Fits cfg s) (EthRx.init memory) events)
    (loses : ∀ e ∈ events, e.LosesOnlyIf lossy) :
    ∃ first queue head missing done current frames,
      RxInv cfg lossy ((ethRxFSM cfg).outputs (EthRx.init memory) events) first queue head missing
        done current frames ((ethRxFSM cfg).after (EthRx.init memory) events) := by
  have both : (ethRxFSM cfg).EveryStep (fun s e => e.Fits cfg s ∧ e.LosesOnlyIf lossy)
      (EthRx.init memory) events := by
    rw [Fsm.everyStep_and]
    refine ⟨steps, ?_⟩
    rw [Fsm.everyStep_iff]
    rintro pre e post rfl
    exact loses e (List.mem_append_right _ List.mem_cons_self)
  have init : ∃ first queue head missing done current frames,
      RxInv cfg lossy [] first queue head missing done current frames (.init memory) :=
    ⟨0, [], [], [], [], [], [], rxInv_init cfg lossy memory⟩
  have run := (ethRxFSM cfg).invariant_outputs
    (I := fun log s => ∃ first queue head missing done current frames,
      RxInv cfg lossy log first queue head missing done current frames s) ?_ init both
  · exact run
  · rintro log s e ⟨first, queue, head, missing, done, current, frames, inv⟩ ⟨fits, loses⟩
    exact inv.step fits loses

/-- **Frames are received in order, each once and without its checksum**, whatever the order in
which the main loop and the DMA go on; none is dropped unless `pbuf_alloc` fails, and polling
fetches all that are stored. -/
theorem ethernet_receives_in_order (cfg : EthConfig) (memory : Mem UInt8)
    (events : List EthRxEvent)
    (steps : (ethRxFSM cfg).EveryStep (fun s e => e.Fits cfg s) (EthRx.init memory) events) :
    let M := ethRxFSM cfg
    let init := EthRx.init memory
    let lossy := ∃ pbufAlloc len, EthRxEvent.poll pbufAlloc ∈ events ∧ 0 < len ∧
      pbufAlloc len = none
    (∃ waiting taken, storedFrames (M.outputs init events) = taken ++ waiting ∧
        List.Forall₂ (Delivers lossy) taken (receivedFrames (M.outputs init events))) ∧
      ((M.after init events).storing = none →
        ∀ pbufAlloc, (∀ len, ∃ lens, pbufAlloc len = some lens ∧ lens.sum = len) →
          ∃ later : List EthRxEvent, (∀ e ∈ later, e = .cpu ∨ e = .poll pbufAlloc) ∧
            List.Forall₂ (Delivers lossy)
              (storedFrames (M.outputs init (events ++ later)))
              (receivedFrames (M.outputs init (events ++ later)))) := by
  intro M init lossy
  have loses : ∀ e ∈ events, e.LosesOnlyIf lossy := by
    intro e member
    cases e with
    | poll pbufAlloc => exact fun len positive answer => ⟨pbufAlloc, len, member, positive, answer⟩
    | frame bytes => exact trivial
    | cpu => exact trivial
    | dma => exact trivial
  obtain ⟨first, queue, head, missing, done, current, frames, inv⟩ := rxInv_run steps loses
  refine ⟨⟨current ++ frames, done, ?_, inv.received⟩, ?_⟩
  · rw [inv.conserved, List.append_assoc]
  · intro between pbufAlloc chains
    have storing := inv.storing
    rw [between] at storing
    cases storing
    obtain ⟨later, kinds, delivered⟩ := inv.drain chains
    refine ⟨later, kinds, ?_⟩
    rw [Fsm.outputs_append]
    exact delivered

theorem ethernet_receives_in_order_frame :
    let M := ethRxFSM olympusEth
    let init := EthRx.init fun _ => 0
    let events := [.frame [1, 2, 3, 4, 5, 6], .dma, .poll fun len => some [len]]
    let lossy := ∃ pbufAlloc len, EthRxEvent.poll pbufAlloc ∈ events ∧ 0 < len ∧
      pbufAlloc len = none
    ∃ later : List EthRxEvent,
      (∀ e ∈ later, e = .cpu ∨ e = .poll fun len => some [len]) ∧
        List.Forall₂ (Delivers lossy) (storedFrames (M.outputs init (events ++ later)))
          (receivedFrames (M.outputs init (events ++ later))) := by
  refine (ethernet_receives_in_order olympusEth (fun _ => 0)
    [.frame [1, 2, 3, 4, 5, 6], .dma, .poll fun len => some [len]] ?_).2 rfl
    (fun len => some [len]) fun len => ⟨[len], rfl, by simp⟩
  refine ⟨⟨by decide, by decide⟩, ?_, ?_, trivial⟩
  · intro left member long
    obtain rfl := Option.some.inj member
    exact absurd long (by decide)
  · intro len lens answer
    obtain rfl := Option.some.inj answer
    simp

end Runs

end OlympusFirmware.Olympus
