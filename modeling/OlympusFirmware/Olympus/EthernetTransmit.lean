import OlympusFirmware.Olympus.Ethernet

/-!
# Frames that are sent

The DMA runs beside `low_level_output`. Whatever the order in which the two go on, the frames
on the wire are those for which `ERR_OK` was returned, in order, each once and with its own
bytes, and the DMA never sleeps over a frame: the descriptors from the one the DMA is at up to
`heth->TxDesc` hold what has been handed over, and the program writes to the others only.

What the DMA makes of the descriptors is itself a machine over segments, `fetchFSM`.
-/

namespace OlympusFirmware.Olympus

open OlympusFirmware.Lib

/-- What a descriptor hands over. -/
structure TxSegment where
  fs : Bool
  ls : Bool
  bytes : List UInt8

/-- What the DMA fetches of a segment. -/
def fetchStep (fetched : List UInt8) (seg : TxSegment) : List UInt8 × List (List UInt8) :=
  let frame := (if seg.fs then [] else fetched) ++ seg.bytes
  if seg.ls then ([], [frame]) else (frame, [])

def fetchFSM : Fsm (List UInt8) TxSegment (List UInt8) where
  step := fetchStep

/-- The frames on the wire. -/
def sentFrames (log : List EthTxOutput) : List (List UInt8) :=
  log.filterMap fun
    | .sent frame => some frame
    | .returned .. => none

/-- The frames for which `ERR_OK` was returned; of no bytes nothing is sent. -/
def acceptedFrames (log : List EthTxOutput) : List (List UInt8) :=
  log.filterMap fun
    | .returned p .ok => if p.flatten = [] then none else some p.flatten
    | .returned _ .use | .sent _ => none

theorem sentFrames_append (log more : List EthTxOutput) :
    sentFrames (log ++ more) = sentFrames log ++ sentFrames more := List.filterMap_append

theorem acceptedFrames_append (log more : List EthTxOutput) :
    acceptedFrames (log ++ more) = acceptedFrames log ++ acceptedFrames more :=
  List.filterMap_append

theorem acceptedFrames_ok (p : List (List UInt8)) :
    acceptedFrames [.returned p .ok] = if p.flatten = [] then [] else [p.flatten] := by
  unfold acceptedFrames
  by_cases empty : p.flatten = []
  · simp only [List.filterMap_cons, List.filterMap_nil, if_pos empty]
  · simp only [List.filterMap_cons, List.filterMap_nil, if_neg empty]

/-- The buffers take the frame: lwIP keeps to `netif->mtu`. -/
def EthTxEvent.Fits (cfg : EthConfig) : EthTxEvent → Prop
  | .output p => p.flatten.length ≤ cfg.txBufNb * cfg.txBufSize
  | .cpu | .dma => True

/-- The program hands over the frame it is at. -/
def OutputPc.handing : OutputPc → Bool
  | .give .. | .resume _ => true
  | _ => false

/-- The frame that is handed over, all of it. -/
def OutputPc.handed : OutputPc → List (List UInt8)
  | .give p _ bufcount i => if i < bufcount then [] else [p.flatten]
  | .resume p => [p.flatten]
  | _ => []

section Ring

variable {cfg : EthConfig} {s : EthTx} {first : Nat} {queue : List TxSegment}

/-- Descriptor `b` holds a segment. -/
structure HoldsSegment (cfg : EthConfig) (s : EthTx) (b : Nat) (seg : TxSegment) : Prop where
  fs : (s.descs b).fs = seg.fs
  ls : (s.descs b).ls = seg.ls
  small : (s.descs b).size ≤ cfg.txBufSize
  bytes : s.txBuff.load (b * cfg.txBufSize) (s.descs b).size = seg.bytes

/-- The descriptors from the DMA's on hold what is handed over. -/
structure TxRing (cfg : EthConfig) (s : EthTx) (first : Nat) (queue : List TxSegment) :
    Prop where
  filled : Filled cfg.txBufNb (fun i => (s.descs i).own) (HoldsSegment cfg s) first queue
  dma : s.dma = first % cfg.txBufNb

theorem nextTx_mod (cfg : EthConfig) (k : Nat) :
    cfg.nextTx (k % cfg.txBufNb) = (k + 1) % cfg.txBufNb := by
  unfold EthConfig.nextTx
  rw [Nat.mod_add_mod]

theorem own_update (descs : Nat → TxDesc) (b : Nat) (desc : TxDesc) :
    (fun i => (Function.update descs b desc i).own) =
      Function.update (fun i => (descs i).own) b desc.own := by
  funext i
  by_cases same : i = b
  · rw [same, Function.update_self, Function.update_self]
  · rw [Function.update_of_ne same, Function.update_of_ne same]

theorem HoldsSegment.congr {s' : EthTx} {b : Nat} {seg : TxSegment}
    (holds : HoldsSegment cfg s b seg) (desc : s'.descs b = s.descs b)
    (txBuff : s'.txBuff = s.txBuff) : HoldsSegment cfg s' b seg := by
  refine ⟨?_, ?_, ?_, ?_⟩
  · rw [desc]
    exact holds.fs
  · rw [desc]
    exact holds.ls
  · rw [desc]
    exact holds.small
  · rw [desc, txBuff]
    exact holds.bytes

theorem HoldsSegment.of {b : Nat} {desc : TxDesc} (is : s.descs b = desc)
    (small : desc.size ≤ cfg.txBufSize) : HoldsSegment cfg s b
      ⟨desc.fs, desc.ls, s.txBuff.load (b * cfg.txBufSize) desc.size⟩ := by
  subst is
  exact ⟨rfl, rfl, small, rfl⟩

/-- The ring does not look at the other fields. -/
theorem TxRing.congr {s' : EthTx} (ring : TxRing cfg s first queue) (descs : s'.descs = s.descs)
    (txBuff : s'.txBuff = s.txBuff) (dma : s'.dma = s.dma) : TxRing cfg s' first queue := by
  refine ⟨⟨?_, ?_⟩, dma.trans ring.dma⟩
  · rw [descs]
    exact ring.filled.handed
  · intro j inside
    exact (ring.filled.slots j inside).congr (congrFun descs _) txBuff

/-- What is written to a buffer that is not handed over leaves the others. -/
theorem TxRing.store (ring : TxRing cfg s first queue) {k off : Nat} {block : List UInt8}
    (free : queue.length + k < cfg.txBufNb) (inside : off + block.length ≤ cfg.txBufSize)
    {b : Nat} (at_ : b = (first + (queue.length + k)) % cfg.txBufNb) :
    TxRing cfg { s with txBuff := s.txBuff.store (b * cfg.txBufSize + off) block } first queue := by
  refine ⟨ring.filled.others free ?_, ring.dma⟩
  intro b' seg other holds
  rw [← at_] at other
  refine ⟨holds.fs, holds.ls, holds.small, ?_⟩
  have kept := Blocks.load_store_other (m := s.txBuff) (Ne.symm other) inside
    (show 0 + (s.descs b').size ≤ cfg.txBufSize by
      rw [Nat.zero_add]
      exact holds.small)
  exact kept.trans holds.bytes

/-- **The DMA takes a descriptor.** -/
theorem TxRing.take {seg : TxSegment} (ring : TxRing cfg s first (seg :: queue)) :
    TxRing cfg { s with
      descs := Function.update s.descs s.dma { s.descs s.dma with own := false }
      dma := cfg.nextTx s.dma } (first + 1) queue := by
  refine ⟨?_, ?_⟩
  · rw [own_update, ring.dma]
    refine ring.filled.take ?_
    intro b seg other holds
    exact holds.congr (Function.update_of_ne other _ _) rfl
  · show cfg.nextTx s.dma = _
    rw [ring.dma, nextTx_mod]

/-- **The program hands over a descriptor.** -/
theorem TxRing.give (ring : TxRing cfg s first queue) (room : queue.length < cfg.txBufNb)
    (desc : TxDesc) (own : desc.own = true) (small : desc.size ≤ cfg.txBufSize) {b : Nat}
    (at_ : b = (first + queue.length) % cfg.txBufNb) :
    TxRing cfg { s with descs := Function.update s.descs b desc } first
      (queue ++ [⟨desc.fs, desc.ls, s.txBuff.load (b * cfg.txBufSize) desc.size⟩]) := by
  subst at_
  refine ⟨?_, ring.dma⟩
  rw [own_update, own]
  refine ring.filled.give room (.of (Function.update_self ..) small) ?_
  intro b seg other holds
  exact holds.congr (Function.update_of_ne other _ _) rfl

end Ring

/-! ## The program -/

/-- The bytes that have been copied lie in the buffers from `start` on, up to offset `off` of
the `k`-th. -/
structure Gathered (cfg : EthConfig) (txBuff : Mem UInt8) (start k off : Nat)
    (copied : List UInt8) : Prop where
  few : k < cfg.txBufNb
  inside : off ≤ cfg.txBufSize
  length : copied.length = k * cfg.txBufSize + off
  data : (Blocks.view cfg.txBufNb cfg.txBufSize txBuff start).load 0 copied.length = copied

/-- Where the program is, with `heth->TxDesc` and the part of the frame that is handed over.
`start` is the position of `heth->TxDesc`, before which `count` descriptors wait for the DMA. -/
inductive OutputStage (cfg : EthConfig) (txBuff : Mem UInt8) (start count : Nat) :
    OutputPc → List UInt8 → Prop
  | idle : OutputStage cfg txBuff start count .idle []
  | next {p rest : List (List UInt8)} {k off : Nat} (copied : List UInt8)
      (fits : p.flatten.length ≤ cfg.txBufNb * cfg.txBufSize)
      (cut : p.flatten = copied ++ rest.flatten) (gathered : Gathered cfg txBuff start k off copied)
      (free : copied ≠ [] → count + k < cfg.txBufNb) :
      OutputStage cfg txBuff start count
        (.next p rest ((start + k) % cfg.txBufNb) off copied.length) []
  | copy {p rest : List (List UInt8)} {left : List UInt8} {k off : Nat} (copied : List UInt8)
      (fits : p.flatten.length ≤ cfg.txBufNb * cfg.txBufSize)
      (cut : p.flatten = copied ++ (left ++ rest.flatten))
      (gathered : Gathered cfg txBuff start k off copied) (free : count + k < cfg.txBufNb) :
      OutputStage cfg txBuff start count
        (.copy p left rest ((start + k) % cfg.txBufNb) off copied.length) []
  | check {p rest : List (List UInt8)} {left : List UInt8} {k : Nat} (copied : List UInt8)
      (fits : p.flatten.length ≤ cfg.txBufNb * cfg.txBufSize)
      (cut : p.flatten = copied ++ (left ++ rest.flatten))
      (gathered : Gathered cfg txBuff start k 0 copied) :
      OutputStage cfg txBuff start count
        (.check p left rest ((start + k) % cfg.txBufNb) copied.length) []
  | transmit {p : List (List UInt8)} {k off : Nat}
      (gathered : Gathered cfg txBuff start k off p.flatten)
      (free : p.flatten ≠ [] → count + k < cfg.txBufNb) :
      OutputStage cfg txBuff start count (.transmit p p.flatten.length) []
  | give {p : List (List UInt8)} {i : Nat} (base : Nat) (some : p.flatten ≠ [])
      (at_ : base + i = start) (few : i ≤ bufcount cfg p.flatten.length)
      (free : count + bufcount cfg p.flatten.length ≤ cfg.txBufNb + i)
      (data : (Blocks.view cfg.txBufNb cfg.txBufSize txBuff base).load 0 p.flatten.length =
        p.flatten) :
      OutputStage cfg txBuff start count
        (.give p p.flatten.length (bufcount cfg p.flatten.length) i)
        (if i < bufcount cfg p.flatten.length then p.flatten.take (i * cfg.txBufSize) else [])
  | resume {p : List (List UInt8)} (some : p.flatten ≠ []) :
      OutputStage cfg txBuff start count (.resume p) []

/-- What holds after every run. -/
structure TxInv (cfg : EthConfig) (log : List EthTxOutput) (first : Nat)
    (queue : List TxSegment) (part : List UInt8) (s : EthTx) : Prop where
  ring : TxRing cfg s first queue
  txDesc : s.txDesc = (first + queue.length) % cfg.txBufNb
  stage : OutputStage cfg s.txBuff (first + queue.length) queue.length s.pc part
  part : fetchFSM.after s.fetched queue = part
  conserved : sentFrames log ++ fetchFSM.outputs s.fetched queue =
    acceptedFrames log ++ s.pc.handed
  awake : s.tbus = true → queue = [] ∨ s.pc.handing = true

section Steps

variable {cfg : EthConfig} {log : List EthTxOutput} {first start count k off : Nat}
  {queue : List TxSegment} {part copied : List UInt8} {txBuff : Mem UInt8} {s : EthTx}

/-- The DMA may have taken descriptors meanwhile. -/
theorem OutputStage.fewer {count' : Nat} {pc : OutputPc}
    (stage : OutputStage cfg txBuff start count pc part) (fewer : count' ≤ count) :
    OutputStage cfg txBuff start count' pc part := by
  cases stage with
  | idle => exact .idle
  | next copied fits cut gathered free =>
      exact .next copied fits cut gathered fun some =>
        Nat.lt_of_le_of_lt (Nat.add_le_add_right fewer _) (free some)
  | copy copied fits cut gathered free =>
      exact .copy copied fits cut gathered
        (Nat.lt_of_le_of_lt (Nat.add_le_add_right fewer _) free)
  | check copied fits cut gathered => exact .check copied fits cut gathered
  | transmit gathered free =>
      exact .transmit gathered fun some =>
        Nat.lt_of_le_of_lt (Nat.add_le_add_right fewer _) (free some)
  | give base some at_ few free data =>
      exact .give base some at_ few (Nat.le_trans (Nat.add_le_add_right fewer _) free) data
  | resume some => exact .resume some

/-- `memcpy` to a buffer. -/
theorem Gathered.grow (gathered : Gathered cfg txBuff start k off copied) {block : List UInt8}
    (inside : off + block.length ≤ cfg.txBufSize) :
    Gathered cfg (txBuff.store ((start + k) % cfg.txBufNb * cfg.txBufSize + off) block) start k
      (off + block.length) (copied ++ block) := by
  have length : (copied ++ block).length = k * cfg.txBufSize + off + block.length := by
    rw [List.length_append, gathered.length]
  refine ⟨gathered.few, inside, ?_, ?_⟩
  · rw [length, Nat.add_assoc]
  · have data := gathered.data
    rw [gathered.length] at data
    rw [length, Blocks.load_view_store gathered.few inside, data]

/-- The end of a buffer is the start of the next. -/
theorem Gathered.wrap (gathered : Gathered cfg txBuff start k cfg.txBufSize copied)
    (more : copied.length < cfg.txBufNb * cfg.txBufSize) :
    Gathered cfg txBuff start (k + 1) 0 copied := by
  have length : copied.length = (k + 1) * cfg.txBufSize := by
    rw [gathered.length, Nat.succ_mul]
  refine ⟨?_, Nat.zero_le _, length, gathered.data⟩
  rw [length] at more
  exact Nat.lt_of_mul_lt_mul_right more

/-- `bufcount` buffers take the frame, and one less does not. -/
theorem bufcount_spec (cfg : EthConfig) {len : Nat} (some : 0 < len) :
    ∃ c, bufcount cfg len = c + 1 ∧ c * cfg.txBufSize < len ∧
      len ≤ (c + 1) * cfg.txBufSize := by
  have size := cfg.txSize
  have whole := Nat.div_add_mod len cfg.txBufSize
  have rest := Nat.mod_lt len size
  rw [Nat.mul_comm] at whole
  unfold bufcount
  by_cases long : cfg.txBufSize < len
  · rw [if_pos long]
    by_cases left : len % cfg.txBufSize ≠ 0
    · rw [if_pos left]
      refine ⟨len / cfg.txBufSize, rfl, by omega, ?_⟩
      rw [Nat.succ_mul]
      omega
    · rw [if_neg left]
      have positive : 0 < len / cfg.txBufSize := Nat.div_pos (Nat.le_of_lt long) size
      obtain ⟨c, quotient⟩ := Nat.exists_eq_succ_of_ne_zero (Nat.ne_of_gt positive)
      rw [quotient, Nat.succ_mul] at whole
      refine ⟨c, quotient, by omega, ?_⟩
      rw [Nat.succ_mul]
      omega
  · rw [if_neg long]
    exact ⟨0, rfl, by omega, by omega⟩

/-- The bytes of a frame in its descriptor `i`, when `c` is the last. -/
def segmentSize (cfg : EthConfig) (len c i : Nat) : Nat :=
  if i = c then len - c * cfg.txBufSize else cfg.txBufSize

theorem segmentSize_le {len c : Nat} (short : len ≤ (c + 1) * cfg.txBufSize) (i : Nat) :
    segmentSize cfg len c i ≤ cfg.txBufSize := by
  unfold segmentSize
  split
  · rw [Nat.succ_mul] at short
    omega
  · exact Nat.le_refl _

theorem segmentSize_within {len c i : Nat} (long : c * cfg.txBufSize < len) (few : i ≤ c) :
    i * cfg.txBufSize + segmentSize cfg len c i ≤ len := by
  unfold segmentSize
  split
  · rename_i last
    rw [last]
    omega
  · have before := Nat.mul_le_mul_right cfg.txBufSize (show i + 1 ≤ c by omega)
    rw [Nat.succ_mul] at before
    omega

/-- What the descriptors of a frame get. -/
theorem giveDescriptor_eq {len c i : Nat} (count : bufcount cfg len = c + 1)
    (long : c * cfg.txBufSize < len) (short : len ≤ (c + 1) * cfg.txBufSize) (few : i ≤ c) :
    giveDescriptor cfg s len (c + 1) i = { s with
      descs := Function.update s.descs s.txDesc
        ⟨true, i = 0, i = c, segmentSize cfg len c i⟩
      txDesc := cfg.nextTx s.txDesc } := by
  have field := cfg.txFits
  rw [Nat.succ_mul] at short
  have last : (len - c * cfg.txBufSize) % 2 ^ 13 = len - c * cfg.txBufSize :=
    Nat.mod_eq_of_lt (by omega)
  unfold giveDescriptor segmentSize
  dsimp only
  rw [Nat.add_sub_cancel]
  cases c with
  | zero =>
      obtain rfl : i = 0 := Nat.le_zero.mp few
      rw [Nat.zero_mul, Nat.sub_zero] at last
      rw [if_pos rfl, if_pos rfl, Nat.zero_mul, Nat.sub_zero, last]
      rfl
  | succ c =>
      rw [if_neg (by omega)]
      by_cases isLast : i = c + 1
      · rw [if_pos isLast, if_pos isLast, last]
        simp [isLast]
      · rw [if_neg isLast, if_neg isLast, Nat.mod_eq_of_lt field]
        simp [isLast]

/-- A step within `low_level_output` that hands over nothing. -/
theorem TxInv.move {s' : EthTx} (inv : TxInv cfg log first queue part s)
    (ring : TxRing cfg s' first queue) (txDesc : s'.txDesc = s.txDesc)
    (fetched : s'.fetched = s.fetched) (handed : s'.pc.handed = s.pc.handed)
    (stage : OutputStage cfg s'.txBuff (first + queue.length) queue.length s'.pc part)
    (awake : s'.tbus = true → queue = [] ∨ s'.pc.handing = true) :
    TxInv cfg log first queue part s' := by
  refine ⟨ring, txDesc.trans inv.txDesc, stage, ?_, ?_, awake⟩
  · rw [fetched]
    exact inv.part
  · rw [fetched, handed]
    exact inv.conserved

/-- `low_level_output` returns, and nothing of the frame is handed over. -/
theorem TxInv.returns {p : List (List UInt8)} {errval : OutputErr}
    (inv : TxInv cfg log first queue [] s) (quiet : s.pc.handing = false)
    (none : acceptedFrames [.returned p errval] = []) (unhanded : s.pc.handed = []) :
    TxInv cfg (log ++ [.returned p errval]) first queue [] { s with pc := .idle } := by
  have conserved := inv.conserved
  rw [unhanded] at conserved
  refine ⟨inv.ring.congr rfl rfl rfl, inv.txDesc, .idle, inv.part, ?_, ?_⟩
  · rw [sentFrames_append, acceptedFrames_append, none, List.append_nil]
    show sentFrames log ++ [] ++ _ = acceptedFrames log ++ []
    rw [List.append_nil]
    exact conserved
  · intro asleep
    rcases inv.awake asleep with empty | handing
    · exact .inl empty
    · rw [quiet] at handing
      cases handing

/-- The bytes of segment `i` of a frame. -/
theorem load_segment {frame : List UInt8} {base i size : Nat}
    (data : (Blocks.view cfg.txBufNb cfg.txBufSize txBuff base).load 0 frame.length = frame)
    (within : i * cfg.txBufSize + size ≤ frame.length) (small : size ≤ cfg.txBufSize) :
    frame.take (i * cfg.txBufSize) ++
        txBuff.load ((base + i) % cfg.txBufNb * cfg.txBufSize) size =
      frame.take (i * cfg.txBufSize + size) := by
  have block : (Blocks.view cfg.txBufNb cfg.txBufSize txBuff base).load (i * cfg.txBufSize + 0)
      size = txBuff.load ((base + i) % cfg.txBufNb * cfg.txBufSize + 0) size :=
    Blocks.load_view i (by omega)
  rw [Nat.add_zero, Nat.add_zero] at block
  rw [← block, ← data, Mem.load_take (by omega), Mem.load_take within, Mem.load_add, Nat.zero_add]

/-- What the DMA makes of segment `i`. -/
theorem fetchStep_segment {frame block : List UInt8} {c i : Nat}
    (long : c * cfg.txBufSize < frame.length)
    (bytes : frame.take (i * cfg.txBufSize) ++ block =
      frame.take (i * cfg.txBufSize + segmentSize cfg frame.length c i)) :
    fetchStep (frame.take (i * cfg.txBufSize)) ⟨i = 0, i = c, block⟩ =
      if i = c then ([], [frame]) else (frame.take ((i + 1) * cfg.txBufSize), []) := by
  have start : (if decide (i = 0) then [] else frame.take (i * cfg.txBufSize)) =
      frame.take (i * cfg.txBufSize) := by
    split
    · rename_i zero
      rw [of_decide_eq_true zero, Nat.zero_mul, List.take_zero]
    · rfl
  unfold fetchStep
  dsimp only
  rw [start, bytes]
  unfold segmentSize
  by_cases last : i = c
  · rw [if_pos last, if_pos (decide_eq_true last), if_pos last, List.take_of_length_le]
    rw [last]
    omega
  · rw [if_neg last, if_neg (by simpa using last), if_neg last, Nat.succ_mul]

/-- **A descriptor of the frame is handed over.** -/
theorem TxInv.give {p : List (List UInt8)} {i : Nat}
    (inv : TxInv cfg log first queue part s)
    (pc : s.pc = .give p p.flatten.length (bufcount cfg p.flatten.length) i)
    (more : i < bufcount cfg p.flatten.length) :
    ∃ queue' part', TxInv cfg log first queue' part'
      { giveDescriptor cfg s p.flatten.length (bufcount cfg p.flatten.length) i with
        pc := .give p p.flatten.length (bufcount cfg p.flatten.length) (i + 1) } := by
  have stage := inv.stage
  have partNow := inv.part
  have conserved := inv.conserved
  rw [pc] at stage conserved
  cases stage with
  | give base some at_ few free data =>
      rw [if_pos more] at partNow
      dsimp only [OutputPc.handed] at conserved
      rw [if_pos more, List.append_nil] at conserved
      obtain ⟨c, count, long, short⟩ :=
        bufcount_spec cfg (List.length_pos_iff.mpr some)
      rw [count] at more free ⊢
      have last : i ≤ c := Nat.le_of_lt_succ more
      have small := segmentSize_le short i
      have desc : s.txDesc = (base + i) % cfg.txBufNb := by
        rw [inv.txDesc, at_]
      have bytes := load_segment data (segmentSize_within long last) small
      rw [← desc] at bytes
      have fetches := fetchStep_segment long bytes
      rw [giveDescriptor_eq count long short last]
      have ring := inv.ring.give (by omega)
        ⟨true, i = 0, i = c, segmentSize cfg p.flatten.length c i⟩ rfl small inv.txDesc
      refine ⟨_, if i + 1 < c + 1 then p.flatten.take ((i + 1) * cfg.txBufSize) else [],
        ring.congr rfl rfl rfl, ?_, ?_, ?_, ?_, ?_⟩
      · show cfg.nextTx s.txDesc = _
        rw [inv.txDesc, nextTx_mod, List.length_append]
        rfl
      · rw [List.length_append, List.length_singleton, ← Nat.add_assoc, ← count]
        exact .give base some (by omega) (by omega) (by omega) data
      · rw [Fsm.after_append, partNow]
        show (fetchStep _ _).1 = _
        rw [fetches]
        by_cases last : i = c
        · rw [if_pos last, if_neg (by omega)]
        · rw [if_neg last, if_pos (by omega)]
      · rw [Fsm.outputs_append, partNow, ← List.append_assoc, conserved, Fsm.outputs_cons,
          Fsm.outputs_nil, List.append_nil]
        show acceptedFrames log ++ (fetchStep _ _).2 = acceptedFrames log ++ OutputPc.handed _
        rw [fetches]
        dsimp only [OutputPc.handed]
        by_cases last : i = c
        · rw [if_pos last, if_neg (by omega)]
        · rw [if_neg last, if_pos (by omega)]
      · exact fun _ => .inr rfl

/-- A descriptor of which the program looks at OWN is free up to it. -/
theorem TxInv.free (inv : TxInv cfg log first queue part s) (few : k < cfg.txBufNb)
    (own : (s.descs ((first + queue.length + k) % cfg.txBufNb)).own ≠ true) :
    queue.length + k < cfg.txBufNb := by
  rw [Nat.add_assoc] at own
  exact (inv.ring.filled.handed.own_behind few).mp (Bool.eq_false_iff.mpr own)

/-- **The program goes on.** -/
theorem TxInv.cpu (inv : TxInv cfg log first queue part s) :
    ∃ queue' part', TxInv cfg (log ++ (outputStep cfg s).2) first queue' part'
      (outputStep cfg s).1 := by
  have stage := inv.stage
  have awake := inv.awake
  generalize at_ : s.pc = pc at stage awake
  have ring {pc : OutputPc} : TxRing cfg { s with pc := pc } first queue :=
    inv.ring.congr rfl rfl rfl
  cases stage with
  | idle =>
      unfold outputStep
      rw [at_, List.append_nil]
      exact ⟨queue, [], inv⟩
  | @next p rest k off copied fits cut gathered free =>
      cases rest with
      | nil =>
          rw [List.flatten_nil, List.append_nil] at cut
          subst cut
          unfold outputStep
          rw [at_, List.append_nil]
          exact ⟨queue, [], inv.move ring rfl rfl (by rw [at_]; rfl) (.transmit gathered free)
            awake⟩
      | cons q rest =>
          unfold outputStep
          rw [at_]
          dsimp only
          by_cases own : (s.descs ((first + queue.length + k) % cfg.txBufNb)).own = true
          · rw [if_pos own]
            exact ⟨queue, [], inv.returns (by rw [at_]; rfl) rfl (by rw [at_]; rfl)⟩
          · rw [if_neg own, List.append_nil]
            exact ⟨queue, [], inv.move ring rfl rfl (by rw [at_]; rfl)
              (.copy copied fits cut gathered (inv.free gathered.few own)) awake⟩
  | @copy p rest left k off copied fits cut gathered free =>
      have place : (first + queue.length + k) % cfg.txBufNb =
          (first + (queue.length + k)) % cfg.txBufNb := by
        rw [Nat.add_assoc]
      unfold outputStep
      rw [at_]
      dsimp only
      by_cases long : cfg.txBufSize < left.length + off
      · rw [if_pos long, List.append_nil]
        have inside := gathered.inside
        have taken : (left.take (cfg.txBufSize - off)).length = cfg.txBufSize - off := by
          rw [List.length_take]
          omega
        have full : off + (left.take (cfg.txBufSize - off)).length = cfg.txBufSize := by omega
        have grown := gathered.grow (Nat.le_of_eq full)
        rw [full] at grown
        have length : (copied ++ left.take (cfg.txBufSize - off)).length =
            copied.length + (cfg.txBufSize - off) := by
          rw [List.length_append, taken]
        have whole := congrArg List.length cut
        rw [List.length_append, List.length_append] at whole
        have wrapped := grown.wrap (by rw [length]; omega)
        have next : cfg.nextTx ((first + queue.length + k) % cfg.txBufNb) =
            (first + queue.length + (k + 1)) % cfg.txBufNb := nextTx_mod cfg _
        rw [next, ← length]
        refine ⟨queue, [], inv.move ((inv.ring.store free (Nat.le_of_eq full) place).congr
          rfl rfl rfl) rfl rfl (by rw [at_]; rfl) (.check _ fits ?_ wrapped) awake⟩
        rw [cut, List.append_assoc, ← List.append_assoc (left.take _), List.take_append_drop]
      · rw [if_neg long, List.append_nil]
        have full : off + left.length ≤ cfg.txBufSize := by omega
        have grown := gathered.grow full
        rw [← List.length_append]
        refine ⟨queue, [], inv.move ((inv.ring.store free full place).congr rfl rfl rfl) rfl rfl
          (by rw [at_]; rfl) (.next _ fits ?_ grown fun _ => free) awake⟩
        rw [cut, List.append_assoc]
  | @check p rest left k copied fits cut gathered =>
      unfold outputStep
      rw [at_]
      dsimp only
      by_cases own : (s.descs ((first + queue.length + k) % cfg.txBufNb)).own = true
      · rw [if_pos own]
        exact ⟨queue, [], inv.returns (by rw [at_]; rfl) rfl (by rw [at_]; rfl)⟩
      · rw [if_neg own, List.append_nil]
        exact ⟨queue, [], inv.move ring rfl rfl (by rw [at_]; rfl)
          (.copy copied fits cut gathered (inv.free gathered.few own)) awake⟩
  | @transmit p k off gathered free =>
      unfold outputStep
      rw [at_]
      dsimp only
      by_cases empty : p.flatten = []
      · rw [if_pos (.inl (by rw [empty]; rfl))]
        exact ⟨queue, [], inv.returns (by rw [at_]; rfl)
          (by rw [acceptedFrames_ok, if_pos empty]) (by rw [at_]; rfl)⟩
      · have room := free empty
        have own : (s.descs s.txDesc).own = false := by
          rw [inv.txDesc]
          exact (inv.ring.filled.handed.own_behind (k := 0) cfg.txPositive).mpr (by omega)
        have notEmpty : ¬ (p.flatten.length = 0 ∨ (s.descs s.txDesc).own = true) := by
          rw [own, List.length_eq_zero_iff]
          simpa using empty
        rw [if_neg notEmpty, List.append_nil]
        obtain ⟨c, count, long, -⟩ :=
          bufcount_spec cfg (List.length_pos_iff.mpr empty)
        have few : c < k + 1 := by
          have inside := gathered.inside
          have length := gathered.length
          refine Nat.lt_of_mul_lt_mul_right (a := cfg.txBufSize) ?_
          rw [Nat.succ_mul]
          omega
        have stage : OutputStage cfg s.txBuff (first + queue.length) queue.length
            (.give p p.flatten.length (bufcount cfg p.flatten.length) 0)
            (if 0 < bufcount cfg p.flatten.length then p.flatten.take (0 * cfg.txBufSize)
              else []) :=
          .give (first + queue.length) empty rfl (Nat.zero_le _) (by omega) gathered.data
        rw [if_pos (by omega), Nat.zero_mul, List.take_zero] at stage
        refine ⟨queue, [], inv.move ring rfl rfl ?_ stage fun _ => .inr rfl⟩
        rw [at_]
        dsimp only [OutputPc.handed]
        rw [if_pos (by omega)]
  | @give p i base some at_start few free data =>
      unfold outputStep
      rw [at_]
      dsimp only
      by_cases more : i < bufcount cfg p.flatten.length
      · rw [if_pos more, List.append_nil]
        exact inv.give at_ more
      · rw [if_neg more, List.append_nil]
        rw [if_neg more] at inv
        refine ⟨queue, [], inv.move ring rfl rfl ?_ (.resume some) fun _ => .inr rfl⟩
        rw [at_]
        dsimp only [OutputPc.handed]
        rw [if_neg more]
  | @resume p some =>
      have conserved := inv.conserved
      rw [at_] at conserved
      unfold outputStep
      rw [at_]
      refine ⟨queue, [], inv.ring.congr rfl rfl rfl, inv.txDesc, .idle, inv.part, ?_, ?_⟩
      · rw [sentFrames_append, acceptedFrames_append, acceptedFrames_ok, if_neg some]
        show sentFrames log ++ [] ++ _ = acceptedFrames log ++ [p.flatten] ++ []
        rw [List.append_nil, List.append_nil]
        exact conserved
      · intro asleep
        cases asleep

theorem dmaSendStep_pc : (dmaSendStep cfg s).1.pc = s.pc := by
  unfold dmaSendStep
  split
  · rfl
  · dsimp only
    split
    · rfl
    · rfl

/-- **The DMA takes a descriptor** that is handed over. -/
theorem TxInv.take {seg : TxSegment} (inv : TxInv cfg log first (seg :: queue) part s)
    (awake : s.tbus ≠ true) :
    TxInv cfg (log ++ (dmaSendStep cfg s).2) (first + 1) queue part (dmaSendStep cfg s).1 := by
  have waits := inv.ring.filled.handed.own_first cfg.txPositive
  rw [← inv.ring.dma] at waits
  have holds := inv.ring.filled.slots 0 (Nat.succ_pos _)
  rw [Nat.add_zero, ← inv.ring.dma, List.getElem_cons_zero] at holds
  have taken := inv.ring.take
  dsimp only at taken
  rw [holds.fs, holds.ls] at taken
  unfold dmaSendStep
  dsimp only
  rw [if_neg awake, if_pos (waits.mpr (Nat.succ_pos _)), holds.fs, holds.ls, holds.bytes]
  have sum : first + 1 + queue.length = first + (seg :: queue).length := by
    rw [List.length_cons]
    omega
  have fetched : (if seg.ls = true then []
      else (if seg.fs = true then [] else s.fetched) ++ seg.bytes) =
      fetchFSM.next s.fetched seg := by
    show _ = (fetchStep s.fetched seg).1
    unfold fetchStep
    split
    · rfl
    · rfl
  have emitted : sentFrames (if seg.ls = true then
      [.sent ((if seg.fs = true then [] else s.fetched) ++ seg.bytes)] else []) =
      fetchFSM.emit s.fetched seg := by
    show _ = (fetchStep s.fetched seg).2
    unfold fetchStep
    split
    · rfl
    · rfl
  have refused : acceptedFrames (if seg.ls = true then
      [.sent ((if seg.fs = true then [] else s.fetched) ++ seg.bytes)] else []) = [] := by
    split
    · rfl
    · rfl
  rw [fetched]
  refine ⟨taken.congr rfl rfl rfl, ?_, ?_, inv.part, ?_, ?_⟩
  · rw [sum]
    exact inv.txDesc
  · rw [sum]
    exact inv.stage.fewer (Nat.le_succ _)
  · rw [sentFrames_append, acceptedFrames_append, emitted, refused, List.append_nil,
      List.append_assoc]
    exact inv.conserved
  · exact fun tbus => absurd tbus awake

/-- **The DMA goes on.** -/
theorem TxInv.dma (inv : TxInv cfg log first queue part s) :
    ∃ first' queue', TxInv cfg (log ++ (dmaSendStep cfg s).2) first' queue' part
      (dmaSendStep cfg s).1 := by
  by_cases asleep : s.tbus = true
  · unfold dmaSendStep
    rw [if_pos asleep, List.append_nil]
    exact ⟨first, queue, inv⟩
  · cases queue with
    | nil =>
        have waits := inv.ring.filled.handed.own_first cfg.txPositive
        rw [← inv.ring.dma] at waits
        unfold dmaSendStep
        dsimp only
        rw [if_neg asleep, if_neg fun own => Nat.lt_irrefl 0 (waits.mp own), List.append_nil]
        exact ⟨first, [], inv.ring.congr rfl rfl rfl, inv.txDesc, inv.stage, inv.part,
          inv.conserved, fun _ => .inl rfl⟩
    | cons seg queue => exact ⟨first + 1, queue, inv.take asleep⟩

/-- **One event.** -/
theorem TxInv.step (inv : TxInv cfg log first queue part s) {e : EthTxEvent} (fits : e.Fits cfg) :
    ∃ first' queue' part', TxInv cfg (log ++ (ethTxStep cfg s e).2) first' queue' part'
      (ethTxStep cfg s e).1 := by
  cases e with
  | output p =>
      dsimp only [ethTxStep]
      rw [List.append_nil]
      by_cases idle : s.pc = .idle
      · rw [if_pos idle]
        have stage := inv.stage
        rw [idle] at stage
        cases stage
        have start : OutputStage cfg s.txBuff (first + queue.length) queue.length
            (.next p p ((first + queue.length + 0) % cfg.txBufNb) 0 ([] : List UInt8).length) [] :=
          .next [] fits rfl ⟨cfg.txPositive, Nat.zero_le _, by simp, rfl⟩
            fun some => absurd rfl some
        rw [Nat.add_zero, ← inv.txDesc] at start
        refine ⟨first, queue, [], inv.move (inv.ring.congr rfl rfl rfl) rfl rfl ?_ start ?_⟩
        · rw [idle]
          rfl
        · intro asleep
          rcases inv.awake asleep with empty | handing
          · exact .inl empty
          · rw [idle] at handing
            cases handing
      · rw [if_neg idle]
        exact ⟨first, queue, part, inv⟩
  | cpu => exact ⟨first, inv.cpu⟩
  | dma =>
      obtain ⟨first', queue', next⟩ := inv.dma
      exact ⟨first', queue', part, next⟩

end Steps

/-! ## Runs -/

section Runs

variable {cfg : EthConfig} {log : List EthTxOutput} {first : Nat} {queue : List TxSegment}
  {part : List UInt8} {s : EthTx}

/-- **A run.** -/
theorem TxInv.run (inv : TxInv cfg log first queue part s) {events : List EthTxEvent}
    (fits : ∀ e ∈ events, e.Fits cfg) :
    ∃ first' queue' part', TxInv cfg (log ++ (ethTxFSM cfg).outputs s events) first' queue' part'
      ((ethTxFSM cfg).after s events) := by
  induction events generalizing log first queue part s with
  | nil =>
      rw [Fsm.outputs_nil, List.append_nil]
      exact ⟨first, queue, part, inv⟩
  | cons e events ih =>
      obtain ⟨first', queue', part', next⟩ := inv.step (fits e List.mem_cons_self)
      have run := ih next fun e later => fits e (List.mem_cons_of_mem _ later)
      rw [List.append_assoc] at run
      exact run

theorem txInv_init (cfg : EthConfig) (memory : Mem UInt8) :
    TxInv cfg [] 0 [] [] (EthTx.init memory) := by
  refine ⟨⟨.none fun _ => rfl, ?_⟩, ?_, .idle, rfl, rfl, ?_⟩
  · exact (Nat.zero_mod _).symm
  · exact (Nat.zero_mod _).symm
  · exact fun asleep => .inl rfl

/-- **The DMA finishes** what has been handed over. -/
theorem TxInv.drain (inv : TxInv cfg log first queue part s) (idle : s.pc = .idle) :
    ∃ k first' part', TxInv cfg
        (log ++ (ethTxFSM cfg).outputs s (List.replicate k .dma)) first' [] part'
        ((ethTxFSM cfg).after s (List.replicate k .dma)) ∧
      ((ethTxFSM cfg).after s (List.replicate k .dma)).pc = .idle := by
  generalize length : queue.length = n
  induction n generalizing log first queue part s with
  | zero =>
      obtain rfl := List.length_eq_zero_iff.mp length
      refine ⟨0, first, part, ?_, idle⟩
      show TxInv cfg (log ++ []) first [] part s
      rw [List.append_nil]
      exact inv
  | succ n ih =>
      have awake : ¬ s.tbus = true := by
        intro asleep
        rcases inv.awake asleep with empty | handing
        · rw [empty] at length
          cases length
        · rw [idle] at handing
          cases handing
      cases queue with
      | nil => cases length
      | cons seg queue =>
          obtain ⟨k, first', part', drained, quiet⟩ :=
            ih (inv.take awake) (dmaSendStep_pc.trans idle) (Nat.succ.inj length)
          refine ⟨k + 1, first', part', ?_, quiet⟩
          rw [List.append_assoc] at drained
          exact drained

/-- How many steps `low_level_output` has left at most. -/
def outputWeight (cfg : EthConfig) : OutputPc → Nat
  | .idle => 0
  | .resume _ => 1
  | .give _ _ bufcount i => bufcount - i + 2
  | .transmit _ framelength => bufcount cfg framelength + 3
  | .next _ rest _ _ framelength =>
      bufcount cfg (framelength + rest.flatten.length) + 4 + payloads rest
  | .copy _ left rest _ off framelength =>
      bufcount cfg (framelength + left.length + rest.flatten.length) + 4 + payloads rest +
        3 * left.length + if off = 0 then 1 else 3
  | .check _ left rest _ framelength =>
      bufcount cfg (framelength + left.length + rest.flatten.length) + 4 + payloads rest +
        3 * left.length + 2
where
  payloads (rest : List (List UInt8)) : Nat := (rest.map fun q => 3 * q.length + 4).sum

theorem outputWeight_step (running : s.pc ≠ .idle) :
    outputWeight cfg (outputStep cfg s).1.pc < outputWeight cfg s.pc := by
  unfold outputStep
  generalize s.pc = pc at running ⊢
  cases pc with
  | idle => exact absurd rfl running
  | next p rest desc off len =>
      cases rest with
      | nil =>
          dsimp only [outputWeight, outputWeight.payloads]
          rw [List.flatten_nil, List.length_nil, Nat.add_zero len]
          omega
      | cons q rest =>
          dsimp only
          split
          · dsimp only [outputWeight]
            omega
          · dsimp only [outputWeight, outputWeight.payloads]
            rw [List.flatten_cons, List.length_append, List.map_cons, List.sum_cons,
              Nat.add_assoc len]
            split
            · omega
            · omega
  | copy p left rest desc off len =>
      have size := cfg.txSize
      dsimp only
      split
      · rename_i long
        dsimp only [outputWeight]
        have whole : len + (cfg.txBufSize - off) + (left.drop (cfg.txBufSize - off)).length =
            len + left.length := by
          rw [List.length_drop]
          omega
        rw [whole, List.length_drop]
        split
        · omega
        · omega
      · dsimp only [outputWeight]
        split
        · omega
        · omega
  | check p left rest desc len =>
      dsimp only
      split
      · dsimp only [outputWeight]
        omega
      · dsimp only [outputWeight]
        rw [if_pos rfl]
        omega
  | transmit p len =>
      dsimp only
      split
      · dsimp only [outputWeight]
        omega
      · dsimp only [outputWeight]
        omega
  | give p len c i =>
      dsimp only
      split
      · dsimp only [outputWeight]
        omega
      · dsimp only [outputWeight]
        omega
  | resume p =>
      dsimp only [outputWeight]
      omega

/-- **A call of `low_level_output` ends.** -/
theorem output_ends (cfg : EthConfig) (s : EthTx) :
    ∃ m, ((ethTxFSM cfg).after s (List.replicate m .cpu)).pc = .idle := by
  generalize weight : outputWeight cfg s.pc = n
  induction n using Nat.strong_induction_on generalizing s with
  | _ n ih =>
      by_cases idle : s.pc = .idle
      · exact ⟨0, idle⟩
      · obtain ⟨m, ends⟩ := ih _ (weight ▸ outputWeight_step idle) (outputStep cfg s).1 rfl
        exact ⟨m + 1, ends⟩

/-- A frame in two pieces, and a second one while the DMA is not idle. -/
def twoFrames : List EthTxEvent :=
  [.output [[1, 2], [3]], .dma] ++ List.replicate 12 .cpu ++ [.dma, .output [[4]], .dma, .cpu]

end Runs

end OlympusFirmware.Olympus
