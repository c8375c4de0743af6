import OlympusFirmware.Lib.Blocks
import OlympusFirmware.Lib.Fsm
import OlympusFirmware.Lib.Handoff

/-!
# The Ethernet driver (`peripherals/ETH/ethernetif.c`)

lwIP hands frames to `low_level_output` as chains of pbufs and fetches them with
`low_level_input`. Between the driver and the MAC lie two rings of descriptors, each with a
buffer, and the OWN bit of a descriptor says who may use it. The DMA runs beside the program,
so the functions are cut into steps, a `memcpy` being one, and the DMA may act between any two:
`OutputPc` and `InputPc` are where the program is. `HAL_ETH_TransmitFrame` and
`HAL_ETH_GetReceivedFrame` are part of them.

The DMA works in store and forward mode, so a frame whose next descriptor is not there yet
waits. Frames come from the MAC with their checksum of four bytes.
-/

namespace OlympusFirmware.Olympus

open OlympusFirmware.Lib

/-- `stm32f2xx_hal_conf.h`: how many buffers there are, and their size. `ETH_DMATXDESC_TBS1`,
the field for the size of a buffer, has 13 bits. -/
structure EthConfig where
  txBufNb : Nat
  txBufSize : Nat
  rxBufNb : Nat
  rxBufSize : Nat
  txPositive : 0 < txBufNb
  txSize : 0 < txBufSize
  txFits : txBufSize < 2 ^ 13
  rxMany : 1 < rxBufNb
  rxSize : 0 < rxBufSize

/-- Four buffers each, of `ETH_MAX_PACKET_SIZE` bytes. -/
def olympusEth : EthConfig where
  txBufNb := 4
  txBufSize := 1524
  rxBufNb := 4
  rxBufSize := 1524
  txPositive := by decide
  txSize := by decide
  txFits := by decide
  rxMany := by decide
  rxSize := by decide

/-! ## Transmission -/

/-- `ETH_DMADescTypeDef` of a buffer to be sent: OWN, FS and LS of `Status`, and
`ControlBufferSize`. -/
structure TxDesc where
  own : Bool
  fs : Bool
  ls : Bool
  size : Nat
deriving DecidableEq

/-- `err_t`, as far as `low_level_output` returns it. -/
inductive OutputErr
  | ok
  | use
deriving DecidableEq

/-- Where `low_level_output` is. `p` is its argument, a chain of payloads. -/
inductive OutputPc
  | idle
  -- the head of the `for` loop, with what is left of the chain
  | next (p rest : List (List UInt8)) (desc bufferoffset framelength : Nat)
  -- the head of the `while` loop, with what is left of a payload
  | copy (p : List (List UInt8)) (left : List UInt8) (rest : List (List UInt8))
      (desc bufferoffset framelength : Nat)
  -- is the next descriptor available?
  | check (p : List (List UInt8)) (left : List UInt8) (rest : List (List UInt8))
      (desc framelength : Nat)
  -- `HAL_ETH_TransmitFrame`
  | transmit (p : List (List UInt8)) (framelength : Nat)
  | give (p : List (List UInt8)) (framelength bufcount i : Nat)
  | resume (p : List (List UInt8))
deriving DecidableEq

/-- The driver and the DMA: `heth->TxDesc`, the TBUS flag, the descriptor the DMA is at, and
what it has fetched of a frame. -/
structure EthTx where
  descs : Nat → TxDesc
  txBuff : Mem UInt8
  txDesc : Nat
  pc : OutputPc
  tbus : Bool
  dma : Nat
  fetched : List UInt8

/-- lwIP calls `low_level_output`, the program or the DMA goes on. -/
inductive EthTxEvent
  | output (p : List (List UInt8))
  | cpu
  | dma
deriving DecidableEq

inductive EthTxOutput
  | returned (p : List (List UInt8)) (errval : OutputErr)
  | sent (frame : List UInt8)
deriving DecidableEq

variable (cfg : EthConfig)

/-- `Buffer2NextDescAddr`: the descriptors form a ring. -/
def EthConfig.nextTx (desc : Nat) : Nat := (desc + 1) % cfg.txBufNb

def EthConfig.nextRx (desc : Nat) : Nat := (desc + 1) % cfg.rxBufNb

/-- `bufcount` in `HAL_ETH_TransmitFrame`. -/
def bufcount (frameLength : Nat) : Nat :=
  if cfg.txBufSize < frameLength then
    if frameLength % cfg.txBufSize ≠ 0 then frameLength / cfg.txBufSize + 1
    else frameLength / cfg.txBufSize
  else 1

/-- One round of `HAL_ETH_TransmitFrame`, with what a frame of one buffer gets. -/
def giveDescriptor (s : EthTx) (frameLength bufcount i : Nat) : EthTx :=
  let desc : TxDesc :=
    if bufcount = 1 then
      { own := true, fs := true, ls := true, size := frameLength % 2 ^ 13 }
    else if i = bufcount - 1 then
      { own := true, fs := i = 0, ls := true
        size := (frameLength - (bufcount - 1) * cfg.txBufSize) % 2 ^ 13 }
    else
      { own := true, fs := i = 0, ls := false, size := cfg.txBufSize % 2 ^ 13 }
  { s with
    descs := Function.update s.descs s.txDesc desc
    txDesc := cfg.nextTx s.txDesc }

/-- `low_level_output`, one step. What `HAL_ETH_TransmitFrame` returns is not looked at. -/
def outputStep (s : EthTx) : EthTx × List EthTxOutput :=
  match s.pc with
  | .idle => (s, [])
  | .next p [] _ _ framelength => ({ s with pc := .transmit p framelength }, [])
  | .next p (q :: rest) desc bufferoffset framelength =>
      if (s.descs desc).own then ({ s with pc := .idle }, [.returned p .use])
      else ({ s with pc := .copy p q rest desc bufferoffset framelength }, [])
  | .copy p left rest desc bufferoffset framelength =>
      let buffer := desc * cfg.txBufSize
      if cfg.txBufSize < left.length + bufferoffset then
        let n := cfg.txBufSize - bufferoffset
        ({ s with
          txBuff := s.txBuff.store (buffer + bufferoffset) (left.take n)
          pc := .check p (left.drop n) rest (cfg.nextTx desc) (framelength + n) }, [])
      else
        ({ s with
          txBuff := s.txBuff.store (buffer + bufferoffset) left
          pc := .next p rest desc (bufferoffset + left.length) (framelength + left.length) }, [])
  | .check p left rest desc framelength =>
      if (s.descs desc).own then ({ s with pc := .idle }, [.returned p .use])
      else ({ s with pc := .copy p left rest desc 0 framelength }, [])
  | .transmit p framelength =>
      if framelength = 0 ∨ (s.descs s.txDesc).own then
        ({ s with pc := .idle }, [.returned p .ok])
      else ({ s with pc := .give p framelength (bufcount cfg framelength) 0 }, [])
  | .give p framelength bufcount i =>
      if i < bufcount then
        ({ giveDescriptor cfg s framelength bufcount i with
          pc := .give p framelength bufcount (i + 1) }, [])
      else ({ s with pc := .resume p }, [])
  | .resume p =>
      -- clear TBUS and write DMATPDR
      ({ s with tbus := false, pc := .idle }, [.returned p .ok])

/-- The DMA at a descriptor: it waits, with TBUS, for a descriptor it does not own. -/
def dmaSendStep (s : EthTx) : EthTx × List EthTxOutput :=
  if s.tbus then (s, [])
  else
    let desc := s.descs s.dma
    if desc.own then
      let bytes := s.txBuff.load (s.dma * cfg.txBufSize) desc.size
      let frame := (if desc.fs then [] else s.fetched) ++ bytes
      ({ s with
        descs := Function.update s.descs s.dma { desc with own := false }
        dma := cfg.nextTx s.dma
        fetched := if desc.ls then [] else frame },
        if desc.ls then [.sent frame] else [])
    else ({ s with tbus := true }, [])

/-- One event. The program makes no second call while it is inside one. -/
def ethTxStep (s : EthTx) : EthTxEvent → EthTx × List EthTxOutput
  | .output p => (if s.pc = .idle then { s with pc := .next p p s.txDesc 0 0 } else s, [])
  | .cpu => outputStep cfg s
  | .dma => dmaSendStep cfg s

/-- `low_level_output` and the DMA as a machine. -/
def ethTxFSM : Fsm EthTx EthTxEvent EthTxOutput where
  step := ethTxStep cfg

/-- After `HAL_ETH_DMATxDescListInit` and `HAL_ETH_Start`. -/
def EthTx.init (memory : Mem UInt8) : EthTx where
  descs := fun _ => ⟨false, false, false, 0⟩
  txBuff := memory
  txDesc := 0
  pc := .idle
  tbus := false
  dma := 0
  fetched := []

/-! ## Reception -/

/-- `ETH_DMADescTypeDef` of a buffer to be filled: OWN, FS, LS and the frame length of
`Status`. -/
structure RxDesc where
  own : Bool
  fs : Bool
  ls : Bool
  frameLength : Nat
deriving DecidableEq

/-- `ETH_DMARxFrameInfos`. `buffer` is that of `fsRxDesc`, `LSRxDesc` is not read. -/
structure RxFrameInfos where
  segCount : Nat
  fsRxDesc : Nat
  length : Nat
deriving DecidableEq

/-- Where `low_level_input` is. `done` are the payloads that are full. -/
inductive InputPc
  | idle
  -- the head of the `for` loop, with the lengths of the pbufs that are left
  | next (done : List (List UInt8)) (rest : List Nat) (desc bufferoffset : Nat)
  -- the head of the `while` loop
  | copy (done : List (List UInt8)) (payload : List UInt8) (byteslefttocopy : Nat)
      (rest : List Nat) (desc bufferoffset : Nat)
  -- the loop that releases the descriptors, with the chain
  | release (p : Option (List (List UInt8))) (desc i : Nat)
  | resume (p : Option (List (List UInt8)))
deriving DecidableEq

/-- The driver and the DMA: `heth->RxDesc`, `heth->RxFrameInfos`, the RBUS flag, the descriptor
the DMA is at, the frames in the FIFO, and of the frame that is being stored the length and
what is left. -/
structure EthRx where
  descs : Nat → RxDesc
  rxBuff : Mem UInt8
  rxDesc : Nat
  infos : RxFrameInfos
  pc : InputPc
  rbus : Bool
  dma : Nat
  fifo : List (List UInt8)
  storing : Option (Nat × List UInt8)

/-- A frame comes from the network; the main loop calls `ethernetif_input`, where `pbuf_alloc`
answers a length with a chain of pbufs of some lengths, or with none; the program or the DMA
goes on. -/
inductive EthRxEvent
  | frame (bytes : List UInt8)
  | poll (pbufAlloc : Nat → Option (List Nat))
  | cpu
  | dma

inductive EthRxOutput
  | stored (frame : List UInt8)
  | missed (frame : List UInt8)
  | input (p : List (List UInt8))
  | dropped
deriving DecidableEq

/-- The DMA fills a buffer. Where the next descriptor is not available the frame is cut, and
there is no length. -/
def storeSegment (s : EthRx) (fs : Bool) (frameLength : Nat) (bytes : List UInt8) : EthRx :=
  let whole := bytes.length ≤ cfg.rxBufSize
  let ls := whole ∨ (s.descs (cfg.nextRx s.dma)).own = false
  { s with
    rxBuff := s.rxBuff.store (s.dma * cfg.rxBufSize) (bytes.take cfg.rxBufSize)
    -- the field for the length has 14 bits
    descs := Function.update s.descs s.dma
      ⟨false, fs, ls, if whole then frameLength % 2 ^ 14 else 0⟩
    dma := cfg.nextRx s.dma
    storing := if ls then none else some (frameLength, bytes.drop cfg.rxBufSize) }

/-- The DMA goes on. Without a buffer for its start a frame is lost. -/
def dmaReceiveStep (s : EthRx) : EthRx × List EthRxOutput :=
  match s.storing with
  | some (frameLength, left) =>
      if (s.descs s.dma).own then (storeSegment cfg s false frameLength left, [])
      else ({ s with rbus := true }, [])
  | none =>
      match s.fifo with
      | [] => (s, [])
      | bytes :: fifo =>
          let s := { s with fifo := fifo }
          if (s.descs s.dma).own then
            (storeSegment cfg s true bytes.length bytes, [.stored bytes])
          else ({ s with rbus := true }, [.missed bytes])

/-- `HAL_ETH_GetReceivedFrame`, and whether it returns `HAL_OK`. -/
def getReceivedFrame (s : EthRx) : EthRx × Bool :=
  let desc := s.descs s.rxDesc
  if desc.own then (s, false)
  else if desc.ls then
    let segCount := s.infos.segCount + 1
    ({ s with
      infos :=
        { segCount := segCount
          fsRxDesc := if segCount = 1 then s.rxDesc else s.infos.fsRxDesc
          -- without the checksum, in 32 bits
          length := (desc.frameLength + (2 ^ 32 - 4)) % 2 ^ 32 }
      rxDesc := cfg.nextRx s.rxDesc }, true)
  else if desc.fs then
    ({ s with
      infos := { s.infos with segCount := 1, fsRxDesc := s.rxDesc }
      rxDesc := cfg.nextRx s.rxDesc }, false)
  else
    ({ s with
      infos := { s.infos with segCount := s.infos.segCount + 1 }
      rxDesc := cfg.nextRx s.rxDesc }, false)

/-- `low_level_input`, up to its loop. `len` is a `uint16_t`. -/
def startInput (s : EthRx) (pbufAlloc : Nat → Option (List Nat)) : EthRx :=
  let (s, received) := getReceivedFrame cfg s
  if received then
    let len := s.infos.length % 2 ^ 16
    match if 0 < len then pbufAlloc len else none with
    | some lens => { s with pc := .next [] lens s.infos.fsRxDesc 0 }
    | none => { s with pc := .release none s.infos.fsRxDesc 0 }
  else s

/-- `low_level_input` and the rest of `ethernetif_input`, one step. -/
def inputStep (s : EthRx) : EthRx × List EthRxOutput :=
  match s.pc with
  | .idle => (s, [])
  | .next done [] _ _ => ({ s with pc := .release (some done) s.infos.fsRxDesc 0 }, [])
  | .next done (len :: rest) desc bufferoffset =>
      ({ s with pc := .copy done [] len rest desc bufferoffset }, [])
  | .copy done payload byteslefttocopy rest desc bufferoffset =>
      let buffer := desc * cfg.rxBufSize
      if cfg.rxBufSize < byteslefttocopy + bufferoffset then
        let n := cfg.rxBufSize - bufferoffset
        ({ s with
          pc := .copy done (payload ++ s.rxBuff.load (buffer + bufferoffset) n)
            (byteslefttocopy - n) rest (cfg.nextRx desc) 0 }, [])
      else
        ({ s with
          pc := .next
            (done ++ [payload ++ s.rxBuff.load (buffer + bufferoffset) byteslefttocopy]) rest
            desc (bufferoffset + byteslefttocopy) }, [])
  | .release p desc i =>
      if i < s.infos.segCount then
        ({ s with
          descs := Function.update s.descs desc { s.descs desc with own := true }
          pc := .release p (cfg.nextRx desc) (i + 1) }, [])
      else
        ({ s with infos := { s.infos with segCount := 0 }, pc := .resume p }, [])
  | .resume p =>
      -- clear RBUS and write DMARPDR
      ({ s with rbus := false, pc := .idle },
        match p with
        | some chain => [.input chain]
        | none => [.dropped])

/-- One event. The main loop makes no second call while it is inside one. -/
def ethRxStep (s : EthRx) : EthRxEvent → EthRx × List EthRxOutput
  | .frame bytes => ({ s with fifo := s.fifo ++ [bytes] }, [])
  | .poll pbufAlloc => (if s.pc = .idle then startInput cfg s pbufAlloc else s, [])
  | .cpu => inputStep cfg s
  | .dma => dmaReceiveStep cfg s

/-- `ethernetif_input` and the DMA as a machine. -/
def ethRxFSM : Fsm EthRx EthRxEvent EthRxOutput where
  step := ethRxStep cfg

/-- After `HAL_ETH_DMARxDescListInit` and `HAL_ETH_Start`. -/
def EthRx.init (memory : Mem UInt8) : EthRx where
  descs := fun _ => ⟨true, false, false, 0⟩
  rxBuff := memory
  rxDesc := 0
  infos := ⟨0, 0, 0⟩
  pc := .idle
  rbus := false
  dma := 0
  fifo := []
  storing := none

end OlympusFirmware.Olympus
