import OlympusFirmware.Lib.Bytes
import OlympusFirmware.Lib.Fsm
import OlympusFirmware.Lib.Mem
import OlympusFirmware.MasterBoot.Flash

/-!
# The master's bootloader (`master_boot/drivers/boot.c`)

`runBootFSM` takes one 32-bit word from USB at a time. Its static variables are
the state of a machine; what it does to the outside (response bytes, flash
writes, exchanges with a submodule, the jump to the application) are the
machine's outputs.

The submodules are outside: `link` is what `messageSubmodule` returns for a
message, given everything behind the wire (`σ`), and how that changes. It is a
parameter, so that every pattern of answers, failures and time-outs is covered.
`HAL_Delay` has no output. A `DATA` message before any header sends to module
`NONE`, for which the source reads `CS_PINS` out of bounds; the model hands that
message to the link like any other.
-/

namespace OlympusFirmware.MasterBoot

open OlympusFirmware.Lib

/-- `CHUNK_SIZE`. -/
def chunkSize : UInt32 := 64

/-- `ERASE_FLASH_KEY`. -/
def eraseFlashKey : UInt32 := 0x666C6170

/-- `OLYMPUS_KEY`. -/
def olympusKey : UInt32 := 0x4F4C594D
/-- `APOLLO_KEY`. -/
def apolloKey : UInt32 := 0x41504F4C
/-- `HEPHAESTUS_KEY`. -/
def hephaestusKey : UInt32 := 0x48455048
/-- `HERMES_KEY`. -/
def hermesKey : UInt32 := 0x4845524D
/-- `JANUS_KEY`. -/
def janusKey : UInt32 := 0x4A414E55
/-- `ZEUS_KEY`. -/
def zeusKey : UInt32 := 0x5A455553

/-- `NO_ERR`. -/
def noErr : UInt8 := 0x00
/-- `ERR_DATA_WRITE`. -/
def errDataWrite : UInt8 := 0x01
/-- `ERR_CHECKSUM`. -/
def errChecksum : UInt8 := 0x02
/-- `ERR_INVALID_HEADER`. -/
def errInvalidHeader : UInt8 := 0x03
/-- `ERR_FLASH_ERASE`. -/
def errFlashErase : UInt8 := 0x04
/-- `ERR_REBOOT_FAIL`. -/
def errRebootFail : UInt8 := 0x05
/-- `ERR_REBOOT_START`. -/
def errRebootStart : UInt8 := 0x06
/-- `ERR_REBOOT_STATUS`. -/
def errRebootStatus : UInt8 := 0x08

/-- `COMMS_OK`. -/
def commsOk : UInt8 := 0xAA

/-- `module_t`. -/
inductive Module
  | apollo | hephaestus | hermes | janus | zeus | olympus | none
deriving DecidableEq

/-- `msgType_t`. The enumeration is two bytes wide, so the cast of a word keeps
its low half, which may be none of the named values. -/
inductive MsgType
  | data | checksum | header | jump | dmy
  | other (code : UInt16)
deriving DecidableEq

/-- `(msgType_t)data`. -/
def MsgType.ofWord (word : UInt32) : MsgType :=
  match word.toUInt16 with
  | 0 => .data
  | 1 => .checksum
  | 2 => .header
  | 3 => .jump
  | 65535 => .dmy
  | code => .other code

/-- `bootHeader_t`. -/
structure BootHeader where
  dkey : UInt32
  size : UInt32
  fkey : UInt32
deriving DecidableEq

/-- The module a device key stands for. -/
def moduleOfKey (dkey : UInt32) : Module :=
  if dkey = olympusKey then .olympus
  else if dkey = apolloKey then .apollo
  else if dkey = hephaestusKey then .hephaestus
  else if dkey = hermesKey then .hermes
  else if dkey = janusKey then .janus
  else if dkey = zeusKey then .zeus
  else .none

/-- The static variables of `runBootFSM`, the globals it uses, whether it still
runs (`jumpToApp` does not return), and what is behind the link. -/
structure Boot (σ : Type) where
  dataAddr : UInt32
  msg : MsgType
  count : UInt32
  module : Module
  header : BootHeader
  checksum : UInt32
  submoduleCommsBuff : Mem UInt8
  running : Bool
  env : σ

/-- The state at reset. -/
def Boot.reset {σ : Type} (env : σ) : Boot σ where
  dataAddr := userAppBaseAddr
  msg := .dmy
  count := 0
  module := .none
  header := ⟨0, 0, 0⟩
  checksum := 0
  submoduleCommsBuff := fun _ => 0
  running := true
  env := env

/-- What a step does to the outside. -/
inductive BootOutput
  | writeResponse (response : UInt8)
  | flash (op : FlashOp)
  | messageSubmodule (module : Module) (msgType : UInt8) (data : List UInt8) (status : UInt8)
  | jumpToApp
deriving DecidableEq

/-- What `messageSubmodule` returns for a message, and what the other side
becomes. None of the calls here asks for data back. -/
abbrev Link (σ : Type) := Module → UInt8 → List UInt8 → σ → UInt8 × σ

section Step

variable {σ : Type} (link : Link σ)

/-- The status of the exchange that sends the first `txSize` bytes of the
buffer. -/
def Boot.status (b : Boot σ) (msgType : UInt8) (txSize : Nat) : UInt8 :=
  (link b.module msgType (b.submoduleCommsBuff.load 0 txSize) b.env).1

/-- The state after that exchange. -/
def Boot.sent (b : Boot σ) (msgType : UInt8) (txSize : Nat) : Boot σ :=
  { b with env := (link b.module msgType (b.submoduleCommsBuff.load 0 txSize) b.env).2 }

/-- The exchange as an output. -/
def Boot.message (b : Boot σ) (msgType : UInt8) (txSize : Nat) : BootOutput :=
  .messageSubmodule b.module msgType (b.submoduleCommsBuff.load 0 txSize)
    (b.status link msgType txSize)

/-- `writeResponse(response); msg = DMY; break;` -/
def Boot.finish (b : Boot σ) (response : UInt8) : Boot σ × List BootOutput :=
  ({ b with msg := .dmy }, [.writeResponse response])

/-- What precedes the outputs of the rest of a step. -/
def emitting (outputs : List BootOutput) (rest : Boot σ × List BootOutput) :
    Boot σ × List BootOutput :=
  (rest.1, outputs ++ rest.2)

/-- The end of `case DATA`: acknowledge a chunk, and leave after the last. -/
def endData (b : Boot σ) : Boot σ × List BootOutput :=
  let acknowledged : List BootOutput :=
    if b.count % chunkSize = 0 ∨ b.count = b.header.size then [.writeResponse noErr] else []
  if b.count = b.header.size then
    ({ b with count := 0, msg := .dmy },
      acknowledged ++ (if b.module = .olympus then [.flash completeWrite] else []))
  else
    (b, acknowledged)

/-- The buffer once a word is in and, at the end of the image, zero-filled. -/
def fillChunk (buff : Mem UInt8) (count size word : UInt32) : Mem UInt8 :=
  let offset := (count % chunkSize).toNat
  let filled := buff.store offset (wordBytes word)
  let count := count + 4
  if count = size ∧ count % chunkSize ≠ 0 then
    filled.store (count % chunkSize).toNat
      (List.replicate (chunkSize - count % chunkSize).toNat 0)
  else
    filled

/-- A data word for a submodule is in the buffer and counted. -/
def Boot.withWord (b : Boot σ) (word : UInt32) : Boot σ :=
  { b with
    submoduleCommsBuff := fillChunk b.submoduleCommsBuff b.count b.header.size word
    count := b.count + 4 }

/-- `case DATA`. -/
def runData (b : Boot σ) (word : UInt32) : Boot σ × List BootOutput :=
  if b.module = .olympus then
    emitting [.flash (writeFlash b.dataAddr word)]
      (endData { b with
        dataAddr := b.dataAddr + 4
        count := b.count + 4
        checksum := b.checksum + word })
  else
    let filled := b.withWord word
    if filled.count % chunkSize = 0 ∨ filled.count = filled.header.size then
      emitting [filled.message link 0x02 64]
        (if filled.status link 0x02 64 ≠ commsOk then
          -- `count` keeps its value
          (filled.sent link 0x02 64).finish errDataWrite
        else
          endData (filled.sent link 0x02 64))
    else
      endData filled

/-- `case CHECKSUM`. -/
def runChecksum (b : Boot σ) (word : UInt32) : Boot σ × List BootOutput :=
  if b.module = .olympus then
    b.finish (if word = b.checksum then noErr else errChecksum)
  else
    let filled : Boot σ :=
      { b with submoduleCommsBuff := b.submoduleCommsBuff.store 0 (wordBytes word) }
    emitting [filled.message link 0x03 4]
      ((filled.sent link 0x03 4).finish
        (if filled.status link 0x03 4 ≠ commsOk then errChecksum else noErr))

/-- Send the header's size and key to the submodule's bootloader. -/
def sendHeader (b : Boot σ) : Boot σ × List BootOutput :=
  let filled : Boot σ := { b with
    submoduleCommsBuff :=
      b.submoduleCommsBuff.store 0 (wordBytes b.header.size ++ wordBytes b.header.fkey) }
  emitting [filled.message link 0x01 8]
    ((filled.sent link 0x01 8).finish
      (if filled.status link 0x01 8 ≠ commsOk then errFlashErase else noErr))

/-- One exchange of the restart sequence: go on if it succeeds. -/
def expectOk (b : Boot σ) (msgType err : UInt8)
    (next : Boot σ → Boot σ × List BootOutput) : Boot σ × List BootOutput :=
  emitting [b.message link msgType 0]
    (if b.status link msgType 0 ≠ commsOk then (b.sent link msgType 0).finish err
    else next (b.sent link msgType 0))

/-- Restart a submodule into its bootloader and send it the header. -/
def restartSubmodule (b : Boot σ) : Boot σ × List BootOutput :=
  expectOk link b 0x00 errRebootFail fun b =>
    expectOk link b 0x0A errRebootStart fun b =>
      expectOk link b 0x00 errRebootStatus fun b =>
        sendHeader link b

/-- The third word of a header is in, and its device key looked up. -/
def Boot.withKey (b : Boot σ) (word : UInt32) : Boot σ :=
  { b with
    header := { b.header with fkey := word }
    count := 0
    module := moduleOfKey b.header.dkey }

/-- `case HEADER`. -/
def runHeader (b : Boot σ) (word : UInt32) : Boot σ × List BootOutput :=
  if b.count = 0 then
    ({ b with header := { b.header with dkey := word }, count := b.count + 1 }, [])
  else if b.count = 1 then
    ({ b with header := { b.header with size := word }, count := b.count + 1 }, [])
  else
    let b := b.withKey word
    if b.header.fkey ≠ eraseFlashKey ∨ b.module = .none then
      b.finish errInvalidHeader
    else if b.module = .olympus then
      emitting ((writeInit b.header.size).map .flash)
        ({ b with checksum := 0 }.finish noErr)
    else
      restartSubmodule link b

/-- `case DMY`: the word is a message type. -/
def runDmy (b : Boot σ) (word : UInt32) : Boot σ × List BootOutput :=
  match MsgType.ofWord word with
  | .data => ({ b with msg := .data }, [.writeResponse noErr])
  | .jump => ({ b with running := false }, [.writeResponse noErr, .jumpToApp])
  | newMsg => ({ b with msg := newMsg }, [])

/-- `runBootFSM(word)`. -/
def bootStep (b : Boot σ) (word : UInt32) : Boot σ × List BootOutput :=
  if b.running then
    match b.msg with
    | .data => runData link b word
    | .checksum => runChecksum link b word
    | .header => runHeader link b word
    | .dmy => runDmy b word
    | .jump | .other _ => ({ b with msg := .dmy }, [])
  else
    (b, [])

/-- The bootloader as a machine. -/
def bootFSM : Fsm (Boot σ) UInt32 BootOutput where
  step := bootStep link

end Step

end OlympusFirmware.MasterBoot
