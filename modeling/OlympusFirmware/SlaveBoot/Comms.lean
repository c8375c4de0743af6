import OlympusFirmware.Lib.Bytes
import OlympusFirmware.SlaveBoot.Flash
import OlympusFirmware.SlaveLib.CommsLib

/-!
# The slaves' bootloader (`slave_boot/drivers/comms.c`)

Four messages: status, header, data and checksum. The session state is in static
variables of two kinds. `size`, `checksum` and `flashComplete` belong to the file
and are set by each accepted header; `count` and `addr` belong to `write_data`
and are set by nothing after reset.

A callback gets the bytes of its message through the buffer; `Message` is what
it reads there. The functions below are the callbacks on the message read, and
`msgResp` is the table.
-/

namespace OlympusFirmware.SlaveBoot

open OlympusFirmware.Lib OlympusFirmware.SlaveLib

/-- `ERASE_FLASH_KEY`. -/
def eraseFlashKey : UInt32 := 0x666C6170

/-- The static variables: those of the file, then those of `write_data`. -/
structure Bootloader where
  size : UInt32
  checksum : UInt32
  flashComplete : Bool
  count : UInt32
  addr : UInt32
deriving DecidableEq

/-- Their values at reset. -/
def Bootloader.reset : Bootloader where
  size := 0
  checksum := 0
  flashComplete := false
  count := 0
  addr := appStartAddr

/-- The 64 data bytes of a data message. -/
abbrev Chunk := { bytes : List UInt8 // bytes.length = 64 }

/-- What a callback reads from the buffer. -/
inductive Message
  | getStatus
  | header (size key : UInt32)
  | data (chunk : Chunk)
  | checksum (hostChecksum : UInt32)
deriving DecidableEq

/-- What a callback does: the status it returns if it returns, the variables
after it, and its effects. -/
structure Handled where
  status : Option UInt8
  boot : Bootloader
  outputs : List (CommsOutput FlashOp)

/-- `get_status_callback`. -/
def getStatusCallback (b : Bootloader) : Handled := ⟨some wrOk, b, []⟩

/-- `write_header`. -/
def writeHeader (size key : UInt32) (b : Bootloader) : Handled :=
  if key ≠ eraseFlashKey ∨ appMaxSize < size then
    ⟨some wrErr, b, []⟩
  else
    ⟨some wrOk, { b with size := size, checksum := 0, flashComplete := false },
      (writeInit size).map .device⟩

/-- The loop of `write_data`: half-words to flash, and to the sum alternately as
low and high half. -/
def writeHalves (b : Bootloader) (high16bit : Bool) : List UInt16 → Bootloader × List FlashOp
  | [] => (b, [])
  | val :: rest =>
      let sum := b.checksum + (if high16bit then val.toUInt32 <<< 16 else val.toUInt32)
      let done := writeHalves { b with addr := b.addr + 2, checksum := sum } (!high16bit) rest
      (done.1, .writeFlash b.addr val :: done.2)

/-- `write_data`. -/
def writeData (chunk : Chunk) (b : Bootloader) : Handled :=
  if b.size = 0 then
    ⟨some wrErr, b, []⟩
  else
    let written := writeHalves b false (leHalves chunk.1)
    let count := written.1.count + 64
    if b.size ≤ count then
      ⟨some wrOk, { written.1 with count := count, flashComplete := true },
        (written.2 ++ [FlashOp.writeComplete]).map .device⟩
    else
      ⟨some wrOk, { written.1 with count := count }, written.2.map .device⟩

/-- `run_checksum`. -/
def runChecksum (hostChecksum : UInt32) (b : Bootloader) : Handled :=
  if b.flashComplete = false then
    ⟨some wrErr, b, []⟩
  else if hostChecksum ≠ b.checksum then
    ⟨some wrErr, b, []⟩
  else
    -- the response goes out before the jump, which does not return
    ⟨none, b, [.writeResponse wrOk [], .device .jumpToApp]⟩

/-- The callback for a message. -/
def handle : Message → Bootloader → Handled
  | .getStatus => getStatusCallback
  | .header size key => writeHeader size key
  | .data chunk => writeData chunk
  | .checksum hostChecksum => runChecksum hostChecksum

/-- A callback: read the message from the buffer, and handle it. -/
def callback (read : Mem UInt8 → Message) (buff : Mem UInt8) (b : Bootloader) :
    CallResult Bootloader FlashOp :=
  let handled := handle (read buff) b
  ⟨handled.status, buff, handled.boot, handled.outputs⟩

/-- The message type of `get_status_callback` has no data. -/
def readStatus (_buff : Mem UInt8) : Message := .getStatus

/-- `memcpy(&header, data, sizeof(header_t))`. -/
def readHeader (buff : Mem UInt8) : Message :=
  .header (leWord (buff.load 0 4)) (leWord (buff.load 4 4))

/-- The `rxDataLength` bytes that `write_data` copies from. -/
def readData (buff : Mem UInt8) : Message := .data ⟨buff.load 0 64, buff.length_load 0 64⟩

/-- The host's checksum, put together byte by byte. -/
def readChecksum (buff : Mem UInt8) : Message :=
  .checksum ((buff 3).toUInt32 <<< 24 ||| (buff 2).toUInt32 <<< 16 ||| (buff 1).toUInt32 <<< 8
    ||| (buff 0).toUInt32)

/-- `msgResp`. -/
def msgResp : UInt8 → MsgInfo Bootloader FlashOp
  | 0 => ⟨0, 0, some (callback readStatus)⟩
  | 1 => ⟨8, 0, some (callback readHeader)⟩
  | 2 => ⟨64, 0, some (callback readData)⟩
  | 3 => ⟨4, 0, some (callback readChecksum)⟩
  -- 4 to 10 are unused
  | _ => ⟨0, 0, none⟩

/-- The bootloader as a machine that takes one byte at a time. -/
def slaveBootFSM : Fsm (Comms Bootloader) UInt8 (CommsOutput FlashOp) := commsFSM msgResp

/-! ## The messages of a byte stream -/

/-- The message a callback of the given type is called with. -/
def readMessage (msgType : UInt8) (buff : Mem UInt8) : Option Message :=
  match msgType with
  | 0 => some (readStatus buff)
  | 1 => some (readHeader buff)
  | 2 => some (readData buff)
  | 3 => some (readChecksum buff)
  | _ => none

/-- The messages among the outputs, in order. -/
def messages (outputs : List (CommsOutput FlashOp)) : List Message :=
  outputs.filterMap fun
    | .callback msgType buff => readMessage msgType buff
    | _ => none

/-- The device's operations among the outputs. -/
def flashOps (outputs : List (CommsOutput FlashOp)) : List FlashOp :=
  outputs.filterMap fun
    | .device op => some op
    | _ => none

/-- Every callback of the table handles the message it reads. -/
theorem msgResp_callback {msgType : UInt8}
    {call : Mem UInt8 → Bootloader → CallResult Bootloader FlashOp}
    (known : (msgResp msgType).callback = some call) :
    ∃ read, call = callback read ∧ ∀ buff, readMessage msgType buff = some (read buff) := by
  unfold msgResp at known
  split at known
  · exact ⟨readStatus, (Option.some.inj known).symm, fun _ => rfl⟩
  · exact ⟨readHeader, (Option.some.inj known).symm, fun _ => rfl⟩
  · exact ⟨readData, (Option.some.inj known).symm, fun _ => rfl⟩
  · exact ⟨readChecksum, (Option.some.inj known).symm, fun _ => rfl⟩
  · cases known

end OlympusFirmware.SlaveBoot
