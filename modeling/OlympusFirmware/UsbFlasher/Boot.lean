import OlympusFirmware.MasterBoot.Main
import OlympusFirmware.MasterBoot.Steps

/-!
# The host's flasher (`usbFlasher/BootSerial.py`, `usbFlasher/Boot.py`)

A call of `BootSerial` writes one packet and reads one response byte. The device
at the other end of the port is part of the state: it works through the packet
before the byte is read, and what it sends more than the host reads stays in the
port for the next call. If it sends nothing the read times out.

A result `none` is an exception, of which the script has two: a response that is
no `BootError`, and a size that does not fit in four bytes.
-/

namespace OlympusFirmware.UsbFlasher

open OlympusFirmware.Lib OlympusFirmware.MasterBoot

/-- `BootError`. -/
inductive BootError
  | noErr | errDataWrite | errChecksum | errInvalidHeader | errFlashErase | errPreRebootStatus
  | errRebootStart | errRebootTimeout | errRebootStatus | errWriteTimeout
deriving DecidableEq

/-- `BootError(code)`. -/
def BootError.ofByte : UInt8 → Option BootError
  | 0 => some .noErr
  | 1 => some .errDataWrite
  | 2 => some .errChecksum
  | 3 => some .errInvalidHeader
  | 4 => some .errFlashErase
  | 5 => some .errPreRebootStatus
  | 6 => some .errRebootStart
  | 7 => some .errRebootTimeout
  | 8 => some .errRebootStatus
  | 9 => some .errWriteTimeout
  | _ => none

/-- The names in `DEVICE_KEY_LUT`. -/
inductive Device
  | olympus | apollo | hermes | hephaestus | zeus | janus
deriving DecidableEq

/-- `DEVICE_KEY_LUT`. -/
def deviceKeyLut : Device → UInt32
  | .olympus => 0x4F4C594D
  | .apollo => 0x41504F4C
  | .hermes => 0x4845524D
  | .hephaestus => 0x48455048
  | .zeus => 0x5A455553
  | .janus => 0x4A414E55

/-- `FLASH_KEY`. -/
def flashKey : UInt32 := 0x666C6170

/-- `USB_BUFF_SIZE`. -/
def usbBuffSize : Nat := 64

/-- The port: the host's checksum, the device, the response bytes not yet read, and
those of each call so far. -/
structure BootSerial (σ : Type) where
  checksum : UInt32
  device : Main σ
  inbox : List UInt8
  calls : List (List UInt8)

/-- A port just opened to a device. -/
def BootSerial.opened {σ : Type} (device : Main σ) : BootSerial σ where
  checksum := 0
  device := device
  inbox := []
  calls := []

/-- What a call returns, and the port afterwards. -/
abbrev Result (σ : Type) := Option BootError × BootSerial σ

/-- The sum that `writeData` adds up: of the slices of four bytes, the last of
which may be shorter. -/
def sliceSum : List UInt8 → UInt32
  | b₀ :: b₁ :: b₂ :: b₃ :: rest => leWord [b₀, b₁, b₂, b₃] + sliceSum rest
  | slice => leWord slice

section Calls

variable {σ : Type} (link : Link σ)

/-- `_writeMessage`, on the packet as bytes. -/
def writeMessage (pkt : List UInt8) (s : BootSerial σ) : Result σ :=
  let sent := responses ((mainFSM link).outputs s.device pkt)
  let s : BootSerial σ := { s with
    device := (mainFSM link).after s.device pkt
    calls := s.calls ++ [sent]
    inbox := s.inbox ++ sent }
  match s.inbox with
  | [] => (some .errWriteTimeout, s)
  | byte :: inbox => (BootError.ofByte byte, { s with inbox := inbox })

/-- `writeData`. -/
def writeData (data : List UInt8) (s : BootSerial σ) : Result σ :=
  writeMessage link data { s with checksum := s.checksum + sliceSum data }

/-- `initData`. -/
def initData (s : BootSerial σ) : Result σ :=
  writeMessage link ([0].flatMap wordBytes) { s with checksum := 0 }

/-- `writeChecksum`. -/
def writeChecksum (s : BootSerial σ) : Result σ :=
  writeMessage link ([1, s.checksum].flatMap wordBytes) s

/-- `writeHeader`. -/
def writeHeader (device : Device) (size : Nat) (s : BootSerial σ) : Result σ :=
  if size < 4294967296 then
    writeMessage link ([2, deviceKeyLut device, UInt32.ofNat size, flashKey].flatMap wordBytes) s
  else
    (none, s)

/-- `if resp != BootError.NO_ERR: continue` -/
def andThen (result : Result σ) (next : BootSerial σ → Result σ) : Result σ :=
  if result.1 = some .noErr then next result.2 else result

/-- The loop over the chunks of a file, `fp` being what has not been read of it. -/
def writeChunks : Nat → List UInt8 → BootSerial σ → Result σ
  | 0, _, s => (some .noErr, s)
  | chunks + 1, fp, s =>
      andThen (writeData link (fp.take usbBuffSize) s) (writeChunks chunks (fp.drop usbBuffSize))

/-- What `Boot.py` does for one device and its file. -/
def flashDevice (device : Device) (file : List UInt8) (s : BootSerial σ) : Result σ :=
  andThen (writeHeader link device file.length s) fun s =>
    andThen (initData link s) fun s =>
      andThen (writeChunks link ((file.length + usbBuffSize - 1) / usbBuffSize) file s) fun s =>
        writeChecksum link s

end Calls

/-! ## One call -/

/-- The module of a device. -/
def Device.module : Device → Module
  | .olympus => .olympus
  | .apollo => .apollo
  | .hermes => .hermes
  | .hephaestus => .hephaestus
  | .zeus => .zeus
  | .janus => .janus

/-- The keys of the two ends agree. -/
theorem moduleOfKey_deviceKeyLut (device : Device) :
    moduleOfKey (deviceKeyLut device) = device.module := by
  cases device <;> rfl

/-- On whole words the host adds up those words. -/
theorem sliceSum_eq (bytes : List UInt8) (whole : bytes.length % 4 = 0) :
    sliceSum bytes = (leWords bytes).sum := by
  induction bytes, whole using whole_words with
  | nil => rfl
  | word b₀ b₁ b₂ b₃ rest whole ih => rw [sliceSum, ih, leWords, List.sum_cons]

section Between

variable {σ : Type}

/-- Between calls: the device waits for a whole word, and nothing is left to read. -/
structure BootSerial.Ready (s : BootSerial σ) : Prop where
  aligned : s.device.dataIn = []
  read : s.inbox = []

/-- The port after a call that the device answered with one `NO_ERR`. -/
def BootSerial.answered (s : BootSerial σ) (b : Boot σ) : BootSerial σ :=
  { s with device := ⟨[], b⟩, inbox := [], calls := s.calls ++ [[MasterBoot.noErr]] }

theorem andThen_ok (s : BootSerial σ) (next : BootSerial σ → Result σ) :
    andThen (some .noErr, s) next = next s := if_pos rfl

/-- **A call** whose packet is whole words and is answered with one `NO_ERR`. -/
theorem writeMessage_ok (link : Link σ) {s : BootSerial σ} (ready : s.Ready) {pkt : List UInt8}
    (whole : pkt.length % 4 = 0) {b : Boot σ}
    (reached : (bootFSM link).after s.device.boot (leWords pkt) = b)
    (answer : responses ((bootFSM link).outputs s.device.boot (leWords pkt)) =
      [MasterBoot.noErr]) :
    writeMessage link pkt s = (some .noErr, s.answered b) := by
  obtain ⟨checksum, ⟨dataIn, boot⟩, inbox, calls⟩ := s
  obtain ⟨rfl, rfl⟩ := ready
  obtain ⟨state, outputs⟩ := main_run link pkt whole boot
  simp only at reached answer
  simp only [writeMessage, state, outputs, reached, answer, List.nil_append]
  rfl

end Between

end OlympusFirmware.UsbFlasher
