import Mathlib.Logic.Function.Basic
import OlympusFirmware.MasterBoot.Sessions
import OlympusFirmware.UsbFlasher.Script
import OlympusFirmware.Update.EndToEnd

/-!
# All slaves behind the link

The boards share the bus, and `CS_PINS` selects one of them. A board that is missing, or whose
program does not listen, never answers. What the master's bootloader and the host's script do with
one board of several is what they do with that board alone (`embeds_fleet`), so its update goes as
it goes there and the others stay as they are.
-/

namespace OlympusFirmware.Update

open OlympusFirmware.Lib OlympusFirmware.SlaveLib OlympusFirmware.SlaveBoot
open OlympusFirmware.UsbFlasher
open OlympusFirmware.MasterBoot (Boot Module Embeds mainFSM bootFSM responses updateWords)

/-- The boards on the bus. -/
abbrev Fleet (δ : Module → Type) := (module : Module) → Option (Board (δ module))

section Fleet

variable {δ ε : Module → Type} (apps : (module : Module) → Application (δ module) (ε module))

/-- `messageSubmodule`, with all boards. -/
def messageFleet : MasterBoot.Link (Fleet δ) := fun module msgType data fleet =>
  match fleet module with
  | none => (commsErrTimeout, fleet)
  | some board =>
      let answer := messageSubmodule (apps module) module module msgType data board
      (answer.1, Function.update fleet module (some answer.2))

/-- One board of the fleet, with what was logged before. -/
def Fleet.place (fleet : Fleet δ) (module : Module) (log : List Exchange)
    (board : Board (δ module)) : Fleet δ :=
  Function.update fleet module (some ⟨board.slave, log ++ board.log⟩)

/-- **One board of several** is met as it is met alone. -/
theorem embeds_fleet (fleet : Fleet δ) (module : Module) (log : List Exchange) :
    Embeds (messageSubmodule (apps module) module) (messageFleet apps) module
      (fleet.place module log) := by
  refine ⟨?_, ?_⟩
  · intro msgType data board
    have there : fleet.place module log board module = some ⟨board.slave, log ++ board.log⟩ :=
      Function.update_self ..
    unfold messageFleet
    rw [there]
    dsimp only
    rw [messageSubmodule_eq, messageSubmodule_eq]
    unfold Fleet.place
    dsimp only
    rw [Function.update_idem, List.append_assoc]
  · intro other msgType data board differs
    unfold messageSubmodule
    rw [if_neg differs]
    show commsErrTimeout ≠ MasterBoot.commsOk
    decide

/-! ## One update -/

/-- What an update does to the flash of a slave. -/
def updateOps (image : List UInt8) : List FlashOp :=
  erases image.length ++ programHalves appStartAddr (leHalves (padded image)) ++
    [.writeComplete, .jumpToApp]

/-- The update of a board alone, from between messages. -/
theorem update_alone {δ ε : Type} (app : Application δ ε) {device : Device}
    (submodule : device ≠ .olympus) {start : BootSerial (Board δ)} (ready : start.Ready)
    (between : start.device.boot.Idle) {c : Comms δ}
    (board : start.device.boot.env = ⟨.application c, []⟩) (idle : c.Idle) {image : List UInt8}
    (positive : 0 < image.length) (whole : image.length % 4 = 0)
    (fits : image.length ≤ 27 * 1024) :
    ∃ s, flashDevice (messageSubmodule app device.module) device image start = (some .noErr, s) ∧
      Clean start s ∧ s.device.boot.env.flash = updateOps image ∧
      s.device.boot.env.slave = .application (.reset app.start) := by
  have foreign : device.module ≠ .olympus := by
    intro own
    cases device <;> simp [Device.module] at own submodule
  have nonempty : image ≠ [] := List.length_pos_iff.mp positive
  obtain ⟨s₁, header, adds₁, ready₁, idle₁, selected, size, c₁, slave, waiting, prog⟩ :=
    writeHeader_idle app submodule ready between board idle (n := image.length) (by omega)
  obtain ⟨s₂, init, now₂, adds₂⟩ :=
    initData_ok app positive (by omega) ready₁ idle₁ selected size slave waiting prog
  obtain ⟨s₃, chunks, data, now₃, all, adds₃⟩ := writeChunks_ok app foreign positive (by omega)
    (numChunks image.length) image [] s₂ now₂ rfl whole (.inl (by simp))
  obtain ⟨s₄, checksum, adds₄, -, -, jumped⟩ :=
    writeChecksum_ok app foreign now₃ (by simpa using all)
  have adds := ((adds₁.trans adds₂).trans adds₃).trans adds₄
  refine ⟨s₄, ?_, ⟨_, adds.answers⟩, ?_, jumped⟩
  · rw [flashDevice, header, andThen_ok, init, andThen_ok,
      show (image.length + usbBuffSize - 1) / usbBuffSize = numChunks image.length from rfl, data,
      andThen_ok, checksum]
  · rw [adds.flash, if_neg nonempty, board]
    simp [Board.flash, updateOps]

theorem deviceKeyLut_foreign {device : Device} (submodule : device ≠ .olympus) :
    deviceKeyLut device ≠ MasterBoot.olympusKey := by
  cases device with
  | olympus => exact absurd rfl submodule
  | apollo | hermes | hephaestus | zeus | janus => decide

theorem length_leWords (bytes : List UInt8) (whole : bytes.length % 4 = 0) :
    4 * (leWords bytes).length = bytes.length := by
  induction bytes, whole using whole_words with
  | nil => rfl
  | word b₀ b₁ b₂ b₃ rest whole ih =>
      rw [leWords, List.length_cons]
      simp only [List.length_cons]
      omega

/-- The words of what the script writes. -/
theorem leWords_deviceBytes (device : Device) {file : List UInt8} (whole : file.length % 4 = 0) :
    leWords (deviceBytes device file) =
      updateWords (deviceKeyLut device) (UInt32.ofNat file.length) (leWords file)
        (leWords file).sum := by
  unfold deviceBytes updateWords
  rw [leWords_append (whole_wordBytes _), leWords_append (whole_wordBytes _), leWords_append whole,
    leWords_flatMap_wordBytes, leWords_flatMap_wordBytes, leWords_flatMap_wordBytes]
  rfl

/-- Between two devices: the master waits for a message, and nothing is left to read. -/
structure Between {σ : Type} (s : BootSerial σ) : Prop where
  ready : s.Ready
  idle : s.device.boot.Idle

/-- What the script wrote, and what the master did to its own flash. -/
structure Wrote {σ : Type} (link : MasterBoot.Link σ) (s s' : BootSerial σ) (bytes : List UInt8)
    (ops : List MasterBoot.FlashOp) : Prop where
  device : s'.device = (mainFSM link).after s.device bytes
  flash : MasterBoot.flashOps ((mainFSM link).outputs s.device bytes) = ops

/-- **A board that listens** is updated. -/
theorem flashDevice_present {device : Device} (submodule : device ≠ .olympus)
    {s : BootSerial (Fleet δ)} (between : Between s) {board : Board (δ device.module)}
    (there : s.device.boot.env device.module = some board) {c : Comms (δ device.module)}
    (slave : board.slave = .application c) (idle : c.Idle) {file : List UInt8}
    (positive : 0 < file.length) (whole : file.length % 4 = 0) (fits : file.length ≤ 27 * 1024) :
    ∃ (s' : BootSerial (Fleet δ)) (board' : Board (δ device.module)),
      flashDevice (messageFleet apps) device file s = (some .noErr, s') ∧ Between s' ∧
        s'.device.boot.env = Function.update s.device.boot.env device.module (some board') ∧
        board'.flash = board.flash ++ updateOps file ∧
        board'.slave = .application (.reset (apps device.module).start) ∧
        Wrote (messageFleet apps) s s' (deviceBytes device file) [] ∧
        s'.device.boot.dataAddr = s.device.boot.dataAddr := by
  -- the board by itself, with an empty log
  let alone := s.within fun _ => (⟨.application c, []⟩ : Board (δ device.module))
  let place := Fleet.place s.device.boot.env device.module board.log
  have same : alone.within place = s := by
    have env : place ⟨.application c, []⟩ = s.device.boot.env := by
      have board : (⟨.application c, board.log⟩ : Board (δ device.module)) = board := by
        rw [← slave]
      simp only [place, Fleet.place, List.append_nil, board, ← there, Function.update_eq_self]
    show (⟨s.checksum, ⟨s.device.dataIn, { s.device.boot with env := place ⟨.application c, []⟩ }⟩,
      s.inbox, s.calls⟩ : BootSerial (Fleet δ)) = s
    rw [env]
  have ready : alone.Ready := ⟨between.ready.aligned, between.ready.read⟩
  obtain ⟨s₁, flashed, clean, flash, jumped⟩ := update_alone (apps device.module) submodule ready
    ⟨between.idle.running, between.idle.msg, between.idle.count⟩ rfl idle positive whole fits
  have small : file.length < 4294967296 := by omega
  have lifted := flashDevice_lifts (embeds_fleet apps s.device.boot.env device.module board.log)
    device whole small alone ready (by
      rw [flashed]
      exact clean)
  rw [flashed] at lifted
  have wide : flashDevice (messageFleet apps) device file s =
      (some .noErr, s₁.within place) := by
    rw [← same]
    exact lifted
  obtain ⟨-, ready, -, reached, all⟩ := (flashDevice_writes (messageFleet apps) device whole
    small).clean s between.ready (by
      rw [wide]
      exact clean)
  rw [wide] at ready reached
  obtain ⟨state, outputs⟩ := MasterBoot.main_run (messageFleet apps) (deviceBytes device file)
    ((flashDevice_writes (messageFleet apps) device whole small).whole 0) s.device.boot
  rw [← between.ready.device, leWords_deviceBytes device whole] at state outputs
  rw [outputs] at all
  have length := length_leWords file whole
  obtain ⟨quiet, idle'⟩ := MasterBoot.submodule_quiet between.idle (leWords file).sum
    (deviceKeyLut_foreign submodule) (by
      rw [← List.length_pos_iff]
      omega) (by
      rw [length, UInt32.toNat_ofNat']
      omega) all
  rw [state] at reached
  refine ⟨s₁.within place, ⟨s₁.device.boot.env.slave, board.log ++ s₁.device.boot.env.log⟩, wide,
    ⟨ready, ?_⟩, rfl, ?_, jumped, ⟨?_, ?_⟩, ?_⟩
  · rw [reached]
    exact idle'
  · rw [← flash]
    unfold Board.flash
    rw [List.flatMap_append]
  · rw [reached, state]
  · rw [outputs]
    exact quiet.flash
  · rw [reached]
    exact quiet.dataAddr

end Fleet

end OlympusFirmware.Update
