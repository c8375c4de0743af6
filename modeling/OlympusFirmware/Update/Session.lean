import OlympusFirmware.Update.Fleet

/-!
# A session of the host's script

`Boot.py` flashes any number of devices one after the other. Boards that listen are updated, those
that do not are reported and left out, the master's own image is placed if it is in the list, and
at the end the master jumps to its application.
-/

namespace OlympusFirmware.Update

open OlympusFirmware.Lib OlympusFirmware.SlaveLib OlympusFirmware.SlaveBoot
open OlympusFirmware.UsbFlasher
open OlympusFirmware.MasterBoot (Boot Module Embeds Image Receiving mainFSM bootFSM responses
  appFlashSize programAll completeWrite userAppBaseAddr PlacedAt contents)

/-! ## The master itself -/

section Own

variable {σ : Type} {link : MasterBoot.Link σ} {image : Image}

/-- One call between others. -/
theorem writeMessage_clean (link : MasterBoot.Link σ) {s : BootSerial σ} (ready : s.Ready)
    {pkt : List UInt8} (whole : pkt.length % 4 = 0)
    (answer : responses ((bootFSM link).outputs s.device.boot (leWords pkt)) =
      [MasterBoot.noErr]) :
    ∃ s', writeMessage link pkt s = (some .noErr, s') ∧ s'.Ready ∧ Clean s s' ∧
      s'.checksum = s.checksum ∧
      s'.device.boot = (bootFSM link).after s.device.boot (leWords pkt) := by
  obtain ⟨s', call, ready', calls, checksum, -, boot⟩ := writeMessage_one ready whole answer
  exact ⟨s', call, ready', ⟨1, calls⟩, checksum, boot⟩

/-- The loop over the chunks, by induction on their number. -/
theorem own_chunks (link : MasterBoot.Link σ) (chunks : Nat) :
    ∀ (fp : List UInt8) (s : BootSerial σ), fp ≠ [] → fp.length % 4 = 0 →
      chunks = numChunks fp.length → s.Ready →
      Receiving image (leWords fp).length s.device.boot → s.device.boot.count.toNat % 64 = 0 →
      s.checksum = s.device.boot.checksum →
      ∃ s', writeChunks link chunks fp s = (some .noErr, s') ∧ Clean s s' ∧ s'.Ready ∧
        s'.device.boot.Idle ∧ s'.device.boot.module = .olympus ∧
        s'.checksum = s'.device.boot.checksum := by
  induction chunks with
  | zero =>
      intro fp s some _ counted
      have positive := List.length_pos_iff.mpr some
      rw [numChunks] at counted
      omega
  | succ chunks ih =>
      intro fp s some whole counted ready now aligned sum
      have size : usbBuffSize = 64 := rfl
      have positive := List.length_pos_iff.mpr some
      rw [numChunks] at counted
      have lengthFirst : (fp.take usbBuffSize).length = min 64 fp.length := by
        rw [List.length_take, size]
      have lengthRest : (fp.drop usbBuffSize).length = fp.length - 64 := by
        rw [List.length_drop, size]
      have wholeFirst : (fp.take usbBuffSize).length % 4 = 0 := by omega
      have wholeRest : (fp.drop usbBuffSize).length % 4 = 0 := by omega
      have wordsFirst := length_leWords _ wholeFirst
      have wordsRest := length_leWords _ wholeRest
      have words : leWords fp = leWords (fp.take usbBuffSize) ++ leWords (fp.drop usbBuffSize) := by
        rw [← leWords_append wholeFirst, List.take_append_drop]
      rw [words, List.length_append] at now
      have someWords : leWords (fp.take usbBuffSize) ≠ [] := by
        rw [← List.length_pos_iff]
        omega
      obtain ⟨answer, checksum, ends, goesOn⟩ := MasterBoot.own_chunk link _ _ _ someWords now
        (by omega) (by omega)
      obtain ⟨s₁, written, ready₁, clean₁, sum₁, boot₁⟩ := writeMessage_clean link
        (s := { s with checksum := s.checksum + sliceSum (fp.take usbBuffSize) })
        ⟨ready.aligned, ready.read⟩ wholeFirst answer
      rw [← boot₁] at checksum ends goesOn
      have sums : s₁.checksum = s₁.device.boot.checksum := by
        rw [sum₁, checksum, ← sum, sliceSum_eq _ wholeFirst]
      unfold writeChunks UsbFlasher.writeData
      rw [written, andThen_ok]
      by_cases last : fp.drop usbBuffSize = []
      · have none : (leWords (fp.drop usbBuffSize)).length = 0 := by
          rw [last]
          rfl
        have noMore : chunks = 0 := by
          rw [last, List.length_nil] at lengthRest
          omega
        subst noMore
        exact ⟨s₁, rfl, clean₁, ready₁, (ends none).1, (ends none).2, sums⟩
      · have more : (leWords (fp.drop usbBuffSize)).length ≠ 0 := by
          have rest := List.length_pos_iff.mpr last
          omega
        obtain ⟨receiving, count⟩ := goesOn more
        have rest := List.length_pos_iff.mpr last
        obtain ⟨s', loop, clean', result⟩ := ih (fp.drop usbBuffSize) s₁ last wholeRest
          (by rw [numChunks]; omega) ready₁ receiving (by rw [count]; omega) sums
        exact ⟨s', loop, Clean.trans clean₁ clean', result⟩

/-- **The master's own update** is answered with `NO_ERR` only. -/
theorem flashDevice_own (link : MasterBoot.Link σ) {s : BootSerial σ} (between : Between s)
    {file : List UInt8} (positive : 0 < file.length) (whole : file.length % 4 = 0)
    (fits : file.length ≤ appFlashSize) :
    ∃ s', flashDevice link .olympus file s = (some .noErr, s') ∧ Clean s s' := by
  have length := length_leWords file whole
  have nonempty : leWords file ≠ [] := by
    rw [← List.length_pos_iff]
    omega
  let image : Image := ⟨leWords file, nonempty, length.symm ▸ fits⟩
  have size : UInt32.ofNat file.length = image.size := by
    show _ = UInt32.ofNat (4 * (leWords file).length)
    rw [length]
  have small : file.length < 4294967296 := by
    rw [appFlashSize] at fits
    omega
  -- the header
  obtain ⟨b₁, reached, -, idle₁, module, header, -, sum⟩ :=
    MasterBoot.header_olympus link between.idle image.size
  obtain ⟨s₁, written₁, ready₁, clean₁, -, boot₁⟩ := writeMessage_clean link between.ready
    (whole_wordBytes [2, deviceKeyLut .olympus, UInt32.ofNat file.length, flashKey]) (by
      rw [leWords_flatMap_wordBytes, size]
      exact MasterBoot.own_header between.idle image.size)
  rw [leWords_flatMap_wordBytes, size] at boot₁
  replace boot₁ := boot₁.trans reached
  -- the start of the data
  have step : (bootFSM link).step b₁ 0 = _ :=
    MasterBoot.bootStep_dmy_data link idle₁.running idle₁.msg
  obtain ⟨s₂, written₂, ready₂, clean₂, sum₂, boot₂⟩ := writeMessage_clean link
    (s := { s₁ with checksum := 0 }) ⟨ready₁.aligned, ready₁.read⟩ (whole_wordBytes [0]) (by
      rw [leWords_flatMap_wordBytes]
      show responses ((bootFSM link).outputs s₁.device.boot [0]) = _
      rw [boot₁]
      simp [Fsm.emit, step])
  rw [leWords_flatMap_wordBytes] at boot₂
  replace boot₂ : s₂.device.boot = { b₁ with msg := .data } := by
    refine boot₂.trans ?_
    show (bootFSM link).after s₁.device.boot [0] = _
    rw [boot₁]
    exact congrArg Prod.fst step
  have receiving : Receiving image (leWords file).length s₂.device.boot := by
    rw [boot₂]
    refine ⟨idle₁.running, rfl, module, header, ?_⟩
    show b₁.count.toNat + _ = _
    rw [idle₁.count, image.size_toNat]
    exact Nat.zero_add _
  -- the chunks and the checksum
  obtain ⟨s₃, loop, clean₃, ready₃, idle₃, own₃, sum₃⟩ := own_chunks link
    (numChunks file.length) file s₂ (List.length_pos_iff.mp positive) whole rfl ready₂ receiving
    (by
      rw [boot₂]
      show b₁.count.toNat % 64 = 0
      rw [idle₁.count]
      rfl)
    (by
      rw [sum₂, boot₂]
      exact sum.symm)
  obtain ⟨s₄, written₄, -, clean₄, -⟩ := writeMessage_clean link ready₃
    (whole_wordBytes [1, s₃.checksum]) (by
      rw [leWords_flatMap_wordBytes, MasterBoot.checksum_olympus link idle₃ own₃, if_pos sum₃])
  refine ⟨s₄, ?_, ((Clean.trans clean₁ clean₂).trans clean₃).trans clean₄⟩
  have headerCall : UsbFlasher.writeHeader link .olympus file.length s = (some .noErr, s₁) := by
    unfold UsbFlasher.writeHeader
    rw [if_pos small]
    exact written₁
  rw [flashDevice, headerCall, andThen_ok, show initData link s₁ = _ from written₂, andThen_ok,
    show (file.length + usbBuffSize - 1) / usbBuffSize = numChunks file.length from rfl, loop,
    andThen_ok]
  exact written₄

/-- What the master's own update does to its flash. -/
def ownOps (dataAddr : UInt32) (file : List UInt8) : List MasterBoot.FlashOp :=
  MasterBoot.writeInit (UInt32.ofNat file.length) ++ programAll dataAddr (leWords file) ++
    [completeWrite]

/-- Its effect, with the write pointer at the start of the application. -/
theorem ownOps_placed {file : List UInt8} (positive : 0 < file.length)
    (whole : file.length % 4 = 0) (fits : file.length ≤ appFlashSize) (flash : Mem UInt32) :
    PlacedAt (contents flash (ownOps userAppBaseAddr file)) (leWords file) := by
  have length := length_leWords file whole
  rw [appFlashSize] at fits
  have size : (UInt32.ofNat file.length).toNat = file.length := by
    rw [UInt32.toNat_ofNat']
    omega
  have clean : ∀ i < (leWords file).length, contents flash
      (MasterBoot.writeInit (UInt32.ofNat file.length)) (userAppBaseAddr.toNat + 4 * i) =
        MasterBoot.erased := by
    intro i inside
    exact MasterBoot.contents_writeInit (by rw [size]; exact fits) flash (by omega) (by omega)
  have start : userAppBaseAddr.toNat = (userAppBaseAddr.toNat + 4 * 0) % 4294967296 := rfl
  have placed := (MasterBoot.placedAt_iff start (by rw [length]; exact fits) clean).mpr
    (.inl (dvd_zero _))
  unfold ownOps
  rw [MasterBoot.contents_append, MasterBoot.contents_append]
  exact placed

end Own

/-! ## All devices -/

section Session

variable {δ ε : Module → Type} (apps : (module : Module) → Application (δ module) (ε module))

/-- The files for a module, in order. -/
def filesFor (module : Module) (mcus : List (Device × List UInt8)) : List (List UInt8) :=
  (mcus.filter fun mcu => mcu.1.module = module).map Prod.snd

/-- The file is not empty, consists of words and fits the flash. -/
structure Fits (mcu : Device × List UInt8) : Prop where
  positive : 0 < mcu.2.length
  whole : mcu.2.length % 4 = 0
  fits : mcu.2.length ≤ if mcu.1 = .olympus then appFlashSize else 27 * 1024

/-- Nobody is at the master's own place, and the boards run their applications. -/
structure Listening (fleet : Fleet δ) : Prop where
  own : fleet .olympus = none
  idle : ∀ module board, fleet module = some board →
    ∃ c, board.slave = .application c ∧ c.Idle

/-- The device responds. -/
def Responds (fleet : Fleet δ) (device : Device) : Prop :=
  device = .olympus ∨ (fleet device.module).isSome

instance (fleet : Fleet δ) (device : Device) : Decidable (Responds fleet device) :=
  inferInstanceAs (Decidable (_ ∨ _))

/-- What becomes of a device, as the script prints it. -/
def outcome (fleet : Fleet δ) (mcu : Device × List UInt8) : Option BootError :=
  if Responds fleet mcu.1 then some .noErr else some .errPreRebootStatus

/-- What is written to it: of a device that does not answer, only the header. -/
def sessionBytes (fleet : Fleet δ) (mcu : Device × List UInt8) : List UInt8 :=
  if Responds fleet mcu.1 then deviceBytes mcu.1 mcu.2
  else [2, deviceKeyLut mcu.1, UInt32.ofNat mcu.2.length, flashKey].flatMap wordBytes

/-- The boards that listen got the files that are for them, in order, and run their applications
again; a board without a file is as it was. -/
structure Updated (fleet fleet' : Fleet δ) (mcus : List (Device × List UInt8)) : Prop where
  missing : ∀ module, fleet module = none → fleet' module = none
  updated : ∀ module board, fleet module = some board → ∃ board', fleet' module = some board' ∧
    board'.flash = board.flash ++ (filesFor module mcus).flatMap updateOps ∧
    (filesFor module mcus = [] → board' = board)
  listening : Listening fleet'

/-- **A board that does not listen** is reported, and nothing else happens. -/
theorem flashDevice_absent {device : Device} (submodule : device ≠ .olympus)
    {s : BootSerial (Fleet δ)} (between : Between s)
    (absent : s.device.boot.env device.module = none) (file : List UInt8)
    (small : file.length < 4294967296) :
    ∃ s', flashDevice (messageFleet apps) device file s = (some .errPreRebootStatus, s') ∧
      Between s' ∧ s'.device.boot.env = s.device.boot.env ∧
      Wrote (messageFleet apps) s s'
        ([2, deviceKeyLut device, UInt32.ofNat file.length, flashKey].flatMap wordBytes) [] ∧
      s'.device.boot.dataAddr = s.device.boot.dataAddr := by
  have key := moduleOfKey_deviceKeyLut device
  have refused : messageFleet apps (MasterBoot.moduleOfKey (deviceKeyLut device)) 0x00 []
      s.device.boot.env = (commsErrTimeout, s.device.boot.env) := by
    unfold messageFleet
    rw [key, absent]
  have known : MasterBoot.moduleOfKey (deviceKeyLut device) ≠ .none := by
    rw [key]
    cases device <;> simp [Device.module]
  have foreign := deviceKeyLut_foreign submodule
  have words := leWords_flatMap_wordBytes
    [2, deviceKeyLut device, UInt32.ofNat file.length, flashKey]
  obtain ⟨answer, env⟩ := MasterBoot.header_refused between.idle (UInt32.ofNat file.length) known
    foreign (by decide) refused
  obtain ⟨quiet, idle, -⟩ := MasterBoot.header_quiet (messageFleet apps) between.idle
    (UInt32.ofNat file.length) flashKey foreign
  have whole := whole_wordBytes [2, deviceKeyLut device, UInt32.ofNat file.length, flashKey]
  obtain ⟨s', call, ready, -, -, device', boot⟩ := writeMessage_one between.ready whole (by
    rw [words]
    exact answer)
  rw [words] at boot
  have header : UsbFlasher.writeHeader (messageFleet apps) device file.length s =
      (some .errPreRebootStatus, s') := by
    unfold UsbFlasher.writeHeader
    rw [if_pos small]
    exact call
  obtain ⟨-, outputs⟩ := MasterBoot.main_run (messageFleet apps) _ whole s.device.boot
  rw [← between.ready.device, words] at outputs
  refine ⟨s', ?_, ⟨ready, boot ▸ idle⟩, boot ▸ env, ⟨device', ?_⟩, boot ▸ quiet.dataAddr⟩
  · unfold flashDevice
    rw [header]
    rfl
  · rw [outputs]
    exact quiet.flash

/-- **The master itself**, whose update does not touch the boards. -/
theorem flashDevice_master {s : BootSerial (Fleet δ)} (between : Between s)
    (own : s.device.boot.env .olympus = none) {file : List UInt8} (positive : 0 < file.length)
    (whole : file.length % 4 = 0) (fits : file.length ≤ appFlashSize) :
    ∃ s', flashDevice (messageFleet apps) .olympus file s = (some .noErr, s') ∧ Between s' ∧
      s'.device.boot.env = s.device.boot.env ∧
      Wrote (messageFleet apps) s s' (deviceBytes .olympus file)
        (ownOps s.device.boot.dataAddr file) := by
  have small : file.length < 4294967296 := by
    rw [appFlashSize] at fits
    omega
  -- the master without any board
  let nobody : MasterBoot.Link Unit := fun _ _ _ _ => (commsErrTimeout, ())
  have embeds : Embeds nobody (messageFleet apps) .olympus fun _ => s.device.boot.env := by
    refine ⟨?_, ?_⟩
    · intro msgType data _
      unfold messageFleet
      rw [own]
    · intro other msgType data _ _
      show commsErrTimeout ≠ MasterBoot.commsOk
      decide
  let alone := s.within fun _ => ()
  have betweenAlone : Between alone :=
    ⟨⟨between.ready.aligned, between.ready.read⟩,
      ⟨between.idle.running, between.idle.msg, between.idle.count⟩⟩
  obtain ⟨s₁, flashed, clean⟩ := flashDevice_own nobody betweenAlone positive whole fits
  have lifted := flashDevice_lifts embeds .olympus whole small alone betweenAlone.ready (by
    rw [flashed]
    exact clean)
  rw [flashed] at lifted
  have wide : flashDevice (messageFleet apps) .olympus file s =
      (some .noErr, s₁.within fun _ => s.device.boot.env) := lifted
  have writes := flashDevice_writes (messageFleet apps) .olympus whole small
  obtain ⟨-, ready, -, reached, -⟩ := writes.clean s between.ready (by
    rw [wide]
    exact clean)
  rw [wide] at ready reached
  obtain ⟨state, outputs⟩ := MasterBoot.main_run (messageFleet apps) (deviceBytes .olympus file)
    (writes.whole 0) s.device.boot
  rw [← between.ready.device, leWords_deviceBytes .olympus whole] at state outputs
  have length := length_leWords file whole
  have nonempty : leWords file ≠ [] := by
    rw [← List.length_pos_iff]
    omega
  let image : Image := ⟨leWords file, nonempty, length.symm ▸ fits⟩
  have size : image.size = UInt32.ofNat file.length := by
    show UInt32.ofNat (4 * (leWords file).length) = _
    rw [length]
  obtain ⟨flash, idle⟩ := MasterBoot.own_flash (messageFleet apps) between.idle image
    (leWords file).sum
  rw [size] at flash idle
  rw [state] at reached
  refine ⟨_, wide, ⟨ready, ?_⟩, rfl, ⟨?_, ?_⟩⟩
  · rw [reached]
    exact idle
  · rw [reached, state]
  · rw [outputs]
    exact flash

theorem filesFor_append (module : Module) (xs ys : List (Device × List UInt8)) :
    filesFor module (xs ++ ys) = filesFor module xs ++ filesFor module ys := by
  unfold filesFor
  rw [List.filter_append, List.map_append]

theorem filesFor_other {module : Module} {mcu : Device × List UInt8}
    (other : mcu.1.module ≠ module) : filesFor module [mcu] = [] := by
  unfold filesFor
  rw [List.filter_cons_of_neg (by simpa using other)]
  rfl

theorem filesFor_self (mcu : Device × List UInt8) : filesFor mcu.1.module [mcu] = [mcu.2] := by
  unfold filesFor
  rw [List.filter_cons_of_pos (by simp)]
  rfl

theorem module_ne_olympus {device : Device} (submodule : device ≠ .olympus) :
    device.module ≠ .olympus := by
  intro own
  cases device <;> simp [Device.module] at own submodule

/-- Boards none of which has a file. -/
theorem Updated.refl {fleet : Fleet δ} (listening : Listening fleet)
    {mcus : List (Device × List UInt8)}
    (none : ∀ module board, fleet module = some board → filesFor module mcus = []) :
    Updated fleet fleet mcus := by
  refine ⟨fun _ => id, ?_, listening⟩
  intro module board there
  refine ⟨board, there, ?_, fun _ => rfl⟩
  rw [none module board there]
  exact (List.append_nil _).symm

theorem Updated.trans {fleet fleet' fleet'' : Fleet δ} {xs ys : List (Device × List UInt8)}
    (first : Updated fleet fleet' xs) (then_ : Updated fleet' fleet'' ys) :
    Updated fleet fleet'' (xs ++ ys) := by
  refine ⟨fun module absent => then_.missing module (first.missing module absent), ?_,
    then_.listening⟩
  intro module board there
  obtain ⟨board', there', flash', same'⟩ := first.updated module board there
  obtain ⟨board'', there'', flash'', same''⟩ := then_.updated module board' there'
  refine ⟨board'', there'', ?_, ?_⟩
  · rw [flash'', flash', filesFor_append, List.flatMap_append, List.append_assoc]
  · intro none
    rw [filesFor_append, List.append_eq_nil_iff] at none
    rw [same'' none.2, same' none.1]

/-- Who responds stays the same. -/
theorem Updated.responds {fleet fleet' : Fleet δ} {mcus : List (Device × List UInt8)}
    (updated : Updated fleet fleet' mcus) (device : Device) :
    Responds fleet' device ↔ Responds fleet device := by
  unfold Responds
  cases there : fleet device.module with
  | none => rw [updated.missing _ there]
  | some board =>
      obtain ⟨board', there', -⟩ := updated.updated _ _ there
      rw [there']
      simp

theorem Wrote.trans {σ : Type} {link : MasterBoot.Link σ} {s s' s'' : BootSerial σ}
    {xs ys : List UInt8} {ops ops' : List MasterBoot.FlashOp} (first : Wrote link s s' xs ops)
    (then_ : Wrote link s' s'' ys ops') : Wrote link s s'' (xs ++ ys) (ops ++ ops') := by
  refine ⟨?_, ?_⟩
  · rw [then_.device, first.device, Fsm.after_append]
  · rw [Fsm.outputs_append, MasterBoot.flashOps_append, first.flash, ← first.device, then_.flash]

/-- **One device of the list.** -/
theorem flashDevice_fleet {s : BootSerial (Fleet δ)} (between : Between s)
    (listening : Listening s.device.boot.env) {mcu : Device × List UInt8} (fits : Fits mcu) :
    ∃ s', flashDevice (messageFleet apps) mcu.1 mcu.2 s = (outcome s.device.boot.env mcu, s') ∧
      Between s' ∧ Updated s.device.boot.env s'.device.boot.env [mcu] ∧
      Wrote (messageFleet apps) s s' (sessionBytes s.device.boot.env mcu)
        ((filesFor .olympus [mcu]).flatMap (ownOps s.device.boot.dataAddr)) ∧
      (mcu.1 ≠ .olympus → s'.device.boot.dataAddr = s.device.boot.dataAddr) := by
  obtain ⟨device, file⟩ := mcu
  have fitsFlash := fits.fits
  dsimp only at fitsFlash ⊢
  unfold outcome sessionBytes
  by_cases own : device = .olympus
  · subst own
    rw [if_pos rfl] at fitsFlash
    obtain ⟨s', flashed, between', env, wrote⟩ :=
      flashDevice_master apps between listening.own fits.positive fits.whole fitsFlash
    rw [if_pos (.inl rfl), if_pos (.inl rfl), flashed]
    refine ⟨s', rfl, between', ?_, ?_, fun foreign => absurd rfl foreign⟩
    · rw [env]
      refine .refl listening ?_
      intro module board there
      refine filesFor_other ?_
      rintro rfl
      exact Option.some_ne_none board (there.symm.trans listening.own)
    · have files : filesFor .olympus [(Device.olympus, file)] = [file] :=
        filesFor_self (.olympus, file)
      rw [files, List.flatMap_singleton]
      exact wrote
  rw [if_neg own] at fitsFlash
  have none : filesFor .olympus [(device, file)] = [] := filesFor_other (module_ne_olympus own)
  rw [none, List.flatMap_nil]
  cases there : s.device.boot.env device.module with
  | none =>
      have silent : ¬ Responds s.device.boot.env device := by
        unfold Responds
        rw [there]
        simp [own]
      obtain ⟨s', flashed, between', env, wrote, pointer⟩ :=
        flashDevice_absent apps own between there file (by omega)
      rw [if_neg silent, if_neg silent, flashed]
      refine ⟨s', rfl, between', ?_, wrote, fun _ => pointer⟩
      rw [env]
      refine .refl listening ?_
      intro module board is
      refine filesFor_other ?_
      rintro rfl
      exact Option.some_ne_none board (is.symm.trans there)
  | some board =>
      have responds : Responds s.device.boot.env device := by
        unfold Responds
        rw [there]
        simp
      obtain ⟨c, slave, idle⟩ := listening.idle _ _ there
      obtain ⟨s', board', flashed, between', env, flash, restarted, wrote, pointer⟩ :=
        flashDevice_present apps own between there slave idle fits.positive fits.whole fitsFlash
      rw [if_pos responds, if_pos responds, flashed]
      refine ⟨s', rfl, between', ?_, wrote, fun _ => pointer⟩
      rw [env]
      refine ⟨?_, ?_, ?_, ?_⟩
      · intro module absent
        have other : module ≠ device.module := by
          rintro rfl
          rw [there] at absent
          cases absent
        rw [Function.update_of_ne other, absent]
      · intro module before is
        by_cases same : module = device.module
        · subst same
          rw [there] at is
          obtain rfl := Option.some.inj is
          have files : filesFor device.module [(device, file)] = [file] :=
            filesFor_self (device, file)
          refine ⟨board', Function.update_self .., ?_, ?_⟩
          · rw [files, List.flatMap_singleton]
            exact flash
          · intro none
            rw [files] at none
            cases none
        · rw [Function.update_of_ne same]
          have none : filesFor module [(device, file)] = [] := filesFor_other (Ne.symm same)
          rw [none]
          exact ⟨before, is, (List.append_nil _).symm, fun _ => rfl⟩
      · rw [Function.update_of_ne (Ne.symm (module_ne_olympus own)), listening.own]
      · intro module after is
        by_cases same : module = device.module
        · subst same
          rw [Function.update_self] at is
          obtain rfl := Option.some.inj is
          exact ⟨_, restarted, rfl, rfl⟩
        · rw [Function.update_of_ne same] at is
          exact listening.idle module after is

/-- The loop, by induction on the list. -/
theorem flashAll_fleet (mcus : List (Device × List UInt8)) :
    ∀ s : BootSerial (Fleet δ), Between s → Listening s.device.boot.env →
      (∀ mcu ∈ mcus, Fits mcu) → (filesFor .olympus mcus).length ≤ 1 →
      ∃ s', flashAll (messageFleet apps) mcus s =
          (mcus.map (outcome s.device.boot.env), s') ∧
        Between s' ∧ Updated s.device.boot.env s'.device.boot.env mcus ∧
        Wrote (messageFleet apps) s s' (mcus.flatMap (sessionBytes s.device.boot.env))
          ((filesFor .olympus mcus).flatMap (ownOps s.device.boot.dataAddr)) := by
  induction mcus with
  | nil =>
      intro s between listening _ _
      exact ⟨s, rfl, between, .refl listening fun _ _ _ => rfl, rfl, rfl⟩
  | cons mcu rest ih =>
      intro s between listening fits once
      have split : filesFor .olympus (mcu :: rest) =
          filesFor .olympus [mcu] ++ filesFor .olympus rest := filesFor_append _ [mcu] rest
      rw [split, List.length_append] at once
      obtain ⟨s₁, flashed, between₁, updated₁, wrote₁, pointer⟩ :=
        flashDevice_fleet apps between listening (fits mcu List.mem_cons_self)
      obtain ⟨s', later, between', updated', wrote'⟩ := ih s₁ between₁ updated₁.listening
        (fun other member => fits other (List.mem_cons_of_mem _ member)) (by omega)
      have outcomes : outcome s₁.device.boot.env = outcome s.device.boot.env := by
        funext other
        unfold outcome
        simp only [updated₁.responds]
      have bytes : sessionBytes s₁.device.boot.env = sessionBytes s.device.boot.env := by
        funext other
        unfold sessionBytes
        simp only [updated₁.responds]
      have ops : (filesFor .olympus rest).flatMap (ownOps s₁.device.boot.dataAddr) =
          (filesFor .olympus rest).flatMap (ownOps s.device.boot.dataAddr) := by
        by_cases own : mcu.1 = .olympus
        · -- the pointer has moved, but there is no other file for the master
          have one : (filesFor .olympus [mcu]).length = 1 := by
            have files := filesFor_self mcu
            rw [own] at files
            exact congrArg List.length files
          have none : filesFor .olympus rest = [] := List.length_eq_zero_iff.mp (by omega)
          rw [none]
          rfl
        · rw [pointer own]
      rw [outcomes] at later
      rw [bytes, ops] at wrote'
      have known : ¬ outcome s.device.boot.env mcu = none := by
        unfold outcome
        split
        · exact Option.some_ne_none _
        · exact Option.some_ne_none _
      refine ⟨s', ?_, between', updated₁.trans updated', ?_⟩
      · unfold flashAll
        dsimp only
        rw [flashed, if_neg known, later]
        rfl
      · rw [split, List.flatMap_append]
        exact wrote₁.trans wrote'

end Session

end OlympusFirmware.Update
