import OlympusFirmware.MasterBoot.Within
import OlympusFirmware.UsbFlasher.Boot

/-!
# The host's script (`usbFlasher/Boot.py`)

The script flashes the devices it is given one after the other, goes on behind an error, and has
the master jump to its application. What it writes depends on the answers; as long as all of them
are `NO_ERR` it is known beforehand (`Writes`), and the script does the same with a device in a
larger environment (`writeMessage_within`, `flashDevice_within`).
-/

namespace OlympusFirmware.UsbFlasher

open OlympusFirmware.Lib OlympusFirmware.MasterBoot

variable {σ τ : Type}

section Main

variable (link : Link σ)

/-- `writeJump`. -/
def writeJump (s : BootSerial σ) : Result σ :=
  writeMessage link ([3].flatMap wordBytes) s

/-- The loop over the MCUs and their files, with what each came to. An exception ends it. -/
def flashAll : List (Device × List UInt8) → BootSerial σ → List (Option BootError) × BootSerial σ
  | [], s => ([], s)
  | (mcu, file) :: rest, s =>
      let result := flashDevice link mcu file s
      if result.1 = none then ([none], result.2)
      else
        let later := flashAll rest result.2
        (result.1 :: later.1, later.2)

/-- The script, with the port of the bootloader. It refuses a list of several MCUs that does not
end with `olympus`. -/
def bootMain (mcus : List (Device × List UInt8)) (s : BootSerial σ) :
    Option (List (Option BootError) × BootSerial σ) :=
  if 1 < mcus.length ∧ mcus.getLast?.map Prod.fst ≠ some .olympus then none
  else
    let flashed := flashAll link mcus s
    if none ∈ flashed.1 then some flashed
    else
      let jumped := writeJump link flashed.2
      some (flashed.1 ++ [jumped.1], jumped.2)

end Main

/-! ## What is written -/

/-- All calls in between were answered with one `NO_ERR`. -/
def Clean (s s' : BootSerial σ) : Prop :=
  ∃ k, s'.calls = s.calls ++ List.replicate k [MasterBoot.noErr]

/-- A part of the script that is answered with `NO_ERR` only writes `bytes` and leaves the
checksum `sum`, which both may depend on the checksum before. -/
structure Writes (link : Link σ) (part : BootSerial σ → Result σ) (bytes : UInt32 → List UInt8)
    (sum : UInt32 → UInt32) : Prop where
  grows : ∀ s, s.calls <+: (part s).2.calls
  whole : ∀ checksum, (bytes checksum).length % 4 = 0
  clean : ∀ s, s.Ready → Clean s (part s).2 →
    (part s).1 = some .noErr ∧ (part s).2.Ready ∧ (part s).2.checksum = sum s.checksum ∧
      (part s).2.device = (mainFSM link).after s.device (bytes s.checksum) ∧
      AllNoErr ((mainFSM link).outputs s.device (bytes s.checksum))

section Writes

variable {link : Link σ}

theorem BootSerial.Ready.device {s : BootSerial σ} (ready : s.Ready) :
    s.device = ⟨[], s.device.boot⟩ := by
  rw [← ready.aligned]

/-- What comes before a clean end is clean. -/
theorem Clean.of_prefix {s s' s'' : BootSerial σ} (clean : Clean s s'')
    (first : s.calls <+: s'.calls) (then_ : s'.calls <+: s''.calls) :
    Clean s s' ∧ Clean s' s'' := by
  obtain ⟨k, calls⟩ := clean
  obtain ⟨new, first⟩ := first
  obtain ⟨new', then_⟩ := then_
  rw [← then_, ← first, List.append_assoc, List.append_cancel_left_eq,
    List.append_eq_replicate_iff] at calls
  obtain ⟨-, all, all'⟩ := calls
  exact ⟨⟨_, first.symm.trans (congrArg _ all)⟩, ⟨_, then_.symm.trans (congrArg _ all')⟩⟩

/-- The sum of two calls. -/
theorem Clean.trans {s s' s'' : BootSerial σ} (first : Clean s s') (then_ : Clean s' s'') :
    Clean s s'' := by
  obtain ⟨k, calls⟩ := first
  obtain ⟨k', calls'⟩ := then_
  refine ⟨k + k', ?_⟩
  rw [calls', calls, List.append_assoc, List.replicate_add]

/-- A part that ends clean was not left early. -/
theorem Writes.andThen {part next : BootSerial σ → Result σ} {bytes bytes' : UInt32 → List UInt8}
    {sum sum' : UInt32 → UInt32} (first : Writes link part bytes sum)
    (then_ : Writes link next bytes' sum') :
    Writes link (fun s => andThen (part s) next) (fun c => bytes c ++ bytes' (sum c))
      (fun c => sum' (sum c)) := by
  refine ⟨?_, ?_, ?_⟩
  · intro s
    unfold UsbFlasher.andThen
    split
    · exact (first.grows s).trans (then_.grows _)
    · exact first.grows s
  · intro c
    have whole := first.whole c
    have whole' := then_.whole (sum c)
    rw [List.length_append]
    omega
  · intro s ready clean
    have ok : (part s).1 = some .noErr := by
      by_contra failed
      unfold UsbFlasher.andThen at clean
      rw [if_neg failed] at clean
      exact failed (first.clean s ready clean).1
    unfold UsbFlasher.andThen at clean ⊢
    rw [if_pos ok] at clean ⊢
    obtain ⟨cleanFirst, cleanThen⟩ := clean.of_prefix (first.grows s) (then_.grows _)
    obtain ⟨-, ready', checksum, device, all⟩ := first.clean s ready cleanFirst
    obtain ⟨ok', ready'', checksum', device', all'⟩ := then_.clean _ ready' cleanThen
    rw [checksum] at checksum' device' all'
    rw [device] at device' all'
    refine ⟨ok', ready'', checksum', ?_, ?_⟩
    · rw [device', Fsm.after_append]
    · intro response member
      rw [Fsm.outputs_append, responses_append, List.mem_append] at member
      exact member.elim (all _) (all' _)

/-- What a call makes of the port. -/
theorem writeMessage_calls (pkt : List UInt8) (s : BootSerial σ) :
    (writeMessage link pkt s).2.calls =
        s.calls ++ [responses ((mainFSM link).outputs s.device pkt)] ∧
      (writeMessage link pkt s).2.device = (mainFSM link).after s.device pkt ∧
      (writeMessage link pkt s).2.checksum = s.checksum := by
  unfold writeMessage
  dsimp only
  split
  · exact ⟨rfl, rfl, rfl⟩
  · exact ⟨rfl, rfl, rfl⟩

/-- A call that is answered with one byte. -/
theorem writeMessage_one {s : BootSerial σ} (ready : s.Ready) {pkt : List UInt8}
    (whole : pkt.length % 4 = 0) {response : UInt8}
    (answer : responses ((bootFSM link).outputs s.device.boot (leWords pkt)) = [response]) :
    ∃ s', writeMessage link pkt s = (BootError.ofByte response, s') ∧ s'.Ready ∧
      s'.calls = s.calls ++ [[response]] ∧ s'.checksum = s.checksum ∧
      s'.device = (mainFSM link).after s.device pkt ∧
      s'.device.boot = (bootFSM link).after s.device.boot (leWords pkt) := by
  obtain ⟨reached, emitted⟩ := main_run link pkt whole s.device.boot
  rw [← ready.device] at reached emitted
  unfold writeMessage
  rw [emitted, answer, reached, ready.read]
  exact ⟨_, rfl, ⟨rfl, rfl⟩, rfl, rfl, rfl, rfl⟩

/-- One call, whose packet may hold the checksum. -/
theorem writeMessage_writes (pkt : UInt32 → List UInt8) (whole : ∀ c, (pkt c).length % 4 = 0) :
    Writes link (fun s => writeMessage link (pkt s.checksum) s) pkt id := by
  refine ⟨?_, whole, ?_⟩
  · intro s
    rw [(writeMessage_calls _ s).1]
    exact List.prefix_append _ _
  · intro s ready clean
    have answer : responses ((mainFSM link).outputs s.device (pkt s.checksum)) =
        [MasterBoot.noErr] := by
      obtain ⟨k, clean⟩ := clean
      rw [(writeMessage_calls _ s).1, List.append_cancel_left_eq] at clean
      have one := congrArg List.length clean
      rw [List.length_replicate] at one
      rw [← one] at clean
      exact List.head_eq_of_cons_eq clean
    obtain ⟨reached, emitted⟩ := main_run link (pkt s.checksum) (whole _) s.device.boot
    rw [← ready.device] at reached emitted
    rw [emitted] at answer
    rw [writeMessage_ok link ready (whole _) rfl answer]
    refine ⟨rfl, ⟨rfl, rfl⟩, rfl, reached.symm, ?_⟩
    intro response member
    rw [emitted, answer] at member
    exact List.eq_of_mem_singleton member

/-- A part that starts with another checksum. -/
theorem Writes.withChecksum {part : BootSerial σ → Result σ} {bytes : UInt32 → List UInt8}
    {sum : UInt32 → UInt32} (writes : Writes link part bytes sum) (start : UInt32 → UInt32) :
    Writes link (fun s => part { s with checksum := start s.checksum }) (fun c => bytes (start c))
      (fun c => sum (start c)) :=
  ⟨fun s => writes.grows { s with checksum := start s.checksum }, fun _ => writes.whole _,
    fun s ready clean => writes.clean { s with checksum := start s.checksum }
      ⟨ready.aligned, ready.read⟩ clean⟩

theorem whole_wordBytes (words : List UInt32) : (words.flatMap wordBytes).length % 4 = 0 := by
  rw [length_flatMap_wordBytes, Nat.mul_mod_right]

variable (link)

theorem writeHeader_writes (device : Device) {size : Nat} (small : size < 4294967296) :
    Writes link (writeHeader link device size)
      (fun _ => [2, deviceKeyLut device, UInt32.ofNat size, flashKey].flatMap wordBytes) id := by
  have call : writeHeader link device size = fun s => writeMessage link
      ([2, deviceKeyLut device, UInt32.ofNat size, flashKey].flatMap wordBytes) s := by
    funext s
    unfold writeHeader
    rw [if_pos small]
  rw [call]
  exact writeMessage_writes
    (fun _ => [2, deviceKeyLut device, UInt32.ofNat size, flashKey].flatMap wordBytes)
    fun _ => whole_wordBytes _

theorem initData_writes :
    Writes link (initData link) (fun _ => [0].flatMap wordBytes) (fun _ => 0) :=
  (writeMessage_writes (fun _ => [0].flatMap wordBytes) fun _ => whole_wordBytes _).withChecksum
    fun _ => 0

theorem writeChecksum_writes :
    Writes link (writeChecksum link) (fun checksum => [1, checksum].flatMap wordBytes) id :=
  writeMessage_writes (fun checksum => [1, checksum].flatMap wordBytes) fun _ => whole_wordBytes _

theorem writeJump_writes :
    Writes link (writeJump link) (fun _ => [3].flatMap wordBytes) id :=
  writeMessage_writes (fun _ => [3].flatMap wordBytes) fun _ => whole_wordBytes _

/-- The loop over the chunks writes the file and adds up its words. -/
theorem writeChunks_writes (chunks : Nat) :
    ∀ fp : List UInt8, fp.length % 4 = 0 → fp.length ≤ 64 * chunks →
      Writes link (writeChunks link chunks fp) (fun _ => fp) (fun c => c + (leWords fp).sum) := by
  induction chunks with
  | zero =>
      intro fp _ none
      obtain rfl := List.length_eq_zero_iff.mp (Nat.le_zero.mp none)
      refine ⟨fun s => List.prefix_rfl, fun _ => rfl, fun s ready _ => ⟨rfl, ready, ?_, rfl, ?_⟩⟩
      · exact (UInt32.add_zero _).symm
      · intro response member
        cases member
  | succ chunks ih =>
      intro fp whole fits
      have size : usbBuffSize = 64 := rfl
      have wholeFirst : (fp.take usbBuffSize).length % 4 = 0 := by
        rw [List.length_take]
        omega
      have wholeRest : (fp.drop usbBuffSize).length % 4 = 0 := by
        rw [List.length_drop]
        omega
      have first : Writes link (writeData link (fp.take usbBuffSize))
          (fun _ => fp.take usbBuffSize) (fun c => c + sliceSum (fp.take usbBuffSize)) :=
        (writeMessage_writes (fun _ => fp.take usbBuffSize) fun _ => wholeFirst).withChecksum
          fun c => c + sliceSum (fp.take usbBuffSize)
      have both := first.andThen (ih (fp.drop usbBuffSize) wholeRest (by
        rw [List.length_drop]
        omega))
      have bytes : fp.take usbBuffSize ++ fp.drop usbBuffSize = fp := List.take_append_drop _ _
      have sum : sliceSum (fp.take usbBuffSize) + (leWords (fp.drop usbBuffSize)).sum =
          (leWords fp).sum := by
        rw [sliceSum_eq _ wholeFirst, ← List.sum_append, ← leWords_append wholeFirst, bytes]
      simp only [UInt32.add_assoc, sum, bytes] at both
      exact both

theorem numChunks_fits (file : List UInt8) :
    file.length ≤ 64 * ((file.length + usbBuffSize - 1) / usbBuffSize) := by
  rw [show usbBuffSize = 64 from rfl]
  omega

/-- What the script writes for a device and its file. -/
def deviceBytes (device : Device) (file : List UInt8) : List UInt8 :=
  [2, deviceKeyLut device, UInt32.ofNat file.length, flashKey].flatMap wordBytes ++
    ([0].flatMap wordBytes ++ (file ++ [1, (leWords file).sum].flatMap wordBytes))

theorem flashDevice_writes (device : Device) {file : List UInt8} (whole : file.length % 4 = 0)
    (small : file.length < 4294967296) :
    Writes link (flashDevice link device file) (fun _ => deviceBytes device file)
      (fun _ => (leWords file).sum) := by
  have all := (writeHeader_writes link device small).andThen
    ((initData_writes link).andThen
      ((writeChunks_writes link _ file whole (numChunks_fits file)).andThen
        (writeChecksum_writes link)))
  simp only [id_eq, UInt32.zero_add] at all
  exact all

end Writes

/-! ## In a larger environment -/

/-- The port to the device in the larger environment. -/
def BootSerial.within (embed : σ → τ) (s : BootSerial σ) : BootSerial τ where
  checksum := s.checksum
  device := ⟨s.device.dataIn, s.device.boot.within embed⟩
  inbox := s.inbox
  calls := s.calls

/-- The result of a call, likewise. -/
def callWithin (embed : σ → τ) (result : Result σ) : Result τ :=
  (result.1, result.2.within embed)

section Within

variable {link : Link σ} {wide : Link τ} {module : Module} {embed : σ → τ}

/-- A part of the script does the same in the larger environment, if it is answered with `NO_ERR`
only. -/
def Lifts (embed : σ → τ) (part : BootSerial σ → Result σ) (partWide : BootSerial τ → Result τ) :
    Prop :=
  ∀ s, s.Ready → Clean s (part s).2 → partWide (s.within embed) = callWithin embed (part s)

theorem Lifts.andThen {part next : BootSerial σ → Result σ}
    {partWide nextWide : BootSerial τ → Result τ} {bytes bytes' : UInt32 → List UInt8}
    {sum sum' : UInt32 → UInt32} (first : Lifts embed part partWide)
    (then_ : Lifts embed next nextWide) (writes : Writes link part bytes sum)
    (writes' : Writes link next bytes' sum') :
    Lifts embed (fun s => andThen (part s) next) (fun s => andThen (partWide s) nextWide) := by
  intro s ready clean
  dsimp only at clean ⊢
  have early : Clean s (part s).2 := by
    unfold UsbFlasher.andThen at clean
    split at clean
    · exact (clean.of_prefix (writes.grows s) (writes'.grows _)).1
    · exact clean
  obtain ⟨ok, ready', -⟩ := writes.clean s ready early
  have later : Clean (part s).2 (next (part s).2).2 := by
    unfold UsbFlasher.andThen at clean
    rw [if_pos ok] at clean
    exact (clean.of_prefix (writes.grows s) (writes'.grows _)).2
  rw [first s ready early]
  unfold UsbFlasher.andThen
  rw [if_pos ok, if_pos (show (callWithin embed (part s)).1 = some .noErr from ok)]
  exact then_ _ ready' later

/-- **One call.** -/
theorem writeMessage_lifts (embeds : Embeds link wide module embed) (pkt : UInt32 → List UInt8)
    (whole : ∀ c, (pkt c).length % 4 = 0) :
    Lifts embed (fun s => writeMessage link (pkt s.checksum) s)
      (fun s => writeMessage wide (pkt s.checksum) s) := by
  intro s ready clean
  obtain ⟨-, -, -, -, all⟩ := (writeMessage_writes pkt whole).clean s ready clean
  obtain ⟨reached, emitted⟩ := main_run link (pkt s.checksum) (whole _) s.device.boot
  obtain ⟨reachedWide, emittedWide⟩ := main_run wide (pkt s.checksum) (whole _)
    (s.device.boot.within embed)
  have device : (s.within embed).device = ⟨[], s.device.boot.within embed⟩ := by
    rw [← ready.aligned]
    rfl
  rw [← ready.device] at reached emitted
  rw [← device] at reachedWide emittedWide
  rw [emitted] at all
  obtain ⟨after, outputs⟩ := embeds.run _ _ all
  rw [outputs, ← emitted] at emittedWide
  rw [after] at reachedWide
  have checksum : (s.within embed).checksum = s.checksum := rfl
  dsimp only
  unfold writeMessage
  dsimp only
  rw [checksum, reachedWide, emittedWide, reached]
  have inbox : (s.within embed).inbox = s.inbox := rfl
  rw [inbox]
  cases s.inbox ++ responses ((mainFSM link).outputs s.device (pkt s.checksum)) with
  | nil => rfl
  | cons byte rest => rfl

theorem Lifts.withChecksum {part : BootSerial σ → Result σ} {partWide : BootSerial τ → Result τ}
    (lifts : Lifts embed part partWide) (start : UInt32 → UInt32) :
    Lifts embed (fun s => part { s with checksum := start s.checksum })
      (fun s => partWide { s with checksum := start s.checksum }) :=
  fun s ready clean =>
    lifts { s with checksum := start s.checksum } ⟨ready.aligned, ready.read⟩ clean

theorem writeChunks_lifts (embeds : Embeds link wide module embed) (chunks : Nat) :
    ∀ fp : List UInt8, fp.length % 4 = 0 → fp.length ≤ 64 * chunks →
      Lifts embed (writeChunks link chunks fp) (writeChunks wide chunks fp) := by
  induction chunks with
  | zero => exact fun fp _ _ s _ _ => rfl
  | succ chunks ih =>
      intro fp whole fits
      have size : usbBuffSize = 64 := rfl
      have wholeFirst : (fp.take usbBuffSize).length % 4 = 0 := by
        rw [List.length_take]
        omega
      have wholeRest : (fp.drop usbBuffSize).length % 4 = 0 := by
        rw [List.length_drop]
        omega
      have fitsRest : (fp.drop usbBuffSize).length ≤ 64 * chunks := by
        rw [List.length_drop]
        omega
      refine Lifts.andThen ?_ (ih _ wholeRest fitsRest)
        ((writeMessage_writes (fun _ => fp.take usbBuffSize) fun _ => wholeFirst).withChecksum
          fun c => c + sliceSum (fp.take usbBuffSize))
        (writeChunks_writes link chunks _ wholeRest fitsRest)
      exact (writeMessage_lifts embeds (fun _ => fp.take usbBuffSize) fun _ =>
        wholeFirst).withChecksum fun c => c + sliceSum (fp.take usbBuffSize)

/-- **A device and its file.** -/
theorem flashDevice_lifts (embeds : Embeds link wide module embed) (device : Device)
    {file : List UInt8} (whole : file.length % 4 = 0) (small : file.length < 4294967296) :
    Lifts embed (flashDevice link device file) (flashDevice wide device file) := by
  have fits := numChunks_fits file
  have chunks := writeChunks_writes link _ file whole fits
  have header : Lifts embed (writeHeader link device file.length)
      (writeHeader wide device file.length) := by
    intro s ready clean
    have call := writeMessage_lifts embeds
      (fun _ => [2, deviceKeyLut device, UInt32.ofNat file.length, flashKey].flatMap wordBytes)
      fun _ => whole_wordBytes _
    unfold writeHeader at clean ⊢
    rw [if_pos small] at clean ⊢
    rw [if_pos small]
    exact call s ready clean
  have sum := writeChecksum_writes link
  refine header.andThen (Lifts.andThen ?_ (Lifts.andThen ?_ ?_ chunks sum) (initData_writes link)
    (chunks.andThen sum)) (writeHeader_writes link device small)
    ((initData_writes link).andThen (chunks.andThen sum))
  · exact (writeMessage_lifts embeds (fun _ => [0].flatMap wordBytes) fun _ =>
      whole_wordBytes _).withChecksum fun _ => 0
  · exact writeChunks_lifts embeds _ file whole fits
  · exact writeMessage_lifts embeds (fun checksum => [1, checksum].flatMap wordBytes) fun _ =>
      whole_wordBytes _

end Within

end OlympusFirmware.UsbFlasher
