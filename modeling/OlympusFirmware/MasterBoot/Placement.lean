import OlympusFirmware.MasterBoot.Confinement

/-!
# Where the master puts an image

The flash is a memory of words: an erase sets every word of a sector, a write
stores one. A session is a header for Olympus, the words of an image, and a
checksum. `header` and `checksum` start afresh with each session, but the write
pointer does not: it goes on from where the last session left it. So a session
finds its words at the start of the application if and only if a whole number of
turns of the 32-bit pointer (in practice none) has been programmed since reset,
or there is nothing to place because all its words are those of erased flash.
-/

namespace OlympusFirmware.MasterBoot

open OlympusFirmware.Lib

/-- What an erased word reads as. -/
def erased : UInt32 := 0xFFFFFFFF

/-- The address is in the sector: four of 16K, one of 64K and seven of 128K. -/
def InSector (sector addr : Nat) : Prop :=
  if sector < 4 then 0x08000000 + sector * 16384 ≤ addr ∧ addr < 0x08000000 + (sector + 1) * 16384
  else if sector = 4 then 0x08010000 ≤ addr ∧ addr < 0x08020000
  else sector < 12 ∧
    0x08020000 + (sector - 5) * 131072 ≤ addr ∧ addr < 0x08020000 + (sector - 4) * 131072

instance (sector addr : Nat) : Decidable (InSector sector addr) :=
  inferInstanceAs (Decidable (ite _ _ _))

/-- The effect of one write on the flash. -/
def FlashOp.apply (flash : Mem UInt32) : FlashOp → Mem UInt32
  | .erase cr => fun addr => if InSector (snb cr) addr then erased else flash addr
  | .program loc data => fun addr => if addr = loc.toNat then data else flash addr
  | _ => flash

/-- The flash after a list of writes. -/
def contents (flash : Mem UInt32) (ops : List FlashOp) : Mem UInt32 :=
  ops.foldl FlashOp.apply flash

theorem contents_append (flash : Mem UInt32) (xs ys : List FlashOp) :
    contents flash (xs ++ ys) = contents (contents flash xs) ys := List.foldl_append

/-- An erased word stays erased until it is programmed. -/
theorem contents_erases {addr : Nat} {ops : List FlashOp}
    (erases : ∀ op ∈ ops, ∀ loc data, op ≠ .program loc data) :
    ∀ flash : Mem UInt32, flash addr = erased → contents flash ops addr = erased := by
  induction ops with
  | nil =>
      intro flash clean
      exact clean
  | cons op ops ih =>
      intro flash clean
      refine ih (fun o member => erases o (List.mem_cons_of_mem _ member)) _ ?_
      cases op with
      | erase cr =>
          show (if InSector (snb cr) addr then erased else flash addr) = erased
          split
          · rfl
          · exact clean
      | program loc data => exact absurd rfl (erases _ List.mem_cons_self loc data)
      | keyr | setCr | clearCr => exact clean

/-- `writeInit` only erases. -/
theorem writeInit_erases (progsize : UInt32) :
    ∀ op ∈ writeInit progsize, ∀ loc data, op ≠ .program loc data := by
  rintro op member loc data rfl
  simp only [writeInit, List.mem_append, List.mem_cons, List.not_mem_nil, or_false,
    List.mem_map, List.mem_range, eraseSector, reduceCtorEq, and_false, exists_false] at member

/-- After `writeInit`, all of the image's place is erased. -/
theorem contents_writeInit {progsize : UInt32} (fits : progsize.toNat ≤ appFlashSize)
    (flash : Mem UInt32) {addr : Nat} (low : userAppBaseAddr.toNat ≤ addr)
    (high : addr < userAppBaseAddr.toNat + progsize.toNat) :
    contents flash (writeInit progsize) addr = erased := by
  have count := numSectors_toNat progsize
  have base : userAppBaseAddr.toNat = 0x08020000 := rfl
  rw [base] at low high
  rw [appFlashSize] at fits
  -- the sector that holds the address
  obtain ⟨i, place⟩ : ∃ i, i = (addr - 0x08020000) / 131072 := ⟨_, rfl⟩
  have inside : i < (numSectors progsize).toNat := by omega
  obtain ⟨cr, erase, field⟩ := snb_eraseSector (progStartSector + UInt32.ofNat i).toUInt8
  have sector : snb cr = 5 + i := by
    rw [field]
    simp only [progStartSector, UInt32.toNat_toUInt8, UInt32.toNat_add, UInt32.toNat_ofNat',
      UInt32.reduceToNat]
    omega
  have member : FlashOp.erase cr ∈ writeInit progsize := by
    rw [← erase, writeInit]
    simp only [List.mem_append, List.mem_map, List.mem_range]
    exact .inl (.inr ⟨i, inside, rfl⟩)
  -- nothing after the erase of that sector programs a word
  obtain ⟨pre, post, split⟩ := List.append_of_mem member
  rw [split, contents_append]
  show contents (FlashOp.apply (contents flash pre) (.erase cr)) post addr = erased
  refine contents_erases (fun op later => writeInit_erases progsize op ?_) _ ?_
  · rw [split]
    exact List.mem_append_right _ (List.mem_cons_of_mem _ later)
  · show (if InSector (snb cr) addr then erased else _) = erased
    rw [if_pos]
    rw [InSector, if_neg (by omega), if_neg (by omega)]
    omega

/-- Consecutive words from `loc` on, as the pointer counts them. -/
def programAll : UInt32 → List UInt32 → List FlashOp
  | _, [] => []
  | loc, word :: words => .program loc word :: programAll (loc + 4) words

/-- The address after `j + 1` words, counted from the next one. -/
theorem addr_step (loc : UInt32) (j : Nat) :
    ((loc + 4).toNat + 4 * j) % 4294967296 = (loc.toNat + 4 * (j + 1)) % 4294967296 := by
  rw [UInt32.toNat_add]
  simp only [UInt32.reduceToNat]
  omega

/-- A word that no write reaches is unchanged. -/
theorem contents_programAll_miss {addr : Nat} (words : List UInt32) :
    ∀ (loc : UInt32) (flash : Mem UInt32),
    (∀ j < words.length, (loc.toNat + 4 * j) % 4294967296 ≠ addr) →
    contents flash (programAll loc words) addr = flash addr := by
  induction words with
  | nil =>
      intro loc flash _
      rfl
  | cons word words ih =>
      intro loc flash miss
      have small := loc.toNat_lt
      have first : addr ≠ loc.toNat := by
        intro hit
        exact miss 0 (by simp) (by omega)
      have rest : ∀ j < words.length, ((loc + 4).toNat + 4 * j) % 4294967296 ≠ addr := by
        intro j inside
        rw [addr_step]
        exact miss (j + 1) (by simpa using inside)
      refine (ih (loc + 4) _ rest).trans ?_
      show (if addr = loc.toNat then word else flash addr) = flash addr
      rw [if_neg first]

/-- The `j`-th word goes to the `j`-th address, as long as the pointer does not
come round. -/
theorem contents_programAll_hit {addr : Nat} (words : List UInt32) :
    ∀ (loc : UInt32) (flash : Mem UInt32) (j : Nat) (inside : j < words.length),
    words.length ≤ 1073741824 → (loc.toNat + 4 * j) % 4294967296 = addr →
    contents flash (programAll loc words) addr = words[j] := by
  induction words with
  | nil =>
      intro loc flash j inside
      simp at inside
  | cons word words ih =>
      intro loc flash j inside short hit
      have small := loc.toNat_lt
      cases j with
      | zero =>
          have here : addr = loc.toNat := by omega
          have later : ∀ j < words.length, ((loc + 4).toNat + 4 * j) % 4294967296 ≠ addr := by
            intro j inside'
            rw [addr_step]
            simp only [List.length_cons] at short
            omega
          refine (contents_programAll_miss words (loc + 4) _ later).trans ?_
          show (if addr = loc.toNat then word else flash addr) = word
          rw [if_pos here]
      | succ j =>
          rw [← addr_step] at hit
          simp only [List.length_cons] at inside short
          exact ih (loc + 4) _ j (by omega) (by omega) hit

/-- The words are where the image belongs. -/
def PlacedAt (flash : Mem UInt32) (words : List UInt32) : Prop :=
  ∀ i (inside : i < words.length), flash (userAppBaseAddr.toNat + 4 * i) = words[i]

/-- Words that each repeat the one `d` places on, the last `d` of them being
erased, are all erased. -/
theorem erased_of_repeats_later {words : List UInt32} {d : Nat} (positive : 0 < d)
    (repeats : ∀ i (source : i + d < words.length), words[i] = words[i + d])
    (rest : ∀ i (inside : i < words.length), words.length ≤ i + d → words[i] = erased) :
    ∀ i (inside : i < words.length), words[i] = erased := by
  intro i inside
  -- by induction on the distance to the end
  induction distance : words.length - i using Nat.strongRecOn generalizing i with
  | _ distance ih =>
      by_cases source : i + d < words.length
      · rw [repeats i source]
        exact ih _ (by omega) (i + d) source rfl
      · exact rest i inside (by omega)

/-- So are words that each repeat the one `d` places before, if the first `d` are
erased. -/
theorem erased_of_repeats_earlier {words : List UInt32} {d : Nat} (positive : 0 < d)
    (repeats : ∀ i (inside : i + d < words.length), words[i + d] = words[i])
    (rest : ∀ i (inside : i < words.length), i < d → words[i] = erased) :
    ∀ i (inside : i < words.length), words[i] = erased := by
  intro i inside
  induction i using Nat.strongRecOn with
  | _ i ih =>
      by_cases source : d ≤ i
      · obtain ⟨earlier, rfl⟩ := Nat.exists_eq_add_of_le' source
        rw [repeats earlier inside]
        exact ih earlier (by omega) (by omega)
      · exact rest i inside (by omega)

section Programmed

variable {flash : Mem UInt32} {words : List UInt32} {loc : UInt32} {k : Nat}
  (pointer : loc.toNat = (userAppBaseAddr.toNat + 4 * k) % 4294967296)
  (fits : 4 * words.length ≤ appFlashSize)

include pointer fits

/-- With the pointer `k` words on, word `j` goes to place `k + j`. -/
theorem programmed_hit {i j : Nat} (inside : i < words.length) (source : j < words.length)
    (same : (k + j) % 1073741824 = i) :
    contents flash (programAll loc words) (userAppBaseAddr.toNat + 4 * i) = words[j] := by
  have base : userAppBaseAddr.toNat = 0x08020000 := rfl
  rw [base] at pointer ⊢
  rw [appFlashSize] at fits
  exact contents_programAll_hit words loc flash j source (by omega) (by omega)

variable (clean : ∀ i < words.length, flash (userAppBaseAddr.toNat + 4 * i) = erased)

include clean

/-- A place that no word goes to stays erased. -/
theorem programmed_miss {i : Nat} (inside : i < words.length)
    (apart : ∀ j < words.length, (k + j) % 1073741824 ≠ i) :
    contents flash (programAll loc words) (userAppBaseAddr.toNat + 4 * i) = erased := by
  rw [contents_programAll_miss words loc flash, clean i inside]
  have base : userAppBaseAddr.toNat = 0x08020000 := rfl
  rw [base] at pointer ⊢
  rw [appFlashSize] at fits
  intro j source same
  exact apart j source (by omega)

/-- If the words are in place although the pointer was not at the start, they are
all erased words. -/
theorem erased_of_placed (placed : PlacedAt (contents flash (programAll loc words)) words)
    (turned : ¬ 1073741824 ∣ k) : ∀ i (inside : i < words.length), words[i] = erased := by
  have short : words.length ≤ 229376 := by
    rw [appFlashSize] at fits
    omega
  rcases Nat.lt_or_ge (1073741824 - words.length) (k % 1073741824) with ahead | behind
  · -- the pointer starts just below: each word lands before its place
    refine erased_of_repeats_later (d := 1073741824 - k % 1073741824) (by omega) ?_ ?_
    · intro i source
      rw [← placed i (by omega), programmed_hit pointer fits (by omega) source (by omega)]
    · intro i inside past
      rw [← placed i inside, programmed_miss pointer fits clean inside]
      intro j _
      omega
  · -- each word lands behind its place
    refine erased_of_repeats_earlier (d := k % 1073741824) (by omega) ?_ ?_
    · intro i inside
      rw [← placed (i + k % 1073741824) inside,
        programmed_hit pointer fits inside (by omega : i < words.length) (by omega)]
    · intro i inside before
      rw [← placed i inside, programmed_miss pointer fits clean inside]
      intro j _
      omega

/-- Programming an erased place from a pointer that is `k` words on: the words
are in place if and only if the pointer has come round to the start, or they
are all erased words. -/
theorem placedAt_iff :
    PlacedAt (contents flash (programAll loc words)) words ↔
      1073741824 ∣ k ∨ ∀ word ∈ words, word = erased := by
  have short : words.length ≤ 229376 := by
    rw [appFlashSize] at fits
    omega
  constructor
  · intro placed
    by_cases turns : 1073741824 ∣ k
    · exact .inl turns
    · refine .inr ?_
      intro word member
      obtain ⟨i, inside, rfl⟩ := List.mem_iff_getElem.mp member
      exact erased_of_placed pointer fits clean placed turns i inside
  · rintro (turns | all) i inside
    · exact programmed_hit pointer fits inside inside (by omega)
    · rw [all _ (List.getElem_mem inside)]
      by_cases reached : ∃ j < words.length, (k + j) % 1073741824 = i
      · obtain ⟨j, source, same⟩ := reached
        rw [programmed_hit pointer fits inside source same, all _ (List.getElem_mem source)]
      · push Not at reached
        exact programmed_miss pointer fits clean inside reached

end Programmed

/-- An image for Olympus: a positive number of words that fit. -/
structure Image where
  words : List UInt32
  nonempty : words ≠ []
  fits : 4 * words.length ≤ appFlashSize

namespace Image

/-- The size word of its header. -/
def size (image : Image) : UInt32 := UInt32.ofNat (4 * image.words.length)

/-- `HEADER` with its three words, then `DATA`. -/
def opening (image : Image) : List UInt32 := [2, olympusKey, image.size, eraseFlashKey, 0]

theorem size_toNat (image : Image) : image.size.toNat = 4 * image.words.length := by
  have fits := image.fits
  rw [appFlashSize] at fits
  rw [size, UInt32.toNat_ofNat']
  omega

end Image

section Session

variable {σ : Type} (link : Link σ)

/-- The session went as it should: its last data word is acknowledged, the words
are then in place, and a checksum is answered `NO_ERR` exactly if it is theirs. -/
structure SessionOk (b : Boot σ) (flash : Mem UInt32) (image : Image) : Prop where
  acknowledged :
    responses ((bootFSM link).emit
        ((bootFSM link).after b (image.opening ++ image.words.dropLast))
        (image.words.getLast image.nonempty)) = [noErr]
  placed :
    PlacedAt (contents flash
      (flashOps ((bootFSM link).outputs b (image.opening ++ image.words)))) image.words
  checked : ∀ word,
    responses ((bootFSM link).outputs
        ((bootFSM link).after b (image.opening ++ image.words)) [1, word]) =
      [if word = image.words.sum then noErr else errChecksum]

/-- In the data phase of a session, with `todo` words to come. -/
structure Receiving (image : Image) (todo : Nat) (b : Boot σ) : Prop where
  running : b.running = true
  msg : b.msg = .data
  module : b.module = .olympus
  size : b.header.size = image.size
  count : b.count.toNat + 4 * todo = image.size.toNat

/-- A valid header for Olympus erases, answers, and starts the checksum afresh. -/
theorem header_olympus {b : Boot σ} (idle : b.Idle) (size : UInt32) :
    ∃ b', (bootFSM link).after b [2, olympusKey, size, eraseFlashKey] = b' ∧
      flashOps ((bootFSM link).outputs b [2, olympusKey, size, eraseFlashKey]) =
        writeInit size ∧
      b'.Idle ∧ b'.module = .olympus ∧ b'.header.size = size ∧
      b'.dataAddr = b.dataAddr ∧ b'.checksum = 0 := by
  obtain ⟨reached, emitted⟩ := header_run link idle olympusKey size eraseFlashKey
  have accepted : runHeader link (b.parsing olympusKey size) eraseFlashKey = _ :=
    runHeader_olympus link (parsing_third b _ _) rfl rfl
  rw [reached, emitted, accepted]
  refine ⟨_, rfl, ?_, ⟨idle.running, rfl, rfl⟩, rfl, rfl, rfl, rfl⟩
  simp [Boot.finish, Boot.parsing]

/-- The opening erases the image's place and starts the data phase. -/
theorem after_opening {b : Boot σ} (idle : b.Idle) (image : Image) :
    ∃ b', (bootFSM link).after b image.opening = b' ∧
      flashOps ((bootFSM link).outputs b image.opening) = writeInit image.size ∧
      Receiving image image.words.length b' ∧ b'.dataAddr = b.dataAddr ∧ b'.checksum = 0 := by
  have split : image.opening = [2, olympusKey, image.size, eraseFlashKey] ++ [0] := rfl
  obtain ⟨b₁, reached, erases, idle₁, module, size, pointer, checksum⟩ :=
    header_olympus link idle image.size
  have data : (bootFSM link).step b₁ 0 = _ := bootStep_dmy_data link idle₁.running idle₁.msg
  refine ⟨{ b₁ with msg := .data }, ?_, ?_, ?_, pointer, checksum⟩
  · rw [split, Fsm.after_append, reached]
    simp [Fsm.next, data]
  · rw [split, Fsm.outputs_append, reached, flashOps_append, erases]
    simp [Fsm.emit, data]
  · refine ⟨idle₁.running, rfl, module, size, ?_⟩
    simp [idle₁.count, image.size_toNat]

/-- The count after one more word. -/
theorem Receiving.advanced {image : Image} {todo : Nat} {b : Boot σ}
    (now : Receiving image (todo + 1) b) : (b.count + 4).toNat = b.count.toNat + 4 := by
  have bound := image.size.toNat_lt
  have count := now.count
  rw [UInt32.toNat_add]
  simp only [UInt32.reduceToNat]
  omega

/-- One word of the data phase that is not the last. -/
theorem Receiving.more {image : Image} {todo : Nat} {b : Boot σ}
    (now : Receiving image (todo + 2) b) (word : UInt32) :
    ∃ b', (bootFSM link).next b word = b' ∧
      flashOps ((bootFSM link).emit b word) = [.program b.dataAddr word] ∧
      Receiving image (todo + 1) b' ∧ b'.dataAddr = b.dataAddr + 4 ∧
      b'.checksum = b.checksum + word := by
  have count := now.count
  have advanced := now.advanced
  have unfinished : ¬ b.count + 4 = b.header.size := by
    intro last
    have equal := congrArg UInt32.toNat last
    rw [now.size] at equal
    omega
  have step : (bootFSM link).step b word = runData link b word :=
    bootStep_data link now.running now.msg
  rw [Fsm.next, Fsm.emit, step, flashOps_runData, if_pos now.module, if_neg unfinished]
  simp only [runData, now.module, if_true, endData, unfinished, if_false, emitting_fst]
  refine ⟨_, rfl, rfl, ⟨now.running, now.msg, rfl, now.size, ?_⟩, rfl, rfl⟩
  show (b.count + 4).toNat + _ = _
  omega

/-- The last word is acknowledged and ends the data phase. -/
theorem Receiving.last {image : Image} {b : Boot σ} (now : Receiving image 1 b) (word : UInt32) :
    ∃ b', (bootFSM link).next b word = b' ∧
      flashOps ((bootFSM link).emit b word) = [.program b.dataAddr word, completeWrite] ∧
      responses ((bootFSM link).emit b word) = [noErr] ∧
      b'.Idle ∧ b'.module = .olympus ∧ b'.checksum = b.checksum + word := by
  have count := now.count
  have advanced := now.advanced
  have finished : b.count + 4 = b.header.size := by
    rw [now.size, ← UInt32.toNat_inj]
    omega
  have step : (bootFSM link).step b word = runData link b word :=
    bootStep_data link now.running now.msg
  rw [Fsm.next, Fsm.emit, step, flashOps_runData, if_pos now.module, if_pos finished]
  simp only [runData, now.module, if_true, endData, finished, emitting_fst, emitting_snd]
  refine ⟨_, rfl, rfl, ?_, ⟨now.running, rfl, rfl⟩, rfl, rfl⟩
  simp

/-- The data phase, by induction on the words still to come. -/
theorem Receiving.run {image : Image} (rest : List UInt32) :
    ∀ (word : UInt32) (b : Boot σ), Receiving image (rest.length + 1) b →
    ∃ b', (bootFSM link).after b (word :: rest) = b' ∧
      flashOps ((bootFSM link).outputs b (word :: rest)) =
        programAll b.dataAddr (word :: rest) ++ [completeWrite] ∧
      responses ((bootFSM link).emit ((bootFSM link).after b (word :: rest).dropLast)
        ((word :: rest).getLast (List.cons_ne_nil _ _))) = [noErr] ∧
      b'.Idle ∧ b'.module = .olympus ∧ b'.checksum = b.checksum + (word :: rest).sum := by
  induction rest with
  | nil =>
      intro word b now
      obtain ⟨b', reached, writes, acknowledged, idle, module, checksum⟩ := now.last link word
      refine ⟨b', ?_, ?_, acknowledged, idle, module, ?_⟩
      · simpa using reached
      · simpa [programAll] using writes
      · simpa using checksum
  | cons next rest ih =>
      intro word b now
      obtain ⟨b₁, reached₁, writes₁, now₁, pointer₁, checksum₁⟩ := now.more link word
      obtain ⟨b', reached, writes, acknowledged, idle, module, checksum⟩ := ih next b₁ now₁
      refine ⟨b', ?_, ?_, ?_, idle, module, ?_⟩
      · rw [Fsm.after_cons, reached₁, reached]
      · rw [Fsm.outputs_cons, reached₁, flashOps_append, writes₁, writes, pointer₁]
        rfl
      · rw [← reached₁] at acknowledged
        exact acknowledged
      · rw [checksum, checksum₁, List.sum_cons (a := word), UInt32.add_assoc]

/-- The checksum that follows an Olympus image is compared with the sum. -/
theorem checksum_olympus {b : Boot σ} (idle : b.Idle) (own : b.module = .olympus)
    (word : UInt32) :
    responses ((bootFSM link).outputs b [1, word]) =
      [if word = b.checksum then noErr else errChecksum] := by
  have type : (bootFSM link).step b 1 = _ := bootStep_dmy_checksum link idle.running idle.msg
  have check : (bootFSM link).step { b with msg := .checksum } word =
      { b with msg := .checksum }.finish (if word = b.checksum then noErr else errChecksum) :=
    Eq.trans (bootStep_checksum link idle.running rfl) (if_pos own)
  simp only [Fsm.outputs_cons, Fsm.outputs_nil, Fsm.next, Fsm.emit, type, check]
  rfl

/-- The pointer counts the words programmed. -/
theorem dataAddr_after (words : List UInt32) :
    ∀ b : Boot σ, ((bootFSM link).after b words).dataAddr.toNat =
      (b.dataAddr.toNat + 4 * (bootFSM link).countSteps Programs b words) % 4294967296 := by
  induction words with
  | nil =>
      intro b
      have small := b.dataAddr.toNat_lt
      simp only [Fsm.after_nil, Fsm.countSteps_nil]
      omega
  | cons word words ih =>
      intro b
      have step : ((bootFSM link).next b word).dataAddr = _ := dataAddr_bootStep link b word
      rw [Fsm.after_cons, ih, Fsm.countSteps_cons, step]
      split
      · rw [UInt32.toNat_add]
        simp only [UInt32.reduceToNat]
        omega
      · rw [Nat.zero_add]

/-- A session that starts between messages, with the pointer `k` words on. -/
theorem sessionOk_iff {b : Boot σ} (idle : b.Idle) (flash : Mem UInt32) (image : Image) {k : Nat}
    (pointer : b.dataAddr.toNat = (userAppBaseAddr.toNat + 4 * k) % 4294967296) :
    SessionOk link b flash image ↔
      1073741824 ∣ k ∨ ∀ word ∈ image.words, word = erased := by
  obtain ⟨b₁, reached₁, erases, now, pointer₁, checksum₁⟩ := after_opening link idle image
  obtain ⟨word, rest, split⟩ := List.exists_cons_of_ne_nil image.nonempty
  rw [split] at now
  obtain ⟨b₂, reached₂, writes, acknowledged, idle₂, own, checksum₂⟩ :=
    now.run link rest word b₁
  rw [← split] at reached₂ writes checksum₂
  have size := image.size_toNat
  have clean : ∀ i < image.words.length,
      contents flash (writeInit image.size) (userAppBaseAddr.toNat + 4 * i) = erased := by
    intro i inside
    exact contents_writeInit (by rw [size]; exact image.fits) flash (by omega) (by omega)
  have written : contents flash
      (flashOps ((bootFSM link).outputs b (image.opening ++ image.words))) =
      contents (contents flash (writeInit image.size)) (programAll b.dataAddr image.words) := by
    rw [Fsm.outputs_append, reached₁, flashOps_append, erases, writes, pointer₁,
      contents_append, contents_append]
    rfl
  -- the header has erased the image's place, so only the pointer matters
  have placed := placedAt_iff pointer image.fits clean
  rw [← written] at placed
  rw [← placed]
  refine ⟨fun ok => ok.placed, fun inPlace => ⟨?_, inPlace, ?_⟩⟩
  · rw [Fsm.after_append, reached₁]
    simpa only [split] using acknowledged
  · intro c
    rw [Fsm.after_append, reached₁, reached₂, checksum_olympus link idle₂ own, checksum₂,
      checksum₁, UInt32.zero_add]

/-- **Placement.** Take any run from reset, with any flash contents at reset, and
a session that starts between messages after it. The session's words are in
place when its last word is acknowledged, and its checksum is judged right, if
and only if the number of Olympus words programmed before is a multiple of 2^30
(so the pointer is at the start of the application: none, in practice) or the
image consists of erased words only. -/
theorem image_placed_iff (env : σ) (flash : Mem UInt32) (earlier : List UInt32) (image : Image)
    (idle : ((bootFSM link).after (.reset env) earlier).Idle) :
    SessionOk link ((bootFSM link).after (.reset env) earlier)
        (contents flash (flashOps ((bootFSM link).outputs (.reset env) earlier))) image ↔
      1073741824 ∣ (bootFSM link).countSteps Programs (.reset env) earlier ∨
        ∀ word ∈ image.words, word = erased :=
  sessionOk_iff link idle _ image (dataAddr_after link earlier (.reset env))

end Session

/-- An image of 17 words, one more than fills a chunk. -/
def twoChunks : Image where
  words := (List.range 17).map fun i => 0x12345678 + UInt32.ofNat i
  nonempty := by decide
  fits := by decide

/-- The first session after reset is placed. -/
theorem first_session_placed :
    SessionOk (fun _ _ _ env => (commsOk, env)) (.reset ()) (fun _ => 0) twoChunks :=
  (image_placed_iff (fun _ _ _ env => (commsOk, env)) () (fun _ => 0) [] twoChunks
    ⟨rfl, rfl, rfl⟩).mpr (.inl (by decide))

/-- An image of one word. -/
def oneWord : Image where
  words := [0x12345678]
  nonempty := by decide
  fits := by decide

/-- A session and the same once more: the word of the second goes behind the erased place of
the first. -/
theorem second_session_misplaced :
    ((bootFSM fun _ _ _ env => (commsOk, env)).after (.reset ())
        (oneWord.opening ++ oneWord.words ++ [1, 0x12345678])).Idle ∧
    ¬ SessionOk (fun _ _ _ env => (commsOk, env))
      ((bootFSM fun _ _ _ env => (commsOk, env)).after (.reset ())
        (oneWord.opening ++ oneWord.words ++ [1, 0x12345678]))
      (contents (fun _ => 0) (flashOps ((bootFSM fun _ _ _ env => (commsOk, env)).outputs
        (.reset ()) (oneWord.opening ++ oneWord.words ++ [1, 0x12345678])))) oneWord := by
  refine ⟨⟨by decide +kernel, by decide +kernel, by decide +kernel⟩, ?_⟩
  intro ok
  have first := ok.placed 0 (by decide)
  revert first
  decide +kernel

end OlympusFirmware.MasterBoot
