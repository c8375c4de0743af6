import OlympusFirmware.MasterBoot.Placement
import OlympusFirmware.MasterBoot.Within

/-!
# What an update does to the master itself

The words of an update of a submodule, if none of them is answered with an error, leave the
master's own flash and its write pointer alone and end between messages (`submodule_quiet`). Those
of its own update are answered chunk by chunk (`own_chunk`).
-/

namespace OlympusFirmware.MasterBoot

open OlympusFirmware.Lib

variable {σ : Type} {link : Link σ}

/-- The own flash and the write pointer stay as they are. -/
structure Quiet (link : Link σ) (b : Boot σ) (words : List UInt32) : Prop where
  flash : flashOps ((bootFSM link).outputs b words) = []
  dataAddr : ((bootFSM link).after b words).dataAddr = b.dataAddr

theorem Quiet.append {b : Boot σ} {xs ys : List UInt32} (first : Quiet link b xs)
    (then_ : Quiet link ((bootFSM link).after b xs) ys) : Quiet link b (xs ++ ys) := by
  refine ⟨?_, ?_⟩
  · rw [Fsm.outputs_append, flashOps_append, first.flash, then_.flash]
    rfl
  · rw [Fsm.after_append, then_.dataAddr, first.dataAddr]

/-- One word. -/
theorem quiet_word {b : Boot σ} {word : UInt32} (programs : Programs b word = false)
    (rejects : ¬ AcceptsOlympus b word) : Quiet link b [word] := by
  have unprogrammed : ¬ Programs b word = true := by
    rw [programs]
    exact Bool.false_ne_true
  refine ⟨?_, ?_⟩
  · have flash := flashOps_bootStep link b word
    rw [if_neg unprogrammed, if_neg rejects] at flash
    rw [Fsm.outputs_cons, Fsm.outputs_nil, List.append_nil]
    exact flash
  · have pointer := dataAddr_bootStep link b word
    rw [if_neg unprogrammed] at pointer
    exact pointer

/-! ## An update of a submodule -/

/-- In the data phase of a submodule, with `todo` words to come. -/
structure Passing (todo : Nat) (b : Boot σ) : Prop where
  running : b.running = true
  msg : b.msg = .data
  foreign : b.module ≠ .olympus
  count : b.count.toNat + 4 * todo = b.header.size.toNat

/-- A word is counted unless its chunk is refused. -/
theorem Passing.counted {todo : Nat} {b : Boot σ} (now : Passing (todo + 1) b) {word : UInt32}
    (all : AllNoErr (bootStep link b word).2) :
    ∃ (counted : Boot σ) (outputs : List BootOutput),
      bootStep link b word = emitting outputs (endData counted) ∧ counted.running = true ∧
        counted.msg = .data ∧ counted.module = b.module ∧ counted.header = b.header ∧
        counted.count = b.count + 4 := by
  rw [bootStep_data link now.running now.msg] at all ⊢
  rcases runData_cases link now.foreign word with ⟨result, -⟩ | ⟨result, -, -⟩ | ⟨result, -, -⟩
  · exact ⟨_, [], result, now.running, now.msg, rfl, rfl, rfl⟩
  · rw [result] at all
    exact absurd (all errDataWrite (by simp [Boot.message, Boot.finish])) (by decide)
  · exact ⟨_, _, result, now.running, now.msg, rfl, rfl, rfl⟩

/-- The data phase, by induction on the words to come. -/
theorem Passing.run (words : List UInt32) :
    ∀ b : Boot σ, words ≠ [] → Passing words.length b →
      AllNoErr ((bootFSM link).outputs b words) →
      Quiet link b words ∧ ((bootFSM link).after b words).Idle ∧
        ((bootFSM link).after b words).module = b.module := by
  induction words with
  | nil => exact fun _ some => absurd rfl some
  | cons word words ih =>
      intro b _ now all
      rw [Fsm.outputs_cons] at all
      obtain ⟨first, rest⟩ := all.append
      obtain ⟨counted, outputs, step, running, msg, module, header, count⟩ := now.counted first
      have next : (bootFSM link).next b word = (endData counted).1 := by
        show (bootStep link b word).1 = _
        rw [step, emitting_fst]
      have quiet : Quiet link b [word] := by
        refine quiet_word ?_ ?_
        · simp [Programs, now.foreign]
        · rintro ⟨-, header, -⟩
          rw [now.msg] at header
          cases header
      have small := b.header.size.toNat_lt
      have size := now.count
      have advanced : counted.count.toNat = b.count.toNat + 4 := by
        rw [List.length_cons] at size
        rw [count, UInt32.toNat_add]
        simp only [UInt32.reduceToNat]
        omega
      rw [List.length_cons] at size
      by_cases last : words = []
      · subst last
        have ends : counted.count = counted.header.size := by
          rw [← UInt32.toNat_inj, advanced, header]
          exact size
        rw [Fsm.after_cons, Fsm.after_nil, next]
        unfold endData
        dsimp only
        rw [if_pos ends]
        exact ⟨quiet, ⟨running, rfl, rfl⟩, module⟩
      · have some := List.length_pos_iff.mpr last
        have goesOn : ¬ counted.count = counted.header.size := by
          rw [← UInt32.toNat_inj, advanced, header]
          omega
        have stays : (endData counted).1 = counted := by
          unfold endData
          dsimp only
          rw [if_neg goesOn]
        rw [stays] at next
        have passing : Passing words.length counted := by
          refine ⟨running, msg, module ▸ now.foreign, ?_⟩
          rw [advanced, header]
          omega
        rw [next] at rest
        obtain ⟨quiet', idle, module'⟩ := ih counted last passing rest
        rw [Fsm.after_cons, next]
        rw [← next] at quiet'
        exact ⟨quiet.append quiet', idle, module'.trans module⟩

/-- The words of an update: the header, `DATA` with the image, and `CHECKSUM`. -/
def updateWords (dkey size : UInt32) (words : List UInt32) (sum : UInt32) : List UInt32 :=
  [2, dkey, size, eraseFlashKey] ++ ([0] ++ (words ++ [1, sum]))

/-- The header, for a submodule. -/
theorem header_quiet (link : Link σ) {b : Boot σ} (idle : b.Idle) {dkey : UInt32}
    (size fkey : UInt32) (foreign : dkey ≠ olympusKey) :
    Quiet link b [2, dkey, size, fkey] ∧
      ((bootFSM link).after b [2, dkey, size, fkey]).Idle ∧
      ((bootFSM link).after b [2, dkey, size, fkey]).module = moduleOfKey dkey ∧
      ((bootFSM link).after b [2, dkey, size, fkey]).header.size = size := by
  obtain ⟨reached, emitted⟩ := header_run link idle dkey size fkey
  have third := parsing_third b dkey size
  have flash : flashOps ((bootFSM link).outputs b [2, dkey, size, fkey]) = [] := by
    rw [emitted, flashOps_runHeader, if_neg (fun accepted => foreign accepted.2.1)]
  have pointer : ((bootFSM link).after b [2, dkey, size, fkey]).dataAddr = b.dataAddr := by
    rw [reached, dataAddr_runHeader]
    rfl
  refine ⟨⟨flash, pointer⟩, ?_⟩
  rw [reached]
  rcases runHeader_cases link third with ⟨result, -⟩ | ⟨-, own, -⟩ | ⟨result, -⟩
  · rw [result]
    exact ⟨⟨idle.running, rfl, rfl⟩, rfl, rfl⟩
  · exact absurd own foreign
  · obtain ⟨env, buff, outputs, response, restart, -⟩ :=
      restartSubmodule_spec link ((b.parsing dkey size).withKey fkey)
    rw [result, restart]
    exact ⟨⟨idle.running, rfl, rfl⟩, rfl, rfl⟩

/-- The header, for a submodule that does not answer. -/
theorem header_refused {b : Boot σ} (idle : b.Idle) {dkey : UInt32} (size : UInt32)
    (known : moduleOfKey dkey ≠ .none) (foreign : dkey ≠ olympusKey) {status : UInt8}
    (failed : status ≠ commsOk)
    (refused : link (moduleOfKey dkey) 0x00 [] b.env = (status, b.env)) :
    responses ((bootFSM link).outputs b [2, dkey, size, eraseFlashKey]) = [errRebootFail] ∧
      ((bootFSM link).after b [2, dkey, size, eraseFlashKey]).env = b.env := by
  obtain ⟨reached, emitted⟩ := header_run link idle dkey size eraseFlashKey
  rw [runHeader_submodule link (parsing_third b dkey size) known foreign rfl] at reached emitted
  have answer : ((b.parsing dkey size).withKey eraseFlashKey).status link 0x00 0 = status :=
    congrArg Prod.fst refused
  have env : (((b.parsing dkey size).withKey eraseFlashKey).sent link 0x00 0).env = b.env :=
    congrArg Prod.snd refused
  rw [reached, emitted]
  unfold restartSubmodule expectOk
  rw [answer, if_pos failed]
  exact ⟨rfl, env⟩

/-- The checksum, for a submodule. -/
theorem checksum_quiet (link : Link σ) {b : Boot σ} (idle : b.Idle) (foreign : b.module ≠ .olympus)
    (sum : UInt32) :
    Quiet link b [1, sum] ∧ ((bootFSM link).after b [1, sum]).Idle := by
  have type : (bootFSM link).step b 1 = _ := bootStep_dmy_checksum link idle.running idle.msg
  obtain ⟨env, buff, outputs, response, result, silent, -⟩ :=
    runChecksum_spec (b := { b with msg := .checksum }) link foreign sum
  have check : (bootFSM link).step { b with msg := .checksum } sum =
      ({ b with msg := .dmy, submoduleCommsBuff := buff, env := env }, outputs) :=
    Eq.trans (bootStep_checksum link idle.running rfl) result
  have reached : (bootFSM link).after b [1, sum] =
      { b with msg := .dmy, submoduleCommsBuff := buff, env := env } := by
    simp only [Fsm.after_cons, Fsm.after_nil, Fsm.next, type, check]
  have emitted : (bootFSM link).outputs b [1, sum] = outputs := by
    simp only [Fsm.outputs_cons, Fsm.outputs_nil, Fsm.emit, Fsm.next, type, check,
      List.nil_append, List.append_nil]
  refine ⟨⟨?_, ?_⟩, ?_⟩
  · rw [emitted, silent]
  · rw [reached]
  · rw [reached]
    exact ⟨idle.running, rfl, idle.count⟩

/-- **An update of a submodule** that is answered with no error. -/
theorem submodule_quiet {b : Boot σ} (idle : b.Idle) {dkey size : UInt32} {words : List UInt32}
    (sum : UInt32) (foreign : dkey ≠ olympusKey) (some : words ≠ [])
    (length : 4 * words.length = size.toNat)
    (all : AllNoErr ((bootFSM link).outputs b (updateWords dkey size words sum))) :
    Quiet link b (updateWords dkey size words sum) ∧
      ((bootFSM link).after b (updateWords dkey size words sum)).Idle := by
  unfold updateWords at all ⊢
  obtain ⟨quiet, idle₁, module, header⟩ := header_quiet link idle size eraseFlashKey
    foreign
  rw [Fsm.outputs_append, Fsm.outputs_append, Fsm.outputs_append] at all
  have data := all.append.2.append.2.append.1
  generalize is : (bootFSM link).after b [2, dkey, size, eraseFlashKey] = b₁ at *
  have start : (bootFSM link).step b₁ 0 = _ := bootStep_dmy_data link idle₁.running idle₁.msg
  have own : b₁.module ≠ .olympus := by
    rw [module]
    exact fun is => foreign (moduleOfKey_eq_olympus.mp is)
  have phase : (bootFSM link).after b₁ [0] = { b₁ with msg := .data } := congrArg Prod.fst start
  have quiet₁ : Quiet link b₁ [0] := by
    refine ⟨?_, ?_⟩
    · simp [Fsm.emit, start]
    · rw [phase]
  have passing : Passing words.length { b₁ with msg := .data } := by
    refine ⟨idle₁.running, rfl, own, ?_⟩
    show b₁.count.toNat + _ = b₁.header.size.toNat
    rw [idle₁.count, header, length]
    exact Nat.zero_add _
  rw [phase] at data
  obtain ⟨quiet₂, idle₂, module₂⟩ := Passing.run words _ some passing data
  rw [← phase] at quiet₂ idle₂ module₂
  have own₂ : ((bootFSM link).after ((bootFSM link).after b₁ [0]) words).module ≠ .olympus := by
    rw [module₂, phase]
    exact own
  obtain ⟨quiet₃, idle₃⟩ := checksum_quiet link idle₂ own₂ sum
  subst is
  refine ⟨quiet.append (quiet₁.append (quiet₂.append quiet₃)), ?_⟩
  rw [Fsm.after_append, Fsm.after_append, Fsm.after_append]
  exact idle₃

/-! ## The master's own update -/

section Own

variable {image : Image} {b : Boot σ}

/-- The answer to a word that is not the last. -/
theorem Receiving.answer (link : Link σ) {todo : Nat} (now : Receiving image (todo + 2) b)
    (word : UInt32) :
    responses ((bootFSM link).emit b word) =
      if (b.count.toNat + 4) % 64 = 0 then [noErr] else [] := by
  have count := now.count
  have advanced := now.advanced
  have unfinished : ¬ b.count + 4 = b.header.size := by
    rw [now.size, ← UInt32.toNat_inj]
    omega
  have full : (b.count + 4) % chunkSize = 0 ↔ (b.count.toNat + 4) % 64 = 0 := by
    rw [← UInt32.toNat_inj, UInt32.toNat_mod, advanced]
    exact Iff.rfl
  have step : (bootFSM link).step b word = runData link b word :=
    bootStep_data link now.running now.msg
  rw [Fsm.emit, step]
  simp only [runData, now.module, if_true, endData, unfinished, if_false, or_false, emitting_snd]
  by_cases whole : (b.count.toNat + 4) % 64 = 0
  · rw [if_pos whole, if_pos (full.mpr whole)]
    rfl
  · rw [if_neg whole, if_neg (fun is => whole (full.mp is))]
    rfl

/-- **A chunk** is answered with its last word, by induction on its words. -/
theorem own_chunk (link : Link σ) (words : List UInt32) :
    ∀ (b : Boot σ) (todo : Nat), words ≠ [] → Receiving image (words.length + todo) b →
      b.count.toNat % 64 + 4 * words.length ≤ 64 →
      (todo = 0 ∨ (b.count.toNat + 4 * words.length) % 64 = 0) →
      responses ((bootFSM link).outputs b words) = [noErr] ∧
        ((bootFSM link).after b words).checksum = b.checksum + words.sum ∧
        (todo = 0 → ((bootFSM link).after b words).Idle ∧
          ((bootFSM link).after b words).module = .olympus) ∧
        (todo ≠ 0 → Receiving image todo ((bootFSM link).after b words) ∧
          ((bootFSM link).after b words).count.toNat = b.count.toNat + 4 * words.length) := by
  induction words with
  | nil => exact fun _ _ some => absurd rfl some
  | cons word words ih =>
      intro b todo _ now room complete
      rw [List.length_cons] at now room complete
      rw [Fsm.outputs_cons, Fsm.after_cons, responses_append, List.sum_cons]
      by_cases last : words = []
      · subst last
        rw [Fsm.outputs_nil, responses_nil, List.append_nil, Fsm.after_nil, List.sum_nil,
          UInt32.add_zero]
        cases todo with
        | zero =>
            obtain ⟨b', next, -, answer, idle, module, checksum⟩ := now.last link word
            rw [next]
            exact ⟨answer, checksum, fun _ => ⟨idle, module⟩, fun none => absurd rfl none⟩
        | succ todo =>
            have count : Receiving image (todo + 2) b := by
              rw [List.length_nil, Nat.zero_add, Nat.add_comm] at now
              exact now
            obtain ⟨b', next, -, later, -, checksum⟩ := count.more link word
            have answer := count.answer link word
            have whole : (b.count.toNat + 4) % 64 = 0 := by
              simpa using complete
            have advanced : b'.count.toNat = b.count.toNat + 4 := by
              have before := count.count
              have after := later.count
              omega
            rw [if_pos whole] at answer
            rw [next]
            exact ⟨answer, checksum, fun none => absurd none (Nat.succ_ne_zero _),
              fun _ => ⟨later, advanced⟩⟩
      · have some := List.length_pos_iff.mpr last
        obtain ⟨rest, length⟩ := Nat.exists_eq_succ_of_ne_zero (Nat.ne_of_gt some)
        have count : Receiving image (rest + todo + 2) b := by
          rw [length] at now
          rw [show rest + todo + 2 = rest.succ + 1 + todo by omega]
          exact now
        obtain ⟨b', next, -, later, -, checksum⟩ := count.more link word
        have answer := count.answer link word
        have inside : ¬ (b.count.toNat + 4) % 64 = 0 := by omega
        have advanced : b'.count.toNat = b.count.toNat + 4 := by
          have before := count.count
          have after := later.count
          omega
        rw [if_neg inside] at answer
        have now' : Receiving image (words.length + todo) b' := by
          rw [length, show rest.succ + todo = rest + todo + 1 by omega]
          exact later
        obtain ⟨answer', checksum', ends, goesOn⟩ := ih b' todo last now'
          (by rw [advanced]; omega) (by rw [advanced]; omega)
        rw [next, answer, answer', checksum', checksum, UInt32.add_assoc]
        refine ⟨rfl, rfl, ends, fun more => ⟨(goesOn more).1, ?_⟩⟩
        rw [(goesOn more).2, advanced, List.length_cons]
        omega

/-- The header, for the master itself. -/
theorem own_header (idle : b.Idle) (size : UInt32) :
    responses ((bootFSM link).outputs b [2, olympusKey, size, eraseFlashKey]) = [noErr] := by
  obtain ⟨-, emitted⟩ := header_run link idle olympusKey size eraseFlashKey
  have accepted : runHeader link (b.parsing olympusKey size) eraseFlashKey = _ :=
    runHeader_olympus link (parsing_third b _ _) rfl rfl
  rw [emitted, accepted]
  simp [Boot.finish]

/-- **The flash of the master's own update**, whose write pointer is where it is. -/
theorem own_flash (link : Link σ) (idle : b.Idle) (image : Image) (sum : UInt32) :
    flashOps ((bootFSM link).outputs b (updateWords olympusKey image.size image.words sum)) =
        writeInit image.size ++ programAll b.dataAddr image.words ++ [completeWrite] ∧
      ((bootFSM link).after b (updateWords olympusKey image.size image.words sum)).Idle := by
  have split : updateWords olympusKey image.size image.words sum =
      image.opening ++ (image.words ++ [1, sum]) := rfl
  obtain ⟨b₁, reached₁, erases, now, pointer, -⟩ := after_opening link idle image
  obtain ⟨word, rest, words⟩ := List.exists_cons_of_ne_nil image.nonempty
  rw [words] at now
  obtain ⟨b₂, reached₂, writes, -, idle₂, own, -⟩ := now.run link rest word b₁
  rw [← words] at reached₂ writes
  have type : (bootFSM link).step b₂ 1 = _ := bootStep_dmy_checksum link idle₂.running idle₂.msg
  have check : (bootFSM link).step { b₂ with msg := .checksum } sum =
      { b₂ with msg := .checksum }.finish (if sum = b₂.checksum then noErr else errChecksum) :=
    Eq.trans (bootStep_checksum link idle₂.running rfl) (if_pos own)
  have checked : flashOps ((bootFSM link).outputs b₂ [1, sum]) = [] := by
    simp only [Fsm.outputs_cons, Fsm.outputs_nil, Fsm.next, Fsm.emit, type, check]
    rfl
  refine ⟨?_, ?_⟩
  · rw [split, Fsm.outputs_append, Fsm.outputs_append, reached₁, reached₂, flashOps_append,
      flashOps_append, erases, writes, pointer, checked, List.append_nil, List.append_assoc]
  · rw [split, Fsm.after_append, Fsm.after_append, reached₁, reached₂]
    simp only [Fsm.after_cons, Fsm.after_nil, Fsm.next, type, check]
    exact ⟨idle₂.running, rfl, idle₂.count⟩

end Own

end OlympusFirmware.MasterBoot
