import Mathlib.Data.List.Induction
import OlympusFirmware.MasterBoot.Steps

/-!
# The end of the data phase (`case DATA` of `runBootFSM`)

`count` starts at zero, grows by four with each word, and the phase ends when it equals
`header.size`, which is whatever the host has sent: the length of its file. The phase ends
with the file for a length that is a multiple of four other than zero. For any other length
the count does not meet it, and the words that follow, the next message among them, are
taken for data.
-/

namespace OlympusFirmware.MasterBoot

open OlympusFirmware.Lib

variable {σ : Type} (link : Link σ)

/-- An exchange with a submodule succeeds. -/
def BootOutput.Succeeded : BootOutput → Prop
  | .messageSubmodule _ _ _ status => status = commsOk
  | _ => True

instance : DecidablePred BootOutput.Succeeded
  | .messageSubmodule _ _ _ status => inferInstanceAs (Decidable (status = commsOk))
  | .writeResponse _ | .flash _ | .jumpToApp => .isTrue trivial

/-- Every exchange with a submodule succeeds. -/
def ExchangesSucceed (outputs : List BootOutput) : Prop :=
  ∀ output ∈ outputs, output.Succeeded

/-- The data phase ends with the last of these words, and is answered. -/
structure EndsAfter (b : Boot σ) (words : List UInt32) : Prop where
  left : ((bootFSM link).after b words).msg = .dmy
  during : ∀ pre post : List UInt32, words = pre ++ post → post ≠ [] →
    ((bootFSM link).after b pre).msg = .data
  answered : ∃ (pre : List UInt32) (last : UInt32), words = pre ++ [last] ∧
    .writeResponse noErr ∈ (bootFSM link).emit ((bootFSM link).after b pre) last

/-! ## One word -/

/-- After the words of an image: the count, and where the machine is. -/
structure Boot.Counting (b : Boot σ) (size count : UInt32) : Prop where
  running : b.running = true
  msg : b.msg = .data
  size_eq : b.header.size = size
  count_eq : b.count = count

/-- How `case DATA` ends, whatever it did before. -/
theorem endData_cases {b : Boot σ} (running : b.running = true) (msg : b.msg = .data)
    (outputs : List BootOutput) :
    (b.count ≠ b.header.size ∧
        (emitting outputs (endData b)).1.Counting b.header.size b.count) ∨
      (b.count = b.header.size ∧ (emitting outputs (endData b)).1.msg = .dmy ∧
        .writeResponse noErr ∈ (emitting outputs (endData b)).2) := by
  unfold endData
  by_cases last : b.count = b.header.size
  · refine .inr ⟨last, ?_, ?_⟩ <;> simp [last]
  · refine .inl ⟨last, ?_⟩
    simp only [last, if_false]
    exact ⟨running, msg, rfl, rfl⟩

section Word

variable {link}

variable {b : Boot σ} {size count : UInt32} (now : b.Counting size count)

include now

/-- **A data word** whose exchange, if there is one, succeeds: it is counted, and the phase
ends when the count is the size. -/
theorem Boot.Counting.word (word : UInt32) (succeed : ExchangesSucceed (bootStep link b word).2) :
    (count + 4 ≠ size ∧ (bootStep link b word).1.Counting size (count + 4)) ∨
      (count + 4 = size ∧ (bootStep link b word).1.msg = .dmy ∧
        .writeResponse noErr ∈ (bootStep link b word).2) := by
  obtain ⟨running, msg, rfl, rfl⟩ := now
  rw [bootStep_data link running msg] at succeed ⊢
  by_cases own : b.module = .olympus
  · let counted : Boot σ := { b with
      dataAddr := b.dataAddr + 4
      count := b.count + 4
      checksum := b.checksum + word }
    have result : runData link b word =
        emitting [.flash (writeFlash b.dataAddr word)] (endData counted) := if_pos own
    rw [result]
    exact @endData_cases _ counted running msg _
  · rcases runData_cases link own word with ⟨result, -⟩ | ⟨result, -, failed⟩ | ⟨result, -, -⟩
    · rw [result]
      exact @endData_cases _ (b.withWord word) running msg []
    · rw [result] at succeed
      exact absurd (succeed _ List.mem_cons_self) failed
    · rw [result]
      exact @endData_cases _ ((b.withWord word).sent link 0x02 64) running msg _

end Word

/-! ## Whole images -/

theorem ExchangesSucceed.of_append {first rest : List BootOutput}
    (succeed : ExchangesSucceed (first ++ rest)) :
    ExchangesSucceed first ∧ ExchangesSucceed rest :=
  ⟨fun _ member => succeed _ (List.mem_append_left _ member),
    fun _ member => succeed _ (List.mem_append_right _ member)⟩

/-- The count after some words. -/
def countAfter (words : Nat) : UInt32 := UInt32.ofNat (4 * words)

theorem countAfter_succ (words : Nat) : countAfter (words + 1) = countAfter words + 4 := by
  rw [countAfter, countAfter, Nat.mul_succ, UInt32.ofNat_add]
  rfl

/-- **Words that do not reach the size** are all taken for data. -/
theorem Boot.Counting.run {link : Link σ} {b : Boot σ} {size : UInt32} (start : b.Counting size 0)
    {words : List UInt32} (succeed : ExchangesSucceed ((bootFSM link).outputs b words))
    (below : ∀ i, 0 < i → i ≤ words.length → countAfter i ≠ size) :
    ((bootFSM link).after b words).Counting size (countAfter words.length) := by
  induction words using List.reverseRecOn with
  | nil => exact start
  | append_singleton words word ih =>
      rw [Fsm.outputs_append] at succeed
      obtain ⟨earlier, now⟩ := succeed.of_append
      rw [Fsm.outputs_cons, Fsm.outputs_nil, List.append_nil] at now
      rw [List.length_append, List.length_singleton] at below ⊢
      have before := ih earlier fun i positive bound => below i positive (by omega)
      have next := below (words.length + 1) (Nat.succ_pos _) (Nat.le_refl _)
      rw [countAfter_succ] at next ⊢
      rw [Fsm.after_append]
      rcases before.word word now with ⟨-, counting⟩ | ⟨last, -⟩
      · exact counting
      · exact absurd last next

/-- The count meets a size at its word, and only if there is one. -/
theorem countAfter_eq_iff {size : UInt32} {i : Nat} (positive : 0 < i)
    (bound : i ≤ (size.toNat + 3) / 4) : countAfter i = size ↔ 4 * i = size.toNat := by
  have small := size.toNat_lt
  rw [countAfter, ← UInt32.toNat_inj, UInt32.toNat_ofNat']
  omega

section Image

variable {link} {b : Boot σ} {size : UInt32} (start : b.Counting size 0) {words : List UInt32}
  (length : words.length = (size.toNat + 3) / 4)
  (succeed : ExchangesSucceed ((bootFSM link).outputs b words))

include start length succeed

/-- The words before the last do not reach a size that is a multiple of four. -/
theorem Boot.Counting.before (whole : size.toNat % 4 = 0) {pre post : List UInt32}
    (split : words = pre ++ post) (more : post ≠ []) :
    ((bootFSM link).after b pre).Counting size (countAfter pre.length) := by
  have left := List.length_pos_iff.mpr more
  have lengths := congrArg List.length split
  rw [List.length_append] at lengths
  rw [split, Fsm.outputs_append] at succeed
  apply start.run succeed.of_append.1
  intro i positive bound
  rw [ne_eq, countAfter_eq_iff positive (by omega)]
  omega

/-- The last word ends the phase. -/
theorem Boot.Counting.ends (nonzero : size.toNat ≠ 0) (whole : size.toNat % 4 = 0) :
    EndsAfter link b words := by
  have nonempty : words ≠ [] := by
    rw [← List.length_pos_iff]
    omega
  obtain ⟨pre, last, split⟩ : ∃ pre last, words = pre ++ [last] :=
    ⟨_, _, (List.dropLast_append_getLast nonempty).symm⟩
  have counting := start.before length succeed whole split (List.cons_ne_nil _ _)
  have lengths := congrArg List.length split
  rw [List.length_append, List.length_singleton] at lengths
  have reached : countAfter pre.length + 4 = size := by
    rw [← countAfter_succ, countAfter_eq_iff (Nat.succ_pos _) (by omega)]
    omega
  have now : ExchangesSucceed (bootStep link ((bootFSM link).after b pre) last).2 := by
    rw [split, Fsm.outputs_append, Fsm.outputs_cons, Fsm.outputs_nil, List.append_nil] at succeed
    exact succeed.of_append.2
  rcases counting.word last now with ⟨missed, -⟩ | ⟨-, left, answered⟩
  · exact absurd reached missed
  · refine ⟨?_, ?_, ⟨pre, last, split, answered⟩⟩
    · rw [split, Fsm.after_append]
      exact left
    · intro pre post split more
      exact (start.before length succeed whole split more).msg

/-- The data phase of an image of this size, word by word. -/
theorem Boot.Counting.ends_iff : EndsAfter link b words ↔ size ≠ 0 ∧ size.toNat % 4 = 0 := by
  have zero : size = 0 ↔ size.toNat = 0 := by
    rw [← UInt32.toNat_inj]
    rfl
  rw [ne_eq, zero]
  constructor
  · intro ends
    by_contra other
    have missed : ∀ i, 0 < i → i ≤ words.length → countAfter i ≠ size := by
      intro i positive bound
      rw [ne_eq, countAfter_eq_iff positive (by omega)]
      omega
    have still := (start.run succeed missed).msg
    rw [ends.left] at still
    cases still
  · intro ⟨nonzero, whole⟩
    exact start.ends length succeed nonzero whole

end Image

/-- A complete header, whatever comes of it, is followed by a message type. -/
theorem bootStep_header_third {b : Boot σ} (running : b.running = true) (msg : b.msg = .header)
    (third : b.count ≠ 0 ∧ b.count ≠ 1) (fkey : UInt32) :
    ((bootStep link b fkey).1.running = true ∧ (bootStep link b fkey).1.msg = .dmy) ∧
      (bootStep link b fkey).1.count = 0 ∧
      (bootStep link b fkey).1.header.size = b.header.size := by
  rw [bootStep_header link running msg]
  rcases runHeader_cases link third with ⟨result, -⟩ | ⟨result, -⟩ | ⟨result, -⟩
  · rw [result]
    exact ⟨⟨running, rfl⟩, rfl, rfl⟩
  · rw [result]
    exact ⟨⟨running, rfl⟩, rfl, rfl⟩
  · obtain ⟨env, buff, outputs, response, restart, -⟩ :=
      restartSubmodule_spec link (b.withKey fkey)
    rw [result, restart]
    exact ⟨⟨running, rfl⟩, rfl, rfl⟩

/-- **The data phase ends with the file**, for every device, size and content, exactly when
the size is a multiple of four other than zero. The header's last word is `fkey`, then comes
the message `DATA`. -/
theorem data_phase_ends_iff {b : Boot σ} (running : b.running = true) (msg : b.msg = .header)
    (third : b.count ≠ 0 ∧ b.count ≠ 1) (fkey : UInt32) {words : List UInt32}
    (length : words.length = (b.header.size.toNat + 3) / 4)
    (succeed : ExchangesSucceed ((bootFSM link).outputs b (fkey :: 0 :: words))) :
    EndsAfter link ((bootFSM link).after b [fkey, 0]) words ↔
      b.header.size ≠ 0 ∧ b.header.size.toNat % 4 = 0 := by
  obtain ⟨⟨running', between⟩, count, size⟩ := bootStep_header_third link running msg third fkey
  have data : (bootFSM link).after b [fkey, 0] =
      { (bootStep link b fkey).1 with msg := .data } :=
    congrArg Prod.fst (bootStep_dmy_data link running' between)
  rw [Fsm.outputs_cons, Fsm.outputs_cons] at succeed
  have phase := succeed.of_append.2.of_append.2
  have next : (bootFSM link).next ((bootFSM link).next b fkey) 0 =
      (bootFSM link).after b [fkey, 0] := rfl
  rw [next] at phase
  apply Boot.Counting.ends_iff _ length phase
  rw [data]
  exact ⟨running', rfl, size, count⟩

/-- Two words for Olympus, after a header that says eight bytes. -/
theorem eight_bytes_end :
    EndsAfter (fun _ _ _ env => (commsOk, env))
      ((bootFSM fun _ _ _ env => (commsOk, env)).after
        ((Boot.reset ()).parsing olympusKey 8) [eraseFlashKey, 0]) [1, 2] := by
  refine (data_phase_ends_iff _ rfl rfl (parsing_third _ _ _) eraseFlashKey rfl ?_).mpr ?_
  · unfold ExchangesSucceed
    decide
  · decide

/-- A header that says five bytes is accepted, and two words do not end the phase. -/
theorem five_bytes_do_not_end :
    ¬ ∀ (link : Link Unit) (b : Boot Unit) (fkey : UInt32) (words : List UInt32),
      b.running = true → b.msg = .header → b.count ≠ 0 ∧ b.count ≠ 1 →
      responses (bootStep link b fkey).2 = [noErr] →
      words.length = (b.header.size.toNat + 3) / 4 →
      ExchangesSucceed ((bootFSM link).outputs b (fkey :: 0 :: words)) →
      EndsAfter link ((bootFSM link).after b [fkey, 0]) words := by
  intro all
  have ends := all (fun _ _ _ env => (commsOk, env)) ((Boot.reset ()).parsing olympusKey 5)
    eraseFlashKey [1, 2] rfl rfl (parsing_third _ _ _) (by decide) rfl
    (by unfold ExchangesSucceed; decide)
  exact absurd ends.left (by decide)

end OlympusFirmware.MasterBoot
