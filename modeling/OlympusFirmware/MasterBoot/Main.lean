import OlympusFirmware.MasterBoot.Steps

/-!
# The bootloader's main loop (`master_boot/main.c`)

The loop fills a word with the bytes that USB has received and runs `runBootFSM`
on each full one. It reads up to `4 - offset` bytes at a time, as many as there
are; taking them one by one comes to the same. When `runBootFSM` jumps to the application,
the loop is left for good.
-/

namespace OlympusFirmware.MasterBoot

open OlympusFirmware.Lib

/-- The bytes of `dataIn` below `offset`, and the state of `runBootFSM`. -/
structure Main (σ : Type) where
  dataIn : List UInt8
  boot : Boot σ

section Loop

variable {σ : Type} (link : Link σ)

/-- One byte. -/
def mainStep (m : Main σ) (byte : UInt8) : Main σ × List BootOutput :=
  if m.boot.running then
    let dataIn := m.dataIn ++ [byte]
    if dataIn.length = 4 then
      let result := bootStep link m.boot (leWord dataIn)
      (⟨[], result.1⟩, result.2)
    else
      (⟨dataIn, m.boot⟩, [])
  else
    (m, [])

/-- The loop as a machine. -/
def mainFSM : Fsm (Main σ) UInt8 BootOutput where
  step := mainStep link

/-- Four bytes from the start of a word. -/
theorem main_word (b : Boot σ) (b₀ b₁ b₂ b₃ : UInt8) (rest : List UInt8) :
    (mainFSM link).after ⟨[], b⟩ (b₀ :: b₁ :: b₂ :: b₃ :: rest) =
        (mainFSM link).after ⟨[], (bootFSM link).next b (leWord [b₀, b₁, b₂, b₃])⟩ rest ∧
      (mainFSM link).outputs ⟨[], b⟩ (b₀ :: b₁ :: b₂ :: b₃ :: rest) =
        (bootFSM link).emit b (leWord [b₀, b₁, b₂, b₃]) ++
          (mainFSM link).outputs ⟨[], (bootFSM link).next b (leWord [b₀, b₁, b₂, b₃])⟩ rest := by
  by_cases running : b.running = true
  · have step : ∀ (dataIn : List UInt8) (byte : UInt8),
        (mainFSM link).step ⟨dataIn, b⟩ byte =
          if (dataIn ++ [byte]).length = 4 then
            (⟨[], (bootStep link b (leWord (dataIn ++ [byte]))).1⟩,
              (bootStep link b (leWord (dataIn ++ [byte]))).2)
          else (⟨dataIn ++ [byte], b⟩, []) := fun _ _ => if_pos running
    simp only [Fsm.after_cons, Fsm.outputs_cons, Fsm.next, Fsm.emit, step,
      List.nil_append, List.cons_append, List.length_cons, List.length_nil, Nat.reduceAdd,
      Nat.reduceEqDiff, if_false, if_true]
    exact ⟨rfl, rfl⟩
  · -- the loop has been left: the bytes and the word change nothing
    have step : ∀ byte : UInt8, (mainFSM link).step ⟨[], b⟩ byte = (⟨[], b⟩, []) :=
      fun _ => if_neg running
    have word : (bootFSM link).step b (leWord [b₀, b₁, b₂, b₃]) = (b, []) :=
      bootStep_stopped link running
    simp only [Fsm.after_cons, Fsm.outputs_cons, Fsm.next, Fsm.emit, step, word, List.nil_append,
      and_self]

/-- **Whole words** from the start of a word go to `runBootFSM` one by one. -/
theorem main_run (bytes : List UInt8) (whole : bytes.length % 4 = 0) (b : Boot σ) :
    (mainFSM link).after ⟨[], b⟩ bytes = ⟨[], (bootFSM link).after b (leWords bytes)⟩ ∧
      (mainFSM link).outputs ⟨[], b⟩ bytes = (bootFSM link).outputs b (leWords bytes) := by
  induction bytes, whole using whole_words generalizing b with
  | nil => exact ⟨rfl, rfl⟩
  | word b₀ b₁ b₂ b₃ rest whole ih =>
      obtain ⟨reached, emitted⟩ := main_word link b b₀ b₁ b₂ b₃ rest
      obtain ⟨reached', emitted'⟩ := ih ((bootFSM link).next b (leWord [b₀, b₁, b₂, b₃]))
      rw [reached, emitted, reached', emitted']
      exact ⟨rfl, rfl⟩

end Loop

end OlympusFirmware.MasterBoot
