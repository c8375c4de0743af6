import OlympusFirmware.MasterBoot.Main
import OlympusFirmware.MasterBoot.Steps

/-!
# The bootloader in a larger environment

`runBootFSM` meets the submodules through `messageSubmodule` only. A run all of whose exchanges
are with one of them is a run of a link to that one alone: what else there is stays as it was.

In the small environment nobody else answers, and an exchange without an answer ends in an error.
So it is enough to know that a run has no response but `NO_ERR` (`after_within`).
-/

namespace OlympusFirmware.MasterBoot

open OlympusFirmware.Lib

variable {σ τ : Type}

/-- The same variables, with the environment in a larger one. -/
def Boot.within (embed : σ → τ) (b : Boot σ) : Boot τ where
  dataAddr := b.dataAddr
  msg := b.msg
  count := b.count
  module := b.module
  header := b.header
  checksum := b.checksum
  submoduleCommsBuff := b.submoduleCommsBuff
  running := b.running
  env := embed b.env

/-- The result of a step, likewise. -/
def resultWithin (embed : σ → τ) (result : Boot σ × List BootOutput) :
    Boot τ × List BootOutput :=
  (result.1.within embed, result.2)

/-- `module` answers in `wide` as it does in `link`, where nobody else answers. -/
structure Embeds (link : Link σ) (wide : Link τ) (module : Module) (embed : σ → τ) : Prop where
  same : ∀ msgType data env, wide module msgType data (embed env) =
    ((link module msgType data env).1, embed (link module msgType data env).2)
  silent : ∀ other msgType data env, other ≠ module →
    (link other msgType data env).1 ≠ commsOk

/-- No response is an error. -/
def AllNoErr (outputs : List BootOutput) : Prop := ∀ response ∈ responses outputs, response = noErr

theorem AllNoErr.append {xs ys : List BootOutput} (all : AllNoErr (xs ++ ys)) :
    AllNoErr xs ∧ AllNoErr ys := by
  unfold AllNoErr at *
  rw [responses_append, List.forall_mem_append] at all
  exact all

variable {link : Link σ} {wide : Link τ} {module : Module} {embed : σ → τ}
  (embeds : Embeds link wide module embed)

include embeds

/-! ## Exchanges -/

section Exchange

variable {b : Boot σ} {msgType : UInt8} {txSize : Nat}

/-- Who answers is `module`. -/
theorem Embeds.module_eq (ok : b.status link msgType txSize = commsOk) : b.module = module := by
  by_contra other
  exact embeds.silent _ _ _ _ other ok

variable (selected : b.module = module)

include selected

theorem Embeds.status :
    (b.within embed).status wide msgType txSize = b.status link msgType txSize := by
  subst selected
  exact congrArg Prod.fst (embeds.same _ _ _)

theorem Embeds.sent :
    (b.within embed).sent wide msgType txSize = (b.sent link msgType txSize).within embed := by
  subst selected
  exact congrArg (fun result => { b.within embed with env := result.2 }) (embeds.same _ _ _)

theorem Embeds.message :
    (b.within embed).message wide msgType txSize = b.message link msgType txSize := by
  unfold Boot.message
  rw [embeds.status selected]
  rfl

end Exchange

/-- An exchange that goes on if it succeeds, and ends in an error if not. -/
theorem Embeds.expectOk {b : Boot σ} {msgType err : UInt8} (error : err ≠ noErr)
    {next : Boot σ → Boot σ × List BootOutput} {nextWide : Boot τ → Boot τ × List BootOutput}
    (goesOn : ∀ b, AllNoErr (next b).2 → nextWide (b.within embed) = resultWithin embed (next b))
    (all : AllNoErr (expectOk link b msgType err next).2) :
    MasterBoot.expectOk wide (b.within embed) msgType err nextWide =
      resultWithin embed (MasterBoot.expectOk link b msgType err next) := by
  unfold MasterBoot.expectOk at all ⊢
  by_cases failed : b.status link msgType 0 ≠ commsOk
  · rw [if_pos failed] at all
    exact absurd (all err (by simp [Boot.message, Boot.finish])) error
  · have selected := embeds.module_eq (not_not.mp failed)
    rw [if_neg failed] at all ⊢
    rw [embeds.status selected, embeds.message selected, embeds.sent selected, if_neg failed,
      goesOn _ all.append.2]
    rfl

/-- An exchange whose result is the response. -/
theorem Embeds.reports {b : Boot σ} {msgType err : UInt8} {txSize : Nat} (error : err ≠ noErr)
    (all : AllNoErr (emitting [b.message link msgType txSize]
      ((b.sent link msgType txSize).finish
        (if b.status link msgType txSize ≠ commsOk then err else noErr))).2) :
    emitting [(b.within embed).message wide msgType txSize]
        (((b.within embed).sent wide msgType txSize).finish
          (if (b.within embed).status wide msgType txSize ≠ commsOk then err else noErr)) =
      resultWithin embed (emitting [b.message link msgType txSize]
        ((b.sent link msgType txSize).finish
          (if b.status link msgType txSize ≠ commsOk then err else noErr))) := by
  by_cases failed : b.status link msgType txSize ≠ commsOk
  · rw [if_pos failed] at all
    exact absurd (all err (by simp [Boot.message, Boot.finish])) error
  · have selected := embeds.module_eq (not_not.mp failed)
    rw [embeds.status selected, embeds.message selected, embeds.sent selected]
    rfl

/-! ## A step, by message -/

theorem Embeds.restartSubmodule {b : Boot σ} (all : AllNoErr (restartSubmodule link b).2) :
    MasterBoot.restartSubmodule wide (b.within embed) =
      resultWithin embed (MasterBoot.restartSubmodule link b) := by
  refine embeds.expectOk (by decide) (fun _ all => ?_) all
  refine embeds.expectOk (by decide) (fun _ all => ?_) all
  refine embeds.expectOk (by decide) (fun _ all => ?_) all
  exact embeds.reports (by decide) all

theorem Embeds.runHeader {b : Boot σ} {word : UInt32} (all : AllNoErr (runHeader link b word).2) :
    MasterBoot.runHeader wide (b.within embed) word =
      resultWithin embed (MasterBoot.runHeader link b word) := by
  by_cases third : b.count ≠ 0 ∧ b.count ≠ 1
  · have thirdWide : (b.within embed).count ≠ 0 ∧ (b.within embed).count ≠ 1 := third
    by_cases invalid : word ≠ eraseFlashKey ∨ moduleOfKey b.header.dkey = .none
    · rw [runHeader_invalid link third invalid, runHeader_invalid wide thirdWide invalid]
      rfl
    obtain ⟨key, known⟩ := not_or.mp invalid
    rw [not_not] at key
    by_cases own : b.header.dkey = olympusKey
    · rw [runHeader_olympus link third own key, runHeader_olympus wide thirdWide own key]
      rfl
    · rw [runHeader_submodule link third known own key] at all ⊢
      rw [runHeader_submodule wide thirdWide known own key]
      exact embeds.restartSubmodule all
  · unfold MasterBoot.runHeader
    by_cases first : b.count = 0
    · have firstWide : (b.within embed).count = 0 := first
      rw [if_pos first, if_pos firstWide]
      rfl
    · have firstWide : ¬ (b.within embed).count = 0 := first
      have second : b.count = 1 := by
        by_contra other
        exact third ⟨first, other⟩
      have secondWide : (b.within embed).count = 1 := second
      rw [if_neg first, if_neg firstWide, if_pos second, if_pos secondWide]
      rfl

omit embeds in
theorem endData_within (embed : σ → τ) (b : Boot σ) :
    endData (b.within embed) = resultWithin embed (endData b) := by
  by_cases last : b.count = b.header.size
  · have lastWide : (b.within embed).count = (b.within embed).header.size := last
    simp only [endData, if_pos last, if_pos lastWide]
    rfl
  · have lastWide : ¬ (b.within embed).count = (b.within embed).header.size := last
    simp only [endData, if_neg last, if_neg lastWide]
    rfl

theorem Embeds.runData {b : Boot σ} {word : UInt32} (all : AllNoErr (runData link b word).2) :
    MasterBoot.runData wide (b.within embed) word =
      resultWithin embed (MasterBoot.runData link b word) := by
  by_cases own : b.module = .olympus
  · have ownWide : (b.within embed).module = .olympus := own
    rw [MasterBoot.runData, MasterBoot.runData, if_pos own, if_pos ownWide]
    exact congrArg (emitting _) (endData_within embed { b with
      dataAddr := b.dataAddr + 4
      count := b.count + 4
      checksum := b.checksum + word })
  · have ownWide : (b.within embed).module ≠ .olympus := own
    have filled : (b.within embed).withWord word = (b.withWord word).within embed := rfl
    rcases runData_cases link own word with
      ⟨result, inside⟩ | ⟨result, -, -⟩ | ⟨result, complete, ok⟩
    · rcases runData_cases wide ownWide word with ⟨wideResult, -⟩ | ⟨-, beyond, -⟩ | ⟨-, beyond, -⟩
      · rw [result, wideResult, filled, endData_within]
      · exact absurd beyond inside
      · exact absurd beyond inside
    · rw [result] at all
      exact absurd (all errDataWrite (by simp [Boot.message, Boot.finish])) (by decide)
    · have selected := embeds.module_eq ok
      have okWide : ((b.within embed).withWord word).status wide 0x02 64 = commsOk := by
        rw [filled, embeds.status selected, ok]
      rcases runData_cases wide ownWide word with ⟨-, inside⟩ | ⟨-, -, failed⟩ | ⟨wideResult, -, -⟩
      · exact absurd complete inside
      · exact absurd okWide failed
      · rw [result, wideResult, filled, embeds.message selected, embeds.sent selected,
          endData_within]
        rfl

theorem Embeds.runChecksum {b : Boot σ} {word : UInt32}
    (all : AllNoErr (runChecksum link b word).2) :
    MasterBoot.runChecksum wide (b.within embed) word =
      resultWithin embed (MasterBoot.runChecksum link b word) := by
  by_cases own : b.module = .olympus
  · have ownWide : (b.within embed).module = .olympus := own
    rw [MasterBoot.runChecksum, MasterBoot.runChecksum, if_pos own, if_pos ownWide]
    rfl
  · have ownWide : (b.within embed).module ≠ .olympus := own
    rw [MasterBoot.runChecksum, if_neg own] at all
    rw [MasterBoot.runChecksum, if_neg ownWide, MasterBoot.runChecksum, if_neg own]
    exact embeds.reports (by decide) all

/-- **A step** that answers with no error. -/
theorem Embeds.bootStep {b : Boot σ} {word : UInt32} (all : AllNoErr (bootStep link b word).2) :
    MasterBoot.bootStep wide (b.within embed) word =
      resultWithin embed (MasterBoot.bootStep link b word) := by
  by_cases running : b.running = true
  swap
  · have stopped : ¬ (b.within embed).running = true := running
    rw [bootStep_stopped link running, bootStep_stopped wide stopped]
    rfl
  have runningWide : (b.within embed).running = true := running
  cases msg : b.msg with
  | data =>
      rw [bootStep_data link running msg] at all ⊢
      rw [bootStep_data wide runningWide msg]
      exact embeds.runData all
  | checksum =>
      rw [bootStep_checksum link running msg] at all ⊢
      rw [bootStep_checksum wide runningWide msg]
      exact embeds.runChecksum all
  | header =>
      rw [bootStep_header link running msg] at all ⊢
      rw [bootStep_header wide runningWide msg]
      exact embeds.runHeader all
  | dmy =>
      rw [bootStep_dmy link running msg, bootStep_dmy wide runningWide msg]
      unfold runDmy
      split <;> rfl
  | jump =>
      rw [bootStep_default link running (.inl msg), bootStep_default wide runningWide (.inl msg)]
      rfl
  | other code =>
      rw [bootStep_default link running (.inr ⟨code, msg⟩),
        bootStep_default wide runningWide (.inr ⟨code, msg⟩)]
      rfl

/-! ## A run -/

/-- **A run** that answers with no error. -/
theorem Embeds.run (words : List UInt32) :
    ∀ b : Boot σ, AllNoErr ((bootFSM link).outputs b words) →
    (bootFSM wide).after (b.within embed) words = ((bootFSM link).after b words).within embed ∧
      (bootFSM wide).outputs (b.within embed) words = (bootFSM link).outputs b words := by
  induction words with
  | nil =>
      intro b _
      exact ⟨rfl, rfl⟩
  | cons word words ih =>
      intro b all
      rw [Fsm.outputs_cons] at all
      obtain ⟨first, rest⟩ := all.append
      have step : (bootFSM wide).step (b.within embed) word = _ := embeds.bootStep first
      obtain ⟨reached, emitted⟩ := ih _ rest
      rw [Fsm.after_cons, Fsm.after_cons, Fsm.outputs_cons, Fsm.outputs_cons, ← reached, ← emitted,
        Fsm.next, Fsm.emit, step]
      exact ⟨rfl, rfl⟩

end OlympusFirmware.MasterBoot
