import Mathlib.Data.List.Basic
import Mathlib.Tactic.Tauto

/-!
# Deterministic machines with outputs

The firmware is a set of loops that hand one input at a time (a byte, a word,
an interrupt) to a function with static state. `Fsm` is that shape: one step
consumes an input, updates the state, and emits a list of outputs. This module
holds what every such development needs and nothing about any program:

* `after`, `outputs` — the state reached and everything emitted by a run;
* `trace` — the outputs, each with the inputs consumed up to it;
* `EveryStep` — a condition on (state, input) that holds at each step of a run;
* `countSteps` — how often a decidable condition holds along a run;
* the induction rules that lift one-step facts to whole runs.
-/

namespace OlympusFirmware.Lib

universe u v w

/-- A machine: one step consumes an input and emits a list of outputs. -/
structure Fsm (σ : Type u) (ι : Type v) (ο : Type w) where
  step : σ → ι → σ × List ο

namespace Fsm

variable {σ : Type u} {ι : Type v} {ο : Type w} (M : Fsm σ ι ο)

/-- The state after one input. -/
def next (s : σ) (x : ι) : σ := (M.step s x).1

/-- The outputs of one input. -/
def emit (s : σ) (x : ι) : List ο := (M.step s x).2

/-- The state after a run. -/
def after : σ → List ι → σ
  | s, [] => s
  | s, x :: xs => after (M.next s x) xs

/-- Everything a run emits, in order. -/
def outputs : σ → List ι → List ο
  | _, [] => []
  | s, x :: xs => M.emit s x ++ outputs (M.next s x) xs

/-- Everything a run emits, each output paired with all inputs consumed when it
was emitted (`seen` holds those consumed before the run). -/
def trace (seen : List ι) : σ → List ι → List (List ι × ο)
  | _, [] => []
  | s, x :: xs =>
      (M.emit s x).map (fun o => (seen ++ [x], o)) ++
        trace (seen ++ [x]) (M.next s x) xs

/-- `P` holds of the state and the input at every step of the run. -/
def EveryStep (P : σ → ι → Prop) : σ → List ι → Prop
  | _, [] => True
  | s, x :: xs => P s x ∧ EveryStep P (M.next s x) xs

instance decidableEveryStep (P : σ → ι → Prop) [∀ s x, Decidable (P s x)] :
    ∀ s xs, Decidable (M.EveryStep P s xs)
  | _, [] => .isTrue trivial
  | s, x :: xs =>
      have := decidableEveryStep P (M.next s x) xs
      inferInstanceAs (Decidable (_ ∧ _))

/-- How many steps of the run satisfy `P`. -/
def countSteps (P : σ → ι → Bool) : σ → List ι → Nat
  | _, [] => 0
  | s, x :: xs => (if P s x then 1 else 0) + countSteps P (M.next s x) xs

@[simp] theorem after_nil (s : σ) : M.after s [] = s := rfl

@[simp] theorem after_cons (s : σ) (x : ι) (xs : List ι) :
    M.after s (x :: xs) = M.after (M.next s x) xs := rfl

@[simp] theorem outputs_nil (s : σ) : M.outputs s [] = [] := rfl

@[simp] theorem outputs_cons (s : σ) (x : ι) (xs : List ι) :
    M.outputs s (x :: xs) = M.emit s x ++ M.outputs (M.next s x) xs := rfl

@[simp] theorem everyStep_nil (P : σ → ι → Prop) (s : σ) : M.EveryStep P s [] :=
  trivial

@[simp] theorem everyStep_cons (P : σ → ι → Prop) (s : σ) (x : ι) (xs : List ι) :
    M.EveryStep P s (x :: xs) ↔ P s x ∧ M.EveryStep P (M.next s x) xs := Iff.rfl

theorem after_append (s : σ) (xs ys : List ι) :
    M.after s (xs ++ ys) = M.after (M.after s xs) ys := by
  induction xs generalizing s with
  | nil => rfl
  | cons x xs ih => exact ih (M.next s x)

theorem outputs_append (s : σ) (xs ys : List ι) :
    M.outputs s (xs ++ ys) = M.outputs s xs ++ M.outputs (M.after s xs) ys := by
  induction xs generalizing s with
  | nil => rfl
  | cons x xs ih => simp [ih (M.next s x)]

/-- A state that takes none of the inputs stays, and emits nothing. -/
theorem stays {s : σ} {xs : List ι} (takesNone : ∀ x ∈ xs, M.step s x = (s, [])) :
    M.after s xs = s ∧ M.outputs s xs = [] := by
  induction xs with
  | nil => exact ⟨rfl, rfl⟩
  | cons x xs ih =>
      have here := takesNone x List.mem_cons_self
      have next : M.next s x = s := congrArg Prod.fst here
      have emit : M.emit s x = [] := congrArg Prod.snd here
      rw [after_cons, outputs_cons, next, emit]
      exact ih fun y member => takesNone y (List.mem_cons_of_mem x member)

theorem trace_append (seen : List ι) (s : σ) (xs ys : List ι) :
    M.trace seen s (xs ++ ys) =
      M.trace seen s xs ++ M.trace (seen ++ xs) (M.after s xs) ys := by
  induction xs generalizing seen s with
  | nil => simp [trace]
  | cons x xs ih => simp [trace, ih]

theorem everyStep_append (P : σ → ι → Prop) (s : σ) (xs ys : List ι) :
    M.EveryStep P s (xs ++ ys) ↔
      M.EveryStep P s xs ∧ M.EveryStep P (M.after s xs) ys := by
  induction xs generalizing s with
  | nil => simp
  | cons x xs ih => simp [ih (M.next s x), and_assoc]

/-- Forgetting the inputs, a trace is the list of outputs. -/
theorem map_snd_trace (seen : List ι) (s : σ) (xs : List ι) :
    (M.trace seen s xs).map Prod.snd = M.outputs s xs := by
  induction xs generalizing seen s with
  | nil => rfl
  | cons x xs ih => simp [trace, ih, Function.comp_def]

/-- A silent run has an empty trace. -/
theorem trace_eq_nil {s : σ} {xs : List ι} (silent : M.outputs s xs = [])
    (seen : List ι) : M.trace seen s xs = [] := by
  rw [← List.map_eq_nil_iff, M.map_snd_trace seen, silent]

theorem trace_singleton (seen : List ι) (s : σ) (x : ι) :
    M.trace seen s [x] = (M.emit s x).map (fun o => (seen ++ [x], o)) := by
  simp [trace]

/-- Every traced output was emitted by one step of the run: the inputs split
around it. -/
theorem mem_trace {seen : List ι} {s : σ} {xs : List ι} {hist : List ι} {o : ο}
    (member : (hist, o) ∈ M.trace seen s xs) :
    ∃ pre x post, xs = pre ++ x :: post ∧ hist = seen ++ pre ++ [x] ∧
      o ∈ M.emit (M.after s pre) x := by
  induction xs generalizing seen s with
  | nil => simp [trace] at member
  | cons x xs ih =>
      simp only [trace, List.mem_append, List.mem_map, Prod.mk.injEq] at member
      rcases member with ⟨out, emitted, rfl, rfl⟩ | later
      · exact ⟨[], x, xs, rfl, by simp, emitted⟩
      · obtain ⟨pre, y, post, rfl, rfl, emitted⟩ := ih later
        exact ⟨x :: pre, y, post, rfl, by simp, emitted⟩

/-- The invariant rule: what each step that meets `C` preserves, a run whose
steps all meet `C` preserves. The invariant may speak about the inputs consumed
so far. -/
theorem invariant {I : List ι → σ → Prop} {C : σ → ι → Prop}
    (preserved : ∀ seen s x, I seen s → C s x → I (seen ++ [x]) (M.next s x))
    (seen : List ι) {s : σ} {xs : List ι} (start : I seen s)
    (steps : M.EveryStep C s xs) : I (seen ++ xs) (M.after s xs) := by
  induction xs generalizing seen s with
  | nil => simpa using start
  | cons x xs ih =>
      obtain ⟨head, tail⟩ := steps
      have reached := ih (seen ++ [x]) (preserved seen s x start head) tail
      simpa using reached

/-- What every step preserves, every run preserves. -/
theorem invariant_after {I : σ → Prop} (preserved : ∀ s x, I s → I (M.next s x)) {s : σ}
    (start : I s) (xs : List ι) : I (M.after s xs) := by
  induction xs generalizing s with
  | nil => exact start
  | cons x xs ih => exact ih (preserved s x start)

/-- The invariant rule for invariants that speak about what was emitted so far. -/
theorem invariant_outputs {I : List ο → σ → Prop} {C : σ → ι → Prop}
    (preserved : ∀ hist s x, I hist s → C s x → I (hist ++ M.emit s x) (M.next s x))
    {hist : List ο} {s : σ} {xs : List ι} (start : I hist s) (steps : M.EveryStep C s xs) :
    I (hist ++ M.outputs s xs) (M.after s xs) := by
  induction xs generalizing hist s with
  | nil => simpa using start
  | cons x xs ih =>
      obtain ⟨head, tail⟩ := steps
      have reached := ih (preserved hist s x start head) tail
      simpa using reached

/-- What every step preserves of the outputs and the state, every run preserves. -/
theorem invariant_emitted {I : List ο → σ → Prop}
    (preserved : ∀ hist s x, I hist s → I (hist ++ M.emit s x) (M.next s x))
    {s : σ} (start : I [] s) (xs : List ι) : I (M.outputs s xs) (M.after s xs) := by
  suffices run : ∀ hist s, I hist s → I (hist ++ M.outputs s xs) (M.after s xs) from
    run [] s start
  induction xs with
  | nil =>
      intro hist s holds
      simpa using holds
  | cons x xs ih =>
      intro hist s holds
      have reached := ih (hist ++ M.emit s x) (M.next s x) (preserved hist s x holds)
      simpa using reached

/-- A condition holds at every step exactly when it holds wherever the run is
cut. -/
theorem everyStep_iff (P : σ → ι → Prop) (s : σ) (xs : List ι) :
    M.EveryStep P s xs ↔
      ∀ pre x post, xs = pre ++ x :: post → P (M.after s pre) x := by
  induction xs generalizing s with
  | nil => simp
  | cons x xs ih =>
      rw [everyStep_cons, ih]
      constructor
      · rintro ⟨head, tail⟩ pre y post split
        cases pre with
        | nil =>
            obtain ⟨rfl, rfl⟩ : x = y ∧ xs = post := by simpa using split
            exact head
        | cons z pre =>
            obtain ⟨rfl, rfl⟩ : x = z ∧ xs = pre ++ y :: post := by simpa using split
            exact tail pre y post rfl
      · intro all
        refine ⟨all [] x xs rfl, ?_⟩
        rintro pre y post rfl
        exact all (x :: pre) y post rfl

/-- What holds of every output holds of what each step emits. -/
theorem forall_outputs_iff (P : ο → Prop) (s : σ) (xs : List ι) :
    (∀ o ∈ M.outputs s xs, P o) ↔ M.EveryStep (fun s x => ∀ o ∈ M.emit s x, P o) s xs := by
  induction xs generalizing s with
  | nil => simp
  | cons x xs ih =>
    simp only [outputs_cons, List.mem_append, or_imp, forall_and, ih, everyStep_cons]

/-- Two conditions hold at every step exactly when each of them does. -/
theorem everyStep_and (P Q : σ → ι → Prop) (s : σ) (xs : List ι) :
    M.EveryStep (fun s x => P s x ∧ Q s x) s xs ↔ M.EveryStep P s xs ∧ M.EveryStep Q s xs := by
  induction xs generalizing s with
  | nil => simp
  | cons x xs ih =>
      simp only [everyStep_cons, ih]
      tauto

/-- Conditions that agree on every state and input agree on every run. -/
theorem everyStep_congr {P Q : σ → ι → Prop} (same : ∀ s x, P s x ↔ Q s x) (s : σ)
    (xs : List ι) : M.EveryStep P s xs ↔ M.EveryStep Q s xs := by
  induction xs generalizing s with
  | nil => simp
  | cons x xs ih => simp only [everyStep_cons, same, ih]

/-- The invariant rule for conditions: a step from the invariant that meets `C`
keeps the invariant and meets `P`, so a run whose steps meet `C` meets `P`. -/
theorem everyStep_of_invariant {I : σ → Prop} {C P : σ → ι → Prop}
    (step : ∀ s x, I s → C s x → I (M.next s x) ∧ P s x) {s : σ} {xs : List ι} (start : I s)
    (steps : M.EveryStep C s xs) : M.EveryStep P s xs := by
  induction xs generalizing s with
  | nil => trivial
  | cons x xs ih =>
      obtain ⟨head, tail⟩ := steps
      obtain ⟨kept, holds⟩ := step s x start head
      exact ⟨holds, ih kept tail⟩

@[simp] theorem countSteps_nil (P : σ → ι → Bool) (s : σ) : M.countSteps P s [] = 0 := rfl

@[simp] theorem countSteps_cons (P : σ → ι → Bool) (s : σ) (x : ι) (xs : List ι) :
    M.countSteps P s (x :: xs) =
      (if P s x then 1 else 0) + M.countSteps P (M.next s x) xs := rfl

theorem countSteps_append (P : σ → ι → Bool) (s : σ) (xs ys : List ι) :
    M.countSteps P s (xs ++ ys) = M.countSteps P s xs + M.countSteps P (M.after s xs) ys := by
  induction xs generalizing s with
  | nil => simp
  | cons x xs ih => simp [ih (M.next s x), Nat.add_assoc]

/-- A condition that never holds along a run is one that fails at every step. -/
theorem countSteps_eq_zero (P : σ → ι → Bool) (s : σ) (xs : List ι) :
    M.countSteps P s xs = 0 ↔ M.EveryStep (fun s x => P s x = false) s xs := by
  induction xs generalizing s with
  | nil => simp
  | cons x xs ih => simp [ih (M.next s x)]

end Fsm

end OlympusFirmware.Lib
