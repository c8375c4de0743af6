import Mathlib.Logic.Function.Basic
import OlympusFirmware.Lib.Ring

/-!
# Rings that are handed over slot by slot

Two parties go round a ring of `n` slots, and a flag at each slot says whether it is handed
over. One party hands over slots, the other takes them and gives them back: the slots that are
handed over are always `count` slots from `first` on. Positions are counted without end, the
slot of a position is its remainder.
-/

namespace OlympusFirmware.Lib

variable {n first count : Nat} {own : Nat → Bool}

/-- From position `first` on, `count` slots are handed over and the others are not. -/
structure Handed (n : Nat) (own : Nat → Bool) (first count : Nat) : Prop where
  few : count ≤ n
  flags : ∀ i < n, own ((first + i) % n) = decide (i < count)

namespace Handed

/-- Nothing is handed over at first. -/
theorem none (unset : ∀ i, own i = false) : Handed n own first 0 := by
  refine ⟨Nat.zero_le n, ?_⟩
  intro i _
  rw [unset]
  rfl

/-- Whether the first slot is handed over says whether any is. -/
theorem own_first (handed : Handed n own first count) (positive : 0 < n) :
    own (first % n) = true ↔ 0 < count := by
  have flag := handed.flags 0 positive
  rw [Nat.add_zero] at flag
  rw [flag, decide_eq_true_iff]

/-- A slot behind those that are handed over is free exactly when the ring is not full up to
it. -/
theorem own_behind (handed : Handed n own first count) {k : Nat} (inside : k < n) :
    own ((first + (count + k)) % n) = false ↔ count + k < n := by
  constructor
  · intro free
    by_contra full
    -- once round, it is the slot of a position that is handed over
    have few := handed.few
    obtain ⟨j, round⟩ : ∃ j, count + k = n + j := Nat.exists_eq_add_of_le (by omega)
    have back : (first + (n + j)) % n = (first + j) % n := by
      rw [Nat.add_left_comm, Nat.add_mod_left]
    rw [round, back, handed.flags j (by omega), decide_eq_false_iff_not] at free
    omega
  · intro room
    rw [handed.flags (count + k) room, decide_eq_false_iff_not]
    omega

/-- **A slot is handed over.** -/
theorem give (handed : Handed n own first count) (room : count < n) :
    Handed n (Function.update own ((first + count) % n) true) first (count + 1) := by
  refine ⟨room, ?_⟩
  intro i inside
  by_cases same : i = count
  · subst same
    rw [Function.update_self]
    simp
  · have other : (first + i) % n ≠ (first + count) % n :=
      fun slots => same (Ring.position_inj inside room slots)
    rw [Function.update_of_ne other, handed.flags i inside, decide_eq_decide]
    omega

/-- **A slot is given back.** -/
theorem take (handed : Handed n own first (count + 1)) :
    Handed n (Function.update own (first % n) false) (first + 1) count := by
  have few := handed.few
  refine ⟨by omega, ?_⟩
  intro i inside
  by_cases last : i + 1 = n
  · have round : (first + 1 + i) % n = first % n := by
      rw [Nat.add_assoc, Nat.add_comm 1 i, last, Nat.add_mod_right]
    rw [round, Function.update_self, eq_comm, decide_eq_false_iff_not]
    omega
  · have next : first + 1 + i = first + (i + 1) := by omega
    have other : (first + (i + 1)) % n ≠ first % n := by
      intro slots
      have zero := Ring.position_inj (show i + 1 < n by omega) (by omega)
        (slots.trans (congrArg (· % n) (Nat.add_zero first).symm))
      omega
    rw [next, Function.update_of_ne other, handed.flags (i + 1) (by omega), decide_eq_decide]
    omega

end Handed

section Filled

universe u

variable {α : Type u} {holds holds' : Nat → α → Prop} {queue : List α} {a : α}

/-- The slots that are handed over hold the entries of a queue. -/
structure Filled (n : Nat) (own : Nat → Bool) (holds : Nat → α → Prop) (first : Nat)
    (queue : List α) : Prop where
  handed : Handed n own first queue.length
  slots : ∀ j (inside : j < queue.length), holds ((first + j) % n) queue[j]

namespace Filled

theorem none (unset : ∀ i, own i = false) : Filled n own holds first [] := by
  refine ⟨.none unset, ?_⟩
  intro j inside
  exact absurd inside (Nat.not_lt_zero j)

/-- Slots that are not handed over may change. -/
theorem others {k : Nat} (filled : Filled n own holds first queue)
    (free : queue.length + k < n)
    (kept : ∀ b a, b ≠ (first + (queue.length + k)) % n → holds b a → holds' b a) :
    Filled n own holds' first queue := by
  refine ⟨filled.handed, ?_⟩
  intro j inside
  refine kept _ _ ?_ (filled.slots j inside)
  intro slots
  have same := Ring.position_inj (by omega) free slots
  omega

/-- **A slot is filled and handed over.** -/
theorem give (filled : Filled n own holds first queue) (room : queue.length < n)
    (last : holds' ((first + queue.length) % n) a)
    (kept : ∀ b a, b ≠ (first + queue.length) % n → holds b a → holds' b a) :
    Filled n (Function.update own ((first + queue.length) % n) true) holds' first
      (queue ++ [a]) := by
  refine ⟨?_, ?_⟩
  · rw [List.length_append]
    exact filled.handed.give room
  · intro j inside
    rcases Nat.lt_or_ge j queue.length with before | behind
    · rw [List.getElem_append_left before]
      refine kept _ _ ?_ (filled.slots j before)
      intro slots
      exact Nat.ne_of_lt before (Ring.position_inj (by omega) room slots)
    · have isLast : j = queue.length := by
        rw [List.length_append, List.length_singleton] at inside
        omega
      subst isLast
      rw [List.getElem_concat_length rfl]
      exact last

/-- **The first slot is given back.** -/
theorem take (filled : Filled n own holds first (a :: queue))
    (kept : ∀ b a, b ≠ first % n → holds b a → holds' b a) :
    Filled n (Function.update own (first % n) false) holds' (first + 1) queue := by
  have few := filled.handed.few
  rw [List.length_cons] at few
  refine ⟨filled.handed.take, ?_⟩
  intro j inside
  have held := filled.slots (j + 1) (Nat.succ_lt_succ inside)
  have next : first + (j + 1) = first + 1 + j := by omega
  rw [List.getElem_cons_succ, next] at held
  refine kept _ _ ?_ held
  intro slots
  rw [← next] at slots
  have zero := Ring.position_inj (show j + 1 < n by omega) (by omega)
    (slots.trans (congrArg (· % n) (Nat.add_zero first).symm))
  omega

end Filled

end Filled

end OlympusFirmware.Lib
