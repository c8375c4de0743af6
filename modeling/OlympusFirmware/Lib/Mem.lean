import Mathlib.Data.List.Basic

/-!
# Flat memory

A memory is a total function from addresses to cells. `load` reads a block as a
list, `store` writes one (what `memcpy` does with the bytes of its source). The
two are related by what the next load sees: the block just written, or, for a
block that does not meet it, what was there before.
-/

namespace OlympusFirmware.Lib

universe u

/-- A memory with cells of type `α`. -/
abbrev Mem (α : Type u) := Nat → α

namespace Mem

variable {α : Type u}

/-- The block of `n` cells at `a`. -/
def load (m : Mem α) (a n : Nat) : List α := (List.range n).map fun i => m (a + i)

/-- Write a block at `a`. -/
def store (m : Mem α) (a : Nat) (block : List α) : Mem α := fun i =>
  if a ≤ i then (block[i - a]?).getD (m i) else m i

/-- The memory from an address on. -/
def shift (m : Mem α) (a : Nat) : Mem α := fun i => m (a + i)

@[simp] theorem length_load (m : Mem α) (a n : Nat) : (m.load a n).length = n := by
  simp [load]

@[simp] theorem load_zero (m : Mem α) (a : Nat) : m.load a 0 = [] := rfl

theorem load_add (m : Mem α) (a n k : Nat) :
    m.load a (n + k) = m.load a n ++ m.load (a + n) k := by
  simp [load, List.range_add, Nat.add_assoc, Function.comp_def]

/-- The first cells of a block. -/
theorem load_take {m : Mem α} {a n k : Nat} (fits : k ≤ n) :
    (m.load a n).take k = m.load a k := by
  obtain ⟨more, rfl⟩ := Nat.exists_eq_add_of_le fits
  rw [load_add]
  exact List.take_left' (length_load ..)

/-- The cells of a block from one on. -/
theorem load_drop {m : Mem α} {a n k : Nat} (fits : k ≤ n) :
    (m.load a n).drop k = m.load (a + k) (n - k) := by
  obtain ⟨more, rfl⟩ := Nat.exists_eq_add_of_le fits
  rw [load_add, Nat.add_sub_cancel_left]
  exact List.drop_left' (length_load ..)

/-- Blocks are equal when their cells are. -/
theorem load_congr {m m' : Mem α} {a n : Nat}
    (same : ∀ i, a ≤ i → i < a + n → m' i = m i) : m'.load a n = m.load a n := by
  apply List.map_congr_left
  intro i inside
  rw [List.mem_range] at inside
  exact same (a + i) (by omega) (by omega)

/-- The cells of equal blocks are equal. -/
theorem eq_of_load_eq {m m' : Mem α} {a n i : Nat} (same : m'.load a n = m.load a n)
    (low : a ≤ i) (high : i < a + n) : m' i = m i := by
  have cell := congrArg (·[i - a]?) same
  have inside : i - a < n := by omega
  simpa [load, inside, Nat.add_sub_cancel' low] using cell

theorem store_outside {m : Mem α} {a i : Nat} {block : List α}
    (outside : i < a ∨ a + block.length ≤ i) : m.store a block i = m i := by
  unfold store
  split
  · rw [List.getElem?_eq_none (by omega)]
    rfl
  · rfl

theorem store_inside {m : Mem α} {a i : Nat} {block : List α}
    (low : a ≤ i) (high : i - a < block.length) : m.store a block i = block[i - a] := by
  simp [store, low, high]

theorem load_store_self (m : Mem α) (a : Nat) (block : List α) :
    (m.store a block).load a block.length = block := by
  apply List.ext_getElem
  · simp
  · intro i left right
    simp [load, store, right]

theorem load_store_disjoint {m : Mem α} {a b n : Nat} {block : List α}
    (disjoint : b + n ≤ a ∨ a + block.length ≤ b) :
    (m.store a block).load b n = m.load b n :=
  load_congr fun i low high => store_outside (by omega)

/-- Two blocks stored next to each other are one. -/
theorem store_append (m : Mem α) (a : Nat) (first rest : List α) :
    (m.store a first).store (a + first.length) rest = m.store a (first ++ rest) := by
  funext i
  by_cases low : i < a + first.length
  · rw [store_outside (.inl low)]
    by_cases before : i < a
    · rw [store_outside (.inl before), store_outside (.inl before)]
    · have inside : i - a < first.length := by omega
      have whole : i - a < (first ++ rest).length := by
        rw [List.length_append]
        omega
      rw [store_inside (by omega) inside, store_inside (by omega) whole,
        List.getElem_append_left inside]
  · by_cases high : i < a + first.length + rest.length
    · have inside : i - (a + first.length) < rest.length := by omega
      have whole : i - a < (first ++ rest).length := by
        rw [List.length_append]
        omega
      rw [store_inside (by omega) inside, store_inside (by omega) whole,
        List.getElem_append_right (by omega)]
      congr 1
      omega
    · rw [store_outside (.inr (by omega)), store_outside (.inr (by omega)),
        store_outside (.inr (by rw [List.length_append]; omega))]

/-- A block grows by what is stored right behind it. -/
theorem load_store_behind (m : Mem α) (a n : Nat) (block : List α) :
    (m.store (a + n) block).load a (n + block.length) = m.load a n ++ block := by
  rw [load_add, load_store_self, load_store_disjoint (by omega)]

theorem load_shift (m : Mem α) (a b n : Nat) : (m.shift a).load b n = m.load (a + b) n := by
  simp [load, shift, Nat.add_assoc]

theorem shift_store (m : Mem α) (a b : Nat) (block : List α) :
    (m.store (a + b) block).shift a = (m.shift a).store b block := by
  funext i
  simp [shift, store, Nat.add_sub_add_left]

end Mem

end OlympusFirmware.Lib
