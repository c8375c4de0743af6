import OlympusFirmware.Lib.Ring

/-!
# Chains of blocks

A memory is cut into `n` blocks of `size` cells, and the blocks form a ring. Data that does not
fit one block goes on in the next. `view` is the memory as a loop over such a chain sees it:
the blocks from `base` on, one behind the other.
-/

namespace OlympusFirmware.Lib.Blocks

universe u

variable {α : Type u} {n size : Nat} {m : Mem α} {base : Nat}

/-- The blocks from block `base` on, one behind the other. -/
def view (n size : Nat) (m : Mem α) (base : Nat) : Mem α := fun t =>
  m ((base + t / size) % n * size + t % size)

/-- The cell at offset `i` of block `k`. -/
theorem view_cell (k : Nat) {i : Nat} (inside : i < size) :
    view n size m base (k * size + i) = m ((base + k) % n * size + i) := by
  have quotient : (k * size + i) / size = k := by
    rw [Nat.mul_comm, Nat.mul_add_div (by omega), Nat.div_eq_of_lt inside, Nat.add_zero]
  have remainder : (k * size + i) % size = i := by
    rw [Nat.mul_comm, Nat.mul_add_mod, Nat.mod_eq_of_lt inside]
  unfold view
  rw [quotient, remainder]

/-- What is read within a block. -/
theorem load_view (k : Nat) {off len : Nat} (inside : off + len ≤ size) :
    (view n size m base).load (k * size + off) len = m.load ((base + k) % n * size + off) len := by
  apply List.map_congr_left
  intro i member
  rw [List.mem_range] at member
  rw [Nat.add_assoc, Nat.add_assoc]
  exact view_cell k (by omega)

/-- Every cell of the chain is at an offset of a block. -/
theorem exists_cell {t : Nat} (inside : t < n * size) :
    ∃ k < n, ∃ i < size, t = k * size + i := by
  have positive : 0 < size := by
    rcases Nat.eq_zero_or_pos size with rfl | positive
    · rw [Nat.mul_zero] at inside
      omega
    · exact positive
  refine ⟨t / size, Nat.div_lt_of_lt_mul (Nat.mul_comm n size ▸ inside), t % size,
    Nat.mod_lt t positive, ?_⟩
  rw [Nat.mul_comm]
  exact (Nat.div_add_mod t size).symm

/-- Different blocks lie apart. -/
theorem block_apart {b b' : Nat} (size : Nat) (other : b ≠ b') :
    b * size + size ≤ b' * size ∨ b' * size + size ≤ b * size := by
  rcases Nat.lt_or_gt_of_ne other with before | behind
  · left
    rw [← Nat.succ_mul]
    exact Nat.mul_le_mul_right size (Nat.succ_le_of_lt before)
  · right
    rw [← Nat.succ_mul]
    exact Nat.mul_le_mul_right size (Nat.succ_le_of_lt behind)

/-- What is stored within a block leaves the others. -/
theorem load_store_other {b b' off off' len : Nat} {block : List α} (other : b ≠ b')
    (inside : off + block.length ≤ size) (inside' : off' + len ≤ size) :
    (m.store (b * size + off) block).load (b' * size + off') len =
      m.load (b' * size + off') len := by
  apply Mem.load_store_disjoint
  have apart := block_apart size other
  omega

/-- **What is stored within a block** is stored in the chain. -/
theorem view_store {k off t : Nat} {block : List α} (few : k < n)
    (inside : off + block.length ≤ size) (within : t < n * size) :
    view n size (m.store ((base + k) % n * size + off) block) base t =
      (view n size m base).store (k * size + off) block t := by
  obtain ⟨j, fewer, i, offset, rfl⟩ := exists_cell within
  rw [view_cell j offset]
  by_cases same : j = k
  · subst same
    have low : (base + j) % n * size + off ≤ (base + j) % n * size + i ↔
        j * size + off ≤ j * size + i := by omega
    have place : (base + j) % n * size + i - ((base + j) % n * size + off) =
        j * size + i - (j * size + off) := by omega
    simp only [Mem.store, low, place, view_cell j offset]
  · have slots : (base + j) % n ≠ (base + k) % n := fun slots =>
      same (Ring.position_inj fewer few slots)
    have apart := block_apart size same
    have apartSlots := block_apart size slots
    rw [Mem.store_outside (by omega), Mem.store_outside (by omega), view_cell j offset]

/-- **Data in the chain grows** by what is stored behind it, within a block. -/
theorem load_view_store {k off : Nat} {block : List α} (few : k < n)
    (inside : off + block.length ≤ size) :
    (view n size (m.store ((base + k) % n * size + off) block) base).load 0
        (k * size + off + block.length) =
      (view n size m base).load 0 (k * size + off) ++ block := by
  have last : k * size + size ≤ n * size := by
    rw [← Nat.succ_mul]
    exact Nat.mul_le_mul_right size (Nat.succ_le_of_lt few)
  have stored : (view n size (m.store ((base + k) % n * size + off) block) base).load 0
      (k * size + off + block.length) =
      ((view n size m base).store (k * size + off) block).load 0
        (k * size + off + block.length) := by
    apply Mem.load_congr
    intro t _ within
    exact view_store few inside (by omega)
  have behind := (view n size m base).load_store_behind 0 (k * size + off) block
  rw [Nat.zero_add] at behind
  rw [stored, behind]

end OlympusFirmware.Lib.Blocks
