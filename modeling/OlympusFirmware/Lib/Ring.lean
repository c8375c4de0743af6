import Mathlib.Data.Nat.ModEq
import OlympusFirmware.Lib.Mem

/-!
# Rings of cells

A ring is a block of `n` cells of a memory in which positions are counted modulo `n`.
`contents` reads `len` cells from a position on. A queue in a ring grows by what is stored
behind its contents, in one piece or, across the end of the block, in two, and loses the
cell it starts with.
-/

namespace OlympusFirmware.Lib.Ring

universe u

variable {α : Type u} {n : Nat} {m : Mem α}

/-- The `len` cells from position `start` on, in a ring of `n` cells. -/
def contents (n : Nat) (m : Mem α) (start len : Nat) : List α :=
  (List.range len).map fun i => m ((start + i) % n)

@[simp] theorem length_contents (n : Nat) (m : Mem α) (start len : Nat) :
    (contents n m start len).length = len := by
  simp [contents]

@[simp] theorem contents_zero (n : Nat) (m : Mem α) (start : Nat) :
    contents n m start 0 = [] := rfl

/-- Positions count modulo the number of cells. -/
theorem contents_mod (n : Nat) (m : Mem α) (start len : Nat) :
    contents n m (start % n) len = contents n m start len := by
  simp [contents]

theorem contents_add (n : Nat) (m : Mem α) (start len more : Nat) :
    contents n m start (len + more) =
      contents n m start len ++ contents n m (start + len) more := by
  simp [contents, List.range_add, Nat.add_assoc, Function.comp_def]

/-- The first cell and the rest. -/
theorem contents_succ (n : Nat) (m : Mem α) (start len : Nat) :
    contents n m start (len + 1) = m (start % n) :: contents n m (start + 1) len := by
  rw [Nat.add_comm len, contents_add]
  rfl

theorem contents_take {start len k : Nat} (fits : k ≤ len) :
    (contents n m start len).take k = contents n m start k := by
  obtain ⟨more, rfl⟩ := Nat.exists_eq_add_of_le fits
  rw [contents_add]
  exact List.take_left' (length_contents ..)

theorem contents_drop {start len k : Nat} (fits : k ≤ len) :
    (contents n m start len).drop k = contents n m (start + k) (len - k) := by
  obtain ⟨more, rfl⟩ := Nat.exists_eq_add_of_le fits
  rw [contents_add, Nat.add_sub_cancel_left]
  exact List.drop_left' (length_contents ..)

/-- Contents that do not cross the end are a block. -/
theorem contents_eq_load {start len : Nat} (inside : start + len ≤ n) :
    contents n m start len = m.load start len := by
  apply List.map_congr_left
  intro i member
  rw [List.mem_range] at member
  rw [Nat.mod_eq_of_lt (by omega)]

/-- Contents that cross the end are two blocks. -/
theorem contents_wrap {start len : Nat} (inside : start ≤ n) (across : n - start ≤ len)
    (fits : len - (n - start) ≤ n) :
    contents n m start len = m.load start (n - start) ++ m.load 0 (len - (n - start)) := by
  have first : contents n m start (n - start) = m.load start (n - start) :=
    contents_eq_load (by omega)
  have second : contents n m n (len - (n - start)) = m.load 0 (len - (n - start)) := by
    rw [← contents_mod, Nat.mod_self]
    exact contents_eq_load (by omega)
  have cut := contents_add n m start (n - start) (len - (n - start))
  rw [Nat.add_sub_cancel' across, Nat.add_sub_cancel' inside, first, second] at cut
  exact cut

/-- Contents are equal when the cells are. -/
theorem contents_congr {m' : Mem α} {start len : Nat}
    (same : ∀ i < len, m' ((start + i) % n) = m ((start + i) % n)) :
    contents n m' start len = contents n m start len := by
  apply List.map_congr_left
  intro i member
  exact same i (List.mem_range.mp member)

/-- A position before the end of the contents is not behind it, once round the ring. -/
theorem position_ne {start len i j : Nat} (before : i < len) (free : len + j < n) :
    (start + i) % n ≠ (start + len + j) % n := by
  intro same
  have cong : Nat.ModEq n (start + i) (start + (len + j)) := by
    rw [← Nat.add_assoc]
    exact same
  have close : i % n = (len + j) % n := Nat.ModEq.add_left_cancel' start cong
  rw [Nat.mod_eq_of_lt (by omega), Nat.mod_eq_of_lt free] at close
  omega

/-- A block stored behind the contents, before the end of the ring, leaves them. -/
theorem contents_store_kept {start len : Nat} {block : List α}
    (straight : (start + len) % n + block.length ≤ n) (free : len + block.length ≤ n) :
    contents n (m.store ((start + len) % n) block) start len = contents n m start len := by
  apply contents_congr
  intro i before
  apply Mem.store_outside
  by_contra within
  -- the cell would be the one of the block's `j`-th element
  obtain ⟨j, place⟩ : ∃ j, (start + i) % n = (start + len) % n + j :=
    ⟨(start + i) % n - (start + len) % n, by omega⟩
  have short : j < block.length := by omega
  have wrapped : (start + len + j) % n = (start + len) % n + j := by
    rw [Nat.add_mod, Nat.mod_eq_of_lt (show j < n by omega), Nat.mod_eq_of_lt (by omega)]
  exact position_ne before (show len + j < n by omega) (place.trans wrapped.symm)

/-- **The queue grows** by a block stored behind it, before the end of the ring. -/
theorem contents_store {start len : Nat} {block : List α}
    (straight : (start + len) % n + block.length ≤ n) (free : len + block.length ≤ n) :
    contents n (m.store ((start + len) % n) block) start (len + block.length) =
      contents n m start len ++ block := by
  rw [contents_add, contents_store_kept straight free, ← contents_mod n _ (start + len),
    contents_eq_load straight, Mem.load_store_self]

/-- One cell stored behind the queue. -/
theorem contents_store_one {start len : Nat} (free : len < n) (cell : α) :
    contents n (m.store ((start + len) % n) [cell]) start (len + 1) =
      contents n m start len ++ [cell] :=
  contents_store (Nat.mod_lt _ (by omega)) free

/-- The cell `k` positions on. -/
theorem contents_getElem? {start len k : Nat} (inside : k < len) :
    (contents n m start len)[k]? = some (m ((start + k) % n)) := by
  simp [contents, inside]

/-! ## The whole ring -/

/-- Positions that are not a whole round apart are different cells. -/
theorem position_inj {start i j : Nat} (hi : i < n) (hj : j < n)
    (same : (start + i) % n = (start + j) % n) : i = j := by
  have close : i % n = j % n := Nat.ModEq.add_left_cancel' start same
  rwa [Nat.mod_eq_of_lt hi, Nat.mod_eq_of_lt hj] at close

/-- One cell of the ring is replaced. -/
theorem contents_store_cell {start k : Nat} (inside : k < n) (cell : α) :
    contents n (m.store ((start + k) % n) [cell]) start n =
      (contents n m start n).set k cell := by
  apply List.ext_getElem
  · simp
  · intro i left _
    have bound : i < n := by simpa using left
    rw [List.getElem_set]
    by_cases same : k = i
    · subst same
      rw [if_pos rfl]
      simp only [contents, List.getElem_map, List.getElem_range]
      rw [Mem.store_inside (Nat.le_refl _) (by simp)]
      simp
    · have other : (start + i) % n ≠ (start + k) % n :=
        fun cells => same (position_inj bound inside cells).symm
      rw [if_neg same]
      simp only [contents, List.getElem_map, List.getElem_range]
      apply Mem.store_outside
      rw [List.length_singleton]
      omega

/-- One position further, the first cell is the last. -/
theorem contents_next (positive : 0 < n) (m : Mem α) (start : Nat) :
    contents n m (start + 1) n = (contents n m start n).tail ++ [m (start % n)] := by
  obtain ⟨k, rfl⟩ := Nat.exists_eq_succ_of_ne_zero (Nat.ne_of_gt positive)
  have round : start + 1 + k = start + k.succ := by omega
  rw [contents_succ k.succ m start k, List.tail_cons, contents_add k.succ m (start + 1) k 1, round]
  show _ ++ [m ((start + k.succ) % k.succ)] = _
  rw [Nat.add_mod_right]

end OlympusFirmware.Lib.Ring
