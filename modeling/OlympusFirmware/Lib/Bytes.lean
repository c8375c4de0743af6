import Mathlib.Data.List.Basic
import Mathlib.Data.UInt

/-!
# Little-endian numbers

Both ends of every wire here are little-endian: a number travels as its bytes,
lowest first. `leValue` reads such a number and `leBytes` writes one; `leWords`
and `leHalves` cut a byte string into the 32-bit and 16-bit numbers a copy to
memory would leave there.
-/

namespace OlympusFirmware.Lib

/-- The number whose bytes are given, lowest first. -/
def leValue : List UInt8 → Nat
  | [] => 0
  | b :: bs => b.toNat + 256 * leValue bs

/-- The lowest `n` bytes of a number. -/
def leBytes : Nat → Nat → List UInt8
  | 0, _ => []
  | n + 1, v => UInt8.ofNat v :: leBytes n (v / 256)

@[simp] theorem length_leBytes (n v : Nat) : (leBytes n v).length = n := by
  induction n generalizing v with
  | zero => rfl
  | succ n ih => simp [leBytes, ih]

theorem leValue_lt (bs : List UInt8) : leValue bs < 256 ^ bs.length := by
  induction bs with
  | nil => simp [leValue]
  | cons b bs ih =>
      have byte := b.toNat_lt
      simp only [leValue, List.length_cons, Nat.pow_succ]
      omega

/-- Reading back what was written. -/
theorem leValue_leBytes (n v : Nat) : leValue (leBytes n v) = v % 256 ^ n := by
  induction n generalizing v with
  | zero => simp [leBytes, leValue, Nat.mod_one]
  | succ n ih =>
      have byte : (UInt8.ofNat v).toNat = v % 256 := UInt8.toNat_ofNat'
      rw [leBytes, leValue, ih, byte, Nat.pow_succ, Nat.mul_comm (256 ^ n) 256, Nat.mod_mul]

/-- Writing back what was read. -/
theorem leBytes_leValue (bs : List UInt8) : leBytes bs.length (leValue bs) = bs := by
  induction bs with
  | nil => rfl
  | cons b bs ih =>
      have byte := b.toNat_lt
      have low : UInt8.ofNat (b.toNat + 256 * leValue bs) = b := by
        rw [← UInt8.toNat_inj, UInt8.toNat_ofNat']
        omega
      have rest : (b.toNat + 256 * leValue bs) / 256 = leValue bs := by omega
      rw [List.length_cons, leValue, leBytes, low, rest, ih]

/-- The bytes of a 32-bit word, as `memcpy` sees them. -/
def wordBytes (w : UInt32) : List UInt8 := leBytes 4 w.toNat

/-- The 32-bit word with the given bytes. -/
def leWord (bytes : List UInt8) : UInt32 := UInt32.ofNat (leValue bytes)

@[simp] theorem length_wordBytes (w : UInt32) : (wordBytes w).length = 4 :=
  length_leBytes 4 w.toNat

@[simp] theorem leWord_wordBytes (w : UInt32) : leWord (wordBytes w) = w := by
  have small : w.toNat < 256 ^ 4 := Nat.lt_of_lt_of_eq w.toNat_lt (by decide)
  rw [leWord, wordBytes, leValue_leBytes, Nat.mod_eq_of_lt small, UInt32.ofNat_toNat]

theorem wordBytes_leWord {bytes : List UInt8} (four : bytes.length = 4) :
    wordBytes (leWord bytes) = bytes := by
  have bound := leValue_lt bytes
  rw [four] at bound
  have small : leValue bytes < 2 ^ 32 := Nat.lt_of_lt_of_eq bound (by decide)
  have value : (leWord bytes).toNat = leValue bytes := by
    rw [leWord, UInt32.toNat_ofNat', Nat.mod_eq_of_lt small]
  have back := leBytes_leValue bytes
  rw [four] at back
  rw [wordBytes, value, back]

/-- A word put together with shifts, highest byte first. -/
theorem leWord_eq_or (b₀ b₁ b₂ b₃ : UInt8) :
    leWord [b₀, b₁, b₂, b₃] =
      b₃.toUInt32 <<< 24 ||| b₂.toUInt32 <<< 16 ||| b₁.toUInt32 <<< 8 ||| b₀.toUInt32 := by
  have h₀ := b₀.toNat_lt
  have h₁ := b₁.toNat_lt
  have h₂ := b₂.toNat_lt
  have h₃ := b₃.toNat_lt
  have top : b₃.toNat * 2 ^ 24 ||| b₂.toNat * 2 ^ 16 = b₃.toNat * 2 ^ 24 + b₂.toNat * 2 ^ 16 := by
    rw [Nat.mul_comm b₃.toNat, Nat.two_pow_add_eq_or_of_lt (by omega)]
  have middle : (b₃.toNat * 2 ^ 24 + b₂.toNat * 2 ^ 16) ||| b₁.toNat * 2 ^ 8 =
      b₃.toNat * 2 ^ 24 + b₂.toNat * 2 ^ 16 + b₁.toNat * 2 ^ 8 := by
    rw [show b₃.toNat * 2 ^ 24 + b₂.toNat * 2 ^ 16 =
        2 ^ 16 * (b₃.toNat * 2 ^ 8 + b₂.toNat) by omega,
      Nat.two_pow_add_eq_or_of_lt (by omega)]
  have low : (b₃.toNat * 2 ^ 24 + b₂.toNat * 2 ^ 16 + b₁.toNat * 2 ^ 8) ||| b₀.toNat =
      b₃.toNat * 2 ^ 24 + b₂.toNat * 2 ^ 16 + b₁.toNat * 2 ^ 8 + b₀.toNat := by
    rw [show b₃.toNat * 2 ^ 24 + b₂.toNat * 2 ^ 16 + b₁.toNat * 2 ^ 8 =
        2 ^ 8 * (b₃.toNat * 2 ^ 16 + b₂.toNat * 2 ^ 8 + b₁.toNat) by omega,
      Nat.two_pow_add_eq_or_of_lt (by omega)]
  rw [← UInt32.toNat_inj]
  simp only [leWord, leValue, UInt32.toNat_ofNat', UInt32.toNat_or, UInt32.toNat_shiftLeft,
    UInt8.toNat_toUInt32, UInt32.reduceToNat, Nat.shiftLeft_eq, Nat.reduceMod]
  rw [Nat.mod_eq_of_lt (a := b₃.toNat * 2 ^ 24) (by omega),
    Nat.mod_eq_of_lt (a := b₂.toNat * 2 ^ 16) (by omega),
    Nat.mod_eq_of_lt (a := b₁.toNat * 2 ^ 8) (by omega), top, middle, low]
  omega

/-- The 16-bit numbers a byte string holds, lowest byte first. A last odd byte is
not part of one. -/
def leHalves : List UInt8 → List UInt16
  | b₀ :: b₁ :: rest => UInt16.ofNat (leValue [b₀, b₁]) :: leHalves rest
  | _ => []

/-- The 32-bit numbers a byte string holds. -/
def leWords : List UInt8 → List UInt32
  | b₀ :: b₁ :: b₂ :: b₃ :: rest => leWord [b₀, b₁, b₂, b₃] :: leWords rest
  | _ => []

/-- Induction on a byte string of whole words. -/
@[elab_as_elim]
theorem whole_words {motive : (bytes : List UInt8) → bytes.length % 4 = 0 → Prop}
    (nil : motive [] rfl)
    (word : ∀ b₀ b₁ b₂ b₃ rest (whole : rest.length % 4 = 0), motive rest whole →
      motive (b₀ :: b₁ :: b₂ :: b₃ :: rest)
        (by simp only [List.length_cons]; omega)) :
    ∀ (bytes : List UInt8) (whole : bytes.length % 4 = 0), motive bytes whole
  | [], _ => nil
  | [_], whole => by simp at whole
  | [_, _], whole => by simp at whole
  | [_, _, _], whole => by simp at whole
  | b₀ :: b₁ :: b₂ :: b₃ :: rest, whole =>
      have shorter : rest.length % 4 = 0 := by
        simp only [List.length_cons] at whole
        omega
      word b₀ b₁ b₂ b₃ rest shorter (whole_words nil word rest shorter)

theorem length_leHalves (bytes : List UInt8) : (leHalves bytes).length = bytes.length / 2 := by
  fun_induction leHalves bytes with
  | case1 b₀ b₁ rest ih =>
      simp only [List.length_cons, ih]
      omega
  | case2 bytes short =>
      rcases bytes with _ | ⟨b₀, _ | ⟨b₁, rest⟩⟩
      · rfl
      · simp
      · exact absurd rfl (short b₀ b₁ rest)

theorem leHalves_append {xs : List UInt8} (even : xs.length % 2 = 0) (ys : List UInt8) :
    leHalves (xs ++ ys) = leHalves xs ++ leHalves ys := by
  fun_induction leHalves xs with
  | case1 b₀ b₁ rest ih =>
      simp only [List.length_cons] at even
      simp only [List.cons_append, leHalves, ih (by omega)]
  | case2 xs short =>
      rcases xs with _ | ⟨b₀, _ | ⟨b₁, rest⟩⟩
      · rfl
      · simp at even
      · exact absurd rfl (short b₀ b₁ rest)

theorem leWords_append {xs : List UInt8} (whole : xs.length % 4 = 0) (ys : List UInt8) :
    leWords (xs ++ ys) = leWords xs ++ leWords ys := by
  induction xs, whole using whole_words with
  | nil => rfl
  | word b₀ b₁ b₂ b₃ rest whole ih => simp only [List.cons_append, leWords, ih]

theorem length_flatMap_wordBytes (words : List UInt32) :
    (words.flatMap wordBytes).length = 4 * words.length := by
  induction words with
  | nil => rfl
  | cons word words ih =>
      rw [List.flatMap_cons, List.length_append, length_wordBytes, ih, List.length_cons]
      omega

/-- The words of words are those words. -/
theorem leWords_flatMap_wordBytes (words : List UInt32) :
    leWords (words.flatMap wordBytes) = words := by
  induction words with
  | nil => rfl
  | cons word words ih =>
      have one : leWords (wordBytes word) = [leWord (wordBytes word)] := rfl
      rw [List.flatMap_cons, leWords_append (by simp), one, leWord_wordBytes, ih]
      rfl

end OlympusFirmware.Lib
