import Mathlib.Algebra.Polynomial.Div
import Mathlib.Algebra.CharP.Two
import Mathlib.Algebra.Field.ZMod
import Mathlib.RingTheory.Coprime.Lemmas
import Mathlib.Data.ZMod.Basic

/-!
# Cyclic redundancy checks of any width

A register of `w` bits is shifted left and reduced by the low bits of a generator of
degree `w` whenever a one leaves it. A message is a list of words of `w` bits, its
first bit the highest. `remainder` runs `w` shifts for each word.

Bit strings are read as polynomials over the field of two elements. `remainder` is
then the remainder of the message times `X ^ w` by the generator, and what a checksum
is used for follows from that: which word makes it zero, and which errors it sees.
-/

namespace OlympusFirmware.Lib.Crc

open Polynomial

variable {w : Nat}

/-! ## The shift register -/

/-- One shift of the register. -/
def shift (generator register : BitVec w) : BitVec w :=
  if register.msb then (register <<< 1) ^^^ generator else register <<< 1

/-- A word of the message enters and is shifted through. -/
def step (generator register word : BitVec w) : BitVec w :=
  (shift generator)^[w] (word ^^^ register)

/-- The register after a message, from zero. -/
def remainder (generator : BitVec w) (message : List (BitVec w)) : BitVec w :=
  message.foldl (step generator) 0

/-- The bits of a word, the highest first. -/
def wordBits (word : BitVec w) : List Bool :=
  List.ofFn fun i : Fin w => word.getMsbD i

/-- The bits of a message. -/
def messageBits (message : List (BitVec w)) : List Bool :=
  message.flatMap wordBits

/-- The ones of a bit string lie in `width` consecutive positions. -/
def Burst (width : Nat) (bits : List Bool) : Prop :=
  ∃ start, ∀ i, bits[i]? = some true → start ≤ i ∧ i < start + width

@[simp] theorem length_wordBits (word : BitVec w) : (wordBits word).length = w := by
  simp [wordBits]

/-- A word that is not zero has a one. -/
theorem true_mem_wordBits {word : BitVec w} (nonzero : word ≠ 0) : true ∈ wordBits word := by
  by_contra absent
  apply nonzero
  apply BitVec.eq_of_getMsbD_eq
  intro i inside
  rw [wordBits, List.mem_ofFn] at absent
  have bit : word.getMsbD i ≠ true := fun set => absent ⟨⟨i, inside⟩, set⟩
  simpa using bit

theorem true_mem_messageBits {message : List (BitVec w)} {word : BitVec w}
    (member : word ∈ message) (nonzero : word ≠ 0) : true ∈ messageBits message :=
  List.mem_flatMap.mpr ⟨word, member, true_mem_wordBits nonzero⟩

/-! ## Bit strings as polynomials -/

/-- A bit as a coefficient. -/
def coefficient (bit : Bool) : ZMod 2 := if bit then 1 else 0

@[simp] theorem coefficient_xor (a b : Bool) :
    coefficient (a ^^ b) = coefficient a + coefficient b := by
  cases a <;> cases b <;> decide

@[simp] theorem coefficient_and (a b : Bool) :
    coefficient (a && b) = coefficient a * coefficient b := by
  cases a <;> cases b <;> decide

theorem coefficient_inj {a b : Bool} (same : coefficient a = coefficient b) : a = b := by
  revert same
  cases a <;> cases b <;> decide

/-- The polynomial of a bit string, first bit the highest coefficient. -/
noncomputable def polynomial (bits : List Bool) : (ZMod 2)[X] :=
  bits.foldl (fun p bit => X * p + C (coefficient bit)) 0

theorem polynomial_concat (bits : List Bool) (bit : Bool) :
    polynomial (bits ++ [bit]) = X * polynomial bits + C (coefficient bit) := by
  rw [polynomial, List.foldl_append]
  rfl

theorem polynomial_append (first last : List Bool) :
    polynomial (first ++ last) = X ^ last.length * polynomial first + polynomial last := by
  induction last using List.reverseRecOn with
  | nil => simp [polynomial]
  | append_singleton last bit ih =>
      rw [← List.append_assoc, polynomial_concat, polynomial_concat, ih, List.length_append,
        List.length_singleton, pow_succ']
      ring

/-- The coefficients are the bits, counted from the last. -/
theorem coeff_polynomial (bits : List Bool) (i : Nat) :
    (polynomial bits).coeff i = coefficient (bits.reverse[i]?.getD false) := by
  induction bits using List.reverseRecOn generalizing i with
  | nil => simp [polynomial, coefficient]
  | append_singleton bits bit ih =>
      rw [polynomial_concat, coeff_add]
      cases i with
      | zero => simp
      | succ i => simp [ih, coeff_C_succ]

/-- A coefficient that is not zero comes from a one. -/
theorem bit_of_coeff_ne_zero {bits : List Bool} {i : Nat} (set : (polynomial bits).coeff i ≠ 0) :
    i < bits.length ∧ bits[bits.length - 1 - i]? = some true := by
  rw [coeff_polynomial] at set
  by_cases inside : i < bits.length
  · refine ⟨inside, ?_⟩
    rw [List.getElem?_reverse inside] at set
    cases bit : bits[bits.length - 1 - i]? with
    | none => simp [bit, coefficient] at set
    | some value => simpa [bit, coefficient] using set
  · rw [List.getElem?_eq_none (by simpa using inside)] at set
    exact absurd rfl set

/-- A bit string with a one is not the zero polynomial. -/
theorem polynomial_ne_zero {bits : List Bool} (one : true ∈ bits) : polynomial bits ≠ 0 := by
  intro zero
  obtain ⟨i, inside, set⟩ := List.mem_iff_getElem.mp (List.mem_reverse.mpr one)
  have coeff := coeff_polynomial bits i
  rw [zero, List.getElem?_eq_getElem inside, set] at coeff
  simp [coefficient] at coeff

/-- The polynomial of a word. -/
noncomputable def wordPolynomial (word : BitVec w) : (ZMod 2)[X] := polynomial (wordBits word)

theorem coeff_wordPolynomial (word : BitVec w) (i : Nat) :
    (wordPolynomial word).coeff i = coefficient (word.getLsbD i) := by
  rw [wordPolynomial, coeff_polynomial]
  by_cases inside : i < w
  · have low : w - 1 - (w - 1 - i) = i := by omega
    simp [wordBits, inside, BitVec.getMsbD, low]
  · rw [BitVec.getLsbD_of_ge word i (by omega), List.getElem?_eq_none (by simp; omega)]
    rfl

theorem wordPolynomial_xor (a b : BitVec w) :
    wordPolynomial (a ^^^ b) = wordPolynomial a + wordPolynomial b := by
  ext i
  simp only [coeff_add, coeff_wordPolynomial, BitVec.getLsbD_xor]
  exact coefficient_xor _ _

theorem wordPolynomial_zero : wordPolynomial (0 : BitVec w) = 0 := by
  ext i
  simp [coeff_wordPolynomial, coefficient]

theorem wordPolynomial_inj {a b : BitVec w} (same : wordPolynomial a = wordPolynomial b) :
    a = b := by
  apply BitVec.eq_of_getLsbD_eq
  intro i _
  apply coefficient_inj
  rw [← coeff_wordPolynomial, ← coeff_wordPolynomial, same]

theorem degree_wordPolynomial_lt (word : BitVec w) : (wordPolynomial word).degree < w := by
  rw [degree_lt_iff_coeff_zero]
  intro i outside
  rw [coeff_wordPolynomial, BitVec.getLsbD_of_ge word i outside]
  rfl

/-! ## The register computes remainders -/

/-- The generator, with the highest coefficient that the register leaves out. -/
noncomputable def modulus (generator : BitVec w) : (ZMod 2)[X] :=
  X ^ w + wordPolynomial generator

section Generator

variable (generator : BitVec w)

theorem modulus_monic : (modulus generator).Monic :=
  monic_X_pow_add (degree_wordPolynomial_lt generator)

theorem degree_modulus : (modulus generator).degree = w := by
  rw [modulus, degree_add_eq_left_of_degree_lt, degree_X_pow]
  rw [degree_X_pow]
  exact degree_wordPolynomial_lt generator

/-- The bits that stay in the register, shifted. -/
theorem coefficient_shiftLeft (positive : 0 < w) (register : BitVec w) (i : Nat) :
    coefficient ((register <<< 1).getLsbD i) =
      (X * wordPolynomial register).coeff i +
        coefficient register.msb * if i = w then 1 else 0 := by
  cases i with
  | zero =>
      have other : ¬ 0 = w := by omega
      simp [other, coefficient]
  | succ i =>
      rw [coeff_X_mul, coeff_wordPolynomial, BitVec.getLsbD_shiftLeft, Nat.add_sub_cancel]
      rcases Nat.lt_trichotomy (i + 1) w with inside | last | outside
      · simp [inside, Nat.ne_of_lt inside]
      · -- the bit that leaves the register
        have top : register.getLsbD i = register.msb := by
          have index : w - 1 = i := by omega
          rw [BitVec.msb_eq_getLsbD_last, index]
        rw [top, if_pos last, mul_one, CharTwo.add_self_eq_zero]
        simp [last, coefficient]
      · rw [BitVec.getLsbD_of_ge register i (by omega), if_neg (by omega)]
        simp [coefficient]

/-- **A shift** multiplies by `X` and takes the modulus away if that is too large. -/
theorem wordPolynomial_shift (positive : 0 < w) (register : BitVec w) :
    wordPolynomial (shift generator register) =
      X * wordPolynomial register + C (coefficient register.msb) * modulus generator := by
  ext i
  have bit : (shift generator register).getLsbD i =
      ((register <<< 1).getLsbD i ^^ (register.msb && generator.getLsbD i)) := by
    unfold shift
    split <;> rename_i top <;> simp [top]
  rw [coeff_wordPolynomial, bit, coefficient_xor, coefficient_and, coefficient_shiftLeft positive,
    coeff_add, coeff_C_mul, modulus, coeff_add, coeff_X_pow, coeff_wordPolynomial, mul_add,
    add_assoc]

/-- Shifts multiply by powers of `X`, up to multiples of the modulus. -/
theorem dvd_shifts (positive : 0 < w) (register : BitVec w) (n : Nat) :
    modulus generator ∣
      wordPolynomial ((shift generator)^[n] register) - X ^ n * wordPolynomial register := by
  induction n with
  | zero => simp
  | succ n ih =>
      rw [Function.iterate_succ_apply', wordPolynomial_shift generator positive, pow_succ']
      obtain ⟨quotient, same⟩ := ih
      rw [sub_eq_iff_eq_add] at same
      rw [same]
      exact ⟨X * quotient + C _, by ring⟩

/-- The register after a message is congruent to the message times `X ^ w`. -/
theorem dvd_remainder (positive : 0 < w) (message : List (BitVec w)) :
    modulus generator ∣
      X ^ w * polynomial (messageBits message) - wordPolynomial (remainder generator message) := by
  induction message using List.reverseRecOn with
  | nil =>
      have zero : wordPolynomial (remainder generator []) = 0 := wordPolynomial_zero
      simp [zero, messageBits, polynomial]
  | append_singleton message word ih =>
      have bits : polynomial (messageBits (message ++ [word])) =
          X ^ w * polynomial (messageBits message) + wordPolynomial word := by
        have cut : messageBits (message ++ [word]) = messageBits message ++ wordBits word := by
          simp [messageBits]
        rw [cut, polynomial_append, length_wordBits]
        rfl
      have last : remainder generator (message ++ [word]) =
          (shift generator)^[w] (word ^^^ remainder generator message) := by
        rw [remainder, List.foldl_append]
        rfl
      have shifted := dvd_shifts generator positive (word ^^^ remainder generator message) w
      rw [wordPolynomial_xor] at shifted
      rw [bits, last]
      -- what was left of the message is shifted along with the new word
      have whole := dvd_sub (Dvd.dvd.mul_left ih (X ^ w)) shifted
      convert whole using 1
      ring

/-- **The register computes the remainder** of the message times `X ^ w`. -/
theorem remainder_eq_modByMonic (positive : 0 < w) (message : List (BitVec w)) :
    wordPolynomial (remainder generator message) =
      (X ^ w * polynomial (messageBits message)) %ₘ modulus generator := by
  obtain ⟨quotient, same⟩ := dvd_remainder generator positive message
  have small : (wordPolynomial (remainder generator message)).degree <
      (modulus generator).degree := by
    rw [degree_modulus]
    exact degree_wordPolynomial_lt _
  rw [sub_eq_iff_eq_add'] at same
  have unique := div_modByMonic_unique quotient (wordPolynomial (remainder generator message))
    (modulus_monic generator) ⟨same.symm, small⟩
  exact unique.2.symm

end Generator

/-! ## What a zero remainder says -/

section Zero

variable {generator : BitVec w}

/-- A generator with a constant term has no factor `X`. -/
theorem isCoprime_modulus_pow (constant : generator.getLsbD 0 = true) (positive : 0 < w)
    (n : Nat) : IsCoprime (modulus generator) (X ^ n) := by
  have zero : (modulus generator).coeff 0 = 1 := by
    have other : ¬ 0 = w := by omega
    simp [modulus, coeff_X_pow, coeff_wordPolynomial, constant, coefficient, other]
  have split : modulus generator = X * (modulus generator).divX + C 1 := by
    rw [← zero]
    exact (X_mul_divX_add _).symm
  apply IsCoprime.pow_right
  refine ⟨1, -(modulus generator).divX, ?_⟩
  nth_rewrite 1 [split]
  rw [map_one]
  ring

/-- The remainder is zero if and only if the modulus divides the message. -/
theorem remainder_eq_zero_iff (constant : generator.getLsbD 0 = true) (positive : 0 < w)
    (message : List (BitVec w)) :
    remainder generator message = 0 ↔ modulus generator ∣ polynomial (messageBits message) := by
  have zero : remainder generator message = 0 ↔
      wordPolynomial (remainder generator message) = 0 := by
    constructor
    · intro same
      rw [same, wordPolynomial_zero]
    · intro same
      exact wordPolynomial_inj (same.trans wordPolynomial_zero.symm)
  rw [zero, remainder_eq_modByMonic generator positive,
    modByMonic_eq_zero_iff_dvd (modulus_monic generator)]
  constructor
  · exact (isCoprime_modulus_pow constant positive w).dvd_of_dvd_mul_left
  · intro divides
    exact Dvd.dvd.mul_left divides _

/-- A word is too short for the modulus to divide it. -/
theorem modulus_dvd_wordPolynomial_iff (word : BitVec w) :
    modulus generator ∣ wordPolynomial word ↔ word = 0 := by
  constructor
  · intro divides
    apply wordPolynomial_inj
    rw [wordPolynomial_zero]
    apply eq_zero_of_dvd_of_degree_lt divides
    rw [degree_modulus]
    exact degree_wordPolynomial_lt word
  · rintro rfl
    rw [wordPolynomial_zero]
    exact dvd_zero _

/-- Only the remainder itself, appended, makes the remainder zero. -/
theorem remainder_concat_eq_zero_iff (constant : generator.getLsbD 0 = true) (positive : 0 < w)
    (message : List (BitVec w)) (word : BitVec w) :
    remainder generator (message ++ [word]) = 0 ↔ word = remainder generator message := by
  have one : remainder generator (message ++ [word]) =
      remainder generator [word ^^^ remainder generator message] := by
    simp [remainder, step]
  have bits : messageBits [word ^^^ remainder generator message] =
      wordBits (word ^^^ remainder generator message) := by
    simp [messageBits]
  rw [one, remainder_eq_zero_iff constant positive, bits]
  refine (modulus_dvd_wordPolynomial_iff _).trans ?_
  exact BitVec.xor_eq_zero_iff

end Zero

/-! ## Errors -/

section Errors

variable (generator : BitVec w)

theorem shift_xor (positive : 0 < w) (a b : BitVec w) :
    shift generator (a ^^^ b) = shift generator a ^^^ shift generator b := by
  apply wordPolynomial_inj
  rw [wordPolynomial_xor]
  simp only [wordPolynomial_shift generator positive, wordPolynomial_xor, BitVec.msb_xor,
    coefficient_xor, C_add]
  ring

theorem shifts_xor (positive : 0 < w) (a b : BitVec w) (n : Nat) :
    (shift generator)^[n] (a ^^^ b) =
      (shift generator)^[n] a ^^^ (shift generator)^[n] b := by
  induction n with
  | zero => rfl
  | succ n ih =>
      simp only [Function.iterate_succ_apply', ih]
      exact shift_xor generator positive _ _

/-- The register is linear in the message and in what it starts with. -/
theorem foldl_step_xor (positive : 0 < w) {message error : List (BitVec w)}
    (same : error.length = message.length) (a b : BitVec w) :
    (List.zipWith (· ^^^ ·) message error).foldl (step generator) (a ^^^ b) =
      message.foldl (step generator) a ^^^ error.foldl (step generator) b := by
  induction message generalizing error a b with
  | nil =>
      cases error with
      | nil => rfl
      | cons word error => cases same
  | cons word message ih =>
      cases error with
      | nil => cases same
      | cons flips error =>
          have first : step generator (a ^^^ b) (word ^^^ flips) =
              step generator a word ^^^ step generator b flips := by
            have regroup : (word ^^^ flips) ^^^ (a ^^^ b) = (word ^^^ a) ^^^ (flips ^^^ b) := by
              ac_rfl
            rw [step, regroup]
            exact shifts_xor generator positive _ _ w
          rw [List.zipWith_cons_cons, List.foldl_cons, first]
          exact ih (Nat.succ.inj same) _ _

theorem remainder_xor (positive : 0 < w) {message error : List (BitVec w)}
    (same : error.length = message.length) :
    remainder generator (List.zipWith (· ^^^ ·) message error) =
      remainder generator message ^^^ remainder generator error := by
  have linear := foldl_step_xor generator positive same 0 0
  rwa [BitVec.xor_self] at linear

/-- Bits with the ones in a window are a short polynomial times a power of `X`. -/
theorem burst_factor {bits : List Bool} (burst : Burst w bits) :
    ∃ (n : Nat) (short : (ZMod 2)[X]), polynomial bits = X ^ n * short ∧ short.degree < w := by
  obtain ⟨start, window⟩ := burst
  -- the bits behind the window
  let n := bits.length - (start + w)
  have low : X ^ n ∣ polynomial bits := by
    rw [X_pow_dvd_iff]
    intro i behind
    by_contra set
    obtain ⟨inside, one⟩ := bit_of_coeff_ne_zero set
    have placed := window _ one
    omega
  obtain ⟨short, factors⟩ := low
  refine ⟨n, short, factors, ?_⟩
  rw [degree_lt_iff_coeff_zero]
  intro i high
  by_contra set
  rw [← coeff_X_pow_mul short n i, ← factors] at set
  obtain ⟨inside, one⟩ := bit_of_coeff_ne_zero set
  have placed := window _ one
  omega

variable {generator}

/-- **Bursts**: an error whose ones lie in `w` consecutive positions has a remainder. -/
theorem remainder_burst (constant : generator.getLsbD 0 = true) (positive : 0 < w)
    {error : List (BitVec w)} (burst : Burst w (messageBits error))
    (damaged : true ∈ messageBits error) : remainder generator error ≠ 0 := by
  intro zero
  rw [remainder_eq_zero_iff constant positive] at zero
  obtain ⟨n, short, factors, small⟩ := burst_factor burst
  rw [factors] at zero
  have divides := (isCoprime_modulus_pow constant positive n).dvd_of_dvd_mul_left zero
  rw [← degree_modulus generator] at small
  have vanishes : polynomial (messageBits error) = 0 := by
    rw [factors, eq_zero_of_dvd_of_degree_lt divides small, mul_zero]
  exact polynomial_ne_zero damaged vanishes

end Errors

end OlympusFirmware.Lib.Crc
