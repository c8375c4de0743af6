import Mathlib.Tactic.Ring
import OlympusFirmware.Olympus.Checksum

/-!
# Checksums of the host (`usbFlasher/CRC8.py`, `usbFlasher/CRC.py`)

The host's `crc8` has a table of its own and works on unbounded integers. `genLookupCRC`
is the procedure the tables come from: eight shifts of each byte, of which the low eight
bits are kept. The three agree, and what they compute is polynomial division.
-/

namespace OlympusFirmware.UsbFlasher

open OlympusFirmware.Lib
open OlympusFirmware.Olympus (crcTable crcGenerator crcWords crcBits crc8Step)

set_option maxRecDepth 2000 in
/-- `crc8_table`. -/
def crc8Table : List Nat :=
  [
    0x00, 0x07, 0x0e, 0x09, 0x1c, 0x1b, 0x12, 0x15, 0x38, 0x3f, 0x36, 0x31, 0x24, 0x23, 0x2a, 0x2d,
    0x70, 0x77, 0x7e, 0x79, 0x6c, 0x6b, 0x62, 0x65, 0x48, 0x4f, 0x46, 0x41, 0x54, 0x53, 0x5a, 0x5d,
    0xe0, 0xe7, 0xee, 0xe9, 0xfc, 0xfb, 0xf2, 0xf5, 0xd8, 0xdf, 0xd6, 0xd1, 0xc4, 0xc3, 0xca, 0xcd,
    0x90, 0x97, 0x9e, 0x99, 0x8c, 0x8b, 0x82, 0x85, 0xa8, 0xaf, 0xa6, 0xa1, 0xb4, 0xb3, 0xba, 0xbd,
    0xc7, 0xc0, 0xc9, 0xce, 0xdb, 0xdc, 0xd5, 0xd2, 0xff, 0xf8, 0xf1, 0xf6, 0xe3, 0xe4, 0xed, 0xea,
    0xb7, 0xb0, 0xb9, 0xbe, 0xab, 0xac, 0xa5, 0xa2, 0x8f, 0x88, 0x81, 0x86, 0x93, 0x94, 0x9d, 0x9a,
    0x27, 0x20, 0x29, 0x2e, 0x3b, 0x3c, 0x35, 0x32, 0x1f, 0x18, 0x11, 0x16, 0x03, 0x04, 0x0d, 0x0a,
    0x57, 0x50, 0x59, 0x5e, 0x4b, 0x4c, 0x45, 0x42, 0x6f, 0x68, 0x61, 0x66, 0x73, 0x74, 0x7d, 0x7a,
    0x89, 0x8e, 0x87, 0x80, 0x95, 0x92, 0x9b, 0x9c, 0xb1, 0xb6, 0xbf, 0xb8, 0xad, 0xaa, 0xa3, 0xa4,
    0xf9, 0xfe, 0xf7, 0xf0, 0xe5, 0xe2, 0xeb, 0xec, 0xc1, 0xc6, 0xcf, 0xc8, 0xdd, 0xda, 0xd3, 0xd4,
    0x69, 0x6e, 0x67, 0x60, 0x75, 0x72, 0x7b, 0x7c, 0x51, 0x56, 0x5f, 0x58, 0x4d, 0x4a, 0x43, 0x44,
    0x19, 0x1e, 0x17, 0x10, 0x05, 0x02, 0x0b, 0x0c, 0x21, 0x26, 0x2f, 0x28, 0x3d, 0x3a, 0x33, 0x34,
    0x4e, 0x49, 0x40, 0x47, 0x52, 0x55, 0x5c, 0x5b, 0x76, 0x71, 0x78, 0x7f, 0x6a, 0x6d, 0x64, 0x63,
    0x3e, 0x39, 0x30, 0x37, 0x22, 0x25, 0x2c, 0x2b, 0x06, 0x01, 0x08, 0x0f, 0x1a, 0x1d, 0x14, 0x13,
    0xae, 0xa9, 0xa0, 0xa7, 0xb2, 0xb5, 0xbc, 0xbb, 0x96, 0x91, 0x98, 0x9f, 0x8a, 0x8d, 0x84, 0x83,
    0xde, 0xd9, 0xd0, 0xd7, 0xc2, 0xc5, 0xcc, 0xcb, 0xe6, 0xe1, 0xe8, 0xef, 0xfa, 0xfd, 0xf4, 0xf3]

/-- An iteration of the loop of `crc8`. `none` is an index outside the table. -/
def crc8Round (crc : Nat) (data : UInt8) : Option Nat :=
  (crc8Table[data.toNat ^^^ crc]?).map (· &&& 0xFF)

/-- `crc8`. -/
def crc8 (arr : List UInt8) : Option Nat :=
  arr.foldlM crc8Round 0

/-- An iteration of the inner loop of `genLookupCRC`. -/
def lookupShift (polynomial topbit remainder : Nat) : Nat :=
  if remainder &&& topbit ≠ 0 then (remainder <<< 1) ^^^ polynomial else remainder <<< 1

/-- The value `genLookupCRC` computes for a byte. -/
def lookupEntry (polynomial width dividend : Nat) : Nat :=
  (lookupShift polynomial (1 <<< (width - 1)))^[8] (dividend <<< (width - 8)) &&& 0xFF

/-- `hex`. -/
def hex (n : Nat) : String := "0x" ++ String.ofList (Nat.toDigits 16 n)

/-- `genLookupCRC`. `none` is the exception for a shift by a negative number. -/
def genLookupCRC (polynomial width : Nat) : Option (List String) :=
  if 8 ≤ width then some ((List.range 256).map fun i => hex (lookupEntry polynomial width i))
  else none

/-- The bytes of a message through the procedure of `genLookupCRC(0x07, 8)`, each with
the remainder so far. -/
def bitwiseCrc (bytes : List UInt8) : Nat :=
  bytes.foldl (fun remainder data => lookupEntry 0x07 8 (data.toNat ^^^ remainder)) 0

/-! ## One byte -/

/-- The host's table is the firmware's. -/
theorem crc8Table_eq : crc8Table = crcTable.toList.map UInt8.toNat := by
  decide +kernel

/-- The values `genLookupCRC` computes are the host's table. -/
theorem lookupTable_eq : (List.range 256).map (lookupEntry 0x07 8) = crc8Table := by
  decide +kernel

theorem lookupEntry_eq (i : Fin 256) : lookupEntry 0x07 8 i.val = (crcTable.get i).toNat := by
  have entry := congrArg (·[i.val]?) (lookupTable_eq.trans crc8Table_eq)
  show _ = crcTable[i.val].toNat
  simpa using entry

/-- The table `genLookupCRC` gives is the host's. -/
theorem genLookupCRC_eq : genLookupCRC 0x07 8 = some (crc8Table.map hex) := by
  rw [← lookupTable_eq, List.map_map]
  rfl

theorem crc8Round_eq (crc data : UInt8) :
    crc8Round crc.toNat data = some (crc8Step crc data).toNat := by
  have index : data.toNat ^^^ crc.toNat = (data ^^^ crc).toFin.val := (UInt8.toNat_xor _ _).symm
  have small := (crc8Step crc data).toNat_lt
  have masked (n : Nat) (bound : n < 256) : n &&& 0xFF = n := by
    rw [show 0xFF = 2 ^ 8 - 1 from rfl, Nat.and_two_pow_sub_one_eq_mod, Nat.mod_eq_of_lt bound]
  rw [crc8Round, index, crc8Table_eq]
  have entry : (crcTable.toList.map UInt8.toNat)[(data ^^^ crc).toFin.val]? =
      some (crc8Step crc data).toNat := by
    rw [List.getElem?_map, List.getElem?_eq_getElem (by simpa using (data ^^^ crc).toFin.isLt)]
    rfl
  rw [entry, Option.map_some, masked _ small]

theorem lookupEntry_step (crc data : UInt8) :
    lookupEntry 0x07 8 (data.toNat ^^^ crc.toNat) = (crc8Step crc data).toNat := by
  rw [← UInt8.toNat_xor]
  exact lookupEntry_eq (data ^^^ crc).toFin

/-! ## Whole messages -/

theorem foldlM_crc8Round (arr : List UInt8) (crc : UInt8) :
    arr.foldlM crc8Round crc.toNat = some (arr.foldl crc8Step crc).toNat := by
  induction arr generalizing crc with
  | nil => rfl
  | cons data arr ih =>
      rw [List.foldlM_cons, crc8Round_eq]
      exact ih _

theorem foldl_lookupEntry (bytes : List UInt8) (crc : UInt8) :
    bytes.foldl (fun remainder data => lookupEntry 0x07 8 (data.toNat ^^^ remainder)) crc.toNat =
      (bytes.foldl crc8Step crc).toNat := by
  induction bytes generalizing crc with
  | nil => rfl
  | cons data bytes ih =>
      rw [List.foldl_cons, lookupEntry_step]
      exact ih _

section Division

open Polynomial

/-- The generator as a polynomial. -/
theorem modulus_crcGenerator : Crc.modulus crcGenerator = X ^ 8 + X ^ 2 + X + 1 := by
  have bits : Crc.wordBits crcGenerator =
      [false, false, false, false, false, true, true, true] := by decide
  simp only [Crc.modulus, Crc.wordPolynomial, bits, Crc.polynomial, List.foldl_cons,
    List.foldl_nil, Crc.coefficient, Bool.false_eq_true, if_false, if_true, map_zero, map_one]
  ring

/-- **Host and firmware agree**: on every string both functions return the value of the
bitwise procedure, the remainder of the string times `X ^ 8` by `X ^ 8 + X ^ 2 + X + 1`. -/
theorem crc8_eq_division (bytes : List UInt8) :
    crc8 bytes = some (Olympus.crc8 bytes).toNat ∧
      (Olympus.crc8 bytes).toNat = bitwiseCrc bytes ∧
      Crc.wordPolynomial (Olympus.crc8 bytes).toBitVec =
        (X ^ 8 * Crc.polynomial (crcBits bytes)) %ₘ (X ^ 8 + X ^ 2 + X + 1) := by
  refine ⟨foldlM_crc8Round bytes 0, (foldl_lookupEntry bytes 0).symm, ?_⟩
  rw [Olympus.crc8_toBitVec, ← modulus_crcGenerator]
  exact Crc.remainder_eq_modByMonic crcGenerator (by decide) (crcWords bytes)

end Division

end OlympusFirmware.UsbFlasher
