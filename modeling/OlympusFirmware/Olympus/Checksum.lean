import OlympusFirmware.Lib.Crc
import OlympusFirmware.Olympus.Comms

/-!
# What the checksum detects (`olympus/utils/crc8.c`, `checkPacket`)

The table of `crc8.c` holds eight shifts of the register for each byte, so `crc8` is the
cyclic redundancy check of width eight with the generator `X ^ 8 + X ^ 2 + X + 1`. The
facts of that check carry over: one byte makes the checksum of a message zero, and a
burst of at most eight damaged bits never does.
-/

namespace OlympusFirmware.Olympus

open OlympusFirmware.Lib

/-- The generator without its highest coefficient. -/
def crcGenerator : BitVec 8 := 0x07#8

/-- The bytes of a message, as words of the register. -/
def crcWords (bytes : List UInt8) : List (BitVec 8) := bytes.map UInt8.toBitVec

/-- The bits of a message, most significant first. -/
def crcBits (bytes : List UInt8) : List Bool := Crc.messageBits (crcWords bytes)

/-- The table lists eight shifts of each index. -/
theorem crcTable_toList : crcTable.toList = (List.finRange 256).map fun i =>
    UInt8.ofBitVec ((Crc.shift crcGenerator)^[8] (BitVec.ofFin i)) := by
  decide +kernel

/-- An entry of the table is eight shifts of its index. -/
theorem crcTable_get (i : Fin 256) :
    (crcTable.get i).toBitVec = (Crc.shift crcGenerator)^[8] (BitVec.ofFin i) := by
  have entry := congrArg (·[i.val]?) crcTable_toList
  have get : crcTable[i.val] =
      UInt8.ofBitVec ((Crc.shift crcGenerator)^[8] (BitVec.ofFin i)) := by
    simpa using entry
  exact congrArg UInt8.toBitVec get

theorem crc8Step_toBitVec (crc byte : UInt8) :
    (crc8Step crc byte).toBitVec = Crc.step crcGenerator crc.toBitVec byte.toBitVec :=
  crcTable_get (byte ^^^ crc).toFin

/-- The loop of `crc8` runs the register. -/
theorem foldl_crc8Step_toBitVec (bytes : List UInt8) (crc : UInt8) :
    (bytes.foldl crc8Step crc).toBitVec =
      (crcWords bytes).foldl (Crc.step crcGenerator) crc.toBitVec := by
  induction bytes generalizing crc with
  | nil => rfl
  | cons byte bytes ih =>
      rw [List.foldl_cons, ih, crc8Step_toBitVec]
      rfl

/-- **The table-driven loop** computes the remainder. -/
theorem crc8_toBitVec (bytes : List UInt8) :
    (crc8 bytes).toBitVec = Crc.remainder crcGenerator (crcWords bytes) :=
  foldl_crc8Step_toBitVec bytes 0

theorem crc8_eq_zero_iff (bytes : List UInt8) :
    crc8 bytes = 0 ↔ Crc.remainder crcGenerator (crcWords bytes) = 0 := by
  rw [← crc8_toBitVec, ← UInt8.toBitVec_inj]
  rfl

/-- One byte completes a message to a checksum of zero. -/
theorem crc8_concat_eq_zero_iff (bytes : List UInt8) (c : UInt8) :
    crc8 (bytes ++ [c]) = 0 ↔ c = crc8 bytes := by
  have words : crcWords (bytes ++ [c]) = crcWords bytes ++ [c.toBitVec] := by
    simp [crcWords]
  rw [crc8_eq_zero_iff, words, Crc.remainder_concat_eq_zero_iff (by decide) (by decide),
    ← crc8_toBitVec, UInt8.toBitVec_inj]

/-! ## Damaged messages -/

/-- A message with the bits of an error pattern flipped. -/
def damage (bytes error : List UInt8) : List UInt8 := List.zipWith (· ^^^ ·) bytes error

theorem crcWords_damage (bytes error : List UInt8) :
    crcWords (damage bytes error) =
      List.zipWith (· ^^^ ·) (crcWords bytes) (crcWords error) := by
  simp [crcWords, damage, List.map_zipWith, List.zipWith_map]

/-- A pattern that is not zero flips a bit. -/
theorem true_mem_crcBits {error : List UInt8} (damaged : ∃ byte ∈ error, byte ≠ 0) :
    true ∈ crcBits error := by
  obtain ⟨byte, member, nonzero⟩ := damaged
  apply Crc.true_mem_messageBits (List.mem_map_of_mem member)
  intro zero
  exact nonzero (UInt8.toBitVec_inj.mp zero)

/-- A burst of at most eight bits is seen. -/
theorem crc8_damage_ne_zero {bytes error : List UInt8} (zero : crc8 bytes = 0)
    (same : error.length = bytes.length) (damaged : ∃ byte ∈ error, byte ≠ 0)
    (burst : Crc.Burst 8 (crcBits error)) : crc8 (damage bytes error) ≠ 0 := by
  rw [crc8_eq_zero_iff] at zero
  have words : (crcWords error).length = (crcWords bytes).length := by
    simpa [crcWords] using same
  have linear := Crc.remainder_xor crcGenerator (by decide) words
  rw [ne_eq, crc8_eq_zero_iff, crcWords_damage, linear, zero]
  -- only the remainder of the pattern is left
  have only (x : BitVec 8) : (0 : BitVec 8) ^^^ x = x := BitVec.zero_xor
  rw [only]
  exact Crc.remainder_burst (by decide) (by decide) burst (true_mem_crcBits damaged)

/-- A frame that is damaged on its way. -/
def Packet.damage (p : Packet) (error : List UInt8) : Packet where
  memory := Vector.ofFn fun i => p.memory.get i ^^^ error.getD i.val 0

theorem Packet.length_bytes (p : Packet) : p.bytes.length = p.packetLen.toNat := by
  have small := p.packetLen.toNat_lt
  simp [Packet.bytes]
  omega

/-- With its length byte intact, a damaged frame is its bytes, damaged. -/
theorem Packet.damage_bytes {p : Packet} {error : List UInt8}
    (same : error.length = p.packetLen.toNat)
    (intact : (p.damage error).packetLen = p.packetLen) :
    (p.damage error).bytes = Olympus.damage p.bytes error := by
  have small := p.packetLen.toNat_lt
  apply List.ext_getElem
  · simp [Packet.length_bytes, Olympus.damage, intact, same]
  · intro i left right
    rw [Packet.length_bytes, intact] at left
    have inside : i < error.length := by omega
    simp [Packet.bytes, Packet.damage, Olympus.damage, inside, Vector.get]

/-- **Error detection**: no burst of at most eight bits turns a message with a checksum of
zero into another one, and `checkPacket` rejects every frame that is damaged by one and
keeps its length byte. -/
theorem crc8_detects_bursts :
    (∀ bytes error : List UInt8, crc8 bytes = 0 → error.length = bytes.length →
      (∃ byte ∈ error, byte ≠ 0) → Crc.Burst 8 (crcBits error) →
      crc8 (damage bytes error) ≠ 0) ∧
    (∀ (p : Packet) (error : List UInt8), checkPacket p = true →
      error.length = p.packetLen.toNat → (p.damage error).packetLen = p.packetLen →
      (∃ byte ∈ error, byte ≠ 0) → Crc.Burst 8 (crcBits error) →
      checkPacket (p.damage error) = false) := by
  constructor
  · intro bytes error zero same damaged burst
    exact crc8_damage_ne_zero zero same damaged burst
  · intro p error checked same intact damaged burst
    have zero : crc8 p.bytes = 0 := by simpa [checkPacket] using checked
    have seen := crc8_damage_ne_zero zero (same.trans p.length_bytes.symm) damaged burst
    rw [checkPacket, Packet.damage_bytes same intact]
    simpa using seen

/-- Eight flipped bits, four in each of two bytes of a request. -/
theorem crc8_detects_bursts_straddling :
    crc8 (damage [0xF0, 0x5A, 0x02, 0x07, 0x06, 0xC6] [0, 0, 0x0F, 0xF0, 0, 0]) ≠ 0 ∧
    checkPacket (Packet.damage
      ⟨Vector.ofFn fun i => [0xF0, 0x5A, 0x02, 0x07, 0x06, 0xC6].getD i.val 0⟩
      [0, 0, 0x0F, 0xF0, 0, 0]) = false := by
  have burst : Crc.Burst 8 (crcBits [0, 0, 0x0F, 0xF0, 0, 0]) := by
    refine ⟨20, fun i set => ?_⟩
    have inside : i < 48 := (List.getElem?_eq_some_iff.mp set).1
    revert set
    revert i
    decide +kernel
  refine ⟨crc8_detects_bursts.1 _ _ ?_ rfl ?_ burst, crc8_detects_bursts.2 _ _ ?_ ?_ ?_ ?_ burst⟩
  all_goals decide +kernel

end OlympusFirmware.Olympus
