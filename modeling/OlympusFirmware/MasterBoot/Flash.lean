import Mathlib.Data.List.Basic
import OlympusFirmware.Lib.Mem
import OlympusFirmware.Lib.Word

/-!
# Flash of the master (`master_boot/drivers/flash.c`)

The driver as the register and memory writes it makes. The waits for the busy
flag are left out: they only read. An erase is the value the control register
holds when `FLASH_CR_STRT` is set, so that the sector is the one the hardware
finds in the register's `SNB` field and not the one the caller meant.
-/

namespace OlympusFirmware.MasterBoot

open OlympusFirmware.Lib

/-- `KEY_1`. -/
def key1 : UInt32 := 0x45670123
/-- `KEY_2`. -/
def key2 : UInt32 := 0xCDEF89AB

/-- `FLASH_CR_PG`. -/
def flashCrPg : UInt32 := 0x1
/-- `FLASH_CR_SER`. -/
def flashCrSer : UInt32 := 0x2
/-- `FLASH_CR_SNB_0`. -/
def flashCrSnb0 : UInt32 := 0x8
/-- `FLASH_CR_SNB_1`. -/
def flashCrSnb1 : UInt32 := 0x10
/-- `FLASH_CR_SNB_2`. -/
def flashCrSnb2 : UInt32 := 0x20
/-- `FLASH_CR_SNB_3`. -/
def flashCrSnb3 : UInt32 := 0x40
/-- `FLASH_CR_PSIZE_1`. -/
def flashCrPsize1 : UInt32 := 0x200
/-- `FLASH_CR_STRT`. -/
def flashCrStrt : UInt32 := 0x10000

/-- `_START_OF_FLASH` of the linker script, which `USER_APP_BASE_PTR` points to. -/
def userAppBaseAddr : UInt32 := 0x08020000

/-- `PROG_START_SECTOR`. -/
def progStartSector : UInt32 := 5

/-- `BOOT_SECTOR_SIZE`. -/
def bootSectorSize : UInt32 := 131072

/-- One write of the driver. -/
inductive FlashOp
  | keyr (key : UInt32)
  /-- `FLASH->CR` as it is when an erase starts -/
  | erase (cr : UInt32)
  /-- `FLASH->CR |= mask` -/
  | setCr (mask : UInt32)
  /-- `FLASH->CR &= ~mask` -/
  | clearCr (mask : UInt32)
  | program (loc data : UInt32)
deriving DecidableEq

/-- `eraseSector`: the control register, bit by bit. -/
def eraseSector (sector : UInt8) : FlashOp :=
  .erase (flashCrSer ||| (if sector >>> 3 &&& 1 ≠ 0 then flashCrSnb3 else 0)
    ||| (if sector >>> 2 &&& 1 ≠ 0 then flashCrSnb2 else 0)
    ||| (if sector >>> 1 &&& 1 ≠ 0 then flashCrSnb1 else 0)
    ||| (if sector &&& 1 ≠ 0 then flashCrSnb0 else 0)
    ||| flashCrStrt)

/-- The number of sectors `writeInit` erases. -/
def numSectors (progsize : UInt32) : UInt32 :=
  progsize / bootSectorSize + (if progsize % bootSectorSize ≠ 0 then 1 else 0)

/-- `writeInit`. The sector number is cut to eight bits by the call. -/
def writeInit (progsize : UInt32) : List FlashOp :=
  [.keyr key1, .keyr key2]
    ++ (List.range (numSectors progsize).toNat).map (fun sector =>
        eraseSector (progStartSector + UInt32.ofNat sector).toUInt8)
    ++ [.setCr flashCrPsize1, .setCr flashCrPg]

/-- `writeFlash`. -/
def writeFlash (loc data : UInt32) : FlashOp := .program loc data

/-- `completeWrite`. -/
def completeWrite : FlashOp := .clearCr flashCrPg

/-- The `SNB` field of the control register. -/
def snb (cr : UInt32) : Nat := (cr >>> 3 &&& 0xF).toNat

/-- The field holds the low four bits of the sector number. -/
theorem snb_eraseSector (sector : UInt8) :
    ∃ cr, eraseSector sector = .erase cr ∧ snb cr = sector.toNat % 16 := by
  refine ⟨_, rfl, ?_⟩
  obtain ⟨⟨⟨n, small⟩⟩⟩ := sector
  revert n
  decide +kernel

/-- The number of sectors is the size in sectors, rounded up. -/
theorem numSectors_toNat (progsize : UInt32) :
    (numSectors progsize).toNat = (progsize.toNat + 131071) / 131072 :=
  toNat_divUp (show 2 ≤ bootSectorSize.toNat by decide) (UInt32.toNat_div progsize bootSectorSize)

end OlympusFirmware.MasterBoot
