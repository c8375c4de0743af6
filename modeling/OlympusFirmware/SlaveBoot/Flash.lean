import OlympusFirmware.Lib.Word

/-!
# Flash of the slaves (`slave_boot/peripherals/flash.c`)

Pages of 1K; the bootloader has the first five, the application the other 27.
The driver is the list of operations it makes: its waits and the acknowledgement
of the end-of-operation flag are left out.
-/

namespace OlympusFirmware.SlaveBoot

open OlympusFirmware.Lib

/-- `PAGE_SIZE`. -/
def pageSize : UInt32 := 1024
/-- `LOG2_PAGE_SIZE`. -/
def log2PageSize : UInt32 := 10
/-- `APP_START_PAGE`. -/
def appStartPage : UInt32 := 5
/-- `APP_NUM_PAGES`. -/
def appNumPages : UInt32 := 27
/-- `APP_MAX_SIZE`. -/
def appMaxSize : UInt32 := appNumPages * pageSize
/-- `APP_START_ADDR`. -/
def appStartAddr : UInt32 := 0x08001400
/-- `FLASH_BASE`. -/
def flashBase : UInt32 := 0x08000000

/-- What the driver does to the device. -/
inductive FlashOp
  | erasePage (page : UInt8)
  | writeFlash (addr : UInt32) (data : UInt16)
  | writeComplete
  | jumpToApp
deriving DecidableEq

/-- The number of pages `writeInit` erases. -/
def numPages (progsize : UInt32) : UInt32 :=
  (progsize >>> log2PageSize) + (if progsize % pageSize ≠ 0 then 1 else 0)

/-- `writeInit`. The page number is cut to eight bits by the call. -/
def writeInit (progsize : UInt32) : List FlashOp :=
  (List.range (numPages progsize).toNat).map fun page =>
    .erasePage (appStartPage + UInt32.ofNat page).toUInt8

/-- The number of pages is the size in pages, rounded up. -/
theorem numPages_toNat (progsize : UInt32) :
    (numPages progsize).toNat = (progsize.toNat + 1023) / 1024 :=
  toNat_divUp (show 2 ≤ pageSize.toNat by decide) (by
    simp [log2PageSize, pageSize, Nat.shiftRight_eq_div_pow])

/-- An accepted size in bytes. -/
theorem le_appMaxSize {progsize : UInt32} : progsize ≤ appMaxSize ↔ progsize.toNat ≤ 27648 := by
  rw [UInt32.le_iff_toNat_le]
  rfl

/-- The pages an accepted size erases, as numbers. -/
theorem writeInit_pages {progsize : UInt32} (fits : progsize ≤ appMaxSize) :
    writeInit progsize =
      (List.range ((progsize.toNat + 1023) / 1024)).map fun page =>
        .erasePage (UInt8.ofNat (5 + page)) := by
  have bound := le_appMaxSize.mp fits
  rw [writeInit, numPages_toNat]
  apply List.map_congr_left
  intro page inside
  rw [List.mem_range] at inside
  have number : (appStartPage + UInt32.ofNat page).toUInt8 = UInt8.ofNat (5 + page) := by
    rw [← UInt8.toNat_inj]
    simp only [appStartPage, UInt32.toNat_toUInt8, UInt32.toNat_add, UInt32.toNat_ofNat',
      UInt8.toNat_ofNat', UInt32.reduceToNat]
    omega
  rw [number]

end OlympusFirmware.SlaveBoot
