import OlympusFirmware.MasterBoot.Steps

/-!
# Confinement of the master's flash writes

The bootloader lives in sectors 0 to 4 and may touch the application sectors 5
to 11 only. Neither the size in a header nor the write pointer is ever checked,
so this is a property of what the host sends: the writes of a run are confined
if and only if every accepted Olympus header asks for no more than the seven
application sectors, and no more Olympus words than fit there have been sent
since reset. The second bound is over all sessions, because the write pointer is
never set back.
-/

namespace OlympusFirmware.MasterBoot

open OlympusFirmware.Lib

/-- The end of the application flash. -/
def appFlashEnd : Nat := 0x08100000

/-- The size of the application flash in bytes. -/
def appFlashSize : Nat := 917504

/-- The write stays inside the application flash. -/
def FlashOp.Confined : FlashOp → Prop
  | .erase cr => 5 ≤ snb cr ∧ snb cr ≤ 11
  | .program loc _ => userAppBaseAddr.toNat ≤ loc.toNat ∧ loc.toNat < appFlashEnd
  | _ => True

instance : (op : FlashOp) → Decidable op.Confined
  | .erase _ => inferInstanceAs (Decidable (_ ∧ _))
  | .program _ _ => inferInstanceAs (Decidable (_ ∧ _))
  | .keyr _ | .setCr _ | .clearCr _ => .isTrue trivial

/-- An accepted Olympus header asks for no more than there is. -/
def HeaderFits {σ : Type} (b : Boot σ) (word : UInt32) : Prop :=
  AcceptsOlympus b word → b.header.size.toNat ≤ appFlashSize

/-- `writeInit` erases application sectors only, exactly if the image fits. -/
theorem writeInit_confined (progsize : UInt32) :
    (∀ op ∈ writeInit progsize, op.Confined) ↔ progsize.toNat ≤ appFlashSize := by
  have count := numSectors_toNat progsize
  have small := progsize.toNat_lt
  have sector : ∀ i < (numSectors progsize).toNat,
      ((progStartSector + UInt32.ofNat i).toUInt8).toNat % 16 = (5 + i) % 16 := by
    intro i inside
    simp only [progStartSector, UInt32.toNat_toUInt8, UInt32.toNat_add, UInt32.toNat_ofNat',
      UInt32.reduceToNat]
    omega
  constructor
  · intro confined
    by_contra tooLarge
    -- the eighth erase is of sector 12
    have inside : 7 < (numSectors progsize).toNat := by
      rw [appFlashSize] at tooLarge
      omega
    obtain ⟨cr, erase, field⟩ := snb_eraseSector (progStartSector + UInt32.ofNat 7).toUInt8
    have bound : FlashOp.Confined (.erase cr) := by
      apply confined
      rw [← erase, writeInit]
      simp only [List.mem_append, List.mem_map, List.mem_range]
      exact .inl (.inr ⟨7, inside, rfl⟩)
    rw [FlashOp.Confined, field, sector 7 inside] at bound
    omega
  · intro fits op member
    simp only [writeInit, List.mem_append, List.mem_cons, List.not_mem_nil, or_false,
      List.mem_map, List.mem_range] at member
    rcases member with ((rfl | rfl) | ⟨i, inside, rfl⟩) | (rfl | rfl)
    · trivial
    · trivial
    · obtain ⟨cr, erase, field⟩ := snb_eraseSector (progStartSector + UInt32.ofNat i).toUInt8
      rw [erase, FlashOp.Confined, field, sector i inside]
      rw [appFlashSize] at fits
      omega
    · trivial
    · trivial

section Run

variable {σ : Type} (link : Link σ)

/-- The word about to be programmed goes to the application flash. -/
def PointerInside (b : Boot σ) (word : UInt32) : Prop :=
  Programs b word → userAppBaseAddr.toNat ≤ b.dataAddr.toNat ∧ b.dataAddr.toNat < appFlashEnd

/-- One step: its writes are confined exactly if its header fits and its pointer
is inside. -/
theorem bootStep_confined (b : Boot σ) (word : UInt32) :
    (∀ op ∈ flashOps (bootStep link b word).2, op.Confined) ↔
      HeaderFits b word ∧ PointerInside b word := by
  rw [flashOps_bootStep, HeaderFits, PointerInside]
  by_cases programs : Programs b word
  · have other : ¬ AcceptsOlympus b word := by
      rintro ⟨-, msg, -⟩
      simp [Programs, msg] at programs
    simp only [programs, if_true, other, false_imp_iff, true_and, true_imp_iff]
    constructor
    · intro confined
      exact confined (writeFlash b.dataAddr word) List.mem_cons_self
    · intro inside op member
      rcases List.mem_cons.mp member with rfl | later
      · exact inside
      · split at later
        · rw [List.mem_singleton.mp later]
          trivial
        · cases later
  · by_cases accepts : AcceptsOlympus b word
    · simp [programs, accepts, writeInit_confined]
    · simp [programs, accepts]

/-- The run lemma for the pointer: after `k` words it is inside for the rest of
the run exactly if the rest does not exceed what fits. -/
theorem pointerInside_iff (k : Nat) (fits : 4 * k ≤ appFlashSize) (words : List UInt32) :
    ∀ b : Boot σ, b.dataAddr.toNat = userAppBaseAddr.toNat + 4 * k →
    ((bootFSM link).EveryStep PointerInside b words ↔
      4 * (k + (bootFSM link).countSteps Programs b words) ≤ appFlashSize) := by
  induction words generalizing k with
  | nil =>
      intro b _
      simpa using fits
  | cons word words ih =>
      intro b pointer
      have base : userAppBaseAddr.toNat = 0x08020000 := rfl
      have step : ((bootFSM link).next b word).dataAddr = _ := dataAddr_bootStep link b word
      rw [Fsm.everyStep_cons, Fsm.countSteps_cons]
      by_cases programs : Programs b word
      · rw [if_pos programs] at step
        simp only [programs, if_true, PointerInside, true_imp_iff, base]
        rw [appFlashSize] at fits ⊢
        by_cases room : 4 * (k + 1) ≤ 917504
        · have moved : ((bootFSM link).next b word).dataAddr.toNat =
              userAppBaseAddr.toNat + 4 * (k + 1) := by
            rw [step, UInt32.toNat_add, pointer, base]
            simp only [UInt32.reduceToNat]
            omega
          rw [show (bootFSM link).EveryStep _ _ words ↔ _ from
            ih (k + 1) room ((bootFSM link).next b word) moved, appFlashSize, appFlashEnd]
          omega
        · -- the pointer is at the end: this word goes outside
          rw [appFlashEnd]
          omega
      · rw [if_neg programs] at step
        simp only [programs, Bool.false_eq_true, if_false, PointerInside, false_imp_iff, true_and]
        rw [show (bootFSM link).EveryStep _ _ words ↔ _ from
          ih k fits ((bootFSM link).next b word) (by rw [step, pointer]), Nat.zero_add]

/-- **Flash confinement.** For every word sequence from reset and every behaviour
of the submodules: all erases and writes stay in the application flash if and
only if every accepted Olympus header fits it, and the Olympus words sent since
reset do. -/
theorem flash_confined_iff (env : σ) (words : List UInt32) :
    (∀ op ∈ flashOps ((bootFSM link).outputs (.reset env) words), op.Confined) ↔
      (bootFSM link).EveryStep HeaderFits (.reset env) words ∧
      4 * (bootFSM link).countSteps Programs (.reset env) words ≤ appFlashSize := by
  have flash : ∀ outputs : List BootOutput,
      (∀ op ∈ flashOps outputs, op.Confined) ↔
        ∀ o ∈ outputs, ∀ op, o = .flash op → op.Confined := by
    intro outputs
    simp only [flashOps, List.mem_filterMap]
    constructor
    · rintro confined o member op rfl
      exact confined op ⟨_, member, rfl⟩
    · rintro confined op ⟨o, member, found⟩
      cases o with
      | flash written =>
          obtain rfl : written = op := by simpa using found
          exact confined _ member _ rfl
      | writeResponse | messageSubmodule | jumpToApp => simp at found
  have pointer := pointerInside_iff link 0 (by simp) words (.reset env) rfl
  rw [Nat.zero_add] at pointer
  rw [flash, Fsm.forall_outputs_iff, ← pointer, ← Fsm.everyStep_and]
  refine Fsm.everyStep_congr _ (fun b word => ?_) _ _
  rw [← bootStep_confined link]
  exact (flash _).symm

end Run

/-- A header for Olympus whose size, twelve sectors, is not checked. -/
def oversizedHeader : List UInt32 := [2, olympusKey, 0x180000, eraseFlashKey]

/-- It erases on through the sector numbers that do not exist and, the twelfth
time, sector 0: the bootloader itself. -/
theorem oversized_header_erases_bootloader :
    (∃ cr, FlashOp.erase cr ∈
        flashOps ((bootFSM fun _ _ _ env => (commsOk, env)).outputs (.reset ()) oversizedHeader) ∧
      snb cr = 0) ∧
    ¬ ∀ op ∈ flashOps
        ((bootFSM fun _ _ _ env => (commsOk, env)).outputs (.reset ()) oversizedHeader),
      op.Confined := by
  refine ⟨⟨0x10002, ?_, ?_⟩, ?_⟩ <;> decide +kernel

end OlympusFirmware.MasterBoot
