import OlympusFirmware.SlaveBoot.Progress

/-!
# Confinement of the slaves' flash operations

The bootloader may erase the application's pages only, and may program a
half-word only there and only in a page that has been erased since the half-word
was last programmed; what the flash holds at reset counts as programmed. The
size in a header is checked, so the erases are always right. The address of a
data message is not: it goes on from chunk to chunk over all sessions. So the
operations of a byte stream are confined if and only if each chunk, counted from
reset, finds its page among those that some header has erased by then.
-/

namespace OlympusFirmware.SlaveBoot

open OlympusFirmware.Lib OlympusFirmware.SlaveLib

/-- The page of an address. -/
def pageOf (addr : UInt32) : Nat := (addr.toNat - flashBase.toNat) / pageSize.toNat

/-- The page of the address has been erased since the address was last
programmed. -/
def Erased (done : List FlashOp) (addr : UInt32) : Prop :=
  ∃ pre page post, done = pre ++ .erasePage page :: post ∧ page.toNat = pageOf addr ∧
    ∀ data, .writeFlash addr data ∉ post

/-- The operation is allowed after those done. -/
def FlashOp.Ok (done : List FlashOp) : FlashOp → Prop
  | .erasePage page => 5 ≤ page.toNat ∧ page.toNat ≤ 31
  | .writeFlash addr _ =>
      (appStartAddr.toNat ≤ addr.toNat ∧ addr.toNat < appStartAddr.toNat + appMaxSize.toNat) ∧
        Erased done addr
  | _ => True

/-- Each operation is allowed after all before it. -/
def ConfinedFrom (done : List FlashOp) : List FlashOp → Prop
  | [] => True
  | op :: rest => op.Ok done ∧ ConfinedFrom (done ++ [op]) rest

/-- A data message finds the page of its chunk erased. -/
def Fits (p : Progress) (message : Message) : Prop :=
  ∀ chunk, message = .data chunk → p.size ≠ 0 → 64 * p.chunks < 1024 * p.pages

/-! ## Operations -/

theorem confinedFrom_append (xs ys : List FlashOp) :
    ∀ done, ConfinedFrom done (xs ++ ys) ↔
      ConfinedFrom done xs ∧ ConfinedFrom (done ++ xs) ys := by
  induction xs with
  | nil =>
      intro done
      simp [ConfinedFrom]
  | cons op xs ih =>
      intro done
      simp only [List.cons_append, ConfinedFrom, ih, and_assoc, List.append_assoc, List.nil_append]

/-- An erased half-word stays so until it is programmed. -/
theorem Erased.append {done more : List FlashOp} {addr : UInt32} (erased : Erased done addr)
    (untouched : ∀ data, .writeFlash addr data ∉ more) : Erased (done ++ more) addr := by
  obtain ⟨pre, page, post, rfl, same, none⟩ := erased
  refine ⟨pre, page, post ++ more, by simp, same, ?_⟩
  intro data member
  rcases List.mem_append.mp member with early | late
  · exact none data early
  · exact untouched data late

/-- The addresses that consecutive half-words go to. -/
theorem mem_programHalves {addr at' : UInt32} {data : UInt16} (halves : List UInt16) :
    addr.toNat + 2 * halves.length ≤ 4294967296 →
    .writeFlash at' data ∈ programHalves addr halves →
    addr.toNat ≤ at'.toNat ∧ at'.toNat < addr.toNat + 2 * halves.length := by
  induction halves generalizing addr with
  | nil =>
      intro _ member
      cases member
  | cons val rest ih =>
      intro room member
      simp only [List.length_cons] at room ⊢
      have next : (addr + 2).toNat = (addr.toNat + 2) % 4294967296 := by
        rw [UInt32.toNat_add]
        rfl
      rcases List.mem_cons.mp member with here | later
      · obtain ⟨rfl, -⟩ := FlashOp.writeFlash.inj here
        omega
      · cases rest with
        | nil => cases later
        | cons next' rest =>
            simp only [List.length_cons] at room ih ⊢
            have inside := ih (by omega) later
            omega

/-- Consecutive half-words into erased flash. -/
theorem confinedFrom_programHalves (halves : List UInt16) :
    ∀ (done : List FlashOp) (addr : UInt32), appStartAddr.toNat ≤ addr.toNat →
    addr.toNat + 2 * halves.length ≤ appStartAddr.toNat + appMaxSize.toNat →
    (∀ at' : UInt32, addr.toNat ≤ at'.toNat → at'.toNat < addr.toNat + 2 * halves.length →
      Erased done at') →
    ConfinedFrom done (programHalves addr halves) := by
  induction halves with
  | nil =>
      intro done addr _ _ _
      trivial
  | cons val rest ih =>
      intro done addr low high erased
      have top : appStartAddr.toNat + appMaxSize.toNat = 0x08008000 := rfl
      rw [top] at high
      simp only [List.length_cons] at high erased
      have next : (addr + 2).toNat = addr.toNat + 2 := by
        rw [UInt32.toNat_add]
        simp only [UInt32.reduceToNat]
        omega
      refine ⟨⟨⟨low, by omega⟩, erased addr (by omega) (by omega)⟩, ?_⟩
      refine ih (done ++ [.writeFlash addr val]) (addr + 2) (by omega) (by omega) ?_
      intro at' above below
      refine (erased at' (by omega) (by omega)).append ?_
      intro data member
      obtain ⟨rfl, -⟩ := FlashOp.writeFlash.inj (List.mem_singleton.mp member)
      omega

/-- The pages of an accepted header. -/
theorem mem_writeInit {size : UInt32} (fits : size ≤ appMaxSize) {page : UInt8} :
    .erasePage page ∈ writeInit size ↔
      5 ≤ page.toNat ∧ page.toNat < 5 + (size.toNat + 1023) / 1024 := by
  have bound := le_appMaxSize.mp fits
  rw [writeInit_pages fits]
  simp only [List.mem_map, List.mem_range, FlashOp.erasePage.injEq]
  constructor
  · rintro ⟨i, inside, rfl⟩
    rw [UInt8.toNat_ofNat']
    omega
  · rintro ⟨low, high⟩
    refine ⟨page.toNat - 5, by omega, ?_⟩
    rw [← UInt8.toNat_inj, UInt8.toNat_ofNat']
    omega

/-- A header programs nothing. -/
theorem writeFlash_notMem_writeInit (size addr : UInt32) (data : UInt16) :
    .writeFlash addr data ∉ writeInit size := by
  simp [writeInit]

/-- Erases of application pages are always allowed. -/
theorem confinedFrom_erases {ops : List FlashOp}
    (erases : ∀ op ∈ ops, ∃ page : UInt8, op = .erasePage page ∧ 5 ≤ page.toNat ∧ page.toNat ≤ 31) :
    ∀ done, ConfinedFrom done ops := by
  induction ops with
  | nil =>
      intro done
      trivial
  | cons op ops ih =>
      intro done
      obtain ⟨page, rfl, range⟩ := erases op List.mem_cons_self
      exact ⟨range, ih (fun o member => erases o (List.mem_cons_of_mem _ member)) _⟩

/-- An accepted header leaves its pages erased. -/
theorem erased_writeInit {size : UInt32} (fits : size ≤ appMaxSize) (done : List FlashOp)
    {addr : UInt32} (low : appStartAddr.toNat ≤ addr.toNat)
    (high : addr.toNat < appStartAddr.toNat + 1024 * ((size.toNat + 1023) / 1024)) :
    Erased (done ++ writeInit size) addr := by
  have bound := le_appMaxSize.mp fits
  have base : appStartAddr.toNat = flashBase.toNat + 5 * 1024 := rfl
  have unit : pageSize.toNat = 1024 := rfl
  have number : (UInt8.ofNat (pageOf addr)).toNat = pageOf addr := by
    rw [UInt8.toNat_ofNat', pageOf, unit]
    omega
  have member : .erasePage (UInt8.ofNat (pageOf addr)) ∈ writeInit size := by
    rw [mem_writeInit fits, number, pageOf, unit]
    omega
  -- after the erase of that page come erases only
  obtain ⟨pre, post, split⟩ := List.append_of_mem member
  refine ⟨done ++ pre, _, post, by simp [split], number, ?_⟩
  intro data programmed
  apply writeFlash_notMem_writeInit size addr data
  rw [split]
  exact List.mem_append_right _ (List.mem_cons_of_mem _ programmed)

/-- An accepted header's operations are always allowed. -/
theorem confinedFrom_writeInit {size : UInt32} (fits : size ≤ appMaxSize) (done : List FlashOp) :
    ConfinedFrom done (writeInit size) := by
  have bound := le_appMaxSize.mp fits
  apply confinedFrom_erases
  intro op member
  have erases := member
  rw [writeInit] at erases
  obtain ⟨i, -, rfl⟩ := List.mem_map.mp erases
  have range := (mem_writeInit fits).mp member
  exact ⟨_, rfl, by omega, by omega⟩

/-! ## Messages -/

/-- What the operations have left: as many chunks as have been programmed fill the
erased pages from below, and the rest of these is still erased. -/
structure Room (p : Progress) (done : List FlashOp) : Prop where
  pages : p.pages ≤ 27
  filled : 64 * p.chunks ≤ 1024 * p.pages
  erased : ∀ addr : UInt32, appStartAddr.toNat + 64 * p.chunks ≤ addr.toNat →
    addr.toNat < appStartAddr.toNat + 1024 * p.pages → Erased done addr
  only : ∀ page : UInt8, .erasePage page ∈ done → page.toNat < 5 + p.pages

theorem room_reset : Room .reset [] := by
  refine ⟨by decide, by decide, ?_, ?_⟩
  · intro addr low high
    simp only [Progress.reset] at low high
    omega
  · intro page member
    cases member

/-- A message that does nothing to the flash. -/
theorem Room.same {p p' : Progress} {done more : List FlashOp} (room : Room p done)
    (progress : p' = p)
    (nothing : ∀ op ∈ more,
      (∀ page, op ≠ .erasePage page) ∧ ∀ addr data, op ≠ .writeFlash addr data) :
    Room p' (done ++ more) := by
  subst progress
  refine ⟨room.pages, room.filled, ?_, ?_⟩
  · intro addr low high
    apply (room.erased addr low high).append
    intro data member
    exact (nothing _ member).2 addr data rfl
  · intro page member
    rcases List.mem_append.mp member with early | late
    · exact room.only page early
    · exact absurd rfl ((nothing _ late).1 page)

/-- The room after an accepted header. -/
theorem Room.header {p : Progress} {done : List FlashOp} (room : Room p done)
    {size : UInt32} (fits : size ≤ appMaxSize) :
    Room { p with size := size, pages := max p.pages ((size.toNat + 1023) / 1024) }
      (done ++ writeInit size) := by
  have bound := le_appMaxSize.mp fits
  obtain ⟨pages, filled, erased, only⟩ := room
  refine ⟨?_, ?_, ?_, ?_⟩
  · show max _ _ ≤ 27
    omega
  · show 64 * p.chunks ≤ 1024 * max _ _
    omega
  · intro addr low high
    simp only at low high
    -- erased just now, or still erased from before
    by_cases again : addr.toNat < appStartAddr.toNat + 1024 * ((size.toNat + 1023) / 1024)
    · exact erased_writeInit fits done (by omega) again
    · apply (erased addr low (by omega)).append
      intro data
      exact writeFlash_notMem_writeInit size addr data
  · intro page member
    show page.toNat < 5 + max _ _
    rcases List.mem_append.mp member with early | late
    · have old := only page early
      omega
    · have new := (mem_writeInit fits).mp late
      omega

/-- Half-words are not erases. -/
theorem erasePage_notMem_programHalves (page : UInt8) (halves : List UInt16) :
    ∀ addr, .erasePage page ∉ programHalves addr halves := by
  induction halves with
  | nil =>
      intro addr member
      cases member
  | cons val rest ih =>
      intro addr member
      rcases List.mem_cons.mp member with here | later
      · cases here
      · exact ih (addr + 2) later

section Data

variable {p : Progress} {b : Bootloader} {done : List FlashOp}

/-- Where a chunk that fits goes. -/
theorem Room.addr_eq (room : Room p done) (tracks : Tracks p b) :
    b.addr.toNat = appStartAddr.toNat + 64 * p.chunks := by
  have base : appStartAddr.toNat = 0x08001400 := rfl
  have pages := room.pages
  have filled := room.filled
  rw [tracks.addr, base]
  omega

/-- The half-words of a chunk that fits are allowed. -/
theorem Room.programs (room : Room p done) (tracks : Tracks p b)
    (fits : 64 * p.chunks < 1024 * p.pages) (chunk : Chunk) :
    ConfinedFrom done (programHalves b.addr (leHalves chunk.1)) := by
  have place := room.addr_eq tracks
  have pages := room.pages
  have length : 2 * (leHalves chunk.1).length = 64 := by rw [length_leHalves, chunk.2]
  have top : appMaxSize.toNat = 27648 := rfl
  refine confinedFrom_programHalves _ done b.addr ?_ ?_ ?_
  · omega
  · omega
  · intro addr low high
    exact room.erased addr (by omega) (by omega)

/-- The first half-word of a chunk that does not fit is not. -/
theorem Room.overruns (room : Room p done) (tracks : Tracks p b)
    (full : 1024 * p.pages ≤ 64 * p.chunks) (chunk : Chunk) :
    ¬ ConfinedFrom done (programHalves b.addr (leHalves chunk.1)) := by
  have place := room.addr_eq tracks
  have base : appStartAddr.toNat = flashBase.toNat + 5 * 1024 := rfl
  have unit : pageSize.toNat = 1024 := rfl
  have length : 2 * (leHalves chunk.1).length = 64 := by rw [length_leHalves, chunk.2]
  cases halves : leHalves chunk.1 with
  | nil =>
      rw [halves] at length
      cases length
  | cons val rest =>
      -- its page would be among those erased, but lies behind them
      rintro ⟨⟨-, pre, page, post, split, same, -⟩, -⟩
      have erased := room.only page (by simp [split])
      rw [same, pageOf, unit] at erased
      omega

/-- The room after a chunk that fits. -/
theorem Room.data (room : Room p done) (tracks : Tracks p b)
    (fits : 64 * p.chunks < 1024 * p.pages) (chunk : Chunk) :
    Room { p with chunks := p.chunks + 1 }
      (done ++ programHalves b.addr (leHalves chunk.1)) := by
  have place := room.addr_eq tracks
  have base : appStartAddr.toNat = 0x08001400 := rfl
  have length : 2 * (leHalves chunk.1).length = 64 := by rw [length_leHalves, chunk.2]
  obtain ⟨pages, filled, erased, only⟩ := room
  refine ⟨pages, ?_, ?_, ?_⟩
  · show 64 * (p.chunks + 1) ≤ 1024 * p.pages
    omega
  · intro addr low high
    simp only at low high
    apply (erased addr (by omega) high).append
    intro data member
    have inside := mem_programHalves (leHalves chunk.1) (by omega) member
    omega
  · intro page member
    rcases List.mem_append.mp member with early | late
    · exact only page early
    · exact absurd late (erasePage_notMem_programHalves page _ b.addr)

/-- The end of an image does nothing to the flash. -/
theorem writeComplete_only (last : Prop) [Decidable last] :
    ∀ op ∈ (if last then [FlashOp.writeComplete] else []),
      (∀ page, op ≠ .erasePage page) ∧ ∀ addr data, op ≠ .writeFlash addr data := by
  intro op member
  by_cases now : last
  · rw [if_pos now, List.mem_singleton] at member
    subst member
    exact ⟨by simp, by simp⟩
  · rw [if_neg now] at member
    cases member

/-- The step lemma, one case for each message: what it does to the flash is allowed
exactly when it fits, and then there is room again. -/
theorem Room.step (room : Room p done) (tracks : Tracks p b) (message : Message) :
    (ConfinedFrom done (flashOps (handle message b).outputs) ↔ Fits p message) ∧
      (Fits p message →
        Room (p.step message) (done ++ flashOps (handle message b).outputs)) := by
  cases message with
  | getStatus =>
      have fits : Fits p .getStatus := by
        intro chunk other
        cases other
      show (ConfinedFrom done [] ↔ _) ∧ (_ → Room p (done ++ []))
      exact ⟨iff_of_true trivial fits, fun _ => room.same rfl (by simp)⟩
  | checksum hostChecksum =>
      have fits : Fits p (.checksum hostChecksum) := by
        intro chunk other
        cases other
      rw [handle_checksum_ops]
      split
      · exact ⟨iff_of_true ⟨trivial, trivial⟩ fits, fun _ => room.same rfl (by simp)⟩
      · exact ⟨iff_of_true trivial fits, fun _ => room.same rfl (by simp)⟩
  | header size key =>
      have fits : Fits p (.header size key) := by
        intro chunk other
        cases other
      by_cases accepts : Accepts size key
      · rw [handle_header accepts, flashOps_map_device, Progress.step, if_pos accepts]
        exact ⟨iff_of_true (confinedFrom_writeInit accepts.2 done) fits,
          fun _ => room.header accepts.2⟩
      · rw [handle_header_refused accepts, Progress.step, if_neg accepts]
        exact ⟨iff_of_true trivial fits, fun _ => room.same rfl (by simp)⟩
  | data chunk =>
      by_cases none : b.size = 0
      · have fits : Fits p (.data chunk) := fun _ _ sized => absurd (tracks.size ▸ none) sized
        rw [handle_data_refused none, Progress.step, if_pos (tracks.size ▸ none)]
        exact ⟨iff_of_true trivial fits, fun _ => room.same rfl (by simp)⟩
      · have sized : p.size ≠ 0 := tracks.size ▸ none
        have meaning : Fits p (.data chunk) ↔ 64 * p.chunks < 1024 * p.pages :=
          ⟨fun fits => fits chunk rfl sized, fun fits _ _ _ => fits⟩
        have last : ∀ done, ConfinedFrom done
            (if b.size ≤ b.count + 64 then [FlashOp.writeComplete] else []) := by
          intro done
          split
          · exact ⟨trivial, trivial⟩
          · trivial
        rw [handle_data none, flashOps_map_device, Progress.step, if_neg sized, meaning,
          confinedFrom_append, ← List.append_assoc]
        refine ⟨⟨?_, ?_⟩, ?_⟩
        · rintro ⟨confined, -⟩
          by_contra full
          exact room.overruns tracks (by omega) chunk confined
        · intro fits
          exact ⟨room.programs tracks fits chunk, last _⟩
        · intro fits
          exact (room.data tracks fits chunk).same rfl (writeComplete_only _)

end Data

/-! ## All bytes since reset -/

/-- The operations of a byte stream from reset. -/
def operations (bytes : List UInt8) : List FlashOp :=
  flashOps (slaveBootFSM.outputs (.reset .reset) bytes)

theorem operations_snoc (bytes : List UInt8) (byte : UInt8) :
    operations (bytes ++ [byte]) =
      operations bytes ++
        flashOps (slaveBootFSM.emit (slaveBootFSM.after (.reset .reset) bytes) byte) := by
  simp [operations, Fsm.outputs_append]

/-- The run lemma. -/
theorem room_after (bytes : List UInt8) :
    (ConfinedFrom [] (operations bytes) ↔ progressFSM.EveryStep Fits .reset (received bytes)) ∧
      (progressFSM.EveryStep Fits .reset (received bytes) →
        Room (progress bytes) (operations bytes)) := by
  induction bytes using List.reverseRecOn with
  | nil => exact ⟨iff_of_true trivial trivial, fun _ => room_reset⟩
  | append_singleton bytes byte ih =>
      obtain ⟨same, roomy⟩ := ih
      rw [progress, received_snoc, operations_snoc, confinedFrom_append, Fsm.everyStep_append,
        Fsm.after_append, List.nil_append, same]
      rcases (slaveBootStep_cases (wf_after bytes _ reset_wf) byte).2 with
        waits | ⟨message, handles⟩
      · rw [waits.received, waits.effects, List.append_nil]
        exact ⟨and_congr_right fun _ => iff_of_true trivial trivial, fun steps => roomy steps.1⟩
      · rw [handles.received, handles.effects]
        show (_ ∧ _ ↔ _ ∧ Fits (progress bytes) message ∧ True) ∧
          (_ ∧ Fits (progress bytes) message ∧ True → Room ((progress bytes).step message) _)
        rw [and_true]
        constructor
        · apply and_congr_right
          intro steps
          exact ((roomy steps).step (tracks_after bytes) message).1
        · rintro ⟨steps, fits⟩
          exact ((roomy steps).step (tracks_after bytes) message).2 fits

/-- **Confinement.** For every byte stream from reset, all erases are of
application pages and all half-words are programmed into erased application pages,
if and only if every data message that is carried out comes while the pages erased
since reset have not been filled by the chunks before it. -/
theorem slave_flash_confined_iff (bytes : List UInt8) :
    ConfinedFrom [] (flashOps (slaveBootFSM.outputs (.reset .reset) bytes)) ↔
      progressFSM.EveryStep Fits .reset (received bytes) :=
  (room_after bytes).1

/-- A header for one chunk, and as many chunks as fit in its page. -/
def fullPage : List Message :=
  .header 64 eraseFlashKey :: List.replicate 16 (.data zeroChunk)

/-- One more, on the wire. -/
def overfullPage : List UInt8 :=
  (fullPage ++ [Message.data zeroChunk]).flatMap Message.bytes

/-- The page behind it has not been erased, but the chunk is programmed there. -/
theorem seventeenth_chunk_unconfined :
    ¬ ConfinedFrom [] (flashOps (slaveBootFSM.outputs (.reset .reset) overfullPage)) := by
  intro confined
  have steps := (room_after overfullPage).1.mp confined
  have messages : received overfullPage = fullPage ++ [.data zeroChunk] :=
    (feed_messages _ _ ⟨rfl, rfl⟩ (by simp [fullPage])).2
  rw [messages, Fsm.everyStep_append] at steps
  have progress : progressFSM.after .reset fullPage = ⟨64, 16, 1⟩ := by decide +kernel
  rw [progress] at steps
  have fits : 64 * 16 < 1024 * 1 := steps.2.1 zeroChunk rfl (by decide)
  omega

end OlympusFirmware.SlaveBoot
