import Mathlib.Data.List.Induction
import OlympusFirmware.SlaveBoot.Messages

/-!
# What the messages so far amount to

`Progress` is the bootloader's purpose without its mechanics: the size of the
last accepted header, how many chunks have been programmed since reset, and how
many pages have been erased at most. It follows from the messages alone. The
static variables track it (`tracks_after`): `size` is that of the last accepted
header, while `count` and `addr` count all chunks since reset, whatever session
they belonged to.
-/

namespace OlympusFirmware.SlaveBoot

open OlympusFirmware.Lib OlympusFirmware.SlaveLib

/-! ## One message -/

/-- Consecutive half-words from `addr` on. -/
def programHalves : UInt32 → List UInt16 → List FlashOp
  | _, [] => []
  | addr, val :: rest => .writeFlash addr val :: programHalves (addr + 2) rest

/-- The sum `write_data` forms of half-words, the first being a high one or not. -/
def halfSum : Bool → List UInt16 → UInt32
  | _, [] => 0
  | high16bit, val :: rest =>
      (if high16bit then val.toUInt32 <<< 16 else val.toUInt32) + halfSum (!high16bit) rest

theorem writeHalves_eq (halves : List UInt16) :
    ∀ (b : Bootloader) (high16bit : Bool), writeHalves b high16bit halves =
      ({ b with
          addr := b.addr + UInt32.ofNat (2 * halves.length)
          checksum := b.checksum + halfSum high16bit halves },
        programHalves b.addr halves) := by
  induction halves with
  | nil =>
      intro b high16bit
      simp [writeHalves, halfSum, programHalves]
  | cons val rest ih =>
      intro b high16bit
      rw [writeHalves, ih]
      simp only [programHalves, halfSum, List.length_cons, UInt32.add_assoc]
      congr 2
      rw [Nat.mul_add, Nat.add_comm, UInt32.ofNat_add]
      rfl

/-- The sum of a chunk's words. -/
def chunkSum (chunk : Chunk) : UInt32 := (leWords chunk.1).sum

/-- A chunk of zeros. -/
def zeroChunk : Chunk := ⟨List.replicate 64 0, List.length_replicate⟩

/-- Two half-words, low and high, make a word. -/
theorem halves_word (b₀ b₁ b₂ b₃ : UInt8) :
    (UInt16.ofNat (leValue [b₀, b₁])).toUInt32 +
      (UInt16.ofNat (leValue [b₂, b₃])).toUInt32 <<< 16 = leWord [b₀, b₁, b₂, b₃] := by
  have h₀ := b₀.toNat_lt
  have h₁ := b₁.toNat_lt
  have h₂ := b₂.toNat_lt
  have h₃ := b₃.toNat_lt
  rw [← UInt32.toNat_inj]
  simp only [leWord, leValue, UInt32.toNat_add, UInt32.toNat_shiftLeft, UInt16.toNat_toUInt32,
    UInt16.toNat_ofNat', UInt32.toNat_ofNat', UInt32.reduceToNat, Nat.shiftLeft_eq, Nat.reduceMod]
  omega

/-- Summing the half-words alternately sums the words, if they come in pairs. -/
theorem halfSum_leHalves (bytes : List UInt8) (pairs : bytes.length % 4 = 0) :
    halfSum false (leHalves bytes) = (leWords bytes).sum := by
  induction bytes, pairs using whole_words with
  | nil => rfl
  | word b₀ b₁ b₂ b₃ rest pairs ih =>
      simp only [leHalves, leWords, halfSum, Bool.not_false, Bool.not_true, if_true,
        Bool.false_eq_true, if_false, List.sum_cons]
      rw [← UInt32.add_assoc, halves_word, ih]

/-- A data message before any header with a size is refused. -/
theorem handle_data_refused {b : Bootloader} (none : b.size = 0) (chunk : Chunk) :
    handle (.data chunk) b = ⟨some wrErr, b, []⟩ := if_pos none

/-- A data message programs its chunk at `addr` and counts it. -/
theorem handle_data {b : Bootloader} (sized : b.size ≠ 0) (chunk : Chunk) :
    handle (.data chunk) b =
      ⟨some wrOk,
        { b with
          addr := b.addr + 64
          checksum := b.checksum + chunkSum chunk
          count := b.count + 64
          flashComplete := b.flashComplete || b.size ≤ b.count + 64 },
        (programHalves b.addr (leHalves chunk.1) ++
          if b.size ≤ b.count + 64 then [FlashOp.writeComplete] else []).map .device⟩ := by
  have length : 2 * (leHalves chunk.1).length = 64 := by rw [length_leHalves, chunk.2]
  have sum : halfSum false (leHalves chunk.1) = chunkSum chunk :=
    halfSum_leHalves chunk.1 (by rw [chunk.2])
  rw [handle, writeData, if_neg sized, writeHalves_eq, length, sum]
  by_cases complete : b.size ≤ b.count + 64
  · simp [complete]
  · simp [complete]

/-- The header's key is right and its size fits. -/
def Accepts (size key : UInt32) : Prop := key = eraseFlashKey ∧ size ≤ appMaxSize

instance (size key : UInt32) : Decidable (Accepts size key) := inferInstanceAs (Decidable (_ ∧ _))

theorem handle_header {size key : UInt32} (accepts : Accepts size key) (b : Bootloader) :
    handle (.header size key) b =
      ⟨some wrOk, { b with size := size, checksum := 0, flashComplete := false },
        (writeInit size).map .device⟩ := by
  rw [handle, writeHeader, if_neg]
  rintro (other | large)
  · exact other accepts.1
  · exact absurd accepts.2 (UInt32.not_le.mpr large)

theorem handle_header_refused {size key : UInt32} (refused : ¬ Accepts size key)
    (b : Bootloader) : handle (.header size key) b = ⟨some wrErr, b, []⟩ := by
  rw [handle, writeHeader, if_pos]
  by_cases other : key ≠ eraseFlashKey
  · exact .inl other
  · refine .inr (UInt32.not_le.mp fun fits => refused ⟨not_not.mp other, fits⟩)

/-- The checksum message changes no variable. -/
theorem handle_checksum_boot (hostChecksum : UInt32) (b : Bootloader) :
    (handle (.checksum hostChecksum) b).boot = b := by
  simp only [handle, runChecksum]
  split
  · rfl
  · split <;> rfl

/-- It jumps exactly when the image is complete and the sums agree. -/
theorem handle_checksum_ops (hostChecksum : UInt32) (b : Bootloader) :
    flashOps (handle (.checksum hostChecksum) b).outputs =
      if b.flashComplete = true ∧ hostChecksum = b.checksum then [.jumpToApp] else [] := by
  simp only [handle, runChecksum]
  cases b.flashComplete with
  | false => simp
  | true =>
      by_cases same : hostChecksum = b.checksum
      · simp [same]
        rfl
      · simp [same]

/-! ## All messages since reset -/

/-- The size last accepted, the chunks programmed since reset, and the largest
number of pages a header has erased since reset. -/
structure Progress where
  size : UInt32
  chunks : Nat
  pages : Nat
deriving DecidableEq

/-- Nothing has been received. -/
def Progress.reset : Progress := ⟨0, 0, 0⟩

/-- One more message. -/
def Progress.step (p : Progress) : Message → Progress
  | .header size key =>
      if Accepts size key then
        { p with size := size, pages := max p.pages ((size.toNat + 1023) / 1024) }
      else p
  | .data _ => if p.size = 0 then p else { p with chunks := p.chunks + 1 }
  | _ => p

/-- The progress of a list of messages. -/
def progressFSM : Fsm Progress Message Empty where
  step p message := (p.step message, [])

/-- The static variables that survive a session are those of the progress. -/
structure Tracks (p : Progress) (b : Bootloader) : Prop where
  size : b.size = p.size
  count : b.count.toNat = (64 * p.chunks) % 4294967296
  addr : b.addr.toNat = (appStartAddr.toNat + 64 * p.chunks) % 4294967296

theorem tracks_reset : Tracks .reset .reset := ⟨rfl, rfl, rfl⟩

/-- The step lemma, one case for each message. -/
theorem Tracks.step {p : Progress} {b : Bootloader} (tracks : Tracks p b) (message : Message) :
    Tracks (p.step message) (handle message b).boot := by
  cases message with
  | getStatus => exact tracks
  | checksum hostChecksum =>
      rw [handle_checksum_boot]
      exact tracks
  | header size key =>
      by_cases accepts : Accepts size key
      · rw [handle_header accepts, Progress.step, if_pos accepts]
        exact ⟨rfl, tracks.count, tracks.addr⟩
      · rw [handle_header_refused accepts, Progress.step, if_neg accepts]
        exact tracks
  | data chunk =>
      by_cases none : b.size = 0
      · rw [handle_data_refused none, Progress.step, if_pos (tracks.size ▸ none)]
        exact tracks
      · rw [handle_data none, Progress.step, if_neg (tracks.size ▸ none)]
        refine ⟨tracks.size, ?_, ?_⟩
        · rw [UInt32.toNat_add, tracks.count]
          simp only [UInt32.reduceToNat]
          omega
        · rw [UInt32.toNat_add, tracks.addr]
          simp only [UInt32.reduceToNat]
          omega

/-- The messages of a byte stream from reset. -/
def received (bytes : List UInt8) : List Message :=
  messages (slaveBootFSM.outputs (.reset .reset) bytes)

/-- The progress of a byte stream from reset. -/
def progress (bytes : List UInt8) : Progress :=
  progressFSM.after .reset (received bytes)

theorem received_snoc (bytes : List UInt8) (byte : UInt8) :
    received (bytes ++ [byte]) =
      received bytes ++
        messages (slaveBootFSM.emit (slaveBootFSM.after (.reset .reset) bytes) byte) := by
  simp [received, Fsm.outputs_append]

theorem reset_wf : (Comms.reset Bootloader.reset).Wf msgResp := Comms.wf_of_ne (by decide)

/-- The run lemma: the machine is well formed after any bytes. -/
theorem wf_after (bytes : List UInt8) :
    ∀ c : Comms Bootloader, c.Wf msgResp → (slaveBootFSM.after c bytes).Wf msgResp := by
  induction bytes with
  | nil =>
      intro c wf
      exact wf
  | cons byte bytes ih =>
      intro c wf
      exact ih _ (slaveBootStep_cases wf byte).1

/-- **The variables track the progress** of any byte stream from reset. -/
theorem tracks_after (bytes : List UInt8) :
    Tracks (progress bytes) (slaveBootFSM.after (.reset .reset) bytes).prog := by
  induction bytes using List.reverseRecOn with
  | nil => exact tracks_reset
  | append_singleton bytes byte ih =>
      have wf := wf_after bytes _ reset_wf
      rw [progress, received_snoc, Fsm.after_append, Fsm.after_append]
      rcases (slaveBootStep_cases wf byte).2 with waits | ⟨message, handles⟩
      · rw [waits.received]
        show Tracks (progress bytes) (slaveBootFSM.next _ byte).prog
        rw [waits.prog]
        exact ih
      · rw [handles.received]
        show Tracks ((progress bytes).step message) (slaveBootFSM.next _ byte).prog
        rw [handles.prog]
        exact ih.step message

end OlympusFirmware.SlaveBoot
