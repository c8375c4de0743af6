import OlympusFirmware.SlaveBoot.Progress

/-!
# Sessions of the slaves' bootloader

A session starts with an accepted header. It should not matter what came before:
the chunks go to the start of the application, the image is complete with its
last chunk, and the jump needs all chunks and their sum (`Isolated`). But `count`
and `addr` go on from the sessions before, so this holds if and only if nothing
has been programmed since reset (or so much that both have wrapped), and if the
session has no more data messages than its header announced: the sum also takes
in the chunks that come after the image is complete.
-/

namespace OlympusFirmware.SlaveBoot

open OlympusFirmware.Lib OlympusFirmware.SlaveLib

/-- The chunks among the messages. -/
def chunksOf (messages : List Message) : List Chunk :=
  messages.filterMap fun
    | .data chunk => some chunk
    | _ => none

/-- The number of chunks of an image of `n` bytes. -/
def numChunks (n : Nat) : Nat := (n + 63) / 64

/-- The chunks a byte stream completes. -/
def chunksIn (c : Comms Bootloader) (bytes : List UInt8) : List Chunk :=
  chunksOf (messages (slaveBootFSM.outputs c bytes))

/-- The byte completes a header for `n` bytes, and it is accepted. -/
def AcceptsHeader (c : Comms Bootloader) (byte : UInt8) (n : Nat) : Prop :=
  ∃ size key, messages (slaveBootFSM.emit c byte) = [.header size key] ∧ Accepts size key ∧
    size.toNat = n

/-- No header is accepted among the messages. -/
def NoHeader (messages : List Message) : Prop :=
  ∀ size key, .header size key ∈ messages → ¬ Accepts size key

/-- The session goes by its own messages: chunk `i` is programmed at its place,
the image is complete with the last chunk, and the jump needs all chunks and the
sum of their words. -/
structure Isolated (c : Comms Bootloader) (n : Nat) (bytes : List UInt8) : Prop where
  programs : ∀ pre byte post chunk, bytes = pre ++ byte :: post →
    messages (slaveBootFSM.emit (slaveBootFSM.after c pre) byte) = [.data chunk] →
    (chunksIn c pre).length < numChunks n →
    flashOps (slaveBootFSM.emit (slaveBootFSM.after c pre) byte) =
      programHalves (appStartAddr + 64 * UInt32.ofNat (chunksIn c pre).length)
          (leHalves chunk.1) ++
        if (chunksIn c pre).length + 1 = numChunks n then [.writeComplete] else []
  completes : ∀ pre post, bytes = pre ++ post →
    ((slaveBootFSM.after c pre).prog.flashComplete = true ↔
      numChunks n ≤ (chunksIn c pre).length)
  jumps : ∀ pre byte post, bytes = pre ++ byte :: post →
    .jumpToApp ∈ flashOps (slaveBootFSM.emit (slaveBootFSM.after c pre) byte) →
    numChunks n ≤ (chunksIn c pre).length ∧
      messages (slaveBootFSM.emit (slaveBootFSM.after c pre) byte) =
        [.checksum (((chunksIn c pre).take (numChunks n)).map chunkSum).sum]

@[simp] theorem chunksOf_append (xs ys : List Message) :
    chunksOf (xs ++ ys) = chunksOf xs ++ chunksOf ys := List.filterMap_append

theorem chunksIn_snoc (c : Comms Bootloader) (bytes : List UInt8) (byte : UInt8) :
    chunksIn c (bytes ++ [byte]) =
      chunksIn c bytes ++
        chunksOf (messages (slaveBootFSM.emit (slaveBootFSM.after c bytes) byte)) := by
  simp [chunksIn, Fsm.outputs_append]

theorem chunksIn_append (c : Comms Bootloader) (xs ys : List UInt8) :
    chunksIn c (xs ++ ys) = chunksIn c xs ++ chunksIn (slaveBootFSM.after c xs) ys := by
  simp [chunksIn, Fsm.outputs_append]

/-! ## A session that starts with nothing programmed -/

/-- The variables in a session for `n` bytes, with the given chunks received. -/
structure InSession (n : Nat) (chunks : List Chunk) (b : Bootloader) : Prop where
  size : b.size.toNat = n
  checksum : b.checksum = (chunks.map chunkSum).sum
  complete : b.flashComplete = true ↔ numChunks n ≤ chunks.length
  count : b.count.toNat = 64 * chunks.length
  addr : b.addr.toNat = appStartAddr.toNat + 64 * chunks.length

/-- A positive size is not zero. -/
theorem InSession.sized {n : Nat} {chunks : List Chunk} {b : Bootloader}
    (now : InSession n chunks b) (positive : 0 < n) : b.size ≠ 0 := by
  intro zero
  have size := now.size
  rw [zero, UInt32.toNat_zero] at size
  omega

/-- The count after one more chunk. -/
theorem InSession.counted {n : Nat} {chunks : List Chunk} {b : Bootloader}
    (now : InSession n chunks b) (small : n ≤ 27648) (early : chunks.length < numChunks n) :
    (b.count + 64).toNat = 64 * (chunks.length + 1) := by
  rw [numChunks] at early
  rw [UInt32.toNat_add, now.count]
  simp only [UInt32.reduceToNat]
  omega

/-- What a data message programs, and where. -/
theorem InSession.data_ops {n : Nat} {chunks : List Chunk} {b : Bootloader}
    (now : InSession n chunks b) (positive : 0 < n) (small : n ≤ 27648)
    (early : chunks.length < numChunks n) (chunk : Chunk) :
    flashOps (handle (.data chunk) b).outputs =
      programHalves (appStartAddr + 64 * UInt32.ofNat chunks.length) (leHalves chunk.1) ++
        if chunks.length + 1 = numChunks n then [.writeComplete] else [] := by
  have place : b.addr = appStartAddr + 64 * UInt32.ofNat chunks.length := by
    have base : appStartAddr.toNat = 0x08001400 := rfl
    rw [numChunks] at early
    rw [← UInt32.toNat_inj, now.addr, UInt32.toNat_add, UInt32.toNat_mul, UInt32.toNat_ofNat', base]
    simp only [UInt32.reduceToNat]
    omega
  have last : b.size ≤ b.count + 64 ↔ chunks.length + 1 = numChunks n := by
    rw [UInt32.le_iff_toNat_le, now.counted small early, now.size]
    rw [numChunks] at early ⊢
    omega
  rw [handle_data (now.sized positive), flashOps_map_device, place]
  simp only [last]

/-- The step lemma, one case for each message. -/
theorem InSession.step {n : Nat} {chunks : List Chunk} {b : Bootloader}
    (now : InSession n chunks b) (positive : 0 < n) (small : n ≤ 27648) {message : Message}
    (noHeader : NoHeader [message])
    (bound : (chunks ++ chunksOf [message]).length ≤ numChunks n) :
    InSession n (chunks ++ chunksOf [message]) (handle message b).boot := by
  cases message with
  | getStatus =>
      show InSession n (chunks ++ []) b
      simpa using now
  | checksum hostChecksum =>
      rw [handle_checksum_boot]
      simpa [chunksOf] using now
  | header size key =>
      rw [handle_header_refused (noHeader size key List.mem_cons_self)]
      simpa [chunksOf] using now
  | data chunk =>
      have base : appStartAddr.toNat = 0x08001400 := rfl
      have one : chunks ++ chunksOf [.data chunk] = chunks ++ [chunk] := rfl
      rw [one] at bound ⊢
      simp only [List.length_append, List.length_singleton] at bound
      have counted := now.counted small bound
      rw [numChunks] at bound
      rw [handle_data (now.sized positive)]
      refine ⟨now.size, ?_, ?_, ?_, ?_⟩
      · simp [now.checksum]
      · simp only [Bool.or_eq_true, now.complete, decide_eq_true_eq, UInt32.le_iff_toNat_le,
          counted, now.size, List.length_append, List.length_singleton, numChunks]
        omega
      · simpa using counted
      · rw [UInt32.toNat_add, now.addr, base]
        simp only [UInt32.reduceToNat, List.length_append, List.length_singleton]
        omega

/-- What a byte stream must not do for a session to go on: complete an accepted
header, or more than `most` chunks. -/
def Continues (c : Comms Bootloader) (most : Nat) (bytes : List UInt8) : Prop :=
  NoHeader (messages (slaveBootFSM.outputs c bytes)) ∧ (chunksIn c bytes).length ≤ most

theorem Continues.take {c : Comms Bootloader} {most : Nat} {pre post : List UInt8}
    (continues : Continues c most (pre ++ post)) : Continues c most pre := by
  obtain ⟨noHeader, bound⟩ := continues
  refine ⟨fun size key member => noHeader size key ?_, ?_⟩
  · rw [Fsm.outputs_append, messages_append]
    exact List.mem_append_left _ member
  · rw [chunksIn_append, List.length_append] at bound
    omega

/-- The run lemma: the variables are those of the session's own chunks. -/
theorem inSession_after {c : Comms Bootloader} {n : Nat} (wf : c.Wf msgResp)
    (positive : 0 < n) (small : n ≤ 27648) (start : InSession n [] c.prog) (bytes : List UInt8)
    (continues : Continues c (numChunks n) bytes) :
    InSession n (chunksIn c bytes) (slaveBootFSM.after c bytes).prog := by
  induction bytes using List.reverseRecOn with
  | nil => exact start
  | append_singleton bytes byte ih =>
      have now := ih continues.take
      rw [chunksIn_snoc, Fsm.after_append]
      show InSession n _ (slaveBootFSM.next (slaveBootFSM.after c bytes) byte).prog
      obtain ⟨noHeader, bound⟩ := continues
      rw [Fsm.outputs_append, messages_append] at noHeader
      rw [chunksIn_snoc] at bound
      rcases (slaveBootStep_cases (wf_after bytes c wf) byte).2 with waits | ⟨message, handles⟩
      · rw [waits.received, waits.prog]
        simpa [chunksOf] using now
      · rw [handles.received] at bound ⊢
        rw [handles.prog]
        refine now.step positive small (fun size key member => noHeader size key ?_) bound
        refine List.mem_append_right _ ?_
        simpa [handles.received] using member

/-- Only a checksum message jumps. -/
theorem jumpToApp_mem {message : Message} {b : Bootloader}
    (jumps : .jumpToApp ∈ flashOps (handle message b).outputs) :
    message = .checksum b.checksum ∧ b.flashComplete = true := by
  cases message with
  | getStatus => cases jumps
  | header size key =>
      by_cases accepts : Accepts size key
      · rw [handle_header accepts, flashOps_map_device, writeInit] at jumps
        simp at jumps
      · rw [handle_header_refused accepts] at jumps
        cases jumps
  | data chunk =>
      have writes : ∀ (addr : UInt32) (halves : List UInt16),
          .jumpToApp ∉ programHalves addr halves := by
        intro addr halves
        induction halves generalizing addr with
        | nil => simp [programHalves]
        | cons val rest ih => simp [programHalves, ih]
      by_cases none : b.size = 0
      · rw [handle_data_refused none] at jumps
        cases jumps
      · rw [handle_data none, flashOps_map_device, List.mem_append] at jumps
        rcases jumps with programmed | completed
        · exact absurd programmed (writes _ _)
        · split at completed <;> simp at completed
  | checksum hostChecksum =>
      rw [handle_checksum_ops] at jumps
      split at jumps
      · rename_i agrees
        rw [agrees.2]
        exact ⟨rfl, agrees.1⟩
      · cases jumps

/-- A session that starts with nothing programmed is isolated, as long as it has
no more chunks than announced. -/
theorem isolated_of_fresh {c : Comms Bootloader} {n : Nat} (wf : c.Wf msgResp)
    (positive : 0 < n) (small : n ≤ 27648) (start : InSession n [] c.prog) {bytes : List UInt8}
    (continues : Continues c (numChunks n) bytes) : Isolated c n bytes := by
  refine ⟨?_, ?_, ?_⟩
  · rintro pre byte post chunk rfl one early
    have now := inSession_after wf positive small start pre continues.take
    rcases (slaveBootStep_cases (wf_after pre c wf) byte).2 with waits | ⟨message, handles⟩
    · rw [waits.received] at one
      cases one
    · obtain rfl : message = .data chunk := by
        rw [handles.received] at one
        exact List.singleton_inj.mp one
      rw [handles.effects]
      exact now.data_ops positive small early chunk
  · rintro pre post rfl
    exact (inSession_after wf positive small start pre continues.take).complete
  · rintro pre byte post rfl jumps
    have now := inSession_after wf positive small start pre continues.take
    have bound := continues.take.2
    rcases (slaveBootStep_cases (wf_after pre c wf) byte).2 with waits | ⟨message, handles⟩
    · rw [waits.effects] at jumps
      cases jumps
    · rw [handles.effects] at jumps
      obtain ⟨rfl, complete⟩ := jumpToApp_mem jumps
      have all := now.complete.mp complete
      refine ⟨all, ?_⟩
      rw [handles.received, now.checksum, List.take_of_length_le bound]

/-! ## What shows the condition to be needed -/

/-- The byte that completes the first message of a stream. -/
theorem first_message {message : Message} {later : List Message} (bytes : List UInt8) :
    ∀ c : Comms Bootloader, c.Wf msgResp →
    messages (slaveBootFSM.outputs c bytes) = message :: later →
    ∃ pre byte post, bytes = pre ++ byte :: post ∧
      messages (slaveBootFSM.outputs c pre) = [] ∧ (slaveBootFSM.after c pre).prog = c.prog ∧
      Handles (slaveBootFSM.after c pre) (slaveBootFSM.next (slaveBootFSM.after c pre) byte)
        message (slaveBootFSM.emit (slaveBootFSM.after c pre) byte) := by
  induction bytes with
  | nil =>
      intro c _ first
      cases first
  | cons byte bytes ih =>
      intro c wf first
      rw [Fsm.outputs_cons, messages_append] at first
      obtain ⟨wf', waits | ⟨handled, handles⟩⟩ := slaveBootStep_cases wf byte
      · rw [waits.received] at first
        obtain ⟨pre, last, post, rfl, silent, prog, handles⟩ := ih _ wf' first
        refine ⟨byte :: pre, last, post, rfl, ?_, ?_, handles⟩
        · rw [Fsm.outputs_cons, messages_append, waits.received, silent]
          rfl
        · rw [Fsm.after_cons, prog, waits.prog]
      · obtain rfl : handled = message := by
          rw [handles.received] at first
          exact (List.cons.inj first).1
        exact ⟨[], byte, bytes, rfl, rfl, rfl, handles⟩

/-- The machine right after an accepted header. -/
theorem after_header {before : List UInt8} {byte : UInt8} {n : Nat}
    (accepted : AcceptsHeader (slaveBootFSM.after (.reset .reset) before) byte n) :
    ∃ c, slaveBootFSM.next (slaveBootFSM.after (.reset .reset) before) byte = c ∧
      c.Wf msgResp ∧ c.Idle ∧ n ≤ 27648 ∧ c.prog.size.toNat = n ∧ c.prog.checksum = 0 ∧
      c.prog.flashComplete = false ∧
      c.prog.count.toNat = (64 * (progress before).chunks) % 4294967296 ∧
      c.prog.addr.toNat = (appStartAddr.toNat + 64 * (progress before).chunks) % 4294967296 := by
  obtain ⟨size, key, one, accepts, rfl⟩ := accepted
  have tracks := tracks_after before
  obtain ⟨wf, waits | ⟨message, handles⟩⟩ :=
    slaveBootStep_cases (wf_after before _ reset_wf) byte
  · rw [waits.received] at one
    cases one
  · obtain rfl : message = .header size key := by
      rw [handles.received] at one
      exact List.singleton_inj.mp one
    have prog := handles.prog
    have running := handles.running
    rw [handle_header accepts] at prog running
    refine ⟨_, rfl, wf, handles.idle running, le_appMaxSize.mp accepts.2, ?_⟩
    rw [prog]
    exact ⟨rfl, rfl, rfl, tracks.count, tracks.addr⟩

/-- A chunk whose words add up to one. -/
def oneChunk : Chunk := ⟨1 :: List.replicate 63 0, by simp⟩

theorem sum_zeroChunks (n : Nat) : ((List.replicate n zeroChunk).map chunkSum).sum = 0 := by
  have zero : chunkSum zeroChunk = 0 := by decide +kernel
  induction n with
  | zero => rfl
  | succ n ih =>
      rw [List.replicate_succ, List.map_cons, List.sum_cons, zero, ih]
      rfl

/-- If a session's first chunk goes to the start of the application, `addr` was
there. -/
theorem addr_of_isolated {c : Comms Bootloader} {n : Nat} (wf : c.Wf msgResp) (idle : c.Idle)
    (sized : c.prog.size ≠ 0) (positive : 0 < n)
    (isolated : Isolated c n (Message.data zeroChunk).bytes) : c.prog.addr = appStartAddr := by
  have answered := feed_message idle (.data zeroChunk)
  obtain ⟨pre, byte, post, split, silent, prog, handles⟩ :=
    first_message _ c wf answered.received
  have none : chunksIn c pre = [] := by rw [chunksIn, silent]; rfl
  have place := isolated.programs pre byte post zeroChunk split handles.received
    (by rw [none, numChunks]; simp; omega)
  rw [handles.effects, prog, handle_data sized, flashOps_map_device, none] at place
  -- the first half-word shows the address
  have head : leHalves zeroChunk.1 = 0 :: leHalves (List.replicate 62 0) := rfl
  simp only [head, programHalves, List.cons_append, List.cons.injEq, FlashOp.writeFlash.injEq]
    at place
  simpa using place.1.1

theorem chunksOf_data (chunks : List Chunk) : chunksOf (chunks.map .data) = chunks := by
  induction chunks with
  | nil => rfl
  | cons chunk chunks ih => exact congrArg (chunk :: ·) ih

theorem noHeader_data (chunks : List Chunk) : NoHeader (chunks.map .data) := by
  intro size key member
  simp at member

/-- A session of zeros with one chunk too many: the image stays complete, and the
sum takes the chunk in. -/
theorem overlong_session {c : Comms Bootloader} {n : Nat} (wf : c.Wf msgResp)
    (idle : c.Idle) (positive : 0 < n) (small : n ≤ 27648) (start : InSession n [] c.prog) :
    ∃ bytes c', slaveBootFSM.after c bytes = c' ∧ c'.Idle ∧
      messages (slaveBootFSM.outputs c bytes) =
        (List.replicate (numChunks n) zeroChunk ++ [oneChunk]).map .data ∧
      c'.prog.flashComplete = true ∧ c'.prog.checksum = 1 := by
  -- the announced chunks, all zero, and then one whose sum is one
  obtain ⟨zeros, zerosEq⟩ : ∃ zeros, zeros = List.replicate (numChunks n) zeroChunk := ⟨_, rfl⟩
  have length : zeros.length = numChunks n := by rw [zerosEq, List.length_replicate]
  obtain ⟨bytes, idle₁, received₁⟩ : ∃ bytes, (slaveBootFSM.after c bytes).Idle ∧
      messages (slaveBootFSM.outputs c bytes) = zeros.map .data :=
    ⟨_, feed_messages (zeros.map .data) c idle (by simp)⟩
  have chunks₁ : chunksIn c bytes = zeros := by
    rw [chunksIn, received₁, chunksOf_data]
  have now := inSession_after wf positive small start bytes
    ⟨by rw [received₁]; exact noHeader_data zeros, by rw [chunks₁]; omega⟩
  rw [chunks₁] at now
  have complete := now.complete.mpr (by omega)
  have sum := now.checksum
  rw [zerosEq, sum_zeroChunks] at sum
  have answered := feed_message idle₁ (.data oneChunk)
  have prog := answered.prog
  have running := answered.running
  rw [handle_data (now.sized positive)] at prog running
  refine ⟨bytes ++ (Message.data oneChunk).bytes, _, rfl, ?_, ?_, ?_, ?_⟩
  · rw [Fsm.after_append]
    exact answered.idle running
  · rw [Fsm.outputs_append, messages_append, received₁, answered.received, ← zerosEq]
    simp
  · rw [Fsm.after_append, prog]
    simp [complete]
  · rw [Fsm.after_append, prog]
    show _ + chunkSum oneChunk = 1
    rw [sum]
    decide +kernel

/-- So such a session is not isolated. -/
theorem not_isolated_of_overlong {c : Comms Bootloader} {n : Nat} (wf : c.Wf msgResp)
    (idle : c.Idle) (positive : 0 < n) (small : n ≤ 27648) (start : InSession n [] c.prog) :
    ∃ bytes, Continues c (numChunks n + 1) bytes ∧ ¬ Isolated c n bytes := by
  obtain ⟨bytes, c', reached, idle', received, complete, sum⟩ :=
    overlong_session wf idle positive small start
  have chunks : chunksIn c bytes = List.replicate (numChunks n) zeroChunk ++ [oneChunk] := by
    rw [chunksIn, received, chunksOf_data]
  have answered := feed_message idle' (.checksum 1)
  obtain ⟨pre, byte, post, split, silent, prog, handles⟩ :=
    first_message _ c' (reached ▸ wf_after bytes c wf) answered.received
  refine ⟨bytes ++ (Message.checksum 1).bytes, ⟨?_, ?_⟩, fun isolated => ?_⟩
  · rw [Fsm.outputs_append, messages_append, reached, answered.received, received]
    intro size key member
    simp at member
  · rw [chunksIn_append, chunks, reached, chunksIn, answered.received]
    simp [chunksOf]
  · -- the jump comes with the sum of one, and the announced chunks have sum zero
    have jumped := isolated.jumps (bytes ++ pre) byte post (by simp [split])
    have chunks' : chunksIn c (bytes ++ pre) =
        List.replicate (numChunks n) zeroChunk ++ [oneChunk] := by
      rw [chunksIn_append, chunks, reached, chunksIn, silent]
      simp [chunksOf]
    have jumps : .jumpToApp ∈ flashOps (slaveBootFSM.emit (slaveBootFSM.after c' pre) byte) := by
      rw [handles.effects, prog, handle_checksum_ops, if_pos ⟨complete, sum.symm⟩]
      exact List.mem_cons_self
    rw [Fsm.after_append, reached, chunks', List.take_left' List.length_replicate,
      sum_zeroChunks, handles.received] at jumped
    have wrong := (jumped jumps).2
    simp at wrong

/-- One data message continues a session that waits for one. -/
theorem continues_data {c : Comms Bootloader} (idle : c.Idle) (chunk : Chunk) :
    Continues c 1 (Message.data chunk).bytes := by
  have answered := feed_message idle (.data chunk)
  refine ⟨?_, ?_⟩
  · rw [answered.received]
    exact noHeader_data [chunk]
  · rw [chunksIn, answered.received]
    exact Nat.le_refl 1

/-- **Session isolation.** Take any bytes since reset that end with an accepted
header for `n > 0` bytes. The session it starts is isolated for every
continuation with at most `most` data messages if and only if the number of
chunks programmed before is a multiple of 2^26 (so that `count` and `addr` are
what they are at reset: none, in practice) and `most` is no more than announced. -/
theorem session_isolated_iff (before : List UInt8) (byte : UInt8) (n most : Nat)
    (accepted : AcceptsHeader (slaveBootFSM.after (.reset .reset) before) byte n)
    (positive : 0 < n) (some : 0 < most) :
    (∀ bytes,
        Continues (slaveBootFSM.next (slaveBootFSM.after (.reset .reset) before) byte) most bytes →
        Isolated (slaveBootFSM.next (slaveBootFSM.after (.reset .reset) before) byte) n bytes) ↔
      67108864 ∣ (progress before).chunks ∧ most ≤ numChunks n := by
  obtain ⟨c, reached, wf, idle, small, size, checksum, complete, count, addr⟩ :=
    after_header accepted
  have base : appStartAddr.toNat = 0x08001400 := rfl
  have sized : c.prog.size ≠ 0 := by
    intro zero
    rw [zero, UInt32.toNat_zero] at size
    omega
  rw [reached]
  have fresh : 67108864 ∣ (progress before).chunks → InSession n [] c.prog := by
    intro turns
    refine ⟨size, checksum, ?_, ?_, ?_⟩
    · rw [complete, numChunks]
      simp
      omega
    · rw [count]
      simp
      omega
    · rw [addr, base]
      simp
      omega
  constructor
  · intro isolated
    have turns : 67108864 ∣ (progress before).chunks := by
      obtain ⟨noHeader, one⟩ := continues_data idle zeroChunk
      have first := addr_of_isolated wf idle sized positive
        (isolated _ ⟨noHeader, Nat.le_trans one some⟩)
      have place := congrArg UInt32.toNat first
      rw [addr, base] at place
      omega
    refine ⟨turns, ?_⟩
    by_contra longer
    obtain ⟨bytes, continues, notIsolated⟩ :=
      not_isolated_of_overlong wf idle positive small (fresh turns)
    exact notIsolated (isolated bytes ⟨continues.1, by have := continues.2; omega⟩)
  · rintro ⟨turns, bound⟩ bytes ⟨noHeader, few⟩
    exact isolated_of_fresh wf positive small (fresh turns) ⟨noHeader, by omega⟩

/-- A header for one chunk, without its last byte. -/
def headerStart : List UInt8 := (Message.header 64 eraseFlashKey).bytes.dropLast

/-- The first session after reset is isolated. -/
theorem first_session_isolated :
    Isolated (slaveBootFSM.next (slaveBootFSM.after (.reset .reset) headerStart) 0x66) 64
      (Message.data zeroChunk).bytes := by
  have isolated := (session_isolated_iff headerStart 0x66 64 1
    ⟨64, eraseFlashKey, by decide +kernel, by decide, rfl⟩ (by decide) (by decide)).mpr
    (by decide +kernel)
  exact isolated _ (continues_data ⟨by decide +kernel, by decide +kernel⟩ zeroChunk)

/-- A complete first session of one chunk, whose checksum is never sent, and the
header of a second one. -/
def secondHeaderStart : List UInt8 :=
  (Message.header 64 eraseFlashKey).bytes ++ (Message.data zeroChunk).bytes ++ headerStart

/-- The second session is not isolated: its chunk goes behind the first one's. -/
theorem second_session_not_isolated :
    AcceptsHeader (slaveBootFSM.after (.reset .reset) secondHeaderStart) 0x66 64 ∧
      Continues (slaveBootFSM.next (slaveBootFSM.after (.reset .reset) secondHeaderStart) 0x66) 1
        (Message.data zeroChunk).bytes ∧
      ¬ Isolated (slaveBootFSM.next (slaveBootFSM.after (.reset .reset) secondHeaderStart) 0x66) 64
        (Message.data zeroChunk).bytes := by
  have accepted : AcceptsHeader (slaveBootFSM.after (.reset .reset) secondHeaderStart) 0x66 64 :=
    ⟨64, eraseFlashKey, by decide +kernel, by decide, rfl⟩
  obtain ⟨c, reached, wf, idle, -, size, -, -, -, addr⟩ := after_header accepted
  have sized : c.prog.size ≠ 0 := by
    intro zero
    rw [zero] at size
    cases size
  rw [reached]
  refine ⟨accepted, continues_data idle zeroChunk, ?_⟩
  intro isolated
  have first := addr_of_isolated wf idle sized (by decide) isolated
  have chunks : (progress secondHeaderStart).chunks = 1 := by decide +kernel
  rw [first, chunks] at addr
  cases addr

end OlympusFirmware.SlaveBoot
