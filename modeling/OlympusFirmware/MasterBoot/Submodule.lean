import OlympusFirmware.MasterBoot.Steps

/-!
# An update of a submodule, as the master runs it

The four kinds of host call, each under the assumption that the submodule answers
its exchanges: the master then answers the call with one `NO_ERR`, and what it
has passed on is exactly what the host sent. A chunk is passed on as 64 bytes; the
last one is filled up with zeros (`chunk_run`).
-/

namespace OlympusFirmware.MasterBoot

open OlympusFirmware.Lib

variable {σ : Type} (link : Link σ)

/-! ## The header -/

/-- A restart whose four exchanges succeed. -/
theorem restartSubmodule_ok {b : Boot σ} {env₁ env₂ env₃ env₄ : σ}
    (status : link b.module 0x00 [] b.env = (commsOk, env₁))
    (restart : link b.module 0x0A [] env₁ = (commsOk, env₂))
    (again : link b.module 0x00 [] env₂ = (commsOk, env₃))
    (header : link b.module 0x01 (wordBytes b.header.size ++ wordBytes b.header.fkey) env₃ =
      (commsOk, env₄)) :
    ∃ buff outputs,
      restartSubmodule link b =
        ({ b with msg := .dmy, submoduleCommsBuff := buff, env := env₄ }, outputs) ∧
      responses outputs = [noErr] := by
  have words := b.submoduleCommsBuff.load_store_self 0
    (wordBytes b.header.size ++ wordBytes b.header.fkey)
  simp only [List.length_append, length_wordBytes] at words
  simp only [restartSubmodule, expectOk, sendHeader, Boot.status, Boot.sent, Boot.message,
    Boot.finish, emitting, Mem.load_zero, status, restart, again, ne_eq, not_true, if_false,
    words, header]
  exact ⟨_, _, rfl, rfl⟩

/-- A header for a submodule that answers. -/
theorem header_call {b : Boot σ} (idle : b.Idle) {dkey size : UInt32}
    (known : moduleOfKey dkey ≠ .none) (foreign : moduleOfKey dkey ≠ .olympus)
    {env₁ env₂ env₃ env₄ : σ}
    (status : link (moduleOfKey dkey) 0x00 [] b.env = (commsOk, env₁))
    (restart : link (moduleOfKey dkey) 0x0A [] env₁ = (commsOk, env₂))
    (again : link (moduleOfKey dkey) 0x00 [] env₂ = (commsOk, env₃))
    (header : link (moduleOfKey dkey) 0x01 (wordBytes size ++ wordBytes eraseFlashKey) env₃ =
      (commsOk, env₄)) :
    ∃ b', (bootFSM link).after b [2, dkey, size, eraseFlashKey] = b' ∧
      responses ((bootFSM link).outputs b [2, dkey, size, eraseFlashKey]) = [noErr] ∧
      b'.Idle ∧ b'.module = moduleOfKey dkey ∧ b'.header.size = size ∧ b'.env = env₄ := by
  obtain ⟨reached, emitted⟩ := header_run link idle dkey size eraseFlashKey
  have other : dkey ≠ olympusKey := fun own => foreign (moduleOfKey_eq_olympus.mpr own)
  have submodule := runHeader_submodule link (parsing_third b dkey size) known other
    (rfl : eraseFlashKey = eraseFlashKey)
  obtain ⟨buff, outputs, result, answer⟩ := restartSubmodule_ok link
    (b := (b.parsing dkey size).withKey eraseFlashKey) status restart again header
  rw [reached, emitted, submodule, result]
  exact ⟨_, rfl, answer, ⟨idle.running, rfl, rfl⟩, rfl, rfl, rfl⟩

/-! ## The data -/

/-- Inside a chunk there is nothing to do after a word. -/
theorem endData_inside {b : Boot σ} (inside : b.count % chunkSize ≠ 0)
    (more : b.count ≠ b.header.size) : endData b = (b, []) := by
  simp [endData, inside, more]

/-- A full chunk is acknowledged. -/
theorem endData_full {b : Boot σ} (full : b.count % chunkSize = 0)
    (more : b.count ≠ b.header.size) : endData b = (b, [.writeResponse noErr]) := by
  simp [endData, full, more]

/-- So is the last one, and the data phase is over. -/
theorem endData_last {b : Boot σ} (foreign : b.module ≠ .olympus)
    (last : b.count = b.header.size) :
    endData b = ({ b with count := 0, msg := .dmy }, [.writeResponse noErr]) := by
  simp [endData, last, foreign]

section Data

variable {b : Boot σ} {word : UInt32} (running : b.running = true) (msg : b.msg = .data)
  (foreign : b.module ≠ .olympus)

include running msg foreign

/-- A word in the middle of a chunk is stored. -/
theorem bootStep_stored (inside : ¬ CompletesChunk b) :
    bootStep link b word = (b.withWord word, []) := by
  rw [bootStep_data link running msg]
  rcases runData_cases link foreign word with ⟨result, -⟩ | ⟨-, complete, -⟩ | ⟨-, complete, -⟩
  · obtain ⟨notFull, notLast⟩ := not_or.mp inside
    rw [result, endData_inside notFull notLast]
  · exact absurd complete inside
  · exact absurd complete inside

/-- The last word of a chunk that is answered. -/
theorem bootStep_sent (complete : CompletesChunk b) {env : σ}
    (answered : link b.module 0x02 ((b.withWord word).submoduleCommsBuff.load 0 64) b.env =
      (commsOk, env)) :
    bootStep link b word = emitting [(b.withWord word).message link 0x02 64]
      (endData { b.withWord word with env := env }) := by
  have ok : (b.withWord word).status link 0x02 64 = commsOk := congrArg Prod.fst answered
  have sent : (b.withWord word).sent link 0x02 64 = { b.withWord word with env := env } :=
    congrArg (fun result => { b.withWord word with env := result.2 }) answered
  rw [bootStep_data link running msg]
  rcases runData_cases link foreign word with ⟨-, inside⟩ | ⟨-, -, failed⟩ | ⟨result, -, -⟩
  · exact absurd complete inside
  · exact absurd ok failed
  · rw [result, sent]

end Data

/-- A word is stored, and nothing is filled up if the chunk is full or goes on. -/
theorem fillChunk_store (buff : Mem UInt8) {count size word : UInt32}
    (whole : (count + 4) % chunkSize = 0 ∨ count + 4 ≠ size) :
    fillChunk buff count size word =
      buff.store (count % chunkSize).toNat (wordBytes word) := by
  apply if_neg
  rintro ⟨last, short⟩
  rcases whole with full | more
  · exact short full
  · exact more last

/-- The image ends inside the chunk. -/
theorem fillChunk_zeros (buff : Mem UInt8) {count size word : UInt32}
    (short : (count + 4) % chunkSize ≠ 0) (last : count + 4 = size) :
    fillChunk buff count size word =
      (buff.store (count % chunkSize).toNat (wordBytes word)).store
        ((count + 4) % chunkSize).toNat
        (List.replicate (chunkSize - (count + 4) % chunkSize).toNat 0) :=
  if_pos ⟨last, short⟩

/-- A chunk of an image with its zeros. -/
def zeroFilled (bytes : List UInt8) : List UInt8 :=
  bytes ++ List.replicate (64 - bytes.length) 0

/-- The data phase for a submodule, with `done` in the buffer: the first bytes of
the chunk that starts at byte `start` of the image. -/
structure Collecting (b : Boot σ) (start : Nat) (done : List UInt8) : Prop where
  running : b.running = true
  msg : b.msg = .data
  foreign : b.module ≠ .olympus
  chunk : start % 64 = 0
  count : b.count.toNat = start + done.length
  buffer : b.submoduleCommsBuff.load 0 done.length = done

section Collect

variable {b : Boot σ} {start : Nat} {done : List UInt8} (now : Collecting b start done)
  (room : done.length + 4 ≤ 64)

include now room

/-- Where the word goes. -/
theorem Collecting.offset : (b.count % chunkSize).toNat = done.length := by
  have aligned := now.chunk
  rw [UInt32.toNat_mod, now.count]
  simp only [chunkSize, UInt32.reduceToNat]
  omega

/-- The word is behind the bytes before it. -/
theorem Collecting.stored (word : UInt32) :
    (b.submoduleCommsBuff.store (b.count % chunkSize).toNat (wordBytes word)).load 0
        (done.length + 4) = done ++ wordBytes word := by
  have behind := b.submoduleCommsBuff.load_store_behind 0 done.length (wordBytes word)
  rw [Nat.zero_add, now.buffer, length_wordBytes] at behind
  rw [now.offset room, behind]

variable (fits : start + done.length + 4 ≤ b.header.size.toNat)

include fits

/-- The count after a word. -/
theorem Collecting.counted : (b.count + 4).toNat = start + done.length + 4 := by
  have small := b.header.size.toNat_lt
  rw [UInt32.toNat_add, now.count]
  simp only [UInt32.reduceToNat]
  omega

/-- The word completes a chunk if 64 bytes are in, or the image is. -/
theorem Collecting.completes :
    CompletesChunk b ↔
      done.length + 4 = 64 ∨ start + done.length + 4 = b.header.size.toNat := by
  have counted := now.counted room fits
  have aligned := now.chunk
  rw [CompletesChunk, ← UInt32.toNat_inj, ← UInt32.toNat_inj, UInt32.toNat_mod, counted]
  simp only [chunkSize, UInt32.reduceToNat]
  omega

/-- A word that does not complete the chunk is added to the buffer. -/
theorem Collecting.add (word : UInt32) (more : start + done.length + 4 < b.header.size.toNat) :
    Collecting (b.withWord word) start (done ++ wordBytes word) := by
  have counted := now.counted room fits
  have notLast : b.count + 4 ≠ b.header.size := by
    intro last
    rw [last] at counted
    omega
  refine ⟨now.running, now.msg, now.foreign, now.chunk, ?_, ?_⟩
  · rw [withWord_count, counted, List.length_append, length_wordBytes]
    omega
  · show (fillChunk b.submoduleCommsBuff b.count b.header.size word).load 0 _ = _
    rw [fillChunk_store _ (.inr notLast), List.length_append, length_wordBytes,
      now.stored room]

/-- What the buffer holds when a word completes the chunk. -/
theorem Collecting.fill (word : UInt32)
    (complete : done.length + 4 = 64 ∨ start + done.length + 4 = b.header.size.toNat) :
    (b.withWord word).submoduleCommsBuff.load 0 64 = zeroFilled (done ++ wordBytes word) := by
  have counted := now.counted room fits
  have aligned := now.chunk
  have stored := now.stored room word
  have rest : ((b.count + 4) % chunkSize).toNat = (done.length + 4) % 64 := by
    rw [UInt32.toNat_mod, counted]
    simp only [chunkSize, UInt32.reduceToNat]
    omega
  show (fillChunk b.submoduleCommsBuff b.count b.header.size word).load 0 64 = _
  by_cases full : done.length + 4 = 64
  · have whole : (b.count + 4) % chunkSize = 0 := by
      rw [← UInt32.toNat_inj, rest]
      simp only [UInt32.reduceToNat]
      omega
    rw [full] at stored
    rw [fillChunk_store _ (.inl whole), stored, zeroFilled]
    simp [full]
  · -- the image ends inside the chunk: the rest of the buffer is cleared
    have short : (b.count + 4) % chunkSize ≠ 0 := by
      rw [ne_eq, ← UInt32.toNat_inj, rest]
      simp only [UInt32.reduceToNat]
      omega
    have last : b.count + 4 = b.header.size := by
      rw [← UInt32.toNat_inj, counted, complete.resolve_left full]
    have place : ((b.count + 4) % chunkSize).toNat = done.length + 4 := by
      rw [rest]
      omega
    have zeros : (chunkSize - (b.count + 4) % chunkSize).toNat = 64 - (done.length + 4) := by
      have le : (b.count + 4) % chunkSize ≤ chunkSize := by
        rw [UInt32.le_iff_toNat_le, place]
        exact room
      rw [UInt32.toNat_sub_of_le _ _ le, place]
      rfl
    have grown := (b.submoduleCommsBuff.store (b.count % chunkSize).toNat
      (wordBytes word)).load_store_behind 0 (done.length + 4)
      (List.replicate (64 - (done.length + 4)) 0)
    rw [List.length_replicate, Nat.zero_add, Nat.add_sub_cancel' room, stored] at grown
    rw [fillChunk_zeros _ short last, place, zeros, grown, zeroFilled]
    simp

end Collect

/-- What a chunk leaves: nothing but the buffer, the other side and the count has
changed, and the data phase is over if the image is in. -/
structure Passed (b b' : Boot σ) (count : Nat) (env : σ) : Prop where
  running : b'.running = true
  module : b'.module = b.module
  header : b'.header = b.header
  env : b'.env = env
  more : count < b.header.size.toNat → b'.msg = .data ∧ b'.count.toNat = count
  last : count = b.header.size.toNat → b'.msg = .dmy ∧ b'.count = 0

/-- The last word of a chunk. -/
theorem Collecting.pass {b : Boot σ} {start : Nat} {done : List UInt8}
    (now : Collecting b start done) (room : done.length + 4 ≤ 64)
    (fits : start + done.length + 4 ≤ b.header.size.toNat) (word : UInt32)
    (complete : done.length + 4 = 64 ∨ start + done.length + 4 = b.header.size.toNat) {env : σ}
    (answered : link b.module 0x02 (zeroFilled (done ++ wordBytes word)) b.env =
      (commsOk, env)) :
    Passed b (bootStep link b word).1 (start + done.length + 4) env ∧
      responses (bootStep link b word).2 = [noErr] := by
  have counted := now.counted room fits
  rw [← now.fill room fits word complete] at answered
  rw [bootStep_sent link now.running now.msg now.foreign
    ((now.completes room fits).mpr complete) answered]
  by_cases last : b.count + 4 = b.header.size
  · have foreign : ({ b.withWord word with env := env } : Boot σ).module ≠ .olympus := now.foreign
    rw [endData_last foreign last]
    refine ⟨⟨now.running, rfl, rfl, rfl, ?_, ?_⟩, rfl⟩
    · intro more
      rw [last] at counted
      omega
    · intro _
      exact ⟨rfl, rfl⟩
  · have full := ((now.completes room fits).mpr complete).resolve_right last
    have done : endData ({ b.withWord word with env := env } : Boot σ) = _ :=
      endData_full full last
    rw [done]
    refine ⟨⟨now.running, rfl, rfl, rfl, ?_, ?_⟩, rfl⟩
    · intro _
      exact ⟨now.msg, counted⟩
    · intro same
      rw [← counted] at same
      exact absurd (UInt32.toNat_inj.mp same) last

/-- **A chunk**, by induction on the bytes still to come: it is passed on with its
zeros and acknowledged once. -/
theorem chunk_run (bytes : List UInt8) (whole : bytes.length % 4 = 0) (nonempty : bytes ≠ []) :
    ∀ (b : Boot σ) (start : Nat) (done : List UInt8) (env : σ), Collecting b start done →
    done.length + bytes.length ≤ 64 →
    start + done.length + bytes.length ≤ b.header.size.toNat →
    (done.length + bytes.length = 64 ∨
      start + done.length + bytes.length = b.header.size.toNat) →
    link b.module 0x02 (zeroFilled (done ++ bytes)) b.env = (commsOk, env) →
    Passed b ((bootFSM link).after b (leWords bytes)) (start + done.length + bytes.length) env ∧
      responses ((bootFSM link).outputs b (leWords bytes)) = [noErr] := by
  induction bytes, whole using whole_words with
  | nil => exact absurd rfl nonempty
  | word b₀ b₁ b₂ b₃ rest whole ih =>
      intro b start done env now room fits complete answered
      simp only [List.length_cons] at room fits complete
      have word : wordBytes (leWord [b₀, b₁, b₂, b₃]) = [b₀, b₁, b₂, b₃] := wordBytes_leWord rfl
      -- the word is the last of the chunk exactly if no byte is left
      by_cases last : rest = []
      · subst last
        have result := now.pass link room fits (leWord [b₀, b₁, b₂, b₃]) complete
          (by rw [word]; exact answered)
        simpa [Fsm.next, Fsm.emit, bootFSM, leWords] using result
      · have some : 0 < rest.length := List.length_pos_iff.mpr last
        have inside : ¬ CompletesChunk b := by
          rw [now.completes (by omega) (by omega)]
          omega
        have step : (bootFSM link).step b (leWord [b₀, b₁, b₂, b₃]) = _ :=
          bootStep_stored link now.running now.msg now.foreign inside
        have next := now.add (by omega) (by omega) (leWord [b₀, b₁, b₂, b₃]) (by omega)
        rw [word] at next
        have grown : (done ++ [b₀, b₁, b₂, b₃]).length = done.length + 4 := by simp
        obtain ⟨passed, answer⟩ := ih last _ start _ env next
          (by rw [grown]; omega) (by rw [grown, withWord_header]; omega)
          (by rw [grown, withWord_header]; omega) (by rw [List.append_assoc]; exact answered)
        rw [grown, show start + (done.length + 4) + rest.length =
          start + done.length + (rest.length + 1 + 1 + 1 + 1) by omega] at passed
        simp only [leWords, Fsm.after_cons, Fsm.outputs_cons, Fsm.next, Fsm.emit, step,
          List.length_cons]
        exact ⟨⟨passed.running, passed.module, passed.header, passed.env, passed.more,
          passed.last⟩, answer⟩

/-! ## The checksum -/

/-- A checksum that the submodule accepts. -/
theorem checksum_call {b : Boot σ} (idle : b.Idle) (foreign : b.module ≠ .olympus)
    {sum : UInt32} {env : σ}
    (answered : link b.module 0x03 (wordBytes sum) b.env = (commsOk, env)) :
    ∃ b', (bootFSM link).after b [1, sum] = b' ∧
      responses ((bootFSM link).outputs b [1, sum]) = [noErr] ∧ b'.Idle ∧ b'.env = env := by
  have type := bootStep_dmy_checksum link idle.running idle.msg
  have word : bootStep link { b with msg := .checksum } sum =
      runChecksum link { b with msg := .checksum } sum :=
    bootStep_checksum link idle.running rfl
  have loaded := b.submoduleCommsBuff.load_store_self 0 (wordBytes sum)
  rw [length_wordBytes] at loaded
  simp only [runChecksum, if_neg foreign, Boot.message, Boot.status, Boot.sent, Boot.finish,
    emitting, loaded, answered, ne_eq, not_true, if_false] at word
  simp only [Fsm.after_cons, Fsm.after_nil, Fsm.outputs_cons, Fsm.outputs_nil, Fsm.next, Fsm.emit,
    bootFSM, type, word]
  exact ⟨_, rfl, rfl, ⟨idle.running, rfl, idle.count⟩, rfl⟩

end OlympusFirmware.MasterBoot
