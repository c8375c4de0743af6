import OlympusFirmware.MasterBoot.Steps

/-!
# Recovery of the master's bootloader from errors

After an error the host gives up on the module and sends the next header. That
header is read as from reset if the machine is between messages with `count`
zero (`idle_parses`). Every error exit goes back to `DMY`, and the header's exits
clear `count`; but the exit for a failed data exchange does not, and a later
failed checksum keeps what it finds. So the errors of a run are all recovered
from if and only if no data exchange fails, except where the 32-bit count has
just wrapped to zero.
-/

namespace OlympusFirmware.MasterBoot

open OlympusFirmware.Lib

variable {σ : Type} (link : Link σ)

/-- Two states that differ in nothing a header depends on. -/
structure SameHeader (b r : Boot σ) : Prop where
  msg : b.msg = r.msg
  count : b.count = r.count
  header : b.header = r.header
  module : b.module = r.module
  env : b.env = r.env

/-- The next header is read as from reset: the same outputs (exchanges, erases
and answer), and the same message state, header, module and other side after
it. -/
def ParsesAsReset (b : Boot σ) : Prop :=
  ∀ dkey size fkey : UInt32,
    (bootFSM link).outputs b [2, dkey, size, fkey] =
        (bootFSM link).outputs (.reset b.env) [2, dkey, size, fkey] ∧
      SameHeader ((bootFSM link).after b [2, dkey, size, fkey])
        ((bootFSM link).after (.reset b.env) [2, dkey, size, fkey])

variable {link}

theorem SameHeader.status {b r : Boot σ} (same : SameHeader b r) (msgType : UInt8) :
    b.status link msgType 0 = r.status link msgType 0 := by
  simp [Boot.status, same.module, same.env]

theorem SameHeader.message {b r : Boot σ} (same : SameHeader b r) (msgType : UInt8) :
    b.message link msgType 0 = r.message link msgType 0 := by
  simp [Boot.message, same.module, same.status]

theorem SameHeader.sent {b r : Boot σ} (same : SameHeader b r) (msgType : UInt8) :
    SameHeader (b.sent link msgType 0) (r.sent link msgType 0) :=
  ⟨same.msg, same.count, same.header, same.module, by simp [Boot.sent, same.module, same.env]⟩

/-- Two computations that emit the same and end alike. -/
def SameResult (x y : Boot σ × List BootOutput) : Prop :=
  x.2 = y.2 ∧ SameHeader x.1 y.1

theorem SameHeader.finish {b r : Boot σ} (same : SameHeader b r) (response : UInt8) :
    SameResult (b.finish response) (r.finish response) :=
  ⟨rfl, rfl, same.count, same.header, same.module, same.env⟩

theorem SameHeader.expectOk {b r : Boot σ} (same : SameHeader b r) (msgType err : UInt8)
    {next : Boot σ → Boot σ × List BootOutput}
    (goesOn : ∀ b r : Boot σ, SameHeader b r → SameResult (next b) (next r)) :
    SameResult (expectOk link b msgType err next) (expectOk link r msgType err next) := by
  simp only [MasterBoot.expectOk, same.status, same.message]
  split
  · have alike : SameHeader (b.sent link msgType 0) (r.sent link msgType 0) := same.sent msgType
    exact ⟨rfl, (alike.finish err).2⟩
  · obtain ⟨outputs, state⟩ := goesOn (b.sent link msgType 0) (r.sent link msgType 0)
      (same.sent msgType)
    exact ⟨congrArg (_ :: ·) outputs, state⟩

/-- The buffer's old contents do not reach the submodule. -/
theorem SameHeader.sendHeader {b r : Boot σ} (same : SameHeader b r) :
    SameResult (sendHeader link b) (sendHeader link r) := by
  have loaded : ∀ buff : Mem UInt8, (buff.store 0
      (wordBytes r.header.size ++ wordBytes r.header.fkey)).load 0 8 =
      wordBytes r.header.size ++ wordBytes r.header.fkey := by
    intro buff
    have whole := buff.load_store_self 0 (wordBytes r.header.size ++ wordBytes r.header.fkey)
    simpa using whole
  refine ⟨?_, rfl, same.count, same.header, same.module, ?_⟩
  · simp [MasterBoot.sendHeader, Boot.message, Boot.status, Boot.finish, same.header,
      same.module, same.env, loaded]
  · simp [MasterBoot.sendHeader, Boot.finish, Boot.sent, same.header, same.module, same.env,
      loaded]

theorem SameHeader.restartSubmodule {b r : Boot σ} (same : SameHeader b r) :
    SameResult (restartSubmodule link b) (restartSubmodule link r) :=
  same.expectOk _ _ fun _ _ same => same.expectOk _ _ fun _ _ same =>
    same.expectOk _ _ fun _ _ same => same.sendHeader

/-- Between messages a header is read as from reset. -/
theorem idle_parses {b : Boot σ} (idle : b.Idle) : ParsesAsReset link b := by
  intro dkey size fkey
  have idleReset : (Boot.reset b.env).Idle := ⟨rfl, rfl, rfl⟩
  obtain ⟨reached, emitted⟩ := header_run link idle dkey size fkey
  obtain ⟨reachedReset, emittedReset⟩ := header_run link idleReset dkey size fkey
  rw [reached, emitted, reachedReset, emittedReset]
  have third := parsing_third b dkey size
  have thirdReset := parsing_third (Boot.reset b.env) dkey size
  have same : SameHeader ((b.parsing dkey size).withKey fkey)
      (((Boot.reset b.env).parsing dkey size).withKey fkey) := ⟨rfl, rfl, rfl, rfl, rfl⟩
  by_cases invalid : fkey ≠ eraseFlashKey ∨ moduleOfKey dkey = .none
  · rw [runHeader_invalid link third invalid, runHeader_invalid link thirdReset invalid]
    exact same.finish errInvalidHeader
  · obtain ⟨key, known⟩ := not_or.mp invalid
    rw [not_not] at key
    by_cases own : dkey = olympusKey
    · rw [runHeader_olympus link third own key, runHeader_olympus link thirdReset own key]
      exact ⟨rfl, rfl, rfl, rfl, rfl, rfl⟩
    · rw [runHeader_submodule link third known own key,
        runHeader_submodule link thirdReset known own key]
      exact same.restartSubmodule

variable (link)

/-- The step answers with an error because an exchange failed or a header was
invalid: with any error but that of a wrong checksum for Olympus' own image. -/
def Fails (b : Boot σ) (word : UInt32) : Prop :=
  (∃ response ∈ responses (bootStep link b word).2, response ≠ noErr) ∧
    ¬ (b.msg = .checksum ∧ b.module = .olympus)

/-- The machine is between messages with a zero count, and reads the next header
as from reset. -/
structure Recovered (b : Boot σ) : Prop where
  msg : b.msg = .dmy
  count : b.count = 0
  parses : ParsesAsReset link b

/-- The word completes a chunk and the submodule does not take it. -/
def DataExchangeFails (b : Boot σ) (word : UInt32) : Prop :=
  b.running = true ∧ b.msg = .data ∧ b.module ≠ .olympus ∧ CompletesChunk b ∧
    (b.withWord word).status link 0x02 64 ≠ commsOk

variable {link}

/-- The count is nonzero only inside a header or an image. -/
def CountScoped (b : Boot σ) : Prop :=
  b.running = true → b.msg ≠ .data → b.msg ≠ .header → b.count = 0

/-- The end of a data word: still in the data phase, or between messages; only
`NO_ERR` is ever answered. -/
theorem endData_scoped {b : Boot σ} (msg : b.msg = .data) :
    CountScoped (endData b).1 ∧ ∀ response ∈ responses (endData b).2, response = noErr := by
  unfold endData
  by_cases last : b.count = b.header.size
  · refine ⟨?_, ?_⟩
    · simp [CountScoped, last]
    · by_cases own : b.module = .olympus <;> simp [last, own]
  · refine ⟨?_, ?_⟩
    · simp [CountScoped, last, msg]
    · by_cases chunk : b.count % chunkSize = 0 <;> simp [last, chunk]

variable (link) in
/-- The step keeps the count in its scope, and an error leaves the machine
recovered. -/
def Recovers (b : Boot σ) (word : UInt32) : Prop :=
  CountScoped (bootStep link b word).1 ∧
    (Fails link b word → Recovered link (bootStep link b word).1)

/-- A step that ends between messages recovers, whatever it answers. -/
theorem recovers_of_idle {b : Boot σ} {word : UInt32} (idle : (bootStep link b word).1.Idle) :
    Recovers link b word :=
  ⟨fun _ _ _ => idle.count, fun _ => ⟨idle.msg, idle.count, idle_parses idle⟩⟩

/-- So does one that reports no error. -/
theorem recovers_of_noErr {b : Boot σ} {word : UInt32}
    (inScope : CountScoped (bootStep link b word).1)
    (fine : ∀ response ∈ responses (bootStep link b word).2, response = noErr) :
    Recovers link b word := by
  refine ⟨inScope, ?_⟩
  rintro ⟨⟨response, member, error⟩, -⟩
  exact absurd (fine response member) error

/-- What a failed data exchange leaves: the count of the chunk. -/
theorem dataExchangeFails_spec {b : Boot σ} {word : UInt32}
    (failed : DataExchangeFails link b word) :
    Fails link b word ∧ (bootStep link b word).1.running = true ∧
      (bootStep link b word).1.msg = .dmy ∧ (bootStep link b word).1.count = b.count + 4 := by
  obtain ⟨running, msg, foreign, complete, refused⟩ := failed
  have step : bootStep link b word = runData link b word := bootStep_data link running msg
  rcases runData_cases link foreign word with ⟨-, short⟩ | ⟨result, -⟩ | ⟨-, -, taken⟩
  · exact absurd complete short
  · rw [Fails, step, result]
    refine ⟨⟨⟨errDataWrite, ?_, by decide⟩, ?_⟩, running, rfl, rfl⟩
    · simp [Boot.message, Boot.finish]
    · simp [msg]
  · exact absurd taken refused

/-- The step lemma, data phase. -/
theorem recovers_data {b : Boot σ} {word : UInt32} (running : b.running = true)
    (msg : b.msg = .data) (fine : ¬ DataExchangeFails link b word ∨ b.count + 4 = 0) :
    Recovers link b word := by
  by_cases failed : DataExchangeFails link b word
  · -- the count has wrapped to zero
    obtain ⟨-, running', msg', count⟩ := dataExchangeFails_spec failed
    rw [fine.resolve_left (not_not.mpr failed)] at count
    exact recovers_of_idle ⟨running', msg', count⟩
  · have step : bootStep link b word = runData link b word := bootStep_data link running msg
    by_cases own : b.module = .olympus
    · have ended := endData_scoped (b := { b with
        dataAddr := b.dataAddr + 4
        count := b.count + 4
        checksum := b.checksum + word }) msg
      rw [runData, if_pos own] at step
      refine recovers_of_noErr ?_ ?_
      · rw [step]
        exact ended.1
      · rw [step]
        simpa using ended.2
    · rcases runData_cases link own word with ⟨result, -⟩ | ⟨-, complete, refused⟩ | ⟨result, -⟩
      · have ended := endData_scoped (b := b.withWord word) msg
        rw [result] at step
        rw [← step] at ended
        exact recovers_of_noErr ended.1 ended.2
      · exact absurd ⟨running, msg, own, complete, refused⟩ failed
      · have ended := endData_scoped (b := (b.withWord word).sent link 0x02 64) msg
        rw [result] at step
        refine recovers_of_noErr ?_ ?_
        · rw [step]
          exact ended.1
        · rw [step]
          simpa [Boot.message] using ended.2

/-- The step lemma, header: after its third word the machine is idle, and before
that it says nothing. -/
theorem recovers_header {b : Boot σ} (word : UInt32) (running : b.running = true)
    (msg : b.msg = .header) : Recovers link b word := by
  have step : bootStep link b word = runHeader link b word := bootStep_header link running msg
  by_cases third : b.count ≠ 0 ∧ b.count ≠ 1
  · apply recovers_of_idle
    rw [step]
    rcases runHeader_cases link third with ⟨result, -⟩ | ⟨result, -⟩ | ⟨result, -⟩
    · rw [result]
      exact ⟨running, rfl, rfl⟩
    · rw [result]
      exact ⟨running, rfl, rfl⟩
    · obtain ⟨env, buff, outputs, response, restart, -⟩ :=
        restartSubmodule_spec link (b.withKey word)
      rw [result, restart]
      exact ⟨running, rfl, rfl⟩
  · obtain ⟨header, result⟩ := runHeader_early link third word
    rw [result] at step
    refine recovers_of_noErr ?_ ?_
    · rw [step]
      intro _ _ other
      exact absurd msg other
    · rw [step]
      intro response member
      cases member

/-- The step lemma, checksum: the count found is the count left. -/
theorem recovers_checksum {b : Boot σ} (word : UInt32) (running : b.running = true)
    (msg : b.msg = .checksum) (zero : b.count = 0) : Recovers link b word := by
  apply recovers_of_idle
  rw [bootStep_checksum link running msg]
  by_cases own : b.module = .olympus
  · rw [runChecksum, if_pos own]
    exact ⟨running, rfl, zero⟩
  · obtain ⟨env, buff, outputs, response, result, -⟩ := runChecksum_spec link own word
    rw [result]
    exact ⟨running, rfl, zero⟩

/-- The step lemma, message type: answered `NO_ERR` or not at all. -/
theorem recovers_dmy {b : Boot σ} (word : UInt32) (running : b.running = true)
    (msg : b.msg = .dmy) (zero : b.count = 0) : Recovers link b word := by
  have step : bootStep link b word = runDmy b word := bootStep_dmy link running msg
  have kept : (runDmy b word).1.count = b.count ∧
      ∀ response ∈ responses (runDmy b word).2, response = noErr := by
    unfold runDmy
    split
    · exact ⟨rfl, by simp⟩
    · exact ⟨rfl, by simp⟩
    · exact ⟨rfl, by simp⟩
  rw [← step] at kept
  refine recovers_of_noErr ?_ kept.2
  intro _ _ _
  rw [kept.1, zero]

/-- The step lemma, a message of no known type: dropped. -/
theorem recovers_default {b : Boot σ} (word : UInt32) (running : b.running = true)
    (msg : b.msg = .jump ∨ ∃ code, b.msg = .other code) (zero : b.count = 0) :
    Recovers link b word := by
  apply recovers_of_idle
  rw [bootStep_default link running msg]
  exact ⟨running, rfl, zero⟩

/-- The step lemma. -/
theorem recovers_step (b : Boot σ) (word : UInt32) (inScope : CountScoped b)
    (fine : ¬ DataExchangeFails link b word ∨ b.count + 4 = 0) : Recovers link b word := by
  by_cases running : b.running = true
  swap
  · refine recovers_of_noErr ?_ ?_
    · rwa [bootStep_stopped link running]
    · rw [bootStep_stopped link running]
      intro response member
      cases member
  have zero := inScope running
  cases msg : b.msg with
  | data => exact recovers_data running msg fine
  | header => exact recovers_header word running msg
  | checksum => exact recovers_checksum word running msg (zero (by simp [msg]) (by simp [msg]))
  | dmy => exact recovers_dmy word running msg (zero (by simp [msg]) (by simp [msg]))
  | jump => exact recovers_default word running (.inl msg) (zero (by simp [msg]) (by simp [msg]))
  | other code =>
      exact recovers_default word running (.inr ⟨code, msg⟩) (zero (by simp [msg]) (by simp [msg]))

variable (link)

/-- **Error recovery.** For every word sequence from reset and every behaviour of
the submodules: every error for a failed exchange or an invalid header leaves the
machine as from reset for the next header if and only if no data exchange fails,
other than one at which the 32-bit count wraps to zero. -/
theorem errors_recovered_iff (env : σ) (words : List UInt32) :
    (bootFSM link).EveryStep
        (fun b word => Fails link b word → Recovered link ((bootFSM link).next b word))
        (.reset env) words ↔
      (bootFSM link).EveryStep
        (fun b word => ¬ DataExchangeFails link b word ∨ b.count + 4 = 0)
        (.reset env) words := by
  constructor
  · rw [Fsm.everyStep_iff, Fsm.everyStep_iff]
    intro recovered pre word post split
    by_contra bad
    obtain ⟨failed, left⟩ := not_or.mp bad
    obtain ⟨error, -, -, count⟩ := dataExchangeFails_spec (not_not.mp failed)
    have zero := (recovered pre word post split error).count
    exact left (count.symm.trans zero)
  · exact (bootFSM link).everyStep_of_invariant (I := CountScoped)
      (fun b word inScope fine => recovers_step b word inScope fine) (fun _ _ _ => rfl)

/-- Submodules that answer from a list, and then always with success. -/
def scripted : Link (List UInt8) := fun _ _ _ script => (script.headD commsOk, script.tail)

/-- An update of Apollo up to the last word of its first chunk. -/
def apolloChunk : List UInt32 :=
  [2, apolloKey, 128, eraseFlashKey, 0] ++ List.replicate 16 0

/-- The restart succeeds and the chunk is refused: Apollo's update has failed, and
`count` is left at 64. Hermes' header is then read as the end of another one and
rejected, where from reset it is accepted. -/
theorem failed_chunk_rejects_next_module :
    Fails scripted ((bootFSM scripted).after (.reset [0xAA, 0xAA, 0xAA, 0xAA, 0x05])
        apolloChunk.dropLast) 0 ∧
      ¬ Recovered scripted
        ((bootFSM scripted).after (.reset [0xAA, 0xAA, 0xAA, 0xAA, 0x05]) apolloChunk) ∧
      responses ((bootFSM scripted).outputs
        ((bootFSM scripted).after (.reset [0xAA, 0xAA, 0xAA, 0xAA, 0x05]) apolloChunk)
        [2, hermesKey, 64, eraseFlashKey]) = [errInvalidHeader] ∧
      responses ((bootFSM scripted).outputs (.reset []) [2, hermesKey, 64, eraseFlashKey]) =
        [noErr] := by
  refine ⟨⟨⟨errDataWrite, by decide +kernel, by decide⟩, by decide +kernel⟩, ?_,
    by decide +kernel, by decide +kernel⟩
  intro recovered
  have count := recovered.count
  revert count
  decide +kernel

end OlympusFirmware.MasterBoot
