import OlympusFirmware.MasterBoot.Boot

/-!
# What a step of the bootloader can do

The outputs of a step are projected to the flash driver's writes (`flashOps`)
and to the response bytes (`responses`). Only two kinds of step touch the flash:
a data word for Olympus itself (`Programs`) and the last word of an accepted
Olympus header (`AcceptsOlympus`); `flashOps_bootStep` says so once, and
`dataAddr_bootStep` that the write pointer moves with the first kind and never
otherwise. The lemmas after that follow a header, a data phase and a checksum.
-/

namespace OlympusFirmware.MasterBoot

open OlympusFirmware.Lib

/-- The flash writes among the outputs. -/
def flashOps (outputs : List BootOutput) : List FlashOp :=
  outputs.filterMap fun
    | .flash op => some op
    | _ => none

/-- The response bytes among the outputs. -/
def responses (outputs : List BootOutput) : List UInt8 :=
  outputs.filterMap fun
    | .writeResponse response => some response
    | _ => none

@[simp] theorem flashOps_nil : flashOps [] = [] := rfl

@[simp] theorem flashOps_append (xs ys : List BootOutput) :
    flashOps (xs ++ ys) = flashOps xs ++ flashOps ys := List.filterMap_append

@[simp] theorem flashOps_flash (op : FlashOp) (rest : List BootOutput) :
    flashOps (.flash op :: rest) = op :: flashOps rest := rfl

@[simp] theorem flashOps_writeResponse (response : UInt8) (rest : List BootOutput) :
    flashOps (.writeResponse response :: rest) = flashOps rest := rfl

@[simp] theorem flashOps_messageSubmodule (module : Module) (msgType : UInt8)
    (data : List UInt8) (status : UInt8) (rest : List BootOutput) :
    flashOps (.messageSubmodule module msgType data status :: rest) = flashOps rest := rfl

@[simp] theorem flashOps_jumpToApp (rest : List BootOutput) :
    flashOps (.jumpToApp :: rest) = flashOps rest := rfl

@[simp] theorem flashOps_map_flash (ops : List FlashOp) : flashOps (ops.map .flash) = ops := by
  induction ops with
  | nil => rfl
  | cons op ops ih => simp [ih]

@[simp] theorem responses_nil : responses [] = [] := rfl

@[simp] theorem responses_append (xs ys : List BootOutput) :
    responses (xs ++ ys) = responses xs ++ responses ys := List.filterMap_append

@[simp] theorem responses_writeResponse (response : UInt8) (rest : List BootOutput) :
    responses (.writeResponse response :: rest) = response :: responses rest := rfl

@[simp] theorem responses_flash (op : FlashOp) (rest : List BootOutput) :
    responses (.flash op :: rest) = responses rest := rfl

@[simp] theorem responses_messageSubmodule (module : Module) (msgType : UInt8)
    (data : List UInt8) (status : UInt8) (rest : List BootOutput) :
    responses (.messageSubmodule module msgType data status :: rest) = responses rest := rfl

@[simp] theorem responses_jumpToApp (rest : List BootOutput) :
    responses (.jumpToApp :: rest) = responses rest := rfl

@[simp] theorem responses_map_flash (ops : List FlashOp) :
    responses (ops.map .flash) = [] := by
  induction ops with
  | nil => rfl
  | cons op ops ih => simp [ih]

variable {σ : Type} (link : Link σ)

@[simp] theorem emitting_fst (outputs : List BootOutput) (rest : Boot σ × List BootOutput) :
    (emitting outputs rest).1 = rest.1 := rfl

@[simp] theorem emitting_snd (outputs : List BootOutput) (rest : Boot σ × List BootOutput) :
    (emitting outputs rest).2 = outputs ++ rest.2 := rfl

section Fields

variable (b : Boot σ) (word : UInt32) (msgType : UInt8) (txSize : Nat)

@[simp] theorem withWord_dataAddr : (b.withWord word).dataAddr = b.dataAddr := rfl
@[simp] theorem withWord_msg : (b.withWord word).msg = b.msg := rfl
@[simp] theorem withWord_count : (b.withWord word).count = b.count + 4 := rfl
@[simp] theorem withWord_module : (b.withWord word).module = b.module := rfl
@[simp] theorem withWord_header : (b.withWord word).header = b.header := rfl
@[simp] theorem withWord_running : (b.withWord word).running = b.running := rfl

@[simp] theorem sent_dataAddr : (b.sent link msgType txSize).dataAddr = b.dataAddr := rfl
@[simp] theorem sent_msg : (b.sent link msgType txSize).msg = b.msg := rfl
@[simp] theorem sent_count : (b.sent link msgType txSize).count = b.count := rfl
@[simp] theorem sent_module : (b.sent link msgType txSize).module = b.module := rfl
@[simp] theorem sent_header : (b.sent link msgType txSize).header = b.header := rfl
@[simp] theorem sent_running : (b.sent link msgType txSize).running = b.running := rfl

end Fields

/-! ## One step, by message -/

section Step

variable {b : Boot σ} {word : UInt32}

theorem bootStep_stopped (stopped : b.running ≠ true) : bootStep link b word = (b, []) :=
  if_neg stopped

variable (running : b.running = true)

include running

theorem bootStep_data (msg : b.msg = .data) : bootStep link b word = runData link b word := by
  rw [bootStep, if_pos running, msg]

theorem bootStep_checksum (msg : b.msg = .checksum) :
    bootStep link b word = runChecksum link b word := by
  rw [bootStep, if_pos running, msg]

theorem bootStep_header (msg : b.msg = .header) :
    bootStep link b word = runHeader link b word := by
  rw [bootStep, if_pos running, msg]

theorem bootStep_dmy (msg : b.msg = .dmy) : bootStep link b word = runDmy b word := by
  rw [bootStep, if_pos running, msg]

/-- `DATA` is acknowledged at once. -/
theorem bootStep_dmy_data (msg : b.msg = .dmy) :
    bootStep link b 0 = ({ b with msg := .data }, [.writeResponse noErr]) := by
  rw [bootStep_dmy link running msg]
  rfl

/-- `CHECKSUM` is followed by the checksum. -/
theorem bootStep_dmy_checksum (msg : b.msg = .dmy) :
    bootStep link b 1 = ({ b with msg := .checksum }, []) := by
  rw [bootStep_dmy link running msg]
  rfl

/-- A message of no known type is dropped with the word after it. -/
theorem bootStep_default (msg : b.msg = .jump ∨ ∃ code, b.msg = .other code) :
    bootStep link b word = ({ b with msg := .dmy }, []) := by
  rcases msg with jump | ⟨code, other⟩
  · rw [bootStep, if_pos running, jump]
  · rw [bootStep, if_pos running, other]

end Step

/-! ## Which steps touch the flash -/

/-- The step programs a word of the Olympus image. -/
def Programs (b : Boot σ) (_word : UInt32) : Bool :=
  b.running && b.msg = .data && b.module = .olympus

/-- The step completes a valid header for Olympus. -/
def AcceptsOlympus (b : Boot σ) (word : UInt32) : Prop :=
  b.running = true ∧ b.msg = .header ∧ (b.count ≠ 0 ∧ b.count ≠ 1) ∧
    b.header.dkey = olympusKey ∧ word = eraseFlashKey

instance (b : Boot σ) (word : UInt32) : Decidable (AcceptsOlympus b word) :=
  inferInstanceAs (Decidable (_ ∧ _))

theorem moduleOfKey_eq_olympus {dkey : UInt32} :
    moduleOfKey dkey = .olympus ↔ dkey = olympusKey := by
  unfold moduleOfKey
  constructor
  · intro found
    split at found
    · assumption
    · repeat' split at found
      all_goals simp at found
  · intro key
    rw [if_pos key]

theorem endData_spec (b : Boot σ) :
    (endData b).1.dataAddr = b.dataAddr ∧
      flashOps (endData b).2 =
        if b.count = b.header.size ∧ b.module = .olympus then [completeWrite] else [] := by
  unfold endData
  by_cases last : b.count = b.header.size
  · by_cases own : b.module = .olympus <;> simp [last, own]
  · by_cases chunk : b.count % chunkSize = 0 <;> simp [last, chunk]

/-- Whatever the submodule answers, a restart ends between messages with one
response, and changes nothing but the buffer and the other side. -/
theorem restartSubmodule_spec (b : Boot σ) :
    ∃ env buff outputs response,
      restartSubmodule link b =
        ({ b with msg := .dmy, submoduleCommsBuff := buff, env := env }, outputs) ∧
      flashOps outputs = [] ∧ responses outputs = [response] := by
  -- one branch for each exchange that may fail
  simp only [restartSubmodule, expectOk, sendHeader, Boot.message, emitting]
  split
  · exact ⟨_, _, _, _, rfl, rfl, rfl⟩
  · split
    · exact ⟨_, _, _, _, rfl, rfl, rfl⟩
    · split <;> exact ⟨_, _, _, _, rfl, rfl, rfl⟩

/-- The checksum of a submodule's image, whatever it answers. -/
theorem runChecksum_spec {b : Boot σ} (foreign : b.module ≠ .olympus) (word : UInt32) :
    ∃ env buff outputs response,
      runChecksum link b word =
        ({ b with msg := .dmy, submoduleCommsBuff := buff, env := env }, outputs) ∧
      flashOps outputs = [] ∧ responses outputs = [response] := by
  rw [runChecksum, if_neg foreign]
  exact ⟨_, _, _, _, rfl, rfl, rfl⟩

/-- A data word for a submodule completes a chunk. -/
def CompletesChunk (b : Boot σ) : Prop :=
  (b.count + 4) % chunkSize = 0 ∨ b.count + 4 = b.header.size

instance (b : Boot σ) : Decidable (CompletesChunk b) := inferInstanceAs (Decidable (_ ∨ _))

/-- The three outcomes of a data word for a submodule: stored, or sent as the end
of a chunk without and with success. -/
theorem runData_cases {b : Boot σ} (foreign : b.module ≠ .olympus) (word : UInt32) :
    (runData link b word = endData (b.withWord word) ∧ ¬ CompletesChunk b) ∨
      (runData link b word = emitting [(b.withWord word).message link 0x02 64]
          (((b.withWord word).sent link 0x02 64).finish errDataWrite) ∧
        CompletesChunk b ∧ (b.withWord word).status link 0x02 64 ≠ commsOk) ∨
      (runData link b word = emitting [(b.withWord word).message link 0x02 64]
          (endData ((b.withWord word).sent link 0x02 64)) ∧
        CompletesChunk b ∧ (b.withWord word).status link 0x02 64 = commsOk) := by
  rw [runData, if_neg foreign]
  by_cases complete : CompletesChunk b
  · by_cases failed : (b.withWord word).status link 0x02 64 ≠ commsOk
    · refine .inr (.inl ⟨Eq.trans (if_pos complete) ?_, complete, failed⟩)
      rw [if_pos failed]
    · refine .inr (.inr ⟨Eq.trans (if_pos complete) ?_, complete, not_not.mp failed⟩)
      rw [if_neg failed]
  · exact .inl ⟨if_neg complete, complete⟩

theorem flashOps_runData (b : Boot σ) (word : UInt32) :
    flashOps (runData link b word).2 =
      if b.module = .olympus then
        writeFlash b.dataAddr word :: (if b.count + 4 = b.header.size then [completeWrite] else [])
      else [] := by
  by_cases own : b.module = .olympus
  · simp [runData, own, endData_spec]
  · rw [if_neg own]
    rcases runData_cases link own word with ⟨result, -⟩ | ⟨result, -⟩ | ⟨result, -⟩
    · simp [result, own, endData_spec]
    · simp [result, Boot.message, Boot.finish]
    · simp [result, Boot.message, own, endData_spec]

/-- The first two words of a header are stored. -/
theorem runHeader_early {b : Boot σ} (early : ¬ (b.count ≠ 0 ∧ b.count ≠ 1)) (word : UInt32) :
    ∃ header, runHeader link b word =
      ({ b with header := header, count := b.count + 1 }, []) := by
  unfold runHeader
  by_cases first : b.count = 0
  · rw [if_pos first]
    exact ⟨_, rfl⟩
  · have second : b.count = 1 := by
      by_contra other
      exact early ⟨first, other⟩
    rw [if_neg first, if_pos second]
    exact ⟨_, rfl⟩

section Header

variable {b : Boot σ} {word : UInt32} (third : b.count ≠ 0 ∧ b.count ≠ 1)

include third

/-- A header with a wrong flash key or an unknown device. -/
theorem runHeader_invalid (invalid : word ≠ eraseFlashKey ∨ moduleOfKey b.header.dkey = .none) :
    runHeader link b word = (b.withKey word).finish errInvalidHeader := by
  rw [runHeader, if_neg third.1, if_neg third.2]
  exact if_pos invalid

/-- A valid header for Olympus. -/
theorem runHeader_olympus (own : b.header.dkey = olympusKey) (key : word = eraseFlashKey) :
    runHeader link b word =
      emitting ((writeInit b.header.size).map .flash)
        ({ b.withKey word with checksum := 0 }.finish noErr) := by
  have module : (b.withKey word).module = .olympus := moduleOfKey_eq_olympus.mpr own
  have valid : ¬ ((b.withKey word).header.fkey ≠ eraseFlashKey ∨
      (b.withKey word).module = .none) := by
    rw [module]
    rintro (other | none)
    · exact other key
    · cases none
  rw [runHeader, if_neg third.1, if_neg third.2]
  exact (if_neg valid).trans (if_pos module)

/-- A valid header for a submodule. -/
theorem runHeader_submodule (known : moduleOfKey b.header.dkey ≠ .none)
    (foreign : b.header.dkey ≠ olympusKey) (key : word = eraseFlashKey) :
    runHeader link b word = restartSubmodule link (b.withKey word) := by
  have valid : ¬ ((b.withKey word).header.fkey ≠ eraseFlashKey ∨
      (b.withKey word).module = .none) := by
    rintro (other | none)
    · exact other key
    · exact known none
  have module : (b.withKey word).module ≠ .olympus := fun own =>
    foreign (moduleOfKey_eq_olympus.mp own)
  rw [runHeader, if_neg third.1, if_neg third.2]
  exact (if_neg valid).trans (if_neg module)

/-- The three outcomes of a complete header. -/
theorem runHeader_cases :
    (runHeader link b word = (b.withKey word).finish errInvalidHeader ∧
        (word ≠ eraseFlashKey ∨ moduleOfKey b.header.dkey = .none)) ∨
      (runHeader link b word =
          emitting ((writeInit b.header.size).map .flash)
            ({ b.withKey word with checksum := 0 }.finish noErr) ∧
        b.header.dkey = olympusKey ∧ word = eraseFlashKey) ∨
      (runHeader link b word = restartSubmodule link (b.withKey word) ∧
        b.header.dkey ≠ olympusKey) := by
  by_cases invalid : word ≠ eraseFlashKey ∨ moduleOfKey b.header.dkey = .none
  · exact .inl ⟨runHeader_invalid link third invalid, invalid⟩
  · obtain ⟨key, known⟩ := not_or.mp invalid
    rw [not_not] at key
    by_cases own : b.header.dkey = olympusKey
    · exact .inr (.inl ⟨runHeader_olympus link third own key, own, key⟩)
    · exact .inr (.inr ⟨runHeader_submodule link third known own key, own⟩)

end Header

theorem flashOps_runHeader (b : Boot σ) (word : UInt32) :
    flashOps (runHeader link b word).2 =
      if (b.count ≠ 0 ∧ b.count ≠ 1) ∧ b.header.dkey = olympusKey ∧ word = eraseFlashKey then
        writeInit b.header.size
      else [] := by
  by_cases third : b.count ≠ 0 ∧ b.count ≠ 1
  · rcases runHeader_cases link third with
      ⟨result, invalid⟩ | ⟨result, own, key⟩ | ⟨result, foreign⟩
    · have rejected : ¬ (b.header.dkey = olympusKey ∧ word = eraseFlashKey) := by
        rintro ⟨own, key⟩
        rcases invalid with other | unknown
        · exact other key
        · rw [moduleOfKey_eq_olympus.mpr own] at unknown
          cases unknown
      rw [result, if_neg (fun h => rejected h.2)]
      rfl
    · rw [result, if_pos ⟨third, own, key⟩]
      simp [Boot.finish]
    · obtain ⟨env, buff, outputs, response, restart, silent, -⟩ :=
        restartSubmodule_spec link (b.withKey word)
      rw [result, restart, if_neg (fun h => foreign h.2.1)]
      exact silent
  · obtain ⟨header, result⟩ := runHeader_early link third word
    rw [result, if_neg (fun h => third h.1)]
    rfl

theorem flashOps_runDmy (b : Boot σ) (word : UInt32) : flashOps (runDmy b word).2 = [] := by
  unfold runDmy
  split <;> rfl

/-- **The flash writes of a step.** -/
theorem flashOps_bootStep (b : Boot σ) (word : UInt32) :
    flashOps (bootStep link b word).2 =
      if Programs b word then
        writeFlash b.dataAddr word :: (if b.count + 4 = b.header.size then [completeWrite] else [])
      else if AcceptsOlympus b word then writeInit b.header.size
      else [] := by
  by_cases running : b.running = true
  swap
  · simp [bootStep_stopped link running, Programs, AcceptsOlympus, running]
  cases msg : b.msg with
  | data => simp [bootStep_data link running msg, flashOps_runData, Programs, AcceptsOlympus,
      running, msg]
  | header => simp [bootStep_header link running msg, flashOps_runHeader, Programs, AcceptsOlympus,
      running, msg]
  | dmy => simp [bootStep_dmy link running msg, flashOps_runDmy, Programs, AcceptsOlympus, msg]
  | checksum =>
      rw [bootStep_checksum link running msg]
      by_cases own : b.module = .olympus
      · simp [runChecksum, own, Boot.finish, Programs, AcceptsOlympus, msg]
      · obtain ⟨env, buff, outputs, response, result, silent, -⟩ :=
          runChecksum_spec link own word
        simp [result, silent, Programs, AcceptsOlympus, msg]
  | jump => simp [bootStep_default link running (.inl msg), Programs, AcceptsOlympus, msg]
  | other code => simp [bootStep_default link running (.inr ⟨code, msg⟩), Programs,
      AcceptsOlympus, msg]

theorem dataAddr_runHeader (b : Boot σ) (word : UInt32) :
    (runHeader link b word).1.dataAddr = b.dataAddr := by
  by_cases third : b.count ≠ 0 ∧ b.count ≠ 1
  · rcases runHeader_cases link third with ⟨result, -⟩ | ⟨result, -⟩ | ⟨result, -⟩
    · rw [result]
      rfl
    · rw [result]
      rfl
    · obtain ⟨env, buff, outputs, response, restart, -⟩ :=
        restartSubmodule_spec link (b.withKey word)
      rw [result, restart]
      rfl
  · obtain ⟨header, result⟩ := runHeader_early link third word
    rw [result]

theorem dataAddr_runData (b : Boot σ) (word : UInt32) :
    (runData link b word).1.dataAddr =
      if b.module = .olympus then b.dataAddr + 4 else b.dataAddr := by
  by_cases own : b.module = .olympus
  · simp [runData, own, endData_spec]
  · rw [if_neg own]
    rcases runData_cases link own word with ⟨result, -⟩ | ⟨result, -⟩ | ⟨result, -⟩
    · simp [result, endData_spec]
    · rw [result]
      rfl
    · simp [result, endData_spec]

theorem dataAddr_runDmy (b : Boot σ) (word : UInt32) :
    (runDmy b word).1.dataAddr = b.dataAddr := by
  unfold runDmy
  split <;> rfl

/-- **The write pointer** moves with each word programmed, and is never set back. -/
theorem dataAddr_bootStep (b : Boot σ) (word : UInt32) :
    (bootStep link b word).1.dataAddr =
      if Programs b word then b.dataAddr + 4 else b.dataAddr := by
  unfold Programs
  by_cases running : b.running = true
  swap
  · simp [bootStep_stopped link running, running]
  cases msg : b.msg with
  | data => simp [bootStep_data link running msg, dataAddr_runData, running]
  | header => simp [bootStep_header link running msg, dataAddr_runHeader]
  | dmy => simp [bootStep_dmy link running msg, dataAddr_runDmy]
  | checksum =>
      rw [bootStep_checksum link running msg]
      by_cases own : b.module = .olympus
      · simp [runChecksum, own, Boot.finish]
      · obtain ⟨env, buff, outputs, response, result, -⟩ := runChecksum_spec link own word
        simp [result]
  | jump => simp [bootStep_default link running (.inl msg)]
  | other code => simp [bootStep_default link running (.inr ⟨code, msg⟩)]

/-! ## A header from between messages -/

/-- Between messages, as after reset. -/
structure Boot.Idle (b : Boot σ) : Prop where
  running : b.running = true
  msg : b.msg = .dmy
  count : b.count = 0

/-- The message type and the first two words of a header. -/
def Boot.parsing (b : Boot σ) (dkey size : UInt32) : Boot σ :=
  { b with msg := .header, count := 2, header := ⟨dkey, size, b.header.fkey⟩ }

/-- The first three words of a header are stored in silence. -/
theorem header_words {b : Boot σ} (idle : b.Idle) (dkey size : UInt32) (rest : List UInt32) :
    (bootFSM link).after b (2 :: dkey :: size :: rest) =
        (bootFSM link).after (b.parsing dkey size) rest ∧
      (bootFSM link).outputs b (2 :: dkey :: size :: rest) =
        (bootFSM link).outputs (b.parsing dkey size) rest := by
  have type : bootStep link b 2 = ({ b with msg := .header }, []) := by
    rw [bootStep_dmy link idle.running idle.msg]
    rfl
  have key : bootStep link { b with msg := .header } dkey =
      ({ b with msg := .header, header := { b.header with dkey := dkey }, count := 1 }, []) := by
    refine Eq.trans (bootStep_header link idle.running rfl) ?_
    simp [runHeader, idle.count]
  have length : bootStep link
      { b with msg := .header, header := { b.header with dkey := dkey }, count := 1 } size =
      (b.parsing dkey size, []) :=
    bootStep_header link idle.running rfl
  simp only [Fsm.after_cons, Fsm.outputs_cons, Fsm.next, Fsm.emit, bootFSM, type, key, length,
    List.nil_append, and_self]

theorem parsing_third (b : Boot σ) (dkey size : UInt32) :
    (b.parsing dkey size).count ≠ 0 ∧ (b.parsing dkey size).count ≠ 1 :=
  ⟨show (2 : UInt32) ≠ 0 by decide, show (2 : UInt32) ≠ 1 by decide⟩

/-- A whole header: its last word decides. -/
theorem header_run {b : Boot σ} (idle : b.Idle) (dkey size fkey : UInt32) :
    (bootFSM link).after b [2, dkey, size, fkey] =
        (runHeader link (b.parsing dkey size) fkey).1 ∧
      (bootFSM link).outputs b [2, dkey, size, fkey] =
        (runHeader link (b.parsing dkey size) fkey).2 := by
  obtain ⟨reached, emitted⟩ := header_words link idle dkey size [fkey]
  have last : bootStep link (b.parsing dkey size) fkey =
      runHeader link (b.parsing dkey size) fkey :=
    bootStep_header link idle.running rfl
  rw [reached, emitted]
  simp [Fsm.next, Fsm.emit, bootFSM, last]

end OlympusFirmware.MasterBoot
