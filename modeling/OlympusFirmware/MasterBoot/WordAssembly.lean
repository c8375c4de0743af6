import OlympusFirmware.MasterBoot.Main
import OlympusFirmware.Usb.DoubleBuffer

/-!
# Words from the double buffer (`master_boot/main.c`)

The main loop as it reads the double buffer: each round asks for the bytes that are missing
from `dataIn` and gets some of them, or none. USB writes to the buffer between rounds, in
pieces that have nothing to do with words.

What has been received is, in this order, the words that `runBootFSM` was given, the bytes
in `dataIn` and the bytes in the buffer. When `runBootFSM` jumps to the application it does
not return: no later round reads anything, and the words behind that one are never passed.
-/

namespace OlympusFirmware.MasterBoot

open OlympusFirmware.Lib
open OlympusFirmware.Usb (DoubleBuffer)

/-- The variables of `main`, the buffer and its memory, and the state of `runBootFSM`. -/
structure MainLoop (σ : Type) where
  usbReceiveBuffer : DoubleBuffer
  memory : Mem UInt8
  dataIn : Mem UInt8
  offset : Nat
  boot : Boot σ

/-- A write to the buffer and a round of the loop. -/
inductive LoopEvent
  | write (data : List UInt8)
  | round
deriving DecidableEq

/-- A piece that the buffer took, a call of `runBootFSM` and what the call did. -/
inductive LoopOutput
  | received (data : List UInt8)
  | runBootFSM (word : UInt32)
  | boot (output : BootOutput)
deriving DecidableEq

/-- The loop before its first round. -/
def MainLoop.start {σ : Type} (base bufLen : Nat) (memory dataIn : Mem UInt8) (boot : Boot σ) :
    MainLoop σ :=
  ⟨.init base bufLen, memory, dataIn, 0, boot⟩

/-- The bytes that were received. -/
def received (outputs : List LoopOutput) : List UInt8 :=
  outputs.flatMap fun
    | .received data => data
    | _ => []

/-- The words passed to `runBootFSM`. -/
def passed (outputs : List LoopOutput) : List UInt32 :=
  outputs.filterMap fun
    | .runBootFSM word => some word
    | _ => none

/-- What `runBootFSM` did. -/
def booted (outputs : List LoopOutput) : List BootOutput :=
  outputs.filterMap fun
    | .boot output => some output
    | _ => none

/-- The bytes that are written. -/
def written (events : List LoopEvent) : List UInt8 :=
  events.flatMap fun
    | .write data => data
    | .round => []

section Loop

variable {σ : Type} (link : Link σ)

/-- A round of the loop, until `runBootFSM` has not returned. -/
def mainRound (s : MainLoop σ) : MainLoop σ × List LoopOutput :=
  if s.boot.running then
    let (bytes, usbReceiveBuffer) := s.usbReceiveBuffer.read s.memory (4 - s.offset)
    let dataIn := s.dataIn.store s.offset bytes
    let offset := s.offset + bytes.length
    if offset = 4 then
      let word := leWord (dataIn.load 0 4)
      let (boot, outputs) := bootStep link s.boot word
      (⟨usbReceiveBuffer, s.memory, dataIn, 0, boot⟩, .runBootFSM word :: outputs.map .boot)
    else
      (⟨usbReceiveBuffer, s.memory, dataIn, offset, s.boot⟩, [])
  else
    (s, [])

/-- A piece for the buffer. -/
def receivePiece (s : MainLoop σ) (data : List UInt8) : MainLoop σ × List LoopOutput :=
  let (taken, usbReceiveBuffer, memory) := s.usbReceiveBuffer.write s.memory data
  ({ s with usbReceiveBuffer, memory }, if taken then [.received data] else [])

/-- The loop and the buffer as a machine. -/
def loopFSM : Fsm (MainLoop σ) LoopEvent LoopOutput where
  step s
    | .write data => receivePiece s data
    | .round => mainRound link s

/-- A write that fits. -/
def Fits (s : MainLoop σ) : LoopEvent → Prop
  | .write data => (s.usbReceiveBuffer.write s.memory data).1 = true
  | .round => True

instance (s : MainLoop σ) (e : LoopEvent) : Decidable (Fits s e) :=
  match e with
  | .write _ => inferInstanceAs (Decidable (_ = _))
  | .round => .isTrue trivial

/-- Of these words, those up to the first one at which `runBootFSM` jumps to the application,
that one included. -/
def whileRunning : Boot σ → List UInt32 → List UInt32
  | _, [] => []
  | b, word :: words =>
      if b.running then word :: whileRunning ((bootFSM link).next b word) words else []

/-- After the jump `runBootFSM` is not called. -/
theorem after_stopped {b : Boot σ} (stopped : b.running ≠ true) (words : List UInt32) :
    (bootFSM link).after b words = b :=
  ((bootFSM link).stays fun _ _ => bootStep_stopped link stopped).1

theorem whileRunning_stopped {b : Boot σ} (stopped : b.running ≠ true) (words : List UInt32) :
    whileRunning link b words = [] := by
  cases words with
  | nil => rfl
  | cons word words => exact if_neg stopped

theorem whileRunning_append (b : Boot σ) (words more : List UInt32) :
    whileRunning link b (words ++ more) =
      whileRunning link b words ++ whileRunning link ((bootFSM link).after b words) more := by
  induction words generalizing b with
  | nil => rfl
  | cons word words ih =>
      by_cases running : b.running = true
      · simp only [List.cons_append, whileRunning, running, if_true, ih, Fsm.after_cons]
      · rw [after_stopped link running, whileRunning_stopped link running,
          whileRunning_stopped link running, whileRunning_stopped link running]
        rfl

/-- If there is no jump, all of them. -/
theorem whileRunning_eq {b : Boot σ} {words : List UInt32}
    (running : ((bootFSM link).after b words).running = true) :
    whileRunning link b words = words := by
  induction words generalizing b with
  | nil => rfl
  | cons word words ih =>
      have now : b.running = true := by
        by_contra stopped
        rw [after_stopped link stopped] at running
        exact stopped running
      rw [whileRunning, if_pos now, ih running]

/-- Where the received bytes are: passed in words, in `dataIn`, in the buffer. -/
structure Assembled (boot : Boot σ) (hist : List LoopOutput) (s : MainLoop σ) : Prop where
  wf : s.usbReceiveBuffer.Wf
  offset : s.offset < 4
  bytes : ∃ words, words.length % 4 = 0 ∧ passed hist = leWords words ∧
    received hist =
      words ++ s.dataIn.load 0 s.offset ++ s.usbReceiveBuffer.stored s.memory
  state : s.boot = (bootFSM link).after boot (passed hist)
  booted : booted hist = (bootFSM link).outputs boot (passed hist)
  running : whileRunning link boot (passed hist) = passed hist

variable {link} {boot : Boot σ} {hist : List LoopOutput} {s : MainLoop σ}

/-- A piece. -/
theorem Assembled.write (inv : Assembled link boot hist s) (data : List UInt8) :
    Assembled link boot (hist ++ (receivePiece s data).2) (receivePiece s data).1 := by
  have spec := DoubleBuffer.write_spec inv.wf s.memory data
  unfold receivePiece
  generalize s.usbReceiveBuffer.write s.memory data = result at spec
  obtain ⟨taken, b, m⟩ := result
  dsimp only at spec ⊢
  cases taken with
  | false =>
      rw [if_neg Bool.false_ne_true] at spec ⊢
      obtain ⟨rfl, rfl⟩ := Prod.mk.inj spec
      rw [List.append_nil]
      exact inv
  | true =>
      rw [if_pos rfl] at spec ⊢
      obtain ⟨wf, stored⟩ := spec
      have silent : passed (hist ++ [.received data]) = passed hist := by
        simp [passed]
      obtain ⟨words, whole, isPassed, isReceived⟩ := inv.bytes
      refine ⟨wf, inv.offset, ⟨words, whole, by rw [silent, isPassed], ?_⟩, ?_, ?_, ?_⟩
      · have more : received (hist ++ [.received data]) = received hist ++ data := by
          simp [received]
        rw [more, isReceived, stored, List.append_assoc _ _ data]
      · rw [silent]
        exact inv.state
      · rw [silent, ← inv.booted]
        simp [MasterBoot.booted]
      · rw [silent]
        exact inv.running

/-- After the jump a round does nothing. -/
theorem mainRound_stopped (stopped : s.boot.running ≠ true) : mainRound link s = (s, []) :=
  if_neg stopped

/-- A round. -/
theorem Assembled.round (inv : Assembled link boot hist s) :
    Assembled link boot (hist ++ (mainRound link s).2) (mainRound link s).1 := by
  by_cases running : s.boot.running = true
  case neg =>
    rw [mainRound_stopped running, List.append_nil]
    exact inv
  obtain ⟨words, whole, isPassed, isReceived⟩ := inv.bytes
  obtain ⟨wf, stored⟩ := DoubleBuffer.read_spec inv.wf s.memory (4 - s.offset)
  have bound := s.usbReceiveBuffer.length_read_le s.memory (4 - s.offset)
  have offset := inv.offset
  unfold mainRound
  rw [if_pos running]
  generalize s.usbReceiveBuffer.read s.memory (4 - s.offset) = result at wf stored bound
  obtain ⟨bytes, b⟩ := result
  dsimp only at wf stored bound ⊢
  -- the bytes go behind those that are there
  have filled : (s.dataIn.store s.offset bytes).load 0 (s.offset + bytes.length) =
      s.dataIn.load 0 s.offset ++ bytes := by
    have behind := s.dataIn.load_store_behind 0 s.offset bytes
    rwa [Nat.zero_add] at behind
  rw [stored] at isReceived
  split
  · rename_i full
    rw [full] at filled
    dsimp only
    generalize word : (s.dataIn.store s.offset bytes).load 0 4 = four at filled
    have length : four.length = 4 := by
      rw [← word]
      exact Mem.length_load _ _ _
    have one : leWords four = [leWord four] := by
      match four, length with
      | [_, _, _, _], _ => rfl
    generalize result : bootStep link s.boot (leWord four) = out
    have new : passed (hist ++ .runBootFSM (leWord four) :: out.2.map .boot) =
        passed hist ++ [leWord four] := by
      simp [passed]
    refine ⟨wf, Nat.zero_lt_succ 3, ⟨words ++ four, ?_, ?_, ?_⟩, ?_, ?_, ?_⟩
    · rw [List.length_append, length]
      omega
    · rw [new, isPassed, leWords_append whole, one]
    · have same : received (hist ++ .runBootFSM (leWord four) :: out.2.map .boot) =
          received hist := by
        simp [received]
      rw [same, isReceived, filled]
      simp
    · rw [new, Fsm.after_append, ← inv.state]
      show out.1 = (bootStep link s.boot (leWord four)).1
      rw [result]
    · rw [new, Fsm.outputs_append, ← inv.state, ← inv.booted]
      have emitted : (bootFSM link).outputs s.boot [leWord four] = out.2 := by
        show (bootStep link s.boot (leWord four)).2 ++ [] = _
        rw [result, List.append_nil]
      rw [emitted]
      simp [MasterBoot.booted]
    · rw [new, whileRunning_append, inv.running, ← inv.state]
      simp only [whileRunning, running, if_true]
  · rename_i short
    dsimp only
    rw [List.append_nil]
    refine ⟨wf, by dsimp only; omega, ⟨words, whole, isPassed, ?_⟩, inv.state, inv.booted,
      inv.running⟩
    rw [isReceived, filled]
    simp

/-- Before the first round. -/
theorem assembled_start (base bufLen : Nat) (memory dataIn : Mem UInt8) (boot : Boot σ) :
    Assembled link boot [] (.start base bufLen memory dataIn boot) := by
  refine ⟨DoubleBuffer.init_wf base bufLen, Nat.zero_lt_succ 3, ⟨[], rfl, rfl, ?_⟩, rfl, rfl,
    rfl⟩
  simp [received, MainLoop.start]

/-- In a run. -/
theorem assembled_run (base bufLen : Nat) (memory dataIn : Mem UInt8) (boot : Boot σ)
    (events : List LoopEvent) :
    Assembled link boot ((loopFSM link).outputs (.start base bufLen memory dataIn boot) events)
      ((loopFSM link).after (.start base bufLen memory dataIn boot) events) := by
  refine (loopFSM link).invariant_emitted ?_ (assembled_start base bufLen memory dataIn boot) events
  intro hist s e inv
  cases e with
  | write data => exact inv.write data
  | round => exact inv.round

/-- Rounds leave less and less in the buffer, until one jumps. -/
theorem stored_rounds (inv : Assembled link boot hist s) (n : Nat) :
    let s' := (loopFSM link).after s (.replicate n .round)
    s'.boot.running = true →
    (s'.usbReceiveBuffer.stored s'.memory).length ≤
      (s.usbReceiveBuffer.stored s.memory).length - n := by
  induction n generalizing hist s with
  | zero => exact fun _ => Nat.le_refl _
  | succ n ih =>
      intro s' running'
      by_cases running : s.boot.running = true
      case neg =>
        -- a loop that has been left stays so
        have same : s' = s := ((loopFSM link).stays fun event member => by
          rw [List.eq_of_mem_replicate member]
          exact mainRound_stopped running).1
        rw [same] at running'
        exact absurd running' running
      have later := ih inv.round running'
      obtain ⟨-, stored⟩ := DoubleBuffer.read_spec inv.wf s.memory (4 - s.offset)
      have offset := inv.offset
      have asks : 0 < 4 - s.offset := by omega
      have buffer : (mainRound link s).1.usbReceiveBuffer =
          (s.usbReceiveBuffer.read s.memory (4 - s.offset)).2 := by
        unfold mainRound
        rw [if_pos running]
        dsimp only
        split <;> rfl
      have memory : (mainRound link s).1.memory = s.memory := by
        unfold mainRound
        rw [if_pos running]
        dsimp only
        split <;> rfl
      rw [buffer, memory] at later
      refine Nat.le_trans later ?_
      by_cases none : s.usbReceiveBuffer.stored s.memory = []
      · rw [none] at stored ⊢
        rw [(List.append_eq_nil_iff.mp stored.symm).2]
        simp
      · have some := List.length_pos_of_ne_nil (DoubleBuffer.read_ne_nil asks none)
        rw [stored, List.length_append]
        omega

/-- A round receives nothing. -/
theorem received_round (s : MainLoop σ) : received (mainRound link s).2 = [] := by
  unfold mainRound
  dsimp only
  split
  · split
    · simp [received]
    · rfl
  · rfl

theorem received_rounds (s : MainLoop σ) (n : Nat) :
    received ((loopFSM link).outputs s (.replicate n .round)) = [] := by
  induction n generalizing s with
  | zero => rfl
  | succ n ih =>
      rw [List.replicate_succ, Fsm.outputs_cons, received, List.flatMap_append]
      exact List.append_eq_nil_iff.mpr ⟨received_round s, ih _⟩

/-- What is written and fits is received. -/
theorem received_of_fits {events : List LoopEvent}
    (fits : (loopFSM link).EveryStep Fits s events) :
    received ((loopFSM link).outputs s events) = written events := by
  induction events generalizing s with
  | nil => rfl
  | cons e events ih =>
      obtain ⟨here, later⟩ := fits
      rw [Fsm.outputs_cons, received, List.flatMap_append, written, List.flatMap_cons]
      refine congrArg₂ (· ++ ·) ?_ (ih later)
      cases e with
      | write data =>
          have taken : (s.usbReceiveBuffer.write s.memory data).1 = true := here
          show List.flatMap _ (receivePiece s data).2 = data
          simp [receivePiece, taken]
      | round => exact received_round s

variable (link)

/-- Less than four bytes are no word. -/
theorem leWords_short {bytes : List UInt8} (short : bytes.length < 4) : leWords bytes = [] := by
  match bytes, short with
  | [], _ | [_], _ | [_, _], _ | [_, _, _], _ => rfl

section Words

variable (base bufLen : Nat) (memory dataIn : Mem UInt8) (boot : Boot σ)
variable {events : List LoopEvent}

/-- What has been passed is the first part of what was written. -/
theorem passed_front
    (fits : (loopFSM link).EveryStep Fits (.start base bufLen memory dataIn boot) events) :
    passed ((loopFSM link).outputs (.start base bufLen memory dataIn boot) events) <+:
      leWords (written events) := by
  have inv : Assembled link boot _ _ := assembled_run base bufLen memory dataIn boot events
  obtain ⟨words, whole, isPassed, isReceived⟩ := inv.bytes
  rw [received_of_fits fits, List.append_assoc] at isReceived
  rw [isPassed, isReceived, leWords_append whole]
  exact List.prefix_append _ _

/-- As many rounds as there are bytes pass the words up to the jump. -/
theorem passed_rounds
    (fits : (loopFSM link).EveryStep Fits (.start base bufLen memory dataIn boot) events)
    {n : Nat} (enough : (written events).length ≤ n) :
    passed ((loopFSM link).outputs (.start base bufLen memory dataIn boot)
      (events ++ .replicate n .round)) = whileRunning link boot (leWords (written events)) := by
  have inv : Assembled link boot _ _ := assembled_run base bufLen memory dataIn boot events
  have isWritten := received_of_fits fits
  obtain ⟨words, whole, isPassed, isReceived⟩ := inv.bytes
  rw [isWritten, List.append_assoc] at isReceived
  have inv' : Assembled link boot _ _ := assembled_run base bufLen memory dataIn boot
    (events ++ .replicate n .round)
  obtain ⟨words', whole', isPassed', isReceived'⟩ := inv'.bytes
  rw [Fsm.outputs_append, received, List.flatMap_append] at isReceived'
  change received _ ++ received _ = _ at isReceived'
  rw [isWritten, received_rounds, List.append_nil, List.append_assoc] at isReceived'
  rw [isReceived', leWords_append whole', ← isPassed', whileRunning_append, inv'.running,
    ← inv'.state]
  rw [List.self_eq_append_right]
  by_cases running : ((loopFSM link).after (.start base bufLen memory dataIn boot)
      (events ++ .replicate n .round)).boot.running = true
  case neg => exact whileRunning_stopped link running _
  -- the rounds have emptied the buffer, and what is in `dataIn` is no word
  have left := stored_rounds inv n
  rw [← Fsm.after_append] at left
  have few : ((loopFSM link).after (.start base bufLen memory dataIn boot) events
      |>.usbReceiveBuffer.stored
        ((loopFSM link).after (.start base bufLen memory dataIn boot) events).memory).length ≤
      (written events).length := by
    rw [isReceived, List.length_append, List.length_append]
    omega
  have left := left running
  rw [Nat.sub_eq_zero_of_le (Nat.le_trans few enough), Nat.le_zero, List.length_eq_zero_iff]
    at left
  rw [left, List.append_nil]
  rw [leWords_short (by rw [Mem.length_load]; exact inv'.offset)]
  rfl

/-- **Words.** In a run whose pieces all fit, the words passed to `runBootFSM` are the first
ones of what was written. As many rounds as there are bytes pass the others, up to the one at
which `runBootFSM` jumps to the application; all of them, if it jumps at none. -/
theorem word_assembly
    (fits : (loopFSM link).EveryStep Fits (.start base bufLen memory dataIn boot) events) :
    passed ((loopFSM link).outputs (.start base bufLen memory dataIn boot) events) <+:
        leWords (written events) ∧
      (∀ n, (written events).length ≤ n →
        passed ((loopFSM link).outputs (.start base bufLen memory dataIn boot)
          (events ++ .replicate n .round)) =
            whileRunning link boot (leWords (written events))) ∧
      (((bootFSM link).after boot (leWords (written events))).running = true →
        whileRunning link boot (leWords (written events)) = leWords (written events)) :=
  ⟨passed_front link base bufLen memory dataIn boot fits,
    fun _ enough => passed_rounds link base bufLen memory dataIn boot fits enough,
    whileRunning_eq link⟩

end Words

/-- Five bytes in pieces of three and two, a round after each. -/
theorem word_assembly_at :
    passed ((loopFSM fun _ _ _ (e : Unit) => (0, e)).outputs
        (.start 0 16 (fun _ => 0) (fun _ => 0) (.reset ()))
        [.write [1, 2, 3], .round, .write [4, 5], .round]) <+: leWords [1, 2, 3, 4, 5] ∧
      ∀ n, 5 ≤ n → passed ((loopFSM fun _ _ _ (e : Unit) => (0, e)).outputs
        (.start 0 16 (fun _ => 0) (fun _ => 0) (.reset ()))
        ([.write [1, 2, 3], .round, .write [4, 5], .round] ++ .replicate n .round)) =
          leWords [1, 2, 3, 4, 5] := by
  obtain ⟨first, rounds, all⟩ := word_assembly (fun _ _ _ (e : Unit) => (0, e)) 0 16
    (fun _ => 0) (fun _ => 0) (.reset ())
    (show (loopFSM _).EveryStep Fits _ [.write [1, 2, 3], .round, .write [4, 5], .round] by decide)
  exact ⟨first, fun n enough => (rounds n enough).trans (all rfl)⟩

/-- A jump with a word behind it: that word is passed by no number of rounds. -/
theorem word_behind_jump :
    ¬ ∀ (base bufLen : Nat) (memory dataIn : Mem UInt8) (events : List LoopEvent),
      (loopFSM fun _ _ _ (e : Unit) => (0, e)).EveryStep Fits
        (.start base bufLen memory dataIn (.reset ())) events →
      ∃ n, passed ((loopFSM fun _ _ _ (e : Unit) => (0, e)).outputs
        (.start base bufLen memory dataIn (.reset ())) (events ++ .replicate n .round)) =
          leWords (written events) := by
  intro all
  obtain ⟨n, every⟩ := all 0 16 (fun _ => 0) (fun _ => 0) [.write [3, 0, 0, 0, 2, 0, 0, 0]]
    (by decide)
  have inv : Assembled (fun _ _ _ (e : Unit) => (0, e)) (.reset ()) _ _ :=
    assembled_run 0 16 (fun _ => 0) (fun _ => 0) (.reset ())
      ([.write [3, 0, 0, 0, 2, 0, 0, 0]] ++ .replicate n .round)
  have running := inv.running
  rw [every] at running
  exact absurd running (by decide)

/-- The bytes passed on, taken one by one, take `mainFSM` to the same state with the same
outputs. -/
theorem loop_mainFSM (base bufLen : Nat) (memory dataIn : Mem UInt8) (boot : Boot σ)
    (events : List LoopEvent) :
    let s := (loopFSM link).after (.start base bufLen memory dataIn boot) events
    let outputs := (loopFSM link).outputs (.start base bufLen memory dataIn boot) events
    ∃ words, words.length % 4 = 0 ∧
      received outputs =
        words ++ s.dataIn.load 0 s.offset ++ s.usbReceiveBuffer.stored s.memory ∧
      (mainFSM link).after ⟨[], boot⟩ words = ⟨[], s.boot⟩ ∧
      (mainFSM link).outputs ⟨[], boot⟩ words = booted outputs := by
  have inv : Assembled link boot _ _ := assembled_run base bufLen memory dataIn boot events
  obtain ⟨words, whole, isPassed, isReceived⟩ := inv.bytes
  obtain ⟨reached, emitted⟩ := main_run link words whole boot
  refine ⟨words, whole, isReceived, ?_, ?_⟩
  · rw [reached, inv.state, isPassed]
  · rw [emitted, inv.booted, isPassed]

end Loop

end OlympusFirmware.MasterBoot
