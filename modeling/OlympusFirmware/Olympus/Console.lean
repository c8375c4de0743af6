import Mathlib.Data.List.Induction
import Mathlib.Data.List.Infix
import Mathlib.Data.List.TakeWhile
import OlympusFirmware.Lib.Fsm

/-!
# The console's input (`olympus/drivers/console.c`)

`consoleProcessBytes` collects what stands between `[` and `]` in `cmdBuffer`, with a
backspace taking back the last byte, and hands it to `processCommand`. After every byte
it also calls `matchCommand`, which decides the colour of what is echoed. Both take the
buffer as a string, so both need a NUL in it. The two calls are outputs here; the
terminal output is left out. What a call does is not followed either: `processCommand` does
not return from `[kill]`, and what the machine does with the bytes behind it is what the
code would do if it did.

`Framing` is what the console is for: where a command starts and ends and which bytes it
keeps, read off the input alone. The code agrees with it as long as no command keeps a
255th byte. That byte fills the buffer, so there is no NUL in it; and if the command is
then given up, its bytes stay in the buffer behind those of the next one.
-/

namespace OlympusFirmware.Olympus

open OlympusFirmware.Lib

/-- `CONSOLE_MAX_CMD_LEN`. -/
def consoleMaxCmdLen : Nat := 255

/-- `'['`. -/
def openByte : UInt8 := 0x5B

/-- `']'`. -/
def closeByte : UInt8 := 0x5D

/-- The byte a terminal sends for backspace. -/
def backspace : UInt8 := 0x7F

/-- `ConsoleState`. -/
inductive ConsoleState
  | start
  | reading
deriving DecidableEq, Repr

/-- The static variables of `consoleProcessBytes`. -/
structure Console where
  state : ConsoleState
  cmdBuffer : Vector UInt8 255
  cmdBufferIdx : Nat
deriving DecidableEq

/-- What is called with the buffer. -/
inductive ConsoleCall
  | matchCommand (buffer : Vector UInt8 255)
  | processCommand (cmd : Vector UInt8 255)
deriving DecidableEq

/-- The state at reset. -/
def Console.reset : Console := ⟨.start, Vector.replicate 255 0, 0⟩

/-- `consoleProcessBytes`: one byte of `usartRead`. -/
def consoleStep (c : Console) (data : UInt8) : Console × List ConsoleCall :=
  if data = backspace then
    -- in both states
    if 0 < c.cmdBufferIdx then
      let cmdBuffer := c.cmdBuffer.setIfInBounds (c.cmdBufferIdx - 1) 0
      ({ c with cmdBuffer := cmdBuffer, cmdBufferIdx := c.cmdBufferIdx - 1 },
        if 0 < c.cmdBufferIdx - 1 then [.matchCommand cmdBuffer] else [])
    else
      (c, [])
  else
    match c.state with
    | .start =>
        if data = openByte then
          -- only the index is reset
          ({ c with state := .reading, cmdBufferIdx := 0 }, [])
        else
          (c, [])
    | .reading =>
        if data = closeByte then
          -- `processCommand` calls `matchCommand` first
          ({ c with cmdBuffer := Vector.replicate 255 0, state := .start },
            [.processCommand c.cmdBuffer, .matchCommand c.cmdBuffer])
        else
          let c :=
            if c.cmdBufferIdx < consoleMaxCmdLen then
              { c with
                cmdBuffer := c.cmdBuffer.setIfInBounds c.cmdBufferIdx data
                cmdBufferIdx := c.cmdBufferIdx + 1 }
            else
              { c with state := .start }
          (c, [.matchCommand c.cmdBuffer])

/-- The console as a machine over bytes. -/
def consoleFSM : Fsm Console UInt8 ConsoleCall where
  step := consoleStep

/-- The string at the start of a buffer. -/
def cString (buffer : Vector UInt8 255) : List UInt8 := buffer.toList.takeWhile (· != 0)

/-- There is a NUL inside the buffer. -/
def Terminated (buffer : Vector UInt8 255) : Prop := 0 ∈ buffer.toList

instance (buffer : Vector UInt8 255) : Decidable (Terminated buffer) :=
  inferInstanceAs (Decidable (0 ∈ buffer.toList))

/-- The strings handed to `processCommand`. -/
def handed : List ConsoleCall → List (List UInt8)
  | [] => []
  | .processCommand cmd :: rest => cString cmd :: handed rest
  | .matchCommand _ :: rest => handed rest

/-! ## What the console is for -/

/-- Where the input is: outside a command, inside one that has kept some bytes, or inside
one that is too long for the buffer and its terminator. -/
inductive Framing
  | outside
  | inside (kept : List UInt8)
  | overlong
deriving DecidableEq

/-- One byte. -/
def Framing.next : Framing → UInt8 → Framing
  | .outside, data => if data = openByte then .inside [] else .outside
  | .inside kept, data =>
      if data = backspace then .inside kept.dropLast
      else if data = closeByte then .outside
      else if kept.length < consoleMaxCmdLen - 1 then .inside (kept ++ [data])
      else .overlong
  | .overlong, data => if data = closeByte then .outside else .overlong

/-- Where the input is after these bytes. -/
def framing (received : List UInt8) : Framing := received.foldl Framing.next .outside

/-- The commands that a byte completes. -/
def Framing.closes : Framing → UInt8 → List (List UInt8)
  | .inside kept, data => if data = closeByte then [kept] else []
  | .outside, _ => []
  | .overlong, _ => []

/-- The console frames a stream: each byte hands exactly the command it completes to
`processCommand`, with nothing of an overlong one, and `matchCommand` always gets a
string that ends inside the buffer. -/
structure Framed (stream : List UInt8) : Prop where
  commands : ∀ received data rest, stream = received ++ data :: rest →
    handed (consoleFSM.emit (consoleFSM.after .reset received) data) =
      (framing received).closes data
  terminated : ∀ buffer, .matchCommand buffer ∈ consoleFSM.outputs .reset stream →
    Terminated buffer

/-- No command of the stream keeps a 255th byte. -/
def NeverOverlong (stream : List UInt8) : Prop :=
  ∀ received, received <+: stream → framing received ≠ .overlong

instance (stream : List UInt8) : Decidable (NeverOverlong stream) :=
  decidable_of_iff (∀ received ∈ stream.inits, framing received ≠ .overlong)
    (by simp only [NeverOverlong, List.mem_inits])

/-- What makes a command overlong. -/
theorem Framing.inside_overlong {kept : List UInt8} {data : UInt8}
    (overlong : (Framing.inside kept).next data = .overlong) :
    data ≠ backspace ∧ data ≠ closeByte ∧ 254 ≤ kept.length := by
  by_cases back : data = backspace
  · simp [Framing.next, back] at overlong
  by_cases close : data = closeByte
  · rw [Framing.next, if_neg back, if_pos close] at overlong
    cases overlong
  by_cases room : kept.length < 254
  · simp [Framing.next, back, close, consoleMaxCmdLen, room] at overlong
  · exact ⟨back, close, by omega⟩

theorem framing_concat (received : List UInt8) (data : UInt8) :
    framing (received ++ [data]) = (framing received).next data := by
  simp [framing]

/-! ## The code follows the framing -/

/-- What is kept, then zeros to the end. -/
def padded (kept : List UInt8) : List UInt8 := kept ++ List.replicate (255 - kept.length) 0

/-- How the buffer shows where the input is. Outside, the index is left over from the last
command and a backspace still counts it down. -/
inductive Tracks : Framing → Console → Prop
  | outside {c : Console} (state : c.state = .start)
      (clear : c.cmdBuffer = Vector.replicate 255 0) : Tracks .outside c
  | inside {c : Console} {kept : List UInt8} (state : c.state = .reading)
      (index : c.cmdBufferIdx = kept.length) (fits : kept.length < 255) (text : 0 ∉ kept)
      (bytes : c.cmdBuffer.toList = padded kept) : Tracks (.inside kept) c

/-- What one byte does when the code follows the framing. -/
structure Follows (f : Framing) (c : Console) (data : UInt8) : Prop where
  tracks : Tracks (f.next data) (consoleStep c data).1
  commands : handed (consoleStep c data).2 = f.closes data
  terminated : ∀ buffer, .matchCommand buffer ∈ (consoleStep c data).2 → Terminated buffer

theorem terminated_clear : Terminated (Vector.replicate 255 0) := by
  unfold Terminated
  rw [Vector.toList_replicate]
  exact List.mem_replicate.mpr ⟨by decide, rfl⟩

/-- A zero written to a clear buffer leaves it clear. -/
theorem clear_set (i : Nat) :
    (Vector.replicate 255 (0 : UInt8)).setIfInBounds i 0 = Vector.replicate 255 0 := by
  apply Vector.ext
  intro j inside
  rw [Vector.getElem_setIfInBounds, Vector.getElem_replicate, ite_self]

section Steps

variable {c : Console} {data : UInt8}

theorem step_backspace (some : 0 < c.cmdBufferIdx) :
    consoleStep c backspace =
      ({ c with
        cmdBuffer := c.cmdBuffer.setIfInBounds (c.cmdBufferIdx - 1) 0
        cmdBufferIdx := c.cmdBufferIdx - 1 },
        if 0 < c.cmdBufferIdx - 1 then
          [.matchCommand (c.cmdBuffer.setIfInBounds (c.cmdBufferIdx - 1) 0)] else []) := by
  simp only [consoleStep, if_true, some]

theorem step_backspace_none (none : c.cmdBufferIdx = 0) : consoleStep c backspace = (c, []) := by
  simp [consoleStep, none]

theorem step_start (state : c.state = .start) (other : data ≠ backspace) :
    consoleStep c data =
      if data = openByte then ({ c with state := .reading, cmdBufferIdx := 0 }, [])
      else (c, []) := by
  simp only [consoleStep, other, if_false, state]

theorem step_close (state : c.state = .reading) :
    consoleStep c closeByte =
      ({ c with cmdBuffer := Vector.replicate 255 0, state := .start },
        [.processCommand c.cmdBuffer, .matchCommand c.cmdBuffer]) := by
  have other : closeByte ≠ backspace := by decide
  simp only [consoleStep, other, if_false, state, if_true]

/-- A byte that is kept. -/
theorem step_keep (state : c.state = .reading) (notBackspace : data ≠ backspace)
    (notClose : data ≠ closeByte) (room : c.cmdBufferIdx < 255) :
    consoleStep c data =
      ({ c with
        cmdBuffer := c.cmdBuffer.setIfInBounds c.cmdBufferIdx data
        cmdBufferIdx := c.cmdBufferIdx + 1 },
        [.matchCommand (c.cmdBuffer.setIfInBounds c.cmdBufferIdx data)]) := by
  simp only [consoleStep, notBackspace, notClose, if_false, state, consoleMaxCmdLen, room, if_true]

end Steps

variable {c : Console} {data : UInt8} {kept : List UInt8}

theorem follows_outside (state : c.state = .start)
    (clear : c.cmdBuffer = Vector.replicate 255 0) : Follows .outside c data := by
  by_cases back : data = backspace
  · subst back
    have outside : Framing.next .outside backspace = .outside := by decide
    rcases Nat.eq_zero_or_pos c.cmdBufferIdx with zero | some
    · have step := step_backspace_none zero
      exact ⟨by rw [step, outside]; exact .outside state clear, by rw [step]; rfl,
        by rw [step]; simp⟩
    · have step := step_backspace some
      rw [clear, clear_set] at step
      refine ⟨by rw [step, outside]; exact .outside state rfl, ?_, ?_⟩
      · rw [step]
        dsimp only
        split <;> rfl
      · rw [step]
        dsimp only
        split
        · intro buffer member
          obtain rfl : buffer = Vector.replicate 255 0 := by
            simpa only [List.mem_singleton, ConsoleCall.matchCommand.injEq] using member
          exact terminated_clear
        · simp
  · have step := step_start state back
    by_cases opened : data = openByte
    · rw [if_pos opened] at step
      refine ⟨?_, by rw [step]; rfl, by rw [step]; simp⟩
      rw [step, Framing.next, if_pos opened]
      exact .inside rfl rfl (by decide) (by simp) (by rw [clear, Vector.toList_replicate]; rfl)
    · rw [if_neg opened] at step
      refine ⟨?_, by rw [step]; rfl, by rw [step]; simp⟩
      rw [step, Framing.next, if_neg opened]
      exact .outside state clear

theorem terminated_padded {buffer : Vector UInt8 255} (fits : kept.length < 255)
    (bytes : buffer.toList = padded kept) : Terminated buffer := by
  unfold Terminated
  rw [bytes, padded, List.mem_append, List.mem_replicate]
  exact .inr ⟨by omega, rfl⟩

theorem cString_padded {buffer : Vector UInt8 255} (fits : kept.length < 255) (text : 0 ∉ kept)
    (bytes : buffer.toList = padded kept) : cString buffer = kept := by
  have zeros : 255 - kept.length = (254 - kept.length) + 1 := by omega
  rw [cString, bytes, padded, List.takeWhile_append_of_pos, zeros, List.replicate_succ]
  · simp
  · intro byte member
    have nonzero : byte ≠ 0 := fun zero => text (zero ▸ member)
    simpa using nonzero

/-- Keeping one more byte. -/
theorem padded_set (fits : kept.length < 255) (data : UInt8) :
    (padded kept).set kept.length data = padded (kept ++ [data]) := by
  have zeros : 255 - kept.length = (255 - (kept.length + 1)) + 1 := by omega
  rw [padded, zeros, List.replicate_succ, List.set_append_right _ _ (Nat.le_refl _)]
  simp [padded]

/-- Taking the last byte back. -/
theorem padded_dropLast (fits : kept.length < 255) (some : kept ≠ []) :
    (padded kept).set (kept.length - 1) 0 = padded kept.dropLast := by
  obtain ⟨front, last, rfl⟩ := List.eq_nil_or_concat kept |>.resolve_left some
  simp only [List.concat_eq_append, List.length_append, List.length_singleton,
    Nat.add_sub_cancel, List.dropLast_concat] at fits ⊢
  have zeros : 255 - front.length = (255 - (front.length + 1)) + 1 := by omega
  rw [padded, padded, zeros, List.append_assoc, List.set_append_right _ _ (Nat.le_refl _)]
  simp [List.replicate_succ]

/-- A backspace inside a command. -/
theorem follows_backspace (state : c.state = .reading) (index : c.cmdBufferIdx = kept.length)
    (fits : kept.length < 255) (text : 0 ∉ kept) (bytes : c.cmdBuffer.toList = padded kept) :
    Follows (.inside kept) c backspace := by
  have next : Framing.next (.inside kept) backspace = .inside kept.dropLast := rfl
  have closes : Framing.closes (.inside kept) backspace = [] := rfl
  by_cases empty : kept = []
  · have step := step_backspace_none (c := c) (by simp [index, empty])
    refine ⟨?_, by rw [step, closes]; rfl, by rw [step]; simp⟩
    rw [step, next, empty]
    exact .inside state (by simp [index, empty]) (by decide) (by simp) (by rw [bytes, empty]; rfl)
  · have some : 0 < c.cmdBufferIdx := by
      rw [index]
      exact List.length_pos_iff.mpr empty
    have step := step_backspace some
    have shorter : (c.cmdBuffer.setIfInBounds (c.cmdBufferIdx - 1) 0).toList =
        padded kept.dropLast := by
      rw [Vector.toList_setIfInBounds, bytes, index, padded_dropLast fits empty]
    have fits' : kept.dropLast.length < 255 := by
      rw [List.length_dropLast]
      omega
    refine ⟨?_, ?_, ?_⟩
    · rw [step, next]
      refine .inside state ?_ fits' ?_ shorter
      · rw [List.length_dropLast, ← index]
      · exact fun zero => text ((List.dropLast_sublist kept).subset zero)
    · rw [step, closes]
      dsimp only
      split <;> rfl
    · rw [step]
      dsimp only
      split
      · intro buffer member
        obtain rfl : buffer = c.cmdBuffer.setIfInBounds (c.cmdBufferIdx - 1) 0 := by
          simpa only [List.mem_singleton, ConsoleCall.matchCommand.injEq] using member
        exact terminated_padded fits' shorter
      · simp

/-- The end of a command. -/
theorem follows_close (state : c.state = .reading) (fits : kept.length < 255) (text : 0 ∉ kept)
    (bytes : c.cmdBuffer.toList = padded kept) : Follows (.inside kept) c closeByte := by
  have step := step_close state
  refine ⟨?_, ?_, ?_⟩
  · rw [step, show Framing.next (.inside kept) closeByte = .outside from rfl]
    exact .outside rfl rfl
  · rw [step, show Framing.closes (.inside kept) closeByte = [kept] from rfl,
      ← cString_padded fits text bytes]
    rfl
  · rw [step]
    intro buffer member
    obtain rfl : buffer = c.cmdBuffer := by simpa using member
    exact terminated_padded fits bytes

/-- A byte that a command keeps. -/
theorem follows_keep (state : c.state = .reading) (index : c.cmdBufferIdx = kept.length)
    (text : 0 ∉ kept) (bytes : c.cmdBuffer.toList = padded kept) (nonzero : data ≠ 0)
    (notBackspace : data ≠ backspace) (notClose : data ≠ closeByte)
    (room : kept.length < 254) : Follows (.inside kept) c data := by
  have step := step_keep state notBackspace notClose (by omega)
  have longer : (c.cmdBuffer.setIfInBounds c.cmdBufferIdx data).toList =
      padded (kept ++ [data]) := by
    rw [Vector.toList_setIfInBounds, bytes, index, padded_set (by omega)]
  have fits : (kept ++ [data]).length < 255 := by
    rw [List.length_append, List.length_singleton]
    omega
  have next : Framing.next (.inside kept) data = .inside (kept ++ [data]) := by
    simp only [Framing.next, notBackspace, notClose, if_false, consoleMaxCmdLen, room, if_true]
  have closes : Framing.closes (.inside kept) data = [] := if_neg notClose
  refine ⟨?_, by rw [step, closes]; rfl, ?_⟩
  · rw [step, next]
    refine .inside state ?_ fits ?_ longer
    · rw [List.length_append, List.length_singleton, ← index]
    · simp [text, nonzero.symm]
  · rw [step]
    intro buffer member
    obtain rfl : buffer = c.cmdBuffer.setIfInBounds c.cmdBufferIdx data := by
      simpa only [List.mem_singleton, ConsoleCall.matchCommand.injEq] using member
    exact terminated_padded fits longer

/-- **One byte.** The code follows the framing unless the command becomes too long. -/
theorem follows_of_tracks {f : Framing} (tracks : Tracks f c) (nonzero : data ≠ 0)
    (short : f.next data ≠ .overlong) : Follows f c data := by
  cases tracks with
  | outside state clear => exact follows_outside state clear
  | @inside _ kept state index fits text bytes =>
      by_cases back : data = backspace
      · rw [back]
        exact follows_backspace state index fits text bytes
      by_cases close : data = closeByte
      · rw [close]
        exact follows_close state fits text bytes
      have room : kept.length < 254 := by
        by_contra full
        exact short (by simp only [Framing.next, back, close, if_false, consoleMaxCmdLen, full])
      exact follows_keep state index text bytes nonzero back close room

/-- The 255th byte fills the buffer: `matchCommand` gets no string. -/
theorem unterminated_of_overlong {f : Framing} (tracks : Tracks f c) (nonzero : data ≠ 0)
    (overlong : f.next data = .overlong) :
    ∃ buffer, .matchCommand buffer ∈ (consoleStep c data).2 ∧ ¬ Terminated buffer := by
  cases tracks with
  | outside =>
      simp only [Framing.next] at overlong
      split at overlong <;> cases overlong
  | @inside _ kept state index fits text bytes =>
      obtain ⟨notBackspace, notClose, full⟩ := Framing.inside_overlong overlong
      have step := step_keep state notBackspace notClose (by omega)
      refine ⟨c.cmdBuffer.setIfInBounds c.cmdBufferIdx data, by rw [step]; simp, ?_⟩
      unfold Terminated
      rw [Vector.toList_setIfInBounds, bytes, index, padded_set fits, padded,
        List.length_append, List.length_singleton, show 255 - (kept.length + 1) = 0 by omega]
      simp [text, nonzero.symm]

/-! ## Whole streams -/

theorem neverOverlong_concat (received : List UInt8) (data : UInt8) :
    NeverOverlong (received ++ [data]) ↔
      NeverOverlong received ∧ framing (received ++ [data]) ≠ .overlong := by
  simp only [NeverOverlong, List.prefix_concat_iff, or_imp, forall_and, forall_eq, and_comm]

/-- A stream with no overlong command leaves the code in step with the framing. -/
theorem tracks_after {received : List UInt8} (text : 0 ∉ received)
    (short : NeverOverlong received) :
    Tracks (framing received) (consoleFSM.after .reset received) := by
  induction received using List.reverseRecOn with
  | nil => exact .outside rfl rfl
  | append_singleton received data ih =>
      rw [neverOverlong_concat, framing_concat] at short
      simp only [List.mem_append, List.mem_singleton, not_or] at text
      rw [framing_concat, Fsm.after_append]
      exact (follows_of_tracks (ih text.1 short.1) (Ne.symm text.2) short.2).tracks

/-- Either no command is overlong, or there is a first byte that makes one so. -/
theorem neverOverlong_or_first (stream : List UInt8) :
    NeverOverlong stream ∨ ∃ received data rest, stream = received ++ data :: rest ∧
      NeverOverlong received ∧ (framing received).next data = .overlong := by
  induction stream using List.reverseRecOn with
  | nil =>
      left
      intro received empty
      rw [List.prefix_nil.mp empty]
      simp [framing]
  | append_singleton stream data ih =>
      rcases ih with short | ⟨received, first, rest, rfl, short, overlong⟩
      · by_cases now : framing (stream ++ [data]) = .overlong
        · exact .inr ⟨stream, data, [], rfl, short, by rw [← framing_concat]; exact now⟩
        · exact .inl ((neverOverlong_concat stream data).mpr ⟨short, now⟩)
      · exact .inr ⟨received, first, rest ++ [data], by simp, short, overlong⟩

/-- **Framing.** For every stream of bytes other than NUL, the console frames the stream
if and only if no command in it, from its `[` on and with each backspace taking one back,
ever keeps a 255th byte. -/
theorem console_framed_iff (stream : List UInt8) (text : 0 ∉ stream) :
    Framed stream ↔ NeverOverlong stream := by
  constructor
  · intro framed
    rcases neverOverlong_or_first stream with short | ⟨received, data, rest, rfl, short, overlong⟩
    · exact short
    · simp only [List.mem_append, List.mem_cons, not_or] at text
      obtain ⟨buffer, called, unterminated⟩ := unterminated_of_overlong
        (tracks_after text.1 short) (Ne.symm text.2.1) overlong
      refine absurd (framed.terminated buffer ?_) unterminated
      rw [Fsm.outputs_append, List.mem_append, Fsm.outputs_cons, List.mem_append]
      exact .inr (.inl called)
  · intro short
    -- every byte is followed, whatever came before it
    have follows : ∀ received data rest, stream = received ++ data :: rest →
        Follows (framing received) (consoleFSM.after .reset received) data := by
      rintro received data rest rfl
      simp only [List.mem_append, List.mem_cons, not_or] at text
      have before : NeverOverlong received := fun first cut =>
        short first (cut.trans (List.prefix_append _ _))
      have now : (framing received).next data ≠ .overlong := by
        rw [← framing_concat]
        exact short _ ⟨rest, by simp⟩
      exact follows_of_tracks (tracks_after text.1 before) (Ne.symm text.2.1) now
    refine ⟨fun received data rest split => (follows received data rest split).commands, ?_⟩
    intro buffer called
    have all : ∀ call ∈ consoleFSM.outputs .reset stream,
        ∀ buffer, call = .matchCommand buffer → Terminated buffer := by
      rw [Fsm.forall_outputs_iff, Fsm.everyStep_iff]
      rintro received data rest split call member buffer rfl
      exact (follows received data rest split).terminated buffer member
    exact all _ called buffer rfl

/-- `[hex~lp]`, with `~` for a backspace: the string handed over is `help`. -/
theorem corrected_help_framed :
    Framed [0x5B, 0x68, 0x65, 0x78, 0x7F, 0x6C, 0x70, 0x5D] :=
  (console_framed_iff [0x5B, 0x68, 0x65, 0x78, 0x7F, 0x6C, 0x70, 0x5D] (by decide)).mpr
    (by decide)

/-! ## What an overlong command leaves behind -/

/-- A byte that is kept as it is. -/
def Plain (data : UInt8) : Prop := data ≠ backspace ∧ data ≠ closeByte

instance (data : UInt8) : Decidable (Plain data) := inferInstanceAs (Decidable (_ ∧ _))

/-- Plain bytes overwrite the buffer from the index on and leave what is behind them. -/
theorem after_plain (xs : List UInt8) : ∀ {c : Console}, c.state = .reading →
    (∀ data ∈ xs, Plain data) → c.cmdBufferIdx + xs.length ≤ 255 →
    (consoleFSM.after c xs).state = .reading ∧
      (consoleFSM.after c xs).cmdBufferIdx = c.cmdBufferIdx + xs.length ∧
      (consoleFSM.after c xs).cmdBuffer.toList =
        c.cmdBuffer.toList.take c.cmdBufferIdx ++ xs ++
          c.cmdBuffer.toList.drop (c.cmdBufferIdx + xs.length) := by
  induction xs with
  | nil => intro c state _ _; simp [state]
  | cons data rest ih =>
      intro c state plain fits
      simp only [List.length_cons] at fits
      obtain ⟨notBackspace, notClose⟩ := plain data List.mem_cons_self
      have step := step_keep state notBackspace notClose (by omega)
      have next : consoleFSM.next c data =
          { c with
            cmdBuffer := c.cmdBuffer.setIfInBounds c.cmdBufferIdx data
            cmdBufferIdx := c.cmdBufferIdx + 1 } := congrArg Prod.fst step
      have size : c.cmdBufferIdx < c.cmdBuffer.toList.length := by
        rw [Vector.length_toList]
        omega
      obtain ⟨reading, index, bytes⟩ := ih (c := consoleFSM.next c data) (by rw [next]; exact state)
        (fun byte member => plain byte (List.mem_cons_of_mem data member))
        (by rw [next]; show c.cmdBufferIdx + 1 + rest.length ≤ 255; omega)
      rw [Fsm.after_cons]
      refine ⟨reading, ?_, ?_⟩
      · rw [index, next]
        show c.cmdBufferIdx + 1 + rest.length = c.cmdBufferIdx + (rest.length + 1)
        omega
      · rw [bytes, next]
        simp only [Vector.toList_setIfInBounds, List.length_cons]
        rw [List.take_add_one, List.getElem?_set_self size, List.take_set_of_le (Nat.le_refl _),
          List.drop_set_of_lt (by omega), Nat.add_right_comm, Nat.add_assoc]
        simp

/-- A command of 256 bytes is given up with its first 255 bytes in the buffer, and the next
`[` leaves them there. -/
theorem after_overlong {first : List UInt8} {last : UInt8} (full : first.length = 255)
    (plainFirst : ∀ data ∈ first, Plain data) (plainLast : Plain last) :
    ∃ buffer : Vector UInt8 255, buffer.toList = first ∧
      consoleFSM.after .reset (openByte :: first ++ [last, closeByte, openByte]) =
        ⟨.reading, buffer, 0⟩ := by
  -- `[` and the bytes that fill the buffer
  obtain ⟨state, index, bytes⟩ := after_plain first
    (c := ⟨.reading, Vector.replicate 255 0, 0⟩) rfl plainFirst (by simp [full])
  set c := consoleFSM.after ⟨.reading, Vector.replicate 255 0, 0⟩ first
  have holds : c.cmdBuffer.toList = first := by
    rw [bytes, List.drop_eq_nil_of_le (by simp only [Vector.length_toList]; omega),
      List.take_zero, List.nil_append, List.append_nil]
  -- the byte that makes the code give up
  have lost : consoleFSM.next c last = { c with state := .start } := by
    obtain ⟨notBackspace, notClose⟩ := plainLast
    have noRoom : ¬ c.cmdBufferIdx < consoleMaxCmdLen := by
      rw [index, full]
      decide
    show (consoleStep c last).1 = _
    simp only [consoleStep, notBackspace, notClose, if_false, state, noRoom]
  refine ⟨c.cmdBuffer, holds, ?_⟩
  rw [Fsm.after_append]
  show consoleFSM.after c [last, closeByte, openByte] = _
  rw [Fsm.after_cons, lost]
  rfl

/-- **The stale tail.** A command of 256 bytes is given up; of the next command, the string
handed over goes on with the bytes of the first. -/
theorem handed_after_overlong {first second : List UInt8} {last : UInt8}
    (full : first.length = 255) (short : second.length ≤ 255)
    (plain : ∀ data ∈ first ++ second ++ [last], Plain data ∧ data ≠ 0) :
    handed (consoleFSM.emit (consoleFSM.after .reset
      (openByte :: first ++ last :: closeByte :: openByte :: second)) closeByte) =
        [second ++ first.drop second.length] := by
  simp only [List.mem_append, List.mem_singleton] at plain
  obtain ⟨buffer, stale, reopened⟩ := after_overlong full
    (fun data member => (plain data (.inl (.inl member))).1) (plain last (.inr rfl)).1
  -- the second command overwrites the front only
  obtain ⟨state, -, bytes⟩ := after_plain second (c := ⟨.reading, buffer, 0⟩) rfl
    (fun data member => (plain data (.inl (.inr member))).1) (by simpa using short)
  have run : consoleFSM.after .reset
      (openByte :: first ++ last :: closeByte :: openByte :: second) =
        consoleFSM.after ⟨.reading, buffer, 0⟩ second := by
    rw [← reopened, ← Fsm.after_append]
    simp
  rw [run]
  set c := consoleFSM.after ⟨.reading, buffer, 0⟩ second
  have emitted : consoleFSM.emit c closeByte =
      [.processCommand c.cmdBuffer, .matchCommand c.cmdBuffer] :=
    congrArg Prod.snd (step_close state)
  rw [emitted]
  show [c.cmdBuffer.toList.takeWhile (· != 0)] = _
  have text : c.cmdBuffer.toList = second ++ first.drop second.length := by
    rw [bytes, stale, List.take_zero, List.nil_append, Nat.zero_add]
  rw [text, List.takeWhile_eq_self_iff.mpr]
  · intro data member
    have known : data ∈ first ∨ data ∈ second := by
      rw [List.mem_append] at member
      exact member.symm.imp_left List.mem_of_mem_drop
    have nonzero := (plain data (.inl known)).2
    simpa using nonzero

/-- A command of 256 letters, and then `[help]`: the letters of the first command are still
behind those of the second. -/
theorem overlong_command_spoils_the_next :
    0 ∉ (openByte :: List.replicate 255 0x61 ++
        0x61 :: closeByte :: openByte :: [0x68, 0x65, 0x6C, 0x70]) ++ [closeByte] ∧
      ¬ Framed ((openByte :: List.replicate 255 0x61 ++
        0x61 :: closeByte :: openByte :: [0x68, 0x65, 0x6C, 0x70]) ++ [closeByte]) := by
  refine ⟨by decide +kernel, ?_⟩
  intro framed
  have right := framed.commands _ closeByte [] rfl
  rw [handed_after_overlong (by decide +kernel) (by decide) (by decide +kernel)] at right
  revert right
  decide +kernel

end OlympusFirmware.Olympus
