import OlympusFirmware.Lib.Mem
import OlympusFirmware.Olympus.ConsoleCommands

/-!
# Splitting a command in place (`olympus/drivers/console.c`)

`createArgv` turns the commas of the command into terminators and keeps pointers to what
follows them; `processCommand` finds the command's entry, splits and calls. Here every use
of an entry of `commands` and every store to `argv` is an event, beside what the code does.

Two accesses are out of range: `argv[32]`, where the terminating NULL goes after 32
arguments, and `commands[-1]`, which is asked for its name after a command that is none.
What the first one overwrites is left out.
-/

namespace OlympusFirmware.Olympus

open OlympusFirmware.Lib

/-! ## The loop of `createArgv` -/

/-- A string in memory, with its terminator. -/
def cText (cmd : List UInt8) : Mem UInt8 := fun i => (cmd[i]?).getD 0

/-- The string at an address, up to so many characters. -/
def cStringAt (m : Mem UInt8) : Nat → Nat → List UInt8
  | 0, _ => []
  | n + 1, p => if m p = 0 then [] else m p :: cStringAt m n (p + 1)

/-- The variables of `createArgv`, the memory it changes and the indices of `argv` it has
stored to. -/
structure ArgvLoop where
  cmd : Nat
  memory : Mem UInt8
  numArgs : Nat
  argv : Mem (Option Nat)
  stored : List Nat

/-- The body of the loop. -/
def ArgvLoop.body (s : ArgvLoop) : ArgvLoop :=
  if s.memory s.cmd = comma then
    ⟨s.cmd + 1, s.memory.store s.cmd [0], s.numArgs + 1,
      s.argv.store s.numArgs [some (s.cmd + 1)], s.stored ++ [s.numArgs]⟩
  else { s with cmd := s.cmd + 1 }

/-- The loop, for at most so many rounds. -/
def argvLoop : Nat → ArgvLoop → ArgvLoop
  | 0, s => s
  | fuel + 1, s =>
      if s.numArgs < consoleMaxNumArgs ∧ s.memory s.cmd ≠ 0 then argvLoop fuel s.body else s

/-- The loop on a command, a round for each of its characters. -/
def splitCommand (cmd : List UInt8) : ArgvLoop :=
  argvLoop cmd.length ⟨0, cText cmd, 0, fun _ => none, []⟩

/-- `createArgv`: the loop, and the NULL behind the last argument. -/
def createArgvInPlace (cmd : List UInt8) : ArgvLoop :=
  let s := splitCommand cmd
  { s with argv := s.argv.store s.numArgs [none], stored := s.stored ++ [s.numArgs] }

/-- The strings that `argv[0]` to `argv[argc - 1]` point to. -/
def argvStrings (cmd : List UInt8) : List (List UInt8) :=
  (List.range (createArgvInPlace cmd).numArgs).map fun i =>
    cStringAt (createArgvInPlace cmd).memory cmd.length
      (((createArgvInPlace cmd).argv i).getD 0)

/-! ## The events of `processCommand` -/

/-- A use of `commands[i]`, a store to `argv[i]`, and what a command comes to. -/
inductive ConsoleEvent
  | entry (i : Int)
  | slot (i : Nat)
  | call (callback : ConsoleCallback) (argv : List (List UInt8))
  | needArgs (minArguments : Nat)
  | commandNotFound
deriving DecidableEq

/-- An access inside the array: `commands` has a NULL entry after the last one. -/
def ConsoleEvent.InRange : ConsoleEvent → Prop
  | .entry i => 0 ≤ i ∧ i < commands.length + 1
  | .slot i => i < consoleMaxNumArgs
  | _ => True

/-- What is no access. -/
def ConsoleEvent.visible : ConsoleEvent → Bool
  | .entry _ => false
  | .slot _ => false
  | _ => true

/-- The loop of `matchCommand` from an entry on: the entries it looks at, and the one with
this name. -/
def matchFrom (buffer : List UInt8) (commandLen : Nat) :
    Nat → List ConsoleCommand → List ConsoleEvent × Option Nat
  | i, [] => ([.entry i], none)
  | i, command :: rest =>
      if strncmpZero buffer command.cmdStr commandLen && commandLen == command.cmdStr.length then
        ([.entry i], some i)
      else
        let later := matchFrom buffer commandLen (i + 1) rest
        (.entry i :: later.1, later.2)

/-- `processCommand`, access by access. -/
def processEvents (stray : Bool) (cmd : List UInt8) : List ConsoleEvent :=
  let found := matchFrom cmd (cmd.takeWhile (· != comma)).length 0 commands
  found.1 ++
    match found.2 with
    | some i =>
        let command := commands.getD i ⟨[], 0, .help⟩
        let s := createArgvInPlace cmd
        s.stored.map .slot ++ [.entry i] ++
          (if s.numArgs < command.minArguments then [.needArgs command.minArguments]
            else [.call command.callback (argvStrings cmd)]) ++
          -- the name is compared with "clear", then with NULL
          [.entry i, .entry i]
    | none => .entry (-1) :: if stray then [.commandNotFound] else []

/-- What an event does to the state. -/
def ConsoleEvent.act (atoi : List UInt8 → Int × Bool) (s : CommandState) :
    ConsoleEvent → CommandState × List CommandAction
  | .call callback argv => callback.call atoi s argv
  | .needArgs minArguments => (s, [.needArgs minArguments])
  | .commandNotFound => (s, [.commandNotFound])
  | _ => (s, [])

/-- The events as a machine. -/
def eventFSM (atoi : List UInt8 → Int × Bool) : Fsm CommandState ConsoleEvent CommandAction where
  step := ConsoleEvent.act atoi

/-! ## What the loop leaves -/

/-- The loop is at this text. -/
structure ArgvLoop.At (s : ArgvLoop) (rest : List UInt8) : Prop where
  text : s.memory.shift s.cmd = cText rest
  nonzero : 0 ∉ rest

section Loop

variable {s : ArgvLoop} {c : UInt8} {rest : List UInt8}

/-- The character the loop is at. -/
theorem ArgvLoop.At.head (at_ : s.At (c :: rest)) : s.memory s.cmd = c :=
  congrFun at_.text 0

/-- The body leaves the text that follows. -/
theorem ArgvLoop.At.next (at_ : s.At (c :: rest)) : s.body.At rest := by
  have tail : s.memory.shift (s.cmd + 1) = cText rest := by
    funext i
    have cell := congrFun at_.text (i + 1)
    simpa [Mem.shift, cText, Nat.add_assoc, Nat.add_comm 1 i] using cell
  refine ⟨?_, fun zero => at_.nonzero (List.mem_cons_of_mem _ zero)⟩
  unfold ArgvLoop.body
  split
  · rw [← tail]
    funext i
    exact Mem.store_outside (.inr (by simp))
  · exact tail

/-- One round of the loop. -/
theorem argvLoop_cons (at_ : s.At (c :: rest)) (room : s.numArgs < consoleMaxNumArgs) :
    argvLoop (c :: rest).length s = argvLoop rest.length s.body := by
  have nonzero : s.memory s.cmd ≠ 0 := by
    rw [at_.head]
    rintro rfl
    exact at_.nonzero List.mem_cons_self
  exact if_pos ⟨room, nonzero⟩

/-- With 32 arguments the loop is over. -/
theorem argvLoop_full (fuel : Nat) (full : ¬ s.numArgs < consoleMaxNumArgs) :
    argvLoop fuel s = s := by
  cases fuel with
  | zero => rfl
  | succ fuel => exact if_neg fun more => full more.1

theorem body_comma (at_ : s.At (comma :: rest)) : s.body =
    ⟨s.cmd + 1, s.memory.store s.cmd [0], s.numArgs + 1,
      s.argv.store s.numArgs [some (s.cmd + 1)], s.stored ++ [s.numArgs]⟩ :=
  if_pos at_.head

theorem body_other (at_ : s.At (c :: rest)) (other : c ≠ comma) :
    s.body = { s with cmd := s.cmd + 1 } := by
  apply if_neg
  rw [at_.head]
  exact other

/-- The rounds a command has characters for are enough. -/
theorem argvLoop_done (at_ : s.At rest) :
    ¬ ((argvLoop rest.length s).numArgs < consoleMaxNumArgs ∧
      (argvLoop rest.length s).memory (argvLoop rest.length s).cmd ≠ 0) := by
  induction rest generalizing s with
  | nil =>
      intro more
      exact more.2 (congrFun at_.text 0)
  | cons c rest ih =>
      by_cases room : s.numArgs < consoleMaxNumArgs
      · rw [argvLoop_cons at_ room]
        exact ih at_.next
      · rw [argvLoop_full _ room]
        exact fun more => room more.1

/-- What the loop is past stays. -/
theorem argvLoop_frame (fuel : Nat) :
    (∀ i < s.cmd, (argvLoop fuel s).memory i = s.memory i) ∧
      ∀ j < s.numArgs, (argvLoop fuel s).argv j = s.argv j := by
  induction fuel generalizing s with
  | zero => exact ⟨fun _ _ => rfl, fun _ _ => rfl⟩
  | succ fuel ih =>
      unfold argvLoop
      split
      · obtain ⟨memory, argv⟩ := ih (s := s.body)
        unfold ArgvLoop.body at memory argv ⊢
        split at memory
        · rename_i head
          rw [if_pos head] at argv ⊢
          constructor
          · intro i past
            rw [memory i (Nat.lt_succ_of_lt past)]
            exact Mem.store_outside (.inl past)
          · intro j past
            rw [argv j (Nat.lt_succ_of_lt past)]
            exact Mem.store_outside (.inl past)
        · rename_i head
          rw [if_neg head] at argv ⊢
          exact ⟨fun i past => memory i (Nat.lt_succ_of_lt past), argv⟩
      · exact ⟨fun _ _ => rfl, fun _ _ => rfl⟩

/-- The number of arguments. -/
theorem argvLoop_numArgs (at_ : s.At rest) (fits : s.numArgs ≤ consoleMaxNumArgs) :
    (argvLoop rest.length s).numArgs = min consoleMaxNumArgs (s.numArgs + rest.count comma) := by
  induction rest generalizing s with
  | nil => exact (Nat.min_eq_right fits).symm
  | cons c rest ih =>
      by_cases room : s.numArgs < consoleMaxNumArgs
      · rw [argvLoop_cons at_ room]
        by_cases head : c = comma
        · subst head
          have next : s.body.numArgs = s.numArgs + 1 := by rw [body_comma at_]
          rw [ih at_.next (by omega), next, List.count_cons_self]
          congr 1
          omega
        · have next : s.body.numArgs = s.numArgs := by rw [body_other at_ head]
          rw [ih at_.next (by omega), next, List.count_cons_of_ne head]
      · rw [argvLoop_full _ room]
        omega

/-- It stores to `argv` in order. -/
theorem argvLoop_stored (at_ : s.At rest) :
    s.numArgs ≤ (argvLoop rest.length s).numArgs ∧
      (argvLoop rest.length s).stored =
        s.stored ++ List.range' s.numArgs ((argvLoop rest.length s).numArgs - s.numArgs) := by
  induction rest generalizing s with
  | nil => simp [argvLoop]
  | cons c rest ih =>
      by_cases room : s.numArgs < consoleMaxNumArgs
      · rw [argvLoop_cons at_ room]
        obtain ⟨more, stored⟩ := ih at_.next
        by_cases head : c = comma
        · subst head
          have next : s.body.numArgs = s.numArgs + 1 := by rw [body_comma at_]
          have log : s.body.stored = s.stored ++ [s.numArgs] := by rw [body_comma at_]
          rw [next] at more stored
          refine ⟨by omega, ?_⟩
          have count : (argvLoop rest.length s.body).numArgs - s.numArgs =
              (argvLoop rest.length s.body).numArgs - (s.numArgs + 1) + 1 := by omega
          rw [stored, log, count, List.range'_succ, List.append_assoc, List.singleton_append]
        · have next : s.body.numArgs = s.numArgs := by rw [body_other at_ head]
          have log : s.body.stored = s.stored := by rw [body_other at_ head]
          rw [next] at more stored
          exact ⟨more, by rw [stored, log]⟩
      · rw [argvLoop_full _ room]
        simp

theorem store_here {α : Type} (m : Mem α) (a : Nat) (x : α) : m.store a [x] a = x := by
  simp [Mem.store]

/-- A string in memory is read back. -/
theorem cStringAt_text {m : Mem UInt8} {p n : Nat} (text : m.shift p = cText rest)
    (nonzero : 0 ∉ rest) (long : rest.length ≤ n) : cStringAt m n p = rest := by
  induction rest generalizing n p with
  | nil =>
      have stop : m p = 0 := congrFun text 0
      cases n with
      | zero => rfl
      | succ n => exact if_pos stop
  | cons c rest ih =>
      obtain ⟨n, rfl⟩ : ∃ k, n = k + 1 := ⟨n - 1, by simp at long; omega⟩
      have head : m p = c := congrFun text 0
      have tail : m.shift (p + 1) = cText rest := by
        funext i
        have cell := congrFun text (i + 1)
        simpa [Mem.shift, cText, Nat.add_assoc, Nat.add_comm 1 i] using cell
      rw [List.mem_cons, not_or] at nonzero
      have go : ¬ m p = 0 := by
        rw [head]
        exact fun zero => nonzero.1 zero.symm
      rw [cStringAt, if_neg go, head, ih tail nonzero.2 (by simpa using long)]

/-- The string that starts where the loop is: it ends at the next comma, if the loop gets
there. -/
theorem cStringAt_argvLoop (at_ : s.At rest) {n : Nat} (long : rest.length ≤ n) :
    cStringAt (argvLoop rest.length s).memory n s.cmd =
      if s.numArgs < consoleMaxNumArgs then rest.takeWhile (· != comma) else rest := by
  induction rest generalizing s n with
  | nil =>
      rw [show cStringAt (argvLoop [].length s).memory n s.cmd = [] from
        cStringAt_text at_.text at_.nonzero long]
      simp
  | cons c rest ih =>
      by_cases room : s.numArgs < consoleMaxNumArgs
      · obtain ⟨n, rfl⟩ : ∃ k, n = k + 1 := ⟨n - 1, by simp at long; omega⟩
        have shorter : rest.length ≤ n := by simpa using long
        have later := ih at_.next shorter
        have here := (argvLoop_frame (s := s.body) rest.length).1 s.cmd
        rw [argvLoop_cons at_ room, if_pos room]
        by_cases head : c = comma
        · subst head
          rw [body_comma at_] at here ⊢
          rw [cStringAt, here (Nat.lt_succ_self _), if_pos (store_here _ _ _)]
          simp
        · rw [body_other at_ head] at here later ⊢
          have nonzero : ¬ c = 0 := fun zero => at_.nonzero (zero ▸ List.mem_cons_self)
          rw [cStringAt, here (Nat.lt_succ_self _), at_.head, if_neg nonzero, later, if_pos room]
          simp [head]
      · rw [argvLoop_full _ room, if_neg room]
        exact cStringAt_text at_.text at_.nonzero long

/-- The strings the pointers stored by the loop lead to. -/
theorem strings_argvLoop (at_ : s.At rest) {n : Nat} (long : rest.length ≤ n) :
    ((List.range' s.numArgs ((argvLoop rest.length s).numArgs - s.numArgs)).map fun i =>
        cStringAt (argvLoop rest.length s).memory n (((argvLoop rest.length s).argv i).getD 0)) =
      argvFrom (consoleMaxNumArgs - s.numArgs) rest := by
  induction rest generalizing s with
  | nil => simp [argvLoop, argvFrom]
  | cons c rest ih =>
      by_cases room : s.numArgs < consoleMaxNumArgs
      · have shorter : rest.length ≤ n := by
          simp at long
          omega
        obtain ⟨r, left⟩ : ∃ r, consoleMaxNumArgs - s.numArgs = r + 1 :=
          ⟨consoleMaxNumArgs - s.numArgs - 1, by omega⟩
        have later := ih at_.next shorter
        have more := (argvLoop_stored at_.next).1
        rw [argvLoop_cons at_ room, left]
        by_cases head : c = comma
        · subst head
          have string := cStringAt_argvLoop at_.next shorter
          have pointer := (argvLoop_frame (s := s.body) rest.length).2 s.numArgs
          have next : s.body.numArgs = s.numArgs + 1 := by rw [body_comma at_]
          have cmd : s.body.cmd = s.cmd + 1 := by rw [body_comma at_]
          have stored : s.body.argv s.numArgs = some (s.cmd + 1) := by
            rw [body_comma at_]
            exact store_here _ _ _
          rw [next] at later more string pointer
          rw [cmd] at string
          have count : (argvLoop rest.length s.body).numArgs - s.numArgs =
              (argvLoop rest.length s.body).numArgs - (s.numArgs + 1) + 1 := by omega
          have left' : consoleMaxNumArgs - (s.numArgs + 1) = r := by omega
          rw [count, List.range'_succ, List.map_cons, later, pointer (Nat.lt_succ_self _), stored,
            left', Option.getD_some, string, argvFrom, if_pos rfl]
          congr 1
          by_cases last : r = 0
          · rw [if_pos last, if_neg (by omega)]
          · rw [if_neg last, if_pos (by omega)]
        · have next : s.body.numArgs = s.numArgs := by rw [body_other at_ head]
          rw [next, left] at later
          rw [later, argvFrom, if_neg head]
      · have none : consoleMaxNumArgs - s.numArgs = 0 := by omega
        rw [argvLoop_full _ room, none]
        simp [argvFrom]

end Loop

/-! ## The arguments -/

section Arguments

variable {cmd : List UInt8}

/-- The loop starts at the command. -/
theorem at_start (text : 0 ∉ cmd) : ArgvLoop.At ⟨0, cText cmd, 0, fun _ => none, []⟩ cmd :=
  ⟨by funext i; simp [Mem.shift], text⟩

/-- `argc`. -/
theorem numArgs_createArgv (text : 0 ∉ cmd) :
    (createArgvInPlace cmd).numArgs = min consoleMaxNumArgs (cmd.count comma) := by
  have numArgs := argvLoop_numArgs (at_start text) (Nat.zero_le _)
  rwa [Nat.zero_add] at numArgs

/-- The stores to `argv`: the last one is that of the NULL. -/
theorem stored_createArgv (text : 0 ∉ cmd) :
    (createArgvInPlace cmd).stored = List.range ((createArgvInPlace cmd).numArgs + 1) := by
  have stored := (argvLoop_stored (at_start text)).2
  rw [Nat.sub_zero, List.nil_append, ← List.range_eq_range'] at stored
  show (splitCommand cmd).stored ++ [(splitCommand cmd).numArgs] = _
  rw [List.range_succ]
  exact congrArg (· ++ [(splitCommand cmd).numArgs]) stored

/-- **In place**, the arguments are those of the split command. -/
theorem argvStrings_eq (text : 0 ∉ cmd) : argvStrings cmd = createArgv cmd := by
  have strings := strings_argvLoop (at_start text) (Nat.le_refl cmd.length)
  rw [Nat.sub_zero, Nat.sub_zero, ← List.range_eq_range'] at strings
  unfold createArgv
  rw [← strings]
  apply List.map_congr_left
  intro i inside
  have below : i < (splitCommand cmd).numArgs := List.mem_range.mp inside
  show cStringAt (splitCommand cmd).memory cmd.length _ = _
  rw [show (createArgvInPlace cmd).argv i = (splitCommand cmd).argv i from
    Mem.store_outside (.inl below)]
  rfl

end Arguments

/-! ## Splitting and joining -/

/-- The name and the arguments, joined again. -/
theorem intercalate_argvFrom (room : Nat) (cmd : List UInt8) :
    [comma].intercalate
        ((if room = 0 then cmd else cmd.takeWhile (· != comma)) :: argvFrom room cmd) = cmd := by
  induction cmd generalizing room with
  | nil => simp [argvFrom]
  | cons c rest ih =>
      cases room with
      | zero => simp [argvFrom]
      | succ room =>
          rw [if_neg (Nat.succ_ne_zero _)]
          by_cases head : c = comma
          · subst head
            rw [argvFrom, if_pos rfl, List.takeWhile_cons_of_neg (by simp),
              List.intercalate_cons_cons, ih]
            rfl
          · have later := ih (room + 1)
            rw [if_neg (Nat.succ_ne_zero _)] at later
            rw [argvFrom, if_neg head, List.takeWhile_cons_of_pos (by simpa using head)]
            cases argv : argvFrom (room + 1) rest with
            | nil =>
                rw [argv] at later
                simpa using later
            | cons first more =>
                rw [argv, List.intercalate_cons_cons] at later
                rw [List.intercalate_cons_cons, List.cons_append, List.cons_append, later]

/-- With room for all of them the arguments are what stands between the commas. -/
theorem splitOn_argvFrom {room : Nat} {cmd : List UInt8} (fits : cmd.count comma ≤ room) :
    (if room = 0 then cmd else cmd.takeWhile (· != comma)) :: argvFrom room cmd =
      cmd.splitOn comma := by
  induction cmd generalizing room with
  | nil => simp [argvFrom]
  | cons c rest ih =>
      by_cases head : c = comma
      · subst head
        rw [List.count_cons_self] at fits
        obtain ⟨r, rfl⟩ : ∃ r, room = r + 1 := ⟨room - 1, by omega⟩
        rw [if_neg (Nat.succ_ne_zero _), argvFrom, if_pos rfl,
          List.takeWhile_cons_of_neg (by simp), ih (by omega)]
        simp [List.splitOn, List.splitOnP_cons_eq_if_modifyHead]
      · rw [List.count_cons_of_ne head] at fits
        have later := ih fits
        have split : (c :: rest).splitOn comma = (rest.splitOn comma).modifyHead (c :: ·) := by
          simp [List.splitOn, List.splitOnP_cons_eq_if_modifyHead, head]
        rw [split, ← later, List.modifyHead_cons]
        cases room with
        | zero => cases rest <;> simp [argvFrom]
        | succ room =>
            rw [if_neg (Nat.succ_ne_zero _), if_neg (Nat.succ_ne_zero _), argvFrom, if_neg head,
              List.takeWhile_cons_of_pos (by simpa using head)]

/-! ## Matching -/

/-- The part before the first comma. -/
def commandName (cmd : List UInt8) : List UInt8 := cmd.takeWhile (· != comma)

/-- An entry matches if its name is the command's. -/
theorem matches_iff (cmd name : List UInt8) :
    (strncmpZero cmd name (commandName cmd).length && (commandName cmd).length == name.length) =
      true ↔ name = commandName cmd := by
  have front : cmd.take (commandName cmd).length = commandName cmd :=
    (List.prefix_iff_eq_take.mp (List.takeWhile_prefix _)).symm
  rw [Bool.and_eq_true, strncmpZero, front, beq_iff_eq, beq_iff_eq]
  constructor
  · rintro ⟨same, length⟩
    rw [length, List.take_length] at same
    exact same.symm
  · rintro rfl
    exact ⟨List.take_length.symm, rfl⟩

/-- The names of the table are distinct. -/
theorem cmdStr_injective (i j : Fin commands.length)
    (same : (commands.get i).cmdStr = (commands.get j).cmdStr) : i = j := by
  revert i j
  decide

theorem matchCommand_eq_some {cmd : List UInt8} {i : Fin commands.length} :
    matchCommand cmd = some i ↔ (commands.get i).cmdStr = commandName cmd := by
  have entry (j : Fin commands.length) := matches_iff cmd (commands.get j).cmdStr
  unfold matchCommand
  rw [List.findFinIdx?_eq_some_iff]
  constructor
  · rintro ⟨here, -⟩
    exact (entry i).mp here
  · intro name
    refine ⟨(entry i).mpr name, ?_⟩
    intro j before same
    have := cmdStr_injective j i (((entry j).mp same).trans name.symm)
    omega

theorem matchCommand_eq_none {cmd : List UInt8} :
    matchCommand cmd = none ↔ commandName cmd ∉ commands.map (·.cmdStr) := by
  rw [Option.eq_none_iff_forall_ne_some]
  constructor
  · intro none mem
    obtain ⟨command, entry, name⟩ := List.mem_map.mp mem
    obtain ⟨i, rfl⟩ := List.mem_iff_get.mp entry
    exact none i (matchCommand_eq_some.mpr name)
  · intro unknown i known
    exact unknown (List.mem_map.mpr ⟨_, List.get_mem _ i, matchCommand_eq_some.mp known⟩)

/-- What the loop finds. -/
theorem matchFrom_snd (buffer : List UInt8) (n k : Nat) (cs : List ConsoleCommand) :
    (matchFrom buffer n k cs).2 =
      (cs.findIdx? fun command =>
        strncmpZero buffer command.cmdStr n && n == command.cmdStr.length).map (k + ·) := by
  induction cs generalizing k with
  | nil => rfl
  | cons command cs ih =>
      rw [matchFrom, List.findIdx?_cons]
      split
      · rfl
      · show (matchFrom buffer n (k + 1) cs).2 = _
        rw [ih, Option.map_map]
        congr 1
        funext i
        simp only [Function.comp_apply]
        omega

/-- The entries the loop looks at. -/
theorem matchFrom_fst (buffer : List UInt8) (n k : Nat) (cs : List ConsoleCommand) :
    ∀ event ∈ (matchFrom buffer n k cs).1, ∃ i ≤ k + cs.length, event = .entry i := by
  induction cs generalizing k with
  | nil =>
      intro event mem
      exact ⟨k, Nat.le_refl _, List.mem_singleton.mp mem⟩
  | cons command cs ih =>
      intro event mem
      rw [matchFrom] at mem
      split at mem
      · exact ⟨k, by simp, List.mem_singleton.mp mem⟩
      · rcases List.mem_cons.mp mem with here | later
        · exact ⟨k, by simp, here⟩
        · obtain ⟨i, bound, is⟩ := ih (k + 1) event later
          exact ⟨i, by simp only [List.length_cons]; omega, is⟩

/-! ## The events of a command -/

section Events

variable {stray : Bool} {cmd : List UInt8}

/-- The entries `matchCommand` looks at. -/
def matchEvents (cmd : List UInt8) : List ConsoleEvent :=
  (matchFrom cmd (commandName cmd).length 0 commands).1

theorem processEvents_none (unknown : matchCommand cmd = none) :
    processEvents stray cmd =
      matchEvents cmd ++ .entry (-1) :: if stray then [.commandNotFound] else [] := by
  have found : (matchFrom cmd (commandName cmd).length 0 commands).2 = none := by
    rw [matchFrom_snd, List.findIdx?_eq_map_findFinIdx?_val]
    show (Option.map _ (matchCommand cmd)).map _ = none
    rw [unknown]
    rfl
  unfold processEvents
  dsimp only
  rw [show (cmd.takeWhile (· != comma)).length = (commandName cmd).length from rfl, found]
  rfl

theorem processEvents_some {i : Fin commands.length} (known : matchCommand cmd = some i) :
    processEvents stray cmd =
      matchEvents cmd ++
        ((createArgvInPlace cmd).stored.map ConsoleEvent.slot ++ [ConsoleEvent.entry i.val] ++
        (if (createArgvInPlace cmd).numArgs < (commands.get i).minArguments then
          [ConsoleEvent.needArgs (commands.get i).minArguments]
        else [ConsoleEvent.call (commands.get i).callback (argvStrings cmd)]) ++
        [ConsoleEvent.entry i.val, ConsoleEvent.entry i.val]) := by
  have found : (matchFrom cmd (commandName cmd).length 0 commands).2 = some i.val := by
    rw [matchFrom_snd, List.findIdx?_eq_map_findFinIdx?_val]
    show (Option.map _ (matchCommand cmd)).map _ = _
    rw [known]
    simp
  unfold processEvents
  dsimp only
  rw [show (cmd.takeWhile (· != comma)).length = (commandName cmd).length from rfl, found]
  dsimp only
  have entry : commands.getD i.val ⟨[], 0, .help⟩ = commands.get i := by
    simp [List.getD_eq_getElem?_getD]
  rw [entry]
  rfl

theorem matchEvents_entry : ∀ event ∈ matchEvents cmd, ∃ i ≤ commands.length,
    event = .entry (i : Nat) := by
  intro event mem
  obtain ⟨i, bound, is⟩ := matchFrom_fst cmd (commandName cmd).length 0 commands event mem
  exact ⟨i, by rwa [Nat.zero_add] at bound, is⟩

/-- Accesses are not seen. -/
theorem filter_matchEvents : (matchEvents cmd).filter (·.visible) = [] := by
  rw [List.filter_eq_nil_iff]
  intro event mem
  obtain ⟨i, -, rfl⟩ := matchEvents_entry event mem
  exact Bool.false_ne_true

theorem filter_slots (stored : List Nat) :
    (stored.map ConsoleEvent.slot).filter (·.visible) = [] := by
  rw [List.filter_eq_nil_iff]
  intro event mem
  obtain ⟨i, -, rfl⟩ := List.mem_map.mp mem
  exact Bool.false_ne_true

/-- What is seen of a command that is none. -/
theorem visible_none (unknown : matchCommand cmd = none) :
    (processEvents stray cmd).filter (·.visible) = if stray then [.commandNotFound] else [] := by
  rw [processEvents_none unknown, List.filter_append, filter_matchEvents]
  cases stray <;> rfl

/-- What is seen of a command: its call, or that arguments are missing. -/
theorem visible_some {i : Fin commands.length} (known : matchCommand cmd = some i) :
    (processEvents stray cmd).filter (·.visible) =
      if (createArgvInPlace cmd).numArgs < (commands.get i).minArguments then
        [.needArgs (commands.get i).minArguments]
      else [.call (commands.get i).callback (argvStrings cmd)] := by
  rw [processEvents_some known]
  simp only [List.filter_append, filter_matchEvents, filter_slots]
  split <;> rfl

/-- The accesses of a command that is known are in range, up to 31 arguments. -/
theorem inRange_some_iff (text : 0 ∉ cmd) {i : Fin commands.length}
    (known : matchCommand cmd = some i) :
    (∀ event ∈ processEvents stray cmd, event.InRange) ↔ cmd.count comma ≤ 31 := by
  have entry : ConsoleEvent.InRange (.entry i.val) :=
    ⟨Int.natCast_nonneg _, Int.lt_add_one_of_le (Int.ofNat_le.mpr (Nat.le_of_lt i.isLt))⟩
  rw [processEvents_some known, stored_createArgv text, numArgs_createArgv text]
  constructor
  · intro inRange
    -- the NULL behind the last argument
    have last := inRange (.slot (min consoleMaxNumArgs (cmd.count comma))) (by
      refine List.mem_append_right _ (List.mem_append_left _ (List.mem_append_left _
        (List.mem_append_left _ (List.mem_map.mpr ⟨_, ?_, rfl⟩))))
      exact List.mem_range.mpr (Nat.lt_succ_self _))
    have bound : min consoleMaxNumArgs (cmd.count comma) < 32 := last
    simp only [consoleMaxNumArgs] at bound
    omega
  · intro few event mem
    simp only [List.mem_append, List.mem_map, List.mem_range] at mem
    rcases mem with mem | ((⟨j, below, rfl⟩ | mem) | mem) | mem
    · obtain ⟨j, bound, rfl⟩ := matchEvents_entry event mem
      exact ⟨Int.natCast_nonneg _, Int.lt_add_one_of_le (Int.ofNat_le.mpr bound)⟩
    · show j < 32
      omega
    · rw [List.mem_singleton.mp mem]
      exact entry
    · split at mem
      · rw [List.mem_singleton.mp mem]
        trivial
      · rw [List.mem_singleton.mp mem]
        trivial
    · simp only [List.mem_cons, List.not_mem_nil, or_false, or_self] at mem
      rw [mem]
      exact entry

end Events

/-! ## The events are those of `processCommand` -/

section Refinement

variable (atoi : List UInt8 → Int × Bool)

/-- Accesses change nothing. -/
theorem eventFSM_visible (s : CommandState) (events : List ConsoleEvent) :
    (eventFSM atoi).after s events = (eventFSM atoi).after s (events.filter (·.visible)) ∧
      (eventFSM atoi).outputs s events =
        (eventFSM atoi).outputs s (events.filter (·.visible)) := by
  induction events generalizing s with
  | nil => exact ⟨rfl, rfl⟩
  | cons event events ih =>
      by_cases shown : event.visible
      · obtain ⟨after, outputs⟩ := ih ((eventFSM atoi).next s event)
        rw [List.filter_cons_of_pos shown, Fsm.outputs_cons, Fsm.outputs_cons, outputs]
        exact ⟨after, rfl⟩
      · have silent : (eventFSM atoi).step s event = (s, []) := by
          cases event with
          | entry i => rfl
          | slot i => rfl
          | call callback argv => exact absurd rfl shown
          | needArgs minArguments => exact absurd rfl shown
          | commandNotFound => exact absurd rfl shown
        rw [List.filter_cons_of_neg shown, Fsm.after_cons, Fsm.outputs_cons, Fsm.next, Fsm.emit,
          silent]
        exact ih s

/-- **Access by access**, a command does what `processCommand` does. -/
theorem processCommand_events (stray : Bool) (s : CommandState) {cmd : List UInt8}
    (text : 0 ∉ cmd) :
    processCommand atoi stray s cmd =
      ((eventFSM atoi).after s (processEvents stray cmd),
        (eventFSM atoi).outputs s (processEvents stray cmd)) := by
  obtain ⟨after, outputs⟩ := eventFSM_visible atoi s (processEvents stray cmd)
  rw [after, outputs]
  unfold processCommand
  cases matched : matchCommand cmd with
  | none =>
      rw [visible_none matched]
      cases stray <;> rfl
  | some i =>
      have argc : (createArgvInPlace cmd).numArgs = (createArgv cmd).length := by
        rw [← argvStrings_eq text, argvStrings, List.length_map, List.length_range]
      rw [visible_some matched, argvStrings_eq text, argc]
      dsimp only
      split
      · rfl
      · simp [eventFSM, Fsm.next, Fsm.emit, ConsoleEvent.act]

end Refinement

/-! ## Commands -/

/-- What is asked of a command: accesses in range; a report and no call, if the name is
none; otherwise the arguments are what stands between the commas, 32 at most, with the rest
in the last, and the entry's function is called exactly if they are enough. -/
structure ConsoleSplit (stray : Bool) (cmd : List UInt8) : Prop where
  inRange : ∀ event ∈ processEvents stray cmd, event.InRange
  unknown : commandName cmd ∉ commands.map (·.cmdStr) →
    (processEvents stray cmd).filter (·.visible) = [.commandNotFound]
  argc : commandName cmd ∈ commands.map (·.cmdStr) →
    (createArgvInPlace cmd).numArgs = min (cmd.count comma) 32 ∧
      (argvStrings cmd).length = (createArgvInPlace cmd).numArgs
  split : commandName cmd ∈ commands.map (·.cmdStr) → cmd.count comma ≤ 32 →
    commandName cmd :: argvStrings cmd = cmd.splitOn comma
  join : commandName cmd ∈ commands.map (·.cmdStr) →
    [comma].intercalate (commandName cmd :: argvStrings cmd) = cmd
  call : ∀ command ∈ commands, command.cmdStr = commandName cmd →
    (processEvents stray cmd).filter (·.visible) =
      if command.minArguments ≤ (createArgvInPlace cmd).numArgs then
        [.call command.callback (argvStrings cmd)]
      else [.needArgs command.minArguments]

/-- **Splitting.** It is as it should be exactly for the commands that have an entry and at
most 31 commas. -/
theorem consoleSplit_iff (stray : Bool) {cmd : List UInt8} (text : 0 ∉ cmd) :
    ConsoleSplit stray cmd ↔
      commandName cmd ∈ commands.map (·.cmdStr) ∧ cmd.count comma ≤ 31 := by
  cases matched : matchCommand cmd with
  | none =>
      have unknown := matchCommand_eq_none.mp matched
      refine iff_of_false ?_ fun known => unknown known.1
      intro split
      have before := split.inRange (.entry (-1)) (by
        rw [processEvents_none matched]
        exact List.mem_append_right _ List.mem_cons_self)
      exact absurd before.1 (by decide)
  | some i =>
      have name := matchCommand_eq_some.mp matched
      have known : commandName cmd ∈ commands.map (·.cmdStr) :=
        List.mem_map.mpr ⟨_, List.get_mem _ i, name⟩
      rw [and_iff_right known]
      constructor
      · intro split
        exact (inRange_some_iff text matched).mp split.inRange
      · intro few
        have join := intercalate_argvFrom consoleMaxNumArgs cmd
        have argc := numArgs_createArgv text
        rw [if_neg (by decide)] at join
        refine ⟨(inRange_some_iff text matched).mpr few, fun unknown => absurd known unknown,
          fun _ => ⟨by rw [argc, Nat.min_comm]; rfl, ?_⟩, ?_, ?_, ?_⟩
        · rw [argvStrings, List.length_map, List.length_range]
        · intro _ fits
          have split := @splitOn_argvFrom consoleMaxNumArgs _ fits
          rw [if_neg (by decide)] at split
          rw [argvStrings_eq text]
          exact split
        · intro _
          rw [argvStrings_eq text]
          exact join
        · intro command entry same
          obtain ⟨j, rfl⟩ := List.mem_iff_get.mp entry
          obtain rfl := cmdStr_injective j i (same.trans name.symm)
          rw [visible_some matched]
          by_cases enough : (commands.get j).minArguments ≤ (createArgvInPlace cmd).numArgs
          · rw [if_pos enough, if_neg (by omega)]
          · rw [if_neg enough, if_pos (by omega)]

/-- A command with two arguments, the first of them empty. -/
theorem consoleSplit_at : ConsoleSplit true (ascii "setLED,,1") ↔
    commandName (ascii "setLED,,1") ∈ commands.map (·.cmdStr) ∧
      (ascii "setLED,,1").count comma ≤ 31 :=
  consoleSplit_iff true (by decide)

/-- A name without an entry makes the code look before the table. -/
theorem unknown_command_fails : ¬ ∀ (stray : Bool) (cmd : List UInt8), 0 ∉ cmd →
    cmd.length ≤ 254 → ConsoleSplit stray cmd := by
  intro split
  have before := (split true (ascii "x") (by decide) (by decide)).inRange (.entry (-1)) (by decide)
  exact absurd before.1 (by decide)

end OlympusFirmware.Olympus
