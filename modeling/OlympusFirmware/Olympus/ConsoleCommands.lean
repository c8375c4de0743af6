import OlympusFirmware.Lib.Fsm
import OlympusFirmware.Olympus.MessageTables

/-!
# The console's commands (`olympus/drivers/console.c`)

`processCommand` looks the name before the first comma up in the table `commands`, cuts
the rest into arguments and calls the command's function. A command is the string between
the brackets; what is sent to the other boards and set on this one is an output. What the
console prints is left out, apart from its two errors.

The numbers come from `strtol`, with a `long` of 32 bits. It sets `errno` when the number
is out of range and never clears it, and nothing else does: `console_setSpeedTarget` and
`console_setSteerTarget` test the flag all earlier commands have left. `atoi` is a
parameter, with whether it sets the flag.

A name that is not in the table makes the code read the entry before its first one; the
parameter `stray` says whether a NULL is found there. `kill` does not return.
-/

namespace OlympusFirmware.Olympus

open OlympusFirmware.Lib

/-! ## The library -/

/-- The bytes of a string. -/
def ascii (s : String) : List UInt8 := s.toList.map fun c => UInt8.ofNat c.toNat

/-- `isspace`. -/
def isSpace (b : UInt8) : Bool := b == 0x20 || (0x09 ≤ b && b ≤ 0x0D)

/-- `isdigit`. -/
def isDigit (b : UInt8) : Bool := 0x30 ≤ b && b ≤ 0x39

/-- `LONG_MAX`. -/
def longMax : Int := 2147483647

/-- `LONG_MIN`. -/
def longMin : Int := -2147483648

/-- The sign of a number, and what follows. -/
def takeSign : List UInt8 → Bool × List UInt8
  | 0x2D :: rest => (true, rest)
  | 0x2B :: rest => (false, rest)
  | rest => (false, rest)

/-- The number the leading digits stand for. -/
def decimal (s : List UInt8) : Nat :=
  (s.takeWhile isDigit).foldl (fun n digit => 10 * n + (digit.toNat - 0x30)) 0

/-- `strtol(s, NULL, 10)`: the value, and whether `errno` is set. -/
def strtol (s : List UInt8) : Int × Bool :=
  let signed := takeSign (s.dropWhile isSpace)
  let value : Int := if signed.1 then -(decimal signed.2 : Int) else decimal signed.2
  if longMax < value then (longMax, true)
  else if value < longMin then (longMin, true)
  else (value, false)

/-- Whether `strncmp(a, b, n)` is zero. -/
def strncmpZero (a b : List UInt8) (n : Nat) : Bool := a.take n == b.take n

/-! ## The table -/

/-- `','`. -/
def comma : UInt8 := 0x2C

/-- `CONSOLE_MAX_NUM_ARGS`. -/
def consoleMaxNumArgs : Nat := 32

/-- The functions of the table. -/
inductive ConsoleCallback
  | setSegment | setLED | setFNR | setSpeedTarget | setSteerTarget | setEchoMode
  | getSpeed | getFNR | getSpeedTarget | getSteerPot | getPower
  | kill | help | clear
deriving DecidableEq

/-- `ConsoleCommand`, without the text that `help` prints. -/
structure ConsoleCommand where
  cmdStr : List UInt8
  minArguments : Nat
  callback : ConsoleCallback
deriving DecidableEq

/-- `commands`, up to its last entry, which is NULL. -/
def commands : List ConsoleCommand :=
  [ ⟨ascii "setSegment", 2, .setSegment⟩,
    ⟨ascii "setLED", 2, .setLED⟩,
    ⟨ascii "setFNR", 1, .setFNR⟩,
    ⟨ascii "setSpeedTarget", 1, .setSpeedTarget⟩,
    ⟨ascii "setSteerTarget", 1, .setSteerTarget⟩,
    ⟨ascii "setEchoMode", 1, .setEchoMode⟩,
    ⟨ascii "getSpeed", 0, .getSpeed⟩,
    ⟨ascii "getFNR", 0, .getFNR⟩,
    ⟨ascii "getSpeedTarget", 0, .getSpeedTarget⟩,
    ⟨ascii "getSteerPot", 0, .getSteerPot⟩,
    ⟨ascii "getPower", 0, .getPower⟩,
    ⟨ascii "kill", 0, .kill⟩,
    ⟨ascii "help", 0, .help⟩,
    ⟨ascii "clear", 0, .clear⟩ ]

/-- `matchCommand`: the index of the first entry with this name. -/
def matchCommand (buffer : List UInt8) : Option (Fin commands.length) :=
  let commandLen := (buffer.takeWhile (· != comma)).length
  commands.findFinIdx? fun command =>
    strncmpZero buffer command.cmdStr commandLen && commandLen == command.cmdStr.length

/-- `createArgv`, with room for so many arguments: each comma it passes ends what stands
before it. With no room left the rest is one argument, commas and all. -/
def argvFrom : Nat → List UInt8 → List (List UInt8)
  | _, [] => []
  | 0, _ :: _ => []
  | room + 1, c :: rest =>
      if c = comma then
        (if room = 0 then rest else rest.takeWhile (· != comma)) :: argvFrom room rest
      else argvFrom (room + 1) rest

/-- `createArgv`. -/
def createArgv (cmd : List UInt8) : List (List UInt8) := argvFrom consoleMaxNumArgs cmd

/-! ## The commands -/

/-- What commands leave behind: whether `errno` is set, and whether the program still
runs. -/
structure CommandState where
  errno : Bool
  running : Bool
deriving DecidableEq

/-- The state at reset. -/
def CommandState.reset : CommandState := ⟨false, true⟩

/-- What commands do. -/
inductive CommandAction
  | send (request : RequestFunction)
  | setSevenSeg (digits : List UInt8)
  | writeLED (ledNum state : UInt8)
  | pwradc
  | killBoard
  | needArgs (minArguments : Nat)
  | commandNotFound
deriving DecidableEq

/-- `parseUint8`: it returns the number's last eight bits, whatever it finds wrong. -/
def parseUint8 (errno : Bool) (str : List UInt8) : UInt8 × Bool :=
  let num := strtol str
  (UInt8.ofInt num.1, errno || num.2)

/-- `parseUint16`. -/
def parseUint16 (errno : Bool) (str : List UInt8) : UInt16 × Bool :=
  let num := strtol str
  (UInt16.ofInt num.1, errno || num.2)

section Commands

variable (atoi : List UInt8 → Int × Bool) (stray : Bool)

/-- The functions of the table. `argv` has what they read: the number of arguments has been
checked. -/
def ConsoleCallback.call (s : CommandState) (argv : List (List UInt8)) :
    ConsoleCallback → CommandState × List CommandAction
  | .setSegment => (s, [.setSevenSeg (argv.getD 0 [])])
  | .setLED =>
      let ledNum := atoi (argv.getD 0 [])
      let state := atoi (argv.getD 1 [])
      ({ s with errno := s.errno || ledNum.2 || state.2 },
        [.writeLED (UInt8.ofInt ledNum.1) (UInt8.ofInt state.1)])
  | .setFNR =>
      let (state, errno) := parseUint8 s.errno (argv.getD 0 [])
      ({ s with errno := errno }, if state ≤ 2 then [.send (.setFNR state)] else [])
  | .setSpeedTarget =>
      let (num, errno) := parseUint16 s.errno (argv.getD 0 [])
      ({ s with errno := errno },
        if !errno then [.send (.updateHermesSetSpeedTarget num)] else [])
  | .setSteerTarget =>
      let (angle, errno) := parseUint8 s.errno (argv.getD 0 [])
      ({ s with errno := errno },
        if !errno && angle < 180 then [.send (.setHephaestusSteering angle)] else [])
  | .setEchoMode => ({ s with errno := s.errno || (strtol (argv.getD 0 [])).2 }, [])
  | .getPower => (s, [.pwradc])
  | .kill => ({ s with running := false }, [.killBoard])
  | .getSpeed => (s, [])
  | .getFNR => (s, [])
  | .getSpeedTarget => (s, [])
  | .getSteerPot => (s, [])
  | .help => (s, [])
  | .clear => (s, [])

/-- `processCommand`. -/
def processCommand (s : CommandState) (cmd : List UInt8) : CommandState × List CommandAction :=
  match matchCommand cmd with
  | some i =>
      let argv := createArgv cmd
      if argv.length < (commands.get i).minArguments then
        (s, [.needArgs (commands.get i).minArguments])
      else (commands.get i).callback.call atoi s argv
  | none => (s, if stray then [.commandNotFound] else [])

/-- One command, if the program still runs. -/
def commandStep (s : CommandState) (cmd : List UInt8) : CommandState × List CommandAction :=
  if s.running then processCommand atoi stray s cmd else (s, [])

/-- The commands as a machine. -/
def commandFSM : Fsm CommandState (List UInt8) CommandAction where
  step := commandStep atoi stray

end Commands

/-! ## What commands leave for later ones -/

section Errno

variable (atoi : List UInt8 → Int × Bool) (stray : Bool)

/-- Whether a number among the arguments is out of range. -/
def ConsoleCallback.rangeError (argv : List (List UInt8)) : ConsoleCallback → Bool
  | .setLED => (atoi (argv.getD 0 [])).2 || (atoi (argv.getD 1 [])).2
  | .setFNR => (strtol (argv.getD 0 [])).2
  | .setSpeedTarget => (strtol (argv.getD 0 [])).2
  | .setSteerTarget => (strtol (argv.getD 0 [])).2
  | .setEchoMode => (strtol (argv.getD 0 [])).2
  | _ => false

/-- Whether a command reads a number that is out of range. -/
def rangeError (cmd : List UInt8) : Bool :=
  match matchCommand cmd with
  | some i =>
      !decide ((createArgv cmd).length < (commands.get i).minArguments) &&
        (commands.get i).callback.rangeError atoi (createArgv cmd)
  | none => false

theorem call_errno (s : CommandState) (argv : List (List UInt8)) (callback : ConsoleCallback) :
    (callback.call atoi s argv).1.errno = (s.errno || callback.rangeError atoi argv) := by
  cases callback <;>
    simp [ConsoleCallback.call, ConsoleCallback.rangeError, parseUint8, parseUint16, Bool.or_assoc]

/-- **One command** sets the flag if it reads a number out of range, and never clears it. -/
theorem processCommand_errno (s : CommandState) (cmd : List UInt8) :
    (processCommand atoi stray s cmd).1.errno = (s.errno || rangeError atoi cmd) := by
  unfold processCommand rangeError
  cases matchCommand cmd with
  | none => simp
  | some i =>
      dsimp only
      generalize commands.get i = command
      by_cases few : (createArgv cmd).length < command.minArguments
      · simp [few]
      · simp [few, call_errno]

variable {atoi stray}

/-- After a run that has returned, the flag says whether any number was out of range. -/
theorem errno_after {s : CommandState} {hist : List (List UInt8)}
    (returned : ((commandFSM atoi stray).after s hist).running = true) :
    s.running = true ∧
      ((commandFSM atoi stray).after s hist).errno = (s.errno || hist.any (rangeError atoi)) := by
  induction hist generalizing s with
  | nil => exact ⟨returned, by simp⟩
  | cons cmd rest ih =>
      rw [Fsm.after_cons] at returned ⊢
      obtain ⟨later, flag⟩ := ih returned
      -- a program that has stopped does not start again
      have now : s.running = true := by
        by_contra stopped
        have same : (commandFSM atoi stray).next s cmd = s :=
          congrArg Prod.fst (if_neg stopped : commandStep atoi stray s cmd = (s, []))
        rw [same] at later
        exact stopped later
      have step : (commandFSM atoi stray).next s cmd = (processCommand atoi stray s cmd).1 :=
        congrArg Prod.fst (if_pos now : commandStep atoi stray s cmd = _)
      refine ⟨now, ?_⟩
      rw [flag, step, processCommand_errno, List.any_cons, Bool.or_assoc]

end Errno

/-! ## The two motion commands -/

/-- `setSpeedTarget` and `setSteerTarget`. -/
inductive Motion
  | speed
  | steer
deriving DecidableEq

namespace Motion

/-- Their functions. -/
def callback : Motion → ConsoleCallback
  | .speed => .setSpeedTarget
  | .steer => .setSteerTarget

/-- The values they take are below this. -/
def limit : Motion → Int
  | .speed => 65536
  | .steer => 180

/-- What they send for a value. -/
def request (v : Int) : Motion → RequestFunction
  | .speed => .updateHermesSetSpeedTarget (UInt16.ofNat v.toNat)
  | .steer => .setHephaestusSteering (UInt8.ofNat v.toNat)

/-- A command string that calls one of them with this argument. -/
def Is (m : Motion) (cmd arg : List UInt8) : Prop :=
  ∃ i more, matchCommand cmd = some i ∧ (commands.get i).callback = m.callback ∧
    createArgv cmd = arg :: more

end Motion

section Motion

variable (atoi : List UInt8 → Int × Bool) (stray : Bool)

/-- After these commands, this one sends exactly this request. -/
def Sends (hist : List (List UInt8)) (cmd : List UInt8) (request : RequestFunction) : Prop :=
  (commandFSM atoi stray).emit ((commandFSM atoi stray).after .reset hist) cmd = [.send request]

instance (hist : List (List UInt8)) (cmd : List UInt8) (request : RequestFunction) :
    Decidable (Sends atoi stray hist cmd request) :=
  inferInstanceAs (Decidable (_ = _))

variable {atoi stray}

/-- One argument is enough for both. -/
theorem Motion.minArguments {m : Motion} (i : Fin commands.length)
    (motion : (commands.get i).callback = m.callback) : (commands.get i).minArguments = 1 := by
  revert i
  cases m <;> decide

/-- A valid command is sent exactly if the flag is clear. -/
theorem call_motion (m : Motion) {s : CommandState} {arg : List UInt8} {more : List (List UInt8)}
    {v : Int} (value : strtol arg = (v, false)) (low : 0 ≤ v) (high : v < m.limit) :
    (m.callback.call atoi s (arg :: more)).2 =
      if s.errno then [] else [.send (m.request v)] := by
  obtain ⟨n, rfl⟩ := Int.eq_ofNat_of_zero_le low
  cases m with
  | speed =>
      have same : UInt16.ofInt n = UInt16.ofNat n := by
        apply UInt16.toNat_inj.mp
        simp [UInt16.ofInt]
        omega
      cases flag : s.errno <;>
        simp [Motion.callback, ConsoleCallback.call, parseUint16, value, flag, same, Motion.request]
  | steer =>
      have same : UInt8.ofInt n = UInt8.ofNat n := by
        apply UInt8.toNat_inj.mp
        simp [UInt8.ofInt]
        omega
      have below : UInt8.ofNat n < 180 := by
        have small : n < 180 := Int.ofNat_lt.mp high
        rw [UInt8.lt_iff_toNat_lt, UInt8.toNat_ofNat']
        exact Nat.lt_of_le_of_lt (Nat.mod_le _ _) small
      cases flag : s.errno <;>
        simp [Motion.callback, ConsoleCallback.call, parseUint8, value, flag, same, below,
          Motion.request]

/-- After commands that have all returned, a valid motion command is sent exactly if none of
them read a number out of range. -/
theorem sends_iff {m : Motion} {hist : List (List UInt8)} {cmd arg : List UInt8} {v : Int}
    (is : m.Is cmd arg) (value : strtol arg = (v, false)) (low : 0 ≤ v) (high : v < m.limit)
    (returned : ((commandFSM atoi stray).after .reset hist).running = true) :
    Sends atoi stray hist cmd (m.request v) ↔ ∀ c ∈ hist, rangeError atoi c = false := by
  obtain ⟨i, more, matched, motion, argv⟩ := is
  obtain ⟨-, flag⟩ := errno_after returned
  have enough : ¬ (arg :: more).length < (commands.get i).minArguments := by
    rw [Motion.minArguments i motion]
    simp
  have emitted : (commandFSM atoi stray).emit ((commandFSM atoi stray).after .reset hist) cmd =
      if ((commandFSM atoi stray).after .reset hist).errno then []
      else [.send (m.request v)] := by
    show (commandStep atoi stray _ cmd).2 = _
    rw [commandStep, if_pos returned, processCommand, matched]
    dsimp only
    rw [argv, if_neg enough, motion, call_motion m value low high]
  unfold Sends
  rw [emitted, flag]
  simp [CommandState.reset]

variable (atoi stray)

/-- **History.** Take two histories of commands that have all returned, and a motion command
whose argument `strtol` reads without error as a value in range. It is sent in both runs if
and only if neither history contains a command that read a number out of range. -/
theorem motion_sent_in_both_iff (m : Motion) (hist₁ hist₂ : List (List UInt8))
    (cmd arg : List UInt8) (v : Int) (is : m.Is cmd arg) (value : strtol arg = (v, false))
    (low : 0 ≤ v) (high : v < m.limit)
    (returned₁ : ((commandFSM atoi stray).after .reset hist₁).running = true)
    (returned₂ : ((commandFSM atoi stray).after .reset hist₂).running = true) :
    (Sends atoi stray hist₁ cmd (m.request v) ∧ Sends atoi stray hist₂ cmd (m.request v)) ↔
      (∀ c ∈ hist₁, rangeError atoi c = false) ∧ (∀ c ∈ hist₂, rangeError atoi c = false) := by
  rw [sends_iff is value low high returned₁, sends_iff is value low high returned₂]

/-- An angle is sent after a gear has been set and without one. -/
theorem ninety_sent_in_both :
    Sends strtol true [] (ascii "setSteerTarget,90") (.setHephaestusSteering 90) ∧
      Sends strtol true [ascii "setFNR,1"] (ascii "setSteerTarget,90")
        (.setHephaestusSteering 90) :=
  (motion_sent_in_both_iff strtol true .steer [] [ascii "setFNR,1"] (ascii "setSteerTarget,90")
    (ascii "90") 90 ⟨⟨4, by decide⟩, [], by decide, by decide, by decide⟩ (by decide) (by decide)
    (by decide) (by decide) (by decide)).mpr (by decide)

/-- One number out of range, and the same speed is sent in one run and not in the other. -/
theorem range_error_disables_speed :
    strtol (ascii "1500") = (1500, false) ∧
      Sends strtol true [] (ascii "setSpeedTarget,1500") (.updateHermesSetSpeedTarget 1500) ∧
      ¬ Sends strtol true [ascii "setFNR,9999999999"] (ascii "setSpeedTarget,1500")
        (.updateHermesSetSpeedTarget 1500) := by
  decide

end Motion

end OlympusFirmware.Olympus
