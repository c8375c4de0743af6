import OlympusFirmware.Update.Link

/-!
# A message on its way through the slave

While the master waits for the interrupt line, its message goes through the slave in
stages: requested (the request is not complete), called (the callback runs), written
(the response is in the ring), raised (the line is set). If the callback does not
return, the slave is silent.

Each stage is a condition on the two sides. This module shows what the slave's own
steps, reading a byte and going on, make of it.
-/

namespace OlympusFirmware.Update

open OlympusFirmware.Lib OlympusFirmware.SlaveLib

/-! ## The answer to a message -/

section Answers

variable {δ ε : Type} (msgResp : UInt8 → MsgInfo δ ε)

/-- The responses written, in order. -/
def written (outputs : List (CommsOutput ε)) : List (UInt8 × List UInt8) :=
  outputs.filterMap fun
    | .writeResponse status data => some (status, data)
    | _ => none

/-- What the last byte of a message makes the slave do: its callback runs, with the data
in the buffer. -/
def Serves (m : Message) (result : Comms δ × List (CommsOutput ε)) : Prop :=
  ∃ (c : Comms δ) (callback : _), (msgResp m.msgType).callback = some callback ∧
    c.msgType = m.msgType ∧ c.buff.load 0 m.data.length = m.data ∧
    result = ((runCallback msgResp c callback).1,
      acknowledged m.msgType m.data ++ (runCallback msgResp c callback).2)

/-- The answer to a message is the first response: the status its callback returns and
what it leaves in the buffer, except for messages that are acknowledged before. -/
def Answers (m : Message) (status : UInt8) (data : List UInt8) : Prop :=
  ∃ result : Comms δ × List (CommsOutput ε),
    Serves msgResp m result ∧ (written result.2).head? = some (status, data)

/-- The lengths of a message match: the slave takes the data that is sent, and the
response has the data that is received. -/
structure Matched (m : Message) : Prop where
  fits : Fits msgResp m.msgType m.data
  size : ∀ status data, Answers msgResp m status data → data.length = m.rxSize.toNat

variable {msgResp} {m : Message}

/-- A callback that returns and writes nothing by itself gives the answer. -/
theorem Answers.of_returns {status : UInt8} {data : List UInt8}
    (answers : Answers msgResp m status data) (other : m.msgType ≠ bootMsg)
    (returns : ∀ callback buff prog, (msgResp m.msgType).callback = some callback →
      (callback buff prog).status ≠ none ∧ written (callback buff prog).outputs = []) :
    ∃ callback buff prog, (msgResp m.msgType).callback = some callback ∧
      buff.load 0 m.data.length = m.data ∧ (callback buff prog).status = some status ∧
      data = (callback buff prog).buff.load 0 (msgResp m.msgType).txDataLength.toNat := by
  obtain ⟨result, ⟨c, callback, known, type, loaded, rfl⟩, head⟩ := answers
  obtain ⟨some, silent⟩ := returns callback c.buff c.prog known
  obtain ⟨value, status'⟩ := Option.ne_none_iff_exists'.mp some
  refine ⟨callback, c.buff, c.prog, known, loaded, ?_⟩
  have plain : (acknowledged m.msgType m.data : List (CommsOutput ε)) = [] :=
    if_neg fun boot => other boot.1
  rw [plain, runCallback_returns msgResp status', List.nil_append] at head
  have first : written (.callback c.msgType c.buff :: (callback c.buff c.prog).outputs ++
      [.writeResponse value ((callback c.buff c.prog).buff.load 0
        (msgResp c.msgType).txDataLength.toNat)]) =
      written (callback c.buff c.prog).outputs ++ [(value, (callback c.buff c.prog).buff.load 0
        (msgResp c.msgType).txDataLength.toNat)] := List.filterMap_append
  rw [first, silent, type] at head
  cases head
  exact ⟨status', rfl⟩

/-- Lengths match if those of the table do. -/
theorem Matched.of_returns (fits : Fits msgResp m.msgType m.data) (other : m.msgType ≠ bootMsg)
    (returns : ∀ callback buff prog, (msgResp m.msgType).callback = some callback →
      (callback buff prog).status ≠ none ∧ written (callback buff prog).outputs = [])
    (same : (msgResp m.msgType).txDataLength = m.rxSize) : Matched msgResp m := by
  refine ⟨fits, ?_⟩
  intro status data answers
  obtain ⟨callback, buff, prog, -, -, -, rfl⟩ := answers.of_returns other returns
  rw [Mem.length_load, same]

/-- Without an answer the callback has not returned. -/
theorem Serves.stopped {result : Comms δ × List (CommsOutput ε)}
    (serves : Serves msgResp m result) (silent : written result.2 = []) :
    result.1.running = false := by
  obtain ⟨c, callback, -, -, -, rfl⟩ := serves
  cases status : (callback c.buff c.prog).status with
  | none => rw [runCallback_leaves msgResp status]
  | some value =>
      exfalso
      rw [runCallback_returns msgResp status] at silent
      simp [written] at silent

end Answers

/-! ## The request at the slave -/

section Awaits

variable {δ ε : Type} (msgResp : UInt8 → MsgInfo δ ε)

/-- The machine comes through these bytes without effect. -/
inductive Skips : Comms δ → List UInt8 → Prop
  | between {c : Comms δ} {bytes : List UInt8} (idle : c.Idle) (inert : Inert msgResp bytes) :
      Skips c bytes
  | unknown {c : Comms δ} {type : UInt8} {bytes : List UInt8} (running : c.running = true)
      (state : c.state = .msgType) (unknown : Unknown msgResp type)
      (inert : Inert msgResp bytes) : Skips c (type :: bytes)

/-- The machine has these bytes in front of it, and they end with a request that it has
not completed. -/
inductive Awaits (m : Message) : Comms δ → List UInt8 → Prop
  | skipping {c : Comms δ} {bytes : List UInt8} (skips : Skips msgResp c bytes) :
      Awaits m c (bytes ++ m.request)
  | type {c : Comms δ} (running : c.running = true) (state : c.state = .msgType) :
      Awaits m c (m.msgType :: m.data)
  | collecting {c : Comms δ} {rest : List UInt8} (running : c.running = true)
      (state : c.state = .data) (type : c.msgType = m.msgType)
      (size : c.dataSize = (msgResp m.msgType).rxDataLength)
      (loaded : c.buff.load 0 c.dataIdx.toNat ++ rest = m.data) (more : rest ≠ []) :
      Awaits m c rest

variable {msgResp} {m : Message} {c : Comms δ}

theorem Skips.running {bytes : List UInt8} (skips : Skips msgResp c bytes) :
    c.running = true := by
  cases skips with
  | between idle => exact idle.running
  | unknown running => exact running

theorem Awaits.running {bytes : List UInt8} (awaits : Awaits msgResp m c bytes) :
    c.running = true := by
  cases awaits with
  | skipping skips => exact skips.running
  | type running => exact running
  | collecting running => exact running

theorem Awaits.nonempty {bytes : List UInt8} (awaits : Awaits msgResp m c bytes) :
    bytes ≠ [] := by
  cases awaits with
  | skipping => simp [Message.request]
  | type => simp
  | collecting _ _ _ _ _ more => exact more

/-- The program's variables do not matter. -/
theorem Awaits.work {bytes : List UInt8} (awaits : Awaits msgResp m c bytes) (prog : δ) :
    Awaits msgResp m { c with prog := prog } bytes := by
  cases awaits with
  | skipping skips =>
      apply Awaits.skipping
      cases skips with
      | between idle inert => exact .between ⟨idle.running, idle.state⟩ inert
      | unknown running state unknown inert => exact .unknown running state unknown inert
  | type running state => exact .type running state
  | collecting running state type size loaded more =>
      exact .collecting running state type size loaded more

/-- A byte without effect. -/
theorem Skips.step {byte : UInt8} {bytes : List UInt8} (skips : Skips msgResp c (byte :: bytes)) :
    Skips msgResp (commsStep msgResp c byte).1 bytes ∧
      ∀ output ∈ (commsStep msgResp c byte).2, output = .clearSPIInt := by
  cases skips with
  | between idle inert =>
      rw [commsStep_start msgResp idle]
      refine ⟨?_, by simp⟩
      cases bytes with
      | nil => exact .between ⟨idle.running, if_neg inert⟩ trivial
      | cons next rest =>
          unfold Inert at inert
          by_cases start : byte = commsStartByte
          · rw [if_pos start] at inert
            exact .unknown idle.running (if_pos start) inert.1 inert.2
          · rw [if_neg start] at inert
            exact .between ⟨idle.running, if_neg start⟩ inert
  | unknown running state unknown inert =>
      obtain ⟨dataSize, msgType, result⟩ := runMsgType_unknown msgResp (c := c) unknown
      rw [commsStep_msgType msgResp running state, result]
      exact ⟨.between ⟨running, rfl⟩ inert, by simp⟩

/-- The type byte of the request. -/
theorem Awaits.step_type (fits : Fits msgResp m.msgType m.data) (running : c.running = true)
    (state : c.state = .msgType) :
    (Awaits msgResp m (commsStep msgResp c m.msgType).1 m.data ∧
        ∀ output ∈ (commsStep msgResp c m.msgType).2, output = .clearSPIInt) ∨
      (m.data = [] ∧ Serves msgResp m (commsStep msgResp c m.msgType)) := by
  obtain ⟨callback, known⟩ := Option.ne_none_iff_exists'.mp fits.known
  rw [commsStep_msgType msgResp running state]
  by_cases short : (msgResp m.msgType).rxDataLength = 0
  · right
    have none : m.data = [] := by
      rw [← List.length_eq_zero_iff, fits.size, short]
      rfl
    rw [runMsgType_short msgResp fits.inside known short]
    refine ⟨none, { c with msgType := m.msgType, dataSize := 0 }, callback, known, rfl, ?_, ?_⟩
    · rw [none]
      rfl
    · simp [acknowledged, none]
  · left
    rw [runMsgType_long msgResp fits.inside known short]
    refine ⟨.collecting running rfl rfl rfl rfl ?_, by simp⟩
    intro none
    have size := fits.size
    rw [none] at size
    exact short (UInt8.toNat_inj.mp size.symm)

/-- A data byte of the request. -/
theorem Awaits.step_data (fits : Fits msgResp m.msgType m.data) (running : c.running = true)
    (state : c.state = .data) (type : c.msgType = m.msgType)
    (size : c.dataSize = (msgResp m.msgType).rxDataLength) {byte : UInt8} {rest : List UInt8}
    (loaded : c.buff.load 0 c.dataIdx.toNat ++ byte :: rest = m.data) :
    (Awaits msgResp m (commsStep msgResp c byte).1 rest ∧
        ∀ output ∈ (commsStep msgResp c byte).2, output = .clearSPIInt) ∨
      (rest = [] ∧ Serves msgResp m (commsStep msgResp c byte)) := by
  obtain ⟨callback, known⟩ := Option.ne_none_iff_exists'.mp fits.known
  have length := congrArg List.length loaded
  rw [List.length_append, Mem.length_load, fits.size, List.length_cons] at length
  have small := (msgResp m.msgType).rxDataLength.toNat_lt
  have advanced : (c.dataIdx + 1).toNat = c.dataIdx.toNat + 1 := by
    rw [UInt8.toNat_add]
    simp only [UInt8.reduceToNat]
    omega
  have collected : (c.collect byte).buff.load 0 (c.dataIdx + 1).toNat ++ rest = m.data := by
    rw [advanced, c.load_collect, List.append_assoc]
    exact loaded
  rw [commsStep_data msgResp running state]
  by_cases last : c.dataIdx + 1 = c.dataSize
  · right
    have none : rest = [] := by
      have equal := congrArg UInt8.toNat last
      rw [size, advanced] at equal
      rw [← List.length_eq_zero_iff]
      omega
    rw [none, List.append_nil] at collected
    rw [runDataByte_last msgResp last (type ▸ known)]
    refine ⟨none, c.collect byte, callback, known, type, ?_, ?_⟩
    · rw [fits.size, ← size, ← last]
      exact collected
    · have long : m.data ≠ [] := by
        rw [← loaded]
        simp
      simp [acknowledged, long]
  · left
    rw [runDataByte_more msgResp last]
    refine ⟨.collecting running state type size collected ?_, by simp⟩
    intro none
    apply last
    rw [← UInt8.toNat_inj, advanced, size]
    rw [none, List.length_nil] at length
    omega

/-- **One byte** has no effect or completes the request. -/
theorem Awaits.step (fits : Fits msgResp m.msgType m.data) {byte : UInt8} {rest : List UInt8}
    (awaits : Awaits msgResp m c (byte :: rest)) :
    (Awaits msgResp m (commsStep msgResp c byte).1 rest ∧
        ∀ output ∈ (commsStep msgResp c byte).2, output = .clearSPIInt) ∨
      (rest = [] ∧ Serves msgResp m (commsStep msgResp c byte)) := by
  generalize front : byte :: rest = bytes at awaits
  cases awaits with
  | @skipping skipped skips =>
      left
      cases skipped with
      | nil =>
          -- nothing is left to skip: the start byte of the request
          obtain ⟨rfl, rfl⟩ : byte = commsStartByte ∧ rest = m.msgType :: m.data := by
            simpa [Message.request] using front
          cases skips with
          | between idle =>
              rw [commsStep_start msgResp idle, if_pos rfl]
              exact ⟨.type idle.running rfl, by simp⟩
      | cons first skipped =>
          obtain ⟨rfl, rfl⟩ : byte = first ∧ rest = skipped ++ m.request := by
            simpa using front
          obtain ⟨skips', clear⟩ := skips.step
          exact ⟨.skipping skips', clear⟩
  | type running state =>
      obtain ⟨rfl, rfl⟩ : byte = m.msgType ∧ rest = m.data := by simpa using front
      exact step_type fits running state
  | collecting running state type size loaded =>
      subst front
      exact step_data fits running state type size loaded

end Awaits

/-! ## The stages of a message -/

section Stages

variable {δ ε : Type} (msgResp : UInt8 → MsgInfo δ ε)

/-- What the slave has in front of it: its ring, and what the master has yet to send. -/
def Link.coming (s : Link δ ε) : List (UInt8 × Option Nat) :=
  match s.master with
  | .sending _ rest => s.rxBuffer ++ rest.map fun byte => (byte, some s.count)
  | _ => s.rxBuffer

/-- There is no response, and the line says so. -/
structure Still (s : Link δ ε) : Prop where
  responding : s.responding = .no
  empty : s.txBuffer = []
  low : s.int = false

/-- The slave has not completed the request. -/
structure Requested (m : Message) (s : Link δ ε) : Prop extends Still s where
  clear : ∀ output ∈ s.todo, output = .clearSPIInt
  awaits : Awaits msgResp m s.comms (s.coming.map Prod.fst)
  last : ∃ front byte, s.coming = front ++ [(byte, some s.count)]
  room : s.coming.length < bufferSize

/-- The slave has stopped and will not respond. -/
structure Silent (s : Link δ ε) : Prop extends Still s where
  stopped : s.comms.running = false
  nothing : written s.todo = []

/-- The slave is about to respond: the callback runs. -/
structure Called (m : Message) (s : Link δ ε) : Prop extends Still s where
  serving : s.serving = some s.count
  answer : ∃ status data, Answers msgResp m status data ∧
    (written s.todo).head? = some (status, data)

/-- The `k`-th message was answered. -/
structure Answered (hist : List LinkOutput) (m : Message) (k : Nat) (status : UInt8)
    (data : List UInt8) : Prop where
  answers : Answers msgResp m status data
  logged : .answered (some k) status data ∈ hist

/-- Where the message is while the master waits for the line. -/
inductive Stage (hist : List LinkOutput) (m : Message) (s : Link δ ε) : Prop
  | requested (requested : Requested msgResp m s)
  | silent (silent : Silent s)
  | called (called : Called msgResp m s)
  | written {status : UInt8} {data : List UInt8} (responding : s.responding = .raising)
      (low : s.int = false) (answered : Answered msgResp hist m s.count status data)
      (ring : s.txBuffer = status :: data)
  | raised {status : UInt8} {data : List UInt8} (responding : s.responding = .draining)
      (answered : Answered msgResp hist m s.count status data) (ring : s.txBuffer = status :: data)

/-- The master is at the `k`-th message, and the response fits the ring. -/
structure Current (hist : List LinkOutput) (m : Message) (k : Nat) : Prop where
  started : .started k m ∈ hist
  matched : Matched msgResp m
  small : m.rxSize.toNat + 1 < bufferSize

variable {msgResp} {hist : List LinkOutput} {m : Message} {s : Link δ ε}

/-! ## What has been seen stays seen -/

theorem Answered.later {k : Nat} {status : UInt8} {data : List UInt8}
    (answered : Answered msgResp hist m k status data) (new : List LinkOutput) :
    Answered msgResp (hist ++ new) m k status data :=
  ⟨answered.answers, List.mem_append_left new answered.logged⟩

theorem Current.later {k : Nat} (current : Current msgResp hist m k) (new : List LinkOutput) :
    Current msgResp (hist ++ new) m k :=
  ⟨List.mem_append_left new current.started, current.matched, current.small⟩

/-! ## The program's variables -/

theorem Requested.work (requested : Requested msgResp m s) (prog : δ) :
    Requested msgResp m { s with comms := { s.comms with prog := prog } } :=
  ⟨⟨requested.responding, requested.empty, requested.low⟩, requested.clear,
    requested.awaits.work prog, requested.last, requested.room⟩

theorem Silent.work (silent : Silent s) (prog : δ) :
    Silent { s with comms := { s.comms with prog := prog } } :=
  ⟨⟨silent.responding, silent.empty, silent.low⟩, silent.stopped, silent.nothing⟩

theorem Stage.work (stage : Stage msgResp hist m s) (prog : δ) :
    Stage msgResp hist m { s with comms := { s.comms with prog := prog } } := by
  cases stage with
  | requested requested => exact .requested (requested.work prog)
  | silent silent => exact .silent (silent.work prog)
  | called called =>
      exact .called ⟨⟨called.responding, called.empty, called.low⟩, called.serving,
        called.answer⟩
  | written responding low answered ring =>
      exact .written responding low answered ring
  | raised responding answered ring =>
      exact .raised responding answered ring

/-! ## The slave reads a byte -/

theorem readByte_responding (responding : s.responding ≠ .no) : readByte msgResp s = s := by
  unfold readByte
  split
  · contradiction
  · rfl

theorem readByte_busy (busy : s.todo ≠ []) : readByte msgResp s = s := by
  unfold readByte
  split
  · contradiction
  · rfl

theorem readByte_stopped (stopped : s.comms.running = false) : readByte msgResp s = s := by
  unfold readByte
  rw [stopped]
  split <;> rfl

theorem readByte_empty (empty : s.rxBuffer = []) : readByte msgResp s = s := by
  unfold readByte
  split
  · rename_i ring
    rw [empty] at ring
    cases ring
  · rfl

variable (msgResp) in
theorem readByte_eq (responding : s.responding = .no) (free : s.todo = []) {byte : UInt8}
    {k : Option Nat} {rest : List (UInt8 × Option Nat)} (ring : s.rxBuffer = (byte, k) :: rest)
    (running : s.comms.running = true) :
    readByte msgResp s =
      { s with
        rxBuffer := rest
        comms := (commsStep msgResp s.comms byte).1
        todo := (commsStep msgResp s.comms byte).2
        serving := k } := by
  unfold readByte
  rw [responding, free, ring, running]
  rfl

variable (msgResp) in
theorem readByte_master (s : Link δ ε) :
    (readByte msgResp s).master = s.master ∧ (readByte msgResp s).count = s.count := by
  unfold readByte
  split
  · split <;> exact ⟨rfl, rfl⟩
  · exact ⟨rfl, rfl⟩

/-- The byte read was the first of those coming. -/
theorem coming_cons {s s' : Link δ ε} (master : s'.master = s.master) (count : s'.count = s.count)
    {entry : UInt8 × Option Nat} (ring : s.rxBuffer = entry :: s'.rxBuffer) :
    s.coming = entry :: s'.coming := by
  unfold Link.coming
  rw [master, count, ring]
  split <;> rfl

/-- The byte is not the last of the request. -/
theorem Requested.read_more {s' : Link δ ε} (requested : Requested msgResp m s) (still : Still s')
    (count : s'.count = s.count) {entry : UInt8 × Option Nat}
    (front : s.coming = entry :: s'.coming)
    (awaits : Awaits msgResp m s'.comms (s'.coming.map Prod.fst))
    (clear : ∀ output ∈ s'.todo, output = .clearSPIInt) : Requested msgResp m s' := by
  refine ⟨still, clear, awaits, ?_, ?_⟩
  · obtain ⟨before, byte, last⟩ := requested.last
    rw [front] at last
    rw [count]
    cases before with
    | nil =>
        obtain ⟨-, none⟩ : _ ∧ s'.coming = [] := by simpa using last
        rw [none] at awaits
        exact absurd rfl awaits.nonempty
    | cons first before => exact ⟨before, byte, (List.cons.inj last).2⟩
  · have room := requested.room
    rw [front, List.length_cons] at room
    omega

/-- The last byte has run the callback: it answers, or it does not return. -/
theorem silent_or_called {result : Comms δ × List (CommsOutput ε)} (still : Still s)
    (serves : Serves msgResp m result) (comms : s.comms = result.1) (todo : s.todo = result.2)
    (serving : s.serving = some s.count) : Silent s ∨ Called msgResp m s := by
  cases head : (written result.2).head? with
  | none =>
      left
      have nothing := List.head?_eq_none_iff.mp head
      refine ⟨still, ?_, ?_⟩
      · rw [comms]
        exact serves.stopped nothing
      · rw [todo]
        exact nothing
  | some answer =>
      right
      refine ⟨still, serving, answer.1, answer.2, ⟨_, serves, head⟩, ?_⟩
      rw [todo]
      exact head

/-- A request stays a request, or it is complete and the callback runs. -/
theorem Requested.read (requested : Requested msgResp m s) (fits : Fits msgResp m.msgType m.data) :
    Requested msgResp m (readByte msgResp s) ∨
      ((readByte msgResp s).coming = [] ∧
        (Silent (readByte msgResp s) ∨ Called msgResp m (readByte msgResp s))) := by
  by_cases busy : s.todo ≠ []
  · rw [readByte_busy busy]
    exact .inl requested
  cases ring : s.rxBuffer with
  | nil =>
      rw [readByte_empty ring]
      exact .inl requested
  | cons entry rest =>
      obtain ⟨byte, k⟩ := entry
      have result := readByte_eq msgResp requested.responding (not_not.mp busy) ring
        requested.awaits.running
      have comms : (readByte msgResp s).comms = (commsStep msgResp s.comms byte).1 := by
        rw [result]
      have todo : (readByte msgResp s).todo = (commsStep msgResp s.comms byte).2 := by
        rw [result]
      have still : Still (readByte msgResp s) := by
        rw [result]
        exact ⟨requested.responding, requested.empty, requested.low⟩
      obtain ⟨master, count⟩ := readByte_master msgResp s
      have front : s.coming = (byte, k) :: (readByte msgResp s).coming :=
        coming_cons master count (by rw [result]; exact ring)
      have awaits := requested.awaits
      rw [front] at awaits
      rcases awaits.step fits with ⟨awaits', clear⟩ | ⟨complete, serves⟩
      · left
        rw [← comms] at awaits'
        rw [← todo] at clear
        exact requested.read_more still count front awaits' clear
      · right
        have none : (readByte msgResp s).coming = [] := by simpa using complete
        -- it was the only byte coming, so it is the one the master sent last
        have serving : (readByte msgResp s).serving = some (readByte msgResp s).count := by
          obtain ⟨before, byte', last⟩ := requested.last
          rw [front, none] at last
          have tag : k = some s.count := by
            cases before with
            | nil => exact (Prod.mk.inj (List.cons.inj last).1).2
            | cons first before => simp at last
          rw [count, result]
          exact tag
        exact ⟨none, silent_or_called still serves comms todo serving⟩

/-- The slave reads a byte while the master waits. -/
theorem Stage.read (stage : Stage msgResp hist m s) (fits : Fits msgResp m.msgType m.data) :
    Stage msgResp hist m (readByte msgResp s) := by
  cases stage with
  | requested requested =>
      rcases requested.read fits with requested' | ⟨-, silent | called⟩
      · exact .requested requested'
      · exact .silent silent
      · exact .called called
  | silent silent =>
      rw [readByte_stopped silent.stopped]
      exact .silent silent
  | called called =>
      have busy : s.todo ≠ [] := by
        intro free
        obtain ⟨status, data, -, head⟩ := called.answer
        rw [free] at head
        cases head
      rw [readByte_busy busy]
      exact .called called
  | written responding low answered ring =>
      rw [readByte_responding (by rw [responding]; decide)]
      exact .written responding low answered ring
  | raised responding answered ring =>
      rw [readByte_responding (by rw [responding]; decide)]
      exact .raised responding answered ring

/-! ## The slave goes on -/

theorem written_cons (output : CommsOutput ε) (rest : List (CommsOutput ε)) :
    written (output :: rest) = written [output] ++ written rest :=
  List.filterMap_append (l := [output])

theorem proceed_free (still : Still s) (free : s.todo = []) : proceed s = (s, []) := by
  unfold proceed
  rw [still.responding, free]

/-- Anything but a response. -/
theorem proceed_quiet (still : Still s) {output : CommsOutput ε} {rest : List (CommsOutput ε)}
    (front : s.todo = output :: rest) (quiet : written [output] = []) :
    proceed s = ({ s with todo := rest }, []) := by
  unfold proceed
  rw [still.responding, front]
  cases output with
  | clearSPIInt =>
      show ({ s with int := false, todo := rest, responding := .no }, ([] : List LinkOutput)) = _
      rw [← still.low]
  | callback => rfl
  | writeResponse => simp [written] at quiet
  | device => rfl

/-- A response, into the empty ring. -/
theorem proceed_write (still : Still s) {status : UInt8} {data : List UInt8}
    {rest : List (CommsOutput ε)} (front : s.todo = .writeResponse status data :: rest)
    (small : data.length + 1 < bufferSize) :
    proceed s =
      ({ s with todo := rest, txBuffer := status :: data, responding := .raising },
        [.answered s.serving status data]) := by
  have fits : ¬ bufferSize < 0 + 1 + data.length := by omega
  have room : ¬ 0 + 1 + data.length = bufferSize := by omega
  unfold proceed
  rw [still.responding, front]
  simp only [writeResponse, still.empty, List.length_nil, if_neg fits, if_neg room,
    List.nil_append]

theorem proceed_draining (responding : s.responding = .draining) (more : s.txBuffer ≠ []) :
    proceed s = (s, []) := by
  unfold proceed
  rw [responding]
  exact if_neg more

theorem proceed_master (s : Link δ ε) :
    (proceed s).1.master = s.master ∧ (proceed s).1.count = s.count := by
  unfold proceed
  split
  · exact ⟨rfl, rfl⟩
  · split <;> exact ⟨rfl, rfl⟩
  · split
    · exact ⟨rfl, rfl⟩
    · exact ⟨rfl, rfl⟩
    · unfold writeResponse
      dsimp only
      split <;> exact ⟨rfl, rfl⟩
    · exact ⟨rfl, rfl⟩

/-- The slave returns nothing to the master. -/
theorem returned_not_mem_proceed (k : Nat) (status : UInt8) (data : List UInt8) :
    LinkOutput.returned k status data ∉ (proceed s).2 := by
  unfold proceed
  split
  · simp
  · split <;> simp
  · split <;> simp

theorem Requested.proceed (requested : Requested msgResp m s) :
    Requested msgResp m (proceed s).1 := by
  have still := requested.toStill
  cases front : s.todo with
  | nil =>
      rw [proceed_free still front]
      exact requested
  | cons output rest =>
      have clear := requested.clear
      rw [front] at clear
      have quiet : written [output] = [] := by
        rw [clear output List.mem_cons_self]
        rfl
      rw [proceed_quiet still front quiet]
      refine ⟨⟨still.responding, still.empty, still.low⟩, ?_, requested.awaits, requested.last,
        requested.room⟩
      intro output' member
      exact clear output' (List.mem_cons_of_mem output member)

theorem Silent.proceed (silent : Silent s) : Silent (proceed s).1 := by
  have still := silent.toStill
  cases front : s.todo with
  | nil =>
      rw [proceed_free still front]
      exact silent
  | cons output rest =>
      have nothing := silent.nothing
      rw [front, written_cons, List.append_eq_nil_iff] at nothing
      rw [proceed_quiet still front nothing.1]
      exact ⟨⟨still.responding, still.empty, still.low⟩, silent.stopped, nothing.2⟩

/-- The callback runs on, or its answer is written. -/
theorem Called.proceed (called : Called msgResp m s) (current : Current msgResp hist m s.count) :
    Stage msgResp (hist ++ (proceed s).2) m (Update.proceed s).1 := by
  have still := called.toStill
  obtain ⟨status, data, answers, head⟩ := called.answer
  cases front : s.todo with
  | nil =>
      rw [front] at head
      cases head
  | cons output rest =>
      rw [front, written_cons] at head
      by_cases quiet : written [output] = []
      · rw [quiet, List.nil_append] at head
        rw [proceed_quiet still front quiet]
        exact .called ⟨⟨still.responding, still.empty, still.low⟩, called.serving, status, data,
          answers, head⟩
      · cases output with
        | writeResponse status' data' =>
            obtain ⟨rfl, rfl⟩ : status' = status ∧ data' = data := by simpa [written] using head
            -- the ring is empty, and the response is shorter than it
            have size := current.matched.size status' data' answers
            have small := current.small
            rw [proceed_write still front (by omega)]
            refine .written rfl still.low ⟨answers, ?_⟩ rfl
            rw [called.serving]
            exact List.mem_append_right hist List.mem_cons_self
        | clearSPIInt => exact absurd rfl quiet
        | callback => exact absurd rfl quiet
        | device => exact absurd rfl quiet

/-- The slave goes on while the master waits. -/
theorem Stage.proceed (stage : Stage msgResp hist m s) (current : Current msgResp hist m s.count) :
    Stage msgResp (hist ++ (proceed s).2) m (Update.proceed s).1 := by
  cases stage with
  | requested requested => exact .requested requested.proceed
  | silent silent => exact .silent silent.proceed
  | called called => exact called.proceed current
  | written responding low answered ring =>
      have result : Update.proceed s = ({ s with int := true, responding := .draining }, []) := by
        unfold Update.proceed
        rw [responding]
      rw [result, List.append_nil]
      exact .raised rfl answered ring
  | raised responding answered ring =>
      rw [proceed_draining responding (by simp [ring]), List.append_nil]
      exact .raised responding answered ring

end Stages

end OlympusFirmware.Update
