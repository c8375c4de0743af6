import Mathlib.Data.List.Induction
import OlympusFirmware.Lib.Fsm
import OlympusFirmware.Lib.Ring
import OlympusFirmware.SlaveLib.CommsLib

/-!
# The slave's receive ring (`slave_lib/peripherals/spi.c`)

`SPI1_IRQHandler` stores a received byte behind the unread ones, `readByte` takes the
first. Start and length are bytes and the ring has 256 cells, so the length of a full ring
is zero, which is also how `readByte` finds that there is nothing to read.

A run is any interleaving of the handler with the steps of `readByte`. The handler is
atomic; while `readByte` has its interrupt disabled it does not run, and the byte stays in
the hardware.
-/

namespace OlympusFirmware.SlaveLib

open OlympusFirmware.Lib

/-- `RX_BUFFER_SIZE`. -/
def rxBufferSize : Nat := 256

/-- How far `readByte` is, with the byte it has read. -/
inductive ReadPc
  /-- not called -/
  | idle
  /-- has found a length other than zero -/
  | found
  /-- has cleared `RXNEIE` -/
  | masked
  /-- has read the byte -/
  | fetched (data : UInt8)
  /-- has stored the length -/
  | counted (data : UInt8)
  /-- has stored the start -/
  | moved (data : UInt8)
deriving DecidableEq

/-- The receive side of the driver. -/
structure SpiRx where
  rxBuffer : Mem UInt8
  rxBufferStart : UInt8
  rxBufferLen : UInt8
  rxneie : Bool
  pc : ReadPc

/-- At reset, whatever the ring holds. -/
def SpiRx.reset (rxBuffer : Mem UInt8) : SpiRx := ⟨rxBuffer, 0, 0, true, .idle⟩

/-- A byte arrives, or `readByte` makes a step: its call, if it is not running. -/
inductive RxEvent
  | arrives (byte : UInt8)
  | step
deriving DecidableEq

/-- What is seen: the handler takes a byte; `readByte` returns `WR_NO_DATA`, or `WR_OK` and
a byte. -/
inductive RxOutput
  | received (byte : UInt8)
  | noData
  | ok (byte : UInt8)
deriving DecidableEq

/-- `SPI1_IRQHandler` with `RXNE` set. -/
def receiveStep (s : SpiRx) (byte : UInt8) : SpiRx :=
  let idx := (s.rxBufferStart.toNat + s.rxBufferLen.toNat) % rxBufferSize
  { s with rxBuffer := s.rxBuffer.store idx [byte], rxBufferLen := s.rxBufferLen + 1 }

/-- The next step of `readByte`. -/
def readStep (s : SpiRx) : SpiRx × List RxOutput :=
  match s.pc with
  | .idle => if s.rxBufferLen = 0 then (s, [.noData]) else ({ s with pc := .found }, [])
  | .found => ({ s with rxneie := false, pc := .masked }, [])
  | .masked => ({ s with pc := .fetched (s.rxBuffer s.rxBufferStart.toNat) }, [])
  | .fetched data => ({ s with rxBufferLen := s.rxBufferLen - 1, pc := .counted data }, [])
  | .counted data => ({ s with rxBufferStart := s.rxBufferStart + 1, pc := .moved data }, [])
  | .moved data => ({ s with rxneie := true, pc := .idle }, [.ok data])

/-- The receive side as a machine. -/
def spiRxFSM : Fsm SpiRx RxEvent RxOutput where
  step s
    | .arrives byte => if s.rxneie then (receiveStep s byte, [.received byte]) else (s, [])
    | .step => readStep s

/-- The bytes received by the handler. -/
def received (outputs : List RxOutput) : List UInt8 :=
  outputs.filterMap fun
    | .received byte => some byte
    | _ => none

/-- The bytes returned by `readByte`. -/
def returned (outputs : List RxOutput) : List UInt8 :=
  outputs.filterMap fun
    | .ok byte => some byte
    | _ => none

/-- How many bytes are unread. -/
def unread (outputs : List RxOutput) : Nat := (received outputs).length - (returned outputs).length

/-- The bytes received and not yet returned. -/
def unreadBytes (outputs : List RxOutput) : List UInt8 :=
  (received outputs).drop (returned outputs).length

section Runs

variable (rxBuffer : Mem UInt8)

/-- At most 256 bytes are ever unread. -/
def AtMostFull (events : List RxEvent) : Prop :=
  ∀ pre post : List RxEvent, events = pre ++ post →
    unread (spiRxFSM.outputs (.reset rxBuffer) pre) ≤ rxBufferSize

/-- What is asked of a run: the bytes returned are the first of those received, a call of
`readByte` finds a byte exactly when there is an unread one, and a call that has found one
returns the first unread byte with `WR_OK` in its fifth step from there, whatever arrives
in between. -/
structure ReadsInOrder (events : List RxEvent) : Prop where
  order : ∀ pre post : List RxEvent, events = pre ++ post →
    returned (spiRxFSM.outputs (.reset rxBuffer) pre) <+:
      received (spiRxFSM.outputs (.reset rxBuffer) pre)
  answer : ∀ pre post : List RxEvent, events = pre ++ RxEvent.step :: post →
    (spiRxFSM.after (.reset rxBuffer) pre).pc = .idle →
    (0 < unread (spiRxFSM.outputs (.reset rxBuffer) pre) ↔
      (spiRxFSM.after (.reset rxBuffer) (pre ++ [.step])).pc = .found) ∧
    (unread (spiRxFSM.outputs (.reset rxBuffer) pre) = 0 ↔
      spiRxFSM.emit (spiRxFSM.after (.reset rxBuffer) pre) .step = [.noData])
  returns : ∀ pre during post : List RxEvent, events = pre ++ during ++ RxEvent.step :: post →
    (spiRxFSM.after (.reset rxBuffer) pre).pc = .found → during.count .step = 4 →
    ∃ byte, (unreadBytes (spiRxFSM.outputs (.reset rxBuffer) pre)).head? = some byte ∧
      returned (spiRxFSM.outputs (spiRxFSM.after (.reset rxBuffer) pre) during) = [] ∧
      spiRxFSM.emit (spiRxFSM.after (.reset rxBuffer) (pre ++ during)) .step = [.ok byte] ∧
      (spiRxFSM.after (.reset rxBuffer) (pre ++ during ++ [.step])).pc = .idle

/-- `readByte` is not called while every cell of the ring is unread. -/
def NoCallWhenFull (events : List RxEvent) : Prop :=
  ∀ pre post : List RxEvent, events = pre ++ RxEvent.step :: post →
    (spiRxFSM.after (.reset rxBuffer) pre).pc = .idle →
    unread (spiRxFSM.outputs (.reset rxBuffer) pre) ≠ rxBufferSize

end Runs

/-! ## What the interleaving keeps -/

namespace ReadPc

/-- The byte `readByte` holds. -/
def held : ReadPc → Option UInt8
  | .idle | .found | .masked => none
  | .fetched data | .counted data | .moved data => some data

/-- Whether the length counts the byte that is being read no more. -/
def taken : ReadPc → Nat
  | .idle | .found | .masked | .fetched _ => 0
  | .counted _ | .moved _ => 1

/-- Whether the start is behind it. -/
def passed : ReadPc → Nat
  | .idle | .found | .masked | .fetched _ | .counted _ => 0
  | .moved _ => 1

/-- How many steps are left to the return. -/
def left : ReadPc → Nat
  | .idle => 0
  | .found => 5
  | .masked => 4
  | .fetched _ => 3
  | .counted _ => 2
  | .moved _ => 1

theorem moved_of_left {pc : ReadPc} (last : pc.left = 1) : ∃ data, pc = .moved data := by
  cases pc with
  | moved data => exact ⟨data, rfl⟩
  | _ => cases last

end ReadPc

section Histories

variable (first rest : List RxOutput)

@[simp] theorem received_append :
    received (first ++ rest) = received first ++ received rest := List.filterMap_append

@[simp] theorem returned_append :
    returned (first ++ rest) = returned first ++ returned rest := List.filterMap_append

end Histories

/-- The driver after a history, with these bytes unread. -/
structure ReadInv (hist : List RxOutput) (rest : List UInt8) (s : SpiRx) : Prop where
  split : received hist = returned hist ++ rest
  start : s.rxBufferStart.toNat = ((returned hist).length + s.pc.passed) % rxBufferSize
  length : s.rxBufferLen.toNat = (rest.length - s.pc.taken) % rxBufferSize
  cells : Ring.contents rxBufferSize s.rxBuffer (returned hist).length rest.length = rest
  held : ∀ data, s.pc.held = some data → rest.head? = some data
  busy : s.pc ≠ .idle → rest ≠ []
  mask : s.rxneie = true ↔ s.pc = .idle ∨ s.pc = .found

section Steps

variable {hist : List RxOutput} {rest : List UInt8} {s : SpiRx}

theorem ReadInv.unread_eq (inv : ReadInv hist rest s) : unread hist = rest.length := by
  rw [unread, inv.split, List.length_append, Nat.add_sub_cancel_left]

theorem ReadInv.unreadBytes_eq (inv : ReadInv hist rest s) : unreadBytes hist = rest := by
  rw [unreadBytes, inv.split, List.drop_left]

/-- Outside its masked part, `readByte` has not touched start and length. -/
theorem ReadInv.untouched (inv : ReadInv hist rest s) (enabled : s.rxneie = true) :
    s.pc.passed = 0 ∧ s.pc.taken = 0 ∧ s.pc.held = none := by
  rcases inv.mask.mp enabled with idle | found
  · rw [idle]
    exact ⟨rfl, rfl, rfl⟩
  · rw [found]
    exact ⟨rfl, rfl, rfl⟩

/-- A byte is received into a free cell. -/
theorem ReadInv.receive (inv : ReadInv hist rest s) (enabled : s.rxneie = true) (byte : UInt8)
    (room : rest.length < rxBufferSize) :
    ReadInv (hist ++ [.received byte]) (rest ++ [byte]) (receiveStep s byte) := by
  obtain ⟨passed, taken, held⟩ := inv.untouched enabled
  have start := inv.start
  have length := inv.length
  rw [passed, Nat.add_zero] at start
  rw [taken, Nat.sub_zero] at length
  have index : (s.rxBufferStart.toNat + s.rxBufferLen.toNat) % rxBufferSize =
      ((returned hist).length + rest.length) % rxBufferSize := by
    rw [start, length, ← Nat.add_mod]
  have same : returned (hist ++ [.received byte]) = returned hist := by
    rw [returned_append]
    exact List.append_nil _
  refine ⟨?_, ?_, ?_, ?_, ?_, ?_, inv.mask⟩
  · rw [same, received_append, inv.split, List.append_assoc]
    rfl
  · rw [same]
    show s.rxBufferStart.toNat = ((returned hist).length + s.pc.passed) % rxBufferSize
    exact inv.start
  · show (s.rxBufferLen + 1).toNat = ((rest ++ [byte]).length - s.pc.taken) % rxBufferSize
    rw [taken, UInt8.toNat_add, length]
    simp [rxBufferSize]
  · rw [same, List.length_append, List.length_singleton]
    show Ring.contents rxBufferSize (s.rxBuffer.store _ [byte]) _ _ = _
    rw [index, Ring.contents_store_one room, inv.cells]
  · intro data some
    rw [show (receiveStep s byte).pc = s.pc from rfl, held] at some
    cases some
  · intro _
    simp

/-- What `readByte` does up to its return: nothing is received or returned, and the bytes
unread stay. -/
theorem ReadInv.quiet (inv : ReadInv hist rest s) {s' : SpiRx} {outputs : List RxOutput}
    (silent : received outputs = [] ∧ returned outputs = []) (ring : s'.rxBuffer = s.rxBuffer)
    (start : s'.rxBufferStart.toNat =
      ((returned hist).length + s'.pc.passed) % rxBufferSize)
    (length : s'.rxBufferLen.toNat = (rest.length - s'.pc.taken) % rxBufferSize)
    (held : ∀ data, s'.pc.held = some data → rest.head? = some data)
    (busy : s'.pc ≠ .idle → rest ≠ [])
    (mask : s'.rxneie = true ↔ s'.pc = .idle ∨ s'.pc = .found) :
    ReadInv (hist ++ outputs) rest s' := by
  have same : returned (hist ++ outputs) = returned hist := by
    rw [returned_append, silent.2, List.append_nil]
  refine ⟨?_, ?_, length, ?_, held, busy, mask⟩
  · rw [same, received_append, silent.1, List.append_nil]
    exact inv.split
  · rw [same]
    exact start
  · rw [same, ring]
    exact inv.cells

/-- The first unread byte is the one the start points to. -/
theorem ReadInv.front (inv : ReadInv hist rest s) (untouched : s.pc.passed = 0)
    (more : rest ≠ []) : rest.head? = some (s.rxBuffer s.rxBufferStart.toNat) := by
  have start := inv.start
  rw [untouched, Nat.add_zero] at start
  obtain ⟨byte, behind, rfl⟩ := List.exists_cons_of_ne_nil more
  have cells := inv.cells
  rw [List.length_cons, Ring.contents_succ, ← start] at cells
  rw [List.head?_cons, (List.cons.inj cells).1]

/-- The byte that is read is returned. -/
theorem ReadInv.answered (inv : ReadInv hist rest s) {data : UInt8} (pc : s.pc = .moved data) :
    ReadInv (hist ++ [.ok data]) rest.tail { s with rxneie := true, pc := .idle } := by
  have start := inv.start
  have length := inv.length
  have cells := inv.cells
  have head := inv.held data (by rw [pc]; rfl)
  obtain ⟨byte, behind, rfl⟩ := List.exists_cons_of_ne_nil (inv.busy (by simp [pc]))
  obtain rfl : byte = data := by simpa using head
  rw [pc] at start length
  have one : returned (hist ++ [.ok byte]) = returned hist ++ [byte] := returned_append _ _
  refine ⟨?_, ?_, ?_, ?_, by simp [ReadPc.held], by simp, by simp⟩
  · have none : received [RxOutput.ok byte] = [] := rfl
    rw [one, received_append, inv.split, none, List.append_nil, List.append_assoc]
    rfl
  · rw [one, List.length_append]
    exact start
  · exact length
  · rw [List.length_cons, Ring.contents_succ] at cells
    rw [one, List.length_append]
    exact (List.cons.inj cells).2

/-- **A step of `readByte`.** -/
theorem ReadInv.read (inv : ReadInv hist rest s) :
    ∃ rest', ReadInv (hist ++ (readStep s).2) rest' (readStep s).1 := by
  have start := inv.start
  have length := inv.length
  unfold readStep
  cases pc : s.pc with
  | idle =>
      rw [pc] at start length
      by_cases zero : s.rxBufferLen = 0
      · simp only [zero, if_true]
        exact ⟨rest, inv.quiet ⟨rfl, rfl⟩ rfl inv.start inv.length inv.held inv.busy inv.mask⟩
      · simp only [zero, if_false]
        refine ⟨rest, inv.quiet ⟨rfl, rfl⟩ rfl start length (by simp [ReadPc.held]) ?_ ?_⟩
        · rintro - rfl
          exact zero (UInt8.toNat_inj.mp length)
        · simp [inv.mask, pc]
  | found =>
      rw [pc] at start length
      exact ⟨rest, inv.quiet ⟨rfl, rfl⟩ rfl start length (by simp [ReadPc.held])
        (fun _ => inv.busy (by simp [pc])) (by simp)⟩
  | masked =>
      rw [pc] at start length
      have more := inv.busy (by simp [pc])
      have front := inv.front (by rw [pc]; rfl) more
      refine ⟨rest, inv.quiet ⟨rfl, rfl⟩ rfl start length ?_ (fun _ => more) ?_⟩
      · rintro data ⟨⟩
        exact front
      · simp [inv.mask, pc]
  | fetched data =>
      rw [pc] at start length
      have more := inv.busy (by simp [pc])
      have positive := List.length_pos_iff.mpr more
      refine ⟨rest, inv.quiet ⟨rfl, rfl⟩ rfl start ?_ ?_ (fun _ => more) ?_⟩
      · show (s.rxBufferLen - 1).toNat = (rest.length - 1) % rxBufferSize
        have full : s.rxBufferLen.toNat = rest.length % 256 := length
        rw [UInt8.toNat_sub, full]
        simp only [rxBufferSize, UInt8.toNat_one]
        omega
      · rintro byte ⟨⟩
        exact inv.held data (by rw [pc]; rfl)
      · simp [inv.mask, pc]
  | counted data =>
      rw [pc] at start length
      have more := inv.busy (by simp [pc])
      refine ⟨rest, inv.quiet ⟨rfl, rfl⟩ rfl ?_ length ?_ (fun _ => more) ?_⟩
      · show (s.rxBufferStart + 1).toNat = ((returned hist).length + 1) % rxBufferSize
        rw [UInt8.toNat_add, start]
        simp [rxBufferSize, ReadPc.passed]
      · rintro byte ⟨⟩
        exact inv.held data (by rw [pc]; rfl)
      · simp [inv.mask, pc]
  | moved data => exact ⟨rest.tail, inv.answered pc⟩

/-- A step before the last returns nothing, and one step less is left. -/
theorem readStep_left (more : 1 < s.pc.left) :
    (readStep s).1.pc.left + 1 = s.pc.left ∧ returned (readStep s).2 = [] := by
  unfold readStep
  cases pc : s.pc with
  | idle | moved => simp [pc, ReadPc.left] at more
  | found | masked | fetched | counted => exact ⟨rfl, rfl⟩

/-- An arrival leaves `readByte` where it is. -/
theorem arrives_left (s : SpiRx) (byte : UInt8) :
    (spiRxFSM.next s (.arrives byte)).pc = s.pc ∧
      returned (spiRxFSM.emit s (.arrives byte)) = [] := by
  by_cases enabled : s.rxneie = true
  · have step : spiRxFSM.step s (.arrives byte) = (receiveStep s byte, [.received byte]) :=
      if_pos enabled
    rw [Fsm.next, Fsm.emit, step]
    exact ⟨rfl, rfl⟩
  · have step : spiRxFSM.step s (.arrives byte) = (s, []) := if_neg enabled
    rw [Fsm.next, Fsm.emit, step]
    exact ⟨rfl, rfl⟩

/-- **The call goes on.** Each of its steps before the last takes one from those left, and
what arrives in between takes none. -/
theorem steps_left (during : List RxEvent) (s : SpiRx) (more : during.count .step < s.pc.left) :
    (spiRxFSM.after s during).pc.left + during.count .step = s.pc.left ∧
      returned (spiRxFSM.outputs s during) = [] := by
  induction during generalizing s with
  | nil => exact ⟨rfl, rfl⟩
  | cons event during ih =>
      rw [Fsm.after_cons, Fsm.outputs_cons, returned_append]
      cases event with
      | arrives byte =>
          have count : (RxEvent.arrives byte :: during).count .step = during.count .step :=
            List.count_cons_of_ne (by simp)
          obtain ⟨same, silent⟩ := arrives_left s byte
          rw [count] at more ⊢
          rw [← same] at more ⊢
          obtain ⟨left, later⟩ := ih (spiRxFSM.next s (.arrives byte)) more
          exact ⟨left, by rw [silent, later]; rfl⟩
      | step =>
          rw [List.count_cons_self] at more ⊢
          obtain ⟨one, silent⟩ := readStep_left (show 1 < s.pc.left by omega)
          have one : (spiRxFSM.next s .step).pc.left + 1 = s.pc.left := one
          have silent : returned (spiRxFSM.emit s .step) = [] := silent
          obtain ⟨left, later⟩ := ih (spiRxFSM.next s .step) (by omega)
          exact ⟨by omega, by rw [silent, later]; rfl⟩

/-- What arrives does not change which byte is the first unread one. -/
theorem head_unreadBytes {more : List RxOutput} (silent : returned more = [])
    (some : unreadBytes hist ≠ []) :
    (unreadBytes (hist ++ more)).head? = (unreadBytes hist).head? := by
  have bound : (returned hist).length ≤ (received hist).length := by
    by_contra beyond
    exact some (List.drop_eq_nil_of_le (by omega))
  have behind : unreadBytes (hist ++ more) = unreadBytes hist ++ received more := by
    rw [unreadBytes, returned_append, received_append, silent, List.append_nil,
      List.drop_append_of_le_length bound]
    rfl
  rw [behind, List.head?_append_of_ne_nil _ some]

end Steps

/-! ## Whole runs -/

section Whole

variable {rxBuffer : Mem UInt8} {events : List RxEvent}

theorem AtMostFull.of_append {post : List RxEvent}
    (bounded : AtMostFull rxBuffer (events ++ post)) :
    AtMostFull rxBuffer events := by
  intro pre rest split
  exact bounded pre (rest ++ post) (by rw [split, List.append_assoc])

/-- **A run** in which the ring never has to hold more than it can. -/
theorem readInv_run (bounded : AtMostFull rxBuffer events) :
    ∃ rest, ReadInv (spiRxFSM.outputs (.reset rxBuffer) events) rest
      (spiRxFSM.after (.reset rxBuffer) events) := by
  induction events using List.reverseRecOn with
  | nil =>
      exact ⟨[], rfl, rfl, rfl, rfl, by simp [SpiRx.reset, ReadPc.held],
        fun busy => absurd rfl busy,
        by simp [SpiRx.reset]⟩
  | append_singleton events event ih =>
      obtain ⟨rest, inv⟩ := ih bounded.of_append
      have now := bounded (events ++ [event]) [] (by simp)
      rw [Fsm.outputs_append] at now
      rw [Fsm.outputs_append, Fsm.after_append]
      generalize spiRxFSM.outputs (.reset rxBuffer) events = hist at inv now ⊢
      generalize spiRxFSM.after (.reset rxBuffer) events = s at inv now ⊢
      cases event with
      | step =>
          have single : spiRxFSM.outputs s [.step] = (readStep s).2 := List.append_nil _
          rw [single]
          exact inv.read
      | arrives byte =>
          by_cases enabled : s.rxneie = true
          · have step : spiRxFSM.step s (.arrives byte) = (receiveStep s byte, [.received byte]) :=
              if_pos enabled
            have single : spiRxFSM.outputs s [.arrives byte] = [.received byte] := by
              simp [Fsm.emit, step]
            have after : spiRxFSM.after s [.arrives byte] = receiveStep s byte := by
              simp [Fsm.next, step]
            rw [single] at now ⊢
            rw [after]
            refine ⟨rest ++ [byte], inv.receive enabled byte ?_⟩
            have more : unread (hist ++ [.received byte]) = rest.length + 1 := by
              have one : received [RxOutput.received byte] = [byte] := rfl
              have none : returned [RxOutput.received byte] = [] := rfl
              rw [unread, received_append, returned_append, inv.split, one, none]
              simp
            omega
          · have step : spiRxFSM.step s (.arrives byte) = (s, []) := if_neg enabled
            have single : spiRxFSM.outputs s [.arrives byte] = [] := by simp [Fsm.emit, step]
            have after : spiRxFSM.after s [.arrives byte] = s := by simp [Fsm.next, step]
            rw [single, after, List.append_nil]
            exact ⟨rest, inv⟩

/-- What a call of `readByte` finds. -/
theorem ReadInv.call {hist : List RxOutput} {rest : List UInt8} {s : SpiRx}
    (inv : ReadInv hist rest s) (idle : s.pc = .idle) :
    s.rxBufferLen = 0 ↔ unread hist % rxBufferSize = 0 := by
  have length := inv.length
  rw [idle] at length
  rw [inv.unread_eq, ← UInt8.toNat_inj, length]
  rfl

/-- **A call that has found a byte** returns the first unread one. -/
theorem returns_unread {pre during post : List RxEvent}
    (bounded : AtMostFull rxBuffer (pre ++ during ++ post))
    (found : (spiRxFSM.after (.reset rxBuffer) pre).pc = .found)
    (four : during.count .step = 4) :
    ∃ byte, (unreadBytes (spiRxFSM.outputs (.reset rxBuffer) pre)).head? = some byte ∧
      returned (spiRxFSM.outputs (spiRxFSM.after (.reset rxBuffer) pre) during) = [] ∧
      spiRxFSM.emit (spiRxFSM.after (.reset rxBuffer) (pre ++ during)) .step = [.ok byte] ∧
      (spiRxFSM.after (.reset rxBuffer) (pre ++ during ++ [.step])).pc = .idle := by
  obtain ⟨left, silent⟩ := steps_left during (spiRxFSM.after (.reset rxBuffer) pre)
    (by rw [four, found]; decide)
  rw [← Fsm.after_append, four, found] at left
  obtain ⟨byte, moved⟩ := ReadPc.moved_of_left (show _ = 1 from Nat.add_right_cancel left)
  have last : readStep (spiRxFSM.after (.reset rxBuffer) (pre ++ during)) =
      ({ spiRxFSM.after (.reset rxBuffer) (pre ++ during) with rxneie := true, pc := .idle },
        [.ok byte]) := by
    simp only [readStep, moved]
  obtain ⟨unread, before⟩ := readInv_run bounded.of_append.of_append
  obtain ⟨rest, now⟩ := readInv_run bounded.of_append
  have head := now.held byte (by rw [moved]; rfl)
  rw [← now.unreadBytes_eq, Fsm.outputs_append, head_unreadBytes silent ?_] at head
  · refine ⟨byte, head, silent, congrArg Prod.snd last, ?_⟩
    rw [Fsm.after_append]
    exact congrArg (·.1.pc) last
  · rw [before.unreadBytes_eq]
    exact before.busy (by rw [found]; simp)

/-- **Reading in order.** In every run in which at most 256 bytes are ever unread, the bytes
returned are those received, in order, and a call that finds a byte returns the first unread
one. A call finds a byte exactly when one is unread, if and only if it is not made while 256
are. -/
theorem reads_in_order_iff (bounded : AtMostFull rxBuffer events) :
    ReadsInOrder rxBuffer events ↔ NoCallWhenFull rxBuffer events := by
  constructor
  · intro holds pre post split idle full
    obtain ⟨rest, inv⟩ := readInv_run (AtMostFull.of_append (split ▸ bounded))
    have zero : (spiRxFSM.after (.reset rxBuffer) pre).rxBufferLen = 0 := by
      rw [inv.call idle, full]
      rfl
    have refused : spiRxFSM.emit (spiRxFSM.after (.reset rxBuffer) pre) .step = [.noData] := by
      show (readStep _).2 = _
      simp only [readStep, idle, zero, if_true]
    have none := (holds.answer pre post split idle).2.mpr refused
    rw [full] at none
    exact absurd none (by decide)
  · intro called
    refine ⟨fun pre post split => ?_, fun pre post split idle => ?_,
      fun pre during post split => returns_unread (split ▸ bounded)⟩
    · obtain ⟨rest, inv⟩ := readInv_run (AtMostFull.of_append (split ▸ bounded))
      exact ⟨rest, inv.split.symm⟩
    · have small := bounded pre _ split
      obtain ⟨rest, inv⟩ := readInv_run (AtMostFull.of_append (split ▸ bounded))
      have notFull := called pre post split idle
      have length := inv.call idle
      rw [Nat.mod_eq_of_lt (by omega)] at length
      have after : (spiRxFSM.after (.reset rxBuffer) (pre ++ [.step])).pc =
          (readStep (spiRxFSM.after (.reset rxBuffer) pre)).1.pc := by
        rw [Fsm.after_append]
        rfl
      rw [after]
      show (0 < _ ↔ _) ∧ (_ ↔ (readStep _).2 = [.noData])
      generalize spiRxFSM.after (.reset rxBuffer) pre = s at idle length ⊢
      unfold readStep
      by_cases zero : s.rxBufferLen = 0
      · simp [idle, zero, length.mp zero]
      · have some := mt length.mpr zero
        simp [idle, zero, some, Nat.pos_of_ne_zero some]

end Whole

/-- The handler takes at most the bytes that arrive. -/
theorem unread_le (events : List RxEvent) (s : SpiRx) :
    unread (spiRxFSM.outputs s events) ≤ events.countP (· ≠ .step) := by
  have count : (received (spiRxFSM.outputs s events)).length ≤ events.countP (· ≠ .step) := by
    induction events generalizing s with
    | nil => rfl
    | cons event events ih =>
        have first : (received (spiRxFSM.emit s event)).length ≤
            if event ≠ .step then 1 else 0 := by
          cases event with
          | arrives byte =>
              show (received (if s.rxneie then _ else _ : SpiRx × List RxOutput).2).length ≤ 1
              split
              · exact Nat.le_refl 1
              · exact Nat.zero_le 1
          | step =>
              show (received (readStep s).2).length ≤ 0
              unfold readStep
              split
              · split <;> exact Nat.le_refl 0
              all_goals exact Nat.le_refl 0
        have later := ih (spiRxFSM.next s event)
        rw [Fsm.outputs_cons, received_append, List.length_append, List.countP_cons]
        simp only [decide_eq_true_eq]
        omega
  unfold unread
  omega

theorem unread_prefix_le {events pre post : List RxEvent} (split : events = pre ++ post)
    (s : SpiRx) : unread (spiRxFSM.outputs s pre) ≤ events.countP (· ≠ .step) := by
  rw [split]
  exact (unread_le pre s).trans (List.sublist_append_left pre post).countP_le

/-- A call after 256 bytes finds none. -/
theorem full_ring_reads_empty :
    ¬ ∀ (rxBuffer : Mem UInt8) (events : List RxEvent), AtMostFull rxBuffer events →
      ReadsInOrder rxBuffer events := by
  intro all
  have bounded : AtMostFull (fun _ => 0) (List.replicate 256 (.arrives 0) ++ [.step]) := by
    intro pre post split
    exact (unread_prefix_le split _).trans (by decide +kernel)
  have answer := (all _ _ bounded).answer _ [] rfl (by decide +kernel)
  exact absurd (answer.2.mpr (by decide +kernel)) (by decide +kernel)

/-- Two bytes and one call, which returns the first. -/
theorem two_bytes_one_call :
    ReadsInOrder (fun _ => 0)
        [.arrives 1, .step, .arrives 2, .step, .step, .step, .step, .step] ∧
      returned (spiRxFSM.outputs (.reset fun _ => 0)
        [.arrives 1, .step, .arrives 2, .step, .step, .step, .step, .step]) = [1] := by
  have bound : ∀ pre post : List RxEvent,
      [.arrives 1, .step, .arrives 2, .step, .step, .step, .step, .step] = pre ++ post →
      unread (spiRxFSM.outputs (.reset fun _ => 0) pre) ≤ 2 := by
    intro pre post split
    exact (unread_prefix_le split _).trans (by decide)
  refine ⟨(reads_in_order_iff ?_).mpr ?_, by decide⟩
  · intro pre post split
    exact (bound pre post split).trans (by decide)
  · intro pre post split _ full
    have small := bound pre _ split
    rw [full] at small
    exact absurd small (by decide)

end OlympusFirmware.SlaveLib
