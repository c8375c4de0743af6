import Mathlib.Data.List.Induction
import OlympusFirmware.Lib.Fsm
import OlympusFirmware.Lib.Mem

/-!
# The byte queue (`olympus/utils/buffer8.c`)

Two pointers into an array of `size` bytes. Both wrap when they are more than `size` behind
`base`, one cell too late: the cell at `base + size` belongs to the ring but not to the
array. The number of bytes is computed as if it did not.

The queue is a bounded queue of bytes (`queueStep`) exactly as long as it has taken no more
than `size` bytes since it was initialised: up to there it has not come to the end of the
array. The next byte it takes is stored behind the array.
-/

namespace OlympusFirmware.Olympus

open OlympusFirmware.Lib

/-- `buffer8_t`, with the memory it points into and the count of refused bytes. The pointer
`end` is `stop`. -/
structure Buffer8 where
  base : Nat
  size : Nat
  start : Nat
  stop : Nat
  memory : Mem UInt8
  bufferFullCount : Nat

namespace Buffer8

/-- `buffer8_init`. -/
def init (base size : Nat) (memory : Mem UInt8) : Buffer8 := ⟨base, size, base, base, memory, 0⟩

/-- `buffer8_bytes`. -/
def bytes (b : Buffer8) : Nat :=
  if b.stop ≤ b.start then b.start - b.stop else b.size - (b.stop - b.start)

/-- `buffer8_space`. -/
def space (b : Buffer8) : Nat := b.size - b.bytes

/-- `buffer8_empty`. -/
def empty (b : Buffer8) : Bool := b.start == b.stop

/-- `buffer8_full`. -/
def full (b : Buffer8) : Bool := b.size ≤ b.bytes

/-- A pointer moved on by one. -/
def advance (b : Buffer8) (pointer : Nat) : Nat :=
  if b.base + b.size < pointer + 1 then b.base else pointer + 1

end Buffer8

/-- What a call does: the value it returns, if it returns one, and the addresses it reads or
writes through the pointers. -/
structure Buffer8Output where
  value : Option UInt8
  accesses : List Nat
deriving DecidableEq

/-- `buffer8_put`. -/
def buffer8Put (b : Buffer8) (data : UInt8) : Buffer8 × List Nat :=
  if !b.full then
    ({ b with memory := b.memory.store b.start [data], start := b.advance b.start }, [b.start])
  else
    ({ b with bufferFullCount := b.bufferFullCount + 1 }, [])

/-- The loop of `buffer8_write`. -/
def buffer8PutAll (b : Buffer8) : List UInt8 → Buffer8 × List Nat
  | [] => (b, [])
  | data :: rest =>
      let first := buffer8Put b data
      let later := buffer8PutAll first.1 rest
      (later.1, first.2 ++ later.2)

/-- `buffer8_write`. -/
def buffer8Write (b : Buffer8) (data : List UInt8) : Buffer8 × List Nat :=
  if data.length ≤ b.space then buffer8PutAll b data else (b, [])

/-- `buffer8_get`. -/
def buffer8Get (b : Buffer8) : Buffer8 × Buffer8Output :=
  if !b.empty then ({ b with stop := b.advance b.stop }, ⟨some (b.memory b.stop), [b.stop]⟩)
  else (b, ⟨some 0, []⟩)

/-- `buffer8_peek`. -/
def buffer8Peek (b : Buffer8) : Buffer8Output :=
  if !b.empty then ⟨some (b.memory b.stop), [b.stop]⟩ else ⟨some 0, []⟩

/-- The calls. -/
inductive Buffer8Call
  | put (data : UInt8)
  | write (data : List UInt8)
  | get
  | peek
deriving DecidableEq

/-- The queue as a machine over calls. -/
def buffer8FSM : Fsm Buffer8 Buffer8Call Buffer8Output where
  step b
    | .put data => ((buffer8Put b data).1, [⟨none, (buffer8Put b data).2⟩])
    | .write data => ((buffer8Write b data).1, [⟨none, (buffer8Write b data).2⟩])
    | .get => ((buffer8Get b).1, [(buffer8Get b).2])
    | .peek => (b, [buffer8Peek b])

/-! ## The bounded queue -/

/-- The bytes a call adds to a queue with room for `size`. -/
def accepted (size : Nat) (queue : List UInt8) : Buffer8Call → List UInt8
  | .put data => if queue.length < size then [data] else []
  | .write data => if data.length ≤ size - queue.length then data else []
  | .get => []
  | .peek => []

/-- A queue of at most `size` bytes: what a call leaves, and what it returns. -/
def queueStep (size : Nat) (queue : List UInt8) (call : Buffer8Call) :
    List UInt8 × List (Option UInt8) :=
  match call with
  | .put _ => (queue ++ accepted size queue call, [none])
  | .write _ => (queue ++ accepted size queue call, [none])
  | .get => (queue.tail, [some (queue.headD 0)])
  | .peek => (queue, [some (queue.headD 0)])

/-- The abstract queue as a machine. -/
def queueFSM (size : Nat) : Fsm (List UInt8) Buffer8Call (Option UInt8) where
  step := queueStep size

/-- How many bytes a queue takes in, over a run. -/
def takenIn (size : Nat) : List UInt8 → List Buffer8Call → Nat
  | _, [] => 0
  | queue, call :: rest =>
      (accepted size queue call).length + takenIn size ((queueFSM size).next queue call) rest

/-- What the functions report about a queue. -/
structure Reports (b : Buffer8) (size : Nat) (queue : List UInt8) : Prop where
  bytes : b.bytes = queue.length
  space : b.space = size - queue.length
  empty : b.empty = true ↔ queue = []
  full : b.full = true ↔ queue.length = size

/-- What is asked of a run: it returns what the queue returns, it reports the queue, and it
stays inside the array. -/
def IsQueue (base size : Nat) (memory : Mem UInt8) (calls : List Buffer8Call) : Prop :=
  ∀ pre post : List Buffer8Call, calls = pre ++ post →
    (buffer8FSM.outputs (.init base size memory) pre).map Buffer8Output.value =
      (queueFSM size).outputs [] pre ∧
    Reports (buffer8FSM.after (.init base size memory) pre) size ((queueFSM size).after [] pre) ∧
    ∀ output ∈ buffer8FSM.outputs (.init base size memory) pre,
      ∀ address ∈ output.accesses, base ≤ address ∧ address < base + size

/-! ## Before the end of the array -/

/-- The queue after it has taken in `total` bytes. -/
structure Buffer8Inv (base size total : Nat) (queue : List UInt8) (b : Buffer8) : Prop where
  base_eq : b.base = base
  size_eq : b.size = size
  start : b.start = base + total
  stop : b.stop + queue.length = base + total
  fits : queue.length ≤ total ∧ total ≤ size
  cells : b.memory.load b.stop queue.length = queue

section Steps

variable {base size total : Nat} {queue : List UInt8} {b : Buffer8}

theorem buffer8Inv_init (base size : Nat) (memory : Mem UInt8) :
    Buffer8Inv base size 0 [] (.init base size memory) :=
  ⟨rfl, rfl, rfl, rfl, ⟨Nat.le_refl 0, Nat.zero_le _⟩, rfl⟩

theorem Buffer8Inv.bytes (inv : Buffer8Inv base size total queue b) : b.bytes = queue.length := by
  have stop := inv.stop
  rw [Buffer8.bytes, inv.start, if_pos (by omega)]
  omega

theorem Buffer8Inv.space (inv : Buffer8Inv base size total queue b) :
    b.space = size - queue.length := by
  rw [Buffer8.space, inv.bytes, inv.size_eq]

theorem Buffer8Inv.empty (inv : Buffer8Inv base size total queue b) :
    b.empty = true ↔ queue = [] := by
  have stop := inv.stop
  rw [Buffer8.empty, inv.start, beq_iff_eq, ← List.length_eq_zero_iff]
  omega

theorem Buffer8Inv.full (inv : Buffer8Inv base size total queue b) :
    b.full = true ↔ queue.length = size := by
  have fits := inv.fits
  rw [Buffer8.full, inv.bytes, inv.size_eq, decide_eq_true_eq]
  omega

theorem Buffer8Inv.notFull (inv : Buffer8Inv base size total queue b)
    (room : queue.length < size) : b.full = false := by
  rw [← Bool.not_eq_true, inv.full]
  omega

theorem Buffer8Inv.reports (inv : Buffer8Inv base size total queue b) : Reports b size queue :=
  ⟨inv.bytes, inv.space, inv.empty, inv.full⟩

/-- A pointer before the end moves on. -/
theorem Buffer8Inv.advance (inv : Buffer8Inv base size total queue b) {pointer : Nat}
    (before : pointer < base + size) : b.advance pointer = pointer + 1 := by
  rw [Buffer8.advance, inv.base_eq, inv.size_eq, if_neg (by omega)]

/-- **`buffer8_put`** when there is room in the queue: the byte is stored at `start`. -/
theorem Buffer8Inv.put_accesses (inv : Buffer8Inv base size total queue b) (data : UInt8)
    (room : queue.length < size) : (buffer8Put b data).2 = [base + total] := by
  rw [buffer8Put, inv.notFull room, ← inv.start]
  rfl

/-- and the queue grows by it, if the end of the array is not reached. -/
theorem Buffer8Inv.put (inv : Buffer8Inv base size total queue b) (data : UInt8)
    (room : total < size) :
    Buffer8Inv base size (total + 1) (queue ++ [data]) (buffer8Put b data).1 := by
  have fits := inv.fits
  have stop := inv.stop
  have pointer : b.start < base + size := by
    rw [inv.start]
    omega
  have length : (queue ++ [data]).length = queue.length + 1 := by simp
  have behind := Mem.load_store_behind b.memory b.stop queue.length [data]
  rw [stop, ← inv.start, inv.cells] at behind
  rw [buffer8Put, inv.notFull (by omega)]
  refine ⟨inv.base_eq, inv.size_eq, ?_, ?_, ?_, ?_⟩
  · show b.advance b.start = _
    rw [inv.advance pointer, inv.start, Nat.add_assoc]
  · rw [length]
    show b.stop + (queue.length + 1) = base + (total + 1)
    omega
  · rw [length]
    omega
  · rw [length]
    exact behind

theorem buffer8Put_of_full {data : UInt8} (full : b.full = true) :
    buffer8Put b data = ({ b with bufferFullCount := b.bufferFullCount + 1 }, []) := by
  rw [buffer8Put, full]
  rfl

/-- The loop of `buffer8_write`, up to the end of the array. -/
theorem Buffer8Inv.putAll (data : List UInt8) : ∀ {total : Nat} {queue : List UInt8} {b : Buffer8},
    Buffer8Inv base size total queue b → total + data.length ≤ size →
    Buffer8Inv base size (total + data.length) (queue ++ data) (buffer8PutAll b data).1 ∧
      ∀ address ∈ (buffer8PutAll b data).2, base ≤ address ∧ address < base + size := by
  induction data with
  | nil =>
      intro total queue b inv _
      rw [List.append_nil]
      exact ⟨inv, by simp [buffer8PutAll]⟩
  | cons byte data ih =>
      intro total queue b inv room
      rw [List.length_cons] at room
      have fits := inv.fits
      obtain ⟨grown, inside⟩ := ih (inv.put byte (by omega)) (by omega)
      constructor
      · rw [List.length_cons, Nat.add_comm data.length, ← Nat.add_assoc, List.append_cons]
        exact grown
      · intro address member
        rcases List.mem_append.mp member with first | later
        · rw [inv.put_accesses byte (by omega), List.mem_singleton] at first
          omega
        · exact inside address later

/-- **`buffer8_write`**, up to the end of the array. -/
theorem Buffer8Inv.write (inv : Buffer8Inv base size total queue b) (data : List UInt8)
    (room : total + data.length ≤ size) :
    Buffer8Inv base size (total + data.length) (queue ++ data) (buffer8Write b data).1 := by
  have fits := inv.fits
  have free : data.length ≤ size - queue.length := by omega
  rw [buffer8Write, inv.space, if_pos free]
  exact (inv.putAll data room).1

/-- The loop, over the end of the array: a byte is stored behind it. -/
theorem Buffer8Inv.putAll_outside (data : List UInt8) :
    ∀ {total : Nat} {queue : List UInt8} {b : Buffer8}, Buffer8Inv base size total queue b →
    queue.length + data.length ≤ size → size < total + data.length →
    base + size ∈ (buffer8PutAll b data).2 := by
  induction data with
  | nil =>
      intro total queue b inv _ more
      have fits := inv.fits
      simp at more
      omega
  | cons byte data ih =>
      intro total queue b inv room more
      rw [List.length_cons] at room more
      have fits := inv.fits
      apply List.mem_append.mpr
      rcases Nat.lt_or_eq_of_le fits.2 with before | last
      · refine .inr (ih (inv.put byte before) ?_ (by omega))
        rw [List.length_append, List.length_singleton]
        omega
      · refine .inl ?_
        rw [inv.put_accesses byte (by omega), last]
        exact List.mem_singleton_self _

/-- A call that does what the queue does, inside the array. -/
structure KeepsQueue (base size total : Nat) (queue : List UInt8) (call : Buffer8Call)
    (result : Buffer8 × List Buffer8Output) : Prop where
  inv : Buffer8Inv base size (total + (accepted size queue call).length)
    ((queueFSM size).next queue call) result.1
  values : result.2.map Buffer8Output.value = (queueFSM size).emit queue call
  inside : ∀ output ∈ result.2, ∀ address ∈ output.accesses,
    base ≤ address ∧ address < base + size

theorem Buffer8Inv.follow_put (inv : Buffer8Inv base size total queue b) (data : UInt8)
    (room : total + (accepted size queue (.put data)).length ≤ size) :
    KeepsQueue base size total queue (.put data) (buffer8FSM.step b (.put data)) := by
  have fits := inv.fits
  by_cases free : queue.length < size
  · have taken : accepted size queue (.put data) = [data] := if_pos free
    rw [taken] at room
    refine ⟨?_, rfl, ?_⟩
    · show Buffer8Inv base size _ (queue ++ accepted size queue (.put data)) _
      rw [taken]
      exact inv.put data room
    · intro output member
      obtain rfl := List.mem_singleton.mp member
      intro address accessed
      have only : address ∈ (buffer8Put b data).2 := accessed
      rw [inv.put_accesses data free, List.mem_singleton] at only
      simp at room
      omega
  · have taken : accepted size queue (.put data) = [] := if_neg free
    have full : b.full = true := inv.full.mpr (by omega)
    have step : buffer8FSM.step b (.put data) =
        ({ b with bufferFullCount := b.bufferFullCount + 1 }, [⟨none, []⟩]) := by
      show ((buffer8Put b data).1, [Buffer8Output.mk none (buffer8Put b data).2]) = _
      rw [buffer8Put_of_full full]
    rw [step]
    refine ⟨?_, rfl, by simp⟩
    show Buffer8Inv base size _ (queue ++ accepted size queue (.put data)) _
    rw [taken, List.append_nil]
    exact ⟨inv.base_eq, inv.size_eq, inv.start, inv.stop, inv.fits, inv.cells⟩

theorem Buffer8Inv.follow_write (inv : Buffer8Inv base size total queue b) (data : List UInt8)
    (room : total + (accepted size queue (.write data)).length ≤ size) :
    KeepsQueue base size total queue (.write data) (buffer8FSM.step b (.write data)) := by
  by_cases free : data.length ≤ size - queue.length
  · have taken : accepted size queue (.write data) = data := if_pos free
    have write : buffer8Write b data = buffer8PutAll b data := by
      rw [buffer8Write, inv.space, if_pos free]
    rw [taken] at room
    obtain ⟨grown, inside⟩ := inv.putAll data room
    refine ⟨?_, rfl, ?_⟩
    · show Buffer8Inv base size _ (queue ++ accepted size queue (.write data))
        (buffer8Write b data).1
      rw [taken, write]
      exact grown
    · intro output member
      obtain rfl := List.mem_singleton.mp member
      rw [write]
      exact inside
  · have taken : accepted size queue (.write data) = [] := if_neg free
    have write : buffer8Write b data = (b, []) := by
      rw [buffer8Write, inv.space, if_neg free]
    refine ⟨?_, rfl, ?_⟩
    · show Buffer8Inv base size _ (queue ++ accepted size queue (.write data))
        (buffer8Write b data).1
      rw [taken, write, List.append_nil]
      exact inv
    · intro output member
      obtain rfl := List.mem_singleton.mp member
      simp [write]

/-- The oldest byte is the one `stop` points to. -/
theorem Buffer8Inv.oldest {byte : UInt8} {rest : List UInt8}
    (inv : Buffer8Inv base size total (byte :: rest) b) :
    b.memory b.stop = byte ∧ b.memory.load (b.stop + 1) rest.length = rest ∧
      b.empty = false ∧ base ≤ b.stop ∧ b.stop < base + size := by
  have cells := inv.cells
  have stop := inv.stop
  have fits := inv.fits
  rw [List.length_cons] at stop fits
  rw [List.length_cons, Nat.add_comm, Mem.load_add] at cells
  obtain ⟨first, behind⟩ := List.cons.inj cells
  refine ⟨first, behind, ?_, by omega, by omega⟩
  rw [← Bool.not_eq_true, inv.empty]
  simp

theorem Buffer8Inv.follow_get (inv : Buffer8Inv base size total queue b) :
    KeepsQueue base size total queue .get (buffer8FSM.step b .get) := by
  cases queue with
  | nil =>
      have step : buffer8FSM.step b .get = (b, [⟨some 0, []⟩]) := by
        show ((buffer8Get b).1, [(buffer8Get b).2]) = _
        rw [buffer8Get, inv.empty.mpr rfl]
        rfl
      rw [step]
      exact ⟨inv, rfl, by simp⟩
  | cons byte rest =>
      obtain ⟨first, behind, more, low, high⟩ := inv.oldest
      have stop := inv.stop
      have fits := inv.fits
      have step : buffer8FSM.step b .get =
          ({ b with stop := b.stop + 1 }, [⟨some byte, [b.stop]⟩]) := by
        show ((buffer8Get b).1, [(buffer8Get b).2]) = _
        rw [buffer8Get, more, inv.advance high, first]
        rfl
      rw [List.length_cons] at stop fits
      rw [step]
      refine ⟨⟨inv.base_eq, inv.size_eq, inv.start, ?_, ?_, behind⟩, rfl, ?_⟩
      · show b.stop + 1 + rest.length = base + total
        omega
      · show rest.length ≤ total ∧ total ≤ size
        omega
      · intro output member
        obtain rfl := List.mem_singleton.mp member
        intro address accessed
        obtain rfl := List.mem_singleton.mp accessed
        exact ⟨low, high⟩

/-- **`buffer8_get`** from a queue with a byte in it. -/
theorem Buffer8Inv.get {byte : UInt8} {rest : List UInt8}
    (inv : Buffer8Inv base size total (byte :: rest) b) :
    Buffer8Inv base size total rest (buffer8Get b).1 ∧ (buffer8Get b).2.value = some byte := by
  have follow := inv.follow_get
  exact ⟨follow.inv, (List.cons.inj follow.values).1⟩

theorem Buffer8Inv.follow_peek (inv : Buffer8Inv base size total queue b) :
    KeepsQueue base size total queue .peek (buffer8FSM.step b .peek) := by
  cases queue with
  | nil =>
      have step : buffer8FSM.step b .peek = (b, [⟨some 0, []⟩]) := by
        show (b, [buffer8Peek b]) = _
        rw [buffer8Peek, inv.empty.mpr rfl]
        rfl
      rw [step]
      exact ⟨inv, rfl, by simp⟩
  | cons byte rest =>
      obtain ⟨first, -, more, low, high⟩ := inv.oldest
      have step : buffer8FSM.step b .peek = (b, [⟨some byte, [b.stop]⟩]) := by
        show (b, [buffer8Peek b]) = _
        rw [buffer8Peek, more, first]
        rfl
      rw [step]
      refine ⟨inv, rfl, ?_⟩
      intro output member
      obtain rfl := List.mem_singleton.mp member
      intro address accessed
      obtain rfl := List.mem_singleton.mp accessed
      exact ⟨low, high⟩

/-- **One call**, before the end of the array. -/
theorem Buffer8Inv.follow (inv : Buffer8Inv base size total queue b) (call : Buffer8Call)
    (room : total + (accepted size queue call).length ≤ size) :
    KeepsQueue base size total queue call (buffer8FSM.step b call) := by
  cases call with
  | put data => exact inv.follow_put data room
  | write data => exact inv.follow_write data room
  | get => exact inv.follow_get
  | peek => exact inv.follow_peek

/-- **The call that goes over it** stores behind the array. -/
theorem Buffer8Inv.outside (inv : Buffer8Inv base size total queue b) (call : Buffer8Call)
    (more : size < total + (accepted size queue call).length) :
    ∃ output ∈ (buffer8FSM.step b call).2, base + size ∈ output.accesses := by
  have fits := inv.fits
  cases call with
  | put data =>
      by_cases free : queue.length < size
      · have taken : accepted size queue (.put data) = [data] := if_pos free
        have last : total = size := by
          rw [taken, List.length_singleton] at more
          omega
        refine ⟨_, List.mem_singleton_self _, ?_⟩
        show base + size ∈ (buffer8Put b data).2
        rw [inv.put_accesses data free, last]
        exact List.mem_singleton_self _
      · have taken : accepted size queue (.put data) = [] := if_neg free
        rw [taken, List.length_nil] at more
        omega
  | write data =>
      by_cases free : data.length ≤ size - queue.length
      · have taken : accepted size queue (.write data) = data := if_pos free
        have write : buffer8Write b data = buffer8PutAll b data := by
          rw [buffer8Write, inv.space, if_pos free]
        rw [taken] at more
        refine ⟨_, List.mem_singleton_self _, ?_⟩
        show base + size ∈ (buffer8Write b data).2
        rw [write]
        exact inv.putAll_outside data (by omega) more
      · have taken : accepted size queue (.write data) = [] := if_neg free
        rw [taken, List.length_nil] at more
        omega
  | get =>
      rw [accepted, List.length_nil] at more
      omega
  | peek =>
      rw [accepted, List.length_nil] at more
      omega

end Steps

/-! ## Whole runs -/

section Runs

variable {base size : Nat} {memory : Mem UInt8}

theorem takenIn_concat (calls : List Buffer8Call) (call : Buffer8Call) (queue : List UInt8) :
    takenIn size queue (calls ++ [call]) =
      takenIn size queue calls +
        (accepted size ((queueFSM size).after queue calls) call).length := by
  induction calls generalizing queue with
  | nil => simp [takenIn]
  | cons first calls ih => simp [takenIn, ih, Nat.add_assoc]

/-- The buffer after a run that has not come to the end of the array. -/
structure Buffer8Run (base size : Nat) (memory : Mem UInt8) (calls : List Buffer8Call) : Prop where
  inv : Buffer8Inv base size (takenIn size [] calls) ((queueFSM size).after [] calls)
    (buffer8FSM.after (.init base size memory) calls)
  values : (buffer8FSM.outputs (.init base size memory) calls).map Buffer8Output.value =
    (queueFSM size).outputs [] calls
  inside : ∀ output ∈ buffer8FSM.outputs (.init base size memory) calls,
    ∀ address ∈ output.accesses, base ≤ address ∧ address < base + size

/-- What the last call of a run adds to its outputs. -/
theorem buffer8_outputs_concat (b : Buffer8) (calls : List Buffer8Call) (call : Buffer8Call) :
    buffer8FSM.outputs b (calls ++ [call]) =
      buffer8FSM.outputs b calls ++ (buffer8FSM.step (buffer8FSM.after b calls) call).2 := by
  rw [Fsm.outputs_append, Fsm.outputs_cons, Fsm.outputs_nil, List.append_nil]
  rfl

/-- **A run** in which at most `size` bytes are taken in. -/
theorem buffer8_run {calls : List Buffer8Call} (room : takenIn size [] calls ≤ size) :
    Buffer8Run base size memory calls := by
  induction calls using List.reverseRecOn with
  | nil => exact ⟨buffer8Inv_init base size memory, rfl, by simp⟩
  | append_singleton calls call ih =>
      rw [takenIn_concat] at room
      have run := ih (by omega)
      have kept := run.inv.follow call room
      refine ⟨?_, ?_, ?_⟩
      · rw [takenIn_concat, Fsm.after_append, Fsm.after_append]
        exact kept.inv
      · rw [buffer8_outputs_concat, List.map_append, run.values, kept.values,
          Fsm.outputs_append, Fsm.outputs_cons, Fsm.outputs_nil, List.append_nil]
      · rw [buffer8_outputs_concat]
        intro output member
        rcases List.mem_append.mp member with earlier | now
        · exact run.inside output earlier
        · exact kept.inside output now

theorem takenIn_le_of_append {calls post : List Buffer8Call} :
    takenIn size [] calls ≤ takenIn size [] (calls ++ post) := by
  induction post using List.reverseRecOn with
  | nil => simp
  | append_singleton post call ih =>
      rw [← List.append_assoc, takenIn_concat]
      omega

/-- **A bounded queue**, exactly as long as no more than `size` bytes have been taken in. -/
theorem buffer8_isQueue_iff (base size : Nat) (memory : Mem UInt8) (calls : List Buffer8Call) :
    IsQueue base size memory calls ↔ takenIn size [] calls ≤ size := by
  constructor
  · intro holds
    induction calls using List.reverseRecOn with
    | nil => exact Nat.zero_le size
    | append_singleton calls call ih =>
        have room := ih fun pre post split => holds pre (post ++ [call]) (by simp [split])
        have run := @buffer8_run base size memory calls room
        by_contra more
        rw [takenIn_concat, Nat.not_le] at more
        obtain ⟨output, emitted, accessed⟩ := run.inv.outside call more
        have inside := (holds (calls ++ [call]) [] (List.append_nil _).symm).2.2 output
        rw [buffer8_outputs_concat] at inside
        have bound := inside (List.mem_append.mpr (.inr emitted)) _ accessed
        omega
  · rintro room pre post rfl
    have run : Buffer8Run base size memory pre :=
      buffer8_run (Nat.le_trans takenIn_le_of_append room)
    exact ⟨run.values, run.inv.reports, run.inside⟩

end Runs

/-- A byte is put and taken from a queue of one; the next is stored behind the array. -/
theorem second_byte_outside :
    ¬ ∀ (base size : Nat) (memory : Mem UInt8) (calls : List Buffer8Call), 0 < size →
      IsQueue base size memory calls := by
  intro all
  have inside := (all 0 1 (fun _ => 0) [.put 7, .get, .put 8] (by decide)
    [.put 7, .get, .put 8] [] rfl).2.2
  exact absurd (inside ⟨none, [1]⟩ (by decide) 1 (by decide)) (by decide)

end OlympusFirmware.Olympus
