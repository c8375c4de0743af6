import OlympusFirmware.SlaveLib.CommsLib

/-!
# What a message queues, and bytes that are none

A request is a start byte, a type and data. `messageSubmodule` then clocks as many
bytes as it wants to read, and the slave's receive interrupt takes what it sends
meanwhile for input like any other: `HAL_SPI_Receive` sends the old contents of the
buffer it receives into. `Inert` says which bytes the machine skips, from between
messages to between messages, without running a callback.
-/

namespace OlympusFirmware.SlaveLib

open OlympusFirmware.Lib

section Outputs

variable {ε : Type}

/-- The bytes that `writeResponse` puts into the transmit ring, in order. -/
def queued (outputs : List (CommsOutput ε)) : List UInt8 :=
  outputs.flatMap fun
    | .writeResponse status data => status :: data
    | _ => []

/-- The types of the messages whose callbacks are called, in order. -/
def called (outputs : List (CommsOutput ε)) : List UInt8 :=
  outputs.filterMap fun
    | .callback msgType _ => some msgType
    | _ => none

/-- What is done to the device, in order. -/
def effects (outputs : List (CommsOutput ε)) : List ε :=
  outputs.filterMap fun
    | .device effect => some effect
    | _ => none

variable (rest : List (CommsOutput ε))

@[simp] theorem queued_append (first : List (CommsOutput ε)) :
    queued (first ++ rest) = queued first ++ queued rest := List.flatMap_append

@[simp] theorem queued_clearSPIInt : queued (.clearSPIInt :: rest) = queued rest := rfl

@[simp] theorem queued_callback (msgType : UInt8) (buff : Mem UInt8) :
    queued (.callback msgType buff :: rest) = queued rest := rfl

@[simp] theorem queued_writeResponse (status : UInt8) (data : List UInt8) :
    queued (.writeResponse status data :: rest) = status :: data ++ queued rest := rfl

@[simp] theorem queued_nil : queued ([] : List (CommsOutput ε)) = [] := rfl

@[simp] theorem called_append (first : List (CommsOutput ε)) :
    called (first ++ rest) = called first ++ called rest := List.filterMap_append

@[simp] theorem called_clearSPIInt : called (.clearSPIInt :: rest) = called rest := rfl

@[simp] theorem called_callback (msgType : UInt8) (buff : Mem UInt8) :
    called (.callback msgType buff :: rest) = msgType :: called rest := rfl

@[simp] theorem called_nil : called ([] : List (CommsOutput ε)) = [] := rfl

@[simp] theorem effects_append (first : List (CommsOutput ε)) :
    effects (first ++ rest) = effects first ++ effects rest := List.filterMap_append

@[simp] theorem queued_map_device (acts : List ε) :
    queued (acts.map CommsOutput.device) = [] := by
  rw [queued, List.flatMap_eq_nil_iff]
  intro output member
  obtain ⟨effect, -, rfl⟩ := List.mem_map.mp member
  rfl

@[simp] theorem called_map_device (acts : List ε) :
    called (acts.map CommsOutput.device) = [] := by
  rw [called, List.filterMap_eq_nil_iff]
  intro output member
  obtain ⟨effect, -, rfl⟩ := List.mem_map.mp member
  rfl

@[simp] theorem called_writeResponse (status : UInt8) (data : List UInt8) :
    called (.writeResponse status data :: rest) = called rest := rfl

theorem called_of_clear {outputs : List (CommsOutput ε)}
    (clear : ∀ output ∈ outputs, output = .clearSPIInt) : called outputs = [] := by
  rw [called, List.filterMap_eq_nil_iff]
  intro output member
  rw [clear output member]

theorem queued_of_clear {outputs : List (CommsOutput ε)}
    (clear : ∀ output ∈ outputs, output = .clearSPIInt) : queued outputs = [] := by
  rw [queued, List.flatMap_eq_nil_iff]
  intro output member
  rw [clear output member]

end Outputs

/-! ## Requests -/

section Requests

variable {δ ε : Type} (msgResp : UInt8 → MsgInfo δ ε) {c : Comms δ}

/-- A message of the table, with as many data bytes as its entry says. -/
structure Fits (msgType : UInt8) (data : List UInt8) : Prop where
  inside : ¬ numMsgs ≤ msgType
  known : (msgResp msgType).callback ≠ none
  size : data.length = (msgResp msgType).rxDataLength.toNat

/-- What is written before the callback is called: the boot message is acknowledged. -/
def acknowledged (msgType : UInt8) (data : List UInt8) : List (CommsOutput ε) :=
  if msgType = bootMsg ∧ data = [] then [.writeResponse wrOk []] else []

/-- **A request** from between messages runs its callback on its last byte, with the
data at the start of the buffer. -/
theorem feed_request (idle : c.Idle) {msgType : UInt8} {data : List UInt8}
    {callback : Mem UInt8 → δ → CallResult δ ε} (fits : Fits msgResp msgType data)
    (known : (msgResp msgType).callback = some callback) :
    ∃ c₁ : Comms δ, c₁.prog = c.prog ∧ c₁.running = true ∧ c₁.msgType = msgType ∧
      c₁.buff.load 0 data.length = data ∧
      (commsFSM msgResp).after c (commsStartByte :: msgType :: data) =
        (runCallback msgResp c₁ callback).1 ∧
      (commsFSM msgResp).outputs c (commsStartByte :: msgType :: data) =
        .clearSPIInt :: acknowledged msgType data ++ (runCallback msgResp c₁ callback).2 := by
  cases data with
  | nil =>
      have short : (msgResp msgType).rxDataLength = 0 := by
        rw [← UInt8.toNat_inj, ← fits.size]
        rfl
      obtain ⟨c₁, prog, running, type, reached, emitted⟩ :=
        feed_short msgResp idle fits.inside known short
      refine ⟨c₁, prog, running, type, rfl, reached, ?_⟩
      rw [emitted]
      simp [acknowledged]
  | cons byte rest =>
      obtain ⟨c₁, prog, running, type, loaded, reached, emitted⟩ :=
        feed_long msgResp idle fits.inside known fits.size (by simp)
      refine ⟨c₁, prog, running, type, loaded, reached, ?_⟩
      rw [emitted]
      simp [acknowledged]

/-- Too few data bytes have no effect. -/
theorem feed_fewer (rest : List UInt8) : ∀ c : Comms δ, c.running = true → c.state = .data →
    c.dataIdx.toNat + rest.length < c.dataSize.toNat →
    (commsFSM msgResp).outputs c rest = [] := by
  induction rest with
  | nil =>
      intros
      rfl
  | cons byte rest ih =>
      intro c running state fewer
      have small := c.dataSize.toNat_lt
      simp only [List.length_cons] at fewer
      have advanced : (c.dataIdx + 1).toNat = c.dataIdx.toNat + 1 := by
        rw [UInt8.toNat_add]
        simp only [UInt8.reduceToNat]
        omega
      have more : c.dataIdx + 1 ≠ c.dataSize := by
        intro last
        have equal := congrArg UInt8.toNat last
        omega
      have step : (commsFSM msgResp).step c byte = (c.collect byte, []) :=
        (commsStep_data msgResp running state byte).trans (runDataByte_more msgResp more)
      rw [Fsm.outputs_cons, Fsm.emit, Fsm.next, step, List.nil_append]
      exact ih (c.collect byte) running state (by simp only [Comms.collect, advanced]; omega)

/-- A request runs nothing before its last byte. -/
theorem called_before_last (idle : c.Idle) {msgType : UInt8} {data : List UInt8}
    (fits : Fits msgResp msgType data) :
    called ((commsFSM msgResp).outputs c (commsStartByte :: msgType :: data).dropLast) = [] := by
  obtain ⟨callback, known⟩ := Option.ne_none_iff_exists'.mp fits.known
  cases data with
  | nil =>
      have step : (commsFSM msgResp).step c commsStartByte = _ := commsStep_start msgResp idle _
      show called ((commsFSM msgResp).outputs c [commsStartByte]) = []
      rw [Fsm.outputs_cons, Fsm.emit, step]
      rfl
  | cons byte rest =>
      have size := fits.size
      have long : (msgResp msgType).rxDataLength ≠ 0 := by
        intro zero
        rw [zero] at size
        simp at size
      have split : (commsStartByte :: msgType :: byte :: rest).dropLast =
          commsStartByte :: msgType :: (byte :: rest).dropLast := rfl
      have silent := feed_fewer msgResp (byte :: rest).dropLast
        { c with
          msgType := msgType, dataSize := (msgResp msgType).rxDataLength, dataIdx := 0
          state := .data } idle.running rfl (by
            rw [List.length_dropLast, size]
            simp only [List.length_cons] at size
            simp only [UInt8.toNat_zero]
            omega)
      rw [split, (feed_type msgResp idle msgType _).2,
        runMsgType_long msgResp fits.inside known long]
      show called (.clearSPIInt :: ([] ++ (commsFSM msgResp).outputs _ _)) = []
      rw [silent]
      rfl

/-! ## Bytes without effect -/

/-- A type that is outside the table or has no callback. -/
def Unknown (msgType : UInt8) : Prop := numMsgs ≤ msgType ∨ (msgResp msgType).callback = none

/-- Bytes that the machine skips: each start byte it sees is followed by an unknown type. -/
def Inert : List UInt8 → Prop
  | [] => True
  | [byte] => byte ≠ commsStartByte
  | byte :: next :: rest =>
      if byte = commsStartByte then Unknown msgResp next ∧ Inert rest else Inert (next :: rest)

/-- A message that has begun to collect data runs its callback or is not finished. -/
theorem collecting_not_idle (rest : List UInt8) : ∀ c : Comms δ, c.running = true →
    c.state = .data → c.Wf msgResp →
    called ((commsFSM msgResp).outputs c rest) ≠ [] ∨ ¬ ((commsFSM msgResp).after c rest).Idle := by
  induction rest with
  | nil =>
      intro c running state wf
      right
      intro idle
      rw [Fsm.after_nil] at idle
      exact absurd (idle.state.symm.trans state) (by simp)
  | cons byte rest ih =>
      intro c running state wf
      by_cases last : c.dataIdx + 1 = c.dataSize
      · obtain ⟨callback, known⟩ := Option.ne_none_iff_exists'.mp (wf state).1
        left
        have step : (commsFSM msgResp).step c byte =
            runCallback msgResp (c.collect byte) callback :=
          (commsStep_data msgResp running state byte).trans (runDataByte_last msgResp last known)
        rw [Fsm.outputs_cons, Fsm.emit, step]
        cases status : (callback (c.collect byte).buff (c.collect byte).prog).status with
        | some value => simp [runCallback_returns msgResp status]
        | none => simp [runCallback_leaves msgResp status]
      · have step : (commsFSM msgResp).step c byte = (c.collect byte, []) :=
          (commsStep_data msgResp running state byte).trans (runDataByte_more msgResp last)
        rw [Fsm.outputs_cons, Fsm.after_cons, Fsm.emit, Fsm.next, step, List.nil_append]
        exact ih (c.collect byte) running state wf

/-- A known type after a start byte runs its callback or leaves a message begun. -/
theorem known_not_inert (idle : c.Idle) {msgType : UInt8} (known : ¬ Unknown msgResp msgType)
    (rest : List UInt8) :
    called ((commsFSM msgResp).outputs c (commsStartByte :: msgType :: rest)) ≠ [] ∨
      ¬ ((commsFSM msgResp).after c (commsStartByte :: msgType :: rest)).Idle := by
  obtain ⟨inside, some⟩ := not_or.mp known
  obtain ⟨callback, entry⟩ := Option.ne_none_iff_exists'.mp some
  obtain ⟨reached, emitted⟩ := feed_type msgResp idle msgType rest
  rw [reached, emitted]
  by_cases short : (msgResp msgType).rxDataLength = 0
  · left
    rw [runMsgType_short msgResp inside entry short]
    generalize { { c with state := .msgType } with msgType := msgType, dataSize := 0 } = c₁
    cases status : (callback c₁.buff c₁.prog).status with
    | some value => simp [runCallback_returns msgResp status]
    | none => simp [runCallback_leaves msgResp status]
  · rw [runMsgType_long msgResp inside entry short]
    rcases collecting_not_idle msgResp rest
      { c with
        msgType := msgType, dataSize := (msgResp msgType).rxDataLength, dataIdx := 0
        state := .data } idle.running rfl (fun _ => ⟨some, rfl⟩) with calls | busy
    · left
      simpa using calls
    · exact .inr busy

/-- Inert bytes only clear the interrupt line, again and again. -/
theorem feed_inert (bytes : List UInt8) (inert : Inert msgResp bytes) : ∀ {c : Comms δ}, c.Idle →
    ∃ c', (commsFSM msgResp).after c bytes = c' ∧ c'.Idle ∧ c'.prog = c.prog ∧
      ∀ output ∈ (commsFSM msgResp).outputs c bytes, output = .clearSPIInt := by
  fun_induction Inert msgResp bytes with
  | case1 =>
      intro c idle
      exact ⟨c, rfl, idle, rfl, by simp⟩
  | case2 byte =>
      intro c idle
      have step : (commsFSM msgResp).step c byte = _ := commsStep_start msgResp idle byte
      rw [if_neg inert] at step
      refine ⟨{ c with state := .startByte }, ?_, ⟨idle.running, rfl⟩, rfl, ?_⟩
      · rw [Fsm.after_cons, Fsm.next, step]
        rfl
      · rw [Fsm.outputs_cons, Fsm.emit, step]
        simp
  | case3 next rest ih =>
      intro c idle
      obtain ⟨c₁, reached₁, idle₁, prog₁, emitted₁⟩ := feed_unknown msgResp idle inert.1
      obtain ⟨c', reached, idle', prog, clear⟩ := ih inert.2 idle₁
      refine ⟨c', ?_, idle', prog.trans prog₁, ?_⟩
      · rw [show commsStartByte :: next :: rest = [commsStartByte, next] ++ rest from rfl,
          Fsm.after_append, reached₁, reached]
      · rw [show commsStartByte :: next :: rest = [commsStartByte, next] ++ rest from rfl,
          Fsm.outputs_append, reached₁, emitted₁]
        simpa using clear
  | case4 byte next rest other ih =>
      intro c idle
      have step : (commsFSM msgResp).step c byte = _ := commsStep_start msgResp idle byte
      rw [if_neg other] at step
      obtain ⟨c', reached, idle', prog, clear⟩ :=
        ih inert (c := { c with state := .startByte }) ⟨idle.running, rfl⟩
      refine ⟨c', ?_, idle', prog, ?_⟩
      · rw [Fsm.after_cons, Fsm.next, step, reached]
      · rw [Fsm.outputs_cons, Fsm.emit, Fsm.next, step]
        simpa using clear

/-- Bytes that run no callback and end between messages are inert. -/
theorem inert_of_quiet (bytes : List UInt8) : ∀ {c : Comms δ}, c.Idle →
    called ((commsFSM msgResp).outputs c bytes) = [] →
    ((commsFSM msgResp).after c bytes).Idle → Inert msgResp bytes := by
  fun_induction Inert msgResp bytes with
  | case1 =>
      intros
      trivial
  | case2 byte =>
      intro c idle quiet between start
      have step : (commsFSM msgResp).step c byte = _ := commsStep_start msgResp idle byte
      rw [if_pos start] at step
      rw [Fsm.after_cons, Fsm.next, step] at between
      cases between.state
  | case3 next rest ih =>
      intro c idle quiet between
      by_cases unknown : Unknown msgResp next
      · obtain ⟨c', reached, idle', -, emitted⟩ := feed_unknown msgResp idle unknown
        rw [show commsStartByte :: next :: rest = [commsStartByte, next] ++ rest from rfl,
          Fsm.outputs_append, reached, emitted] at quiet
        rw [show commsStartByte :: next :: rest = [commsStartByte, next] ++ rest from rfl,
          Fsm.after_append, reached] at between
        exact ⟨unknown, ih idle' (by simpa using quiet) between⟩
      · rcases known_not_inert msgResp idle unknown rest with calls | busy
        · exact absurd quiet calls
        · exact absurd between busy
  | case4 byte next rest other ih =>
      intro c idle quiet between
      have step : (commsFSM msgResp).step c byte = _ := commsStep_start msgResp idle byte
      rw [if_neg other] at step
      rw [Fsm.outputs_cons, Fsm.emit, Fsm.next, step, called_append] at quiet
      rw [Fsm.after_cons, Fsm.next, step] at between
      exact ih (c := { c with state := .startByte }) ⟨idle.running, rfl⟩ quiet between

/-- **Inert bytes** are those that run no callback and end between messages. -/
theorem inert_iff (bytes : List UInt8) (idle : c.Idle) :
    Inert msgResp bytes ↔
      called ((commsFSM msgResp).outputs c bytes) = [] ∧
        ((commsFSM msgResp).after c bytes).Idle := by
  constructor
  · intro inert
    obtain ⟨c', reached, idle', -, clear⟩ := feed_inert msgResp bytes inert idle
    exact ⟨called_of_clear clear, reached ▸ idle'⟩
  · rintro ⟨quiet, between⟩
    exact inert_of_quiet msgResp bytes idle quiet between

end Requests

end OlympusFirmware.SlaveLib
