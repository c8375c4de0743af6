import OlympusFirmware.Hephaestus.Comms
import OlympusFirmware.SlaveLib.Exchange

/-!
# The response phase (`master_lib/drivers/submoduleComms.c`)

After a request, `messageSubmodule` waits for the slave and then receives the status
and `rx_size` data bytes. For each byte received one is sent: the uninitialised
`status`, then the old contents of the caller's buffer. The request itself is sent with
a separate buffer for what comes back, so only this phase has the problem.

Here a slave board goes through any sequence of exchanges that are answered, with any
such bytes. If a message makes the board change its program, what is still in the
receive ring is lost.
-/

namespace OlympusFirmware.Update

open OlympusFirmware.Lib OlympusFirmware.SlaveLib OlympusFirmware.SlaveBoot

/-- A call of `messageSubmodule`, with the memory it sends while it receives: `status`
and the first `rx_size` bytes of `buff`. -/
structure Clocked where
  msgType : UInt8
  data : List UInt8
  status : UInt8
  buff : List UInt8

/-- What is sent before the wait. -/
def Clocked.request (x : Clocked) : List UInt8 := commsStartByte :: x.msgType :: x.data

/-- What is sent after it. -/
def Clocked.dummies (x : Clocked) : List UInt8 := x.status :: x.buff

section ResponsePhase

variable {δ ε : Type} (app : Application δ ε)

/-- The board after the request, if it still runs the same program. -/
def Slave.afterRequest (x : Clocked) : Slave δ → Option (Slave δ)
  | .application c =>
      let after := (commsFSM app.msgResp).after c x.request
      if after.running then some (.application after) else none
  | .bootloader c =>
      let after := slaveBootFSM.after c x.request
      if after.running then some (.bootloader after) else none

/-- The other program, as it starts. -/
def Slave.restart : Slave δ → Slave δ
  | .application _ => .bootloader (.reset .reset)
  | .bootloader _ => .application (.reset app.start)

/-- The callbacks that bytes run. -/
def Slave.calls (bytes : List UInt8) : Slave δ → List UInt8
  | .application c => called ((commsFSM app.msgResp).outputs c bytes)
  | .bootloader c => called (slaveBootFSM.outputs c bytes)

/-- The board after bytes. -/
def Slave.receive (bytes : List UInt8) : Slave δ → Slave δ
  | .application c => .application ((commsFSM app.msgResp).after c bytes)
  | .bootloader c => .bootloader (slaveBootFSM.after c bytes)

/-- Between messages. -/
def Slave.Idle : Slave δ → Prop
  | .application c => c.Idle
  | .bootloader c => c.Idle

/-- One exchange: the board after it, and the callbacks run in the response phase. -/
def exchangeStep (slave : Slave δ) (x : Clocked) : Slave δ × List UInt8 :=
  match slave.afterRequest app x with
  | some after => (after.receive app x.dummies, after.calls app x.dummies)
  | none => (slave.restart app, [])

/-- The exchanges as a machine. -/
def exchangeFSM : Fsm (Slave δ) Clocked UInt8 where
  step := exchangeStep app

/-- The program has a message of this type and takes this much data. -/
def Slave.Fits (slave : Slave δ) (x : Clocked) : Prop :=
  match slave with
  | .application _ => SlaveLib.Fits app.msgResp x.msgType x.data
  | .bootloader _ => SlaveLib.Fits SlaveBoot.msgResp x.msgType x.data

/-- The response phase has no effect: no callback runs and the next exchange finds the
board between messages. -/
def ResponseInert (slave : Slave δ) (x : Clocked) : Prop :=
  (exchangeFSM app).emit slave x = [] ∧ ((exchangeFSM app).next slave x).Idle

/-- The bytes sent in it are inert for the program that receives them. -/
def DummiesInert (slave : Slave δ) (x : Clocked) : Prop :=
  match slave.afterRequest app x with
  | some (.application _) => Inert app.msgResp x.dummies
  | some (.bootloader _) => Inert SlaveBoot.msgResp x.dummies
  | none => True

/-! ## One exchange -/

/-- A request is answered: the machine is between messages or has stopped. -/
theorem idle_after_request {δ ε : Type} {msgResp : UInt8 → MsgInfo δ ε} {c : Comms δ}
    (idle : c.Idle) {x : Clocked} (fits : SlaveLib.Fits msgResp x.msgType x.data)
    (running : ((commsFSM msgResp).after c x.request).running = true) :
    ((commsFSM msgResp).after c x.request).Idle := by
  obtain ⟨callback, known⟩ := Option.ne_none_iff_exists'.mp fits.known
  obtain ⟨c₁, -, -, -, -, reached, -⟩ := feed_request msgResp idle fits known
  refine ⟨running, ?_⟩
  rw [Clocked.request, reached] at running ⊢
  cases status : (callback c₁.buff c₁.prog).status with
  | some value => rw [runCallback_returns msgResp status]
  | none =>
      rw [runCallback_leaves msgResp status] at running
      cases running

/-- **One exchange** from between messages. -/
theorem responseInert_iff {slave : Slave δ} (idle : slave.Idle) {x : Clocked}
    (fits : slave.Fits app x) : ResponseInert app slave x ↔ DummiesInert app slave x := by
  have emit : (exchangeFSM app).emit slave x = (exchangeStep app slave x).2 := rfl
  have next : (exchangeFSM app).next slave x = (exchangeStep app slave x).1 := rfl
  unfold ResponseInert DummiesInert
  rw [emit, next]
  unfold exchangeStep
  cases slave with
  | application c =>
      by_cases running : ((commsFSM app.msgResp).after c x.request).running = true
      · have idle' := idle_after_request idle fits running
        simp only [Slave.afterRequest, running, if_true]
        exact (inert_iff app.msgResp x.dummies idle').symm
      · simp only [Slave.afterRequest, if_neg running]
        exact iff_of_true ⟨trivial, rfl, rfl⟩ trivial
  | bootloader c =>
      by_cases running : (slaveBootFSM.after c x.request).running = true
      · have idle' := idle_after_request idle fits running
        simp only [Slave.afterRequest, running, if_true]
        exact (inert_iff SlaveBoot.msgResp x.dummies idle').symm
      · simp only [Slave.afterRequest, if_neg running]
        exact iff_of_true ⟨trivial, rfl, rfl⟩ trivial

/-- **The response phase.** For every board between messages and every sequence of
exchanges that are answered: the response phases have no effect if and only if what is
sent in each is inert. -/
theorem response_phase_inert_iff {slave : Slave δ} (idle : slave.Idle) (exchanges : List Clocked)
    (fits : (exchangeFSM app).EveryStep (Slave.Fits app) slave exchanges) :
    (exchangeFSM app).EveryStep (ResponseInert app) slave exchanges ↔
      (exchangeFSM app).EveryStep (DummiesInert app) slave exchanges := by
  constructor
  · intro inert
    refine (exchangeFSM app).everyStep_of_invariant (I := Slave.Idle)
      (C := fun s x => s.Fits app x ∧ ResponseInert app s x) ?_ idle
      (((exchangeFSM app).everyStep_and _ _ _ _).mpr ⟨fits, inert⟩)
    rintro s x idle ⟨fits, inert⟩
    exact ⟨inert.2, (responseInert_iff app idle fits).mp inert⟩
  · intro inert
    refine (exchangeFSM app).everyStep_of_invariant (I := Slave.Idle)
      (C := fun s x => s.Fits app x ∧ DummiesInert app s x) ?_ idle
      (((exchangeFSM app).everyStep_and _ _ _ _).mpr ⟨fits, inert⟩)
    rintro s x idle ⟨fits, inert⟩
    have response := (responseInert_iff app idle fits).mpr inert
    exact ⟨response.2, response⟩

end ResponsePhase

/-! ## A reading that spells a message -/

/-- Hephaestus with a steering average of 234. -/
def hephaestusAt234 : Slave Hephaestus.Vars :=
  .application (.reset { Hephaestus.Vars.reset with steerAvg := 0x00EA })

/-- `getHephaestusSteerPot`, with zero in `status` and the given bytes in the buffer. -/
def steerPotRequest (buff : List UInt8) : Clocked := ⟨0x02, [], 0x00, buff⟩

theorem steerPotRequest_fits (buff : List UInt8) :
    SlaveLib.Fits Hephaestus.hephaestus.msgResp (steerPotRequest buff).msgType
      (steerPotRequest buff).data where
  inside := show ¬ numMsgs ≤ 0x02 by decide
  known := Option.some_ne_none _
  size := rfl

/-- With a cleared buffer, the response phase has no effect. -/
theorem first_steerPot_inert :
    (exchangeFSM Hephaestus.hephaestus).EveryStep (ResponseInert Hephaestus.hephaestus)
      hephaestusAt234 [steerPotRequest [0x00, 0x00]] := by
  have idle : hephaestusAt234.Idle := ⟨rfl, rfl⟩
  refine (response_phase_inert_iff Hephaestus.hephaestus idle [steerPotRequest [0x00, 0x00]]
    ⟨steerPotRequest_fits [0x00, 0x00], trivial⟩).mpr ⟨?_, trivial⟩
  show Inert Hephaestus.hephaestus.msgResp [0x00, 0x00, 0x00]
  simp [Inert, commsStartByte]

/-- The first reading leaves `0xEA 0x00` in the buffer; sent in the response phase of
the second, they are a status request, and its callback runs. -/
theorem second_steerPot_runs_status :
    queued ((commsFSM Hephaestus.hephaestus.msgResp).outputs
      (.reset { Hephaestus.Vars.reset with steerAvg := 0x00EA })
      (steerPotRequest [0x00, 0x00]).request) = [0xAA, 0xEA, 0x00] ∧
    (exchangeFSM Hephaestus.hephaestus).outputs hephaestusAt234
      [steerPotRequest [0x00, 0x00], steerPotRequest [0xEA, 0x00]] = [0x00] ∧
    ¬ (exchangeFSM Hephaestus.hephaestus).EveryStep (ResponseInert Hephaestus.hephaestus)
      hephaestusAt234 [steerPotRequest [0x00, 0x00], steerPotRequest [0xEA, 0x00]] := by
  refine ⟨by decide +kernel, by decide +kernel, ?_⟩
  rintro ⟨-, ⟨silent, -⟩, -⟩
  revert silent
  decide +kernel

end OlympusFirmware.Update
