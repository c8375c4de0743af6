import OlympusFirmware.Hephaestus.Comms

/-!
# Hephaestus as a whole (`hephaestus/main.c`)

After the timer has been initialised the main loop hands on the bytes of the
master and calls `update_steer_control_loop`, while interrupts renew the averages
and the speed. The machine takes these four events in any order, which covers the
loop with interrupts anywhere in it; what it emits are the writes of the compare
registers.

Two results over every run. The steering registers follow the latest reading and
target after every call of the control loop, and no drive is on beyond its end
stop. And in no state are the two sides of both H-bridges exclusive, as the note in
`MX_TIMER_1_INIT` asks: the brake's registers keep the pulses they are initialised
with, and the steering registers keep theirs until the loop's first write.
-/

namespace OlympusFirmware.Hephaestus

open OlympusFirmware.Lib OlympusFirmware.SlaveLib

/-- The program: message reception with the variables, and the control loop's flags. -/
structure Board where
  comms : Comms Vars
  flags : SteerFlags

/-- The state at reset. -/
def Board.reset : Board := ⟨.reset .reset, ⟨false, false⟩⟩

/-- What happens to the program. -/
inductive Event
  /-- `readByte` has a byte for `runCommsFSM` -/
  | byte (data : UInt8)
  /-- the ADC interrupt completes the averages -/
  | adc (steer brake : UInt16)
  /-- the capture interrupt completes a speed -/
  | capture (speed : Int16)
  /-- `update_steer_control_loop` is called -/
  | update
deriving DecidableEq

/-- One event. Once a message has reset the processor, the loop is not reached any
more. -/
def boardStep (b : Board) : Event → Board × List CcrWrite
  | .byte data => ({ b with comms := (commsStep hephaestus.msgResp b.comms data).1 }, [])
  | .adc steer brake =>
      ({ b with comms.prog.steerAvg := steer, comms.prog.brakeAvg := brake }, [])
  | .capture speed => ({ b with comms.prog.steerSpeed := speed }, [])
  | .update =>
      if b.comms.running then
        let result := updateSteerControlLoop b.comms.prog.steerAvg
          b.comms.prog.targetSteerValue b.flags
        ({ b with flags := result.1 }, result.2)
      else (b, [])

/-- The program as a machine. -/
def boardFSM : Fsm Board Event CcrWrite where
  step := boardStep

/-- The compare registers once the timer is initialised and `ws` has been written. -/
def registers (ws : List CcrWrite) : Tim1 := Tim1.writes ⟨0, 0, 0, 0⟩ (mxTimer1Init ++ ws)

theorem registers_append (ws more : List CcrWrite) :
    registers (ws ++ more) = (registers ws).writes more := by
  rw [registers, ← List.append_assoc, Tim1.writes_append]
  rfl

/-! ## Steering -/

/-- What every run keeps: the target is one an accepted angle gives, and a flag that
is set tells what the steering registers hold. -/
structure Board.Inv (b : Board) (tim : Tim1) : Prop where
  wf : b.comms.Wf hephaestus.msgResp
  target : ValidTarget b.comms.prog.targetSteerValue
  latched : Latched b.flags tim

theorem inv_reset : Board.reset.Inv (registers []) :=
  ⟨Comms.wf_of_ne (by simp [Board.reset, Comms.reset]), .inl rfl, ⟨nofun, nofun⟩⟩

/-- A call of the control loop while the program runs. -/
theorem boardStep_update {b : Board} (running : b.comms.running = true) :
    boardStep b .update =
      ({ b with
          flags := (updateSteerControlLoop b.comms.prog.steerAvg
            b.comms.prog.targetSteerValue b.flags).1 },
        (updateSteerControlLoop b.comms.prog.steerAvg
          b.comms.prog.targetSteerValue b.flags).2) := if_pos running

/-- One event keeps the invariant. -/
theorem Board.Inv.next {b : Board} {tim : Tim1} (inv : b.Inv tim) (event : Event) :
    (boardFSM.next b event).Inv (tim.writes (boardFSM.emit b event)) := by
  cases event with
  | byte data =>
      obtain ⟨wf, target⟩ := commsStep_preserves hephaestus.msgResp
        (I := fun h => ValidTarget h.targetSteerValue)
        (fun _ _ _ _ known => callbacks_keep_target known) inv.wf inv.target data
      exact ⟨wf, target, inv.latched⟩
  | adc steer brake => exact ⟨inv.wf, inv.target, inv.latched⟩
  | capture speed => exact ⟨inv.wf, inv.target, inv.latched⟩
  | update =>
      show (boardStep b .update).1.Inv (tim.writes (boardStep b .update).2)
      by_cases running : b.comms.running = true
      · have spec := updateSteerControlLoop_spec inv.latched b.comms.prog.steerAvg
          b.comms.prog.targetSteerValue rfl
        rw [boardStep_update running]
        exact ⟨inv.wf, inv.target, spec.2⟩
      · rw [boardStep, if_neg running]
        exact inv

/-- A run keeps it. -/
theorem inv_after (events : List Event) :
    (boardFSM.after .reset events).Inv (registers (boardFSM.outputs .reset events)) := by
  induction events using List.reverseRecOn with
  | nil => exact inv_reset
  | append_singleton events event ih =>
      rw [Fsm.after_append, Fsm.outputs_append, registers_append]
      simpa using ih.next event

/-- What the steering registers should hold for the reading `p` and the target `t`. -/
structure Steered (p t : UInt16) (tim : Tim1) : Prop where
  /-- the registers depend on nothing else -/
  registers : (tim.ccr1, tim.ccr2) = drive p t
  right : (tim.ccr1 ≠ 0 ∧ tim.ccr2 = 0) ↔ (p.toNat : Int) < t.toNat - 50
  left : (tim.ccr2 ≠ 0 ∧ tim.ccr1 = 0) ↔ t.toNat + 50 < p.toNat
  off : (tim.ccr1 = 0 ∧ tim.ccr2 = 0) ↔ ((t.toNat : Int) - 50 ≤ p.toNat ∧ p.toNat ≤ t.toNat + 50)
  rightStop : maxRightPot ≤ p.toNat → tim.ccr1 = 0
  leftStop : p.toNat ≤ maxLeftPot → tim.ccr2 = 0

/-- Registers that hold the drive of a valid target are as they should be. -/
theorem steered_of_drive {p t : UInt16} {tim : Tim1} (valid : ValidTarget t)
    (driven : (tim.ccr1, tim.ccr2) = drive p t) : Steered p t tim := by
  obtain ⟨low, high⟩ := valid.bounds
  have on : bangBangValue ≠ 0 := by decide
  have rightPot : maxRightPot = 1917 := rfl
  have leftPot : maxLeftPot = 975 := rfl
  have cases := driven
  unfold drive at cases
  split at cases
  · obtain ⟨first, second⟩ := Prod.mk.inj cases
    refine ⟨driven, ?_, ?_, ?_, ?_, ?_⟩ <;> simp [first, second, on] <;> omega
  · split at cases
    · obtain ⟨first, second⟩ := Prod.mk.inj cases
      refine ⟨driven, ?_, ?_, ?_, ?_, ?_⟩ <;> simp [first, second, on] <;> omega
    · obtain ⟨first, second⟩ := Prod.mk.inj cases
      refine ⟨driven, ?_, ?_, ?_, ?_, ?_⟩ <;> simp [first, second] <;> omega

/-- **End-stop safety.** After any events, a call of the control loop leaves the
steering registers as the latest reading and the target ask, and the target is the
middle or that of an accepted angle. -/
theorem steering_end_stop_safe (events : List Event)
    (running : (boardFSM.after .reset events).comms.running = true) :
    ValidTarget (boardFSM.after .reset events).comms.prog.targetSteerValue ∧
      Steered (boardFSM.after .reset events).comms.prog.steerAvg
        (boardFSM.after .reset events).comms.prog.targetSteerValue
        (registers (boardFSM.outputs .reset (events ++ [.update]))) := by
  have inv := inv_after events
  refine ⟨inv.target, steered_of_drive inv.target ?_⟩
  have spec := updateSteerControlLoop_spec inv.latched
    (boardFSM.after .reset events).comms.prog.steerAvg
    (boardFSM.after .reset events).comms.prog.targetSteerValue rfl
  have emitted : boardFSM.outputs (boardFSM.after .reset events) [.update] =
      (boardStep (boardFSM.after .reset events) .update).2 := List.append_nil _
  rw [Fsm.outputs_append, registers_append, emitted, boardStep_update running]
  exact spec.1

/-- The angle 90 is accepted; with the wheels to the left of it, the motor turns
right. -/
theorem steers_right_to_ninety :
    registers (boardFSM.outputs .reset
        ([.byte 0xEA, .byte 0x01, .byte 90, .adc 1000 0] ++ [.update])) =
      ⟨bangBangValue, 0, 450, 300⟩ ∧
    Steered 1000 1570
      (registers (boardFSM.outputs .reset
        ([.byte 0xEA, .byte 0x01, .byte 90, .adc 1000 0] ++ [.update]))) := by
  have safe := (steering_end_stop_safe [.byte 0xEA, .byte 0x01, .byte 90, .adc 1000 0]
    (by decide +kernel)).2
  exact ⟨by decide +kernel, safe⟩

/-! ## The H-bridges -/

/-- The two sides of each bridge are not driven at the same time. -/
structure Exclusive (tim : Tim1) : Prop where
  steering : tim.ccr1 = 0 ∨ tim.ccr2 = 0
  brake : tim.ccr3 = 0 ∨ tim.ccr4 = 0

/-- Writes of the control loop: of a steering register, and only to drive it while
the other one is off. -/
def SteeringWrite (tim : Tim1) (w : CcrWrite) : Prop :=
  (w.reg = .ccr1 ∧ (w.value = 0 ∨ tim.ccr2 = 0)) ∨
    (w.reg = .ccr2 ∧ (w.value = 0 ∨ tim.ccr1 = 0))

/-- Every write in the list is such a write where it is made. -/
def SteeringWrites : Tim1 → List CcrWrite → Prop
  | _, [] => True
  | tim, w :: ws => SteeringWrite tim w ∧ SteeringWrites (tim.write w) ws

theorem steeringWrites_append {tim : Tim1} {first rest : List CcrWrite}
    (before : SteeringWrites tim first) (behind : SteeringWrites (tim.writes first) rest) :
    SteeringWrites tim (first ++ rest) := by
  induction first generalizing tim with
  | nil => exact behind
  | cons w ws ih => exact ⟨before.1, ih before.2 behind⟩

/-- A call of the control loop makes such writes only, whatever the registers hold. -/
theorem updateSteerControlLoop_writes (tim : Tim1) (steeringPot targetSteerValue : UInt16)
    (flags : SteerFlags) :
    SteeringWrites tim (updateSteerControlLoop steeringPot targetSteerValue flags).2 := by
  unfold updateSteerControlLoop
  rw [steerRight_eq, steerLeft_eq, steerStop_eq]
  split_ifs
  · trivial
  · exact ⟨.inr ⟨rfl, .inl rfl⟩, .inl ⟨rfl, .inr rfl⟩, trivial⟩
  · trivial
  · exact ⟨.inl ⟨rfl, .inl rfl⟩, .inr ⟨rfl, .inr rfl⟩, trivial⟩
  · exact ⟨.inl ⟨rfl, .inl rfl⟩, .inr ⟨rfl, .inl rfl⟩, trivial⟩

/-- All writes of a run are such writes. -/
theorem outputs_steeringWrites (b : Board) (tim : Tim1) (events : List Event) :
    SteeringWrites tim (boardFSM.outputs b events) := by
  induction events generalizing b tim with
  | nil => trivial
  | cons event events ih =>
      refine steeringWrites_append ?_ (ih _ _)
      show SteeringWrites tim (boardStep b event).2
      cases event with
      | byte | adc | capture => trivial
      | update =>
          by_cases running : b.comms.running = true
          · rw [boardStep_update running]
            exact updateSteerControlLoop_writes tim _ _ _
          · rw [boardStep, if_neg running]
            trivial

/-- After such writes, at every point between them: the brake's registers are what
they were, and once there was one the steering registers are exclusive. -/
theorem steeringWrites_prefix {tim : Tim1} {ws done : List CcrWrite}
    (writes : SteeringWrites tim ws) (cut : done <+: ws) :
    (tim.writes done).ccr3 = tim.ccr3 ∧ (tim.writes done).ccr4 = tim.ccr4 ∧
      ((done ≠ [] ∨ tim.ccr1 = 0 ∨ tim.ccr2 = 0) →
        (tim.writes done).ccr1 = 0 ∨ (tim.writes done).ccr2 = 0) := by
  induction done generalizing tim ws with
  | nil =>
      refine ⟨rfl, rfl, ?_⟩
      rintro (absurd | off)
      · exact (absurd rfl).elim
      · exact off
  | cons w done ih =>
      obtain ⟨rest, rfl⟩ := cut
      obtain ⟨head, tail⟩ := writes
      have off : (tim.write w).ccr1 = 0 ∨ (tim.write w).ccr2 = 0 := by
        rcases head with ⟨reg, zero⟩ | ⟨reg, zero⟩
        · simpa [Tim1.write, reg] using zero
        · simpa [Tim1.write, reg, or_comm] using zero
      obtain ⟨third, fourth, exclusive⟩ := ih tail (List.prefix_append done rest)
      refine ⟨?_, ?_, fun _ => exclusive (.inr off)⟩
      · rw [Tim1.writes_cons, third]
        rcases head with ⟨reg, -⟩ | ⟨reg, -⟩ <;> simp [Tim1.write, reg]
      · rw [Tim1.writes_cons, fourth]
        rcases head with ⟨reg, -⟩ | ⟨reg, -⟩ <;> simp [Tim1.write, reg]

/-- **The bridges are never exclusive.** At every point of every run, between any
two register writes too, both sides of the brake's bridge are driven. The steering
bridge is exclusive from the first write of the control loop on, and not before. -/
theorem bridges_never_exclusive (events : List Event) (done : List CcrWrite)
    (cut : done <+: boardFSM.outputs .reset events) :
    ¬ Exclusive (registers done) ∧
      (((registers done).ccr1 = 0 ∨ (registers done).ccr2 = 0) ↔ done ≠ []) := by
  have start := registers_append [] done
  rw [List.nil_append] at start
  obtain ⟨third, fourth, exclusive⟩ :=
    steeringWrites_prefix (outputs_steeringWrites .reset (registers []) events) cut
  rw [← start] at third fourth exclusive
  constructor
  · intro both
    rcases both.brake with off | off
    · rw [third] at off
      revert off
      decide
    · rw [fourth] at off
      revert off
      decide
  · constructor
    · rintro off rfl
      revert off
      decide
    · intro some
      exact exclusive (.inl some)

/-- Right after the initialisation all four sides are driven. -/
theorem initial_pulses_drive_both_sides :
    registers [] = ⟨600, 500, 450, 300⟩ ∧ ¬ Exclusive (registers []) :=
  ⟨rfl, fun both => by
    rcases both.brake with off | off
    · revert off
      decide
    · revert off
      decide⟩

/-- The first control iteration silences one side of the steering, not the brake. -/
theorem brake_driven_after_update :
    [⟨.ccr2, 0⟩, ⟨.ccr1, bangBangValue⟩] <+: boardFSM.outputs .reset [.update] ∧
      ¬ Exclusive (registers [⟨.ccr2, 0⟩, ⟨.ccr1, bangBangValue⟩]) := by
  have cut : [⟨.ccr2, 0⟩, ⟨.ccr1, bangBangValue⟩] <+: boardFSM.outputs .reset [.update] := by
    decide +kernel
  exact ⟨cut, (bridges_never_exclusive [.update] _ cut).1⟩

end OlympusFirmware.Hephaestus
