import OlympusFirmware.MasterBoot.Steps
import OlympusFirmware.Update.Board
import OlympusFirmware.UsbFlasher.Boot

/-!
# Retrying a failed update

An update that fails leaves the slave in its bootloader. To try again the host sends
another header, and the master goes through the same four exchanges: status, boot
message, status, header. The boot message is there to bring an application into the
bootloader. The bootloader itself has no callback for it (entry 10 of its table is
empty), so a slave that is there already does not answer, and the master gives up
with `ERR_REBOOT_START`. The retry succeeds from no state of the bootloader.
-/

namespace OlympusFirmware.Update

open OlympusFirmware.Lib OlympusFirmware.SlaveLib OlympusFirmware.SlaveBoot
open OlympusFirmware.UsbFlasher
open OlympusFirmware.MasterBoot (Boot BootOutput Module bootFSM responses expectOk sendHeader
  restartSubmodule)

/-! ## The bootloader's answers -/

/-- If the bootloader answers anything while it gets a status request, it is between
messages afterwards, whatever it was in the middle of before. -/
theorem idle_of_answered {c : Comms Bootloader} (wf : c.Wf msgResp)
    (answered : statuses (slaveBootFSM.outputs c [commsStartByte, 0x00]) ≠ [])
    (running : (slaveBootFSM.after c [commsStartByte, 0x00]).running = true) :
    (slaveBootFSM.after c [commsStartByte, 0x00]).Idle := by
  obtain ⟨wf₁, first⟩ := slaveBootStep_cases wf commsStartByte
  obtain ⟨-, second⟩ := slaveBootStep_cases wf₁ 0x00
  rcases second with waits | ⟨message, handles⟩
  · rcases first with waits₁ | ⟨message₁, handles₁⟩
    · refine absurd ?_ answered
      simp [waits₁.replied, waits.replied]
    · -- a message ended with the first byte, and the second is not a start byte
      have idle₁ := handles₁.idle (waits.running ▸ running)
      have step : slaveBootFSM.step (slaveBootFSM.next c commsStartByte) 0x00 = _ :=
        commsStep_start msgResp idle₁ 0x00
      rw [if_neg (by decide)] at step
      simp only [Fsm.after_cons, Fsm.after_nil]
      rw [Fsm.next, step]
      exact ⟨idle₁.running, rfl⟩
  · exact handles.idle running

section Retry

variable {δ ε : Type} (app : Application δ ε)

/-- A bootloader between messages does not answer the boot message. -/
theorem deliver_unanswered {c : Comms Bootloader} (idle : c.Idle) :
    (deliver app 0x0A [] (.bootloader c)).1 = ⟨.bootloader, 0x0A, none, []⟩ := by
  obtain ⟨c', -, -, -, emitted⟩ := feed_unknown msgResp idle
    (.inr rfl : numMsgs ≤ 0x0A ∨ (msgResp 0x0A).callback = none)
  have outputs : slaveBootFSM.outputs c [commsStartByte, 0x0A] = [.clearSPIInt] := emitted
  simp [deliver, outputs]

/-- After a status request that is answered well, a slave that was in its bootloader
has left it or does not answer the boot message. -/
theorem deliver_second {c : Comms Bootloader} (wf : c.Wf msgResp)
    (answered : (deliver app 0x00 [] (.bootloader c)).1.reply ≠ none) :
    (deliver app 0x0A [] (deliver app 0x00 [] (.bootloader c)).2).1.program = .application ∨
      (deliver app 0x0A [] (deliver app 0x00 [] (.bootloader c)).2).1.reply = none := by
  by_cases running : (slaveBootFSM.after c [commsStartByte, 0x00]).running = true
  · have stays : (deliver app 0x00 [] (.bootloader c)).2 =
        .bootloader (slaveBootFSM.after c [commsStartByte, 0x00]) := if_pos running
    have idle := idle_of_answered wf (fun silent => answered (congrArg List.head? silent)) running
    rw [stays, deliver_unanswered app idle]
    exact .inr rfl
  · have leaves : (deliver app 0x00 [] (.bootloader c)).2 = .application (.reset app.start) :=
      if_neg running
    rw [leaves]
    exact .inl rfl

/-! ## The master's exchanges -/

section Master

variable {module : Module} {b : Boot (Board δ)} (selected : b.module = module)

include selected

/-- An exchange without data, as the board sees it. -/
theorem sent_env (msgType : UInt8) :
    (b.sent (messageSubmodule app module) msgType 0).env =
      ⟨(deliver app msgType [] b.env.slave).2,
        b.env.log ++ [(deliver app msgType [] b.env.slave).1]⟩ := by
  rw [Boot.sent, selected]
  exact congrArg Prod.snd (messageSubmodule_eq app module msgType [] b.env)

/-- It succeeds if the board writes back `WR_OK`. -/
theorem status_eq_commsOk (msgType : UInt8) :
    b.status (messageSubmodule app module) msgType 0 = MasterBoot.commsOk ↔
      (deliver app msgType [] b.env.slave).1.reply = some wrOk := by
  rw [Boot.status, selected, Mem.load_zero, messageSubmodule_eq]
  cases (deliver app msgType [] b.env.slave).1.reply with
  | none => simp [commsErrTimeout, MasterBoot.commsOk]
  | some status =>
      rw [Option.getD_some, Option.some.injEq]
      rfl

end Master

/-- An exchange only adds to the board's log. -/
theorem sent_log (module : Module) (b : Boot (Board δ)) (msgType : UInt8) (txSize : Nat) :
    ∃ more, (b.sent (messageSubmodule app module) msgType txSize).env.log =
      b.env.log ++ more := by
  by_cases selected : b.module = module
  · simp only [Boot.sent, messageSubmodule, if_pos selected]
    exact ⟨_, rfl⟩
  · simp only [Boot.sent, messageSubmodule, if_neg selected]
    exact ⟨[], (List.append_nil _).symm⟩

/-- So does the end of a restart. -/
theorem end_of_restart_log (module : Module) (b : Boot (Board δ)) :
    ∃ more, (expectOk (messageSubmodule app module) b 0x00 MasterBoot.errRebootStatus fun b =>
        sendHeader (messageSubmodule app module) b).1.env.log = b.env.log ++ more := by
  obtain ⟨more, status⟩ := sent_log app module b 0x00 0
  rw [expectOk]
  split
  · exact ⟨more, status⟩
  · obtain ⟨more', header⟩ := sent_log app module
      { b.sent (messageSubmodule app module) 0x00 0 with
        submoduleCommsBuff := (b.sent (messageSubmodule app module) 0x00 0).submoduleCommsBuff.store
          0 (wordBytes b.header.size ++ wordBytes b.header.fkey) } 0x01 8
    refine ⟨more ++ more', ?_⟩
    rw [← List.append_assoc, ← status]
    exact header

/-- **The three outcomes** of the first two exchanges of a restart. -/
theorem restart_cases {module : Module} {b : Boot (Board δ)} (selected : b.module = module) :
    ((deliver app 0x00 [] b.env.slave).1.reply ≠ some wrOk ∧
        responses (restartSubmodule (messageSubmodule app module) b).2 =
          [MasterBoot.errRebootFail]) ∨
      (deliver app 0x00 [] b.env.slave).1.reply = some wrOk ∧
        (((deliver app 0x0A [] (deliver app 0x00 [] b.env.slave).2).1.reply ≠ some wrOk ∧
            responses (restartSubmodule (messageSubmodule app module) b).2 =
              [MasterBoot.errRebootStart]) ∨
          ((deliver app 0x0A [] (deliver app 0x00 [] b.env.slave).2).1.reply = some wrOk ∧
            ∃ more, (restartSubmodule (messageSubmodule app module) b).1.env.log =
              b.env.log ++ (deliver app 0x00 [] b.env.slave).1 ::
                (deliver app 0x0A [] (deliver app 0x00 [] b.env.slave).2).1 :: more)) := by
  have env₁ := sent_env app selected 0x00
  have selected₁ : (b.sent (messageSubmodule app module) 0x00 0).module = module := selected
  have env₂ := sent_env app selected₁ 0x0A
  have first := status_eq_commsOk app selected 0x00
  have second := status_eq_commsOk app selected₁ 0x0A
  rw [env₁] at env₂ second
  rw [ne_eq, ne_eq, ← first, ← second]
  by_cases ok₁ : b.status (messageSubmodule app module) 0x00 0 = MasterBoot.commsOk
  swap
  · refine .inl ⟨ok₁, ?_⟩
    rw [restartSubmodule, expectOk, if_pos ok₁]
    rfl
  refine .inr ⟨ok₁, ?_⟩
  rw [restartSubmodule, expectOk, if_neg (not_not.mpr ok₁), expectOk]
  by_cases ok₂ : (b.sent (messageSubmodule app module) 0x00 0).status
      (messageSubmodule app module) 0x0A 0 = MasterBoot.commsOk
  swap
  · refine .inl ⟨ok₂, ?_⟩
    rw [if_pos ok₂]
    rfl
  · obtain ⟨more, log⟩ := end_of_restart_log app module
      ((b.sent (messageSubmodule app module) 0x00 0).sent (messageSubmodule app module) 0x0A 0)
    refine .inr ⟨ok₂, more, ?_⟩
    rw [if_neg (not_not.mpr ok₂)]
    refine log.trans ?_
    rw [env₂]
    simp

/-! ## The retry -/

/-- The retry has worked: the header is answered `NO_ERR`, and each of its four
messages got a response from the slave in its bootloader. -/
structure Retried (before after : Board δ) (outputs : List BootOutput) : Prop where
  response : responses outputs = [MasterBoot.noErr]
  exchanges : ∃ made, after.log = before.log ++ made ∧
    made.map Exchange.msgType = [0x00, 0x0A, 0x00, 0x01] ∧
    ∀ exchange ∈ made, exchange.program = .bootloader ∧ exchange.reply ≠ none

/-- The words of a header. -/
def headerWords (device : Device) (size : UInt32) : List UInt32 :=
  [2, deviceKeyLut device, size, MasterBoot.eraseFlashKey]

/-- A header for a submodule is the restart. -/
theorem header_restart {device : Device} (submodule : device ≠ .olympus) {b : Boot (Board δ)}
    (idle : b.Idle) (size : UInt32) :
    ∃ b' : Boot (Board δ), b'.module = device.module ∧ b'.env = b.env ∧
      (bootFSM (messageSubmodule app device.module)).after b (headerWords device size) =
        (restartSubmodule (messageSubmodule app device.module) b').1 ∧
      (bootFSM (messageSubmodule app device.module)).outputs b (headerWords device size) =
        (restartSubmodule (messageSubmodule app device.module) b').2 := by
  have module := moduleOfKey_deviceKeyLut device
  have known : MasterBoot.moduleOfKey (deviceKeyLut device) ≠ .none := by
    cases device <;> decide
  have foreign : deviceKeyLut device ≠ MasterBoot.olympusKey := by
    cases device <;> first | exact absurd rfl submodule | decide
  obtain ⟨reached, emitted⟩ := MasterBoot.header_run (messageSubmodule app device.module) idle
    (deviceKeyLut device) size MasterBoot.eraseFlashKey
  have result := MasterBoot.runHeader_submodule (messageSubmodule app device.module)
    (MasterBoot.parsing_third b (deviceKeyLut device) size) known foreign
    (rfl : MasterBoot.eraseFlashKey = MasterBoot.eraseFlashKey)
  rw [result] at reached emitted
  exact ⟨(b.parsing (deviceKeyLut device) size).withKey MasterBoot.eraseFlashKey, module, rfl,
    reached, emitted⟩

/-- **A failed update cannot be retried.** Take any state of the master between
messages, and a slave whose bootloader has received any bytes since its reset and
still runs. A header for that slave is never answered `NO_ERR` with a response of
the bootloader to each of the four messages; and if the bootloader is between
messages, the answer is `ERR_REBOOT_START`. -/
theorem retry_never_answered (device : Device) (submodule : device ≠ .olympus)
    (b : Boot (Board δ)) (idle : b.Idle) (bytes : List UInt8)
    (slave : b.env.slave = .bootloader (slaveBootFSM.after (.reset .reset) bytes))
    (size : UInt32) :
    ¬ Retried b.env
        ((bootFSM (messageSubmodule app device.module)).after b (headerWords device size)).env
        ((bootFSM (messageSubmodule app device.module)).outputs b (headerWords device size)) ∧
      ((slaveBootFSM.after (.reset .reset) bytes).Idle →
        responses ((bootFSM (messageSubmodule app device.module)).outputs b
          (headerWords device size)) = [MasterBoot.errRebootStart]) := by
  obtain ⟨b', selected, env, reached, emitted⟩ := header_restart app submodule idle size
  have wf := wf_after bytes _ reset_wf
  rw [reached, emitted, ← env]
  rw [← env] at slave
  have cases := restart_cases app selected
  rw [slave] at cases
  constructor
  · rintro ⟨response, made, log, -, all⟩
    rcases cases with ⟨-, failed⟩ | ⟨ok₁, ⟨-, failed⟩ | ⟨ok₂, more, log'⟩⟩
    · rw [failed] at response
      cases response
    · rw [failed] at response
      cases response
    · -- both exchanges succeeded, so the second was not with the bootloader
      rw [log, List.append_cancel_left_eq] at log'
      have second := all _ (log' ▸ List.mem_cons_of_mem _ List.mem_cons_self)
      rcases deliver_second app wf (by rw [ok₁]; simp) with left | silent
      · rw [left] at second
        cases second.1
      · exact second.2 silent
  · intro waiting
    obtain ⟨c', delivered, waiting', -⟩ := deliver_message app waiting
      (show handle .getStatus _ = ⟨some wrOk, _, [].map .device⟩ from rfl)
    have first : deliver app 0x00 [] (.bootloader (slaveBootFSM.after (.reset .reset) bytes)) =
      (⟨.bootloader, 0x00, some wrOk, []⟩, .bootloader c') := delivered
    rw [first, deliver_unanswered app waiting'] at cases
    rcases cases with ⟨failed, -⟩ | ⟨-, ⟨-, response⟩ | ⟨answered, -⟩⟩
    · exact absurd rfl failed
    · exact response
    · cases answered

end Retry

/-- The master between messages, and a slave that has got a header but no data. -/
def abandoned : Boot (Board Unit) :=
  .reset ⟨.bootloader (slaveBootFSM.after (.reset .reset)
    (Message.header 64 SlaveBoot.eraseFlashKey).bytes), []⟩

/-- A new header for it is refused. -/
theorem abandoned_update_refused :
    ¬ Retried abandoned.env
        ((bootFSM (messageSubmodule zeus .zeus)).after abandoned (headerWords .zeus 64)).env
        ((bootFSM (messageSubmodule zeus .zeus)).outputs abandoned (headerWords .zeus 64)) ∧
      responses ((bootFSM (messageSubmodule zeus .zeus)).outputs abandoned
        (headerWords .zeus 64)) = [MasterBoot.errRebootStart] := by
  have refused := retry_never_answered zeus .zeus (by decide) abandoned ⟨rfl, rfl, rfl⟩
    (Message.header 64 SlaveBoot.eraseFlashKey).bytes rfl 64
  exact ⟨refused.1, refused.2 ⟨by decide +kernel, by decide +kernel⟩⟩

/-- An update of Zeus with one chunk of zeros and a wrong checksum. -/
def wrongChecksum : List UInt32 :=
  headerWords .zeus 64 ++ 0 :: List.replicate 16 0 ++ [1, 1]

/-- The master after it, both boards having started at reset. -/
def failedUpdate : Boot (Board Unit) :=
  (bootFSM (messageSubmodule zeus .zeus)).after (.reset ⟨.application (.reset ()), []⟩)
    wrongChecksum

/-- The checksum is rejected, the master is between messages, the slave is in its
bootloader; and the header of the retry is answered `ERR_REBOOT_START`. -/
theorem rejected_checksum_blocks_retry :
    responses ((bootFSM (messageSubmodule zeus .zeus)).outputs
        (.reset ⟨.application (.reset ()), []⟩) wrongChecksum) =
      [MasterBoot.noErr, MasterBoot.noErr, MasterBoot.noErr, MasterBoot.errChecksum] ∧
    (failedUpdate.running = true ∧ failedUpdate.msg = .dmy ∧ failedUpdate.count = 0) ∧
    failedUpdate.env.slave.program = .bootloader ∧
    responses ((bootFSM (messageSubmodule zeus .zeus)).outputs failedUpdate
      (headerWords .zeus 64)) = [MasterBoot.errRebootStart] ∧
    ¬ Retried failedUpdate.env
      ((bootFSM (messageSubmodule zeus .zeus)).after failedUpdate (headerWords .zeus 64)).env
      ((bootFSM (messageSubmodule zeus .zeus)).outputs failedUpdate (headerWords .zeus 64)) := by
  have refused : responses ((bootFSM (messageSubmodule zeus .zeus)).outputs failedUpdate
      (headerWords .zeus 64)) = [MasterBoot.errRebootStart] := by decide +kernel
  refine ⟨by decide +kernel, by decide +kernel, by decide +kernel, refused, ?_⟩
  rintro ⟨response, -⟩
  rw [refused] at response
  cases response

end OlympusFirmware.Update
