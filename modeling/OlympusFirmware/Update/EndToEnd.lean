import OlympusFirmware.MasterBoot.Submodule
import OlympusFirmware.SlaveBoot.Sessions
import OlympusFirmware.Update.Board
import OlympusFirmware.UsbFlasher.Boot

/-!
# An update of a slave, end to end

Three programs take part: the host's script, the master's bootloader and the slave,
which starts in its application. `Transfer` is what they agree on between two
chunks: the slave's variables are those of the chunks sent so far, the host's sum
is theirs, and the master is in its data phase or, after the last chunk, between
messages. A call of the script keeps it (`writeData_ok`), and so does the script's
loop (`writeChunks_ok`).
-/

namespace OlympusFirmware.Update

open OlympusFirmware.Lib OlympusFirmware.SlaveLib OlympusFirmware.SlaveBoot
open OlympusFirmware.UsbFlasher
open OlympusFirmware.MasterBoot (Boot Module zeroFilled bootFSM responses)

/-- An image with zeros up to the next multiple of 64. -/
def padded (image : List UInt8) : List UInt8 :=
  image ++ List.replicate ((64 - image.length % 64) % 64) 0

/-! ## Chunks and zeros -/

/-- The first chunk of a padded image. -/
theorem padded_take_drop {image : List UInt8} (nonempty : image ≠ []) :
    padded image = zeroFilled (image.take 64) ++ padded (image.drop 64) := by
  have positive : 0 < image.length := List.length_pos_iff.mpr nonempty
  by_cases short : image.length ≤ 64
  · have zeros : (64 - image.length % 64) % 64 = 64 - image.length := by omega
    rw [List.take_of_length_le short, List.drop_of_length_le short, padded, zeroFilled, zeros]
    simp [padded]
  · have full : (image.take 64).length = 64 := by
      rw [List.length_take]
      omega
    have zeros : (64 - (image.length - 64) % 64) % 64 = (64 - image.length % 64) % 64 := by omega
    rw [padded, zeroFilled, full, padded, List.length_drop, zeros, ← List.append_assoc]
    simp

theorem length_zeroFilled {bytes : List UInt8} (short : bytes.length ≤ 64) :
    (zeroFilled bytes).length = 64 := by
  rw [zeroFilled, List.length_append, List.length_replicate]
  omega

/-- Zeros add nothing. -/
theorem sum_leWords_zeros (count : Nat) (whole : count % 4 = 0) :
    (leWords (List.replicate count 0)).sum = 0 := by
  have zero : ∀ (bytes : List UInt8), bytes.length % 4 = 0 → (∀ byte ∈ bytes, byte = 0) →
      (leWords bytes).sum = 0 := by
    intro bytes whole
    induction bytes, whole using whole_words with
    | nil =>
        intro _
        rfl
    | word b₀ b₁ b₂ b₃ rest whole ih =>
        intro zeros
        simp only [List.forall_mem_cons] at zeros
        obtain ⟨rfl, rfl, rfl, rfl, rest⟩ := zeros
        rw [leWords, List.sum_cons, ih rest]
        rfl
  apply zero
  · rwa [List.length_replicate]
  · intro byte member
    exact List.eq_of_mem_replicate member

/-- A chunk with its zeros has the sum of its own words. -/
theorem sum_zeroFilled {bytes : List UInt8} (whole : bytes.length % 4 = 0)
    (short : bytes.length ≤ 64) : (leWords (zeroFilled bytes)).sum = (leWords bytes).sum := by
  rw [zeroFilled, leWords_append whole, List.sum_append, sum_leWords_zeros _ (by omega)]
  exact UInt32.add_zero _

theorem programHalves_append (xs ys : List UInt16) :
    ∀ addr, programHalves addr (xs ++ ys) =
      programHalves addr xs ++ programHalves (addr + UInt32.ofNat (2 * xs.length)) ys := by
  induction xs with
  | nil =>
      intro addr
      simp [programHalves]
  | cons x xs ih =>
      intro addr
      have next : addr + 2 + UInt32.ofNat (2 * xs.length) =
          addr + UInt32.ofNat (2 * (x :: xs).length) := by
        rw [UInt32.add_assoc, List.length_cons, Nat.mul_add, Nat.add_comm (2 * xs.length),
          UInt32.ofNat_add]
        rfl
      simp only [List.cons_append, programHalves, ih, next]

/-! ## Between two chunks -/

section Update

variable {δ ε : Type} (app : Application δ ε)

/-- The three programs after some chunks of an image of `n` bytes. -/
structure Transfer (module : Module) (n : Nat) (chunks : List Chunk)
    (s : BootSerial (Board δ)) : Prop where
  ready : s.Ready
  running : s.device.boot.running = true
  selected : s.device.boot.module = module
  size : s.device.boot.header.size.toNat = n
  checksum : s.checksum = (chunks.map chunkSum).sum
  slave : ∃ c, s.device.boot.env.slave = .bootloader c ∧ c.Idle ∧ InSession n chunks c.prog
  more : 64 * chunks.length < n →
    s.device.boot.msg = .data ∧ s.device.boot.count.toNat = 64 * chunks.length
  last : n ≤ 64 * chunks.length → s.device.boot.msg = .dmy ∧ s.device.boot.count = 0

/-- What a successful call adds: one `NO_ERR`, and operations of the slave's flash
driver. -/
structure Adds (s s' : BootSerial (Board δ)) (calls : Nat) (ops : List FlashOp) : Prop where
  answers : s'.calls = s.calls ++ List.replicate calls [MasterBoot.noErr]
  flash : s'.device.boot.env.flash = s.device.boot.env.flash ++ ops

theorem Adds.trans {s s' s'' : BootSerial (Board δ)} {calls calls' : Nat}
    {ops ops' : List FlashOp} (first : Adds s s' calls ops) (second : Adds s' s'' calls' ops') :
    Adds s s'' (calls + calls') (ops ++ ops') := by
  refine ⟨?_, ?_⟩
  · rw [second.answers, first.answers, List.append_assoc, List.replicate_add]
  · rw [second.flash, first.flash, List.append_assoc]

/-- A chunk of up to 64 bytes, filled up. -/
def filledChunk (bytes : List UInt8) (short : bytes.length ≤ 64) : Chunk :=
  ⟨zeroFilled bytes, length_zeroFilled short⟩

/-- The slave's part of a chunk. -/
theorem deliver_chunk {n : Nat} {chunks : List Chunk} {c : Comms Bootloader} (idle : c.Idle)
    (session : InSession n chunks c.prog) (positive : 0 < n) (small : n ≤ 27648)
    (early : chunks.length < numChunks n) (chunk : Chunk) :
    ∃ c', deliver app 0x02 chunk.1 (.bootloader c) =
        (⟨.bootloader, 0x02, some wrOk,
          programHalves (appStartAddr + 64 * UInt32.ofNat chunks.length) (leHalves chunk.1) ++
            if chunks.length + 1 = numChunks n then [.writeComplete] else []⟩, .bootloader c') ∧
      c'.Idle ∧ InSession n (chunks ++ [chunk]) c'.prog := by
  have handled := handle_data (session.sized positive) chunk
  have ops := session.data_ops positive small early chunk
  rw [handled, flashOps_map_device] at ops
  have next : InSession n (chunks ++ [chunk]) (handle (.data chunk) c.prog).boot :=
    session.step positive small (noHeader_data [chunk])
      (by show (chunks ++ [chunk]).length ≤ numChunks n; rw [List.length_append]; exact early)
  rw [handled] at next
  obtain ⟨c', delivered, idle', prog⟩ := deliver_message app idle handled
  refine ⟨c', ?_, idle', ?_⟩
  · rw [← ops]
    exact delivered
  · rw [prog]
    exact next

/-- **A chunk**: the script's call, the master's exchange and the slave's callback. -/
theorem writeData_ok {module : Module} (foreign : module ≠ .olympus) {n : Nat}
    {chunks : List Chunk} {s : BootSerial (Board δ)} (now : Transfer module n chunks s)
    (positive : 0 < n) (small : n ≤ 27648) (bytes : List UInt8) (whole : bytes.length % 4 = 0)
    (nonempty : bytes ≠ []) (short : bytes.length ≤ 64)
    (fits : 64 * chunks.length + bytes.length ≤ n)
    (complete : bytes.length = 64 ∨ 64 * chunks.length + bytes.length = n) :
    ∃ s', writeData (messageSubmodule app module) bytes s = (some .noErr, s') ∧
      Transfer module n (chunks ++ [filledChunk bytes short]) s' ∧
      Adds s s' 1
        (programHalves (appStartAddr + 64 * UInt32.ofNat chunks.length)
            (leHalves (zeroFilled bytes)) ++
          if 64 * chunks.length + bytes.length = n then [.writeComplete] else []) := by
  have some : 0 < bytes.length := List.length_pos_iff.mpr nonempty
  obtain ⟨c, slave, idle, session⟩ := now.slave
  obtain ⟨msg, count⟩ := now.more (by omega)
  obtain ⟨c', delivered, idle', session'⟩ := deliver_chunk app idle session positive small
    (by rw [numChunks]; omega) (filledChunk bytes short)
  rw [← slave] at delivered
  have answered := messageSubmodule_self app module 0x02 _ _ delivered
  -- the master collects the chunk from an empty buffer and passes it on
  have collecting : MasterBoot.Collecting s.device.boot (64 * chunks.length) [] :=
    ⟨now.running, msg, now.selected ▸ foreign, Nat.mul_mod_right 64 _, count, rfl⟩
  obtain ⟨passed, answer⟩ := MasterBoot.chunk_run (messageSubmodule app module) bytes whole
    nonempty s.device.boot (64 * chunks.length) [] _ collecting (by simpa using short)
    (by rw [now.size]; exact fits) (by rw [now.size]; simpa using complete)
    (by rw [now.selected]; exact answered)
  have written := writeMessage_ok (messageSubmodule app module)
    (s := { s with checksum := s.checksum + sliceSum bytes }) ⟨now.ready.1, now.ready.2⟩ whole rfl
    answer
  have last : chunks.length + 1 = numChunks n ↔ 64 * chunks.length + bytes.length = n := by
    rw [numChunks]
    omega
  refine ⟨_, written, ⟨⟨rfl, rfl⟩, passed.running, passed.module.trans now.selected, ?_, ?_,
    ⟨c', by rw [BootSerial.answered, passed.env], idle', session'⟩, ?_, ?_⟩, ⟨rfl, ?_⟩⟩
  · rw [BootSerial.answered, passed.header]
    exact now.size
  · have sum : chunkSum (filledChunk bytes short) = sliceSum bytes := by
      rw [sliceSum_eq bytes whole, ← sum_zeroFilled whole short]
      rfl
    simp only [BootSerial.answered, now.checksum, List.map_append, List.map_cons, List.map_nil,
      List.sum_append, List.sum_singleton, sum]
  · rw [List.length_append, List.length_singleton]
    intro more
    obtain ⟨msg', count'⟩ := passed.more (by rw [now.size]; simp only [List.length_nil]; omega)
    refine ⟨msg', count'.trans ?_⟩
    simp only [List.length_nil]
    omega
  · rw [List.length_append, List.length_singleton]
    intro done
    exact passed.last (by rw [now.size]; simp only [List.length_nil]; omega)
  · rw [BootSerial.answered, passed.env]
    simp [Board.flash, last, filledChunk]

/-- **The loop** over the chunks, by induction on their number: it sends what is
left of the file, with zeros up to the end of its last chunk. -/
theorem writeChunks_ok {module : Module} (foreign : module ≠ .olympus) {n : Nat}
    (positive : 0 < n) (small : n ≤ 27648) (count : Nat) :
    ∀ (fp : List UInt8) (chunks : List Chunk) (s : BootSerial (Board δ)),
    Transfer module n chunks s → count = numChunks fp.length → fp.length % 4 = 0 →
    64 * chunks.length + fp.length = n ∨ fp = [] →
    ∃ s' chunks', writeChunks (messageSubmodule app module) count fp s = (some .noErr, s') ∧
      Transfer module n chunks' s' ∧ chunks'.length = chunks.length + count ∧
      Adds s s' count
        (programHalves (appStartAddr + 64 * UInt32.ofNat chunks.length) (leHalves (padded fp)) ++
          if fp = [] then [] else [.writeComplete]) := by
  induction count with
  | zero =>
      intro fp chunks s now counted _ _
      have none : fp = [] := by
        rw [numChunks] at counted
        exact List.length_eq_zero_iff.mp (by omega)
      subst none
      refine ⟨s, chunks, rfl, now, rfl, ⟨by simp, by simp [padded, leHalves, programHalves]⟩⟩
  | succ count ih =>
      intro fp chunks s now counted whole rest
      rw [numChunks] at counted
      have nonempty : fp ≠ [] := by
        rintro rfl
        simp at counted
      have total := rest.resolve_right nonempty
      have some : 0 < fp.length := List.length_pos_iff.mpr nonempty
      have short : (fp.take 64).length ≤ 64 := by
        rw [List.length_take]
        omega
      obtain ⟨s₁, written, now₁, adds₁⟩ := writeData_ok app foreign now positive small
        (fp.take 64) (by rw [List.length_take]; omega)
        (by rw [ne_eq, List.take_eq_nil_iff]; simp [nonempty]) short
        (by rw [List.length_take]; omega) (by rw [List.length_take]; omega)
      obtain ⟨s₂, chunks₂, looped, now₂, length₂, adds₂⟩ := ih (fp.drop 64) _ s₁ now₁
        (by rw [numChunks, List.length_drop]; omega) (by rw [List.length_drop]; omega) (by
          rw [List.length_append, List.length_singleton, List.length_drop,
            ← List.length_eq_zero_iff, List.length_drop]
          omega)
      refine ⟨s₂, chunks₂, ?_, now₂, ?_, ?_⟩
      · show andThen (writeData _ (fp.take 64) s) _ = _
        rw [written, andThen_ok]
        exact looped
      · rw [length₂, List.length_append, List.length_singleton]
        omega
      · have next : appStartAddr + 64 * UInt32.ofNat (chunks.length + 1) =
            appStartAddr + 64 * UInt32.ofNat chunks.length +
              UInt32.ofNat (2 * (leHalves (zeroFilled (fp.take 64))).length) := by
          rw [length_leHalves, length_zeroFilled short, UInt32.ofNat_add, UInt32.mul_add,
            ← UInt32.add_assoc]
          rfl
        have ops : programHalves (appStartAddr + 64 * UInt32.ofNat chunks.length)
              (leHalves (padded fp)) =
            programHalves (appStartAddr + 64 * UInt32.ofNat chunks.length)
                (leHalves (zeroFilled (fp.take 64))) ++
              programHalves (appStartAddr + 64 * UInt32.ofNat (chunks.length + 1))
                (leHalves (padded (fp.drop 64))) := by
          rw [padded_take_drop nonempty, leHalves_append (by rw [length_zeroFilled short]),
            programHalves_append, next]
        have both := adds₁.trans adds₂
        rw [List.length_append, List.length_singleton] at both
        rw [if_neg nonempty, ops, Nat.add_comm count 1]
        by_cases last : fp.drop 64 = []
        · -- the rest of the file is empty, and so is what it adds
          have ends := List.drop_eq_nil_iff.mp last
          have all : 64 * chunks.length + (fp.take 64).length = n := by
            rw [List.length_take]
            omega
          rw [if_pos all, if_pos last, last] at both
          rw [last]
          simpa [padded, leHalves, programHalves] using both
        · have ends := mt List.drop_eq_nil_iff.mpr last
          have part : ¬ 64 * chunks.length + (fp.take 64).length = n := by
            rw [List.length_take]
            omega
          rw [if_neg part, if_neg last, List.append_nil] at both
          rw [List.append_assoc]
          exact both

/-! ## The whole script -/

/-- The port to a reset master with the slave in its application. -/
def powerUp (c : Comms δ) : BootSerial (Board δ) := .opened ⟨[], .reset ⟨.application c, []⟩⟩

/-- The pages of an image of `n` bytes. -/
def erases (n : Nat) : List FlashOp :=
  (List.range ((n + 1023) / 1024)).map fun page => .erasePage (UInt8.ofNat (5 + page))

/-- The four exchanges of a header: the slave leaves its application, and its
bootloader erases the pages of the image. -/
theorem restart_answered (module : Module) {c : Comms δ} (idle : c.Idle) {n : Nat}
    (small : n ≤ 27648) :
    ∃ env₁ env₂ env₃ env₄ : Board δ,
      messageSubmodule app module module 0x00 [] ⟨.application c, []⟩ =
        (MasterBoot.commsOk, env₁) ∧
      messageSubmodule app module module 0x0A [] env₁ = (MasterBoot.commsOk, env₂) ∧
      messageSubmodule app module module 0x00 [] env₂ = (MasterBoot.commsOk, env₃) ∧
      messageSubmodule app module module 0x01
          (wordBytes (UInt32.ofNat n) ++ wordBytes MasterBoot.eraseFlashKey) env₃ =
        (MasterBoot.commsOk, env₄) ∧
      env₄.flash = erases n ∧
      ∃ c', env₄.slave = .bootloader c' ∧ c'.Idle ∧
        c'.prog = { Bootloader.reset with size := UInt32.ofNat n } := by
  have size : (UInt32.ofNat n).toNat = n := by
    rw [UInt32.toNat_ofNat']
    omega
  have fits : UInt32.ofNat n ≤ appMaxSize := by
    rw [le_appMaxSize, size]
    exact small
  have accepts : Accepts (UInt32.ofNat n) SlaveBoot.eraseFlashKey := ⟨rfl, fits⟩
  obtain ⟨c₁, delivered₁, idle₁⟩ := deliver_status app idle
  -- from the second exchange on it is the bootloader, with fresh variables
  have fresh : (Comms.reset Bootloader.reset).Idle := ⟨rfl, rfl⟩
  obtain ⟨c₃, delivered₃, idle₃, prog₃⟩ := deliver_message app fresh
    (show handle .getStatus Bootloader.reset = ⟨some wrOk, .reset, [].map .device⟩ from rfl)
  obtain ⟨c₄, delivered₄, idle₄, prog₄⟩ := deliver_message app idle₃
    (handle_header accepts c₃.prog)
  refine ⟨_, _, _, _, messageSubmodule_self app module _ _ ⟨_, []⟩ delivered₁,
    messageSubmodule_self app module _ _ ⟨_, _⟩ (deliver_boot app idle₁),
    messageSubmodule_self app module _ _ ⟨_, _⟩ delivered₃,
    messageSubmodule_self app module _ _ ⟨_, _⟩ delivered₄, ?_, c₄, rfl, idle₄, ?_⟩
  · simp [Board.flash, writeInit_pages fits, size, erases]
  · rw [prog₄, prog₃]
    rfl

/-- A call whose packet is words. -/
theorem writeWords_ok (module : Module) {s : BootSerial (Board δ)} (ready : s.Ready)
    (words : List UInt32) {b : Boot (Board δ)}
    (reached : (bootFSM (messageSubmodule app module)).after s.device.boot words = b)
    (answer : responses ((bootFSM (messageSubmodule app module)).outputs s.device.boot words) =
      [MasterBoot.noErr]) :
    writeMessage (messageSubmodule app module) (words.flatMap wordBytes) s =
      (some .noErr, s.answered b) := by
  have whole : (words.flatMap wordBytes).length % 4 = 0 := by
    rw [length_flatMap_wordBytes, Nat.mul_mod_right]
  rw [← leWords_flatMap_wordBytes words] at reached answer
  exact writeMessage_ok _ ready whole reached answer

/-- The header's call, from between messages. -/
theorem writeHeader_idle {device : Device} (submodule : device ≠ .olympus)
    {start : BootSerial (Board δ)} (ready : start.Ready) (between : start.device.boot.Idle)
    {c : Comms δ} (board : start.device.boot.env = ⟨.application c, []⟩) (idle : c.Idle) {n : Nat}
    (small : n ≤ 27648) :
    ∃ s, writeHeader (messageSubmodule app device.module) device n start = (some .noErr, s) ∧
      Adds start s 1 (erases n) ∧ s.Ready ∧ s.device.boot.Idle ∧
      s.device.boot.module = device.module ∧ s.device.boot.header.size.toNat = n ∧
      ∃ c', s.device.boot.env.slave = .bootloader c' ∧ c'.Idle ∧
        c'.prog = { Bootloader.reset with size := UInt32.ofNat n } := by
  obtain ⟨env₁, env₂, env₃, env₄, status, restart, again, header, flash, slave⟩ :=
    restart_answered app device.module idle small
  have module := moduleOfKey_deviceKeyLut device
  have known : device.module ≠ .none := by cases device <;> simp [Device.module]
  have foreign : device.module ≠ .olympus := by
    intro own
    cases device <;> simp [Device.module] at own submodule
  rw [← module] at status restart again header known foreign
  rw [← board] at status
  obtain ⟨b, reached, answer, idle', selected, length, env⟩ :=
    MasterBoot.header_call _ between known foreign status restart again header
  have written := writeWords_ok app _ ready _ reached answer
  rw [module] at written selected
  refine ⟨start.answered b, ?_, ⟨rfl, ?_⟩, ⟨rfl, rfl⟩, idle', selected, ?_, ?_⟩
  · rw [UsbFlasher.writeHeader, if_pos (by omega)]
    exact written
  · show b.env.flash = _
    rw [env, flash, board]
    rfl
  · show b.header.size.toNat = n
    rw [length, UInt32.toNat_ofNat']
    omega
  · obtain ⟨c', inside, idle₄, prog⟩ := slave
    exact ⟨c', by rw [← inside, ← env]; rfl, idle₄, prog⟩

/-- The header's call. -/
theorem writeHeader_ok {device : Device} (submodule : device ≠ .olympus) {c : Comms δ}
    (idle : c.Idle) {n : Nat} (small : n ≤ 27648) :
    ∃ s, writeHeader (messageSubmodule app device.module) device n (powerUp c) =
        (some .noErr, s) ∧
      Adds (powerUp c) s 1 (erases n) ∧ s.Ready ∧ s.device.boot.Idle ∧
      s.device.boot.module = device.module ∧ s.device.boot.header.size.toNat = n ∧
      ∃ c', s.device.boot.env.slave = .bootloader c' ∧ c'.Idle ∧
        c'.prog = { Bootloader.reset with size := UInt32.ofNat n } :=
  writeHeader_idle app submodule ⟨rfl, rfl⟩ ⟨rfl, rfl, rfl⟩ rfl idle small

/-- The start of the data phase: no chunk has been sent. -/
theorem initData_ok {module : Module} {s : BootSerial (Board δ)} {n : Nat} (positive : 0 < n)
    (small : n ≤ 27648) (ready : s.Ready) (idle : s.device.boot.Idle)
    (selected : s.device.boot.module = module) (size : s.device.boot.header.size.toNat = n)
    {c : Comms Bootloader} (slave : s.device.boot.env.slave = .bootloader c) (waiting : c.Idle)
    (prog : c.prog = { Bootloader.reset with size := UInt32.ofNat n }) :
    ∃ s', initData (messageSubmodule app module) s = (some .noErr, s') ∧
      Transfer module n [] s' ∧ Adds s s' 1 [] := by
  have step := MasterBoot.bootStep_dmy_data (messageSubmodule app module) idle.running idle.msg
  have written := writeWords_ok app module (s := { s with checksum := 0 }) ⟨ready.1, ready.2⟩ [0]
    (b := { s.device.boot with msg := .data })
    (by simp only [Fsm.after_cons, Fsm.after_nil, Fsm.next, bootFSM, step])
    (by simp only [Fsm.outputs_cons, Fsm.outputs_nil, Fsm.emit, bootFSM, step]; rfl)
  refine ⟨({ s with checksum := 0 } : BootSerial (Board δ)).answered _, written,
    ⟨⟨rfl, rfl⟩, idle.running, selected, size, rfl, ⟨c, slave, waiting, ?_⟩,
      fun _ => ⟨rfl, ?_⟩, ?_⟩, ⟨rfl, (List.append_nil _).symm⟩⟩
  · rw [prog]
    refine ⟨?_, rfl, ?_, rfl, rfl⟩
    · rw [UInt32.toNat_ofNat']
      omega
    · simp only [Bootloader.reset, numChunks, List.length_nil, Bool.false_eq_true, false_iff]
      omega
  · show s.device.boot.count.toNat = _
    rw [idle.count]
    rfl
  · intro none
    simp only [List.length_nil] at none
    omega

/-- The checksum after the last chunk. -/
theorem writeChecksum_ok {module : Module} (foreign : module ≠ .olympus) {n : Nat}
    {chunks : List Chunk} {s : BootSerial (Board δ)} (now : Transfer module n chunks s)
    (all : chunks.length = numChunks n) :
    ∃ s', writeChecksum (messageSubmodule app module) s = (some .noErr, s') ∧
      Adds s s' 1 [.jumpToApp] ∧ s'.inbox = [] ∧
      s'.device.boot.env.log.getLast? =
        some ⟨.bootloader, 0x03, some wrOk, [.jumpToApp]⟩ ∧
      s'.device.boot.env.slave = .application (.reset app.start) := by
  obtain ⟨c, slave, idle, session⟩ := now.slave
  obtain ⟨msg, count⟩ := now.last (by rw [all, numChunks]; omega)
  have jumps := deliver_jump app idle (session.complete.mpr (Nat.le_of_eq all.symm))
  rw [session.checksum, ← now.checksum, ← slave] at jumps
  have answered := messageSubmodule_self app module 0x03 _ s.device.boot.env jumps
  rw [← now.selected] at foreign
  obtain ⟨b, reached, answer, idle', env⟩ :=
    MasterBoot.checksum_call (messageSubmodule app module) ⟨now.running, msg, count⟩ foreign
      (by rw [now.selected]; exact answered)
  have written := writeWords_ok app module now.ready _ reached answer
  refine ⟨s.answered b, written, ⟨rfl, ?_⟩, rfl, ?_, ?_⟩
  · show b.env.flash = _
    rw [env]
    simp [Board.flash]
  · show b.env.log.getLast? = _
    rw [env]
    simp
  · show b.env.slave = _
    rw [env]

/-- **An update, end to end.** For every slave application, every submodule and
every image whose length is a positive multiple of four and at most
`APP_MAX_SIZE`, the script of the host succeeds: each of its calls is answered with
one `NO_ERR` and nothing else, the slave erases the pages of the image and programs
it with zeros up to the next multiple of 64, and nothing else; and the last
exchange is the checksum, which is accepted and jumps to the application. -/
theorem update_end_to_end (device : Device) (submodule : device ≠ .olympus) (c : Comms δ)
    (idle : c.Idle) (image : List UInt8) (positive : 0 < image.length)
    (whole : image.length % 4 = 0) (fits : image.length ≤ 27 * 1024) :
    ∃ s, flashDevice (messageSubmodule app device.module) device image (powerUp c) =
        (some .noErr, s) ∧
      s.calls = List.replicate (numChunks image.length + 3) [MasterBoot.noErr] ∧ s.inbox = [] ∧
      s.device.boot.env.flash =
        erases image.length ++ programHalves appStartAddr (leHalves (padded image)) ++
          [.writeComplete, .jumpToApp] ∧
      s.device.boot.env.log.getLast? =
        some ⟨.bootloader, 0x03, some wrOk, [.jumpToApp]⟩ ∧
      s.device.boot.env.slave = .application (.reset app.start) := by
  have foreign : device.module ≠ .olympus := by
    intro own
    cases device <;> simp [Device.module] at own submodule
  have nonempty : image ≠ [] := List.length_pos_iff.mp positive
  obtain ⟨s₁, header, adds₁, ready₁, idle₁, selected, size, c₁, slave, waiting, prog⟩ :=
    writeHeader_ok app submodule idle (n := image.length) (by omega)
  obtain ⟨s₂, init, now₂, adds₂⟩ :=
    initData_ok app positive (by omega) ready₁ idle₁ selected size slave waiting prog
  obtain ⟨s₃, chunks, data, now₃, all, adds₃⟩ := writeChunks_ok app foreign positive (by omega)
    (numChunks image.length) image [] s₂ now₂ rfl whole (.inl (by simp))
  obtain ⟨s₄, checksum, adds₄, read, last, jumped⟩ :=
    writeChecksum_ok app foreign now₃ (by simpa using all)
  -- header, start of data, chunks, checksum
  have adds := ((adds₁.trans adds₂).trans adds₃).trans adds₄
  refine ⟨s₄, ?_, ?_, read, ?_, last, jumped⟩
  · rw [flashDevice, header, andThen_ok, init, andThen_ok,
      show (image.length + usbBuffSize - 1) / usbBuffSize = numChunks image.length from rfl, data,
      andThen_ok, checksum]
  · rw [adds.answers]
    show [] ++ _ = _
    rw [List.nil_append]
    congr 1
    omega
  · rw [adds.flash, if_neg nonempty]
    show [] ++ _ = _
    simp

/-- An image of 17 words for Zeus, one more than fills a chunk. -/
def zeusImage : List UInt8 := (List.range 68).map UInt8.ofNat

/-- Its header, its start, two chunks and its checksum are answered. -/
theorem zeus_image_update :
    ∃ s, flashDevice (messageSubmodule zeus .zeus) .zeus zeusImage (powerUp (.reset ())) =
        (some .noErr, s) ∧
      s.calls = List.replicate 5 [MasterBoot.noErr] ∧ s.inbox = [] ∧
      s.device.boot.env.flash =
        erases 68 ++ programHalves appStartAddr (leHalves (padded zeusImage)) ++
          [.writeComplete, .jumpToApp] ∧
      s.device.boot.env.log.getLast? =
        some ⟨.bootloader, 0x03, some wrOk, [.jumpToApp]⟩ ∧
      s.device.boot.env.slave = .application (.reset ()) :=
  update_end_to_end zeus .zeus (by decide) (.reset ()) ⟨rfl, rfl⟩ zeusImage (by decide)
    (by decide) (by decide)

end Update

end OlympusFirmware.Update
