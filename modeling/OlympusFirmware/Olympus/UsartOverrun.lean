import OlympusFirmware.Olympus.UsartRounds

/-!
# Writing more than there is room for

What an overrun does depends on how full the buffer of the DMA is, so the states are
followed through overruns too: either the ring of `Transmit`, with `nextTxBuffer` perhaps
on one of its full buffers, or four full buffers. In each of them a write drops cleanly
unless it runs into a buffer that is being sent, or past the end of `data`.
-/

namespace OlympusFirmware.Olympus

open OlympusFirmware.Lib

/-- What is asked of a call of `usartWrite`: its loop ends; it reads `data` only below
`size`; a prefix of `data` is queued, all of it if there is room; and a buffer that is
being sent stays as it is, its length included. -/
structure DropsCleanly (u : Usart) (data : Mem UInt8) (size : UInt16) : Prop where
  ends : (writeLoop data writeRounds ⟨u, 0, size.toNat⟩).1.size = 0
  reads : (writeLoop data writeRounds ⟨u, 0, size.toNat⟩).1.pos ≤ size.toNat
  queue : ∃ m, m ≤ size.toNat ∧
    handedOver (usartWrite u data size).2 ++ (usartWrite u data size).1.queued =
      u.queued ++ data.load 0 m ∧
    (m < size.toNat → u.freeSpace < size.toNat)
  sending : u.transferring = true →
    (usartWrite u data size).1.txBuffers u.dmaTxBuffer = u.txBuffers u.dmaTxBuffer ∧
    (usartWrite u data size).1.txBufferLengths u.dmaTxBuffer = u.txBufferLengths u.dmaTxBuffer

/-- When the loop damages something: the bytes fill all there is room for while the buffer
of the DMA is not full, and this buffer is still being sent or `data` is too short for it. -/
structure RunsIntoDma (u : Usart) (size : UInt16) : Prop where
  active : u.txDmaActive = true
  short : u.length 0 < commsTxBufferSize
  many : u.freeSpace ≤ size.toNat
  harm : u.transferring = true ∨
    size.toNat < u.freeSpace + (commsTxBufferSize - u.length 0)

/-! ## The states between two calls -/

/-- The ring with the buffer to write to at the `k`-th place, at or before the one with
room. -/
structure Shape (u : Usart) (e k : Fin 4) : Prop where
  ring : Ring (u.pointed e) e
  next : u.nextTxBuffer = u.dmaTxBuffer + k
  le : k ≤ e
  behind : u.txDmaActive = true → 0 < k

/-- The ring, or every buffer full. -/
def Shaped (u : Usart) : Prop :=
  (∃ e k, Shape u e k) ∨ ∀ j, u.length j = commsTxBufferSize

/-- The transmitter between two calls, overruns included. -/
structure Loaded (u : Usart) : Prop where
  shaped : Shaped u
  bound : u.length 0 ≤ commsTxBufferSize
  idle : u.txDmaActive = false → ∀ j, u.length j = 0
  flags : u.txDmaActive = (u.transferring || u.shouldServiceTxDma)
  one : ¬ (u.transferring = true ∧ u.shouldServiceTxDma = true)

theorem loaded_reset (txBuffers : Fin 4 → Mem UInt8) : Loaded (.reset txBuffers) := by
  obtain ⟨-, idle, flags, one⟩ := settled_reset txBuffers
  refine ⟨.inl ⟨0, 0, ⟨rfl, ?_, ?_, ?_, fun _ _ => rfl⟩, rfl, Fin.le_refl _, ?_⟩, Nat.zero_le _,
    idle, flags, one⟩
  · intro active
    cases active
  · intro j low
    exact absurd low (Fin.not_lt_zero j)
  · show 0 < commsTxBufferSize
    decide
  · intro active
    cases active

section Writes

variable {data : Mem UInt8} {u : Usart} {size : Nat}

theorem Loaded.active_of_transferring (loaded : Loaded u) (on : u.transferring = true) :
    u.txDmaActive = true := by
  rw [loaded.flags, on, Bool.true_or]

/-- With every buffer full there is no room. -/
theorem freeSpace_of_full (full : ∀ j, u.length j = commsTxBufferSize) : u.freeSpace = 0 := by
  unfold Usart.freeSpace
  rw [List.sum_eq_zero_iff_forall_eq_nat]
  intro room member
  obtain ⟨j, -, rfl⟩ := List.mem_map.mp member
  rw [full j, Nat.sub_self]

theorem Shape.rounds {e k : Fin 4} (shape : Shape u e k) (left : size ≠ 0)
    (word : size < 65536) :
    Rounds data (e.val - k.val) ⟨u, 0, size⟩ ⟨u.pointed e, 0, size⟩ := by
  have pass := @rounds_pass data u 0 size left word (e.val - k.val) k e
    (by have := shape.le; omega) ?_
  · rw [pointed_of_next shape.next] at pass
    exact pass
  · intro j low high
    exact shape.ring.full j high fun active => Fin.lt_of_lt_of_le (shape.behind active) low

/-- **The loop, if there is room.** -/
theorem writeLoop_room (loaded : Loaded u) (left : size ≠ 0) (room : size < u.freeSpace)
    (word : size < 65536) :
    ∃ v e, (writeLoop data writeRounds ⟨u, 0, size⟩).1 = ⟨v.pointed e, size, 0⟩ ∧
      Ring (v.pointed e) e ∧ Fills u v (data.load 0 size) := by
  rcases loaded.shaped with ⟨e, k, shape⟩ | full
  · obtain ⟨n, v, e', few, rounds, ring, fills⟩ :=
      @stored data (3 - e.val) u e 0 size rfl shape.ring room word
    have all := (shape.rounds left word).trans rounds
    refine ⟨v, e', ?_, ring, fills⟩
    rw [Nat.zero_add] at all
    exact all.loop rfl (by unfold writeRounds; omega)
  · rw [freeSpace_of_full full] at room
    omega

/-- What the loop leaves when there is not more room than bytes: the buffers behind the one
of the DMA are filled from `data`, and then this one is, with what follows there. -/
structure LoopOverran (data : Mem UInt8) (u v : Usart) (n : Nat) (w : Writing) : Prop where
  loop : w = ⟨((v.pointed 0).append (data.load u.freeSpace n)).pointed 0, u.freeSpace + n, 0⟩
  fills : Fills u v (data.load 0 u.freeSpace)
  waiting : ∀ j ∈ v.waiting, v.length j = commsTxBufferSize
  front : v.length 0 + n = commsTxBufferSize
  all : ∀ j, w.usart.length j = commsTxBufferSize

/-- **The loop, if it overruns.** -/
theorem writeLoop_overran (loaded : Loaded u) (left : size ≠ 0) (many : u.freeSpace ≤ size)
    (word : size < 65536) :
    ∃ v n, LoopOverran data u v n (writeLoop data writeRounds ⟨u, 0, size⟩).1 := by
  rcases loaded.shaped with ⟨e, k, shape⟩ | full
  · obtain ⟨v, last, some, few, rounds, full, fills⟩ :=
      @overruns data (3 - e.val) u e 0 size rfl shape.ring many word
    have front : v.length 0 ≤ commsTxBufferSize := by
      cases active : u.txDmaActive with
      | true =>
          rw [fills.length active]
          exact loaded.bound
      | false =>
          exact (full 0 (waiting_zero (fills.active.trans active))).le
    generalize chosen : commsTxBufferSize - v.length 0 = n
    have size' : commsTxBufferSize = 2048 := rfl
    have filled : v.length 0 + n = commsTxBufferSize := by omega
    obtain ⟨all, past⟩ := @rounds_past_dma data v (0 + u.freeSpace) (65536 - last) n full filled
      (by omega) (by omega)
    have whole := ((shape.rounds left word).trans rounds).trans past
    rw [Nat.zero_add] at whole all
    have ended : (writeLoop data writeRounds ⟨u, 0, size⟩).1 = _ :=
      whole.loop rfl (by unfold writeRounds; omega)
    refine ⟨v, n, ended, fills, full, filled, ?_⟩
    rw [ended]
    exact all
  · have none := freeSpace_of_full full
    have next : u.nextTxBuffer = u.dmaTxBuffer + (u.nextTxBuffer - u.dmaTxBuffer) := by
      rw [add_sub_cancel]
    have rounds := @rounds_full data u 0 size full left word (u.nextTxBuffer - u.dmaTxBuffer)
    rw [pointed_of_next next] at rounds
    have ended : (writeLoop data writeRounds ⟨u, 0, size⟩).1 = _ :=
      rounds.loop rfl (by unfold writeRounds; omega)
    refine ⟨u, 0, ?_, ?_, fun j _ => full j, full 0, ?_⟩
    · rw [ended, none, Mem.load_zero, append_nil]
      rfl
    · rw [none]
      exact .refl u
    · rw [ended]
      exact full

/-- What follows the loop: the DMA is started if it does not run. Nothing is lost by it, and
the buffers stay. -/
theorem usartWrite_loop {v : Usart} {pos left : Nat} {size : UInt16} (some : size.toNat ≠ 0)
    (loop : (writeLoop data writeRounds ⟨u, 0, size.toNat⟩).1 = ⟨v, pos, left⟩) :
    (usartWrite u data size).1 = (if v.txDmaActive then v else (startTxDma v).1) ∧
      handedOver (usartWrite u data size).2 ++ (usartWrite u data size).1.queued = v.queued := by
  have quiet := handedOver_writeLoop data writeRounds ⟨u, 0, size.toNat⟩
  unfold usartWrite
  rw [if_pos (Nat.pos_of_ne_zero some)]
  dsimp only
  rw [loop]
  dsimp only
  cases active : v.txDmaActive with
  | true => exact ⟨rfl, by rw [if_pos rfl, quiet, List.nil_append]⟩
  | false =>
      refine ⟨rfl, ?_⟩
      rw [if_neg (by simp), handedOver_append, quiet, List.nil_append]
      exact startTxDma_queue active

/-- The buffer being written may be passed over when the DMA is started. -/
theorem startTxDma_pointed (k : Fin 4) :
    (startTxDma (u.pointed k)).1 = (startTxDma u).1.pointed (if k = 0 then 1 else k) := by
  have here : ∀ d k : Fin 4, d + k = d ↔ k = 0 := by decide
  have next : (if u.dmaTxBuffer + k = u.dmaTxBuffer then u.dmaTxBuffer + k + 1
      else u.dmaTxBuffer + k) = u.dmaTxBuffer + (if k = 0 then 1 else k) := by
    by_cases zero : k = 0
    · rw [if_pos ((here _ _).mpr zero), if_pos zero, zero, add_zero]
    · rw [if_neg (fun eq => zero ((here _ _).mp eq)), if_neg zero]
  unfold startTxDma Usart.pointed
  dsimp only
  rw [next]

/-- Starting the DMA keeps the shape. -/
theorem startTxDma_shaped (shaped : Shaped u) (inactive : u.txDmaActive = false)
    (some : 0 < u.length 0) : Shaped (startTxDma u).1 := by
  rcases shaped with ⟨e, k, shape⟩ | full
  · have moves : ∀ k e : Fin 4, k ≤ e →
        (if k = 0 then 1 else k) ≤ (if e = 0 then 1 else e) ∧ 0 < if k = 0 then 1 else k := by
      decide
    obtain ⟨le, positive⟩ := moves k e shape.le
    have ring := startTxDma_ring shape.ring inactive some
    rw [startTxDma_pointed] at ring
    have next := congrArg Usart.nextTxBuffer (@startTxDma_pointed u k)
    rw [pointed_of_next shape.next] at next
    exact .inl ⟨_, _, ring, next, le, fun _ => positive⟩
  · exact .inr full

theorem length_zero (u : Usart) : u.length 0 = u.txBufferLengths u.dmaTxBuffer := by
  rw [Usart.length, add_zero]

/-- The transmitter after a call, from the one its loop leaves. -/
theorem loaded_after_loop {v : Usart} (loaded : Loaded u) (shaped : Shaped v)
    (front : 0 < v.length 0 ∧ v.length 0 ≤ commsTxBufferSize)
    (active : v.txDmaActive = u.txDmaActive) (service : v.shouldServiceTxDma = u.shouldServiceTxDma)
    (transfer : v.transferring = u.transferring) :
    Loaded (if v.txDmaActive then v else (startTxDma v).1) := by
  have flags := loaded.flags
  rw [← active, ← transfer, ← service] at flags
  cases running : v.txDmaActive with
  | true =>
      refine ⟨shaped, front.2, fun off => ?_, flags, ?_⟩
      · rw [if_pos rfl, running] at off
        cases off
      · rw [if_pos rfl, transfer, service]
        exact loaded.one
  | false =>
      rw [running] at flags
      have quiet : v.shouldServiceTxDma = false := (Bool.or_eq_false_iff.mp flags.symm).2
      refine ⟨startTxDma_shaped shaped running front.1, front.2, fun off => ?_, rfl, ?_⟩
      · cases off
      · intro ⟨_, pending⟩
        have again : v.shouldServiceTxDma = true := pending
        rw [quiet] at again
        cases again

/-- Nothing being sent, the first buffer of the ring is no longer than the others. -/
theorem Ring.front_bound {k : Fin 4} (ring : Ring u k) (inactive : u.txDmaActive = false) :
    u.length 0 ≤ commsTxBufferSize := by
  by_cases first : k = 0
  · subst first
    exact ring.room.le
  · exact (ring.full 0 (Fin.pos_iff_ne_zero.mpr first) (by simp [inactive])).le

/-- **A write for which there is room.** -/
theorem usartWrite_room {size : UInt16} (loaded : Loaded u) (some : size.toNat ≠ 0)
    (room : size.toNat < u.freeSpace) :
    DropsCleanly u data size ∧ Loaded (usartWrite u data size).1 := by
  obtain ⟨v, e, loop, ring, fills⟩ := @writeLoop_room data u _ loaded some room size.toNat_lt
  obtain ⟨result, queue⟩ := usartWrite_loop some loop
  have shaped : Shaped (v.pointed e) := .inl ⟨e, e, ring, rfl, Fin.le_refl e, fun active =>
    (ring.front active).1⟩
  have running := loaded.active_of_transferring
  refine ⟨⟨by rw [loop], by rw [loop], ⟨size.toNat, Nat.le_refl _, ?_, by simp⟩, ?_⟩, ?_⟩
  · rw [queue]
    exact fills.queued
  · intro on
    have active : v.txDmaActive = true := fills.active.trans (running on)
    have here : (v.pointed e).txDmaActive = true := active
    rw [result, if_pos here, ← length_zero u, ← fills.length (running on), length_zero, fills.dma]
    exact ⟨fills.sending (running on), rfl⟩
  · rw [result]
    apply loaded_after_loop loaded shaped ?_ fills.active fills.service fills.transfer
    cases active : u.txDmaActive with
    | true =>
        refine ⟨(ring.front (fills.active.trans active)).2, ?_⟩
        show v.length 0 ≤ commsTxBufferSize
        rw [fills.length active]
        exact loaded.bound
    | false =>
        have off : (v.pointed e).txDmaActive = false := fills.active.trans active
        have bytes : (v.pointed e).queued ≠ [] := by
          have queued : (v.pointed e).queued = u.queued ++ data.load 0 size.toNat := fills.queued
          rw [queued, Ne, List.append_eq_nil_iff, not_and]
          intro _ none
          have length := congrArg List.length none
          rw [Mem.length_load] at length
          exact some length
        exact ⟨ring.front_of_queued off bytes, ring.front_bound off⟩

/-- What is put into the buffer being sent is not queued. -/
theorem queued_append_front {bytes : List UInt8} (unseen : u.txDmaActive = true ∨ bytes = []) :
    ((u.pointed 0).append bytes).queued = u.queued := by
  rcases unseen with active | rfl
  · apply List.flatMap_congr
    intro j waits
    have behind : j ≠ 0 := (@waiting_behind u j waits active).ne'
    rw [@contents_append (u.pointed 0) 0 rfl, Function.update_of_ne behind]
    rfl
  · rw [append_nil]
    rfl

/-- What an overrun puts into the buffer of the DMA. -/
theorem LoopOverran.count {v : Usart} {n : Nat} {w : Writing} (ran : LoopOverran data u v n w) :
    n = if u.txDmaActive then commsTxBufferSize - u.length 0 else 0 := by
  have front := ran.front
  cases active : u.txDmaActive with
  | true =>
      rw [ran.fills.length active] at front
      rw [if_pos rfl]
      omega
  | false =>
      rw [ran.waiting 0 (waiting_zero (ran.fills.active.trans active))] at front
      rw [if_neg (by simp)]
      omega

/-- The transmitter behind an overrun that put `n` bytes into the buffer of the DMA. -/
structure Overwritten (data : Mem UInt8) (u : Usart) (n : Nat) (v : Usart) : Prop where
  dma : v.dmaTxBuffer = u.dmaTxBuffer
  active : v.txDmaActive = u.txDmaActive
  service : v.shouldServiceTxDma = u.shouldServiceTxDma
  transfer : v.transferring = u.transferring
  queued : v.queued = u.queued ++ data.load 0 u.freeSpace
  kept : n = 0 → u.txDmaActive = true → v.txBuffers u.dmaTxBuffer = u.txBuffers u.dmaTxBuffer
  full : ∀ j, v.length j = commsTxBufferSize

theorem LoopOverran.overwritten {v : Usart} {n : Nat} {w : Writing}
    (ran : LoopOverran data u v n w) : Overwritten data u n w.usart := by
  have count := ran.count
  obtain ⟨rfl, fills, -, -, all⟩ := ran
  refine ⟨fills.dma, fills.active, fills.service, fills.transfer, ?_, ?_, all⟩
  · have unseen : v.txDmaActive = true ∨ data.load u.freeSpace n = [] := by
      cases active : u.txDmaActive with
      | true => exact .inl (fills.active.trans active)
      | false =>
          rw [active, if_neg (by simp)] at count
          rw [count]
          exact .inr (Mem.load_zero _ _)
    rw [← fills.queued]
    exact queued_append_front unseen
  · intro none active
    subst none
    dsimp only
    rw [Mem.load_zero, append_nil]
    exact fills.sending active

/-- An overrun does no harm if nothing is put into the buffer of the DMA, or if this is not
being sent any more and `data` is long enough. -/
theorem not_runsIntoDma_iff {size : UInt16} {n : Nat} (loaded : Loaded u)
    (many : u.freeSpace ≤ size.toNat)
    (count : n = if u.txDmaActive then commsTxBufferSize - u.length 0 else 0) :
    ¬ RunsIntoDma u size ↔
      n = 0 ∨ (u.transferring = false ∧ u.freeSpace + n ≤ size.toNat) := by
  have bound := loaded.bound
  cases active : u.txDmaActive with
  | false =>
      rw [active, if_neg (by simp)] at count
      have safe : ¬ RunsIntoDma u size := by
        intro runs
        have on := runs.active
        rw [active] at on
        cases on
      simp [safe, count]
  | true =>
      rw [active, if_pos rfl] at count
      have harm : RunsIntoDma u size ↔ u.length 0 < commsTxBufferSize ∧
          (u.transferring = true ∨ size.toNat < u.freeSpace + n) := by
        rw [count]
        exact ⟨fun runs => ⟨runs.short, runs.harm⟩, fun ⟨short, harm⟩ =>
          ⟨active, short, many, harm⟩⟩
      rw [harm]
      cases u.transferring with
      | true =>
          simp only [true_or, and_true, Bool.true_eq_false, false_and, or_false]
          omega
      | false =>
          simp only [Bool.false_eq_true, false_or, true_and]
          omega

/-- A call that overruns drops cleanly if that does no harm. -/
theorem dropsCleanly_overran {size : UInt16} {v : Usart} {n : Nat} (loaded : Loaded u)
    (some : size.toNat ≠ 0) (many : u.freeSpace ≤ size.toNat)
    (loop : (writeLoop data writeRounds ⟨u, 0, size.toNat⟩).1 = ⟨v, u.freeSpace + n, 0⟩)
    (count : n = if u.txDmaActive then commsTxBufferSize - u.length 0 else 0)
    (left : Overwritten data u n v) :
    DropsCleanly u data size ↔
      n = 0 ∨ (u.transferring = false ∧ u.freeSpace + n ≤ size.toNat) := by
  obtain ⟨result, queue⟩ := usartWrite_loop some loop
  -- while a buffer is being sent, the call leaves what the loop does
  have busy : u.transferring = true → u.txDmaActive = true ∧ (usartWrite u data size).1 = v := by
    intro on
    have active := loaded.active_of_transferring on
    rw [result, if_pos (left.active.trans active)]
    exact ⟨active, rfl⟩
  have front : v.txBufferLengths u.dmaTxBuffer = commsTxBufferSize := by
    rw [← left.dma, ← length_zero]
    exact left.full 0
  constructor
  · intro clean
    have reads := clean.reads
    rw [loop] at reads
    cases on : u.transferring with
    | false => exact .inr ⟨rfl, reads⟩
    | true =>
        obtain ⟨active, written⟩ := busy on
        rw [active, if_pos rfl, length_zero, ← (clean.sending on).2, written, front,
          Nat.sub_self] at count
        exact .inl count
  · intro harmless
    refine ⟨by rw [loop], ?_, ⟨u.freeSpace, many, ?_, fun short => short⟩, ?_⟩
    · rw [loop]
      show u.freeSpace + n ≤ size.toNat
      omega
    · rw [queue, left.queued]
    · intro on
      obtain ⟨active, written⟩ := busy on
      have none : n = 0 := by
        rcases harmless with none | ⟨off, -⟩
        · exact none
        · rw [on] at off
          cases off
      rw [active, if_pos rfl, none] at count
      have bound := loaded.bound
      rw [written, front, ← length_zero]
      exact ⟨left.kept none active, by omega⟩

/-- **A write that overruns.** -/
theorem usartWrite_overran {size : UInt16} (loaded : Loaded u) (some : size.toNat ≠ 0)
    (many : u.freeSpace ≤ size.toNat) :
    (DropsCleanly u data size ↔ ¬ RunsIntoDma u size) ∧ Loaded (usartWrite u data size).1 := by
  obtain ⟨_, n, ran⟩ := @writeLoop_overran data u _ loaded some many size.toNat_lt
  have left := ran.overwritten
  have loop : (writeLoop data writeRounds ⟨u, 0, size.toNat⟩).1 =
      ⟨(writeLoop data writeRounds ⟨u, 0, size.toNat⟩).1.usart, u.freeSpace + n, 0⟩ := by
    rw [ran.loop]
  constructor
  · rw [not_runsIntoDma_iff loaded many ran.count]
    exact dropsCleanly_overran loaded some many loop ran.count left
  · rw [(usartWrite_loop some loop).1]
    refine loaded_after_loop loaded (.inr left.full) ⟨?_, (left.full 0).le⟩ left.active
      left.service left.transfer
    rw [left.full 0]
    decide

/-- A write of nothing. -/
theorem usartWrite_nothing {size : UInt16} (loaded : Loaded u) (zero : size.toNat = 0) :
    (DropsCleanly u data size ↔ ¬ RunsIntoDma u size) ∧ Loaded (usartWrite u data size).1 := by
  have same : usartWrite u data size = (u, []) := by
    rw [usartWrite, if_neg (by omega)]
  have loop : (writeLoop data writeRounds ⟨u, 0, size.toNat⟩).1 = ⟨u, 0, size.toNat⟩ :=
    (Rounds.none _).loop zero (Nat.zero_le _)
  refine ⟨⟨fun _ => ?_, fun _ => ?_⟩, by rw [same]; exact loaded⟩
  · intro runs
    have small := runs.short
    have many := runs.many
    rcases loaded.shaped with ⟨e, k, shape⟩ | full
    · have free : u.freeSpace = commsTxBufferSize - u.length e +
          commsTxBufferSize * (3 - e.val) := shape.ring.freeSpace_eq
      have room : u.length e < commsTxBufferSize := shape.ring.room
      omega
    · rw [full 0] at small
      omega
  · refine ⟨by rw [loop]; exact zero, by rw [loop]; exact Nat.zero_le _,
      ⟨0, Nat.zero_le _, ?_, by omega⟩, ?_⟩
    · rw [same, Mem.load_zero, List.append_nil]
      rfl
    · intro _
      rw [same]
      exact ⟨rfl, rfl⟩

/-- **A call of `usartWrite`.** -/
theorem Loaded.write (loaded : Loaded u) (data : Mem UInt8) (size : UInt16) :
    (DropsCleanly u data size ↔ ¬ RunsIntoDma u size) ∧ Loaded (usartWrite u data size).1 := by
  by_cases some : size.toNat = 0
  · exact usartWrite_nothing loaded some
  · by_cases room : size.toNat < u.freeSpace
    · obtain ⟨clean, after⟩ := @usartWrite_room data u size loaded some room
      refine ⟨⟨fun _ => ?_, fun _ => clean⟩, after⟩
      intro runs
      have many := runs.many
      omega
    · exact usartWrite_overran loaded some (Nat.le_of_not_lt room)

end Writes

/-! ## The other events -/

section Others

variable {u : Usart}

/-- The buffer that was sent is given back: the ring moves on by one, or, with every buffer
full, is a ring again. -/
theorem shaped_giveBack (shaped : Shaped u) (active : u.txDmaActive = true) :
    ∃ e k, Shape u.giveBack e k := by
  rcases shaped with ⟨e, k, shape⟩ | full
  · have places : ∀ k e : Fin 4, 0 < k → k ≤ e → k - 1 ≤ e - 1 := by decide
    have moves : ∀ d k : Fin 4, d + k = d + 1 + (k - 1) := by decide
    have positive := shape.behind active
    have ring := (ring_giveBack shape.ring active).1
    have back : (u.pointed e).giveBack = u.giveBack.pointed (e - 1) := by
      show (⟨_, _, u.dmaTxBuffer + e, _, _, _, _⟩ : Usart) = _
      rw [moves]
      rfl
    rw [back] at ring
    refine ⟨e - 1, k - 1, ring, ?_, places k e positive shape.le, ?_⟩
    · show u.nextTxBuffer = u.dmaTxBuffer + 1 + (k - 1)
      rw [shape.next, moves]
    · intro off
      cases off
  · have low : ∀ j : Fin 4, j < 3 → j ≠ 3 := by decide
    have last : ∀ j : Fin 4, j ≤ 3 ∧ ¬ 3 < j := by decide
    refine ⟨3, u.giveBack.nextTxBuffer - u.giveBack.dmaTxBuffer,
      ⟨rfl, ?_, ?_, ?_, ?_⟩, ?_, (last _).1, ?_⟩
    · intro off
      cases off
    · intro j before _
      show u.giveBack.length j = commsTxBufferSize
      rw [giveBack_length, if_neg (low j before)]
      exact full _
    · show u.giveBack.length 3 < commsTxBufferSize
      rw [giveBack_length, if_pos rfl]
      decide
    · intro j behind
      exact absurd behind (last j).2
    · rw [add_sub_cancel]
    · intro off
      cases off

/-- The shape is that of the buffers. -/
theorem Shaped.with_flags (shaped : Shaped u) (service transfer : Bool) :
    Shaped { u with shouldServiceTxDma := service, transferring := transfer } := by
  rcases shaped with ⟨e, k, ring, next, le, behind⟩ | full
  · exact .inl ⟨e, k, ⟨rfl, ring.front, ring.full, ring.room, ring.empty⟩, next, le, behind⟩
  · exact .inr full

/-- **`serviceTxDma`.** -/
theorem Loaded.service (loaded : Loaded u) : Loaded (serviceTxDma u).1 := by
  by_cases pending : u.shouldServiceTxDma = true
  · have active : u.txDmaActive = true := by rw [loaded.flags, pending, Bool.or_true]
    have stopped : u.transferring = false := by
      by_contra on
      exact loaded.one ⟨by simpa using on, pending⟩
    obtain ⟨e, k, shape⟩ := shaped_giveBack loaded.shaped active
    have bound : u.giveBack.length 0 ≤ commsTxBufferSize := shape.ring.front_bound rfl
    rw [serviceTxDma_eq pending]
    split
    next more =>
      have started := startTxDma_shaped (.inl ⟨e, k, shape⟩) rfl more
      refine ⟨started.with_flags false true, bound, ?_, rfl, by simp⟩
      intro off
      cases off
    next none =>
      have empty := shape.ring.empty_of_front rfl none
      have back : Shaped u.giveBack := .inl ⟨e, k, shape⟩
      refine ⟨back.with_flags false u.transferring, bound, fun _ => empty, ?_, by simp⟩
      show false = (u.transferring || false)
      rw [stopped]
      rfl
  · rw [serviceTxDma, if_neg pending]
    exact loaded

/-- A completion. -/
theorem Loaded.complete (loaded : Loaded u) : Loaded (commsTxDmaIsr u) := by
  unfold commsTxDmaIsr
  split
  next on =>
    have active := loaded.active_of_transferring on
    refine ⟨loaded.shaped.with_flags true false, loaded.bound, loaded.idle, ?_, by simp⟩
    show u.txDmaActive = (false || true)
    rw [active]
    rfl
  next => exact loaded

end Others

/-! ## Whole runs -/

/-- **One event.** -/
theorem Loaded.step {u : Usart} (loaded : Loaded u) (event : UsartEvent) :
    Loaded (usartFSM.next u event) := by
  cases event with
  | write data size => exact (loaded.write data size).2
  | complete => exact loaded.complete
  | service => exact loaded.service

/-- **A run**, with or without overruns. -/
theorem Loaded.run (events : List UsartEvent) : ∀ {u : Usart}, Loaded u →
    Loaded (usartFSM.after u events) := by
  induction events with
  | nil =>
      intro u loaded
      exact loaded
  | cons event rest ih =>
      intro u loaded
      rw [Fsm.after_cons]
      exact ih (loaded.step event)

/-- In every state that writes, completions and service calls lead to, a write of any data
and size drops cleanly if and only if it does not run into the buffer of the DMA. -/
theorem usartWrite_drops_cleanly_iff (txBuffers : Fin 4 → Mem UInt8) (events : List UsartEvent)
    (data : Mem UInt8) (size : UInt16) :
    DropsCleanly (usartFSM.after (.reset txBuffers) events) data size ↔
      ¬ RunsIntoDma (usartFSM.after (.reset txBuffers) events) size :=
  (((loaded_reset txBuffers).run events).write data size).1

/-- One byte is being sent when 6144 more are written: they fit, and the buffer being sent
is filled up behind its byte. -/
theorem write_of_free_space_overwrites :
    ¬ DropsCleanly (usartFSM.after (.reset fun _ _ => 0) [.write (fun _ => 1) 1])
      (fun _ => 2) 6144 := by
  intro clean
  have loaded := (loaded_reset fun _ _ => 0).run [.write (fun _ => 1) 1]
  apply (loaded.write _ _).1.mp clean
  refine ⟨rfl, ?_, ?_, .inl rfl⟩
  · decide
  · decide

end OlympusFirmware.Olympus
