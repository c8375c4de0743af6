import Mathlib.Algebra.Group.Fin.Basic
import Mathlib.Order.Fin.Basic
import OlympusFirmware.Olympus.Usart

/-!
# The transmitter sends what was written

Seen from the buffer of the DMA the ring is simple (`Ring`): some full buffers, the one
being written, and empty ones. A round of `usartWrite` adds to the one being written or
moves on to an empty one, and `serviceTxDma` gives the first one back and moves the view
on. So the transmitter is a queue as long as writing does not come round to the buffer
that is being sent.
-/

namespace OlympusFirmware.Olympus

open OlympusFirmware.Lib

/-! ## The ring -/

/-- How the indices stand: the buffers before the `k`-th are full, those behind it empty. The
one the DMA is sending may have been sent early. -/
structure Ring (u : Usart) (k : Fin 4) : Prop where
  next : u.nextTxBuffer = u.dmaTxBuffer + k
  front : u.txDmaActive = true → 0 < k ∧ 0 < u.length 0
  full : ∀ j, j < k → (u.txDmaActive = true → 0 < j) → u.length j = commsTxBufferSize
  room : u.length k < commsTxBufferSize
  empty : ∀ j, k < j → u.length j = 0

/-- The transmitter between two calls. -/
structure Settled (u : Usart) : Prop where
  ring : ∃ k, Ring u k
  idle : u.txDmaActive = false → ∀ j, u.length j = 0
  flags : u.txDmaActive = (u.transferring || u.shouldServiceTxDma)
  one : ¬ (u.transferring = true ∧ u.shouldServiceTxDma = true)

theorem settled_reset (txBuffers : Fin 4 → Mem UInt8) : Settled (.reset txBuffers) := by
  refine ⟨⟨0, rfl, fun active => ?_, fun j low => ?_, ?_, fun _ _ => rfl⟩, fun _ _ => rfl,
    rfl, by simp [Usart.reset]⟩
  · cases active
  · exact absurd low (Fin.not_lt_zero j)
  · show 0 < commsTxBufferSize
    decide

theorem place_inj : ∀ d i j : Fin 4, d + i = d + j ↔ i = j := by decide

theorem place_succ : ∀ d j : Fin 4, d + 1 + j = d + (1 + j) := by decide

theorem places_all : ∀ k : Fin 4,
    [0, 1, 2, 3] = [0, 1, 2, 3].filter (· < k) ++ k :: [0, 1, 2, 3].filter (k < ·) := by decide

theorem places_behind : ∀ k : Fin 4, 0 < k →
    [1, 2, 3] = [1, 2, 3].filter (· < k) ++ k :: [1, 2, 3].filter (k < ·) := by decide

/-- What is appended behind the last part that is not empty ends up at the end. -/
theorem flatMap_update_last {ι α : Type} [DecidableEq ι] {f : ι → List α} {k : ι}
    {before behind : List ι} (bytes : List α) (fresh : k ∉ before ∧ k ∉ behind)
    (empty : ∀ j ∈ behind, f j = []) :
    (before ++ k :: behind).flatMap (Function.update f k (f k ++ bytes)) =
      (before ++ k :: behind).flatMap f ++ bytes := by
  have same : ∀ l : List ι, k ∉ l →
      l.flatMap (Function.update f k (f k ++ bytes)) = l.flatMap f := by
    intro l absent
    apply List.flatMap_congr
    intro j member
    have other : j ≠ k := fun eq => absent (eq ▸ member)
    exact Function.update_of_ne other _ _
  have none : behind.flatMap f = [] := by
    rw [List.flatMap_eq_nil_iff]
    exact empty
  simp only [List.flatMap_append, List.flatMap_cons, same before fresh.1, same behind fresh.2,
    Function.update_self, none, List.append_assoc, List.append_nil]

section Rounds

variable {u : Usart} {k : Fin 4}

/-- The buffer being written is waiting. -/
theorem Ring.waiting_eq (ring : Ring u k) :
    u.waiting = u.waiting.filter (· < k) ++ k :: u.waiting.filter (k < ·) := by
  unfold Usart.waiting
  cases active : u.txDmaActive with
  | true => exact places_behind k (ring.front active).1
  | false => exact places_all k

/-- The buffers behind it are empty. -/
theorem Ring.waiting_split (ring : Ring u k) :
    ∃ before behind, u.waiting = before ++ k :: behind ∧ (k ∉ before ∧ k ∉ behind) ∧
      ∀ j ∈ behind, u.contents j = [] := by
  refine ⟨u.waiting.filter (· < k), u.waiting.filter (k < ·), ring.waiting_eq, by simp, ?_⟩
  intro j member
  have behind : k < j := by simpa using (List.mem_filter.mp member).2
  simp [Usart.contents, ring.empty j behind]

/-- Appending to the buffer in writing, seen from the DMA. -/
theorem contents_append (next : u.nextTxBuffer = u.dmaTxBuffer + k) (bytes : List UInt8) :
    (u.append bytes).contents = Function.update u.contents k (u.contents k ++ bytes) := by
  funext j
  by_cases here : j = k
  · subst here
    rw [Function.update_self]
    simp only [Usart.contents, Usart.length, Usart.append, next, Function.update_self]
    simpa using Mem.load_store_behind (u.txBuffers (u.dmaTxBuffer + j)) 0
      (u.txBufferLengths (u.dmaTxBuffer + j)) bytes
  · have other : u.dmaTxBuffer + j ≠ u.dmaTxBuffer + k := fun eq => here ((place_inj _ _ _).mp eq)
    rw [Function.update_of_ne here]
    simp only [Usart.contents, Usart.length, Usart.append, next,
      Function.update_of_ne other]

theorem length_append (next : u.nextTxBuffer = u.dmaTxBuffer + k) (bytes : List UInt8) :
    (u.append bytes).length = Function.update u.length k (u.length k + bytes.length) := by
  funext j
  by_cases here : j = k
  · subst here
    rw [Function.update_self]
    simp only [Usart.length, Usart.append, next, Function.update_self]
  · have other : u.dmaTxBuffer + j ≠ u.dmaTxBuffer + k := fun eq => here ((place_inj _ _ _).mp eq)
    rw [Function.update_of_ne here]
    simp only [Usart.length, Usart.append, next, Function.update_of_ne other]

/-- What writing does: bytes are queued, and nothing the DMA uses is touched. -/
structure Appends (u u' : Usart) (bytes : List UInt8) : Prop where
  queued : u'.queued = u.queued ++ bytes
  dma : u'.dmaTxBuffer = u.dmaTxBuffer
  active : u'.txDmaActive = u.txDmaActive
  service : u'.shouldServiceTxDma = u.shouldServiceTxDma
  transfer : u'.transferring = u.transferring
  sending : u.txDmaActive = true → u'.txBuffers u.dmaTxBuffer = u.txBuffers u.dmaTxBuffer

theorem Appends.trans {u' u'' : Usart} {bytes more : List UInt8} (first : Appends u u' bytes)
    (second : Appends u' u'' more) : Appends u u'' (bytes ++ more) := by
  refine ⟨?_, second.dma.trans first.dma, second.active.trans first.active,
    second.service.trans first.service, second.transfer.trans first.transfer, fun active => ?_⟩
  · rw [second.queued, first.queued, List.append_assoc]
  · rw [← first.sending active, ← first.dma]
    exact second.sending (first.active.trans active)

theorem appends_append (ring : Ring u k) (bytes : List UInt8) :
    Appends u (u.append bytes) bytes := by
  refine ⟨?_, rfl, rfl, rfl, rfl, fun active => ?_⟩
  · obtain ⟨before, behind, split, fresh, empty⟩ := ring.waiting_split
    have waiting : (u.append bytes).waiting = before ++ k :: behind := split
    rw [Usart.queued, Usart.queued, waiting, split, contents_append ring.next]
    exact flatMap_update_last bytes fresh empty
  · -- the buffer written is not the one being sent
    have positive := (ring.front active).1
    have other : u.dmaTxBuffer ≠ u.nextTxBuffer := by
      rw [ring.next]
      intro eq
      have zero := (place_inj u.dmaTxBuffer 0 k).mp (by simpa using eq)
      simp [← zero] at positive
    exact Function.update_of_ne other _ _

/-- Bytes that do not fill the buffer. -/
theorem ring_append (ring : Ring u k) {bytes : List UInt8}
    (room : u.length k + bytes.length < commsTxBufferSize) : Ring (u.append bytes) k := by
  have lengths := length_append ring.next bytes
  have other : ∀ j, j ≠ k → (u.append bytes).length j = u.length j := by
    intro j away
    rw [lengths, Function.update_of_ne away]
  refine ⟨ring.next, fun active => ?_, fun j low active => ?_, ?_, fun j high => ?_⟩
  · obtain ⟨positive, some⟩ := ring.front active
    exact ⟨positive, by rw [other 0 positive.ne]; exact some⟩
  · rw [other j low.ne]
    exact ring.full j low active
  · rw [lengths, Function.update_self]
    exact room
  · rw [other j high.ne']
    exact ring.empty j high

/-- Bytes that fill the buffer: the next one is empty. -/
theorem ring_advance (ring : Ring u k) {bytes : List UInt8} (notLast : k < 3)
    (filled : u.length k + bytes.length = commsTxBufferSize) :
    Ring { u.append bytes with nextTxBuffer := u.nextTxBuffer + 1 } (k + 1) := by
  have lengths := length_append ring.next bytes
  have other : ∀ j, j ≠ k → (u.append bytes).length j = u.length j := by
    intro j away
    rw [lengths, Function.update_of_ne away]
  have steps : ∀ k : Fin 4, k < 3 → (∀ j, j < k + 1 ↔ j < k ∨ j = k) ∧ k < k + 1 ∧
      ∀ j, k + 1 < j → k < j := by decide
  obtain ⟨below, later, above⟩ := steps k notLast
  refine ⟨?_, fun active => ?_, fun j low active => ?_, ?_, fun j high => ?_⟩
  · show u.nextTxBuffer + 1 = u.dmaTxBuffer + (k + 1)
    rw [ring.next, add_assoc]
  · obtain ⟨positive, some⟩ := ring.front active
    refine ⟨positive.trans later, ?_⟩
    show 0 < (u.append bytes).length 0
    rw [other 0 positive.ne]
    exact some
  · show (u.append bytes).length j = commsTxBufferSize
    rcases (below j).mp low with before | rfl
    · rw [other j before.ne]
      exact ring.full j before active
    · rw [lengths, Function.update_self]
      exact filled
  · show (u.append bytes).length (k + 1) < commsTxBufferSize
    rw [other _ later.ne', ring.empty _ later]
    decide
  · show (u.append bytes).length j = 0
    rw [other j (above j high).ne']
    exact ring.empty j (above j high)

/-- A round, one branch at a time. -/
theorem writeRound_eq (data : Mem UInt8) (u : Usart) (pos size n : Nat)
    (count : bytesToWrite ⟨u, pos, size⟩ = n) :
    writeRound data ⟨u, pos, size⟩ =
      if u.txBufferLengths u.nextTxBuffer + n = commsTxBufferSize then
        if u.nextTxBuffer + 1 = u.dmaTxBuffer then
          (⟨{ u.append (data.load pos n) with nextTxBuffer := u.nextTxBuffer + 1 }, pos + n,
            (0 + 65536 - n) % 65536⟩, [.overrun])
        else
          (⟨{ u.append (data.load pos n) with nextTxBuffer := u.nextTxBuffer + 1 }, pos + n,
            (size + 65536 - n) % 65536⟩, [])
      else (⟨u.append (data.load pos n), pos + n, (size + 65536 - n) % 65536⟩, []) := by
  have now : (u.append (data.load pos n)).txBufferLengths
      (u.append (data.load pos n)).nextTxBuffer = u.txBufferLengths u.nextTxBuffer + n := by
    simp [Usart.append]
  unfold writeRound
  dsimp only
  rw [count, now]
  rfl

/-- What a round that does not overrun comes to: `n` bytes are queued, and if bytes are left
the buffer was filled. -/
structure RoundDone (data : Mem UInt8) (u : Usart) (k : Fin 4) (pos size : Nat) (w : Writing) :
    Prop where
  done : ∃ k' n, 0 < n ∧ n ≤ size ∧ w.pos = pos + n ∧ w.size = size - n ∧ Ring w.usart k' ∧
    Appends u w.usart (data.load pos n) ∧ (n = size ∨ k < k')

/-- **One round.** -/
theorem writeRound_spec (ring : Ring u k) (data : Mem UInt8) {pos size : Nat} (some : 0 < size)
    (word : size < 65536) (clear : .overrun ∉ (writeRound data ⟨u, pos, size⟩).2) :
    RoundDone data u k pos size (writeRound data ⟨u, pos, size⟩).1 := by
  have room := ring.room
  have here : u.txBufferLengths u.nextTxBuffer = u.length k := by rw [ring.next]; rfl
  have count : bytesToWrite ⟨u, pos, size⟩ = min size (commsTxBufferSize - u.length k) := by
    simp only [bytesToWrite, here, Nat.min_def]
    split <;> split <;> omega
  have round := writeRound_eq data u pos size _ count
  generalize chosen : min size (commsTxBufferSize - u.length k) = n at round
  have positive : 0 < n := by omega
  have bound : n ≤ size := by omega
  have left : (size + 65536 - n) % 65536 = size - n := by omega
  have appends := appends_append ring (data.load pos n)
  rw [here, left, ring.next] at round
  by_cases filled : u.length k + n = commsTxBufferSize
  · rw [if_pos filled] at round
    have wraps : ∀ d k : Fin 4, d + k + 1 = d ↔ ¬ k < 3 := by decide
    have notLast : k < 3 := by
      by_contra last
      rw [if_pos ((wraps _ _).mpr last)] at round
      exact clear (by rw [round]; exact List.mem_singleton_self _)
    rw [if_neg (fun eq => (wraps _ _).mp eq notLast), ← ring.next] at round
    rw [round]
    have later : ∀ k : Fin 4, k < 3 → k < k + 1 := by decide
    exact ⟨k + 1, n, positive, bound, rfl, rfl, ring_advance ring notLast (by simpa using filled),
      ⟨appends.queued, rfl, rfl, rfl, rfl, appends.sending⟩, .inr (later k notLast)⟩
  · rw [if_neg filled] at round
    rw [round]
    refine ⟨k, n, positive, bound, rfl, rfl, ring_append ring ?_, appends, .inl ?_⟩
    · rw [Mem.length_load]
      omega
    · omega

/-- **The loop**, by induction on the rounds left: it ends, and everything is queued. -/
theorem writeLoop_spec (data : Mem UInt8) (rounds : Nat) :
    ∀ {u : Usart} {k : Fin 4} {pos size : Nat}, Ring u k → size < 65536 → 4 - k.val ≤ rounds →
    .overrun ∉ (writeLoop data rounds ⟨u, pos, size⟩).2 →
    (writeLoop data rounds ⟨u, pos, size⟩).1.size = 0 ∧
      (∃ k', Ring (writeLoop data rounds ⟨u, pos, size⟩).1.usart k') ∧
      Appends u (writeLoop data rounds ⟨u, pos, size⟩).1.usart (data.load pos size) := by
  induction rounds with
  | zero =>
      intro u k pos size ring word enough
      omega
  | succ rounds ih =>
      intro u k pos size ring word enough clear
      by_cases zero : size = 0
      · subst zero
        refine ⟨rfl, ⟨k, ring⟩, ?_⟩
        exact ⟨by simp [writeLoop], rfl, rfl, rfl, rfl, fun _ => rfl⟩
      · have unfolded : writeLoop data (rounds + 1) ⟨u, pos, size⟩ =
            ((writeLoop data rounds (writeRound data ⟨u, pos, size⟩).1).1,
              (writeRound data ⟨u, pos, size⟩).2 ++
                (writeLoop data rounds (writeRound data ⟨u, pos, size⟩).1).2) := by
          rw [writeLoop, if_neg zero]
        rw [unfolded] at clear ⊢
        rw [List.mem_append, not_or] at clear
        obtain ⟨k', n, positive, bound, pos', size', ring', appends, progress⟩ :=
          writeRound_spec ring data (Nat.pos_of_ne_zero zero) word clear.1
        generalize (writeRound data ⟨u, pos, size⟩).1 = w at clear pos' size' ring' appends ⊢
        obtain ⟨u', pos', size'⟩ := w
        dsimp only at pos' size' ring' appends
        subst pos' size'
        rcases progress with rfl | later
        · -- the last round
          have stop : writeLoop data rounds ⟨u', pos + n, n - n⟩ = (⟨u', pos + n, n - n⟩, []) := by
            cases rounds with
            | zero => rfl
            | succ rounds => rw [writeLoop, if_pos (Nat.sub_self n)]
          rw [stop]
          exact ⟨Nat.sub_self n, ⟨k', ring'⟩, appends⟩
        · obtain ⟨ended, ringEnd, more⟩ := ih ring' (by omega) (by omega) clear.2
          refine ⟨ended, ringEnd, ?_⟩
          have whole := appends.trans more
          rwa [← Mem.load_add, Nat.add_sub_cancel' bound] at whole

end Rounds

/-! ## The calls -/

section Calls

variable {u : Usart} {k : Fin 4}

/-- With nothing in the buffers nothing is queued. -/
theorem queued_of_empty (empty : ∀ j, u.length j = 0) : u.queued = [] := by
  rw [Usart.queued, List.flatMap_eq_nil_iff]
  intro j _
  simp [Usart.contents, empty j]

/-- With no further bytes, everything is empty. -/
theorem Ring.empty_of_front (ring : Ring u k) (inactive : u.txDmaActive = false)
    (none : ¬ 0 < u.length 0) (j : Fin 4) : u.length j = 0 := by
  have first : k = 0 := by
    by_contra behind
    have full := ring.full 0 (Fin.pos_iff_ne_zero.mpr behind) (by simp [inactive])
    rw [full] at none
    exact none (by decide)
  rcases eq_or_ne j 0 with rfl | behind
  · omega
  · exact ring.empty j (by rw [first]; exact Fin.pos_iff_ne_zero.mpr behind)

/-- While nothing is being sent, what is queued starts in the buffer of the DMA. -/
theorem Ring.front_of_queued (ring : Ring u k) (inactive : u.txDmaActive = false)
    (some : u.queued ≠ []) : 0 < u.length 0 := by
  by_contra none
  exact some (queued_of_empty (ring.empty_of_front inactive none))

/-- **`startTxDma`** hands over the front of the queue. -/
theorem startTxDma_queue (inactive : u.txDmaActive = false) :
    handedOver (startTxDma u).2 ++ (startTxDma u).1.queued = u.queued := by
  have all : u.queued = u.contents 0 ++ [1, 2, 3].flatMap u.contents := by
    rw [Usart.queued, Usart.waiting, inactive]
    rfl
  have handed : handedOver (startTxDma u).2 = u.contents 0 := by
    simp [startTxDma, handedOver, Usart.contents, Usart.length]
  rw [all, handed]
  rfl

/-- The ring when the DMA has been started. -/
theorem startTxDma_ring (ring : Ring u k) (inactive : u.txDmaActive = false)
    (some : 0 < u.length 0) : Ring (startTxDma u).1 (if k = 0 then 1 else k) := by
  have zero : u.nextTxBuffer = u.dmaTxBuffer ↔ k = 0 := by
    rw [ring.next]
    simp
  by_cases first : k = 0
  · -- the buffer handed over is the one being written: writing goes on in the next
    subst first
    refine ⟨?_, fun _ => ⟨by decide, some⟩, fun j low behind => ?_, ?_, fun j high => ?_⟩
    · show (if u.nextTxBuffer = u.dmaTxBuffer then u.nextTxBuffer + 1 else u.nextTxBuffer) =
        u.dmaTxBuffer + 1
      rw [if_pos (zero.mpr rfl), zero.mpr rfl]
    · have between : ∀ j : Fin 4, j < 1 → ¬ 0 < j := by decide
      exact absurd (behind rfl) (between j low)
    · show u.length 1 < commsTxBufferSize
      rw [ring.empty 1 (by decide)]
      decide
    · exact ring.empty j (Fin.lt_trans (by decide) high)
  · have positive : 0 < k := Fin.pos_iff_ne_zero.mpr first
    rw [if_neg first]
    refine ⟨?_, fun _ => ⟨positive, some⟩, fun j low behind => ?_, ring.room, ring.empty⟩
    · show (if u.nextTxBuffer = u.dmaTxBuffer then u.nextTxBuffer + 1 else u.nextTxBuffer) =
        u.dmaTxBuffer + k
      rw [if_neg (fun eq => first (zero.mp eq)), ring.next]
    · exact ring.full j low (by simp [inactive])

theorem handedOver_append (xs ys : List UsartOutput) :
    handedOver (xs ++ ys) = handedOver xs ++ handedOver ys := by
  induction xs with
  | nil => rfl
  | cons x xs ih => cases x <;> simp [handedOver, ih]

/-- The loop itself hands nothing over. -/
theorem handedOver_writeLoop (data : Mem UInt8) (rounds : Nat) (w : Writing) :
    handedOver (writeLoop data rounds w).2 = [] := by
  induction rounds generalizing w with
  | zero => rfl
  | succ rounds ih =>
      unfold writeLoop
      split
      · rfl
      · have quiet : handedOver (writeRound data w).2 = [] := by
          rw [writeRound_eq data w.usart w.pos w.size _ rfl]
          split
          · split <;> rfl
          · rfl
        rw [handedOver_append, quiet, ih]
        rfl

/-- What a call does to the queue: what it is given goes in at the end, what it hands over
comes from the front, and the buffer being sent stays as it is. -/
structure Queues (u : Usart) (bytes : List UInt8) (result : Usart × List UsartOutput) : Prop where
  settled : Settled result.1
  queue : handedOver result.2 ++ result.1.queued = u.queued ++ bytes
  sending : u.txDmaActive = true → result.1.txBuffers u.dmaTxBuffer = u.txBuffers u.dmaTxBuffer

/-- Bytes written while a buffer is being sent. -/
theorem queues_busy {v : Usart} {bytes : List UInt8} {outputs : List UsartOutput}
    (settled : Settled u) (ring : ∃ k, Ring v k) (appends : Appends u v bytes)
    (active : v.txDmaActive = true) (quiet : handedOver outputs = []) :
    Queues u bytes (v, outputs) := by
  refine ⟨⟨ring, by simp [active], ?_, ?_⟩, ?_, appends.sending⟩
  · rw [appends.active, appends.transfer, appends.service]
    exact settled.flags
  · rw [appends.transfer, appends.service]
    exact settled.one
  · rw [quiet, List.nil_append, appends.queued]

/-- Bytes written while nothing is being sent: the DMA is started. -/
theorem queues_start {v : Usart} {bytes : List UInt8} {outputs : List UsartOutput}
    (settled : Settled u) (ring : Ring v k) (appends : Appends u v bytes)
    (inactive : v.txDmaActive = false) (some : bytes ≠ []) (quiet : handedOver outputs = []) :
    Queues u bytes ((startTxDma v).1, outputs ++ (startTxDma v).2) := by
  have was : u.txDmaActive = false := appends.active.symm.trans inactive
  have noService : v.shouldServiceTxDma = false := by
    have flags := settled.flags
    rw [was, ← appends.service] at flags
    exact (Bool.or_eq_false_iff.mp flags.symm).2
  have queued : v.queued ≠ [] := by
    rw [appends.queued]
    intro none
    exact some (List.append_eq_nil_iff.mp none).2
  have ringEnd := startTxDma_ring ring inactive (ring.front_of_queued inactive queued)
  refine ⟨⟨⟨_, ringEnd⟩, fun off => ?_, rfl, fun both => ?_⟩, ?_, by simp [was]⟩
  · cases off
  · have service : v.shouldServiceTxDma = true := both.2
    rw [noService] at service
    cases service
  · rw [handedOver_append, quiet, List.nil_append, startTxDma_queue inactive, appends.queued]

/-- **`usartWrite`**, if it does not overrun. -/
theorem usartWrite_queues (settled : Settled u) (data : Mem UInt8) (size : UInt16)
    (clear : .overrun ∉ (usartWrite u data size).2) :
    Queues u (data.load 0 size.toNat) (usartWrite u data size) := by
  obtain ⟨k, ring⟩ := settled.ring
  unfold usartWrite at clear ⊢
  by_cases some : 0 < size.toNat
  · have quiet := handedOver_writeLoop data writeRounds ⟨u, 0, size.toNat⟩
    have loop := @writeLoop_spec data writeRounds u k 0 _ ring size.toNat_lt
      (by unfold writeRounds; omega)
    rw [if_pos some] at clear ⊢
    revert clear loop quiet
    generalize writeLoop data writeRounds ⟨u, 0, size.toNat⟩ = result
    obtain ⟨⟨v, pos, left⟩, outputs⟩ := result
    dsimp only
    intro clear quiet loop
    cases active : v.txDmaActive with
    | true =>
        rw [active, if_pos rfl] at clear
        obtain ⟨-, ring', appends⟩ := loop clear
        rw [if_pos rfl]
        exact queues_busy settled ring' appends active quiet
    | false =>
        rw [active, if_neg (by simp), List.mem_append, not_or] at clear
        obtain ⟨-, ⟨k', ring'⟩, appends⟩ := loop clear.1
        have bytes : data.load 0 size.toNat ≠ [] := by
          rw [← List.length_pos_iff, Mem.length_load]
          exact some
        rw [if_neg (by simp)]
        exact queues_start settled ring' appends active bytes quiet
  · have zero : size.toNat = 0 := by omega
    rw [if_neg some]
    exact ⟨settled, by simp [handedOver, zero], fun _ => rfl⟩

theorem giveBack_length (u : Usart) (j : Fin 4) :
    u.giveBack.length j = if j = 3 then 0 else u.length (1 + j) := by
  have last : ∀ d j : Fin 4, d + 1 + j = d ↔ j = 3 := by decide
  show Function.update u.txBufferLengths u.dmaTxBuffer 0 (u.dmaTxBuffer + 1 + j) = _
  by_cases here : j = 3
  · rw [if_pos here, (last _ _).mpr here, Function.update_self]
  · rw [if_neg here, Function.update_of_ne (fun eq => here ((last _ _).mp eq)), place_succ]
    rfl

theorem giveBack_contents (u : Usart) (j : Fin 4) :
    u.giveBack.contents j = if j = 3 then [] else u.contents (1 + j) := by
  unfold Usart.contents
  rw [giveBack_length]
  split
  · rfl
  · rw [← place_succ]
    rfl

/-- The ring moves on by one, and the queue stays. -/
theorem ring_giveBack (ring : Ring u k) (active : u.txDmaActive = true) :
    Ring u.giveBack (k - 1) ∧ u.giveBack.queued = u.queued := by
  have positive := (ring.front active).1
  have moves : ∀ d k : Fin 4, d + k = d + 1 + (k - 1) := by decide
  have before : ∀ k j : Fin 4, 0 < k → j < k - 1 → j ≠ 3 ∧ 1 + j < k ∧ 0 < 1 + j := by decide
  have here : ∀ k : Fin 4, 0 < k → k - 1 ≠ 3 ∧ 1 + (k - 1) = k := by decide
  have behind : ∀ k j : Fin 4, 0 < k → k - 1 < j → j ≠ 3 → k < 1 + j := by decide
  refine ⟨⟨?_, fun off => ?_, fun j low _ => ?_, ?_, fun j high => ?_⟩, ?_⟩
  · show u.nextTxBuffer = u.dmaTxBuffer + 1 + (k - 1)
    rw [ring.next, moves]
  · cases off
  · obtain ⟨notLast, low', positive'⟩ := before k j positive low
    rw [giveBack_length, if_neg notLast]
    exact ring.full _ low' fun _ => positive'
  · obtain ⟨notLast, same⟩ := here k positive
    rw [giveBack_length, if_neg notLast, same]
    exact ring.room
  · rw [giveBack_length]
    split
    · rfl
    · rename_i notLast
      exact ring.empty _ (behind k j positive high notLast)
  · rw [Usart.queued, Usart.queued, Usart.waiting, Usart.waiting, active]
    show [0, 1, 2, 3].flatMap u.giveBack.contents = [1, 2, 3].flatMap u.contents
    simp [giveBack_contents]

theorem serviceTxDma_eq (pending : u.shouldServiceTxDma = true) :
    serviceTxDma u =
      if 0 < u.giveBack.length 0 then
        ({ (startTxDma u.giveBack).1 with shouldServiceTxDma := false },
          (startTxDma u.giveBack).2)
      else ({ u.giveBack with shouldServiceTxDma := false }, []) := by
  have front : u.giveBack.length 0 =
      Function.update u.txBufferLengths u.dmaTxBuffer 0 (u.dmaTxBuffer + 1) := by
    show Function.update u.txBufferLengths u.dmaTxBuffer 0 (u.dmaTxBuffer + 1 + 0) = _
    rw [add_zero]
  rw [front]
  by_cases more : 0 < Function.update u.txBufferLengths u.dmaTxBuffer 0 (u.dmaTxBuffer + 1)
  · simp only [serviceTxDma, pending, more, if_true]
    rfl
  · simp only [serviceTxDma, pending, more, if_true, if_false]
    rfl

/-- **`serviceTxDma`.** -/
theorem serviceTxDma_queues (settled : Settled u) : Queues u [] (serviceTxDma u) := by
  by_cases pending : u.shouldServiceTxDma = true
  · have active : u.txDmaActive = true := by rw [settled.flags, pending, Bool.or_true]
    have stopped : u.transferring = false := by
      by_contra on
      exact settled.one ⟨by simpa using on, pending⟩
    obtain ⟨k, ring⟩ := settled.ring
    obtain ⟨ring', queue⟩ := ring_giveBack ring active
    rw [serviceTxDma_eq pending]
    split
    · rename_i more
      have ringEnd := startTxDma_ring ring' rfl more
      have front := startTxDma_queue (u := u.giveBack) rfl
      have ends : ∃ k', Ring { (startTxDma u.giveBack).1 with shouldServiceTxDma := false } k' :=
        ⟨_, ringEnd.next, ringEnd.front, ringEnd.full, ringEnd.room, ringEnd.empty⟩
      refine ⟨⟨ends, fun off => ?_, rfl, by simp⟩, ?_, fun _ => rfl⟩
      · cases off
      · rw [List.append_nil, ← queue]
        exact front
    · rename_i none
      have empty := ring'.empty_of_front rfl none
      refine ⟨⟨⟨k - 1, ?_⟩, fun _ => empty, ?_, by simp⟩, ?_, fun _ => rfl⟩
      · exact ⟨ring'.next, ring'.front, ring'.full, ring'.room, ring'.empty⟩
      · show false = (u.transferring || false)
        rw [stopped]
        rfl
      · rw [← queue, queued_of_empty empty]
        exact queued_of_empty empty
  · rw [serviceTxDma, if_neg pending]
    exact ⟨settled, by simp [handedOver], fun _ => rfl⟩

/-- A completion only sets the flag. -/
theorem complete_queues (settled : Settled u) : Queues u [] (commsTxDmaIsr u, []) := by
  unfold commsTxDmaIsr
  split
  · rename_i on
    have active : u.txDmaActive = true := by rw [settled.flags, on, Bool.true_or]
    obtain ⟨k, ring⟩ := settled.ring
    refine ⟨⟨⟨k, ring.next, ring.front, ring.full, ring.room, ring.empty⟩, ?_, ?_, ?_⟩, ?_,
      fun _ => rfl⟩
    · simp [active]
    · show u.txDmaActive = (false || true)
      rw [active]
      rfl
    · simp
    · rw [List.append_nil]
      rfl
  · exact ⟨settled, by simp [handedOver], fun _ => rfl⟩

end Calls

/-! ## Whole runs -/

/-- **One event** that does not overrun. -/
theorem usartStep_queues {u : Usart} (settled : Settled u) (event : UsartEvent)
    (clear : .overrun ∉ usartFSM.emit u event) :
    Queues u (written [event]) (usartFSM.step u event) := by
  cases event with
  | write data size =>
      show Queues u (data.load 0 size.toNat ++ []) (usartWrite u data size)
      rw [List.append_nil]
      exact usartWrite_queues settled data size clear
  | complete => exact complete_queues settled
  | service => exact serviceTxDma_queues settled

theorem written_cons (event : UsartEvent) (rest : List UsartEvent) :
    written (event :: rest) = written [event] ++ written rest := by
  cases event <;> simp [written]

/-- **A run** that does not overrun. -/
theorem queues_run (events : List UsartEvent) : ∀ {u : Usart}, Settled u →
    .overrun ∉ usartFSM.outputs u events →
    Settled (usartFSM.after u events) ∧
      handedOver (usartFSM.outputs u events) ++ (usartFSM.after u events).queued =
        u.queued ++ written events ∧
      usartFSM.EveryStep (fun u event => u.txDmaActive = true →
        (usartFSM.next u event).txBuffers u.dmaTxBuffer = u.txBuffers u.dmaTxBuffer) u events := by
  induction events with
  | nil => intro u settled _; exact ⟨settled, by simp [handedOver, written], trivial⟩
  | cons event rest ih =>
      intro u settled clear
      rw [Fsm.outputs_cons, List.mem_append, not_or] at clear
      have step := usartStep_queues settled event clear.1
      obtain ⟨settledEnd, queue, kept⟩ := ih (u := usartFSM.next u event) step.settled clear.2
      refine ⟨settledEnd, ?_, step.sending, kept⟩
      have first : handedOver (usartFSM.emit u event) ++ (usartFSM.next u event).queued =
          u.queued ++ written [event] := step.queue
      rw [Fsm.outputs_cons, handedOver_append, Fsm.after_cons, List.append_assoc, queue,
        ← List.append_assoc, first, List.append_assoc, ← written_cons]

/-- **Transmit order.** From reset, on whatever the buffers hold, for every run of writes,
completions and service calls in which no `usartWrite` advances `nextTxBuffer` onto
`dmaTxBuffer`: the buffers handed to the DMA, then what is queued, are what was written;
the buffer being sent is never modified; and while nothing is being sent and no completion
is pending, nothing is queued. -/
theorem usart_transmits_in_order (txBuffers : Fin 4 → Mem UInt8) (events : List UsartEvent)
    (clear : .overrun ∉ usartFSM.outputs (.reset txBuffers) events) :
    handedOver (usartFSM.outputs (.reset txBuffers) events) ++
        (usartFSM.after (.reset txBuffers) events).queued = written events ∧
      usartFSM.EveryStep (fun u event => u.txDmaActive = true →
        (usartFSM.next u event).txBuffers u.dmaTxBuffer = u.txBuffers u.dmaTxBuffer)
        (.reset txBuffers) events ∧
      ((usartFSM.after (.reset txBuffers) events).txDmaActive = false →
        (usartFSM.after (.reset txBuffers) events).shouldServiceTxDma = false →
        (usartFSM.after (.reset txBuffers) events).queued = []) := by
  have start := settled_reset txBuffers
  obtain ⟨settled, queue, kept⟩ := queues_run events start clear
  refine ⟨?_, kept, fun inactive _ => queued_of_empty (settled.idle inactive)⟩
  rw [queue, queued_of_empty (start.idle rfl)]
  rfl

/-- Two writes, the second while the first is being sent: both are handed over, and nothing
waits. -/
theorem second_write_follows :
    let u := usartFSM.after (.reset fun _ _ => 0)
      [.write (fun _ => 1) 2, .write (fun _ => 2) 3, .complete, .service]
    let handed := handedOver (usartFSM.outputs (.reset fun _ _ => 0)
      [.write (fun _ => 1) 2, .write (fun _ => 2) 3, .complete, .service])
    handed ++ u.queued = [1, 1, 2, 2, 2] ∧ handed = [1, 1, 2, 2, 2] ∧ u.queued = [] :=
  ⟨(usart_transmits_in_order (fun _ _ => 0)
    [.write (fun _ => 1) 2, .write (fun _ => 2) 3, .complete, .service] (by decide +kernel)).1,
    by decide +kernel, by decide +kernel⟩

end OlympusFirmware.Olympus
