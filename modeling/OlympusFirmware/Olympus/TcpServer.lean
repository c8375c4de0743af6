import Mathlib.Logic.Function.Basic
import OlympusFirmware.Lib.Fsm

/-!
# The TCP server's connections (`olympus/peripherals/ETH/tcp_server.c`)

Each connection has two blocks from `mem_malloc`: a `tcp_conn_t`, which lwIP hands back to the
callbacks as their argument, and the `CommsHandler_t` its field `hdl` points to. The state is
the allocator's ledger, the `hdl` fields, and the argument of every pcb whose callbacks are
registered. A block is a number; the ledger says which are allocated and for which pcb.

What `mem_malloc` returns is an input of the event, so that every pattern of failures and every
reuse of an address is a run; it never returns a block that is allocated. `mem_free` leaves the
bytes of a block as they are, as the heap of `lwip/mem.c` does.
-/

namespace OlympusFirmware.Olympus

open OlympusFirmware.Lib

/-- A `struct pbuf`. -/
structure Pbuf where
  payload : List UInt8
  totLen : Nat

/-- `len`. -/
def Pbuf.len (p : Pbuf) : Nat := p.payload.length

/-- The invariant of `lwip/pbuf.h`: `tot_len` is `len` and the `tot_len` of the next one. -/
def ChainTotals : Pbuf → List Pbuf → Prop
  | p, [] => p.totLen = p.len
  | p, next :: rest => p.totLen = p.len + next.totLen ∧ ChainTotals next rest

/-- A chain as lwIP hands it over. -/
structure PbufChain where
  head : Pbuf
  rest : List Pbuf
  totals : ChainTotals head rest

/-- The server. `hdl` is the field of the `tcp_conn_t` in a block, and `none` is `NULL`. -/
structure TcpServer where
  owner : Nat → Option Nat
  hdl : Nat → Option Nat
  arg : Nat → Option Nat

/-- What lwIP calls. `accept` comes with what the two `mem_malloc` calls would return, `recv`
with whether `err` is `ERR_OK` and with the chain, or none when the remote end has closed. -/
inductive TcpEvent
  | accept (newpcb : Nat) (conn hdl : Option Nat)
  | recv (tpcb : Nat) (ok : Bool) (p : Option PbufChain)
  | error (tpcb : Nat)

/-- What is done to blocks: a `conn->hdl` is read, a block is passed to `mem_free`; each with
whether the block is allocated then. -/
inductive TcpOutput
  | readHdl (conn : Nat) (live : Bool)
  | freed (block : Nat) (live : Bool)
deriving DecidableEq

/-- Nothing allocated, no connection. -/
def TcpServer.init : TcpServer := ⟨fun _ => none, fun _ => none, fun _ => none⟩

/-- Block `block` is allocated. -/
def TcpServer.live (s : TcpServer) (block : Nat) : Bool := (s.owner block).isSome

/-- `mem_malloc`, for the connection of `pcb`. -/
def memMalloc (s : TcpServer) (pcb : Nat) : Option Nat → Option Nat × TcpServer
  | none => (none, s)
  | some block =>
      if s.live block then (none, s)
      else (some block, { s with owner := Function.update s.owner block (some pcb) })

/-- `mem_free`, which returns at once when given `NULL`. -/
def memFree (s : TcpServer) : Option Nat → TcpServer × List TcpOutput
  | none => (s, [])
  | some block =>
      ({ s with owner := Function.update s.owner block none }, [.freed block (s.live block)])

/-- `tcp_server_connection_free`. -/
def tcpServerConnectionFree (s : TcpServer) (conn : Nat) : TcpServer × List TcpOutput :=
  let (s₁, first) := memFree s (s.hdl conn)
  let (s₂, second) := memFree s₁ (some conn)
  (s₂, .readHdl conn (s.live conn) :: first ++ second)

/-- `tcp_server_connection_close`. -/
def tcpServerConnectionClose (s : TcpServer) (tpcb : Nat) (conn : Option Nat) :
    TcpServer × List TcpOutput :=
  let s₁ := { s with arg := Function.update s.arg tpcb none }
  match conn with
  | none => (s₁, [])
  | some conn => tcpServerConnectionFree s₁ conn

/-- `tcp_server_accept`. -/
def tcpServerAccept (s : TcpServer) (newpcb : Nat) (connMem hdlMem : Option Nat) :
    TcpServer × List TcpOutput :=
  match memMalloc s newpcb connMem with
  | (none, s₁) => tcpServerConnectionClose s₁ newpcb none
  | (some conn, s₁) =>
      let (hdl, s₂) := memMalloc s₁ newpcb hdlMem
      let s₃ := { s₂ with hdl := Function.update s₂.hdl conn hdl }
      if s₃.hdl conn = none then
        let (s₄, freed) := memFree s₃ (some conn)
        let (s₅, closed) := tcpServerConnectionClose s₄ newpcb (some conn)
        (s₅, .readHdl conn (s₃.live conn) :: freed ++ closed)
      else
        -- the test above, and `initCommsHandler(conn->hdl, newpcb)`
        ({ s₃ with arg := Function.update s₃.arg newpcb (some conn) },
          [.readHdl conn (s₃.live conn), .readHdl conn (s₃.live conn)])

/-- The loop of `tcp_server_recv`: the elements whose payload is handed to `runCommsFSM`, if it
ends within `fuel` rounds. The calls of `runCommsFSM` are taken to return here. -/
def recvLoop : Nat → Pbuf → List Pbuf → Option (List Pbuf)
  | 0, _, _ => none
  | fuel + 1, curp, [] =>
      if curp.totLen = curp.len then some [curp]
      else (recvLoop fuel curp []).map (curp :: ·)
  | fuel + 1, curp, next :: rest => (recvLoop fuel next rest).map (curp :: ·)

/-- `tcp_server_recv`. -/
def tcpServerRecv (s : TcpServer) (tpcb conn : Nat) (ok : Bool) (p : Option PbufChain) :
    TcpServer × List TcpOutput :=
  if ok = false then (s, [])
  else
    match p with
    | none => tcpServerConnectionClose s tpcb (some conn)
    | some chain =>
        match recvLoop (chain.rest.length + 1) chain.head chain.rest with
        | none => (s, [])
        | some fed => (s, fed.map fun _ => .readHdl conn (s.live conn))

/-- `tcp_server_error`. lwIP frees the pcb with it, so that it makes no more calls. -/
def tcpServerError (s : TcpServer) (tpcb conn : Nat) : TcpServer × List TcpOutput :=
  let (s₁, freed) := tcpServerConnectionFree s conn
  ({ s₁ with arg := Function.update s₁.arg tpcb none }, freed)

/-- One call from lwIP. It accepts pcbs that are new, and calls back only those that have
callbacks. -/
def tcpStep (s : TcpServer) : TcpEvent → TcpServer × List TcpOutput
  | .accept newpcb connMem hdlMem =>
      if (s.arg newpcb).isSome then (s, []) else tcpServerAccept s newpcb connMem hdlMem
  | .recv tpcb ok p =>
      match s.arg tpcb with
      | none => (s, [])
      | some conn => tcpServerRecv s tpcb conn ok p
  | .error tpcb =>
      match s.arg tpcb with
      | none => (s, [])
      | some conn => tcpServerError s tpcb conn

/-- The server as a machine. -/
def tcpFSM : Fsm TcpServer TcpEvent TcpOutput where
  step := tcpStep

/-- With lwIP's invariant the loop ends and takes every element once. -/
theorem recvLoop_chain {p : Pbuf} {rest : List Pbuf} (totals : ChainTotals p rest) :
    recvLoop (rest.length + 1) p rest = some (p :: rest) := by
  induction rest generalizing p with
  | nil =>
      unfold recvLoop
      exact if_pos totals
  | cons next rest ih =>
      have tail := ih totals.2
      unfold recvLoop
      rw [List.length_cons, tail, Option.map_some]

/-! ## What each function does to the ledger -/

/-- `mem_malloc` fails or returns a block that was free. -/
theorem memMalloc_cases (s : TcpServer) (pcb : Nat) (choice : Option Nat) :
    memMalloc s pcb choice = (none, s) ∨ ∃ block, s.owner block = none ∧
      memMalloc s pcb choice =
        (some block, { s with owner := Function.update s.owner block (some pcb) }) := by
  cases choice with
  | none => exact .inl rfl
  | some block =>
      cases owner : s.owner block with
      | some other =>
          left
          simp [memMalloc, TcpServer.live, owner]
      | none =>
          right
          exact ⟨block, owner, by simp [memMalloc, TcpServer.live, owner]⟩

/-- The state after the connection of `tpcb` is gone and its two blocks are freed. -/
def TcpServer.drop (s : TcpServer) (tpcb conn hdl : Nat) : TcpServer :=
  { s with
    owner := Function.update (Function.update s.owner hdl none) conn none
    arg := Function.update s.arg tpcb none }

/-- The state after the connection of `newpcb` is open. -/
def TcpServer.connect (s : TcpServer) (newpcb conn hdl : Nat) : TcpServer where
  owner := Function.update (Function.update s.owner conn (some newpcb)) hdl (some newpcb)
  hdl := Function.update s.hdl conn (some hdl)
  arg := Function.update s.arg newpcb (some conn)

/-- An accept whose first `mem_malloc` succeeds and whose second one fails. -/
def HalfAllocates (s : TcpServer) : TcpEvent → Prop
  | .accept newpcb connMem hdlMem => s.arg newpcb = none ∧
      (memMalloc s newpcb connMem).1 ≠ none ∧
      (memMalloc (memMalloc s newpcb connMem).2 newpcb hdlMem).1 = none
  | _ => False

instance (s : TcpServer) : (event : TcpEvent) → Decidable (HalfAllocates s event)
  | .accept _ _ _ => inferInstanceAs (Decidable (_ ∧ _ ∧ _))
  | .recv _ _ _ | .error _ => .isFalse id

/-- Freeing a connection that has both its blocks. -/
theorem tcpServerConnectionFree_owned {s : TcpServer} {pcb conn hdl : Nat}
    (connOwner : s.owner conn = some pcb) (field : s.hdl conn = some hdl) (apart : hdl ≠ conn)
    (hdlOwner : s.owner hdl = some pcb) :
    tcpServerConnectionFree s conn =
      ({ s with owner := Function.update (Function.update s.owner hdl none) conn none },
        [.readHdl conn true, .freed hdl true, .freed conn true]) := by
  simp [tcpServerConnectionFree, memFree, TcpServer.live, connOwner, field, hdlOwner,
    Function.update_of_ne apart.symm]

/-- An accept left with only the first block frees it, and `tcp_server_connection_close` then
reads its `hdl`. -/
theorem tcpServerAccept_half {s : TcpServer} {newpcb : Nat} {connMem hdlMem : Option Nat}
    (half : HalfAllocates s (.accept newpcb connMem hdlMem)) :
    ∃ conn, .readHdl conn false ∈ (tcpServerAccept s newpcb connMem hdlMem).2 := by
  obtain ⟨-, first, second⟩ := half
  unfold tcpServerAccept
  obtain failed | ⟨conn, -, got⟩ := memMalloc_cases s newpcb connMem
  · rw [failed] at first
    exact absurd rfl first
  · rw [got] at second ⊢
    refine ⟨conn, ?_⟩
    simp [second, tcpServerConnectionClose, tcpServerConnectionFree, memFree, TcpServer.live]

/-- Any other accept gets no memory or opens a connection with two new blocks. -/
theorem tcpServerAccept_whole {s : TcpServer} {newpcb : Nat} (new : s.arg newpcb = none)
    {connMem hdlMem : Option Nat} (whole : ¬ HalfAllocates s (.accept newpcb connMem hdlMem)) :
    tcpServerAccept s newpcb connMem hdlMem = (s, []) ∨
    ∃ conn hdl, s.owner conn = none ∧ s.owner hdl = none ∧ hdl ≠ conn ∧
      tcpServerAccept s newpcb connMem hdlMem =
        (s.connect newpcb conn hdl, [.readHdl conn true, .readHdl conn true]) := by
  unfold tcpServerAccept
  obtain failed | ⟨conn, connFree, got⟩ := memMalloc_cases s newpcb connMem
  · left
    rw [failed]
    simp [tcpServerConnectionClose, ← new]
  · right
    rw [got]
    obtain failed | ⟨hdl, hdlFree, got'⟩ := memMalloc_cases
      { s with owner := Function.update s.owner conn (some newpcb) } newpcb hdlMem
    · exact absurd ⟨new, by simp [got], by simp [got, failed]⟩ whole
    · have apart : hdl ≠ conn := by
        rintro rfl
        simp at hdlFree
      refine ⟨conn, hdl, connFree, ?_, apart, ?_⟩
      · simpa [Function.update_of_ne apart] using hdlFree
      · simp [got', TcpServer.connect, TcpServer.live, Function.update_of_ne apart.symm]

/-! ## Every block has a connection -/

/-- Every open connection has its two blocks, and every block allocated is one of them. -/
structure Owned (s : TcpServer) : Prop where
  opened : ∀ pcb conn, s.arg pcb = some conn → s.owner conn = some pcb ∧
    ∃ hdl, s.hdl conn = some hdl ∧ hdl ≠ conn ∧ s.owner hdl = some pcb
  held : ∀ block pcb, s.owner block = some pcb →
    ∃ conn, s.arg pcb = some conn ∧ (block = conn ∨ s.hdl conn = some block)

theorem owned_init : Owned .init := by
  constructor <;> simp [TcpServer.init]

/-- Closing a connection takes its two blocks and no other out of the ledger. -/
theorem owned_drop {s : TcpServer} (owned : Owned s) {tpcb conn hdl : Nat}
    (arg : s.arg tpcb = some conn) (field : s.hdl conn = some hdl) :
    Owned (s.drop tpcb conn hdl) := by
  obtain ⟨connOwner, hdl', field', -, hdlOwner⟩ := owned.opened tpcb conn arg
  obtain rfl : hdl = hdl' := Option.some.inj (field.symm.trans field')
  -- the blocks of another pcb are neither of the two
  have kept : ∀ block pcb, pcb ≠ tpcb → s.owner block = some pcb →
      (s.drop tpcb conn hdl).owner block = some pcb := by
    intro block pcb other owner
    have notConn : block ≠ conn := by
      rintro rfl
      exact other (Option.some.inj (owner.symm.trans connOwner))
    have notHdl : block ≠ hdl := by
      rintro rfl
      exact other (Option.some.inj (owner.symm.trans hdlOwner))
    simpa [TcpServer.drop, notConn, notHdl] using owner
  constructor
  · intro pcb conn' arg'
    have other : pcb ≠ tpcb := by
      rintro rfl
      simp [TcpServer.drop] at arg'
    have before : s.arg pcb = some conn' := by
      simpa [TcpServer.drop, other] using arg'
    obtain ⟨owner, hdl', field', apart, owner'⟩ := owned.opened pcb conn' before
    exact ⟨kept conn' pcb other owner, hdl', field', apart, kept hdl' pcb other owner'⟩
  · intro block pcb owner
    have notConn : block ≠ conn := by
      rintro rfl
      simp [TcpServer.drop] at owner
    have notHdl : block ≠ hdl := by
      rintro rfl
      simp [TcpServer.drop, notConn] at owner
    have before : s.owner block = some pcb := by
      simpa [TcpServer.drop, notConn, notHdl] using owner
    obtain ⟨conn', arg', which⟩ := owned.held block pcb before
    have other : pcb ≠ tpcb := by
      rintro rfl
      obtain rfl : conn = conn' := Option.some.inj (arg.symm.trans arg')
      rcases which with same | same
      · exact notConn same
      · exact notHdl (Option.some.inj (same.symm.trans field))
    exact ⟨conn', by simpa [TcpServer.drop, other] using arg', which⟩

/-- Opening a connection with two new blocks. -/
theorem owned_connect {s : TcpServer} (owned : Owned s) {newpcb conn hdl : Nat}
    (new : s.arg newpcb = none) (connFree : s.owner conn = none) (hdlFree : s.owner hdl = none)
    (apart : hdl ≠ conn) : Owned (s.connect newpcb conn hdl) := by
  have kept : ∀ block pcb, s.owner block = some pcb →
      block ≠ conn ∧ (s.connect newpcb conn hdl).owner block = some pcb := by
    intro block pcb owner
    have notConn : block ≠ conn := by
      rintro rfl
      simp [connFree] at owner
    have notHdl : block ≠ hdl := by
      rintro rfl
      simp [hdlFree] at owner
    exact ⟨notConn, by simpa [TcpServer.connect, notConn, notHdl] using owner⟩
  constructor
  · intro pcb conn' arg'
    by_cases mine : pcb = newpcb
    · subst mine
      obtain rfl : conn = conn' := by simpa [TcpServer.connect] using arg'
      refine ⟨?_, hdl, ?_, apart, ?_⟩ <;> simp [TcpServer.connect, apart.symm]
    · have before : s.arg pcb = some conn' := by
        simpa [TcpServer.connect, mine] using arg'
      obtain ⟨owner, hdl', field', apart', owner'⟩ := owned.opened pcb conn' before
      obtain ⟨notConn, owner⟩ := kept conn' pcb owner
      refine ⟨owner, hdl', ?_, apart', (kept hdl' pcb owner').2⟩
      simpa [TcpServer.connect, notConn] using field'
  · intro block pcb owner
    by_cases isHdl : block = hdl
    · subst isHdl
      obtain rfl : newpcb = pcb := by simpa [TcpServer.connect] using owner
      exact ⟨conn, by simp [TcpServer.connect], .inr (by simp [TcpServer.connect])⟩
    · by_cases isConn : block = conn
      · subst isConn
        obtain rfl : newpcb = pcb := by simpa [TcpServer.connect, isHdl] using owner
        exact ⟨block, by simp [TcpServer.connect], .inl rfl⟩
      · have before : s.owner block = some pcb := by
          simpa [TcpServer.connect, isHdl, isConn] using owner
        obtain ⟨conn', arg', which⟩ := owned.held block pcb before
        have other : pcb ≠ newpcb := by
          rintro rfl
          simp [new] at arg'
        have notConn := (kept conn' pcb (owned.opened pcb conn' arg').1).1
        refine ⟨conn', by simpa [TcpServer.connect, other] using arg', ?_⟩
        simpa [TcpServer.connect, notConn] using which

/-! ## Runs -/

/-- An output that touches no block that is not allocated. -/
def TcpOutput.Live : TcpOutput → Prop
  | .readHdl _ live | .freed _ live => live = true

/-- Freeing the blocks of an open connection, from `tcp_server_recv` or `tcp_server_error`. -/
theorem Owned.free {s : TcpServer} (owned : Owned s) {tpcb conn : Nat}
    (arg : s.arg tpcb = some conn) :
    ∃ hdl, Owned (s.drop tpcb conn hdl) ∧
      tcpServerConnectionClose s tpcb (some conn) =
        (s.drop tpcb conn hdl, [.readHdl conn true, .freed hdl true, .freed conn true]) ∧
      tcpServerError s tpcb conn =
        (s.drop tpcb conn hdl, [.readHdl conn true, .freed hdl true, .freed conn true]) := by
  obtain ⟨connOwner, hdl, field, apart, hdlOwner⟩ := owned.opened tpcb conn arg
  refine ⟨hdl, owned_drop owned arg field, ?_, ?_⟩
  · unfold tcpServerConnectionClose
    exact tcpServerConnectionFree_owned connOwner field apart hdlOwner
  · unfold tcpServerError
    rw [tcpServerConnectionFree_owned connOwner field apart hdlOwner]
    rfl

/-- A call that does not leave an accept half done touches live blocks only, and keeps every
block with its connection. -/
theorem owned_step {s : TcpServer} {event : TcpEvent} (owned : Owned s)
    (whole : ¬ HalfAllocates s event) :
    Owned (tcpFSM.next s event) ∧ ∀ out ∈ tcpFSM.emit s event, out.Live := by
  have still : Owned s ∧ ∀ out ∈ ([] : List TcpOutput), out.Live := ⟨owned, by simp⟩
  show Owned (tcpStep s event).1 ∧ ∀ out ∈ (tcpStep s event).2, out.Live
  cases event with
  | accept newpcb connMem hdlMem =>
      cases arg : s.arg newpcb with
      | some conn => simpa [tcpStep, arg] using owned
      | none =>
          simp only [tcpStep, arg, Option.isSome_none, Bool.false_eq_true, if_false]
          obtain noMemory | ⟨conn, hdl, connFree, hdlFree, apart, opened⟩ :=
            tcpServerAccept_whole arg whole
          · rw [noMemory]
            exact still
          · rw [opened]
            exact ⟨owned_connect owned arg connFree hdlFree apart, by simp [TcpOutput.Live]⟩
  | recv tpcb ok p =>
      cases arg : s.arg tpcb with
      | none => simpa [tcpStep, arg] using owned
      | some conn =>
          simp only [tcpStep, arg, tcpServerRecv]
          cases ok with
          | false => exact still
          | true =>
              cases p with
              | none =>
                  obtain ⟨hdl, dropped, closed, -⟩ := owned.free arg
                  simp only [Bool.true_eq_false, if_false, closed]
                  exact ⟨dropped, by simp [TcpOutput.Live]⟩
              | some chain =>
                  have live : s.live conn = true := by
                    simp [TcpServer.live, (owned.opened tpcb conn arg).1]
                  simp only [Bool.true_eq_false, if_false, recvLoop_chain chain.totals, live]
                  exact ⟨owned, by simp [TcpOutput.Live]⟩
  | error tpcb =>
      cases arg : s.arg tpcb with
      | none => simpa [tcpStep, arg] using owned
      | some conn =>
          obtain ⟨hdl, dropped, -, failed⟩ := owned.free arg
          simp only [tcpStep, arg, failed]
          exact ⟨dropped, by simp [TcpOutput.Live]⟩

theorem owned_after {events : List TcpEvent}
    (whole : tcpFSM.EveryStep (fun s event => ¬ HalfAllocates s event) .init events) :
    Owned (tcpFSM.after .init events) := by
  have run := tcpFSM.invariant (I := fun _ s => Owned s)
    (fun _ s event owned whole => (owned_step owned whole).1) [] owned_init whole
  exact run

/-- The blocks of the connections in a run: no block is freed and no `conn->hdl` is read that is
not allocated, and wherever the run is cut, a pcb without an open connection (it has ended, or
its accept failed) has no block. -/
structure FreedOnce (events : List TcpEvent) : Prop where
  reads : ∀ conn, .readHdl conn false ∉ tcpFSM.outputs .init events
  frees : ∀ block, .freed block false ∉ tcpFSM.outputs .init events
  returned : ∀ pre post, events = pre ++ post → ∀ pcb,
    (tcpFSM.after .init pre).arg pcb = none →
      ∀ block, (tcpFSM.after .init pre).owner block ≠ some pcb

/-- A half-done accept shows. -/
theorem halfAllocates_emits {s : TcpServer} {event : TcpEvent} (half : HalfAllocates s event) :
    ∃ conn, .readHdl conn false ∈ tcpFSM.emit s event := by
  cases event with
  | accept newpcb connMem hdlMem =>
      obtain ⟨conn, member⟩ := tcpServerAccept_half half
      refine ⟨conn, ?_⟩
      show _ ∈ (tcpStep s _).2
      simpa [tcpStep, half.1] using member
  | recv tpcb ok p => exact half.elim
  | error tpcb => exact half.elim

/-- The blocks are freed exactly once exactly in the runs in which no accept gets its first block
and not its second. -/
theorem freedOnce_iff (events : List TcpEvent) :
    FreedOnce events ↔
      tcpFSM.EveryStep (fun s event => ¬ HalfAllocates s event) .init events := by
  constructor
  · intro once
    rw [tcpFSM.everyStep_iff]
    rintro pre event post rfl half
    obtain ⟨conn, member⟩ := halfAllocates_emits half
    apply once.reads conn
    rw [Fsm.outputs_append, Fsm.outputs_cons]
    exact List.mem_append_right _ (List.mem_append_left _ member)
  · intro whole
    have live : ∀ out ∈ tcpFSM.outputs .init events, out.Live := by
      rw [tcpFSM.forall_outputs_iff]
      exact tcpFSM.everyStep_of_invariant (fun s event => owned_step) owned_init whole
    constructor
    · intro conn member
      exact absurd (live _ member) (by simp [TcpOutput.Live])
    · intro block member
      exact absurd (live _ member) (by simp [TcpOutput.Live])
    · rintro pre post rfl pcb closed block owner
      have owned := owned_after ((tcpFSM.everyStep_append _ _ _ _).mp whole).1
      obtain ⟨conn, arg, -⟩ := owned.held block pcb owner
      exact absurd arg (by simp [closed])

/-- One accept that gets a `tcp_conn_t` and no `CommsHandler_t`: the block is freed twice. -/
theorem half_allocated_accept_frees_twice :
    ¬ FreedOnce [.accept 0 (some 100) none] ∧
      tcpFSM.outputs .init [.accept 0 (some 100) none] =
        [.readHdl 100 true, .freed 100 true, .readHdl 100 false, .freed 100 false] := by
  have actions : tcpFSM.outputs .init [.accept 0 (some 100) none] =
      [.readHdl 100 true, .freed 100 true, .readHdl 100 false, .freed 100 false] := by
    decide
  refine ⟨?_, actions⟩
  intro once
  apply once.frees 100
  simp [actions]

end OlympusFirmware.Olympus
