/-
# The socket tables (`tcpsockm.cpp`, `tcp.cpp`)

A socket of the pool is on the free list, in the table of active sockets, or with a user alone.  A
listening socket starts connections on sockets that no user has yet: they are marked
`pendingAccept`, and `pendingAccepts` counts those of them that have reached ESTABLISHED.

Most routines leave the tables alone (`Quiet`).  `destroy` takes a socket out of the table, and when
it is still to be accepted it goes back to the free list; but `pendingAccepts` is not counted down.
So the counter is wrong after the peer resets such a connection, or it times out
(`reset_before_accept`).  In every other run the tables are consistent (`tables_consistent`).
-/
import SdcBoot.Mtcp.Close

namespace SdcBoot.Mtcp

open Lib List Function Bool

/-! ## 1. The calls, and the user's part -/

/-- ESTABLISHED or beyond. -/
def State.reached : State → Bool
  | .closed | .listen | .synSent | .synRecved => false
  | _ => true

/-- What `pendingAccepts` counts. -/
def TcpSocket.counted (s : TcpSocket) : Bool := s.pendingAccept && s.state.reached

/-- `TcpSocketMgr::accept`; `expired` says for which sockets TCP_PA_TIMEOUT has passed. -/
def accept (expired : Nat → Bool) (w : World) : Option Nat × World :=
  let w1 :=
    match w.m.socketTable.find? fun i =>
        (w.sock i).pendingAccept && !(w.sock i).state.reached && expired i with
    | none => w
    | some i => w.on i destroy
  if w1.m.pendingAccepts = 0 then (none, w1)
  else
    match w1.m.socketTable.find? fun i => (w1.sock i).counted with
    | none => (none, w1)
    | some i =>
      (some i, w1.on i fun c =>
        { s := { c.s with pendingAccept := false }
          m := { c.m with pendingAccepts := c.m.pendingAccepts - 1 } })

/-- `isCloseDone`; `late` says that TCP_CLOSE_TIMEOUT has passed. -/
def isCloseDone (late : Bool) (c : Ctx) : Bool × Ctx :=
  if c.s.state = .timeWait ∨ c.s.state = .closed then
    let c1 := destroy c
    (true, { c1 with s := { c1.s with closeReason := 0 } })
  else if late then
    let c1 := destroy c
    (true, { c1 with s := { c1.s with closeReason := 2 } })
  else (false, c)

/-- `freeSocket`, with `allocated` sockets in the pool. -/
def freeSocket (allocated i : Nat) (m : Shared) : Shared :=
  if m.availSocketTable.length = allocated then m
  else { m with availSocketTable := i :: m.availSocketTable }

/-- The sockets, and those of the pool that the user has. -/
structure Tables where
  world : World
  owned : List Nat

/-- What the user, the peers and time do. -/
inductive TableCall where
  | getSocket (iss : UInt32)
  | freeSocket (i : Nat)
  | connect (i srcPort host dstPort : Nat)
  | listen (i srcPort recvBufferSize : Nat)
  | process (luck : Luck) (g : Segment)
  | accept (expired : Nat → Bool)
  | close (i : Nat)
  | isCloseDone (i : Nat) (late : Bool)
  | send (i : Nat) (userBuf : List UInt8)
  | recv (i userBufLen : Nat) (resolves : Bool)
  | drivePackets2 (env : Nat → Env)

/-- A user's call to a socket he has. -/
def Tables.onOwn (t : Tables) (i : Nat) (f : World → World) : Tables :=
  if i ∈ t.owned then { t with world := f t.world } else t

/-- One call.  A socket is given back when it is closed and out of the table: its close is done, or
it was never opened. -/
def stepTables (cfg : Config) (allocated : Nat) (t : Tables) : TableCall → Tables
  | .getSocket iss =>
    { world := Mtcp.getSocket iss t.world
      owned := t.world.m.availSocketTable.take 1 ++ t.owned }
  | .freeSocket i =>
    if i ∈ t.owned ∧ (t.world.sock i).state = .closed ∧ i ∉ t.world.m.socketTable then
      { world := { t.world with m := Mtcp.freeSocket allocated i t.world.m }
        owned := t.owned.erase i }
    else t
  | .connect i srcPort host dstPort => t.onOwn i fun w => w.on i (connect2 cfg srcPort host dstPort)
  | .listen i srcPort recvBufferSize => t.onOwn i (Mtcp.listen srcPort recvBufferSize i)
  | .process luck g => { t with world := Mtcp.process cfg luck g t.world }
  | .accept expired =>
    let r := Mtcp.accept expired t.world
    { world := r.2, owned := r.1.toList ++ t.owned }
  | .close i => t.onOwn i fun w => w.on i (closeLocal cfg)
  | .isCloseDone i late => t.onOwn i fun w => w.on i fun c => (Mtcp.isCloseDone late c).2
  | .send i userBuf => t.onOwn i fun w => w.on i fun c => (Mtcp.send cfg userBuf c).2
  | .recv i userBufLen resolves =>
    t.onOwn i fun w => w.on i fun c => (Mtcp.recv cfg resolves userBufLen c).2
  | .drivePackets2 env => { t with world := Mtcp.drivePackets2 cfg env t.world }

def tableStep (cfg : Config) (allocated : Nat) (t : Tables) (call : TableCall) : Unit × Tables :=
  ((), stepTables cfg allocated t call)

/-! ## 2. What leaves the tables alone -/

/-- The tables and the counter. -/
def Shared.tables (m : Shared) : List Nat × List Nat × Nat :=
  (m.socketTable, m.availSocketTable, m.pendingAccepts)

@[simp] theorem setBuf_tables (c : Ctx) (b : BufId) (f : TcpBuffer → TcpBuffer) :
    (c.setBuf b f).m.tables = c.m.tables := rfl

@[simp] theorem shared_setBuf_tables (m : Shared) (b : BufId) (f : TcpBuffer → TcpBuffer) :
    (m.setBuf b f).tables = m.tables := rfl

@[simp] theorem returnXmitBuf_tables (m : Shared) (b : BufId) :
    (m.returnXmitBuf b).tables = m.tables := by
  cases b <;> rfl

@[simp] theorem returnAll_tables (l : List BufId) (m : Shared) :
    (l.foldl Shared.returnXmitBuf m).tables = m.tables := by
  induction l generalizing m with
  | nil => rfl
  | cons b l ih => rw [foldl_cons, ih, returnXmitBuf_tables]

@[simp] theorem clearQueues_tables (c : Ctx) : (clearQueues c).m.tables = c.m.tables := by
  simp [clearQueues]

variable (cfg : Config) (g : Segment) (resolves : Bool)

@[simp] theorem enqueue_tables (b : BufId) (c : Ctx) :
    (enqueue cfg b c).2.m.tables = c.m.tables := by
  unfold enqueue
  split
  · rfl
  · split
    · rfl
    · split <;> rfl

@[simp] theorem enqueueConnect_tables (owner : Nat) (c : Ctx) :
    (enqueueConnect cfg owner c).m.tables = c.m.tables :=
  enqueue_tables cfg _ _

@[simp] theorem removeLoop_tables (target : UInt32) : ∀ (l : List BufId) (c : Ctx),
    (removeLoop target l c).m.tables = c.m.tables
  | [], _ => rfl
  | p :: rest, c => by
    unfold removeLoop
    split
    · rw [removeLoop_tables target rest]
      simp
    · rfl

theorem takeAck_tables (c : Ctx) : (takeAck g c).m.tables = c.m.tables := by
  have hloop : (removeSentPackets g.acknum c).m.tables = c.m.tables := removeLoop_tables _ _ _
  unfold takeAck
  by_cases hnil : c.s.sent = []
  · simp only [if_pos hnil]
  · simp only [if_neg hnil]
    split
    · exact hloop
    · exact hloop

@[simp] theorem sendPacket_tables (b : BufId) (c : Ctx) :
    (sendPacket cfg resolves b c).2.m.tables = c.m.tables := by
  unfold sendPacket
  split
  · split <;> rfl
  · split <;> rfl

@[simp] theorem sendPureAck_tables (c : Ctx) :
    (sendPureAck cfg resolves c).m.tables = c.m.tables := by
  unfold sendPureAck
  split
  · rfl
  · exact sendPacket_tables cfg resolves .stack _

theorem processPacketData_tables (data : List UInt8) (c : Ctx) :
    (processPacketData cfg data c).2.m.tables = c.m.tables := by
  unfold processPacketData
  split
  · rfl
  · split
    · split <;> rfl
    · split <;> rfl

@[simp] theorem afterSend_tables (c : Ctx) (b : BufId) :
    (c.afterSend b).m.tables = c.m.tables := by
  unfold Ctx.afterSend
  dsimp only
  split
  · simp
  · rfl

theorem getXmitBuf_tables {m m' : Shared} {n : Option Nat} (h : m.getXmitBuf = (n, m')) :
    m'.tables = m.tables := by
  unfold Shared.getXmitBuf at h
  split at h
  · rw [← (Prod.mk.inj h).2]
  · cases h
    rfl

theorem sendLoop_tables (fuel : Nat) (userBuf : List UInt8) (c : Ctx) :
    (sendLoop cfg fuel userBuf c).2.m.tables = c.m.tables := by
  induction fuel generalizing userBuf c with
  | zero => rfl
  | succ fuel ih =>
    unfold sendLoop
    split
    · rfl
    · split
      · split
        · rfl
        · rename_i n m hget
          rw [ih, enqueue_tables, setBuf_tables]
          exact getXmitBuf_tables hget
      · rfl

/-- A socket that is to be accepted is one that the user has not closed. -/
def TcpSocket.Waits (s : TcpSocket) : Prop :=
  s.pendingAccept = true → s.state = .synRecved ∨ s.state = .established ∨ s.state = .closeWait

/-- **A routine of one socket that leaves the tables alone**, and the state where the socket is to
be accepted. -/
structure Quiet (c c' : Ctx) : Prop where
  tables : c'.m.tables = c.m.tables
  self : c'.s.self = c.s.self
  pending : c'.s.pendingAccept = c.s.pendingAccept
  state : c.s.Waits → c.s.pendingAccept = true → c'.s.state = c.s.state

namespace Quiet

variable {c c1 c2 : Ctx}

theorem refl (c : Ctx) : Quiet c c := ⟨rfl, rfl, rfl, fun _ _ => rfl⟩

theorem waits (h : Quiet c c1) (hw : c.s.Waits) : c1.s.Waits := by
  intro hp
  have hp : c.s.pendingAccept = true := h.pending.symm.trans hp
  rw [h.state hw hp]
  exact hw hp

theorem trans (h : Quiet c c1) (h' : Quiet c1 c2) : Quiet c c2 where
  tables := h'.tables.trans h.tables
  self := h'.self.trans h.self
  pending := h'.pending.trans h.pending
  state hw hp := by rw [h'.state (h.waits hw) (h.pending.trans hp), h.state hw hp]

/-- The state is as it was. -/
theorem of_same (htables : c1.m.tables = c.m.tables) (hself : c1.s.self = c.s.self)
    (hpending : c1.s.pendingAccept = c.s.pendingAccept) (hstate : c1.s.state = c.s.state) :
    Quiet c c1 :=
  ⟨htables, hself, hpending, fun _ _ => hstate⟩

variable (cfg : Config) (resolves : Bool)

theorem enqueueConnect (owner : Nat) (c : Ctx) : Quiet c (enqueueConnect cfg owner c) := by
  obtain ⟨out, hs, -⟩ := enqueueConnect_s cfg owner c
  refine of_same (enqueueConnect_tables cfg owner c) ?_ ?_ ?_ <;> rw [hs]

theorem takeAck (g : Segment) (c : Ctx) : Quiet c (takeAck g c) := by
  obtain ⟨sent, old, win, hs⟩ := takeAck_s g c
  refine of_same (takeAck_tables g c) ?_ ?_ ?_ <;> rw [hs]

theorem sendPureAck (c : Ctx) : Quiet c (sendPureAck cfg resolves c) := by
  obtain ⟨force, hs⟩ := sendPureAck_s cfg resolves c
  refine of_same (sendPureAck_tables cfg resolves c) ?_ ?_ ?_ <;> rw [hs]

theorem processPacketData (data : List UInt8) (c : Ctx) :
    Quiet c (processPacketData cfg data c).2 := by
  have htables := processPacketData_tables cfg data c
  obtain ⟨-, hs⟩ | ⟨-, inc, rcv, hs⟩ := processPacketData_s cfg data c
  · rw [hs]
    exact refl c
  · refine of_same htables ?_ ?_ ?_ <;> rw [hs]

theorem send (userBuf : List UInt8) (c : Ctx) : Quiet c (send cfg userBuf c).2 := by
  obtain ⟨out, hs⟩ := send_s cfg userBuf c
  have htables : (Mtcp.send cfg userBuf c).2.m.tables = c.m.tables := by
    unfold Mtcp.send
    split
    · rfl
    · exact sendLoop_tables cfg _ userBuf c
  refine of_same htables ?_ ?_ ?_ <;> rw [hs]

theorem recv (cfg : Config) (resolves : Bool) (n : Nat) (c : Ctx) :
    Quiet c (recv cfg resolves n c).2 := by
  obtain ⟨rcv, force, hs⟩ := recv_s cfg resolves n c
  have htables : (Mtcp.recv cfg resolves n c).2.m.tables = c.m.tables := by
    unfold Mtcp.recv
    split
    · rfl
    · split
      · rfl
      · split
        · exact sendPureAck_tables cfg resolves _
        · rfl
  refine of_same htables ?_ ?_ ?_ <;> rw [hs]

/-- A FIN is sent only where the user has closed. -/
theorem sendPacket (b : BufId) (c : Ctx) : Quiet c (sendPacket cfg resolves b c).2 := by
  have htables := sendPacket_tables cfg resolves b c
  obtain ⟨-, mac, hs⟩ | ⟨-, hs⟩ := sendPacket_s cfg resolves b c
  · refine of_same htables ?_ ?_ ?_ <;> rw [hs]
  · refine ⟨htables, by rw [hs]; rfl, by rw [hs]; rfl, fun hw hp => ?_⟩
    rw [hs]
    unfold TcpSocket.advanced
    split
    · rename_i hfin
      have hclosed := role_finAck hfin
      obtain hst | hst | hst := hw hp <;> rw [hst] at hclosed <;> simp at hclosed
    · rfl

theorem probe (c : Ctx) : Quiet c (probe cfg resolves c) := by
  obtain ⟨force, hs⟩ := probe_s cfg resolves c
  have htables : (Mtcp.probe cfg resolves c).m.tables = c.m.tables :=
    sendPureAck_tables cfg resolves _
  refine of_same htables ?_ ?_ ?_ <;> rw [hs]

theorem afterSend (c : Ctx) (b : BufId) : Quiet c (c.afterSend b) := by
  obtain ⟨sent, hs⟩ := afterSend_s c b
  refine of_same (afterSend_tables c b) ?_ ?_ ?_ <;> rw [hs]

theorem driveOutgoing (env : Env) (fuel : Nat) (c : Ctx) :
    Quiet c (driveOutgoing cfg env fuel c) := by
  induction fuel generalizing c with
  | zero => exact refl c
  | succ fuel ih =>
    unfold Mtcp.driveOutgoing
    split
    · exact refl c
    · rename_i b rest _
      split
      · split
        · split
          · exact probe cfg env.resolves c
          · exact refl c
        · have hsend := sendPacket cfg env.resolves b c
          dsimp only
          split
          · exact hsend
          · exact (hsend.trans (afterSend _ b)).trans (ih _)
      · exact refl c

end Quiet

/-- **A routine that leaves the tables alone and counts**: a socket that is to be accepted is
counted when it reaches ESTABLISHED. -/
structure Steady (c c' : Ctx) : Prop where
  table : c'.m.socketTable = c.m.socketTable
  avail : c'.m.availSocketTable = c.m.availSocketTable
  self : c'.s.self = c.s.self
  pending : c'.s.pendingAccept = c.s.pendingAccept
  waits : c.s.Waits → c'.s.Waits
  count : c.s.Waits → c'.m.pendingAccepts + c.s.counted.toNat =
    c.m.pendingAccepts + c'.s.counted.toNat

variable {c : Ctx} {l : List Nat} {i : Nat}

theorem Quiet.steady {c' : Ctx} (h : Quiet c c') : Steady c c' := by
  obtain ⟨htable, hrest⟩ := Prod.mk.inj h.tables
  obtain ⟨havail, hcount⟩ := Prod.mk.inj hrest
  refine ⟨htable, havail, h.self, h.pending, h.waits, fun hw => ?_⟩
  have hcounted : c'.s.counted = c.s.counted := by
    unfold TcpSocket.counted
    rw [h.pending]
    cases hp : c.s.pendingAccept with
    | false => rfl
    | true => rw [h.state hw hp]
  rw [hcount, hcounted]

theorem Steady.trans {c1 c2 : Ctx} (h : Steady c c1) (h' : Steady c1 c2) : Steady c c2 where
  table := h'.table.trans h.table
  avail := h'.avail.trans h.avail
  self := h'.self.trans h.self
  pending := h'.pending.trans h.pending
  waits := h'.waits ∘ h.waits
  count hw := by
    have h1 := h.count hw
    have h2 := h'.count (h.waits hw)
    omega

/-- The socket is out of the table, and on the free list if it was to be accepted. -/
structure Gone (c c' : Ctx) : Prop where
  table : c'.m.socketTable = swapRemove c.m.socketTable c.s.self
  avail : c'.m.availSocketTable =
    if c.s.pendingAccept then c.s.self :: c.m.availSocketTable else c.m.availSocketTable
  pendingAccepts : c'.m.pendingAccepts = c.m.pendingAccepts
  self : c'.s.self = c.s.self
  pending : c'.s.pendingAccept = false

theorem destroy_gone (c : Ctx) (reason : Nat) :
    Gone c { destroy c with s := { (destroy c).s with closeReason := reason } } := by
  have htables := clearQueues_tables c
  obtain ⟨htable, hrest⟩ := Prod.mk.inj htables
  obtain ⟨havail, hcount⟩ := Prod.mk.inj hrest
  refine ⟨?_, ?_, hcount, rfl, rfl⟩
  · unfold destroy
    dsimp only
    rw [htable]
  · unfold destroy
    dsimp only
    rw [havail]

/-- Only SYN_RECVED goes on to ESTABLISHED here, and it is counted. -/
theorem changeState_steady (current : Bool) (c : Ctx) : Steady c (changeState g current c).2 := by
  have hfin (st : State) (hp : c.s.pendingAccept = true → st.reached = c.s.state.reached)
      (hw : c.s.Waits → { c.s with state := st, ackNum := c.s.ackNum + 1 }.Waits) :
      Steady c (c.finTaken st) := by
    refine ⟨rfl, rfl, rfl, rfl, hw, fun _ => ?_⟩
    unfold TcpSocket.counted Ctx.finTaken
    cases hpend : c.s.pendingAccept with
    | false => rfl
    | true => rw [hp hpend]
  have hset (st : State) (hno : ¬ (c.s.Waits ∧ c.s.pendingAccept = true)) :
      Steady c (c.setState st) := by
    refine ⟨rfl, rfl, rfl, rfl, fun hw hp => absurd ⟨hw, hp⟩ hno, fun hw => ?_⟩
    have hp : c.s.pendingAccept = false := Bool.eq_false_iff.mpr fun hp => hno ⟨hw, hp⟩
    simp [TcpSocket.counted, Ctx.setState, hp]
  have hquiet : Steady c c := (Quiet.refl c).steady
  have hclosed (hst : c.s.state ≠ .synRecved ∧ c.s.state ≠ .established ∧ c.s.state ≠ .closeWait) :
      ¬ (c.s.Waits ∧ c.s.pendingAccept = true) := by
    rintro ⟨hw, hp⟩
    obtain h | h | h := hw hp
    · exact hst.1 h
    · exact hst.2.1 h
    · exact hst.2.2 h
  have hlate (st : State)
      (hst : c.s.state ≠ .synRecved ∧ c.s.state ≠ .established ∧ c.s.state ≠ .closeWait) :
      Steady c (c.finTaken st) := by
    refine ⟨rfl, rfl, rfl, rfl, fun hw hp => absurd ⟨hw, hp⟩ (hclosed hst), fun hw => ?_⟩
    have hp : c.s.pendingAccept = false := Bool.eq_false_iff.mpr fun hp => hclosed hst ⟨hw, hp⟩
    simp [TcpSocket.counted, Ctx.finTaken, hp]
  unfold changeState
  split
  · rename_i hst
    split
    · refine hfin .closeWait (fun _ => by rw [hst]; rfl) fun _ _ => .inr (.inr rfl)
    · exact hquiet
  · rename_i hst
    split
    · exact hlate .sendFin2 (by rw [hst]; decide)
    · exact hquiet
  · rename_i hst
    split
    · refine ⟨?_, ?_, rfl, rfl, fun _ _ => .inr (.inl rfl), fun _ => ?_⟩
      · split <;> rfl
      · split <;> rfl
      · unfold TcpSocket.counted
        rw [hst]
        cases c.s.pendingAccept <;> rfl
    · exact (Quiet.of_same (clearQueues_tables c) rfl rfl rfl).steady
  · rename_i hst
    exact hset .closed (hclosed (by rw [hst]; decide))
  · rename_i hst
    split
    · exact hlate _ (by rw [hst]; decide)
    · split
      · exact hset .finWait2 (hclosed (by rw [hst]; decide))
      · exact hquiet
  · rename_i hst
    split
    · exact hlate .timeWait (by rw [hst]; decide)
    · exact hquiet
  · rename_i hst
    split
    · exact hset .timeWait (hclosed (by rw [hst]; decide))
    · exact hquiet
  · exact hquiet

theorem processAccepted_steady (c : Ctx) : Steady c (processAccepted cfg g c).2 := by
  have hack := (Quiet.takeAck g c).steady
  unfold processAccepted
  dsimp only
  split
  · exact hack.trans (changeState_steady g _ _)
  · have hdata := hack.trans (Quiet.processPacketData cfg g.data (takeAck g c)).steady
    split
    · exact hdata
    · exact hdata.trans (changeState_steady g _ _)

/-- A reset whose number is the one expected. -/
def TcpSocket.resetBy (s : TcpSocket) (g : Segment) : Bool := g.codeBits.rst && s.seqIsProper g

/-- A socket that waits for the answer to its SYN is not to be accepted. -/
theorem processSynSent_cases (hst : c.s.state = .synSent) :
    Steady c (processSynSent cfg g c).2 ∨
      ((processSynSent cfg g c).1 = false ∧ Gone c (processSynSent cfg g c).2) := by
  have hnone (hw : c.s.Waits) : c.s.pendingAccept = false := by
    refine Bool.eq_false_iff.mpr fun hp => ?_
    obtain h | h | h := hw hp <;> rw [hst] at h <;> cases h
  -- a step that changes the state of this socket
  have hopen (c' : Ctx) (htables : c'.m.tables = c.m.tables) (hself : c'.s.self = c.s.self)
      (hp : c'.s.pendingAccept = c.s.pendingAccept) : Steady c c' := by
    obtain ⟨htable, hrest⟩ := Prod.mk.inj htables
    obtain ⟨havail, hcount⟩ := Prod.mk.inj hrest
    refine ⟨htable, havail, hself, hp, fun hw h => ?_, fun hw => ?_⟩
    · exact absurd (hp.symm.trans h) (by rw [hnone hw]; decide)
    · simp [TcpSocket.counted, hp, hnone hw, hcount]
  unfold processSynSent
  split
  · split
    · exact .inr ⟨rfl, destroy_gone c 1⟩
    · exact .inl (Quiet.refl c).steady
  · left
    split
    · split
      · split
        · obtain ⟨sent, old, hs⟩ := removeSentPackets_s g.acknum c
          have htables : (removeSentPackets g.acknum c).m.tables = c.m.tables :=
            removeLoop_tables _ _ _
          refine hopen _ htables ?_ ?_
          · simp only [TcpSocket.setMaxEnqueueSize, hs]
          · simp only [TcpSocket.setMaxEnqueueSize, hs]
        · exact (Quiet.refl c).steady
      · refine Steady.trans (hopen _ ?_ ?_ ?_) (Quiet.enqueueConnect cfg _ _).steady
        · rw [clearQueues_tables]
        · rfl
        · rfl
    · exact (Quiet.refl c).steady

/-- **`process2` counts, or the socket is gone**; a socket that is counted is gone when it is
reset. -/
theorem process2_cases (g : Segment) (c : Ctx) :
    Steady c (process2 cfg resolves g c) ∨
      (c.s.state.reached = true → c.s.resetBy g = true) ∧ Gone c (process2 cfg resolves g c) := by
  unfold process2
  by_cases hst : c.s.state = .synSent
  · rw [if_pos hst]
    obtain h | ⟨hno, h⟩ := processSynSent_cases cfg g hst
    · left
      dsimp only
      split
      · exact h.trans (Quiet.enqueueConnect cfg _ _).steady
      · exact h
    · right
      dsimp only
      rw [hno]
      refine ⟨fun hr => ?_, h⟩
      rw [hst] at hr
      cases hr
  · rw [if_neg hst]
    unfold processOther
    split
    · rename_i hrst
      split
      · rename_i hseq
        refine .inr ⟨fun _ => ?_, destroy_gone c 1⟩
        rw [TcpSocket.resetBy, hrst, hseq]
        rfl
      · exact .inl (Quiet.refl c).steady
    · left
      split
      · have h := processAccepted_steady cfg g c
        dsimp only
        split
        · exact h.trans (Quiet.enqueueConnect cfg _ _).steady
        · exact h
      · exact (Quiet.sendPureAck cfg resolves c).steady

/-- The packet that waits longest for its acknowledgement was sent too often. -/
def Ctx.timedOut (cfg : Config) (c : Ctx) : Bool :=
  match c.s.sent with
  | [] => false
  | b :: _ => decide ((c.m.buf b).attempts > cfg.retransCount)

theorem driveSocket_cases (env : Env) (c : Ctx) :
    ((driveSocket cfg env c).1 = false ∧ c.timedOut cfg = false ∧
        Steady c (driveSocket cfg env c).2) ∨
      ((driveSocket cfg env c).1 = true ∧ c.timedOut cfg = true ∧
        Gone c (driveSocket cfg env c).2) := by
  unfold driveSocket Ctx.timedOut
  cases c.s.sent with
  | nil => exact .inl ⟨rfl, rfl, (Quiet.driveOutgoing cfg env _ c).steady⟩
  | cons b rest =>
    dsimp only
    split
    · rename_i hlate
      exact .inr ⟨rfl, decide_eq_true hlate, destroy_gone c 4⟩
    · rename_i hlate
      left
      split
      · have hresend : Quiet c (resendPacket b c) := Quiet.of_same rfl rfl rfl rfl
        exact ⟨rfl, decide_eq_false hlate, hresend.steady⟩
      · exact ⟨rfl, decide_eq_false hlate, (Quiet.driveOutgoing cfg env _ c).steady⟩

/-! ## 3. The tables -/

/-- **The tables are consistent**: each socket of the pool is at most once in one of them, they do
not overflow, and `pendingAccepts` counts the sockets that can be accepted. -/
structure TablesConsistent (allocated : Nat) (t : Tables) : Prop where
  avail : t.world.m.availSocketTable.Nodup
  active : t.world.m.socketTable.Nodup
  apart : ∀ i ∈ t.world.m.availSocketTable, i ∉ t.world.m.socketTable
  availLe : t.world.m.availSocketTable.length ≤ allocated
  activeLe : t.world.m.socketTable.length ≤ allocated
  pending : t.world.m.pendingAccepts =
    t.world.m.socketTable.countP fun i => (t.world.sock i).counted

/-- The invariant: every socket is free, the user's, or to be accepted. -/
structure Settled (allocated : Nat) (t : Tables) : Prop where
  avail : t.world.m.availSocketTable.Nodup
  active : t.world.m.socketTable.Nodup
  owned : t.owned.Nodup
  free : ∀ i ∈ t.world.m.availSocketTable, i ∉ t.owned ∧ i ∉ t.world.m.socketTable
  accepted : ∀ i ∈ t.owned, (t.world.sock i).pendingAccept = false
  known : ∀ i ∈ t.world.m.socketTable, i ∈ t.owned ∨ (t.world.sock i).pendingAccept = true
  waiting : ∀ i, (t.world.sock i).pendingAccept = true → i ∈ t.world.m.socketTable
  availLt : ∀ i ∈ t.world.m.availSocketTable, i < allocated
  ownedLt : ∀ i ∈ t.owned, i < allocated
  activeLt : ∀ i ∈ t.world.m.socketTable, i < allocated
  waits : ∀ i, (t.world.sock i).Waits
  self : ∀ i, (t.world.sock i).self = i
  pending : t.world.m.pendingAccepts =
    t.world.m.socketTable.countP fun i => (t.world.sock i).counted

/-- A list of different sockets of the pool. -/
theorem length_le_allocated {n : Nat} (hnodup : l.Nodup) (hlt : ∀ i ∈ l, i < n) : l.length ≤ n := by
  have hsubset : l ⊆ List.range n := fun i hi => mem_range.mpr (hlt i hi)
  have hlength := (hnodup.subperm hsubset).length_le
  rwa [length_range] at hlength

theorem Settled.consistent {n : Nat} {t : Tables} (h : Settled n t) : TablesConsistent n t where
  avail := h.avail
  active := h.active
  apart i hi := (h.free i hi).2
  availLe := length_le_allocated h.avail h.availLt
  activeLe := length_le_allocated h.active h.activeLt
  pending := h.pending

/-- One element of a list is put in place of another. -/
theorem perm_set {k x : Nat} (h : l[k]? = some i) : (i :: l.set k x).Perm (x :: l) := by
  induction l generalizing k with
  | nil => cases h
  | cons a l ih =>
    cases k with
    | zero =>
      obtain rfl : a = i := by simpa using h
      exact List.Perm.swap x a l
    | succ k =>
      have hrest := ih (k := k) (by simpa using h)
      exact ((List.Perm.swap a i _).trans (hrest.cons a)).trans (List.Perm.swap x a l)

/-- `makeInactive` takes the socket out. -/
theorem swapRemove_perm (hi : i ∈ l) : (i :: swapRemove l i).Perm l := by
  unfold swapRemove
  split
  · rename_i hnone
    exact absurd hi (idxOf?_eq_none_iff.mp hnone)
  · rename_i k hk
    have hget : l[k]? = some i := by
      obtain ⟨hlt, heq, -⟩ := findIdx?_eq_some_iff_getElem.mp hk
      rw [getElem?_eq_getElem hlt]
      simpa using heq
    obtain rfl | ⟨front, x, rfl⟩ := eq_nil_or_concat l
    · cases hget
    · have hlast : (front.concat x).getLastD 0 = x := by simp
      rw [hlast]
      rw [concat_eq_append] at hget ⊢
      obtain ⟨hlt, -⟩ := List.getElem?_eq_some_iff.mp hget
      rw [length_append, length_singleton] at hlt
      by_cases hk : k < front.length
      · rw [set_append_left _ _ hk, dropLast_concat]
        rw [getElem?_append_left hk] at hget
        exact (perm_set hget).trans (perm_append_singleton x front).symm
      · obtain rfl : k = front.length := by omega
        obtain rfl : x = i := by simpa using hget
        rw [set_append_right _ _ le_rfl, Nat.sub_self, set_cons_zero, dropLast_concat]
        exact (perm_append_singleton x front).symm

theorem swapRemove_of_not_mem (hi : i ∉ l) : swapRemove l i = l := by
  have hnone : l.idxOf? i = none := idxOf?_eq_none_iff.mpr hi
  rw [swapRemove, hnone]

section

variable {n i : Nat} {t : Tables} {c' : Ctx}

/-- A list in which only the socket `i` may be counted differently. -/
theorem countP_update {l : List Nat} (hnodup : l.Nodup) (sock : Nat → TcpSocket) (s : TcpSocket) :
    (l.countP fun j => (update sock i s j).counted) +
        (if i ∈ l then (sock i).counted.toNat else 0) =
      (l.countP fun j => (sock j).counted) + if i ∈ l then s.counted.toNat else 0 := by
  induction l with
  | nil => rfl
  | cons a l ih =>
    obtain ⟨hnot, hrest⟩ := nodup_cons.mp hnodup
    have hrest := ih hrest
    by_cases hai : a = i
    · subst hai
      rw [if_neg hnot, if_neg hnot] at hrest
      rw [if_pos mem_cons_self, if_pos mem_cons_self, countP_cons, countP_cons, update_self]
      cases s.counted <;> cases (sock a).counted <;> simp at hrest ⊢ <;> omega
    · have hmem : i ∈ a :: l ↔ i ∈ l := by
        rw [mem_cons]
        exact or_iff_right fun h => hai h.symm
      rw [countP_cons, countP_cons, update_of_ne hai]
      simp only [hmem]
      omega

theorem all_update {P : Nat → TcpSocket → Prop} {sock : Nat → TcpSocket} {s : TcpSocket}
    (hs : P i s) (h : ∀ j, P j (sock j)) : ∀ j, P j (update sock i s j) :=
  (forall_update_iff sock P).mpr ⟨hs, fun j _ => h j⟩

/-- **A routine that counts.** -/
theorem Settled.steady (h : Settled n t) (hs : Steady (t.world.ctx i) c')
    (hi : (t.world.sock i).pendingAccept = true → i ∈ t.world.m.socketTable) :
    Settled n { t with world := t.world.put i c' } := by
  have htable : c'.m.socketTable = t.world.m.socketTable := hs.table
  have havail : c'.m.availSocketTable = t.world.m.availSocketTable := hs.avail
  have hself : c'.s.self = i := hs.self.trans (h.self i)
  have hpending : c'.s.pendingAccept = (t.world.sock i).pendingAccept := hs.pending
  have hsame (j : Nat) : (update t.world.sock i c'.s j).pendingAccept =
      (t.world.sock j).pendingAccept := by
    by_cases hj : j = i
    · subst hj
      rw [update_self]
      exact hpending
    · rw [update_of_ne hj]
  refine ⟨havail ▸ h.avail, htable ▸ h.active, h.owned, ?_, ?_, ?_, ?_, ?_, h.ownedLt, ?_, ?_, ?_,
    ?_⟩ <;> dsimp only [World.put]
  · rw [havail, htable]
    exact h.free
  · intro j hj
    rw [hsame]
    exact h.accepted j hj
  · intro j hj
    rw [hsame]
    exact h.known j (htable ▸ hj)
  · intro j hj
    rw [htable]
    rw [hsame] at hj
    exact h.waiting j hj
  · rw [havail]
    exact h.availLt
  · rw [htable]
    exact h.activeLt
  · exact all_update (P := fun _ s => s.Waits) (hs.waits (h.waits i)) h.waits
  · exact all_update (P := fun j s => s.self = j) hself h.self
  · have hcount := hs.count (h.waits i)
    have hupdate := countP_update (i := i) h.active t.world.sock c'.s
    have hold := h.pending
    rw [htable]
    by_cases hmem : i ∈ t.world.m.socketTable
    · rw [if_pos hmem, if_pos hmem] at hupdate
      dsimp only [World.ctx] at hcount
      omega
    · rw [if_neg hmem, if_neg hmem] at hupdate
      have hno : (t.world.sock i).pendingAccept = false :=
        Bool.eq_false_iff.mpr fun hp => hmem (hi hp)
      have h1 : (t.world.sock i).counted = false := by rw [TcpSocket.counted, hno]; rfl
      have h2 : c'.s.counted = false := by rw [TcpSocket.counted, hpending, hno]; rfl
      dsimp only [World.ctx] at hcount
      rw [h1, h2] at hcount
      omega

/-- **A socket that is destroyed**, when it is not counted. -/
theorem Settled.gone (h : Settled n t) (hg : Gone (t.world.ctx i) c')
    (hcounted : (t.world.sock i).counted = false) :
    Settled n { t with world := t.world.put i c' } := by
  have hself : c'.s.self = i := hg.self.trans (h.self i)
  have htable : c'.m.socketTable = swapRemove t.world.m.socketTable i := by
    rw [hg.table]
    dsimp only [World.ctx]
    rw [h.self i]
  have havail : c'.m.availSocketTable = if (t.world.sock i).pendingAccept then
      i :: t.world.m.availSocketTable else t.world.m.availSocketTable := by
    rw [hg.avail]
    dsimp only [World.ctx]
    rw [h.self i]
    rfl
  have hcount : c'.m.pendingAccepts = t.world.m.pendingAccepts := hg.pendingAccepts
  -- what is left of the table
  have hnodup : (swapRemove t.world.m.socketTable i).Nodup := by
    by_cases hmem : i ∈ t.world.m.socketTable
    · exact (nodup_cons.mp ((swapRemove_perm hmem).nodup_iff.mpr h.active)).2
    · rw [swapRemove_of_not_mem hmem]
      exact h.active
  have hleft (j : Nat) : j ∈ swapRemove t.world.m.socketTable i ↔
      j ∈ t.world.m.socketTable ∧ j ≠ i := by
    by_cases hmem : i ∈ t.world.m.socketTable
    · have hperm := swapRemove_perm hmem
      have hnot := (nodup_cons.mp (hperm.nodup_iff.mpr h.active)).1
      rw [← hperm.mem_iff, mem_cons]
      constructor
      · intro hj
        exact ⟨.inr hj, fun heq => hnot (heq ▸ hj)⟩
      · rintro ⟨hj | hj, hne⟩
        · exact absurd hj hne
        · exact hj
    · rw [swapRemove_of_not_mem hmem]
      exact ⟨fun hj => ⟨hj, fun heq => hmem (heq ▸ hj)⟩, And.left⟩
  have hnone : (update t.world.sock i c'.s i).pendingAccept = false := by
    rw [update_self]
    exact hg.pending
  refine ⟨?_, htable ▸ hnodup, h.owned, ?_, ?_, ?_, ?_, ?_, h.ownedLt, ?_, ?_, ?_, ?_⟩ <;>
    dsimp only [World.put]
  · rw [havail]
    split
    · rename_i hp
      exact nodup_cons.mpr ⟨fun hfree => (h.free i hfree).2 (h.waiting i hp), h.avail⟩
    · exact h.avail
  · intro j hj
    rw [htable, hleft]
    rw [havail] at hj
    split at hj
    · rename_i hp
      rcases mem_cons.mp hj with rfl | hj
      · refine ⟨fun hown => ?_, fun hin => hin.2 rfl⟩
        exact absurd (h.accepted j hown) (by rw [hp]; decide)
      · exact ⟨(h.free j hj).1, fun hin => (h.free j hj).2 hin.1⟩
    · exact ⟨(h.free j hj).1, fun hin => (h.free j hj).2 hin.1⟩
  · intro j hj
    by_cases hji : j = i
    · rw [hji]
      exact hnone
    · rw [update_of_ne hji]
      exact h.accepted j hj
  · intro j hj
    rw [htable, hleft] at hj
    rw [update_of_ne hj.2]
    exact h.known j hj.1
  · intro j hp
    by_cases hji : j = i
    · rw [hji, hnone] at hp
      cases hp
    · rw [update_of_ne hji] at hp
      rw [htable, hleft]
      exact ⟨h.waiting j hp, hji⟩
  · intro j hj
    rw [havail] at hj
    split at hj
    · rename_i hp
      rcases mem_cons.mp hj with rfl | hj
      · exact h.activeLt j (h.waiting j hp)
      · exact h.availLt j hj
    · exact h.availLt j hj
  · intro j hj
    rw [htable, hleft] at hj
    exact h.activeLt j hj.1
  · refine all_update (P := fun _ s => s.Waits) (fun hp => ?_) h.waits
    rw [update_self] at hnone
    exact nomatch hnone.symm.trans hp
  · exact all_update (P := fun j s => s.self = j) hself h.self
  · have hupdate := countP_update (i := i) hnodup t.world.sock c'.s
    have hnot : i ∉ swapRemove t.world.m.socketTable i := fun hin => ((hleft i).mp hin).2 rfl
    rw [if_neg hnot, if_neg hnot] at hupdate
    have hall : (t.world.m.socketTable.countP fun j => (t.world.sock j).counted) =
        (swapRemove t.world.m.socketTable i).countP fun j => (t.world.sock j).counted := by
      by_cases hmem : i ∈ t.world.m.socketTable
      · rw [← (swapRemove_perm hmem).countP_eq, countP_cons, hcounted]
        rfl
      · rw [swapRemove_of_not_mem hmem]
    rw [hcount, h.pending, htable, hall]
    omega

/-! ## 4. The calls -/

/-- A socket that is not to be accepted may change its state. -/
theorem Steady.of_accepted {c : Ctx} (hp : c.s.pendingAccept = false)
    (htables : c'.m.tables = c.m.tables) (hself : c'.s.self = c.s.self)
    (hpending : c'.s.pendingAccept = c.s.pendingAccept) : Steady c c' := by
  obtain ⟨htable, hrest⟩ := Prod.mk.inj htables
  obtain ⟨havail, hcount⟩ := Prod.mk.inj hrest
  have hp' : c'.s.pendingAccept = false := hpending.trans hp
  refine ⟨htable, havail, hself, hpending, fun _ h => absurd h (by rw [hp']; decide), fun _ => ?_⟩
  simp [TcpSocket.counted, hp, hp', hcount]

theorem closeLocal_steady (cfg : Config) {c : Ctx} (hp : c.s.pendingAccept = false) :
    Steady c (closeLocal cfg c) := by
  have hset (st : State) : Steady c (c.setState st) := Steady.of_accepted hp rfl rfl rfl
  unfold closeLocal
  split
  · exact hset .closed
  · exact hset .closed
  · exact hset .closed
  · exact hset .closed
  · split
    · exact (Quiet.refl c).steady
    · rename_i st _
      split
      · exact (hset st).trans (Quiet.enqueueConnect cfg _ _).steady
      · exact hset st

theorem isCloseDone_cases (late : Bool) (c : Ctx) :
    isCloseDone late c = (false, c) ∨ Gone c (isCloseDone late c).2 := by
  unfold isCloseDone
  split
  · exact .inr (destroy_gone c 0)
  · split
    · exact .inr (destroy_gone c 2)
    · exact .inl rfl

theorem makeActive_tables (m : Shared) (i : Nat) :
    (makeActive m i).availSocketTable = m.availSocketTable ∧
      (makeActive m i).pendingAccepts = m.pendingAccepts := by
  unfold makeActive
  split <;> exact ⟨rfl, rfl⟩

section

variable (h : Settled n t)
include h

/-- **A socket of the user is put into the table.** -/
theorem Settled.activate (hown : i ∈ t.owned)
    (htables : c'.m.tables = (makeActive t.world.m i).tables) (hself : c'.s.self = i)
    (hpending : c'.s.pendingAccept = false) :
    Settled n { t with world := t.world.put i c' } := by
  obtain ⟨htable, hrest⟩ := Prod.mk.inj htables
  obtain ⟨havail, hcount⟩ := Prod.mk.inj hrest
  obtain ⟨havail', hcount'⟩ := makeActive_tables t.world.m i
  rw [havail'] at havail
  rw [hcount'] at hcount
  have hold := h.accepted i hown
  have hquiet : Settled n { t with world := t.world.put i ⟨c'.s, t.world.m⟩ } := by
    refine h.steady (Steady.of_accepted hold rfl (hself.trans (h.self i).symm) ?_) ?_
    · exact hpending.trans hold.symm
    · exact fun hp => absurd hp (by rw [hold]; decide)
  by_cases hmem : i ∈ t.world.m.socketTable
  · rw [makeActive, if_pos hmem] at htable
    refine ⟨havail ▸ hquiet.avail, htable ▸ hquiet.active, hquiet.owned, ?_, hquiet.accepted, ?_,
      ?_, ?_, hquiet.ownedLt, ?_, hquiet.waits, hquiet.self, ?_⟩ <;> dsimp only [World.put]
    · rw [havail, htable]
      exact hquiet.free
    · rw [htable]
      exact hquiet.known
    · rw [htable]
      exact hquiet.waiting
    · rw [havail]
      exact hquiet.availLt
    · rw [htable]
      exact hquiet.activeLt
    · rw [hcount, htable]
      exact hquiet.pending
  · rw [makeActive, if_neg hmem] at htable
    have hin (j : Nat) : j ∈ t.world.m.socketTable ++ [i] ↔ j ∈ t.world.m.socketTable ∨ j = i := by
      rw [mem_append, mem_singleton]
    refine ⟨havail ▸ hquiet.avail, ?_, hquiet.owned, ?_, hquiet.accepted, ?_, ?_, ?_,
      hquiet.ownedLt, ?_, hquiet.waits, hquiet.self, ?_⟩ <;> dsimp only [World.put]
    · rw [htable]
      exact h.active.append (nodup_singleton i) (by simpa using hmem)
    · intro j hj
      rw [havail] at hj
      rw [htable, hin]
      refine ⟨(h.free j hj).1, fun hor => ?_⟩
      rcases hor with hor | rfl
      · exact (h.free j hj).2 hor
      · exact (h.free j hj).1 hown
    · intro j hj
      rw [htable, hin] at hj
      rcases hj with hj | rfl
      · exact hquiet.known j hj
      · exact .inl hown
    · intro j hp
      rw [htable, hin]
      exact .inl (hquiet.waiting j hp)
    · rw [havail]
      exact h.availLt
    · intro j hj
      rw [htable, hin] at hj
      rcases hj with hj | rfl
      · exact h.activeLt j hj
      · exact h.ownedLt j hown
    · rw [hcount, htable, countP_append]
      have hlast : ([i].countP fun j => (update t.world.sock i c'.s j).counted) = 0 := by
        simp [TcpSocket.counted, hpending]
      rw [hlast]
      exact hquiet.pending

theorem Settled.connect (cfg : Config) (hown : i ∈ t.owned) (srcPort host dstPort : Nat) :
    Settled n { t with world := t.world.on i (connect2 cfg srcPort host dstPort) } := by
  have hself : (t.world.ctx i).s.self = i := h.self i
  unfold World.on connect2
  split
  · exact h.steady (Quiet.refl _).steady (h.waiting i)
  · obtain ⟨out, hs, -⟩ := enqueueConnect_s cfg (t.world.ctx i).s.self
      { s := { (t.world.ctx i).s with
          srcPort := srcPort, dstHost := host, dstPort := dstPort, state := .synSent }
        m := makeActive (t.world.ctx i).m (t.world.ctx i).s.self }
    refine h.activate hown ?_ ?_ ?_
    · rw [enqueueConnect_tables, hself]
      rfl
    · rw [hs]
      exact hself
    · rw [hs]
      exact h.accepted i hown

theorem Settled.listen (hown : i ∈ t.owned) (srcPort recvBufferSize : Nat) :
    Settled n { t with world := Mtcp.listen srcPort recvBufferSize i t.world } := by
  unfold Mtcp.listen
  split
  · exact h
  · split
    · exact h
    · exact h.activate hown rfl (h.self i) (h.accepted i hown)

/-- The next free socket is initialised, and out of the free list. -/
theorem Settled.taken {rest : List Nat} (iss : UInt32)
    (hfree : t.world.m.availSocketTable = i :: rest) :
    i ∉ t.world.m.socketTable ∧ i ∉ t.owned ∧ i < n ∧
      Settled n { t with
        world := (reinit i iss { t.world with
          m := { t.world.m with availSocketTable := rest } }) } := by
  have havail := h.avail
  rw [hfree] at havail
  obtain ⟨hnot, hrest⟩ := nodup_cons.mp havail
  have hi : i ∈ t.world.m.availSocketTable := by
    rw [hfree]
    exact mem_cons_self
  have hsub : ∀ j ∈ rest, j ∈ t.world.m.availSocketTable := fun j hj => by
    rw [hfree]
    exact mem_cons_of_mem i hj
  obtain ⟨hown, htable⟩ := h.free i hi
  refine ⟨htable, hown, h.availLt i hi, hrest, h.active, h.owned, fun j hj => h.free j (hsub j hj),
    ?_, ?_, ?_, fun j hj => h.availLt j (hsub j hj), h.ownedLt, h.activeLt, ?_, ?_, ?_⟩ <;>
    dsimp only [reinit]
  · intro j hj
    by_cases hji : j = i
    · exact absurd (hji ▸ hj) hown
    · rw [update_of_ne hji]
      exact h.accepted j hj
  · intro j hj
    have hji : j ≠ i := fun heq => htable (heq ▸ hj)
    rw [update_of_ne hji]
    exact h.known j hj
  · intro j hp
    by_cases hji : j = i
    · rw [hji, update_self] at hp
      cases hp
    · rw [update_of_ne hji] at hp
      exact h.waiting j hp
  · exact all_update (P := fun _ s => s.Waits)
      nofun h.waits
  · exact all_update (P := fun j s => s.self = j) rfl h.self
  · have hupdate := countP_update (i := i) h.active t.world.sock (freshSocket i iss)
    rw [if_neg htable, if_neg htable] at hupdate
    have hold := h.pending
    simp only [Shared.setBuf]
    omega

theorem Settled.getSocket (iss : UInt32) :
    Settled n ⟨Mtcp.getSocket iss t.world, t.world.m.availSocketTable.take 1 ++ t.owned⟩ := by
  unfold Mtcp.getSocket
  split
  · rename_i hnil
    rw [hnil]
    exact h
  · rename_i i rest hfree
    obtain ⟨htable, hown, hlt, hs⟩ := h.taken iss hfree
    rw [hfree, take_succ_cons, take_zero, singleton_append]
    have hnot : i ∉ rest := by
      have havail := h.avail
      rw [hfree] at havail
      exact (nodup_cons.mp havail).1
    refine ⟨hs.avail, hs.active, nodup_cons.mpr ⟨hown, h.owned⟩, ?_, ?_, ?_, hs.waiting,
      hs.availLt, ?_, hs.activeLt, hs.waits, hs.self, hs.pending⟩
    · intro j hj
      obtain ⟨hno, hout⟩ := hs.free j hj
      refine ⟨fun hin => ?_, hout⟩
      rcases mem_cons.mp hin with rfl | hin
      · exact hnot hj
      · exact hno hin
    · intro j hj
      rcases mem_cons.mp hj with rfl | hj
      · dsimp only [reinit]
        rw [update_self]
        rfl
      · exact hs.accepted j hj
    · intro j hj
      exact (hs.known j hj).imp_left (mem_cons_of_mem i)
    · intro j hj
      rcases mem_cons.mp hj with rfl | hj
      · exact hlt
      · exact h.ownedLt j hj

/-- A socket that is nowhere goes to the free list. -/
theorem Settled.giveBack (hlt : i < n) (hown : i ∉ t.owned)
    (htable : i ∉ t.world.m.socketTable) (hnot : i ∉ t.world.m.availSocketTable) :
    Settled n { t with
      world := { t.world with
        m := { t.world.m with availSocketTable := i :: t.world.m.availSocketTable } } } := by
  refine ⟨nodup_cons.mpr ⟨hnot, h.avail⟩, h.active, h.owned, ?_, h.accepted, h.known,
    h.waiting, ?_, h.ownedLt, h.activeLt, h.waits, h.self, h.pending⟩
  · intro j hj
    rcases mem_cons.mp hj with rfl | hj
    · exact ⟨hown, htable⟩
    · exact h.free j hj
  · intro j hj
    rcases mem_cons.mp hj with rfl | hj
    · exact hlt
    · exact h.availLt j hj

/-- The user gives a socket away that is out of the table. -/
theorem Settled.disown (hout : i ∉ t.world.m.socketTable) :
    Settled n { t with owned := t.owned.erase i } := by
  have hless (j : Nat) (hj : j ∈ t.owned.erase i) : j ∈ t.owned := mem_of_mem_erase hj
  refine ⟨h.avail, h.active, h.owned.erase i, ?_, ?_, ?_, h.waiting, h.availLt, ?_, h.activeLt,
    h.waits, h.self, h.pending⟩
  · exact fun j hj => ⟨fun hin => (h.free j hj).1 (hless j hin), (h.free j hj).2⟩
  · exact fun j hj => h.accepted j (hless j hj)
  · intro j hj
    rcases h.known j hj with hin | hp
    · refine .inl ((mem_erase_of_ne fun heq => ?_).mpr hin)
      exact hout (heq ▸ hj)
    · exact .inr hp
  · exact fun j hj => h.ownedLt j (hless j hj)

theorem Settled.freeSocket (hown : i ∈ t.owned) (hout : i ∉ t.world.m.socketTable) :
    Settled n ⟨{ t.world with m := Mtcp.freeSocket n i t.world.m }, t.owned.erase i⟩ := by
  have hdisowned := h.disown hout
  unfold Mtcp.freeSocket
  split
  · exact hdisowned
  · refine hdisowned.giveBack (h.ownedLt i hown) (fun hin => ?_) hout ?_
    · exact (h.owned.mem_erase_iff.mp hin).1 rfl
    · exact fun hin => (h.free i hin).1 hown

/-- **A SYN at a listening socket**: a free socket is now to be accepted, or it is free again. -/
theorem Settled.processSyn (cfg : Config) (iss : UInt32) (memory : Bool) (g : Segment) (i : Nat) :
    Settled n { t with world := Mtcp.processSyn cfg iss memory g i t.world } := by
  unfold Mtcp.processSyn
  split
  · exact h
  · rename_i j rest hfree
    obtain ⟨htable, hown, hlt, hs⟩ := h.taken iss hfree
    have hfresh : (reinit j iss
        { t.world with m := { t.world.m with availSocketTable := rest } }).sock j =
          freshSocket j iss := by
      dsimp only [reinit]
      rw [update_self]
    have hnot : j ∉ rest := by
      have havail := h.avail
      rw [hfree] at havail
      exact (nodup_cons.mp havail).1
    set w1 := reinit j iss { t.world with
      m := { t.world.m with availSocketTable := rest } } with hw1
    have hactive : w1.m.socketTable = t.world.m.socketTable := rfl
    have hrest : w1.m.availSocketTable = rest := rfl
    dsimp only
    split
    · -- the new socket is put into the table
      set c0 : Ctx :=
        { s := { (w1.ctx j).s.setMaxEnqueueSize cfg g with
            pendingAccept := true, srcPort := (t.world.sock i).srcPort, dstHost := g.srcHost
            dstPort := g.srcPort, state := .synRecved, ackNum := g.seqnum + 1
            rcv := (setRecvBuffer (t.world.sock i).rcv.rcvBufSize memory (w1.sock j).rcv).2 }
          m := makeActive (w1.ctx j).m j } with hc0
      obtain ⟨out, hq, -⟩ := enqueueConnect_s cfg i c0
      have htables := enqueueConnect_tables cfg i c0
      obtain ⟨htab, hmore⟩ := Prod.mk.inj htables
      obtain ⟨hav, hcount⟩ := Prod.mk.inj hmore
      obtain ⟨hav', hcount'⟩ := makeActive_tables w1.m j
      have hadd : (makeActive w1.m j).socketTable = t.world.m.socketTable ++ [j] := by
        rw [makeActive, hactive, if_neg htable]
      have hav : (enqueueConnect cfg i c0).m.availSocketTable = rest := hav.trans (hav'.trans hrest)
      have htab : (enqueueConnect cfg i c0).m.socketTable = t.world.m.socketTable ++ [j] :=
        htab.trans hadd
      have hcount : (enqueueConnect cfg i c0).m.pendingAccepts = t.world.m.pendingAccepts :=
        hcount.trans hcount'
      have hself : (enqueueConnect cfg i c0).s.self = j := by
        rw [hq]
        exact hs.self j
      have hp : (enqueueConnect cfg i c0).s.pendingAccept = true := by rw [hq]
      have hst : (enqueueConnect cfg i c0).s.state = .synRecved := by rw [hq]
      have hin (k : Nat) :
          k ∈ t.world.m.socketTable ++ [j] ↔ k ∈ t.world.m.socketTable ∨ k = j := by
        rw [mem_append, mem_singleton]
      refine ⟨?_, ?_, h.owned, ?_, ?_, ?_, ?_, ?_, h.ownedLt, ?_, ?_, ?_, ?_⟩ <;>
        dsimp only [World.on, World.put]
      · rw [hav]
        exact hs.avail
      · rw [htab]
        exact h.active.append (nodup_singleton j) (by simpa using htable)
      · intro k hk
        rw [hav] at hk
        rw [htab, hin]
        refine ⟨(hs.free k hk).1, fun hor => ?_⟩
        rcases hor with hor | rfl
        · exact (hs.free k hk).2 hor
        · exact hnot hk
      · intro k hk
        have hkj : k ≠ j := fun heq => hown (heq ▸ hk)
        rw [update_of_ne hkj]
        exact hs.accepted k hk
      · intro k hk
        rw [htab, hin] at hk
        by_cases hkj : k = j
        · rw [hkj, update_self]
          exact .inr hp
        · rw [update_of_ne hkj]
          exact hs.known k (hk.resolve_right hkj)
      · intro k hk
        rw [htab, hin]
        by_cases hkj : k = j
        · exact .inr hkj
        · rw [update_of_ne hkj] at hk
          exact .inl (hs.waiting k hk)
      · rw [hav]
        exact hs.availLt
      · intro k hk
        rw [htab, hin] at hk
        rcases hk with hk | rfl
        · exact h.activeLt k hk
        · exact hlt
      · exact all_update (P := fun _ s => s.Waits) (fun _ => .inl hst) hs.waits
      · exact all_update (P := fun k s => s.self = k) hself hs.self
      · have hupdate := countP_update (i := j) h.active w1.sock (enqueueConnect cfg i c0).s
        rw [if_neg htable, if_neg htable] at hupdate
        have hlast : ([j].countP fun k =>
            (update w1.sock j (enqueueConnect cfg i c0).s k).counted) = 0 := by
          simp [TcpSocket.counted, State.reached]
        have hold : w1.m.pendingAccepts =
            w1.m.socketTable.countP fun k => (w1.sock k).counted := hs.pending
        have hsame : w1.m.pendingAccepts = t.world.m.pendingAccepts := rfl
        rw [hcount, htab, countP_append, hlast]
        rw [hactive, hsame] at hold
        have hfinal : t.world.m.pendingAccepts = t.world.m.socketTable.countP fun k =>
            (update w1.sock j (enqueueConnect cfg i c0).s k).counted := by omega
        exact hfinal
    · -- there was no memory: the socket is free again
      have hd := destroy_gone { w1.ctx j with s := { (w1.ctx j).s with
        rcv := (setRecvBuffer (t.world.sock i).rcv.rcvBufSize memory (w1.sock j).rcv).2 } } 3
      have hgone := hs.gone ⟨hd.table, hd.avail, hd.pendingAccepts, hd.self, hd.pending⟩
        (by rw [hfresh]; rfl)
      have hsame : (w1.sock j).pendingAccept = false := by rw [hfresh]; rfl
      refine hgone.giveBack hlt hown ?_ ?_ <;> dsimp only [World.put]
      · rw [hd.table]
        dsimp only [World.ctx]
        rw [hs.self j, hactive, swapRemove_of_not_mem htable]
        exact htable
      · rw [hd.avail, if_neg]
        · exact hnot
        · exact fun hp => nomatch hsame.symm.trans hp

theorem Settled.accept (expired : Nat → Bool) :
    Settled n ⟨(Mtcp.accept expired t.world).2,
      (Mtcp.accept expired t.world).1.toList ++ t.owned⟩ := by
  unfold Mtcp.accept
  -- the sweep destroys a socket that is not counted
  set w1 := match t.world.m.socketTable.find? fun i =>
        (t.world.sock i).pendingAccept && !(t.world.sock i).state.reached && expired i with
    | none => t.world
    | some i => t.world.on i destroy with hw1
  have hsweep : Settled n { t with world := w1 } := by
    rw [hw1]
    split
    · exact h
    · rename_i i hfind
      have hno := find?_some hfind
      simp only [and_eq_true, not_eq_true'] at hno
      have hcounted : (t.world.sock i).counted = false := by
        rw [TcpSocket.counted, hno.1.2, Bool.and_false]
      have hd := destroy_gone (t.world.ctx i) 0
      exact h.gone ⟨hd.table, hd.avail, hd.pendingAccepts, hd.self, hd.pending⟩ hcounted
  dsimp only
  split
  · exact hsweep
  · split
    · exact hsweep
    · rename_i hpos i hfind
      have hcounted := find?_some hfind
      have hmem := mem_of_find?_eq_some hfind
      have hp : (w1.sock i).pendingAccept = true := by
        rw [TcpSocket.counted, and_eq_true] at hcounted
        exact hcounted.1
      have hown : i ∉ t.owned := fun hin => by
        have hno := hsweep.accepted i hin
        rw [hp] at hno
        cases hno
      refine ⟨hsweep.avail, hsweep.active, nodup_cons.mpr ⟨hown, h.owned⟩, ?_, ?_, ?_, ?_,
        hsweep.availLt, ?_, hsweep.activeLt, ?_, ?_, ?_⟩ <;>
        dsimp only [World.on, World.put, World.ctx]
      · intro j hj
        refine ⟨fun hin => ?_, (hsweep.free j hj).2⟩
        rcases mem_cons.mp hin with rfl | hin
        · exact (hsweep.free j hj).2 hmem
        · exact (hsweep.free j hj).1 hin
      · intro j hj
        by_cases hji : j = i
        · rw [hji, update_self]
        · rw [update_of_ne hji]
          exact hsweep.accepted j ((mem_cons.mp hj).resolve_left hji)
      · intro j hj
        by_cases hji : j = i
        · rw [hji]
          exact .inl mem_cons_self
        · rw [update_of_ne hji]
          exact (hsweep.known j hj).imp_left (mem_cons_of_mem i)
      · intro j hj
        by_cases hji : j = i
        · rw [hji, update_self] at hj
          cases hj
        · rw [update_of_ne hji] at hj
          exact hsweep.waiting j hj
      · intro j hj
        rcases mem_cons.mp hj with rfl | hj
        · exact hsweep.activeLt j hmem
        · exact h.ownedLt j hj
      · exact all_update (P := fun _ s => s.Waits)
          (fun hno => absurd hno Bool.false_ne_true) hsweep.waits
      · exact all_update (P := fun j s => s.self = j) (hsweep.self i) hsweep.self
      · have hupdate := countP_update (i := i) hsweep.active w1.sock
          { w1.sock i with pendingAccept := false }
        have hnew : ({ w1.sock i with pendingAccept := false } : TcpSocket).counted = false := rfl
        have hold := hsweep.pending
        dsimp only at hold hupdate
        rw [if_pos hmem, if_pos hmem, hcounted, hnew, toNat_true, toNat_false] at hupdate
        omega

end

end

/-! ## 5. Runs -/

/-- No socket that is counted is destroyed in this round of `drivePackets2`. -/
def driveCalm (cfg : Config) (env : Nat → Env) : List Nat → World → Prop
  | [], _ => True
  | i :: rest, w =>
    if (w.ctx i).timedOut cfg then (w.sock i).counted = false
    else driveCalm cfg env rest (w.put i (driveSocket cfg (env i) (w.ctx i)).2)

/-- **No connection that could be accepted ends before it is**: it is not reset by the peer, and
does not time out. -/
def AcceptedInTime (cfg : Config) (t : Tables) : TableCall → Prop
  | .process _ g => ∀ i, t.world.owner g = some i →
      (t.world.sock i).counted = true → (t.world.sock i).resetBy g = false
  | .drivePackets2 env => driveCalm cfg env t.world.m.socketTable t.world
  | _ => True

section

variable {cfg : Config} {n : Nat} {t : Tables}

theorem Settled.process (h : Settled n t) (luck : Luck) (g : Segment)
    (hok : AcceptedInTime cfg t (.process luck g)) :
    Settled n { t with world := Mtcp.process cfg luck g t.world } := by
  unfold Mtcp.process
  split
  · exact h
  · rename_i i howner
    unfold process2World
    split
    · split
      · exact h.processSyn cfg luck.iss luck.memory g i
      · exact h
    · obtain hs | ⟨hreset, hg⟩ := process2_cases cfg luck.resolves g (t.world.ctx i)
      · exact h.steady hs (h.waiting i)
      · refine h.gone hg (Bool.eq_false_iff.mpr fun hcounted => ?_)
        have hreached : (t.world.sock i).state.reached = true := by
          rw [TcpSocket.counted, and_eq_true] at hcounted
          exact hcounted.2
        have hno := hok i howner hcounted
        have hyes : (t.world.sock i).resetBy g = true := hreset hreached
        rw [hyes] at hno
        cases hno

theorem Settled.driveTable (env : Nat → Env) (table : List Nat) {w : World} {owned : List Nat}
    (h : Settled n ⟨w, owned⟩) (hok : driveCalm cfg env table w) :
    Settled n ⟨Mtcp.driveTable cfg env table w, owned⟩ := by
  induction table generalizing w with
  | nil => exact h
  | cons i rest ih =>
    unfold driveCalm at hok
    unfold Mtcp.driveTable
    obtain ⟨hflag, htime, hs⟩ | ⟨hflag, htime, hg⟩ := driveSocket_cases cfg (env i) (w.ctx i)
    · rw [if_neg (by rw [htime]; decide)] at hok
      rw [if_neg (by rw [hflag]; decide)]
      exact ih (h.steady hs (h.waiting i)) hok
    · rw [if_pos htime] at hok
      rw [if_pos hflag]
      exact h.gone hg hok

theorem Settled.onOwn (h : Settled n t) (i : Nat) (f : World → World)
    (hf : i ∈ t.owned → Settled n { t with world := f t.world }) : Settled n (t.onOwn i f) := by
  unfold Tables.onOwn
  split
  · rename_i hown
    exact hf hown
  · exact h

/-- **A call keeps the tables.** -/
theorem Settled.step (h : Settled n t) {call : TableCall} (hok : AcceptedInTime cfg t call) :
    Settled n (tableStep cfg n t call).2 := by
  cases call with
  | getSocket iss => exact h.getSocket iss
  | freeSocket i =>
    unfold tableStep stepTables
    dsimp only
    split
    · rename_i hown
      exact h.freeSocket hown.1 hown.2.2
    · exact h
  | connect i srcPort host dstPort =>
    exact h.onOwn i (fun w => w.on i (connect2 cfg srcPort host dstPort)) fun hown =>
      h.connect cfg hown srcPort host dstPort
  | listen i srcPort recvBufferSize =>
    exact h.onOwn i (Mtcp.listen srcPort recvBufferSize i) fun hown =>
      h.listen hown srcPort recvBufferSize
  | process luck g => exact h.process luck g hok
  | accept expired => exact h.accept expired
  | close i =>
    exact h.onOwn i (fun w => w.on i (closeLocal cfg)) fun hown =>
      h.steady (closeLocal_steady cfg (h.accepted i hown)) (h.waiting i)
  | isCloseDone i late =>
    refine h.onOwn i (fun w => w.on i fun c => (Mtcp.isCloseDone late c).2) fun hown => ?_
    obtain heq | hg := isCloseDone_cases late (t.world.ctx i)
    · unfold World.on
      dsimp only
      rw [heq]
      exact h.steady (Quiet.refl _).steady (h.waiting i)
    · refine h.gone hg ?_
      rw [TcpSocket.counted, h.accepted i hown]
      rfl
  | send i userBuf =>
    exact h.onOwn i (fun w => w.on i fun c => (Mtcp.send cfg userBuf c).2) fun _ =>
      h.steady (Quiet.send cfg userBuf _).steady (h.waiting i)
  | recv i userBufLen resolves =>
    exact h.onOwn i (fun w => w.on i fun c => (Mtcp.recv cfg resolves userBufLen c).2) fun _ =>
      h.steady (Quiet.recv cfg resolves userBufLen _).steady (h.waiting i)
  | drivePackets2 env => exact h.driveTable env _ hok

/-- All sockets are free at the start. -/
theorem settled_init (sockets xmitBufs : Nat) : Settled sockets ⟨init sockets xmitBufs, []⟩ where
  avail := nodup_reverse.mpr nodup_range
  active := nodup_nil
  owned := nodup_nil
  free _ _ := ⟨not_mem_nil, not_mem_nil⟩
  accepted _ hi := nomatch hi
  known _ hi := nomatch hi
  waiting _ hi := nomatch hi
  availLt _ hi := mem_range.mp (mem_reverse.mp hi)
  ownedLt _ hi := nomatch hi
  activeLt _ hi := nomatch hi
  waits _ hp := nomatch hp
  self _ := rfl
  pending := rfl

end

/-- **In every run in which connections are accepted in time, the tables are consistent.** -/
theorem tables_consistent (cfg : Config) (sockets xmitBufs : Nat) (calls : List TableCall)
    (hok : Guarded (tableStep cfg sockets) (AcceptedInTime cfg) ⟨init sockets xmitBufs, []⟩ calls) :
    Along (tableStep cfg sockets)
      (fun t _ r => TablesConsistent sockets t ∧ TablesConsistent sockets r.2)
      ⟨init sockets xmitBufs, []⟩ calls :=
  Along.of_invariant (fun _ _ h hok => h.step hok)
    (fun _ _ h hok => ⟨h.consistent, (h.step hok).consistent⟩) calls _
    (settled_init sockets xmitBufs) hok

/-! ## 6. A connection that is reset before it is accepted -/

/-- A user listens, and a peer connects. -/
def connected : List TableCall :=
  [.getSocket 0, .listen 1 4000 0, .process ⟨100, true, true⟩ (bare 5000 0 .justSyn),
    .drivePackets2 quickly, .process ⟨100, true, true⟩ (bare 5001 101 .justAck)]

theorem connected_consistent :
    Along (tableStep someConfig 2)
      (fun t _ r => TablesConsistent 2 t ∧ TablesConsistent 2 r.2) ⟨init 2 1, []⟩ connected := by
  refine tables_consistent someConfig 2 1 connected ⟨trivial, trivial, ?_, trivial, ?_, trivial⟩
  · intro i howner hcounted
    have hone : (run (tableStep someConfig 2) ⟨init 2 1, []⟩
        [.getSocket 0, .listen 1 4000 0]).world.owner (bare 5000 0 .justSyn) = some 1 := by
      decide +kernel
    cases hone.symm.trans howner
    cases hcounted
  · intro i _ _
    unfold TcpSocket.resetBy
    rfl

/-- **The peer resets the connection, and it is still counted.** -/
theorem reset_before_accept :
    ¬ TablesConsistent 2 (run (tableStep someConfig 2) ⟨init 2 1, []⟩
      (connected ++ [.process ⟨100, true, true⟩
        (bare 5001 101 { CodeBits.justAck with rst := true })])) := by
  intro h
  have hpending := h.pending
  cases hpending

end SdcBoot.Mtcp
