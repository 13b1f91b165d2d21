/-
# mTCP: a TcpBuffer is in one place

A buffer of the pool is free, held by a caller, or on a ring of a socket; a `connectPacket` is on a
ring or not.  Nothing in a TcpBuffer says which, so a buffer that is queued twice is in two places.

Most routines only move buffers, from a ring to another or to the free list: `Moves` says what that
leaves as it was, one lemma per routine.  What else happens is that `enqueue` is called for a
`connectPacket` without a look at where it is.  An ACK that is asked for while the FIN waits for its
acknowledgement, a close while the SYN does, a second SYN at a socket that listens
(`connectPacket_on_two_rings`): each queues a buffer that is on a ring.  In all runs without such a
moment every buffer is in one place (`buffers_apart_run`).
-/
import SdcBoot.Mtcp.Close
import Mathlib.Algebra.BigOperators.Group.Finset.Sigma
import Mathlib.Algebra.Order.BigOperators.Group.Finset

namespace SdcBoot.Mtcp

open Lib List Function

/-! ## 1. Where buffers are -/

/-- How often a buffer is on the free list. -/
def Shared.idle (m : Shared) : BufId → Nat
  | .pool n => m.xmitBuffers.count n
  | _ => 0

/-- How often a buffer is on the rings of a socket. -/
def TcpSocket.holds (s : TcpSocket) (b : BufId) : Nat := s.outgoing.count b + s.sent.count b

/-- A routine of one socket moves buffers: those of the pool between its rings and the free list,
and the others off its rings. -/
structure Moves (c c' : Ctx) : Prop where
  pool : ∀ n, c'.s.holds (.pool n) + c'.m.idle (.pool n) = c.s.holds (.pool n) + c.m.idle (.pool n)
  other : ∀ b, (∀ n, b ≠ .pool n) → c'.s.holds b ≤ c.s.holds b
  self : c'.s.self = c.s.self

theorem Moves.refl (c : Ctx) : Moves c c := ⟨fun _ => rfl, fun _ _ => le_rfl, rfl⟩

variable {c : Ctx} {b : BufId} {cfg : Config} {n : Nat} {g : Segment} {w : World} {S : Finset Nat}

theorem Moves.trans {c1 c2 : Ctx} (h1 : Moves c c1) (h2 : Moves c1 c2) : Moves c c2 :=
  ⟨fun n => (h2.pool n).trans (h1.pool n), fun b hb => (h2.other b hb).trans (h1.other b hb),
    h2.self.trans h1.self⟩

/-- The rings and the free list are as they were. -/
theorem Moves.of_same {c' : Ctx} (hout : c'.s.outgoing = c.s.outgoing)
    (hsent : c'.s.sent = c.s.sent) (hfree : c'.m.xmitBuffers = c.m.xmitBuffers)
    (hself : c'.s.self = c.s.self) : Moves c c' := by
  refine ⟨fun n => ?_, fun b _ => ?_, hself⟩
  · simp only [TcpSocket.holds, Shared.idle, hout, hsent, hfree]
  · simp only [TcpSocket.holds, hout, hsent, le_refl]

@[simp] theorem setBuf_xmitBuffers (c : Ctx) (b : BufId) (f : TcpBuffer → TcpBuffer) :
    (c.setBuf b f).m.xmitBuffers = c.m.xmitBuffers := rfl

@[simp] theorem shared_setBuf_xmitBuffers (m : Shared) (b : BufId) (f : TcpBuffer → TcpBuffer) :
    (m.setBuf b f).xmitBuffers = m.xmitBuffers := rfl

theorem makeActive_xmitBuffers (m : Shared) (i : Nat) :
    (makeActive m i).xmitBuffers = m.xmitBuffers := by
  unfold makeActive
  split <;> rfl

/-- A buffer of the pool goes to the free list. -/
theorem idle_returnXmitBuf (m : Shared) (b : BufId) (n : Nat) :
    (m.returnXmitBuf b).idle (.pool n) = m.idle (.pool n) + [b].count (.pool n) := by
  cases b with
  | pool k =>
    by_cases h : k = n
    · subst h
      simp [Shared.returnXmitBuf, Shared.idle]
    · simp [Shared.returnXmitBuf, Shared.idle, h]
  | connect i => simp [Shared.returnXmitBuf]
  | stack => simp [Shared.returnXmitBuf]

theorem idle_returnAll (l : List BufId) (m : Shared) (n : Nat) :
    (l.foldl Shared.returnXmitBuf m).idle (.pool n) = m.idle (.pool n) + l.count (.pool n) := by
  induction l generalizing m with
  | nil => rfl
  | cons b l ih =>
    rw [foldl_cons, ih, idle_returnXmitBuf, add_assoc, ← count_append]
    rfl

/-! ## 2. What each routine does with them -/

theorem clearQueues_moves (c : Ctx) : Moves c (clearQueues c) := by
  refine ⟨fun n => ?_, fun b _ => ?_, rfl⟩
  · unfold clearQueues
    simp only [TcpSocket.holds, idle_returnAll, count_nil]
    omega
  · simp [clearQueues, TcpSocket.holds]

theorem destroy_moves (c : Ctx) : Moves c (destroy c) :=
  (clearQueues_moves c).trans (Moves.of_same rfl rfl rfl rfl)

/-- The loop takes packets from the front, and returns those of the pool. -/
theorem removeLoop_counts (target : UInt32) (l : List BufId) (c : Ctx) :
    (removeLoop target l c).s.sent <:+ l ∧ ∀ n,
      (removeLoop target l c).s.sent.count (.pool n) + (removeLoop target l c).m.idle (.pool n) =
        l.count (.pool n) + c.m.idle (.pool n) := by
  induction l generalizing c with
  | nil => exact ⟨suffix_rfl, fun n => rfl⟩
  | cons p rest ih =>
    unfold removeLoop
    split
    · obtain ⟨hsuffix, hcount⟩ := ih
        { c with m := (c.m.setBuf p fun x => { x with inUse := false }).returnXmitBuf p }
      refine ⟨hsuffix.trans (suffix_cons p rest), fun n => ?_⟩
      have hcons : (p :: rest).count (.pool n) = [p].count (.pool n) + rest.count (.pool n) := by
        rw [← count_append, singleton_append]
      rw [hcount n, idle_returnXmitBuf, hcons]
      simp only [Shared.idle, shared_setBuf_xmitBuffers]
      omega
    · exact ⟨suffix_rfl, fun n => rfl⟩

theorem removeSentPackets_moves (target : UInt32) (c : Ctx) :
    Moves c (removeSentPackets target c) := by
  obtain ⟨sent, old, hs⟩ := removeSentPackets_s target c
  obtain ⟨hsuffix, hcount⟩ := removeLoop_counts target c.s.sent c
  have hout : (removeSentPackets target c).s.outgoing = c.s.outgoing := by rw [hs]
  refine ⟨fun n => ?_, fun b _ => ?_, by rw [hs]⟩
  · have h := hcount n
    unfold TcpSocket.holds
    rw [hout, add_assoc]
    unfold removeSentPackets
    rw [h, add_assoc]
  · unfold TcpSocket.holds
    rw [hout]
    exact Nat.add_le_add_left (hsuffix.sublist.count_le b) _

theorem takeAck_moves (g : Segment) (c : Ctx) : Moves c (takeAck g c) := by
  set c1 := if c.s.sent = [] then c else removeSentPackets g.acknum c with hc1
  have hmid : Moves c c1 := by
    rw [hc1]
    split
    · exact Moves.refl c
    · exact removeSentPackets_moves g.acknum c
  have htake : takeAck g c =
      if c1.s.sent = [] then { c1 with s := { c1.s with remoteWindow := g.window } } else c1 := rfl
  rw [htake]
  split
  · exact hmid.trans (Moves.of_same rfl rfl rfl rfl)
  · exact hmid

/-- `sendPacket` leaves the rings alone. -/
theorem sendPacket_rings (cfg : Config) (resolves : Bool) (b : BufId) (c : Ctx) :
    (sendPacket cfg resolves b c).2.s.outgoing = c.s.outgoing ∧
      (sendPacket cfg resolves b c).2.s.sent = c.s.sent ∧
      (sendPacket cfg resolves b c).2.m.xmitBuffers = c.m.xmitBuffers ∧
      (sendPacket cfg resolves b c).2.s.self = c.s.self := by
  unfold sendPacket
  split
  · split
    · exact ⟨rfl, rfl, rfl, rfl⟩
    · exact ⟨rfl, rfl, rfl, rfl⟩
  · split
    · exact ⟨rfl, rfl, rfl, rfl⟩
    · exact ⟨rfl, rfl, rfl, rfl⟩

theorem sendPacket_moves (cfg : Config) (resolves : Bool) (b : BufId) (c : Ctx) :
    Moves c (sendPacket cfg resolves b c).2 := by
  obtain ⟨hout, hsent, hfree, hself⟩ := sendPacket_rings cfg resolves b c
  exact Moves.of_same hout hsent hfree hself

theorem sendPureAck_moves (cfg : Config) (resolves : Bool) (c : Ctx) :
    Moves c (sendPureAck cfg resolves c) := by
  unfold sendPureAck
  split
  · exact Moves.refl c
  · obtain ⟨hout, hsent, hfree, hself⟩ := sendPacket_rings cfg resolves .stack
      ({ c with s := { c.s with forcePureAck := true } }.setBuf .stack stackBuffer)
    exact Moves.of_same hout hsent hfree hself

theorem probe_moves (cfg : Config) (resolves : Bool) (c : Ctx) : Moves c (probe cfg resolves c) := by
  set c1 : Ctx := { c with s := { c.s with forceProbe := true } } with hc1
  have hack := sendPureAck_moves cfg resolves c1
  have hstart : Moves c c1 := Moves.of_same rfl rfl rfl rfl
  exact (hstart.trans hack).trans (Moves.of_same rfl rfl rfl rfl)

theorem recv_moves (cfg : Config) (resolves : Bool) (userBufLen : Nat) (c : Ctx) :
    Moves c (recv cfg resolves userBufLen c).2 := by
  unfold recv
  split
  · exact Moves.refl c
  · split
    · exact Moves.refl c
    · split
      · refine Moves.trans ?_ (sendPureAck_moves cfg resolves _)
        exact Moves.of_same rfl rfl rfl rfl
      · exact Moves.of_same rfl rfl rfl rfl

/-- The packet that was sent goes to `sent`, or to the free list. -/
theorem afterSend_moves {rest : List BufId}
    (hout : c.s.outgoing = b :: rest) : Moves c (c.afterSend b) := by
  have hcount : ∀ x, c.s.outgoing.count x = [b].count x + rest.count x := by
    intro x
    rw [hout, ← count_append, singleton_append]
  have htail : c.s.outgoing.tail = rest := by rw [hout]; rfl
  unfold Ctx.afterSend
  dsimp only
  split
  · refine ⟨fun n => ?_, fun x _ => ?_, rfl⟩
    · simp only [TcpSocket.holds, hcount, idle_returnXmitBuf, setBuf_s, htail]
      simp only [Shared.idle, shared_setBuf_xmitBuffers, setBuf_xmitBuffers]
      omega
    · simp only [TcpSocket.holds, hcount, setBuf_s, htail]
      omega
  · refine ⟨fun n => ?_, fun x _ => ?_, rfl⟩
    · simp only [TcpSocket.holds, hcount, setBuf_s, htail, count_append]
      simp only [Shared.idle, setBuf_xmitBuffers]
      omega
    · simp only [TcpSocket.holds, hcount, setBuf_s, htail, count_append]
      omega

theorem driveOutgoing_moves (cfg : Config) (env : Env) (fuel : Nat) (c : Ctx) :
    Moves c (driveOutgoing cfg env fuel c) := by
  induction fuel generalizing c with
  | zero => exact Moves.refl c
  | succ fuel ih =>
    unfold driveOutgoing
    split
    · exact Moves.refl c
    · rename_i b rest hout
      split
      · split
        · split
          · exact probe_moves cfg env.resolves c
          · exact Moves.refl c
        · have hsend := sendPacket_moves cfg env.resolves b c
          dsimp only
          split
          · exact hsend
          · have hout1 : (sendPacket cfg env.resolves b c).2.s.outgoing = b :: rest := by
              rw [(sendPacket_rings cfg env.resolves b c).1, hout]
            exact (hsend.trans (afterSend_moves hout1)).trans (ih _)
      · exact Moves.refl c

theorem driveSocket_moves (cfg : Config) (env : Env) (c : Ctx) :
    Moves c (driveSocket cfg env c).2 := by
  unfold driveSocket
  split
  · exact driveOutgoing_moves cfg env _ c
  · split
    · exact (destroy_moves c).trans (Moves.of_same rfl rfl rfl rfl)
    · split
      · exact Moves.of_same rfl rfl rfl rfl
      · exact driveOutgoing_moves cfg env _ c

theorem processPacketData_moves (cfg : Config) (data : List UInt8) (c : Ctx) :
    Moves c (processPacketData cfg data c).2 := by
  unfold processPacketData
  split
  · exact Moves.of_same rfl rfl rfl rfl
  · split
    · split
      · exact Moves.of_same rfl rfl rfl rfl
      · exact Moves.refl c
    · split
      · exact Moves.of_same rfl rfl rfl rfl
      · exact Moves.refl c

theorem changeState_moves (g : Segment) (current : Bool) (c : Ctx) :
    Moves c (changeState g current c).2 := by
  unfold changeState
  split
  all_goals first
    | exact Moves.refl c
    | exact Moves.of_same rfl rfl rfl rfl
    | skip
  · split
    · exact Moves.of_same rfl rfl rfl rfl
    · exact Moves.refl c
  · split
    · exact Moves.of_same rfl rfl rfl rfl
    · exact Moves.refl c
  · split
    · split
      · exact Moves.of_same rfl rfl rfl rfl
      · exact Moves.of_same rfl rfl rfl rfl
    · exact clearQueues_moves c
  · split
    · exact Moves.of_same rfl rfl rfl rfl
    · split
      · exact Moves.of_same rfl rfl rfl rfl
      · exact Moves.refl c
  · split
    · exact Moves.of_same rfl rfl rfl rfl
    · exact Moves.refl c
  · split
    · exact Moves.of_same rfl rfl rfl rfl
    · exact Moves.refl c

theorem processAccepted_moves (cfg : Config) (g : Segment) (c : Ctx) :
    Moves c (processAccepted cfg g c).2 := by
  unfold processAccepted
  dsimp only
  split
  · exact (takeAck_moves g c).trans (changeState_moves g _ _)
  · have hdata := (takeAck_moves g c).trans (processPacketData_moves cfg g.data (takeAck g c))
    split
    · exact hdata
    · exact hdata.trans (changeState_moves g _ _)

theorem processOther_moves (cfg : Config) (resolves : Bool) (g : Segment) (c : Ctx) :
    Moves c (processOther cfg resolves g c).2 := by
  unfold processOther
  split
  · split
    · exact (destroy_moves c).trans (Moves.of_same rfl rfl rfl rfl)
    · exact Moves.refl c
  · split
    · exact processAccepted_moves cfg g c
    · exact sendPureAck_moves cfg resolves c

/-! ## 3. Queueing -/

/-- A packet is queued exactly when `enqueue` says so. -/
theorem enqueue_rings (cfg : Config) (b : BufId) (c : Ctx) :
    (enqueue cfg b c).2.s.sent = c.s.sent ∧
      (enqueue cfg b c).2.m.xmitBuffers = c.m.xmitBuffers ∧
      (enqueue cfg b c).2.s.self = c.s.self ∧
      (enqueue cfg b c).2.s.outgoing =
        if (enqueue cfg b c).1 = TCP_RC_GOOD then c.s.outgoing ++ [b] else c.s.outgoing := by
  unfold enqueue
  split
  · exact ⟨rfl, rfl, rfl, rfl⟩
  · split
    · exact ⟨rfl, rfl, rfl, rfl⟩
    · split
      · exact ⟨rfl, rfl, rfl, rfl⟩
      · exact ⟨rfl, rfl, rfl, rfl⟩

theorem enqueue_holds (cfg : Config) (b : BufId) (c : Ctx) (x : BufId) :
    (enqueue cfg b c).2.s.holds x =
      c.s.holds x + if (enqueue cfg b c).1 = TCP_RC_GOOD then [b].count x else 0 := by
  obtain ⟨hsent, -, -, hout⟩ := enqueue_rings cfg b c
  unfold TcpSocket.holds
  rw [hsent, hout]
  split
  · rw [count_append]
    omega
  · omega

/-- In ESTABLISHED a packet that is not too long is queued while there is room. -/
theorem enqueue_good (hst : c.s.state = .established)
    (hlen : (c.m.buf (.pool n)).dataLen ≤ c.s.maxEnqueueSize)
    (hroom : c.s.outgoing.length < cfg.ringSize) : (enqueue cfg (.pool n) c).1 = TCP_RC_GOOD := by
  unfold enqueue
  rw [if_neg (by simp [TcpSocket.refuses, hst]), if_neg (not_lt.mpr hlen),
    if_neg (ne_of_lt hroom)]

variable {m : Shared} {i : Nat}

theorem getXmitBuf_some {m' : Shared} (h : m.getXmitBuf = (some n, m')) :
    m.xmitBuffers = n :: m'.xmitBuffers ∧ m' = { m with xmitBuffers := m'.xmitBuffers } := by
  unfold Shared.getXmitBuf at h
  split at h
  · cases h
  · rename_i k rest hfree
    obtain ⟨hk, rfl⟩ := Prod.mk.inj h
    cases hk
    exact ⟨hfree, rfl⟩

/-- A round of the loop in `send` takes a buffer from the free list to `outgoing`. -/
theorem sendRound_moves (data : List UInt8) (hst : c.s.state = .established)
    (hlen : data.length ≤ c.s.maxEnqueueSize) (hroom : c.s.outgoing.length < cfg.ringSize)
    (hget : c.m.getXmitBuf = (some n, m)) :
    Moves c (enqueue cfg (.pool n)
      ({ c with m := m }.setBuf (.pool n) fun b => b.withData data)).2 := by
  obtain ⟨hfree, -⟩ := getXmitBuf_some hget
  set c1 : Ctx := { c with m := m }.setBuf (.pool n) fun b => b.withData data with hc1
  have hgood : (enqueue cfg (.pool n) c1).1 = TCP_RC_GOOD := by
    refine enqueue_good hst ?_ hroom
    rw [hc1, setBuf_self]
    exact hlen
  obtain ⟨-, hfree1, hself, -⟩ := enqueue_rings cfg (.pool n) c1
  refine ⟨fun k => ?_, fun b hb => ?_, hself⟩
  · rw [enqueue_holds, if_pos hgood]
    simp only [Shared.idle, hfree1, hfree]
    have hsame : c1.s.holds (.pool k) = c.s.holds (.pool k) := rfl
    have hbuf : c1.m.xmitBuffers = m.xmitBuffers := rfl
    rw [hsame, hbuf]
    by_cases hk : n = k
    · subst hk
      simp
      omega
    · simp [hk]
  · rw [enqueue_holds, if_pos hgood, count_singleton, beq_eq_false_iff_ne.mpr (hb n).symm]
    exact le_rfl

theorem sendLoop_moves (cfg : Config) (fuel : Nat) (userBuf : List UInt8) (c : Ctx)
    (hst : c.s.state = .established) : Moves c (sendLoop cfg fuel userBuf c).2 := by
  induction fuel generalizing userBuf c with
  | zero => exact Moves.refl c
  | succ fuel ih =>
    unfold sendLoop
    split
    · exact Moves.refl c
    · split
      · rename_i hroom
        split
        · exact Moves.refl c
        · rename_i n m hget
          have hround := sendRound_moves (userBuf.take c.s.maxEnqueueSize) hst (by simp) hroom hget
          refine hround.trans (ih _ _ ?_)
          obtain ⟨out, hs, -⟩ := enqueue_s cfg (.pool n) ({ c with m := m }.setBuf (.pool n)
            fun b => b.withData (userBuf.take c.s.maxEnqueueSize))
          rw [hs]
          exact hst
      · exact Moves.refl c

theorem send_moves (cfg : Config) (userBuf : List UInt8) (c : Ctx) :
    Moves c (send cfg userBuf c).2 := by
  unfold send
  split
  · exact Moves.refl c
  · rename_i hst
    exact sendLoop_moves cfg _ userBuf c (not_not.mp hst)

/-- A SYN without an ACK in SYN_SENT: the queues are emptied. -/
def crossing (cfg : Config) (g : Segment) (c : Ctx) : Ctx :=
  clearQueues { c with s := { c.s.setMaxEnqueueSize cfg g with
    state := .synRecved, ackNum := g.seqnum + 1, seqNum := c.s.seqNum - 1 } }

/-- The segment asks for a packet. -/
def TcpSocket.replies (s : TcpSocket) (cfg : Config) (g : Segment) : Bool :=
  if s.state = .synSent then
    !g.codeBits.rst && g.codeBits.syn && (!g.codeBits.ack || s.ackIsCurrent g)
  else
    s.accepts cfg g &&
      ((g.codeBits.fin && answersFin s.state) || decide (g.data ≠ [] ∧ s.outgoing = []))

/-- The queues are emptied before the packet is queued. -/
def TcpSocket.emptiesFirst (s : TcpSocket) (g : Segment) : Bool :=
  if s.state = .synSent then !g.codeBits.ack else clears (s.ackIsCurrent g) s.state

/-- The socket and the shared part when `process2` has done all but queue a packet. -/
def beforeReply (cfg : Config) (resolves : Bool) (g : Segment) (c : Ctx) : Ctx :=
  if c.s.state = .synSent then
    if !g.codeBits.rst && g.codeBits.syn && !g.codeBits.ack then crossing cfg g c
    else (processSynSent cfg g c).2
  else (processOther cfg resolves g c).2

theorem processOther_reply (cfg : Config) (resolves : Bool) (g : Segment) (c : Ctx) :
    (processOther cfg resolves g c).1 = (c.s.accepts cfg g &&
      ((g.codeBits.fin && answersFin c.s.state) || decide (g.data ≠ [] ∧ c.s.outgoing = []))) := by
  unfold processOther TcpSocket.accepts
  cases hrst : g.codeBits.rst with
  | true =>
    simp only [if_true]
    split <;> rfl
  | false =>
    cases hok : (c.s.ackIsProper g && c.s.seqIsProper g) with
    | false =>
      simp only [Bool.false_eq_true, if_false, Bool.not_false, Bool.true_and]
      rw [hok, Bool.false_and, Bool.false_and]
    | true =>
      simp only [Bool.not_false, Bool.true_and]
      rw [hok, Bool.true_and]
      cases hroom : c.s.hasRoom cfg g.data with
      | false =>
        rw [processAccepted_noRoom hroom]
        rfl
      | true =>
        obtain ⟨c1, ⟨sent, old, win, inc, hc1⟩, hproc⟩ := processAccepted_spec hroom
        rw [hproc, (changeState_spec g (c.s.ackIsCurrent g) c1).1, hc1]
        rfl

/-- **`process2` in two parts**: buffers move, then the `connectPacket` may be queued. -/
theorem process2_eq (cfg : Config) (resolves : Bool) (g : Segment) (c : Ctx) :
    process2 cfg resolves g c =
      if c.s.replies cfg g then enqueueConnect cfg c.s.self (beforeReply cfg resolves g c)
      else beforeReply cfg resolves g c := by
  unfold process2 beforeReply TcpSocket.replies
  by_cases hsyn : c.s.state = .synSent
  · simp only [if_pos hsyn]
    unfold processSynSent
    cases g.codeBits.rst with
    | true => cases c.s.ackIsCurrent g <;> simp
    | false =>
      cases g.codeBits.syn with
      | false => simp
      | true =>
        cases g.codeBits.ack with
        | false => simp [crossing]
        | true => cases c.s.ackIsCurrent g <;> simp
  · simp only [if_neg hsyn]
    rw [processOther_reply]

theorem processSynSent_moves (h : (!g.codeBits.rst && g.codeBits.syn && !g.codeBits.ack) = false) :
    Moves c (processSynSent cfg g c).2 := by
  unfold processSynSent
  split
  · split
    · exact (destroy_moves c).trans (Moves.of_same rfl rfl rfl rfl)
    · exact Moves.refl c
  · rename_i hrst
    split
    · rename_i hsyn
      split
      · split
        · exact (removeSentPackets_moves g.acknum c).trans (Moves.of_same rfl rfl rfl rfl)
        · exact Moves.refl c
      · rename_i hack
        simp [hrst, hsyn, hack] at h
    · exact Moves.refl c

theorem beforeReply_moves (cfg : Config) (resolves : Bool) (g : Segment) (c : Ctx) :
    Moves c (beforeReply cfg resolves g c) := by
  unfold beforeReply
  split
  · split
    · refine Moves.trans ?_ (clearQueues_moves _)
      exact Moves.of_same rfl rfl rfl rfl
    · rename_i h
      exact processSynSent_moves (by simpa using h)
  · exact processOther_moves cfg resolves g c

theorem changeState_rings (g : Segment) (current : Bool) (c : Ctx) :
    (changeState g current c).2.s.outgoing =
        (if clears current c.s.state then [] else c.s.outgoing) ∧
      (changeState g current c).2.s.sent = if clears current c.s.state then [] else c.s.sent := by
  rw [(changeState_spec g current c).2]
  exact ⟨rfl, rfl⟩

theorem takeAck_sent (g : Segment) (c : Ctx) :
    (takeAck g c).s.sent = (removeSentPackets g.acknum c).s.sent := by
  unfold takeAck
  by_cases hnil : c.s.sent = []
  · simp only [if_pos hnil]
    unfold removeSentPackets
    rw [hnil]
    rfl
  · simp only [if_neg hnil]
    split <;> rfl

/-- The rings once an accepted segment is taken. -/
theorem processAccepted_rings (hroom : c.s.hasRoom cfg g.data = true) :
    (processAccepted cfg g c).2.s.outgoing =
        (if clears (c.s.ackIsCurrent g) c.s.state then [] else c.s.outgoing) ∧
      (processAccepted cfg g c).2.s.sent =
        if clears (c.s.ackIsCurrent g) c.s.state then []
        else (removeSentPackets g.acknum c).s.sent := by
  obtain ⟨sent, old, win, hack⟩ := takeAck_s g c
  have hsent : sent = (removeSentPackets g.acknum c).s.sent := by
    rw [← takeAck_sent, hack]
  unfold processAccepted
  dsimp only
  split
  · obtain ⟨h1, h2⟩ := changeState_rings g (c.s.ackIsCurrent g) (takeAck g c)
    rw [h1, h2, hack, ← hsent]
    exact ⟨rfl, rfl⟩
  · rename_i hne
    have hroom1 : (takeAck g c).s.hasRoom cfg g.data = true := by
      rw [hack]
      exact hroom
    rcases processPacketData_s cfg g.data (takeAck g c) with ⟨hdead, -⟩ | ⟨hok, inc, rcv, hs⟩
    · rw [processPacketData_room cfg _ hne, hroom1] at hdead
      cases hdead
    · obtain ⟨h1, h2⟩ := changeState_rings g (c.s.ackIsCurrent g)
        (processPacketData cfg g.data (takeAck g c)).2
      rw [hok]
      simp only [Bool.false_eq_true, if_false, h1, h2]
      rw [hs, hack, ← hsent]
      exact ⟨rfl, rfl⟩

/-- The buffer is on no ring of the socket when the packet is queued: the queues are emptied first,
or it does not wait in `outgoing` and the acknowledgement takes it from `sent`. -/
def Ctx.Free (g : Segment) (c : Ctx) (b : BufId) : Prop :=
  c.s.emptiesFirst g = true ∨ (b ∉ c.s.outgoing ∧ b ∉ (removeSentPackets g.acknum c).s.sent)

theorem beforeReply_holds {resolves : Bool} (hreply : c.s.replies cfg g = true)
    (hfree : c.Free g b) : (beforeReply cfg resolves g c).s.holds b = 0 := by
  unfold Ctx.Free TcpSocket.emptiesFirst at hfree
  unfold TcpSocket.replies at hreply
  unfold beforeReply
  by_cases hsyn : c.s.state = .synSent
  · rw [if_pos hsyn] at hfree hreply ⊢
    simp only [Bool.and_eq_true, Bool.not_eq_true'] at hreply
    obtain ⟨⟨hrst, hset⟩, hcur⟩ := hreply
    cases hack : g.codeBits.ack with
    | false => simp [hrst, hset, crossing, clearQueues, TcpSocket.holds]
    | true =>
      simp only [hack, Bool.not_true, Bool.false_or, Bool.false_eq_true, false_or] at hcur hfree
      obtain ⟨sent, old, hs⟩ := removeSentPackets_s g.acknum c
      have hsent : (removeSentPackets g.acknum c).s.outgoing = c.s.outgoing := by rw [hs]
      simp only [Bool.not_true, Bool.and_false]
      simp only [processSynSent, hrst, hset, hack, hcur, Bool.false_eq_true, if_false, if_true,
        TcpSocket.setMaxEnqueueSize, TcpSocket.holds, hsent]
      rw [count_eq_zero_of_not_mem hfree.1, count_eq_zero_of_not_mem hfree.2]
  · rw [if_neg hsyn] at hfree hreply ⊢
    obtain ⟨hacc, -⟩ := Bool.and_eq_true_iff.mp hreply
    simp only [TcpSocket.accepts, Bool.and_eq_true, Bool.not_eq_true'] at hacc
    obtain ⟨⟨⟨hrst, hack⟩, hseq⟩, hroom⟩ := hacc
    have hother : processOther cfg resolves g c = processAccepted cfg g c := by
      unfold processOther
      simp [hrst, hack, hseq]
    obtain ⟨h1, h2⟩ := processAccepted_rings hroom
    rw [hother, TcpSocket.holds, h1, h2]
    rcases hfree with hclr | ⟨hout, hsent⟩
    · simp [hclr]
    · split
      · simp
      · rw [count_eq_zero_of_not_mem hout, count_eq_zero_of_not_mem hsent]

/-! ## 4. All sockets -/

/-- How often a buffer is on the rings of some sockets. -/
def World.onRings (w : World) (S : Finset Nat) (b : BufId) : Nat := ∑ i ∈ S, (w.sock i).holds b

/-- The buffer is on no ring. -/
def World.Loose (w : World) (b : BufId) : Prop := ∀ i, (w.sock i).holds b = 0

/-- The invariant: outside `S` the rings are empty, each buffer of the pool is in one place, and
each other one on at most one ring. -/
structure Placed (alloc : Nat) (S : Finset Nat) (w : World) : Prop where
  outside : ∀ i ∉ S, ∀ b, (w.sock i).holds b = 0
  pool : ∀ n, w.onRings S (.pool n) + w.m.idle (.pool n) + w.held.count n =
    if n < alloc then 1 else 0
  other : ∀ b, (∀ n, b ≠ .pool n) → w.onRings S b ≤ 1
  self : ∀ i, (w.sock i).self = i

theorem onRings_insert (houtside : ∀ i ∉ S, ∀ b, (w.sock i).holds b = 0) (b : BufId) :
    w.onRings (insert i S) b = w.onRings S b := by
  unfold World.onRings
  by_cases hi : i ∈ S
  · rw [Finset.insert_eq_of_mem hi]
  · rw [Finset.sum_insert hi, houtside i hi b, zero_add]

/-- The set may grow. -/
theorem Placed.enlarge {alloc : Nat} (h : Placed alloc S w) (i : Nat) :
    Placed alloc (insert i S) w := by
  refine ⟨fun j hj => h.outside j fun hno => hj (Finset.mem_insert_of_mem hno), fun n => ?_,
    fun b hb => ?_, h.self⟩
  · rw [onRings_insert h.outside]
    exact h.pool n
  · rw [onRings_insert h.outside]
    exact h.other b hb

/-- What one socket does to the sum. -/
theorem onRings_put (hi : i ∈ S) (c : Ctx) (b : BufId) :
    (w.put i c).onRings S b + (w.sock i).holds b = w.onRings S b + c.s.holds b := by
  unfold World.onRings
  rw [← Finset.add_sum_erase S _ hi, ← Finset.add_sum_erase S (fun j => (w.sock j).holds b) hi]
  have hrest : ∑ j ∈ S.erase i, ((w.put i c).sock j).holds b =
      ∑ j ∈ S.erase i, (w.sock j).holds b := by
    refine Finset.sum_congr rfl fun j hj => ?_
    simp only [World.put, update_of_ne (Finset.ne_of_mem_erase hj)]
  have hself : ((w.put i c).sock i).holds b = c.s.holds b := by
    simp only [World.put, update_self]
  omega

theorem loose_iff
    (houtside : ∀ i ∉ S, ∀ b, (w.sock i).holds b = 0) : w.Loose b ↔ w.onRings S b = 0 := by
  unfold World.Loose World.onRings
  rw [Finset.sum_eq_zero_iff]
  constructor
  · exact fun h i _ => h i
  · intro h i
    by_cases hi : i ∈ S
    · exact h i hi
    · exact houtside i hi b

/-- Every buffer has its place. -/
def Sorted (alloc : Nat) (w : World) : Prop := ∃ S, Placed alloc S w

section

variable {alloc : Nat} {w : World}

variable {i : Nat} {c : Ctx}

/-- A routine of one socket, and what callers hold. -/
theorem Sorted.put (h : Sorted alloc w) (held : List Nat)
    (hpool : ∀ n, c.s.holds (.pool n) + c.m.idle (.pool n) + held.count n =
      (w.sock i).holds (.pool n) + w.m.idle (.pool n) + w.held.count n)
    (hother : ∀ b, (∀ n, b ≠ .pool n) → c.s.holds b ≤ (w.sock i).holds b ∨
      (c.s.holds b ≤ (w.sock i).holds b + 1 ∧ w.Loose b))
    (hself : c.s.self = i) : Sorted alloc { w.put i c with held := held } := by
  obtain ⟨S, hS⟩ := h
  have hS := hS.enlarge i
  have hi : i ∈ insert i S := Finset.mem_insert_self i S
  refine ⟨insert i S, fun j hj b => ?_, fun n => ?_, fun b hb => ?_, fun j => ?_⟩
  · have hji : j ≠ i := fun hno => hj (hno ▸ hi)
    simp only [World.put, update_of_ne hji]
    exact hS.outside j hj b
  · have hput := onRings_put hi c (.pool n) (w := w)
    have hold := hS.pool n
    have hnew := hpool n
    have hsum : ({ w.put i c with held := held } : World).onRings (insert i S) (.pool n) =
        (w.put i c).onRings (insert i S) (.pool n) := rfl
    rw [hsum, ← hold]
    simp only [World.put] at hnew hput ⊢
    omega
  · have hput := onRings_put hi c b (w := w)
    have hold := hS.other b hb
    have hsum : ({ w.put i c with held := held } : World).onRings (insert i S) b =
        (w.put i c).onRings (insert i S) b := rfl
    rcases hother b hb with hle | ⟨hle, hloose⟩
    · omega
    · have hzero := (loose_iff hS.outside).mp hloose
      omega
  · by_cases hji : j = i
    · rw [hji]
      simpa [World.put] using hself
    · simp only [World.put, update_of_ne hji]
      exact hS.self j

theorem Sorted.self (h : Sorted alloc w) (i : Nat) : (w.sock i).self = i := by
  obtain ⟨S, hS⟩ := h
  exact hS.self i

theorem Sorted.moves (h : Sorted alloc w) (hmoves : Moves (w.ctx i) c) :
    Sorted alloc (w.put i c) := by
  refine h.put w.held (fun n => ?_) (fun b hb => .inl (hmoves.other b hb))
    (hmoves.self.trans (h.self i))
  have hpool : c.s.holds (.pool n) + c.m.idle (.pool n) =
      (w.sock i).holds (.pool n) + w.m.idle (.pool n) := hmoves.pool n
  omega

theorem enqueueConnect_moves (cfg : Config) (owner : Nat) (c : Ctx) (b : BufId) :
    (enqueueConnect cfg owner c).s.holds b ≤
        c.s.holds b + (if b = .connect owner then 1 else 0) ∧
      (∀ n, (enqueueConnect cfg owner c).s.holds (.pool n) = c.s.holds (.pool n)) ∧
      (enqueueConnect cfg owner c).m.xmitBuffers = c.m.xmitBuffers ∧
      (enqueueConnect cfg owner c).s.self = c.s.self := by
  have hadd := enqueue_holds cfg (.connect owner)
    (c.setBuf (.connect owner) fun b => { b with dataLen := 0 })
  obtain ⟨-, hfree, hself, -⟩ := enqueue_rings cfg (.connect owner)
    (c.setBuf (.connect owner) fun b => { b with dataLen := 0 })
  refine ⟨?_, fun n => ?_, hfree, hself⟩
  · unfold enqueueConnect
    rw [hadd b]
    refine Nat.add_le_add_left ?_ _
    split
    · by_cases hb : b = .connect owner
      · simp [hb]
      · simp [Ne.symm hb]
    · exact Nat.zero_le _
  · unfold enqueueConnect
    rw [hadd (.pool n)]
    split <;> simp

/-- **A `connectPacket` that is on no ring is queued.** -/
theorem Sorted.enqueueConnect (h : Sorted alloc w) {owner : Nat} (hmoves : Moves (w.ctx i) c)
    (hhere : c.s.holds (.connect owner) = 0)
    (hthere : ∀ j ≠ i, (w.sock j).holds (.connect owner) = 0) :
    Sorted alloc (w.put i (enqueueConnect cfg owner c)) := by
  -- first the buffers move, then the packet is queued
  have h1 := h.moves hmoves
  have hput : w.put i (Mtcp.enqueueConnect cfg owner c) =
      (w.put i c).put i (Mtcp.enqueueConnect cfg owner c) := by
    simp [World.put]
  rw [hput]
  have hctx : (w.put i c).sock i = c.s := by simp [World.put]
  refine h1.put w.held (fun n => ?_) (fun b hb => ?_) ?_
  · obtain ⟨-, hpool, hfree, -⟩ := enqueueConnect_moves cfg owner c (.pool n)
    rw [hpool n, hctx]
    simp only [Shared.idle, hfree]
    rfl
  · obtain ⟨hle, -⟩ := enqueueConnect_moves cfg owner c b
    rw [hctx]
    by_cases hown : b = .connect owner
    · rw [if_pos hown] at hle
      refine .inr ⟨hle, fun j => ?_⟩
      rw [hown]
      by_cases hji : j = i
      · rw [hji, hctx]
        exact hhere
      · simp only [World.put, update_of_ne hji]
        exact hthere j hji
    · rw [if_neg hown] at hle
      exact .inl hle
  · rw [(enqueueConnect_moves cfg owner c .stack).2.2.2, ← hctx]
    exact h1.self i

/-- A socket with empty rings is cleared. -/
theorem Sorted.reinit (h : Sorted alloc w) (iss : UInt32) (avail : List Nat)
    (hempty : ∀ b, (w.sock i).holds b = 0) :
    Sorted alloc (Mtcp.reinit i iss { w with m := { w.m with availSocketTable := avail } }) := by
  have hput : Mtcp.reinit i iss { w with m := { w.m with availSocketTable := avail } } =
      { w.put i ⟨freshSocket i iss, { w.m with availSocketTable := avail }.setBuf (.connect i)
        fun _ => zeroBuffer⟩ with held := w.held } := rfl
  rw [hput]
  refine h.put _ (fun n => ?_) (fun b _ => .inl (Nat.zero_le _)) rfl
  rw [hempty]
  rfl

end

/-! ## 5. The condition -/

/-- **No buffer is queued while it is on a ring.**  Callers enqueue and return the buffers they
hold; a socket is initialised when its rings are empty; and where a `connectPacket` is to be queued,
by `connect`, `close`, a SYN that is answered or a segment that asks for a packet, it is on no ring
by then. -/
def Untangled (cfg : Config) (w : World) : Call → Prop
  | .getSocket _ => ∀ i rest, w.m.availSocketTable = i :: rest → ∀ b, (w.sock i).holds b = 0
  | .connect i _ _ _ => (w.sock i).state = .closed → w.Loose (.connect i)
  | .close i => closeTarget (w.sock i).state ≠ none → (w.sock i).outgoing = [] →
      w.Loose (.connect i)
  | .returnXmitBuf n => n ∈ w.held
  | .enqueue _ n => n ∈ w.held
  | .process _ g => ∀ i, w.owner g = some i →
      ((w.sock i).state = .listen → g.codeBits = CodeBits.justSyn →
        w.Loose (.connect i) ∧
          ∀ j rest, w.m.availSocketTable = j :: rest → ∀ b, (w.sock j).holds b = 0) ∧
      ((w.sock i).state ≠ .listen → (w.sock i).replies cfg g = true →
        (w.ctx i).Free g (.connect i) ∧ ∀ j ≠ i, (w.sock j).holds (.connect i) = 0)
  | _ => True

/-! ## 6. Every call keeps the buffers apart -/

section

variable {alloc : Nat} {cfg : Config} {w : World}

variable {i : Nat}

section

variable (h : Sorted alloc w)
include h

theorem Sorted.close (hok : Untangled cfg w (.close i)) :
    Sorted alloc (w.on i (closeLocal cfg)) := by
  have hstay : ∀ st, Moves (w.ctx i) ((w.ctx i).setState st) :=
    fun st => Moves.of_same rfl rfl rfl rfl
  unfold World.on closeLocal
  split
  iterate 4 exact h.moves (hstay _)
  split
  · exact h.moves (Moves.refl _)
  · rename_i st' htarget
    split
    · rename_i hnil
      have hloose := hok (by
        intro hno
        exact nomatch hno.symm.trans htarget) hnil
      have hself : (w.ctx i).s.self = i := h.self i
      rw [hself]
      exact h.enqueueConnect (hstay st') (hloose i) fun j _ => hloose j
    · exact h.moves (hstay st')

theorem Sorted.connect {srcPort host dstPort : Nat}
    (hok : Untangled cfg w (.connect i srcPort host dstPort)) :
    Sorted alloc (w.on i (connect2 cfg srcPort host dstPort)) := by
  unfold World.on connect2
  split
  · exact h.moves (Moves.refl _)
  · rename_i hst
    have hloose := hok (not_not.mp hst)
    have hself : (w.ctx i).s.self = i := h.self i
    rw [hself]
    exact h.enqueueConnect (Moves.of_same rfl rfl (makeActive_xmitBuffers _ _) rfl) (hloose i)
      fun j _ => hloose j

theorem Sorted.processSyn (iss : UInt32) (memory : Bool) (g : Segment)
    (hloose : w.Loose (.connect i))
    (hempty : ∀ j rest, w.m.availSocketTable = j :: rest → ∀ b, (w.sock j).holds b = 0) :
    Sorted alloc (Mtcp.processSyn cfg iss memory g i w) := by
  unfold Mtcp.processSyn
  split
  · exact h
  · rename_i j rest havail
    have h1 := h.reinit iss rest (hempty j rest havail)
    have hloose1 : ∀ k, ((Mtcp.reinit j iss
        { w with m := { w.m with availSocketTable := rest } }).sock k).holds (.connect i) = 0 := by
      intro k
      by_cases hkj : k = j
      · rw [hkj]
        simp [Mtcp.reinit, freshSocket, TcpSocket.holds]
      · simp only [Mtcp.reinit, update_of_ne hkj]
        exact hloose k
    dsimp only
    split
    · exact h1.enqueueConnect (Moves.of_same rfl rfl (makeActive_xmitBuffers _ _) rfl) (hloose1 j)
        fun k _ => hloose1 k
    · refine h1.moves ?_
      refine Moves.trans ?_ (Moves.trans (destroy_moves _) (Moves.of_same rfl rfl rfl rfl))
      exact Moves.of_same rfl rfl rfl rfl

theorem Sorted.process {luck : Luck}
    (hok : Untangled cfg w (.process luck g)) : Sorted alloc (Mtcp.process cfg luck g w) := by
  unfold Mtcp.process
  split
  · exact h
  · rename_i i howner
    obtain ⟨hlisten, hopen⟩ := hok i howner
    unfold process2World
    split
    · rename_i hst
      split
      · rename_i hsyn
        obtain ⟨hloose, hempty⟩ := hlisten hst hsyn
        exact h.processSyn luck.iss luck.memory g hloose hempty
      · exact h
    · rename_i hst
      unfold World.on
      rw [process2_eq]
      have hmoves := beforeReply_moves cfg luck.resolves g (w.ctx i)
      have hself : (w.ctx i).s.self = i := h.self i
      split
      · rename_i hreply
        obtain ⟨hfree, hthere⟩ := hopen hst hreply
        rw [hself]
        exact h.enqueueConnect hmoves (beforeReply_holds hreply hfree) hthere
      · exact h.moves hmoves

theorem Sorted.driveTable (env : Nat → Env) (table : List Nat) :
    Sorted alloc (Mtcp.driveTable cfg env table w) := by
  induction table generalizing w with
  | nil => exact h
  | cons i rest ih =>
    have hput := h.moves (driveSocket_moves cfg (env i) (w.ctx i))
    unfold Mtcp.driveTable
    dsimp only
    split
    · exact hput
    · exact ih hput

theorem Sorted.getXmitBuf : Sorted alloc (stepWorld cfg w .getXmitBuf) := by
  unfold stepWorld
  dsimp only
  split
  · exact h
  · rename_i n m hget
    obtain ⟨hfree, -⟩ := getXmitBuf_some hget
    have hput : ({ w with m := m, held := n :: w.held } : World) =
        { w.put 0 ⟨w.sock 0, m⟩ with held := n :: w.held } := by
      simp [World.put]
    rw [hput]
    refine h.put _ (fun k => ?_) (fun b _ => .inl le_rfl) (h.self 0)
    simp only [Shared.idle, hfree, count_cons]
    omega

theorem Sorted.returnXmitBuf (hheld : n ∈ w.held) :
    Sorted alloc { w with m := w.m.returnXmitBuf (.pool n), held := w.held.erase n } := by
  have hput : ({ w with m := w.m.returnXmitBuf (.pool n), held := w.held.erase n } : World) =
      { w.put 0 ⟨w.sock 0, w.m.returnXmitBuf (.pool n)⟩ with held := w.held.erase n } := by
    simp [World.put]
  rw [hput]
  refine h.put _ (fun k => ?_) (fun b _ => .inl le_rfl) (h.self 0)
  simp only [idle_returnXmitBuf, count_erase]
  by_cases hk : n = k
  · subst hk
    have hpos := count_pos_iff.mpr hheld
    simp
    omega
  · simp [hk]

theorem Sorted.userEnqueue (hheld : n ∈ w.held) :
    Sorted alloc (Mtcp.userEnqueue cfg i n w) := by
  obtain ⟨-, hfree, hself, -⟩ := enqueue_rings cfg (.pool n) (w.ctx i)
  have hholds := enqueue_holds cfg (.pool n) (w.ctx i)
  refine h.put _ (fun k => ?_) (fun b hb => .inl ?_) (hself.trans (h.self i))
  · rw [hholds]
    simp only [Shared.idle, hfree]
    by_cases hgood : (enqueue cfg (.pool n) (w.ctx i)).1 = TCP_RC_GOOD
    · rw [if_pos hgood, if_pos hgood]
      simp only [count_erase, World.ctx]
      by_cases hk : n = k
      · subst hk
        have hpos := count_pos_iff.mpr hheld
        simp
        omega
      · simp [hk]
    · rw [if_neg hgood, if_neg hgood]
      rfl
  · rw [hholds, count_singleton, beq_eq_false_iff_ne.mpr (hb n).symm]
    simp [World.ctx]

/-- **One call.** -/
theorem sorted_step {call : Call} (hok : Untangled cfg w call) :
    Sorted alloc (stepWorld cfg w call) := by
  have hsame : ∀ (m : Shared), m.xmitBuffers = w.m.xmitBuffers → Sorted alloc { w with m := m } := by
    intro m hm
    have hput : ({ w with m := m } : World) = w.put 0 ⟨w.sock 0, m⟩ := by simp [World.put]
    rw [hput]
    exact h.moves (Moves.of_same rfl rfl hm rfl)
  cases call with
  | getSocket iss =>
    unfold stepWorld getSocket
    dsimp only
    split
    · exact h
    · rename_i i rest havail
      exact h.reinit iss rest (hok i rest havail)
  | freeSocket i => exact hsame _ rfl
  | accept i => exact h.moves (Moves.of_same rfl rfl rfl rfl)
  | setRecvBuffer i size memory => exact h.moves (Moves.of_same rfl rfl rfl rfl)
  | connect i srcPort host dstPort => exact h.connect hok
  | listen i srcPort recvBufferSize =>
    unfold stepWorld Mtcp.listen
    dsimp only
    split
    · exact h
    · split
      · exact h
      · exact h.moves (Moves.of_same rfl rfl (makeActive_xmitBuffers _ _) rfl)
  | shutdownRead i => exact h.moves (Moves.of_same rfl rfl rfl rfl)
  | close i => exact h.close hok
  | destroy i => exact h.moves (destroy_moves _)
  | clearQueues i => exact h.moves (clearQueues_moves _)
  | getXmitBuf => exact h.getXmitBuf
  | returnXmitBuf n => exact h.returnXmitBuf hok
  | fillBuffer n data => exact hsame _ rfl
  | enqueue i n => exact h.userEnqueue hok
  | send i userBuf => exact h.moves (send_moves cfg userBuf _)
  | recv i userBufLen resolves => exact h.moves (recv_moves cfg resolves userBufLen _)
  | process luck g => exact h.process hok
  | drivePackets2 env => exact h.driveTable env _

end

end

/-! ## 7. What is promised, over whole runs -/

/-- The contexts in which `send` calls `enqueue`, and the buffers. -/
def sendQueues (cfg : Config) : Nat → List UInt8 → Ctx → List (Ctx × BufId)
  | 0, _, _ => []
  | fuel + 1, userBuf, c =>
    if userBuf = [] then []
    else if c.s.outgoing.length < cfg.ringSize then
      match c.m.getXmitBuf with
      | (none, _) => []
      | (some n, m) =>
        let c1 := { c with m := m }.setBuf (.pool n) fun b =>
          b.withData (userBuf.take c.s.maxEnqueueSize)
        (c1, .pool n) :: sendQueues cfg fuel (userBuf.drop c.s.maxEnqueueSize)
          (enqueue cfg (.pool n) c1).2
    else []

/-- The moments of a call at which `enqueue` is called: the sockets then, and the buffer. -/
def queuedAt (cfg : Config) (w : World) : Call → List (World × BufId)
  | .connect i _ _ _ => if (w.sock i).state ≠ .closed then [] else [(w, .connect (w.sock i).self)]
  | .close i =>
    if closeTarget (w.sock i).state ≠ none ∧ (w.sock i).outgoing = [] then
      [(w, .connect (w.sock i).self)]
    else []
  | .enqueue _ n => [(w, .pool n)]
  | .send i userBuf =>
    if (w.sock i).state ≠ .established then []
    else (sendQueues cfg w.m.xmitBuffers.length userBuf (w.ctx i)).map fun p =>
      (w.put i p.1, p.2)
  | .process luck g =>
    match w.owner g with
    | none => []
    | some i =>
      if (w.sock i).state = .listen then
        match w.m.availSocketTable with
        | [] => []
        | j :: rest =>
          if g.codeBits = CodeBits.justSyn then
            [(reinit j luck.iss { w with m := { w.m with availSocketTable := rest } }, .connect i)]
          else []
      else if (w.sock i).replies cfg g then
        [(w.put i (beforeReply cfg luck.resolves g (w.ctx i)), .connect (w.sock i).self)]
      else []
  | _ => []

/-- The buffers of the pool on the rings of a socket. -/
def TcpSocket.pooled (s : TcpSocket) : Nat :=
  (s.outgoing ++ s.sent).countP fun b => match b with
    | .pool _ => true
    | _ => false

/-- **What is promised**: no buffer is in two places, and the buffers of the pool that are free, on
rings and held by callers add up to those that were allocated. -/
structure Apart (alloc : Nat) (w : World) : Prop where
  once : ∀ (S : Finset Nat) (b : BufId), w.onRings S b + w.m.idle b ≤ 1
  addUp : ∃ S0 : Finset Nat, ∀ S, S0 ⊆ S →
    w.m.xmitBuffers.length + (∑ i ∈ S, (w.sock i).pooled) + w.held.length = alloc

/-- And no buffer is queued while it is on a ring. -/
def KeptApart (cfg : Config) (alloc : Nat) (w : World) (call : Call) (r : List UInt8 × World) :
    Prop :=
  Apart alloc w ∧ Apart alloc r.2 ∧ ∀ p ∈ queuedAt cfg w call, p.1.Loose p.2

section

variable {alloc : Nat} {cfg : Config} {w : World}

theorem Placed.mono {T : Finset Nat} (h : Placed alloc S w) (hST : S ⊆ T) : Placed alloc T w := by
  have hsum : ∀ b, w.onRings T b = w.onRings S b := fun b =>
    (Finset.sum_subset hST fun i _ hi => h.outside i hi b).symm
  refine ⟨fun i hi => h.outside i fun hno => hi (hST hno), fun n => ?_, fun b hb => ?_, h.self⟩
  · rw [hsum]
    exact h.pool n
  · rw [hsum]
    exact h.other b hb

theorem Sorted.once (h : Sorted alloc w) (S : Finset Nat) (b : BufId) :
    w.onRings S b + w.m.idle b ≤ 1 := by
  obtain ⟨T, hT⟩ := h
  have hT := hT.mono (T := T ∪ S) Finset.subset_union_left
  have hle : w.onRings S b ≤ w.onRings (T ∪ S) b :=
    Finset.sum_le_sum_of_subset Finset.subset_union_right
  cases b with
  | pool n =>
    have hpool := hT.pool n
    split at hpool
    · omega
    · omega
  | connect i =>
    have hother := hT.other (.connect i) (by simp)
    simp only [Shared.idle]
    omega
  | stack =>
    have hother := hT.other .stack (by simp)
    simp only [Shared.idle]
    omega

variable {bound : Nat}

/-- A list of numbers below a bound, counted number by number. -/
theorem length_eq_sum_count {l : List Nat} (h : ∀ n, bound ≤ n → l.count n = 0) :
    l.length = ∑ n ∈ Finset.range bound, l.count n := by
  have hmem : ∀ n ∈ (l : Multiset Nat), n ∈ Finset.range bound := by
    intro n hn
    by_contra hno
    have hzero := h n (by simpa using hno)
    exact absurd (Multiset.mem_coe.mp hn) (count_eq_zero.mp hzero)
  have hsum := Multiset.sum_count_eq_card hmem
  simpa using hsum.symm

theorem pooled_eq_sum {s : TcpSocket} (h : ∀ n, bound ≤ n → s.holds (.pool n) = 0) :
    s.pooled = ∑ n ∈ Finset.range bound, s.holds (.pool n) := by
  -- the numbers of the pool buffers on the rings
  set l := (s.outgoing ++ s.sent).filterMap fun b => match b with
    | .pool n => some n
    | _ => none with hl
  have hcount : ∀ n, l.count n = s.holds (.pool n) := by
    intro n
    rw [hl, count_filterMap, TcpSocket.holds, ← count_append, List.count]
    refine countP_congr fun b _ => ?_
    cases b <;> simp
  have hlength : s.pooled = l.length := by
    rw [hl, length_filterMap_eq_countP, TcpSocket.pooled]
    refine countP_congr fun b _ => ?_
    cases b <;> simp
  rw [hlength, length_eq_sum_count fun n hn => (hcount n).trans (h n hn)]
  exact Finset.sum_congr rfl fun n _ => hcount n

theorem Placed.addUp (h : Placed alloc S w) :
    w.m.xmitBuffers.length + (∑ i ∈ S, (w.sock i).pooled) + w.held.length = alloc := by
  have hzero : ∀ n, alloc ≤ n →
      w.onRings S (.pool n) = 0 ∧ w.m.xmitBuffers.count n = 0 ∧ w.held.count n = 0 := by
    intro n hn
    have hpool := h.pool n
    rw [if_neg (not_lt.mpr hn)] at hpool
    simp only [Shared.idle] at hpool
    omega
  have hrings : ∑ i ∈ S, (w.sock i).pooled =
      ∑ n ∈ Finset.range alloc, w.onRings S (.pool n) := by
    unfold World.onRings
    rw [Finset.sum_comm]
    refine Finset.sum_congr rfl fun i hi => pooled_eq_sum fun n hn => ?_
    exact Finset.sum_eq_zero_iff.mp (hzero n hn).1 i hi
  rw [hrings, length_eq_sum_count fun n hn => (hzero n hn).2.1,
    length_eq_sum_count fun n hn => (hzero n hn).2.2, ← Finset.sum_add_distrib,
    ← Finset.sum_add_distrib]
  calc ∑ n ∈ Finset.range alloc,
        (w.m.xmitBuffers.count n + w.onRings S (.pool n) + w.held.count n)
      = ∑ n ∈ Finset.range alloc, 1 := by
        refine Finset.sum_congr rfl fun n hn => ?_
        have hpool := h.pool n
        rw [if_pos (Finset.mem_range.mp hn)] at hpool
        simp only [Shared.idle] at hpool
        omega
    _ = alloc := by simp

section

variable (h : Sorted alloc w)
include h

theorem Sorted.apart : Apart alloc w := by
  refine ⟨h.once, ?_⟩
  obtain ⟨S, hS⟩ := h
  exact ⟨S, fun T hST => (hS.mono hST).addUp⟩

/-- A buffer that is free, or held by a caller, is on no ring. -/
theorem Sorted.loose (hn : n ∈ w.m.xmitBuffers ∨ n ∈ w.held) :
    w.Loose (.pool n) := by
  obtain ⟨S, hS⟩ := h
  rw [loose_iff hS.outside]
  have hpool := hS.pool n
  simp only [Shared.idle] at hpool
  have hpos : 0 < w.m.xmitBuffers.count n + w.held.count n := by
    rcases hn with hn | hn
    · exact Nat.add_pos_left (count_pos_iff.mpr hn) _
    · exact Nat.add_pos_right _ (count_pos_iff.mpr hn)
  split at hpool
  · omega
  · omega

theorem sendQueues_loose (i : Nat) (fuel : Nat) (userBuf : List UInt8) (c : Ctx)
    (hst : c.s.state = .established) (hmoves : Moves (w.ctx i) c) :
    ∀ p ∈ sendQueues cfg fuel userBuf c, (w.put i p.1).Loose p.2 := by
  induction fuel generalizing userBuf c with
  | zero => simp [sendQueues]
  | succ fuel ih =>
    unfold sendQueues
    split
    · simp
    · split
      · rename_i hroom
        split
        · simp
        · rename_i n m hget
          intro p hp
          rcases mem_cons.mp hp with rfl | hp
          · -- the buffer was free, and no ring has changed
            have hfree := (h.moves hmoves).loose (n := n) (.inl (by
              rw [show (w.put i c).m.xmitBuffers = c.m.xmitBuffers from rfl,
                (getXmitBuf_some hget).1]
              exact mem_cons_self))
            exact hfree
          · have hround := sendRound_moves (userBuf.take c.s.maxEnqueueSize) hst (by simp) hroom
              hget
            refine ih _ _ ?_ (hmoves.trans hround) p hp
            obtain ⟨out, hs, -⟩ := enqueue_s cfg (.pool n) ({ c with m := m }.setBuf (.pool n)
              fun b => b.withData (userBuf.take c.s.maxEnqueueSize))
            rw [hs]
            exact hst
      · simp

/-- **No buffer is queued while it is on a ring.** -/
theorem queuedAt_loose {call : Call} (hok : Untangled cfg w call) :
    ∀ p ∈ queuedAt cfg w call, p.1.Loose p.2 := by
  cases call with
  | connect i srcPort host dstPort =>
    unfold queuedAt
    dsimp only
    split
    · simp
    · rename_i hst
      simp only [mem_singleton, forall_eq, h.self i]
      exact hok (not_not.mp hst)
  | close i =>
    unfold queuedAt
    dsimp only
    split
    · rename_i hclose
      simp only [mem_singleton, forall_eq, h.self i]
      exact hok hclose.1 hclose.2
    · simp
  | enqueue i n =>
    simp only [queuedAt, mem_singleton, forall_eq]
    exact h.loose (.inr hok)
  | send i userBuf =>
    unfold queuedAt
    dsimp only
    split
    · simp
    · rename_i hst
      intro p hp
      obtain ⟨q, hq, rfl⟩ := mem_map.mp hp
      exact sendQueues_loose h i _ userBuf (w.ctx i) (not_not.mp hst) (Moves.refl _) q hq
  | process luck g =>
    unfold queuedAt
    dsimp only
    split
    · simp
    · rename_i i howner
      obtain ⟨hlisten, hopen⟩ := hok i howner
      split
      · rename_i hst
        split
        · simp
        · rename_i j rest havail
          split
          · rename_i hsyn
            obtain ⟨hloose, hempty⟩ := hlisten hst hsyn
            simp only [mem_singleton, forall_eq]
            intro k
            by_cases hkj : k = j
            · rw [hkj]
              simp [Mtcp.reinit, freshSocket, TcpSocket.holds]
            · simp only [Mtcp.reinit, update_of_ne hkj]
              exact hloose k
          · simp
      · rename_i hst
        split
        · rename_i hreply
          obtain ⟨hfree, hthere⟩ := hopen hst hreply
          simp only [mem_singleton, forall_eq, h.self i]
          intro k
          by_cases hki : k = i
          · rw [hki]
            simp only [World.put, update_self]
            exact beforeReply_holds hreply hfree
          · simp only [World.put, update_of_ne hki]
            exact hthere k hki
        · simp
  | _ => simp [queuedAt]

end

end

theorem init_sorted (sockets xmitBufs : Nat) : Sorted xmitBufs (init sockets xmitBufs) := by
  refine ⟨∅, fun i _ b => rfl, fun n => ?_, fun b _ => Nat.zero_le _, fun i => rfl⟩
  simp only [init, World.onRings, Shared.idle]
  simp

/-- **A buffer is in one place**, along every run in which none is queued that is on a ring. -/
theorem buffers_apart_run (cfg : Config) (sockets xmitBufs : Nat) (calls : List Call)
    (hok : Guarded (step cfg) (Untangled cfg) (init sockets xmitBufs) calls) :
    Along (step cfg) (KeptApart cfg xmitBufs) (init sockets xmitBufs) calls :=
  Along.of_invariant (I := Sorted xmitBufs) (fun _ _ h hok => sorted_step h hok)
    (fun _ _ h hok => ⟨h.apart, (sorted_step h hok).apart, queuedAt_loose h hok⟩) calls _
    (init_sorted sockets xmitBufs) hok

/-- A connection is opened, and a byte is queued and sent. -/
def oneByteSent : List Call :=
  [.getSocket 100, .connect 0 4000 7 80, .drivePackets2 quickly,
    .process ⟨0, true, true⟩ (bare 5000 101 { CodeBits.justAck with syn := true }), .getXmitBuf,
    .fillBuffer 1 [0x61], .enqueue 0 1, .drivePackets2 quickly, .getXmitBuf, .returnXmitBuf 0]

theorem opening_kept_apart :
    Along (step someConfig) (KeptApart someConfig 2) (init 1 2) oneByteSent := by
  refine buffers_apart_run someConfig 1 2 _ ⟨fun i rest _ b => rfl, fun _ j => ?_, trivial,
    fun i howner => ?_, trivial, trivial, ?_, trivial, trivial, ?_, trivial⟩
  · by_cases hj : j = 0
    · rw [hj]
      rfl
    · change (Function.update (fun i => freshSocket i 0) 0 (freshSocket 0 100) j).holds _ = 0
      rw [Function.update_of_ne hj]
      rfl
  · have h0 : World.owner (run (step someConfig) (init 1 2) (oneByteSent.take 3))
        (bare 5000 101 { CodeBits.justAck with syn := true }) = some 0 := by decide +kernel
    cases h0.symm.trans howner
    refine ⟨nofun, fun _ _ =>
      ⟨Or.inr (by decide +kernel), fun j hj => ?_⟩⟩
    change (Function.update (Function.update (Function.update (fun i => freshSocket i 0) 0 _) 0 _) 0 _
      j).holds _ = 0
    rw [Function.update_of_ne hj, Function.update_of_ne hj, Function.update_of_ne hj]
    rfl
  · change 1 ∈ _
    decide +kernel
  · change 0 ∈ _
    decide +kernel

/-- Two SYNs come to a listening socket before its answer to the first is driven: both answers are
its one `connectPacket`. -/
theorem connectPacket_on_two_rings :
    ¬ Apart 1 (run (step someConfig) (init 3 1)
      [.getSocket 0, .listen 2 4000 1024, .process ⟨100, true, true⟩ (bare 5000 0 .justSyn),
        .process ⟨200, true, true⟩ { bare 6000 0 .justSyn with srcPort := 81 }]) := by
  intro h
  exact nomatch h.once {0, 1} (.connect 2)

end SdcBoot.Mtcp
