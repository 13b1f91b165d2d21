/-
# mTCP: closing, and acknowledging what was accepted

A peer relies on two things.  A socket goes on to FIN_WAIT_2, to TIME_WAIT or from LAST_ACK to
CLOSED because its own FIN was acknowledged; and when it counts data or a FIN as received, a packet
is queued that will say so.

`process2` does neither without exception.  In LAST_ACK every acceptable segment closes the socket,
and in FIN_WAIT_2 a FIN is taken with whatever acknowledgement comes with it.  The state is changed
before the reply is queued, and `enqueue` refuses CLOSING and CLOSED; SEND_FIN1 relies on a packet
that should be there; in SYN_RECVED the queue is emptied after the data was accepted.

`process2_accepted` is a table over the states of what an accepted segment does.  The segments that
break a promise can be read off it, and `closes_properly_iff` is exact about them, in every state
the sockets can reach.
-/
import SdcBoot.Mtcp.Stack

namespace SdcBoot.Mtcp

open Lib Function

/-! ## 1. An accepted segment -/

/-- The state after an accepted segment. -/
def nextState (fin current : Bool) : State → State
  | .established => if fin then .closeWait else .established
  | .sendFin1 => if fin then .sendFin2 else .sendFin1
  | .synRecved => if current then .established else .synRecved
  | .lastAck => .closed
  | .finWait1 =>
    if fin then (if current then .timeWait else .closing)
    else if current then .finWait2 else .finWait1
  | .finWait2 => if fin then .timeWait else .finWait2
  | .closing => if current then .timeWait else .closing
  | st => st

/-- The states in which a FIN is counted. -/
def takesFin : State → Bool
  | .established | .sendFin1 | .finWait1 | .finWait2 => true
  | _ => false

/-- The states in which a FIN asks for a packet. -/
def answersFin : State → Bool
  | .established | .finWait1 | .finWait2 => true
  | _ => false

/-- The queues are emptied. -/
def clears (current : Bool) : State → Bool
  | .synRecved => !current
  | _ => false

/-- What the switch of `process2` does. -/
theorem changeState_spec (g : Segment) (current : Bool) (c : Ctx) :
    (changeState g current c).1 = (g.codeBits.fin && answersFin c.s.state) ∧
    (changeState g current c).2.s =
      { c.s with
        state := nextState g.codeBits.fin current c.s.state
        ackNum := c.s.ackNum + if g.codeBits.fin && takesFin c.s.state then 1 else 0
        remoteWindow := if c.s.state = .synRecved ∧ current = true then g.window
          else c.s.remoteWindow
        outgoing := if clears current c.s.state then [] else c.s.outgoing
        sent := if clears current c.s.state then [] else c.s.sent
        incoming := if clears current c.s.state then [] else c.s.incoming } := by
  obtain ⟨⟨_, _, _, _, _, _, _, st, _, _, _, _, _, _, _, _, _, _, _, _, _⟩, m⟩ := c
  unfold changeState
  cases st <;> cases g.codeBits.fin <;> cases current <;>
    simp [answersFin, takesFin, nextState, clears, Ctx.finTaken, Ctx.setState, clearQueues]

/-- There is room for the data of a segment, or nothing has to be kept. -/
def TcpSocket.hasRoom (s : TcpSocket) (cfg : Config) (data : List UInt8) : Bool :=
  data.isEmpty || s.disableReads ||
    match s.rcv.rcvBuffer with
    | none => decide (s.incoming.length < cfg.ringSize)
    | some _ => decide (data.length ≤ s.rcv.rcvBufSize - s.rcv.rcvBufEntries)

/-- The segment is not a reset, its numbers are acceptable, and there is room for its data. -/
def TcpSocket.accepts (s : TcpSocket) (cfg : Config) (g : Segment) : Bool :=
  !g.codeBits.rst && s.ackIsProper g && s.seqIsProper g && s.hasRoom cfg g.data

variable {data : List UInt8} {cfg : Config} {g : Segment} {c : Ctx} {s : TcpSocket} {w : World}

theorem addToRcvBuf_eq_none {r : RcvBuffer} {ring : Nat → UInt8} :
    addToRcvBuf r ring data = none ↔ data.length > r.rcvBufSize - r.rcvBufEntries := by
  unfold addToRcvBuf
  split
  · rename_i h
    exact iff_of_true rfl h
  · rename_i h
    refine iff_of_false ?_ h
    split <;> simp

theorem processPacketData_room (cfg : Config) (c : Ctx) (hne : data ≠ []) :
    (processPacketData cfg data c).1 = !c.s.hasRoom cfg data := by
  have hempty : data.isEmpty = false := by simpa using hne
  unfold processPacketData TcpSocket.hasRoom
  rw [hempty]
  cases c.s.disableReads with
  | true => rfl
  | false =>
    simp only [Bool.false_eq_true, if_false]
    cases c.s.rcv.rcvBuffer with
    | none =>
      dsimp only
      split
      · rename_i hlt
        simp [hlt]
      · rename_i hlt
        simp [hlt]
    | some ring =>
      dsimp only
      cases hadd : addToRcvBuf c.s.rcv ring data with
      | none =>
        have hno := addToRcvBuf_eq_none.mp hadd
        simp [not_le.mpr hno]
      | some r =>
        have hle : data.length ≤ c.s.rcv.rcvBufSize - c.s.rcv.rcvBufEntries := by
          by_contra hno
          rw [addToRcvBuf_eq_none.mpr (Nat.lt_of_not_le hno)] at hadd
          cases hadd
        simp [hle]

/-- The receive buffer with the data of a segment. -/
def TcpSocket.stored (s : TcpSocket) (data : List UInt8) : RcvBuffer :=
  if data = [] ∨ s.disableReads = true then s.rcv
  else
    match s.rcv.rcvBuffer with
    | none => s.rcv
    | some ring => (addToRcvBuf s.rcv ring data).getD s.rcv

theorem processPacketData_rcv (cfg : Config) (c : Ctx) (hne : data ≠ []) :
    (processPacketData cfg data c).2.s.rcv = c.s.stored data := by
  unfold processPacketData TcpSocket.stored
  cases c.s.disableReads with
  | true => simp
  | false =>
    simp only [hne, Bool.false_eq_true, if_false]
    cases c.s.rcv.rcvBuffer with
    | none =>
      dsimp only
      split <;> rfl
    | some ring =>
      dsimp only
      cases addToRcvBuf c.s.rcv ring data <;> rfl

/-- The socket once the acknowledgement and the data of a segment are taken. -/
def Received (s : TcpSocket) (g : Segment) (s1 : TcpSocket) : Prop :=
  ∃ sent old win inc, s1 =
    { s with
      sent := sent, oldestUnackedSeq := old, remoteWindow := win, incoming := inc
      rcv := s.stored g.data, ackNum := s.ackNum + UInt32.ofNat g.data.length }

/-- Data and acknowledgement are taken first, then the state changes. -/
theorem processAccepted_spec (hroom : c.s.hasRoom cfg g.data = true) :
    ∃ c1 : Ctx, Received c.s g c1.s ∧ processAccepted cfg g c =
      ((changeState g (c.s.ackIsCurrent g) c1).1 || decide (g.data ≠ [] ∧ c.s.outgoing = []),
        (changeState g (c.s.ackIsCurrent g) c1).2) := by
  obtain ⟨sent, old, win, hack⟩ := takeAck_s g c
  unfold processAccepted
  by_cases hnil : g.data = []
  · refine ⟨takeAck g c, ⟨sent, old, win, c.s.incoming, ?_⟩, ?_⟩
    · rw [hack, hnil]
      simp [TcpSocket.stored]
    · simp [hnil]
  · have hroom1 : (takeAck g c).s.hasRoom cfg g.data = true := by
      rw [hack]
      exact hroom
    have hplay := processPacketData_room cfg (takeAck g c) hnil
    rw [hroom1] at hplay
    have hrcv : (processPacketData cfg g.data (takeAck g c)).2.s.rcv = c.s.stored g.data := by
      rw [processPacketData_rcv cfg _ hnil, hack]
      rfl
    rcases processPacketData_s cfg g.data (takeAck g c) with ⟨hdead, -⟩ | ⟨hok, inc, rcv, hs⟩
    · rw [hplay] at hdead
      cases hdead
    · rw [hs] at hrcv
      refine ⟨(processPacketData cfg g.data (takeAck g c)).2, ⟨sent, old, win, inc, ?_⟩, ?_⟩
      · rw [hs, ← hrcv, hack]
      · have hout : (processPacketData cfg g.data (takeAck g c)).2.s.outgoing = c.s.outgoing := by
          rw [hs, hack]
        simp only [hok, Bool.false_eq_true, if_false, hout, ne_eq, hnil,
          not_false_eq_true, true_and]

/-- What an accepted segment makes of a socket. -/
structure AcceptedTo (s : TcpSocket) (g : Segment) (s' : TcpSocket) : Prop where
  state : s'.state = nextState g.codeBits.fin (s.ackIsCurrent g) s.state
  ackNum : s'.ackNum = s.ackNum + UInt32.ofNat g.data.length +
    if g.codeBits.fin && takesFin s.state then 1 else 0
  finSeq : s'.finSeq = s.finSeq
  rcv : s'.rcv = s.stored g.data
  disableReads : s'.disableReads = s.disableReads
  outgoing : s'.outgoing ≠ [] ↔
    ((g.codeBits.fin = true ∧ answersFin s.state = true) ∨ (g.data ≠ [] ∧ s.outgoing = [])) ∧
        nextState g.codeBits.fin (s.ackIsCurrent g) s.state ≠ .closed ∧
        nextState g.codeBits.fin (s.ackIsCurrent g) s.state ≠ .listen ∧
        nextState g.codeBits.fin (s.ackIsCurrent g) s.state ≠ .closing ∨
      s.outgoing ≠ [] ∧ clears (s.ackIsCurrent g) s.state = false

theorem refuses_self :
    s.refuses (.connect s.self) = true ↔
      s.state = .closed ∨ s.state = .listen ∨ s.state = .closing := by
  simp [TcpSocket.refuses, or_assoc]

/-- **An accepted segment**, in any state but SYN_SENT. -/
theorem process2_accepted (resolves : Bool) (hsyn : c.s.state ≠ .synSent)
    (hacc : c.s.accepts cfg g = true) : AcceptedTo c.s g (process2 cfg resolves g c).s := by
  simp only [TcpSocket.accepts, Bool.and_eq_true, Bool.not_eq_true'] at hacc
  obtain ⟨⟨⟨hrst, hack⟩, hseq⟩, hroom⟩ := hacc
  obtain ⟨c1, ⟨sent, old, win1, inc, hc1⟩, hproc⟩ := processAccepted_spec hroom
  obtain ⟨hreply, hs⟩ := changeState_spec g (c.s.ackIsCurrent g) c1
  set c2 := (changeState g (c.s.ackIsCurrent g) c1).2 with hc2
  have hself : c2.s.self = c.s.self := by rw [hs, hc1]
  have hstate : c2.s.state = nextState g.codeBits.fin (c.s.ackIsCurrent g) c.s.state := by
    rw [hs, hc1]
  have hackNum : c2.s.ackNum = c.s.ackNum + UInt32.ofNat g.data.length +
      if g.codeBits.fin && takesFin c.s.state then 1 else 0 := by
    rw [hs, hc1]
  have hfinSeq : c2.s.finSeq = c.s.finSeq := by rw [hs, hc1]
  have hrcv : c2.s.rcv = c.s.stored g.data := by rw [hs, hc1]
  have hreads : c2.s.disableReads = c.s.disableReads := by rw [hs, hc1]
  have hout : c2.s.outgoing =
      if clears (c.s.ackIsCurrent g) c.s.state then [] else c.s.outgoing := by
    rw [hs, hc1]
  have hrun : process2 cfg resolves g c =
      if (g.codeBits.fin && answersFin c.s.state) || decide (g.data ≠ [] ∧ c.s.outgoing = []) then
        enqueueConnect cfg c.s.self c2 else c2 := by
    have hother : processOther cfg resolves g c = ((g.codeBits.fin && answersFin c.s.state) ||
        decide (g.data ≠ [] ∧ c.s.outgoing = []), c2) := by
      unfold processOther
      rw [if_neg (by simp [hrst]), hack, hseq, Bool.true_and, if_pos rfl, hproc, hreply, hc1]
    unfold process2
    rw [if_neg hsyn, hother]
  rw [hrun]
  by_cases hgen : ((g.codeBits.fin && answersFin c.s.state) ||
      decide (g.data ≠ [] ∧ c.s.outgoing = [])) = true
  · rw [if_pos hgen]
    have hwant : (g.codeBits.fin = true ∧ answersFin c.s.state = true) ∨
        (g.data ≠ [] ∧ c.s.outgoing = []) := by
      simpa only [Bool.or_eq_true, Bool.and_eq_true, decide_eq_true_eq] using hgen
    obtain ⟨out, hq, hcases⟩ := enqueueConnect_s cfg c.s.self c2
    refine ⟨by rw [hq]; exact hstate, by rw [hq]; exact hackNum, by rw [hq]; exact hfinSeq,
      by rw [hq]; exact hrcv, by rw [hq]; exact hreads, ?_⟩
    rw [← hstate]
    by_cases href : c2.s.refuses (.connect c.s.self) = true
    · rw [enqueueConnect_refused href]
      have hbad : c2.s.state = .closed ∨ c2.s.state = .listen ∨ c2.s.state = .closing := by
        rw [← hself] at href
        exact refuses_self.mp href
      rw [hout]
      constructor
      · intro hne
        cases hclr : clears (c.s.ackIsCurrent g) c.s.state with
        | true =>
          rw [hclr] at hne
          exact absurd rfl hne
        | false =>
          rw [hclr] at hne
          exact .inr ⟨hne, rfl⟩
      · rintro (⟨-, h1, h2, h3⟩ | ⟨hne, hclr⟩)
        · rcases hbad with h | h | h
          · exact absurd h h1
          · exact absurd h h2
          · exact absurd h h3
        · rw [hclr]
          exact hne
    · have hq := enqueueConnect_queued cfg (by simpa using href)
      have hgood : ¬ (c2.s.state = .closed ∨ c2.s.state = .listen ∨ c2.s.state = .closing) := by
        rw [← hself] at href
        exact fun h => href (refuses_self.mpr h)
      obtain ⟨h1, h23⟩ := not_or.mp hgood
      obtain ⟨h2, h3⟩ := not_or.mp h23
      exact ⟨fun _ => .inl ⟨hwant, h1, h2, h3⟩, fun _ => hq⟩
  · rw [if_neg hgen]
    have hno : ¬ ((g.codeBits.fin = true ∧ answersFin c.s.state = true) ∨
        (g.data ≠ [] ∧ c.s.outgoing = [])) := by
      simpa only [Bool.or_eq_true, Bool.and_eq_true, decide_eq_true_eq] using hgen
    refine ⟨hstate, hackNum, hfinSeq, hrcv, hreads, ?_⟩
    rw [hout]
    constructor
    · intro hne
      cases hclr : clears (c.s.ackIsCurrent g) c.s.state with
      | true =>
        rw [hclr] at hne
        exact absurd rfl hne
      | false =>
        rw [hclr] at hne
        exact .inr ⟨hne, rfl⟩
    · rintro (⟨hwant, -⟩ | ⟨hne, hclr⟩)
      · exact absurd hwant hno
      · rw [hclr]
        exact hne

/-! ## 2. The other segments -/

/-- The receive buffer is left alone, or given back with the socket. -/
def KeepsRcv (s s' : TcpSocket) : Prop :=
  s'.rcv = s.rcv ∨ (s'.state = .closed ∧ s'.rcv = { s.rcv with rcvBuffer := none })

/-- What a segment that is not accepted leaves: the state, unless it is a reset, and what was
received. -/
structure RejectedTo (s : TcpSocket) (g : Segment) (s' : TcpSocket) : Prop where
  state : s'.state = s.state ∨ (g.codeBits.rst = true ∧ s'.state = .closed)
  ackNum : s'.ackNum = s.ackNum
  finSeq : s'.finSeq = s.finSeq
  rcv : KeepsRcv s s'
  disableReads : s'.disableReads = s.disableReads

/-- Without room `process2` plays dead. -/
theorem processAccepted_noRoom
    (hroom : c.s.hasRoom cfg g.data = false) : processAccepted cfg g c = (false, takeAck g c) := by
  have hne : g.data ≠ [] := by
    rintro hnil
    rw [hnil] at hroom
    cases hroom
  obtain ⟨sent, old, win, hs⟩ := takeAck_s g c
  have hdead : (processPacketData cfg g.data (takeAck g c)).1 = true := by
    rw [processPacketData_room cfg _ hne, hs]
    exact congrArg not hroom
  have hsame : (processPacketData cfg g.data (takeAck g c)).2 = takeAck g c := by
    rcases processPacketData_s cfg g.data (takeAck g c) with ⟨-, h⟩ | ⟨h, -⟩
    · exact h
    · rw [hdead] at h
      cases h
  unfold processAccepted
  simp only [if_neg hne, hdead, if_true, hsame]

theorem process2_rejected (resolves : Bool) (hsyn : c.s.state ≠ .synSent)
    (hacc : c.s.accepts cfg g = false) : RejectedTo c.s g (process2 cfg resolves g c).s := by
  unfold process2
  rw [if_neg hsyn]
  unfold processOther
  by_cases hrst : g.codeBits.rst = true
  · rw [if_pos hrst]
    split
    · exact ⟨.inr ⟨hrst, rfl⟩, rfl, rfl, .inr ⟨rfl, rfl⟩, rfl⟩
    · exact ⟨.inl rfl, rfl, rfl, .inl rfl, rfl⟩
  · rw [if_neg hrst]
    by_cases hok : (c.s.ackIsProper g && c.s.seqIsProper g) = true
    · rw [if_pos hok]
      have hroom : c.s.hasRoom cfg g.data = false := by
        obtain ⟨hack, hseq⟩ := Bool.and_eq_true_iff.mp hok
        simpa [TcpSocket.accepts, hrst, hack, hseq] using hacc
      obtain ⟨sent, old, win, hs⟩ := takeAck_s g c
      rw [processAccepted_noRoom hroom]
      exact ⟨.inl (by simp [hs]), by simp [hs], by simp [hs], .inl (by simp [hs]),
        by simp [hs]⟩
    · rw [if_neg hok]
      obtain ⟨force, hs⟩ := sendPureAck_s cfg resolves c
      exact ⟨.inl (by simp [hs]), by simp [hs], by simp [hs], .inl (by simp [hs]),
        by simp [hs]⟩

/-- What a segment in SYN_SENT leaves: the connection waits, is open, or is given up. -/
structure SynSentTo (s : TcpSocket) (g : Segment) (s' : TcpSocket) : Prop where
  state : s'.state = .synSent ∧ s'.ackNum = s.ackNum ∨
    (s'.state = .established ∨ s'.state = .synRecved) ∧ g.codeBits.syn = true ∧
      s'.ackNum = g.seqnum + 1 ∧ s'.outgoing ≠ [] ∨
    s'.state = .closed ∧ s'.ackNum = s.ackNum
  finSeq : s'.finSeq = s.finSeq
  rcv : KeepsRcv s s'
  disableReads : s'.disableReads = s.disableReads

theorem process2_synSent (cfg : Config) (resolves : Bool) (g : Segment)
    (hsyn : c.s.state = .synSent) : SynSentTo c.s g (process2 cfg resolves g c).s := by
  unfold process2
  rw [if_pos hsyn]
  unfold processSynSent
  split
  · split
    · exact ⟨.inr (.inr ⟨rfl, rfl⟩), rfl, .inr ⟨rfl, rfl⟩, rfl⟩
    · exact ⟨.inl ⟨hsyn, rfl⟩, rfl, .inl rfl, rfl⟩
  · split
    · rename_i hset
      split
      · split
        · obtain ⟨sent, old, hrem⟩ := removeSentPackets_s g.acknum c
          refine ⟨.inr (.inl ⟨.inl ?_, hset, ?_, ?_⟩), ?_, .inl ?_, ?_⟩
          · simp
          · simp
          · exact enqueueConnect_queued cfg (by simp [TcpSocket.refuses])
          all_goals simp [hrem, TcpSocket.setMaxEnqueueSize]
        · exact ⟨.inl ⟨hsyn, rfl⟩, rfl, .inl rfl, rfl⟩
      · refine ⟨.inr (.inl ⟨.inr ?_, hset, ?_, ?_⟩), ?_, .inl ?_, ?_⟩
        · simp [clearQueues]
        · simp [clearQueues]
        · exact enqueueConnect_queued cfg (by simp [clearQueues, TcpSocket.refuses])
        all_goals simp [clearQueues, TcpSocket.setMaxEnqueueSize]
    · exact ⟨.inl ⟨hsyn, rfl⟩, rfl, .inl rfl, rfl⟩

/-! ## 3. The property, and when it holds -/

/-- The segment acknowledges the socket's own FIN: its number lies behind the FIN, and not beyond
what was sent. -/
def TcpSocket.AcksFin (s : TcpSocket) (g : Segment) : Prop :=
  g.codeBits.ack = true ∧
    ∃ fin, s.finSeq = some fin ∧ g.acknum - (fin + 1) ≤ s.seqNum - (fin + 1)

/-- The socket enters a state that says its FIN was acknowledged. -/
def EntersClosed (st st' : State) : Prop :=
  (st ≠ .finWait2 ∧ st' = .finWait2) ∨ (st ≠ .timeWait ∧ st' = .timeWait) ∨
    (st = .lastAck ∧ st' = .closed)

/-- **What a segment should do**: it closes the socket only if it acknowledges the FIN, and what it
brings is acknowledged. -/
structure ClosesProperly (s : TcpSocket) (g : Segment) (s' : TcpSocket) : Prop where
  acknowledged : g.codeBits.rst = false → EntersClosed s.state s'.state → s.AcksFin g
  answered : s'.ackNum ≠ s.ackNum → s'.outgoing ≠ []

/-- **When it does**: an accepted segment acknowledges the FIN in LAST_ACK, and in FIN_WAIT_2 if it
is a FIN; and a packet is queued when data comes in LAST_ACK or CLOSING or a FIN in FIN_WAIT_1,
unless the FIN of the socket is acknowledged, when a FIN alone comes in SEND_FIN1; and none when
data comes in SYN_RECVED without the acknowledgement that is waited for. -/
structure Orderly (cfg : Config) (s : TcpSocket) (g : Segment) : Prop where
  lastAck : s.accepts cfg g = true → s.state = .lastAck →
    s.AcksFin g ∧ (g.data ≠ [] → s.outgoing ≠ [])
  finWait2 : s.accepts cfg g = true → s.state = .finWait2 → g.codeBits.fin = true → s.AcksFin g
  finWait1 : s.accepts cfg g = true → s.state = .finWait1 → g.codeBits.fin = true →
    s.ackIsCurrent g = false → s.outgoing ≠ []
  closing : s.accepts cfg g = true → s.state = .closing → g.data ≠ [] →
    s.ackIsCurrent g = false → s.outgoing ≠ []
  sendFin1 : s.accepts cfg g = true → s.state = .sendFin1 → g.codeBits.fin = true → g.data = [] →
    s.outgoing ≠ []
  synRecved : s.accepts cfg g = true → s.state = .synRecved → g.data ≠ [] →
    s.ackIsCurrent g = false → s.outgoing = []

/-- Where the socket has sent its FIN, the FIN is noted. -/
def TcpSocket.FinNoted (s : TcpSocket) : Prop :=
  s.state = .finWait1 ∨ s.state = .finWait2 ∨ s.state = .closing ∨ s.state = .lastAck →
    s.finSeq ≠ none

/-- The number of the next byte acknowledges all that was sent, the FIN with it. -/
theorem acksFin_of_current (hfin : s.finSeq ≠ none)
    (h : s.ackIsCurrent g = true) : s.AcksFin g := by
  simp only [TcpSocket.ackIsCurrent, Bool.and_eq_true, beq_iff_eq] at h
  obtain ⟨fin, hf⟩ := Option.ne_none_iff_exists'.mp hfin
  exact ⟨h.1, fin, hf, by rw [h.2]; exact UInt32.le_refl _⟩

/-- Data or a FIN moves the acknowledgement number. -/
theorem ackNum_moves (a : UInt32) (g : Segment) (fin : Bool) (h : g.data ≠ [] ∨ fin = true) :
    a + UInt32.ofNat g.data.length + (if fin then 1 else 0) ≠ a := by
  intro heq
  have hshort := g.short
  have hlen : 0 < g.data.length ∨ fin = true := h.imp_left List.length_pos_of_ne_nil
  have hnat := congrArg UInt32.toNat heq
  cases fin with
  | true =>
    simp only [if_true, UInt32.toNat_add, UInt32.toNat_ofNat', UInt32.reduceToNat] at hnat
    omega
  | false =>
    simp only [Bool.false_eq_true, if_false, UInt32.toNat_add, UInt32.toNat_ofNat',
      UInt32.reduceToNat, or_false] at hnat hlen
    omega

section

variable {cfg : Config} {s s' : TcpSocket} {g : Segment}

/-- What a proper step asks of an accepted segment. -/
theorem AcceptedTo.orderly (ht : AcceptedTo s g s') (hrst : g.codeBits.rst = false)
    (h : ClosesProperly s g s') : Orderly cfg s g := by
  have hstate := ht.state
  have hout := ht.outgoing
  have hmoves := ackNum_moves s.ackNum g (g.codeBits.fin && takesFin s.state)
  rw [← ht.ackNum] at hmoves
  refine ⟨fun _ hst => ?_, fun _ hst hfin => ?_, fun _ hst hfin hcur => ?_,
    fun _ hst hdata hcur => ?_, fun _ hst hfin hdata => ?_, fun _ hst hdata hcur => ?_⟩
  · rw [hst] at hstate hout
    refine ⟨h.acknowledged hrst (.inr (.inr ⟨hst, hstate⟩)), fun hdata => ?_⟩
    rcases hout.mp (h.answered (hmoves (.inl hdata))) with ⟨-, hno, -⟩ | ⟨hne, -⟩
    · exact absurd rfl hno
    · exact hne
  · rw [hst, hfin] at hstate
    exact h.acknowledged hrst (.inr (.inl ⟨by simp [hst], hstate⟩))
  · rw [hst, hfin, hcur] at hout
    rcases hout.mp (h.answered (hmoves (.inr (by simp [hst, hfin, takesFin])))) with
      ⟨-, -, -, hno⟩ | ⟨hne, -⟩
    · exact absurd rfl hno
    · exact hne
  · rw [hst, hcur] at hout
    rcases hout.mp (h.answered (hmoves (.inl hdata))) with ⟨-, -, -, hno⟩ | ⟨hne, -⟩
    · exact absurd rfl hno
    · exact hne
  · rw [hst] at hout
    rcases hout.mp (h.answered (hmoves (.inr (by simp [hst, hfin, takesFin])))) with
      ⟨⟨-, hno⟩ | ⟨hno, -⟩, -⟩ | ⟨hne, -⟩
    · cases hno
    · exact absurd hdata hno
    · exact hne
  · rw [hst, hcur] at hout
    rcases hout.mp (h.answered (hmoves (.inl hdata))) with ⟨⟨-, hno⟩ | ⟨-, hnil⟩, -⟩ | ⟨-, hno⟩
    · cases hno
    · exact hnil
    · cases hno

theorem AcceptedTo.acknowledged (ht : AcceptedTo s g s') (hacc : s.accepts cfg g = true)
    (hnoted : s.FinNoted) (h : Orderly cfg s g) (hent : EntersClosed s.state s'.state) :
    s.AcksFin g := by
  rw [ht.state] at hent
  unfold EntersClosed nextState at hent
  cases hst : s.state with
  | lastAck => exact (h.lastAck hacc hst).1
  | finWait2 =>
    cases hfin : g.codeBits.fin with
    | true => exact h.finWait2 hacc hst hfin
    | false => simp [hst, hfin] at hent
  | finWait1 =>
    cases hcur : s.ackIsCurrent g with
    | true => exact acksFin_of_current (hnoted (.inl hst)) hcur
    | false =>
      cases hfin : g.codeBits.fin <;> simp [hst, hfin, hcur] at hent
  | closing =>
    cases hcur : s.ackIsCurrent g with
    | true => exact acksFin_of_current (hnoted (.inr (.inr (.inl hst)))) hcur
    | false => simp [hst, hcur] at hent
  | synRecved =>
    cases hcur : s.ackIsCurrent g <;> simp [hst, hcur] at hent
  | established
  | sendFin1 =>
    cases hfin : g.codeBits.fin <;> simp [hst, hfin] at hent
  | _ => simp [hst] at hent

theorem AcceptedTo.answered (ht : AcceptedTo s g s') (hacc : s.accepts cfg g = true)
    (hopen : s.state ≠ .closed ∧ s.state ≠ .listen) (h : Orderly cfg s g)
    (hmoved : s'.ackNum ≠ s.ackNum) : s'.outgoing ≠ [] := by
  have hbrings : g.data ≠ [] ∨ (g.codeBits.fin = true ∧ takesFin s.state = true) := by
    by_contra hno
    obtain ⟨hnil, hfin⟩ := not_or.mp hno
    refine hmoved ?_
    rw [ht.ackNum, not_not.mp hnil]
    rw [if_neg (by simpa using hfin)]
    simp
  rw [ht.outgoing]
  -- a packet that is queued stays, except in SYN_RECVED
  by_cases hclr : clears (s.ackIsCurrent g) s.state = true
  · have hst : s.state = .synRecved := by
      cases hst : s.state <;> simp_all [clears]
    have hcur : s.ackIsCurrent g = false := by
      simpa [hst, clears] using hclr
    have hdata : g.data ≠ [] := by
      rcases hbrings with hdata | ⟨-, hno⟩
      · exact hdata
      · exact absurd hno (by simp [hst, takesFin])
    refine .inl ⟨.inr ⟨hdata, h.synRecved hacc hst hdata hcur⟩, ?_⟩
    simp [hst, hcur, nextState]
  · by_cases hnil : s.outgoing = []
    · refine .inl ⟨?_, ?_⟩
      · rcases hbrings with hdata | ⟨hfin, htakes⟩
        · exact .inr ⟨hdata, hnil⟩
        · by_cases hdata : g.data = []
          · refine .inl ⟨hfin, ?_⟩
            cases hst : s.state <;> simp_all [takesFin, answersFin]
            exact absurd hnil (h.sendFin1 hacc hst hfin hdata)
          · exact .inr ⟨hdata, hnil⟩
      · cases hst : s.state with
        | closed => exact absurd hst hopen.1
        | listen => exact absurd hst hopen.2
        | lastAck =>
          rcases hbrings with hdata | ⟨-, hno⟩
          · exact absurd hnil ((h.lastAck hacc hst).2 hdata)
          · exact absurd hno (by simp [hst, takesFin])
        | closing =>
          rcases hbrings with hdata | ⟨-, hno⟩
          · cases hcur : s.ackIsCurrent g with
            | true => simp [nextState]
            | false => exact absurd hnil (h.closing hacc hst hdata hcur)
          · exact absurd hno (by simp [hst, takesFin])
        | finWait1 =>
          cases hcur : s.ackIsCurrent g with
          | true => cases g.codeBits.fin <;> simp [nextState]
          | false =>
            cases hfin : g.codeBits.fin with
            | true => exact absurd hnil (h.finWait1 hacc hst hfin hcur)
            | false => simp [nextState]
        | synRecved => cases s.ackIsCurrent g <;> simp [nextState]
        | established => cases g.codeBits.fin <;> simp [nextState]
        | sendFin1 => cases g.codeBits.fin <;> simp [nextState]
        | finWait2 => cases g.codeBits.fin <;> simp [nextState]
        | _ => simp [nextState]
    · exact .inr ⟨hnil, by simpa using hclr⟩

end

/-- **One segment**: it does what it should exactly when it is orderly. -/
theorem process2_closesProperly_iff {resolves : Bool} (hnoted : c.s.FinNoted)
    (hopen : c.s.state ≠ .closed ∧ c.s.state ≠ .listen) :
    ClosesProperly c.s g (process2 cfg resolves g c).s ↔ Orderly cfg c.s g := by
  by_cases hsyn : c.s.state = .synSent
  · have hto := process2_synSent cfg resolves g hsyn
    refine iff_of_true ⟨fun _ hent => ?_, fun hne => ?_⟩ ?_
    · unfold EntersClosed at hent
      rcases hto.state with ⟨h, -⟩ | ⟨h | h, -⟩ | ⟨h, -⟩ <;> simp [hsyn, h] at hent
    · rcases hto.state with ⟨-, h⟩ | ⟨-, -, -, h⟩ | ⟨-, h⟩
      · exact absurd h hne
      · exact h
      · exact absurd h hne
    · refine ⟨?_, ?_, ?_, ?_, ?_, ?_⟩ <;> simp [hsyn]
  · cases hacc : c.s.accepts cfg g with
    | false =>
      have hto := process2_rejected resolves hsyn hacc
      refine iff_of_true ⟨fun hrst hent => ?_, fun hne => absurd hto.ackNum hne⟩ ?_
      · have hsame := hto.state.resolve_right fun hno => by
          rw [hno.1] at hrst
          cases hrst
        rw [hsame] at hent
        rcases hent with ⟨hno, h⟩ | ⟨hno, h⟩ | ⟨h1, h2⟩
        · exact absurd h hno
        · exact absurd h hno
        · rw [h1] at h2
          cases h2
      · refine ⟨?_, ?_, ?_, ?_, ?_, ?_⟩ <;> simp [hacc]
    | true =>
      have ht := process2_accepted resolves hsyn hacc
      have hrst : g.codeBits.rst = false := by
        simp only [TcpSocket.accepts, Bool.and_eq_true, Bool.not_eq_true'] at hacc
        exact hacc.1.1.1
      exact ⟨ht.orderly hrst, fun h => ⟨fun _ => ht.acknowledged hacc hnoted h,
        ht.answered hacc hopen h⟩⟩

/-! ## 4. The FIN is noted in every state that is reached -/

theorem FinNoted.of_same {s' : TcpSocket} (h : s.FinNoted) (hstate : s'.state = s.state)
    (hfin : s'.finSeq = s.finSeq) : s'.FinNoted := by
  unfold TcpSocket.FinNoted
  rw [hstate, hfin]
  exact h

theorem process2_finSeq (cfg : Config) (resolves : Bool) (g : Segment) (c : Ctx) :
    (process2 cfg resolves g c).s.finSeq = c.s.finSeq := by
  by_cases hsyn : c.s.state = .synSent
  · exact (process2_synSent cfg resolves g hsyn).finSeq
  · cases hacc : c.s.accepts cfg g with
    | false => exact (process2_rejected resolves hsyn hacc).finSeq
    | true => exact (process2_accepted resolves hsyn hacc).finSeq

/-- A segment leads to these states only from these states. -/
theorem sentFin_of_nextState {fin current : Bool} {st : State}
    (h : nextState fin current st = .finWait1 ∨ nextState fin current st = .finWait2 ∨
      nextState fin current st = .closing ∨ nextState fin current st = .lastAck) :
    st = .finWait1 ∨ st = .finWait2 ∨ st = .closing ∨ st = .lastAck := by
  cases st <;> cases fin <;> cases current <;> simp_all [nextState]

theorem process2_finNoted (cfg : Config) (resolves : Bool) (g : Segment)
    (h : c.s.FinNoted) : (process2 cfg resolves g c).s.FinNoted := by
  unfold TcpSocket.FinNoted at h ⊢
  rw [process2_finSeq]
  intro hst'
  refine h ?_
  by_cases hsyn : c.s.state = .synSent
  · rcases (process2_synSent cfg resolves g hsyn).state with ⟨hs, -⟩ | ⟨hs | hs, -⟩ | ⟨hs, -⟩ <;>
      simp [hs] at hst'
  · cases hacc : c.s.accepts cfg g with
    | false =>
      rcases (process2_rejected resolves hsyn hacc).state with hs | ⟨-, hs⟩
      · rwa [hs] at hst'
      · simp [hs] at hst'
    | true =>
      rw [(process2_accepted resolves hsyn hacc).state] at hst'
      exact sentFin_of_nextState hst'

/-- A FIN is noted when it is put in a header. -/
theorem advanced_finNoted (h : s.FinNoted) (dataLen : Nat) (role : Role) :
    (s.advanced dataLen role).FinNoted := by
  unfold TcpSocket.FinNoted TcpSocket.advanced
  by_cases hrole : role = .finAck
  · simp [hrole]
  · simp only [if_neg hrole]
    exact h

theorem sendPacket_finNoted (cfg : Config) (resolves : Bool) (b : BufId)
    (h : c.s.FinNoted) : (sendPacket cfg resolves b c).2.s.FinNoted := by
  rcases sendPacket_s cfg resolves b c with ⟨-, mac, hs⟩ | ⟨-, hs⟩
  · rw [hs]
    exact h
  · rw [hs]
    exact advanced_finNoted h _ _

theorem driveOutgoing_finNoted (cfg : Config) (env : Env) (fuel : Nat)
    (h : c.s.FinNoted) : (driveOutgoing cfg env fuel c).s.FinNoted := by
  induction fuel generalizing c with
  | zero => exact h
  | succ fuel ih =>
    unfold driveOutgoing
    split
    · exact h
    · rename_i b rest hout
      split
      · split
        · split
          · obtain ⟨force, hs⟩ := probe_s cfg env.resolves c
            rw [hs]
            exact h
          · exact h
        · have hsent := sendPacket_finNoted cfg env.resolves b h
          dsimp only
          split
          · exact hsent
          · obtain ⟨sent, hs⟩ := afterSend_s (sendPacket cfg env.resolves b c).2 b
            refine ih (FinNoted.of_same hsent ?_ ?_)
            · rw [hs]
            · rw [hs]
      · exact h

theorem driveSocket_finNoted (cfg : Config) (env : Env) (h : c.s.FinNoted) :
    (driveSocket cfg env c).2.s.FinNoted := by
  unfold driveSocket
  split
  · exact driveOutgoing_finNoted cfg env _ h
  · split
    · intro hst
      exact absurd hst (by simp [destroy])
    · split
      · exact h
      · exact driveOutgoing_finNoted cfg env _ h

theorem enqueueConnect_finNoted (cfg : Config) (owner : Nat) (h : c.s.FinNoted) :
    (enqueueConnect cfg owner c).s.FinNoted := by
  obtain ⟨out, hq, -⟩ := enqueueConnect_s cfg owner c
  rw [hq]
  exact h

theorem closeLocal_finNoted (cfg : Config) (h : c.s.FinNoted) : (closeLocal cfg c).s.FinNoted := by
  have hnew : ∀ st st', closeTarget st = some st' → (c.setState st').s.FinNoted := by
    intro st st' htarget hst
    cases st <;> simp_all [closeTarget, Ctx.setState] <;> subst htarget <;> simp at hst
  unfold closeLocal
  split
  iterate 4 exact nofun
  split
  · exact h
  · rename_i st' htarget
    split
    · exact enqueueConnect_finNoted cfg _ (hnew _ st' htarget)
    · exact hnew _ st' htarget

/-- Every socket that has sent its FIN has noted it. -/
def World.FinNoted (w : World) : Prop := ∀ i, (w.sock i).FinNoted

theorem World.FinNoted.put (h : w.FinNoted) {i : Nat} (hc : c.s.FinNoted) :
    (w.put i c).FinNoted := by
  intro j
  unfold World.put
  by_cases hji : j = i
  · rw [hji]
    simpa using hc
  · simp only [update_of_ne hji]
    exact h j

theorem World.FinNoted.reinit (h : w.FinNoted) (i : Nat) (iss : UInt32) :
    (Mtcp.reinit i iss w).FinNoted := by
  intro j
  unfold Mtcp.reinit
  by_cases hji : j = i
  · rw [hji]
    intro hst
    simp [freshSocket] at hst
  · simp only [update_of_ne hji]
    exact h j

theorem driveTable_finNoted (cfg : Config) (env : Nat → Env) (table : List Nat)
    (h : w.FinNoted) : (driveTable cfg env table w).FinNoted := by
  induction table generalizing w with
  | nil => exact h
  | cons i rest ih =>
    have hput := h.put (i := i) (driveSocket_finNoted cfg (env i) (c := w.ctx i) (h i))
    unfold driveTable
    dsimp only
    split
    · exact hput
    · exact ih hput

theorem process_finNoted (cfg : Config) (luck : Luck) (g : Segment)
    (h : w.FinNoted) : (process cfg luck g w).FinNoted := by
  unfold process
  split
  · exact h
  · rename_i i _
    unfold process2World
    split
    · split
      · unfold processSyn
        split
        · exact h
        · rename_i j rest _
          have h1 : (Mtcp.reinit j luck.iss
              { w with m := { w.m with availSocketTable := rest } }).FinNoted :=
            World.FinNoted.reinit (w := { w with m := { w.m with availSocketTable := rest } })
              h j luck.iss
          dsimp only
          split
          · refine h1.put (enqueueConnect_finNoted cfg i ?_)
            intro hst
            simp at hst
          · refine h1.put fun hst => ?_
            simp [destroy] at hst
      · exact h
    · exact h.put (process2_finNoted cfg luck.resolves g (h i))

/-- **One call keeps the note.** -/
theorem finNoted_step (cfg : Config) (h : w.FinNoted) (call : Call) :
    (stepWorld cfg w call).FinNoted := by
  cases call with
  | getSocket iss =>
    change (getSocket iss w).FinNoted
    unfold getSocket
    split
    · exact h
    · rename_i i rest _
      exact World.FinNoted.reinit (w := { w with m := { w.m with availSocketTable := rest } })
        h i iss
  | freeSocket i => exact h
  | accept i => exact h.put (h i)
  | setRecvBuffer i size memory => exact h.put (h i)
  | connect i srcPort host dstPort =>
    refine h.put ?_
    unfold connect2
    split
    · exact h i
    · refine enqueueConnect_finNoted cfg _ fun hst => ?_
      simp at hst
  | listen i srcPort recvBufferSize =>
    change (Mtcp.listen srcPort recvBufferSize i w).FinNoted
    unfold Mtcp.listen
    split
    · exact h
    · split
      · exact h
      · refine h.put fun hst => ?_
        simp at hst
  | shutdownRead i => exact h.put (h i)
  | close i => exact h.put (closeLocal_finNoted cfg (h i))
  | destroy i =>
    refine h.put fun hst => ?_
    simp [Mtcp.destroy] at hst
  | clearQueues i => exact h.put (h i)
  | getXmitBuf =>
    unfold stepWorld
    dsimp only
    split
    · exact h
    · exact h
  | returnXmitBuf n => exact h
  | fillBuffer n data => exact h
  | enqueue i n =>
    obtain ⟨out, hq, -⟩ := enqueue_s cfg (.pool n) (w.ctx i)
    have hput := h.put (i := i) (c := (Mtcp.enqueue cfg (.pool n) (w.ctx i)).2) (by
      rw [hq]
      exact h i)
    exact hput
  | send i userBuf =>
    obtain ⟨out, hs⟩ := send_s cfg userBuf (w.ctx i)
    refine h.put ?_
    rw [hs]
    exact h i
  | recv i userBufLen resolves =>
    obtain ⟨rcv, force, hs⟩ := recv_s cfg resolves userBufLen (w.ctx i)
    refine h.put ?_
    rw [hs]
    exact h i
  | process luck g => exact process_finNoted cfg luck g h
  | drivePackets2 env => exact driveTable_finNoted cfg env _ h

theorem finNoted_run (cfg : Config) (calls : List Call) (h : w.FinNoted) :
    (run (step cfg) w calls).FinNoted := by
  induction calls generalizing w with
  | nil => exact h
  | cons call calls ih => exact ih (finNoted_step cfg h call)

theorem init_finNoted (sockets xmitBufs : Nat) : (init sockets xmitBufs).FinNoted := by
  intro i hst
  simp [init, freshSocket] at hst

/-! ## 5. Every segment, in every state that is reached -/

/-- A SYN in LISTEN leaves a socket alone, opens it with a packet queued, or gives it back. -/
def OpensProperly (s s' : TcpSocket) : Prop :=
  s' = s ∨ (s'.state = .synRecved ∧ s'.outgoing ≠ []) ∨ (s'.state = .closed ∧ s'.ackNum = 0)

/-- What a segment should do, in LISTEN too. -/
def World.ClosesProperly (w : World) (g : Segment) (i : Nat) (w' : World) : Prop :=
  if (w.sock i).state = .listen then ∀ j, OpensProperly (w.sock j) (w'.sock j)
  else Mtcp.ClosesProperly (w.sock i) g (w'.sock i)

theorem processSyn_opensProperly (cfg : Config) (iss : UInt32) (memory : Bool) (g : Segment)
    (i : Nat) (w : World) (j : Nat) :
    OpensProperly (w.sock j) ((processSyn cfg iss memory g i w).sock j) := by
  unfold processSyn
  split
  · exact .inl rfl
  · rename_i k rest _
    dsimp only
    by_cases hjk : j = k
    · subst hjk
      split
      · refine .inr (.inl ⟨?_, ?_⟩)
        · simp only [World.on, World.put, update_self]
          obtain ⟨out, hq, -⟩ := enqueueConnect_s cfg i _
          rw [hq]
        · simp only [World.on, World.put, update_self]
          exact enqueueConnect_queued cfg (by simp [TcpSocket.refuses])
      · refine .inr (.inr ⟨?_, ?_⟩)
        · simp [World.on, World.put, destroy]
        · simp [World.on, World.put, World.ctx, destroy, clearQueues, reinit, freshSocket]
    · refine .inl ?_
      split <;> simp [World.on, World.put, reinit, update_of_ne hjk]

/-- A socket that `process` finds is not closed. -/
theorem owner_open {i : Nat} (h : w.owner g = some i) : (w.sock i).state ≠ .closed := by
  unfold World.owner at h
  split at h
  · rename_i k hk
    have hp := List.find?_some hk
    cases h
    intro hst
    simp [hst] at hp
  · have hp := List.find?_some h
    intro hst
    simp [hst] at hp

/-- **A segment closes the socket only if it acknowledges its FIN, and what it brings is
acknowledged**, exactly when it is orderly. -/
theorem closes_properly_iff (cfg : Config) (sockets xmitBufs : Nat) (calls : List Call)
    (luck : Luck) (g : Segment) (i : Nat)
    (howner : (run (step cfg) (init sockets xmitBufs) calls).owner g = some i) :
    (run (step cfg) (init sockets xmitBufs) calls).ClosesProperly g i
        (process cfg luck g (run (step cfg) (init sockets xmitBufs) calls)) ↔
      Orderly cfg ((run (step cfg) (init sockets xmitBufs) calls).sock i) g := by
  have hnoted := finNoted_run cfg calls (init_finNoted sockets xmitBufs)
  set w := run (step cfg) (init sockets xmitBufs) calls with hw
  have hprocess : process cfg luck g w = process2World cfg luck g i w := by
    unfold process
    rw [howner]
  rw [hprocess]
  unfold World.ClosesProperly process2World
  by_cases hlisten : (w.sock i).state = .listen
  · rw [if_pos hlisten, if_pos hlisten]
    refine iff_of_true (fun j => ?_) ?_
    · split
      · exact processSyn_opensProperly cfg luck.iss luck.memory g i w j
      · exact Or.inl rfl
    · refine ⟨?_, ?_, ?_, ?_, ?_, ?_⟩ <;> simp [hlisten]
  · rw [if_neg hlisten, if_neg hlisten]
    simp only [World.on, World.put, Function.update_self]
    exact process2_closesProperly_iff (c := w.ctx i) (hnoted i) ⟨owner_open howner, hlisten⟩

/-! ## 6. A connection that the peer closes -/

def someConfig : Config := ⟨4, 1460, 5, by decide⟩

/-- ARP knows the address, and no timer is due. -/
def quickly : Nat → Env := fun _ => ⟨false, false, true⟩

/-- A segment of the peer without data. -/
def bare (seqnum acknum : UInt32) (codeBits : CodeBits) : Segment :=
  ⟨7, 80, 4000, seqnum, acknum, codeBits, 8192, 1460, [], by decide⟩

/-- A connection is opened at 100, the peer sends its FIN, and the socket is closed. -/
def closedByPeer : List Call :=
  [.getSocket 100, .connect 0 4000 7 80, .drivePackets2 quickly,
    .process ⟨0, true, true⟩ (bare 5000 101 { CodeBits.justAck with syn := true }),
    .drivePackets2 quickly,
    .process ⟨0, true, true⟩ (bare 5001 101 { CodeBits.justAck with fin := true }),
    .drivePackets2 quickly, .close 0, .drivePackets2 quickly]

theorem closed_by_peer_properly :
    (run (step someConfig) (init 1 1) closedByPeer).ClosesProperly (bare 5002 102 .justAck) 0
      (process someConfig ⟨0, true, true⟩ (bare 5002 102 .justAck)
        (run (step someConfig) (init 1 1) closedByPeer)) := by
  refine (closes_properly_iff someConfig 1 1 closedByPeer ⟨0, true, true⟩ (bare 5002 102 .justAck)
    0 (by decide +kernel)).mpr ⟨fun _ _ => ⟨⟨rfl, 101, by decide +kernel, by decide +kernel⟩,
      fun h => absurd rfl h⟩, ?_, ?_, ?_, ?_, ?_⟩
  · exact nofun
  · exact nofun
  · exact nofun
  · exact nofun
  · exact nofun

/-- In LAST_ACK the socket at 102 is closed by a segment that acknowledges 101, not the FIN. -/
theorem closed_without_acknowledgement :
    ¬ (run (step someConfig) (init 1 1) closedByPeer).ClosesProperly (bare 5002 101 .justAck) 0
      (process someConfig ⟨0, true, true⟩ (bare 5002 101 .justAck)
        (run (step someConfig) (init 1 1) closedByPeer)) := by
  intro h
  unfold World.ClosesProperly at h
  rw [if_neg (by decide +kernel)] at h
  obtain ⟨-, fin, hfin, hle⟩ := h.acknowledged rfl
    (Or.inr (Or.inr ⟨by decide +kernel, by decide +kernel⟩))
  have hsent : ((run (step someConfig) (init 1 1) closedByPeer).sock 0).finSeq = some 101 := by
    decide +kernel
  obtain rfl : fin = 101 := by
    rw [hsent] at hfin
    exact (Option.some.inj hfin).symm
  cases hle

end SdcBoot.Mtcp
