/-
# mTCP: the window is a promise

What a socket tells its peer is the right edge `ackNum + window`.  What comes in moves `ackNum` on
and takes as much from the window, and what the user takes out opens it: the right edge goes on with
the bytes the user has taken, and with a FIN (`Keeps`).  So it never moves backwards, and what ends
below an edge that was given fits in the ring.

A header that is filled in while the address of the peer is still asked for is sent as it is when
the address comes.  By then a later packet may have given a later edge (`edge_goes_back`); where no
packet waits for an address (`Resolved`) every packet that is sent for the first time has the edge of
the moment (`window_kept`).
-/
import SdcBoot.Mtcp.Receive
import SdcBoot.Mtcp.Sequence

namespace SdcBoot.Mtcp

open Lib List

/-! ## 1. The right edge -/

def Header.rightEdge (h : Header) : UInt32 := h.acknum + UInt32.ofNat h.window

def TcpSocket.rightEdge (s : TcpSocket) (cfg : Config) : UInt32 :=
  s.ackNum + UInt32.ofNat (s.winSize cfg)

/-- A round that sends a packet again. -/
def retransmits (c : Ctx) : Move → Bool
  | .drive env => !c.s.sent.isEmpty && env.expired
  | _ => false

/-- The packets a move of the socket sends for the first time.  In SYN_SENT there is no number of
the peer yet, and a SYN gives no edge. -/
def firstSent (cfg : Config) (c : Ctx) : Move → List Packet
  | .others _ => []
  | mv =>
    if c.s.state = .synSent ∨ retransmits c mv = true then []
    else (move cfg c mv).2.m.wire.drop c.m.wire.length

/-- A socket, how far the right edge is, and the edges that were given. -/
structure Window where
  c : Ctx
  right : Nat
  edges : List Nat

def Window.step (cfg : Config) (w : Window) (mv : Move) : Answer × Window :=
  let r := move cfg w.c mv
  let right := w.right + r.1.read.length + if acceptsFin cfg w.c.s mv then 1 else 0
  (r.1,
    { c := r.2
      right := right
      edges := w.edges ++ (firstSent cfg w.c mv).map fun _ => right })

/-! ## 2. The invariant -/

/-- The right edge is where the user has got, and a ring further; the edges that were given are not
beyond. -/
structure Promised (base : UInt32) (size : Nat) (w : Window) : Prop where
  valid : w.c.s.rcv.Valid
  length : w.c.s.rcv.rcvBufSize = size
  room : size - w.c.s.rcv.rcvBufEntries ≤ w.right
  ackNum : w.c.s.ackNum = base + UInt32.ofNat (w.right - (size - w.c.s.rcv.rcvBufEntries))
  reads : w.c.s.disableReads = false
  buffer : w.c.s.rcv.rcvBuffer = none → w.c.s.state = .closed
  syn : w.c.s.state ≠ .synSent
  sorted : w.edges.Pairwise (· ≤ ·)
  below : ∀ e ∈ w.edges, e ≤ w.right

section

variable {cfg : Config} {base : UInt32} {size : Nat} {w : Window}

theorem Promised.winSize (h : Promised base size w) :
    w.c.s.winSize cfg = size - w.c.s.rcv.rcvBufEntries := by
  rw [TcpSocket.winSize, if_pos (ne_of_gt (Nat.zero_lt_of_lt h.valid.first)), h.length]

/-- The right edge that a packet sent now gives. -/
theorem Promised.rightEdge (h : Promised base size w) :
    w.c.s.rightEdge cfg = base + UInt32.ofNat w.right := by
  rw [TcpSocket.rightEdge, h.ackNum, h.winSize, UInt32.add_assoc, ← UInt32.ofNat_add,
    Nat.sub_add_cancel h.room]

/-- Edges added at the place where the edge is. -/
theorem edges_step (hsorted : w.edges.Pairwise (· ≤ ·)) (hbelow : ∀ e ∈ w.edges, e ≤ w.right)
    {right : Nat} (hle : w.right ≤ right) (ps : List Packet) :
    (w.edges ++ ps.map fun _ => right).Pairwise (· ≤ ·) ∧
      ∀ e ∈ w.edges ++ ps.map fun _ => right, e ≤ right := by
  have hnew : ∀ e ∈ ps.map fun _ => right, e = right := by
    intro e he
    obtain ⟨-, -, rfl⟩ := mem_map.mp he
    rfl
  refine ⟨pairwise_append.mpr ⟨hsorted, ?_, fun e he e' he' => ?_⟩, fun e he => ?_⟩
  · exact pairwise_map.mpr (pairwise_of_forall fun _ _ => le_rfl)
  · rw [hnew e' he']
    exact le_trans (hbelow e he) hle
  · rcases mem_append.mp he with he | he
    · exact le_trans (hbelow e he) hle
    · exact le_of_eq (hnew e he)

variable {mv : Move} {g : Segment}

section

variable (h : Promised base size w)
include h

/-- Nothing comes in, and nothing is taken out. -/
theorem Promised.idle (hidle : Idle w.c.s (move cfg w.c mv).2.s)
    (hread : (move cfg w.c mv).1.read = [])
    (hfin : acceptsFin cfg w.c.s mv = false) : Promised base size (w.step cfg mv).2 := by
  have hright : (w.step cfg mv).2.right = w.right := by
    simp [Window.step, hread, hfin]
  obtain ⟨hsorted, hbelow⟩ :=
    edges_step h.sorted h.below (le_of_eq hright.symm) (firstSent cfg w.c mv)
  have hrcv : (move cfg w.c mv).2.s.rcv = w.c.s.rcv ∨
      (move cfg w.c mv).2.s.rcv = { w.c.s.rcv with rcvBuffer := none } := hidle.rcv.imp id And.right
  have hentries : (w.step cfg mv).2.c.s.rcv.rcvBufEntries = w.c.s.rcv.rcvBufEntries := by
    change (move cfg w.c mv).2.s.rcv.rcvBufEntries = _
    rcases hrcv with hr | hr <;> rw [hr]
  refine ⟨?_, ?_, ?_, ?_, hidle.disableReads.trans h.reads, ?_, ?_, hsorted, hbelow⟩
  · change (move cfg w.c mv).2.s.rcv.Valid
    rcases hrcv with hr | hr
    · rw [hr]
      exact h.valid
    · rw [hr]
      exact ⟨h.valid.first, h.valid.entries, h.valid.last⟩
  · change (move cfg w.c mv).2.s.rcv.rcvBufSize = size
    rcases hrcv with hr | hr
    · rw [hr]
      exact h.length
    · rw [hr]
      exact h.length
  · rw [hright, hentries]
    exact h.room
  · rw [hright, hentries]
    exact hidle.ackNum.trans h.ackNum
  · intro hnone
    rcases hidle.rcv with hr | ⟨hclosed, -⟩
    · rcases hidle.state with hclosed | ⟨hne, -⟩
      · exact hclosed
      · refine absurd (h.buffer ?_) hne
        rw [← hr]
        exact hnone
    · exact hclosed
  · intro hst
    rcases hidle.state with hclosed | ⟨-, hsyn, -⟩
    · rw [show (move cfg w.c mv).2.s.state = .synSent from hst] at hclosed
      cases hclosed
    · exact h.syn (hsyn.mp hst)

/-- `recv`: the window opens by what is taken out. -/
theorem Promised.recv (userBufLen : Nat) (resolves : Bool) :
    Promised base size (w.step cfg (.recv userBufLen resolves)).2 := by
  rcases recv_cases cfg resolves userBufLen w.c with ⟨hread, hsame⟩ | ⟨hst, force, n, hn, hread, hs⟩
  · refine h.idle ?_ hread rfl
    simp only [move, hsame]
    exact Idle.of_same rfl rfl rfl rfl
  · have hopen : w.c.s.state ≠ .closed := by
      rcases hst with hst | hst <;> simp [hst]
    obtain ⟨ring, hring⟩ := Option.ne_none_iff_exists'.mp fun hno => hopen (h.buffer hno)
    rw [hring, Option.getD_some] at hread hs
    obtain ⟨hvalid, hsplit⟩ := takeOut_spec ring h.valid hn
    obtain ⟨-, hbuf⟩ := takeOut_entries w.c.s.rcv ring n
    have hentries : (w.c.s.rcv.takeOut ring n).2.rcvBufEntries = w.c.s.rcv.rcvBufEntries - n := by
      unfold RcvBuffer.takeOut
      split <;> rfl
    have hsize : (w.c.s.rcv.takeOut ring n).2.rcvBufSize = w.c.s.rcv.rcvBufSize := by
      unfold RcvBuffer.takeOut
      split <;> rfl
    have hlen : (w.c.s.rcv.takeOut ring n).1.length = n := by
      have hcount := congrArg List.length hsplit
      rw [length_append, RcvBuffer.contents, RcvBuffer.contents, length_window, length_window,
        hentries] at hcount
      omega
    have hright : (w.step cfg (.recv userBufLen resolves)).2.right = w.right + n := by
      simp [Window.step, move, hread, hlen, acceptsFin]
    obtain ⟨hsorted, hbelow⟩ := edges_step h.sorted h.below (hright ▸ Nat.le_add_right _ _)
      (firstSent cfg w.c (.recv userBufLen resolves))
    have hle := h.valid.entries
    have hlength := h.length
    have hroom := h.room
    have hs' : (w.step cfg (.recv userBufLen resolves)).2.c.s = { w.c.s with
        rcv := (w.c.s.rcv.takeOut ring n).2, forcePureAck := force } := hs
    refine ⟨?_, ?_, ?_, ?_, ?_, ?_, ?_, hsorted, hbelow⟩
    · rw [hs']
      exact hvalid
    · rw [hs']
      exact hsize.trans h.length
    · rw [hright, hs']
      dsimp only
      omega
    · rw [hright, hs']
      rw [h.ackNum, hentries]
      congr 2
      omega
    · rw [hs']
      exact h.reads
    · rw [hs']
      intro hnone
      rw [hbuf, hring] at hnone
      cases hnone
    · rw [hs']
      exact h.syn

/-- What an accepted segment leaves in the ring. -/
theorem Promised.stored (hopen : w.c.s.state ≠ .closed) (hacc : w.c.s.accepts cfg g = true) :
    (w.c.s.stored g.data).Valid ∧ (w.c.s.stored g.data).rcvBufSize = size ∧
      (w.c.s.stored g.data).rcvBufEntries = w.c.s.rcv.rcvBufEntries + g.data.length ∧
      (w.c.s.stored g.data).rcvBuffer ≠ none := by
  obtain ⟨ring, hring⟩ := Option.ne_none_iff_exists'.mp fun hno => hopen (h.buffer hno)
  by_cases hnil : g.data = []
  · have hsame : w.c.s.stored g.data = w.c.s.rcv := if_pos (.inl hnil)
    rw [hsame, hnil, hring]
    exact ⟨h.valid, h.length, rfl, nofun⟩
  · have hroom : w.c.s.hasRoom cfg g.data = true := by
      simp only [TcpSocket.accepts, Bool.and_eq_true] at hacc
      exact hacc.2
    have hfits : g.data.length ≤ w.c.s.rcv.rcvBufSize - w.c.s.rcv.rcvBufEntries := by
      simpa [TcpSocket.hasRoom, hnil, h.reads, hring] using hroom
    obtain ⟨r, hadd⟩ := Option.ne_none_iff_exists'.mp fun hno =>
      not_lt.mpr hfits (addToRcvBuf_eq_none.mp hno)
    have hstored : w.c.s.stored g.data = r := by
      unfold TcpSocket.stored
      rw [if_neg (by simp [hnil, h.reads]), hring]
      dsimp only
      rw [hadd, Option.getD_some]
    obtain ⟨hentries, hvalid, ring', hbuf, -⟩ := addToRcvBuf_spec h.valid hadd
    have hsize : r.rcvBufSize = w.c.s.rcv.rcvBufSize := by
      unfold addToRcvBuf at hadd
      split at hadd
      · cases hadd
      · split at hadd <;> exact (Option.some.inj hadd) ▸ rfl
    rw [hstored, hbuf]
    exact ⟨hvalid, hsize.trans h.length, hentries, nofun⟩

/-- An accepted segment takes from the window what it moves `ackNum` on. -/
theorem Promised.accepted {resolves : Bool}
    (hopen : w.c.s.state ≠ .closed) (hwait : w.c.s.state ≠ .timeWait)
    (hacc : w.c.s.accepts cfg g = true) :
    Promised base size (w.step cfg (.segment resolves g)).2 := by
  have hto := process2_accepted resolves h.syn hacc
  have hmove : (move cfg w.c (.segment resolves g)).2 = process2 cfg resolves g w.c := by
    simp [move, receive, hopen, hwait]
  rw [← hmove] at hto
  obtain ⟨hvalid, hsize, hentries, hbuf⟩ := h.stored hopen hacc
  have hright : (w.step cfg (.segment resolves g)).2.right =
      w.right + if g.codeBits.fin && takesFin w.c.s.state then 1 else 0 := by
    simp [Window.step, move, Answer.none, acceptsFin, hacc]
  obtain ⟨hsorted, hbelow⟩ := edges_step h.sorted h.below (hright ▸ Nat.le_add_right _ _)
    (firstSent cfg w.c (.segment resolves g))
  have hrcv : (w.step cfg (.segment resolves g)).2.c.s.rcv = w.c.s.stored g.data := hto.rcv
  have hroom := h.room
  have hle := hvalid.entries
  refine ⟨?_, ?_, ?_, ?_, hto.disableReads.trans h.reads, ?_, ?_, hsorted, hbelow⟩
  · rw [hrcv]
    exact hvalid
  · rw [hrcv]
    exact hsize
  · rw [hrcv, hright, hentries]
    omega
  · rw [hrcv, hright, hentries]
    change (move cfg w.c (.segment resolves g)).2.s.ackNum = _
    rw [hto.ackNum, h.ackNum]
    generalize hfin : (if g.codeBits.fin && takesFin w.c.s.state then 1 else 0 : Nat) = fin
    have hfin' : (if g.codeBits.fin && takesFin w.c.s.state then 1 else 0 : UInt32) =
        UInt32.ofNat fin := by
      rw [← hfin]
      split <;> rfl
    rw [hfin', UInt32.add_assoc, UInt32.add_assoc, ← UInt32.ofNat_add, ← UInt32.ofNat_add]
    congr 2
    omega
  · intro hnone
    rw [hrcv] at hnone
    exact absurd hnone hbuf
  · intro hst
    have hnext : nextState g.codeBits.fin (w.c.s.ackIsCurrent g) w.c.s.state = .synSent :=
      hto.state.symm.trans hst
    exact h.syn (nextState_synSent hnext)

/-- **Every move** keeps the promise. -/
theorem promised_step (hmv : mv ≠ .shutdownRead) :
    Promised base size (w.step cfg mv).2 := by
  cases mv with
  | segment resolves g =>
    by_cases hgone : w.c.s.state = .closed ∨ w.c.s.state = .timeWait
    · refine h.idle ?_ rfl ?_
      · simp only [move, receive, if_pos hgone]
        exact Idle.of_same rfl rfl rfl rfl
      · rcases hgone with hst | hst <;> simp [acceptsFin, hst, takesFin]
    · obtain ⟨hopen, hwait⟩ := not_or.mp hgone
      cases hacc : w.c.s.accepts cfg g with
      | true => exact h.accepted hopen hwait hacc
      | false =>
        refine h.idle ?_ rfl (by simp [acceptsFin, hacc])
        simp only [move, receive, if_neg hgone]
        exact (process2_rejected resolves h.syn hacc).idle
  | drive env => exact h.idle (driveSocket_idle cfg env w.c) rfl rfl
  | recv userBufLen resolves => exact h.recv userBufLen resolves
  | send userBuf =>
    refine h.idle ?_ rfl rfl
    obtain ⟨out, hs⟩ := send_s cfg userBuf w.c
    simp only [move, hs]
    exact Idle.of_same rfl rfl rfl rfl
  | enqueue data =>
    refine h.idle ?_ rfl rfl
    obtain ⟨out, hs⟩ := enqueueData_s cfg data w.c
    simp only [move, hs]
    exact Idle.of_same rfl rfl rfl rfl
  | shutdownRead => exact absurd rfl hmv
  | close => exact h.idle (closeLocal_idle cfg w.c) rfl rfl
  | others m => exact h.idle (Idle.of_same rfl rfl rfl rfl) rfl rfl

end

end

/-! ## 3. What goes on the wire -/

/-- The wire grows by packets that give the edge `e`. -/
def Grows (e : UInt32) (m m' : Shared) : Prop :=
  ∃ more, m'.wire = m.wire ++ more ∧ ∀ q ∈ more, q.headers.rightEdge = e

theorem Grows.refl (e : UInt32) (m : Shared) : Grows e m m := ⟨[], (append_nil _).symm, by simp⟩

variable {e : UInt32} {m : Shared} {cfg : Config} {b : BufId} {c : Ctx}

variable {m' : Shared} {s s' : TcpSocket} {w : Window} {mv : Move}

theorem Grows.of_same (h : m'.wire = m.wire) : Grows e m m' :=
  ⟨[], h.trans (append_nil _).symm, by simp⟩

theorem Grows.trans {m1 m2 : Shared} (h1 : Grows e m m1) (h2 : Grows e m1 m2) : Grows e m m2 := by
  obtain ⟨more1, hw1, hq1⟩ := h1
  obtain ⟨more2, hw2, hq2⟩ := h2
  refine ⟨more1 ++ more2, by rw [hw2, hw1, append_assoc], fun q hq => ?_⟩
  exact (mem_append.mp hq).elim (hq1 q) (hq2 q)

theorem Grows.drop (h : Grows e m m') :
    ∀ q ∈ m'.wire.drop m.wire.length, q.headers.rightEdge = e := by
  obtain ⟨more, hw, hq⟩ := h
  rw [hw, drop_left]
  exact hq

theorem returnXmitBuf_buf (m : Shared) (b : BufId) : (m.returnXmitBuf b).buf = m.buf := by
  cases b <;> rfl

theorem removeLoop_wire (target : UInt32) (l : List BufId) (c : Ctx) :
    (removeLoop target l c).m.wire = c.m.wire := by
  induction l generalizing c with
  | nil => rfl
  | cons p rest ih =>
    unfold removeLoop
    split
    · rw [ih]
      exact returnXmitBuf_wire _ p
    · rfl

theorem enqueueConnect_wire (cfg : Config) (owner : Nat) (c : Ctx) :
    (enqueueConnect cfg owner c).m.wire = c.m.wire := (enqueue_m cfg (.connect owner) _).2.1

variable (resolves : Bool) (g : Segment)

theorem takeAck_wire (c : Ctx) : (takeAck g c).m.wire = c.m.wire := by
  unfold takeAck
  by_cases hnil : c.s.sent = []
  · simp only [if_pos hnil]
  · simp only [if_neg hnil]
    split <;> exact removeLoop_wire _ _ c

theorem processPacketData_wire (cfg : Config) (data : List UInt8) (c : Ctx) :
    (processPacketData cfg data c).2.m.wire = c.m.wire := by
  unfold processPacketData
  split
  · rfl
  · split
    · split <;> rfl
    · split <;> rfl

theorem changeState_wire (current : Bool) (c : Ctx) :
    (changeState g current c).2.m.wire = c.m.wire := by
  unfold changeState
  split
  · split <;> rfl
  · split <;> rfl
  · split
    · split <;> rfl
    · exact clearQueues_wire c
  · rfl
  · split
    · rfl
    · split <;> rfl
  · split <;> rfl
  · split <;> rfl
  · rfl

theorem processAccepted_wire (cfg : Config) (g : Segment) (c : Ctx) :
    (processAccepted cfg g c).2.m.wire = c.m.wire := by
  unfold processAccepted
  dsimp only
  split
  · rw [changeState_wire, takeAck_wire]
  · split
    · rw [processPacketData_wire, takeAck_wire]
    · rw [changeState_wire, processPacketData_wire, takeAck_wire]

/-- A header that waits still gives the edge of the moment. -/
def Fresh (cfg : Config) (c : Ctx) (b : BufId) : Prop :=
  (c.m.buf b).pendingArp = true → (c.m.buf b).headers.rightEdge = c.s.rightEdge cfg

theorem sendPacket_grows
    (h : Fresh cfg c b) : Grows (c.s.rightEdge cfg) c.m (sendPacket cfg resolves b c).2.m := by
  unfold sendPacket
  split
  · rename_i hwait
    split
    · refine ⟨[_], rfl, fun q hq => ?_⟩
      rw [mem_singleton.mp hq]
      simpa using h hwait
    · exact Grows.refl _ _
  · split
    · refine ⟨[_], rfl, fun q hq => ?_⟩
      rw [mem_singleton.mp hq]
      simp only [fill, setBuf_self]
      rfl
    · exact Grows.of_same rfl

theorem sendPureAck_grows (cfg : Config) (resolves : Bool) (c : Ctx) :
    Grows (c.s.rightEdge cfg) c.m (sendPureAck cfg resolves c).m := by
  unfold sendPureAck
  split
  · exact Grows.refl _ _
  · refine sendPacket_grows resolves (c := { c with s := { c.s with forcePureAck := true } }.setBuf
      .stack stackBuffer) fun hwait => ?_
    cases hwait

theorem rightEdge_of_same (hack : s'.ackNum = s.ackNum)
    (hrcv : s'.rcv = s.rcv) : s'.rightEdge cfg = s.rightEdge cfg := by
  rw [TcpSocket.rightEdge, TcpSocket.winSize, hack, hrcv]
  rfl

theorem Idle.rightEdge (cfg : Config) (h : Idle s s') : s'.rightEdge cfg = s.rightEdge cfg := by
  rcases h.rcv with hr | ⟨-, hr⟩
  · exact rightEdge_of_same h.ackNum hr
  · rw [TcpSocket.rightEdge, TcpSocket.winSize, h.ackNum, hr]
    rfl

theorem sendPureAck_rightEdge (cfg : Config) (resolves : Bool) (c : Ctx) :
    (sendPureAck cfg resolves c).s.rightEdge cfg = c.s.rightEdge cfg := by
  obtain ⟨force, hs⟩ := sendPureAck_s cfg resolves c
  rw [hs]
  rfl

theorem probe_grows (cfg : Config) (resolves : Bool) (c : Ctx) :
    Grows (c.s.rightEdge cfg) c.m (probe cfg resolves c).m :=
  sendPureAck_grows cfg resolves { c with s := { c.s with forceProbe := true } }

/-- A buffer that waits after a step waited before it, with the header it has. -/
def StillWaits (c c' : Ctx) (b : BufId) : Prop :=
  (c'.m.buf b).pendingArp = true →
    (c.m.buf b).pendingArp = true ∧ (c'.m.buf b).headers = (c.m.buf b).headers

theorem Fresh.step {c' : Ctx} (h : Fresh cfg c b) (hstill : StillWaits c c' b)
    (hedge : c'.s.rightEdge cfg = c.s.rightEdge cfg) : Fresh cfg c' b := by
  intro hwait
  obtain ⟨hwaited, hheaders⟩ := hstill hwait
  rw [hheaders, hedge]
  exact h hwaited

theorem sendPacket_stillWaits {resolves : Bool} (hsent : (sendPacket cfg resolves b c).1 = false)
    (a : BufId) : StillWaits c (sendPacket cfg resolves b c).2 a := by
  intro hwait
  by_cases hab : a = b
  · unfold sendPacket at hwait hsent
    split at hsent
    · split at hsent
      · simp_all [Ctx.transmit]
      · cases hsent
    · split at hsent
      · simp_all [Ctx.transmit, fill, TcpBuffer.filled]
      · cases hsent
  · have hsame : (sendPacket cfg resolves b c).2.m.buf a = c.m.buf a := by
      unfold sendPacket
      split
      · split
        · simp [Ctx.transmit, Ctx.setBuf, Shared.setBuf, hab]
        · rfl
      · split <;> simp [Ctx.transmit, fill, Ctx.setBuf, Shared.setBuf, hab]
    rw [hsame] at hwait ⊢
    exact ⟨hwait, rfl⟩

theorem afterSend_buf (c : Ctx) (b a : BufId) :
    ((c.afterSend b).m.buf a).pendingArp = (c.m.buf a).pendingArp ∧
      ((c.afterSend b).m.buf a).headers = (c.m.buf a).headers := by
  unfold Ctx.afterSend
  by_cases hab : a = b
  · subst hab
    dsimp only
    split <;> simp [returnXmitBuf_buf, Shared.setBuf]
  · dsimp only
    split <;> simp [returnXmitBuf_buf, Shared.setBuf, Ctx.setBuf, hab]

theorem afterSend_wire (c : Ctx) (b : BufId) : (c.afterSend b).m.wire = c.m.wire := by
  unfold Ctx.afterSend
  dsimp only
  split
  · rw [returnXmitBuf_wire]
    rfl
  · rfl

theorem driveOutgoing_grows (env : Env) (fuel : Nat) (h : ∀ b ∈ c.s.outgoing, Fresh cfg c b) :
    Grows (c.s.rightEdge cfg) c.m (driveOutgoing cfg env fuel c).m := by
  induction fuel generalizing c with
  | zero => exact Grows.refl _ _
  | succ fuel ih =>
    unfold driveOutgoing
    split
    · exact Grows.refl _ _
    · rename_i b rest hout
      split
      · split
        · split
          · exact probe_grows cfg env.resolves c
          · exact Grows.refl _ _
        · have hb : Fresh cfg c b := h b (by simp [hout])
          have hgrow := sendPacket_grows env.resolves hb
          dsimp only
          split
          · exact hgrow
          · rename_i hsent
            have hidle := sendPacket_idle cfg env.resolves b c
            obtain ⟨sent, hs⟩ := afterSend_s (sendPacket cfg env.resolves b c).2 b
            have hedge : ((sendPacket cfg env.resolves b c).2.afterSend b).s.rightEdge cfg =
                c.s.rightEdge cfg := by
              rw [hs]
              exact hidle.rightEdge cfg
            refine hgrow.trans ((Grows.of_same (afterSend_wire _ b)).trans ?_)
            rw [← hedge]
            refine ih fun a ha => ?_
            have hmem : a ∈ c.s.outgoing := by
              rw [hs] at ha
              have hout' : (sendPacket cfg env.resolves b c).2.s.outgoing = c.s.outgoing := by
                rcases sendPacket_s cfg env.resolves b c with ⟨-, mac, hs'⟩ | ⟨-, hs'⟩
                · rw [hs']
                · rw [hs']
                  rfl
              rw [← hout']
              exact mem_of_mem_tail ha
            refine (h a hmem).step (fun hwait => ?_) hedge
            obtain ⟨hpending, hheaders⟩ := afterSend_buf (sendPacket cfg env.resolves b c).2 b a
            rw [hpending] at hwait
            rw [hheaders]
            exact sendPacket_stillWaits (by simpa using hsent) a hwait
      · exact Grows.refl _ _

/-- A segment is answered at most by an acknowledgement that the socket sends as it is. -/
theorem process2_sends (hsyn : c.s.state ≠ .synSent) :
    (process2 cfg resolves g c).m.wire = c.m.wire ∨
      process2 cfg resolves g c = sendPureAck cfg resolves c := by
  unfold process2
  rw [if_neg hsyn]
  unfold processOther
  by_cases hrst : g.codeBits.rst = true
  · rw [if_pos hrst]
    refine .inl ?_
    by_cases hseq : c.s.seqIsProper g = true
    · simp only [if_pos hseq]
      exact destroy_wire c
    · simp only [if_neg hseq, Bool.false_eq_true, if_false]
  · rw [if_neg hrst]
    by_cases hproper : (c.s.ackIsProper g && c.s.seqIsProper g) = true
    · rw [if_pos hproper]
      refine .inl ?_
      dsimp only
      split
      · rw [enqueueConnect_wire, processAccepted_wire]
      · exact processAccepted_wire cfg g c
    · rw [if_neg hproper]
      exact .inr rfl

theorem receive_grows (hsyn : c.s.state ≠ .synSent) :
    Grows ((receive cfg resolves g c).s.rightEdge cfg) c.m (receive cfg resolves g c).m := by
  unfold receive
  split
  · exact Grows.refl _ _
  · rcases process2_sends resolves g hsyn with hwire | hack
    · exact Grows.of_same hwire
    · rw [hack, sendPureAck_rightEdge]
      exact sendPureAck_grows cfg resolves c

theorem recv_grows (cfg : Config) (resolves : Bool) (userBufLen : Nat) (c : Ctx) :
    Grows ((Mtcp.recv cfg resolves userBufLen c).2.s.rightEdge cfg) c.m
      (Mtcp.recv cfg resolves userBufLen c).2.m := by
  unfold Mtcp.recv
  split
  · exact Grows.refl _ _
  · split
    · exact Grows.refl _ _
    · split
      · rw [sendPureAck_rightEdge]
        exact sendPureAck_grows cfg resolves _
      · exact Grows.refl _ _

theorem getXmitBuf_wire (m : Shared) : m.getXmitBuf.2.wire = m.wire := by
  unfold Shared.getXmitBuf
  split <;> rfl

theorem sendLoop_wire (cfg : Config) (fuel : Nat) (userBuf : List UInt8) (c : Ctx) :
    (sendLoop cfg fuel userBuf c).2.m.wire = c.m.wire := by
  induction fuel generalizing userBuf c with
  | zero => rfl
  | succ fuel ih =>
    unfold sendLoop
    split
    · rfl
    · split
      · split
        · rfl
        · rename_i n m hget
          rw [ih, (enqueue_m cfg (.pool n) _).2.1]
          have hwire := getXmitBuf_wire c.m
          rw [hget] at hwire
          exact hwire
      · rfl

theorem send_wire (cfg : Config) (userBuf : List UInt8) (c : Ctx) :
    (send cfg userBuf c).2.m.wire = c.m.wire := by
  unfold send
  split
  · rfl
  · exact sendLoop_wire cfg _ userBuf c

theorem enqueueData_wire (cfg : Config) (data : List UInt8) (c : Ctx) :
    (enqueueData cfg data c).2.m.wire = c.m.wire := by
  unfold enqueueData
  split
  · rfl
  · rename_i n m hget
    have hwire := getXmitBuf_wire c.m
    rw [hget] at hwire
    have hq := (enqueue_m cfg (.pool n)
      ({ c with m := m }.setBuf (.pool n) fun b => b.withData data)).2.1
    dsimp only
    split
    · exact hq.trans hwire
    · exact (returnXmitBuf_wire _ _).trans (hq.trans hwire)

theorem closeLocal_wire (cfg : Config) (c : Ctx) : (closeLocal cfg c).m.wire = c.m.wire := by
  unfold closeLocal
  split
  iterate 4 rfl
  split
  · rfl
  · split
    · exact enqueueConnect_wire cfg c.s.self _
    · rfl

theorem driveSocket_grows {env : Env} (hnew : retransmits c (.drive env) = false)
    (h : ∀ b ∈ c.s.outgoing, Fresh cfg c b) :
    Grows (c.s.rightEdge cfg) c.m (driveSocket cfg env c).2.m := by
  unfold driveSocket
  split
  · exact driveOutgoing_grows env _ h
  · rename_i b rest hsent
    split
    · exact Grows.of_same (destroy_wire c)
    · split
      · rename_i hexpired
        simp [retransmits, hsent, hexpired] at hnew
      · exact driveOutgoing_grows env _ h

/-- No packet that waits for the address of the peer was filled in at another edge; and the user
goes on reading. -/
def Resolved (cfg : Config) (w : Window) : Move → Prop
  | .shutdownRead => False
  | .drive env => retransmits w.c (.drive env) = false → ∀ b ∈ w.c.s.outgoing, Fresh cfg w.c b
  | _ => True

/-- What a move sends for the first time has the edge of the moment. -/
theorem firstSent_edge (hsyn : w.c.s.state ≠ .synSent) (hok : Resolved cfg w mv) :
    ∀ q ∈ firstSent cfg w.c mv, q.headers.rightEdge = (move cfg w.c mv).2.s.rightEdge cfg := by
  intro q hq
  cases mv with
  | others m => cases hq
  | shutdownRead => exact hok.elim
  | segment resolves g =>
    simp only [firstSent, hsyn] at hq
    exact (receive_grows resolves g hsyn).drop q hq
  | recv userBufLen resolves =>
    simp only [firstSent, hsyn] at hq
    exact (recv_grows cfg resolves userBufLen w.c).drop q hq
  | send userBuf =>
    simp only [firstSent, hsyn] at hq
    exact (Grows.of_same (send_wire cfg userBuf w.c)).drop q hq
  | enqueue data =>
    simp only [firstSent, hsyn] at hq
    exact (Grows.of_same (enqueueData_wire cfg data w.c)).drop q hq
  | close =>
    simp only [firstSent, hsyn] at hq
    exact (Grows.of_same (closeLocal_wire cfg w.c)).drop q hq
  | drive env =>
    cases hnew : retransmits w.c (.drive env) with
    | true => simp [firstSent, hnew] at hq
    | false =>
      simp only [firstSent, hnew, hsyn] at hq
      rw [show (move cfg w.c (.drive env)).2.s.rightEdge cfg = w.c.s.rightEdge cfg from
        (driveSocket_idle cfg env w.c).rightEdge cfg]
      exact (driveSocket_grows hnew (hok hnew)).drop q hq

/-! ## 4. The promise is kept -/

/-- A socket that nothing is known of yet. -/
def Window.start (c : Ctx) : Window := ⟨c, c.s.rcv.rcvBufSize - c.s.rcv.rcvBufEntries, []⟩

/-- Where the byte that `ackNum` expects stands. -/
def Window.expected (cfg : Config) (w : Window) : Nat := w.right - w.c.s.winSize cfg

/-- A segment in order that ends below an edge that was given is taken as a whole. -/
def Window.Takes (cfg : Config) (w : Window) : Prop :=
  ∀ (g : Segment) (ring : Nat → UInt8), w.c.s.rcv.rcvBuffer = some ring →
    g.seqnum = w.c.s.ackNum → (∃ e ∈ w.edges, w.expected cfg + g.data.length ≤ e) →
    ∃ r ring', addToRcvBuf w.c.s.rcv ring g.data = some r ∧ r.rcvBuffer = some ring' ∧
      r.contents ring' = w.c.s.rcv.contents ring ++ g.data

/-- What a step gives the peer, counted from `base`: edges that never go back. -/
structure KeepsEdges (cfg : Config) (base : UInt32) (w : Window) (mv : Move) (r : Answer × Window) :
    Prop where
  given : ∀ q ∈ firstSent cfg w.c mv, q.headers.rightEdge = base + UInt32.ofNat r.2.right
  sorted : r.2.edges.Pairwise (· ≤ ·)
  ackNum : r.2.c.s.state ≠ .synSent → r.2.c.s.ackNum = base + UInt32.ofNat (r.2.expected cfg)
  takes : r.2.Takes cfg

section

variable {cfg : Config} {base : UInt32} {size : Nat} {w : Window}

theorem Promised.takes (h : Promised base size w) : w.Takes cfg := by
  rintro g ring hring - ⟨e, he, hend⟩
  have hbelow := h.below e he
  rw [Window.expected, h.winSize] at hend
  have hfits : ¬ (w.c.s.rcv.rcvBufSize - w.c.s.rcv.rcvBufEntries < g.data.length) := by
    rw [h.length]
    omega
  obtain ⟨r, hadd⟩ : ∃ r, addToRcvBuf w.c.s.rcv ring g.data = some r :=
    Option.ne_none_iff_exists'.mp fun hno => hfits (addToRcvBuf_eq_none.mp hno)
  obtain ⟨-, -, ring', hbuf, hcontents⟩ := addToRcvBuf_spec h.valid hadd
  exact ⟨r, ring', hadd, hbuf, hcontents⟩

variable {mv : Move}

theorem Resolved.reads (h : Resolved cfg w mv) : mv ≠ .shutdownRead := by
  rintro rfl
  exact h

theorem Promised.kept (h : Promised base size w) (hok : Resolved cfg w mv) :
    KeepsEdges cfg base w mv (w.step cfg mv) := by
  have h' : Promised base size (w.step cfg mv).2 := promised_step h hok.reads
  refine ⟨fun q hq => ?_, h'.sorted, fun _ => ?_, h'.takes⟩
  · rw [firstSent_edge h.syn hok q hq]
    exact h'.rightEdge
  · rw [Window.expected, h'.winSize]
    exact h'.ackNum

/-- A socket in SYN_SENT. -/
structure Asking (size : Nat) (w : Window) : Prop where
  valid : w.c.s.rcv.Valid
  length : w.c.s.rcv.rcvBufSize = size
  room : size - w.c.s.rcv.rcvBufEntries ≤ w.right
  reads : w.c.s.disableReads = false
  buffer : w.c.s.rcv.rcvBuffer ≠ none
  state : w.c.s.state = .synSent
  edges : w.edges = []

section

variable (h : Asking size w)
include h

theorem Asking.firstSent (mv : Move) : firstSent cfg w.c mv = [] := by
  cases mv <;> simp [Mtcp.firstSent, h.state]

/-- A move in SYN_SENT leaves the ring as it is. -/
theorem Asking.move (hmv : mv ≠ .shutdownRead) :
    KeepsRcv w.c.s (move cfg w.c mv).2.s ∧
      (Mtcp.move cfg w.c mv).2.s.disableReads = w.c.s.disableReads := by
  have hopen : ¬ (w.c.s.state = .closed ∨ w.c.s.state = .timeWait) := by simp [h.state]
  cases mv with
  | segment resolves g =>
    have hto := process2_synSent cfg resolves g h.state
    simp only [Mtcp.move, receive, if_neg hopen]
    exact ⟨hto.rcv, hto.disableReads⟩
  | drive env =>
    have hidle := driveSocket_idle cfg env w.c
    exact ⟨hidle.rcv, hidle.disableReads⟩
  | recv userBufLen resolves =>
    rcases recv_cases cfg resolves userBufLen w.c with ⟨-, hsame⟩ | ⟨hst, -⟩
    · rw [Mtcp.move, hsame]
      exact ⟨.inl rfl, rfl⟩
    · rcases hst with hst | hst <;> rw [h.state] at hst <;> cases hst
  | send userBuf =>
    obtain ⟨out, hs⟩ := send_s cfg userBuf w.c
    rw [Mtcp.move, hs]
    exact ⟨.inl rfl, rfl⟩
  | enqueue data =>
    obtain ⟨out, hs⟩ := enqueueData_s cfg data w.c
    rw [Mtcp.move, hs]
    exact ⟨.inl rfl, rfl⟩
  | shutdownRead => exact absurd rfl hmv
  | close =>
    have hidle := closeLocal_idle cfg w.c
    exact ⟨hidle.rcv, hidle.disableReads⟩
  | others m => exact ⟨.inl rfl, rfl⟩

/-- The connection still asks, or the number of the peer is known, and no edge was given. -/
theorem Asking.step (hmv : mv ≠ .shutdownRead) :
    Asking size (w.step cfg mv).2 ∨ ∃ base, Promised base size (w.step cfg mv).2 := by
  obtain ⟨hkeeps, hreads⟩ := Asking.move h hmv
  have hedges : (w.step cfg mv).2.edges = [] := by
    simp [Window.step, h.firstSent, h.edges]
  have hright : w.right ≤ (w.step cfg mv).2.right := by
    rw [Window.step, add_assoc]
    exact Nat.le_add_right _ _
  have hring : (w.step cfg mv).2.c.s.rcv.Valid ∧
      (w.step cfg mv).2.c.s.rcv.rcvBufSize = size ∧
      (w.step cfg mv).2.c.s.rcv.rcvBufEntries = w.c.s.rcv.rcvBufEntries := by
    change (Mtcp.move cfg w.c mv).2.s.rcv.Valid ∧ (Mtcp.move cfg w.c mv).2.s.rcv.rcvBufSize = size ∧
      (Mtcp.move cfg w.c mv).2.s.rcv.rcvBufEntries = w.c.s.rcv.rcvBufEntries
    rcases hkeeps with hr | ⟨-, hr⟩
    · rw [hr]
      exact ⟨h.valid, h.length, rfl⟩
    · rw [hr]
      exact ⟨⟨h.valid.first, h.valid.entries, h.valid.last⟩, h.length, rfl⟩
  obtain ⟨hvalid, hlength, hentries⟩ := hring
  have hroom : size - (w.step cfg mv).2.c.s.rcv.rcvBufEntries ≤ (w.step cfg mv).2.right := by
    rw [hentries]
    exact le_trans h.room hright
  have hbuffer : (w.step cfg mv).2.c.s.rcv.rcvBuffer = none →
      (w.step cfg mv).2.c.s.state = .closed := by
    intro hnone
    rcases hkeeps with hr | ⟨hclosed, -⟩
    · refine absurd ?_ h.buffer
      rw [← hr]
      exact hnone
    · exact hclosed
  by_cases hst : (w.step cfg mv).2.c.s.state = .synSent
  · refine .inl ⟨hvalid, hlength, hroom, hreads.trans h.reads, fun hnone => ?_, hst, hedges⟩
    rw [hbuffer hnone] at hst
    cases hst
  · refine .inr ⟨(w.step cfg mv).2.c.s.ackNum - UInt32.ofNat ((w.step cfg mv).2.right -
      (size - (w.step cfg mv).2.c.s.rcv.rcvBufEntries)), hvalid, hlength, hroom, ?_,
      hreads.trans h.reads, hbuffer, hst, ?_, ?_⟩
    · rw [UInt32.sub_add_cancel]
    · rw [hedges]
      exact List.Pairwise.nil
    · rw [hedges]
      exact nofun

/-- In SYN_SENT nothing is promised. -/
theorem Asking.kept (hnext : Asking size (w.step cfg mv).2)
    (base : UInt32) : KeepsEdges cfg base w mv (w.step cfg mv) := by
  refine ⟨?_, ?_, ?_, ?_⟩
  · rw [h.firstSent]
    exact nofun
  · rw [hnext.edges]
    exact List.Pairwise.nil
  · exact fun hne => absurd hnext.state hne
  · rintro g ring - - ⟨e, he, -⟩
    rw [hnext.edges] at he
    cases he

end

variable {moves : List Move}

/-- Once the number of the peer is known, every step of the run keeps the promise. -/
theorem Promised.run (h : Promised base size w)
    (hok : Guarded (Window.step cfg) (Resolved cfg) w moves) :
    Along (Window.step cfg) (KeepsEdges cfg base) w moves :=
  Along.of_invariant (I := Promised base size) (fun _ _ h hok => promised_step h hok.reads)
    (fun _ _ h hok => h.kept hok) moves w h hok

/-- The step that takes the number of the peer, and what comes before it, give no edge. -/
theorem Asking.keptFirst (h : Asking size w) (hnext : Promised base size (w.step cfg mv).2) :
    KeepsEdges cfg base w mv (w.step cfg mv) := by
  refine ⟨?_, hnext.sorted, fun _ => ?_, hnext.takes⟩
  · rw [h.firstSent]
    exact nofun
  · rw [Window.expected, hnext.winSize]
    exact hnext.ackNum

theorem Asking.run (h : Asking size w) (hok : Guarded (Window.step cfg) (Resolved cfg) w moves) :
    ∃ base, Along (Window.step cfg) (KeepsEdges cfg base) w moves := by
  induction moves generalizing w with
  | nil => exact ⟨0, trivial⟩
  | cons mv moves ih =>
    obtain ⟨hmv, hrest⟩ := hok
    rcases Asking.step h hmv.reads with hnext | ⟨base, hnext⟩
    · obtain ⟨base, hrun⟩ := ih hnext hrest
      exact ⟨base, h.kept hnext base, hrun⟩
    · exact ⟨base, h.keptFirst hnext, hnext.run hrest⟩

end

/-- **The window is kept**, in every run in which no packet waits for an address with a header that
was filled in at another edge: the packets that are sent for the first time give the right edges
`base + right`, which never go back, and what ends below one of them is taken. -/
theorem window_kept (cfg : Config) (c : Ctx) (moves : List Move) (hvalid : c.s.rcv.Valid)
    (hbuffer : c.s.rcv.rcvBuffer ≠ none) (hreads : c.s.disableReads = false)
    (hok : Guarded (Window.step cfg) (Resolved cfg) (Window.start c) moves) :
    ∃ base, Along (Window.step cfg) (KeepsEdges cfg base) (Window.start c) moves := by
  by_cases hsyn : c.s.state = .synSent
  · exact Asking.run
      ⟨hvalid, rfl, le_rfl, hreads, hbuffer, hsyn, rfl⟩ hok
  · have hstart : Promised c.s.ackNum c.s.rcv.rcvBufSize (Window.start c) := by
      refine ⟨hvalid, rfl, le_rfl, ?_, hreads, fun hnone => absurd hnone hbuffer, hsyn,
        List.Pairwise.nil, nofun⟩
      simp [Window.start]
    exact ⟨c.s.ackNum, hstart.run hok⟩

instance (cfg : Config) (c : Ctx) (b : BufId) : Decidable (Fresh cfg c b) :=
  inferInstanceAs (Decidable (_ → _))

instance (cfg : Config) (w : Window) (mv : Move) : Decidable (Resolved cfg w mv) :=
  match mv with
  | .shutdownRead => isFalse id
  | .drive env => inferInstanceAs
      (Decidable (retransmits w.c (.drive env) = false → ∀ b ∈ w.c.s.outgoing, Fresh cfg w.c b))
  | .segment _ _ | .recv _ _ | .send _ | .enqueue _ | .close | .others _ => isTrue trivial

/-- The answer to the SYN goes out, and the first byte is taken and acknowledged. -/
theorem window_kept_answering : ∃ base, Along (Window.step someConfig) (KeepsEdges someConfig base)
    (Window.start answering.c) [.drive ⟨false, false, true⟩, .segment true (firstByte 101),
      .recv 10 true, .drive ⟨false, false, true⟩] :=
  window_kept someConfig answering.c _ ⟨by decide +kernel, by decide +kernel, by decide +kernel⟩
    (fun hnone => nomatch congrArg Option.isSome hnone) (by decide +kernel)
    ⟨by decide +kernel, trivial, trivial, by decide +kernel, trivial⟩

/-- The acknowledgement of the first byte is filled in while the address is asked for.  The byte is
read and comes again, the answer has the later edge, and then the acknowledgement goes out. -/
def backwards : List Move :=
  [.drive ⟨false, false, true⟩, .segment true (firstByte 101), .drive ⟨false, false, false⟩,
    .recv 10 true, .segment true (firstByte 101), .drive ⟨false, false, true⟩]

theorem KeepsEdges.edge {base : UInt32} {r : Answer × Window} (h : KeepsEdges cfg base w mv r)
    (he : e ∈ (firstSent cfg w.c mv).map fun q => q.headers.rightEdge) :
    base + UInt32.ofNat r.2.right = e := by
  obtain ⟨q, hq, rfl⟩ := mem_map.mp he
  exact (h.given q hq).symm

/-- A packet that waited gives an edge that is before the one given last. -/
theorem edge_goes_back :
    Begins someConfig shortPeer answering ∧ (∀ mv ∈ backwards, mv ≠ .shutdownRead) ∧
      ((run (Window.step someConfig) (Window.start answering.c) backwards).c.m.wire.map
        fun q => q.headers.rightEdge) = [6025, 6026, 6025] ∧
      ¬ ∃ base, Along (Window.step someConfig) (KeepsEdges someConfig base) (Window.start answering.c)
        backwards := by
  refine ⟨Begins.syn (run (step someConfig) (init 2 1) [.getSocket 0, .listen 1 4000 1024]) 1 0 []
    100 (bare 5000 0 .justSyn) (by decide +kernel) (by unfold SizeOk; decide +kernel) rfl,
    by simp [backwards], by decide +kernel, ?_⟩
  rintro ⟨base, h⟩
  have hfirst : base + 1024 = 6025 :=
    (h.at_step []).edge (by decide +kernel)
  have hlast : base + 1025 = 6025 :=
    (h.at_step (backwards.take 5)).edge (by decide +kernel)
  have heq : (1024 : UInt32) = 1025 := (UInt32.add_right_inj base).mp (hfirst.trans hlast.symm)
  cases heq

end SdcBoot.Mtcp
