/-
# mTCP: what is received is the stream of the peer

`process2` compares sequence numbers, `addToRcvBuf` copies into the receive ring,
`processPacketData` moves `ackNum` on, and the user takes the bytes out with `recv`.  Together: what
was delivered and what waits in the ring are the first bytes of the peer's stream, and `ackNum`
stands behind them.

The comparison has one exception.  SYN_RECVED also takes the number before the one it expects, for
a SYN that comes again; the code does not look whether the segment IS a SYN.  Data that came before
the connection was open can so be taken twice (`repeated_byte_delivered`).  And where the peer has
sent its FIN, data behind the FIN is still taken, as a comment of the source says.  In every run
without such segments the stream is delivered (`delivers_run`).
-/
import SdcBoot.Lib.Ring
import SdcBoot.Mtcp.Close
import SdcBoot.Mtcp.Life

namespace SdcBoot.Mtcp

open Lib List Option

/-! ## 1. The receive ring -/

/-- The numbers of the ring fit together. -/
structure RcvBuffer.Valid (r : RcvBuffer) : Prop where
  first : r.rcvBufFirst < r.rcvBufSize
  entries : r.rcvBufEntries ≤ r.rcvBufSize
  last : r.rcvBufLast = (r.rcvBufFirst + r.rcvBufEntries) % r.rcvBufSize

/-- The bytes that wait in the ring. -/
def RcvBuffer.contents (r : RcvBuffer) (ring : Nat → UInt8) : List UInt8 :=
  window r.rcvBufSize ring r.rcvBufFirst r.rcvBufEntries

variable {ring : Nat → UInt8} {data : List UInt8} {s s' : TcpSocket}

variable {k ofs : Nat} {r : RcvBuffer} {st : State}

theorem copyTo_in (h : k < data.length) : copyTo ring ofs data (ofs + k) = data.get ⟨k, h⟩ := by
  simp [copyTo, h]

theorem copyTo_out (h : k < ofs ∨ ofs + data.length ≤ k) : copyTo ring ofs data k = ring k := by
  unfold copyTo
  rw [if_neg (by omega)]

section

variable {size first n last : Nat} {ring : Nat → UInt8} {data : List UInt8}

/-- One copy, where the data ends before the ring does. -/
theorem window_copyTo (hfirst : first < size) (hroom : n + data.length ≤ size)
    (hlast : last = (first + n) % size) (hfits : last + data.length < size) :
    window size (copyTo ring last data) first (n + data.length) =
      window size ring first n ++ data := by
  refine window_write hfirst hroom (fun j hj => ?_) fun x hx hne => ?_
  · rw [← hlast, Nat.mod_eq_of_lt (by omega)]
    exact copyTo_in hj
  · refine copyTo_out ?_
    by_contra hno
    refine hne (x - last) (by omega) ?_
    rw [← hlast, Nat.mod_eq_of_lt (by omega)]
    omega

/-- Two copies: up to the end of the ring, and from its start. -/
theorem window_copyTo_twice (hfirst : first < size) (hroom : n + data.length ≤ size)
    (hlast : last = (first + n) % size) (hover : size ≤ last + data.length) :
    window size (copyTo (copyTo ring last (data.take (size - last))) 0 (data.drop (size - last)))
        first (n + data.length) = window size ring first n ++ data := by
  have hlt : last < size := by
    rw [hlast]
    exact Nat.mod_lt _ (by omega)
  refine window_write hfirst hroom (fun j hj => ?_) fun x hx hne => ?_
  · rw [← hlast]
    by_cases hj1 : j < size - last
    · -- the first copy; the second ends before it
      rw [Nat.mod_eq_of_lt (by omega), copyTo_out (by simp; omega), copyTo_in (by simp; omega)]
      simp
    · have hidx : (last + j) % size = 0 + (j - (size - last)) := by
        have := mod_wrap size (last + j) (by omega)
        omega
      rw [hidx, copyTo_in (by simp; omega)]
      simp only [get_eq_getElem, getElem_drop]
      congr 1
      omega
  · have hsecond : data.length - (size - last) ≤ x := by
      by_contra hno
      refine hne (size - last + x) (by omega) ?_
      rw [← hlast]
      have := mod_wrap size (last + (size - last + x)) (by omega)
      omega
    have hbefore : x < last := by
      by_contra hno
      refine hne (x - last) (by omega) ?_
      rw [← hlast, Nat.mod_eq_of_lt (by omega)]
      omega
    rw [copyTo_out (by simp; omega), copyTo_out (.inl hbefore)]

end

/-- **What is added stands behind what was there.** -/
theorem addToRcvBuf_spec {r' : RcvBuffer} (hv : r.Valid) (h : addToRcvBuf r ring data = some r') :
    r'.rcvBufEntries = r.rcvBufEntries + data.length ∧ r'.Valid ∧
      ∃ ring', r'.rcvBuffer = some ring' ∧ r'.contents ring' = r.contents ring ++ data := by
  obtain ⟨hfirst, hentries, hlast⟩ := hv
  unfold addToRcvBuf at h
  split at h
  · cases h
  · rename_i hno
    have hroom : r.rcvBufEntries + data.length ≤ r.rcvBufSize := by omega
    have hnext : (r.rcvBufFirst + (r.rcvBufEntries + data.length)) % r.rcvBufSize =
        (r.rcvBufLast + data.length) % r.rcvBufSize := by
      rw [hlast, Nat.mod_add_mod, add_assoc]
    have hlt : r.rcvBufLast < r.rcvBufSize := by
      rw [hlast]
      exact Nat.mod_lt _ (by omega)
    have hwrap := mod_wrap r.rcvBufSize (r.rcvBufLast + data.length) (by omega)
    split at h
    · rename_i hfits
      have hfits : r.rcvBufLast + data.length < r.rcvBufSize := by omega
      cases h
      refine ⟨rfl, ⟨hfirst, hroom, ?_⟩, _, rfl, ?_⟩
      · rw [hnext]
        exact (hwrap.resolve_right (by omega)).2.symm
      · exact window_copyTo hfirst hroom hlast hfits
    · rename_i hover
      have hover : r.rcvBufSize ≤ r.rcvBufLast + data.length := by omega
      cases h
      refine ⟨rfl, ⟨hfirst, hroom, ?_⟩, _, rfl, ?_⟩
      · rw [hnext, (hwrap.resolve_left (by omega)).2]
        change data.length - (r.rcvBufSize - r.rcvBufLast) = _
        omega
      · exact window_copyTo_twice hfirst hroom hlast hover

/-- **What is taken out stood in front.** -/
theorem takeOut_spec (ring : Nat → UInt8) {cpyLen : Nat} (hv : r.Valid)
    (hlen : cpyLen ≤ r.rcvBufEntries) :
    (r.takeOut ring cpyLen).2.Valid ∧
      (r.takeOut ring cpyLen).1 ++ (r.takeOut ring cpyLen).2.contents ring = r.contents ring := by
  obtain ⟨hfirst, hentries, hlast⟩ := hv
  have hsplit := window_add r.rcvBufSize ring r.rcvBufFirst cpyLen (r.rcvBufEntries - cpyLen)
  have hwrap := mod_wrap r.rcvBufSize (r.rcvBufFirst + cpyLen) (by omega)
  have hlast' : r.rcvBufLast = ((r.rcvBufFirst + cpyLen) % r.rcvBufSize +
      (r.rcvBufEntries - cpyLen)) % r.rcvBufSize := by
    rw [hlast, Nat.mod_add_mod]
    congr 1
    omega
  rw [Nat.add_sub_cancel' hlen] at hsplit
  unfold RcvBuffer.takeOut
  split
  · rename_i hfits
    have hidx : (r.rcvBufFirst + cpyLen) % r.rcvBufSize = r.rcvBufFirst + cpyLen := by omega
    rw [hidx] at hsplit hlast'
    refine ⟨⟨by simp only; omega, by simp only; omega, hlast'⟩, ?_⟩
    unfold RcvBuffer.contents
    rw [hsplit, window_linear ring _ cpyLen (by omega)]
    rfl
  · rename_i hover
    have hidx : (r.rcvBufFirst + cpyLen) % r.rcvBufSize =
        cpyLen - (r.rcvBufSize - r.rcvBufFirst) := by omega
    rw [hidx] at hsplit hlast'
    refine ⟨⟨by simp only; omega, by simp only; omega, hlast'⟩, ?_⟩
    -- the part up to the end of the ring, and the part from its start
    have hpart := window_add r.rcvBufSize ring r.rcvBufFirst (r.rcvBufSize - r.rcvBufFirst)
      (cpyLen - (r.rcvBufSize - r.rcvBufFirst))
    have hstart : (r.rcvBufFirst + (r.rcvBufSize - r.rcvBufFirst)) % r.rcvBufSize = 0 := by
      rw [Nat.add_sub_cancel' (le_of_lt hfirst), Nat.mod_self]
    have hover : r.rcvBufSize - r.rcvBufFirst ≤ cpyLen := by omega
    rw [hstart, Nat.add_sub_cancel' hover, window_linear ring _
      (r.rcvBufSize - r.rcvBufFirst) (by omega), window_linear ring 0 _ (by omega)] at hpart
    unfold RcvBuffer.contents
    rw [hsplit, hpart]
    rfl

/-! ## 2. Moves that bring nothing in -/

/-- The states in which the FIN of the peer was counted. -/
def afterFin : State → Bool
  | .closeWait | .sendFin2 | .lastAck | .closing | .timeWait => true
  | _ => false

/-- Where the state may go while nothing comes in. -/
def Onward (st st' : State) : Prop :=
  st' = .closed ∨
    (st ≠ .closed ∧ (st' = .synSent ↔ st = .synSent) ∧ (afterFin st = true → afterFin st' = true))

/-- Nothing comes in. -/
structure Idle (s s' : TcpSocket) : Prop where
  ackNum : s'.ackNum = s.ackNum
  disableReads : s'.disableReads = s.disableReads
  rcv : KeepsRcv s s'
  state : Onward s.state s'.state

theorem Onward.refl (st : State) : Onward st st := by
  by_cases h : st = .closed
  · exact .inl h
  · exact .inr ⟨h, Iff.rfl, id⟩

theorem Onward.trans {st1 st2 : State} (h1 : Onward st st1) (h2 : Onward st1 st2) :
    Onward st st2 := by
  rcases h2 with h2 | ⟨hne, hsyn2, hfin2⟩
  · exact .inl h2
  · rcases h1 with h1 | ⟨hne1, hsyn1, hfin1⟩
    · exact absurd h1 hne
    · exact .inr ⟨hne1, hsyn2.trans hsyn1, fun h => hfin2 (hfin1 h)⟩

theorem Idle.of_same (hstate : s'.state = s.state) (hack : s'.ackNum = s.ackNum)
    (hreads : s'.disableReads = s.disableReads) (hrcv : s'.rcv = s.rcv) : Idle s s' :=
  ⟨hack, hreads, .inl hrcv, by rw [hstate]; exact Onward.refl _⟩

theorem Idle.trans {s1 s2 : TcpSocket} (h1 : Idle s s1) (h2 : Idle s1 s2) : Idle s s2 := by
  refine ⟨h2.ackNum.trans h1.ackNum, h2.disableReads.trans h1.disableReads, ?_,
    h1.state.trans h2.state⟩
  rcases h1.rcv with hr1 | ⟨hclosed, hr1⟩
  · rcases h2.rcv with hr2 | ⟨hc2, hr2⟩
    · exact .inl (hr2.trans hr1)
    · exact .inr ⟨hc2, by rw [hr2, hr1]⟩
  · -- a closed socket stays closed
    have hc2 : s2.state = .closed := by
      rcases h2.state with h | ⟨hne, -⟩
      · exact h
      · exact absurd hclosed hne
    rcases h2.rcv with hr2 | ⟨-, hr2⟩
    · exact .inr ⟨hc2, hr2.trans hr1⟩
    · exact .inr ⟨hc2, by rw [hr2, hr1]⟩

theorem advanced_idle (s : TcpSocket) (dataLen : Nat) :
    Idle s (s.advanced dataLen (s.role dataLen)) := by
  refine ⟨rfl, rfl, .inl rfl, ?_⟩
  unfold TcpSocket.advanced
  by_cases hrole : s.role dataLen = .finAck
  · simp only [if_pos hrole]
    rcases role_finAck hrole with h | h | h <;> rw [h] <;>
      exact .inr ⟨by simp, by simp [finSent], by simp [finSent, afterFin]⟩
  · simp only [if_neg hrole]
    exact Onward.refl _

theorem sendPacket_idle (cfg : Config) (resolves : Bool) (b : BufId) (c : Ctx) :
    Idle c.s (sendPacket cfg resolves b c).2.s := by
  rcases sendPacket_s cfg resolves b c with ⟨-, mac, hs⟩ | ⟨-, hs⟩
  · rw [hs]
    exact Idle.of_same rfl rfl rfl rfl
  · rw [hs]
    exact advanced_idle c.s _

theorem driveOutgoing_idle (cfg : Config) (env : Env) (fuel : Nat) (c : Ctx) :
    Idle c.s (driveOutgoing cfg env fuel c).s := by
  induction fuel generalizing c with
  | zero => exact Idle.of_same rfl rfl rfl rfl
  | succ fuel ih =>
    unfold driveOutgoing
    split
    · exact Idle.of_same rfl rfl rfl rfl
    · rename_i b rest hout
      split
      · split
        · split
          · obtain ⟨force, hs⟩ := probe_s cfg env.resolves c
            rw [hs]
            exact Idle.of_same rfl rfl rfl rfl
          · exact Idle.of_same rfl rfl rfl rfl
        · have hsent := sendPacket_idle cfg env.resolves b c
          dsimp only
          split
          · exact hsent
          · obtain ⟨sent, hs⟩ := afterSend_s (sendPacket cfg env.resolves b c).2 b
            have hafter : Idle (sendPacket cfg env.resolves b c).2.s
                ((sendPacket cfg env.resolves b c).2.afterSend b).s := by
              rw [hs]
              exact Idle.of_same rfl rfl rfl rfl
            exact (hsent.trans hafter).trans (ih _)
      · exact Idle.of_same rfl rfl rfl rfl

theorem driveSocket_idle (cfg : Config) (env : Env) (c : Ctx) :
    Idle c.s (driveSocket cfg env c).2.s := by
  unfold driveSocket
  split
  · exact driveOutgoing_idle cfg env _ c
  · split
    · exact ⟨rfl, rfl, .inr ⟨rfl, rfl⟩, .inl rfl⟩
    · split
      · exact Idle.of_same rfl rfl rfl rfl
      · exact driveOutgoing_idle cfg env _ c

theorem closeTarget_onward {st' : State} (h : closeTarget st = some st') : Onward st st' := by
  cases st <;> simp [closeTarget] at h <;> subst h <;> simp [Onward, afterFin]

theorem closeLocal_idle (cfg : Config) (c : Ctx) : Idle c.s (closeLocal cfg c).s := by
  unfold closeLocal
  split
  iterate 4 exact ⟨rfl, rfl, .inl rfl, .inl rfl⟩
  split
  · exact Idle.of_same rfl rfl rfl rfl
  · rename_i st' htarget
    have hgo := closeTarget_onward htarget
    split
    · exact ⟨by simp [Ctx.setState], by simp [Ctx.setState], .inl (by simp [Ctx.setState]),
        by simpa [Ctx.setState] using hgo⟩
    · exact ⟨rfl, rfl, .inl rfl, hgo⟩

theorem RejectedTo.idle {g : Segment} (h : RejectedTo s g s') : Idle s s' := by
  refine ⟨h.ackNum, h.disableReads, h.rcv, ?_⟩
  rcases h.state with hs | ⟨-, hs⟩
  · rw [hs]
    exact Onward.refl _
  · exact .inl hs

/-! ## 3. The peer, and what is noted about the socket -/

/-- The peer: its first sequence number, and the bytes it sends. -/
structure Peer where
  irs : UInt32
  stream : List UInt8

/-- The segment carries bytes of the stream, from byte `k` on; a SYN stands before byte 0. -/
structure Carries (peer : Peer) (g : Segment) (k : Nat) : Prop where
  syn : g.codeBits.syn = true → g.seqnum = peer.irs
  start : g.data ≠ [] → g.codeBits.syn = true → k = 0
  seqnum : g.data ≠ [] → g.codeBits.syn = false → g.seqnum = peer.irs + 1 + UInt32.ofNat k
  data : g.data ≠ [] →
    k + g.data.length ≤ peer.stream.length ∧ g.data = (peer.stream.drop k).take g.data.length

/-- A socket, with what it delivered, how many bytes were put in its ring, whether a FIN was
accepted, and whether the SYN of the peer was. -/
structure Track where
  c : Ctx
  delivered : List UInt8
  put : Nat
  fin : Bool
  synced : Bool

/-- A FIN is accepted. -/
def acceptsFin (cfg : Config) (s : TcpSocket) : Move → Bool
  | .segment _ g => g.codeBits.fin && takesFin s.state && s.accepts cfg g
  | _ => false

/-- A move, and what is noted about it. -/
def Track.step (cfg : Config) (t : Track) (mv : Move) : Answer × Track :=
  let r := move cfg t.c mv
  (r.1,
    { c := r.2
      delivered := t.delivered ++ r.1.read
      put := t.put + (r.2.s.rcv.rcvBufEntries - t.c.s.rcv.rcvBufEntries)
      fin := t.fin || acceptsFin cfg t.c.s mv
      synced := t.synced || decide (r.2.s.state = .synRecved ∨ r.2.s.state = .established) })

/-- **What is promised**: what was delivered is the start of the stream, and the acknowledgement
number counts what was put in the ring. -/
structure Delivers (peer : Peer) (t : Track) : Prop where
  delivered : t.delivered <+: peer.stream
  ackNum : t.synced = true → t.c.s.disableReads = false →
    t.c.s.ackNum = peer.irs + 1 + UInt32.ofNat t.put + if t.fin then 1 else 0

/-- Two places of the stream whose sequence numbers cannot be mistaken for each other. -/
def Near (j k : Nat) : Prop := j < k + 2147483648 ∧ k < j + 2147483648

/-- Data that is taken where it does not belong: in SYN_RECVED at the number before the one that
is expected, and behind a FIN. -/
def Misplaced (s : TcpSocket) (g : Segment) : Prop :=
  (s.state = .synRecved ∧ g.codeBits.syn = false ∧ g.seqnum = s.ackNum - 1) ∨
    (afterFin s.state = true ∧ g.seqnum = s.ackNum)

/-- The segment brings bytes to the ring. -/
def BringsData (cfg : Config) (s : TcpSocket) (g : Segment) : Prop :=
  g.data ≠ [] ∧ s.disableReads = false ∧ s.accepts cfg g = true

/-- **When it is kept**: every segment is of the peer, and those that bring bytes are neither
misplaced nor so old that their numbers have come round. -/
def Expected (cfg : Config) (peer : Peer) (t : Track) : Move → Prop
  | .segment _ g => ∃ k, Carries peer g k ∧
      (BringsData cfg t.c.s g → Near t.put k ∧ ¬ Misplaced t.c.s g)
  | _ => True

/-- The invariant. -/
structure Follows (peer : Peer) (t : Track) : Prop where
  unsynced : t.synced = false →
    (t.c.s.state = .synSent ∨ t.c.s.state = .closed) ∧ t.put = 0 ∧ t.fin = false
  synced : t.synced = true → t.c.s.state ≠ .synSent
  ackNum : t.synced = true → t.c.s.disableReads = false →
    t.c.s.ackNum = peer.irs + 1 + UInt32.ofNat t.put + if t.fin then 1 else 0
  fin : t.fin = true → afterFin t.c.s.state = true ∨ t.c.s.state = .closed
  buffer : t.c.s.rcv.rcvBuffer = none → t.c.s.state = .closed
  delivered : t.delivered <+: peer.stream
  ring : ∀ ring, t.c.s.rcv.rcvBuffer = some ring → t.c.s.rcv.Valid ∧ t.put ≤ peer.stream.length ∧
    t.delivered ++ t.c.s.rcv.contents ring = peer.stream.take t.put

variable {peer : Peer} {t : Track}

theorem Follows.delivers (h : Follows peer t) : Delivers peer t :=
  ⟨h.delivered, h.ackNum⟩

theorem KeepsRcv.entries (h : KeepsRcv s s') : s'.rcv.rcvBufEntries = s.rcv.rcvBufEntries := by
  rcases h with h | ⟨-, h⟩ <;> rw [h]

/-! ## 4. Every move keeps the invariant -/

section

variable {cfg : Config} {peer : Peer} {t : Track}

theorem Follows.buffer_of_keeps (h : Follows peer t) (hrcv : KeepsRcv t.c.s s')
    (hclosed : t.c.s.state = .closed → s'.state = .closed) (hnone : s'.rcv.rcvBuffer = none) :
    s'.state = .closed := by
  rcases hrcv with hr | ⟨hc, -⟩
  · rw [hr] at hnone
    exact hclosed (h.buffer hnone)
  · exact hc

theorem Follows.ring_of_keeps (h : Follows peer t) (hrcv : KeepsRcv t.c.s s')
    (hsome : s'.rcv.rcvBuffer = some ring) :
    s'.rcv.Valid ∧ t.put ≤ peer.stream.length ∧
      t.delivered ++ s'.rcv.contents ring = peer.stream.take t.put := by
  rcases hrcv with hr | ⟨-, hr⟩
  · rw [hr] at hsome ⊢
    exact h.ring ring hsome
  · rw [hr] at hsome
    cases hsome

variable {mv : Move} {fin resolves : Bool}

/-- Nothing comes in. -/
theorem Follows.idle (h : Follows peer t) (hidle : Idle t.c.s (move cfg t.c mv).2.s)
    (hread : (move cfg t.c mv).1.read = [])
    (hfin : acceptsFin cfg t.c.s mv = false) : Follows peer (t.step cfg mv).2 := by
  have hput : (t.step cfg mv).2.put = t.put := by
    simp [Track.step, hidle.rcv.entries]
  have hfin' : (t.step cfg mv).2.fin = t.fin := by simp [Track.step, hfin]
  have hdel : (t.step cfg mv).2.delivered = t.delivered := by simp [Track.step, hread]
  have hclosed : t.c.s.state = .closed → (move cfg t.c mv).2.s.state = .closed := by
    intro hc
    rcases hidle.state with h1 | ⟨hne, -⟩
    · exact h1
    · exact absurd hc hne
  have hsynced : (t.step cfg mv).2.synced = t.synced := by
    cases hs : t.synced with
    | true => simp [Track.step, hs]
    | false =>
      have hwait : (move cfg t.c mv).2.s.state = .synSent ∨
          (move cfg t.c mv).2.s.state = .closed := by
        rcases hidle.state with h1 | ⟨hne, hsyn, -⟩
        · exact .inr h1
        · exact .inl (hsyn.mpr ((h.unsynced hs).1.resolve_right hne))
      rcases hwait with hw | hw <;> simp [Track.step, hs, hw]
  constructor
  · rw [hsynced, hput, hfin']
    intro hs
    refine ⟨?_, (h.unsynced hs).2⟩
    rcases hidle.state with h1 | ⟨hne, hsyn, -⟩
    · exact .inr h1
    · exact .inl (hsyn.mpr ((h.unsynced hs).1.resolve_right hne))
  · rw [hsynced]
    intro hs hst
    rcases hidle.state with h1 | ⟨-, hsyn, -⟩
    · exact nomatch h1.symm.trans hst
    · exact h.synced hs (hsyn.mp hst)
  · rw [hsynced, hput, hfin']
    intro hs hreads
    exact hidle.ackNum.trans (h.ackNum hs (hidle.disableReads.symm.trans hreads))
  · rw [hfin']
    intro hf
    rcases hidle.state with h1 | ⟨hne, -, hgo⟩
    · exact .inr h1
    · exact .inl (hgo ((h.fin hf).resolve_right hne))
  · exact h.buffer_of_keeps hidle.rcv hclosed
  · rw [hdel]
    exact h.delivered
  · rw [hput, hdel]
    exact fun ring => h.ring_of_keeps hidle.rcv

/-- The socket changes in nothing but what is not followed, and reads may be disabled. -/
theorem Follows.shutdownRead (h : Follows peer t) : Follows peer (t.step cfg .shutdownRead).2 := by
  have hsynced : (t.step cfg .shutdownRead).2.synced = t.synced := by
    cases hs : t.synced with
    | true => simp [Track.step, hs]
    | false =>
      rcases (h.unsynced hs).1 with hw | hw <;> simp [Track.step, move, hs, hw]
  constructor
  · rw [hsynced]
    simpa [Track.step, move, acceptsFin] using h.unsynced
  · rw [hsynced]
    exact h.synced
  · intro _ hreads
    cases hreads
  · simpa [Track.step, move, acceptsFin] using h.fin
  · exact h.buffer
  · simpa [Track.step, move, Answer.none] using h.delivered
  · simpa [Track.step, move, Answer.none] using h.ring

/-- `recv` returns nothing, or the front of the ring. -/
theorem recv_cases (cfg : Config) (resolves : Bool) (userBufLen : Nat) (c : Ctx) :
    ((recv cfg resolves userBufLen c).1.getD [] = [] ∧ (recv cfg resolves userBufLen c).2 = c) ∨
      ((c.s.state = .established ∨ c.s.state = .closeWait) ∧ ∃ force n,
        n ≤ c.s.rcv.rcvBufEntries ∧
        (recv cfg resolves userBufLen c).1.getD [] =
          (c.s.rcv.takeOut (c.s.rcv.rcvBuffer.getD fun _ => 0) n).1 ∧
        (recv cfg resolves userBufLen c).2.s = { c.s with
          rcv := (c.s.rcv.takeOut (c.s.rcv.rcvBuffer.getD fun _ => 0) n).2
          forcePureAck := force }) := by
  unfold recv
  split
  · exact .inl ⟨rfl, rfl⟩
  · rename_i hst
    split
    · exact .inl ⟨rfl, rfl⟩
    · refine .inr ⟨?_, ?_⟩
      · rw [not_and_or, not_not, not_not] at hst
        exact hst
      · split
        · obtain ⟨force, h⟩ := sendPureAck_s cfg resolves { c with s := { c.s with rcv :=
            (c.s.rcv.takeOut (c.s.rcv.rcvBuffer.getD fun _ => 0)
              (min userBufLen c.s.rcv.rcvBufEntries)).2 } }
          exact ⟨force, _, min_le_right _ _, rfl, h⟩
        · exact ⟨_, _, min_le_right _ _, rfl, rfl⟩

theorem takeOut_entries (r : RcvBuffer) (ring : Nat → UInt8) (n : Nat) :
    (r.takeOut ring n).2.rcvBufEntries - r.rcvBufEntries = 0 ∧
      (r.takeOut ring n).2.rcvBuffer = r.rcvBuffer := by
  unfold RcvBuffer.takeOut
  split
  · exact ⟨by simp only; omega, rfl⟩
  · exact ⟨by simp only; omega, rfl⟩

/-- `recv`: the bytes go from the ring to the user. -/
theorem Follows.recv (h : Follows peer t) (userBufLen : Nat) (resolves : Bool) :
    Follows peer (t.step cfg (.recv userBufLen resolves)).2 := by
  rcases recv_cases cfg resolves userBufLen t.c with ⟨hread, hsame⟩ | ⟨hst, force, n, hn, hread, hs⟩
  · refine h.idle ?_ hread rfl
    simp only [move, hsame]
    exact Idle.of_same rfl rfl rfl rfl
  · have hopen : t.c.s.state ≠ .closed := by
      rcases hst with hst | hst <;> simp [hst]
    obtain ⟨ring, hring⟩ := Option.ne_none_iff_exists'.mp fun hno => hopen (h.buffer hno)
    obtain ⟨hvalid, hput, heq⟩ := h.ring ring hring
    rw [hring] at hread hs
    obtain ⟨hvalid', hsplit⟩ := takeOut_spec ring hvalid hn
    obtain ⟨hless, hbuf⟩ := takeOut_entries t.c.s.rcv ring n
    have hsynced : t.synced = true := by
      by_contra hno
      rcases (h.unsynced (by simpa using hno)).1 with hw | hw
      · rcases hst with hst | hst <;> simp [hst] at hw
      · exact hopen hw
    have hput' : (t.step cfg (.recv userBufLen resolves)).2.put = t.put := by
      simp [Track.step, move, hs, hless]
    have hdel : (t.step cfg (.recv userBufLen resolves)).2.delivered ++
        (t.c.s.rcv.takeOut ring n).2.contents ring = peer.stream.take t.put := by
      simp only [Track.step, move, hread, getD_some, append_assoc, hsplit]
      exact heq
    constructor
    · intro hs'
      simp [Track.step, hsynced] at hs'
    · intro _ hno
      simp only [Track.step, move, hs] at hno
      exact h.synced hsynced hno
    · intro _ hreads
      rw [hput']
      simpa [Track.step, move, hs, acceptsFin] using
        h.ackNum hsynced (by simpa [Track.step, move, hs] using hreads)
    · simpa [Track.step, move, hs, acceptsFin] using h.fin
    · intro hnone
      simp only [Track.step, move, hs, getD_some, hbuf, hring] at hnone
      cases hnone
    · exact ((prefix_append _ _).trans (hdel ▸ take_prefix _ _))
    · intro ring' hring'
      simp only [Track.step, move, hs, getD_some, hbuf, hring, some.injEq] at hring'
      subst hring'
      rw [hput']
      simp only [Track.step, move, hs, getD_some] at hdel ⊢
      exact ⟨hvalid', hput, hdel⟩

variable {g : Segment} {k : Nat} {current : Bool} {st : State}

/-- In SYN_SENT the SYN of the peer is taken. -/
theorem Follows.synSent (h : Follows peer t) (hsyn : t.c.s.state = .synSent)
    (hcarries : Carries peer g k) : Follows peer (t.step cfg (.segment resolves g)).2 := by
  have hmove : (move cfg t.c (.segment resolves g)).2 = process2 cfg resolves g t.c := by
    simp [move, receive, hsyn]
  have hto := process2_synSent cfg resolves g hsyn
  have hnofin : acceptsFin cfg t.c.s (.segment resolves g) = false := by
    simp [acceptsFin, takesFin, hsyn]
  rcases hto.state with ⟨hst, hack⟩ | ⟨hst, hset, hack, -⟩ | ⟨hst, hack⟩
  · refine h.idle ?_ rfl hnofin
    rw [hmove]
    refine ⟨hack, hto.disableReads, hto.rcv, ?_⟩
    rw [hst, hsyn]
    exact Onward.refl _
  · -- the connection is open
    have hunsynced : t.synced = false := by
      by_contra hno
      exact h.synced (by simpa using hno) hsyn
    obtain ⟨-, hput, hfin⟩ := h.unsynced hunsynced
    have hrcv : (process2 cfg resolves g t.c).s.rcv = t.c.s.rcv := by
      refine hto.rcv.resolve_right fun hno => ?_
      rcases hst with hst | hst <;> simp [hst] at hno
    have hput' : (t.step cfg (.segment resolves g)).2.put = 0 := by
      simp [Track.step, hmove, hrcv, hput]
    have hfin' : (t.step cfg (.segment resolves g)).2.fin = false := by
      simp [Track.step, hfin, hnofin]
    have hsynced : (t.step cfg (.segment resolves g)).2.synced = true := by
      simp [Track.step, hmove, hst.symm]
    have hstate : (t.step cfg (.segment resolves g)).2.c.s.state = .established ∨
        (t.step cfg (.segment resolves g)).2.c.s.state = .synRecved := by
      simpa [Track.step, hmove] using hst
    constructor
    · intro hno
      exact absurd (hsynced.symm.trans hno) (by simp)
    · intro _ hno
      rcases hstate with hst | hst <;> simp [hst] at hno
    · intro _ _
      rw [hput', hfin']
      simp [Track.step, hmove, hack, hcarries.syn hset]
    · intro hno
      exact absurd (hfin'.symm.trans hno) (by simp)
    · intro hnone
      simp only [Track.step, hmove, hrcv] at hnone
      exact absurd (h.buffer hnone) (by simp [hsyn])
    · simpa [Track.step, move, Answer.none] using h.delivered
    · intro ring hring
      rw [hput', ← hput]
      simpa [Track.step, move, receive, hsyn, Answer.none, hrcv] using
        h.ring ring (by simpa [Track.step, hmove, hrcv] using hring)
  · refine h.idle ?_ rfl hnofin
    rw [hmove]
    exact ⟨hack, hto.disableReads, hto.rcv, .inl hst⟩

theorem ofNat_inj_near {j : Nat} (hnear : Near j k)
    (h : UInt32.ofNat j = UInt32.ofNat k) : j = k := by
  have hnat := congrArg UInt32.toNat h
  simp only [UInt32.toNat_ofNat'] at hnat
  unfold Near at hnear
  omega

/-- **A segment that brings bytes stands at the next byte of the stream.** -/
theorem position_eq {put : Nat} (hack : s.ackNum = peer.irs + 1 + UInt32.ofNat put)
    (hcarries : Carries peer g k) (hdata : g.data ≠ []) (hseq : s.seqIsProper g = true)
    (hnear : Near put k) (hplace : ¬ Misplaced s g) : put = k := by
  simp only [TcpSocket.seqIsProper, Bool.or_eq_true, Bool.and_eq_true, beq_iff_eq] at hseq
  refine ofNat_inj_near hnear ?_
  cases hsyn : g.codeBits.syn with
  | false =>
    rcases hseq with hseq | ⟨hst, hseq⟩
    · rw [hcarries.seqnum hdata hsyn, hack] at hseq
      exact ((UInt32.add_right_inj _).mp hseq).symm
    · exact absurd (.inl ⟨hst, hsyn, hseq⟩) hplace
  | true =>
    have hk := hcarries.start hdata hsyn
    have hirs := hcarries.syn hsyn
    subst hk
    rcases hseq with hseq | ⟨-, hseq⟩
    · -- the number of a SYN comes again only after 2^32 bytes
      rw [hirs, hack, UInt32.add_assoc] at hseq
      have hnat := congrArg UInt32.toNat (UInt32.left_eq_add.mp hseq)
      simp only [UInt32.toNat_add, UInt32.toNat_ofNat', UInt32.reduceToNat] at hnat
      unfold Near at hnear
      omega
    · rw [hirs, hack, UInt32.eq_sub_iff_add_eq] at hseq
      exact UInt32.left_eq_add.mp hseq

/-- What an accepted segment makes of the ring and of the bytes that were put in it. -/
theorem Follows.stored (h : Follows peer t) (hopen : t.c.s.state ≠ .closed)
    (hsynced : t.synced = true) (hacc : t.c.s.accepts cfg g = true) (hcarries : Carries peer g k)
    (hok : BringsData cfg t.c.s g → Near t.put k ∧ ¬ Misplaced t.c.s g) :
    ∃ ring n, (t.c.s.stored g.data).rcvBuffer = some ring ∧ (t.c.s.stored g.data).Valid ∧
      (t.c.s.stored g.data).rcvBufEntries = t.c.s.rcv.rcvBufEntries + n ∧
      t.put + n ≤ peer.stream.length ∧
      t.delivered ++ (t.c.s.stored g.data).contents ring = peer.stream.take (t.put + n) ∧
      (t.c.s.disableReads = false → n = g.data.length) := by
  obtain ⟨ring, hring⟩ := Option.ne_none_iff_exists'.mp fun hno => hopen (h.buffer hno)
  obtain ⟨hvalid, hput, heq⟩ := h.ring ring hring
  unfold TcpSocket.stored
  by_cases hnone : g.data = [] ∨ t.c.s.disableReads = true
  · rw [if_pos hnone]
    refine ⟨ring, 0, hring, hvalid, rfl, hput, heq, fun hreads => ?_⟩
    rcases hnone with hnil | hno
    · simp [hnil]
    · exact nomatch hreads.symm.trans hno
  · rw [if_neg hnone, hring]
    obtain ⟨hdata, hreads⟩ := not_or.mp hnone
    have hreads : t.c.s.disableReads = false := by simpa using hreads
    obtain ⟨hnear, hplace⟩ := hok ⟨hdata, hreads, hacc⟩
    simp only [TcpSocket.accepts, Bool.and_eq_true, Bool.not_eq_true'] at hacc
    obtain ⟨⟨-, hseq⟩, hroom⟩ := hacc
    -- a FIN was not counted yet
    have hfin : t.fin = false := by
      by_contra hno
      have hlate := (h.fin (by simpa using hno)).resolve_right hopen
      simp only [TcpSocket.seqIsProper, Bool.or_eq_true, Bool.and_eq_true, beq_iff_eq] at hseq
      rcases hseq with hseq | ⟨hst, -⟩
      · exact hplace (.inr ⟨hlate, hseq⟩)
      · rw [hst] at hlate
        cases hlate
    have hack := h.ackNum hsynced hreads
    rw [hfin] at hack
    obtain rfl := position_eq (by simpa using hack) hcarries hdata hseq hnear hplace
    obtain ⟨hlen, hbytes⟩ := hcarries.data hdata
    have hadd : addToRcvBuf t.c.s.rcv ring g.data ≠ none := by
      intro hno
      have hfull := addToRcvBuf_eq_none.mp hno
      have hempty : g.data.isEmpty = false := by simpa using hdata
      simp only [TcpSocket.hasRoom, hempty, hreads, hring, Bool.false_or, decide_eq_true_eq]
        at hroom
      exact absurd hroom (not_le.mpr hfull)
    obtain ⟨r, hr⟩ := Option.ne_none_iff_exists'.mp hadd
    obtain ⟨hentries, hvalid', ring', hbuf, hcontents⟩ := addToRcvBuf_spec hvalid hr
    simp only [hr, getD_some]
    refine ⟨ring', g.data.length, hbuf, hvalid', hentries, hlen, ?_, fun _ => rfl⟩
    rw [hcontents, ← append_assoc, heq, take_add, ← hbytes]

/-- From a state in which a FIN was counted no other is counted. -/
theorem nextState_afterFin (h : afterFin st = true) :
    afterFin (nextState fin current st) = true ∨ nextState fin current st = .closed := by
  cases st <;> cases fin <;> cases current <;> simp_all [afterFin, nextState]

theorem nextState_takesFin (h : takesFin st = true) :
    afterFin (nextState true current st) = true := by
  cases st <;> cases current <;> simp_all [afterFin, takesFin, nextState]

theorem nextState_synSent (h : nextState fin current st = .synSent) : st = .synSent := by
  cases st <;> cases fin <;> cases current <;> simp_all [nextState]

/-- An accepted segment. -/
theorem Follows.accepted (h : Follows peer t) (hopen : t.c.s.state ≠ .closed)
    (hwait : t.c.s.state ≠ .timeWait) (hsyn : t.c.s.state ≠ .synSent)
    (hacc : t.c.s.accepts cfg g = true) (hcarries : Carries peer g k)
    (hok : BringsData cfg t.c.s g → Near t.put k ∧ ¬ Misplaced t.c.s g) :
    Follows peer (t.step cfg (.segment resolves g)).2 := by
  have hsynced : t.synced = true := by
    by_contra hno
    rcases (h.unsynced (by simpa using hno)).1 with hw | hw
    · exact hsyn hw
    · exact hopen hw
  have hto := process2_accepted resolves hsyn hacc
  have hmove : (move cfg t.c (.segment resolves g)).2 = process2 cfg resolves g t.c := by
    simp [move, receive, hopen, hwait]
  obtain ⟨ring, n, hbuf, hvalid, hentries, hlen, heq, hn⟩ :=
    h.stored hopen hsynced hacc hcarries hok
  have hput : (t.step cfg (.segment resolves g)).2.put = t.put + n := by
    simp [Track.step, hmove, hto.rcv, hentries]
  have hfin : (t.step cfg (.segment resolves g)).2.fin =
      (t.fin || (g.codeBits.fin && takesFin t.c.s.state)) := by
    simp [Track.step, acceptsFin, hacc]
  have hstate : (t.step cfg (.segment resolves g)).2.c.s.state =
      nextState g.codeBits.fin (t.c.s.ackIsCurrent g) t.c.s.state := by
    rw [← hto.state, ← hmove]
    rfl
  have hdel : (t.step cfg (.segment resolves g)).2.delivered = t.delivered := by
    simp [Track.step, move, Answer.none]
  have hrcv : (t.step cfg (.segment resolves g)).2.c.s.rcv = t.c.s.stored g.data := by
    rw [← hto.rcv, ← hmove]
    rfl
  -- a FIN is counted once
  have honce : t.fin = true → takesFin t.c.s.state = false := by
    intro hf
    have hlate := (h.fin hf).resolve_right hopen
    cases hst : t.c.s.state <;> simp_all [afterFin, takesFin]
  constructor
  · intro hno
    simp [Track.step, hsynced] at hno
  · intro _ hno
    exact hsyn (nextState_synSent (hstate.symm.trans hno))
  · intro _ hreads
    have hreads : t.c.s.disableReads = false := by
      rw [← hto.disableReads, ← hmove]
      exact hreads
    have hack : (t.step cfg (.segment resolves g)).2.c.s.ackNum = t.c.s.ackNum +
        UInt32.ofNat g.data.length + if g.codeBits.fin && takesFin t.c.s.state then 1 else 0 := by
      rw [← hto.ackNum, ← hmove]
      rfl
    rw [hack, hput, hfin, h.ackNum hsynced hreads, hn hreads, UInt32.ofNat_add]
    cases hf : t.fin with
    | true =>
      rw [honce hf, Bool.and_false]
      simp only [if_true, Bool.or_false, Bool.false_eq_true, if_false, UInt32.add_zero]
      ac_rfl
    | false =>
      simp only [Bool.false_eq_true, if_false, UInt32.add_zero, Bool.false_or]
      ac_rfl
  · rw [hfin, hstate]
    intro hf
    rcases Bool.or_eq_true_iff.mp hf with hf | hf
    · exact nextState_afterFin ((h.fin hf).resolve_right hopen)
    · obtain ⟨hset, htakes⟩ := Bool.and_eq_true_iff.mp hf
      rw [hset]
      exact .inl (nextState_takesFin htakes)
  · rw [hrcv, hbuf]
    intro hno
    cases hno
  · rw [hdel]
    exact h.delivered
  · rw [hrcv, hbuf, hput, hdel]
    intro ring' hring'
    cases hring'
    exact ⟨hvalid, hlen, heq⟩

/-- **One move keeps the invariant.** -/
theorem follows_step (h : Follows peer t) (hok : Expected cfg peer t mv) :
    Follows peer (t.step cfg mv).2 := by
  cases mv with
  | segment resolves g =>
    obtain ⟨k, hcarries, hok⟩ := hok
    by_cases hgone : t.c.s.state = .closed ∨ t.c.s.state = .timeWait
    · refine h.idle ?_ rfl ?_
      · simp only [move, receive, if_pos hgone]
        exact Idle.of_same rfl rfl rfl rfl
      · rcases hgone with hst | hst <;> simp [acceptsFin, hst, takesFin]
    · obtain ⟨hopen, hwait⟩ := not_or.mp hgone
      by_cases hsyn : t.c.s.state = .synSent
      · exact h.synSent hsyn hcarries
      · cases hacc : t.c.s.accepts cfg g with
        | true => exact h.accepted hopen hwait hsyn hacc hcarries hok
        | false =>
          refine h.idle ?_ rfl (by simp [acceptsFin, hacc])
          simp only [move, receive, if_neg hgone]
          exact (process2_rejected resolves hsyn hacc).idle
  | drive env => exact h.idle (driveSocket_idle cfg env t.c) rfl rfl
  | recv userBufLen resolves => exact h.recv userBufLen resolves
  | send userBuf =>
    refine h.idle ?_ rfl rfl
    obtain ⟨out, hs⟩ := send_s cfg userBuf t.c
    simp only [move, hs]
    exact Idle.of_same rfl rfl rfl rfl
  | enqueue data =>
    refine h.idle ?_ rfl rfl
    obtain ⟨out, hs⟩ := enqueueData_s cfg data t.c
    simp only [move, hs]
    exact Idle.of_same rfl rfl rfl rfl
  | shutdownRead => exact h.shutdownRead
  | close => exact h.idle (closeLocal_idle cfg t.c) rfl rfl
  | others m => exact h.idle (Idle.of_same rfl rfl rfl rfl) rfl rfl

end

/-! ## 5. Whole connections -/

/-- A connection of a socket with a receive buffer begins: by `connect`, or by the SYN of the peer
at a socket that listens. -/
inductive Begins (cfg : Config) (peer : Peer) : Track → Prop where
  | connect (i : Nat) (iss : UInt32) (srcPort host dstPort size : Nat) (m : Shared)
      (hsize : SizeOk size) :
      Begins cfg peer ⟨opened cfg i iss srcPort host dstPort size m, [], 0, false, false⟩
  | syn (w : World) (i j : Nat) (rest : List Nat) (iss : UInt32) (g : Segment)
      (havail : w.m.availSocketTable = j :: rest) (hsize : SizeOk (w.sock i).rcv.rcvBufSize)
      (hirs : g.seqnum = peer.irs) :
      Begins cfg peer ⟨(processSyn cfg iss true g i w).ctx j, [], 0, false, true⟩

theorem Begins.follows {cfg : Config} (h : Begins cfg peer t) : Follows peer t := by
  have hempty : ∀ size, SizeOk size → (⟨some fun _ => 0, 0, 0, 0, size⟩ : RcvBuffer).Valid :=
    fun size hsize => ⟨lt_of_lt_of_le (Nat.zero_lt_succ 511) hsize.1, Nat.zero_le _,
      (Nat.zero_mod _).symm⟩
  cases h with
  | connect i iss srcPort host dstPort size m hsize =>
    have hs := opened_s cfg i iss srcPort host dstPort m hsize
    constructor <;> simp only [hs]
    · exact fun _ => ⟨.inl trivial, trivial, trivial⟩
    iterate 4
      exact fun hno => absurd hno (by simp)
    · exact nil_prefix
    · exact fun ring _ => ⟨hempty size hsize, Nat.zero_le _, rfl⟩
  | syn w i j rest iss g havail hsize hirs =>
    have hs := processSyn_s cfg iss g havail hsize
    constructor <;> simp only [World.ctx, hs]
    · exact fun hno => absurd hno (by simp)
    · exact fun _ => by simp
    · exact fun _ _ => by simp [hirs]
    · exact fun hno => absurd hno (by simp)
    · exact fun hno => absurd hno (by simp)
    · exact nil_prefix
    · exact fun ring _ => ⟨hempty _ hsize, Nat.zero_le _, rfl⟩

/-- **What is delivered is the stream of the peer**, in every state of every run in which no
segment is misplaced. -/
theorem delivers_run (cfg : Config) (peer : Peer) (t : Track) (moves : List Move)
    (hbegins : Begins cfg peer t) (hok : Guarded (Track.step cfg) (Expected cfg peer) t moves) :
    Delivers peer (run (Track.step cfg) t moves) := by
  have hinv : Follows peer (run (Track.step cfg) t moves) :=
    Guarded.run_invariant (I := Follows peer) (fun _ _ h hok => follows_step h hok) moves t
      hbegins.follows hok
  exact hinv.delivers

/-! ## 6. A byte that comes twice -/

/-- Every segment of the moves is the peer's. -/
def Move.FromPeer (peer : Peer) : Move → Prop
  | .segment _ g => ∃ k, Carries peer g k
  | _ => True

/-- A peer that sends two bytes. -/
def shortPeer : Peer := ⟨5000, [97, 98]⟩

/-- The first byte, with some acknowledgement. -/
def firstByte (acknum : UInt32) : Segment :=
  ⟨7, 80, 4000, 5001, acknum, CodeBits.justAck, 8192, 1460, [97], by decide⟩

theorem firstByte_carries (acknum : UInt32) : Carries shortPeer (firstByte acknum) 0 :=
  ⟨nofun, nofun, fun _ _ => rfl,
    fun _ => ⟨Nat.le_succ 1, rfl⟩⟩

theorem bare_carries (seqnum acknum : UInt32) : Carries shortPeer (bare seqnum acknum .justAck) 0 :=
  ⟨nofun, fun h => absurd rfl h, fun h => absurd rfl h,
    fun h => absurd rfl h⟩

/-- A socket listens, and the SYN of the peer is answered on another. -/
def answering : Track :=
  ⟨(processSyn someConfig 100 true (bare 5000 0 .justSyn) 1
    (run (step someConfig) (init 2 1) [.getSocket 0, .listen 1 4000 1024])).ctx 0, [], 0, false,
    true⟩

theorem answering_begins : Begins someConfig shortPeer answering :=
  Begins.syn (run (step someConfig) (init 2 1) [.getSocket 0, .listen 1 4000 1024]) 1 0 [] 100
    (bare 5000 0 .justSyn) (by decide +kernel) (by unfold SizeOk; decide +kernel) rfl

/-- The first byte comes with the acknowledgement that is waited for. -/
theorem answering_delivers :
    Delivers shortPeer (run (Track.step someConfig) answering
      [.drive ⟨false, false, true⟩, .segment true (firstByte 101), .recv 10 true]) := by
  refine delivers_run someConfig shortPeer answering _ answering_begins
    ⟨trivial, ⟨0, firstByte_carries 101, fun _ => ⟨?_, ?_⟩⟩, trivial, trivial⟩
  · unfold Near
    decide +kernel
  · rintro (⟨-, -, h⟩ | ⟨h, -⟩)
    · cases h
    · cases h

/-- The first byte comes twice with an acknowledgement that is older than the one that is waited
for.  The second time it stands at the number before the one expected, which SYN_RECVED takes. -/
theorem repeated_byte_delivered :
    Begins someConfig shortPeer answering ∧
      (∀ mv ∈ ([.drive ⟨false, false, true⟩, .segment true (firstByte 100),
        .segment true (firstByte 100), .segment true (bare 5003 101 .justAck),
        .recv 10 true] : List Move), mv.FromPeer shortPeer) ∧
      ¬ Delivers shortPeer (run (Track.step someConfig) answering
        [.drive ⟨false, false, true⟩, .segment true (firstByte 100),
          .segment true (firstByte 100), .segment true (bare 5003 101 .justAck),
          .recv 10 true]) := by
  refine ⟨answering_begins, ?_, ?_⟩
  · intro mv hmv
    simp only [List.mem_cons, List.not_mem_nil, or_false] at hmv
    rcases hmv with rfl | rfl | rfl | rfl | rfl
    · trivial
    · exact ⟨0, firstByte_carries 100⟩
    · exact ⟨0, firstByte_carries 100⟩
    · exact ⟨0, bare_carries 5003 101⟩
    · trivial
  · intro h
    exact nomatch h.delivered

end SdcBoot.Mtcp
