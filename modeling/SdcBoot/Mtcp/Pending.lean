/-
# The pending counters (`tcp.cpp`, `tcp.h`)

`drivePackets` looks at two counters, `Pending_Outgoing` and `Pending_Sent`, before it goes to
`drivePackets2`.  They are kept beside the rings: `enqueue` counts up, a packet that was sent moves
from one to the other, and the routines that empty a ring count down.  Here these routines carry the
counters along; without them they are those of a socket.

With `TCP_OPT_ENQUEUED_ACKS` a packet takes the place of an acknowledgement that waits alone.  That
acknowledgement leaves the ring and is not counted down.
-/
import SdcBoot.Mtcp.Pool

namespace SdcBoot.Mtcp

open Lib List Function

/-! ## 1. The routines that count -/

/-- `Pending_Sent` and `Pending_Outgoing`. -/
structure Pending where
  sent : UInt16
  outgoing : UInt16
  deriving DecidableEq

/-- `TCP_OPT_ENQUEUED_ACKS`: a packet without data that waits alone is discarded. -/
def discardAck (c : Ctx) : Ctx :=
  match c.s.outgoing with
  | [first] =>
    if c.s.state = .established ∧ (c.m.buf first).dataLen = 0 then
      { s := { c.s with outgoing := [] }, m := c.m.returnXmitBuf first }
    else c
  | _ => c

/-- `enqueue`. -/
def countEnqueue (cfg : Config) (enqueuedAcks : Bool) (b : BufId) (c : Ctx) (p : Pending) :
    Int × Ctx × Pending :=
  if c.s.refuses b then (TCP_RC_BAD, c, p)
  else if (c.m.buf b).dataLen > c.s.maxEnqueueSize then (TCP_RC_TOO_MUCH_DATA, c, p)
  else
    let r := enqueue cfg b (if enqueuedAcks then discardAck c else c)
    (r.1, r.2, if r.1 = TCP_RC_GOOD then { p with outgoing := p.outgoing + 1 } else p)

/-- `clearQueues`. -/
def countClearQueues (c : Ctx) (p : Pending) : Ctx × Pending :=
  (clearQueues c,
    { outgoing := p.outgoing - UInt16.ofNat c.s.outgoing.length
      sent := p.sent - UInt16.ofNat c.s.sent.length })

/-- `destroy`. -/
def countDestroy (c : Ctx) (p : Pending) : Ctx × Pending :=
  (destroy c, (countClearQueues c p).2)

/-- The loop of `removeSentPackets`. -/
def countRemoveLoop (target : UInt32) : List BufId → Ctx → Pending → Ctx × Pending
  | [], c, p => (removeLoop target [] c, p)
  | q :: rest, c, p =>
    if (c.m.buf q).seqNum < target ∨ (target < (c.m.buf q).seqNum ∧
        target < c.s.oldestUnackedSeq ∧ c.s.oldestUnackedSeq < (c.m.buf q).seqNum) then
      countRemoveLoop target rest
        { c with m := (c.m.setBuf q fun x => { x with inUse := false }).returnXmitBuf q }
        { p with sent := p.sent - 1 }
    else
      ({ c with s := { c.s with
          sent := q :: rest, oldestUnackedSeq := (c.m.buf q).headers.seqnum } }, p)

/-- `removeSentPackets`. -/
def countRemoveSentPackets (target : UInt32) (c : Ctx) (p : Pending) : Ctx × Pending :=
  countRemoveLoop target c.s.sent c p

/-- The loop of `drivePackets2` over `outgoing`. -/
def countDriveOutgoing (cfg : Config) (env : Env) : Nat → Ctx → Pending → Ctx × Pending
  | 0, c, p => (c, p)
  | fuel + 1, c, p =>
    match c.s.outgoing with
    | [] => (c, p)
    | b :: _ =>
      if c.s.sent.length < cfg.ringSize then
        if (c.m.buf b).dataLen > c.s.remoteWindow then
          (if env.probeDue then probe cfg env.resolves c else c, p)
        else
          let r := sendPacket cfg env.resolves b c
          if r.1 then (r.2, p)
          else
            countDriveOutgoing cfg env fuel (r.2.afterSend b)
              { outgoing := p.outgoing - 1
                sent := if (r.2.m.buf b).pureAck then p.sent else p.sent + 1 }
      else (c, p)

/-- One socket in `drivePackets2`. -/
def countDriveSocket (cfg : Config) (env : Env) (c : Ctx) (p : Pending) : Bool × Ctx × Pending :=
  match c.s.sent with
  | [] => (false, countDriveOutgoing cfg env c.s.outgoing.length c p)
  | b :: _ =>
    if (c.m.buf b).attempts > cfg.retransCount then
      let r := countDestroy c p
      (true, { r.1 with s := { r.1.s with closeReason := 4 } }, r.2)
    else if env.expired then (false, resendPacket b c, p)
    else (false, countDriveOutgoing cfg env c.s.outgoing.length c p)

/-- The loop of `drivePackets2` over the table. -/
def countDriveTable (cfg : Config) (env : Nat → Env) : List Nat → World → Pending → World × Pending
  | [], w, p => (w, p)
  | i :: rest, w, p =>
    let r := countDriveSocket cfg (env i) (w.ctx i) p
    if r.1 then (w.put i r.2.1, r.2.2) else countDriveTable cfg env rest (w.put i r.2.1) r.2.2

/-- `drivePackets`: without anything pending there is nothing to do. -/
def drivePackets (cfg : Config) (env : Nat → Env) (w : World) (p : Pending) : World × Pending :=
  if p.sent ≠ 0 ∨ p.outgoing ≠ 0 then countDriveTable cfg env w.m.socketTable w p else (w, p)

/-! ## 2. Without the counters -/

theorem countRemoveLoop_ctx (target : UInt32) : ∀ (l : List BufId) (c : Ctx) (p : Pending),
    (countRemoveLoop target l c p).1 = removeLoop target l c
  | [], _, _ => rfl
  | q :: rest, c, p => by
    rw [countRemoveLoop, removeLoop]
    split
    · exact countRemoveLoop_ctx target rest _ _
    · rfl

theorem countDriveOutgoing_ctx (cfg : Config) (env : Env) : ∀ (fuel : Nat) (c : Ctx) (p : Pending),
    (countDriveOutgoing cfg env fuel c p).1 = driveOutgoing cfg env fuel c
  | 0, _, _ => rfl
  | fuel + 1, c, p => by
    rw [countDriveOutgoing, driveOutgoing]
    cases c.s.outgoing with
    | nil => rfl
    | cons b rest =>
      dsimp only
      split
      · split
        · rfl
        · split
          · rfl
          · exact countDriveOutgoing_ctx cfg env fuel _ _
      · rfl

theorem countDriveSocket_ctx (cfg : Config) (env : Env) (c : Ctx) (p : Pending) :
    ((countDriveSocket cfg env c p).1, (countDriveSocket cfg env c p).2.1) =
      driveSocket cfg env c := by
  unfold countDriveSocket driveSocket
  cases c.s.sent with
  | nil => exact congrArg _ (countDriveOutgoing_ctx cfg env _ c p)
  | cons b rest =>
    dsimp only
    split
    · rfl
    · split
      · rfl
      · exact congrArg _ (countDriveOutgoing_ctx cfg env _ c p)

/-- **What the routines do to the sockets** is what they do without the counters. -/
theorem countDriveTable_world (cfg : Config) (env : Nat → Env) :
    ∀ (table : List Nat) (w : World) (p : Pending),
      (countDriveTable cfg env table w p).1 = driveTable cfg env table w
  | [], _, _ => rfl
  | i :: rest, w, p => by
    rw [countDriveTable, driveTable, ← countDriveSocket_ctx cfg (env i) (w.ctx i) p]
    dsimp only
    split
    · rfl
    · exact countDriveTable_world cfg env rest _ _

/-! ## 3. One socket -/

/-- The counters are those of a socket and of all others, whose rings hold `out` and `snt`
entries. -/
structure Counted (cfg : Config) (out snt : Nat) (c : Ctx) (p : Pending) : Prop where
  outgoing : p.outgoing.toNat = out + c.s.outgoing.length
  sent : p.sent.toNat = snt + c.s.sent.length
  outgoingFits : c.s.outgoing.length ≤ cfg.ringSize
  sentFits : c.s.sent.length ≤ cfg.ringSize

section

variable {cfg : Config} {out snt : Nat} {c : Ctx} {p : Pending}

theorem Counted.same (h : Counted cfg out snt c p) {c' : Ctx}
    (hout : c'.s.outgoing = c.s.outgoing) (hsent : c'.s.sent = c.s.sent) :
    Counted cfg out snt c' p :=
  ⟨by rw [hout]; exact h.outgoing, by rw [hsent]; exact h.sent, by rw [hout]; exact h.outgoingFits,
    by rw [hsent]; exact h.sentFits⟩

variable {x : UInt16} {b : BufId}

theorem toNat_add_one (h : x.toNat + 1 < 65536) : (x + 1).toNat = x.toNat + 1 := by
  exact Nat.mod_eq_of_lt h

theorem toNat_sub_length {n : Nat} (h : n ≤ x.toNat) :
    (x - UInt16.ofNat n).toNat = x.toNat - n := by
  have hn : (UInt16.ofNat n).toNat = n :=
    UInt16.toNat_ofNat_of_lt' (lt_of_le_of_lt h (UInt16.toNat_lt_size x))
  rw [UInt16.toNat_sub_of_le _ _ (by rw [UInt16.le_iff_toNat_le, hn]; exact h), hn]

/-- **Emptied rings are counted down.** -/
theorem Counted.clearQueues (h : Counted cfg out snt c p) :
    Counted cfg out snt (countClearQueues c p).1 (countClearQueues c p).2 := by
  refine ⟨?_, ?_, Nat.zero_le _, Nat.zero_le _⟩
  · have hle : c.s.outgoing.length ≤ p.outgoing.toNat := by
      rw [h.outgoing]
      omega
    exact (toNat_sub_length hle).trans (by rw [h.outgoing]; exact Nat.add_sub_cancel _ _)
  · have hle : c.s.sent.length ≤ p.sent.toNat := by
      rw [h.sent]
      omega
    exact (toNat_sub_length hle).trans (by rw [h.sent]; exact Nat.add_sub_cancel _ _)

theorem Counted.destroy (h : Counted cfg out snt c p) :
    Counted cfg out snt (countDestroy c p).1 (countDestroy c p).2 :=
  h.clearQueues.same rfl rfl

/-- Where an acknowledgement that waits alone is discarded. -/
def Discards (enqueuedAcks : Bool) (b : BufId) (c : Ctx) : Prop :=
  enqueuedAcks = true ∧ c.s.refuses b = false ∧ (c.m.buf b).dataLen ≤ c.s.maxEnqueueSize ∧
    (discardAck c).s.outgoing ≠ c.s.outgoing

theorem discardAck_sent (c : Ctx) : (discardAck c).s.sent = c.s.sent := by
  unfold discardAck
  split
  · split
    · rfl
    · rfl
  · rfl

/-- **A packet that is queued is counted.** -/
theorem Counted.enqueue (h : Counted cfg out snt c p) (hroom : out + cfg.ringSize < 65536)
    {enqueuedAcks : Bool} (hno : ¬ Discards enqueuedAcks b c) :
    Counted cfg out snt (countEnqueue cfg enqueuedAcks b c p).2.1
      (countEnqueue cfg enqueuedAcks b c p).2.2 := by
  unfold countEnqueue
  by_cases hrefuses : c.s.refuses b = true
  · rw [if_pos hrefuses]
    exact h
  · rw [if_neg hrefuses]
    by_cases hbig : (c.m.buf b).dataLen > c.s.maxEnqueueSize
    · rw [if_pos hbig]
      exact h
    · rw [if_neg hbig]
      have hkeep : (if enqueuedAcks then discardAck c else c).s.outgoing = c.s.outgoing := by
        cases hacks : enqueuedAcks with
        | false => rfl
        | true =>
          by_contra hne
          exact hno ⟨hacks, by simpa using hrefuses, not_lt.mp hbig, hne⟩
      have hsent : (if enqueuedAcks then discardAck c else c).s.sent = c.s.sent := by
        split
        · exact discardAck_sent c
        · rfl
      have h0 := h.same hkeep hsent
      generalize (if enqueuedAcks then discardAck c else c) = c0 at h0
      dsimp only
      unfold Mtcp.enqueue
      split
      · exact h0
      · split
        · exact h0
        · split
          · exact h0.same rfl rfl
          · next hlen =>
            have hfits := h0.outgoingFits
            have hcount := h0.outgoing
            have hroom' : c0.s.outgoing.length + 1 ≤ cfg.ringSize := by omega
            refine ⟨?_, h0.sent, ?_, h0.sentFits⟩
            · rw [if_pos rfl]
              rw [toNat_add_one (by omega), hcount, length_append, length_singleton]
              omega
            · rw [length_append, length_singleton]
              exact hroom'

/-- **An acknowledged packet is counted down.** -/
theorem Counted.removeLoop (target : UInt32) : ∀ (l : List BufId) {c : Ctx} {p : Pending},
    p.outgoing.toNat = out + c.s.outgoing.length → p.sent.toNat = snt + l.length →
    c.s.outgoing.length ≤ cfg.ringSize → l.length ≤ cfg.ringSize →
    Counted cfg out snt (countRemoveLoop target l c p).1 (countRemoveLoop target l c p).2
  | [], _, _, hout, hsent, hofits, _ => ⟨hout, hsent, hofits, Nat.zero_le _⟩
  | q :: rest, c, p, hout, hsent, hofits, hsfits => by
    rw [length_cons] at hsent hsfits
    rw [countRemoveLoop]
    split
    · have hone : (p.sent - UInt16.ofNat 1).toNat = p.sent.toNat - 1 :=
        toNat_sub_length (by omega)
      refine Counted.removeLoop target rest ?_ ?_ ?_ (by omega)
      · cases q <;> exact hout
      · exact hone.trans (by omega)
      · cases q <;> exact hofits
    · exact ⟨hout, hsent, hofits, hsfits⟩

theorem Counted.removeSentPackets (h : Counted cfg out snt c p) (target : UInt32) :
    Counted cfg out snt (countRemoveSentPackets target c p).1
      (countRemoveSentPackets target c p).2 :=
  Counted.removeLoop target c.s.sent h.outgoing h.sent h.outgoingFits h.sentFits

theorem afterSend_rings (b : BufId) :
    (c.afterSend b).s.outgoing = c.s.outgoing.tail ∧ (c.afterSend b).s.sent =
      if (c.m.buf b).pureAck then c.s.sent else c.s.sent ++ [b] := by
  unfold Ctx.afterSend
  simp only [setBuf_self]
  split
  · cases b <;> exact ⟨rfl, rfl⟩
  · exact ⟨rfl, rfl⟩

/-- A packet that was sent moves from one ring, and from one counter, to the other. -/
theorem Counted.afterSend (h : Counted cfg out snt c p) (hroom : snt + cfg.ringSize < 65536)
    {rest : List BufId} (hout : c.s.outgoing = b :: rest) (hfree : c.s.sent.length < cfg.ringSize) :
    Counted cfg out snt (c.afterSend b)
      { outgoing := p.outgoing - 1
        sent := if (c.m.buf b).pureAck then p.sent else p.sent + 1 } := by
  have hcount := h.outgoing
  have hsent := h.sent
  have hfits := h.outgoingFits
  rw [hout, length_cons] at hcount hfits
  have hone : (p.outgoing - UInt16.ofNat 1).toNat = p.outgoing.toNat - 1 :=
    toNat_sub_length (by omega)
  have htail : c.s.outgoing.tail.length = rest.length := by
    rw [hout, tail_cons]
  obtain ⟨hrout, hrsent⟩ := afterSend_rings (c := c) b
  have hleft : (p.outgoing - 1).toNat = out + c.s.outgoing.tail.length := by
    refine hone.trans ?_
    omega
  have hkeeps : c.s.outgoing.tail.length ≤ cfg.ringSize := by omega
  cases hp : (c.m.buf b).pureAck with
  | true =>
    rw [hp, if_pos rfl] at hrsent
    exact ⟨by rw [hrout]; exact hleft, by rw [hrsent]; exact hsent, by rw [hrout]; exact hkeeps,
      by rw [hrsent]; exact h.sentFits⟩
  | false =>
    rw [hp, if_neg Bool.false_ne_true] at hrsent
    have hmore : (p.sent + 1).toNat = p.sent.toNat + 1 := toNat_add_one (by omega)
    refine ⟨by rw [hrout]; exact hleft, ?_, by rw [hrout]; exact hkeeps, ?_⟩
    · rw [hrsent, length_append, length_singleton]
      exact hmore.trans (by omega)
    · rw [hrsent, length_append, length_singleton]
      exact hfree

/-- **The loop over the packets that wait.** -/
theorem Counted.driveOutgoing (hroom : snt + cfg.ringSize < 65536) (env : Env) :
    ∀ (fuel : Nat) {c : Ctx} {p : Pending}, Counted cfg out snt c p →
      Counted cfg out snt (countDriveOutgoing cfg env fuel c p).1
        (countDriveOutgoing cfg env fuel c p).2
  | 0, _, _, h => h
  | fuel + 1, c, p, h => by
    rw [countDriveOutgoing]
    cases hout : c.s.outgoing with
    | nil => exact h
    | cons b rest =>
      dsimp only
      split
      · next hfree =>
        split
        · split
          · obtain ⟨force, hprobe⟩ := probe_s cfg env.resolves c
            exact h.same (by rw [hprobe]) (by rw [hprobe])
          · exact h
        · obtain ⟨hrout, hrsent, -, -⟩ := sendPacket_rings cfg env.resolves b c
          have hsend := h.same hrout hrsent
          split
          · exact hsend
          · refine Counted.driveOutgoing hroom env fuel ?_
            exact hsend.afterSend hroom (hrout.trans hout) (by rw [hrsent]; exact hfree)
      · exact h

theorem Counted.driveSocket (h : Counted cfg out snt c p) (hroom : snt + cfg.ringSize < 65536)
    (env : Env) :
    Counted cfg out snt (countDriveSocket cfg env c p).2.1 (countDriveSocket cfg env c p).2.2 := by
  unfold countDriveSocket
  split
  · exact Counted.driveOutgoing hroom env _ h
  · split
    · exact h.destroy.same rfl rfl
    · split
      · exact h.same rfl rfl
      · exact Counted.driveOutgoing hroom env _ h

end

/-! ## 4. All sockets -/

/-- The packets that wait in `outgoing`, over `n` sockets. -/
def World.waiting (w : World) (n : Nat) : Nat := ∑ i ∈ Finset.range n, (w.sock i).outgoing.length

/-- The packets that wait in `sent` for an acknowledgement. -/
def World.unacked (w : World) (n : Nat) : Nat := ∑ i ∈ Finset.range n, (w.sock i).sent.length

/-- **The counters are right.** -/
structure Tallied (cfg : Config) (n : Nat) (w : World) (p : Pending) : Prop where
  outgoing : p.outgoing.toNat = w.waiting n
  sent : p.sent.toNat = w.unacked n
  fits : ∀ i < n, (w.sock i).outgoing.length ≤ cfg.ringSize ∧ (w.sock i).sent.length ≤ cfg.ringSize

/-- The entries of all sockets but one. -/
def othersSum (n i : Nat) (f : Nat → Nat) : Nat := ∑ j ∈ (Finset.range n).erase i, f j

variable {i n : Nat}

theorem othersSum_add (hi : i < n) (f : Nat → Nat) :
    othersSum n i f + f i = ∑ j ∈ Finset.range n, f j :=
  Finset.sum_erase_add _ f (Finset.mem_range.mpr hi)

theorem othersSum_le {bound : Nat} (hi : i < n) {f : Nat → Nat} (hf : ∀ j < n, f j ≤ bound) :
    othersSum n i f + bound ≤ n * bound := by
  have hsum : othersSum n i f ≤ ((Finset.range n).erase i).card * bound := by
    refine Finset.sum_le_card_nsmul _ f bound fun j hj => ?_
    exact hf j (Finset.mem_range.mp (Finset.mem_of_mem_erase hj))
  rw [Finset.card_erase_of_mem (Finset.mem_range.mpr hi), Finset.card_range] at hsum
  calc othersSum n i f + bound ≤ (n - 1) * bound + bound := Nat.add_le_add_right hsum bound
    _ = n * bound := by
      rw [← Nat.succ_mul]
      congr 1
      omega

section

variable {cfg : Config} {n : Nat} {w : World} {p : Pending}

variable {i : Nat}

theorem Tallied.counted (h : Tallied cfg n w p) (hi : i < n) :
    Counted cfg (othersSum n i fun j => (w.sock j).outgoing.length)
      (othersSum n i fun j => (w.sock j).sent.length) (w.ctx i) p where
  outgoing := by
    rw [h.outgoing]
    exact (othersSum_add hi fun j => (w.sock j).outgoing.length).symm
  sent := by
    rw [h.sent]
    exact (othersSum_add hi fun j => (w.sock j).sent.length).symm
  outgoingFits := (h.fits i hi).1
  sentFits := (h.fits i hi).2

theorem othersSum_put (n i : Nat) (c : Ctx) (f : TcpSocket → Nat) :
    (othersSum n i fun j => f ((w.put i c).sock j)) = othersSum n i fun j => f (w.sock j) := by
  refine Finset.sum_congr rfl fun j hj => ?_
  simp only [World.put, update_of_ne (Finset.ne_of_mem_erase hj)]

/-- A routine of one socket. -/
theorem Tallied.put (h : Tallied cfg n w p) (hi : i < n) {c : Ctx} {p' : Pending}
    (hc : Counted cfg (othersSum n i fun j => (w.sock j).outgoing.length)
      (othersSum n i fun j => (w.sock j).sent.length) c p') : Tallied cfg n (w.put i c) p' where
  outgoing := by
    have hself : ((w.put i c).sock i) = c.s := update_self ..
    rw [hc.outgoing, World.waiting, ← othersSum_add hi, othersSum_put n i c fun s =>
      s.outgoing.length, hself]
  sent := by
    have hself : ((w.put i c).sock i) = c.s := update_self ..
    rw [hc.sent, World.unacked, ← othersSum_add hi, othersSum_put n i c fun s => s.sent.length,
      hself]
  fits := by
    intro j hj
    by_cases hji : j = i
    · subst hji
      rw [show ((w.put j c).sock j) = c.s from update_self ..]
      exact ⟨hc.outgoingFits, hc.sentFits⟩
    · rw [show ((w.put i c).sock j) = w.sock j from update_of_ne hji ..]
      exact h.fits j hj

theorem Tallied.outgoingRoom (h : Tallied cfg n w p) (hcap : n * cfg.ringSize < 65536)
    (hi : i < n) : (othersSum n i fun j => (w.sock j).outgoing.length) + cfg.ringSize < 65536 :=
  lt_of_le_of_lt (othersSum_le hi fun j hj => (h.fits j hj).1) hcap

theorem Tallied.sentRoom (h : Tallied cfg n w p) (hcap : n * cfg.ringSize < 65536)
    (hi : i < n) : (othersSum n i fun j => (w.sock j).sent.length) + cfg.ringSize < 65536 :=
  lt_of_le_of_lt (othersSum_le hi fun j hj => (h.fits j hj).2) hcap

theorem Tallied.driveTable (hcap : n * cfg.ringSize < 65536) (env : Nat → Env) :
    ∀ (table : List Nat) {w : World} {p : Pending}, Tallied cfg n w p → (∀ i ∈ table, i < n) →
      Tallied cfg n (countDriveTable cfg env table w p).1 (countDriveTable cfg env table w p).2
  | [], _, _, h, _ => h
  | i :: rest, w, p, h, htable => by
    have hi := htable i mem_cons_self
    have hput := h.put hi ((h.counted hi).driveSocket (h.sentRoom hcap hi) (env i))
    rw [countDriveTable]
    split
    · exact hput
    · exact Tallied.driveTable hcap env rest hput fun j hj => htable j (mem_cons_of_mem i hj)

/-- Nothing is pending only if all rings are empty. -/
theorem Tallied.skipped (h : Tallied cfg n w p) (hsent : p.sent = 0) (hout : p.outgoing = 0) :
    ∀ i < n, (w.sock i).outgoing = [] ∧ (w.sock i).sent = [] := by
  have hwaiting : w.waiting n = 0 := by
    rw [← h.outgoing, hout]
    rfl
  have hunacked : w.unacked n = 0 := by
    rw [← h.sent, hsent]
    rfl
  intro i hi
  have hmem := Finset.mem_range.mpr hi
  exact ⟨length_eq_zero_iff.mp (Finset.sum_eq_zero_iff.mp hwaiting i hmem),
    length_eq_zero_iff.mp (Finset.sum_eq_zero_iff.mp hunacked i hmem)⟩

end

/-! ## 5. Runs -/

/-- The routines that work on the rings, for any socket.  `other` is what the rest of the stack and
the application do in between. -/
inductive RingCall where
  | enqueue (i : Nat) (b : BufId)
  | drivePackets (env : Nat → Env)
  | drivePackets2 (env : Nat → Env)
  | removeSentPackets (i : Nat) (target : UInt32)
  | clearQueues (i : Nat)
  | destroy (i : Nat)
  | other (f : World → World)

/-- A routine of one socket, with the counters. -/
def World.count (w : World) (i : Nat) (r : Ctx × Pending) : World × Pending := (w.put i r.1, r.2)

def ringStep (cfg : Config) (enqueuedAcks : Bool) (st : World × Pending) (call : RingCall) :
    Unit × (World × Pending) :=
  let w := st.1
  let p := st.2
  ((), match call with
    | .enqueue i b => w.count i (countEnqueue cfg enqueuedAcks b (w.ctx i) p).2
    | .drivePackets env => Mtcp.drivePackets cfg env w p
    | .drivePackets2 env => countDriveTable cfg env w.m.socketTable w p
    | .removeSentPackets i target => w.count i (countRemoveSentPackets target (w.ctx i) p)
    | .clearQueues i => w.count i (countClearQueues (w.ctx i) p)
    | .destroy i => w.count i (countDestroy (w.ctx i) p)
    | .other f => (f w, p))

/-- **The condition**: no packet that is queued discards an acknowledgement.  The calls are for
sockets there are, and nothing else touches the rings. -/
def RingMeets (n : Nat) (enqueuedAcks : Bool) (st : World × Pending) : RingCall → Prop
  | .enqueue i b => i < n ∧ ¬ Discards enqueuedAcks b (st.1.ctx i)
  | .drivePackets _ | .drivePackets2 _ => ∀ i ∈ st.1.m.socketTable, i < n
  | .removeSentPackets i _ | .clearQueues i | .destroy i => i < n
  | .other f => ∀ i < n, ((f st.1).sock i).outgoing = (st.1.sock i).outgoing ∧
      ((f st.1).sock i).sent = (st.1.sock i).sent

/-- **One call keeps the counters right.** -/
theorem tallied_step {cfg : Config} (hcap : n * cfg.ringSize < 65536) (enqueuedAcks : Bool)
    (st : World × Pending) (call : RingCall) (h : Tallied cfg n st.1 st.2)
    (hmeets : RingMeets n enqueuedAcks st call) :
    Tallied cfg n (ringStep cfg enqueuedAcks st call).2.1
      (ringStep cfg enqueuedAcks st call).2.2 := by
  cases call with
  | enqueue i b =>
    exact h.put hmeets.1 ((h.counted hmeets.1).enqueue (h.outgoingRoom hcap hmeets.1) hmeets.2)
  | drivePackets env =>
    have hall := Tallied.driveTable hcap env st.1.m.socketTable h hmeets
    change Tallied cfg n (drivePackets cfg env st.1 st.2).1 (drivePackets cfg env st.1 st.2).2
    unfold drivePackets
    split
    · exact hall
    · exact h
  | drivePackets2 env => exact Tallied.driveTable hcap env st.1.m.socketTable h hmeets
  | removeSentPackets i target => exact h.put hmeets ((h.counted hmeets).removeSentPackets target)
  | clearQueues i => exact h.put hmeets (h.counted hmeets).clearQueues
  | destroy i => exact h.put hmeets (h.counted hmeets).destroy
  | other f =>
    refine ⟨?_, ?_, ?_⟩
    · exact h.outgoing.trans (Finset.sum_congr rfl fun i hi =>
        congrArg List.length (hmeets i (Finset.mem_range.mp hi)).1.symm)
    · exact h.sent.trans (Finset.sum_congr rfl fun i hi =>
        congrArg List.length (hmeets i (Finset.mem_range.mp hi)).2.symm)
    · intro i hi
      obtain ⟨hout, hsent⟩ := hmeets i hi
      exact ⟨(congrArg List.length hout).trans_le (h.fits i hi).1,
        (congrArg List.length hsent).trans_le (h.fits i hi).2⟩

/-- **The pending counters along a run** in which no packet discards an acknowledgement: they count
the entries of the rings, and `drivePackets` skips its work only when all rings are empty. -/
theorem pending_counts_entries {cfg : Config} {n : Nat} (hcap : n * cfg.ringSize < 65536)
    (enqueuedAcks : Bool) {w : World}
    (hempty : ∀ i < n, (w.sock i).outgoing = [] ∧ (w.sock i).sent = []) (calls : List RingCall)
    (hmeets : Guarded (ringStep cfg enqueuedAcks) (RingMeets n enqueuedAcks) (w, ⟨0, 0⟩) calls) :
    let st := run (ringStep cfg enqueuedAcks) (w, ⟨0, 0⟩) calls
    st.2.outgoing.toNat = st.1.waiting n ∧ st.2.sent.toNat = st.1.unacked n ∧
      (st.2.sent = 0 → st.2.outgoing = 0 →
        ∀ i < n, (st.1.sock i).outgoing = [] ∧ (st.1.sock i).sent = []) := by
  have hstart : Tallied cfg n w ⟨0, 0⟩ := by
    refine ⟨?_, ?_, ?_⟩
    · refine (Finset.sum_eq_zero fun i hi => ?_).symm
      rw [(hempty i (Finset.mem_range.mp hi)).1, List.length_nil]
    · refine (Finset.sum_eq_zero fun i hi => ?_).symm
      rw [(hempty i (Finset.mem_range.mp hi)).2, List.length_nil]
    · intro i hi
      rw [(hempty i hi).1, (hempty i hi).2]
      exact ⟨Nat.zero_le _, Nat.zero_le _⟩
  have hend : Tallied cfg n (run (ringStep cfg enqueuedAcks) (w, ⟨0, 0⟩) calls).1
      (run (ringStep cfg enqueuedAcks) (w, ⟨0, 0⟩) calls).2 :=
    Guarded.run_invariant (I := fun st => Tallied cfg n st.1 st.2)
      (fun st call hst hok => tallied_step hcap enqueuedAcks st call hst hok) calls (w, ⟨0, 0⟩)
      hstart hmeets
  exact ⟨hend.outgoing, hend.sent, hend.skipped⟩

/-- One established socket. -/
def oneSocket : World :=
  { init 1 2 with sock := fun i => { freshSocket i 100 with
      state := .established, maxEnqueueSize := 536 } }

/-- The socket with a window for two packets of five bytes. -/
def twoPackets : World :=
  { oneSocket with
    sock := fun i => { oneSocket.sock i with remoteWindow := 1000 }
    m := { (oneSocket.m.setBuf (.pool 0) fun b => { b with dataLen := 5 }).setBuf (.pool 1)
        (fun b => { b with dataLen := 5 }) with socketTable := [0] } }

/-- Two packets are queued and sent, and the first one is acknowledged. -/
def oneAcked : List RingCall :=
  [.enqueue 0 (.pool 0), .enqueue 0 (.pool 1), .drivePackets quickly, .removeSentPackets 0 105]

theorem oneSocket_counts :
    (run (ringStep someConfig true) (twoPackets, ⟨0, 0⟩) oneAcked).2.outgoing.toNat = 0 ∧
      (run (ringStep someConfig true) (twoPackets, ⟨0, 0⟩) oneAcked).2.sent.toNat = 1 := by
  have htable : ∀ i ∈ (run (ringStep someConfig true) (twoPackets, ⟨0, 0⟩)
      (oneAcked.take 2)).1.m.socketTable, i < 1 := by
    decide +kernel
  have hcounts := @pending_counts_entries someConfig 1 (by decide) true twoPackets
    (fun _ _ => ⟨rfl, rfl⟩) oneAcked ⟨⟨Nat.zero_lt_one, fun h => h.2.2.2 rfl⟩,
      ⟨Nat.zero_lt_one, fun h => h.2.2.2 rfl⟩, htable, Nat.zero_lt_one, trivial⟩
  exact ⟨hcounts.1.trans (by decide +kernel), hcounts.2.1.trans (by decide +kernel)⟩

/-- **An acknowledgement that was discarded is counted for ever.**  With `TCP_OPT_ENQUEUED_ACKS` two
packets without data are queued; one is left and two are counted. -/
theorem discarded_counts :
    (run (ringStep someConfig true) (oneSocket, ⟨0, 0⟩)
        [.enqueue 0 (.pool 0), .enqueue 0 (.pool 1)]).2.outgoing.toNat ≠
      (run (ringStep someConfig true) (oneSocket, ⟨0, 0⟩)
        [.enqueue 0 (.pool 0), .enqueue 0 (.pool 1)]).1.waiting 1 := by
  decide +kernel

end SdcBoot.Mtcp
