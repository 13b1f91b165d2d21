/-
# Acknowledgements, modulo 2^32

Sequence numbers go round.  `process2` and `removeSentPackets` compare them as plain numbers, with a
second case for "wrapped", and this module asks when that is the same as comparing distances from
the oldest number that is not acknowledged.

The queue `sent` is taken to tile the numbers from there on (`Tiled`); a place in it is an offset,
and all arithmetic is on offsets.  Two things go wrong.  A packet across the wrap has a last number
that is small, so an acknowledgement of its first byte, or of a later one before the wrap, removes
it.  And a single byte at the front is not removed by an acknowledgement behind the wrap, since its
number is not above `oldestUnackedSeq` but equal to it.
-/
import SdcBoot.Mtcp.Pool

namespace SdcBoot.Mtcp

open List

/-! ## 1. Tiles -/

/-- The sequence number at an offset from `o`. -/
def seqAt (o : UInt32) (j : Nat) : Nat := (o.toNat + j) % 0x100000000

/-- The packets lie one behind the other from offset `k` to offset `total`, and none is empty. -/
def Tiled (buf : BufId → TcpBuffer) (o : UInt32) (total : Nat) : Nat → List BufId → Prop
  | k, [] => k = total
  | k, b :: rest => ∃ n, 1 ≤ n ∧ (buf b).headers.seqnum.toNat = seqAt o k ∧
      (buf b).seqNum.toNat = seqAt o (k + n - 1) ∧ Tiled buf o total (k + n) rest

variable {a o : UInt32} {j k total : Nat} {l : List BufId} {b : BufId} {c : Ctx}

theorem Tiled.le {buf : BufId → TcpBuffer} (h : Tiled buf o total k l) : k ≤ total := by
  induction l generalizing k with
  | nil => exact le_of_eq h
  | cons b rest ih =>
    obtain ⟨n, -, -, -, hrest⟩ := h
    exact le_trans (Nat.le_add_right k n) (ih hrest)

/-- A packet of the queue, from one offset to another. -/
theorem Tiled.mem {buf : BufId → TcpBuffer} (h : Tiled buf o total k l) (hb : b ∈ l) :
    ∃ j n, k ≤ j ∧ 1 ≤ n ∧ j + n ≤ total ∧ (buf b).headers.seqnum.toNat = seqAt o j ∧
      (buf b).seqNum.toNat = seqAt o (j + n - 1) := by
  induction l generalizing k with
  | nil => cases hb
  | cons b' rest ih =>
    obtain ⟨n, hn, hfirst, hlast, hrest⟩ := h
    rcases mem_cons.mp hb with rfl | hb
    · exact ⟨k, n, le_refl k, hn, hrest.le, hfirst, hlast⟩
    · obtain ⟨j, n', hj, hrest'⟩ := ih hrest hb
      exact ⟨j, n', by omega, hrest'⟩

/-! ## 2. What an acknowledgement is for -/

/-- The queue of a socket tiles what is not acknowledged, less than half of all numbers. -/
def Ctx.QueueTiled (c : Ctx) : Prop :=
  ∃ total < 0x80000000, Tiled c.m.buf c.s.oldestUnackedSeq total 0 c.s.sent ∧
    c.s.seqNum.toNat = seqAt c.s.oldestUnackedSeq total

/-- The last number of a packet is covered by an acknowledgement, as distances tell. -/
def Ctx.covered (c : Ctx) (a : UInt32) (b : BufId) : Bool :=
  decide ((c.m.buf b).seqNum - c.s.oldestUnackedSeq < a - c.s.oldestUnackedSeq)

/-- The oldest number of what is left of the queue. -/
def Ctx.oldestOf (c : Ctx) : List BufId → UInt32
  | [] => c.s.seqNum
  | b :: _ => (c.m.buf b).headers.seqnum

/-- The covered packets at the front leave the queue and go back to the pool, each once. -/
structure Ctx.Acked (c : Ctx) (a : UInt32) (c' : Ctx) : Prop where
  socket : c'.s = { c.s with
    sent := c.s.sent.dropWhile (c.covered a)
    oldestUnackedSeq := c.oldestOf (c.s.sent.dropWhile (c.covered a)) }
  pool : ∀ n, c'.m.xmitBuffers.count n =
    c.m.xmitBuffers.count n + (c.s.sent.takeWhile (c.covered a)).count (.pool n)

/-- An acknowledgement is proper if it is as far from the oldest number as `seqNum`, or less; and
then the queue is cut as it should be. -/
def Ctx.AckExact (c : Ctx) (g : Segment) : Prop :=
  (c.s.ackIsProper g = true ↔
      g.acknum - c.s.oldestUnackedSeq ≤ c.s.seqNum - c.s.oldestUnackedSeq) ∧
    (g.acknum - c.s.oldestUnackedSeq ≤ c.s.seqNum - c.s.oldestUnackedSeq →
      c.Acked g.acknum (removeSentPackets g.acknum c))

/-- Where the comparisons are right. -/
def Ctx.AckSafe (c : Ctx) (a : UInt32) : Prop :=
  (c.s.sent = [] → a = c.s.oldestUnackedSeq) ∧
    (a - c.s.oldestUnackedSeq ≤ c.s.seqNum - c.s.oldestUnackedSeq →
      (∀ b ∈ c.s.sent, (c.m.buf b).seqNum < (c.m.buf b).headers.seqnum →
        a < (c.m.buf b).headers.seqnum) ∧
      (a < c.s.oldestUnackedSeq → ∀ b, c.s.sent.head? = some b →
        (c.m.buf b).seqNum ≠ (c.m.buf b).headers.seqnum))

/-! ## 3. The loop -/

/-- The test of `removeSentPackets`. -/
def Ctx.removes (c : Ctx) (a : UInt32) (b : BufId) : Bool :=
  decide ((c.m.buf b).seqNum < a ∨ (a < (c.m.buf b).seqNum ∧ a < c.s.oldestUnackedSeq ∧
    c.s.oldestUnackedSeq < (c.m.buf b).seqNum))

theorem removeLoop_socket (a : UInt32) (l : List BufId) (c c0 : Ctx) (hs : c.s = c0.s)
    (hbuf : ∀ b, (c.m.buf b).seqNum = (c0.m.buf b).seqNum ∧
      (c.m.buf b).headers = (c0.m.buf b).headers) :
    (removeLoop a l c).s = { c0.s with
      sent := l.dropWhile (c0.removes a)
      oldestUnackedSeq := c0.oldestOf (l.dropWhile (c0.removes a)) } := by
  induction l generalizing c with
  | nil =>
    change { c.s with sent := [], oldestUnackedSeq := c.s.seqNum } = _
    rw [hs]
    rfl
  | cons b rest ih =>
    have htest : ((c.m.buf b).seqNum < a ∨ (a < (c.m.buf b).seqNum ∧ a < c.s.oldestUnackedSeq ∧
        c.s.oldestUnackedSeq < (c.m.buf b).seqNum)) ↔ c0.removes a b = true := by
      rw [hs, (hbuf b).1, Ctx.removes, decide_eq_true_iff]
    rw [removeLoop]
    by_cases h : c0.removes a b = true
    · rw [if_pos (htest.mpr h), dropWhile_cons_of_pos h]
      refine ih _ hs fun b' => ?_
      have hsame : (((c.m.setBuf b fun x => { x with inUse := false }).returnXmitBuf b).buf b') =
          (c.m.setBuf b fun x => { x with inUse := false }).buf b' := by
        cases b <;> rfl
      rw [hsame]
      by_cases hb : b' = b
      · subst hb
        simpa [Shared.setBuf] using hbuf b'
      · simpa [Shared.setBuf, hb] using hbuf b'
    · rw [if_neg (fun ht => h (htest.mp ht)), dropWhile_cons_of_neg h]
      change { c.s with sent := b :: rest, oldestUnackedSeq := (c.m.buf b).headers.seqnum } = _
      rw [hs, (hbuf b).2]
      rfl

/-! ## 4. Offsets -/

theorem seqAt_sub (a o : UInt32) : a.toNat = seqAt o (a - o).toNat := by
  have ha := a.toNat_lt
  have ho := o.toNat_lt
  unfold seqAt
  rw [UInt32.toNat_sub]
  omega

theorem sub_seqAt {x : UInt32} (h : x.toNat = seqAt o j) (hj : j < 0x100000000) :
    (x - o).toNat = j := by
  have ho := o.toNat_lt
  unfold seqAt at h
  rw [UInt32.toNat_sub]
  omega

theorem covered_iff {c : Ctx} {a : UInt32} {b : BufId} {j : Nat}
    (h : (c.m.buf b).seqNum.toNat = seqAt c.s.oldestUnackedSeq j) (hj : j < 0x80000000) :
    c.covered a b = true ↔ j < (a - c.s.oldestUnackedSeq).toNat := by
  rw [Ctx.covered, decide_eq_true_iff, UInt32.lt_iff_toNat_lt, sub_seqAt h (by omega)]

/-- The test of the loop, with the distance to the wrap: before it and behind it both are compared
as they should; across it the two cases are wrong that the module is about. -/
theorem removes_iff {c : Ctx} {a : UInt32} {b : BufId} {j : Nat}
    (h : (c.m.buf b).seqNum.toNat = seqAt c.s.oldestUnackedSeq j) (hj : j < 0x80000000)
    (ha : (a - c.s.oldestUnackedSeq).toNat < 0x80000000) :
    c.removes a b = true ↔
      if (a - c.s.oldestUnackedSeq).toNat + c.s.oldestUnackedSeq.toNat < 0x100000000 then
        j < (a - c.s.oldestUnackedSeq).toNat ∨ 0x100000000 ≤ j + c.s.oldestUnackedSeq.toNat
      else j < (a - c.s.oldestUnackedSeq).toNat ∧ j ≠ 0 := by
  have ho := c.s.oldestUnackedSeq.toNat_lt
  have hat := seqAt_sub a c.s.oldestUnackedSeq
  rw [Ctx.removes, decide_eq_true_iff, UInt32.lt_iff_toNat_lt, UInt32.lt_iff_toNat_lt,
    UInt32.lt_iff_toNat_lt, UInt32.lt_iff_toNat_lt, h]
  unfold seqAt at hat ⊢
  split <;> omega

/-- A packet across the wrap, as its numbers tell. -/
theorem straddles_iff {n : Nat}
    (hfirst : (c.m.buf b).headers.seqnum.toNat = seqAt c.s.oldestUnackedSeq j)
    (hlast : (c.m.buf b).seqNum.toNat = seqAt c.s.oldestUnackedSeq (j + n - 1)) (hn : 1 ≤ n)
    (hj : j + n ≤ 0x80000000) :
    (c.m.buf b).seqNum < (c.m.buf b).headers.seqnum ↔
      j + c.s.oldestUnackedSeq.toNat < 0x100000000 ∧
        0x100000000 ≤ j + n - 1 + c.s.oldestUnackedSeq.toNat := by
  have ho := c.s.oldestUnackedSeq.toNat_lt
  rw [UInt32.lt_iff_toNat_lt, hfirst, hlast]
  unfold seqAt
  omega

/-- An acknowledgement in front of a packet that begins before the wrap. -/
theorem before_iff (hfirst : (c.m.buf b).headers.seqnum.toNat = seqAt c.s.oldestUnackedSeq j)
    (hj : j + c.s.oldestUnackedSeq.toNat < 0x100000000)
    (ha : (a - c.s.oldestUnackedSeq).toNat < 0x80000000) :
    a < (c.m.buf b).headers.seqnum ↔ (a - c.s.oldestUnackedSeq).toNat < j ∨
      0x100000000 ≤ (a - c.s.oldestUnackedSeq).toNat + c.s.oldestUnackedSeq.toNat := by
  have hat := seqAt_sub a c.s.oldestUnackedSeq
  rw [UInt32.lt_iff_toNat_lt, hfirst]
  unfold seqAt at hat ⊢
  omega

theorem wrapped_iff (ha : (a - c.s.oldestUnackedSeq).toNat < 0x80000000) :
    a < c.s.oldestUnackedSeq ↔
      0x100000000 ≤ (a - c.s.oldestUnackedSeq).toNat + c.s.oldestUnackedSeq.toNat := by
  have hat := seqAt_sub a c.s.oldestUnackedSeq
  rw [UInt32.lt_iff_toNat_lt]
  unfold seqAt at hat
  omega

theorem dropWhile_ne_cons {α : Type} (p : α → Bool) (x : α) (l : List α) :
    l.dropWhile p ≠ x :: l := by
  intro h
  have hlen := (dropWhile_suffix p (l := l)).length_le
  rw [h, length_cons] at hlen
  omega

/-! ## 5. Where the loop stops -/

/-- **The loop stops where it should** if and only if no packet across the wrap begins at or before
the acknowledgement, and no single byte is at the front of an acknowledgement behind the wrap.
Up to offset `k` everything was covered. -/
theorem cut_iff (htotal : total < 0x80000000) (ha : (a - c.s.oldestUnackedSeq).toNat ≤ total)
    (h : Tiled c.m.buf c.s.oldestUnackedSeq total k l) (hk : k ≤ (a - c.s.oldestUnackedSeq).toNat) :
    l.dropWhile (c.removes a) = l.dropWhile (c.covered a) ↔
      (∀ b ∈ l, (c.m.buf b).seqNum < (c.m.buf b).headers.seqnum →
        a < (c.m.buf b).headers.seqnum) ∧
      (k = 0 → a < c.s.oldestUnackedSeq → ∀ b, l.head? = some b →
        (c.m.buf b).seqNum ≠ (c.m.buf b).headers.seqnum) := by
  induction l generalizing k with
  | nil =>
    refine iff_of_true rfl ⟨nofun, fun _ _ b hb => ?_⟩
    cases hb
  | cons b rest ih =>
    obtain ⟨n, hn, hfirst, hlast, hrest⟩ := h
    have hle := hrest.le
    set A := (a - c.s.oldestUnackedSeq).toNat with hA
    have hAlt : A < 0x80000000 := by omega
    have ho := c.s.oldestUnackedSeq.toNat_lt
    have hcov := @covered_iff c a b (k + n - 1) hlast (by omega)
    have hrem := @removes_iff c a b (k + n - 1) hlast (by omega) hAlt
    have hstr := straddles_iff hfirst hlast hn (by omega)
    rw [← hA] at hcov hrem
    by_cases hcovered : k + n - 1 < A
    · rw [dropWhile_cons_of_pos (hcov.mpr hcovered)]
      by_cases hone : a < c.s.oldestUnackedSeq ∧ k + n - 1 = 0
      · -- the single byte in front of the wrap
        have hw := (wrapped_iff hAlt).mp hone.1
        have hstop : ¬ c.removes a b = true := by
          rw [hrem, if_neg (by omega)]
          omega
        rw [dropWhile_cons_of_neg hstop]
        refine iff_of_false (fun heq => dropWhile_ne_cons _ _ _ heq.symm) ?_
        rintro ⟨-, hhead⟩
        refine hhead (by omega) hone.1 b rfl (UInt32.toNat_inj.mp ?_)
        rw [hlast, hfirst]
        congr 1
        omega
      · have hgo : c.removes a b = true := by
          rw [hrem]
          split
          · exact .inl hcovered
          · rename_i hwrap
            exact ⟨hcovered, fun h0 => hone ⟨(wrapped_iff hAlt).mpr (by omega), h0⟩⟩
        rw [dropWhile_cons_of_pos hgo, ih hrest (by omega)]
        constructor
        · rintro ⟨hall, -⟩
          refine ⟨fun b' hb' hs => ?_, fun h0 hlt b' hb' heq => ?_⟩
          · rcases mem_cons.mp hb' with rfl | hb'
            · have hs' := hstr.mp hs
              exact (before_iff hfirst hs'.1 hAlt).mpr (.inr (by omega))
            · exact hall b' hb' hs
          · cases hb'
            have hsame := congrArg UInt32.toNat heq
            rw [hlast, hfirst] at hsame
            unfold seqAt at hsame
            exact hone ⟨hlt, by omega⟩
        · rintro ⟨hall, -⟩
          exact ⟨fun b' hb' => hall b' (mem_cons_of_mem b hb'), fun h0 => by omega⟩
    · rw [dropWhile_cons_of_neg (fun h => hcovered (hcov.mp h))]
      by_cases hacross : A + c.s.oldestUnackedSeq.toNat < 0x100000000 ∧
          0x100000000 ≤ k + n - 1 + c.s.oldestUnackedSeq.toNat
      · -- the packet across the wrap
        have hgo : c.removes a b = true := by
          rw [hrem, if_pos hacross.1]
          exact .inr hacross.2
        rw [dropWhile_cons_of_pos hgo]
        refine iff_of_false (dropWhile_ne_cons _ _ _) ?_
        rintro ⟨hall, -⟩
        have hkw : k + c.s.oldestUnackedSeq.toNat < 0x100000000 := by omega
        have hbefore := (before_iff hfirst hkw hAlt).mp
          (hall b mem_cons_self (hstr.mpr ⟨hkw, hacross.2⟩))
        omega
      · have hstop : ¬ c.removes a b = true := by
          rw [hrem]
          split <;> omega
        rw [dropWhile_cons_of_neg hstop]
        refine iff_of_true rfl ⟨fun b' hb' hs => ?_, fun h0 hlt b' hb' heq => ?_⟩
        · rcases mem_cons.mp hb' with rfl | hin
          · have hs' := hstr.mp hs
            exact (before_iff hfirst hs'.1 hAlt).mpr (.inr (by omega))
          · obtain ⟨j, m, hj, hm, hjm, hf', hl'⟩ := hrest.mem hin
            have hs' := (straddles_iff hf' hl' hm (by omega)).mp hs
            exact (before_iff hf' hs'.1 hAlt).mpr (.inl (by omega))
        · cases hb'
          have hw := (wrapped_iff hAlt).mp hlt
          have hsame := congrArg UInt32.toNat heq
          rw [hlast, hfirst] at hsame
          unfold seqAt at hsame
          omega

/-! ## 6. Acknowledgements -/

/-- With something outstanding, the two comparisons of `isIncomingAckProper` are right. -/
theorem ackIsProper_iff {s : TcpSocket} {g : Segment} (hack : g.codeBits.ack = true)
    (htotal : total < 0x80000000) (hseq : s.seqNum.toNat = seqAt s.oldestUnackedSeq total) :
    s.ackIsProper g = true ↔ total = 0 ∨
      g.acknum - s.oldestUnackedSeq ≤ s.seqNum - s.oldestUnackedSeq := by
  have ho := s.oldestUnackedSeq.toNat_lt
  have ha := g.acknum.toNat_lt
  have hat := seqAt_sub g.acknum s.oldestUnackedSeq
  have hsub := sub_seqAt hseq (by omega)
  have hd : g.acknum - s.oldestUnackedSeq ≤ s.seqNum - s.oldestUnackedSeq ↔
      (g.acknum - s.oldestUnackedSeq).toNat ≤ total := by
    rw [UInt32.le_iff_toNat_le, hsub]
  unfold TcpSocket.ackIsProper
  rw [hack, Bool.true_and, hd]
  have hlt : s.oldestUnackedSeq < s.seqNum ↔ s.oldestUnackedSeq.toNat < seqAt s.oldestUnackedSeq total := by
    rw [UInt32.lt_iff_toNat_lt, hseq]
  have hle : s.oldestUnackedSeq ≤ g.acknum ↔ s.oldestUnackedSeq.toNat ≤ g.acknum.toNat :=
    UInt32.le_iff_toNat_le
  have hge : g.acknum ≤ s.seqNum ↔ g.acknum.toNat ≤ seqAt s.oldestUnackedSeq total := by
    rw [UInt32.le_iff_toNat_le, hseq]
  have hdist := (g.acknum - s.oldestUnackedSeq).toNat_lt
  unfold seqAt at hat hlt hge
  split
  · rename_i hcmp
    rw [Bool.and_eq_true, decide_eq_true_iff, decide_eq_true_iff, hle, hge]
    have := hlt.mp hcmp
    omega
  · rename_i hcmp
    rw [Bool.or_eq_true, decide_eq_true_iff, decide_eq_true_iff, hle, hge]
    have hnot := mt hlt.mpr hcmp
    omega

/-- **Acknowledgements are exact** if and only if none comes for an empty queue but for its number,
no packet across the wrap begins at or before it, and it is not behind the wrap with a single byte
in front of the queue. -/
theorem ack_exact_iff {c : Ctx} (h : c.QueueTiled) {g : Segment} (hack : g.codeBits.ack = true) :
    c.AckExact g ↔ c.AckSafe g.acknum := by
  obtain ⟨total, htotal, htiled, hseq⟩ := h
  have hproper := ackIsProper_iff hack htotal hseq
  have hsub := sub_seqAt hseq (by omega)
  have hle : g.acknum - c.s.oldestUnackedSeq ≤ c.s.seqNum - c.s.oldestUnackedSeq ↔
      (g.acknum - c.s.oldestUnackedSeq).toNat ≤ total := by
    rw [UInt32.le_iff_toNat_le, hsub]
  have hempty : c.s.sent = [] ↔ total = 0 := by
    constructor
    · intro hnil
      rw [hnil] at htiled
      exact Eq.symm htiled
    · rintro rfl
      cases hsent : c.s.sent with
      | nil => rfl
      | cons b rest =>
        rw [hsent] at htiled
        obtain ⟨n, hn, -, -, hrest⟩ := htiled
        have := hrest.le
        omega
  -- an acknowledgement of nothing more than the oldest number
  have hsame : (g.acknum - c.s.oldestUnackedSeq).toNat = 0 ↔
      g.acknum = c.s.oldestUnackedSeq := by
    constructor
    · intro hzero
      have hat := seqAt_sub g.acknum c.s.oldestUnackedSeq
      have ho := c.s.oldestUnackedSeq.toNat_lt
      rw [hzero] at hat
      unfold seqAt at hat
      apply UInt32.toNat_inj.mp
      omega
    · intro heq
      rw [heq, UInt32.sub_self]
      rfl
  have hfirst : (c.s.ackIsProper g = true ↔
      g.acknum - c.s.oldestUnackedSeq ≤ c.s.seqNum - c.s.oldestUnackedSeq) ↔
      (c.s.sent = [] → g.acknum = c.s.oldestUnackedSeq) := by
    rw [hproper, hle, hempty, ← hsame]
    omega
  have hsecond : g.acknum - c.s.oldestUnackedSeq ≤ c.s.seqNum - c.s.oldestUnackedSeq →
      (c.Acked g.acknum (removeSentPackets g.acknum c) ↔
        c.s.sent.dropWhile (c.removes g.acknum) = c.s.sent.dropWhile (c.covered g.acknum)) := by
    intro _
    have hsocket := removeLoop_socket g.acknum c.s.sent c c rfl fun _ => ⟨rfl, rfl⟩
    have hcounts := (removeLoop_counts g.acknum c.s.sent c).2
    constructor
    · intro hacked
      have hs := hacked.socket
      unfold removeSentPackets at hs
      rw [hsocket] at hs
      exact congrArg TcpSocket.sent hs
    · intro hcut
      refine ⟨?_, fun n => ?_⟩
      · unfold removeSentPackets
        rw [hsocket, hcut]
      · have hn := hcounts n
        rw [hsocket] at hn
        unfold removeSentPackets
        have hsplit : c.s.sent.count (.pool n) =
            (c.s.sent.takeWhile (c.covered g.acknum)).count (.pool n) +
              (c.s.sent.dropWhile (c.covered g.acknum)).count (.pool n) := by
          rw [← List.count_append, List.takeWhile_append_dropWhile]
        dsimp only [Shared.idle] at hn
        rw [hcut] at hn
        omega
  unfold Ctx.AckExact Ctx.AckSafe
  rw [hfirst]
  refine and_congr_right fun _ => forall_congr' fun hdist => ?_
  rw [hsecond hdist, cut_iff htotal (hle.mp hdist) htiled (Nat.zero_le _)]
  exact and_congr_right fun _ => ⟨fun hall => hall rfl, fun hall _ => hall⟩

/-- A socket with one packet, or none, in its queue. -/
def ackCtx (oldest seqNum first last : UInt32) (sent : List BufId) : Ctx where
  s := { freshSocket 0 oldest with state := .established, seqNum := seqNum, sent := sent }
  m := {
    buf := fun _ => { zeroBuffer with seqNum := last, headers := { zeroHeader with seqnum := first } }
    xmitBuffers := [], socketTable := [0], availSocketTable := [], pendingAccepts := 0, wire := [] }

theorem empty_short : ([] : List UInt8).length < 65536 := by decide

def ackOf (acknum : UInt32) : Segment :=
  ⟨0, 0, 0, 0, acknum, CodeBits.justAck, 0, 0, [], empty_short⟩

/-- Ten bytes across the wrap, acknowledged altogether. -/
theorem ack_exact_across : (ackCtx 0xfffffffc 6 0xfffffffc 5 [.pool 0]).AckExact (ackOf 6) :=
  (@ack_exact_iff (ackCtx 0xfffffffc 6 0xfffffffc 5 [.pool 0])
    ⟨10, by decide, ⟨10, by decide, rfl, rfl, rfl⟩, rfl⟩ (ackOf 6) rfl).mpr
    ⟨nofun, fun _ =>
      ⟨fun _ _ _ => show (6 : UInt32) < 0xfffffffc by decide,
        fun _ _ _ => show (5 : UInt32) ≠ 0xfffffffc by decide⟩⟩

/-- **Three acknowledgements that are not exact**: a duplicate one removes a packet across the wrap, a
single byte in front of the wrap is not removed, and with nothing outstanding any number is proper. -/
theorem ack_not_exact :
    (ackCtx 0xfffffffc 6 0xfffffffc 5 [.pool 0]).QueueTiled ∧
      ¬ (ackCtx 0xfffffffc 6 0xfffffffc 5 [.pool 0]).AckExact (ackOf 0xfffffffc) ∧
    (ackCtx 0xffffffff 0 0xffffffff 0xffffffff [.pool 0]).QueueTiled ∧
      ¬ (ackCtx 0xffffffff 0 0xffffffff 0xffffffff [.pool 0]).AckExact (ackOf 0) ∧
    (ackCtx 5 5 0 0 []).QueueTiled ∧ ¬ (ackCtx 5 5 0 0 []).AckExact (ackOf 100) := by
  refine ⟨⟨10, by decide, ⟨10, by decide, rfl, rfl, rfl⟩, rfl⟩, fun h => ?_,
    ⟨1, by decide, ⟨1, by decide, rfl, rfl, rfl⟩, rfl⟩, fun h => ?_,
    ⟨0, by decide, rfl, rfl⟩, fun h => ?_⟩
  · have hsent := congrArg TcpSocket.sent (h.2 (by decide)).socket
    cases hsent
  · have hsent := congrArg TcpSocket.sent (h.2 (by decide)).socket
    cases hsent
  · exact nomatch h.1.mp (by decide)

end SdcBoot.Mtcp
