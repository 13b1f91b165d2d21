/-
# When a clean buffer is what the device holds

A buffer that is VALID and not DIRTY should hold exactly what the device holds for its block.  Two
more facts carry this through a run: no two valid buffers stand for the same block, and a FAT buffer
is written at least once.

`getblk` can BREAK it: it reads the new block into the buffer of the victim, and when the read fails
the victim is left VALID under its OLD block number with whatever the transfer left
(`failed_read_garbage`).  `StepOk` is the exact condition under which a run keeps the property:

* a `getblk` that finds no buffer gets the block from the device, or its caller fills the buffer;
* the copies of a FAT sector go to blocks that no other buffer stands for;
* only valid buffers are modified.

Everything is proved one unit at a time, as what happens to the buffers of another does not matter.
-/
import SdcBoot.Block.Cache

namespace SdcBoot.Block

open Lib List Function

variable {S : Type}

/-! ## 1. The invariant -/

/-- Clean buffers hold what the device holds. -/
def Cache.Coherent (c : Cache S) (u : Nat) : Prop :=
  ∀ i ∈ c.ring, ∀ b, (c.buf i).holds u b = true → (c.buf i).dirty = false →
    (c.buf i).bBuffer = c.dev u b

/-- The invariant, for the buffers of one unit. -/
structure Cache.UnitInv (c : Cache S) (u : Nat) : Prop where
  coherent : c.Coherent u
  distinct : ∀ i ∈ c.ring, ∀ j ∈ c.ring, ∀ b, (c.buf i).holds u b = true →
    (c.buf j).holds u b = true → i = j
  copied : ∀ i ∈ c.ring, ∀ b, (c.buf i).holds u b = true → 1 ≤ (c.buf i).copies

variable {blkno dsk i j u : Nat} {c c' : Cache S} {b' : Buffer S}

theorem holds_iff {b : Buffer S} {x : Nat} :
    b.holds u x = true ↔ b.bBlkno = x ∧ b.valid = true ∧ b.bUnit = u := by
  simp [Buffer.holds, and_assoc]

@[simp] theorem setBuf_self (c : Cache S) (i : Nat) (b : Buffer S) :
    (c.setBuf i b).buf i = b := update_self ..

theorem setBuf_ne (c : Cache S) (b : Buffer S) (h : j ≠ i) :
    (c.setBuf i b).buf j = c.buf j := update_of_ne h ..

theorem mem_toFront (hi : i ∈ c.ring) : j ∈ (c.toFront i).ring ↔ j ∈ c.ring := by
  by_cases hji : j = i
  · simp [Cache.toFront, hji, hi]
  · simp [Cache.toFront, hji]

/-- The invariant is about the set of buffers, not about their order. -/
theorem Cache.UnitInv.toFront (h : c.UnitInv u) (hi : i ∈ c.ring) : (c.toFront i).UnitInv u := by
  refine ⟨?_, ?_, ?_⟩
  · intro j hj
    exact h.coherent j ((mem_toFront hi).mp hj)
  · intro j hj k hk
    exact h.distinct j ((mem_toFront hi).mp hj) k ((mem_toFront hi).mp hk)
  · intro j hj
    exact h.copied j ((mem_toFront hi).mp hj)

/-- **The store rule.**  A buffer may be replaced by one that stands for a block of the unit only
if no OTHER buffer does, and that is clean only with the contents of the device. -/
theorem Cache.UnitInv.setBuf (h : c.UnitInv u)
    (hfree : ∀ b, b'.holds u b = true → ∀ j ∈ c.ring, j ≠ i → ¬ (c.buf j).holds u b = true)
    (hclean : ∀ b, b'.holds u b = true → b'.dirty = false → b'.bBuffer = c.dev u b)
    (hcopies : ∀ b, b'.holds u b = true → 1 ≤ b'.copies) : (c.setBuf i b').UnitInv u := by
  refine ⟨?_, ?_, ?_⟩
  · intro j hj b hb hd
    by_cases hji : j = i
    · subst hji
      rw [setBuf_self] at hb hd ⊢
      exact hclean b hb hd
    · rw [setBuf_ne c b' hji] at hb hd ⊢
      exact h.coherent j hj b hb hd
  · intro j hj k hk b hjb hkb
    by_cases hji : j = i
    · by_cases hki : k = i
      · rw [hji, hki]
      · rw [hji, setBuf_self] at hjb
        rw [setBuf_ne c b' hki] at hkb
        exact absurd hkb (hfree b hjb k hk hki)
    · rw [setBuf_ne c b' hji] at hjb
      by_cases hki : k = i
      · rw [hki, setBuf_self] at hkb
        exact absurd hjb (hfree b hkb j hj hji)
      · rw [setBuf_ne c b' hki] at hkb
        exact h.distinct j hj k hk b hjb hkb
  · intro j hj b hb
    by_cases hji : j = i
    · subst hji
      rw [setBuf_self] at hb ⊢
      exact hcopies b hb
    · rw [setBuf_ne c b' hji] at hb ⊢
      exact h.copied j hj b hb

/-- A buffer of the ring that keeps its block needs no freshness argument. -/
theorem Cache.UnitInv.setBuf_same (h : c.UnitInv u) (hi : i ∈ c.ring)
    (hheld : ∀ b, b'.holds u b = true → (c.buf i).holds u b = true)
    (hclean : ∀ b, b'.holds u b = true → b'.dirty = false → b'.bBuffer = c.dev u b)
    (hcopies : ∀ b, b'.holds u b = true → 1 ≤ b'.copies) : (c.setBuf i b').UnitInv u :=
  h.setBuf (fun b hb j hj hji hjb => hji (h.distinct j hj i hi b hjb (hheld b hb))) hclean hcopies

/-! ## 2. Writing out -/

/-- No write to come is ignored. -/
def Reported : Outcome S → Prop
  | .ignored _ => False
  | _ => True

def Cache.NoneIgnored (c : Cache S) : Prop := ∀ o ∈ c.writes, Reported o

variable {dev : Nat → Nat → S} {b n : Nat} {ok : Bool} {f : Buffer S → Buffer S}

theorem setBlocks_of_not {f : Nat → S}
    (h : ¬ (u = dsk ∧ blkno ≤ b ∧ b < blkno + n)) : setBlocks dev dsk blkno n f u b = dev u b :=
  if_neg h

theorem setBlocks_of_mem {f : Nat → S} (hlo : blkno ≤ b)
    (hhi : b < blkno + n) : setBlocks dev dsk blkno n f dsk b = f b :=
  if_pos ⟨rfl, hlo, hhi⟩

/-- What a write to `[blkno, blkno + n)` of `dsk` changes. -/
structure Wrote (c : Cache S) (dsk blkno n : Nat) (contents : Nat → S) (err : Bool)
    (c' : Cache S) : Prop where
  ring : c'.ring = c.ring
  buf : c'.buf = c.buf
  reads : c'.reads = c.reads
  writes : ∀ o ∈ c'.writes, o ∈ c.writes
  others : ∀ u b, ¬ (u = dsk ∧ blkno ≤ b ∧ b < blkno + n) → c'.dev u b = c.dev u b
  stored : err = false → ∀ b, blkno ≤ b → b < blkno + n → c'.dev dsk b = contents b

theorem dskwrite_spec (hno : c.NoneIgnored) (dsk blkno n : Nat) (contents : Nat → S) :
    Wrote c dsk blkno n contents (c.dskwrite dsk blkno n contents).1
      (c.dskwrite dsk blkno n contents).2 := by
  unfold Cache.dskwrite
  split
  · exact ⟨rfl, rfl, rfl, fun _ h => h, fun _ _ h => setBlocks_of_not h,
      fun _ _ hlo hhi => setBlocks_of_mem hlo hhi⟩
  · rename_i ws hw
    exact ⟨rfl, rfl, rfl, fun _ h => hw ▸ mem_cons_of_mem _ h, fun _ _ h => setBlocks_of_not h,
      fun _ _ hlo hhi => setBlocks_of_mem hlo hhi⟩
  · rename_i junk ws hw
    exact ⟨rfl, rfl, rfl, fun _ h => hw ▸ mem_cons_of_mem _ h, fun _ _ h => setBlocks_of_not h,
      nofun⟩
  · rename_i junk ws hw
    exact absurd (hno (.ignored junk) (hw ▸ mem_cons_self)) id

theorem Cache.NoneIgnored.of_subset (h : c.NoneIgnored)
    (hsub : ∀ o ∈ c'.writes, o ∈ c.writes) : c'.NoneIgnored :=
  fun o ho => h o (hsub o ho)

/-- What writing the copies of a sector changes. -/
structure Copied (c : Cache S) (unit blkno stride n : Nat) (contents : S) (ok : Bool)
    (c' : Cache S) : Prop where
  ring : c'.ring = c.ring
  buf : c'.buf = c.buf
  reads : c'.reads = c.reads
  writes : ∀ o ∈ c'.writes, o ∈ c.writes
  others : ∀ u b, (u = unit → ∀ k < n, b ≠ blkno + k * stride) → c'.dev u b = c.dev u b
  stored : ok = true → ∀ k < n, c'.dev unit (blkno + k * stride) = contents

theorem writeCopies_spec (unit stride : Nat) (contents : S) :
    ∀ (n blkno : Nat) (c : Cache S), c.NoneIgnored →
      Copied c unit blkno stride n contents (c.writeCopies unit stride contents n blkno).1
        (c.writeCopies unit stride contents n blkno).2
  | 0, _, _, _ => ⟨rfl, rfl, rfl, fun _ h => h, fun _ _ _ => rfl, fun _ _ hk => absurd hk (by omega)⟩
  | n + 1, blkno, c, hno => by
    have hw := dskwrite_spec hno unit blkno 1 fun _ => contents
    have ih := writeCopies_spec unit stride contents n (blkno + stride) _ (hno.of_subset hw.writes)
    have htarget : ∀ k, blkno + (k + 1) * stride = blkno + stride + k * stride := by
      intro k
      rw [add_mul, one_mul]
      omega
    refine ⟨ih.ring.trans hw.ring, ih.buf.trans hw.buf, ih.reads.trans hw.reads,
      fun o ho => hw.writes o (ih.writes o ho), ?_, ?_⟩
    · intro u b hb
      have hrest : u = unit → ∀ k < n, b ≠ blkno + stride + k * stride := by
        intro hu k hk
        rw [← htarget]
        exact hb hu (k + 1) (by omega)
      refine (ih.others u b hrest).trans (hw.others u b ?_)
      rintro ⟨hu, hlo, hhi⟩
      have := hb hu 0 (by omega)
      omega
    · intro hok k hk
      obtain ⟨herr, hrest⟩ : (c.dskwrite unit blkno 1 fun _ => contents).1 = false ∧
          (Cache.writeCopies unit stride contents n (blkno + stride)
            (c.dskwrite unit blkno 1 fun _ => contents).2).1 = true := by
        simpa [Cache.writeCopies] using hok
      cases k with
      | succ k =>
        rw [htarget]
        exact ih.stored hrest k (by omega)
      | zero =>
        -- the first copy is overwritten only by a copy that lands on the same block
        by_cases hagain : ∃ k < n, blkno + 0 * stride = blkno + stride + k * stride
        · obtain ⟨k, hkn, hk⟩ := hagain
          rw [hk]
          exact ih.stored hrest k hkn
        · have hne : ∀ k < n, blkno + 0 * stride ≠ blkno + stride + k * stride := by
            intro k hkn hk
            exact hagain ⟨k, hkn, hk⟩
          refine (ih.others unit _ fun _ => hne).trans (hw.stored herr _ ?_ ?_) <;> omega

/-- What `flush1` changes. -/
structure Flushed (c : Cache S) (i : Nat) (ok : Bool) (c' : Cache S) : Prop where
  ring : c'.ring = c.ring
  reads : c'.reads = c.reads
  writes : ∀ o ∈ c'.writes, o ∈ c.writes
  other : ∀ j, j ≠ i → c'.buf j = c.buf j
  self : c'.buf i = { c.buf i with dirty := false, valid := (c.buf i).valid && ok }
  others : ∀ u b, ((c.buf i).valid = true → (c.buf i).dirty = true → u = (c.buf i).bUnit →
    ∀ k < (c.buf i).copies, b ≠ (c.buf i).bBlkno + k * (c.buf i).stride) → c'.dev u b = c.dev u b
  stored : ok = true → (c.buf i).valid = true → (c.buf i).dirty = true →
    ∀ k < (c.buf i).copies,
      c'.dev (c.buf i).bUnit ((c.buf i).bBlkno + k * (c.buf i).stride) = (c.buf i).bBuffer

theorem flush1_spec (hno : c.NoneIgnored) (i : Nat) :
    Flushed c i (c.flush1 i).1 (c.flush1 i).2 := by
  unfold Cache.flush1
  by_cases hvd : ((c.buf i).valid && (c.buf i).dirty) = true
  · have hw := writeCopies_spec (c.buf i).bUnit (c.buf i).stride (c.buf i).bBuffer
      (c.buf i).copies (c.buf i).bBlkno c hno
    simp only [hvd, if_true]
    refine ⟨hw.ring, hw.reads, hw.writes, ?_, setBuf_self .., ?_, ?_⟩
    · intro j hj
      rw [setBuf_ne _ _ hj, hw.buf]
    · intro u b hb
      obtain ⟨hv, hd⟩ := Bool.and_eq_true_iff.mp hvd
      exact hw.others u b (hb hv hd)
    · intro hok _ _ k hk
      exact hw.stored hok k hk
  · simp only [hvd, Bool.false_eq_true]
    refine ⟨rfl, rfl, fun _ h => h, ?_, setBuf_self .., fun _ _ _ => rfl, ?_⟩
    · intro j hj
      exact setBuf_ne _ _ hj
    · intro _ hv hd
      exact absurd (Bool.and_eq_true_iff.mpr ⟨hv, hd⟩) hvd

/-- No other buffer stands for a block that the copies of buffer `i` after the first go to. -/
def Cache.MirrorsFree (c : Cache S) (i : Nat) : Prop :=
  ∀ j ∈ c.ring, j ≠ i → ∀ k, 1 ≤ k → k < (c.buf i).copies →
    ¬ (c.buf j).holds (c.buf i).bUnit ((c.buf i).bBlkno + k * (c.buf i).stride) = true

/-- Writing buffer `i` out, if it needs it, hurts no other buffer. -/
def Cache.Flushable (c : Cache S) (i : Nat) : Prop :=
  (c.buf i).valid = true → (c.buf i).dirty = true → c.MirrorsFree i

theorem copies_clean (b : Buffer S) (v : Bool) :
    ({ b with dirty := false, valid := v } : Buffer S).copies = b.copies := rfl

/-- **`flush1` keeps the invariant.** -/
theorem Flushed.unitInv (hf : Flushed c i ok c') (h : c.UnitInv u) (hi : i ∈ c.ring)
    (hfl : (c.buf i).bUnit = u → c.Flushable i) : c'.UnitInv u := by
  have hheld : ∀ j b, (c'.buf j).holds u b = true → (c.buf j).holds u b = true := by
    intro j b hb
    by_cases hji : j = i
    · rw [hji, hf.self, holds_iff] at hb
      rw [hji, holds_iff]
      exact ⟨hb.1, (Bool.and_eq_true_iff.mp hb.2.1).1, hb.2.2⟩
    · rwa [hf.other j hji] at hb
  refine ⟨?_, ?_, ?_⟩
  · intro j hj b hb hd
    rw [hf.ring] at hj
    by_cases hji : j = i
    · subst hji
      rw [hf.self] at hb ⊢
      obtain ⟨hblk, hv, hu⟩ := holds_iff.mp hb
      obtain ⟨hv, hok⟩ := Bool.and_eq_true_iff.mp hv
      have hcop : 1 ≤ (c.buf j).copies := h.copied j hi b (holds_iff.mpr ⟨hblk, hv, hu⟩)
      dsimp only at hblk hu ⊢
      by_cases hdirty : (c.buf j).dirty = true
      · have := hf.stored hok hv hdirty 0 (by omega)
        rw [zero_mul, add_zero, hblk, hu] at this
        exact this.symm
      · rw [hf.others u b fun _ hd _ => absurd hd hdirty]
        exact h.coherent j hi b (holds_iff.mpr ⟨hblk, hv, hu⟩) (Bool.eq_false_iff.mpr hdirty)
    · rw [hf.other j hji] at hb hd ⊢
      rw [hf.others u b ?_]
      · exact h.coherent j hj b hb hd
      · intro hv hdirty hu k hk hbk
        rcases Nat.eq_zero_or_pos k with rfl | hpos
        · rw [zero_mul, add_zero] at hbk
          exact hji (h.distinct j hj i hi b hb (holds_iff.mpr ⟨hbk.symm, hv, hu.symm⟩))
        · exact hfl hu.symm hv hdirty j hj hji k hpos hk (by rw [← hbk, ← hu]; exact hb)
  · intro j hj k hk b hjb hkb
    rw [hf.ring] at hj hk
    exact h.distinct j hj k hk b (hheld j b hjb) (hheld k b hkb)
  · intro j hj b hb
    rw [hf.ring] at hj
    by_cases hji : j = i
    · subst hji
      rw [hf.self, copies_clean]
      exact h.copied j hj b (hheld j b hb)
    · rw [hf.other j hji]
      exact h.copied j hj b (hheld j b hb)

/-- What another buffer needs in order to be written out safely survives a `flush1`. -/
theorem Flushed.flushable (hf : Flushed c i ok c') (h : c.Flushable j) : c'.Flushable j := by
  intro hv hd k hk hkj n hpos hn hheld
  rw [hf.ring] at hk
  have hj : c'.buf j = c.buf j := by
    by_cases hji : j = i
    · rw [hji, hf.self] at hd
      cases hd
    · exact hf.other j hji
  rw [hj] at hv hd hn hheld
  refine h hv hd k hk hkj n hpos hn ?_
  by_cases hki : k = i
  · rw [hki, hf.self, holds_iff] at hheld
    rw [hki, holds_iff]
    exact ⟨hheld.1, (Bool.and_eq_true_iff.mp hheld.2.1).1, hheld.2.2⟩
  · rwa [hf.other k hki] at hheld

/-- **The walk of the flushing functions keeps the invariant.** -/
theorem flushEach_unitInv (sel : Buffer S → Bool) :
    ∀ (is : List Nat) (c : Cache S), c.NoneIgnored → c.UnitInv u → (∀ i ∈ is, i ∈ c.ring) →
      (∀ i ∈ is, sel (c.buf i) = true → (c.buf i).bUnit = u → c.Flushable i) →
      (c.flushEach sel is).2.UnitInv u ∧ (c.flushEach sel is).2.NoneIgnored
  | [], _, hno, h, _, _ => ⟨h, hno⟩
  | i :: is, c, hno, h, hmem, hfl => by
    unfold Cache.flushEach
    split
    · rename_i hsel
      have hf := flush1_spec hno i
      have hi := hmem i mem_cons_self
      refine flushEach_unitInv sel is _ (hno.of_subset hf.writes)
        (hf.unitInv h hi (hfl i mem_cons_self hsel)) ?_ ?_
      · intro j hj
        rw [hf.ring]
        exact hmem j (.tail _ hj)
      · intro j hj hsel' hu
        by_cases hji : j = i
        · rw [hji]
          intro _ hd
          rw [hf.self] at hd
          cases hd
        · rw [hf.other j hji] at hsel' hu
          exact hf.flushable (hfl j (.tail _ hj) hsel' hu)
    · exact flushEach_unitInv sel is c hno h (fun j hj => hmem j (.tail _ hj))
        fun j hj => hfl j (.tail _ hj)

/-- Clearing BFR_VALID keeps the invariant, whatever else is done to the buffer. -/
theorem Cache.UnitInv.mapRing (h : c.UnitInv u) (sel : Buffer S → Bool)
    (hf : ∀ b, (f b).valid = false) : (c.mapRing sel f).UnitInv u := by
  have hbuf : ∀ i b, ((c.mapRing sel f).buf i).holds u b = true →
      (c.mapRing sel f).buf i = c.buf i := by
    intro i b hb
    simp only [Cache.mapRing] at hb ⊢
    split
    · rename_i hsel
      rw [if_pos hsel, holds_iff, hf] at hb
      exact nomatch hb.2.1
    · rfl
  refine ⟨?_, ?_, ?_⟩
  · intro i hi b hb hd
    have he := hbuf i b hb
    rw [he] at hb hd ⊢
    exact h.coherent i hi b hb hd
  · intro i hi j hj b hib hjb
    rw [hbuf i b hib] at hib
    rw [hbuf j b hjb] at hjb
    exact h.distinct i hi j hj b hib hjb
  · intro i hi b hb
    have he := hbuf i b hb
    rw [he] at hb ⊢
    exact h.copied i hi b hb

/-! ## 3. `getblk` -/

theorem victim_mem (hne : c.ring ≠ []) : c.victim ∈ c.ring := by
  have hlast : ∀ (l : List Nat) (d : Nat), d ∈ c.ring → (∀ x ∈ l, x ∈ c.ring) →
      l.getLastD d ∈ c.ring := by
    intro l d hd hl
    rcases eq_nil_or_concat l with rfl | ⟨l', x, rfl⟩
    · exact hd
    · simpa using hl x (by simp)
  unfold Cache.victim
  split
  · rename_i i hi
    exact (mem_filter.mp (mem_of_getLast? hi)).1
  · split
    · rename_i hnil
      exact absurd hnil hne
    · rename_i first rest hring
      have hend : rest.getLastD first ∈ c.ring :=
        hlast rest first (hring ▸ mem_cons_self) fun x hx => hring ▸ mem_cons_of_mem _ hx
      split
      · refine hlast _ _ hend fun x hx => ?_
        exact (mem_filter.mp hx).1
      · exact hend

/-- The state in which `searchblock` returns buffer `i`. -/
def Cache.found (c : Cache S) (i : Nat) (uncache : Bool) : Cache S :=
  (c.setBuf i { c.buf i with uncache := uncache }).toFront i

theorem found_buf (c : Cache S) (i j : Nat) (uncache : Bool) :
    (c.found i uncache).buf j = { c.buf j with
      uncache := if j = i then uncache else (c.buf j).uncache } := by
  by_cases hji : j = i
  · rw [hji, if_pos rfl]
    exact setBuf_self ..
  · rw [if_neg hji]
    exact setBuf_ne _ _ hji

/-- **What `getblk` can do**: a hit; or a victim that cannot be written out; or a victim that is
given to the block without a read, after a failed read, or after a read. -/
theorem getblk_cases (c : Cache S) (blkno dsk : Nat) (overwrite : Bool) :
    (∃ i ∈ c.ring, (c.buf i).holds dsk blkno = true ∧
      c.getblk blkno dsk overwrite = (some i, c.found i false)) ∨
    ((∀ i ∈ c.ring, ¬ (c.buf i).holds dsk blkno = true) ∧
      ∃ f, f = (c.found c.victim true).flush1 c.victim ∧
      ((f.1 = false ∧ c.getblk blkno dsk overwrite = (none, f.2)) ∨
       (f.1 = true ∧ overwrite = true ∧
          c.getblk blkno dsk overwrite = (some c.victim, f.2.claim c.victim blkno dsk)) ∨
       (f.1 = true ∧ overwrite = false ∧ ∃ r c', r = f.2.dskread dsk ∧
          c' = r.2.2.setBuf c.victim { r.2.2.buf c.victim with bBuffer := r.2.1 blkno } ∧
          c.getblk blkno dsk overwrite =
            if r.1 then (none, c') else (some c.victim, c'.claim c.victim blkno dsk)))) := by
  unfold Cache.getblk Cache.searchblock
  split
  · rename_i i hfind
    have hi := mem_of_find?_eq_some hfind
    have hheld : (c.buf i).holds dsk blkno = true := by simpa using find?_some hfind
    refine .inl ⟨i, hi, hheld, ?_⟩
    have hu : ((c.found i false).buf i).uncache = false := by simp [found_buf]
    exact if_pos (by simpa [Cache.found] using hu)
  · rename_i hfind
    have hnone : ∀ i ∈ c.ring, ¬ (c.buf i).holds dsk blkno = true := by
      intro i hi
      exact find?_eq_none.mp hfind i hi
    refine .inr ⟨hnone, _, rfl, ?_⟩
    have hu : ((c.found c.victim true).buf c.victim).uncache = true := by simp [found_buf]
    have hu' : ¬ (!((c.found c.victim true).buf c.victim).uncache) = true := by simp [hu]
    change _ ∨ _ ∨ _
    simp only [Cache.found] at hu' ⊢
    rw [if_neg hu']
    cases hok : (((c.setBuf c.victim { c.buf c.victim with uncache := true }).toFront
      c.victim).flush1 c.victim).1
    · exact .inl ⟨rfl, by simp⟩
    · cases overwrite
      · exact .inr (.inr ⟨rfl, rfl, _, _, rfl, rfl, by simp⟩)
      · exact .inr (.inl ⟨rfl, rfl, by simp⟩)

/-- The state after the victim has been written out, and whether that went well. -/
def Cache.evict (c : Cache S) : Bool × Cache S :=
  (c.found c.victim true).flush1 c.victim

theorem found_holds (c : Cache S) (i j : Nat) (uncache : Bool) (u b : Nat) :
    ((c.found i uncache).buf j).holds u b = (c.buf j).holds u b := by
  rw [found_buf]
  rfl

theorem Cache.UnitInv.found (h : c.UnitInv u) (hi : i ∈ c.ring)
    (uncache : Bool) : (c.found i uncache).UnitInv u := by
  have hset : (c.setBuf i { c.buf i with uncache := uncache }).UnitInv u :=
    h.setBuf_same hi (fun _ hb => hb) (fun b hb hd => h.coherent i hi b hb hd)
      fun b hb => h.copied i hi b hb
  exact hset.toFront hi

theorem found_flushable (hi : i ∈ c.ring) (h : c.Flushable j)
    (uncache : Bool) : (c.found i uncache).Flushable j := by
  intro hv hd k hk hkj n hpos hn
  rw [found_buf] at hv hd hn
  rw [found_holds, found_buf]
  exact h hv hd k ((mem_toFront hi).mp hk) hkj n hpos hn

/-- What is left of the invariant's premises after a victim was written out. -/
theorem evict_spec (hno : c.NoneIgnored) (hne : c.ring ≠ []) :
    (∀ j, j ∈ c.evict.2.ring ↔ j ∈ c.ring) ∧ c.evict.2.reads = c.reads ∧
      c.evict.2.NoneIgnored ∧
      (∀ j u b, (c.evict.2.buf j).holds u b = true → (c.buf j).holds u b = true) ∧
      ∀ u, c.UnitInv u → ((c.buf c.victim).bUnit = u → c.Flushable c.victim) →
        c.evict.2.UnitInv u := by
  have hv := victim_mem hne
  have hf := flush1_spec (c := c.found c.victim true) (i := c.victim) hno
  refine ⟨?_, hf.reads, hno.of_subset hf.writes, ?_, ?_⟩
  · intro j
    rw [Cache.evict, hf.ring]
    exact mem_toFront hv
  · intro j u b hb
    rw [← found_holds c c.victim j true]
    by_cases hj : j = c.victim
    · rw [Cache.evict, hj, hf.self, holds_iff] at hb
      rw [hj, holds_iff]
      exact ⟨hb.1, (Bool.and_eq_true_iff.mp hb.2.1).1, hb.2.2⟩
    · rwa [Cache.evict, hf.other j hj] at hb
  · intro u h hfl
    refine hf.unitInv (h.found hv true) ((mem_toFront hv).mpr hv) ?_
    intro hu
    rw [found_buf] at hu
    exact found_flushable hv (hfl hu) true

theorem setBuf_claim (c : Cache S) (i blkno dsk : Nat) (b : Buffer S) :
    (c.setBuf i b).claim i blkno dsk = c.setBuf i
      { b.noFlags with valid := true, data := true, bUnit := dsk, bBlkno := blkno } := by
  unfold Cache.claim
  rw [setBuf_self]
  simp only [Cache.setBuf, update_idem]

/-- Giving buffer `i` to a block that no other buffer stands for. -/
theorem Cache.UnitInv.give (h : c.UnitInv u) (hblk : b'.bBlkno = blkno) (hunit : b'.bUnit = dsk)
    (hcopies : 1 ≤ b'.copies) (hfree : ∀ j ∈ c.ring, ¬ (c.buf j).holds dsk blkno = true)
    (hclean : b'.dirty = false → b'.bBuffer = c.dev dsk blkno) : (c.setBuf i b').UnitInv u := by
  have hkey : ∀ b, b'.holds u b = true → u = dsk ∧ b = blkno := by
    intro b hb
    obtain ⟨h1, -, h3⟩ := holds_iff.mp hb
    exact ⟨h3.symm.trans hunit, h1.symm.trans hblk⟩
  refine h.setBuf ?_ ?_ fun _ _ => hcopies
  · intro b hb j hj _
    obtain ⟨rfl, rfl⟩ := hkey b hb
    exact hfree j hj
  · intro b hb hd
    obtain ⟨rfl, rfl⟩ := hkey b hb
    exact hclean hd

/-! ## 4. The calls, and what they need -/

/-- What a caller of the cache can do.  An overwriting `getblk` comes with the caller's filling of
the buffer (`getblkFill`) or without. -/
inductive Call (S : Type) where
  | getblk (blkno dsk : Nat) (overwrite : Bool)
  | getblkFill (blkno dsk : Nat) (contents : S)
  | modify (i : Nat) (contents : S)
  | markFat (i copies offset xfatsize : Nat)
  | flush1 (i : Nat)
  | flushBuffers (dsk : Nat)
  | flush
  | readDirect (blkno n dsk : Nat)
  | writeDirect (blkno n dsk : Nat) (contents : Nat → S)
  | setinvld (dsk : Nat)

/-- `getblockOver`, and the filling of the buffer it returns. -/
def Cache.getblkFill (c : Cache S) (blkno dsk : Nat) (contents : S) : Option Nat × Cache S :=
  match c.getblk blkno dsk true with
  | (some i, c') => (some i, c'.modify i contents)
  | (none, c') => (none, c')

/-- One call; the answer is the buffer `getblk` returns. -/
def step (c : Cache S) : Call S → Option Nat × Cache S
  | .getblk blkno dsk overwrite => c.getblk blkno dsk overwrite
  | .getblkFill blkno dsk contents => c.getblkFill blkno dsk contents
  | .modify i contents => (none, c.modify i contents)
  | .markFat i copies offset xfatsize => (none, c.markFat i copies offset xfatsize)
  | .flush1 i => (none, (c.flush1 i).2)
  | .flushBuffers dsk => (none, (c.flushBuffers dsk).2)
  | .flush => (none, c.flush.2)
  | .readDirect blkno n dsk =>
    (none, ((c.deleteForRead blkno (blkno + n - 1) dsk).dskread dsk).2.2)
  | .writeDirect blkno n dsk contents =>
    (none, ((c.deleteForWrite blkno (blkno + n - 1) dsk).dskwrite dsk blkno n contents).2)
  | .setinvld dsk => (none, c.setinvld dsk)

/-- No buffer stands for the block. -/
def Cache.Misses (c : Cache S) (blkno dsk : Nat) : Prop :=
  ∀ i ∈ c.ring, ¬ (c.buf i).holds dsk blkno = true

/-- The next read from the device succeeds. -/
def Cache.ReadDone (c : Cache S) : Prop :=
  match c.reads with
  | [] => True
  | .done :: _ => True
  | _ => False

/-- **What a call needs** in order not to break the cache. -/
def StepOk (c : Cache S) : Call S → Prop
  | .getblk blkno dsk overwrite => c.Misses blkno dsk →
      c.Flushable c.victim ∧ (c.evict.1 = true → overwrite = false ∧ c.ReadDone)
  | .getblkFill blkno dsk _ => c.Misses blkno dsk → c.Flushable c.victim
  | .modify i _ => i ∈ c.ring ∧ (c.buf i).valid = true
  | .markFat i copies _ _ => i ∈ c.ring ∧ (c.buf i).valid = true ∧ 1 ≤ copies
  | .flush1 i => i ∈ c.ring ∧ c.Flushable i
  | .flushBuffers dsk => ∀ i ∈ c.ring, (c.buf i).bUnit = dsk → c.Flushable i
  | .flush => ∀ i ∈ c.ring, c.Flushable i
  | .readDirect blkno n dsk => ∀ i ∈ c.ring,
      (c.buf i).inRange blkno (blkno + n - 1) dsk = true → c.Flushable i
  | .writeDirect .. => True
  | .setinvld _ => True

/-- The invariant of the whole cache. -/
structure CacheInv (c : Cache S) : Prop where
  nonempty : c.ring ≠ []
  noneIgnored : c.NoneIgnored
  unit : ∀ u, c.UnitInv u

/-- What a `getblk` hands out: the block asked for, as the device holds it unless the buffer is
dirty. -/
def Handed (blkno dsk : Nat) (r : Option Nat × Cache S) : Prop :=
  ∀ i, r.1 = some i → (r.2.buf i).holds dsk blkno = true ∧
    ((r.2.buf i).dirty = false → (r.2.buf i).bBuffer = r.2.dev dsk blkno)

/-- After the call, every clean buffer holds what the device holds. -/
def CallCoherent (_ : Cache S) (call : Call S) (r : Option Nat × Cache S) : Prop :=
  (∀ u, r.2.Coherent u) ∧
    match call with
    | .getblk blkno dsk _ => Handed blkno dsk r
    | _ => True

theorem dskread_done (h : c.ReadDone) (dsk : Nat) :
    ∃ rs, c.dskread dsk = (false, c.dev dsk, { c with reads := rs }) := by
  unfold Cache.ReadDone at h
  unfold Cache.dskread
  split at h
  · rename_i hr
    exact ⟨[], by simp only [hr]; rw [← hr]⟩
  · rename_i rs hr
    exact ⟨rs, by simp only [hr]⟩
  · exact absurd h id

/-! ## 5. One call -/

/-- **A `getblk` that gets its block** keeps the cache and hands out the block asked for. -/
theorem getblk_inv (h : CacheInv c) {overwrite : Bool}
    (hok : StepOk c (.getblk blkno dsk overwrite)) :
    CacheInv (c.getblk blkno dsk overwrite).2 ∧ Handed blkno dsk (c.getblk blkno dsk overwrite) := by
  rcases getblk_cases c blkno dsk overwrite with
    ⟨i, hi, hheld, hr⟩ | ⟨hmiss, f, hf, hr⟩
  · rw [hr]
    refine ⟨⟨cons_ne_nil _ _, h.noneIgnored, fun u => (h.unit u).found hi false⟩, ?_⟩
    rintro j hj
    cases hj
    dsimp only
    rw [found_holds, found_buf]
    exact ⟨hheld, fun hd => (h.unit dsk).coherent i hi blkno hheld hd⟩
  · obtain ⟨hflush, hread⟩ := hok hmiss
    obtain ⟨hmem, hreads, hno, hheld, hinv⟩ := evict_spec h.noneIgnored h.nonempty
    obtain rfl : f = c.evict := hf
    have hne : c.evict.2.ring ≠ [] :=
      ne_nil_of_mem ((hmem c.victim).mpr (victim_mem h.nonempty))
    have hinv' : ∀ u, c.evict.2.UnitInv u := fun u => hinv u (h.unit u) fun _ => hflush
    have hfree : ∀ j ∈ c.evict.2.ring, ¬ (c.evict.2.buf j).holds dsk blkno = true :=
      fun j hj hjb => hmiss j ((hmem j).mp hj) (hheld j dsk blkno hjb)
    rcases hr with ⟨-, hr⟩ | ⟨hf1, how, -⟩ | ⟨hf1, -, r, c', hr', hc', hr⟩
    · rw [hr]
      exact ⟨⟨hne, hno, hinv'⟩, nofun⟩
    · rw [(hread hf1).1] at how
      cases how
    · obtain ⟨rs, hdone⟩ := dskread_done (c := c.evict.2) (by
        have := (hread hf1).2
        unfold Cache.ReadDone at this ⊢
        rwa [hreads]) dsk
      rw [hdone] at hr'
      subst hr'
      subst hc'
      rw [hr]
      simp only [Bool.false_eq_true, if_false, setBuf_claim]
      refine ⟨⟨hne, hno, fun u => ?_⟩, ?_⟩
      · have hsame : ({ c.evict.2 with reads := rs } : Cache S).UnitInv u :=
          ⟨(hinv' u).coherent, (hinv' u).distinct, (hinv' u).copied⟩
        exact hsame.give rfl rfl (le_refl 1) hfree fun _ => rfl
      · intro j hj
        cases hj
        dsimp only
        rw [setBuf_self]
        exact ⟨holds_iff.mpr ⟨rfl, rfl, rfl⟩, fun _ => rfl⟩

/-- An overwriting `getblk` whose caller fills the buffer keeps the cache. -/
theorem getblkFill_inv (h : CacheInv c) {contents : S}
    (hok : StepOk c (.getblkFill blkno dsk contents)) :
    CacheInv (c.getblkFill blkno dsk contents).2 := by
  unfold Cache.getblkFill
  rcases getblk_cases c blkno dsk true with
    ⟨i, hi, hheld, hr⟩ | ⟨hmiss, f, hf, hr⟩
  · rw [hr]
    refine ⟨cons_ne_nil _ _, h.noneIgnored, fun u => ?_⟩
    have hf := (h.unit u).found hi false
    have hmem : i ∈ (c.found i false).ring := mem_cons_self
    obtain ⟨-, hv, -⟩ := holds_iff.mp hheld
    refine hf.setBuf_same hmem ?_ nofun ?_
    · intro b hb
      rw [holds_iff] at hb ⊢
      refine ⟨hb.1, ?_, hb.2.2⟩
      rw [found_buf]
      exact hv
    · intro b hb
      refine hf.copied i hmem b ?_
      rw [holds_iff] at hb ⊢
      refine ⟨hb.1, ?_, hb.2.2⟩
      rw [found_buf]
      exact hv
  · have hflush := hok hmiss
    obtain ⟨hmem, -, hno, hheld, hinv⟩ := evict_spec h.noneIgnored h.nonempty
    obtain rfl : f = c.evict := hf
    have hne : c.evict.2.ring ≠ [] :=
      ne_nil_of_mem ((hmem c.victim).mpr (victim_mem h.nonempty))
    have hinv' : ∀ u, c.evict.2.UnitInv u := fun u => hinv u (h.unit u) fun _ => hflush
    rcases hr with ⟨-, hr⟩ | ⟨-, -, hr⟩ | ⟨-, how, -⟩
    · rw [hr]
      exact ⟨hne, hno, hinv'⟩
    · rw [hr]
      refine ⟨hne, hno, fun u => ?_⟩
      have hfilled : (c.evict.2.claim c.victim blkno dsk).modify c.victim contents =
          c.evict.2.setBuf c.victim { (c.evict.2.buf c.victim).noFlags with
            valid := true, data := true, bUnit := dsk, bBlkno := blkno, bBuffer := contents,
            dirty := true } := by
        unfold Cache.modify Cache.claim
        rw [setBuf_self]
        simp only [Cache.setBuf, update_idem]
      dsimp only
      rw [hfilled]
      refine (hinv' u).give rfl rfl (le_refl 1) ?_ nofun
      exact fun j hj hjb => hmiss j ((hmem j).mp hj) (hheld j dsk blkno hjb)
    · cases how

/-- A direct write, with the range taken out of the cache before, concerns no buffer. -/
theorem writeDirect_inv (h : CacheInv c) (blkno n dsk : Nat) (contents : Nat → S) :
    CacheInv (step c (.writeDirect blkno n dsk contents)).2 := by
  have hw := dskwrite_spec (c := c.deleteForWrite blkno (blkno + n - 1) dsk) h.noneIgnored dsk blkno
    n contents
  have hdel : ∀ u, (c.deleteForWrite blkno (blkno + n - 1) dsk).UnitInv u :=
    fun u => (h.unit u).mapRing _ fun _ => rfl
  have hout : ∀ i ∈ c.ring, ∀ b,
      ((c.deleteForWrite blkno (blkno + n - 1) dsk).buf i).holds dsk b = true →
        ¬ (blkno ≤ b ∧ b < blkno + n) := by
    intro i hi b hb hrange
    simp only [Cache.deleteForWrite, Cache.mapRing] at hb
    split at hb
    · exact absurd (holds_iff.mp hb).2.1 (by simp [Buffer.noFlags])
    · rename_i hnot
      obtain ⟨h1, h2, h3⟩ := holds_iff.mp hb
      refine hnot ⟨hi, ?_⟩
      simp only [Buffer.inRange, h1, h2, h3, Bool.and_true, beq_self_eq_true, Bool.and_eq_true,
        decide_eq_true_eq]
      omega
  refine ⟨?_, h.noneIgnored.of_subset hw.writes, fun u => ⟨?_, ?_, ?_⟩⟩
  · rw [step, hw.ring]
    exact h.nonempty
  · intro i hi b hb hd
    rw [step, hw.ring] at hi
    simp only [step] at hb hd ⊢
    rw [hw.buf] at hb hd ⊢
    rw [hw.others u b ?_]
    · exact (hdel u).coherent i hi b hb hd
    · rintro ⟨rfl, hrange⟩
      exact hout i hi b hb hrange
  · intro i hi j hj b hib hjb
    rw [step, hw.ring] at hi hj
    simp only [step] at hib hjb
    rw [hw.buf] at hib hjb
    exact (hdel u).distinct i hi j hj b hib hjb
  · intro i hi b hb
    rw [step, hw.ring] at hi
    simp only [step] at hb ⊢
    rw [hw.buf] at hb ⊢
    exact (hdel u).copied i hi b hb

theorem flushEach_ring (sel : Buffer S → Bool) :
    ∀ (is : List Nat) (c : Cache S), c.NoneIgnored → (c.flushEach sel is).2.ring = c.ring
  | [], _, _ => rfl
  | i :: is, c, hno => by
    unfold Cache.flushEach
    split
    · have hf := flush1_spec hno i
      exact (flushEach_ring sel is _ (hno.of_subset hf.writes)).trans hf.ring
    · exact flushEach_ring sel is c hno

/-- The walks that write out keep the cache. -/
theorem flushEach_inv (h : CacheInv c) (sel : Buffer S → Bool)
    (hok : ∀ i ∈ c.ring, sel (c.buf i) = true → c.Flushable i) :
    CacheInv (c.flushEach sel c.ring).2 := by
  have hu := fun u => flushEach_unitInv sel c.ring c h.noneIgnored (h.unit u) (fun _ hi => hi)
    fun i hi hs _ => hok i hi hs
  refine ⟨?_, (hu 0).2, fun u => (hu u).1⟩
  rw [flushEach_ring sel c.ring c h.noneIgnored]
  exact h.nonempty

theorem CacheInv.mapRing (h : CacheInv c) (sel : Buffer S → Bool)
    (hf : ∀ b, (f b).valid = false) : CacheInv (c.mapRing sel f) :=
  ⟨h.nonempty, h.noneIgnored, fun u => (h.unit u).mapRing sel hf⟩

/-- **One call** that gets what it needs keeps the cache. -/
theorem cacheInv_step {call : Call S} (h : CacheInv c) (hok : StepOk c call) :
    CacheInv (step c call).2 := by
  cases call with
  | getblk blkno dsk overwrite => exact (getblk_inv h hok).1
  | getblkFill blkno dsk contents => exact getblkFill_inv h hok
  | modify i contents =>
    refine ⟨h.nonempty, h.noneIgnored, fun u => ?_⟩
    have hheld : ∀ b, ({ c.buf i with bBuffer := contents, dirty := true, valid := true } :
        Buffer S).holds u b = true → (c.buf i).holds u b = true := by
      intro b hb
      obtain ⟨h1, -, h3⟩ := holds_iff.mp hb
      exact holds_iff.mpr ⟨h1, hok.2, h3⟩
    exact (h.unit u).setBuf_same hok.1 hheld nofun
      fun b hb => (h.unit u).copied i hok.1 b (hheld b hb)
  | markFat i copies offset xfatsize =>
    refine ⟨h.nonempty, h.noneIgnored, fun u => ?_⟩
    have hheld : ∀ b, ({ c.buf i with
          data := false, dir := false, fat := true, valid := true, bCopies := copies,
          bOffset := offset, dpbXfatsize := xfatsize } : Buffer S).holds u b = true →
        (c.buf i).holds u b = true := by
      intro b hb
      obtain ⟨h1, -, h3⟩ := holds_iff.mp hb
      exact holds_iff.mpr ⟨h1, hok.2.1, h3⟩
    exact (h.unit u).setBuf_same hok.1 hheld
      (fun b hb hd => (h.unit u).coherent i hok.1 b (hheld b hb) hd) fun _ _ => hok.2.2
  | flush1 i =>
    have hf := flush1_spec h.noneIgnored i
    refine ⟨?_, h.noneIgnored.of_subset hf.writes, fun u => hf.unitInv (h.unit u) hok.1 fun _ => hok.2⟩
    rw [step, hf.ring]
    exact h.nonempty
  | flushBuffers dsk => exact flushEach_inv h _ fun i hi hs => hok i hi (by simpa using hs)
  | flush =>
    have hf := flushEach_inv h (fun _ => true) fun i hi _ => hok i hi
    exact hf.mapRing (fun _ => true) (f := fun b => { b with valid := false }) fun _ => rfl
  | readDirect blkno n dsk =>
    have hd := flushEach_inv h (fun b => b.inRange blkno (blkno + n - 1) dsk) hok
    have hsame : ∀ c' : Cache S, CacheInv c' → CacheInv (c'.dskread dsk).2.2 := by
      intro c' hc
      unfold Cache.dskread
      split <;> exact ⟨hc.nonempty, hc.noneIgnored, fun u =>
        ⟨(hc.unit u).coherent, (hc.unit u).distinct, (hc.unit u).copied⟩⟩
    exact hsame _ hd
  | writeDirect blkno n dsk contents => exact writeDirect_inv h blkno n dsk contents
  | setinvld dsk => exact h.mapRing (fun b => b.bUnit == dsk) (f := Buffer.noFlags) fun _ => rfl

/-! ## 6. Runs -/

/-- **The cache is coherent along every run** whose calls get what they need: after each call every
clean buffer holds what the device holds, and `getblk` hands out the block asked for. -/
theorem coherent_along_run (calls : List (Call S)) (c : Cache S) (h : CacheInv c)
    (hok : Guarded step StepOk c calls) : Along step CallCoherent c calls := by
  refine Along.of_invariant (fun _ _ hc hs => cacheInv_step hc hs) ?_ calls c h hok
  intro c call hc hs
  refine ⟨fun u => ((cacheInv_step hc hs).unit u).coherent, ?_⟩
  cases call with
  | getblk blkno dsk overwrite => exact (getblk_inv hc hs).2
  | _ => trivial

/-- Two buffers that stand for nothing yet, and a device that holds block numbers. -/
def freshCache : Cache Nat where
  ring := [0, 1]
  buf _ := ⟨0, 0, false, false, false, false, false, false, 0, 0, 0, 0⟩
  dev _ b := b
  reads := []
  writes := []

/-- A block is read, changed and written out, and a second one is read. -/
theorem read_change_flush_coherent : Along step CallCoherent freshCache
    [.getblk 5 0 false, .modify 1 7, .flushBuffers 0, .getblk 6 0 false] := by
  have hunheld : ∀ i u b, ¬ (freshCache.buf i).holds u b = true := by
    intro i u b hb
    exact absurd (holds_iff.mp hb).2.1 Bool.false_ne_true
  have hinv : CacheInv freshCache :=
    ⟨by decide, nofun, fun u =>
      ⟨fun i _ b hb => absurd hb (hunheld i u b), fun i _ j _ b hb => absurd hb (hunheld i u b),
        fun i _ b hb => absurd hb (hunheld i u b)⟩⟩
  refine coherent_along_run _ _ hinv ⟨?_, ?_, ?_, ?_, trivial⟩
  · exact fun _ => ⟨nofun, fun _ => ⟨rfl, trivial⟩⟩
  · exact ⟨by decide, by decide⟩
  · have hone : ∀ i ∈ (run step freshCache [.getblk 5 0 false, .modify 1 7]).ring,
        ((run step freshCache [.getblk 5 0 false, .modify 1 7]).buf i).copies = 1 := by decide
    intro i hi _ _ _ j _ _ k hk1 hk
    have hcopies := hone i hi
    simp only [run_cons, run_nil] at hcopies
    omega
  · exact fun _ => ⟨nofun, fun _ => ⟨rfl, trivial⟩⟩

/-- One buffer, clean and valid for block 1, and a device whose next read fails. -/
def oneBuffer : Cache Nat where
  ring := [0]
  buf _ := ⟨0, 1, false, true, true, false, false, false, 1, 0, 0, 11⟩
  dev _ b := 10 * b + b
  reads := [.failed fun _ => 99]
  writes := []

/-- **A failed read leaves garbage under the old block number.**  Block 2 cannot be read; block 1,
which the device still holds, is then handed out of the cache as 99. -/
theorem failed_read_garbage :
    (∀ u, oneBuffer.Coherent u) ∧ ¬ Along step CallCoherent oneBuffer [.getblk 2 0 false] ∧
      (run step oneBuffer [.getblk 2 0 false, .getblk 1 0 false]).dev 0 1 = 11 ∧
      ((run step oneBuffer [.getblk 2 0 false]).getblk 1 0 false).1 = some 0 ∧
      ((run step oneBuffer [.getblk 2 0 false, .getblk 1 0 false]).buf 0).bBuffer = 99 := by
  refine ⟨?_, ?_, by decide, by decide, by decide⟩
  · intro u i _ b hb _
    obtain ⟨h1, -, -⟩ := holds_iff.mp hb
    subst h1
    rfl
  · rintro ⟨⟨h, -⟩, -⟩
    exact nomatch h 0 0 (by decide) 1 (by decide) (by decide)

end SdcBoot.Block
