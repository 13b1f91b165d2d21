/-
# The blocks in use

What the rest of the kernel sees of the memory manager is the set of blocks that somebody owns, each
with its segment, size and owner; free blocks are split and joined by every search.  `inUse` reads
the set off a chain: a search changes nothing (`search_use`), `DosMemAlloc` adds one block at a
segment where none was (`alloc_use`), and over a whole layout of memory, with upper memory linked or
not, `Uses` is the assertion "just these blocks are in use" with one rule for each operation
(`Uses.alloc`, `Uses.free`, `Uses.umbLink`, `Uses.store`).

The rules share one assumption: the block at the upper memory root is in use.  If it is free a
search can join it into the block before it, and then there is no block at the root any more
(`umb_root_joined_away`).
-/
import SdcBoot.Memory.Arena
import SdcBoot.Memory.Umb
import Mathlib.Data.Set.Insert

namespace SdcBoot.Memory

open Lib List

/-! ## 1. The set -/

/-- A block in use. -/
@[ext]
structure Used where
  seg : Nat
  size : Nat
  psp : Nat
  deriving DecidableEq

def usedAs (b : Block) : Used := ⟨b.seg, b.hdr.mSize, b.hdr.mPsp⟩

/-- The blocks in use among `bs`. -/
def inUse (bs : List Block) : Set Used := {u | ∃ b ∈ bs, b.hdr.free = false ∧ usedAs b = u}

theorem inUse_append (xs ys : List Block) : inUse (xs ++ ys) = inUse xs ∪ inUse ys := by
  ext u
  simp only [inUse, mem_append, Set.mem_union, Set.mem_ofPred_eq, or_and_right, exists_or]

theorem inUse_cons (b : Block) (bs : List Block) : inUse (b :: bs) = inUse [b] ∪ inUse bs :=
  inUse_append [b] bs

variable {bs : List Block} {b : Block} {m m' : Nat → Mcb} {cuPsp hi lo mode size : Nat}

theorem inUse_of_free (h : ∀ b ∈ bs, b.hdr.free = true) : inUse bs = ∅ := by
  ext u
  simp only [Set.mem_empty_iff_false, iff_false]
  rintro ⟨b, hb, hf, -⟩
  rw [h b hb] at hf
  cases hf

theorem inUse_free (h : b.hdr.free = true) : inUse [b] = ∅ :=
  inUse_of_free (by simpa using h)

theorem inUse_used (h : b.hdr.free = false) : inUse [b] = {usedAs b} := by
  ext u
  simp only [inUse, mem_singleton, exists_eq_left, h, true_and]
  exact eq_comm

theorem free_false {b : Mcb} : b.free = false ↔ b.mPsp ≠ 0 := by
  simp [Mcb.free, FREE_PSP]

/-- Every block in use is one of the chain, and owned. -/
theorem mem_inUse {u : Used} (h : u ∈ inUse bs) :
    ∃ b ∈ bs, b.seg = u.seg ∧ b.hdr.mSize = u.size ∧ b.hdr.mPsp = u.psp ∧ u.psp ≠ 0 := by
  obtain ⟨b, hb, hf, rfl⟩ := h
  exact ⟨b, hb, rfl, rfl, rfl, free_false.mp hf⟩

/-! ## 2. Joining and searching -/

/-- A chain with the same blocks in use, in a memory that is the same outside its interval. -/
def SameUse (m : Nat → Mcb) (lo : Nat) (bs : List Block) (hi : Nat) (m' : Nat → Mcb) : Prop :=
  (∃ bs', Chain m' lo bs' hi ∧ inUse bs' = inUse bs) ∧ ∀ c, c < lo ∨ hi ≤ c → m' c = m c

theorem SameUse.trans {m1 m2 : Nat → Mcb} {bs1 : List Block} (h : inUse bs1 = inUse bs)
    (hag : ∀ c, c < lo ∨ hi ≤ c → m1 c = m c)
    (h' : SameUse m1 lo bs1 hi m2) : SameUse m lo bs hi m2 := by
  obtain ⟨⟨bs2, hch, huse⟩, hag'⟩ := h'
  exact ⟨⟨bs2, hch, huse.trans h⟩, fun c hc => (hag' c hc).trans (hag c hc)⟩

/-- Joining writes only inside the interval. -/
theorem Chain.join_frame {pre rest : List Block} {x : Block} {rc : Int} (hspan : Span lo hi)
    (h : Chain m lo (pre ++ x :: rest) hi) (hrun : joinMCBs walkFuel m x.seg = some (rc, m')) :
    ∀ c, c < lo ∨ hi ≤ c → m' c = m c := by
  obtain ⟨mid, hpre, hx⟩ := tiles_append.mp h.tiles
  have hseg : x.seg = mid := hx.1
  subst hseg
  have hle := hpre.le
  have hlen := hx.length_le
  simp only [length_cons] at hlen
  obtain ⟨h1, h2⟩ := hspan
  obtain ⟨-, he⟩ := (ends_append (by simp)).mp h.ends
  obtain ⟨m1, b, frees, post, -, -, hrun', htl, -, -, -, hfr⟩ :=
    joinMCBs_spec hi h1 rest walkFuel m x hx he (by omega) (by unfold walkFuel; omega)
  rw [hrun] at hrun'
  cases hrun'
  have hend : x.seg + 1 + b.mSize ≤ hi := htl.2.2.le
  intro c hc
  exact hfr c (by omega)

/-- **A search only joins free blocks.** -/
theorem search_use (size mode lo hi : Nat) (hspan : Span lo hi) :
    ∀ (fuel : Nat) (m : Nat → Mcb) (pre suf : List Block) (x : Block) (big found : Nat)
      (r : Search), Chain m lo (pre ++ x :: suf) hi →
      search size mode fuel m x.seg big found = some r →
      SameUse m lo (pre ++ x :: suf) hi r.mem := by
  intro fuel
  induction fuel with
  | zero =>
    intro m pre suf x big found r _ hr
    cases hr
  | succ fuel ih =>
    intro m pre suf x big found r hch hr
    -- going on to the next block, or stopping at the last one
    have hnext : ∀ (m1 : Nat → Mcb) (post : List Block) (b : Mcb) (big1 found1 : Nat),
        Chain m1 lo (pre ++ ⟨x.seg, b⟩ :: post) hi →
        (if (m1 x.seg).mType = MCB_LAST then some (Search.ended m1 big1 found1)
          else search size mode fuel m1 (nxtMCB m1 x.seg) big1 found1) = some r →
        SameUse m1 lo (pre ++ ⟨x.seg, b⟩ :: post) hi r.mem := by
      intro m1 post b big1 found1 hch1 hr1
      split at hr1
      · cases hr1
        exact ⟨⟨_, hch1, rfl⟩, fun _ _ => rfl⟩
      · rename_i hlast
        obtain ⟨mid, -, hx⟩ := tiles_append.mp hch1.tiles
        have hmid : x.seg = mid := hx.1
        subst hmid
        have hmx : m1 x.seg = b := hx.2.1
        cases post with
        | nil =>
          have he := ((ends_append (by simp)).mp hch1.ends).2
          exact absurd (by rw [hmx]; exact he) hlast
        | cons y post =>
          have hyseg : y.seg = x.seg + 1 + b.mSize := hx.2.2.1
          have hyle : x.seg + 1 + b.mSize + 1 + y.hdr.mSize ≤ hi := hx.2.2.2.2.le
          have hhi := hspan.1
          have hlt : x.seg + 1 + b.mSize < 0x10000 := by omega
          have hq : nxtMCB m1 x.seg = y.seg := by
            rw [nxtMCB, hmx, nxtMCBsize_eq hlt, hyseg]
          have hshift : pre ++ ⟨x.seg, b⟩ :: y :: post =
              pre ++ [(⟨x.seg, b⟩ : Block)] ++ y :: post := by
            simp
          rw [hq] at hr1
          rw [hshift] at hch1 ⊢
          exact ih m1 _ post y big1 found1 r hch1 hr1
    have hmx : m x.seg = x.hdr := (hch.tiles.mem_bounds x (by simp)).2.2
    rw [search, if_neg (by simp [hch.valid (b := x) (by simp)])] at hr
    by_cases hfree : x.hdr.free = true
    · rw [if_pos (by rw [hmx]; exact hfree)] at hr
      obtain ⟨m1, b, frees, post, hsuf, hfrees, hrun, hch1, hpsp, -⟩ := hch.join hspan
      have hag := hch.join_frame hspan hrun
      have hbfree : b.free = true := by
        simp only [Mcb.free, hpsp] at hfree ⊢
        exact hfree
      -- what was joined, and what it was joined into, is free
      have huse : inUse (pre ++ ⟨x.seg, b⟩ :: post) = inUse (pre ++ x :: suf) := by
        rw [hsuf, inUse_append, inUse_append, inUse_cons, inUse_cons x, inUse_append frees,
          inUse_free hfree, inUse_of_free hfrees, inUse_free (b := ⟨x.seg, b⟩) hbfree]
        simp
      simp only [hrun, ne_eq, not_true_eq_false, if_false] at hr
      refine SameUse.trans huse hag ?_
      split at hr
      · cases hr
        exact ⟨⟨_, hch1, rfl⟩, fun _ _ => rfl⟩
      · exact hnext m1 post b _ _ hch1 hr
    · rw [if_neg (by rw [hmx]; exact hfree)] at hr
      exact hnext m suf x.hdr big found hch hr

/-! ## 3. Allocation -/

/-- **A block is in use where none was**: the set after an allocation by `cuPsp`. -/
structure Taken (bs bs' : List Block) (para n cuPsp : Nat) : Prop where
  use : inUse bs' = insert ⟨para, n, cuPsp⟩ (inUse bs)
  fresh : ∀ u ∈ inUse bs, u.seg ≠ para

theorem takeBlock_use (hspan : Span lo hi) (h : Chain m lo bs hi) (hb : b ∈ bs)
    (hfree : b.hdr.free = true) (hcu : cuPsp ≠ 0) (hsize : mode ≠ LARGEST → size ≤ b.hdr.mSize) :
    ∃ bs' m', takeBlock m cuPsp size mode b.seg = (takenAt b size mode, m') ∧
      Chain m' lo bs' hi ∧ Keeps bs bs' ∧
      Taken bs bs' (takenAt b size mode) (takenSize b size mode) cuPsp ∧
      lo ≤ takenAt b size mode ∧ ∀ c, c < lo ∨ hi ≤ c → m' c = m c := by
  obtain ⟨hlo, hend, hmb⟩ := h.tiles.mem_bounds b hb
  obtain ⟨front, back, t, m', hrun, hys, hends, hleft, hag⟩ :=
    takeBlock_tiles hmb (le_trans hend hspan.1) cuPsp hsize
  obtain ⟨pre, post, rfl, hpre, hpost⟩ := h.tiles.split_at hb
  set y : Block := ⟨takenAt b size mode, ⟨t, cuPsp, takenSize b size mode⟩⟩ with hy
  -- of what takes the place of `b`, only the block taken is in use
  have huse : inUse (front ++ y :: back) = {⟨takenAt b size mode, takenSize b size mode, cuPsp⟩} := by
    have hfront := inUse_of_free fun f hf => hleft f (mem_append_left _ hf)
    have hback := inUse_of_free fun f hf => hleft f (mem_append_right _ hf)
    rw [inUse_append, inUse_cons, hfront, hback, inUse_used (free_false.mpr hcu), Set.empty_union,
      Set.union_empty]
    rfl
  have hat : b.seg ≤ takenAt b size mode ∧ takenAt b size mode ≤ b.seg + b.hdr.mSize := by
    unfold takenAt
    split
    · omega
    · omega
  have hall : ∀ x ∈ [b], x.hdr.free = true := by simpa using hfree
  have hkeep := keeps_replace pre (front ++ y :: back) post hall
  refine ⟨pre ++ (front ++ y :: back) ++ post, m', hrun, h.replace hspan hys hends hag,
    by simpa using hkeep, ⟨?_, ?_⟩, by omega, fun c hc => hag c (by omega)⟩
  · rw [inUse_append, inUse_append, huse, inUse_append pre, inUse_cons b, inUse_free hfree,
      Set.empty_union, Set.insert_eq, Set.union_right_comm]
    exact Set.union_comm _ _
  · -- the other blocks lie before or behind the one that was found
    rintro u hu heq
    obtain ⟨x, hx, hf, rfl⟩ := hu
    rcases mem_append.mp hx with hx | hx
    · have := (hpre.mem_bounds x hx).2.1
      simp only [usedAs] at heq
      omega
    · rcases mem_cons.mp hx with rfl | hx
      · rw [hfree] at hf
        cases hf
      · have := (hpost.2.2.mem_bounds x hx).1
        simp only [usedAs] at heq
        omega

/-- **What `DosMemAlloc` does to the blocks in use**: it gives the process one more, of the size
asked for or of the size it reports, or it changes none. -/
def AllocUse (a : Arena) (hi : Nat) (bs : List Block) (cuPsp size mode : Nat)
    (r : Option (AllocAns × Arena)) : Prop :=
  ∃ ans m' bs', r = some (ans, { a with mem := m' }) ∧ Chain m' a.firstMcb bs' hi ∧ Keeps bs bs' ∧
    ((ans.rc = SUCCESS ∧ ∃ para n, ans.para = some para ∧ Taken bs bs' para n cuPsp ∧
        (mode ≠ LARGEST → n = size) ∧ (mode = LARGEST → ans.asize = some n)) ∨
      (ans.rc ≠ SUCCESS ∧ inUse bs' = inUse bs))

theorem AllocUse.after {a : Arena} {bs1 : List Block} {m1 : Nat → Mcb} {mode' : Nat}
    {r : Option (AllocAns × Arena)} (hkeep : Keeps bs bs1) (huse : inUse bs1 = inUse bs)
    (hm : mode ≠ LARGEST) (hm' : mode' ≠ LARGEST)
    (h : AllocUse { a with mem := m1 } hi bs1 cuPsp size mode' r) :
    AllocUse a hi bs cuPsp size mode r := by
  obtain ⟨ans, m', bs', hr, hch, hk, hdone⟩ := h
  refine ⟨ans, m', bs', hr, hch, hkeep.trans hk, ?_⟩
  rcases hdone with ⟨hrc, para, n, hpara, htaken, hn, -⟩ | ⟨hrc, hsame⟩
  · refine .inl ⟨hrc, para, n, hpara, ⟨?_, ?_⟩, fun _ => hn hm', fun hl => absurd hl hm⟩
    · rw [htaken.use, huse]
    · rw [← huse]
      exact htaken.fresh
  · exact .inr ⟨hrc, hsame.trans huse⟩

/-- The mode without its bit 0x80 is a fitting mode. -/
theorem cleared_ne_largest (mode : Nat) : mode &&& 0xff7f ≠ LARGEST := by
  intro h
  have hbit := testBit_clear mode
  rw [h] at hbit
  cases hbit

theorem allocPasses_use (hcu : cuPsp ≠ 0) (size hi : Nat) : ∀ (passes mode : Nat)
    (a : Arena) (bs : List Block), Span a.firstMcb hi → Chain a.mem a.firstMcb bs hi →
    RootOk a bs size mode → (2 ≤ passes ∨ (1 ≤ passes ∧ mode &&& 0x80 = 0)) →
    AllocUse a hi bs cuPsp size mode (allocPasses cuPsp size passes mode a) := by
  intro passes
  induction passes with
  | zero => intro mode a bs _ _ _ hp; omega
  | succ passes ih =>
    intro mode a bs hspan hch hroot hp
    obtain ⟨m', bs', hch', hkeep, ⟨pre, x, suf, r, rfl, rfl, hsearch⟩, hcases⟩ :=
      allocPasses_cases cuPsp passes hspan hch hroot
    -- the search changed no block in use
    have huse : inUse bs' = inUse (pre ++ x :: suf) := by
      obtain ⟨⟨cs, hcs, huse⟩, -⟩ := search_use size mode a.firstMcb hi hspan walkFuel a.mem pre suf
        x 0 0 r hch hsearch
      rw [hch'.unique hcs, huse]
    rcases hcases with ⟨b, hb, asize, hbf, hbs, hasize, hr⟩ | ⟨hnl, hbit, hroot', hr⟩ | ⟨asize, hr⟩
    · obtain ⟨cs, m2, hrun, hcs, hk, htaken, -, -⟩ := takeBlock_use hspan hch' hb hbf hcu hbs
      rw [hr, hrun]
      refine ⟨_, m2, cs, rfl, hcs, hkeep.trans hk,
        .inl ⟨rfl, _, takenSize b size mode, rfl, ⟨?_, ?_⟩, ?_, ?_⟩⟩
      · rw [htaken.use, huse]
      · rw [← huse]
        exact htaken.fresh
      · exact fun hne => if_neg hne
      · intro hl
        rw [takenSize, if_pos hl]
        exact hasize hl
    · rw [hr]
      exact (ih (mode &&& 0xff7f) { a with mem := r.mem } bs' hspan hch' hroot'
        (.inr ⟨by omega, testBit_clear mode⟩)).after hkeep huse hnl (cleared_ne_largest mode)
    · exact ⟨_, r.mem, bs', hr, hch', hkeep, .inr ⟨(by decide : DE_NOMEM ≠ SUCCESS), huse⟩⟩

/-- **`DosMemAlloc`, on the blocks in use.** -/
theorem alloc_use {a : Arena} (hspan : Span a.firstMcb hi) (h : Chain a.mem a.firstMcb bs hi)
    (hcu : cuPsp ≠ 0) (hroot : RootOk a bs size mode) :
    AllocUse a hi bs cuPsp size mode (dosMemAlloc a cuPsp size mode) :=
  allocPasses_use hcu size hi 2 mode a bs hspan h hroot (.inl (le_refl 2))

end SdcBoot.Memory
