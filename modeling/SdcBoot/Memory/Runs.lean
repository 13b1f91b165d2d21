/-
# Runs of free blocks

Free blocks that follow each other are one stretch of memory: joined, they hold the sum of their
sizes and the headers between them.  This module says what such a run is (`runs`) and what
`joinMCBs` does to the run behind a block (`Chain.joinAll`): all of it is taken in, and the block
behind the joined one is not free.
-/
import SdcBoot.Memory.Arena

namespace SdcBoot.Memory

open Lib List

/-! ## 1. What lies behind a block -/

/-- The paragraphs of the free blocks that `bs` begins with, their headers included. -/
def extra : List Block → Nat
  | [] => 0
  | b :: bs => if b.hdr.free then 1 + b.hdr.mSize + extra bs else 0

/-- `bs` without the free blocks it begins with. -/
def behind : List Block → List Block
  | [] => []
  | b :: bs => if b.hdr.free then behind bs else b :: bs

/-- The free blocks `bs` begins with. -/
def ahead : List Block → List Block
  | [] => []
  | b :: bs => if b.hdr.free then b :: ahead bs else []

theorem ahead_behind : ∀ bs : List Block, ahead bs ++ behind bs = bs
  | [] => rfl
  | b :: bs => by
    unfold ahead behind
    split
    · rw [cons_append, ahead_behind bs]
    · rfl

theorem ahead_free : ∀ (bs : List Block), ∀ b ∈ ahead bs, b.hdr.free = true
  | [], b, hb => by simp [ahead] at hb
  | c :: bs, b, hb => by
    unfold ahead at hb
    split at hb
    · rename_i hc
      rcases mem_cons.mp hb with rfl | hb
      · exact hc
      · exact ahead_free bs b hb
    · cases hb

variable {bs : List Block} {b : Block} {m : Nat → Mcb} {hi : Nat}

/-- A block that is in use is not passed over. -/
theorem mem_behind (hb : b ∈ bs) (hf : b.hdr.free = false) : b ∈ behind bs := by
  rw [← ahead_behind bs] at hb
  rcases mem_append.mp hb with hb | hb
  · rw [ahead_free bs b hb] at hf
    cases hf
  · exact hb

theorem behind_length : ∀ bs : List Block, (behind bs).length ≤ bs.length
  | [] => le_rfl
  | b :: bs => by
    unfold behind
    split
    · exact le_trans (behind_length bs) (Nat.le_succ _)
    · exact le_rfl

/-- The list begins with a block in use, or is empty. -/
def HeadUsed : List Block → Prop
  | [] => True
  | b :: _ => b.hdr.free = false

theorem headUsed_behind : ∀ bs : List Block, HeadUsed (behind bs)
  | [] => trivial
  | b :: bs => by
    unfold behind
    split
    · exact headUsed_behind bs
    · rename_i hb
      simpa [HeadUsed] using hb

theorem HeadUsed.behind_eq (h : HeadUsed bs) : behind bs = bs := by
  cases bs with
  | nil => rfl
  | cons b bs => exact if_neg (by rw [show b.hdr.free = false from h]; simp)

/-- Free blocks, and then none, are all that is passed over. -/
theorem behind_append {frees post : List Block} (hfrees : ∀ f ∈ frees, f.hdr.free = true)
    (hpost : HeadUsed post) : behind (frees ++ post) = post := by
  induction frees with
  | nil => exact hpost.behind_eq
  | cons f frees ih =>
    rw [cons_append, behind, if_pos (hfrees f (by simp))]
    exact ih fun g hg => hfrees g (.tail _ hg)

/-- The free blocks cover `extra` paragraphs of the chain. -/
theorem tiles_behind : ∀ {bs : List Block} {lo hi : Nat},
    Tiles Mcb.mSize m lo bs hi → Tiles Mcb.mSize m (lo + extra bs) (behind bs) hi
  | [], _, _, h => h
  | b :: bs, lo, hi, ⟨h1, h2, h3⟩ => by
    unfold extra behind
    split
    · have := tiles_behind h3
      rwa [show lo + (1 + b.hdr.mSize + extra bs) = lo + 1 + b.hdr.mSize + extra bs by omega]
    · exact ⟨h1, h2, h3⟩

theorem HeadUsed.extra_eq (h : HeadUsed bs) : extra bs = 0 := by
  cases bs with
  | nil => rfl
  | cons b bs => exact if_neg (by rw [show b.hdr.free = false from h]; simp)

/-! ## 2. Joining takes in all of it -/

/-- When `joinMCBs` succeeds, the block behind is in use, if there is one. -/
theorem joinMCBs_done {p : Nat} : ∀ (fuel : Nat) (m m' : Nat → Mcb),
    joinMCBs fuel m p = some (SUCCESS, m') → (m' p).mType = MCB_NORMAL →
    (m' (nxtMCB m' p)).free = false := by
  intro fuel
  induction fuel with
  | zero =>
    intro m m' h _
    cases h
  | succ fuel ih =>
    intro m m' h htype
    rw [joinMCBs] at h
    split at h
    · dsimp only at h
      split at h
      · rename_i hfree
        cases h
        simpa using hfree
      · split at h
        · cases h
        · exact ih _ m' h htype
    · rename_i hlast
      cases h
      exact absurd htype hlast

/-- **Joining takes in the whole run behind a block**, and nothing else. -/
theorem Chain.joinAll {lo : Nat} {pre rest : List Block} {x : Block} (hspan : Span lo hi)
    (h : Chain m lo (pre ++ x :: rest) hi) :
    ∃ (m' : Nat → Mcb) (b : Mcb), joinMCBs walkFuel m x.seg = some (SUCCESS, m') ∧
      Chain m' lo (pre ++ ⟨x.seg, b⟩ :: behind rest) hi ∧ b.mPsp = x.hdr.mPsp ∧
      b.mSize = x.hdr.mSize + extra rest := by
  obtain ⟨m', b, frees, post, hrest, hfrees, hrun, hch, hpsp, -⟩ := h.join hspan
  obtain ⟨mid, -, hx⟩ := tiles_append.mp h.tiles
  have hmid : x.seg = mid := hx.1
  subst hmid
  obtain ⟨mid, -, hx'⟩ := tiles_append.mp hch.tiles
  have hmid : x.seg = mid := hx'.1
  subst hmid
  -- what is left begins with a block in use
  have hpost : HeadUsed post := by
    cases post with
    | nil => trivial
    | cons y post =>
      have hend : x.seg + 1 + b.mSize < 0x10000 := by
        have hle := hx'.2.2.2.2.le
        have hhi := hspan.1
        simp only at hle
        omega
      have htype : (m' x.seg).mType = MCB_NORMAL := by
        rw [hx'.2.1]
        exact ((ends_append (by simp)).mp hch.ends).2.1
      have hfree := joinMCBs_done walkFuel m m' hrun htype
      rw [nxtMCB, hx'.2.1, nxtMCBsize_eq hend, hx'.2.2.2.1] at hfree
      exact hfree
  have hbehind : behind rest = post := by rw [hrest, behind_append hfrees hpost]
  have hsize : b.mSize = x.hdr.mSize + extra rest := by
    have hold := tiles_behind hx.2.2
    have hnew := hx'.2.2
    rw [hbehind] at hold
    cases post with
    | nil =>
      have h1 : x.seg + 1 + x.hdr.mSize + extra rest = hi := hold
      have h2 : x.seg + 1 + b.mSize = hi := hnew
      omega
    | cons y post =>
      have h1 : y.seg = x.seg + 1 + x.hdr.mSize + extra rest := hold.1
      have h2 : y.seg = x.seg + 1 + b.mSize := hnew.1
      omega
  exact ⟨m', b, hrun, by rw [hbehind]; exact hch, hpsp, hsize⟩

/-! ## 3. The runs of a chain -/

/-- A maximal run of adjacent free blocks: where its first block is, and how many paragraphs it
holds when it is joined. -/
structure FreeRun where
  seg : Nat
  size : Nat
  deriving DecidableEq

/-- The runs of `bs`.  A run begins at each free block that does not follow a free one. -/
def runsFrom : Bool → List Block → List FreeRun
  | _, [] => []
  | follows, b :: bs =>
    if b.hdr.free && !follows then ⟨b.seg, b.hdr.mSize + extra bs⟩ :: runsFrom true bs
    else runsFrom b.hdr.free bs

@[inherit_doc runsFrom]
def runs (bs : List Block) : List FreeRun := runsFrom false bs

theorem runs_used (bs : List Block) (h : b.hdr.free = false) : runs (b :: bs) = runs bs := by
  simp [runs, runsFrom, h]

/-- Inside a run nothing begins. -/
theorem runsFrom_true : ∀ bs : List Block, runsFrom true bs = runs (behind bs)
  | [] => rfl
  | b :: bs => by
    unfold runsFrom behind
    by_cases hb : b.hdr.free = true
    · rw [if_neg (by simp), if_pos hb, hb]
      exact runsFrom_true bs
    · rw [if_neg (by simp), if_neg hb]
      have hb' : b.hdr.free = false := by simpa using hb
      rw [hb', runs_used bs hb']
      rfl

theorem runs_free (bs : List Block) (h : b.hdr.free = true) :
    runs (b :: bs) = ⟨b.seg, b.hdr.mSize + extra bs⟩ :: runs (behind bs) := by
  rw [← runsFrom_true]
  simp [runs, runsFrom, h]

/-- No run begins in front of the chain. -/
theorem runs_lt : ∀ {bs : List Block} {lo : Nat} (follows : Bool),
    Tiles Mcb.mSize m lo bs hi → ∀ r ∈ runsFrom follows bs, lo ≤ r.seg
  | [], _, _, _, r, hr => by simp [runsFrom] at hr
  | b :: bs, lo, follows, ⟨h1, h2, h3⟩, r, hr => by
    have hrest : ∀ f, r ∈ runsFrom f bs → lo ≤ r.seg := fun f hf => by
      have := runs_lt f h3 r hf
      omega
    unfold runsFrom at hr
    split at hr
    · rcases mem_cons.mp hr with rfl | hr
      · exact le_of_eq h1.symm
      · exact hrest _ hr
    · exact hrest _ hr

/-- The runs come in the order of their segments. -/
theorem runs_ascending : ∀ {bs : List Block} {lo : Nat} (follows : Bool),
    Tiles Mcb.mSize m lo bs hi → (runsFrom follows bs).Pairwise fun r r' => r.seg < r'.seg
  | [], _, _, _ => by simp [runsFrom]
  | b :: bs, lo, follows, ⟨h1, h2, h3⟩ => by
    unfold runsFrom
    split
    · refine pairwise_cons.mpr ⟨fun r hr => ?_, runs_ascending true h3⟩
      have := runs_lt true h3 r hr
      simp only
      omega
    · exact runs_ascending _ h3

/-- Whether a block that stands behind `pre` follows a free one. -/
def lastFree : Bool → List Block → Bool
  | follows, [] => follows
  | _, b :: bs => lastFree b.hdr.free bs

theorem mem_runsFrom {r : FreeRun} : ∀ {bs : List Block} {follows : Bool},
    r ∈ runsFrom follows bs ↔ ∃ pre f rest, bs = pre ++ f :: rest ∧ lastFree follows pre = false ∧
      f.hdr.free = true ∧ r = ⟨f.seg, f.hdr.mSize + extra rest⟩
  | [], follows => by simp [runsFrom]
  | b :: bs, follows => by
    have hcases : (∃ pre f rest, b :: bs = pre ++ f :: rest ∧ lastFree follows pre = false ∧
        f.hdr.free = true ∧ r = ⟨f.seg, f.hdr.mSize + extra rest⟩) ↔
        (follows = false ∧ b.hdr.free = true ∧ r = ⟨b.seg, b.hdr.mSize + extra bs⟩) ∨
          r ∈ runsFrom b.hdr.free bs := by
      rw [mem_runsFrom]
      constructor
      · rintro ⟨pre, f, rest, heq, h⟩
        cases pre with
        | nil =>
          cases heq
          exact .inl h
        | cons c pre =>
          cases heq
          exact .inr ⟨pre, f, rest, rfl, h⟩
      · rintro (h | ⟨pre, f, rest, rfl, h⟩)
        · exact ⟨[], b, bs, rfl, h⟩
        · exact ⟨b :: pre, f, rest, rfl, h⟩
    rw [hcases, runsFrom]
    split
    · rename_i hbegin
      obtain ⟨hf, hfollows⟩ := Bool.and_eq_true_iff.mp hbegin
      rw [mem_cons, hf]
      simp only [Bool.not_eq_true'] at hfollows
      simp [hfollows]
    · rename_i hbegin
      constructor
      · exact Or.inr
      · rintro (⟨hfollows, hf, -⟩ | h)
        · exact absurd (by rw [hf, hfollows]; rfl) hbegin
        · exact h

theorem extra_eq : ∀ bs : List Block,
    extra bs = ((ahead bs).map fun b => b.hdr.mSize).sum + (ahead bs).length
  | [] => rfl
  | b :: bs => by
    unfold extra ahead
    split
    · rw [extra_eq bs, map_cons, sum_cons, length_cons]
      omega
    · rfl

/-- **The runs are the maximal ones.**  A run consists of free blocks, what stands in front of it and
behind it is not free, and joined it holds the sum of the sizes and one paragraph for each header
but the first. -/
theorem mem_runs {r : FreeRun} :
    r ∈ runs bs ↔ ∃ pre f frees post, bs = pre ++ (f :: frees) ++ post ∧
      (∀ g ∈ f :: frees, g.hdr.free = true) ∧ lastFree false pre = false ∧ HeadUsed post ∧
      r.seg = f.seg ∧
      r.size = ((f :: frees).map fun b => b.hdr.mSize).sum + (f :: frees).length - 1 := by
  rw [runs, mem_runsFrom]
  constructor
  · rintro ⟨pre, f, rest, rfl, hlast, hf, rfl⟩
    refine ⟨pre, f, ahead rest, behind rest, by simp [ahead_behind], ?_, hlast, headUsed_behind rest,
      rfl, ?_⟩
    · intro g hg
      rcases mem_cons.mp hg with rfl | hg
      · exact hf
      · exact ahead_free rest g hg
    · rw [extra_eq, map_cons, sum_cons, length_cons]
      simp only
      omega
  · rintro ⟨pre, f, frees, post, rfl, hall, hlast, hpost, hseg, hsize⟩
    have hfrees : ∀ g ∈ frees, g.hdr.free = true := fun g hg => hall g (.tail _ hg)
    have hahead : ahead (frees ++ post) = frees := by
      have h := ahead_behind (frees ++ post)
      rw [behind_append hfrees hpost] at h
      exact append_cancel_right h
    refine ⟨pre, f, frees ++ post, by simp, hlast, hall f (by simp), ?_⟩
    cases r
    simp only [map_cons, sum_cons, length_cons] at hseg hsize
    rw [hseg, hsize, extra_eq, hahead]
    congr 1
    omega

end SdcBoot.Memory
