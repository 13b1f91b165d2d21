/-
# `DosMemAlloc` finds a fit

The search of `DosMemAlloc` joins free blocks on its way and keeps pointers to the candidates it has
passed.  Seen from the runs of free blocks (`Memory/Runs.lean`) it is a pass over a list that keeps
the best so far (`choose`), and `search_choose` is the simulation: whatever the pass ends in, the
search ends in, with a pointer to the joined run.  What each strategy's pass ends in is then a fact
about lists, and `alloc_finds_fit` is the result with upper memory not linked.

The chain must not begin at segment 0, whose far pointer is the null pointer: a free block there
would be found and taken for none.  Paragraph 0 holds the interrupt vectors, so none is there.
-/
import SdcBoot.Lib.Best
import SdcBoot.Memory.Runs
import SdcBoot.Memory.Use

namespace SdcBoot.Memory

open Lib List

/-! ## 1. What the search chooses among the runs -/

/-- How the search ends, over the runs. -/
inductive Choice where
  | stopIt (found : FreeRun)
  | ended (biggest found : Option FreeRun)

/-- The larger of the largest so far and the next run; the earlier one where they are equal. -/
def larger (biggest : Option FreeRun) (r : FreeRun) : Option FreeRun :=
  match biggest with
  | none => some r
  | some b => if b.size < r.size then some r else some b

/-- The run kept for the request when `r`, which is large enough, is met. -/
def better (mode : Nat) (found : Option FreeRun) (r : FreeRun) : Option FreeRun :=
  if mode = LARGEST then found
  else if isBestFit mode then
    match found with
    | none => some r
    | some f => if f.size > r.size then some r else some f
  else some r

/-- The search of `DosMemAlloc`, as a pass over the runs. -/
def choose (size mode : Nat) : List FreeRun → Option FreeRun → Option FreeRun → Choice
  | [], biggest, found => .ended biggest found
  | r :: rs, biggest, found =>
    if r.size ≥ size ∧ isFirstFit mode then .stopIt r
    else choose size mode rs (larger biggest r) (if r.size ≥ size then better mode found r else found)

/-- The pointer `s` is null, or is that of a free block which is the joined run `o`. -/
def Points (bs : List Block) (s : Nat) : Option FreeRun → Prop
  | none => s = 0
  | some r => s = r.seg ∧ ∃ b ∈ bs, b.seg = r.seg ∧ b.hdr.mSize = r.size ∧ b.hdr.free = true

variable {bs : List Block} {hi lo mode s size : Nat} {m : Nat → Mcb} {r : FreeRun}
  {rs : List FreeRun}

theorem Points.mono {bs' : List Block} {o : Option FreeRun} (h : Points bs s o)
    (hsub : ∀ b ∈ bs, b ∈ bs') : Points bs' s o := by
  cases o with
  | none => exact h
  | some r =>
    obtain ⟨hs, b, hb, h'⟩ := h
    exact ⟨hs, b, hsub b hb, h'⟩

/-- A pointer to a run is not null, and its block has the run's size. -/
theorem Points.block (hlo : 0 < lo) (h : Points bs s (some r))
    (hch : ∀ b ∈ bs, lo ≤ b.seg ∧ m b.seg = b.hdr) : s ≠ 0 ∧ (m s).mSize = r.size := by
  obtain ⟨rfl, b, hb, hseg, hsize, -⟩ := h
  obtain ⟨h1, h2⟩ := hch b hb
  rw [← hseg, h2]
  exact ⟨by omega, hsize⟩

/-- The search ended as the pass over the runs did, in a chain where the runs chosen are blocks. -/
def EndsAs (lo hi : Nat) (r : Option Search) : Choice → Prop
  | .stopIt run => ∃ m' bs', Chain m' lo bs' hi ∧ Points bs' run.seg (some run) ∧
      r = some (.stopIt m' run.seg)
  | .ended biggest found => ∃ m' bs' big s, Chain m' lo bs' hi ∧ Points bs' big biggest ∧
      Points bs' s found ∧ r = some (.ended m' big s)

/-! ## 2. The search is the pass over the runs -/

variable {big : Nat} {pre : List Block} {found : Option FreeRun} {a : Arena}

/-- The largest so far, by its pointer. -/
theorem points_larger {biggest : Option FreeRun} (hlo : 0 < lo) (h : Points pre big biggest)
    (hch : ∀ b ∈ pre, lo ≤ b.seg ∧ m b.seg = b.hdr) (x : Block) (hfree : x.hdr.free = true) :
    Points (pre ++ [x]) (if big = 0 ∨ (m big).mSize < x.hdr.mSize then x.seg else big)
      (larger biggest ⟨x.seg, x.hdr.mSize⟩) := by
  have hself : Points (pre ++ [x]) x.seg (some ⟨x.seg, x.hdr.mSize⟩) :=
    ⟨rfl, x, by simp, rfl, rfl, hfree⟩
  have hstay := h.mono fun b hb => mem_append_left [x] hb
  cases biggest with
  | none =>
    rw [if_pos (.inl (show big = 0 from h))]
    exact hself
  | some r =>
    obtain ⟨h0, hsize⟩ := h.block hlo hch
    rw [hsize]
    by_cases hlt : r.size < x.hdr.mSize
    · rw [if_pos (.inr hlt)]
      simpa only [larger, if_pos hlt] using hself
    · rw [if_neg (by simp [h0, hlt])]
      simpa only [larger, if_neg hlt] using hstay

/-- The one kept for the request, by its pointer. -/
theorem points_better (mode : Nat) (hlo : 0 < lo) (h : Points pre s found)
    (hch : ∀ b ∈ pre, lo ≤ b.seg ∧ m b.seg = b.hdr) (x : Block) (hfree : x.hdr.free = true) :
    Points (pre ++ [x])
      (if mode = LARGEST then s
        else if isBestFit mode = true then if s = 0 ∨ (m s).mSize > x.hdr.mSize then x.seg else s
        else x.seg)
      (better mode found ⟨x.seg, x.hdr.mSize⟩) := by
  have hself : Points (pre ++ [x]) x.seg (some ⟨x.seg, x.hdr.mSize⟩) :=
    ⟨rfl, x, by simp, rfl, rfl, hfree⟩
  have hstay := h.mono fun b hb => mem_append_left [x] hb
  unfold better
  split
  · exact hstay
  · split
    · cases found with
      | none =>
        rw [if_pos (.inl (show s = 0 from h))]
        exact hself
      | some r =>
        obtain ⟨h0, hsize⟩ := h.block hlo hch
        rw [hsize]
        by_cases hgt : r.size > x.hdr.mSize
        · rw [if_pos (.inr hgt)]
          simpa only [if_pos hgt] using hself
        · rw [if_neg (by simp [h0, hgt])]
          simpa only [if_neg hgt] using hstay
    · exact hself

/-- **The search of `DosMemAlloc` is the pass over the runs**: what it joins on its way is the run
it has reached. -/
theorem search_choose (size mode lo hi : Nat) (hspan : Span lo hi) (hlo : 0 < lo) :
    ∀ (fuel : Nat) (m : Nat → Mcb) (pre suf : List Block) (x : Block) (big s : Nat)
      (biggest found : Option FreeRun), Chain m lo (pre ++ x :: suf) hi → Points pre big biggest →
      Points pre s found → suf.length < fuel →
      EndsAs lo hi (search size mode fuel m x.seg big s)
        (choose size mode (runs (x :: suf)) biggest found) := by
  intro fuel
  induction fuel with
  | zero =>
    intro m pre suf x big s biggest found _ _ _ hfuel
    exact absurd hfuel (Nat.not_lt_zero _)
  | succ fuel ih =>
    intro m pre suf x big s biggest found hch hbig hs hfuel
    have hmx : m x.seg = x.hdr := (hch.tiles.mem_bounds x (by simp)).2.2
    -- going on to the next block, or stopping at the last one
    have hnext : ∀ (m1 : Nat → Mcb) (y : Block) (post : List Block) (big1 s1 : Nat)
        (biggest1 found1 : Option FreeRun), Chain m1 lo (pre ++ y :: post) hi →
        Points (pre ++ [y]) big1 biggest1 → Points (pre ++ [y]) s1 found1 →
        post.length ≤ suf.length →
        EndsAs lo hi (if (m1 y.seg).mType = MCB_LAST then some (.ended m1 big1 s1)
          else search size mode fuel m1 (nxtMCB m1 y.seg) big1 s1)
          (choose size mode (runs post) biggest1 found1) := by
      intro m1 y post big1 s1 biggest1 found1 hch1 hbig1 hs1 hlen
      obtain ⟨mid, -, hy⟩ := tiles_append.mp hch1.tiles
      have hmid : y.seg = mid := hy.1
      subst hmid
      have hends := ((ends_append (by simp)).mp hch1.ends).2
      rw [nxtMCB, hy.2.1]
      cases post with
      | nil =>
        rw [if_pos (show y.hdr.mType = MCB_LAST from hends)]
        exact ⟨m1, _, _, _, hch1, hbig1, hs1, rfl⟩
      | cons z post =>
        have hnorm : y.hdr.mType ≠ MCB_LAST := by
          rw [hends.1]
          decide
        have hzseg : z.seg = y.seg + 1 + y.hdr.mSize := hy.2.2.1
        have hlt : y.seg + 1 + y.hdr.mSize < 0x10000 := by
          have hle := hy.2.2.2.2.le
          have hhi := hspan.1
          omega
        have hshift : pre ++ y :: z :: post = pre ++ [y] ++ z :: post := by simp
        rw [if_neg hnorm, nxtMCBsize_eq hlt, ← hzseg]
        rw [hshift] at hch1
        exact ih m1 _ post z big1 s1 biggest1 found1 hch1 hbig1 hs1
          (by simp only [length_cons] at hlen; omega)
    rw [search, if_neg (by simp [hch.valid (b := x) (by simp)]), hmx]
    by_cases hfree : x.hdr.free = true
    · rw [if_pos hfree, runs_free suf hfree]
      obtain ⟨m1, b, hrun, hch1, hpsp, hsize⟩ := hch.joinAll hspan
      have hm1 : m1 x.seg = b := (hch1.tiles.mem_bounds ⟨x.seg, b⟩ (by simp)).2.2
      have hbfree : b.free = true := by
        simp only [Mcb.free, hpsp] at hfree ⊢
        exact hfree
      have hold : ∀ c ∈ pre, lo ≤ c.seg ∧ m1 c.seg = c.hdr := by
        intro c hc
        obtain ⟨h1, -, h2⟩ := hch1.tiles.mem_bounds c (mem_append_left _ hc)
        exact ⟨h1, h2⟩
      have hbig1 := points_larger hlo hbig hold ⟨x.seg, b⟩ hbfree
      have hs1 := points_better mode hlo hs hold ⟨x.seg, b⟩ hbfree
      rw [choose, ← hsize]
      simp only [hrun, ne_eq, not_true_eq_false, if_false, hm1]
      by_cases hstop : b.mSize ≥ size ∧ isFirstFit mode = true
      · rw [if_pos hstop, if_pos hstop]
        exact ⟨m1, _, hch1, ⟨rfl, ⟨x.seg, b⟩, by simp, rfl, rfl, hbfree⟩, rfl⟩
      · rw [if_neg hstop, if_neg hstop]
        have hgo := hnext m1 ⟨x.seg, b⟩ (behind suf) _
          (if b.mSize ≥ size then
            if mode = LARGEST then s
            else if isBestFit mode = true then if s = 0 ∨ (m1 s).mSize > b.mSize then x.seg else s
            else x.seg
          else s) _
          (if b.mSize ≥ size then better mode found ⟨x.seg, b.mSize⟩ else found) hch1 hbig1 ?_
          (behind_length suf)
        · rw [hm1] at hgo
          exact hgo
        · split
          · exact hs1
          · exact hs.mono fun c hc => mem_append_left _ hc
    · have hused : x.hdr.free = false := by simpa using hfree
      rw [if_neg hfree, runs_used suf hused]
      have hgo := hnext m x suf big s biggest found hch
        (hbig.mono fun c hc => mem_append_left _ hc)
        (hs.mono fun c hc => mem_append_left _ hc) le_rfl
      rw [hmx] at hgo
      exact hgo

/-! ## 3. The run each strategy names -/

def FIRST_FIT : Nat := 0
def BEST_FIT : Nat := 1
def LAST_FIT : Nat := 2

/-- The strategy prefers `r`, or they are the same run. -/
def Before (mode : Nat) (r r' : FreeRun) : Prop :=
  if mode = FIRST_FIT then r.seg ≤ r'.seg
  else if mode = BEST_FIT then r.size < r'.size ∨ r.size = r'.size ∧ r.seg ≤ r'.seg
  else r'.seg ≤ r.seg

/-- `r` is the run of at least `size` paragraphs that the strategy names. -/
structure Named (mode size : Nat) (rs : List FreeRun) (r : FreeRun) : Prop where
  mem : r ∈ rs
  fits : size ≤ r.size
  best : ∀ r' ∈ rs, size ≤ r'.size → Before mode r r'

/-- `n` is the size of the largest run, or 0 if there is none. -/
def LargestSize (rs : List FreeRun) (n : Nat) : Prop :=
  rs = [] ∧ n = 0 ∨ ∃ r ∈ rs, r.size = n ∧ ∀ r' ∈ rs, r'.size ≤ n

theorem foldl_larger {rs : List FreeRun} :
    rs = [] ∧ rs.foldl larger none = none ∨
      ∃ r ∈ rs, rs.foldl larger none = some r ∧ ∀ r' ∈ rs, r'.size ≤ r.size := by
  refine foldl_keep (R := fun r r' => r'.size ≤ r.size) (S := fun _ _ => True)
    (fun a r : FreeRun => if a.size < r.size then r else a) larger (fun _ => rfl) (fun a r => ?_) (fun _ _ _ h h' => le_trans h' h) (fun _ => le_rfl)
    (fun a b _ => ?_) (pairwise_of_forall fun _ _ => trivial)
  · simp only [larger]
    split <;> rfl
  · by_cases hlt : a.size < b.size
    · exact .inr ⟨if_pos hlt, le_of_lt hlt⟩
    · exact .inl ⟨if_neg hlt, Nat.le_of_not_lt hlt⟩

/-- What the pass keeps for a request when it does not stop. -/
def keepFit (size mode : Nat) (found : Option FreeRun) (r : FreeRun) : Option FreeRun :=
  if r.size ≥ size then better mode found r else found

theorem choose_ended : ∀ {rs : List FreeRun} (biggest found : Option FreeRun),
    (∀ r ∈ rs, ¬ (r.size ≥ size ∧ isFirstFit mode = true)) →
    choose size mode rs biggest found =
      .ended (rs.foldl larger biggest) (rs.foldl (keepFit size mode) found)
  | [], _, _, _ => rfl
  | r :: rs, biggest, found, h => by
    rw [choose, if_neg (h r (by simp)), foldl_cons, foldl_cons]
    exact choose_ended _ _ fun r' hr' => h r' (.tail _ hr')

/-- Runs that are too small leave what was found. -/
theorem foldl_keepFit_none
    (h : ∀ r ∈ rs, ¬ size ≤ r.size) : rs.foldl (keepFit size mode) found = found := by
  induction rs with
  | nil => rfl
  | cons r rs ih =>
    rw [foldl_cons, keepFit, if_neg (h r (by simp))]
    exact ih fun r' hr' => h r' (.tail _ hr')

/-- The pass passes over the runs that are too small. -/
theorem foldl_keepFit (size mode : Nat) (rs : List FreeRun) (found : Option FreeRun) :
    rs.foldl (keepFit size mode) found =
      (rs.filter fun r => decide (size ≤ r.size)).foldl (better mode) found := by
  rw [foldl_filter]
  congr 1
  funext o r
  simp [keepFit]

/-- First fit stops at the lowest run that is large enough. -/
theorem choose_first : ∀ {rs : List FreeRun} (biggest : Option FreeRun),
    rs.Pairwise (fun r r' => r.seg < r'.seg) →
    (∃ r, choose size FIRST_FIT rs biggest none = .stopIt r ∧ Named FIRST_FIT size rs r) ∨
      ∀ r ∈ rs, ¬ size ≤ r.size
  | [], _, _ => .inr (by simp)
  | r :: rs, biggest, hord => by
    obtain ⟨hr, hrs⟩ := pairwise_cons.mp hord
    by_cases hfit : size ≤ r.size
    · refine .inl ⟨r, if_pos ⟨hfit, rfl⟩, by simp, hfit, fun r' hr' _ => ?_⟩
      rcases mem_cons.mp hr' with rfl | hr'
      · exact le_rfl
      · exact le_of_lt (hr r' hr')
    · rw [choose, if_neg fun h => hfit h.1, if_neg hfit]
      rcases choose_first (larger biggest r) hrs with ⟨s, hs, hn⟩ | hnone
      · refine .inl ⟨s, hs, mem_cons_of_mem _ hn.mem, hn.fits, fun r' hr' hf => ?_⟩
        rcases mem_cons.mp hr' with rfl | hr'
        · exact absurd hf hfit
        · exact hn.best r' hr' hf
      · refine .inr fun r' hr' => ?_
        rcases mem_cons.mp hr' with rfl | hr'
        · exact hfit
        · exact hnone r' hr'

/-- Best fit and last fit keep the run they name. -/
theorem foldl_keepFit_named (hmode : mode = BEST_FIT ∨ mode = LAST_FIT)
    (hord : rs.Pairwise fun r r' => r.seg < r'.seg) :
    (∃ r, rs.foldl (keepFit size mode) none = some r ∧ Named mode size rs r) ∨
      ∀ r ∈ rs, ¬ size ≤ r.size := by
  have hfits := hord.filter fun r => decide (size ≤ r.size)
  have hbest : ∀ (R : FreeRun → FreeRun → Prop) (pick : FreeRun → FreeRun → FreeRun),
      (∀ r, better mode none r = some r) → (∀ a r, better mode (some a) r = some (pick a r)) →
      (∀ a b c, R a b → R b c → R a c) → (∀ a, R a a) →
      (∀ a b, a.seg < b.seg → pick a b = a ∧ R a b ∨ pick a b = b ∧ R b a) →
      (∀ a b, R a b → Before mode a b) →
      (∃ r, rs.foldl (keepFit size mode) none = some r ∧ Named mode size rs r) ∨
        ∀ r ∈ rs, ¬ size ≤ r.size := by
    intro R pick hnone hsome htrans hrefl hpick hbefore
    rw [foldl_keepFit]
    rcases foldl_keep pick (better mode) hnone hsome htrans hrefl hpick hfits with ⟨hnil, -⟩ | ⟨r, hr, heq, hall⟩
    · refine .inr fun r hr hfit => ?_
      exact absurd (mem_filter.mpr ⟨hr, decide_eq_true hfit⟩) (by rw [hnil]; simp)
    · obtain ⟨hmem, hfit⟩ := mem_filter.mp hr
      refine .inl ⟨r, heq, hmem, of_decide_eq_true hfit, fun r' hr' hf => ?_⟩
      exact hbefore r r' (hall r' (mem_filter.mpr ⟨hr', decide_eq_true hf⟩))
  rcases hmode with rfl | rfl
  · refine hbest (fun r r' => r.size < r'.size ∨ r.size = r'.size ∧ r.seg ≤ r'.seg)
      (fun f r => if f.size > r.size then r else f) (fun _ => rfl) (fun a r => ?_)
      (fun a b c h h' => by omega) (fun a => by omega) (fun a b hab => ?_) (fun a b h => h)
    · change (if a.size > r.size then some r else some a) = _
      split <;> rfl
    · by_cases hgt : a.size > b.size
      · exact .inr ⟨if_pos hgt, .inl hgt⟩
      · exact .inl ⟨if_neg hgt, by omega⟩
  · refine hbest (fun r r' => r'.seg ≤ r.seg) (fun _ r => r) (fun _ => rfl)
      (fun _ _ => rfl) (fun a b c h h' => le_trans h' h) (fun _ => le_rfl)
      (fun a b hab => .inr ⟨rfl, le_of_lt hab⟩) (fun a b h => h)

/-! ## 4. `DosMemAlloc` -/

/-- The process has a block of `size` paragraphs at `para`, in a well-formed chain. -/
def Owns (m : Nat → Mcb) (lo hi para size cuPsp : Nat) : Prop :=
  ∃ bs, Chain m lo bs hi ∧ ∃ b ∈ bs, b.seg = para ∧ b.hdr.mSize = size ∧ b.hdr.mPsp = cuPsp

/-- Where a block of `size` paragraphs is taken from the run: at its start, or for last fit so that
it ends where the run ends. -/
def placeIn (mode size : Nat) (r : FreeRun) : Nat :=
  if mode = LAST_FIT then r.seg + r.size - size else r.seg

/-- Taking a run gives the process a block in it. -/
theorem takeBlock_run (hspan : Span lo hi) (h : Chain m lo bs hi) (hr : Points bs r.seg (some r))
    (cuPsp : Nat) (hmode : mode = FIRST_FIT ∨ mode = BEST_FIT ∨ mode = LAST_FIT)
    (hsize : size ≤ r.size) :
    ∃ m', takeBlock m cuPsp size mode r.seg = (placeIn mode size r, m') ∧
      Owns m' lo hi (placeIn mode size r) size cuPsp := by
  obtain ⟨-, b, hb, hseg, hbsize, -⟩ := hr
  have hnl : mode ≠ LARGEST := by
    rcases hmode with rfl | rfl | rfl <;> decide
  have hfits : mode ≠ LARGEST → size ≤ b.hdr.mSize := fun _ => by omega
  obtain ⟨hlo, hend, hmb⟩ := h.tiles.mem_bounds b hb
  obtain ⟨front, back, t, m', hrun, hys, hends, -, hag⟩ :=
    takeBlock_tiles hmb (le_trans hend hspan.1) cuPsp hfits
  obtain ⟨pre, post, rfl, -, -⟩ := h.tiles.split_at hb
  have hn : takenSize b size mode = size := if_neg hnl
  have hat : takenAt b size mode = placeIn mode size r := by
    unfold takenAt placeIn
    rcases hmode with rfl | rfl | rfl
    · rw [if_neg (by simp [isLastFit, FIRST_FIT]), if_neg (by decide), hseg]
    · rw [if_neg (by simp [isLastFit, BEST_FIT]), if_neg (by decide), hseg]
    · rw [if_pos rfl, ← hseg, ← hbsize]
      split
      · omega
      · rename_i hfull
        have hsame : size = b.hdr.mSize := by
          by_contra hne
          exact hfull ⟨by decide, hne, by decide⟩
        omega
  rw [hn, hat] at hys hends
  rw [hat, hseg] at hrun
  refine ⟨m', hrun, _, h.replace hspan hys hends hag, ⟨placeIn mode size r, ⟨t, cuPsp, size⟩⟩, ?_, rfl,
    rfl, rfl⟩
  simp

/-- Taking the largest run takes all of it. -/
theorem takeBlock_largest (hspan : Span lo hi) (h : Chain m lo bs hi)
    (hr : Points bs r.seg (some r)) (cuPsp size : Nat) :
    ∃ m', takeBlock m cuPsp size LARGEST r.seg = (r.seg, m') ∧ Owns m' lo hi r.seg r.size cuPsp := by
  obtain ⟨-, b, hb, hseg, hbsize, -⟩ := hr
  obtain ⟨pre, post, rfl, -, -⟩ := h.tiles.split_at hb
  refine ⟨_, if_neg fun hl => hl.1 rfl, ?_⟩
  rw [← hseg]
  exact ⟨_, h.setPsp hspan cuPsp, ⟨b.seg, { b.hdr with mPsp := cuPsp }⟩, by simp, rfl, hbsize, rfl⟩

/-- The answer of a request that no run can meet: the size of the largest. -/
def NoRun (rs : List FreeRun) (ans : AllocAns) : Prop :=
  ans.rc = DE_NOMEM ∧ ans.para = none ∧ ∃ n, ans.asize = some n ∧ LargestSize rs n

/-- The search over a chain whose upper memory is not linked, and what is behind `stopIt`. -/
theorem dosMemAlloc_low (hhi : hi ≤ 0x10000) (hlo : 0 < a.firstMcb)
    (hch : Chain a.mem a.firstMcb bs hi) (size mode : Nat) :
    EndsAs a.firstMcb hi (search size mode walkFuel a.mem a.firstMcb 0 0)
      (choose size mode (runs bs) none none) := by
  have hspan : Span a.firstMcb hi := ⟨hhi, by omega⟩
  cases bs with
  | nil => exact nomatch hch.ends
  | cons x suf =>
    have hlen := hch.tiles.length_le
    simp only [length_cons] at hlen
    have := search_choose size mode a.firstMcb hi hspan hlo walkFuel a.mem [] suf x 0 0 none none hch
      rfl rfl (by unfold walkFuel; omega)
    rw [hch.tiles.1] at this
    exact this

section Unlinked

variable {a : Arena} (hlink : a.uppermemLink % 2 = 0) {size mode : Nat}
include hlink

theorem startsHigh_unlinked : a.startsHigh size mode = false := by simp [Arena.startsHigh, hlink]

variable {m : Nat → Mcb}

/-- A search that stops. -/
theorem alloc_stopIt (cuPsp : Nat) {s : Nat}
    (h : search size mode walkFuel a.mem a.firstMcb 0 0 = some (.stopIt m s)) :
    dosMemAlloc a cuPsp size mode = some (⟨SUCCESS, some (takeBlock m cuPsp size mode s).1, none⟩,
      { a with mem := (takeBlock m cuPsp size mode s).2 }) := by
  rw [dosMemAlloc, allocPasses, startsHigh_unlinked hlink]
  simp only [Bool.false_eq_true, if_false, h]

variable {big : Nat}

/-- A search for a fit that comes to the end: with upper memory not linked there is no second. -/
theorem alloc_ended (hmode : mode ≠ LARGEST) (cuPsp : Nat) {s : Nat}
    (h : search size mode walkFuel a.mem a.firstMcb 0 0 = some (.ended m big s)) :
    dosMemAlloc a cuPsp size mode =
      if s = 0 ∨ (m s).mSize = 0 then
        some (⟨DE_NOMEM, none, some (if big = 0 then 0 else (m big).mSize)⟩, { a with mem := m })
      else some (⟨SUCCESS, some (takeBlock m cuPsp size mode s).1, none⟩,
        { a with mem := (takeBlock m cuPsp size mode s).2 }) := by
  have hno : ¬ (mode ≠ LARGEST ∧ mode &&& 0x80 ≠ 0 ∧ a.uppermemLink % 2 = 1 ∧
      a.uppermemRoot ≠ 0xffff) := by
    rintro ⟨-, -, h, -⟩
    omega
  have hl : ¬ (mode = LARGEST ∧ big ≠ 0 ∧ (m big).mSize ≥ size) := fun h => hmode h.1
  rw [dosMemAlloc, allocPasses, startsHigh_unlinked hlink]
  simp only [Bool.false_eq_true, if_false, h, if_neg hno, if_neg hl]

/-- A search for the largest block. -/
theorem alloc_largest_ended (hsize : 1 ≤ size) (cuPsp : Nat)
    (h : search size LARGEST walkFuel a.mem a.firstMcb 0 0 = some (.ended m big 0)) :
    dosMemAlloc a cuPsp size LARGEST =
      if big ≠ 0 ∧ (m big).mSize ≥ size then
        some (⟨SUCCESS, some (takeBlock m cuPsp size LARGEST big).1, some (m big).mSize⟩,
          { a with mem := (takeBlock m cuPsp size LARGEST big).2 })
      else
        some (⟨DE_NOMEM, none, some (if big = 0 then 0 else (m big).mSize)⟩, { a with mem := m }) := by
  rw [dosMemAlloc, allocPasses, startsHigh_unlinked hlink]
  by_cases hl : big ≠ 0 ∧ (m big).mSize ≥ size
  · have hfound : ¬ (big = 0 ∨ (m big).mSize = 0) := by
      rintro (h0 | h0)
      · exact hl.1 h0
      · omega
    simp only [Bool.false_eq_true, if_false, h, true_and, if_pos hl, if_neg hfound]
  · simp only [Bool.false_eq_true, if_false, h, true_and, if_neg hl, true_or, if_true, ne_eq,
      not_true_eq_false, false_and]

end Unlinked

/-- Where a block is, and what the memory holds there. -/
theorem Chain.mem (h : Chain m lo bs hi) : ∀ b ∈ bs, lo ≤ b.seg ∧ m b.seg = b.hdr := by
  intro b hb
  obtain ⟨h1, -, h2⟩ := h.tiles.mem_bounds b hb
  exact ⟨h1, h2⟩

/-- What the pointer to the largest run says when the request fails. -/
theorem largestSize_of_points (hlo : 0 < lo) (hch : Chain m lo bs hi)
    (h : Points bs big (rs.foldl larger none)) :
    LargestSize rs (if big = 0 then 0 else (m big).mSize) := by
  rcases @foldl_larger rs with ⟨hnil, heq⟩ | ⟨r, hr, heq, hall⟩
  · rw [heq] at h
    exact .inl ⟨hnil, if_pos h⟩
  · rw [heq] at h
    obtain ⟨h0, hsize⟩ := h.block hlo hch.mem
    rw [if_neg h0, hsize]
    exact .inr ⟨r, hr, rfl, hall⟩

/-- A request by one of the three strategies. -/
theorem alloc_strategy {a : Arena} {hi : Nat} {bs : List Block} (cuPsp : Nat) {size mode : Nat}
    (hhi : hi ≤ 0x10000) (hlo : 0 < a.firstMcb) (hch : Chain a.mem a.firstMcb bs hi)
    (hlink : a.uppermemLink % 2 = 0) (hsize : 1 ≤ size)
    (hmode : mode = FIRST_FIT ∨ mode = BEST_FIT ∨ mode = LAST_FIT) :
    ∃ ans m', dosMemAlloc a cuPsp size mode = some (ans, { a with mem := m' }) ∧
      ((∃ r, Named mode size (runs bs) r ∧ ans.rc = SUCCESS ∧
          ans.para = some (placeIn mode size r) ∧
          Owns m' a.firstMcb hi (placeIn mode size r) size cuPsp) ∨
        (∀ r ∈ runs bs, ¬ size ≤ r.size) ∧ NoRun (runs bs) ans) := by
  have hspan : Span a.firstMcb hi := ⟨hhi, by omega⟩
  have hord := runs_ascending false hch.tiles
  have hnl : mode ≠ LARGEST := by
    rcases hmode with rfl | rfl | rfl <;> decide
  have hend := dosMemAlloc_low hhi hlo hch size mode
  -- the pass stops at the run it names
  have hstop : ∀ r, choose size mode (runs bs) none none = .stopIt r →
      Named mode size (runs bs) r → ∃ ans m',
        dosMemAlloc a cuPsp size mode = some (ans, { a with mem := m' }) ∧ ans.rc = SUCCESS ∧
          ans.para = some (placeIn mode size r) ∧
          Owns m' a.firstMcb hi (placeIn mode size r) size cuPsp := by
    intro r hr hn
    rw [hr] at hend
    obtain ⟨m1, bs1, hch1, hpt, hs⟩ := hend
    obtain ⟨m2, htake, howns⟩ := takeBlock_run hspan hch1 hpt cuPsp hmode hn.fits
    refine ⟨⟨SUCCESS, some (placeIn mode size r), none⟩, m2,
      (alloc_stopIt hlink cuPsp hs).trans ?_, rfl, rfl, howns⟩
    rw [htake]
  -- the pass comes to the end with the run it names
  have hfound : ∀ r, choose size mode (runs bs) none none =
      .ended ((runs bs).foldl larger none) (some r) → Named mode size (runs bs) r → ∃ ans m',
        dosMemAlloc a cuPsp size mode = some (ans, { a with mem := m' }) ∧ ans.rc = SUCCESS ∧
          ans.para = some (placeIn mode size r) ∧
          Owns m' a.firstMcb hi (placeIn mode size r) size cuPsp := by
    intro r hr hn
    rw [hr] at hend
    obtain ⟨m1, bs1, big, s, hch1, -, hpt, hs⟩ := hend
    obtain rfl : s = r.seg := hpt.1
    obtain ⟨h0, hrsize⟩ := hpt.block hlo hch1.mem
    obtain ⟨m2, htake, howns⟩ := takeBlock_run hspan hch1 hpt cuPsp hmode hn.fits
    have hfits := hn.fits
    have hgo : ¬ (r.seg = 0 ∨ (m1 r.seg).mSize = 0) := by omega
    refine ⟨⟨SUCCESS, some (placeIn mode size r), none⟩, m2,
      (alloc_ended hlink hnl cuPsp hs).trans ((if_neg hgo).trans ?_), rfl, rfl, howns⟩
    rw [htake]
  -- the pass comes to the end with nothing
  have hnone : choose size mode (runs bs) none none = .ended ((runs bs).foldl larger none) none →
      ∃ ans m', dosMemAlloc a cuPsp size mode = some (ans, { a with mem := m' }) ∧
        NoRun (runs bs) ans := by
    intro hr
    rw [hr] at hend
    obtain ⟨m1, bs1, big, s, hch1, hbig, hpt, hs⟩ := hend
    exact ⟨_, m1, (alloc_ended hlink hnl cuPsp hs).trans (if_pos (.inl hpt)), rfl, rfl, _, rfl,
      largestSize_of_points hlo hch1 hbig⟩
  have hsmall : (∀ r ∈ runs bs, ¬ size ≤ r.size) → ∃ ans m',
      dosMemAlloc a cuPsp size mode = some (ans, { a with mem := m' }) ∧ NoRun (runs bs) ans := by
    intro hno
    refine hnone ((choose_ended none none fun r hr h => hno r hr h.1).trans ?_)
    rw [foldl_keepFit_none hno]
  have hcases : (∃ r, Named mode size (runs bs) r ∧ ∃ ans m',
      dosMemAlloc a cuPsp size mode = some (ans, { a with mem := m' }) ∧ ans.rc = SUCCESS ∧
        ans.para = some (placeIn mode size r) ∧
        Owns m' a.firstMcb hi (placeIn mode size r) size cuPsp) ∨
      ∀ r ∈ runs bs, ¬ size ≤ r.size := by
    rcases hmode with rfl | hkeep
    · rcases choose_first none hord with ⟨r, hr, hn⟩ | hno
      · exact .inl ⟨r, hn, hstop r hr hn⟩
      · exact .inr hno
    · rcases foldl_keepFit_named hkeep hord with ⟨r, hr, hn⟩ | hno
      · have hff : isFirstFit mode = false := by
          rcases hkeep with rfl | rfl <;> rfl
        refine .inl ⟨r, hn, hfound r ?_ hn⟩
        rw [choose_ended none none fun _ _ h => by simp [hff] at h]
        exact congrArg _ hr
      · exact .inr hno
  rcases hcases with ⟨r, hn, ans, m', hrun, hdone⟩ | hno
  · exact ⟨ans, m', hrun, .inl ⟨r, hn, hdone⟩⟩
  · obtain ⟨ans, m', hrun, hnorun⟩ := hsmall hno
    exact ⟨ans, m', hrun, .inr ⟨hno, hnorun⟩⟩

/-- A request for the largest run. -/
theorem alloc_largest (cuPsp : Nat) (hhi : hi ≤ 0x10000) (hlo : 0 < a.firstMcb)
    (hch : Chain a.mem a.firstMcb bs hi) (hlink : a.uppermemLink % 2 = 0) (hsize : 1 ≤ size) :
    ∃ ans m', dosMemAlloc a cuPsp size LARGEST = some (ans, { a with mem := m' }) ∧
      ((∃ r ∈ runs bs, size ≤ r.size ∧ (∀ r' ∈ runs bs, r'.size ≤ r.size) ∧ ans.rc = SUCCESS ∧
          ans.para = some r.seg ∧ ans.asize = some r.size ∧
          Owns m' a.firstMcb hi r.seg r.size cuPsp) ∨
        (∀ r ∈ runs bs, ¬ size ≤ r.size) ∧ NoRun (runs bs) ans) := by
  have hspan : Span a.firstMcb hi := ⟨hhi, by omega⟩
  have hend := dosMemAlloc_low hhi hlo hch size LARGEST
  have hff : isFirstFit LARGEST = false := by decide
  -- nothing is kept for the request itself
  have hkeep : ∀ rs : List FreeRun, rs.foldl (keepFit size LARGEST) none = none := by
    intro rs
    induction rs with
    | nil => rfl
    | cons r rs ih =>
      rw [foldl_cons, keepFit, better, if_pos rfl, ite_self]
      exact ih
  rw [choose_ended none none fun _ _ h => by simp [hff] at h, hkeep] at hend
  obtain ⟨m1, bs1, big, s, hch1, hbig, hpt, hs⟩ := hend
  obtain rfl : s = 0 := hpt
  have hrun := alloc_largest_ended hlink hsize cuPsp hs
  have hlargest := largestSize_of_points hlo hch1 hbig
  rcases @foldl_larger (runs bs) with ⟨hnil, heq⟩ | ⟨r, hr, heq, hall⟩
  · rw [heq] at hbig
    have hno : ¬ (big ≠ 0 ∧ (m1 big).mSize ≥ size) := fun h => h.1 hbig
    refine ⟨_, m1, hrun.trans (if_neg hno), .inr ⟨?_, rfl, rfl, _, rfl, hlargest⟩⟩
    rw [hnil]
    simp
  · rw [heq] at hbig
    obtain ⟨h0, hrsize⟩ := hbig.block hlo hch1.mem
    obtain rfl : big = r.seg := hbig.1
    by_cases hfit : size ≤ r.size
    · obtain ⟨m2, htake, howns⟩ := takeBlock_largest hspan hch1 hbig cuPsp size
      have hyes : r.seg ≠ 0 ∧ (m1 r.seg).mSize ≥ size := ⟨h0, by omega⟩
      refine ⟨⟨SUCCESS, some r.seg, some r.size⟩, m2, hrun.trans ((if_pos hyes).trans ?_),
        .inl ⟨r, hr, hfit, hall, rfl, rfl, rfl, howns⟩⟩
      rw [htake, hrsize]
    · have hno : ¬ (r.seg ≠ 0 ∧ (m1 r.seg).mSize ≥ size) := fun h => hfit (by omega)
      refine ⟨_, m1, hrun.trans (if_neg hno),
        .inr ⟨fun r' hr' h => hfit (le_trans h (hall r' hr')), rfl, rfl, _, rfl, hlargest⟩⟩

/-- **`DosMemAlloc` finds a fit whenever there is one, and the one its strategy names.**  A free run
counts with all it holds when it is joined (`runs`). -/
theorem alloc_finds_fit (a : Arena) (hi : Nat) (bs : List Block) (cuPsp size : Nat)
    (hhi : hi ≤ 0x10000) (hlo : 0 < a.firstMcb) (hch : Chain a.mem a.firstMcb bs hi)
    (hlink : a.uppermemLink % 2 = 0) (hsize : 1 ≤ size) :
    (∀ mode, mode = FIRST_FIT ∨ mode = BEST_FIT ∨ mode = LAST_FIT →
      ∃ ans m', dosMemAlloc a cuPsp size mode = some (ans, { a with mem := m' }) ∧
        (ans.rc = SUCCESS ↔ ∃ r ∈ runs bs, size ≤ r.size) ∧
        (ans.rc = SUCCESS → ∃ r, Named mode size (runs bs) r ∧
          ans.para = some (placeIn mode size r) ∧
          Owns m' a.firstMcb hi (placeIn mode size r) size cuPsp) ∧
        (ans.rc ≠ SUCCESS → NoRun (runs bs) ans)) ∧
    ∃ ans m', dosMemAlloc a cuPsp size LARGEST = some (ans, { a with mem := m' }) ∧
      (ans.rc = SUCCESS ↔ ∃ r ∈ runs bs, size ≤ r.size) ∧
      (ans.rc = SUCCESS → ∃ r ∈ runs bs, (∀ r' ∈ runs bs, r'.size ≤ r.size) ∧
        ans.para = some r.seg ∧ ans.asize = some r.size ∧
        Owns m' a.firstMcb hi r.seg r.size cuPsp) ∧
      (ans.rc ≠ SUCCESS → NoRun (runs bs) ans) := by
  have hfail : DE_NOMEM ≠ SUCCESS := by decide
  constructor
  · intro mode hmode
    obtain ⟨ans, m', hrun, hdone⟩ := alloc_strategy cuPsp hhi hlo hch hlink hsize hmode
    refine ⟨ans, m', hrun, ?_⟩
    rcases hdone with ⟨r, hn, hrc, hpara, howns⟩ | ⟨hno, hnorun⟩
    · exact ⟨⟨fun _ => ⟨r, hn.mem, hn.fits⟩, fun _ => hrc⟩, fun _ => ⟨r, hn, hpara, howns⟩,
        fun h => absurd hrc h⟩
    · have hrc : ans.rc ≠ SUCCESS := by
        rw [hnorun.1]
        exact hfail
      exact ⟨⟨fun h => absurd h hrc, fun ⟨r, hr, hfit⟩ => absurd hfit (hno r hr)⟩,
        fun h => absurd h hrc, fun _ => hnorun⟩
  · obtain ⟨ans, m', hrun, hdone⟩ := alloc_largest cuPsp hhi hlo hch hlink hsize
    refine ⟨ans, m', hrun, ?_⟩
    rcases hdone with ⟨r, hr, hfit, hall, hrc, hpara, hasize, howns⟩ | ⟨hno, hnorun⟩
    · exact ⟨⟨fun _ => ⟨r, hr, hfit⟩, fun _ => hrc⟩, fun _ => ⟨r, hr, hall, hpara, hasize, howns⟩,
        fun h => absurd hrc h⟩
    · have hrc : ans.rc ≠ SUCCESS := by
        rw [hnorun.1]
        exact hfail
      exact ⟨⟨fun h => absurd h hrc, fun ⟨r, hr, hfit⟩ => absurd hfit (hno r hr)⟩,
        fun h => absurd h hrc, fun _ => hnorun⟩

/-- Two runs: one of two free blocks at 1, one of a single block at 10. -/
def twoRuns : Arena where
  mem s :=
    if s = 1 then ⟨MCB_NORMAL, FREE_PSP, 2⟩
    else if s = 4 then ⟨MCB_NORMAL, FREE_PSP, 3⟩
    else if s = 8 then ⟨MCB_NORMAL, 8, 1⟩
    else if s = 10 then ⟨MCB_LAST, FREE_PSP, 4⟩
    else ⟨0, 0, 0⟩
  firstMcb := 1
  uppermemLink := 0
  uppermemRoot := 0xffff
  memAccessMode := 0

theorem twoRuns_chain : Chain twoRuns.mem 1
    [⟨1, ⟨MCB_NORMAL, FREE_PSP, 2⟩⟩, ⟨4, ⟨MCB_NORMAL, FREE_PSP, 3⟩⟩, ⟨8, ⟨MCB_NORMAL, 8, 1⟩⟩,
      ⟨10, ⟨MCB_LAST, FREE_PSP, 4⟩⟩] 15 :=
  ⟨⟨rfl, rfl, rfl, rfl, rfl, rfl, rfl, rfl, rfl⟩, ⟨rfl, rfl, rfl, rfl⟩, by decide⟩

/-- Five paragraphs are in the joined run only. -/
theorem twoRuns_five : ∃ ans m', dosMemAlloc twoRuns 9 5 BEST_FIT = some (ans, { twoRuns with mem := m' }) ∧
    (ans.rc = SUCCESS ↔ ∃ r ∈ [FreeRun.mk 1 6, ⟨10, 4⟩], 5 ≤ r.size) := by
  obtain ⟨h, -⟩ := alloc_finds_fit twoRuns 15 _ 9 5 (by decide) (by decide) twoRuns_chain (by decide)
    (by decide)
  obtain ⟨ans, m', hrun, hiff, -⟩ := h BEST_FIT (Or.inr (Or.inl rfl))
  exact ⟨ans, m', hrun, hiff⟩

end SdcBoot.Memory
