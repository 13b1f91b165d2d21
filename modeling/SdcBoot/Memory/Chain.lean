/-
# The MCB chain: joining and searching keep it well formed

The invariant of `memmgr.c` is a tiling (`Lib/Tiling.lean`) of `[lo, hi)` by blocks whose types
are `MCB_NORMAL` but for the final `MCB_LAST`.  Every operation replaces one stretch of blocks
by another over the same paragraphs, so each is proved by one use of the edit rule
(`Chain.replace`).  This module does the two loops:

* `joinMCBs` replaces a block and the free blocks behind it by one block (`Chain.join`);
* the search of `DosMemAlloc` joins on its way along the chain (`search_spec`).

Allocated blocks are in the new list as they were (`Keeps`).  The operations themselves, and
runs of them, are in `Memory/Arena.lean`.
-/
import SdcBoot.Lib.Run
import SdcBoot.Memory.Mcb
import Mathlib.Tactic.Set

namespace SdcBoot.Memory

open Lib List

/-- A block of the arena: its segment and its MCB. -/
abbrev Block := Tile Mcb

/-! ## 1. The shape of a chain -/

/-- All blocks are `MCB_NORMAL` except the last, which has type `t`. -/
def Ends (t : Nat) : List Block → Prop
  | [] => False
  | [b] => b.hdr.mType = t
  | b :: c :: bs => b.hdr.mType = MCB_NORMAL ∧ Ends t (c :: bs)

variable {hi lo size t : Nat} {b x : Block} {bs pre : List Block} {m : Nat → Mcb}

theorem ends_cons (hne : bs ≠ []) : Ends t (b :: bs) ↔ b.hdr.mType = MCB_NORMAL ∧ Ends t bs := by
  cases bs with
  | nil => exact absurd rfl hne
  | cons c bs => exact Iff.rfl

theorem ends_append : ∀ {pre bs : List Block}, bs ≠ [] →
    (Ends t (pre ++ bs) ↔ (∀ b ∈ pre, b.hdr.mType = MCB_NORMAL) ∧ Ends t bs)
  | [], bs, _ => by simp
  | b :: pre, bs, hne => by
    rw [cons_append, ends_cons (by simp [hne]), ends_append hne]
    simp [and_assoc]

/-- Only the type of the head matters. -/
theorem Ends.head_congr {c : Block} (h : Ends t (b :: bs))
    (hbc : c.hdr.mType = b.hdr.mType) : Ends t (c :: bs) := by
  cases bs with
  | nil => exact hbc.trans h
  | cons d bs => exact ⟨hbc.trans h.1, h.2⟩

variable {bs' post ys : List Block} {seg : Nat}

/-- Replacing one block by a list that ends in its type. -/
theorem Ends.replace (h : Ends t (x :: post))
    (hys : Ends x.hdr.mType ys) : Ends t (ys ++ post) := by
  cases post with
  | nil =>
    rw [append_nil]
    exact (show x.hdr.mType = t from h) ▸ hys
  | cons c post =>
    refine (ends_append (by simp)).mpr ⟨?_, h.2⟩
    have hnorm : x.hdr.mType = MCB_NORMAL := h.1
    rw [hnorm] at hys
    induction ys with
    | nil => simp
    | cons y ys ih =>
      cases ys with
      | nil =>
        intro b hb
        rw [mem_singleton.mp hb]
        exact hys
      | cons z ys =>
        intro b hb
        rcases mem_cons.mp hb with rfl | hb
        · exact hys.1
        · exact ih hys.2 b hb

theorem Ends.freeable (ht : t = MCB_NORMAL ∨ t = MCB_LAST) :
    ∀ {bs : List Block}, Ends t bs → ∀ b ∈ bs, b.hdr.freeable = true
  | [b], h, c, hc => by
    rw [mem_singleton.mp hc]
    have hb : b.hdr.mType = t := h
    rcases ht with rfl | rfl <;> simp [Mcb.freeable, hb]
  | b :: d :: bs, h, c, hc => by
    rcases mem_cons.mp hc with rfl | hc
    · simp [Mcb.freeable, h.1]
    · exact Ends.freeable ht h.2 c hc

/-- **A well-formed chain**: the blocks tile `[lo, hi)`, all are `MCB_NORMAL` but the last,
which is `MCB_LAST`, and no size is `0xffff`. -/
structure Chain (m : Nat → Mcb) (lo : Nat) (bs : List Block) (hi : Nat) : Prop where
  tiles : Tiles Mcb.mSize m lo bs hi
  ends : Ends MCB_LAST bs
  sizes : ∀ b ∈ bs, b.hdr.mSize ≠ 0xffff

/-- The interval is one of 16 bit paragraphs, and not all of them. -/
def Span (lo hi : Nat) : Prop := hi ≤ 0x10000 ∧ hi - lo < 0x10000

theorem Chain.of_span (hspan : Span lo hi) (htiles : Tiles Mcb.mSize m lo bs hi)
    (hends : Ends MCB_LAST bs) : Chain m lo bs hi := by
  refine ⟨htiles, hends, fun b hb => ?_⟩
  obtain ⟨h1, h2, -⟩ := htiles.mem_bounds b hb
  obtain ⟨-, h3⟩ := hspan
  omega

theorem Chain.valid (h : Chain m lo bs hi) (hb : b ∈ bs) : (m b.seg).valid = true := by
  rw [(h.tiles.mem_bounds b hb).2.2, Mcb.valid, h.ends.freeable (.inr rfl) b hb]
  simpa using h.sizes b hb

/-- Allocated blocks of the first list are in the second, unchanged. -/
def Keeps (bs bs' : List Block) : Prop := ∀ b ∈ bs, b.hdr.free = false → b ∈ bs'

theorem Keeps.trans {as cs : List Block} (h1 : Keeps as bs) (h2 : Keeps bs cs) :
    Keeps as cs := fun b hb hf => h2 b (h1 b hb hf) hf

theorem keeps_replace (pre ys post : List Block) {xs : List Block} (hfree : ∀ x ∈ xs, x.hdr.free = true) :
    Keeps (pre ++ xs ++ post) (pre ++ ys ++ post) := by
  intro b hb hf
  simp only [mem_append] at hb ⊢
  rcases hb with (hb | hb) | hb
  · exact .inl (.inl hb)
  · rw [hfree b hb] at hf
    cases hf
  · exact .inr hb

/-- **Replace one block of a chain.** -/
theorem Chain.replace {m' : Nat → Mcb} (hspan : Span lo hi) (h : Chain m lo (pre ++ x :: post) hi)
    (hys : Tiles Mcb.mSize m' x.seg ys (x.seg + 1 + x.hdr.mSize)) (hends : Ends x.hdr.mType ys)
    (hag : ∀ c, c < x.seg ∨ x.seg + 1 + x.hdr.mSize ≤ c → m' c = m c) :
    Chain m' lo (pre ++ ys ++ post) hi := by
  obtain ⟨a, hpre, hseg, -, hpost⟩ := tiles_append.mp h.tiles
  subst hseg
  refine Chain.of_span hspan (Tiles.edit hpre hys hpost hag) ?_
  rw [append_assoc]
  have hne : ys ++ post ≠ [] := by
    cases ys with
    | nil => cases hends
    | cons y ys => simp
  obtain ⟨h1, h2⟩ := (ends_append (by simp)).mp h.ends
  exact (ends_append hne).mpr ⟨h1, h2.replace hends⟩

/-! ## 2. Segment arithmetic -/

theorem put_self (m : Nat → Mcb) (p : Nat) (b : Mcb) : put m p b p = b := by simp [put]

theorem put_ne {p c : Nat} (h : c ≠ p) (b : Mcb) : put m p b c = m c := by
  simp [put, h]

theorem nxtMCBsize_eq (h : seg + 1 + size < 0x10000) : nxtMCBsize seg size = seg + 1 + size := by
  unfold nxtMCBsize
  omega

/-! ## 3. Joining -/

/-- **`joinMCBs` on a chain suffix.**  It merges the block at `p` with the free blocks behind
it, answers `SUCCESS`, and writes only inside the merged block. -/
theorem joinMCBs_spec (hi : Nat) (hhi : hi ≤ 0x10000) :
    ∀ (rest : List Block) (fuel : Nat) (m : Nat → Mcb) (x : Block),
      Tiles Mcb.mSize m x.seg (x :: rest) hi → Ends MCB_LAST (x :: rest) →
      hi - x.seg < 0x10000 → rest.length < fuel →
      ∃ (m' : Nat → Mcb) (h : Mcb) (frees post : List Block),
        rest = frees ++ post ∧ (∀ f ∈ frees, f.hdr.free = true) ∧
        joinMCBs fuel m x.seg = some (SUCCESS, m') ∧
        Tiles Mcb.mSize m' x.seg (⟨x.seg, h⟩ :: post) hi ∧ Ends MCB_LAST (⟨x.seg, h⟩ :: post) ∧
        h.mPsp = x.hdr.mPsp ∧ x.hdr.mSize ≤ h.mSize ∧
        ∀ c, c < x.seg ∨ x.seg + 1 + h.mSize ≤ c → m' c = m c := by
  intro rest
  induction rest with
  | nil =>
    intro fuel m x ht he _ hfuel
    obtain ⟨fuel, rfl⟩ : ∃ n, fuel = n + 1 := ⟨fuel - 1, by simp at hfuel; omega⟩
    have htype : (m x.seg).mType ≠ MCB_NORMAL := by
      rw [ht.2.1, show x.hdr.mType = MCB_LAST from he]
      decide
    refine ⟨m, x.hdr, [], [], rfl, by simp, ?_, ht, he, rfl, le_rfl, fun _ _ => rfl⟩
    rw [joinMCBs, if_neg htype]
  | cons y rest ih =>
    intro fuel m x ht he hspan hfuel
    obtain ⟨fuel, rfl⟩ : ∃ n, fuel = n + 1 := ⟨fuel - 1, by simp at hfuel; omega⟩
    obtain ⟨-, hmx, hy⟩ := ht
    have hyseg : y.seg = x.seg + 1 + x.hdr.mSize := hy.1
    have hmy : m y.seg = y.hdr := by rw [hyseg]; exact hy.2.1
    have hyle : y.seg + 1 + y.hdr.mSize ≤ hi := by
      have := hy.2.2.le
      omega
    have hq : nxtMCB m x.seg = y.seg := by
      rw [nxtMCB, hmx, nxtMCBsize_eq (by omega), hyseg]
    have hxy : y.seg ≠ x.seg := by omega
    rw [joinMCBs, if_pos (by rw [hmx]; exact he.1)]
    simp only [hq, hmy]
    by_cases hfree : y.hdr.free = true
    · -- the next block is free: it is valid, and is joined
      have hvalid : y.hdr.valid = true := by
        have hfr : y.hdr.freeable = true :=
          he.2.freeable (.inr rfl) y (by simp)
        simp only [Mcb.valid, hfr, Bool.and_true, bne_iff_ne, ne_eq]
        omega
      have hmod : (x.hdr.mSize + y.hdr.mSize + 1) % 0x10000 = x.hdr.mSize + y.hdr.mSize + 1 :=
        Nat.mod_eq_of_lt (by omega)
      rw [if_neg (by simp [hfree]), if_neg (by simp [hvalid])]
      simp only [put_ne hxy, hmx, hmy, hmod]
      set h2 : Mcb := ⟨y.hdr.mType, x.hdr.mPsp, x.hdr.mSize + y.hdr.mSize + 1⟩ with hh2
      set m2 := put (put m x.seg h2) y.seg { y.hdr with mSize := 0xffff } with hm2
      have hm2x : m2 x.seg = h2 := by rw [hm2, put_ne (Ne.symm hxy), put_self]
      have hag : ∀ c, c ≠ x.seg → c ≠ y.seg → m2 c = m c := fun c h1 h3 => by
        rw [hm2, put_ne h3, put_ne h1]
      have htail : Tiles Mcb.mSize m2 (x.seg + 1 + h2.mSize) rest hi := by
        have hend : x.seg + 1 + h2.mSize = x.seg + 1 + x.hdr.mSize + 1 + y.hdr.mSize := by
          simp only [hh2]
          omega
        rw [hend]
        refine hy.2.2.congr fun c hc _ => hag c (by omega) (by omega)
      obtain ⟨m', h, frees, post, hrest, hfrees, hrun, htl, hen, hpsp, hsz, hfr⟩ :=
        ih fuel m2 ⟨x.seg, h2⟩ ⟨rfl, hm2x, htail⟩ (he.2.head_congr rfl) hspan
          (by simp at hfuel; omega)
      refine ⟨m', h, y :: frees, post, by rw [hrest]; rfl, ?_, hrun, htl, hen, hpsp, ?_, ?_⟩
      · intro f hf
        rcases mem_cons.mp hf with rfl | hf
        · exact hfree
        · exact hfrees f hf
      · simp only [hh2] at hsz
        omega
      · intro c hc
        simp only [hh2] at hsz hfr
        rw [hfr c hc, hag c (by omega) (by omega)]
    · refine ⟨m, x.hdr, [], y :: rest, rfl, by simp, ?_, ⟨rfl, hmx, hy⟩, he, rfl, le_rfl,
        fun _ _ => rfl⟩
      rw [if_pos (by simpa using hfree)]

/-- **Joining keeps the chain**, whatever block it starts from. -/
theorem Chain.join {rest : List Block} (hspan : Span lo hi) (h : Chain m lo (pre ++ x :: rest) hi) :
    ∃ (m' : Nat → Mcb) (b : Mcb) (frees post : List Block),
      rest = frees ++ post ∧ (∀ f ∈ frees, f.hdr.free = true) ∧
      joinMCBs walkFuel m x.seg = some (SUCCESS, m') ∧
      Chain m' lo (pre ++ ⟨x.seg, b⟩ :: post) hi ∧ b.mPsp = x.hdr.mPsp ∧
      x.hdr.mSize ≤ b.mSize := by
  obtain ⟨a, hpre, hx⟩ := tiles_append.mp h.tiles
  have hseg : x.seg = a := hx.1
  subst hseg
  have hle := hpre.le
  have hlen := hx.length_le
  simp only [length_cons] at hlen
  obtain ⟨h1, h2⟩ := hspan
  obtain ⟨hn, he⟩ := (ends_append (by simp)).mp h.ends
  obtain ⟨m', b, frees, post, hrest, hfrees, hrun, htl, hen, hpsp, hsz, hfr⟩ :=
    joinMCBs_spec hi h1 rest walkFuel m x hx he (by omega) (by unfold walkFuel; omega)
  refine ⟨m', b, frees, post, hrest, hfrees, hrun, Chain.of_span ⟨h1, h2⟩ ?_ ?_, hpsp, hsz⟩
  · exact tiles_append.mpr ⟨x.seg, hpre.congr fun c _ hc => hfr c (.inl hc), htl⟩
  · exact (ends_append (by simp)).mpr ⟨hn, hen⟩

/-! ## 4. Searching -/

/-- `s` is null or points to a free block of at least `size` paragraphs. -/
def FreePtr (bs : List Block) (size s : Nat) : Prop :=
  s ≠ 0 → ∃ b ∈ bs, b.seg = s ∧ b.hdr.free = true ∧ size ≤ b.hdr.mSize

theorem FreePtr.mono {s : Nat} (h : FreePtr bs size s)
    (hsub : ∀ b ∈ bs, b ∈ bs') : FreePtr bs' size s := fun hs =>
  let ⟨b, hb, h'⟩ := h hs
  ⟨b, hsub b hb, h'⟩

/-- What the search loop may end in, started at `seg` with the blocks `pre` behind it: a stop
at a block that is large enough, or the end of the chain with both pointers good.  Blocks
already passed, and the one at `seg`, are still there. -/
def SearchOk (lo hi size seg : Nat) (pre bs : List Block) (r : Option Search) : Prop :=
  ∃ m' bs', Chain m' lo bs' hi ∧ Keeps bs bs' ∧ (∀ b ∈ pre, b ∈ bs') ∧
    (∃ b ∈ bs', b.seg = seg) ∧
    ((∃ b ∈ bs', b.hdr.free = true ∧ size ≤ b.hdr.mSize ∧ r = some (.stopIt m' b.seg)) ∨
      ∃ big found, FreePtr bs' 0 big ∧ FreePtr bs' size found ∧ r = some (.ended m' big found))

theorem SearchOk.of_keeps {r : Option Search} (h : SearchOk lo hi size seg pre bs' r)
    (hk : Keeps bs bs') : SearchOk lo hi size seg pre bs r :=
  let ⟨m', cs, hc, hkeep, h'⟩ := h
  ⟨m', cs, hc, hk.trans hkeep, h'⟩

/-- **The search loop**: it ends, never in `DE_MCBDESTRY`, and changes the chain only by
joining free blocks. -/
theorem search_spec (size mode lo hi : Nat) (hspan : Span lo hi) :
    ∀ (fuel : Nat) (m : Nat → Mcb) (pre suf : List Block) (x : Block) (big found : Nat),
      Chain m lo (pre ++ x :: suf) hi → FreePtr pre 0 big → FreePtr pre size found →
      suf.length < fuel →
      SearchOk lo hi size x.seg pre (pre ++ x :: suf)
        (search size mode fuel m x.seg big found) := by
  intro fuel
  induction fuel with
  | zero => intro m pre suf x big found _ _ _ hf; omega
  | succ fuel ih =>
    intro m pre suf x big found hch hbig hfound hfuel
    -- going on to the next block, or stopping at the last one
    have hnext : ∀ (m1 : Nat → Mcb) (post : List Block) (b : Mcb) (big1 found1 : Nat),
        Chain m1 lo (pre ++ ⟨x.seg, b⟩ :: post) hi →
        FreePtr (pre ++ [⟨x.seg, b⟩]) 0 big1 → FreePtr (pre ++ [⟨x.seg, b⟩]) size found1 →
        post.length ≤ suf.length →
        SearchOk lo hi size x.seg pre (pre ++ ⟨x.seg, b⟩ :: post)
          (if (m1 x.seg).mType = MCB_LAST then some (.ended m1 big1 found1)
           else search size mode fuel m1 (nxtMCB m1 x.seg) big1 found1) := by
      intro m1 post b big1 found1 hch1 hbig1 hfound1 hlen
      have hmem := hch1.tiles.mem_bounds ⟨x.seg, b⟩ (by simp)
      have hsub : ∀ c ∈ pre ++ [(⟨x.seg, b⟩ : Block)], c ∈ pre ++ ⟨x.seg, b⟩ :: post := by
        intro c hc
        rcases mem_append.mp hc with hc | hc
        · exact mem_append_left _ hc
        · rw [mem_singleton.mp hc]
          simp
      split
      · exact ⟨m1, _, hch1, fun _ hc _ => hc, fun c hc => mem_append_left _ hc,
          ⟨⟨x.seg, b⟩, by simp, rfl⟩,
          .inr ⟨big1, found1, hbig1.mono hsub, hfound1.mono hsub, rfl⟩⟩
      · rename_i hlast
        cases post with
        | nil =>
          have he := ((ends_append (by simp)).mp hch1.ends).2
          exact absurd (by rw [hmem.2.2]; exact he) hlast
        | cons y post =>
          obtain ⟨mid, -, hx⟩ := tiles_append.mp hch1.tiles
          have hmid : x.seg = mid := hx.1
          subst hmid
          have hyseg : y.seg = x.seg + 1 + b.mSize := hx.2.2.1
          have hyle : x.seg + 1 + b.mSize + 1 + y.hdr.mSize ≤ hi := hx.2.2.2.2.le
          have hlt : x.seg + 1 + b.mSize < 0x10000 := by
            have := hspan.1
            omega
          have hq : nxtMCB m1 x.seg = y.seg := by
            rw [nxtMCB, hmem.2.2, nxtMCBsize_eq hlt, hyseg]
          rw [hq]
          have hshift : pre ++ ⟨x.seg, b⟩ :: y :: post =
              pre ++ [(⟨x.seg, b⟩ : Block)] ++ y :: post := by
            simp
          rw [hshift] at hch1 ⊢
          obtain ⟨m', bs', h1, h2, h3, -, h5⟩ :=
            ih m1 _ post y big1 found1 hch1 hbig1 hfound1 (by simp at hlen; omega)
          exact ⟨m', bs', h1, h2, fun c hc => h3 c (mem_append_left _ hc),
            ⟨⟨x.seg, b⟩, h3 _ (by simp), rfl⟩, h5⟩
    have hmx : m x.seg = x.hdr := (hch.tiles.mem_bounds x (by simp)).2.2
    have hstay : ∀ {n s : Nat}, FreePtr pre n s → ∀ b, FreePtr (pre ++ [(⟨x.seg, b⟩ : Block)]) n s :=
      fun h b => h.mono fun c hc => mem_append_left _ hc
    rw [search, if_neg (by simp [hch.valid (b := x) (by simp)])]
    by_cases hfree : x.hdr.free = true
    · rw [if_pos (by rw [hmx]; exact hfree)]
      obtain ⟨m1, b, frees, post, hsuf, hfrees, hrun, hch1, hpsp, hsz⟩ := hch.join hspan
      have hm1 : m1 x.seg = b := (hch1.tiles.mem_bounds ⟨x.seg, b⟩ (by simp)).2.2
      have hbfree : b.free = true := by
        simp only [Mcb.free, hpsp] at hfree ⊢
        exact hfree
      have hkeep : Keeps (pre ++ x :: suf) (pre ++ ⟨x.seg, b⟩ :: post) := by
        have hall : ∀ c ∈ x :: frees, c.hdr.free = true := by
          intro c hc
          rcases mem_cons.mp hc with rfl | hc
          · exact hfree
          · exact hfrees c hc
        have := keeps_replace pre [⟨x.seg, b⟩] post hall
        rw [hsuf]
        simpa using this
      have hself : ∀ {n : Nat}, n ≤ b.mSize → FreePtr (pre ++ [(⟨x.seg, b⟩ : Block)]) n x.seg :=
        fun hn _ => ⟨⟨x.seg, b⟩, by simp, rfl, hbfree, hn⟩
      simp only [hrun, ne_eq, not_true_eq_false, if_false, hm1]
      refine SearchOk.of_keeps ?_ hkeep
      split
      · rename_i hstop
        exact ⟨m1, _, hch1, fun _ hc _ => hc, fun c hc => mem_append_left _ hc,
          ⟨⟨x.seg, b⟩, by simp, rfl⟩, .inl ⟨⟨x.seg, b⟩, by simp, hbfree, hstop.1, rfl⟩⟩
      · have hgo := hnext m1 post b
          (if big = 0 ∨ (m1 big).mSize < b.mSize then x.seg else big)
          (if b.mSize ≥ size then
            if mode = LARGEST then found
            else if isBestFit mode = true then
              if found = 0 ∨ (m1 found).mSize > b.mSize then x.seg else found
            else x.seg
          else found) hch1 ?_ ?_ (by rw [hsuf]; simp)
        · rw [hm1] at hgo
          exact hgo
        · split
          · exact hself (Nat.zero_le _)
          · exact hstay hbig b
        · split
          · rename_i hge
            split
            · exact hstay hfound b
            · split
              · split
                · exact hself hge
                · exact hstay hfound b
              · exact hself hge
          · exact hstay hfound b
    · rw [if_neg (by rw [hmx]; exact hfree)]
      have hx : (⟨x.seg, x.hdr⟩ : Block) = x := rfl
      have hgo := hnext m suf x.hdr big found (by rw [hx]; exact hch) (hstay hbig _)
        (hstay hfound _) le_rfl
      rw [hx] at hgo
      exact hgo

end SdcBoot.Memory
