/-
# The arena invariant over whole runs

`DosMemAlloc`, `DosMemFree` and `DosMemChange` keep a well-formed chain well formed, over the
same paragraphs, and leave every allocated block but their own as it was (`alloc_spec`,
`free_spec`, `change_spec`).

One thing the chain alone does not give: a search in an upper memory mode starts at
`uppermemRoot`, whatever is there.  If the block at the root is free, `joinMCBs` can merge it
into the block before it, and the next such search reads the abandoned header and answers
`DE_MCBDESTRY` on an intact chain (`umb_root_joined_away`).  `MemOk` asks that the root is a block
of the chain whenever a search starts there; `arena_wellFormed_along_run` is the result.  The
interval must not be all of the 65536 paragraphs, or a single free block would have the forbidden
size.
-/
import SdcBoot.Memory.Chain

namespace SdcBoot.Memory

open Lib List Option

/-! ## 1. The chain is determined by the memory -/

variable {m : Nat → Mcb} {bs post pre : List Block} {hi lo mode size : Nat} {a : Arena} {b x : Block}

theorem chain_unique : ∀ {bs bs' : List Block} {lo hi hi' : Nat},
    Tiles Mcb.mSize m lo bs hi → Ends MCB_LAST bs → Tiles Mcb.mSize m lo bs' hi' →
    Ends MCB_LAST bs' → bs = bs'
  | [], _, _, _, _, _, he, _, _ => absurd he (by simp [Ends])
  | _ :: _, [], _, _, _, _, _, _, he' => absurd he' (by simp [Ends])
  | b :: bs, c :: bs', lo, hi, hi', ⟨h1, h2, h3⟩, he, ⟨h1', h2', h3'⟩, he' => by
    have hbc : b = c := by
      cases b; cases c
      simp_all
    subst hbc
    have hlast : MCB_NORMAL ≠ MCB_LAST := by decide
    cases bs with
    | nil =>
      cases bs' with
      | nil => rfl
      | cons d bs' => exact absurd (he'.1.symm.trans he) hlast
    | cons d bs =>
      cases bs' with
      | nil => exact absurd (he.1.symm.trans he') hlast
      | cons e bs' => rw [chain_unique h3 he.2 h3' he'.2]

/-- Two chains from the same place in the same memory are the same. -/
theorem Chain.unique {bs' : List Block} {hi' : Nat} (h : Chain m lo bs hi)
    (h' : Chain m lo bs' hi') : bs = bs' :=
  chain_unique h.tiles h.ends h'.tiles h'.ends

/-! ## 2. Taking a block -/

/-- How many paragraphs a block taken from `b` gets. -/
def takenSize (b : Block) (size mode : Nat) : Nat := if mode = LARGEST then b.hdr.mSize else size

/-- The paragraph at which a block is taken from `b`. -/
def takenAt (b : Block) (size mode : Nat) : Nat :=
  if mode ≠ LARGEST ∧ size ≠ b.hdr.mSize ∧ isLastFit mode then
    b.seg + 1 + (b.hdr.mSize - size - 1)
  else b.seg

/-- The block found is replaced by the one taken, with what is left over, free, on one side. -/
theorem takeBlock_tiles (hmb : m b.seg = b.hdr) (hend : b.seg + 1 + b.hdr.mSize ≤ 0x10000)
    (cuPsp : Nat) (hsize : mode ≠ LARGEST → size ≤ b.hdr.mSize) :
    ∃ front back t m', takeBlock m cuPsp size mode b.seg = (takenAt b size mode, m') ∧
      Tiles Mcb.mSize m' b.seg
        (front ++ ⟨takenAt b size mode, ⟨t, cuPsp, takenSize b size mode⟩⟩ :: back)
        (b.seg + 1 + b.hdr.mSize) ∧
      Ends b.hdr.mType (front ++ ⟨takenAt b size mode, ⟨t, cuPsp, takenSize b size mode⟩⟩ :: back) ∧
      (∀ f ∈ front ++ back, f.hdr.free = true) ∧
      ∀ c, c < b.seg ∨ b.seg + 1 + b.hdr.mSize ≤ c → m' c = m c := by
  by_cases hsplit : mode ≠ LARGEST ∧ size ≠ b.hdr.mSize
  · have hle := hsize hsplit.1
    have hlt : size < b.hdr.mSize := by
      have := hsplit.2
      omega
    have hn : takenSize b size mode = size := if_neg hsplit.1
    set rest := b.hdr.mSize - size - 1 with hrest
    have h1 : (b.hdr.mSize + 0x10000 - (size + 1)) % 0x10000 = rest := by omega
    have h2 : (b.hdr.mSize + 0x10000 - size - 1) % 0x10000 = rest := by omega
    have hlast : nxtMCBsize b.seg rest = b.seg + 1 + rest := nxtMCBsize_eq (by omega)
    have hfirst : nxtMCBsize b.seg size = b.seg + 1 + size := nxtMCBsize_eq (by omega)
    rw [hn]
    by_cases hlf : isLastFit mode = true
    · have hat : takenAt b size mode = b.seg + 1 + rest := if_pos ⟨hsplit.1, hsplit.2, hlf⟩
      rw [hat]
      refine ⟨[⟨b.seg, ⟨MCB_NORMAL, FREE_PSP, rest⟩⟩], [], b.hdr.mType,
        put (put m b.seg ⟨MCB_NORMAL, FREE_PSP, rest⟩) (b.seg + 1 + rest)
          ⟨b.hdr.mType, cuPsp, size⟩, ?_, ?_, ⟨rfl, rfl⟩, by simp [Mcb.free], fun c hc => ?_⟩
      · simp only [takeBlock, hmb, if_pos hsplit, if_pos hlf, h1, hlast]
      · refine ⟨rfl, by rw [put_ne (by omega), put_self], rfl, put_self _ _ _, ?_⟩
        simp only [tiles_nil]
        omega
      · rw [put_ne (by omega), put_ne (by omega)]
    · have hat : takenAt b size mode = b.seg := if_neg fun h => hlf h.2.2
      rw [hat]
      refine ⟨[], [⟨b.seg + 1 + size, ⟨b.hdr.mType, FREE_PSP, rest⟩⟩], MCB_NORMAL,
        put (put m (b.seg + 1 + size) ⟨b.hdr.mType, FREE_PSP, rest⟩) b.seg
          ⟨MCB_NORMAL, cuPsp, size⟩, ?_, ?_, ⟨rfl, rfl⟩, by simp [Mcb.free], fun c hc => ?_⟩
      · simp only [takeBlock, hmb, if_pos hsplit, if_neg hlf, h2, hfirst]
      · refine ⟨rfl, put_self _ _ _, rfl, by rw [put_ne (by omega), put_self], ?_⟩
        simp only [tiles_nil]
        omega
      · rw [put_ne (by omega), put_ne (by omega)]
  · have hn : takenSize b size mode = b.hdr.mSize := by
      unfold takenSize
      split
      · rfl
      · rename_i hne
        by_contra hsz
        exact hsplit ⟨hne, hsz⟩
    have hat : takenAt b size mode = b.seg := if_neg fun h => hsplit ⟨h.1, h.2.1⟩
    rw [hn, hat]
    refine ⟨[], [], b.hdr.mType, put m b.seg { b.hdr with mPsp := cuPsp }, ?_,
      ⟨rfl, put_self _ _ _, rfl⟩, rfl, by simp, fun c hc => put_ne (by omega) _⟩
    simp only [takeBlock, hmb, if_neg hsplit]

/-- **Splitting the found block** keeps the chain and every allocated block. -/
theorem takeBlock_spec (hspan : Span lo hi) (h : Chain m lo bs hi) {b : Block} (hb : b ∈ bs)
    (hfree : b.hdr.free = true) (cuPsp : Nat) (hsize : mode ≠ LARGEST → size ≤ b.hdr.mSize) :
    ∃ bs', Chain (takeBlock m cuPsp size mode b.seg).2 lo bs' hi ∧ Keeps bs bs' := by
  obtain ⟨hlo, hend, hmb⟩ := h.tiles.mem_bounds b hb
  obtain ⟨front, back, t, m', hrun, hys, hends, -, hag⟩ :=
    takeBlock_tiles hmb (le_trans hend hspan.1) cuPsp hsize
  obtain ⟨pre, post, rfl, -, -⟩ := h.tiles.split_at hb
  have hall : ∀ x ∈ [b], x.hdr.free = true := by simpa using hfree
  rw [hrun]
  refine ⟨_, h.replace hspan hys hends hag, ?_⟩
  rw [append_cons]
  exact keeps_replace pre _ post hall

/-! ## 3. `DosMemAlloc` -/

/-- A search that starts in upper memory starts at a block of the chain. -/
def RootOk (a : Arena) (bs : List Block) (size mode : Nat) : Prop :=
  a.startsHigh size mode = true → ∃ b ∈ bs, b.seg = a.uppermemRoot

/-- The answer of an operation on the chain `bs`: it ends, not in `DE_MCBDESTRY`, the
variables besides the memory are as before, and the chain is well formed over the same
interval with every allocated block in it. -/
def AllocOk (a : Arena) (hi : Nat) (bs : List Block) (r : Option (AllocAns × Arena)) : Prop :=
  ∃ ans m' bs', r = some (ans, { a with mem := m' }) ∧ ans.rc ≠ DE_MCBDESTRY ∧
    Chain m' a.firstMcb bs' hi ∧ Keeps bs bs'

theorem testBit_clear (mode : Nat) : (mode &&& 0xff7f) &&& 0x80 = 0 := by
  rw [Nat.and_assoc]
  simp

theorem startsHigh_of_retry (size : Nat) (hl : mode ≠ LARGEST) (hm : mode &&& 0x80 ≠ 0)
    (hlink : a.uppermemLink % 2 = 1) (hroot : a.uppermemRoot ≠ 0xffff) :
    a.startsHigh size mode = true := by
  have hbits : mode &&& 0xc0 ≠ 0 := by
    intro h0
    apply hm
    have h80 : mode &&& 0x80 = (mode &&& 0xc0) &&& 0x80 := by
      rw [Nat.and_assoc]
      rfl
    rw [h80, h0, Nat.zero_and]
  simp [Arena.startsHigh, hl, hlink, hroot, hbits]

/-- The start of the search is a block of the chain. -/
theorem start_mem (h : Chain a.mem a.firstMcb bs hi) (hroot : RootOk a bs size mode) :
    ∃ x ∈ bs, x.seg = if a.startsHigh size mode = true then a.uppermemRoot else a.firstMcb := by
  split
  · rename_i hs
    exact hroot hs
  · cases bs with
    | nil => exact nomatch h.ends
    | cons x bs => exact ⟨x, by simp, h.tiles.1⟩

/-- The memory a search leaves. -/
def Search.mem : Search → Nat → Mcb
  | .destroyed m => m
  | .stopIt m _ => m
  | .ended m _ _ => m

/-- Looking for the largest block, the search passes every block, and finds none. -/
theorem search_of_largest (size : Nat) : ∀ (fuel : Nat) (m : Nat → Mcb) (p big : Nat) (r : Search),
    search size LARGEST fuel m p big 0 = some r →
    (∃ m', r = .destroyed m') ∨ ∃ m' big', r = .ended m' big' 0 := by
  intro fuel
  induction fuel with
  | zero =>
    intro m p big r hr
    cases hr
  | succ fuel ih =>
    intro m p big r hr
    have hfirst : isFirstFit LARGEST = false := by decide
    rw [search] at hr
    split at hr
    · exact .inl ⟨_, (some.inj hr).symm⟩
    · split at hr
      · cases hj : joinMCBs walkFuel m p with
        | none =>
          rw [hj] at hr
          cases hr
        | some out =>
          rw [hj] at hr
          simp only [hfirst, Bool.false_eq_true, and_false, if_false, if_true, ite_self] at hr
          split at hr
          · exact .inl ⟨_, (some.inj hr).symm⟩
          · split at hr
            · exact .inr ⟨_, _, (some.inj hr).symm⟩
            · exact ih _ _ _ r hr
      · split at hr
        · exact .inr ⟨_, _, (some.inj hr).symm⟩
        · exact ih _ _ _ r hr

theorem search_largest_ended {fuel p big s : Nat}
    (h : search size LARGEST fuel m p big 0 = some (.stopIt m' s)) : False := by
  rcases search_of_largest size fuel m p big _ h with ⟨_, hr⟩ | ⟨_, _, hr⟩
  · cases hr
  · cases hr

theorem search_largest {fuel p big big' found : Nat}
    (h : search size LARGEST fuel m p big 0 = some (.ended m' big' found)) : found = 0 := by
  rcases search_of_largest size fuel m p big _ h with ⟨_, hr⟩ | ⟨_, _, hr⟩
  · cases hr
  · exact (Search.ended.inj hr).2.2

/-- What one pass of `DosMemAlloc` does in the chain that its search leaves: it takes a block, or goes
back to `searchAgain` without the upper memory bit, or has found nothing.  Where it goes back, the
search started at the root, which is still a block. -/
theorem allocPasses_cases (cuPsp passes : Nat) (hspan : Span a.firstMcb hi)
    (hch : Chain a.mem a.firstMcb bs hi) (hroot : RootOk a bs size mode) :
    ∃ m' bs', Chain m' a.firstMcb bs' hi ∧ Keeps bs bs' ∧
      (∃ pre x suf r, bs = pre ++ x :: suf ∧ r.mem = m' ∧
        search size mode walkFuel a.mem x.seg 0 0 = some r) ∧
      ((∃ b ∈ bs', ∃ asize, b.hdr.free = true ∧ (mode ≠ LARGEST → size ≤ b.hdr.mSize) ∧
        (mode = LARGEST → asize = some b.hdr.mSize) ∧
        allocPasses cuPsp size (passes + 1) mode a =
          some (⟨SUCCESS, some (takeBlock m' cuPsp size mode b.seg).1, asize⟩,
            { a with mem := (takeBlock m' cuPsp size mode b.seg).2 })) ∨
      (mode ≠ LARGEST ∧ mode &&& 0x80 ≠ 0 ∧ RootOk { a with mem := m' } bs' size (mode &&& 0xff7f) ∧
        allocPasses cuPsp size (passes + 1) mode a =
          allocPasses cuPsp size passes (mode &&& 0xff7f) { a with mem := m' }) ∨
      ∃ asize, allocPasses cuPsp size (passes + 1) mode a =
        some (⟨DE_NOMEM, none, asize⟩, { a with mem := m' })) := by
  obtain ⟨x, hx, hstart⟩ := start_mem hch hroot
  obtain ⟨pre, suf, rfl, -, hsuf⟩ := hch.tiles.split_at hx
  have hlen : suf.length < walkFuel := by
    have := hsuf.length_le
    have := hspan.1
    simp only [length_cons] at *
    unfold walkFuel
    omega
  have hnull : ∀ n, FreePtr pre n 0 := fun _ h => absurd rfl h
  obtain ⟨m', bs', hch', hkeep, -, ⟨y, hy, hyseg⟩, hres⟩ :=
    search_spec size mode a.firstMcb hi hspan walkFuel a.mem pre suf x 0 0 hch (hnull _) (hnull _)
      hlen
  refine ⟨m', bs', hch', hkeep, ?_⟩
  rw [allocPasses, ← hstart]
  rcases hres with ⟨b, hb, hbf, hbs, hr⟩ | ⟨big, found, hbig, hfound, hr⟩
  · refine ⟨⟨pre, x, suf, _, rfl, rfl, hr⟩, .inl ⟨b, hb, none, hbf, fun _ => hbs, ?_, by rw [hr]⟩⟩
    rintro rfl
    exact absurd hr fun h => search_largest_ended h
  · refine ⟨⟨pre, x, suf, _, rfl, rfl, hr⟩, ?_⟩
    rw [hr]
    dsimp only
    by_cases hzero : (if mode = LARGEST ∧ big ≠ 0 ∧ (m' big).mSize ≥ size then big else found) = 0 ∨
        (m' (if mode = LARGEST ∧ big ≠ 0 ∧ (m' big).mSize ≥ size then big else found)).mSize = 0
    · rw [if_pos hzero]
      split
      · rename_i hretry
        obtain ⟨h1, h2, h3, h4⟩ := hretry
        rw [if_pos (startsHigh_of_retry size h1 h2 h3 h4)] at hstart
        exact .inr (.inl ⟨h1, h2, fun _ => ⟨y, hy, hyseg.trans hstart⟩, rfl⟩)
      · exact .inr (.inr ⟨_, rfl⟩)
    · rw [if_neg hzero]
      simp only [not_or] at hzero
      left
      by_cases hl : mode = LARGEST ∧ big ≠ 0 ∧ (m' big).mSize ≥ size
      · -- the largest block is taken whole
        obtain ⟨b, hb, hseg, hbf, -⟩ := hbig hl.2.1
        have hmb : m' big = b.hdr := by
          rw [← hseg]
          exact (hch'.tiles.mem_bounds b hb).2.2
        refine ⟨b, hb, _, hbf, fun hne => absurd hl.1 hne, fun _ => ?_, by
          rw [if_pos hl, if_pos hl, ← hseg]⟩
        rw [hseg, hmb]
      · rw [if_neg hl] at hzero
        obtain ⟨b, hb, hseg, hbf, hbs⟩ := hfound hzero.1
        refine ⟨b, hb, _, hbf, fun _ => hbs, ?_, by rw [if_neg hl, if_neg hl, ← hseg]⟩
        rintro rfl
        exact absurd (search_largest hr) hzero.1

/-- `DosMemAlloc` jumps back at most once, as the mode then has no upper memory bit any more. -/
theorem allocPasses_spec (cuPsp size hi : Nat) : ∀ (passes mode : Nat) (a : Arena)
    (bs : List Block), Span a.firstMcb hi → Chain a.mem a.firstMcb bs hi →
    RootOk a bs size mode → (2 ≤ passes ∨ (1 ≤ passes ∧ mode &&& 0x80 = 0)) →
    AllocOk a hi bs (allocPasses cuPsp size passes mode a) := by
  intro passes
  induction passes with
  | zero => intro mode a bs _ _ _ hp; omega
  | succ passes ih =>
    intro mode a bs hspan hch hroot hp
    obtain ⟨m', bs', hch', hkeep, -, ⟨b, hb, asize, hbf, hbs, -, hr⟩ | ⟨-, hbit, hroot', hr⟩ |
      ⟨asize, hr⟩⟩ := allocPasses_cases cuPsp passes hspan hch hroot
    · obtain ⟨cs, hcs, hk⟩ := takeBlock_spec hspan hch' hb hbf cuPsp hbs
      exact ⟨_, _, cs, hr, (by decide : SUCCESS ≠ DE_MCBDESTRY), hcs, hkeep.trans hk⟩
    · rw [hr]
      obtain ⟨ans, m2, cs, hr2, hrc, hcs, hk⟩ := ih (mode &&& 0xff7f) { a with mem := m' } bs' hspan
        hch' hroot' (.inr ⟨by omega, testBit_clear mode⟩)
      exact ⟨ans, m2, cs, hr2, hrc, hcs, hkeep.trans hk⟩
    · exact ⟨_, m', bs', hr, (by decide : DE_NOMEM ≠ DE_MCBDESTRY), hch', hkeep⟩

/-- **`DosMemAlloc` keeps the chain.** -/
theorem alloc_spec (hspan : Span a.firstMcb hi) (h : Chain a.mem a.firstMcb bs hi) (cuPsp : Nat)
    (hroot : RootOk a bs size mode) : AllocOk a hi bs (dosMemAlloc a cuPsp size mode) :=
  allocPasses_spec cuPsp size hi 2 mode a bs hspan h hroot (.inl (le_refl 2))

/-! ## 4. `DosMemFree` and `DosMemChange` -/

/-- Allocated blocks other than the one at `own` are kept. -/
def KeepsBut (own : Nat) (bs bs' : List Block) : Prop :=
  ∀ b ∈ bs, b.hdr.free = false → b.seg ≠ own → b ∈ bs'

theorem keepsBut_edit (pre ys post : List Block) (x : Block) {frees : List Block}
    (hfree : ∀ f ∈ frees, f.hdr.free = true) :
    KeepsBut x.seg (pre ++ x :: (frees ++ post)) (pre ++ ys ++ post) := by
  intro b hb hf hne
  simp only [mem_append, mem_cons] at hb ⊢
  rcases hb with hb | rfl | hb | hb
  · exact .inl (.inl hb)
  · exact absurd rfl hne
  · rw [hfree b hb] at hf
    cases hf
  · exact .inr hb

/-- Changing the owner of a block keeps the chain. -/
theorem Chain.setPsp (hspan : Span lo hi) (h : Chain m lo (pre ++ x :: post) hi) (psp : Nat) :
    Chain (put m x.seg { m x.seg with mPsp := psp }) lo
      (pre ++ ⟨x.seg, { x.hdr with mPsp := psp }⟩ :: post) hi := by
  have hmx : m x.seg = x.hdr := (h.tiles.mem_bounds x (by simp)).2.2
  have hnew : Tiles Mcb.mSize (put m x.seg { m x.seg with mPsp := psp }) x.seg
      [⟨x.seg, { x.hdr with mPsp := psp }⟩] (x.seg + 1 + x.hdr.mSize) :=
    ⟨rfl, by rw [put_self, hmx], rfl⟩
  have := h.replace hspan hnew rfl fun c hc => put_ne (by omega) _
  simpa using this

/-- **`DosMemFree` of a block** keeps the chain and every other allocated block. -/
theorem free_spec (hspan : Span a.firstMcb hi) (h : Chain a.mem a.firstMcb bs hi) {para : Nat}
    (hp : ∃ b ∈ bs, b.seg = para) :
    ∃ rc m' bs', dosMemFree a para = (rc, { a with mem := m' }) ∧ rc ≠ DE_MCBDESTRY ∧
      Chain m' a.firstMcb bs' hi ∧ KeepsBut para bs bs' := by
  obtain ⟨x, hx, rfl⟩ := hp
  unfold dosMemFree
  split
  · exact ⟨_, a.mem, bs, rfl, (by decide : DE_INVLDMCB ≠ DE_MCBDESTRY), h, fun _ hb _ _ => hb⟩
  · split
    · exact ⟨_, a.mem, bs, rfl, (by decide : DE_INVLDMCB ≠ DE_MCBDESTRY), h, fun _ hb _ _ => hb⟩
    · obtain ⟨pre, post, rfl, -, -⟩ := h.tiles.split_at hx
      refine ⟨_, _, _, rfl, (by decide : SUCCESS ≠ DE_MCBDESTRY), h.setPsp hspan FREE_PSP, ?_⟩
      have hnone : ∀ f ∈ ([] : List Block), f.hdr.free = true := by simp
      have := keepsBut_edit pre [⟨x.seg, { x.hdr with mPsp := FREE_PSP }⟩] post x hnone
      simpa using this

/-- The store that cuts a block in two, before the remainder is joined. -/
theorem shrinkBlock_split (hspan : Span lo hi) (h : Chain m lo (pre ++ x :: post) hi)
    (hlt : size < x.hdr.mSize) :
    ∃ m1, shrinkBlock m x.seg size = joinMCBs walkFuel m1 (x.seg + 1 + size) ∧
      Chain m1 lo ((pre ++ [⟨x.seg, ⟨MCB_NORMAL, x.hdr.mPsp, size⟩⟩]) ++
        ⟨x.seg + 1 + size, ⟨x.hdr.mType, FREE_PSP, x.hdr.mSize - size - 1⟩⟩ :: post) hi := by
  obtain ⟨hlo, hend, hmx⟩ := h.tiles.mem_bounds x (by simp)
  have hhi := hspan.1
  have hnxt : nxtMCBsize x.seg size = x.seg + 1 + size := nxtMCBsize_eq (by omega)
  have hrest : (x.hdr.mSize + 0x10000 - size - 1) % 0x10000 = x.hdr.mSize - size - 1 := by omega
  set b1 : Block := ⟨x.seg, ⟨MCB_NORMAL, x.hdr.mPsp, size⟩⟩ with hb1
  set b2 : Block := ⟨x.seg + 1 + size, ⟨x.hdr.mType, FREE_PSP, x.hdr.mSize - size - 1⟩⟩ with hb2
  set m1 := put (put m (x.seg + 1 + size) b2.hdr) x.seg b1.hdr with hm1
  have hsplit : Chain m1 lo (pre ++ [b1, b2] ++ post) hi := by
    refine h.replace hspan ⟨rfl, ?_, rfl, ?_, ?_⟩ ⟨rfl, rfl⟩ ?_
    · rw [hm1, put_self]
    · rw [hm1, put_ne (by simp only [hb1]; omega), put_self]
    · simp only [hb1, hb2, tiles_nil]
      omega
    · intro c hc
      rw [hm1, put_ne (by omega), put_ne (by omega)]
  refine ⟨m1, ?_, by simpa using hsplit⟩
  unfold shrinkBlock
  simp only [hnxt, hmx, hrest]
  rfl

/-- Cutting a block down keeps the chain: the remainder is free and joined with what follows. -/
theorem shrinkBlock_spec (hspan : Span lo hi) (h : Chain m lo (pre ++ x :: post) hi)
    (hlt : size < x.hdr.mSize) :
    ∃ m' frees post' q, post = frees ++ post' ∧ (∀ f ∈ frees, f.hdr.free = true) ∧
      shrinkBlock m x.seg size = some (SUCCESS, m') ∧
      Chain m' lo (pre ++ ⟨x.seg, ⟨MCB_NORMAL, x.hdr.mPsp, size⟩⟩ :: q :: post') hi := by
  obtain ⟨m1, hrun1, hsplit⟩ := shrinkBlock_split hspan h hlt
  obtain ⟨m', q, frees, post', hpost, hfrees, hrun, hch', -, -⟩ := hsplit.join hspan
  exact ⟨m', frees, post', ⟨_, q⟩, hpost, hfrees, hrun1.trans hrun, by simpa using hch'⟩

theorem resizeTo_spec (hspan : Span a.firstMcb hi) (h : Chain m a.firstMcb (pre ++ x :: post) hi)
    (cuPsp size : Nat) :
    ∃ m' frees post' ys, post = frees ++ post' ∧ (∀ f ∈ frees, f.hdr.free = true) ∧
      resizeTo a m cuPsp x.seg size = some ((SUCCESS, none), { a with mem := m' }) ∧
      Chain m' a.firstMcb (pre ++ ys ++ post') hi := by
  have hmx : m x.seg = x.hdr := (h.tiles.mem_bounds x (by simp)).2.2
  unfold resizeTo
  split
  · rename_i hlt
    rw [hmx] at hlt
    obtain ⟨m', frees, post', q, hpost, hfrees, hrun, hch⟩ := shrinkBlock_spec hspan h hlt
    rw [hrun]
    have hset := hch.setPsp hspan cuPsp
    exact ⟨_, frees, post', [_, q], hpost, hfrees, rfl, by simpa using hset⟩
  · have hset := h.setPsp hspan cuPsp
    exact ⟨_, [], post, [_], rfl, by simp, rfl, by simpa using hset⟩

/-- **`DosMemChange` of a block** keeps the chain and every other allocated block. -/
theorem change_spec (hspan : Span a.firstMcb hi) (h : Chain a.mem a.firstMcb bs hi)
    (cuPsp size : Nat) {para : Nat} (hp : ∃ b ∈ bs, b.seg = (para + 0xffff) % 0x10000) :
    ∃ ans m' bs', dosMemChange a cuPsp para size = some (ans, { a with mem := m' }) ∧
      ans.1 ≠ DE_MCBDESTRY ∧ Chain m' a.firstMcb bs' hi ∧
      KeepsBut ((para + 0xffff) % 0x10000) bs bs' := by
  obtain ⟨x, hx, hxseg⟩ := hp
  obtain ⟨pre, post, rfl, -, -⟩ := h.tiles.split_at hx
  have hmx : a.mem x.seg = x.hdr := (h.tiles.mem_bounds x hx).2.2
  unfold dosMemChange
  simp only [← hxseg]
  rw [if_neg (by simp [h.valid hx])]
  split
  · obtain ⟨m1, b, frees, post1, hpost, hfrees, hrun, hch1, -, -⟩ := h.join hspan
    subst hpost
    rw [hrun]
    simp only [ne_eq, not_true_eq_false, if_false]
    split
    · refine ⟨_, m1, _, rfl, (by decide : DE_NOMEM ≠ DE_MCBDESTRY), hch1, ?_⟩
      have := keepsBut_edit pre [⟨x.seg, b⟩] post1 x hfrees
      simpa using this
    · obtain ⟨m', frees2, post2, ys, hpost2, hfrees2, hrun2, hch2⟩ :=
        resizeTo_spec hspan hch1 cuPsp size
      subst hpost2
      refine ⟨_, m', _, hrun2, (by decide : SUCCESS ≠ DE_MCBDESTRY), hch2, ?_⟩
      have hall : ∀ f ∈ frees ++ frees2, f.hdr.free = true := by
        intro f hf
        rcases mem_append.mp hf with hf | hf
        · exact hfrees f hf
        · exact hfrees2 f hf
      have := keepsBut_edit pre ys post2 x hall
      simpa using this
  · obtain ⟨m', frees2, post2, ys, hpost2, hfrees2, hrun2, hch2⟩ :=
      resizeTo_spec hspan h cuPsp size
    subst hpost2
    exact ⟨_, m', _, hrun2, (by decide : SUCCESS ≠ DE_MCBDESTRY), hch2,
      keepsBut_edit _ _ _ _ hfrees2⟩

/-! ## 5. Runs -/

/-- A call of the memory manager.  The current process may be another one each time. -/
inductive MemCall where
  | alloc (cuPsp size mode : Nat)
  | free (para : Nat)
  | change (cuPsp para size : Nat)

/-- One call: its return code, `none` if it does not return, and the arena after it. -/
def memStep (a : Arena) : MemCall → Option Int × Arena
  | .alloc cuPsp size mode =>
    match dosMemAlloc a cuPsp size mode with
    | some (ans, a') => (some ans.rc, a')
    | none => (none, a)
  | .free para => (some (dosMemFree a para).1, (dosMemFree a para).2)
  | .change cuPsp para size =>
    match dosMemChange a cuPsp para size with
    | some (ans, a') => (some ans.1, a')
    | none => (none, a)

/-- The segment of the call's own block, if it names one. -/
def MemCall.own : MemCall → Option Nat
  | .alloc _ _ _ => none
  | .free para => some para
  | .change _ para _ => some ((para + 0xffff) % 0x10000)

/-- **Well formed over `[firstMcb, hi)`.** -/
def WellFormed (a : Arena) (hi : Nat) : Prop :=
  hi ≤ 0x10000 ∧ ∃ bs, Chain a.mem a.firstMcb bs hi

/-- `seg` is the segment of a block of the chain. -/
def IsBlock (a : Arena) (seg : Nat) : Prop :=
  ∃ hi bs, Chain a.mem a.firstMcb bs hi ∧ ∃ b ∈ bs, b.seg = seg

/-- **The condition on a call.**  `DosMemFree` and `DosMemChange` name a block of the chain,
and a `DosMemAlloc` whose search starts at `uppermemRoot` finds a block of the chain there. -/
def MemOk (a : Arena) : MemCall → Prop
  | .alloc _ size mode => a.startsHigh size mode = true → IsBlock a a.uppermemRoot
  | .free para => IsBlock a para
  | .change _ para _ => IsBlock a ((para + 0xffff) % 0x10000)

/-- Every allocated block but the call's own keeps its segment, size and owner. -/
def OthersKept (a : Arena) (c : MemCall) (a' : Arena) : Prop :=
  ∀ hi hi' bs bs', Chain a.mem a.firstMcb bs hi → Chain a'.mem a'.firstMcb bs' hi' →
    ∀ b ∈ bs, b.hdr.free = false → some b.seg ≠ c.own →
      ∃ b' ∈ bs', b'.seg = b.seg ∧ b'.hdr.mSize = b.hdr.mSize ∧ b'.hdr.mPsp = b.hdr.mPsp

/-- What one call guarantees. -/
def CallOk (hi : Nat) (a : Arena) (c : MemCall) (r : Option Int × Arena) : Prop :=
  WellFormed r.2 hi ∧ r.2.firstMcb = a.firstMcb ∧ (∃ rc, r.1 = some rc ∧ rc ≠ DE_MCBDESTRY) ∧
    OthersKept a c r.2

theorem IsBlock.mem {seg : Nat} (h : IsBlock a seg)
    (hch : Chain a.mem a.firstMcb bs hi) : ∃ b ∈ bs, b.seg = seg := by
  obtain ⟨_, bs', hch', hb⟩ := h
  rw [hch.unique hch']
  exact hb

/-- **One call keeps the arena.** -/
theorem memStep_spec (a : Arena) (c : MemCall) (h : WellFormed a hi ∧ hi - a.firstMcb < 0x10000)
    (hok : MemOk a c) : CallOk hi a c (memStep a c) := by
  obtain ⟨⟨hhi, bs, hch⟩, hlen⟩ := h
  have hspan : Span a.firstMcb hi := ⟨hhi, hlen⟩
  -- it is enough to name the chain after the call
  have hdone : ∀ (rc : Int) (m' : Nat → Mcb) (bs' : List Block), rc ≠ DE_MCBDESTRY →
      Chain m' a.firstMcb bs' hi →
      (∀ b ∈ bs, b.hdr.free = false → some b.seg ≠ c.own → b ∈ bs') →
      CallOk hi a c (some rc, { a with mem := m' }) := by
    intro rc m' bs' hrc hch' hkeep
    refine ⟨⟨hhi, bs', hch'⟩, rfl, ⟨rc, rfl, hrc⟩, fun _ _ cs cs' h1 h2 b hb hf hne => ?_⟩
    rw [h1.unique hch] at hb
    exact ⟨b, by rw [h2.unique hch']; exact hkeep b hb hf hne, rfl, rfl, rfl⟩
  cases c with
  | alloc cuPsp size mode =>
    have hroot : RootOk a bs size mode := fun hs => (hok hs).mem hch
    obtain ⟨ans, m', bs', hr, hrc, hch', hk⟩ := alloc_spec hspan hch cuPsp hroot
    simp only [memStep, hr]
    exact hdone _ m' bs' hrc hch' fun b hb hf _ => hk b hb hf
  | free para =>
    obtain ⟨rc, m', bs', hr, hrc, hch', hk⟩ := free_spec hspan hch (IsBlock.mem hok hch)
    simp only [memStep, hr]
    exact hdone _ m' bs' hrc hch' fun b hb hf hne => hk b hb hf fun he => hne (by rw [he]; rfl)
  | change cuPsp para size =>
    obtain ⟨ans, m', bs', hr, hrc, hch', hk⟩ :=
      change_spec hspan hch cuPsp size (IsBlock.mem hok hch)
    simp only [memStep, hr]
    exact hdone _ m' bs' hrc hch' fun b hb hf hne => hk b hb hf fun he => hne (by rw [he]; rfl)

/-- **The MCB arena along a run.**  From a well-formed chain that does not cover all 65536
paragraphs, along every run whose calls meet `MemOk`: each call returns, never
`DE_MCBDESTRY`, the chain stays well formed over the same interval, and every allocated block
but the call's own keeps its segment, size and owner. -/
theorem arena_wellFormed_along_run (a : Arena) (hi : Nat) (calls : List MemCall)
    (hwf : WellFormed a hi) (hsize : hi - a.firstMcb < 0x10000)
    (hok : Guarded memStep MemOk a calls) : Along memStep (CallOk hi) a calls := by
  refine Along.of_invariant (I := fun a => WellFormed a hi ∧ hi - a.firstMcb < 0x10000)
    (fun a c h hc => ?_) (fun a c h hc => memStep_spec a c h hc) calls a ⟨hwf, hsize⟩ hok
  obtain ⟨hwf', hfirst, -⟩ := memStep_spec a c h hc
  exact ⟨hwf', by rw [hfirst]; exact h.2⟩

/-- A free block of conventional memory at 1, then the upper memory root at 5, owned by the
system and linked in. -/
def smallArena : Arena where
  mem s := if s = 1 then ⟨MCB_NORMAL, FREE_PSP, 3⟩ else if s = 5 then ⟨MCB_LAST, 8, 3⟩ else ⟨0, 0, 0⟩
  firstMcb := 1
  uppermemLink := 1
  uppermemRoot := 5
  memAccessMode := 0

theorem smallArena_chain : Chain smallArena.mem 1
    [⟨1, ⟨MCB_NORMAL, FREE_PSP, 3⟩⟩, ⟨5, ⟨MCB_LAST, 8, 3⟩⟩] 9 :=
  ⟨⟨rfl, rfl, rfl, rfl, rfl⟩, ⟨rfl, rfl⟩, by decide⟩

/-- An allocation in upper memory is one of the calls the run theorem covers. -/
theorem smallArena_alloc_high :
    WellFormed smallArena 9 ∧ Along memStep (CallOk 9) smallArena [.alloc 0x60 2 0x80] :=
  have hwf : WellFormed smallArena 9 := ⟨by decide, _, smallArena_chain⟩
  ⟨hwf, arena_wellFormed_along_run smallArena 9 _ hwf (by decide)
    ⟨fun _ => ⟨9, _, smallArena_chain, ⟨5, ⟨MCB_LAST, 8, 3⟩⟩, by decide, rfl⟩, trivial⟩⟩

/-- Free the block at the upper memory root, ask for more than there is in conventional memory
first (which joins what is free), then allocate in upper memory. -/
def loseRoot : List MemCall := [.free 5, .alloc 0x60 0xfff0 0, .alloc 0x60 1 0x80]

/-- **An intact chain reported as destroyed.**  The chain is well formed, `DosMemFree` is
given the MCB of one of its blocks, and the last allocation answers `DE_MCBDESTRY`. -/
theorem umb_root_joined_away :
    WellFormed smallArena 9 ∧ IsBlock smallArena 5 ∧
      (memStep (run memStep smallArena (loseRoot.take 2)) (.alloc 0x60 1 0x80)).1
        = some DE_MCBDESTRY :=
  ⟨⟨by decide, _, smallArena_chain⟩, ⟨9, _, smallArena_chain, ⟨5, ⟨MCB_LAST, 8, 3⟩⟩, by decide, rfl⟩,
    by decide⟩

end SdcBoot.Memory
