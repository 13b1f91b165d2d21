/-
# Upper memory at startup: `umb_init`

The XMS driver hands out upper memory block by block, in an order of its own (the largest first).
`umb_init` strings the blocks together: what lies between two of them is owned by the system (a link
MCB, in the last paragraph of the block below), and blocks that touch are meant to be one.

The chain is right for every order, if what the loop does not foresee stays out (`Suits`): a block
that comes after the one that touches it from above, a later one right behind the root, and an old
`MCB_NORMAL` where the next link MCB will be; and if the topmost block does not touch the one below
it, for then `MCB_LAST` goes into an MCB that is not in the chain any more (`touching_runs_out`).
-/
import SdcBoot.Memory.Umb

namespace SdcBoot.Memory

open Lib List

/-! ## 1. The routine -/

/-- An answer of `UMB_get_largest`. -/
structure Umb where
  seg : Nat
  size : Nat
  deriving DecidableEq

def mcbInit (m : Nat → Mcb) (seg size type : Nat) : Nat → Mcb :=
  put m seg ⟨type, FREE_PSP, size % 0x10000⟩

/-- `mumcb_init`: an MCB of the system. -/
def mumcbInit (m : Nat → Mcb) (seg size : Nat) : Nat → Mcb :=
  put m seg ⟨MCB_NORMAL, 8, size % 0x10000⟩

/-- The loop of `prev_mcb`. -/
def prevMcb (m : Nat → Mcb) (curMcb : Nat) : Nat → Nat → Nat → Option Nat
  | 0, _, _ => none
  | fuel + 1, mcbPrev, mcbNext =>
    if mcbNext < curMcb ∧ (m mcbNext).mType = MCB_NORMAL then
      prevMcb m curMcb fuel mcbNext (nxtMCB m mcbNext)
    else some mcbPrev

/-- The second half of a round: what is below the new block. -/
def linkBelow (root : Nat) (m : Nat → Mcb) (umbSeg umbSize umbPrev : Nat) : Option (Nat → Mcb) :=
  let gap := (umbSeg + 0x20000 - umbPrev - 1) % 0x10000
  if gap = 0 then
    (prevMcb m umbPrev walkFuel root root).map fun p =>
      put m p { m p with mSize := ((m p).mSize + umbSize) % 0x10000 }
  else some (mumcbInit m umbPrev gap)

/-- A round of the loop, for the next block; the state is the memory and `umb_max`. -/
def umbRound (root : Nat) (s : (Nat → Mcb) × Nat) (u : Umb) : Option ((Nat → Mcb) × Nat) :=
  let umbMax := if u.seg > s.2 then u.seg else s.2
  let m := mcbInit s.1 u.seg ((u.size + 0x10000 - 2) % 0x10000) MCB_NORMAL
  (prevMcb m u.seg walkFuel root root).bind fun umbPrev =>
    let umbNext := nxtMCB m umbPrev
    let gap := (umbNext + 0x20000 - u.seg - u.size) % 0x10000
    if u.seg < s.2 then
      if gap = 0 then
        let umbSize := (u.size + (m umbNext).mSize + 1) % 0x10000
        (linkBelow root (put m u.seg { m u.seg with mSize := umbSize }) u.seg umbSize umbPrev).map
          fun m => (m, umbMax)
      else
        (linkBelow root (mumcbInit m ((u.seg + u.size + 0x10000 - 1) % 0x10000) gap) u.seg u.size
          umbPrev).map fun m => (m, umbMax)
    else (linkBelow root m u.seg u.size umbNext).map fun m => (m, umbMax)

/-- The variables of `config.c` that are set. -/
structure UmbVars where
  umbState : Nat
  umbBaseSeg : Nat
  umbStart : Nat
  umbTop : Nat

/-- **`umb_init`**, for the answers of the driver up to the first that fails (without a driver there
are none); `none` if a walk did not end. -/
def umbInit (a : Arena) (vars : UmbVars) (ramTop baseSeg : Nat) :
    List Umb → Option (Arena × UmbVars)
  | [] => some (a, vars)
  | u :: umbs =>
    let root := (ramTop * 64 + 0x10000 - 1) % 0x10000
    let m := put a.mem baseSeg { a.mem baseSeg with
      mType := MCB_NORMAL, mSize := ((a.mem baseSeg).mSize + 0x10000 - 1) % 0x10000 }
    let m := mumcbInit m root ((u.seg + 0x20000 - root - 1) % 0x10000)
    let m := mcbInit m u.seg ((u.size + 0x10000 - 2) % 0x10000) MCB_NORMAL
    (umbs.foldlM (umbRound root) (m, u.seg)).map fun s =>
      ({ a with
        mem := put s.1 s.2
          { s.1 s.2 with mType := MCB_LAST, mSize := ((s.1 s.2).mSize + 1) % 0x10000 }
        uppermemRoot := root },
        { umbState := 1, umbBaseSeg := u.seg, umbStart := u.seg, umbTop := u.size })

/-! ## 2. The condition -/

/-- The blocks are apart, above the root, and of at least 3 paragraphs. -/
structure Apart (root : Nat) (u : Umb) (seen : List Umb) : Prop where
  size : 3 ≤ u.size
  above : root < u.seg
  room : u.seg + u.size ≤ 0x10000
  apart : ∀ v ∈ seen, v.seg + v.size ≤ u.seg ∨ u.seg + u.size ≤ v.seg

/-- What a block that comes after those of `seen` must be like. -/
structure Suits (m : Nat → Mcb) (root : Nat) (u : Umb) (seen : List Umb) : Prop where
  above : ∀ v ∈ seen, u.seg + u.size ≠ v.seg
  root : u.seg ≠ root + 1
  behind : ∀ t ∈ seen, (∀ v ∈ seen, v.seg ≤ t.seg) → t.seg < u.seg →
    (m (t.seg + t.size - 1)).mType ≠ MCB_NORMAL

/-- The paragraph is one of upper memory. -/
def InUmbs (us : List Umb) (p : Nat) : Prop := ∃ u ∈ us, u.seg ≤ p ∧ p < u.seg + u.size

variable {us : List Umb} {hi p : Nat} {m : Nat → Mcb}

theorem InUmbs.cons (h : InUmbs us p) (u : Umb) : InUmbs (u :: us) p :=
  let ⟨v, hv, hp⟩ := h
  ⟨v, mem_cons_of_mem _ hv, hp⟩

/-! ## 3. The walk -/

/-- **`prev_mcb`** stops at the block that the address is behind. -/
theorem prevMcb_tiles {cur : Nat} {l : Block} {post : List Block} (hhi : hi < 0x10000)
    (hlt : l.seg < cur)
    (hstop : cur ≤ l.seg + 1 + l.hdr.mSize ∨ (m (l.seg + 1 + l.hdr.mSize)).mType ≠ MCB_NORMAL) :
    ∀ (pre : List Block) (fuel lo prev : Nat), Tiles Mcb.mSize m lo (pre ++ l :: post) hi →
      (∀ b ∈ pre ++ [l], b.hdr.mType = MCB_NORMAL) → pre.length + 1 < fuel →
      prevMcb m cur fuel prev lo = some l.seg := by
  intro pre
  induction pre with
  | nil =>
    intro fuel lo prev htiles hnormal hfuel
    obtain ⟨fuel, rfl⟩ : ∃ k, fuel = k + 2 := ⟨fuel - 2, by omega⟩
    obtain ⟨rfl, hm, hrest⟩ := htiles
    have hle := hrest.le
    have htype : (m l.seg).mType = MCB_NORMAL := by
      rw [hm]
      exact hnormal l (by simp)
    have hnext : nxtMCB m l.seg = l.seg + 1 + l.hdr.mSize := by
      rw [nxtMCB, hm, nxtMCBsize_eq (by omega)]
    rw [prevMcb, if_pos ⟨hlt, htype⟩, hnext, prevMcb, if_neg]
    rintro ⟨hlt', htype'⟩
    exact hstop.elim (fun h => by omega) fun h => h htype'
  | cons b pre ih =>
    intro fuel lo prev htiles hnormal hfuel
    obtain ⟨fuel, rfl⟩ : ∃ k, fuel = k + 1 := ⟨fuel - 1, by omega⟩
    obtain ⟨rfl, hm, hrest⟩ := htiles
    have hbounds := hrest.mem_bounds l (by simp)
    have htype : (m b.seg).mType = MCB_NORMAL := by
      rw [hm]
      exact hnormal b (by simp)
    have hnext : nxtMCB m b.seg = b.seg + 1 + b.hdr.mSize := by
      rw [nxtMCB, hm, nxtMCBsize_eq (by omega)]
    rw [prevMcb, if_pos ⟨by omega, htype⟩, hnext]
    exact ih fuel _ _ hrest (fun c hc => hnormal c (.tail _ hc))
      (by simp at hfuel; omega)

/-- The block that a paragraph lies in. -/
theorem tile_at : ∀ {bs : List Block} {lo : Nat},
    Tiles Mcb.mSize m lo bs hi → lo ≤ p → p < hi →
      ∃ pre l post, bs = pre ++ l :: post ∧ l.seg ≤ p ∧ p < l.seg + 1 + l.hdr.mSize
  | [], _, htiles, hlo, hhi => by
    have : _ = hi := htiles
    omega
  | b :: bs, _, ⟨hseg, _, hrest⟩, hlo, hhi => by
    by_cases hp : p < b.seg + 1 + b.hdr.mSize
    · exact ⟨[], b, bs, rfl, by omega, hp⟩
    · obtain ⟨pre, l, post, rfl, hl⟩ := tile_at hrest (by omega) hhi
      exact ⟨b :: pre, l, post, rfl, hl⟩

/-! ## 4. The invariant -/

/-- A block of the chain: it ends where upper memory is, and if it is free all of it is. -/
structure GoodBlock (us : List Umb) (b : Block) : Prop where
  normal : b.hdr.mType = MCB_NORMAL
  bound : InUmbs us (b.seg + 1 + b.hdr.mSize)
  free : b.hdr.free = true → ∀ p, b.seg ≤ p → p < b.seg + 1 + b.hdr.mSize → InUmbs us p

theorem GoodBlock.cons {b : Block} (h : GoodBlock us b) (u : Umb) : GoodBlock (u :: us) b :=
  ⟨h.normal, h.bound.cons u, fun hfree p hlo hhi => (h.free hfree p hlo hhi).cons u⟩

/-- The MCB of a block that came alone. -/
def Umb.block (u : Umb) : Block := ⟨u.seg, ⟨MCB_NORMAL, FREE_PSP, u.size - 2⟩⟩

/-- The part of the chain that is there after some blocks: it ends in front of the last paragraph
of the topmost one. -/
structure Upper (m0 : Nat → Mcb) (root : Nat) (us : List Umb) (m : Nat → Mcb) (t : Umb)
    (bs : List Block) : Prop where
  mem : t ∈ us
  highest : ∀ u ∈ us, u.seg ≤ t.seg
  tiles : Tiles Mcb.mSize m root bs (t.seg + t.size - 1)
  good : ∀ b ∈ bs, GoodBlock us b
  last : (∃ v ∈ us, v.seg + v.size = t.seg) ∨ ∃ pre, bs = pre ++ [t.block]
  frame : ∀ c, c < root ∨ t.seg + t.size - 1 ≤ c → m c = m0 c

section Step

variable {m0 m m' : Nat → Mcb} {root : Nat} {us : List Umb} {t u : Umb}
variable {bs pre ys post : List Block}

variable {xs : List Block} {a size : Nat}

/-- A new topmost block: the end of the chain is made anew from `a` on. -/
theorem Upper.raise (h : Upper m0 root us m t bs) (hup : t.seg + t.size ≤ u.seg)
    (hbs : bs = pre ++ xs) (hpre : Tiles Mcb.mSize m root pre a)
    (hys : Tiles Mcb.mSize m' a ys (u.seg + u.size - 1)) (hgood : ∀ b ∈ ys, GoodBlock (u :: us) b)
    (hlast : (∃ v ∈ us, v.seg + v.size = u.seg) ∨ ∃ zs, ys = zs ++ [u.block])
    (hag : ∀ c, c < a ∨ u.seg + u.size - 1 ≤ c → m' c = m c) :
    Upper m0 root (u :: us) m' u (pre ++ ys) where
  mem := mem_cons_self
  highest := by
    intro v hv
    rcases mem_cons.mp hv with rfl | hv
    · exact le_rfl
    · have := h.highest v hv
      omega
  tiles := tiles_append.mpr ⟨a, hpre.congr fun c _ hc => hag c (.inl hc), hys⟩
  good := by
    intro b hb
    rcases mem_append.mp hb with hb | hb
    · exact (h.good b (hbs ▸ mem_append_left _ hb)).cons u
    · exact hgood b hb
  last := by
    rcases hlast with ⟨v, hv, heq⟩ | ⟨zs, rfl⟩
    · exact .inl ⟨v, mem_cons_of_mem _ hv, heq⟩
    · exact .inr ⟨pre ++ zs, by rw [append_assoc]⟩
  frame := by
    intro c hc
    have hle := hpre.le
    rw [hag c (by omega), h.frame c (by omega)]

/-- A new block below the topmost: some blocks are replaced by others. -/
theorem Upper.replace (h : Upper m0 root us m t bs) (hlt : u.seg < t.seg) {b : Nat}
    (hbs : bs = pre ++ xs ++ post) (hpre : Tiles Mcb.mSize m root pre a)
    (hys : Tiles Mcb.mSize m' a ys b) (hpost : Tiles Mcb.mSize m b post (t.seg + t.size - 1))
    (hgood : ∀ b ∈ ys, GoodBlock (u :: us) b)
    (hlast : (∃ v ∈ us, v.seg + v.size = t.seg) ∨ post ≠ [])
    (hag : ∀ c, c < a ∨ b ≤ c → m' c = m c) :
    Upper m0 root (u :: us) m' t (pre ++ ys ++ post) where
  mem := mem_cons_of_mem _ h.mem
  highest := by
    intro v hv
    rcases mem_cons.mp hv with rfl | hv
    · omega
    · exact h.highest v hv
  tiles := Tiles.edit hpre hys hpost hag
  good := by
    intro c hc
    rcases mem_append.mp hc with hc | hc
    · rcases mem_append.mp hc with hc | hc
      · exact (h.good c (by rw [hbs]; simp [hc])).cons u
      · exact hgood c hc
    · exact (h.good c (by rw [hbs]; simp [hc])).cons u
  last := by
    have hfirst : (∃ v ∈ us, v.seg + v.size = t.seg) → ∃ v ∈ u :: us, v.seg + v.size = t.seg :=
      fun ⟨v, hv, heq⟩ => ⟨v, mem_cons_of_mem _ hv, heq⟩
    rcases h.last with hadj | ⟨zs, hzs⟩
    · exact .inl (hfirst hadj)
    rcases hlast with hadj | hne
    · exact .inl (hfirst hadj)
    rcases eq_nil_or_concat post with rfl | ⟨post', x, rfl⟩
    · exact absurd rfl hne
    · rw [concat_eq_append, ← append_assoc] at hbs
      have hx : [x] = [t.block] := (append_inj' (hbs.symm.trans hzs) rfl).2
      exact .inr ⟨pre ++ ys ++ post', by simp [hx]⟩
  frame := by
    intro c hc
    have hle := hpre.le
    have hle' := hpost.le
    rw [hag c (by omega), h.frame c hc]

variable {l : Block}

/-- The walk and the growth that the two touching cases have in common. -/
theorem linkBelow_touch {hi : Nat} (hhi : hi < 0x10000)
    (htiles : Tiles Mcb.mSize m root (pre ++ l :: post) hi)
    (hnormal : ∀ b ∈ pre ++ [l], b.hdr.mType = MCB_NORMAL) (hfuel : pre.length + 1 < walkFuel)
    (hsum : l.hdr.mSize + size < 0x10000) :
    linkBelow root m (l.seg + 1 + l.hdr.mSize + 1) size (l.seg + 1 + l.hdr.mSize) =
      some (put m l.seg { l.hdr with mSize := l.hdr.mSize + size }) := by
  have hlt : l.seg < l.seg + 1 + l.hdr.mSize := by omega
  have hwalk := prevMcb_tiles hhi hlt (.inl le_rfl) pre walkFuel root root htiles
    hnormal hfuel
  have hm : m l.seg = l.hdr := (htiles.mem_bounds l (by simp)).2.2
  have hgap : (l.seg + 1 + l.hdr.mSize + 1 + 0x20000 - (l.seg + 1 + l.hdr.mSize) - 1) % 0x10000 =
      0 := by omega
  unfold linkBelow
  rw [if_pos hgap, hwalk, Option.map_some, hm, Nat.mod_eq_of_lt hsum]

theorem linkBelow_gap {umbSeg umbPrev : Nat} (hgap : umbPrev + 1 < umbSeg)
    (hseg : umbSeg < 0x10000) (size : Nat) :
    linkBelow root m umbSeg size umbPrev =
      some (put m umbPrev ⟨MCB_NORMAL, 8, umbSeg - umbPrev - 1⟩) := by
  have hmod : (umbSeg + 0x20000 - umbPrev - 1) % 0x10000 = umbSeg - umbPrev - 1 := by omega
  unfold linkBelow
  rw [hmod, if_neg (by omega), mumcbInit, Nat.mod_eq_of_lt (by omega)]

theorem mcbInit_block (m : Nat → Mcb) (hu : Apart root u us) :
    mcbInit m u.seg ((u.size + 0x10000 - 2) % 0x10000) MCB_NORMAL = put m u.seg u.block.hdr := by
  have hmod : (u.size + 0x10000 - 2) % 0x10000 % 0x10000 = u.size - 2 := by
    have := hu.size
    have := hu.room
    omega
  rw [mcbInit, hmod]
  rfl

/-- All but the last paragraph of a block that came alone is in it. -/
theorem block_good (hu : Apart root u us) : GoodBlock (u :: us) u.block := by
  have hsize := hu.size
  have hin : ∀ p, u.seg ≤ p → p < u.seg + u.size → InUmbs (u :: us) p :=
    fun p hlo hhi => ⟨u, mem_cons_self, hlo, hhi⟩
  refine ⟨rfl, hin _ ?_ ?_, fun _ p hlo hhi => hin p hlo ?_⟩
  · change u.seg ≤ u.seg + 1 + (u.size - 2)
    omega
  · change u.seg + 1 + (u.size - 2) < u.seg + u.size
    omega
  · have hhi : p < u.seg + 1 + (u.size - 2) := hhi
    omega

/-- A block that grows over the end of one below, up to the last paragraph of the new one. -/
theorem grown_good (hl : GoodBlock us l) (hu : Apart root u us)
    (htouch : l.seg + 1 + l.hdr.mSize + 1 = u.seg) :
    GoodBlock (u :: us) ⟨l.seg, { l.hdr with mSize := l.hdr.mSize + u.size }⟩ := by
  have hsize := hu.size
  have hin : ∀ p, u.seg ≤ p → p < u.seg + u.size → InUmbs (u :: us) p :=
    fun p hlo hhi => ⟨u, mem_cons_self, hlo, hhi⟩
  refine ⟨hl.normal, hin _ ?_ ?_, fun hfree p hlo hhi => ?_⟩
  · change u.seg ≤ l.seg + 1 + (l.hdr.mSize + u.size)
    omega
  · change l.seg + 1 + (l.hdr.mSize + u.size) < u.seg + u.size
    omega
  · have hhi : p < l.seg + 1 + (l.hdr.mSize + u.size) := hhi
    rcases Nat.lt_trichotomy p (l.seg + 1 + l.hdr.mSize) with hp | hp | hp
    · exact (hl.free hfree p hlo hp).cons u
    · exact hp ▸ hl.bound.cons u
    · exact hin p (by omega) (by omega)

theorem link_good {seg : Nat} (h : InUmbs us (seg + 1 + size)) :
    GoodBlock us ⟨seg, ⟨MCB_NORMAL, 8, size⟩⟩ :=
  ⟨rfl, h, nofun⟩

section

variable (h : Upper m0 root us m t bs)
include h

/-- **A block above** all that came before. -/
theorem umbRound_above (ht : root < t.seg ∧ 3 ≤ t.size)
    (hu : Apart root u us) (hs : Suits m0 root u us) (hlt : t.seg < u.seg) :
    ∃ m' bs', umbRound root (m, t.seg) u = some (m', u.seg) ∧ Upper m0 root (u :: us) m' u bs' := by
  have hsize := hu.size
  have hroom := hu.room
  have hend : t.seg + t.size ≤ u.seg := (hu.apart t h.mem).resolve_right (by omega)
  have hlen := h.tiles.length_le
  obtain ⟨pre, l, rfl⟩ : ∃ pre l, bs = pre ++ [l] := by
    rcases eq_nil_or_concat bs with rfl | ⟨pre, l, hbs⟩
    · have hempty : root = t.seg + t.size - 1 := h.tiles
      omega
    · exact ⟨pre, l, by rw [hbs, concat_eq_append]⟩
  have hfuel : pre.length + 1 < walkFuel := by
    rw [length_append, length_singleton] at hlen
    unfold walkFuel
    omega
  have hnormal : ∀ b ∈ pre ++ [l], b.hdr.mType = MCB_NORMAL := fun b hb => (h.good b hb).normal
  obtain ⟨mid, hpre, hseg, hml, hlend⟩ := tiles_append.mp h.tiles
  subst hseg
  have hlend : l.seg + 1 + l.hdr.mSize = t.seg + t.size - 1 := hlend
  set m1 := put m u.seg u.block.hdr with hm1
  have htiles : Tiles Mcb.mSize m1 root (pre ++ [l]) (t.seg + t.size - 1) :=
    h.tiles.congr fun c _ hc => put_ne (by omega) _
  -- behind the topmost block the walk meets what the memory held before
  have hold : (m1 (l.seg + 1 + l.hdr.mSize)).mType ≠ MCB_NORMAL := by
    rw [hlend, hm1, put_ne (by omega), h.frame _ (.inr le_rfl)]
    exact hs.behind t h.mem h.highest hlt
  have hwalk : prevMcb m1 u.seg walkFuel root root = some l.seg :=
    prevMcb_tiles (by omega) (by omega) (.inr hold) pre walkFuel root root htiles hnormal hfuel
  have hnext : nxtMCB m1 l.seg = t.seg + t.size - 1 := by
    rw [nxtMCB, (htiles.mem_bounds l (by simp)).2.2, nxtMCBsize_eq (by omega), hlend]
  have hround : umbRound root (m, t.seg) u =
      (linkBelow root m1 u.seg u.size (t.seg + t.size - 1)).map fun m => (m, u.seg) := by
    unfold umbRound
    dsimp only
    rw [mcbInit_block m hu, hwalk, Option.bind_some, hnext, if_neg (by omega), if_pos hlt]
  rw [hround]
  by_cases htouch : t.seg + t.size = u.seg
  · have hsum : l.hdr.mSize + u.size < 0x10000 := by omega
    have hseg : t.seg + t.size - 1 + 1 = u.seg := by omega
    have hgrow := linkBelow_touch (by omega) htiles hnormal hfuel hsum
    rw [hlend, hseg] at hgrow
    rw [hgrow]
    have hend' : l.seg + 1 + (l.hdr.mSize + u.size) = u.seg + u.size - 1 := by omega
    set g : Mcb := { l.hdr with mSize := l.hdr.mSize + u.size } with hg
    have hys : Tiles Mcb.mSize (put m1 l.seg g) l.seg [⟨l.seg, g⟩] (u.seg + u.size - 1) :=
      ⟨rfl, put_self _ _ _, hend'⟩
    refine ⟨_, _, rfl, h.raise hend rfl hpre hys ?_ (.inl ⟨t, h.mem, htouch⟩) ?_⟩
    · intro b hb
      rw [mem_singleton.mp hb]
      exact grown_good (h.good l (by simp)) hu (by omega)
    · intro c hc
      rw [put_ne (by omega), hm1, put_ne (by omega)]
  · rw [linkBelow_gap (by omega) (by omega)]
    set g : Mcb := ⟨MCB_NORMAL, 8, u.seg - (t.seg + t.size - 1) - 1⟩ with hg
    have hnext : t.seg + t.size - 1 + 1 + g.mSize = u.seg := by
      simp only [hg]
      omega
    have hend' : u.seg + 1 + u.block.hdr.mSize = u.seg + u.size - 1 := by
      simp only [Umb.block]
      omega
    have hys : Tiles Mcb.mSize (put m1 (t.seg + t.size - 1) g) (t.seg + t.size - 1)
        [⟨t.seg + t.size - 1, g⟩, u.block] (u.seg + u.size - 1) := by
      refine ⟨rfl, put_self _ _ _, ?_⟩
      rw [hnext]
      exact ⟨rfl, by rw [put_ne (by omega), hm1, put_self], hend'⟩
    refine ⟨_, _, rfl, h.raise hend (append_nil _).symm h.tiles hys ?_ (.inr ⟨[_], rfl⟩) ?_⟩
    · intro b hb
      rcases mem_cons.mp hb with rfl | hb
      · refine link_good ⟨u, mem_cons_self, ?_, ?_⟩ <;> omega
      · rw [mem_singleton.mp hb]
        exact block_good hu
    · intro c hc
      rw [put_ne (by omega), hm1, put_ne (by omega)]

section

variable (hbs : bs = pre ++ l :: post)
include hbs

/-- Where the blocks of the chain begin. -/
theorem Upper.starts : (pre = [] ∧ l.seg = root) ∨
      ∃ pre' b, pre = pre' ++ [b] ∧ b.seg + 1 + b.hdr.mSize = l.seg ∧ InUmbs us l.seg := by
  have htiles := h.tiles
  rw [hbs] at htiles
  rcases eq_nil_or_concat pre with rfl | ⟨pre', b, hpre⟩
  · exact .inl ⟨rfl, htiles.1⟩
  · rw [concat_eq_append] at hpre
    subst hpre
    obtain ⟨mid, hpre, hseg, -⟩ := tiles_append.mp htiles
    obtain ⟨mid', -, hb, -, hend⟩ := tiles_append.mp hpre
    have hend : mid' + 1 + b.hdr.mSize = mid := hend
    have hb : b.seg + 1 + b.hdr.mSize = l.seg := by omega
    refine .inr ⟨pre', b, rfl, hb, hb ▸ (h.good b ?_).bound⟩
    rw [hbs]
    simp

/-- Only the headers of a chain are read. -/
theorem Upper.retile (hag : ∀ c, c ≤ l.seg ∨ l.seg + 1 + l.hdr.mSize ≤ c → m' c = m c) :
    Tiles Mcb.mSize m' root (pre ++ l :: post) (t.seg + t.size - 1) := by
  have htiles := h.tiles
  rw [hbs] at htiles
  obtain ⟨mid, hpre, rfl, hml, hpost⟩ := tiles_append.mp htiles
  have hys : Tiles Mcb.mSize m' l.seg [l] (l.seg + 1 + l.hdr.mSize) :=
    ⟨rfl, by rw [hag l.seg (.inl le_rfl), hml], rfl⟩
  have hedit := Tiles.edit hpre hys hpost fun c hc =>
    hag c (hc.elim (fun hlt => .inl (le_of_lt hlt)) Or.inr)
  rwa [append_assoc] at hedit

/-- A block in a gap is not behind the topmost one. -/
theorem Upper.last_below
    (hlt : l.seg < t.seg) : (∃ v ∈ us, v.seg + v.size = t.seg) ∨ post ≠ [] := by
  refine h.last.imp id fun ⟨zs, hzs⟩ hnil => ?_
  subst hnil
  have hl : [l] = [t.block] := (append_inj' (hbs.symm.trans hzs) rfl).2
  have hseg : l.seg = t.seg := by
    rw [List.cons.inj hl |>.1]
    rfl
  omega

end

/-- **A block below** the topmost: it lies in a gap. -/
theorem umbRound_below (ht : 3 ≤ t.size ∧ t.seg + t.size ≤ 0x10000)
    (hu : Apart root u us) (hs : Suits m0 root u us) (hlt : u.seg < t.seg) :
    ∃ m' bs', umbRound root (m, t.seg) u = some (m', t.seg) ∧ Upper m0 root (u :: us) m' t bs' := by
  have hsize := hu.size
  have hlen := h.tiles.length_le
  have habove := hu.above
  have hapart : ∀ p, InUmbs us p → p < u.seg ∨ u.seg + u.size < p ∨
      u.seg + u.size = p ∧ ∃ v ∈ us, u.seg + u.size = v.seg := by
    rintro p ⟨v, hv, hlo, hhi⟩
    have := hu.apart v hv
    by_cases heq : u.seg + u.size = v.seg
    · exact (Nat.eq_or_lt_of_le hlo).elim (fun hp => .inr (.inr ⟨by omega, v, hv, heq⟩))
        fun hp => .inr (.inl (by omega))
    · omega
  have hinside : u.seg < t.seg + t.size - 1 := by omega
  obtain ⟨pre, l, post, hbs, hlo, hhi⟩ := tile_at h.tiles (le_of_lt habove) hinside
  have hl : GoodBlock us l := h.good l (by rw [hbs]; simp)
  have hseg : l.seg < u.seg := by
    rcases h.starts hbs with ⟨-, hroot⟩ | ⟨-, -, -, -, hin⟩
    · omega
    · have := hapart _ hin
      omega
  have hroom : u.seg + u.size < l.seg + 1 + l.hdr.mSize := by
    rcases hapart _ hl.bound with hp | hp | ⟨-, v, hv, heq⟩
    · omega
    · exact hp
    · exact absurd heq (hs.above v hv)
  have hbelow : l.seg < t.seg := lt_trans hseg hlt
  have htiles := h.tiles
  rw [hbs] at htiles hlen
  obtain ⟨mid, hpre, hmid, hml, hpost⟩ := tiles_append.mp htiles
  subst hmid
  have hle := hpost.le
  have hnormal : ∀ b ∈ pre ++ l :: post, b.hdr.mType = MCB_NORMAL :=
    fun b hb => (h.good b (hbs ▸ hb)).normal
  have hfuel : pre.length + 1 < walkFuel := by
    simp only [length_append, length_cons] at hlen
    unfold walkFuel
    omega
  set m1 := put m u.seg u.block.hdr with hm1
  have htiles1 : Tiles Mcb.mSize m1 root (pre ++ l :: post) (t.seg + t.size - 1) :=
    h.retile hbs fun c hc => put_ne (by omega) _
  have hwalk : prevMcb m1 u.seg walkFuel root root = some l.seg :=
    prevMcb_tiles (by omega) hseg (.inl (by omega)) pre walkFuel root root htiles1
      (fun b hb => hnormal b (by simp at hb ⊢; tauto)) hfuel
  have hnext : nxtMCB m1 l.seg = l.seg + 1 + l.hdr.mSize := by
    rw [nxtMCB, (htiles1.mem_bounds l (by simp)).2.2, nxtMCBsize_eq (by omega)]
  set k : Mcb := ⟨MCB_NORMAL, 8, l.seg + 1 + l.hdr.mSize - u.seg - u.size⟩ with hk
  set m2 := put m1 (u.seg + u.size - 1) k with hm2
  have hround : umbRound root (m, t.seg) u =
      (linkBelow root m2 u.seg u.size l.seg).map fun m => (m, t.seg) := by
    have hgap : (l.seg + 1 + l.hdr.mSize + 0x20000 - u.seg - u.size) % 0x10000 =
        l.seg + 1 + l.hdr.mSize - u.seg - u.size := by omega
    have hat : (u.seg + u.size + 0x10000 - 1) % 0x10000 = u.seg + u.size - 1 := by omega
    unfold umbRound
    dsimp only
    rw [mcbInit_block m hu, hwalk, Option.bind_some, hnext, if_pos hlt, hgap, if_neg (by omega),
      hat, mumcbInit, Nat.mod_eq_of_lt (by omega), if_neg (by omega)]
  rw [hround]
  have hag2 : ∀ c, c ≤ l.seg ∨ l.seg + 1 + l.hdr.mSize ≤ c → m2 c = m c := by
    intro c hc
    rw [hm2, put_ne (by omega), hm1, put_ne (by omega)]
  have hkend : u.seg + u.size - 1 + 1 + k.mSize = l.seg + 1 + l.hdr.mSize := by
    simp only [hk]
    omega
  have hkgood : GoodBlock (u :: us) ⟨u.seg + u.size - 1, k⟩ := by
    refine link_good ?_
    have hbound := hl.bound.cons u
    rwa [← hkend] at hbound
  by_cases htouch : u.seg = l.seg + 1
  · rcases h.starts hbs with ⟨-, hroot⟩ | ⟨pre', b, rfl, hend, -⟩
    · exact absurd (by omega) hs.root
    have htiles2 := h.retile hbs hag2
    rw [append_assoc] at htiles2
    obtain ⟨mid, hpre', hb, -⟩ := tiles_append.mp hpre
    subst hb
    have hsum : b.hdr.mSize + u.size < 0x10000 := by omega
    have hgrow := linkBelow_touch (by omega) htiles2
      (fun c hc => hnormal c (by simp at hc ⊢; tauto)) (by simp at hfuel; omega) hsum
    rw [hend, ← htouch] at hgrow
    rw [hgrow]
    set g : Mcb := { b.hdr with mSize := b.hdr.mSize + u.size } with hg
    have hgend : b.seg + 1 + (b.hdr.mSize + u.size) = u.seg + u.size - 1 := by omega
    have hys : Tiles Mcb.mSize (put m2 b.seg g) b.seg [⟨b.seg, g⟩, ⟨u.seg + u.size - 1, k⟩]
        (l.seg + 1 + l.hdr.mSize) := by
      refine ⟨rfl, put_self _ _ _, ?_⟩
      change Tiles _ _ (b.seg + 1 + (b.hdr.mSize + u.size)) _ _
      rw [hgend]
      exact ⟨rfl, by rw [put_ne (by omega), hm2, put_self], hkend⟩
    have hsplit : bs = pre' ++ [b, l] ++ post := by
      rw [hbs, append_assoc, append_assoc]
      rfl
    refine ⟨_, _, rfl, h.replace hlt hsplit hpre' hys hpost ?_ (h.last_below hbs hbelow) ?_⟩
    · intro c hc
      simp only [mem_cons, not_mem_nil, or_false] at hc
      rcases hc with rfl | rfl
      · exact grown_good (h.good b (by rw [hbs]; simp)) hu (by omega)
      · exact hkgood
    · intro c hc
      rw [put_ne (by omega), hag2 c (by omega)]
  · rw [linkBelow_gap (by omega) (by omega)]
    set g : Mcb := ⟨MCB_NORMAL, 8, u.seg - l.seg - 1⟩ with hg
    have hgend : l.seg + 1 + g.mSize = u.seg := by
      simp only [hg]
      omega
    have huend : u.seg + 1 + u.block.hdr.mSize = u.seg + u.size - 1 := by
      simp only [Umb.block]
      omega
    have hys : Tiles Mcb.mSize (put m2 l.seg g) l.seg
        [⟨l.seg, g⟩, u.block, ⟨u.seg + u.size - 1, k⟩] (l.seg + 1 + l.hdr.mSize) := by
      refine ⟨rfl, put_self _ _ _, ?_⟩
      rw [hgend]
      refine ⟨rfl, ?_, ?_⟩
      · rw [put_ne (by omega), hm2, put_ne (by omega), hm1, put_self]
      · rw [huend]
        exact ⟨rfl, by rw [put_ne (by omega), hm2, put_self], hkend⟩
    have hsplit : bs = pre ++ [l] ++ post := by
      rw [hbs, append_assoc]
      rfl
    refine ⟨_, _, rfl, h.replace hlt hsplit hpre hys hpost ?_ (h.last_below hbs hbelow) ?_⟩
    · intro c hc
      simp only [mem_cons, not_mem_nil, or_false] at hc
      rcases hc with rfl | rfl | rfl
      · exact link_good ⟨u, mem_cons_self, by omega, by omega⟩
      · exact block_good hu
      · exact hkgood
    · intro c hc
      rw [put_ne (by omega), hag2 c (by omega)]

end

/-- A block that the driver may hand out. -/
structure Umb.Fits (root : Nat) (u : Umb) : Prop where
  size : 3 ≤ u.size
  above : root < u.seg
  room : u.seg + u.size ≤ 0x10000

theorem umbRound_spec (h : Upper m0 root us m t bs) (ht : t.Fits root) (hu : Apart root u us)
    (hs : Suits m0 root u us) :
    ∃ m' t' bs', umbRound root (m, t.seg) u = some (m', t'.seg) ∧
      Upper m0 root (u :: us) m' t' bs' := by
  rcases Nat.lt_trichotomy t.seg u.seg with hlt | heq | hlt
  · obtain ⟨m', bs', hround, hup⟩ := umbRound_above h ⟨ht.above, ht.size⟩ hu hs hlt
    exact ⟨m', u, bs', hround, hup⟩
  · have := hu.apart t h.mem
    have := hu.size
    have := ht.size
    omega
  · obtain ⟨m', bs', hround, hup⟩ := umbRound_below h ⟨ht.size, ht.room⟩ hu hs hlt
    exact ⟨m', t, bs', hround, hup⟩

end Step

/-! ## 5. The run -/

/-- The blocks the driver hands out: apart from each other, above the root. -/
structure Handed (root : Nat) (umbs : List Umb) : Prop where
  fits : ∀ u ∈ umbs, u.Fits root
  apart : umbs.Pairwise fun v u => v.seg + v.size ≤ u.seg ∨ u.seg + u.size ≤ v.seg

/-- Every block suits those that came before it. -/
def SuitsAll (m : Nat → Mcb) (root : Nat) (seen : List Umb) : List Umb → Prop
  | [] => True
  | u :: umbs => Suits m root u seen ∧ SuitsAll m root (u :: seen) umbs

/-- The topmost block does not touch the one below it. -/
def TopAlone (umbs : List Umb) : Prop :=
  ∀ t ∈ umbs, (∀ v ∈ umbs, v.seg ≤ t.seg) → ∀ v ∈ umbs, v.seg + v.size ≠ t.seg

section Run

variable {m0 : Nat → Mcb} {root : Nat}

variable {m : Nat → Mcb}

/-- The first block, and the link MCB at the root. -/
theorem upper_first {u : Umb} (hu : u.Fits root) (hm : ∀ c, c ≠ root → c ≠ u.seg → m c = m0 c)
    (hroot : m root = ⟨MCB_NORMAL, 8, u.seg - root - 1⟩) (hseg : m u.seg = u.block.hdr) :
    Upper m0 root [u] m u [⟨root, ⟨MCB_NORMAL, 8, u.seg - root - 1⟩⟩, u.block] := by
  have hsize := hu.size
  have habove := hu.above
  have hnext : root + 1 + (u.seg - root - 1) = u.seg := by omega
  have hend : u.seg + 1 + u.block.hdr.mSize = u.seg + u.size - 1 := by
    simp only [Umb.block]
    omega
  have hapart : Apart root u [] := ⟨hsize, habove, hu.room, nofun⟩
  refine ⟨by simp, by simp, ⟨rfl, hroot, ?_⟩, ?_, .inr ⟨[_], rfl⟩, fun c hc => ?_⟩
  · rw [hnext]
    exact ⟨rfl, hseg, hend⟩
  · intro b hb
    simp only [mem_cons, not_mem_nil, or_false] at hb
    rcases hb with rfl | rfl
    · exact link_good ⟨u, by simp, by omega, by omega⟩
    · exact block_good hapart
  · exact hm c (by omega) (by omega)

variable {t : Umb}

/-- **The end**: the topmost block becomes the last one, and is as long as it can be. -/
theorem Upper.close {us : List Umb} {bs : List Block} (h : Upper m0 root us m t bs)
    (ht : t.Fits root) (halone : ∀ v ∈ us, v.seg + v.size ≠ t.seg) :
    ∃ bs', Chain (put m t.seg
        { m t.seg with mType := MCB_LAST, mSize := ((m t.seg).mSize + 1) % 0x10000 })
        root bs' (t.seg + t.size) ∧
      ∀ b ∈ bs', b.hdr.free = true →
        ∀ p, b.seg ≤ p → p < b.seg + 1 + b.hdr.mSize → InUmbs us p := by
  have hsize := ht.size
  have hroom := ht.room
  have habove := ht.above
  obtain ⟨pre, rfl⟩ : ∃ pre, bs = pre ++ [t.block] :=
    h.last.resolve_left fun ⟨v, hv, heq⟩ => halone v hv heq
  obtain ⟨mid, hpre, hseg, hmt, -⟩ := tiles_append.mp h.tiles
  have hseg : t.seg = mid := hseg
  subst hseg
  have hmod : (t.size - 2 + 1) % 0x10000 = t.size - 1 := by omega
  have hnew : ({ m t.seg with mType := MCB_LAST, mSize := ((m t.seg).mSize + 1) % 0x10000 } : Mcb) =
      ⟨MCB_LAST, FREE_PSP, t.size - 1⟩ := by
    rw [hmt]
    simp only [Umb.block, hmod]
  rw [hnew]
  set m' := put m t.seg ⟨MCB_LAST, FREE_PSP, t.size - 1⟩ with hm'
  refine ⟨pre ++ [⟨t.seg, ⟨MCB_LAST, FREE_PSP, t.size - 1⟩⟩], ?_, ?_⟩
  · have htiles : Tiles Mcb.mSize m' root (pre ++ [⟨t.seg, ⟨MCB_LAST, FREE_PSP, t.size - 1⟩⟩])
        (t.seg + t.size) := by
      refine tiles_append.mpr ⟨t.seg, hpre.congr fun c _ hc => put_ne (by omega) _, rfl,
        put_self _ _ _, ?_⟩
      change t.seg + 1 + (t.size - 1) = t.seg + t.size
      omega
    have hnormal : ∀ b ∈ pre, b.hdr.mType = MCB_NORMAL :=
      fun b hb => (h.good b (by simp [hb])).normal
    refine ⟨htiles, (ends_append (by simp)).mpr ⟨hnormal, rfl⟩, ?_⟩
    intro b hb
    rcases mem_append.mp hb with hb | hb
    · have := hpre.mem_bounds b hb
      omega
    · rw [mem_singleton.mp hb]
      change t.size - 1 ≠ 0xffff
      omega
  · intro b hb hfree p hlo hhi
    rcases mem_append.mp hb with hb | hb
    · exact (h.good b (by simp [hb])).free hfree p hlo hhi
    · rw [mem_singleton.mp hb] at hlo hhi
      have hhi : p < t.seg + 1 + (t.size - 1) := hhi
      exact ⟨t, h.mem, hlo, by omega⟩

/-- **The loop** keeps the chain. -/
theorem umbRounds_spec : ∀ (umbs us : List Umb) (m : Nat → Mcb) (t : Umb) (bs : List Block),
    Upper m0 root us m t bs → Handed root (us.reverse ++ umbs) → SuitsAll m0 root us umbs →
    ∃ m' t' bs', umbs.foldlM (umbRound root) (m, t.seg) = some (m', t'.seg) ∧
      Upper m0 root (umbs.reverse ++ us) m' t' bs' := by
  intro umbs
  induction umbs with
  | nil => exact fun us m t bs h _ _ => ⟨m, t, bs, rfl, h⟩
  | cons u umbs ih =>
    intro us m t bs h hhanded hs
    have hfits := hhanded.fits u (by simp)
    have hu : Apart root u us := by
      refine ⟨hfits.size, hfits.above, hfits.room, fun v hv => ?_⟩
      exact (pairwise_append.mp hhanded.apart).2.2 v (by simp [hv]) u (by simp)
    have ht : t.Fits root := hhanded.fits t (by simp [h.mem])
    obtain ⟨m', t', bs', hround, hup⟩ := umbRound_spec h ht hu hs.1
    obtain ⟨m2, t2, bs2, hrun, hup2⟩ := ih (u :: us) m' t' bs' hup (by simpa using hhanded) hs.2
    refine ⟨m2, t2, bs2, ?_, by simpa using hup2⟩
    rw [foldlM_cons, hround]
    exact hrun

theorem SuitsAll.congr {m' : Nat → Mcb} (hag : ∀ c, root < c → m' c = m c) :
    ∀ {umbs seen : List Umb}, (∀ v ∈ seen, v.Fits root) → (∀ v ∈ umbs, v.Fits root) →
      SuitsAll m root seen umbs → SuitsAll m' root seen umbs
  | [], _, _, _, _ => trivial
  | u :: umbs, seen, hseen, humbs, ⟨hs, hrest⟩ => by
    refine ⟨⟨hs.above, hs.root, fun t ht hhigh hlt => ?_⟩, SuitsAll.congr hag ?_ ?_ hrest⟩
    · have hsize := (hseen t ht).size
      have habove := (hseen t ht).above
      rw [hag _ (by omega)]
      exact hs.behind t ht hhigh hlt
    · intro v hv
      rcases mem_cons.mp hv with rfl | hv
      · exact humbs v mem_cons_self
      · exact hseen v hv
    · exact fun v hv => humbs v (.tail _ hv)

/-- No block ends behind the topmost. -/
theorem Handed.below_top {umbs : List Umb} (h : Handed root umbs) (ht : t ∈ umbs)
    (hhigh : ∀ v ∈ umbs, v.seg ≤ t.seg) : ∀ u ∈ umbs, u.seg + u.size ≤ t.seg + t.size := by
  intro u hu
  rcases eq_or_ne u t with rfl | hne
  · exact le_rfl
  have hsymm : Std.Symm fun u v : Umb => u.seg + u.size ≤ v.seg ∨ v.seg + v.size ≤ u.seg :=
    ⟨fun _ _ => Or.symm⟩
  rcases h.apart.forall hu ht hne with hle | hle
  · omega
  · have := hhigh u hu
    have := (h.fits t ht).size
    omega

end Run

/-! ## 6. The whole chain -/

/-- **What `umb_init` is for**: a well-formed chain from the root on that has every paragraph handed
out in a block, and in its free blocks no other. -/
structure UpperOk (m : Nat → Mcb) (root : Nat) (umbs : List Umb) (bs : List Block) (hi : Nat) :
    Prop where
  chain : Chain m root bs hi
  covers : ∀ p, InUmbs umbs p → ∃ b ∈ bs, b.seg ≤ p ∧ p < b.seg + 1 + b.hdr.mSize
  free : ∀ b ∈ bs, b.hdr.free = true →
    ∀ p, b.seg ≤ p → p < b.seg + 1 + b.hdr.mSize → InUmbs umbs p

/-- What `configDone` does to the last block below. -/
def configDone (a : Arena) (vars : UmbVars) (baseSeg : Nat) : Arena :=
  if vars.umbState = 1 then
    { a with mem := put a.mem baseSeg { a.mem baseSeg with mType := MCB_LAST } }
  else a

/-- **`umb_init` strings upper memory together**, and `DosUmbLink(1)` links it below. -/
theorem umb_init_chain (a : Arena) (vars : UmbVars) {ramTop baseSeg : Nat} {low : List Block}
    {l : Block} {u : Umb} {umbs : List Umb} (hram : 0 < ramTop ∧ ramTop * 64 < 0x10000)
    (hlow : Chain a.mem a.firstMcb (low ++ [l]) (ramTop * 64)) (hbase : l.seg = baseSeg)
    (hpos : 0 < l.hdr.mSize) (hlink : a.uppermemLink = 0)
    (hhanded : Handed (ramTop * 64 - 1) (u :: umbs))
    (hs : SuitsAll a.mem (ramTop * 64 - 1) [u] umbs) (htop : TopAlone (u :: umbs)) :
    ∃ a' vars' bs hi, umbInit a vars ramTop baseSeg (u :: umbs) = some (a', vars') ∧
      UpperOk a'.mem a'.uppermemRoot (u :: umbs) bs hi ∧
      ∃ a'', dosUmbLink (configDone a' vars' baseSeg) 1 = some a'' ∧
        Chain a''.mem a''.firstMcb
          (low ++ [⟨l.seg, ⟨MCB_NORMAL, l.hdr.mPsp, l.hdr.mSize - 1⟩⟩] ++ bs) hi := by
  subst hbase
  obtain ⟨mid, hpre, hseg, hml, hlend⟩ := tiles_append.mp hlow.tiles
  subst hseg
  have hlend : l.seg + 1 + l.hdr.mSize = ramTop * 64 := hlend
  set root := ramTop * 64 - 1 with hroot
  have hu := hhanded.fits u (by simp)
  have hsize := hu.size
  have habove := hu.above
  have hroom := hu.room
  set b : Mcb := ⟨MCB_NORMAL, l.hdr.mPsp, l.hdr.mSize - 1⟩ with hb
  set m0 := put a.mem l.seg b with hm0
  set m2 := put (put m0 root ⟨MCB_NORMAL, 8, u.seg - root - 1⟩) u.seg u.block.hdr with hm2
  have hfirst : Upper m0 root [u] m2 u [⟨root, ⟨MCB_NORMAL, 8, u.seg - root - 1⟩⟩, u.block] := by
    refine upper_first hu (fun c hr hc => ?_) ?_ (put_self _ _ _)
    · rw [hm2, put_ne hc, put_ne hr]
    · rw [hm2, put_ne (by omega), put_self]
  have hs' : SuitsAll m0 root [u] umbs := by
    refine hs.congr (fun c hc => put_ne (by omega) _) ?_ fun v hv => hhanded.fits v (by simp [hv])
    intro v hv
    rw [List.mem_singleton.mp hv]
    exact hu
  obtain ⟨m', t, bs', hrun, hup⟩ :=
    umbRounds_spec umbs [u] m2 u _ hfirst (by simpa using hhanded) hs'
  have hmem : ∀ v, v ∈ umbs.reverse ++ [u] ↔ v ∈ u :: umbs := fun v => by simp [or_comm]
  have htmem := (hmem t).mp hup.mem
  have hhigh : ∀ v ∈ u :: umbs, v.seg ≤ t.seg := fun v hv => hup.highest v ((hmem v).mpr hv)
  have ht := hhanded.fits t htmem
  have htabove := ht.above
  obtain ⟨bs, hchain, hfree⟩ := hup.close ht fun v hv => htop t htmem hhigh v ((hmem v).mp hv)
  set m3 := put m' t.seg
    { m' t.seg with mType := MCB_LAST, mSize := ((m' t.seg).mSize + 1) % 0x10000 } with hm3
  have hag : ∀ c, c < root → m3 c = m0 c := by
    intro c hc
    rw [hm3, put_ne (by omega), hup.frame c (Or.inl hc)]
  have hrun' : umbInit a vars ramTop l.seg (u :: umbs) =
      some ({ a with mem := m3, uppermemRoot := root }, ⟨1, u.seg, u.seg, u.size⟩) := by
    have hroot' : (ramTop * 64 + 0x10000 - 1) % 0x10000 = root := by omega
    have hshort : (l.hdr.mSize + 0x10000 - 1) % 0x10000 = l.hdr.mSize - 1 := by omega
    have hgap : (u.seg + 0x20000 - root - 1) % 0x10000 = u.seg - root - 1 := by omega
    have hgap' : (u.seg - root - 1) % 0x10000 = u.seg - root - 1 := Nat.mod_eq_of_lt (by omega)
    have hu' : Apart root u [] := ⟨hsize, habove, hroom, nofun⟩
    unfold umbInit
    dsimp only
    rw [hml, hshort, hroot', hgap, mumcbInit, hgap', mcbInit_block _ hu', hrun]
    rfl
  have hbound := hlow.tiles.le
  refine ⟨_, _, bs, t.seg + t.size, hrun', ⟨hchain, ?_, ?_⟩, ?_⟩
  · rintro p ⟨v, hv, hlo, hhi⟩
    have hle := hhanded.below_top htmem hhigh v hv
    have hv := (hhanded.fits v hv).above
    have hroot' : root ≤ p := by omega
    have hend : p < t.seg + t.size := by omega
    obtain ⟨pre, c, post, rfl, hc⟩ := tile_at hchain.tiles hroot' hend
    exact ⟨c, by simp, hc⟩
  · intro c hc hcfree p hlo hhi
    obtain ⟨v, hv, hp⟩ := hfree c hc hcfree p hlo hhi
    exact ⟨v, (hmem v).mp hv, hp⟩
  · -- the last block below gets its `MCB_LAST` back, and the link takes it away
    have hold : m3 l.seg = b := by
      rw [hag _ (by omega), hm0, put_self]
    have hdone : configDone { a with mem := m3, uppermemRoot := root } ⟨1, u.seg, u.seg, u.size⟩
        l.seg =
          { a with mem := put m3 l.seg { b with mType := MCB_LAST }, uppermemRoot := root } := by
      unfold configDone
      rw [if_pos rfl]
      dsimp only
      rw [hold]
    have hlow' : Chain (put m3 l.seg { b with mType := MCB_LAST }) a.firstMcb
        (low ++ [⟨l.seg, { b with mType := MCB_LAST }⟩]) root := by
      refine ⟨tiles_append.mpr ⟨l.seg, hpre.congr fun c _ hc => ?_, rfl, put_self _ _ _, ?_⟩,
        ?_, ?_⟩
      · rw [put_ne (by omega), hag c (by omega), hm0, put_ne (by omega)]
      · change l.seg + 1 + (l.hdr.mSize - 1) = root
        omega
      · exact (ends_append (by simp)).mpr ⟨((ends_append (by simp)).mp hlow.ends).1, rfl⟩
      · intro c hc
        rcases List.mem_append.mp hc with hc | hc
        · exact hlow.sizes c (by simp [hc])
        · rw [List.mem_singleton.mp hc]
          change l.hdr.mSize - 1 ≠ 0xffff
          omega
    have hup' : Chain (put m3 l.seg { b with mType := MCB_LAST }) root bs (t.seg + t.size) :=
      ⟨hchain.tiles.congr fun c hc _ => put_ne (by omega) _, hchain.ends, hchain.sizes⟩
    have hmax : root < 0xffff := by omega
    obtain ⟨hlinked, -, hwhole⟩ := link_spec
      (a := { a with mem := put m3 l.seg { b with mType := MCB_LAST }, uppermemRoot := root })
      hmax hlink hlow' hup'
    rw [hdone]
    exact ⟨_, hlinked, hwhole⟩

/-! ## 7. Two blocks that touch -/

/-- 640 KiB of conventional memory in one block, and nothing above. -/
def plainRam : Arena where
  mem s := if s = 0x1000 then ⟨MCB_LAST, 8, 0x8fff⟩ else ⟨0, 0, 0⟩
  firstMcb := 0x1000
  uppermemLink := 0
  uppermemRoot := 0xffff
  memAccessMode := 0

theorem plainRam_chain :
    Chain plainRam.mem 0x1000 ([] ++ [⟨0x1000, ⟨MCB_LAST, 8, 0x8fff⟩⟩]) (640 * 64) :=
  ⟨⟨rfl, rfl, rfl⟩, rfl, by simp⟩

def noVars : UmbVars := ⟨2, 0, 0, 0⟩

/-- Three blocks with gaps between them: the middle one comes last. -/
theorem umb_init_three :
    ∃ a' vars' bs hi,
      umbInit plainRam noVars 640 0x1000 [⟨0xc800, 0x400⟩, ⟨0xe000, 0x1000⟩, ⟨0xd000, 0x100⟩] =
        some (a', vars') ∧
      UpperOk a'.mem a'.uppermemRoot [⟨0xc800, 0x400⟩, ⟨0xe000, 0x1000⟩, ⟨0xd000, 0x100⟩] bs hi ∧
      ∃ a'', dosUmbLink (configDone a' vars' 0x1000) 1 = some a'' ∧
        Chain a''.mem a''.firstMcb ([] ++ [⟨0x1000, ⟨MCB_NORMAL, 8, 0x8ffe⟩⟩] ++ bs) hi := by
  refine umb_init_chain plainRam noVars (by decide) plainRam_chain rfl (by decide) rfl
    ⟨?_, by decide⟩ ⟨?_, ?_, trivial⟩ ?_
  · intro u hu
    simp only [List.mem_cons, List.not_mem_nil, or_false] at hu
    rcases hu with rfl | rfl | rfl <;> exact ⟨by decide, by decide, by decide⟩
  · exact ⟨by decide, by decide, by decide⟩
  · exact ⟨by decide, by decide, by decide⟩
  · unfold TopAlone
    decide

def touching : List Umb := [⟨0xd000, 0x800⟩, ⟨0xd800, 0x400⟩]

/-- **Two blocks that touch**: the upper one is joined to the lower, and its old MCB gets the
`MCB_LAST`, so that the chain runs on behind upper memory. -/
theorem touching_runs_out :
    Handed 0x9fff touching ∧ ∃ a' vars', umbInit plainRam noVars 640 0x1000 touching =
      some (a', vars') ∧ ∀ bs hi, ¬ UpperOk a'.mem a'.uppermemRoot touching bs hi := by
  refine ⟨⟨?_, by decide⟩, ?_⟩
  · intro u hu
    simp only [touching, List.mem_cons, List.not_mem_nil, or_false] at hu
    rcases hu with rfl | rfl <;> exact ⟨by decide, by decide, by decide⟩
  have hrun : (umbInit plainRam noVars 640 0x1000 touching).map
      (fun r => (r.1.uppermemRoot, r.1.mem 0x9fff, r.1.mem 0xd000, r.1.mem 0xdbff)) =
        some (0x9fff, ⟨MCB_NORMAL, 8, 0x3000⟩, ⟨MCB_NORMAL, FREE_PSP, 0xbfe⟩, ⟨0, 0, 0⟩) := by
    decide +kernel
  obtain ⟨⟨a', vars'⟩, hr, heq⟩ := Option.map_eq_some_iff.mp hrun
  simp only [Prod.mk.injEq] at heq
  obtain ⟨hroot, h0, h1, h2⟩ := heq
  refine ⟨a', vars', hr, fun bs hi hok => ?_⟩
  have hchain := hok.chain
  rw [hroot] at hchain
  -- the walk goes from the root to the joined block, and from there to what is no MCB
  rcases bs with _ | ⟨b0, _ | ⟨b1, _ | ⟨b2, bs⟩⟩⟩
  · exact hchain.ends
  · obtain ⟨-, hb, -⟩ := hchain.tiles
    have hlast : b0.hdr.mType = MCB_LAST := hchain.ends
    rw [← hb, h0] at hlast
    cases hlast
  · obtain ⟨-, hb, -, hb1, -⟩ := hchain.tiles
    have hlast : b1.hdr.mType = MCB_LAST := hchain.ends.2
    rw [← hb1, ← hb, h0] at hlast
    change (a'.mem 0xd000).mType = MCB_LAST at hlast
    rw [h1] at hlast
    cases hlast
  · obtain ⟨-, hb, -, hb1, hseg, -⟩ := hchain.tiles
    have hvalid := hchain.valid (b := b2) (by simp)
    rw [hseg, ← hb1, ← hb, h0] at hvalid
    change (a'.mem (0xd000 + 1 + Mcb.mSize (a'.mem 0xd000))).valid = true at hvalid
    rw [h1] at hvalid
    change (a'.mem 0xdbff).valid = true at hvalid
    rw [h2] at hvalid
    cases hvalid

end SdcBoot.Memory
