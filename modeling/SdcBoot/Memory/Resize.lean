/-
# `DosMemChange` resizes in place

The block grows into the run of free blocks behind it, or is cut down, and what is left over becomes
one free block that takes in the run behind it (`change_in_place`).  Only a resize to the size the
block already has leaves the blocks behind it alone, be they one or several
(`same_size_leaves_two`): they are joined when somebody asks for memory.
-/
import SdcBoot.Memory.Runs

namespace SdcBoot.Memory

open Lib

/-! ## 1. Cutting down -/

variable {m : Nat → Mcb} {hi size : Nat} {pre rest : List Block} {x : Block} {a : Arena}

/-- **Cutting a block down** leaves one free block behind it, of all that is left over. -/
theorem shrinkBlock_all {lo : Nat} (hspan : Span lo hi) (h : Chain m lo (pre ++ x :: rest) hi)
    (hlt : size < x.hdr.mSize) :
    ∃ m' t, shrinkBlock m x.seg size = some (SUCCESS, m') ∧
      Chain m' lo (pre ++ ⟨x.seg, ⟨MCB_NORMAL, x.hdr.mPsp, size⟩⟩ ::
        ⟨x.seg + 1 + size, ⟨t, FREE_PSP, x.hdr.mSize + extra rest - size - 1⟩⟩ :: behind rest) hi := by
  obtain ⟨m1, hrun1, hsplit⟩ := shrinkBlock_split hspan h hlt
  obtain ⟨m', b, hrun, hch, hpsp, hsize⟩ := hsplit.joinAll hspan
  obtain ⟨t, psp, n⟩ := b
  simp only at hpsp hsize
  have hn : n = x.hdr.mSize + extra rest - size - 1 := by omega
  subst hpsp hn
  exact ⟨m', t, hrun1.trans hrun, by simpa using hch⟩

/-! ## 2. What is left over -/

/-- The one free block of what is left over, if anything is. -/
def leftOver (seg size t : Nat) : List Block :=
  if size = 0 then [] else [⟨seg, ⟨t, FREE_PSP, size - 1⟩⟩]

/-- The end of a resize: the block at `x` has more than is asked, or just that. -/
theorem resizeTo_exact (hspan : Span a.firstMcb hi) (h : Chain m a.firstMcb (pre ++ x :: rest) hi)
    (cuPsp : Nat) (hle : size ≤ x.hdr.mSize) :
    ∃ m' t left, resizeTo a m cuPsp x.seg size = some ((SUCCESS, none), { a with mem := m' }) ∧
      Chain m' a.firstMcb (pre ++ ⟨x.seg, ⟨t, cuPsp, size⟩⟩ :: left) hi ∧
      (size = x.hdr.mSize → left = rest) ∧
      (size ≠ x.hdr.mSize → ∃ t', left =
        leftOver (x.seg + 1 + size) (x.hdr.mSize + extra rest - size) t' ++ behind rest) := by
  have hmx : m x.seg = x.hdr := (h.tiles.mem_bounds x (by simp)).2.2
  unfold resizeTo
  rw [hmx]
  split
  · rename_i hlt
    obtain ⟨m1, t, hrun, hch⟩ := shrinkBlock_all hspan h hlt
    rw [hrun]
    have hset := hch.setPsp hspan cuPsp
    refine ⟨_, _, _, if_neg (by simp), hset, fun he => absurd he (by omega), fun _ => ⟨t, ?_⟩⟩
    rw [leftOver, if_neg (by omega)]
    rfl
  · have hsize : size = x.hdr.mSize := by omega
    have hset := h.setPsp hspan cuPsp
    rw [hmx] at hset
    refine ⟨_, x.hdr.mType, rest, rfl, ?_, fun _ => rfl, fun hne => absurd hsize hne⟩
    rw [hsize]
    exact hset

/-! ## 3. `DosMemChange` -/

/-- The segment a program names its block by. -/
def dataSeg (seg : Nat) : Nat := (seg + 1) % 0x10000

theorem dataSeg_back {seg : Nat} (h : seg < 0x10000) : (dataSeg seg + 0xffff) % 0x10000 = seg := by
  unfold dataSeg
  omega

theorem ahead_leftOver (seg size t : Nat) (rest : List Block) :
    (ahead (leftOver seg size t ++ behind rest)).length ≤ 1 := by
  have hnone : ∀ bs, HeadUsed bs → ahead bs = [] := by
    intro bs hbs
    cases bs with
    | nil => rfl
    | cons b bs => exact if_neg (by rw [show b.hdr.free = false from hbs]; simp)
  have hrest := hnone _ (headUsed_behind rest)
  unfold leftOver
  split
  · rw [List.nil_append, hrest]
    simp
  · rw [List.singleton_append, ahead, hrest]
    split
    · exact le_refl 1
    · exact Nat.zero_le 1

/-- What a successful resize of `x` to `size` paragraphs leaves, in front of `rest` before. -/
structure ResizedTo (x : Block) (rest : List Block) (cuPsp size : Nat) (y : Block) (left : List Block) :
    Prop where
  place : y.seg = x.seg
  exact : y.hdr.mSize = size
  owner : y.hdr.mPsp = cuPsp
  same : size = x.hdr.mSize → left = rest
  single : size ≠ x.hdr.mSize → ∃ t, left =
    leftOver (x.seg + 1 + size) (x.hdr.mSize + extra rest - size) t ++ behind rest

/-- **`DosMemChange` on a block and the free blocks behind it.** -/
theorem change_exact (a : Arena) (hi : Nat) (pre rest : List Block) (x : Block) (cuPsp size : Nat)
    (hspan : Span a.firstMcb hi) (hch : Chain a.mem a.firstMcb (pre ++ x :: rest) hi) :
    ∃ ans m', dosMemChange a cuPsp (dataSeg x.seg) size = some (ans, { a with mem := m' }) ∧
      (ans.1 = SUCCESS ↔ size ≤ x.hdr.mSize + extra rest) ∧
      (ans.1 = SUCCESS → ∃ y left, Chain m' a.firstMcb (pre ++ y :: left) hi ∧
        ResizedTo x rest cuPsp size y left) ∧
      (ans.1 ≠ SUCCESS → ans = (DE_NOMEM, some (x.hdr.mSize + extra rest)) ∧
        ∃ t, Chain m' a.firstMcb
          (pre ++ ⟨x.seg, ⟨t, x.hdr.mPsp, x.hdr.mSize + extra rest⟩⟩ :: behind rest) hi) := by
  obtain ⟨hlo, hend, hmx⟩ := hch.tiles.mem_bounds x (by simp)
  have hhi := hspan.1
  unfold dosMemChange
  simp only [dataSeg_back (show x.seg < 0x10000 by omega)]
  rw [if_neg (by simp [hch.valid (b := x) (by simp)]), hmx]
  have hno : DE_NOMEM ≠ SUCCESS := by decide
  by_cases hgrow : size > x.hdr.mSize
  · rw [if_pos hgrow]
    obtain ⟨m1, b, hrun, hch1, hpsp, hsize⟩ := hch.joinAll hspan
    have hm1 : m1 x.seg = b := (hch1.tiles.mem_bounds ⟨x.seg, b⟩ (by simp)).2.2
    simp only [hrun, hm1, ne_eq, not_true_eq_false, if_false]
    by_cases htoo : size > b.mSize
    · rw [if_pos htoo]
      refine ⟨_, m1, rfl, ⟨fun h => absurd h hno, fun h => ?_⟩, fun h => absurd h hno, fun _ =>
        ⟨by rw [hsize], b.mType, ?_⟩⟩
      · omega
      · rw [← hpsp, ← hsize]
        exact hch1
    · rw [if_neg htoo]
      obtain ⟨m', t, left, hres, hch', hsame, hleft⟩ :=
        resizeTo_exact hspan hch1 cuPsp (Nat.le_of_not_gt htoo)
      have hextra := (headUsed_behind rest).extra_eq
      refine ⟨_, m', hres, ⟨fun _ => by omega, fun _ => rfl⟩, fun _ => ⟨_, left, hch', rfl, rfl, rfl,
        fun h => absurd h (by omega), fun _ => ?_⟩, fun h => absurd rfl h⟩
      by_cases hall : size = b.mSize
      · refine ⟨0, ?_⟩
        rw [hsame hall, leftOver, if_pos (by omega)]
        rfl
      · obtain ⟨t', hl⟩ := hleft hall
        refine ⟨t', ?_⟩
        have hbb := (headUsed_behind rest).behind_eq
        simp only [hextra, hbb, hsize, add_zero] at hl
        exact hl
  · rw [if_neg hgrow]
    obtain ⟨m', t, left, hres, hch', hsame, hleft⟩ :=
      resizeTo_exact hspan hch cuPsp (Nat.le_of_not_gt hgrow)
    exact ⟨_, m', hres, ⟨fun _ => by omega, fun _ => rfl⟩,
      fun _ => ⟨_, left, hch', rfl, rfl, rfl, hsame, hleft⟩, fun h => absurd rfl h⟩

/-- `maxSize` is assigned only when there is not enough. -/
theorem change_success {a' : Arena} {cuPsp para : Nat} {maxSize : Option Nat}
    (h : dosMemChange a cuPsp para size = some ((SUCCESS, maxSize), a')) : maxSize = none := by
  unfold dosMemChange resizeTo at h
  grind [SUCCESS, DE_NOMEM, DE_MCBDESTRY]

/-- **`DosMemChange` resizes in place.**  The block at `x` grows into the free blocks behind it as
far as they go.  All that is left over is one free block, except when the size asked for is the
size it has: then what lies behind is not touched. -/
theorem change_in_place (a : Arena) (hi : Nat) (pre rest : List Block) (x : Block) (cuPsp size : Nat)
    (hspan : Span a.firstMcb hi) (hch : Chain a.mem a.firstMcb (pre ++ x :: rest) hi) :
    ∃ ans m', dosMemChange a cuPsp (dataSeg x.seg) size = some (ans, { a with mem := m' }) ∧
      (ans.1 = SUCCESS ↔ size ≤ x.hdr.mSize + extra rest) ∧
      (ans.1 = SUCCESS → ∃ y left, Chain m' a.firstMcb (pre ++ y :: left) hi ∧
        ResizedTo x rest cuPsp size y left ∧ (size ≠ x.hdr.mSize → (ahead left).length ≤ 1)) ∧
      (ans.1 ≠ SUCCESS → ans = (DE_NOMEM, some (x.hdr.mSize + extra rest)) ∧
        (∃ y, Chain m' a.firstMcb (pre ++ y :: behind rest) hi ∧ y.seg = x.seg ∧
          y.hdr.mSize = x.hdr.mSize + extra rest ∧ y.hdr.mPsp = x.hdr.mPsp) ∧
        ∀ cuPsp', ∃ a'', dosMemChange { a with mem := m' } cuPsp' (dataSeg x.seg)
          (x.hdr.mSize + extra rest) = some ((SUCCESS, none), a'')) ∧
      ∃ bs', Chain m' a.firstMcb bs' hi ∧ ∀ c ∈ pre ++ rest, c.hdr.free = false → c ∈ bs' := by
  obtain ⟨ans, m', hrun, hiff, hyes, hno⟩ := change_exact a hi pre rest x cuPsp size hspan hch
  refine ⟨ans, m', hrun, hiff, fun h => ?_, fun h => ?_, ?_⟩
  · obtain ⟨y, left, hch', hres⟩ := hyes h
    refine ⟨y, left, hch', hres, fun hne => ?_⟩
    obtain ⟨t, hleft⟩ := hres.single hne
    rw [hleft]
    exact ahead_leftOver _ _ t rest
  · obtain ⟨hans, t, hch'⟩ := hno h
    refine ⟨hans, ⟨_, hch', rfl, rfl, rfl⟩, fun cuPsp' => ?_⟩
    -- the second call finds the block with all it was told
    obtain ⟨ans', m'', hrun', hiff', -, -⟩ := change_exact { a with mem := m' } hi pre (behind rest) _
      cuPsp' (x.hdr.mSize + extra rest) hspan hch'
    have hok := hiff'.mpr (Nat.le_add_right _ _)
    obtain ⟨h1, h2⟩ := ans'
    obtain rfl : h1 = SUCCESS := hok
    exact ⟨_, hrun'.trans (by rw [change_success hrun'])⟩
  · by_cases h : ans.1 = SUCCESS
    · obtain ⟨y, left, hch', hres⟩ := hyes h
      refine ⟨_, hch', fun c hc hf => ?_⟩
      rcases List.mem_append.mp hc with hc | hc
      · exact List.mem_append_left _ hc
      · refine List.mem_append_right _ (.tail _ ?_)
        by_cases hsame : size = x.hdr.mSize
        · rw [hres.same hsame]
          exact hc
        · obtain ⟨t, hleft⟩ := hres.single hsame
          rw [hleft]
          exact List.mem_append_right _ (mem_behind hc hf)
    · obtain ⟨-, t, hch'⟩ := hno h
      refine ⟨_, hch', fun c hc hf => ?_⟩
      rcases List.mem_append.mp hc with hc | hc
      · exact List.mem_append_left _ hc
      · exact List.mem_append_right _ (.tail _ (mem_behind hc hf))

/-- A block of two paragraphs, and two free blocks of one paragraph behind it. -/
def twoBehind : Arena where
  mem s :=
    if s = 1 then ⟨MCB_NORMAL, 8, 2⟩
    else if s = 4 then ⟨MCB_NORMAL, FREE_PSP, 1⟩
    else if s = 6 then ⟨MCB_LAST, FREE_PSP, 1⟩
    else ⟨0, 0, 0⟩
  firstMcb := 1
  uppermemLink := 0
  uppermemRoot := 0xffff
  memAccessMode := 0

theorem twoBehind_chain : Chain twoBehind.mem 1
    [⟨1, ⟨MCB_NORMAL, 8, 2⟩⟩, ⟨4, ⟨MCB_NORMAL, FREE_PSP, 1⟩⟩, ⟨6, ⟨MCB_LAST, FREE_PSP, 1⟩⟩] 8 :=
  ⟨⟨rfl, rfl, rfl, rfl, rfl, rfl, rfl⟩, ⟨rfl, rfl, rfl⟩, by decide⟩

/-- Growing by one paragraph joins both and leaves one free block, of no paragraphs. -/
theorem twoBehind_grows : dataSeg 1 = 2 ∧ ∃ ans m',
    dosMemChange twoBehind 8 2 5 = some (ans, { twoBehind with mem := m' }) ∧
      (ans.1 = SUCCESS ↔ 5 ≤ 6) :=
  ⟨by decide, by
    obtain ⟨ans, m', h, hiff, -⟩ := change_in_place twoBehind 8 [] _ _ 8 5
      ⟨by decide, by decide⟩ twoBehind_chain
    exact ⟨ans, m', h, hiff⟩⟩

/-- **A resize to the size the block has leaves two free blocks behind it.** -/
theorem same_size_leaves_two :
    Chain twoBehind.mem 1 [⟨1, ⟨MCB_NORMAL, 8, 2⟩⟩, ⟨4, ⟨MCB_NORMAL, FREE_PSP, 1⟩⟩,
      ⟨6, ⟨MCB_LAST, FREE_PSP, 1⟩⟩] 8 ∧
    ∃ a', dosMemChange twoBehind 8 (dataSeg 1) 2 = some ((SUCCESS, none), a') ∧
      Chain a'.mem 1 [⟨1, ⟨MCB_NORMAL, 8, 2⟩⟩, ⟨4, ⟨MCB_NORMAL, FREE_PSP, 1⟩⟩,
        ⟨6, ⟨MCB_LAST, FREE_PSP, 1⟩⟩] 8 ∧
      (ahead [⟨4, ⟨MCB_NORMAL, FREE_PSP, 1⟩⟩, ⟨6, ⟨MCB_LAST, FREE_PSP, 1⟩⟩]).length = 2 :=
  ⟨twoBehind_chain, _, rfl, ⟨⟨rfl, rfl, rfl, rfl, rfl, rfl, rfl⟩, ⟨rfl, rfl, rfl⟩, by decide⟩, rfl⟩

end SdcBoot.Memory
