/-
# Memory that has to be there (`suremem.c`)

The defragger reserves an area for the blocks it cannot do without, and a table of handles for them.
A handle without a size is free.  New blocks are taken from the end of what is in use; only when there
is no room is the area crunched: the blocks are slid down in the order of their offsets, a locked one
stays where it is.

No order is kept anywhere.  Each round of the crunching looks for the next block through the whole
table, in which the round before has changed an offset.  That is right as the block that was slid
stays behind all those it has passed: what is still to be done is always what was, less this block
(`pending_next`), so the rounds end, and where nothing is locked the sizes add up.

The `unsigned`s never run over, as nothing reaches beyond the area (`Sound`), so they are `Nat`s.
-/
import Mathlib.Algebra.BigOperators.Group.Finset.Basic
import Mathlib.Algebra.Order.BigOperators.Group.Finset
import SdcBoot.Lib.Run

namespace SdcBoot.Defrag

open Finset Function

variable {α : Type}

/-! ## 1. The manager -/

structure GuaranteedHandle where
  locked : Bool
  offset : Nat
  size : Nat

/-- Where the block ends. -/
def GuaranteedHandle.stop (h : GuaranteedHandle) : Nat := h.offset + h.size

/-- The variables of the module, with the pointers as offsets from `GMemory`. -/
structure Guaranteed (α : Type) where
  gMemory : Nat → α
  gMemoryLength : Nat
  gHandles : Nat → GuaranteedHandle
  numHandles : Nat
  freeStart : Nat

namespace Guaranteed

/-- A handle in use. -/
def Live (s : Guaranteed α) (i : Nat) : Prop := i < s.numHandles ∧ 0 < (s.gHandles i).size

instance (s : Guaranteed α) (i : Nat) : Decidable (s.Live i) := inferInstanceAs (Decidable (_ ∧ _))

/-- AllocateGuaranteedMemory -/
def allocateGuaranteedMemory (memory : Nat → α) (guaranteed : UInt16) (guaranteedblocks : UInt8) :
    Guaranteed α :=
  ⟨memory, guaranteed.toNat, fun _ => ⟨false, 0, 0⟩, guaranteedblocks.toNat, 0⟩

/-- FindFreeHandle -/
def findFreeHandle (s : Guaranteed α) : Option Nat :=
  (List.range s.numHandles).find? fun i => (s.gHandles i).size = 0

/-- What both searches have found after `n` handles, with `smallest`. -/
def smallestOf (s : Guaranteed α) (ok : Nat → Bool) : Nat → Option Nat × Nat
  | 0 => (none, 0xFFFF) -- UINT_MAX
  | n + 1 =>
    let (pos, smallest) := s.smallestOf ok n
    if 0 < (s.gHandles n).size ∧ ok n ∧ (s.gHandles n).offset < smallest then
      (some n, (s.gHandles n).offset)
    else (pos, smallest)

/-- GetFirstHandle -/
def getFirstHandle (s : Guaranteed α) : Option Nat :=
  (s.smallestOf (fun _ => true) s.numHandles).1

/-- GetNextHandle -/
def getNextHandle (s : Guaranteed α) (handle : Nat) : Option Nat :=
  (s.smallestOf (fun i => (s.gHandles handle).offset ≤ (s.gHandles i).offset ∧ i ≠ handle)
    s.numHandles).1

def memmove (mem : Nat → α) (dest src n : Nat) : Nat → α :=
  fun i => if dest ≤ i ∧ i < dest + n then mem (src + (i - dest)) else mem i

/-- A block moved to `head`. -/
def slide (s : Guaranteed α) (handle head : Nat) : Guaranteed α :=
  { s with
    gMemory := memmove s.gMemory head (s.gHandles handle).offset (s.gHandles handle).size
    gHandles := Function.update s.gHandles handle { s.gHandles handle with offset := head } }

/-- A round of `CrunchMemory`, with the new `head`. -/
def crunchBlock (s : Guaranteed α) (handle head : Nat) : Guaranteed α × Nat :=
  let b := s.gHandles handle
  if b.locked = false then (if b.offset ≠ head then s.slide handle head else s, head + b.size)
  else (s, b.offset + b.size)

/-- The loop of `CrunchMemory`; `none` stands for one that does not end. -/
def crunchLoop : Nat → Guaranteed α → Option Nat → Nat → Option (Guaranteed α)
  | _, s, none, head => some { s with freeStart := head }
  | 0, _, some _, _ => none
  | fuel + 1, s, some handle, head =>
    let (s, head) := s.crunchBlock handle head
    crunchLoop fuel s (s.getNextHandle handle) head

/-- CrunchMemory -/
def crunchMemory (s : Guaranteed α) : Option (Guaranteed α) :=
  crunchLoop s.numHandles s s.getFirstHandle 0

/-- The end of `AllocateGuaranteedBlock`. -/
def place (s : Guaranteed α) (handle length : Nat) : Guaranteed α :=
  { s with
    gHandles := Function.update s.gHandles handle
      { s.gHandles handle with offset := s.freeStart, size := length }
    freeStart := s.freeStart + length }

/-- AllocateGuaranteedBlock -/
def allocateGuaranteedBlock (s : Guaranteed α) (length : Nat) : Option (Option Nat × Guaranteed α) :=
  match s.findFreeHandle with
  | none => some (none, s)
  | some handle =>
    if s.gMemoryLength - s.freeStart < length then do
      let s ← s.crunchMemory
      if s.gMemoryLength - s.freeStart < length then some (none, s)
      else some (some handle, s.place handle length)
    else some (some handle, s.place handle length)

/-- FreeGuaranteedBlock -/
def freeGuaranteedBlock (s : Guaranteed α) (handle : Nat) : Guaranteed α :=
  if (s.gHandles handle).locked = false then
    { s with gHandles := Function.update s.gHandles handle { s.gHandles handle with size := 0 } }
  else s

/-- LockGuaranteedBlock, with the pointer it returns. -/
def lockGuaranteedBlock (s : Guaranteed α) (handle : Nat) : Nat × Guaranteed α :=
  ((s.gHandles handle).offset,
    { s with gHandles :=
        Function.update s.gHandles handle { s.gHandles handle with locked := true } })

/-- UnlockGuaranteedBlock -/
def unlockGuaranteedBlock (s : Guaranteed α) (memory : Nat) : Guaranteed α :=
  { s with
    gHandles := fun i =>
      if i < s.numHandles ∧ 0 < (s.gHandles i).size ∧ (s.gHandles i).offset = memory then
        { s.gHandles i with locked := false }
      else s.gHandles i }

inductive Call where
  | allocate (length : Nat)
  | free (handle : Nat)
  | lock (handle : Nat)
  | unlock (memory : Nat)

/-- A call.  It is answered with the handle or the pointer, if there is one. -/
def step (s : Guaranteed α) : Call → Option Nat × Guaranteed α
  | .allocate length => (s.allocateGuaranteedBlock length).getD (none, s)
  | .free handle => (none, s.freeGuaranteedBlock handle)
  | .lock handle =>
    let (memory, s) := s.lockGuaranteedBlock handle
    (some memory, s)
  | .unlock memory => (none, s.unlockGuaranteedBlock memory)

/-! ## 2. What is promised -/

/-- The blocks lie in what is in use, and none over another. -/
structure Sound (s : Guaranteed α) : Prop where
  word : s.gMemoryLength ≤ 0xFFFF
  room : s.freeStart ≤ s.gMemoryLength
  inside : ∀ i, s.Live i → (s.gHandles i).stop ≤ s.freeStart
  apart : ∀ i j, s.Live i → s.Live j → i ≠ j →
    (s.gHandles i).stop ≤ (s.gHandles j).offset ∨ (s.gHandles j).stop ≤ (s.gHandles i).offset

/-- What crunching leaves as it was. -/
structure Kept (s s' : Guaranteed α) : Prop where
  length : s'.gMemoryLength = s.gMemoryLength
  count : s'.numHandles = s.numHandles
  size : ∀ i, (s'.gHandles i).size = (s.gHandles i).size
  locked : ∀ i, (s'.gHandles i).locked = (s.gHandles i).locked
  still : ∀ i, s.Live i → (s.gHandles i).locked = true →
    (s'.gHandles i).offset = (s.gHandles i).offset
  contents : ∀ i, s.Live i → ∀ k < (s.gHandles i).size,
    s'.gMemory ((s'.gHandles i).offset + k) = s.gMemory ((s.gHandles i).offset + k)
  order : ∀ i j, s.Live i → s.Live j → (s.gHandles i).offset < (s.gHandles j).offset →
    (s'.gHandles i).offset < (s'.gHandles j).offset

def NoneLocked (s : Guaranteed α) : Prop := ∀ i, s.Live i → (s.gHandles i).locked = false

/-- The sizes of the blocks; a free handle has none. -/
def taken (s : Guaranteed α) : Nat := ∑ i ∈ range s.numHandles, (s.gHandles i).size

/-- The blocks but that of `h`. -/
def without (s : Guaranteed α) (h : Nat) : Guaranteed α :=
  { s with gHandles := Function.update s.gHandles h ⟨false, 0, 0⟩ }

/-- **What an allocation does.**  With a handle, that was free and is now one of a block of the
length asked for, and the others are kept; without one, all are. -/
def Allocated (s : Guaranteed α) (length : Nat) : Option Nat → Guaranteed α → Prop
  | none, s' => Kept s s'
  | some h, s' => (h < s.numHandles ∧ (s.gHandles h).size = 0) ∧ (s'.gHandles h).size = length ∧
    (s'.gHandles h).locked = (s.gHandles h).locked ∧ Kept (s.without h) (s'.without h)

/-- Nothing has changed but the sizes and the locks, which are these now. -/
structure Marked (s s' : Guaranteed α) (size : Nat → Nat) (locked : Nat → Bool) : Prop where
  memory : s'.gMemory = s.gMemory
  length : s'.gMemoryLength = s.gMemoryLength
  count : s'.numHandles = s.numHandles
  freeStart : s'.freeStart = s.freeStart
  handles : ∀ i, s'.gHandles i = ⟨locked i, (s.gHandles i).offset, size i⟩

/-- **The promise of the manager**: the blocks are apart and inside, crunching ends and keeps them,
and so does an allocation, which without locked blocks only fails for want of a handle or of room.
Freeing takes an unlocked block away, locking answers where the block is, and unlocking takes its
lock from the block that lies there. -/
structure Promise (s : Guaranteed α) : Prop where
  inside : ∀ i, s.Live i → (s.gHandles i).stop ≤ s.gMemoryLength
  apart : ∀ i j, s.Live i → s.Live j → i ≠ j →
    (s.gHandles i).stop ≤ (s.gHandles j).offset ∨ (s.gHandles j).stop ≤ (s.gHandles i).offset
  crunch : ∃ s', s.crunchMemory = some s' ∧ Kept s s'
  allocate : ∀ length, ∃ handle s', s.allocateGuaranteedBlock length = some (handle, s') ∧
    s.Allocated length handle s' ∧ (s.NoneLocked → (handle.isSome ↔
      (∃ i < s.numHandles, (s.gHandles i).size = 0) ∧ s.taken + length ≤ s.gMemoryLength))
  free : ∀ h, s.Marked (s.freeGuaranteedBlock h)
    (fun i => if i = h ∧ (s.gHandles i).locked = false then 0 else (s.gHandles i).size)
    (fun i => (s.gHandles i).locked)
  lock : ∀ h, (s.lockGuaranteedBlock h).1 = (s.gHandles h).offset ∧
    s.Marked (s.lockGuaranteedBlock h).2 (fun i => (s.gHandles i).size)
      (fun i => i == h || (s.gHandles i).locked)
  unlock : ∀ memory, s.Marked (s.unlockGuaranteedBlock memory) (fun i => (s.gHandles i).size)
    (fun i => (s.gHandles i).locked && !decide (s.Live i ∧ (s.gHandles i).offset = memory))

/-! ## 3. The searches -/

section

variable {s s' : Guaranteed α} {h head : Nat}

/-- A search finds the handle of the smallest offset. -/
theorem smallestOf_spec (ok : Nat → Bool) (hword : ∀ i, s.Live i → (s.gHandles i).offset < 0xFFFF) :
    ∀ n ≤ s.numHandles,
      (s.smallestOf ok n = (none, 0xFFFF) ∧ ∀ i < n, s.Live i → ok i = false) ∨
      ∃ i < n, s.Live i ∧ ok i = true ∧ s.smallestOf ok n = (some i, (s.gHandles i).offset) ∧
        ∀ j < n, s.Live j → ok j = true → (s.gHandles i).offset ≤ (s.gHandles j).offset := by
  intro n
  induction n with
  | zero => exact fun _ => .inl ⟨rfl, fun i hi => absurd hi (Nat.not_lt_zero i)⟩
  | succ n ih =>
    intro hn
    have hlive : 0 < (s.gHandles n).size ↔ s.Live n := ⟨fun h => ⟨hn, h⟩, And.right⟩
    rw [smallestOf]
    rcases ih (by omega) with ⟨heq, hnone⟩ | ⟨i, hi, hil, hiok, heq, hmin⟩ <;>
      rw [heq] <;> dsimp only <;> split
    · rename_i hc
      refine .inr ⟨n, by omega, hlive.mp hc.1, hc.2.1, rfl, fun j hj hjl hjok => ?_⟩
      rcases Nat.lt_succ_iff_lt_or_eq.mp hj with hj | rfl
      · simp [hnone j hj hjl] at hjok
      · exact le_rfl
    · rename_i hc
      refine .inl ⟨rfl, fun j hj hjl => ?_⟩
      rcases Nat.lt_succ_iff_lt_or_eq.mp hj with hj | rfl
      · exact hnone j hj hjl
      · exact Bool.eq_false_iff.mpr fun hjok => hc ⟨hjl.2, hjok, hword j hjl⟩
    · rename_i hc
      refine .inr ⟨n, by omega, hlive.mp hc.1, hc.2.1, rfl, fun j hj hjl hjok => ?_⟩
      rcases Nat.lt_succ_iff_lt_or_eq.mp hj with hj | rfl
      · exact hc.2.2.le.trans (hmin j hj hjl hjok)
      · exact le_rfl
    · rename_i hc
      refine .inr ⟨i, by omega, hil, hiok, rfl, fun j hj hjl hjok => ?_⟩
      rcases Nat.lt_succ_iff_lt_or_eq.mp hj with hj | rfl
      · exact hmin j hj hjl hjok
      · exact Nat.le_of_not_lt fun hlt => hc ⟨hjl.2, hjok, hlt⟩

theorem Sound.offset_lt (hs : s.Sound) (i : Nat) (hi : s.Live i) : (s.gHandles i).offset < 0xFFFF := by
  have hin := hs.inside i hi
  have hroom := hs.room
  have hword := hs.word
  have hpos := hi.2
  rw [GuaranteedHandle.stop] at hin
  omega

/-- The blocks from `h` on. -/
def pending (s : Guaranteed α) (h : Nat) : Finset Nat :=
  {i ∈ range s.numHandles | 0 < (s.gHandles i).size ∧ (s.gHandles h).offset ≤ (s.gHandles i).offset}

variable {head' i j : Nat}

theorem mem_pending :
    i ∈ s.pending h ↔ s.Live i ∧ (s.gHandles h).offset ≤ (s.gHandles i).offset := by
  simp only [pending, Finset.mem_filter, Finset.mem_range, Live, and_assoc]

/-- Two blocks do not start at one place. -/
theorem Sound.eq_of_offset (hs : s.Sound) (hi : s.Live i) (hj : s.Live j)
    (heq : (s.gHandles i).offset = (s.gHandles j).offset) : i = j := by
  by_contra hne
  have hapart := hs.apart i j hi hj hne
  have hposi := hi.2
  have hposj := hj.2
  simp only [GuaranteedHandle.stop] at hapart
  omega

/-- What is not among the blocks behind another ends before it does. -/
theorem Sound.stop_le (hs : s.Sound) (hi : s.Live i) (hh : s.Live h)
    (hnot : i ∉ (s.pending h).erase h) : (s.gHandles i).stop ≤ (s.gHandles h).stop := by
  rcases eq_or_ne i h with rfl | hne
  · exact le_rfl
  · have hbefore : ¬ (s.gHandles h).offset ≤ (s.gHandles i).offset := fun hle =>
      hnot (Finset.mem_erase.mpr ⟨hne, mem_pending.mpr ⟨hi, hle⟩⟩)
    have hapart := hs.apart i h hi hh hne
    simp only [GuaranteedHandle.stop] at hapart ⊢
    omega

/-- **The next handle** is that of the next block, whose successors are the rest. -/
theorem getNextHandle_spec (hs : s.Sound) (hh : s.Live h) :
    (s.getNextHandle h = none ∧ (s.pending h).erase h = ∅) ∨
    ∃ j, s.getNextHandle h = some j ∧ s.Live j ∧ (s.gHandles h).stop ≤ (s.gHandles j).offset ∧
      s.pending j = (s.pending h).erase h := by
  have hmem : ∀ i, i ∈ (s.pending h).erase h ↔ s.Live i ∧
      decide ((s.gHandles h).offset ≤ (s.gHandles i).offset ∧ i ≠ h) = true := by
    intro i
    rw [Finset.mem_erase, mem_pending, decide_eq_true_iff]
    tauto
  rcases smallestOf_spec (fun i => (s.gHandles h).offset ≤ (s.gHandles i).offset ∧ i ≠ h)
      hs.offset_lt _ le_rfl with ⟨heq, hnone⟩ | ⟨j, -, hj, hjok, heq, hmin⟩
  · refine .inl ⟨by rw [getNextHandle, heq], Finset.eq_empty_of_forall_notMem fun i hi => ?_⟩
    obtain ⟨hil, hok⟩ := (hmem i).mp hi
    rw [hnone i hil.1 hil] at hok
    exact Bool.false_ne_true hok
  · obtain ⟨hle, hne⟩ := of_decide_eq_true hjok
    refine .inr ⟨j, by rw [getNextHandle, heq], hj, ?_, ?_⟩
    · have hapart := hs.apart h j hh hj hne.symm
      have hpos := hj.2
      simp only [GuaranteedHandle.stop] at hapart ⊢
      omega
    · ext i
      rw [hmem, mem_pending, decide_eq_true_iff]
      refine and_congr_right fun hi => ⟨fun hij => ⟨hle.trans hij, ?_⟩, fun hok => ?_⟩
      · rintro rfl
        exact hne (hs.eq_of_offset hj hh (le_antisymm hij hle))
      · exact hmin i hi.1 hi (decide_eq_true hok)

/-! ## 4. Crunching -/

/-- Where the crunching stands: nothing lies between `head` and the block it comes to. -/
structure At (s : Guaranteed α) (h head : Nat) : Prop where
  live : s.Live h
  behind : head ≤ (s.gHandles h).offset
  gap : ∀ i, s.Live i → i ≠ h →
    (s.gHandles i).stop ≤ head ∨ (s.gHandles h).offset < (s.gHandles i).offset

/-- What a round does. -/
structure Crunched (s : Guaranteed α) (h head : Nat) (s' : Guaranteed α) (head' : Nat) : Prop where
  kept : Kept s s'
  others : ∀ i, i ≠ h → s'.gHandles i = s.gHandles i
  behind : head ≤ (s'.gHandles h).offset
  back : (s'.gHandles h).offset ≤ (s.gHandles h).offset
  freeStart : s'.freeStart = s.freeStart
  stop : head' = (s'.gHandles h).stop
  unlocked : (s.gHandles h).locked = false → head' = head + (s.gHandles h).size

theorem Kept.live_iff (hk : Kept s s') (i : Nat) : s'.Live i ↔ s.Live i := by
  rw [Live, Live, hk.count, hk.size]

theorem Kept.refl (s : Guaranteed α) : Kept s s :=
  ⟨rfl, rfl, fun _ => rfl, fun _ => rfl, fun _ _ _ => rfl, fun _ _ _ _ => rfl, fun _ _ _ _ h => h⟩

theorem Kept.trans {t : Guaranteed α} (h : Kept s t) (h' : Kept t s') : Kept s s' where
  length := h'.length.trans h.length
  count := h'.count.trans h.count
  size i := (h'.size i).trans (h.size i)
  locked i := (h'.locked i).trans (h.locked i)
  still i hi hl :=
    (h'.still i ((h.live_iff i).mpr hi) ((h.locked i).trans hl)).trans (h.still i hi hl)
  contents i hi k hk :=
    (h'.contents i ((h.live_iff i).mpr hi) k (by rwa [h.size])).trans (h.contents i hi k hk)
  order i j hi hj hlt :=
    h'.order i j ((h.live_iff i).mpr hi) ((h.live_iff j).mpr hj) (h.order i j hi hj hlt)

@[simp] theorem slide_self :
    (s.slide h head).gHandles h = { s.gHandles h with offset := head } :=
  update_self ..

theorem slide_of_ne (hne : i ≠ h) : (s.slide h head).gHandles i = s.gHandles i :=
  update_of_ne hne ..

theorem slide_gMemory : (s.slide h head).gMemory =
    memmove s.gMemory head (s.gHandles h).offset (s.gHandles h).size := rfl

theorem kept_slide (hs : s.Sound) (hat : s.At h head) (hfree : (s.gHandles h).locked = false) :
    Kept s (s.slide h head) := by
  have hbehind := hat.behind
  refine ⟨rfl, rfl, fun i => ?_, fun i => ?_, fun i hi hl => ?_, fun i hi k hk => ?_,
    fun i j hi hj hlt => ?_⟩
  · rcases eq_or_ne i h with rfl | hne
    · rw [slide_self]
    · rw [slide_of_ne hne]
  · rcases eq_or_ne i h with rfl | hne
    · rw [slide_self]
    · rw [slide_of_ne hne]
  · rcases eq_or_ne i h with rfl | hne
    · rw [hfree] at hl
      cases hl
    · rw [slide_of_ne hne]
  · rcases eq_or_ne i h with rfl | hne
    · rw [slide_self, slide_gMemory, memmove, if_pos (by dsimp only; omega),
        Nat.add_sub_cancel_left]
    · have hgap := hat.gap i hi hne
      have hapart := hs.apart i h hi hat.live hne
      simp only [GuaranteedHandle.stop] at hgap hapart
      rw [slide_of_ne hne, slide_gMemory, memmove, if_neg (by omega)]
  · rcases eq_or_ne i h with rfl | hi' <;> rcases eq_or_ne j i with rfl | hij
    · exact absurd hlt (lt_irrefl _)
    · rw [slide_self, slide_of_ne hij]
      exact hbehind.trans_lt hlt
    · exact absurd hlt (lt_irrefl _)
    · rw [slide_of_ne hi']
      rcases eq_or_ne j h with rfl | hj'
      · have hgap := hat.gap i hi hi'
        have hposi := hi.2
        simp only [GuaranteedHandle.stop] at hgap
        rw [slide_self]
        dsimp only
        omega
      · rwa [slide_of_ne hj']

/-- **A round of the crunching.** -/
theorem crunchBlock_spec (hs : s.Sound) (hat : s.At h head) :
    Crunched s h head (s.crunchBlock h head).1 (s.crunchBlock h head).2 := by
  unfold crunchBlock
  by_cases hfree : (s.gHandles h).locked = false
  · rw [if_pos hfree]
    by_cases hmove : (s.gHandles h).offset ≠ head
    · rw [if_pos hmove]
      refine ⟨kept_slide hs hat hfree, fun i hi => slide_of_ne hi, ?_, ?_, rfl, ?_, fun _ => rfl⟩
      · rw [slide_self]
      · rw [slide_self]
        exact hat.behind
      · rw [slide_self]
        rfl
    · have heq : (s.gHandles h).offset = head := not_ne_iff.mp hmove
      rw [if_neg hmove]
      refine ⟨Kept.refl s, fun _ _ => rfl, heq.ge, le_rfl, rfl, ?_, fun _ => rfl⟩
      rw [GuaranteedHandle.stop, heq]
  · rw [if_neg hfree]
    exact ⟨Kept.refl s, fun _ _ => rfl, hat.behind, le_rfl, rfl, rfl, fun h => absurd h hfree⟩

section

variable (hc : Crunched s h head s' head')
include hc

theorem Crunched.sound (hs : s.Sound) (hat : s.At h head) : s'.Sound := by
  have hsize := hc.kept.size h
  have hback := hc.back
  have hbehind := hc.behind
  -- the block that was slid, and another
  have hslid : ∀ i, s.Live i → i ≠ h →
      (s.gHandles i).stop ≤ (s'.gHandles h).offset ∨ (s'.gHandles h).stop ≤ (s.gHandles i).offset := by
    intro i hi hne
    have hgap := hat.gap i hi hne
    have hapart := hs.apart i h hi hat.live hne
    simp only [GuaranteedHandle.stop] at hgap hapart ⊢
    omega
  refine ⟨hc.kept.length ▸ hs.word, by rw [hc.freeStart, hc.kept.length]; exact hs.room,
    fun i hi => ?_, fun i j hi hj hne => ?_⟩
  · have hin := hs.inside i ((hc.kept.live_iff i).mp hi)
    rw [hc.freeStart]
    rcases eq_or_ne i h with rfl | hne
    · rw [GuaranteedHandle.stop] at hin ⊢
      omega
    · rwa [hc.others i hne]
  · have hi := (hc.kept.live_iff i).mp hi
    have hj := (hc.kept.live_iff j).mp hj
    rcases eq_or_ne i h with rfl | hi'
    · rw [hc.others j hne.symm]
      exact (hslid j hj hne.symm).symm
    · rw [hc.others i hi']
      rcases eq_or_ne j h with rfl | hj'
      · exact hslid i hi hi'
      · rw [hc.others j hj']
        exact hs.apart i j hi hj hne

/-- **What is still to be done** is what was, less the block of the round. -/
theorem pending_next (hat : s.At h head) :
    (s'.pending h).erase h = (s.pending h).erase h := by
  ext i
  rw [Finset.mem_erase, Finset.mem_erase, mem_pending, mem_pending, hc.kept.live_iff]
  refine and_congr_right fun hne => and_congr_right fun hi => ?_
  rw [hc.others i hne]
  refine ⟨fun hle => ?_, hc.back.trans⟩
  rcases hat.gap i hi hne with hgap | hgap
  · have hpos := hi.2
    have hbehind := hc.behind
    rw [GuaranteedHandle.stop] at hgap
    omega
  · exact hgap.le

theorem Crunched.at_next (hs' : s'.Sound) (hat : s.At h head)
    (hj : s'.Live j) (hstop : (s'.gHandles h).stop ≤ (s'.gHandles j).offset)
    (hpending : s'.pending j = (s'.pending h).erase h) : s'.At j head' := by
  refine ⟨hj, hc.stop ▸ hstop, fun i hi hne => ?_⟩
  rw [hc.stop]
  have hh : s'.Live h := (hc.kept.live_iff h).mpr hat.live
  by_cases hle : (s'.gHandles j).offset ≤ (s'.gHandles i).offset
  · exact .inr (lt_of_le_of_ne hle fun heq => hne (hs'.eq_of_offset hj hi heq).symm)
  · refine .inl (hs'.stop_le hi hh fun hmem => hle ?_)
    rw [← hpending] at hmem
    exact (mem_pending.mp hmem).2

end

/-- What the crunching comes to, from a block on. -/
theorem crunchLoop_spec : ∀ (fuel : Nat) (s : Guaranteed α) (h head : Nat), s.Sound → s.At h head →
    (s.pending h).card ≤ fuel → ∃ s', crunchLoop fuel s (some h) head = some s' ∧ s'.Sound ∧
      Kept s s' ∧ s'.freeStart ≤ s.freeStart ∧ (s.NoneLocked →
        s'.freeStart = head + ∑ i ∈ s.pending h, (s.gHandles i).size) := by
  intro fuel
  induction fuel with
  | zero =>
    intro s h head _ hat hcard
    have hmem : h ∈ s.pending h := mem_pending.mpr ⟨hat.live, le_rfl⟩
    rw [Finset.card_eq_zero.mp (Nat.le_zero.mp hcard)] at hmem
    exact absurd hmem (Finset.notMem_empty h)
  | succ fuel ih =>
    intro s h head hs hat hcard
    have hc := crunchBlock_spec hs hat
    rw [crunchLoop]
    generalize s.crunchBlock h head = r at hc ⊢
    obtain ⟨t, head'⟩ := r
    dsimp only at hc ⊢
    have ht := hc.sound hs hat
    have hmem : h ∈ s.pending h := mem_pending.mpr ⟨hat.live, le_rfl⟩
    have hsum := Finset.add_sum_erase _ (fun i => (s.gHandles i).size) hmem
    have hrest := pending_next hc hat
    have hunlocked : s.NoneLocked → head' = head + (s.gHandles h).size :=
      fun hn => hc.unlocked (hn h hat.live)
    have hh : t.Live h := (hc.kept.live_iff h).mpr hat.live
    rcases getNextHandle_spec ht hh with
      ⟨hnone, hempty⟩ | ⟨j, hnext, hj, hstop, hpending⟩
    · rw [hnone, crunchLoop]
      have hin := ht.inside h hh
      rw [← hc.stop] at hin
      refine ⟨_, rfl, ⟨ht.word, hin.trans ht.room, fun i hi => ?_, ht.apart⟩, ?_,
        hc.freeStart ▸ hin, fun hn => ?_⟩
      · rw [hc.stop]
        exact ht.stop_le hi hh (hempty ▸ Finset.notMem_empty i)
      · exact ⟨hc.kept.length, hc.kept.count, hc.kept.size, hc.kept.locked, hc.kept.still,
          hc.kept.contents, hc.kept.order⟩
      · rw [hrest] at hempty
        rw [hempty] at hsum
        simp only [Finset.sum_empty, add_zero] at hsum
        rw [hunlocked hn, ← hsum]
    · have hcard' : (t.pending j).card ≤ fuel := by
        rw [hpending, hrest, Finset.card_erase_of_mem hmem]
        omega
      obtain ⟨s', hrun, hs', hkept, hback, hfree⟩ :=
        ih t j head' ht (hc.at_next ht hat hj hstop hpending) hcard'
      rw [hnext]
      refine ⟨s', hrun, hs', hc.kept.trans hkept, hc.freeStart ▸ hback, fun hn => ?_⟩
      have hn' : t.NoneLocked := fun i hi => by
        rw [hc.kept.locked]
        exact hn i ((hc.kept.live_iff i).mp hi)
      rw [hfree hn', hunlocked hn, ← hsum, hpending, hrest]
      simp only [hc.kept.size]
      omega

/-- **Crunching** ends, keeps the blocks, and without locked ones leaves nothing between them. -/
theorem crunchMemory_spec (hs : s.Sound) : ∃ s', s.crunchMemory = some s' ∧ s'.Sound ∧ Kept s s' ∧
    s'.freeStart ≤ s.freeStart ∧ (s.NoneLocked → s'.freeStart = s.taken) := by
  unfold crunchMemory getFirstHandle
  rcases smallestOf_spec (fun _ => true) hs.offset_lt _ le_rfl with
    ⟨heq, hnone⟩ | ⟨h, -, hh, -, heq, hmin⟩
  · rw [heq, crunchLoop]
    have hdead : ∀ i, ¬ s.Live i := fun i hi => Bool.noConfusion (hnone i hi.1 hi)
    have htaken : s.taken = 0 := Finset.sum_eq_zero fun i hi =>
      Nat.eq_zero_of_not_pos fun hpos => hdead i ⟨Finset.mem_range.mp hi, hpos⟩
    exact ⟨_, rfl, ⟨hs.word, Nat.zero_le _, fun i hi => absurd hi (hdead i), hs.apart⟩,
      ⟨rfl, rfl, fun _ => rfl, fun _ => rfl, fun _ _ _ => rfl, fun _ _ _ _ => rfl, fun _ _ _ _ h => h⟩,
      Nat.zero_le _, fun _ => htaken.symm⟩
  · have hat : s.At h 0 := by
      refine ⟨hh, Nat.zero_le _, fun i hi hne => .inr ?_⟩
      exact lt_of_le_of_ne (hmin i hi.1 hi rfl) fun heq => hne (hs.eq_of_offset hh hi heq).symm
    have hcard : (s.pending h).card ≤ s.numHandles :=
      (Finset.card_filter_le _ _).trans_eq (Finset.card_range _)
    have hsum : ∑ i ∈ s.pending h, (s.gHandles i).size = s.taken := by
      refine Finset.sum_subset (Finset.filter_subset _ _) fun i hi hnot => ?_
      by_contra hsize
      have hil : s.Live i := ⟨Finset.mem_range.mp hi, pos_of_ne_zero hsize⟩
      exact hnot (mem_pending.mpr ⟨hil, hmin i hil.1 hil rfl⟩)
    rw [heq]
    simpa only [hsum, zero_add] using crunchLoop_spec _ s h 0 hs hat hcard

/-! ## 5. The calls -/

theorem findFreeHandle_spec (s : Guaranteed α) :
    (s.findFreeHandle = none ∧ ¬ ∃ i < s.numHandles, (s.gHandles i).size = 0) ∨
    ∃ h < s.numHandles, (s.gHandles h).size = 0 ∧ s.findFreeHandle = some h := by
  cases hfind : s.findFreeHandle with
  | none =>
    refine .inl ⟨rfl, fun ⟨i, hi, hsize⟩ => ?_⟩
    simpa [hsize] using List.find?_eq_none.mp hfind i (List.mem_range.mpr hi)
  | some h =>
    have hsize := List.find?_some (p := fun i => decide ((s.gHandles i).size = 0)) hfind
    exact .inr ⟨h, List.mem_range.mp (List.mem_of_find?_eq_some hfind), of_decide_eq_true hsize,
      rfl⟩

theorem Sound.place (hs : s.Sound) (hfree : (s.gHandles h).size = 0) {length : Nat}
    (hroom : s.freeStart + length ≤ s.gMemoryLength) : (s.place h length).Sound := by
  have hself : (s.place h length).gHandles h =
      { s.gHandles h with offset := s.freeStart, size := length } := update_self ..
  have hother : ∀ i, i ≠ h → (s.place h length).gHandles i = s.gHandles i :=
    fun i hne => update_of_ne hne ..
  have hlive : ∀ i, i ≠ h → (s.place h length).Live i → s.Live i := fun i hne hi =>
    ⟨hi.1, hother i hne ▸ hi.2⟩
  have hbelow : ∀ i, i ≠ h → (s.place h length).Live i →
      ((s.place h length).gHandles i).stop ≤ s.freeStart := fun i hne hi => by
    rw [hother i hne]
    exact hs.inside i (hlive i hne hi)
  refine ⟨hs.word, hroom, fun i hi => ?_, fun i j hi hj hne => ?_⟩
  · rcases eq_or_ne i h with rfl | hne
    · rw [hself]
      exact le_rfl
    · exact (hbelow i hne hi).trans (Nat.le_add_right _ _)
  · rcases eq_or_ne i h with rfl | hi'
    · refine .inr ((hbelow j hne.symm hj).trans_eq ?_)
      rw [hself]
    · rcases eq_or_ne j h with rfl | hj'
      · refine .inl ((hbelow i hi' hi).trans_eq ?_)
        rw [hself]
      · have hapart := hs.apart i j (hlive i hi' hi) (hlive j hj' hj) hne
        rwa [hother i hi', hother j hj']

/-- What is kept is kept without one of the blocks. -/
theorem Kept.without (hk : Kept s s') (h : Nat) : Kept (s.without h) (s'.without h) := by
  have hself : ∀ t : Guaranteed α, (t.without h).gHandles h = ⟨false, 0, 0⟩ :=
    fun t => update_self ..
  have hother : ∀ (t : Guaranteed α) (i : Nat), i ≠ h → (t.without h).gHandles i = t.gHandles i :=
    fun t i hne => update_of_ne hne ..
  have hlive : ∀ i, (s.without h).Live i → i ≠ h ∧ s.Live i := by
    intro i hi
    have hne : i ≠ h := by
      rintro rfl
      have hpos := hi.2
      rw [hself] at hpos
      exact lt_irrefl 0 hpos
    exact ⟨hne, hi.1, hother s i hne ▸ hi.2⟩
  refine ⟨hk.length, hk.count, fun i => ?_, fun i => ?_, fun i hi hl => ?_, fun i hi k hlt => ?_,
    fun i j hi hj hlt => ?_⟩
  · rcases eq_or_ne i h with rfl | hne
    · rw [hself, hself]
    · rw [hother _ i hne, hother _ i hne, hk.size]
  · rcases eq_or_ne i h with rfl | hne
    · rw [hself, hself]
    · rw [hother _ i hne, hother _ i hne, hk.locked]
  · obtain ⟨hne, hil⟩ := hlive i hi
    rw [hother _ i hne] at hl ⊢
    rw [hother _ i hne, hk.still i hil hl]
  · obtain ⟨hne, hil⟩ := hlive i hi
    rw [hother _ i hne] at hlt ⊢
    rw [hother _ i hne]
    exact hk.contents i hil k hlt
  · obtain ⟨hi', hil⟩ := hlive i hi
    obtain ⟨hj', hjl⟩ := hlive j hj
    rw [hother _ i hi', hother _ j hj'] at hlt ⊢
    exact hk.order i j hil hjl hlt

/-- A block placed where the others are kept. -/
theorem Kept.allocated (hk : Kept s s') (hh : h < s.numHandles) (hfree : (s.gHandles h).size = 0)
    (length : Nat) : s.Allocated length (some h) (s'.place h length) := by
  have hself : (s'.place h length).gHandles h =
      { s'.gHandles h with offset := s'.freeStart, size := length } := update_self ..
  have hk' := hk.without h
  have hwithout : ((s'.place h length).without h).gHandles = (s'.without h).gHandles :=
    update_idem ..
  refine ⟨⟨hh, hfree⟩, by rw [hself], by rw [hself, ← hk.locked], hk'.length, hk'.count,
    hwithout ▸ hk'.size, hwithout ▸ hk'.locked, hwithout ▸ hk'.still, ?_, hwithout ▸ hk'.order⟩
  rw [hwithout]
  exact hk'.contents

theorem allocateGuaranteedBlock_spec (hs : s.Sound) (length : Nat) :
    ∃ handle s', s.allocateGuaranteedBlock length = some (handle, s') ∧ s'.Sound ∧
      s.Allocated length handle s' ∧ (s.NoneLocked → (handle.isSome ↔
        (∃ i < s.numHandles, (s.gHandles i).size = 0) ∧ s.taken + length ≤ s.gMemoryLength)) := by
  obtain ⟨t, hcrunch, ht, hkept, hback, htaken⟩ := crunchMemory_spec hs
  have hlength := hkept.length
  unfold allocateGuaranteedBlock
  rcases s.findFreeHandle_spec with ⟨heq, hnone⟩ | ⟨h, hh, hfree, heq⟩ <;> rw [heq] <;> dsimp only
  · exact ⟨none, s, rfl, hs, Kept.refl s, fun _ => iff_of_false (by simp) fun hc => hnone hc.1⟩
  · have hroom := hs.room
    split
    · rw [hcrunch]
      rw [Option.bind_eq_bind, Option.bind_some]
      split
      · refine ⟨none, t, rfl, ht, hkept, fun hn => iff_of_false (by simp) fun hc => ?_⟩
        have hsum := htaken hn
        omega
      · refine ⟨some h, _, rfl, ht.place ((hkept.size h).trans hfree) (by omega),
          hkept.allocated hh hfree length, fun hn => ?_⟩
        have hsum := htaken hn
        exact iff_of_true rfl ⟨⟨h, hh, hfree⟩, by omega⟩
    · refine ⟨some h, _, rfl, hs.place hfree (by omega), (Kept.refl s).allocated hh hfree length,
        fun hn => ?_⟩
      have hsum := htaken hn
      exact iff_of_true rfl ⟨⟨h, hh, hfree⟩, by omega⟩

/-- Blocks may go, and locks change. -/
theorem Sound.fewer (hs : s.Sound) {handles : Nat → GuaranteedHandle}
    (h : ∀ i, 0 < (handles i).size → (handles i).offset = (s.gHandles i).offset ∧
      (handles i).size = (s.gHandles i).size) : Sound { s with gHandles := handles } := by
  have hlive : ∀ i, Live { s with gHandles := handles } i → s.Live i ∧
      (handles i).offset = (s.gHandles i).offset ∧ (handles i).stop = (s.gHandles i).stop := by
    intro i hi
    obtain ⟨hoff, hsize⟩ := h i hi.2
    exact ⟨⟨hi.1, hsize ▸ hi.2⟩, hoff, by rw [GuaranteedHandle.stop, hoff, hsize]; rfl⟩
  refine ⟨hs.word, hs.room, fun i hi => ?_, fun i j hi hj hne => ?_⟩
  · obtain ⟨hil, -, hstop⟩ := hlive i hi
    exact hstop ▸ hs.inside i hil
  · obtain ⟨hil, hoffi, hstopi⟩ := hlive i hi
    obtain ⟨hjl, hoffj, hstopj⟩ := hlive j hj
    rw [hoffi, hstopi, hoffj, hstopj]
    exact hs.apart i j hil hjl hne

theorem free_marked (s : Guaranteed α) (h : Nat) : s.Marked (s.freeGuaranteedBlock h)
    (fun i => if i = h ∧ (s.gHandles i).locked = false then 0 else (s.gHandles i).size)
    (fun i => (s.gHandles i).locked) := by
  unfold freeGuaranteedBlock
  split
  · rename_i hfree
    refine ⟨rfl, rfl, rfl, rfl, fun i => ?_⟩
    rcases eq_or_ne i h with rfl | hne
    · rw [if_pos ⟨rfl, hfree⟩]
      exact update_self ..
    · rw [if_neg fun hi => hne hi.1]
      exact update_of_ne hne ..
  · rename_i hlocked
    refine ⟨rfl, rfl, rfl, rfl, fun i => ?_⟩
    rw [if_neg]
    rintro ⟨rfl, hfree⟩
    exact hlocked hfree

theorem lock_marked (s : Guaranteed α) (h : Nat) :
    s.Marked (s.lockGuaranteedBlock h).2 (fun i => (s.gHandles i).size)
      (fun i => i == h || (s.gHandles i).locked) := by
  refine ⟨rfl, rfl, rfl, rfl, fun i => ?_⟩
  rcases eq_or_ne i h with rfl | hne
  · rw [beq_self_eq_true]
    exact update_self ..
  · rw [beq_eq_false_iff_ne.mpr hne]
    exact update_of_ne hne ..

theorem unlock_marked (s : Guaranteed α) (memory : Nat) :
    s.Marked (s.unlockGuaranteedBlock memory) (fun i => (s.gHandles i).size)
      (fun i => (s.gHandles i).locked &&
        !decide (s.Live i ∧ (s.gHandles i).offset = memory)) := by
  refine ⟨rfl, rfl, rfl, rfl, fun i => ?_⟩
  rw [unlockGuaranteedBlock]
  dsimp only
  by_cases hthere : s.Live i ∧ (s.gHandles i).offset = memory
  · rw [if_pos ⟨hthere.1.1, hthere.1.2, hthere.2⟩, decide_eq_true hthere]
    simp
  · rw [if_neg fun h => hthere ⟨⟨h.1, h.2.1⟩, h.2.2⟩, decide_eq_false hthere]
    simp

/-- **Every call** keeps the blocks apart. -/
theorem Sound.step (hs : s.Sound) (c : Call) : (s.step c).2.Sound := by
  cases c with
  | allocate length =>
    obtain ⟨handle, s', heq, hs', -⟩ := allocateGuaranteedBlock_spec hs length
    rw [Guaranteed.step, heq]
    exact hs'
  | free handle =>
    rw [Guaranteed.step, freeGuaranteedBlock]
    split
    · refine hs.fewer fun i hi => ?_
      rcases eq_or_ne i handle with rfl | hne
      · simp at hi
      · simp [update_of_ne hne]
    · exact hs
  | lock handle =>
    refine hs.fewer fun i _ => ?_
    rcases eq_or_ne i handle with rfl | hne
    · simp
    · simp [update_of_ne hne]
  | unlock memory =>
    refine hs.fewer fun i _ => ?_
    split <;> exact ⟨rfl, rfl⟩

/-- **The promise is kept**, whatever has been allocated, freed, locked and unlocked. -/
theorem promise_along_run (memory : Nat → α) (guaranteed : UInt16) (guaranteedblocks : UInt8)
    (calls : List Call) :
    Promise (Lib.run step (allocateGuaranteedMemory memory guaranteed guaranteedblocks) calls) := by
  have hstart : (allocateGuaranteedMemory memory guaranteed guaranteedblocks).Sound := by
    have hdead : ∀ i, ¬ (allocateGuaranteedMemory memory guaranteed guaranteedblocks).Live i :=
      fun _ hi => lt_irrefl 0 hi.2
    exact ⟨Nat.le_of_lt_succ guaranteed.toNat_lt, Nat.zero_le _, fun i hi => absurd hi (hdead i),
      fun i _ hi _ _ => absurd hi (hdead i)⟩
  have hs := Lib.Guarded.run_invariant (I := Sound) (fun s c hs (_ : True) => hs.step c) calls _
    hstart (Lib.guarded_of_forall (fun _ _ => trivial) calls _)
  obtain ⟨s', hcrunch, -, hkept, -⟩ := crunchMemory_spec hs
  refine ⟨fun i hi => (hs.inside i hi).trans hs.room, hs.apart, ⟨s', hcrunch, hkept⟩,
    fun length => ?_, free_marked _, fun h => ⟨rfl, lock_marked _ h⟩, unlock_marked _⟩
  obtain ⟨handle, s', heq, -, hdone⟩ := allocateGuaranteedBlock_spec hs length
  exact ⟨handle, s', heq, hdone⟩

end

end Guaranteed

end SdcBoot.Defrag
