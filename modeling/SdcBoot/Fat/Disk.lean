/-
# Programs on a volume

The routines of the file system are programs over a handful of block operations (`BlockOp`): get a
block and perhaps change it, get two FAT blocks at a time, fill a block without reading it, transfer
many blocks past the cache, write everything out.  There are two machines to run them on.

* `cached`: the machine there is, with the buffers of `blockio.c` between program and device.
* `flat`: a plain disk, where a block is read and written in place.  It REFUSES the mirror copies
  of the FAT, and to treat a block outside the FAT in use as a FAT block.

`cached_sim` makes the second one worth having: a program that runs to its end on the plain disk
runs to its end on the cached machine, as long as no transfer fails, with the same answers, and
leaves the disk it sees as the plain run leaves it.
-/
import SdcBoot.Lib.Prog
import SdcBoot.Block.View

namespace SdcBoot.Fat

open Lib Block Option

/-! ## 1. The operations -/

/-- The bytes of a sector. -/
abbrev Sector : Type := Nat → UInt8

/-- What a block is used for; it decides the flags its buffer gets. -/
inductive Kind where
  | data
  | dir
  | fat
  | info
  deriving DecidableEq

/-- The operations, with `M` the memory of the kernel outside the buffers.  `edit` says how the
block is changed, if it is; a block that cannot be had is answered by `none` or `false`. -/
inductive BlockOp (M : Type) : Type → Type where
  | block (kind : Kind) (blk : Nat) (edit : Sector → Option Sector) (uncache : Bool) :
      BlockOp M (Option Sector)
  | twoBlocks (blk0 blk1 : Nat) (edit : Sector → Sector → Option (Sector × Sector)) :
      BlockOp M (Option (Sector × Sector))
  | fill (blk : Nat) (contents : Sector) (uncache : Bool) : BlockOp M Bool
  | readDirect (blk n : Nat) : BlockOp M (Option (List Sector))
  | writeDirect (blk : Nat) (contents : List Sector) : BlockOp M Bool
  | flushBuffers : BlockOp M Bool
  | mem (f : M → M) : BlockOp M M

/-- What stands at block `b` of the sectors written from `blk` on. -/
def sectorAt (blk : Nat) (contents : List Sector) (b : Nat) : Sector :=
  contents.getD (b - blk) fun _ => 0

/-! ## 2. The cached machine -/

structure Machine (M : Type) where
  cache : Cache Sector
  mem : M

/-- The flags a caller sets in the buffer it was given. -/
def setKind (a : FatArea) (kind : Kind) (i : Nat) (c : Cache Sector) : Cache Sector :=
  match kind with
  | .data => c
  | .fat => c.markFat i a.copies a.offset a.xfatsize
  | .dir => c.setBuf i { c.buf i with data := false, fat := false, dir := true, valid := true }
  | .info => c.setBuf i { c.buf i with data := false, dir := false, fat := false, valid := true }

/-- The change a caller makes to the buffer it was given. -/
def change (i : Nat) (new : Option Sector) (c : Cache Sector) : Cache Sector :=
  match new with
  | none => c
  | some s => c.modify i s

def setUncache (i : Nat) (uncache : Bool) (c : Cache Sector) : Cache Sector :=
  if uncache then c.setBuf i { c.buf i with uncache := true } else c

def cachedBlock (a : FatArea) (kind : Kind) (blk : Nat) (edit : Sector → Option Sector)
    (uncache : Bool) (c : Cache Sector) : Option Sector × Cache Sector :=
  match c.getblk blk a.unit false with
  | (none, c1) => (none, c1)
  | (some i, c1) =>
    let s := (c1.buf i).bBuffer
    (some s, setUncache i uncache (change i (edit s) (setKind a kind i c1)))

/-- Two FAT blocks are held at the same time: the second `getblk` must not take the buffer of the
first. -/
def cachedTwoBlocks (a : FatArea) (blk0 blk1 : Nat)
    (edit : Sector → Sector → Option (Sector × Sector)) (c : Cache Sector) :
    Option (Sector × Sector) × Cache Sector :=
  match c.getblk blk0 a.unit false with
  | (none, c1) => (none, c1)
  | (some i0, c1) =>
    match (setKind a .fat i0 c1).getblk blk1 a.unit false with
    | (none, c2) => (none, c2)
    | (some i1, c2) =>
      let c3 := setKind a .fat i1 c2
      let s0 := (c3.buf i0).bBuffer
      let s1 := (c3.buf i1).bBuffer
      (some (s0, s1), change i0 ((edit s0 s1).map Prod.fst) (change i1 ((edit s0 s1).map Prod.snd) c3))

def cachedFill (a : FatArea) (blk : Nat) (contents : Sector) (uncache : Bool) (c : Cache Sector) :
    Bool × Cache Sector :=
  match c.getblkFill blk a.unit contents with
  | (none, c1) => (false, c1)
  | (some i, c1) => (true, setUncache i uncache c1)

def cachedRead (a : FatArea) (blk n : Nat) (c : Cache Sector) :
    Option (List Sector) × Cache Sector :=
  let r := (c.deleteForRead blk (blk + n - 1) a.unit).dskread a.unit
  (if r.1 then none else some ((List.range n).map fun k => r.2.1 (blk + k)), r.2.2)

def cachedWrite (a : FatArea) (blk : Nat) (contents : List Sector) (c : Cache Sector) :
    Bool × Cache Sector :=
  let w := (c.deleteForWrite blk (blk + contents.length - 1) a.unit).dskwrite a.unit blk
    contents.length (sectorAt blk contents)
  (!w.1, w.2)

/-- **The machine there is.** -/
def cached (M : Type) (a : FatArea) : Handler (BlockOp M) (Machine M) := fun _ op s =>
  match op with
  | .block kind blk edit uncache =>
    let r := cachedBlock a kind blk edit uncache s.cache
    some (r.1, { s with cache := r.2 })
  | .twoBlocks blk0 blk1 edit =>
    let r := cachedTwoBlocks a blk0 blk1 edit s.cache
    some (r.1, { s with cache := r.2 })
  | .fill blk contents uncache =>
    let r := cachedFill a blk contents uncache s.cache
    some (r.1, { s with cache := r.2 })
  | .readDirect blk n =>
    let r := cachedRead a blk n s.cache
    some (r.1, { s with cache := r.2 })
  | .writeDirect blk contents =>
    let r := cachedWrite a blk contents s.cache
    some (r.1, { s with cache := r.2 })
  | .flushBuffers =>
    let r := s.cache.flushBuffers a.unit
    some (r.1, { s with cache := r.2 })
  | .mem f => some (s.mem, { s with mem := f s.mem })

/-! ## 3. The plain disk -/

structure Flat (M : Type) where
  disk : Nat → Sector
  mem : M

def Flat.change {M : Type} (s : Flat M) (blk : Nat) (new : Option Sector) : Flat M :=
  match new with
  | none => s
  | some x => { s with disk := Function.update s.disk blk x }

/-- **The plain disk.** -/
def flat (M : Type) (a : FatArea) : Handler (BlockOp M) (Flat M) := fun _ op s =>
  match op with
  | .block kind blk edit _ =>
    if a.mirror blk ∨ (kind = .fat ∧ ¬ a.isFat blk) then none
    else some (some (s.disk blk), s.change blk (edit (s.disk blk)))
  | .twoBlocks blk0 blk1 edit =>
    if a.isFat blk0 ∧ a.isFat blk1 ∧ blk0 ≠ blk1 then
      let new := edit (s.disk blk0) (s.disk blk1)
      some (some (s.disk blk0, s.disk blk1),
        (s.change blk1 (new.map Prod.snd)).change blk0 (new.map Prod.fst))
    else none
  | .fill blk contents _ =>
    if a.mirror blk then none else some (true, s.change blk (some contents))
  | .readDirect blk n =>
    if ∀ k < n, ¬ a.mirror (blk + k) then
      some (some ((List.range n).map fun k => s.disk (blk + k)), s)
    else none
  | .writeDirect blk contents =>
    if 1 ≤ contents.length ∧ ∀ k < contents.length, ¬ a.mirror (blk + k) then
      some (true, { s with disk := fun b =>
        if blk ≤ b ∧ b < blk + contents.length then sectorAt blk contents b else s.disk b })
    else none
  | .flushBuffers => some (true, s)
  | .mem f => some (s.mem, { s with mem := f s.mem })

/-! ## 4. The cached machine simulates the plain disk -/

/-- The machines agree: no error is to come, and the plain disk is what a program sees. -/
structure Agree (M : Type) (a : FatArea) (s : Machine M) (t : Flat M) : Prop where
  quiet : Quiet a s.cache
  copies : 1 ≤ a.copies
  mem : s.mem = t.mem
  disk : ∀ b, ¬ a.mirror b → t.disk b = s.cache.view a.unit b

variable {a : FatArea} {c : Cache Sector} {b blk i : Nat} {M : Type} {s : Machine M} {t : Flat M}

theorem setKind_quiet (h : Quiet a c) (kind : Kind) (hi : i ∈ c.ring)
    (hheld : (c.buf i).holds a.unit b = true) (hcopies : 1 ≤ a.copies)
    (hfat : kind = .fat → a.isFat b) :
    Quiet a (setKind a kind i c) ∧
      ∀ x, (setKind a kind i c).view a.unit x = c.view a.unit x := by
  obtain ⟨hb, hv, hu⟩ := holds_iff.mp hheld
  have hplain : ∀ b' : Buffer Sector, b'.bBlkno = (c.buf i).bBlkno → b'.bUnit = (c.buf i).bUnit →
      b'.valid = true → b'.fat = false → b'.dirty = (c.buf i).dirty →
      b'.bBuffer = (c.buf i).bBuffer →
      Quiet a (c.setBuf i b') ∧ ∀ x, (c.setBuf i b').view a.unit x = c.view a.unit x := by
    intro b' h1 h2 h3 h4 h5 h6
    have hsame : ∀ x, b'.holds a.unit x = (c.buf i).holds a.unit x := by
      intro x
      simp [Buffer.holds, h1, h2, h3, hv]
    have hq : Quiet a (c.setBuf i b') := by
      refine h.setBuf ⟨?_, ?_, ?_, ?_, ?_⟩
      · intro x hx j hj hji hjb
        exact hji (h.inv.distinct j hj i hi x hjb (hsame x ▸ hx))
      · intro x hx hd
        rw [h6]
        exact h.inv.coherent i hi x (hsame x ▸ hx) (h5 ▸ hd)
      · intro _ _
        simp [Buffer.copies, h4]
      · intro x hx
        exact h.seen i hi x (hsame x ▸ hx)
      · intro _ _ hf
        rw [h4] at hf
        cases hf
    refine ⟨hq, fun x => view_congr h.inv hq.inv (fun _ => Iff.rfl) ?_ fun _ => rfl⟩
    intro j _
    by_cases hji : j = i
    · rw [hji, setBuf_self]
      exact ⟨hsame x, fun _ => h6⟩
    · rw [setBuf_ne _ _ hji]
      exact ⟨rfl, fun _ => rfl⟩
  cases kind with
  | data => exact ⟨h, fun _ => rfl⟩
  | fat => exact h.markFat hi hheld (hfat rfl) hcopies
  | dir => exact hplain _ rfl rfl rfl rfl rfl rfl
  | info => exact hplain _ rfl rfl rfl rfl rfl rfl

theorem setKind_ring (a : FatArea) (kind : Kind) (i : Nat) (c : Cache Sector) :
    (setKind a kind i c).ring = c.ring := by
  cases kind <;> rfl

theorem setKind_other (a : FatArea) (kind : Kind) {j : Nat} (c : Cache Sector) (hji : j ≠ i) :
    (setKind a kind i c).buf j = c.buf j := by
  cases kind
  · rfl
  all_goals exact setBuf_ne _ _ hji

theorem setKind_holds (a : FatArea) (kind : Kind) (hheld : (c.buf i).holds a.unit b = true) :
    ((setKind a kind i c).buf i).holds a.unit b = true := by
  obtain ⟨h1, -, h3⟩ := holds_iff.mp hheld
  cases kind
  · exact hheld
  all_goals
    simp only [setKind, Cache.markFat, setBuf_self]
    exact holds_iff.mpr ⟨h1, rfl, h3⟩

/-- A change to a buffer is the change to its block. -/
theorem change_quiet (h : Quiet a c) (hi : i ∈ c.ring) (hheld : (c.buf i).holds a.unit b = true)
    (new : Option Sector) :
    Quiet a (change i new c) ∧ (change i new c).ring = c.ring ∧
      (∀ j x, ((change i new c).buf j).holds a.unit x = (c.buf j).holds a.unit x) ∧
      ∀ x, (change i new c).view a.unit x = if x = b then new.getD (c.view a.unit b)
        else c.view a.unit x := by
  cases new with
  | none =>
    refine ⟨h, rfl, fun _ _ => rfl, fun x => ?_⟩
    split
    · rename_i hx
      rw [hx]
      rfl
    · rfl
  | some s =>
    obtain ⟨hq, hv⟩ := h.modify hi hheld s
    refine ⟨hq, rfl, fun j x => ?_, hv⟩
    obtain ⟨-, hvalid, -⟩ := holds_iff.mp hheld
    simp only [change, Cache.modify]
    by_cases hji : j = i
    · rw [hji, setBuf_self]
      simp [Buffer.holds, hvalid]
    · rw [setBuf_ne _ _ hji]

theorem setUncache_quiet (h : Quiet a c) (hi : i ∈ c.ring) (uncache : Bool) :
    Quiet a (setUncache i uncache c) ∧
      ∀ x, (setUncache i uncache c).view a.unit x = c.view a.unit x := by
  cases uncache
  · exact ⟨h, fun _ => rfl⟩
  · exact h.setUncache hi true

theorem Agree.changed (h : Agree M a s t)
    {c' : Cache Sector} {new : Option Sector} (hq : Quiet a c')
    (hv : ∀ x, ¬ a.mirror x → c'.view a.unit x =
      if x = b then new.getD (s.cache.view a.unit b) else s.cache.view a.unit x) :
    Agree M a { s with cache := c' } (t.change b new) := by
  cases new with
  | none =>
    refine ⟨hq, h.copies, h.mem, fun x hx => ?_⟩
    dsimp only [Flat.change]
    rw [hv x hx, h.disk x hx]
    split
    · rename_i hxb
      rw [hxb]
      rfl
    · rfl
  | some y =>
    refine ⟨hq, h.copies, h.mem, fun x hx => ?_⟩
    dsimp only [Flat.change]
    rw [hv x hx, Function.update_apply]
    split
    · rfl
    · exact h.disk x hx

theorem cachedBlock_sim (h : Agree M a s t) {kind : Kind} (edit : Sector → Option Sector)
    (uncache : Bool) (hb : ¬ a.mirror blk) (hfat : kind = .fat → a.isFat blk) :
    ∃ c', cachedBlock a kind blk edit uncache s.cache = (some (t.disk blk), c') ∧
      Agree M a { s with cache := c' } (t.change blk (edit (t.disk blk))) := by
  obtain ⟨i, c1, hget, hg⟩ := h.quiet.getblk hb
  have hcont : (c1.buf i).bBuffer = t.disk blk := hg.contents.trans (h.disk blk hb).symm
  obtain ⟨hq2, hv2⟩ := setKind_quiet hg.quiet kind hg.mem hg.held h.copies hfat
  have hmem2 : i ∈ (setKind a kind i c1).ring := by
    rw [setKind_ring]
    exact hg.mem
  obtain ⟨hq3, hr3, -, hv3⟩ := change_quiet hq2 hmem2 (setKind_holds a kind hg.held)
    (edit (t.disk blk))
  obtain ⟨hq4, hv4⟩ := setUncache_quiet hq3 (hr3 ▸ hmem2) uncache
  refine ⟨_, ?_, h.changed hq4 ?_⟩
  · simp only [cachedBlock, hget, hcont]
  · intro x hx
    rw [hv4 x, hv3 x, hv2 x, hv2 blk, hg.view x hx, hg.view blk hb]

/-- The first FAT block stays in its buffer while the second is fetched. -/
theorem getblk_second {c' : Cache Sector} {i0 i1 blk0 blk1 : Nat} (h : Quiet a c)
    (hfirst : c.ring.head? = some i0) (hheld : (c.buf i0).holds a.unit blk0 = true)
    (hcached : (c.buf i0).uncache = false) (hfat : (c.buf i0).fat = true) (hne : blk0 ≠ blk1)
    (hg : GotBlock a c blk1 i1 c') : i0 ≠ i1 := by
  rintro rfl
  rcases hg.choice with hhit | hvictim
  · exact hne ((holds_iff.mp hheld).1.symm.trans (holds_iff.mp hhit).1)
  · exact victim_ne_first h.nodup h.two hfirst hcached hfat hvictim.symm

section

variable (h : Agree M a s t)
include h

theorem cachedTwoBlocks_sim {blk0 blk1 : Nat}
    (edit : Sector → Sector → Option (Sector × Sector)) (h0 : a.isFat blk0) (h1 : a.isFat blk1)
    (hne : blk0 ≠ blk1) :
    ∃ c', cachedTwoBlocks a blk0 blk1 edit s.cache = (some (t.disk blk0, t.disk blk1), c') ∧
      Agree M a { s with cache := c' }
        ((t.change blk1 ((edit (t.disk blk0) (t.disk blk1)).map Prod.snd)).change blk0
          ((edit (t.disk blk0) (t.disk blk1)).map Prod.fst)) := by
  obtain ⟨i0, c1, hget0, hg0⟩ := h.quiet.getblk h0.not_mirror
  obtain ⟨hq1, hv1⟩ := setKind_quiet hg0.quiet .fat hg0.mem hg0.held h.copies fun _ => h0
  have hheld0 := setKind_holds a .fat hg0.held
  obtain ⟨i1, c2, hget1, hg1⟩ := hq1.getblk h1.not_mirror
  have hne01 : i0 ≠ i1 := by
    refine getblk_second hq1 ?_ hheld0 ?_ ?_ hne hg1
    · exact hg0.first
    · simp only [setKind, Cache.markFat, setBuf_self]
      exact hg0.cached
    · simp only [setKind, Cache.markFat, setBuf_self]
  obtain ⟨hq3, hv3⟩ := setKind_quiet hg1.quiet .fat hg1.mem hg1.held h.copies fun _ => h1
  set c3 := setKind a .fat i1 c2 with hc3
  have hbuf0 : c3.buf i0 = (setKind a .fat i0 c1).buf i0 := by
    rw [hc3, setKind_other a .fat _ hne01, hg1.others i0 hne01]
  have hheld0' : (c3.buf i0).holds a.unit blk0 = true := by
    rw [hbuf0]
    exact hheld0
  have hheld1 : (c3.buf i1).holds a.unit blk1 = true := setKind_holds a .fat hg1.held
  have hmem1 : i1 ∈ c3.ring := by
    exact hg1.mem
  have hmem0 : i0 ∈ c3.ring := by
    rw [hc3, setKind_ring, hg1.ring, setKind_ring]
    exact hg0.mem
  -- both blocks as the plain disk has them
  have hs0 : (c3.buf i0).bBuffer = t.disk blk0 := by
    rw [← view_of_holds hq3.inv hmem0 hheld0', hv3, hg1.view _ h0.not_mirror, hv1,
      hg0.view _ h0.not_mirror, h.disk _ h0.not_mirror]
  have hs1 : (c3.buf i1).bBuffer = t.disk blk1 := by
    rw [← view_of_holds hq3.inv hmem1 hheld1, hv3, hg1.view _ h1.not_mirror, hv1,
      hg0.view _ h1.not_mirror, h.disk _ h1.not_mirror]
  have hagree : Agree M a { s with cache := c3 } t := by
    refine ⟨hq3, h.copies, h.mem, fun x hx => ?_⟩
    rw [hv3, hg1.view x hx, hv1, hg0.view x hx, h.disk x hx]
  obtain ⟨hq4, hr4, hh4, hv4⟩ := change_quiet hq3 hmem1 hheld1
    ((edit (t.disk blk0) (t.disk blk1)).map Prod.snd)
  have hagree4 := hagree.changed hq4 fun x _ => hv4 x
  obtain ⟨hq5, -, -, hv5⟩ := change_quiet hq4 (hr4 ▸ hmem0) ((hh4 i0 blk0).trans hheld0')
    ((edit (t.disk blk0) (t.disk blk1)).map Prod.fst)
  refine ⟨_, ?_, hagree4.changed hq5 fun x _ => hv5 x⟩
  simp only [cachedTwoBlocks, hget0, hget1, ← hc3, hs0, hs1]

theorem cachedFill_sim (contents : Sector) (uncache : Bool) (hb : ¬ a.mirror blk) :
    ∃ c', cachedFill a blk contents uncache s.cache = (true, c') ∧
      Agree M a { s with cache := c' } (t.change blk (some contents)) := by
  obtain ⟨i, c1, hget, hq, hmem, hv⟩ := h.quiet.getblkFill hb contents
  obtain ⟨hq2, hv2⟩ := setUncache_quiet hq hmem uncache
  refine ⟨_, ?_, h.changed hq2 fun x hx => ?_⟩
  · simp only [cachedFill, hget]
  · rw [hv2 x, hv x hx]
    rfl

theorem cachedRead_sim {n : Nat} (hb : ∀ k < n, ¬ a.mirror (blk + k)) :
    ∃ c', cachedRead a blk n s.cache = (some ((List.range n).map fun k => t.disk (blk + k)), c') ∧
      Agree M a { s with cache := c' } t := by
  obtain ⟨c', hread, hq, hv, hdev⟩ := h.quiet.readDirect blk n
  refine ⟨c', ?_, hq, h.copies, h.mem, fun x hx => ?_⟩
  · simp only [cachedRead, hread, Bool.false_eq_true, if_false]
    congr 2
    refine List.map_congr_left fun k hk => ?_
    have hk := List.mem_range.mp hk
    rw [hdev (blk + k) (by omega) (by omega) (hb k hk), h.disk _ (hb k hk)]
  · rw [hv x hx]
    exact h.disk x hx

theorem cachedWrite_sim {contents : List Sector} (hlen : 1 ≤ contents.length) :
    ∃ c', cachedWrite a blk contents s.cache = (true, c') ∧
      Agree M a { s with cache := c' } { t with disk := fun b =>
        if blk ≤ b ∧ b < blk + contents.length then sectorAt blk contents b else t.disk b } := by
  obtain ⟨c', hwrite, hq, hv⟩ := h.quiet.writeDirect blk hlen (sectorAt blk contents)
  refine ⟨c', ?_, hq, h.copies, h.mem, fun x hx => ?_⟩
  · simp only [cachedWrite, hwrite, Bool.not_false]
  · dsimp only
    rw [hv x, h.disk x hx]

end

/-- Each operation that the plain disk performs is performed by the cached machine alike. -/
theorem cached_op (δ : Type) (op : BlockOp M δ) (s : Machine M) (t t' : Flat M) (d : δ)
    (h : Agree M a s t) (he : flat M a δ op t = some (d, t')) :
    ∃ s', cached M a δ op s = some (d, s') ∧ Agree M a s' t' := by
  cases op with
  | block kind blk edit uncache =>
    simp only [flat] at he
    split at he
    · cases he
    · rename_i hok
      obtain ⟨hb, hfat⟩ := not_or.mp hok
      cases he
      obtain ⟨c', hrun, hagree⟩ := cachedBlock_sim h edit uncache hb fun hk => by
        by_contra hno
        exact hfat ⟨hk, hno⟩
      exact ⟨_, by simp only [cached, hrun], hagree⟩
  | twoBlocks blk0 blk1 edit =>
    simp only [flat] at he
    split at he
    · rename_i hok
      cases he
      obtain ⟨c', hrun, hagree⟩ := cachedTwoBlocks_sim h edit hok.1 hok.2.1 hok.2.2
      exact ⟨_, by simp only [cached, hrun], hagree⟩
    · cases he
  | fill blk contents uncache =>
    simp only [flat] at he
    split at he
    · cases he
    · rename_i hb
      cases he
      obtain ⟨c', hrun, hagree⟩ := cachedFill_sim h contents uncache hb
      exact ⟨_, by simp only [cached, hrun], hagree⟩
  | readDirect blk n =>
    simp only [flat] at he
    split at he
    · rename_i hb
      cases he
      obtain ⟨c', hrun, hagree⟩ := cachedRead_sim h hb
      exact ⟨_, by simp only [cached, hrun], hagree⟩
    · cases he
  | writeDirect blk contents =>
    simp only [flat] at he
    split at he
    · rename_i hok
      cases he
      obtain ⟨c', hrun, hagree⟩ := cachedWrite_sim h hok.1
      exact ⟨_, by simp only [cached, hrun], hagree⟩
    · cases he
  | flushBuffers =>
    cases he
    obtain ⟨hok, hq, -, hv⟩ := h.quiet.flushEach (fun b => b.bUnit == a.unit) s.cache.ring s.cache
      fun _ hi => hi
    refine ⟨{ s with cache := (s.cache.flushBuffers a.unit).2 }, ?_, hq, h.copies, h.mem,
      fun x hx => ?_⟩
    · simp only [cached, Cache.flushBuffers, hok]
    · exact (h.disk x hx).trans (hv x hx).symm
  | mem f =>
    cases he
    refine ⟨{ s with mem := f s.mem }, ?_, h.quiet, h.copies, congrArg f h.mem, h.disk⟩
    simp only [cached, h.mem]

/-- **A program that runs on the plain disk runs on the cached machine**, with the same answers,
and the disk it sees is the plain disk it would have left. -/
theorem cached_sim {α : Type} (h : Agree M a s t) {p : Prog (BlockOp M) α} {Q : α → Flat M → Prop}
    (hp : p.Meets (flat M a) t Q) :
    p.Meets (cached M a) s fun x s' => ∃ t', Agree M a s' t' ∧ Q x t' := by
  obtain ⟨x, t', he, hQ⟩ := hp
  obtain ⟨s', hs, hagree⟩ := Prog.sim cached_op p s t t' x h he
  exact ⟨x, s', hs, t', hagree, hQ⟩

end SdcBoot.Fat
