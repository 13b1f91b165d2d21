/-
# The disk behind the cache

To a program that uses one volume through the cache, the unit looks like a plain disk: a block is
what its valid buffer holds, and what the device holds when there is none (`view`).  As long as no
transfer fails, nothing the cache does on its own is visible in the view, a direct transfer agrees
with it, and changing a buffer changes exactly one block of it.

One part of the unit is exempt.  A FAT sector is written several times, and when its copies reach
the device depends on the cache; so the mirror copies of the FAT are not part of the disk a
program sees.  No buffer may stand for a mirror block, and only blocks of the FAT in use may be
marked as FAT blocks.  `Quiet` is the invariant with all of this.
-/
import SdcBoot.Block.Coherence
import Mathlib.Tactic.Set

namespace SdcBoot.Block

open List

variable {S : Type}

/-! ## 1. The FAT area and the invariant -/

/-- Where a unit keeps its FAT: the first block of the FAT in use, how often it is written, and
what `getFATblock` notes about the distance of the copies. -/
structure FatArea where
  unit : Nat
  start : Nat
  copies : Nat
  offset : Nat
  xfatsize : Nat

/-- The blocks of one FAT. -/
def FatArea.stride (a : FatArea) : Nat :=
  if a.offset = 0 then a.xfatsize else a.offset

def FatArea.isFat (a : FatArea) (b : Nat) : Prop :=
  a.start ≤ b ∧ b < a.start + a.stride

def FatArea.mirror (a : FatArea) (b : Nat) : Prop :=
  a.start + a.stride ≤ b ∧ b < a.start + a.copies * a.stride

instance (a : FatArea) (b : Nat) : Decidable (a.isFat b) :=
  inferInstanceAs (Decidable (_ ∧ _))

instance (a : FatArea) (b : Nat) : Decidable (a.mirror b) :=
  inferInstanceAs (Decidable (_ ∧ _))

variable {a : FatArea} {b i u : Nat} {c c' : Cache S} {b' : Buffer S}

theorem FatArea.isFat.not_mirror (h : a.isFat b) : ¬ a.mirror b := by
  intro hm
  have := hm.1
  have := h.2
  omega

theorem FatArea.isFat.copy_mirror {k : Nat} (h : a.isFat b) (hk : 1 ≤ k)
    (hlt : k < a.copies) : a.mirror (b + k * a.stride) := by
  obtain ⟨hlo, hhi⟩ := h
  have h1 : a.stride ≤ k * a.stride := Nat.le_mul_of_pos_left _ hk
  have h2 : (k + 1) * a.stride ≤ a.copies * a.stride := Nat.mul_le_mul_right _ hlt
  rw [add_mul, one_mul] at h2
  constructor <;> omega

/-- The cache as a program on the unit needs it: coherent, with no error to come, at least two
buffers, no buffer for a mirror block, and FAT buffers only for the FAT in use. -/
structure Quiet (a : FatArea) (c : Cache S) : Prop where
  nodup : c.ring.Nodup
  two : 2 ≤ c.ring.length
  reads : c.reads = []
  writes : c.writes = []
  inv : c.UnitInv a.unit
  seen : ∀ i ∈ c.ring, ∀ b, (c.buf i).holds a.unit b = true → ¬ a.mirror b
  fat : ∀ i ∈ c.ring, ∀ b, (c.buf i).holds a.unit b = true → (c.buf i).fat = true →
    a.isFat b ∧ (c.buf i).bCopies = a.copies ∧ (c.buf i).stride = a.stride

theorem Quiet.noneIgnored (h : Quiet a c) : c.NoneIgnored := by
  intro o ho
  rw [h.writes] at ho
  cases ho

theorem Quiet.ring_ne (h : Quiet a c) : c.ring ≠ [] := by
  intro hnil
  have := h.two
  rw [hnil] at this
  cases this

/-- Every buffer of the unit can be written out: its copies go to mirror blocks. -/
theorem Quiet.flushable (h : Quiet a c) (hi : i ∈ c.ring)
    (hu : (c.buf i).bUnit = a.unit) : c.Flushable i := by
  intro hv _ j hj _ k hk1 hk hheld
  have hown : (c.buf i).holds a.unit (c.buf i).bBlkno = true := holds_iff.mpr ⟨rfl, hv, hu⟩
  rw [hu] at hheld
  by_cases hfat : (c.buf i).fat = true
  · obtain ⟨hin, hcop, hstr⟩ := h.fat i hi _ hown hfat
    rw [Buffer.copies, if_pos hfat, hcop] at hk
    refine h.seen j hj _ hheld ?_
    rw [hstr]
    exact hin.copy_mirror hk1 hk
  · rw [Buffer.copies, if_neg hfat] at hk
    omega

/-! ## 2. The view -/

/-- **The disk a program sees.** -/
def Cache.view (c : Cache S) (u b : Nat) : S :=
  match c.ring.find? fun i => (c.buf i).holds u b with
  | some i => (c.buf i).bBuffer
  | none => c.dev u b

theorem view_of_holds (h : c.UnitInv u) (hi : i ∈ c.ring)
    (hheld : (c.buf i).holds u b = true) : c.view u b = (c.buf i).bBuffer := by
  unfold Cache.view
  split
  · rename_i j hfind
    have hj : (c.buf j).holds u b = true := by simpa using find?_some hfind
    rw [h.distinct j (mem_of_find?_eq_some hfind) i hi b hj hheld]
  · rename_i hnone
    exact absurd hheld (by simpa using find?_eq_none.mp hnone i hi)

theorem view_of_misses (h : c.Misses b u) : c.view u b = c.dev u b := by
  unfold Cache.view
  split
  · rename_i j hfind
    have hj : (c.buf j).holds u b = true := by simpa using find?_some hfind
    exact absurd hj (h j (mem_of_find?_eq_some hfind))
  · rfl

/-- Two caches with the same buffers for the block, and the same device block, show the same. -/
theorem view_congr (h : c.UnitInv u) (h' : c'.UnitInv u) (hring : ∀ i, i ∈ c'.ring ↔ i ∈ c.ring)
    (hbuf : ∀ i ∈ c.ring, (c'.buf i).holds u b = (c.buf i).holds u b ∧
      ((c.buf i).holds u b = true → (c'.buf i).bBuffer = (c.buf i).bBuffer))
    (hdev : c.Misses b u → c'.dev u b = c.dev u b) : c'.view u b = c.view u b := by
  by_cases hmiss : c.Misses b u
  · have hmiss' : c'.Misses b u := by
      intro i hi
      rw [(hbuf i ((hring i).mp hi)).1]
      exact hmiss i ((hring i).mp hi)
    rw [view_of_misses hmiss, view_of_misses hmiss', hdev hmiss]
  · obtain ⟨i, hi, hheld⟩ : ∃ i ∈ c.ring, (c.buf i).holds u b = true := by
      by_contra hno
      exact hmiss fun i hi hb => hno ⟨i, hi, hb⟩
    obtain ⟨h1, h2⟩ := hbuf i hi
    rw [view_of_holds h hi hheld, view_of_holds h' ((hring i).mpr hi) (h1.trans hheld), h2 hheld]

/-! ## 3. Writing out is invisible -/

theorem writeCopies_quiet (unit stride : Nat) (contents : S) :
    ∀ (n blkno : Nat) (c : Cache S), c.writes = [] →
      (c.writeCopies unit stride contents n blkno).1 = true ∧
        (c.writeCopies unit stride contents n blkno).2.writes = []
  | 0, _, _, hw => ⟨rfl, hw⟩
  | n + 1, blkno, c, hw => by
    have hone : c.dskwrite unit blkno 1 (fun _ => contents) =
        (false, { c with dev := setBlocks c.dev unit blkno 1 fun _ => contents }) := by
      unfold Cache.dskwrite
      rw [hw]
    have ih := writeCopies_quiet unit stride contents n (blkno + stride)
      { c with dev := setBlocks c.dev unit blkno 1 fun _ => contents } hw
    simp only [Cache.writeCopies, hone]
    exact ih

theorem flush1_quiet (hw : c.writes = []) (i : Nat) :
    (c.flush1 i).1 = true ∧ (c.flush1 i).2.writes = [] := by
  by_cases hvd : ((c.buf i).valid && (c.buf i).dirty) = true
  · simp only [Cache.flush1, hvd]
    exact writeCopies_quiet _ _ _ _ _ c hw
  · simp only [Cache.flush1, hvd, if_false, Bool.false_eq_true]
    exact ⟨trivial, hw⟩

/-- A buffer that is written out stands for the same block with the same contents. -/
theorem Flushed.same (hf : Flushed c i true c') (j u b : Nat) :
    (c'.buf j).holds u b = (c.buf j).holds u b ∧ (c'.buf j).bBuffer = (c.buf j).bBuffer ∧
      (c'.buf j).fat = (c.buf j).fat ∧ (c'.buf j).bCopies = (c.buf j).bCopies ∧
      (c'.buf j).stride = (c.buf j).stride ∧ (c'.buf j).bUnit = (c.buf j).bUnit := by
  by_cases hji : j = i
  · rw [hji, hf.self, Bool.and_true]
    exact ⟨rfl, rfl, rfl, rfl, rfl, rfl⟩
  · rw [hf.other j hji]
    exact ⟨rfl, rfl, rfl, rfl, rfl, rfl⟩

/-- **`flush1` is invisible.** -/
theorem Quiet.flush1 (h : Quiet a c) (hi : i ∈ c.ring) :
    Quiet a (c.flush1 i).2 ∧
      ∀ b, ¬ a.mirror b → (c.flush1 i).2.view a.unit b = c.view a.unit b := by
  obtain ⟨hok, hw⟩ := flush1_quiet h.writes i
  have hf := flush1_spec h.noneIgnored i
  rw [hok] at hf
  have hinv := hf.unitInv h.inv hi fun hu => h.flushable hi hu
  refine ⟨⟨?_, ?_, ?_, hw, hinv, ?_, ?_⟩, ?_⟩
  · rw [hf.ring]
    exact h.nodup
  · rw [hf.ring]
    exact h.two
  · rw [hf.reads]
    exact h.reads
  · intro j hj b hb
    rw [hf.ring] at hj
    rw [(hf.same j a.unit b).1] at hb
    exact h.seen j hj b hb
  · intro j hj b hb hfat
    obtain ⟨h1, -, h3, h4, h5, -⟩ := hf.same j a.unit b
    rw [hf.ring] at hj
    rw [h1] at hb
    rw [h3] at hfat
    rw [h4, h5]
    exact h.fat j hj b hb hfat
  · intro b hb
    refine view_congr h.inv hinv (fun j => by rw [hf.ring]) ?_ ?_
    · intro j _
      exact ⟨(hf.same j a.unit b).1, fun _ => (hf.same j a.unit b).2.1⟩
    · intro hmiss
      refine hf.others a.unit b ?_
      -- the copies go to the block the buffer stands for, and to mirror blocks
      intro hv hd hu k hk hbk
      have hown : (c.buf i).holds a.unit (c.buf i).bBlkno = true :=
        holds_iff.mpr ⟨rfl, hv, hu.symm⟩
      rcases Nat.eq_zero_or_pos k with rfl | hpos
      · rw [zero_mul, add_zero] at hbk
        exact hmiss i hi (hbk ▸ hown)
      · by_cases hfat : (c.buf i).fat = true
        · obtain ⟨hin, hcop, hstr⟩ := h.fat i hi _ hown hfat
          rw [Buffer.copies, if_pos hfat, hcop] at hk
          rw [hbk, hstr] at hb
          exact hb (hin.copy_mirror hpos hk)
        · rw [Buffer.copies, if_neg hfat] at hk
          omega

/-- What the walks that write out leave: the same ring, the same blocks with the same contents,
and no selected buffer dirty. -/
structure Walked (sel : Buffer S → Bool) (is : List Nat) (c c' : Cache S) : Prop where
  ring : c'.ring = c.ring
  same : ∀ j u b, (c'.buf j).holds u b = (c.buf j).holds u b
  clean : ∀ j ∈ is, sel (c.buf j) = true → (c'.buf j).dirty = false
  stays : ∀ j, (c.buf j).dirty = false → (c'.buf j).dirty = false

/-- **The walks that write out are invisible.** -/
theorem Quiet.flushEach (sel : Buffer S → Bool) :
    ∀ (is : List Nat) (c : Cache S), Quiet a c → (∀ i ∈ is, i ∈ c.ring) →
      (c.flushEach sel is).1 = true ∧ Quiet a (c.flushEach sel is).2 ∧
        Walked sel is c (c.flushEach sel is).2 ∧
        ∀ b, ¬ a.mirror b → (c.flushEach sel is).2.view a.unit b = c.view a.unit b
  | [], _, h, _ => ⟨rfl, h, ⟨rfl, fun _ _ _ => rfl, fun _ hj => absurd hj not_mem_nil,
      fun _ hd => hd⟩, fun _ _ => rfl⟩
  | i :: is, c, h, hmem => by
    have hi := hmem i mem_cons_self
    unfold Cache.flushEach
    split
    · obtain ⟨hq, hv⟩ := h.flush1 hi
      have hf := flush1_spec h.noneIgnored i
      obtain ⟨hok, -⟩ := flush1_quiet h.writes i
      obtain ⟨h1, h2, h3, h4⟩ := Quiet.flushEach sel is _ hq fun j hj => by
        rw [hf.ring]
        exact hmem j (.tail _ hj)
      have hself : ((c.flush1 i).2.buf i).dirty = false := by rw [hf.self]
      rw [hok] at hf
      refine ⟨by simp [hok, h1], h2, ⟨h3.ring.trans hf.ring, ?_, ?_, ?_⟩, fun b hb => ?_⟩
      · intro j u b
        rw [h3.same, (hf.same j u b).1]
      · intro j hj hsel
        by_cases hji : j = i
        · rw [hji]
          exact h3.stays i hself
        · refine h3.clean j (mem_of_ne_of_mem hji hj) ?_
          rw [hf.other j hji]
          exact hsel
      · intro j hd
        refine h3.stays j ?_
        by_cases hji : j = i
        · rw [hji]
          exact hself
        · rw [hf.other j hji]
          exact hd
      · rw [h4 b hb, hv b hb]
    · rename_i hsel
      obtain ⟨h1, h2, h3, h4⟩ :=
        Quiet.flushEach sel is c h fun j hj => hmem j (.tail _ hj)
      refine ⟨h1, h2, ⟨h3.ring, h3.same, ?_, h3.stays⟩, h4⟩
      intro j hj hs
      rcases mem_cons.mp hj with rfl | hj
      · exact absurd hs hsel
      · exact h3.clean j hj hs

/-- **A direct read gets what a program sees**, once the range has been written out. -/
theorem Quiet.readDirect (h : Quiet a c) (blkno n : Nat) :
    ∃ c', (c.deleteForRead blkno (blkno + n - 1) a.unit).dskread a.unit =
        (false, c'.dev a.unit, c') ∧ Quiet a c' ∧
      (∀ b, ¬ a.mirror b → c'.view a.unit b = c.view a.unit b) ∧
      ∀ b, blkno ≤ b → b < blkno + n → ¬ a.mirror b → c'.dev a.unit b = c.view a.unit b := by
  obtain ⟨-, hq, hw, hv⟩ := h.flushEach (fun b => b.inRange blkno (blkno + n - 1) a.unit) c.ring c
    fun _ hi => hi
  refine ⟨_, ?_, hq, hv, ?_⟩
  · have hreads := hq.reads
    unfold Cache.deleteForRead Cache.dskread
    rw [hreads]
  · intro b hlo hhi hb
    rw [← hv b hb]
    set c' := (c.flushEach (fun b => b.inRange blkno (blkno + n - 1) a.unit) c.ring).2 with hc'
    by_cases hmiss : c'.Misses b a.unit
    · exact (view_of_misses hmiss).symm
    · obtain ⟨i, hi, hheld⟩ : ∃ i ∈ c'.ring, (c'.buf i).holds a.unit b = true := by
        by_contra hno
        exact hmiss fun i hi hb => hno ⟨i, hi, hb⟩
      rw [view_of_holds hq.inv hi hheld]
      have hheld' := hheld
      rw [hw.same] at hheld'
      obtain ⟨h1, h2, h3⟩ := holds_iff.mp hheld'
      have hdirty := hw.clean i (hw.ring ▸ hi) (by
        simp only [Buffer.inRange, h2, h3, Bool.and_true, beq_self_eq_true, Bool.and_eq_true,
          decide_eq_true_eq]
        omega)
      exact (hq.inv.coherent i hi b hheld hdirty).symm

/-! ## 4. Storing into a buffer -/

/-- **How the view reads after a buffer was replaced.** -/
theorem view_setBuf (h : c.UnitInv u) (h' : (c.setBuf i b').UnitInv u) (hi : i ∈ c.ring) (x : Nat) :
    (c.setBuf i b').view u x =
      if b'.holds u x = true then b'.bBuffer
      else if (c.buf i).holds u x = true then c.dev u x else c.view u x := by
  split
  · rename_i hnew
    have hheld : ((c.setBuf i b').buf i).holds u x = true := by
      rw [setBuf_self]
      exact hnew
    rw [view_of_holds h' hi hheld, setBuf_self]
  · rename_i hnew
    split
    · rename_i hold
      refine view_of_misses fun j hj hheld => ?_
      by_cases hji : j = i
      · rw [hji, setBuf_self] at hheld
        exact hnew hheld
      · rw [setBuf_ne c b' hji] at hheld
        exact hji (h.distinct j hj i hi x hheld hold)
    · rename_i hold
      refine view_congr h h' (fun _ => Iff.rfl) ?_ fun _ => rfl
      intro j _
      by_cases hji : j = i
      · rw [hji, setBuf_self]
        exact ⟨by rw [Bool.eq_false_iff.mpr hnew, Bool.eq_false_iff.mpr hold], fun hb => absurd hb hold⟩
      · rw [setBuf_ne c b' hji]
        exact ⟨rfl, fun _ => rfl⟩

/-- What a buffer stored into the ring must satisfy. -/
structure Storable (a : FatArea) (c : Cache S) (i : Nat) (b' : Buffer S) : Prop where
  free : ∀ b, b'.holds a.unit b = true → ∀ j ∈ c.ring, j ≠ i → ¬ (c.buf j).holds a.unit b = true
  clean : ∀ b, b'.holds a.unit b = true → b'.dirty = false → b'.bBuffer = c.dev a.unit b
  copies : ∀ b, b'.holds a.unit b = true → 1 ≤ b'.copies
  seen : ∀ b, b'.holds a.unit b = true → ¬ a.mirror b
  fat : ∀ b, b'.holds a.unit b = true → b'.fat = true →
    a.isFat b ∧ b'.bCopies = a.copies ∧ b'.stride = a.stride

section

variable (h : Quiet a c)
include h

theorem Quiet.setBuf (hs : Storable a c i b') : Quiet a (c.setBuf i b') := by
  refine ⟨h.nodup, h.two, h.reads, h.writes, h.inv.setBuf hs.free hs.clean hs.copies, ?_, ?_⟩
  · intro j hj b hb
    by_cases hji : j = i
    · rw [hji, setBuf_self] at hb
      exact hs.seen b hb
    · rw [setBuf_ne c b' hji] at hb
      exact h.seen j hj b hb
  · intro j hj b hb hfat
    by_cases hji : j = i
    · subst hji
      rw [setBuf_self] at hb hfat ⊢
      exact hs.fat b hb hfat
    · rw [setBuf_ne c b' hji] at hb hfat ⊢
      exact h.fat j hj b hb hfat

section

variable (hi : i ∈ c.ring)
include hi

/-- A buffer that stays on its block, with the block's contents or dirty, can be stored. -/
theorem Quiet.storable (hheld : ∀ b, b'.holds a.unit b = true → (c.buf i).holds a.unit b = true)
    (hclean : b'.dirty = false → (c.buf i).dirty = false ∧ b'.bBuffer = (c.buf i).bBuffer)
    (hcopies : b'.copies = (c.buf i).copies) (hfat : b'.fat = (c.buf i).fat)
    (hcop : b'.bCopies = (c.buf i).bCopies) (hstr : b'.stride = (c.buf i).stride) :
    Storable a c i b' := by
  refine ⟨?_, ?_, ?_, ?_, ?_⟩
  · intro b hb j hj hji hjb
    exact hji (h.inv.distinct j hj i hi b hjb (hheld b hb))
  · intro b hb hd
    rw [(hclean hd).2]
    exact h.inv.coherent i hi b (hheld b hb) (hclean hd).1
  · intro b hb
    rw [hcopies]
    exact h.inv.copied i hi b (hheld b hb)
  · intro b hb
    exact h.seen i hi b (hheld b hb)
  · intro b hb hf
    rw [hcop, hstr]
    exact h.fat i hi b (hheld b hb) (hfat ▸ hf)

/-- **Changing a buffer changes one block of the view.** -/
theorem Quiet.modify (hheld : (c.buf i).holds a.unit b = true) (contents : S) :
    Quiet a (c.modify i contents) ∧
      ∀ x, (c.modify i contents).view a.unit x = if x = b then contents else c.view a.unit x := by
  obtain ⟨hb, hv, hu⟩ := holds_iff.mp hheld
  have hsame : ∀ x, ({ c.buf i with bBuffer := contents, dirty := true, valid := true } :
      Buffer S).holds a.unit x = (c.buf i).holds a.unit x := by
    intro x
    simp [Buffer.holds, hv]
  have hq : Quiet a (c.modify i contents) :=
    h.setBuf (h.storable hi (fun x hx => hsame x ▸ hx) (fun hd => absurd hd (by simp)) rfl rfl rfl rfl)
  refine ⟨hq, fun x => ?_⟩
  refine (view_setBuf h.inv hq.inv hi x).trans ?_
  rw [hsame]
  by_cases hx : x = b
  · rw [if_pos hx, hx, if_pos hheld]
  · have hnot : ¬ (c.buf i).holds a.unit x = true := fun hx' => hx ((holds_iff.mp hx').1.symm.trans hb)
    rw [if_neg hx, if_neg hnot, if_neg hnot]

/-- Setting UNCACHE is invisible. -/
theorem Quiet.setUncache
    (uncache : Bool) : Quiet a (c.setBuf i { c.buf i with uncache := uncache }) ∧
      ∀ x, (c.setBuf i { c.buf i with uncache := uncache }).view a.unit x = c.view a.unit x := by
  have hq : Quiet a (c.setBuf i { c.buf i with uncache := uncache }) :=
    h.setBuf (h.storable hi (fun _ hx => hx) (fun hd => ⟨hd, rfl⟩) rfl rfl rfl rfl)
  refine ⟨hq, fun x => ?_⟩
  refine view_congr h.inv hq.inv (fun _ => Iff.rfl) ?_ fun _ => rfl
  intro j _
  by_cases hji : j = i
  · rw [hji, setBuf_self]
    exact ⟨rfl, fun _ => rfl⟩
  · rw [setBuf_ne _ _ hji]
    exact ⟨rfl, fun _ => rfl⟩

/-- Marking a block of the FAT as such is invisible. -/
theorem Quiet.markFat (hheld : (c.buf i).holds a.unit b = true)
    (hfat : a.isFat b) (hcopies : 1 ≤ a.copies) :
    Quiet a (c.markFat i a.copies a.offset a.xfatsize) ∧
      ∀ x, (c.markFat i a.copies a.offset a.xfatsize).view a.unit x = c.view a.unit x := by
  obtain ⟨hb, hv, hu⟩ := holds_iff.mp hheld
  have hsame : ∀ x, ({ c.buf i with
      data := false, dir := false, fat := true, valid := true, bCopies := a.copies,
      bOffset := a.offset, dpbXfatsize := a.xfatsize } : Buffer S).holds a.unit x =
        (c.buf i).holds a.unit x := by
    intro x
    simp [Buffer.holds, hv]
  have hq : Quiet a (c.markFat i a.copies a.offset a.xfatsize) := by
    refine h.setBuf ⟨?_, ?_, fun _ _ => hcopies, ?_, ?_⟩
    · intro x hx j hj hji hjb
      exact hji (h.inv.distinct j hj i hi x hjb (hsame x ▸ hx))
    · intro x hx hd
      exact h.inv.coherent i hi x (hsame x ▸ hx) hd
    · intro x hx
      exact h.seen i hi x (hsame x ▸ hx)
    · intro x hx _
      rw [← (holds_iff.mp hx).1, hb]
      exact ⟨hfat, rfl, rfl⟩
  refine ⟨hq, fun x => view_congr h.inv hq.inv (fun _ => Iff.rfl) ?_ fun _ => rfl⟩
  intro j _
  by_cases hji : j = i
  · rw [hji, Cache.markFat, setBuf_self]
    exact ⟨hsame x, fun _ => rfl⟩
  · rw [Cache.markFat, setBuf_ne _ _ hji]
    exact ⟨rfl, fun _ => rfl⟩

end

end

/-! ## 5. `getblk` -/

theorem nodup_toFront (h : c.ring.Nodup) : (c.toFront i).ring.Nodup := by
  refine nodup_cons.mpr ⟨?_, h.erase i⟩
  exact fun hi => (List.Nodup.mem_erase_iff h).mp hi |>.1 rfl

theorem length_toFront (hi : i ∈ c.ring) : (c.toFront i).ring.length = c.ring.length := by
  have hpos := length_pos_of_mem hi
  have := length_erase_of_mem hi
  simp only [Cache.toFront, length_cons]
  omega

/-- `searchblock` is invisible. -/
theorem Quiet.found (h : Quiet a c) (hi : i ∈ c.ring)
    (uncache : Bool) : Quiet a (c.found i uncache) ∧
      ∀ x, (c.found i uncache).view a.unit x = c.view a.unit x := by
  obtain ⟨hq, hv⟩ := h.setUncache hi uncache
  have hmem : ∀ j, j ∈ (c.found i uncache).ring ↔ j ∈ c.ring := fun _ =>
    mem_toFront (c := c.setBuf i { c.buf i with uncache := uncache }) hi
  have hq' : Quiet a (c.found i uncache) := by
    refine ⟨nodup_toFront hq.nodup, ?_, hq.reads, hq.writes, hq.inv.toFront hi, ?_, ?_⟩
    · exact (length_toFront (c := c.setBuf i { c.buf i with uncache := uncache }) hi).symm ▸ hq.two
    · intro j hj
      exact hq.seen j ((hmem j).mp hj)
    · intro j hj
      exact hq.fat j ((hmem j).mp hj)
  refine ⟨hq', fun x => ?_⟩
  rw [← hv x]
  exact view_congr hq.inv hq'.inv hmem (fun _ _ => ⟨rfl, fun _ => rfl⟩) fun _ => rfl

/-- What `getblk` leaves when it hands out buffer `i` for block `b`: nothing visible has changed,
the buffer is first in the ring, and no other buffer was touched. -/
structure GotBlock (a : FatArea) (c : Cache S) (b i : Nat) (c' : Cache S) : Prop where
  quiet : Quiet a c'
  ring : ∀ j, j ∈ c'.ring ↔ j ∈ c.ring
  first : c'.ring.head? = some i
  held : (c'.buf i).holds a.unit b = true
  cached : (c'.buf i).uncache = false
  contents : (c'.buf i).bBuffer = c.view a.unit b
  others : ∀ j, j ≠ i → c'.buf j = c.buf j
  view : ∀ x, ¬ a.mirror x → c'.view a.unit x = c.view a.unit x
  choice : (c.buf i).holds a.unit b = true ∨ i = c.victim

theorem GotBlock.mem (h : GotBlock a c b i c') :
    i ∈ c'.ring := mem_of_head? h.first

/-- The victim, written out, is a clean buffer: it may be given away. -/
theorem Quiet.evict (h : Quiet a c) :
    c.evict.1 = true ∧ Quiet a c.evict.2 ∧ (∀ j, j ∈ c.evict.2.ring ↔ j ∈ c.ring) ∧
      c.evict.2.ring.head? = some c.victim ∧
      (∀ j, j ≠ c.victim → c.evict.2.buf j = c.buf j) ∧ (c.evict.2.buf c.victim).dirty = false ∧
      (∀ x, c.Misses x a.unit → c.evict.2.Misses x a.unit) ∧
      ∀ x, ¬ a.mirror x → c.evict.2.view a.unit x = c.view a.unit x := by
  have hv := victim_mem h.ring_ne
  obtain ⟨hq, hview⟩ := h.found hv true
  have hmem : c.victim ∈ (c.found c.victim true).ring := mem_cons_self
  obtain ⟨hq2, hview2⟩ := hq.flush1 hmem
  have hf := flush1_spec hq.noneIgnored c.victim
  have hring : ∀ j, j ∈ c.evict.2.ring ↔ j ∈ c.ring := by
    intro j
    rw [Cache.evict, hf.ring]
    exact mem_toFront (c := c.setBuf c.victim _) hv
  refine ⟨(flush1_quiet hq.writes _).1, hq2, hring, ?_, ?_, ?_, ?_, ?_⟩
  · rw [Cache.evict, hf.ring]
    rfl
  · intro j hj
    rw [Cache.evict, hf.other j hj, found_buf, if_neg hj]
  · rw [Cache.evict, hf.self]
  · intro x hx j hj hheld
    rw [(flush1_quiet hq.writes _).1] at hf
    rw [Cache.evict, (hf.same j a.unit x).1, found_holds] at hheld
    exact hx j ((hring j).mp hj) hheld
  · intro x hx
    rw [Cache.evict, hview2 x hx, hview x]

/-- A clean buffer may be given to a block nobody stands for, and the view changes at most there. -/
theorem Quiet.give (h : Quiet a c) (b' : Buffer S) (hi : i ∈ c.ring)
    (hclean : (c.buf i).dirty = false) (hmiss : c.Misses b a.unit) (hb : ¬ a.mirror b)
    (hheld : b'.holds a.unit b = true) (hnofat : b'.fat = false)
    (hcont : b'.dirty = false → b'.bBuffer = c.dev a.unit b) :
    Quiet a (c.setBuf i b') ∧
      ∀ x, (c.setBuf i b').view a.unit x = if x = b then b'.bBuffer else c.view a.unit x := by
  have hkey : ∀ x, b'.holds a.unit x = true → x = b := fun x hx =>
    (holds_iff.mp hx).1.symm.trans (holds_iff.mp hheld).1
  have hq : Quiet a (c.setBuf i b') := by
    refine h.setBuf ⟨?_, ?_, ?_, ?_, ?_⟩
    · intro x hx j hj _
      rw [hkey x hx]
      exact hmiss j hj
    · intro x hx hd
      rw [hkey x hx]
      exact hcont hd
    · intro _ _
      simp [Buffer.copies, hnofat]
    · intro x hx
      rw [hkey x hx]
      exact hb
    · intro _ _ hf
      rw [hnofat] at hf
      cases hf
  refine ⟨hq, fun x => ?_⟩
  rw [view_setBuf h.inv hq.inv hi]
  by_cases hx : x = b
  · rw [if_pos hx, hx, if_pos hheld]
  · rw [if_neg hx, if_neg fun hx' => hx (hkey x hx')]
    split
    · rename_i hold
      -- the block the buffer stood for before is on the device
      rw [view_of_holds h.inv hi hold, h.inv.coherent i hi x hold hclean]
    · rfl

/-- **`getblk` hands out the block as a program sees it.** -/
theorem Quiet.getblk (h : Quiet a c) (hb : ¬ a.mirror b) :
    ∃ i c', c.getblk b a.unit false = (some i, c') ∧ GotBlock a c b i c' := by
  rcases getblk_cases c b a.unit false with
    ⟨i, hi, hheld, hr⟩ | ⟨hmiss, f, hf, hr⟩
  · obtain ⟨hq, hv⟩ := h.found hi false
    refine ⟨i, _, hr, hq, fun _ => mem_toFront (c := c.setBuf i _) hi, rfl, ?_, ?_, ?_, ?_,
      fun x _ => hv x, .inl hheld⟩
    · rw [found_holds]
      exact hheld
    · simp [found_buf]
    · rw [view_of_holds h.inv hi hheld, found_buf]
    · intro j hj
      rw [found_buf, if_neg hj]
  · obtain ⟨hok, hq, hring, hfirst, hother, hclean, hmisses, hview⟩ := h.evict
    have hevict : f = c.evict := hf
    subst hevict
    have hmem : c.victim ∈ c.evict.2.ring := mem_of_head? hfirst
    rcases hr with ⟨hbad, -⟩ | ⟨-, how, -⟩ | ⟨-, -, r, c', hr', hc', hr⟩
    · rw [hok] at hbad
      cases hbad
    · cases how
    · have hread : c.evict.2.dskread a.unit = (false, c.evict.2.dev a.unit, c.evict.2) := by
        unfold Cache.dskread
        rw [hq.reads]
      rw [hread] at hr'
      subst hr'
      subst hc'
      dsimp only at hr
      rw [if_neg (by simp), setBuf_claim] at hr
      have hnew := hq.give { (c.evict.2.buf c.victim).noFlags with
        valid := true, data := true, bUnit := a.unit, bBlkno := b, bBuffer := c.evict.2.dev a.unit b }
        hmem hclean (hmisses b hmiss) hb (holds_iff.mpr ⟨rfl, rfl, rfl⟩) rfl fun _ => rfl
      have hdev : c.evict.2.dev a.unit b = c.view a.unit b := by
        rw [← hview b hb, view_of_misses (hmisses b hmiss)]
      refine ⟨c.victim, _, hr, hnew.1, hring, hfirst, ?_, ?_, ?_, ?_, ?_, .inr rfl⟩
      · rw [setBuf_self]
        exact holds_iff.mpr ⟨rfl, rfl, rfl⟩
      · rw [setBuf_self]
        rfl
      · rw [setBuf_self]
        exact hdev
      · intro j hj
        rw [setBuf_ne _ _ hj]
        exact hother j hj
      · intro x hx
        refine (hnew.2 x).trans ?_
        split
        · rename_i hxb
          rw [hxb]
          exact hdev
        · exact hview x hx

/-- **Filling a block through `getblockOver`** changes that block of the view. -/
theorem Quiet.getblkFill (h : Quiet a c) (hb : ¬ a.mirror b) (contents : S) :
    ∃ i c', c.getblkFill b a.unit contents = (some i, c') ∧ Quiet a c' ∧ i ∈ c'.ring ∧
      ∀ x, ¬ a.mirror x → c'.view a.unit x = if x = b then contents else c.view a.unit x := by
  unfold Cache.getblkFill
  rcases getblk_cases c b a.unit true with
    ⟨i, hi, hheld, hr⟩ | ⟨hmiss, f, hf, hr⟩
  · obtain ⟨hq, hv⟩ := h.found hi false
    have hmem : i ∈ (c.found i false).ring := mem_cons_self
    obtain ⟨hq2, hv2⟩ := hq.modify hmem (by rw [found_holds]; exact hheld) contents
    rw [hr]
    refine ⟨i, _, rfl, hq2, hmem, fun x _ => ?_⟩
    rw [hv2 x, hv x]
  · obtain ⟨hok, hq, -, hfirst, -, hclean, hmisses, hview⟩ := h.evict
    have hevict : f = c.evict := hf
    subst hevict
    have hmem : c.victim ∈ c.evict.2.ring := mem_of_head? hfirst
    rcases hr with ⟨hbad, -⟩ | ⟨-, -, hr⟩ | ⟨-, how, -⟩
    · rw [hok] at hbad
      cases hbad
    · have hnew := hq.give { (c.evict.2.buf c.victim).noFlags with
        valid := true, data := true, bUnit := a.unit, bBlkno := b, bBuffer := contents,
        dirty := true }
        hmem hclean (hmisses b hmiss) hb (holds_iff.mpr ⟨rfl, rfl, rfl⟩) rfl
        nofun
      have hfilled : (c.evict.2.claim c.victim b a.unit).modify c.victim contents =
          c.evict.2.setBuf c.victim { (c.evict.2.buf c.victim).noFlags with
            valid := true, data := true, bUnit := a.unit, bBlkno := b, bBuffer := contents,
            dirty := true } := by
        unfold Cache.modify Cache.claim
        rw [setBuf_self]
        simp only [Cache.setBuf, Function.update_idem]
      rw [hr]
      dsimp only
      rw [hfilled]
      refine ⟨c.victim, _, rfl, hnew.1, hmem, fun x hx => ?_⟩
      rw [hnew.2 x, hview x hx]
    · cases how

/-- The victim is not the first buffer when that one is a FAT buffer in use: two FAT blocks can be
held at a time. -/
theorem victim_ne_first (hnodup : c.ring.Nodup) (htwo : 2 ≤ c.ring.length)
    (hfirst : c.ring.head? = some i) (hcached : (c.buf i).uncache = false)
    (hfat : (c.buf i).fat = true) : c.victim ≠ i := by
  obtain ⟨rest, hring⟩ : ∃ rest, c.ring = i :: rest := by
    cases hr : c.ring with
    | nil =>
      rw [hr] at hfirst
      cases hfirst
    | cons j rest =>
      rw [hr] at hfirst
      exact ⟨rest, by rw [Option.some.inj hfirst]⟩
  have hi : i ∉ rest := (nodup_cons.mp (hring ▸ hnodup)).1
  have hlast : rest.getLastD i ∈ rest := by
    rcases eq_nil_or_concat rest with rfl | ⟨l, x, rfl⟩
    · rw [hring] at htwo
      exact absurd htwo (by simp)
    · simp
  have hend : rest.getLastD i ≠ i := fun he => hi (he ▸ hlast)
  unfold Cache.victim
  split
  · rename_i j hj
    have hu := (mem_filter.mp (mem_of_getLast? hj)).2
    rintro rfl
    rw [hcached] at hu
    cases hu
  · rw [hring]
    dsimp only
    split
    · rcases eq_nil_or_concat ((i :: rest).filter fun j => !(c.buf j).fat) with hnil | ⟨l, x, hl⟩
      · rw [hnil]
        exact hend
      · rw [hl]
        have hx : x ∈ (i :: rest).filter fun j => !(c.buf j).fat := by simp [hl]
        have hxf := (mem_filter.mp hx).2
        simp only [concat_eq_append, getLastD_concat]
        rintro rfl
        rw [hfat] at hxf
        cases hxf
    · exact hend

/-! ## 6. Direct writes -/

/-- **A direct write** replaces its range of the view. -/
theorem Quiet.writeDirect (h : Quiet a c) (blkno : Nat) {n : Nat} (hn : 1 ≤ n)
    (contents : Nat → S) :
    ∃ c', (c.deleteForWrite blkno (blkno + n - 1) a.unit).dskwrite a.unit blkno n contents =
        (false, c') ∧ Quiet a c' ∧
      ∀ x, c'.view a.unit x =
        if blkno ≤ x ∧ x < blkno + n then contents x else c.view a.unit x := by
  set d := c.deleteForWrite blkno (blkno + n - 1) a.unit with hd
  have hdinv : d.UnitInv a.unit :=
    h.inv.mapRing (fun b => b.inRange blkno (blkno + n - 1) a.unit) (f := Buffer.noFlags) fun _ => rfl
  have hdbuf : ∀ i x, (d.buf i).holds a.unit x = true → i ∈ c.ring →
      d.buf i = c.buf i ∧ ¬ (blkno ≤ x ∧ x < blkno + n) := by
    intro i x hx hi
    simp only [hd, Cache.deleteForWrite, Cache.mapRing] at hx ⊢
    split
    · rename_i hsel
      rw [if_pos hsel] at hx
      exact absurd (holds_iff.mp hx).2.1 (by simp [Buffer.noFlags])
    · rename_i hnot
      rw [if_neg hnot] at hx
      refine ⟨rfl, fun hrange => hnot ⟨hi, ?_⟩⟩
      obtain ⟨h1, h2, h3⟩ := holds_iff.mp hx
      simp only [Buffer.inRange, h1, h2, h3, Bool.and_true, beq_self_eq_true, Bool.and_eq_true,
        decide_eq_true_eq]
      omega
  have hdkeep : ∀ i x, i ∈ c.ring → (c.buf i).holds a.unit x = true →
      ¬ (blkno ≤ x ∧ x < blkno + n) → d.buf i = c.buf i := by
    intro i x hi hx hrange
    simp only [hd, Cache.deleteForWrite, Cache.mapRing]
    rw [if_neg]
    rintro ⟨-, hsel⟩
    obtain ⟨h1, h2, h3⟩ := holds_iff.mp hx
    simp only [Buffer.inRange, h1, h2, h3, Bool.and_true, beq_self_eq_true, Bool.and_eq_true,
      decide_eq_true_eq] at hsel
    omega
  have hwrite : d.dskwrite a.unit blkno n contents =
      (false, { d with dev := setBlocks d.dev a.unit blkno n contents }) := by
    unfold Cache.dskwrite
    rw [show d.writes = [] from h.writes]
  have hinv : ({ d with dev := setBlocks d.dev a.unit blkno n contents } : Cache S).UnitInv a.unit := by
    refine ⟨?_, hdinv.distinct, hdinv.copied⟩
    intro i hi x hx hdirty
    have hout := (hdbuf i x hx hi).2
    exact (hdinv.coherent i hi x hx hdirty).trans (setBlocks_of_not fun hin => hout hin.2).symm
  refine ⟨_, hwrite, ⟨h.nodup, h.two, h.reads, h.writes, hinv, ?_, ?_⟩, fun x => ?_⟩
  · intro i hi x hx
    have hsame := (hdbuf i x hx hi).1
    refine h.seen i hi x ?_
    rw [← hsame]
    exact hx
  · intro i hi x hx hfat
    have hsame := (hdbuf i x hx hi).1
    dsimp only at hx hfat ⊢
    rw [hsame] at hx hfat ⊢
    exact h.fat i hi x hx hfat
  · split
    · rename_i hrange
      have hmiss : ({ d with dev := setBlocks d.dev a.unit blkno n contents } : Cache S).Misses x
          a.unit := fun i hi hx => (hdbuf i x hx hi).2 hrange
      rw [view_of_misses hmiss]
      exact setBlocks_of_mem hrange.1 hrange.2
    · rename_i hrange
      refine view_congr h.inv hinv (fun _ => Iff.rfl) ?_ fun _ => setBlocks_of_not fun hin => hrange hin.2
      intro i hi
      have hiff : (d.buf i).holds a.unit x = true ↔ (c.buf i).holds a.unit x = true := by
        constructor
        · intro hx
          rw [← (hdbuf i x hx hi).1]
          exact hx
        · intro hx
          rw [hdkeep i x hi hx hrange]
          exact hx
      refine ⟨Bool.eq_iff_iff.mpr hiff, fun hx => ?_⟩
      rw [hdkeep i x hi hx hrange]

end SdcBoot.Block
