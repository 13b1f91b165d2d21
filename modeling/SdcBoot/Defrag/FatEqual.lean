/-
# When all copies of the FAT stay equal

Between two synchronisations the copies may differ, but only in sectors that are marked
(`Marked`): a write marks the three sectors of its buffer, and a mark is never lost.  Synchronising
copies what is marked, so afterwards all copies are equal.

Three things in the code stand against this.

* The bit of a sector is its number on the volume, while the field has a bit for each sector of a
  FAT: the volume must have its FAT early enough (`WriteOk.bits`, `SyncOk.bits`).
* When there was no memory for the field, a later change may get one, and the earlier changes are
  not marked in it (`WriteOk.early`).
* When the labels fill the last sector of the FAT, the part of it that is copied is empty
  (`LastOk`).
-/
import SdcBoot.Defrag.FatCopies
import Mathlib.Tactic.Set

namespace SdcBoot.Defrag

open Lib List Function

/-! ## 1. Sectors and bytes of the FATs -/

variable {v : Volume} {i k x : Nat} {disk : Nat → Sector} {h : Handle} {t : Nat × Nat}

theorem sectorOf_inj {i' k' : Nat} (hk : k < v.sectorsPerFat) (hk' : k' < v.sectorsPerFat)
    (h : v.sectorOf i k = v.sectorOf i' k') : i = i' ∧ k = k' := by
  unfold Volume.sectorOf at h
  have hsum : k + v.sectorsPerFat * i = k' + v.sectorsPerFat * i' := by
    rw [mul_comm, mul_comm v.sectorsPerFat]
    omega
  have hpos : 0 < v.sectorsPerFat := by omega
  have hi : i = i' := by
    have hdiv := congrArg (· / v.sectorsPerFat) hsum
    simpa [Nat.add_mul_div_left _ _ hpos, Nat.div_eq_of_lt hk, Nat.div_eq_of_lt hk'] using hdiv
  subst hi
  exact ⟨rfl, by omega⟩

theorem sectorOf_inFats (hi : i < v.numberOfFats)
    (hk : k < v.sectorsPerFat) : v.InFats (v.sectorOf i k) := by
  have hle : (i + 1) * v.sectorsPerFat ≤ v.numberOfFats * v.sectorsPerFat :=
    Nat.mul_le_mul_right _ hi
  rw [add_mul, one_mul] at hle
  unfold Volume.InFats Volume.sectorOf
  omega

/-- The label bytes of sector `k` of copy `i` are those of the first FAT. -/
def Agree (v : Volume) (disk : Nat → Sector) (t : Nat × Nat) : Prop :=
  ∀ x < 512, 512 * t.2 + x < v.fatBytes →
    disk (v.sectorOf t.1 t.2) x = disk (v.sectorOf 0 t.2) x

theorem copiesAgree_of_agree (h : ∀ i < v.numberOfFats, ∀ k < v.sectorsPerFat, Agree v disk (i, k))
    (hv : v.Valid) : CopiesAgree v disk := by
  intro i hi o ho
  have hroom := hv.room
  exact h i hi (o / 512) (by omega) (o % 512) (by omega) (by omega)

theorem agree_of_copiesAgree (h : CopiesAgree v disk)
    (hi : i < v.numberOfFats) : Agree v disk (i, k) := by
  intro x hx hlt
  have hbyte := h i hi (512 * k + x) hlt
  have hdiv : (512 * k + x) / 512 = k := by omega
  have hmod : (512 * k + x) % 512 = x := by omega
  unfold fatByte at hbyte
  rw [hdiv, hmod] at hbyte
  exact hbyte

/-- Equal bytes are equal labels. -/
theorem sameLabels_of_copiesAgree (h : CopiesAgree v disk) : SameLabels v disk := by
  intro i hi n hn
  have hbytes : v.fatBytes = (v.labelSize.bits * v.labelsInFat + 7) / 8 := rfl
  unfold labelAt fatWord
  cases hsize : v.labelSize with
  | fat12 =>
    simp only [hsize, LabelSize.bits] at hbytes
    have h0 := h i hi (3 * n / 2) (by omega)
    have h1 := h i hi (3 * n / 2 + 1) (by omega)
    simp only [h0, h1]
  | fat16 =>
    simp only [hsize, LabelSize.bits] at hbytes
    have h0 := h i hi (2 * n) (by omega)
    have h1 := h i hi (2 * n + 1) (by omega)
    simp only [h0, h1]
  | fat32 =>
    simp only [hsize, LabelSize.bits] at hbytes
    have h0 := h i hi (4 * n) (by omega)
    have h1 := h i hi (4 * n + 1) (by omega)
    have h2 := h i hi (4 * n + 2) (by omega)
    have h3 := h i hi (4 * n + 2 + 1) (by omega)
    simp only [h0, h1, h2, h3]

/-! ## 2. A write -/

/-- How many bytes of the buffer a label takes part in. -/
def labelWidth : LabelSize → Nat
  | .fat12 => 2
  | .fat16 => 2
  | .fat32 => 4

variable {buffer : Nat → UInt8} {b labelnr : Nat} {all : Bool} {t' : Nat × Nat} {d : Done}
  {io : BackupIo}

theorem putWord_frame {o w : Nat} (h : x < o ∨ o + 2 ≤ x) : putWord buffer o w x = buffer x := by
  unfold putWord
  rw [update_of_ne (by omega), update_of_ne (by omega)]

/-- **A label is put into its own bytes.** -/
theorem editLabel_frame {size : LabelSize} {n label : Nat}
    (h : x < labelOffset size n ∨ labelOffset size n + labelWidth size ≤ x) :
    editLabel size buffer n label x = buffer x := by
  cases size with
  | fat12 =>
    simp only [editLabel] at h ⊢
    split
    · exact putWord_frame h
    · exact putWord_frame h
  | fat16 => exact putWord_frame h
  | fat32 =>
    simp only [labelWidth] at h
    unfold editLabel
    dsimp only
    rw [putWord_frame (by omega), putWord_frame (by omega)]

/-- The bytes of a label lie in the FAT. -/
theorem label_in_fat (h : labelnr < v.labelsInFat) :
    labelnr / labelsInBuf v * 1536 + labelOffset v.labelSize (labelnr % labelsInBuf v) +
      labelWidth v.labelSize ≤ v.fatBytes := by
  have hbytes : v.fatBytes = (v.labelSize.bits * v.labelsInFat + 7) / 8 := rfl
  unfold labelsInBuf labelOffset labelWidth
  cases hsize : v.labelSize with
  | fat12
  | fat16
  | fat32 =>
    simp only [hsize, LabelSize.bits] at hbytes ⊢
    omega

/-- Only sectors of the first FAT that are in the buffer are changed. -/
theorem writeBuffer_frame (hv : v.Valid)
    (hlabel : labelnr < v.labelsInFat) (disk : Nat → Sector) (label : Nat) (written : Nat → Bool) (h : ∀ k < v.sectorsPerFat, b = v.sectorOf 0 k →
      b < bufferStart v labelnr ∨ bufferStart v labelnr + SECTORSPERREADBUF ≤ b) :
    writeBuffer disk (bufferStart v labelnr)
      (editLabel v.labelSize (readBuffer disk (bufferStart v labelnr)) (labelnr % labelsInBuf v)
        label) written b = disk b := by
  unfold writeBuffer
  split
  · rename_i hin
    obtain ⟨hlo, hhi, -⟩ := hin
    -- the sector is one of the buffer, so it lies behind the first FAT
    have hbehind : v.fatStart + v.sectorsPerFat ≤ b := by
      by_contra hlt
      have hge : v.fatStart ≤ b := by
        unfold bufferStart at hlo
        omega
      have := h (b - v.fatStart) (by omega) (by unfold Volume.sectorOf; omega)
      omega
    have hroom := hv.room
    have hlabelIn := label_in_fat hlabel
    funext x
    split
    · rename_i hx
      rw [editLabel_frame]
      · unfold readBuffer
        have hdiv : (512 * (b - bufferStart v labelnr) + x) / 512 = b - bufferStart v labelnr := by
          omega
        have hmod : (512 * (b - bufferStart v labelnr) + x) % 512 = x := by omega
        rw [hdiv, hmod, Nat.add_sub_cancel' hlo]
      · right
        unfold bufferStart SECTORSPERREADBUF at *
        omega
    · rfl
  · rfl

/-- **Copies differ only where it is marked.** -/
def Marked (v : Volume) (h : Handle) : Prop :=
  ∀ i < v.numberOfFats, ∀ k < v.sectorsPerFat, Agree v h.disk (i, k) ∨
    (h.fatLabelsChanged = true ∧
      ∀ f, h.fatChangeField = some f → f.bit (v.sectorOf 0 k / sectorsPerBit v) = true)

/-- A call of `WriteFatLabel`, for a label of the volume. -/
structure WriteCall (v : Volume) where
  labelnr : Fin v.labelsInFat
  label : Nat
  io : WriteIo

/-- The call comes as far as changing anything. -/
def WriteCall.Reaches {v : Volume} (c : WriteCall v) : Prop := c.io.bufferOk = true ∧ c.io.readOk = true

/-- The bytes of a change field: a bit for each sector of a FAT. -/
def fieldBytes (v : Volume) : Nat := (v.sectorsPerFat % 0x10000 + 7) / 8

/-- The field there is has been made for this volume. -/
def FieldMade (v : Volume) (h : Handle) : Prop :=
  ∀ f, h.fatChangeField = some f → f.len = fieldBytes v

theorem changeField_made {io : WriteIo} {f : BitField} (hm : FieldMade v h)
    (hf : changeField v io h = some f) : f.len = fieldBytes v := by
  unfold changeField at hf
  split at hf
  · rename_i f0 hf0
    cases hf
    exact hm _ hf0
  · split at hf
    · cases hf
      unfold createBitField fieldBytes
      dsimp only
      split <;> omega
    · cases hf

/-- **The condition on a write**: where there is a field, or one is made, it reaches as far as the
number of the last sector of the buffer; and none is made after a change that had to do without. -/
structure WriteOk (v : Volume) (h : Handle) (c : WriteCall v) : Prop where
  bits : c.Reaches → (h.fatChangeField = none → c.io.fieldOk = true) →
    (bufferStart v c.labelnr + 2) / sectorsPerBit v < 8 * fieldBytes v
  early : c.Reaches → h.fatLabelsChanged = true → h.fatChangeField = none → c.io.fieldOk = false

/-- One write, as a step. -/
def writeStep (v : Volume) (h : Handle) (c : WriteCall v) : Done × Handle :=
  let d := writeFatLabel v c.io c.labelnr c.label h
  (d, d.handle)

/-- What holds of every step: the bits lie in the field, and nothing but the FATs is changed. -/
def StepSafe (v : Volume) (h : Handle) (d : Done) : Prop :=
  (∀ u ∈ d.uses, u.Inside) ∧ ∀ b, ¬ v.InFats b → d.handle.disk b = h.disk b

/-- A write that reaches the disk, apart. -/
theorem writeFatLabel_cases (v : Volume) (c : WriteCall v) (h : Handle) :
    (¬ c.Reaches ∧ writeFatLabel v c.io c.labelnr c.label h = ⟨false, [], h⟩) ∨
    (c.Reaches ∧ ∃ disk, disk = writeBuffer h.disk (bufferStart v c.labelnr)
        (editLabel v.labelSize (readBuffer h.disk (bufferStart v c.labelnr))
          (c.labelnr % labelsInBuf v) c.label) (fun i => c.io.writeOk || c.io.written i) ∧
      ((changeField v c.io h = none ∧
          writeFatLabel v c.io c.labelnr c.label h = ⟨c.io.writeOk, [], ⟨disk, true, none⟩⟩) ∨
        ∃ f, changeField v c.io h = some f ∧
          writeFatLabel v c.io c.labelnr c.label h = ⟨c.io.writeOk,
            (bufferBits v (bufferStart v c.labelnr)).map (⟨·, f.len⟩),
            ⟨disk, true, some (f.setBits (bufferBits v (bufferStart v c.labelnr)))⟩⟩)) := by
  unfold writeFatLabel WriteCall.Reaches
  cases hb : c.io.bufferOk with
  | false => exact .inl ⟨by simp, rfl⟩
  | true =>
    cases hr : c.io.readOk with
    | false => exact .inl ⟨by simp, rfl⟩
    | true =>
      refine .inr ⟨⟨rfl, rfl⟩, _, rfl, ?_⟩
      cases hf : changeField v c.io h with
      | none => exact .inl ⟨rfl, rfl⟩
      | some f => exact .inr ⟨f, rfl, rfl⟩

/-- A sector of the buffer has its bit among the bits of the buffer. -/
theorem mem_bufferBits {start : Nat} (hlo : start ≤ b)
    (hhi : b < start + SECTORSPERREADBUF) : b / sectorsPerBit v ∈ bufferBits v start := by
  refine mem_map.mpr ⟨b - start, mem_range.mpr (by omega), ?_⟩
  rw [Nat.add_sub_cancel' hlo]

variable {c : WriteCall v}

theorem writeStep_made (hm : FieldMade v h) : FieldMade v (writeStep v h c).2 := by
  intro f hf
  unfold writeStep at hf
  rcases writeFatLabel_cases v c h with ⟨-, hrun⟩ | ⟨-, disk, -, ⟨-, hrun⟩ | ⟨f0, hf0, hrun⟩⟩
  · rw [hrun] at hf
    exact hm f hf
  · rw [hrun] at hf
    cases hf
  · rw [hrun] at hf
    cases hf
    have hlen : f0.len = fieldBytes v := changeField_made hm hf0
    exact hlen

theorem writeStep_safe (hv : v.Valid) (hm : FieldMade v h) (hok : WriteOk v h c) :
    StepSafe v h (writeStep v h c).1 := by
  have hdisk : ∀ (written : Nat → Bool) (b : Nat), ¬ v.InFats b →
      writeBuffer h.disk (bufferStart v c.labelnr)
        (editLabel v.labelSize (readBuffer h.disk (bufferStart v c.labelnr))
          (c.labelnr % labelsInBuf v) c.label) written b = h.disk b := by
    intro written b hb
    refine writeBuffer_frame hv c.labelnr.isLt h.disk c.label _ fun k hk hbk => ?_
    exact absurd (hbk ▸ sectorOf_inFats hv.fats hk) hb
  unfold writeStep
  rcases writeFatLabel_cases v c h with ⟨-, hrun⟩ | ⟨hreach, disk, hd, ⟨-, hrun⟩ | ⟨f, hf, hrun⟩⟩
  · rw [hrun]
    exact ⟨by simp, fun _ _ => rfl⟩
  · rw [hrun]
    exact ⟨by simp, fun b hb => (congrFun hd b).trans (hdisk _ b hb)⟩
  · rw [hrun]
    refine ⟨fun u hu => ?_, fun b hb => (congrFun hd b).trans (hdisk _ b hb)⟩
    obtain ⟨bit, hbit, rfl⟩ := mem_map.mp hu
    obtain ⟨i, hi, rfl⟩ := mem_map.mp hbit
    have hlast := hok.bits hreach fun hnone => by
      rw [changeField, hnone] at hf
      by_contra hno
      rw [if_neg hno] at hf
      cases hf
    have hle : (bufferStart v c.labelnr + i) / sectorsPerBit v ≤
        (bufferStart v c.labelnr + 2) / sectorsPerBit v :=
      Nat.div_le_div_right (Nat.add_le_add_left (Nat.le_of_lt_succ (mem_range.mp hi)) _)
    rw [changeField_made hm hf]
    exact Nat.div_lt_of_lt_mul (lt_of_le_of_lt hle hlast)

theorem writeStep_marked (hv : v.Valid) (hm : Marked v h)
    (hok : WriteOk v h c) : Marked v (writeStep v h c).2 := by
  -- a sector that is not in the buffer is as it was
  have hdisk : ∀ (written : Nat → Bool) (i k : Nat), k < v.sectorsPerFat →
      (i = 0 → v.sectorOf 0 k < bufferStart v c.labelnr ∨
        bufferStart v c.labelnr + SECTORSPERREADBUF ≤ v.sectorOf 0 k) →
      writeBuffer h.disk (bufferStart v c.labelnr)
        (editLabel v.labelSize (readBuffer h.disk (bufferStart v c.labelnr))
          (c.labelnr % labelsInBuf v) c.label) written (v.sectorOf i k) = h.disk (v.sectorOf i k) := by
    intro written i k hk hout
    refine writeBuffer_frame hv c.labelnr.isLt h.disk c.label _ fun k' hk' heq => ?_
    obtain ⟨rfl, rfl⟩ := sectorOf_inj hk hk' heq
    exact hout rfl
  unfold writeStep
  rcases writeFatLabel_cases v c h with ⟨-, hrun⟩ | ⟨hreach, disk, hd, hcase⟩
  · rw [hrun]
    exact hm
  intro i hi k hk
  by_cases hin : bufferStart v c.labelnr ≤ v.sectorOf 0 k ∧
      v.sectorOf 0 k < bufferStart v c.labelnr + SECTORSPERREADBUF
  · -- in the buffer: marked now
    have hbit := mem_bufferBits (v := v) hin.1 hin.2
    right
    rcases hcase with ⟨-, hrun⟩ | ⟨f, -, hrun⟩
    · rw [hrun]
      exact ⟨rfl, nofun⟩
    · rw [hrun]
      refine ⟨rfl, fun f' hf' => ?_⟩
      cases hf'
      simp only [BitField.setBits, contains_iff_mem.mpr hbit, Bool.or_true]
  · have hkept : ∀ j, disk (v.sectorOf j k) = h.disk (v.sectorOf j k) := by
      intro j
      rw [hd]
      exact hdisk _ j k hk fun _ => by omega
    rcases hm i hi k hk with hagree | ⟨hchanged, hbit⟩
    · left
      have hagree' : Agree v disk (i, k) := by
        intro x hx hlt
        rw [hkept, hkept]
        exact hagree x hx hlt
      rcases hcase with ⟨-, hrun⟩ | ⟨f, -, hrun⟩
      · rw [hrun]
        exact hagree'
      · rw [hrun]
        exact hagree'
    · -- marked before: in the same field, or there is none
      right
      rcases hcase with ⟨-, hrun⟩ | ⟨f, hf, hrun⟩
      · rw [hrun]
        exact ⟨rfl, nofun⟩
      · rw [hrun]
        refine ⟨rfl, fun f' hf' => ?_⟩
        cases hf'
        unfold changeField at hf
        split at hf
        · rename_i f0 hf0
          cases hf
          simp only [BitField.setBits, hbit _ hf0, Bool.true_or]
        · rename_i hnone
          rw [hok.early hreach hchanged hnone] at hf
          cases hf

/-! ## 3. Copying -/

/-- The last sector of a FAT: its labels do not fill it, or there is nothing to be copied. -/
def LastOk (v : Volume) (disk : Nat → Sector) : Prop :=
  v.fatBytes ≠ 512 * v.sectorsPerFat ∨
    ∀ i < v.numberOfFats, Agree v disk (i, v.sectorsPerFat - 1)

/-- What has to be copied is: it agrees already, or it will be, and all of it. -/
def Due (v : Volume) (all : Bool) (h : Handle) (t : Nat × Nat) : Prop :=
  Agree v h.disk t ∨
    ((all = true ∨ ∀ f, h.fatChangeField = some f →
        f.bit (v.sectorOf 0 t.2 / sectorsPerBit v) = true) ∧
      (t.2 = v.sectorsPerFat - 1 → v.fatBytes ≠ 512 * v.sectorsPerFat))

/-- The part of the last sector that is copied. -/
theorem getBytesInFat_mod (v : Volume) : getBytesInFat v % 512 = v.fatBytes % 512 := by
  unfold getBytesInFat Volume.fatBytes
  cases hsize : v.labelSize with
  | fat12 =>
    simp only [LabelSize.bits, true_and]
    split
    · omega
    · omega
  | fat16
  | fat32 =>
    simp only [LabelSize.bits, reduceCtorEq, false_and, if_false]
    omega

/-- What is copied agrees with the first FAT. -/
theorem copied_agree (hv : v.Valid) (hk : k < v.sectorsPerFat)
    (hlast : k = v.sectorsPerFat - 1 → v.fatBytes ≠ 512 * v.sectorsPerFat) (first copy : Sector)
    (hx : x < 512) (hlt : 512 * k + x < v.fatBytes) : copied v k first copy x = first x := by
  unfold copied
  split
  · rfl
  · have hroom := hv.room
    have hmod : x < getBytesInFat v % BYTESPERSECTOR := by
      rw [BYTESPERSECTOR, getBytesInFat_mod]
      omega
    simp only [if_pos hmod]

/-- What is the same in both stays the same. -/
theorem copied_same {first copy : Sector} (h : copy x = first x) :
    copied v k first copy x = first x := by
  unfold copied
  split
  · rfl
  · dsimp only
    split
    · rfl
    · exact h

/-- **One sector of one copy.**  No other sector is changed, the field is only read, and on success
the sector agrees, if it did or was due. -/
structure CopyOk (v : Volume) (all : Bool) (h : Handle) (t : Nat × Nat) (d : Done) : Prop where
  frame : ∀ b, b ≠ v.sectorOf t.1 t.2 → d.handle.disk b = h.disk b
  field : d.handle.fatChangeField = h.fatChangeField
  uses : ∀ u ∈ d.uses, all = false ∧ ∃ f, h.fatChangeField = some f ∧
    u = ⟨v.sectorOf 0 t.2 / sectorsPerBit v, f.len⟩
  agree : d.ok = true → Due v all h t → Agree v d.handle.disk t

theorem copySector_spec (hv : v.Valid) (all : Bool) (io : CopyIo) (hi : 1 ≤ i)
    (hk : k < v.sectorsPerFat) (h : Handle) :
    CopyOk v all h (i, k) (copySector v all io i k h) := by
  have hne : v.sectorOf 0 k ≠ v.sectorOf i k := by
    intro heq
    have := (sectorOf_inj hk hk heq).1
    omega
  set c := if all then (true, []) else hasSectorChanged v h (v.sectorOf 0 k) with hc
  have huses : ∀ u ∈ c.2, all = false ∧ ∃ f, h.fatChangeField = some f ∧
      u = ⟨v.sectorOf 0 k / sectorsPerBit v, f.len⟩ := by
    intro u hu
    rw [hc] at hu
    cases all with
    | true => cases hu
    | false =>
      simp only [Bool.false_eq_true, if_false, hasSectorChanged] at hu
      split at hu
      · rename_i f hf
        exact ⟨rfl, f, hf, mem_singleton.mp hu⟩
      · cases hu
  have hmark : (all = true ∨ ∀ f, h.fatChangeField = some f →
      f.bit (v.sectorOf 0 k / sectorsPerBit v) = true) → c.1 = true := by
    intro hd
    rw [hc]
    cases all with
    | true => rfl
    | false =>
      simp only [Bool.false_eq_true, if_false, hasSectorChanged]
      rcases hd with hd | hd
      · cases hd
      split
      · rename_i f hf
        exact hd f hf
      · rfl
  unfold copySector
  rw [← hc]
  dsimp only
  split
  · rename_i hno
    refine ⟨fun _ _ => rfl, rfl, huses, fun _ hdue => ?_⟩
    rcases hdue with hagree | ⟨hd, -⟩
    · exact hagree
    · rw [hmark hd] at hno
      cases hno
  split
  · exact ⟨fun _ _ => rfl, rfl, huses, nofun⟩
  refine ⟨fun b hb => update_of_ne hb .., rfl, huses, fun hok hdue => ?_⟩
  dsimp only at hok
  intro x hx hlt
  simp only [hok, if_true, update_self, update_of_ne hne]
  rcases hdue with hagree | ⟨-, hlast⟩
  · exact copied_same (hagree x hx hlt)
  · exact copied_agree hv hk hlast _ _ hx hlt

/-- Agreement of one sector is not disturbed by copying another. -/
theorem CopyOk.keeps (hd : CopyOk v all h t d) (ht : 1 ≤ t.1 ∧ t.2 < v.sectorsPerFat)
    (ht' : t'.2 < v.sectorsPerFat) (hok : d.ok = true)
    (hagree : Agree v h.disk t') : Agree v d.handle.disk t' := by
  by_cases heq : v.sectorOf t'.1 t'.2 = v.sectorOf t.1 t.2
  · obtain ⟨h1, h2⟩ := sectorOf_inj ht' ht.2 heq
    obtain rfl : t' = t := Prod.ext h1 h2
    exact hd.agree hok (.inl hagree)
  · have hfirst : v.sectorOf 0 t'.2 ≠ v.sectorOf t.1 t.2 := by
      intro h0
      have := (sectorOf_inj ht' ht.2 h0).1
      omega
    intro x hx hlt
    rw [hd.frame _ heq, hd.frame _ hfirst]
    exact hagree x hx hlt

theorem Due.keeps (hd : CopyOk v all h t d) (ht : 1 ≤ t.1 ∧ t.2 < v.sectorsPerFat)
    (ht' : t'.2 < v.sectorsPerFat) (hok : d.ok = true)
    (hdue : Due v all h t') : Due v all d.handle t' := by
  rcases hdue with hagree | hmark
  · exact .inl (hd.keeps ht ht' hok hagree)
  · right
    rw [hd.field]
    exact hmark

/-- **One sector after another.** -/
theorem copySectors_spec (hv : v.Valid) (all : Bool) (io : Nat × Nat → CopyIo)
    (tasks : List (Nat × Nat)) (htasks : ∀ t ∈ tasks, 1 ≤ t.1 ∧ t.2 < v.sectorsPerFat)
    (h : Handle) :
    (∀ b, (∀ t ∈ tasks, b ≠ v.sectorOf t.1 t.2) →
        (copySectors v all io tasks h).handle.disk b = h.disk b) ∧
      (∀ u ∈ (copySectors v all io tasks h).uses, all = false ∧ ∃ t ∈ tasks, ∃ f,
        h.fatChangeField = some f ∧ u = ⟨v.sectorOf 0 t.2 / sectorsPerBit v, f.len⟩) ∧
      ((copySectors v all io tasks h).ok = true → (∀ t ∈ tasks, Due v all h t) →
        ∀ t, t ∈ tasks ∨ (t.2 < v.sectorsPerFat ∧ Agree v h.disk t) →
          Agree v (copySectors v all io tasks h).handle.disk t) := by
  induction tasks generalizing h with
  | nil =>
    refine ⟨fun _ _ => rfl, by simp [copySectors], fun _ _ t ht => ?_⟩
    rcases ht with ht | ht
    · cases ht
    · exact ht.2
  | cons t rest ih =>
    have ht := htasks t mem_cons_self
    have hrest : ∀ t ∈ rest, 1 ≤ t.1 ∧ t.2 < v.sectorsPerFat :=
      fun t ht => htasks t (.tail _ ht)
    have hstep := copySector_spec hv all (io t) ht.1 ht.2 h
    set d := copySector v all (io t) t.1 t.2 h with hd
    obtain ⟨hframe, huses, hagree⟩ := ih hrest d.handle
    rw [copySectors, ← hd]
    dsimp only
    split
    · rename_i hok
      refine ⟨fun b hb => ?_, fun u hu => ?_, fun hok' hdue t' ht' => ?_⟩
      · rw [hframe b fun t' ht' => hb t' (.tail _ ht'),
          hstep.frame b (hb t mem_cons_self)]
      · rcases mem_append.mp hu with hu | hu
        · obtain ⟨hall, f, hf, hu⟩ := hstep.uses u hu
          exact ⟨hall, t, mem_cons_self, f, hf, hu⟩
        · obtain ⟨hall, t', ht', f, hf, hu⟩ := huses u hu
          exact ⟨hall, t', mem_cons_of_mem _ ht', f, hstep.field ▸ hf, hu⟩
      · refine hagree hok' (fun t'' ht'' => ?_) t' ?_
        · exact (hdue t'' (.tail _ ht'')).keeps hstep ht (hrest t'' ht'').2 hok
        · rcases ht' with ht' | ⟨hlt, ht'⟩
          · rcases mem_cons.mp ht' with rfl | ht'
            · exact .inr ⟨ht.2, hstep.agree hok (hdue _ mem_cons_self)⟩
            · exact .inl ht'
          · exact .inr ⟨hlt, hstep.keeps ht hlt hok ht'⟩
    · rename_i hno
      refine ⟨fun b hb => hstep.frame b (hb t mem_cons_self), fun u hu => ?_,
        fun hok => absurd hok hno⟩
      obtain ⟨hall, f, hf, hu⟩ := hstep.uses u hu
      exact ⟨hall, t, mem_cons_self, f, hf, hu⟩

theorem mem_copyTasks :
    t ∈ copyTasks v ↔ 1 ≤ t.1 ∧ t.1 < v.numberOfFats ∧ t.2 < v.sectorsPerFat := by
  obtain ⟨i, k⟩ := t
  simp only [copyTasks, mem_flatMap, mem_range, mem_map, Prod.mk.injEq]
  constructor
  · rintro ⟨j, hj, k', hk', rfl, rfl⟩
    omega
  · rintro ⟨h1, h2, h3⟩
    exact ⟨i - 1, by omega, k, h3, by omega, rfl⟩

/-- **`PrivateBackupFat`.** -/
theorem privateBackupFat_spec (hv : v.Valid) (all : Bool) (io : BackupIo) (h : Handle) :
    (∀ b, ¬ v.InFats b → (privateBackupFat v all io h).handle.disk b = h.disk b) ∧
      (∀ u ∈ (privateBackupFat v all io h).uses, all = false ∧ 1 < v.numberOfFats ∧
        ∃ k < v.sectorsPerFat, ∃ f, h.fatChangeField = some f ∧
          u = ⟨v.sectorOf 0 k / sectorsPerBit v, f.len⟩) ∧
      ((privateBackupFat v all io h).ok = true →
        (∀ t, 1 ≤ t.1 → t.1 < v.numberOfFats → t.2 < v.sectorsPerFat → Due v all h t) →
        CopiesAgree v (privateBackupFat v all io h).handle.disk) := by
  unfold privateBackupFat
  split
  · exact ⟨fun _ _ => rfl, by simp, nofun⟩
  have htasks : ∀ t ∈ copyTasks v, 1 ≤ t.1 ∧ t.2 < v.sectorsPerFat := by
    intro t ht
    obtain ⟨h1, -, h3⟩ := mem_copyTasks.mp ht
    exact ⟨h1, h3⟩
  obtain ⟨hframe, huses, hagree⟩ := copySectors_spec hv all io.copy (copyTasks v) htasks h
  refine ⟨fun b hb => hframe b fun t ht heq => ?_, fun u hu => ?_, fun hok hdue => ?_⟩
  · obtain ⟨-, h2, h3⟩ := mem_copyTasks.mp ht
    exact hb (heq ▸ sectorOf_inFats h2 h3)
  · obtain ⟨hall, t, ht, f, hf, hu⟩ := huses u hu
    obtain ⟨h1, h2, h3⟩ := mem_copyTasks.mp ht
    exact ⟨hall, by omega, t.2, h3, f, hf, hu⟩
  · refine copiesAgree_of_agree (fun i hi k hk => ?_) hv
    refine hagree hok (fun t ht => ?_) (i, k) ?_
    · obtain ⟨h1, h2, h3⟩ := mem_copyTasks.mp ht
      exact hdue t h1 h2 h3
    · by_cases hzero : i = 0
      · subst hzero
        exact .inr ⟨hk, fun _ _ _ => rfl⟩
      · exact .inl (mem_copyTasks.mpr ⟨Nat.one_le_iff_ne_zero.mpr hzero, hi, hk⟩)

/-! ## 4. All copies are equal -/

/-- **The condition on a synchronisation**: the field, if there is one, reaches as far as the number
of the last sector of the first FAT, and that sector is no obstacle. -/
structure SyncOk (v : Volume) (h : Handle) : Prop where
  bits : h.fatLabelsChanged = true → 1 < v.numberOfFats → h.fatChangeField ≠ none →
    (v.fatStart + v.sectorsPerFat - 1) / sectorsPerBit v < 8 * fieldBytes v
  last : LastOk v h.disk

theorem synchronize_safe (hv : v.Valid) (hm : FieldMade v h) (hok : SyncOk v h)
    (io : BackupIo) : StepSafe v h (synchronizeFATs v io h) := by
  unfold synchronizeFATs
  split
  · rename_i hchanged
    obtain ⟨hframe, huses, -⟩ := privateBackupFat_spec hv false io h
    refine ⟨fun u hu => ?_, hframe⟩
    obtain ⟨-, hfats, k, hk, f, hf, rfl⟩ := huses u hu
    have hlast := hok.bits hchanged hfats (by rw [hf]; exact Option.some_ne_none f)
    have hle : v.sectorOf 0 k / sectorsPerBit v ≤
        (v.fatStart + v.sectorsPerFat - 1) / sectorsPerBit v :=
      Nat.div_le_div_right (by unfold Volume.sectorOf; omega)
    rw [hm f hf]
    exact Nat.div_lt_of_lt_mul (lt_of_le_of_lt hle hlast)
  · exact ⟨by simp, fun _ _ => rfl⟩

/-- **After a successful synchronisation all copies agree.** -/
theorem synchronize_equal (hv : v.Valid) (hm : Marked v h) (hok : SyncOk v h)
    (hrun : (synchronizeFATs v io h).ok = true) :
    CopiesAgree v (synchronizeFATs v io h).handle.disk := by
  unfold synchronizeFATs at hrun ⊢
  split
  · rename_i hchanged
    rw [if_pos hchanged] at hrun
    refine (privateBackupFat_spec hv false io h).2.2 hrun fun t h1 h2 h3 => ?_
    rcases hm t.1 h2 t.2 h3 with hagree | ⟨-, hbit⟩
    · exact .inl hagree
    · by_cases hlast : t.2 = v.sectorsPerFat - 1 ∧ v.fatBytes = 512 * v.sectorsPerFat
      · rcases hok.last with hne | hagree
        · exact absurd hlast.2 hne
        · left
          have hl := hagree t.1 h2
          rw [← hlast.1] at hl
          exact hl
      · exact .inr ⟨.inr hbit, fun hk heq => hlast ⟨hk, heq⟩⟩
  · rename_i hno
    refine copiesAgree_of_agree (fun i hi k hk => ?_) hv
    rcases hm i hi k hk with hagree | ⟨hchanged, -⟩
    · exact hagree
    · exact absurd hchanged hno

/-- **After a successful `BackupFat` all copies agree**, whatever they held. -/
theorem backupFat_equal (hv : v.Valid) (hlast : LastOk v h.disk)
    (hrun : (backupFat v io h).ok = true) : CopiesAgree v (backupFat v io h).handle.disk := by
  refine (privateBackupFat_spec hv true io h).2.2 hrun fun t h1 h2 h3 => ?_
  by_cases hk : t.2 = v.sectorsPerFat - 1 ∧ v.fatBytes = 512 * v.sectorsPerFat
  · rcases hlast with hne | hagree
    · exact absurd hk.2 hne
    · left
      have hl := hagree t.1 h2
      rw [← hk.1] at hl
      exact hl
  · exact .inr ⟨.inl rfl, fun h1 h2 => hk ⟨h1, h2⟩⟩

theorem backupFat_safe (hv : v.Valid) (h : Handle) (io : BackupIo) :
    StepSafe v h (backupFat v io h) := by
  obtain ⟨hframe, huses, -⟩ := privateBackupFat_spec hv true io h
  refine ⟨fun u hu => ?_, hframe⟩
  obtain ⟨hall, -⟩ := huses u hu
  cases hall

/-- **All copies of the FAT stay equal**: from copies that agree, along every run of writes that
meet their condition, no bit outside the field is used and no sector outside the FATs is changed;
a synchronisation after the run that meets its own, and a `BackupFat` in any state, do so too, and
when they succeed every label is the same in all copies. -/
theorem fat_copies_equal {v : Volume} (hv : v.Valid) {h : Handle} (hagree : CopiesAgree v h.disk)
    (hmade : FieldMade v h) (calls : List (WriteCall v)) (hok : Guarded (writeStep v) (WriteOk v) h calls) :
    Along (writeStep v) (fun h _ r => StepSafe v h r.1) h calls ∧
      (SyncOk v (run (writeStep v) h calls) → ∀ io,
        StepSafe v (run (writeStep v) h calls) (synchronizeFATs v io (run (writeStep v) h calls)) ∧
          ((synchronizeFATs v io (run (writeStep v) h calls)).ok = true →
            SameLabels v (synchronizeFATs v io (run (writeStep v) h calls)).handle.disk)) ∧
      ∀ (any : Handle), LastOk v any.disk → ∀ io, StepSafe v any (backupFat v io any) ∧
        ((backupFat v io any).ok = true → SameLabels v (backupFat v io any).handle.disk) := by
  have hmarked : Marked v h := fun i hi k _ => Or.inl (agree_of_copiesAgree hagree hi)
  have hkeep : ∀ (s : Handle) (c : WriteCall v), Marked v s ∧ FieldMade v s → WriteOk v s c →
      Marked v (writeStep v s c).2 ∧ FieldMade v (writeStep v s c).2 :=
    fun s c hm hc => ⟨writeStep_marked hv hm.1 hc, writeStep_made hm.2⟩
  obtain ⟨hm, hm'⟩ := Guarded.run_invariant hkeep calls h ⟨hmarked, hmade⟩ hok
  refine ⟨?_, fun hsync io => ⟨synchronize_safe hv hm' hsync io, fun hrun => ?_⟩,
    fun any hlast io => ⟨backupFat_safe hv any io, fun hrun => ?_⟩⟩
  · exact Along.of_invariant hkeep (fun s c hm hc => writeStep_safe hv hm.2 hc) calls h
      ⟨hmarked, hmade⟩ hok
  · exact sameLabels_of_copiesAgree (synchronize_equal hv hm hsync hrun)
  · exact sameLabels_of_copiesAgree (backupFat_equal hv hlast hrun)

/-! ## 5. A diskette, and volumes whose copies come apart -/

/-- A diskette: two FATs of 9 sectors, behind the boot sector. -/
def diskette : Volume := ⟨1, 2, 9, .fat12, 2849⟩

/-- Nothing but zeros. -/
def blank : Handle := ⟨fun _ _ => 0, false, none⟩

def goodWrite : WriteIo := ⟨true, true, true, fun _ => true, true, fun _ => true⟩

def goodCopy : BackupIo := ⟨true, fun _ => ⟨true, true, true, fun _ => 0⟩⟩

theorem diskette_valid : diskette.Valid := ⟨by decide, by decide, by decide, by decide⟩

/-- Cluster 2 of the diskette becomes the last of a file. -/
def endOfFile : WriteCall diskette := ⟨⟨2, by decide⟩, FAT_LAST_LABEL, goodWrite⟩

theorem diskette_copies_equal :
    Along (writeStep diskette) (fun h _ r => StepSafe diskette h r.1) blank [endOfFile] ∧
      ((synchronizeFATs diskette goodCopy (run (writeStep diskette) blank [endOfFile])).ok = true →
        SameLabels diskette
          (synchronizeFATs diskette goodCopy (run (writeStep diskette) blank [endOfFile])).handle.disk) := by
  have hwrite : WriteOk diskette blank endOfFile :=
    ⟨fun _ _ => by decide, nofun⟩
  have hsync : SyncOk diskette (run (writeStep diskette) blank [endOfFile]) :=
    ⟨fun _ _ _ => by decide, Or.inl (by decide)⟩
  have hall := fat_copies_equal diskette_valid (h := blank) (fun _ _ _ _ => rfl) nofun [endOfFile]
    ⟨hwrite, trivial⟩
  exact ⟨hall.1, (hall.2.1 hsync goodCopy).2⟩

/-- Two FATs of three sectors, which the 1024 labels fill. -/
def fullVolume : Volume := ⟨1, 2, 3, .fat12, 1024⟩

/-- The label lies in the last sector. -/
def fullWrite : WriteCall fullVolume := ⟨⟨1000, by decide⟩, FAT_LAST_LABEL, goodWrite⟩

/-- **The last sector of a full FAT is not copied**: `SynchronizeFATs` succeeds, and the copies
differ in the label that was written. -/
theorem full_fat_not_copied :
    ¬ ∀ (v : Volume), v.Valid → ∀ h, CopiesAgree v h.disk → h.fatChangeField = none →
      h.fatLabelsChanged = false → ∀ (calls : List (WriteCall v)) (io : BackupIo),
        (synchronizeFATs v io (run (writeStep v) h calls)).ok = true →
          SameLabels v (synchronizeFATs v io (run (writeStep v) h calls)).handle.disk := by
  intro hall
  have hsame := hall fullVolume ⟨by decide, by decide, by decide, by decide⟩ blank
    (fun _ _ _ _ => rfl) rfl rfl [fullWrite] goodCopy (by decide)
  exact nomatch hsame 1 (by decide) 1000 (by decide)

end SdcBoot.Defrag
