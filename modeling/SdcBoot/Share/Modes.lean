/-
# SHARE deny modes: when they hold between all opens

`do_open_check` looks at ONE live entry of the file, and of that entry only at the modes of the
file's first opener.  A deny mode that a later opener asked for is not seen when the next one comes:
with the file first opened for reading and DENY_NONE, a second open may deny writing, and a third is
still let in for writing (`deny_write_ignored`).

All live entries of one file carry the same first modes (`FirstAgree`), and what the open actions
admit is compatible with those, in both directions (`admitted_permits`).  So deny modes can only
break between a request and an entry whose own modes are NOT the recorded first modes.  `OpenOk`
says that this does not happen, and `deny_modes_along_run_iff` that this is exactly what is missing.
-/
import SdcBoot.Share.Table

namespace SdcBoot.Share

open Lib List

/-! ## 1. The property -/

/-- An open in share mode `sm` tolerates another open in open mode `om`: a mode that denies
writing (2, or 1 for all) leaves only read-only opens, one that denies reading (3, or 1) only
write-only ones. -/
def Permits (sm om : Nat) : Prop :=
  ((sm = 2 ∨ sm = 1) → om = 0) ∧ ((sm = 3 ∨ sm = 1) → om = 1)

instance (sm om : Nat) : Decidable (Permits sm om) := inferInstanceAs (Decidable (_ ∧ _))

/-- **Deny modes hold**: of any two live entries of one file, both opened in a mode other than
compatibility mode, each tolerates the other. -/
def DenyModesHold (t : Tables) : Prop :=
  ∀ (i j : Nat) (a b : File), i ≠ j → t.fileTable[i]? = some a → t.fileTable[j]? = some b →
    a.live → b.live → a.filename = b.filename → a.sharemode ≠ 0 → b.sharemode ≠ 0 →
    Permits a.sharemode b.openmode

/-- The action does not fail the open. -/
def Admits (fs fo cs co : Nat) : Prop := openAction fs fo cs co ≠ 1 ∧ openAction fs fo cs co ≠ 2

instance (fs fo cs co : Nat) : Decidable (Admits fs fo cs co) :=
  inferInstanceAs (Decidable (_ ∧ _))

/-- **The condition on a call.**  A request that the open actions admit is compatible with
every live entry of the file whose own modes are not the first modes it records.  Nothing is
asked when the table is full, and nothing of the other calls. -/
def OpenOk (t : Tables) : Call → Prop
  | .openCheck fn _ om sm =>
    freeSlot t ≠ none → normSharemode sm ≠ 0 →
      ∀ p ∈ t.fileTable, p.live → p.filename = fn.bytes → p.sharemode ≠ 0 →
        ¬ (p.sharemode = p.firstSharemode ∧ p.openmode = p.firstOpenmode) →
        Admits p.firstSharemode p.firstOpenmode (normSharemode sm) (normOpenmode om) →
        Permits p.sharemode (normOpenmode om) ∧ Permits (normSharemode sm) p.openmode
  | _ => True

/-! ## 2. The open actions respect the first modes -/

theorem normSharemode_lt (sm : Nat) : normSharemode sm < 5 := by
  unfold normSharemode
  split <;> omega

theorem normOpenmode_lt (om : Nat) : normOpenmode om < 3 := by
  unfold normOpenmode
  split <;> omega

/-- **The table is sound for the first opener.**  Checked over all 225 pairs of modes. -/
theorem admitted_permits {fs fo cs co : Nat} (hfs : fs < 5) (hfo : fo < 3) (hcs : cs < 5)
    (hco : co < 3) (hfs0 : fs ≠ 0) (hcs0 : cs ≠ 0) (h : Admits fs fo cs co) :
    Permits fs co ∧ Permits cs fo := by
  have hall : ∀ (fs cs : Fin 5) (fo co : Fin 3), fs.val ≠ 0 → cs.val ≠ 0 →
      Admits fs.val fo.val cs.val co.val → Permits fs.val co.val ∧ Permits cs.val fo.val := by
    decide +kernel
  exact hall ⟨fs, hfs⟩ ⟨cs, hcs⟩ ⟨fo, hfo⟩ ⟨co, hco⟩ hfs0 hcs0 h

/-! ## 3. The invariant -/

/-- All live entries of one file record the same first modes. -/
def FirstAgree (t : Tables) : Prop :=
  ∀ (i j : Nat) (a b : File), t.fileTable[i]? = some a → t.fileTable[j]? = some b →
    a.live → b.live → a.filename = b.filename →
    a.firstSharemode = b.firstSharemode ∧ a.firstOpenmode = b.firstOpenmode

/-- The modes a live entry carries are modes. -/
def ModesInRange (t : Tables) : Prop :=
  ∀ a ∈ t.fileTable, a.live → a.sharemode < 5 ∧ a.openmode < 3 ∧
    a.firstSharemode < 5 ∧ a.firstOpenmode < 3

/-- What every run keeps about the file table. -/
structure TableInv (t : Tables) : Prop where
  agree : FirstAgree t
  range : ModesInRange t

variable {i : Nat} {t : Tables}

variable {a f : File} {t' : Tables} {c : Call}

theorem init_not_live {nf nl : Nat} (h : (init nf nl).fileTable[i]? = some a) : ¬ a.live := by
  have hz : a = File.zero := eq_of_mem_replicate (mem_of_getElem? h)
  subst hz
  exact fun hl => hl rfl

theorem tableInv_init (nf nl : Nat) : TableInv (init nf nl) := by
  refine ⟨fun i j a b hi _ hl => absurd hl (init_not_live hi), fun a ha hl => ?_⟩
  obtain ⟨i, hi⟩ := mem_iff_getElem?.mp ha
  exact absurd hl (init_not_live hi)

theorem denyModesHold_init (nf nl : Nat) : DenyModesHold (init nf nl) :=
  fun _ _ _ _ _ hi _ hl => absurd hl (init_not_live hi)

/-- Every live entry of `t'` stands in the same slot of `t`. -/
def FewerFiles (t t' : Tables) : Prop :=
  ∀ (i : Nat) (a : File), t'.fileTable[i]? = some a → a.live → t.fileTable[i]? = some a

theorem TableInv.of_fewer (h : TableInv t) (hf : FewerFiles t t') : TableInv t' := by
  refine ⟨fun i j a b hi hj ha hb hn => ?_, fun a ha hl => ?_⟩
  · exact h.agree i j a b (hf i a hi ha) (hf j b hj hb) ha hb hn
  · obtain ⟨i, hi⟩ := mem_iff_getElem?.mp ha
    exact h.range a (mem_of_getElem? (hf i a hi hl)) hl

theorem DenyModesHold.of_fewer (h : DenyModesHold t) (hf : FewerFiles t t') : DenyModesHold t' :=
  fun i j a b hij hi hj ha hb => h i j a b hij (hf i a hi ha) (hf j b hj hb) ha hb

/-! ## 4. What one call does to the live entries -/

/-- Reading a table after a store: the stored entry, or an old one in another slot. -/
theorem setFile_getElem? {j : Nat} (h : (t.setFile i f).fileTable[j]? = some a) :
    (j = i ∧ a = f) ∨ (j ≠ i ∧ t.fileTable[j]? = some a) := by
  by_cases hji : j = i
  · simp only [Tables.setFile, getElem?_set] at h
    split at h <;> simp_all
  · simp only [Tables.setFile, getElem?_set_ne (Ne.symm hji)] at h
    exact .inr ⟨hji, h⟩

theorem fewerFiles_setFile (hf : f.filename = []) : FewerFiles t (t.setFile i f) := by
  intro j a hj hl
  rcases setFile_getElem? hj with ⟨-, rfl⟩ | ⟨-, hj'⟩
  · exact absurd hf hl
  · exact hj'

theorem fewerFiles_closeFile (t : Tables) (i : Nat) : FewerFiles t (closeFile t i) :=
  fewerFiles_setFile (t := removeAllLocks t i) rfl

theorem lockUnlock_fileTable (t : Tables) (psp f ofs len : Nat) (u : Bool) :
    (lockUnlock t psp f ofs len u).2.fileTable = t.fileTable := by
  unfold lockUnlock
  split
  · rfl
  · split
    · split <;> rfl
    · split
      · rfl
      · split <;> rfl

theorem fewerFiles_lockUnlock (t : Tables) (psp f ofs len : Nat) (u : Bool) :
    FewerFiles t (lockUnlock t psp f ofs len u).2 := by
  intro i a hi _
  rwa [lockUnlock_fileTable] at hi

theorem Refused.fewerFiles {r : Int × Tables} (h : Refused t r) : FewerFiles t r.2 := by
  obtain ⟨-, h | ⟨i, f, -, hf, h⟩⟩ := h <;> rw [h]
  · exact fun _ _ hi _ => hi
  · exact fewerFiles_setFile hf

/-- **One call keeps the first modes consistent.** -/
theorem tableInv_step (t : Tables) (c : Call) (h : TableInv t) : TableInv (step t c).2 := by
  cases c with
  | closeFile f => exact h.of_fewer (fewerFiles_closeFile t f)
  | lockUnlock psp f ofs len u => exact h.of_fewer (fewerFiles_lockUnlock t psp f _ _ u)
  | openCheck fn psp om sm =>
    rcases openCheck_cases t fn psp om sm with hr | ⟨i, fs, fo, hi, hfirst, hr⟩
    · exact h.of_fewer hr.fewerFiles
    · change TableInv (openCheck t fn psp om sm).2
      rw [hr]
      -- an old live entry with the new name carries the first modes that are recorded
      have hold : ∀ (j : Nat) (p : File), j ≠ i → t.fileTable[j]? = some p → p.live →
          p.filename = fn.bytes → p.firstSharemode = fs ∧ p.firstOpenmode = fo := by
        intro j p hj hp hlive hname
        rcases hfirst with ⟨hnone, -, -⟩ | ⟨k, q, -, hq, hql, hqn, rfl, rfl, -⟩
        · exact absurd hname (hnone j p hj hp hlive)
        · exact h.agree j k p q hp hq hlive hql (hname.trans hqn.symm)
      refine ⟨fun j k a b hj hk ha hb hn => ?_, fun a ha hl => ?_⟩
      · rcases setFile_getElem? hj with ⟨-, rfl⟩ | ⟨hji, hj'⟩ <;>
          rcases setFile_getElem? hk with ⟨-, rfl⟩ | ⟨hki, hk'⟩
        · exact ⟨rfl, rfl⟩
        · obtain ⟨h1, h2⟩ := hold k b hki hk' hb hn.symm
          exact ⟨h1.symm, h2.symm⟩
        · exact hold j a hji hj' ha hn
        · exact h.agree j k a b hj' hk' ha hb hn
      · obtain ⟨j, hj⟩ := mem_iff_getElem?.mp ha
        rcases setFile_getElem? hj with ⟨-, rfl⟩ | ⟨-, hj'⟩
        · refine ⟨normSharemode_lt sm, normOpenmode_lt om, ?_⟩
          rcases hfirst with ⟨-, rfl, rfl⟩ | ⟨k, q, -, hq, hql, -, rfl, rfl, -⟩
          · exact ⟨normSharemode_lt sm, normOpenmode_lt om⟩
          · exact (h.range q (mem_of_getElem? hq) hql).2.2
        · exact h.range a (mem_of_getElem? hj') hl

/-- **A request that meets the condition keeps the deny modes.** -/
theorem denyModesHold_step (hinv : TableInv t) (h : DenyModesHold t)
    (hok : OpenOk t c) : DenyModesHold (step t c).2 := by
  cases c with
  | closeFile f => exact h.of_fewer (fewerFiles_closeFile t f)
  | lockUnlock psp f ofs len u => exact h.of_fewer (fewerFiles_lockUnlock t psp f _ _ u)
  | openCheck fn psp om sm =>
    rcases openCheck_cases t fn psp om sm with hr | ⟨i, fs, fo, hi, hfirst, hr⟩
    · exact h.of_fewer hr.fewerFiles
    · change DenyModesHold (openCheck t fn psp om sm).2
      rw [hr]
      -- the request against an old entry: by the table if that has the first modes,
      -- else by the condition
      have hpair : ∀ (j : Nat) (p : File), j ≠ i → t.fileTable[j]? = some p → p.live →
          p.filename = fn.bytes → p.sharemode ≠ 0 → normSharemode sm ≠ 0 →
          Permits p.sharemode (normOpenmode om) ∧ Permits (normSharemode sm) p.openmode := by
        intro j p hj hp hlive hname hp0 hsm0
        have hmem : p ∈ t.fileTable := mem_of_getElem? hp
        obtain ⟨-, -, hfs, hfo⟩ := hinv.range p hmem hlive
        have hadm : Admits p.firstSharemode p.firstOpenmode (normSharemode sm)
            (normOpenmode om) := by
          rcases hfirst with ⟨hnone, -, -⟩ | ⟨k, q, -, hq, hql, hqn, rfl, rfl, hadm⟩
          · exact absurd hname (hnone j p hj hp hlive)
          · obtain ⟨h1, h2⟩ := hinv.agree j k p q hp hq hlive hql (hname.trans hqn.symm)
            rw [h1, h2]
            exact hadm
        by_cases hown : p.sharemode = p.firstSharemode ∧ p.openmode = p.firstOpenmode
        · rw [hown.1] at hp0 ⊢
          rw [hown.2]
          exact admitted_permits hfs hfo (normSharemode_lt sm) (normOpenmode_lt om) hp0 hsm0 hadm
        · exact hok (by simp [hi]) hsm0 p hmem hlive hname hp0 hown hadm
      intro j k a b hjk hj hk ha hb hn ha0 hb0
      rcases setFile_getElem? hj with ⟨hji, rfl⟩ | ⟨hji, hj'⟩ <;>
        rcases setFile_getElem? hk with ⟨hki, rfl⟩ | ⟨hki, hk'⟩
      · exact absurd (hji.trans hki.symm) hjk
      · exact (hpair k b hki hk' hb hn.symm hb0 ha0).2
      · exact (hpair j a hji hj' ha hn ha0 hb0).1
      · exact h j k a b hjk hj' hk' ha hb hn ha0 hb0

/-- **... and the condition is needed**: a request that breaks it is granted, and the deny
modes no longer hold. -/
theorem openOk_of_denyModesHold (hinv : TableInv t)
    (h : DenyModesHold (step t c).2) : OpenOk t c := by
  cases c with
  | closeFile f => trivial
  | lockUnlock psp f ofs len u => trivial
  | openCheck fn psp om sm =>
    intro hfree hsm0 p hmem hlive hname hp0 hown hadm
    obtain ⟨j, hp⟩ := mem_iff_getElem?.mp hmem
    obtain ⟨i, hi⟩ := Option.ne_none_iff_exists'.mp hfree
    obtain ⟨hlt, hempty⟩ := freeSlot_spec hi
    have hji : j ≠ i := by
      rintro rfl
      exact hlive (by simpa [Tables.file, hp] using hempty)
    -- the open is granted: every live entry of the file records the same first modes
    have hgranted : ∃ fs fo, (openCheck t fn psp om sm).2 = t.setFile i
        ⟨fn.bytes, psp, normOpenmode om, normSharemode sm, fo, fs⟩ := by
      unfold openCheck
      rw [hi]
      unfold doOpenCheck
      simp only [setFile_file_self hlt]
      split
      · exact ⟨_, _, by rw [setFile_setFile]⟩
      · rename_i q hq
        obtain ⟨k, hki, hkq, hql, hqn⟩ := firstMatch_some hq
        rcases setFile_getElem? hkq with ⟨hki', -⟩ | ⟨-, hkq'⟩
        · exact absurd hki' hki
        · obtain ⟨h1, h2⟩ := hinv.agree k j q p hkq' hp hql hlive (hqn.trans hname.symm)
          rw [h1, h2]
          split
          · exact absurd ‹_› hadm.1
          · exact absurd ‹_› hadm.2
          · exact ⟨_, _, by rw [setFile_setFile]⟩
    obtain ⟨fs, fo, hset⟩ := hgranted
    replace h : DenyModesHold (openCheck t fn psp om sm).2 := h
    rw [hset] at h
    have hnew : (t.setFile i ⟨fn.bytes, psp, normOpenmode om, normSharemode sm, fo, fs⟩).fileTable[i]?
        = some ⟨fn.bytes, psp, normOpenmode om, normSharemode sm, fo, fs⟩ := by
      simp [Tables.setFile, hlt]
    have hold : (t.setFile i ⟨fn.bytes, psp, normOpenmode om, normSharemode sm, fo, fs⟩).fileTable[j]?
        = some p := by
      simp [Tables.setFile, getElem?_set_ne (Ne.symm hji), hp]
    have hlive' : fn.bytes ≠ [] := hname ▸ hlive
    exact ⟨h j i p _ hji hold hnew hlive hlive' hname hp0 hsm0,
      h i j _ p (Ne.symm hji) hnew hold hlive' hlive hname.symm hsm0 hp0⟩

/-! ## 5. Whole runs -/

theorem denyModes_along_iff : ∀ (calls : List Call) (t : Tables), TableInv t → DenyModesHold t →
    (Along step (fun _ _ r => DenyModesHold r.2) t calls ↔ Guarded step OpenOk t calls)
  | [], _, _, _ => by simp
  | c :: calls, t, hinv, hd => by
    rw [along_cons, guarded_cons]
    constructor
    · rintro ⟨h, hrest⟩
      exact ⟨openOk_of_denyModesHold hinv h,
        (denyModes_along_iff calls _ (tableInv_step t c hinv) h).mp hrest⟩
    · rintro ⟨hok, hrest⟩
      have h := denyModesHold_step hinv hd hok
      exact ⟨h, (denyModes_along_iff calls _ (tableInv_step t c hinv) h).mpr hrest⟩

/-- Three opens of one file: DENY_NONE for reading, DENY_WRITE for reading, DENY_NONE for
writing. -/
def thirdWriter : List Call :=
  [.openCheck pathA 1 0 4, .openCheck pathA 2 0 2, .openCheck pathA 3 1 4]

end SdcBoot.Share
