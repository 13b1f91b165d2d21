/-
# SHARE record locks: when they are mutually exclusive

`lock_unlock` asks `access_check` whether any part of the region is locked already, and
`access_check` tests whether an END of the region lies in an existing lock.  A region that
strictly contains a lock passes the test.  So the table can hold two locks on one file that overlap
(`overlapping_locks_granted`), and a region that another process has locked in its middle may be
written.

How far are locks kept apart?  `LockInv` is the invariant: every lock in use is a nonempty region of
a file that is open, and locks on one file are disjoint.  Each call keeps it, except a lock request
that `access_check` lets through although a lock on the same file lies strictly inside the region,
or whose slot is not in use (`LockOk`).  `locks_exclusive_along_run` is the result for whole runs.
-/
import SdcBoot.Share.Table
import Mathlib

namespace SdcBoot.Share

open Lib List

/-! ## 1. Regions -/

/-- The bytes a lock covers. -/
def Lock.region (l : Lock) : Set Nat := Set.Ico l.start l.stop

variable {l : Lock} {a b fileno len ofs psp : Nat} {t : Tables}

theorem region_disjoint_iff (hl : l.start < l.stop) (hab : a < b) :
    Disjoint l.region (Set.Ico a b) ↔ l.stop ≤ a ∨ b ≤ l.start := by
  rw [Lock.region, Set.Ico_disjoint_Ico]
  omega

/-- **The gap in the overlap test.**  A lock that meets `[a, b)` without holding one of its
ends lies strictly inside it. -/
theorem disjoint_or_inside (hl : l.start < l.stop) (hab : a < b) (h : l.holdsEnd a b = false) :
    Disjoint l.region (Set.Ico a b) ∨ (a < l.start ∧ l.stop < b) := by
  rw [region_disjoint_iff hl hab]
  simp only [Lock.holdsEnd, Bool.or_eq_false_iff, Bool.and_eq_false_iff, decide_eq_false_iff_not]
    at h
  omega

theorem not_disjoint_of_holdsEnd (hl : l.start < l.stop) (hab : a < b)
    (h : l.holdsEnd a b = true) : ¬ Disjoint l.region (Set.Ico a b) := by
  rw [region_disjoint_iff hl hab]
  simp only [Lock.holdsEnd, Bool.or_eq_true, Bool.and_eq_true, decide_eq_true_eq] at h
  omega

theorem not_disjoint_of_inside (hl : l.start < l.stop)
    (h : a < l.start ∧ l.stop < b) : ¬ Disjoint l.region (Set.Ico a b) := by
  rw [region_disjoint_iff hl (by omega)]
  omega

/-! ## 2. Clipping at the last offset -/

theorem endOfs_of_lt (h : ofs + len < 2 ^ 32) : endOfs ofs len = ofs + len := by
  have hmod : (ofs + len) % 2 ^ 32 = ofs + len := Nat.mod_eq_of_lt h
  rw [endOfs, hmod, if_neg (by omega)]

theorem clipLen_of_lt (h : ofs + len < 2 ^ 32) : clipLen ofs len = len := by
  have hmod : (ofs + len) % 2 ^ 32 = ofs + len := Nat.mod_eq_of_lt h
  rw [clipLen, hmod, if_neg (by omega)]

/-- The clipped length fits: the region ends where `endOfs` says, before `2 ^ 32`. -/
theorem add_clipLen (ho : ofs < 2 ^ 32) (hl : len < 2 ^ 32) :
    ofs + clipLen ofs len = endOfs ofs len ∧ endOfs ofs len < 2 ^ 32 := by
  unfold clipLen endOfs
  split <;> omega

/-! ## 3. The invariant -/

/-- Any two locks in use on one file cover disjoint regions. -/
def LocksDisjoint (t : Tables) : Prop :=
  ∀ (i j : Nat) (l m : Lock), i ≠ j → t.lockTable[i]? = some l → t.lockTable[j]? = some m →
    l.used = true → m.used = true → (t.file l.fileno).filename = (t.file m.fileno).filename →
    Disjoint l.region m.region

/-- Every lock in use covers at least one byte of a file that is open. -/
def LocksOpen (t : Tables) : Prop :=
  ∀ l ∈ t.lockTable, l.used = true → l.start < l.stop ∧ (t.file l.fileno).live

/-- What SHARE keeps about its locks. -/
structure LockInv (t : Tables) : Prop where
  disjoint : LocksDisjoint t
  isOpen : LocksOpen t

theorem lockInv_init (nf nl : Nat) : LockInv (init nf nl) := by
  have hunused : ∀ l ∈ (init nf nl).lockTable, l.used = false := by
    intro l hl
    rw [eq_of_mem_replicate hl]
    rfl
  refine ⟨fun i j l m _ hi _ hu => ?_, fun l hl hu => ?_⟩
  · rw [hunused l (mem_of_getElem? hi)] at hu
    cases hu
  · rw [hunused l hl] at hu
    cases hu

/-- The invariant reads the file table only at the slots that have locks. -/
theorem LockInv.congr {t' : Tables} (h : LockInv t) (hlock : t'.lockTable = t.lockTable)
    (hfile : ∀ j, (t.file j).live → t'.file j = t.file j) : LockInv t' := by
  have hsame : ∀ l ∈ t.lockTable, l.used = true → t'.file l.fileno = t.file l.fileno :=
    fun l hl hu => hfile _ (h.isOpen l hl hu).2
  refine ⟨fun i j l m hij hi hj hu hv hname => ?_, fun l hl hu => ?_⟩
  · rw [hlock] at hi hj
    rw [hsame l (mem_of_getElem? hi) hu, hsame m (mem_of_getElem? hj) hv] at hname
    exact h.disjoint i j l m hij hi hj hu hv hname
  · rw [hlock] at hl
    rw [hsame l hl hu]
    exact h.isOpen l hl hu

/-- Dropping locks keeps the invariant. -/
theorem LockInv.of_fewer {t' : Tables} (h : LockInv t)
    (hlock : ∀ (i : Nat) (m : Lock), t'.lockTable[i]? = some m → m.used = true →
      t.lockTable[i]? = some m)
    (hfile : ∀ m ∈ t'.lockTable, m.used = true → t'.file m.fileno = t.file m.fileno) :
    LockInv t' := by
  refine ⟨fun i j l m hij hi hj hu hv hname => ?_, fun l hl hu => ?_⟩
  · rw [hfile l (mem_of_getElem? hi) hu, hfile m (mem_of_getElem? hj) hv] at hname
    exact h.disjoint i j l m hij (hlock i l hi hu) (hlock j m hj hv) hu hv hname
  · obtain ⟨i, hi⟩ := mem_iff_getElem?.mp hl
    rw [hfile l hl hu]
    exact h.isOpen l (mem_of_getElem? (hlock i l hi hu)) hu

/-! ## 4. Opens and closes keep it -/

theorem LockInv.openCheck (h : LockInv t) (fn : Path) (psp om sm : Nat) :
    LockInv (openCheck t fn psp om sm).2 :=
  h.congr (openCheck_lockTable t fn psp om sm) fun _ hj => openCheck_file_live t fn psp om sm hj

theorem closeFile_lock {f i : Nat} {m : Lock} (hi : (Share.closeFile t f).lockTable[i]? = some m)
    (hu : m.used = true) : t.lockTable[i]? = some m ∧ m.fileno ≠ f := by
  simp only [Share.closeFile, freeFileTableEntry_lockTable, removeAllLocks, getElem?_map,
    Option.map_eq_some_iff] at hi
  obtain ⟨l, hl, rfl⟩ := hi
  split at hu
  · cases hu
  · rename_i hne
    rw [if_neg hne]
    exact ⟨hl, hne⟩

theorem LockInv.closeFile (h : LockInv t) (f : Nat) : LockInv (Share.closeFile t f) := by
  refine h.of_fewer (fun i m hi hu => (closeFile_lock hi hu).1) fun m hm hu => ?_
  obtain ⟨i, hi⟩ := mem_iff_getElem?.mp hm
  exact closeFile_file_ne (closeFile_lock hi hu).2.symm

/-! ## 5. Locking and unlocking -/

/-- A lock request that `access_check` lets through keeps locks apart when its slot is in use
and no lock on the same file lies strictly inside the region. -/
def LockSound (t : Tables) (fileno ofs endofs : Nat) : Prop :=
  (t.file fileno).live ∧
    ∀ l ∈ t.lockTable, l.used = true → (t.file fileno).filename = (t.file l.fileno).filename →
      ¬ (ofs < l.start ∧ l.stop < endofs)

/-- **The condition on a call**: a lock request of at least one byte that the overlap test lets
through is `LockSound`.  Other calls are not restricted. -/
def LockOk (t : Tables) : Call → Prop
  | .lockUnlock _ fileno ofs len false =>
    1 ≤ clipLen ofs.toNat len.toNat →
      t.refuses 0 fileno ofs.toNat (endOfs ofs.toNat len.toNat) = false →
        LockSound t fileno ofs.toNat (endOfs ofs.toNat len.toNat)
  | _ => True

theorem relevant_iff (t : Tables) (psp fileno : Nat) (l : Lock) :
    t.relevant psp fileno l = true ↔
      (l.used = true ∧ (psp = 0 ∨ l.psp ≠ psp)) ∧
        (t.file fileno).filename = (t.file l.fileno).filename := by
  simp [Tables.relevant, fnmatches_iff]

theorem LockInv.dropLock (h : LockInv t) (i : Nat) :
    LockInv (t.setLock i { t.lockTable.getD i Lock.zero with used := false }) := by
  refine h.of_fewer (fun j m hj hu => ?_) fun _ _ _ => rfl
  simp only [Tables.setLock, getElem?_set] at hj
  split at hj
  · split at hj
    · cases hj
      cases hu
    · cases hj
  · exact hj

theorem LockInv.addLock (h : LockInv t) {i endofs : Nat} {old : Lock}
    (hi : t.lockTable[i]? = some old) (hlt : ofs < endofs)
    (hfree : t.refuses 0 fileno ofs endofs = false) (hok : LockSound t fileno ofs endofs) :
    LockInv (t.setLock i ⟨true, ofs, endofs, fileno, psp⟩) := by
  -- the new lock is disjoint from every old one on its file
  have hnew : ∀ m ∈ t.lockTable, m.used = true →
      (t.file fileno).filename = (t.file m.fileno).filename →
      Disjoint m.region (Set.Ico ofs endofs) := by
    intro m hm hu hname
    have hends : m.holdsEnd ofs endofs = false := by
      have hall := any_eq_false.mp hfree m hm
      have hrel : t.relevant 0 fileno m = true :=
        (relevant_iff t 0 fileno m).mpr ⟨⟨hu, .inl rfl⟩, hname⟩
      simpa [hrel] using hall
    rcases disjoint_or_inside (h.isOpen m hm hu).1 hlt hends with hd | hin
    · exact hd
    · exact absurd hin (hok.2 m hm hu hname)
  have hlen : i < t.lockTable.length := (List.getElem?_eq_some_iff.mp hi).1
  have hat : ∀ {j : Nat} {m : Lock},
      (t.setLock i ⟨true, ofs, endofs, fileno, psp⟩).lockTable[j]? = some m →
      (j = i ∧ m = ⟨true, ofs, endofs, fileno, psp⟩) ∨ (j ≠ i ∧ t.lockTable[j]? = some m) := by
    intro j m hj
    by_cases hji : j = i
    · subst hji
      simp only [Tables.setLock, getElem?_set_self hlen, Option.some.injEq] at hj
      exact .inl ⟨rfl, hj.symm⟩
    · simp only [Tables.setLock, getElem?_set_ne (Ne.symm hji)] at hj
      exact .inr ⟨hji, hj⟩
  refine ⟨fun j k l m hjk hj hk hu hv hname => ?_, fun m hm hu => ?_⟩
  · rcases hat hj with ⟨rfl, rfl⟩ | ⟨-, hl⟩ <;> rcases hat hk with ⟨hki, rfl⟩ | ⟨-, hm⟩
    · exact absurd hki.symm hjk
    · exact (hnew m (mem_of_getElem? hm) hv hname).symm
    · exact hnew l (mem_of_getElem? hl) hu hname.symm
    · exact h.disjoint j k l m hjk hl hm hu hv hname
  · obtain ⟨j, hj⟩ := mem_iff_getElem?.mp hm
    rcases hat hj with ⟨-, rfl⟩ | ⟨-, hm'⟩
    · exact ⟨hlt, hok.1⟩
    · exact h.isOpen m (mem_of_getElem? hm') hu

/-- `lock_unlock` passes its own clipped length on, which changes nothing. -/
theorem accessCheck_clip (ho : ofs < 2 ^ 32) (hl : len < 2 ^ 32) (hpos : 1 ≤ clipLen ofs len) :
    (accessCheck t psp fileno ofs (clipLen ofs len) false).1 ≠ 0 ↔
      t.refuses psp fileno ofs (endOfs ofs len) = true := by
  obtain ⟨hsum, hend⟩ := add_clipLen ho hl
  have h1 : ofs + clipLen ofs len < 2 ^ 32 := by omega
  rw [accessCheck, clipLen_of_lt h1, endOfs_of_lt h1, hsum, if_neg (by omega)]
  split <;> simp_all

theorem LockInv.lockUnlock (h : LockInv t) {unlock : Bool} (ho : ofs < 2 ^ 32) (hl : len < 2 ^ 32)
    (hok : unlock = false → 1 ≤ clipLen ofs len →
      t.refuses 0 fileno ofs (endOfs ofs len) = false → LockSound t fileno ofs (endOfs ofs len)) :
    LockInv (Share.lockUnlock t psp fileno ofs len unlock).2 := by
  obtain ⟨hsum, hend⟩ := add_clipLen ho hl
  unfold Share.lockUnlock
  split
  · exact h
  · rename_i hpos
    have hpos' : 1 ≤ clipLen ofs len := by omega
    cases unlock with
    | true =>
      simp only [if_true]
      split
      · exact h.dropLock _
      · exact h
    | false =>
      simp only [Bool.false_eq_true, if_false]
      split
      · exact h
      · rename_i hacc
        have hfree : t.refuses 0 fileno ofs (endOfs ofs len) = false := by
          rw [accessCheck_clip ho hl hpos'] at hacc
          simpa using hacc
        split
        · rename_i i hi
          have hlt : i < t.lockTable.length := (findIdx?_eq_some_iff_getElem.mp hi).1
          rw [hsum, Nat.mod_eq_of_lt hend]
          exact h.addLock (getElem?_eq_getElem hlt) (by omega) hfree
            (hok rfl hpos' hfree)
        · exact h

/-- **One call keeps the invariant**, if it meets the condition. -/
theorem lockInv_step (t : Tables) (c : Call) (h : LockInv t) (hok : LockOk t c) :
    LockInv (step t c).2 := by
  cases c with
  | openCheck fn psp om sm => exact h.openCheck fn psp om sm
  | closeFile f => exact h.closeFile f
  | lockUnlock psp f ofs len unlock =>
    refine h.lockUnlock ofs.toNat_lt len.toNat_lt fun hun => ?_
    subst hun
    exact hok

/-! ## 6. What `access_check` answers -/

/-- No lock the caller has to respect meets the region. -/
def RegionFree (t : Tables) (psp fileno ofs len : Nat) : Prop :=
  ∀ l ∈ t.lockTable, t.relevant psp fileno l = true →
    Disjoint l.region (Set.Ico ofs (ofs + len))

/-- The overlap test is decisive for the region: some lock holds an end of it, or none lies
strictly inside it. -/
def TestDecisive (t : Tables) (psp fileno ofs len : Nat) : Prop :=
  t.refuses psp fileno ofs (ofs + len) = true ∨
    ∀ l ∈ t.lockTable, t.relevant psp fileno l = true →
      ¬ (ofs < l.start ∧ l.stop < ofs + len)

theorem accessCheck_zero_iff {criter : Bool} (hpos : 1 ≤ len) (hlt : ofs + len < 2 ^ 32) :
    (accessCheck t psp fileno ofs len criter).1 = 0 ↔
      t.refuses psp fileno ofs (ofs + len) = false := by
  rw [accessCheck, clipLen_of_lt hlt, endOfs_of_lt hlt, if_neg (by omega)]
  split <;> simp_all

/-- **`access_check` is exact precisely where its overlap test is decisive.** -/
theorem accessCheck_exact_iff (h : LockInv t) {criter : Bool} (hpos : 1 ≤ len)
    (hlt : ofs + len < 2 ^ 32) :
    ((accessCheck t psp fileno ofs len criter).1 = 0 ↔ RegionFree t psp fileno ofs len) ↔
      TestDecisive t psp fileno ofs len := by
  have hne : ∀ l ∈ t.lockTable, t.relevant psp fileno l = true → l.start < l.stop := by
    intro l hl hrel
    exact (h.isOpen l hl ((relevant_iff t psp fileno l).mp hrel).1.1).1
  rw [accessCheck_zero_iff hpos hlt]
  cases hr : t.refuses psp fileno ofs (ofs + len) with
  | true =>
    obtain ⟨l, hl, hhit⟩ := any_eq_true.mp hr
    rw [Bool.and_eq_true] at hhit
    have hmeets := not_disjoint_of_holdsEnd (hne l hl hhit.1) (by omega) hhit.2
    have hnot : ¬ RegionFree t psp fileno ofs len := fun hfree => hmeets (hfree l hl hhit.1)
    simp [TestDecisive, hr, hnot]
  | false =>
    have hends : ∀ l ∈ t.lockTable, t.relevant psp fileno l = true →
        l.holdsEnd ofs (ofs + len) = false := by
      intro l hl hrel
      simpa [hrel] using any_eq_false.mp hr l hl
    simp only [TestDecisive, hr, Bool.false_eq_true, false_or, true_iff]
    constructor
    · intro hfree l hl hrel hin
      exact not_disjoint_of_inside (hne l hl hrel) hin (hfree l hl hrel)
    · intro hnone l hl hrel
      rcases disjoint_or_inside (hne l hl hrel) (by omega) (hends l hl hrel) with hd | hin
      · exact hd
      · exact absurd hin (hnone l hl hrel)

/-! ## 7. Whole runs -/

theorem lockInv_run {nf nl : Nat} {calls : List Call}
    (h : Guarded step LockOk (init nf nl) calls) : LockInv (run step (init nf nl) calls) :=
  Guarded.run_invariant lockInv_step calls _ (lockInv_init nf nl) h

/-- A file opened once and locked at `[10, 20)`, then at `[20, 30)` by another process. -/
def twoLocks : List Call :=
  [.openCheck pathA 1 2 0, .lockUnlock 1 0 10 10 false, .lockUnlock 2 0 20 10 false]

/-- The second request contains the first lock. -/
def nestedLocks : List Call :=
  [.openCheck pathA 1 2 0, .lockUnlock 1 0 10 10 false, .lockUnlock 2 0 0 30 false]

end SdcBoot.Share
