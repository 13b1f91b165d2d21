/-
# SHARE: the first opener decides, in whatever slot it is found

`do_open_check` stops at the first live entry that has the name, wherever it stands, and copies the
modes of the file's first opener from there.  Slots are taken and given back in any order, the
first opener may long have closed the file, and still the decision is always made on its modes.

The reason is an invariant over the history of the table.  `note` keeps, beside the table, the modes of
the open that found no entry of the file, and forgets them when a call leaves none.  Every live entry carries exactly what was noted for its name (`Faithful`), so it makes
no difference which of them is met.
-/
import SdcBoot.Share.Modes

namespace SdcBoot.Share

open Lib List

/-! ## 1. The history of a name -/

/-- Some live entry has the name. -/
def Tables.IsOpen (t : Tables) (name : List UInt8) : Prop :=
  ∃ p ∈ t.fileTable, p.live ∧ p.filename = name

instance (t : Tables) (name : List UInt8) : Decidable (t.IsOpen name) :=
  inferInstanceAs (Decidable (∃ p ∈ t.fileTable, _))

/-- The modes a call asks for: share mode, open mode. -/
def Call.modes : Call → Option (Nat × Nat)
  | .openCheck _ _ openmode sharemode => some (normSharemode sharemode, normOpenmode openmode)
  | _ => none

/-- The modes of the earliest open of each file since it was last completely closed. -/
abbrev Earliest : Type := List UInt8 → Option (Nat × Nat)

/-- A call that leaves no entry of the file ends its history, one that finds none begins it. -/
def note (t : Tables) (first : Earliest) (c : Call) : Earliest := fun name =>
  if ¬ (step t c).2.IsOpen name then none
  else if t.IsOpen name then first name
  else c.modes

def earliest : Tables → Earliest → List Call → Earliest
  | _, first, [] => first
  | t, first, c :: calls => earliest (step t c).2 (note t first c) calls

/-! ## 2. Every live entry carries what was noted -/

/-- **The table agrees with its history.** -/
structure Faithful (t : Tables) (first : Earliest) : Prop where
  carried : ∀ p ∈ t.fileTable, p.live →
    first p.filename = some (p.firstSharemode, p.firstOpenmode)
  closed : ∀ name, ¬ t.IsOpen name → first name = none

theorem faithful_init (nf nl : Nat) : Faithful (init nf nl) fun _ => none := by
  refine ⟨fun p hp hlive => ?_, fun _ _ => rfl⟩
  obtain ⟨i, hi⟩ := mem_iff_getElem?.mp hp
  exact absurd hlive (init_not_live hi)

variable {t : Tables} {first : Earliest}

/-- An entry that was there before the call keeps its history. -/
theorem Faithful.kept (h : Faithful t first) {c : Call} {i : Nat} {p : File}
    (hnew : p ∈ (step t c).2.fileTable) (hold : t.fileTable[i]? = some p)
    (hlive : p.live) : note t first c p.filename = some (p.firstSharemode, p.firstOpenmode) := by
  have hmem : p ∈ t.fileTable := mem_of_getElem? hold
  unfold note
  rw [if_neg (not_not.mpr ⟨p, hnew, hlive, rfl⟩), if_pos ⟨p, hmem, hlive, rfl⟩]
  exact h.carried p hmem hlive

theorem Faithful.of_fewer (h : Faithful t first) {c : Call}
    (hf : FewerFiles t (step t c).2) : Faithful (step t c).2 (note t first c) := by
  refine ⟨fun p hp hlive => ?_, fun name hname => if_pos hname⟩
  obtain ⟨i, hi⟩ := mem_iff_getElem?.mp hp
  exact h.kept hp (hf i p hi hlive) hlive

/-- **One call**: an entry that is new carries the modes of its own request, when the file was not
open, and those of an entry that was there otherwise. -/
theorem faithful_step (h : Faithful t first) (c : Call) :
    Faithful (step t c).2 (note t first c) := by
  cases c with
  | closeFile f => exact h.of_fewer (fewerFiles_closeFile t f)
  | lockUnlock psp f ofs len u => exact h.of_fewer (fewerFiles_lockUnlock t psp f _ _ u)
  | openCheck fn psp om sm =>
    rcases openCheck_cases t fn psp om sm with hr | ⟨i, fs, fo, hi, hfirst, hr⟩
    · exact h.of_fewer hr.fewerFiles
    · refine ⟨fun p hp hlive => ?_, fun name hname => if_pos hname⟩
      obtain ⟨j, hj⟩ := mem_iff_getElem?.mp hp
      have hset : (step t (.openCheck fn psp om sm)).2.fileTable[j]? = some p := hj
      simp only [step, hr] at hset
      rcases setFile_getElem? hset with ⟨-, rfl⟩ | ⟨-, hj'⟩
      · unfold note
        rw [if_neg (not_not.mpr ⟨_, hp, hlive, rfl⟩)]
        rcases hfirst with ⟨hnone, rfl, rfl⟩ | ⟨k, q, -, hq, hql, hqn, rfl, rfl, -⟩
        · -- no live entry has the name: the slot that is taken is not live
          rw [if_neg]
          · rfl
          · rintro ⟨q, hq, hql, hqn⟩
            obtain ⟨k, hk⟩ := mem_iff_getElem?.mp hq
            refine hnone k q ?_ hk hql hqn
            rintro rfl
            exact hql (by simpa [Tables.file, hk] using (freeSlot_spec hi).2)
        · have hmem : q ∈ t.fileTable := mem_of_getElem? hq
          rw [if_pos ⟨q, hmem, hql, hqn⟩, ← hqn]
          exact h.carried q hmem hql
      · exact h.kept hp hj' hlive

theorem faithful_run : ∀ (calls : List Call) {t : Tables} {first : Earliest}, Faithful t first →
    Faithful (run step t calls) (earliest t first calls)
  | [], _, _, h => h
  | c :: calls, _, _, h => faithful_run calls (faithful_step h c)

/-! ## 3. The decision -/

/-- The decision on a request, from the first opener's modes: an error, or none. -/
def verdict : Option (Nat × Nat) → Nat → Nat → Option Int
  | none, _, _ => none
  | some (fs, fo), cs, co =>
    match openAction fs fo cs co with
    | 1 => some (-5)
    | 2 => some (-0x20)
    | _ => none

/-- The answer of `open_check`, from the history of the file and the request. -/
theorem openCheck_verdict (h : Faithful t first) (fn : Path) (psp om sm : Nat) :
    (openCheck t fn psp om sm).1 =
      match freeSlot t with
      | none => -1
      | some i => (verdict (first fn.bytes) (normSharemode sm) (normOpenmode om)).getD i := by
  unfold openCheck
  cases hi : freeSlot t with
  | none => rfl
  | some i =>
    obtain ⟨hlt, hempty⟩ := freeSlot_spec hi
    unfold doOpenCheck
    simp only [setFile_file_self hlt]
    split
    · rename_i hnone
      have hclosed : ¬ t.IsOpen fn.bytes := by
        rintro ⟨q, hq, hql, hqn⟩
        obtain ⟨k, hk⟩ := mem_iff_getElem?.mp hq
        have hki : k ≠ i := by
          rintro rfl
          exact hql (by simpa [Tables.file, hk] using hempty)
        refine firstMatch_none hnone ?_ hki hql hqn
        simpa [Tables.setFile, getElem?_set_ne (Ne.symm hki)] using hk
      rw [h.closed _ hclosed]
      rfl
    · rename_i p hsome
      obtain ⟨k, hki, hk, hlive, hname⟩ := firstMatch_some hsome
      rcases setFile_getElem? hk with ⟨hki', -⟩ | ⟨-, hk'⟩
      · exact absurd hki' hki
      · rw [← hname, h.carried p (mem_of_getElem? hk') hlive]
        simp only [verdict]
        generalize openAction p.firstSharemode p.firstOpenmode (normSharemode sm)
          (normOpenmode om) = action
        rcases action with _ | _ | _ | _
        · rfl
        · rfl
        · rfl
        · rfl

/-- **The open decision does not depend on the order of the table.**  The modes carried by the live
entries of a file are those of its earliest open; any of them decides a request alike; and a request
that is refused changes nothing but the contents of a slot that was and is free. -/
structure OrderFree (t : Tables) (first : Earliest) : Prop where
  same : ∀ p ∈ t.fileTable, ∀ q ∈ t.fileTable, p.live → q.live → p.filename = q.filename →
    p.firstSharemode = q.firstSharemode ∧ p.firstOpenmode = q.firstOpenmode
  carried : ∀ p ∈ t.fileTable, p.live →
    first p.filename = some (p.firstSharemode, p.firstOpenmode)
  decided : ∀ (fn : Path) (psp openmode sharemode : Nat),
    (openCheck t fn psp openmode sharemode).1 =
      match freeSlot t with
      | none => -1
      | some i =>
        (verdict (first fn.bytes) (normSharemode sharemode) (normOpenmode openmode)).getD i
  refused : ∀ (fn : Path) (psp openmode sharemode : Nat),
    (openCheck t fn psp openmode sharemode).1 < 0 →
      (openCheck t fn psp openmode sharemode).2.lockTable = t.lockTable ∧
      (∀ j, freeSlot t ≠ some j →
        (openCheck t fn psp openmode sharemode).2.file j = t.file j) ∧
      ∀ i, freeSlot t = some i →
        ¬ ((openCheck t fn psp openmode sharemode).2.file i).live

theorem refused_frame (t : Tables) (fn : Path) (psp om sm : Nat)
    (hneg : (openCheck t fn psp om sm).1 < 0) :
    (∀ j, freeSlot t ≠ some j → (openCheck t fn psp om sm).2.file j = t.file j) ∧
      ∀ i, freeSlot t = some i → ¬ ((openCheck t fn psp om sm).2.file i).live := by
  rcases openCheck_cases t fn psp om sm with ⟨-, h | ⟨i, f, hi, hf, h⟩⟩ | ⟨i, _, _, -, -, h⟩
  · rw [h]
    exact ⟨fun _ _ => rfl, fun i hi hlive => hlive (freeSlot_spec hi).2⟩
  · rw [h, hi]
    refine ⟨fun j hj => setFile_file_ne (fun hij => hj (congrArg some hij)) f, ?_⟩
    rintro _ ⟨rfl⟩ hlive
    rw [setFile_file_self (freeSlot_spec hi).1] at hlive
    exact hlive hf
  · rw [h] at hneg
    cases hneg

/-- **SHARE's decisions along any history.** -/
theorem open_decision_order_free (nf nl : Nat) (calls : List Call) :
    OrderFree (run step (init nf nl) calls)
      (earliest (init nf nl) (fun _ => none) calls) := by
  have h := faithful_run calls (faithful_init nf nl)
  refine ⟨fun p hp q hq hpl hql hpq => ?_, h.carried, openCheck_verdict h, fun fn psp om sm hneg =>
    ⟨openCheck_lockTable _ fn psp om sm, refused_frame _ fn psp om sm hneg⟩⟩
  have hboth := (h.carried p hp hpl).symm.trans (hpq ▸ h.carried q hq hql)
  exact Prod.mk.inj (Option.some.inj hboth)

end SdcBoot.Share
