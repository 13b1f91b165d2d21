/-
# Walks along a partial function

A linked structure is followed from a place by a partial function that names the next one: the
links of a table, the fields of a heap.  `hops` counts the steps, `Leads` forgets their number, and
`Path` lists the places up to one where nothing follows.  Nothing is assumed of the function: it
may run in circles and merge.

What is needed of this: a path that comes to an end has no place twice (`Path.nodup`), since what
follows a place is determined by it; and a path is left alone by changes elsewhere (`Path.congr`).
-/
import Mathlib.Data.List.Nodup
import Mathlib.Order.Lattice.Nat

namespace SdcBoot.Lib

open List

variable {α : Type} {next next' : α → Option α} {a b c : α}

/-! ## 1. Counting the steps -/

/-- The place `k` steps on. -/
def hops (next : α → Option α) (a : α) : Nat → Option α
  | 0 => some a
  | k + 1 => (hops next a k).bind next

theorem hops_zero (next : α → Option α) (a : α) : hops next a 0 = some a := rfl

theorem hops_succ (next : α → Option α) (a : α) (k : Nat) :
    hops next a (k + 1) = (hops next a k).bind next := rfl

variable {k : Nat} {cs : List α}

/-- What comes before a place that is reached is reached. -/
theorem hops_before (h : hops next a (k + 1) = some b) :
    ∃ d, hops next a k = some d ∧ next d = some b :=
  Option.bind_eq_some_iff.mp h

theorem hops_le {j : Nat} (hjk : j ≤ k) (h : hops next a k = some b) :
    ∃ d, hops next a j = some d := by
  induction k generalizing b with
  | zero => exact ⟨a, by rw [Nat.le_zero.mp hjk, hops_zero]⟩
  | succ k ih =>
    rcases Nat.le_or_eq_of_le_succ hjk with hle | rfl
    · obtain ⟨d, hd, -⟩ := hops_before h
      exact ih hle hd
    · exact ⟨b, h⟩

/-- `b` is reached from `a`, in any number of steps. -/
def Leads (next : α → Option α) (a b : α) : Prop := ∃ k, hops next a k = some b

theorem Leads.refl (next : α → Option α) (a : α) : Leads next a a := ⟨0, rfl⟩

theorem Leads.step (h : Leads next a b) (hb : next b = some c) : Leads next a c := by
  obtain ⟨k, hk⟩ := h
  exact ⟨k + 1, by rw [hops_succ, hk, Option.bind_some, hb]⟩

/-! ## 2. Paths -/

/-- The places from `a` on, up to `b` and without it. -/
def Path (next : α → Option α) (a : α) : List α → α → Prop
  | [], b => a = b
  | c :: cs, b => c = a ∧ ∃ a', next a = some a' ∧ Path next a' cs b

/-- Where nothing follows, the path there is determined. -/
theorem Path.unique (hb : next b = none) {ds : List α} (hc : Path next a cs b)
    (hd : Path next a ds b) : cs = ds := by
  induction cs generalizing a ds with
  | nil =>
    obtain rfl : a = b := hc
    cases ds with
    | nil => rfl
    | cons d ds =>
      obtain ⟨-, a', ha', -⟩ := hd
      rw [hb] at ha'
      cases ha'
  | cons c cs ih =>
    obtain ⟨rfl, a', ha', hrest⟩ := hc
    cases ds with
    | nil =>
      obtain rfl : c = b := hd
      rw [hb] at ha'
      cases ha'
    | cons d ds =>
      obtain ⟨rfl, a'', ha'', hrest'⟩ := hd
      cases ha'.symm.trans ha''
      rw [ih hrest hrest']

/-- The path goes on from each of its places. -/
theorem Path.from_mem (h : Path next a cs b) (hc : c ∈ cs) :
    ∃ ds, Path next c ds b ∧ ds.length ≤ cs.length := by
  induction cs generalizing a with
  | nil => cases hc
  | cons d cs ih =>
    rcases mem_cons.mp hc with rfl | hc
    · obtain rfl : c = a := h.1
      exact ⟨_, h, le_rfl⟩
    · obtain ⟨-, a', -, hrest⟩ := h
      obtain ⟨ds, hds, hlen⟩ := ih hrest hc
      exact ⟨ds, hds, Nat.le_succ_of_le hlen⟩

/-- **A path that comes to an end has no place twice.** -/
theorem Path.nodup (hb : next b = none) (h : Path next a cs b) : cs.Nodup := by
  induction cs generalizing a with
  | nil => exact nodup_nil
  | cons c cs ih =>
    obtain ⟨rfl, a', ha', hrest⟩ := h
    refine nodup_cons.mpr ⟨fun hmem => ?_, ih hrest⟩
    -- from its second occurrence the path would be shorter than from its first
    obtain ⟨ds, hds, hlen⟩ := hrest.from_mem hmem
    have heq : c :: cs = ds := Path.unique hb ⟨rfl, a', ha', hrest⟩ hds
    rw [← heq, length_cons] at hlen
    omega

theorem Path.congr (h : Path next a cs b) (heq : ∀ c ∈ cs, next' c = next c) :
    Path next' a cs b := by
  induction cs generalizing a with
  | nil => exact h
  | cons c cs ih =>
    obtain ⟨rfl, a', ha', hrest⟩ := h
    refine ⟨rfl, a', ?_, ih hrest fun d hd => heq d (.tail _ hd)⟩
    rw [heq c mem_cons_self, ha']

theorem Path.append_iff {ds : List α} :
    Path next a (cs ++ ds) b ↔ ∃ c, Path next a cs c ∧ Path next c ds b := by
  induction cs generalizing a with
  | nil =>
    constructor
    · exact fun h => ⟨a, rfl, h⟩
    · rintro ⟨c, rfl, h⟩
      exact h
  | cons d cs ih =>
    constructor
    · rintro ⟨rfl, a', ha', hrest⟩
      obtain ⟨c, hc, hd⟩ := ih.mp hrest
      exact ⟨c, ⟨rfl, a', ha', hc⟩, hd⟩
    · rintro ⟨c, ⟨rfl, a', ha', hc⟩, hd⟩
      exact ⟨rfl, a', ha', ih.mpr ⟨c, hc, hd⟩⟩

/-- A path without its last place leads there. -/
theorem Path.concat_iff : Path next a (cs ++ [c]) b ↔ Path next a cs c ∧ next c = some b := by
  rw [Path.append_iff]
  constructor
  · rintro ⟨d, hd, rfl, a', ha', rfl⟩
    exact ⟨hd, ha'⟩
  · rintro ⟨h, hc⟩
    exact ⟨c, h, rfl, b, hc, rfl⟩

/-- The places of a path are those that are reached. -/
theorem Path.hops (h : Path next a cs b) (hk : k ≤ cs.length) :
    SdcBoot.Lib.hops next a k = (cs ++ [b])[k]? := by
  induction cs generalizing a k with
  | nil =>
    obtain rfl : a = b := h
    rw [Nat.le_zero.mp hk]
    rfl
  | cons d cs ih =>
    obtain ⟨rfl, a', ha', hrest⟩ := h
    cases k with
    | zero => rfl
    | succ k =>
      have hstep : ∀ k, SdcBoot.Lib.hops next d (k + 1) = SdcBoot.Lib.hops next a' k := by
        intro k
        induction k with
        | zero => rw [hops_succ, hops_zero, Option.bind_some, ha', hops_zero]
        | succ k ih => rw [hops_succ, ih, ← hops_succ]
      rw [hstep, ih hrest (Nat.le_of_succ_le_succ hk)]
      rfl

end SdcBoot.Lib
