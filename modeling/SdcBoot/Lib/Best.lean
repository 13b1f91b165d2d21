/-
# Keeping the best so far

A pass over a list that keeps one entry, and replaces it by the next where that is better, ends with
an entry that is as good as any.  What is better is a preorder `R`; which of two equals stays may
depend on their order in the list, so the choice is asked to be right only for entries in the order
`S` that the list has.
-/
import Mathlib.Data.List.Basic

namespace SdcBoot.Lib

open List

variable {α : Type} {R S : α → α → Prop} (pick : α → α → α)

/-- A pass that keeps the better of two ends with one that is as good as any. -/
theorem foldl_pick (htrans : ∀ a b c, R a b → R b c → R a c) (hrefl : ∀ a, R a a)
    (hpick : ∀ a b, S a b → pick a b = a ∧ R a b ∨ pick a b = b ∧ R b a) :
    ∀ (rs : List α) (a : α), (a :: rs).Pairwise S →
      rs.foldl pick a ∈ a :: rs ∧ ∀ r ∈ a :: rs, R (rs.foldl pick a) r := by
  intro rs
  induction rs with
  | nil =>
    intro a _
    simpa using hrefl a
  | cons b rs ih =>
    intro a hord
    obtain ⟨hab, hord'⟩ := pairwise_cons.mp hord
    obtain ⟨hb, hrs⟩ := pairwise_cons.mp hord'
    rw [foldl_cons]
    rcases hpick a b (hab b (by simp)) with ⟨heq, hR⟩ | ⟨heq, hR⟩
    · rw [heq]
      have hshort : (a :: rs).Pairwise S :=
        pairwise_cons.mpr ⟨fun r hr => hab r (.tail _ hr), hrs⟩
      obtain ⟨hmem, hbest⟩ := ih a hshort
      refine ⟨?_, fun r hr => ?_⟩
      · rcases mem_cons.mp hmem with h | h
        · rw [h]
          simp
        · exact mem_cons_of_mem _ (.tail _ h)
      · rcases mem_cons.mp hr with rfl | hr
        · exact hbest _ (by simp)
        · rcases mem_cons.mp hr with rfl | hr
          · exact htrans _ _ _ (hbest a (by simp)) hR
          · exact hbest r (.tail _ hr)
    · rw [heq]
      obtain ⟨hmem, hbest⟩ := ih b hord'
      refine ⟨mem_cons_of_mem _ hmem, fun r hr => ?_⟩
      rcases mem_cons.mp hr with rfl | hr
      · exact htrans _ _ _ (hbest b (by simp)) hR
      · exact hbest r hr

/-- The same of a pass that starts with nothing. -/
theorem foldl_keep (step : Option α → α → Option α) (hnone : ∀ r, step none r = some r)
    (hsome : ∀ a r, step (some a) r = some (pick a r))
    (htrans : ∀ a b c, R a b → R b c → R a c) (hrefl : ∀ a, R a a)
    (hpick : ∀ a b, S a b → pick a b = a ∧ R a b ∨ pick a b = b ∧ R b a) {rs : List α}
    (hord : rs.Pairwise S) :
    rs = [] ∧ rs.foldl step none = none ∨
      ∃ r ∈ rs, rs.foldl step none = some r ∧ ∀ r' ∈ rs, R r r' := by
  have hfold : ∀ (rs : List α) (a : α), rs.foldl step (some a) = some (rs.foldl pick a) := by
    intro rs
    induction rs with
    | nil => exact fun _ => rfl
    | cons r rs ih =>
      intro a
      rw [foldl_cons, hsome, ih, foldl_cons]
  cases rs with
  | nil => exact .inl ⟨rfl, rfl⟩
  | cons a rs =>
    obtain ⟨hmem, hbest⟩ := foldl_pick pick htrans hrefl hpick rs a hord
    exact .inr ⟨_, hmem, by rw [foldl_cons, hnone, hfold], hbest⟩

end SdcBoot.Lib
