/-
# Runs of a machine, and what holds along them

A machine has states `σ`, calls `α`, answers `ρ` and one function `step : σ → α → ρ × σ`.  A run is
a finite list of calls.

* `run`: the state a list of calls leads to;
* `Along`: a property of every single step of a run, stated about the state before the step,
  the call, and the outcome of the step;
* `Along.of_invariant`: the induction every safety result uses.  If an invariant is kept by
  each step that meets a guard, then along a guarded run it holds in every state reached, and
  with it whatever it says about a single step;
* `answers_of_simulation`: two machines that answer alike step by step answer alike in every run;
* `ownAnswers`: the answers one party gets in a run it shares with others, and the rule by which
  they are those of another machine that is run for this party alone.
-/
import Mathlib.Order.Lattice.Nat
import Mathlib.Tactic.Linarith

namespace SdcBoot.Lib

open List

variable {σ α ρ : Type}

/-- The state in which a run ends. -/
def run (step : σ → α → ρ × σ) : σ → List α → σ
  | s, [] => s
  | s, a :: as => run step (step s a).2 as

/-- `P` holds of every step of the run: of the state before it, of the call, and of the
answer and state the step produces. -/
def Along (step : σ → α → ρ × σ) (P : σ → α → ρ × σ → Prop) : σ → List α → Prop
  | _, [] => True
  | s, a :: as => P s a (step s a) ∧ Along step P (step s a).2 as

/-- Every step of the run meets `ok` in the state before it. -/
def Guarded (step : σ → α → ρ × σ) (ok : σ → α → Prop) : σ → List α → Prop :=
  Along step (fun s a _ => ok s a)

section

variable {step : σ → α → ρ × σ} {ok : σ → α → Prop} {P : σ → α → ρ × σ → Prop} {I : σ → Prop}

@[simp] theorem run_nil (s : σ) : run step s [] = s := rfl

@[simp] theorem run_cons (s : σ) (a : α) (as : List α) :
    run step s (a :: as) = run step (step s a).2 as := rfl

@[simp] theorem along_nil (s : σ) : Along step P s [] := trivial

@[simp] theorem along_cons (s : σ) (a : α) (as : List α) :
    Along step P s (a :: as) ↔ P s a (step s a) ∧ Along step P (step s a).2 as := Iff.rfl

@[simp] theorem guarded_nil (s : σ) : Guarded step ok s [] := trivial

@[simp] theorem guarded_cons (s : σ) (a : α) (as : List α) :
    Guarded step ok s (a :: as) ↔ ok s a ∧ Guarded step ok (step s a).2 as := Iff.rfl

theorem run_append (as bs : List α) (s : σ) :
    run step s (as ++ bs) = run step (run step s as) bs := by
  induction as generalizing s with
  | nil => rfl
  | cons a as ih => exact ih (step s a).2

/-- A run in two parts. -/
theorem along_append (as bs : List α) (s : σ) :
    Along step P s (as ++ bs) ↔ Along step P s as ∧ Along step P (run step s as) bs := by
  induction as generalizing s with
  | nil => exact ⟨fun h => ⟨trivial, h⟩, And.right⟩
  | cons a as ih =>
    constructor
    · rintro ⟨h, hrest⟩
      obtain ⟨has, hbs⟩ := (ih (step s a).2).mp hrest
      exact ⟨⟨h, has⟩, hbs⟩
    · rintro ⟨⟨h, has⟩, hbs⟩
      exact ⟨h, (ih (step s a).2).mpr ⟨has, hbs⟩⟩

instance Guarded.decidable [∀ s a, Decidable (ok s a)] :
    ∀ (as : List α) (s : σ), Decidable (Guarded step ok s as)
  | [], _ => isTrue trivial
  | a :: as, s =>
    have := Guarded.decidable as (step s a).2
    inferInstanceAs (Decidable (ok s a ∧ Guarded step ok (step s a).2 as))

/-- Two guards of one run. -/
theorem Guarded.and {ok' : σ → α → Prop} (as : List α) (s : σ) (h : Guarded step ok s as)
    (h' : Guarded step ok' s as) : Guarded step (fun s a => ok s a ∧ ok' s a) s as := by
  induction as generalizing s with
  | nil => trivial
  | cons a as ih => exact ⟨⟨h.1, h'.1⟩, ih _ h.2 h'.2⟩

theorem guarded_of_forall (h : ∀ s a, ok s a) : ∀ (as : List α) (s : σ), Guarded step ok s as
  | [], _ => trivial
  | a :: as, s => ⟨h s a, guarded_of_forall h as (step s a).2⟩

/-- A guard on the calls alone. -/
theorem guarded_of_mem {ok : α → Prop} : ∀ (as : List α) {s : σ}, (∀ a ∈ as, ok a) →
    Guarded step (fun _ a => ok a) s as
  | [], _, _ => trivial
  | a :: as, _, h =>
    ⟨h a mem_cons_self, guarded_of_mem as fun b hb => h b (mem_cons_of_mem a hb)⟩

/-- **The invariant rule, for the final state.** -/
theorem Guarded.run_invariant (hstep : ∀ s a, I s → ok s a → I (step s a).2) :
    ∀ (as : List α) (s : σ), I s → Guarded step ok s as → I (run step s as)
  | [], _, hs, _ => hs
  | a :: as, s, hs, ⟨hok, hrest⟩ =>
    Guarded.run_invariant hstep as (step s a).2 (hstep s a hs hok) hrest

/-- **The invariant rule, for every step.**  An invariant kept by guarded steps holds before
each step of a guarded run, so whatever follows from it about one step holds along the run. -/
theorem Along.of_invariant (hstep : ∀ s a, I s → ok s a → I (step s a).2)
    (hP : ∀ s a, I s → ok s a → P s a (step s a)) :
    ∀ (as : List α) (s : σ), I s → Guarded step ok s as → Along step P s as
  | [], _, _, _ => trivial
  | a :: as, s, hs, ⟨hok, hrest⟩ =>
    ⟨hP s a hs hok, Along.of_invariant hstep hP as (step s a).2 (hstep s a hs hok) hrest⟩

/-- **The exact rule.**  If, while an invariant holds, a step does what it should just if it meets a
guard, and such steps keep the invariant, then a run does what it should just if it is guarded. -/
theorem along_iff_guarded (hstep : ∀ s a, I s → (P s a (step s a) ↔ ok s a))
    (hkeep : ∀ s a, I s → ok s a → I (step s a).2) :
    ∀ (as : List α) (s : σ), I s → (Along step P s as ↔ Guarded step ok s as)
  | [], _, _ => Iff.rfl
  | a :: as, s, hs => by
    rw [along_cons, guarded_cons, hstep s a hs]
    exact and_congr_right fun hok => along_iff_guarded hstep hkeep as _ (hkeep s a hs hok)

/-- What holds along a run holds of any step of it. -/
theorem Along.at_step {a : α} {bs : List α} :
    ∀ (as : List α) {s : σ}, Along step P s (as ++ a :: bs) →
      P (run step s as) a (step (run step s as) a)
  | [], _, h => h.1
  | _ :: as, _, h => Along.at_step as h.2

end

/-! ## Answers -/

/-- The answers of a run. -/
def answers (step : σ → α → ρ × σ) : σ → List α → List ρ
  | _, [] => []
  | s, a :: as => (step s a).1 :: answers step (step s a).2 as

variable {step : σ → α → ρ × σ}

/-- **The budget rule.**  If what a step costs is taken from a budget, then a whole run costs no more
than there was at its start. -/
theorem sum_cost_le {I : σ → Prop} {cost : ρ → Nat} {budget : σ → Nat}
    (hstep : ∀ s a, I s → I (step s a).2)
    (hcost : ∀ s a, I s → cost (step s a).1 + budget (step s a).2 ≤ budget s) :
    ∀ (as : List α) (s : σ), I s → ((answers step s as).map cost).sum ≤ budget s
  | [], _, _ => Nat.zero_le _
  | a :: as, s, hs => by
    have hfirst := hcost s a hs
    have hrest := sum_cost_le hstep hcost as (step s a).2 (hstep s a hs)
    rw [answers, map_cons, sum_cons]
    omega

/-- What holds along a run says something of every answer. -/
theorem Along.answers {P : σ → α → ρ × σ → Prop} (Q : ρ → Prop) (hQ : ∀ s a r, P s a r → Q r.1) :
    ∀ {as : List α} {s : σ}, Along step P s as → ∀ r ∈ Lib.answers step s as, Q r
  | [], _, _, _, hr => absurd hr (not_mem_nil)
  | _ :: _, _, ⟨hP, hrest⟩, r, hr => by
    rcases mem_cons.mp hr with rfl | hr
    · exact hQ _ _ _ hP
    · exact hrest.answers Q hQ r hr

/-- **Simulation.**  If two machines answer each call alike from related states and stay related,
they answer every run alike. -/
theorem answers_of_simulation {τ ρ' : Type} {step' : τ → α → ρ' × τ} {R : σ → τ → Prop} (f : ρ' → ρ)
    (hstep : ∀ s t a, R s t → (step s a).1 = f (step' t a).1 ∧ R (step s a).2 (step' t a).2) :
    ∀ (as : List α) {s : σ} {t : τ}, R s t →
      answers step s as = (answers step' t as).map f ∧ R (run step s as) (run step' t as)
  | [], _, _, hR => ⟨rfl, hR⟩
  | a :: as, s, t, hR => by
    obtain ⟨hans, hR'⟩ := hstep s t a hR
    obtain ⟨hrest, hend⟩ := answers_of_simulation f hstep as hR'
    exact ⟨congrArg₂ List.cons hans hrest, hend⟩

/-- The answers of a run to the calls of one party. -/
def ownAnswers (step : σ → α → ρ × σ) (mine : α → Bool) : σ → List α → List ρ
  | _, [] => []
  | s, a :: as =>
    if mine a then (step s a).1 :: ownAnswers step mine (step s a).2 as
    else ownAnswers step mine (step s a).2 as

section

variable {τ ρ' : Type} {step : σ → α → ρ × σ} {step' : τ → α → ρ' × τ} {ok : σ → α → Prop}
  {mine : α → Bool} {view : ρ → ρ'} {R : σ → τ → Prop}

/-- **Non-interference.**  The second machine is only given the calls of one party.  If such a call
is answered alike from related states, and the calls of the others keep the relation, then in every
guarded run the party gets the answers of the second machine. -/
theorem Guarded.ownAnswers_eq (hmine : ∀ s t a, mine a = true → R s t → ok s a →
      view (step s a).1 = (step' t a).1 ∧ R (step s a).2 (step' t a).2)
    (hother : ∀ s t a, mine a = false → R s t → R (step s a).2 t) :
    ∀ (as : List α) (s : σ) (t : τ), R s t → Guarded step ok s as →
      (ownAnswers step mine s as).map view = answers step' t (as.filter mine)
  | [], _, _, _, _ => rfl
  | a :: as, s, t, hR, ⟨hok, hrest⟩ => by
    cases ha : mine a with
    | true =>
      obtain ⟨hans, hR'⟩ := hmine s t a ha hR hok
      rw [ownAnswers, if_pos ha, filter_cons_of_pos ha, answers, map_cons, hans,
        Guarded.ownAnswers_eq hmine hother as _ _ hR' hrest]
    | false =>
      have hno : ¬ mine a = true := by simp [ha]
      rw [ownAnswers, if_neg hno, filter_cons_of_neg hno]
      exact Guarded.ownAnswers_eq hmine hother as _ _ (hother s t a ha hR) hrest

end

end SdcBoot.Lib
