/-
# Programs over a set of primitive operations

A program that works through primitive operations is a tree: it returns, or it performs one
operation and goes on with the answer.  What an operation does is said by a handler, a partial
function on a state; the same program can be run under several handlers.

`exec_bind` takes a run apart where the program is put together.  `Meets` is total correctness: the
program runs to its end from this state, and its answer and final state satisfy the postcondition;
its rules follow the construction of programs, and so do those of `Keeps`, for what a program keeps
from every state.  And `sim` is the reason for the tree: if every single operation under one handler
is matched by the same operation under another, along a relation of their states, so is every
program.
-/
import Mathlib.Order.Lattice.Nat
import Mathlib.Tactic.Linarith

namespace SdcBoot.Lib

/-- Programs over the operations `E`, where an operation of type `E β` is answered by a `β`. -/
inductive Prog (E : Type → Type) (α : Type) : Type 1 where
  | ret (a : α)
  | call {β : Type} (e : E β) (k : β → Prog E α)

/-- What each operation does; `none` is a state in which it must not be performed. -/
def Handler (E : Type → Type) (σ : Type) : Type 1 :=
  ∀ β : Type, E β → σ → Option (β × σ)

namespace Prog

variable {E : Type → Type} {α β γ σ τ : Type}

protected def bind : Prog E α → (α → Prog E β) → Prog E β
  | .ret a, f => f a
  | .call e k, f => .call e fun b => (k b).bind f

instance : Monad (Prog E) where
  pure := .ret
  bind := Prog.bind

/-- A single operation. -/
def perform (e : E α) : Prog E α := .call e .ret

def exec (h : Handler E σ) : Prog E α → σ → Option (α × σ)
  | .ret a, s => some (a, s)
  | .call e k, s =>
    match h _ e s with
    | none => none
    | some (b, s') => (k b).exec h s'

variable {h : Handler E σ}

@[simp] theorem exec_pure (a : α) (s : σ) : (pure a : Prog E α).exec h s = some (a, s) := rfl

theorem exec_perform (e : E α) (s : σ) : (perform e).exec h s = h _ e s := by
  unfold perform exec
  cases h _ e s <;> rfl

theorem exec_bind (p : Prog E α) (f : α → Prog E β) (s : σ) :
    (p >>= f).exec h s = (p.exec h s).bind fun r => (f r.1).exec h r.2 := by
  induction p generalizing s with
  | ret a => rfl
  | call e k ih =>
    change ((Prog.call e k).bind f).exec h s = _
    simp only [Prog.bind, exec]
    cases hs : h _ e s with
    | none => rfl
    | some r => exact ih r.1 r.2

variable {p : Prog E α} {s : σ} {a : α} {Q : α → σ → Prop}

/-- There is one run. -/
theorem exec_unique {s1 s2 : σ} {b : α} (h1 : p.exec h s = some (a, s1))
    (h2 : p.exec h s = some (b, s2)) : a = b ∧ s1 = s2 :=
  Prod.mk.inj (Option.some.inj (h1.symm.trans h2))

/-! ## Total correctness -/

/-- The program ends from `s`, and `Q` holds of its answer and of the state it ends in. -/
def Meets (h : Handler E σ) (p : Prog E α) (s : σ) (Q : α → σ → Prop) : Prop :=
  ∃ a s', p.exec h s = some (a, s') ∧ Q a s'

theorem Meets.pure (hQ : Q a s) : Meets h (pure a : Prog E α) s Q :=
  ⟨a, s, rfl, hQ⟩

theorem Meets.bind {f : α → Prog E β} {Q : β → σ → Prop}
    (hp : Meets h p s fun a s' => Meets h (f a) s' Q) : Meets h (p >>= f) s Q := by
  obtain ⟨a, s1, he, b, s2, hf, hQ⟩ := hp
  refine ⟨b, s2, ?_, hQ⟩
  rw [exec_bind, he]
  exact hf

theorem Meets.perform {e : E α} {s' : σ} (he : h _ e s = some (a, s'))
    (hQ : Q a s') : Meets h (perform e) s Q :=
  ⟨a, s', (exec_perform e s).trans he, hQ⟩

theorem Meets.mono {P : α → σ → Prop} (hp : Meets h p s P)
    (hPQ : ∀ a s', P a s' → Q a s') : Meets h p s Q := by
  obtain ⟨a, s', he, hP⟩ := hp
  exact ⟨a, s', he, hPQ a s' hP⟩

theorem Meets.and {P : α → σ → Prop} (hp : Meets h p s P)
    (hq : Meets h p s Q) : Meets h p s fun a s' => P a s' ∧ Q a s' := by
  obtain ⟨a, s1, he, hP⟩ := hp
  obtain ⟨b, s2, hf, hQ⟩ := hq
  obtain ⟨rfl, rfl⟩ := exec_unique he hf
  exact ⟨a, s1, he, hP, hQ⟩

/-! ## Invariants -/

/-- The program keeps `I`, from every state where `I` holds, and its answers satisfy `P`. -/
def Keeps (h : Handler E σ) (I : σ → Prop) (p : Prog E α) (P : α → Prop) : Prop :=
  ∀ s, I s → Meets h p s fun a s' => P a ∧ I s'

section

variable {I : σ → Prop} {P P' : α → Prop} {Q : β → Prop} {p : Prog E α}

theorem Keeps.pure {a : α} (hP : P a) : Keeps h I (pure a : Prog E α) P :=
  fun _ hs => Meets.pure ⟨hP, hs⟩

theorem Keeps.bind {f : α → Prog E β} (hp : Keeps h I p P) (hf : ∀ a, P a → Keeps h I (f a) Q) :
    Keeps h I (p >>= f) Q :=
  fun s hs => Meets.bind ((hp s hs).mono fun a s' ha => hf a ha.1 s' ha.2)

end

/-! ## Simulation -/

/-- **Programs are simulated when their operations are.** -/
theorem sim {h1 : Handler E σ} {h2 : Handler E τ} {R : σ → τ → Prop}
    (hop : ∀ (δ : Type) (e : E δ) (s : σ) (t t' : τ) (d : δ), R s t → h2 δ e t = some (d, t') →
      ∃ s', h1 δ e s = some (d, s') ∧ R s' t') :
    ∀ (p : Prog E α) (s : σ) (t t' : τ) (a : α), R s t → p.exec h2 t = some (a, t') →
      ∃ s', p.exec h1 s = some (a, s') ∧ R s' t' := by
  intro p
  induction p with
  | ret a =>
    intro s t t' a' hR he
    cases he
    exact ⟨s, rfl, hR⟩
  | call e k ih =>
    intro s t t' a hR he
    simp only [exec] at he ⊢
    cases ht : h2 _ e t with
    | none =>
      rw [ht] at he
      cases he
    | some r =>
      obtain ⟨d, t1⟩ := r
      rw [ht] at he
      obtain ⟨s1, hs, hR1⟩ := hop _ e s t t1 d hR ht
      rw [hs]
      exact ih d s1 t1 t' a hR1 he

end Prog

end SdcBoot.Lib
