/-
# Walking a tree of names

A path is a list of steps, each of which goes up, stays, or goes into something of a given name; a
place is the list of the names that lead to it from the root.  Going up from the root stays there,
so no walk leaves the tree, and whatever can be said about every name is said about every place.

Written down, a place is its names with a separator in front of each.
-/
import Mathlib.Order.Lattice.Nat
import Mathlib.Tactic.Linarith

namespace SdcBoot.Lib

open List

variable {α : Type}

/-- One component of a path. -/
inductive PathStep (α : Type) where
  | up
  | stay
  | into (name : α)
  deriving DecidableEq

/-- The place a path leads to. -/
def walk : List α → List (PathStep α) → List α
  | place, [] => place
  | place, .up :: path => walk place.dropLast path
  | place, .stay :: path => walk place path
  | place, .into name :: path => walk (place ++ [name]) path

@[simp] theorem walk_nil (place : List α) : walk place [] = place := rfl

theorem walk_append : ∀ (path rest : List (PathStep α)) (place : List α),
    walk place (path ++ rest) = walk (walk place path) rest
  | [], _, _ => rfl
  | .up :: path, rest, place => walk_append path rest place.dropLast
  | .stay :: path, rest, place => walk_append path rest place
  | .into name :: path, rest, place => walk_append path rest (place ++ [name])

variable {name sep : α} {depth : Nat} {path : List (PathStep α)}

/-- A walk takes every name from the place it starts at or from the path. -/
theorem mem_walk : ∀ {path : List (PathStep α)} {place : List α},
    name ∈ walk place path → name ∈ place ∨ .into name ∈ path
  | [], _, h => .inl h
  | .up :: path, place, h => by
    have h : name ∈ walk place.dropLast path := h
    rcases mem_walk h with h | h
    · exact .inl (dropLast_subset place h)
    · exact .inr (.tail _ h)
  | .stay :: path, place, h => by
    have h : name ∈ walk place path := h
    rcases mem_walk h with h | h
    · exact .inl h
    · exact .inr (.tail _ h)
  | .into other :: path, place, h => by
    have h : name ∈ walk (place ++ [other]) path := h
    rcases mem_walk h with h | h
    · rcases mem_append.mp h with h | h
      · exact .inl h
      · exact .inr (by rw [mem_singleton.mp h]; exact mem_cons_self)
    · exact .inr (.tail _ h)

/-- Whether a walk from a place of the given depth goes up from the root. -/
def climbs : Nat → List (PathStep α) → Bool
  | _, [] => false
  | 0, .up :: _ => true
  | depth + 1, .up :: path => climbs depth path
  | depth, .stay :: path => climbs depth path
  | depth, .into _ :: path => climbs (depth + 1) path

@[simp] theorem climbs_nil : climbs depth ([] : List (PathStep α)) = false := by
  cases depth <;> rfl

@[simp] theorem climbs_stay : climbs depth (.stay :: path) = climbs depth path := by
  cases depth <;> rfl

@[simp] theorem climbs_into : climbs depth (.into name :: path) = climbs (depth + 1) path := by
  cases depth <;> rfl

/-- The names of a place, each behind a separator. -/
def render (sep : α) (names : List (List α)) : List α := names.flatMap (sep :: ·)

@[simp] theorem render_nil (sep : α) : render sep [] = [] := rfl

@[simp] theorem render_cons (sep : α) (name : List α) (names : List (List α)) :
    render sep (name :: names) = sep :: name ++ render sep names := rfl

@[simp] theorem render_append (sep : α) (names more : List (List α)) :
    render sep (names ++ more) = render sep names ++ render sep more := by
  simp [render]

/-- A map that takes the separator to another one and leaves the names alone. -/
theorem map_render {sep' : α} {f : α → α} (hsep : f sep = sep') :
    ∀ {names : List (List α)}, (∀ name ∈ names, name.map f = name) →
      (render sep names).map f = render sep' names
  | [], _ => rfl
  | name :: names, h => by
    rw [render_cons, render_cons, map_append, map_cons, hsep, h name mem_cons_self,
      map_render hsep fun other hother => h other (.tail _ hother)]

/-- What stands in front of the first separator of a string is determined by it. -/
theorem append_inj_of_sep {a b r s : List α} (ha : sep ∉ a) (hb : sep ∉ b)
    (hr : r = [] ∨ ∃ t, r = sep :: t) (hs : ∃ t, s = sep :: t) (h : a ++ r = b ++ s) :
    a = b ∧ r = s := by
  rcases append_eq_append_iff.mp h with ⟨c, rfl, rfl⟩ | ⟨c, rfl, rfl⟩
  · cases c with
    | nil => exact ⟨(append_nil a).symm, rfl⟩
    | cons x c =>
      obtain hr | ⟨t, hr⟩ := hr
      · cases hr
      · obtain ⟨rfl, -⟩ := cons_eq_cons.mp hr
        exact absurd (by simp) hb
  · cases c with
    | nil => exact ⟨append_nil b, rfl⟩
    | cons x c =>
      obtain ⟨t, hs⟩ := hs
      obtain ⟨rfl, -⟩ := cons_eq_cons.mp hs
      exact absurd (by simp) ha

theorem render_eq_cons {sep : α} {names : List (List α)} (h : names ≠ []) :
    ∃ t, render sep names = sep :: t := by
  cases names with
  | nil => exact absurd rfl h
  | cons name names => exact ⟨_, rfl⟩

/-- **Being below, in names and in writing.**  A place is below another one if and only if what is
written for it goes on, behind a separator, where the other one ends; a separator at the end makes
no difference. -/
theorem render_below_iff {sep : α} {tail : List α} (htail : tail = [] ∨ tail = [sep]) :
    ∀ {top place : List (List α)}, (∀ c ∈ top, c ≠ [] ∧ sep ∉ c) →
      (∀ c ∈ place, c ≠ [] ∧ sep ∉ c) →
      ((∃ name, name ≠ [] ∧ render sep place ++ tail = render sep top ++ sep :: name) ↔
        ∃ names, names ≠ [] ∧ place = top ++ names)
  | [], [], _, _ => by
    refine ⟨fun ⟨name, hname, heq⟩ => ?_, fun ⟨names, hnames, heq⟩ => absurd heq.symm hnames⟩
    rcases htail with rfl | rfl
    · simp at heq
    · simp only [render_nil, nil_append, List.cons.injEq, true_and] at heq
      exact absurd heq.symm hname
  | [], d :: place, _, hplace => by
    have hd := (hplace d mem_cons_self).1
    refine ⟨fun _ => ⟨d :: place, nofun, rfl⟩, fun _ => ⟨d ++ (render sep place ++ tail), ?_, ?_⟩⟩
    · exact fun heq => hd (append_eq_nil_iff.mp heq).1
    · simp
  | c :: top, [], htop, _ => by
    have hc := (htop c mem_cons_self).1
    refine ⟨fun ⟨name, _, heq⟩ => ?_, fun ⟨names, _, heq⟩ => absurd heq nofun⟩
    rcases htail with rfl | rfl
    · cases heq
    · simp only [render_nil, nil_append, render_cons, cons_append, append_assoc,
        List.cons.injEq, true_and, nil_eq_append_iff] at heq
      exact absurd heq.1 hc
  | c :: top, d :: place, htop, hplace => by
    have hc := (htop c mem_cons_self).2
    have hd := (hplace d mem_cons_self).2
    have ih := @render_below_iff sep tail htail top place
      (fun c hc => htop c (.tail _ hc))
      (fun c hc => hplace c (.tail _ hc))
    have hrest : render sep place ++ tail = [] ∨ ∃ t, render sep place ++ tail = sep :: t := by
      rcases eq_or_ne place [] with rfl | hne
      · rcases htail with rfl | rfl
        · exact .inl rfl
        · exact .inr ⟨[], rfl⟩
      · obtain ⟨t, ht⟩ := @render_eq_cons α sep _ hne
        exact .inr ⟨t ++ tail, by rw [ht, cons_append]⟩
    constructor
    · rintro ⟨name, hname, heq⟩
      have hgoes : ∃ t, render sep top ++ sep :: name = sep :: t := by
        rcases eq_or_ne top [] with rfl | hne
        · exact ⟨name, rfl⟩
        · obtain ⟨t, ht⟩ := @render_eq_cons α sep _ hne
          exact ⟨t ++ sep :: name, by rw [ht, cons_append]⟩
      simp only [render_cons, cons_append, append_assoc, List.cons.injEq, true_and] at heq
      obtain ⟨rfl, hbehind⟩ := append_inj_of_sep hd hc hrest hgoes heq
      obtain ⟨names, hnames, rfl⟩ := ih.mp ⟨name, hname, hbehind⟩
      exact ⟨names, hnames, rfl⟩
    · rintro ⟨names, hnames, heq⟩
      obtain ⟨rfl, rfl⟩ := cons_eq_cons.mp heq
      obtain ⟨name, hname, heq⟩ := ih.mpr ⟨names, hnames, rfl⟩
      exact ⟨name, hname, by simp only [render_cons, cons_append, append_assoc, heq]⟩

end SdcBoot.Lib
