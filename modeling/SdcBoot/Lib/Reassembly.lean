/-
# Putting a datagram together

Pieces of a datagram carry the offset of their data and whether more is to come.  A receiver keeps
one buffer for each key: a piece fills the places its data has, the last one says how long the whole
is, and the datagram is there when every place below that is filled.

`Cuts` are pieces as a sender makes them, one behind the other.  In any order, and with pieces of
other keys between them, they fill the buffer with what was cut (`Cuts.collect`).
-/
import Mathlib.Data.List.Perm.Basic
import Mathlib.Order.Basic

namespace SdcBoot.Lib.Reassembly

open List

variable {α κ : Type}

/-- A part of a datagram. -/
structure Piece (κ α : Type) where
  key : κ
  offset : Nat
  more : Bool
  data : List α

/-- What a receiver has of a datagram. -/
structure Buffer (α : Type) where
  cell : Nat → Option α
  total : Option Nat

def Buffer.empty : Buffer α := ⟨fun _ => none, none⟩

/-- A piece has the place `i`. -/
def Piece.Has (p : Piece κ α) (i : Nat) : Prop := p.offset ≤ i ∧ i < p.offset + p.data.length

instance (p : Piece κ α) (i : Nat) : Decidable (p.Has i) := inferInstanceAs (Decidable (_ ∧ _))

/-- A piece comes in. -/
def Buffer.add (b : Buffer α) (p : Piece κ α) : Buffer α where
  cell := fun i => if p.Has i then p.data[i - p.offset]? else b.cell i
  total := if p.more then b.total else some (p.offset + p.data.length)

/-- The datagram, when all of it is there. -/
def Buffer.done (b : Buffer α) : Option (List α) :=
  match b.total with
  | none => none
  | some n => (List.range n).mapM b.cell

/-- All pieces of one key. -/
def collect [DecidableEq κ] (key : κ) (ps : List (Piece κ α)) : Buffer α :=
  (ps.filter fun p => p.key = key).foldl Buffer.add Buffer.empty

/-! ## 1. Pieces of one datagram -/

/-- A piece of `d`; only a piece at its end has nothing behind it. -/
structure Piece.Of (p : Piece κ α) (d : List α) : Prop where
  fits : p.offset + p.data.length ≤ d.length
  data : ∀ i, p.Has i → p.data[i - p.offset]? = d[i]?
  last : p.more = false → p.offset + p.data.length = d.length

variable {d : List α} {ps : List (Piece κ α)}

/-- A place holds what the datagram has there, once a piece with the place has come. -/
theorem cell_foldl (ps : List (Piece κ α)) (hof : ∀ p ∈ ps, p.Of d) (b : Buffer α) (i : Nat)
    (h : b.cell i = d[i]? ∨ ∃ p ∈ ps, p.Has i) : (ps.foldl Buffer.add b).cell i = d[i]? := by
  induction ps generalizing b with
  | nil => exact h.resolve_right fun ⟨p, hp, _⟩ => nomatch hp
  | cons p ps ih =>
    refine ih (fun q hq => hof q (mem_cons_of_mem p hq)) (b.add p) ?_
    by_cases hhas : p.Has i
    · left
      change (if p.Has i then _ else _) = _
      rw [if_pos hhas]
      exact (hof p mem_cons_self).data i hhas
    · rcases h with hcell | ⟨q, hq, hqi⟩
      · left
        change (if p.Has i then _ else _) = _
        rw [if_neg hhas, hcell]
      · right
        rcases mem_cons.mp hq with rfl | hq
        · exact absurd hqi hhas
        · exact ⟨q, hq, hqi⟩

theorem total_foldl (ps : List (Piece κ α)) (hof : ∀ p ∈ ps, p.Of d) (b : Buffer α)
    (h : b.total = some d.length ∨ ∃ p ∈ ps, p.more = false) :
    (ps.foldl Buffer.add b).total = some d.length := by
  induction ps generalizing b with
  | nil => exact h.resolve_right fun ⟨p, hp, _⟩ => nomatch hp
  | cons p ps ih =>
    refine ih (fun q hq => hof q (mem_cons_of_mem p hq)) (b.add p) ?_
    cases hmore : p.more with
    | false =>
      left
      change (if p.more then _ else _) = _
      rw [hmore, if_neg Bool.false_ne_true, (hof p mem_cons_self).last hmore]
    | true =>
      rcases h with htotal | ⟨q, hq, hq'⟩
      · left
        change (if p.more then _ else _) = _
        rw [hmore, if_pos rfl, htotal]
      · right
        rcases mem_cons.mp hq with rfl | hq
        · rw [hmore] at hq'
          cases hq'
        · exact ⟨q, hq, hq'⟩

theorem mapM_get {f : Nat → Option α} {n : Nat} (h : ∀ i < n, f i = d[i]?)
    (hn : n ≤ d.length) : (List.range n).mapM f = some (d.take n) := by
  induction n with
  | zero => rfl
  | succ n ih =>
    have hget : f n = some d[n] := by rw [h n (Nat.lt_succ_self n), getElem?_eq_getElem]
    rw [range_succ, mapM_append, ih (fun i hi => h i (by omega)) (by omega)]
    simp [hget]

/-- **Pieces that have every place, and one that is the last, are the datagram**, in any order. -/
theorem done_foldl (hof : ∀ p ∈ ps, p.Of d) (hall : ∀ i < d.length, ∃ p ∈ ps, p.Has i)
    (hlast : ∃ p ∈ ps, p.more = false) : (ps.foldl Buffer.add Buffer.empty).done = some d := by
  unfold Buffer.done
  rw [total_foldl ps hof Buffer.empty (.inr hlast)]
  dsimp only
  rw [mapM_get (fun i hi => cell_foldl ps hof Buffer.empty i (.inr (hall i hi))) (Nat.le_refl _),
    take_length]

/-! ## 2. Pieces that were cut from a datagram -/

/-- Pieces of one key, one behind the other from an offset on, the last one marked. -/
def Cuts (key : κ) : Nat → List (Piece κ α) → Prop
  | _, [] => False
  | k, [p] => p.key = key ∧ p.offset = k ∧ p.more = false
  | k, p :: q :: ps => p.key = key ∧ p.offset = k ∧ p.more = true ∧
      Cuts key (k + p.data.length) (q :: ps)

theorem Cuts.key {key : κ} {k : Nat} (h : Cuts key k ps) : ∀ p ∈ ps, p.key = key := by
  induction ps generalizing k with
  | nil => exact h.elim
  | cons p ps ih =>
    cases ps with
    | nil => simpa using h.1
    | cons q ps =>
      intro r hr
      rcases mem_cons.mp hr with rfl | hr
      · exact h.1
      · exact ih h.2.2.2 r hr

/-- The pieces have every place, and each of them its part. -/
theorem Cuts.of {key : κ} {k : Nat} (h : Cuts key k ps) (front : List α) (hk : front.length = k) :
    (∀ p ∈ ps, p.Of (front ++ ps.flatMap Piece.data)) ∧
      (∀ i, k ≤ i → i < (front ++ ps.flatMap Piece.data).length → ∃ p ∈ ps, p.Has i) ∧
      ∃ p ∈ ps, p.more = false := by
  induction ps generalizing k front with
  | nil => exact h.elim
  | cons p ps ih =>
    have hoffset : p.offset = front.length := by
      cases ps with
      | nil => exact h.2.1.trans hk.symm
      | cons q ps => exact h.2.1.trans hk.symm
    have hget : ∀ rest i, p.Has i →
        p.data[i - p.offset]? = (front ++ (p.data ++ rest))[i]? := by
      rintro rest i ⟨hle, hlt⟩
      rw [getElem?_append_right (by omega), getElem?_append_left (by omega), hoffset]
    cases ps with
    | nil =>
      have hnil : ([p].flatMap Piece.data) = p.data ++ [] := by simp
      rw [hnil]
      refine ⟨fun r hr => ?_, fun i hi hlt => ⟨p, mem_singleton_self p, ?_⟩,
        p, mem_singleton_self p, h.2.2⟩
      · rw [mem_singleton.mp hr]
        refine ⟨?_, hget [], fun _ => ?_⟩
        · rw [length_append, length_append, length_nil]
          omega
        · rw [length_append, length_append, length_nil]
          omega
      · rw [length_append, length_append, length_nil] at hlt
        exact ⟨by omega, by omega⟩
    | cons q ps =>
      have hsplit : front ++ (p :: q :: ps).flatMap Piece.data =
          (front ++ p.data) ++ (q :: ps).flatMap Piece.data := by
        rw [flatMap_cons, append_assoc]
      obtain ⟨hof, hall, r, hr, hlast⟩ := ih h.2.2.2 (front ++ p.data) (by
        rw [length_append, hk])
      rw [← hsplit] at hof hall
      refine ⟨fun s hs => ?_, fun i hi hlt => ?_, r, mem_cons_of_mem p hr, hlast⟩
      · rcases mem_cons.mp hs with rfl | hs
        · refine ⟨?_, ?_, fun hmore => ?_⟩
          · rw [flatMap_cons, length_append, length_append]
            omega
          · exact hget _
          · rw [h.2.2.1] at hmore
            cases hmore
        · exact hof s hs
      · by_cases hin : i < k + p.data.length
        · exact ⟨p, mem_cons_self, by omega, by omega⟩
        · obtain ⟨s, hs, hsi⟩ := hall i (by omega) hlt
          exact ⟨s, mem_cons_of_mem p hs, hsi⟩

/-- **Pieces cut from a datagram are put together to it again**, in any order and with pieces of
other keys between them. -/
theorem Cuts.collect [DecidableEq κ] {key : κ} (h : Cuts key 0 ps) {arriving : List (Piece κ α)}
    (hperm : (arriving.filter fun p => p.key = key).Perm ps) :
    (collect key arriving).done = some (ps.flatMap Piece.data) := by
  obtain ⟨hof, hall, p, hp, hlast⟩ := h.of [] rfl
  refine done_foldl (fun q hq => hof q (hperm.subset hq)) (fun i hi => ?_)
    ⟨p, hperm.symm.subset hp, hlast⟩
  obtain ⟨q, hq, hqi⟩ := hall i (Nat.zero_le i) hi
  exact ⟨q, hperm.symm.subset hq, hqi⟩

end SdcBoot.Lib.Reassembly
