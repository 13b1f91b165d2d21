/-
# Self-delimiting blocks that tile an interval

A memory `m : Nat → H` holds a header at the first cell of each block, and `size` reads from a
header how many cells follow it.  A list of tiles `(seg, hdr)` tiles `[lo, hi)` when the first
starts at `lo`, each begins where the one before it ends, the last ends at `hi`, and the memory
holds each tile's header at its start.

The lemmas are those an allocator needs: splitting and joining lists of tiles (`tiles_append`), the
frame rule (`Tiles.congr`), and the edit rule (`Tiles.edit`), by which a stretch of tiles is
replaced by another over the same interval and the rest of the tiling stands.
-/
import Mathlib.Order.Lattice.Nat
import Mathlib.Tactic.Linarith

namespace SdcBoot.Lib

open List

/-- A block: where it starts, and its header. -/
structure Tile (H : Type) where
  seg : Nat
  hdr : H
  deriving DecidableEq

variable {H : Type}

/-- The tiles cover `[lo, hi)` in order, and their headers are in memory. -/
def Tiles (size : H → Nat) (m : Nat → H) : Nat → List (Tile H) → Nat → Prop
  | lo, [], hi => lo = hi
  | lo, b :: bs, hi => b.seg = lo ∧ m lo = b.hdr ∧ Tiles size m (lo + 1 + size b.hdr) bs hi

variable {size : H → Nat} {m m' : Nat → H}

variable {hi lo : Nat} {b : Tile H} {bs : List (Tile H)}

@[simp] theorem tiles_nil : Tiles size m lo [] hi ↔ lo = hi := Iff.rfl

theorem tiles_cons :
    Tiles size m lo (b :: bs) hi ↔
      b.seg = lo ∧ m lo = b.hdr ∧ Tiles size m (lo + 1 + size b.hdr) bs hi := Iff.rfl

theorem Tiles.le : ∀ {bs : List (Tile H)} {lo hi : Nat}, Tiles size m lo bs hi → lo ≤ hi
  | [], _, _, h => le_of_eq h
  | _ :: _, _, _, ⟨_, _, h⟩ => by have := h.le; omega

/-- A tile covers at least its own header cell. -/
theorem Tiles.length_le : ∀ {bs : List (Tile H)} {lo hi : Nat}, Tiles size m lo bs hi →
    lo + bs.length ≤ hi
  | [], _, _, h => le_of_eq h
  | _ :: _, _, _, ⟨_, _, h⟩ => by
    have := h.length_le
    simp only [length_cons]
    omega

theorem tiles_append : ∀ {xs ys : List (Tile H)} {lo hi : Nat},
    Tiles size m lo (xs ++ ys) hi ↔ ∃ mid, Tiles size m lo xs mid ∧ Tiles size m mid ys hi
  | [], ys, lo, hi => by simp
  | b :: xs, ys, lo, hi => by
    simp only [cons_append, tiles_cons, @tiles_append xs]
    constructor
    · rintro ⟨h1, h2, mid, h3, h4⟩
      exact ⟨mid, ⟨h1, h2, h3⟩, h4⟩
    · rintro ⟨mid, ⟨h1, h2, h3⟩, h4⟩
      exact ⟨h1, h2, mid, h3, h4⟩

/-- **The frame rule.**  A tiling reads the memory only inside its interval. -/
theorem Tiles.congr : ∀ {bs : List (Tile H)} {lo hi : Nat}, Tiles size m lo bs hi →
    (∀ c, lo ≤ c → c < hi → m' c = m c) → Tiles size m' lo bs hi
  | [], _, _, h, _ => h
  | b :: bs, lo, hi, ⟨h1, h2, h3⟩, hag => by
    have hle := h3.le
    refine ⟨h1, by rw [hag lo le_rfl (by omega), h2], h3.congr fun c hc hc' => ?_⟩
    exact hag c (by omega) hc'

/-- Every tile lies inside the interval. -/
theorem Tiles.mem_bounds : ∀ {bs : List (Tile H)} {lo hi : Nat}, Tiles size m lo bs hi →
    ∀ b ∈ bs, lo ≤ b.seg ∧ b.seg + 1 + size b.hdr ≤ hi ∧ m b.seg = b.hdr
  | [], _, _, _, b, hb => absurd hb (by simp)
  | x :: bs, lo, hi, ⟨h1, h2, h3⟩, b, hb => by
    have hle := h3.le
    rcases mem_cons.mp hb with rfl | hb
    · exact ⟨by omega, by omega, by rw [h1]; exact h2⟩
    · obtain ⟨h4, h5, h6⟩ := h3.mem_bounds b hb
      exact ⟨by omega, h5, h6⟩

/-- Where a tile starts, the tiling splits in front of it. -/
theorem Tiles.split_at (h : Tiles size m lo bs hi) (hb : b ∈ bs) :
    ∃ pre post, bs = pre ++ b :: post ∧ Tiles size m lo pre b.seg ∧
      Tiles size m b.seg (b :: post) hi := by
  obtain ⟨pre, post, rfl⟩ := append_of_mem hb
  obtain ⟨mid, hpre, hpost⟩ := tiles_append.mp h
  have hseg : b.seg = mid := hpost.1
  exact ⟨pre, post, rfl, hseg ▸ hpre, hseg ▸ hpost⟩

/-- **The edit rule.**  Replace the tiles of `[a, b)` by others, in a memory that differs only
there: the tiling of the whole interval stands. -/
theorem Tiles.edit {pre ys post : List (Tile H)} {a b : Nat} (hpre : Tiles size m lo pre a)
    (hys : Tiles size m' a ys b) (hpost : Tiles size m b post hi)
    (hag : ∀ c, c < a ∨ b ≤ c → m' c = m c) : Tiles size m' lo (pre ++ ys ++ post) hi := by
  refine tiles_append.mpr ⟨b, tiles_append.mpr ⟨a, ?_, hys⟩, ?_⟩
  · exact hpre.congr fun c _ hc => hag c (.inl hc)
  · exact hpost.congr fun c hc _ => hag c (.inr hc)

end SdcBoot.Lib
