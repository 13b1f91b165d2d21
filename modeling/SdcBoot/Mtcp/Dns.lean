/-
# Names in a DNS packet

`decodeName` walks through a packet from length byte to length byte, wherever a pointer sends it, and
copies the labels it has room for, each with a dot behind it; the last dot becomes the zero byte.

`Ends` is the walk alone: it gets to a zero byte, and everything it passes lies in the packet.
A walk that is not like that leaves the packet or never ends, and where no label fits there is no last
dot, so that the zero byte goes below the buffer.  `decodeName_safe_iff` says that this is all.
-/
import Mathlib.Data.UInt
import Mathlib.Data.List.Basic
import Mathlib.Logic.Function.Basic

namespace SdcBoot.Mtcp.Dns

open List

/-! ## 1. decodeName -/

def DNS_MAX_NAME_LEN : Nat := 128

/-- What a call has done: `current` is what it returns.  Places of the packet are counted from its
header (`ident`), and `writes` are the indices of `nameBuf` that were written. -/
structure Decoded where
  current : Nat
  nameBuf : Nat → UInt8
  reads : List Nat
  writes : List Int

def Decoded.touch (d : Decoded) (reads : List Nat) (writes : List Int) : Decoded :=
  { d with reads := reads ++ d.reads, writes := writes ++ d.writes }

/-- memcpy of bytes of the packet, or of a text. -/
def copyTo (nameBuf : Nat → UInt8) (at' : Nat) (n : Nat) (bytes : Nat → UInt8) : Nat → UInt8 :=
  fun i => if at' ≤ i ∧ i < at' + n then bytes (i - at') else nameBuf i

/-- `nameBuf[i] = value`; below the buffer there is something else. -/
def store (nameBuf : Nat → UInt8) (i : Int) (value : UInt8) : Nat → UInt8 :=
  if 0 ≤ i then Function.update nameBuf i.toNat value else nameBuf

def dot : UInt8 := 46

/-- "TOO_BIG" with its zero byte. -/
def tooBig : List UInt8 := [84, 79, 79, 95, 66, 73, 71, 0]

/-- The place a pointer leads to. -/
def pointerTarget (mem : Nat → UInt8) (current : Nat) : Nat :=
  (mem (current + 1)).toNat + 256 * ((mem current).toNat % 64)

/-- The indices from `i` on, `n` of them. -/
def indices (i n : Nat) : List Int := (List.range' i n).map Int.ofNat

/-- The loop of `decodeName`.  `ptrHit` is `prePtrCurrent` once a pointer was hit. -/
def decodeLoop (mem : Nat → UInt8) : Nat → Nat → Nat → Option Nat → (Nat → UInt8) → Option Decoded
  | 0, _, _, _, _ => none
  | fuel + 1, current, tmpNameIndex, ptrHit, nameBuf =>
    let nextLen := (mem current).toNat
    if nextLen = 0 then
      some { current := ptrHit.getD current + 1
             nameBuf := store nameBuf (tmpNameIndex - 1) 0
             reads := [current]
             writes := [tmpNameIndex - 1] }
    else if nextLen > 191 then
      (decodeLoop mem fuel (pointerTarget mem current) tmpNameIndex
        (some (ptrHit.getD (current + 1))) nameBuf).map (·.touch [current, current + 1] [])
    else if tmpNameIndex + nextLen ≥ DNS_MAX_NAME_LEN then
      (decodeLoop mem fuel (current + 1 + nextLen) tmpNameIndex ptrHit
        (copyTo nameBuf 0 tooBig.length (tooBig.getD · 0))).map
        (·.touch [current] (indices 0 tooBig.length))
    else
      (decodeLoop mem fuel (current + 1 + nextLen) (tmpNameIndex + nextLen + 1) ptrHit
        (store (copyTo nameBuf tmpNameIndex nextLen fun k => mem (current + 1 + k))
          (tmpNameIndex + nextLen : Nat) dot)).map
        (·.touch (List.range' current (nextLen + 1)) (indices tmpNameIndex (nextLen + 1)))

/-- decodeName; `none` if the fuel does not suffice. -/
def decodeName (mem : Nat → UInt8) (fuel current : Nat) (nameBuf : Nat → UInt8) : Option Decoded :=
  decodeLoop mem fuel current 0 none nameBuf

/-! ## 2. The walk -/

/-- From `current` on the walk comes to a zero byte, past labels of these lengths, and everything it
passes lies in the packet. -/
inductive Ends (mem : Nat → UInt8) (len : Nat) : Nat → List Nat → Prop where
  | zero {current : Nat} (hin : current < len) (h : mem current = 0) : Ends mem len current []
  | pointer {current : Nat} {labels : List Nat} (hin : current + 1 < len)
      (h : 191 < (mem current).toNat) (hrest : Ends mem len (pointerTarget mem current) labels) :
      Ends mem len current labels
  | label {current : Nat} {labels : List Nat} (hpos : mem current ≠ 0)
      (h : (mem current).toNat ≤ 191)
      (hrest : Ends mem len (current + 1 + (mem current).toNat) labels) :
      Ends mem len current ((mem current).toNat :: labels)

variable {mem : Nat → UInt8} {len : Nat}

theorem Ends.inside {current : Nat} {labels : List Nat} (h : Ends mem len current labels) :
    current < len := by
  induction h with
  | zero hin => exact hin
  | pointer hin => omega
  | label _ _ _ ih => omega

theorem mem_indices {i n : Nat} {k : Int} : k ∈ indices i n ↔ (i : Int) ≤ k ∧ k < i + n := by
  rw [indices, mem_map]
  constructor
  · rintro ⟨j, hj, rfl⟩
    have := mem_range'_1.mp hj
    rw [Int.ofNat_eq_natCast]
    omega
  · exact fun h => ⟨k.toNat, mem_range'_1.mpr (by omega), Int.toNat_of_nonneg (by omega)⟩

/-- What a call may do to the buffer and to the packet. -/
structure Safe (len : Nat) (d : Decoded) : Prop where
  reads : ∀ q ∈ d.reads, q < len
  writes : ∀ i ∈ d.writes, 0 ≤ i ∧ i < DNS_MAX_NAME_LEN
  ended : ∃ i < DNS_MAX_NAME_LEN, d.nameBuf i = 0

theorem Safe.touch_iff {d : Decoded} {reads : List Nat} {writes : List Int} :
    Safe len (d.touch reads writes) ↔
      (∀ q ∈ reads, q < len) ∧ (∀ i ∈ writes, 0 ≤ i ∧ i < DNS_MAX_NAME_LEN) ∧ Safe len d := by
  constructor
  · intro h
    exact ⟨fun q hq => h.reads q (mem_append_left _ hq),
      fun i hi => h.writes i (mem_append_left _ hi),
      fun q hq => h.reads q (mem_append_right _ hq),
      fun i hi => h.writes i (mem_append_right _ hi), h.ended⟩
  · rintro ⟨hreads, hwrites, hd⟩
    refine ⟨fun q hq => ?_, fun i hi => ?_, hd.ended⟩
    · rcases mem_append.mp hq with hq | hq
      · exact hreads q hq
      · exact hd.reads q hq
    · rcases mem_append.mp hi with hi | hi
      · exact hwrites i hi
      · exact hd.writes i hi

/-- A dot was written, or a label that is still to come fits. -/
def Fits (tmpNameIndex : Nat) (labels : List Nat) : Prop :=
  0 < tmpNameIndex ∨ ∃ l ∈ labels, l < DNS_MAX_NAME_LEN

/-- Along a walk in the packet the call ends and does no harm. -/
theorem Ends.safe {current : Nat} {labels : List Nat} (h : Ends mem len current labels) :
    ∀ {t : Nat}, t ≤ DNS_MAX_NAME_LEN → Fits t labels →
    ∀ ptrHit nameBuf, ∃ fuel d,
      decodeLoop mem fuel current t ptrHit nameBuf = some d ∧ Safe len d := by
  induction h with
  | @zero current hin hzero =>
    intro tmp hle hfits ptrHit nameBuf
    have hpos : 0 < tmp := hfits.resolve_right fun ⟨l, hl, _⟩ => by cases hl
    refine ⟨1, _, by rw [decodeLoop, if_pos (by rw [hzero]; rfl)], ?_, ?_, ?_⟩
    · simpa using hin
    · simp only [mem_singleton]
      omega
    · refine ⟨tmp - 1, by omega, ?_⟩
      simp only [store]
      rw [if_pos (by omega), show ((tmp : Int) - 1).toNat = tmp - 1 by omega,
        Function.update_self]
  | @pointer current labels hin hptr _ ih =>
    intro tmp hle hfits ptrHit nameBuf
    obtain ⟨fuel, d, hd, hsafe⟩ := ih hle hfits (some (ptrHit.getD (current + 1))) nameBuf
    refine ⟨fuel + 1, d.touch [current, current + 1] [], ?_, Safe.touch_iff.mpr ⟨?_, ?_, hsafe⟩⟩
    · rw [decodeLoop, if_neg (by omega), if_pos hptr, hd]
      rfl
    · simp
      omega
    · simp
  | @label current labels hne hlabel hrest ih =>
    intro tmp hle hfits ptrHit nameBuf
    have hin := hrest.inside
    have hpos : (mem current).toNat ≠ 0 := fun hz => hne (UInt8.toNat_inj.mp hz)
    by_cases hbig : tmp + (mem current).toNat ≥ DNS_MAX_NAME_LEN
    · have hfits' : Fits tmp labels := by
        rcases hfits with h | ⟨l, hl, hlt⟩
        · exact .inl h
        · rcases mem_cons.mp hl with rfl | hl
          · exact .inl (by omega)
          · exact .inr ⟨l, hl, hlt⟩
      obtain ⟨fuel, d, hd, hsafe⟩ := ih hle hfits' ptrHit
        (copyTo nameBuf 0 tooBig.length (tooBig.getD · 0))
      refine ⟨fuel + 1, d.touch [current] (indices 0 tooBig.length), ?_,
        Safe.touch_iff.mpr ⟨?_, ?_, hsafe⟩⟩
      · rw [decodeLoop, if_neg hpos, if_neg (by omega), if_pos hbig, hd]
        rfl
      · simp
        omega
      · intro i hi
        have := mem_indices.mp hi
        have hlen : tooBig.length = 8 := rfl
        unfold DNS_MAX_NAME_LEN
        omega
    · obtain ⟨fuel, d, hd, hsafe⟩ := ih (t := tmp + (mem current).toNat + 1) (by omega)
        (.inl (by omega)) ptrHit
        (store (copyTo nameBuf tmp (mem current).toNat fun k => mem (current + 1 + k))
          (tmp + (mem current).toNat : Nat) dot)
      refine ⟨fuel + 1, d.touch (List.range' current ((mem current).toNat + 1))
        (indices tmp ((mem current).toNat + 1)), ?_, Safe.touch_iff.mpr ⟨?_, ?_, hsafe⟩⟩
      · rw [decodeLoop, if_neg hpos, if_neg (by omega), if_neg hbig, hd]
        rfl
      · intro q hq
        have := mem_range'_1.mp hq
        omega
      · intro i hi
        have := mem_indices.mp hi
        omega

/-- A call that does no harm has walked in the packet, and written a dot before it took one back. -/
theorem ends_of_safe (fuel : Nat) : ∀ {current tmpNameIndex : Nat} {ptrHit : Option Nat}
    {nameBuf : Nat → UInt8} {d : Decoded},
    decodeLoop mem fuel current tmpNameIndex ptrHit nameBuf = some d → Safe len d →
    ∃ labels, Ends mem len current labels ∧ Fits tmpNameIndex labels := by
  induction fuel with
  | zero => exact nofun
  | succ fuel ih =>
    intro current tmp ptrHit nameBuf d h hsafe
    rw [decodeLoop] at h
    split at h
    · rename_i hzero
      cases h
      have hin := hsafe.reads current (mem_singleton_self _)
      have hpos := (hsafe.writes _ (mem_singleton_self _)).1
      exact ⟨[], .zero hin (UInt8.toNat_inj.mp hzero), .inl (by omega)⟩
    · rename_i hne
      split at h
      · rename_i hptr
        obtain ⟨d', hd, rfl⟩ := Option.map_eq_some_iff.mp h
        obtain ⟨hreads, -, hsafe'⟩ := Safe.touch_iff.mp hsafe
        obtain ⟨labels, hends, hfits⟩ := ih hd hsafe'
        exact ⟨labels, .pointer (hreads (current + 1) (by simp)) hptr hends, hfits⟩
      · have hbyte : mem current ≠ 0 := fun hz => hne (by rw [hz]; rfl)
        split at h
        · obtain ⟨d', hd, rfl⟩ := Option.map_eq_some_iff.mp h
          obtain ⟨-, -, hsafe'⟩ := Safe.touch_iff.mp hsafe
          obtain ⟨labels, hends, hfits⟩ := ih hd hsafe'
          refine ⟨_, .label hbyte (by omega) hends, ?_⟩
          exact hfits.imp_right fun ⟨l, hl, hlt⟩ => ⟨l, mem_cons_of_mem _ hl, hlt⟩
        · obtain ⟨d', hd, rfl⟩ := Option.map_eq_some_iff.mp h
          obtain ⟨-, -, hsafe'⟩ := Safe.touch_iff.mp hsafe
          obtain ⟨labels, hends, -⟩ := ih hd hsafe'
          exact ⟨_, .label hbyte (by omega) hends, .inr ⟨_, mem_cons_self, by omega⟩⟩

/-! ## 3. When a name is decoded safely -/

/-- **`decodeName` ends, stays in the packet and in the buffer and ends the name there** just for a
walk that comes to a zero byte in the packet, past a label that fits into the buffer. -/
theorem decodeName_safe_iff (mem : Nat → UInt8) (len current : Nat) (nameBuf : Nat → UInt8) :
    (∃ fuel d, decodeName mem fuel current nameBuf = some d ∧ Safe len d) ↔
      ∃ labels, Ends mem len current labels ∧ ∃ l ∈ labels, l < DNS_MAX_NAME_LEN := by
  constructor
  · rintro ⟨fuel, d, hd, hsafe⟩
    obtain ⟨labels, hends, hfits⟩ := ends_of_safe fuel hd hsafe
    exact ⟨labels, hends, hfits.resolve_left (lt_irrefl 0)⟩
  · rintro ⟨labels, hends, hfits⟩
    exact hends.safe (Nat.zero_le _) (.inr hfits) none nameBuf

/-- The name of the root: there is no dot to take back. -/
theorem decodeName_below :
    ¬ ∀ (mem : Nat → UInt8) (len current : Nat) (nameBuf : Nat → UInt8), current < len →
      ∃ fuel d, decodeName mem fuel current nameBuf = some d ∧ Safe len d := by
  intro h
  obtain ⟨fuel, d, hd, hsafe⟩ := h (fun _ => 0) 17 12 (fun _ => 0) (by decide)
  cases fuel with
  | zero => cases hd
  | succ fuel =>
    cases hd
    exact absurd (hsafe.writes (-1) (List.mem_singleton_self _)).1 (by decide)

end SdcBoot.Mtcp.Dns
