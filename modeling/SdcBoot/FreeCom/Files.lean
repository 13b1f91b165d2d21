/-
# Files as FreeCOM's commands see them

A volume gives the bytes of each file by its true path.  A device has a true path as well; what is
written to it is gone, and `unlink` leaves it alone.

A file that is open for writing has a position and, behind it, bytes that `stdio` has not written
yet.  DOS takes as many of the bytes it is given as there is room for; it cuts or extends a file to
its position when it is given none, and what it extends a file by is not cleared.
-/
import Mathlib.Logic.Function.Basic
import Mathlib.Tactic.Linarith

namespace SdcBoot.FreeCom

open List

abbrev Bytes := List UInt8

/-- A file name, as it is typed or as a true path. -/
abbrev FileName := List Char

/-! ## 1. Bytes -/

/-- `b` written over `data` at `pos`. -/
def overwrite (data : Bytes) (pos : Nat) (b : Bytes) : Bytes :=
  data.take pos ++ b ++ data.drop (pos + b.length)

variable {b : Bytes} {pos : Nat}

theorem length_overwrite_ge {data : Bytes} (hpos : pos ≤ data.length) :
    pos + b.length ≤ (overwrite data pos b).length := by
  simp only [overwrite, length_append, length_take]
  omega

theorem overwrite_nil {data : Bytes} : overwrite data pos [] = data := by
  simp [overwrite]

/-- At its end a file is extended. -/
theorem overwrite_end {data : Bytes} : overwrite data data.length b = data ++ b := by
  simp [overwrite]

/-- Two writes, one behind the other, are one. -/
theorem overwrite_overwrite {data a : Bytes} (hpos : pos ≤ data.length) :
    overwrite (overwrite data pos a) (pos + a.length) b = overwrite data pos (a ++ b) := by
  have hlen : (data.take pos ++ a).length = pos + a.length := by
    rw [length_append, length_take, min_eq_left hpos]
  have htake : (data.take pos ++ a ++ data.drop (pos + a.length)).take (pos + a.length) =
      data.take pos ++ a := take_left' hlen
  have hdrop : (data.take pos ++ a ++ data.drop (pos + a.length)).drop
      (pos + a.length + b.length) = data.drop (pos + (a ++ b).length) := by
    rw [drop_append, drop_eq_nil_of_le (by omega), nil_append, hlen,
      drop_drop, length_append]
    congr 1
    omega
  unfold overwrite
  rw [htake, hdrop, append_assoc (data.take pos) a b]

/-- Written from the start on, bytes that reach the end are all there is. -/
theorem overwrite_start {data : Bytes} (hlen : data.length ≤ b.length) :
    overwrite data 0 b = b := by
  simp [overwrite, drop_eq_nil_of_le hlen]

/-- A file cut to `size` bytes, or extended to them as far as there is room. -/
def resize (junk : Nat → UInt8) (room : Nat) (data : Bytes) (size : Nat) : Bytes :=
  data.take size ++ (List.range (min room (size - data.length))).map junk

theorem length_resize_le (junk : Nat → UInt8) (room : Nat) (data : Bytes) (size : Nat) :
    (resize junk room data size).length ≤ size := by
  simp only [resize, length_append, length_take, length_map, length_range]
  omega

/-! ## 2. Volumes -/

/-- The files there are and the names of devices; a device has no bytes to keep. -/
structure Volume where
  file : FileName → Option Bytes
  device : FileName → Bool
  noFile : ∀ n, device n = true → file n = none

namespace Volume

/-- The bytes of a file, none where there is no file. -/
def data (v : Volume) (n : FileName) : Bytes := (v.file n).getD []

/-- What can be opened. -/
def known (v : Volume) (n : FileName) : Bool := v.device n || (v.file n).isSome

/-- A file is given its bytes, or removed; a device stays. -/
def put (v : Volume) (n : FileName) (data : Option Bytes) : Volume where
  file := Function.update v.file n (if v.device n then none else data)
  device := v.device
  noFile := by
    intro m hm
    by_cases hmn : m = n
    · subst hmn
      simp [hm]
    · rw [Function.update_of_ne hmn]
      exact v.noFile m hm

variable {v : Volume} {n : FileName}

theorem put_self (data : Option Bytes) (hn : v.device n = false) :
    (v.put n data).file n = data := by
  simp [put, hn]

theorem put_other {m : FileName} (data : Option Bytes) (hm : m ≠ n) :
    (v.put n data).file m = v.file m := Function.update_of_ne hm _ _

/-- Only the file `n` differs. -/
def SameBut (n : FileName) (v v' : Volume) : Prop :=
  v'.device = v.device ∧ ∀ m, m ≠ n → v'.file m = v.file m

theorem SameBut.refl (n : FileName) (v : Volume) : SameBut n v v := ⟨rfl, fun _ _ => rfl⟩

theorem SameBut.trans {v' v'' : Volume} (h : SameBut n v v')
    (h' : SameBut n v' v'') : SameBut n v v'' :=
  ⟨h'.1.trans h.1, fun m hm => (h'.2 m hm).trans (h.2 m hm)⟩

theorem sameBut_put (v : Volume) (n : FileName) (data : Option Bytes) :
    SameBut n v (v.put n data) := ⟨rfl, fun _ hm => put_other data hm⟩

end Volume

/-! ## 3. A file that is open for writing -/

/-- The volume, and the position and the unwritten bytes of the file that is written. -/
structure Work where
  v : Volume
  pos : Nat
  pending : Bytes

namespace Work

/-- `write`, of bytes that DOS takes. -/
def write (w : Work) (n : FileName) (b : Bytes) : Work :=
  { w with v := w.v.put n (some (overwrite (w.v.data n) w.pos b)), pos := w.pos + b.length }

/-- `lseek` to `size`, a write of no bytes, and `lseek` to the start. -/
def presize (w : Work) (n : FileName) (junk : Nat → UInt8) (room size : Nat) : Work :=
  { w with v := w.v.put n (some (resize junk room (w.v.data n) size)), pos := 0 }

/-- `truncate`: the file ends at the position. -/
def cut (w : Work) (n : FileName) : Work :=
  { w with v := w.v.put n (some ((w.v.data n).take w.pos)) }

/-- `stdio` writes the first `count` of the bytes it has. -/
def flush (w : Work) (n : FileName) (count : Nat) : Work :=
  { w.write n (w.pending.take count) with pending := w.pending.drop count }

theorem sameBut_write (w : Work) (n : FileName) (b : Bytes) :
    Volume.SameBut n w.v (w.write n b).v := Volume.sameBut_put _ _ _

theorem sameBut_presize (w : Work) (n : FileName) (junk : Nat → UInt8) (room size : Nat) :
    Volume.SameBut n w.v (w.presize n junk room size).v := Volume.sameBut_put _ _ _

theorem sameBut_cut (w : Work) (n : FileName) : Volume.SameBut n w.v (w.cut n).v :=
  Volume.sameBut_put _ _ _

theorem sameBut_flush (w : Work) (n : FileName) (count : Nat) :
    Volume.SameBut n w.v (w.flush n count).v := w.sameBut_write n _

/-- The file `n` holds `data`, is at `pos`, and nothing is left to be written. -/
structure At (n : FileName) (data : Bytes) (pos : Nat) (w : Work) : Prop where
  plain : w.v.device n = false
  file : w.v.file n = some data
  pos : w.pos = pos
  pending : w.pending = []

variable {n : FileName} {d : Bytes} {pos : Nat} {w : Work}

theorem At.data (h : w.At n d pos) : w.v.data n = d := by
  rw [Volume.data, h.file]
  rfl

theorem At.write (h : w.At n d pos) (b : Bytes) :
    (w.write n b).At n (overwrite d pos b) (pos + b.length) where
  plain := h.plain
  file := by rw [Work.write, Volume.put_self _ h.plain, h.data, h.pos]
  pos := by rw [Work.write, h.pos]
  pending := h.pending

theorem At.presize (h : w.At n d pos) (junk : Nat → UInt8) (room size : Nat) :
    (w.presize n junk room size).At n (resize junk room d size) 0 where
  plain := h.plain
  file := by rw [Work.presize, Volume.put_self _ h.plain, h.data]
  pos := rfl
  pending := h.pending

/-- A file is cut where it ends. -/
theorem At.cut (h : w.At n d d.length) :
    (w.cut n).At n d d.length where
  plain := h.plain
  file := by rw [Work.cut, Volume.put_self _ h.plain, h.data, h.pos, take_length]
  pos := h.pos
  pending := h.pending

/-- There is nothing to flush. -/
theorem At.flush (h : w.At n d d.length) (count : Nat) :
    (w.flush n count).At n d d.length where
  plain := h.plain
  file := by
    have hwrite := (h.write []).file
    rw [overwrite_nil] at hwrite
    rw [Work.flush, h.pending, take_nil]
    exact hwrite
  pos := by
    have hwrite := (h.write []).pos
    rw [Work.flush, h.pending, take_nil]
    exact hwrite
  pending := by rw [Work.flush, h.pending, drop_nil]

end Work

end SdcBoot.FreeCom
