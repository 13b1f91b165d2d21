/-
# SHARE: the file table and the lock table (`share/share.c`)

SHARE is a resident program with two fixed tables: `file_table`, one entry for each open
instance of a file, and `lock_table`, one entry for each locked region.  The kernel calls it
through INT 2Fh: `open_check` before an open, `close_file` after a close or a failed open,
`access_check` before a transfer and `lock_unlock` for INT 21h/5Ch.

The routines are functions on `Tables`.  An entry of `file_table` is in use when its name is not
empty; slots are named by their index, which the kernel keeps in the SFT (`sft_shroff`).  Offsets
and lengths are `unsigned long`: sums are taken modulo `2 ^ 32` and clipped as the source does.
-/
import SdcBoot.Lib.Run

namespace SdcBoot.Share

open Lib List

/-! ## 1. The tables -/

/-- A fully qualified file name, as `open_check` receives it from `PriPathName`: a string with
no NUL inside that fits the 128 byte field of `file_t` together with its terminator. -/
structure Path where
  bytes : List UInt8
  noNul : (0 : UInt8) ∉ bytes
  fits : bytes.length < 128

/-- The name `A`. -/
def pathA : Path := ⟨[65], by decide, by decide⟩

/-- `file_t`: one instance of an open file.  The empty name marks an unused entry. -/
structure File where
  filename : List UInt8
  psp : Nat
  openmode : Nat
  sharemode : Nat
  firstOpenmode : Nat
  firstSharemode : Nat
  deriving DecidableEq

/-- `lock_t`: one locked region `[start, stop)`. -/
structure Lock where
  used : Bool
  start : Nat
  stop : Nat
  fileno : Nat
  psp : Nat
  deriving DecidableEq

/-- What `memset` leaves in an entry. -/
def File.zero : File := ⟨[], 0, 0, 0, 0, 0⟩

@[inherit_doc File.zero]
def Lock.zero : Lock := ⟨false, 0, 0, 0, 0⟩

/-- The two tables of the resident program. -/
structure Tables where
  fileTable : List File
  lockTable : List Lock
  deriving DecidableEq

/-- `init`: both tables cleared, of the sizes given by `/F:` and `/L:`. -/
def init (fileTableSize lockTableSize : Nat) : Tables :=
  ⟨List.replicate fileTableSize File.zero, List.replicate lockTableSize Lock.zero⟩

/-- `file_table[fileno]`. -/
def Tables.file (t : Tables) (fileno : Nat) : File := t.fileTable.getD fileno File.zero

/-- A store to `file_table[fileno]`. -/
def Tables.setFile (t : Tables) (fileno : Nat) (f : File) : Tables :=
  { t with fileTable := t.fileTable.set fileno f }

/-- A store to `lock_table[i]`. -/
def Tables.setLock (t : Tables) (i : Nat) (l : Lock) : Tables :=
  { t with lockTable := t.lockTable.set i l }

/-- The slot is in use: its name is not the empty string. -/
def File.live (f : File) : Prop := f.filename ≠ []

instance (f : File) : Decidable f.live := inferInstanceAs (Decidable (_ ≠ _))

/-! ## 2. Names, locks and slots -/

/-- `fnmatches`: both pointers advance while the first string lasts. -/
def fnmatches : List UInt8 → List UInt8 → Bool
  | [], fn2 => fn2.isEmpty
  | _ :: _, [] => false
  | a :: fn1, b :: fn2 => if a != b then false else fnmatches fn1 fn2

/-- `remove_all_locks`. -/
def removeAllLocks (t : Tables) (fileno : Nat) : Tables :=
  { t with
    lockTable := t.lockTable.map fun l => if l.fileno = fileno then { l with used := false } else l }

/-- `free_file_table_entry`. -/
def freeFileTableEntry (t : Tables) (fileno : Nat) : Tables :=
  t.setFile fileno { t.file fileno with filename := [] }

/-- `close_file`. -/
def closeFile (t : Tables) (fileno : Nat) : Tables :=
  freeFileTableEntry (removeAllLocks t fileno) fileno

/-! ## 3. The open decision -/

/-- `open_actions`, indexed by the first opener's share mode and the present one. -/
def openActions : List (List Nat) :=
  [[0, 1, 1, 1, 1],
   [2, 1, 1, 1, 1],
   [2, 1, 1, 1, 1],
   [2, 1, 1, 1, 1],
   [2, 1, 1, 1, 0]]

/-- `open_action_exception_t`. -/
structure OpenActionException where
  firstSharemode : Nat
  firstOpenmode : Nat
  currentSharemode : Nat
  currentOpenmode : Nat
  action : Nat

/-- `open_exceptions`. -/
def openExceptions : List OpenActionException :=
  [⟨0, 0, 2, 0, 3⟩, ⟨0, 0, 4, 0, 3⟩, ⟨2, 0, 0, 0, 4⟩, ⟨2, 0, 2, 0, 0⟩, ⟨2, 0, 4, 0, 0⟩,
   ⟨3, 0, 2, 1, 0⟩, ⟨3, 0, 4, 1, 0⟩, ⟨3, 1, 4, 1, 0⟩, ⟨3, 2, 4, 1, 0⟩, ⟨4, 0, 0, 0, 4⟩,
   ⟨4, 0, 0, 1, 0⟩, ⟨4, 0, 0, 2, 0⟩, ⟨4, 0, 2, 0, 0⟩, ⟨4, 0, 2, 1, 0⟩, ⟨4, 0, 2, 2, 0⟩,
   ⟨4, 1, 3, 0, 0⟩, ⟨4, 1, 3, 1, 0⟩, ⟨4, 1, 3, 2, 0⟩]

/-- The action for a request `(cs, co)` on a file whose first opener used `(fs, fo)`: the
first matching exception, else the general table. -/
def openAction (fs fo cs co : Nat) : Nat :=
  match openExceptions.find? fun e =>
      e.firstSharemode == fs && e.currentSharemode == cs && e.firstOpenmode == fo &&
        e.currentOpenmode == co with
  | some e => e.action
  | none => (openActions.getD fs []).getD cs 0

/-- The loop of `do_open_check` up to the entry it decides on: the first OTHER entry in use
with the same name. -/
def firstMatch (files : List File) (fileno : Nat) (filename : List UInt8) : Option File :=
  (files.zipIdx.find? fun (p, i) =>
    i != fileno && !p.filename.isEmpty && fnmatches p.filename filename).map Prod.fst

/-- `do_open_check`.  Actions 3 and 4 fall through to 0 (the read-only restrictions were
dropped in 2004); action 2 also raises INT 24h, whose answer is ignored. -/
def doOpenCheck (t : Tables) (fileno : Nat) : Int × Tables :=
  let fptr := t.file fileno
  match firstMatch t.fileTable fileno fptr.filename with
  | none =>
    (fileno, t.setFile fileno
      { fptr with firstSharemode := fptr.sharemode, firstOpenmode := fptr.openmode })
  | some p =>
    let t' := t.setFile fileno
      { fptr with firstSharemode := p.firstSharemode, firstOpenmode := p.firstOpenmode }
    match openAction p.firstSharemode p.firstOpenmode fptr.sharemode fptr.openmode with
    | 1 => (-5, freeFileTableEntry t' fileno)
    | 2 => (-0x20, freeFileTableEntry t' fileno)
    | _ => (fileno, t')

/-- The share mode as `open_check` reads it: three bits, and compatibility mode if invalid. -/
def normSharemode (sharemode : Nat) : Nat := if sharemode % 8 > 4 then 0 else sharemode % 8

/-- The open mode as `open_check` reads it: two bits, and read-only if invalid. -/
def normOpenmode (openmode : Nat) : Nat := if openmode % 4 > 2 then 0 else openmode % 4

/-- The first unused slot of `file_table`. -/
def freeSlot (t : Tables) : Option Nat := t.fileTable.findIdx? fun f => f.filename.isEmpty

/-- `open_check`: a slot for the file, or the negated DOS error code. -/
def openCheck (t : Tables) (filename : Path) (psp openmode sharemode : Nat) : Int × Tables :=
  match freeSlot t with
  | none => (-1, t)
  | some fileno =>
    doOpenCheck
      (t.setFile fileno
        { t.file fileno with
          filename := filename.bytes, psp := psp, openmode := normOpenmode openmode,
          sharemode := normSharemode sharemode })
      fileno

/-! ## 4. Record locks -/

/-- The end of a region, clipped to the last representable offset when the sum wraps. -/
def endOfs (ofs len : Nat) : Nat :=
  if (ofs + len) % 2 ^ 32 < ofs then 0xffffffff else (ofs + len) % 2 ^ 32

/-- The length that goes with `endOfs`: what is left of it after clipping. -/
def clipLen (ofs len : Nat) : Nat :=
  if (ofs + len) % 2 ^ 32 < ofs then 0xffffffff - ofs else len

/-- The lock is one `access_check` looks at: in use, not `psp`'s own (`psp = 0` owns none),
and on the file of slot `fileno`. -/
def Tables.relevant (t : Tables) (psp fileno : Nat) (l : Lock) : Bool :=
  l.used && (psp == 0 || l.psp != psp) &&
    fnmatches (t.file fileno).filename (t.file l.fileno).filename

/-- The overlap test of `access_check`: an end of `[ofs, endofs)` lies in the lock. -/
def Lock.holdsEnd (l : Lock) (ofs endofs : Nat) : Bool :=
  (l.start ≤ ofs && ofs < l.stop) || (l.start < endofs && endofs ≤ l.stop)

/-- The loop of `access_check` finds a lock. -/
def Tables.refuses (t : Tables) (psp fileno ofs endofs : Nat) : Bool :=
  t.lockTable.any fun l => t.relevant psp fileno l && l.holdsEnd ofs endofs

/-- `access_check`.  With `allowcriter` a hit also frees the table entry of the file that
asked, before INT 24h is raised. -/
def accessCheck (t : Tables) (psp fileno ofs len : Nat) (allowcriter : Bool) : Int × Tables :=
  if clipLen ofs len < 1 then (0, t)
  else if t.refuses psp fileno ofs (endOfs ofs len) then
    (-0x21, if allowcriter then freeFileTableEntry t fileno else t)
  else (0, t)

/-- The lock an unlock request names. -/
def Lock.isExactly (l : Lock) (psp fileno ofs endofs : Nat) : Bool :=
  l.used && l.psp == psp && l.fileno == fileno && l.start == ofs && l.stop == endofs

/-- `lock_unlock`. -/
def lockUnlock (t : Tables) (psp fileno ofs len : Nat) (unlock : Bool) : Int × Tables :=
  if clipLen ofs len < 1 then (0, t)
  else if unlock then
    match t.lockTable.findIdx? fun l => l.isExactly psp fileno ofs (endOfs ofs len) with
    | some i => (0, t.setLock i { t.lockTable.getD i Lock.zero with used := false })
    | none => (-0x21, t)
  else if (accessCheck t 0 fileno ofs (clipLen ofs len) false).1 ≠ 0 then (-0x21, t)
  else
    match t.lockTable.findIdx? fun l => !l.used with
    | some i => (0, t.setLock i ⟨true, ofs, (ofs + clipLen ofs len) % 2 ^ 32, fileno, psp⟩)
    | none => (-0x24, t)

/-! ## 5. The resident program as a machine -/

/-- The calls that change the tables. -/
inductive Call where
  | openCheck (filename : Path) (psp openmode sharemode : Nat)
  | closeFile (fileno : Nat)
  | lockUnlock (psp fileno : Nat) (ofs len : UInt32) (unlock : Bool)

/-- One call of `handler2f`: what it answers in AX, and the tables after it. -/
def step (t : Tables) : Call → Int × Tables
  | .openCheck filename psp openmode sharemode => openCheck t filename psp openmode sharemode
  | .closeFile fileno => (0, closeFile t fileno)
  | .lockUnlock psp fileno ofs len unlock => lockUnlock t psp fileno ofs.toNat len.toNat unlock

/-! ## 6. What the small routines compute -/

theorem fnmatches_iff : ∀ fn1 fn2 : List UInt8, fnmatches fn1 fn2 = true ↔ fn1 = fn2
  | [], fn2 => by cases fn2 <;> simp [fnmatches]
  | _ :: _, [] => by simp [fnmatches]
  | a :: fn1, b :: fn2 => by
    by_cases h : a = b
    · simp [fnmatches, fnmatches_iff fn1 fn2]
    · simp [fnmatches, h]

section

variable (t : Tables)
include t

@[simp] theorem setFile_lockTable (i : Nat) (f : File) :
    (t.setFile i f).lockTable = t.lockTable := rfl

@[simp] theorem setFile_length (i : Nat) (f : File) :
    (t.setFile i f).fileTable.length = t.fileTable.length := length_set

@[simp] theorem setLock_fileTable (i : Nat) (l : Lock) :
    (t.setLock i l).fileTable = t.fileTable := rfl

@[simp] theorem setLock_file (i j : Nat) (l : Lock) :
    (t.setLock i l).file j = t.file j := rfl

@[simp] theorem removeAllLocks_file (i j : Nat) :
    (removeAllLocks t i).file j = t.file j := rfl

@[simp] theorem freeFileTableEntry_lockTable (i : Nat) :
    (freeFileTableEntry t i).lockTable = t.lockTable := rfl

end

variable {t : Tables} {i j n : Nat}

theorem setFile_file_self (h : i < t.fileTable.length) (f : File) : (t.setFile i f).file i = f := by
  simp [Tables.file, Tables.setFile, h]

theorem setFile_file_ne (h : i ≠ j) (f : File) : (t.setFile i f).file j = t.file j := by
  simp [Tables.file, Tables.setFile, getElem?_set_ne h]

theorem file_of_length_le (h : t.fileTable.length ≤ i) : t.file i = File.zero := by
  simp [Tables.file, h]

/-- Freeing a slot empties its name and leaves the other slots alone. -/
theorem freeFileTableEntry_filename (t : Tables) (i j : Nat) :
    ((freeFileTableEntry t i).file j).filename = if i = j then [] else (t.file j).filename := by
  unfold freeFileTableEntry
  split
  · rename_i h
    subst h
    by_cases hi : i < t.fileTable.length
    · rw [setFile_file_self hi]
    · rw [file_of_length_le (by simpa using hi)]
      rfl
  · rename_i h
    rw [setFile_file_ne h]

theorem freeFileTableEntry_file_ne (h : i ≠ j) :
    (freeFileTableEntry t i).file j = t.file j := setFile_file_ne h _

theorem closeFile_file_ne (h : i ≠ j) : (closeFile t i).file j = t.file j := by
  rw [closeFile, freeFileTableEntry_file_ne h, removeAllLocks_file]

/-- `open_check` takes the first slot that is not in use. -/
theorem freeSlot_spec (h : freeSlot t = some i) :
    i < t.fileTable.length ∧ (t.file i).filename = [] := by
  obtain ⟨hlt, hempty, -⟩ := findIdx?_eq_some_iff_getElem.mp h
  exact ⟨hlt, by simpa [Tables.file, hlt] using hempty⟩

variable {files : List File} {fileno : Nat} {name : List UInt8} {p : File}

/-- The entry `do_open_check` decides on is another live entry with the same name. -/
theorem firstMatch_some (h : firstMatch files fileno name = some p) :
    ∃ j, j ≠ fileno ∧ files[j]? = some p ∧ p.live ∧ p.filename = name := by
  simp only [firstMatch, Option.map_eq_some_iff] at h
  obtain ⟨⟨q, j⟩, hfind, rfl⟩ := h
  have hp := find?_some hfind
  simp only [Bool.and_eq_true, bne_iff_ne, Bool.not_eq_true', isEmpty_eq_false_iff,
    fnmatches_iff] at hp
  have hmem := mem_of_find?_eq_some hfind
  rw [mem_zipIdx_iff_getElem?] at hmem
  exact ⟨j, hp.1.1, hmem, hp.1.2, hp.2⟩

/-- ... and there is none exactly when no other live entry has the name. -/
theorem firstMatch_none (h : firstMatch files fileno name = none) (hj : files[j]? = some p)
    (hne : j ≠ fileno) (hlive : p.live) : p.filename ≠ name := by
  intro hname
  simp only [firstMatch, Option.map_eq_none_iff, find?_eq_none] at h
  have hmem : (p, j) ∈ files.zipIdx := mem_zipIdx_iff_getElem?.mpr hj
  refine h (p, j) hmem ?_
  simp only [Bool.and_eq_true, bne_iff_ne, Bool.not_eq_true', isEmpty_eq_false_iff,
    fnmatches_iff]
  exact ⟨⟨hne, hlive⟩, hname⟩

/-! ## 7. What an open can do -/

theorem setFile_setFile (t : Tables) (i : Nat) (f g : File) :
    (t.setFile i f).setFile i g = t.setFile i g := by
  simp [Tables.setFile]

theorem freeFileTableEntry_setFile (h : i < t.fileTable.length) (f : File) :
    freeFileTableEntry (t.setFile i f) i = t.setFile i { f with filename := [] } := by
  rw [freeFileTableEntry, setFile_file_self h, setFile_setFile]

/-- The open was refused: the tables are as before, up to the contents of a slot that was and
is unused. -/
def Refused (t : Tables) (r : Int × Tables) : Prop :=
  r.1 < 0 ∧ (r.2 = t ∨ ∃ i f, freeSlot t = some i ∧ f.filename = [] ∧ r.2 = t.setFile i f)

/-- The first opener's modes an open records: the modes of the request if no other live entry
has the name, else those another live entry carries, which the open actions then admit. -/
def FirstModes (t : Tables) (i : Nat) (name : List UInt8) (sm om fs fo : Nat) : Prop :=
  ((∀ j p, j ≠ i → t.fileTable[j]? = some p → p.live → p.filename ≠ name) ∧ fs = sm ∧ fo = om) ∨
    ∃ j p, j ≠ i ∧ t.fileTable[j]? = some p ∧ p.live ∧ p.filename = name ∧
      fs = p.firstSharemode ∧ fo = p.firstOpenmode ∧
      openAction fs fo sm om ≠ 1 ∧ openAction fs fo sm om ≠ 2

/-- The open was granted slot `i`. -/
def Granted (t : Tables) (fn : Path) (psp om sm : Nat) (r : Int × Tables) : Prop :=
  ∃ i fs fo, freeSlot t = some i ∧
    FirstModes t i fn.bytes (normSharemode sm) (normOpenmode om) fs fo ∧
    r = ((i : Int), t.setFile i ⟨fn.bytes, psp, normOpenmode om, normSharemode sm, fo, fs⟩)

/-- **The two outcomes of `open_check`.** -/
theorem openCheck_cases (t : Tables) (fn : Path) (psp om sm : Nat) :
    Refused t (openCheck t fn psp om sm) ∨ Granted t fn psp om sm (openCheck t fn psp om sm) := by
  unfold openCheck
  split
  · exact .inl ⟨by simp, .inl rfl⟩
  · rename_i i hi
    obtain ⟨hlt, -⟩ := freeSlot_spec hi
    -- another slot reads the same before and after the name is stored
    have hother : ∀ (g : File) {j : Nat} {p : File}, j ≠ i →
        ((t.setFile i g).fileTable[j]? = some p ↔ t.fileTable[j]? = some p) := by
      intro g j p hj
      simp [Tables.setFile, getElem?_set_ne (Ne.symm hj)]
    unfold doOpenCheck
    simp only [setFile_file_self hlt]
    split
    · rename_i hnone
      refine .inr ⟨i, _, _, hi, .inl ⟨fun j p hj hp hlive => ?_, rfl, rfl⟩, ?_⟩
      · exact firstMatch_none hnone ((hother _ hj).mpr hp) hj hlive
      · rw [setFile_setFile]
    · rename_i p hsome
      obtain ⟨j, hj, hp, hlive, hname⟩ := firstMatch_some hsome
      split
      rotate_right 1
      · rename_i h1 h2
        refine .inr ⟨i, _, _, hi, .inr ⟨j, p, hj, (hother _ hj).mp hp, hlive, hname, rfl, rfl,
          h1, h2⟩, ?_⟩
        rw [setFile_setFile]
      all_goals
        refine .inl ⟨by simp, .inr ⟨i, _, hi, ?_, by rw [setFile_setFile,
          freeFileTableEntry_setFile hlt]⟩⟩
        rfl

/-- An open that is refused, or granted, stores at most to one slot, and that one was unused. -/
theorem openCheck_tables (t : Tables) (fn : Path) (psp om sm : Nat) :
    (openCheck t fn psp om sm).2 = t ∨
      ∃ i f, freeSlot t = some i ∧ (openCheck t fn psp om sm).2 = t.setFile i f := by
  rcases openCheck_cases t fn psp om sm with ⟨-, h | ⟨i, f, hi, -, h⟩⟩ | ⟨i, _, _, hi, -, h⟩
  · exact .inl h
  · exact .inr ⟨i, f, hi, h⟩
  · exact .inr ⟨i, _, hi, by rw [h]⟩

theorem openCheck_lockTable (t : Tables) (fn : Path) (psp om sm : Nat) :
    (openCheck t fn psp om sm).2.lockTable = t.lockTable := by
  rcases openCheck_tables t fn psp om sm with h | ⟨i, f, -, h⟩ <;> rw [h]
  rfl

/-- **An open touches no slot that is in use.** -/
theorem openCheck_file_live (t : Tables) (fn : Path) (psp om sm : Nat)
    (hj : (t.file j).live) : (openCheck t fn psp om sm).2.file j = t.file j := by
  rcases openCheck_tables t fn psp om sm with h | ⟨i, f, hi, h⟩
  · rw [h]
  · have hne : i ≠ j := by
      rintro rfl
      exact hj (freeSlot_spec hi).2
    rw [h, setFile_file_ne hne]

/-! ## 8. Frames -/

/-- The slot and its locks are the same in both tables. -/
def SlotKept (t t' : Tables) (n : Nat) : Prop :=
  t'.file n = t.file n ∧
    ∀ (m : Nat) (l : Lock), t.lockTable[m]? = some l → l.fileno = n → t'.lockTable[m]? = some l

theorem SlotKept.refl (t : Tables) (n : Nat) : SlotKept t t n := ⟨rfl, fun _ _ h _ => h⟩

theorem SlotKept.trans {t1 t2 t3 : Tables} (h : SlotKept t1 t2 n)
    (h' : SlotKept t2 t3 n) : SlotKept t1 t3 n :=
  ⟨h'.1.trans h.1, fun m l hl hn => h'.2 m l (h.2 m l hl hn) hn⟩

theorem slotKept_openCheck (hn : (t.file n).live) (fn : Path)
    (psp om sm : Nat) : SlotKept t (openCheck t fn psp om sm).2 n :=
  ⟨openCheck_file_live t fn psp om sm hn,
    fun m l hl _ => by rw [openCheck_lockTable]; exact hl⟩

/-- `close_file` of another slot. -/
theorem slotKept_closeFile (h : i ≠ n) : SlotKept t (closeFile t i) n := by
  refine ⟨closeFile_file_ne h, fun m l hl hn => ?_⟩
  have hne : ¬ l.fileno = i := fun he => h (he.symm.trans hn)
  change ((removeAllLocks t i).lockTable)[m]? = _
  simp [removeAllLocks, hl, hne]

/-- `lock_unlock` stores to no file slot. -/
theorem lockUnlock_file (t : Tables) (psp fileno ofs len : Nat) (unlock : Bool) (n : Nat) :
    (lockUnlock t psp fileno ofs len unlock).2.file n = t.file n := by
  unfold lockUnlock
  split
  · rfl
  · split
    · split <;> simp
    · split
      · rfl
      · split <;> simp

end SdcBoot.Share
