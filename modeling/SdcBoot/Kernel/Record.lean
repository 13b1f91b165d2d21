/-
# Records through an FCB (`fcbfns.c`)

An FCB has the place in its file twice: `fcb_rndm`, a record number of 32 bits, and `fcb_cublock`
with `fcb_curec`, the block of 128 records and the record in it.  `FcbReadWrite` goes by the second;
`FcbRandomBlockIO` makes it from the first before and after the transfer.

`DosRWSft` returns a `long`, which is negative for an error.  `FcbReadWrite` takes its low word for
the number of bytes in any case, and rounds it up to records in 16 bits.
-/
import Mathlib.Algebra.Group.Nat.Defs
import Mathlib.Data.Nat.Basic
import Mathlib.Data.List.Basic

namespace SdcBoot.Kernel.Record

open List Nat

/-! ## 1. The FCB -/

/-- The fields of an FCB that are used for records. -/
structure Fcb where
  fcb_cublock : UInt16
  fcb_recsiz : UInt16
  fcb_fsize : UInt32
  fcb_curec : UInt8
  fcb_rndm : UInt32
  deriving DecidableEq

/-- `FCB_SUCCESS` and the errors. -/
inductive FcbCode where
  | success
  | noData
  | segmentWrap
  | eof
  deriving DecidableEq

/-- `XFR_WRITE`, else `XFR_READ`; and `XFR_FCB_RANDOM`. -/
structure Mode where
  write : Bool
  random : Bool
  deriving DecidableEq

/-- The file of an FCB: what `SftSeek` returns, negated, and `DosRWSft` at a position, with the bytes
it puts to the DTA; and `SftGetFsize` afterwards. -/
structure FileIo where
  seek : Nat → Int
  transfer : Nat → Nat → Int × List UInt8
  fsize : UInt32

namespace Fcb

def FcbNextRecord (f : Fcb) : Fcb :=
  if 128 ≤ f.fcb_curec + 1 then { f with fcb_curec := 0, fcb_cublock := f.fcb_cublock + 1 }
  else { f with fcb_curec := f.fcb_curec + 1 }

def FcbRec (f : Fcb) : Nat := f.fcb_cublock.toNat * 128 + f.fcb_curec.toNat

def FcbCalcRec (f : Fcb) : Fcb :=
  { f with fcb_cublock := (f.fcb_rndm / 128).toUInt16, fcb_curec := f.fcb_rndm.toUInt8 &&& 127 }

def lPosit (f : Fcb) : Nat := f.FcbRec * f.fcb_recsiz.toNat % 2 ^ 32

def bigsize (f : Fcb) (recno : UInt16) : Nat := f.fcb_recsiz.toNat * recno.toNat

/-- `((unsigned)nTransfer + recsiz - 1) / recsiz` -/
def records (f : Fcb) (u : Nat) : Nat := (u + f.fcb_recsiz.toNat - 1) % 65536 / f.fcb_recsiz.toNat

end Fcb

/-! ## 2. Reading and writing -/

/-- What `FcbReadWrite` leaves: the FCB, its result, the code for `CritErrCode` where it is set, and
the bytes that were put to the DTA, each time from an offset on. -/
structure Outcome where
  fcb : Fcb
  code : FcbCode
  CritErrCode : Option Int
  writes : List (Nat × List UInt8)
  deriving DecidableEq

/-- `(unsigned)nTransfer` -/
def low (nTransfer : Int) : Nat := (nTransfer % 65536).toNat

/-- The FCB when the transfer is done. -/
def Fcb.transferred (io : FileIo) (mode : Mode) (u : Nat) (f : Fcb) : Fcb :=
  let f := if mode.write then { f with fcb_fsize := io.fsize } else f
  if mode.random = true ∧ 0 < f.fcb_recsiz.toNat then
    { f with fcb_rndm := f.fcb_rndm + UInt32.ofNat (f.records u) }
  else f

/-- How `FcbReadWrite` returns, where `size` bytes are left; `none` is a division by zero. -/
def finish (mode : Mode) (u size : Nat) (f : Fcb) (crit : Option Int)
    (writes : List (Nat × List UInt8)) : Option Outcome :=
  if size = 0 then some ⟨f.FcbNextRecord, .success, crit, writes⟩
  else if f.fcb_recsiz = 0 then none
  else
    let size := size % f.fcb_recsiz.toNat
    if mode.write = false ∧ 0 < size then
      some ⟨f.FcbNextRecord, .eof, crit, writes ++ [(u, List.replicate size 0)]⟩
    else some ⟨f, .noData, crit, writes⟩

/-- **`FcbReadWrite`**; `dta` is the offset of the DTA in its segment. -/
def FcbReadWrite (io : FileIo) (dta recno : UInt16) (mode : Mode) (f : Fcb) : Option Outcome :=
  if 0xffff < f.bigsize recno then some ⟨f, .segmentWrap, none, []⟩
  else if (dta.toNat + f.bigsize recno) % 65536 < dta.toNat then some ⟨f, .segmentWrap, none, []⟩
  else if io.seek f.lPosit ≠ 0 then some ⟨f, .noData, some (io.seek f.lPosit), []⟩
  else
    let r := io.transfer f.lPosit (f.bigsize recno)
    finish mode (low r.1) ((f.bigsize recno + 65536 - low r.1) % 65536)
      (f.transferred io mode (low r.1)) (some (if r.1 < 0 then -r.1 else 0)) [(0, r.2)]

/-- **`FcbRandomBlockIO`**, and `*nRecords`. -/
def FcbRandomBlockIO (io : FileIo) (dta nRecords : UInt16) (mode : Mode) (f : Fcb) :
    Option (Outcome × UInt16) :=
  match FcbReadWrite io dta nRecords mode f.FcbCalcRec with
  | none => none
  | some o =>
    some ({ o with fcb := o.fcb.FcbCalcRec }, (o.fcb.fcb_rndm - f.FcbCalcRec.fcb_rndm).toUInt16)

/-! ## 3. The record number -/

theorem curec_toNat (f : Fcb) : f.FcbCalcRec.fcb_curec.toNat = f.fcb_rndm.toNat % 128 := by
  change f.fcb_rndm.toNat % 256 &&& (2 ^ 7 - 1) = _
  rw [and_two_pow_sub_one_eq_mod]
  omega

theorem cublock_toNat (f : Fcb) : f.FcbCalcRec.fcb_cublock.toNat = f.fcb_rndm.toNat / 128 % 65536 := by
  rfl

/-- Block and record hold 23 bits of the record number. -/
theorem FcbRec_FcbCalcRec (f : Fcb) : f.FcbCalcRec.FcbRec = f.fcb_rndm.toNat % 8388608 := by
  unfold Fcb.FcbRec
  rw [curec_toNat, cublock_toNat]
  omega

theorem low_of_nonneg {n : Int} (h : 0 ≤ n) (hn : n < 65536) : (low n : Int) = n := by
  unfold low
  omega

variable {f : Fcb}

/-- Rounding up to records is right as long as the sum stays in 16 bits. -/
theorem records_iff (hr : 0 < f.fcb_recsiz.toNat) {u : Nat} (hu : u < 65536) :
    f.records u = (u + f.fcb_recsiz.toNat - 1) / f.fcb_recsiz.toNat ↔
      u + f.fcb_recsiz.toNat ≤ 65536 := by
  have hlt := f.fcb_recsiz.toNat_lt
  unfold Fcb.records
  constructor
  · intro h
    by_contra hwrap
    have hmod : (u + f.fcb_recsiz.toNat - 1) % 65536 = u + f.fcb_recsiz.toNat - 1 - 65536 := by
      omega
    rw [hmod] at h
    have hless : (u + f.fcb_recsiz.toNat - 1 - 65536) / f.fcb_recsiz.toNat ≤
        (u + f.fcb_recsiz.toNat - 1 - f.fcb_recsiz.toNat) / f.fcb_recsiz.toNat :=
      Nat.div_le_div_right (by omega)
    have hone := div_eq_sub_div hr (show f.fcb_recsiz.toNat ≤ u + f.fcb_recsiz.toNat - 1 by omega)
    omega
  · intro h
    rw [mod_eq_of_lt (by omega)]

/-! ## 4. When the transfer fails -/

/-- `DosRWSft` transfers no more than it is asked to. -/
def FileIo.Bounded (io : FileIo) : Prop :=
  ∀ posit size, (io.transfer posit size).1 ≤ size ∧ (io.transfer posit size).2.length ≤ size

/-- Neither the segment nor `SftSeek` ends the call before the transfer. -/
def Reaches (io : FileIo) (dta recno : UInt16) (f : Fcb) : Prop :=
  f.bigsize recno ≤ 0xffff ∧ dta.toNat ≤ (dta.toNat + f.bigsize recno) % 65536 ∧
    io.seek f.lPosit = 0

instance (io : FileIo) (dta recno : UInt16) (f : Fcb) : Decidable (Reaches io dta recno f) :=
  inferInstanceAs (Decidable (_ ∧ _ ∧ _))

/-- An error whose low word does no harm: some bytes are left; a read leaves whole records; and it
is less than one record, where the random record counts. -/
structure Harmless (mode : Mode) (recno : UInt16) (f : Fcb) (u : Nat) : Prop where
  left : (f.bigsize recno + 65536 - u) % 65536 ≠ 0
  record : f.fcb_recsiz.toNat ≠ 0
  whole : mode.write = false →
    (f.bigsize recno + 65536 - u) % 65536 % f.fcb_recsiz.toNat = 0
  counted : mode.random = true → (u + f.fcb_recsiz.toNat - 1) % 65536 < f.fcb_recsiz.toNat

/-- What is asked of `FcbReadWrite`: no division by zero, no byte beyond the records, and after an
error the same place and no record. -/
def Safe (io : FileIo) (dta recno : UInt16) (mode : Mode) (f : Fcb) : Prop :=
  ∃ o, FcbReadWrite io dta recno mode f = some o ∧
    (∀ w ∈ o.writes, w.1 + w.2.length ≤ f.bigsize recno) ∧
    (Reaches io dta recno f → (io.transfer f.lPosit (f.bigsize recno)).1 < 0 →
      o.code = .noData ∧ o.fcb.fcb_rndm = f.fcb_rndm ∧ o.fcb.fcb_cublock = f.fcb_cublock ∧
        o.fcb.fcb_curec = f.fcb_curec)

/-- The same of `FcbRandomBlockIO`, whose place is the random record. -/
def SafeBlock (io : FileIo) (dta recno : UInt16) (mode : Mode) (f : Fcb) : Prop :=
  ∃ o nRecords, FcbRandomBlockIO io dta recno mode f = some (o, nRecords) ∧
    (∀ w ∈ o.writes, w.1 + w.2.length ≤ f.bigsize recno) ∧
    (Reaches io dta recno f.FcbCalcRec →
      (io.transfer f.FcbCalcRec.lPosit (f.bigsize recno)).1 < 0 →
      o.code = .noData ∧ nRecords = 0 ∧ o.fcb.fcb_rndm = f.fcb_rndm ∧
        o.fcb.fcb_cublock = f.FcbCalcRec.fcb_cublock ∧ o.fcb.fcb_curec = f.FcbCalcRec.fcb_curec)

/-- The transfer goes well, or fails without harm. -/
def Good (io : FileIo) (dta recno : UInt16) (mode : Mode) (f : Fcb) : Prop :=
  Reaches io dta recno f → (io.transfer f.lPosit (f.bigsize recno)).1 < 0 →
    Harmless mode recno f (low (io.transfer f.lPosit (f.bigsize recno)).1)

theorem FcbReadWrite_stops {io : FileIo} {dta recno : UInt16} (mode : Mode)
    (h : ¬ Reaches io dta recno f) : ∃ o, FcbReadWrite io dta recno mode f = some o ∧
      o.writes = [] ∧ o.fcb = f := by
  unfold FcbReadWrite
  split
  · exact ⟨_, rfl, rfl, rfl⟩
  split
  · exact ⟨_, rfl, rfl, rfl⟩
  split
  · exact ⟨_, rfl, rfl, rfl⟩
  next hsize hwrap hseek =>
    exact absurd ⟨by omega, by omega, not_not.mp hseek⟩ h

theorem FcbReadWrite_reaches {io : FileIo} {dta recno : UInt16} {mode : Mode}
    (h : Reaches io dta recno f) : FcbReadWrite io dta recno mode f =
      finish mode (low (io.transfer f.lPosit (f.bigsize recno)).1)
        ((f.bigsize recno + 65536 - low (io.transfer f.lPosit (f.bigsize recno)).1) % 65536)
        (f.transferred io mode (low (io.transfer f.lPosit (f.bigsize recno)).1))
        (some (if (io.transfer f.lPosit (f.bigsize recno)).1 < 0 then
          -(io.transfer f.lPosit (f.bigsize recno)).1 else 0))
        [(0, (io.transfer f.lPosit (f.bigsize recno)).2)] := by
  unfold FcbReadWrite
  rw [if_neg (not_lt.mpr h.1), if_neg (not_lt.mpr h.2.1), if_neg (not_not.mpr h.2.2)]

theorem transferred_fields (io : FileIo) (mode : Mode) (u : Nat) (f : Fcb) :
    (f.transferred io mode u).fcb_recsiz = f.fcb_recsiz ∧
      (f.transferred io mode u).fcb_cublock = f.fcb_cublock ∧
      (f.transferred io mode u).fcb_curec = f.fcb_curec ∧
      (f.transferred io mode u).fcb_rndm =
        if mode.random = true ∧ 0 < f.fcb_recsiz.toNat then
          f.fcb_rndm + UInt32.ofNat (f.records u) else f.fcb_rndm := by
  unfold Fcb.transferred
  by_cases hmode : mode.random = true ∧ 0 < f.fcb_recsiz.toNat
  · have hsame : ∀ g : Fcb, g.fcb_recsiz = f.fcb_recsiz →
        mode.random = true ∧ 0 < g.fcb_recsiz.toNat := fun g hg => hg ▸ hmode
    rw [if_pos (hsame _ (by cases mode.write <;> rfl)), if_pos hmode]
    cases mode.write <;> exact ⟨rfl, rfl, rfl, rfl⟩
  · have hsame : ∀ g : Fcb, g.fcb_recsiz = f.fcb_recsiz →
        ¬ (mode.random = true ∧ 0 < g.fcb_recsiz.toNat) := fun g hg => hg ▸ hmode
    rw [if_neg (hsame _ (by cases mode.write <;> rfl)), if_neg hmode]
    cases mode.write <;> exact ⟨rfl, rfl, rfl, rfl⟩

theorem records_lt (f : Fcb) (u : Nat) : f.records u < 65536 :=
  lt_of_le_of_lt (Nat.div_le_self _ _) (mod_lt _ (by decide))

/-- The random record stays exactly where less than one record is added. -/
theorem rndm_iff (f : Fcb) (mode : Mode) (u : Nat) (io : FileIo) (hr : 0 < f.fcb_recsiz.toNat) :
    (f.transferred io mode u).fcb_rndm = f.fcb_rndm ↔
      (mode.random = true → (u + f.fcb_recsiz.toNat - 1) % 65536 < f.fcb_recsiz.toNat) := by
  rw [(transferred_fields io mode u f).2.2.2]
  have hsmall := records_lt f u
  by_cases hrandom : mode.random = true
  · rw [if_pos ⟨hrandom, hr⟩]
    have hzero : f.records u = 0 ↔ (u + f.fcb_recsiz.toNat - 1) % 65536 < f.fcb_recsiz.toNat :=
      div_eq_zero_iff_lt hr
    constructor
    · intro h _
      apply hzero.mp
      have hnat := congrArg UInt32.toNat h
      rw [UInt32.toNat_add, UInt32.toNat_ofNat_of_lt' (show f.records u < 2 ^ 32 by omega)] at hnat
      omega
    · intro h
      rw [hzero.mpr (h hrandom)]
      exact UInt32.add_zero _
  · rw [if_neg fun h => hrandom h.1]
    exact iff_of_true rfl fun h => absurd h hrandom

theorem finish_noData_iff {mode : Mode} {u size : Nat} {crit : Option Int}
    {writes : List (Nat × List UInt8)} {P : Outcome → Prop} :
    (∃ o, finish mode u size f crit writes = some o ∧ o.code = .noData ∧ P o) ↔
      (size ≠ 0 ∧ f.fcb_recsiz.toNat ≠ 0 ∧
        (mode.write = false → size % f.fcb_recsiz.toNat = 0)) ∧ P ⟨f, .noData, crit, writes⟩ := by
  have hrec : f.fcb_recsiz = 0 ↔ f.fcb_recsiz.toNat = 0 := UInt16.toNat_inj.symm
  unfold finish
  by_cases hzero : size = 0
  · rw [if_pos hzero]
    refine iff_of_false ?_ fun h => h.1.1 hzero
    rintro ⟨o, ho, hcode, -⟩
    cases ho
    cases hcode
  · rw [if_neg hzero]
    by_cases hr : f.fcb_recsiz = 0
    · rw [if_pos hr]
      refine iff_of_false ?_ fun h => h.1.2.1 (hrec.mp hr)
      rintro ⟨o, ho, -⟩
      cases ho
    · rw [if_neg hr]
      by_cases hpart : mode.write = false ∧ 0 < size % f.fcb_recsiz.toNat
      · rw [if_pos hpart]
        refine iff_of_false ?_ fun h => absurd (h.1.2.2 hpart.1) (by omega)
        rintro ⟨o, ho, hcode, -⟩
        cases ho
        cases hcode
      · rw [if_neg hpart]
        constructor
        · rintro ⟨o, ho, -, hP⟩
          cases ho
          refine ⟨⟨hzero, fun h => hr (hrec.mpr h), fun hw => ?_⟩, hP⟩
          by_contra hne
          exact hpart ⟨hw, Nat.pos_of_ne_zero hne⟩
        · rintro ⟨-, hP⟩
          exact ⟨_, rfl, rfl, hP⟩

variable {io : FileIo} {dta recno : UInt16} {mode : Mode} {f : Fcb}

/-- A transfer that goes well writes inside the records, and divides by no zero. -/
theorem transfer_safe (mode : Mode) (hio : io.Bounded) (h : Reaches io dta recno f)
    (hok : 0 ≤ (io.transfer f.lPosit (f.bigsize recno)).1) :
    ∃ o, FcbReadWrite io dta recno mode f = some o ∧
      ∀ w ∈ o.writes, w.1 + w.2.length ≤ f.bigsize recno := by
  obtain ⟨hle, hbytes⟩ := hio f.lPosit (f.bigsize recno)
  rw [FcbReadWrite_reaches h]
  generalize io.transfer f.lPosit (f.bigsize recno) = r at hok hle hbytes ⊢
  obtain ⟨hrec, -, -, -⟩ := transferred_fields io mode (low r.1) f
  have hsize := h.1
  have hlow := low_of_nonneg hok (by omega)
  have hfirst : ∀ w ∈ [(0, r.2)], w.1 + w.2.length ≤ f.bigsize recno := by
    intro w hw
    rw [mem_singleton.mp hw]
    change 0 + r.2.length ≤ _
    omega
  have hleft : (f.bigsize recno + 65536 - low r.1) % 65536 = f.bigsize recno - low r.1 := by omega
  rw [hleft]
  generalize f.transferred io mode (low r.1) = g at hrec ⊢
  unfold finish
  split
  · exact ⟨_, rfl, hfirst⟩
  next hzero =>
    split
    next hr =>
      -- without a record size there is nothing to be left
      rw [hrec] at hr
      refine absurd ?_ hzero
      change f.fcb_recsiz.toNat * recno.toNat - _ = 0
      rw [hr]
      simp
    next hr =>
      dsimp only
      split
      · refine ⟨_, rfl, fun w hw => ?_⟩
        rcases mem_append.mp hw with hw | hw
        · exact hfirst w hw
        · rw [mem_singleton.mp hw]
          rw [length_replicate]
          have := mod_le (f.bigsize recno - low r.1) g.fcb_recsiz.toNat
          omega
      · exact ⟨_, rfl, hfirst⟩

/-- An error is without harm exactly if `FcbReadWrite` says that there is no data, and leaves the
random record. -/
theorem error_iff (mode : Mode) (hio : io.Bounded) (h : Reaches io dta recno f) {P : Outcome → Prop}
    (hP : ∀ g crit bytes, g.fcb_cublock = f.fcb_cublock → g.fcb_curec = f.fcb_curec →
      bytes.length ≤ f.bigsize recno →
      (P ⟨g, .noData, crit, [(0, bytes)]⟩ ↔ g.fcb_rndm = f.fcb_rndm)) :
    (∃ o, FcbReadWrite io dta recno mode f = some o ∧ o.code = .noData ∧ P o) ↔
      Harmless mode recno f (low (io.transfer f.lPosit (f.bigsize recno)).1) := by
  obtain ⟨-, hbytes⟩ := hio f.lPosit (f.bigsize recno)
  rw [FcbReadWrite_reaches h, finish_noData_iff]
  generalize io.transfer f.lPosit (f.bigsize recno) = r at hbytes ⊢
  obtain ⟨hrec, hblock, hcur, -⟩ := transferred_fields io mode (low r.1) f
  rw [hP _ _ _ hblock hcur hbytes, hrec]
  constructor
  · rintro ⟨⟨hleft, hr, hwhole⟩, hsame⟩
    exact ⟨hleft, hr, hwhole, (rndm_iff f mode _ io (Nat.pos_of_ne_zero hr)).mp hsame⟩
  · rintro ⟨hleft, hr, hwhole, hcounted⟩
    exact ⟨⟨hleft, hr, hwhole⟩, (rndm_iff f mode _ io (Nat.pos_of_ne_zero hr)).mpr hcounted⟩

theorem one_write {bytes : List UInt8} {n : Nat} (h : bytes.length ≤ n) :
    ∀ w ∈ [(0, bytes)], w.1 + w.2.length ≤ n := by
  intro w hw
  rw [mem_singleton.mp hw]
  change 0 + bytes.length ≤ n
  omega

/-- **`FcbReadWrite`** is safe exactly if a transfer that fails does so without harm. -/
theorem safe_iff (hio : io.Bounded) : Safe io dta recno mode f ↔ Good io dta recno mode f := by
  by_cases h : Reaches io dta recno f
  · by_cases hok : 0 ≤ (io.transfer f.lPosit (f.bigsize recno)).1
    · obtain ⟨o, ho, hinside⟩ := transfer_safe mode hio h hok
      exact iff_of_true ⟨o, ho, hinside, fun _ hneg => absurd hok (by omega)⟩
        fun _ hneg => absurd hok (by omega)
    · have hiff := error_iff mode hio h (P := fun o =>
        (∀ w ∈ o.writes, w.1 + w.2.length ≤ f.bigsize recno) ∧ o.fcb.fcb_rndm = f.fcb_rndm ∧
          o.fcb.fcb_cublock = f.fcb_cublock ∧ o.fcb.fcb_curec = f.fcb_curec)
        (fun g crit bytes hblock hcur hbytes =>
          ⟨fun hP => hP.2.1, fun hsame => ⟨one_write hbytes, hsame, hblock, hcur⟩⟩)
      constructor
      · rintro ⟨o, ho, hinside, herr⟩ _ _
        obtain ⟨hcode, hrest⟩ := herr h (by omega)
        exact hiff.mp ⟨o, ho, hcode, hinside, hrest⟩
      · intro hgood
        obtain ⟨o, ho, hcode, hinside, hrest⟩ := hiff.mpr (hgood h (by omega))
        exact ⟨o, ho, hinside, fun _ _ => ⟨hcode, hrest⟩⟩
  · obtain ⟨o, ho, hwrites, hfcb⟩ := FcbReadWrite_stops mode h
    refine iff_of_true ⟨o, ho, ?_, fun hr => absurd hr h⟩ fun hr => absurd hr h
    rw [hwrites]
    exact nofun

theorem FcbRandomBlockIO_some {o : Outcome} (h : FcbReadWrite io dta recno mode f.FcbCalcRec = some o) :
    FcbRandomBlockIO io dta recno mode f = some ({ o with fcb := o.fcb.FcbCalcRec },
      (o.fcb.fcb_rndm - f.FcbCalcRec.fcb_rndm).toUInt16) := by
  unfold FcbRandomBlockIO
  rw [h]

/-- **`FcbRandomBlockIO`** is safe when `FcbReadWrite` is, from the record it makes. -/
theorem safeBlock_iff (hio : io.Bounded) :
    SafeBlock io dta recno mode f ↔ Good io dta recno mode f.FcbCalcRec := by
  by_cases h : Reaches io dta recno f.FcbCalcRec
  · by_cases hok : 0 ≤ (io.transfer f.FcbCalcRec.lPosit (f.bigsize recno)).1
    · obtain ⟨o, ho, hinside⟩ := transfer_safe mode hio h hok
      refine iff_of_true ⟨_, _, FcbRandomBlockIO_some ho, hinside,
        fun _ hneg => absurd hok (by omega)⟩ fun _ hneg => absurd hok (by exact Int.not_le.mpr hneg)
    · have hiff := error_iff mode hio h (P := fun o =>
        (∀ w ∈ o.writes, w.1 + w.2.length ≤ f.bigsize recno) ∧
          (o.fcb.fcb_rndm - f.FcbCalcRec.fcb_rndm).toUInt16 = 0 ∧
          o.fcb.FcbCalcRec.fcb_rndm = f.fcb_rndm ∧
          o.fcb.FcbCalcRec.fcb_cublock = f.FcbCalcRec.fcb_cublock ∧
          o.fcb.FcbCalcRec.fcb_curec = f.FcbCalcRec.fcb_curec)
        (fun g crit bytes _ _ hbytes => by
          refine ⟨fun hP => hP.2.2.1, fun hsame => ⟨one_write hbytes, ?_, hsame, ?_, ?_⟩⟩
          · rw [hsame, UInt32.sub_self]
            rfl
          · change (g.fcb_rndm / 128).toUInt16 = _
            rw [hsame]
            rfl
          · change g.fcb_rndm.toUInt8 &&& 127 = _
            rw [hsame]
            rfl)
      constructor
      · rintro ⟨o, nRecords, ho, hinside, herr⟩ _ _
        obtain ⟨hcode, hzero, hrest⟩ := herr h (by omega)
        unfold FcbRandomBlockIO at ho
        cases hrw : FcbReadWrite io dta recno mode f.FcbCalcRec with
        | none =>
          rw [hrw] at ho
          cases ho
        | some o1 =>
          rw [hrw] at ho
          cases ho
          exact hiff.mp ⟨o1, hrw, hcode, hinside, hzero, hrest⟩
      · intro hgood
        obtain ⟨o, ho, hcode, hinside, hzero, hrest⟩ := hiff.mpr (hgood h (Int.not_le.mp hok))
        exact ⟨_, _, FcbRandomBlockIO_some ho, hinside, fun _ _ => ⟨hcode, hzero, hrest⟩⟩
  · obtain ⟨o, ho, hwrites, hfcb⟩ := FcbReadWrite_stops mode h
    refine iff_of_true ⟨_, _, FcbRandomBlockIO_some ho, ?_, fun hr => absurd hr h⟩
      fun hr => absurd hr h
    rw [hwrites]
    exact nofun

/-- **Record I/O when the transfer fails**: both are safe exactly if the low word of the error does
no harm. -/
theorem record_safe_iff (io : FileIo) (dta recno : UInt16) (mode : Mode) (f : Fcb)
    (hio : io.Bounded) :
    (Safe io dta recno mode f ↔ Good io dta recno mode f) ∧
      (SafeBlock io dta recno mode f ↔ Good io dta recno mode f.FcbCalcRec) :=
  ⟨safe_iff hio, safeBlock_iff hio⟩

/-- Writing with `DE_ACCESS`, one record of 128 bytes. -/
theorem record_safe_write :
    Safe ⟨fun _ => 0, fun _ _ => (-5, []), 0⟩ 0x80 1 ⟨true, false⟩ ⟨0, 128, 0, 0, 0⟩ :=
  (record_safe_iff ⟨fun _ => 0, fun _ _ => (-5, []), 0⟩ 0x80 1 ⟨true, false⟩ ⟨0, 128, 0, 0, 0⟩
    fun _ size => ⟨Int.le_trans (show (-5 : Int) ≤ 0 by decide) (Int.natCast_nonneg size),
      zero_le _⟩).1.mpr fun _ _ =>
      ⟨by decide, by decide, nofun, nofun⟩

/-- Reading with `DE_ACCESS`: a record size of 0 divides by zero, and one of 128 goes on to the next
record, with zeros far behind the DTA. -/
theorem record_not_safe :
    FcbReadWrite ⟨fun _ => 0, fun _ _ => (-5, []), 0⟩ 0x80 1 ⟨false, false⟩ ⟨0, 0, 0, 0, 0⟩ = none ∧
      FcbReadWrite ⟨fun _ => 0, fun _ _ => (-5, []), 0⟩ 0x80 1 ⟨false, false⟩ ⟨0, 128, 0, 0, 0⟩ =
        some ⟨⟨0, 128, 0, 1, 0⟩, .eof, some 5, [(0, []), (65531, List.replicate 5 0)]⟩ ∧
      ¬ Safe ⟨fun _ => 0, fun _ _ => (-5, []), 0⟩ 0x80 1 ⟨false, false⟩ ⟨0, 128, 0, 0, 0⟩ := by
  have heof : FcbReadWrite ⟨fun _ => 0, fun _ _ => (-5, []), 0⟩ 0x80 1 ⟨false, false⟩
      ⟨0, 128, 0, 0, 0⟩ =
      some ⟨⟨0, 128, 0, 1, 0⟩, .eof, some 5, [(0, []), (65531, List.replicate 5 0)]⟩ := by decide
  refine ⟨by decide, heof, ?_⟩
  rintro ⟨o, ho, hinside, -⟩
  rw [heof] at ho
  cases ho
  exact nomatch hinside (65531, List.replicate 5 0) (by decide)

/-! ## 5. Blocks of records -/

/-- The file has these bytes, and there are no errors: a read takes what is there. -/
structure FileIo.Holds (io : FileIo) (file : List UInt8) : Prop where
  seek : ∀ posit, io.seek posit = 0
  transfer : ∀ posit size, io.transfer posit size =
    (Int.ofNat ((file.drop posit).take size).length, (file.drop posit).take size)

/-- The bytes of a block of records. -/
def blockOf (file : List UInt8) (f : Fcb) (k : UInt16) : List UInt8 :=
  (file.drop (f.fcb_rndm.toNat * f.fcb_recsiz.toNat)).take (f.bigsize k)

/-- Whole records, and a partial one. -/
def ceilRecords (f : Fcb) (bytes : Nat) : Nat :=
  (bytes + f.fcb_recsiz.toNat - 1) / f.fcb_recsiz.toNat

/-- What `FcbRandomBlockIO` is for: the bytes of the records come to the DTA, they are counted, both
places are behind them, and there the next transfer begins. -/
def Addresses (io : FileIo) (file : List UInt8) (dta k : UInt16) (f : Fcb) : Prop :=
  ∃ o nRecords, FcbRandomBlockIO io dta k ⟨false, true⟩ f = some (o, nRecords) ∧
    o.writes.head? = some (0, blockOf file f k) ∧
    nRecords.toNat = ceilRecords f (blockOf file f k).length ∧
    o.fcb.fcb_rndm.toNat = f.fcb_rndm.toNat + nRecords.toNat ∧
    o.fcb.fcb_cublock.toNat * 128 + o.fcb.fcb_curec.toNat = o.fcb.fcb_rndm.toNat ∧
    o.fcb.FcbCalcRec.lPosit = (f.fcb_rndm.toNat + nRecords.toNat) * f.fcb_recsiz.toNat

/-- A read without errors comes to its end; the FCB is where `records` of the bytes leads. -/
theorem FcbReadWrite_read {file : List UInt8} (hio : io.Holds file) (hr : 0 < f.fcb_recsiz.toNat)
    (hseg : f.bigsize recno ≤ 65535) (hdta : dta.toNat + f.bigsize recno < 65536) :
    ∃ o, FcbReadWrite io dta recno ⟨false, true⟩ f = some o ∧
      o.writes.head? = some (0, (file.drop f.lPosit).take (f.bigsize recno)) ∧
      o.fcb.fcb_recsiz = f.fcb_recsiz ∧
      o.fcb.fcb_rndm = f.fcb_rndm +
        UInt32.ofNat (f.records ((file.drop f.lPosit).take (f.bigsize recno)).length) := by
  have hreach : Reaches io dta recno f :=
    ⟨hseg, by rw [mod_eq_of_lt hdta]; exact Nat.le_add_right _ _, hio.seek _⟩
  rw [FcbReadWrite_reaches hreach, hio.transfer]
  have hlen : ((file.drop f.lPosit).take (f.bigsize recno)).length ≤ f.bigsize recno :=
    length_take_le _ _
  generalize (file.drop f.lPosit).take (f.bigsize recno) = bytes at hlen ⊢
  have hlow : low (Int.ofNat bytes.length) = bytes.length :=
    Int.ofNat.inj (low_of_nonneg (Int.natCast_nonneg bytes.length)
      (show (bytes.length : Int) < 65536 by omega))
  rw [hlow]
  obtain ⟨hrec, -, -, hrndm⟩ := transferred_fields io ⟨false, true⟩ bytes.length f
  rw [if_pos ⟨rfl, hr⟩] at hrndm
  generalize f.transferred io ⟨false, true⟩ bytes.length = g at hrec hrndm ⊢
  have hnext : g.FcbNextRecord.fcb_recsiz = g.fcb_recsiz ∧ g.FcbNextRecord.fcb_rndm = g.fcb_rndm := by
    unfold Fcb.FcbNextRecord
    split <;> exact ⟨rfl, rfl⟩
  have hne : g.fcb_recsiz ≠ 0 := by
    intro h
    rw [hrec] at h
    rw [h] at hr
    cases hr
  unfold finish
  split
  · exact ⟨_, rfl, rfl, hnext.1.trans hrec, hnext.2.trans hrndm⟩
  · dsimp only
    split
    · exact ⟨_, rfl, rfl, hnext.1.trans hrec, hnext.2.trans hrndm⟩
    · exact ⟨_, rfl, rfl, hrec, hrndm⟩

theorem records_le (f : Fcb) (u : Nat) : f.records u ≤ ceilRecords f u :=
  Nat.div_le_div_right (mod_le _ _)

/-- A block has no more records than were asked for. -/
theorem ceilRecords_le {k : UInt16} (hr : 0 < f.fcb_recsiz.toNat) {bytes : Nat}
    (h : bytes ≤ f.bigsize k) : ceilRecords f bytes ≤ k.toNat := by
  unfold ceilRecords
  apply le_of_lt_succ
  rw [Nat.div_lt_iff_lt_mul hr, succ_mul, mul_comm k.toNat]
  unfold Fcb.bigsize at h
  omega

/-- **Random block reads address the records they report exactly if** the records behind the block
have numbers below 2^23, and the bytes read together with one record fit into 64K. -/
theorem random_block_iff (io : FileIo) (file : List UInt8) (dta k : UInt16) (f : Fcb)
    (hio : io.Holds file) (hr : 1 ≤ f.fcb_recsiz.toNat)
    (hrange : (f.fcb_rndm.toNat + k.toNat) * f.fcb_recsiz.toNat < 2 ^ 32)
    (hseg : k.toNat * f.fcb_recsiz.toNat ≤ 65535)
    (hdta : dta.toNat + k.toNat * f.fcb_recsiz.toNat < 65536) :
    Addresses io file dta k f ↔
      f.fcb_rndm.toNat + ceilRecords f (blockOf file f k).length < 8388608 ∧
        (blockOf file f k).length + f.fcb_recsiz.toNat ≤ 65536 := by
  have hbig : f.bigsize k = k.toNat * f.fcb_recsiz.toNat := mul_comm _ _
  have hnum : f.fcb_rndm.toNat + k.toNat < 2 ^ 32 :=
    lt_of_le_of_lt (Nat.le_mul_of_pos_right _ hr) hrange
  obtain ⟨o, ho, hhead, hrec, hrndm⟩ := @FcbReadWrite_read io dta k f.FcbCalcRec file hio hr
    (hbig ▸ hseg) (by rw [show f.FcbCalcRec.bigsize k = f.bigsize k from rfl, hbig]; exact hdta)
  rw [show f.FcbCalcRec.bigsize k = f.bigsize k from rfl] at hhead hrndm
  have hposit : f.fcb_rndm.toNat < 8388608 → f.FcbCalcRec.lPosit =
      f.fcb_rndm.toNat * f.fcb_recsiz.toNat := by
    intro hlt
    unfold Fcb.lPosit
    rw [FcbRec_FcbCalcRec, Nat.mod_eq_of_lt hlt]
    exact Nat.mod_eq_of_lt (lt_of_le_of_lt
      (Nat.mul_le_mul_right _ (Nat.le_add_right _ k.toNat)) hrange)
  generalize hbytes : (file.drop f.FcbCalcRec.lPosit).take (f.bigsize k) = bytes at hhead hrndm
  have hlen : bytes.length ≤ f.bigsize k := hbytes ▸ List.length_take_le _ _
  -- the records that `FcbReadWrite` adds
  have hinc : f.FcbCalcRec.records bytes.length ≤ k.toNat :=
    le_trans (records_le f bytes.length) (ceilRecords_le hr hlen)
  have hsmall := records_lt f.FcbCalcRec bytes.length
  have hnat : o.fcb.fcb_rndm.toNat = f.fcb_rndm.toNat + f.FcbCalcRec.records bytes.length := by
    rw [hrndm, UInt32.toNat_add, UInt32.toNat_ofNat_of_lt' (lt_trans hsmall (by decide))]
    exact Nat.mod_eq_of_lt (lt_of_le_of_lt (Nat.add_le_add_left hinc _) hnum)
  have hcount : (o.fcb.fcb_rndm - f.FcbCalcRec.fcb_rndm).toUInt16.toNat =
      f.FcbCalcRec.records bytes.length := by
    have hle : f.FcbCalcRec.fcb_rndm ≤ o.fcb.fcb_rndm := by
      rw [UInt32.le_iff_toNat_le, hnat]
      exact Nat.le_add_right _ _
    rw [UInt32.toNat_toUInt16, UInt32.toNat_sub_of_le _ _ hle, hnat,
      show f.FcbCalcRec.fcb_rndm.toNat = f.fcb_rndm.toNat from rfl, Nat.add_sub_cancel_left]
    exact Nat.mod_eq_of_lt hsmall
  have hround := records_iff (f := f) hr (lt_of_le_of_lt hlen (by omega : f.bigsize k < 65536))
  have hplace : o.fcb.FcbCalcRec.fcb_cublock.toNat * 128 + o.fcb.FcbCalcRec.fcb_curec.toNat =
      o.fcb.fcb_rndm.toNat % 8388608 := FcbRec_FcbCalcRec o.fcb
  have hsome := FcbRandomBlockIO_some ho
  constructor
  · rintro ⟨o', nRecords, ho', -, hn, hr', hplace', -⟩
    rw [hsome] at ho'
    cases ho'
    have hplace' : o.fcb.fcb_rndm.toNat % 8388608 = o.fcb.fcb_rndm.toNat := hplace ▸ hplace'
    have hlow : f.fcb_rndm.toNat < 8388608 := by omega
    have hsame : blockOf file f k = bytes := by
      rw [← hbytes, hposit hlow]
      rfl
    rw [hsame] at hn ⊢
    rw [hcount] at hn
    refine ⟨?_, hround.mp hn⟩
    rw [← hn]
    omega
  · rintro ⟨hlt, hfit⟩
    have hsame : blockOf file f k = bytes := by
      rw [← hbytes, hposit (by omega)]
      rfl
    rw [hsame] at hlt hfit
    have hexact : f.FcbCalcRec.records bytes.length = ceilRecords f bytes.length := hround.mpr hfit
    refine ⟨_, _, hsome, by rw [hsame]; exact hhead, by rw [hcount, hexact, hsame], ?_, ?_, ?_⟩
    · rw [hcount]
      exact hnat
    · change o.fcb.FcbCalcRec.fcb_cublock.toNat * 128 + o.fcb.FcbCalcRec.fcb_curec.toNat =
        o.fcb.fcb_rndm.toNat
      rw [hplace]
      omega
    · rw [hcount, ← hnat]
      change o.fcb.FcbCalcRec.FcbCalcRec.FcbRec * o.fcb.fcb_recsiz.toNat % 2 ^ 32 = _
      rw [FcbRec_FcbCalcRec, hrec]
      change o.fcb.fcb_rndm.toNat % 8388608 * f.fcb_recsiz.toNat % 2 ^ 32 = _
      rw [Nat.mod_eq_of_lt (show o.fcb.fcb_rndm.toNat < 8388608 by omega)]
      refine Nat.mod_eq_of_lt (lt_of_le_of_lt (Nat.mul_le_mul_right _ ?_) hrange)
      omega

/-- Two records of two bytes from record 1 on, in a file of five bytes. -/
theorem random_block_two :
    Addresses ⟨fun _ => 0, fun posit size => (Int.ofNat (([1, 2, 3, 4, 5].drop posit).take size).length,
      ([1, 2, 3, 4, 5].drop posit).take size), 5⟩ [1, 2, 3, 4, 5] 0x80 2 ⟨0, 2, 5, 0, 1⟩ :=
  (random_block_iff ⟨fun _ => 0, fun posit size =>
      (Int.ofNat (([1, 2, 3, 4, 5].drop posit).take size).length,
      ([1, 2, 3, 4, 5].drop posit).take size), 5⟩ [1, 2, 3, 4, 5] 0x80 2 ⟨0, 2, 5, 0, 1⟩
    ⟨fun _ => rfl, fun _ _ => rfl⟩ (by decide) (by decide) (by decide) (by decide)).mpr
    ⟨by decide, by decide⟩

/-- From record 2^23 on, the block number goes round, and the read begins at the start of the file. -/
theorem random_block_goes_round :
    ¬ Addresses ⟨fun _ => 0, fun posit size => (Int.ofNat (([7].drop posit).take size).length,
      ([7].drop posit).take size), 1⟩ [7] 0x80 1 ⟨0, 1, 1, 0, 8388608⟩ := by
  rintro ⟨o, nRecords, ho, -, -, -, hplace, -⟩
  have heq : FcbRandomBlockIO ⟨fun _ => 0, fun posit size =>
      (Int.ofNat (([7].drop posit).take size).length, ([7].drop posit).take size), 1⟩ 0x80 1
      ⟨false, true⟩ ⟨0, 1, 1, 0, 8388608⟩ =
      some (⟨⟨0, 1, 1, 1, 8388609⟩, .success, some 0, [(0, [7])]⟩, 1) := by decide
  rw [heq] at ho
  cases ho
  cases hplace

end SdcBoot.Kernel.Record
