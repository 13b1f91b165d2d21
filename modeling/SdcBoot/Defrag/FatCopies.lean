/-
# The copies of the FAT

The defragmenter changes labels in the first FAT only (`WriteFatLabel`) and notes in a bit field
which sectors it changed.  `SynchronizeFATs` then copies the sectors that are marked to the other
FATs, and `BackupFat` all of them; of the last sector of a FAT only the part with labels in it.

Model of `engine/low/fat.c` (the write), `low/backup.c` and `dtstrct/bitfield.c`.  A transfer, or an
allocation, may fail at any time: a failed write of a buffer has written some of its sectors, a
failed copy leaves anything in its sector.  The bits that are read or set are recorded with the size
of the field, for the field is allocated with a bit for each sector of a FAT while its index is the
number of the sector on the volume.
-/
import SdcBoot.Lib.Run
import Mathlib.Logic.Function.Basic

namespace SdcBoot.Defrag

open Lib

/-! ## 1. The volume -/

/-- The bytes of a sector, of which the first 512 count. -/
abbrev Sector : Type := Nat → UInt8

def BYTESPERSECTOR : Nat := 512
def SECTORSPERREADBUF : Nat := 3

/-- What `GetFatLabelSize` answers. -/
inductive LabelSize where
  | fat12
  | fat16
  | fat32
  deriving DecidableEq

def LabelSize.bits : LabelSize → Nat
  | .fat12 => 12
  | .fat16 => 16
  | .fat32 => 32

structure Volume where
  fatStart : Nat
  numberOfFats : Nat
  sectorsPerFat : Nat
  labelSize : LabelSize
  labelsInFat : Nat
  deriving DecidableEq

/-- `GetBytesInFat`, with its product of unsigned longs. -/
def getBytesInFat (v : Volume) : Nat :=
  let bytes := v.labelSize.bits * v.labelsInFat % 0x100000000 / 8
  if v.labelSize = .fat12 ∧ v.labelsInFat % 2 = 1 then bytes + 1 else bytes

/-- The bytes the labels take. -/
def Volume.fatBytes (v : Volume) : Nat := (v.labelSize.bits * v.labelsInFat + 7) / 8

/-- A volume: a FAT has room for its labels. -/
structure Volume.Valid (v : Volume) : Prop where
  start : 1 ≤ v.fatStart
  fats : 1 ≤ v.numberOfFats
  sectors : 1 ≤ v.sectorsPerFat
  room : v.fatBytes ≤ 512 * v.sectorsPerFat

/-- The sector `k` of FAT `i`. -/
def Volume.sectorOf (v : Volume) (i k : Nat) : Nat := v.fatStart + i * v.sectorsPerFat + k

/-- A sector of one of the FATs. -/
def Volume.InFats (v : Volume) (b : Nat) : Prop :=
  v.fatStart ≤ b ∧ b < v.fatStart + v.numberOfFats * v.sectorsPerFat

/-- Byte `o` of FAT `i`. -/
def fatByte (v : Volume) (disk : Nat → Sector) (i o : Nat) : UInt8 :=
  disk (v.sectorOf i (o / 512)) (o % 512)

/-- The word at byte `o` of FAT `i`. -/
def fatWord (v : Volume) (disk : Nat → Sector) (i o : Nat) : Nat :=
  (fatByte v disk i o).toNat + 256 * (fatByte v disk i (o + 1)).toNat

/-- **The value of label `n` in FAT `i`.** -/
def labelAt (v : Volume) (disk : Nat → Sector) (i n : Nat) : Nat :=
  match v.labelSize with
  | .fat12 =>
    if n % 2 = 0 then (fatByte v disk i (3 * n / 2)).toNat +
      256 * ((fatByte v disk i (3 * n / 2 + 1)).toNat % 16)
    else fatWord v disk i (3 * n / 2) / 16
  | .fat16 => fatWord v disk i (2 * n)
  | .fat32 => fatWord v disk i (4 * n) + 0x10000 * fatWord v disk i (4 * n + 2)

/-- **All copies hold the same labels.** -/
def SameLabels (v : Volume) (disk : Nat → Sector) : Prop :=
  ∀ i < v.numberOfFats, ∀ n < v.labelsInFat, labelAt v disk i n = labelAt v disk 0 n

/-- All copies are the same byte for byte, as far as labels go. -/
def CopiesAgree (v : Volume) (disk : Nat → Sector) : Prop :=
  ∀ i < v.numberOfFats, ∀ o < v.fatBytes, fatByte v disk i o = fatByte v disk 0 o

/-! ## 2. The bit field -/

structure BitField where
  len : Nat
  bit : Nat → Bool

/-- `CreateBitField`: `len` bytes of 0; what lies behind them is whatever the memory holds. -/
def createBitField (size : Nat) (memory : Nat → Bool) : BitField :=
  let len := size / 8 + if size % 8 > 0 then 1 else 0
  ⟨len, fun i => if i / 8 < len then false else memory i⟩

/-- `SetBitfieldBit`, for each of the bits. -/
def BitField.setBits (f : BitField) (bits : List Nat) : BitField :=
  { f with bit := fun i => f.bit i || bits.contains i }

/-- A bit that was read or set, and the bytes of its field. -/
structure Use where
  bit : Nat
  len : Nat
  deriving DecidableEq

/-- The bit lies in the field that was allocated. -/
def Use.Inside (u : Use) : Prop := u.bit / 8 < u.len

/-- What the defragmenter keeps of a volume. -/
structure Handle where
  disk : Nat → Sector
  fatLabelsChanged : Bool
  fatChangeField : Option BitField

def sectorsPerBit (v : Volume) : Nat := v.sectorsPerFat / 0x10000 + 1

/-! ## 3. `WriteFatLabel` -/

def FAT12_BAD_LABEL : Nat := 0xff7
def FAT16_BAD_LABEL : Nat := 0xfff7
def FAT_BAD_LABEL : Nat := 0x0ffffff7
def FAT_LAST_LABEL : Nat := 0x0fffffff

def fatBad (label : Nat) : Bool := label % 0x10000000 == FAT_BAD_LABEL
def fatLast (label : Nat) : Bool := label % 0x10000000 == FAT_LAST_LABEL

/-- `memcpy` of a word into the buffer. -/
def putWord (buffer : Nat → UInt8) (o w : Nat) : Nat → UInt8 :=
  Function.update (Function.update buffer o (UInt8.ofNat w)) (o + 1) (UInt8.ofNat (w / 256))

def getWord (buffer : Nat → UInt8) (o : Nat) : Nat :=
  (buffer o).toNat + 256 * (buffer (o + 1)).toNat

/-- Where in the buffer label `n` begins. -/
def labelOffset (size : LabelSize) (n : Nat) : Nat :=
  match size with
  | .fat12 => n * 12 / 8
  | .fat16 => n * 2
  | .fat32 => n * 4

/-- The label is put into the buffer, which it is the `n`-th of. -/
def editLabel (size : LabelSize) (buffer : Nat → UInt8) (n label : Nat) : Nat → UInt8 :=
  let o := labelOffset size n
  match size with
  | .fat12 =>
    let label := if fatBad label then FAT12_BAD_LABEL else label
    let label := if fatLast label then 0xfff else label
    let temp := getWord buffer o
    if n * 12 % 8 = 0 then putWord buffer o (temp / 0x1000 * 0x1000 + label % 0x1000)
    else putWord buffer o (temp % 0x10 + label * 0x10 % 0x10000)
  | .fat16 =>
    let label := if fatBad label then FAT16_BAD_LABEL else label
    let label := if fatLast label then 0xffff else label
    putWord buffer o (label % 0x10000)
  | .fat32 =>
    let old := getWord buffer o + 0x10000 * getWord buffer (o + 2)
    let label := label % 0x10000000 + old / 0x10000000 * 0x10000000
    putWord (putWord buffer o (label % 0x10000)) (o + 2) (label / 0x10000)

/-- `FATREADBUFSIZE * 8 / labelsize` -/
def labelsInBuf (v : Volume) : Nat := 1536 * 8 / v.labelSize.bits

/-- The first sector of the buffer that label `labelnr` lies in. -/
def bufferStart (v : Volume) (labelnr : Nat) : Nat :=
  v.fatStart + labelnr / labelsInBuf v * SECTORSPERREADBUF

/-- How the transfers of one `WriteFatLabel` go.  A write that fails has written some of its
sectors; `memory` is what lies behind a new bit field. -/
structure WriteIo where
  bufferOk : Bool
  readOk : Bool
  writeOk : Bool
  written : Nat → Bool
  fieldOk : Bool
  memory : Nat → Bool

/-- Three sectors read into a buffer. -/
def readBuffer (disk : Nat → Sector) (start : Nat) : Nat → UInt8 :=
  fun x => disk (start + x / 512) (x % 512)

/-- The sectors of the buffer that were written. -/
def writeBuffer (disk : Nat → Sector) (start : Nat) (buffer : Nat → UInt8) (written : Nat → Bool) :
    Nat → Sector := fun b =>
  if start ≤ b ∧ b < start + SECTORSPERREADBUF ∧ written (b - start) then fun x =>
    if x < 512 then buffer (512 * (b - start) + x) else disk b x
  else disk b

/-- The bits of the sectors of the buffer. -/
def bufferBits (v : Volume) (start : Nat) : List Nat :=
  (List.range SECTORSPERREADBUF).map fun i => (start + i) / sectorsPerBit v

/-- The answer of a routine, the bits it used, and the handle. -/
structure Done where
  ok : Bool
  uses : List Use
  handle : Handle

/-- The field to mark in: the one there is, or a new one. -/
def changeField (v : Volume) (io : WriteIo) (h : Handle) : Option BitField :=
  match h.fatChangeField with
  | some f => some f
  | none => if io.fieldOk then some (createBitField (v.sectorsPerFat % 0x10000) io.memory) else none

/-- **`WriteFatLabel`**. -/
def writeFatLabel (v : Volume) (io : WriteIo) (labelnr label : Nat) (h : Handle) : Done :=
  let start := bufferStart v labelnr
  if !io.bufferOk || !io.readOk then ⟨false, [], h⟩
  else
    let buffer := editLabel v.labelSize (readBuffer h.disk start) (labelnr % labelsInBuf v) label
    let disk := writeBuffer h.disk start buffer fun i => io.writeOk || io.written i
    let bits := bufferBits v start
    match changeField v io h with
    | none => ⟨io.writeOk, [], ⟨disk, true, none⟩⟩
    | some f => ⟨io.writeOk, bits.map (⟨·, f.len⟩), ⟨disk, true, some (f.setBits bits)⟩⟩

/-! ## 4. `BackupFat` and `SynchronizeFATs` -/

/-- How the transfers for one sector of one copy go; `torn` is what a failed write leaves. -/
structure CopyIo where
  readOk : Bool
  readCopyOk : Bool
  writeOk : Bool
  torn : Sector

/-- `HasSectorChanged`, with the bit it reads. -/
def hasSectorChanged (v : Volume) (h : Handle) (sector : Nat) : Bool × List Use :=
  match h.fatChangeField with
  | some f => (f.bit (sector / sectorsPerBit v), [⟨sector / sectorsPerBit v, f.len⟩])
  | none => (true, [])

/-- What goes to sector `k` of a copy: the sector of the first FAT, but of the last sector only the
part with labels. -/
def copied (v : Volume) (k : Nat) (first copy : Sector) : Sector :=
  if k < v.sectorsPerFat - 1 then first
  else fun x => if x < getBytesInFat v % BYTESPERSECTOR then first x else copy x

/-- Sector `k` of copy `i` is brought up to date if it has to be. -/
def copySector (v : Volume) (all : Bool) (io : CopyIo) (i k : Nat) (h : Handle) : Done :=
  let c := if all then (true, []) else hasSectorChanged v h (v.sectorOf 0 k)
  if !c.1 then ⟨true, c.2, h⟩
  else if !io.readOk || (!(k < v.sectorsPerFat - 1) && !io.readCopyOk) then ⟨false, c.2, h⟩
  else
    let new := if io.writeOk then
        copied v k (h.disk (v.sectorOf 0 k)) (h.disk (v.sectorOf i k))
      else io.torn
    ⟨io.writeOk, c.2, { h with disk := Function.update h.disk (v.sectorOf i k) new }⟩

/-- One sector after another, until a transfer fails. -/
def copySectors (v : Volume) (all : Bool) (io : Nat × Nat → CopyIo) :
    List (Nat × Nat) → Handle → Done
  | [], h => ⟨true, [], h⟩
  | t :: rest, h =>
    let d := copySector v all (io t) t.1 t.2 h
    if d.ok then
      let d' := copySectors v all io rest d.handle
      { d' with uses := d.uses ++ d'.uses }
    else d

/-- Every sector of every copy, in the order of the loops. -/
def copyTasks (v : Volume) : List (Nat × Nat) :=
  (List.range (v.numberOfFats - 1)).flatMap fun i =>
    (List.range v.sectorsPerFat).map fun k => (i + 1, k)

/-- How a whole `PrivateBackupFat` goes. -/
structure BackupIo where
  buffersOk : Bool
  copy : Nat × Nat → CopyIo

/-- `PrivateBackupFat`. -/
def privateBackupFat (v : Volume) (all : Bool) (io : BackupIo) (h : Handle) : Done :=
  if getBytesInFat v = 0 ∨ v.fatStart = 0 ∨ v.numberOfFats = 0 ∨ v.sectorsPerFat = 0 ∨
      io.buffersOk = false then ⟨false, [], h⟩
  else copySectors v all io.copy (copyTasks v) h

/-- **`BackupFat`**: make all FATs equal to the first. -/
def backupFat (v : Volume) (io : BackupIo) (h : Handle) : Done := privateBackupFat v true io h

/-- **`SynchronizeFATs`**: propagate the changes to all the copies. -/
def synchronizeFATs (v : Volume) (io : BackupIo) (h : Handle) : Done :=
  if h.fatLabelsChanged then
    let d := privateBackupFat v false io h
    { d with handle := { d.handle with fatChangeField := none, fatLabelsChanged := false } }
  else ⟨true, [], h⟩

end SdcBoot.Defrag
