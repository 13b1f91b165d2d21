/-
# Drive letters: the scan of the partition tables

`initdisk.c` gives a drive letter to each FAT partition of the hard disks.  It reads the tables of
every disk three times: for one primary partition, for the chain of extended boot records, and for
the primary partitions that are left.  Between the passes it keeps nothing but a mask of the
entries that were used.

The BIOS is a parameter.  A read may be tried several times, so it also depends on the number of
the try.  The two units of the floppy drives always exist; the list here is of the units behind
them.  Messages are left out, and with them the numbers that only they show.
-/
import Mathlib.Order.Lattice.Nat
import Mathlib.Tactic.Linarith

namespace SdcBoot.InitDisk

/-! ## 1. Partition tables -/

structure CHS where
  cylinder : Nat
  head : Nat
  sector : Nat
  deriving DecidableEq

/-- A partition table entry as the kernel keeps it. -/
structure PartTableEntry where
  bootable : UInt8
  fileSystem : UInt8
  begins : CHS
  ends : CHS
  relSect : UInt32
  numSect : UInt32
  deriving DecidableEq

/-- The bytes of a sector. -/
def Sector := Nat → UInt8

def convCHSToIntern (pDisk : Sector) (ofs : Nat) : CHS where
  head := (pDisk ofs).toNat
  sector := (pDisk (ofs + 1) &&& 0x3f).toNat
  cylinder := (pDisk (ofs + 2)).toNat + ((pDisk (ofs + 1) &&& 0xc0).toNat <<< 2)

/-- Four bytes, the lowest first. -/
def ulong (pDisk : Sector) (ofs : Nat) : UInt32 :=
  (pDisk ofs).toUInt32 ||| ((pDisk (ofs + 1)).toUInt32 <<< 8) |||
    ((pDisk (ofs + 2)).toUInt32 <<< 16) ||| ((pDisk (ofs + 3)).toUInt32 <<< 24)

def convEntry (pDisk : Sector) (ofs : Nat) : PartTableEntry where
  bootable := pDisk ofs
  fileSystem := pDisk (ofs + 4)
  begins := convCHSToIntern pDisk (ofs + 1)
  ends := convCHSToIntern pDisk (ofs + 5)
  relSect := ulong pDisk (ofs + 8)
  numSect := ulong pDisk (ofs + 12)

/-- `none` where the signature is missing. -/
def convPartTableEntryToIntern (pDisk : Sector) : Option (List PartTableEntry) :=
  if pDisk 0x1fe ≠ 0x55 ∨ pDisk 0x1ff ≠ 0xaa then none
  else some ((List.range 4).map fun i => convEntry pDisk (0x1be + 16 * i))

def FAT12 : UInt8 := 0x01
def FAT16SMALL : UInt8 := 0x04
def EXTENDED : UInt8 := 0x05
def FAT16LARGE : UInt8 := 0x06
def FAT32 : UInt8 := 0x0b
def FAT32_LBA : UInt8 := 0x0c
def FAT16_LBA : UInt8 := 0x0e
/-- A type of the kernel's own. -/
def FAT12_LBA : UInt8 := 0xff
def EXTENDED_LBA : UInt8 := 0x0f

/-- The options of the kernel, and `WITHFAT32`. -/
structure Config where
  forceLBA : Bool
  globalEnableLBAsupport : Bool
  dlaSortByDriveNo : Bool
  withFat32 : Bool

def isExtPartition (parttyp : UInt8) : Bool := parttyp == EXTENDED || parttyp == EXTENDED_LBA

def isLBAPartition (parttyp : UInt8) : Bool :=
  parttyp == FAT12_LBA || parttyp == FAT16_LBA || parttyp == FAT32_LBA

def isFATPartition (cfg : Config) (parttyp : UInt8) : Bool :=
  parttyp == FAT12 || parttyp == FAT16SMALL || parttyp == FAT16LARGE || parttyp == FAT16_LBA ||
    (cfg.withFat32 && (parttyp == FAT32 || parttyp == FAT32_LBA))

/-! ## 2. Drives -/

/-- What INT 13, AH=48 returns. -/
structure LbaParameters where
  information : Nat
  heads : Nat
  sectors : Nat
  totalSect : UInt32
  totalSectHigh : UInt32

/-- INT 13: the functions 41, 48 and 08 with what they leave in the registers that are read, 15,
and a read by LBA or CHS.  `none` is an error. -/
structure Bios where
  nrdrives : Option Nat
  extensions : Nat → Option Nat
  lbaParameters : Nat → Option LbaParameters
  parameters : Nat → Option (Nat × Nat)
  readdasd : Nat → Nat
  readLBA : Nat → UInt32 → Nat → Option Sector
  readCHS : Nat → CHS → Nat → Option Sector

structure DriveParam where
  driveno : Nat
  lba : Bool
  wrtVerify : Bool
  totalSectors : UInt32
  chs : CHS

/-- The part of `LBA_Get_Drive_Parameters` before `StandardBios`. -/
def lbaSupport (cfg : Config) (bios : Bios) (drive : Nat) : Option LbaParameters :=
  if !cfg.globalEnableLBAsupport then none
  else
    match bios.extensions drive with
    | none => none
    | some cx =>
      if cx % 2 = 0 then none
      else
        match bios.lbaParameters drive with
        | none => none
        | some p =>
          if p.heads > 0xffff ∨ p.sectors > 0xffff ∨ p.totalSectHigh ≠ 0 then none else some p

/-- The geometry in the registers CX and DX.  The cylinders are as the source computes them, where
`+` binds before `|`. -/
def geometry (cx dx : Nat) : CHS where
  head := (dx >>> 8) + 1
  sector := if cx &&& 0x3f = 0 then 63 else cx &&& 0x3f
  cylinder := (cx >>> 8) ||| (((cx &&& 0xc0) <<< 2) + 1)

/-- `LBA_Get_Drive_Parameters`. -/
def lbaGetDriveParameters (cfg : Config) (bios : Bios) (drive : Nat) : Option DriveParam :=
  let driveno := drive ||| 0x80
  let lba := lbaSupport cfg bios driveno
  match bios.parameters driveno with
  | none => none
  | some (cx, dx) =>
    let chs := geometry cx dx
    some
      { driveno := driveno
        lba := lba.isSome
        wrtVerify := lba.any fun p => p.information.testBit 3
        totalSectors := match lba with
          | some p => p.totalSect
          | none => UInt32.ofNat (chs.cylinder * chs.head * chs.sector)
        chs := chs }

/-- `LBA_to_CHS`. -/
def lbaToCHS (dp : DriveParam) (lbaAddress : UInt32) : CHS :=
  let hs := dp.chs.sector * dp.chs.head % 65536
  let hsrem := lbaAddress.toNat % hs
  { cylinder := if lbaAddress.toNat / hs ≥ 0x10000 then 0xffff else lbaAddress.toNat / hs
    head := hsrem / dp.chs.sector
    sector := hsrem % dp.chs.sector + 1 }

/-! ## 3. Units -/

/-- What is kept of a unit. -/
structure Ddt where
  driveno : Nat
  logdriveno : Nat
  lba : Bool
  wrtVerify : Bool
  dasd : Nat
  ncyl : Nat
  offset : UInt32
  nheads : Nat
  nsecs : Nat
  hidden : UInt32
  nsize : UInt32
  huge : UInt32
  deriving DecidableEq

/-- The units behind the two of the floppy drives, and `ExtLBAForce`. -/
structure Init where
  units : List Ddt
  extLBAForce : Bool

def NDEV : Nat := 26
def MAX_HARD_DRIVE : Nat := 8
def N_RETRY : Nat := 5

def Init.nUnits (st : Init) : Nat := 2 + st.units.length

/-- The unit of a partition. -/
def newDdt (cfg : Config) (bios : Bios) (dp : DriveParam) (startSector : UInt32)
    (pEntry : PartTableEntry) (st : Init) : Ddt where
  driveno := dp.driveno
  logdriveno := st.nUnits
  lba := dp.lba && (cfg.forceLBA || st.extLBAForce || isLBAPartition pEntry.fileSystem)
  wrtVerify := dp.wrtVerify
  dasd := bios.readdasd dp.driveno
  ncyl := dp.chs.cylinder
  offset := startSector
  nheads := dp.chs.head
  nsecs := dp.chs.sector
  hidden := pEntry.relSect
  nsize := if pEntry.numSect ≤ 0xffff then pEntry.numSect else 0
  huge := if pEntry.numSect ≤ 0xffff then 0 else pEntry.numSect

/-- `DosDefinePartition`. -/
def dosDefinePartition (cfg : Config) (bios : Bios) (dp : DriveParam) (startSector : UInt32)
    (pEntry : PartTableEntry) (st : Init) : Init :=
  if st.nUnits ≥ NDEV then st
  else { st with units := st.units ++ [newDdt cfg bios dp startSector pEntry st] }

def isSuspect (chs entryChs : CHS) : Bool :=
  !(decide (entryChs = chs) ||
    (decide (chs.cylinder > 1023) &&
      (entryChs.cylinder == 1023 || entryChs.cylinder == (0x3ff &&& chs.cylinder))))

inductive ScanType where
  | primaryBoot
  | primary
  | extended
  | primary2
  deriving DecidableEq

/-- The scan ends with the first partition. -/
def ScanType.single : ScanType → Bool
  | .primaryBoot | .primary => true
  | _ => false

/-- The type of an entry that needs LBA and does not say so. -/
def toLBA (parttyp : UInt8) : UInt8 :=
  if parttyp = FAT12 then FAT12_LBA else if parttyp = FAT32 then FAT32_LBA else FAT16_LBA

/-- The partition starts or ends beyond the cylinders that CHS reaches. -/
def beyondCHS (dp : DriveParam) (partitionStart : UInt32) (pEntry : PartTableEntry) : Bool :=
  decide ((lbaToCHS dp partitionStart).cylinder > 1023) ||
    decide ((lbaToCHS dp (partitionStart + pEntry.numSect - 1)).cylinder > 1023)

/-- An entry as it is defined. -/
def asDefined (cfg : Config) (dp : DriveParam) (partitionStart : UInt32) (pEntry : PartTableEntry)
    (st : Init) : PartTableEntry :=
  if beyondCHS dp partitionStart pEntry && !cfg.forceLBA && !st.extLBAForce &&
      !isLBAPartition pEntry.fileSystem then
    { pEntry with fileSystem := toLBA pEntry.fileSystem }
  else pEntry

/-- `ScanForPrimaryPartitions`, from entry `i` on: the mask of the entries that were used, and the
units. -/
def scanForPrimaryPartitions (cfg : Config) (bios : Bios) (dp : DriveParam) (scanType : ScanType)
    (startSector : UInt32) : Nat → List PartTableEntry → Nat → Init → Nat × Init
  | _, [], partitionsToIgnore, st => (partitionsToIgnore, st)
  | i, pEntry :: rest, partitionsToIgnore, st =>
    let next := scanForPrimaryPartitions cfg bios dp scanType startSector (i + 1) rest
    if pEntry.fileSystem = 0 then next partitionsToIgnore st
    else if partitionsToIgnore.testBit i then next partitionsToIgnore st
    else if isExtPartition pEntry.fileSystem then next partitionsToIgnore st
    else if scanType = .primaryBoot ∧ pEntry.bootable = 0 then next partitionsToIgnore st
    else
      let partitionStart := startSector + pEntry.relSect
      if !isFATPartition cfg pEntry.fileSystem then next partitionsToIgnore st
      else if isSuspect (lbaToCHS dp (partitionStart + pEntry.numSect - 1)) pEntry.ends = true ∧
          pEntry.numSect = 0 then
        next partitionsToIgnore st
      else if beyondCHS dp partitionStart pEntry = true ∧ dp.lba = false then
        next partitionsToIgnore st
      else
        let used := partitionsToIgnore ||| 1 <<< i
        let st1 := dosDefinePartition cfg bios dp partitionStart
          (asDefined cfg dp partitionStart pEntry st) st
        if scanType.single then (used, st1) else next used st1

/-! ## 4. Reading the tables -/

/-- The loop of `Read1LBASector`, with the number of the first try. -/
def read1LBASector (cfg : Config) (bios : Bios) (dp : DriveParam) (drive : Nat) (st : Init)
    (lbaAddress : UInt32) : Nat → Nat → Option Sector
  | 0, _ => none
  | retries + 1, try1 =>
    let chs := lbaToCHS dp lbaAddress
    if dp.lba && (cfg.forceLBA || st.extLBAForce || decide (chs.cylinder > 1023)) then
      match bios.readLBA (drive ||| 0x80) lbaAddress try1 with
      | some buffer => some buffer
      | none => read1LBASector cfg bios dp drive st lbaAddress retries (try1 + 1)
    else if chs.cylinder > 1023 then none
    else
      match bios.readCHS (drive ||| 0x80) chs try1 with
      | some buffer => some buffer
      | none => read1LBASector cfg bios dp drive st lbaAddress retries (try1 + 1)

/-- A table, read again where the signature is missing; `left` tries are left. -/
def readTable (cfg : Config) (bios : Bios) (dp : DriveParam) (drive : Nat) (st : Init)
    (relSectorOffset : UInt32) : Nat → Option (List PartTableEntry)
  | 0 => none
  | left + 1 =>
    match read1LBASector cfg bios dp drive st relSectorOffset N_RETRY ((2 - left) * N_RETRY) with
    | none => none
    | some buffer =>
      match convPartTableEntryToIntern buffer with
      | some pTable => some pTable
      | none => readTable cfg bios dp drive st relSectorOffset left

/-- The loop of `ProcessDisk` over the tables.  `left` more extended tables may come; `found` says
whether this one is extended. -/
def readNextPartitionTable (cfg : Config) (bios : Bios) (dp : DriveParam) (scanType : ScanType)
    (drive : Nat) (left : Nat) (found : Bool) (relSectorOffset extendedPartitionOffset : UInt32)
    (partitionsToIgnore : Nat) (st : Init) : Nat × Init :=
  match readTable cfg bios dp drive st relSectorOffset 3 with
  | none => (partitionsToIgnore, st)
  | some pTable =>
    let r :=
      if scanType ≠ .extended ∨ found = true then
        scanForPrimaryPartitions cfg bios dp scanType relSectorOffset 0 pTable partitionsToIgnore st
      else (partitionsToIgnore, st)
    if scanType ≠ .extended then r
    else
      match pTable.find? fun e => isExtPartition e.fileSystem with
      | none => (0, r.2)
      | some e =>
        let st1 := if extendedPartitionOffset = 0 then
            { r.2 with extLBAForce := e.fileSystem == EXTENDED_LBA }
          else r.2
        match left with
        | 0 => (0, st1)
        | left + 1 =>
          readNextPartitionTable cfg bios dp scanType drive left true
            (extendedPartitionOffset + e.relSect)
            (if extendedPartitionOffset = 0 then e.relSect else extendedPartitionOffset) 0 st1

/-- `ProcessDisk`. -/
def processDisk (cfg : Config) (bios : Bios) (scanType : ScanType) (drive partitionsToIgnore : Nat)
    (st : Init) : Nat × Init :=
  let st0 := { st with extLBAForce := false }
  match lbaGetDriveParameters cfg bios drive with
  | none => (partitionsToIgnore, st0)
  | some dp => readNextPartitionTable cfg bios dp scanType drive 30 false 0 0 partitionsToIgnore st0

/-! ## 5. All disks -/

/-- One primary partition of a disk; the mask is kept in a byte. -/
def processBoot (cfg : Config) (bios : Bios) (drive : Nat) (st : Init) : Nat × Init :=
  let r := processDisk cfg bios .primaryBoot drive 0 st
  if r.1 % 256 = 0 then
    let r2 := processDisk cfg bios .primary drive 0 r.2
    (r2.1 % 256, r2.2)
  else (r.1 % 256, r.2)

/-- The first loop over the disks; `found` is `foundPartitions`. -/
def bootPass (cfg : Config) (bios : Bios) : List Nat → (Nat → Nat) → Init → (Nat → Nat) × Init
  | [], found, st => (found, st)
  | drive :: rest, found, st =>
    let r := processBoot cfg bios drive st
    bootPass cfg bios rest (Function.update found drive r.1) r.2

def extendedPass (cfg : Config) (bios : Bios) (drives : List Nat) (st : Init) : Init :=
  drives.foldl (fun st drive => (processDisk cfg bios .extended drive 0 st).2) st

def primaryPass (cfg : Config) (bios : Bios) (found : Nat → Nat) (drives : List Nat) (st : Init) :
    Init :=
  drives.foldl (fun st drive => (processDisk cfg bios .primary2 drive (found drive) st).2) st

/-- The disks one after the other. -/
def drivePass (cfg : Config) (bios : Bios) : List Nat → (Nat → Nat) → Init → Init
  | [], _, st => st
  | drive :: rest, found, st =>
    let r := if found drive = 0 then processBoot cfg bios drive st else (found drive, st)
    let st1 := (processDisk cfg bios .extended drive 0 r.2).2
    let st2 := (processDisk cfg bios .primary2 drive r.1 st1).2
    drivePass cfg bios rest found st2

/-- The disk that the system was started from, if it is one of them. -/
def bootDrive (cfg : Config) (bios : Bios) (bootdrv : Nat) (drives : List Nat) : Option Nat :=
  drives.find? fun drive =>
    match lbaGetDriveParameters cfg bios drive with
    | some dp => dp.driveno == bootdrv
    | none => false

/-- The number of disks that are looked at. -/
def nHardDisk (bios : Bios) : Nat := min (bios.nrdrives.getD 0) MAX_HARD_DRIVE

/-- `ReadAllPartitionTables`, behind the floppy drives. -/
def readAllPartitionTables (cfg : Config) (bios : Bios) (bootdrv : Nat) : Init :=
  let drives := List.range (nHardDisk bios)
  let st : Init := ⟨[], false⟩
  if cfg.dlaSortByDriveNo then
    match bootDrive cfg bios bootdrv drives with
    | none => drivePass cfg bios drives (fun _ => 0) st
    | some drive =>
      let r := processDisk cfg bios .primaryBoot drive 0 st
      drivePass cfg bios drives (Function.update (fun _ => 0) drive (r.1 % 256)) r.2
  else
    let r := bootPass cfg bios drives (fun _ => 0) st
    primaryPass cfg bios r.1 drives (extendedPass cfg bios drives r.2)

end SdcBoot.InitDisk
