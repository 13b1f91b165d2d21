/-
# Drive letters in DOS order

What the scan is for: each FAT partition gets one letter, and the letters come in an order that DOS
users know.  First one primary partition of each disk, the active one if there is one; then the
logical partitions, disk by disk along the chain of extended boot records; then the primary
partitions that are left.

The disks are given by what their tables hold (`DiskTables`), and `Sound` says that the BIOS can
read them.  `letters_in_dos_order` is about all such disks, as long as there are no more than the
kernel looks at: it keeps its masks for eight, and a ninth disk gets no letters.
-/
import SdcBoot.InitDisk.Scan
import Mathlib.Data.List.Nodup
import Mathlib.Data.List.Flatten

namespace SdcBoot.InitDisk

open List Nat

/-! ## 1. Partitions and their order -/

/-- A partition: the disk, the sector of the table and the entry in it. -/
structure Part where
  drive : Nat
  table : UInt32
  slot : Nat
  entry : PartTableEntry

/-- The absolute sector at which a partition starts. -/
def Part.start (p : Part) : UInt32 := p.table + p.entry.relSect

/-- The FAT partitions of a table, whose first entry has the number `i`. -/
def fatParts (cfg : Config) (drive : Nat) (table : UInt32) : Nat → List PartTableEntry → List Part
  | _, [] => []
  | i, e :: rest =>
    if isFATPartition cfg e.fileSystem then
      ⟨drive, table, i, e⟩ :: fatParts cfg drive table (i + 1) rest
    else fatParts cfg drive table (i + 1) rest

/-- The tables of a disk: the master boot record, and the chain with the sector of each. -/
structure DiskTables where
  mbr : List PartTableEntry
  ebrs : List (UInt32 × List PartTableEntry)

def primaries (cfg : Config) (drive : Nat) (d : DiskTables) : List Part :=
  fatParts cfg drive 0 0 d.mbr

def logicals (cfg : Config) (drive : Nat) (d : DiskTables) : List Part :=
  d.ebrs.flatMap fun t => fatParts cfg drive t.1 0 t.2

/-- The first active partition, or else the first. -/
def bootPart (cfg : Config) (drive : Nat) (d : DiskTables) : Option Part :=
  ((primaries cfg drive d).find? fun p => p.entry.bootable != 0).or (primaries cfg drive d).head?

/-- The primary partitions that are left. -/
def otherPrimaries (cfg : Config) (drive : Nat) (d : DiskTables) : List Part :=
  (primaries cfg drive d).filter fun p => (bootPart cfg drive d).all fun q => p.slot != q.slot

/-- **The order of DOS.** -/
def dosOrder (cfg : Config) (disks : Nat → DiskTables) (drives : List Nat) : List Part :=
  (drives.flatMap fun d => (bootPart cfg d (disks d)).toList) ++
    (drives.flatMap fun d => logicals cfg d (disks d)) ++
    drives.flatMap fun d => otherPrimaries cfg d (disks d)

def allParts (cfg : Config) (disks : Nat → DiskTables) (drives : List Nat) : List Part :=
  drives.flatMap fun d => primaries cfg d (disks d) ++ logicals cfg d (disks d)

/-- The unit stands for the partition. -/
structure DefinedAs (p : Part) (u : Ddt) : Prop where
  driveno : u.driveno = p.drive ||| 0x80
  offset : u.offset = p.start
  size : (if u.nsize = 0 then u.huge else u.nsize) = p.entry.numSect

/-- **What is promised**: the units are the partitions in the order of DOS with letters from C: on,
and each partition is there once. -/
structure InDosOrder (cfg : Config) (disks : Nat → DiskTables) (drives : List Nat)
    (units : List Ddt) : Prop where
  order : List.Forall₂ DefinedAs (dosOrder cfg disks drives) units
  letters : units.map Ddt.logdriveno = List.range' 2 units.length
  every : (dosOrder cfg disks drives).Perm (allParts cfg disks drives)
  once : (allParts cfg disks drives).Nodup

/-! ## 2. Disks that can be read -/

/-- The sector `s` can be read in every way the kernel may choose, and holds the table `t`. -/
structure Readable (bios : Bios) (dp : DriveParam) (drive : Nat) (s : UInt32)
    (t : List PartTableEntry) : Prop where
  reach : dp.lba = true ∨ (lbaToCHS dp s).cylinder ≤ 1023
  data : ∃ buffer, convPartTableEntryToIntern buffer = some t ∧
    (dp.lba = true → ∀ k, bios.readLBA (drive ||| 0x80) s k = some buffer) ∧
    ((lbaToCHS dp s).cylinder ≤ 1023 →
      ∀ k, bios.readCHS (drive ||| 0x80) (lbaToCHS dp s) k = some buffer)

/-- The chain of extended boot records behind a table, each with at most one extended entry.  The
links are relative to the first of them, whose sector is `base`. -/
inductive Links (bios : Bios) (dp : DriveParam) (drive : Nat) :
    UInt32 → List PartTableEntry → List (UInt32 × List PartTableEntry) → Prop where
  | last {base : UInt32} {t : List PartTableEntry}
      (hnone : t.filter (fun e => isExtPartition e.fileSystem) = []) : Links bios dp drive base t []
  | link {base : UInt32} {t t' : List PartTableEntry} {e : PartTableEntry}
      {rest : List (UInt32 × List PartTableEntry)}
      (hone : t.filter (fun e => isExtPartition e.fileSystem) = [e])
      (hread : Readable bios dp drive (base + e.relSect) t')
      (hrest : Links bios dp drive (if base = 0 then e.relSect else base) t' rest) :
      Links bios dp drive base t ((base + e.relSect, t') :: rest)

/-- A partition can be used: it is not empty, and within reach of CHS or LBA. -/
def Part.Usable (dp : DriveParam) (p : Part) : Prop :=
  p.entry.numSect ≠ 0 ∧ (beyondCHS dp p.start p.entry = true → dp.lba = true)

/-- **A disk that is in order.** -/
structure Sound (cfg : Config) (bios : Bios) (drive : Nat) (d : DiskTables) : Prop where
  present : ∃ dp, lbaGetDriveParameters cfg bios drive = some dp ∧
    Readable bios dp drive 0 d.mbr ∧ Links bios dp drive 0 d.mbr d.ebrs ∧
    ∀ p ∈ primaries cfg drive d ++ logicals cfg drive d, p.Usable dp
  links : d.ebrs.length ≤ 30
  noLoop : (0 :: d.ebrs.map Prod.fst).Nodup

/-! ## 3. What one scan adds -/

/-- A scan looks for the partition. -/
def wanted (scanType : ScanType) (partitionsToIgnore : Nat) (p : Part) : Bool :=
  !partitionsToIgnore.testBit p.slot && (decide (scanType ≠ .primaryBoot) || p.entry.bootable != 0)

/-- The partitions that a scan takes out of those of a table. -/
def picks (scanType : ScanType) (partitionsToIgnore : Nat) (parts : List Part) : List Part :=
  if scanType.single then (parts.filter (wanted scanType partitionsToIgnore)).take 1
  else parts.filter (wanted scanType partitionsToIgnore)

section

variable {scanType : ScanType} {ignore : Nat} {p : Part} (ps : List Part)

theorem picks_skip (h : wanted scanType ignore p = false) :
    picks scanType ignore (p :: ps) = picks scanType ignore ps := by
  simp [picks, h]

theorem picks_single (h : wanted scanType ignore p = true) (hsingle : scanType.single = true) :
    picks scanType ignore (p :: ps) = [p] := by
  simp [picks, h, hsingle]

theorem picks_all (h : wanted scanType ignore p = true) (hsingle : scanType.single = false) :
    picks scanType ignore (p :: ps) = p :: picks scanType ignore ps := by
  simp [picks, h, hsingle]

end

/-- Units for the partitions `ps` are added. -/
structure Adds (ps : List Part) (st st' : Init) : Prop where
  units : ∃ us, st'.units = st.units ++ us ∧ List.Forall₂ DefinedAs ps us
  letters : st.units.map Ddt.logdriveno = List.range' 2 st.units.length →
    st'.units.map Ddt.logdriveno = List.range' 2 st'.units.length

theorem Adds.refl (st : Init) : Adds [] st st :=
  ⟨⟨[], (append_nil _).symm, List.Forall₂.nil⟩, id⟩

variable {ps : List Part} {st : Init}

theorem Adds.trans {qs : List Part} {st1 st2 : Init} (h1 : Adds ps st st1)
    (h2 : Adds qs st1 st2) : Adds (ps ++ qs) st st2 := by
  obtain ⟨us, hus, hps⟩ := h1.units
  obtain ⟨vs, hvs, hqs⟩ := h2.units
  refine ⟨⟨us ++ vs, ?_, rel_append hps hqs⟩, fun h => h2.letters (h1.letters h)⟩
  rw [hvs, hus, append_assoc]

variable {st' : Init} {t : List PartTableEntry}

theorem Adds.length (h : Adds ps st st') : st'.units.length = st.units.length + ps.length := by
  obtain ⟨us, hus, hps⟩ := h.units
  rw [hus, length_append, hps.length_eq]

/-- `ExtLBAForce` does not matter. -/
theorem Adds.of_force {b : Bool} (h : Adds ps { st with extLBAForce := b } st') : Adds ps st st' :=
  ⟨h.units, h.letters⟩

/-- The mask once the partitions `ps` are used. -/
def usedMask (partitionsToIgnore : Nat) (ps : List Part) : Nat :=
  ps.foldl (fun m p => m ||| 1 <<< p.slot) partitionsToIgnore

section

variable {cfg : Config} {bios : Bios} {dp : DriveParam} {drive : Nat} {s : UInt32}

theorem isFAT_ne_zero {t : UInt8} (h : isFATPartition cfg t = true) :
    t ≠ 0 ∧ isExtPartition t = false := by
  simp only [isFATPartition, Bool.or_eq_true, Bool.and_eq_true, beq_iff_eq] at h
  rcases h with (((h | h) | h) | h) | ⟨-, h | h⟩
  all_goals
    subst h
    exact ⟨by decide, by decide⟩

variable {p : Part} {t : List PartTableEntry}

variable {i : Nat} {es : List PartTableEntry} {α : Type} {l : List α}

theorem slot_le (hp : p ∈ fatParts cfg drive s i es) : i ≤ p.slot := by
  induction es generalizing i with
  | nil => simp [fatParts] at hp
  | cons e rest ih =>
    unfold fatParts at hp
    split at hp
    · rcases mem_cons.mp hp with rfl | hp
      · exact le_refl i
      · exact le_of_succ_le (ih hp)
    · exact le_of_succ_le (ih hp)

/-- The bit of an entry does not hide those behind it. -/
theorem picks_used (scanType : ScanType) (ignore : Nat) (i : Nat) (es : List PartTableEntry) :
    picks scanType (ignore ||| 1 <<< i) (fatParts cfg drive s (i + 1) es) =
      picks scanType ignore (fatParts cfg drive s (i + 1) es) := by
  have hfilter : ∀ p ∈ fatParts cfg drive s (i + 1) es,
      (ignore ||| 1 <<< i).testBit p.slot = ignore.testBit p.slot := by
    intro p hp
    have hlt := slot_le hp
    rw [testBit_or, testBit_shiftLeft]
    have hzero : (1 : Nat).testBit (p.slot - i) = false := by
      obtain ⟨k, hk⟩ : ∃ k, p.slot - i = k + 1 := ⟨p.slot - i - 1, by omega⟩
      rw [hk, testBit_succ]
      simp
    rw [hzero, Bool.and_false, Bool.or_false]
  unfold picks
  rw [filter_congr fun p hp => by unfold wanted; rw [hfilter p hp]]
  rfl

theorem define_adds {st : Init} (hdp : dp.driveno = p.drive ||| 0x80) (husable : p.Usable dp)
    (hroom : st.nUnits < NDEV) :
    Adds [p] st (dosDefinePartition cfg bios dp p.start (asDefined cfg dp p.start p.entry st) st) := by
  have hsame : ∀ e, e = asDefined cfg dp p.start p.entry st → e.numSect = p.entry.numSect := by
    rintro e rfl
    unfold asDefined
    split <;> rfl
  unfold dosDefinePartition
  rw [if_neg (by omega)]
  constructor
  · refine ⟨_, rfl, List.Forall₂.cons ⟨hdp, rfl, ?_⟩ List.Forall₂.nil⟩
    simp only [newDdt, hsame _ rfl]
    by_cases hle : p.entry.numSect ≤ 0xffff
    · rw [if_pos hle, if_neg husable.1]
    · rw [if_neg hle, if_neg hle, if_pos rfl]
  · intro h
    rw [map_append, h, length_append]
    simp [newDdt, Init.nUnits, range'_concat]

/-- **A scan of a table.** -/
theorem scan_spec (scanType : ScanType) (hdp : dp.driveno = drive ||| 0x80)
    (es : List PartTableEntry) (i ignore : Nat) (st : Init)
    (husable : ∀ p ∈ fatParts cfg drive s i es, p.Usable dp)
    (hroom : st.nUnits + (picks scanType ignore (fatParts cfg drive s i es)).length ≤ NDEV) :
    (scanForPrimaryPartitions cfg bios dp scanType s i es ignore st).1 =
        usedMask ignore (picks scanType ignore (fatParts cfg drive s i es)) ∧
      Adds (picks scanType ignore (fatParts cfg drive s i es)) st
        (scanForPrimaryPartitions cfg bios dp scanType s i es ignore st).2 := by
  induction es generalizing i ignore st with
  | nil =>
    have hnil : picks scanType ignore (fatParts cfg drive s i []) = [] := by
      simp [picks, fatParts]
    rw [hnil]
    exact ⟨rfl, Adds.refl st⟩
  | cons e rest ih =>
    cases hfat : isFATPartition cfg e.fileSystem with
    | false =>
      -- every other entry is passed over
      have hparts : fatParts cfg drive s i (e :: rest) = fatParts cfg drive s (i + 1) rest := by
        simp [fatParts, hfat]
      rw [hparts] at husable hroom ⊢
      have hnext := ih (i + 1) ignore st husable hroom
      unfold scanForPrimaryPartitions
      split
      · exact hnext
      · split
        · exact hnext
        · split
          · exact hnext
          · split
            · exact hnext
            · rw [hfat, if_pos (by simp)]
              exact hnext
    | true =>
      obtain ⟨hne, hext⟩ := isFAT_ne_zero hfat
      have hparts : fatParts cfg drive s i (e :: rest) =
          ⟨drive, s, i, e⟩ :: fatParts cfg drive s (i + 1) rest := by
        simp [fatParts, hfat]
      rw [hparts] at husable hroom ⊢
      have hrest : ∀ p ∈ fatParts cfg drive s (i + 1) rest, p.Usable dp :=
        fun p hp => husable p (.tail _ hp)
      have huse : Part.Usable dp ⟨drive, s, i, e⟩ := husable _ mem_cons_self
      unfold scanForPrimaryPartitions
      rw [if_neg hne]
      by_cases hbit : ignore.testBit i = true
      · rw [picks_skip _ (by simp [wanted, hbit])] at hroom ⊢
        rw [if_pos hbit]
        exact ih (i + 1) ignore st hrest hroom
      · rw [if_neg hbit, hext, if_neg (by simp)]
        by_cases hboot : scanType = .primaryBoot ∧ e.bootable = 0
        · rw [picks_skip _ (by simp [wanted, hboot.1, hboot.2])] at hroom ⊢
          rw [if_pos hboot]
          exact ih (i + 1) ignore st hrest hroom
        · rw [if_neg hboot, hfat, if_neg (by simp), if_neg (fun h => huse.1 h.2),
            if_neg (fun h => by simp [huse.2 h.1] at h)]
          have hwant : wanted scanType ignore ⟨drive, s, i, e⟩ = true := by
            rw [not_and] at hboot
            by_cases hst : scanType = .primaryBoot
            · simp [wanted, hbit, hboot hst]
            · simp [wanted, hbit, hst]
          cases hsingle : scanType.single with
          | true =>
            rw [picks_single _ hwant hsingle] at hroom ⊢
            exact ⟨rfl, define_adds hdp huse (lt_of_succ_le hroom)⟩
          | false =>
            rw [picks_all _ hwant hsingle] at hroom ⊢
            rw [length_cons] at hroom
            have hdef : Adds [⟨drive, s, i, e⟩] st (dosDefinePartition cfg bios dp (s + e.relSect)
                (asDefined cfg dp (s + e.relSect) e st) st) := define_adds hdp huse (by omega)
            have hlen := hdef.length
            have hnext := ih (i + 1) (ignore ||| 1 <<< i)
              (dosDefinePartition cfg bios dp (s + e.relSect)
                (asDefined cfg dp (s + e.relSect) e st) st) hrest (by
                rw [picks_used]
                simp only [Init.nUnits, hlen, length_singleton] at hroom ⊢
                omega)
            rw [picks_used] at hnext
            exact ⟨hnext.1, hdef.trans hnext.2⟩

/-! ## 4. What one disk adds -/

theorem readTable_of_readable (st : Init)
    (h : Readable bios dp drive s t) : readTable cfg bios dp drive st s 3 = some t := by
  obtain ⟨buffer, hconv, hlba, hchs⟩ := h.data
  have hread : read1LBASector cfg bios dp drive st s N_RETRY ((2 - 2) * N_RETRY) =
      some buffer := by
    unfold N_RETRY read1LBASector
    dsimp only
    split
    · rename_i hmode
      rw [hlba (Bool.and_eq_true_iff.mp hmode).1]
    · rename_i hmode
      have hle : (lbaToCHS dp s).cylinder ≤ 1023 := by
        rcases h.reach with hreach | hreach
        · by_contra hno
          exact hmode (by simp [hreach, Nat.lt_of_not_le hno])
        · exact hreach
      rw [if_neg (not_lt.mpr hle), hchs hle]
  unfold readTable
  rw [hread]
  dsimp only
  rw [hconv]

theorem find_of_filter_eq_nil {p : α → Bool} (h : l.filter p = []) : l.find? p = none := by
  rw [find?_eq_none]
  intro x hx
  exact filter_eq_nil_iff.mp h x hx

theorem find_of_filter_eq_singleton {p : α → Bool} {a : α}
    (h : l.filter p = [a]) : l.find? p = some a := by
  rw [← head?_filter, h]
  rfl

/-- The partitions of the tables of a chain. -/
def chainParts (cfg : Config) (drive : Nat) (ebrs : List (UInt32 × List PartTableEntry)) :
    List Part :=
  ebrs.flatMap fun t => fatParts cfg drive t.1 0 t.2

theorem picks_extended (ps : List Part) : picks .extended 0 ps = ps := by
  have hall : ∀ p ∈ ps, wanted .extended 0 p = true := fun p _ => by simp [wanted]
  simp [picks, ScanType.single, filter_eq_self.mpr hall]

/-- The partitions that are looked at in a table while the chain is followed: none in the master
boot record. -/
def ownParts (cfg : Config) (drive : Nat) (found : Bool) (sector : UInt32)
    (t : List PartTableEntry) : List Part :=
  if found then fatParts cfg drive sector 0 t else []

/-- The scan of a table while the chain is followed. -/
def scanLink (cfg : Config) (bios : Bios) (dp : DriveParam) (found : Bool) (sector : UInt32)
    (t : List PartTableEntry) (st : Init) : Init :=
  if found then (scanForPrimaryPartitions cfg bios dp .extended sector 0 t 0 st).2 else st

theorem scanLink_adds (hdp : dp.driveno = drive ||| 0x80) (found : Bool) {sector : UInt32}
    (st : Init) (husable : ∀ p ∈ ownParts cfg drive found sector t, p.Usable dp)
    (hroom : st.nUnits + (ownParts cfg drive found sector t).length ≤ NDEV) :
    Adds (ownParts cfg drive found sector t) st (scanLink cfg bios dp found sector t st) := by
  cases found with
  | false => exact Adds.refl st
  | true =>
    have hspec : _ ∧ Adds _ st (scanForPrimaryPartitions cfg bios dp .extended sector 0 t 0 st).2 :=
      scan_spec .extended hdp t 0 0 st husable (by rw [picks_extended]; exact hroom)
    rw [picks_extended] at hspec
    exact hspec.2

section

variable {left : Nat} {found : Bool} {sector base : UInt32} {t : List PartTableEntry} {st : Init}

theorem readNext_last (hread : Readable bios dp drive sector t)
    (hnone : t.filter (fun e => isExtPartition e.fileSystem) = []) :
    (readNextPartitionTable cfg bios dp .extended drive left found sector base 0 st).2 =
      scanLink cfg bios dp found sector t st := by
  unfold readNextPartitionTable
  rw [readTable_of_readable st hread]
  dsimp only
  rw [find_of_filter_eq_nil hnone]
  cases found <;> simp [scanLink]

theorem readNext_link (cfg : Config) (left : Nat) (found : Bool) (base : UInt32) (st : Init)
    {e : PartTableEntry} (hread : Readable bios dp drive sector t)
    (hone : t.filter (fun e => isExtPartition e.fileSystem) = [e]) :
    ∃ force, (readNextPartitionTable cfg bios dp .extended drive (left + 1) found sector base 0 st).2
      = (readNextPartitionTable cfg bios dp .extended drive left true (base + e.relSect)
          (if base = 0 then e.relSect else base) 0
          { (scanLink cfg bios dp found sector t st) with extLBAForce := force }).2 := by
  rw [readNextPartitionTable.eq_def cfg bios dp .extended drive (left + 1),
    readTable_of_readable st hread]
  dsimp only
  rw [find_of_filter_eq_singleton hone]
  by_cases hbase : base = 0
  · refine ⟨e.fileSystem == EXTENDED_LBA, ?_⟩
    cases found <;> simp [scanLink, hbase]
  · refine ⟨(scanLink cfg bios dp found sector t st).extLBAForce, ?_⟩
    cases found <;> simp [scanLink, hbase]

end

/-- **The chain of extended boot records.** -/
theorem chain_adds (hdp : dp.driveno = drive ||| 0x80) {base : UInt32}
    {ebrs : List (UInt32 × List PartTableEntry)} (h : Links bios dp drive base t ebrs)
    (left : Nat) (found : Bool) (sector : UInt32) (st : Init) (hleft : ebrs.length ≤ left)
    (hread : Readable bios dp drive sector t)
    (husable : ∀ p ∈ ownParts cfg drive found sector t ++ chainParts cfg drive ebrs, p.Usable dp)
    (hroom : st.nUnits +
      (ownParts cfg drive found sector t ++ chainParts cfg drive ebrs).length ≤ NDEV) :
    Adds (ownParts cfg drive found sector t ++ chainParts cfg drive ebrs) st
      (readNextPartitionTable cfg bios dp .extended drive left found sector base 0 st).2 := by
  induction h generalizing left found sector st with
  | @last base t hnone =>
    rw [readNext_last hread hnone]
    simp only [chainParts, flatMap_nil, append_nil] at husable hroom ⊢
    exact scanLink_adds hdp found st husable hroom
  | @link base t t' e rest hone hread' hrest ih =>
    obtain ⟨left, rfl⟩ : ∃ k, left = k + 1 := ⟨left - 1, by simp at hleft; omega⟩
    obtain ⟨force, hnext⟩ := readNext_link cfg left found base st hread hone
    have hchain : chainParts cfg drive ((base + e.relSect, t') :: rest) =
        ownParts cfg drive true (base + e.relSect) t' ++ chainParts cfg drive rest := rfl
    rw [hchain, length_append] at hroom
    have hown : Adds (ownParts cfg drive found sector t) st
        (scanLink cfg bios dp found sector t st) :=
      scanLink_adds hdp found st (fun p hp => husable p (mem_append_left _ hp)) (by omega)
    have hlen := hown.length
    rw [hnext]
    refine hown.trans ?_
    refine (ih left true (base + e.relSect) { (scanLink cfg bios dp found sector t st) with
      extLBAForce := force } (le_of_succ_le_succ hleft) hread'
      (fun p hp => husable p (mem_append_right _ hp)) ?_).of_force
    simp only [Init.nUnits] at hroom ⊢
    omega

theorem driveno_eq (h : lbaGetDriveParameters cfg bios drive = some dp) :
    dp.driveno = drive ||| 0x80 := by
  unfold lbaGetDriveParameters at h
  dsimp only at h
  split at h
  · cases h
  · rw [← Option.some.inj h]

variable {d : DiskTables} (hsound : Sound cfg bios drive d)

include hsound in
/-- A pass over the primary partitions of a disk. -/
theorem processDisk_primary (scanType : ScanType) (hscan : scanType ≠ .extended) (ignore : Nat)
    (st : Init)
    (hroom : st.nUnits + (picks scanType ignore (primaries cfg drive d)).length ≤ NDEV) :
    (processDisk cfg bios scanType drive ignore st).1 =
        usedMask ignore (picks scanType ignore (primaries cfg drive d)) ∧
      Adds (picks scanType ignore (primaries cfg drive d)) st
        (processDisk cfg bios scanType drive ignore st).2 := by
  obtain ⟨dp, hdp, hread, -, husable⟩ := hsound.present
  have hspec : _ ∧ Adds _ _ (scanForPrimaryPartitions cfg bios dp scanType 0 0 d.mbr ignore
      { st with extLBAForce := false }).2 :=
    scan_spec scanType (driveno_eq hdp) d.mbr 0 ignore { st with extLBAForce := false }
      (fun p hp => husable p (mem_append_left _ hp)) hroom
  have hrun : processDisk cfg bios scanType drive ignore st =
      scanForPrimaryPartitions cfg bios dp scanType 0 0 d.mbr ignore
        { st with extLBAForce := false } := by
    unfold processDisk
    dsimp only
    rw [hdp]
    dsimp only
    unfold readNextPartitionTable
    rw [readTable_of_readable _ hread]
    simp [hscan]
  rw [hrun]
  exact ⟨hspec.1, hspec.2.of_force⟩

include hsound in
/-- The pass over the logical partitions of a disk. -/
theorem processDisk_extended (st : Init)
    (hroom : st.nUnits + (logicals cfg drive d).length ≤ NDEV) :
    Adds (logicals cfg drive d) st (processDisk cfg bios .extended drive 0 st).2 := by
  obtain ⟨dp, hdp, hread, hlinks, husable⟩ := hsound.present
  unfold processDisk
  dsimp only
  rw [hdp]
  have hadds : Adds (logicals cfg drive d) _ _ :=
    chain_adds (driveno_eq hdp) hlinks 30 false 0 { st with extLBAForce := false } hsound.links hread
      (fun p hp => husable p (mem_append_right _ hp)) hroom
  exact hadds.of_force

/-- The mask that is kept of a disk. -/
def bootMask (cfg : Config) (drive : Nat) (d : DiskTables) : Nat :=
  (bootPart cfg drive d).elim 0 fun p => 1 <<< p.slot

theorem slot_lt (hp : p ∈ fatParts cfg drive s i es) : p.slot < i + es.length := by
  induction es generalizing i with
  | nil => simp [fatParts] at hp
  | cons e rest ih =>
    rw [length_cons]
    unfold fatParts at hp
    split at hp
    · rcases mem_cons.mp hp with rfl | hp
      · dsimp only
        omega
      · have := ih hp
        omega
    · have := ih hp
      omega

include hsound in
theorem slot_lt_four (hp : p ∈ primaries cfg drive d) : p.slot < 4 := by
  obtain ⟨dp, -, hread, -⟩ := hsound.present
  obtain ⟨buffer, hconv, -⟩ := hread.data
  have hlen : d.mbr.length = 4 := by
    unfold convPartTableEntryToIntern at hconv
    split at hconv
    · cases hconv
    · rw [← Option.some.inj hconv]
      simp
  have hlt := slot_lt hp
  omega

theorem bootPart_mem (h : bootPart cfg drive d = some p) : p ∈ primaries cfg drive d := by
  rcases Option.or_eq_some_iff.mp h with h | ⟨-, h⟩
  · exact mem_of_find?_eq_some h
  · exact mem_of_head? h

theorem shiftLeft_slot {k : Nat} (hk : k < 4) : 1 <<< k % 256 = 1 <<< k ∧ 1 <<< k % 256 ≠ 0 := by
  have hcases : k = 0 ∨ k = 1 ∨ k = 2 ∨ k = 3 := by omega
  rcases hcases with rfl | rfl | rfl | rfl <;> decide

include hsound in
/-- The first pass over a disk. -/
theorem processBoot_spec (st : Init)
    (hroom : st.nUnits + (bootPart cfg drive d).toList.length ≤ NDEV) :
    (processBoot cfg bios drive st).1 = bootMask cfg drive d ∧
      Adds (bootPart cfg drive d).toList st (processBoot cfg bios drive st).2 := by
  have hactive : picks .primaryBoot 0 (primaries cfg drive d) =
      ((primaries cfg drive d).find? fun p => p.entry.bootable != 0).toList := by
    have hwant : wanted .primaryBoot 0 = fun p => p.entry.bootable != 0 := by
      funext p
      simp [wanted]
    unfold picks
    rw [hwant, if_pos (by decide), take_one, head?_filter]
  have hfirst : picks .primary 0 (primaries cfg drive d) = (primaries cfg drive d).head?.toList := by
    have hwant : (primaries cfg drive d).filter (wanted .primary 0) = primaries cfg drive d :=
      filter_eq_self.mpr fun p _ => by simp [wanted]
    unfold picks
    rw [hwant, if_pos (by decide), take_one]
  unfold processBoot
  dsimp only
  cases hfind : (primaries cfg drive d).find? fun p => p.entry.bootable != 0 with
  | some p =>
    have hboot : bootPart cfg drive d = some p := by simp [bootPart, hfind]
    rw [hfind] at hactive
    rw [hboot] at hroom ⊢
    obtain ⟨hmask, hadds⟩ := processDisk_primary hsound .primaryBoot (by simp) 0 st
      (by rw [hactive]; exact hroom)
    rw [hactive] at hmask hadds
    have hslot := slot_lt_four hsound (bootPart_mem hboot)
    have hbits : (processDisk cfg bios .primaryBoot drive 0 st).1 = 1 <<< p.slot := by
      rw [hmask]
      simp [usedMask]
    obtain ⟨hsame, hne⟩ := shiftLeft_slot hslot
    rw [hbits, if_neg hne]
    refine ⟨?_, hadds⟩
    simp [bootMask, hboot, hsame]
  | none =>
    have hboot : bootPart cfg drive d = (primaries cfg drive d).head? := by simp [bootPart, hfind]
    rw [hfind] at hactive
    rw [hboot] at hroom ⊢
    obtain ⟨hmask, hadds⟩ := processDisk_primary hsound .primaryBoot (by simp) 0 st
      (by rw [hactive]; simp at hroom ⊢; omega)
    rw [hactive] at hmask hadds
    have hzero : (processDisk cfg bios .primaryBoot drive 0 st).1 = 0 := hmask
    rw [hzero, if_pos rfl]
    have hlen := hadds.length
    obtain ⟨hmask2, hadds2⟩ := processDisk_primary hsound .primary (by simp) 0
      (processDisk cfg bios .primaryBoot drive 0 st).2 (by
        rw [hfirst]
        simp only [Init.nUnits, hlen] at hroom ⊢
        simpa using hroom)
    rw [hfirst] at hmask2 hadds2
    constructor
    · rw [hmask2]
      cases hhead : (primaries cfg drive d).head? with
      | none => simp [bootMask, hboot, hhead, usedMask]
      | some p =>
        rw [hhead] at hboot
        have hslot := slot_lt_four hsound (bootPart_mem hboot)
        simp [bootMask, hboot, usedMask, (shiftLeft_slot hslot).1]
    · have := hadds.trans hadds2
      simpa using this

theorem picks_other : picks .primary2 (bootMask cfg drive d) (primaries cfg drive d) =
    otherPrimaries cfg drive d := by
  refine filter_congr fun p _ => ?_
  unfold wanted bootMask
  cases bootPart cfg drive d with
  | none => simp
  | some q =>
    simp only [one_shiftLeft]
    by_cases h : q.slot = p.slot
    · simp [h]
    · simp [h, Ne.symm h]

end

/-! ## 5. All disks -/

section

variable {cfg : Config} {bios : Bios} {disks : Nat → DiskTables}

theorem bootPass_spec (drives : List Nat) (found : Nat → Nat) (st : Init)
    (hsound : ∀ d ∈ drives, Sound cfg bios d (disks d)) (hroom : st.nUnits +
      (drives.flatMap fun d => (bootPart cfg d (disks d)).toList).length ≤ NDEV) :
    (∀ d, (bootPass cfg bios drives found st).1 d =
        if d ∈ drives then bootMask cfg d (disks d) else found d) ∧
      Adds (drives.flatMap fun d => (bootPart cfg d (disks d)).toList) st
        (bootPass cfg bios drives found st).2 := by
  induction drives generalizing found st with
  | nil => exact ⟨fun d => rfl, Adds.refl st⟩
  | cons drive rest ih =>
    rw [flatMap_cons, length_append] at hroom
    obtain ⟨hmask, hadds⟩ := processBoot_spec (hsound drive mem_cons_self) st (by omega)
    have hlen := hadds.length
    obtain ⟨hfound, hrest⟩ := ih (Function.update found drive (processBoot cfg bios drive st).1)
      (processBoot cfg bios drive st).2 (fun d hd => hsound d (mem_cons_of_mem drive hd)) (by
        simp only [Init.nUnits] at hroom ⊢
        omega)
    refine ⟨fun d => ?_, ?_⟩
    · have hd := hfound d
      simp only [bootPass]
      rw [hd]
      by_cases hin : d ∈ rest
      · simp [hin]
      · by_cases heq : d = drive
        · simp [heq, hmask]
        · simp [heq]
    · exact hadds.trans hrest

theorem extendedPass_adds (drives : List Nat) (st : Init)
    (hsound : ∀ d ∈ drives, Sound cfg bios d (disks d))
    (hroom : st.nUnits + (drives.flatMap fun d => logicals cfg d (disks d)).length ≤ NDEV) :
    Adds (drives.flatMap fun d => logicals cfg d (disks d)) st
      (extendedPass cfg bios drives st) := by
  induction drives generalizing st with
  | nil => exact Adds.refl st
  | cons drive rest ih =>
    rw [flatMap_cons, length_append] at hroom
    have hadds := processDisk_extended (hsound drive mem_cons_self) st (by omega)
    have hlen := hadds.length
    have hrest := ih (processDisk cfg bios .extended drive 0 st).2
      (fun d hd => hsound d (mem_cons_of_mem drive hd)) (by
        simp only [Init.nUnits] at hroom ⊢
        omega)
    exact hadds.trans hrest

theorem primaryPass_adds (found : Nat → Nat) (drives : List Nat) (st : Init)
    (hsound : ∀ d ∈ drives, Sound cfg bios d (disks d))
    (hfound : ∀ d ∈ drives, found d = bootMask cfg d (disks d))
    (hroom : st.nUnits + (drives.flatMap fun d => otherPrimaries cfg d (disks d)).length ≤ NDEV) :
    Adds (drives.flatMap fun d => otherPrimaries cfg d (disks d)) st
      (primaryPass cfg bios found drives st) := by
  induction drives generalizing st with
  | nil => exact Adds.refl st
  | cons drive rest ih =>
    rw [flatMap_cons, length_append] at hroom
    have hadds := (processDisk_primary (hsound drive mem_cons_self) .primary2 (by simp)
      (bootMask cfg drive (disks drive)) st (by rw [picks_other]; omega)).2
    rw [picks_other] at hadds
    have hlen := hadds.length
    have hrest := ih
      (processDisk cfg bios .primary2 drive (bootMask cfg drive (disks drive)) st).2
      (fun d hd => hsound d (mem_cons_of_mem drive hd))
      (fun d hd => hfound d (mem_cons_of_mem drive hd)) (by
        simp only [Init.nUnits] at hroom ⊢
        omega)
    rw [← hfound drive mem_cons_self] at hadds hrest
    exact hadds.trans hrest

/-- The entries of a table are different ones. -/
theorem fatParts_nodup (drive : Nat) (s : UInt32) (i : Nat) (es : List PartTableEntry) :
    (fatParts cfg drive s i es).Nodup := by
  induction es generalizing i with
  | nil => exact nodup_nil
  | cons e rest ih =>
    unfold fatParts
    split
    · refine nodup_cons.mpr ⟨fun hin => ?_, ih (i + 1)⟩
      have hle := slot_le hin
      exact absurd hle (by simp)
    · exact ih (i + 1)

variable {drive : Nat} {p : Part}

variable {s : UInt32} {i : Nat} {es : List PartTableEntry}

theorem slot_inj {q : Part} (hp : p ∈ fatParts cfg drive s i es)
    (hq : q ∈ fatParts cfg drive s i es) (h : p.slot = q.slot) : p = q := by
  induction es generalizing i with
  | nil => simp [fatParts] at hp
  | cons e rest ih =>
    unfold fatParts at hp hq
    split at hp
    · rename_i hfat
      rw [if_pos hfat] at hq
      rcases mem_cons.mp hp with rfl | hp
      · rcases mem_cons.mp hq with rfl | hq
        · rfl
        · have hle := slot_le hq
          dsimp only at h
          omega
      · rcases mem_cons.mp hq with rfl | hq
        · have hle := slot_le hp
          dsimp only at h
          omega
        · exact ih hp hq
    · rename_i hfat
      rw [if_neg hfat] at hq
      exact ih hp hq

theorem mem_fatParts (hp : p ∈ fatParts cfg drive s i es) : p.drive = drive ∧ p.table = s := by
  induction es generalizing i with
  | nil => simp [fatParts] at hp
  | cons e rest ih =>
    unfold fatParts at hp
    split at hp
    · rcases mem_cons.mp hp with rfl | hp
      · exact ⟨rfl, rfl⟩
      · exact ih hp
    · exact ih hp

/-- One primary partition and the others are all of them. -/
theorem primaries_perm (drive : Nat) (d : DiskTables) :
    ((bootPart cfg drive d).toList ++ otherPrimaries cfg drive d).Perm (primaries cfg drive d) := by
  unfold otherPrimaries
  cases hboot : bootPart cfg drive d with
  | none => simp
  | some q =>
    have hq := bootPart_mem hboot
    have hone : (primaries cfg drive d).filter (fun p => p.slot == q.slot) = [q] := by
      have hall : ∀ p ∈ (primaries cfg drive d).filter (fun p => p.slot == q.slot), p = q := by
        intro p hp
        obtain ⟨hp, hslot⟩ := mem_filter.mp hp
        exact slot_inj hp hq (by simpa using hslot)
      have hnodup : ((primaries cfg drive d).filter fun p => p.slot == q.slot).Nodup :=
        (fatParts_nodup drive 0 0 d.mbr).filter _
      have hin : q ∈ (primaries cfg drive d).filter (fun p => p.slot == q.slot) :=
        mem_filter.mpr ⟨hq, by simp⟩
      have hrep := eq_replicate_of_mem hall
      have hle : ((primaries cfg drive d).filter fun p => p.slot == q.slot).length ≤ 1 := by
        rw [hrep] at hnodup
        exact nodup_replicate.mp hnodup
      have hpos := length_pos_of_mem hin
      rw [hrep, le_antisymm hle hpos]
      rfl
    have hperm := filter_append_perm (fun p : Part => p.slot == q.slot) (primaries cfg drive d)
    rw [hone] at hperm
    simpa [bne] using hperm

theorem dosOrder_perm (drives : List Nat) :
    (dosOrder cfg disks drives).Perm (allParts cfg disks drives) := by
  have hswap : ∀ a b c : List Part, (a ++ b ++ c).Perm (a ++ c ++ b) := by
    intro a b c
    rw [append_assoc, append_assoc]
    exact perm_append_comm.append_left a
  refine (hswap _ _ _).trans ?_
  refine ((flatMap_append_perm drives _ _).append_right _).trans ?_
  refine (flatMap_append_perm drives _ _).trans ?_
  exact List.Perm.flatMap_left drives fun d _ => (primaries_perm d (disks d)).append_right _

theorem diskParts_nodup (h : Sound cfg bios drive (disks drive)) :
    (primaries cfg drive (disks drive) ++ logicals cfg drive (disks drive)).Nodup := by
  obtain ⟨hzero, hnodup⟩ := nodup_cons.mp h.noLoop
  refine nodup_append.mpr ⟨fatParts_nodup drive 0 0 _, ?_, ?_⟩
  · refine nodup_flatMap.mpr ⟨fun t _ => fatParts_nodup drive t.1 0 t.2, ?_⟩
    refine (pairwise_map.mp hnodup).imp fun {t t'} hne p hp hp' => ?_
    exact hne ((mem_fatParts hp).2.symm.trans (mem_fatParts hp').2)
  · rintro p hp q hq rfl
    obtain ⟨t, ht, hin⟩ := mem_flatMap.mp hq
    have htable : t.1 = 0 := (mem_fatParts hin).2.symm.trans (mem_fatParts hp).2
    exact hzero (mem_map.mpr ⟨t, ht, htable⟩)

theorem mem_diskParts {d : DiskTables}
    (hp : p ∈ primaries cfg drive d ++ logicals cfg drive d) : p.drive = drive := by
  rcases mem_append.mp hp with hp | hp
  · exact (mem_fatParts hp).1
  · obtain ⟨t, -, hin⟩ := mem_flatMap.mp hp
    exact (mem_fatParts hin).1

theorem allParts_nodup {drives : List Nat} (hdrives : drives.Nodup)
    (hsound : ∀ d ∈ drives, Sound cfg bios d (disks d)) : (allParts cfg disks drives).Nodup := by
  refine nodup_flatMap.mpr ⟨fun d hd => diskParts_nodup (hsound d hd), ?_⟩
  refine hdrives.imp fun {d d'} hne p hp hp' => ?_
  exact hne ((mem_diskParts hp).symm.trans (mem_diskParts hp'))

end

/-- **Every partition gets one letter, in the order of DOS**, where there are no more disks than the
kernel looks at. -/
theorem letters_in_dos_order (cfg : Config) (bios : Bios) (bootdrv n : Nat)
    (disks : Nat → DiskTables) (horder : cfg.dlaSortByDriveNo = false)
    (hn : bios.nrdrives.getD 0 = n) (hmax : n ≤ MAX_HARD_DRIVE)
    (hsound : ∀ d < n, Sound cfg bios d (disks d))
    (hroom : 2 + (allParts cfg disks (List.range n)).length < NDEV) :
    InDosOrder cfg disks (List.range n) (readAllPartitionTables cfg bios bootdrv).units := by
  have hdrives : nHardDisk bios = n := by
    simp [nHardDisk, hn, min_eq_left hmax]
  have hsound' : ∀ d ∈ List.range n, Sound cfg bios d (disks d) :=
    fun d hd => hsound d (List.mem_range.mp hd)
  have hperm : (dosOrder cfg disks (List.range n)).Perm (allParts cfg disks (List.range n)) :=
    dosOrder_perm (List.range n)
  rw [← hperm.length_eq] at hroom
  unfold dosOrder at hroom
  rw [List.length_append, List.length_append] at hroom
  -- the three passes, one after the other
  obtain ⟨hfound, hboot⟩ := bootPass_spec (List.range n) (fun _ => 0) ⟨[], false⟩ hsound' (by
    simp only [Init.nUnits, List.length_nil]
    omega)
  have hlen1 := hboot.length
  have hext := extendedPass_adds (List.range n)
    (bootPass cfg bios (List.range n) (fun _ => 0) ⟨[], false⟩).2 hsound' (by
      simp only [Init.nUnits, hlen1, List.length_nil]
      omega)
  have hlen2 := hext.length
  have hrest := primaryPass_adds (bootPass cfg bios (List.range n) (fun _ => 0) ⟨[], false⟩).1
    (List.range n) (extendedPass cfg bios (List.range n)
      (bootPass cfg bios (List.range n) (fun _ => 0) ⟨[], false⟩).2) hsound'
    (fun d hd => by rw [hfound d, if_pos hd]) (by
      simp only [Init.nUnits, hlen2, hlen1, List.length_nil]
      omega)
  have hall : Adds (dosOrder cfg disks (List.range n)) ⟨[], false⟩
      (readAllPartitionTables cfg bios bootdrv) := by
    unfold readAllPartitionTables
    rw [hdrives]
    simp only [horder, Bool.false_eq_true, if_false]
    exact (hboot.trans hext).trans hrest
  obtain ⟨us, hus, hdefs⟩ := hall.units
  rw [List.nil_append] at hus
  refine ⟨?_, hall.letters rfl, hperm, allParts_nodup List.nodup_range hsound'⟩
  rw [hus]
  exact hdefs

/-! ## 6. More disks than the kernel looks at -/

/-- A sector with entries that have an activity byte, a type, a start and a size. -/
def tableSector (entries : List (UInt8 × UInt8 × UInt32 × UInt32)) : Sector := fun k =>
  if k = 0x1fe then 0x55
  else if k = 0x1ff then 0xaa
  else if k < 0x1be then 0
  else
    match entries[(k - 0x1be) / 16]? with
    | none => 0
    | some (bootable, fileSystem, relSect, numSect) =>
      match (k - 0x1be) % 16 with
      | 0 => bootable
      | 4 => fileSystem
      | 8 => relSect.toUInt8
      | 9 => (relSect >>> 8).toUInt8
      | 12 => numSect.toUInt8
      | 13 => (numSect >>> 8).toUInt8
      | _ => 0

/-- Disks with 16 heads and 63 sectors and no LBA, all with the same two tables, at the sectors 0
and 4032. -/
def plainBios (n : Nat) (mbr ebr : Sector) : Bios where
  nrdrives := some n
  extensions := fun _ => none
  lbaParameters := fun _ => none
  parameters := fun _ => some (0xff3f, 0x0f00)
  readdasd := fun _ => 0
  readLBA := fun _ _ _ => none
  readCHS := fun _ chs _ =>
    if chs = ⟨0, 0, 1⟩ then some mbr else if chs = ⟨4, 0, 1⟩ then some ebr else none

def plainConfig : Config := ⟨false, true, false, true⟩

def plainParam (drive : Nat) : DriveParam :=
  ⟨drive ||| 0x80, false, false, UInt32.ofNat (255 * 16 * 63), ⟨255, 16, 63⟩⟩

theorem lbaToCHS_plain (drive : Nat) (s : UInt32) :
    lbaToCHS (plainParam drive) s = lbaToCHS (plainParam 0) s := rfl

theorem plain_readable_mbr {mbr : Sector} (n drive : Nat) (ebr : Sector)
    (h : convPartTableEntryToIntern mbr = some t) :
    Readable (plainBios n mbr ebr) (plainParam drive) drive 0 t := by
  have hchs : lbaToCHS (plainParam drive) 0 = ⟨0, 0, 1⟩ := by
    rw [lbaToCHS_plain]
    decide
  refine ⟨.inr ?_, mbr, h, nofun, fun _ k => ?_⟩
  · rw [hchs]
    exact zero_le 1023
  · rw [hchs]
    rfl

theorem plain_readable_ebr {ebr : Sector} (n drive : Nat) (mbr : Sector)
    (h : convPartTableEntryToIntern ebr = some t) :
    Readable (plainBios n mbr ebr) (plainParam drive) drive 4032 t := by
  have hchs : lbaToCHS (plainParam drive) 4032 = ⟨4, 0, 1⟩ := by
    rw [lbaToCHS_plain]
    decide
  refine ⟨.inr ?_, ebr, h, nofun, fun _ k => ?_⟩
  · rw [hchs]
    decide
  · rw [hchs]
    rfl

/-- An entry, as it is read. -/
def plainEntry (bootable fileSystem : UInt8) (relSect numSect : UInt32) : PartTableEntry :=
  ⟨bootable, fileSystem, ⟨0, 0, 0⟩, ⟨0, 0, 0⟩, relSect, numSect⟩

def noEntry : PartTableEntry := plainEntry 0 0 0 0

theorem plain_usable (drive : Nat) (table : UInt32) (slot : Nat) {entry : PartTableEntry}
    (hsize : entry.numSect ≠ 0)
    (hlow : beyondCHS (plainParam 0) (table + entry.relSect) entry = false) :
    Part.Usable (plainParam drive) ⟨drive, table, slot, entry⟩ :=
  ⟨hsize, fun hno => nomatch hlow.symm.trans hno⟩

/-- Two primary partitions, the second of them active, and a logical one. -/
def threeParts : DiskTables where
  mbr := [plainEntry 0 6 63 945, plainEntry 0x80 4 1008 1008, plainEntry 0 5 4032 4032, noEntry]
  ebrs := [(4032, [plainEntry 0 1 63 945, noEntry, noEntry, noEntry])]

def threePartsBios : Bios :=
  plainBios 2 (tableSector [(0, 6, 63, 945), (0x80, 4, 1008, 1008), (0, 5, 4032, 4032)])
    (tableSector [(0, 1, 63, 945)])

theorem threeParts_sound (drive : Nat) : Sound plainConfig threePartsBios drive threeParts := by
  refine ⟨⟨plainParam drive, rfl, plain_readable_mbr 2 drive _ (by decide +kernel), ?_, ?_⟩,
    by decide, by decide⟩
  · refine Links.link (e := plainEntry 0 5 4032 4032) (by decide)
      (plain_readable_ebr 2 drive _ (by decide +kernel)) (Links.last (by decide))
  · intro p hp
    have hcases : p = ⟨drive, 0, 0, plainEntry 0 6 63 945⟩ ∨
        p = ⟨drive, 0, 1, plainEntry 0x80 4 1008 1008⟩ ∨
        p = ⟨drive, 4032, 0, plainEntry 0 1 63 945⟩ := by
      simpa [primaries, logicals, threeParts, fatParts, isFATPartition, plainEntry,
        noEntry, FAT12, FAT16SMALL, FAT16LARGE, FAT16_LBA, FAT32, FAT32_LBA] using hp
    rcases hcases with rfl | rfl | rfl
    · exact plain_usable drive 0 0 (by decide) (by decide)
    · exact plain_usable drive 0 1 (by decide) (by decide)
    · exact plain_usable drive 4032 0 (by decide) (by decide)

/-- Two such disks: the active partitions, the logical ones, and the others. -/
theorem threeParts_in_order :
    InDosOrder plainConfig (fun _ => threeParts) (List.range 2)
      (readAllPartitionTables plainConfig threePartsBios 0x80).units :=
  letters_in_dos_order plainConfig threePartsBios 0x80 2 (fun _ => threeParts) rfl rfl (by decide)
    (fun d _ => threeParts_sound d) (by decide +kernel)

/-- One primary partition. -/
def onePart : DiskTables where
  mbr := [plainEntry 0x80 6 63 945, noEntry, noEntry, noEntry]
  ebrs := []

def ninePartsBios : Bios := plainBios 9 (tableSector [(0x80, 6, 63, 945)]) (tableSector [])

theorem onePart_sound (drive : Nat) : Sound plainConfig ninePartsBios drive onePart := by
  refine ⟨⟨plainParam drive, rfl, plain_readable_mbr 9 drive _ (by decide +kernel),
    Links.last (by decide), ?_⟩, by decide, by decide⟩
  intro p hp
  have hone : p = ⟨drive, 0, 0, plainEntry 0x80 6 63 945⟩ := by
    simpa [primaries, logicals, onePart, fatParts, isFATPartition, plainEntry, noEntry,
      FAT12, FAT16SMALL, FAT16LARGE, FAT16_LBA, FAT32, FAT32_LBA] using hp
  rw [hone]
  exact plain_usable drive 0 0 (by decide) (by decide)

/-- Nine disks with one partition each: the ninth gets no letter. -/
theorem ninth_disk_ignored :
    (∀ d < 9, Sound plainConfig ninePartsBios d onePart) ∧
      2 + (allParts plainConfig (fun _ => onePart) (List.range 9)).length < NDEV ∧
      ¬ InDosOrder plainConfig (fun _ => onePart) (List.range 9)
        (readAllPartitionTables plainConfig ninePartsBios 0x80).units := by
  refine ⟨fun d _ => onePart_sound d, by decide +kernel, fun h => ?_⟩
  exact nomatch h.order.length_eq

end SdcBoot.InitDisk
