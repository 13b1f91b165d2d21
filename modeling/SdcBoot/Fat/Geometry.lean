/-
# From the BIOS parameter block to the drive parameter block

`bpb_to_dpb` computes what the FAT code trusts: where the FAT and the data area start, and the
number of the last cluster.  The BPB is whatever the disk holds, and the arithmetic is in words of
16 bits for FAT12 and FAT16 and in long words for FAT32.  The number of clusters follows from the
size of the data area and is backed down to what the FAT has entries for.

Two things are checked here: that the sectors `link_fat` reads for a cluster (`linkSectors`) lie in
the FAT, and that the sectors of the cluster lie in the volume.  The second needs the areas in front
of the data to fit into the volume, which nothing checks.  The first holds for FAT12 whatever the
BPB says.  A FAT16 with a FAT that would do for FAT12 only is passed through on purpose, and on
FAT32 nothing is backed down.
-/
import SdcBoot.Fat.Table

namespace SdcBoot.Fat

open Lib Block Kernel List

/-! ## 1. `bpb_to_dpb` -/

/-- `bpb`, as far as `bpb_to_dpb` reads it. -/
structure Bpb where
  bpbNbyte : UInt16
  bpbNsector : UInt8
  bpbNreserved : UInt16
  bpbNfat : UInt8
  bpbNdirent : UInt16
  bpbNsize : UInt16
  bpbMdesc : UInt8
  bpbNfsect : UInt16
  bpbHuge : UInt32
  bpbXnfsect : UInt32
  bpbXflags : UInt16
  bpbXrootclst : UInt32
  bpbXfsinfosec : UInt16
  bpbXbackupsec : UInt16
  deriving DecidableEq

/-- `struct dpb`, with what `bpb_to_dpb` sets beside the geometry. -/
structure DriveParms extends Dpb where
  dpbMdb : Nat
  dpbDirents : Nat
  dpbDirstrt : Nat
  dpbFlags : Nat
  dpbXbackupsec : Nat
  dpbXrootclst : Nat
  dpbCluster : Nat
  /-- `dpb_nfreeclst` is the low word of it. -/
  dpbXnfreeclst : Nat
  dpbXcluster : Nat
  deriving DecidableEq

def DIRENT_SIZE : Nat := 32

/-- The loop for `shftcnt`; a byte has eight bits. -/
def shiftCount (nsector : Nat) : Nat → Nat → Nat
  | 0, shftcnt => shftcnt
  | n + 1, shftcnt =>
    if nsector / 2 ^ shftcnt > 1 then shiftCount nsector n (shftcnt + 1) else shftcnt

/-- The number of clusters, when the FAT is too short for it. -/
def shortened (size fatsiz : Nat) : Nat :=
  if size ≥ fatsiz then (fatsiz + 0xffff) % 0x10000 else size

/-- "Make sure the number of FAT sectors is actually enough to hold that many clusters." -/
def backDown (fatsize secsize size : Nat) : Nat :=
  if fatsize * (secsize / 2) ≥ 0x10000 then size
  else if size > FAT_MAGIC then
    if fatsize * (secsize / 2) ≤ FAT_MAGIC then size
    else shortened size (fatsize * (secsize / 2))
  else if fatsize * (secsize / 2) ≥ 0x4000 then size
  else shortened size (fatsize * (secsize / 2) * 4 / 3)

/-- The size of the volume in sectors. -/
def Bpb.size (bpb : Bpb) : Nat :=
  if bpb.bpbNsize.toNat = 0 then bpb.bpbHuge.toNat else bpb.bpbNsize.toNat

/-- `dpb_dirstrt`. -/
def Bpb.dirstrt (bpb : Bpb) : Nat :=
  (bpb.bpbNreserved.toNat + bpb.bpbNfat.toNat * bpb.bpbNfsect.toNat) % 0x10000

/-- `dpb_data`. -/
def Bpb.data (bpb : Bpb) : Nat :=
  (bpb.dirstrt + (bpb.bpbNdirent.toNat + bpb.bpbNbyte.toNat / DIRENT_SIZE + 0xffff) % 0x10000 /
    (bpb.bpbNbyte.toNat / DIRENT_SIZE)) % 0x10000

/-- `dpb_xdata`, on FAT32. -/
def Bpb.xdata (bpb : Bpb) : Nat :=
  (bpb.bpbNreserved.toNat + bpb.bpbNfat.toNat * bpb.bpbXnfsect.toNat) % 0x100000000

/-- Sectors from `data` on, as a long word. -/
def Bpb.rest (bpb : Bpb) (data : Nat) : Nat := (bpb.size + 0x100000000 - data) % 0x100000000

/-- `read_fsinfo`, when the sector holds these numbers. -/
def readFsinfo (nfreeclst cluster : Nat) (d : DriveParms) : DriveParms :=
  if d.dpbXfsinfosec = 0xffff then d
  else { d with
    dpbXnfreeclst := if nfreeclst ≥ d.dpbXsize then XUNKNCLSTFREE else nfreeclst
    dpbXcluster := if cluster < 2 ∨ cluster > d.dpbXsize then UNKNCLUSTER else cluster }

def dpb16to32 (d : DriveParms) : DriveParms :=
  { d with
    dpbXflags := 0
    dpbXfsinfosec := 0xffff
    dpbXbackupsec := 0xffff
    dpbXrootclst := 0
    dpbXdata := d.dpbData
    dpbXsize := d.dpbSize }

/-- The part of `bpb_to_dpb` for every kind of FAT. -/
def bpbToDpb16 (bpb : Bpb) (d : DriveParms) : DriveParms :=
  { d with
    dpbShftcnt := shiftCount bpb.bpbNsector.toNat 8 0
    dpbMdb := bpb.bpbMdesc.toNat
    dpbSecsize := bpb.bpbNbyte.toNat
    dpbClsmask := (bpb.bpbNsector.toNat + 0xff) % 0x100
    dpbFatstrt := bpb.bpbNreserved.toNat
    dpbFats := bpb.bpbNfat.toNat
    dpbDirents := bpb.bpbNdirent.toNat
    dpbFatsize := bpb.bpbNfsect.toNat
    dpbDirstrt := bpb.dirstrt
    dpbData := bpb.data
    dpbSize := backDown bpb.bpbNfsect.toNat bpb.bpbNbyte.toNat
      ((bpb.rest bpb.data / 2 ^ shiftCount bpb.bpbNsector.toNat 8 0 % 0x10000 + 1) % 0x10000)
    dpbFlags := 0
    dpbCluster := UNKNCLUSTER
    dpbXnfreeclst := d.dpbXnfreeclst / 0x10000 * 0x10000 + UNKNCLSTFREE }

/-- The part for FAT32. -/
def bpbToDpb32 (bpb : Bpb) (d : DriveParms) : DriveParms :=
  { d with
    dpbXflags := bpb.bpbXflags.toNat
    dpbXfsinfosec := bpb.bpbXfsinfosec.toNat
    dpbXbackupsec := bpb.bpbXbackupsec.toNat
    dpbDirents := 0
    dpbDirstrt := 0xffff
    dpbSize := 0
    dpbXdata := bpb.xdata
    dpbXsize := (bpb.rest bpb.xdata / 2 ^ d.dpbShftcnt + 1) % 0x100000000
    dpbXrootclst := bpb.bpbXrootclst.toNat }

/-- **`bpb_to_dpb`** into the DPB `d`, where the fsinfo sector holds `nfreeclst` and `cluster`;
`none` is a division by zero. -/
def bpbToDpb (bpb : Bpb) (d : DriveParms) (extended : Bool) (nfreeclst cluster : Nat) :
    Option DriveParms :=
  if bpb.bpbNbyte.toNat / DIRENT_SIZE = 0 then none
  else if extended = false then some (bpbToDpb16 bpb d)
  else
    let d16 := dpb16to32 { bpbToDpb16 bpb d with
      dpbXfatsize := if bpb.bpbNfsect.toNat = 0 then bpb.bpbXnfsect.toNat else bpb.bpbNfsect.toNat
      dpbXcluster := UNKNCLUSTER
      dpbXnfreeclst := XUNKNCLSTFREE }
    some (if d16.isFat32 then readFsinfo nfreeclst cluster (bpbToDpb32 bpb d16) else d16)

/-! ## 2. The sectors of `link_fat` -/

/-- The sectors of the FAT that `link_fat` fetches for a cluster. -/
def linkSectors (v : Dpb) (c : Nat) : List Nat :=
  if v.isFat12 then
    let clussec := c * 3 / (v.dpbSecsize * 2) + v.fatStart
    if c * 3 % (v.dpbSecsize * 2) / 2 ≥ v.dpbSecsize - 1 then [clussec, clussec + 1] else [clussec]
  else if v.isFat16 then [c / (v.dpbSecsize / 2) + v.fatStart]
  else [c / (v.dpbSecsize / 2 / 2) + v.fatStart]

/-- A disk that notes which sectors of the FAT it is asked for, and fails each time. -/
def noting : Handler (BlockOp Mem) (List Nat) := fun _ op s =>
  match op with
  | .block _ blk _ _ => some (none, s ++ [blk])
  | .twoBlocks blk0 blk1 _ => some (none, s ++ [blk0, blk1])
  | .fill .. => none
  | .readDirect .. => none
  | .writeDirect .. => none
  | .flushBuffers => none
  | .mem _ => none

variable {v : Dpb} {c cluster nfreeclst : Nat} {bpb : Bpb} {d d0 : DriveParms}

/-- These are the sectors it asks for. -/
theorem linkFat_sectors (hkind : v.isFat12 = true ∨ v.isFat16 = true ∨ v.isFat32 = true) {x : Nat}
    (hc : 2 ≤ c) (hmax : c ≤ v.maxCluster) (hx : ¬ (x < LONG_BAD ∧ x > v.maxCluster)) :
    (linkFat v c x).exec noting [] = some (1, linkSectors v c) := by
  unfold linkFat linkSectors
  rw [if_neg (by omega), if_neg hx]
  by_cases h12 : v.isFat12 = true
  · rw [if_pos h12, if_pos h12]
    unfold link12 word12
    dsimp only
    by_cases hedge : c * 3 % (v.dpbSecsize * 2) / 2 ≥ v.dpbSecsize - 1
    · rw [if_pos hedge, if_pos hedge]
      rfl
    · rw [if_neg hedge, if_neg hedge]
      rfl
  · rw [if_neg h12, if_neg h12]
    by_cases h16 : v.isFat16 = true
    · rw [if_pos h16, if_pos h16]
      rfl
    · rw [if_neg h16, if_neg h16, if_pos ((hkind.resolve_left h12).resolve_left h16)]
      rfl

/-! ## 3. The numbers -/

theorem shiftCount_pow : ∀ k, k ≤ 7 → shiftCount (2 ^ k) 8 0 = k := by
  decide

/-- Backing down leaves a FAT12 with an entry for every cluster, and a FAT16 too unless its FAT is
let through. -/
theorem backDown_spec {fatsize size : Nat} (hfat : 1 ≤ fatsize) (hsize : size < 0x10000) :
    backDown fatsize 512 size ≤ size ∧
    (backDown fatsize 512 size ≤ FAT_MAGIC →
      backDown fatsize 512 size * 3 / 2 + 2 ≤ fatsize * 512) ∧
    (FAT_MAGIC < backDown fatsize 512 size → backDown fatsize 512 size ≤ FAT_MAGIC16 →
      16 ≤ fatsize → backDown fatsize 512 size < fatsize * 256) := by
  unfold backDown shortened FAT_MAGIC FAT_MAGIC16
  split
  · refine ⟨le_rfl, fun _ => ?_, fun _ _ _ => ?_⟩ <;> omega
  · split
    · split
      · refine ⟨le_rfl, fun _ => ?_, fun _ _ _ => ?_⟩ <;> omega
      · split
        · refine ⟨?_, fun _ => ?_, fun _ _ _ => ?_⟩ <;> omega
        · refine ⟨le_rfl, fun _ => ?_, fun _ _ _ => ?_⟩ <;> omega
    · split
      · refine ⟨le_rfl, fun _ => ?_, fun _ _ _ => ?_⟩ <;> omega
      · have hless : (fatsize * (512 / 2) * 4 / 3 + 0xffff) % 0x10000 =
            fatsize * (512 / 2) * 4 / 3 - 1 := by omega
        split
        · refine ⟨?_, fun _ => ?_, fun _ _ _ => ?_⟩ <;> omega
        · refine ⟨le_rfl, fun _ => ?_, fun _ _ _ => ?_⟩ <;> omega

/-- The clusters that are counted lie in the volume. -/
theorem cluster_in_volume {data size k max : Nat} (hdata : data ≤ size)
    (hmax : max ≤ (size - data) / 2 ^ k + 1) (hc : 2 ≤ c) (hle : c ≤ max) :
    (c - 2) * 2 ^ k + data + (2 ^ k - 1) < size := by
  have hpos : 0 < 2 ^ k := Nat.two_pow_pos k
  have hlast : (c - 1) * 2 ^ k ≤ size - data :=
    le_trans (Nat.mul_le_mul_right _ (by omega)) (Nat.div_mul_le_self (size - data) (2 ^ k))
  have hnext : (c - 1) * 2 ^ k = (c - 2) * 2 ^ k + 2 ^ k := by
    rw [← Nat.succ_mul]
    congr 1
    omega
  omega

/-! ## 4. What the FAT code may rely on -/

/-- Where the data area starts, and how many sectors a FAT has. -/
def Bpb.dataStart (bpb : Bpb) : Nat := if bpb.bpbNfsect.toNat = 0 then bpb.xdata else bpb.data

def Bpb.fatSectors (bpb : Bpb) : Nat :=
  if bpb.bpbNfsect.toNat = 0 then bpb.bpbXnfsect.toNat else bpb.bpbNfsect.toNat

theorem Bpb.size_lt (bpb : Bpb) : bpb.size < 0x100000000 := by
  have h16 := bpb.bpbNsize.toNat_lt
  have h32 := bpb.bpbHuge.toNat_lt
  unfold Bpb.size
  split <;> omega

theorem Bpb.rest_eq {data : Nat} (h : data ≤ bpb.size) : bpb.rest data = bpb.size - data := by
  have := bpb.size_lt
  unfold Bpb.rest
  omega

/-- The cluster and its entry lie where they should. -/
structure Placed (v : Dpb) (bpb : Bpb) (c : Nat) : Prop where
  entry : ∀ b ∈ linkSectors v c, v.fatStart ≤ b ∧ b < v.fatStart + bpb.fatSectors
  copy : v.noMirroring = true →
    v.fatStart + bpb.fatSectors ≤ v.dpbFatstrt + bpb.bpbNfat.toNat * bpb.fatSectors
  sectors : clus2phys v c + v.dpbClsmask < bpb.size

/-- The FAT in use is one of those the volume has. -/
theorem copy_inside {n : Nat} (hnone : v.noMirroring = true) (hactive : v.dpbXflags &&& 0xf < n) :
    v.fatStart + v.dpbXfatsize ≤ v.dpbFatstrt + n * v.dpbXfatsize := by
  have hle : ((v.dpbXflags &&& 0xf) + 1) * v.dpbXfatsize ≤ n * v.dpbXfatsize :=
    Nat.mul_le_mul_right _ hactive
  rw [Nat.succ_mul] at hle
  rw [Dpb.fatStart, if_pos hnone]
  omega

/-- The sectors of an entry that lies in the first `n` sectors of a FAT. -/
theorem linkSectors_in (hbyte : v.dpbSecsize = 512) {n : Nat}
    (h12 : v.isFat12 = true → c * 3 / 2 + 2 ≤ n * 512)
    (h16 : v.isFat12 = false → v.isFat16 = true → c < n * 256)
    (h32 : v.isFat12 = false → v.isFat16 = false → c < n * 128) :
    ∀ b ∈ linkSectors v c, v.fatStart ≤ b ∧ b < v.fatStart + n := by
  intro b hb
  unfold linkSectors at hb
  rw [hbyte] at hb
  split at hb
  · rename_i hk
    have hroom := h12 hk
    split at hb
    · simp only [mem_cons, not_mem_nil, or_false] at hb
      omega
    · simp only [mem_cons, not_mem_nil, or_false] at hb
      omega
  · rename_i hk
    have hk := eq_false_of_ne_true hk
    split at hb
    · rename_i hk'
      have hroom := h16 hk hk'
      simp only [mem_cons, not_mem_nil, or_false] at hb
      omega
    · rename_i hk'
      have hroom := h32 hk (eq_false_of_ne_true hk')
      simp only [mem_cons, not_mem_nil, or_false] at hb
      omega

/-- The geometry of a BPB with a FAT size in its old field. -/
theorem bpbToDpb_old {extended : Bool} (hfat : bpb.bpbNfsect.toNat ≠ 0)
    (h : bpbToDpb bpb d0 extended nfreeclst cluster = some d) :
    d.dpbSecsize = bpb.bpbNbyte.toNat ∧ d.dpbShftcnt = shiftCount bpb.bpbNsector.toNat 8 0 ∧
      d.dpbClsmask = (bpb.bpbNsector.toNat + 0xff) % 0x100 ∧
      d.dpbFatsize = bpb.bpbNfsect.toNat ∧ d.dpbData = bpb.data ∧
      d.dpbSize = backDown bpb.bpbNfsect.toNat bpb.bpbNbyte.toNat
        ((bpb.rest bpb.data / 2 ^ shiftCount bpb.bpbNsector.toNat 8 0 % 0x10000 + 1) % 0x10000) ∧
      d.dpbXnfreeclst % 0x10000 = UNKNCLSTFREE := by
  unfold bpbToDpb at h
  split at h
  · cases h
  · split at h
    · cases h
      exact ⟨rfl, rfl, rfl, rfl, rfl, rfl, Nat.mul_add_mod_self_right _ _ _⟩
    · dsimp only at h
      rw [if_neg] at h
      · cases h
        have hlow : XUNKNCLSTFREE % 0x10000 = UNKNCLSTFREE := by decide
        exact ⟨rfl, rfl, rfl, rfl, rfl, rfl, hlow⟩
      · simp only [Dpb.isFat32, dpb16to32, bpbToDpb16, beq_iff_eq]
        exact hfat

/-- The geometry of a BPB with a FAT size in its new field. -/
theorem bpbToDpb_new (hfat : bpb.bpbNfsect.toNat = 0)
    (h : bpbToDpb bpb d0 true nfreeclst cluster = some d) :
    d.dpbSecsize = bpb.bpbNbyte.toNat ∧ d.dpbShftcnt = shiftCount bpb.bpbNsector.toNat 8 0 ∧
      d.dpbClsmask = (bpb.bpbNsector.toNat + 0xff) % 0x100 ∧
      d.dpbFatsize = 0 ∧ d.dpbSize = 0 ∧ d.dpbXdata = bpb.xdata ∧
      d.dpbXfatsize = bpb.bpbXnfsect.toNat ∧
      d.dpbXsize = (bpb.rest bpb.xdata / 2 ^ shiftCount bpb.bpbNsector.toNat 8 0 + 1) %
        0x100000000 ∧
      (d.dpbXnfreeclst = XUNKNCLSTFREE ∨ d.dpbXnfreeclst < d.dpbXsize) := by
  unfold bpbToDpb at h
  split at h
  · cases h
  · rw [if_neg (by simp)] at h
    dsimp only at h
    rw [if_pos] at h
    · cases h
      unfold readFsinfo
      split
      · exact ⟨rfl, rfl, rfl, hfat, rfl, rfl, rfl, rfl, .inl rfl⟩
      · refine ⟨rfl, rfl, rfl, hfat, rfl, rfl, rfl, rfl, ?_⟩
        dsimp only
        split
        · exact .inl rfl
        · exact .inr (by omega)
    · simp only [Dpb.isFat32, beq_iff_eq]
      exact hfat

/-- The BPB of a diskette of 1440 KB. -/
def disketteBpb : Bpb where
  bpbNbyte := 512
  bpbNsector := 1
  bpbNreserved := 1
  bpbNfat := 2
  bpbNdirent := 224
  bpbNsize := 2880
  bpbMdesc := 0xf0
  bpbNfsect := 9
  bpbHuge := 0
  bpbXnfsect := 0
  bpbXflags := 0
  bpbXrootclst := 0
  bpbXfsinfosec := 0
  bpbXbackupsec := 0

/-- A DPB before the first use of its drive. -/
def blankParms : DriveParms where
  dpbUnit := 0
  dpbSecsize := 0
  dpbClsmask := 0
  dpbShftcnt := 0
  dpbFatstrt := 0
  dpbFats := 0
  dpbData := 0
  dpbSize := 0
  dpbFatsize := 0
  dpbXflags := 0
  dpbXfsinfosec := 0
  dpbXdata := 0
  dpbXsize := 0
  dpbXfatsize := 0
  dpbMdb := 0
  dpbDirents := 0
  dpbDirstrt := 0
  dpbFlags := 0
  dpbXbackupsec := 0
  dpbXrootclst := 0
  dpbCluster := 0
  dpbXnfreeclst := 0
  dpbXcluster := 0

/-- What is made of it. -/
def disketteParms : DriveParms := bpbToDpb16 disketteBpb blankParms

/-- A volume of 8000 sectors with a FAT of 15: room for 3840 entries of a FAT16. -/
def shortFat16 : Bpb := { disketteBpb with bpbNsize := 8000, bpbNfsect := 15 }

/-- A FAT32 volume of 100000 sectors, with a FAT of one. -/
def shortFat32 : Bpb :=
  { disketteBpb with
    bpbNdirent := 0, bpbNsize := 0, bpbNfsect := 0, bpbHuge := 100000, bpbXnfsect := 1,
    bpbXfsinfosec := 0xffff }

/-- A diskette of four sectors whose FATs and directory would take 33. -/
def smallerThanItsFats : Bpb := { disketteBpb with bpbNsize := 4 }

end SdcBoot.Fat
