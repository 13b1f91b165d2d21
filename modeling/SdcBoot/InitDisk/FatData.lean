/-
# The default BPB: `CalculateFATData`

For a partition whose boot sector is not known yet `CalculateFATData` makes up the BPB that a
formatter would: sectors per cluster, sectors per FAT, root directory.  For FAT12 it divides; for
FAT16 and FAT32 it doubles the sectors per cluster, a byte, until the clusters are few enough for
the FAT, and not so few that the volume would be taken for a FAT12.

What comes out is usable (`Usable`) just where the size fits the type (`InRange`).  A partition too
small for its type leaves the loop with 0 sectors per cluster, and one that is too large has its FAT
cut off at the type's limit.  Nothing is said of a FAT32 of nearly `2 ^ 32` sectors, where the sum in
front of the division overflows (`SumFits`).
-/
import Mathlib.Algebra.Group.Nat.Defs
import Mathlib.Data.Nat.Basic

namespace SdcBoot.InitDisk.FatData

open Nat

/-! ## 1. `CalculateFATData` -/

def SEC_SIZE : Nat := 512
def DIRENT_SIZE : Nat := 32
def MAXCLUSTSIZE : Nat := 128
def NSECTORFAT12 : Nat := 8
def NFAT : Nat := 2
def FAT_MAGIC : Nat := 4085
def FAT12MAX : Nat := 4085 - 6
def FAT16MAX : Nat := 65525 - 6
def FAT32MAX : Nat := 268435455 - 6

def FAT12 : UInt8 := 0x01
def FAT32 : UInt8 := 0x0b
def FAT32_LBA : UInt8 := 0x0c
def FAT12_LBA : UInt8 := 0xff

def isFat12 (FileSystem : UInt8) : Bool := FileSystem == FAT12 || FileSystem == FAT12_LBA
def isFat32 (FileSystem : UInt8) : Bool := FileSystem == FAT32 || FileSystem == FAT32_LBA

/-- What `CalculateFATData` writes of a `ddt`: fields of `ddt_defbpb`, and `ddt_fstype`. -/
structure Ddt where
  nfat : Nat
  ndirent : Nat
  nreserved : Nat
  nsector : Nat
  nfsect : Nat
  xnfsect : Nat
  xflags : Nat
  xfsversion : Nat
  xrootclst : Nat
  xfsinfosec : Nat
  xbackupsec : Nat
  fstype : String
  deriving DecidableEq

def cdiv (a b : Nat) : Nat := (a + b - 1) / b

/-- One round of the loop: the length of the FAT, and the clusters, 0 if they do not do. -/
def tryClusters (fatdata fatentpersec maxcl nsector : Nat) : Nat × Nat :=
  let divisor := (fatentpersec * nsector + NFAT) % 0x10000
  let fatlength := (fatdata + (2 * nsector + divisor - 1)) % 0x100000000 / divisor
  let clust := (fatdata + 0x100000000 - NFAT * fatlength) % 0x100000000 / nsector
  let maxclust := min (fatlength * fatentpersec) maxcl
  if clust > (maxclust + 0x100000000 - 2) % 0x100000000 then (fatlength, 0)
  else if clust ≤ FAT_MAGIC then (fatlength, 0)
  else (fatlength, clust)

/-- The loop over the sectors per cluster, a byte: `bpb_nsector` and `fatlength` after it. -/
def sizeLoop (fatdata fatentpersec maxcl : Nat) : Nat → Nat → Option (Nat × Nat)
  | 0, _ => none
  | fuel + 1, nsector =>
    let r := tryClusters fatdata fatentpersec maxcl nsector
    if r.2 ≠ 0 then some (nsector, r.1)
    else
      let nsector := nsector * 2 % 0x100
      if nsector ≠ 0 ∧ nsector ≤ MAXCLUSTSIZE then sizeLoop fatdata fatentpersec maxcl fuel nsector
      else some (nsector, r.1)

/-- The sectors per cluster that the FAT specification gives a FAT32 of this size. -/
def fat32Sectors (NumSectors : Nat) : Nat :=
  let sz_gb := NumSectors / 2097152
  if NumSectors ≤ 532480 then 1
  else if sz_gb ≤ 8 then 8
  else if sz_gb ≤ 16 then 16
  else if sz_gb ≤ 32 then 32
  else 64

/-- **`CalculateFATData`**; the answer is `none` if the loop did not end. -/
def CalculateFATData (pddt : Ddt) (NumSectors : UInt32) (FileSystem : UInt8) : Option Ddt :=
  let n := NumSectors.toNat
  let fatdata := (n + 0x100000000 - (DIRENT_SIZE + 1)) % 0x100000000
  let pddt := { pddt with nfat := NFAT, ndirent := 512, nreserved := 1 }
  if isFat12 FileSystem then
    let fatdat := if fatdata > 32640 then 32640 else fatdata % 0x10000
    some { pddt with
      nsector := NSECTORFAT12
      nfsect :=
        cdiv ((fatdat + 2 * NSECTORFAT12) * 3) (SEC_SIZE * 2 * NSECTORFAT12 + NFAT * 3) % 0x10000
      fstype := "FAT12   " }
  else if isFat32 FileSystem then
    (sizeLoop ((n + 0x100000000 - 0x20) % 0x100000000) (SEC_SIZE / 4) FAT32MAX 9
        (fat32Sectors n)).map fun r =>
      { pddt with
        ndirent := 0, nreserved := 0x20, nsector := r.1, nfsect := 0, xnfsect := r.2, xflags := 0,
        xfsversion := 0, xrootclst := 2, xfsinfosec := 1, xbackupsec := 6, fstype := "FAT32   " }
  else
    (sizeLoop (if fatdata > 8386688 then 8386688 else fatdata) (SEC_SIZE / 2) FAT16MAX 9 4).map
      fun r => { pddt with nsector := r.1, nfsect := r.2 % 0x10000, fstype := "FAT16   " }

/-! ## 2. What is usable -/

/-- The sectors of one FAT. -/
def Ddt.fatSectors (q : Ddt) : Nat := if q.nfsect = 0 then q.xnfsect else q.nfsect

/-- The sectors in front of the data. -/
def Ddt.used (q : Ddt) : Nat :=
  q.nreserved + q.nfat * q.fatSectors + q.ndirent * DIRENT_SIZE / SEC_SIZE

/-- The clusters that fit in what remains. -/
def Ddt.clusters (q : Ddt) (n : Nat) : Nat := (n - q.used) / q.nsector

/-- The entries of one FAT. -/
def Ddt.entries (q : Ddt) (FileSystem : UInt8) : Nat :=
  if isFat12 FileSystem then q.fatSectors * SEC_SIZE * 2 / 3
  else if isFat32 FileSystem then q.fatSectors * SEC_SIZE / 4
  else q.fatSectors * SEC_SIZE / 2

def maxClusters (FileSystem : UInt8) : Nat :=
  if isFat12 FileSystem then FAT12MAX else if isFat32 FileSystem then FAT32MAX else FAT16MAX

/-- **A usable BPB** for a partition of `n` sectors: its clusters have entries in the FAT, and they
are neither too many nor too few for the type. -/
structure Usable (q : Ddt) (n : Nat) (FileSystem : UInt8) : Prop where
  power : ∃ k ≤ 7, q.nsector = 2 ^ k
  room : q.used ≤ n
  entries : q.clusters n + 2 ≤ q.entries FileSystem
  most : q.clusters n ≤ maxClusters FileSystem
  least : isFat12 FileSystem = false → FAT_MAGIC < q.clusters n

/-- The sizes that a type is made for. -/
def InRange (n : Nat) (FileSystem : UInt8) : Prop :=
  if isFat12 FileSystem then n ≤ 32696
  else if isFat32 FileSystem then 4182 ≤ n
  else 16409 ≤ n ∧ n ≤ 8387104

instance (n : Nat) (FileSystem : UInt8) : Decidable (InRange n FileSystem) := by
  unfold InRange
  infer_instance

/-- The sum in front of the division fits a long word, for the 64 sectors per cluster of the largest
FAT32. -/
def SumFits (n : Nat) (FileSystem : UInt8) : Prop :=
  isFat32 FileSystem = true → n - 0x20 + (2 * 64 + (SEC_SIZE / 4 * 64 + NFAT) - 1) < 0x100000000

/-! ## 3. One round -/

/-- The length of the FAT and the clusters, without overflow. -/
def fatLen (F e s : Nat) : Nat := (F + (2 * s + (e * s + 2) - 1)) / (e * s + 2)

def clus (F e s : Nat) : Nat := (F - 2 * fatLen F e s) / s

/-- The clusters of a round do. -/
def Does (F e maxcl s : Nat) : Prop := FAT_MAGIC < clus F e s ∧ clus F e s ≤ maxcl - 2

instance (F e maxcl s : Nat) : Decidable (Does F e maxcl s) := inferInstanceAs (Decidable (_ ∧ _))

section Round

variable {F e s : Nat}

/-- A FAT of this length has an entry for every cluster, and two more. -/
theorem fatLen_ge : F + 2 * s ≤ fatLen F e s * (e * s + 2) := by
  have hpos : 0 < e * s + 2 := by omega
  have h := lt_div_mul_add (a := F + (2 * s + (e * s + 2) - 1)) hpos
  unfold fatLen
  omega

theorem fatLen_le (hs : 1 ≤ s) (he : 128 ≤ e) (hF : 67 ≤ F) : 2 * fatLen F e s ≤ F := by
  have hle := div_mul_le_self (F + (2 * s + (e * s + 2) - 1)) (e * s + 2)
  change fatLen F e s * (e * s + 2) ≤ _ at hle
  have hes : 128 * s ≤ e * s := Nat.mul_le_mul_right s he
  by_contra hlt
  obtain ⟨L, hL⟩ : ∃ L, fatLen F e s = L + 2 := ⟨fatLen F e s - 2, by omega⟩
  have hbig : 128 * L ≤ (e * s + 2) * L := Nat.mul_le_mul_right L (by omega)
  rw [hL, mul_comm, Nat.mul_add] at hle
  omega

theorem clus_le : clus F e s ≤ fatLen F e s * e - 2 := by
  have hge := @fatLen_ge F e s
  refine Nat.div_le_of_le_mul ?_
  have heq : fatLen F e s * (e * s + 2) = s * (fatLen F e s * e) + 2 * fatLen F e s := by
    rw [Nat.mul_add, mul_comm (fatLen F e s) 2, mul_comm s, mul_assoc]
  rw [Nat.mul_sub]
  omega

/-- **One round**, where the sums do not overflow: the clusters have entries in the FAT in any
case. -/
theorem tryClusters_eq {maxcl : Nat} (hs : 1 ≤ s) (he : 128 ≤ e) (hF : 67 ≤ F)
    (hD : e * s + 2 < 0x10000) (hsum : F + (2 * s + (e * s + 2) - 1) < 0x100000000)
    (hmax : 2 ≤ maxcl ∧ maxcl < 0x100000000) :
    tryClusters F e maxcl s = (fatLen F e s, if Does F e maxcl s then clus F e s else 0) := by
  have hle := fatLen_le hs he hF
  have hclus := @clus_le F e s
  have hL : 1 ≤ fatLen F e s := by
    have hge := @fatLen_ge F e s
    by_contra hlt
    have hzero : fatLen F e s = 0 := by omega
    rw [hzero, Nat.zero_mul] at hge
    omega
  have hentries : 2 ≤ fatLen F e s * e := by
    have := Nat.mul_le_mul hL he
    omega
  have hlen : (F + (2 * s + (e * s + 2) % 0x10000 - 1)) % 0x100000000 / ((e * s + 2) % 0x10000) =
      fatLen F e s := by
    rw [mod_eq_of_lt hD, mod_eq_of_lt hsum]
    rfl
  have hdata : (F + 0x100000000 - 2 * fatLen F e s) % 0x100000000 = F - 2 * fatLen F e s := by
    omega
  have hlimit : (min (fatLen F e s * e) maxcl + 0x100000000 - 2) % 0x100000000 =
      min (fatLen F e s * e) maxcl - 2 := by
    omega
  unfold tryClusters NFAT
  dsimp only
  rw [hlen, hdata, hlimit]
  change (if clus F e s > _ then _ else if clus F e s ≤ _ then _ else (_, clus F e s)) = _
  by_cases hmost : clus F e s ≤ maxcl - 2
  · rw [if_neg (by omega)]
    by_cases hmagic : FAT_MAGIC < clus F e s
    · rw [if_neg (by omega), if_pos ⟨hmagic, hmost⟩]
    · rw [if_pos (by omega), if_neg fun h => hmagic h.1]
  · rw [if_pos (by omega), if_neg fun h => hmost h.2]

end Round

/-! ## 4. The loop -/

section Loop

variable {F e maxcl s : Nat}

theorem sizeLoop_does (hs : 1 ≤ s ∧ s ≤ 128) (he : 128 ≤ e ∧ e ≤ 256) (hF : 67 ≤ F)
    (hsum : F + 2 * s + e * s + 1 < 0x100000000) (hmax : 2 ≤ maxcl ∧ maxcl < 0x100000000)
    (h : Does F e maxcl s) (fuel : Nat) :
    sizeLoop F e maxcl (fuel + 1) s = some (s, fatLen F e s) := by
  have hes : e * s ≤ 256 * 128 := Nat.mul_le_mul he.2 hs.2
  have htry := tryClusters_eq hs.1 he.1 hF (by omega) (by omega) hmax
  rw [if_pos h] at htry
  have hne : clus F e s ≠ 0 := ne_of_gt (lt_of_le_of_lt (zero_le _) h.1)
  rw [sizeLoop, htry]
  exact if_pos hne

theorem sizeLoop_next (hs : 1 ≤ s ∧ s ≤ 128) (he : 128 ≤ e ∧ e ≤ 256) (hF : 67 ≤ F)
    (hsum : F + 2 * s + e * s + 1 < 0x100000000) (hmax : 2 ≤ maxcl ∧ maxcl < 0x100000000)
    (h : ¬ Does F e maxcl s) (fuel : Nat) :
    sizeLoop F e maxcl (fuel + 1) s =
      if s ≤ 64 then sizeLoop F e maxcl fuel (s * 2) else some (s * 2 % 0x100, fatLen F e s) := by
  have hes : e * s ≤ 256 * 128 := Nat.mul_le_mul he.2 hs.2
  have htry := tryClusters_eq hs.1 he.1 hF (by omega) (by omega) hmax
  rw [if_neg h] at htry
  rw [sizeLoop, htry]
  rw [if_neg fun h => h rfl]
  by_cases hle : s ≤ 64
  · have hmod : s * 2 % 0x100 = s * 2 := mod_eq_of_lt (by omega)
    have hagain : s * 2 ≠ 0 ∧ s * 2 ≤ 128 := by omega
    rw [if_pos hle, hmod]
    exact if_pos hagain
  · rw [if_neg hle, if_neg]
    rintro ⟨h1, h2⟩
    have h2 : s * 2 % 0x100 ≤ 128 := h2
    omega

theorem pow_bounds {i : Nat} (hi : i ≤ 7) : 1 ≤ 2 ^ i ∧ 2 ^ i ≤ 128 :=
  ⟨Nat.one_le_two_pow, Nat.pow_le_pow_right (succ_pos 1) hi⟩

theorem pow_half {j : Nat} (hj : j ≤ 6) : 2 ^ j ≤ 64 :=
  Nat.pow_le_pow_right (succ_pos 1) hj

/-- If no round does, the sectors per cluster are shifted out of the byte. -/
theorem sizeLoop_never (he : 128 ≤ e ∧ e ≤ 256) (hF : 67 ≤ F ∧ F ≤ 8386688)
    (hmax : 2 ≤ maxcl ∧ maxcl < 0x100000000) (fuel : Nat) :
    ∀ k j, j + k = 7 → (∀ i, j ≤ i → i ≤ 7 → ¬ Does F e maxcl (2 ^ i)) →
      ∃ fl, sizeLoop F e maxcl (fuel + k + 1) (2 ^ j) = some (0, fl) := by
  intro k
  induction k with
  | zero =>
    intro j hj hno
    obtain rfl : j = 7 := hj
    rw [sizeLoop_next (by decide) he hF.1 (by omega) hmax (hno 7 le_rfl le_rfl)]
    exact ⟨_, rfl⟩
  | succ k ih =>
    intro j hj hno
    obtain ⟨hlo, hhi⟩ := @pow_bounds j (by omega)
    have hes : e * 2 ^ j ≤ 256 * 128 := Nat.mul_le_mul he.2 hhi
    have h64 : 2 ^ j ≤ 64 := pow_half (by omega)
    rw [sizeLoop_next ⟨hlo, hhi⟩ he hF.1 (by omega) hmax (hno j le_rfl (by omega)),
      if_pos h64, ← Nat.pow_succ]
    exact ih (j + 1) (by omega) fun i hi => hno i (by omega)

/-- A round with too many clusters is followed by one that has enough. -/
theorem enough_next (hs : 1 ≤ s) (h : 65517 < clus F 256 s) : 4085 < clus F 256 (s * 2) := by
  have hF : clus F 256 s * s ≤ F - 2 * fatLen F 256 s := div_mul_le_self _ _
  have hmany : 65518 * s ≤ clus F 256 s * s := Nat.mul_le_mul_right s h
  have hlen := div_mul_le_self (F + (2 * (s * 2) + (256 * (s * 2) + 2) - 1)) (256 * (s * 2) + 2)
  change fatLen F 256 (s * 2) * (256 * (s * 2) + 2) ≤ _ at hlen
  by_contra hfew
  have hlt : F - 2 * fatLen F 256 (s * 2) < 4086 * (s * 2) := by
    refine (Nat.div_lt_iff_lt_mul (by omega)).1 ?_
    change clus F 256 (s * 2) < 4086
    omega
  generalize fatLen F 256 (s * 2) = fl at hlen hlt
  have hone : fl ≤ fl * s := Nat.le_mul_of_pos_right fl hs
  have hmul : fl * (256 * (s * 2) + 2) = 512 * (fl * s) + 2 * fl := by
    rw [Nat.mul_add, Nat.mul_left_comm, ← mul_assoc fl, mul_comm fl 2]
    omega
  omega

/-- The loop for FAT16 over a partition that has enough clusters in the round it is in. -/
theorem sizeLoop_some (hF : 67 ≤ F ∧ F ≤ 8386688) (fuel : Nat) :
    ∀ k j, j + k = 7 → 4085 < clus F 256 (2 ^ j) →
      ∃ i ≤ 7, Does F 256 FAT16MAX (2 ^ i) ∧
        sizeLoop F 256 FAT16MAX (fuel + k + 1) (2 ^ j) = some (2 ^ i, fatLen F 256 (2 ^ i)) := by
  intro k
  induction k with
  | zero =>
    intro j hj hmany
    obtain rfl : j = 7 := hj
    have h128 : clus F 256 (2 ^ 7) ≤ 65517 := by
      have hclus : clus F 256 (2 ^ 7) = (F - 2 * ((F + 33025) / 32770)) / 128 := rfl
      omega
    have hdoes : Does F 256 FAT16MAX (2 ^ 7) := ⟨hmany, h128⟩
    exact ⟨7, le_rfl, hdoes, sizeLoop_does (by decide) (by decide) hF.1 (by omega)
      (by decide) hdoes _⟩
  | succ k ih =>
    intro j hj hmany
    obtain ⟨hlo, hhi⟩ := @pow_bounds j (by omega)
    by_cases hdoes : Does F 256 FAT16MAX (2 ^ j)
    · exact ⟨j, by omega, hdoes, sizeLoop_does ⟨hlo, hhi⟩ (by decide) hF.1 (by omega) (by decide)
        hdoes _⟩
    · have h64 : 2 ^ j ≤ 64 := pow_half (by omega)
      have hover : 65517 < clus F 256 (2 ^ j) := by
        by_contra hle
        exact hdoes ⟨hmany, Nat.le_of_not_lt hle⟩
      rw [sizeLoop_next ⟨hlo, hhi⟩ (by decide) hF.1 (by omega) (by decide) hdoes, if_pos h64,
        ← Nat.pow_succ]
      exact ih (j + 1) (by omega) (enough_next hlo hover)

/-- A round has no more clusters than the data has room for. -/
theorem clus_le_div : clus F e s ≤ F / s := Nat.div_le_div_right (sub_le _ _)

end Loop

/-! ## 5. The three types -/

section Types

variable (pddt : Ddt) {n : UInt32} {FileSystem : UInt8}

/-- The BPB of a FAT12 or a FAT16. -/
def rooted (nsector nfsect : Nat) (fstype : String) : Ddt :=
  { pddt with nfat := 2, ndirent := 512, nreserved := 1, nsector, nfsect, fstype }

theorem rooted_sectors {nsector nfsect : Nat} {fstype : String} (h : nfsect ≠ 0) :
    (rooted pddt nsector nfsect fstype).fatSectors = nfsect := if_neg h

theorem rooted_used {nfsect : Nat} (h : nfsect ≠ 0) (nsector : Nat) (fstype : String) :
    (rooted pddt nsector nfsect fstype).used = 2 * nfsect + 33 := by
  rw [Ddt.used, rooted_sectors pddt h]
  change 1 + 2 * nfsect + 512 * 32 / 512 = 2 * nfsect + 33
  omega

theorem rooted_clusters {nfsect : Nat} (h : nfsect ≠ 0) (nsector : Nat) (fstype : String)
    (n : Nat) :
    (rooted pddt nsector nfsect fstype).clusters n = (n - (2 * nfsect + 33)) / nsector := by
  rw [Ddt.clusters, rooted_used pddt h]
  rfl

/-- The sectors of a FAT12's FAT. -/
def fat12Len (n : Nat) : Nat := (min (n - 33) 32640 * 3 + 8245) / 8198

theorem CalculateFATData_fat12 (hn : 100 ≤ n.toNat) (h12 : isFat12 FileSystem = true) :
    CalculateFATData pddt n FileSystem = some (rooted pddt 8 (fat12Len n.toNat) "FAT12   ") := by
  have hlt := n.toNat_lt
  have hdata : (n.toNat + 0x100000000 - (DIRENT_SIZE + 1)) % 0x100000000 = n.toNat - 33 := by
    unfold DIRENT_SIZE
    omega
  have hcap : (if n.toNat - 33 > 32640 then 32640 else (n.toNat - 33) % 0x10000) =
      min (n.toNat - 33) 32640 := by
    split <;> omega
  have hlen : cdiv ((min (n.toNat - 33) 32640 + 2 * NSECTORFAT12) * 3)
      (SEC_SIZE * 2 * NSECTORFAT12 + NFAT * 3) % 0x10000 = fat12Len n.toNat := by
    have hsum : (min (n.toNat - 33) 32640 + 2 * NSECTORFAT12) * 3 +
        (SEC_SIZE * 2 * NSECTORFAT12 + NFAT * 3) - 1 = min (n.toNat - 33) 32640 * 3 + 8245 := by
      unfold NSECTORFAT12 SEC_SIZE NFAT
      omega
    have hsmall : fat12Len n.toNat < 0x10000 := by
      unfold fat12Len
      omega
    rw [cdiv, hsum, ← mod_eq_of_lt hsmall]
    rfl
  unfold CalculateFATData
  dsimp only
  rw [if_pos h12, hdata, hcap, hlen]
  rfl

theorem fat12_usable (hn : 100 ≤ n.toNat) (h12 : isFat12 FileSystem = true) :
    ∃ q, CalculateFATData pddt n FileSystem = some q ∧
      (Usable q n.toNat FileSystem ↔ InRange n.toNat FileSystem) := by
  refine ⟨_, CalculateFATData_fat12 pddt hn h12, ?_⟩
  have hpos : fat12Len n.toNat ≠ 0 := by
    unfold fat12Len
    omega
  have hrange : InRange n.toNat FileSystem ↔ n.toNat ≤ 32696 := by
    rw [InRange, if_pos h12]
  have hused := rooted_used pddt hpos 8 "FAT12   "
  have hclusters := rooted_clusters pddt hpos 8 "FAT12   " n.toNat
  have hentries : (rooted pddt 8 (fat12Len n.toNat) "FAT12   ").entries FileSystem =
      fat12Len n.toNat * 512 * 2 / 3 := by
    rw [Ddt.entries, if_pos h12, rooted_sectors pddt hpos, SEC_SIZE]
  rw [hrange]
  constructor
  · intro hu
    have hmost := hu.most
    rw [hclusters, maxClusters, if_pos h12, FAT12MAX] at hmost
    unfold fat12Len at *
    omega
  · intro hle
    refine ⟨⟨3, by decide, rfl⟩, ?_, ?_, ?_, fun h => by simp [h12] at h⟩
    · rw [hused]
      unfold fat12Len
      omega
    · rw [hclusters, hentries]
      unfold fat12Len
      omega
    · rw [hclusters, maxClusters, if_pos h12, FAT12MAX]
      unfold fat12Len
      omega

theorem CalculateFATData_fat16 (hn : 100 ≤ n.toNat) (h12 : isFat12 FileSystem = false)
    (h32 : isFat32 FileSystem = false) :
    CalculateFATData pddt n FileSystem =
      (sizeLoop (min (n.toNat - 33) 8386688) 256 FAT16MAX 9 4).map fun r =>
        rooted pddt r.1 (r.2 % 0x10000) "FAT16   " := by
  have hlt := n.toNat_lt
  have hdata : (n.toNat + 0x100000000 - (DIRENT_SIZE + 1)) % 0x100000000 = n.toNat - 33 := by
    unfold DIRENT_SIZE
    omega
  have hcap : (if n.toNat - 33 > 8386688 then 8386688 else n.toNat - 33) =
      min (n.toNat - 33) 8386688 := by
    split <;> omega
  unfold CalculateFATData
  rw [if_neg (by simp [h12]), if_neg (by simp [h32]), hdata, hcap]
  rfl

/-- The FAT of a round for FAT16 that does is at most 256 sectors long. -/
theorem fatLen_small {F s : Nat} (hs : 1 ≤ s) (h : Does F 256 FAT16MAX s) :
    fatLen F 256 s ≤ 256 := by
  have hF : F - 2 * fatLen F 256 s < 65518 * s :=
    (Nat.div_lt_iff_lt_mul (by omega)).1 (lt_succ_of_le h.2)
  have hlen := div_mul_le_self (F + (2 * s + (256 * s + 2) - 1)) (256 * s + 2)
  change fatLen F 256 s * (256 * s + 2) ≤ _ at hlen
  generalize fatLen F 256 s = fl at hF hlen
  have hmul : fl * (256 * s + 2) = 256 * (fl * s) + 2 * fl := by
    rw [Nat.mul_add, Nat.mul_left_comm, mul_comm fl 2]
  have hlt : fl * s < 257 * s := by omega
  exact le_of_lt_succ (Nat.lt_of_mul_lt_mul_right hlt)

/-- Over the limit of FAT16 there are 128 sectors per cluster. -/
theorem does_capped : ∀ i ≤ 7, Does 8386688 256 FAT16MAX (2 ^ i) → i = 7 := by decide

theorem fat16_usable (hn : 100 ≤ n.toNat) (h12 : isFat12 FileSystem = false)
    (h32 : isFat32 FileSystem = false) :
    ∃ q, CalculateFATData pddt n FileSystem = some q ∧
      (Usable q n.toNat FileSystem ↔ InRange n.toNat FileSystem) := by
  have hrange : InRange n.toNat FileSystem ↔ 16409 ≤ n.toNat ∧ n.toNat ≤ 8387104 := by
    rw [InRange, if_neg (by simp [h12]), if_neg (by simp [h32])]
  rw [CalculateFATData_fat16 pddt hn h12 h32, hrange]
  obtain ⟨F, hF⟩ : ∃ F, F = min (n.toNat - 33) 8386688 := ⟨_, rfl⟩
  rw [← hF]
  have hbounds : 67 ≤ F ∧ F ≤ 8386688 := by omega
  have hclus4 : clus F 256 (2 ^ 2) = (F - 2 * ((F + 1033) / 1026)) / 4 := rfl
  by_cases hsmall : F < 16376
  · have hno : ∀ i, 2 ≤ i → i ≤ 7 → ¬ Does F 256 FAT16MAX (2 ^ i) := by
      intro i hi _ hdoes
      have hmany : 4085 < clus F 256 (2 ^ i) := hdoes.1
      rcases Nat.eq_or_lt_of_le hi with rfl | hi
      · omega
      · have h8 : 2 ^ 3 ≤ 2 ^ i := Nat.pow_le_pow_right (by decide) hi
        have hdiv : F / 2 ^ i ≤ F / 8 := div_le_div_left h8 (by decide)
        have hle := @clus_le_div F 256 (2 ^ i)
        omega
    obtain ⟨fl, hloop⟩ := sizeLoop_never (by decide) hbounds (by decide) 3 5 2 rfl hno
    change sizeLoop F 256 FAT16MAX 9 4 = some (0, fl) at hloop
    rw [hloop]
    refine ⟨_, rfl, ?_, fun h => by omega⟩
    rintro ⟨⟨k, -, hk⟩, -⟩
    exact absurd hk (Nat.ne_of_lt Nat.one_le_two_pow)
  · obtain ⟨i, hi, hdoes, hloop⟩ := sizeLoop_some hbounds 3 5 2 rfl (by omega)
    change sizeLoop F 256 FAT16MAX 9 4 = some (2 ^ i, fatLen F 256 (2 ^ i)) at hloop
    rw [hloop]
    refine ⟨_, rfl, ?_⟩
    have hmany : 4085 < clus F 256 (2 ^ i) := hdoes.1
    have hmost : clus F 256 (2 ^ i) ≤ 65517 := hdoes.2
    have hpos : 1 ≤ 2 ^ i := Nat.one_le_two_pow
    have hlong := fatLen_small hpos hdoes
    have hcount := @clus_le F 256 (2 ^ i)
    have hshort : 1 ≤ fatLen F 256 (2 ^ i) := by omega
    have hmod : fatLen F 256 (2 ^ i) % 0x10000 = fatLen F 256 (2 ^ i) :=
      mod_eq_of_lt (by omega)
    change Usable (rooted pddt (2 ^ i) (fatLen F 256 (2 ^ i) % 0x10000) _) _ _ ↔ _
    rw [hmod]
    have hused := rooted_used pddt (ne_of_gt hshort) (2 ^ i) "FAT16   "
    have hclusters :=
      rooted_clusters pddt (ne_of_gt hshort) (2 ^ i) "FAT16   " n.toNat
    have hentries : (rooted pddt (2 ^ i) (fatLen F 256 (2 ^ i)) "FAT16   ").entries FileSystem =
        fatLen F 256 (2 ^ i) * 512 / 2 := by
      rw [Ddt.entries, if_neg (by simp [h12]), if_neg (by simp [h32]),
        rooted_sectors pddt (ne_of_gt hshort), SEC_SIZE]
    generalize hq : rooted pddt (2 ^ i) (fatLen F 256 (2 ^ i)) "FAT16   " = q at *
    have hnsector : q.nsector = 2 ^ i := by
      rw [← hq]
      rfl
    have hmax : maxClusters FileSystem = 65519 := by
      rw [maxClusters, if_neg (by simp [h12]), if_neg (by simp [h32]), FAT16MAX]
    by_cases hcap : n.toNat - 33 ≤ 8386688
    · have hsame : q.clusters n.toNat = clus F 256 (2 ^ i) := by
        rw [hclusters, clus]
        congr 1
        omega
      refine ⟨fun _ => by omega, fun _ => ⟨⟨i, hi, hnsector⟩, ?_, ?_, ?_, fun _ => ?_⟩⟩
      · omega
      · omega
      · omega
      · rw [hsame]
        exact hmany
    · obtain rfl : F = 8386688 := by omega
      obtain rfl := does_capped i hi hdoes
      have hlen : fatLen 8386688 256 (2 ^ 7) = 256 := by decide
      refine ⟨fun hu => ?_, fun h => ⟨⟨7, by decide, hnsector⟩, ?_, ?_, ?_, fun _ => ?_⟩⟩
      · have hle := hu.most
        omega
      · omega
      · omega
      · omega
      · unfold FAT_MAGIC
        omega

/-- The BPB of a FAT32. -/
def fat32Of (nsector xnfsect : Nat) : Ddt :=
  { nfat := 2, ndirent := 0, nreserved := 0x20, nsector, nfsect := 0, xnfsect, xflags := 0,
    xfsversion := 0, xrootclst := 2, xfsinfosec := 1, xbackupsec := 6, fstype := "FAT32   " }

theorem fat32_used (nsector xnfsect : Nat) :
    (fat32Of nsector xnfsect).used = 2 * xnfsect + 32 := by
  change 0x20 + 2 * xnfsect + 0 * 32 / 512 = 2 * xnfsect + 32
  omega

theorem fat32_clusters (nsector xnfsect n : Nat) :
    (fat32Of nsector xnfsect).clusters n = (n - (2 * xnfsect + 32)) / nsector := by
  rw [Ddt.clusters, fat32_used]
  rfl

theorem CalculateFATData_fat32 (hn : 100 ≤ n.toNat) (h12 : isFat12 FileSystem = false)
    (h32 : isFat32 FileSystem = true) :
    CalculateFATData pddt n FileSystem =
      (sizeLoop (n.toNat - 32) 128 FAT32MAX 9 (fat32Sectors n.toNat)).map fun r =>
        fat32Of r.1 r.2 := by
  have hlt := n.toNat_lt
  have hdata : (n.toNat + 0x100000000 - 0x20) % 0x100000000 = n.toNat - 32 := by omega
  unfold CalculateFATData
  rw [if_neg (by simp [h12]), if_pos h32, hdata]
  rfl

/-- Where the size is in range, the first round does. -/
theorem does_first {N : Nat} (h : 4182 ≤ N ∧ N ≤ 4294959006) :
    ∃ k ≤ 6, fat32Sectors N = 2 ^ k ∧ Does (N - 32) 128 FAT32MAX (2 ^ k) ∧
      N - 32 + 2 * 2 ^ k + 128 * 2 ^ k + 1 < 0x100000000 := by
  have hdoes : ∀ k, 4085 < clus (N - 32) 128 (2 ^ k) → clus (N - 32) 128 (2 ^ k) ≤ 268435447 →
      Does (N - 32) 128 FAT32MAX (2 ^ k) := fun _ hmany hmost => ⟨hmany, hmost⟩
  unfold fat32Sectors
  dsimp only
  by_cases h0 : N ≤ 532480
  · have hclus : clus (N - 32) 128 (2 ^ 0) = (N - 32 - 2 * ((N - 32 + 131) / 130)) / 1 := rfl
    exact ⟨0, by decide, if_pos h0, hdoes 0 (by omega) (by omega), by omega⟩
  rw [if_neg h0]
  by_cases h8 : N / 2097152 ≤ 8
  · have hclus : clus (N - 32) 128 (2 ^ 3) = (N - 32 - 2 * ((N - 32 + 1041) / 1026)) / 8 := rfl
    exact ⟨3, by decide, if_pos h8, hdoes 3 (by omega) (by omega), by omega⟩
  rw [if_neg h8]
  by_cases h16 : N / 2097152 ≤ 16
  · have hclus : clus (N - 32) 128 (2 ^ 4) = (N - 32 - 2 * ((N - 32 + 2081) / 2050)) / 16 := rfl
    exact ⟨4, by decide, if_pos h16, hdoes 4 (by omega) (by omega), by omega⟩
  rw [if_neg h16]
  by_cases h32 : N / 2097152 ≤ 32
  · have hclus : clus (N - 32) 128 (2 ^ 5) = (N - 32 - 2 * ((N - 32 + 4161) / 4098)) / 32 := rfl
    exact ⟨5, by decide, if_pos h32, hdoes 5 (by omega) (by omega), by omega⟩
  rw [if_neg h32]
  have hclus : clus (N - 32) 128 (2 ^ 6) = (N - 32 - 2 * ((N - 32 + 8321) / 8194)) / 64 := rfl
  exact ⟨6, by decide, rfl, hdoes 6 (by omega) (by omega), by omega⟩

/-- Two rounds are the most from 64 sectors per cluster on. -/
theorem sizeLoop_ends (F : Nat) : ∃ r, sizeLoop F 128 FAT32MAX 9 64 = some r := by
  rw [sizeLoop]
  split
  · exact ⟨_, rfl⟩
  · rw [if_pos (by decide), sizeLoop]
    split
    · exact ⟨_, rfl⟩
    · exact ⟨_, rfl⟩

theorem fat32_usable (hn : 100 ≤ n.toNat) (h12 : isFat12 FileSystem = false)
    (h32 : isFat32 FileSystem = true) :
    ∃ q, CalculateFATData pddt n FileSystem = some q ∧ (SumFits n.toNat FileSystem →
      (Usable q n.toNat FileSystem ↔ InRange n.toNat FileSystem)) := by
  have hlt : n.toNat < 4294967296 := n.toNat_lt
  have hrange : InRange n.toNat FileSystem ↔ 4182 ≤ n.toNat := by
    rw [InRange, if_neg (by simp [h12]), if_pos h32]
  have hentries : ∀ s fl, (fat32Of s fl).entries FileSystem = fl * 512 / 4 := by
    intro s fl
    rw [Ddt.entries, if_neg (by simp [h12]), if_pos h32]
    rfl
  rw [CalculateFATData_fat32 pddt hn h12 h32, hrange]
  by_cases hin : 4182 ≤ n.toNat ∧ n.toNat ≤ 4294959006
  · obtain ⟨k, hk, hsectors, hdoes, hsum⟩ := does_first hin
    obtain ⟨hpos, hle⟩ := @pow_bounds k (by omega)
    rw [hsectors, sizeLoop_does ⟨hpos, hle⟩ (by decide) (by omega) hsum (by decide) hdoes 8]
    have hmany : 4085 < clus (n.toNat - 32) 128 (2 ^ k) := hdoes.1
    have hmost : clus (n.toNat - 32) 128 (2 ^ k) ≤ 268435447 := hdoes.2
    have hfits := @fatLen_le (n.toNat - 32) 128 (2 ^ k) hpos (by decide) (by omega)
    have hcount := @clus_le (n.toNat - 32) 128 (2 ^ k)
    have hmax : maxClusters FileSystem = 268435449 := by
      rw [maxClusters, if_neg (by simp [h12]), if_pos h32, FAT32MAX]
    have hsame : (fat32Of (2 ^ k) (fatLen (n.toNat - 32) 128 (2 ^ k))).clusters n.toNat =
        clus (n.toNat - 32) 128 (2 ^ k) := by
      rw [fat32_clusters, clus]
      congr 1
      omega
    refine ⟨_, rfl, fun _ => ⟨fun _ => hin.1,
      fun _ => ⟨⟨k, by omega, rfl⟩, ?_, ?_, ?_, fun _ => ?_⟩⟩⟩
    · rw [fat32_used]
      omega
    · rw [hsame, hentries]
      omega
    · rw [hsame]
      omega
    · rw [hsame]
      exact hmany
  · by_cases hsmall : n.toNat < 4182
    · have hno : ∀ i, 0 ≤ i → i ≤ 7 → ¬ Does (n.toNat - 32) 128 FAT32MAX (2 ^ i) := by
        intro i hi _ hdoes
        have hmany : 4085 < clus (n.toNat - 32) 128 (2 ^ i) := hdoes.1
        rcases Nat.eq_or_lt_of_le hi with rfl | hi
        · have hclus : clus (n.toNat - 32) 128 (2 ^ 0) =
            (n.toNat - 32 - 2 * ((n.toNat - 32 + 131) / 130)) / 1 := rfl
          omega
        · have h2 : 2 ^ 1 ≤ 2 ^ i := Nat.pow_le_pow_right (by decide) hi
          have hdiv : (n.toNat - 32) / 2 ^ i ≤ (n.toNat - 32) / 2 :=
            div_le_div_left h2 (by decide)
          have hle := @clus_le_div (n.toNat - 32) 128 (2 ^ i)
          omega
      obtain ⟨fl, hloop⟩ :=
        sizeLoop_never (by decide) ⟨by omega, by omega⟩ (by decide) 1 7 0 rfl hno
      have hsectors : fat32Sectors n.toNat = 2 ^ 0 := if_pos (by omega)
      rw [hsectors, hloop]
      refine ⟨_, rfl, fun _ => ⟨?_, fun h => absurd h (not_le.mpr hsmall)⟩⟩
      rintro ⟨⟨k, -, hk⟩, -⟩
      exact absurd hk (Nat.ne_of_lt Nat.one_le_two_pow)
    · have hlarge : 4294959006 < n.toNat := by omega
      have hsectors : fat32Sectors n.toNat = 64 := by
        unfold fat32Sectors
        rw [if_neg (by omega), if_neg (by omega), if_neg (by omega), if_neg (by omega)]
      obtain ⟨r, hloop⟩ := sizeLoop_ends (n.toNat - 32)
      rw [hsectors, hloop]
      refine ⟨_, rfl, fun hfits => ?_⟩
      have hsum := hfits h32
      rw [SEC_SIZE, NFAT] at hsum
      omega

end Types

/-- **The default BPB is usable just where the size fits the type**, as long as the sum of the FAT32
does not overflow, and the loop always ends. -/
theorem calculate_usable (pddt : Ddt) (n : UInt32) (FileSystem : UInt8) (hn : 100 ≤ n.toNat) :
    ∃ q, CalculateFATData pddt n FileSystem = some q ∧ (SumFits n.toNat FileSystem →
      (Usable q n.toNat FileSystem ↔ InRange n.toNat FileSystem)) := by
  cases h12 : isFat12 FileSystem with
  | true =>
    obtain ⟨q, hq, hiff⟩ := fat12_usable pddt hn h12
    exact ⟨q, hq, fun _ => hiff⟩
  | false =>
    cases h32 : isFat32 FileSystem with
    | true => exact fat32_usable pddt hn h12 h32
    | false =>
      obtain ⟨q, hq, hiff⟩ := fat16_usable pddt hn h12 h32
      exact ⟨q, hq, fun _ => hiff⟩

def blank : Ddt := ⟨0, 0, 0, 0, 0, 0, 0, 0, 0, 0, 0, ""⟩

/-- A gigabyte for FAT16. -/
theorem gigabyte_usable :
    ∃ q, CalculateFATData blank 2097152 0x06 = some q ∧ Usable q 2097152 0x06 := by
  obtain ⟨q, hq, hiff⟩ := calculate_usable blank 2097152 0x06 (by decide)
  exact ⟨q, hq, (hiff nofun).2 (by decide)⟩

/-- **Two megabytes for FAT16** leave 0 sectors per cluster. -/
theorem two_megabytes_none :
    100 ≤ (4096 : UInt32).toNat ∧ ∃ q, CalculateFATData blank 4096 0x06 = some q ∧ q.nsector = 0 ∧
      ¬ Usable q 4096 0x06 := by
  refine ⟨by decide, rooted blank 0 1 "FAT16   ", by decide, rfl, ?_⟩
  rintro ⟨⟨k, -, hk⟩, -⟩
  exact absurd hk (Nat.ne_of_lt Nat.one_le_two_pow)

end SdcBoot.InitDisk.FatData
