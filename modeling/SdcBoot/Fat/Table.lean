/-
# The file allocation table

`link_fat` reads or writes one entry of the FAT, which is packed into sectors in one of three ways:
12 bits to an entry (which may straddle two sectors), 16 bits, or 28 bits in a long word.
Everything above it sees a function from clusters to links, and this file says so: `link` decodes
the entry of a cluster from the bytes of the disk, reading it with `link_fat` returns exactly that
(`linkFat_read`), and writing it changes the link of that one cluster and nothing else that matters
(`linkFat_write`).

The packing is treated once: the sectors of the FAT are one array of bytes, and a write changes the
bytes of the entry's place in it.  For 12 bits the place of a neighbour shares a byte, and the proof
is that the nibble of the neighbour survives.  The number of free clusters and, on FAT32, the fsinfo
sector are modelled too, and shown to stay out of the way.
-/
import SdcBoot.Fat.Disk
import SdcBoot.Kernel.Sft

namespace SdcBoot.Fat

open Lib Block Kernel Function Option Bool Nat

/-! ## 1. The drive parameter block -/

/-- `struct dpb`, the part that does not change while the volume is in use. -/
structure Dpb where
  dpbUnit : Nat
  dpbSecsize : Nat
  dpbClsmask : Nat
  dpbShftcnt : Nat
  dpbFatstrt : Nat
  dpbFats : Nat
  dpbData : Nat
  dpbSize : Nat
  dpbFatsize : Nat
  dpbXflags : Nat
  dpbXfsinfosec : Nat
  dpbXdata : Nat
  dpbXsize : Nat
  dpbXfatsize : Nat
  deriving DecidableEq

/-- The memory the file system keeps outside the buffers: what changes in the DPB, where
`dpb_nfreeclst` is the low word of `dpb_xnfreeclst`, and the system file table. -/
structure Mem where
  dpbCluster : Nat
  dpbXnfreeclst : Nat
  dpbXcluster : Nat
  sfthead : List (List Sft)
  shareInstalled : Bool
  deriving DecidableEq

/-- A program of the file system. -/
abbrev FatProg : Type → Type 1 := Prog (BlockOp Mem)

def FREE : Nat := 0
def READ_CLUSTER : Nat := 1
def LONG_LAST_CLUSTER : Nat := 0x0fffffff
def LONG_BAD : Nat := 0x0ffffff7
def MASK16 : Nat := 0xfff8
def BAD16 : Nat := 0xfff7
def MASK12 : Nat := 0xff8
def BAD12 : Nat := 0xff7
def FAT_MAGIC : Nat := 4085
def FAT_MAGIC16 : Nat := 65525
def FAT_NO_MIRRORING : Nat := 0x80
def UNKNCLUSTER : Nat := 0
def XUNKNCLSTFREE : Nat := 0xffffffff
def UNKNCLSTFREE : Nat := 0xffff

/-- `ISFAT32`. -/
def Dpb.isFat32 (v : Dpb) : Bool := v.dpbFatsize == 0

/-- `ISFAT16`. -/
def Dpb.isFat16 (v : Dpb) : Bool := decide (FAT_MAGIC < v.dpbSize) && decide (v.dpbSize ≤ FAT_MAGIC16)

/-- `ISFAT12`: `dpb_size - 1 < FAT_MAGIC` as unsigned numbers. -/
def Dpb.isFat12 (v : Dpb) : Bool := decide (1 ≤ v.dpbSize) && decide (v.dpbSize ≤ FAT_MAGIC)

def Dpb.maxCluster (v : Dpb) : Nat := if v.isFat32 then v.dpbXsize else v.dpbSize

/-- Only one FAT is kept up to date. -/
def Dpb.noMirroring (v : Dpb) : Bool := v.isFat32 && hasBits v.dpbXflags FAT_NO_MIRRORING

/-- The first sector of the FAT in use. -/
def Dpb.fatStart (v : Dpb) : Nat :=
  v.dpbFatstrt + if v.noMirroring then (v.dpbXflags &&& 0xf) * v.dpbXfatsize else 0

/-- What `getFATblock` notes in its buffers. -/
def Dpb.area (v : Dpb) : FatArea where
  unit := v.dpbUnit
  start := v.fatStart
  copies := if v.noMirroring then 1 else v.dpbFats
  offset := v.dpbFatsize
  xfatsize := v.dpbXfatsize

/-- The data area starts here. -/
def Dpb.dataStart (v : Dpb) : Nat := if v.isFat32 then v.dpbXdata else v.dpbData

def clus2phys (v : Dpb) (clNo : Nat) : Nat := (clNo - 2) * 2 ^ v.dpbShftcnt + v.dataStart

/-- The fsinfo sector, where there is one. -/
def Dpb.IsInfo (v : Dpb) (b : Nat) : Prop :=
  v.isFat32 = true ∧ v.dpbXfsinfosec ≠ 0xffff ∧ b = v.dpbXfsinfosec

/-- A sector that no FAT entry and no fsinfo field lies in. -/
def Dpb.Plain (v : Dpb) (b : Nat) : Prop :=
  ¬ v.area.isFat b ∧ ¬ v.IsInfo b

/-- The bytes an entry takes, up to its last. -/
def Dpb.entryEnd (v : Dpb) (c : Nat) : Nat :=
  if v.isFat12 then 3 * c / 2 + 2 else if v.isFat16 then 2 * c + 2 else 4 * c + 4

/-- **A volume whose parameters make sense**: one of the three kinds, with room for an entry of
every cluster in the FAT, and the FAT, the fsinfo sector and the data area apart.  `link_fat` has the
nibbles of a sector in a word. -/
structure Dpb.WF (v : Dpb) : Prop where
  secsize : 4 ∣ v.dpbSecsize
  secsizePos : 0 < v.dpbSecsize
  secsizeWord : v.dpbSecsize * 2 < 0x10000
  clsmask : v.dpbClsmask + 1 = 2 ^ v.dpbShftcnt
  kind : (v.isFat12 = true ∧ v.isFat32 = false) ∨ (v.isFat16 = true ∧ v.isFat32 = false) ∨
    (v.isFat32 = true ∧ v.dpbSize = 0 ∧ v.dpbXsize < LONG_BAD)
  clusters : 2 ≤ v.maxCluster
  copies : 1 ≤ v.area.copies
  room : v.entryEnd v.maxCluster ≤ v.area.stride * v.dpbSecsize
  dataFar : v.area.start + v.area.copies * v.area.stride ≤ v.dataStart
  infoFar : v.isFat32 = true → v.dpbXfsinfosec ≠ 0xffff →
    v.dpbXfsinfosec < v.area.start ∧ v.dpbXfsinfosec < v.dataStart

/-! ## 2. Bytes -/

def byte (n : Nat) : UInt8 := UInt8.ofNat n

@[simp] theorem byte_toNat (n : Nat) : (byte n).toNat = n % 256 := by
  simp [byte]

/-- `fgetword`. -/
def getword (s : Sector) (o : Nat) : Nat := (s o).toNat + 256 * (s (o + 1)).toNat

/-- `fputword`. -/
def putword (s : Sector) (o x : Nat) : Sector :=
  Function.update (Function.update s o (byte x)) (o + 1) (byte (x / 256))

/-- `fgetlong`. -/
def getlong (s : Sector) (o : Nat) : Nat := getword s o + 0x10000 * getword s (o + 2)

/-- `fputlong`. -/
def putlong (s : Sector) (o x : Nat) : Sector := putword (putword s o x) (o + 2) (x / 0x10000)

/-! ## 3. `link_fat` -/

/-- The kernel's memory, read. -/
def getMem : FatProg Mem := .perform (.mem id)

def setMem (f : Mem → Mem) : FatProg Mem := .perform (.mem f)

/-- `getFATblock`, with the change its caller makes. -/
def getFATblock (blk : Nat) (edit : Sector → Option Sector) : FatProg (Option Sector) :=
  .perform (.block .fat blk edit false)

/-- `write_fsinfo`. -/
def writeFsinfo (v : Dpb) : FatProg Unit :=
  if v.dpbXfsinfosec = 0xffff then pure ()
  else do
    let m ← getMem
    let _ ← Prog.perform (.block .info v.dpbXfsinfosec (fun s =>
      if getlong s 0x1e8 ≠ m.dpbXnfreeclst ∨ getlong s 0x1ec ≠ m.dpbXcluster then
        some (putlong (putlong s 0x1e8 m.dpbXnfreeclst) 0x1ec m.dpbXcluster)
      else none) false)
    pure ()

/-- `dpb_nfreeclst += adjust`, in the low word. -/
def Mem.addNfree (adjust : Nat) (m : Mem) : Mem :=
  { m with dpbXnfreeclst :=
      m.dpbXnfreeclst / 0x10000 * 0x10000 + (m.dpbXnfreeclst % 0x10000 + adjust) % 0x10000 }

/-- `dpb_xnfreeclst += adjust`. -/
def Mem.addXnfree (adjust : Nat) (m : Mem) : Mem :=
  { m with dpbXnfreeclst := (m.dpbXnfreeclst + adjust) % 0x100000000 }

/-- By how much the number of free clusters changes; -1 is added as `0xffffffff`. -/
def freeAdjust (cluster2 : Nat) (wasfree : Bool) : Nat :=
  if wasfree = false then 1 else if cluster2 ≠ FREE then 0xffffffff else 0

/-- The end of `link_fat`: update the free space count. -/
def countFree (v : Dpb) (cluster2 : Nat) (wasfree : Bool) : FatProg Nat :=
  if cluster2 = FREE ∨ wasfree = true then do
    let m ← getMem
    if v.isFat32 = true ∧ m.dpbXnfreeclst ≠ XUNKNCLSTFREE then do
      let _ ← setMem (Mem.addXnfree (freeAdjust cluster2 wasfree))
      writeFsinfo v
      pure 0
    else if m.dpbXnfreeclst % 0x10000 ≠ UNKNCLSTFREE then do
      let _ ← setMem (Mem.addNfree (freeAdjust cluster2 wasfree))
      pure 0
    else pure 0
  else pure 0

/-- The entry of an odd cluster is in the upper 12 bits of its word. -/
def unpack12 (cluster1 w : Nat) : Nat := (if cluster1 % 2 = 1 then w / 16 else w) % 4096

def pack12 (cluster1 cluster2 w : Nat) : Nat :=
  if cluster1 % 2 = 1 then w % 16 + cluster2 % 4096 * 16 else w / 4096 * 4096 + cluster2 % 4096

/-- What reading an entry returns. -/
def decode12 (x : Nat) : Nat :=
  if x ≥ MASK12 then LONG_LAST_CLUSTER else if x = BAD12 then LONG_BAD else x

def decode16 (x : Nat) : Nat :=
  if x ≥ MASK16 then LONG_LAST_CLUSTER else if x = BAD16 then LONG_BAD else x

def decode32 (x : Nat) : Nat := if x > LONG_BAD then LONG_LAST_CLUSTER else x

/-- The word a FAT12 entry lies in, perhaps changed.  When its bytes straddle two sectors, both
are held at a time. -/
def word12 (v : Dpb) (clussec idx : Nat) (edit : Nat → Option Nat) : FatProg (Option Nat) :=
  if idx ≥ v.dpbSecsize - 1 then do
    let bp ← Prog.perform (.twoBlocks clussec (clussec + 1) fun s s1 =>
      (edit ((s idx).toNat + 256 * (s1 0).toNat)).map fun w =>
        (Function.update s idx (byte w), Function.update s1 0 (byte (w / 256))))
    pure (bp.map fun s => (s.1 idx).toNat + 256 * (s.2 0).toNat)
  else do
    let bp ← getFATblock clussec fun s => (edit (getword s idx)).map (putword s idx)
    pure (bp.map fun s => getword s idx)

def link12 (v : Dpb) (cluster1 cluster2 : Nat) : FatProg Nat := do
  let idx := cluster1 * 3 % (v.dpbSecsize * 2) / 2
  let clussec := cluster1 * 3 / (v.dpbSecsize * 2) + v.fatStart
  let word ← word12 v clussec idx fun w =>
    if cluster2 % 0x10000 = READ_CLUSTER then none else some (pack12 cluster1 cluster2 w)
  match word with
  | none => pure 1
  | some w =>
    if cluster2 % 0x10000 = READ_CLUSTER then pure (decode12 (unpack12 cluster1 w))
    else countFree v cluster2 (unpack12 cluster1 w == FREE)

def link16 (v : Dpb) (cluster1 cluster2 : Nat) : FatProg Nat := do
  let idx := cluster1 % (v.dpbSecsize / 2)
  let clussec := cluster1 / (v.dpbSecsize / 2) + v.fatStart
  let bp ← getFATblock clussec fun s =>
    if cluster2 % 0x10000 = READ_CLUSTER then none else some (putword s (idx * 2) cluster2)
  match bp with
  | none => pure 1
  | some s =>
    if cluster2 % 0x10000 = READ_CLUSTER then pure (decode16 (getword s (idx * 2)))
    else countFree v cluster2 (getword s (idx * 2) == FREE)

def link32 (v : Dpb) (cluster1 cluster2 : Nat) : FatProg Nat := do
  let idx := cluster1 % (v.dpbSecsize / 2 / 2)
  let clussec := cluster1 / (v.dpbSecsize / 2 / 2) + v.fatStart
  let bp ← getFATblock clussec fun s =>
    if cluster2 = READ_CLUSTER then none
    else some (putlong s (idx * 4) (cluster2 % 0x10000000))
  match bp with
  | none => pure 1
  | some s =>
    if cluster2 = READ_CLUSTER then pure (decode32 (getlong s (idx * 4) % 0x10000000))
    else countFree v cluster2 (getlong s (idx * 4) % 0x10000000 == FREE)

/-- **`link_fat`**: read the entry of `cluster1` when `cluster2` is READ_CLUSTER, and write
`cluster2` to it otherwise.  1 is returned on an error. -/
def linkFat (v : Dpb) (cluster1 cluster2 : Nat) : FatProg Nat :=
  if cluster1 ≤ 1 ∨ cluster1 > v.maxCluster then pure 1
  else if cluster2 < LONG_BAD ∧ cluster2 > v.maxCluster then pure 1
  else if v.isFat12 then link12 v cluster1 cluster2
  else if v.isFat16 then link16 v cluster1 cluster2
  else if v.isFat32 then link32 v cluster1 cluster2
  else pure 1

/-- `next_cluster`: the link of the cluster, unless the cluster it leads to is free or leads out of
range. -/
def nextCluster (v : Dpb) (clusterNum : Nat) : FatProg Nat := do
  let candidate ← linkFat v clusterNum READ_CLUSTER
  if candidate < 2 ∨ candidate ≥ LONG_BAD then pure candidate
  else
    let following ← linkFat v candidate READ_CLUSTER
    if following < 2 ∨ (following < LONG_BAD ∧ following > v.maxCluster) then pure 1
    else pure candidate

/-- `is_free_cluster`. -/
def isFreeCluster (v : Dpb) (clusterNum : Nat) : FatProg Bool := do
  let link ← linkFat v clusterNum READ_CLUSTER
  pure (link == FREE)

/-! ## 4. The FAT as bytes, and as links -/

/-- Byte `o` of the FAT in use. -/
def fatByte (v : Dpb) (disk : Nat → Sector) (o : Nat) : Nat :=
  (disk (v.fatStart + o / v.dpbSecsize) (o % v.dpbSecsize)).toNat

/-- **The link of a cluster**, as the bytes of the disk have it. -/
def link (v : Dpb) (disk : Nat → Sector) (c : Nat) : Nat :=
  if v.isFat12 then
    decode12 (unpack12 c (fatByte v disk (3 * c / 2) + 256 * fatByte v disk (3 * c / 2 + 1)))
  else if v.isFat16 then decode16 (fatByte v disk (2 * c) + 256 * fatByte v disk (2 * c + 1))
  else decode32 ((fatByte v disk (4 * c) + 256 * fatByte v disk (4 * c + 1) +
    0x10000 * (fatByte v disk (4 * c + 2) + 256 * fatByte v disk (4 * c + 3))) % 0x10000000)

/-- A store to byte `p` of the FAT. -/
def poke (v : Dpb) (disk : Nat → Sector) (p : Nat) (x : UInt8) : Nat → Sector :=
  Function.update disk (v.fatStart + p / v.dpbSecsize)
    (Function.update (disk (v.fatStart + p / v.dpbSecsize)) (p % v.dpbSecsize) x)

theorem fatByte_lt (v : Dpb) (disk : Nat → Sector) (o : Nat) : fatByte v disk o < 256 :=
  UInt8.toNat_lt _

theorem fatByte_poke (v : Dpb) (disk : Nat → Sector) (p o : Nat) (x : UInt8) :
    fatByte v (poke v disk p x) o = if o = p then x.toNat else fatByte v disk o := by
  unfold fatByte poke
  by_cases hblk : o / v.dpbSecsize = p / v.dpbSecsize
  · rw [hblk, update_self]
    by_cases hoff : o % v.dpbSecsize = p % v.dpbSecsize
    · have heq : o = p := by
        rw [← div_add_mod o v.dpbSecsize, ← div_add_mod p v.dpbSecsize, hblk, hoff]
      rw [if_pos heq, hoff, update_self]
    · rw [if_neg fun heq => hoff (by rw [heq]), update_of_ne hoff]
  · have hne : v.fatStart + o / v.dpbSecsize ≠ v.fatStart + p / v.dpbSecsize := by omega
    rw [if_neg fun heq => hblk (by rw [heq]), update_of_ne hne]

variable {v : Dpb} {disk : Nat → Sector} {b c p s x : Nat}

theorem poke_plain {x : UInt8}
    (h : b ≠ v.fatStart + p / v.dpbSecsize) : poke v disk p x b = disk b :=
  update_of_ne h ..

/-- Bytes of one sector have one block number. -/
theorem same_sector {k : Nat} (h : p % s + k < s) :
    (p + k) / s = p / s ∧ (p + k) % s = p % s + k := by
  have hdm := div_add_mod p s
  have hp : p + k = (p % s + k) + s * (p / s) := by omega
  constructor
  · rw [hp, add_mul_div_left _ _ (by omega), div_eq_of_lt h, zero_add]
  · rw [hp, add_mul_mod_self_left, mod_eq_of_lt h]

theorem next_sector (h : p % s + 1 = s) : (p + 1) / s = p / s + 1 ∧ (p + 1) % s = 0 := by
  have hdm := div_add_mod p s
  have hp : p + 1 = s * (p / s + 1) := by
    rw [mul_add, mul_one]
    omega
  constructor
  · rw [hp, Nat.mul_div_cancel_left _ (by omega)]
  · rw [hp, mul_mod_right]

/-- Two bytes of one sector. -/
theorem poke_putword (disk : Nat → Sector) (x : Nat) (h : p % v.dpbSecsize + 1 < v.dpbSecsize) :
    update disk (v.fatStart + p / v.dpbSecsize)
      (putword (disk (v.fatStart + p / v.dpbSecsize)) (p % v.dpbSecsize) x) =
        poke v (poke v disk p (byte x)) (p + 1) (byte (x / 256)) := by
  obtain ⟨hdiv, hmod⟩ := same_sector h
  unfold poke
  rw [hdiv, hmod, update_self, update_idem]
  rfl

/-- Two bytes across the border of two sectors. -/
theorem poke_straddle (disk : Nat → Sector) (x y : UInt8)
    (h : p % v.dpbSecsize + 1 = v.dpbSecsize) :
    update (update disk (v.fatStart + p / v.dpbSecsize + 1)
        (update (disk (v.fatStart + p / v.dpbSecsize + 1)) 0 y))
      (v.fatStart + p / v.dpbSecsize)
      (update (disk (v.fatStart + p / v.dpbSecsize)) (p % v.dpbSecsize) x) =
        poke v (poke v disk p x) (p + 1) y := by
  obtain ⟨hdiv, hmod⟩ := next_sector h
  unfold poke
  rw [hdiv, hmod, ← add_assoc, update_of_ne (a := v.fatStart + p / v.dpbSecsize + 1)
    (by omega), update_comm (by omega)]

theorem fatByte_two (disk : Nat → Sector) (h : p % v.dpbSecsize + 1 < v.dpbSecsize) :
    getword (disk (v.fatStart + p / v.dpbSecsize)) (p % v.dpbSecsize) =
      fatByte v disk p + 256 * fatByte v disk (p + 1) := by
  obtain ⟨hdiv, hmod⟩ := same_sector h
  unfold fatByte getword
  rw [hdiv, hmod]

/-! ## 5. An entry keeps out of its neighbours -/

/-- **The nibble of the neighbour survives.** -/
theorem unpack12_packed (B : Nat → Nat) (hB : ∀ o, B o < 256) (c d x w : Nat)
    (hw : w = pack12 c x (B (3 * c / 2) + 256 * B (3 * c / 2 + 1))) (B' : Nat → Nat)
    (hB' : ∀ o, B' o = if o = 3 * c / 2 + 1 then w / 256 % 256
      else if o = 3 * c / 2 then w % 256 else B o) :
    unpack12 d (B' (3 * d / 2) + 256 * B' (3 * d / 2 + 1)) =
      if d = c then x % 4096 else unpack12 d (B (3 * d / 2) + 256 * B (3 * d / 2 + 1)) := by
  have h0 := hB (3 * c / 2)
  have h1 := hB (3 * c / 2 + 1)
  rw [hB', hB']
  by_cases hdc : d = c
  · subst hdc
    rw [if_pos rfl, if_neg (by omega), if_pos rfl, if_pos rfl]
    rcases mod_two_eq_zero_or_one d with hd | hd
    · simp only [pack12, unpack12, hd, Nat.zero_ne_one, if_false] at hw ⊢
      omega
    · simp only [pack12, unpack12, hd, if_true] at hw ⊢
      omega
  · rw [if_neg hdc]
    by_cases hprev : 3 * d / 2 + 1 = 3 * c / 2
    · -- the cluster before an odd one shares its upper byte
      rw [if_neg (by omega), if_neg (by omega), if_neg (by omega), if_pos hprev, hprev]
      have hd : d % 2 = 0 := by omega
      have hc : c % 2 = 1 := by omega
      simp only [pack12, unpack12, hd, hc, Nat.zero_ne_one, if_false, if_true] at hw ⊢
      omega
    · by_cases hnext : 3 * d / 2 = 3 * c / 2 + 1
      · -- the cluster after an even one shares its lower byte
        rw [if_pos hnext, if_neg (by omega), if_neg (by omega), hnext]
        have hd : d % 2 = 1 := by omega
        have hc : c % 2 = 0 := by omega
        simp only [pack12, unpack12, hd, hc, Nat.zero_ne_one, if_false, if_true] at hw ⊢
        omega
      · have hsame : 3 * d / 2 ≠ 3 * c / 2 := by omega
        rw [if_neg hnext, if_neg hsame, if_neg (by omega), if_neg hprev]

/-! ## 6. Reading an entry -/

theorem Dpb.WF.fat_block (hv : v.WF) (hp : p < v.area.stride * v.dpbSecsize) :
    v.area.isFat (v.fatStart + p / v.dpbSecsize) := by
  have hlt : p / v.dpbSecsize < v.area.stride := (Nat.div_lt_iff_lt_mul hv.secsizePos).mpr hp
  refine ⟨Nat.le_add_right _ _, ?_⟩
  change v.fatStart + p / v.dpbSecsize < v.fatStart + v.area.stride
  omega

theorem exec_getFATblock {blk : Nat} (hb : v.area.isFat blk) (edit : Sector → Option Sector)
    (f : Flat Mem) :
    (getFATblock blk edit).exec (flat Mem v.area) f =
      some (some (f.disk blk), f.change blk (edit (f.disk blk))) := by
  rw [getFATblock, Prog.exec_perform]
  simp only [flat]
  rw [if_neg]
  rintro (hm | ⟨-, hnot⟩)
  · exact hb.not_mirror hm
  · exact hnot hb

theorem exec_twoBlocks {blk : Nat} (h0 : v.area.isFat blk) (h1 : v.area.isFat (blk + 1))
    (edit : Sector → Sector → Option (Sector × Sector)) (f : Flat Mem) :
    (Prog.perform (.twoBlocks blk (blk + 1) edit)).exec (flat Mem v.area) f =
      some (some (f.disk blk, f.disk (blk + 1)),
        (f.change (blk + 1) ((edit (f.disk blk) (f.disk (blk + 1))).map Prod.snd)).change blk
          ((edit (f.disk blk) (f.disk (blk + 1))).map Prod.fst)) := by
  rw [Prog.exec_perform]
  simp only [flat]
  rw [if_pos ⟨h0, h1, by omega⟩]

/-- The disk after byte `p` and the next were given the word `w`, if one was given. -/
def pokeWord (v : Dpb) (disk : Nat → Sector) (p : Nat) : Option Nat → Nat → Sector
  | none => disk
  | some w => poke v (poke v disk p (byte w)) (p + 1) (byte (w / 256))

def Flat.poked (f : Flat Mem) (v : Dpb) (p : Nat) (new : Option Nat) : Flat Mem :=
  { f with disk := pokeWord v f.disk p new }

theorem word12_spec (hv : v.WF) (hp : p + 1 < v.area.stride * v.dpbSecsize)
    (edit : Nat → Option Nat) (f : Flat Mem) :
    (word12 v (v.fatStart + p / v.dpbSecsize) (p % v.dpbSecsize) edit).exec (flat Mem v.area) f =
      some (some (fatByte v f.disk p + 256 * fatByte v f.disk (p + 1)),
        f.poked v p (edit (fatByte v f.disk p + 256 * fatByte v f.disk (p + 1)))) := by
  have hpos := hv.secsizePos
  have hmod := mod_lt p hpos
  have hb0 : v.area.isFat (v.fatStart + p / v.dpbSecsize) := hv.fat_block (by omega)
  unfold word12
  by_cases hstr : p % v.dpbSecsize ≥ v.dpbSecsize - 1
  · have hlast : p % v.dpbSecsize + 1 = v.dpbSecsize := by omega
    obtain ⟨hdiv, hzero⟩ : (p + 1) / v.dpbSecsize = p / v.dpbSecsize + 1 ∧
        (p + 1) % v.dpbSecsize = 0 := next_sector hlast
    have hb1 : v.area.isFat (v.fatStart + p / v.dpbSecsize + 1) := by
      have := hv.fat_block hp
      rwa [hdiv, ← add_assoc] at this
    have hword : (f.disk (v.fatStart + p / v.dpbSecsize) (p % v.dpbSecsize)).toNat +
        256 * (f.disk (v.fatStart + p / v.dpbSecsize + 1) 0).toNat =
          fatByte v f.disk p + 256 * fatByte v f.disk (p + 1) := by
      simp only [fatByte, hdiv, hzero, add_assoc]
    rw [if_pos hstr, Prog.exec_bind, exec_twoBlocks hb0 hb1]
    simp only [hword, bind_some, map_some, Prog.exec_pure]
    cases edit (fatByte v f.disk p + 256 * fatByte v f.disk (p + 1)) with
    | none => rfl
    | some w =>
      simp only [map_some, Flat.change, Flat.poked, pokeWord, ← poke_straddle f.disk _ _ hlast]
  · have hin : p % v.dpbSecsize + 1 < v.dpbSecsize := by omega
    rw [if_neg hstr, Prog.exec_bind, exec_getFATblock hb0]
    simp only [bind_some, map_some, Prog.exec_pure, fatByte_two f.disk hin]
    cases edit (fatByte v f.disk p + 256 * fatByte v f.disk (p + 1)) with
    | none => rfl
    | some w =>
      simp only [map_some, Flat.change, Flat.poked, pokeWord, ← poke_putword f.disk w hin]

/-- Where the entry of cluster `c` begins. -/
theorem place12 (s c : Nat) : c * 3 % (s * 2) / 2 = 3 * c / 2 % s ∧
    c * 3 / (s * 2) = 3 * c / 2 / s := by
  rw [mul_comm c 3, mul_comm s 2]
  exact ⟨mod_mul_right_div_self .., (Nat.div_div_eq_div_mul ..).symm⟩

theorem place16 (hs : 4 ∣ s) (c : Nat) : c % (s / 2) * 2 = 2 * c % s ∧
    c / (s / 2) = 2 * c / s ∧ (0 < s → 2 * c % s + 1 < s) := by
  obtain ⟨t, rfl⟩ := hs
  have hhalf : 4 * t / 2 = 2 * t := by omega
  have hwhole : 4 * t = 2 * (2 * t) := by omega
  rw [hhalf, hwhole, mul_mod_mul_left, Nat.mul_div_mul_left _ _ (by omega)]
  refine ⟨mul_comm .., rfl, fun hpos => ?_⟩
  have := mod_lt c (show 0 < 2 * t by omega)
  omega

theorem place32 (hs : 4 ∣ s) (c : Nat) : c % (s / 2 / 2) * 4 = 4 * c % s ∧
    c / (s / 2 / 2) = 4 * c / s ∧ (0 < s → 4 * c % s + 3 < s) := by
  obtain ⟨t, rfl⟩ := hs
  have hquart : 4 * t / 2 / 2 = t := by omega
  rw [hquart, mul_mod_mul_left, Nat.mul_div_mul_left _ _ (by omega)]
  refine ⟨mul_comm .., rfl, fun hpos => ?_⟩
  have := mod_lt c (show 0 < t by omega)
  omega

/-- The kinds of volume, told apart as `link_fat` does. -/
theorem Dpb.WF.cases (hv : v.WF) :
    (v.isFat12 = true ∧ v.isFat32 = false ∧ v.maxCluster ≤ FAT_MAGIC) ∨
    (v.isFat12 = false ∧ v.isFat16 = true ∧ v.isFat32 = false ∧ v.maxCluster ≤ FAT_MAGIC16) ∨
    (v.isFat12 = false ∧ v.isFat16 = false ∧ v.isFat32 = true ∧ v.maxCluster < LONG_BAD) := by
  rcases hv.kind with ⟨h12, h32⟩ | ⟨h16, h32⟩ | ⟨h32, hsize, hx⟩
  · refine .inl ⟨h12, h32, ?_⟩
    simp only [Dpb.isFat12, and_eq_true, decide_eq_true_eq] at h12
    simp only [Dpb.maxCluster, h32]
    exact h12.2
  · refine .inr (.inl ⟨?_, h16, h32, ?_⟩)
    · simp only [Dpb.isFat16, and_eq_true, decide_eq_true_eq] at h16
      simp only [Dpb.isFat12, and_eq_false_iff, decide_eq_false_iff_not]
      omega
    · simp only [Dpb.isFat16, and_eq_true, decide_eq_true_eq] at h16
      simp only [Dpb.maxCluster, h32]
      exact h16.2
  · refine .inr (.inr ⟨?_, ?_, h32, ?_⟩)
    · simp [Dpb.isFat12, hsize]
    · simp [Dpb.isFat16, hsize]
    · simp only [Dpb.maxCluster, h32]
      exact hx

theorem Dpb.WF.max_lt_bad (hv : v.WF) : v.maxCluster < LONG_BAD := by
  rcases hv.cases with ⟨-, -, hs⟩ | ⟨-, -, -, hs⟩ | ⟨-, -, -, hs⟩
  · exact lt_of_le_of_lt hs (by decide)
  · exact lt_of_le_of_lt hs (by decide)
  · exact hs

/-- The last byte of an entry in range lies in the FAT. -/
theorem Dpb.WF.entry_in_fat (hv : v.WF) (hmax : c ≤ v.maxCluster) :
    v.entryEnd c ≤ v.area.stride * v.dpbSecsize := by
  refine le_trans ?_ hv.room
  unfold Dpb.entryEnd
  split
  · omega
  · split <;> omega

theorem change_none (f : Flat Mem) (blk : Nat) : f.change blk none = f := rfl

/-- **Reading an entry returns the link**, and changes nothing. -/
theorem linkFat_read (hv : v.WF) (hc : 2 ≤ c) (hmax : c ≤ v.maxCluster) (f : Flat Mem) :
    (linkFat v c READ_CLUSTER).exec (flat Mem v.area) f = some (link v f.disk c, f) := by
  have hend := hv.entry_in_fat hmax
  have hpos := hv.secsizePos
  unfold linkFat
  rw [if_neg (by omega), if_neg (by simp only [READ_CLUSTER]; omega)]
  rcases hv.cases with ⟨h12, -, -⟩ | ⟨h12, h16, -, -⟩ | ⟨h12, h16, h32, -⟩
  · simp only [h12, if_true, Dpb.entryEnd] at hend
    rw [if_pos h12]
    obtain ⟨hidx, hsec⟩ := place12 v.dpbSecsize c
    unfold link12
    simp only [hidx, hsec, add_comm _ v.fatStart]
    rw [Prog.exec_bind, word12_spec hv (by omega)]
    simp only [READ_CLUSTER, if_true, bind_some, Flat.poked, pokeWord, Prog.exec_pure, link, h12]
  · simp only [h12, h16, false_eq_true, if_false, if_true, Dpb.entryEnd] at hend
    rw [if_neg (by simp [h12]), if_pos h16]
    obtain ⟨hidx, hsec, hin⟩ := place16 hv.secsize c
    have hb : v.area.isFat (v.fatStart + 2 * c / v.dpbSecsize) := hv.fat_block (by omega)
    unfold link16
    simp only [hidx, hsec, add_comm _ v.fatStart]
    rw [Prog.exec_bind, exec_getFATblock hb]
    simp only [READ_CLUSTER, if_true, bind_some, change_none, Prog.exec_pure,
      link, h12, h16, false_eq_true, if_false, fatByte_two f.disk (hin hpos)]
  · simp only [h12, h16, false_eq_true, if_false, Dpb.entryEnd] at hend
    rw [if_neg (by simp [h12]), if_neg (by simp [h16]), if_pos h32]
    obtain ⟨hidx, hsec, hin⟩ := place32 hv.secsize c
    have hb : v.area.isFat (v.fatStart + 4 * c / v.dpbSecsize) := hv.fat_block (by omega)
    obtain ⟨hdiv, hmod⟩ := same_sector (s := v.dpbSecsize) (p := 4 * c) (k := 2) (by omega)
    have hhigh := fatByte_two (v := v) f.disk (p := 4 * c + 2) (by omega)
    rw [hdiv, hmod] at hhigh
    unfold link32
    simp only [hidx, hsec, add_comm _ v.fatStart]
    rw [Prog.exec_bind, exec_getFATblock hb]
    simp only [if_true, bind_some, change_none, Prog.exec_pure, link, h12, h16,
      false_eq_true, if_false, getlong, fatByte_two f.disk (show 4 * c % v.dpbSecsize + 1 <
        v.dpbSecsize by omega), hhigh]

/-! ## 7. Writing an entry -/

/-- The values that may be written, as the comment in `link_fat` lists them: free, a cluster in
range, the end of a chain, or a bad cluster. -/
def Dpb.LinkValue (v : Dpb) (x : Nat) : Prop :=
  x = FREE ∨ (2 ≤ x ∧ x ≤ v.maxCluster) ∨ x = LONG_LAST_CLUSTER ∨ x = LONG_BAD

/-- The memory after the free space count was updated. -/
def Mem.counted (m : Mem) (v : Dpb) (cluster2 : Nat) (wasfree : Bool) : Mem :=
  if cluster2 = FREE ∨ wasfree = true then
    if v.isFat32 = true ∧ m.dpbXnfreeclst ≠ XUNKNCLSTFREE then
      m.addXnfree (freeAdjust cluster2 wasfree)
    else if m.dpbXnfreeclst % 0x10000 ≠ UNKNCLSTFREE then m.addNfree (freeAdjust cluster2 wasfree)
    else m
  else m

/-- The count is all that changes. -/
theorem counted_eq (m : Mem) (v : Dpb) (cluster2 : Nat) (wasfree : Bool) :
    ∃ n, m.counted v cluster2 wasfree = { m with dpbXnfreeclst := n } := by
  unfold Mem.counted
  split
  · split
    · exact ⟨_, rfl⟩
    · split
      · exact ⟨_, rfl⟩
      · exact ⟨_, rfl⟩
  · exact ⟨_, rfl⟩

/-- **What writing `x` to the entry of `c` changes**: that link, and bookkeeping. -/
structure Linked (v : Dpb) (f f' : Flat Mem) (c x : Nat) : Prop where
  link : ∀ d, link v f'.disk d = if d = c then x else link v f.disk d
  plain : ∀ b, v.Plain b → f'.disk b = f.disk b
  mem : f'.mem = f.mem.counted v x (Fat.link v f.disk c == FREE)

theorem Dpb.WF.info_block (hv : v.WF) (hb : v.IsInfo b) : b < v.area.start ∧ b < v.dataStart := by
  obtain ⟨h32, hsec, rfl⟩ := hb
  exact hv.infoFar h32 hsec

theorem Dpb.WF.info_not_mirror (hv : v.WF) (hb : v.IsInfo b) : ¬ v.area.mirror b := by
  intro hm
  have := (hv.info_block hb).1
  have := hm.1
  omega

theorem exec_getMem (f : Flat Mem) :
    getMem.exec (flat Mem v.area) f = some (f.mem, f) := Prog.exec_perform ..

theorem exec_setMem (g : Mem → Mem) (f : Flat Mem) :
    (setMem g).exec (flat Mem v.area) f = some (f.mem, { f with mem := g f.mem }) :=
  Prog.exec_perform ..

theorem writeFsinfo_spec (hv : v.WF) (h32 : v.isFat32 = true) (f : Flat Mem) :
    (writeFsinfo v).Meets (flat Mem v.area) f fun _ f' =>
      (∀ b, ¬ v.IsInfo b → f'.disk b = f.disk b) ∧ f'.mem = f.mem := by
  unfold writeFsinfo
  split
  · exact Prog.Meets.pure ⟨fun _ _ => rfl, rfl⟩
  · rename_i hsec
    have hinfo : v.IsInfo v.dpbXfsinfosec := ⟨h32, hsec, rfl⟩
    refine Prog.Meets.bind ⟨_, _, exec_getMem f, ?_⟩
    set edit : Sector → Option Sector := fun s =>
      if getlong s 0x1e8 ≠ f.mem.dpbXnfreeclst ∨ getlong s 0x1ec ≠ f.mem.dpbXcluster then
        some (putlong (putlong s 0x1e8 f.mem.dpbXnfreeclst) 0x1ec f.mem.dpbXcluster)
      else none
    have hstep : flat Mem v.area _ (.block .info v.dpbXfsinfosec edit false) f =
        some (some (f.disk v.dpbXfsinfosec),
          f.change v.dpbXfsinfosec (edit (f.disk v.dpbXfsinfosec))) := by
      simp only [flat]
      rw [if_neg]
      rintro (hm | ⟨hk, -⟩)
      · exact hv.info_not_mirror hinfo hm
      · cases hk
    refine Prog.Meets.bind (Prog.Meets.perform hstep (Prog.Meets.pure ?_))
    cases edit (f.disk v.dpbXfsinfosec) with
    | none => exact ⟨fun _ _ => rfl, rfl⟩
    | some s =>
      refine ⟨fun b hb => update_of_ne ?_ .., rfl⟩
      rintro rfl
      exact hb hinfo

theorem countFree_spec (hv : v.WF) (cluster2 : Nat) (wasfree : Bool) (f : Flat Mem) :
    (countFree v cluster2 wasfree).Meets (flat Mem v.area) f fun r f' =>
      r = 0 ∧ (∀ b, ¬ v.IsInfo b → f'.disk b = f.disk b) ∧
        f'.mem = f.mem.counted v cluster2 wasfree := by
  unfold countFree Mem.counted
  split
  · refine Prog.Meets.bind ⟨_, _, exec_getMem f, ?_⟩
    split
    · rename_i h32
      refine Prog.Meets.bind ⟨_, _, exec_setMem _ f, ?_⟩
      refine Prog.Meets.bind ((writeFsinfo_spec hv h32.1 _).mono fun _ f' hf => ?_)
      exact Prog.Meets.pure ⟨rfl, hf⟩
    · split
      · refine Prog.Meets.bind ⟨_, _, exec_setMem _ f, ?_⟩
        exact Prog.Meets.pure ⟨rfl, fun _ _ => rfl, rfl⟩
      · exact Prog.Meets.pure ⟨rfl, fun _ _ => rfl, rfl⟩
  · exact Prog.Meets.pure ⟨rfl, fun _ _ => rfl, rfl⟩

/-- The FAT is read from its sectors only. -/
theorem link_congr {disk' : Nat → Sector} (h : ∀ b, v.area.start ≤ b → disk' b = disk b)
    (c : Nat) : link v disk' c = link v disk c := by
  have hbyte : ∀ o, fatByte v disk' o = fatByte v disk o := by
    intro o
    unfold fatByte
    rw [h (v.fatStart + o / v.dpbSecsize) (Nat.le_add_right _ _)]
  simp only [link, hbyte]

theorem fatByte_pokeWord (v : Dpb) (disk : Nat → Sector) (p w o : Nat) :
    fatByte v (pokeWord v disk p (some w)) o =
      if o = p + 1 then w / 256 % 256 else if o = p then w % 256 else fatByte v disk o := by
  simp only [pokeWord, fatByte_poke, byte_toNat]

theorem fatByte_pokeWord_of_ne {w o : Nat} (h0 : o ≠ p)
    (h1 : o ≠ p + 1) : fatByte v (pokeWord v disk p (some w)) o = fatByte v disk o := by
  rw [fatByte_pokeWord, if_neg h1, if_neg h0]

/-- Two words, byte by byte. -/
theorem fatByte_twoWords (v : Dpb) (disk : Nat → Sector) (p lo hi : Nat) :
    let disk' := pokeWord v (pokeWord v disk p (some lo)) (p + 2) (some hi)
    fatByte v disk' p = lo % 256 ∧ fatByte v disk' (p + 1) = lo / 256 % 256 ∧
      fatByte v disk' (p + 2) = hi % 256 ∧ fatByte v disk' (p + 3) = hi / 256 % 256 := by
  refine ⟨?_, ?_, ?_, ?_⟩
  · rw [fatByte_pokeWord_of_ne (by omega) (by omega), fatByte_pokeWord, if_neg (by omega), if_pos rfl]
  · rw [fatByte_pokeWord_of_ne (by omega) (by omega), fatByte_pokeWord, if_pos rfl]
  · rw [fatByte_pokeWord, if_neg (by omega), if_pos rfl]
  · rw [fatByte_pokeWord, if_pos rfl]

theorem poked_plain (hv : v.WF) {f : Flat Mem} {w : Option Nat}
    (hp : p + 1 < v.area.stride * v.dpbSecsize) (hb : v.Plain b) :
    (f.poked v p w).disk b = f.disk b := by
  cases w with
  | none => rfl
  | some w =>
    have h0 : b ≠ v.fatStart + p / v.dpbSecsize := by
      rintro rfl
      exact hb.1 (hv.fat_block (by omega))
    have h1 : b ≠ v.fatStart + (p + 1) / v.dpbSecsize := by
      rintro rfl
      exact hb.1 (hv.fat_block hp)
    exact (poke_plain h1).trans (poke_plain h0)

/-- What the bytes of the entry say after a store, before the bookkeeping. -/
structure Stored (v : Dpb) (f f' : Flat Mem) (c x : Nat) : Prop where
  link : ∀ d, link v f'.disk d = if d = c then x else link v f.disk d
  plain : ∀ b, v.Plain b → f'.disk b = f.disk b
  mem : f'.mem = f.mem

/-- The bookkeeping after a store does not undo it. -/
theorem Stored.linked (hv : v.WF) {f f1 : Flat Mem} {wasfree : Bool} (h : Stored v f f1 c x)
    (hfree : wasfree = (Fat.link v f.disk c == FREE)) :
    (countFree v x wasfree).Meets (flat Mem v.area) f1 fun r f' => r = 0 ∧ Linked v f f' c x := by
  refine (countFree_spec hv x wasfree f1).mono fun r f' ⟨hr, hdisk, hmem⟩ => ⟨hr, ?_, ?_, ?_⟩
  · intro d
    rw [← h.link d]
    refine link_congr (fun b hb => hdisk b fun hinfo => ?_) d
    have := (hv.info_block hinfo).1
    omega
  · intro b hb
    rw [hdisk b hb.2, h.plain b hb]
  · rw [hmem, h.mem, hfree]

theorem stored12 (hv : v.WF) (h12 : v.isFat12 = true) (hsize : v.maxCluster ≤ FAT_MAGIC)
    (hc : c ≤ v.maxCluster) (hx : v.LinkValue x) (f : Flat Mem) :
    Stored v f (f.poked v (3 * c / 2) (some (pack12 c x
      (fatByte v f.disk (3 * c / 2) + 256 * fatByte v f.disk (3 * c / 2 + 1))))) c x := by
  have hend := hv.entry_in_fat hc
  simp only [Dpb.entryEnd, h12, if_true] at hend
  have hin : 3 * c / 2 + 1 < v.area.stride * v.dpbSecsize := by omega
  refine ⟨fun d => ?_, fun b hb => poked_plain hv hin hb, rfl⟩
  have hraw := unpack12_packed (fatByte v f.disk) (fatByte_lt v f.disk) c d x _ rfl _
    (fatByte_pokeWord v f.disk (3 * c / 2) _)
  simp only [link, h12, if_true, Flat.poked]
  rw [hraw]
  split
  · rcases hx with rfl | ⟨hlo, hhi⟩ | rfl | rfl
    · rfl
    · have hmod : x % 4096 = x := mod_eq_of_lt (by simp only [FAT_MAGIC] at hsize; omega)
      rw [hmod, decode12, if_neg, if_neg]
      · simp only [FAT_MAGIC, BAD12] at hsize ⊢
        omega
      · simp only [FAT_MAGIC, MASK12] at hsize ⊢
        omega
    · rfl
    · rfl
  · rfl

theorem stored16 (hv : v.WF) (h12 : v.isFat12 = false) (h16 : v.isFat16 = true)
    (hsize : v.maxCluster ≤ FAT_MAGIC16) (hc : c ≤ v.maxCluster) (hx : v.LinkValue x)
    (f : Flat Mem) : Stored v f (f.poked v (2 * c) (some x)) c x := by
  have hend := hv.entry_in_fat hc
  simp only [Dpb.entryEnd, h12, h16, false_eq_true, if_false, if_true] at hend
  have hin : 2 * c + 1 < v.area.stride * v.dpbSecsize := by omega
  refine ⟨fun d => ?_, fun b hb => poked_plain hv hin hb, rfl⟩
  simp only [link, h12, h16, false_eq_true, if_false, if_true, Flat.poked, fatByte_pokeWord]
  by_cases hdc : d = c
  · subst hdc
    rw [if_neg (by omega), if_pos rfl, if_pos rfl, if_pos rfl]
    rcases hx with rfl | ⟨hlo, hhi⟩ | rfl | rfl
    · rfl
    · simp only [FAT_MAGIC16] at hsize
      have hsum : x % 256 + 256 * (x / 256 % 256) = x := by omega
      rw [hsum, decode16, if_neg, if_neg]
      · simp only [BAD16]
        omega
      · simp only [MASK16]
        omega
    · rfl
    · rfl
  · rw [if_neg (by omega), if_neg (by omega), if_neg (by omega), if_neg (by omega), if_neg hdc]

theorem stored32 (hv : v.WF) (h12 : v.isFat12 = false) (h16 : v.isFat16 = false)
    (hsize : v.maxCluster < LONG_BAD) (hc : c ≤ v.maxCluster) (hx : v.LinkValue x) (f : Flat Mem) :
    Stored v f ((f.poked v (4 * c) (some (x % 0x10000000))).poked v (4 * c + 2)
      (some (x % 0x10000000 / 0x10000))) c x := by
  have hend := hv.entry_in_fat hc
  simp only [Dpb.entryEnd, h12, h16, false_eq_true, if_false] at hend
  refine ⟨fun d => ?_, fun b hb => ?_, rfl⟩
  · simp only [link, h12, h16, false_eq_true, if_false, Flat.poked]
    by_cases hdc : d = c
    · subst hdc
      have hbytes : (x % 0x10000000 % 256 + 256 * (x % 0x10000000 / 256 % 256) + 0x10000 *
          (x % 0x10000000 / 0x10000 % 256 + 256 * (x % 0x10000000 / 0x10000 / 256 % 256))) %
            0x10000000 = x % 0x10000000 := by omega
      rw [if_pos rfl]
      obtain ⟨h0, h1, h2, h3⟩ := fatByte_twoWords v f.disk (4 * d) (x % 0x10000000)
        (x % 0x10000000 / 0x10000)
      rw [h0, h1, h2, h3, hbytes]
      rcases hx with rfl | ⟨hlo, hhi⟩ | rfl | rfl
      · rfl
      · simp only [LONG_BAD] at hsize
        rw [mod_eq_of_lt (by omega), decode32, if_neg (by simp only [LONG_BAD]; omega)]
      · rfl
      · rfl
    · rw [if_neg hdc]
      have hbyte : ∀ i < 4, fatByte v (pokeWord v (pokeWord v f.disk (4 * c)
          (some (x % 0x10000000))) (4 * c + 2) (some (x % 0x10000000 / 0x10000))) (4 * d + i) =
          fatByte v f.disk (4 * d + i) := by
        intro i hi
        rw [fatByte_pokeWord_of_ne (by omega) (by omega),
          fatByte_pokeWord_of_ne (by omega) (by omega)]
      rw [← Nat.add_zero (4 * d), hbyte 0 (by decide), hbyte 1 (by decide), hbyte 2 (by decide),
        hbyte 3 (by decide)]
  · have h0 : 4 * c + 1 < v.area.stride * v.dpbSecsize := by omega
    have h2 : 4 * c + 2 + 1 < v.area.stride * v.dpbSecsize := by omega
    exact (poked_plain hv h2 hb).trans (poked_plain hv h0 hb)

/-- Reading an entry tells free clusters from others. -/
theorem decode12_free (x : Nat) : (decode12 x == FREE) = (x == FREE) := by
  unfold decode12
  split
  · rename_i h
    simp only [MASK12] at h
    simp [LONG_LAST_CLUSTER, FREE, show x ≠ 0 by omega]
  · split
    · rename_i h
      simp [h, LONG_BAD, BAD12, FREE]
    · rfl

theorem decode16_free (x : Nat) : (decode16 x == FREE) = (x == FREE) := by
  unfold decode16
  split
  · rename_i h
    simp only [MASK16] at h
    simp [LONG_LAST_CLUSTER, FREE, show x ≠ 0 by omega]
  · split
    · rename_i h
      simp [h, LONG_BAD, BAD16, FREE]
    · rfl

theorem decode32_free (x : Nat) : (decode32 x == FREE) = (x == FREE) := by
  unfold decode32
  split
  · simp [LONG_LAST_CLUSTER, FREE, show x ≠ 0 by omega]
  · rfl

theorem Dpb.LinkValue.low_ne (hx : v.LinkValue x)
    (hsize : v.maxCluster ≤ FAT_MAGIC16) : x % 0x10000 ≠ READ_CLUSTER := by
  simp only [FAT_MAGIC16, READ_CLUSTER] at *
  rcases hx with rfl | ⟨hlo, hhi⟩ | rfl | rfl
  · decide
  · omega
  · decide
  · decide

theorem Dpb.LinkValue.ne_read (hx : v.LinkValue x) : x ≠ READ_CLUSTER := by
  simp only [READ_CLUSTER]
  rcases hx with rfl | ⟨hlo, hhi⟩ | rfl | rfl
  · decide
  · omega
  · decide
  · decide

/-- **Writing an entry** succeeds, and changes the link of that cluster. -/
theorem linkFat_write (hv : v.WF) (hc : 2 ≤ c) (hmax : c ≤ v.maxCluster) (hx : v.LinkValue x)
    (f : Flat Mem) :
    (linkFat v c x).Meets (flat Mem v.area) f fun r f' => r = 0 ∧ Linked v f f' c x := by
  have hend := hv.entry_in_fat hmax
  have hpos := hv.secsizePos
  have hrange : ¬ (x < LONG_BAD ∧ x > v.maxCluster) := by
    rintro ⟨h1, h2⟩
    rcases hx with rfl | ⟨-, hhi⟩ | rfl | rfl
    · simp only [FREE] at h2
      omega
    · omega
    · simp only [LONG_BAD, LONG_LAST_CLUSTER] at h1
      omega
    · omega
  unfold linkFat
  rw [if_neg (by omega), if_neg hrange]
  rcases hv.cases with ⟨h12, -, hsize⟩ | ⟨h12, h16, -, hsize⟩ | ⟨h12, h16, h32, hsize⟩
  · have hlow := hx.low_ne (le_trans hsize (by decide))
    simp only [h12, if_true, Dpb.entryEnd] at hend
    rw [if_pos h12]
    obtain ⟨hidx, hsec⟩ := place12 v.dpbSecsize c
    unfold link12
    simp only [hidx, hsec, add_comm _ v.fatStart]
    refine Prog.Meets.bind ⟨_, _, word12_spec hv (by omega) _ f, ?_⟩
    simp only [if_neg hlow]
    refine (stored12 hv h12 hsize hmax hx f).linked hv ?_
    simp only [link, h12, if_true, decode12_free]
  · have hlow := hx.low_ne hsize
    simp only [h12, h16, false_eq_true, if_false, if_true, Dpb.entryEnd] at hend
    rw [if_neg (by simp [h12]), if_pos h16]
    obtain ⟨hidx, hsec, hin⟩ := place16 hv.secsize c
    have hb : v.area.isFat (v.fatStart + 2 * c / v.dpbSecsize) := hv.fat_block (by omega)
    unfold link16
    simp only [hidx, hsec, add_comm _ v.fatStart]
    refine Prog.Meets.bind ⟨_, _, exec_getFATblock hb _ f, ?_⟩
    simp only [if_neg hlow, fatByte_two f.disk (hin hpos)]
    have hpoke : f.change (v.fatStart + 2 * c / v.dpbSecsize)
        (some (putword (f.disk (v.fatStart + 2 * c / v.dpbSecsize)) (2 * c % v.dpbSecsize) x)) =
          f.poked v (2 * c) (some x) := by
      simp only [Flat.change, Flat.poked, pokeWord, ← poke_putword f.disk x (hin hpos)]
    rw [hpoke]
    refine (stored16 hv h12 h16 hsize hmax hx f).linked hv ?_
    simp only [link, h12, h16, false_eq_true, if_false, if_true, decode16_free]
  · simp only [h12, h16, false_eq_true, if_false, Dpb.entryEnd] at hend
    rw [if_neg (by simp [h12]), if_neg (by simp [h16]), if_pos h32]
    obtain ⟨hidx, hsec, hin⟩ := place32 hv.secsize c
    have hb : v.area.isFat (v.fatStart + 4 * c / v.dpbSecsize) := hv.fat_block (by omega)
    obtain ⟨hdiv, hmod⟩ := same_sector (s := v.dpbSecsize) (p := 4 * c) (k := 2) (by omega)
    have hhigh := fatByte_two (v := v) f.disk (p := 4 * c + 2) (by omega)
    rw [hdiv, hmod] at hhigh
    have hlow := fatByte_two (v := v) f.disk (p := 4 * c) (by omega)
    unfold link32
    simp only [hidx, hsec, add_comm _ v.fatStart]
    refine Prog.Meets.bind ⟨_, _, exec_getFATblock hb _ f, ?_⟩
    simp only [if_neg hx.ne_read]
    have hpoke : f.change (v.fatStart + 4 * c / v.dpbSecsize)
        (some (putlong (f.disk (v.fatStart + 4 * c / v.dpbSecsize)) (4 * c % v.dpbSecsize)
          (x % 0x10000000))) =
        (f.poked v (4 * c) (some (x % 0x10000000))).poked v (4 * c + 2)
          (some (x % 0x10000000 / 0x10000)) := by
      have hin2 : (4 * c + 2) % v.dpbSecsize + 1 < v.dpbSecsize := by omega
      simp only [Flat.change, Flat.poked, pokeWord, putlong]
      rw [← poke_putword f.disk (x % 0x10000000) (by omega : 4 * c % v.dpbSecsize + 1 < v.dpbSecsize),
        ← poke_putword _ (x % 0x10000000 / 0x10000) hin2, hdiv, hmod, update_self,
        update_idem]
    rw [hpoke]
    refine (stored32 hv h12 h16 hsize hmax hx f).linked hv ?_
    simp only [link, h12, h16, false_eq_true, if_false, decode32_free, getlong, hlow, hhigh]

/-! ## 8. The next cluster -/

theorem isFreeCluster_spec (hv : v.WF) (hc : 2 ≤ c) (hmax : c ≤ v.maxCluster) (f : Flat Mem) :
    (isFreeCluster v c).exec (flat Mem v.area) f = some (link v f.disk c == FREE, f) := by
  unfold isFreeCluster
  rw [Prog.exec_bind, linkFat_read hv hc hmax]
  rfl

end SdcBoot.Fat
