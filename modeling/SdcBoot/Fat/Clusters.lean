/-
# Chains of clusters: allocating, following and freeing

The routines of `fatfs.c` between the FAT and a file.  `find_fat_free` looks for a free cluster from
a hint on and around the FAT; `extend` appends one to the chain of an fnode; `map_cluster` moves the
cluster cursor (`f_cluster`, `f_cluster_offset`) to the offset, from where it is when that is
forward, and extends the chain in a write; `wipe_out_clusters` frees a chain; `shrink_file` cuts one
off behind the offset; `dos_free` counts what is free.

The fnode is passed along and returned.  `map_cluster` counts up to the cluster it looks for, so its
loop is a recursion on the distance; `find_fat_free` goes around the FAT once; `wipe_out_clusters`
frees a cluster in each round, and stops at a free one.  For the last two the number of clusters is
enough fuel.
-/
import SdcBoot.Fat.Table

namespace SdcBoot.Fat

open Lib Block Kernel

def DE_SEEK : Int := -25
def DE_HNDLDSKFULL : Int := -28

/-! ## 1. Finding a free cluster -/

/-- The loop of `find_fat_free`, from `idx` on until it comes back to `start`. -/
def searchFree (v : Dpb) (start : Nat) : Nat → Nat → FatProg Nat
  | 0, _ => pure LONG_LAST_CLUSTER
  | n + 1, idx => do
    let free ← isFreeCluster v idx
    if free then pure idx
    else if (if idx + 1 > v.maxCluster then 2 else idx + 1) = start then pure LONG_LAST_CLUSTER
    else searchFree v start n (if idx + 1 > v.maxCluster then 2 else idx + 1)

/-- The hint where to look for a free cluster. -/
def Mem.hint (m : Mem) (v : Dpb) : Nat := if v.isFat32 then m.dpbXcluster else m.dpbCluster

def Mem.setHint (m : Mem) (v : Dpb) (cluster : Nat) : Mem :=
  if v.isFat32 then { m with dpbXcluster := cluster }
  else { m with dpbCluster := cluster % 0x10000 }

/-- `find_fat_free`. -/
def findFatFree (v : Dpb) : FatProg Nat := do
  let m ← getMem
  let idx ← searchFree v (if m.hint v ≠ UNKNCLUSTER then m.hint v else 2) v.maxCluster
    (if m.hint v ≠ UNKNCLUSTER then m.hint v else 2)
  let _ ← setMem fun m => m.setHint v (if idx = LONG_LAST_CLUSTER then UNKNCLUSTER else idx)
  if v.isFat32 then do
    writeFsinfo v
    pure idx
  else pure idx

/-! ## 2. Extending a chain -/

/-- `extend`: the new cluster, or LONG_LAST_CLUSTER. -/
def extend (v : Dpb) (fnp : Fnode) : FatProg (Nat × Fnode) := do
  let freeFat ← findFatFree v
  if freeFat = LONG_LAST_CLUSTER then pure (LONG_LAST_CLUSTER, fnp)
  else do
    let rc ← linkFat v freeFat LONG_LAST_CLUSTER
    if rc ≠ 0 then pure (LONG_LAST_CLUSTER, fnp)
    else if fnp.fCluster = FREE then
      pure (freeFat, { fnp with dirStart := dstart v.isFat32 freeFat })
    else do
      let next ← nextCluster v fnp.fCluster
      if next ≠ LONG_LAST_CLUSTER then pure (LONG_LAST_CLUSTER, fnp)
      else do
        let rc ← linkFat v fnp.fCluster freeFat
        if rc ≠ 0 then pure (LONG_LAST_CLUSTER, fnp) else pure (freeFat, fnp)

/-! ## 3. `map_cluster` -/

/-- The cursor moved one cluster on. -/
def moved (fnp : Fnode) (cluster : Nat) : Fnode :=
  { fnp with fCluster := cluster, fClusterOffset := fnp.fClusterOffset + 1 }

/-- The search of `map_cluster`, `n` clusters ahead. -/
def follow (v : Dpb) (write : Bool) : Nat → Fnode → FatProg (Int × Fnode)
  | 0, fnp => pure (SUCCESS, fnp)
  | n + 1, fnp => do
    let cluster ← nextCluster v fnp.fCluster
    if cluster ≤ 1 then pure (DE_SEEK, fnp)
    else if cluster = LONG_LAST_CLUSTER then
      if write = false then pure (DE_SEEK, fnp)
      else do
        let new ← extend v fnp
        if new.1 = LONG_LAST_CLUSTER then pure (DE_HNDLDSKFULL, new.2)
        else follow v write n (moved new.2 new.1)
    else follow v write n (moved fnp cluster)

/-- The cluster of the file that holds the offset. -/
def relcluster (v : Dpb) (offset : Nat) : Nat := offset / v.dpbSecsize / 2 ^ v.dpbShftcnt

/-- The cursor at the start of the chain: of a directory (`f_sft_idx == 0xff`) or of a file. -/
def rewound (fnp : Fnode) (dmDircluster : Nat) : Fnode :=
  { fnp with
    fCluster := if fnp.fSftIdx = 0xff then dmDircluster else fnp.dirStart, fClusterOffset := 0 }

/-- `map_cluster` once the chain is not empty. -/
def seekCluster (v : Dpb) (dmDircluster : Nat) (fnp : Fnode) (write : Bool) :
    FatProg (Int × Fnode) :=
  if relcluster v fnp.fOffset < fnp.fClusterOffset then
    follow v write (relcluster v fnp.fOffset) (rewound fnp dmDircluster)
  else follow v write (relcluster v fnp.fOffset - fnp.fClusterOffset) fnp

/-- `map_cluster`. -/
def mapCluster (v : Dpb) (dmDircluster : Nat) (fnp : Fnode) (write : Bool) :
    FatProg (Int × Fnode) :=
  if fnp.fCluster = FREE then
    if write = false then pure (DE_SEEK, fnp)
    else do
      let new ← extend v fnp
      if new.1 = LONG_LAST_CLUSTER then pure (DE_HNDLDSKFULL, new.2)
      else seekCluster v dmDircluster { new.2 with fCluster := new.1 } write
  else seekCluster v dmDircluster fnp write

/-! ## 4. Freeing -/

/-- The start of free space moves down to a cluster that was freed. -/
def Mem.lowerHint (m : Mem) (v : Dpb) (st : Nat) : Mem :=
  if v.isFat32 then
    if m.dpbXcluster = UNKNCLUSTER ∨ m.dpbXcluster > st then { m with dpbXcluster := st } else m
  else if m.dpbCluster = UNKNCLUSTER ∨ m.dpbCluster > st % 0x10000 then
    { m with dpbCluster := st % 0x10000 }
  else m

def wipeLoop (v : Dpb) : Nat → Nat → FatProg Unit
  | 0, _ => pure ()
  | n + 1, st =>
    if st = LONG_LAST_CLUSTER then (if v.isFat32 then writeFsinfo v else pure ())
    else do
      let next ← nextCluster v st
      if next ≤ 1 then pure ()
      else do
        let rc ← linkFat v st FREE
        if rc ≠ 0 then pure ()
        else do
          let _ ← setMem fun m => m.lowerHint v st
          wipeLoop v n next

/-- `wipe_out_clusters`. -/
def wipeOutClusters (v : Dpb) (st : Nat) : FatProg Unit := wipeLoop v (v.maxCluster + 1) st

/-- `wipe_out`. -/
def wipeOut (v : Dpb) (fnp : Fnode) : FatProg Unit :=
  if fnp.dirStart ≠ FREE then wipeOutClusters v fnp.dirStart else pure ()

def flushBuffers : FatProg Bool := .perform .flushBuffers

/-- The end of `shrink_file`, once the new last cluster `st` and the one after it are known. -/
def cutChain (v : Dpb) (fnp : Fnode) (last next : Nat) (st : Nat) : FatProg (Int × Fnode) := do
  let rc ← linkFat v st last
  if rc ≠ 0 then pure (DE_ACCESS, fnp)
  else do
    wipeOutClusters v next
    let ok ← flushBuffers
    pure (if ok then SUCCESS else DE_ACCESS, fnp)

/-- `shrink_file` with the offset at the last byte that is kept; it is restored by the caller. -/
def shrinkAt (v : Dpb) (dmDircluster : Nat) (fnp : Fnode) : FatProg (Int × Fnode) := do
  let r ← mapCluster v dmDircluster fnp false
  if r.1 ≠ SUCCESS then pure (DE_ACCESS, r.2)
  else do
    let next ← nextCluster v r.2.fCluster
    if next ≤ 1 then pure (DE_ACCESS, r.2)
    else if r.2.dirSize = 0 then
      cutChain v { r.2 with fCluster := FREE, dirStart := FREE } FREE next r.2.fCluster
    else if next = LONG_LAST_CLUSTER then pure (SUCCESS, r.2)
    else cutChain v r.2 LONG_LAST_CLUSTER next r.2.fCluster

/-- `shrink_file`. -/
def shrinkFile (v : Dpb) (dmDircluster : Nat) (fnp : Fnode) : FatProg (Int × Fnode) :=
  if fnp.fOffset = 0 ∧ fnp.fCluster = FREE then pure (SUCCESS, fnp)
  else do
    let r ← shrinkAt v dmDircluster { fnp with fOffset := fnp.fOffset - 1 }
    pure (r.1, { r.2 with fOffset := fnp.fOffset })

/-! ## 5. Counting -/

/-- The loop of `dos_free` over the `n` clusters from `i` on. -/
def countLoop (v : Dpb) : Nat → Nat → Nat → FatProg Nat
  | 0, _, cnt => pure cnt
  | n + 1, i, cnt => do
    let free ← isFreeCluster v i
    if free then
      if cnt = 0 then do
        let _ ← setMem fun m => m.setHint v i
        countLoop v n (i + 1) (cnt + 1)
      else countLoop v n (i + 1) (cnt + 1)
    else countLoop v n (i + 1) cnt

/-- The number of free clusters is known. -/
def Mem.Known (m : Mem) (v : Dpb) : Prop :=
  if v.isFat32 then m.dpbXnfreeclst ≠ XUNKNCLSTFREE else m.dpbXnfreeclst % 0x10000 ≠ UNKNCLSTFREE

instance (m : Mem) (v : Dpb) : Decidable (m.Known v) := by
  unfold Mem.Known
  infer_instance

/-- The count: `dpb_xnfreeclst`, or its low word. -/
def Mem.nfree (m : Mem) (v : Dpb) : Nat :=
  if v.isFat32 then m.dpbXnfreeclst else m.dpbXnfreeclst % 0x10000

def Mem.setNfree (m : Mem) (v : Dpb) (cnt : Nat) : Mem :=
  { m with dpbXnfreeclst :=
      if v.isFat32 then cnt else m.dpbXnfreeclst / 0x10000 * 0x10000 + cnt % 0x10000 }

/-- `dos_free`. -/
def dosFree (v : Dpb) : FatProg Nat := do
  let m ← getMem
  if m.Known v then pure (m.nfree v)
  else do
    let cnt ← countLoop v (v.maxCluster - 1) 2 0
    let _ ← setMem fun m => m.setNfree v cnt
    if v.isFat32 then do
      writeFsinfo v
      pure cnt
    else pure cnt

end SdcBoot.Fat
