/-
# Reading and writing a file

`rwblock` of `fatfs.c`: the transfer between the memory of a program and the sectors of a file.  In
each round the cursor is moved to the cluster of the offset; then either whole sectors go past the
buffers, as many as lie one behind the other on the disk, or a part of one sector goes through a
buffer.  A write first extends the file to its offset (`dos_extend`), and one of no bytes cuts the
file off there.

The offset is a 32-bit number, and every addition to it is one of 32 bits.  What is modelled with
the buffer of the program is a list of bytes, which a read replaces from its start.
-/
import SdcBoot.Fat.Grow

namespace SdcBoot.Fat

open Lib Block Kernel

/-! ## 1. The program -/

def D_ARCHIVE : Nat := 0x20
def BUFFERSIZE : Nat := 512

/-- A number of 32 bits. -/
def wrap (n : Nat) : Nat := n % 0x100000000

/-- `merge_file_changes(fnp, FALSE)`. -/
def mergeFileChanges (fnp : Fnode) : FatProg Unit := do
  let _ ← setMem fun m => { m with sfthead := distribute m.shareInstalled fnp m.sfthead }
  pure ()

/-- `fnode_to_sft`, and then the return. -/
def stop (rc : Int) (fnp : Fnode) (buffer : List UInt8) : FatProg (Int × Fnode × List UInt8) := do
  let _ ← setMem fun m => { m with sfthead := updSft m.sfthead fnp.fSftIdx (fnodeToSft fnp) }
  pure (rc, fnp, buffer)

/-- `dos_extend`. -/
def dosExtend (v : Dpb) (dmDircluster : Nat) (fnp : Fnode) : FatProg (Int × Fnode) :=
  if fnp.fOffset ≤ fnp.dirSize then pure (SUCCESS, fnp)
  else do
    let r ← mapCluster v dmDircluster fnp true
    if r.1 ≠ SUCCESS then pure (DE_HNDLDSKFULL, r.2)
    else do
      mergeFileChanges { r.2 with dirSize := r.2.fOffset }
      pure (SUCCESS, { r.2 with dirSize := r.2.fOffset })

/-- The sector within the cluster. -/
def sectorIn (v : Dpb) (offset : Nat) : Nat := (offset / v.dpbSecsize % 256) &&& v.dpbClsmask

def currentBlock (v : Dpb) (fnp : Fnode) : Nat :=
  clus2phys v fnp.fCluster + sectorIn v fnp.fOffset

/-- The loop that gathers the sectors of one transfer, while the clusters lie one behind the other;
`sectors` are certain, and the offset is behind them. -/
def gather (v : Dpb) (dmDircluster : Nat) (write : Bool) (startoffset currentblock wanted : Nat) :
    Nat → Nat → Fnode → FatProg (Nat × Fnode)
  | 0, sectors, fnp => pure (sectors, fnp)
  | n + 1, sectors, fnp =>
    if sectors < wanted then do
      let r ← mapCluster v dmDircluster fnp write
      if r.1 ≠ SUCCESS then pure (sectors, r.2)
      else if clus2phys v r.2.fCluster ≠ currentblock + sectors then pure (sectors, r.2)
      else
        let next := min (sectors + (v.dpbClsmask + 1)) wanted
        gather v dmDircluster write startoffset currentblock wanted n next
          { r.2 with fOffset := wrap (startoffset + next * v.dpbSecsize) }
    else pure (sectors, fnp)

/-- The bytes as `n` sectors. -/
def sectorsOf (secsize : Nat) (data : List UInt8) (n : Nat) : List Sector :=
  (List.range n).map fun k o => data.getD (k * secsize + o) 0

/-- A sector with the bytes stored from `boff` on. -/
def overlay (boff : Nat) (data : List UInt8) (s : Sector) : Sector :=
  fun o => if boff ≤ o ∧ o < boff + data.length then data.getD (o - boff) 0 else s o

/-- Complete sectors, past the buffers; `none` is an error of the device. -/
def direct (v : Dpb) (dmDircluster : Nat) (write : Bool) (fnp : Fnode) (rest : List UInt8)
    (wanted : Nat) : FatProg (Fnode × Option (List UInt8)) := do
  let first := min (v.dpbClsmask + 1 - sectorIn v fnp.fOffset) wanted
  let r ← gather v dmDircluster write fnp.fOffset (currentBlock v fnp) wanted wanted first
    { fnp with fOffset := wrap (fnp.fOffset + first * v.dpbSecsize) }
  if write then do
    let ok ← Prog.perform (.writeDirect (currentBlock v fnp) (sectorsOf v.dpbSecsize rest r.1))
    pure (if ok then (r.2, some (rest.take (r.1 * v.dpbSecsize)))
      else ({ r.2 with fOffset := fnp.fOffset }, none))
  else do
    let got ← Prog.perform (.readDirect (currentBlock v fnp) r.1)
    pure (match got with
      | some ss => (r.2, some (ss.flatMap fun s => (List.range v.dpbSecsize).map s))
      | none => ({ r.2 with fOffset := fnp.fOffset }, none))

/-- A part of a sector, through a buffer; `none` is a block that cannot be had. -/
def buffered (v : Dpb) (write : Bool) (fnp : Fnode) (rest : List UInt8) :
    FatProg (Fnode × Option (List UInt8)) := do
  let boff := fnp.fOffset % v.dpbSecsize
  let room := min rest.length (v.dpbSecsize - boff)
  let n := if write then room else min room (fnp.dirSize - fnp.fOffset)
  let bp ← Prog.perform (.block .data (currentBlock v fnp)
    (fun s => if write then some (overlay boff (rest.take n) s) else none)
    (n == BUFFERSIZE || (!write && fnp.fOffset + n == fnp.dirSize)))
  pure (match bp with
    | some s => ({ fnp with fOffset := wrap (fnp.fOffset + n) },
        some (if write then rest.take n else (List.range n).map fun k => s (boff + k)))
    | none => (fnp, none))

/-- The size after a write up to the offset. -/
def grownTo (write : Bool) (fnp : Fnode) : Fnode :=
  if write = true ∧ fnp.fOffset > fnp.dirSize then { fnp with dirSize := fnp.fOffset } else fnp

/-- How many of the bytes that are left are within the file. -/
def withinFile (write : Bool) (fnp : Fnode) (n : Nat) : Nat :=
  if write then n else min n (fnp.dirSize - fnp.fOffset)

/-- The changes of a write are merged, those of a read are none. -/
def mergeWritten (write : Bool) (fnp : Fnode) : FatProg Unit :=
  if write then mergeFileChanges fnp else pure ()

/-- The transfer of one round: complete sectors, as long as there are any at the offset. -/
def transfer (v : Dpb) (dmDircluster : Nat) (write : Bool) (fnp : Fnode) (rest : List UInt8) :
    FatProg (Fnode × Option (List UInt8)) :=
  let wanted := withinFile write fnp rest.length / v.dpbSecsize
  if fnp.fOffset % v.dpbSecsize = 0 ∧ wanted ≠ 0 then direct v dmDircluster write fnp rest wanted
  else buffered v write fnp rest

/-- What a round that fails returns: an error of the device is one past the buffers. -/
def failedWith (v : Dpb) (write : Bool) (fnp : Fnode) (n done : Nat) : Int :=
  if fnp.fOffset % v.dpbSecsize = 0 ∧ withinFile write fnp n / v.dpbSecsize ≠ 0 then DE_ACCESS
  else done

/-- The loop of `rwblock`: `done` has been transferred, `rest` is left. -/
def rwLoop (v : Dpb) (dmDircluster : Nat) (write : Bool) :
    Nat → Fnode → List UInt8 → List UInt8 → FatProg (Int × Fnode × List UInt8)
  | 0, fnp, done, rest => stop done.length fnp (done ++ rest)
  | n + 1, fnp, done, rest =>
    if rest = [] ∨ (write = false ∧ fnp.fOffset ≥ fnp.dirSize) then
      stop done.length fnp (done ++ rest)
    else do
      let m ← mapCluster v dmDircluster fnp write
      if m.1 ≠ SUCCESS then stop done.length m.2 (done ++ rest)
      else do
        mergeWritten write m.2
        let r ← transfer v dmDircluster write m.2 rest
        match r.2 with
        | none => stop (failedWith v write m.2 rest.length done.length) r.1 (done ++ rest)
        | some data =>
          mergeWritten write (grownTo write r.1)
          rwLoop v dmDircluster write n (grownTo write r.1) (done ++ data) (rest.drop data.length)

/-- **`rwblock`**, on the bytes of a buffer: the return value, the fnode and the buffer. -/
def rwblock (v : Dpb) (dmDircluster : Nat) (fnp : Fnode) (buffer : List UInt8) (write : Bool) :
    FatProg (Int × Fnode × List UInt8) := do
  let r ← if write then
      dosExtend v dmDircluster { fnp with
        dirAttrib := fnp.dirAttrib ||| D_ARCHIVE
        fFlags := fnp.fFlags &&& (0xffff - (SFT_FCLEAN ||| SFT_FDATE)) }
    else pure (SUCCESS, fnp)
  if r.1 ≠ SUCCESS then stop 0 r.2 buffer
  else if buffer = [] then
    if write then do
      let s ← shrinkFile v dmDircluster { r.2 with dirSize := r.2.fOffset }
      if s.1 < 0 then pure (DE_ACCESS, s.2, buffer) else stop 0 s.2 buffer
    else stop 0 r.2 buffer
  else rwLoop v dmDircluster write buffer.length r.2 [] buffer

end SdcBoot.Fat
