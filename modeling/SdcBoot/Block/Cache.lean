/-
# The buffer cache

Every sector the file system touches one at a time goes through the buffers of `blockio.c`, a ring
in order of last use.  A buffer that is VALID stands for the block `b_blkno` of the unit `b_unit`;
while it is also DIRTY, the device is behind it.  Transfers of many sectors go past the buffers,
after `DeleteBlockInBufferCache` has written out or thrown away what they hold of the range.

A buffer pointer is modelled as a number and the ring as a list of them, the first being `firstbuf`.
The device is a function from unit and block to contents of any type `S`, and `dskxfer` asks the
outside how a transfer went: `reads` and `writes` are the answers still to come, an exhausted list
standing for transfers that succeed.  Of the retry loop inside `dskxfer` only the last attempt
counts, and whether the critical error handler answered FAIL (an error is returned) or IGNORE (the
transfer failed and success is returned).
-/
import SdcBoot.Lib.Run

namespace SdcBoot.Block

/-! ## 1. Buffers, the ring and the device -/

/-- `struct buffer`, with one field for each bit of `b_flag`, and of the DPB the one field
`flush1` reads. -/
structure Buffer (S : Type) where
  bUnit : Nat
  bBlkno : Nat
  dirty : Bool
  valid : Bool
  data : Bool
  dir : Bool
  fat : Bool
  uncache : Bool
  bCopies : Nat
  bOffset : Nat
  dpbXfatsize : Nat
  bBuffer : S

/-- The outcome of a transfer.  After a failure each block of the transfer, in memory for a read
and on the device for a write, may hold anything. -/
inductive Outcome (S : Type) where
  | done
  | failed (junk : Nat → S)
  | ignored (junk : Nat → S)

/-- The buffers, the device behind them, and the outcomes to come. -/
structure Cache (S : Type) where
  ring : List Nat
  buf : Nat → Buffer S
  dev : Nat → Nat → S
  reads : List (Outcome S)
  writes : List (Outcome S)

variable {S : Type}

/-- `b_flag = 0`. -/
def Buffer.noFlags (b : Buffer S) : Buffer S :=
  { b with
    dirty := false, valid := false, data := false, dir := false, fat := false, uncache := false }

/-- The buffer holds the block `blkno` of the unit `dsk`. -/
def Buffer.holds (b : Buffer S) (dsk blkno : Nat) : Bool :=
  b.bBlkno == blkno && b.valid && b.bUnit == dsk

/-- How often `flush1` writes the buffer. -/
def Buffer.copies (b : Buffer S) : Nat :=
  if b.fat then b.bCopies else 1

/-- The distance between the copies.  `b_offset` is 0 on FAT32. -/
def Buffer.stride (b : Buffer S) : Nat :=
  if b.fat then (if b.bOffset = 0 then b.dpbXfatsize else b.bOffset) else 0

def Cache.setBuf (c : Cache S) (i : Nat) (b : Buffer S) : Cache S :=
  { c with buf := Function.update c.buf i b }

/-- `move_buffer` and the assignment to `firstbuf`. -/
def Cache.toFront (c : Cache S) (i : Nat) : Cache S :=
  { c with ring := i :: c.ring.erase i }

/-- `contents` on the blocks of `[blkno, blkno + n)`. -/
def setBlocks (dev : Nat → Nat → S) (dsk blkno n : Nat) (contents : Nat → S) : Nat → Nat → S :=
  fun u b => if u = dsk ∧ blkno ≤ b ∧ b < blkno + n then contents b else dev u b

/-! ## 2. `dskxfer` -/

/-- `dskxfer` with DSKREAD: whether an error is returned, and what stands in memory for each
block read. -/
def Cache.dskread (c : Cache S) (dsk : Nat) : Bool × (Nat → S) × Cache S :=
  match c.reads with
  | [] => (false, c.dev dsk, c)
  | .done :: rs => (false, c.dev dsk, { c with reads := rs })
  | .failed junk :: rs => (true, junk, { c with reads := rs })
  | .ignored junk :: rs => (false, junk, { c with reads := rs })

/-- `dskxfer` with DSKWRITE. -/
def Cache.dskwrite (c : Cache S) (dsk blkno n : Nat) (contents : Nat → S) : Bool × Cache S :=
  match c.writes with
  | [] => (false, { c with dev := setBlocks c.dev dsk blkno n contents })
  | .done :: ws => (false, { c with dev := setBlocks c.dev dsk blkno n contents, writes := ws })
  | .failed junk :: ws => (true, { c with dev := setBlocks c.dev dsk blkno n junk, writes := ws })
  | .ignored junk :: ws => (false, { c with dev := setBlocks c.dev dsk blkno n junk, writes := ws })

/-! ## 3. Writing a buffer out -/

/-- The loop of `flush1` over the copies of a sector. -/
def Cache.writeCopies (unit stride : Nat) (contents : S) : Nat → Nat → Cache S → Bool × Cache S
  | 0, _, c => (true, c)
  | n + 1, blkno, c =>
    let w := c.dskwrite unit blkno 1 fun _ => contents
    let rest := writeCopies unit stride contents n (blkno + stride) w.2
    (!w.1 && rest.1, rest.2)

/-- `flush1`.  The buffer is marked clean even when a write failed, and not valid then. -/
def Cache.flush1 (c : Cache S) (i : Nat) : Bool × Cache S :=
  let b := c.buf i
  let w := if b.valid && b.dirty then
      Cache.writeCopies b.bUnit b.stride b.bBuffer b.copies b.bBlkno c
    else (true, c)
  (w.1, w.2.setBuf i { b with dirty := false, valid := b.valid && w.1 })

/-- The walk of the flushing functions around the ring: those of `is` that `sel` selects are
written out. -/
def Cache.flushEach (sel : Buffer S → Bool) : List Nat → Cache S → Bool × Cache S
  | [], c => (true, c)
  | i :: is, c =>
    if sel (c.buf i) then
      let f := c.flush1 i
      let rest := flushEach sel is f.2
      (f.1 && rest.1, rest.2)
    else flushEach sel is c

/-- `flush_buffers`. -/
def Cache.flushBuffers (c : Cache S) (dsk : Nat) : Bool × Cache S :=
  Cache.flushEach (fun b => b.bUnit == dsk) c.ring c

/-- Every buffer of the ring that `sel` selects is changed by `f`. -/
def Cache.mapRing (c : Cache S) (sel : Buffer S → Bool) (f : Buffer S → Buffer S) : Cache S :=
  { c with buf := fun i => if i ∈ c.ring ∧ sel (c.buf i) then f (c.buf i) else c.buf i }

/-- `flush`.  The walk also clears BFR_VALID, in each buffer right after its `flush1`. -/
def Cache.flush (c : Cache S) : Bool × Cache S :=
  let f := Cache.flushEach (fun _ => true) c.ring c
  (f.1, f.2.mapRing (fun _ => true) fun b => { b with valid := false })

def Cache.setinvld (c : Cache S) (dsk : Nat) : Cache S :=
  c.mapRing (fun b => b.bUnit == dsk) Buffer.noFlags

/-- The test of `DeleteBlockInBufferCache`. -/
def Buffer.inRange (b : Buffer S) (blknolow blknohigh dsk : Nat) : Bool :=
  decide (blknolow ≤ b.bBlkno) && decide (b.bBlkno ≤ blknohigh) && b.valid && b.bUnit == dsk

/-- `DeleteBlockInBufferCache` with XFR_READ. -/
def Cache.deleteForRead (c : Cache S) (blknolow blknohigh dsk : Nat) : Cache S :=
  (Cache.flushEach (fun b => b.inRange blknolow blknohigh dsk) c.ring c).2

/-- `DeleteBlockInBufferCache` with XFR_WRITE. -/
def Cache.deleteForWrite (c : Cache S) (blknolow blknohigh dsk : Nat) : Cache S :=
  c.mapRing (fun b => b.inRange blknolow blknohigh dsk) Buffer.noFlags

/-! ## 4. `searchblock` and `getblk` -/

/-- The buffer `searchblock` gives up when no buffer holds the block: the last one marked
UNCACHE; or, when the first buffer is a FAT buffer and there are fewer than three of these, the
last that is not; or the last of the ring. -/
def Cache.victim (c : Cache S) : Nat :=
  match (c.ring.filter fun i => (c.buf i).uncache).getLast? with
  | some i => i
  | none =>
    match c.ring with
    | [] => 0
    | first :: rest =>
      if (c.buf first).fat ∧ (c.ring.filter fun i => (c.buf i).fat).length < 3 then
        (c.ring.filter fun i => !(c.buf i).fat).getLastD (rest.getLastD first)
      else rest.getLastD first

/-- `searchblock`.  A hit loses the UNCACHE mark, a victim gets it. -/
def Cache.searchblock (c : Cache S) (blkno dsk : Nat) : Nat × Cache S :=
  match c.ring.find? fun i => (c.buf i).holds dsk blkno with
  | some i => (i, (c.setBuf i { c.buf i with uncache := false }).toFront i)
  | none => (c.victim, (c.setBuf c.victim { c.buf c.victim with uncache := true }).toFront c.victim)

/-- The end of `getblk`: `b_flag = BFR_VALID | BFR_DATA`, and the buffer stands for the block. -/
def Cache.claim (c : Cache S) (i blkno dsk : Nat) : Cache S :=
  c.setBuf i { (c.buf i).noFlags with valid := true, data := true, bUnit := dsk, bBlkno := blkno }

/-- `getblk`.  When the read fails, the buffer keeps its old block number and its flags, and the
contents are what the transfer left. -/
def Cache.getblk (c : Cache S) (blkno dsk : Nat) (overwrite : Bool) : Option Nat × Cache S :=
  let s := c.searchblock blkno dsk
  if !(s.2.buf s.1).uncache then (some s.1, s.2)
  else
    let f := s.2.flush1 s.1
    if !f.1 then (none, f.2)
    else if overwrite then (some s.1, f.2.claim s.1 blkno dsk)
    else
      let r := f.2.dskread dsk
      let c' := r.2.2.setBuf s.1 { r.2.2.buf s.1 with bBuffer := r.2.1 blkno }
      if r.1 then (none, c') else (some s.1, c'.claim s.1 blkno dsk)

/-- A caller changes the buffer it was given and sets BFR_DIRTY | BFR_VALID. -/
def Cache.modify (c : Cache S) (i : Nat) (contents : S) : Cache S :=
  c.setBuf i { c.buf i with bBuffer := contents, dirty := true, valid := true }

/-- What `getFATblock` notes in the buffer it was given. -/
def Cache.markFat (c : Cache S) (i copies offset xfatsize : Nat) : Cache S :=
  c.setBuf i { c.buf i with
    data := false, dir := false, fat := true, valid := true
    bCopies := copies, bOffset := offset, dpbXfatsize := xfatsize }

end SdcBoot.Block
