/-
# `LBA_Transfer`: sectors between memory and the BIOS

`LBA_Transfer` of `kernel/dsk.c` cuts a transfer into calls of the BIOS.  A call may not cross a
64 KiB boundary of memory, nor, by cylinder, head and sector, the end of a track; what cannot go
directly goes through `DiskTransferBuffer`, one sector at a time.  The BIOS is an argument: a
function from what happened so far and the call to the error code.

The place of a sector is computed from the geometry the BIOS has (`ddt_defbpb` of a hard disk), but
the end of the track is taken from the boot sector (`ddt_bpb`).  `lba_transfer_matched` says that
this is right for just the drives where the two agree.  It also says for which buffers: `adjust_far`
adds to the segment in a word, so those that go on beyond 1 MiB wrap to the start of memory, unless
their sectors begin in segment FFFF when they come there.

The change of diskettes, the number of sectors in the table of interrupt 1e and the number of the
physical drive are left out.
-/
import Mathlib.Data.List.Basic
import Mathlib.Tactic.Linarith

namespace SdcBoot.Driver

open List

/-! ## 1. Far pointers -/

/-- A far pointer: two words. -/
structure FarPtr where
  seg : Nat
  off : Nat
  seg_lt : seg < 0x10000
  off_lt : off < 0x10000
  deriving DecidableEq

/-- `MK_FP`, from sums that may be too large for a word. -/
def mkFp (seg off : Nat) : FarPtr :=
  ⟨seg % 0x10000, off % 0x10000, Nat.mod_lt _ (by decide), Nat.mod_lt _ (by decide)⟩

@[simp] theorem mkFp_seg (seg off : Nat) : (mkFp seg off).seg = seg % 0x10000 := rfl

@[simp] theorem mkFp_off (seg off : Nat) : (mkFp seg off).off = off % 0x10000 := rfl

/-- The byte of memory it points to. -/
def FarPtr.linear (p : FarPtr) : Nat := p.seg * 16 + p.off

/-- `adjust_far`. -/
def adjustFar (p : FarPtr) : FarPtr :=
  if p.seg = 0xffff then p else mkFp (p.seg + p.off / 16) (p.off % 16)

/-- `(char FAR *)p + n`: only the offset changes. -/
def FarPtr.add (p : FarPtr) (n : Nat) : FarPtr := mkFp p.seg (p.off + n)

/-! ## 2. Drives, and calls of the BIOS -/

/-- `bpb`, as far as the driver reads it. -/
structure Bpb where
  bpbNsize : UInt16
  bpbHuge : UInt32
  bpbNsecs : UInt16
  bpbNheads : UInt16

/-- `ddt`, with the bits of `ddt_descflags` the driver tests. -/
structure Ddt where
  ddtBpb : Bpb
  ddtDefbpb : Bpb
  ddtOffset : UInt32
  dfFixed : Bool
  dfNoaccess : Bool
  dfLba : Bool
  dfWrtverify : Bool

/-- The geometry that LBA_to_CHS uses: "those are taken from the BIOS, not from some random boot
sector, except when we're dealing with a floppy". -/
def Ddt.pbpb (pddt : Ddt) : Bpb := if pddt.dfFixed then pddt.ddtDefbpb else pddt.ddtBpb

/-- `LBA_READ`, `LBA_WRITE`, `LBA_WRITE_VERIFY`, `LBA_VERIFY` and `LBA_FORMAT`. -/
inductive LbaMode where
  | read | write | writeVerify | verify | format
  deriving DecidableEq

/-- `fl_lba_ReadWrite` with its function, and the four calls of the older interface. -/
inductive BiosOp where
  | lba (mode : LbaMode)
  | flRead | flWrite | flVerify | flFormat
  deriving DecidableEq

/-- `struct CHS`. -/
structure Chs where
  cylinder : Nat
  head : Nat
  sector : Nat
  deriving DecidableEq

inductive Place where
  | lba (block : Nat)
  | chs (chs : Chs)
  deriving DecidableEq

/-- `transfer_address`.  (A user's buffer that is `DiskTransferBuffer` itself would be copied onto
itself, which changes nothing.) -/
inductive Target where
  | user (p : FarPtr)
  | diskTransferBuffer
  deriving DecidableEq

structure BiosCall where
  op : BiosOp
  place : Place
  count : Nat
  address : Target
  deriving DecidableEq

/-- What happens, in order: a sector is copied into `DiskTransferBuffer`, the BIOS is called while
`todo` sectors are to be done, the drive is reset, a sector is copied out. -/
inductive Event where
  | copyIn (src : FarPtr)
  | bios (todo : Nat) (call : BiosCall)
  | reset
  | copyOut (dst : FarPtr)
  deriving DecidableEq

/-- The BIOS: the error code, which may depend on everything before. -/
abbrev Bios : Type := List Event → BiosCall → Nat

def SEC_SIZE : Nat := 512
def N_RETRY : Nat := 5

/-! ## 3. `LBA_Transfer` -/

inductive Fault where
  | divideByZero
  | cylinder

/-- `LBA_to_CHS`; `unsigned` has 16 bits. -/
def lbaToChs (lbaAddress : Nat) (pddt : Ddt) : Except Fault Chs :=
  let nsecs := pddt.pbpb.bpbNsecs.toNat
  let hs := nsecs * pddt.pbpb.bpbNheads.toNat % 0x10000
  if hs = 0 then .error .divideByZero
  else if lbaAddress / hs > 1023 then .error .cylinder
  else .ok ⟨lbaAddress / hs, lbaAddress % hs / nsecs, lbaAddress % hs % nsecs + 1⟩

/-- `sectors_to_dma_boundary`. -/
def sectorsToDmaBoundary (buffer : FarPtr) : Nat :=
  let dmaOff := buffer.linear % 0x10000
  if dmaOff = 0 then 0xffff / SEC_SIZE else (0x10000 - dmaOff) / SEC_SIZE

/-- `DMA_max_transfer`. -/
def dmaMaxTransfer (buffer : FarPtr) (count : Nat) : Nat := min count (sectorsToDmaBoundary buffer)

/-- "Avoid overflow at end of track." -/
def cutAtTrack (nsecs sector count : Nat) : Nat :=
  if (sector + count) % 0x10000 > (nsecs + 1) % 0x10000 then (nsecs + 1 + 0x10000 - sector) % 0x10000
  else count

/-- The operation of the older interface. -/
def flOp : LbaMode → BiosOp
  | .read => .flRead
  | .verify => .flVerify
  | .format => .flFormat
  | .write => .flWrite
  | .writeVerify => .flWrite

/-- Two calls of the BIOS, the second if the first succeeds. -/
def callBoth (bios : Bios) (todo : Nat) (log : List Event) (c1 c2 : BiosCall) : Nat × List Event :=
  let error := bios log c1
  let log := log ++ [.bios todo c1]
  if error = 0 then (bios log c2, log ++ [.bios todo c2]) else (error, log)

/-- The body of the loop over the retries: the error code, the count, and what happened. -/
def tryOnce (bios : Bios) (pddt : Ddt) (mode : LbaMode) (lbaAddress todo : Nat) (address : Target)
    (count : Nat) (log : List Event) : Except Fault (Nat × Nat × List Event) :=
  if pddt.dfLba && mode != .format then
    let call (mode : LbaMode) : BiosCall := ⟨.lba mode, .lba lbaAddress, count, address⟩
    if pddt.dfWrtverify || mode != .writeVerify then
      .ok (bios log (call mode), count, log ++ [.bios todo (call mode)])
    else
      -- verify requested, but not supported
      let r := callBoth bios todo log (call .write) (call .verify)
      .ok (r.1, count, r.2)
  else
    match lbaToChs lbaAddress pddt with
    | .error f => .error f
    | .ok chs =>
      let count := cutAtTrack pddt.ddtBpb.bpbNsecs.toNat chs.sector count
      let call (op : BiosOp) : BiosCall := ⟨op, .chs chs, count, address⟩
      if mode = .writeVerify then
        let r := callBoth bios todo log (call (flOp mode)) (call .flVerify)
        .ok (r.1, count, r.2)
      else .ok (bios log (call (flOp mode)), count, log ++ [.bios todo (call (flOp mode))])

/-- The retries: `n` are left. -/
def retries (bios : Bios) (pddt : Ddt) (mode : LbaMode) (lbaAddress todo : Nat) (address : Target) :
    Nat → Nat → Nat → List Event → Except Fault (Nat × Nat × List Event)
  | 0, error, count, log => .ok (error, count, log)
  | n + 1, _, count, log =>
    match tryOnce bios pddt mode lbaAddress todo address count log with
    | .error f => .error f
    | .ok (error, count, log) =>
      if error = 0 then .ok (error, count, log)
      else retries bios pddt mode lbaAddress todo address n error count (log ++ [.reset])

/-- How a transfer ends: with a code and the number of sectors transferred, or not at all. -/
inductive Outcome where
  | returned (code transferred : Nat) (log : List Event)
  | divideByZero
  | running

/-- Whether the data of this mode goes from memory to the disk, or back. -/
def LbaMode.writes (mode : LbaMode) : Bool := mode == .write || mode == .writeVerify

/-- The loop of `LBA_Transfer`, `fuel` rounds at most. -/
def transferLoop (bios : Bios) (pddt : Ddt) (mode : LbaMode) :
    Nat → FarPtr → Nat → Nat → Nat → List Event → Outcome
  | 0, _, _, _, _, _ => .running
  | fuel + 1, buffer, lbaAddress, totaltodo, transferred, log =>
    if totaltodo = 0 then .returned 0 transferred log
    else
      let count := dmaMaxTransfer buffer totaltodo
      let bounce := buffer.seg ≥ 0xa000 || count == 0
      let address : Target := if bounce then .diskTransferBuffer else .user buffer
      let count := if bounce then 1 else count
      let log := if bounce && mode.writes then log ++ [.copyIn buffer] else log
      match retries bios pddt mode lbaAddress totaltodo address N_RETRY 0 count log with
      | .error .divideByZero => .divideByZero
      | .error .cylinder => .returned 1 transferred log
      | .ok (error, count, log) =>
        if error ≠ 0 then .returned error transferred log
        else
          let log := if bounce && mode == .read then log ++ [.copyOut buffer] else log
          transferLoop bios pddt mode fuel (adjustFar (buffer.add (count * 512)))
            ((lbaAddress + count) % 0x100000000) ((totaltodo + 0x10000 - count) % 0x10000)
            ((transferred + count) % 0x10000) log

/-- **`LBA_Transfer`**, `fuel` rounds of its loop at most. -/
def lbaTransfer (bios : Bios) (pddt : Ddt) (mode : LbaMode) (buffer : FarPtr)
    (lbaAddress totaltodo fuel : Nat) : Outcome :=
  if mode = .format ∧ pddt.dfFixed = true then .returned 0 0 []
  else transferLoop bios pddt mode fuel (adjustFar buffer) lbaAddress totaltodo 0 []

/-! ## 4. What a transfer is to do -/

/-- The sector a call starts at, in the geometry `g`. -/
def BiosCall.sector (g : Bpb) (c : BiosCall) : Nat :=
  match c.place with
  | .lba n => n
  | .chs p => (p.cylinder * g.bpbNheads.toNat + p.head) * g.bpbNsecs.toNat + (p.sector - 1)

/-- The call does not cross the end of a track; sectors addressed by number have none. -/
def BiosCall.InTrack (g : Bpb) (c : BiosCall) : Prop :=
  match c.place with
  | .lba _ => True
  | .chs p => 1 ≤ p.sector ∧ p.sector + c.count ≤ g.bpbNsecs.toNat + 1

/-- Where the call reads or writes memory; `dtb` is the address of `DiskTransferBuffer`. -/
def BiosCall.memory (dtb : Nat) (c : BiosCall) : Nat :=
  match c.address with
  | .user p => p.linear
  | .diskTransferBuffer => dtb

/-- A call as it should be, in a transfer that ends before the sector `stop`: it starts with the
first of the `todo` sectors, asks for at least one and for no more than these, and stays inside a
track and inside 64 KiB. -/
structure Proper (g : Bpb) (dtb stop todo : Nat) (c : BiosCall) : Prop where
  next : c.sector g + todo = stop
  some : 1 ≤ c.count
  most : c.count ≤ todo
  track : c.InTrack g
  page : c.memory dtb % 0x10000 + 512 * c.count ≤ 0x10000

/-- The sectors from `n` on, with the places of memory from `a` on. -/
def pairs (n a count : Nat) : List (Nat × Nat) := (List.range count).map fun i => (n + i, a + 512 * i)

def BiosOp.reads (op : BiosOp) : Bool := op == .lba .read || op == .flRead

def BiosOp.writes (op : BiosOp) : Bool :=
  op == .lba .write || op == .lba .writeVerify || op == .flWrite

/-- Which sector goes from or to which place of memory, in order.  `held` is what is in
`DiskTransferBuffer`: the place a sector was copied from, or the sector that was read. -/
def moved (g : Bpb) : Nat → List Event → List (Nat × Nat)
  | _, [] => []
  | _, .copyIn src :: log => moved g src.linear log
  | held, .reset :: log => moved g held log
  | held, .copyOut dst :: log => (held, dst.linear) :: moved g held log
  | held, .bios _ c :: log =>
    if c.op.reads then
      match c.address with
      | .user p => pairs (c.sector g) p.linear c.count ++ moved g held log
      | .diskTransferBuffer => moved g (c.sector g) log
    else if c.op.writes then
      match c.address with
      | .user p => pairs (c.sector g) p.linear c.count ++ moved g held log
      | .diskTransferBuffer => pairs (c.sector g) held c.count ++ moved g held log
    else moved g held log

/-- A sector that is copied lies in its segment: `fmemcpy` does not wrap. -/
def Event.Inside : Event → Prop
  | .copyIn src => src.off + SEC_SIZE ≤ 0x10000
  | .copyOut dst => dst.off + SEC_SIZE ≤ 0x10000
  | _ => True

/-- **The transfer is done**: it ends without an error, each sector has moved once and in order,
and every call was proper. -/
def Transferred (g : Bpb) (dtb : Nat) (buffer : FarPtr) (lbaAddress total : Nat) (o : Outcome) :
    Prop :=
  ∃ log, o = .returned 0 total log ∧
    ((∀ held, moved g held log = pairs lbaAddress buffer.linear total) ∧ ∀ e ∈ log, e.Inside) ∧
    ∀ todo c, .bios todo c ∈ log → Proper g dtb (lbaAddress + total) todo c

/-- A BIOS that succeeds whenever it is given at least one sector inside one track. -/
def GoodBios (g : Bpb) (bios : Bios) : Prop :=
  ∀ log c, 1 ≤ c.count → c.InTrack g → bios log c = 0

/-- The buffer lies where the pointers of the loop reach: its sectors begin below 1 MiB, or it ends
in segment FFFF and is in that segment from its start, or gets there with one of its sectors. -/
def Addressable (buffer : FarPtr) (total : Nat) : Prop :=
  total = 0 ∨
    buffer.seg ≠ 0xffff ∧ buffer.linear < 0x100000 ∧
      (buffer.linear + 512 * (total - 1) < 0x100000 ∨
        0x1f0 ≤ buffer.linear % 512 ∧ buffer.linear + 512 * total ≤ 0x10fff0) ∨
    buffer.seg = 0xffff ∧ buffer.off + 512 * total ≤ 0x10000

instance (buffer : FarPtr) (total : Nat) : Decidable (Addressable buffer total) :=
  inferInstanceAs (Decidable (_ ∨ _))

/-- The sectors have numbers, and where they are addressed by cylinder, one below 1024. -/
def InRange (pddt : Ddt) (lbaAddress total : Nat) : Prop :=
  lbaAddress + total ≤ 0x100000000 ∧
    (pddt.dfLba = false → ∀ i, i < total →
      (lbaAddress + i) / (pddt.pbpb.bpbNsecs.toNat * pddt.pbpb.bpbNheads.toNat) < 1024)

/-- Every transfer of the drive is done, where the buffer can be addressed. -/
def TransfersAll (pddt : Ddt) (dtb : Nat) : Prop :=
  ∀ (mode : LbaMode) (buffer : FarPtr) (lbaAddress : UInt32) (total : UInt16) (bios : Bios),
    mode = .read ∨ mode.writes = true → GoodBios pddt.pbpb bios →
    InRange pddt lbaAddress.toNat total.toNat → Addressable buffer total.toNat →
    ∃ fuel, Transferred pddt.pbpb dtb buffer lbaAddress.toNat total.toNat
      (lbaTransfer bios pddt mode buffer lbaAddress.toNat total.toNat fuel)

/-- **The geometries match**: sectors are addressed by number, or the tracks of the boot sector are
those of the BIOS and their numbers fit into words. -/
def Matched (pddt : Ddt) : Prop :=
  pddt.dfLba = true ∨
    0 < pddt.pbpb.bpbNsecs.toNat * pddt.pbpb.bpbNheads.toNat ∧
    pddt.pbpb.bpbNsecs.toNat * pddt.pbpb.bpbNheads.toNat < 0x10000 ∧
    pddt.pbpb.bpbNsecs.toNat + 127 < 0x10000 ∧
    pddt.ddtBpb.bpbNsecs.toNat = pddt.pbpb.bpbNsecs.toNat

/-! ## 5. One try -/

/-- The calls of a try that succeeds: one moves the data, and one more may verify it. -/
structure Carried (g : Bpb) (mode : LbaMode) (lbaAddress todo : Nat) (address : Target) (n : Nat)
    (evs : List Event) : Prop where
  intro ::
  calls : ∃ c, (evs = [.bios todo c] ∨ ∃ v : BiosCall, evs = [.bios todo c, .bios todo v] ∧
      v.op.reads = false ∧ v.op.writes = false ∧ v.place = c.place ∧ v.count = c.count ∧
      v.address = c.address) ∧
    (c.op.reads = (mode == .read)) ∧ c.op.writes = mode.writes ∧ c.sector g = lbaAddress ∧
    c.count = n ∧ c.address = address ∧ c.InTrack g

variable {pddt : Ddt} {count dtb lbaAddress n todo : Nat} {g : Bpb} {mode : LbaMode} {bios : Bios}
  {evs log : List Event} {address : Target}

/-- The place of a sector in a geometry whose numbers fit. -/
theorem lbaToChs_spec (hpos : 0 < pddt.pbpb.bpbNsecs.toNat * pddt.pbpb.bpbNheads.toNat)
    (hword : pddt.pbpb.bpbNsecs.toNat * pddt.pbpb.bpbNheads.toNat < 0x10000)
    (hcyl : lbaAddress / (pddt.pbpb.bpbNsecs.toNat * pddt.pbpb.bpbNheads.toNat) < 1024) :
    ∃ p, lbaToChs lbaAddress pddt = .ok p ∧ 1 ≤ p.sector ∧
      p.sector ≤ pddt.pbpb.bpbNsecs.toNat ∧
      (p.cylinder * pddt.pbpb.bpbNheads.toNat + p.head) * pddt.pbpb.bpbNsecs.toNat +
        (p.sector - 1) = lbaAddress := by
  unfold lbaToChs
  dsimp only
  rw [Nat.mod_eq_of_lt hword, if_neg (by omega), if_neg (by omega)]
  set S := pddt.pbpb.bpbNsecs.toNat with hS
  set H := pddt.pbpb.bpbNheads.toNat with hH
  have hSpos : 0 < S := Nat.pos_of_mul_pos_right hpos
  refine ⟨_, rfl, Nat.succ_le_succ (Nat.zero_le _), Nat.mod_lt _ hSpos, ?_⟩
  dsimp only
  rw [Nat.add_sub_cancel, add_mul]
  have h1 : lbaAddress % (S * H) / S * S + lbaAddress % (S * H) % S = lbaAddress % (S * H) :=
    Nat.div_add_mod' _ _
  have h2 : lbaAddress / (S * H) * (S * H) + lbaAddress % (S * H) = lbaAddress :=
    Nat.div_add_mod' _ _
  have h3 : lbaAddress / (S * H) * H * S = lbaAddress / (S * H) * (S * H) := by
    rw [mul_assoc, mul_comm H S]
  omega

/-- The cut at the end of the track, where the numbers fit into words. -/
theorem cutAtTrack_spec {nsecs sector : Nat} (h1 : 1 ≤ sector) (h2 : sector ≤ nsecs)
    (hword : nsecs + 127 < 0x10000) (hc : 1 ≤ count) (hmax : count ≤ 127) :
    1 ≤ cutAtTrack nsecs sector count ∧ cutAtTrack nsecs sector count ≤ count ∧
      sector + cutAtTrack nsecs sector count ≤ nsecs + 1 := by
  unfold cutAtTrack
  split <;> omega

theorem lba_reads (mode : LbaMode) : (BiosOp.lba mode).reads = (mode == .read) := by
  cases mode <;> rfl

theorem lba_writes (mode : LbaMode) : (BiosOp.lba mode).writes = mode.writes := by
  cases mode <;> rfl

theorem flOp_reads (mode : LbaMode) : (flOp mode).reads = (mode == .read) := by
  cases mode <;> rfl

theorem flOp_writes (mode : LbaMode) : (flOp mode).writes = mode.writes := by
  cases mode <;> rfl

variable {c c1 c2 : BiosCall} {log' : List Event} {buffer : FarPtr} {total : Nat}

theorem Carried.one (hreads : c.op.reads = (mode == .read)) (hwrites : c.op.writes = mode.writes)
    (hsector : c.sector g = lbaAddress)
    (htrack : c.InTrack g) : Carried g mode lbaAddress todo c.address c.count [.bios todo c] :=
  ⟨c, .inl rfl, hreads, hwrites, hsector, rfl, rfl, htrack⟩

theorem Carried.two {op : BiosOp} (hr : op.reads = false) (hw : op.writes = false)
    (hreads : c.op.reads = (mode == .read)) (hwrites : c.op.writes = mode.writes)
    (hsector : c.sector g = lbaAddress) (htrack : c.InTrack g) :
    Carried g mode lbaAddress todo c.address c.count
      [.bios todo c, .bios todo ⟨op, c.place, c.count, c.address⟩] :=
  ⟨c, .inr ⟨_, rfl, hr, hw, rfl, rfl, rfl⟩, hreads, hwrites, hsector, rfl, rfl, htrack⟩

/-- Two calls that succeed. -/
theorem callBoth_ok (h1 : bios log c1 = 0) (h2 : bios (log ++ [.bios todo c1]) c2 = 0) :
    callBoth bios todo log c1 c2 = (0, log ++ [.bios todo c1, .bios todo c2]) := by
  unfold callBoth
  rw [if_pos h1, h2, append_assoc]
  rfl

/-- **A try on a matched drive succeeds**, and does at least one sector. -/
theorem tryOnce_spec {bios : Bios} {pddt : Ddt} {mode : LbaMode} {lbaAddress todo count : Nat}
    {address : Target} (hmatch : Matched pddt) (hformat : mode ≠ .format)
    (hbios : GoodBios pddt.pbpb bios) (hcyl : pddt.dfLba = false →
      lbaAddress / (pddt.pbpb.bpbNsecs.toNat * pddt.pbpb.bpbNheads.toNat) < 1024)
    (hc : 1 ≤ count) (hmax : count ≤ 127) (log : List Event) :
    ∃ n evs, tryOnce bios pddt mode lbaAddress todo address count log = .ok (0, n, log ++ evs) ∧
      1 ≤ n ∧ n ≤ count ∧ Carried pddt.pbpb mode lbaAddress todo address n evs := by
  unfold tryOnce
  by_cases hlba : pddt.dfLba = true
  · rw [if_pos (by simp [hlba, hformat])]
    dsimp only
    have hgood : ∀ log op, bios log ⟨op, .lba lbaAddress, count, address⟩ = 0 :=
      fun log op => hbios log _ hc trivial
    have htrack : ∀ op, BiosCall.InTrack pddt.pbpb ⟨op, .lba lbaAddress, count, address⟩ :=
      fun _ => trivial
    split
    · refine ⟨count, [.bios todo ⟨.lba mode, .lba lbaAddress, count, address⟩], by rw [hgood], hc,
        le_rfl, ?_⟩
      exact Carried.one (lba_reads mode) (lba_writes mode) rfl (htrack _)
    · rename_i hv
      obtain rfl : mode = .writeVerify := by
        by_contra hne
        exact hv (by simp [hne])
      rw [callBoth_ok (hgood _ _) (hgood _ _)]
      refine ⟨count, _, rfl, hc, le_rfl, ?_⟩
      exact Carried.two (c := ⟨.lba .write, .lba lbaAddress, count, address⟩) rfl rfl rfl rfl rfl
        (htrack _)
  · rw [if_neg (by simp [hlba])]
    obtain ⟨hpos, hword, hsec, heq⟩ := hmatch.resolve_left hlba
    obtain ⟨p, hp, hp1, hp2, hplace⟩ :=
      lbaToChs_spec hpos hword (hcyl (eq_false_of_ne_true hlba))
    obtain ⟨hn1, hn2, hn3⟩ := cutAtTrack_spec hp1 hp2 hsec hc hmax
    rw [hp]
    dsimp only
    rw [heq]
    set n := cutAtTrack pddt.pbpb.bpbNsecs.toNat p.sector count with hn
    have htrack : ∀ op, BiosCall.InTrack pddt.pbpb ⟨op, .chs p, n, address⟩ := fun _ => ⟨hp1, hn3⟩
    have hgood : ∀ log op, bios log ⟨op, .chs p, n, address⟩ = 0 :=
      fun log op => hbios log _ hn1 (htrack op)
    have hsector : ∀ op, BiosCall.sector pddt.pbpb ⟨op, .chs p, n, address⟩ = lbaAddress :=
      fun _ => hplace
    split
    · rename_i hv
      subst hv
      rw [callBoth_ok (hgood _ _) (hgood _ _)]
      refine ⟨n, _, rfl, hn1, hn2, ?_⟩
      exact Carried.two (c := ⟨.flWrite, .chs p, n, address⟩) rfl rfl rfl rfl (hsector _) (htrack _)
    · refine ⟨n, [.bios todo ⟨flOp mode, .chs p, n, address⟩], by rw [hgood], hn1, hn2, ?_⟩
      exact Carried.one (flOp_reads mode) (flOp_writes mode) (hsector _) (htrack _)

/-- No retry is needed. -/
theorem retries_first (error : Nat)
    (h : tryOnce bios pddt mode lbaAddress todo address count log = .ok (0, n, log')) :
    retries bios pddt mode lbaAddress todo address N_RETRY error count log = .ok (0, n, log') := by
  rw [N_RETRY, retries, h]
  rfl

/-! ## 6. What has moved -/

theorem pairs_append (n a k m : Nat) :
    pairs n a (k + m) = pairs n a k ++ pairs (n + k) (a + 512 * k) m := by
  simp only [pairs, range_add, map_append, map_map]
  congr 1
  refine map_congr_left fun i _ => ?_
  simp only [Function.comp_apply, Prod.mk.injEq]
  omega

theorem pairs_head (a : Nat) (h : 0 < count) : ∃ rest, pairs n a count = (n, a) :: rest := by
  obtain ⟨k, rfl⟩ := Nat.exists_eq_add_of_lt h
  refine ⟨pairs (n + 1) (a + 512 * 1) k, ?_⟩
  rw [zero_add, add_comm k 1, pairs_append]
  rfl

/-- The calls of a try with the user's buffer move its sectors. -/
theorem Carried.moved_user {p : FarPtr} (h : Carried g mode lbaAddress todo (.user p) n evs)
    (hmode : mode = .read ∨ mode.writes = true) (held : Nat) (log : List Event) :
    moved g held (evs ++ log) = pairs lbaAddress p.linear n ++ moved g held log := by
  obtain ⟨c, hevs, hreads, hwrites, hsector, hcount, haddress, -⟩ := h.calls
  have hmain : ∀ log, moved g held (.bios todo c :: log) =
      pairs lbaAddress p.linear n ++ moved g held log := by
    intro log
    rw [moved, hreads, hwrites, haddress, hsector, hcount]
    rcases hmode with rfl | hw
    · rfl
    · split <;> rfl
  rcases hevs with rfl | ⟨v, rfl, hr, hw, -⟩
  · exact hmain log
  · rw [cons_append, hmain, cons_append, moved, hr, hw]
    rfl

/-- What is read into `DiskTransferBuffer` is held there. -/
theorem Carried.moved_in (h : Carried g .read lbaAddress todo .diskTransferBuffer n evs)
    (held : Nat) (log : List Event) : moved g held (evs ++ log) = moved g lbaAddress log := by
  obtain ⟨c, hevs, hreads, hwrites, hsector, hcount, haddress, -⟩ := h.calls
  have hmain : ∀ log, moved g held (.bios todo c :: log) = moved g lbaAddress log := by
    intro log
    rw [moved, hreads, haddress, hsector]
    rfl
  rcases hevs with rfl | ⟨v, rfl, hr, hw, -⟩
  · exact hmain log
  · rw [cons_append, hmain, cons_append, moved, hr, hw]
    rfl

/-- What is held is written. -/
theorem Carried.moved_out (h : Carried g mode lbaAddress todo .diskTransferBuffer n evs)
    (hmode : mode.writes = true) (held : Nat) (log : List Event) :
    moved g held (evs ++ log) = pairs lbaAddress held n ++ moved g held log := by
  obtain ⟨c, hevs, hreads, hwrites, hsector, hcount, haddress, -⟩ := h.calls
  have hnot : (mode == LbaMode.read) = false := by
    cases mode <;> first | rfl | cases hmode
  have hmain : ∀ log, moved g held (.bios todo c :: log) =
      pairs lbaAddress held n ++ moved g held log := by
    intro log
    rw [moved, hreads, hnot, hwrites, hmode, haddress, hsector, hcount]
    rfl
  rcases hevs with rfl | ⟨v, rfl, hr, hw, -⟩
  · exact hmain log
  · rw [cons_append, hmain, cons_append, moved, hr, hw]
    rfl

section

variable (h : Carried g mode lbaAddress todo address n evs)
include h

/-- A try calls the BIOS, and nothing else. -/
theorem Carried.isBios : ∀ e ∈ evs, ∃ t c, e = .bios t c := by
  obtain ⟨c, hevs, -⟩ := h.calls
  rcases hevs with rfl | ⟨v, rfl, -⟩ <;> simp

/-- The calls of a try are proper, if the memory it uses lies inside 64 KiB. -/
theorem Carried.proper (h1 : 1 ≤ n) (hn : n ≤ todo)
    (hpage : BiosCall.memory dtb ⟨.flRead, .lba 0, n, address⟩ % 0x10000 + 512 * n ≤ 0x10000) :
    ∀ t c, .bios t c ∈ evs → Proper g dtb (lbaAddress + todo) t c := by
  obtain ⟨c, hevs, -, -, hsector, hcount, haddress, htrack⟩ := h.calls
  have hall : ∀ v : BiosCall, v.place = c.place → v.count = c.count → v.address = c.address →
      Proper g dtb (lbaAddress + todo) todo v := by
    intro v hplace hcnt haddr
    refine ⟨?_, by omega, by omega, ?_, ?_⟩
    · rw [← hsector, BiosCall.sector, BiosCall.sector, hplace]
    · rw [BiosCall.InTrack, hplace, hcnt]
      exact htrack
    · rw [BiosCall.memory, haddr, haddress, hcnt, hcount]
      exact hpage
  intro t d hd
  rcases hevs with rfl | ⟨v, rfl, -, -, hplace, hcnt, haddr⟩
  · simp only [mem_singleton, Event.bios.injEq] at hd
    obtain ⟨rfl, rfl⟩ := hd
    exact hall d rfl rfl rfl
  · simp only [mem_cons, Event.bios.injEq, not_mem_nil, or_false] at hd
    rcases hd with ⟨rfl, rfl⟩ | ⟨rfl, rfl⟩
    · exact hall d rfl rfl rfl
    · exact hall d hplace hcnt haddr

end

/-! ## 7. The loop -/

/-- A pointer that `adjust_far` leaves alone. -/
def FarPtr.Normal (p : FarPtr) : Prop := p.seg = 0xffff ∨ p.off < 16

theorem adjustFar_normal (p : FarPtr) : (adjustFar p).Normal := by
  unfold adjustFar FarPtr.Normal
  split
  · exact .inl ‹_›
  · exact .inr (by rw [mkFp_off]; omega)

/-- The buffer is normalised: its place is kept just where it can be addressed. -/
theorem addressable_adjustFar (hpos : total ≠ 0) :
    Addressable buffer total ↔
      (adjustFar buffer).linear = buffer.linear ∧ Addressable (adjustFar buffer) total := by
  unfold adjustFar
  split
  · exact (and_iff_right rfl).symm
  · have h3 := buffer.seg_lt
    unfold Addressable
    simp only [FarPtr.linear, mkFp_seg, mkFp_off]
    omega

/-- The next part of the buffer: one more round is right just where the rest can be addressed and
lies behind what was done. -/
theorem addressable_next (hnormal : buffer.Normal) (h1 : 1 ≤ n) (hmax : n ≤ 127)
    (hone : buffer.seg ≥ 0xa000 → n = 1) (hn : n < total) :
    Addressable buffer total ↔ (buffer.seg = 0xffff → buffer.off + SEC_SIZE ≤ 0x10000) ∧
      (adjustFar (buffer.add (n * 512))).linear = buffer.linear + 512 * n ∧
      Addressable (adjustFar (buffer.add (n * 512))) (total - n) := by
  have h3 := buffer.seg_lt
  have hadd : (buffer.add (n * 512)).seg = buffer.seg := Nat.mod_eq_of_lt h3
  unfold FarPtr.Normal at hnormal
  by_cases hseg : buffer.seg = 0xffff
  · rw [adjustFar, if_pos (hadd.trans hseg)]
    unfold Addressable FarPtr.add SEC_SIZE
    simp only [FarPtr.linear, mkFp_seg, mkFp_off]
    omega
  · have hadj : adjustFar (buffer.add (n * 512)) =
        mkFp (buffer.seg + (buffer.off + n * 512) % 0x10000 / 16)
          ((buffer.off + n * 512) % 0x10000 % 16) := by
      rw [adjustFar, hadd, if_neg hseg]
      rfl
    rw [hadj]
    unfold Addressable
    simp only [FarPtr.linear, mkFp_seg, mkFp_off]
    omega

/-- The last part of it. -/
theorem addressable_last (hnormal : buffer.Normal) (hpos : 1 ≤ total) (hmax : total ≤ 127)
    (hone : buffer.seg ≥ 0xa000 → total = 1) :
    Addressable buffer total ↔ (buffer.seg = 0xffff → buffer.off + SEC_SIZE ≤ 0x10000) := by
  have h3 := buffer.seg_lt
  unfold FarPtr.Normal at hnormal
  unfold Addressable SEC_SIZE FarPtr.linear
  omega

/-- The target, the count and the copies of one round. -/
theorem round_target {buffer : FarPtr} {total dtb : Nat} (hdtb : dtb % 0x10000 + 512 ≤ 0x10000)
    (hpos : total ≠ 0) :
    let count := dmaMaxTransfer buffer total
    let bounce : Bool := buffer.seg ≥ 0xa000 || count == 0
    let n := if bounce then 1 else count
    1 ≤ n ∧ n ≤ 127 ∧ n ≤ total ∧ (buffer.seg ≥ 0xa000 → n = 1) ∧
      BiosCall.memory dtb ⟨.flRead, .lba 0, n,
        if bounce then .diskTransferBuffer else .user buffer⟩ % 0x10000 + 512 * n ≤ 0x10000 := by
  intro count bounce n
  have hroom : sectorsToDmaBoundary buffer ≤ 127 ∧ (sectorsToDmaBoundary buffer ≠ 0 →
      buffer.linear % 0x10000 + 512 * sectorsToDmaBoundary buffer ≤ 0x10000) := by
    unfold sectorsToDmaBoundary SEC_SIZE
    dsimp only
    split <;> omega
  have hcount : count ≤ total ∧ count ≤ sectorsToDmaBoundary buffer :=
    ⟨min_le_left _ _, min_le_right _ _⟩
  by_cases hb : bounce = true
  · simp only [n, hb, if_true]
    exact ⟨le_refl 1, by decide, by omega, fun _ => trivial, hdtb⟩
  · have hseg : buffer.seg < 0xa000 ∧ count ≠ 0 := by
      simpa [bounce] using hb
    simp only [n, eq_false_of_ne_true hb, Bool.false_eq_true, if_false, BiosCall.memory]
    omega

/-- **The loop on a matched drive**: it ends, and what has moved is right just where the buffer can
be addressed. -/
theorem transferLoop_spec (hmatch : Matched pddt) (hmode : mode = .read ∨ mode.writes = true)
    (hbios : GoodBios pddt.pbpb bios) (hdtb : dtb % 0x10000 + 512 ≤ 0x10000) :
    ∀ (total fuel : Nat) (buffer : FarPtr) (lbaAddress transferred : Nat) (log : List Event),
      total < fuel → transferred + total < 0x10000 → InRange pddt lbaAddress total →
      buffer.Normal →
      ∃ evs, transferLoop bios pddt mode fuel buffer lbaAddress total transferred log =
          .returned 0 (transferred + total) (log ++ evs) ∧
        (∀ held, (0 < total →
            ∃ rest, moved pddt.pbpb held evs = (lbaAddress, buffer.linear) :: rest) ∧
          ((moved pddt.pbpb held evs = pairs lbaAddress buffer.linear total ∧ ∀ e ∈ evs, e.Inside) ↔
            Addressable buffer total)) ∧
        ∀ t c, .bios t c ∈ evs → Proper pddt.pbpb dtb (lbaAddress + total) t c := by
  intro total
  induction total using Nat.strongRecOn with
  | ind total ih =>
    intro fuel buffer lbaAddress transferred log hfuel hword hrange hnormal
    obtain ⟨fuel, rfl⟩ := Nat.exists_eq_succ_of_ne_zero (by omega : fuel ≠ 0)
    rw [transferLoop]
    by_cases hzero : total = 0
    · subst hzero
      exact ⟨[], by simp, fun _ => ⟨nofun, fun _ => .inl rfl, fun _ => ⟨rfl, nofun⟩⟩, nofun⟩
    rw [if_neg hzero]
    obtain ⟨hc1, hc127, hctot, hcone, hcpage⟩ := @round_target buffer total dtb hdtb hzero
    dsimp only
    set count := dmaMaxTransfer buffer total with hcount
    set bounce : Bool := buffer.seg ≥ 0xa000 || count == 0 with hbounce
    set address : Target := if bounce = true then .diskTransferBuffer else .user buffer with haddr
    set c0 := if bounce = true then 1 else count with hc0
    set pre : List Event := if bounce && mode.writes then [.copyIn buffer] else [] with hpre
    have hlog : (if bounce && mode.writes then log ++ [.copyIn buffer] else log) = log ++ pre := by
      rw [hpre]
      split
      · rfl
      · rw [append_nil]
    have hformat : mode ≠ .format := by
      rintro rfl
      rcases hmode with h | h <;> cases h
    have hcyl : pddt.dfLba = false →
        lbaAddress / (pddt.pbpb.bpbNsecs.toNat * pddt.pbpb.bpbNheads.toNat) < 1024 :=
      fun h => hrange.2 h 0 (by omega)
    obtain ⟨n, evs, htry, hn1, hnc, hcarried⟩ :=
      @tryOnce_spec bios pddt mode lbaAddress total c0 address hmatch hformat hbios hcyl hc1 hc127
        (log ++ pre)
    rw [hlog, retries_first 0 htry]
    dsimp only
    rw [if_neg (by simp)]
    set post : List Event := if bounce && mode == .read then [.copyOut buffer] else [] with hpost
    have hlog' : (if bounce && mode == .read then log ++ pre ++ evs ++ [.copyOut buffer]
        else log ++ pre ++ evs) = log ++ (pre ++ evs ++ post) := by
      rw [hpost]
      split
      · simp only [append_assoc]
      · simp only [append_assoc, append_nil]
    rw [hlog']
    -- what this round has moved
    have hround : ∀ held, ∃ held', ∀ log', moved pddt.pbpb held (pre ++ evs ++ post ++ log') =
        pairs lbaAddress buffer.linear n ++ moved pddt.pbpb held' log' := by
      intro held
      by_cases hb : bounce = true
      · have hn : n = 1 := by
          rw [hc0, if_pos hb] at hnc
          omega
        rw [haddr, if_pos hb] at hcarried
        rcases hmode with rfl | hw
        · refine ⟨lbaAddress, fun log' => ?_⟩
          rw [hpre, hpost, hb]
          simp only [append_assoc]
          exact (hcarried.moved_in held _).trans (by rw [hn]; rfl)
        · have hr : (mode == LbaMode.read) = false := by
            cases mode <;> first | rfl | cases hw
          refine ⟨buffer.linear, fun log' => ?_⟩
          rw [hpre, hpost, hb, hw, hr]
          simp only [Bool.and_false, Bool.false_eq_true, if_false, append_nil]
          exact hcarried.moved_out hw buffer.linear log'
      · rw [haddr, if_neg hb] at hcarried
        refine ⟨held, fun log' => ?_⟩
        rw [hpre, hpost, eq_false_of_ne_true hb]
        simp only [Bool.false_and, Bool.false_eq_true, if_false, append_nil]
        exact hcarried.moved_user hmode held log'
    have hproper : ∀ t c, .bios t c ∈ pre ++ evs ++ post →
        Proper pddt.pbpb dtb (lbaAddress + total) t c := by
      intro t c hmem
      rw [mem_append, mem_append] at hmem
      rcases hmem with (hmem | hmem) | hmem
      · rw [hpre] at hmem
        split at hmem <;> simp at hmem
      · refine hcarried.proper hn1 (by omega) ?_ t c hmem
        have : BiosCall.memory dtb ⟨.flRead, .lba 0, n, address⟩ =
            BiosCall.memory dtb ⟨.flRead, .lba 0, c0, address⟩ := rfl
        omega
      · rw [hpost] at hmem
        split at hmem <;> simp at hmem
    -- the sector that is copied
    have hinside : (∀ e ∈ pre ++ evs ++ post, e.Inside) ↔
        (buffer.seg = 0xffff → buffer.off + SEC_SIZE ≤ 0x10000) := by
      constructor
      · intro hall hseg
        have hb : bounce = true := by simp [hbounce, hseg]
        rcases hmode with rfl | hw
        · exact hall (.copyOut buffer) (by simp [hpost, hb])
        · exact hall (.copyIn buffer) (by simp [hpre, hb, hw])
      · intro hoff e he
        have hoff' : buffer.off + SEC_SIZE ≤ 0x10000 :=
          hnormal.elim hoff fun h => by unfold SEC_SIZE; omega
        rw [mem_append, mem_append] at he
        rcases he with (he | he) | he
        · rw [hpre] at he
          split at he
          · rw [mem_singleton.mp he]
            exact hoff'
          · cases he
        · obtain ⟨t, c, rfl⟩ := hcarried.isBios e he
          trivial
        · rw [hpost] at he
          split at he
          · rw [mem_singleton.mp he]
            exact hoff'
          · cases he
    have hwords : (lbaAddress + n) % 0x100000000 = lbaAddress + n ∨ n = total := by
      have := hrange.1
      omega
    have htodo : (total + 0x10000 - n) % 0x10000 = total - n := by omega
    have hdone : (transferred + n) % 0x10000 = transferred + n := by omega
    rw [htodo, hdone]
    have hnone : buffer.seg ≥ 0xa000 → n = 1 := fun h => by
      have := hcone h
      omega
    by_cases hlast : n = total
    · -- nothing is left
      obtain ⟨fuel, rfl⟩ := Nat.exists_eq_succ_of_ne_zero (by omega : fuel ≠ 0)
      rw [hlast, Nat.sub_self, transferLoop, if_pos rfl]
      refine ⟨pre ++ evs ++ post, rfl, fun held => ?_, hproper⟩
      obtain ⟨held', hmoved⟩ := hround held
      have hmoved := hmoved []
      rw [append_nil, hlast, moved, append_nil] at hmoved
      rw [hmoved, hinside, addressable_last hnormal (by omega) (by omega) fun h => hlast ▸ hnone h]
      exact ⟨pairs_head _, and_iff_right rfl⟩
    · have hnext := addressable_next hnormal hn1 (by omega) hnone (by omega : n < total)
      rw [hwords.resolve_right hlast]
      have hrange' : InRange pddt (lbaAddress + n) (total - n) := by
        refine ⟨by have := hrange.1; omega, fun h i hi => ?_⟩
        rw [add_assoc]
        exact hrange.2 h (n + i) (by omega)
      obtain ⟨evs', hrun, hmoved', hproper'⟩ := ih (total - n) (by omega) fuel _ (lbaAddress + n)
        (transferred + n) (log ++ (pre ++ evs ++ post)) (by omega) (by omega) hrange'
        (adjustFar_normal _)
      refine ⟨pre ++ evs ++ post ++ evs', ?_, fun held => ?_, fun t c hmem => ?_⟩
      · rw [hrun, append_assoc]
        congr 1
        omega
      · obtain ⟨held', hmoved⟩ := hround held
        obtain ⟨hhead, hrest⟩ := hmoved' held'
        obtain ⟨tail, htail⟩ := hhead (by omega)
        have hsplit : pairs lbaAddress buffer.linear total =
            pairs lbaAddress buffer.linear n ++
              pairs (lbaAddress + n) (buffer.linear + 512 * n) (total - n) := by
          rw [← pairs_append, Nat.add_sub_cancel' (by omega)]
        rw [hmoved, hsplit, append_right_inj, forall_mem_append, hinside, hnext, ← hrest]
        refine ⟨fun _ => ?_, fun ⟨heq, hin, hin'⟩ => ?_, fun ⟨hin, hlin, heq, hin'⟩ => ?_⟩
        · obtain ⟨first, hfirst⟩ := pairs_head (n := lbaAddress) buffer.linear (by omega : 0 < n)
          rw [hfirst]
          exact ⟨_, rfl⟩
        · -- the first sector of the rest tells where the pointer is
          obtain ⟨first, hfirst⟩ := pairs_head (n := lbaAddress + n) (buffer.linear + 512 * n)
            (by omega : 0 < total - n)
          have hlin := heq
          rw [htail, hfirst] at hlin
          have hlin : (adjustFar (buffer.add (n * 512))).linear = buffer.linear + 512 * n :=
            congrArg Prod.snd (List.cons.inj hlin).1
          exact ⟨hin, hlin, hlin ▸ heq, hin'⟩
        · exact ⟨hlin ▸ heq, hin, hin'⟩
      · rcases mem_append.mp hmem with hmem | hmem
        · exact hproper t c hmem
        · have := hproper' t c hmem
          rwa [show lbaAddress + n + (total - n) = lbaAddress + total by omega] at this

/-- With more rounds the loop does the same. -/
theorem transferLoop_more : ∀ {fuel : Nat} {buffer : FarPtr} {lbaAddress todo transferred : Nat}
    {log : List Event} {code t : Nat} {log' : List Event} (k : Nat),
    transferLoop bios pddt mode fuel buffer lbaAddress todo transferred log =
      .returned code t log' →
    transferLoop bios pddt mode (fuel + k) buffer lbaAddress todo transferred log =
      .returned code t log'
  | 0, _, _, _, _, _, _, _, _, _, h => by cases h
  | fuel + 1, _, _, _, _, _, _, _, _, k, h => by
    rw [add_right_comm]
    rw [transferLoop] at h ⊢
    split
    · rename_i hzero
      rwa [if_pos hzero] at h
    · rename_i hzero
      rw [if_neg hzero] at h
      dsimp only at h ⊢
      split at h
      · cases h
      · exact h
      · split at h
        · rename_i herror
          rwa [if_pos herror]
        · rename_i herror
          rw [if_neg herror]
          exact transferLoop_more k h

/-- **On a matched drive a transfer is done just where the buffer can be addressed.** -/
theorem transferred_iff (hdtb : dtb % 0x10000 + 512 ≤ 0x10000) (hmatch : Matched pddt)
    (hmode : mode = .read ∨ mode.writes = true) (hbios : GoodBios pddt.pbpb bios)
    (htotal : total < 0x10000) (hrange : InRange pddt lbaAddress total) :
    (∃ fuel, Transferred pddt.pbpb dtb buffer lbaAddress total
      (lbaTransfer bios pddt mode buffer lbaAddress total fuel)) ↔ Addressable buffer total := by
  have hnot : ¬ (mode = .format ∧ pddt.dfFixed = true) := by
    rintro ⟨rfl, -⟩
    rcases hmode with h | h <;> cases h
  obtain ⟨evs, hrun, hmoved, hproper⟩ := transferLoop_spec hmatch hmode hbios hdtb total
    (total + 1) (adjustFar buffer) lbaAddress 0 [] (by omega) (by omega) hrange
    (adjustFar_normal _)
  rw [zero_add, nil_append] at hrun
  simp only [lbaTransfer, if_neg hnot]
  constructor
  · rintro ⟨fuel, log, hdone, ⟨hall, hin⟩, -⟩
    -- it is the same run
    have hsame := (transferLoop_more (total + 1) hdone).symm.trans
      ((congrArg (transferLoop bios pddt mode · _ _ _ _ _) (add_comm _ _)).trans
        (transferLoop_more fuel hrun))
    obtain rfl : log = evs := by
      injection hsame
    by_cases hzero : total = 0
    · exact .inl hzero
    obtain ⟨hhead, hiff⟩ := hmoved 0
    obtain ⟨rest, hrest⟩ := hhead (pos_of_ne_zero hzero)
    obtain ⟨first, hfirst⟩ := pairs_head (n := lbaAddress) buffer.linear
      (pos_of_ne_zero hzero)
    have hlin := hall 0
    rw [hrest, hfirst] at hlin
    have hlin : (adjustFar buffer).linear = buffer.linear :=
      congrArg Prod.snd (List.cons.inj hlin).1
    exact (addressable_adjustFar hzero).mpr ⟨hlin, hiff.mp ⟨hlin ▸ hall 0, hin⟩⟩
  · intro haddr
    refine ⟨total + 1, evs, hrun, ?_, hproper⟩
    by_cases hzero : total = 0
    · subst hzero
      exact ⟨fun held => ((hmoved held).2.mpr (.inl rfl)).1, ((hmoved 0).2.mpr (.inl rfl)).2⟩
    · obtain ⟨hlin, hadj⟩ := (addressable_adjustFar hzero).mp haddr
      exact ⟨fun held => hlin ▸ ((hmoved held).2.mpr hadj).1, ((hmoved 0).2.mpr hadj).2⟩

/-- **On a matched drive every transfer is done.** -/
theorem transfersAll_of_matched (hdtb : dtb % 0x10000 + 512 ≤ 0x10000)
    (hmatch : Matched pddt) : TransfersAll pddt dtb :=
  fun _ _ _ total _ hmode hbios hrange haddr =>
    (transferred_iff hdtb hmatch hmode hbios total.toNat_lt hrange).mpr haddr

/-! ## 8. Drives that do not match -/

theorem callBoth_log : log <+: (callBoth bios todo log c1 c2).2 := by
  unfold callBoth
  dsimp only
  split
  · rw [append_assoc]
    exact prefix_append _ _
  · exact prefix_append _ _

/-- What has happened is not forgotten. -/
theorem tryOnce_log {e : Nat}
    (h : tryOnce bios pddt mode lbaAddress todo address count log = .ok (e, n, log')) :
    log <+: log' := by
  unfold tryOnce at h
  split at h
  · split at h
    · cases h
      exact prefix_append _ _
    · cases h
      exact callBoth_log
  · split at h
    · cases h
    · split at h
      · cases h
        exact callBoth_log
      · cases h
        exact prefix_append _ _

theorem retries_log : ∀ {k e0 count e n : Nat} {log log' : List Event},
    retries bios pddt mode lbaAddress todo address k e0 count log = .ok (e, n, log') →
    log <+: log'
  | 0, _, _, _, _, _, _, h => by
    simp only [retries, Except.ok.injEq, Prod.mk.injEq] at h
    exact h.2.2 ▸ prefix_refl _
  | k + 1, _, _, _, _, _, _, h => by
    rw [retries] at h
    split at h
    · cases h
    · rename_i htry
      have hlog := tryOnce_log htry
      split at h
      · cases h
        exact hlog
      · exact (hlog.trans (prefix_append _ _)).trans (retries_log h)

theorem transferLoop_log :
    ∀ {fuel : Nat} {buffer : FarPtr} {lbaAddress todo transferred code t : Nat}
      {log log' : List Event},
      transferLoop bios pddt mode fuel buffer lbaAddress todo transferred log =
        .returned code t log' → log <+: log'
  | 0, _, _, _, _, _, _, _, _, h => by cases h
  | fuel + 1, buffer, _, _, _, _, _, log, _, h => by
    rw [transferLoop] at h
    split at h
    · simp only [Outcome.returned.injEq] at h
      exact h.2.2 ▸ prefix_refl log
    · dsimp only at h
      have hpre : ∀ (b : Bool) (e : Event), log <+: if b = true then log ++ [e] else log := by
        intro b e
        split
        · exact prefix_append _ _
        · exact prefix_refl _
      split at h
      · cases h
      · cases h
        exact hpre _ _
      · rename_i hretries
        have hlog := (hpre _ _).trans (retries_log hretries)
        split at h
        · cases h
          exact hlog
        · refine hlog.trans (List.IsPrefix.trans ?_ (transferLoop_log h))
          split
          · exact prefix_append _ _
          · exact prefix_refl _

/-- A buffer at the start of a page, in low memory. -/
def lowBuffer : FarPtr := mkFp 0x1000 0

theorem lowBuffer_adjust : adjustFar lowBuffer = lowBuffer := by decide

theorem lowBuffer_room (total : Nat) : dmaMaxTransfer lowBuffer total = min total 127 := rfl

/-- If every transfer of a drive is done, the first call of each of them is proper. -/
theorem first_call {pddt : Ddt} {dtb lbaAddress total : Nat} (h : TransfersAll pddt dtb)
    (hlba : pddt.dfLba = false) (hl : lbaAddress < 0x100000000) (hpos : 0 < total)
    (ht : total < 0x400) (hrange : InRange pddt lbaAddress total) :
    ∃ p, lbaToChs lbaAddress pddt = .ok p ∧
      Proper pddt.pbpb dtb (lbaAddress + total) total
        ⟨.flRead, .chs p, cutAtTrack pddt.ddtBpb.bpbNsecs.toNat p.sector (min total 127),
          .user lowBuffer⟩ := by
  have hl' : (UInt32.ofNat lbaAddress).toNat = lbaAddress := UInt32.toNat_ofNat_of_lt' hl
  have ht' : (UInt16.ofNat total).toNat = total := UInt16.toNat_ofNat_of_lt' (lt_trans ht (by decide))
  have haddr : Addressable lowBuffer total := by
    refine .inr (.inl ⟨by decide, by decide, .inl ?_⟩)
    have : lowBuffer.linear = 0x10000 := rfl
    omega
  obtain ⟨fuel, log, hrun, -, hproper⟩ := h .read lowBuffer (UInt32.ofNat lbaAddress)
    (UInt16.ofNat total) (fun _ _ => 0) (.inl rfl) (fun _ _ _ _ => rfl) (by rwa [hl', ht'])
    (by rwa [ht'])
  rw [hl', ht'] at hrun hproper
  unfold lbaTransfer at hrun
  rw [if_neg (by simp), lowBuffer_adjust] at hrun
  cases fuel with
  | zero => cases hrun
  | succ fuel =>
    have hmin : ¬ (min total 127 == 0) = true := by
      rw [beq_iff_eq]
      omega
    have hnot : (decide (lowBuffer.seg ≥ 0xa000) || min total 127 == 0) = false := by
      rw [eq_false_of_ne_true hmin]
      rfl
    rw [transferLoop, if_neg (by omega)] at hrun
    simp only [lowBuffer_room, hnot, Bool.false_and, Bool.false_eq_true, if_false] at hrun
    cases hchs : lbaToChs lbaAddress pddt with
    | error f =>
      have htry : tryOnce (fun _ _ => 0) pddt .read lbaAddress total (.user lowBuffer)
          (min total 127) [] = .error f := by
        rw [tryOnce, if_neg (by simp [hlba]), hchs]
      rw [N_RETRY, retries, htry] at hrun
      cases f <;> cases hrun
    | ok p =>
      have htry : tryOnce (fun _ _ => 0) pddt .read lbaAddress total (.user lowBuffer)
          (min total 127) [] = .ok (0, cutAtTrack pddt.ddtBpb.bpbNsecs.toNat p.sector (min total 127),
            [.bios total ⟨.flRead, .chs p,
              cutAtTrack pddt.ddtBpb.bpbNsecs.toNat p.sector (min total 127), .user lowBuffer⟩]) := by
        rw [tryOnce, if_neg (by simp [hlba]), hchs]
        rfl
      rw [retries_first 0 htry] at hrun
      exact ⟨p, rfl, hproper _ _ ((transferLoop_log hrun).subset (mem_singleton.mpr rfl))⟩

/-- The place of a sector of the first track. -/
theorem lbaToChs_first {p : Chs}
    (hword : pddt.pbpb.bpbNsecs.toNat * pddt.pbpb.bpbNheads.toNat < 0x10000)
    (hlt : lbaAddress < pddt.pbpb.bpbNsecs.toNat) (hpos : 0 < pddt.pbpb.bpbNheads.toNat)
    (h : lbaToChs lbaAddress pddt = .ok p) : p.sector = lbaAddress + 1 := by
  have hle : lbaAddress < pddt.pbpb.bpbNsecs.toNat * pddt.pbpb.bpbNheads.toNat :=
    lt_of_lt_of_le hlt (Nat.le_mul_of_pos_right _ hpos)
  unfold lbaToChs at h
  dsimp only at h
  rw [Nat.mod_eq_of_lt hword] at h
  split at h
  · cases h
  · split at h
    · cases h
    · rw [← Except.ok.inj h, Nat.mod_eq_of_lt hle]
      rw [Nat.mod_eq_of_lt hlt]

/-- **If every transfer is done, the drive is matched.** -/
theorem matched_of_transfersAll (h : TransfersAll pddt dtb) : Matched pddt := by
  by_cases hlba : pddt.dfLba = true
  · exact .inl hlba
  have hlba := eq_false_of_ne_true hlba
  have hT := pddt.ddtBpb.bpbNsecs.toNat_lt
  set S := pddt.pbpb.bpbNsecs.toNat with hSdef
  set H := pddt.pbpb.bpbNheads.toNat with hHdef
  set T := pddt.ddtBpb.bpbNsecs.toNat with hTdef
  have hrange : ∀ lba total, lba + total ≤ 0x100000000 → (∀ i, i < total → lba + i < 1024 * (S * H)) →
      InRange pddt lba total := by
    intro lba total h1 h2
    refine ⟨h1, fun _ i hi => ?_⟩
    exact Nat.div_lt_of_lt_mul (by rw [mul_comm]; exact h2 i hi)
  -- the product of the numbers is neither zero nor too large
  have hpos : 0 < S * H ∧ S * H < 0x10000 := by
    by_contra hno
    have hzero : S * H = 0 → InRange pddt 0 1 := by
      intro hz
      refine ⟨by decide, fun _ i _ => ?_⟩
      rw [← hSdef, ← hHdef, hz, Nat.div_zero]
      decide
    by_cases hmod : S * H % 0x10000 = 0
    · have hr : InRange pddt 0 1 := by
        by_cases hz : S * H = 0
        · exact hzero hz
        · exact hrange 0 1 (by decide) (by omega)
      obtain ⟨p, hp, -⟩ := first_call h hlba (by decide) (by decide) (by decide) hr
      unfold lbaToChs at hp
      rw [← hSdef, ← hHdef, if_pos hmod] at hp
      cases hp
    · obtain ⟨p, hp, hproper⟩ := @first_call pddt dtb (S * H % 0x10000) 1 h hlba
        (by omega) (by decide) (by decide) (hrange _ 1 (by omega) (by omega))
      unfold lbaToChs at hp
      rw [← hSdef, ← hHdef, if_neg hmod, Nat.div_self (by omega), Nat.mod_self, if_neg (by decide)]
        at hp
      have hnext := hproper.next
      rw [← Except.ok.inj hp] at hnext
      simp only [BiosCall.sector, ← hSdef, ← hHdef, Nat.zero_div, Nat.zero_mod, one_mul,
        add_zero, zero_add, Nat.sub_self] at hnext
      rw [mul_comm H S] at hnext
      omega
  have hHpos : 0 < H := Nat.pos_of_mul_pos_left hpos.1
  have hSpos : 0 < S := Nat.pos_of_mul_pos_right hpos.1
  have hSle : S ≤ S * H := Nat.le_mul_of_pos_right _ hHpos
  -- what the first call of a transfer in the first track says
  have hfirst : ∀ lba total, lba < S → 0 < total → total < 0x400 →
      1 ≤ cutAtTrack T (lba + 1) (min total 127) ∧ cutAtTrack T (lba + 1) (min total 127) ≤ total ∧
        lba + 1 + cutAtTrack T (lba + 1) (min total 127) ≤ S + 1 := by
    intro lba total h1 h2 h3
    obtain ⟨p, hp, hproper⟩ := first_call h hlba (by omega) h2 h3 (hrange lba total (by omega) (by omega))
    have hsec := lbaToChs_first hpos.2 h1 hHpos hp
    have hp1 := hproper.some
    have hp2 := hproper.most
    have hp3 := hproper.track
    simp only [BiosCall.InTrack] at hp1 hp2 hp3
    rw [hsec] at hp1 hp2 hp3
    exact ⟨hp1, hp2, hp3.2⟩
  have hsec : S + 127 < 0x10000 := by
    by_contra hbig
    have h1 := hfirst 0 1 hSpos (by decide) (by decide)
    have h2 := hfirst (S - 1) 127 (by omega) (by decide) (by decide)
    unfold cutAtTrack at h1 h2
    split at h1 <;> split at h2 <;> omega
  refine .inr ⟨hpos.1, hpos.2, hsec, ?_⟩
  rcases Nat.lt_trichotomy T S with hlt | heq | hgt
  · -- the sector behind the track of the boot sector: nothing is left of the call
    have h1 := hfirst T 1 hlt (by decide) (by decide)
    unfold cutAtTrack at h1
    split at h1 <;> omega
  · exact heq
  · -- the last sector of the track and the next one, in one call
    have h1 := hfirst (S - 1) 2 (by omega) (by decide) (by decide)
    unfold cutAtTrack at h1
    split at h1 <;> omega

/-- A geometry of 63 sectors and 16 heads. -/
def bpb63 : Bpb := ⟨0, 1000000, 63, 16⟩

/-- A hard disk addressed by cylinder, head and sector; in the boot sector the tracks have `nsecs`
sectors. -/
def chsDisk (nsecs : UInt16) : Ddt where
  ddtBpb := { bpb63 with bpbNsecs := nsecs }
  ddtDefbpb := bpb63
  ddtOffset := 63
  dfFixed := true
  dfNoaccess := false
  dfLba := false
  dfWrtverify := false

/-- The same disk, addressed by number. -/
def lbaDisk : Ddt := { chsDisk 17 with dfLba := true }

/-- `FFF0:0000`, 256 bytes below 1 MiB. -/
def highBuffer : FarPtr := mkFp 0xfff0 0

theorem inRange_chsDisk : InRange (chsDisk 63) 62 2 := by
  refine ⟨by decide, fun _ i hi => ?_⟩
  have hsize : (chsDisk 63).pbpb.bpbNsecs.toNat * (chsDisk 63).pbpb.bpbNheads.toNat = 1008 := rfl
  rw [hsize]
  omega

end SdcBoot.Driver
