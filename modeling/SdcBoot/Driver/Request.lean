/-
# `blk_driver`: requests to the block driver

`blk_driver` of `kernel/dsk.c` looks the command of a request up in its dispatch table, and
`blockio`, which reads and writes, checks the sectors of the request against the size of the
partition before it adds where the partition starts.

Neither the bound of the table nor the sums are right in all cases: `blk_driver_inside` says exactly
when a request stays inside.  The other functions of the table are names here, and what they do is
left out.
-/
import SdcBoot.Driver.Transfer
import Mathlib.Tactic.IntervalCases

namespace SdcBoot.Driver

/-! ## 1. The functions -/

def S_ERROR : Nat := 0x8000
def S_DONE : Nat := 0x0100
def E_UNIT : Nat := 1
def E_CMD : Nat := 3
def E_NOTRDY : Nat := 2
def E_CRC : Nat := 4
def E_SEEK : Nat := 6
def E_NOTFND : Nat := 8
def E_WRPRT : Nat := 0
def E_FAILURE : Nat := 12

def C_INIT : Nat := 0x00
def C_INPUT : Nat := 0x04
def C_OUTPUT : Nat := 0x08
def C_OUTVFY : Nat := 0x09

def NENTRY : Nat := 26
def HUGECOUNT : Nat := 0xffff

def failure (x : Nat) : Nat := S_ERROR + S_DONE + x

/-- The functions of the dispatch table. -/
inductive DskProc where
  | mediachk | bldbpb | blockio | ioctlQueblk | genblkdev | getlogdev | setlogdev
  | blkOpen | blkClose | blkMedia | blkNoerr | blkNondr | blkError
  deriving DecidableEq

def dispatch : List DskProc :=
  [.blkError, .mediachk, .bldbpb, .blkError, .blockio, .blkNondr, .blkNoerr, .blkNoerr, .blockio,
    .blockio, .blkNoerr, .blkNoerr, .blkError, .blkOpen, .blkClose, .blkMedia, .blkNoerr,
    .blkError, .blkError, .genblkdev, .blkError, .blkError, .blkError, .getlogdev, .setlogdev,
    .ioctlQueblk]

theorem dispatch_length : dispatch.length = NENTRY := rfl

/-- The request header of a read or a write. -/
structure Request where
  rUnit : UInt8
  rCommand : UInt8
  rTrans : FarPtr
  rCount : UInt16
  rStart : UInt16
  rHuge : UInt32

/-- A call of `LBA_Transfer`. -/
structure TransferCall where
  action : LbaMode
  buffer : FarPtr
  lbaAddress : Nat
  count : Nat

/-- What comes back from `LBA_Transfer`: its code, and `*transferred`. -/
structure Transferral where
  ret : Nat
  done : Nat

/-- What the driver answers: its status, the count in the header, and the transfers it called for. -/
structure Answer where
  status : Nat
  rCount : Nat
  calls : List TransferCall

def dskerr (code : Nat) : Nat :=
  if code % 4 = 1 then
    if code.testBit 3 then S_ERROR + E_NOTRDY else failure E_CMD
  else if code % 4 = 2 then failure E_FAILURE
  else if code % 4 = 3 then failure E_WRPRT
  else if code.testBit 7 then failure E_NOTRDY
  else if code.testBit 6 then failure E_SEEK
  else if code.testBit 4 then failure E_CRC
  else if code.testBit 2 then failure E_NOTFND
  else failure E_FAILURE

/-- The size of the partition in sectors. -/
def Ddt.size (pddt : Ddt) : Nat :=
  if pddt.pbpb.bpbNsize.toNat ≠ 0 then pddt.pbpb.bpbNsize.toNat else pddt.pbpb.bpbHuge.toNat

/-- The first sector of a request. -/
def Request.start (rp : Request) : Nat :=
  if rp.rStart.toNat ≠ HUGECOUNT then rp.rStart.toNat else rp.rHuge.toNat

/-- What a command transfers. -/
def action (command : Nat) : Option LbaMode :=
  if command = C_INPUT then some .read
  else if command = C_OUTPUT then some .write
  else if command = C_OUTVFY then some .writeVerify
  else none

/-- `blockio`; the sums are those of long words. -/
def blockio (transfer : TransferCall → Transferral) (rp : Request) (pddt : Ddt) : Answer :=
  match action rp.rCommand.toNat with
  | none => ⟨failure E_FAILURE, rp.rCount.toNat, []⟩
  | some action =>
    if pddt.dfNoaccess then ⟨failure E_FAILURE, rp.rCount.toNat, []⟩
    else if rp.start ≥ pddt.size ∨ (rp.start + rp.rCount.toNat) % 0x100000000 > pddt.size then
      ⟨0x0408, rp.rCount.toNat, []⟩
    else
      let call : TransferCall := ⟨action, rp.rTrans,
        (rp.start + pddt.ddtOffset.toNat) % 0x100000000, rp.rCount.toNat⟩
      let r := transfer call
      ⟨if r.ret ≠ 0 then dskerr r.ret else S_DONE, r.done, [call]⟩

/-- Where a request ends up: in an answer, in one of the other functions, or behind the table. -/
inductive Reaction where
  | answer (a : Answer)
  | calls (p : DskProc)
  | outside (entry : Nat)

/-- **`blk_driver`** for `units` drives. -/
def blkDriver (transfer : TransferCall → Transferral) (units : Nat) (getddt : Nat → Ddt)
    (rp : Request) : Reaction :=
  if rp.rUnit.toNat ≥ units ∧ rp.rCommand.toNat ≠ C_INIT then .answer ⟨failure E_UNIT, rp.rCount.toNat, []⟩
  else if rp.rCommand.toNat > NENTRY then .answer ⟨failure E_FAILURE, rp.rCount.toNat, []⟩
  else
    match dispatch[rp.rCommand.toNat]? with
    | none => .outside rp.rCommand.toNat
    | some .blockio => .answer (blockio transfer rp (getddt rp.rUnit.toNat))
    | some p => .calls p

/-! ## 2. Staying inside -/

/-- `dskxfer` takes every other status for an error. -/
def isError (status : Nat) : Bool := status &&& (S_ERROR ||| S_DONE) != S_DONE

/-- Every sector of the call lies in the partition. -/
def TransferCall.Inside (pddt : Ddt) (c : TransferCall) : Prop :=
  ∀ i, i < c.count → pddt.ddtOffset.toNat ≤ c.lbaAddress + i ∧
    c.lbaAddress + i < pddt.ddtOffset.toNat + pddt.size

/-- **The driver stays inside**: it calls no entry behind its table, and a request to read or to
write is refused, or all of its sectors lie in the partition. -/
def StaysInside (pddt : Ddt) (rp : Request) : Reaction → Prop
  | .outside _ => False
  | .calls _ => action rp.rCommand.toNat = none
  | .answer a => action rp.rCommand.toNat ≠ none →
      isError a.status = true ∧ a.calls = [] ∨ ∀ c ∈ a.calls, c.Inside pddt

/-- The request reaches the check of the sectors and passes it. -/
def Accepted (units : Nat) (pddt : Ddt) (rp : Request) : Prop :=
  rp.rUnit.toNat < units ∧ action rp.rCommand.toNat ≠ none ∧ pddt.dfNoaccess = false ∧
    rp.start < pddt.size ∧ (rp.start + rp.rCount.toNat) % 0x100000000 ≤ pddt.size

theorem Ddt.size_lt (pddt : Ddt) : pddt.size < 0x100000000 := by
  have h16 := pddt.pbpb.bpbNsize.toNat_lt
  have h32 := pddt.pbpb.bpbHuge.toNat_lt
  unfold Ddt.size
  split <;> omega

variable {n : Nat}

theorem action_command (h : action n ≠ none) : n = 4 ∨ n = 8 ∨ n = 9 := by
  unfold action C_INPUT C_OUTPUT C_OUTVFY at h
  by_contra hno
  simp only [not_or] at hno
  rw [if_neg hno.1, if_neg hno.2.1, if_neg hno.2.2] at h
  exact h rfl

theorem dispatch_action (h : action n ≠ none) : dispatch[n]? = some .blockio := by
  rcases action_command h with rfl | rfl | rfl <;> rfl

/-- The table has an entry for every command below its length. -/
theorem dispatch_entry (h : n < NENTRY) : ∃ p, dispatch[n]? = some p :=
  ⟨_, List.getElem?_eq_getElem (by rwa [dispatch_length])⟩

theorem dispatch_blockio (h : dispatch[n]? = some .blockio) : action n ≠ none := by
  have hlt : n < NENTRY := by
    exact (List.getElem?_eq_some_iff.mp h).1
  unfold NENTRY at hlt
  interval_cases n <;> first | decide | cases h

/-- The sectors of a call whose sums may wrap. -/
theorem inside_iff {pddt : Ddt} {m : LbaMode} {buffer : FarPtr} {start count : Nat}
    (hs : start < pddt.size) (hc : (start + count) % 0x100000000 ≤ pddt.size) (hlt : count < 0x10000) :
    TransferCall.Inside pddt ⟨m, buffer, (start + pddt.ddtOffset.toNat) % 0x100000000, count⟩ ↔
      (count ≠ 0 → start + count < 0x100000000 ∧ start + pddt.ddtOffset.toNat < 0x100000000) := by
  have hsize := pddt.size_lt
  unfold TransferCall.Inside
  dsimp only
  constructor
  · intro h hne
    have h0 := h 0 (by omega)
    have hlast := h (count - 1) (by omega)
    omega
  · intro h i hi
    omega

/-- **When the driver stays inside**: the command is not the one just behind the table, and a
request that passes the check has sums that fit into long words. -/
theorem blk_driver_inside (transfer : TransferCall → Transferral) (units : Nat) (getddt : Nat → Ddt)
    (rp : Request) :
    StaysInside (getddt rp.rUnit.toNat) rp (blkDriver transfer units getddt rp) ↔
      ¬ (rp.rCommand.toNat = NENTRY ∧ rp.rUnit.toNat < units) ∧
      (Accepted units (getddt rp.rUnit.toNat) rp → rp.rCount.toNat ≠ 0 →
        rp.start + rp.rCount.toNat < 0x100000000 ∧
          rp.start + (getddt rp.rUnit.toNat).ddtOffset.toNat < 0x100000000) := by
  set pddt := getddt rp.rUnit.toNat with hpddt
  have hcount := rp.rCount.toNat_lt
  unfold blkDriver
  split
  · -- no such unit
    rename_i hunit
    refine iff_of_true (fun _ => .inr nofun) ⟨fun h => ?_, fun h => ?_⟩
    · omega
    · exact absurd h.1 (by omega)
  rename_i hunit
  split
  · -- a command behind the table that is refused
    rename_i hcmd
    refine iff_of_true (fun _ => .inr nofun)
      ⟨fun h => absurd h.1 (by omega), fun h => ?_⟩
    have := action_command h.2.1
    unfold NENTRY at hcmd
    omega
  rename_i hcmd
  split
  · -- the entry just behind the table
    rename_i hentry
    refine iff_of_false id fun h => h.1 ⟨?_, ?_⟩
    · by_contra hne
      obtain ⟨p, hp⟩ := dispatch_entry (n := rp.rCommand.toNat) (by omega)
      rw [hp] at hentry
      cases hentry
    · by_contra hlt
      refine hunit ⟨by omega, fun h => ?_⟩
      rw [h] at hentry
      cases hentry
  · -- reading and writing
    rename_i hentry
    have haction := dispatch_blockio hentry
    have hfour := action_command haction
    have hne : ¬ (rp.rCommand.toNat = NENTRY ∧ rp.rUnit.toNat < units) := by
      unfold NENTRY
      omega
    have hlt : rp.rUnit.toNat < units := by
      unfold C_INIT at hunit
      omega
    rw [and_iff_right hne, ← hpddt]
    unfold blockio StaysInside Accepted
    cases hact : action rp.rCommand.toNat with
    | none => exact absurd hact haction
    | some act =>
      dsimp only
      split
      · rename_i hno
        have herr : isError (failure E_FAILURE) = true := by decide
        refine iff_of_true (fun _ => .inl ⟨herr, rfl⟩) fun h => ?_
        rw [hno] at h
        exact nomatch h.2.2.1
      · rename_i hno
        split
        · rename_i hcheck
          have herr : isError 0x0408 = true := by decide
          refine iff_of_true (fun _ => .inl ⟨herr, rfl⟩) fun h => ?_
          omega
        · rename_i hcheck
          simp only [not_or, ge_iff_le, not_le, gt_iff_lt, not_lt] at hcheck
          have hin := @inside_iff pddt act rp.rTrans _ _ hcheck.1 hcheck.2 hcount
          constructor
          · intro h _
            rcases h (by simp) with ⟨-, h⟩ | h
            · cases h
            · exact hin.mp (h _ (List.mem_singleton.mpr rfl))
          · intro h _
            refine .inr fun c hc => ?_
            rw [List.mem_singleton.mp hc]
            exact hin.mpr (h ⟨hlt, by simp, eq_false_of_ne_true hno, hcheck⟩)
  · -- another function of the table
    rename_i p hp hentry
    have hnone : action rp.rCommand.toNat = none := by
      by_contra hact
      rw [dispatch_action hact, Option.some.injEq] at hentry
      exact hp hentry.symm
    refine iff_of_true hnone ⟨fun h => ?_, fun h => absurd hnone h.2.1⟩
    rw [h.1] at hentry
    cases hentry

/-- One drive; its partition lies at `offset` and has `size` sectors. -/
def partition (offset size : UInt32) : Ddt where
  ddtBpb := bpb63
  ddtDefbpb := { bpb63 with bpbHuge := size }
  ddtOffset := offset
  dfFixed := true
  dfNoaccess := false
  dfLba := true
  dfWrtverify := false

/-- A request for eight sectors of drive 0 from `huge` on. -/
def requestAt (command : UInt8) (huge : UInt32) : Request where
  rUnit := 0
  rCommand := command
  rTrans := lowBuffer
  rCount := 8
  rStart := 0xffff
  rHuge := huge

/-- **Three requests that leave.**  Command 26 calls what lies behind the table; a partition up to
the last long word lets a read run past its end, and one that reaches beyond that word is read at
the start of the disk. -/
theorem blk_driver_leaves :
    (∀ transfer, ¬ StaysInside (partition 63 1000) (requestAt 26 0)
      (blkDriver transfer 1 (fun _ => partition 63 1000) (requestAt 26 0))) ∧
    (∀ transfer, ¬ StaysInside (partition 0 0xffffffff) (requestAt 4 0xfffffffe)
      (blkDriver transfer 1 (fun _ => partition 0 0xffffffff) (requestAt 4 0xfffffffe))) ∧
    ∀ transfer, ¬ StaysInside (partition 0xfffffff0 1000) (requestAt 8 0x10)
      (blkDriver transfer 1 (fun _ => partition 0xfffffff0 1000) (requestAt 8 0x10)) := by
  refine ⟨fun transfer h => h, fun transfer h => ?_, fun transfer h => ?_⟩
  · rcases h (by decide) with ⟨-, h⟩ | h
    · cases h
    · exact nomatch h _ (List.mem_singleton.mpr rfl) 7 (by decide)
  · rcases h (by decide) with ⟨-, h⟩ | h
    · cases h
    · exact nomatch h _ (List.mem_singleton.mpr rfl) 0 (by decide)

end SdcBoot.Driver
