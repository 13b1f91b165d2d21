/-
# The handle functions: `kernel/dosfns.c`, `kernel/newstuff.c`, `kernel/task.c`

A process has a table of handles in its PSP: each slot holds the index of an SFT entry, or 0xff.
The functions that open, duplicate, inherit and close handles, move data through them and lock
regions are functions on one state `Kern`: the SFT, the PSPs, SHARE's tables and the memory arena.

What is below them answers through a parameter of the call: the names `truename` resolves, drivers
and the network redirector, and what the FAT file system found on the disk (for `dos_open` the
fnode, for `rwblock` the fnodes it distributed and wrote back, for `dos_close` whether the directory
entry could be written).  The results hold for all such answers.
-/
import SdcBoot.Kernel.Sft
import SdcBoot.Share.Table
import SdcBoot.Memory.Mcb

namespace SdcBoot.Kernel

open Lib

/-! ## 1. The state -/

/-- The part of `psp` that concerns files. -/
structure Psp where
  psMaxfiles : Nat
  psFiletab : List Nat
  psParent : Nat
  deriving DecidableEq

/-- What the segment of no PSP reads as. -/
def Psp.none : Psp := ⟨0, [], 0⟩

/-- The variables of the kernel that the handle functions work on: `fat32` and `dhAttr` are what
they read of a DPB and of a device header.  `opened` is not one of the kernel's: it records under
which path each SFT entry was opened last. -/
structure Kern where
  sfthead : List (List Sft)
  psps : List (Nat × Psp)
  cuPsp : Nat
  share : Share.Tables
  shareInstalled : Bool
  mem : Memory.Arena
  fat32 : Nat → Bool
  dhAttr : Nat → Nat
  opened : Nat → List UInt8

/-- Entry `i` of the SFT, in use or not. -/
def Kern.sft (k : Kern) (i : Nat) : Option Sft := nthSft k.sfthead i

/-- A store to entry `i`. -/
def Kern.setSft (k : Kern) (i : Nat) (f : Sft → Sft) : Kern :=
  { k with sfthead := updSft k.sfthead i f }

/-- The PSP at a segment. -/
def Kern.psp (k : Kern) (seg : Nat) : Psp := (k.psps.lookup seg).getD Psp.none

/-- A store to the PSP at a segment. -/
def Kern.setPsp (k : Kern) (seg : Nat) (f : Psp → Psp) : Kern :=
  { k with psps := k.psps.map fun q => if q.1 = seg then (q.1, f q.2) else q }

/-- A store to slot `hndl` of the current process. -/
def Kern.setHandle (k : Kern) (hndl idx : Nat) : Kern :=
  k.setPsp k.cuPsp fun p => { p with psFiletab := p.psFiletab.set hndl idx }

/-- `sft_count += 1`, in a word. -/
def up16 (n : Nat) : Nat := (n + 1) % 0x10000

/-- `sft_count -= 1`, in a word. -/
def down16 (n : Nat) : Nat := if n = 0 then 0xffff else n - 1

/-! ## 2. Handles and entries -/

/-- `idx_to_sft`: the entry, if there is one with this index and it is in use. -/
def Kern.idxToSft (k : Kern) (sftIndex : Int) : Option Sft :=
  if sftIndex < 0 then none
  else (k.sft sftIndex.toNat).filter fun s => s.sftCount != 0

/-- `get_sft_idx`. -/
def Kern.getSftIdx (k : Kern) (hndl : Nat) : Int :=
  let p := k.psp k.cuPsp
  if hndl ≥ p.psMaxfiles then DE_INVLDHNDL
  else
    let idx := p.psFiletab.getD hndl 0xff
    if idx = 0xff then DE_INVLDHNDL else idx

/-- `get_sft`. -/
def Kern.getSft (k : Kern) (hndl : Nat) : Option Sft := k.idxToSft (k.getSftIdx hndl)

/-- `get_free_hndl`. -/
def Kern.getFreeHndl (k : Kern) : Option Nat :=
  let p := k.psp k.cuPsp
  (p.psFiletab.take p.psMaxfiles).findIdx? (· == 0xff)

/-! ## 3. Opening -/

/-- What `truename` says about a name: an error, or where the path leads. -/
inductive TrueName where
  | error (rc : Int) (neg : rc < 0)
  | path (network device : Bool)

/-- What is answered to one open.  The path is never empty: `truename` puts the drive first. -/
structure OpenEnv where
  truename : TrueName
  priPathName : Share.Path
  pathNe : priPathName.bytes ≠ []
  remote : Int × Sft
  isDevice : Option Nat
  deviceOpen : Bool
  date : Nat
  time : Nat
  dosOpen : Int × Fnode

/-- The answers to an open that finds the local file `C:A`. -/
def foundFileA : OpenEnv where
  truename := .path false false
  priPathName := ⟨[67, 58, 65], by decide, by decide⟩
  pathNe := by decide
  remote := (0, Sft.zero)
  isDevice := none
  deviceOpen := true
  date := 0
  time := 0
  dosOpen := (1, ⟨0, 2, 32, 0, 0, 100, 5, 1, 0, 9, 0, 0, 0⟩)

/-- The entry is taken for the device `dhp` with attribute word `dhAttr`. -/
def Sft.takenByDevice (dhp dhAttr date time : Nat) (s : Sft) : Sft :=
  { s with
    sftShroff := -1, sftCount := up16 s.sftCount,
    sftFlags := (dhAttr &&& (0xffff ^^^ (SFT_MASK ||| SFT_FSHARED))) ||| SFT_FDEVICE ||| SFT_FEOF,
    sftDcb := dhp, sftDate := date, sftTime := time, sftAttrib := D_DEVICE }

/-- `DeviceOpenSft`.  When the driver refuses, the count is not taken back. -/
def deviceOpenSft (k : Kern) (sftIdx : Nat) (dhp : Nat) (env : OpenEnv) : Int × Kern :=
  (if hasBits (k.dhAttr dhp) SFT_FOCRM && !env.deviceOpen then DE_ACCESS else SUCCESS,
    k.setSft sftIdx (Sft.takenByDevice dhp (k.dhAttr dhp) env.date env.time))

/-- The part of `dos_open` that changes the SFT, for a file found, created or replaced
(`S_OPENED` is 1): collect or distribute, and write the fnode back. -/
def dosOpen (k : Kern) (fd attrib : Nat) (env : OpenEnv) : Int × Kern :=
  let (status, found) := env.dosOpen
  if status < 0 then (status, k)
  else
    let fnp :=
      { found with
        fSftIdx := fd, fOffset := 0, fClusterOffset := 0,
        fFlags := (found.fFlags &&& (0xffff ^^^ SFT_FDATE)) ||| SFT_FCLEAN }
    let fnp :=
      if status = 1 then collect k.shareInstalled k.fat32 fnp k.sfthead
      else
        { fnp with
          dirAttrib := attrib, dirTime := env.time, dirDate := env.date, dirSize := 0,
          dirStart := 0 }
    let sp := if status = 1 then k.sfthead else distribute k.shareInstalled fnp k.sfthead
    let k := { k with sfthead := sp }
    (status, k.setSft fd (fnodeToSft { fnp with fCluster := fnp.dirStart }))

/-- The entry is taken for a file on the drive its path starts with. -/
def Sft.taken (path : List UInt8) (s : Sft) : Sft :=
  { s with sftCount := up16 s.sftCount, sftFlags := (path.headD 0).toNat - 65 }

/-- The count of an entry goes down by one. -/
def Sft.dropped (s : Sft) : Sft := { s with sftCount := down16 s.sftCount }

/-- ... and with the last reference the SHARE slot is given up. -/
def Sft.released (s : Sft) : Bool → Sft
  | true => { s.dropped with sftShroff := -1 }
  | false => s.dropped

/-- `dos_open` failed: the slot and the entry are given up. -/
def openFailed (k : Kern) (sftIdx : Nat) : Kern :=
  { k.setSft sftIdx fun s => s.released k.shareInstalled with
    share :=
      if k.shareInstalled then
        Share.closeFile k.share ((k.sft sftIdx).getD Sft.zero).sftShroff.toNat
      else k.share }

/-- The end of `DosOpenSft`, when SHARE has admitted the open or is not there. -/
def openLocal (k : Kern) (sftIdx attrib : Nat) (env : OpenEnv) : Int × Kern :=
  let k := k.setSft sftIdx (Sft.taken env.priPathName.bytes)
  let (result, k) := dosOpen k sftIdx attrib env
  if result < 0 then (result, openFailed k sftIdx)
  else (sftIdx, { k with opened := Function.update k.opened sftIdx env.priPathName.bytes })

/-- `DosOpenSft` for a local file, on its new entry. -/
def openFile (k : Kern) (sftIdx flags attrib : Nat) (env : OpenEnv) : Int × Kern :=
  if flags &&& O_ACCMODE > 2 then (DE_INVLDACC, k)
  else if !hasBits flags O_FCB &&
      hasBits attrib
        (0xffff ^^^ (D_RDONLY ||| D_HIDDEN ||| D_SYSTEM ||| D_ARCHIVE ||| D_VOLID)) then
    (DE_ACCESS, k)
  else if k.shareInstalled then
    let (shroff, share) :=
      Share.openCheck k.share env.priPathName k.cuPsp (flags &&& 3) (flags / 16 &&& 7)
    let k := { k.setSft sftIdx fun s => { s with sftShroff := shroff } with share := share }
    if shroff < 0 then (shroff, k) else openLocal k sftIdx attrib env
  else openLocal k sftIdx attrib env

/-- `DosOpenSft` for a remote file: the redirector fills the entry. -/
def openRemote (k : Kern) (sftIdx : Nat) (env : OpenEnv) : Int × Kern :=
  let (status, s) := env.remote
  if status ≥ 0 then
    (sftIdx, k.setSft sftIdx fun _ => if s.sftCount = 0 then { s with sftCount := 1 } else s)
  else (status, k.setSft sftIdx fun _ => s)

/-- The entry as `DosOpenSft` clears it. -/
def Kern.freshSft (k : Kern) (flags attrib : Nat) : Sft :=
  { Sft.zero with
    sftPsp := k.cuPsp, sftMode := flags &&& 0xf0ff, sftShroff := -1, sftAttrib := attrib }

/-- `DosOpenSft`: the index of the entry, or an error.  (The status in the high word of the
result is left out: it is not used to reach the entry.) -/
def dosOpenSft (k : Kern) (flags attrib : Nat) (env : OpenEnv) : Int × Kern :=
  match env.truename with
  | .error rc _ => (rc, k)
  | .path network device =>
    match getFreeSft k.sfthead with
    | none => (DE_TOOMANY, k)
    | some sftIdx =>
      let attrib := attrib ||| D_ARCHIVE
      let k := k.setSft sftIdx fun _ => k.freshSft flags attrib
      if network then openRemote k sftIdx env
      else
        match if device then env.isDevice else none with
        | some dhp =>
          let (rc, k) := deviceOpenSft k sftIdx dhp env
          (if rc < SUCCESS then rc else sftIdx, k)
        | none => openFile k sftIdx flags attrib env

/-- `DosOpen`: the handle, or an error. -/
def dosOpenHandle (k : Kern) (mode attrib : Nat) (env : OpenEnv) : Int × Kern :=
  if hasBits mode (0xffff ^^^ O_VALIDMASK) then (DE_INVLDACC, k)
  else
    match k.getFreeHndl with
    | none => (DE_TOOMANY, k)
    | some hndl =>
      let (result, k) := dosOpenSft k mode attrib env
      if result < SUCCESS then (result, k)
      else (hndl, k.setHandle hndl (result.toNat % 0x100))

/-! ## 4. Closing -/

/-- What is answered to one close: the redirector, the driver, and whether the directory entry
could be written. -/
structure CloseEnv where
  remoteClose : Int
  deviceClose : Bool
  dirWritten : Bool
  date : Nat
  time : Nat

/-- The fnode `dos_close` writes to the directory: dated now, unless the date was set. -/
def closingFnode (k : Kern) (fd : Nat) (s : Sft) (env : CloseEnv) : Fnode :=
  let fnp := sftToFnode k.fat32 fd s
  if hasBits fnp.fFlags SFT_FDATE then fnp
  else { fnp with dirTime := env.time, dirDate := env.date }

/-- `dos_close`: an entry that was written to passes its changes on. -/
def dosClose (k : Kern) (fd : Nat) (env : CloseEnv) : Int × Kern :=
  match k.sft fd with
  | none => (DE_INVLDHNDL, k)
  | some s =>
    (if env.dirWritten then SUCCESS else DE_INVLDHNDL,
      { k with
        sfthead :=
          if hasBits s.sftFlags SFT_FCLEAN then k.sfthead
          else distribute k.shareInstalled (closingFnode k fd s env) k.sfthead })

/-- The end of `DosCloseSft` for a local file: the last reference gives up SHARE's slot. -/
def dropLocal (k : Kern) (i : Nat) (s : Sft) : Kern :=
  if s.sftCount = 1 ∧ k.shareInstalled then
    { k.setSft i fun s => s.released true with
      share := if s.sftShroff ≥ 0 then Share.closeFile k.share s.sftShroff.toNat else k.share }
  else k.setSft i Sft.dropped

/-- `DosCloseSft`.  The redirector subtracts from `sft_count` itself when it closes a remote
file; a driver is told only if it asked for it. -/
def dosCloseSft (k : Kern) (sftIdx : Int) (commitonly : Bool) (env : CloseEnv) : Int × Kern :=
  match k.idxToSft sftIdx with
  | none => (DE_INVLDHNDL, k)
  | some s =>
    let i := sftIdx.toNat
    if hasBits s.sftFlags SFT_FSHARED then
      (env.remoteClose,
        if env.remoteClose = SUCCESS && !commitonly then k.setSft i Sft.dropped else k)
    else if hasBits s.sftFlags SFT_FDEVICE then
      if hasBits (k.dhAttr s.sftDcb) SFT_FOCRM && !env.deviceClose then (DE_INVLDHNDL, k)
      else (SUCCESS, if commitonly then k else k.setSft i Sft.dropped)
    else
      let (result, k) := dosClose k i env
      if commitonly || result ≠ SUCCESS then (result, k)
      else (SUCCESS, dropLocal k i s)

/-- `DosClose`: the handle is given up before the file is closed. -/
def dosCloseHandle (k : Kern) (hndl : Nat) (env : CloseEnv) : Int × Kern :=
  let sftIdx := k.getSftIdx hndl
  match k.idxToSft sftIdx with
  | none => (DE_INVLDHNDL, k)
  | some _ => dosCloseSft (k.setHandle hndl 0xff) sftIdx false env

/-! ## 5. Duplicating, inheriting, resizing -/

/-- `DosForceDup`. -/
def dosForceDup (k : Kern) (oldHandle newHandle : Nat) (env : CloseEnv) : Int × Kern :=
  match k.getSft oldHandle with
  | none => (DE_INVLDHNDL, k)
  | some _ =>
    let i := (k.getSftIdx oldHandle).toNat
    let slot (k : Kern) (hndl : Nat) := (k.psp k.cuPsp).psFiletab.getD hndl 0xff
    let (ret, k) :=
      if slot k newHandle ≠ 0xff then dosCloseHandle k newHandle env else (SUCCESS, k)
    if ret ≠ SUCCESS then (ret, k)
    else
      let k := k.setHandle newHandle (slot k oldHandle)
      (SUCCESS, k.setSft i fun s => { s with sftCount := up16 s.sftCount })

/-- `DosDup`. -/
def dosDup (k : Kern) (handle : Nat) (env : CloseEnv) : Int × Kern :=
  match k.getFreeHndl with
  | none => (DE_TOOMANY, k)
  | some newHandle =>
    let (rc, k) := dosForceDup k handle newHandle env
    (if rc < 0 then DE_INVLDHNDL else newHandle, k)

/-- `CloneHandle`. -/
def cloneHandle (k : Kern) (hndl : Nat) : Int × Kern :=
  match k.getSft hndl with
  | none => (DE_INVLDHNDL, k)
  | some s =>
    if hasBits s.sftMode O_NOINHERIT then (DE_INVLDHNDL, k)
    else
      (SUCCESS, k.setSft (k.getSftIdx hndl).toNat fun s =>
        { s with sftCount := up16 s.sftCount })

/-- The loop of `child_psp` over the handles: what `ps_files` becomes. -/
def cloneHandles (curPsp : Nat) : List Nat → Kern → List Nat × Kern
  | [], k => ([], k)
  | i :: is, k =>
    let (rc, k) := cloneHandle k i
    let (rest, k') := cloneHandles curPsp is k
    ((if rc ≥ 0 then (k.psp curPsp).psFiletab.getD i 0xff else 0xff) :: rest, k')

/-- `child_psp`, as both callers use it: `cur_psp` is the current process.  The PSP at `para`
is written over, whatever was there. -/
def childPsp (k : Kern) (para : Nat) : Kern :=
  let (psFiles, k) := cloneHandles k.cuPsp (List.range 20) k
  let p : Psp := ⟨20, psFiles, k.cuPsp⟩
  { k with psps := (para, p) :: k.psps.filter fun q => q.1 != para }

/-- `SetJFTSize`.  `none`: the allocation does not return, or the size in paragraphs wrapped to
0 and filling the new table overwrites whatever is behind its block. -/
def setJFTSize (k : Kern) (nHandles : Nat) : Option (Int × Kern) :=
  let p := k.psp k.cuPsp
  if nHandles ≤ p.psMaxfiles then
    some (SUCCESS, k.setPsp k.cuPsp fun p => { p with psMaxfiles := nHandles })
  else
    let paras := (nHandles + 0xf) % 0x10000 / 16
    match Memory.dosMemAlloc k.mem k.cuPsp paras k.mem.memAccessMode with
    | none => none
    | some (ans, mem) =>
      let k := { k with mem := mem }
      if ans.rc < 0 then some (DE_NOMEM, k)
      else if paras * 16 < nHandles then none
      else
        some (SUCCESS, k.setPsp k.cuPsp fun p =>
          { p with
            psMaxfiles := nHandles,
            psFiletab := p.psFiletab.take p.psMaxfiles ++
              List.replicate (nHandles - p.psMaxfiles) 0xff })

/-! ## 6. Transfers and locks -/

/-- The transfer modes. -/
inductive Xfr where
  | read
  | write
  | forceWrite
  deriving DecidableEq

/-- What is answered to one transfer: by the redirector (with the position and size it leaves),
by a driver (and whether the first byte read was Ctrl-Z), and by `rwblock`, with the fnodes it
distributed and the one it wrote back. -/
structure RwEnv where
  remoteRw : Int × Nat × Nat
  charIO : Int
  ctlZ : Bool
  rwblock : Int × List Fnode × Option Fnode

/-- The part of `rwblock` that changes the SFT. -/
def rwblockSft (k : Kern) (fd : Nat) (env : RwEnv) : Int × Kern :=
  let (rc, merged, last) := env.rwblock
  let sp := merged.foldl
    (fun sp f => distribute k.shareInstalled { f with fSftIdx := fd } sp) k.sfthead
  let k := { k with sfthead := sp }
  (rc, match last with
    | some f => k.setSft fd (fnodeToSft f)
    | none => k)

/-- A transfer on a character device. -/
def deviceRw (k : Kern) (i : Nat) (s : Sft) (n : Nat) (mode : Xfr) (env : RwEnv) : Int × Kern :=
  if hasBits s.sftFlags SFT_FBINARY then (env.charIO, k)
  else if mode = .read then
    if !hasBits s.sftFlags SFT_FEOF then (0, k)
    else
      (env.charIO,
        if env.ctlZ then
          k.setSft i fun s => { s with sftFlags := s.sftFlags &&& (0xffff ^^^ SFT_FEOF) }
        else k)
  else
    (if hasBits s.sftFlags SFT_FNUL then n else env.charIO,
      k.setSft i fun s => { s with sftFlags := s.sftFlags ||| SFT_FEOF })

/-- `DosRWSft`. -/
def dosRWSft (k : Kern) (sftIdx : Int) (n : Nat) (mode : Xfr) (env : RwEnv) : Int × Kern :=
  match k.idxToSft sftIdx with
  | none => (DE_INVLDHNDL, k)
  | some s =>
    let i := sftIdx.toNat
    if (mode = .read ∧ hasBits s.sftMode O_WRONLY) ∨
        (mode = .write ∧ s.sftMode &&& O_ACCMODE = 0) then (DE_ACCESS, k)
    else if hasBits s.sftFlags SFT_FSHARED then
      let (rc, posit, size) := env.remoteRw
      (rc, k.setSft i fun s => { s with sftPosit := posit, sftSize := size })
    else if hasBits s.sftFlags SFT_FDEVICE then deviceRw k i s n mode env
    else if k.shareInstalled && decide (s.sftShroff ≥ 0) then
      let (rc, share) := Share.accessCheck k.share k.cuPsp s.sftShroff.toNat s.sftPosit n true
      let k := { k with share := share }
      if rc ≠ SUCCESS then (rc, k) else rwblockSft k i env
    else rwblockSft k i env

/-- `DosLockUnlock`.  A remote file is locked by the redirector, which answers `remote`. -/
def dosLockUnlock (k : Kern) (hndl : Nat) (pos len : UInt32) (unlock : Bool) (remote : Int) :
    Int × Kern :=
  match k.getSft hndl with
  | none => (DE_INVLDHNDL, k)
  | some s =>
    if hasBits s.sftFlags SFT_FSHARED then (remote, k)
    else if !k.shareInstalled then (DE_INVLDFUNC, k)
    else if s.sftShroff < 0 then (DE_LOCK, k)
    else
      let (rc, share) :=
        Share.lockUnlock k.share k.cuPsp s.sftShroff.toNat pos.toNat len.toNat unlock
      (rc, { k with share := share })

/-! ## 7. What each function can do to the SFT -/

@[simp] theorem sft_setSft (k : Kern) (i j : Nat) (f : Sft → Sft) :
    (k.setSft i f).sft j = if i = j then (k.sft j).map f else k.sft j :=
  nthSft_updSft f k.sfthead i j

variable {k : Kern} {s : Sft} {i : Nat} {r : Refs}

/-- An index that leads to an entry in use. -/
theorem idxToSft_some {idx : Int} (h : k.idxToSft idx = some s) :
    ∃ i : Nat, idx = i ∧ k.sft i = some s ∧ s.sftCount ≠ 0 := by
  unfold Kern.idxToSft at h
  split at h
  · cases h
  · obtain ⟨hs, hc⟩ := Option.filter_eq_some_iff.mp h
    exact ⟨idx.toNat, by omega, hs, by simpa using hc⟩

theorem idxToSft_eq (hs : k.sft i = some s) (hc : s.sftCount ≠ 0) : k.idxToSft i = some s := by
  have hneg : ¬ (i : Int) < 0 := by omega
  simp [Kern.idxToSft, hs, hc]

/-- `dos_open` answers what it found, and keeps the references. -/
theorem dosOpen_spec (k : Kern) (fd attrib : Nat) (env : OpenEnv) :
    ∃ sp, dosOpen k fd attrib env = (env.dosOpen.1, { k with sfthead := sp }) ∧
      SameRefs k.sfthead sp := by
  unfold dosOpen
  dsimp only
  split
  · exact ⟨k.sfthead, rfl, SameRefs.refl _⟩
  · refine ⟨_, rfl, ?_⟩
    refine SameRefs.trans ?_ (sameRefs_updSft _ fd (refs_fnodeToSft _))
    split
    · exact SameRefs.refl _
    · exact (sameCore_distribute _ _ _).refs

/-- `dos_close` changes at most the merged fields of other entries. -/
theorem dosClose_spec (k : Kern) (fd : Nat) (env : CloseEnv) :
    ∃ rc sp, dosClose k fd env = (rc, { k with sfthead := sp }) ∧ SameCore k.sfthead sp := by
  unfold dosClose
  split
  · exact ⟨_, k.sfthead, rfl, fun _ => rfl⟩
  · refine ⟨_, _, rfl, ?_⟩
    split
    · exact fun _ => rfl
    · exact sameCore_distribute _ _ _

theorem sameRefs_foldl_distribute (shareInstalled : Bool) (fd : Nat) :
    ∀ (fs : List Fnode) (sp : List (List Sft)),
      SameRefs sp (fs.foldl (fun sp f => distribute shareInstalled { f with fSftIdx := fd } sp) sp)
  | [], sp => SameRefs.refl sp
  | _ :: fs, _ =>
    (sameCore_distribute _ _ _).refs.trans (sameRefs_foldl_distribute shareInstalled fd fs _)

/-- `rwblock` keeps the references. -/
theorem rwblockSft_spec (k : Kern) (fd : Nat) (env : RwEnv) :
    ∃ rc sp, rwblockSft k fd env = (rc, { k with sfthead := sp }) ∧ SameRefs k.sfthead sp := by
  unfold rwblockSft
  dsimp only
  have hfold := sameRefs_foldl_distribute k.shareInstalled fd env.rwblock.2.1 k.sfthead
  split
  · exact ⟨_, _, rfl, hfold.trans (sameRefs_updSft _ fd (refs_fnodeToSft _))⟩
  · exact ⟨_, _, rfl, hfold⟩

theorem deviceRw_spec (k : Kern) (i : Nat) (s : Sft) (n : Nat) (mode : Xfr) (env : RwEnv) :
    ∃ rc sp, deviceRw k i s n mode env = (rc, { k with sfthead := sp }) ∧
      SameRefs k.sfthead sp := by
  have hupd : ∀ {f : Sft → Sft}, (∀ s, (f s).refs = s.refs) →
      SameRefs k.sfthead (updSft k.sfthead i f) := fun hf => sameRefs_updSft _ i hf
  unfold deviceRw
  split
  · exact ⟨_, k.sfthead, rfl, SameRefs.refl _⟩
  · split
    · split
      · exact ⟨_, k.sfthead, rfl, SameRefs.refl _⟩
      · split
        · exact ⟨_, _, rfl, hupd fun _ => rfl⟩
        · exact ⟨_, k.sfthead, rfl, SameRefs.refl _⟩
    · exact ⟨_, _, rfl, hupd fun _ => rfl⟩

/-- Only entry `i` has other references than before, now `r`. -/
structure NewEntry (k : Kern) (i : Nat) (r : Refs) (k' : Kern) : Prop where
  others : ∀ j, j ≠ i → (k'.sft j).map Sft.refs = (k.sft j).map Sft.refs
  own : (k'.sft i).map Sft.refs = some r
  rest : k' = { k with sfthead := k'.sfthead, share := k'.share, opened := k'.opened }

theorem newEntry_setSft (hs : k.sft i = some s) (f : Sft → Sft) :
    NewEntry k i (f s).refs (k.setSft i f) where
  others j hj := by simp [Ne.symm hj]
  own := by simp [hs]
  rest := rfl

theorem NewEntry.trans {k1 k2 k3 : Kern} {r' : Refs} (h : NewEntry k1 i r k2)
    (h' : NewEntry k2 i r' k3) : NewEntry k1 i r' k3 where
  others j hj := (h'.others j hj).trans (h.others j hj)
  own := h'.own
  rest := by rw [h'.rest, h.rest]

/-- The tables beside the SFT do not matter to `NewEntry`. -/
theorem NewEntry.with_share {k' : Kern} (h : NewEntry k i r k') (t : Share.Tables)
    (o : Nat → List UInt8) :
    NewEntry k i r { k' with share := t, opened := o } where
  others := h.others
  own := h.own
  rest := by rw [h.rest]

theorem NewEntry.of_sameRefs {sp : List (List Sft)} (hown : (k.sft i).map Sft.refs = some r)
    (h : SameRefs k.sfthead sp) :
    NewEntry k i r { k with sfthead := sp } where
  others j _ := h j
  own := (h i).trans hown
  rest := rfl

@[simp] theorem released_count (s : Sft) (last : Bool) :
    (s.released last).sftCount = down16 s.sftCount := by
  cases last <;> rfl

theorem released_shroff (s : Sft) (last : Bool) :
    (s.released last).sftShroff = if last then -1 else s.sftShroff := by
  cases last <;> rfl

/-- **The end of an open**: it fails, and the entry is free again and its slot given up; or the
entry is in use and its path known. -/
theorem openLocal_cases (hs : k.sft i = some s) (hfree : s.sftCount = 0) (attrib : Nat)
    (env : OpenEnv) :
    let k' := (openLocal k i attrib env).2
    ((openLocal k i attrib env).1 < 0 ∧ k'.opened = k.opened ∧
        (∃ r, NewEntry k i r k' ∧ r.count = 0) ∧
        k'.share = if k.shareInstalled then Share.closeFile k.share s.sftShroff.toNat
          else k.share) ∨
      ((openLocal k i attrib env).1 = i ∧ NewEntry k i { s.refs with count := 1 } k' ∧
        k'.share = k.share ∧
        k'.opened = Function.update k.opened i env.priPathName.bytes) := by
  have h1 : NewEntry k i { s.refs with count := 1 }
      (k.setSft i (Sft.taken env.priPathName.bytes)) := by
    have := newEntry_setSft hs (Sft.taken env.priPathName.bytes)
    simpa [Sft.refs, Sft.taken, hfree, up16] using this
  unfold openLocal
  obtain ⟨sp, hopen, hsame⟩ := dosOpen_spec (k.setSft i (Sft.taken env.priPathName.bytes)) i attrib env
  have h2 := h1.trans (NewEntry.of_sameRefs h1.own hsame)
  obtain ⟨s2, hs2, hr2⟩ := Option.map_eq_some_iff.mp h2.own
  simp only [hopen]
  split
  · rename_i hneg
    refine .inl ⟨hneg, rfl, ⟨_, (h2.trans (newEntry_setSft hs2 _)).with_share _ _, ?_⟩, ?_⟩
    · have hc : s2.sftCount = 1 := congrArg Refs.count hr2
      change (s2.released _).sftCount = 0
      rw [released_count, hc]
      rfl
    · have hsh : s2.sftShroff = s.sftShroff := congrArg Refs.shroff hr2
      simp only [openFailed, hs2, Option.getD_some, hsh]
      rfl
  · exact .inr ⟨rfl, h2.with_share _ _, rfl, rfl⟩

/-- What an open leaves in its entry `i` and in SHARE's tables, apart from a remote file. -/
inductive OpenOutcome (k : Kern) (env : OpenEnv) (i : Nat) (rc : Int) (r : Refs) (k' : Kern) : Prop
  /-- refused, and the entry is free again -/
  | failed (hrc : rc < 0) (hr : r.count = 0) (hopened : k'.opened = k.opened)
      (hkept : ∀ n, (k.share.file n).live → Share.SlotKept k.share k'.share n)
  /-- in use without a slot: a device (even if the driver refuses), or SHARE is not installed -/
  | noSlot (hrc : rc < 0 ∨ rc = i) (hr : r.count = 1 ∧ r.shroff = -1) (hshare : k'.share = k.share)
      (hopened : ∀ j, j ≠ i → k'.opened j = k.opened j)
  /-- in use with the slot `n`, which was not -/
  | slot (n : Nat) (hrc : rc = i) (hr : r.count = 1 ∧ r.shroff = n)
      (hfree : ¬ (k.share.file n).live)
      (hname : (k'.share.file n).filename = env.priPathName.bytes)
      (hkept : ∀ n, (k.share.file n).live → Share.SlotKept k.share k'.share n)
      (hopened : k'.opened = Function.update k.opened i env.priPathName.bytes)

theorem NewEntry.refl (hs : k.sft i = some s) :
    NewEntry k i s.refs k := ⟨fun _ _ => rfl, by simp [hs], rfl⟩

/-- An open that SHARE has admitted: `k1` is the state in which it goes on. -/
theorem openAdmitted_cases {k k1 : Kern} {env : OpenEnv} {i n flags attrib : Nat} {s : Sft}
    (hinst : k.shareInstalled = true) (hk1 : NewEntry k i ⟨0, s.sftMode, s.sftPsp, n⟩ k1)
    (hopened : k1.opened = k.opened)
    (hgrant : Share.Granted k.share env.priPathName k.cuPsp (flags &&& 3) (flags / 16 &&& 7)
      ((n : Int), k1.share)) :
    ∃ r, NewEntry k i r (openLocal k1 i attrib env).2 ∧
      OpenOutcome k env i (openLocal k1 i attrib env).1 r (openLocal k1 i attrib env).2 := by
  obtain ⟨m, fs, fo, hslot, -, heq⟩ := hgrant
  obtain ⟨hn, hshare1⟩ := Prod.mk.inj heq
  have hnm : n = m := by exact_mod_cast hn
  subst hnm
  obtain ⟨hlt, hempty⟩ := Share.freeSlot_spec hslot
  have hdead : ¬ (k.share.file n).live := fun h => h hempty
  have hkept : ∀ j, (k.share.file j).live → Share.SlotKept k.share k1.share j := by
    intro j hj
    have hne : n ≠ j := fun he => hdead (he ▸ hj)
    refine ⟨?_, fun a l hl _ => ?_⟩
    · rw [hshare1, Share.setFile_file_ne hne]
    · rw [hshare1]
      exact hl
  obtain ⟨s1, hs1, hr1⟩ := Option.map_eq_some_iff.mp hk1.own
  have hc1 : s1.sftCount = 0 := congrArg Refs.count hr1
  have hsh1 : s1.sftShroff = n := congrArg Refs.shroff hr1
  have hinst1 : k1.shareInstalled = true := by rw [hk1.rest]; exact hinst
  rcases openLocal_cases hs1 hc1 attrib env with ⟨hneg, hop, ⟨r, hr, hc⟩, hshare⟩ |
    ⟨hrc, hr, hshare, hop⟩
  · refine ⟨r, hk1.trans hr, .failed hneg hc (hop.trans hopened) fun j hj => ?_⟩
    have hne : n ≠ j := fun he => hdead (he ▸ hj)
    rw [hshare, if_pos hinst1, hsh1]
    exact (hkept j hj).trans (Share.slotKept_closeFile hne)
  · refine ⟨_, hk1.trans hr, .slot n hrc ⟨rfl, hsh1⟩ hdead ?_ ?_ ?_⟩
    · rw [hshare, hshare1, Share.setFile_file_self hlt]
    · rw [hshare]
      exact hkept
    · rw [hop, hopened]

theorem openFile_cases (hs : k.sft i = some s) (hfree : s.sftCount = 0) (hsh : s.sftShroff = -1)
    (flags attrib : Nat) (env : OpenEnv) :
    ∃ r, NewEntry k i r (openFile k i flags attrib env).2 ∧
      OpenOutcome k env i (openFile k i flags attrib env).1 r (openFile k i flags attrib env).2 := by
  have hself : ∀ rc : Int, rc < 0 → OpenOutcome k env i rc s.refs k := fun rc hrc =>
    .failed hrc hfree rfl fun n _ => Share.SlotKept.refl _ n
  unfold openFile
  split
  · exact ⟨_, NewEntry.refl hs, hself DE_INVLDACC (by decide)⟩
  · split
    · exact ⟨_, NewEntry.refl hs, hself DE_ACCESS (by decide)⟩
    · split
      · rename_i hinst
        have hnew := newEntry_setSft hs fun s => { s with
          sftShroff := (Share.openCheck k.share env.priPathName k.cuPsp (flags &&& 3)
            (flags / 16 &&& 7)).1 }
        have hrefs : ∀ sh, ({ s with sftShroff := sh } : Sft).refs =
            ⟨0, s.sftMode, s.sftPsp, sh⟩ := by
          intro sh
          simp [Sft.refs, hfree]
        rw [hrefs] at hnew
        dsimp only
        split
        · rename_i hneg
          refine ⟨_, hnew.with_share _ _, .failed hneg rfl rfl fun n hn => ?_⟩
          exact Share.slotKept_openCheck hn _ _ _ _
        · rename_i hneg
          rcases Share.openCheck_cases k.share env.priPathName k.cuPsp (flags &&& 3)
            (flags / 16 &&& 7) with ⟨href, -⟩ | hgrant
          · exact absurd href hneg
          · have hgrant' := hgrant
            obtain ⟨n, fs, fo, -, -, heq⟩ := hgrant'
            have h1 := congrArg Prod.fst heq
            dsimp only at h1
            rw [h1] at hnew ⊢
            refine @openAdmitted_cases _ _ _ _ _ flags _ s hinst (hnew.with_share _ _) rfl ?_
            rw [← h1]
            exact hgrant
      · rename_i hnot
        rcases openLocal_cases hs hfree attrib env with ⟨hneg, hop, ⟨r, hr, hc⟩, hshare⟩ |
          ⟨hrc, hr, hshare, hop⟩
        · refine ⟨r, hr, .failed hneg hc hop fun n _ => ?_⟩
          rw [hshare, if_neg hnot]
          exact Share.SlotKept.refl _ n
        · refine ⟨_, hr, .noSlot (.inr hrc) ⟨rfl, hsh⟩ hshare fun j hj => ?_⟩
          rw [hop, Function.update_of_ne hj]

theorem deviceOpenSft_cases (hs : k.sft i = some s) (hfree : s.sftCount = 0) (dhp : Nat)
    (env : OpenEnv) :
    ∃ rc k', deviceOpenSft k i dhp env = (rc, k') ∧ k'.share = k.share ∧ k'.opened = k.opened ∧
      NewEntry k i ⟨1, s.sftMode, s.sftPsp, -1⟩ k' := by
  refine ⟨_, _, rfl, rfl, rfl, ?_⟩
  have hnew := newEntry_setSft hs (Sft.takenByDevice dhp (k.dhAttr dhp) env.date env.time)
  simpa [Sft.refs, Sft.takenByDevice, hfree, up16] using hnew

/-- **The outcomes of `DosOpenSft`.** -/
theorem dosOpenSft_cases (k : Kern) (flags attrib : Nat) (env : OpenEnv) :
    let res := dosOpenSft k flags attrib env
    (res.1 < 0 ∧ res.2 = k) ∨
      ∃ i r s, k.sft i = some s ∧ s.sftCount = 0 ∧ NewEntry k i r res.2 ∧
        (OpenOutcome k env i res.1 r res.2 ∨
          (∃ device, env.truename = .path true device) ∧ res.2.share = k.share ∧
            res.2.opened = k.opened ∧ r.shroff = env.remote.2.sftShroff ∧
            (res.1 < 0 ∨ res.1 = i ∧
              r.count = if env.remote.2.sftCount = 0 then 1 else env.remote.2.sftCount)) := by
  unfold dosOpenSft
  cases htn : env.truename with
  | error rc hneg => exact .inl ⟨hneg, rfl⟩
  | path network device =>
    cases hfree : getFreeSft k.sfthead with
    | none => exact .inl ⟨(by decide : DE_TOOMANY < 0), rfl⟩
    | some i =>
      right
      obtain ⟨s, hs, hc⟩ := getFreeSft_spec hfree
      have hfresh := newEntry_setSft hs fun _ => k.freshSft flags (attrib ||| D_ARCHIVE)
      obtain ⟨s1, hs1, hr1⟩ := Option.map_eq_some_iff.mp hfresh.own
      have hc1 : s1.sftCount = 0 := congrArg Refs.count hr1
      have hsh1 : s1.sftShroff = -1 := congrArg Refs.shroff hr1
      dsimp only
      split
      · rename_i hnet
        subst hnet
        unfold openRemote
        dsimp only
        split
        · refine ⟨i, _, s, hs, hc, hfresh.trans (newEntry_setSft hs1 _), .inr ⟨⟨device, rfl⟩, rfl,
            rfl, ?_, .inr ⟨rfl, ?_⟩⟩⟩
          · split <;> rfl
          · split <;> rfl
        · rename_i hneg
          refine ⟨i, _, s, hs, hc, hfresh.trans (newEntry_setSft hs1 _), .inr ⟨⟨device, rfl⟩, rfl,
            rfl, rfl, .inl ?_⟩⟩
          simpa using hneg
      · split
        · rename_i dhp _
          obtain ⟨rc, k', hdev, hshare, hopened, hnew⟩ := deviceOpenSft_cases hs1 hc1 dhp env
          rw [hdev]
          refine ⟨i, _, s, hs, hc, hfresh.trans hnew, .inl (.noSlot ?_ ⟨rfl, rfl⟩ hshare ?_)⟩
          · split
            · rename_i hlt
              exact .inl hlt
            · exact .inr rfl
          · intro j _
            rw [hopened]
            rfl
        · obtain ⟨r, hnew, hout⟩ :=
            openFile_cases hs1 hc1 hsh1 flags (attrib ||| D_ARCHIVE) env
          refine ⟨i, r, s, hs, hc, hfresh.trans hnew, .inl ?_⟩
          cases hout with
          | failed hrc hr hop hkept => exact .failed hrc hr hop hkept
          | noSlot hrc hr hshare hop => exact .noSlot hrc hr hshare hop
          | slot n hrc hr hdead hname hkept hop => exact .slot n hrc hr hdead hname hkept hop

/-- The reference is the last one to a local file, and SHARE is told. -/
def Kern.lastLocal (k : Kern) (s : Sft) : Bool :=
  !hasBits s.sftFlags SFT_FSHARED && !hasBits s.sftFlags SFT_FDEVICE && s.sftCount == 1 &&
    k.shareInstalled

/-- SHARE's tables when a reference to the entry `s` is dropped. -/
def Kern.shareAfter (k : Kern) (s : Sft) : Share.Tables :=
  if k.lastLocal s ∧ s.sftShroff ≥ 0 then Share.closeFile k.share s.sftShroff.toNat else k.share

/-- **A reference is dropped**: the count goes down, and with the last reference to a local file
under SHARE its slot is given up.  Other entries keep all but the merged fields. -/
structure Dropped (k : Kern) (i : Nat) (s : Sft) (k' : Kern) : Prop where
  others : ∀ j, j ≠ i → (k'.sft j).map Sft.core = (k.sft j).map Sft.core
  own : (k'.sft i).map Sft.core = some (s.released (k.lastLocal s)).core
  rest : k' = { k with sfthead := k'.sfthead, share := k.shareAfter s }

theorem core_released (s : Sft) (last : Bool) : (s.released last).core = s.core.released last := by
  cases last <;> rfl

theorem dropped_of_setSft (hs : k.sft i = some s)
    (hl : k.lastLocal s = false) : Dropped k i s (k.setSft i Sft.dropped) where
  others j hj := by simp [Ne.symm hj]
  own := by simp [hs, hl, Sft.released]
  rest := by simp [Kern.setSft, Kern.shareAfter, hl]

/-- Dropping a local file after `dos_close` has passed its changes on. -/
theorem dropped_dropLocal {sp : List (List Sft)} (hs : k.sft i = some s)
    (hsame : SameCore k.sfthead sp) (hremote : ¬ hasBits s.sftFlags SFT_FSHARED = true)
    (hdev : ¬ hasBits s.sftFlags SFT_FDEVICE = true) :
    Dropped k i s (dropLocal { k with sfthead := sp } i s) := by
  obtain ⟨s', hs', hcore⟩ : ∃ s', nthSft sp i = some s' ∧ s'.core = s.core := by
    have := hsame i
    rw [show nthSft k.sfthead i = some s from hs] at this
    simpa using this
  have hrel : ∀ last, (s'.released last).core = (s.released last).core := by
    intro last
    rw [core_released, core_released, hcore]
  have hlast : k.lastLocal s = true ↔ s.sftCount = 1 ∧ k.shareInstalled = true := by
    simp [Kern.lastLocal, hremote, hdev]
  have hother : ∀ (f : Sft → Sft) (j : Nat), j ≠ i →
      (nthSft (updSft sp i f) j).map Sft.core = (k.sft j).map Sft.core := by
    intro f j hj
    rw [nthSft_updSft, if_neg (Ne.symm hj)]
    exact hsame j
  unfold dropLocal
  by_cases hl : s.sftCount = 1 ∧ k.shareInstalled = true
  · rw [if_pos hl]
    refine ⟨hother _, ?_, ?_⟩
    · change (nthSft (updSft sp i _) i).map Sft.core = _
      rw [nthSft_updSft, if_pos rfl, hs', hlast.mpr hl, ← hrel]
      rfl
    · simp [Kern.setSft, Kern.shareAfter, hlast.mpr hl]
  · rw [if_neg hl]
    have hl' : k.lastLocal s = false := by
      rw [Bool.eq_false_iff]
      exact fun h => hl (hlast.mp h)
    refine ⟨hother _, ?_, ?_⟩
    · change (nthSft (updSft sp i _) i).map Sft.core = _
      rw [nthSft_updSft, if_pos rfl, hs', hl', ← hrel]
      rfl
    · simp [Kern.setSft, Kern.shareAfter, hl']

/-- **The outcomes of `DosCloseSft`**: nothing is dropped, or the entry is, with success. -/
theorem dosCloseSft_cases (k : Kern) (idx : Int) (commitonly : Bool) (env : CloseEnv) :
    (∃ rc sp, dosCloseSft k idx commitonly env = (rc, { k with sfthead := sp }) ∧
        SameCore k.sfthead sp ∧ (rc ≠ SUCCESS ∨ commitonly = true)) ∨
      ∃ i : Nat, ∃ s, idx = i ∧ k.sft i = some s ∧ s.sftCount ≠ 0 ∧ commitonly = false ∧
        (dosCloseSft k idx commitonly env).1 = SUCCESS ∧
        Dropped k i s (dosCloseSft k idx commitonly env).2 := by
  unfold dosCloseSft
  split
  · exact .inl ⟨_, k.sfthead, rfl, fun _ => rfl, .inl (by decide)⟩
  · rename_i s hidx
    obtain ⟨i, rfl, hs, hc⟩ := idxToSft_some hidx
    simp only [Int.toNat_natCast]
    split
    · rename_i hremote
      by_cases hdrop : env.remoteClose = SUCCESS ∧ commitonly = false
      · refine .inr ⟨i, s, rfl, hs, hc, hdrop.2, hdrop.1, ?_⟩
        simp only [hdrop.1, hdrop.2]
        exact dropped_of_setSft hs (by simp [Kern.lastLocal, hremote])
      · have hno : (decide (env.remoteClose = SUCCESS) && !commitonly) = false := by
          simpa using hdrop
        refine .inl ⟨env.remoteClose, k.sfthead, by simp [hno], fun _ => rfl, ?_⟩
        by_cases hrc : env.remoteClose = SUCCESS
        · exact .inr (by simpa [hrc] using hdrop)
        · exact .inl hrc
    · split
      · rename_i hdev
        split
        · exact .inl ⟨_, k.sfthead, rfl, fun _ => rfl, .inl (by decide)⟩
        · cases commitonly with
          | true => exact .inl ⟨_, k.sfthead, rfl, fun _ => rfl, .inr rfl⟩
          | false =>
            refine .inr ⟨i, s, rfl, hs, hc, rfl, rfl, ?_⟩
            exact dropped_of_setSft hs (by simp [Kern.lastLocal, hdev])
      · rename_i hremote hdev
        obtain ⟨rc, sp, hclose, hsame⟩ := dosClose_spec k i env
        simp only [hclose]
        by_cases hstop : commitonly = true ∨ rc ≠ SUCCESS
        · refine .inl ⟨rc, sp, ?_, hsame, hstop.symm⟩
          rw [if_pos (by simpa using hstop)]
        · simp only [not_or, not_not, Bool.not_eq_true] at hstop
          obtain ⟨rfl, rfl⟩ := hstop
          refine .inr ⟨i, s, rfl, hs, hc, rfl, rfl, ?_⟩
          exact dropped_dropLocal hs hsame hremote hdev

end SdcBoot.Kernel
