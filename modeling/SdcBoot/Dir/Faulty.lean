/-
# Directories on a drive that fails

`dir_read` and `dir_write` work through the buffers of the drive and the FAT, and each of them may
fail: a block cannot be read, a link of the chain leads nowhere, a buffer cannot be written.  The
routines that use them are programs over these operations here (`DirOp`), and the machine they run
on is given beforehand how each operation will go (`Drive`).

A failed read leaves the entry the caller holds as it was.  A failed write is one of two: the block
is as before, or it was written and something else failed while the buffers were flushed.  A
directory that is extended may be left with whatever is in the new cluster.
-/
import SdcBoot.Lib.Prog
import SdcBoot.Dir.Change

namespace SdcBoot.Dir

open Lib

/-! ## 1. Operations -/

def DE_SEEK : Int := -25
def DE_BLKINVLD : Int := -27

/-- How a read goes: well, or `map_cluster` fails, or the block cannot be had. -/
inductive ReadFate where
  | good
  | seek
  | invalid
  deriving DecidableEq

/-- How a write goes: well, or it fails with the slot as it was, or with the slot written. -/
inductive WriteFate where
  | good
  | lost
  | kept
  deriving DecidableEq

/-- How `extend` and `clear_dir` go: a cluster of unused slots is appended, or there is none, or it
is appended and not cleared, and these are its slots on the disk. -/
inductive Growth where
  | good
  | full
  | uncleared (slots : List Dirent)
  deriving DecidableEq

/-- What `dir_read` answers: the entry it has read, or an error. -/
inductive Answer where
  | entry (e : Dirent)
  | error (rc : Int)

/-- `read` and `write` are `dir_read` and `dir_write`; `wipeOut` frees the chain of an entry, `extend`
is `extend` with `clear_dir`, and `flush` is `flush_buffers`. -/
inductive DirOp : Type → Type where
  | read (cluster : UInt32) (entry : Nat) : DirOp Answer
  | write (cluster : UInt32) (entry : Nat) (e : Dirent) : DirOp Bool
  | wipeOut (e : Dirent) : DirOp Unit
  | extend (cluster : UInt32) : DirOp Int
  | flush : DirOp Bool

abbrev DirProg : Type → Type 1 := Prog DirOp

/-- The volume, and how what is to come will go; `written` counts the calls of `dir_write`. -/
structure Drive where
  vol : Volume
  reads : List ReadFate
  writes : List WriteFate
  growths : List Growth
  flushes : List Bool
  written : Nat

/-- All slots of a directory, in the form in which `dir_read` delivers them. -/
def Volume.allSlots (v : Volume) (cluster : UInt32) : List Dirent := (v.dir cluster).map swapDeleted

/-- What a read with this fate answers. -/
def ReadFate.answer (fate : ReadFate) (e : Dirent) : Answer :=
  match fate with
  | .good => .entry e
  | .seek => .error DE_SEEK
  | .invalid => .error DE_BLKINVLD

/-- `dir_read`: there cannot be more than 65535 entries, and nothing is read behind the last. -/
def readSlot (cluster : UInt32) (entry : Nat) (s : Drive) : Answer × Drive :=
  if entry ≥ 65535 then (.error DE_SEEK, s)
  else
    match (s.vol.allSlots cluster)[entry]? with
    | none => (.error DE_SEEK, s)
    | some e => ((s.reads.headD .good).answer e, { s with reads := s.reads.tail })

/-- `dir_write`. -/
def writeSlot (cluster : UInt32) (entry : Nat) (e : Dirent) (s : Drive) : Bool × Drive :=
  let s' := { s with writes := s.writes.tail, written := s.written + 1 }
  match s.writes.headD .good with
  | .good => (true, { s' with vol := s.vol.dirWrite cluster entry e })
  | .lost => (false, s')
  | .kept => (false, { s' with vol := s.vol.dirWrite cluster entry e })

/-- `extend` and `clear_dir`. -/
def growDir (cluster : UInt32) (s : Drive) : Int × Drive :=
  let s' := { s with growths := s.growths.tail }
  match s.growths.headD .good with
  | .good => (0, { s' with vol := s.vol.extendDir cluster })
  | .full => (DE_HNDLDSKFULL, s')
  | .uncleared slots => (DE_ACCESS, { s' with vol :=
      { s.vol with dir := Function.update s.vol.dir cluster (s.vol.dir cluster ++ slots) } })

/-- **The drive.** -/
def failing : Handler DirOp Drive := fun _ op s =>
  match op with
  | .read cluster entry => some (readSlot cluster entry s)
  | .write cluster entry e => some (writeSlot cluster entry e s)
  | .wipeOut e => some ((), { s with vol := s.vol.wipeOut e })
  | .extend cluster => some (growDir cluster s)
  | .flush => some (s.flushes.headD true, { s with flushes := s.flushes.tail })

def dirRead (cluster : UInt32) (entry : Nat) : DirProg Answer := .perform (.read cluster entry)

def dirWrite (cluster : UInt32) (entry : Nat) (e : Dirent) : DirProg Bool :=
  .perform (.write cluster entry e)

variable (v : Volume) (cluster : UInt32) (entry : Nat)

theorem exec_dirRead (s : Drive) :
    (dirRead cluster entry).exec failing s = some (readSlot cluster entry s) :=
  Prog.exec_perform ..

theorem exec_dirWrite (e : Dirent) (s : Drive) :
    (dirWrite cluster entry e).exec failing s = some (writeSlot cluster entry e s) :=
  Prog.exec_perform ..

/-! ## 2. Searching -/

/-- `while (dir_read(fnp) == 1)`, until the test is passed; `n` slots at most. -/
def searchSlots (p : Dirent → Bool) (cluster : UInt32) :
    Nat → Nat → DirProg (Option (Nat × Dirent))
  | 0, _ => pure none
  | n + 1, entry => do
    let answer ← dirRead cluster entry
    match answer with
    | .error _ => pure none
    | .entry e =>
      if e.name.first = 0 then pure none
      else if p e then pure (some (entry, e))
      else searchSlots p cluster n (entry + 1)

/-- A search from `entry` on has at most this many slots before it. -/
def searchFrom (p : Dirent → Bool) (cluster : UInt32) (entry : Nat) :
    DirProg (Option (Nat × Dirent)) :=
  searchSlots p cluster (65536 - entry) entry

/-- The loop of `dir_open`.  `v` tells where the root is. -/
def openWalk (v : Volume) (split : Bool) : Nat → Bytes → Opened → DirProg (Option Opened)
  | 0, _, _ => pure none
  | _ + 1, [], f => pure (some f)
  | fuel + 1, _ :: rest, f =>
    if rest = [] then pure (some f)
    else if split && (convertNameSZToName83 rest).2.isEmpty then
      pure (some { f with namePat := (convertNameSZToName83 rest).1 })
    else do
      let found ← searchFrom
        (fun e => e.attrib &&& D_VOLID == 0 && (convertNameSZToName83 rest).1 == e.name)
        f.dircluster 0
      match found with
      | none => pure none
      | some (_, e) =>
        if e.attrib &&& D_DIR = 0 then pure none
        else
          openWalk v split fuel (convertNameSZToName83 rest).2
            ⟨v.dirStart (v.getdstart e), (convertNameSZToName83 rest).1, e⟩

/-- `dir_open`. -/
def openDir (v : Volume) (path : Bytes) (split : Bool) : DirProg (Option Opened) :=
  openWalk v split (path.length + 1) (path.drop 2) ⟨v.dirStart 0, blankName, Dirent.zero⟩

/-- `split_path`. -/
def openParent (v : Volume) (path : Bytes) : DirProg (Option Opened) :=
  if path.getLast? = some backslash then pure none else openDir v path true

/-- `find_fname`. -/
def lookUp (v : Volume) (path : Bytes) (attr : UInt8) : DirProg Lookup := do
  let opened ← openParent v path
  match opened with
  | none => pure .noPath
  | some o => do
    let found ← searchFrom (fun e => e.name == o.namePat && attrWithin attr e) o.dircluster 0
    match found with
    | none => pure (.notFound o)
    | some (entry, e) => pure (.found o entry e)

/-- The loop of `remove_lfn_entries` below slot `entry`. -/
def removeLong (cluster : UInt32) : Nat → DirProg Bool
  | 0 => pure true
  | entry + 1 => do
    let answer ← dirRead cluster entry
    match answer with
    | .error _ => pure false
    | .entry e =>
      if e.name.first = 0 then pure false
      else if e.attrib ≠ D_LFN then pure true
      else do
        let ok ← dirWrite cluster entry { e with name := e.name.setFirst DELETED }
        if ok then removeLong cluster entry else pure false

/-- `remove_lfn_entries`, with the entry that is read again at its end. -/
def removeLongNames (cluster : UInt32) (entry : Nat) : DirProg (Option Dirent) := do
  let ok ← removeLong cluster entry
  if ok then do
    let answer ← dirRead cluster entry
    match answer with
    | .error _ => pure none
    | .entry e => if e.name.first = 0 then pure none else pure (some e)
  else pure none

/-! ## 3. Reading changes nothing -/

/-- Only the fates of the reads have changed. -/
structure Drive.Same (s s' : Drive) : Prop where
  vol : s'.vol = s.vol
  writes : s'.writes = s.writes
  written : s'.written = s.written

theorem Drive.Same.refl (s : Drive) : s.Same s := ⟨rfl, rfl, rfl⟩

theorem Drive.Same.trans {s s' s'' : Drive} (h : s.Same s') (h' : s'.Same s'') : s.Same s'' :=
  ⟨h'.vol.trans h.vol, h'.writes.trans h.writes, h'.written.trans h.written⟩

/-- **A read** fails and changes at most what is to come, or delivers the slot. -/
theorem dirRead_meets {cluster : UInt32} {entry : Nat} {s : Drive} {Q : Answer → Drive → Prop}
    (herror : ∀ rc s', s.Same s' → Q (.error rc) s')
    (hentry : ∀ e s', (s.vol.allSlots cluster)[entry]? = some e → s.Same s' → Q (.entry e) s') :
    (dirRead cluster entry).Meets failing s Q := by
  refine ⟨(readSlot cluster entry s).1, (readSlot cluster entry s).2, exec_dirRead .., ?_⟩
  unfold readSlot
  by_cases hmany : entry ≥ 65535
  · rw [if_pos hmany]
    exact herror _ _ (Drive.Same.refl s)
  · rw [if_neg hmany]
    cases hslot : (s.vol.allSlots cluster)[entry]? with
    | none => exact herror _ _ (Drive.Same.refl s)
    | some e =>
      cases s.reads.headD .good with
      | good => exact hentry e _ hslot ⟨rfl, rfl, rfl⟩
      | seek => exact herror _ _ ⟨rfl, rfl, rfl⟩
      | invalid => exact herror _ _ ⟨rfl, rfl, rfl⟩

/-- The volume stays as it is, and what was found passes the test and is in its slot. -/
theorem searchSlots_spec (p : Dirent → Bool) (cluster : UInt32) (n entry : Nat) (s : Drive) :
    (searchSlots p cluster n entry).Meets failing s fun r s' => s.Same s' ∧
      ∀ i e, r = some (i, e) →
        (s.vol.allSlots cluster)[i]? = some e ∧ e.name.first ≠ 0 ∧ p e = true ∧ entry ≤ i ∧
          ∀ j x, entry ≤ j → j < i → (s.vol.allSlots cluster)[j]? = some x → x.name.first ≠ 0 := by
  induction n generalizing entry s with
  | zero => exact Prog.Meets.pure ⟨Drive.Same.refl s, nofun⟩
  | succ n ih =>
    refine Prog.Meets.bind (dirRead_meets (fun rc s' hsame => ?_) fun x s' hx hsame => ?_)
    · exact Prog.Meets.pure ⟨hsame, nofun⟩
    · dsimp only
      by_cases hend : x.name.first = 0
      · rw [if_pos hend]
        exact Prog.Meets.pure ⟨hsame, nofun⟩
      · rw [if_neg hend]
        by_cases hp : p x = true
        · rw [if_pos hp]
          refine Prog.Meets.pure ⟨hsame, fun i e h => ?_⟩
          cases h
          exact ⟨hx, hend, hp, le_rfl, fun j _ h1 h2 => by omega⟩
        · rw [if_neg hp]
          refine (ih (entry + 1) s').mono ?_
          rintro r s'' ⟨hsame', hfound⟩
          rw [hsame.vol] at hfound
          refine ⟨hsame.trans hsame', fun i e h => ?_⟩
          obtain ⟨hslot, hne, hpe, hle, hbefore⟩ := hfound i e h
          refine ⟨hslot, hne, hpe, by omega, fun j y h1 h2 hy => ?_⟩
          rcases Nat.lt_or_eq_of_le h1 with hlt | rfl
          · exact hbefore j y hlt h2 hy
          · cases hx.symm.trans hy
            exact hend

/-- A program that reads: the volume and the fates of the writes stay as they are. -/
def Reads {α : Type} (p : DirProg α) : Prop :=
  ∀ s, p.Meets failing s fun _ s' => s.Same s'

theorem Reads.pure {α : Type} (a : α) : Reads (pure a : DirProg α) :=
  fun s => Prog.Meets.pure (Drive.Same.refl s)

theorem Reads.bind {α β : Type} {p : DirProg α} {f : α → DirProg β} (hp : Reads p)
    (hf : ∀ a, Reads (f a)) : Reads (p >>= f) := by
  refine fun s => Prog.Meets.bind ((hp s).mono fun a s' hsame => ?_)
  exact (hf a s').mono fun _ s'' h => hsame.trans h

theorem dirRead_reads : Reads (dirRead cluster entry) :=
  fun _ => dirRead_meets (fun _ _ h => h) fun _ _ _ h => h

theorem searchFrom_reads (p : Dirent → Bool) (cluster : UInt32) (entry : Nat) :
    Reads (searchFrom p cluster entry) :=
  fun s => (searchSlots_spec p cluster _ entry s).mono fun _ _ h => h.1

theorem openWalk_reads (split : Bool) (fuel : Nat) (path : Bytes) (f : Opened) :
    Reads (openWalk v split fuel path f) := by
  induction fuel generalizing path f with
  | zero =>
    exact Reads.pure _
  | succ fuel ih =>
    cases path with
    | nil =>
      exact Reads.pure _
    | cons c rest =>
      unfold openWalk
      split
      · exact Reads.pure _
      · split
        · exact Reads.pure _
        · refine (searchFrom_reads _ _ _).bind fun found => ?_
          cases found with
          | none => exact Reads.pure _
          | some r =>
            dsimp only
            split
            · exact Reads.pure _
            · exact ih _ _

theorem openDir_reads (path : Bytes) (split : Bool) : Reads (openDir v path split) :=
  openWalk_reads v split _ _ _

theorem openParent_reads (path : Bytes) : Reads (openParent v path) := by
  unfold openParent
  split
  · exact Reads.pure _
  · exact openDir_reads v path true

end SdcBoot.Dir
