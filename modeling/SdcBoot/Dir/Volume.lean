/-
# Directories of a FAT volume

A directory is a list of slots of 32 bytes, named by the cluster it starts at; cluster 0 stands for
the root of a FAT12 or FAT16 volume, which has no chain.  An unused slot ends it: nothing behind
that mark is ever read.

Everything the kernel looks up by name goes through three steps that are here: the path is cut into
names of eleven bytes (`convertNameSZToName83`), the directories on the way are walked
(`dirOpen`), and the slots of the last one are searched from some position on (`dirSearch`).  Which
slots a search accepts is different in every place, and that is what the modules behind this one
are about.
-/
import Mathlib.Order.Lattice.Nat
import Mathlib.Tactic.Linarith

namespace SdcBoot.Dir

/-! ## 1. Entries -/

/-- Eight bytes of name and three of extension, filled up with blanks. -/
abbrev Name : Type := Vector UInt8 11

/-- The first byte, which tells unused and deleted entries from the others. -/
def Name.first (name : Name) : UInt8 := name[0]

def Name.setFirst (name : Name) (c : UInt8) : Name := name.set 0 c

def Name.second (name : Name) : UInt8 := name[1]

def Name.setSecond (name : Name) (c : UInt8) : Name := name.set 1 c

@[simp] theorem Name.first_setFirst (name : Name) (c : UInt8) : (name.setFirst c).first = c := by
  simp [Name.first, Name.setFirst]

@[simp] theorem Name.setFirst_setFirst (name : Name) (c d : UInt8) :
    (name.setFirst c).setFirst d = name.setFirst d := by
  simp [Name.setFirst]

@[simp] theorem Name.setFirst_first (name : Name) : name.setFirst name.first = name := by
  simp [Name.first, Name.setFirst]

/-- The bytes of a path or a name as programs write it. -/
abbrev Bytes : Type := List UInt8

/-- A directory entry.  `start` is `dir_start` with `dir_start_high` above it. -/
structure Dirent where
  name : Name
  attrib : UInt8
  time : UInt16
  date : UInt16
  start : UInt32
  size : UInt32
  deriving DecidableEq

/-- A slot that was never used. -/
def Dirent.zero : Dirent := ⟨Vector.replicate 11 0, 0, 0, 0, 0, 0⟩

def D_RDONLY : UInt8 := 0x01
def D_HIDDEN : UInt8 := 0x02
def D_SYSTEM : UInt8 := 0x04
def D_VOLID : UInt8 := 0x08
def D_DIR : UInt8 := 0x10
def D_ARCHIVE : UInt8 := 0x20
def D_DEVICE : UInt8 := 0x40
def D_LFN : UInt8 := D_RDONLY ||| D_HIDDEN ||| D_SYSTEM ||| D_VOLID
def D_ALL : UInt8 := D_RDONLY ||| D_HIDDEN ||| D_SYSTEM ||| D_DIR ||| D_ARCHIVE

/-- The mark of a deleted entry in memory. -/
def DELETED : UInt8 := 0x05

/-- The mark of a deleted entry on the disk. -/
def EXT_DELETED : UInt8 := 0xe5

def DE_FILENOTFND : Int := -2
def DE_PATHNOTFND : Int := -3
def DE_NFILES : Int := -18

/-- The two marks change places between the disk and memory, for a name may begin with 0xe5. -/
def swapDeleted (e : Dirent) : Dirent :=
  if e.name.first = DELETED ∨ e.name.first = EXT_DELETED then
    { e with name := e.name.setFirst (e.name.first ^^^ (EXT_DELETED - DELETED)) }
  else e

/-! ## 2. Volumes -/

/-- A volume, as far as its directories go: `perCluster` slots fit into a cluster, and `dir` gives
the slots of a directory as they are on the disk. -/
structure Volume where
  fat32 : Bool
  xrootclst : UInt32
  perCluster : Nat
  dir : UInt32 → List Dirent

/-- The cluster `dir_init_fnode` starts from: 0 is the root. -/
def Volume.dirStart (v : Volume) (dirstart : UInt32) : UInt32 :=
  if dirstart = 0 ∧ v.fat32 then v.xrootclst else dirstart

def Volume.getdstart (v : Volume) (e : Dirent) : UInt32 :=
  if v.fat32 then e.start else e.start &&& 0xffff

/-- The slots `dir_read` can deliver, in the form it delivers them.  There cannot be more than
65535 of them. -/
def Volume.slots (v : Volume) (cluster : UInt32) : List Dirent :=
  ((v.dir cluster).take 65535).map swapDeleted

/-- `while (dir_read(fnp) == 1)`: the first entry that passes the test, with its position.  The
first of the slots has the number `entry`, and an unused slot ends the search. -/
def dirSearch (p : Dirent → Bool) : List Dirent → Nat → Option (Nat × Dirent)
  | [], _ => none
  | e :: rest, entry =>
    if e.name.first = 0 then none
    else if p e then some (entry, e)
    else dirSearch p rest (entry + 1)

/-! ## 3. Names -/

def dot : UInt8 := 0x2e
def backslash : UInt8 := 0x5c
def blank : UInt8 := 0x20
def questionMark : UInt8 := 0x3f

def blankName : Name := Vector.replicate 11 blank

/-- The loop of `ConvertNameSZToName83` at column `i`.  A dot goes on at the extension. -/
def convertLoop : Bytes → Nat → Name → Name × Bytes
  | [], _, fcbname => (fcbname, [])
  | c :: rest, i, fcbname =>
    if 11 ≤ i then (fcbname, c :: rest)
    else if c = 0 then (fcbname, [])
    else if c = dot then convertLoop rest 8 fcbname
    else if c = backslash then (fcbname, c :: rest)
    else convertLoop rest (i + 1) (fcbname.setIfInBounds i c)

/-- One name of a path as eleven bytes, and what is left of the path. -/
def convertNameSZToName83 (dirname : Bytes) : Name × Bytes := convertLoop dirname 0 blankName

/-- A field of a name without the blanks at its end. -/
def trimBlanks (field : Bytes) : Bytes := (field.reverse.dropWhile (· == blank)).reverse

/-- Eleven bytes as a name with a dot; `.` and `..` have no extension. -/
def convertName83ToNameSZ (srcFCBName : Name) : Bytes :=
  let name := trimBlanks (srcFCBName.toList.take 8)
  let ext := trimBlanks (srcFCBName.toList.drop 8)
  if srcFCBName.first = dot ∨ ext = [] then name else name ++ dot :: ext

/-- A name matches a pattern, in which `?` stands for any byte. -/
def fcmpWild (pat name : Name) : Bool :=
  (pat.toList.zip name.toList).all fun b => b.1 == questionMark || b.1 == b.2

/-! ## 4. The walk along a path -/

/-- What `dir_open` leaves in the fnode and its `dmatch`: the directory, the last name it cut off,
and the entry of the last directory it went into. -/
structure Opened where
  dircluster : UInt32
  namePat : Name
  dir : Dirent
  deriving DecidableEq

/-- The loop of `dir_open` over the path behind the drive.  Each round consumes a byte at least, so
the length of the path is fuel enough. -/
def dirWalk (v : Volume) (split : Bool) : Nat → Bytes → Opened → Option Opened
  | 0, _, _ => none
  | _ + 1, [], f => some f
  | fuel + 1, _ :: rest, f =>
    if rest = [] then some f
    else
      let n := convertNameSZToName83 rest
      if split && n.2.isEmpty then some { f with namePat := n.1 }
      else
        match dirSearch (fun e => e.attrib &&& D_VOLID == 0 && n.1 == e.name)
            (v.slots f.dircluster) 0 with
        | none => none
        | some (_, e) =>
          if e.attrib &&& D_DIR = 0 then none
          else dirWalk v split fuel n.2 ⟨v.dirStart (v.getdstart e), n.1, e⟩

/-- From the root along the path, which begins with the drive and a colon.  What stands in the name
and the entry before the walk does not matter: a path names something. -/
def dirOpen (v : Volume) (path : Bytes) (split : Bool) : Option Opened :=
  dirWalk v split (path.length + 1) (path.drop 2) ⟨v.dirStart 0, blankName, Dirent.zero⟩

/-- The directory part of a path, and the name at its end. -/
def splitPath (v : Volume) (path : Bytes) : Option Opened :=
  if path.getLast? = some backslash then none else dirOpen v path true

/-! ## 5. Fully qualified names -/

/-- What `truename` makes of a name: an error, or a path with what kind of thing it names. -/
inductive TrueName where
  | error (rc : Int)
  | network (path : Bytes)
  | device (path : Bytes)
  | file (path : Bytes)

end SdcBoot.Dir
