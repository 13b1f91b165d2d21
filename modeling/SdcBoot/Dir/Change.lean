/-
# Creating, renaming and removing entries

The calls that change directories: opening with creation, by handle or by FCB, making and removing a
directory, and renaming, by name or by FCB.  All of them look for the name first, with `find_fname`,
and then take a free slot or change the one they found.

`find_fname` passes over an entry with a bit outside of the attributes it is given (read-only and
archive apart).  Creation passes `D_ALL` and its own attribute, making a directory and renaming by
name pass `D_ALL`, and renaming by FCB passes what the FCB says, for the old name and for the new
one.

The FAT is outside of this model: whether a directory could be extended, and which free cluster
there is for a new one, is given with the call.
-/
import SdcBoot.Dir.Search

namespace SdcBoot.Dir

open Lib

/-! ## 1. What surrounds a call -/

def S_OPENED : Int := 1
def S_CREATED : Int := 2
def S_REPLACED : Int := 3

def DE_TOOMANY : Int := -4
def DE_ACCESS : Int := -5
def DE_INVLDACC : Int := -12
def DE_RMVCUDIR : Int := -16
def DE_DEVICE : Int := -17
def DE_HNDLDSKFULL : Int := -28
def DE_FILEEXISTS : Int := -80

def O_ACCMODE : UInt16 := 0x0003
def O_OPEN : UInt16 := 0x0100
def O_TRUNC : UInt16 := 0x0200
def O_CREAT : UInt16 := 0x0400
def O_FCB : UInt16 := 0x8000
def O_VALIDMASK : UInt16 := 0xfff3

def FCB_SUCCESS : Int := 0
def FCB_ERROR : Int := 0xff

def CDS_MODE_CHECK_DEV_PATH : UInt8 := 0x02
def CDS_MODE_ALLOW_WILDCARDS : UInt8 := 0x04
def MAX_CDSPATH : Nat := 67

/-- The rest of the kernel during one call: names, the current directories, the clock, whether there
is a handle and an SFT left, what SHARE says, and what a redirector or a device answers. -/
structure Sys where
  defaultDrive : UInt8
  truename : UInt8 → Bytes → TrueName
  isDevice : Bytes → Bool
  validDrive : UInt8 → Bool
  currentPath : UInt8 → Bytes
  upper : UInt8 → UInt8
  time : UInt16
  date : UInt16
  freeHndl : Option Int
  freeSft : Bool
  shareError : Option Int
  remote : Int
  remFindfirst : UInt8 → Bytes → Except Int (Dmatch × Dirent)
  remFindnext : Dmatch → Except Int (Dmatch × Dirent)

/-- What the FAT answers: whether `extend` finds a cluster, and what `find_fat_free` finds. -/
structure Space where
  extend : Bool
  free : Option UInt32

/-- The media in the drives. -/
abbrev Media : Type := UInt8 → Option Volume

/-! ## 2. Slots -/

/-- `dir_write`: the entry goes back to its slot. -/
def Volume.dirWrite (v : Volume) (cluster : UInt32) (entry : Nat) (e : Dirent) : Volume :=
  { v with dir := Function.update v.dir cluster ((v.dir cluster).set entry (swapDeleted e)) }

def initDirentry (sys : Sys) (attrib : UInt8) (cluster : UInt32) (name : Name) : Dirent :=
  ⟨name, attrib, sys.time, sys.date, cluster, 0⟩

/-- `wipe_out`: the chain of the entry is freed; if it was a directory, it is no more. -/
def Volume.wipeOut (v : Volume) (e : Dirent) : Volume :=
  if v.getdstart e = 0 then v
  else { v with dir := Function.update v.dir (v.getdstart e) [] }

/-- `find_free`: the first slot that is deleted or was never used. -/
def findFree (slots : List Dirent) : Option Nat :=
  slots.findIdx? fun e => e.name.first == DELETED || e.name.first == 0

/-- `extend_dir`: one more cluster of unused slots. -/
def Volume.extendDir (v : Volume) (cluster : UInt32) : Volume :=
  { v with dir :=
      Function.update v.dir cluster (v.dir cluster ++ List.replicate v.perCluster Dirent.zero) }

/-- What `find_fname` makes of a path. -/
inductive Lookup where
  | noPath
  | notFound (o : Opened)
  | found (o : Opened) (entry : Nat) (e : Dirent)

/-- The attributes of an entry are within those asked for; read-only and archive never matter. -/
def attrWithin (attr : UInt8) (e : Dirent) : Bool :=
  e.attrib &&& ~~~(D_RDONLY ||| D_ARCHIVE ||| attr) == 0

/-- `find_fname`: the first entry with the name whose attributes are within `attr`. -/
def findFname (v : Volume) (path : Bytes) (attr : UInt8) : Lookup :=
  match splitPath v path with
  | none => .noPath
  | some o =>
    match dirSearch (fun e => e.name == o.namePat && attrWithin attr e) (v.slots o.dircluster) 0 with
    | none => .notFound o
    | some (entry, e) => .found o entry e

/-- `alloc_find_free`: a free slot in the directory of the path, which is extended if there is none
and it is not the root of a FAT12 or FAT16 volume. -/
def allocFindFree (v : Volume) (path : Bytes) (extend : Bool) :
    Except Int (Opened × Nat) × Volume :=
  match splitPath v path with
  | none => (.error DE_PATHNOTFND, v)
  | some o =>
    match findFree (v.slots o.dircluster) with
    | some entry => (.ok (o, entry), v)
    | none =>
      if o.dircluster = 0 then (.error DE_TOOMANY, v)
      else if extend then
        let v' := v.extendDir o.dircluster
        match findFree (v'.slots o.dircluster) with
        | some entry => (.ok (o, entry), v')
        | none => (.error DE_HNDLDSKFULL, v')
      else (.error DE_HNDLDSKFULL, v)

/-- The loop of `remove_lfn_entries` below slot `entry`: the long name in front of an entry is
marked as deleted. -/
def removeLfnEntries (cluster : UInt32) : Nat → Volume → Bool × Volume
  | 0, v => (true, v)
  | entry + 1, v =>
    match (v.slots cluster)[entry]? with
    | none => (false, v)
    | some e =>
      if e.name.first = 0 then (false, v)
      else if e.attrib ≠ D_LFN then (true, v)
      else removeLfnEntries cluster entry
        (v.dirWrite cluster entry { e with name := e.name.setFirst DELETED })

/-! ## 3. Opening -/

/-- `dos_open`.  What it does to the SFT is not part of this model. -/
def dosOpen (sys : Sys) (space : Space) (v : Volume) (path : Bytes) (flags : UInt16)
    (attrib : UInt8) : Int × Volume :=
  match findFname v path (D_ALL ||| attrib) with
  | .noPath => (DE_PATHNOTFND, v)
  | .found o entry e =>
    if flags &&& O_TRUNC ≠ 0 then
      if e.attrib &&& (D_RDONLY ||| D_DIR ||| D_VOLID) ≠ 0 ∨
          e.attrib &&& ~~~D_ARCHIVE &&& ~~~attrib ≠ 0 then (DE_ACCESS, v)
      else
        (S_REPLACED,
          (v.wipeOut e).dirWrite o.dircluster entry (initDirentry sys attrib 0 o.namePat))
    else if flags &&& O_OPEN ≠ 0 then
      -- an FCB open of a read-only file is turned into one for reading
      let accmode := if flags &&& O_FCB ≠ 0 ∧ e.attrib &&& D_RDONLY ≠ 0 then 0
        else flags &&& O_ACCMODE
      if e.attrib &&& (D_DIR ||| D_VOLID) ≠ 0 ∨ (e.attrib &&& D_RDONLY ≠ 0 ∧ accmode ≠ 0) then
        (DE_ACCESS, v)
      else (S_OPENED, v)
    else (DE_FILEEXISTS, v)
  | .notFound _ =>
    if flags &&& O_CREAT ≠ 0 then
      match allocFindFree v path space.extend with
      | (.error rc, v') => (rc, v')
      | (.ok (o, entry), v') =>
        (S_CREATED, v'.dirWrite o.dircluster entry (initDirentry sys attrib 0 o.namePat))
    else (DE_FILENOTFND, v)

/-- A call changes the volume its path is on. -/
def onVolume (m : Media) (path : Bytes) (f : Volume → Int × Volume) : Int × Media :=
  match m (driveOf path) with
  | none => (DE_PATHNOTFND, m)
  | some v => ((f v).1, Function.update m (driveOf path) (some (f v).2))

/-- What `DosOpenSft` does with a file: only an FCB may ask for attributes that no file has. -/
def openFile (sys : Sys) (space : Space) (m : Media) (path : Bytes) (flags attrib : UInt16) :
    Int × Media :=
  if flags &&& O_ACCMODE > 2 then (DE_INVLDACC, m)
  else if flags &&& O_FCB = 0 ∧
      attrib &&& ~~~(D_RDONLY ||| D_HIDDEN ||| D_SYSTEM ||| D_ARCHIVE ||| D_VOLID).toUInt16 ≠ 0
    then (DE_ACCESS, m)
  else
    match sys.shareError with
    | some rc => (rc, m)
    | none => onVolume m path fun v => dosOpen sys space v path flags attrib.toUInt8

/-- `DosOpenSft`. -/
def dosOpenSft (sys : Sys) (space : Space) (m : Media) (fname : Bytes) (flags attrib : UInt16) :
    Int × Media :=
  match sys.truename CDS_MODE_CHECK_DEV_PATH fname with
  | .error rc => (rc, m)
  | .network _ => (if sys.freeSft then sys.remote else DE_TOOMANY, m)
  | .device path =>
    if !sys.freeSft then (DE_TOOMANY, m)
    else if sys.isDevice fname then (sys.remote, m)
    else openFile sys space m path flags (attrib ||| D_ARCHIVE.toUInt16)
  | .file path =>
    if !sys.freeSft then (DE_TOOMANY, m)
    else openFile sys space m path flags (attrib ||| D_ARCHIVE.toUInt16)

/-- `DosOpen`. -/
def dosOpenCall (sys : Sys) (space : Space) (m : Media) (fname : Bytes) (mode attrib : UInt16) :
    Int × Media :=
  if mode &&& ~~~O_VALIDMASK ≠ 0 then (DE_INVLDACC, m)
  else
    match sys.freeHndl with
    | some rc => (rc, m)
    | none => dosOpenSft sys space m fname mode attrib

/-- The searches of a call see the media as they are. -/
def Sys.env (sys : Sys) (m : Media) : Env where
  defaultDrive := sys.defaultDrive
  truename := sys.truename (CDS_MODE_CHECK_DEV_PATH ||| CDS_MODE_ALLOW_WILDCARDS)
  volume := m
  upper := sys.upper
  time := sys.time
  date := sys.date
  remFindfirst := sys.remFindfirst
  remFindnext := sys.remFindnext

/-- `FcbOpen`: the attribute of an extended FCB is passed without constraints. -/
def fcbOpen (sys : Sys) (space : Space) (m : Media) (fcb : Xfcb) (flags : UInt16) : Int × Media :=
  let attr := if flags &&& O_CREAT = 0 then 0 else (fcb.extended.elim 0 Prod.snd).toUInt16
  let r := dosOpenSft sys space m (fcbNameInit (sys.env m) fcb).1 flags attr
  (if r.1 < 0 then FCB_ERROR else FCB_SUCCESS, r.2)

/-! ## 4. Directories -/

/-- The name of a directory in itself, and of its parent. -/
def dotName : Name := blankName.setFirst dot
def dotdotName : Name := dotName.setSecond dot

/-- A directory that has just been made. -/
def newDirectory (sys : Sys) (v : Volume) (cluster parent : UInt32) : List Dirent :=
  initDirentry sys D_DIR cluster dotName ::
    initDirentry sys D_DIR (if v.fat32 ∧ parent = v.xrootclst then 0 else parent) dotdotName ::
    List.replicate (v.perCluster - 2) Dirent.zero

/-- `find_fat_free` gives no cluster that a directory starts at. -/
def Space.freeCluster (space : Space) (v : Volume) : Option UInt32 :=
  space.free.filter fun cluster => 2 ≤ cluster ∧ v.dir cluster = []

/-- `dos_mkdir`. -/
def dosMkdir (sys : Sys) (space : Space) (v : Volume) (dir : Bytes) : Int × Volume :=
  if dir.length ≥ MAX_CDSPATH then (DE_PATHNOTFND, v)
  else
    match findFname v dir D_ALL with
    | .noPath => (DE_PATHNOTFND, v)
    | .found _ _ _ => (DE_ACCESS, v)
    | .notFound _ =>
      match allocFindFree v dir space.extend with
      | (.error rc, v') => (rc, v')
      | (.ok (o, entry), v') =>
        match space.freeCluster v' with
        | none => (DE_HNDLDSKFULL, v')
        | some free =>
          let v'' := v'.dirWrite o.dircluster entry (initDirentry sys D_DIR free o.namePat)
          (0, { v'' with
            dir := Function.update v''.dir free (newDirectory sys v free o.dircluster) })

/-- `delete_dir_entry`. -/
def deleteDirEntry (v : Volume) (cluster : UInt32) (entry : Nat) (e : Dirent) : Int × Volume :=
  match removeLfnEntries cluster entry v with
  | (false, v') => (DE_ACCESS, v')
  | (true, v') =>
    (0, (v'.wipeOut e).dirWrite cluster entry { e with name := e.name.setFirst DELETED })

/-- The directory has only the entries of itself and its parent. -/
def emptyDirectory (slots : List Dirent) : Bool :=
  match slots with
  | self :: parent :: rest =>
    self.name.first == dot && self.name.second == blank && parent.name.first == dot &&
      parent.name.second == dot &&
      (dirSearch (fun e => e.name.first != DELETED && e.attrib != D_LFN) rest 2).isNone
  | _ => false

/-- `dos_rmdir`. -/
def dosRmdir (sys : Sys) (v : Volume) (path : Bytes) : Int × Volume :=
  if path = sys.currentPath (driveOf path) then (DE_RMVCUDIR, v)
  else if path.drop 2 = [backslash] then (DE_ACCESS, v)
  else
    match dirOpen v path false with
    | none => (DE_PATHNOTFND, v)
    | some d =>
      if d.dir.attrib &&& ~~~(D_DIR ||| D_ARCHIVE) ≠ 0 then (DE_ACCESS, v)
      else if !emptyDirectory (v.slots d.dircluster) then (DE_ACCESS, v)
      else
        match findFname v path D_ALL with
        | .noPath => (DE_PATHNOTFND, v)
        | .notFound _ => (DE_PATHNOTFND, v)
        | .found o entry e => deleteDirEntry v o.dircluster entry e

/-- `DosMkRmdir`. -/
def dosMkRmdir (sys : Sys) (space : Space) (m : Media) (dir : Bytes) (mkdir : Bool) : Int × Media :=
  match sys.truename CDS_MODE_CHECK_DEV_PATH dir with
  | .error rc => (rc, m)
  | .network _ => (sys.remote, m)
  | .device _ => (DE_ACCESS, m)
  | .file path =>
    onVolume m path fun v => if mkdir then dosMkdir sys space v path else dosRmdir sys v path

/-! ## 5. Renaming -/

/-- `dos_rename`: in place within a directory; between directories the entry is copied to a new slot
and the old one is deleted. -/
def dosRename (sys : Sys) (extend : Bool) (v : Volume) (path1 path2 : Bytes) (attrib : UInt8) :
    Int × Volume :=
  if path1 = sys.currentPath (driveOf path1) then (DE_RMVCUDIR, v)
  else
    match findFname v path1 attrib with
    | .noPath => (DE_PATHNOTFND, v)
    | .notFound _ => (DE_FILENOTFND, v)
    | .found o1 entry1 e =>
      match findFname v path2 attrib with
      | .noPath => (DE_PATHNOTFND, v)
      | .found _ _ _ => (DE_ACCESS, v)
      | .notFound o2 =>
        if o1.dircluster = o2.dircluster then
          match removeLfnEntries o1.dircluster entry1 v with
          | (false, v') => (DE_ACCESS, v')
          | (true, v') => (0, v'.dirWrite o1.dircluster entry1 { e with name := o2.namePat })
        else if e.attrib &&& D_DIR ≠ 0 then (DE_ACCESS, v)
        else
          match allocFindFree v path2 extend with
          | (.error rc, v') => (rc, v')
          | (.ok (o2, entry2), v') =>
            match removeLfnEntries o1.dircluster entry1 v' with
            | (false, v'') => (DE_ACCESS, v'')
            | (true, v'') =>
              let deleted := v''.dirWrite o1.dircluster entry1
                { e with name := e.name.setFirst DELETED }
              (0, deleted.dirWrite o2.dircluster entry2 { e with name := o2.namePat })

/-- What `DosRename` and `FcbRename` need of a name: no error and no device. -/
def TrueName.place : TrueName → Except Int (Bytes × Bool)
  | .error rc => .error rc
  | .device _ => .error DE_FILENOTFND
  | .network path => .ok (path, true)
  | .file path => .ok (path, false)

/-- `DosRenameTrue`; `network` says whether the name looked up last is on a remote drive. -/
def dosRenameTrue (sys : Sys) (extend : Bool) (m : Media) (path1 path2 : Bytes) (network : Bool)
    (attrib : UInt8) : Int × Media :=
  if path1.head? ≠ path2.head? then (DE_DEVICE, m)
  else if network then (sys.remote, m)
  else onVolume m path1 fun v => dosRename sys extend v path1 path2 attrib

/-- `DosRename`. -/
def dosRenameCall (sys : Sys) (extend : Bool) (m : Media) (path1 path2 : Bytes) : Int × Media :=
  match (sys.truename CDS_MODE_CHECK_DEV_PATH path2).place with
  | .error rc => (rc, m)
  | .ok (sec, _) =>
    match (sys.truename CDS_MODE_CHECK_DEV_PATH path1).place with
    | .error rc => (rc, m)
    | .ok (pri, network) => dosRenameTrue sys extend m pri sec network D_ALL

/-! ## 6. Renaming by FCB -/

/-- The FCB of a rename: the old name and the new one, in both of which `?` stands for any byte. -/
structure Rfcb where
  extended : Option (Bytes × UInt8)
  drive : UInt8
  oldName : Name
  newName : Name

/-- The FCB as the other calls see it. -/
def Rfcb.xfcb (r : Rfcb) : Xfcb := ⟨r.extended, r.drive, r.oldName, 0, 0, 0⟩

def star : UInt8 := 0x2a
def colon : UInt8 := 0x3a

def parseSkipWh (s : Bytes) : Bytes := s.dropWhile fun c => c == blank || c == 0x09

/-- One of `:<|>+=,`. -/
def testCmnSeps (c : UInt8) : Bool := [0x3a, 0x3c, 0x7c, 0x3e, 0x2b, 0x3d, 0x2c].contains c

/-- A blank or less, or one of `/"[]<>|.`. -/
def testFieldSeps (c : UInt8) : Bool :=
  c ≤ blank || [0x2f, 0x22, 0x5b, 0x5d, 0x3c, 0x3e, 0x7c, dot].contains c

/-- `GetNameField`: a field of `room` bytes, and what is left of the name. -/
def getNameField (upper : UInt8 → UInt8) : Nat → Bytes → Bytes × Bytes
  | 0, rest => ([], rest)
  | room + 1, [] => (List.replicate (room + 1) blank, [])
  | room + 1, c :: rest =>
    if testFieldSeps c then (List.replicate (room + 1) blank, c :: rest)
    else if c = star then (List.replicate (room + 1) questionMark, rest)
    else
      let r := getNameField upper room rest
      (upper c :: r.1, r.2)

def nameOf (bytes : Bytes) : Name := Vector.ofFn fun i => bytes.getD i blank

/-- The name field `FcbParseFname` fills in mode 0.  If there is no such drive it gives up before it
has written anything. -/
def fcbParseFname (sys : Sys) (lpFileName : Bytes) : Name :=
  let s := parseSkipWh lpFileName
  let s := parseSkipWh (if testCmnSeps (s.headD 0) then s.tail else s)
  let hasDrive := s[1]? = some colon
  let drive := sys.upper (s.headD 0) - 0x41
  let s := if hasDrive then s.drop 2 else s
  if hasDrive ∧ ¬ sys.validDrive drive then blankName
  else if s.head? = some dot then (if s[1]? = some dot then dotdotName else dotName)
  else
    let name := getNameField sys.upper 8 s
    let ext := if name.2.head? = some dot then (getNameField sys.upper 3 name.2.tail).1 else []
    nameOf (name.1 ++ ext)

/-- The pattern of the new name is laid over the old one, and `?` leaves what is there. -/
def overlay (pat name : Name) : Name :=
  Vector.zipWith (fun p c => if p = questionMark then c else p) pat name

/-- The two paths of a single rename by FCB, for the entry that was found. -/
def renamePaths (sys : Sys) (m : Media) (r : Rfcb) (e : Dirent) : Except Int (Bytes × Bytes × Bool) :=
  let fcbDrive := (fcbNameInit (sys.env m) r.xfcb).2
  let dmName := convertName83ToNameSZ e.name
  match (sys.truename 0 ((0x41 + fcbDrive - 1) :: colon :: dmName)).place with
  | .error rc => .error rc
  | .ok (pri, _) =>
    let localFcb : Xfcb := ⟨none, fcbDrive, overlay r.newName (fcbParseFname sys dmName), 0, 0, 0⟩
    match (sys.truename 0 (fcbNameInit (sys.env m) localFcb).1).place with
    | .error rc => .error rc
    | .ok (sec, network) => .ok (pri, sec, network)

/-- One round of `FcbRename`. -/
def fcbRenameOne (sys : Sys) (extend : Bool) (m : Media) (r : Rfcb) (e : Dirent) : Int × Media :=
  match renamePaths sys m r e with
  | .error rc => (rc, m)
  | .ok (pri, sec, network) => dosRenameTrue sys extend m pri sec network r.xfcb.attr

/-- The loop of `FcbRename`.  The position only grows, so the fuel lasts. -/
def fcbRenameLoop (sys : Sys) (extend : Nat → Bool) (r : Rfcb) :
    Nat → Media → Dmatch → Dirent → Media
  | 0, m, _, _ => m
  | fuel + 1, m, dmp, e =>
    let one := fcbRenameOne sys (extend fuel) m r e
    if one.1 ≠ 0 then one.2
    else
      match dosFindNext (sys.env one.2) dmp with
      | .error _ => one.2
      | .ok (dmp', e') => fcbRenameLoop sys extend r fuel one.2 dmp' e'

/-- `FcbRename`.  The result of the loop is kept in a variable of its own, so that only a device is
reported as an error. -/
def fcbRename (sys : Sys) (extend : Nat → Bool) (m : Media) (r : Rfcb) : Int × Media :=
  let name := (fcbNameInit (sys.env m) r.xfcb).1
  if sys.isDevice name then (FCB_ERROR, m)
  else
    match dosFindFirst (sys.env m) r.xfcb.attr.toUInt16 name with
    | .error _ => (FCB_SUCCESS, m)
    | .ok (dmp, e) => (FCB_SUCCESS, fcbRenameLoop sys extend r 65536 m dmp e)

/-! ## 7. Calls -/

/-- The calls that change directories, each with what surrounds it. -/
inductive DirCall where
  | dosOpen (fname : Bytes) (mode attrib : UInt16)
  | fcbOpen (fcb : Xfcb) (flags : UInt16)
  | mkRmdir (dir : Bytes) (mkdir : Bool)
  | rename (path1 path2 : Bytes)
  | fcbRename (r : Rfcb) (extend : Nat → Bool)

structure DirStep where
  sys : Sys
  space : Space
  call : DirCall

def dirStep (m : Media) (s : DirStep) : Int × Media :=
  match s.call with
  | .dosOpen fname mode attrib => dosOpenCall s.sys s.space m fname mode attrib
  | .fcbOpen fcb flags => fcbOpen s.sys s.space m fcb flags
  | .mkRmdir dir mkdir => dosMkRmdir s.sys s.space m dir mkdir
  | .rename path1 path2 => dosRenameCall s.sys s.space.extend m path1 path2
  | .fcbRename r extend => fcbRename s.sys extend m r

end SdcBoot.Dir
