/-
# Searching a directory, by handle and by FCB

The handle calls keep where a search stands in the program's transfer area, as the 21 bytes of a
`dmatch`.  The FCB calls have only the reserved bytes of the FCB: `FcbFindFirstNext` builds a
`dmatch` from them and puts it back afterwards.  Three things do not survive that:

* the attributes are not in the FCB at all, but in the word `wAttr`, which the call before left
  there, whichever FCB it was for;
* the number of the directory's first cluster is cut to 16 bits;
* the pattern is taken from the FCB, whereas the first call took it from what `truename` made of it.

`searches_independent` says that nothing else is lost: as long as the next calls of a run find these
three as their own first call left them, each FCB gets what it would get alone, and the names that
a handle search finds.
-/
import SdcBoot.Lib.Run
import SdcBoot.Dir.Volume

namespace SdcBoot.Dir

open Lib Function

/-! ## 1. Handle searches -/

/-- The state of a search. -/
structure Dmatch where
  drive : UInt8
  namePat : Name
  attrSrch : UInt8
  entry : UInt16
  dircluster : UInt32
  deriving DecidableEq

/-- What the searches read and do not change: the names, the media, the clock, and the redirector
that answers for remote drives. -/
structure Env where
  defaultDrive : UInt8
  truename : Bytes → TrueName
  volume : UInt8 → Option Volume
  upper : UInt8 → UInt8
  time : UInt16
  date : UInt16
  remFindfirst : UInt8 → Bytes → Except Int (Dmatch × Dirent)
  remFindnext : Dmatch → Except Int (Dmatch × Dirent)

/-- The bits that decide a search: read-only, archive and device are ignored. -/
def searchBits (attr : UInt8) : UInt8 := attr &&& ~~~(D_RDONLY ||| D_ARCHIVE ||| D_DEVICE)

/-- The attribute test of `dos_findnext`: a search for the label, or one that includes what is asked
for. -/
def attrAccepts (attrSrch attrib : UInt8) : Bool :=
  if searchBits attrSrch = D_VOLID then attrib &&& D_VOLID != 0
  else ~~~(searchBits attrSrch) &&& (D_DIR ||| D_SYSTEM ||| D_HIDDEN ||| D_VOLID) &&& attrib == 0

/-- The entries a search returns. -/
def accepts (dmp : Dmatch) (e : Dirent) : Bool :=
  e.name.first != DELETED && e.attrib &&& D_LFN != D_LFN && fcmpWild dmp.namePat e.name &&
    attrAccepts dmp.attrSrch e.attrib

/-- `dos_findnext`: the next entry from `dm_entry` on. -/
def dosFindnext (env : Env) (dmp : Dmatch) : Except Int (Dmatch × Dirent) :=
  match env.volume dmp.drive with
  | none => .error DE_NFILES
  | some v =>
    let dircluster := v.dirStart dmp.dircluster
    match dirSearch (accepts dmp) ((v.slots dircluster).drop dmp.entry.toNat) dmp.entry.toNat with
    | none => .error DE_NFILES
    | some (entry, e) =>
      .ok ({ dmp with dircluster := dircluster, entry := UInt16.ofNat (entry + 1) }, e)

/-- The drive of a fully qualified path. -/
def driveOf (path : Bytes) : UInt8 := path.headD 0 - 0x41

/-- `dos_findfirst`: open the directory, or the root if only the label is wanted. -/
def dosFindfirst (env : Env) (attr : UInt16) (path : Bytes) : Except Int (Dmatch × Dirent) :=
  if path.drop 3 = [] then .error DE_NFILES
  else
    match env.volume (driveOf path) with
    | none => .error DE_NFILES
    | some v =>
      match splitPath v path with
      | none => .error DE_PATHNOTFND
      | some o =>
        let dircluster :=
          if attr &&& ~~~(D_RDONLY ||| D_ARCHIVE ||| D_DEVICE).toUInt16 = D_VOLID.toUInt16 then
            v.dirStart 0
          else o.dircluster
        dosFindnext env ⟨driveOf path, o.namePat, attr.toUInt8, 0, dircluster⟩

/-- The name behind the last separator. -/
def getRoot (path : Bytes) : Bytes :=
  (path.reverse.takeWhile fun c => c != backslash && c != 0x2f && c != 0x3a).reverse

/-- The entry made up for a device: its name without an extension. -/
def deviceEntry (env : Env) (path : Bytes) : Dirent :=
  { name := (convertNameSZToName83 (((getRoot path).takeWhile (· != dot)).take 8)).1
    attrib := D_DEVICE, time := env.time, date := env.date, start := 0, size := 0 }

/-- `DosFindFirst`.  A device is found at once, and its `dmatch` makes sure nothing follows. -/
def dosFindFirst (env : Env) (attr : UInt16) (name : Bytes) : Except Int (Dmatch × Dirent) :=
  match env.truename name with
  | .error rc => .error rc
  | .network path => env.remFindfirst attr.toUInt8 path
  | .device path => .ok (⟨0, Vector.replicate 11 0, 0, 0xffff, 0⟩, deviceEntry env path)
  | .file path => dosFindfirst env attr path

/-- `DosFindNext`, which never finds a second label or anything behind a device. -/
def dosFindNext (env : Env) (dmp : Dmatch) : Except Int (Dmatch × Dirent) :=
  if searchBits dmp.attrSrch = D_VOLID ∨ dmp.entry = 0xffff then .error DE_NFILES
  else if dmp.drive &&& 0x80 ≠ 0 then env.remFindnext dmp
  else dosFindnext env dmp

/-! ## 2. FCB searches -/

/-- An FCB, as far as a search uses it.  `extended` is there if the flag byte is 0xff: the reserved
bytes and the attribute. -/
structure Xfcb where
  extended : Option (Bytes × UInt8)
  drive : UInt8
  fname : Name
  sftno : UInt8
  strtclst : UInt16
  dirclst : UInt16

/-- `FcbNameInit`: the name with its drive, and the drive. -/
def fcbNameInit (env : Env) (fcb : Xfcb) : Bytes × UInt8 :=
  if fcb.drive ≠ 0 then
    ((0x41 + fcb.drive - 1) :: 0x3a :: convertName83ToNameSZ fcb.fname, fcb.drive)
  else (convertName83ToNameSZ fcb.fname, env.defaultDrive + 1)

/-- The attributes an FCB asks for. -/
def Xfcb.attr (fcb : Xfcb) : UInt8 :=
  match fcb.extended with
  | none => D_ALL
  | some header => header.2

/-- `found` is not the kernel's: it notes for which FCBs a first call has found something. -/
structure World where
  fcbs : Nat → Xfcb
  wAttr : UInt16
  found : Nat → Bool

def World.start (fcbs : Nat → Xfcb) (wAttr : UInt16) : World := ⟨fcbs, wAttr, fun _ => false⟩

/-- What the call puts into the transfer area. -/
structure Found where
  header : Option (Bytes × UInt8)
  drive : UInt8
  dirent : Dirent

structure Call where
  fcb : Nat
  first : Bool

/-- The `dmatch` that is built from the FCB, with the attributes the call before has left. -/
def fcbDmatch (env : Env) (wAttr : UInt16) (fcb : Xfcb) : Dmatch :=
  ⟨fcb.sftno, fcb.fname.map env.upper, wAttr.toUInt8, fcb.strtclst, fcb.dirclst.toUInt32⟩

/-- The position is put back into the FCB. -/
def Xfcb.store (fcb : Xfcb) (dmp : Dmatch) : Xfcb :=
  { fcb with dirclst := dmp.dircluster.toUInt16, strtclst := dmp.entry, sftno := dmp.drive }

/-- The search of `FcbFindFirstNext`: the first call takes the FCB's own attributes. -/
def fcbSearch (env : Env) (wAttr : UInt16) (fcb : Xfcb) (first : Bool) :
    Except Int (Dmatch × Dirent) :=
  if first then dosFindFirst env fcb.attr.toUInt16 (fcbNameInit env fcb).1
  else dosFindNext env (fcbDmatch env wAttr fcb)

def fcbFindFirstNext (env : Env) (w : World) (call : Call) : Except Int Found × World :=
  let fcb := w.fcbs call.fcb
  match fcbSearch env w.wAttr fcb call.first with
  | .error rc => (.error rc, { w with wAttr := fcb.attr.toUInt16 })
  | .ok (dmp, e) =>
    (.ok ⟨fcb.extended, (fcbNameInit env fcb).2, e⟩,
      { fcbs := Function.update w.fcbs call.fcb (fcb.store dmp)
        wAttr := fcb.attr.toUInt16
        found := Function.update w.found call.fcb true })

/-! ## 3. What is promised -/

/-- The calls of one FCB. -/
def callsOf (i : Nat) (call : Call) : Bool := call.fcb == i

/-- The name a call has found, as the handle calls give it. -/
def Found.nameSZ (f : Found) : Bytes := convertName83ToNameSZ f.dirent.name

/-- The same call by handle, with the name and the attributes of the FCB: the answer is the name,
and a failed call leaves the transfer area alone. -/
def handleStep (env : Env) (fcb : Xfcb) (dta : Dmatch) (call : Call) : Except Int Bytes × Dmatch :=
  match (if call.first then dosFindFirst env fcb.attr.toUInt16 (fcbNameInit env fcb).1
    else dosFindNext env dta) with
  | .error rc => (.error rc, dta)
  | .ok (dmp, e) => (.ok (convertName83ToNameSZ e.name), dmp)

/-- **Independent searches**: an FCB gets the answers it would get alone, and the names a handle
search finds, whatever was in the transfer area before. -/
structure Independent (env : Env) (fcbs : Nat → Xfcb) (wAttr : UInt16) (calls : List Call)
    (i : Nat) : Prop where
  alone : ownAnswers (fcbFindFirstNext env) (callsOf i) (World.start fcbs wAttr) calls =
    answers (fcbFindFirstNext env) (World.start fcbs wAttr) (calls.filter (callsOf i))
  names : ∀ dta, (ownAnswers (fcbFindFirstNext env) (callsOf i) (World.start fcbs wAttr) calls).map
      (Except.map Found.nameSZ) =
    answers (handleStep env (fcbs i)) dta (calls.filter (callsOf i))

/-- The search an FCB asks for can be kept in the FCB: its name is on a FAT volume, the pattern is
the FCB's name in capitals, and the directory's first cluster has a number of 16 bits.  A search for
the label has no next entry, so there is nothing to keep. -/
def keepable (env : Env) (fcb : Xfcb) : Bool :=
  match env.truename (fcbNameInit env fcb).1 with
  | .error _ => true
  | .network _ => false
  | .device _ => true
  | .file path =>
    match env.volume (driveOf path) with
    | none => true
    | some v =>
      match splitPath v path with
      | none => true
      | some o =>
        searchBits fcb.attr == D_VOLID || (o.namePat == fcb.fname.map env.upper &&
          v.dirStart (v.dirStart o.dircluster).toUInt16.toUInt32 == v.dirStart o.dircluster)

/-- **The condition**, on the state before a call: a next call goes on from something found, and
unless that was a device, it was on a local drive, the search can be kept in the FCB, and `wAttr`
still has the attributes of this FCB. -/
def undisturbed (env : Env) (w : World) (call : Call) : Bool :=
  call.first || (w.found call.fcb &&
    ((w.fcbs call.fcb).strtclst == 0xffff ||
      ((w.fcbs call.fcb).sftno &&& 0x80 == 0 && keepable env (w.fcbs call.fcb) &&
        searchBits w.wAttr.toUInt8 == searchBits (w.fcbs call.fcb).attr)))

/-! ## 4. Two states of one search -/

section

variable {env : Env} {d d' : Dmatch}

/-- The two states go on alike: they differ at most in attribute bits that are ignored and in how
the root is named. -/
structure SameSearch (env : Env) (d d' : Dmatch) : Prop where
  drive : d.drive = d'.drive
  namePat : d.namePat = d'.namePat
  entry : d.entry = d'.entry
  bits : searchBits d.attrSrch = searchBits d'.attrSrch
  dircluster : ∀ v, env.volume d'.drive = some v → v.dirStart d.dircluster = v.dirStart d'.dircluster

theorem SameSearch.accepts_eq (h : SameSearch env d d') : accepts d = accepts d' := by
  funext e
  unfold accepts attrAccepts
  rw [h.namePat, h.bits]

/-- What a call from `d` and one from `d'` have in common: both fail, or they find the same entry
and go on from the same slot of the same directory. -/
inductive SameOutcome (env : Env) (d d' : Dmatch) :
    Except Int (Dmatch × Dirent) → Except Int (Dmatch × Dirent) → Prop where
  | failed (rc : Int) : SameOutcome env d d' (.error rc) (.error rc)
  | found (v : Volume) (entry : UInt16) (e : Dirent) (hv : env.volume d'.drive = some v) :
      SameOutcome env d d'
        (.ok ({ d with dircluster := v.dirStart d'.dircluster, entry := entry }, e))
        (.ok ({ d' with dircluster := v.dirStart d'.dircluster, entry := entry }, e))

theorem dosFindnext_same (h : SameSearch env d d') :
    SameOutcome env d d' (dosFindnext env d) (dosFindnext env d') := by
  have haccepts := h.accepts_eq
  obtain ⟨drive, namePat, attrSrch, entry, dircluster⟩ := d
  obtain ⟨drive', namePat', attrSrch', entry', dircluster'⟩ := d'
  obtain ⟨rfl, rfl, rfl, -, hdir⟩ := h
  unfold dosFindnext
  rw [haccepts]
  cases hv : env.volume drive with
  | none => exact .failed _
  | some v =>
    simp only [hdir v hv]
    cases dirSearch (accepts ⟨drive, namePat, attrSrch', entry, dircluster'⟩)
        ((v.slots (v.dirStart dircluster')).drop entry.toNat) entry.toNat with
    | none => exact .failed _
    | some found => exact .found v _ _ hv

theorem dosFindNext_same (h : SameSearch env d d') (hlocal : d'.drive &&& 0x80 = 0) :
    SameOutcome env d d' (dosFindNext env d) (dosFindNext env d') := by
  have hlocal' : ¬ d'.drive &&& 0x80 ≠ 0 := not_not_intro hlocal
  unfold dosFindNext
  rw [h.bits, h.entry]
  split
  · exact .failed _
  · rw [h.drive, if_neg hlocal']
    exact dosFindnext_same h

theorem dosFindNext_of_device (h : d.entry = 0xffff) : dosFindNext env d = .error DE_NFILES := by
  unfold dosFindNext
  rw [if_pos (.inr h)]

theorem dosFindNext_of_label (h : searchBits d.attrSrch = D_VOLID) :
    dosFindNext env d = .error DE_NFILES := by
  unfold dosFindNext
  rw [if_pos (.inl h)]

end

/-! ## 5. An FCB alone and among others -/

section

variable {env : Env} {i : Nat} {w w' : World} {call : Call} {fcb : Xfcb}

theorem fcbFindFirstNext_of_error {rc : Int}
    (h : fcbSearch env w.wAttr (w.fcbs call.fcb) call.first = .error rc) :
    fcbFindFirstNext env w call =
      (.error rc, { w with wAttr := (w.fcbs call.fcb).attr.toUInt16 }) := by
  unfold fcbFindFirstNext
  simp only [h]

variable {e : Dirent}

variable {dmp : Dmatch}

theorem fcbFindFirstNext_of_ok
    (h : fcbSearch env w.wAttr (w.fcbs call.fcb) call.first = .ok (dmp, e)) :
    fcbFindFirstNext env w call =
      (.ok ⟨(w.fcbs call.fcb).extended, (fcbNameInit env (w.fcbs call.fcb)).2, e⟩,
        { fcbs := update w.fcbs call.fcb ((w.fcbs call.fcb).store dmp)
          wAttr := (w.fcbs call.fcb).attr.toUInt16
          found := update w.found call.fcb true }) := by
  unfold fcbFindFirstNext
  simp only [h]

/-- A call for another FCB leaves this one alone. -/
theorem fcbFindFirstNext_other (env : Env) (w : World) (h : callsOf i call = false) :
    (fcbFindFirstNext env w call).2.fcbs i = w.fcbs i ∧
      (fcbFindFirstNext env w call).2.found i = w.found i := by
  have hne : i ≠ call.fcb := by
    intro heq
    simp [callsOf, heq] at h
  cases hr : fcbSearch env w.wAttr (w.fcbs call.fcb) call.first with
  | error rc =>
    rw [fcbFindFirstNext_of_error hr]
    exact ⟨rfl, rfl⟩
  | ok r =>
    rw [fcbFindFirstNext_of_ok hr]
    exact ⟨update_of_ne hne _ _, update_of_ne hne _ _⟩

/-- The two worlds agree about the FCB, and in the second one its own attributes are in `wAttr`. -/
structure AloneRel (i : Nat) (w w' : World) : Prop where
  fcb : w.fcbs i = w'.fcbs i
  own : w.found i = true → w'.wAttr.toUInt8 = (w.fcbs i).attr

/-- Two searches that leave the same position in the FCB. -/
inductive SameStored (fcb : Xfcb) :
    Except Int (Dmatch × Dirent) → Except Int (Dmatch × Dirent) → Prop where
  | failed (rc : Int) : SameStored fcb (.error rc) (.error rc)
  | found {dmp dmp' : Dmatch} (e : Dirent) (h : fcb.store dmp = fcb.store dmp') :
      SameStored fcb (.ok (dmp, e)) (.ok (dmp', e))

theorem SameStored.refl (r : Except Int (Dmatch × Dirent)) : SameStored fcb r r := by
  cases r with
  | error rc => exact .failed rc
  | ok r => exact .found r.2 rfl

theorem SameOutcome.sameStored {d d' : Dmatch} {r r' : Except Int (Dmatch × Dirent)}
    (hdrive : d.drive = d'.drive) (h : SameOutcome env d d' r r') : SameStored fcb r r' := by
  cases h with
  | failed rc => exact .failed rc
  | found v entry e _ => exact .found e (by simp [Xfcb.store, hdrive])

/-- The next call depends on `wAttr` only through the bits that decide a search. -/
theorem dosFindNext_fcbDmatch {wAttr wAttr' : UInt16} (hlocal : fcb.sftno &&& 0x80 = 0)
    (hbits : searchBits wAttr.toUInt8 = searchBits wAttr'.toUInt8) :
    SameStored fcb (dosFindNext env (fcbDmatch env wAttr fcb))
      (dosFindNext env (fcbDmatch env wAttr' fcb)) := by
  have hsame : SameSearch env (fcbDmatch env wAttr fcb) (fcbDmatch env wAttr' fcb) :=
    ⟨rfl, rfl, rfl, hbits, fun _ _ => rfl⟩
  exact (dosFindNext_same hsame hlocal).sameStored hsame.drive

/-- What the condition says about a next call. -/
theorem undisturbed_next (hok : undisturbed env w call = true) (hnext : call.first = false) :
    w.found call.fcb = true ∧ ((w.fcbs call.fcb).strtclst = 0xffff ∨
      ((w.fcbs call.fcb).sftno &&& 0x80 = 0 ∧ keepable env (w.fcbs call.fcb) = true ∧
        searchBits w.wAttr.toUInt8 = searchBits (w.fcbs call.fcb).attr)) := by
  simpa [undisturbed, hnext, and_assoc] using hok

theorem fcbSearch_alone (hR : AloneRel i w w') (hown : call.fcb = i)
    (hok : undisturbed env w call = true) :
    SameStored (w.fcbs i) (fcbSearch env w.wAttr (w.fcbs i) call.first)
      (fcbSearch env w'.wAttr (w.fcbs i) call.first) := by
  subst hown
  cases hfirst : call.first with
  | true => exact .refl _
  | false =>
    obtain ⟨hfound, hdevice | ⟨hlocal, -, hbits⟩⟩ := undisturbed_next hok hfirst
    · unfold fcbSearch
      rw [dosFindNext_of_device (d := fcbDmatch env w.wAttr _) hdevice,
        dosFindNext_of_device (d := fcbDmatch env w'.wAttr _) hdevice]
      exact .failed _
    · refine dosFindNext_fcbDmatch hlocal ?_
      rw [hbits, hR.own hfound]

/-- A call of the FCB itself is answered alike in the two worlds. -/
theorem alone_step (hR : AloneRel i w w') (hown : call.fcb = i)
    (hok : undisturbed env w call = true) :
    (fcbFindFirstNext env w call).1 = (fcbFindFirstNext env w' call).1 ∧
      AloneRel i (fcbFindFirstNext env w call).2 (fcbFindFirstNext env w' call).2 := by
  have hstored := fcbSearch_alone hR hown hok
  subst hown
  generalize hr : fcbSearch env w.wAttr (w.fcbs call.fcb) call.first = r at hstored
  generalize hr' : fcbSearch env w'.wAttr (w.fcbs call.fcb) call.first = r' at hstored
  cases hstored with
  | failed rc =>
    rw [fcbFindFirstNext_of_error hr, fcbFindFirstNext_of_error (hR.fcb ▸ hr')]
    refine ⟨rfl, hR.fcb, fun _ => ?_⟩
    rw [← hR.fcb]
    exact UInt8.toUInt8_toUInt16 _
  | found e hsame =>
    rw [fcbFindFirstNext_of_ok hr, fcbFindFirstNext_of_ok (hR.fcb ▸ hr'), ← hR.fcb]
    refine ⟨rfl, ?_, fun _ => ?_⟩
    · simp only [update_self, hsame]
    · simp only [update_self]
      exact UInt8.toUInt8_toUInt16 _

theorem alone_other (hR : AloneRel i w w') (hother : callsOf i call = false) :
    AloneRel i (fcbFindFirstNext env w call).2 w' := by
  obtain ⟨hfcb, hfound⟩ := fcbFindFirstNext_other env w hother
  refine ⟨hfcb.trans hR.fcb, fun h => ?_⟩
  rw [hfcb]
  exact hR.own (hfound ▸ h)

end

/-! ## 6. An FCB and a handle -/

section

variable {env : Env} {i : Nat} {w : World} {call : Call} {fcb fcb₀ : Xfcb} {dta : Dmatch}

theorem Volume.dirStart_dirStart (v : Volume) (c : UInt32) :
    v.dirStart (v.dirStart c) = v.dirStart c := by
  unfold Volume.dirStart
  split
  · split <;> rfl
  · rfl

/-- The two FCBs ask for the same. -/
structure SameQuery (fcb fcb' : Xfcb) : Prop where
  extended : fcb.extended = fcb'.extended
  drive : fcb.drive = fcb'.drive
  fname : fcb.fname = fcb'.fname

section

variable (h : SameQuery fcb fcb₀)
include h

theorem SameQuery.attr_eq : fcb.attr = fcb₀.attr := by
  unfold Xfcb.attr
  rw [h.extended]

theorem SameQuery.fcbNameInit_eq : fcbNameInit env fcb = fcbNameInit env fcb₀ := by
  unfold fcbNameInit
  rw [h.drive, h.fname]

theorem SameQuery.keepable_eq : keepable env fcb = keepable env fcb₀ := by
  unfold keepable
  rw [h.fcbNameInit_eq, h.fname, h.attr_eq]

theorem SameQuery.store (dmp : Dmatch) : SameQuery (fcb.store dmp) fcb₀ :=
  ⟨h.extended, h.drive, h.fname⟩

end

/-- A `dmatch` that the FCB can keep: the pattern and the directory can be had back from it. -/
structure KeptIn (env : Env) (fcb : Xfcb) (dmp : Dmatch) : Prop where
  attr : dmp.attrSrch = fcb.attr
  namePat : dmp.namePat = fcb.fname.map env.upper
  dircluster : ∀ v, env.volume dmp.drive = some v →
    v.dirStart dmp.dircluster.toUInt16.toUInt32 = dmp.dircluster ∧
      v.dirStart dmp.dircluster = dmp.dircluster

/-- The search behind a `dmatch` is over, or can be kept if the condition says so. -/
def Searching (env : Env) (fcb : Xfcb) (dmp : Dmatch) : Prop :=
  dmp.entry = 0xffff ∨
    (keepable env fcb = true → searchBits dmp.attrSrch = D_VOLID ∧ dmp.attrSrch = fcb.attr ∨
      KeptIn env fcb dmp)

/-- An entry of the directory was found: the state is that of the call, with a new position. -/
theorem dosFindnext_ok {d dmp : Dmatch} (h : dosFindnext env d = .ok (dmp, e)) :
    ∃ v entry, env.volume d.drive = some v ∧
      dmp = { d with dircluster := v.dirStart d.dircluster, entry := entry } := by
  unfold dosFindnext at h
  split at h
  · cases h
  · next v hv =>
    dsimp only at h
    split at h
    · cases h
    · cases h
      exact ⟨v, _, hv, rfl⟩

theorem labelOnly_of_word {attr : UInt8}
    (h : attr.toUInt16 &&& ~~~(D_RDONLY ||| D_ARCHIVE ||| D_DEVICE).toUInt16 = D_VOLID.toUInt16) :
    searchBits attr = D_VOLID := by
  have hbyte := congrArg UInt16.toUInt8 h
  rw [UInt16.toUInt8_and, UInt8.toUInt8_toUInt16, UInt8.toUInt8_toUInt16] at hbyte
  exact hbyte

/-- What a first call leaves can be kept, whenever the condition promises it. -/
theorem dosFindFirst_searching
    (h : dosFindFirst env fcb.attr.toUInt16 (fcbNameInit env fcb).1 = .ok (dmp, e)) :
    Searching env fcb dmp := by
  unfold dosFindFirst at h
  unfold Searching keepable
  cases htrue : env.truename (fcbNameInit env fcb).1 with
  | error rc => simp [htrue] at h
  | network path =>
    right
    nofun
  | device path =>
    left
    rw [htrue] at h
    cases h
    rfl
  | file path =>
    right
    simp only [htrue] at h
    unfold dosFindfirst at h
    split at h
    · cases h
    · cases hv : env.volume (driveOf path) with
      | none => simp [hv] at h
      | some v =>
        simp only [hv] at h
        cases ho : splitPath v path with
        | none => simp [ho] at h
        | some o =>
          simp only [ho] at h
          obtain ⟨v', entry, hv', rfl⟩ := dosFindnext_ok h
          cases hv.symm.trans hv'
          intro hkeep
          simp only [UInt8.toUInt8_toUInt16] at *
          by_cases hlabel : searchBits fcb.attr = D_VOLID
          · exact .inl ⟨hlabel, trivial⟩
          · right
            have hword := mt labelOnly_of_word hlabel
            simp only [hv, ho, hlabel, beq_iff_eq, Bool.or_eq_true, false_or, Bool.and_eq_true]
              at hkeep
            refine ⟨rfl, hkeep.1, fun v'' hv'' => ?_⟩
            cases hv.symm.trans hv''
            rw [if_neg hword]
            exact ⟨hkeep.2, Volume.dirStart_dirStart v _⟩

/-- The FCB and the transfer area of the handle stand at the same place. -/
structure HandleRel (env : Env) (fcb₀ : Xfcb) (i : Nat) (w : World) (dta : Dmatch) : Prop where
  query : SameQuery (w.fcbs i) fcb₀
  entry : w.found i = true → (w.fcbs i).strtclst = dta.entry
  drive : w.found i = true → (w.fcbs i).sftno = dta.drive
  dirclst : w.found i = true → (w.fcbs i).dirclst = dta.dircluster.toUInt16
  searching : w.found i = true → Searching env fcb₀ dta

/-- The search of a call by handle. -/
theorem handleStep_of_error {rc : Int}
    (h : (if call.first then dosFindFirst env fcb.attr.toUInt16 (fcbNameInit env fcb).1
      else dosFindNext env dta) = .error rc) : handleStep env fcb dta call = (.error rc, dta) := by
  unfold handleStep
  rw [h]

theorem handleStep_of_ok
    (h : (if call.first then dosFindFirst env fcb.attr.toUInt16 (fcbNameInit env fcb).1
      else dosFindNext env dta) = .ok (dmp, e)) :
    handleStep env fcb dta call = (.ok (convertName83ToNameSZ e.name), dmp) := by
  unfold handleStep
  rw [h]

theorem KeptIn.sameSearch (hkept : KeptIn env fcb dta) {wAttr : UInt16}
    (hentry : fcb.strtclst = dta.entry) (hdrive : fcb.sftno = dta.drive)
    (hdirclst : fcb.dirclst = dta.dircluster.toUInt16)
    (hbits : searchBits wAttr.toUInt8 = searchBits fcb.attr) :
    SameSearch env (fcbDmatch env wAttr fcb) dta := by
  refine ⟨hdrive, hkept.namePat.symm, hentry, ?_, fun v hv => ?_⟩
  · rw [hkept.attr]
    exact hbits
  · obtain ⟨hback, hself⟩ := hkept.dircluster v hv
    rw [hself, ← hback]
    simp only [fcbDmatch, hdirclst]

/-- A search that goes on stays in its directory. -/
theorem KeptIn.advance (hkept : KeptIn env fcb dta) {v : Volume}
    (hv : env.volume dta.drive = some v) (entry : UInt16) :
    KeptIn env fcb { dta with dircluster := v.dirStart dta.dircluster, entry := entry } := by
  refine ⟨hkept.attr, hkept.namePat, fun v' hv' => ?_⟩
  rw [(hkept.dircluster v hv).2]
  exact hkept.dircluster v' hv'

theorem SameQuery.keptIn (h : SameQuery fcb fcb₀) (hkept : KeptIn env fcb₀ dta) :
    KeptIn env fcb dta :=
  ⟨hkept.attr.trans h.attr_eq.symm, by rw [h.fname]; exact hkept.namePat, hkept.dircluster⟩

section

variable (hR : HandleRel env fcb₀ i w dta)
include hR

/-- The outcome of a next call, by FCB and by handle. -/
theorem next_outcome (hown : call.fcb = i)
    (hnext : call.first = false) (hok : undisturbed env w call = true) :
    (dosFindNext env (fcbDmatch env w.wAttr (w.fcbs i)) = .error DE_NFILES ∧
        dosFindNext env dta = .error DE_NFILES) ∨
      (KeptIn env fcb₀ dta ∧ SameOutcome env (fcbDmatch env w.wAttr (w.fcbs i)) dta
        (dosFindNext env (fcbDmatch env w.wAttr (w.fcbs i))) (dosFindNext env dta)) := by
  subst hown
  obtain ⟨hfound, hcase⟩ := undisturbed_next hok hnext
  have hentry := hR.entry hfound
  rcases hcase with hdevice | ⟨hlocal, hkeep, hbits⟩
  · exact .inl ⟨dosFindNext_of_device hdevice, dosFindNext_of_device (hentry ▸ hdevice)⟩
  rcases hR.searching hfound with hdevice | hsearch
  · exact .inl ⟨dosFindNext_of_device (hentry.trans hdevice), dosFindNext_of_device hdevice⟩
  rcases hsearch (hR.query.keepable_eq ▸ hkeep) with ⟨hlabel, hattr⟩ | hkept
  · left
    have hmine : searchBits w.wAttr.toUInt8 = D_VOLID := by
      rw [hbits, hR.query.attr_eq, ← hattr, hlabel]
    exact ⟨dosFindNext_of_label hmine, dosFindNext_of_label hlabel⟩
  · right
    have hsame := (hR.query.keptIn hkept).sameSearch hentry (hR.drive hfound) (hR.dirclst hfound)
      hbits
    exact ⟨hkept, dosFindNext_same hsame (hR.drive hfound ▸ hlocal)⟩

/-- After a failed call both stand where they stood. -/
theorem HandleRel.failed (wAttr : UInt16) :
    HandleRel env fcb₀ i { w with wAttr := wAttr } dta :=
  ⟨hR.query, hR.entry, hR.drive, hR.dirclst, hR.searching⟩

/-- After an entry was found the FCB has the position of the transfer area. -/
theorem HandleRel.stored {dmp dmp' : Dmatch} (wAttr : UInt16)
    (hstore : (w.fcbs i).store dmp = (w.fcbs i).store dmp') (hsearch : Searching env fcb₀ dmp') :
    HandleRel env fcb₀ i
      { fcbs := update w.fcbs i ((w.fcbs i).store dmp)
        wAttr := wAttr
        found := update w.found i true } dmp' := by
  rw [hstore]
  refine ⟨?_, fun _ => ?_, fun _ => ?_, fun _ => ?_, fun _ => hsearch⟩
  · simpa using hR.query.store dmp'
  · simp [Xfcb.store]
  · simp [Xfcb.store]
  · simp [Xfcb.store]

/-- A call by FCB finds what the call by handle finds. -/
theorem handle_step (hown : call.fcb = i) (hok : undisturbed env w call = true) :
    (fcbFindFirstNext env w call).1.map Found.nameSZ = (handleStep env fcb₀ dta call).1 ∧
      HandleRel env fcb₀ i (fcbFindFirstNext env w call).2 (handleStep env fcb₀ dta call).2 := by
  cases hfirst : call.first with
  | true =>
    have hsearch : fcbSearch env w.wAttr (w.fcbs call.fcb) call.first =
        dosFindFirst env fcb₀.attr.toUInt16 (fcbNameInit env fcb₀).1 := by
      rw [hfirst, hown, ← hR.query.attr_eq, ← hR.query.fcbNameInit_eq]
      rfl
    cases hr : dosFindFirst env fcb₀.attr.toUInt16 (fcbNameInit env fcb₀).1 with
    | error rc =>
      rw [fcbFindFirstNext_of_error (hsearch.trans hr), handleStep_of_error (by rw [hfirst]; exact hr)]
      exact ⟨rfl, hR.failed _⟩
    | ok r =>
      rw [fcbFindFirstNext_of_ok (hsearch.trans hr), handleStep_of_ok (by rw [hfirst]; exact hr)]
      subst hown
      exact ⟨rfl, hR.stored _ rfl (dosFindFirst_searching hr)⟩
  | false =>
    have hsearch : fcbSearch env w.wAttr (w.fcbs call.fcb) call.first =
        dosFindNext env (fcbDmatch env w.wAttr (w.fcbs i)) := by
      rw [hfirst, hown]
      rfl
    rcases next_outcome hR hown hfirst hok with ⟨hmine, hhandle⟩ | ⟨hkept, houtcome⟩
    · rw [fcbFindFirstNext_of_error (hsearch.trans hmine),
        handleStep_of_error (by rw [hfirst]; exact hhandle)]
      exact ⟨rfl, hR.failed _⟩
    · generalize hmine : dosFindNext env (fcbDmatch env w.wAttr (w.fcbs i)) = r at houtcome
      generalize hhandle : dosFindNext env dta = r' at houtcome
      cases houtcome with
      | failed rc =>
        rw [fcbFindFirstNext_of_error (hsearch.trans hmine),
          handleStep_of_error (by rw [hfirst]; exact hhandle)]
        exact ⟨rfl, hR.failed _⟩
      | found v entry e hv =>
        rw [fcbFindFirstNext_of_ok (hsearch.trans hmine),
          handleStep_of_ok (by rw [hfirst]; exact hhandle)]
        subst hown
        have hfound := (undisturbed_next hok hfirst).1
        refine ⟨rfl, hR.stored _ ?_ (.inr fun _ => .inr (hkept.advance hv entry))⟩
        simp only [Xfcb.store, fcbDmatch, hR.drive hfound]

theorem handle_other (hother : callsOf i call = false) :
    HandleRel env fcb₀ i (fcbFindFirstNext env w call).2 dta := by
  obtain ⟨hfcb, hfound⟩ := fcbFindFirstNext_other env w hother
  refine ⟨?_, fun h => ?_, fun h => ?_, fun h => ?_, fun h => ?_⟩
  · rw [hfcb]
    exact hR.query
  · rw [hfcb]
    exact hR.entry (hfound ▸ h)
  · rw [hfcb]
    exact hR.drive (hfound ▸ h)
  · rw [hfcb]
    exact hR.dirclst (hfound ▸ h)
  · exact hR.searching (hfound ▸ h)

end

end

/-! ## 7. Runs -/

theorem callsOf_eq {i : Nat} {call : Call} (h : callsOf i call = true) : call.fcb = i := by
  simpa [callsOf] using h

/-- **Independent searches.**  In every run of first and next calls on any FCBs, in any order, each
FCB gets the answers it would get alone and the names a handle search finds, as long as each next
call finds its attributes in `wAttr` and its search is one that an FCB can keep. -/
theorem searches_independent (env : Env) (fcbs : Nat → Xfcb) (wAttr : UInt16) (calls : List Call)
    (hrun : Guarded (fcbFindFirstNext env) (fun w call => undisturbed env w call = true)
      (World.start fcbs wAttr) calls) (i : Nat) : Independent env fcbs wAttr calls i := by
  constructor
  case alone =>
    have hmine : ∀ w w' call, callsOf i call = true → AloneRel i w w' →
        undisturbed env w call = true →
        id (fcbFindFirstNext env w call).1 = (fcbFindFirstNext env w' call).1 ∧
          AloneRel i (fcbFindFirstNext env w call).2 (fcbFindFirstNext env w' call).2 :=
      fun w w' call hown hR hok => alone_step hR (callsOf_eq hown) hok
    have hother : ∀ w w' call, callsOf i call = false → AloneRel i w w' →
        AloneRel i (fcbFindFirstNext env w call).2 w' :=
      fun w w' call hother hR => alone_other hR hother
    have hstart : AloneRel i (World.start fcbs wAttr) (World.start fcbs wAttr) :=
      ⟨rfl, nofun⟩
    have halone := Guarded.ownAnswers_eq hmine hother calls _ _ hstart hrun
    rwa [List.map_id] at halone
  case names =>
    intro dta
    have hmine : ∀ w dta call, callsOf i call = true → HandleRel env (fcbs i) i w dta →
        undisturbed env w call = true →
        (fcbFindFirstNext env w call).1.map Found.nameSZ = (handleStep env (fcbs i) dta call).1 ∧
          HandleRel env (fcbs i) i (fcbFindFirstNext env w call).2
            (handleStep env (fcbs i) dta call).2 :=
      fun w dta call hown hR hok => handle_step hR (callsOf_eq hown) hok
    have hother : ∀ w dta call, callsOf i call = false → HandleRel env (fcbs i) i w dta →
        HandleRel env (fcbs i) i (fcbFindFirstNext env w call).2 dta :=
      fun w dta call hother hR => handle_other hR hother
    have hstart : HandleRel env (fcbs i) i (World.start fcbs wAttr) dta :=
      ⟨⟨rfl, rfl, rfl⟩, nofun, nofun, nofun, nofun⟩
    exact Guarded.ownAnswers_eq hmine hother calls _ _ hstart hrun

/-! ## 8. Two FCBs and a hidden file -/

/-- `A.TXT` and the hidden `B.TXT`. -/
def aTxt : Dirent :=
  ⟨#v[0x41, 0x20, 0x20, 0x20, 0x20, 0x20, 0x20, 0x20, 0x54, 0x58, 0x54], D_ARCHIVE, 0, 0x21, 2, 1⟩

def bTxt : Dirent :=
  ⟨#v[0x42, 0x20, 0x20, 0x20, 0x20, 0x20, 0x20, 0x20, 0x54, 0x58, 0x54], D_HIDDEN, 0, 0x21, 3, 1⟩

/-- A FAT16 volume C: with the two files in its root, which is the current directory. -/
def twoFiles : Env where
  defaultDrive := 2
  truename := fun name => .file (0x43 :: 0x3a :: backslash :: name.drop 2)
  volume := fun drive => if drive = 2 then
    some ⟨false, 0, 64, fun c => if c = 0 then [aTxt, bTxt, Dirent.zero] else []⟩ else none
  upper := id
  time := 0
  date := 0x21
  remFindfirst := fun _ _ => .error DE_NFILES
  remFindnext := fun _ => .error DE_NFILES

/-- FCB 0 is an ordinary one and the others are extended with attribute 0; all ask for
`C:????????.???`. -/
def anyNames (i : Nat) : Xfcb where
  extended := if i = 0 then none else some ([0, 0, 0, 0, 0], 0)
  drive := 3
  fname := Vector.replicate 11 questionMark
  sftno := 0
  strtclst := 0
  dirclst := 0

/-- Two searches one after the other, each with its next call, do not disturb each other. -/
theorem one_after_the_other :
    Independent twoFiles anyNames 0 [⟨0, true⟩, ⟨0, false⟩, ⟨1, true⟩, ⟨1, false⟩] 0 := by
  refine searches_independent twoFiles anyNames 0 _ ?_ 0
  exact ⟨by decide +kernel, by decide +kernel, by decide +kernel, by decide +kernel, trivial⟩

/-- When the second search begins before the first one goes on, the first no longer sees the hidden
file. -/
theorem hidden_file_missed :
    ¬ Independent twoFiles anyNames 0 [⟨0, true⟩, ⟨1, true⟩, ⟨0, false⟩] 0 := by
  intro h
  have hnames := h.names ⟨0, blankName, 0, 0, 0⟩
  revert hnames
  decide +kernel

end SdcBoot.Dir
