/-
# What a search enumerates

A program that wants all entries of a directory that match a pattern calls `DosFindFirst` once and
`DosFindNext` until it fails.  Between two calls there is nothing but the 21 bytes of the `dmatch`:
each call opens the directory anew, takes its position from there, and puts back the position behind
the entry it has found.

`find_all` says what the program gets: the entries before the end mark that are live, no part of a
long name, match the pattern, and are hidden, system, directory or label only if the mask says so;
each once, in the order of the directory.  A directory is looked at up to slot 65534, since
`dir_read` does not go on behind that.
-/
import SdcBoot.Dir.Unique

namespace SdcBoot.Dir

open Lib List

/-! ## 1. All calls of a search -/

/-- The entries that a call and `n` next calls return, and the error that ended them, if one did. -/
def findRest (env : Env) : Nat → Except Int (Dmatch × Dirent) → List Dirent × Option Int
  | _, .error rc => ([], some rc)
  | 0, .ok (_, e) => ([e], none)
  | n + 1, .ok (dmp, e) =>
    let r := findRest env n (dosFindNext env dmp)
    (e :: r.1, r.2)

/-- `DosFindFirst`, and `n` times `DosFindNext`. -/
def findAll (env : Env) (n : Nat) (attr : UInt16) (name : Bytes) : List Dirent × Option Int :=
  findRest env n (dosFindFirst env attr name)

/-- The entries before the end mark. -/
def used (slots : List Dirent) : List Dirent := slots.takeWhile fun e => e.name.first != 0

/-- The bits a mask has to include. -/
def inclusiveBits : UInt8 := D_HIDDEN ||| D_SYSTEM ||| D_DIR ||| D_VOLID

/-- **What a search is for**: a live entry that is no part of a long name, with a name that matches,
and all of whose inclusive bits are in the mask. -/
def wanted (pat : Name) (mask : UInt8) (e : Dirent) : Bool :=
  e.name.first != DELETED && e.attrib &&& D_LFN != D_LFN && fcmpWild pat e.name &&
    e.attrib &&& inclusiveBits &&& ~~~mask == 0

/-! ## 2. One call -/

/-- A search finds the first of the entries that pass the test. -/
theorem dirSearch_filter (p : Dirent → Bool) (slots : List Dirent) (entry : Nat) :
    (dirSearch p slots entry = none → (used slots).filter p = []) ∧
      ∀ m e, dirSearch p slots entry = some (m, e) → entry ≤ m ∧ m < entry + slots.length ∧
        (used slots).filter p = e :: (used (slots.drop (m + 1 - entry))).filter p := by
  induction slots generalizing entry with
  | nil => exact ⟨fun _ => rfl, fun m e h => by cases h⟩
  | cons s rest ih =>
    unfold dirSearch used
    by_cases hend : s.name.first = 0
    · rw [if_pos hend, takeWhile_cons_of_neg (by simp [hend])]
      exact ⟨fun _ => rfl, fun m e h => by cases h⟩
    · rw [if_neg hend, takeWhile_cons_of_pos (by simp [hend])]
      by_cases hp : p s = true
      · rw [if_pos hp, filter_cons_of_pos hp]
        refine ⟨fun h => absurd h (by simp), fun m e h => ?_⟩
        cases h
        refine ⟨le_refl _, by simp, ?_⟩
        rw [Nat.add_sub_cancel_left, drop_succ_cons, drop_zero]
      · rw [if_neg hp, filter_cons_of_neg (by simpa using hp)]
        obtain ⟨hnone, hsome⟩ := ih (entry + 1)
        refine ⟨hnone, fun m e h => ?_⟩
        obtain ⟨hle, hlt, heq⟩ := hsome m e h
        refine ⟨by omega, by simp only [length_cons]; omega, ?_⟩
        rw [show m + 1 - entry = (m + 1 - (entry + 1)) + 1 by omega, drop_succ_cons]
        exact heq

/-- The attribute test of a search that is not for the label alone. -/
theorem attrAccepts_inclusive {mask : UInt8} (h : searchBits mask ≠ D_VOLID) (attrib : UInt8) :
    attrAccepts mask attrib = (attrib &&& inclusiveBits &&& ~~~mask == 0) := by
  unfold attrAccepts
  rw [if_neg h]
  have hbit : ∀ i (hi : i < 8), ∀ a m : Bool,
      ((!a || !(158#8)[i]) && (30#8)[i] && m) = (m && (30#8)[i] && !a) := by decide
  have hbits : ~~~(searchBits mask) &&& (D_DIR ||| D_SYSTEM ||| D_HIDDEN ||| D_VOLID) &&& attrib =
      attrib &&& inclusiveBits &&& ~~~mask := by
    unfold searchBits inclusiveBits D_DIR D_SYSTEM D_HIDDEN D_VOLID D_RDONLY D_ARCHIVE D_DEVICE
    apply UInt8.eq_of_toBitVec_eq
    ext i hi
    simpa using hbit i hi mask.toBitVec[i] attrib.toBitVec[i]
  rw [hbits]

/-! ## 3. A whole search -/

section

variable {env : Env} {v : Volume} {d : Dmatch}

/-- A search that is not for the label, on a local drive. -/
structure Inclusive (env : Env) (v : Volume) (d : Dmatch) : Prop where
  mask : searchBits d.attrSrch ≠ D_VOLID
  drive : d.drive &&& 0x80 = 0
  volume : env.volume d.drive = some v

theorem accepts_eq (h : Inclusive env v d) : accepts d = wanted d.namePat d.attrSrch := by
  funext e
  unfold accepts wanted
  rw [attrAccepts_inclusive h.mask]

theorem slots_length (v : Volume) (cluster : UInt32) : (v.slots cluster).length ≤ 65535 := by
  unfold Volume.slots
  rw [length_map, length_take]
  exact min_le_left _ _

/-- **One call**: nothing that is wanted is left, or the first of what is left is found and the
position is behind it. -/
theorem dosFindnext_spec (h : Inclusive env v d) :
    (((used ((v.slots (v.dirStart d.dircluster)).drop d.entry.toNat)).filter
        (wanted d.namePat d.attrSrch) = [] ∧ dosFindnext env d = .error DE_NFILES)) ∨
      ∃ m e, m < (v.slots (v.dirStart d.dircluster)).length ∧ d.entry.toNat ≤ m ∧
        dosFindnext env d =
          .ok ({ d with dircluster := v.dirStart d.dircluster, entry := UInt16.ofNat (m + 1) }, e) ∧
        (used ((v.slots (v.dirStart d.dircluster)).drop d.entry.toNat)).filter
            (wanted d.namePat d.attrSrch) =
          e :: (used ((v.slots (v.dirStart d.dircluster)).drop (m + 1))).filter
            (wanted d.namePat d.attrSrch) := by
  obtain ⟨hnone, hsome⟩ := dirSearch_filter (wanted d.namePat d.attrSrch)
    ((v.slots (v.dirStart d.dircluster)).drop d.entry.toNat) d.entry.toNat
  unfold dosFindnext
  simp only [h.volume, accepts_eq h]
  cases hsearch : dirSearch (wanted d.namePat d.attrSrch)
      ((v.slots (v.dirStart d.dircluster)).drop d.entry.toNat) d.entry.toNat with
  | none => exact .inl ⟨hnone hsearch, rfl⟩
  | some found =>
    obtain ⟨m, e⟩ := found
    obtain ⟨hle, hlt, heq⟩ := hsome m e hsearch
    rw [length_drop] at hlt
    rw [drop_drop, show d.entry.toNat + (m + 1 - d.entry.toNat) = m + 1 by omega] at heq
    exact .inr ⟨m, e, by omega, hle, rfl, heq⟩

/-- Where a search goes on. -/
theorem dosFindNext_inclusive (h : Inclusive env v d) :
    dosFindNext env d = if d.entry = 0xffff then .error DE_NFILES else dosFindnext env d := by
  unfold dosFindNext
  by_cases hend : d.entry = 0xffff
  · rw [if_pos (.inr hend), if_pos hend]
  · rw [if_neg (not_or.mpr ⟨h.mask, hend⟩), if_neg (not_not.mpr h.drive), if_neg hend]

/-- **All next calls** return what is left of the directory. -/
theorem findRest_spec (n : Nat) (h : Inclusive env v d)
    (hn : (v.slots (v.dirStart d.dircluster)).length < n + d.entry.toNat) :
    findRest env n (dosFindNext env d) =
      ((used ((v.slots (v.dirStart d.dircluster)).drop d.entry.toNat)).filter
        (wanted d.namePat d.attrSrch), some DE_NFILES) := by
  induction n generalizing d with
  | zero =>
    have hempty : (v.slots (v.dirStart d.dircluster)).drop d.entry.toNat = [] :=
      drop_eq_nil_of_le (by omega)
    rw [dosFindNext_inclusive h, hempty]
    split
    · rfl
    · rcases dosFindnext_spec h with ⟨-, hrun⟩ | ⟨m, e, hlt, hle, -, -⟩
      · rw [hrun]
        rfl
      · omega
  | succ n ih =>
    rw [dosFindNext_inclusive h]
    by_cases hend : d.entry = 0xffff
    · have hempty : (v.slots (v.dirStart d.dircluster)).drop d.entry.toNat = [] := by
        refine drop_eq_nil_of_le ?_
        rw [hend]
        exact slots_length v _
      rw [if_pos hend, hempty]
      rfl
    · rw [if_neg hend]
      rcases dosFindnext_spec h with ⟨hnil, hrun⟩ | ⟨m, e, hlt, hle, hrun, hcons⟩
      · rw [hrun, hnil]
        rfl
      · have hlen := slots_length v (v.dirStart d.dircluster)
        have hentry : (UInt16.ofNat (m + 1)).toNat = m + 1 := by
          exact Nat.mod_eq_of_lt (by omega)
        have hnext := @ih
          { d with dircluster := v.dirStart d.dircluster, entry := UInt16.ofNat (m + 1) }
          ⟨h.mask, h.drive, h.volume⟩
          (by rw [hentry, Volume.dirStart_dirStart]; omega)
        rw [hentry, Volume.dirStart_dirStart] at hnext
        rw [hrun, hcons]
        unfold findRest
        rw [hnext]

end

/-- A mask that is for the label alone as a word is so as a byte. -/
theorem labelMask_of_word {attr : UInt16}
    (h : attr &&& ~~~(D_RDONLY ||| D_ARCHIVE ||| D_DEVICE).toUInt16 = D_VOLID.toUInt16) :
    searchBits attr.toUInt8 = D_VOLID := by
  have hbyte := congrArg UInt16.toUInt8 h
  rw [UInt16.toUInt8_and] at hbyte
  exact hbyte

/-- **A search enumerates the matches.**  On a local drive, with a mask that is not for the label
alone, `DosFindFirst` and `DosFindNext` return what the search is for among the entries before the
end mark and below slot 65535, in their order and each once, and DE_NFILES when there are no more. -/
theorem find_all {env : Env} {v : Volume} {o : Opened} {attr : UInt16} {name path : Bytes}
    (htrue : env.truename name = .file path) (hname : path.drop 3 ≠ [])
    (hlocal : driveOf path &&& 0x80 = 0) (hv : env.volume (driveOf path) = some v)
    (hopen : splitPath v path = some o) (hmask : searchBits attr.toUInt8 ≠ D_VOLID) {n : Nat}
    (hn : 65535 < n) :
    findAll env n attr name =
      ((used (v.slots (v.dirStart o.dircluster))).filter (wanted o.namePat attr.toUInt8),
        some DE_NFILES) := by
  have hd : Inclusive env v ⟨driveOf path, o.namePat, attr.toUInt8, 0, o.dircluster⟩ :=
    ⟨hmask, hlocal, hv⟩
  have hfirst : dosFindFirst env attr name =
      dosFindNext env ⟨driveOf path, o.namePat, attr.toUInt8, 0, o.dircluster⟩ := by
    rw [dosFindNext_inclusive hd, if_neg (show ¬ ((0 : UInt16) = 0xffff) by decide)]
    unfold dosFindFirst
    rw [htrue]
    unfold dosFindfirst
    simp only [if_neg hname, hv, hopen, if_neg (mt labelMask_of_word hmask)]
  have hlen := slots_length v (v.dirStart o.dircluster)
  unfold findAll
  rw [hfirst]
  exact findRest_spec n hd (lt_of_le_of_lt hlen (lt_of_lt_of_le hn (Nat.le_add_right n _)))

/-! ## 4. Two directories -/

/-- All names. -/
def anyName : Bytes :=
  [0x43, 0x3a, backslash] ++ List.replicate 8 questionMark ++ dot :: List.replicate 3 questionMark

/-- A FAT32 volume C: whose root starts at cluster 2 and has these slots. -/
def rootWith (slots : List Dirent) : Env where
  defaultDrive := 2
  truename := fun _ => .file anyName
  volume := fun drive => if drive = 2 then
    some ⟨true, 2, 64, fun c => if c = 2 then slots else []⟩ else none
  upper := id
  time := 0
  date := 0x21
  remFindfirst := fun _ _ => .error DE_NFILES
  remFindnext := fun _ => .error DE_NFILES

/-- What is opened for all names. -/
def rootOpened : Opened := ⟨2, Vector.replicate 11 questionMark, Dirent.zero⟩

theorem rootWith_opened (slots : List Dirent) :
    splitPath ⟨true, 2, 64, fun c => if c = 2 then slots else []⟩ anyName = some rootOpened := by
  rfl

/-- With the mask 0 the hidden file is left out. -/
theorem two_files_found :
    findAll (rootWith [aTxt, bTxt, Dirent.zero]) 65536 0 anyName = ([aTxt], some DE_NFILES) := by
  have hall := @find_all (rootWith [aTxt, bTxt, Dirent.zero]) _ _ 0 anyName _ rfl (by decide)
    (by decide) rfl (rootWith_opened _) (by decide) 65536 (by decide)
  rw [hall]
  decide +kernel

/-- **A directory of 65536 files**: the last of them is never found. -/
theorem last_slot_missed :
    (findAll (rootWith (List.replicate 65536 aTxt)) 65536 0 anyName).1.length = 65535 ∧
      ((used ((List.replicate 65536 aTxt).map swapDeleted)).filter
        (wanted rootOpened.namePat 0)).length = 65536 := by
  have hswap : swapDeleted aTxt = aTxt := by decide
  have hfirst : (aTxt.name.first != 0) = true := by decide
  have hwanted : wanted rootOpened.namePat 0 aTxt = true := by decide +kernel
  have hcount : ∀ k : Nat, ((used ((List.replicate k aTxt).map swapDeleted)).filter
      (wanted rootOpened.namePat 0)).length = k := by
    intro k
    unfold used
    rw [List.map_replicate, hswap, List.takeWhile_replicate, if_pos hfirst, List.filter_replicate,
      if_pos hwanted, List.length_replicate]
  have hall := @find_all (rootWith (List.replicate 65536 aTxt)) _ _ 0 anyName _ rfl (by decide)
    (by decide) rfl (rootWith_opened _) (by decide) 65536 (by decide)
  refine ⟨?_, hcount 65536⟩
  rw [hall]
  have hslots : Volume.slots ⟨true, 2, 64, fun c => if c = 2 then List.replicate 65536 aTxt else []⟩
      2 = (List.replicate 65535 aTxt).map swapDeleted := by
    unfold Volume.slots
    dsimp only
    rw [if_pos rfl, List.take_replicate]
    rfl
  exact (congrArg (fun l => ((used l).filter (wanted rootOpened.namePat 0)).length) hslots).trans
    (hcount 65535)

end SdcBoot.Dir
