/-
# Removing a directory

`dos_rmdir` looks whether the directory is empty before it removes it: behind `.` and `..` there may
only be deleted entries and parts of long names.  The loop that looks stops at the first `dir_read`
that does not return 1.  That is an unused slot or the end of the chain, or else a read that failed,
and the loop does not ask which.

`rmdir_only_empty` gives the exact condition under which only empty directories are removed: that no
read of the loop fails in front of an entry that it has not seen yet (`cutShort`), or that what
follows the loop fails as well.
-/
import SdcBoot.Dir.Enumerate
import SdcBoot.Dir.Faulty

namespace SdcBoot.Dir

open Lib

/-! ## 1. `dos_rmdir` -/

/-- What is in `f_dir` after `dir_read`: the entry, or on an error what was there before. -/
def readOver (cluster : UInt32) (entry : Nat) (old : Dirent) : DirProg Dirent := do
  let answer ← dirRead cluster entry
  match answer with
  | .error _ => pure old
  | .entry e => pure e

/-- `dos_rmdir` up to the loop: an error, or the directory that was opened. -/
def rmdirChecks (sys : Sys) (v : Volume) (path : Bytes) : DirProg (Except Int Opened) :=
  if path = sys.currentPath (driveOf path) then pure (.error DE_RMVCUDIR)
  else if path.drop 2 = [backslash] then pure (.error DE_ACCESS)
  else do
    let opened ← openDir v path false
    match opened with
    | none => pure (.error DE_PATHNOTFND)
    | some d =>
      if d.dir.attrib &&& ~~~(D_DIR ||| D_ARCHIVE) ≠ 0 then pure (.error DE_ACCESS)
      else do
        let self ← readOver d.dircluster 0 d.dir
        if self.name.first ≠ dot ∨ self.name.second ≠ blank then pure (.error DE_ACCESS)
        else do
          let parent ← readOver d.dircluster 1 self
          if parent.name.first ≠ dot ∨ parent.name.second ≠ dot then pure (.error DE_ACCESS)
          else pure (.ok d)

/-- An entry that keeps a directory from being removed. -/
def blocksRemoval (e : Dirent) : Bool := e.name.first != DELETED && e.attrib != D_LFN

/-- `delete_dir_entry`. -/
def deleteEntry (cluster : UInt32) (entry : Nat) : DirProg Int := do
  let r ← removeLongNames cluster entry
  match r with
  | none => pure DE_ACCESS
  | some e => do
    let _ ← Prog.perform (.wipeOut e)
    let ok ← dirWrite cluster entry { e with name := e.name.setFirst DELETED }
    pure (if ok then 0 else DE_ACCESS)

/-- The end of `dos_rmdir`: the entry of the directory is looked up and deleted. -/
def removeFound (v : Volume) (path : Bytes) : DirProg Int := do
  let l ← lookUp v path D_ALL
  match l with
  | .noPath => pure DE_PATHNOTFND
  | .notFound _ => pure DE_PATHNOTFND
  | .found o entry _ => deleteEntry o.dircluster entry

/-- `dos_rmdir`. -/
def rmdirOn (sys : Sys) (v : Volume) (path : Bytes) : DirProg Int := do
  let checked ← rmdirChecks sys v path
  match checked with
  | .error rc => pure rc
  | .ok d => do
    let left ← searchFrom blocksRemoval d.dircluster 2
    match left with
    | some _ => pure DE_ACCESS
    | none => removeFound v path

/-! ## 2. The loop -/

/-- A read of the loop fails in front of a live entry: `reads` are the fates of its reads, and the
slots are those from number `entry` on. -/
def cutShort : List ReadFate → Nat → List Dirent → Bool
  | _, _, [] => false
  | reads, entry, e :: rest =>
    if entry ≥ 65535 ∨ reads.headD .good ≠ .good then (used (e :: rest)).any blocksRemoval
    else if e.name.first = 0 then false
    else if blocksRemoval e then false
    else cutShort reads.tail (entry + 1) rest

/-- **The loop finds nothing although there is something** exactly when it is cut short. -/
theorem searchSlots_cut (cluster : UInt32) (n entry : Nat) (s : Drive) (hentry : entry ≤ 65535)
    (hn : 65536 ≤ n + entry) :
    (searchSlots blocksRemoval cluster n entry).Meets failing s fun r _ =>
      (r = none ∧ (used ((s.vol.allSlots cluster).drop entry)).any blocksRemoval = true) ↔
        cutShort s.reads entry ((s.vol.allSlots cluster).drop entry) = true := by
  induction n generalizing entry s with
  | zero => omega
  | succ n ih =>
    have hrun := exec_dirRead cluster entry s
    cases hslot : (s.vol.allSlots cluster)[entry]? with
    | none =>
      have hread : readSlot cluster entry s = (.error DE_SEEK, s) := by
        unfold readSlot
        rw [hslot]
        split <;> rfl
      rw [hread] at hrun
      rw [List.drop_eq_nil_of_le (List.getElem?_eq_none_iff.mp hslot)]
      refine Prog.Meets.bind ⟨_, _, hrun, Prog.Meets.pure ?_⟩
      simp [used, cutShort]
    | some e =>
      obtain ⟨hlt, he⟩ := List.getElem?_eq_some_iff.mp hslot
      rw [List.drop_eq_getElem_cons hlt, he]
      by_cases hfails : entry ≥ 65535 ∨ s.reads.headD .good ≠ .good
      · have hread : ∃ rc s', readSlot cluster entry s = (.error rc, s') := by
          unfold readSlot
          rw [hslot]
          split
          · exact ⟨_, _, rfl⟩
          · rename_i hfew
            cases hfate : s.reads.headD .good with
            | good => exact absurd hfate (hfails.resolve_left hfew)
            | seek => exact ⟨_, _, rfl⟩
            | invalid => exact ⟨_, _, rfl⟩
        obtain ⟨rc, s', hread⟩ := hread
        rw [hread] at hrun
        refine Prog.Meets.bind ⟨_, _, hrun, Prog.Meets.pure ?_⟩
        rw [cutShort, if_pos hfails]
        exact and_iff_right rfl
      · obtain ⟨hfew, hgood⟩ := not_or.mp hfails
        have hread : readSlot cluster entry s =
            (.entry e, { s with reads := s.reads.tail }) := by
          unfold readSlot
          rw [if_neg hfew, hslot, not_not.mp hgood]
          rfl
        rw [hread] at hrun
        rw [cutShort, if_neg hfails]
        refine Prog.Meets.bind ⟨_, _, hrun, ?_⟩
        dsimp only
        by_cases hend : e.name.first = 0
        · rw [if_pos hend, if_pos hend]
          refine Prog.Meets.pure ?_
          simp [used, hend]
        · rw [if_neg hend, if_neg hend]
          by_cases hstays : blocksRemoval e = true
          · rw [if_pos hstays, if_pos hstays]
            refine Prog.Meets.pure ?_
            simp
          · rw [if_neg hstays, if_neg hstays]
            refine (ih (entry + 1) { s with reads := s.reads.tail } (by omega) (by omega)).mono ?_
            intro r _ hr
            rw [← hr]
            simp [used, hend, hstays]

/-! ## 3. Removing only what is empty -/

/-- Only an empty directory is removed: where the call returns SUCCESS, each entry behind the first
two, up to the end mark or the end of the chain, is deleted or part of a long name. -/
def RemovesOnlyEmpty (sys : Sys) (path : Bytes) (s : Drive) : Prop :=
  ∀ s' d s1, (rmdirOn sys s.vol path).exec failing s = some (0, s') →
    (openDir s.vol path false).exec failing s = some (some d, s1) →
    (used ((s.vol.allSlots d.dircluster).drop 2)).any blocksRemoval = false

/-- The defect: a read of the loop fails in front of an entry that keeps the directory from being
removed, and its own entry is looked up and deleted without an error afterwards. -/
def Overlooked (sys : Sys) (path : Bytes) (s : Drive) : Prop :=
  ∃ d s1 s2 s3, (rmdirChecks sys s.vol path).exec failing s = some (.ok d, s1) ∧
    cutShort s1.reads 2 ((s.vol.allSlots d.dircluster).drop 2) = true ∧
    (searchFrom blocksRemoval d.dircluster 2).exec failing s1 = some (none, s2) ∧
    (removeFound s.vol path).exec failing s2 = some (0, s3)

theorem readOver_reads (cluster : UInt32) (entry : Nat) (old : Dirent) :
    Reads (readOver cluster entry old) := by
  refine (dirRead_reads cluster entry).bind fun answer => ?_
  cases answer <;> exact Reads.pure _

/-- The checks change nothing, and go on with the directory that was opened. -/
theorem rmdirChecks_spec (sys : Sys) (path : Bytes) (s : Drive) :
    (rmdirChecks sys s.vol path).Meets failing s fun r s' => s'.vol = s.vol ∧
      r ≠ .error 0 ∧
      ∀ d, r = .ok d → ∃ s1, (openDir s.vol path false).exec failing s = some (some d, s1) := by
  have hcur : (.error DE_RMVCUDIR : Except Int Opened) ≠ .error 0 :=
    fun h => nomatch Except.error.inj h
  have hpath : (.error DE_PATHNOTFND : Except Int Opened) ≠ .error 0 :=
    fun h => nomatch Except.error.inj h
  have haccess : (.error DE_ACCESS : Except Int Opened) ≠ .error 0 :=
    fun h => nomatch Except.error.inj h
  unfold rmdirChecks
  split
  · exact Prog.Meets.pure ⟨rfl, hcur, nofun⟩
  split
  · exact Prog.Meets.pure ⟨rfl, haccess, nofun⟩
  obtain ⟨opened, s1, hopen, hvol1, -⟩ := openDir_reads s.vol path false s
  refine Prog.Meets.bind ⟨_, _, hopen, ?_⟩
  cases opened with
  | none => exact Prog.Meets.pure ⟨hvol1, hpath, nofun⟩
  | some d =>
    dsimp only
    split
    · exact Prog.Meets.pure ⟨hvol1, haccess, nofun⟩
    refine Prog.Meets.bind ((readOver_reads d.dircluster 0 d.dir s1).mono fun self s2 h2 => ?_)
    split
    · exact Prog.Meets.pure ⟨h2.1.trans hvol1, haccess, nofun⟩
    refine Prog.Meets.bind ((readOver_reads d.dircluster 1 self s2).mono fun parent s3 h3 => ?_)
    have hvol3 := h3.1.trans (h2.1.trans hvol1)
    split
    · exact Prog.Meets.pure ⟨hvol3, haccess, nofun⟩
    · refine Prog.Meets.pure ⟨hvol3, nofun, fun d' h => ?_⟩
      cases h
      exact ⟨s1, hopen⟩

/-- **Only empty directories are removed, unless a read fails at the wrong place.**  On every
volume and whichever reads and writes fail, a directory that is removed has no entries left if and
only if it is not one whose entries were overlooked. -/
theorem rmdir_only_empty (sys : Sys) (path : Bytes) (s : Drive) :
    RemovesOnlyEmpty sys path s ↔ ¬ Overlooked sys path s := by
  obtain ⟨checked, s1, hchecks, hvol, herror, hopened⟩ := rmdirChecks_spec sys path s
  constructor
  · rintro honly ⟨d, s1', s2, s3, hchecks', hcut, hloop, hrest⟩
    obtain ⟨rfl, rfl⟩ := Prog.exec_unique hchecks hchecks'
    obtain ⟨s0, hopen⟩ := hopened d rfl
    obtain ⟨left', s2', hloop', hiff⟩ :=
      searchSlots_cut d.dircluster 65534 2 s1 (by decide) (by decide)
    obtain ⟨rfl, rfl⟩ := Prog.exec_unique hloop hloop'
    rw [hvol] at hiff
    obtain ⟨-, hany⟩ := hiff.mpr hcut
    have hrun : (rmdirOn sys s.vol path).exec failing s = some (0, s3) := by
      unfold rmdirOn
      rw [Prog.exec_bind, hchecks, Option.bind_some, Prog.exec_bind, hloop, Option.bind_some]
      exact hrest
    rw [honly s3 d s0 hrun hopen] at hany
    cases hany
  · intro hnot s' d s0 hrun hopen
    unfold rmdirOn at hrun
    rw [Prog.exec_bind, hchecks, Option.bind_some] at hrun
    cases checked with
    | error rc =>
      cases hrun
      exact absurd rfl herror
    | ok d' =>
      obtain ⟨s0', hopen'⟩ := hopened d' rfl
      obtain ⟨hd, -⟩ := Prog.exec_unique hopen hopen'
      cases hd
      obtain ⟨left, s2, hloop, hiff⟩ :=
        searchSlots_cut d.dircluster 65534 2 s1 (by decide) (by decide)
      have hloop' : (searchFrom blocksRemoval d.dircluster 2).exec failing s1 =
        some (left, s2) := hloop
      dsimp only at hrun
      rw [Prog.exec_bind, hloop', Option.bind_some] at hrun
      rw [hvol] at hiff
      cases left with
      | some e =>
        obtain ⟨h, -⟩ := Prod.mk.inj (Option.some.inj hrun)
        cases h
      | none =>
        by_contra hany
        rw [Bool.not_eq_false] at hany
        exact hnot ⟨d, s1, s2, s', hchecks, hiff.mp ⟨rfl, hany⟩, hloop', hrun⟩

/-- A FAT16 volume with the directory `D`, in which there is `A.TXT` behind 14 deleted entries: the
first slot of the second sector. -/
def oneDirectory : Volume where
  fat32 := false
  xrootclst := 0
  perCluster := 64
  dir := fun c =>
    if c = 0 then [⟨blankName.setFirst 0x44, D_DIR, 0, 0x21, 2, 0⟩, Dirent.zero]
    else if c = 2 then
      [⟨dotName, D_DIR, 0, 0x21, 2, 0⟩, ⟨dotdotName, D_DIR, 0, 0x21, 0, 0⟩] ++
        List.replicate 14 ⟨blankName.setFirst 0xe5, 0, 0, 0x21, 0, 0⟩ ++ [aTxt, Dirent.zero]
    else []

/-- The second sector of the directory cannot be read, when the loop gets there. -/
def badSector : Drive where
  vol := oneDirectory
  reads := List.replicate 17 .good ++ [.invalid]
  writes := []
  growths := []
  flushes := []
  written := 0

/-- `C:\D` -/
def directoryD : Bytes := [0x43, 0x3a, backslash, 0x44]

/-- **The directory is removed with the file in it.** -/
theorem file_removed_with_directory : ¬ RemovesOnlyEmpty plainSys directoryD badSector := by
  intro honly
  have hrun : ((rmdirOn plainSys oneDirectory directoryD).exec failing badSector).map
      (fun r => r.1) = some 0 := by decide +kernel
  have hopen : ((openDir oneDirectory directoryD false).exec failing badSector).map
      (fun r => r.1.map fun d => d.dircluster) = some (some 2) := by decide +kernel
  obtain ⟨⟨rc, s'⟩, hrun', rfl⟩ := Option.map_eq_some_iff.mp hrun
  obtain ⟨⟨d, s1⟩, hopen', hd⟩ := Option.map_eq_some_iff.mp hopen
  obtain ⟨d, rfl, hcluster⟩ := Option.map_eq_some_iff.mp hd
  have hempty := honly s' d s1 hrun' hopen'
  rw [hcluster] at hempty
  cases hempty

end SdcBoot.Dir
