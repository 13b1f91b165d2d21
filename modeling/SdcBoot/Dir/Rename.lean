/-
# Renaming on a drive that fails

`dos_rename` within a directory writes the entry once, in place, so whatever fails the file is there
under one of its names.  Between two directories it deletes the old entry first and writes the new
one afterwards.  If the deletion gets to the disk and the second write does not, or if the deletion
is reported as failed although it was written, no entry of the file is left.

`rename_keeps_file` gives the exact condition.  It covers the second promise as well, that an error
before the first `dir_write` leaves the volume as it was: the directory of the new name may have
been extended by then.
-/
import SdcBoot.Dir.Remove

namespace SdcBoot.Dir

open Lib List Function Option

/-! ## 1. `dos_rename` -/

/-- `find_free` from slot `entry` on: whether there is a slot, and where it stops. -/
def findFreeSlot (cluster : UInt32) : Nat → Nat → DirProg (Bool × Nat)
  | 0, entry => pure (false, entry)
  | n + 1, entry => do
    let answer ← dirRead cluster entry
    match answer with
    | .error _ => pure (false, entry)
    | .entry e =>
      if e.name.first = 0 ∨ e.name.first = DELETED then pure (true, entry)
      else findFreeSlot cluster n (entry + 1)

/-- `extend_dir` from slot `entry` on: the error, or the slot. -/
def extendFor (cluster : UInt32) (entry : Nat) : DirProg (Except Int Nat) := do
  let rc ← Prog.perform (.extend cluster)
  if rc ≠ 0 then pure (.error rc)
  else do
    let free ← findFreeSlot cluster (65536 - entry) entry
    if free.1 then do
      let flushed ← Prog.perform .flush
      pure (if flushed then .ok free.2 else .error DE_ACCESS)
    else pure (.error DE_HNDLDSKFULL)

/-- `alloc_find_free`.  What `split_path` returns is not looked at: `none` is a null pointer that is
used. -/
def allocSlot (v : Volume) (path : Bytes) : DirProg (Option (Except Int (Opened × Nat))) := do
  let opened ← openParent v path
  match opened with
  | none => pure none
  | some o => do
    let free ← findFreeSlot o.dircluster 65536 0
    if free.1 then pure (some (.ok (o, free.2)))
    else if o.dircluster = 0 then pure (some (.error DE_TOOMANY))
    else do
      let slot ← extendFor o.dircluster free.2
      pure (some (slot.map fun entry => (o, entry)))

/-- What `dos_rename` is to do: stop, change the name in place, or move the entry. -/
inductive Plan where
  | stop (rc : Int)
  | within (cluster : UInt32) (entry : Nat) (name : Name)
  | across (cluster : UInt32) (entry : Nat)

/-- `dos_rename` up to the first change. -/
def renameChecks (sys : Sys) (v : Volume) (path1 path2 : Bytes) (attrib : UInt8) : DirProg Plan :=
  if path1 = sys.currentPath (driveOf path1) then pure (.stop DE_RMVCUDIR)
  else do
    let l1 ← lookUp v path1 attrib
    match l1 with
    | .noPath => pure (.stop DE_PATHNOTFND)
    | .notFound _ => pure (.stop DE_FILENOTFND)
    | .found o1 entry1 e => do
      let l2 ← lookUp v path2 attrib
      match l2 with
      | .noPath => pure (.stop DE_PATHNOTFND)
      | .found _ _ _ => pure (.stop DE_ACCESS)
      | .notFound o2 =>
        if o1.dircluster = o2.dircluster then pure (.within o1.dircluster entry1 o2.namePat)
        else if e.attrib &&& D_DIR ≠ 0 then pure (.stop DE_ACCESS)
        else pure (.across o1.dircluster entry1)

/-- `dir_write` at the end of a function. -/
def writeLast (cluster : UInt32) (entry : Nat) (e : Dirent) : DirProg Int := do
  let ok ← dirWrite cluster entry e
  pure (if ok then 0 else DE_ACCESS)

/-- The entry gets another name in place. -/
def renameWithin (cluster : UInt32) (entry : Nat) (name : Name) : DirProg Int := do
  let r ← removeLongNames cluster entry
  match r with
  | none => pure DE_ACCESS
  | some e => writeLast cluster entry { e with name := name }

/-- The entry is deleted, and then written to its new slot. -/
def moveEntry (cluster : UInt32) (entry : Nat) (o : Opened) (slot : Nat) : DirProg Int := do
  let r ← removeLongNames cluster entry
  match r with
  | none => pure DE_ACCESS
  | some e => do
    let ok ← dirWrite cluster entry { e with name := e.name.setFirst DELETED }
    if ok then writeLast o.dircluster slot { e with name := o.namePat } else pure DE_ACCESS

def renameAcross (v : Volume) (path2 : Bytes) (cluster : UInt32) (entry : Nat) :
    DirProg (Option Int) := do
  let slot ← allocSlot v path2
  match slot with
  | none => pure none
  | some (.error rc) => pure (some rc)
  | some (.ok (o, slot)) => do
    let rc ← moveEntry cluster entry o slot
    pure (some rc)

/-- **`dos_rename`**; `none` is a null pointer that is used. -/
def renameOn (sys : Sys) (v : Volume) (path1 path2 : Bytes) (attrib : UInt8) :
    DirProg (Option Int) := do
  let plan ← renameChecks sys v path1 path2 attrib
  match plan with
  | .stop rc => pure (some rc)
  | .within cluster entry name => do
    let rc ← renameWithin cluster entry name
    pure (some rc)
  | .across cluster entry => renameAcross v path2 cluster entry

/-! ## 2. The slots -/

/-- Neither unused nor deleted. -/
def Dirent.Live (e : Dirent) : Prop := e.name.first ≠ 0 ∧ e.name.first ≠ DELETED

theorem allSlots_dirWrite (v : Volume) (cluster c : UInt32) (entry j : Nat) (e : Dirent) :
    ((v.dirWrite cluster entry e).allSlots c)[j]? =
      if c = cluster ∧ j = entry then ((v.allSlots cluster)[entry]?).map fun _ => e
      else (v.allSlots c)[j]? := by
  unfold Volume.allSlots Volume.dirWrite
  dsimp only
  by_cases hc : c = cluster
  · subst hc
    rw [update_self, getElem?_map, getElem?_set]
    by_cases hj : j = entry
    · subst hj
      rw [if_pos rfl, getElem?_map]
      by_cases hlt : j < (v.dir c).length
      · rw [if_pos hlt, if_pos (And.intro rfl rfl), getElem?_eq_getElem hlt]
        simp [swapDeleted_swapDeleted]
      · rw [if_neg hlt, if_pos (And.intro rfl rfl),
          List.getElem?_eq_none_iff.mpr (Nat.le_of_not_lt hlt)]
        rfl
    · rw [if_neg (Ne.symm hj), if_neg fun h => hj h.2, getElem?_map]
  · rw [update_of_ne hc, if_neg fun h => hc h.1]

theorem allSlots_length (v : Volume) (cluster c : UInt32) (entry : Nat) (e : Dirent) :
    ((v.dirWrite cluster entry e).allSlots c).length = (v.allSlots c).length := by
  unfold Volume.allSlots Volume.dirWrite
  dsimp only
  by_cases hc : c = cluster
  · subst hc
    rw [update_self, length_map, length_map, length_set]
  · rw [update_of_ne hc]

variable {cluster : UInt32} {entry : Nat} {e : Dirent} {s s' s'' : Drive} {v : Volume}

/-- What a write with its fate leaves. -/
theorem dirWrite_meets {Q : Bool → Drive → Prop}
    (hdone : ∀ s', s.writes.headD .good ≠ .lost → s'.vol = s.vol.dirWrite cluster entry e →
      s'.writes = s.writes.tail → s'.written = s.written + 1 →
      Q (s.writes.headD .good == .good) s')
    (hlost : ∀ s', s.writes.headD .good = .lost → s'.vol = s.vol → s'.written = s.written + 1 →
      Q false s') :
    (dirWrite cluster entry e).Meets failing s Q := by
  refine ⟨(writeSlot cluster entry e s).1, (writeSlot cluster entry e s).2, exec_dirWrite .., ?_⟩
  unfold writeSlot
  cases hfate : s.writes.headD .good with
  | good =>
    have h := hdone
      { s with
        writes := s.writes.tail, written := s.written + 1, vol := s.vol.dirWrite cluster entry e }
      (by rw [hfate]; decide) rfl rfl rfl
    rw [hfate] at h
    exact h
  | lost => exact hlost _ hfate rfl rfl
  | kept =>
    have h := hdone
      { s with
        writes := s.writes.tail, written := s.written + 1, vol := s.vol.dirWrite cluster entry e }
      (by rw [hfate]; decide) rfl rfl rfl
    rw [hfate] at h
    exact h

/-- What removing the long name in front of slot `entry` of a directory leaves. -/
structure Shortened (cluster : UInt32) (entry : Nat) (s s' : Drive) : Prop where
  kept : ∀ (c : UInt32) (j : Nat), (c ≠ cluster ∨ entry ≤ j) →
    (s'.vol.allSlots c)[j]? = (s.vol.allSlots c)[j]?
  erased : ∀ (c : UInt32) (j : Nat) (y : Dirent), (s'.vol.allSlots c)[j]? = some y →
    (s.vol.allSlots c)[j]? = some y ∨ ¬ y.Live
  length : ∀ c : UInt32, (s'.vol.allSlots c).length = (s.vol.allSlots c).length
  counts : s.written ≤ s'.written
  first : s'.written = s.written → s'.vol = s.vol

theorem Shortened.of_same (h : s.Same s') : Shortened cluster entry s s' :=
  ⟨fun _ _ _ => by rw [h.vol], fun _ _ _ hy => .inl (h.vol ▸ hy),
    fun _ => by rw [h.vol], le_of_eq h.written.symm, fun _ => h.vol⟩

theorem Shortened.trans (h : Shortened cluster entry s s') (h' : Shortened cluster entry s' s'') :
    Shortened cluster entry s s'' := by
  refine ⟨fun c j hcj => (h'.kept c j hcj).trans (h.kept c j hcj), fun c j y hy => ?_,
    fun c => (h'.length c).trans (h.length c), le_trans h.counts h'.counts, fun heq => ?_⟩
  · rcases h'.erased c j y hy with hold | hdead
    · exact h.erased c j y hold
    · exact .inr hdead
  · have h1 := h.counts
    have h2 := h'.counts
    rw [h'.first (by omega), h.first (by omega)]

theorem not_live_deleted (e : Dirent) : ¬ Dirent.Live { e with name := e.name.setFirst DELETED } :=
  fun h => h.2 (Name.first_setFirst ..)

theorem removeLong_spec (cluster : UInt32) (bound entry : Nat) (hbound : entry ≤ bound)
    (s : Drive) :
    (removeLong cluster entry).Meets failing s fun _ s' => Shortened cluster bound s s' := by
  induction entry generalizing s with
  | zero => exact Prog.Meets.pure (Shortened.of_same (Drive.Same.refl s))
  | succ entry ih =>
    refine Prog.Meets.bind (dirRead_meets (fun rc s1 h1 => ?_) fun e s1 _ h1 => ?_)
    · exact Prog.Meets.pure (Shortened.of_same h1)
    dsimp only
    split
    · exact Prog.Meets.pure (Shortened.of_same h1)
    split
    · exact Prog.Meets.pure (Shortened.of_same h1)
    have h01 : Shortened cluster bound s s1 := Shortened.of_same h1
    refine Prog.Meets.bind (dirWrite_meets (fun s2 _ hvol _ hwritten => ?_)
      fun s2 _ hvol hwritten => ?_)
    · have h12 : Shortened cluster bound s1 s2 := by
        refine ⟨fun c j hcj => ?_, fun c j y hy => ?_,
          fun c => by rw [hvol, allSlots_length], by omega, fun h => by omega⟩
        · rw [hvol, allSlots_dirWrite, if_neg]
          rintro ⟨rfl, rfl⟩
          exact hcj.elim (fun h => h rfl) fun h => by omega
        · rw [hvol, allSlots_dirWrite] at hy
          split at hy
          · obtain ⟨x, -, rfl⟩ := Option.map_eq_some_iff.mp hy
            exact .inr (not_live_deleted e)
          · exact .inl hy
      split
      · exact (ih (by omega) s2).mono fun _ s3 h23 => (h01.trans h12).trans h23
      · exact Prog.Meets.pure (h01.trans h12)
    · have h12 : Shortened cluster bound s1 s2 :=
        ⟨fun _ _ _ => by rw [hvol], fun _ _ _ hy => .inl (hvol ▸ hy), fun _ => by rw [hvol],
          by omega, fun _ => hvol⟩
      exact Prog.Meets.pure (h01.trans h12)

/-- **The long name goes, and the entry stays.** -/
theorem removeLongNames_spec (cluster : UInt32) (entry : Nat) (s : Drive) :
    (removeLongNames cluster entry).Meets failing s fun r s' => Shortened cluster entry s s' ∧
      ∀ e, r = some e → (s.vol.allSlots cluster)[entry]? = some e ∧ e.name.first ≠ 0 := by
  refine Prog.Meets.bind ((removeLong_spec cluster entry entry le_rfl s).mono
    fun ok s1 h1 => ?_)
  split
  · refine Prog.Meets.bind (dirRead_meets (fun rc s2 h2 => ?_) fun e s2 he h2 => ?_)
    · exact Prog.Meets.pure ⟨h1.trans (Shortened.of_same h2), nofun⟩
    · dsimp only
      split
      · exact Prog.Meets.pure ⟨h1.trans (Shortened.of_same h2), nofun⟩
      · rename_i hne
        refine Prog.Meets.pure ⟨h1.trans (Shortened.of_same h2), fun e' h => ?_⟩
        cases h
        rw [h1.kept _ _ (.inr le_rfl)] at he
        exact ⟨he, hne⟩
  · exact Prog.Meets.pure ⟨h1, nofun⟩

/-- The name that a path asks for on this volume. -/
def NewName (v : Volume) (path : Bytes) (name : Name) : Prop :=
  ∃ t t' o, (openParent v path).exec failing t = some (some o, t') ∧ t.vol = v ∧ name = o.namePat

theorem findFreeSlot_spec (cluster : UInt32) (n entry : Nat) (s : Drive) :
    (findFreeSlot cluster n entry).Meets failing s fun r s' => s.Same s' ∧
      (r.1 = true → ∃ x : Dirent, (s.vol.allSlots cluster)[r.2]? = some x ∧ ¬ x.Live) := by
  induction n generalizing entry s with
  | zero => exact Prog.Meets.pure ⟨Drive.Same.refl s, nofun⟩
  | succ n ih =>
    refine Prog.Meets.bind (dirRead_meets (fun rc s1 h1 => ?_) fun e s1 he h1 => ?_)
    · exact Prog.Meets.pure ⟨h1, nofun⟩
    dsimp only
    split
    · rename_i hfree
      exact Prog.Meets.pure ⟨h1, fun _ => ⟨e, he, fun hlive => hfree.elim hlive.1 hlive.2⟩⟩
    · refine (ih (entry + 1) s1).mono fun r s2 h2 => ⟨h1.trans h2.1, fun h => ?_⟩
      obtain ⟨x, hx, hdead⟩ := h2.2 h
      exact ⟨x, h1.vol ▸ hx, hdead⟩

/-- A directory may have become longer; `fresh` says that all that is new is unused. -/
structure Longer (s s' : Drive) : Prop where
  kept : ∀ (c : UInt32) (j : Nat) (x : Dirent), (s.vol.allSlots c)[j]? = some x →
    (s'.vol.allSlots c)[j]? = some x
  written : s'.written = s.written

/-- Every entry that is not unused or deleted was there before. -/
def Fresh (s s' : Drive) : Prop :=
  ∀ (c : UInt32) (j : Nat) (y : Dirent), (s'.vol.allSlots c)[j]? = some y →
    (s.vol.allSlots c)[j]? = some y ∨ ¬ y.Live

theorem Longer.of_same (h : s.Same s') : Longer s s' :=
  ⟨fun _ _ _ hx => h.vol.symm ▸ hx, h.written⟩

theorem Fresh.of_same (h : s.Same s') : Fresh s s' :=
  fun _ _ _ hy => .inl (h.vol ▸ hy)

theorem Longer.trans (h : Longer s s') (h' : Longer s' s'') : Longer s s'' :=
  ⟨fun c j x hx => h'.kept c j x (h.kept c j x hx), h'.written.trans h.written⟩

theorem Fresh.trans (h : Fresh s s') (h' : Fresh s' s'') : Fresh s s'' :=
  fun c j y hy => (h' c j y hy).elim (h c j y) Or.inr

variable {j : Nat} {x : Dirent} {s1 : Drive} {r : Option Dirent} {v' : Volume} {path2 : Bytes}

theorem allSlots_append (v : Volume) (cluster c : UInt32) (slots : List Dirent)
    (hx : (v.allSlots c)[j]? = some x) :
    (Volume.allSlots { v with
      dir := update v.dir cluster (v.dir cluster ++ slots) } c)[j]? = some x := by
  unfold Volume.allSlots at *
  dsimp only
  by_cases hc : c = cluster
  · subst hc
    obtain ⟨hlt, -⟩ := List.getElem?_eq_some_iff.mp hx
    rw [update_self, map_append, getElem?_append_left hlt]
    exact hx
  · rw [update_of_ne hc]
    exact hx

theorem growDir_spec (cluster : UInt32) (s : Drive) :
    Longer s (growDir cluster s).2 ∧
      ((growDir cluster s).1 = 0 → Fresh s (growDir cluster s).2) := by
  unfold growDir
  cases s.growths.headD .good with
  | full => exact ⟨⟨fun _ _ _ h => h, rfl⟩, fun _ _ _ _ h => .inl h⟩
  | uncleared slots =>
    exact ⟨⟨fun c _ _ h => allSlots_append s.vol cluster c slots h, rfl⟩,
      fun h => nomatch show DE_ACCESS = 0 from h⟩
  | good =>
    refine ⟨⟨fun c _ _ h => allSlots_append s.vol cluster c _ h, rfl⟩, fun _ c j y hy => ?_⟩
    unfold Volume.allSlots Volume.extendDir at hy
    dsimp only at hy
    by_cases hc : c = cluster
    · subst hc
      rw [update_self, map_append] at hy
      by_cases hlt : j < ((s.vol.dir c).map swapDeleted).length
      · rw [getElem?_append_left hlt] at hy
        exact .inl hy
      · rw [getElem?_append_right (Nat.le_of_not_lt hlt)] at hy
        have hmem := mem_of_getElem? hy
        rw [map_replicate] at hmem
        rw [eq_of_mem_replicate hmem]
        exact .inr fun hlive => hlive.1 (by decide)
    · rw [update_of_ne hc] at hy
      exact .inl hy

theorem extendFor_spec (cluster : UInt32) (entry : Nat) (s : Drive) :
    (extendFor cluster entry).Meets failing s fun r s' => Longer s s' ∧ r ≠ .error 0 ∧
      ∀ j, r = .ok j → Fresh s s' ∧
        ∃ x : Dirent, (s'.vol.allSlots cluster)[j]? = some x ∧ ¬ x.Live := by
  obtain ⟨hlonger, hfresh⟩ := growDir_spec cluster s
  refine Prog.Meets.bind ⟨(growDir cluster s).1, (growDir cluster s).2, Prog.exec_perform .., ?_⟩
  dsimp only
  split
  · rename_i hrc
    exact Prog.Meets.pure ⟨hlonger, (fun h => hrc (Except.error.inj h)), nofun⟩
  rename_i hrc
  refine Prog.Meets.bind ((findFreeSlot_spec cluster _ _ _).mono fun free s2 hm => ?_)
  obtain ⟨h2, hfree⟩ := hm
  have h02 := hlonger.trans (Longer.of_same h2)
  split
  · rename_i hfound
    obtain ⟨x, hx, hdead⟩ := hfree hfound
    refine Prog.Meets.bind ⟨s2.flushes.headD true, { s2 with flushes := s2.flushes.tail },
      Prog.exec_perform .., Prog.Meets.pure ⟨⟨h02.kept, h02.written⟩, ?_, fun j h => ?_⟩⟩
    · split
      · exact nofun
      · exact fun h => nomatch Except.error.inj h
    · split at h
      · cases h
        have hall := (hfresh (not_not.mp hrc)).trans (Fresh.of_same h2)
        exact ⟨fun c j y hy => hall c j y hy, x, h2.vol.symm ▸ hx, hdead⟩
      · cases h
  · exact Prog.Meets.pure ⟨h02, (fun h => nomatch Except.error.inj h),
      nofun⟩

/-- **The search for a slot** keeps every entry. -/
theorem allocSlot_spec (path : Bytes) (s : Drive) :
    (allocSlot s.vol path).Meets failing s fun r s' => Longer s s' ∧ r ≠ some (.error 0) ∧
      ∀ o j, r = some (.ok (o, j)) → Fresh s s' ∧ NewName s.vol path o.namePat ∧
        ∃ x : Dirent, (s'.vol.allSlots o.dircluster)[j]? = some x ∧ ¬ x.Live := by
  obtain ⟨opened, s1, hopen, h1⟩ := openParent_reads s.vol path s
  refine Prog.Meets.bind ⟨_, _, hopen, ?_⟩
  cases opened with
  | none => exact Prog.Meets.pure ⟨Longer.of_same h1, by simp, nofun⟩
  | some o =>
    have hname : NewName s.vol path o.namePat := ⟨s, s1, o, hopen, rfl, rfl⟩
    refine Prog.Meets.bind ((findFreeSlot_spec o.dircluster 65536 0 s1).mono
      fun free s2 hm => ?_)
    obtain ⟨h2, hfree⟩ := hm
    have h02 := h1.trans h2
    split
    · rename_i hfound
      refine Prog.Meets.pure ⟨Longer.of_same h02, by simp, fun o' j h => ?_⟩
      cases h
      obtain ⟨x, hx, hdead⟩ := hfree hfound
      exact ⟨Fresh.of_same h02, hname, x, h2.vol.symm ▸ hx, hdead⟩
    split
    · exact Prog.Meets.pure ⟨Longer.of_same h02, by simp [DE_TOOMANY], nofun⟩
    · refine Prog.Meets.bind ((extendFor_spec o.dircluster free.2 s2).mono
        fun r s3 hm => ?_)
      obtain ⟨hlonger, herror, hok⟩ := hm
      refine Prog.Meets.pure ⟨(Longer.of_same h02).trans hlonger, fun h => ?_, fun o' j h => ?_⟩
      · cases r with
        | error rc => exact herror (by rw [Except.error.inj (some.inj h)])
        | ok entry => cases some.inj h
      · cases r with
        | error rc => cases some.inj h
        | ok entry =>
          obtain ⟨rfl, rfl⟩ := Prod.mk.inj (Except.ok.inj (some.inj h))
          obtain ⟨hfresh, hslot⟩ := hok entry rfl
          exact ⟨(Fresh.of_same h02).trans hfresh, hname, hslot⟩

/-- Looking up changes nothing. -/
theorem lookUp_spec (path : Bytes) (attr : UInt8) (s : Drive) :
    (lookUp s.vol path attr).Meets failing s fun r s' => s.Same s' ∧
      (∀ o i e, r = .found o i e → (s.vol.allSlots o.dircluster)[i]? = some e) ∧
      ∀ o, r = .notFound o → NewName s.vol path o.namePat := by
  obtain ⟨opened, s1, hopen, h1⟩ := openParent_reads s.vol path s
  refine Prog.Meets.bind ⟨_, _, hopen, ?_⟩
  cases opened with
  | none => exact Prog.Meets.pure ⟨h1, nofun, nofun⟩
  | some o =>
    refine Prog.Meets.bind ((searchSlots_spec _ o.dircluster _ 0 s1).mono
      fun found s2 hm => ?_)
    obtain ⟨h2, hfound⟩ := hm
    cases found with
    | none =>
      refine Prog.Meets.pure ⟨h1.trans h2, nofun, fun o' h => ?_⟩
      cases h
      exact ⟨s, s1, o, hopen, rfl, rfl⟩
    | some r =>
      refine Prog.Meets.pure ⟨h1.trans h2, fun o' i e h => ?_, nofun⟩
      cases h
      rw [← h1.vol]
      exact (hfound r.1 r.2 rfl).1

/-- What is found is in its slot. -/
theorem lookUp_found {path : Bytes} {attr : UInt8} {t : Drive} {o : Opened} {i : Nat}
    (h : (lookUp s.vol path attr).exec failing s = some (.found o i e, t)) :
    (s.vol.allSlots o.dircluster)[i]? = some e := by
  obtain ⟨l, t0, hexec, -, hfound, -⟩ := lookUp_spec path attr s
  obtain ⟨rfl, -⟩ := Prog.exec_unique h hexec
  exact hfound o i e rfl

/-- The checks change nothing, and go on with the file that was found. -/
theorem renameChecks_spec (sys : Sys) (path1 path2 : Bytes) (attrib : UInt8) (s : Drive) :
    (renameChecks sys s.vol path1 path2 attrib).Meets failing s fun plan s' => s.Same s' ∧
      (∀ c i name, plan = .within c i name → NewName s.vol path2 name ∧
        ∃ o e s1, (lookUp s.vol path1 attrib).exec failing s = some (.found o i e, s1) ∧
          c = o.dircluster) ∧
      ∀ c i, plan = .across c i →
        ∃ o e s1, (lookUp s.vol path1 attrib).exec failing s = some (.found o i e, s1) ∧
          c = o.dircluster := by
  have hstop : ∀ {rc : Int} {s' : Drive}, s.Same s' →
      (pure (.stop rc) : DirProg Plan).Meets failing s' fun plan s' => s.Same s' ∧
        (∀ c i name, plan = .within c i name → NewName s.vol path2 name ∧
          ∃ o e s1, (lookUp s.vol path1 attrib).exec failing s = some (.found o i e, s1) ∧
            c = o.dircluster) ∧
        ∀ c i, plan = .across c i →
          ∃ o e s1, (lookUp s.vol path1 attrib).exec failing s = some (.found o i e, s1) ∧
            c = o.dircluster :=
    fun h => Prog.Meets.pure ⟨h, nofun, nofun⟩
  unfold renameChecks
  split
  · exact hstop (Drive.Same.refl s)
  obtain ⟨l1, s1, hl1, h1, -⟩ := lookUp_spec path1 attrib s
  refine Prog.Meets.bind ⟨_, _, hl1, ?_⟩
  cases l1 with
  | noPath => exact hstop h1
  | notFound o => exact hstop h1
  | found o1 i e =>
    obtain ⟨l2, s2, hl2, h2, -, hnew⟩ := lookUp_spec path2 attrib s1
    rw [h1.vol] at hl2 hnew
    have h02 := h1.trans h2
    refine Prog.Meets.bind ⟨_, _, hl2, ?_⟩
    cases l2 with
    | noPath => exact hstop h02
    | found o2 j e2 => exact hstop h02
    | notFound o2 =>
      dsimp only
      split
      · refine Prog.Meets.pure ⟨h02, fun c i' name h => ?_, nofun⟩
        cases h
        exact ⟨hnew o2 rfl, o1, e, s1, hl1, rfl⟩
      split
      · exact hstop h02
      · refine Prog.Meets.pure ⟨h02, nofun, fun c i' h => ?_⟩
        cases h
        exact ⟨o1, e, s1, hl1, rfl⟩

/-! ## 3. The last writes -/

/-- The first write to come gets to the disk. -/
def Drive.Stores (s : Drive) : Prop := s.writes.headD .good ≠ .lost

/-- The next write succeeds, and the one after it gets to the disk. -/
def Drive.StoresBoth (s : Drive) : Prop :=
  s.writes.headD .good = .good ∧ s.writes.tail.headD .good ≠ .lost

theorem writeLast_spec (cluster : UInt32) (entry : Nat) (e : Dirent) (s : Drive) :
    (writeLast cluster entry e).Meets failing s fun _ s' => s.written < s'.written ∧
      (s.Stores → s'.vol = s.vol.dirWrite cluster entry e) ∧ (¬ s.Stores → s'.vol = s.vol) := by
  refine Prog.Meets.bind (dirWrite_meets (fun s' hstores hvol _ hwritten => ?_)
    fun s' hlost hvol hwritten => ?_)
  · exact Prog.Meets.pure ⟨by omega, fun _ => hvol, fun h => absurd hstores h⟩
  · exact Prog.Meets.pure ⟨by omega, fun h => absurd hlost h, fun _ => hvol⟩

/-- What the move leaves, when the long name is gone. -/
structure MoveDone (cluster : UInt32) (entry : Nat) (o : Opened) (slot : Nat) (e : Dirent)
    (s s' : Drive) : Prop where
  written : s.written < s'.written
  kept : ¬ s.Stores → s'.vol = s.vol
  moved : s.StoresBoth → s'.vol =
    (s.vol.dirWrite cluster entry { e with name := e.name.setFirst DELETED }).dirWrite o.dircluster
      slot { e with name := o.namePat }
  deleted : s.Stores → ¬ s.StoresBoth →
    s'.vol = s.vol.dirWrite cluster entry { e with name := e.name.setFirst DELETED }

/-- What is left to do of `dos_rename` when the long name is gone. -/
theorem moveEntry_spec (cluster : UInt32) (entry : Nat) (o : Opened) (slot : Nat)
    (hr : (removeLongNames cluster entry).exec failing s = some (r, s1)) :
    (moveEntry cluster entry o slot).Meets failing s fun rc s' =>
      (r = none → rc = DE_ACCESS ∧ s' = s1) ∧
      ∀ e, r = some e → MoveDone cluster entry o slot e s1 s' := by
  refine Prog.Meets.bind ⟨_, _, hr, ?_⟩
  cases r with
  | none => exact Prog.Meets.pure ⟨fun _ => ⟨rfl, rfl⟩, nofun⟩
  | some e =>
    refine Prog.Meets.bind (dirWrite_meets (fun s2 hstores hvol hwrites hwritten => ?_)
      fun s2 hlost hvol hwritten => ?_)
    · split
      · rename_i hgood
        rw [beq_iff_eq] at hgood
        refine (writeLast_spec o.dircluster slot { e with name := o.namePat } s2).mono ?_
        rintro rc s3 ⟨hmore, hdone, hlost⟩
        refine ⟨nofun, fun e' h => ?_⟩
        cases h
        refine ⟨by omega, fun h => absurd hstores h, fun hboth => ?_, fun _ hnot => ?_⟩
        · rw [hdone (by unfold Drive.Stores; rw [hwrites]; exact hboth.2), hvol]
        · rw [hlost, hvol]
          unfold Drive.Stores
          rw [hwrites]
          exact fun h => hnot ⟨hgood, h⟩
      · rename_i hbad
        rw [beq_iff_eq] at hbad
        refine Prog.Meets.pure ⟨fun h => (by cases h), fun e' h => ?_⟩
        cases h
        exact ⟨by omega, fun h => absurd hstores h, fun hboth => absurd hboth.1 hbad,
          fun _ _ => hvol⟩
    · refine Prog.Meets.pure ⟨fun h => (by cases h), fun e' h => ?_⟩
      refine ⟨by omega, fun _ => hvol, fun hboth => ?_, fun h => absurd hlost h⟩
      have hgood := hboth.1
      rw [hlost] at hgood
      cases hgood

theorem renameWithin_spec (cluster : UInt32) (entry : Nat) (name : Name)
    (hr : (removeLongNames cluster entry).exec failing s = some (r, s1)) :
    (renameWithin cluster entry name).Meets failing s fun _ s' =>
      (r = none → s' = s1) ∧
      ∀ e, r = some e → s1.written < s'.written ∧ (¬ s1.Stores → s'.vol = s1.vol) ∧
        (s1.Stores → s'.vol = s1.vol.dirWrite cluster entry { e with name := name }) := by
  refine Prog.Meets.bind ⟨_, _, hr, ?_⟩
  cases r with
  | none => exact Prog.Meets.pure ⟨fun _ => rfl, nofun⟩
  | some e =>
    refine (writeLast_spec cluster entry { e with name := name } s1).mono ?_
    rintro rc s2 ⟨hmore, hdone, hlost⟩
    refine ⟨nofun, fun e' h => ?_⟩
    cases h
    exact ⟨hmore, hlost, hdone⟩

/-! ## 4. Renaming keeps the file -/

/-- The 32 bytes of an entry, its name apart, are in an entry that is not unused or deleted, under
the old or the new name; an entry of another file does not count. -/
def Present (v v' : Volume) (path2 : Bytes) (cluster : UInt32) (entry : Nat) (e : Dirent) : Prop :=
  ∃ c j x, (v'.allSlots c)[j]? = some x ∧ x.Live ∧ { x with name := e.name } = e ∧
    (x.name = e.name ∨ NewName v path2 x.name) ∧
    ((c = cluster ∧ j = entry) ∨ ∀ y, (v.allSlots c)[j]? = some y → ¬ y.Live)

/-- **The promise**: whatever fails, the file that is renamed is there afterwards, and an error
before the first `dir_write` leaves the volume as it was. -/
def NeverLost (sys : Sys) (path1 path2 : Bytes) (attrib : UInt8) (s : Drive) : Prop :=
  ∀ rc s', (renameOn sys s.vol path1 path2 attrib).exec failing s = some (some rc, s') →
    (∀ o i e s1, (lookUp s.vol path1 attrib).exec failing s = some (.found o i e, s1) → e.Live →
      Present s.vol s'.vol path2 o.dircluster i e) ∧
    (rc ≠ 0 → s'.written = s.written → s'.vol = s.vol)

/-- In place, the entry is written, under a name that is none. -/
def LostWithin (sys : Sys) (path1 path2 : Bytes) (attrib : UInt8) (s : Drive) : Prop :=
  ∃ c i name s1 e s2,
    (renameChecks sys s.vol path1 path2 attrib).exec failing s = some (.within c i name, s1) ∧
    (removeLongNames c i).exec failing s1 = some (some e, s2) ∧ e.Live ∧
    s2.Stores ∧ ¬ Dirent.Live { e with name := name }

/-- **The defect**: the deletion of the old entry gets to the disk, and the new entry does not; or
it does, under a name that is none. -/
def LostAcross (sys : Sys) (path1 path2 : Bytes) (attrib : UInt8) (s : Drive) : Prop :=
  ∃ c i s1 o j s2 e s3,
    (renameChecks sys s.vol path1 path2 attrib).exec failing s = some (.across c i, s1) ∧
    (allocSlot s.vol path2).exec failing s1 = some (some (.ok (o, j)), s2) ∧
    (removeLongNames c i).exec failing s2 = some (some e, s3) ∧ e.Live ∧
    s3.Stores ∧ ¬ (s3.StoresBoth ∧ Dirent.Live { e with name := o.namePat })

/-- The directory of the new name is changed, and then there is an error. -/
def Strayed (sys : Sys) (path1 path2 : Bytes) (attrib : UInt8) (s : Drive) : Prop :=
  ∃ c i s1 r s2,
    (renameChecks sys s.vol path1 path2 attrib).exec failing s = some (.across c i, s1) ∧
    (allocSlot s.vol path2).exec failing s1 = some (some r, s2) ∧ s2.vol ≠ s.vol ∧
    ∀ o j, r = .ok (o, j) → ∃ s3, (removeLongNames c i).exec failing s2 = some (none, s3) ∧
      s3.written = s2.written

/-- Nothing is present where every entry left was there before, in another slot. -/
theorem not_present
    (h : ∀ (c : UInt32) (j : Nat) (x : Dirent), (v'.allSlots c)[j]? = some x → x.Live →
      (v.allSlots c)[j]? = some x ∧ ¬ (c = cluster ∧ j = entry)) :
    ¬ Present v v' path2 cluster entry e := by
  rintro ⟨c, j, x, hx, hlive, -, -, hown | hfree⟩
  · exact (h c j x hx hlive).2 hown
  · exact hfree x (h c j x hx hlive).1 hlive

/-- The entry in its old slot. -/
theorem present_own (hslot : (v'.allSlots cluster)[entry]? = some e)
    (hlive : e.Live) : Present v v' path2 cluster entry e :=
  ⟨cluster, entry, e, hslot, hlive, rfl, .inl rfl, .inl ⟨rfl, rfl⟩⟩

theorem live_dirWrite {c : UInt32} (he : ¬ e.Live)
    (hx : ((v.dirWrite cluster entry e).allSlots c)[j]? = some x) (hlive : x.Live) :
    (v.allSlots c)[j]? = some x ∧ ¬ (c = cluster ∧ j = entry) := by
  rw [allSlots_dirWrite] at hx
  split at hx
  · obtain ⟨y, -, rfl⟩ := Option.map_eq_some_iff.mp hx
    exact absurd hlive he
  · rename_i hne
    exact ⟨hx, hne⟩

theorem slot_written (e : Dirent) (hlt : entry < (v.allSlots cluster).length) :
    ((v.dirWrite cluster entry e).allSlots cluster)[entry]? = some e := by
  rw [allSlots_dirWrite, if_pos ⟨rfl, rfl⟩, getElem?_eq_getElem hlt]
  rfl

section

variable {sys : Sys} {path1 path2 : Bytes} {attrib : UInt8} {s s1 : Drive}

variable {i : Nat} {c : UInt32} {name : Name} {rc : Int} {s2 s' : Drive}

variable {o : Opened}

/-- The file of a plan is the one that is found. -/
theorem plan_file {o' : Opened} {i' : Nat} {e' x : Dirent} {t t' : Drive}
    (h : (lookUp s.vol path1 attrib).exec failing s = some (.found o i e, t))
    (h' : (lookUp s.vol path1 attrib).exec failing s = some (.found o' i' e', t'))
    (hslot : (s.vol.allSlots o.dircluster)[i]? = some x) : o' = o ∧ i' = i ∧ e' = x := by
  obtain ⟨hl, -⟩ := Prog.exec_unique h h'
  cases hl
  exact ⟨rfl, rfl, some.inj ((lookUp_found h).symm.trans hslot)⟩

theorem renameOn_within (hplan : (renameChecks sys s.vol path1 path2 attrib).exec failing s =
      some (.within c i name, s1))
    (h : (renameWithin c i name).exec failing s1 = some (rc, s')) :
    (renameOn sys s.vol path1 path2 attrib).exec failing s = some (some rc, s') := by
  unfold renameOn
  rw [Prog.exec_bind, hplan, bind_some]
  rw [Prog.exec_bind, h]
  rfl

theorem renameOn_across {rc : Option Int}
    (hplan : (renameChecks sys s.vol path1 path2 attrib).exec failing s = some (.across c i, s1))
    (h : (renameAcross s.vol path2 c i).exec failing s1 = some (rc, s')) :
    (renameOn sys s.vol path1 path2 attrib).exec failing s = some (rc, s') := by
  unfold renameOn
  rw [Prog.exec_bind, hplan, bind_some]
  exact h

theorem renameAcross_error
    (hslot : (allocSlot v path2).exec failing s1 = some (some (.error rc), s2)) :
    (renameAcross v path2 c i).exec failing s1 = some (some rc, s2) := by
  unfold renameAcross
  rw [Prog.exec_bind, hslot]
  rfl

theorem renameAcross_ok {j : Nat}
    (hslot : (allocSlot v path2).exec failing s1 = some (some (.ok (o, j)), s2))
    (h : (moveEntry c i o j).exec failing s2 = some (rc, s')) :
    (renameAcross v path2 c i).exec failing s1 = some (some rc, s') := by
  unfold renameAcross
  rw [Prog.exec_bind, hslot, bind_some]
  rw [Prog.exec_bind, h]
  rfl

/-- What a plan is about: the file that was found. -/
theorem within_file (hplan : (renameChecks sys s.vol path1 path2 attrib).exec failing s =
      some (.within c i name, s1)) :
    s.Same s1 ∧ NewName s.vol path2 name ∧ ∃ o e t,
      (lookUp s.vol path1 attrib).exec failing s = some (.found o i e, t) ∧ c = o.dircluster := by
  obtain ⟨plan, s1', hplan', h1, hwithin, -⟩ := renameChecks_spec sys path1 path2 attrib s
  obtain ⟨rfl, rfl⟩ := Prog.exec_unique hplan hplan'
  exact ⟨h1, hwithin c i name rfl⟩

theorem across_file
    (hplan : (renameChecks sys s.vol path1 path2 attrib).exec failing s = some (.across c i, s1)) :
    s.Same s1 ∧ ∃ o e t,
      (lookUp s.vol path1 attrib).exec failing s = some (.found o i e, t) ∧ c = o.dircluster := by
  obtain ⟨plan, s1', hplan', h1, -, hacross⟩ := renameChecks_spec sys path1 path2 attrib s
  obtain ⟨rfl, rfl⟩ := Prog.exec_unique hplan hplan'
  exact ⟨h1, hacross c i rfl⟩

/-- What the search for a slot leaves of the volume of the call. -/
theorem allocSlot_at (h1 : s.Same s1) {r : Option (Except Int (Opened × Nat))}
    (halloc : (allocSlot s.vol path2).exec failing s1 = some (r, s2)) :
    Longer s s2 ∧ r ≠ some (.error 0) ∧
      ∀ o j, r = some (.ok (o, j)) → Fresh s s2 ∧ NewName s.vol path2 o.namePat ∧
        ∃ x : Dirent, (s2.vol.allSlots o.dircluster)[j]? = some x ∧ ¬ x.Live := by
  obtain ⟨r', s2', halloc', hlonger, hzero, hok⟩ := allocSlot_spec path2 s1
  rw [h1.vol] at halloc' hok
  obtain ⟨rfl, rfl⟩ := Prog.exec_unique halloc halloc'
  refine ⟨(Longer.of_same h1).trans hlonger, hzero, fun o j h => ?_⟩
  obtain ⟨hfresh, hname, hslot⟩ := hok o j h
  exact ⟨(Fresh.of_same h1).trans hfresh, hname, hslot⟩

/-- What the removal of a long name leaves. -/
theorem removeLongNames_at {r : Option Dirent}
    (hrem : (removeLongNames c i).exec failing s1 = some (r, s2)) :
    Shortened c i s1 s2 ∧ (s2.vol.allSlots c)[i]? = (s1.vol.allSlots c)[i]? ∧
      ∀ e, r = some e → (s1.vol.allSlots c)[i]? = some e := by
  obtain ⟨r', s2', hrem', hshort, hentry⟩ := removeLongNames_spec c i s1
  obtain ⟨rfl, rfl⟩ := Prog.exec_unique hrem hrem'
  exact ⟨hshort, hshort.kept c i (.inr le_rfl), fun e h => (hentry e h).1⟩

theorem lostWithin_loses (h : LostWithin sys path1 path2 attrib s) :
    ¬ NeverLost sys path1 path2 attrib s := by
  obtain ⟨c, i, name, s1, e, s2, hplan, hrem, hlive, hstores, hdead⟩ := h
  obtain ⟨h1, -, o, e0, t, hlook, rfl⟩ := within_file hplan
  obtain ⟨hshort, -, hentry⟩ := removeLongNames_at hrem
  obtain ⟨rc, s', hrun, -, hdone⟩ := renameWithin_spec o.dircluster i name hrem
  have hslot := hentry e rfl
  rw [h1.vol] at hslot
  obtain ⟨-, -, rfl⟩ := plan_file hlook hlook hslot
  intro hnever
  refine absurd ((hnever rc s' (renameOn_within hplan hrun)).1 o i e0 t hlook hlive)
    (not_present fun c j x hx hx' => ?_)
  rw [(hdone e0 rfl).2.2 hstores] at hx
  obtain ⟨hx, hne⟩ := live_dirWrite hdead hx hx'
  rw [← h1.vol]
  exact ⟨(hshort.erased c j x hx).resolve_right (not_not.mpr hx'), hne⟩

theorem lostAcross_loses (h : LostAcross sys path1 path2 attrib s) :
    ¬ NeverLost sys path1 path2 attrib s := by
  obtain ⟨c, i, s1, o, j, s2, e, s3, hplan, halloc, hrem, hlive, hstores, hnot⟩ := h
  obtain ⟨h1, o1, e0, t, hlook, rfl⟩ := across_file hplan
  obtain ⟨hlonger, -, hok⟩ := allocSlot_at h1 halloc
  obtain ⟨hfresh, -, -⟩ := hok o j rfl
  obtain ⟨hshort, -, hentry⟩ := removeLongNames_at hrem
  obtain ⟨rc, s4, hmove, -, hdone⟩ := moveEntry_spec o1.dircluster i o j hrem
  have hslot := hlonger.kept _ _ _ (lookUp_found hlook)
  obtain rfl := some.inj (hslot.symm.trans (hentry e rfl))
  have hdone := hdone e0 rfl
  intro hnever
  refine absurd ((hnever rc s4 (renameOn_across hplan (renameAcross_ok halloc hmove))).1
    o1 i e0 t hlook hlive) (not_present fun c k x hx hx' => ?_)
  -- what is live after the deletion was live before, in another slot
  have hdeleted : ((s3.vol.dirWrite o1.dircluster i
      { e0 with name := e0.name.setFirst DELETED }).allSlots c)[k]? = some x := by
    by_cases hboth : s3.StoresBoth
    · have hdead : ¬ Dirent.Live { e0 with name := o.namePat } := fun h => hnot ⟨hboth, h⟩
      rw [hdone.moved hboth] at hx
      exact (live_dirWrite hdead hx hx').1
    · rw [hdone.deleted hstores hboth] at hx
      exact hx
  obtain ⟨hx3, hne⟩ := live_dirWrite (not_live_deleted e0) hdeleted hx'
  have hx2 := (hshort.erased c k x hx3).resolve_right (not_not.mpr hx')
  exact ⟨(hfresh c k x hx2).resolve_right (not_not.mpr hx'), hne⟩

theorem strayed_changes (h : Strayed sys path1 path2 attrib s) :
    ¬ NeverLost sys path1 path2 attrib s := by
  obtain ⟨c, i, s1, slot, s2, hplan, halloc, hchanged, hthen⟩ := h
  obtain ⟨h1, o1, e0, t, hlook, rfl⟩ := across_file hplan
  obtain ⟨hlonger, hzero, -⟩ := allocSlot_at h1 halloc
  intro hnever
  cases slot with
  | error rc =>
    have hrun := renameOn_across hplan (renameAcross_error halloc)
    exact hchanged ((hnever rc s2 hrun).2 (fun h => hzero (by rw [h])) hlonger.written)
  | ok r =>
    obtain ⟨o, j⟩ := r
    obtain ⟨s3, hrem, hcount⟩ := hthen o j rfl
    obtain ⟨hshort, -, -⟩ := removeLongNames_at hrem
    obtain ⟨rc, s4, hmove, hnone, -⟩ := moveEntry_spec o1.dircluster i o j hrem
    obtain ⟨rfl, rfl⟩ := hnone rfl
    have hrun := renameOn_across hplan (renameAcross_ok halloc hmove)
    have hsame := (hnever DE_ACCESS s4 hrun).2 (by decide) (hcount.trans hlonger.written)
    exact hchanged ((hshort.first hcount).symm.trans hsame)

/-- A name changed in place. -/
theorem within_keeps (hplan : (renameChecks sys s.vol path1 path2 attrib).exec failing s =
      some (.within c i name, s1))
    (hnot : ¬ LostWithin sys path1 path2 attrib s) : NeverLost sys path1 path2 attrib s := by
  obtain ⟨h1, hname, o, e0, t, hlook, rfl⟩ := within_file hplan
  have hfile := lookUp_found hlook
  obtain ⟨r, s2, hrem, -⟩ := removeLongNames_spec o.dircluster i s1
  obtain ⟨hshort, hkept, hentry⟩ := removeLongNames_at hrem
  rw [h1.vol] at hkept hentry
  obtain ⟨rc, s', hrun, hnone, hsome⟩ := renameWithin_spec o.dircluster i name hrem
  have hcount := hshort.counts
  have hwritten := h1.written
  intro rc' s'' hall
  obtain ⟨-, rfl⟩ := Prog.exec_unique (renameOn_within hplan hrun) hall
  cases r with
  | none =>
    rw [hnone rfl]
    refine ⟨fun o' i' e' t' hlook' hlive => ?_, fun _ heq => ?_⟩
    · obtain ⟨rfl, rfl, rfl⟩ := plan_file hlook hlook' hfile
      exact present_own (hkept.trans hfile) hlive
    · rw [hshort.first (by omega), h1.vol]
  | some e =>
    obtain ⟨hmore, hlost, hdone⟩ := hsome e rfl
    obtain rfl := some.inj (hfile.symm.trans (hentry e rfl))
    refine ⟨fun o' i' e' t' hlook' hlive => ?_, fun _ heq => by omega⟩
    obtain ⟨rfl, rfl, rfl⟩ := plan_file hlook hlook' hfile
    by_cases hstores : s2.Stores
    · have hnew : Dirent.Live { e' with name := name } := by
        by_contra hdead
        exact hnot ⟨_, _, _, s1, e', s2, hplan, hrem, hlive, hstores, hdead⟩
      rw [hdone hstores]
      have hlt := (List.getElem?_eq_some_iff.mp (hkept.trans hfile)).1
      exact ⟨_, _, _, slot_written _ hlt, hnew, rfl, .inr hname, .inl ⟨rfl, rfl⟩⟩
    · rw [hlost hstores]
      exact present_own (hkept.trans hfile) hlive

/-- An entry moved to another directory. -/
theorem across_keeps
    (hplan : (renameChecks sys s.vol path1 path2 attrib).exec failing s = some (.across c i, s1))
    (hnotlost : ¬ LostAcross sys path1 path2 attrib s)
    (hnotstray : ¬ Strayed sys path1 path2 attrib s) : NeverLost sys path1 path2 attrib s := by
  obtain ⟨h1, o1, e0, t, hlook, rfl⟩ := across_file hplan
  have hfile := lookUp_found hlook
  obtain ⟨slot, s2, halloc, -⟩ := allocSlot_spec path2 s1
  rw [h1.vol] at halloc
  obtain ⟨hlonger, -, hok⟩ := allocSlot_at h1 halloc
  have hfile2 := hlonger.kept _ _ _ hfile
  have howned : ∀ {v' : Volume}, (v'.allSlots o1.dircluster)[i]? = some e0 →
      ∀ o' i' e' t', (lookUp s.vol path1 attrib).exec failing s = some (.found o' i' e', t') →
        e'.Live → Present s.vol v' path2 o'.dircluster i' e' := by
    intro v' hslot o' i' e' t' hlook' hlive
    obtain ⟨rfl, rfl, rfl⟩ := plan_file hlook hlook' hfile
    exact present_own hslot hlive
  intro rc' s'' hall
  cases slot with
  | none =>
    have hrun : (renameAcross s.vol path2 o1.dircluster i).exec failing s1 = some (none, s2) := by
      unfold renameAcross
      rw [Prog.exec_bind, halloc]
      rfl
    obtain ⟨h, -⟩ := Prog.exec_unique (renameOn_across hplan hrun) hall
    cases h
  | some slot =>
    cases slot with
    | error rc =>
      obtain ⟨-, rfl⟩ := Prog.exec_unique (renameOn_across hplan (renameAcross_error halloc)) hall
      refine ⟨howned hfile2, fun _ _ => ?_⟩
      by_contra hchanged
      exact hnotstray ⟨_, _, s1, _, s2, hplan, halloc, hchanged, nofun⟩
    | ok r =>
      obtain ⟨o, j⟩ := r
      obtain ⟨r, s3, hrem, -⟩ := removeLongNames_spec o1.dircluster i s2
      obtain ⟨hshort, hkept, hentry⟩ := removeLongNames_at hrem
      have hcount := hshort.counts
      have hwritten := hlonger.written
      obtain ⟨-, hname, x, hx, hdead⟩ := hok o j rfl
      obtain ⟨rc, s4, hmove, hnone, hdone⟩ := moveEntry_spec o1.dircluster i o j hrem
      obtain ⟨-, rfl⟩ :=
        Prog.exec_unique (renameOn_across hplan (renameAcross_ok halloc hmove)) hall
      cases r with
      | none =>
        obtain ⟨-, rfl⟩ := hnone rfl
        refine ⟨howned (hkept.trans hfile2), fun _ heq => ?_⟩
        have hsame : s4.written = s2.written := heq.trans hwritten.symm
        rw [hshort.first hsame]
        by_contra hchanged
        exact hnotstray ⟨_, _, s1, _, s2, hplan, halloc, hchanged, fun _ _ _ => ⟨s4, hrem, hsame⟩⟩
      | some e =>
        obtain rfl := some.inj (hfile2.symm.trans (hentry e rfl))
        have hdone := hdone e0 rfl
        refine ⟨?_, fun _ heq => by have := hdone.written; omega⟩
        by_cases hstores : s3.Stores
        · intro o' i' e' t' hlook' hlive
          obtain ⟨rfl, rfl, rfl⟩ := plan_file hlook hlook' hfile
          have hboth : s3.StoresBoth ∧ Dirent.Live { e' with name := o.namePat } := by
            by_contra hnot
            exact hnotlost ⟨_, _, s1, o, j, s2, e', s3, hplan, halloc, hrem, hlive, hstores, hnot⟩
          rw [hdone.moved hboth.1]
          have hlt : j < ((s3.vol.dirWrite o'.dircluster i'
              { e' with name := e'.name.setFirst DELETED }).allSlots o.dircluster).length := by
            rw [allSlots_length, hshort.length]
            exact (List.getElem?_eq_some_iff.mp hx).1
          refine ⟨_, _, _, slot_written _ hlt, hboth.2, rfl, .inr hname, .inr fun y hy => ?_⟩
          rw [some.inj ((hlonger.kept _ _ _ hy).symm.trans hx)]
          exact hdead
        · rw [hdone.kept hstores]
          exact howned (hkept.trans hfile2)

/-- **A file is lost exactly in these ways.**  On every volume, for every pair of paths, and
whichever reads, writes and extensions fail: the file is there after `dos_rename`, and an error
before the first `dir_write` has changed nothing, if and only if the deletion of the old entry does
not get to the disk without the new entry, the new name is one, and no directory was changed before
an error. -/
theorem rename_keeps_file (sys : Sys) (path1 path2 : Bytes) (attrib : UInt8) (s : Drive) :
    NeverLost sys path1 path2 attrib s ↔
      ¬ LostWithin sys path1 path2 attrib s ∧ ¬ LostAcross sys path1 path2 attrib s ∧
        ¬ Strayed sys path1 path2 attrib s := by
  constructor
  · intro hnever
    exact ⟨fun h => lostWithin_loses h hnever, fun h => lostAcross_loses h hnever,
      fun h => strayed_changes h hnever⟩
  · rintro ⟨hwithin, hacross, hstray⟩
    obtain ⟨plan, s1, hplan, h1, -⟩ := renameChecks_spec sys path1 path2 attrib s
    cases plan with
    | stop rc =>
      intro rc' s' hall
      have hrun : (renameOn sys s.vol path1 path2 attrib).exec failing s = some (some rc, s1) := by
        unfold renameOn
        rw [Prog.exec_bind, hplan]
        rfl
      obtain ⟨-, rfl⟩ := Prog.exec_unique hrun hall
      refine ⟨fun o i e t hlook hlive => present_own ?_ hlive, fun _ _ => h1.vol⟩
      rw [h1.vol]
      exact lookUp_found hlook
    | within c i name => exact within_keeps hplan hwithin
    | across c i => exact across_keeps hplan hacross hstray

end

/-- A FAT16 volume with the file `A.TXT` and the empty directory `D`. -/
def fileAndDirectory : Volume where
  fat32 := false
  xrootclst := 0
  perCluster := 64
  dir := fun c =>
    if c = 0 then [aTxt, ⟨blankName.setFirst 0x44, D_DIR, 0, 0x21, 2, 0⟩, Dirent.zero]
    else if c = 2 then
      [⟨dotName, D_DIR, 0, 0x21, 2, 0⟩, ⟨dotdotName, D_DIR, 0, 0x21, 0, 0⟩, Dirent.zero]
    else []

/-- The first write is good, and the second fails. -/
def secondWriteFails : Drive where
  vol := fileAndDirectory
  reads := []
  writes := [.good, .lost]
  growths := []
  flushes := []
  written := 0

/-- `C:\A.TXT` -/
def pathA : Bytes := [0x43, 0x3a, backslash, 0x41, 0x2e, 0x54, 0x58, 0x54]

/-- `C:\D\A.TXT` -/
def pathDA : Bytes := [0x43, 0x3a, backslash, 0x44, backslash, 0x41, 0x2e, 0x54, 0x58, 0x54]

/-- **The file is lost.** -/
theorem file_lost_by_rename : ¬ NeverLost plainSys pathA pathDA D_ALL secondWriteFails := by
  have hplan : (renameChecks plainSys fileAndDirectory pathA pathDA D_ALL).exec failing
      secondWriteFails = some (.across 0 0, secondWriteFails) := rfl
  have halloc : ∃ o, (allocSlot fileAndDirectory pathDA).exec failing secondWriteFails =
      some (some (.ok (o, 2)), secondWriteFails) := ⟨_, rfl⟩
  have hrem : (removeLongNames 0 0).exec failing secondWriteFails =
      some (some aTxt, secondWriteFails) := rfl
  obtain ⟨o, halloc⟩ := halloc
  refine lostAcross_loses ⟨0, 0, _, o, 2, _, aTxt, _, hplan, halloc, hrem, ?_, ?_, fun h => ?_⟩
  · exact ⟨by decide, by decide⟩
  · exact nofun
  · exact absurd rfl h.1.2

end SdcBoot.Dir
