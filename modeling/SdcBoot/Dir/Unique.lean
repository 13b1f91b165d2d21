/-
# Names stay unique

A name that stands twice in a directory makes one of the two files unreachable, so each call looks
for the name before it makes an entry, with `find_fname`, which passes over entries whose attributes
are outside of those it is given.  `names_stay_unique` is about runs of all the calls that make or
rename entries: as long as no entry with the new name is passed over, no directory ever has a name
twice.

The slots of a directory are in order (`InOrder`) if no two live entries have the same name and
nothing lies behind the mark of the end, as the format promises: otherwise a new entry in the first
unused slot would uncover what is behind it.
-/
import SdcBoot.Dir.Change

namespace SdcBoot.Dir

open Lib List Function

/-! ## 1. Slots in order -/

/-- A live entry: neither unused nor deleted, and no volume label.  Parts of long names have the bit
of a label too. -/
def live (e : Dirent) : Bool :=
  e.name.first != 0 && e.name.first != DELETED && e.attrib &&& D_VOLID == 0

/-- No two live entries have the same name. -/
def UniqueNames (s : List Dirent) : Prop :=
  ∀ (i j : Nat) (a b : Dirent), s[i]? = some a → s[j]? = some b → live a = true → live b = true →
    a.name = b.name → i = j

/-- Nothing lies behind an unused slot. -/
def Tidy (s : List Dirent) : Prop :=
  ∀ (i j : Nat) (a b : Dirent), i ≤ j → s[i]? = some a → s[j]? = some b → a.name.first = 0 → b.name.first = 0

structure InOrder (s : List Dirent) : Prop where
  unique : UniqueNames s
  tidy : Tidy s

/-- No slot in front of `i` is unused. -/
def Before (s : List Dirent) (i : Nat) : Prop :=
  ∀ (j : Nat) (x : Dirent), j < i → s[j]? = some x → x.name.first ≠ 0

section

variable {s s' : List Dirent} {i : Nat} {e : Dirent}

variable {x : Dirent}

variable {j : Nat}

theorem getElem?_set_cases (h : (s.set i e)[j]? = some x) :
    (j = i ∧ x = e) ∨ (j ≠ i ∧ s[j]? = some x) := by
  rw [getElem?_set] at h
  split at h
  · next hij =>
    split at h
    · cases h
      exact .inl ⟨hij.symm, rfl⟩
    · cases h
  · next hij => exact .inr ⟨fun hji => hij hji.symm, h⟩

/-- **A new entry**: if it is a live one its name is new, and no unused slot is in front of it. -/
theorem InOrder.set (h : InOrder s) (hname : e.name.first ≠ 0) (hbefore : Before s i)
    (hnew : live e = true → ∀ (j : Nat) (x : Dirent), j ≠ i → s[j]? = some x → live x = true → x.name ≠ e.name) :
    InOrder (s.set i e) := by
  constructor
  case unique =>
    intro j k a b hj hk ha hb hab
    rcases getElem?_set_cases hj with ⟨rfl, rfl⟩ | ⟨hji, hja⟩
    · rcases getElem?_set_cases hk with ⟨rfl, rfl⟩ | ⟨hkj, hkb⟩
      · rfl
      · exact absurd hab.symm (hnew ha k b hkj hkb hb)
    · rcases getElem?_set_cases hk with ⟨rfl, rfl⟩ | ⟨-, hkb⟩
      · exact absurd hab (hnew hb j a hji hja ha)
      · exact h.unique j k a b hja hkb ha hb hab
  case tidy =>
    intro j k a b hjk hj hk ha
    rcases getElem?_set_cases hj with ⟨rfl, rfl⟩ | ⟨hji, hja⟩
    · exact absurd ha hname
    · rcases getElem?_set_cases hk with ⟨rfl, rfl⟩ | ⟨-, hkb⟩
      · exact absurd ha (hbefore j a (by omega) hja)
      · exact h.tidy j k a b hjk hja hkb ha

/-- Slots are only cleared: each one is as before, or a used one that is no longer live. -/
def Cleared (s s' : List Dirent) : Prop :=
  ∀ (j : Nat) (x' : Dirent), s'[j]? = some x' → s[j]? = some x' ∨
    (live x' = false ∧ x'.name.first ≠ 0 ∧ ∃ x, s[j]? = some x ∧ x.name.first ≠ 0)

theorem Cleared.refl (s : List Dirent) : Cleared s s := fun _ _ h => .inl h

theorem Cleared.nil (s : List Dirent) : Cleared s [] := nofun

theorem Cleared.trans {s'' : List Dirent} (h : Cleared s s') (h' : Cleared s' s'') :
    Cleared s s'' := by
  intro j x hx
  rcases h' j x hx with hx | ⟨hdead, hne, y, hy, hyne⟩
  · exact h j x hx
  · rcases h j y hy with hy | ⟨-, -, z, hz, hzne⟩
    · exact .inr ⟨hdead, hne, y, hy, hyne⟩
    · exact .inr ⟨hdead, hne, z, hz, hzne⟩

section

variable (h : Cleared s s')
include h

theorem Cleared.live_back (hx : s'[j]? = some x) (hlive : live x = true) : s[j]? = some x := by
  rcases h j x hx with hx | ⟨hdead, -⟩
  · exact hx
  · rw [hdead] at hlive
    cases hlive

theorem Cleared.used (hused : ∀ x, s[i]? = some x → x.name.first ≠ 0)
    (hx : s'[i]? = some x) : x.name.first ≠ 0 := by
  rcases h i x hx with hx | ⟨-, hne, -⟩
  · exact hused x hx
  · exact hne

theorem Cleared.before (hbefore : Before s i) : Before s' i :=
  fun j _ hj hx => h.used (fun y hy => hbefore j y hj hy) hx

theorem Cleared.inOrder (hs : InOrder s) : InOrder s' := by
  constructor
  case unique =>
    intro i j a b hi hj ha hb hab
    exact hs.unique i j a b (h.live_back hi ha) (h.live_back hj hb) ha hb hab
  case tidy =>
    intro i j a b hij hi hj ha
    rcases h i a hi with hi | ⟨-, hne, -⟩
    · rcases h j b hj with hj | ⟨-, -, x, hx, hne⟩
      · exact hs.tidy i j a b hij hi hj ha
      · exact absurd (hs.tidy i j a x hij hi hx ha) hne
    · exact absurd ha hne

end

/-- A used slot is marked as deleted, or made into something else that is not live. -/
theorem Cleared.set (hused : ∀ x, s[i]? = some x → x.name.first ≠ 0) (hdead : live e = false)
    (hname : e.name.first ≠ 0) : Cleared s (s.set i e) := by
  intro j x hx
  rw [getElem?_set] at hx
  split at hx
  · next hij =>
    subst hij
    split at hx
    · next hlt =>
      cases hx
      exact .inr ⟨hdead, hname, s[i], getElem?_eq_getElem hlt,
        hused _ (getElem?_eq_getElem hlt)⟩
    · cases hx
  · exact .inl hx

/-- Unused slots are added to a directory that has none. -/
theorem InOrder.append_zero (h : InOrder s) (hused : ∀ (j : Nat) (x : Dirent), s[j]? = some x → x.name.first ≠ 0)
    (n : Nat) : InOrder (s ++ List.replicate n Dirent.zero) := by
  have hcases : ∀ (j : Nat) (x : Dirent), (s ++ List.replicate n Dirent.zero)[j]? = some x →
      s[j]? = some x ∨ (s.length ≤ j ∧ x = Dirent.zero) := by
    intro j x hx
    rcases lt_or_ge j s.length with hlt | hge
    · rw [getElem?_append_left hlt] at hx
      exact .inl hx
    · rw [getElem?_append_right hge, getElem?_replicate] at hx
      split at hx
      · cases hx
        exact .inr ⟨hge, rfl⟩
      · cases hx
  constructor
  case unique =>
    intro i j a b hi hj ha hb hab
    rcases hcases i a hi with hi | ⟨-, rfl⟩
    · rcases hcases j b hj with hj | ⟨-, rfl⟩
      · exact h.unique i j a b hi hj ha hb hab
      · cases hb
    · cases ha
  case tidy =>
    intro i j a b hij hi hj ha
    rcases hcases i a hi with hi | ⟨hle, -⟩
    · exact absurd ha (hused i a hi)
    · rcases hcases j b hj with hj | ⟨-, rfl⟩
      · have hlt := (List.getElem?_eq_some_iff.1 hj).1
        omega
      · decide

end

/-! ## 2. Volumes in order -/

/-- All directories of the volume are in order. -/
def Sound (v : Volume) : Prop := ∀ c, InOrder (v.slots c)

/-- The slots of all directories are only cleared. -/
def ClearedAll (v v' : Volume) : Prop := ∀ c, Cleared (v.slots c) (v'.slots c)

section

variable {v v' : Volume} {c : UInt32} {i : Nat} {e : Dirent}

theorem ClearedAll.sound (h : ClearedAll v v') (hv : Sound v) : Sound v' :=
  fun c => (h c).inOrder (hv c)

variable {v'' : Volume}

theorem ClearedAll.trans (h : ClearedAll v v') (h' : ClearedAll v' v'') :
    ClearedAll v v'' :=
  fun c => (h c).trans (h' c)

theorem swapDeleted_swapDeleted (e : Dirent) : swapDeleted (swapDeleted e) = e := by
  by_cases h : e.name.first = DELETED ∨ e.name.first = EXT_DELETED
  · have hmark : e.name.first ^^^ (EXT_DELETED - DELETED) = DELETED ∨
        e.name.first ^^^ (EXT_DELETED - DELETED) = EXT_DELETED := by
      rcases h with h | h
      · exact .inr (by rw [h]; decide)
      · exact .inl (by rw [h]; decide)
    have hback : e.name.first ^^^ (EXT_DELETED - DELETED) ^^^ (EXT_DELETED - DELETED) = e.name.first := by
      rw [UInt8.xor_assoc, UInt8.xor_self, UInt8.xor_zero]
    unfold swapDeleted
    simp only [h, if_true, Name.first_setFirst, hmark, hback, Name.setFirst_setFirst,
      Name.setFirst_first]
  · unfold swapDeleted
    simp only [h, if_false]

theorem slots_dirWrite_self : (v.dirWrite c i e).slots c = (v.slots c).set i e := by
  unfold Volume.slots Volume.dirWrite
  simp only [update_self]
  rw [take_set, map_set, swapDeleted_swapDeleted]

theorem slots_dirWrite_other {c' : UInt32} (h : c' ≠ c) :
    (v.dirWrite c i e).slots c' = v.slots c' := by
  unfold Volume.slots Volume.dirWrite
  simp only [update_of_ne h]

theorem Sound.dirWrite (hv : Sound v) (h : InOrder ((v.slots c).set i e)) :
    Sound (v.dirWrite c i e) := by
  intro c'
  by_cases hc : c' = c
  · subst hc
    rw [slots_dirWrite_self]
    exact h
  · rw [slots_dirWrite_other hc]
    exact hv c'

theorem ClearedAll.dirWrite (h : Cleared (v.slots c) ((v.slots c).set i e)) :
    ClearedAll v (v.dirWrite c i e) := by
  intro c'
  by_cases hc : c' = c
  · subst hc
    rw [slots_dirWrite_self]
    exact h
  · rw [slots_dirWrite_other hc]
    exact .refl _

/-- A chain that is freed takes at most a directory with it. -/
theorem ClearedAll.wipeOut (v : Volume) (e : Dirent) : ClearedAll v (v.wipeOut e) := by
  intro c
  unfold Volume.wipeOut
  split
  · exact .refl _
  · by_cases hc : c = v.getdstart e
    · unfold Volume.slots
      simp only [hc, update_self]
      exact .nil _
    · unfold Volume.slots
      simp only [update_of_ne hc]
      exact .refl _

/-- An entry whose name begins with the mark of a deleted one. -/
def deletedEntry (e : Dirent) : Dirent := { e with name := e.name.setFirst DELETED }

theorem live_deletedEntry (e : Dirent) : live (deletedEntry e) = false := by
  simp [live, deletedEntry]

theorem deletedEntry_name (e : Dirent) : (deletedEntry e).name.first ≠ 0 := by
  simp [deletedEntry, DELETED]

/-- Removing the long name in front of an entry only clears slots, and only of one directory. -/
theorem removeLfnEntries_cleared (c : UInt32) :
    ∀ (entry : Nat) (v : Volume), ClearedAll v (removeLfnEntries c entry v).2
  | 0, v => fun _ => .refl _
  | entry + 1, v => by
    unfold removeLfnEntries
    split
    · exact fun _ => .refl _
    · next e he =>
      split
      · exact fun _ => .refl _
      · next hne =>
        split
        · exact fun _ => .refl _
        · refine ClearedAll.trans (.dirWrite (.set ?_ (live_deletedEntry e) (deletedEntry_name e)))
            (removeLfnEntries_cleared c entry _)
          intro x hx
          cases he.symm.trans hx
          exact hne

end

/-! ## 3. Looking for a name and for a slot -/

section

variable {v v' : Volume} {path : Bytes} {o : Opened} {i : Nat} {e : Dirent}

theorem blankName_head : blankName.first ≠ 0 := by decide

theorem convertLoop_head (bytes : Bytes) (column : Nat) (fcbname : Name) (h : fcbname.first ≠ 0) :
    (convertLoop bytes column fcbname).1.first ≠ 0 := by
  fun_induction convertLoop bytes column fcbname with
  | case1 => exact h
  | case2 => exact h
  | case3 => exact h
  | case4 _ _ _ _ _ ih => exact ih h
  | case5 => exact h
  | case6 column fcbname c _ _ hzero _ _ ih =>
    refine ih ?_
    unfold Name.first
    rw [Vector.getElem_setIfInBounds]
    split
    · exact hzero
    · exact h

/-- The names of a path never begin with a zero. -/
theorem dirWalk_namePat (v : Volume) (split : Bool) :
    ∀ (fuel : Nat) (bytes : Bytes) (f : Opened), f.namePat.first ≠ 0 →
      dirWalk v split fuel bytes f = some o → o.namePat.first ≠ 0
  | 0, _, _, _, h => by cases h
  | _ + 1, [], f, hf, h => by
    cases h
    exact hf
  | fuel + 1, c :: rest, f, hf, h => by
    have hname : (convertNameSZToName83 rest).1.first ≠ 0 := convertLoop_head rest 0 _ blankName_head
    unfold dirWalk at h
    split at h
    · cases h
      exact hf
    · dsimp only at h
      split at h
      · cases h
        exact hname
      · split at h
        · cases h
        · split at h
          · cases h
          · exact dirWalk_namePat v split fuel _ _ hname h

theorem splitPath_namePat (h : splitPath v path = some o) : o.namePat.first ≠ 0 := by
  unfold splitPath at h
  split at h
  · cases h
  · exact dirWalk_namePat v true _ _ _ blankName_head h

variable {p : Dirent → Bool} {s : List Dirent} {c : UInt32} {extend : Bool}

/-- An entry that a search has found, and what is in front of it. -/
theorem dirSearch_some :
    ∀ (s : List Dirent) (n : Nat), dirSearch p s n = some (i, e) →
      n ≤ i ∧ s[i - n]? = some e ∧ p e = true ∧ e.name.first ≠ 0 ∧ Before s (i - n)
  | [], _, h => by cases h
  | x :: rest, n, h => by
    unfold dirSearch at h
    split at h
    · cases h
    · next hx =>
      split at h
      · next hp =>
        cases h
        refine ⟨le_refl _, by simp, hp, hx, ?_⟩
        intro j y hj
        omega
      · obtain ⟨hle, hget, hp, hne, hbefore⟩ := dirSearch_some rest (n + 1) h
        have hidx : i - n = (i - (n + 1)) + 1 := by omega
        refine ⟨by omega, by rw [hidx, getElem?_cons_succ]; exact hget, hp, hne, ?_⟩
        intro j y hj hy
        cases j with
        | zero =>
          cases hy
          exact hx
        | succ j => exact hbefore j y (by omega) hy

/-- A search that fails has seen everything in front of the end. -/
theorem dirSearch_none :
    ∀ (s : List Dirent) (n : Nat), dirSearch p s n = none → Tidy s →
      ∀ (j : Nat) (x : Dirent), s[j]? = some x → x.name.first ≠ 0 → p x = false
  | [], _, _, _, j, x, hx, _ => by simp at hx
  | y :: rest, n, h, htidy, j, x, hx, hne => by
    have hy : y.name.first ≠ 0 := fun hzero => hne (htidy 0 j y x (Nat.zero_le j) rfl hx hzero)
    unfold dirSearch at h
    rw [if_neg hy] at h
    split at h
    · cases h
    · next hp =>
      cases j with
      | zero =>
        cases hx
        simpa using hp
      | succ j =>
        refine dirSearch_none rest (n + 1) h ?_ j x hx hne
        intro a b ea eb hab ha hb
        exact htidy (a + 1) (b + 1) ea eb (by omega) ha hb

variable {attr : UInt8}

theorem findFname_found (h : findFname v path attr = .found o i e) :
    splitPath v path = some o ∧ (v.slots o.dircluster)[i]? = some e ∧ e.name = o.namePat ∧
      e.name.first ≠ 0 ∧ Before (v.slots o.dircluster) i := by
  unfold findFname at h
  split at h
  · cases h
  · next o' ho =>
    split at h
    · cases h
    · next hsearch =>
      cases h
      obtain ⟨-, hget, hp, hne, hbefore⟩ := dirSearch_some _ _ hsearch
      simp only [Bool.and_eq_true, beq_iff_eq] at hp
      exact ⟨ho, hget, hp.1, hne, hbefore⟩

/-- The entries with the name at the end of the path are within `attr`, so that none of them is
passed over. -/
def sees (v : Volume) (path : Bytes) (attr : UInt8) : Bool :=
  match splitPath v path with
  | none => true
  | some o =>
    (v.slots o.dircluster).all fun e => !live e || e.name != o.namePat || attrWithin attr e

/-- **A name that is not found is not there**, if nothing is passed over. -/
theorem findFname_notFound (hv : Sound v) (h : findFname v path attr = .notFound o)
    (hsees : sees v path attr = true) :
    ∀ (j : Nat) (x : Dirent), (v.slots o.dircluster)[j]? = some x → live x = true →
      x.name ≠ o.namePat := by
  intro j x hx hlive hname
  unfold findFname at h
  split at h
  · cases h
  · next o' ho =>
    split at h
    · next hsearch =>
      cases h
      have hne : x.name.first ≠ 0 := by
        intro hzero
        simp [live, hzero] at hlive
      have hnot := dirSearch_none _ _ hsearch (hv _).tidy j x hx hne
      simp only [sees, ho, all_eq_true] at hsees
      have hwithin := hsees x (mem_of_getElem? hx)
      simp only [hlive, hname, Bool.not_true, Bool.false_or, bne_self_eq_false] at hwithin
      simp only [hname, beq_self_eq_true] at hnot
      rw [hwithin] at hnot
      cases hnot
    · cases h

theorem findFname_notFound_split (h : findFname v path attr = .notFound o) :
    splitPath v path = some o := by
  unfold findFname at h
  split at h
  · cases h
  · next ho =>
    split at h
    · cases h
      exact ho
    · cases h

theorem findFree_some (h : findFree s = some i) : i < s.length ∧ Before s i := by
  obtain ⟨hlt, -, hbefore⟩ := findIdx?_eq_some_iff_getElem.1 h
  refine ⟨hlt, fun j x hj hx => ?_⟩
  obtain ⟨hlen, rfl⟩ := List.getElem?_eq_some_iff.1 hx
  have hno := hbefore j hj
  simp only [Bool.or_eq_true, beq_iff_eq, not_or] at hno
  exact hno.2

theorem findFree_none (h : findFree s = none) :
    ∀ (j : Nat) (x : Dirent), s[j]? = some x → x.name.first ≠ 0 := by
  intro j x hx
  have hno := findIdx?_eq_none_iff.1 h x (mem_of_getElem? hx)
  simp only [Bool.or_eq_false_iff, beq_eq_false_iff_ne] at hno
  exact hno.2

/-! ## 4. A free slot -/

theorem slots_extendDir_self (v : Volume) (c : UInt32) :
    ∃ n, (v.extendDir c).slots c = v.slots c ++ List.replicate n Dirent.zero := by
  have hzero : swapDeleted Dirent.zero = Dirent.zero := by decide
  refine ⟨min (65535 - (v.dir c).length) v.perCluster, ?_⟩
  unfold Volume.slots Volume.extendDir
  simp only [update_self]
  rw [take_append, map_append, take_replicate, map_replicate, hzero]

theorem slots_extendDir_other (v : Volume) {c' : UInt32} (h : c' ≠ c) :
    (v.extendDir c).slots c' = v.slots c' := by
  unfold Volume.slots Volume.extendDir
  simp only [update_of_ne h]

/-- A directory without a free slot is extended. -/
theorem Sound.extendDir (hv : Sound v) (hnone : findFree (v.slots c) = none) :
    Sound (v.extendDir c) := by
  intro c'
  by_cases hc : c' = c
  · subst hc
    obtain ⟨n, hslots⟩ := slots_extendDir_self v c'
    rw [hslots]
    exact (hv c').append_zero (findFree_none hnone) n
  · rw [slots_extendDir_other v hc]
    exact hv c'

/-- What `alloc_find_free` gives: a slot with no unused one in front of it, in a directory that has
no live entries it did not have before. -/
structure Allocated (v : Volume) (path : Bytes) (o : Opened) (i : Nat) (v' : Volume) : Prop where
  opened : splitPath v path = some o
  sound : Sound v'
  before : Before (v'.slots o.dircluster) i
  back : ∀ (j : Nat) (x : Dirent), (v'.slots o.dircluster)[j]? = some x → live x = true →
    (v.slots o.dircluster)[j]? = some x
  other : ∀ c, c ≠ o.dircluster → v'.slots c = v.slots c

theorem live_back_of_extended (v : Volume) (c : UInt32) {j : Nat} {x : Dirent}
    (hx : ((v.extendDir c).slots c)[j]? = some x) (hlive : live x = true) :
    (v.slots c)[j]? = some x := by
  obtain ⟨n, hslots⟩ := slots_extendDir_self v c
  rw [hslots] at hx
  rcases lt_or_ge j (v.slots c).length with hlt | hge
  · rwa [getElem?_append_left hlt] at hx
  · rw [getElem?_append_right hge, getElem?_replicate] at hx
    split at hx
    · cases hx
      cases hlive
    · cases hx

theorem allocFindFree_ok (hv : Sound v)
    (h : allocFindFree v path extend = (.ok (o, i), v')) : Allocated v path o i v' := by
  unfold allocFindFree at h
  split at h
  · cases h
  · next o' ho =>
    split at h
    · next hfree =>
      cases h
      exact ⟨ho, hv, (findFree_some hfree).2, fun _ _ hx _ => hx, fun _ _ => rfl⟩
    · next hnone =>
      split at h
      · cases h
      · split at h
        · dsimp only at h
          split at h
          · next hfree =>
            cases h
            exact ⟨ho, hv.extendDir hnone, (findFree_some hfree).2,
              fun j x hx hlive => live_back_of_extended v _ hx hlive,
              fun c hc => slots_extendDir_other v hc⟩
          · cases h
        · cases h

theorem allocFindFree_error (hv : Sound v) {rc : Int}
    (h : allocFindFree v path extend = (.error rc, v')) : Sound v' := by
  unfold allocFindFree at h
  split at h
  · cases h
    exact hv
  · split at h
    · cases h
    · next hnone =>
      split at h
      · cases h
        exact hv
      · split at h
        · dsimp only at h
          split at h
          · cases h
          · cases h
            exact hv.extendDir hnone
        · cases h
          exact hv

/-- **A new entry at the end of a path.**  Since the slot was given, slots may have been cleared. -/
theorem Allocated.write {o' : Opened} (hv : Sound v)
    (halloc : Allocated v path o i v') (hcleared : ClearedAll v' v'')
    (hnot : findFname v path attr = .notFound o') (hname : e.name = o.namePat)
    (hsees : live e = true → sees v path attr = true) : Sound (v''.dirWrite o.dircluster i e) := by
  have hsame : o' = o := by
    have hsplit := (findFname_notFound_split hnot).symm.trans halloc.opened
    cases hsplit
    rfl
  subst hsame
  refine Sound.dirWrite (hcleared.sound halloc.sound) (InOrder.set ?_ ?_ ?_ ?_)
  · exact (hcleared _).inOrder (halloc.sound _)
  · rw [hname]
    exact splitPath_namePat halloc.opened
  · exact (hcleared _).before halloc.before
  · intro hlive j x _ hx hxlive
    rw [hname]
    have hx' := halloc.back j x ((hcleared _).live_back hx hxlive) hxlive
    exact findFname_notFound hv hnot (hsees hlive) j x hx' hxlive

end

/-! ## 5. The calls on one volume -/

section

variable {sys : Sys} {space : Space} {v : Volume} {path path1 path2 : Bytes}

/-- A creation passes no entry over, or makes a label. -/
def openSees (v : Volume) (path : Bytes) (attrib : UInt8) : Bool :=
  attrib &&& D_VOLID != 0 || sees v path (D_ALL ||| attrib)

variable {attr attrib : UInt8} {o : Opened} {i : Nat} {e : Dirent} {v' : Volume}

variable {name : Name} {a b : Dirent} {o1 o2 : Opened} {entry1 : Nat}

theorem sees_of_live_created {cluster : UInt32} (hsees : openSees v path attrib = true)
    (hlive : live (initDirentry sys attrib cluster name) = true) :
    sees v path (D_ALL ||| attrib) = true := by
  simp only [live, initDirentry, Bool.and_eq_true, beq_iff_eq] at hlive
  simpa [openSees, hlive.2] using hsees

/-- A file that is replaced keeps its slot and its name. -/
theorem replaced_sound (hv : Sound v) (hfound : findFname v path attr = .found o i e)
    (hfile : e.attrib &&& D_VOLID = 0) :
    Sound ((v.wipeOut e).dirWrite o.dircluster i (initDirentry sys attrib 0 o.namePat)) := by
  obtain ⟨hsplit, hget, hname, hne, hbefore⟩ := findFname_found hfound
  have hwipe := ClearedAll.wipeOut v e o.dircluster
  refine Sound.dirWrite ((ClearedAll.wipeOut v e).sound hv) (InOrder.set ?_ ?_ ?_ ?_)
  · exact hwipe.inOrder (hv _)
  · exact splitPath_namePat hsplit
  · exact hwipe.before hbefore
  · intro hlive j x hj hx hxlive hxname
    have he : live e = true := by
      simp only [live, Bool.and_eq_true, bne_iff_ne] at hlive
      simp only [live, hname, hfile, Bool.and_eq_true, bne_iff_ne, beq_iff_eq]
      exact ⟨hlive.1, trivial⟩
    exact hj ((hv _).unique j i x e (hwipe.live_back hx hxlive) hget hxlive he
      (hxname.trans hname.symm))

theorem dosOpen_sound (hv : Sound v) (flags : UInt16) (attrib : UInt8)
    (hsees : flags &&& O_CREAT ≠ 0 → openSees v path attrib = true) :
    Sound (dosOpen sys space v path flags attrib).2 := by
  unfold dosOpen
  split
  · exact hv
  · next o entry e hfound =>
    split
    · split
      · exact hv
      · next haccess =>
        refine replaced_sound hv hfound ?_
        rw [not_or, not_not, not_not] at haccess
        have hbits : e.attrib &&& (D_RDONLY ||| D_DIR ||| D_VOLID) &&& D_VOLID = 0 := by
          rw [haccess.1, UInt8.zero_and]
        rwa [UInt8.and_assoc, show (D_RDONLY ||| D_DIR ||| D_VOLID) &&& D_VOLID = D_VOLID by decide]
          at hbits
    · split
      · -- whether the access is granted or not, nothing is written
        dsimp only
        split
        · split
          · exact hv
          · exact hv
        · split
          · exact hv
          · exact hv
      · exact hv
  · next o hnot =>
    split
    · next hcreat =>
      split
      · next herror => exact allocFindFree_error hv herror
      · next halloc =>
        exact (allocFindFree_ok hv halloc).write hv (fun _ => .refl _) hnot rfl
          (sees_of_live_created (hsees hcreat))
    · exact hv

theorem pair_cases {x : Dirent} {j : Nat} (h : [a, b][j]? = some x) :
    (j = 0 ∧ x = a) ∨ (j = 1 ∧ x = b) := by
  rcases j with _ | _ | j
  · cases h
    exact .inl ⟨rfl, rfl⟩
  · cases h
    exact .inr ⟨rfl, rfl⟩
  · cases h

/-- Two used entries with different names are in order. -/
theorem InOrder.pair (ha : a.name.first ≠ 0) (hb : b.name.first ≠ 0)
    (hab : a.name ≠ b.name) : InOrder [a, b] := by
  constructor
  case unique =>
    intro i j x y hi hj _ _ hxy
    rcases pair_cases hi with ⟨rfl, rfl⟩ | ⟨rfl, rfl⟩
    · rcases pair_cases hj with ⟨rfl, rfl⟩ | ⟨rfl, rfl⟩
      · rfl
      · exact absurd hxy hab
    · rcases pair_cases hj with ⟨rfl, rfl⟩ | ⟨rfl, rfl⟩
      · exact absurd hxy.symm hab
      · rfl
  case tidy =>
    intro i j x y _ hi _ hx
    rcases pair_cases hi with ⟨rfl, rfl⟩ | ⟨rfl, rfl⟩
    · exact absurd hx ha
    · exact absurd hx hb

theorem dotName_head : dotName.first ≠ 0 := by decide

theorem dotdotName_head : dotdotName.first ≠ 0 := by decide

theorem dotName_ne_dotdotName : dotName ≠ dotdotName := by decide

/-- A directory that has just been made is in order. -/
theorem newDirectory_inOrder (sys : Sys) (v : Volume) (cluster parent : UInt32) :
    InOrder (((newDirectory sys v cluster parent).take 65535).map swapDeleted) := by
  have hzero : swapDeleted Dirent.zero = Dirent.zero := by decide
  have hdot : ∀ c, swapDeleted (initDirentry sys D_DIR c dotName) = initDirentry sys D_DIR c dotName :=
    fun c => if_neg (by decide : ¬ (dotName.first = DELETED ∨ dotName.first = EXT_DELETED))
  have hdotdot : ∀ c, swapDeleted (initDirentry sys D_DIR c dotdotName) =
      initDirentry sys D_DIR c dotdotName :=
    fun c => if_neg (by decide : ¬ (dotdotName.first = DELETED ∨ dotdotName.first = EXT_DELETED))
  have hslots : ∃ c c' n, ((newDirectory sys v cluster parent).take 65535).map swapDeleted =
      [initDirentry sys D_DIR c dotName, initDirentry sys D_DIR c' dotdotName] ++
        List.replicate n Dirent.zero := by
    refine ⟨cluster, if v.fat32 ∧ parent = v.xrootclst then 0 else parent,
      min 65533 (v.perCluster - 2), ?_⟩
    unfold newDirectory
    simp only [take_succ_cons, take_replicate, map_cons, map_replicate, hzero,
      hdot, hdotdot, cons_append, nil_append]
  obtain ⟨c, c', n, hslots⟩ := hslots
  rw [hslots]
  refine (InOrder.pair dotName_head dotdotName_head dotName_ne_dotdotName).append_zero ?_ n
  intro j x hx
  rcases pair_cases hx with ⟨-, rfl⟩ | ⟨-, rfl⟩
  · exact dotName_head
  · exact dotdotName_head

/-- Making a directory passes no entry over. -/
theorem dosMkdir_sound (hv : Sound v) (hsees : sees v path D_ALL = true) :
    Sound (dosMkdir sys space v path).2 := by
  unfold dosMkdir
  split
  · exact hv
  · split
    · exact hv
    · exact hv
    · next o hnot =>
      split
      · next herror => exact allocFindFree_error hv herror
      · next halloc =>
        split
        · exact (allocFindFree_ok hv halloc).sound
        · next free hfree =>
          have hwritten := (allocFindFree_ok hv halloc).write hv (fun _ => .refl _) hnot
            (e := initDirentry sys D_DIR free _) rfl (fun _ => hsees)
          intro c
          by_cases hc : c = free
          · subst hc
            unfold Volume.slots
            simp only [update_self]
            exact newDirectory_inOrder sys v c _
          · have hsame := hwritten c
            unfold Volume.slots at hsame ⊢
            simpa only [update_of_ne hc] using hsame

/-- The slot of an entry that was found stays a used one while slots are cleared. -/
theorem found_used (hfound : findFname v path attr = .found o i e) (hcleared : ClearedAll v v') :
    ∀ x, (v'.slots o.dircluster)[i]? = some x → x.name.first ≠ 0 := by
  obtain ⟨-, hget, -, hne, -⟩ := findFname_found hfound
  intro x hx
  refine (hcleared _).used ?_ hx
  intro y hy
  cases hget.symm.trans hy
  exact hne

theorem deleteDirEntry_sound (hv : Sound v) (hfound : findFname v path attr = .found o i e) :
    Sound (deleteDirEntry v o.dircluster i e).2 := by
  have hlfn := removeLfnEntries_cleared o.dircluster i v
  unfold deleteDirEntry
  split
  · next v' heq =>
    rw [heq] at hlfn
    exact hlfn.sound hv
  · next v' heq =>
    rw [heq] at hlfn
    have hwiped : ClearedAll v (v'.wipeOut e) := hlfn.trans (ClearedAll.wipeOut v' e)
    have hdeleted := Cleared.set (found_used hfound hwiped) (live_deletedEntry e)
      (deletedEntry_name e)
    exact (hwiped.trans (ClearedAll.dirWrite hdeleted)).sound hv

theorem dosRmdir_sound (hv : Sound v) : Sound (dosRmdir sys v path).2 := by
  unfold dosRmdir
  split
  · exact hv
  · split
    · exact hv
    · split
      · exact hv
      · split
        · exact hv
        · split
          · exact hv
          · split
            · exact hv
            · exact hv
            · next hfound => exact deleteDirEntry_sound hv hfound

/-- A rename passes no entry with the new name over, or renames a label. -/
def renameSees (v : Volume) (path1 path2 : Bytes) (attrib : UInt8) : Bool :=
  match findFname v path1 attrib with
  | .noPath => true
  | .notFound _ => true
  | .found _ _ e => e.attrib &&& D_VOLID != 0 || sees v path2 attrib

theorem sees_of_live_renamed (hsees : renameSees v path1 path2 attrib = true)
    (hfound : findFname v path1 attrib = .found o i e)
    (hlive : live { e with name := name } = true) : sees v path2 attrib = true := by
  simp only [live, Bool.and_eq_true, beq_iff_eq] at hlive
  simpa [renameSees, hfound, hlive.2] using hsees

/-- The entry is changed in place. -/
theorem renamedInPlace_sound (hv : Sound v) (hsees : renameSees v path1 path2 attrib = true)
    (hfound : findFname v path1 attrib = .found o1 entry1 e)
    (hnot : findFname v path2 attrib = .notFound o2) (hdir : o1.dircluster = o2.dircluster)
    (hlfn : ClearedAll v v') :
    Sound (v'.dirWrite o1.dircluster entry1 { e with name := o2.namePat }) := by
  obtain ⟨-, -, -, -, hbefore⟩ := findFname_found hfound
  refine Sound.dirWrite (hlfn.sound hv) (InOrder.set ?_ ?_ ?_ ?_)
  · exact (hlfn _).inOrder (hv _)
  · exact splitPath_namePat (findFname_notFound_split hnot)
  · exact (hlfn _).before hbefore
  · intro hlive j x _ hx hxlive
    have hx' := (hlfn _).live_back hx hxlive
    rw [hdir] at hx'
    exact findFname_notFound hv hnot (sees_of_live_renamed hsees hfound hlive) j x hx' hxlive

/-- The entry is copied to the free slot of another directory, and its old slot is cleared. -/
theorem movedEntry_sound {o2' : Opened} {entry2 : Nat} (hv : Sound v)
    (hsees : renameSees v path1 path2 attrib = true)
    (hfound : findFname v path1 attrib = .found o1 entry1 e)
    (hnot : findFname v path2 attrib = .notFound o2) (hdir : o1.dircluster ≠ o2.dircluster)
    (halloc : Allocated v path2 o2' entry2 v') (hlfn : ClearedAll v' v'') :
    Sound ((v''.dirWrite o1.dircluster entry1 (deletedEntry e)).dirWrite o2'.dircluster entry2
      { e with name := o2'.namePat }) := by
  have ho2 : o2 = o2' := by
    have hsplit := (findFname_notFound_split hnot).symm.trans halloc.opened
    cases hsplit
    rfl
  subst ho2
  obtain ⟨-, hget, -, hne, -⟩ := findFname_found hfound
  have hused : ∀ x, (v''.slots o1.dircluster)[entry1]? = some x → x.name.first ≠ 0 := by
    intro x hx
    refine (hlfn _).used ?_ hx
    intro y hy
    rw [halloc.other o1.dircluster hdir] at hy
    cases hget.symm.trans hy
    exact hne
  have hdeleted := Cleared.set hused (live_deletedEntry e) (deletedEntry_name e)
  exact halloc.write hv (hlfn.trans (ClearedAll.dirWrite hdeleted)) hnot rfl
    (sees_of_live_renamed hsees hfound)

theorem dosRename_sound (hv : Sound v) (extend : Bool) (attrib : UInt8)
    (hsees : renameSees v path1 path2 attrib = true) :
    Sound (dosRename sys extend v path1 path2 attrib).2 := by
  unfold dosRename
  split
  · exact hv
  · split
    · exact hv
    · exact hv
    · next o1 entry1 e hfound =>
      split
      · exact hv
      · exact hv
      · next o2 hnot =>
        split
        · next hdir =>
          have hlfn := removeLfnEntries_cleared o1.dircluster entry1 v
          split
          · next v' heq =>
            rw [heq] at hlfn
            exact hlfn.sound hv
          · next v' heq =>
            rw [heq] at hlfn
            exact renamedInPlace_sound hv hsees hfound hnot hdir hlfn
        · next hdir =>
          split
          · exact hv
          · split
            · next herror => exact allocFindFree_error hv herror
            · next o2' entry2 v' hok =>
              have halloc := allocFindFree_ok hv hok
              have hlfn := removeLfnEntries_cleared o1.dircluster entry1 v'
              split
              · next v'' heq =>
                rw [heq] at hlfn
                exact hlfn.sound halloc.sound
              · next v'' heq =>
                rw [heq] at hlfn
                exact movedEntry_sound hv hsees hfound hnot hdir halloc hlfn

end

/-! ## 6. The calls -/

/-- All media are in order. -/
def AllSound (m : Media) : Prop := ∀ d v, m d = some v → Sound v

/-- The condition `p`, at the volume that a name is on. -/
def seenAt (m : Media) (t : TrueName) (p : Bytes → Volume → Bool) : Bool :=
  match t with
  | .error _ => true
  | .network _ => true
  | .device path => (m (driveOf path)).all (p path)
  | .file path => (m (driveOf path)).all (p path)

/-- The condition on the two paths of a rename. -/
def pathsSeen (m : Media) (path1 path2 : Bytes) (attrib : UInt8) : Bool :=
  (m (driveOf path1)).all fun v => renameSees v path1 path2 attrib

/-- The condition on each of the renames of `FcbRename`, in the state before it. -/
def fcbRenameSees (sys : Sys) (extend : Nat → Bool) (r : Rfcb) :
    Nat → Media → Dmatch → Dirent → Bool
  | 0, _, _, _ => true
  | fuel + 1, m, dmp, e =>
    let one := fcbRenameOne sys (extend fuel) m r e
    (match renamePaths sys m r e with
      | .error _ => true
      | .ok (pri, sec, _) => pathsSeen m pri sec r.xfcb.attr) &&
    (one.1 != 0 ||
      match dosFindNext (sys.env one.2) dmp with
      | .error _ => true
      | .ok (dmp', e') => fcbRenameSees sys extend r fuel one.2 dmp' e')

/-- **The condition**, on the state before a call: no live entry with the name that is to be made has
an attribute bit outside of those the call looks with. -/
def namesSeen (m : Media) (s : DirStep) : Bool :=
  match s.call with
  | .dosOpen fname mode attrib =>
    mode &&& O_CREAT == 0 || seenAt m (s.sys.truename CDS_MODE_CHECK_DEV_PATH fname) fun path v =>
      openSees v path (attrib ||| D_ARCHIVE.toUInt16).toUInt8
  | .fcbOpen fcb flags =>
    flags &&& O_CREAT == 0 ||
      seenAt m (s.sys.truename CDS_MODE_CHECK_DEV_PATH (fcbNameInit (s.sys.env m) fcb).1)
        fun path v => openSees v path (fcb.extended.elim 0 Prod.snd ||| D_ARCHIVE)
  | .mkRmdir dir mkdir =>
    !mkdir || seenAt m (s.sys.truename CDS_MODE_CHECK_DEV_PATH dir) fun path v => sees v path D_ALL
  | .rename path1 path2 =>
    match (s.sys.truename CDS_MODE_CHECK_DEV_PATH path2).place,
        (s.sys.truename CDS_MODE_CHECK_DEV_PATH path1).place with
    | .ok (sec, _), .ok (pri, _) => pathsSeen m pri sec D_ALL
    | _, _ => true
  | .fcbRename r extend =>
    match dosFindFirst (s.sys.env m) r.xfcb.attr.toUInt16 (fcbNameInit (s.sys.env m) r.xfcb).1 with
    | .error _ => true
    | .ok (dmp, e) => fcbRenameSees s.sys extend r 65536 m dmp e

section

variable {sys : Sys} {space : Space} {m : Media} {path fname : Bytes} {flags attrib : UInt16}

section

variable (hm : AllSound m)
include hm

theorem onVolume_sound {f : Volume → Int × Volume}
    (hf : ∀ v, m (driveOf path) = some v → Sound v → Sound (f v).2) :
    AllSound (onVolume m path f).2 := by
  unfold onVolume
  split
  · exact hm
  · next v hv =>
    intro d v' hd
    by_cases hdrive : d = driveOf path
    · subst hdrive
      dsimp only at hd
      rw [update_self] at hd
      cases hd
      exact hf v hv (hm _ v hv)
    · dsimp only at hd
      rw [update_of_ne hdrive] at hd
      exact hm d v' hd

theorem openFile_sound (hsees : flags &&& O_CREAT ≠ 0 →
      (m (driveOf path)).all (fun v => openSees v path attrib.toUInt8) = true) :
    AllSound (openFile sys space m path flags attrib).2 := by
  unfold openFile
  split
  · exact hm
  · split
    · exact hm
    · split
      · exact hm
      · refine onVolume_sound hm fun v hv hsound => dosOpen_sound hsound flags _ fun hcreat => ?_
        have hall := hsees hcreat
        rw [hv] at hall
        exact hall

theorem dosOpenSft_sound (hsees : flags &&& O_CREAT ≠ 0 →
      seenAt m (sys.truename CDS_MODE_CHECK_DEV_PATH fname) (fun path v =>
        openSees v path (attrib ||| D_ARCHIVE.toUInt16).toUInt8) = true) :
    AllSound (dosOpenSft sys space m fname flags attrib).2 := by
  unfold dosOpenSft
  cases htrue : sys.truename CDS_MODE_CHECK_DEV_PATH fname with
  | error rc => exact hm
  | network path => exact hm
  | device path =>
    rw [htrue] at hsees
    dsimp only
    split
    · exact hm
    · split
      · exact hm
      · exact openFile_sound hm hsees
  | file path =>
    rw [htrue] at hsees
    dsimp only
    split
    · exact hm
    · exact openFile_sound hm hsees

theorem dosOpenCall_sound (hsees : flags &&& O_CREAT ≠ 0 →
      seenAt m (sys.truename CDS_MODE_CHECK_DEV_PATH fname) (fun path v =>
        openSees v path (attrib ||| D_ARCHIVE.toUInt16).toUInt8) = true) :
    AllSound (dosOpenCall sys space m fname flags attrib).2 := by
  unfold dosOpenCall
  split
  · exact hm
  · split
    · exact hm
    · exact dosOpenSft_sound hm hsees

theorem fcbOpen_sound {fcb : Xfcb} (hsees : flags &&& O_CREAT ≠ 0 →
      seenAt m (sys.truename CDS_MODE_CHECK_DEV_PATH (fcbNameInit (sys.env m) fcb).1)
        (fun path v => openSees v path (fcb.extended.elim 0 Prod.snd ||| D_ARCHIVE)) = true) :
    AllSound (fcbOpen sys space m fcb flags).2 := by
  refine dosOpenSft_sound hm fun hcreat => ?_
  rw [if_neg hcreat, UInt16.toUInt8_or, UInt8.toUInt8_toUInt16, UInt8.toUInt8_toUInt16]
  exact hsees hcreat

theorem dosMkRmdir_sound {mkdir : Bool} (hsees : mkdir = true →
      seenAt m (sys.truename CDS_MODE_CHECK_DEV_PATH path) (fun path v => sees v path D_ALL) = true) :
    AllSound (dosMkRmdir sys space m path mkdir).2 := by
  unfold dosMkRmdir
  cases htrue : sys.truename CDS_MODE_CHECK_DEV_PATH path with
  | error rc => exact hm
  | network path => exact hm
  | device path => exact hm
  | file path =>
    rw [htrue] at hsees
    refine onVolume_sound hm fun v hv hsound => ?_
    split
    · next hmkdir =>
      have hall := hsees hmkdir
      simp only [seenAt, hv, Option.all_some] at hall
      exact dosMkdir_sound hsound hall
    · exact dosRmdir_sound hsound

end

variable {path1 path2 : Bytes} {extend : Bool}

theorem dosRenameTrue_sound (hm : AllSound m) {network : Bool} {attr : UInt8}
    (hsees : pathsSeen m path1 path2 attr = true) :
    AllSound (dosRenameTrue sys extend m path1 path2 network attr).2 := by
  unfold dosRenameTrue
  split
  · exact hm
  · split
    · exact hm
    · refine onVolume_sound hm fun v hv hsound => dosRename_sound hsound extend attr ?_
      simpa only [pathsSeen, hv, Option.all_some] using hsees

theorem fcbRenameLoop_sound (sys : Sys) (extend : Nat → Bool) (r : Rfcb) :
    ∀ (fuel : Nat) (m : Media) (dmp : Dmatch) (e : Dirent), AllSound m →
      fcbRenameSees sys extend r fuel m dmp e = true →
      AllSound (fcbRenameLoop sys extend r fuel m dmp e)
  | 0, _, _, _, hm, _ => hm
  | fuel + 1, m, dmp, e, hm, hsees => by
    unfold fcbRenameSees at hsees
    simp only [Bool.and_eq_true] at hsees
    obtain ⟨hone, hrest⟩ := hsees
    have hsound : AllSound (fcbRenameOne sys (extend fuel) m r e).2 := by
      unfold fcbRenameOne
      cases hpaths : renamePaths sys m r e with
      | error rc => exact hm
      | ok p =>
        rw [hpaths] at hone
        exact dosRenameTrue_sound hm hone
    unfold fcbRenameLoop
    dsimp only
    split
    · exact hsound
    · next hzero =>
      rw [not_not] at hzero
      simp only [hzero] at hrest
      split
      · exact hsound
      · next dmp' e' hnext =>
        rw [hnext] at hrest
        exact fcbRenameLoop_sound sys extend r fuel _ dmp' e' hsound hrest

theorem fcbRename_sound (hm : AllSound m) {extend : Nat → Bool} {r : Rfcb}
    (hsees : namesSeen m ⟨sys, space, .fcbRename r extend⟩ = true) :
    AllSound (fcbRename sys extend m r).2 := by
  unfold namesSeen at hsees
  unfold fcbRename
  dsimp only at hsees ⊢
  split
  · exact hm
  · cases hfirst : dosFindFirst (sys.env m) r.xfcb.attr.toUInt16
        (fcbNameInit (sys.env m) r.xfcb).1 with
    | error rc => exact hm
    | ok found =>
      rw [hfirst] at hsees
      exact fcbRenameLoop_sound sys extend r 65536 m found.1 found.2 hm hsees

theorem dosRenameCall_sound (hm : AllSound m)
    (hsees : namesSeen m ⟨sys, space, .rename path1 path2⟩ = true) :
    AllSound (dosRenameCall sys extend m path1 path2).2 := by
  unfold namesSeen at hsees
  unfold dosRenameCall
  dsimp only at hsees
  cases hsec : (sys.truename CDS_MODE_CHECK_DEV_PATH path2).place with
  | error rc => exact hm
  | ok sec =>
    cases hpri : (sys.truename CDS_MODE_CHECK_DEV_PATH path1).place with
    | error rc => exact hm
    | ok pri =>
      rw [hsec, hpri] at hsees
      exact dosRenameTrue_sound hm hsees

end

/-- Each call keeps the media in order if it passes no entry over. -/
theorem dirStep_sound (m : Media) (s : DirStep) (hm : AllSound m) (hsees : namesSeen m s = true) :
    AllSound (dirStep m s).2 := by
  obtain ⟨sys, space, call⟩ := s
  cases call with
  | dosOpen fname mode attrib =>
    refine dosOpenCall_sound hm fun hcreat => ?_
    simpa [namesSeen, hcreat] using hsees
  | fcbOpen fcb flags =>
    refine fcbOpen_sound hm fun hcreat => ?_
    simpa [namesSeen, hcreat] using hsees
  | mkRmdir dir mkdir =>
    refine dosMkRmdir_sound hm fun hmkdir => ?_
    simpa [namesSeen, hmkdir] using hsees
  | rename path1 path2 => exact dosRenameCall_sound hm hsees
  | fcbRename r extend => exact fcbRename_sound hm hsees

/-! ## 7. Runs -/

/-- Every directory of every medium has each name once. -/
def NamesUnique (m : Media) : Prop := ∀ d v, m d = some v → ∀ c, UniqueNames (v.slots c)

/-- Nothing lies behind the end of a directory. -/
def EndsTidy (m : Media) : Prop := ∀ d v, m d = some v → ∀ c, Tidy (v.slots c)

/-- **Names stay unique.**  From media on which each directory has each name once and nothing behind
its end, every run of creations, directory calls and renames keeps the names unique, as long as
none of them passes over an entry with the name it is about to make. -/
theorem names_stay_unique (m : Media) (steps : List DirStep) (hunique : NamesUnique m)
    (htidy : EndsTidy m) (hrun : Guarded dirStep (fun m s => namesSeen m s = true) m steps) :
    NamesUnique (run dirStep m steps) := by
  have hsound : AllSound m := fun d v hv c => ⟨hunique d v hv c, htidy d v hv c⟩
  have hend := Guarded.run_invariant dirStep_sound steps m hsound hrun
  exact fun d v hv c => (hend d v hv c).unique

/-! ## 8. A rename onto a hidden file -/

/-- The surroundings of `twoFiles`, where every name is taken to be in the root of C:. -/
def plainSys : Sys where
  defaultDrive := 2
  truename := fun _ name => .file (0x43 :: colon :: backslash :: name.drop 2)
  isDevice := fun _ => false
  validDrive := fun drive => drive == 2
  currentPath := fun _ => [0x43, colon, backslash]
  upper := id
  time := 0
  date := 0x21
  freeHndl := none
  freeSft := true
  shareError := none
  remote := 0
  remFindfirst := fun _ _ => .error DE_NFILES
  remFindnext := fun _ => .error DE_NFILES

/-- The FCB for renaming `C:A.TXT` to a name of one letter with the same extension. -/
def renameA (extended : Option (Bytes × UInt8)) (letter : UInt8) : DirStep where
  sys := plainSys
  space := ⟨true, none⟩
  call := .fcbRename
    { extended := extended
      drive := 3
      oldName := aTxt.name
      newName := aTxt.name.setFirst letter } fun _ => true

theorem InOrder.nil : InOrder [] :=
  ⟨nofun, nofun⟩

theorem twoFiles_sound : AllSound twoFiles.volume := by
  intro d v hv c
  have hvolume : v.slots c = if c = 0 then [aTxt, bTxt] ++ List.replicate 1 Dirent.zero else [] := by
    simp only [twoFiles] at hv
    split at hv
    · cases hv
      unfold Volume.slots
      by_cases hc : c = 0
      · subst hc
        decide
      · simp only [if_neg hc, take_nil, map_nil]
    · cases hv
  have ha : aTxt.name.first ≠ 0 := by decide
  have hb : bTxt.name.first ≠ 0 := by decide
  rw [hvolume]
  split
  · refine (InOrder.pair ha hb (by decide)).append_zero ?_ 1
    intro j x hx
    rcases pair_cases hx with ⟨-, rfl⟩ | ⟨-, rfl⟩
    · exact ha
    · exact hb
  · exact .nil

/-- An ordinary FCB sees the hidden file, and renames to a name that is not there. -/
theorem rename_to_new_name : NamesUnique (run dirStep twoFiles.volume [renameA none 0x43]) := by
  refine names_stay_unique _ _ (fun d v hv c => (twoFiles_sound d v hv c).unique)
    (fun d v hv c => (twoFiles_sound d v hv c).tidy) ?_
  exact ⟨by decide +kernel, trivial⟩

/-- An extended FCB with attribute 0 does not see the hidden `B.TXT`, and makes a second one. -/
theorem second_name_made : NamesUnique twoFiles.volume ∧ EndsTidy twoFiles.volume ∧
    ¬ NamesUnique (run dirStep twoFiles.volume [renameA (some ([0, 0, 0, 0, 0], 0)) 0x42]) := by
  refine ⟨fun d v hv c => (twoFiles_sound d v hv c).unique,
    fun d v hv c => (twoFiles_sound d v hv c).tidy, fun h => ?_⟩
  have hslots : ((run dirStep twoFiles.volume [renameA (some ([0, 0, 0, 0, 0], 0)) 0x42]) 2).map
      (fun v => v.slots 0) = some [{ aTxt with name := bTxt.name }, bTxt, Dirent.zero] := by
    decide +kernel
  obtain ⟨v, hv, hroot⟩ := Option.map_eq_some_iff.1 hslots
  have hzero := h 2 v hv 0 0 1 { aTxt with name := bTxt.name } bTxt (by rw [hroot]; rfl)
    (by rw [hroot]; rfl) (by decide) (by decide) rfl
  cases hzero

end SdcBoot.Dir
