/-
# What the blocks of the sector cache hold

`EnsureBlockMapped` moves blocks between the windows and extended memory; what a block holds does
not change by it (`Moved`).  A sector goes into a block in one of three ways, and all of them put one
tag there and leave the dirty tags of the other sectors (`Put`).  Writing back is a loop that takes
the dirty tags in the order of their sectors: what is due on the disk is at every moment in a dirty
tag or in the buffer (`BufferHolds`).
-/
import SdcBoot.Defrag.SectorCache
import Mathlib.Data.List.Nodup
import Mathlib.Tactic.Set

namespace SdcBoot.Defrag

open List Function

variable {α : Type}

/-! ## 1. Windows -/

namespace SectorCache

/-- No block is mapped twice. -/
def Distinct (s : SectorCache α) : Prop := ∀ i j, (s.windows i).1 = (s.windows j).1 → i = j

def Mapped (s : SectorCache α) (block : Nat) : Prop := ∃ i, (s.windows i).1 = block

variable {s : SectorCache α} {block : Nat} {i : Fin 4}

theorem window_eq_none (h : s.window block = none) : ¬ s.Mapped block := by
  rintro ⟨i, hi⟩
  have hall := find?_eq_none.mp h i (mem_finRange i)
  simp [hi] at hall

theorem window_eq_some (h : s.window block = some i) : (s.windows i).1 = block := by
  have hi := find?_some h
  simpa using hi

theorem window_of_eq (hd : s.Distinct) (h : (s.windows i).1 = block) : s.window block = some i := by
  cases hw : s.window block with
  | none => exact absurd ⟨i, h⟩ (window_eq_none hw)
  | some j => exact congrArg some (hd j i ((window_eq_some hw).trans h.symm))

theorem content_of_eq (hd : s.Distinct)
    (h : (s.windows i).1 = block) : s.content block = (s.windows i).2 := by
  rw [content, window_of_eq hd h]

theorem content_of_unmapped (h : ¬ s.Mapped block) : s.content block = s.xms block := by
  cases hw : s.window block with
  | none => rw [content, hw]
  | some j => exact absurd ⟨j, window_eq_some hw⟩ h

theorem window_isSome (h : s.Mapped block) : (s.window block).isSome = true := by
  cases hw : s.window block with
  | none => exact absurd h (window_eq_none hw)
  | some _ => rfl

/-- The tags of a mapped block are set. -/
theorem setContent_windows (tags : List (SectorTag α)) (hm : s.Mapped block) :
    ∃ i, (s.windows i).1 = block ∧
      s.setContent block tags =
        { s with windows := update s.windows i (block, tags) } := by
  obtain ⟨j, hj⟩ := hm
  cases hw : s.window block with
  | none => exact absurd ⟨j, hj⟩ (window_eq_none hw)
  | some i => exact ⟨i, window_eq_some hw, by rw [setContent, hw]⟩

/-- `setContent` is `{ s with windows := … }`. -/
theorem setContent_eq (s : SectorCache α) (block : Nat) (tags : List (SectorTag α)) :
    s.setContent block tags = { s with windows := (s.setContent block tags).windows } := by
  unfold setContent
  cases s.window block <;> rfl

/-- **Only what the block itself holds changes.** -/
theorem setContent_spec (hd : s.Distinct) (tags : List (SectorTag α)) (hm : s.Mapped block) :
    (s.setContent block tags).Distinct ∧ (s.setContent block tags).Mapped block ∧
      (s.setContent block tags).content block = tags ∧
      ∀ b, b ≠ block → (s.setContent block tags).content b = s.content b := by
  obtain ⟨i, hi, hset⟩ := setContent_windows tags hm
  rw [hset]
  have hfirst : ∀ j, (update s.windows i (block, tags) j).1 = (s.windows j).1 := by
    intro j
    rcases eq_or_ne j i with rfl | hne
    · rw [update_self, hi]
    · rw [update_of_ne hne]
  have hd' : Distinct { s with windows := update s.windows i (block, tags) } := by
    intro j k hjk
    exact hd j k (by rw [← hfirst j, ← hfirst k]; exact hjk)
  refine ⟨hd', ⟨i, by rw [hfirst i, hi]⟩, ?_, ?_⟩
  · rw [content_of_eq hd' (i := i) (by rw [hfirst i, hi])]
    simp only [update_self]
  · intro b hb
    by_cases hmb : s.Mapped b
    · obtain ⟨j, hj⟩ := hmb
      have hne : j ≠ i := by
        rintro rfl
        exact hb (hj.symm.trans hi)
      rw [content_of_eq hd' (i := j) (by rw [hfirst j, hj]), content_of_eq hd hj]
      simp only [update_of_ne hne]
    · have hmb' : ¬ Mapped { s with windows := update s.windows i (block, tags) } b := by
        rintro ⟨j, hj⟩
        exact hmb ⟨j, by rw [← hfirst j]; exact hj⟩
      rw [content_of_unmapped hmb', content_of_unmapped hmb]

/-- Blocks were moved between the windows and extended memory. -/
structure Moved (s s' : SectorCache α) : Prop where
  distinct : s'.Distinct
  content : ∀ b, s'.content b = s.content b
  eq : s' = { s with
    windows := s'.windows
    xms := s'.xms
    nextBlockPointer := s'.nextBlockPointer
    ticks := s'.ticks }

theorem moved_tick (hd : s.Distinct) (n : Nat) :
    Moved s { s with ticks := n } := ⟨hd, fun _ => rfl, rfl⟩

theorem ensureBlockMapped_mapped (e : CacheEnv)
    (h : s.Mapped block) : ensureBlockMapped e block s = (true, s) := by
  rw [ensureBlockMapped, if_pos (window_isSome h)]

theorem moved_into (hd : s.Distinct) (hm : ¬ s.Mapped block) (i n : Fin 4) (k : Nat) :
    Moved s { s with
      windows := update s.windows i
        (block, update s.xms (s.windows i).1 (s.windows i).2 block)
      xms := update s.xms (s.windows i).1 (s.windows i).2
      nextBlockPointer := n
      ticks := k } := by
  have hself : (s.windows i).1 ≠ block := fun h => hm ⟨i, h⟩
  have hd' : Distinct { s with
      windows := update s.windows i
        (block, update s.xms (s.windows i).1 (s.windows i).2 block)
      xms := update s.xms (s.windows i).1 (s.windows i).2
      nextBlockPointer := n
      ticks := k } := by
    intro j l hjl
    rcases eq_or_ne j i with rfl | hj <;> rcases eq_or_ne l j with rfl | hl
    · rfl
    · simp only [update_self, update_of_ne hl] at hjl
      exact absurd ⟨l, hjl.symm⟩ hm
    · rfl
    · rcases eq_or_ne l i with rfl | hli
      · simp only [update_self, update_of_ne hj] at hjl
        exact absurd ⟨j, hjl⟩ hm
      · simp only [update_of_ne hj, update_of_ne hli] at hjl
        exact hd j l hjl
  refine ⟨hd', ?_, rfl⟩
  intro b
  by_cases hmb : s.Mapped b
  · obtain ⟨j, hj⟩ := hmb
    rw [content_of_eq hd hj]
    rcases eq_or_ne j i with rfl | hne
    · -- the block that was moved out
      rw [content_of_unmapped]
      · simp only [← hj, update_self]
      · rintro ⟨l, hl⟩
        rcases eq_or_ne l j with rfl | hlj
        · simp only [update_self] at hl
          exact hself (hj.trans hl.symm)
        · simp only [update_of_ne hlj] at hl
          exact hlj (hd l j (hl.trans hj.symm))
    · rw [content_of_eq hd' (i := j) (by simp only [update_of_ne hne]; exact hj)]
      simp only [update_of_ne hne]
  · rw [content_of_unmapped hmb]
    have hbi : b ≠ (s.windows i).1 := fun h => hmb ⟨i, h.symm⟩
    rcases eq_or_ne b block with rfl | hb
    · rw [content_of_eq hd' (i := i) (by simp only [update_self])]
      simp only [update_self, update_of_ne hbi]
    · rw [content_of_unmapped]
      · simp only [update_of_ne hbi]
      · rintro ⟨l, hl⟩
        rcases eq_or_ne l i with rfl | hli
        · simp only [update_self] at hl
          exact hb hl.symm
        · simp only [update_of_ne hli] at hl
          exact hmb ⟨l, hl⟩

theorem ensureBlockMapped_moved (e : CacheEnv) (block : Nat) (hd : s.Distinct) :
    Moved s (ensureBlockMapped e block s).2 ∧
      ((ensureBlockMapped e block s).1 = true → (ensureBlockMapped e block s).2.Mapped block) := by
  by_cases hm : s.Mapped block
  · rw [ensureBlockMapped_mapped e hm]
    exact ⟨moved_tick hd s.ticks, fun _ => hm⟩
  · have hw : ¬ (s.window block).isSome = true := by
      intro h
      obtain ⟨i, hi⟩ := Option.isSome_iff_exists.mp h
      exact hm ⟨i, window_eq_some hi⟩
    unfold ensureBlockMapped
    rw [if_neg hw]
    cases hx : e.xmsMove s.ticks with
    | false => exact ⟨moved_tick hd _, nofun⟩
    | true =>
      refine ⟨moved_into hd hm _ _ _, fun _ => ⟨s.nextBlockPointer, ?_⟩⟩
      simp

theorem ensureBlockMapped_of_xms {e : CacheEnv} (he : ∀ n, e.xmsMove n = true) (block : Nat)
    (s : SectorCache α) : (ensureBlockMapped e block s).1 = true := by
  unfold ensureBlockMapped
  split
  · rfl
  · rw [if_pos (he _)]

end SectorCache

/-! ## 2. The tags of a block -/

/-- There is a dirty tag of the sector. -/
def Unwritten (tags : List (SectorTag α)) (x : Nat) : Prop :=
  ∃ t ∈ tags, t.sector = x ∧ t.dirty = true

instance (tags : List (SectorTag α)) (x : Nat) : Decidable (Unwritten tags x) :=
  inferInstanceAs (Decidable (∃ t ∈ tags, _))

/-- What a block may hold, where the sectors have the data `vol` and there are `n` blocks. -/
structure BlockFits (vol : Nat → α) (n block : Nat) (tags : List (SectorTag α)) : Prop where
  length : tags.length ≤ TAGSPERBLOCK
  nodup : (tags.map SectorTag.sector).Nodup
  data : ∀ t ∈ tags, t.data = vol t.sector
  home : ∀ t ∈ tags, t.sector / TAGSPERBLOCK % n = block
  below : ∀ t ∈ tags, t.dirty = true → t.sector < ULONG_MAX

/-- A tag of sector `x` was put among the tags, and no dirty tag of another sector was lost. -/
structure Put (x : Nat) (d : α) (dirty : Bool) (tags tags' : List (SectorTag α)) : Prop where
  length : tags'.length ≤ TAGSPERBLOCK
  nodup : (tags'.map SectorTag.sector).Nodup
  mem : ∀ t ∈ tags', (t.sector = x ∧ t.data = d ∧ t.dirty = dirty) ∨
    (t.sector ≠ x ∧ ∃ u ∈ tags, u.sector = t.sector ∧ u.data = t.data ∧ u.dirty = t.dirty)
  put : ∃ t ∈ tags', t.sector = x
  others : ∀ y, y ≠ x → Unwritten tags y → Unwritten tags' y

theorem map_sector_redistributeAges (tags : List (SectorTag α)) :
    (redistributeAges tags).map SectorTag.sector = tags.map SectorTag.sector := by
  rw [redistributeAges, map_map]
  rfl

variable {x : Nat} {tags : List (SectorTag α)} {t : SectorTag α} {vol : Nat → α} {e : CacheEnv}

variable {d : α} {dirty : Bool} {tags' : List (SectorTag α)} {f : SectorTag α → SectorTag α}
  {o : Nat} {s : SectorCache α} {c : Collected α}

/-- The ages play no part. -/
theorem Put.redistributeAges
    (h : Put x d dirty tags tags') : Put x d dirty tags (redistributeAges tags') where
  length := by
    rw [Defrag.redistributeAges, length_map]
    exact h.length
  nodup := by
    rw [map_sector_redistributeAges]
    exact h.nodup
  mem := by
    intro t ht
    obtain ⟨u, hu, rfl⟩ := mem_map.mp ht
    exact h.mem u hu
  put := by
    obtain ⟨t, ht, hx⟩ := h.put
    exact ⟨_, mem_map.mpr ⟨t, ht, rfl⟩, hx⟩
  others := by
    intro y hy hdue
    obtain ⟨t, ht, hx, hd⟩ := h.others y hy hdue
    exact ⟨_, mem_map.mpr ⟨t, ht, rfl⟩, hx, hd⟩

/-- One tag is replaced: that of the sector itself, or a clean one where the sector has none. -/
theorem put_replace {l r : List (SectorTag α)} {w : SectorTag α}
    (hlen : (l ++ t :: r).length ≤ TAGSPERBLOCK) (hnd : ((l ++ t :: r).map SectorTag.sector).Nodup)
    (hx : w.sector = x)
    (hold : t.sector = x ∨ x ∉ (l ++ t :: r).map SectorTag.sector ∧ t.dirty = false) :
    Put x w.data w.dirty (l ++ t :: r) (l ++ w :: r) := by
  have hrest : ∀ u, u ∈ l ∨ u ∈ r → u.sector ≠ x := by
    intro u hu hux
    have hmem : x ∈ l.map SectorTag.sector ∨ x ∈ r.map SectorTag.sector :=
      hu.imp (fun h => mem_map.mpr ⟨u, h, hux⟩) (fun h => mem_map.mpr ⟨u, h, hux⟩)
    rcases hold with ht | ⟨hnot, -⟩
    · rw [map_append, map_cons, nodup_middle, nodup_cons] at hnd
      exact hnd.1 (by rw [ht]; exact mem_append.mpr hmem)
    · refine hnot ?_
      rw [map_append, map_cons]
      rcases hmem with h | h
      · exact mem_append_left _ h
      · exact mem_append_right _ (.tail _ h)
  refine ⟨?_, ?_, ?_, ⟨w, by simp, hx⟩, ?_⟩
  · simpa using hlen
  · rw [map_append, map_cons, nodup_middle, nodup_cons] at hnd ⊢
    refine ⟨?_, hnd.2⟩
    intro hmem
    rw [← map_append] at hmem
    obtain ⟨u, hu, hux⟩ := mem_map.mp hmem
    exact hrest u (mem_append.mp hu) (hux.trans hx)
  · intro u hu
    rcases mem_append.mp hu with hl | hr
    · exact .inr ⟨hrest u (.inl hl), u, mem_append_left _ hl, rfl, rfl, rfl⟩
    · rcases mem_cons.mp hr with rfl | hr
      · exact .inl ⟨hx, rfl, rfl⟩
      · exact .inr ⟨hrest u (.inr hr), u, by simp [hr], rfl, rfl, rfl⟩
  · rintro y hy ⟨u, hu, hux, hud⟩
    rcases mem_append.mp hu with hl | hr
    · exact ⟨u, mem_append_left _ hl, hux, hud⟩
    · rcases mem_cons.mp hr with rfl | hr
      · rcases hold with hux' | ⟨-, hclean⟩
        · exact absurd (hux.symm.trans hux') hy
        · exact absurd hud (by simp [hclean])
      · exact ⟨u, by simp [hr], hux, hud⟩

theorem put_append (hlen : tags.length < TAGSPERBLOCK) (hnd : (tags.map SectorTag.sector).Nodup)
    (hx : t.sector = x) (hnot : x ∉ tags.map SectorTag.sector) :
    Put x t.data t.dirty tags (tags ++ [t]) := by
  refine ⟨?_, ?_, ?_, ⟨t, by simp, hx⟩, ?_⟩
  · simp only [length_append, length_singleton]
    omega
  · rw [map_append, map_singleton, nodup_append_comm, singleton_append, nodup_cons]
    exact ⟨by rw [hx]; exact hnot, hnd⟩
  · intro u hu
    rcases mem_append.mp hu with hl | hr
    · refine .inr ⟨?_, u, hl, rfl, rfl, rfl⟩
      intro hux
      exact hnot (mem_map.mpr ⟨u, hl, hux⟩)
    · rw [mem_singleton.mp hr]
      exact .inl ⟨hx, rfl, rfl⟩
  · rintro y - ⟨u, hu, h⟩
    exact ⟨u, mem_append_left _ hu, h⟩

/-- The block still holds what it may, with the new data for the sector. -/
theorem Put.fits {n block : Nat} (h : Put x d dirty tags tags') (hfits : BlockFits vol n block tags)
    (hx : x / TAGSPERBLOCK % n = block) (hbelow : dirty = true → x < ULONG_MAX) :
    BlockFits (update vol x d) n block tags' where
  length := h.length
  nodup := h.nodup
  data := by
    intro t ht
    rcases h.mem t ht with ⟨htx, htd, -⟩ | ⟨htx, u, hu, hux, hud, -⟩
    · rw [htx, update_self, htd]
    · rw [update_of_ne htx, ← hux, ← hfits.data u hu, hud]
  home := by
    intro t ht
    rcases h.mem t ht with ⟨htx, -⟩ | ⟨-, u, hu, hux, -⟩
    · rw [htx, hx]
    · rw [← hux]
      exact hfits.home u hu
  below := by
    intro t ht htd
    rcases h.mem t ht with ⟨htx, -, hd⟩ | ⟨-, u, hu, hux, -, hud⟩
    · rw [htx]
      exact hbelow (hd.symm.trans htd)
    · rw [← hux]
      exact hfits.below u hu (hud.trans htd)

theorem updateTag_some :
    ∀ {tags tags' : List (SectorTag α)}, updateTag x f tags = some tags' →
      ∃ l t r, tags = l ++ t :: r ∧ t.sector = x ∧ tags' = l ++ f t :: r
  | [], _, h => by simp [updateTag] at h
  | t :: ts, tags', h => by
    rw [updateTag] at h
    split at h
    · next ht =>
      injection h with h
      exact ⟨[], t, ts, rfl, ht, h.symm⟩
    · obtain ⟨ts', hts', rfl⟩ := Option.map_eq_some_iff.mp h
      obtain ⟨l, u, r, rfl, hu, rfl⟩ := updateTag_some hts'
      exact ⟨t :: l, u, r, rfl, hu, rfl⟩

theorem updateTag_none :
    ∀ {tags : List (SectorTag α)}, updateTag x f tags = none ↔ x ∉ tags.map SectorTag.sector
  | [] => by simp [updateTag]
  | t :: ts => by
    rw [updateTag, map_cons, mem_cons, not_or]
    by_cases ht : t.sector = x
    · rw [if_pos ht]
      exact ⟨nofun, fun h => absurd ht.symm h.1⟩
    · rw [if_neg ht, Option.map_eq_none_iff, updateTag_none]
      exact ⟨fun h => ⟨fun hx => ht hx.symm, h⟩, fun h => h.2⟩

/-- `oldestFrom` finds a clean tag. -/
theorem oldestFrom_some : ∀ {tags : List (SectorTag α)} {i min : Nat}
    {found : Option Nat}, oldestFrom i min found tags = some o →
      found = some o ∨ ∃ l t r, tags = l ++ t :: r ∧ o = i + l.length ∧ t.dirty = false
  | [], _, _, _, h => .inl h
  | t :: ts, i, min, found, h => by
    rw [oldestFrom] at h
    split at h
    · next hnew =>
      rcases oldestFrom_some h with hi | ⟨l, u, r, rfl, rfl, hu⟩
      · injection hi with hi
        exact .inr ⟨[], t, ts, rfl, by simp [hi], hnew.1⟩
      · exact .inr ⟨t :: l, u, r, rfl, by simp only [length_cons]; omega, hu⟩
    · rcases oldestFrom_some h with hi | ⟨l, u, r, rfl, rfl, hu⟩
      · exact .inl hi
      · exact .inr ⟨t :: l, u, r, rfl, by simp only [length_cons]; omega, hu⟩

theorem oldestFrom_none : ∀ {tags : List (SectorTag α)} {i min : Nat} {found : Option Nat},
    oldestFrom i min found tags = none →
      found = none ∧ ∀ t ∈ tags, t.dirty = true ∨ min ≤ t.age
  | [], _, _, _, h => ⟨h, fun _ ht => absurd ht (by simp)⟩
  | t :: ts, i, min, found, h => by
    rw [oldestFrom] at h
    split at h
    · exact absurd (oldestFrom_none h).1 (by simp)
    · next hold =>
      obtain ⟨hfound, hall⟩ := oldestFrom_none h
      refine ⟨hfound, ?_⟩
      intro u hu
      rcases mem_cons.mp hu with rfl | hu
      · cases hd : u.dirty with
        | true => exact .inl rfl
        | false => exact .inr (not_lt.mp fun hlt => hold ⟨hd, hlt⟩)
      · exact hall u hu

theorem set_middle (l r : List (SectorTag α)) (t t' : SectorTag α) :
    (l ++ t :: r).set l.length t' = l ++ t' :: r := by
  rw [set_append_right _ _ le_rfl, Nat.sub_self, set_cons_zero]

/-- **The oldest clean tag may be replaced.** -/
theorem put_oldest (hlen : tags.length ≤ TAGSPERBLOCK) (hnd : (tags.map SectorTag.sector).Nodup)
    (hx : t.sector = x) (hnot : x ∉ tags.map SectorTag.sector) (ho : getOldestTag tags = some o) :
    Put x t.data t.dirty tags (tags.set o t) := by
  rcases oldestFrom_some ho with h | ⟨l, u, r, rfl, rfl, hu⟩
  · cases h
  · rw [Nat.zero_add, set_middle]
    exact put_replace hlen hnd hx (.inr ⟨hnot, hu⟩)

/-! ## 3. The dirty tags of a block -/

def SectorTag.clean (t : SectorTag α) : SectorTag α := { t with dirty := false }

theorem clean_of_clean (h : t.dirty = false) : t.clean = t := by
  cases t
  simp only at h
  rw [SectorTag.clean, h]

theorem map_clean_of_clean (h : ∀ t ∈ tags, t.dirty = false) : tags.map SectorTag.clean = tags :=
  (map_congr_left fun t ht => clean_of_clean (h t ht)).trans (map_id' tags)

theorem getFirstDirtyTag_none : ∀ {tags : List (SectorTag α)}, getFirstDirtyTag tags = none →
    ∀ t ∈ tags, t.dirty = true → ¬ t.sector < ULONG_MAX
  | [], _, _, ht, _ => nomatch ht
  | u :: us, h, t, ht, hd => by
    rw [getFirstDirtyTag] at h
    cases hus : getFirstDirtyTag us with
    | none =>
      simp only [hus] at h
      rcases mem_cons.mp ht with rfl | ht
      · intro hlt
        rw [if_pos ⟨hd, hlt⟩] at h
        cases h
      · exact getFirstDirtyTag_none hus t ht hd
    | some v =>
      simp only [hus] at h
      split at h <;> cases h

/-- **The first dirty tag has the least sector.** -/
theorem getFirstDirtyTag_some : ∀ {tags : List (SectorTag α)} {t : SectorTag α},
    getFirstDirtyTag tags = some t → t ∈ tags ∧ t.dirty = true ∧
      ∀ u ∈ tags, u.dirty = true → u.sector < ULONG_MAX → t.sector ≤ u.sector
  | [], _, h => by simp [getFirstDirtyTag] at h
  | u :: us, t, h => by
    rw [getFirstDirtyTag] at h
    cases hus : getFirstDirtyTag us with
    | none =>
      simp only [hus] at h
      split at h
      · next hu =>
        injection h with h
        subst h
        refine ⟨mem_cons_self, hu.1, ?_⟩
        intro v hv hvd hlt
        rcases mem_cons.mp hv with rfl | hv
        · exact le_refl _
        · exact absurd hlt (getFirstDirtyTag_none hus v hv hvd)
      · exact absurd h (by simp)
    | some v =>
      simp only [hus] at h
      obtain ⟨hv, hvd, hleast⟩ := getFirstDirtyTag_some hus
      split at h
      · next hu =>
        injection h with h
        subst h
        refine ⟨mem_cons_self, hu.1, ?_⟩
        intro w hw hwd hlt
        rcases mem_cons.mp hw with rfl | hw
        · exact le_rfl
        · exact hu.2.trans (hleast w hw hwd hlt)
      · next hu =>
        injection h with h
        subst h
        refine ⟨mem_cons_of_mem _ hv, hvd, ?_⟩
        intro w hw hwd hlt
        rcases mem_cons.mp hw with rfl | hw
        · exact le_of_lt (not_le.mp fun hle => hu ⟨hwd, hle⟩)
        · exact hleast w hw hwd hlt

theorem cleanTag_eq : ∀ {tags : List (SectorTag α)}, Unwritten tags x →
    ∃ l t r, tags = l ++ t :: r ∧ t.sector = x ∧ t.dirty = true ∧
      cleanTag x tags = l ++ t.clean :: r
  | [], h => by
    obtain ⟨t, ht, -⟩ := h
    cases ht
  | u :: us, h => by
    rw [cleanTag]
    by_cases hu : u.sector = x ∧ u.dirty
    · rw [if_pos hu]
      exact ⟨[], u, us, rfl, hu.1, hu.2, rfl⟩
    · rw [if_neg hu]
      have hus : Unwritten us x := by
        obtain ⟨t, ht, htx⟩ := h
        rcases mem_cons.mp ht with rfl | ht
        · exact absurd htx hu
        · exact ⟨t, ht, htx⟩
      obtain ⟨l, t, r, rfl, htx, htd, hclean⟩ := cleanTag_eq hus
      exact ⟨u :: l, t, r, rfl, htx, htd, by rw [hclean]; rfl⟩

/-- **One tag was made clean**: the others are the same, and there is one dirty tag less. -/
theorem cleanTag_spec (h : Unwritten tags x) :
    (cleanTag x tags).map SectorTag.clean = tags.map SectorTag.clean ∧
      (cleanTag x tags).countP (·.dirty) + 1 = tags.countP (·.dirty) ∧
      (∀ t ∈ cleanTag x tags, t.dirty = true → t ∈ tags) ∧
      ∀ y, y ≠ x → Unwritten tags y → Unwritten (cleanTag x tags) y := by
  obtain ⟨l, t, r, rfl, htx, htd, hclean⟩ := cleanTag_eq h
  rw [hclean]
  refine ⟨?_, ?_, ?_, ?_⟩
  · simp [SectorTag.clean]
  · simp [SectorTag.clean, htd]
    omega
  · intro u hu hud
    rcases mem_append.mp hu with hl | hr
    · exact mem_append_left _ hl
    · rcases mem_cons.mp hr with rfl | hr
      · cases hud
      · exact mem_append_right _ (.tail _ hr)
  · rintro y hy ⟨u, hu, huy, hud⟩
    rcases mem_append.mp hu with hl | hr
    · exact ⟨u, mem_append_left _ hl, huy, hud⟩
    · rcases mem_cons.mp hr with rfl | hr
      · exact absurd (huy.symm.trans htx) hy
      · exact ⟨u, by simp [hr], huy, hud⟩

theorem cleanTag_data : ∀ {tags : List (SectorTag α)},
    (∀ t ∈ tags, t.data = vol t.sector) → ∀ t ∈ cleanTag x tags, t.data = vol t.sector
  | [], _, _, ht => nomatch ht
  | u :: us, h, t, ht => by
    rw [cleanTag] at ht
    split at ht
    · rcases mem_cons.mp ht with rfl | ht
      · exact h u mem_cons_self
      · exact h t (.tail _ ht)
    · rcases mem_cons.mp ht with rfl | ht
      · exact h t mem_cons_self
      · exact cleanTag_data (fun v hv => h v (.tail _ hv)) t ht

theorem due_of_cleanTag {y : Nat} (hsub : ∀ t ∈ cleanTag x tags, t.dirty = true → t ∈ tags)
    (h : Unwritten (cleanTag x tags) y) : Unwritten tags y := by
  obtain ⟨t, ht, hy, hd⟩ := h
  exact ⟨t, hsub t ht hd, hy, hd⟩

/-- With one tag for a sector, the sector that was made clean is due no more. -/
theorem not_due_cleanTag (h : Unwritten tags x)
    (hnd : (tags.map SectorTag.sector).Nodup) : ¬ Unwritten (cleanTag x tags) x := by
  obtain ⟨l, t, r, rfl, htx, htd, hclean⟩ := cleanTag_eq h
  rw [hclean]
  rw [map_append, map_cons, nodup_middle, nodup_cons, ← map_append] at hnd
  rintro ⟨u, hu, hux, hud⟩
  have hlr : u ∈ l ++ r := by
    rcases mem_append.mp hu with hl | hr
    · exact mem_append_left _ hl
    · rcases mem_cons.mp hr with rfl | hr
      · cases hud
      · exact mem_append_right _ hr
  exact hnd.1 (mem_map.mpr ⟨u, hlr, hux.trans htx.symm⟩)

/-! ## 4. Writing back -/

/-- Sectors of the disk were given the data `vol`, and nothing else changed. -/
structure Wrote (vol : Nat → α) (s s' : SectorCache α) : Prop where
  eq : s' = { s with
    disk := s'.disk
    ticks := s'.ticks }
  disk : ∀ x, s'.disk x = s.disk x ∨ s'.disk x = vol x

theorem Wrote.refl (vol : Nat → α) (s : SectorCache α) : Wrote vol s s := ⟨rfl, fun _ => .inl rfl⟩

theorem Wrote.trans {t u : SectorCache α} (h : Wrote vol s t)
    (h' : Wrote vol t u) : Wrote vol s u where
  eq := by
    rw [h'.eq, h.eq]
  disk := by
    intro x
    rcases h'.disk x with hx | hx
    · rw [hx]
      exact h.disk x
    · exact .inr hx

theorem Wrote.mono {s' : SectorCache α} (h : Wrote vol s s')
    (hx : s.disk x = vol x) : s'.disk x = vol x := by
  rcases h.disk x with h | h
  · rw [h, hx]
  · exact h

/-- The sector is among those that are collected. -/
def InBuffer (c : Collected α) (x : Nat) : Prop :=
  c.firstsector ≠ 0 ∧ c.firstsector ≤ x ∧ x ≤ c.prevsector

/-- What is collected are the sectors from `firstsector` to `prevsector`, and those that are dirty
come behind them. -/
def BufferHolds (vol : Nat → α) (tags : List (SectorTag α)) (c : Collected α) : Prop :=
  c.firstsector ≠ 0 → c.firstsector ≤ c.prevsector ∧
    (∀ k, k ≤ c.prevsector - c.firstsector → c.writeBuf[k]? = some (vol (c.firstsector + k))) ∧
    ∀ y, Unwritten tags y → c.prevsector < y

/-- **What is collected is written.** -/
theorem flush_spec (vol : Nat → α) (s : SectorCache α) (hle : c.firstsector ≤ c.prevsector)
    (hbuf : ∀ k, k ≤ c.prevsector - c.firstsector →
      c.writeBuf[k]? = some (vol (c.firstsector + k))) :
    ((flush e c s).1 = true → Wrote vol s (flush e c s).2 ∧
        ∀ x, c.firstsector ≤ x → x ≤ c.prevsector → (flush e c s).2.disk x = vol x) ∧
      ((flush e c s).1 = false → ∃ n, e.writeFunc n = false) := by
  have hget : ∀ x, c.firstsector ≤ x →
      (c.writeBuf.take (c.prevsector - c.firstsector + 1))[x - c.firstsector]? =
        if x ≤ c.prevsector then some (vol x) else none := by
    intro x hx
    rw [getElem?_take]
    by_cases hxp : x ≤ c.prevsector
    · rw [if_pos (by omega), if_pos hxp, hbuf _ (by omega), Nat.add_sub_cancel' hx]
    · rw [if_neg (by omega), if_neg hxp]
  unfold flush
  cases hw : e.writeFunc s.ticks with
  | false => exact ⟨nofun, fun _ => ⟨_, hw⟩⟩
  | true =>
    refine ⟨fun _ => ⟨⟨rfl, ?_⟩, ?_⟩, nofun⟩
    · intro x
      simp only [if_true, writeDisk]
      split
      · next hx =>
        rw [hget x hx]
        split
        · exact .inr rfl
        · exact .inl rfl
      · exact .inl rfl
    · intro x hx hxp
      simp only [if_true, writeDisk]
      rw [if_pos hx, hget x hx, if_pos hxp]
      rfl

/-- Only the first sector is in a buffer that is begun anew. -/
theorem bufferHolds_single (hdata : t.data = vol t.sector)
    (hleast : ∀ y, Unwritten tags y → t.sector < y) (area : Nat) :
    BufferHolds vol tags ⟨t.sector, t.sector, area, [t.data]⟩ := by
  intro _
  refine ⟨le_rfl, ?_, hleast⟩
  intro k hk
  obtain rfl : k = 0 := by
    simp only at hk
    omega
  simp [hdata]

/-- **A dirty tag is collected**: what was collected is still so or on the disk. -/
theorem collect_spec (s : SectorCache α) (h : BufferHolds vol tags c)
    (hdue : Unwritten tags t.sector) (hdata : t.data = vol t.sector)
    (hnd : (tags.map SectorTag.sector).Nodup) (hleast : ∀ y, Unwritten tags y → t.sector ≤ y)
    (hzero : t.sector ≠ 0) :
    ((collect e t c s).1 = true →
        BufferHolds vol (cleanTag t.sector tags) (collect e t c s).2.1 ∧
        Wrote vol s (collect e t c s).2.2 ∧ InBuffer (collect e t c s).2.1 t.sector ∧
        ∀ x, InBuffer c x →
          (collect e t c s).2.2.disk x = vol x ∨ InBuffer (collect e t c s).2.1 x) ∧
      ((collect e t c s).1 = false → ∃ n, e.writeFunc n = false) := by
  have hafter : ∀ y, Unwritten (cleanTag t.sector tags) y → t.sector < y := by
    intro y hy
    have hne : y ≠ t.sector := by
      rintro rfl
      exact not_due_cleanTag hdue hnd hy
    obtain ⟨u, hu, huy, hud⟩ := hy
    have hle := hleast y ⟨u, (cleanTag_spec hdue).2.2.1 u hu hud, huy, hud⟩
    omega
  have hself : InBuffer (⟨t.sector, t.sector, t.area, [t.data]⟩ : Collected α) t.sector :=
    ⟨hzero, le_rfl, le_rfl⟩
  unfold collect
  by_cases hfirst : c.firstsector = 0
  · -- the first that is collected
    rw [if_neg fun h => h.1 hfirst, if_pos hfirst]
    refine ⟨fun _ => ?_, nofun⟩
    simp only [Nat.sub_self]
    exact ⟨bufferHolds_single hdata hafter _, Wrote.refl vol s, hself,
      fun x hx => absurd hfirst hx.1⟩
  · by_cases hgap : c.prevsector + 1 ≠ t.sector ∨ c.prevarea ≠ t.area
    · -- what was collected is written
      rw [if_pos ⟨hfirst, hgap⟩]
      obtain ⟨hok, hfail⟩ := flush_spec (e := e) vol s (h hfirst).1 (h hfirst).2.1
      simp only [Nat.sub_self]
      refine ⟨fun hr => ?_, hfail⟩
      obtain ⟨hwrote, hdisk⟩ := hok hr
      exact ⟨bufferHolds_single hdata hafter _, hwrote, hself,
        fun x hx => .inl (hdisk x hx.2.1 hx.2.2)⟩
    · -- the sector comes right behind what was collected
      rw [if_neg fun h => hgap h.2, if_neg hfirst]
      obtain ⟨hle, hbuf, -⟩ := h hfirst
      refine ⟨fun _ => ⟨?_, Wrote.refl vol s, ⟨hfirst, ?_, le_rfl⟩, ?_⟩,
        nofun⟩
      · intro _
        refine ⟨by simp only; omega, ?_, hafter⟩
        intro k hk
        simp only at hk ⊢
        have hlen : (c.writeBuf.take (t.sector - c.firstsector)).length =
            t.sector - c.firstsector := by
          have hlast := hbuf _ le_rfl
          have := (List.getElem?_eq_some_iff.mp hlast).1
          rw [length_take]
          omega
        rcases lt_or_ge k (t.sector - c.firstsector) with hlt | hge
        · rw [getElem?_append_left (by omega), getElem?_take, if_pos hlt,
            hbuf k (by omega)]
        · obtain rfl : k = t.sector - c.firstsector := by omega
          rw [getElem?_append_right (by omega), hlen, Nat.sub_self,
            Nat.add_sub_cancel' (by omega), ← hdata]
          rfl
      · simp only
        omega
      · rintro x ⟨-, hx, hxp⟩
        exact .inr ⟨hfirst, hx, by simp only; omega⟩

/-- **Every dirty tag is written**, at once or into the buffer: after the loop all tags are clean,
and what was due is on the disk or still collected. -/
theorem writeBackLoop_spec (buffer : Bool) (start : List (SectorTag α)) :
    ∀ (fuel : Nat) (tags : List (SectorTag α)) (c : Collected α) (s : SectorCache α),
      tags.map SectorTag.clean = start.map SectorTag.clean →
      (tags.map SectorTag.sector).Nodup → (∀ t ∈ tags, t.data = vol t.sector) →
      (∀ t ∈ tags, t.dirty = true → t.sector < ULONG_MAX) → tags.countP (·.dirty) ≤ fuel →
      (buffer = true → BufferHolds vol tags c ∧ ¬ Unwritten tags 0) →
      ((writeBackLoop e buffer fuel tags c s).1 = true →
        (writeBackLoop e buffer fuel tags c s).2.1 = start.map SectorTag.clean ∧
        Wrote vol s (writeBackLoop e buffer fuel tags c s).2.2.2 ∧
        (buffer = true → BufferHolds vol [] (writeBackLoop e buffer fuel tags c s).2.2.1) ∧
        ∀ x, Unwritten tags x ∨ (buffer = true ∧ InBuffer c x) →
          (writeBackLoop e buffer fuel tags c s).2.2.2.disk x = vol x ∨
            (buffer = true ∧ InBuffer (writeBackLoop e buffer fuel tags c s).2.2.1 x)) ∧
      ((writeBackLoop e buffer fuel tags c s).1 = false → ∃ n, e.writeFunc n = false)
  | fuel, tags, c, s, hstart, hnd, hdata, hbelow, hfuel, hbuf => by
    have hdone : (∀ t ∈ tags, t.dirty = false) →
        tags = start.map SectorTag.clean ∧ Wrote vol s s ∧ (buffer = true → BufferHolds vol [] c) ∧
          ∀ x, Unwritten tags x ∨ (buffer = true ∧ InBuffer c x) →
            s.disk x = vol x ∨ (buffer = true ∧ InBuffer c x) := by
      intro hclean
      refine ⟨by rw [← hstart, map_clean_of_clean hclean], Wrote.refl vol s, ?_, ?_⟩
      · intro hb hfirst
        obtain ⟨hle, hget, -⟩ := (hbuf hb).1 hfirst
        refine ⟨hle, hget, ?_⟩
        rintro y ⟨u, hu, -⟩
        cases hu
      · rintro x (⟨t, ht, -, htd⟩ | hx)
        · exact absurd htd (by simp [hclean t ht])
        · exact .inr hx
    cases fuel with
    | zero =>
      refine ⟨fun _ => hdone ?_, nofun⟩
      intro t ht
      have hzero := countP_eq_zero.mp (Nat.le_zero.mp hfuel) t ht
      simpa using hzero
    | succ fuel =>
      rw [writeBackLoop]
      cases hf : getFirstDirtyTag tags with
      | none =>
        refine ⟨fun _ => hdone ?_, nofun⟩
        intro t ht
        cases hd : t.dirty with
        | false => rfl
        | true => exact absurd (hbelow t ht hd) (getFirstDirtyTag_none hf t ht hd)
      | some t =>
        obtain ⟨ht, htd, hleast⟩ := getFirstDirtyTag_some hf
        have hdue : Unwritten tags t.sector := ⟨t, ht, rfl, htd⟩
        obtain ⟨hclean, hcount, hsub, hothers⟩ := cleanTag_spec hdue
        have hsectors : (cleanTag t.sector tags).map SectorTag.sector =
            tags.map SectorTag.sector := by
          have := congrArg (List.map SectorTag.sector) hclean
          rwa [map_map, map_map] at this
        -- what a round leaves to the rest of the loop
        have hround : ∀ (c' : Collected α) (s' : SectorCache α), Wrote vol s s' →
            (buffer = true → BufferHolds vol (cleanTag t.sector tags) c') →
            (∀ x, x = t.sector ∨ (buffer = true ∧ InBuffer c x) →
              s'.disk x = vol x ∨ (buffer = true ∧ InBuffer c' x)) →
            let r := writeBackLoop e buffer fuel (cleanTag t.sector tags) c' s'
            (r.1 = true → r.2.1 = start.map SectorTag.clean ∧ Wrote vol s r.2.2.2 ∧
                (buffer = true → BufferHolds vol [] r.2.2.1) ∧
                ∀ x, Unwritten tags x ∨ (buffer = true ∧ InBuffer c x) →
                  r.2.2.2.disk x = vol x ∨ (buffer = true ∧ InBuffer r.2.2.1 x)) ∧
              (r.1 = false → ∃ n, e.writeFunc n = false) := by
          intro c' s' hwrote hbuf' hheld
          obtain ⟨hok, hfail⟩ := writeBackLoop_spec buffer start fuel (cleanTag t.sector tags) c' s'
            (hclean.trans hstart) (by rw [hsectors]; exact hnd)
            (fun u hu => cleanTag_data hdata u hu)
            (fun u hu hud => hbelow u (hsub u hu hud) hud) (by omega)
            (fun hb => ⟨hbuf' hb, fun h0 => (hbuf hb).2 (due_of_cleanTag hsub h0)⟩)
          refine ⟨fun hr => ?_, hfail⟩
          obtain ⟨htags, hwrote', hempty, hrest⟩ := hok hr
          refine ⟨htags, hwrote.trans hwrote', hempty, ?_⟩
          intro x hx
          by_cases hrem : Unwritten (cleanTag t.sector tags) x ∨ (buffer = true ∧ InBuffer c' x)
          · exact hrest x hrem
          · refine .inl (hwrote'.mono ?_)
            have hnow : x = t.sector ∨ (buffer = true ∧ InBuffer c x) := by
              rcases hx with hx | hx
              · refine .inl ?_
                by_contra hne
                exact hrem (.inl (hothers x hne hx))
              · exact .inr hx
            rcases hheld x hnow with h | h
            · exact h
            · exact absurd (.inr h) hrem
        cases buffer with
        | true =>
          obtain ⟨hholds, hzero⟩ := hbuf rfl
          have hne : t.sector ≠ 0 := fun h => hzero (h ▸ hdue)
          have hmin : ∀ y, Unwritten tags y → t.sector ≤ y := by
            rintro y ⟨u, hu, rfl, hud⟩
            exact hleast u hu hud (hbelow u hu hud)
          obtain ⟨hok, hfail⟩ := collect_spec (e := e) s hholds hdue (hdata t ht) hnd hmin hne
          simp only [if_true]
          cases hr : (collect e t c s).1 with
          | false => exact ⟨nofun, fun _ => hfail hr⟩
          | true =>
            obtain ⟨hholds', hwrote, hin, hkeep⟩ := hok hr
            have hrest := hround _ _ hwrote (fun _ => hholds') (by
              rintro x (rfl | ⟨-, hx⟩)
              · exact .inr ⟨rfl, hin⟩
              · exact (hkeep x hx).imp id fun h => ⟨rfl, h⟩)
            simpa only [if_true] using hrest
        | false =>
          obtain ⟨hok, hfail⟩ := flush_spec (e := e) vol
            (c := ⟨t.sector, t.sector, t.area, [t.data]⟩) s le_rfl (by
              intro k hk
              obtain rfl : k = 0 := by
                simp only at hk
                omega
              simp [hdata t ht])
          simp only [Bool.false_eq_true, if_false]
          cases hr : (flush e ⟨t.sector, t.sector, t.area, [t.data]⟩ s).1 with
          | false => exact ⟨nofun, fun _ => hfail hr⟩
          | true =>
            obtain ⟨hwrote, hdisk⟩ := hok hr
            simp only [if_true]
            have hrest := hround c _ hwrote nofun (by
              rintro x (rfl | ⟨h, -⟩)
              · exact .inl (hdisk _ le_rfl le_rfl)
              · exact nomatch h)
            simpa only [Bool.false_eq_true] using hrest

end SdcBoot.Defrag
