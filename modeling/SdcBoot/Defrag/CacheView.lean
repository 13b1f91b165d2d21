/-
# The sector cache stands for a volume

While no transfer to the disk has failed the cache and the disk together hold the data of every
sector: it is on the disk or in a dirty tag of its block (`Right`).  Every sector that is cached and
every sector that is looked up keeps this, and a block that is written back is clean after it.
-/
import SdcBoot.Defrag.CacheBlocks

namespace SdcBoot.Defrag

open List Function

variable {α : Type}

namespace SectorCache

/-! ## 1. What the cache stands for -/

/-- The cache and the disk hold the data `vol`. -/
structure Right (vol : Nat → α) (s : SectorCache α) : Prop where
  distinct : s.Distinct
  fits : ∀ b, BlockFits vol s.numberOfPhysicalBlocks b (s.tags b)
  initialised : ∀ b, s.dirtyField b = true → s.initialisedField b = true
  flagged : ∀ b, ∀ t ∈ s.tags b, t.dirty = true → s.dirtyField b = true
  held : ∀ x, s.disk x = vol x ∨ Unwritten (s.tags (s.hash x)) x
  inside : s.outside = false

/-- The cache stood for `vol` and stands for `vol'` now; no sector of the disk that had the data of
`vol` has lost them. -/
structure Follows (vol vol' : Nat → α) (s s' : SectorCache α) : Prop where
  right : Right vol' s'
  disk : ∀ x, s.disk x = vol x → s'.disk x = vol x
  active : s'.cacheActive = s.cacheActive
  blocks : s'.numberOfPhysicalBlocks = s.numberOfPhysicalBlocks

/-- A transfer to the disk failed, and the cache is given up. -/
def Lost (e : CacheEnv) (s : SectorCache α) : Prop :=
  s.cacheCorrupt = true ∧ ∃ n, e.writeFunc n = false

variable {vol vol' : Nat → α} {s s' : SectorCache α} {block : Nat} {e : CacheEnv}

theorem Right.follows (h : Right vol s) :
    Follows vol vol s s := ⟨h, fun _ hx => hx, rfl, rfl⟩

theorem Follows.trans {t u : SectorCache α} (h : Follows vol vol s t)
    (h' : Follows vol vol' t u) : Follows vol vol' s u :=
  ⟨h'.right, fun x hx => h'.disk x (h.disk x hx), h'.active.trans h.active,
    h'.blocks.trans h.blocks⟩

theorem Follows.hash (h : Follows vol vol' s s') (x : Nat) : s'.hash x = s.hash x := by
  rw [SectorCache.hash, SectorCache.hash, h.blocks]

theorem Right.ticks (h : Right vol s) (n : Nat) : Right vol { s with ticks := n } :=
  ⟨h.distinct, h.fits, h.initialised, h.flagged, h.held, h.inside⟩

theorem Right.logicalTime (h : Right vol s) (n : Nat) : Right vol { s with logicalTime := n } :=
  ⟨h.distinct, h.fits, h.initialised, h.flagged, h.held, h.inside⟩

theorem Follows.logicalTime (h : Follows vol vol' s s')
    (n : Nat) : Follows vol vol' s { s' with logicalTime := n } :=
  ⟨h.right.logicalTime n, h.disk, h.active, h.blocks⟩

theorem Follows.of_logicalTime {n : Nat}
    (h : Follows vol vol' { s with logicalTime := n } s') : Follows vol vol' s s' :=
  ⟨h.right, h.disk, h.active, h.blocks⟩

theorem tags_of_initialised {b : Nat} (h : s.initialisedField b = true) :
    s.tags b = s.content b := by
  rw [tags, if_pos h]

theorem Moved.tags (h : Moved s s') (b : Nat) : s'.tags b = s.tags b := by
  have hinit : s'.initialisedField = s.initialisedField :=
    (congrArg SectorCache.initialisedField h.eq :)
  rw [SectorCache.tags, SectorCache.tags, hinit, h.content]

theorem Right.moved (h : Right vol s) (hm : Moved s s') : Follows vol vol s s' := by
  have hn : s'.numberOfPhysicalBlocks = s.numberOfPhysicalBlocks :=
    (congrArg numberOfPhysicalBlocks hm.eq :)
  have hdisk : s'.disk = s.disk := (congrArg SectorCache.disk hm.eq :)
  have hflag : s'.dirtyField = s.dirtyField := (congrArg dirtyField hm.eq :)
  refine ⟨⟨hm.distinct, ?_, ?_, ?_, ?_, ?_⟩, ?_, (congrArg cacheActive hm.eq :), hn⟩
  · intro b
    rw [hm.tags, hn]
    exact h.fits b
  · intro b hb
    rw [congrArg initialisedField hm.eq]
    exact h.initialised b (by rw [← hflag]; exact hb)
  · intro b t ht hd
    rw [hm.tags] at ht
    rw [hflag]
    exact h.flagged b t ht hd
  · intro x
    rw [hdisk, hash, hn, hm.tags]
    exact h.held x
  · rw [congrArg outside hm.eq]
    exact h.inside
  · intro x hx
    rw [hdisk]
    exact hx

/-- **One block is changed**, and with it what its sectors stand for. -/
theorem Right.change (h : Right vol s) (block : Nat) (hdist : s'.Distinct)
    (hn : s'.numberOfPhysicalBlocks = s.numberOfPhysicalBlocks) (hout : s'.outside = false)
    (hother : ∀ b, b ≠ block → s'.tags b = s.tags b)
    (hfits : BlockFits vol' s.numberOfPhysicalBlocks block (s'.tags block))
    (hvol : ∀ x, s.hash x ≠ block → vol' x = vol x)
    (hinit : ∀ b, s'.dirtyField b = true → s'.initialisedField b = true)
    (hflag : ∀ b, b ≠ block → s.dirtyField b = true → s'.dirtyField b = true)
    (hself : ∀ t ∈ s'.tags block, t.dirty = true → s'.dirtyField block = true)
    (hdisk : ∀ x, s.disk x = vol x → s'.disk x = vol x)
    (hheld : ∀ x, s.hash x = block → s'.disk x = vol' x ∨ Unwritten (s'.tags block) x) :
    Right vol' s' := by
  refine ⟨hdist, ?_, hinit, ?_, ?_, hout⟩
  · intro b
    rw [hn]
    by_cases hb : b = block
    · rw [hb]
      exact hfits
    · rw [hother b hb]
      have hf := h.fits b
      refine ⟨hf.length, hf.nodup, ?_, hf.home, hf.below⟩
      intro t ht
      rw [hf.data t ht, hvol]
      intro hx
      exact hb ((hf.home t ht).symm.trans hx)
  · intro b t ht hd
    by_cases hb : b = block
    · subst hb
      exact hself t ht hd
    · rw [hother b hb] at ht
      exact hflag b hb (h.flagged b t ht hd)
  · intro x
    have hhash : s'.hash x = s.hash x := by rw [hash, hash, hn]
    rw [hhash]
    by_cases hx : s.hash x = block
    · rw [hx]
      exact hheld x hx
    · rw [hother _ hx, hvol x hx]
      exact (h.held x).imp (hdisk x) id

/-! ## 2. A tag is put into a block -/

theorem setContent_tags (hd : s.Distinct) (ts : List (SectorTag α)) (hm : s.Mapped block)
    (hinit : s.initialisedField block = true) :
    (s.setContent block ts).tags block = ts ∧
      ∀ b, b ≠ block → (s.setContent block ts).tags b = s.tags b := by
  obtain ⟨-, -, hself, hother⟩ := setContent_spec hd ts hm
  have hi : (s.setContent block ts).initialisedField = s.initialisedField :=
    (congrArg initialisedField (setContent_eq s block ts) :)
  constructor
  · rw [tags, hi, if_pos hinit, hself]
  · intro b hb
    rw [tags, tags, hi, hother b hb]

/-- **A tag is put into its block.**  A clean one has the data of the disk. -/
theorem Right.put {sector : Nat} {d : α} {dirty : Bool} {ts : List (SectorTag α)} (h : Right vol s)
    (hm : s.Mapped (s.hash sector)) (hinit : s.initialisedField (s.hash sector) = true)
    (hput : Put sector d dirty (s.content (s.hash sector)) ts)
    (hdirty : dirty = true → s.dirtyField (s.hash sector) = true ∧ sector < ULONG_MAX)
    (hclean : dirty = false → s.disk sector = d) :
    Follows vol (update vol sector d) s (s.setContent (s.hash sector) ts) := by
  obtain ⟨hdist, -, -, -⟩ := setContent_spec h.distinct ts hm
  obtain ⟨htags, hother⟩ := setContent_tags h.distinct ts hm hinit
  have heq := setContent_eq s (s.hash sector) ts
  have hdisk : (s.setContent (s.hash sector) ts).disk = s.disk := (congrArg SectorCache.disk heq :)
  have hflag : (s.setContent (s.hash sector) ts).dirtyField = s.dirtyField :=
    (congrArg dirtyField heq :)
  have hfits := h.fits (s.hash sector)
  rw [tags_of_initialised hinit] at hfits
  have hn : (s.setContent (s.hash sector) ts).numberOfPhysicalBlocks = s.numberOfPhysicalBlocks :=
    (congrArg numberOfPhysicalBlocks heq :)
  refine ⟨h.change _ hdist hn ?_ hother ?_ ?_ ?_ ?_ ?_ ?_ ?_, ?_, (congrArg cacheActive heq :), hn⟩
  · rw [congrArg outside heq]
    exact h.inside
  · rw [htags]
    exact hput.fits hfits rfl fun hd => (hdirty hd).2
  · intro x hx
    refine update_of_ne ?_ _ _
    rintro rfl
    exact hx rfl
  · intro b hb
    rw [congrArg initialisedField heq]
    exact h.initialised b (by rw [← hflag]; exact hb)
  · intro b _ hb
    rw [hflag]
    exact hb
  · intro t ht htd
    rw [htags] at ht
    rw [hflag]
    rcases hput.mem t ht with ⟨-, -, hd⟩ | ⟨-, u, hu, -, -, hud⟩
    · exact (hdirty (hd.symm.trans htd)).1
    · exact h.flagged _ u (by rw [tags_of_initialised hinit]; exact hu) (hud.trans htd)
  · intro x hx
    rw [hdisk]
    exact hx
  · intro x hx
    rw [htags, hdisk]
    by_cases hxs : x = sector
    · subst hxs
      cases hd : dirty with
      | false =>
        rw [update_self]
        exact .inl (hclean hd)
      | true =>
        obtain ⟨t, ht, htx⟩ := hput.put
        refine .inr ⟨t, ht, htx, ?_⟩
        rcases hput.mem t ht with ⟨-, -, htd⟩ | ⟨hne, -⟩
        · exact htd.trans hd
        · exact absurd htx hne
    · rw [update_of_ne hxs]
      refine (h.held x).imp id fun hdue => hput.others x hxs ?_
      rw [← tags_of_initialised hinit, ← hx]
      exact hdue
  · intro x hx
    rw [hdisk]
    exact hx

/-- One tag of a sector is due only if it is dirty itself. -/
theorem not_due_of_clean {l r : List (SectorTag α)} {t : SectorTag α}
    (hnd : ((l ++ t :: r).map SectorTag.sector).Nodup) (hclean : t.dirty = false) :
    ¬ Unwritten (l ++ t :: r) t.sector := by
  rintro ⟨u, hu, hux, hud⟩
  have hut : u = t := inj_on_of_nodup_map hnd hu (by simp) hux
  rw [hut, hclean] at hud
  cases hud

/-- The tag of a sector is given another age. -/
theorem Right.age (sector n : Nat) (ts : List (SectorTag α)) (h : Right vol s)
    (hm : s.Mapped (s.hash sector)) (hinit : s.initialisedField (s.hash sector) = true)
    (hts : updateTag sector (fun u => { u with age := n }) (s.content (s.hash sector)) = some ts)
    (ts' : List (SectorTag α)) (hts' : ts' = ts ∨ ts' = redistributeAges ts) :
    Follows vol vol s (s.setContent (s.hash sector) ts') := by
  have hfits := h.fits (s.hash sector)
  rw [tags_of_initialised hinit] at hfits
  obtain ⟨l, u, r, hlur, hus, hnew⟩ := updateTag_some hts
  have hu : u ∈ s.content (s.hash sector) := by
    rw [hlur]
    simp
  have hput : Put sector u.data u.dirty (s.content (s.hash sector)) ts := by
    rw [hnew, hlur]
    exact put_replace (w := { u with age := n }) (hlur ▸ hfits.length) (hlur ▸ hfits.nodup) hus
      (.inl hus)
  have hput' : Put sector u.data u.dirty (s.content (s.hash sector)) ts' := by
    rcases hts' with rfl | rfl
    · exact hput
    · exact hput.redistributeAges
  have hvol : u.data = vol sector := by rw [hfits.data u hu, hus]
  have hdirty : u.dirty = true → s.dirtyField (s.hash sector) = true ∧ sector < ULONG_MAX := by
    intro hd
    refine ⟨?_, hus ▸ hfits.below u hu hd⟩
    exact h.flagged _ u (by rw [tags_of_initialised hinit]; exact hu) hd
  have hclean : u.dirty = false → s.disk sector = u.data := by
    intro hd
    rw [hvol]
    rcases h.held sector with hdisk | hdue
    · exact hdisk
    · rw [tags_of_initialised hinit, hlur, ← hus] at hdue
      exact absurd hdue (not_due_of_clean (hlur ▸ hfits.nodup) hd)
  have hp := h.put hm hinit hput' hdirty hclean
  rwa [hvol, update_eq_self] at hp

/-- **Looking a sector up.**  What is found are the data of the volume; where the block could be
mapped and the sector is not found, there is nothing to be written for it. -/
theorem retreiveBlockSector_spec (sector : Nat) (h : Right vol s) :
    Follows vol vol s (s.retreiveBlockSector e sector).2 ∧
      (∀ d, (s.retreiveBlockSector e sector).1 = some d → d = vol sector) ∧
      ((s.retreiveBlockSector e sector).1 = none → (∀ n, e.xmsMove n = true) →
        ¬ Unwritten (s.tags (s.hash sector)) sector) := by
  unfold retreiveBlockSector
  by_cases hinit : s.initialisedField (s.hash sector) = true
  · simp only [if_pos hinit]
    obtain ⟨hmoved, hmapped⟩ := ensureBlockMapped_moved e (s.hash sector) h.distinct
    have hxms := fun he => ensureBlockMapped_of_xms (e := e) he (s.hash sector) s
    generalize ensureBlockMapped e (s.hash sector) s = r at hmoved hmapped hxms ⊢
    obtain ⟨mapped, t⟩ := r
    dsimp only at hmoved hmapped hxms ⊢
    have ht := h.moved hmoved
    have hhash : t.hash sector = s.hash sector := ht.hash sector
    have htinit : t.initialisedField (s.hash sector) = true := by
      rw [(congrArg SectorCache.initialisedField hmoved.eq :)]
      exact hinit
    have htags : s.tags (s.hash sector) = t.content (s.hash sector) := by
      rw [← hmoved.tags, tags_of_initialised htinit]
    cases mapped with
    | false =>
      exact ⟨ht, nofun, fun _ he => nomatch hxms he⟩
    | true =>
      simp only [if_true]
      cases hf : (t.content (s.hash sector)).find? fun u => u.sector == sector with
      | none =>
        refine ⟨ht, nofun, fun _ _ => ?_⟩
        rintro ⟨u, hu, hus, -⟩
        rw [htags] at hu
        have hnone := find?_eq_none.mp hf u hu
        simp [hus] at hnone
      | some found =>
        have hfound := mem_of_find?_eq_some hf
        have hsector : found.sector = sector := by simpa using find?_some hf
        obtain ⟨ts, hts⟩ : ∃ ts, updateTag sector (fun u => { u with age := t.logicalTime })
            (t.content (s.hash sector)) = some ts := by
          rw [← Option.ne_none_iff_exists']
          intro hnone
          exact updateTag_none.mp hnone (mem_map.mpr ⟨found, hfound, hsector⟩)
        have hdata : found.data = vol sector := by
          have hfits := ht.right.fits (s.hash sector)
          rw [tags_of_initialised htinit] at hfits
          rw [hfits.data found hfound, hsector]
        have hage := fun n ts' hts' => Follows.of_logicalTime
          (Right.age sector t.logicalTime ts (ht.right.logicalTime n) (hhash ▸ hmapped rfl)
            (hhash ▸ htinit) (hhash ▸ hts) ts' hts')
        dsimp only
        rw [hts, Option.getD_some, ← hhash]
        by_cases hnow : t.logicalTime = UINT_MAX
        · rw [if_pos hnow]
          refine ⟨ht.trans ((hage _ _ (.inr rfl)).logicalTime _), ?_, nofun⟩
          intro d hd
          injection hd with hd
          rw [← hd, hdata]
        · rw [if_neg hnow]
          refine ⟨ht.trans (hage _ _ (.inl rfl)), ?_, nofun⟩
          intro d hd
          injection hd with hd
          rw [← hd, hdata]
  · simp only [if_neg hinit]
    refine ⟨h.follows, nofun, fun _ _ => ?_⟩
    rw [tags, if_neg hinit]
    rintro ⟨u, hu, -⟩
    cases hu

/-! ## 3. A block is written back -/

/-- The tags of the block are on the disk, and clean. -/
structure Cleaned (vol : Nat → α) (block : Nat) (s s' : SectorCache α) : Prop where
  follows : Follows vol vol s s'
  mapped : s'.Mapped block
  content : s'.content block = (s.content block).map SectorTag.clean
  initialised : s'.initialisedField = s.initialisedField
  dirty : s'.dirtyField = Function.update s.dirtyField block false
  time : s'.logicalTime = s.logicalTime

/-- What `WriteBackBlock` comes to when all was written: sectors were written, the tags of the block
are clean and its bit is cleared. -/
theorem Right.cleaned {s₁ s₂ : SectorCache α} (h : Right vol s) (hm : s.Mapped block)
    (hinit : s.initialisedField block = true) (h₁ : Wrote vol s s₁)
    (h₂ : Wrote vol (s₁.setContent block ((s.content block).map SectorTag.clean)) s₂)
    (hdue : ∀ x, Unwritten (s.content block) x → s₂.disk x = vol x) :
    Cleaned vol block s { s₂ with dirtyField := update s₂.dirtyField block false } := by
  have hwin : s₁.windows = s.windows := (congrArg windows h₁.eq :)
  have hdist : s₁.Distinct := by
    intro i j hij
    rw [hwin] at hij
    exact h.distinct i j hij
  have hm₁ : s₁.Mapped block := by
    obtain ⟨i, hi⟩ := hm
    exact ⟨i, by rw [hwin]; exact hi⟩
  have hcontent : ∀ b, s₁.content b = s.content b := by
    intro b
    rw [h₁.eq]
    rfl
  obtain ⟨hd, hmap, hself, hother⟩ :=
    setContent_spec hdist ((s.content block).map SectorTag.clean) hm₁
  have hset := setContent_eq s₁ block ((s.content block).map SectorTag.clean)
  generalize s₁.setContent block ((s.content block).map SectorTag.clean) = m
    at hd hmap hself hother hset h₂
  have hm_init : m.initialisedField = s.initialisedField := by
    rw [hset, h₁.eq]
  have hinit₂ : s₂.initialisedField = s.initialisedField := by
    rw [h₂.eq]
    exact hm_init
  have hflag₂ : s₂.dirtyField = s.dirtyField := by
    rw [h₂.eq, hset, h₁.eq]
  have hn₂ : s₂.numberOfPhysicalBlocks = s.numberOfPhysicalBlocks := by
    rw [h₂.eq, hset, h₁.eq]
  have hcontent₂ : ∀ b, s₂.content b = m.content b := by
    intro b
    rw [h₂.eq]
    rfl
  have hdist₂ : s₂.Distinct := by
    rw [h₂.eq]
    exact hd
  have hmap₂ : s₂.Mapped block := by
    rw [h₂.eq]
    exact hmap
  have hdisk : ∀ x, s.disk x = vol x → s₂.disk x = vol x := by
    intro x hx
    refine h₂.mono ?_
    rw [hset]
    exact h₁.mono hx
  have hfits := h.fits block
  rw [tags_of_initialised hinit] at hfits
  have htags : tags { s₂ with dirtyField := update s₂.dirtyField block false } block =
      (s.content block).map SectorTag.clean := by
    rw [tags_of_initialised (by rw [← hinit, ← hinit₂])]
    exact (hcontent₂ block).trans hself
  have hclean : ∀ t ∈ (s.content block).map SectorTag.clean, t.dirty = false := by
    intro t ht
    obtain ⟨u, -, rfl⟩ := mem_map.mp ht
    rfl
  have hright : Right vol
      { s₂ with dirtyField := update s₂.dirtyField block false } := by
    refine h.change block hdist₂ hn₂ ?_ ?_ ?_ (fun _ _ => rfl) ?_ ?_ ?_ hdisk ?_
    · rw [h₂.eq, hset, h₁.eq]
      exact h.inside
    · intro b hb
      rw [tags, tags]
      change (if s₂.initialisedField b = true then s₂.content b else []) = _
      rw [hinit₂, hcontent₂, hother b hb, hcontent]
    · rw [htags]
      refine ⟨?_, ?_, ?_, ?_, ?_⟩
      · rw [length_map]
        exact hfits.length
      · rw [map_map]
        exact hfits.nodup
      · intro t ht
        obtain ⟨u, hu, rfl⟩ := mem_map.mp ht
        exact hfits.data u hu
      · intro t ht
        obtain ⟨u, hu, rfl⟩ := mem_map.mp ht
        exact hfits.home u hu
      · intro t ht hd
        exact absurd hd (by simp [hclean t ht])
    · intro b hb
      change s₂.initialisedField b = true
      rw [hinit₂]
      by_cases hbb : b = block
      · rw [hbb, hinit]
      · change update s₂.dirtyField block false b = true at hb
        rw [update_of_ne hbb, hflag₂] at hb
        exact h.initialised b hb
    · intro b hb hd
      change update s₂.dirtyField block false b = true
      rw [update_of_ne hb, hflag₂]
      exact hd
    · intro t ht hd
      rw [htags] at ht
      exact absurd hd (by simp [hclean t ht])
    · intro x hx
      refine .inl ?_
      rcases h.held x with hdx | hdx
      · exact hdisk x hdx
      · rw [hx, tags_of_initialised hinit] at hdx
        exact hdue x hdx
  refine ⟨⟨hright, hdisk, ?_, hn₂⟩, hmap₂, (hcontent₂ block).trans hself, hinit₂, ?_, ?_⟩
  · rw [h₂.eq, hset, h₁.eq]
    rfl
  · change update s₂.dirtyField block false = _
    rw [hflag₂]
  · rw [h₂.eq, hset, h₁.eq]

/-- **A block is written back**, or the cache is given up.  With a buffer sector 0 must not be
due, for it counts as no sector there. -/
theorem writeBackBlock_spec (h : Right vol s) (hm : s.Mapped block)
    (hinit : s.initialisedField block = true)
    (hzero : e.fteAlloc s.ticks = true → ¬ Unwritten (s.content block) 0) :
    ((s.writeBackBlock e block).1 = true → Cleaned vol block s (s.writeBackBlock e block).2) ∧
      ((s.writeBackBlock e block).1 = false → Lost e (s.writeBackBlock e block).2) := by
  have hfits := h.fits block
  rw [tags_of_initialised hinit] at hfits
  have hmapped : s.tick.Mapped block := hm
  unfold writeBackBlock
  rw [ensureBlockMapped_mapped e hmapped]
  simp only
  have hbuf : e.fteAlloc s.ticks = true →
      BufferHolds vol (s.content block) ⟨0, 0, 0xffff, []⟩ ∧ ¬ Unwritten (s.content block) 0 :=
    fun hb => ⟨fun h => absurd rfl h, hzero hb⟩
  obtain ⟨hok, hfail⟩ := writeBackLoop_spec (e := e) (e.fteAlloc s.ticks)
    (s.content block) (s.content block).length (s.content block) ⟨0, 0, 0xffff, []⟩ s.tick
    rfl hfits.nodup hfits.data hfits.below countP_le_length hbuf
  change _ at hok
  have hcontent : s.tick.content block = s.content block := rfl
  rw [hcontent]
  generalize writeBackLoop e (e.fteAlloc s.ticks) (s.content block).length (s.content block)
    ⟨0, 0, 0xffff, []⟩ s.tick = r at hok hfail ⊢
  obtain ⟨ok, ts, c, s₁⟩ := r
  dsimp only at hok hfail ⊢
  cases ok with
  | false => exact ⟨nofun, fun _ => ⟨rfl, hfail rfl⟩⟩
  | true =>
    obtain ⟨rfl, hwrote, hempty, hheld⟩ := hok rfl
    have hwrote' : Wrote vol s s₁ := ⟨by rw [hwrote.eq]; rfl, hwrote.disk⟩
    have hset := setContent_eq s₁ block ((s.content block).map SectorTag.clean)
    have hdisk : (s₁.setContent block ((s.content block).map SectorTag.clean)).disk = s₁.disk :=
      (congrArg SectorCache.disk hset :)
    by_cases hlast : e.fteAlloc s.ticks = true ∧ c.firstsector ≠ 0
    · rw [if_pos hlast]
      obtain ⟨hle, hget, -⟩ := hempty hlast.1 hlast.2
      obtain ⟨hfok, hffail⟩ := flush_spec (e := e) vol
        (s₁.setContent block ((s.content block).map SectorTag.clean)) hle hget
      cases hr : (flush e c (s₁.setContent block ((s.content block).map SectorTag.clean))).1 with
      | false =>
        exact ⟨nofun, fun _ => ⟨rfl, hffail hr⟩⟩
      | true =>
        refine ⟨fun _ => ?_, nofun⟩
        obtain ⟨hw, hbuffer⟩ := hfok hr
        refine h.cleaned hm hinit hwrote' hw ?_
        intro x hx
        rcases hheld x (.inl hx) with hx | ⟨-, -, hx, hxp⟩
        · exact hw.mono (by rw [hdisk, hx])
        · exact hbuffer x hx hxp
    · rw [if_neg hlast]
      refine ⟨fun _ => ?_, nofun⟩
      refine h.cleaned hm hinit hwrote' (Wrote.refl vol _) ?_
      intro x hx
      rw [hdisk]
      rcases hheld x (.inl hx) with hx | ⟨hb, hx, -⟩
      · exact hx
      · exact absurd ⟨hb, hx⟩ hlast

/-- **A mapped block is made clean.** -/
theorem makeBlockClean_spec (h : Right vol s) (hm : s.Mapped block)
    (hinit : s.initialisedField block = true) (hne : s.content block ≠ [])
    (hzero : e.fteAlloc s.ticks = true → ¬ Unwritten (s.content block) 0) :
    ((s.makeBlockClean e block).1 = true → Cleaned vol block s (s.makeBlockClean e block).2) ∧
      ((s.makeBlockClean e block).1 = false → Lost e (s.makeBlockClean e block).2) := by
  unfold makeBlockClean
  rw [ensureBlockMapped_mapped e hm]
  simp only [if_neg hne]
  exact writeBackBlock_spec h hm hinit hzero

end SectorCache

end SdcBoot.Defrag
