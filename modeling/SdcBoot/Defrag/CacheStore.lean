/-
# A sector is cached

`CacheBlockSector` has three ways to put a sector into its block, and a fourth, to write the block
back first, where nothing clean may be replaced.  It goes wrong in the fourth alone (`EvictMeets`):
a buffer loses sector 0, and where no tag of the block has an age below `UINT_MAX` the sector is
written behind the block.
-/
import SdcBoot.Defrag.CacheView

namespace SdcBoot.Defrag

open Function

variable {α : Type}

namespace SectorCache

/-- **The condition.**  If the block has to be written back for the sector, then it holds a tag of
an age below `UINT_MAX`, and sector 0 is not to be written while there is memory for the buffer. -/
def EvictMeets (e : CacheEnv) (sector : Nat) (s : SectorCache α) : Prop :=
  let tags := s.tags (s.hash sector)
  let mapped := ensureBlockMapped e (s.hash sector) s
  mapped.1 = true → tags.length = TAGSPERBLOCK → sector ∉ tags.map SectorTag.sector →
    (∀ t ∈ tags, t.dirty = true ∨ UINT_MAX ≤ t.age) →
    (∃ t ∈ tags, t.age < UINT_MAX) ∧ (e.fteAlloc mapped.2.ticks = true → ¬ Unwritten tags 0)

instance (e : CacheEnv) (sector : Nat) (s : SectorCache α) : Decidable (EvictMeets e sector s) := by
  unfold EvictMeets
  infer_instance

variable {s : SectorCache α} {block : Nat} {vol : Nat → α}

theorem opened_content (dirty : Bool) (hd : s.Distinct) (hm : s.Mapped block) :
    (s.opened block dirty).Distinct ∧ (s.opened block dirty).Mapped block ∧
      (s.opened block dirty).content block = s.tags block ∧
      ∀ b, b ≠ block → (s.opened block dirty).content b = s.content b :=
  setContent_spec hd (s.tags block) hm

theorem opened_tags (dirty : Bool) (hd : s.Distinct) (hm : s.Mapped block)
    (b : Nat) : (s.opened block dirty).tags b = s.tags b := by
  obtain ⟨-, -, hself, hother⟩ := opened_content dirty hd hm
  have hinit : (s.opened block dirty).initialisedField =
      update s.initialisedField block true := rfl
  by_cases hb : b = block
  · rw [hb, tags_of_initialised (by rw [hinit, update_self]), hself]
  · rw [tags, tags, hinit, update_of_ne hb, hother b hb]

theorem Right.opened (dirty : Bool) (h : Right vol s)
    (hm : s.Mapped block) : Follows vol vol s (s.opened block dirty) := by
  have htags := opened_tags dirty h.distinct hm
  have heq := setContent_eq s block (s.tags block)
  have hdisk : (s.opened block dirty).disk = s.disk := (congrArg SectorCache.disk heq :)
  have hflag : ∀ b, s.dirtyField b = true → (s.opened block dirty).dirtyField b = true := by
    intro b hb
    change (if dirty then update s.dirtyField block true else s.dirtyField) b = true
    split
    · by_cases hbb : b = block
      · rw [hbb, update_self]
      · rw [update_of_ne hbb, hb]
    · exact hb
  have hn : (s.opened block dirty).numberOfPhysicalBlocks = s.numberOfPhysicalBlocks :=
    (congrArg numberOfPhysicalBlocks heq :)
  refine ⟨h.change block (opened_content dirty h.distinct hm).1 hn ?_
    (fun b _ => htags b) ?_ (fun _ _ => rfl) ?_ (fun b _ => hflag b) ?_ ?_ ?_, ?_,
    (congrArg cacheActive heq :), hn⟩
  · rw [← h.inside]
    exact (congrArg outside heq :)
  · rw [htags]
    exact h.fits block
  · intro b hb
    change update s.initialisedField block true b = true
    by_cases hbb : b = block
    · rw [hbb, update_self]
    · rw [update_of_ne hbb]
      refine h.initialised b ?_
      revert hb
      change (if dirty then update s.dirtyField block true else s.dirtyField) b = true → _
      split
      · rw [update_of_ne hbb]
        exact id
      · exact id
  · intro t ht hd
    rw [htags] at ht
    exact hflag block (h.flagged block t ht hd)
  · intro x hx
    rw [hdisk, hx]
  · intro x hx
    rw [hdisk, htags, ← hx]
    exact h.held x
  · intro x hx
    rw [hdisk, hx]

theorem Right.flag (h : Right vol s) (hinit : s.initialisedField block = true) :
    Follows vol vol s { s with dirtyField := update s.dirtyField block true } := by
  refine ⟨⟨h.distinct, h.fits, ?_, ?_, h.held, h.inside⟩, fun _ hx => hx, rfl, rfl⟩
  · intro b hb
    by_cases hbb : b = block
    · rw [hbb]
      exact hinit
    · change update s.dirtyField block true b = true at hb
      rw [update_of_ne hbb] at hb
      exact h.initialised b hb
  · intro b t ht hd
    change update s.dirtyField block true b = true
    by_cases hbb : b = block
    · rw [hbb, update_self]
    · rw [update_of_ne hbb]
      exact h.flagged b t ht hd

/-- The oldest clean tag is replaced. -/
theorem Right.replaceTag (sector oldest : Nat) (d : α) (dirty : Bool) (area : Nat) (h : Right vol s)
    (hm : s.Mapped (s.hash sector)) (hinit : s.initialisedField (s.hash sector) = true)
    (hnot : sector ∉ (s.content (s.hash sector)).map SectorTag.sector)
    (hold : getOldestTag (s.content (s.hash sector)) = some oldest)
    (hdirty : dirty = true → s.dirtyField (s.hash sector) = true ∧ sector < ULONG_MAX)
    (hclean : dirty = false → s.disk sector = d) :
    Follows vol (update vol sector d) s
      (s.replaceTag (s.hash sector) oldest sector d dirty area) := by
  have hfits := h.fits (s.hash sector)
  rw [tags_of_initialised hinit] at hfits
  have hput := put_oldest (t := ⟨sector, s.logicalTime, dirty, area, d⟩) hfits.length hfits.nodup
    rfl hnot hold
  unfold SectorCache.replaceTag
  split
  · exact (h.put hm hinit hput.redistributeAges hdirty hclean).logicalTime _
  · exact h.put hm hinit hput hdirty hclean

/-- **The sector is put into its block.** -/
theorem putSector_spec {e : CacheEnv} (sector : Nat)
    (d : α) (dirty : Bool) (area : Nat) (h : Right vol s) (hm : s.Mapped (s.hash sector))
    (hinit : s.initialisedField (s.hash sector) = true)
    (hevict : (s.content (s.hash sector)).length = TAGSPERBLOCK →
      sector ∉ (s.content (s.hash sector)).map SectorTag.sector →
      (∀ t ∈ s.content (s.hash sector), t.dirty = true ∨ UINT_MAX ≤ t.age) →
      (∃ t ∈ s.content (s.hash sector), t.age < UINT_MAX) ∧
        (e.fteAlloc s.ticks = true → ¬ Unwritten (s.content (s.hash sector)) 0))
    (hdirty : dirty = true → s.dirtyField (s.hash sector) = true ∧ sector < ULONG_MAX)
    (hclean : dirty = false → s.disk sector = d ∧ vol sector = d) :
    Follows vol (update vol sector d) s
        (s.putSector e (s.hash sector) sector d dirty area).2 ∨
      Lost e (s.putSector e (s.hash sector) sector d dirty area).2 := by
  have hfits := h.fits (s.hash sector)
  rw [tags_of_initialised hinit] at hfits
  -- the tags are replaced, at any logical time
  have hput : ∀ ts, Put sector d dirty (s.content (s.hash sector)) ts → ∀ n,
      Follows vol (update vol sector d) s
        (({ s with logicalTime := n } : SectorCache α).setContent (s.hash sector) ts) :=
    fun ts hts n => Follows.of_logicalTime
      (Right.put (h.logicalTime n) hm hinit hts hdirty fun hd => (hclean hd).1)
  unfold putSector
  dsimp only
  cases hup : updateTag sector (fun t => { t with
      age := s.logicalTime, dirty := dirty, area := area, data := d })
      (s.content (s.hash sector)) with
  | some ts =>
    obtain ⟨l, u, r, hlur, hus, hnew⟩ := updateTag_some hup
    have hts : Put sector d dirty (s.content (s.hash sector)) ts := by
      rw [hnew, hlur]
      exact put_replace (w := { u with
        age := s.logicalTime, dirty := dirty, area := area, data := d })
        (hlur ▸ hfits.length) (hlur ▸ hfits.nodup) hus (.inl hus)
    left
    dsimp only
    split
    · exact (hput _ hts.redistributeAges _).logicalTime _
    · exact hput _ hts _
  | none =>
    have hnot := updateTag_none.mp hup
    dsimp only
    by_cases hroom : (s.content (s.hash sector)).length < TAGSPERBLOCK
    · have hts := put_append (t := ⟨sector, s.logicalTime, dirty, area, d⟩) hroom hfits.nodup rfl
        hnot
      left
      rw [if_pos hroom]
      split
      · exact (hput _ hts.redistributeAges _).logicalTime _
      · exact hput _ hts _
    · rw [if_neg hroom]
      cases hold : getOldestTag (s.content (s.hash sector)) with
      | some oldest =>
        exact .inl (h.replaceTag sector oldest d dirty area hm hinit hnot hold hdirty
          fun hd => (hclean hd).1)
      | none =>
        have hfull : (s.content (s.hash sector)).length = TAGSPERBLOCK :=
          le_antisymm hfits.length (not_lt.mp hroom)
        obtain ⟨⟨young, hyoung, hage⟩, hzero⟩ := hevict hfull hnot (oldestFrom_none hold).2
        obtain ⟨hok, hfail⟩ := makeBlockClean_spec (e := e) h hm hinit
          (List.ne_nil_of_mem hyoung) hzero
        generalize makeBlockClean e (s.hash sector) s = r at hok hfail ⊢
        obtain ⟨ok, t⟩ := r
        cases ok with
        | false => exact .inr (hfail rfl)
        | true =>
          have hc := hok rfl
          have htinit : t.initialisedField (s.hash sector) = true := by
            rw [hc.initialised]
            exact hinit
          have hflag := hc.follows.right.flag htinit
          have hhash : t.hash sector = s.hash sector := hc.follows.hash sector
          have hcontent : content { t with
              dirtyField := update t.dirtyField (s.hash sector) true } (s.hash sector) =
              (s.content (s.hash sector)).map SectorTag.clean := hc.content
          cases hold' : getOldestTag (content { t with
              dirtyField := update t.dirtyField (s.hash sector) true }
              (s.hash sector)) with
          | none =>
            rw [hcontent] at hold'
            rcases (oldestFrom_none hold').2 _ (List.mem_map.mpr ⟨young, hyoung, rfl⟩) with
              hd | hold
            · cases hd
            · exact absurd hage (not_lt.mpr hold)
          | some oldest =>
            have hnot' : sector ∉ ((s.content (s.hash sector)).map SectorTag.clean).map
                SectorTag.sector := by
              rw [List.map_map]
              exact hnot
            refine .inl ((hc.follows.trans hflag).trans ?_)
            have hreplace := Right.replaceTag sector oldest d dirty area hflag.right
            rw [show hash { t with
              dirtyField := update t.dirtyField (s.hash sector) true } sector =
              s.hash sector from hhash] at hreplace
            refine hreplace hc.mapped htinit (by rw [hcontent]; exact hnot') hold' ?_ ?_
            · intro hd
              exact ⟨update_self .., (hdirty hd).2⟩
            · intro hd
              obtain ⟨hdisk, hvol⟩ := hclean hd
              rw [← hvol]
              exact hc.follows.disk sector (hdisk.trans hvol.symm)

/-- **A sector is cached**: the cache stands for the volume with the new data, or it is given up. -/
theorem cacheBlockSector_spec {e : CacheEnv} {sector : Nat} (d : α) (dirty : Bool) (area : Nat)
    (h : Right vol s) (hevict : EvictMeets e sector s)
    (hdirty : dirty = true → (∀ n, e.xmsMove n = true) ∧ sector < ULONG_MAX)
    (hclean : dirty = false → s.disk sector = d ∧ vol sector = d) :
    Follows vol (update vol sector d) s (s.cacheBlockSector e sector d dirty area).2 ∨
      Lost e (s.cacheBlockSector e sector d dirty area).2 := by
  obtain ⟨hmoved, hmapped⟩ := ensureBlockMapped_moved e (s.hash sector) h.distinct
  have hxms := fun he => ensureBlockMapped_of_xms (e := e) he (s.hash sector) s
  unfold EvictMeets at hevict
  unfold cacheBlockSector
  dsimp only at hevict ⊢
  generalize ensureBlockMapped e (s.hash sector) s = r at hmoved hmapped hxms hevict ⊢
  obtain ⟨mapped, t⟩ := r
  have ht := h.moved hmoved
  cases mapped with
  | false =>
    cases hd : dirty with
    | true => exact nomatch hxms (hdirty hd).1
    | false =>
      rw [← (hclean hd).2, update_eq_self]
      exact .inl ht
  | true =>
    have hopen := ht.right.opened dirty (hmapped rfl)
    obtain ⟨-, hm, hcontent, -⟩ := opened_content dirty hmoved.distinct (hmapped rfl)
    have hhash : (t.opened (s.hash sector) dirty).hash sector = s.hash sector :=
      (hopen.hash sector).trans (ht.hash sector)
    have hinit : (t.opened (s.hash sector) dirty).initialisedField (s.hash sector) = true :=
      update_self ..
    have hticks : (t.opened (s.hash sector) dirty).ticks = t.ticks :=
      (congrArg SectorCache.ticks (setContent_eq t (s.hash sector) (t.tags (s.hash sector))) :)
    have hflag : dirty = true →
        (t.opened (s.hash sector) dirty).dirtyField (s.hash sector) = true := by
      rintro rfl
      exact update_self ..
    have hput := putSector_spec (e := e) sector d dirty area
      hopen.right
    rw [hhash, hcontent, hmoved.tags, hticks] at hput
    have hdone := hput hm hinit (hevict rfl) (fun hd => ⟨hflag hd, (hdirty hd).2⟩) (by
      intro hd
      obtain ⟨hdisk, hvol⟩ := hclean hd
      refine ⟨?_, hvol⟩
      rw [← hvol] at hdisk ⊢
      exact hopen.disk sector (ht.disk sector hdisk))
    exact hdone.imp (fun hf => (ht.trans hopen).trans hf) id

end SectorCache

end SdcBoot.Defrag
