/-
# Runs of the sector cache

The sectors of a call are cached one after another, and read in runs between those that are found.
Along a run the cache with the disk stands for the volume that the successful `WriteSectors` made,
as long as every call meets the condition under which nothing is lost (`OpMeets`).
-/
import SdcBoot.Defrag.CacheStore
import SdcBoot.Lib.Run

namespace SdcBoot.Defrag

open Lib List Function Option

variable {α : Type}

namespace SectorCache

/-! ## 1. Sectors in a row -/

/-- Every sector that is cached meets the condition when its turn comes. -/
def CacheMeets (e : CacheEnv) (dirty : Bool) (area : Nat) :
    Nat → List α → SectorCache α → Prop
  | _, [], _ => True
  | first, d :: ds, s =>
    (s.cacheActive = true → EvictMeets e first s) ∧
      CacheMeets e dirty area (first + 1) ds (s.cacheSector e first d dirty area).2

instance CacheMeets.decidable (e : CacheEnv) (dirty : Bool) (area : Nat) :
    ∀ first data (s : SectorCache α), Decidable (CacheMeets e dirty area first data s)
  | _, [], _ => isTrue trivial
  | first, _ :: ds, s =>
    have := CacheMeets.decidable e dirty area (first + 1) ds
    inferInstanceAs (Decidable ((_ → EvictMeets e first s) ∧ CacheMeets e dirty area _ ds _))

variable {s : SectorCache α} {e : CacheEnv} {area : Nat} {vol : Nat → α}

theorem cacheActive_of_corrupt (h : s.cacheCorrupt = true) : s.cacheActive = false := by
  simp [cacheActive, h]

theorem cacheSectors_inactive {dirty : Bool} :
    ∀ (data : List α) (first : Nat) {s : SectorCache α}, s.cacheActive = false →
      s.cacheSectors e dirty area first data = s
  | [], _, _, _ => rfl
  | d :: ds, first, s, h => by
    have hsame : s.cacheSector e first d dirty area = (true, s) := by
      rw [cacheSector, if_neg (by simp [h])]
    rw [cacheSectors, hsame]
    exact cacheSectors_inactive ds (first + 1) h

theorem Lost.cacheSectors {dirty : Bool} (data : List α) (first : Nat)
    (h : Lost e s) : Lost e (s.cacheSectors e dirty area first data) := by
  rw [cacheSectors_inactive data first (cacheActive_of_corrupt h.1)]
  exact h

theorem writeDisk_cons (vol : Nat → α) (first : Nat) (d : α) (ds : List α) :
    writeDisk vol first (d :: ds) = writeDisk (update vol first d) (first + 1) ds := by
  funext x
  simp only [writeDisk]
  rcases Nat.lt_trichotomy x first with hlt | rfl | hgt
  · rw [if_neg (by omega), if_neg (by omega), update_of_ne (by omega)]
  · rw [if_pos le_rfl, if_neg (by omega), update_self, Nat.sub_self]
    rfl
  · rw [if_pos (by omega), if_pos (by omega), update_of_ne (by omega)]
    obtain ⟨k, rfl⟩ : ∃ k, x = first + 1 + k := ⟨x - (first + 1), by omega⟩
    rw [show first + 1 + k - first = k + 1 by omega, show first + 1 + k - (first + 1) = k by omega]
    rfl

theorem writeDisk_nil (vol : Nat → α) (first : Nat) : writeDisk vol first [] = vol := by
  funext x
  simp [writeDisk]

/-- **Sectors that are written** are those of the volume from then on. -/
theorem cacheSectors_dirty (he : ∀ n, e.xmsMove n = true) :
    ∀ (data : List α) (first : Nat) {vol : Nat → α} {s : SectorCache α}, Right vol s →
      s.cacheActive = true → first + data.length ≤ ULONG_MAX → CacheMeets e true area first data s →
      (Right (writeDisk vol first data) (s.cacheSectors e true area first data) ∧
          (s.cacheSectors e true area first data).numberOfPhysicalBlocks =
            s.numberOfPhysicalBlocks) ∨
        Lost e (s.cacheSectors e true area first data)
  | [], first, vol, s, h, _, _, _ => by
    rw [writeDisk_nil]
    exact .inl ⟨h, rfl⟩
  | d :: ds, first, vol, s, h, hactive, hlen, hmeets => by
    rw [length_cons] at hlen
    obtain ⟨hevict, hrest⟩ := hmeets
    have hsector := cacheBlockSector_spec d true area h (hevict hactive)
      (fun _ => ⟨he, by omega⟩) nofun
    have heq : s.cacheSector e first d true area = s.cacheBlockSector e first d true area := by
      rw [cacheSector, if_pos hactive]
    rw [cacheSectors]
    rw [heq] at hrest ⊢
    rw [writeDisk_cons]
    rcases hsector with hf | hlost
    · have hds := cacheSectors_dirty he ds (first + 1) hf.right (hf.active.trans hactive)
        (by omega) hrest
      rw [hf.blocks] at hds
      exact hds
    · exact .inr (hlost.cacheSectors ds _)

/-- **Sectors that were read** change nothing. -/
theorem cacheSectors_clean :
    ∀ (data : List α) (first : Nat) {s : SectorCache α}, Right vol s →
      (∀ i d, data[i]? = some d → s.disk (first + i) = d ∧ vol (first + i) = d) →
      CacheMeets e false area first data s →
      Follows vol vol s (s.cacheSectors e false area first data) ∨
        Lost e (s.cacheSectors e false area first data)
  | [], _, _, h, _, _ => .inl h.follows
  | d :: ds, first, s, h, hdata, hmeets => by
    obtain ⟨hevict, hrest⟩ := hmeets
    cases hactive : s.cacheActive with
    | false =>
      rw [cacheSectors_inactive _ _ hactive]
      exact .inl h.follows
    | true =>
      have hfirst := hdata 0 d rfl
      rw [add_zero] at hfirst
      have hsector := cacheBlockSector_spec d false area h (hevict hactive)
        nofun (fun _ => hfirst)
      have heq : s.cacheSector e first d false area = s.cacheBlockSector e first d false area := by
        rw [cacheSector, if_pos hactive]
      rw [cacheSectors]
      rw [heq] at hrest ⊢
      rcases hsector with hf | hlost
      · rw [← hfirst.2, update_eq_self] at hf
        have hds : ∀ i d', ds[i]? = some d' →
            (s.cacheBlockSector e first (vol first) false area).2.disk (first + 1 + i) = d' ∧
              vol (first + 1 + i) = d' := by
          intro i d' hi
          obtain ⟨hdisk, hvol⟩ := hdata (i + 1) d' hi
          rw [show first + 1 + i = first + (i + 1) by omega]
          exact ⟨(hf.disk _ (hdisk.trans hvol.symm)).trans hvol, hvol⟩
        rw [← hfirst.2] at hrest ⊢
        exact (cacheSectors_clean ds (first + 1) hf.right hds hrest).imp hf.trans id
      · exact .inr (hlost.cacheSectors ds _)

/-! ## 2. ReadSectors -/

/-- The sectors from `first` to before `stop` meet the condition when they are read. -/
def RunMeets (e : CacheEnv) (first stop : Nat) (s : SectorCache α) : Prop :=
  e.readFunc s.ticks = true →
    CacheMeets e false 0 first ((List.range' first (stop - first)).map s.disk) s.tick

/-- The reads of `ReadSectors` meet the condition when their turn comes. -/
def ReadMeets (e : CacheEnv) : Nat → Nat → Option Nat → SectorCache α → Prop
  | 0, sector, some first, s => s.RunMeets e first sector
  | 0, _, none, _ => True
  | n + 1, sector, first, s =>
    match s.retreiveCachedSector e sector with
    | (none, s) => ReadMeets e n (sector + 1) (some (first.getD sector)) s
    | (some _, s) =>
      match first with
      | none => ReadMeets e n (sector + 1) none s
      | some first =>
        s.RunMeets e first sector ∧
          ((s.readRun e first sector).1.isSome = true →
            ReadMeets e n (sector + 1) none (s.readRun e first sector).2)

instance (e : CacheEnv) (first stop : Nat) (s : SectorCache α) : Decidable (s.RunMeets e first stop) :=
  inferInstanceAs (Decidable (_ → _))

instance ReadMeets.decidable (e : CacheEnv) :
    ∀ n sector first (s : SectorCache α), Decidable (ReadMeets e n sector first s)
  | 0, sector, some first, s => inferInstanceAs (Decidable (s.RunMeets e first sector))
  | 0, _, none, _ => isTrue trivial
  | n + 1, sector, first, s => by
    have := fun first (s : SectorCache α) => ReadMeets.decidable e n (sector + 1) first s
    unfold ReadMeets
    split
    · infer_instance
    · cases first <;> infer_instance

/-- **A run of sectors is read** that have the data of the volume on the disk. -/
theorem readRun_spec {first stop : Nat} (h : Right vol s)
    (hdisk : ∀ x, first ≤ x → x < stop → s.disk x = vol x) (hmeets : s.RunMeets e first stop) :
    (Follows vol vol s (s.readRun e first stop).2 ∨ Lost e (s.readRun e first stop).2) ∧
      ((s.readRun e first stop).1 = none ∧ (∃ n, e.readFunc n = false) ∨
        (s.readRun e first stop).1 = some ((List.range' first (stop - first)).map vol)) := by
  unfold readRun
  cases hr : e.readFunc s.ticks with
  | false => exact ⟨.inl ⟨h.ticks _, fun _ hx => hx, rfl, rfl⟩, .inl ⟨rfl, _, hr⟩⟩
  | true =>
    have hdata : (List.range' first (stop - first)).map s.disk =
        (List.range' first (stop - first)).map vol := by
      refine map_congr_left fun x hx => ?_
      obtain ⟨hle, hlt⟩ := mem_range'_1.mp hx
      exact hdisk x hle (by omega)
    refine ⟨?_, .inr (congrArg some hdata)⟩
    have htick : Follows vol vol s s.tick := ⟨h.ticks _, fun _ hx => hx, rfl, rfl⟩
    refine (cacheSectors_clean _ first htick.right ?_ (hmeets hr)).imp htick.trans id
    intro i d hi
    rw [getElem?_map, map_eq_some_iff] at hi
    obtain ⟨x, hx, rfl⟩ := hi
    obtain ⟨hlt, hx⟩ := List.getElem?_eq_some_iff.mp hx
    rw [length_range'] at hlt
    rw [getElem_range', one_mul] at hx
    subst hx
    exact ⟨rfl, (hdisk _ (by omega) (by omega)).symm⟩

theorem readRun_corrupt (first stop : Nat)
    (h : s.cacheCorrupt = true) : (s.readRun e first stop).2.cacheCorrupt = true := by
  unfold readRun
  split
  · dsimp only
    rw [cacheSectors_inactive (s := s.tick) _ _ (cacheActive_of_corrupt h)]
    exact h
  · exact h

theorem retreiveCachedSector_inactive (sector : Nat)
    (h : s.cacheActive = false) : s.retreiveCachedSector e sector = (none, s) := by
  rw [retreiveCachedSector, if_neg (by simp [h])]

/-- A cache that was given up stays so. -/
theorem readLoop_corrupt : ∀ (n sector : Nat) (first : Option Nat) (done : List α)
    {s : SectorCache α}, s.cacheCorrupt = true →
      (s.readLoop e n sector first done).2.cacheCorrupt = true
  | 0, sector, some first, done, s, h => by
    exact readRun_corrupt first sector h
  | 0, _, none, _, _, h => h
  | n + 1, sector, first, done, s, h => by
    rw [readLoop, retreiveCachedSector_inactive sector (cacheActive_of_corrupt h)]
    exact readLoop_corrupt n (sector + 1) _ done h

/-- A run that was read, the sector that was found behind it, and the rest. -/
theorem map_range'_around (vol : Nat → α) {done : List α} {f sector n : Nat} (h : f ≤ sector) :
    done ++ (List.range' f (sector - f)).map vol ++ [vol sector] ++
        (List.range' (sector + 1) n).map vol =
      done ++ (List.range' f (sector + (n + 1) - f)).map vol := by
  obtain ⟨k, rfl⟩ : ∃ k, sector = f + k := ⟨sector - f, by omega⟩
  have hrest : List.range' (f + k) (n + 1) = (f + k) :: List.range' (f + k + 1) n :=
    range'_succ
  rw [show f + k + (n + 1) - f = k + (n + 1) by omega, Nat.add_sub_cancel_left,
    ← range'_append_1, hrest, map_append, map_cons, append_assoc,
    append_assoc]
  rfl

/-- **`ReadSectors`**: what is read are the data of the volume.  The sectors that were not found so
far have them on the disk. -/
theorem readLoop_spec :
    ∀ (n sector : Nat) (first : Option Nat) (done : List α) {s : SectorCache α}, Right vol s →
      (∀ f, first = some f → f ≤ sector ∧ ∀ x, f ≤ x → x < sector → s.disk x = vol x) →
      ((s.cacheActive = true ∧ ∀ k, e.xmsMove k = true) ∨
        ∀ x, sector ≤ x → x < sector + n → s.disk x = vol x) →
      s.ReadMeets e n sector first →
      Lost e (s.readLoop e n sector first done).2 ∨
        (Follows vol vol s (s.readLoop e n sector first done).2 ∧
          ((s.readLoop e n sector first done).1 = none ∧ (∃ k, e.readFunc k = false) ∨
            (s.readLoop e n sector first done).1 = some (done ++
              (List.range' (first.getD sector) (sector + n - first.getD sector)).map vol)))
  | 0, sector, none, done, s, h, _, _, _ => by
    refine .inr ⟨h.follows, .inr ?_⟩
    simp [readLoop]
  | 0, sector, some f, done, s, h, hfirst, _, hmeets => by
    obtain ⟨hf, hdisk⟩ := hfirst f rfl
    obtain ⟨hstate, hgot⟩ := readRun_spec h hdisk hmeets
    rw [readLoop]
    dsimp only
    rcases hstate with hfollows | hlost
    · refine .inr ⟨hfollows, ?_⟩
      rcases hgot with ⟨hnone, hfail⟩ | hsome
      · exact .inl ⟨by rw [hnone]; rfl, hfail⟩
      · exact .inr (by rw [hsome]; rfl)
    · exact .inl hlost
  | n + 1, sector, first, done, s, h, hfirst, hcond, hmeets => by
    have hlookup : Follows vol vol s (s.retreiveCachedSector e sector).2 ∧
        (∀ d, (s.retreiveCachedSector e sector).1 = some d → d = vol sector) ∧
        ((s.retreiveCachedSector e sector).1 = none → s.disk sector = vol sector) := by
      cases hactive : s.cacheActive with
      | false =>
        rw [retreiveCachedSector_inactive sector hactive]
        refine ⟨h.follows, nofun, fun _ => ?_⟩
        rcases hcond with ⟨hyes, -⟩ | hdisk
        · exact absurd hyes (by simp [hactive])
        · exact hdisk sector le_rfl (by omega)
      | true =>
        rw [retreiveCachedSector, if_pos hactive]
        obtain ⟨hf, hfound, hnone⟩ := retreiveBlockSector_spec (e := e) sector h
        refine ⟨hf, hfound, fun hn => ?_⟩
        rcases hcond with ⟨-, hmoves⟩ | hdisk
        · exact (h.held sector).resolve_right (hnone hn hmoves)
        · exact hdisk sector le_rfl (by omega)
    rw [readLoop]
    rw [ReadMeets] at hmeets
    generalize s.retreiveCachedSector e sector = r at hlookup hmeets ⊢
    obtain ⟨found, t⟩ := r
    obtain ⟨hf, hfound, hnone⟩ := hlookup
    have hcond' : (t.cacheActive = true ∧ ∀ k, e.xmsMove k = true) ∨
        ∀ x, sector + 1 ≤ x → x < sector + 1 + n → t.disk x = vol x := by
      rcases hcond with ⟨hactive, hmoves⟩ | hdisk
      · exact .inl ⟨hf.active.trans hactive, hmoves⟩
      · exact .inr fun x hx hlt => hf.disk x (hdisk x (by omega) (by omega))
    cases found with
    | none =>
      have hle : first.getD sector ≤ sector := by
        cases first with
        | none => exact le_rfl
        | some f => exact (hfirst f rfl).1
      have hrun : ∀ f, some (first.getD sector) = some f →
          f ≤ sector + 1 ∧ ∀ x, f ≤ x → x < sector + 1 → t.disk x = vol x := by
        intro f hff
        injection hff with hff
        refine ⟨by omega, ?_⟩
        intro x hx hlt
        refine hf.disk x ?_
        rcases lt_or_ge x sector with hxs | hxs
        · cases first with
          | none => exact absurd hxs (by rw [← hff] at hx; simpa using hx)
          | some g => exact (hfirst g rfl).2 x (by rw [← hff] at hx; exact hx) hxs
        · rw [show x = sector by omega]
          exact hnone rfl
      have hrest := readLoop_spec n (sector + 1) (some (first.getD sector)) done hf.right hrun
        hcond' hmeets
      rw [getD_some, show sector + 1 + n = sector + (n + 1) by omega] at hrest
      exact hrest.imp id fun ⟨hfollows, hgot⟩ => ⟨hf.trans hfollows, hgot⟩
    | some d =>
      have hd := hfound d rfl
      subst hd
      have hnow : ∀ f, (none : Option Nat) = some f → f ≤ sector + 1 ∧
          ∀ x, f ≤ x → x < sector + 1 → t.disk x = vol x := nofun
      cases first with
      | none =>
        have hrest := readLoop_spec n (sector + 1) none (done ++ [vol sector]) hf.right hnow hcond'
          hmeets
        rw [getD_none, append_assoc, show sector + 1 + n - (sector + 1) = n by omega]
          at hrest
        rw [getD_none, Nat.add_sub_cancel_left, range'_succ, map_cons]
        exact hrest.imp id fun ⟨hfollows, hgot⟩ => ⟨hf.trans hfollows, hgot⟩
      | some f =>
        dsimp only at hmeets ⊢
        obtain ⟨hfs, hdisk⟩ := hfirst f rfl
        obtain ⟨hstate, hgot⟩ := readRun_spec (e := e) hf.right
          (fun x hx hlt => hf.disk x (hdisk x hx hlt)) hmeets.1
        have hnext := hmeets.2
        generalize t.readRun e f sector = r at hstate hgot hnext ⊢
        obtain ⟨got, u⟩ := r
        rcases hgot with ⟨rfl, hfail⟩ | rfl
        · rcases hstate with hu | hlost
          · exact .inr ⟨hf.trans hu, .inl ⟨rfl, hfail⟩⟩
          · exact .inl hlost
        · rcases hstate with hu | hlost
          · have hcond'' : (u.cacheActive = true ∧ ∀ k, e.xmsMove k = true) ∨
                ∀ x, sector + 1 ≤ x → x < sector + 1 + n → u.disk x = vol x := by
              rcases hcond' with ⟨hactive, hmoves⟩ | hdisk
              · exact .inl ⟨hu.active.trans hactive, hmoves⟩
              · exact .inr fun x hx hlt => hu.disk x (hdisk x hx hlt)
            have hrest := readLoop_spec n (sector + 1) none
              (done ++ (List.range' f (sector - f)).map vol ++ [vol sector]) hu.right
              nofun hcond'' (hnext rfl)
            rw [getD_none, show sector + 1 + n - (sector + 1) = n by omega,
              map_range'_around vol hfs] at hrest
            exact hrest.imp id fun ⟨hfollows, hgot⟩ => ⟨hf.trans (hu.trans hfollows), hgot⟩
          · exact .inl ⟨readLoop_corrupt n _ _ _ hlost.1, hlost.2⟩

/-! ## 3. CommitCache -/

/-- The blocks that are written back can be mapped, and no buffer loses sector 0. -/
def CommitMeets (e : CacheEnv) : List Nat → SectorCache α → Prop
  | [], _ => True
  | block :: rest, s =>
    if s.dirtyField block = true then
      ((ensureBlockMapped e block s).1 = true ∧
        (e.fteAlloc (ensureBlockMapped e block s).2.ticks = true →
          ¬ Unwritten (s.tags block) 0)) ∧
        ((s.makeBlockClean e block).1 = true → CommitMeets e rest (s.makeBlockClean e block).2)
    else CommitMeets e rest s

instance CommitMeets.decidable (e : CacheEnv) :
    ∀ blocks (s : SectorCache α), Decidable (CommitMeets e blocks s)
  | [], _ => isTrue trivial
  | block :: rest, s => by
    have := fun s : SectorCache α => CommitMeets.decidable e rest s
    unfold CommitMeets
    infer_instance

/-- **A dirty block is committed**: its sectors are on the disk. -/
theorem commit_block {block : Nat} (h : Right vol s) (hflag : s.dirtyField block = true)
    (hmapped : (ensureBlockMapped e block s).1 = true)
    (hzero : e.fteAlloc (ensureBlockMapped e block s).2.ticks = true →
      ¬ Unwritten (s.tags block) 0) :
    ((s.makeBlockClean e block).1 = true →
        Follows vol vol s (s.makeBlockClean e block).2 ∧
        ∀ x, s.hash x = block → (s.makeBlockClean e block).2.disk x = vol x) ∧
      ((s.makeBlockClean e block).1 = false → Lost e (s.makeBlockClean e block).2) := by
  obtain ⟨hmoved, hm⟩ := ensureBlockMapped_moved e block h.distinct
  unfold makeBlockClean
  generalize ensureBlockMapped e block s = r at hmoved hm hmapped hzero ⊢
  obtain ⟨mapped, t⟩ := r
  dsimp only at hmoved hm hmapped hzero ⊢
  subst hmapped
  have ht := h.moved hmoved
  have hinit : t.initialisedField block = true := by
    rw [(congrArg SectorCache.initialisedField hmoved.eq :)]
    exact h.initialised block hflag
  have htags : s.tags block = t.content block := by
    rw [← hmoved.tags, tags_of_initialised hinit]
  by_cases hempty : t.content block = []
  · rw [if_pos hempty]
    refine ⟨fun _ => ⟨ht, fun x hx => ht.disk x ?_⟩, nofun⟩
    refine (h.held x).resolve_right ?_
    rw [hx, htags, hempty]
    rintro ⟨u, hu, -⟩
    cases hu
  · rw [if_neg hempty]
    obtain ⟨hok, hfail⟩ := writeBackBlock_spec (e := e) ht.right (hm rfl) hinit
      (by rw [← htags]; exact hzero)
    refine ⟨fun hr => ?_, hfail⟩
    have hc := hok hr
    refine ⟨ht.trans hc.follows, ?_⟩
    intro x hx
    refine (hc.follows.right.held x).resolve_right ?_
    rw [hc.follows.hash, ht.hash, hx, tags_of_initialised (by rw [hc.initialised]; exact hinit),
      hc.content]
    rintro ⟨u, hu, -, hud⟩
    obtain ⟨v, -, rfl⟩ := mem_map.mp hu
    cases hud

theorem writeBackFrom_spec :
    ∀ (blocks : List Nat) {s : SectorCache α}, Right vol s → s.CommitMeets e blocks →
      ((s.writeBackFrom e blocks).1 = true →
          Follows vol vol s (s.writeBackFrom e blocks).2 ∧
          ∀ x, s.hash x ∈ blocks → (s.writeBackFrom e blocks).2.disk x = vol x) ∧
        ((s.writeBackFrom e blocks).1 = false → Lost e (s.writeBackFrom e blocks).2)
  | [], s, h, _ =>
    ⟨fun _ => ⟨h.follows, fun _ hx => absurd hx (by simp)⟩,
      fun h => absurd h (by simp [writeBackFrom])⟩
  | block :: rest, s, h, hmeets => by
    rw [CommitMeets] at hmeets
    rw [writeBackFrom]
    by_cases hflag : s.dirtyField block = true
    · rw [if_pos hflag] at hmeets ⊢
      obtain ⟨⟨hmapped, hzero⟩, hrest⟩ := hmeets
      obtain ⟨hok, hfail⟩ := commit_block h hflag hmapped hzero
      generalize s.makeBlockClean e block = r at hok hfail hrest ⊢
      obtain ⟨ok, t⟩ := r
      dsimp only at hok hfail hrest
      cases ok with
      | false => exact ⟨nofun, fun _ => hfail rfl⟩
      | true =>
        obtain ⟨hf, hdisk⟩ := hok rfl
        obtain ⟨hrok, hrfail⟩ := writeBackFrom_spec rest hf.right (hrest rfl)
        refine ⟨fun hr => ?_, hrfail⟩
        obtain ⟨hf', hdisk'⟩ := hrok hr
        refine ⟨hf.trans hf', fun x hx => ?_⟩
        rcases mem_cons.mp hx with hx | hx
        · exact hf'.disk x (hdisk x hx)
        · exact hdisk' x (by rw [hf.hash]; exact hx)
    · rw [if_neg hflag] at hmeets ⊢
      obtain ⟨hrok, hrfail⟩ := writeBackFrom_spec rest h hmeets
      refine ⟨fun hr => ?_, hrfail⟩
      obtain ⟨hf, hdisk⟩ := hrok hr
      refine ⟨hf, fun x hx => ?_⟩
      rcases mem_cons.mp hx with hx | hx
      · refine hf.disk x ((h.held x).resolve_right ?_)
        rw [hx]
        rintro ⟨u, hu, -, hud⟩
        exact hflag (h.flagged block u hu hud)
      · exact hdisk x hx

end SectorCache

/-! ## 4. Calls -/

open SectorCache

/-- **The condition of a call.**  Where the volume may be written, `WriteSectors` needs an active cache,
blocks that can be mapped and a disk that can be written.  Where the cache is not active or a block cannot be mapped, the
sectors of `ReadSectors` are not dirty in the cache.  Nothing is asked of a lock. -/
def OpMeets (s : SectorCache α) (op : CacheOp α × CacheEnv) : Prop :=
  let s := { s with ticks := 0 }
  match op.1 with
  | .read nsects lsect =>
    ((s.cacheActive = true ∧ ∀ n, op.2.xmsMove n = true) ∨
      ∀ x, lsect ≤ x → x < lsect + nsects → ¬ Unwritten (s.tags (s.hash x)) x) ∧
    s.ReadMeets op.2 nsects lsect none
  | .write lsect data area => s.readOnly = false →
    s.cacheActive = true ∧ (∀ n, op.2.xmsMove n = true) ∧ (∀ n, op.2.writeFunc n = true) ∧
      lsect + data.length ≤ ULONG_MAX ∧ s.CacheMeets op.2 true area lsect data
  | .lock | .unlock => True
  | .commit => s.cacheActive = true → s.CommitMeets op.2 (List.range s.numberOfPhysicalBlocks)

/-- What the volume holds after a call. -/
def volumeAfter (vol : Nat → α) : CacheOp α → CacheAnswer α → Nat → α
  | .write lsect data _, .done true => writeDisk vol lsect data
  | _, _ => vol

/-- A read returns the data of the volume, and after a successful commit the disk holds them. -/
def AnswersFrom (vol : Nat → α) : CacheOp α → CacheAnswer α × SectorCache α → Prop
  | .read nsects lsect, r => r.1 = .read (some ((List.range' lsect nsects).map vol))
  | .commit, r => r.1 = .done true → r.2.disk = vol
  | _, _ => True

/-- The data of a sector are cached, to be written, or on the disk. -/
def Holds (s : SectorCache α) (x : Nat) (d : α) : Prop :=
  s.disk x = d ∨ ∃ t ∈ s.tags (s.hash x), t.sector = x ∧ t.dirty = true ∧ t.data = d

/-- A write that reports success left its data somewhere. -/
def HoldsWritten : CacheOp α → CacheAnswer α × SectorCache α → Prop
  | .write lsect data _, r =>
    r.1 = .done true → ∀ i d, data[i]? = some d → Holds r.2 (lsect + i) d
  | _, _ => True

/-- All transfers of a call succeed. -/
def CacheEnv.TransfersSucceed (e : CacheEnv) : Prop :=
  (∀ n, e.readFunc n = true) ∧ ∀ n, e.writeFunc n = true

/-- A call, with the volume as it should be. -/
def volumeStep (p : (Nat → α) × SectorCache α) (op : CacheOp α × CacheEnv) :
    CacheAnswer α × ((Nat → α) × SectorCache α) :=
  let r := cacheStep p.2 op
  (r.1, (volumeAfter p.1 op.1 r.1, r.2))

variable {s : SectorCache α}

theorem cacheStep_write {e : CacheEnv} {lsect area : Nat} {data : List α} (h : s.readOnly = false) :
    cacheStep s (.write lsect data area, e) =
      (.done true, cacheSectors e true area lsect data { s with ticks := 0 }) := by
  simp [cacheStep, writeSectors, h]

theorem cacheStep_readOnly {e : CacheEnv} {lsect area : Nat} {data : List α} (h : s.readOnly = true) :
    cacheStep s (.write lsect data area, e) = (.done false, { s with ticks := 0 }) := by
  simp [cacheStep, writeSectors, h]

variable (p : (Nat → α) × SectorCache α) (op : CacheOp α × CacheEnv)

/-- **One call.** -/
theorem cacheStep_spec {vol : Nat → α} (h : Right vol s) (hn : 0 < s.numberOfPhysicalBlocks)
    (hmeets : OpMeets s op) :
    (Right (volumeAfter vol op.1 (cacheStep s op).1) (cacheStep s op).2 ∧
        (cacheStep s op).2.numberOfPhysicalBlocks = s.numberOfPhysicalBlocks ∧
        (op.2.TransfersSucceed → AnswersFrom vol op.1 (cacheStep s op))) ∨
      Lost op.2 (cacheStep s op).2 := by
  obtain ⟨op, e⟩ := op
  have h₀ := h.ticks 0
  cases op with
  | read nsects lsect =>
    obtain ⟨hcond, hread⟩ := hmeets
    have hcond' : (cacheActive { s with ticks := 0 } = true ∧ ∀ k, e.xmsMove k = true) ∨
        ∀ x, lsect ≤ x → x < lsect + nsects → s.disk x = vol x :=
      hcond.imp id fun hno x hx hlt => (h.held x).resolve_right (hno x hx hlt)
    rcases readLoop_spec nsects lsect none [] h₀ nofun hcond' hread with
      hlost | ⟨hf, hgot⟩
    · exact .inr hlost
    · refine .inl ⟨hf.right, hf.blocks, fun hsucceed => ?_⟩
      rcases hgot with ⟨-, n, hfail⟩ | hgot
      · exact absurd (hsucceed.1 n) (by simp [hfail])
      · rw [getD_none, Nat.add_sub_cancel_left, nil_append] at hgot
        exact congrArg CacheAnswer.read hgot
  | write lsect data area =>
    cases hmode : s.readOnly with
    | true =>
      rw [cacheStep_readOnly hmode]
      exact .inl ⟨h₀, rfl, fun _ => trivial⟩
    | false =>
      obtain ⟨hactive, hmoves, hwrites, hlen, hcache⟩ := hmeets hmode
      rw [cacheStep_write hmode]
      rcases cacheSectors_dirty hmoves data lsect h₀ hactive hlen hcache with
        ⟨hright, hblocks⟩ | hlost
      · exact .inl ⟨hright, hblocks, fun _ => trivial⟩
      · exact .inr hlost
  | lock
  | unlock =>
    exact .inl ⟨⟨h.distinct, h.fits, h.initialised, h.flagged, h.held, h.inside⟩, rfl,
      fun _ => trivial⟩
  | commit =>
    have hstep : cacheStep s (.commit, e) = (.done (commitCache e { s with ticks := 0 }).1,
        (commitCache e { s with ticks := 0 }).2) := rfl
    rw [hstep]
    unfold commitCache
    by_cases hactive : cacheActive { s with ticks := 0 } = true
    · rw [if_pos hactive]
      obtain ⟨hok, hfail⟩ := writeBackFrom_spec _ h₀ (hmeets hactive)
      cases hr : (writeBackFrom e (List.range s.numberOfPhysicalBlocks)
        { s with ticks := 0 }).1 with
      | false => exact .inr (hfail hr)
      | true =>
        obtain ⟨hf, hdisk⟩ := hok hr
        refine .inl ⟨hf.right, hf.blocks, fun _ _ => ?_⟩
        funext x
        exact hdisk x (mem_range.mpr (Nat.mod_lt _ hn))
    · rw [if_neg hactive]
      exact .inl ⟨h₀, rfl, nofun⟩

theorem cacheStep_corrupt (h : s.cacheCorrupt = true) : (cacheStep s op).2.cacheCorrupt = true := by
  obtain ⟨op, e⟩ := op
  have hinactive : cacheActive { s with ticks := 0 } = false := cacheActive_of_corrupt h
  cases op with
  | read nsects lsect => exact readLoop_corrupt nsects lsect none [] h
  | write lsect data area =>
    cases hmode : s.readOnly with
    | true =>
      rw [cacheStep_readOnly hmode]
      exact h
    | false =>
      rw [cacheStep_write hmode, cacheSectors_inactive data lsect hinactive]
      exact h
  | lock => exact h
  | unlock => exact h
  | commit =>
    have hstep : (cacheStep s (.commit, e)).2 = (commitCache e { s with ticks := 0 }).2 := rfl
    rw [hstep, commitCache, if_neg (by simp [hinactive])]
    exact h

/-! ## 5. Runs -/

/-- A cache that was started, with nothing in it. -/
structure Fresh (s : SectorCache α) : Prop where
  distinct : s.Distinct
  blocks : 0 < s.numberOfPhysicalBlocks
  initialised : ∀ b, s.initialisedField b = false
  clean : ∀ b, s.dirtyField b = false
  inside : s.outside = false

theorem Fresh.right (h : Fresh s) : Right s.disk s := by
  have htags : ∀ b, s.tags b = [] := by
    intro b
    rw [tags, if_neg (by simp [h.initialised])]
  refine ⟨h.distinct, ?_, ?_, ?_, fun _ => .inl rfl, h.inside⟩
  · intro b
    rw [htags]
    exact ⟨Nat.zero_le _, nodup_nil, fun _ ht => absurd ht (by simp),
      fun _ ht => absurd ht (by simp), fun _ ht => absurd ht (by simp)⟩
  · intro b hb
    exact absurd hb (by simp [h.clean])
  · intro b t ht
    rw [htags] at ht
    exact absurd ht (by simp)

theorem SectorCache.Right.holds {vol : Nat → α} (h : Right vol s) (x : Nat) :
    Holds s x (vol x) := by
  refine (h.held x).imp id ?_
  rintro ⟨t, ht, htx, hd⟩
  exact ⟨t, ht, htx, hd, by rw [(h.fits _).data t ht, htx]⟩

/-- What a run keeps: the cache stands for the volume, or it was given up. -/
def Stands (p : (Nat → α) × SectorCache α) : Prop :=
  (Right p.1 p.2 ∧ 0 < p.2.numberOfPhysicalBlocks) ∨ p.2.cacheCorrupt = true

theorem stands_step (h : Stands p) (hmeets : OpMeets p.2 op) : Stands (volumeStep p op).2 := by
  rcases h with ⟨hright, hn⟩ | hcorrupt
  · rcases cacheStep_spec op hright hn hmeets with ⟨hr, hblocks, -⟩ | hlost
    · exact .inl ⟨hr, by rw [← hblocks] at hn; exact hn⟩
    · exact .inr hlost.1
  · exact .inr (cacheStep_corrupt op hcorrupt)

/-- While the transfers succeed the cache is not given up. -/
theorem right_step (h : Right p.1 p.2 ∧ 0 < p.2.numberOfPhysicalBlocks)
    (hmeets : OpMeets p.2 op ∧ op.2.TransfersSucceed) :
    (Right (volumeStep p op).2.1 (volumeStep p op).2.2 ∧
      0 < (volumeStep p op).2.2.numberOfPhysicalBlocks) ∧
        AnswersFrom p.1 op.1 (cacheStep p.2 op) := by
  rcases cacheStep_spec op h.1 h.2 hmeets.1 with ⟨hr, hblocks, hans⟩ | ⟨-, n, hfail⟩
  · exact ⟨⟨hr, by rw [← hblocks] at h; exact h.2⟩, hans hmeets.2⟩
  · exact absurd (hmeets.2.2 n) (by simp [hfail])

/-- A write that meets the condition leaves its data in the cache or on the disk. -/
theorem holdsWritten_step (h : Stands p)
    (hmeets : OpMeets p.2 op) : HoldsWritten op.1 (cacheStep p.2 op) := by
  obtain ⟨op, e⟩ := op
  cases op with
  | write lsect data area =>
    cases hmode : p.2.readOnly with
    | true =>
      rw [cacheStep_readOnly hmode]
      exact nofun
    | false =>
      intro _ i d hi
      obtain ⟨hactive, -, hwrites, -⟩ := hmeets hmode
      rcases h with ⟨hright, hn⟩ | hcorrupt
      · rcases cacheStep_spec _ hright hn hmeets with ⟨hr, -, -⟩ | ⟨-, n, hfail⟩
        · have hholds := hr.holds (lsect + i)
          have hvol : volumeAfter p.1 (.write lsect data area)
              (cacheStep p.2 (.write lsect data area, e)).1 (lsect + i) = d := by
            rw [cacheStep_write hmode]
            dsimp only [volumeAfter]
            rw [writeDisk, if_pos (Nat.le_add_right _ _), Nat.add_sub_cancel_left, hi]
            rfl
          rw [← hvol]
          exact hholds
        · rw [hwrites n] at hfail
          cases hfail
      · exact absurd hactive (by simp [cacheActive, hcorrupt])
  | read nsects lsect => trivial
  | lock => trivial
  | unlock => trivial
  | commit => trivial

/-- **The cache is transparent along a run of calls that meet the condition.**  While all transfers
succeed a read returns the data of the last writes, and a successful commit puts them on the disk.
Whatever failed, a write that reports success left its data in the cache or on the disk. -/
theorem sectorCache_transparent {s : SectorCache α} (hfresh : Fresh s)
    (ops : List (CacheOp α × CacheEnv)) (op : CacheOp α × CacheEnv)
    (hmeets : Guarded volumeStep (fun p op => OpMeets p.2 op) (s.disk, s) (ops ++ [op])) :
    ((∀ o ∈ ops ++ [op], o.2.TransfersSucceed) →
        AnswersFrom (run volumeStep (s.disk, s) ops).1 op.1
          (cacheStep (run volumeStep (s.disk, s) ops).2 op)) ∧
      HoldsWritten op.1 (cacheStep (run volumeStep (s.disk, s) ops).2 op) := by
  constructor
  · intro hsucceed
    have hguard : Guarded volumeStep (fun p o => OpMeets p.2 o ∧ o.2.TransfersSucceed) (s.disk, s)
        (ops ++ [op]) := hmeets.and _ _ (guarded_of_mem _ hsucceed)
    have halong := Along.of_invariant (P := fun p o r => AnswersFrom p.1 o.1 (cacheStep p.2 o))
      (fun p o hp ho => (right_step p o hp ho).1) (fun p o hp ho => (right_step p o hp ho).2)
      (ops ++ [op]) (s.disk, s) ⟨hfresh.right, hfresh.blocks⟩ hguard
    exact halong.at_step
  · have halong := Along.of_invariant (P := fun p o r => HoldsWritten o.1 (cacheStep p.2 o))
      stands_step holdsWritten_step (ops ++ [op]) (s.disk, s) (.inl ⟨hfresh.right, hfresh.blocks⟩)
      hmeets
    exact halong.at_step

/-- Four blocks, as without extended memory, over an empty disk. -/
def emptyCache : SectorCache Nat where
  windows := fun i => (i.val, [])
  xms := fun _ => []
  nextBlockPointer := ⟨0, Nat.zero_lt_succ 3⟩
  numberOfPhysicalBlocks := 4
  initialisedField := fun _ => false
  dirtyField := fun _ => false
  logicalTime := 0
  cacheInitialised := true
  cacheStarted := true
  cacheLocked := false
  cacheCorrupt := false
  outside := false
  readOnly := false
  disk := fun _ => 0
  ticks := 0

/-- Nothing fails. -/
def allSucceeds : CacheEnv := ⟨fun _ => true, fun _ => true, fun _ => true, fun _ => true⟩

theorem emptyCache_fresh : Fresh emptyCache where
  distinct := fun _ _ h => Fin.ext h
  blocks := Nat.zero_lt_succ _
  initialised := fun _ => rfl
  clean := fun _ => rfl
  inside := rfl

theorem allSucceeds_transfers (ops : List (CacheOp Nat)) :
    ∀ o ∈ ops.map (·, allSucceeds), o.2.TransfersSucceed := by
  intro o ho
  obtain ⟨op, -, rfl⟩ := mem_map.mp ho
  exact ⟨fun _ => rfl, fun _ => rfl⟩

/-- A block is filled, one more sector of it is written, and the cache is committed. -/
def fullBlock : List (CacheOp Nat × CacheEnv) :=
  [(.write 31 (List.range' 1 31) 1, allSucceeds), (.write 155 [9] 1, allSucceeds),
    (.commit, allSucceeds)]

/-- Sector 31 had to give way and comes from the disk, sector 32 is still cached. -/
theorem writtenSector_read :
    (cacheStep (run volumeStep (emptyCache.disk, emptyCache) fullBlock).2
      (.read 2 31, allSucceeds)).1 = .read (some [1, 2]) := by
  have hguard : Guarded volumeStep (fun p op => OpMeets p.2 op) (emptyCache.disk, emptyCache)
      (fullBlock ++ [(.read 2 31, allSucceeds)]) :=
    ⟨fun _ => ⟨rfl, fun _ => rfl, fun _ => rfl, by decide, by decide +kernel⟩,
      fun _ => ⟨by decide +kernel, fun _ => rfl, fun _ => rfl, by decide, by decide +kernel⟩,
      fun _ => by decide +kernel,
      ⟨.inl ⟨by decide +kernel, fun _ => rfl⟩, by decide +kernel⟩, trivial⟩
  have hans : (cacheStep (run volumeStep (emptyCache.disk, emptyCache) fullBlock).2
      (.read 2 31, allSucceeds)).1 = .read (some ((List.range' 31 2).map
        (run volumeStep (emptyCache.disk, emptyCache) fullBlock).1)) :=
    (sectorCache_transparent emptyCache_fresh fullBlock (.read 2 31, allSucceeds) hguard).1
      (allSucceeds_transfers [.write 31 (List.range' 1 31) 1, .write 155 [9] 1, .commit, .read 2 31])
  exact hans.trans (by decide +kernel)

/-- **The cache loses data while all transfers succeed.**  Sector 0 is written and the cache
committed, and it is not on the disk; a sector that is written while the cache is locked is neither
cached nor on the disk. -/
theorem sectorCache_loses :
    ¬ AnswersFrom (run volumeStep (emptyCache.disk, emptyCache) [(.write 0 [7] 1, allSucceeds)]).1
        .commit (cacheStep (run volumeStep (emptyCache.disk, emptyCache)
          [(.write 0 [7] 1, allSucceeds)]).2 (.commit, allSucceeds)) ∧
      ¬ HoldsWritten (.write 5 [7] 1) (cacheStep (run volumeStep (emptyCache.disk, emptyCache)
        [(.lock, allSucceeds)]).2 (.write 5 [7] 1, allSucceeds)) := by
  constructor
  · intro h
    have hdisk := congrFun (h (by decide +kernel)) 0
    cases hdisk
  · intro h
    rcases h rfl 0 7 rfl with hdisk | ⟨t, ht, -⟩
    · cases hdisk
    · exact absurd ht (List.not_mem_nil)

end SdcBoot.Defrag
