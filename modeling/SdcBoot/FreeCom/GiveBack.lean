/-
# LOADHIGH and LOADFIX give back what they take

`Holds` is the account of the blocks: what the shell owns is what it owned at first, and the blocks
in the two arrays, and those that neither array knows (`lost`), each once.  Allocating, freeing and
moving a block keep it.  At the end of `lh_lf` the blocks in `block` are freed, so that what is left
is what was lost; `Recoverable` says when nothing is, and no index is outside of its array.
-/
import SdcBoot.FreeCom.LoadHigh
import Mathlib.Data.List.Perm.Basic
import Mathlib.Data.List.Nodup
import Mathlib.Data.List.Range

namespace SdcBoot.FreeCom

open List

variable {M : Type} {D : Dos M}

/-! ## 1. The account -/

/-- What the shell owns in `s`, compared with `m₀`. -/
structure Holds (D : Dos M) (m₀ : M) (s : Taken M) (lost : List Nat) : Prop where
  owns : ∀ b, D.owns s.mem b ↔ D.owns m₀ b ∨ b ∈ s.block ++ s.avail ++ lost
  nodup : (s.block ++ s.avail ++ lost).Nodup
  fresh : ∀ b ∈ s.block ++ s.avail ++ lost, ¬ D.owns m₀ b

theorem Holds.start (m : M) : Holds D m ⟨m, [], [], false⟩ [] :=
  ⟨by simp, by simp, by simp⟩

variable {m₀ : M}

variable {s s' : Taken M} {lost : List Nat}

/-- Blocks are moved between the arrays, or memory is changed without a change of owner. -/
theorem Holds.move {lost' : List Nat} (h : Holds D m₀ s lost)
    (hmem : ∀ b, D.owns s'.mem b ↔ D.owns s.mem b)
    (hperm : (s'.block ++ s'.avail ++ lost').Perm (s.block ++ s.avail ++ lost)) :
    Holds D m₀ s' lost' := by
  refine ⟨fun b => ?_, hperm.nodup_iff.mpr h.nodup, fun b hb => h.fresh b (hperm.mem_iff.mp hb)⟩
  rw [hmem, h.owns, hperm.mem_iff]

section

variable (hD : D.Lawful)

include hD

variable {m₀ : M} {s : Taken M}

variable {lost : List Nat} {bl n : Nat}

theorem Holds.alloc_zero (h : Holds D m₀ s lost)
    (hzero : (D.alloc s.mem n).1 = 0) : Holds D m₀ { s with mem := (D.alloc s.mem n).2 } lost :=
  h.move (hD.alloc_zero _ _ hzero) (List.Perm.refl _)

/-- A block that DOS gives is in no array yet. -/
theorem Holds.alloc_new (h : Holds D m₀ s []) (hnew : (D.alloc s.mem n).1 ≠ 0) :
    Holds D m₀ { s with mem := (D.alloc s.mem n).2 } [(D.alloc s.mem n).1] := by
  obtain ⟨hnot, howns⟩ := hD.alloc_new _ _ hnew
  rw [h.owns, not_or] at hnot
  refine ⟨fun b => ?_, ?_, fun b hb => ?_⟩
  · rw [howns, h.owns]
    simp [or_assoc]
  · have hn := h.nodup
    rw [append_nil] at hn
    rw [nodup_append]
    refine ⟨hn, nodup_singleton _, fun a ha b hb => ?_⟩
    rw [mem_singleton] at hb
    rintro rfl
    exact hnot.2 (by rw [hb] at ha; simpa using ha)
  · rcases mem_append.mp hb with hb | hb
    · exact h.fresh b (by simpa using hb)
    · rw [mem_singleton] at hb
      rw [hb]
      exact hnot.1

theorem Holds.resize (h : Holds D m₀ s lost) (b n : Nat) :
    Holds D m₀ { s with mem := D.resize s.mem b n } lost :=
  h.move (hD.resize _ b n) (List.Perm.refl _)

omit hD in
theorem Holds.toBlock (h : Holds D m₀ s [bl]) : Holds D m₀ (s.toBlock bl) [] := by
  refine h.move (fun _ => Iff.rfl) ?_
  rw [perm_iff_count]
  intro b
  simp only [Taken.toBlock, count_append, count_nil]
  omega

theorem Holds.toAvail (h : Holds D m₀ s [bl]) (optS : Bool)
    (startBlock minSize : Nat) : Holds D m₀ (s.toAvail D bl optS startBlock minSize) [] := by
  cases optS with
  | true =>
    refine h.move (hD.resize _ _ _) ?_
    rw [perm_iff_count]
    intro b
    simp only [Taken.toAvail, if_true, count_append, count_nil]
    omega
  | false =>
    refine h.move (fun _ => Iff.rfl) ?_
    rw [perm_iff_count]
    intro b
    have hsplit : (s.block.take startBlock).count b + (s.block.drop startBlock).count b =
        s.block.count b := by
      rw [← count_append, take_append_drop]
    simp only [Taken.toAvail, Bool.false_eq_true, if_false, count_append, count_nil]
    omega

/-- **Freeing a list of blocks** leaves those whose `DOSfree` failed. -/
theorem freeAll_spec (l : List Nat) : ∀ {m : M}, l.Nodup → (∀ b ∈ l, D.owns m b) →
    ∃ left, left.Sublist l ∧ ((freeAll D l m).1 = true ↔ left = []) ∧
      ∀ c, D.owns (freeAll D l m).2 c ↔ (D.owns m c ∧ c ∉ l) ∨ c ∈ left := by
  induction l with
  | nil => exact fun _ _ => ⟨[], List.Sublist.refl _, by simp [freeAll], by simp [freeAll]⟩
  | cons b l ih =>
    intro m hnodup hown
    obtain ⟨hb, hl⟩ := nodup_cons.mp hnodup
    have hother : ∀ c ∈ l, D.owns (D.free m b).2 c := by
      intro c hc
      have hne : c ≠ b := fun h => hb (h ▸ hc)
      cases hf : (D.free m b).1 with
      | true => exact (hD.free_done m b hf c).mpr ⟨hown c (mem_cons_of_mem b hc), hne⟩
      | false => exact (hD.free_failed m b hf c).mpr (hown c (mem_cons_of_mem b hc))
    obtain ⟨left, hsub, hok, howns⟩ := ih hl hother
    have hrun : freeAll D (b :: l) m =
        ((D.free m b).1 && (freeAll D l (D.free m b).2).1, (freeAll D l (D.free m b).2).2) := rfl
    rw [hrun]
    cases hf : (D.free m b).1 with
    | true =>
      refine ⟨left, hsub.cons b, by simpa using hok, fun c => ?_⟩
      rw [howns, hD.free_done m b hf]
      simp only [mem_cons, not_or, and_assoc]
    | false =>
      refine ⟨b :: left, hsub.cons_cons b, by simp, fun c => ?_⟩
      rw [howns, hD.free_failed m b hf]
      simp only [mem_cons, not_or]
      by_cases hc : c = b
      · subst hc
        simp [hown c mem_cons_self, hb]
      · simp [hc]

end

/-! ## 2. The walk over the regions -/

/-- There is room in `availBlock` for a block, and for those that were found too small before. -/
def AvailFits (s : Taken M) (optS : Bool) (startBlock : Nat) : Prop :=
  s.avail.length < 256 ∧
    (optS = false → s.avail.length + 1 + (s.block.drop startBlock).length ≤ 256)

/-- **The walk over a region goes well**: for each free block that it meets, DOS gives this block and
there is room for it in its array; or DOS gives none, and nothing has been made available before. -/
def WalkFits (D : Dos M) (optS : Bool) (region : UmbRegion) (startBlock : Nat) :
    Nat → Nat → Bool → Taken M → Prop
  | 0, _, _, _ => True
  | fuel + 1, seg, found, s =>
    seg < region.stop ∧ (D.mcb s.mem seg).mcbType = 'M' →
      if (D.mcb s.mem seg).ownerPSP = 0 then
        let bl := (D.alloc s.mem (D.mcb s.mem seg).size).1
        let s' := { s with mem := (D.alloc s.mem (D.mcb s.mem seg).size).2 }
        if bl ≠ seg + 1 then bl = 0 ∧ s.avail = []
        else if usable region optS found (D.mcb s'.mem seg).size then
          AvailFits s optS startBlock ∧
            WalkFits D optS region startBlock fuel
              (mcbNext D (s'.toAvail D bl optS startBlock region.minSize).mem seg) true
              (s'.toAvail D bl optS startBlock region.minSize)
        else
          s.block.length < 256 ∧
            WalkFits D optS region startBlock fuel (mcbNext D (s'.toBlock bl).mem seg) found
              (s'.toBlock bl)
      else WalkFits D optS region startBlock fuel (mcbNext D s.mem seg) found s

/-- The walk over all regions goes well. -/
def RegionsFit (D : Dos M) (fuel : Nat) (optS : Bool) : List UmbRegion → Taken M → Prop
  | [], _ => True
  | region :: rest, s =>
    WalkFits D optS region s.block.length fuel region.start false s ∧
      ∀ s', walkRegion D optS region s.block.length fuel region.start false s = some (true, s') →
        RegionsFit D fuel optS rest s'

instance (s : Taken M) (optS : Bool) (startBlock : Nat) : Decidable (AvailFits s optS startBlock) :=
  inferInstanceAs (Decidable (_ ∧ _))

instance WalkFits.decidable (optS : Bool) (region : UmbRegion) (startBlock : Nat) :
    ∀ fuel seg found s, Decidable (WalkFits D optS region startBlock fuel seg found s)
  | 0, _, _, _ => isTrue trivial
  | fuel + 1, _, _, _ => by
    have := WalkFits.decidable optS region startBlock fuel
    unfold WalkFits
    infer_instance

instance decidableAfter {α : Type} (P : α → Prop) [∀ a, Decidable (P a)] :
    ∀ o : Option (Bool × α), Decidable (∀ a, o = some (true, a) → P a)
  | none => isTrue fun _ h => nomatch h
  | some (false, _) => isTrue fun _ h => nomatch h
  | some (true, a) => decidable_of_iff (P a) ⟨fun h _ heq => by cases heq; exact h, fun h => h a rfl⟩

instance RegionsFit.decidable (fuel : Nat) (optS : Bool) :
    ∀ regions s, Decidable (RegionsFit D fuel optS regions s)
  | [], _ => isTrue trivial
  | _ :: rest, s =>
    have := RegionsFit.decidable fuel optS rest
    inferInstanceAs (Decidable (WalkFits D optS _ _ _ _ _ s ∧ ∀ _, _ = _ → RegionsFit D _ _ _ _))

theorem toAvail_outside (s : Taken M) (bl : Nat) (optS : Bool) (startBlock minSize : Nat) :
    (s.toAvail D bl optS startBlock minSize).outside = false ↔
      s.outside = false ∧ AvailFits s optS startBlock := by
  cases optS with
  | true =>
    simp [Taken.toAvail, AvailFits]
  | false =>
    simp only [Taken.toAvail, AvailFits, Bool.false_eq_true, if_false, Bool.or_eq_false_iff,
      decide_eq_false_iff_not, not_le, not_lt, length_append, length_cons,
      length_nil, true_implies, and_assoc]

theorem toBlock_outside (s : Taken M) (bl : Nat) :
    (s.toBlock bl).outside = false ↔ s.outside = false ∧ s.block.length < 256 := by
  simp [Taken.toBlock]

/-- What a walk from `s` to `s'` has done; `fits` says that it went well. -/
structure Walked (D : Dos M) (m₀ : M) (s : Taken M) (fits : Prop) (ok : Bool) (s' : Taken M)
    (lost : List Nat) : Prop where
  holds : Holds D m₀ s' lost
  none_lost : ok = true → lost = []
  outside : s'.outside = false → s.outside = false
  fits_iff : s.outside = false →
    (fits ↔ s'.outside = false ∧ (ok = false → s'.avail = [] ∧ lost = []))

/-- A walk goes on from a state in which an index may have left its array. -/
theorem Walked.after {t : Taken M} {fits fits' room : Prop} {ok : Bool}
    (h : Walked D m₀ t fits ok s' lost) (ht : t.outside = false ↔ s.outside = false ∧ room)
    (hfits : fits' ↔ room ∧ fits) : Walked D m₀ s fits' ok s' lost := by
  refine ⟨h.holds, h.none_lost, fun hs' => (ht.mp (h.outside hs')).1, fun hs => ?_⟩
  rw [hfits]
  constructor
  · rintro ⟨hroom, hf⟩
    exact (h.fits_iff (ht.mpr ⟨hs, hroom⟩)).mp hf
  · intro hout
    have htout := h.outside hout.1
    exact ⟨(ht.mp htout).2, (h.fits_iff htout).mpr hout⟩

section

variable (hD : D.Lawful) {m₀ : M} {optS : Bool} {region : UmbRegion}

include hD

/-- **The walk over a region**, by induction on its rounds. -/
theorem walkRegion_spec (startBlock fuel : Nat) : ∀ {seg : Nat} {found : Bool} {s : Taken M}
    {ok : Bool} {s' : Taken M}, Holds D m₀ s [] →
    walkRegion D optS region startBlock fuel seg found s = some (ok, s') →
    ∃ lost, Walked D m₀ s (WalkFits D optS region startBlock fuel seg found s) ok s' lost := by
  induction fuel with
  | zero => exact nofun
  | succ fuel ih =>
    intro seg found s ok s' h hrun
    unfold walkRegion at hrun
    unfold WalkFits
    by_cases hin : seg < region.stop ∧ (D.mcb s.mem seg).mcbType = 'M'
    · rw [if_pos hin] at hrun
      simp only [hin, and_self, true_implies]
      by_cases hfree : (D.mcb s.mem seg).ownerPSP = 0
      · rw [if_pos hfree] at hrun
        rw [if_pos hfree]
        by_cases hbl : (D.alloc s.mem (D.mcb s.mem seg).size).1 ≠ seg + 1
        · rw [if_pos hbl] at hrun
          rw [if_pos hbl]
          cases hrun
          by_cases hzero : (D.alloc s.mem (D.mcb s.mem seg).size).1 = 0
          · refine ⟨[], h.alloc_zero hD hzero, fun _ => rfl, id, fun hs => ?_⟩
            simp [hzero, hs]
          · refine ⟨_, h.alloc_new hD hzero, nofun, id, fun hs => ?_⟩
            simp [hzero]
        · rw [if_neg hbl] at hrun
          rw [if_neg hbl]
          have hnew : (D.alloc s.mem (D.mcb s.mem seg).size).1 ≠ 0 := by
            rw [not_not.mp hbl]
            omega
          have hs1 := h.alloc_new hD hnew
          split at hrun
          · rename_i husable
            rw [if_pos husable]
            obtain ⟨lost, hw⟩ := ih (hs1.toAvail hD optS startBlock region.minSize) hrun
            exact ⟨lost, hw.after (toAvail_outside _ _ _ _ _) Iff.rfl⟩
          · rename_i husable
            rw [if_neg husable]
            obtain ⟨lost, hw⟩ := ih hs1.toBlock hrun
            exact ⟨lost, hw.after (toBlock_outside _ _) Iff.rfl⟩
      · rw [if_neg hfree] at hrun
        rw [if_neg hfree]
        exact ih h hrun
    · rw [if_neg hin] at hrun
      cases hrun
      refine ⟨[], h, fun _ => rfl, id, fun hs => ?_⟩
      simp [hin, hs]

/-- **The walk over all regions.** -/
theorem walkRegions_spec (fuel : Nat) (regions : List UmbRegion) : ∀ {s : Taken M} {ok : Bool}
    {s' : Taken M}, Holds D m₀ s [] → walkRegions D fuel optS regions s = some (ok, s') →
    ∃ lost, Walked D m₀ s (RegionsFit D fuel optS regions s) ok s' lost := by
  induction regions with
  | nil =>
    intro s ok s' h hrun
    cases hrun
    refine ⟨[], h, fun _ => rfl, id, fun hs => ?_⟩
    simp [RegionsFit, hs]
  | cons region rest ih =>
    intro s ok s' h hrun
    unfold walkRegions at hrun
    unfold RegionsFit
    cases hwalk : walkRegion D optS region s.block.length fuel region.start false s with
    | none =>
      rw [hwalk] at hrun
      cases hrun
    | some out =>
      obtain ⟨ok1, s1⟩ := out
      rw [hwalk] at hrun
      obtain ⟨lost1, hw1⟩ := walkRegion_spec hD _ fuel h hwalk
      cases ok1 with
      | false =>
        cases hrun
        refine ⟨lost1, hw1.holds, hw1.none_lost, hw1.outside, fun hs => ?_⟩
        rw [← hw1.fits_iff hs]
        exact ⟨And.left, fun hf => ⟨hf, nofun⟩⟩
      | true =>
        have hlost := hw1.none_lost rfl
        subst hlost
        obtain ⟨lost, hw⟩ := ih hw1.holds hrun
        refine ⟨lost, hw.holds, hw.none_lost, fun hout => hw1.outside (hw.outside hout), ?_⟩
        intro hs
        have hfirst : WalkFits D optS region s.block.length fuel region.start false s ↔
            s1.outside = false := by
          rw [hw1.fits_iff hs]
          simp
        have hrest : (∀ s2, some (true, s1) = some (true, s2) → RegionsFit D fuel optS rest s2) ↔
            RegionsFit D fuel optS rest s1 := by
          constructor
          · exact fun h => h s1 rfl
          · intro h s2 heq
            obtain rfl : s1 = s2 := (Prod.mk.inj (Option.some.inj heq)).2
            exact h
        rw [hrest, hfirst]
        constructor
        · rintro ⟨hs1, hf⟩
          exact (hw.fits_iff hs1).mp hf
        · intro hout
          exact ⟨hw.outside hout.1, (hw.fits_iff (hw.outside hout.1)).mpr hout⟩

end

/-! ## 3. LOADFIX -/

section

variable (hD : D.Lawful) {m₀ : M}

include hD

theorem loadfixLoop_spec (fuel : Nat) : ∀ {s : Taken M} {freed : Bool} {s' : Taken M},
    Holds D m₀ s [] → s.avail = [] → (s.outside = false ↔ s.block.length ≤ 256) →
    loadfixLoop D fuel s = some (freed, s') →
    ∃ lost, Holds D m₀ s' lost ∧ s'.avail = [] ∧ (lost = [] ↔ freed = true) ∧
      (s'.outside = false ↔ s'.block.length ≤ 256) := by
  induction fuel with
  | zero => exact nofun
  | succ fuel ih =>
    intro s freed s' h havail hout hrun
    unfold loadfixLoop at hrun
    simp only at hrun
    by_cases hzero : (D.alloc s.mem 1).1 = 0
    · rw [if_pos hzero] at hrun
      cases hrun
      exact ⟨[], h.alloc_zero hD hzero, havail, by simp, hout⟩
    · rw [if_neg hzero] at hrun
      have hnew := h.alloc_new hD hzero
      by_cases hhigh : 0x1000 ≤ (D.alloc s.mem 1).1
      · rw [if_pos hhigh] at hrun
        obtain ⟨hf, rfl⟩ := Prod.mk.inj (Option.some.inj hrun)
        obtain ⟨hnot, -⟩ := hD.alloc_new _ _ hzero
        rw [h.owns, not_or] at hnot
        cases freed with
        | true =>
          refine ⟨[], ⟨fun b => ?_, h.nodup, h.fresh⟩, havail, by simp, hout⟩
          rw [hD.free_done _ _ hf, hnew.owns]
          simp only [append_nil, mem_append, mem_singleton] at hnot ⊢
          constructor
          · rintro ⟨hb | hb | rfl, hne⟩
            · exact .inl hb
            · exact .inr hb
            · exact absurd rfl hne
          · rintro (hb | hb)
            · refine ⟨.inl hb, ?_⟩
              rintro rfl
              exact hnot.1 hb
            · refine ⟨.inr (.inl hb), ?_⟩
              rintro rfl
              exact hnot.2 hb
        | false =>
          exact ⟨_, hnew.move (hD.free_failed _ _ hf) (List.Perm.refl _), havail, by simp, hout⟩
      · rw [if_neg hhigh] at hrun
        have hres := hnew.resize hD (D.alloc s.mem 1).1 (0x1000 - (D.alloc s.mem 1).1)
        refine ih hres.toBlock havail ?_ hrun
        rw [toBlock_outside]
        change s.outside = false ∧ s.block.length < 256 ↔ (s.block ++ [(D.alloc s.mem 1).1]).length ≤ 256
        rw [length_append, length_singleton, hout]
        omega

/-- **The loop of `loadfix_prepare` ends**: the blocks it takes are different and lie below
1000:0000. -/
theorem loadfixLoop_ends (fuel : Nat) : ∀ {s : Taken M}, Holds D m₀ s [] →
    (∀ b ∈ s.block, b < 0x1000) → 0x1000 < fuel + s.block.length → loadfixLoop D fuel s ≠ none := by
  induction fuel with
  | zero =>
    intro s h hlow hfuel
    have hnodup : s.block.Nodup := by
      have := h.nodup
      rw [append_nil] at this
      exact (nodup_append.mp this).1
    have hsub : s.block.length ≤ (List.range 0x1000).length :=
      (subperm_of_subset hnodup fun b hb => mem_range.mpr (hlow b hb)).length_le
    rw [length_range] at hsub
    omega
  | succ fuel ih =>
    intro s h hlow hfuel
    unfold loadfixLoop
    simp only
    split
    · simp
    · rename_i hzero
      split
      · simp
      · rename_i hhigh
        have hres := (h.alloc_new hD hzero).resize hD (D.alloc s.mem 1).1
          (0x1000 - (D.alloc s.mem 1).1)
        refine ih hres.toBlock (fun b hb => ?_) ?_
        · rcases mem_append.mp hb with hb | hb
          · exact hlow b hb
          · rw [mem_singleton.mp hb]
            omega
        · change 0x1000 < fuel + (s.block ++ [(D.alloc s.mem 1).1]).length
          rw [length_append, length_singleton]
          omega

theorem loadfixPrepare_ends (m : M) : loadfixPrepare D m ≠ none := by
  have hstart : Holds D (D.setAllocStrategy m 0) ⟨D.setAllocStrategy m 0, [], [], false⟩ [] :=
    Holds.start _
  have hends := loadfixLoop_ends hD 0x1001 hstart (by simp) (by simp)
  unfold loadfixPrepare
  split
  · rename_i hnone
    exact absurd hnone hends
  · simp

end

/-! ## 4. What is left for the clean-up -/

/-- The program has what it may use, and `lost` is what the clean-up will not find. -/
structure Prepared (D : Dos M) (m₀ : M) (s : Taken M) (lost : List Nat) (fits : Prop)
    (freed : Bool) : Prop where
  holds : Holds D m₀ { s with avail := [] } lost
  fits_iff : lost = [] ∧ s.outside = false ↔ freed = true ∧ fits

/-- The state in which the walk over the regions begins. -/
def walkStart (D : Dos M) (m : M) : Taken M :=
  ⟨(D.alloc (D.setAllocStrategy (D.setUMBLinkState m 1) 0) 0xffff).2, [], [], false⟩

/-- **What is to be prepared can be taken back**: at most 256 blocks below 1000:0000, or a walk over
the regions that goes well. -/
def PrepareFits (D : Dos M) (fuel : Nat) (env : LhEnv) (loadfix optS : Bool) (choice : RegionChoice)
    (m : M) : Prop :=
  if loadfix then ∀ code freed s, loadfixPrepare D m = some (code, freed, s) → s.block.length ≤ 256
  else env.availMemory = true → RegionsFit D fuel optS choice.regions (walkStart D m)

section

variable (hD : D.Lawful) {m₀ m : M}

theorem Holds.begin (hm : ∀ b, D.owns m b ↔ D.owns m₀ b) : Holds D m₀ ⟨m, [], [], false⟩ [] :=
  ⟨fun b => by simp [hm], by simp, by simp⟩

include hD

variable {code : LhCode} {freed : Bool} {s : Taken M}

theorem loadfixPrepare_spec (hm : ∀ b, D.owns m b ↔ D.owns m₀ b)
    (hrun : loadfixPrepare D m = some (code, freed, s)) :
    ∃ lost, Prepared D m₀ s lost (s.block.length ≤ 256) freed := by
  unfold loadfixPrepare at hrun
  split at hrun
  · cases hrun
  · rename_i freed1 s1 hloop
    cases hrun
    have hstart : Holds D m₀ ⟨D.setAllocStrategy m 0, [], [], false⟩ [] :=
      Holds.begin fun b => (hD.setStrategy _ _ b).trans (hm b)
    obtain ⟨lost, hs, havail, hlost, hout⟩ := loadfixLoop_spec hD _ hstart rfl (by simp) hloop
    refine ⟨lost, hs.move (hD.setStrategy _ _) ?_, ?_⟩
    · rw [havail]
    · rw [hlost, hout]

theorem loadhighPrepare_spec {fuel : Nat} {availMemory optS upper : Bool} {regions : List UmbRegion}
    (hm : ∀ b, D.owns m b ↔ D.owns m₀ b)
    (hrun : loadhighPrepare D fuel availMemory optS upper regions m = some (code, freed, s)) :
    ∃ lost, Prepared D m₀ s lost
      (availMemory = true → RegionsFit D fuel optS regions (walkStart D m)) freed := by
  have hset : ∀ b, D.owns (D.setAllocStrategy (D.setUMBLinkState m 1) 0) b ↔ D.owns m₀ b :=
    fun b => (hD.setStrategy _ _ b).trans ((hD.setLink _ _ b).trans (hm b))
  unfold loadhighPrepare at hrun
  simp only at hrun
  cases availMemory with
  | false =>
    cases hrun
    exact ⟨[], Holds.begin hset, by simp⟩
  | true =>
    rw [if_pos rfl] at hrun
    have hstart : Holds D m₀ (walkStart D m) [] :=
      Holds.begin fun b => (hD.alloc_zero _ _ (hD.alloc_all _) b).trans (hset b)
    simp only [true_implies]
    split at hrun
    · cases hrun
    · rename_i s1 hwalk
      obtain ⟨-, rfl, rfl⟩ := Prod.mk.inj (Option.some.inj hrun) |>.imp_right Prod.mk.inj
      obtain ⟨lost, hw⟩ := walkRegions_spec hD fuel regions hstart hwalk
      refine ⟨s1.avail ++ lost, hw.holds.move (fun _ => Iff.rfl) ?_, ?_⟩
      · simp
      · have := hw.fits_iff rfl
        simp only [true_implies] at this
        rw [this, append_eq_nil_iff]
        simp only [true_and]
        exact and_comm
    · rename_i s1 hwalk
      cases hrun
      obtain ⟨lost, hw⟩ := walkRegions_spec hD fuel regions hstart hwalk
      have hlost := hw.none_lost rfl
      subst hlost
      have hown : ∀ b ∈ s1.avail, D.owns s1.mem b := by
        intro b hb
        rw [hw.holds.owns]
        exact .inr (by simp [hb])
      have hnodup := hw.holds.nodup
      rw [append_nil] at hnodup
      have hsplit := nodup_append.mp hnodup
      obtain ⟨left, hsub, hok, howns⟩ := freeAll_spec hD s1.avail hsplit.2.1 hown
      refine ⟨left, ⟨fun b => ?_, ?_, fun b hb => ?_⟩, ?_⟩
      · change D.owns (D.setAllocStrategy (freeAll D s1.avail s1.mem).2 _) b ↔ _
        rw [hD.setStrategy, howns, hw.holds.owns]
        simp only [append_nil, mem_append]
        constructor
        · rintro (⟨hb | hb | hb, hnot⟩ | hb)
          · exact .inl hb
          · exact .inr (.inl hb)
          · exact absurd hb hnot
          · exact .inr (.inr hb)
        · rintro (hb | hb | hb)
          · refine .inl ⟨.inl hb, fun hav => ?_⟩
            exact hw.holds.fresh b (by simp [hav]) hb
          · exact .inl ⟨.inr (.inl hb), fun hav => hsplit.2.2 b hb b hav rfl⟩
          · exact .inr hb
      · change (s1.block ++ [] ++ left).Nodup
        rw [append_nil]
        exact hnodup.sublist (hsub.append_left _)
      · refine hw.holds.fresh b ?_
        simp only [append_nil, mem_append] at hb ⊢
        exact hb.imp_right fun h => hsub.subset h
      · rw [← hok]
        have := hw.fits_iff rfl
        simp only [Bool.true_eq_false, false_implies, and_true] at this
        change (freeAll D s1.avail s1.mem).1 = true ∧ s1.outside = false ↔ _
        rw [← this]

end

/-! ## 5. Every call -/

/-- **`lh_lf` has given everything back**, and no index was outside of its array. -/
structure GivesBack (D : Dos M) (m : M) (r : LhResult M) : Prop where
  owns : ∀ b, D.owns r.mem b ↔ D.owns m b
  link : D.getUMBLinkState r.mem = D.getUMBLinkState m
  strategy : D.getAllocStrategy r.mem = D.getAllocStrategy m
  inside : r.outside = false

/-- The region numbers in the string of /L. -/
def regionNumbers : Nat → List Char → List Int
  | 0, _ => []
  | fuel + 1, c =>
    (regionArg c).1 ::
      match afterSemicolon (regionArg c).2.2 with
      | some next => regionNumbers fuel next
      | none => []

/-- No region number is negative. -/
def NumbersFit (opts : Option LhOptions) : Prop :=
  ∀ o ∈ opts, ∀ c ∈ o.optL, ∀ n ∈ regionNumbers (c.length + 1) c, 0 ≤ n

/-- **What can be given back**: every `DOSfree` succeeds, there are entries for the regions, no
region number is negative, and what is to be prepared can be taken back. -/
structure Recoverable (D : Dos M) (fuel : Nat) (env : LhEnv) (loadfix : Bool)
    (opts : Option LhOptions) (m : M) (r : LhResult M) : Prop where
  frees : r.freed = true
  regions : env.regionMemory = true ∧ env.blockMemory = true → ∀ code scan m₁,
    findUMBRegions D fuel (D.relocate m) = some (code, scan, m₁) → scan.outside = false ∧
      (code = .ok → NumbersFit (lhOptions loadfix opts) ∧
        ((parseArgs (lhOptions loadfix opts) env.unquote scan.found).1 = .ok →
          env.fileFound = true →
          PrepareFits D fuel env loadfix
            (((lhOptions loadfix opts).map LhOptions.optS).getD false)
            (parseArgs (lhOptions loadfix opts) env.unquote scan.found).2 m₁))

theorem chooseRegions_outside (fuel : Nat) : ∀ (r : Nat) (c : List Char) (s : RegionChoice),
    (chooseRegions fuel r c s).2.outside = false ↔
      s.outside = false ∧ ∀ n ∈ regionNumbers fuel c, 0 ≤ n := by
  induction fuel with
  | zero => simp [chooseRegions, regionNumbers]
  | succ fuel ih =>
    intro r c s
    unfold chooseRegions regionNumbers
    by_cases hbig : (regionArg c).1 ≥ (s.regions.length : Int)
    · have hpos : 0 ≤ (regionArg c).1 := by omega
      simp only [hbig, if_true]
      cases afterSemicolon (regionArg c).2.2 with
      | some next =>
        simp only [ih]
        simp [hpos]
      | none => simp [hpos]
    · simp only [hbig]
      cases afterSemicolon (regionArg c).2.2 with
      | some next =>
        simp only [ih]
        simp [and_assoc]
      | none => simp

theorem parseL_outside (optL : Option (List Char)) (regions : List UmbRegion) :
    (parseL optL regions).2.outside = false ↔
      ∀ c ∈ optL, ∀ n ∈ regionNumbers (c.length + 1) c, 0 ≤ n := by
  cases optL with
  | none => simp [parseL]
  | some c =>
    unfold parseL
    simp only [chooseRegions_outside, true_and]
    constructor
    · intro h c' hc
      cases hc
      exact h
    · exact fun h => h c rfl

theorem parseArgs_outside (opts : Option LhOptions) (unquote : Bool) (regions : List UmbRegion) :
    (parseArgs opts unquote regions).2.outside = false ↔ NumbersFit opts := by
  unfold parseArgs NumbersFit
  cases opts with
  | none => simp
  | some o =>
    rw [parseL_outside]
    constructor
    · intro h o' ho
      cases ho
      exact h
    · exact fun h => h o rfl

section

variable (hD : D.Lawful) {m₀ : M}

include hD

variable {m : M}

variable {fuel : Nat} {code : LhCode} {s : Taken M}

theorem findUMBRegions_owns {m₁ : M} {scan : RegionScan}
    (hrun : findUMBRegions D fuel m = some (code, scan, m₁)) (b : Nat) :
    D.owns m₁ b ↔ D.owns m b := by
  have hset : D.owns (D.setUMBLinkState (D.setUMBLinkState m 0) 1) b ↔ D.owns m b :=
    (hD.setLink _ _ b).trans (hD.setLink _ _ b)
  unfold findUMBRegions at hrun
  simp only at hrun
  split at hrun
  · cases hrun
  · split at hrun
    · cases hrun
      exact hD.setLink _ _ b
    · split at hrun
      · split at hrun
        · cases hrun
        · cases hrun
          exact hset
        · cases hrun
          exact hset
      · cases hrun
        exact hset

/-- **The clean-up** frees what is in `block`, and nothing else. -/
theorem cleanUp_iff {lost : List Nat} (h : Holds D m₀ { s with avail := [] } lost) (code : LhCode)
    (freed outside : Bool) :
    GivesBack D m₀ (cleanUp D (D.getUMBLinkState m₀) (D.getAllocStrategy m₀) code freed outside s) ↔
      lost = [] ∧ (freeAll D s.block s.mem).1 = true ∧ outside = false ∧ s.outside = false := by
  have hnodup := h.nodup
  rw [append_nil] at hnodup
  have hsplit := nodup_append.mp hnodup
  have hown : ∀ b ∈ s.block, D.owns s.mem b := fun b hb =>
    (h.owns b).mpr (.inr (by simp [hb]))
  obtain ⟨left, hsub, hok, howns⟩ := freeAll_spec hD s.block hsplit.1 hown
  have hfinal : ∀ b, D.owns (cleanUp D (D.getUMBLinkState m₀) (D.getAllocStrategy m₀) code freed
      outside s).mem b ↔ D.owns m₀ b ∨ b ∈ lost ∨ b ∈ left := by
    intro b
    have hset : D.owns (cleanUp D (D.getUMBLinkState m₀) (D.getAllocStrategy m₀) code freed
        outside s).mem b ↔ D.owns (freeAll D s.block s.mem).2 b :=
      (hD.setStrategy _ _ b).trans (hD.setLink _ _ b)
    rw [hset, howns, h.owns]
    simp only [append_nil, mem_append]
    constructor
    · rintro (⟨hb | hb | hb, hnot⟩ | hb)
      · exact .inl hb
      · exact absurd hb hnot
      · exact .inr (.inl hb)
      · exact .inr (.inr hb)
    · rintro (hb | hb | hb)
      · refine .inl ⟨.inl hb, fun hin => h.fresh b (by simp [hin]) hb⟩
      · exact .inl ⟨.inr (.inr hb), fun hin => hsplit.2.2 b hin b hb rfl⟩
      · exact .inr hb
  constructor
  · intro hg
    have hnone : ∀ b, b ∈ lost ∨ b ∈ left → False := by
      intro b hb
      have hin : D.owns m₀ b := (hg.owns b).mp ((hfinal b).mpr (.inr hb))
      refine h.fresh b ?_ hin
      rcases hb with hb | hb
      · simp [hb]
      · simp [hsub.subset hb]
    have hlost : lost = [] := eq_nil_iff_forall_not_mem.mpr fun b hb => hnone b (.inl hb)
    have hleft : left = [] := eq_nil_iff_forall_not_mem.mpr fun b hb => hnone b (.inr hb)
    have hin := hg.inside
    exact ⟨hlost, hok.mpr hleft, Bool.or_eq_false_iff.mp hin⟩
  · rintro ⟨rfl, hfreed, hout⟩
    have hleft := hok.mp hfreed
    refine ⟨fun b => ?_, ?_, hD.getStrategy_setStrategy _ _, Bool.or_eq_false_iff.mpr hout⟩
    · rw [hfinal, hleft]
      simp
    · exact (hD.getLink_setStrategy _ _).trans (hD.getLink_setLink _ _)

/-- Nothing was taken. -/
theorem cleanUp_none_iff (hm : ∀ b, D.owns m b ↔ D.owns m₀ b) (code : LhCode) (outside : Bool) :
    GivesBack D m₀ (cleanUp D (D.getUMBLinkState m₀) (D.getAllocStrategy m₀) code true outside
      (Taken.none m)) ↔ outside = false := by
  have h : Holds D m₀ { (Taken.none m) with avail := [] } [] := Holds.begin hm
  rw [cleanUp_iff hD h]
  simp [Taken.none, freeAll]

theorem lhPrepare_spec {env : LhEnv} {loadfix optS : Bool} {choice : RegionChoice}
    (hm : ∀ b, D.owns m b ↔ D.owns m₀ b) {freed : Bool}
    (hrun : lhPrepare D fuel env loadfix optS choice m = some (code, freed, s)) :
    ∃ lost, Prepared D m₀ s lost (PrepareFits D fuel env loadfix optS choice m) freed := by
  cases loadfix with
  | true =>
    obtain ⟨lost, hp⟩ := loadfixPrepare_spec hD hm hrun
    refine ⟨lost, hp.holds, hp.fits_iff.trans (and_congr_right fun _ => ?_)⟩
    constructor
    · intro hlen code' freed' s' hrun'
      obtain ⟨-, -, rfl⟩ := Prod.mk.inj (Option.some.inj (hrun.symm.trans hrun')) |>.imp_right
        Prod.mk.inj
      exact hlen
    · exact fun h => h _ _ _ hrun
  | false =>
    exact loadhighPrepare_spec hD hm hrun

end

/-- The call from where the regions are known. -/
theorem lhRun_iff (hD : D.Lawful) {fuel : Nat} {env : LhEnv} {loadfix : Bool}
    {opts : Option LhOptions} {scan : RegionScan} {m : M} {r : LhResult M}
    (hm : ∀ b, D.owns m b ↔ D.owns m₀ b)
    (hrun : lhRun D fuel env loadfix opts (D.getUMBLinkState m₀) (D.getAllocStrategy m₀) scan m =
      some r) :
    GivesBack D m₀ r ↔ r.freed = true ∧ scan.outside = false ∧ NumbersFit (lhOptions loadfix opts) ∧
      ((parseArgs (lhOptions loadfix opts) env.unquote scan.found).1 = .ok →
        env.fileFound = true →
        PrepareFits D fuel env loadfix
          (((lhOptions loadfix opts).map LhOptions.optS).getD false)
          (parseArgs (lhOptions loadfix opts) env.unquote scan.found).2 m) := by
  rw [← parseArgs_outside (lhOptions loadfix opts) env.unquote scan.found]
  unfold lhRun at hrun
  simp only at hrun
  generalize hargs : parseArgs (lhOptions loadfix opts) env.unquote scan.found = args at hrun ⊢
  by_cases hcode : args.1 ≠ .ok
  · rw [if_pos hcode] at hrun
    cases hrun
    rw [cleanUp_none_iff hD hm, Bool.or_eq_false_iff]
    simp [hcode, cleanUp, Taken.none, freeAll]
  · rw [if_neg hcode] at hrun
    rw [not_not] at hcode
    by_cases hfile : ¬ env.fileFound = true
    · rw [if_pos hfile] at hrun
      cases hrun
      rw [cleanUp_none_iff hD hm, Bool.or_eq_false_iff]
      simp [hfile, cleanUp, Taken.none, freeAll]
    · rw [if_neg hfile] at hrun
      rw [not_not] at hfile
      split at hrun
      · cases hrun
      · rename_i code freed s hprep
        cases hrun
        obtain ⟨lost, hp⟩ := lhPrepare_spec hD hm hprep
        have hexec : Holds D m₀ { (if code = .ok then { s with mem := D.exec s.mem } else s) with
            avail := [] } lost := by
          split
          · exact hp.holds.move (hD.exec _) (List.Perm.refl _)
          · exact hp.holds
        have hblock : (if code = .ok then { s with mem := D.exec s.mem } else s).outside =
            s.outside := by split <;> rfl
        rw [cleanUp_iff hD hexec]
        simp only [hcode, hfile, true_implies]
        have hfits := hp.fits_iff
        rw [hblock, Bool.or_eq_false_iff]
        change _ ↔ (freed && (freeAll D _ _).1) = true ∧ _
        rw [Bool.and_eq_true]
        constructor
        · rintro ⟨hlost, hfreed, ⟨hscan, hargs'⟩, hout⟩
          obtain ⟨hf, hfit⟩ := hfits.mp ⟨hlost, hout⟩
          exact ⟨⟨hf, hfreed⟩, hscan, hargs', hfit⟩
        · rintro ⟨⟨hf, hfreed⟩, hscan, hargs', hfit⟩
          obtain ⟨hlost, hout⟩ := hfits.mpr ⟨hf, hfit⟩
          exact ⟨hlost, hfreed, ⟨hscan, hargs'⟩, hout⟩

/-- The blocks that are free, in the order in which they are found, and those of the shell. -/
structure FewBlocks where
  free : List Nat
  own : List Nat
  mcbs : List (Nat × McbView)
  link : Nat
  strategy : Nat

/-- The first block that is free is given as it is. -/
def fewBlocks : Dos FewBlocks where
  mcb m seg := ((m.mcbs.find? fun x => x.1 == seg).map Prod.snd).getD ⟨'Z', 1, 1, []⟩
  firstMcb _ := 0x100
  alloc m n :=
    match m.free with
    | b :: rest =>
      if n = 0xffff ∨ b = 0 ∨ b ∈ m.own then (0, m)
      else (b, { m with free := rest, own := b :: m.own })
    | [] => (0, m)
  resize m _ _ := m
  free m b := if b ∈ m.own then (true, { m with own := m.own.filter (· ≠ b) }) else (false, m)
  getUMBLinkState m := m.link
  setUMBLinkState m n := { m with link := n }
  getAllocStrategy m := m.strategy
  setAllocStrategy m n := { m with strategy := n }
  relocate m := m
  exec m := m
  owns m b := b ∈ m.own

theorem fewBlocks_lawful : fewBlocks.Lawful := by
  refine ⟨fun m n h b => ?_, fun m n h => ?_, fun m => ?_, fun _ _ _ _ => Iff.rfl,
    fun m b h c => ?_, fun m b h c => ?_, fun _ _ _ => Iff.rfl, fun _ _ _ => Iff.rfl,
    fun _ _ => Iff.rfl, fun _ _ => Iff.rfl, fun _ _ => rfl, fun _ _ => rfl, fun _ _ => rfl⟩
  · cases hfree : m.free with
    | nil => simp [fewBlocks, hfree]
    | cons x rest =>
      simp only [fewBlocks, hfree] at h ⊢
      split at h
      · rename_i hno
        rw [if_pos hno]
      · rename_i hyes
        exact absurd h (fun h0 => hyes (.inr (.inl h0)))
  · cases hfree : m.free with
    | nil => simp [fewBlocks, hfree] at h
    | cons x rest =>
      simp only [fewBlocks, hfree] at h ⊢
      split at h
      · exact absurd rfl h
      · rename_i hyes
        rw [if_neg hyes]
        refine ⟨fun hin => hyes (.inr (.inr hin)), fun b => ?_⟩
        rw [mem_cons, or_comm]
  · cases hfree : m.free <;> simp [fewBlocks, hfree]
  · by_cases hb : b ∈ m.own
    · simp [fewBlocks, hb]
    · simp [fewBlocks, hb] at h
  · by_cases hb : b ∈ m.own
    · simp [fewBlocks, hb] at h
    · simp [fewBlocks, hb]

/-- All arrays can be had, and the file is found. -/
def lhReady : LhEnv := ⟨true, true, true, true, true⟩

/-- Two free blocks, one of them below 1000:0000. -/
def lowMemory : FewBlocks := ⟨[0x800, 0x1800], [0x200], [], 0, 2⟩

/-- Two free blocks at the start of the chain; DOS does not give the second. -/
def brokenMemory : FewBlocks :=
  ⟨[0x101], [0x200], [(0x100, ⟨'M', 0, 0xf, []⟩), (0x110, ⟨'M', 0, 0xf, []⟩),
    (0x120, ⟨'Z', 1, 0x100, []⟩)], 0, 2⟩

/-- Two free blocks in the chain, of 10h and 40h paragraphs. -/
def twoFree : FewBlocks :=
  ⟨[0x111, 0x141], [0x200], [(0x100, ⟨'M', 8, 0xf, []⟩), (0x110, ⟨'M', 0, 0x10, []⟩),
    (0x121, ⟨'M', 0x200, 0x1e, []⟩), (0x140, ⟨'M', 0, 0x40, []⟩), (0x181, ⟨'Z', 0x200, 0x80, []⟩)],
    0, 2⟩

/-- /L:0,512 /S -/
def lowRegion : Option LhOptions := some ⟨true, some "0,512".toList, ['x']⟩

end SdcBoot.FreeCom
