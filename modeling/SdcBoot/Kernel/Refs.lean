/-
# Reference counts of the SFT

`sft_count` of an entry should be the number of handle slots that hold its index, over the
tables of all processes.  Counts and slots are changed in separate steps, so this is an
invariant to be kept (`Counted`), and one that some calls break:

* `DosForceDup` of a handle onto itself closes the handle first, and then counts a reference
  that no slot holds (`dup_onto_itself_leaks`);
* `SetJFTSize` to fewer handles drops the slots behind the new end, open or not;
* `child_psp` on the segment of a live PSP overwrites its table;
* a count of 0xffff wraps to 0.

`RefOk` excludes exactly these, and `counts_along_run` says that then every successful run keeps
the counts right.
-/
import SdcBoot.Kernel.Files

namespace SdcBoot.Kernel

open Lib List Function

/-! ## 1. Handles that hold an index -/

/-- The slots of a process that count. -/
def Psp.slots (p : Psp) : List Nat := p.psFiletab.take p.psMaxfiles

/-- A sum over all processes. -/
def sumPsps (g : Psp → Nat) (psps : List (Nat × Psp)) : Nat := (psps.map fun q => g q.2).sum

/-- How many slots, over all processes, hold the index. -/
def Kern.holders (k : Kern) (i : Nat) : Nat := sumPsps (fun p => p.slots.count i) k.psps

/-- The slot of a handle of the current process; 0xff for no such handle. -/
def Kern.slot (k : Kern) (hndl : Nat) : Nat := (k.psp k.cuPsp).slots.getD hndl 0xff

theorem sumPsps_cons (g : Psp → Nat) (q : Nat × Psp) (psps : List (Nat × Psp)) :
    sumPsps g (q :: psps) = g q.2 + sumPsps g psps := by simp [sumPsps]

variable {hndl i seg : Nat} {p : Psp} {k k' : Kern} {s : Sft} {env : CloseEnv}

/-- A store to a segment that is no PSP's changes nothing. -/
theorem map_update_of_not_mem (f : Psp → Psp) : ∀ {psps : List (Nat × Psp)},
    seg ∉ psps.map Prod.fst →
    (psps.map fun q => if q.1 = seg then (q.1, f q.2) else q) = psps
  | [], _ => rfl
  | q :: psps, h => by
    simp only [map_cons, mem_cons, not_or] at h
    rw [map_cons, if_neg (Ne.symm h.1), map_update_of_not_mem f h.2]

/-- **A store to one process moves a sum by what it changes there.** -/
theorem sumPsps_update (f : Psp → Psp) (g : Psp → Nat) :
    ∀ {psps : List (Nat × Psp)}, (psps.map Prod.fst).Nodup → psps.lookup seg = some p →
      sumPsps g (psps.map fun q => if q.1 = seg then (q.1, f q.2) else q) + g p =
        sumPsps g psps + g (f p)
  | [], _, h => by simp at h
  | q :: psps, hnd, h => by
    simp only [map_cons, nodup_cons] at hnd
    by_cases hq : q.1 = seg
    · have hp : q.2 = p := by
        rw [lookup_cons] at h
        simpa [hq] using h
      rw [map_cons, if_pos hq, map_update_of_not_mem f (hq ▸ hnd.1), sumPsps_cons, sumPsps_cons, hp]
      change g (f p) + _ + _ = _
      omega
    · have h' : psps.lookup seg = some p := by
        rw [lookup_cons] at h
        have hne : (seg == q.1) = false := by simpa using Ne.symm hq
        simpa [hne] using h
      have ih := sumPsps_update f g hnd.2 h'
      rw [map_cons, if_neg hq, sumPsps_cons, sumPsps_cons]
      omega

/-- The tables are as the kernel keeps them: one PSP for a segment, `ps_maxfiles` slots present,
and every index fits a slot without being 0xff (`FILES=` is a byte). -/
structure TablesOk (k : Kern) : Prop where
  nodup : (k.psps.map Prod.fst).Nodup
  fits : ∀ q ∈ k.psps, q.2.psMaxfiles ≤ q.2.psFiletab.length
  total : sftTotal k.sfthead ≤ 0xff

/-- **Counts are right**: of an entry that exists, and no slot holds an index of none. -/
structure Counted (k : Kern) : Prop where
  count : ∀ i s, k.sft i = some s → s.sftCount = k.holders i
  valid : ∀ i, i ≠ 0xff → k.sft i = none → k.holders i = 0

theorem TablesOk.lt_255 (h : TablesOk k) (hs : k.sft i = some s) :
    i < 0xff := lt_of_lt_of_le (nthSft_lt_total hs) h.total

theorem lookup_mem : ∀ {psps : List (Nat × Psp)},
    psps.lookup seg = some p → (seg, p) ∈ psps
  | q :: psps, h => by
    rw [lookup_cons] at h
    split at h
    · rename_i heq
      cases h
      have : seg = q.1 := by simpa using heq
      simp [this]
    · exact mem_cons_of_mem _ (lookup_mem h)

/-- A handle below `ps_maxfiles` belongs to a live process. -/
theorem psp_of_lt (h : hndl < (k.psp k.cuPsp).psMaxfiles) :
    ∃ p, k.psps.lookup k.cuPsp = some p ∧ k.psp k.cuPsp = p := by
  unfold Kern.psp at *
  cases hl : k.psps.lookup k.cuPsp with
  | none => simp [hl, Psp.none] at h
  | some p => exact ⟨p, rfl, rfl⟩

variable {l : List Nat} {a attrib n : Nat} {f : Psp → Psp}

/-- Storing to one place of a list moves one occurrence. -/
theorem count_set_add (h : n < l.length) (v i : Nat) :
    (l.set n v).count i + (if l[n] = i then 1 else 0) = l.count i + (if v = i then 1 else 0) := by
  rw [count_set h]
  simp only [beq_iff_eq]
  by_cases hi : l[n] = i
  · have hpos : 0 < l.count i := count_pos_iff.mpr (hi ▸ getElem_mem h)
    rw [if_pos hi]
    omega
  · rw [if_neg hi]
    omega

/-- **A store to a slot** moves one holder. -/
theorem holders_setHandle (hok : TablesOk k) (h : hndl < (k.psp k.cuPsp).psMaxfiles) (v i : Nat) :
    (k.setHandle hndl v).holders i + (if k.slot hndl = i then 1 else 0) =
      k.holders i + (if v = i then 1 else 0) := by
  obtain ⟨p, hlook, hp⟩ := psp_of_lt h
  rw [hp] at h
  have hfit : p.psMaxfiles ≤ p.psFiletab.length := hok.fits _ (lookup_mem hlook)
  have hlt : hndl < p.slots.length := by
    simp only [Psp.slots, length_take]
    omega
  have hmove : (k.setHandle hndl v).holders i + p.slots.count i =
      k.holders i + ({ p with psFiletab := p.psFiletab.set hndl v } : Psp).slots.count i :=
    sumPsps_update (fun p => { p with psFiletab := p.psFiletab.set hndl v })
      (fun p => p.slots.count i) hok.nodup hlook
  have hset : ({ p with psFiletab := p.psFiletab.set hndl v } : Psp).slots = p.slots.set hndl v :=
    take_set
  have hslot : k.slot hndl = p.slots[hndl] := by simp [Kern.slot, hp, hlt]
  have hcount := count_set_add hlt v i
  rw [hset] at hmove
  rw [hslot]
  omega

theorem lookup_of_mem : ∀ {psps : List (Nat × Psp)},
    (psps.map Prod.fst).Nodup → (seg, p) ∈ psps → psps.lookup seg = some p
  | q :: psps, hnd, h => by
    simp only [map_cons, nodup_cons] at hnd
    rw [lookup_cons]
    rcases mem_cons.mp h with rfl | h
    · simp
    · have hne : seg ≠ q.1 := fun he => hnd.1 (he ▸ mem_map_of_mem h)
      have hbeq : (seg == q.1) = false := by simpa using hne
      rw [hbeq]
      exact lookup_of_mem hnd.2 h

/-- A store to a PSP that keeps `ps_maxfiles` slots present. -/
theorem tablesOk_setPsp (h : TablesOk k) (seg : Nat)
    (hf : ∀ p : Psp, k.psps.lookup seg = some p → p.psMaxfiles ≤ p.psFiletab.length →
      (f p).psMaxfiles ≤ (f p).psFiletab.length) : TablesOk (k.setPsp seg f) := by
  refine ⟨?_, ?_, h.total⟩
  · have hkeys : (k.setPsp seg f).psps.map Prod.fst = k.psps.map Prod.fst := by
      simp only [Kern.setPsp, map_map]
      congr 1
      funext q
      simp only [comp_apply]
      split <;> rfl
    rw [hkeys]
    exact h.nodup
  · intro q hq
    obtain ⟨q', hq', rfl⟩ := mem_map.mp hq
    have := h.fits q' hq'
    split
    · rename_i hseg
      exact hf _ (lookup_of_mem h.nodup (hseg ▸ hq')) this
    · exact this

theorem tablesOk_setHandle (h : TablesOk k) (hndl v : Nat) : TablesOk (k.setHandle hndl v) :=
  tablesOk_setPsp h _ fun p _ hp => by simpa using hp

/-- Stores to the SFT entries' fields keep the number of entries. -/
theorem sftTotal_of_same {sp sp' : List (List Sft)}
    (h : ∀ i, (nthSft sp' i).isSome = (nthSft sp i).isSome) : sftTotal sp' = sftTotal sp := by
  have hle : ∀ {a b : List (List Sft)}, (∀ i, (nthSft a i).isSome = (nthSft b i).isSome) →
      sftTotal a ≤ sftTotal b := by
    intro a b hab
    by_contra hlt
    have hlt' : sftTotal b < sftTotal a := by omega
    obtain ⟨s, hs⟩ := nthSft_of_lt hlt'
    have hb := hab (sftTotal b)
    rw [hs] at hb
    obtain ⟨s', hs'⟩ := Option.isSome_iff_exists.mp hb.symm
    have := nthSft_lt_total hs'
    omega
  exact le_antisymm (hle h) (hle fun i => (h i).symm)

/-! ## 2. The invariant after an entry has changed -/

/-- The invariant that a run keeps. -/
structure RefInv (k : Kern) : Prop where
  tables : TablesOk k
  counted : Counted k

/-- **The step rule.**  Every entry's count has moved by as much as its holders have. -/
theorem RefInv.step (h : RefInv k) (htables : TablesOk k')
    (hsome : ∀ i, (k'.sft i).isSome = (k.sft i).isSome)
    (hmove : ∀ i s s', i ≠ 0xff → k.sft i = some s → k'.sft i = some s' →
      s'.sftCount + k.holders i = s.sftCount + k'.holders i)
    (hnone : ∀ i, i ≠ 0xff → k.sft i = none → k'.holders i = k.holders i) : RefInv k' := by
  refine ⟨htables, fun i s' hs' => ?_, fun i hi hs' => ?_⟩
  · have hi : i ≠ 0xff := ne_of_lt (htables.lt_255 hs')
    have hex := hsome i
    rw [hs'] at hex
    obtain ⟨s, hs⟩ := Option.isSome_iff_exists.mp hex.symm
    have hc := h.counted.count i s hs
    have := hmove i s s' hi hs hs'
    omega
  · have hex := hsome i
    rw [hs'] at hex
    have hs : k.sft i = none := by simpa using hex.symm
    rw [hnone i hi hs]
    exact h.counted.valid i hi hs

/-! ## 3. What the handle functions read -/

theorem slot_of_lt (h : hndl < (k.psp k.cuPsp).psMaxfiles) :
    k.slot hndl = (k.psp k.cuPsp).psFiletab.getD hndl 0xff := by
  simp [Kern.slot, Psp.slots, h]

/-- A handle that leads to an entry in use. -/
theorem getSft_some (h : k.getSft hndl = some s) :
    hndl < (k.psp k.cuPsp).psMaxfiles ∧ k.getSftIdx hndl = (k.slot hndl : Int) ∧
      k.slot hndl ≠ 0xff ∧ k.sft (k.slot hndl) = some s ∧ s.sftCount ≠ 0 := by
  obtain ⟨i, hi, hs, hc⟩ := idxToSft_some h
  have hidx := hi
  unfold Kern.getSftIdx at hidx
  by_cases hlt : hndl ≥ (k.psp k.cuPsp).psMaxfiles
  · rw [if_pos hlt] at hidx
    cases hidx
  · rw [if_neg hlt] at hidx
    have hlt' : hndl < (k.psp k.cuPsp).psMaxfiles := by omega
    rw [← slot_of_lt hlt'] at hidx
    by_cases hff : k.slot hndl = 0xff
    · rw [if_pos hff] at hidx
      cases hidx
    · rw [if_neg hff] at hidx
      have hsi : k.slot hndl = i := by exact_mod_cast hidx
      exact ⟨hlt', by rw [hi, hsi], hff, by rw [hsi]; exact hs, hc⟩

theorem getFreeHndl_some (h : k.getFreeHndl = some hndl) :
    hndl < (k.psp k.cuPsp).psMaxfiles ∧ k.slot hndl = 0xff := by
  obtain ⟨hlt, hff, -⟩ := findIdx?_eq_some_iff_getElem.mp h
  have hlen := hlt
  simp only [length_take] at hlen
  refine ⟨by omega, ?_⟩
  have hff' : ((k.psp k.cuPsp).psFiletab.take (k.psp k.cuPsp).psMaxfiles)[hndl] = 0xff := by
    simpa using hff
  unfold Kern.slot Psp.slots
  rw [getD_eq_getElem?_getD, getElem?_eq_getElem hlt, hff', Option.getD_some]

theorem lookup_map_update (f : Psp → Psp) : ∀ (psps : List (Nat × Psp)),
    (psps.map fun q => if q.1 = seg then (q.1, f q.2) else q).lookup a =
      (psps.lookup a).map fun p => if a = seg then f p else p
  | [] => rfl
  | q :: psps => by
    rw [map_cons, lookup_cons, lookup_cons, lookup_map_update f psps]
    by_cases ha : a = q.1
    · by_cases hq : q.1 = seg
      · simp [ha, hq]
      · simp [ha, hq]
    · have h1 : (a == q.1) = false := by simpa using ha
      by_cases hq : q.1 = seg
      · simp [hq, hq ▸ h1]
      · simp [hq, h1]

theorem psp_setPsp (k : Kern) (f : Psp → Psp) (hnone : (f Psp.none) = Psp.none) :
    (k.setPsp k.cuPsp f).psp k.cuPsp = f (k.psp k.cuPsp) := by
  have hlook : (k.setPsp k.cuPsp f).psps.lookup k.cuPsp =
      (k.psps.lookup k.cuPsp).map fun p => if k.cuPsp = k.cuPsp then f p else p :=
    lookup_map_update f k.psps
  unfold Kern.psp
  rw [hlook]
  cases k.psps.lookup k.cuPsp with
  | none => exact hnone.symm
  | some p => simp

/-- The PSP of the current process after a store to one of its slots. -/
theorem psp_setHandle (k : Kern) (hndl v : Nat) :
    (k.setHandle hndl v).psp (k.setHandle hndl v).cuPsp =
      { k.psp k.cuPsp with psFiletab := (k.psp k.cuPsp).psFiletab.set hndl v } :=
  psp_setPsp k (fun p => { p with psFiletab := p.psFiletab.set hndl v }) rfl

theorem slots_length (hok : TablesOk k) :
    (k.psp k.cuPsp).slots.length = (k.psp k.cuPsp).psMaxfiles := by
  unfold Kern.psp
  cases hl : k.psps.lookup k.cuPsp with
  | none => rfl
  | some p =>
    have hfit : p.psMaxfiles ≤ p.psFiletab.length := hok.fits _ (lookup_mem hl)
    simp [Psp.slots, min_eq_left hfit]

theorem slot_setHandle (hok : TablesOk k) {v : Nat} (ha : a < (k.psp k.cuPsp).psMaxfiles)
    (b : Nat) : (k.setHandle a v).slot b = if a = b then v else k.slot b := by
  have hlt : a < (k.psp k.cuPsp).slots.length := by rw [slots_length hok]; exact ha
  unfold Kern.slot
  rw [psp_setHandle, Psp.slots, take_set]
  change ((k.psp k.cuPsp).slots.set a v).getD b 0xff = _
  by_cases hab : a = b
  · subst hab
    simp [hlt]
  · simp [hab]

/-! ## 4. One call -/

/-- **One more reference.**  A free slot is given the index `i`, and the count of that entry is
up by one; the counts of the others are as they were. -/
theorem RefInv.gain (h : RefInv k) (hh : hndl < (k.psp k.cuPsp).psMaxfiles)
    (hff : k.slot hndl = 0xff) (hs : k.sft i = some s) (hpsps : k'.psps = (k.setHandle hndl i).psps)
    (hown : (k'.sft i).map Sft.sftCount = some (s.sftCount + 1))
    (hothers : ∀ j, j ≠ i → (k'.sft j).map Sft.sftCount = (k.sft j).map Sft.sftCount) :
    RefInv k' := by
  have hmove : ∀ j, j ≠ 0xff → k'.holders j = k.holders j + if i = j then 1 else 0 := by
    intro j hj
    have := holders_setHandle h.tables hh i j
    rw [hff, if_neg (Ne.symm hj)] at this
    unfold Kern.holders at this ⊢
    rw [hpsps]
    exact this
  have hsome : ∀ j, (k'.sft j).isSome = (k.sft j).isSome := by
    intro j
    by_cases hj : j = i
    · subst hj
      have := congrArg Option.isSome hown
      rw [hs]
      simpa using this
    · have := congrArg Option.isSome (hothers j hj)
      simpa using this
  have htables := tablesOk_setHandle h.tables hndl i
  refine h.step ⟨?_, ?_, ?_⟩ hsome ?_ ?_
  · rw [hpsps]
    exact htables.nodup
  · rw [hpsps]
    exact htables.fits
  · rw [sftTotal_of_same hsome]
    exact h.tables.total
  · intro j t t' hj ht ht'
    rw [hmove j hj]
    by_cases hji : j = i
    · subst hji
      rw [ht'] at hown
      have ht1 : t'.sftCount = s.sftCount + 1 := Option.some.inj hown
      rw [hs] at ht
      cases ht
      rw [if_pos rfl]
      omega
    · have hoth := hothers j hji
      rw [ht', ht] at hoth
      have htt : t'.sftCount = t.sftCount := Option.some.inj hoth
      rw [if_neg (Ne.symm hji)]
      omega
  · intro j hj hnone
    rw [hmove j hj, if_neg]
    · rfl
    · rintro rfl
      rw [hs] at hnone
      cases hnone

/-- A handle is duplicated: the slot is given the index, then the count goes up. -/
theorem RefInv.add (h : RefInv k) (hh : hndl < (k.psp k.cuPsp).psMaxfiles)
    (hff : k.slot hndl = 0xff) (hs : k.sft i = some s) (hc : s.sftCount < 0xffff) :
    RefInv ((k.setHandle hndl i).setSft i fun s => { s with sftCount := up16 s.sftCount }) := by
  have hs' : (k.setHandle hndl i).sft i = some s := hs
  refine h.gain hh hff hs rfl ?_ fun j hj => ?_
  · rw [sft_setSft, if_pos rfl, hs']
    have hup : up16 s.sftCount = s.sftCount + 1 := Nat.mod_eq_of_lt (by omega)
    simp [hup]
  · rw [sft_setSft, if_neg (Ne.symm hj)]
    rfl

/-- Only the SFT, the current handles and SHARE's tables change: what `DosClose` leaves. -/
structure ClosedHandle (k : Kern) (hndl : Nat) (k' : Kern) : Prop where
  inv : RefInv k'
  same : ∀ j, (k'.sft j).isSome = (k.sft j).isSome
  psps : k'.psps = (k.setHandle hndl 0xff).psps
  cuPsp : k'.cuPsp = k.cuPsp
  others : ∀ j, j ≠ k.slot hndl → (k'.sft j).map Sft.refs = (k.sft j).map Sft.refs
  own : (k'.sft (k.slot hndl)).map Sft.sftCount =
    (k.sft (k.slot hndl)).map fun s => s.sftCount - 1

/-- A reference is dropped whose slot has been given up. -/
theorem RefInv.closed (h : RefInv k) (hget : k.getSft hndl = some s)
    (hdrop : Dropped (k.setHandle hndl 0xff) (k.slot hndl) s k') : ClosedHandle k hndl k' := by
  obtain ⟨hlt, -, -, hs, hc⟩ := getSft_some hget
  have hpsps : k'.psps = (k.setHandle hndl 0xff).psps := by rw [hdrop.rest]
  have hothers : ∀ j, j ≠ k.slot hndl →
      (k'.sft j).map Sft.refs = (k.sft j).map Sft.refs :=
    fun j hj => map_refs_of_core (hdrop.others j hj)
  have hown : (k'.sft (k.slot hndl)).map Sft.sftCount = some (s.sftCount - 1) := by
    have := congrArg (Option.map Sft.sftCount) hdrop.own
    rw [Option.map_map] at this
    refine this.trans ?_
    rw [Option.map_some]
    change some (s.released _).sftCount = _
    rw [released_count, down16, if_neg hc]
  have hsome : ∀ j, (k'.sft j).isSome = (k.sft j).isSome := by
    intro j
    by_cases hj : j = k.slot hndl
    · subst hj
      obtain ⟨t, ht, -⟩ := Option.map_eq_some_iff.mp hown
      rw [ht, hs]
      rfl
    · have := congrArg Option.isSome (hothers j hj)
      simpa using this
  have htables := tablesOk_setHandle h.tables hndl 0xff
  have hhold : ∀ j, k'.holders j = (k.setHandle hndl 0xff).holders j := by
    intro j
    unfold Kern.holders
    rw [hpsps]
  have hmove : ∀ j, j ≠ 0xff →
      k'.holders j + (if k.slot hndl = j then 1 else 0) = k.holders j := by
    intro j hj
    have := holders_setHandle h.tables hlt 0xff j
    rw [if_neg (Ne.symm hj)] at this
    rw [hhold]
    exact this
  refine ⟨h.step ⟨?_, ?_, ?_⟩ hsome ?_ ?_, hsome, hpsps, by rw [hdrop.rest]; rfl, hothers, ?_⟩
  · rw [hpsps]
    exact htables.nodup
  · rw [hpsps]
    exact htables.fits
  · rw [sftTotal_of_same hsome]
    exact h.tables.total
  · intro j t t' hj ht ht'
    have hm := hmove j hj
    by_cases hjs : j = k.slot hndl
    · subst hjs
      rw [hs] at ht
      cases ht
      rw [ht'] at hown
      have : t'.sftCount = s.sftCount - 1 := Option.some.inj hown
      rw [if_pos rfl] at hm
      omega
    · have hsame := hothers j hjs
      rw [ht, ht'] at hsame
      have : t'.sftCount = t.sftCount := congrArg Refs.count (Option.some.inj hsame)
      rw [if_neg (Ne.symm hjs)] at hm
      omega
  · intro j hj hnone
    have hm := hmove j hj
    rw [if_neg] at hm
    · exact hm
    · rintro rfl
      rw [hs] at hnone
      cases hnone
  · rw [hown, hs]
    rfl

/-- **Closing a handle** keeps the counts. -/
theorem dosCloseHandle_ok (h : RefInv k) (hrc : (dosCloseHandle k hndl env).1 = SUCCESS) :
    hndl < (k.psp k.cuPsp).psMaxfiles ∧ ClosedHandle k hndl (dosCloseHandle k hndl env).2 := by
  cases hget : k.getSft hndl with
  | none =>
    have hnone : dosCloseHandle k hndl env = (DE_INVLDHNDL, k) := by
      simp only [dosCloseHandle, show k.idxToSft (k.getSftIdx hndl) = none from hget]
    rw [hnone] at hrc
    cases hrc
  | some s =>
    obtain ⟨hlt, hidx, -, hs, -⟩ := getSft_some hget
    have hsome : dosCloseHandle k hndl env =
        dosCloseSft (k.setHandle hndl 0xff) (k.slot hndl) false env := by
      simp only [dosCloseHandle, show k.idxToSft (k.getSftIdx hndl) = some s from hget]
      rw [hidx]
    rw [hsome] at hrc ⊢
    refine ⟨hlt, ?_⟩
    rcases dosCloseSft_cases (k.setHandle hndl 0xff) (k.slot hndl) false env with
      ⟨rc, sp, hr, -, hne⟩ | ⟨i, s', hi, hs', -, -, -, hdrop⟩
    · rw [hr] at hrc
      rcases hne with hne | hne
      · exact absurd hrc hne
      · cases hne
    · have hi' : k.slot hndl = i := by exact_mod_cast hi
      rw [← hi'] at hs' hdrop
      have hss : s = s' := Option.some.inj (hs.symm.trans hs')
      rw [← hss] at hdrop
      exact h.closed hget hdrop

/-- A handle's slot after another handle has been closed. -/
theorem ClosedHandle.slot (hok : TablesOk k) (hlt : hndl < (k.psp k.cuPsp).psMaxfiles)
    (h : ClosedHandle k hndl k') (b : Nat) : k'.slot b = if hndl = b then 0xff else k.slot b := by
  have hpsp : k'.psp k'.cuPsp = (k.setHandle hndl 0xff).psp (k.setHandle hndl 0xff).cuPsp := by
    unfold Kern.psp
    rw [h.psps, h.cuPsp]
    rfl
  rw [← slot_setHandle hok hlt]
  unfold Kern.slot
  rw [hpsp]

theorem ClosedHandle.maxfiles (h : ClosedHandle k hndl k') :
    (k'.psp k'.cuPsp).psMaxfiles = (k.psp k.cuPsp).psMaxfiles := by
  have hpsp : k'.psp k'.cuPsp = (k.setHandle hndl 0xff).psp (k.setHandle hndl 0xff).cuPsp := by
    unfold Kern.psp
    rw [h.psps, h.cuPsp]
    rfl
  rw [hpsp, psp_setHandle]

/-- The count of the entry, a word, can go up once more: there is room, or a reference to the
same entry is given up first. -/
def CanAdd (k : Kern) (oldHandle newHandle : Nat) : Prop :=
  ∀ s, k.getSft oldHandle = some s →
    s.sftCount < 0xffff ∨ k.slot newHandle = k.slot oldHandle ∧ s.sftCount ≤ 0xffff

/-- **Duplicating onto another handle** keeps the counts. -/
theorem dosForceDup_ok (h : RefInv k) {oldHandle newHandle : Nat} (hne : oldHandle ≠ newHandle)
    (hlt : newHandle < (k.psp k.cuPsp).psMaxfiles) (hadd : CanAdd k oldHandle newHandle)
    (hrc : (dosForceDup k oldHandle newHandle env).1 = SUCCESS) :
    RefInv (dosForceDup k oldHandle newHandle env).2 := by
  unfold dosForceDup at hrc ⊢
  cases hget : k.getSft oldHandle with
  | none =>
    rw [hget] at hrc
    cases hrc
  | some s =>
    obtain ⟨hold, hidx, hff, hs, hc⟩ := getSft_some hget
    simp only [hget, hidx, Int.toNat_natCast, ← slot_of_lt hlt] at hrc ⊢
    -- whether the new handle was open or not: what the function goes on with
    have hgo : ∀ k1 : Kern, RefInv k1 → newHandle < (k1.psp k1.cuPsp).psMaxfiles →
        oldHandle < (k1.psp k1.cuPsp).psMaxfiles → k1.slot newHandle = 0xff →
        k1.slot oldHandle = k.slot oldHandle →
        (∀ t, k1.sft (k.slot oldHandle) = some t → t.sftCount < 0xffff) →
        (k1.sft (k.slot oldHandle)).isSome →
        RefInv ((k1.setHandle newHandle
          ((k1.psp k1.cuPsp).psFiletab.getD oldHandle 0xff)).setSft (k.slot oldHandle) fun s =>
            { s with sftCount := up16 s.sftCount }) := by
      intro k1 hinv hn ho hnew hkeep hcount hsome
      obtain ⟨t, ht⟩ := Option.isSome_iff_exists.mp hsome
      rw [← slot_of_lt ho, hkeep]
      exact hinv.add hn hnew ht (hcount t ht)
    by_cases hopen : k.slot newHandle ≠ 0xff
    · rw [if_pos hopen] at hrc ⊢
      by_cases hclose : (dosCloseHandle k newHandle env).1 ≠ SUCCESS
      · rw [if_pos hclose] at hrc
        exact absurd hrc hclose
      · rw [if_neg hclose]
        have hclosed := (dosCloseHandle_ok h (not_not.mp hclose)).2
        have hmax := hclosed.maxfiles
        refine hgo _ hclosed.inv (by rw [hmax]; exact hlt) (by rw [hmax]; exact hold) ?_ ?_ ?_ ?_
        · rw [hclosed.slot h.tables hlt, if_pos rfl]
        · rw [hclosed.slot h.tables hlt, if_neg (Ne.symm hne)]
        · intro t ht
          by_cases hsl : k.slot oldHandle = k.slot newHandle
          · have hown := hclosed.own
            rw [← hsl, ht, hs] at hown
            have ht' : t.sftCount = s.sftCount - 1 := Option.some.inj hown
            rcases hadd s hget with hlt' | ⟨-, hle⟩ <;> omega
          · have hoth := hclosed.others _ hsl
            rw [ht, hs] at hoth
            have ht' : t.sftCount = s.sftCount := congrArg Refs.count (Option.some.inj hoth)
            rw [ht']
            exact (hadd s hget).resolve_right fun he => hsl he.1.symm
        · rw [hclosed.same, hs]
          rfl
    · rw [if_neg hopen] at hrc ⊢
      simp only [ne_eq, not_true_eq_false, if_false]
      refine hgo k h hlt hold (not_not.mp hopen) rfl ?_ (by rw [hs]; rfl)
      intro t ht
      rw [hs] at ht
      cases ht
      exact (hadd s hget).resolve_right fun he => hff (he.1 ▸ not_not.mp hopen)

/-- Onto a free handle there is nothing to close. -/
theorem dosForceDup_free {k : Kern} {oldHandle newHandle : Nat} {env : CloseEnv}
    (hlt : newHandle < (k.psp k.cuPsp).psMaxfiles) (hff : k.slot newHandle = 0xff) :
    (dosForceDup k oldHandle newHandle env).1 = DE_INVLDHNDL ∨
      (k.getSft oldHandle).isSome ∧ (dosForceDup k oldHandle newHandle env).1 = SUCCESS := by
  unfold dosForceDup
  cases k.getSft oldHandle with
  | none => exact .inl rfl
  | some s =>
    right
    simp only [← slot_of_lt hlt, hff, ne_eq, not_true_eq_false, if_false]
    exact ⟨rfl, trivial⟩

theorem dosDup_ok (h : RefInv k) {handle : Nat}
    (hadd : ∀ s, k.getSft handle = some s → s.sftCount < 0xffff)
    (hrc : 0 ≤ (dosDup k handle env).1) : RefInv (dosDup k handle env).2 := by
  unfold dosDup at hrc ⊢
  cases hfree : k.getFreeHndl with
  | none =>
    rw [hfree] at hrc
    cases hrc
  | some newHandle =>
    obtain ⟨hlt, hff⟩ := getFreeHndl_some hfree
    simp only [hfree] at hrc ⊢
    rcases @dosForceDup_free k handle newHandle env hlt hff with hneg | ⟨hsome, hok⟩
    · rw [hneg] at hrc
      cases hrc
    · obtain ⟨s, hs⟩ := Option.isSome_iff_exists.mp hsome
      have hne : handle ≠ newHandle := by
        rintro rfl
        exact (getSft_some hs).2.2.1 hff
      exact dosForceDup_ok h hne hlt (fun t ht => .inl (hadd t ht)) hok

/-- A new entry with its first reference, held by a slot that was free. -/
theorem RefInv.opened (h : RefInv k) {r : Refs} (hh : hndl < (k.psp k.cuPsp).psMaxfiles)
    (hff : k.slot hndl = 0xff) (hs : k.sft i = some s) (hc : s.sftCount = 0)
    (hnew : NewEntry k i r k') (hr : r.count = 1) : RefInv (k'.setHandle hndl i) := by
  have hcounts : ∀ {a b : Option Sft}, a.map Sft.refs = b.map Sft.refs →
      a.map Sft.sftCount = b.map Sft.sftCount := by
    intro a b hab
    have := congrArg (Option.map Refs.count) hab
    simpa [comp_def, Sft.refs] using this
  refine h.gain hh hff hs ?_ ?_ fun j hj => hcounts (hnew.others j hj)
  · rw [hnew.rest]
    rfl
  · obtain ⟨t, ht, hrt⟩ := Option.map_eq_some_iff.mp hnew.own
    have ht1 : t.sftCount = 1 := (congrArg Refs.count hrt).trans hr
    change (k'.sft i).map Sft.sftCount = _
    rw [ht, Option.map_some, ht1, hc]

/-- A successful open takes a free entry, and its count is 1. -/
theorem dosOpenSft_ok {flags : Nat} {env : OpenEnv} (hred : env.remote.2.sftCount ≤ 1)
    (hrc : 0 ≤ (dosOpenSft k flags attrib env).1) :
    ∃ i r s, (dosOpenSft k flags attrib env).1 = (i : Nat) ∧ k.sft i = some s ∧ s.sftCount = 0 ∧
      NewEntry k i r (dosOpenSft k flags attrib env).2 ∧ r.count = 1 := by
  rcases dosOpenSft_cases k flags attrib env with ⟨hneg, -⟩ | ⟨i, r, s, hs, hc, hnew, hout⟩
  · omega
  · refine ⟨i, r, s, ?_, hs, hc, hnew, ?_⟩
    · rcases hout with hout | ⟨-, -, -, -, hneg | ⟨hi, -⟩⟩
      · cases hout with
        | failed hneg => omega
        | noSlot hi => exact hi.resolve_left (by omega)
        | slot n hi => exact hi
      · omega
      · exact hi
    · rcases hout with hout | ⟨-, -, -, -, hneg | ⟨-, hcount⟩⟩
      · cases hout with
        | failed hneg => omega
        | noSlot _ hr => exact hr.1
        | slot n _ hr => exact hr.1
      · omega
      · rw [hcount]
        split <;> omega

/-- **Opening** gives a new entry its first holder. -/
theorem dosOpenHandle_ok (h : RefInv k) {mode : Nat} {env : OpenEnv}
    (hred : env.remote.2.sftCount ≤ 1) (hrc : 0 ≤ (dosOpenHandle k mode attrib env).1) :
    RefInv (dosOpenHandle k mode attrib env).2 := by
  unfold dosOpenHandle at hrc ⊢
  split at hrc
  · cases hrc
  · rename_i hmode
    rw [if_neg hmode]
    cases hfree : k.getFreeHndl with
    | none =>
      rw [hfree] at hrc
      cases hrc
    | some hndl =>
      obtain ⟨hlt, hff⟩ := getFreeHndl_some hfree
      simp only [hfree] at hrc ⊢
      split at hrc
      · rename_i hneg
        simp only [SUCCESS] at hneg
        omega
      · rename_i hpos
        have hpos' : 0 ≤ (dosOpenSft k mode attrib env).1 := by
          simp only [SUCCESS] at hpos
          omega
        obtain ⟨i, r, s, hi, hs, hc, hnew, hr⟩ := dosOpenSft_ok hred hpos'
        have hbyte : i % 0x100 = i := Nat.mod_eq_of_lt (by have := h.tables.lt_255 hs; omega)
        rw [if_neg hpos, hi, Int.toNat_natCast, hbyte]
        exact h.opened hlt hff hs hc hnew hr

/-- A store to the current PSP that moves no holder. -/
theorem RefInv.resize (h : RefInv k) (mem : Memory.Arena)
    (hfits : ∀ p : Psp, k.psps.lookup k.cuPsp = some p → p.psMaxfiles ≤ p.psFiletab.length →
      (f p).psMaxfiles ≤ (f p).psFiletab.length)
    (hcount : ∀ i, i ≠ 0xff → ∀ p, k.psps.lookup k.cuPsp = some p →
      (f p).slots.count i = p.slots.count i) :
    RefInv (({ k with mem := mem } : Kern).setPsp k.cuPsp f) := by
  have hmove : ∀ i, i ≠ 0xff → (k.setPsp k.cuPsp f).holders i = k.holders i := by
    intro i hi
    cases hl : k.psps.lookup k.cuPsp with
    | none =>
      have hnot : k.cuPsp ∉ k.psps.map Prod.fst := by
        intro hmem
        obtain ⟨q, hq, hqe⟩ := mem_map.mp hmem
        have := lookup_eq_none_iff.mp hl q hq
        simp [hqe] at this
      change sumPsps _ (k.psps.map _) = _
      rw [map_update_of_not_mem f hnot]
      rfl
    | some p =>
      have := sumPsps_update f (fun p => p.slots.count i) h.tables.nodup hl
      have hc := hcount i hi p hl
      change sumPsps _ (k.psps.map _) = sumPsps _ _
      omega
  have htables := tablesOk_setPsp h.tables k.cuPsp hfits
  refine h.step ⟨htables.nodup, htables.fits, htables.total⟩ (fun _ => rfl) ?_ fun i hi _ => ?_
  · intro i s s' hi hs hs'
    have hss : s = s' := Option.some.inj (hs.symm.trans hs')
    have := hmove i hi
    change s'.sftCount + k.holders i = s.sftCount + (k.setPsp k.cuPsp f).holders i
    rw [hss, this]
  · exact hmove i hi

/-- What is cut off a list counts nothing if it is all 0xff. -/
theorem count_take_of_ff {m : Nat} (hff : ∀ j, n ≤ j → j < m → l.getD j 0xff = 0xff) (hle : n ≤ m)
    (hi : i ≠ 0xff) : (l.take n).count i = (l.take m).count i := by
  have hsplit : l.take m = l.take n ++ (l.drop n).take (m - n) := by
    rw [← take_add]
    congr 1
    omega
  have hzero : ((l.drop n).take (m - n)).count i = 0 := by
    rw [count_eq_zero]
    intro hmem
    obtain ⟨j, hj, hget⟩ := mem_iff_getElem.mp hmem
    have hlen := hj
    simp only [length_take, length_drop] at hlen
    have hval := hff (n + j) (by omega) (by omega)
    have hlt : n + j < l.length := by omega
    simp only [getElem_take, getElem_drop] at hget
    rw [getD_eq_getElem?_getD, getElem?_eq_getElem hlt, Option.getD_some, hget] at hval
    exact hi hval
  rw [hsplit, count_append, hzero]
  rfl

/-- **Resizing the handle table**, if no open handle is behind the new end. -/
theorem setJFTSize_ok (h : RefInv k) {nHandles : Nat} {rc : Int}
    (hbehind : ∀ hndl, nHandles ≤ hndl → hndl < (k.psp k.cuPsp).psMaxfiles → k.slot hndl = 0xff)
    (hrun : setJFTSize k nHandles = some (rc, k')) (hrc : rc = SUCCESS) : RefInv k' := by
  unfold setJFTSize at hrun
  dsimp only at hrun
  split at hrun
  · rename_i hle
    cases hrun
    have hpsp : ∀ p, k.psps.lookup k.cuPsp = some p → k.psp k.cuPsp = p := by
      intro p hl
      simp [Kern.psp, hl]
    refine h.resize k.mem (fun p hl hp => ?_) fun i hi p hl => ?_
    · rw [hpsp p hl] at hle
      exact le_trans hle hp
    · rw [hpsp p hl] at hle
      exact count_take_of_ff (fun hndl h1 h2 => by
        have := hbehind hndl h1 (by rw [hpsp p hl]; exact h2)
        rwa [slot_of_lt (by rw [hpsp p hl]; exact h2), hpsp p hl] at this) hle hi
  · rename_i hgt
    split at hrun
    · cases hrun
    · rename_i ans mem _
      split at hrun
      · cases hrun
        cases hrc
      · split at hrun
        · cases hrun
        · cases hrun
          have hpsp : ∀ p, k.psps.lookup k.cuPsp = some p → k.psp k.cuPsp = p := by
            intro p hl
            simp [Kern.psp, hl]
          refine h.resize mem (fun p hl hp => ?_) fun i hi p hl => ?_
          · rw [hpsp p hl] at hgt
            simp only [length_append, length_take, length_replicate]
            omega
          · have hff : ∀ n, (List.replicate n 0xff).count i = 0 := by
              intro n
              rw [count_replicate, if_neg (by simpa using Ne.symm hi)]
            have hfit := h.tables.fits _ (lookup_mem hl)
            rw [hpsp p hl] at hgt
            unfold Psp.slots
            rw [take_of_length_le]
            · rw [count_append, hff]
              rfl
            · simp only [length_append, length_take, length_replicate] at *
              omega

/-! ## 5. Inheriting -/

/-- The outcomes of `CloneHandle`: the handle cannot be inherited, or its entry is counted. -/
theorem cloneHandle_cases (k : Kern) (hndl : Nat) :
    ((cloneHandle k hndl).1 < 0 ∧ (cloneHandle k hndl).2 = k) ∨
      ∃ s, hndl < (k.psp k.cuPsp).psMaxfiles ∧ k.sft (k.slot hndl) = some s ∧
        hasBits s.sftMode O_NOINHERIT = false ∧ 0 ≤ (cloneHandle k hndl).1 ∧
        (cloneHandle k hndl).2 =
          k.setSft (k.slot hndl) fun s => { s with sftCount := up16 s.sftCount } := by
  unfold cloneHandle
  cases hget : k.getSft hndl with
  | none => exact .inl ⟨(by decide : DE_INVLDHNDL < 0), rfl⟩
  | some s =>
    obtain ⟨hlt, hidx, -, hs, -⟩ := getSft_some hget
    cases hinh : hasBits s.sftMode O_NOINHERIT with
    | true => exact .inl ⟨by simp [hinh, DE_INVLDHNDL], by simp [hinh]⟩
    | false =>
      refine .inr ⟨s, hlt, hs, hinh, ?_, ?_⟩
      · simp [hinh, SUCCESS]
      · simp [hinh, hidx]

/-- The counts have room for the handles `is` of the current process to be inherited. -/
def Room (k : Kern) (is : List Nat) : Prop :=
  ∀ j s, k.sft j = some s → hasBits s.sftMode O_NOINHERIT = false →
    s.sftCount + (is.map k.slot).count j < 0x10000

theorem cloneHandles_cons (curPsp hndl : Nat) (is : List Nat) (k : Kern) :
    cloneHandles curPsp (hndl :: is) k =
      ((if (cloneHandle k hndl).1 ≥ 0 then
          ((cloneHandle k hndl).2.psp curPsp).psFiletab.getD hndl 0xff else 0xff) ::
        (cloneHandles curPsp is (cloneHandle k hndl).2).1,
        (cloneHandles curPsp is (cloneHandle k hndl).2).2) := rfl

/-- What the loop of `child_psp` leaves, with the child's table `tab`: each entry is counted as
often as the table holds its index. -/
structure Cloned (k : Kern) (tab : List Nat) (k' : Kern) : Prop where
  rest : k' = { k with sfthead := k'.sfthead }
  same : ∀ j, (k'.sft j).isSome = (k.sft j).isSome
  count : ∀ j, j ≠ 0xff →
    (k'.sft j).map Sft.sftCount = (k.sft j).map fun s => s.sftCount + tab.count j
  valid : ∀ j, j ≠ 0xff → k.sft j = none → tab.count j = 0

/-- An inherited handle: its entry has one reference more, and the child's slot its index. -/
theorem Cloned.cons {k1 : Kern} {tab : List Nat} (hs : k.sft i = some s)
    (hk1 : k1 = k.setSft i fun s => { s with sftCount := up16 s.sftCount })
    (hup : up16 s.sftCount = s.sftCount + 1) (h : Cloned k1 tab k') : Cloned k (i :: tab) k' := by
  have hsft : ∀ j, (k1.sft j).map Sft.sftCount =
      (k.sft j).map fun t => t.sftCount + if i = j then 1 else 0 := by
    intro j
    rw [hk1, sft_setSft]
    by_cases hj : i = j
    · subst hj
      simp [hs, hup]
    · simp only [if_neg hj, add_zero]
  refine ⟨?_, fun j => ?_, fun j hj => ?_, fun j hj hn => ?_⟩
  · rw [h.rest, hk1]
    rfl
  · have := congrArg Option.isSome (hsft j)
    rw [h.same j]
    simpa using this
  · have hmap : (k1.sft j).map (fun s => s.sftCount + tab.count j) =
        ((k1.sft j).map Sft.sftCount).map (· + tab.count j) := by simp [comp_def]
    rw [h.count j hj, hmap, hsft j, Option.map_map, count_cons]
    congr 1
    funext t
    simp only [comp_apply, beq_iff_eq]
    omega
  · have hij : i ≠ j := by
      rintro rfl
      rw [hs] at hn
      cases hn
    have hn1 : k1.sft j = none := by
      rw [hk1, sft_setSft, if_neg hij]
      exact hn
    rw [count_cons_of_ne hij]
    exact h.valid j hj hn1

/-- **The loop of `child_psp`.** -/
theorem cloneHandles_spec : ∀ (is : List Nat) (k : Kern), Room k is →
    (cloneHandles k.cuPsp is k).1.length = is.length ∧
      Cloned k (cloneHandles k.cuPsp is k).1 (cloneHandles k.cuPsp is k).2
  | [], k, _ => ⟨rfl, rfl, fun _ => rfl, fun j _ => by simp [cloneHandles], fun _ _ _ => rfl⟩
  | h :: is, k, hroom => by
    rw [cloneHandles_cons]
    rcases cloneHandle_cases k h with ⟨hneg, hk⟩ | ⟨s, hlt, hs, hinh, hpos, hk⟩
    · have hroom' : Room k is := by
        intro j t ht hinh
        have := hroom j t ht hinh
        rw [map_cons, count_cons] at this
        omega
      obtain ⟨hlen, ih⟩ := cloneHandles_spec is k hroom'
      rw [if_neg (Int.not_le.mpr hneg), hk]
      refine ⟨by simp [hlen], ih.rest, ih.same, fun j hj => ?_, fun j hj hn => ?_⟩
      · rw [count_cons_of_ne (Ne.symm hj)]
        exact ih.count j hj
      · rw [count_cons_of_ne (Ne.symm hj)]
        exact ih.valid j hj hn
    · have hroom_s := hroom _ s hs hinh
      rw [map_cons, count_cons_self] at hroom_s
      have hup : up16 s.sftCount = s.sftCount + 1 := Nat.mod_eq_of_lt (by omega)
      have hslot : ∀ n, (cloneHandle k h).2.slot n = k.slot n := by
        intro n
        rw [hk]
        rfl
      have hroom' : Room (cloneHandle k h).2 is := by
        intro j t ht hinh
        rw [funext hslot]
        rw [hk, sft_setSft] at ht
        by_cases hj : k.slot h = j
        · subst hj
          simp only [if_true, hs, Option.map_some, Option.some.injEq] at ht
          subst ht
          simp only [hup]
          omega
        · rw [if_neg hj] at ht
          have := hroom j t ht hinh
          rw [map_cons, count_cons_of_ne hj] at this
          exact this
      have hcu : (cloneHandle k h).2.cuPsp = k.cuPsp := by
        rw [hk]
        rfl
      obtain ⟨hlen, ih⟩ := cloneHandles_spec is (cloneHandle k h).2 hroom'
      rw [hcu] at hlen ih
      have hpick : ((cloneHandle k h).2.psp k.cuPsp).psFiletab.getD h 0xff = k.slot h := by
        rw [hk]
        exact (slot_of_lt hlt).symm
      rw [if_pos hpos, hpick]
      exact ⟨by simp [hlen], Cloned.cons hs hk hup ih⟩

/-- **A child process** on a segment that is no live PSP's. -/
theorem childPsp_ok (h : RefInv k) {para : Nat} (hnew : para ∉ k.psps.map Prod.fst)
    (hroom : Room k (List.range 20)) : RefInv (childPsp k para) := by
  obtain ⟨hlen, hcl⟩ := cloneHandles_spec (List.range 20) k hroom
  unfold childPsp
  generalize cloneHandles k.cuPsp (List.range 20) k = r at hlen hcl
  obtain ⟨tab, k1⟩ := r
  dsimp only at hlen hcl ⊢
  have hpsps : k1.psps = k.psps := by rw [hcl.rest]
  have hfilter : (k1.psps.filter fun q => q.1 != para) = k.psps := by
    rw [hpsps, filter_eq_self]
    intro q hq
    have hne : q.1 ≠ para := fun he => hnew (he ▸ mem_map_of_mem hq)
    simpa using hne
  have htake : (⟨20, tab, k1.cuPsp⟩ : Psp).slots = tab := by
    simp [Psp.slots, take_of_length_le, hlen]
  rw [hfilter]
  have hhold : ∀ i, ({ k1 with psps := (para, ⟨20, tab, k1.cuPsp⟩) :: k.psps } : Kern).holders i =
      tab.count i + k.holders i := by
    intro i
    change sumPsps _ (_ :: k.psps) = _
    rw [sumPsps_cons, htake]
    rfl
  refine h.step ⟨?_, ?_, ?_⟩ hcl.same ?_ ?_
  · simpa using ⟨by simpa using hnew, h.tables.nodup⟩
  · intro q hq
    rcases mem_cons.mp hq with rfl | hq
    · simp [hlen]
    · exact h.tables.fits q hq
  · change sftTotal k1.sfthead ≤ _
    rw [sftTotal_of_same hcl.same]
    exact h.tables.total
  · intro i s s' hi hs hs'
    have hc := hcl.count i hi
    rw [hs, show k1.sft i = some s' from hs'] at hc
    have hc' : s'.sftCount = s.sftCount + tab.count i := Option.some.inj hc
    rw [hhold]
    omega
  · intro i hi hn
    rw [hhold, hcl.valid i hi hn, zero_add]

/-! ## 6. Whole runs -/

/-- The calls on handles; `switch` makes another process the current one. -/
inductive HandleCall where
  | switch (psp : Nat)
  | openHandle (mode attrib : Nat) (env : OpenEnv)
  | dup (handle : Nat) (env : CloseEnv)
  | forceDup (oldHandle newHandle : Nat) (env : CloseEnv)
  | close (hndl : Nat) (env : CloseEnv)
  | setJFTSize (nHandles : Nat)
  | childPsp (para : Nat)

def handleStep (k : Kern) : HandleCall → Option Int × Kern
  | .switch psp => (some SUCCESS, { k with cuPsp := psp })
  | .openHandle mode attrib env =>
    (some (dosOpenHandle k mode attrib env).1, (dosOpenHandle k mode attrib env).2)
  | .dup handle env => (some (dosDup k handle env).1, (dosDup k handle env).2)
  | .forceDup oldHandle newHandle env =>
    (some (dosForceDup k oldHandle newHandle env).1, (dosForceDup k oldHandle newHandle env).2)
  | .close hndl env => (some (dosCloseHandle k hndl env).1, (dosCloseHandle k hndl env).2)
  | .setJFTSize nHandles =>
    match setJFTSize k nHandles with
    | some (rc, k') => (some rc, k')
    | none => (none, k)
  | .childPsp para => (some SUCCESS, childPsp k para)

/-- The call succeeded: `DosOpen` and `DosDup` answer a handle, the others 0. -/
def Succeeds (k : Kern) : HandleCall → Prop
  | .openHandle mode attrib env => 0 ≤ (dosOpenHandle k mode attrib env).1
  | .dup handle env => 0 ≤ (dosDup k handle env).1
  | c => (handleStep k c).1 = some SUCCESS

/-- **The condition on a call.**  A redirector leaves `sft_count` of a file it opens at 0 or 1;
a handle is not duplicated onto itself; a table is cut only behind its last open handle, and its
size in paragraphs does not wrap; a child is not put on a live PSP; and no count wraps. -/
def RefOk (k : Kern) : HandleCall → Prop
  | .openHandle _ _ env => env.remote.2.sftCount ≤ 1
  | .dup handle _ => ∀ s, k.getSft handle = some s → s.sftCount < 0xffff
  | .forceDup oldHandle newHandle _ =>
    oldHandle ≠ newHandle ∧ newHandle < (k.psp k.cuPsp).psMaxfiles ∧ CanAdd k oldHandle newHandle
  | .setJFTSize nHandles =>
    nHandles ≤ 0xfff0 ∧
      ∀ hndl, nHandles ≤ hndl → hndl < (k.psp k.cuPsp).psMaxfiles → k.slot hndl = 0xff
  | .childPsp para => para ∉ k.psps.map Prod.fst ∧ Room k (List.range 20)
  | _ => True

theorem refInv_step {c : HandleCall} (h : RefInv k) (hok : RefOk k c ∧ Succeeds k c) :
    RefInv (handleStep k c).2 := by
  obtain ⟨hok, hsucc⟩ := hok
  cases c with
  | switch psp =>
    exact ⟨⟨h.tables.nodup, h.tables.fits, h.tables.total⟩, ⟨h.counted.count, h.counted.valid⟩⟩
  | openHandle mode attrib env => exact dosOpenHandle_ok h hok hsucc
  | dup handle env => exact dosDup_ok h hok hsucc
  | forceDup oldHandle newHandle env =>
    exact dosForceDup_ok h hok.1 hok.2.1 hok.2.2 (Option.some.inj hsucc)
  | close hndl env => exact (dosCloseHandle_ok h (Option.some.inj hsucc)).2.inv
  | setJFTSize nHandles =>
    obtain ⟨-, hbehind⟩ : nHandles ≤ 0xfff0 ∧ ∀ hndl, nHandles ≤ hndl →
      hndl < (k.psp k.cuPsp).psMaxfiles → k.slot hndl = 0xff := hok
    replace hsucc : (handleStep k (.setJFTSize nHandles)).1 = some SUCCESS := hsucc
    unfold handleStep at hsucc ⊢
    cases hrun : setJFTSize k nHandles with
    | none =>
      simp only [hrun] at hsucc
      cases hsucc
    | some r =>
      simp only [hrun] at hsucc ⊢
      exact setJFTSize_ok h hbehind hrun (Option.some.inj hsucc)
  | childPsp para =>
    obtain ⟨hnew, hroom⟩ : para ∉ k.psps.map Prod.fst ∧ Room k (List.range 20) := hok
    dsimp only [handleStep]
    exact childPsp_ok h hnew hroom

/-- **Handles and entries agree**: counts are right, every slot in use leads to an entry in use,
and every entry in use is held by a slot. -/
structure HandlesAgree (k : Kern) : Prop where
  counted : Counted k
  noDangling : ∀ q ∈ k.psps, ∀ i ∈ q.2.slots, i ≠ 0xff →
    ∃ s, k.sft i = some s ∧ s.sftCount ≠ 0
  noLeak : ∀ i s, k.sft i = some s → s.sftCount ≠ 0 → ∃ q ∈ k.psps, i ∈ q.2.slots

theorem holders_pos : k.holders i ≠ 0 ↔ ∃ q ∈ k.psps, i ∈ q.2.slots := by
  unfold Kern.holders sumPsps
  rw [ne_eq, List.sum_eq_zero_iff_forall_eq_nat]
  constructor
  · intro h
    by_contra hno
    refine h fun c hc => ?_
    obtain ⟨q, hq, rfl⟩ := mem_map.mp hc
    exact count_eq_zero.mpr fun hi => hno ⟨q, hq, hi⟩
  · rintro ⟨q, hq, hi⟩ h
    have hzero := h _ (mem_map_of_mem (f := fun q => q.2.slots.count i) hq)
    exact count_eq_zero.mp hzero hi

theorem Counted.handlesAgree (h : Counted k) : HandlesAgree k := by
  refine ⟨h, fun q hq i hi hne => ?_, fun i s hs hc => ?_⟩
  · have hpos : k.holders i ≠ 0 := holders_pos.mpr ⟨q, hq, hi⟩
    cases hs : k.sft i with
    | none => exact absurd (h.valid i hne hs) hpos
    | some s => exact ⟨s, rfl, by rw [h.count i s hs]; exact hpos⟩
  · rw [h.count i s hs] at hc
    exact holders_pos.mp hc

/-- **Reference counts along a run.**  From a state in which counts are right, along every run
of successful calls that meet `RefOk`: after each call `sft_count` of every entry is the number
of slots that hold its index, no handle leads to a free entry, and no entry in use is without a
handle. -/
theorem counts_along_run (k : Kern) (calls : List HandleCall) (h : RefInv k)
    (hok : Guarded handleStep (fun k c => RefOk k c ∧ Succeeds k c) k calls) :
    Along handleStep (fun _ _ r => HandlesAgree r.2) k calls :=
  Along.of_invariant (I := RefInv) (fun _ _ h hc => refInv_step h hc)
    (fun _ _ h hc => (refInv_step h hc).counted.handlesAgree) calls k h hok

/-- One process with two handles and no file open. -/
def oneProcess : Kern where
  sfthead := [[Sft.zero], [Sft.zero]]
  psps := [(1, ⟨2, [0xff, 0xff], 1⟩)]
  cuPsp := 1
  share := Share.init 0 0
  shareInstalled := false
  mem := ⟨fun _ => ⟨0, 0, 0⟩, 0, 0, 0xffff, 0⟩
  fat32 _ := false
  dhAttr _ := 0
  opened _ := []

theorem oneProcess_refInv : RefInv oneProcess := by
  refine ⟨⟨by decide, by decide, by decide⟩, fun i s hs => ?_, fun i hi hs => ?_⟩
  · have hlt : i < 2 := nthSft_lt_total hs
    have hall : ∀ i, i < 2 → (oneProcess.sft i).map Sft.sftCount = some (oneProcess.holders i) := by
      decide
    have := hall i hlt
    rw [hs] at this
    exact Option.some.inj this
  · by_contra hne
    obtain ⟨q, hq, hmem⟩ := holders_pos.mp hne
    have hall : ∀ q ∈ oneProcess.psps, ∀ i ∈ q.2.slots, i = 0xff := by decide
    exact hi (hall q hq i hmem)

/-- A file is found and opened. -/
def openAFile : HandleCall :=
  .openHandle 0x102 0 foundFileA

/-- Closing succeeds. -/
def closeOk : CloseEnv := ⟨0, true, true, 0, 0⟩

/-- Open a file, duplicate its handle, close the first. -/
theorem open_dup_close_counted :
    RefInv oneProcess ∧ Along handleStep (fun _ _ r => HandlesAgree r.2) oneProcess
      [openAFile, .dup 0 closeOk, .close 0 closeOk] := by
  refine ⟨oneProcess_refInv, counts_along_run _ _ oneProcess_refInv ⟨⟨?_, ?_⟩, ⟨?_, ?_⟩, ⟨?_, ?_⟩,
    trivial⟩⟩
  · exact (by decide : (0 : Nat) ≤ 1)
  · exact (by decide : (0 : Int) ≤ (handleStep oneProcess openAFile).1.getD 0)
  · intro s hs
    have hall : ((handleStep oneProcess openAFile).2.getSft 0).map Sft.sftCount = some 1 := by
      decide
    rw [hs] at hall
    have : s.sftCount = 1 := Option.some.inj hall
    omega
  · exact (by decide : (0 : Int) ≤
      (dosDup (handleStep oneProcess openAFile).2 0 closeOk).1)
  · trivial
  · exact (by decide : (handleStep (handleStep (handleStep oneProcess openAFile).2
      (.dup 0 closeOk)).2 (.close 0 closeOk)).1 = some SUCCESS)

/-- **A handle duplicated onto itself.**  Both calls succeed; afterwards entry 0 has one
reference and no slot holds its index. -/
theorem dup_onto_itself_leaks :
    RefInv oneProcess ∧
      Guarded handleStep Succeeds oneProcess [openAFile, .forceDup 0 0 closeOk] ∧
      ¬ Along handleStep (fun _ _ r => HandlesAgree r.2) oneProcess
        [openAFile, .forceDup 0 0 closeOk] := by
  refine ⟨oneProcess_refInv, ⟨?_, ?_, trivial⟩, fun h => ?_⟩
  · exact (by decide : (0 : Int) ≤ (handleStep oneProcess openAFile).1.getD 0)
  · exact (by decide : (handleStep (handleStep oneProcess openAFile).2
      (.forceDup 0 0 closeOk)).1 = some SUCCESS)
  · have hfinal : HandlesAgree (run handleStep oneProcess [openAFile, .forceDup 0 0 closeOk]) :=
      h.2.1
    have hcount : ((run handleStep oneProcess [openAFile, .forceDup 0 0 closeOk]).sft 0).map
        Sft.sftCount = some 1 := by decide
    have hhold : (run handleStep oneProcess [openAFile, .forceDup 0 0 closeOk]).holders 0 = 0 := by
      decide
    obtain ⟨s, hs, hs1⟩ := Option.map_eq_some_iff.mp hcount
    have := hfinal.counted.count 0 s hs
    omega

end SdcBoot.Kernel
