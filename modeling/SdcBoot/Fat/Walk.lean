/-
# Following chains on a damaged FAT

A FAT may hold anything: chains that run in circles, merge, or lead to clusters that are free, bad
or not there.  The routines that work on it are stated here for every FAT.

The plain walk is `onward`: from a cluster that exists to its link.  `next_cluster` is this walk with
a look at the cluster it leads to (`checkedNext`).  On it rest

* `find_fat_free`, which answers the first free cluster from the hint on, going around
  (`find_fat_free_complete`);
* `wipe_out_clusters`, which frees only what it was led to, and exactly the chain where there is one
  (`wipe_out_clusters_frees`).

Each loop has a twin that says whether it came to its end (`searchWithin`, `wipeWithin`), so that
running out of fuel is not mistaken for an end.
-/
import SdcBoot.Fat.Entries
import SdcBoot.Lib.Walk

namespace SdcBoot.Fat

open Lib Block Kernel List Option

/-! ## 1. The plain walk, and `next_cluster` -/

/-- A cluster of the volume. -/
def Dpb.InRange (v : Dpb) (c : Nat) : Prop := 2 ≤ c ∧ c ≤ v.maxCluster

instance (v : Dpb) (c : Nat) : Decidable (v.InRange c) := by
  unfold Dpb.InRange
  infer_instance

/-- The next element of a chain: the link of a cluster that exists. -/
def onward (v : Dpb) (disk : Nat → Sector) (c : Nat) : Option Nat :=
  if v.InRange c then some (link v disk c) else none

variable {v : Dpb}

variable {c x : Nat} {σ : Type} {m : Mem}

theorem onward_eq_some {disk : Nat → Sector} {d : Nat} :
    onward v disk c = some d ↔ v.InRange c ∧ link v disk c = d := by
  unfold onward
  split
  · rename_i h
    simp [h]
  · rename_i h
    simp [h]

theorem onward_last (hv : v.WF) (disk : Nat → Sector) : onward v disk LONG_LAST_CLUSTER = none := by
  have hbad := hv.max_lt_bad
  refine if_neg fun h => ?_
  have := h.2
  simp only [LONG_LAST_CLUSTER, LONG_BAD] at *
  omega

theorem onward_congr {v : Dpb} {disk disk' : Nat → Sector}
    (h : ∀ c, c ≤ v.maxCluster → link v disk' c = link v disk c) :
    onward v disk' = onward v disk := by
  funext c
  unfold onward
  split
  · rename_i hc
    rw [h c hc.2]
  · rfl

/-- The look-ahead of `next_cluster` lets the cluster pass: it ends the chain, is marked bad, or
leads to a cluster that exists. -/
def Accepted (v : Dpb) (disk : Nat → Sector) (c : Nat) : Prop :=
  LONG_BAD ≤ link v disk c ∨ v.InRange (link v disk c)

instance (v : Dpb) (disk : Nat → Sector) (c : Nat) : Decidable (Accepted v disk c) := by
  unfold Accepted
  infer_instance

/-- What `next_cluster` answers. -/
def checkedNext (v : Dpb) (disk : Nat → Sector) (c : Nat) : Nat :=
  if v.InRange c then
    if link v disk c < 2 ∨ link v disk c ≥ LONG_BAD then link v disk c
    else if v.InRange (link v disk c) ∧ Accepted v disk (link v disk c) then link v disk c
    else 1
  else 1

/-- An entry that is no number of a cluster is one of two marks. -/
theorem decode_marks {mask bad : Nat} (hx : x < LONG_BAD)
    (h : LONG_BAD ≤ if x ≥ mask then LONG_LAST_CLUSTER else if x = bad then LONG_BAD else x) :
    (if x ≥ mask then LONG_LAST_CLUSTER else if x = bad then LONG_BAD else x) = LONG_BAD ∨
      (if x ≥ mask then LONG_LAST_CLUSTER else if x = bad then LONG_BAD else x) =
        LONG_LAST_CLUSTER := by
  by_cases hlast : x ≥ mask
  · exact .inr (if_pos hlast)
  · rw [if_neg hlast] at h ⊢
    by_cases hbad : x = bad
    · exact .inl (if_pos hbad)
    · rw [if_neg hbad] at h
      exact absurd hx (not_lt.mpr h)

theorem decode32_marks (h : LONG_BAD ≤ decode32 x) :
    decode32 x = LONG_BAD ∨ decode32 x = LONG_LAST_CLUSTER := by
  unfold decode32 at *
  by_cases hlast : x > LONG_BAD
  · exact .inr (if_pos hlast)
  · rw [if_neg hlast] at h ⊢
    exact .inl (le_antisymm (not_lt.mp hlast) h)

/-- Above the clusters there are two marks. -/
theorem link_marks (v : Dpb) (disk : Nat → Sector) (h : LONG_BAD ≤ link v disk c) :
    link v disk c = LONG_BAD ∨ link v disk c = LONG_LAST_CLUSTER := by
  have hbyte := fatByte_lt v disk
  unfold link at *
  split at h
  · rename_i h12
    rw [if_pos h12]
    have hlt : unpack12 c (fatByte v disk (3 * c / 2) + 256 * fatByte v disk (3 * c / 2 + 1)) <
        LONG_BAD := lt_trans (Nat.mod_lt _ (by decide)) (by decide)
    exact decode_marks hlt h
  · rename_i h12
    rw [if_neg h12]
    split at h
    · rename_i h16
      rw [if_pos h16]
      have h0 := hbyte (2 * c)
      have h1 := hbyte (2 * c + 1)
      exact decode_marks (by simp only [LONG_BAD]; omega) h
    · rename_i h16
      rw [if_neg h16]
      exact decode32_marks h

section

variable {v : Dpb} (hv : v.WF)
include hv

/-- **`next_cluster`, on every FAT.** -/
theorem nextCluster_exact (c : Nat) (f : Flat Mem) :
    (nextCluster v c).exec (flat Mem v.area) f = some (checkedNext v f.disk c, f) := by
  unfold nextCluster checkedNext
  by_cases hc : v.InRange c
  · rw [Prog.exec_bind, linkFat_read hv hc.1 hc.2, if_pos hc]
    simp only [bind_some]
    by_cases hmark : link v f.disk c < 2 ∨ link v f.disk c ≥ LONG_BAD
    · rw [if_pos hmark, if_pos hmark]
      rfl
    · rw [if_neg hmark, if_neg hmark]
      by_cases hnext : v.InRange (link v f.disk c)
      · rw [Prog.exec_bind, linkFat_read hv hnext.1 hnext.2]
        simp only [bind_some, hnext, true_and]
        by_cases hacc : Accepted v f.disk (link v f.disk c)
        · rw [if_pos hacc, if_neg]
          · rfl
          · unfold Accepted Dpb.InRange at hacc
            omega
        · rw [if_neg hacc, if_pos]
          · rfl
          · unfold Accepted Dpb.InRange at hacc
            omega
      · -- `link_fat` refuses to read it, and answers 1
        rw [Prog.exec_bind, linkFat_refused (.inl (by unfold Dpb.InRange at hnext; omega)),
          if_neg fun h => hnext h.1]
        rfl
  · rw [Prog.exec_bind, linkFat_refused (.inl (by unfold Dpb.InRange at hc; omega)), if_neg hc]
    rfl

omit hv in
/-- An answer above 1 is the link. -/
theorem checkedNext_link {disk : Nat → Sector} {c : Nat} (h : 1 < checkedNext v disk c) :
    v.InRange c ∧ checkedNext v disk c = link v disk c := by
  unfold checkedNext at *
  split at h
  · rename_i hc
    refine ⟨hc, ?_⟩
    rw [if_pos hc]
    split at h
    · rename_i hmark
      rw [if_pos hmark]
    · rename_i hmark
      rw [if_neg hmark]
      split at h
      · rename_i hnext
        rw [if_pos hnext]
      · omega
  · omega

end

/-! ## 2. The search for a free cluster -/

/-- The loop of `find_fat_free`, which says `none` when its rounds are used up. -/
def searchWithin (v : Dpb) (start : Nat) : Nat → Nat → FatProg (Option Nat)
  | 0, _ => pure none
  | n + 1, idx => do
    let free ← isFreeCluster v idx
    if free then pure (some idx)
    else if (if idx + 1 > v.maxCluster then 2 else idx + 1) = start then
      pure (some LONG_LAST_CLUSTER)
    else searchWithin v start n (if idx + 1 > v.maxCluster then 2 else idx + 1)

/-- It is the loop. -/
theorem searchFree_within (h : Handler (BlockOp Mem) σ) (v : Dpb) (start : Nat) :
    ∀ (n idx : Nat) (s : σ), (searchFree v start n idx).exec h s =
      ((searchWithin v start n idx).exec h s).map fun r => (r.1.getD LONG_LAST_CLUSTER, r.2) := by
  intro n
  induction n with
  | zero => exact fun _ _ => rfl
  | succ n ih =>
    intro idx s
    unfold searchFree searchWithin
    rw [Prog.exec_bind, Prog.exec_bind]
    cases (isFreeCluster v idx).exec h s with
    | none => rfl
    | some r =>
      simp only [bind_some]
      by_cases hfree : r.1 = true
      · rw [if_pos hfree, if_pos hfree]
        rfl
      · rw [if_neg hfree, if_neg hfree]
        by_cases hback : (if idx + 1 > v.maxCluster then 2 else idx + 1) = start
        · rw [if_pos hback, if_pos hback]
          rfl
        · rw [if_neg hback, if_neg hback]
          exact ih _ r.2

/-- The first free cluster from `start` on, going around, or LONG_LAST_CLUSTER. -/
structure FirstFree (v : Dpb) (disk : Nat → Sector) (start r : Nat) : Prop where
  full : r = LONG_LAST_CLUSTER ↔ ∀ c, v.InRange c → link v disk c ≠ FREE
  found : r ≠ LONG_LAST_CLUSTER → v.InRange r ∧ link v disk r = FREE
  first : r ≠ LONG_LAST_CLUSTER → ∀ c, v.InRange c →
    around start v.maxCluster c < around start v.maxCluster r → link v disk c ≠ FREE

/-- Where `find_fat_free` starts. -/
def Mem.searchStart (m : Mem) (v : Dpb) : Nat := if m.hint v ≠ UNKNCLUSTER then m.hint v else 2

section

variable {v : Dpb} (hv : v.WF)
include hv

theorem Dpb.WF.range_ne_last {c : Nat} (hc : v.InRange c) : c ≠ LONG_LAST_CLUSTER := by
  have hbad := hv.max_lt_bad
  have := hc.2
  simp only [LONG_BAD, LONG_LAST_CLUSTER] at *
  omega

/-- **Once around the FAT**, with the first free cluster found: those from `start` up to `idx` are
not free. -/
theorem searchWithin_spec {start : Nat} (hs : v.InRange start) (f : Flat Mem) :
    ∀ (n idx : Nat), v.InRange idx → v.maxCluster - 1 ≤ n + around start v.maxCluster idx →
      (∀ c, v.InRange c → around start v.maxCluster c < around start v.maxCluster idx →
        link v f.disk c ≠ FREE) →
      ∃ r, (searchWithin v start n idx).exec (flat Mem v.area) f = some (some r, f) ∧
        FirstFree v f.disk start r := by
  intro n
  induction n with
  | zero =>
    intro idx hidx hfuel _
    have hle := around_le hs hidx
    have := hv.clusters
    omega
  | succ n ih =>
    intro idx hidx hfuel hseen
    unfold searchWithin
    rw [Prog.exec_bind, isFreeCluster_spec hv hidx.1 hidx.2]
    simp only [bind_some, beq_iff_eq]
    by_cases hfree : link v f.disk idx = FREE
    · rw [if_pos hfree]
      refine ⟨idx, rfl, ⟨fun hr => absurd hr (hv.range_ne_last hidx), fun hno => ?_⟩,
        fun _ => ⟨hidx, hfree⟩, fun _ => hseen⟩
      exact absurd hfree (hno idx hidx)
    · rw [if_neg hfree]
      obtain ⟨hrange, hlast, hnext⟩ := around_next hs hidx
      have hseen' := fun c hlo hhi => hseen c ⟨hlo, hhi⟩
      by_cases hback : (if idx + 1 > v.maxCluster then 2 else idx + 1) = start
      · rw [if_pos hback]
        refine ⟨_, rfl, ⟨fun _ c hc => ?_, fun _ => rfl⟩, fun hr => absurd rfl hr,
          fun hr => absurd rfl hr⟩
        have hle := around_le hs hc
        rw [← hlast hback] at hle
        exact seen_next hs hidx hseen' hfree hc.1 hc.2 hle
      · rw [if_neg hback]
        refine ih _ hrange ?_ fun c hc hlt => ?_
        · rw [hnext hback]
          omega
        · rw [hnext hback] at hlt
          exact seen_next hs hidx hseen' hfree hc.1 hc.2 (Nat.le_of_lt_succ hlt)

variable {m : Mem}

theorem searchStart_range (hhint : m.hint v = UNKNCLUSTER ∨ v.InRange (m.hint v)) :
    v.InRange (m.searchStart v) := by
  have := hv.clusters
  unfold Mem.searchStart
  split
  · rename_i hne
    exact hhint.resolve_left hne
  · exact ⟨le_refl 2, this⟩

theorem search_from_start (hhint : m.hint v = UNKNCLUSTER ∨ v.InRange (m.hint v)) (f : Flat Mem)
    {n : Nat} (hn : v.maxCluster - 1 ≤ n) :
    ∃ r, (searchWithin v (m.searchStart v) n (m.searchStart v)).exec (flat Mem v.area) f =
      some (some r, f) ∧ FirstFree v f.disk (m.searchStart v) r := by
  have hs := searchStart_range hv hhint
  refine searchWithin_spec hv hs f n _ hs (by omega) fun c _ hlt => ?_
  exact absurd hlt (by simp [around])

theorem findFatFree_first {f : Flat Mem}
    (hhint : f.mem.hint v = UNKNCLUSTER ∨ v.InRange (f.mem.hint v)) :
    (findFatFree v).Meets (flat Mem v.area) f fun r _ =>
      FirstFree v f.disk (f.mem.searchStart v) r := by
  obtain ⟨r, hrun, hfirst⟩ := search_from_start hv hhint f (Nat.sub_le v.maxCluster 1)
  have hsearch := searchFree_within (flat Mem v.area) v (f.mem.searchStart v) v.maxCluster
    (f.mem.searchStart v) f
  rw [hrun] at hsearch
  refine Prog.Meets.bind ⟨_, _, exec_getMem f, ?_⟩
  refine Prog.Meets.bind ⟨r, f, hsearch, ?_⟩
  refine Prog.Meets.bind ⟨_, _, exec_setMem _ f, ?_⟩
  dsimp only
  split
  · rename_i h32
    exact Prog.Meets.bind ((writeFsinfo_spec hv h32 _).mono fun _ _ _ => Prog.Meets.pure hfirst)
  · exact Prog.Meets.pure hfirst

/-- **The search for a free cluster is complete.**  On every FAT, from a hint that is unknown or in
range, `find_fat_free` comes to its end within one round; its answer is LONG_LAST_CLUSTER exactly
when no cluster is free, and the first free one from the hint on otherwise. -/
theorem find_fat_free_complete {s : Machine Mem} (hquiet : Quiet v.area s.cache)
    (hhint : s.mem.hint v = UNKNCLUSTER ∨ v.InRange (s.mem.hint v)) :
    ((findFatFree v).Meets (cached Mem v.area) s fun r _ =>
      FirstFree v (s.cache.view v.dpbUnit) (s.mem.searchStart v) r) ∧
    ∀ n, v.maxCluster - 1 ≤ n →
      (searchWithin v (s.mem.searchStart v) n (s.mem.searchStart v)).Meets (cached Mem v.area) s
        fun r _ => ∃ c, r = some c ∧
          FirstFree v (s.cache.view v.dpbUnit) (s.mem.searchStart v) c := by
  have hagree := agree_view hv hquiet
  refine ⟨?_, fun n hn => ?_⟩
  · exact (cached_sim hagree (findFatFree_first hv hhint)).mono fun r s' ⟨_, _, h⟩ => h
  · obtain ⟨r, hrun, hfirst⟩ := search_from_start hv hhint ⟨s.cache.view v.dpbUnit, s.mem⟩ hn
    refine (cached_sim hagree (Q := fun r' _ => r' = some r) ⟨_, _, hrun, rfl⟩).mono ?_
    exact fun r' s' ⟨_, _, h⟩ => ⟨r, h, hfirst⟩

end

/-- The chain 2, 3. -/
def soundFat : Sector := fun o => [0xf0, 0xff, 0xff, 0x03, 0xf0, 0xff].getD o 0

/-- The last cluster of the diskette is the end of a chain. -/
def lastFat : Sector := fun o => if o = 176 then 0xff else if o = 177 then 0x0f else 0

/-- A machine whose diskette has these two chains: 2844 clusters are free, as it has counted, and
the search starts at the last cluster. -/
def usedMachine : Machine Mem where
  cache := { freshMachine.cache with
    dev := fun _ b => if b = 1 then soundFat else if b = 9 then lastFat else fun _ => 0 }
  mem := ⟨2848, 2844, UNKNCLUSTER, [], false⟩

theorem usedMachine_quiet : Quiet diskette.area usedMachine.cache := fresh_quiet _

/-- Around from the last cluster, 4 is the first free one. -/
theorem usedMachine_firstFree {r : Nat}
    (h : FirstFree diskette (usedMachine.cache.view 0) 2848 r) : r = 4 := by
  have hfour : link diskette (usedMachine.cache.view 0) 4 = FREE := by decide +kernel
  have hused : ∀ c ∈ [2848, 2, 3], link diskette (usedMachine.cache.view 0) c ≠ FREE := by
    decide +kernel
  have hsome : r ≠ LONG_LAST_CLUSTER := fun hr => h.full.mp hr 4 (by decide) hfour
  obtain ⟨⟨hlo, hhi⟩, hfree⟩ := h.found hsome
  have hnot : ¬ around 2848 2848 4 < around 2848 2848 r := fun hlt =>
    h.first hsome 4 (by decide) hlt hfour
  have hne : ∀ c ∈ [2848, 2, 3], r ≠ c := by
    rintro c hc rfl
    exact hused _ hc hfree
  have hmax : r ≤ 2848 := hhi
  have h1 := hne 2848 (by simp)
  have h2 := hne 2 (by simp)
  have h3 := hne 3 (by simp)
  unfold around at hnot
  split at hnot
  · omega
  · rw [if_neg (by omega)] at hnot
    omega

/-- The search passes the end of the FAT, and the chain 2, 3. -/
theorem diskette_find_fat_free :
    ((findFatFree diskette).Meets (cached Mem diskette.area) usedMachine fun r _ => r = 4) ∧
    ∀ n, 2847 ≤ n →
      (searchWithin diskette 2848 n 2848).Meets (cached Mem diskette.area) usedMachine
        fun r _ => r = some 4 := by
  have hfind := find_fat_free_complete diskette_wf usedMachine_quiet (Or.inr (by decide))
  refine ⟨hfind.1.mono fun r _ h => usedMachine_firstFree h, fun n hn => (hfind.2 n hn).mono ?_⟩
  rintro _ _ ⟨c, rfl, h⟩
  rw [usedMachine_firstFree h]

/-! ## 3. Freeing a chain -/

/-- The loop of `wipe_out_clusters`, which says `false` when its rounds are used up. -/
def wipeWithin (v : Dpb) : Nat → Nat → FatProg Bool
  | 0, _ => pure false
  | n + 1, st =>
    if st = LONG_LAST_CLUSTER then
      (if v.isFat32 then do
        writeFsinfo v
        pure true
      else pure true)
    else do
      let next ← nextCluster v st
      if next ≤ 1 then pure true
      else do
        let rc ← linkFat v st FREE
        if rc ≠ 0 then pure true
        else do
          let _ ← setMem fun m => m.lowerHint v st
          wipeWithin v n next

/-- It is the loop. -/
theorem wipeLoop_within (h : Handler (BlockOp Mem) σ) (v : Dpb) :
    ∀ (n st : Nat) (s : σ), (wipeLoop v n st).exec h s =
      ((wipeWithin v n st).exec h s).map fun r => ((), r.2) := by
  intro n
  induction n with
  | zero => exact fun _ _ => rfl
  | succ n ih =>
    intro st s
    unfold wipeLoop wipeWithin
    by_cases hlast : st = LONG_LAST_CLUSTER
    · rw [if_pos hlast, if_pos hlast]
      by_cases h32 : v.isFat32 = true
      · rw [if_pos h32, if_pos h32, Prog.exec_bind]
        cases (writeFsinfo v).exec h s <;> rfl
      · rw [if_neg h32, if_neg h32]
        rfl
    · rw [if_neg hlast, if_neg hlast, Prog.exec_bind, Prog.exec_bind]
      cases (nextCluster v st).exec h s with
      | none => rfl
      | some r =>
        simp only [bind_some]
        by_cases hstop : r.1 ≤ 1
        · rw [if_pos hstop, if_pos hstop]
          rfl
        · rw [if_neg hstop, if_neg hstop, Prog.exec_bind, Prog.exec_bind]
          cases (linkFat v st FREE).exec h r.2 with
          | none => rfl
          | some r2 =>
            simp only [bind_some]
            by_cases hrc : r2.1 ≠ 0
            · rw [if_pos hrc, if_pos hrc]
              rfl
            · rw [if_neg hrc, if_neg hrc, Prog.exec_bind, Prog.exec_bind]
              cases (setMem fun m => m.lowerHint v st).exec h r2.2 with
              | none => rfl
              | some r3 => exact ih r.1 r3.2

/-- The count that stands for an unknown one. -/
def Dpb.unknownFree (v : Dpb) : Nat := if v.isFat32 then XUNKNCLSTFREE else UNKNCLSTFREE

theorem known_iff (v : Dpb) (m : Mem) : m.Known v ↔ m.nfree v ≠ v.unknownFree := by
  unfold Mem.Known Mem.nfree Dpb.unknownFree
  split <;> rfl

/-- An entry that is freed counts as one more, up to the mark of an unknown count. -/
theorem counted_nfree (hword : m.dpbXnfreeclst < 0x100000000) :
    (m.counted v FREE false).dpbXnfreeclst < 0x100000000 ∧
      (m.counted v FREE false).nfree v = min (m.nfree v + 1) v.unknownFree := by
  unfold Mem.counted Mem.nfree Dpb.unknownFree
  rw [if_pos (.inl rfl)]
  cases h32 : v.isFat32 with
  | true =>
    simp only [true_and, if_true]
    by_cases hx : m.dpbXnfreeclst ≠ XUNKNCLSTFREE
    · rw [if_pos hx]
      simp only [Mem.addXnfree, freeAdjust, if_true, XUNKNCLSTFREE] at hx ⊢
      omega
    · have hx := not_not.mp hx
      have hlow : ¬ m.dpbXnfreeclst % 0x10000 ≠ UNKNCLSTFREE := by
        rw [hx]
        decide
      rw [if_neg (not_not.mpr hx), if_neg hlow]
      omega
  | false =>
    simp only [Bool.false_eq_true, false_and, if_false]
    by_cases hx : m.dpbXnfreeclst % 0x10000 ≠ UNKNCLSTFREE
    · rw [if_pos hx]
      simp only [Mem.addNfree, freeAdjust, if_true, UNKNCLSTFREE] at hx ⊢
      omega
    · rw [if_neg hx]
      omega

theorem lowerHint_count (m : Mem) (v : Dpb) (st : Nat) :
    (m.lowerHint v st).dpbXnfreeclst = m.dpbXnfreeclst := by
  unfold Mem.lowerHint
  split
  · split <;> rfl
  · split <;> rfl

theorem lowerHint_nfree (m : Mem) (v : Dpb) (st : Nat) :
    (m.lowerHint v st).nfree v = m.nfree v := by
  unfold Mem.nfree
  rw [lowerHint_count]

theorem nfree_le_unknown (hword : m.dpbXnfreeclst < 0x100000000) : m.nfree v ≤ v.unknownFree := by
  unfold Mem.nfree Dpb.unknownFree XUNKNCLSTFREE UNKNCLSTFREE
  split <;> omega

section

variable {v : Dpb} (hv : v.WF)
include hv

/-- **One round**: the chain ends here or is damaged, and the FAT stays; or the cluster is freed. -/
theorem wipeWithin_round (n st : Nat) (f : Flat Mem) {Q : Bool → Flat Mem → Prop}
    (hend : ∀ f', (∀ c, link v f'.disk c = link v f.disk c) → f'.mem = f.mem →
      (1 < checkedNext v f.disk st → st = LONG_LAST_CLUSTER) → Q true f')
    (hround : ∀ f', Linked v f f' st FREE → st ≠ LONG_LAST_CLUSTER →
      1 < checkedNext v f.disk st →
      (wipeWithin v n (checkedNext v f.disk st)).Meets (flat Mem v.area)
        { f' with mem := f'.mem.lowerHint v st } Q) :
    (wipeWithin v (n + 1) st).Meets (flat Mem v.area) f Q := by
  unfold wipeWithin
  by_cases hlast : st = LONG_LAST_CLUSTER
  · rw [if_pos hlast]
    by_cases h32 : v.isFat32 = true
    · rw [if_pos h32]
      refine Prog.Meets.bind ((writeFsinfo_spec hv h32 f).mono fun _ f' ⟨hdisk, hmem⟩ => ?_)
      exact Prog.Meets.pure (hend f' (link_of_info hv hdisk) hmem fun _ => hlast)
    · rw [if_neg h32]
      exact Prog.Meets.pure (hend f (fun _ => rfl) rfl fun _ => hlast)
  · rw [if_neg hlast]
    refine Prog.Meets.bind ⟨_, _, nextCluster_exact hv st f, ?_⟩
    dsimp only
    by_cases hstop : checkedNext v f.disk st ≤ 1
    · rw [if_pos hstop]
      exact Prog.Meets.pure (hend f (fun _ => rfl) rfl fun h => by omega)
    · rw [if_neg hstop]
      have hnext := Nat.lt_of_not_le hstop
      obtain ⟨⟨hlo, hhi⟩, -⟩ := checkedNext_link hnext
      refine Prog.Meets.bind ((linkFat_write hv hlo hhi (.inl rfl) f).mono ?_)
      rintro rc f' ⟨rfl, hl⟩
      rw [if_neg (not_not.mpr rfl)]
      exact Prog.Meets.bind ⟨_, _, exec_setMem _ f', hround f' hl hlast hnext⟩

/-- **The loop comes to its end**: each round frees a cluster that was not free. -/
theorem wipeWithin_ends (n st : Nat) (f : Flat Mem) (hn : (usedClusters v f.disk).card < n) :
    (wipeWithin v n st).Meets (flat Mem v.area) f fun ended _ => ended = true := by
  induction n generalizing st f with
  | zero => exact absurd hn (Nat.not_lt_zero _)
  | succ n ih =>
    refine wipeWithin_round hv n st f (fun _ _ _ _ => rfl) fun f' hl _ hnext => ih _ _ ?_
    obtain ⟨⟨hlo, hhi⟩, heq⟩ := checkedNext_link hnext
    have hcard := hl.usedClusters_card hlo hhi (by simp only [FREE]; omega)
    dsimp only
    omega

/-- **Only what the chain leads to is freed.**  `f0` is the FAT the loop began with at `st0`. -/
theorem wipeWithin_freed (f0 : Flat Mem) (st0 n st : Nat) (f : Flat Mem)
    (hfreed : ∀ c, link v f.disk c = link v f0.disk c ∨
      (link v f.disk c = FREE ∧ Leads (onward v f0.disk) st0 c))
    (hst : Leads (onward v f0.disk) st0 st) :
    (wipeWithin v n st).Meets (flat Mem v.area) f fun _ f' =>
      ∀ c, link v f'.disk c = link v f0.disk c ∨
        (link v f'.disk c = FREE ∧ Leads (onward v f0.disk) st0 c) := by
  induction n generalizing st f with
  | zero => exact Prog.Meets.pure hfreed
  | succ n ih =>
    refine wipeWithin_round hv n st f (fun f' hlink _ _ c => ?_) fun f' hl _ hnext => ?_
    · rw [hlink c]
      exact hfreed c
    · obtain ⟨hrange, heq⟩ := checkedNext_link hnext
      refine ih _ _ (fun c => ?_) ?_
      · rw [hl.link c]
        by_cases hc : c = st
        · rw [if_pos hc, hc]
          exact .inr ⟨rfl, hst⟩
        · rw [if_neg hc]
          exact hfreed c
      · -- a cluster the loop has freed would have ended it
        refine hst.step (onward_eq_some.mpr ⟨hrange, ?_⟩)
        rw [heq]
        rcases hfreed st with hsame | ⟨hfree, -⟩
        · exact hsame.symm
        · rw [heq, hfree, FREE] at hnext
          omega

variable {disk : Nat → Sector} {a : Nat} {cs : List Nat}

omit hv in
/-- A chain that ends begins at a cluster, or is over. -/
theorem path_start
    (h : Path (onward v disk) a cs LONG_LAST_CLUSTER) : a = LONG_LAST_CLUSTER ∨ v.InRange a := by
  cases cs with
  | nil => exact .inl h
  | cons c cs =>
    obtain ⟨-, a', ha', -⟩ := h
    exact .inr (onward_eq_some.mp ha').1

variable {c : Nat} {f : Flat Mem}

/-- `next_cluster` has nothing to object to a chain that ends. -/
theorem checkedNext_path (h : Path (onward v disk) a (c :: cs) LONG_LAST_CLUSTER) :
    a ≠ LONG_LAST_CLUSTER ∧ 1 < checkedNext v disk a ∧
      Path (onward v disk) (checkedNext v disk a) cs LONG_LAST_CLUSTER := by
  obtain ⟨-, a', ha', hrest⟩ := h
  obtain ⟨hrange, rfl⟩ := onward_eq_some.mp ha'
  have hbad := hv.max_lt_bad
  have hnext : checkedNext v disk a = link v disk a ∧ 1 < link v disk a := by
    unfold checkedNext
    rw [if_pos hrange]
    rcases path_start hrest with hlast | hin
    · rw [hlast, if_pos (.inr (by decide))]
      exact ⟨rfl, by decide⟩
    · have hlo := hin.1
      have hhi := hin.2
      rw [if_neg (by omega), if_pos]
      · exact ⟨rfl, by omega⟩
      · refine ⟨hin, ?_⟩
        cases cs with
        | nil => exact absurd hrest (hv.range_ne_last hin)
        | cons d cs =>
          obtain ⟨-, b, hb, hrest'⟩ := hrest
          obtain ⟨-, rfl⟩ := onward_eq_some.mp hb
          rcases path_start hrest' with hlast | hin'
          · exact .inl (by rw [hlast]; decide)
          · exact .inr hin'
  refine ⟨hv.range_ne_last hrange, ?_⟩
  rw [hnext.1]
  exact ⟨hnext.2, hrest⟩

/-- **A chain that ends is freed, and counted.** -/
theorem wipeWithin_chain (n st : Nat) (f : Flat Mem) (hn : cs.length < n)
    (hpath : Path (onward v f.disk) st cs LONG_LAST_CLUSTER)
    (hword : f.mem.dpbXnfreeclst < 0x100000000) :
    (wipeWithin v n st).Meets (flat Mem v.area) f fun _ f' =>
      (∀ c, link v f'.disk c = if c ∈ cs then FREE else link v f.disk c) ∧
        f'.mem.nfree v = min (f.mem.nfree v + cs.length) v.unknownFree := by
  induction n generalizing st cs f with
  | zero => exact absurd hn (Nat.not_lt_zero _)
  | succ n ih =>
    refine wipeWithin_round hv n st f (fun f' hlink hmem hlast => ?_) fun f' hl hne _ => ?_
    · cases cs with
      | nil =>
        refine ⟨fun c => by rw [hlink c, if_neg (by simp)], ?_⟩
        rw [hmem, length_nil, add_zero, min_eq_left (nfree_le_unknown hword)]
      | cons c cs =>
        obtain ⟨hst, hnext, -⟩ := checkedNext_path hv hpath
        exact absurd (hlast hnext) hst
    · cases cs with
      | nil => exact absurd hpath hne
      | cons c cs =>
        obtain rfl : c = st := hpath.1
        obtain ⟨-, hnext, hrest⟩ := checkedNext_path hv hpath
        obtain ⟨hrange, heq⟩ := checkedNext_link hnext
        have hnot := (nodup_cons.mp (hpath.nodup (onward_last hv f.disk))).1
        have hused : (link v f.disk c == FREE) = false := by
          rw [← heq, beq_eq_false_iff_ne, FREE]
          omega
        have hmem := hl.mem
        rw [hused] at hmem
        obtain ⟨hword', hcount⟩ := counted_nfree (v := v) hword
        rw [← hmem] at hword' hcount
        have hrest' : Path (onward v f'.disk) (checkedNext v f.disk c) cs LONG_LAST_CLUSTER := by
          refine hrest.congr fun d hd => ?_
          unfold onward
          rw [hl.link d, if_neg (fun heq : d = c => hnot (heq ▸ hd))]
        refine (ih _ { f' with mem := f'.mem.lowerHint v c } (Nat.lt_of_succ_lt_succ hn) hrest'
          ((lowerHint_count f'.mem v c).symm ▸ hword')).mono ?_
        rintro _ f'' ⟨hlinks, hfinal⟩
        refine ⟨fun d => ?_, ?_⟩
        · rw [hlinks d, hl.link d]
          by_cases hd : d = c
          · simp [hd]
          · simp [hd]
        · rw [hfinal, lowerHint_nfree, hcount, length_cons]
          omega

omit hv in
theorem path_used
    (h : Path (onward v disk) a cs LONG_LAST_CLUSTER) : ∀ c ∈ cs, c ∈ usedClusters v disk := by
  induction cs generalizing a with
  | nil => simp
  | cons d cs ih =>
    obtain ⟨rfl, a', ha', hrest⟩ := h
    obtain ⟨hrange, rfl⟩ := onward_eq_some.mp ha'
    intro c hc
    rcases mem_cons.mp hc with rfl | hc
    · refine Finset.mem_filter.mpr ⟨Finset.mem_Icc.mpr hrange, fun hfree => ?_⟩
      rcases path_start hrest with hlast | hin
      · rw [hfree] at hlast
        cases hlast
      · rw [hfree] at hin
        exact nomatch hin.1
    · exact ih hrest c hc

/-- The clusters of a chain and the free ones are at most all there are. -/
theorem path_length (h : Path (onward v disk) a cs LONG_LAST_CLUSTER) :
    (freeClusters v disk).card + cs.length ≤ v.maxCluster - 1 := by
  have hlen : cs.length ≤ (usedClusters v disk).card := by
    rw [← toFinset_card_of_nodup (h.nodup (onward_last hv disk))]
    exact Finset.card_le_card fun c hc => path_used h c (mem_toFinset.mp hc)
  have hsplit : (freeClusters v disk).card + (usedClusters v disk).card =
      (Finset.Icc 2 v.maxCluster).card :=
    Finset.card_filter_add_card_filter_not _
  rw [Nat.card_Icc] at hsplit
  omega

/-- An exact count has room for what is freed. -/
theorem exact_room {m : Mem} (hexact : Exact v disk m) (hknown : m.Known v)
    (h : Path (onward v disk) a cs LONG_LAST_CLUSTER) : m.nfree v + cs.length < v.unknownFree := by
  have hlen := path_length hv h
  rw [hexact.count hknown]
  unfold Dpb.unknownFree
  have hbad := hv.max_lt_bad
  rcases hv.cases with ⟨-, h32, hs⟩ | ⟨-, -, h32, hs⟩ | ⟨-, -, h32, -⟩
  · simp only [h32, Bool.false_eq_true, if_false, FAT_MAGIC, UNKNCLSTFREE] at hs ⊢
    omega
  · simp only [h32, Bool.false_eq_true, if_false, FAT_MAGIC16, UNKNCLSTFREE] at hs ⊢
    omega
  · simp only [h32, if_true, XUNKNCLSTFREE, LONG_BAD] at hbad ⊢
    omega

theorem wipeOutClusters_wipes {st : Nat} (hword : f.mem.dpbXnfreeclst < 0x100000000) :
    (wipeOutClusters v st).Meets (flat Mem v.area) f fun _ f' =>
      (∀ c, link v f'.disk c = link v f.disk c ∨
        (link v f'.disk c = FREE ∧ Leads (onward v f.disk) st c)) ∧
      ∀ cs, Path (onward v f.disk) st cs LONG_LAST_CLUSTER →
        (∀ c, link v f'.disk c = if c ∈ cs then FREE else link v f.disk c) ∧
          f'.mem.nfree v = min (f.mem.nfree v + cs.length) v.unknownFree := by
  have hloop := wipeLoop_within (flat Mem v.area) v (v.maxCluster + 1) st f
  obtain ⟨r, f', hrun, hfreed⟩ := wipeWithin_freed hv f st (v.maxCluster + 1) st f
    (fun _ => .inl rfl) (Leads.refl _ _)
  rw [hrun] at hloop
  refine ⟨(), f', hloop, hfreed, fun cs hpath => ?_⟩
  have hlen := path_length hv hpath
  obtain ⟨r', f'', hrun', hchain⟩ := wipeWithin_chain hv (v.maxCluster + 1) st f (by omega) hpath
    hword
  obtain ⟨-, rfl⟩ := Prog.exec_unique hrun hrun'
  exact hchain

/-- The links a machine shows are those of the plain disk. -/
theorem Agree.links {s : Machine Mem} (h : Agree Mem v.area s f)
    (hc : c ≤ v.maxCluster) : link v (s.cache.view v.dpbUnit) c = link v f.disk c :=
  (link_of_fat hv (fun b hb => h.disk b hb.not_mirror) hc).symm

/-- **Freeing a chain ends, and frees only what it should.**  On every FAT and from every start,
the loop of `wipe_out_clusters` comes to its end, within one round for every cluster; an entry that
it changes is FREE afterwards, and the start led to it.  Where the chain from the start comes to an
end, exactly its entries become FREE, and a number of free clusters that is right grows by its
length: any number does, up to the value that stands for an unknown one. -/
theorem wipe_out_clusters_frees {s : Machine Mem} (hquiet : Quiet v.area s.cache)
    (hword : s.mem.dpbXnfreeclst < 0x100000000) (st : Nat) :
    (∀ n, v.maxCluster ≤ n →
      (wipeWithin v n st).Meets (cached Mem v.area) s fun ended _ => ended = true) ∧
    (wipeOutClusters v st).Meets (cached Mem v.area) s fun _ s' =>
      (∀ c, c ≤ v.maxCluster →
        link v (s'.cache.view v.dpbUnit) c = link v (s.cache.view v.dpbUnit) c ∨
        (link v (s'.cache.view v.dpbUnit) c = FREE ∧
          Leads (onward v (s.cache.view v.dpbUnit)) st c)) ∧
      ∀ cs, Path (onward v (s.cache.view v.dpbUnit)) st cs LONG_LAST_CLUSTER →
        (∀ c, c ≤ v.maxCluster → link v (s'.cache.view v.dpbUnit) c =
          if c ∈ cs then FREE else link v (s.cache.view v.dpbUnit) c) ∧
        s'.mem.nfree v = min (s.mem.nfree v + cs.length) v.unknownFree ∧
        (s.Exact v → s.mem.Known v →
          s'.mem.Known v ∧ s'.mem.nfree v = s.mem.nfree v + cs.length) := by
  have hagree := agree_view hv hquiet
  constructor
  · intro n hn
    have hused : (usedClusters v (s.cache.view v.dpbUnit)).card < n := by
      have hle : (usedClusters v (s.cache.view v.dpbUnit)).card ≤
          (Finset.Icc 2 v.maxCluster).card := Finset.card_filter_le _ _
      have hpos := hv.clusters
      rw [Nat.card_Icc] at hle
      omega
    refine (cached_sim hagree (wipeWithin_ends hv n st _ hused)).mono ?_
    exact fun _ _ ⟨_, _, h⟩ => h
  · refine (cached_sim hagree (wipeOutClusters_wipes hv hword)).mono ?_
    rintro _ s' ⟨f', hagree', hfreed, hchain⟩
    refine ⟨fun c hc => ?_, fun cs hpath => ?_⟩
    · rw [Agree.links hv hagree' hc]
      exact hfreed c
    · obtain ⟨hlinks, hcount⟩ := hchain cs hpath
      rw [← hagree'.mem] at hcount
      refine ⟨fun c hc => ?_, hcount, fun hexact hknown => ?_⟩
      · rw [Agree.links hv hagree' hc]
        exact hlinks c
      · have hroom := exact_room hv hexact hknown hpath
        have hgrown : s'.mem.nfree v = s.mem.nfree v + cs.length :=
          hcount.trans (min_eq_left (le_of_lt hroom))
        refine ⟨(known_iff v _).mpr ?_, hgrown⟩
        omega

end

theorem usedMachine_exact : usedMachine.Exact diskette :=
  ⟨fun _ => by decide +kernel, .inr (by decide)⟩

/-- The chain 2, 3 is freed, and nothing else; the two clusters are counted. -/
theorem diskette_wipe_out :
    ((wipeWithin diskette 2848 2).Meets (cached Mem diskette.area) usedMachine
      fun ended _ => ended = true) ∧
    (wipeOutClusters diskette 2).Meets (cached Mem diskette.area) usedMachine fun _ s' =>
      (∀ c, c ≤ 2848 → link diskette (s'.cache.view 0) c =
        if c ∈ [2, 3] then FREE else link diskette (usedMachine.cache.view 0) c) ∧
      s'.mem.Known diskette ∧ s'.mem.nfree diskette = 2846 := by
  have hwipe := wipe_out_clusters_frees diskette_wf usedMachine_quiet (by decide) 2
  refine ⟨hwipe.1 2848 (by decide), hwipe.2.mono fun _ s' h => ?_⟩
  have hpath : Path (onward diskette (usedMachine.cache.view 0)) 2 [2, 3] LONG_LAST_CLUSTER :=
    ⟨rfl, 3, by decide +kernel, rfl, _, by decide +kernel, rfl⟩
  obtain ⟨hlinks, -, hcount⟩ := h.2 _ hpath
  exact ⟨hlinks, hcount usedMachine_exact (by decide)⟩

end SdcBoot.Fat
