/-
# Free space is counted exactly

The drive parameter block holds the number of free clusters (`dpb_nfreeclst`, or `dpb_xnfreeclst`
on FAT32, which share their storage) and a hint where the next free one may be found.  `dos_free`
counts once; from then on `link_fat` adjusts the number, and nothing ever checks it again.

The invariant is `Exact`: the number is unknown or right, and the hint unknown or a cluster of the
volume.  Nothing is assumed of the FAT: chains may be crossed, cyclic or broken, and fnodes stale.
Each routine is shown to end and to keep the invariant (`Keeps`), and by `cached_sim` the machine
with its buffers does too, after any number of calls (`free_space_exact`).

The number of clusters is fuel enough: `wipe_out_clusters` frees a cluster in every round
(`wipeWithin_ends` in `Fat/Walk.lean`), and `find_fat_free` comes back to where it began
(`searchFree_spec`), which it would not if the hint were out of range.
-/
import SdcBoot.Fat.Clusters
import Mathlib.Algebra.BigOperators.Intervals
import Mathlib.Algebra.BigOperators.Group.Finset.Piecewise
import Mathlib.Order.Interval.Finset.Nat

namespace SdcBoot.Fat

open Lib Block Kernel

/-! ## 1. The invariant -/

/-- The free clusters of the volume. -/
def freeClusters (v : Dpb) (disk : Nat → Sector) : Finset Nat :=
  {c ∈ Finset.Icc 2 v.maxCluster | link v disk c = FREE}

/-- The clusters of the volume that are not free. -/
def usedClusters (v : Dpb) (disk : Nat → Sector) : Finset Nat :=
  {c ∈ Finset.Icc 2 v.maxCluster | link v disk c ≠ FREE}

/-- **The bookkeeping is exact.** -/
structure Exact (v : Dpb) (disk : Nat → Sector) (m : Mem) : Prop where
  count : m.Known v → m.nfree v = (freeClusters v disk).card
  hint : m.hint v = UNKNCLUSTER ∨ (2 ≤ m.hint v ∧ m.hint v ≤ v.maxCluster)

def Flat.Exact (v : Dpb) (f : Flat Mem) : Prop := Fat.Exact v f.disk f.mem

variable {v : Dpb} {disk disk' : Nat → Sector} {c max start x : Nat} {f f' : Flat Mem} {m : Mem}

theorem mem_freeClusters :
    c ∈ freeClusters v disk ↔ (2 ≤ c ∧ c ≤ v.maxCluster) ∧ link v disk c = FREE := by
  simp [freeClusters]

theorem freeClusters_card_le (v : Dpb) (disk : Nat → Sector) :
    (freeClusters v disk).card ≤ v.maxCluster - 1 := by
  have hle : (freeClusters v disk).card ≤ (Finset.Icc 2 v.maxCluster).card :=
    Finset.card_filter_le _ _
  have hcard : (Finset.Icc 2 v.maxCluster).card = v.maxCluster + 1 - 2 := Nat.card_Icc ..
  omega

theorem freeClusters_congr (h : ∀ c, 2 ≤ c → c ≤ v.maxCluster → link v disk' c = link v disk c) :
    freeClusters v disk' = freeClusters v disk := by
  refine Finset.filter_congr fun c hc => ?_
  obtain ⟨hlo, hhi⟩ := Finset.mem_Icc.mp hc
  rw [h c hlo hhi]

/-- What a store to one entry does to a number of entries. -/
theorem card_filter_store {p q : Nat → Prop} [DecidablePred p] [DecidablePred q] {s : Finset Nat}
    (hc : c ∈ s) (h : ∀ d, d ≠ c → (q d ↔ p d)) :
    (s.filter q).card + (if p c then 1 else 0) = (s.filter p).card + if q c then 1 else 0 := by
  have hrest : ∑ d ∈ s.erase c, (if q d then 1 else 0) = ∑ d ∈ s.erase c, if p d then 1 else 0 := by
    refine Finset.sum_congr rfl fun d hd => ?_
    simp only [h d (Finset.ne_of_mem_erase hd)]
  rw [Finset.card_filter, Finset.card_filter, ← Finset.add_sum_erase s _ hc,
    ← Finset.add_sum_erase s _ hc, hrest]
  omega

theorem Linked.freeClusters_card (h : Linked v f f' c x) (hc : 2 ≤ c) (hmax : c ≤ v.maxCluster) :
    (freeClusters v f'.disk).card + (if Fat.link v f.disk c = FREE then 1 else 0) =
      (freeClusters v f.disk).card + if x = FREE then 1 else 0 := by
  have hstore := card_filter_store (p := fun d => Fat.link v f.disk d = FREE)
    (q := fun d => Fat.link v f'.disk d = FREE) (Finset.mem_Icc.mpr ⟨hc, hmax⟩)
    (fun d hd => by rw [h.link d, if_neg hd])
  have hself : Fat.link v f'.disk c = x := by rw [h.link c, if_pos rfl]
  rw [hself] at hstore
  exact hstore

theorem Linked.usedClusters_card (h : Linked v f f' c FREE) (hc : 2 ≤ c) (hmax : c ≤ v.maxCluster)
    (hused : Fat.link v f.disk c ≠ FREE) :
    (usedClusters v f'.disk).card + 1 = (usedClusters v f.disk).card := by
  have hstore := card_filter_store (p := fun d => Fat.link v f.disk d ≠ FREE)
    (q := fun d => Fat.link v f'.disk d ≠ FREE) (Finset.mem_Icc.mpr ⟨hc, hmax⟩)
    (fun d hd => by rw [h.link d, if_neg hd])
  have hself : Fat.link v f'.disk c = FREE := by rw [h.link c, if_pos rfl]
  rw [if_pos hused, if_neg (fun hne => hne hself)] at hstore
  exact hstore

/-! ## 2. `link_fat` keeps the count -/

theorem known_iff32 (h32 : v.isFat32 = true) (m : Mem) :
    m.Known v ↔ m.dpbXnfreeclst ≠ XUNKNCLSTFREE := by
  simp [Mem.Known, h32]

theorem known_iff16 (h32 : v.isFat32 = false) (m : Mem) :
    m.Known v ↔ m.dpbXnfreeclst % 0x10000 ≠ UNKNCLSTFREE := by
  simp [Mem.Known, h32]

/-- The adjustment, in the width of the count. -/
theorem freeAdjust_mod {k n n' : Nat} {wasfree : Bool} (hk : k = 0x10000 ∨ k = 0x100000000)
    (hn' : n' < k) (h : n' + (if wasfree = true then 1 else 0) = n + if x = FREE then 1 else 0)
    (hcond : x = FREE ∨ wasfree = true) : (n + freeAdjust x wasfree) % k = n' := by
  unfold freeAdjust
  cases wasfree with
  | false =>
    have hx : x = FREE := hcond.resolve_right (by simp)
    simp only [hx, Bool.false_eq_true, if_false, if_true, add_zero] at h ⊢
    rw [← h, Nat.mod_eq_of_lt hn']
  | true =>
    by_cases hx : x = FREE
    · simp only [hx, Bool.true_eq_false, if_false, ne_eq, not_true_eq_false] at h ⊢
      rw [← Nat.add_right_cancel h, add_zero, Nat.mod_eq_of_lt hn']
    · simp only [if_true, Bool.true_eq_false, if_false, ne_eq, not_false_eq_true, hx] at h ⊢
      rcases hk with rfl | rfl <;> omega

theorem Mem.counted_hint (m : Mem) (v : Dpb) (x : Nat) (wasfree : Bool) :
    (m.counted v x wasfree).hint v = m.hint v := by
  obtain ⟨n, hn⟩ := counted_eq m v x wasfree
  rw [hn]
  rfl

/-- The count is adjusted by what the store did to the number of free clusters. -/
theorem counted_exact (hv : v.WF) {wasfree : Bool} (h : Exact v disk m)
    (hcard : (freeClusters v disk').card + (if wasfree = true then 1 else 0) =
      (freeClusters v disk).card + if x = FREE then 1 else 0) :
    Exact v disk' (m.counted v x wasfree) := by
  refine ⟨fun hknown => ?_, (m.counted_hint v x wasfree).symm ▸ h.hint⟩
  have hle := freeClusters_card_le v disk'
  have hcount := h.count
  unfold Mem.counted at hknown ⊢
  by_cases hcond : x = FREE ∨ wasfree = true
  · rw [if_pos hcond] at hknown ⊢
    cases h32 : v.isFat32 with
    | true =>
      have hmax := hv.max_lt_bad
      simp only [known_iff32 h32, Mem.nfree, h32, if_true, true_and] at hknown hcount ⊢
      by_cases hx : m.dpbXnfreeclst ≠ XUNKNCLSTFREE
      · rw [if_pos hx, Mem.addXnfree]
        refine freeAdjust_mod (.inr rfl) ?_ (hcount hx ▸ hcard) hcond
        simp only [LONG_BAD] at hmax
        omega
      · -- the unknown count is unknown in its low word too
        have hx : m.dpbXnfreeclst = XUNKNCLSTFREE := not_not.mp hx
        rw [if_neg (not_not.mpr hx), if_neg (by rw [hx]; decide)] at hknown
        exact absurd hx hknown
    | false =>
      have hmax : v.maxCluster ≤ FAT_MAGIC16 := by
        rcases hv.cases with ⟨-, -, hs⟩ | ⟨-, -, -, hs⟩ | ⟨-, -, h32', -⟩
        · exact le_trans hs (by decide)
        · exact hs
        · rw [h32] at h32'
          cases h32'
      simp only [known_iff16 h32, Mem.nfree, h32, Bool.false_eq_true, if_false, false_and]
        at hknown hcount ⊢
      by_cases hx : m.dpbXnfreeclst % 0x10000 ≠ UNKNCLSTFREE
      · rw [if_pos hx, Mem.addNfree]
        have hadj := freeAdjust_mod (k := 0x10000) (.inl rfl)
          (by simp only [FAT_MAGIC16] at hmax; omega) (hcount hx ▸ hcard) hcond
        simp only [Nat.mul_add_mod_self_right, Nat.mod_mod]
        exact hadj
      · rw [if_neg hx] at hknown
        exact absurd hknown hx
  · rw [if_neg hcond] at hknown ⊢
    obtain ⟨hx, hw⟩ := not_or.mp hcond
    rw [if_neg hx, if_neg hw] at hcard
    exact (hcount hknown).trans hcard.symm

/-- What `link_fat` may be asked to write, as its comment lists it: FREE or READ_CLUSTER, a cluster
number, which it checks itself, LONG_LAST_CLUSTER or LONG_BAD. -/
def Documented (cluster2 : Nat) : Prop := cluster2 ≤ LONG_BAD ∨ cluster2 = LONG_LAST_CLUSTER

instance (cluster2 : Nat) : Decidable (Documented cluster2) := by
  unfold Documented
  infer_instance

theorem linkFat_refused (h : (c ≤ 1 ∨ c > v.maxCluster) ∨ (x < LONG_BAD ∧ x > v.maxCluster))
    (f : Flat Mem) : (linkFat v c x).exec (flat Mem v.area) f = some (1, f) := by
  unfold linkFat
  rcases h with h | h
  · rw [if_pos h]
    rfl
  · split <;> rfl

/-- A documented argument is a read, a value to write, or refused. -/
theorem Documented.cases (hx : Documented x) :
    x = READ_CLUSTER ∨ v.LinkValue x ∨ (x < LONG_BAD ∧ x > v.maxCluster) := by
  unfold Documented at hx
  unfold Dpb.LinkValue
  simp only [READ_CLUSTER, FREE] at *
  omega

/-- Reading any cluster whatever changes nothing. -/
theorem linkFat_read_any (hv : v.WF) (c : Nat) (f : Flat Mem) :
    ∃ r, (linkFat v c READ_CLUSTER).exec (flat Mem v.area) f = some (r, f) ∧
      (r = 1 ∨ (2 ≤ c ∧ c ≤ v.maxCluster ∧ r = link v f.disk c)) := by
  by_cases hc : c ≤ 1 ∨ c > v.maxCluster
  · exact ⟨1, linkFat_refused (.inl hc) f, .inl rfl⟩
  · exact ⟨_, linkFat_read hv (by omega) (by omega) f, .inr ⟨by omega, by omega, rfl⟩⟩

theorem nextCluster_any (hv : v.WF) (c : Nat) (f : Flat Mem) :
    ∃ r, (nextCluster v c).exec (flat Mem v.area) f = some (r, f) ∧
      (1 < r → 2 ≤ c ∧ c ≤ v.maxCluster ∧ r = link v f.disk c) := by
  obtain ⟨r, hread, hr⟩ := linkFat_read_any hv c f
  unfold nextCluster
  rw [Prog.exec_bind, hread]
  simp only [Option.bind_some]
  split
  · refine ⟨r, rfl, fun h1 => hr.resolve_left (by omega)⟩
  · obtain ⟨r2, hread2, -⟩ := linkFat_read_any hv r f
    rw [Prog.exec_bind, hread2]
    simp only [Option.bind_some]
    split
    · exact ⟨1, rfl, fun h1 => absurd h1 (by omega)⟩
    · exact ⟨r, rfl, fun h1 => hr.resolve_left (by omega)⟩

section

variable {v : Dpb} (hv : v.WF)
include hv

/-- **`link_fat` keeps the count exact**, whatever stood in the entry. -/
theorem linkFat_keeps (c : Nat) {x : Nat} (hx : Documented x) :
    (linkFat v c x).Keeps (flat Mem v.area) (Flat.Exact v)
      fun r => r = 0 → 2 ≤ c ∧ c ≤ v.maxCluster := by
  intro f hf
  rcases hx.cases (v := v) with rfl | hval | hno
  · obtain ⟨r, hread, hr⟩ := linkFat_read_any hv c f
    exact ⟨r, f, hread, fun h0 => by omega, hf⟩
  · by_cases hc : c ≤ 1 ∨ c > v.maxCluster
    · exact ⟨1, f, linkFat_refused (.inl hc) f, nofun, hf⟩
    · refine (linkFat_write hv (by omega) (by omega) hval f).mono fun r f' ⟨_, hl⟩ =>
        ⟨fun _ => by omega, ?_⟩
      have hcard := hl.freeClusters_card (by omega) (by omega)
      unfold Flat.Exact
      rw [hl.mem]
      refine counted_exact hv hf ?_
      simp only [beq_iff_eq]
      exact hcard
  · exact ⟨1, f, linkFat_refused (.inr hno) f, nofun, hf⟩

theorem nextCluster_keeps (c : Nat) :
    (nextCluster v c).Keeps (flat Mem v.area) (Flat.Exact v) fun _ => True := by
  intro f hf
  obtain ⟨r, hrun, -⟩ := nextCluster_any hv c f
  exact ⟨r, f, hrun, trivial, hf⟩

end

/-! ## 3. The search for a free cluster -/

/-- How many clusters a search from `start` has behind it at `c`. -/
def around (start max c : Nat) : Nat := if start ≤ c then c - start else c + (max - 1) - start

/-- The cluster the search looks at next. -/
theorem around_next (hs : 2 ≤ start ∧ start ≤ max) (hc : 2 ≤ c ∧ c ≤ max) :
    (2 ≤ (if c + 1 > max then 2 else c + 1) ∧ (if c + 1 > max then 2 else c + 1) ≤ max) ∧
    ((if c + 1 > max then 2 else c + 1) = start → around start max c = max - 2) ∧
    ((if c + 1 > max then 2 else c + 1) ≠ start →
      around start max (if c + 1 > max then 2 else c + 1) = around start max c + 1) := by
  unfold around
  split <;> split <;> (try split) <;> omega

theorem around_inj {d : Nat} (hs : 2 ≤ start ∧ start ≤ max) (hc : 2 ≤ c ∧ c ≤ max)
    (hd : 2 ≤ d ∧ d ≤ max) (h : around start max c = around start max d) : c = d := by
  unfold around at h
  split at h <;> split at h <;> omega

theorem around_le (hs : 2 ≤ start ∧ start ≤ max) (hc : 2 ≤ c ∧ c ≤ max) :
    around start max c ≤ max - 2 := by
  unfold around
  split <;> omega

/-- What a search answers: a free cluster, or that there is none. -/
def Found (v : Dpb) (disk : Nat → Sector) (r : Nat) : Prop :=
  ((2 ≤ r ∧ r ≤ v.maxCluster) ∧ link v disk r = FREE) ∨
    (r = LONG_LAST_CLUSTER ∧ ∀ c, 2 ≤ c → c ≤ v.maxCluster → link v disk c ≠ FREE)

/-- What has been looked at, with one cluster more. -/
theorem seen_next {idx : Nat}
    (hs : 2 ≤ start ∧ start ≤ v.maxCluster) (hidx : 2 ≤ idx ∧ idx ≤ v.maxCluster)
    (hseen : ∀ c, 2 ≤ c → c ≤ v.maxCluster →
      around start v.maxCluster c < around start v.maxCluster idx → link v disk c ≠ FREE)
    (hused : link v disk idx ≠ FREE) (hlo : 2 ≤ c) (hhi : c ≤ v.maxCluster)
    (hle : around start v.maxCluster c ≤ around start v.maxCluster idx) :
    link v disk c ≠ FREE := by
  rcases Nat.lt_or_eq_of_le hle with hlt | heq
  · exact hseen c hlo hhi hlt
  · exact around_inj hs ⟨hlo, hhi⟩ hidx heq ▸ hused

/-- **Once around the FAT.**  The clusters from `start` up to `idx` are known not to be free. -/
theorem searchFree_spec (hv : v.WF) (hs : 2 ≤ start ∧ start ≤ v.maxCluster) (f : Flat Mem) :
    ∀ (n idx : Nat), (2 ≤ idx ∧ idx ≤ v.maxCluster) →
      v.maxCluster - 1 ≤ n + around start v.maxCluster idx →
      (∀ c, 2 ≤ c → c ≤ v.maxCluster →
        around start v.maxCluster c < around start v.maxCluster idx → link v f.disk c ≠ FREE) →
      ∃ r, (searchFree v start n idx).exec (flat Mem v.area) f = some (r, f) ∧
        Found v f.disk r := by
  intro n
  induction n with
  | zero =>
    intro idx hidx hfuel _
    have hle := around_le hs hidx
    omega
  | succ n ih =>
    intro idx hidx hfuel hseen
    unfold searchFree
    rw [Prog.exec_bind, isFreeCluster_spec hv hidx.1 hidx.2]
    simp only [Option.bind_some, beq_iff_eq]
    by_cases hfree : link v f.disk idx = FREE
    · rw [if_pos hfree]
      exact ⟨idx, rfl, .inl ⟨hidx, hfree⟩⟩
    · rw [if_neg hfree]
      obtain ⟨hrange, hlast, hnext⟩ := around_next hs hidx
      by_cases hback : (if idx + 1 > v.maxCluster then 2 else idx + 1) = start
      · rw [if_pos hback]
        refine ⟨_, rfl, .inr ⟨rfl, fun c hlo hhi => ?_⟩⟩
        have hle := around_le hs ⟨hlo, hhi⟩
        rw [← hlast hback] at hle
        exact seen_next hs hidx hseen hfree hlo hhi hle
      · rw [if_neg hback]
        refine ih _ hrange ?_ fun c hlo hhi hlt => ?_
        · omega
        · rw [hnext hback] at hlt
          exact seen_next hs hidx hseen hfree hlo hhi (Nat.le_of_lt_succ hlt)

theorem Mem.setHint_hint (hv : v.WF) (m : Mem) (hc : c ≤ v.maxCluster) :
    (m.setHint v c).hint v = c := by
  unfold Mem.setHint Mem.hint
  rcases hv.cases with ⟨-, h32, hs⟩ | ⟨-, -, h32, hs⟩ | ⟨-, -, h32, -⟩
  · simp only [h32]
    exact Nat.mod_eq_of_lt (by simp only [FAT_MAGIC] at hs; omega)
  · simp only [h32]
    exact Nat.mod_eq_of_lt (by simp only [FAT_MAGIC16] at hs; omega)
  · simp only [h32, if_true]

theorem Mem.setHint_count (m : Mem) (v : Dpb) (c : Nat) :
    (m.setHint v c).dpbXnfreeclst = m.dpbXnfreeclst := by
  unfold Mem.setHint
  split <;> rfl

theorem Exact.setHint (hv : v.WF) (h : Exact v disk m)
    (hc : c = UNKNCLUSTER ∨ (2 ≤ c ∧ c ≤ v.maxCluster)) : Exact v disk (m.setHint v c) := by
  refine ⟨fun hknown => ?_, ?_⟩
  · simp only [Mem.Known, Mem.nfree, Mem.setHint_count] at hknown ⊢
    exact h.count hknown
  · rw [Mem.setHint_hint hv m (by simp only [UNKNCLUSTER] at hc; omega)]
    exact hc

/-- The fsinfo sector is no part of the FAT. -/
theorem link_of_info (hv : v.WF) (h : ∀ b, ¬ v.IsInfo b → disk' b = disk b)
    (c : Nat) : link v disk' c = link v disk c := by
  refine link_congr (fun b hb => h b fun hinfo => ?_) c
  have := (hv.info_block hinfo).1
  omega

/-- What `find_fat_free` leaves: its answer, and the hint set to it. -/
structure Searched (v : Dpb) (f : Flat Mem) (r : Nat) (f' : Flat Mem) : Prop where
  found : Found v f.disk r
  mem : f'.mem = f.mem.setHint v (if r = LONG_LAST_CLUSTER then UNKNCLUSTER else r)
  disk : ∀ b, ¬ v.IsInfo b → f'.disk b = f.disk b

theorem findFatFree_spec (hv : v.WF)
    (hhint : f.mem.hint v = UNKNCLUSTER ∨ (2 ≤ f.mem.hint v ∧ f.mem.hint v ≤ v.maxCluster)) :
    (findFatFree v).Meets (flat Mem v.area) f fun r f' => Searched v f r f' := by
  refine Prog.Meets.bind ⟨_, _, exec_getMem f, ?_⟩
  set start := if f.mem.hint v ≠ UNKNCLUSTER then f.mem.hint v else 2 with hstart
  have hs : 2 ≤ start ∧ start ≤ v.maxCluster := by
    have := hv.clusters
    rw [hstart]
    split <;> omega
  obtain ⟨r, hrun, hfound⟩ := searchFree_spec hv hs f v.maxCluster start hs (by omega)
    (fun c _ _ hlt => absurd hlt (by simp [around]))
  refine Prog.Meets.bind ⟨_, _, hrun, ?_⟩
  refine Prog.Meets.bind ⟨_, _, exec_setMem _ f, ?_⟩
  dsimp only
  split
  · rename_i h32
    refine Prog.Meets.bind ((writeFsinfo_spec hv h32 _).mono fun _ f' hf => ?_)
    exact Prog.Meets.pure ⟨hfound, hf.2, hf.1⟩
  · exact Prog.Meets.pure ⟨hfound, rfl, fun _ _ => rfl⟩

theorem Found.range {r : Nat} (h : Found v disk r)
    (hne : r ≠ LONG_LAST_CLUSTER) : 2 ≤ r ∧ r ≤ v.maxCluster := by
  rcases h with ⟨hr, -⟩ | ⟨hr, -⟩
  · exact hr
  · exact absurd hr hne

theorem Exact.searched (hv : v.WF) {r : Nat} (h : f.Exact v)
    (hs : Searched v f r f') : f'.Exact v := by
  have hsame : freeClusters v f'.disk = freeClusters v f.disk :=
    freeClusters_congr fun c _ _ => link_of_info hv hs.disk c
  unfold Flat.Exact
  rw [hs.mem]
  refine Exact.setHint hv ⟨fun hk => hsame ▸ h.count hk, h.hint⟩ ?_
  by_cases hr : r = LONG_LAST_CLUSTER
  · exact .inl (if_pos hr)
  · rw [if_neg hr]
    exact .inr (hs.found.range hr)

section

variable {v : Dpb} (hv : v.WF)
include hv

theorem findFatFree_keeps :
    (findFatFree v).Keeps (flat Mem v.area) (Flat.Exact v)
      fun r => r ≠ LONG_LAST_CLUSTER → 2 ≤ r ∧ r ≤ v.maxCluster :=
  fun _ hf => (findFatFree_spec hv hf.hint).mono fun _ _ hs =>
    ⟨hs.found.range, Exact.searched hv hf hs⟩

theorem extend_keeps (fnp : Fnode) :
    (extend v fnp).Keeps (flat Mem v.area) (Flat.Exact v) fun _ => True := by
  refine (findFatFree_keeps hv).bind fun r hr => ?_
  split
  · exact Prog.Keeps.pure trivial
  · rename_i hne
    refine (linkFat_keeps hv r (.inr rfl)).bind fun rc _ => ?_
    split
    · exact Prog.Keeps.pure trivial
    · split
      · exact Prog.Keeps.pure trivial
      · refine (nextCluster_keeps hv _).bind fun next _ => ?_
        split
        · exact Prog.Keeps.pure trivial
        · have hdoc : Documented r :=
            .inl (le_of_lt (lt_of_le_of_lt (hr hne).2 hv.max_lt_bad))
          refine (linkFat_keeps hv _ hdoc).bind fun rc _ => ?_
          split <;> exact Prog.Keeps.pure trivial

theorem follow_keeps (write : Bool) (n : Nat) (fnp : Fnode) :
    (follow v write n fnp).Keeps (flat Mem v.area) (Flat.Exact v) fun _ => True := by
  induction n generalizing fnp with
  | zero => exact Prog.Keeps.pure trivial
  | succ n ih =>
    refine (nextCluster_keeps hv _).bind fun cluster _ => ?_
    split
    · exact Prog.Keeps.pure trivial
    · split
      · split
        · exact Prog.Keeps.pure trivial
        · refine (extend_keeps hv fnp).bind fun new _ => ?_
          split
          · exact Prog.Keeps.pure trivial
          · exact ih _
      · exact ih _

theorem mapCluster_keeps (dmDircluster : Nat) (fnp : Fnode) (write : Bool) :
    (mapCluster v dmDircluster fnp write).Keeps (flat Mem v.area) (Flat.Exact v)
      fun _ => True := by
  have hseek : ∀ fnp : Fnode, (seekCluster v dmDircluster fnp write).Keeps (flat Mem v.area)
      (Flat.Exact v) fun _ => True := by
    intro fnp
    unfold seekCluster
    split <;> exact follow_keeps hv write _ _
  unfold mapCluster
  split
  · split
    · exact Prog.Keeps.pure trivial
    · refine (extend_keeps hv fnp).bind fun new _ => ?_
      split
      · exact Prog.Keeps.pure trivial
      · exact hseek _
  · exact hseek _

/-! ## 4. Freeing -/

omit hv in
theorem setMem_keeps {g : Mem → Mem} (hg : ∀ disk m, Exact v disk m → Exact v disk (g m)) :
    (setMem g).Keeps (flat Mem v.area) (Flat.Exact v) fun _ => True :=
  fun f hf => ⟨_, _, exec_setMem g f, trivial, hg _ _ hf⟩

theorem writeFsinfo_keeps (h32 : v.isFat32 = true) :
    (writeFsinfo v).Keeps (flat Mem v.area) (Flat.Exact v) fun _ => True := by
  refine fun f hf => (writeFsinfo_spec hv h32 f).mono fun _ f' ⟨hdisk, hmem⟩ => ⟨trivial, ?_⟩
  have hsame : freeClusters v f'.disk = freeClusters v f.disk :=
    freeClusters_congr fun c _ _ => link_of_info hv hdisk c
  unfold Flat.Exact
  rw [hmem]
  exact ⟨fun hk => hsame ▸ hf.count hk, hf.hint⟩

theorem Exact.lowerHint {disk : Nat → Sector} {m : Mem} (h : Exact v disk m) {st : Nat}
    (hst : 2 ≤ st ∧ st ≤ v.maxCluster) : Exact v disk (m.lowerHint v st) := by
  have hset := h.setHint hv (c := st) (.inr hst)
  unfold Mem.setHint at hset
  unfold Mem.lowerHint
  split
  · rename_i h32
    rw [if_pos h32] at hset
    split
    · exact hset
    · exact h
  · rename_i h32
    rw [if_neg h32] at hset
    split
    · exact hset
    · exact h

theorem wipeLoop_keeps (n st : Nat) :
    (wipeLoop v n st).Keeps (flat Mem v.area) (Flat.Exact v) fun _ => True := by
  induction n generalizing st with
  | zero => exact Prog.Keeps.pure trivial
  | succ n ih =>
    unfold wipeLoop
    split
    · split
      · rename_i h32
        exact writeFsinfo_keeps hv h32
      · exact Prog.Keeps.pure trivial
    · refine (nextCluster_keeps hv st).bind fun next _ => ?_
      split
      · exact Prog.Keeps.pure trivial
      · refine (linkFat_keeps hv st (.inl (Nat.zero_le _))).bind fun rc hrc => ?_
        split
        · exact Prog.Keeps.pure trivial
        · rename_i hok
          have hst := hrc (not_not.mp hok)
          refine (setMem_keeps fun _ _ h => h.lowerHint hv hst).bind fun _ _ => ?_
          exact ih next

theorem shrinkFile_keeps (dmDircluster : Nat) (fnp : Fnode) :
    (shrinkFile v dmDircluster fnp).Keeps (flat Mem v.area) (Flat.Exact v) fun _ => True := by
  have hcut : ∀ (fnp : Fnode) (last next st : Nat), Documented last →
      (cutChain v fnp last next st).Keeps (flat Mem v.area) (Flat.Exact v) fun _ => True := by
    intro fnp last next st hlast
    refine (linkFat_keeps hv st hlast).bind fun rc _ => ?_
    split
    · exact Prog.Keeps.pure trivial
    · refine (wipeLoop_keeps hv _ next).bind fun _ _ => ?_
      exact fun f hf => Prog.Meets.bind ⟨true, f, rfl, Prog.Meets.pure ⟨trivial, hf⟩⟩
  have hat : ∀ fnp : Fnode, (shrinkAt v dmDircluster fnp).Keeps (flat Mem v.area) (Flat.Exact v)
      fun _ => True := by
    intro fnp
    refine (mapCluster_keeps hv dmDircluster fnp false).bind fun r _ => ?_
    split
    · exact Prog.Keeps.pure trivial
    · refine (nextCluster_keeps hv _).bind fun next _ => ?_
      split
      · exact Prog.Keeps.pure trivial
      · split
        · exact hcut _ _ _ _ (.inl (Nat.zero_le _))
        · split
          · exact Prog.Keeps.pure trivial
          · exact hcut _ _ _ _ (.inr rfl)
  unfold shrinkFile
  split
  · exact Prog.Keeps.pure trivial
  · exact (hat _).bind fun r _ => Prog.Keeps.pure trivial

end

/-! ## 5. Counting -/

/-- The free ones among the clusters from `i` on. -/
theorem free_from_succ (v : Dpb) (disk : Nat → Sector) (i n : Nat) :
    ((Finset.Ico i (i + (n + 1))).filter fun c => link v disk c = FREE).card =
      (if link v disk i = FREE then 1 else 0) +
        ((Finset.Ico (i + 1) (i + 1 + n)).filter fun c => link v disk c = FREE).card := by
  simp only [Finset.card_filter]
  rw [show i + (n + 1) = i + 1 + n by omega]
  exact Finset.sum_eq_sum_Ico_succ_bot (by omega) _

/-- The loop of `dos_free` counts, and moves the hint to the first free cluster. -/
theorem countLoop_spec (hv : v.WF) :
    ∀ (n i cnt : Nat) (f : Flat Mem), 2 ≤ i → i + n ≤ v.maxCluster + 1 → f.Exact v →
      (countLoop v n i cnt).Meets (flat Mem v.area) f fun r f' =>
        r = cnt + ((Finset.Ico i (i + n)).filter fun c => link v f.disk c = FREE).card ∧
        f'.disk = f.disk ∧ f'.Exact v := by
  intro n
  induction n with
  | zero =>
    intro i cnt f _ _ hf
    refine Prog.Meets.pure ⟨?_, rfl, hf⟩
    simp
  | succ n ih =>
    intro i cnt f hi hn hf
    rw [free_from_succ]
    refine Prog.Meets.bind ⟨_, _, isFreeCluster_spec hv hi (by omega) f, ?_⟩
    simp only [beq_iff_eq]
    by_cases hfree : link v f.disk i = FREE
    · rw [if_pos hfree, if_pos hfree]
      by_cases h0 : cnt = 0
      · rw [if_pos h0]
        refine Prog.Meets.bind ⟨_, _, exec_setMem _ f, ?_⟩
        refine (ih (i + 1) (cnt + 1) { f with mem := f.mem.setHint v i } (by omega) (by omega)
          (Exact.setHint hv hf (.inr ⟨hi, by omega⟩))).mono ?_
        rintro r f' ⟨rfl, hdisk, hex⟩
        exact ⟨by rw [add_assoc], hdisk, hex⟩
      · rw [if_neg h0]
        refine (ih (i + 1) (cnt + 1) f (by omega) (by omega) hf).mono ?_
        rintro r f' ⟨rfl, hdisk, hex⟩
        exact ⟨by rw [add_assoc], hdisk, hex⟩
    · rw [if_neg hfree, if_neg hfree, zero_add]
      exact ih (i + 1) cnt f (by omega) (by omega) hf

theorem Exact.setNfree (hv : v.WF) (h : Exact v disk m) :
    Exact v disk (m.setNfree v (freeClusters v disk).card) := by
  refine ⟨fun _ => ?_, h.hint⟩
  have hle := freeClusters_card_le v disk
  unfold Mem.nfree Mem.setNfree
  rcases hv.cases with ⟨-, h32, hs⟩ | ⟨-, -, h32, hs⟩ | ⟨-, -, h32, -⟩
  · simp only [h32, Bool.false_eq_true, if_false, FAT_MAGIC] at hs ⊢
    omega
  · simp only [h32, Bool.false_eq_true, if_false, FAT_MAGIC16] at hs ⊢
    omega
  · simp only [h32, if_true]

/-- **`dos_free` returns the number of free clusters**, counted or remembered. -/
theorem dosFree_spec (hv : v.WF) (hf : f.Exact v) :
    (dosFree v).Meets (flat Mem v.area) f fun r f' =>
      r = (freeClusters v f.disk).card ∧ f'.Exact v := by
  refine Prog.Meets.bind ⟨_, _, exec_getMem f, ?_⟩
  dsimp only
  split
  · rename_i hknown
    exact Prog.Meets.pure ⟨hf.count hknown, hf⟩
  · have hclusters := hv.clusters
    have hall : (Finset.Ico 2 (2 + (v.maxCluster - 1))).filter (fun c => link v f.disk c = FREE) =
        freeClusters v f.disk := by
      ext c
      simp only [Finset.mem_filter, Finset.mem_Ico, mem_freeClusters]
      refine and_congr_left fun _ => ?_
      omega
    refine Prog.Meets.bind ((countLoop_spec hv (v.maxCluster - 1) 2 0 f le_rfl (by omega)
      hf).mono ?_)
    rintro r f1 ⟨rfl, hdisk, hex⟩
    rw [hall, zero_add]
    have hexact := Exact.setNfree hv hex
    rw [hdisk] at hexact
    refine Prog.Meets.bind ⟨_, _, exec_setMem _ f1, ?_⟩
    split
    · rename_i h32
      have hstart : Flat.Exact v
          { f1 with mem := f1.mem.setNfree v (freeClusters v f.disk).card } := by
        rw [hdisk]
        exact hexact
      refine Prog.Meets.bind ((writeFsinfo_keeps hv h32 _ hstart).mono fun _ f' hf' => ?_)
      exact Prog.Meets.pure ⟨rfl, hf'.2⟩
    · refine Prog.Meets.pure ⟨rfl, ?_⟩
      rw [hdisk]
      exact hexact

/-! ## 6. Any number of calls -/

/-- The calls that touch the FAT or its bookkeeping. -/
inductive SpaceCall where
  | linkFat (cluster1 cluster2 : Nat)
  | findFatFree
  | extend (fnp : Fnode)
  | wipeOutClusters (st : Nat)
  | shrinkFile (dmDircluster : Nat) (fnp : Fnode)
  | dosFree
  deriving DecidableEq

def SpaceCall.Allowed : SpaceCall → Prop
  | .linkFat _ cluster2 => Documented cluster2
  | _ => True

instance (call : SpaceCall) : Decidable call.Allowed := by
  cases call <;> unfold SpaceCall.Allowed <;> infer_instance

/-- The call, with its answer dropped. -/
def SpaceCall.prog (v : Dpb) : SpaceCall → FatProg Unit
  | .linkFat cluster1 cluster2 => do
    let _ ← Fat.linkFat v cluster1 cluster2
    pure ()
  | .findFatFree => do
    let _ ← Fat.findFatFree v
    pure ()
  | .extend fnp => do
    let _ ← Fat.extend v fnp
    pure ()
  | .wipeOutClusters st => Fat.wipeOutClusters v st
  | .shrinkFile dmDircluster fnp => do
    let _ ← Fat.shrinkFile v dmDircluster fnp
    pure ()
  | .dosFree => do
    let _ ← Fat.dosFree v
    pure ()

def runCalls (v : Dpb) : List SpaceCall → FatProg Unit
  | [] => pure ()
  | call :: rest => do
    call.prog v
    runCalls v rest

/-- One call keeps the bookkeeping exact. -/
theorem prog_keeps (hv : v.WF) {call : SpaceCall} (hok : call.Allowed) :
    (call.prog v).Keeps (flat Mem v.area) (Flat.Exact v) fun _ => True := by
  cases call with
  | linkFat cluster1 cluster2 =>
    exact (linkFat_keeps hv cluster1 hok).bind fun _ _ => Prog.Keeps.pure trivial
  | findFatFree => exact (findFatFree_keeps hv).bind fun _ _ => Prog.Keeps.pure trivial
  | extend fnp => exact (extend_keeps hv fnp).bind fun _ _ => Prog.Keeps.pure trivial
  | wipeOutClusters st => exact wipeLoop_keeps hv _ st
  | shrinkFile dmDircluster fnp =>
    exact (shrinkFile_keeps hv dmDircluster fnp).bind fun _ _ => Prog.Keeps.pure trivial
  | dosFree =>
    exact fun f hf => Prog.Meets.bind ((dosFree_spec hv hf).mono fun _ f' hf' =>
      Prog.Meets.pure ⟨trivial, hf'.2⟩)

/-- So do any number of them. -/
theorem runCalls_keeps (hv : v.WF) (calls : List SpaceCall) (hok : ∀ call ∈ calls, call.Allowed) :
    (runCalls v calls).Keeps (flat Mem v.area) (Flat.Exact v) fun _ => True := by
  induction calls with
  | nil => exact Prog.Keeps.pure trivial
  | cons call rest ih =>
    refine (prog_keeps hv (hok call List.mem_cons_self)).bind fun _ _ => ?_
    exact ih fun c hc => hok c (.tail _ hc)

/-- The links of clusters in range are read from the FAT in use. -/
theorem link_of_fat (hv : v.WF) (h : ∀ b, v.area.isFat b → disk' b = disk b)
    (hc : c ≤ v.maxCluster) : link v disk' c = link v disk c := by
  have hbyte : ∀ o, o < v.entryEnd c → fatByte v disk' o = fatByte v disk o := by
    intro o ho
    unfold fatByte
    rw [h _ (hv.fat_block (lt_of_lt_of_le ho (hv.entry_in_fat hc)))]
  unfold Dpb.entryEnd at hbyte
  unfold link
  rcases hv.cases with ⟨h12, -, -⟩ | ⟨h12, h16, -, -⟩ | ⟨h12, h16, -, -⟩
  · simp only [h12, if_true] at hbyte ⊢
    rw [hbyte _ (by omega), hbyte _ (by omega)]
  · simp only [h12, h16, Bool.false_eq_true, if_false, if_true] at hbyte ⊢
    rw [hbyte _ (by omega), hbyte _ (by omega)]
  · simp only [h12, h16, Bool.false_eq_true, if_false] at hbyte ⊢
    rw [hbyte _ (by omega), hbyte _ (by omega), hbyte _ (by omega), hbyte _ (by omega)]

/-- The machine's bookkeeping is exact about the FAT it sees through its buffers. -/
def Machine.Exact (v : Dpb) (s : Machine Mem) : Prop :=
  Fat.Exact v (s.cache.view v.dpbUnit) s.mem

theorem Agree.exact_iff (hv : v.WF) {s : Machine Mem}
    (h : Agree Mem v.area s f) : s.Exact v ↔ f.Exact v := by
  have hsame : freeClusters v f.disk = freeClusters v (s.cache.view v.dpbUnit) :=
    freeClusters_congr fun c _ hc => link_of_fat hv (fun b hb => h.disk b hb.not_mirror) hc
  unfold Machine.Exact Flat.Exact
  rw [h.mem]
  exact ⟨fun he => ⟨fun hk => hsame ▸ he.count hk, he.hint⟩,
    fun he => ⟨fun hk => hsame ▸ he.count hk, he.hint⟩⟩

/-- **Free space accounting is exact.**  From an unknown count or a right one, after any calls,
with no transfer failing, the count is unknown or right, and the hint unknown or in range. -/
theorem free_space_exact {v : Dpb} (hv : v.WF) {s : Machine Mem} (hquiet : Quiet v.area s.cache)
    (hstart : s.Exact v) (calls : List SpaceCall) (hok : ∀ call ∈ calls, call.Allowed) :
    (runCalls v calls).Meets (cached Mem v.area) s fun _ s' => s'.Exact v := by
  have hagree : Agree Mem v.area s ⟨s.cache.view v.dpbUnit, s.mem⟩ :=
    ⟨hquiet, hv.copies, rfl, fun _ _ => rfl⟩
  have hflat := runCalls_keeps hv calls hok _ ((hagree.exact_iff hv).mp hstart)
  refine (cached_sim hagree hflat).mono fun _ s' ⟨f', hagree', _, hexact⟩ => ?_
  exact (hagree'.exact_iff hv).mpr hexact

/-- A diskette: 2847 clusters of one sector, two FATs of nine sectors. -/
def diskette : Dpb where
  dpbUnit := 0
  dpbSecsize := 512
  dpbClsmask := 0
  dpbShftcnt := 0
  dpbFatstrt := 1
  dpbFats := 2
  dpbData := 33
  dpbSize := 2848
  dpbFatsize := 9
  dpbXflags := 0
  dpbXfsinfosec := 0xffff
  dpbXdata := 33
  dpbXsize := 2848
  dpbXfatsize := 9

theorem diskette_wf : diskette.WF where
  secsize := by decide
  secsizePos := by decide
  secsizeWord := by decide
  clsmask := by decide
  kind := by decide
  clusters := by decide
  copies := by decide
  room := by decide
  dataFar := by decide
  infoFar := by decide

/-- A machine that has just seen the diskette: empty buffers, nothing counted. -/
def freshMachine : Machine Mem where
  cache :=
    { ring := [0, 1]
      buf := fun _ => ⟨0, 0, false, false, false, false, false, false, 0, 0, 0, fun _ => 0⟩
      dev := fun _ _ _ => 0
      reads := []
      writes := [] }
  mem := ⟨UNKNCLUSTER, XUNKNCLSTFREE, UNKNCLUSTER, [], false⟩

/-- Empty buffers are quiet, whatever the diskette holds. -/
theorem fresh_quiet (dev : Nat → Nat → Sector) :
    Quiet diskette.area { freshMachine.cache with dev := dev } where
  nodup := by simp [freshMachine]
  two := le_refl 2
  reads := rfl
  writes := rfl
  inv :=
    { coherent := fun _ _ _ h => absurd h (by simp [freshMachine, Buffer.holds])
      distinct := fun _ _ _ _ _ h => absurd h (by simp [freshMachine, Buffer.holds])
      copied := fun _ _ _ h => absurd h (by simp [freshMachine, Buffer.holds]) }
  seen := fun _ _ _ h => absurd h (by simp [freshMachine, Buffer.holds])
  fat := nofun

theorem freshMachine_quiet : Quiet diskette.area freshMachine.cache := fresh_quiet _

/-- The diskette is counted, a cluster is taken and freed again. -/
theorem diskette_space_exact :
    (runCalls diskette [.dosFree, .findFatFree, .linkFat 2 LONG_LAST_CLUSTER,
      .wipeOutClusters 2]).Meets (cached Mem diskette.area) freshMachine
        fun _ s' => s'.Exact diskette :=
  free_space_exact diskette_wf freshMachine_quiet
    ⟨nofun, Or.inl rfl⟩ _ (by decide)

end SdcBoot.Fat
