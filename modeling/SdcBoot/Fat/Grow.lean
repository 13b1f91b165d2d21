/-
# Chains that grow

A file on a sound volume: its chain comes to an end, and the cursor of its fnode is on it
(`OnChain`).  There `map_cluster` for writing always succeeds, as long as the clusters of the chain
and the free ones are enough for the offset (`mapCluster_grows`).  Clusters are only appended, each
of them was free before, and no sector of the data area is written.
-/
import SdcBoot.Fat.Cursor

namespace SdcBoot.Fat

open Lib Block Kernel List

/-! ## 1. The chain of a file -/

/-- A chain that comes to an end; that of an empty file has no cluster. -/
def Chained (v : Dpb) (disk : Nat → Sector) (cs : List Nat) : Prop :=
  Path (onward v disk) (cs.headD LONG_LAST_CLUSTER) cs LONG_LAST_CLUSTER

/-- **The cursor of a file is on its chain**; in an empty file it is nowhere yet. -/
structure OnChain (v : Dpb) (disk : Nat → Sector) (fnp : Fnode) (cs : List Nat) : Prop where
  chain : Chained v disk cs
  file : fnp.fSftIdx ≠ 0xff
  start : cs ≠ [] → cs.head? = some fnp.dirStart
  cursor : cs ≠ [] → cs[fnp.fClusterOffset]? = some fnp.fCluster
  empty : cs = [] → fnp.fCluster = FREE ∧ fnp.fClusterOffset = 0

/-- What growing by some clusters leaves. -/
structure Grown (v : Dpb) (f f' : Flat Mem) (cs cs' : List Nat) : Prop where
  more : ∃ new, cs' = cs ++ new
  chain : Chained v f'.disk cs'
  plain : ∀ b, v.Plain b → f'.disk b = f.disk b
  free : (freeClusters v f'.disk).card + cs'.length = (freeClusters v f.disk).card + cs.length
  hint : f'.mem.hint v = UNKNCLUSTER ∨ v.InRange (f'.mem.hint v)

variable {v : Dpb} {f : Flat Mem} {cs : List Nat}

theorem Grown.refl (h : Chained v f.disk cs)
    (hhint : f.mem.hint v = UNKNCLUSTER ∨ v.InRange (f.mem.hint v)) : Grown v f f cs cs :=
  ⟨⟨[], (append_nil cs).symm⟩, h, fun _ _ => rfl, rfl, hhint⟩

theorem Grown.trans {f' f'' : Flat Mem} {cs' cs'' : List Nat} (h : Grown v f f' cs cs')
    (h' : Grown v f' f'' cs' cs'') : Grown v f f'' cs cs'' := by
  obtain ⟨new, rfl⟩ := h.more
  obtain ⟨new', rfl⟩ := h'.more
  exact ⟨⟨new ++ new', append_assoc ..⟩, h'.chain,
    fun b hb => (h'.plain b hb).trans (h.plain b hb), h'.free.trans h.free, h'.hint⟩

section

variable {v : Dpb} (hv : v.WF)
include hv

variable {disk : Nat → Sector} {cs : List Nat}

omit hv in
theorem Chained.range (h : Chained v disk cs) : ∀ c ∈ cs, v.InRange c :=
  fun c hc => Finset.mem_Icc.mp (Finset.mem_filter.mp (path_used h c hc)).1

theorem Chained.nodup (h : Chained v disk cs) : cs.Nodup :=
  Path.nodup (onward_last hv disk) h

/-- The links of a chain. -/
theorem Chained.next {disk : Nat → Sector} {cs : List Nat} (h : Chained v disk cs) {k c : Nat}
    (hc : cs[k]? = some c) :
    checkedNext v disk c = (cs[k + 1]?).getD LONG_LAST_CLUSTER := by
  obtain ⟨hk, rfl⟩ := List.getElem?_eq_some_iff.mp hc
  have hsplit : cs = cs.take k ++ cs[k] :: cs.drop (k + 1) := by
    rw [getElem_cons_drop, take_append_drop]
  rw [hsplit] at h
  obtain ⟨d, -, hd⟩ := Path.append_iff.mp h
  obtain rfl : cs[k] = d := hd.1
  obtain ⟨-, -, hrest⟩ := checkedNext_path hv hd
  have hget : cs[k + 1]? = (cs.drop (k + 1))[0]? := by simp
  rw [hget]
  cases hdrop : cs.drop (k + 1) with
  | nil =>
    rw [hdrop] at hrest
    exact hrest
  | cons e ds =>
    rw [hdrop] at hrest
    exact hrest.1.symm

variable {c r : Nat} {fnp : Fnode} {f : Flat Mem}

theorem dstart_range (h : v.InRange c) : dstart v.isFat32 c = c := by
  unfold dstart
  rcases hv.cases with ⟨-, h32, hs⟩ | ⟨-, -, h32, hs⟩ | ⟨-, -, h32, -⟩
  · rw [h32, if_neg Bool.false_ne_true]
    have hmax := h.2
    simp only [FAT_MAGIC] at hmax hs
    exact Nat.mod_eq_of_lt (by omega)
  · rw [h32, if_neg Bool.false_ne_true]
    have hmax := h.2
    simp only [FAT_MAGIC16] at hmax hs
    exact Nat.mod_eq_of_lt (by omega)
  · rw [h32, if_pos rfl]

/-! ## 2. One cluster more -/

omit hv in
/-- A path that is closed with a free cluster. -/
theorem chained_append {disk' : Nat → Sector} {init : List Nat} (h : Chained v disk (init ++ [c]))
    (hr : v.InRange r) (hnot : r ∉ init ++ [c]) (hnew : link v disk' r = LONG_LAST_CLUSTER)
    (hlast : link v disk' c = r)
    (hrest : ∀ d ∈ init, link v disk' d = link v disk d) : Chained v disk' (init ++ [c] ++ [r]) := by
  have hc := h.range c (by simp)
  obtain ⟨hinit, -⟩ := Path.concat_iff.mp h
  have hhead : (init ++ [c] ++ [r]).headD LONG_LAST_CLUSTER =
      (init ++ [c]).headD LONG_LAST_CLUSTER := by
    cases init <;> rfl
  unfold Chained
  rw [hhead]
  refine Path.concat_iff.mpr ⟨Path.concat_iff.mpr ⟨hinit.congr fun d hd => ?_, ?_⟩, ?_⟩
  · unfold onward
    rw [hrest d hd]
  · exact onward_eq_some.mpr ⟨hc, hlast⟩
  · exact onward_eq_some.mpr ⟨hr, hnew⟩

theorem setHint_valid {m : Mem} (hr : v.InRange r) :
    (m.setHint v r).hint v = UNKNCLUSTER ∨ v.InRange ((m.setHint v r).hint v) := by
  rw [Mem.setHint_hint hv m hr.2]
  exact .inr hr

/-- **`extend` appends a free cluster to a chain that its fnode is at the end of.** -/
theorem extend_grows (hcs : Chained v f.disk cs)
    (hhint : f.mem.hint v = UNKNCLUSTER ∨ v.InRange (f.mem.hint v))
    (hspace : 0 < (freeClusters v f.disk).card)
    (hend : (cs = [] ∧ fnp.fCluster = FREE) ∨ ∃ init, cs = init ++ [fnp.fCluster]) :
    (extend v fnp).Meets (flat Mem v.area) f fun new f' =>
      new.1 ≠ LONG_LAST_CLUSTER ∧ Grown v f f' cs (cs ++ [new.1]) ∧
        new.2 = if cs = [] then { fnp with dirStart := new.1 } else fnp := by
  unfold extend
  refine Prog.Meets.bind ((findFatFree_spec hv hhint).mono fun r f1 hs => ?_)
  have hlinks1 := link_of_info hv hs.disk
  have hfound : v.InRange r ∧ link v f.disk r = FREE := by
    rcases hs.found with h | ⟨-, hnone⟩
    · exact h
    · obtain ⟨c, hc⟩ := Finset.card_pos.mp hspace
      obtain ⟨hc, hfree⟩ := Finset.mem_filter.mp hc
      obtain ⟨hlo, hhi⟩ := Finset.mem_Icc.mp hc
      exact absurd hfree (hnone c hlo hhi)
  obtain ⟨hr, hfree⟩ := hfound
  have hne := hv.range_ne_last hr
  have hplain1 : ∀ b, v.Plain b → f1.disk b = f.disk b := fun b hb => hs.disk b hb.2
  have hhint1 : f1.mem.hint v = UNKNCLUSTER ∨ v.InRange (f1.mem.hint v) := by
    rw [hs.mem, if_neg hne]
    exact setHint_valid hv hr
  have hfree1 : freeClusters v f1.disk = freeClusters v f.disk :=
    freeClusters_congr fun c _ _ => hlinks1 c
  have hnot : r ∉ cs := by
    intro hmem
    exact (Finset.mem_filter.mp (path_used hcs r hmem)).2 hfree
  rw [if_neg hne]
  refine Prog.Meets.bind ((linkFat_write hv hr.1 hr.2 (.inr (.inr (.inl rfl))) f1).mono ?_)
  rintro rc f2 ⟨rfl, hl2⟩
  have hplain2 : ∀ b, v.Plain b → f2.disk b = f.disk b := fun b hb =>
    (hl2.plain b hb).trans (hplain1 b hb)
  have hhint2 : f2.mem.hint v = UNKNCLUSTER ∨ v.InRange (f2.mem.hint v) := by
    rw [hl2.mem, Mem.counted_hint]
    exact hhint1
  have hcard2 := hl2.freeClusters_card hr.1 hr.2
  rw [hlinks1 r, if_pos hfree, if_neg (by decide), hfree1] at hcard2
  rw [if_neg (not_not.mpr rfl)]
  rcases hend with ⟨rfl, hcluster⟩ | ⟨init, rfl⟩
  · rw [if_pos hcluster]
    refine Prog.Meets.pure ⟨hne, ⟨⟨[r], rfl⟩, ?_, hplain2, ?_, hhint2⟩, ?_⟩
    · exact ⟨rfl, _, onward_eq_some.mpr ⟨hr, (hl2.link r).trans (if_pos rfl)⟩, rfl⟩
    · rw [nil_append, length_singleton, length_nil]
      omega
    · rw [if_pos rfl, dstart_range hv hr]
  · have hc := hcs.range fnp.fCluster (by simp)
    have hused : fnp.fCluster ≠ FREE := by
      have := hc.1
      simp only [FREE]
      omega
    have hcr : fnp.fCluster ≠ r := fun h => hnot (by simp [← h])
    obtain ⟨-, hlast⟩ := Path.concat_iff.mp hcs
    have hlast : link v f.disk fnp.fCluster = LONG_LAST_CLUSTER := (onward_eq_some.mp hlast).2
    have hlast2 : link v f2.disk fnp.fCluster = LONG_LAST_CLUSTER := by
      rw [hl2.link, if_neg hcr, hlinks1, hlast]
    rw [if_neg hused]
    refine Prog.Meets.bind ⟨_, _, nextCluster_exact hv _ f2, ?_⟩
    have hnext : checkedNext v f2.disk fnp.fCluster = LONG_LAST_CLUSTER := by
      unfold checkedNext
      rw [if_pos hc, hlast2, if_pos (.inr (by decide))]
    dsimp only
    rw [hnext, if_neg (not_not.mpr rfl)]
    refine Prog.Meets.bind ((linkFat_write hv hc.1 hc.2 (.inr (.inl hr)) f2).mono ?_)
    rintro rc f3 ⟨rfl, hl3⟩
    have hcard3 := hl3.freeClusters_card hc.1 hc.2
    have hrfree : r ≠ FREE := by
      have := hr.1
      simp only [FREE]
      omega
    rw [hlast2, if_neg (by decide), if_neg hrfree] at hcard3
    rw [if_neg (not_not.mpr rfl)]
    refine Prog.Meets.pure ⟨hne, ⟨⟨[r], rfl⟩, ?_, ?_, ?_, ?_⟩, ?_⟩
    · refine chained_append hcs hr hnot ?_ ?_ fun d hd => ?_
      · rw [hl3.link, if_neg (Ne.symm hcr), hl2.link, if_pos rfl]
      · rw [hl3.link, if_pos rfl]
      · have hdc : d ≠ fnp.fCluster := by
          rintro rfl
          have hnodup := hcs.nodup hv
          rw [nodup_append] at hnodup
          exact hnodup.2.2 _ hd _ (mem_singleton_self _) rfl
        have hdr : d ≠ r := fun h => hnot (by simp [← h, hd])
        rw [hl3.link, if_neg hdc, hl2.link, if_neg hdr, hlinks1]
    · exact fun b hb => (hl3.plain b hb).trans (hplain2 b hb)
    · simp only [length_append, length_singleton]
      omega
    · rw [hl3.mem, Mem.counted_hint]
      exact hhint2
    · rw [if_neg (by simp)]

/-! ## 3. `map_cluster` for writing -/

/-- **The search of `map_cluster`** from a cursor on the chain, `n` clusters ahead. -/
theorem follow_grows (n : Nat) {fnp : Fnode} {f : Flat Mem} {cs : List Nat}
    (hcs : Chained v f.disk cs) (hhint : f.mem.hint v = UNKNCLUSTER ∨ v.InRange (f.mem.hint v))
    (hcursor : cs[fnp.fClusterOffset]? = some fnp.fCluster)
    (hspace : fnp.fClusterOffset + n < cs.length + (freeClusters v f.disk).card) :
    (follow v true n fnp).Meets (flat Mem v.area) f fun r f' =>
      r.1 = SUCCESS ∧ ∃ cs', Grown v f f' cs cs' ∧
        cs'[fnp.fClusterOffset + n]? = some r.2.fCluster ∧
        r.2 = { fnp with
          fCluster := r.2.fCluster, fClusterOffset := fnp.fClusterOffset + n } := by
  induction n generalizing fnp f cs with
  | zero => exact Prog.Meets.pure ⟨rfl, cs, Grown.refl hcs hhint, hcursor, rfl⟩
  | succ n ih =>
    unfold follow
    refine Prog.Meets.bind ⟨_, _, nextCluster_exact hv _ f, ?_⟩
    dsimp only
    rw [hcs.next hv hcursor]
    cases hnext : cs[fnp.fClusterOffset + 1]? with
    | some d =>
      -- along the chain
      have hd := hcs.range d (mem_of_getElem? hnext)
      have hlo := hd.1
      rw [Option.getD_some, if_neg (by omega), if_neg (hv.range_ne_last hd)]
      refine (@ih (moved fnp d) f cs hcs hhint hnext
        (by simp only [moved]; omega)).mono ?_
      rintro r f' ⟨hok, cs', hgrown, hat, heq⟩
      have hoff : (moved fnp d).fClusterOffset + n = fnp.fClusterOffset + (n + 1) := by
        simp only [moved]
        omega
      rw [hoff] at hat heq
      exact ⟨hok, cs', hgrown, hat, heq⟩
    | none =>
      -- at its end
      have hlen := List.getElem?_eq_none_iff.mp hnext
      obtain ⟨hlt, -⟩ := List.getElem?_eq_some_iff.mp hcursor
      have hne : cs ≠ [] := by
        rintro rfl
        exact absurd hlt (Nat.not_lt_zero _)
      have hgetLast : cs.getLast? = some fnp.fCluster := by
        rw [getLast?_eq_getElem?, show cs.length - 1 = fnp.fClusterOffset by omega, hcursor]
      have hend : cs = cs.dropLast ++ [fnp.fCluster] :=
        (dropLast_append_getLast? _ hgetLast).symm
      rw [Option.getD_none, if_neg (by decide), if_pos rfl, if_neg (by simp)]
      refine Prog.Meets.bind ((extend_grows hv hcs hhint (by omega)
        (.inr ⟨_, hend⟩)).mono ?_)
      rintro ⟨new, fnp1⟩ f1 ⟨hnew, hgrown, hfnp⟩
      rw [if_neg hne] at hfnp
      dsimp only at hnew hgrown hfnp ⊢
      subst hfnp
      rw [if_neg hnew]
      have hfree := hgrown.free
      rw [length_append, length_singleton] at hfree
      have hat : (cs ++ [new])[(moved fnp1 new).fClusterOffset]? = some new := by
        simp only [moved]
        rw [getElem?_append_right hlen]
        have : fnp1.fClusterOffset + 1 - cs.length = 0 := by omega
        rw [this]
        rfl
      refine (@ih (moved fnp1 new) f1 (cs ++ [new]) hgrown.chain hgrown.hint hat ?_).mono ?_
      · simp only [moved, length_append, length_singleton]
        omega
      · rintro r f' ⟨hok, cs', hgrown', hat', heq⟩
        have hoff : (moved fnp1 new).fClusterOffset + n = fnp1.fClusterOffset + (n + 1) := by
          simp only [moved]
          omega
        rw [hoff] at hat' heq
        exact ⟨hok, cs', hgrown.trans hgrown', hat', heq⟩

theorem seekCluster_grows {dmDircluster : Nat} (hcs : Chained v f.disk cs)
    (hhint : f.mem.hint v = UNKNCLUSTER ∨ v.InRange (f.mem.hint v)) (hfile : fnp.fSftIdx ≠ 0xff)
    (hstart : cs.head? = some fnp.dirStart) (hcursor : cs[fnp.fClusterOffset]? = some fnp.fCluster)
    (hspace : relcluster v fnp.fOffset < cs.length + (freeClusters v f.disk).card) :
    (seekCluster v dmDircluster fnp true).Meets (flat Mem v.area) f fun r f' =>
      r.1 = SUCCESS ∧ ∃ cs', Grown v f f' cs cs' ∧
        cs'[relcluster v fnp.fOffset]? = some r.2.fCluster ∧
        r.2 = { fnp with
          fCluster := r.2.fCluster, fClusterOffset := relcluster v fnp.fOffset } := by
  unfold seekCluster
  split
  · have hrewound : (rewound fnp dmDircluster).fCluster = fnp.dirStart := if_neg hfile
    have hzero : (rewound fnp dmDircluster).fClusterOffset + relcluster v fnp.fOffset =
        relcluster v fnp.fOffset := zero_add _
    refine (@follow_grows v hv (relcluster v fnp.fOffset) (rewound fnp dmDircluster) f cs hcs hhint
      ?_ ?_).mono ?_
    · rw [hrewound, ← hstart, head?_eq_getElem?]
      rfl
    · rw [hzero]
      exact hspace
    · rintro r f' ⟨hok, cs', hgrown, hat, heq⟩
      rw [hzero] at hat heq
      exact ⟨hok, cs', hgrown, hat, heq⟩
  · rename_i hle
    have hsum : fnp.fClusterOffset + (relcluster v fnp.fOffset - fnp.fClusterOffset) =
        relcluster v fnp.fOffset := by omega
    refine (follow_grows hv (relcluster v fnp.fOffset - fnp.fClusterOffset) hcs hhint hcursor
      ?_).mono ?_
    · rw [hsum]
      exact hspace
    · rintro r f' ⟨hok, cs', hgrown, hat, heq⟩
      rw [hsum] at hat heq
      exact ⟨hok, cs', hgrown, hat, heq⟩

/-- What `map_cluster` for writing leaves: the cursor on the cluster that holds the offset, on a
chain that has grown. -/
structure Mapped (v : Dpb) (f f' : Flat Mem) (fnp fnp' : Fnode) (cs cs' : List Nat) : Prop where
  grown : Grown v f f' cs cs'
  on : OnChain v f'.disk fnp' cs'
  here : cs'[relcluster v fnp.fOffset]? = some fnp'.fCluster
  offset : fnp'.fOffset = fnp.fOffset
  size : fnp'.dirSize = fnp.dirSize

/-- **`map_cluster` for writing succeeds** where there are clusters enough. -/
theorem mapCluster_grows {dmDircluster : Nat} {fnp : Fnode} {f : Flat Mem} {cs : List Nat}
    (h : OnChain v f.disk fnp cs) (hhint : f.mem.hint v = UNKNCLUSTER ∨ v.InRange (f.mem.hint v))
    (hspace : relcluster v fnp.fOffset < cs.length + (freeClusters v f.disk).card) :
    (mapCluster v dmDircluster fnp true).Meets (flat Mem v.area) f fun r f' =>
      r.1 = SUCCESS ∧ ∃ cs', Mapped v f f' fnp r.2 cs cs' := by
  have hdone : ∀ {f1 : Flat Mem} {fnp1 : Fnode} {cs1 : List Nat}, Grown v f f1 cs cs1 →
      fnp1.fOffset = fnp.fOffset → fnp1.dirSize = fnp.dirSize → fnp1.fSftIdx = fnp.fSftIdx →
      cs1.head? = some fnp1.dirStart → cs1[fnp1.fClusterOffset]? = some fnp1.fCluster →
      (seekCluster v dmDircluster fnp1 true).Meets (flat Mem v.area) f1 fun r f' =>
        r.1 = SUCCESS ∧ ∃ cs', Mapped v f f' fnp r.2 cs cs' := by
    intro f1 fnp1 cs1 hgrown hoffset hsize hidx hstart hcursor
    have hfree := hgrown.free
    refine (seekCluster_grows hv hgrown.chain hgrown.hint (by rw [hidx]; exact h.file) hstart
      hcursor (by rw [hoffset]; omega)).mono ?_
    rintro r f' ⟨hok, cs', hgrown', hat, heq⟩
    have hne : cs' ≠ [] := by
      rintro rfl
      cases hat
    have hhead : cs'.head? = some fnp1.dirStart := by
      obtain ⟨new, rfl⟩ := hgrown'.more
      have hcs1 : cs1 ≠ [] := by
        rintro rfl
        cases hstart
      rw [head?_append_of_ne_nil cs1 hcs1, hstart]
    refine ⟨hok, cs', hgrown.trans hgrown', ⟨hgrown'.chain, ?_, fun _ => ?_, fun _ => ?_,
      fun hnil => absurd hnil hne⟩, ?_, ?_, ?_⟩
    · rw [heq]
      exact hidx ▸ h.file
    · rw [heq]
      exact hhead
    · rw [heq]
      exact hat
    · rw [← hoffset]
      exact hat
    · rw [heq]
      exact hoffset
    · rw [heq]
      exact hsize
  unfold mapCluster
  by_cases hcs : cs = []
  · obtain ⟨hcluster, hzero⟩ := h.empty hcs
    subst hcs
    rw [if_pos hcluster, if_neg (by simp)]
    rw [length_nil] at hspace
    refine Prog.Meets.bind ((extend_grows hv h.chain hhint (by omega)
      (.inl ⟨rfl, hcluster⟩)).mono ?_)
    rintro ⟨new, fnp1⟩ f1 ⟨hnew, hgrown, hfnp⟩
    rw [if_pos rfl] at hfnp
    dsimp only at hnew hgrown hfnp ⊢
    rw [if_neg hnew]
    subst hfnp
    refine hdone hgrown rfl rfl rfl rfl ?_
    change ([] ++ [new])[fnp.fClusterOffset]? = some new
    rw [hzero]
    rfl
  · have hcursor := h.cursor hcs
    have hused : fnp.fCluster ≠ FREE := by
      have := (h.chain.range _ (mem_of_getElem? hcursor)).1
      simp only [FREE]
      omega
    rw [if_neg hused]
    exact hdone (Grown.refl h.chain hhint) rfl rfl rfl (h.start hcs) hcursor

end

end SdcBoot.Fat
