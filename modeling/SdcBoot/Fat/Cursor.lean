/-
# The cluster cursor of a file

An fnode remembers where it is in its chain (`f_cluster`, `f_cluster_offset`), and `map_cluster`
moves it to the cluster that holds the offset: on from where it is, or from the start.  What it does
is compared here with the plain walk, on every FAT.

The cursor is on the chain (`Cursor`): it is the element its offset says, and `next_cluster` has let
every element up to it pass.  Reading finds an element exactly where the way to it is clear
(`mapCluster_read`).  An element of the chain whose own link leads nowhere is refused, and with it
all that lies behind; that is what the look-ahead is for.  And the mark of a bad cluster is not
among the answers that `map_cluster` stops at: it becomes the cluster of the file.
-/
import SdcBoot.Fat.Walk

namespace SdcBoot.Fat

open Lib Block Kernel Option

/-! ## 1. The cursor -/

/-- The first cluster of the chain that an fnode is on. -/
def base (dmDircluster : Nat) (fnp : Fnode) : Nat :=
  if fnp.fSftIdx = 0xff then dmDircluster else fnp.dirStart

/-- `next_cluster` lets every element of the chain pass, up to the one `k` steps on; the last may be
the mark of a bad cluster. -/
def Clear (v : Dpb) (disk : Nat → Sector) (start k : Nat) : Prop :=
  (∃ c, hops (onward v disk) start k = some c) ∧
    ∀ j d, 1 ≤ j → j ≤ k → hops (onward v disk) start j = some d →
      d = LONG_BAD ∨ (v.InRange d ∧ Accepted v disk d)

/-- **The cursor is on the chain**: it is the element its offset says, and the way there is clear. -/
structure Cursor (v : Dpb) (disk : Nat → Sector) (start cluster offset : Nat) : Prop where
  at_offset : hops (onward v disk) start offset = some cluster
  clear : Clear v disk start offset

variable {v : Dpb} {disk : Nat → Sector} {c : Nat}

theorem Clear.mono {start j k : Nat} (h : Clear v disk start k)
    (hjk : j ≤ k) : Clear v disk start j := by
  obtain ⟨⟨c, hc⟩, hpass⟩ := h
  exact ⟨hops_le hjk hc, fun i d hi hij => hpass i d hi (le_trans hij hjk)⟩

theorem Cursor.start (v : Dpb) (disk : Nat → Sector) (start : Nat) :
    Cursor v disk start start 0 :=
  ⟨rfl, ⟨start, rfl⟩, fun _ _ h1 h0 => absurd h1 (by omega)⟩

theorem Cursor.congr {disk' : Nat → Sector} {start offset : Nat} (h : Cursor v disk start c offset)
    (heq : ∀ c, c ≤ v.maxCluster → link v disk' c = link v disk c) :
    Cursor v disk' start c offset := by
  have hon := onward_congr heq
  obtain ⟨hat, hex, hpass⟩ := h
  refine ⟨hon ▸ hat, hon ▸ hex, fun j d h1 hj hd => ?_⟩
  rw [hon] at hd
  refine (hpass j d h1 hj hd).imp_right fun ⟨hin, hacc⟩ => ⟨hin, ?_⟩
  unfold Accepted at *
  rw [heq d hin.2]
  exact hacc

variable {dmDircluster start : Nat}

theorem Cursor.rewound (disk : Nat → Sector) {fnp : Fnode} (hbase : base dmDircluster fnp = start) :
    Cursor v disk start (rewound fnp dmDircluster).fCluster
      (rewound fnp dmDircluster).fClusterOffset := by
  have hcluster : (Fat.rewound fnp dmDircluster).fCluster = start := hbase
  rw [hcluster]
  exact Cursor.start v disk start

/-- A cursor on a chain is not that of an empty file. -/
theorem Cursor.used {start k : Nat} (h : Cursor v disk start c k)
    (hstart : v.InRange start) : c ≠ FREE := by
  rintro rfl
  have hat := h.at_offset
  cases k with
  | zero =>
    cases hat
    exact nomatch hstart.1
  | succ k =>
    rcases h.clear.2 _ _ (by omega) le_rfl hat with hmark | ⟨hin, -⟩
    · cases hmark
    · exact nomatch hin.1

/-- The answers of `next_cluster` that `map_cluster` goes on with. -/
theorem checkedNext_cases (hv : v.WF) (disk : Nat → Sector) (c : Nat) :
    (1 < checkedNext v disk c ∧ checkedNext v disk c ≠ LONG_LAST_CLUSTER) ↔
      v.InRange c ∧ (link v disk c = LONG_BAD ∨
        (v.InRange (link v disk c) ∧ Accepted v disk (link v disk c))) := by
  have hbad := hv.max_lt_bad
  constructor
  · rintro ⟨h1, hlast⟩
    obtain ⟨hc, heq⟩ := checkedNext_link h1
    refine ⟨hc, ?_⟩
    rw [heq] at h1 hlast
    unfold checkedNext at heq
    rw [if_pos hc] at heq
    by_cases hmark : link v disk c < 2 ∨ link v disk c ≥ LONG_BAD
    · exact .inl ((link_marks v disk (by omega)).resolve_right hlast)
    · rw [if_neg hmark] at heq
      by_cases hnext : v.InRange (link v disk c) ∧ Accepted v disk (link v disk c)
      · exact .inr hnext
      · rw [if_neg hnext] at heq
        omega
  · rintro ⟨hc, hnext⟩
    unfold checkedNext
    rw [if_pos hc]
    rcases hnext with hmark | hnext
    · rw [hmark, if_pos (.inr le_rfl)]
      exact ⟨by decide, by decide⟩
    · have hlo := hnext.1.1
      have hhi := hnext.1.2
      rw [if_neg (by omega), if_pos hnext]
      exact ⟨hlo, hv.range_ne_last hnext.1⟩

/-- **One step of `map_cluster`** is one of the walk, where the way is clear. -/
theorem Cursor.next {v : Dpb} (hv : v.WF) {disk : Nat → Sector} {start c k : Nat}
    (h : Cursor v disk start c k) :
    (Clear v disk start (k + 1) ↔
        1 < checkedNext v disk c ∧ checkedNext v disk c ≠ LONG_LAST_CLUSTER) ∧
      (Clear v disk start (k + 1) → Cursor v disk start (checkedNext v disk c) (k + 1)) := by
  have hstep : ∀ d, hops (onward v disk) start (k + 1) = some d ↔
      v.InRange c ∧ link v disk c = d := by
    intro d
    rw [hops_succ, h.at_offset, bind_some]
    exact onward_eq_some
  have hiff : Clear v disk start (k + 1) ↔
      1 < checkedNext v disk c ∧ checkedNext v disk c ≠ LONG_LAST_CLUSTER := by
    rw [checkedNext_cases hv]
    constructor
    · rintro ⟨⟨d, hd⟩, hpass⟩
      obtain ⟨hc, rfl⟩ := (hstep d).mp hd
      exact ⟨hc, hpass (k + 1) _ (by omega) le_rfl hd⟩
    · rintro ⟨hc, hnext⟩
      refine ⟨⟨_, (hstep _).mpr ⟨hc, rfl⟩⟩, fun j d h1 hj hd => ?_⟩
      rcases Nat.le_or_eq_of_le_succ hj with hle | rfl
      · exact h.clear.2 j d h1 hle hd
      · obtain ⟨-, rfl⟩ := (hstep d).mp hd
        exact hnext
  refine ⟨hiff, fun hclear => ⟨?_, hclear⟩⟩
  obtain ⟨hc, heq⟩ := checkedNext_link (hiff.mp hclear).1
  exact (hstep _).mpr ⟨hc, heq.symm⟩

/-! ## 2. Reading -/

section

variable {v : Dpb} (hv : v.WF)
include hv

/-- **The search of `map_cluster` for reading**: it goes on as far as the way is clear. -/
theorem follow_read (start n : Nat) (fnp : Fnode) (f : Flat Mem)
    (hcur : Cursor v f.disk start fnp.fCluster fnp.fClusterOffset) :
    ∃ rc fnp', (follow v false n fnp).exec (flat Mem v.area) f = some ((rc, fnp'), f) ∧
      ((rc = SUCCESS ∧ fnp'.fClusterOffset = fnp.fClusterOffset + n ∧
          Cursor v f.disk start fnp'.fCluster fnp'.fClusterOffset) ∨
        (rc = DE_SEEK ∧ ¬ Clear v f.disk start (fnp.fClusterOffset + n))) := by
  induction n generalizing fnp with
  | zero => exact ⟨_, _, rfl, .inl ⟨rfl, rfl, hcur⟩⟩
  | succ n ih =>
    obtain ⟨hiff, hnext⟩ := hcur.next hv
    unfold follow
    rw [Prog.exec_bind, nextCluster_exact hv]
    simp only [bind_some]
    by_cases hclear : Clear v f.disk start (fnp.fClusterOffset + 1)
    · obtain ⟨h1, hlast⟩ := hiff.mp hclear
      rw [if_neg (by omega), if_neg hlast]
      obtain ⟨rc, fnp', hrun, hres⟩ := ih (moved fnp (checkedNext v f.disk fnp.fCluster))
        (hnext hclear)
      refine ⟨rc, fnp', hrun, ?_⟩
      have hoff : (moved fnp (checkedNext v f.disk fnp.fCluster)).fClusterOffset + n =
          fnp.fClusterOffset + (n + 1) := by
        simp only [moved]
        omega
      rwa [hoff] at hres
    · have hno : ¬ Clear v f.disk start (fnp.fClusterOffset + (n + 1)) :=
        fun h => hclear (h.mono (by omega))
      by_cases hstop : checkedNext v f.disk fnp.fCluster ≤ 1
      · rw [if_pos hstop]
        exact ⟨_, _, rfl, .inr ⟨rfl, hno⟩⟩
      · have hlast : checkedNext v f.disk fnp.fCluster = LONG_LAST_CLUSTER := by
          by_contra hne
          exact hclear (hiff.mpr ⟨by omega, hne⟩)
        rw [if_neg hstop, if_pos hlast]
        exact ⟨_, _, rfl, .inr ⟨rfl, hno⟩⟩

/-- **`map_cluster` for reading**, from a cursor on the chain. -/
theorem mapCluster_read {fnp : Fnode} {f : Flat Mem}
    (hstart : v.InRange start) (hbase : base dmDircluster fnp = start)
    (hcur : Cursor v f.disk start fnp.fCluster fnp.fClusterOffset) :
    ∃ rc fnp', (mapCluster v dmDircluster fnp false).exec (flat Mem v.area) f =
        some ((rc, fnp'), f) ∧
      ((rc = SUCCESS ∧ fnp'.fClusterOffset = relcluster v fnp.fOffset ∧
          Cursor v f.disk start fnp'.fCluster fnp'.fClusterOffset) ∨
        (rc = DE_SEEK ∧ ¬ Clear v f.disk start (relcluster v fnp.fOffset))) := by
  unfold mapCluster seekCluster
  rw [if_neg (hcur.used hstart)]
  by_cases hback : relcluster v fnp.fOffset < fnp.fClusterOffset
  · rw [if_pos hback]
    obtain ⟨rc, fnp', hrun, hres⟩ := follow_read hv start _ _ f (Cursor.rewound f.disk hbase)
    have hoff : (rewound fnp dmDircluster).fClusterOffset + relcluster v fnp.fOffset =
        relcluster v fnp.fOffset := zero_add _
    rw [hoff] at hres
    exact ⟨rc, fnp', hrun, hres⟩
  · rw [if_neg hback]
    obtain ⟨rc, fnp', hrun, hres⟩ := follow_read hv start
      (relcluster v fnp.fOffset - fnp.fClusterOffset) fnp f hcur
    rw [Nat.add_sub_cancel' (Nat.le_of_not_lt hback)] at hres
    exact ⟨rc, fnp', hrun, hres⟩

end

/-! ## 3. What earlier calls leave

A call for writing may lengthen the chain.  Then a cluster that was free is used, and none is freed,
so that the FAT is not the same afterwards: where it is, the call went as one for reading goes.
-/

/-- A link that is written uses up what was free. -/
theorem Linked.used_le {f f' : Flat Mem} {x : Nat} (h : Linked v f f' c x) (hc : v.InRange c)
    (hx : x ≠ FREE) :
    (usedClusters v f.disk).card + (if Fat.link v f.disk c = FREE then 1 else 0) =
      (usedClusters v f'.disk).card := by
  have hstore := card_filter_store (p := fun d => Fat.link v f.disk d ≠ FREE)
    (q := fun d => Fat.link v f'.disk d ≠ FREE) (Finset.mem_Icc.mpr hc)
    (fun d hd => by rw [h.link d, if_neg hd])
  have hself : Fat.link v f'.disk c = x := by rw [h.link c, if_pos rfl]
  rw [hself, if_pos hx] at hstore
  unfold usedClusters
  by_cases hfree : Fat.link v f.disk c = FREE
  · rw [if_neg (not_not.mpr hfree)] at hstore
    rw [if_pos hfree]
    omega
  · rw [if_pos hfree] at hstore
    rw [if_neg hfree]
    omega

theorem usedClusters_congr {disk' : Nat → Sector}
    (h : ∀ c, c ≤ v.maxCluster → link v disk' c = link v disk c) :
    usedClusters v disk' = usedClusters v disk := by
  refine Finset.filter_congr fun c hc => ?_
  rw [h c (Finset.mem_Icc.mp hc).2]

section

variable {v : Dpb} (hv : v.WF)
include hv

/-- The search finds a free cluster or none, wherever it starts. -/
theorem searchFree_any (start n idx : Nat) (f : Flat Mem) :
    ∃ r, (searchFree v start n idx).exec (flat Mem v.area) f = some (r, f) ∧
      (r ≠ LONG_LAST_CLUSTER → v.InRange r ∧ link v f.disk r = FREE) := by
  induction n generalizing idx with
  | zero => exact ⟨_, rfl, fun h => absurd rfl h⟩
  | succ n ih =>
    obtain ⟨x, hread, hx⟩ := linkFat_read_any hv idx f
    unfold searchFree isFreeCluster
    simp only [Prog.exec_bind, hread, bind_some, Prog.exec_pure, beq_iff_eq]
    by_cases hfree : x = FREE
    · rw [if_pos hfree]
      obtain ⟨hlo, hhi, heq⟩ := hx.resolve_left (by rw [hfree]; decide)
      exact ⟨idx, rfl, fun _ => ⟨⟨hlo, hhi⟩, heq.symm.trans hfree⟩⟩
    · rw [if_neg hfree]
      by_cases hback : (if idx + 1 > v.maxCluster then 2 else idx + 1) = start
      · rw [if_pos hback]
        exact ⟨_, rfl, fun h => absurd rfl h⟩
      · rw [if_neg hback]
        exact ih _

theorem findFatFree_any (f : Flat Mem) :
    (findFatFree v).Meets (flat Mem v.area) f fun r f' =>
      (∀ c, link v f'.disk c = link v f.disk c) ∧
        (r ≠ LONG_LAST_CLUSTER → v.InRange r ∧ link v f.disk r = FREE) := by
  refine Prog.Meets.bind ⟨_, _, exec_getMem f, ?_⟩
  obtain ⟨r, hrun, hr⟩ := searchFree_any hv (if f.mem.hint v ≠ UNKNCLUSTER then f.mem.hint v else 2)
    v.maxCluster (if f.mem.hint v ≠ UNKNCLUSTER then f.mem.hint v else 2) f
  refine Prog.Meets.bind ⟨r, f, hrun, ?_⟩
  refine Prog.Meets.bind ⟨_, _, exec_setMem _ f, ?_⟩
  dsimp only
  split
  · rename_i h32
    exact Prog.Meets.bind ((writeFsinfo_spec hv h32 _).mono fun _ f' hf =>
      Prog.Meets.pure ⟨link_of_info hv hf.1, hr⟩)
  · exact Prog.Meets.pure ⟨fun _ => rfl, hr⟩

/-- **A chain that is lengthened uses up a cluster.** -/
theorem extend_used (fnp : Fnode) (f : Flat Mem) :
    (extend v fnp).Meets (flat Mem v.area) f fun r f' =>
      (usedClusters v f.disk).card ≤ (usedClusters v f'.disk).card ∧
        (r.1 ≠ LONG_LAST_CLUSTER →
          (usedClusters v f.disk).card < (usedClusters v f'.disk).card) := by
  refine Prog.Meets.bind ((findFatFree_any hv f).mono fun r f1 ⟨hlinks, hr⟩ => ?_)
  have hsame : usedClusters v f1.disk = usedClusters v f.disk :=
    usedClusters_congr fun c _ => hlinks c
  by_cases hfull : r = LONG_LAST_CLUSTER
  · rw [if_pos hfull]
    exact Prog.Meets.pure ⟨by rw [hsame], fun h => absurd rfl h⟩
  · rw [if_neg hfull]
    obtain ⟨hin, hfree⟩ := hr hfull
    refine Prog.Meets.bind ((linkFat_write hv hin.1 hin.2 (.inr (.inr (.inl rfl)))
      f1).mono ?_)
    rintro rc f2 ⟨rfl, hl⟩
    have hone := hl.used_le hin (by decide)
    rw [hlinks r, if_pos hfree, hsame] at hone
    rw [if_neg (not_not.mpr rfl)]
    split
    · exact Prog.Meets.pure ⟨by omega, fun _ => by omega⟩
    · refine Prog.Meets.bind ⟨_, _, nextCluster_exact hv _ f2, ?_⟩
      dsimp only
      split
      · exact Prog.Meets.pure ⟨by omega, fun _ => by omega⟩
      · rename_i hlast
        have h1 : 1 < checkedNext v f2.disk fnp.fCluster := by
          rw [not_not.mp hlast]
          decide
        obtain ⟨hc, -⟩ := checkedNext_link h1
        refine Prog.Meets.bind ((linkFat_write hv hc.1 hc.2 (.inr (.inl hin)) f2).mono ?_)
        rintro rc f3 ⟨rfl, hl3⟩
        have hthree := hl3.used_le hc (by have := hin.1; simp only [FREE]; omega)
        exact Prog.Meets.pure ⟨by omega, fun _ => by omega⟩

theorem follow_used (write : Bool) (n : Nat) (fnp : Fnode) (f : Flat Mem) :
    (follow v write n fnp).Meets (flat Mem v.area) f fun _ f' =>
      (usedClusters v f.disk).card ≤ (usedClusters v f'.disk).card := by
  induction n generalizing fnp f with
  | zero => exact Prog.Meets.pure le_rfl
  | succ n ih =>
    refine Prog.Meets.bind ⟨_, _, nextCluster_exact hv _ f, ?_⟩
    dsimp only
    split
    · exact Prog.Meets.pure le_rfl
    · split
      · split
        · exact Prog.Meets.pure le_rfl
        · refine Prog.Meets.bind ((extend_used hv fnp f).mono fun new f1 hnew => ?_)
          split
          · exact Prog.Meets.pure hnew.1
          · exact (ih _ f1).mono fun _ _ h => le_trans hnew.1 h
      · exact ih _ f

/-- **The search of `map_cluster`**, for reading or writing: where it succeeds it went along the
chain, or it lengthened it. -/
theorem follow_cursor (write : Bool) (start n : Nat) (fnp : Fnode) (f : Flat Mem)
    (hcur : Cursor v f.disk start fnp.fCluster fnp.fClusterOffset) :
    (follow v write n fnp).Meets (flat Mem v.area) f fun r f' => r.1 = SUCCESS →
      Cursor v f.disk start r.2.fCluster r.2.fClusterOffset ∨
        (usedClusters v f.disk).card < (usedClusters v f'.disk).card := by
  induction n generalizing fnp with
  | zero => exact Prog.Meets.pure fun _ => .inl hcur
  | succ n ih =>
    obtain ⟨hiff, hnext⟩ := hcur.next hv
    have hseek : DE_SEEK ≠ SUCCESS := by decide
    have hfull : DE_HNDLDSKFULL ≠ SUCCESS := by decide
    refine Prog.Meets.bind ⟨_, _, nextCluster_exact hv _ f, ?_⟩
    dsimp only
    by_cases hstop : checkedNext v f.disk fnp.fCluster ≤ 1
    · rw [if_pos hstop]
      exact Prog.Meets.pure fun h => absurd h hseek
    · rw [if_neg hstop]
      by_cases hlast : checkedNext v f.disk fnp.fCluster = LONG_LAST_CLUSTER
      · rw [if_pos hlast]
        split
        · exact Prog.Meets.pure fun h => absurd h hseek
        · refine Prog.Meets.bind ((extend_used hv fnp f).mono fun new f1 hnew => ?_)
          split
          · exact Prog.Meets.pure fun h => absurd h hfull
          · rename_i hok
            exact (follow_used hv write n _ f1).mono fun _ _ h _ =>
              .inr (lt_of_lt_of_le (hnew.2 hok) h)
      · rw [if_neg hlast]
        exact ih _ (hnext (hiff.mpr ⟨Nat.lt_of_not_le hstop, hlast⟩))

theorem mapCluster_cursor (write : Bool) {fnp : Fnode} (f : Flat Mem)
    (hstart : v.InRange start) (hbase : base dmDircluster fnp = start)
    (hcur : Cursor v f.disk start fnp.fCluster fnp.fClusterOffset) :
    (mapCluster v dmDircluster fnp write).Meets (flat Mem v.area) f fun r f' => r.1 = SUCCESS →
      Cursor v f.disk start r.2.fCluster r.2.fClusterOffset ∨
        (usedClusters v f.disk).card < (usedClusters v f'.disk).card := by
  unfold mapCluster seekCluster
  rw [if_neg (hcur.used hstart)]
  split
  · exact follow_cursor hv write start _ _ f (Cursor.rewound f.disk hbase)
  · exact follow_cursor hv write start _ _ f hcur

end

/-- **The cursors that calls of `map_cluster` leave** on a chain, while the FAT keeps its links:
that of the file when it was opened, and after each successful call for reading or writing. -/
inductive Left (v : Dpb) (start : Nat) (links : Nat → Nat) : Nat → Nat → Prop where
  | opened : Left v start links start 0
  | mapped {dmDircluster : Nat} {fnp fnp' : Fnode} {write : Bool} {f f' : Flat Mem}
      (before : Left v start links fnp.fCluster fnp.fClusterOffset)
      (hbase : base dmDircluster fnp = start)
      (hsame : ∀ c, c ≤ v.maxCluster → link v f.disk c = links c)
      (run : (mapCluster v dmDircluster fnp write).exec (flat Mem v.area) f =
        some ((SUCCESS, fnp'), f'))
      (hkept : ∀ c, c ≤ v.maxCluster → link v f'.disk c = links c) :
      Left v start links fnp'.fCluster fnp'.fClusterOffset

theorem Left.cursor (hv : v.WF) {start : Nat} (hstart : v.InRange start) {offset : Nat}
    (h : Left v start (link v disk) c offset) : Cursor v disk start c offset := by
  induction h with
  | opened => exact Cursor.start v disk start
  | @mapped dmDircluster fnp fnp' write f f' before hbase hsame run hkept ih =>
    obtain ⟨r, f2, hrun, hres⟩ := mapCluster_cursor hv write f hstart hbase (ih.congr hsame)
    obtain ⟨rfl, rfl⟩ := Prog.exec_unique run hrun
    rcases hres rfl with hcur | hlt
    · exact hcur.congr fun c hc => (hsame c hc).symm
    · rw [usedClusters_congr hsame, usedClusters_congr hkept] at hlt
      exact absurd hlt (lt_irrefl _)

/-- What reading at the element `k` steps from the start answers: that element, when
`next_cluster` lets the way there pass; or DE_SEEK, when there is none, or an element on the way has
a link that leads nowhere. -/
def Walked (v : Dpb) (disk : Nat → Sector) (start k : Nat) (r : Int × Fnode) : Prop :=
  (r.1 = SUCCESS ∧ v.InRange r.2.fCluster ∧ hops (onward v disk) start k = some r.2.fCluster ∧
    ∀ j d, 1 ≤ j → j ≤ k → hops (onward v disk) start j = some d → Accepted v disk d) ∨
  (r.1 = DE_SEEK ∧ ∀ c, v.InRange c → hops (onward v disk) start k = some c →
    ∃ j d, 1 ≤ j ∧ j ≤ k ∧ hops (onward v disk) start j = some d ∧ v.InRange d ∧
      ¬ Accepted v disk d)

/-- **`map_cluster` is the plain walk, as far as `next_cluster` lets it.**  On every FAT, from every
cursor that earlier calls left, and where the walk does not end at the mark of a bad cluster: reading
succeeds with the element of the chain that the offset asks for, which exists, and whose way there
was let pass; or DE_SEEK is returned, and there is no such element, or one on the way there has a
link that leads nowhere. -/
theorem map_cluster_walks {v : Dpb} (hv : v.WF) {s : Machine Mem} (hquiet : Quiet v.area s.cache)
    {dmDircluster start : Nat} {fnp : Fnode} (hstart : v.InRange start)
    (hbase : base dmDircluster fnp = start)
    (hleft : Left v start (link v (s.cache.view v.dpbUnit)) fnp.fCluster fnp.fClusterOffset)
    (hmark : hops (onward v (s.cache.view v.dpbUnit)) start (relcluster v fnp.fOffset) ≠
      some LONG_BAD) :
    (mapCluster v dmDircluster fnp false).Meets (cached Mem v.area) s fun r s' =>
      (∀ c, c ≤ v.maxCluster →
        link v (s'.cache.view v.dpbUnit) c = link v (s.cache.view v.dpbUnit) c) ∧
      Walked v (s.cache.view v.dpbUnit) start (relcluster v fnp.fOffset) r := by
  have hagree := agree_view hv hquiet
  set disk := s.cache.view v.dpbUnit with hdisk
  -- an element before the one asked for is a cluster
  have hinner : ∀ j d, j ≤ relcluster v fnp.fOffset →
      (∃ c, hops (onward v disk) start (relcluster v fnp.fOffset) = some c ∧ v.InRange c) →
      hops (onward v disk) start j = some d → v.InRange d := by
    rintro j d hj ⟨c, hc, hin⟩ hd
    rcases Nat.lt_or_eq_of_le hj with hlt | rfl
    · obtain ⟨e, he⟩ := hops_le (Nat.succ_le_of_lt hlt) hc
      rw [hops_succ, hd, Option.bind_some] at he
      exact (onward_eq_some.mp he).1
    · cases hd.symm.trans hc
      exact hin
  obtain ⟨rc, fnp', hrun, hres⟩ := mapCluster_read hv hstart hbase (f := ⟨disk, s.mem⟩)
    (hleft.cursor hv hstart)
  refine (cached_sim hagree (Q := fun r f' => r = (rc, fnp') ∧ f' = ⟨disk, s.mem⟩)
    ⟨_, _, hrun, rfl, rfl⟩).mono ?_
  rintro r s' ⟨f', hagree', rfl, rfl⟩
  refine ⟨fun c hc => Agree.links hv hagree' hc, ?_⟩
  rcases hres with ⟨hok, hoff, hcur⟩ | ⟨hno, hblocked⟩
  · rw [hoff] at hcur
    have hin : v.InRange fnp'.fCluster := by
      rcases Nat.eq_zero_or_pos (relcluster v fnp.fOffset) with h0 | hpos
      · have hat := hcur.at_offset
        rw [h0, hops_zero] at hat
        cases hat
        exact hstart
      · rcases hcur.clear.2 _ _ hpos le_rfl hcur.at_offset with hbad | hin
        · rw [hbad] at hcur
          exact absurd hcur.at_offset hmark
        · exact hin.1
    refine Or.inl ⟨hok, hin, hcur.at_offset, fun j d h1 hj hd => ?_⟩
    rcases hcur.clear.2 j d h1 hj hd with hbad | hpass
    · have hbadin := hinner j d hj ⟨_, hcur.at_offset, hin⟩ hd
      rw [hbad] at hbadin
      exact absurd hbadin.2 (not_le.mpr hv.max_lt_bad)
    · exact hpass.2
  · refine Or.inr ⟨hno, fun c hc hat => ?_⟩
    by_contra hnone
    push Not at hnone
    refine hblocked ⟨⟨c, hat⟩, fun j d h1 hj hd => Or.inr ?_⟩
    have hd' := hinner j d hj ⟨c, hat, hc⟩ hd
    exact ⟨hd', hnone j d h1 hj hd hd'⟩

/-- A machine whose diskette has this first sector of the FAT. -/
def machineWith (fat : Sector) : Machine Mem :=
  { freshMachine with
    cache := { freshMachine.cache with dev := fun _ b => if b = 1 then fat else fun _ => 0 } }

theorem machineWith_quiet (fat : Sector) : Quiet diskette.area (machineWith fat).cache :=
  fresh_quiet _

/-- A file that starts at cluster 2, opened and moved to its second sector. -/
def secondSector : Fnode where
  fSftIdx := 0
  fFlags := 0
  dirAttrib := 0
  dirTime := 0
  dirDate := 0
  dirSize := 1024
  dirStart := 2
  fDpb := 0
  fDiridx := 0
  fDirsector := 19
  fOffset := 512
  fCluster := 2
  fClusterOffset := 0

/-- Cluster 2 leads to 3, whose entry is FREE. -/
def danglingFat : Sector := fun o => [0xf0, 0xff, 0xff, 0x03].getD o 0

/-- Cluster 2 leads to the mark of a bad cluster. -/
def badFat : Sector := fun o => [0xf0, 0xff, 0xff, 0xf7, 0x0f].getD o 0

theorem diskette_walks :
    (mapCluster diskette 0 secondSector false).Meets (cached Mem diskette.area)
      (machineWith soundFat) fun r s' =>
        (∀ c, c ≤ diskette.maxCluster → link diskette (s'.cache.view diskette.dpbUnit) c =
          link diskette ((machineWith soundFat).cache.view diskette.dpbUnit) c) ∧
        Walked diskette ((machineWith soundFat).cache.view diskette.dpbUnit) 2
          (relcluster diskette secondSector.fOffset) r :=
  map_cluster_walks diskette_wf (machineWith_quiet soundFat) (by decide) rfl Left.opened
    (by decide +kernel)

/-- **Where it is not the plain walk**: an element that exists is refused for its own link, and the
mark of a bad cluster is taken for an element. -/
theorem map_cluster_leaves_walk :
    (hops (onward diskette ((machineWith danglingFat).cache.view 0)) 2 1 = some 3 ∧
      diskette.InRange 3 ∧
      ((mapCluster diskette 0 secondSector false).exec (cached Mem diskette.area)
        (machineWith danglingFat)).map (fun r => r.1.1) = some DE_SEEK) ∧
    ((mapCluster diskette 0 secondSector false).exec (cached Mem diskette.area)
        (machineWith badFat)).map (fun r => (r.1.1, r.1.2.fCluster)) = some (SUCCESS, LONG_BAD) ∧
    ¬ diskette.InRange LONG_BAD := by
  decide +kernel

end SdcBoot.Fat
