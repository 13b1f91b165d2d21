/-
# The space on a drive: `DosGetFree` and `DosGetExtFree`

Two functions of `kernel/dosfns.c` tell a program how much space a drive has.  The older one answers
in words: on FAT32 it makes clusters larger until the numbers fit, or clips them, and for clusters of
64 KiB it counts in halves.  This does not overstate the space, but for one number of clusters, which
is clipped to one half too many.  The newer one answers in long words, but takes the number of the
last cluster for the number of clusters.

What `get_cds` and `media_check` find is an argument, and so are the answers of a network drive.
-/
import SdcBoot.Fat.Geometry
import SdcBoot.Fat.Space

namespace SdcBoot.Fat

open Lib Block Kernel Option

/-! ## 1. The functions -/

/-- What `remote_getfree` puts into `rg`, as words. -/
structure RemoteFree where
  spc : Nat
  nc : Nat
  bps : Nat
  navc : Nat

/-- A drive, as the two functions see it: a network drive with the redirector's answer, if it
succeeds, or a local one with its DPB and whether `media_check` succeeds. -/
inductive FreeCds where
  | network (answer : Option RemoteFree)
  | drive (dpb : Option Dpb) (mediaOk : Bool)

/-- What `DosGetFree` returns, and the out parameters it assigned. -/
structure GetFree where
  spc : Nat
  navc : Option Nat
  bps : Option Nat
  nc : Option Nat
  deriving DecidableEq

/-- "We shift ntotal until it is equal to or below 0xfff6." -/
def scale (clusterSize spc ntotal nfree : Nat) : Nat × Nat × Nat :=
  if ntotal > FAT_MAGIC16 ∧ clusterSize < 0x8000 then
    scale (clusterSize * 2 % 0x100000000) (spc * 2 % 0x10000) (ntotal / 2) (nfree / 2)
  else (spc, ntotal, nfree)
termination_by ntotal
decreasing_by omega

/-- At most `FAT_MAGIC16`. -/
def clip (n : Nat) : Nat := if n > FAT_MAGIC16 then FAT_MAGIC16 else n

/-- Twice as many, for half as large clusters. -/
def twice (n : Nat) : Nat := if n < FAT_MAGIC16 / 2 then n * 2 % 0x10000 else FAT_MAGIC16

/-- The answer of `DosGetFree` from the DPB and the number of free clusters. -/
def getFreeOf (v : Dpb) (nfree : Option Nat) : GetFree :=
  let spc := v.dpbClsmask + 1
  if v.isFat32 then
    let r := scale (v.dpbSecsize * 2 ^ v.dpbShftcnt % 0x100000000) spc
      ((v.dpbXsize + 0xffffffff) % 0x100000000) (nfree.getD 0)
    ⟨r.1, nfree.map fun _ => clip r.2.2, some v.dpbSecsize, some (clip r.2.1)⟩
  else
    let navc := nfree.map fun n => n % 0x10000
    let nc := (v.dpbSize + 0xffff) % 0x10000
    if spc > 64 then ⟨spc / 2, navc.map twice, some v.dpbSecsize, some (twice nc)⟩
    else ⟨spc, navc, some v.dpbSecsize, some nc⟩

/-- **`DosGetFree`** on the drive that `get_cds1` finds; `wanted` says that `navc` is not null. -/
def dosGetFree (cdsp : Option FreeCds) (wanted : Bool) : FatProg GetFree :=
  match cdsp with
  | none => pure ⟨0xffff, none, none, none⟩
  | some (.network none) => pure ⟨0xffff, none, none, none⟩
  | some (.network (some rg)) =>
    pure ⟨if wanted then rg.spc % 0x100 else rg.spc, if wanted then some rg.navc else none,
      some rg.bps, some rg.nc⟩
  | some (.drive none _) => pure ⟨0xffff, none, none, none⟩
  | some (.drive (some v) mediaOk) => do
    -- hazard: no error checking!
    let _ ← if wanted then pure true else flushBuffers
    if !mediaOk then pure ⟨0xffff, none, none, none⟩
    else if wanted then do
      let nfree ← dosFree v
      pure (getFreeOf v (some nfree))
    else pure (getFreeOf v none)

/-- `struct xfreespace`, without its size and version. -/
structure XFreeSpace where
  xfsClussize : Nat
  xfsSecsize : Nat
  xfsFreeclusters : Nat
  xfsTotalclusters : Nat
  xfsFreesectors : Nat
  xfsTotalsectors : Nat
  xfsFreeunits : Nat
  xfsTotalunits : Nat
  deriving DecidableEq

/-- The part of `DosGetExtFree` that follows from the first four fields. -/
def xFreeSpace (clussize secsize totalclusters freeclusters : Nat) : XFreeSpace where
  xfsClussize := clussize
  xfsSecsize := secsize
  xfsFreeclusters := freeclusters
  xfsTotalclusters := totalclusters
  xfsFreesectors := freeclusters * clussize % 0x100000000
  xfsTotalsectors := totalclusters * clussize % 0x100000000
  xfsFreeunits := freeclusters
  xfsTotalunits := totalclusters

/-- **`DosGetExtFree`** on the drive that is found; `none` is `DE_INVLDDRV`. -/
def dosGetExtFree (cdsp : Option FreeCds) : FatProg (Option XFreeSpace) :=
  match cdsp with
  | none => pure none
  | some (.network none) => pure none
  | some (.network (some rg)) => pure (some (xFreeSpace rg.spc rg.bps rg.nc rg.navc))
  | some (.drive none _) => pure none
  | some (.drive (some v) mediaOk) =>
    if !mediaOk then pure none
    else do
      let nfree ← dosFree v
      pure (some (xFreeSpace (v.dpbClsmask + 1) v.dpbSecsize
        (if v.isFat32 then v.dpbXsize else v.dpbSize) nfree))

/-! ## 2. Scaling and clipping -/

/-- What scaling does: both numbers are halved as often as the clusters are doubled, if their size
still fits into a word. -/
theorem scale_spec (clusterSize spc ntotal nfree : Nat) :
    ∃ k, (scale clusterSize spc ntotal nfree).1 ≤ spc * 2 ^ k ∧
      (scale clusterSize spc ntotal nfree).2.1 = ntotal / 2 ^ k ∧
      (scale clusterSize spc ntotal nfree).2.2 = nfree / 2 ^ k := by
  fun_induction scale clusterSize spc ntotal nfree with
  | case1 clusterSize spc ntotal nfree _ ih =>
    obtain ⟨k, h1, h2, h3⟩ := ih
    refine ⟨k + 1, ?_, ?_, ?_⟩
    · calc _ ≤ spc * 2 % 0x10000 * 2 ^ k := h1
        _ ≤ spc * 2 * 2 ^ k := Nat.mul_le_mul_right _ (Nat.mod_le _ _)
        _ = spc * 2 ^ (k + 1) := by rw [Nat.pow_succ', mul_assoc]
    · rw [h2, Nat.div_div_eq_div_mul, Nat.pow_succ']
    · rw [h3, Nat.div_div_eq_div_mul, Nat.pow_succ']
  | case2 clusterSize spc ntotal nfree _ =>
    exact ⟨0, by simp, by simp, by simp⟩

theorem clip_le (n : Nat) : clip n ≤ n := by
  unfold clip FAT_MAGIC16
  split <;> omega

variable {n : Nat} {v : Dpb}

theorem clip_mono {m : Nat} (h : n ≤ m) : clip n ≤ clip m := by
  unfold clip FAT_MAGIC16
  split <;> split <;> omega

theorem twice_mono {m : Nat} (h : n ≤ m) : twice n ≤ twice m := by
  unfold twice FAT_MAGIC16
  split <;> split <;> omega

/-- Half of `FAT_MAGIC16`, which is odd. -/
def oddHalf : Nat := FAT_MAGIC16 / 2

theorem twice_le (h : n ≠ oddHalf) : twice n ≤ n * 2 := by
  unfold oddHalf FAT_MAGIC16 at h
  unfold twice FAT_MAGIC16
  split <;> omega

theorem twice_oddHalf : twice oddHalf = oddHalf * 2 + 1 := rfl

/-- Fewer, larger clusters are not more space. -/
theorem scaled_le {s c k : Nat} (hs : s ≤ c * 2 ^ k) : clip (n / 2 ^ k) * s ≤ n * c :=
  calc clip (n / 2 ^ k) * s ≤ n / 2 ^ k * (c * 2 ^ k) := Nat.mul_le_mul (clip_le _) hs
    _ = n / 2 ^ k * 2 ^ k * c := by rw [mul_comm c, mul_assoc]
    _ ≤ n * c := Nat.mul_le_mul_right _ (Nat.div_mul_le_self _ _)

/-- More, smaller clusters are not more space either. -/
theorem doubled_le (h : n ≠ oddHalf) (c : Nat) : twice n * (c / 2) ≤ n * c :=
  calc twice n * (c / 2) ≤ n * 2 * (c / 2) := Nat.mul_le_mul_right _ (twice_le h)
    _ = n * (2 * (c / 2)) := mul_assoc ..
    _ ≤ n * c := Nat.mul_le_mul_left _ (Nat.mul_div_le c 2)

/-- But for that one number. -/
theorem not_doubled_le {c : Nat} (hc : 0 < c) : ¬ twice oddHalf * (c * 2 / 2) ≤ oddHalf * (c * 2) := by
  rw [twice_oddHalf, Nat.mul_div_cancel _ (by decide), add_mul, mul_assoc oddHalf 2 c,
    mul_comm 2 c]
  omega

/-! ## 3. What the two say -/

/-- The number of clusters of the volume; `dpb_size` is one more. -/
def Dpb.clusterCount (v : Dpb) : Nat := v.maxCluster - 1

/-- A DPB of one of the three kinds, whose fields have their widths. -/
structure Dpb.Local (v : Dpb) : Prop where
  kind : v.isFat12 = true ∨ v.isFat16 = true ∨ v.isFat32 = true
  clusters : 1 ≤ v.maxCluster
  clsmask : v.dpbClsmask + 1 = 2 ^ v.dpbShftcnt
  sizeWord : v.dpbSize < 0x10000
  xsizeLong : v.dpbXsize < 0x100000000

/-- `DosGetFree` scales or clips, or counts in halves. -/
def Dpb.Scaled (v : Dpb) : Prop :=
  if v.isFat32 then v.clusterCount > FAT_MAGIC16 else v.dpbClsmask + 1 > 64

instance (v : Dpb) : Decidable v.Scaled := by
  unfold Dpb.Scaled
  infer_instance

/-- **What the queries promise** for `nfree` free clusters. -/
structure Honest (v : Dpb) (nfree : Nat) (g : GetFree) (x : XFreeSpace) : Prop where
  answered : ∃ navc nc, g.navc = some navc ∧ g.nc = some nc ∧ navc ≤ nc ∧
    navc * g.spc ≤ nfree * (v.dpbClsmask + 1) ∧
    nc * g.spc ≤ v.clusterCount * (v.dpbClsmask + 1)
  agree : ¬ v.Scaled → x.xfsTotalclusters = v.clusterCount ∧
    g.nc = some x.xfsTotalclusters ∧ g.navc = some x.xfsFreeclusters

/-- Counting in halves, there is one half too many. -/
def Dpb.OddHalves (v : Dpb) (nfree : Nat) : Prop :=
  v.isFat32 = false ∧ v.dpbClsmask + 1 > 64 ∧ (nfree = oddHalf ∨ v.clusterCount = oddHalf)

/-- The older query does not overstate otherwise. -/
theorem getFreeOf_bounds (hv : v.Local) {nfree : Nat} (hn : nfree ≤ v.clusterCount)
    (hodd : ¬ v.OddHalves nfree) :
    ∃ navc nc, (getFreeOf v (some nfree)).navc = some navc ∧
      (getFreeOf v (some nfree)).nc = some nc ∧ navc ≤ nc ∧
      navc * (getFreeOf v (some nfree)).spc ≤ nfree * (v.dpbClsmask + 1) ∧
      nc * (getFreeOf v (some nfree)).spc ≤ v.clusterCount * (v.dpbClsmask + 1) := by
  have hclusters := hv.clusters
  have hxsize := hv.xsizeLong
  have hsize := hv.sizeWord
  unfold Dpb.OddHalves at hodd
  unfold getFreeOf Dpb.clusterCount Dpb.maxCluster at *
  split
  · rename_i h32
    rw [if_pos h32] at hclusters hn
    have hdec : (v.dpbXsize + 0xffffffff) % 0x100000000 = v.dpbXsize - 1 := by omega
    obtain ⟨k, h1, h2, h3⟩ := scale_spec (v.dpbSecsize * 2 ^ v.dpbShftcnt % 0x100000000)
      (v.dpbClsmask + 1) (v.dpbXsize - 1) nfree
    rw [hdec]
    refine ⟨_, _, rfl, rfl, ?_, ?_, ?_⟩
    · simp only [getD_some, h2, h3]
      exact clip_mono (Nat.div_le_div_right hn)
    · simp only [getD_some, h3]
      exact scaled_le h1
    · simp only [getD_some, h2]
      exact scaled_le h1
  · rename_i h32
    rw [if_neg h32] at hclusters hn
    have hdec : (v.dpbSize + 0xffff) % 0x10000 = v.dpbSize - 1 := by omega
    have hmod : nfree % 0x10000 = nfree := by omega
    rw [hdec]
    simp only [map_some, hmod]
    split
    · rename_i hspc
      have hne : nfree ≠ oddHalf ∧ v.dpbSize - 1 ≠ oddHalf := by
        rw [if_neg h32] at hodd
        exact ⟨fun h => hodd ⟨eq_false_of_ne_true h32, hspc, .inl h⟩,
          fun h => hodd ⟨eq_false_of_ne_true h32, hspc, .inr h⟩⟩
      exact ⟨_, _, rfl, rfl, twice_mono hn, doubled_le hne.1 _, doubled_le hne.2 _⟩
    · exact ⟨_, _, rfl, rfl, hn, le_rfl, le_rfl⟩

/-- There it does. -/
theorem getFreeOf_odd (hv : v.Local) {nfree navc nc : Nat}
    (h1 : (getFreeOf v (some nfree)).navc = some navc)
    (h2 : (getFreeOf v (some nfree)).nc = some nc)
    (hfree : navc * (getFreeOf v (some nfree)).spc ≤ nfree * (v.dpbClsmask + 1))
    (htotal : nc * (getFreeOf v (some nfree)).spc ≤ v.clusterCount * (v.dpbClsmask + 1)) :
    ¬ v.OddHalves nfree := by
  rintro ⟨h32, hspc, hodd⟩
  have hclusters := hv.clusters
  have hsize := hv.sizeWord
  -- the number of sectors of a cluster is even
  obtain ⟨c, hc, hcpos⟩ : ∃ c, v.dpbClsmask + 1 = c * 2 ∧ 0 < c := by
    rw [hv.clsmask] at hspc ⊢
    cases hk : v.dpbShftcnt with
    | zero =>
      rw [hk] at hspc
      omega
    | succ k => exact ⟨2 ^ k, Nat.pow_succ 2 k, Nat.two_pow_pos k⟩
  simp only [getFreeOf, h32, Bool.false_eq_true, if_false, if_pos hspc, map_some,
    some.injEq] at h1 h2 hfree htotal
  rw [hc] at hfree htotal
  rcases hodd with rfl | hodd
  · rw [← h1] at hfree
    exact not_doubled_le hcpos hfree
  · rw [hodd, ← h2] at htotal
    have hdec : (v.dpbSize + 0xffff) % 0x10000 = oddHalf := by
      simp only [Dpb.clusterCount, Dpb.maxCluster, h32, Bool.false_eq_true, if_false]
        at hodd hclusters
      omega
    rw [hdec] at htotal
    exact not_doubled_le hcpos htotal

/-- The loop of `dos_free` counts no more clusters than it looks at, whatever the disk holds. -/
theorem countLoop_le {σ : Type} {h : Handler (BlockOp Mem) σ} :
    ∀ {n i cnt r : Nat} {s s' : σ}, (countLoop v n i cnt).exec h s = some (r, s') → r ≤ cnt + n := by
  intro n
  induction n with
  | zero =>
    intro i cnt r s s' hrun
    cases hrun
    exact le_rfl
  | succ n ih =>
    intro i cnt r s s' hrun
    unfold countLoop at hrun
    rw [Prog.exec_bind] at hrun
    obtain ⟨⟨free, s1⟩, -, hrun⟩ := Option.bind_eq_some_iff.mp hrun
    split at hrun
    · split at hrun
      · rw [Prog.exec_bind] at hrun
        obtain ⟨⟨m, s2⟩, -, hrun⟩ := Option.bind_eq_some_iff.mp hrun
        have := ih hrun
        omega
      · have := ih hrun
        omega
    · have := ih hrun
      omega

/-- **`dos_free` never returns more clusters than there are**, if the number it remembers is not. -/
theorem dosFree_le {f f' : Flat Mem} (hknown : f.mem.Known v → f.mem.nfree v ≤ v.clusterCount)
    (hrun : (dosFree v).exec (flat Mem v.area) f = some (n, f')) : n ≤ v.clusterCount := by
  unfold dosFree at hrun
  rw [Prog.exec_bind, exec_getMem, bind_some] at hrun
  split at hrun
  · rename_i hk
    cases hrun
    exact hknown hk
  · rw [Prog.exec_bind] at hrun
    obtain ⟨⟨cnt, f1⟩, hloop, hrun⟩ := Option.bind_eq_some_iff.mp hrun
    have hle := countLoop_le hloop
    rw [Prog.exec_bind, exec_setMem, bind_some] at hrun
    have heq : n = cnt := by
      split at hrun
      · rw [Prog.exec_bind] at hrun
        obtain ⟨⟨u, f2⟩, -, hrun⟩ := Option.bind_eq_some_iff.mp hrun
        exact (Prod.mk.inj (some.inj hrun)).1.symm
      · exact (Prod.mk.inj (some.inj hrun)).1.symm
    unfold Dpb.clusterCount
    omega

/-- A count that `bpb_to_dpb` leaves is not above the number of clusters: `read_fsinfo` looks. -/
theorem bpbToDpb_count {bpb : Bpb} {d0 d : DriveParms} {extended : Bool} {nfreeclst cluster : Nat}
    (hext : bpb.bpbNfsect.toNat = 0 → extended = true)
    (hrun : bpbToDpb bpb d0 extended nfreeclst cluster = some d) {m : Mem}
    (hm : m.dpbXnfreeclst = d.dpbXnfreeclst) (hk : m.Known d.toDpb) :
    m.nfree d.toDpb ≤ d.clusterCount := by
  unfold Mem.Known at hk
  unfold Mem.nfree
  rw [hm] at hk ⊢
  by_cases hnew : bpb.bpbNfsect.toNat = 0
  · rw [hext hnew] at hrun
    obtain ⟨-, -, -, hfatsize, -, -, -, -, hcount⟩ := bpbToDpb_new hnew hrun
    have hfat : d.isFat32 = true := by simp [Dpb.isFat32, hfatsize]
    rw [if_pos hfat] at hk ⊢
    rw [Dpb.clusterCount, Dpb.maxCluster, if_pos hfat]
    exact Nat.le_sub_one_of_lt (hcount.resolve_left hk)
  · obtain ⟨-, -, -, hfatsize, -, -, hcount⟩ := bpbToDpb_old hnew hrun
    have hfat : d.isFat32 = false := by simp [Dpb.isFat32, hfatsize, hnew]
    rw [hfat, if_neg Bool.false_ne_true] at hk
    exact absurd hcount hk

/-- **When the queries keep their promise**: only where the older one scales, and does not clip to an
odd number of halves.  Otherwise the newer query counts one cluster too many. -/
theorem free_space_honest {v : Dpb} (hv : v.Local) {f f' : Flat Mem} {nfree : Nat}
    (hknown : f.mem.Known v → f.mem.nfree v ≤ v.clusterCount)
    (hfree : (dosFree v).exec (flat Mem v.area) f = some (nfree, f')) :
    (∃ g x s t, (dosGetFree (some (.drive (some v) true)) true).exec (flat Mem v.area) f =
        some (g, s) ∧
      (dosGetExtFree (some (.drive (some v) true))).exec (flat Mem v.area) f = some (some x, t) ∧
      Honest v nfree g x) ↔ v.Scaled ∧ ¬ v.OddHalves nfree := by
  have hget : (dosGetFree (some (.drive (some v) true)) true).exec (flat Mem v.area) f =
      some (getFreeOf v (some nfree), f') := by
    change (dosFree v >>= fun n => pure (getFreeOf v (some n))).exec _ f = _
    rw [Prog.exec_bind, hfree]
    rfl
  have hext : (dosGetExtFree (some (.drive (some v) true))).exec (flat Mem v.area) f =
      some (some (xFreeSpace (v.dpbClsmask + 1) v.dpbSecsize
        (if v.isFat32 then v.dpbXsize else v.dpbSize) nfree), f') := by
    change (dosFree v >>= fun n => pure (some (xFreeSpace (v.dpbClsmask + 1) v.dpbSecsize
        (if v.isFat32 then v.dpbXsize else v.dpbSize) n))).exec _ f = _
    rw [Prog.exec_bind, hfree]
    rfl
  constructor
  · rintro ⟨g, x, s, t, hg, hx, hhonest⟩
    rw [hget] at hg
    rw [hext] at hx
    obtain rfl := (Prod.mk.inj (Option.some.inj hg)).1
    obtain rfl := Option.some.inj (Prod.mk.inj (Option.some.inj hx)).1
    constructor
    · by_contra hno
      obtain ⟨htotal, -, -⟩ := hhonest.agree hno
      have hclusters := hv.clusters
      simp only [xFreeSpace, Dpb.clusterCount, Dpb.maxCluster] at htotal hclusters
      omega
    · obtain ⟨navc, nc, h1, h2, -, h3, h4⟩ := hhonest.answered
      exact getFreeOf_odd hv h1 h2 h3 h4
  · rintro ⟨hscaled, hodd⟩
    exact ⟨_, _, f', f', hget, hext, getFreeOf_bounds hv (dosFree_le hknown hfree) hodd,
      fun hno => absurd hscaled hno⟩

/-- A diskette with 2847 clusters, 100 of them free, as the machine remembers. -/
def remembering : Flat Mem where
  disk := fun _ _ => 0
  mem := ⟨2, 100, UNKNCLUSTER, [], false⟩

/-- A volume of FAT16 with clusters of 64 KiB. -/
def largeClusters : Dpb :=
  { diskette with dpbClsmask := 127, dpbShftcnt := 7, dpbSize := 60001, dpbFatsize := 235 }

theorem largeClusters_honest :
    ∃ g x s t, (dosGetFree (some (.drive (some largeClusters) true)) true).exec
        (flat Mem largeClusters.area) remembering = some (g, s) ∧
      (dosGetExtFree (some (.drive (some largeClusters) true))).exec (flat Mem largeClusters.area)
        remembering = some (some x, t) ∧ Honest largeClusters 100 g x :=
  (@free_space_honest largeClusters ⟨by decide, by decide, by decide, by decide, by decide⟩
    remembering remembering _ (fun _ => by decide) rfl).mpr
    ⟨by decide, fun h => nomatch h.2.2⟩

/-- **One cluster too many**: of the diskette's 2847 clusters `DosGetExtFree` makes 2848.  And **half
a cluster too many**: of 32762 clusters of 128 sectors `DosGetFree` makes 65525 of 64. -/
theorem free_space_overstated :
    (∃ x t, (dosGetExtFree (some (.drive (some diskette) true))).exec (flat Mem diskette.area)
        remembering = some (some x, t) ∧ x.xfsTotalclusters = 2848 ∧ diskette.clusterCount = 2847 ∧
      ¬ diskette.Scaled ∧ ∀ g, ¬ Honest diskette 100 g x) ∧
    ∃ v : Dpb, v.isFat16 = true ∧ v.dpbClsmask + 1 = 128 ∧ v.clusterCount = 32762 ∧
      (getFreeOf v (some 100)).nc = some 65525 ∧ (getFreeOf v (some 100)).spc = 64 ∧
      ¬ 65525 * 64 ≤ 32762 * 128 := by
  refine ⟨⟨_, remembering, rfl, rfl, rfl, by decide, fun g h => ?_⟩,
    { largeClusters with dpbSize := 32763 }, by decide, rfl, rfl, rfl, rfl, by decide⟩
  exact absurd (h.agree (by decide)).1 (by decide)

end SdcBoot.Fat
