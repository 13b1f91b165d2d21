/-
# What a write stores

A write on a sound volume with clusters enough, from the offset `p` on: byte `i` of the buffer comes
to stand at the offset `p + i`, modulo 2^32, and every other byte of the data area is as before
(`rwblock_stores`).

The file is seen as its sectors, numbered from its start (`fileSector`).  Two numbers never name the
same sector of the disk, since no cluster is in the chain twice; a cluster that is appended was not
in the chain, and keeps what it has until it is written to.  Each round stores a run of bytes
(`Wrote`), and the runs add up (`FileStored`).
-/
import SdcBoot.Fat.ReadWrite
import Mathlib.Data.List.GetD

namespace SdcBoot.Fat

open Lib Block Kernel List Nat

/-! ## 1. The sectors of a file -/

/-- How many sectors an offset can name. -/
def SECTORS : Nat := 0x800000

/-- Sector `k` of a file. -/
def fileSector (v : Dpb) (cs : List Nat) (k : Nat) : Nat :=
  clus2phys v (cs.getD (k / 2 ^ v.dpbShftcnt) 0) + k % 2 ^ v.dpbShftcnt

/-- Sector `k` is in the chain, and an offset can name it. -/
def InFile (v : Dpb) (cs : List Nat) (k : Nat) : Prop :=
  k < SECTORS ∧ k / 2 ^ v.dpbShftcnt < cs.length

/-- The parameters of a volume that the buffers fit: sectors of 512 bytes, and clusters of a number
of sectors that a byte can hold. -/
structure Dpb.Buffered (v : Dpb) : Prop where
  wf : v.WF
  secsize : v.dpbSecsize = 512
  clsmask : v.dpbClsmask < 256

section

variable {v : Dpb} (hv : v.Buffered)
include hv

omit hv in
theorem pow_pos (v : Dpb) : 0 < 2 ^ v.dpbShftcnt := Nat.two_pow_pos _

theorem shftcnt_le : v.dpbShftcnt ≤ 8 := by
  have h1 := hv.wf.clsmask
  have h2 := hv.clsmask
  by_contra h
  have : 2 ^ 9 ≤ 2 ^ v.dpbShftcnt := Nat.pow_le_pow_right (by decide) (by omega)
  omega

/-- A cluster is a power of two of sectors. -/
theorem cluster_dvd : 2 ^ v.dpbShftcnt ∣ SECTORS := by
  have h := Nat.pow_dvd_pow 2 (le_trans (shftcnt_le hv) (by decide : 8 ≤ 23))
  exact h

variable {offset : Nat}

theorem sectorIn_eq : sectorIn v offset = offset / 512 % 2 ^ v.dpbShftcnt := by
  have h8 := shftcnt_le hv
  have hmask : v.dpbClsmask = 2 ^ v.dpbShftcnt - 1 := by
    have := hv.wf.clsmask
    omega
  have hdvd : 2 ^ v.dpbShftcnt ∣ 256 := Nat.pow_dvd_pow 2 h8
  rw [sectorIn, hv.secsize, hmask, and_two_pow_sub_one_eq_mod, mod_mod_of_dvd _ hdvd]

theorem relcluster_eq : relcluster v offset = offset / 512 / 2 ^ v.dpbShftcnt := by
  rw [relcluster, hv.secsize]

omit hv in
theorem clus2phys_inj {c d i j : Nat} (hc : 2 ≤ c) (hd : 2 ≤ d) (hi : i < 2 ^ v.dpbShftcnt)
    (hj : j < 2 ^ v.dpbShftcnt) (h : clus2phys v c + i = clus2phys v d + j) : c = d ∧ i = j := by
  have hpos := pow_pos v
  have hsum : i + 2 ^ v.dpbShftcnt * (c - 2) = j + 2 ^ v.dpbShftcnt * (d - 2) := by
    unfold clus2phys at h
    rw [mul_comm (c - 2), mul_comm (d - 2)] at h
    omega
  have hmod := congrArg (· % 2 ^ v.dpbShftcnt) hsum
  have hdiv := congrArg (· / 2 ^ v.dpbShftcnt) hsum
  simp only [add_mul_mod_self_left, mod_eq_of_lt hi, mod_eq_of_lt hj] at hmod
  simp only [add_mul_div_left _ _ hpos, div_eq_of_lt hi, div_eq_of_lt hj] at hdiv
  omega

/-- **Two numbers never name the same sector.** -/
theorem fileSector_inj {disk : Nat → Sector} {cs : List Nat} (hcs : Chained v disk cs) {k l : Nat}
    (hk : InFile v cs k) (hl : InFile v cs l) (h : fileSector v cs k = fileSector v cs l) :
    k = l := by
  have hpos := pow_pos v
  have hget : ∀ {n : Nat}, n < cs.length → cs.getD n 0 ∈ cs := by
    intro n hn
    rw [getD_eq_getElem _ _ hn]
    exact getElem_mem hn
  obtain ⟨hc, hmod⟩ := clus2phys_inj (hcs.range _ (hget hk.2)).1 (hcs.range _ (hget hl.2)).1
    (mod_lt k hpos) (mod_lt l hpos) h
  have hdiv : k / 2 ^ v.dpbShftcnt = l / 2 ^ v.dpbShftcnt := by
    rw [getD_eq_getElem _ _ hk.2, getD_eq_getElem _ _ hl.2] at hc
    exact (List.Nodup.getElem_inj_iff (hcs.nodup hv.wf)).mp hc
  rw [← div_add_mod k (2 ^ v.dpbShftcnt), ← div_add_mod l (2 ^ v.dpbShftcnt), hdiv, hmod]

variable {cs new : List Nat}

omit hv in
theorem fileSector_append {k : Nat} (hk : k / 2 ^ v.dpbShftcnt < cs.length) :
    fileSector v (cs ++ new) k = fileSector v cs k := by
  rw [fileSector, fileSector, getD_append _ _ _ _ hk]

omit hv in
theorem dataStart_le (v : Dpb) (cs : List Nat) (k : Nat) : v.dataStart ≤ fileSector v cs k := by
  unfold fileSector clus2phys
  omega

/-- The data area holds no FAT, no copy of one, and no fsinfo sector. -/
theorem data_plain {b : Nat} (hb : v.dataStart ≤ b) : v.Plain b ∧ ¬ v.area.mirror b := by
  have hfar := hv.wf.dataFar
  have hcopies := hv.wf.copies
  have hstride : v.area.stride ≤ v.area.copies * v.area.stride :=
    Nat.le_mul_of_pos_left _ hcopies
  refine ⟨⟨fun hfat => ?_, fun hinfo => ?_⟩, fun hmirror => ?_⟩
  · have := hfat.2
    omega
  · have := (hv.wf.info_block hinfo).2
    omega
  · have := hmirror.2
    omega

end

/-! ## 2. Runs of bytes -/

/-- How far an offset lies behind `p`, going around at 2^32. -/
def behind (p offset : Nat) : Nat := (offset + 0x100000000 - p) % 0x100000000

/-- What one round does to the disk: the bytes stand in the file from the offset `p` on, and nothing
else has changed. -/
structure Wrote (v : Dpb) (disk disk' : Nat → Sector) (cs : List Nat) (p : Nat)
    (data : List UInt8) : Prop where
  bytes : ∀ k, InFile v cs k → ∀ o < 512,
    disk' (fileSector v cs k) o =
      (data[behind p (k * 512 + o)]?).getD (disk (fileSector v cs k) o)
  inside : ∀ k < SECTORS, ∀ o < 512, behind p (k * 512 + o) < data.length → InFile v cs k
  others : ∀ b, (∀ k, InFile v cs k → b ≠ fileSector v cs k) → disk' b = disk b

/-- What a whole write has done so far to the data area. -/
structure FileStored (v : Dpb) (disk0 disk : Nat → Sector) (cs : List Nat) (p : Nat)
    (data : List UInt8) : Prop where
  bytes : ∀ k, InFile v cs k → ∀ o < 512,
    disk (fileSector v cs k) o =
      (data[behind p (k * 512 + o)]?).getD (disk0 (fileSector v cs k) o)
  inside : ∀ k < SECTORS, ∀ o < 512, behind p (k * 512 + o) < data.length → InFile v cs k
  others : ∀ b, v.dataStart ≤ b → (∀ k, InFile v cs k → b ≠ fileSector v cs k) →
    disk b = disk0 b

/-- The offset `n` behind `p`, and how far another one is behind it. -/
theorem behind_wrap {p n offset : Nat} (hp : p < 0x100000000) (hn : n < 0x100000000)
    (hoffset : offset < 0x100000000) :
    (n ≤ behind p offset → behind (wrap (p + n)) offset = behind p offset - n) ∧
      (behind p offset < n →
        behind (wrap (p + n)) offset = behind p offset + 0x100000000 - n) := by
  unfold behind wrap
  constructor
  · intro h
    omega
  · intro h
    omega

theorem inFile_mono {v : Dpb} {k : Nat} (h : InFile v cs k) :
    InFile v (cs ++ new) k :=
  ⟨h.1, by rw [length_append]; exact lt_of_lt_of_le h.2 (Nat.le_add_right _ _)⟩

section

variable {v : Dpb} (hv : v.Buffered)
include hv

omit hv in
theorem FileStored.refl (disk : Nat → Sector) (cs : List Nat) (p : Nat) :
    FileStored v disk disk cs p [] :=
  ⟨fun _ _ _ _ => rfl, fun _ _ _ _ h => absurd h (Nat.not_lt_zero _), fun _ _ _ => rfl⟩

variable {disk0 : Nat → Sector} {cs : List Nat} {p : Nat} {data : List UInt8}

/-- A chain that grows takes in sectors as they are. -/
theorem FileStored.grown {f f' : Flat Mem} {cs' : List Nat}
    (h : FileStored v disk0 f.disk cs p data) (hg : Grown v f f' cs cs') :
    FileStored v disk0 f'.disk cs' p data := by
  obtain ⟨new, rfl⟩ := hg.more
  have hsame : ∀ k, f'.disk (fileSector v (cs ++ new) k) = f.disk (fileSector v (cs ++ new) k) :=
    fun k => hg.plain _ (data_plain hv (dataStart_le v _ k)).1
  refine ⟨fun k hk o ho => ?_, fun k hk o ho hlt => inFile_mono (h.inside k hk o ho hlt),
    fun b hb hnot => ?_⟩
  · rw [hsame]
    by_cases hold : k / 2 ^ v.dpbShftcnt < cs.length
    · rw [fileSector_append hold]
      exact h.bytes k ⟨hk.1, hold⟩ o ho
    · have hnone : data[behind p (k * 512 + o)]? = none := by
        rw [List.getElem?_eq_none_iff]
        by_contra hlt
        exact hold (h.inside k hk.1 o ho (Nat.lt_of_not_le hlt)).2
      rw [hnone, Option.getD_none]
      refine congrFun (h.others _ (dataStart_le v _ k) fun l hl heq => ?_) o
      rw [← @fileSector_append v cs new l hl.2] at heq
      exact hold (fileSector_inj hv hg.chain hk (inFile_mono hl) heq ▸ hl.2)
  · rw [hg.plain b (data_plain hv hb).1]
    refine h.others b hb fun k hk heq => hnot k (inFile_mono hk) ?_
    rw [heq, fileSector_append hk.2]

omit hv in
/-- **Runs add up.** -/
theorem FileStored.wrote {disk disk' : Nat → Sector} {more : List UInt8} (hp : p < 0x100000000)
    (hlen : data.length + more.length < 0x100000000) (h : FileStored v disk0 disk cs p data)
    (hw : Wrote v disk disk' cs (wrap (p + data.length)) more) :
    FileStored v disk0 disk' cs p (data ++ more) := by
  have hoffset : ∀ k < SECTORS, ∀ o < 512, k * 512 + o < 0x100000000 := by
    intro k hk o ho
    simp only [SECTORS] at hk
    omega
  refine ⟨fun k hk o ho => ?_, fun k hk o ho hlt => ?_, fun b hb hnot => ?_⟩
  · obtain ⟨hge, hlt⟩ := behind_wrap hp (by omega : data.length < 0x100000000)
      (hoffset k hk.1 o ho)
    rw [hw.bytes k hk o ho, h.bytes k hk o ho]
    by_cases hbefore : behind p (k * 512 + o) < data.length
    · have hnone : more[behind (wrap (p + data.length)) (k * 512 + o)]? = none := by
        rw [List.getElem?_eq_none_iff, hlt hbefore]
        omega
      rw [hnone, Option.getD_none, getElem?_append_left hbefore]
    · have hbefore := Nat.le_of_not_lt hbefore
      rw [hge hbefore, getElem?_append_right hbefore,
        List.getElem?_eq_none_iff.mpr hbefore, Option.getD_none]
  · obtain ⟨hge, -⟩ := behind_wrap hp (by omega : data.length < 0x100000000) (hoffset k hk o ho)
    rw [length_append] at hlt
    by_cases hbefore : behind p (k * 512 + o) < data.length
    · exact h.inside k hk o ho hbefore
    · refine hw.inside k hk o ho ?_
      rw [hge (Nat.le_of_not_lt hbefore)]
      omega
  · rw [hw.others b hnot, h.others b hb hnot]

end

/-! ## 3. One round -/

section

variable {v : Dpb} (hv : v.Buffered)
include hv

/-- Storing to a file leaves the FAT as it is. -/
theorem Wrote.link {disk disk' : Nat → Sector} {cs : List Nat} {p : Nat} {data : List UInt8}
    (h : Wrote v disk disk' cs p data) {c : Nat} (hc : c ≤ v.maxCluster) :
    link v disk' c = link v disk c := by
  refine link_of_fat hv.wf (fun b hb => h.others b fun k _ heq => ?_) hc
  exact (data_plain hv (heq ▸ dataStart_le v cs k : v.dataStart ≤ b)).1.1 hb

variable {disk : Nat → Sector} {cs : List Nat} {block n p : Nat} {data rest : List UInt8}
  {fnp : Fnode}

variable {disk' : Nat → Sector} {f : Flat Mem} {dmDircluster j wanted : Nat}

theorem Wrote.onChain (h : Wrote v disk disk' cs p data)
    (hon : OnChain v disk fnp cs) : OnChain v disk' fnp cs := by
  have heq := @onward_congr v disk disk' fun c hc => h.link hv hc
  refine ⟨?_, hon.file, hon.start, hon.cursor, hon.empty⟩
  have hchain := hon.chain
  unfold Chained at *
  rw [heq]
  exact hchain

theorem Wrote.free
    (h : Wrote v disk disk' cs p data) : freeClusters v disk' = freeClusters v disk :=
  freeClusters_congr fun _ _ hc => h.link hv hc

/-- Where the cursor is. -/
theorem currentBlock_eq (hhere : cs[relcluster v fnp.fOffset]? = some fnp.fCluster)
    (hlt : fnp.fOffset < 0x100000000) :
    InFile v cs (fnp.fOffset / 512) ∧ currentBlock v fnp = fileSector v cs (fnp.fOffset / 512) := by
  rw [relcluster_eq hv] at hhere
  obtain ⟨hlen, -⟩ := List.getElem?_eq_some_iff.mp hhere
  refine ⟨⟨?_, hlen⟩, ?_⟩
  · simp only [SECTORS]
    omega
  · rw [currentBlock, sectorIn_eq hv, fileSector, getD_eq_getElem?_getD, hhere]
    rfl

/-- A run within one sector. -/
theorem wrote_overlay (hcs : Chained v disk cs) (hp : p < 0x100000000) (hin : InFile v cs (p / 512))
    (hroom : p % 512 + data.length ≤ 512) :
    Wrote v disk (Function.update disk (fileSector v cs (p / 512))
      (overlay (p % 512) data (disk (fileSector v cs (p / 512))))) cs p data := by
  have hbehind : ∀ k < SECTORS, ∀ o < 512,
      (k = p / 512 → (p % 512 ≤ o → behind p (k * 512 + o) = o - p % 512) ∧
        (o < p % 512 → data.length ≤ behind p (k * 512 + o))) ∧
      (k ≠ p / 512 → data.length ≤ behind p (k * 512 + o)) := by
    intro k hk o ho
    simp only [SECTORS] at hk
    unfold behind
    refine ⟨fun heq => ⟨fun hle => by omega, fun hlt => by omega⟩, fun hne => ?_⟩
    rcases Nat.lt_or_gt_of_ne hne with hlt | hgt
    · omega
    · omega
  refine ⟨fun k hk o ho => ?_, fun k hk o ho hlt => ?_, fun b hb => ?_⟩
  · obtain ⟨hsame, hother⟩ := hbehind k hk.1 o ho
    by_cases heq : k = p / 512
    · obtain ⟨hge, hlt⟩ := hsame heq
      rw [heq, Function.update_self]
      unfold overlay
      rw [← heq]
      by_cases hle : p % 512 ≤ o
      · rw [hge hle]
        by_cases hend : o < p % 512 + data.length
        · rw [if_pos ⟨hle, hend⟩, getD_eq_getElem?_getD,
            getElem?_eq_getElem (by omega)]
          rfl
        · rw [if_neg (fun h => hend h.2), List.getElem?_eq_none_iff.mpr (by omega),
            Option.getD_none]
      · rw [if_neg (fun h => hle h.1),
          List.getElem?_eq_none_iff.mpr (hlt (Nat.lt_of_not_le hle)), Option.getD_none]
    · rw [List.getElem?_eq_none_iff.mpr (hother heq), Option.getD_none,
        Function.update_of_ne fun h => heq (fileSector_inj hv hcs hk hin h)]
  · by_cases heq : k = p / 512
    · rw [heq]
      exact hin
    · exact absurd ((hbehind k hk o ho).2 heq) (Nat.not_le_of_lt hlt)
  · exact Function.update_of_ne (hb _ hin) ..

/-- The transfer through a buffer. -/
theorem buffered_wrote (hcs : Chained v f.disk cs)
    (hhere : cs[relcluster v fnp.fOffset]? = some fnp.fCluster) (hlt : fnp.fOffset < 0x100000000) :
    (buffered v true fnp rest).Meets (flat Mem v.area) f fun r f' =>
      ∃ n, n = min rest.length (512 - fnp.fOffset % 512) ∧
        r = ({ fnp with fOffset := wrap (fnp.fOffset + n) }, some (rest.take n)) ∧
        Wrote v f.disk f'.disk cs fnp.fOffset (rest.take n) ∧ f'.mem = f.mem := by
  obtain ⟨hin, hblock⟩ := currentBlock_eq hv hhere hlt
  unfold buffered
  simp only [hv.secsize, hblock]
  refine Prog.Meets.bind ⟨some (f.disk (fileSector v cs (fnp.fOffset / 512))),
    ⟨Function.update f.disk (fileSector v cs (fnp.fOffset / 512))
      (overlay (fnp.fOffset % 512) (rest.take (min rest.length (512 - fnp.fOffset % 512)))
        (f.disk (fileSector v cs (fnp.fOffset / 512)))), f.mem⟩, ?_,
    Prog.Meets.pure ⟨_, rfl, rfl, wrote_overlay hv hcs hlt hin ?_, ?_⟩⟩
  · rw [Prog.exec_perform]
    simp only [flat]
    rw [if_neg]
    · rfl
    · rintro (hm | ⟨hk, -⟩)
      · exact (data_plain hv (dataStart_le v _ _)).2 hm
      · cases hk
  · rw [length_take]
    omega
  · rfl

/-! ## 4. Complete sectors -/

omit hv in
/-- `n` sectors of the file from sector `k0` on, around at 2^32, lie one behind the other on the
disk. -/
def Runs (v : Dpb) (cs : List Nat) (k0 block n : Nat) : Prop :=
  ∀ j < n, InFile v cs ((k0 + j) % SECTORS) ∧
    fileSector v cs ((k0 + j) % SECTORS) = block + j

omit hv in
theorem Runs.append {k0 block n : Nat} (h : Runs v cs k0 block n) :
    Runs v (cs ++ new) k0 block n := by
  intro j hj
  obtain ⟨hin, heq⟩ := h j hj
  exact ⟨inFile_mono hin, (fileSector_append hin.2).trans heq⟩

/-- The sectors of one cluster, from sector `i` of it on. -/
theorem runs_cluster {k i c : Nat} (hk : k < SECTORS) (hi : k % 2 ^ v.dpbShftcnt = i)
    (hc : cs[k / 2 ^ v.dpbShftcnt]? = some c) (hn : i + n ≤ 2 ^ v.dpbShftcnt)
    (hj : j < n) : InFile v cs (k + j) ∧ fileSector v cs (k + j) = clus2phys v c + i + j := by
  have hpos := pow_pos v
  obtain ⟨m, hm⟩ := cluster_dvd hv
  obtain ⟨hlen, -⟩ := List.getElem?_eq_some_iff.mp hc
  have hsplit : k + j = (i + j) + 2 ^ v.dpbShftcnt * (k / 2 ^ v.dpbShftcnt) := by
    have := div_add_mod k (2 ^ v.dpbShftcnt)
    omega
  have hdiv : (k + j) / 2 ^ v.dpbShftcnt = k / 2 ^ v.dpbShftcnt := by
    rw [hsplit, add_mul_div_left _ _ hpos, div_eq_of_lt (by omega), zero_add]
  have hmod : (k + j) % 2 ^ v.dpbShftcnt = i + j := by
    rw [hsplit, add_mul_mod_self_left, mod_eq_of_lt (by omega)]
  have hq : k / 2 ^ v.dpbShftcnt + 1 ≤ m := by
    rw [hm] at hk
    exact Nat.div_lt_of_lt_mul hk
  have htop := Nat.mul_le_mul_left (2 ^ v.dpbShftcnt) hq
  rw [← hm, mul_add, mul_one] at htop
  refine ⟨⟨by omega, by rw [hdiv]; exact hlen⟩, ?_⟩
  rw [fileSector, hdiv, hmod, getD_eq_getElem?_getD, hc, Option.getD_some, add_assoc]

/-- A run goes on with the cluster behind it. -/
theorem Runs.next {cs : List Nat} {k0 block n n' c : Nat} (h : Runs v cs k0 block n)
    (halign : (k0 + n) % 2 ^ v.dpbShftcnt = 0)
    (hc : cs[(k0 + n) % SECTORS / 2 ^ v.dpbShftcnt]? = some c)
    (hblock : clus2phys v c = block + n) (hn' : n' ≤ n + 2 ^ v.dpbShftcnt) :
    Runs v cs k0 block n' := by
  intro j hj
  by_cases hold : j < n
  · exact h j hold
  · have hzero : (k0 + n) % SECTORS % 2 ^ v.dpbShftcnt = 0 := by
      rw [mod_mod_of_dvd _ (cluster_dvd hv)]
      exact halign
    have hlt : (k0 + n) % SECTORS < SECTORS := mod_lt _ (by decide)
    obtain ⟨hin, heq⟩ := runs_cluster hv hlt hzero hc (n := n' - n) (j := j - n) (by omega)
      (by omega)
    have hmod : (k0 + j) % SECTORS = (k0 + n) % SECTORS + (j - n) := by
      have hj' : k0 + j = k0 + n + (j - n) := by omega
      rw [hj', add_mod, mod_eq_of_lt (by
        have := hin.1
        omega : j - n < SECTORS)]
      exact mod_eq_of_lt hin.1
    rw [hmod]
    refine ⟨hin, ?_⟩
    omega

omit hv in
/-- The offset and the size do not move the cursor. -/
theorem OnChain.seek (h : OnChain v disk fnp cs)
    (offset size : Nat) : OnChain v disk { fnp with fOffset := offset, dirSize := size } cs :=
  ⟨h.chain, h.file, h.start, h.cursor, h.empty⟩

/-- What the loop that gathers sectors leaves. -/
structure Gathered (v : Dpb) (f f' : Flat Mem) (fnp fnp' : Fnode) (cs cs' : List Nat)
    (startoffset block wanted n : Nat) : Prop where
  grown : Grown v f f' cs cs'
  on : OnChain v f'.disk fnp' cs'
  le : n ≤ wanted
  runs : Runs v cs' (startoffset / 512) block n
  offset : fnp'.fOffset = wrap (startoffset + n * 512)
  size : fnp'.dirSize = fnp.dirSize

theorem gather_runs {startoffset : Nat} (hstart : startoffset % 512 = 0) :
    ∀ {n sectors : Nat} {fnp : Fnode} {f : Flat Mem} {cs : List Nat},
      OnChain v f.disk fnp cs →
      (f.mem.hint v = UNKNCLUSTER ∨ v.InRange (f.mem.hint v)) → sectors ≤ wanted →
      fnp.fOffset = wrap (startoffset + sectors * 512) →
      Runs v cs (startoffset / 512) block sectors →
      (sectors < wanted → (startoffset / 512 + sectors) % 2 ^ v.dpbShftcnt = 0) →
      (∀ j < wanted, (startoffset / 512 + j) % SECTORS / 2 ^ v.dpbShftcnt <
        cs.length + (freeClusters v f.disk).card) →
      (gather v dmDircluster true startoffset block wanted n sectors fnp).Meets (flat Mem v.area) f
        fun r f' => sectors ≤ r.1 ∧ ∃ cs', Gathered v f f' fnp r.2 cs cs' startoffset block wanted
          r.1 := by
  intro n
  induction n with
  | zero =>
    intro sectors fnp f cs hon hhint hle hoffset hruns _ _
    exact Prog.Meets.pure ⟨le_rfl, cs, Grown.refl hon.chain hhint, hon, hle, hruns, hoffset,
      rfl⟩
  | succ n ih =>
    intro sectors fnp f cs hon hhint hle hoffset hruns halign hspace
    unfold gather
    split
    · rename_i hlt
      -- the sector behind those that are certain
      have hrel : relcluster v fnp.fOffset =
          (startoffset / 512 + sectors) % SECTORS / 2 ^ v.dpbShftcnt := by
        rw [relcluster_eq hv, hoffset]
        congr 1
        simp only [wrap, SECTORS]
        omega
      refine Prog.Meets.bind ((mapCluster_grows hv.wf hon hhint
        (by rw [hrel]; exact hspace sectors hlt)).mono ?_)
      rintro ⟨rc, fnp1⟩ f1 ⟨rfl, cs1, hmapped⟩
      have hruns1 : Runs v cs1 (startoffset / 512) block sectors := by
        obtain ⟨new, rfl⟩ := hmapped.grown.more
        exact hruns.append
      have hhere := hmapped.here
      rw [hrel] at hhere
      rw [if_neg (not_not.mpr rfl)]
      split
      · exact Prog.Meets.pure ⟨le_rfl, cs1, hmapped.grown, hmapped.on, hle, hruns1,
          hmapped.offset.trans hoffset, hmapped.size⟩
      · rename_i hnext
        have hmask := hv.wf.clsmask
        have hfree := hmapped.grown.free
        have hruns2 : Runs v cs1 (startoffset / 512) block
            (min (sectors + (v.dpbClsmask + 1)) wanted) :=
          hruns1.next hv (halign hlt) hhere (not_not.mp hnext) (by omega)
        rw [hv.secsize]
        refine (ih (hmapped.on.seek _ fnp1.dirSize) hmapped.grown.hint (min_le_right _ _) rfl
          hruns2 (fun hmore => ?_)
          (fun j hj => by have := hspace j hj; omega)).mono ?_
        · have hmin : min (sectors + (v.dpbClsmask + 1)) wanted = sectors + 2 ^ v.dpbShftcnt := by
            omega
          rw [hmin, ← add_assoc, add_mod_right]
          exact halign hlt
        · rintro r f' ⟨hge, cs', hgathered⟩
          exact ⟨by omega, cs', hmapped.grown.trans hgathered.grown, hgathered.on, hgathered.le,
            hgathered.runs, hgathered.offset, hgathered.size.trans hmapped.size⟩
    · exact Prog.Meets.pure ⟨le_rfl, cs, Grown.refl hon.chain hhint, hon, hle, hruns, hoffset,
        rfl⟩

omit hv in
theorem sectorsOf_length (data : List UInt8) (n : Nat) : (sectorsOf 512 data n).length = n := by
  simp [sectorsOf]

omit hv in
theorem sectorAt_sectorsOf (hj : j < n) (o : Nat) :
    sectorAt block (sectorsOf 512 data n) (block + j) o = data.getD (j * 512 + o) 0 := by
  unfold sectorAt
  rw [Nat.add_sub_cancel_left, getD_eq_getElem?_getD,
    getElem?_eq_getElem (by rw [sectorsOf_length]; exact hj)]
  simp [sectorsOf]

/-- A run of complete sectors. -/
theorem wrote_sectors (hcs : Chained v disk cs) (hp : p < 0x100000000) (haligned : p % 512 = 0)
    (hn : n ≤ SECTORS) (hruns : Runs v cs (p / 512) block n) (hrest : n * 512 ≤ rest.length) :
    Wrote v disk (fun b => if block ≤ b ∧ b < block + (sectorsOf 512 rest n).length
      then sectorAt block (sectorsOf 512 rest n) b else disk b) cs p (rest.take (n * 512)) := by
  rw [sectorsOf_length]
  have hdata : (rest.take (n * 512)).length = n * 512 := length_take_of_le hrest
  -- sector `k` is the one `j` behind the first
  have hplace : ∀ k < SECTORS, ∃ j < SECTORS, (p / 512 + j) % SECTORS = k ∧
      ∀ o < 512, behind p (k * 512 + o) = j * 512 + o := by
    intro k hk
    refine ⟨(k + SECTORS - p / 512) % SECTORS, mod_lt _ (by decide), ?_, fun o ho => ?_⟩
    · simp only [SECTORS] at *
      omega
    · simp only [SECTORS, behind] at *
      omega
  have hunique : ∀ j < SECTORS, ∀ i < n, (p / 512 + j) % SECTORS = (p / 512 + i) % SECTORS →
      j = i := by
    intro j hj i hi h
    simp only [SECTORS] at *
    omega
  refine ⟨fun k hk o ho => ?_, fun k hk o ho hlt => ?_, fun b hb => ?_⟩
  · obtain ⟨j, hj, hkj, hbehind⟩ := hplace k hk.1
    rw [hbehind o ho]
    by_cases hjn : j < n
    · obtain ⟨-, hblock⟩ := hruns j hjn
      rw [hkj] at hblock
      rw [hblock, if_pos ⟨Nat.le_add_right _ _, by omega⟩, sectorAt_sectorsOf hjn,
        getElem?_take_of_lt (by omega), getElem?_eq_getElem (by omega), Option.getD_some,
        getD_eq_getElem _ _ (by omega)]
    · rw [List.getElem?_eq_none_iff.mpr (by omega), Option.getD_none, if_neg]
      rintro ⟨hlo, hhi⟩
      obtain ⟨hin, hblock⟩ := hruns (fileSector v cs k - block) (by omega)
      have heq := fileSector_inj hv hcs hk hin (by omega)
      have := hunique j hj _ (by omega) (hkj.trans heq)
      omega
  · obtain ⟨j, hj, hkj, hbehind⟩ := hplace k hk
    rw [hbehind o ho, hdata] at hlt
    rw [← hkj]
    exact (hruns j (by omega)).1
  · refine if_neg ?_
    rintro ⟨hlo, hhi⟩
    obtain ⟨hin, hblock⟩ := hruns (b - block) (by omega)
    exact hb _ hin (by omega)

/-- What a round leaves: the chain has grown, and a run of bytes is stored at the offset. -/
structure Round (v : Dpb) (f f' : Flat Mem) (fnp fnp' : Fnode) (cs cs' : List Nat)
    (rest data : List UInt8) : Prop where
  stored : ∃ f1, Grown v f f1 cs cs' ∧ Wrote v f1.disk f'.disk cs' fnp.fOffset data ∧
    f'.mem = f1.mem
  on : OnChain v f'.disk fnp' cs'
  some : data ≠ []
  front : data = rest.take data.length
  offset : fnp'.fOffset = wrap (fnp.fOffset + data.length)

/-- The transfer past the buffers. -/
theorem direct_round (hon : OnChain v f.disk fnp cs)
    (hhint : f.mem.hint v = UNKNCLUSTER ∨ v.InRange (f.mem.hint v))
    (hhere : cs[relcluster v fnp.fOffset]? = some fnp.fCluster) (hlt : fnp.fOffset < 0x100000000)
    (haligned : fnp.fOffset % 512 = 0) (hwanted : wanted ≠ 0) (hrest : wanted * 512 ≤ rest.length)
    (hmax : rest.length < 0x10000)
    (hspace : ∀ j < wanted, (fnp.fOffset / 512 + j) % SECTORS / 2 ^ v.dpbShftcnt <
      cs.length + (freeClusters v f.disk).card) :
    (direct v dmDircluster true fnp rest wanted).Meets (flat Mem v.area) f fun r f' =>
      ∃ data cs', r.2 = some data ∧ Round v f f' fnp r.1 cs cs' rest data := by
  obtain ⟨hin, hblock⟩ := currentBlock_eq hv hhere hlt
  have hmask := hv.wf.clsmask
  rw [relcluster_eq hv] at hhere
  unfold direct
  simp only [hv.secsize, sectorIn_eq hv, hmask]
  -- the sectors up to the end of the first cluster
  have hfirst : Runs v cs (fnp.fOffset / 512) (currentBlock v fnp)
      (min (2 ^ v.dpbShftcnt - fnp.fOffset / 512 % 2 ^ v.dpbShftcnt) wanted) := by
    intro j hj
    obtain ⟨hjin, heq⟩ := runs_cluster hv hin.1 rfl hhere
      (n := min (2 ^ v.dpbShftcnt - fnp.fOffset / 512 % 2 ^ v.dpbShftcnt) wanted) (by omega) hj
    rw [mod_eq_of_lt hjin.1]
    refine ⟨hjin, heq.trans ?_⟩
    rw [currentBlock, sectorIn_eq hv]
  have halign : min (2 ^ v.dpbShftcnt - fnp.fOffset / 512 % 2 ^ v.dpbShftcnt) wanted < wanted →
      (fnp.fOffset / 512 +
        min (2 ^ v.dpbShftcnt - fnp.fOffset / 512 % 2 ^ v.dpbShftcnt) wanted) %
          2 ^ v.dpbShftcnt = 0 := by
    intro hmore
    have hsum : fnp.fOffset / 512 +
        min (2 ^ v.dpbShftcnt - fnp.fOffset / 512 % 2 ^ v.dpbShftcnt) wanted =
        2 ^ v.dpbShftcnt * (fnp.fOffset / 512 / 2 ^ v.dpbShftcnt + 1) := by
      have := div_add_mod (fnp.fOffset / 512) (2 ^ v.dpbShftcnt)
      rw [mul_add, mul_one]
      omega
    rw [hsum, mul_mod_right]
  refine Prog.Meets.bind ((gather_runs hv haligned (hon.seek _ fnp.dirSize) hhint
    (min_le_right _ _) rfl hfirst halign hspace).mono ?_)
  rintro ⟨n, fnp1⟩ f1 ⟨hge, cs1, hgathered⟩
  have hn : 1 ≤ n := by omega
  have hle := hgathered.le
  have hbytes : n * 512 ≤ rest.length := le_trans (Nat.mul_le_mul_right 512 hle) hrest
  have hwrote := wrote_sectors hv hgathered.on.chain hlt haligned
    (by simp only [SECTORS]; omega) hgathered.runs hbytes
  have hdata : (rest.take (n * 512)).length = n * 512 := length_take_of_le hbytes
  refine Prog.Meets.bind ⟨true, ⟨_, f1.mem⟩, ?_, Prog.Meets.pure ⟨_, cs1, rfl,
    ⟨⟨f1, hgathered.grown, hwrote, rfl⟩, ?_, ?_, ?_, ?_⟩⟩⟩
  · rw [Prog.exec_perform]
    simp only [flat]
    rw [if_pos]
    · rfl
    · refine ⟨by rw [sectorsOf_length]; exact hn, fun k hk => ?_⟩
      rw [sectorsOf_length] at hk
      rw [← (hgathered.runs k hk).2]
      exact (data_plain hv (dataStart_le v _ _)).2
  · exact hwrote.onChain hv hgathered.on
  · intro hnil
    rw [hnil, length_nil] at hdata
    omega
  · rw [hdata]
  · rw [hdata]
    exact hgathered.offset

end

/-! ## 5. The loop -/

section

variable {v : Dpb} (hv : v.Buffered)
include hv

/-- There are clusters enough for `n` bytes from an offset on, around at 2^32. -/
def Room (v : Dpb) (disk : Nat → Sector) (cs : List Nat) (p n : Nat) : Prop :=
  ∀ i < n, relcluster v (wrap (p + i)) < cs.length + (freeClusters v disk).card

variable {f : Flat Mem} {cs : List Nat} {n p : Nat} {disk : Nat → Sector} {fnp : Fnode}

variable {f' : Flat Mem} {cs' : List Nat}

omit hv in
theorem Room.grown (h : Room v f.disk cs p n)
    (hg : Grown v f f' cs cs') : Room v f'.disk cs' p n := by
  intro i hi
  have := h i hi
  have := hg.free
  omega

theorem Room.wrote {disk' : Nat → Sector} {q : Nat} {data : List UInt8} (h : Room v disk cs p n)
    (hw : Wrote v disk disk' cs q data) : Room v disk' cs p n := by
  unfold Room at *
  rw [hw.free hv]
  exact h

omit hv in
theorem Room.drop {m : Nat} (h : Room v disk cs p n)
    (hm : m ≤ n) : Room v disk cs (wrap (p + m)) (n - m) := by
  intro i hi
  have heq : wrap (wrap (p + m) + i) = wrap (p + (m + i)) := by
    unfold wrap
    omega
  rw [heq]
  exact h (m + i) (by omega)

/-- The transfer of one round, either way. -/
theorem transfer_round {dmDircluster : Nat} {fnp : Fnode} {f : Flat Mem} {cs : List Nat}
    {rest : List UInt8} (hon : OnChain v f.disk fnp cs)
    (hhint : f.mem.hint v = UNKNCLUSTER ∨ v.InRange (f.mem.hint v))
    (hhere : cs[relcluster v fnp.fOffset]? = some fnp.fCluster) (hlt : fnp.fOffset < 0x100000000)
    (hrest : rest ≠ []) (hmax : rest.length < 0x10000)
    (hroom : Room v f.disk cs fnp.fOffset rest.length) :
    (transfer v dmDircluster true fnp rest).Meets (flat Mem v.area) f fun r f' =>
      ∃ data cs', r.2 = some data ∧ Round v f f' fnp r.1 cs cs' rest data := by
  unfold transfer withinFile
  rw [hv.secsize, if_pos rfl]
  dsimp only
  split
  · rename_i hwhole
    refine direct_round hv hon hhint hhere hlt hwhole.1 hwhole.2 (by omega) hmax fun j hj => ?_
    have hi := hroom (j * 512) (by omega)
    rw [relcluster_eq hv] at hi
    have heq : (fnp.fOffset / 512 + j) % SECTORS = wrap (fnp.fOffset + j * 512) / 512 := by
      simp only [SECTORS, wrap]
      omega
    rw [heq]
    exact hi
  · refine (buffered_wrote hv hon.chain hhere hlt).mono ?_
    rintro _ f' ⟨n, hn, rfl, hwrote, hmem⟩
    have hpos := length_pos_iff.mpr hrest
    have hlen : (rest.take n).length = n := length_take_of_le (by omega)
    refine ⟨rest.take n, cs, rfl, ⟨f, Grown.refl hon.chain hhint, hwrote, hmem⟩, ?_, ?_, ?_, ?_⟩
    · exact hwrote.onChain hv (hon.seek _ fnp.dirSize)
    · intro hnil
      rw [hnil, length_nil] at hlen
      omega
    · rw [hlen]
    · rw [hlen]

omit hv in
/-- The open files learn of a change; the disk stays as it is. -/
theorem merged {Q : Unit → Flat Mem → Prop}
    (h : ∀ sfts, Q () ⟨f.disk, { f.mem with sfthead := sfts }⟩) :
    (mergeWritten true fnp).Meets (flat Mem v.area) f Q :=
  ⟨_, _, rfl, h _⟩

omit hv in
theorem Grown.told (h : Grown v f f' cs cs')
    (sfts : List (List Sft)) : Grown v f ⟨f'.disk, { f'.mem with sfthead := sfts }⟩ cs cs' :=
  ⟨h.more, h.chain, h.plain, h.free, h.hint⟩

omit hv in
theorem OnChain.head {new : List Nat} (h : OnChain v disk fnp cs)
    (hne : cs ≠ []) : (cs ++ new).head? = some fnp.dirStart := by
  rw [head?_append_of_ne_nil cs hne, h.start hne]

theorem rwLoop_stores {dmDircluster p : Nat} {disk0 : Nat → Sector} (hp : p < 0x100000000) :
    ∀ {n : Nat} {fnp : Fnode} {f : Flat Mem} {cs : List Nat} {done rest : List UInt8},
      OnChain v f.disk fnp cs → (f.mem.hint v = UNKNCLUSTER ∨ v.InRange (f.mem.hint v)) →
      FileStored v disk0 f.disk cs p done → fnp.fOffset = wrap (p + done.length) →
      done.length + rest.length < 0x10000 → rest.length ≤ n →
      Room v f.disk cs fnp.fOffset rest.length →
      (rwLoop v dmDircluster true n fnp done rest).Meets (flat Mem v.area) f fun r f' =>
        r.1 = ((done ++ rest).length : Nat) ∧ ∃ cs',
          (∃ new, cs' = cs ++ new) ∧ OnChain v f'.disk r.2.1 cs' ∧
          FileStored v disk0 f'.disk cs' p (done ++ rest) ∧
          ∀ m f1, rest ≠ [] →
            (mapCluster v dmDircluster fnp true).exec (flat Mem v.area) f = some (m, f1) →
              cs'.head? = some m.2.dirStart := by
  intro n
  induction n with
  | zero =>
    intro fnp f cs done rest hon _ hstored _ _ hn _
    obtain rfl := eq_nil_of_length_eq_zero (Nat.le_zero.mp hn)
    rw [append_nil]
    exact ⟨_, _, rfl, rfl, cs, ⟨[], (append_nil cs).symm⟩, hon, hstored,
      fun _ _ h => absurd rfl h⟩
  | succ n ih =>
    intro fnp f cs done rest hon hhint hstored hoffset hmax hn hroom
    unfold rwLoop
    by_cases hrest : rest = []
    · subst hrest
      rw [if_pos (.inl rfl), append_nil]
      exact ⟨_, _, rfl, rfl, cs, ⟨[], (append_nil cs).symm⟩, hon, hstored,
        fun _ _ h => absurd rfl h⟩
    · have hlen := length_pos_iff.mpr hrest
      have hlt : fnp.fOffset < 0x100000000 := by
        rw [hoffset]
        exact mod_lt _ (by decide)
      have hhere := hroom 0 hlen
      rw [add_zero, wrap, mod_eq_of_lt hlt] at hhere
      rw [if_neg (by simp [hrest])]
      obtain ⟨m, f1, hexec, hok, cs1, hmapped⟩ := mapCluster_grows hv.wf hon hhint hhere
      refine Prog.Meets.bind ⟨m, f1, hexec, ?_⟩
      dsimp only
      rw [if_neg (not_not.mpr hok)]
      refine Prog.Meets.bind (merged fun sfts => ?_)
      have hgrown1 := hmapped.grown.told sfts
      -- the round itself
      refine Prog.Meets.bind ((@transfer_round v hv dmDircluster m.2
        ⟨f1.disk, { f1.mem with sfthead := sfts }⟩ cs1 rest hmapped.on hmapped.grown.hint
        (hmapped.offset ▸ hmapped.here) (hmapped.offset ▸ hlt) hrest (by omega)
        (hmapped.offset ▸ hroom.grown hgrown1)).mono ?_)
      rintro ⟨fnp2, got⟩ f3 ⟨data, cs2, rfl, hround⟩
      obtain ⟨f2, hgrown, hwrote, hmem⟩ := hround.stored
      refine Prog.Meets.bind (merged fun sfts' => ?_)
      have hcs1 : cs1 ≠ [] := by
        rintro rfl
        cases hmapped.here
      have hfront := hround.front
      have hle : data.length ≤ rest.length := by
        rw [hfront, length_take]
        exact min_le_right _ _
      have hpos := length_pos_iff.mpr hround.some
      have hsplit : data ++ rest.drop data.length = rest :=
        (congrArg (· ++ rest.drop data.length) hround.front).trans (take_append_drop ..)
      have hrestlen : (rest.drop data.length).length = rest.length - data.length :=
        length_drop
      have hwrote' : Wrote v f2.disk f3.disk cs2 (wrap (p + done.length)) data := by
        rw [← hoffset, ← hmapped.offset]
        exact hwrote
      have hstored' := ((hstored.grown hv hgrown1).grown hv hgrown).wrote hp
        (by omega) hwrote'
      have hroom' : Room v f3.disk cs2 fnp2.fOffset (rest.drop data.length).length := by
        rw [hround.offset, hmapped.offset, hrestlen]
        exact (((hroom.grown hgrown1).grown hgrown).wrote hv hwrote).drop hle
      have hoffset' : fnp2.fOffset = wrap (p + (done ++ data).length) := by
        rw [hround.offset, hmapped.offset, hoffset, length_append]
        unfold wrap
        omega
      have hon' : OnChain v f3.disk (grownTo true fnp2) cs2 := by
        unfold grownTo
        split
        · exact hround.on.seek fnp2.fOffset _
        · exact hround.on
      have hseek : (grownTo true fnp2).fOffset = fnp2.fOffset := by
        unfold grownTo
        split <;> rfl
      refine (@ih (grownTo true fnp2) ⟨f3.disk, { f3.mem with sfthead := sfts' }⟩ cs2
        (done ++ data) (rest.drop data.length) hon' ?_ hstored' (hseek.trans hoffset') ?_ ?_
        (hseek ▸ hroom')).mono ?_
      · rw [hmem]
        exact hgrown.hint
      · rw [hrestlen, length_append]
        omega
      · omega
      · rintro r f' ⟨hret, cs', ⟨new, rfl⟩, hon, hfinal, -⟩
        rw [append_assoc, hsplit] at hret hfinal
        obtain ⟨new1, rfl⟩ := hmapped.grown.more
        obtain ⟨new2, rfl⟩ := hgrown.more
        refine ⟨hret, _, ⟨new1 ++ (new2 ++ new), by simp⟩, hon, hfinal, fun m' f1' _ hexec' => ?_⟩
        obtain ⟨rfl, -⟩ := Prog.exec_unique hexec hexec'
        rw [append_assoc, hmapped.on.head hcs1]

theorem dosExtend_grows {dmDircluster : Nat} (hon : OnChain v f.disk fnp cs)
    (hhint : f.mem.hint v = UNKNCLUSTER ∨ v.InRange (f.mem.hint v))
    (hhere : relcluster v fnp.fOffset < cs.length + (freeClusters v f.disk).card) :
    (dosExtend v dmDircluster fnp).Meets (flat Mem v.area) f fun r f' =>
      r.1 = SUCCESS ∧ ∃ cs', Grown v f f' cs cs' ∧ OnChain v f'.disk r.2 cs' ∧
        r.2.fOffset = fnp.fOffset ∧
        ((r.2 = fnp ∧ f' = f) ∨ ∀ m f1,
          (mapCluster v dmDircluster fnp true).exec (flat Mem v.area) f = some (m, f1) →
            cs'.head? = some m.2.dirStart) := by
  unfold dosExtend
  split
  · exact Prog.Meets.pure ⟨rfl, cs, Grown.refl hon.chain hhint, hon, rfl, .inl ⟨rfl, rfl⟩⟩
  · obtain ⟨m, f1, hexec, hok, cs1, hmapped⟩ := mapCluster_grows hv.wf hon hhint hhere
    refine Prog.Meets.bind ⟨m, f1, hexec, ?_⟩
    dsimp only
    rw [if_neg (not_not.mpr hok)]
    refine Prog.Meets.bind ⟨_, _, rfl, ?_⟩
    refine Prog.Meets.pure ⟨rfl, cs1, hmapped.grown.told _, hmapped.on.seek m.2.fOffset m.2.fOffset,
      hmapped.offset, .inr fun m' f1' hexec' => ?_⟩
    obtain ⟨rfl, -⟩ := Prog.exec_unique hexec hexec'
    refine hmapped.on.start ?_
    rintro rfl
    cases hmapped.here

/-- **What a write stores**, and where the file starts then, whatever the bytes are. -/
theorem rwblock_stores {dmDircluster n : Nat} {fnp : Fnode} {f : Flat Mem} {cs : List Nat}
    (hon : OnChain v f.disk fnp cs) (hhint : f.mem.hint v = UNKNCLUSTER ∨ v.InRange (f.mem.hint v))
    (hlt : fnp.fOffset < 0x100000000) (hn : n ≠ 0) (hmax : n < 0x10000)
    (hroom : Room v f.disk cs fnp.fOffset n) :
    ∃ start, ∀ buffer : List UInt8, buffer.length = n →
      (rwblock v dmDircluster fnp buffer true).Meets (flat Mem v.area) f fun r f' =>
        r.1 = (n : Nat) ∧ ∃ cs', (∃ new, cs' = cs ++ new) ∧ cs'.head? = some start ∧
          OnChain v f'.disk r.2.1 cs' ∧ FileStored v f.disk f'.disk cs' fnp.fOffset buffer := by
  have hhere := hroom 0 (pos_of_ne_zero hn)
  rw [add_zero, wrap, mod_eq_of_lt hlt] at hhere
  set fnp0 : Fnode := { fnp with
    dirAttrib := fnp.dirAttrib ||| D_ARCHIVE
    fFlags := fnp.fFlags &&& (0xffff - (SFT_FCLEAN ||| SFT_FDATE)) } with hfnp0
  have hon0 : OnChain v f.disk fnp0 cs := ⟨hon.chain, hon.file, hon.start, hon.cursor, hon.empty⟩
  obtain ⟨m, f1, hexec, -⟩ := @mapCluster_grows v hv.wf dmDircluster fnp0 f cs hon0 hhint hhere
  refine ⟨m.2.dirStart, fun buffer hlen => ?_⟩
  have hne : buffer ≠ [] := length_pos_iff.mp (by omega)
  refine Prog.Meets.bind ((dosExtend_grows hv hon0 hhint hhere).mono ?_)
  rintro ⟨rc, fnp1⟩ f2 ⟨rfl, cs1, hgrown, hon1, hoffset, hstart⟩
  dsimp only at hon1 hoffset hstart ⊢
  rw [if_neg (not_not.mpr rfl), if_neg hne]
  refine (rwLoop_stores hv hlt hon1 hgrown.hint ((FileStored.refl _ cs _).grown hv hgrown)
    (?_ : fnp1.fOffset = _) ?_ le_rfl ?_).mono ?_
  · rw [hoffset, length_nil, add_zero, wrap, mod_eq_of_lt hlt]
  · rw [length_nil]
    omega
  · rw [hoffset, hlen]
    exact hroom.grown hgrown
  · rintro r f' ⟨hret, cs', ⟨new, rfl⟩, hon', hstored, hhead⟩
    obtain ⟨new1, rfl⟩ := hgrown.more
    refine ⟨hret.trans (by rw [nil_append, hlen]), _, ⟨new1 ++ new, append_assoc ..⟩, ?_,
      hon', hstored⟩
    rcases hstart with ⟨rfl, rfl⟩ | hstart
    · exact hhead m f1 hne hexec
    · have hcs := hstart m f1 hexec
      rw [head?_append_of_ne_nil _ (by rintro h; rw [h] at hcs; cases hcs), hcs]

end

end SdcBoot.Fat
