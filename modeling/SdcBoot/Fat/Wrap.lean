/-
# Writes near 4 GiB

The offset of a file is a 32-bit number, and `rwblock` adds to it without a look at the carry.  So
the bytes of a write lie at the offsets from its start on, around at 2^32 (`rwblock_bytes`).  Below
the start nothing changes as long as the write ends by 2^32; one that goes beyond runs into the
start of the file (`rwblock_untouched_iff`).  A FAT32 volume with clusters of 64 KiB has room for
such a file (`bigVolume`).
-/
import SdcBoot.Fat.Stored

namespace SdcBoot.Fat

open Lib Block Kernel List Option

/-! ## 1. The bytes of a file -/

/-- The byte at an offset that lies in cluster `c`. -/
def byteAt (v : Dpb) (disk : Nat → Sector) (c offset : Nat) : UInt8 :=
  disk (clus2phys v c + sectorIn v offset) (offset % v.dpbSecsize)

/-- No byte of the file that starts at `start`, below the offset `p`, is other than it was. -/
def Untouched (v : Dpb) (disk disk' : Nat → Sector) (start p : Nat) : Prop :=
  ∀ o < p, ∀ c, v.InRange c → hops (onward v disk') start (relcluster v o) = some c →
    byteAt v disk' c o = byteAt v disk c o

section

variable {v : Dpb} (hv : v.Buffered)
include hv

theorem byteAt_agree {s : Machine Mem} {f : Flat Mem} (h : Agree Mem v.area s f) (c o : Nat) :
    byteAt v (s.cache.view v.dpbUnit) c o = byteAt v f.disk c o := by
  have hdata : v.dataStart ≤ clus2phys v c + sectorIn v o := by
    unfold clus2phys
    omega
  unfold byteAt
  rw [h.disk _ (data_plain hv hdata).2]
  rfl

/-- The cluster an offset lies in is in the chain. -/
theorem OnChain.reached {disk : Nat → Sector} {fnp : Fnode} {cs : List Nat}
    (hon : OnChain v disk fnp cs) (hne : cs ≠ []) {k c : Nat} (hc : v.InRange c)
    (h : hops (onward v disk) fnp.dirStart k = some c) : cs[k]? = some c := by
  have hpath := hon.chain
  unfold Chained at hpath
  rw [headD_eq_head?_getD, hon.start hne, getD_some] at hpath
  by_cases hk : k < cs.length
  · rw [hpath.hops (le_of_lt hk), getElem?_append_left hk] at h
    exact h
  · have hlast : hops (onward v disk) fnp.dirStart cs.length = some LONG_LAST_CLUSTER := by
      rw [hpath.hops le_rfl, getElem?_append_right le_rfl, Nat.sub_self]
      rfl
    rcases Nat.eq_or_lt_of_le (Nat.le_of_not_lt hk) with heq | hlt
    · rw [← heq, hlast] at h
      exact absurd rfl (some.inj h ▸ hv.wf.range_ne_last hc)
    · obtain ⟨d, hd⟩ := hops_le (Nat.succ_le_of_lt hlt) h
      rw [hops_succ, hlast, bind_some, onward_last hv.wf] at hd
      cases hd

/-- What is stored, byte by byte. -/
theorem FileStored.byteAt {disk0 disk : Nat → Sector} {cs : List Nat} {p o c : Nat}
    {data : List UInt8} (h : FileStored v disk0 disk cs p data) (ho : o < 0x100000000)
    (hc : cs[relcluster v o]? = some c) :
    SdcBoot.Fat.byteAt v disk c o =
      (data[behind p o]?).getD (SdcBoot.Fat.byteAt v disk0 c o) := by
  rw [relcluster_eq hv] at hc
  obtain ⟨hlen, -⟩ := List.getElem?_eq_some_iff.mp hc
  have hin : InFile v cs (o / 512) := by
    refine ⟨?_, hlen⟩
    simp only [SECTORS]
    omega
  have hplace : clus2phys v c + sectorIn v o = fileSector v cs (o / 512) := by
    rw [sectorIn_eq hv, fileSector, getD_eq_getElem?_getD, hc, getD_some]
  have hbyte := h.bytes (o / 512) hin (o % 512) (Nat.mod_lt _ (by decide))
  rw [Nat.div_add_mod'] at hbyte
  unfold SdcBoot.Fat.byteAt
  rw [hplace, hv.secsize]
  exact hbyte

/-! ## 2. The bytes that a write changes -/

/-- The first `n` bytes from the offset `p` on, around at 2^32, are those of the buffer, and every
other byte of the file is as before. -/
theorem rwblock_bytes {s : Machine Mem} (hquiet : Quiet v.area s.cache) {dmDircluster n : Nat}
    {fnp : Fnode} {cs : List Nat} (hon : OnChain v (s.cache.view v.dpbUnit) fnp cs)
    (hhint : s.mem.hint v = UNKNCLUSTER ∨ v.InRange (s.mem.hint v))
    (hlt : fnp.fOffset < 0x100000000) (hn : 1 ≤ n) (hmax : n ≤ 0xffff)
    (hroom : Room v (s.cache.view v.dpbUnit) cs fnp.fOffset n) :
    ∃ start, v.InRange start ∧ ∀ buffer : List UInt8, buffer.length = n →
      (rwblock v dmDircluster fnp buffer true).Meets (cached Mem v.area) s fun r s' =>
        r.2.1.dirStart = start ∧ ∀ o < 0x100000000, ∀ c, v.InRange c →
          hops (onward v (s'.cache.view v.dpbUnit)) start (relcluster v o) = some c →
            byteAt v (s'.cache.view v.dpbUnit) c o =
              (buffer[behind fnp.fOffset o]?).getD (byteAt v (s.cache.view v.dpbUnit) c o) := by
  have hagree := agree_view hv.wf hquiet
  obtain ⟨start, hstores⟩ := @rwblock_stores v hv dmDircluster n fnp
    ⟨s.cache.view v.dpbUnit, s.mem⟩ cs hon hhint hlt (by omega) (by omega) hroom
  refine ⟨start, ?_, fun buffer hlen => ?_⟩
  · obtain ⟨r, f', -, -, cs', -, hhead, hon', -⟩ :=
      hstores (List.replicate n 0) (length_replicate ..)
    exact hon'.chain.range start (mem_of_head? hhead)
  · refine (cached_sim hagree (hstores buffer hlen)).mono ?_
    rintro r s' ⟨f', hagree', -, cs', -, hhead, hon', hstored⟩
    have hne : cs' ≠ [] := by
      rintro rfl
      cases hhead
    have hstart : r.2.1.dirStart = start := some.inj ((hon'.start hne).symm.trans hhead)
    refine ⟨hstart, fun o ho c hc hat => ?_⟩
    rw [onward_congr fun d hd => Agree.links hv.wf hagree' hd, ← hstart] at hat
    rw [byteAt_agree hv hagree']
    exact hstored.byteAt hv ho (hon'.reached hv hne hc hat)

/-- **A write touches no byte below its start position exactly where it does not go around.**  From
every offset and for every count, on a file whose chain and the free clusters together are enough:
no write of `n` bytes changes a byte of the file below the offset it started at, if and only if the
offset and the count are together at most 2^32. -/
theorem rwblock_untouched_iff {s : Machine Mem} (hquiet : Quiet v.area s.cache)
    {dmDircluster n : Nat} {fnp : Fnode} {cs : List Nat}
    (hon : OnChain v (s.cache.view v.dpbUnit) fnp cs)
    (hhint : s.mem.hint v = UNKNCLUSTER ∨ v.InRange (s.mem.hint v))
    (hlt : fnp.fOffset < 0x100000000) (hn : 1 ≤ n) (hmax : n ≤ 0xffff)
    (hroom : Room v (s.cache.view v.dpbUnit) cs fnp.fOffset n) :
    (∀ buffer : List UInt8, buffer.length = n →
      (rwblock v dmDircluster fnp buffer true).Meets (cached Mem v.area) s fun r s' =>
        Untouched v (s.cache.view v.dpbUnit) (s'.cache.view v.dpbUnit) r.2.1.dirStart
          fnp.fOffset) ↔
      fnp.fOffset + n ≤ 0x100000000 := by
  obtain ⟨start, hin, hbytes⟩ :=
    @rwblock_bytes v hv s hquiet dmDircluster n fnp cs hon hhint hlt hn hmax hroom
  constructor
  · intro hall
    by_contra hover
    -- the byte at the start of the file is both of two bytes
    have hfirst : ∀ x : UInt8, byteAt v (s.cache.view v.dpbUnit) start 0 = x := by
      intro x
      have hlen : (List.replicate n x).length = n := List.length_replicate ..
      obtain ⟨r, s', -, ⟨hstart, hnew⟩, hold⟩ := (hbytes _ hlen).and (hall _ hlen)
      have hrel : relcluster v 0 = 0 := by
        rw [relcluster_eq hv, Nat.zero_div]
      have hat : hops (onward v (s'.cache.view v.dpbUnit)) start (relcluster v 0) = some start := by
        rw [hrel, hops_zero]
      have hbehind : behind fnp.fOffset 0 < n := by
        unfold behind
        omega
      have hsame := hold 0 (by omega) start hin (hstart ▸ hat)
      have hx := hnew 0 (by decide) start hin hat
      rw [List.getElem?_replicate_of_lt hbehind, Option.getD_some] at hx
      exact hsame.symm.trans hx
    exact nomatch (hfirst 0).symm.trans (hfirst 1)
  · intro hle buffer hlen
    refine (hbytes buffer hlen).mono ?_
    rintro r s' ⟨hstart, hnew⟩ o ho c hc hat
    rw [hstart] at hat
    have hfar : n ≤ behind fnp.fOffset o := by
      unfold behind
      omega
    rw [hnew o (by omega) c hc hat, List.getElem?_eq_none_iff.mpr (by omega), Option.getD_none]

end

theorem room_of_chain {v : Dpb} {disk : Nat → Sector} {cs : List Nat} {p n : Nat}
    (h : ∀ i < n, relcluster v (wrap (p + i)) < cs.length) : Room v disk cs p n :=
  fun i hi => lt_of_lt_of_le (h i hi) (Nat.le_add_right _ _)

theorem diskette_buffered : diskette.Buffered := ⟨diskette_wf, rfl, by decide⟩

theorem secondSector_onChain :
    OnChain diskette ((machineWith soundFat).cache.view diskette.dpbUnit) secondSector [2, 3] where
  chain := ⟨rfl, 3, by decide +kernel, rfl, LONG_LAST_CLUSTER, by decide +kernel, rfl⟩
  file := by decide
  start := fun _ => rfl
  cursor := fun _ => rfl
  empty := nofun

/-- 300 bytes into the second sector of a file. -/
theorem diskette_untouched :
    (∀ buffer : List UInt8, buffer.length = 300 →
      (rwblock diskette 0 secondSector buffer true).Meets (cached Mem diskette.area)
        (machineWith soundFat) fun r s' =>
          Untouched diskette ((machineWith soundFat).cache.view diskette.dpbUnit)
            (s'.cache.view diskette.dpbUnit) r.2.1.dirStart secondSector.fOffset) ↔
      secondSector.fOffset + 300 ≤ 0x100000000 := by
  refine rwblock_untouched_iff diskette_buffered (machineWith_quiet soundFat) secondSector_onChain
    (Or.inl rfl) (by decide) (by decide) (by decide) (room_of_chain fun i hi => ?_)
  rw [relcluster_eq diskette_buffered]
  change (512 + i) % 0x100000000 / 512 / 1 < 2
  omega

/-! ## 3. A file of 4 GiB -/

/-- A FAT32 volume of 65536 clusters of 64 KiB. -/
def bigVolume : Dpb where
  dpbUnit := 0
  dpbSecsize := 512
  dpbClsmask := 127
  dpbShftcnt := 7
  dpbFatstrt := 32
  dpbFats := 1
  dpbData := 0
  dpbSize := 0
  dpbFatsize := 0
  dpbXflags := 0
  dpbXfsinfosec := 0xffff
  dpbXdata := 2048
  dpbXsize := 65537
  dpbXfatsize := 1024

theorem bigVolume_buffered : bigVolume.Buffered where
  wf :=
    { secsize := by decide
      secsizePos := by decide
      secsizeWord := by decide
      clsmask := by decide
      kind := by decide
      clusters := by decide
      copies := by decide
      room := by decide
      dataFar := by decide
      infoFar := by decide }
  secsize := rfl
  clsmask := by decide

/-- Every cluster leads to the one behind it, up to the last. -/
def bigEntry (c : Nat) : Nat := if c = 65537 then LONG_LAST_CLUSTER else c + 1

/-- The FAT, and nothing but zeros in the data area. -/
def bigDisk (b : Nat) : Sector := fun o =>
  if b < 2048 then
    byte (bigEntry (((b - 32) * 512 + o) / 4) / 256 ^ (((b - 32) * 512 + o) % 4))
  else 0

def bigMachine : Machine Mem :=
  { freshMachine with cache := { freshMachine.cache with dev := fun _ b => bigDisk b } }

theorem bigMachine_quiet : Quiet bigVolume.area bigMachine.cache where
  nodup := freshMachine_quiet.nodup
  two := freshMachine_quiet.two
  reads := rfl
  writes := rfl
  inv :=
    { coherent := fun _ _ _ h => absurd h (by simp [bigMachine, freshMachine, Buffer.holds])
      distinct := fun _ _ _ _ _ h => absurd h (by simp [bigMachine, freshMachine, Buffer.holds])
      copied := fun _ _ _ h => absurd h (by simp [bigMachine, freshMachine, Buffer.holds]) }
  seen := fun _ _ _ h => absurd h (by simp [bigMachine, freshMachine, Buffer.holds])
  fat := nofun

theorem bigMachine_view (b : Nat) : bigMachine.cache.view bigVolume.dpbUnit b = bigDisk b := by
  simp [Cache.view, bigMachine, freshMachine, Buffer.holds]

theorem bigDisk_fatByte {c j : Nat} (hj : j < 4) (hc : c ≤ 65537) :
    fatByte bigVolume (bigMachine.cache.view bigVolume.dpbUnit) (4 * c + j) =
      bigEntry c / 256 ^ j % 256 := by
  have hindex : (32 + (4 * c + j) / 512 - 32) * 512 + (4 * c + j) % 512 = 4 * c + j := by omega
  have hentry : (4 * c + j) / 4 = c := by omega
  have hplace : (4 * c + j) % 4 = j := by omega
  unfold fatByte
  rw [bigMachine_view]
  change (bigDisk (32 + (4 * c + j) / 512) ((4 * c + j) % 512)).toNat = _
  unfold bigDisk
  rw [if_pos (by omega), hindex, hentry, hplace, byte_toNat]

theorem bigMachine_link {c : Nat} (hc : c ≤ 65537) :
    link bigVolume (bigMachine.cache.view bigVolume.dpbUnit) c = bigEntry c := by
  have h0 := bigDisk_fatByte (j := 0) (by decide) hc
  have h1 := bigDisk_fatByte (j := 1) (by decide) hc
  have h2 := bigDisk_fatByte (j := 2) (by decide) hc
  have h3 := bigDisk_fatByte (j := 3) (by decide) hc
  have hlt : bigEntry c < 0x10000000 := by
    unfold bigEntry LONG_LAST_CLUSTER
    split <;> omega
  have h12 : bigVolume.isFat12 = false := rfl
  have h16 : bigVolume.isFat16 = false := rfl
  unfold link
  rw [h12, h16, if_neg Bool.false_ne_true, if_neg Bool.false_ne_true, h1, h2, h3]
  rw [add_zero] at h0
  rw [h0]
  have hsum : (bigEntry c / 256 ^ 0 % 256 + 256 * (bigEntry c / 256 ^ 1 % 256) +
      0x10000 * (bigEntry c / 256 ^ 2 % 256 + 256 * (bigEntry c / 256 ^ 3 % 256))) % 0x10000000 =
      bigEntry c := by
    omega
  rw [hsum]
  unfold decode32 bigEntry
  split
  · rfl
  · rw [if_neg]
    simp only [LONG_BAD]
    omega

/-- A file of all the clusters, near its end. -/
def nearEnd : Fnode where
  fSftIdx := 0
  fFlags := 0
  dirAttrib := 0
  dirTime := 0
  dirDate := 0
  dirSize := 0xffffffff
  dirStart := 2
  fDpb := 0
  fDiridx := 0
  fDirsector := 0
  fOffset := 0xffffff00
  fCluster := 2
  fClusterOffset := 0

theorem bigMachine_path (n : Nat) : ∀ a, 2 ≤ a → a + n = 65537 →
    Path (onward bigVolume (bigMachine.cache.view bigVolume.dpbUnit)) a (List.range' a (n + 1))
      LONG_LAST_CLUSTER := by
  induction n with
  | zero =>
    intro a ha hn
    obtain rfl : a = 65537 := hn
    refine ⟨rfl, _, onward_eq_some.mpr ⟨⟨by decide, by decide⟩, ?_⟩, rfl⟩
    exact (bigMachine_link le_rfl).trans (if_pos rfl)
  | succ n ih =>
    intro a ha hn
    rw [range'_succ]
    refine ⟨rfl, a + 1, onward_eq_some.mpr ⟨⟨ha, ?_⟩, ?_⟩, ih (a + 1) (by omega) (by omega)⟩
    · change a ≤ 65537
      omega
    · exact (bigMachine_link (by omega)).trans (if_neg (by omega))

theorem nearEnd_onChain :
    OnChain bigVolume (bigMachine.cache.view bigVolume.dpbUnit) nearEnd (List.range' 2 65536) := by
  have hcons : List.range' 2 65536 = 2 :: List.range' 3 65535 := range'_succ ..
  refine ⟨?_, by decide, fun _ => ?_, fun _ => ?_, fun h => ?_⟩
  · have hpath := bigMachine_path 65535 2 (by decide) (by decide)
    unfold Chained
    rw [hcons]
    rw [show (65535 + 1 : Nat) = 65536 from rfl, hcons] at hpath
    exact hpath
  · rw [hcons]
    rfl
  · rw [hcons]
    rfl
  · rw [hcons] at h
    cases h

theorem nearEnd_room (n : Nat) :
    Room bigVolume (bigMachine.cache.view bigVolume.dpbUnit) (List.range' 2 65536) nearEnd.fOffset
      n := by
  refine room_of_chain fun i _ => ?_
  have hlt : wrap (nearEnd.fOffset + i) < 0x100000000 := Nat.mod_lt _ (by decide)
  rw [relcluster_eq bigVolume_buffered, length_range']
  change _ / 512 / 128 < _
  omega

/-- **A write of 512 bytes, 256 bytes before 4 GiB**, changes the first byte of the file. -/
theorem rwblock_wraps :
    OnChain bigVolume (bigMachine.cache.view bigVolume.dpbUnit) nearEnd (List.range' 2 65536) ∧
    Room bigVolume (bigMachine.cache.view bigVolume.dpbUnit) (List.range' 2 65536) nearEnd.fOffset
      512 ∧
    ¬ (rwblock bigVolume 0 nearEnd (List.replicate 512 1) true).Meets (cached Mem bigVolume.area)
      bigMachine fun r s' =>
        Untouched bigVolume (bigMachine.cache.view bigVolume.dpbUnit)
          (s'.cache.view bigVolume.dpbUnit) r.2.1.dirStart nearEnd.fOffset := by
  refine ⟨nearEnd_onChain, nearEnd_room 512, fun hall => ?_⟩
  obtain ⟨start, hin, hbytes⟩ := @rwblock_bytes bigVolume bigVolume_buffered bigMachine
    bigMachine_quiet 0 512 nearEnd _ nearEnd_onChain (Or.inl rfl) (by decide) (by decide)
    (by decide) (nearEnd_room 512)
  obtain ⟨r, s', -, ⟨hstart, hnew⟩, hold⟩ :=
    (hbytes (List.replicate 512 1) List.length_replicate).and hall
  have hat : hops (onward bigVolume (s'.cache.view bigVolume.dpbUnit)) start
      (relcluster bigVolume 0) = some start := rfl
  have hsame := hold 0 (by decide) start hin (hstart ▸ hat)
  have hone := hnew 0 (by decide) start hin hat
  rw [List.getElem?_replicate_of_lt (by decide), Option.getD_some, hsame] at hone
  have hzero : byteAt bigVolume (bigMachine.cache.view bigVolume.dpbUnit) start 0 = 0 := by
    unfold byteAt
    rw [bigMachine_view]
    refine if_neg ?_
    change ¬ (start - 2) * 128 + 2048 + _ < 2048
    omega
  rw [hzero] at hone
  cases hone

end SdcBoot.Fat
