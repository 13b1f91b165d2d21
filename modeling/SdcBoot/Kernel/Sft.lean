/-
# The system file table and the fnode

An open file is one entry of the system file table (SFT), a linked list of blocks (`sfttbl`).  An
entry is named by its index through all of them, so the table is modelled as a list of lists and a
pointer to an entry as its index.  An entry is in use when `sft_count`, the number of references to
it, is not 0.

The file system works on an fnode, a copy of the entry with its directory fields (`sft_to_fnode`,
`fnode_to_sft`).  `merge_file_changes` keeps several entries for one file together: with SHARE
installed it copies start cluster, size, date and time from the fnode to every OTHER entry.

What later proofs use of a walk through the table is how the table reads after a store
(`nthSft_updSft`, `nthSft_mapSfts`) and which entry is free (`getFreeSft_spec`); of the file
system, that it never stores to the fields that say who refers to an entry (`SameRefs`).
-/
import SdcBoot.Lib.Run

namespace SdcBoot.Kernel

open List

/-! ## 1. Entries and fnodes -/

/-- `sft`.  The device and the DPB pointer are a union; so they are here.  `sft_name` is only
carried from and to the fnode and is left out. -/
structure Sft where
  sftCount : Nat
  sftMode : Nat
  sftAttrib : Nat
  sftFlags : Nat
  sftDcb : Nat
  sftStclust : Nat
  sftTime : Nat
  sftDate : Nat
  sftSize : Nat
  sftPosit : Nat
  sftRelclust : Nat
  sftDirsector : Nat
  sftDiridx : Nat
  sftPsp : Nat
  sftShroff : Int
  sftCuclust : Nat
  deriving DecidableEq

/-- What `fmemset(sftp, 0, sizeof(sft))` leaves. -/
def Sft.zero : Sft := ⟨0, 0, 0, 0, 0, 0, 0, 0, 0, 0, 0, 0, 0, 0, 0, 0⟩

/-- `f_node`, with the fields of its `dirent`. -/
structure Fnode where
  fSftIdx : Nat
  fFlags : Nat
  dirAttrib : Nat
  dirTime : Nat
  dirDate : Nat
  dirSize : Nat
  dirStart : Nat
  fDpb : Nat
  fDiridx : Nat
  fDirsector : Nat
  fOffset : Nat
  fCluster : Nat
  fClusterOffset : Nat
  deriving DecidableEq

def SFT_FSHARED : Nat := 0x8000
def SFT_FDATE : Nat := 0x4000
def SFT_FOCRM : Nat := 0x0800
def SFT_FDEVICE : Nat := 0x0080
def SFT_MASK : Nat := 0x0060
def SFT_FCLEAN : Nat := 0x0040
def SFT_FEOF : Nat := 0x0040
def SFT_FBINARY : Nat := 0x0020
def SFT_FNUL : Nat := 0x0004

def O_WRONLY : Nat := 0x0001
def O_ACCMODE : Nat := 0x0003
def O_NOINHERIT : Nat := 0x0080
def O_VALIDMASK : Nat := 0xfff3
def O_FCB : Nat := 0x8000

def D_RDONLY : Nat := 0x01
def D_HIDDEN : Nat := 0x02
def D_SYSTEM : Nat := 0x04
def D_VOLID : Nat := 0x08
def D_DIR : Nat := 0x10
def D_ARCHIVE : Nat := 0x20
def D_DEVICE : Nat := 0x40

def SUCCESS : Int := 0
def DE_INVLDFUNC : Int := -1
def DE_TOOMANY : Int := -4
def DE_ACCESS : Int := -5
def DE_INVLDHNDL : Int := -6
def DE_NOMEM : Int := -8
def DE_INVLDACC : Int := -12
def DE_LOCK : Int := -39

/-- One of the bits `mask` is set in `w`. -/
def hasBits (w mask : Nat) : Bool := w &&& mask != 0

/-- `setdstart` followed by `getdstart`: only FAT32 keeps the high word. -/
def dstart (fat32 : Bool) (cluster : Nat) : Nat := if fat32 then cluster else cluster % 0x10000

/-! ## 2. The table -/

/-- `idx_to_sft_` from index 0 on: go through the blocks until the index falls into one. -/
def nthSft : List (List Sft) → Nat → Option Sft
  | [], _ => none
  | block :: sp, i => if i < block.length then block[i]? else nthSft sp (i - block.length)

/-- A store through the pointer to entry `i`. -/
def updSft : List (List Sft) → Nat → (Sft → Sft) → List (List Sft)
  | [], _, _ => []
  | block :: sp, i, f =>
    if i < block.length then block.modify i f :: sp else block :: updSft sp (i - block.length) f

/-- A loop over the whole table, with the running index `n`, that stores to each entry. -/
def mapSfts (g : Nat → Sft → Sft) : Nat → List (List Sft) → List (List Sft)
  | _, [] => []
  | n, block :: sp =>
    block.mapIdx (fun j s => g (n + j) s) :: mapSfts g (n + block.length) sp

/-- `get_free_sft`: the first entry that is not in use. -/
def getFreeSft : List (List Sft) → Option Nat
  | [] => none
  | block :: sp =>
    match block.findIdx? fun s => s.sftCount == 0 with
    | some i => some i
    | none => (getFreeSft sp).map (· + block.length)

/-- The first entry with a property, with its index. -/
def findSft (p : Nat → Sft → Bool) : Nat → List (List Sft) → Option Sft
  | _, [] => none
  | n, block :: sp =>
    match (block.zipIdx n).find? fun (s, i) => p i s with
    | some (s, _) => some s
    | none => findSft p (n + block.length) sp

/-- How many entries there are. -/
def sftTotal (sp : List (List Sft)) : Nat := (sp.map List.length).sum

theorem nthSft_updSft (f : Sft → Sft) : ∀ (sp : List (List Sft)) (i j : Nat),
    nthSft (updSft sp i f) j = if i = j then (nthSft sp j).map f else nthSft sp j
  | [], i, j => by simp [updSft, nthSft]
  | block :: sp, i, j => by
    by_cases hi : i < block.length
    · simp only [updSft, if_pos hi, nthSft, length_modify]
      by_cases hj : j < block.length
      · simp only [if_pos hj, getElem?_modify]
        split <;> simp
      · have hne : i ≠ j := by omega
        simp [hne]
    · simp only [updSft, if_neg hi, nthSft]
      by_cases hj : j < block.length
      · have hne : i ≠ j := by omega
        simp [hj, hne]
      · rw [if_neg hj, if_neg hj, nthSft_updSft f sp]
        have hiff : i - block.length = j - block.length ↔ i = j := by omega
        simp only [hiff]

theorem nthSft_mapSfts (g : Nat → Sft → Sft) : ∀ (sp : List (List Sft)) (n i : Nat),
    nthSft (mapSfts g n sp) i = (nthSft sp i).map (g (n + i))
  | [], n, i => by simp [mapSfts, nthSft]
  | block :: sp, n, i => by
    simp only [mapSfts, nthSft, length_mapIdx]
    by_cases hi : i < block.length
    · simp [hi]
    · rw [if_neg hi, if_neg hi, nthSft_mapSfts g sp]
      have hsum : n + block.length + (i - block.length) = n + i := by omega
      rw [hsum]

/-- The free entry is an entry, and it is free. -/
theorem getFreeSft_spec : ∀ {sp : List (List Sft)} {i : Nat}, getFreeSft sp = some i →
    ∃ s, nthSft sp i = some s ∧ s.sftCount = 0
  | block :: sp, i, h => by
    unfold getFreeSft at h
    split at h
    · rename_i j hj
      obtain ⟨hlt, hzero, -⟩ := findIdx?_eq_some_iff_getElem.mp hj
      cases h
      exact ⟨block[i], by simp [nthSft, hlt], by simpa using hzero⟩
    · obtain ⟨j, hj, rfl⟩ := Option.map_eq_some_iff.mp h
      obtain ⟨s, hs, hzero⟩ := getFreeSft_spec hj
      exact ⟨s, by simpa [nthSft] using hs, hzero⟩

theorem nthSft_lt_total : ∀ {sp : List (List Sft)} {i : Nat} {s : Sft}, nthSft sp i = some s →
    i < sftTotal sp
  | block :: sp, i, s, h => by
    simp only [nthSft] at h
    simp only [sftTotal, map_cons, sum_cons]
    split at h
    · omega
    · have := nthSft_lt_total h
      unfold sftTotal at this
      omega

theorem nthSft_of_lt : ∀ {sp : List (List Sft)} {i : Nat}, i < sftTotal sp →
    ∃ s, nthSft sp i = some s
  | [], i, h => absurd h (by simp [sftTotal])
  | block :: sp, i, h => by
    by_cases hi : i < block.length
    · exact ⟨block[i], by simp [nthSft, hi]⟩
    · simp only [sftTotal, map_cons, sum_cons] at h
      have hrest : i - block.length < sftTotal sp := by
        unfold sftTotal
        omega
      obtain ⟨s, hs⟩ := nthSft_of_lt hrest
      exact ⟨s, by simpa [nthSft, hi] using hs⟩

/-! ## 3. Between the table and the fnode -/

/-- `sft_to_fnode`. -/
def sftToFnode (fat32 : Nat → Bool) (fd : Nat) (s : Sft) : Fnode where
  fSftIdx := fd
  fFlags := s.sftFlags
  dirAttrib := s.sftAttrib
  dirTime := s.sftTime
  dirDate := s.sftDate
  dirSize := s.sftSize
  dirStart := dstart (fat32 s.sftDcb) s.sftStclust
  fDpb := s.sftDcb
  fDiridx := s.sftDiridx
  fDirsector := s.sftDirsector
  fOffset := s.sftPosit
  fCluster := s.sftCuclust
  fClusterOffset := s.sftRelclust

/-- `fnode_to_sft`, on the entry it stores to. -/
def fnodeToSft (f : Fnode) (s : Sft) : Sft :=
  { s with
    sftFlags := f.fFlags, sftAttrib := f.dirAttrib, sftTime := f.dirTime, sftDate := f.dirDate,
    sftSize := f.dirSize, sftStclust := f.dirStart, sftDiridx := f.fDiridx,
    sftDirsector := f.fDirsector, sftDcb := f.fDpb, sftPosit := f.fOffset,
    sftCuclust := f.fCluster, sftRelclust := f.fClusterOffset }

/-- The test of `merge_file_changes`: same file, but different FD. -/
def sameFile (f : Fnode) (i : Nat) (s : Sft) : Bool :=
  i != f.fSftIdx && s.sftCount != 0 && f.fDpb == s.sftDcb && !hasBits f.dirAttrib D_VOLID &&
    !hasBits s.sftAttrib D_VOLID && f.fDiridx == s.sftDiridx && f.fDirsector == s.sftDirsector

/-- What `merge_file_changes` stores in another entry of the file. -/
def Sft.merged (f : Fnode) (s : Sft) : Sft :=
  { s with
    sftStclust := f.dirStart, sftSize := f.dirSize, sftDate := f.dirDate, sftTime := f.dirTime }

/-- `merge_file_changes(fnp, FALSE)`: distribute the changes to the other entries. -/
def distribute (shareInstalled : Bool) (f : Fnode) (sp : List (List Sft)) : List (List Sft) :=
  if shareInstalled then mapSfts (fun i s => if sameFile f i s then s.merged f else s) 0 sp
  else sp

/-- `merge_file_changes(fnp, TRUE)`: collect from the first other entry that may write. -/
def collect (shareInstalled : Bool) (fat32 : Nat → Bool) (f : Fnode) (sp : List (List Sft)) :
    Fnode :=
  if shareInstalled then
    match findSft (fun i s => sameFile f i s && hasBits s.sftMode O_ACCMODE) 0 sp with
    | some s =>
      { f with
        dirStart := dstart (fat32 f.fDpb) s.sftStclust, dirSize := s.sftSize,
        dirDate := s.sftDate, dirTime := s.sftTime }
    | none => f
  else f

/-! ## 4. What the file system leaves alone -/

/-- An entry without the four fields that `merge_file_changes` copies. -/
def Sft.core (s : Sft) : Sft :=
  { s with sftStclust := 0, sftSize := 0, sftDate := 0, sftTime := 0 }

/-- The fields of an entry that say who refers to it: no file system routine stores to them. -/
structure Refs where
  count : Nat
  mode : Nat
  psp : Nat
  shroff : Int
  deriving DecidableEq

def Sft.refs (s : Sft) : Refs := ⟨s.sftCount, s.sftMode, s.sftPsp, s.sftShroff⟩

@[simp] theorem refs_core (s : Sft) : s.core.refs = s.refs := rfl

@[simp] theorem core_merged (f : Fnode) (s : Sft) : (s.merged f).core = s.core := rfl

@[simp] theorem refs_fnodeToSft (f : Fnode) (s : Sft) : (fnodeToSft f s).refs = s.refs := rfl

/-- The tables agree on every entry up to the merged fields. -/
def SameCore (sp sp' : List (List Sft)) : Prop :=
  ∀ i, (nthSft sp' i).map Sft.core = (nthSft sp i).map Sft.core

/-- The tables agree on who refers to each entry. -/
def SameRefs (sp sp' : List (List Sft)) : Prop :=
  ∀ i, (nthSft sp' i).map Sft.refs = (nthSft sp i).map Sft.refs

theorem SameRefs.refl (sp : List (List Sft)) : SameRefs sp sp := fun _ => rfl

theorem SameRefs.trans {sp1 sp2 sp3 : List (List Sft)} (h : SameRefs sp1 sp2)
    (h' : SameRefs sp2 sp3) : SameRefs sp1 sp3 := fun i => (h' i).trans (h i)

theorem map_refs_of_core {a b : Option Sft} (h : a.map Sft.core = b.map Sft.core) :
    a.map Sft.refs = b.map Sft.refs := by
  have := congrArg (Option.map Sft.refs) h
  simpa [Function.comp_def] using this

theorem SameCore.refs {sp sp' : List (List Sft)} (h : SameCore sp sp') : SameRefs sp sp' :=
  fun i => map_refs_of_core (h i)

/-- **Distribution** touches only the four merged fields, and only of other entries. -/
theorem nthSft_distribute (shareInstalled : Bool) (f : Fnode) (sp : List (List Sft)) (i : Nat) :
    nthSft (distribute shareInstalled f sp) i =
      (nthSft sp i).map fun s => if shareInstalled && sameFile f i s then s.merged f else s := by
  cases shareInstalled with
  | false => simp [distribute]
  | true => simp [distribute, nthSft_mapSfts]

theorem sameCore_distribute (shareInstalled : Bool) (f : Fnode) (sp : List (List Sft)) :
    SameCore sp (distribute shareInstalled f sp) := by
  intro i
  rw [nthSft_distribute, Option.map_map]
  congr 1
  funext s
  simp only [Function.comp_apply]
  split <;> simp

/-- A store that keeps the references of the entry. -/
theorem sameRefs_updSft (sp : List (List Sft)) (i : Nat) {f : Sft → Sft}
    (hf : ∀ s, (f s).refs = s.refs) : SameRefs sp (updSft sp i f) := by
  intro j
  rw [nthSft_updSft]
  split
  · rw [Option.map_map]
    congr 1
    funext s
    exact hf s
  · rfl

end SdcBoot.Kernel
