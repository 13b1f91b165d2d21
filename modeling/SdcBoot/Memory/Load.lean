/-
# The environment and the image fit their blocks, and when they do not

Two questions about `kernel/task.c`, each decided by arithmetic on 16 bit words.

`ChildEnv` reserves 83 bytes behind the environment strings for the path of the program, but
`truename` allows `SFTMAX` characters.  The stores stay inside the block for just the paths that are
short enough (`childEnv_inside_iff`), and there are longer ones (`long_path_leaves_environment`).

`DosExeLoader` computes the size of the image in a word.  A program of more than 1 MB is clipped on
purpose (`clipped_image`); where the clipped size and the minimum together fit a word, the image
lies in the block that was allocated (`exe_image_inside`).
-/
import SdcBoot.Memory.Task
import SdcBoot.Kernel.Canonical

namespace SdcBoot.Memory

open Lib Kernel.Truename List Option

/-! ## 1. What an allocation answers -/

variable {cuPsp n size : Nat} {a a' : Arena}

/-- The block that was taken has the size asked for. -/
theorem takeBlock_size {m : Nat → Mcb} {mode s : Nat} (hmode : mode ≠ LARGEST) :
    ((takeBlock m cuPsp size mode s).2 (takeBlock m cuPsp size mode s).1).mSize = size := by
  unfold takeBlock
  split
  · split
    · simp only [put_self]
    · simp only [put_self]
  · rename_i hexact
    have hsize : size = (m s).mSize := by
      by_contra hne
      exact hexact ⟨hmode, hne⟩
    simp only [put_self, hsize]

theorem allocPasses_size : ∀ {passes mode : Nat} {a a' : Arena} {ans : AllocAns},
    mode ≠ LARGEST → allocPasses cuPsp size passes mode a = some (ans, a') →
    ans.rc < 0 ∨ (ans.rc = SUCCESS ∧ ∃ s, ans.para = some s ∧ (a'.mem s).mSize = size) := by
  intro passes
  induction passes with
  | zero =>
    intro mode a a' ans _ h
    cases h
  | succ passes ih =>
    intro mode a a' ans hmode h
    rw [allocPasses] at h
    split at h
    · cases h
    · cases h
      exact .inl (by decide : DE_MCBDESTRY < 0)
    · cases h
      exact .inr ⟨rfl, _, rfl, takeBlock_size hmode⟩
    · simp only [hmode, false_and, if_false] at h
      split at h
      · split at h
        · exact ih (cleared_ne_largest mode) h
        · cases h
          exact .inl (by decide : DE_NOMEM < 0)
      · cases h
        exact .inr ⟨rfl, _, rfl, takeBlock_size hmode⟩

theorem byte_ne_largest (n : Nat) : n % 0x100 ≠ LARGEST := by
  unfold LARGEST
  omega

/-- **An allocation that does not fail gives a block of the size asked for.** -/
theorem dosMemAlloc_size {mode : Nat} {ans : AllocAns}
    (h : dosMemAlloc a cuPsp size (mode % 0x100) = some (ans, a')) :
    ans.rc < 0 ∨ (ans.rc = SUCCESS ∧ ∃ s, ans.para = some s ∧ (a'.mem s).mSize = size) :=
  allocPasses_size (byte_ne_largest mode) h

/-! ## 2. The environment -/

/-- All that was stored lies in the block of the new environment. -/
def EnvResult.Inside (r : EnvResult) : Prop :=
  ∀ s ∈ r.childEnvSeg, ∀ w ∈ r.stores, w.offset + w.bytes.length ≤ 16 * (r.arena.mem s).mSize

/-- **When the path fits**: if the environment can be measured and allocated, and the name has a
path, then the strings, the count and the path with its terminator do not take more bytes than
there are in the paragraphs asked for. -/
def EnvFits (a : Arena) (cuPsp : Nat) (pSrc : Option (Nat → UInt8)) (name : Except Int Path) :
    Prop :=
  ∀ n ans a' path, nEnvSize pSrc = some n →
    dosMemAlloc a cuPsp (envParas n) (a.memAccessMode % 0x100) = some (ans, a') → 0 ≤ ans.rc →
    name = .ok path → n + 2 + (path.length + 1) ≤ 16 * envParas n

/-- The strings and the count always fit. -/
theorem strings_fit (n : Nat) : n + 2 ≤ 16 * envParas n := by
  unfold envParas ENV_KEEPFREE
  omega

theorem copiedEnv_length {pSrc : Option (Nat → UInt8)} (h : nEnvSize pSrc = some n) :
    (copiedEnv n pSrc).length = n := by
  cases pSrc with
  | none => exact some.inj h
  | some src => simp [copiedEnv]

/-- `CDS_MODE_SKIP_PHYSICAL` -/
def childMode : Mode := ⟨true, false, false⟩

/-- **`ChildEnv` stays in the environment block just when the path fits.** -/
theorem childEnv_inside_iff (a : Arena) (cuPsp : Nat) (pSrc : Option (Nat → UInt8)) (env : NameMap)
    (pathname : Path) :
    (∀ r, childEnv a cuPsp pSrc (truenameIn env childMode pathname) = some r → r.Inside) ↔
      EnvFits a cuPsp pSrc (truenameIn env childMode pathname) := by
  constructor
  · intro hall n ans a' path hn halloc hrc hpath
    obtain hneg | ⟨-, s, hs, hsize⟩ := dosMemAlloc_size halloc
    · omega
    have hrun := hall _ (by simp only [childEnv, hn, halloc, hpath, if_neg (not_lt.mpr hrc)]; rfl)
    have hlast := hrun s hs ⟨n + 2, path ++ [0]⟩ (by simp)
    rw [hsize, List.length_append] at hlast
    exact hlast
  · intro hfits r hr s hs w hw
    rw [childEnv] at hr
    split at hr
    · cases hr
      cases hs
    rename_i n hn
    split at hr
    · cases hr
    rename_i ans a' halloc
    split at hr
    · cases hr
      cases hs
    rename_i hrc
    obtain hneg | ⟨-, s', hs', hsize⟩ := dosMemAlloc_size halloc
    · exact absurd hneg hrc
    have hfit := strings_fit n
    -- what is copied before the path
    have hcopied : ∀ l : List UInt8, l.length = n → ∀ x ∈ [(⟨0, l⟩ : EnvStore), ⟨n, [1, 0]⟩],
        x.offset + x.bytes.length ≤ 16 * (a'.mem s').mSize := by
      intro l hl x hx
      rw [hsize]
      rcases List.mem_cons.mp hx with rfl | hx
      · simp only [hl]
        omega
      · obtain rfl := List.mem_singleton.mp hx
        exact hfit
    have hlen := copiedEnv_length hn
    dsimp only at hr
    split at hr
    · cases hr
      cases hs'.symm.trans hs
      exact hcopied _ hlen w hw
    · rename_i path hpath
      cases hr
      cases hs'.symm.trans hs
      rcases List.mem_append.mp hw with hw | hw
      · exact hcopied _ hlen w hw
      · obtain rfl := List.mem_singleton.mp hw
        have := hfits n ans a' path hn halloc (by omega) hpath
        simp only [hsize, List.length_append]
        exact this

/-- 16 free paragraphs. -/
def roomyArena : Arena where
  mem s := if s = 1 then ⟨MCB_LAST, FREE_PSP, 16⟩ else ⟨0, 0, 0⟩
  firstMcb := 1
  uppermemLink := 0
  uppermemRoot := 0xffff
  memAccessMode := 0

theorem onlyC {n : Nat} {root cds : Cds} (h : (if n = 2 then some root else none) = some cds) :
    n < 0x20 := by
  split at h
  · omega
  · cases h

/-- Drive C:, at its root. -/
def driveC : NameMap where
  defaultDrive := 2
  getCds n := if n = 2 then some ⟨[0x43, colon, backslash], 2, false, true, true⟩ else none
  isDevice _ := false
  up x := x
  qremote _ := none
  joined := []
  dir_exists _ := true
  before := 0
  drive := onlyC

/-- `\AAAAAAAA` eleven times: a path of 101 characters. -/
def deepName : Path := (List.replicate 11 (backslash :: List.replicate 8 0x41)).flatten

/-- **The path of a program in a deep directory is stored beyond the environment**: there is room
for 91 characters, and it has 101. -/
theorem long_path_leaves_environment :
    ¬ ∀ (a : Arena) (cuPsp : Nat) (pSrc : Option (Nat → UInt8)) (env : NameMap) (pathname : Path),
      ∀ r, childEnv a cuPsp pSrc (truenameIn env childMode pathname) = some r → r.Inside := by
  intro hall
  have hrun : (childEnv roomyArena 0x60 (some fun _ => 0)
      (truenameIn driveC childMode deepName)).map
      (fun r => (r.childEnvSeg, r.stores.map fun w => w.offset + w.bytes.length,
        (r.arena.mem 1).mSize)) = some (some 1, [2, 4, 106], 6) := by decide +kernel
  obtain ⟨r, hr, hparts⟩ := Option.map_eq_some_iff.mp hrun
  obtain ⟨hseg, hparts⟩ := Prod.mk.inj hparts
  obtain ⟨hstores, hsize⟩ := Prod.mk.inj hparts
  have hinside := hall _ _ _ _ _ r hr 1 hseg
  obtain ⟨w, hw, hend⟩ : ∃ w ∈ r.stores, w.offset + w.bytes.length = 106 := by
    have hmem : 106 ∈ r.stores.map fun w => w.offset + w.bytes.length := by
      rw [hstores]
      decide
    exact List.mem_map.mp hmem
  have := hinside w hw
  omega

/-! ## 3. A sound arena -/

/-- **What an allocation needs**: a chain from the first block, and when the search may start at
the root of upper memory, a block in use there. -/
def Sound (a : Arena) : Prop :=
  ∃ hi bs, Span a.firstMcb hi ∧ Chain a.mem a.firstMcb bs hi ∧
    (a.uppermemLink % 2 = 1 → a.uppermemRoot ≠ 0xffff →
      ∃ b ∈ bs, b.seg = a.uppermemRoot ∧ b.hdr.free = false)

/-- **A well-formed arena**: low memory and upper memory as `Layout` has them, in 1 MB, with the
reserved block that `umb_init` makes at the root of upper memory. -/
structure WellLaid (a : Arena) (low up : List Block) (hi : Nat) : Prop where
  layout : Layout a low up hi
  span : Span a.firstMcb hi
  root : a.uppermemRoot < 0xffff → ∃ b ∈ up, b.seg = a.uppermemRoot ∧ b.hdr.free = false

theorem startsHigh_link {mode : Nat} (h : a.startsHigh size mode = true) :
    a.uppermemLink % 2 = 1 ∧ a.uppermemRoot ≠ 0xffff := by
  simp only [Arena.startsHigh, Bool.and_eq_true, beq_iff_eq, bne_iff_ne] at h
  exact h.1

/-- A block of the arena, and how large it is. -/
def HasBlock (a : Arena) (para n : Nat) : Prop :=
  (a.mem para).mSize = n ∧ para + 1 + n ≤ 0x10000

/-- **An allocation in a sound arena** leaves it sound, and what it gives is a block. -/
theorem Sound.alloc (h : Sound a) {mode : Nat} (hcu : cuPsp ≠ 0) {ans : AllocAns}
    (hrun : dosMemAlloc a cuPsp size mode = some (ans, a')) :
    Sound a' ∧ (ans.rc = SUCCESS → ∃ para n, ans.para = some para ∧ HasBlock a' para n ∧
      (mode ≠ LARGEST → n = size) ∧ (mode = LARGEST → ans.asize = some n)) := by
  obtain ⟨hi, bs, hspan, hch, hroot⟩ := h
  have hrootOk : RootOk a bs size mode := by
    intro hs
    obtain ⟨hlink, hne⟩ := startsHigh_link hs
    obtain ⟨b, hb, hseg, -⟩ := hroot hlink hne
    exact ⟨b, hb, hseg⟩
  obtain ⟨ans', m', bs', hr, hch', hkeep, hdone⟩ := alloc_use hspan hch hcu hrootOk
  cases hrun.symm.trans hr
  refine ⟨⟨hi, bs', hspan, hch', fun hlink hne => ?_⟩, fun hrc => ?_⟩
  · obtain ⟨b, hb, hseg, hfree⟩ := hroot hlink hne
    exact ⟨b, hkeep b hb hfree, hseg, hfree⟩
  · rcases hdone with ⟨-, para, n, hpara, htaken, hn, hl⟩ | ⟨hno, -⟩
    · have hmem : (⟨para, n, cuPsp⟩ : Used) ∈ inUse bs' := by
        rw [htaken.use]
        exact Set.mem_insert _ _
      obtain ⟨b, hb, hseg, hsize, -, -⟩ := mem_inUse hmem
      obtain ⟨-, hend, hmb⟩ := hch'.tiles.mem_bounds b hb
      simp only at hseg hsize
      rw [hseg] at hend hmb
      have hspan' := hspan.1
      exact ⟨para, n, hpara, ⟨(congrArg Mcb.mSize hmb).trans hsize, by omega⟩, hn, hl⟩
    · exact absurd hrc hno

/-- The access mode has nothing to do with it. -/
theorem Sound.mode (h : Sound a) (mode : Nat) :
    Sound { a with memAccessMode := mode } := h

theorem dosUmbLink_mSize (h : dosUmbLink a n = some a') (s : Nat) :
    (a'.mem s).mSize = (a.mem s).mSize := by
  have hput : ∀ (p t : Nat), (put a.mem p { a.mem p with mType := t } s).mSize =
      (a.mem s).mSize := by
    intro p t
    by_cases hs : s = p
    · rw [hs, put_self]
    · rw [put_ne hs]
  unfold dosUmbLink at h
  split at h
  · cases h
    rfl
  split at h
  · cases h
    rfl
  split at h
  · cases h
  · cases h
    rfl
  split at h
  · split at h
    · cases h
    · cases h
      split
      · exact hput _ _
      · rfl
  split at h
  · cases h
    exact hput _ _
  · cases h
    rfl

/-- From a well-formed arena, with upper memory linked in or not, allocations can be made. -/
theorem WellLaid.sound {low up : List Block} {hi : Nat} (h : WellLaid a low up hi) {high : Bool}
    (hlink : linkHigh high a = some a') : Sound a' := by
  have hspan := h.span
  have hself : Sound a := by
    rcases h.layout with ⟨hroot, -, hlow⟩ | ⟨hroot, hl, -, -, hch⟩ | ⟨hroot, hl, hlow, hup⟩
    · exact ⟨hi, low, hspan, hlow, fun _ hne => absurd hroot hne⟩
    · refine ⟨hi, low ++ up, hspan, hch, fun _ _ => ?_⟩
      obtain ⟨b, hb, hb'⟩ := h.root hroot
      exact ⟨b, mem_append_right _ hb, hb'⟩
    · have hle := hup.tiles.le
      have hspan' : Span a.firstMcb a.uppermemRoot := by
        unfold Span at hspan ⊢
        omega
      refine ⟨_, low, hspan', hlow, fun hone _ => ?_⟩
      rw [hl] at hone
      cases hone
  cases high with
  | false =>
    cases hlink
    exact hself
  | true =>
    simp only [linkHigh, if_true] at hlink
    obtain ⟨a1, h1, rfl⟩ := Option.map_eq_some_iff.mp hlink
    refine Sound.mode ?_ _
    rcases h.layout with ⟨hroot, -, hlow⟩ | ⟨hroot, hl, -, -, hch⟩ | ⟨hroot, hl, hlow, hup⟩
    · simp only [dosUmbLink, if_pos hroot] at h1
      cases h1
      exact hself
    · have hne : a.uppermemRoot ≠ 0xffff := by omega
      simp only [dosUmbLink, if_neg hne, hl, Nat.reduceMod, or_true, if_true] at h1
      cases h1
      exact hself
    · have hlowne : low ≠ [] := by
        rintro rfl
        exact hlow.ends
      obtain ⟨pre, l, rfl⟩ := eq_nil_or_concat low |>.resolve_left hlowne
      rw [concat_eq_append] at hlow
      obtain ⟨hrun, -, hch⟩ := link_spec hroot hl hlow hup
      rw [hrun] at h1
      cases h1
      refine ⟨hi, _, hspan, hch, fun _ _ => ?_⟩
      obtain ⟨b, hb, hb'⟩ := h.root hroot
      exact ⟨b, mem_append_right _ hb, hb'⟩

/-! ## 4. The block of the program -/

section

variable {cuPsp : Nat} (hcu : cuPsp ≠ 0)
include hcu

variable {a a' : Arena}

section

variable (h : Sound a)
include h

theorem childEnv_sound {pSrc : Option (Nat → UInt8)} {name : Except Int Path}
    {r : EnvResult} (hrun : childEnv a cuPsp pSrc name = some r) : Sound r.arena := by
  unfold childEnv at hrun
  split at hrun
  · cases hrun
    exact h
  split at hrun
  · cases hrun
  rename_i halloc
  have hs := (h.alloc hcu halloc).1
  split at hrun
  · cases hrun
    exact hs
  split at hrun
  · cases hrun
    exact hs
  · cases hrun
    exact hs

theorem dosMemLargest_sound {rc : Int} {size : Nat}
    (hrun : dosMemLargest a cuPsp = some (rc, size, a')) : Sound a' := by
  unfold dosMemLargest at hrun
  split at hrun
  · cases hrun
  rename_i halloc
  have hs := (h.alloc hcu halloc).1
  split at hrun
  · split at hrun
    · cases hrun
    rename_i hlow
    have hs' := ((hs.mode _).alloc hcu hlow).1
    cases hrun
    exact hs'.mode _
  · cases hrun
    exact hs

/-- When `ExecMemLargest` succeeds, the threshold is met. -/
theorem execMemLargest_spec {threshold : Nat} {rc : Int} {asize : Nat}
    (hrun : execMemLargest a cuPsp threshold = some (rc, asize, a')) :
    Sound a' ∧ (rc = SUCCESS → threshold ≤ asize) := by
  unfold execMemLargest at hrun
  obtain ⟨⟨rc1, size1, a1⟩, hfound, hout⟩ := Option.map_eq_some_iff.mp hrun
  obtain ⟨hrc, rfl, rfl⟩ := Prod.mk.inj hout |>.imp_right Prod.mk.inj
  refine ⟨?_, fun hok => ?_⟩
  · dsimp only at hfound ⊢
    split at hfound
    · split at hfound
      · cases hfound
      rename_i hhigh
      have hs := dosMemLargest_sound hcu (h.mode _) hhigh
      obtain ⟨⟨rc2, size2, a2⟩, hlow, hout⟩ := Option.map_eq_some_iff.mp hfound
      cases hout
      refine Sound.mode ?_ _
      split at hlow
      · exact dosMemLargest_sound hcu (hs.mode _) hlow
      · cases hlow
        exact hs.mode _
    · exact dosMemLargest_sound hcu h hfound
  · by_contra hlt
    rw [← hrc, if_pos (Nat.lt_of_not_le hlt)] at hok
    cases hok

theorem allocLargest_spec {ans : AllocAns} (hrun : allocLargest a cuPsp = some (ans, a')) :
    ans.rc = SUCCESS → ∃ para n, ans.para = some para ∧ HasBlock a' para n ∧ ans.asize = some n := by
  have hone : ∀ {b b' : Arena} {r : AllocAns}, Sound b → dosMemAlloc b cuPsp 0 LARGEST = some (r, b') →
      r.rc = SUCCESS → ∃ para n, r.para = some para ∧ HasBlock b' para n ∧ r.asize = some n := by
    intro b b' r hb hr hrc
    obtain ⟨para, n, hpara, hblock, -, hsize⟩ := (hb.alloc hcu hr).2 hrc
    exact ⟨para, n, hpara, hblock, hsize rfl⟩
  unfold allocLargest at hrun
  split at hrun
  · cases hrun
  rename_i hfirst
  split at hrun
  · obtain ⟨⟨r, b⟩, hlow, hout⟩ := Option.map_eq_some_iff.mp hrun
    cases hout
    intro hrc
    exact @hone _ b r ((h.alloc hcu hfirst).1.mode _) hlow hrc
  · cases hrun
    exact hone h hfirst

/-- **`ExecMemAlloc` gives at least what it was asked for.** -/
theorem execMemAlloc_spec {size para asize : Nat}
    (hrun : execMemAlloc a cuPsp size = some (SUCCESS, para, asize, a')) :
    ∃ n, HasBlock a' para n ∧ size ≤ n := by
  unfold execMemAlloc at hrun
  split at hrun
  · cases hrun
  rename_i hfirst
  obtain ⟨hs, hblock⟩ := h.alloc hcu hfirst
  dsimp only at hrun
  split at hrun
  · rename_i hrc
    obtain ⟨s, n, hpara, hn, hsize, -⟩ := hblock hrc
    obtain ⟨-, hp, -, rfl⟩ := Prod.mk.inj (some.inj hrun) |>.imp_right fun h =>
      Prod.mk.inj h |>.imp_right Prod.mk.inj
    rw [hpara, getD_some] at hp
    exact ⟨n, hp ▸ hn, le_of_eq (hsize (byte_ne_largest _)).symm⟩
  split at hrun
  · rename_i hrc _
    exact absurd (Prod.mk.inj (some.inj hrun)).1 hrc
  split at hrun
  · cases hrun
  rename_i hlargest
  split at hrun
  · cases hrun
  · rename_i hbig
    obtain ⟨hrc, hp, -, rfl⟩ := Prod.mk.inj (some.inj hrun) |>.imp_right fun h =>
      Prod.mk.inj h |>.imp_right Prod.mk.inj
    obtain ⟨s, n, hpara, hn, hasize⟩ := allocLargest_spec hcu hs hlargest hrc
    rw [hpara, getD_some] at hp
    rw [hasize, getD_some] at hbig
    refine ⟨n, hp ▸ hn, ?_⟩
    by_contra hlt
    exact hbig ⟨hrc, Nat.lt_of_not_le hlt⟩

end

end

/-! ## 5. The image -/

/-- `I`: the paragraphs of image and PSP as the header has them, in unbounded integers. -/
def ExeHeader.image (h : ExeHeader) : Int :=
  32 * (h.exPages.toNat : Int) - h.exHeaderSize.toNat + 16

/-- The code has it modulo 1 MB. -/
theorem imageSize_eq (h : ExeHeader) : (h.imageSize : Int) = h.image % 0x10000 := by
  have hshift : (h.exPages <<< 5).toNat = 32 * h.exPages.toNat % 0x10000 := by
    simp [Nat.shiftLeft_eq, mul_comm]
  have h1 := h.exHeaderSize.toNat_lt
  simp only [ExeHeader.imageSize, ExeHeader.image, UInt16.toNat_add, UInt16.toNat_sub]
  simp only [UInt16.reduceToNat]
  omega

/-- The allocated size is no less than what was found to be the least, or the most wanted. -/
theorem wantedSize_ge {h : ExeHeader} {asize : Nat} (hsum : h.imageSize + h.exMinAlloc.toNat < 0x10000)
    (hleast : h.leastSize ≤ asize) :
    h.imageSize ≤ h.wantedSize asize ∧
      (h.exMinAlloc ≤ h.exMaxAlloc → h.imageSize + h.exMinAlloc.toNat ≤ h.wantedSize asize) := by
  have hl : h.leastSize = h.imageSize + h.exMinAlloc.toNat := Nat.mod_eq_of_lt hsum
  have hmax := h.exMaxAlloc.toNat_lt
  have hle : h.exMinAlloc ≤ h.exMaxAlloc ↔ h.exMinAlloc.toNat ≤ h.exMaxAlloc.toNat := UInt16.le_iff_toNat_le
  rw [hle]
  unfold ExeHeader.wantedSize
  dsimp only
  split
  · omega
  split
  · omega
  · omega

/-- The image lies in the block: the segment it begins at, its end, and every read of it. -/
structure ImageInside (l : Loaded) (reads : List Read) : Prop where
  start : l.block + 1 ≤ l.startSeg
  stop : l.startSeg + l.paras ≤ l.block + 1 + (l.arena.mem l.block).mSize
  memory : l.block + 1 + (l.arena.mem l.block).mSize ≤ 0x10000
  reads : ∀ r ∈ reads, l.block + 1 ≤ r.sp ∧
    16 * r.sp + r.toRead ≤ 16 * (l.block + 1 + (l.arena.mem l.block).mSize)

theorem toRead_le (exeSize : Nat) : toRead exeSize ≤ 16 * exeSize := by
  unfold toRead
  split
  · omega
  · omega

/-- The reads fill the paragraphs of the image from its start on. -/
theorem readImage_inside {nBytesRead : Nat → Int} {exeSize sp : Nat} (h : sp + exeSize ≤ 0x10000) :
    ∀ r ∈ readImage nBytesRead exeSize sp, sp ≤ r.sp ∧ 16 * r.sp + r.toRead ≤ 16 * (sp + exeSize) := by
  fun_induction readImage nBytesRead exeSize sp with
  | case1 nBytesRead exeSize sp hstop =>
    intro r hr
    obtain rfl := mem_singleton.mp hr
    have := toRead_le exeSize
    dsimp only
    omega
  | case2 nBytesRead exeSize sp hstop ih =>
    have hwrap : (sp + chunkParas) % 0x10000 = sp + chunkParas := Nat.mod_eq_of_lt (by omega)
    rw [hwrap] at ih
    intro r hr
    rcases mem_cons.mp hr with rfl | hr
    · have := toRead_le exeSize
      dsimp only
      omega
    · rw [hwrap] at hr
      have hrest := ih (by omega) r hr
      omega

/-- What the allocation part leaves when it succeeds. -/
theorem exeMemory_spec (h : Sound a) {e : ExecEnv} (hcu : e.cuPsp ≠ 0) {f : ExeHeader}
    (hsum : f.imageSize + f.exMinAlloc.toNat < 0x10000) {env mem : Nat}
    (hrun : exeMemory a e f = some (SUCCESS, env, mem, a')) :
    ∃ n, HasBlock a' mem n ∧ f.imageSize ≤ n ∧
      (f.exMinAlloc ≤ f.exMaxAlloc → f.imageSize + f.exMinAlloc.toNat ≤ n) := by
  unfold exeMemory at hrun
  split at hrun
  · cases hrun
  rename_i r henv
  have hs := childEnv_sound hcu h henv
  dsimp only at hrun
  obtain ⟨⟨rc, mem1, a1⟩, hout, hpair⟩ := Option.map_eq_some_iff.mp hrun
  dsimp only at hpair
  split at hpair
  · rename_i hrc
    exact absurd (Prod.mk.inj hpair).1 hrc
  cases hpair
  split at hout
  · rename_i hrc
    exact absurd (Prod.mk.inj (some.inj hout)).1 hrc
  split at hout
  · cases hout
  rename_i rc2 asize a2 hlargest
  obtain ⟨hs2, hleast⟩ := execMemLargest_spec hcu hs hlargest
  split at hout
  · rename_i hrc
    exact absurd (Prod.mk.inj (some.inj hout)).1 hrc
  rename_i hrc
  obtain ⟨⟨rc3, para, size3, a3⟩, halloc, hpair⟩ := Option.map_eq_some_iff.mp hout
  cases hpair
  obtain ⟨n, hblock, hle⟩ := execMemAlloc_spec hcu hs2 halloc
  obtain ⟨himage, hmin⟩ := wantedSize_ge hsum (hleast (not_not.mp hrc))
  exact ⟨n, hblock, himage.trans hle, fun hm => (hmin hm).trans hle⟩

/-- The image is low in the block, behind the PSP, or ends where the block ends. -/
theorem startSegment_inside {mem : Nat} {h : ExeHeader} (hpsp : 16 < h.imageSize)
    (hle : h.imageSize ≤ n) (hend : mem + 1 + n ≤ 0x10000) :
    mem + 1 ≤ startSegment mem n h ∧ startSegment mem n h + h.exeSize ≤ mem + 1 + n := by
  have hexe : h.exeSize = h.imageSize - 16 := by
    unfold ExeHeader.exeSize
    omega
  unfold startSegment
  dsimp only
  split
  · omega
  · omega

/-- **The image fits its block.**  With `I` taken modulo 1 MB, as the code does on purpose: if the image
is not empty, and image and minimum together fit a word, then the image lies in the block that was
allocated, and when the maximum is no less than the minimum, the block has the minimum too. -/
theorem exe_image_inside {a : Arena} {low up : List Block} {hi : Nat} (h : WellLaid a low up hi)
    {e : ExecEnv} (hcu : e.cuPsp ≠ 0) {f : ExeFile} {l : Loaded} {reads : List Read}
    (hrun : dosExeLoader a e f = some (.ok (l, reads))) (hpsp : 16 < f.header.image % 0x10000)
    (hsum : f.header.image % 0x10000 + f.header.exMinAlloc.toNat < 0x10000) :
    ImageInside l reads ∧ (f.header.exMinAlloc ≤ f.header.exMaxAlloc →
      f.header.image % 0x10000 + f.header.exMinAlloc.toNat ≤ (l.arena.mem l.block).mSize) := by
  rw [← imageSize_eq] at hpsp hsum ⊢
  have hsum' : f.header.imageSize + f.header.exMinAlloc.toNat < 0x10000 := by omega
  unfold dosExeLoader at hrun
  split at hrun
  · cases hrun
  rename_i a1 hlink
  split at hrun
  · cases hrun
  rename_i rc env mem a2 hmem
  split at hrun
  · cases hrun
  rename_i a3 hrestore
  split at hrun
  · exact nomatch Option.some.inj hrun
  rename_i hrc
  split at hrun
  · exact nomatch Option.some.inj hrun
  obtain rfl : rc = SUCCESS := not_not.mp hrc
  obtain ⟨n, ⟨hsize, hend⟩, himage, hmin⟩ := exeMemory_spec (h.sound hlink) hcu hsum' hmem
  have hsize3 : (a3.mem mem).mSize = n := by
    rw [← hsize]
    unfold restoreLink at hrestore
    split at hrestore
    · exact dosUmbLink_mSize hrestore mem
    · rw [Option.some.inj hrestore]
  simp only [hsize3] at hrun
  cases hrun
  obtain ⟨hlow, hhigh⟩ := startSegment_inside (h := f.header) (by omega) himage hend
  refine ⟨⟨?_, ?_, ?_, fun r hr => ?_⟩, fun hm => ?_⟩
  · dsimp only
    exact hlow
  · simp only [hsize3]
    exact hhigh
  · simp only [hsize3]
    exact hend
  · obtain ⟨hsp, hstop⟩ := readImage_inside (hhigh.trans hend) r hr
    have hlast : 16 * (startSegment mem n f.header + f.header.exeSize) ≤ 16 * (mem + 1 + n) :=
      Nat.mul_le_mul_left 16 hhigh
    simp only [hsize3]
    exact ⟨hlow.trans hsp, hstop.trans hlast⟩
  · have hleast := hmin hm
    simp only [hsize3]
    omega

/-- 200 free paragraphs, and no upper memory. -/
def lowArena : Arena where
  mem s := if s = 1 then ⟨MCB_LAST, FREE_PSP, 200⟩ else ⟨0, 0, 0⟩
  firstMcb := 1
  uppermemLink := 0
  uppermemRoot := 0xffff
  memAccessMode := 0

theorem lowArena_wellLaid : WellLaid lowArena [⟨1, ⟨MCB_LAST, FREE_PSP, 200⟩⟩] [] 202 where
  layout := .noUmb rfl rfl ⟨⟨rfl, rfl, rfl⟩, rfl, by decide⟩
  span := ⟨by decide, by decide⟩
  root := by decide

/-- A program started by process 0x60, with an empty environment and a short name. -/
def plainExec : ExecEnv where
  cuPsp := 0x60
  pSrc := some fun _ => 0
  name := .ok [0x43, 0x3a, 0x5c, 0x41]
  loadHigh := false
  env := 0

/-- 1 page of 512 bytes, a header of 2 paragraphs. -/
def onePage : ExeFile := ⟨⟨1, 2, 0, 0xffff⟩, true, fun _ => 480⟩

/-- 2051 pages of 512 bytes: 1 MB and 3 pages. -/
def bigProgram : ExeFile := ⟨⟨2051, 2, 0, 0xffff⟩, true, fun _ => 0⟩

theorem onePage_inside : ∃ l reads, dosExeLoader lowArena plainExec onePage = some (.ok (l, reads)) ∧
    ImageInside l reads ∧ ((0 : UInt16) ≤ 0xffff →
      onePage.header.image % 0x10000 + (0 : UInt16).toNat ≤ (l.arena.mem l.block).mSize) := by
  have hrun : ((dosExeLoader lowArena plainExec onePage).map fun r => r.toOption.isSome) =
      some true := by decide +kernel
  obtain ⟨r, hr, hok⟩ := Option.map_eq_some_iff.mp hrun
  cases r with
  | error e => cases hok
  | ok r =>
    obtain ⟨l, reads⟩ := r
    exact ⟨l, reads, hr, exe_image_inside lowArena_wellLaid (by decide) hr (by decide) (by decide)⟩

/-- **A program of more than 1 MB is clipped**, and loaded into a block smaller than its image. -/
theorem clipped_image :
    ¬ ∀ (a : Arena) (low up : List Block) (hi : Nat), WellLaid a low up hi →
      ∀ (e : ExecEnv), e.cuPsp ≠ 0 → ∀ (f : ExeFile) (l : Loaded) (reads : List Read),
        dosExeLoader a e f = some (.ok (l, reads)) →
          ImageInside l reads ∧
            f.header.image + f.header.exMinAlloc.toNat ≤ (l.arena.mem l.block).mSize := by
  intro hall
  have hrun : ((dosExeLoader lowArena plainExec bigProgram).map fun r =>
      r.toOption.map fun r => (r.1.arena.mem r.1.block).mSize) = some (some 193) := by decide +kernel
  obtain ⟨r, hr, hok⟩ := Option.map_eq_some_iff.mp hrun
  cases r with
  | error e => cases hok
  | ok r =>
    obtain ⟨l, reads⟩ := r
    have hsize : (l.arena.mem l.block).mSize = 193 := Option.some.inj hok
    have himage : bigProgram.header.image = 65646 := by decide
    have hleast := (hall _ _ _ _ lowArena_wellLaid plainExec (by decide) bigProgram l reads hr).2
    rw [hsize, himage] at hleast
    cases hleast

end SdcBoot.Memory
