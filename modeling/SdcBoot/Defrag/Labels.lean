/-
# The FAT as an array of labels

`WriteFatLabel` stores a label and `GetNthCluster` reads one, through a cache of three sectors that
`ReadFatLabel` fills.  A block of three sectors begins with a whole label for each of the three
packings, so a label is found in one block (`labelAt_eq`), and a store touches no other label
(`getFatLabel_other`).

Three things stand between the code and an array.

* `GetNthCluster` gives a FAT32 label with its high four bits, which `GeneralizeLabel` takes off
  (`Plain`).
* A value that is wider than a label is cut off (`Fits`).
* A read that fails may have changed the cache, which goes on being used for the block that was in
  it before (`Harmless`).

`fat_labels_exact`: the array is right just as long as these three are kept, in every run of reads
and writes, with any failures.
-/
import SdcBoot.Defrag.FatEqual

namespace SdcBoot.Defrag

open Lib Function Option Nat

/-! ## 1. The accessors -/

def FAT_FREE_LABEL : Nat := 0

/-- FAT_FREE -/
def fatFree (label : Nat) : Bool := label % 0x10000000 == FAT_FREE_LABEL

/-- What lies in the buffer at `o`, as a `CLUSTER`. -/
def getCluster (buffer : Nat → UInt8) (o : Nat) : Nat :=
  getWord buffer o + 0x10000 * getWord buffer (o + 2)

/-- `GetFatLabel`, for the `n`-th label of the buffer. -/
def getFatLabel (size : LabelSize) (buffer : Nat → UInt8) (n : Nat) : Nat :=
  match size with
  | .fat12 =>
    let label := getCluster buffer (n + n / 2)
    if n % 2 = 0 then label % 0x1000 else label / 16 % 0x1000
  | .fat16 => getCluster buffer (n * 2) % 0x10000
  | .fat32 => getCluster buffer (n * 4)

/-- A handle with its cache of the FAT. -/
structure CachedHandle extends Handle where
  fatCacheUsed : Bool
  fatCacheStart : Nat
  /-- the cache is its first 1536 bytes -/
  fatCache : Nat → UInt8

/-- How the transfer of one `ReadFatLabel` goes; `torn` is what a failed read leaves in the cache. -/
structure ReadIo where
  readOk : Bool
  torn : Nat → UInt8

/-- Which of the labels in the buffer `labelnr` is. -/
def indexInBuf (v : Volume) (labelnr : Nat) : Nat := labelnr % 0x10000000 % labelsInBuf v

/-- The cache is filled. -/
def CachedHandle.fill (h : CachedHandle) (bytes : Nat → UInt8) : CachedHandle :=
  { h with fatCache := fun x => if x < 1536 then bytes x else h.fatCache x }

/-- `ReadFatLabel`; no label where it returns FALSE. -/
def readFatLabel (v : Volume) (io : ReadIo) (labelnr : Nat) (h : CachedHandle) :
    Option Nat × CachedHandle :=
  let sectorstart := bufferStart v labelnr
  if !h.fatCacheUsed || h.fatCacheStart != sectorstart then
    if io.readOk then
      let h := { h.fill (readBuffer h.disk sectorstart) with fatCacheStart := sectorstart }
      (some (getFatLabel v.labelSize h.fatCache (indexInBuf v labelnr)),
        { h with fatCacheUsed := true })
    else (none, h.fill io.torn)
  else
    (some (getFatLabel v.labelSize h.fatCache (indexInBuf v labelnr)),
      { h with fatCacheUsed := true })

/-- The end of `GetNthCluster`. -/
def interpretLabel (size : LabelSize) (result : Nat) : Nat :=
  match size with
  | .fat12 =>
    if result = 0 then FAT_FREE_LABEL
    else if result = FAT12_BAD_LABEL then FAT_BAD_LABEL
    else if 0xff8 ≤ result ∧ result ≤ 0xfff then FAT_LAST_LABEL
    else result
  | .fat16 =>
    if result = 0 then FAT_FREE_LABEL
    else if result = FAT16_BAD_LABEL then FAT_BAD_LABEL
    else if 0xfff8 ≤ result ∧ result ≤ 0xffff then FAT_LAST_LABEL
    else result
  | .fat32 =>
    if result % 0x10000000 = 0 then FAT_FREE_LABEL
    else if result % 0x10000000 = FAT_BAD_LABEL then FAT_BAD_LABEL
    else if 0xffffff8 ≤ result % 0x10000000 ∧ result % 0x10000000 ≤ 0xfffffff then FAT_LAST_LABEL
    else result

/-- `GetNthCluster` -/
def getNthCluster (v : Volume) (io : ReadIo) (n : Nat) (h : CachedHandle) :
    Option Nat × CachedHandle :=
  ((readFatLabel v io n h).1.map (interpretLabel v.labelSize), (readFatLabel v io n h).2)

/-- `WriteFatLabel`, with what it does to the cache. -/
def writeLabel (v : Volume) (io : WriteIo) (labelnr label : Nat) (h : CachedHandle) :
    Bool × CachedHandle :=
  let d := writeFatLabel v io labelnr label h.toHandle
  (d.ok, ⟨d.handle, false, h.fatCacheStart, h.fatCache⟩)

/-- `GeneralizeLabel`: what a label of a FAT means. -/
def generalizeLabel (size : LabelSize) (label : Nat) : Nat :=
  match size with
  | .fat12 | .fat16 => interpretLabel size label
  | .fat32 =>
    if label % 0x10000000 = 0 then FAT_FREE_LABEL
    else if label % 0x10000000 = FAT_BAD_LABEL then FAT_BAD_LABEL
    else if 0xffffff8 ≤ label % 0x10000000 ∧ label % 0x10000000 ≤ 0xfffffff then FAT_LAST_LABEL
    else label % 0x10000000

/-! ## 2. The array -/

/-- **What label `n` is on the disk.** -/
def valueOnDisk (v : Volume) (disk : Nat → Sector) (n : Nat) : Nat :=
  generalizeLabel v.labelSize (labelAt v disk 0 n)

/-- What a value means that is given to `WriteFatLabel`, which takes generalised labels and those of
the FAT. -/
def meaning (size : LabelSize) (label : Nat) : Nat :=
  if fatFree label then FAT_FREE_LABEL
  else if fatBad label then FAT_BAD_LABEL
  else if fatLast label then FAT_LAST_LABEL
  else generalizeLabel size label

/-- Whatever `GetNthCluster` answers from here is what is on the disk. -/
def Honest (v : Volume) (h : CachedHandle) : Prop :=
  ∀ n < v.labelsInFat, ∀ io r, (getNthCluster v io n h).1 = some r → r = valueOnDisk v h.disk n

/-- A call of an accessor, for a label of the volume. -/
inductive LabelOp (v : Volume) where
  | get (io : ReadIo) (n : Fin v.labelsInFat)
  | write (c : WriteCall v)

/-- The call is made; a write answers the value it has stored. -/
def labelStep (v : Volume) (h : CachedHandle) : LabelOp v → Option Nat × CachedHandle
  | .get io n => getNthCluster v io n h
  | .write c =>
    let r := writeLabel v c.io c.labelnr c.label h
    (if r.1 then some c.label else none, r.2)

/-- What a successful write does to what is read: `h` is before it, `h'` behind. -/
structure Stored (v : Volume) (i label : Nat) (h h' : CachedHandle) : Prop where
  same : ∀ io r, (getNthCluster v io i h').1 = some r → r = meaning v.labelSize label
  others : ∀ j < v.labelsInFat, j ≠ i → ∀ io io' r r', (getNthCluster v io j h).1 = some r →
    (getNthCluster v io' j h').1 = some r' → r' = r
  high : v.labelSize = .fat32 → labelAt v h'.disk 0 i / 0x10000000 = labelAt v h.disk 0 i / 0x10000000

/-- **The accessors are those of an array**, in one step: a write that succeeds has stored its value
and no other, and what is read afterwards is what is on the disk. -/
def StepRight (v : Volume) (h : CachedHandle) (op : LabelOp v) (r : Option Nat × CachedHandle) :
    Prop :=
  Honest v r.2 ∧ match op with
    | .get _ _ => True
    | .write c => r.1 = some c.label → Stored v c.labelnr c.label h r.2

/-! ## 3. When they are -/

/-- A label that is read as it is meant: not a FAT32 cluster with high bits. -/
def Plain (size : LabelSize) (label : Nat) : Prop :=
  interpretLabel size label = generalizeLabel size label

instance (size : LabelSize) (label : Nat) : Decidable (Plain size label) :=
  inferInstanceAs (Decidable (_ = _))

/-- A value for which a label is wide enough. -/
def Fits (size : LabelSize) (label : Nat) : Prop :=
  fatFree label = true ∨ fatBad label = true ∨ fatLast label = true ∨
    match size with
    | .fat12 => label < 0x1000
    | .fat16 => label < 0x10000
    | .fat32 => True

/-- A generalised label is made one of the FAT. -/
def narrowed (bad last label : Nat) : Nat :=
  let label := if fatBad label then bad else label
  if fatLast label then last else label

/-- What the label becomes: on FAT32 the high four bits stay. -/
def storedLabel (size : LabelSize) (old label : Nat) : Nat :=
  match size with
  | .fat12 => narrowed FAT12_BAD_LABEL 0xfff label % 0x1000
  | .fat16 => narrowed FAT16_BAD_LABEL 0xffff label % 0x10000
  | .fat32 => label % 0x10000000 + old / 0x10000000 * 0x10000000

/-- The labels of the cached block are read from these bytes as they are on the disk. -/
def Harmless (v : Volume) (h : CachedHandle) (bytes : Nat → UInt8) : Prop :=
  ∀ n < v.labelsInFat, bufferStart v n = h.fatCacheStart →
    interpretLabel v.labelSize (getFatLabel v.labelSize (h.fill bytes).fatCache (indexInBuf v n)) =
      valueOnDisk v h.disk n

/-- The sector of the buffer that label `n` begins in. -/
def sectorInBuf (v : Volume) (n : Nat) : Nat := labelOffset v.labelSize (n % labelsInBuf v) / 512

/-- **The condition on a call.**  A read that fails, while the cache is in use for another block,
leaves the labels in it alone; a write that succeeds has room for its value, and one that gets to the
disk stores a label that is read as it is meant. -/
def CallOk (v : Volume) (h : CachedHandle) : LabelOp v → Prop
  | .get io n => io.readOk = false → h.fatCacheUsed = true → h.fatCacheStart ≠ bufferStart v n →
      Harmless v h io.torn
  | .write c => c.Reaches →
      (c.io.writeOk = true → Fits v.labelSize c.label) ∧
      ((c.io.writeOk = true ∨ c.io.written (sectorInBuf v c.labelnr) = true) →
        Plain v.labelSize (storedLabel v.labelSize (labelAt v h.disk 0 c.labelnr) c.label))

/-! ## 4. Labels in the buffer -/

theorem getWord_lt (buffer : Nat → UInt8) (o : Nat) : getWord buffer o < 0x10000 := by
  have h0 := (buffer o).toNat_lt
  have h1 := (buffer (o + 1)).toNat_lt
  unfold getWord
  omega

theorem toNat_ofNat (w : Nat) : (UInt8.ofNat w).toNat = w % 256 := by simp

variable {buffer : Nat → UInt8} {bad label last n o w : Nat} {size : LabelSize}

theorem getWord_putWord (hw : w < 0x10000) : getWord (putWord buffer o w) o = w := by
  unfold getWord putWord
  rw [update_self, update_of_ne (by omega), update_self, toNat_ofNat,
    toNat_ofNat]
  omega

theorem getWord_frame {o' : Nat} (h : o' + 2 ≤ o ∨ o + 2 ≤ o') :
    getWord (putWord buffer o w) o' = getWord buffer o' := by
  unfold getWord
  rw [putWord_frame (by omega), putWord_frame (by omega)]

/-- The word behind one that is stored: its low byte is the high one of what is stored. -/
theorem getWord_above :
    getWord (putWord buffer o w) (o + 1) =
      w / 256 % 256 + getWord buffer (o + 1) / 256 * 256 := by
  have h0 := (buffer (o + 1)).toNat_lt
  unfold getWord putWord
  rw [update_self, update_of_ne (by omega), update_of_ne (by omega),
    toNat_ofNat]
  omega

/-- The word before one that is stored: its high byte is the low one of what is stored. -/
theorem getWord_below :
    getWord (putWord buffer (o + 1) w) o = getWord buffer o % 256 + w % 256 * 256 := by
  have h0 := (buffer o).toNat_lt
  unfold getWord putWord
  rw [update_of_ne (by omega), update_of_ne (by omega),
    update_of_ne (by omega), update_self, toNat_ofNat]
  omega

/-- What is read of the word at a label, for the two packings that need a word only. -/
theorem getFatLabel_fat12 (buffer : Nat → UInt8) (n : Nat) : getFatLabel .fat12 buffer n =
    if n % 2 = 0 then getWord buffer (n + n / 2) % 0x1000
    else getWord buffer (n + n / 2) / 16 := by
  have h0 := getWord_lt buffer (n + n / 2)
  simp only [getFatLabel, getCluster]
  split <;> omega

theorem getFatLabel_fat16 (buffer : Nat → UInt8) (n : Nat) :
    getFatLabel .fat16 buffer n = getWord buffer (n * 2) := by
  have h0 := getWord_lt buffer (n * 2)
  simp only [getFatLabel, getCluster]
  omega

theorem labelOffset_fat12 (n : Nat) : labelOffset .fat12 n = n + n / 2 := by
  change n * 12 / 8 = n + n / 2
  omega

theorem labelOffset_fat16 (n : Nat) : labelOffset .fat16 n = n * 2 := rfl

theorem labelOffset_fat32 (n : Nat) : labelOffset .fat32 n = n * 4 := rfl

theorem labelWidth_fat12 : labelWidth .fat12 = 2 := rfl

theorem labelWidth_fat16 : labelWidth .fat16 = 2 := rfl

theorem labelWidth_fat32 : labelWidth .fat32 = 4 := rfl

theorem editLabel_even (hn : n % 2 = 0) (b : Nat → UInt8) (label : Nat) :
    editLabel .fat12 b n label = putWord b (n + n / 2)
      (getWord b (n + n / 2) / 0x1000 * 0x1000 + narrowed FAT12_BAD_LABEL 0xfff label % 0x1000) := by
  unfold editLabel
  dsimp only
  rw [labelOffset_fat12, if_pos (by omega), narrowed]

theorem editLabel_odd (hn : n % 2 = 1) (b : Nat → UInt8) (label : Nat) :
    editLabel .fat12 b n label = putWord b (n + n / 2) (getWord b (n + n / 2) % 0x10 +
      narrowed FAT12_BAD_LABEL 0xfff label * 0x10 % 0x10000) := by
  unfold editLabel
  dsimp only
  rw [labelOffset_fat12, if_neg (by omega), narrowed]

/-- A label is read from its own bytes. -/
theorem getFatLabel_congr {b b' : Nat → UInt8}
    (h : ∀ x, labelOffset size n ≤ x → x < labelOffset size n + labelWidth size → b x = b' x) :
    getFatLabel size b n = getFatLabel size b' n := by
  cases size with
  | fat12 =>
    rw [labelOffset_fat12, labelWidth_fat12] at h
    have h0 := h (n + n / 2) (by omega) (by omega)
    have h1 := h (n + n / 2 + 1) (by omega) (by omega)
    rw [getFatLabel_fat12, getFatLabel_fat12, getWord, getWord, h0, h1]
  | fat16 =>
    rw [labelOffset_fat16, labelWidth_fat16] at h
    have h0 := h (n * 2) (by omega) (by omega)
    have h1 := h (n * 2 + 1) (by omega) (by omega)
    rw [getFatLabel_fat16, getFatLabel_fat16, getWord, getWord, h0, h1]
  | fat32 =>
    rw [labelOffset_fat32, labelWidth_fat32] at h
    have h0 := h (n * 4) (by omega) (by omega)
    have h1 := h (n * 4 + 1) (by omega) (by omega)
    have h2 := h (n * 4 + 2) (by omega) (by omega)
    have h3 := h (n * 4 + 2 + 1) (by omega) (by omega)
    simp only [getFatLabel, getCluster, getWord, h0, h1, h2, h3]

/-- **What is stored is read again.** -/
theorem getFatLabel_same (size : LabelSize) (b : Nat → UInt8) (n label : Nat) :
    getFatLabel size (editLabel size b n label) n =
      storedLabel size (getFatLabel size b n) label := by
  cases size with
  | fat12 =>
    have h0 := getWord_lt b (n + n / 2)
    rw [getFatLabel_fat12, storedLabel]
    by_cases hn : n % 2 = 0
    · rw [if_pos hn, editLabel_even hn, getWord_putWord (by omega)]
      omega
    · rw [if_neg hn, editLabel_odd (by omega), getWord_putWord (by omega)]
      omega
  | fat16 =>
    rw [getFatLabel_fat16]
    simp only [editLabel, storedLabel, labelOffset, narrowed]
    rw [getWord_putWord (mod_lt _ (by omega))]
  | fat32 =>
    have h0 := getWord_lt b (n * 4)
    have h1 := getWord_lt b (n * 4 + 2)
    simp only [getFatLabel, getCluster, editLabel, labelOffset]
    rw [getWord_frame (by omega), getWord_putWord (by omega), getWord_putWord (by omega)]
    exact mod_add_div _ _

/-- **Nothing else is touched**, not even the other label in a shared byte. -/
theorem getFatLabel_other {b : Nat → UInt8} {m : Nat} (label : Nat) (h : m ≠ n) :
    getFatLabel size (editLabel size b n label) m = getFatLabel size b m := by
  have hdisjoint : labelOffset size m + labelWidth size ≤ labelOffset size n ∨
      labelOffset size n + labelWidth size ≤ labelOffset size m →
      getFatLabel size (editLabel size b n label) m = getFatLabel size b m := fun hout =>
    getFatLabel_congr fun x hlo hhi => editLabel_frame (by omega)
  cases size with
  | fat12 =>
    rw [labelOffset_fat12, labelOffset_fat12, labelWidth_fat12] at hdisjoint
    by_cases habove : m = n + 1 ∧ n % 2 = 0
    · -- the label behind, in the high half of the shared byte
      obtain ⟨rfl, hn⟩ := habove
      have hm : n + 1 + (n + 1) / 2 = n + n / 2 + 1 := by omega
      have hbyte : getWord b (n + n / 2) / 256 = getWord b (n + n / 2 + 1) % 256 := by
        have h1 := (b (n + n / 2 + 1)).toNat_lt
        have h2 := (b (n + n / 2)).toNat_lt
        unfold getWord
        omega
      rw [getFatLabel_fat12, getFatLabel_fat12, if_neg (by omega), if_neg (by omega), hm,
        editLabel_even hn, getWord_above]
      omega
    · by_cases hbelow : n = m + 1 ∧ n % 2 = 1
      · -- the label before, in the low half of the shared byte
        obtain ⟨rfl, hn⟩ := hbelow
        have hm : m + 1 + (m + 1) / 2 = m + m / 2 + 1 := by omega
        have hbyte : getWord b (m + m / 2 + 1) % 256 = getWord b (m + m / 2) / 256 := by
          have h1 := (b (m + m / 2 + 1)).toNat_lt
          have h2 := (b (m + m / 2)).toNat_lt
          unfold getWord
          omega
        rw [getFatLabel_fat12, getFatLabel_fat12, if_pos (by omega), if_pos (by omega),
          editLabel_odd hn, hm, getWord_below]
        omega
      · exact hdisjoint (by omega)
  | fat16 =>
    rw [labelOffset_fat16, labelOffset_fat16, labelWidth_fat16] at hdisjoint
    exact hdisjoint (by omega)
  | fat32 =>
    rw [labelOffset_fat32, labelOffset_fat32, labelWidth_fat32] at hdisjoint
    exact hdisjoint (by omega)

/-! ## 5. Labels on the disk -/

section

variable {v : Volume} {disk : Nat → Sector}

theorem readBuffer_eq (n x : Nat) : readBuffer disk (bufferStart v n) x =
    fatByte v disk 0 (1536 * (n / labelsInBuf v) + x) := by
  unfold readBuffer bufferStart fatByte Volume.sectorOf SECTORSPERREADBUF
  have hdiv : (1536 * (n / labelsInBuf v) + x) / 512 = n / labelsInBuf v * 3 + x / 512 := by omega
  have hmod : (1536 * (n / labelsInBuf v) + x) % 512 = x % 512 := by omega
  rw [hdiv, hmod, zero_mul, add_zero, add_assoc]

/-- **A label lies in one block.** -/
theorem labelAt_eq (n : Nat) : labelAt v disk 0 n =
    getFatLabel v.labelSize (readBuffer disk (bufferStart v n)) (n % labelsInBuf v) := by
  cases hsize : v.labelSize with
  | fat12 =>
    have hbuf : labelsInBuf v = 1024 := by rw [labelsInBuf, hsize]; rfl
    have h0 := (fatByte v disk 0 (3 * n / 2)).toNat_lt
    have ho : 1536 * (n / 1024) + (n % 1024 + n % 1024 / 2) = 3 * n / 2 := by omega
    have ho1 : 1536 * (n / 1024) + (n % 1024 + n % 1024 / 2 + 1) = 3 * n / 2 + 1 := by omega
    have hparity : n % 1024 % 2 = n % 2 := by omega
    rw [labelAt, hsize, getFatLabel_fat12, getWord, readBuffer_eq, readBuffer_eq, hbuf, ho, ho1,
      hparity]
    dsimp only [fatWord]
    split <;> omega
  | fat16 =>
    have hbuf : labelsInBuf v = 768 := by rw [labelsInBuf, hsize]; rfl
    have ho : 1536 * (n / 768) + n % 768 * 2 = 2 * n := by omega
    rw [labelAt, hsize, getFatLabel_fat16, getWord, readBuffer_eq, readBuffer_eq, hbuf,
      ← add_assoc, ho]
    rfl
  | fat32 =>
    have hbuf : labelsInBuf v = 384 := by rw [labelsInBuf, hsize]; rfl
    have ho : 1536 * (n / 384) + n % 384 * 4 = 4 * n := by omega
    simp only [labelAt, hsize, getFatLabel, getCluster, getWord, readBuffer_eq, hbuf,
      ← add_assoc, ho]
    rfl

/-- The bytes of a label lie in the buffer. -/
theorem label_in_buf (v : Volume) (n : Nat) :
    labelOffset v.labelSize (n % labelsInBuf v) + labelWidth v.labelSize ≤ 1536 := by
  unfold labelsInBuf
  cases v.labelSize with
  | fat12 =>
    rw [labelOffset_fat12, labelWidth_fat12]
    simp only [LabelSize.bits]
    omega
  | fat16 =>
    rw [labelOffset_fat16, labelWidth_fat16]
    simp only [LabelSize.bits]
    omega
  | fat32 =>
    rw [labelOffset_fat32, labelWidth_fat32]
    simp only [LabelSize.bits]
    omega

/-- The disk behind a write that gets to it. -/
def WriteCall.diskAfter (c : WriteCall v) (disk : Nat → Sector) : Nat → Sector :=
  writeBuffer disk (bufferStart v c.labelnr)
    (editLabel v.labelSize (readBuffer disk (bufferStart v c.labelnr)) (c.labelnr % labelsInBuf v)
      c.label) (fun i => c.io.writeOk || c.io.written i)

variable (c : WriteCall v)

/-- What is read of the block that was written. -/
theorem readBuffer_diskAfter {x : Nat} (hx : x < 1536) :
    readBuffer (c.diskAfter disk) (bufferStart v c.labelnr) x =
      if c.io.writeOk || c.io.written (x / 512) then
        editLabel v.labelSize (readBuffer disk (bufferStart v c.labelnr))
          (c.labelnr % labelsInBuf v) c.label x
      else readBuffer disk (bufferStart v c.labelnr) x := by
  have hsub : bufferStart v c.labelnr + x / 512 - bufferStart v c.labelnr = x / 512 := by omega
  have hback : 512 * (x / 512) + x % 512 = x := by omega
  have hlt : x % 512 < 512 := mod_lt _ (by omega)
  change c.diskAfter disk (bufferStart v c.labelnr + x / 512) (x % 512) = _
  rw [WriteCall.diskAfter, writeBuffer, hsub]
  split
  · rename_i h
    dsimp only
    rw [if_pos hlt, hback, if_pos h.2.2]
  · rename_i h
    rw [if_neg fun hw => h ⟨by omega, by unfold SECTORSPERREADBUF; omega, hw⟩]
    rfl

variable {n : Nat}

/-- What is read of another block. -/
theorem readBuffer_apart {x : Nat} (hx : x < 1536)
    (hn : n / labelsInBuf v ≠ c.labelnr / labelsInBuf v) :
    readBuffer (c.diskAfter disk) (bufferStart v n) x = readBuffer disk (bufferStart v n) x := by
  have hout : bufferStart v n + 3 ≤ bufferStart v c.labelnr ∨
      bufferStart v c.labelnr + 3 ≤ bufferStart v n := by
    unfold bufferStart SECTORSPERREADBUF
    omega
  unfold readBuffer WriteCall.diskAfter writeBuffer
  rw [if_neg]
  unfold SECTORSPERREADBUF
  omega

/-- **The label that is written**: what is stored, if the sectors it lies in are written. -/
theorem labelAt_same (h : ∀ x, labelOffset v.labelSize (c.labelnr % labelsInBuf v) ≤ x →
      x < labelOffset v.labelSize (c.labelnr % labelsInBuf v) + labelWidth v.labelSize →
      (c.io.writeOk || c.io.written (x / 512)) = true) :
    labelAt v (c.diskAfter disk) 0 c.labelnr =
      storedLabel v.labelSize (labelAt v disk 0 c.labelnr) c.label := by
  rw [labelAt_eq, labelAt_eq, ← getFatLabel_same]
  refine getFatLabel_congr fun x hlo hhi => ?_
  have hin := label_in_buf v c.labelnr
  rw [readBuffer_diskAfter c (by omega), if_pos (h x hlo hhi)]

/-- A label of whose bytes none is changed. -/
theorem labelAt_of_frame (hn : n / labelsInBuf v = c.labelnr / labelsInBuf v →
      ∀ x, labelOffset v.labelSize (n % labelsInBuf v) ≤ x →
      x < labelOffset v.labelSize (n % labelsInBuf v) + labelWidth v.labelSize →
      (c.io.writeOk || c.io.written (x / 512)) = true →
      editLabel v.labelSize (readBuffer disk (bufferStart v c.labelnr))
        (c.labelnr % labelsInBuf v) c.label x = readBuffer disk (bufferStart v c.labelnr) x) :
    labelAt v (c.diskAfter disk) 0 n = labelAt v disk 0 n := by
  rw [labelAt_eq, labelAt_eq]
  refine getFatLabel_congr fun x hlo hhi => ?_
  have hin := label_in_buf v n
  by_cases hblock : n / labelsInBuf v = c.labelnr / labelsInBuf v
  · have hstart : bufferStart v n = bufferStart v c.labelnr := by rw [bufferStart, hblock, bufferStart]
    rw [hstart, readBuffer_diskAfter c (by omega)]
    split
    · rename_i hw
      exact hn hblock x hlo hhi hw
    · rfl
  · exact readBuffer_apart c (by omega) hblock

theorem index_ne {c : WriteCall v} (hne : n ≠ c.labelnr)
    (hblock : n / labelsInBuf v = c.labelnr / labelsInBuf v) :
    n % labelsInBuf v ≠ c.labelnr % labelsInBuf v := fun heq =>
  hne (by rw [← div_add_mod n (labelsInBuf v), hblock, heq, div_add_mod])

/-- **The others, after a write that succeeds.** -/
theorem labelAt_other (hok : c.io.writeOk = true)
    (hne : n ≠ c.labelnr) : labelAt v (c.diskAfter disk) 0 n = labelAt v disk 0 n := by
  by_cases hblock : n / labelsInBuf v = c.labelnr / labelsInBuf v
  · have hstart : bufferStart v n = bufferStart v c.labelnr := by rw [bufferStart, hblock, bufferStart]
    rw [labelAt_eq, labelAt_eq, hstart,
      ← getFatLabel_other (b := readBuffer disk _) c.label (index_ne hne hblock)]
    refine getFatLabel_congr fun x hlo hhi => ?_
    have hin := label_in_buf v n
    rw [readBuffer_diskAfter c (by omega), hok, Bool.true_or, if_pos rfl]
  · exact labelAt_of_frame c fun h => absurd h hblock

/-- The others on FAT32, whatever of the block is written: no two labels share a byte. -/
theorem labelAt_other_fat32 (hsize : v.labelSize = .fat32) (c : WriteCall v)
    (hne : n ≠ c.labelnr) : labelAt v (c.diskAfter disk) 0 n = labelAt v disk 0 n := by
  refine labelAt_of_frame c fun hblock x hlo hhi _ => editLabel_frame ?_
  have hidx := index_ne hne hblock
  rw [hsize, labelOffset_fat32, labelWidth_fat32] at *
  omega

end

/-! ## 6. What a stored value means -/

theorem plain_of_size (h : size ≠ .fat32) (label : Nat) : Plain size label := by
  cases size with
  | fat12 => rfl
  | fat16 => rfl
  | fat32 => exact absurd rfl h

theorem narrowed_bad (hbad : fatBad label = true) (h : fatLast bad = false) :
    narrowed bad last label = bad := by
  simp [narrowed, hbad, h]

theorem narrowed_last (hbad : fatBad label = false)
    (h : fatLast label = true) : narrowed bad last label = last := by
  simp [narrowed, hbad, h]

theorem narrowed_plain (hbad : fatBad label = false)
    (h : fatLast label = false) : narrowed bad last label = label := by
  simp [narrowed, hbad, h]

theorem meaning_free (h : fatFree label = true) :
    meaning size label = FAT_FREE_LABEL := if_pos h

theorem meaning_bad (h : fatBad label = true) : meaning size label = FAT_BAD_LABEL := by
  have hfree : ¬ fatFree label = true := by
    simp only [fatBad, fatFree, FAT_BAD_LABEL, FAT_FREE_LABEL, beq_iff_eq] at h ⊢
    omega
  rw [meaning, if_neg hfree, if_pos h]

theorem meaning_last (h : fatLast label = true) : meaning size label = FAT_LAST_LABEL := by
  have hfree : ¬ fatFree label = true := by
    simp only [fatLast, fatFree, FAT_LAST_LABEL, FAT_FREE_LABEL, beq_iff_eq] at h ⊢
    omega
  have hbad : ¬ fatBad label = true := by
    simp only [fatLast, fatBad, FAT_LAST_LABEL, FAT_BAD_LABEL, beq_iff_eq] at h ⊢
    omega
  rw [meaning, if_neg hfree, if_neg hbad, if_pos h]

theorem meaning_other (hfree : fatFree label = false) (hbad : fatBad label = false)
    (hlast : fatLast label = false) : meaning size label = generalizeLabel size label := by
  simp [meaning, hfree, hbad, hlast]

theorem interpretLabel_cases (size : LabelSize) (label : Nat) :
    interpretLabel size label = FAT_FREE_LABEL ∨ interpretLabel size label = FAT_BAD_LABEL ∨
      interpretLabel size label = FAT_LAST_LABEL ∨ interpretLabel size label = label := by
  unfold interpretLabel
  cases size <;> dsimp only <;> split_ifs <;> simp

/-- A value that is wider than a label is none of those with a meaning of their own. -/
theorem generalizeLabel_wide (hsize : size ≠ .fat32)
    (h : 2 ^ size.bits ≤ label) : generalizeLabel size label = label := by
  cases size with
  | fat12 =>
    simp only [LabelSize.bits] at h
    dsimp only [generalizeLabel, interpretLabel]
    rw [if_neg (by omega), if_neg (by unfold FAT12_BAD_LABEL; omega), if_neg (by omega)]
  | fat16 =>
    simp only [LabelSize.bits] at h
    dsimp only [generalizeLabel, interpretLabel]
    rw [if_neg (by omega), if_neg (by unfold FAT16_BAD_LABEL; omega), if_neg (by omega)]
  | fat32 => exact absurd rfl hsize

/-- A value that none of the three macros takes is read again just if it is not cut off. -/
theorem cut_iff (hsize : size ≠ .fat32) (hfree : fatFree label = false)
    (hbad : fatBad label = false) (hlast : fatLast label = false) :
    interpretLabel size (label % 2 ^ size.bits) = generalizeLabel size label ↔
      label < 2 ^ size.bits := by
  simp only [fatFree, fatBad, fatLast, beq_eq_false_iff_ne] at hfree hbad hlast
  constructor
  · intro h
    by_contra hge
    rw [generalizeLabel_wide hsize (Nat.le_of_not_lt hge)] at h
    rcases interpretLabel_cases size (label % 2 ^ size.bits) with hr | hr | hr | hr
    · exact hfree (by rw [← h, hr]; rfl)
    · exact hbad (by rw [← h, hr]; rfl)
    · exact hlast (by rw [← h, hr]; rfl)
    · omega
  · intro h
    rw [mod_eq_of_lt h]
    exact plain_of_size hsize label

/-- **What is stored means what was given**, if there was room for it. -/
theorem stored_iff {old : Nat} (hplain : Plain size (storedLabel size old label)) :
    interpretLabel size (storedLabel size old label) = meaning size label ↔ Fits size label := by
  by_cases hsize : size = .fat32
  · subst hsize
    refine ⟨fun _ => .inr (.inr (.inr trivial)), fun _ => hplain.trans ?_⟩
    have hmod : storedLabel .fat32 old label % 0x10000000 = label % 0x10000000 := by
      rw [storedLabel]
      omega
    rw [generalizeLabel, hmod]
    cases hfree : fatFree label with
    | true =>
      rw [meaning_free hfree, if_pos (by simpa [fatFree, FAT_FREE_LABEL] using hfree)]
    | false =>
      have hzero : label % 0x10000000 ≠ 0 := by simpa [fatFree, FAT_FREE_LABEL] using hfree
      cases hbad : fatBad label with
      | true =>
        rw [meaning_bad hbad, if_neg hzero, if_pos (by simpa [fatBad] using hbad)]
      | false =>
        cases hlast : fatLast label with
        | true =>
          have hend : label % 0x10000000 = 0xfffffff := by
            simpa [fatLast, FAT_LAST_LABEL] using hlast
          rw [meaning_last hlast, hend]
          rfl
        | false => rw [meaning_other hfree hbad hlast, generalizeLabel]
  · have hstored : ∃ bad last, storedLabel size old label = narrowed bad last label % 2 ^ size.bits ∧
        fatLast bad = false ∧ interpretLabel size (bad % 2 ^ size.bits) = FAT_BAD_LABEL ∧
        interpretLabel size (last % 2 ^ size.bits) = FAT_LAST_LABEL := by
      cases size with
      | fat12 => exact ⟨_, _, rfl, by decide, by decide, by decide⟩
      | fat16 => exact ⟨_, _, rfl, by decide, by decide, by decide⟩
      | fat32 => exact absurd rfl hsize
    obtain ⟨bad, last, hstored, hlastBad, hibad, hilast⟩ := hstored
    rw [hstored]
    cases hbad : fatBad label with
    | true => simp [narrowed_bad hbad hlastBad, hibad, meaning_bad hbad, Fits, hbad]
    | false =>
      cases hlast : fatLast label with
      | true => simp [narrowed_last hbad hlast, hilast, meaning_last hlast, Fits, hlast]
      | false =>
        rw [narrowed_plain hbad hlast]
        cases hfree : fatFree label with
        | true =>
          have hzero : label % 2 ^ size.bits = 0 := by
            have hdvd : 2 ^ size.bits ∣ 0x10000000 := by
              cases size with
              | fat12 => decide
              | fat16 => decide
              | fat32 => exact absurd rfl hsize
            have hmod : label % 0x10000000 = 0 := by simpa [fatFree, FAT_FREE_LABEL] using hfree
            rw [← mod_mod_of_dvd label hdvd, hmod, zero_mod]
          have hzeroFree : interpretLabel size 0 = FAT_FREE_LABEL := by cases size <;> rfl
          simp [hzero, hzeroFree, meaning_free hfree, Fits, hfree]
        | false =>
          rw [meaning_other hfree hbad hlast, cut_iff hsize hfree hbad hlast]
          cases size with
          | fat12 => simp [Fits, hfree, hbad, hlast, LabelSize.bits]
          | fat16 => simp [Fits, hfree, hbad, hlast, LabelSize.bits]
          | fat32 => exact absurd rfl hsize

/-! ## 7. Runs -/

/-- Every label is read as it is meant, and so are those in the cache, if it is in use. -/
structure Trusted (v : Volume) (h : CachedHandle) : Prop where
  plain : ∀ n < v.labelsInFat, Plain v.labelSize (labelAt v h.disk 0 n)
  cache : h.fatCacheUsed = true → ∀ n < v.labelsInFat, bufferStart v n = h.fatCacheStart →
    interpretLabel v.labelSize (getFatLabel v.labelSize h.fatCache (indexInBuf v n)) =
      valueOnDisk v h.disk n

section

variable {v : Volume} {h : CachedHandle} {io : ReadIo} {n : Nat}

/-- A read from the cache, one that fills it, and one that fails. -/
theorem readFatLabel_cases (v : Volume) (io : ReadIo) (n : Nat) (h : CachedHandle) :
    ((h.fatCacheUsed = true ∧ h.fatCacheStart = bufferStart v n) ∧ readFatLabel v io n h =
      (some (getFatLabel v.labelSize h.fatCache (indexInBuf v n)), h)) ∨
    ((h.fatCacheUsed = true → h.fatCacheStart ≠ bufferStart v n) ∧ io.readOk = true ∧
      readFatLabel v io n h =
        (some (getFatLabel v.labelSize (h.fill (readBuffer h.disk (bufferStart v n))).fatCache
          (indexInBuf v n)),
        ⟨h.toHandle, true, bufferStart v n, (h.fill (readBuffer h.disk (bufferStart v n))).fatCache⟩)) ∨
    ((h.fatCacheUsed = true → h.fatCacheStart ≠ bufferStart v n) ∧ io.readOk = false ∧
      readFatLabel v io n h = (none, h.fill io.torn)) := by
  obtain ⟨hd, used, start, cache⟩ := h
  unfold readFatLabel
  cases used with
  | false =>
    cases hread : io.readOk with
    | false => exact .inr (.inr ⟨by simp, rfl, by simp⟩)
    | true => exact .inr (.inl ⟨by simp, rfl, by rfl⟩)
  | true =>
    by_cases hstart : start = bufferStart v n
    · subst hstart
      exact .inl ⟨⟨rfl, rfl⟩, by simp⟩
    · cases hread : io.readOk with
      | false => exact .inr (.inr ⟨fun _ => hstart, rfl, by simp [hstart]⟩)
      | true => exact .inr (.inl ⟨fun _ => hstart, rfl, by simp [hstart]; rfl⟩)

section

variable (hcount : v.labelsInFat ≤ 0x10000000)
include hcount

theorem indexInBuf_eq (hn : n < v.labelsInFat) :
    indexInBuf v n = n % labelsInBuf v := by
  rw [indexInBuf, mod_eq_of_lt (show n < 0x10000000 by omega)]

/-- A label in a cache that was filled from the disk. -/
theorem getFatLabel_filled (hn : n < v.labelsInFat)
    {start : Nat} (hstart : bufferStart v n = start) :
    getFatLabel v.labelSize (h.fill (readBuffer h.disk start)).fatCache (indexInBuf v n) =
      labelAt v h.disk 0 n := by
  rw [indexInBuf_eq hcount hn, labelAt_eq, hstart]
  refine getFatLabel_congr fun x hlo hhi => ?_
  have hin := label_in_buf v n
  exact if_pos (by omega)

theorem Trusted.honest (ht : Trusted v h) : Honest v h := by
  intro n hn io r hr
  unfold getNthCluster at hr
  rcases readFatLabel_cases v io n h with ⟨⟨hused, hstart⟩, hread⟩ | ⟨-, -, hread⟩ | ⟨-, -, hread⟩
  · rw [hread] at hr
    cases hr
    exact ht.cache hused n hn hstart.symm
  · rw [hread] at hr
    rw [← some.inj hr, getFatLabel_filled hcount hn rfl]
    exact ht.plain n hn
  · rw [hread] at hr
    cases hr

end

/-- From an honest handle with the cache in use, the cached labels are right. -/
theorem Honest.cached (hh : Honest v h) (hused : h.fatCacheUsed = true) (hn : n < v.labelsInFat)
    (hstart : bufferStart v n = h.fatCacheStart) :
    interpretLabel v.labelSize (getFatLabel v.labelSize h.fatCache (indexInBuf v n)) =
      valueOnDisk v h.disk n := by
  refine hh n hn ⟨true, h.fatCache⟩ _ ?_
  unfold getNthCluster
  rcases readFatLabel_cases v ⟨true, h.fatCache⟩ n h with ⟨-, hread⟩ | ⟨hne, -⟩ | ⟨hne, -⟩
  · rw [hread]
    rfl
  · exact absurd hstart.symm (hne hused)
  · exact absurd hstart.symm (hne hused)

/-- From an honest handle with its cache not in use, the labels on the disk are plain. -/
theorem Honest.plain (hcount : v.labelsInFat ≤ 0x10000000) (hh : Honest v h)
    (hused : h.fatCacheUsed = false) (hn : n < v.labelsInFat) :
    Plain v.labelSize (labelAt v h.disk 0 n) := by
  refine hh n hn ⟨true, h.fatCache⟩ _ ?_
  unfold getNthCluster
  rcases readFatLabel_cases v ⟨true, h.fatCache⟩ n h with ⟨⟨hyes, -⟩, -⟩ | ⟨-, -, hread⟩ | ⟨-, hno, -⟩
  · rw [hused] at hyes
    cases hyes
  · rw [hread, map_some, getFatLabel_filled hcount hn rfl]
  · cases hno

/-- **A read.**  Where the transfer succeeds, or none is made, the handle stays as it should be. -/
theorem get_right (hcount : v.labelsInFat ≤ 0x10000000) (ht : Trusted v h) (io : ReadIo)
    (n : Fin v.labelsInFat) : (StepRight v h (.get io n) (labelStep v h (.get io n)) ↔
      CallOk v h (.get io n)) ∧
    (CallOk v h (.get io n) → Trusted v (labelStep v h (.get io n)).2) := by
  have hgood : ∀ h', Trusted v h' → (labelStep v h (.get io n)).2 = h' → CallOk v h (.get io n) →
      (StepRight v h (.get io n) (labelStep v h (.get io n)) ↔ CallOk v h (.get io n)) ∧
      (CallOk v h (.get io n) → Trusted v (labelStep v h (.get io n)).2) := fun h' ht' hstep hcall =>
    ⟨⟨fun _ => hcall, fun _ => ⟨hstep ▸ ht'.honest hcount, trivial⟩⟩, fun _ => hstep ▸ ht'⟩
  rcases readFatLabel_cases v io n h with ⟨⟨hused, hstart⟩, hread⟩ | ⟨hne, hok, hread⟩ | ⟨hne, hok, hread⟩
  · exact hgood h ht (by rw [labelStep, getNthCluster, hread]) fun _ _ hne => absurd hstart hne
  · refine hgood ⟨h.toHandle, true, bufferStart v n,
      (h.fill (readBuffer h.disk (bufferStart v n))).fatCache⟩ ⟨ht.plain, fun _ m hm hstart => ?_⟩
      (by rw [labelStep, getNthCluster, hread]) fun hno => by rw [hok] at hno; cases hno
    rw [getFatLabel_filled hcount hm hstart]
    exact ht.plain m hm
  · have hstep : (labelStep v h (.get io n)).2 = h.fill io.torn := by
      rw [labelStep, getNthCluster, hread]
    have htrusted : CallOk v h (.get io n) → Trusted v (h.fill io.torn) := fun hcall =>
      ⟨ht.plain, fun hused m hm hstart => hcall hok hused (hne hused) m hm hstart⟩
    refine ⟨⟨fun hright _ hused _ m hm hstart => ?_, fun hcall => ?_⟩, fun hcall => hstep ▸ htrusted hcall⟩
    · have hh : Honest v (h.fill io.torn) := hstep ▸ hright.1
      exact hh.cached hused hm hstart
    · exact ⟨hstep ▸ (htrusted hcall).honest hcount, trivial⟩

theorem labelStep_write (h : CachedHandle) (c : WriteCall v) : labelStep v h (.write c) =
    (if (writeFatLabel v c.io c.labelnr c.label h.toHandle).ok = true then some c.label else none,
      ⟨(writeFatLabel v c.io c.labelnr c.label h.toHandle).handle, false, h.fatCacheStart,
        h.fatCache⟩) := rfl

/-- A write that does not get as far as changing anything, and one that does. -/
theorem write_cases (v : Volume) (h : CachedHandle) (c : WriteCall v) :
    (¬ c.Reaches ∧ labelStep v h (.write c) =
      (none, ⟨h.toHandle, false, h.fatCacheStart, h.fatCache⟩)) ∨
    (c.Reaches ∧ ∃ h' : CachedHandle, h'.disk = c.diskAfter h.disk ∧ h'.fatCacheUsed = false ∧
      labelStep v h (.write c) = (if c.io.writeOk = true then some c.label else none, h')) := by
  rw [labelStep_write]
  rcases writeFatLabel_cases v c h.toHandle with ⟨hno, hrun⟩ | ⟨hreach, disk, hd, ⟨-, hrun⟩ | ⟨f, -, hrun⟩⟩
  · rw [hrun]
    exact .inl ⟨hno, rfl⟩
  · rw [hrun]
    exact .inr ⟨hreach, _, hd, rfl, rfl⟩
  · rw [hrun]
    exact .inr ⟨hreach, _, hd, rfl, rfl⟩

/-- The label that is written to, where its sector got to the disk. -/
theorem labelAt_written (disk : Nat → Sector) (c : WriteCall v) (hw : c.io.writeOk = true ∨
      (v.labelSize = .fat32 ∧ c.io.written (sectorInBuf v c.labelnr) = true)) :
    labelAt v (c.diskAfter disk) 0 c.labelnr =
      storedLabel v.labelSize (labelAt v disk 0 c.labelnr) c.label := by
  refine labelAt_same c fun x hlo hhi => ?_
  rcases hw with hw | ⟨hsize, hw⟩
  · rw [hw, Bool.true_or]
  · -- four bytes at a multiple of four are in one sector
    rw [sectorInBuf] at hw
    rw [hsize, labelOffset_fat32] at hlo hhi hw
    rw [labelWidth_fat32] at hhi
    have hsector : x / 512 = c.labelnr % labelsInBuf v * 4 / 512 := by omega
    rw [hsector, hw, Bool.or_true]

/-- The labels stay plain behind a write that stores a plain one. -/
theorem plain_diskAfter {disk : Nat → Sector} (c : WriteCall v)
    (hplain : ∀ n < v.labelsInFat, Plain v.labelSize (labelAt v disk 0 n))
    (hstored : (c.io.writeOk = true ∨ c.io.written (sectorInBuf v c.labelnr) = true) →
      Plain v.labelSize (storedLabel v.labelSize (labelAt v disk 0 c.labelnr) c.label)) :
    ∀ n < v.labelsInFat, Plain v.labelSize (labelAt v (c.diskAfter disk) 0 n) := by
  intro n hn
  by_cases hsize : v.labelSize = .fat32
  · by_cases hne : n = c.labelnr
    · subst hne
      by_cases hw : c.io.writeOk = true ∨ c.io.written (sectorInBuf v c.labelnr) = true
      · rw [labelAt_written _ c (hw.imp_right fun h => ⟨hsize, h⟩)]
        exact hstored hw
      · rw [labelAt_of_frame c]
        · exact hplain _ hn
        · intro _ x hlo hhi hx
          rw [sectorInBuf, hsize, labelOffset_fat32] at hw
          rw [hsize, labelOffset_fat32] at hlo hhi
          rw [labelWidth_fat32] at hhi
          have hsector : x / 512 = c.labelnr % labelsInBuf v * 4 / 512 := by omega
          rw [hsector, Bool.or_eq_true] at hx
          exact absurd hx hw
    · rw [labelAt_other_fat32 hsize c hne]
      exact hplain n hn
  · exact plain_of_size hsize _

/-- **A write.** -/
theorem write_right (hcount : v.labelsInFat ≤ 0x10000000) (ht : Trusted v h) (c : WriteCall v) :
    (StepRight v h (.write c) (labelStep v h (.write c)) ↔ CallOk v h (.write c)) ∧
    (CallOk v h (.write c) → Trusted v (labelStep v h (.write c)).2) := by
  rcases write_cases v h c with ⟨hno, hstep⟩ | ⟨hreach, h', hdisk, hunused, hstep⟩
  · have ht' : Trusted v ⟨h.toHandle, false, h.fatCacheStart, h.fatCache⟩ :=
      ⟨ht.plain, nofun⟩
    rw [hstep]
    exact ⟨⟨fun _ hreach => absurd hreach hno, fun _ => ⟨ht'.honest hcount, nofun⟩⟩,
      fun _ => ht'⟩
  · rw [hstep]
    have htrusted : CallOk v h (.write c) → Trusted v h' := fun hcall =>
      ⟨hdisk ▸ plain_diskAfter c ht.plain (hcall hreach).2, fun hused => by
        rw [hunused] at hused
        cases hused⟩
    refine ⟨⟨fun hright _ => ⟨fun hok => ?_, fun hw => ?_⟩, fun hcall => ?_⟩, htrusted⟩
    · -- what is read of the label after a write that succeeds
      have hstored := labelAt_written h.disk c (.inl hok)
      have hplain := hright.1.plain hcount hunused c.labelnr.isLt
      rw [hdisk, hstored] at hplain
      refine (stored_iff hplain).mp ((hright.2 (if_pos hok)).same ⟨true, h'.fatCache⟩ _ ?_)
      unfold getNthCluster
      rcases readFatLabel_cases v ⟨true, h'.fatCache⟩ c.labelnr h' with
        ⟨⟨hyes, -⟩, -⟩ | ⟨-, -, hread⟩ | ⟨-, hfail, -⟩
      · rw [hunused] at hyes
        cases hyes
      · rw [hread, map_some, getFatLabel_filled hcount c.labelnr.isLt rfl, hdisk, hstored]
      · cases hfail
    · by_cases hsize : v.labelSize = .fat32
      · have hplain := hright.1.plain hcount hunused c.labelnr.isLt
        rw [hdisk, labelAt_written _ c (hw.imp_right fun h => ⟨hsize, h⟩)] at hplain
        exact hplain
      · exact plain_of_size hsize _
    · have hh' := (htrusted hcall).honest hcount
      have hh := ht.honest hcount
      refine ⟨hh', fun hsome => ?_⟩
      have hok : c.io.writeOk = true := by
        by_contra hno
        rw [if_neg hno] at hsome
        cases hsome
      have hstored := labelAt_written h.disk c (.inl hok)
      refine ⟨fun io r hr => ?_, fun j hj hne io io' r r' hr hr' => ?_, fun hsize => ?_⟩
      · have hplain := (hcall hreach).2 (.inl hok)
        rw [hh' c.labelnr c.labelnr.isLt io r hr, valueOnDisk, hdisk, hstored, ← hplain]
        exact (stored_iff hplain).mpr ((hcall hreach).1 hok)
      · rw [hh j hj io r hr, hh' j hj io' r' hr', valueOnDisk, valueOnDisk, hdisk,
          labelAt_other c hok hne]
      · rw [hdisk, hstored, hsize, storedLabel]
        omega

end

/-- A handle as it is opened: the cache is not in use. -/
def CachedHandle.opened (h : Handle) (start : Nat) (cache : Nat → UInt8) : CachedHandle :=
  ⟨h, false, start, cache⟩

/-- **The accessors of the FAT are those of an array of labels.**  From an opened handle, in every
run of reads and writes of labels of the volume, with every outcome of every transfer, each
successful write has stored its value and no other, and whatever is read is what is on the disk, if
and only if the labels are plain and each call meets its condition. -/
theorem fat_labels_exact (v : Volume) (hcount : v.labelsInFat ≤ 0x10000000) (hd : Handle)
    (start : Nat) (cache : Nat → UInt8) (ops : List (LabelOp v)) :
    (Honest v (.opened hd start cache) ∧
      Along (labelStep v) (StepRight v) (.opened hd start cache) ops) ↔
    ((∀ n < v.labelsInFat, Plain v.labelSize (labelAt v hd.disk 0 n)) ∧
      Guarded (labelStep v) (CallOk v) (.opened hd start cache) ops) := by
  have hright : ∀ h op, Trusted v h → (StepRight v h op (labelStep v h op) ↔ CallOk v h op) ∧
      (CallOk v h op → Trusted v (labelStep v h op).2) := by
    intro h op ht
    cases op with
    | get io n => exact get_right hcount ht io n
    | write c => exact write_right hcount ht c
  have hrun : ∀ h, Trusted v h →
      (Along (labelStep v) (StepRight v) h ops ↔ Guarded (labelStep v) (CallOk v) h ops) :=
    along_iff_guarded (fun h op ht => (hright h op ht).1) (fun h op ht => (hright h op ht).2) ops
  have hstart : (∀ n < v.labelsInFat, Plain v.labelSize (labelAt v hd.disk 0 n)) →
      Trusted v (.opened hd start cache) := fun hplain => ⟨hplain, nofun⟩
  constructor
  · rintro ⟨hhonest, halong⟩
    have hplain : ∀ n < v.labelsInFat, Plain v.labelSize (labelAt v hd.disk 0 n) :=
      fun n hn => hhonest.plain hcount rfl hn
    exact ⟨hplain, (hrun _ (hstart hplain)).mp halong⟩
  · rintro ⟨hplain, hguarded⟩
    exact ⟨(hstart hplain).honest hcount, (hrun _ (hstart hplain)).mpr hguarded⟩

/-- A FAT12 volume with two blocks, the second of which is not full. -/
def smallDiskette : Volume := ⟨1, 2, 6, .fat12, 1100⟩

/-- A label is written, and read after one of the other block. -/
theorem smallDiskette_labels_exact :
    Honest smallDiskette (.opened ⟨fun _ _ => 0, false, none⟩ 0 fun _ => 0) ∧
      Along (labelStep smallDiskette) (StepRight smallDiskette)
        (.opened ⟨fun _ _ => 0, false, none⟩ 0 fun _ => 0)
        [.write ⟨⟨3, by decide⟩, FAT_LAST_LABEL, ⟨true, true, true, fun _ => true, true, fun _ => false⟩⟩,
          .get ⟨true, fun _ => 0⟩ ⟨1050, by decide⟩, .get ⟨true, fun _ => 0⟩ ⟨3, by decide⟩] := by
  refine (fat_labels_exact smallDiskette (by decide) _ _ _ _).mpr ⟨fun n _ => rfl, ?_⟩
  refine ⟨fun _ => ⟨fun _ => Or.inr (Or.inr (Or.inl rfl)), fun _ => rfl⟩, ?_, ?_, trivial⟩
  · nofun
  · nofun

/-- **A read that fails leaves the cache in use.**  Label 2 is free; after a failed read of the other
block it is answered from what that read has left. -/
theorem torn_cache_answers :
    ¬ (Honest smallDiskette (.opened ⟨fun _ _ => 0, false, none⟩ 0 fun _ => 0) ∧
      Along (labelStep smallDiskette) (StepRight smallDiskette)
        (.opened ⟨fun _ _ => 0, false, none⟩ 0 fun _ => 0)
        [.get ⟨true, fun _ => 0⟩ ⟨2, by decide⟩, .get ⟨false, fun _ => 0x21⟩ ⟨1050, by decide⟩]) := by
  rintro ⟨-, -, hfailed, -⟩
  have hread := hfailed.1 2 (by decide) ⟨true, fun _ => 0⟩ 0x121 rfl
  revert hread
  decide

end SdcBoot.Defrag
