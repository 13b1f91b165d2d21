/-
# The write-back sector cache (`blkcache.c`, `logcache.c`, `sctcache.c`, `rdwrsect.c`)

A sector belongs to one of the physical blocks of the cache, which holds up to 31 tags.  Four blocks
at a time are mapped into windows; the others lie in extended memory.  `WriteSectors` only makes
tags dirty; they reach the disk when their block is made clean, by `CommitCache` or for want of a
clean tag to replace.  Dirty sectors that follow each other in one area are collected in a buffer
and written together, if there is memory for it.

There is one volume, so the tags need no device number.  What the memory and the disk answer is
given with each call: the n-th question of a kind asked in it.
-/
import Mathlib.Logic.Function.Basic
import Mathlib.Data.List.FinRange

namespace SdcBoot.Defrag

variable {α : Type}

/-! ## 1. Blocks and windows -/

/-- struct SectorTag. -/
structure SectorTag (α : Type) where
  sector : Nat
  age : Nat
  dirty : Bool
  area : Nat
  data : α
  deriving DecidableEq

def TAGSPERBLOCK : Nat := 31
def UINT_MAX : Nat := 0xffff
def ULONG_MAX : Nat := 0xffffffff

/-- What is answered in one call: the n-th `FTEAlloc`, move to or from extended memory, transfer to
the disk and transfer from it. -/
structure CacheEnv where
  fteAlloc : Nat → Bool
  xmsMove : Nat → Bool
  writeFunc : Nat → Bool
  readFunc : Nat → Bool

/-- The cache with the disk under it.  A window is the number of the block that is mapped there and
the tags in use; `ticks` counts the questions asked in a call.  `outside` says that a tag behind a
block was written, `readOnly` that the ReadWriteMode of the volume is READING. -/
structure SectorCache (α : Type) where
  windows : Fin 4 → Nat × List (SectorTag α)
  xms : Nat → List (SectorTag α)
  nextBlockPointer : Fin 4
  numberOfPhysicalBlocks : Nat
  initialisedField : Nat → Bool
  dirtyField : Nat → Bool
  logicalTime : Nat
  cacheInitialised : Bool
  cacheStarted : Bool
  cacheLocked : Bool
  cacheCorrupt : Bool
  outside : Bool
  readOnly : Bool
  disk : Nat → α
  ticks : Nat

namespace SectorCache

/-- HashBlockNumber -/
def hash (s : SectorCache α) (sector : Nat) : Nat :=
  sector / TAGSPERBLOCK % s.numberOfPhysicalBlocks

/-- The window in which a block is mapped. -/
def window (s : SectorCache α) (block : Nat) : Option (Fin 4) :=
  (List.finRange 4).find? fun i => (s.windows i).1 == block

/-- The tags of a block, where it is mapped or in extended memory. -/
def content (s : SectorCache α) (block : Nat) : List (SectorTag α) :=
  match s.window block with
  | some i => (s.windows i).2
  | none => s.xms block

/-- The tags of a block that is mapped are changed. -/
def setContent (s : SectorCache α) (block : Nat) (tags : List (SectorTag α)) : SectorCache α :=
  match s.window block with
  | some i => { s with windows := Function.update s.windows i (block, tags) }
  | none => s

def tick (s : SectorCache α) : SectorCache α := { s with ticks := s.ticks + 1 }

/-- EnsureBlockMapped: another block is moved out of a window where that is needed. -/
def ensureBlockMapped (e : CacheEnv) (block : Nat) (s : SectorCache α) : Bool × SectorCache α :=
  if (s.window block).isSome then (true, s)
  else if e.xmsMove s.ticks then
    let i := s.nextBlockPointer
    let xms := Function.update s.xms (s.windows i).1 (s.windows i).2
    (true, { s.tick with
      xms := xms
      windows := Function.update s.windows i (block, xms block)
      nextBlockPointer := i + 1 })
  else (false, s.tick)

end SectorCache

/-! ## 2. The tags of a block -/

/-- The first tag of the sector is changed; none if there is no such tag. -/
def updateTag (sector : Nat) (f : SectorTag α → SectorTag α) :
    List (SectorTag α) → Option (List (SectorTag α))
  | [] => none
  | t :: ts =>
    if t.sector = sector then some (f t :: ts) else (updateTag sector f ts).map (t :: ·)

/-- RedistributeAges, as far as the tags go. -/
def redistributeAges (tags : List (SectorTag α)) : List (SectorTag α) :=
  tags.map fun t => { t with age := t.age / 8 }

/-- The clean tag of the least age below `min`, from index `i`. -/
def oldestFrom : Nat → Nat → Option Nat → List (SectorTag α) → Option Nat
  | _, _, found, [] => found
  | i, min, found, t :: ts =>
    if t.dirty = false ∧ t.age < min then oldestFrom (i + 1) t.age (some i) ts
    else oldestFrom (i + 1) min found ts

/-- GetOldestTag, none for NOTAGFOUND. -/
def getOldestTag (tags : List (SectorTag α)) : Option Nat := oldestFrom 0 UINT_MAX none tags

/-- GetFirstDirtyTag: the dirty tag of the least sector. -/
def getFirstDirtyTag : List (SectorTag α) → Option (SectorTag α)
  | [] => none
  | t :: ts =>
    match getFirstDirtyTag ts with
    | none => if t.dirty ∧ t.sector < ULONG_MAX then some t else none
    | some u => if t.dirty ∧ t.sector ≤ u.sector then some t else some u

/-- The first dirty tag of the sector is made clean. -/
def cleanTag (sector : Nat) : List (SectorTag α) → List (SectorTag α)
  | [] => []
  | t :: ts =>
    if t.sector = sector ∧ t.dirty then { t with dirty := false } :: ts else t :: cleanTag sector ts

/-! ## 3. Writing a block back -/

/-- A transfer of sectors to the disk. -/
def writeDisk (disk : Nat → α) (first : Nat) (buf : List α) : Nat → α :=
  fun x => if first ≤ x then (buf[x - first]?).getD (disk x) else disk x

/-- The sectors that are collected: `firstsector`, `prevsector`, `prevarea` and the buffer. -/
structure Collected (α : Type) where
  firstsector : Nat
  prevsector : Nat
  prevarea : Nat
  writeBuf : List α
  deriving DecidableEq

/-- WriteBackSectors for what is collected. -/
def flush (e : CacheEnv) (c : Collected α) (s : SectorCache α) : Bool × SectorCache α :=
  if e.writeFunc s.ticks then
    (true, { s.tick with
      disk := writeDisk s.disk c.firstsector (c.writeBuf.take (c.prevsector - c.firstsector + 1)) })
  else (false, s.tick)

/-- A dirty tag joins what is collected: as the first, behind the others, or as the first again
after these were written. -/
def collect (e : CacheEnv) (t : SectorTag α) (c : Collected α) (s : SectorCache α) :
    Bool × Collected α × SectorCache α :=
  let put (c : Collected α) : Collected α :=
    { c with
      prevsector := t.sector
      writeBuf := c.writeBuf.take (t.sector - c.firstsector) ++ [t.data] }
  if c.firstsector ≠ 0 ∧ (c.prevsector + 1 ≠ t.sector ∨ c.prevarea ≠ t.area) then
    let (ok, s) := flush e c s
    (ok, put { c with firstsector := t.sector, prevarea := t.area }, s)
  else if c.firstsector = 0 then
    (true, put { c with firstsector := t.sector, prevarea := t.area }, s)
  else (true, put c, s)

/-- The loop of `WriteBackBlock` over the dirty tags, with a buffer or without; the tags are kept
beside the state.  Every round makes a tag clean. -/
def writeBackLoop (e : CacheEnv) (buffer : Bool) : Nat → List (SectorTag α) → Collected α →
    SectorCache α → Bool × List (SectorTag α) × Collected α × SectorCache α
  | 0, tags, c, s => (true, tags, c, s)
  | fuel + 1, tags, c, s =>
    match getFirstDirtyTag tags with
    | none => (true, tags, c, s)
    | some t =>
      let (ok, c, s) :=
        if buffer then collect e t c s
        else
          let (ok, s) := flush e ⟨t.sector, t.sector, t.area, [t.data]⟩ s
          (ok, c, s)
      if ok then writeBackLoop e buffer fuel (cleanTag t.sector tags) c s else (false, tags, c, s)

namespace SectorCache

/-- CacheIsCorrupt -/
def corrupt (s : SectorCache α) : SectorCache α := { s with cacheCorrupt := true }

/-- WriteBackBlock -/
def writeBackBlock (e : CacheEnv) (block : Nat) (s : SectorCache α) : Bool × SectorCache α :=
  let buffer := e.fteAlloc s.ticks
  let (mapped, s) := ensureBlockMapped e block s.tick
  if mapped then
    let tags := s.content block
    let (ok, tags, c, s) := writeBackLoop e buffer tags.length tags ⟨0, 0, 0xffff, []⟩ s
    let s := s.setContent block tags
    if ok then
      let (ok, s) := if buffer ∧ c.firstsector ≠ 0 then flush e c s else (true, s)
      if ok then (true, { s with dirtyField := Function.update s.dirtyField block false })
      else (false, s.corrupt)
    else (false, s.corrupt)
  else (false, s.corrupt)

/-- MakeBlockClean.  `GetNextDeviceID` finds the volume if there is a tag at all; it does not look
whether the block could be mapped. -/
def makeBlockClean (e : CacheEnv) (block : Nat) (s : SectorCache α) : Bool × SectorCache α :=
  let (mapped, s) := ensureBlockMapped e block s
  if mapped then
    if s.content block = [] then (true, s) else writeBackBlock e block s
  else (false, { s with outside := true })

/-- The tags of a block, none where it is not initialised. -/
def tags (s : SectorCache α) (block : Nat) : List (SectorTag α) :=
  if s.initialisedField block then s.content block else []

/-- `tag[oldest]` is replaced by a tag of the sector. -/
def replaceTag (s : SectorCache α) (block oldest sector : Nat) (data : α) (dirty : Bool)
    (area : Nat) : SectorCache α :=
  let ts := (s.content block).set oldest ⟨sector, s.logicalTime, dirty, area, data⟩
  if s.logicalTime = UINT_MAX then
    { s.setContent block (redistributeAges ts) with logicalTime := UINT_MAX / 8 }
  else s.setContent block ts

/-- A block that is mapped is marked as initialised, without tags if it was not, and as dirty. -/
def opened (block : Nat) (dirty : Bool) (s : SectorCache α) : SectorCache α :=
  { s.setContent block (s.tags block) with
    initialisedField := Function.update s.initialisedField block true
    dirtyField := if dirty then Function.update s.dirtyField block true else s.dirtyField }

/-- The sector goes into its tag, into a new one, or into that of the oldest clean sector. -/
def putSector (e : CacheEnv) (block sector : Nat) (data : α) (dirty : Bool) (area : Nat)
    (s : SectorCache α) : Bool × SectorCache α :=
  let now := s.logicalTime
  let later := { s with logicalTime := (now + 1) % 0x10000 }
  match updateTag sector (fun t =>
      { t with age := now, dirty := dirty, area := area, data := data }) (s.content block) with
  | some ts =>
    if now = UINT_MAX then
      (true, { later.setContent block (redistributeAges ts) with logicalTime := UINT_MAX / 8 })
    else (true, later.setContent block ts)
  | none =>
    if (s.content block).length < TAGSPERBLOCK then
      let ts := s.content block ++ [⟨sector, now, dirty, area, data⟩]
      if later.logicalTime = UINT_MAX then
        (true, { later.setContent block (redistributeAges ts) with logicalTime := UINT_MAX / 8 })
      else (true, later.setContent block ts)
    else
      match getOldestTag (s.content block) with
      | some oldest => (true, s.replaceTag block oldest sector data dirty area)
      | none =>
        let (ok, s) := makeBlockClean e block s
        if ok then
          let s := { s with dirtyField := Function.update s.dirtyField block true }
          match getOldestTag (s.content block) with
          | some oldest => (true, s.replaceTag block oldest sector data dirty area)
          | none => (true, { s with outside := true })
        else (false, s)

/-- CacheBlockSector -/
def cacheBlockSector (e : CacheEnv) (sector : Nat) (data : α) (dirty : Bool) (area : Nat)
    (s : SectorCache α) : Bool × SectorCache α :=
  let block := s.hash sector
  let (mapped, s) := ensureBlockMapped e block s
  if mapped then (s.opened block dirty).putSector e block sector data dirty area else (true, s)

/-- RetreiveBlockSector -/
def retreiveBlockSector (e : CacheEnv) (sector : Nat) (s : SectorCache α) :
    Option α × SectorCache α :=
  let block := s.hash sector
  if s.initialisedField block then
    let (mapped, s) := ensureBlockMapped e block s
    if mapped then
      let now := s.logicalTime
      match (s.content block).find? fun t => t.sector == sector with
      | some found =>
        let ts := (updateTag sector (fun t => { t with age := now }) (s.content block)).getD []
        let s := { s with logicalTime := (now + 1) % 0x10000 }
        if now = UINT_MAX then
          (some found.data,
            { s.setContent block (redistributeAges ts) with logicalTime := UINT_MAX / 8 })
        else (some found.data, s.setContent block ts)
      | none => (none, s)
    else (none, s)
  else (none, s)

/-! ## 4. The public functions -/

/-- CacheActive -/
def cacheActive (s : SectorCache α) : Bool :=
  s.cacheInitialised && s.cacheStarted && !s.cacheLocked && !s.cacheCorrupt

/-- CacheSector -/
def cacheSector (e : CacheEnv) (sector : Nat) (data : α) (dirty : Bool) (area : Nat)
    (s : SectorCache α) : Bool × SectorCache α :=
  if s.cacheActive then s.cacheBlockSector e sector data dirty area else (true, s)

/-- RetreiveCachedSector -/
def retreiveCachedSector (e : CacheEnv) (sector : Nat) (s : SectorCache α) :
    Option α × SectorCache α :=
  if s.cacheActive then s.retreiveBlockSector e sector else (none, s)

/-- The loop that caches the sectors from `first`. -/
def cacheSectors (e : CacheEnv) (dirty : Bool) (area : Nat) : Nat → List α → SectorCache α →
    SectorCache α
  | _, [], s => s
  | first, d :: ds, s =>
    cacheSectors e dirty area (first + 1) ds (s.cacheSector e first d dirty area).2

/-- The sectors from `first` to before `stop` are read from the disk and cached. -/
def readRun (e : CacheEnv) (first stop : Nat) (s : SectorCache α) :
    Option (List α) × SectorCache α :=
  if e.readFunc s.ticks then
    let data := (List.range' first (stop - first)).map s.disk
    (some data, cacheSectors e false 0 first data s.tick)
  else (none, s.tick)

/-- The loop of `ReadSectors`, with the first sector of those that are still to be read, if any. -/
def readLoop (e : CacheEnv) : Nat → Nat → Option Nat → List α → SectorCache α →
    Option (List α) × SectorCache α
  | 0, sector, some first, done, s =>
    let (got, s) := s.readRun e first sector
    (got.map (done ++ ·), s)
  | 0, _, none, done, s => (some done, s)
  | n + 1, sector, first, done, s =>
    match s.retreiveCachedSector e sector with
    | (none, s) => readLoop e n (sector + 1) (some (first.getD sector)) done s
    | (some d, s) =>
      match first with
      | none => readLoop e n (sector + 1) none (done ++ [d]) s
      | some first =>
        match s.readRun e first sector with
        | (none, s) => (none, s)
        | (some got, s) => readLoop e n (sector + 1) none (done ++ got ++ [d]) s

/-- ReadSectors -/
def readSectors (e : CacheEnv) (nsects lsect : Nat) (s : SectorCache α) :
    Option (List α) × SectorCache α := s.readLoop e nsects lsect none []

/-- WriteSectors.  It does not look at what `CacheSector` answers. -/
def writeSectors (e : CacheEnv) (lsect : Nat) (data : List α) (area : Nat) (s : SectorCache α) :
    Bool × SectorCache α :=
  if s.readOnly then (false, s) else (true, s.cacheSectors e true area lsect data)

/-- WriteBackCache, over the blocks from the front. -/
def writeBackFrom (e : CacheEnv) : List Nat → SectorCache α → Bool × SectorCache α
  | [], s => (true, s)
  | block :: rest, s =>
    if s.dirtyField block then
      match s.makeBlockClean e block with
      | (true, s) => writeBackFrom e rest s
      | (false, s) => (false, s)
    else writeBackFrom e rest s

/-- CommitCache -/
def commitCache (e : CacheEnv) (s : SectorCache α) : Bool × SectorCache α :=
  if s.cacheActive then s.writeBackFrom e (List.range s.numberOfPhysicalBlocks) else (false, s)

end SectorCache

/-- The calls. -/
inductive CacheOp (α : Type) where
  | read (nsects lsect : Nat)
  | write (lsect : Nat) (data : List α) (area : Nat)
  | lock
  | unlock
  | commit

/-- What a call answers. -/
inductive CacheAnswer (α : Type) where
  | read (data : Option (List α))
  | done (ok : Bool)
  deriving DecidableEq

/-- A call, with what is answered in it. -/
def cacheStep (s : SectorCache α) (op : CacheOp α × CacheEnv) : CacheAnswer α × SectorCache α :=
  let s := { s with ticks := 0 }
  match op.1 with
  | .read nsects lsect =>
    let (got, s) := s.readSectors op.2 nsects lsect
    (.read got, s)
  | .write lsect data area =>
    let (ok, s) := s.writeSectors op.2 lsect data area
    (.done ok, s)
  | .lock => (.done true, { s with cacheLocked := true })
  | .unlock => (.done true, { s with cacheLocked := false })
  | .commit =>
    let (ok, s) := s.commitCache op.2
    (.done ok, s)

end SdcBoot.Defrag
