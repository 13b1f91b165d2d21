/-
# LOADHIGH and LOADFIX (`loadhigh.c`)

`lh_lf` finds the regions of upper memory, reads the options, takes the memory the program must not
use and runs the program.  `loadhigh_prepare` allocates every free block of every region and frees
those the program may use; `loadfix_prepare` allocates what lies below 1000:0000.  At the end the
blocks in `block` are freed.

DOS is a parameter: what can be read of the MCBs, and its calls, with the set of blocks the shell
owns; `Dos.Lawful` is what is documented of them.  An index that is outside of an array of 64
regions or 256 blocks is noted.  A walk over the MCBs that does not end within `fuel` rounds has no
result.
-/
import Mathlib.Data.List.Basic

namespace SdcBoot.FreeCom

/-! ## 1. DOS -/

/-- struct MCB. -/
structure McbView where
  mcbType : Char
  ownerPSP : Nat
  size : Nat
  name : List Char
  deriving DecidableEq

/-- The memory of DOS, as a program can read and change it. -/
structure Dos (M : Type) where
  mcb : M → Nat → McbView
  firstMcb : M → Nat
  alloc : M → Nat → Nat × M
  resize : M → Nat → Nat → M
  free : M → Nat → Bool × M
  getUMBLinkState : M → Nat
  setUMBLinkState : M → Nat → M
  getAllocStrategy : M → Nat
  setAllocStrategy : M → Nat → M
  /-- moves the transient portion of the shell, where that is compiled in -/
  relocate : M → M
  exec : M → M
  owns : M → Nat → Prop

variable {M : Type}

/-- What DOS promises: a block that is given is new, a block that is freed is gone, no program has
0xffff paragraphs, and no other call changes what the shell owns. -/
structure Dos.Lawful (D : Dos M) : Prop where
  alloc_zero : ∀ m n, (D.alloc m n).1 = 0 → ∀ b, D.owns (D.alloc m n).2 b ↔ D.owns m b
  alloc_new : ∀ m n, (D.alloc m n).1 ≠ 0 → ¬ D.owns m (D.alloc m n).1 ∧
    ∀ b, D.owns (D.alloc m n).2 b ↔ D.owns m b ∨ b = (D.alloc m n).1
  alloc_all : ∀ m, (D.alloc m 0xffff).1 = 0
  resize : ∀ m b n c, D.owns (D.resize m b n) c ↔ D.owns m c
  free_done : ∀ m b, (D.free m b).1 = true → ∀ c, D.owns (D.free m b).2 c ↔ D.owns m c ∧ c ≠ b
  free_failed : ∀ m b, (D.free m b).1 = false → ∀ c, D.owns (D.free m b).2 c ↔ D.owns m c
  setLink : ∀ m n b, D.owns (D.setUMBLinkState m n) b ↔ D.owns m b
  setStrategy : ∀ m n b, D.owns (D.setAllocStrategy m n) b ↔ D.owns m b
  relocate : ∀ m b, D.owns (D.relocate m) b ↔ D.owns m b
  exec : ∀ m b, D.owns (D.exec m) b ↔ D.owns m b
  getLink_setLink : ∀ m n, D.getUMBLinkState (D.setUMBLinkState m n) = n
  getLink_setStrategy : ∀ m n, D.getUMBLinkState (D.setAllocStrategy m n) = D.getUMBLinkState m
  getStrategy_setStrategy : ∀ m n, D.getAllocStrategy (D.setAllocStrategy m n) = n

/-- The codes that `lh_lf` returns, besides the result of the program. -/
inductive LhCode where
  | ok
  | silent
  | fileNotFound
  | mcbChain
  | outOfMemory
  | invalidParms
  deriving DecidableEq

/-! ## 2. The regions -/

/-- struct UMBREGION. -/
structure UmbRegion where
  start : Nat
  stop : Nat
  minSize : Nat
  access : Bool
  deriving DecidableEq

section

variable (D : Dos M)

/-- mcbNext -/
def mcbNext (m : M) (seg : Nat) : Nat := (seg + (D.mcb m seg).size + 1) % 0x10000

/-- The segment before, as a word. -/
def segBefore (seg : Nat) : Nat := (seg + 0xffff) % 0x10000

/-- A block that is marked as a hole. -/
def isHole (m : M) (seg : Nat) : Bool :=
  (D.mcb m seg).ownerPSP == 8 && (D.mcb m seg).name.take 2 == ['S', 'C']

/-- The last block of conventional memory. -/
def lastMcb (m : M) : Nat → Nat → Option Nat
  | 0, _ => none
  | fuel + 1, seg =>
    if (D.mcb m seg).mcbType = 'M' then lastMcb m fuel (mcbNext D m seg) else some seg

/-- The search for regions: the block it is at, the start of the region that is open, 0 if none, and
the regions found. -/
structure RegionScan where
  seg : Nat
  start : Nat
  found : List UmbRegion
  outside : Bool
  deriving DecidableEq

/-- `region->end` is set, and the next region is begun at once. -/
def RegionScan.close (s : RegionScan) (start stop : Nat) : RegionScan :=
  { s with
    start := 0
    found := s.found ++ [⟨start, stop, 0, false⟩]
    outside := s.outside || decide (64 ≤ s.found.length + 1) }

/-- The special MCB before the block. -/
def umbMcb (m : M) (seg : Nat) : Option McbView :=
  let umb := D.mcb m (segBefore seg)
  if (umb.mcbType = 'Z' ∨ umb.mcbType = 'M') ∧ umb.name = "UMB     ".toList then some umb else none

/-- The loop over upper memory.  The inner result is false where the chain is broken. -/
def scanUpper (m : M) : Nat → RegionScan → Option (Bool × RegionScan)
  | 0, _ => none
  | fuel + 1, s =>
    let sig := (D.mcb m s.seg).mcbType
    -- the end of a round that has not left the loop by itself
    let finish (s : RegionScan) : Option (Bool × RegionScan) :=
      if sig = 'Z' then
        some (true, { s with
          found := s.found ++ [⟨s.start, (s.seg + (D.mcb m s.seg).size) % 0x10000, 0, false⟩] })
      else if sig = 'M' then scanUpper m fuel { s with seg := mcbNext D m s.seg }
      else some (false, s)
    if isHole D m s.seg then
      finish (if s.start ≠ 0 then s.close s.start (segBefore s.seg) else s)
    else
      match umbMcb D m s.seg with
      | some umb =>
        let stop := segBefore (umb.ownerPSP + umb.size)
        let s := s.close umb.ownerPSP (if umb.mcbType = 'M' then segBefore stop else stop)
        let s := { s with seg := (segBefore s.seg + umb.size) % 0x10000 }
        if umb.mcbType = 'Z' then some (true, s) else scanUpper m fuel s
      | none => finish (if s.start = 0 then { s with start := s.seg } else s)

/-- findUMBRegions -/
def findUMBRegions (fuel : Nat) (m : M) : Option (LhCode × RegionScan × M) :=
  let first := D.firstMcb m
  let m := D.setUMBLinkState m 0
  match lastMcb D m fuel first with
  | none => none
  | some seg =>
    if (D.mcb m seg).mcbType ≠ 'Z' then some (.mcbChain, ⟨seg, 0, [], false⟩, m)
    else
      let stop := if isHole D m seg then segBefore seg else (seg + (D.mcb m seg).size) % 0x10000
      let s : RegionScan := ⟨seg, 0, [⟨first, stop, 0, false⟩], false⟩
      let m := D.setUMBLinkState m 1
      let all (s : RegionScan) : RegionScan :=
        { s with found := s.found.map fun r => { r with access := true, minSize := 0xffff } }
      if (D.mcb m seg).mcbType = 'M' then
        match scanUpper D m fuel { s with seg := mcbNext D m seg } with
        | none => none
        | some (false, s) => some (.mcbChain, s, m)
        | some (true, s) => some (.ok, all s, m)
      else some (.ok, all s, m)

/-! ## 3. The options -/

/-- strtol with base 10: the value, and what is left. -/
def strtol (s : List Char) : Int × List Char :=
  let t := s.dropWhile fun c => c == ' ' || (decide (9 ≤ c.toNat) && decide (c.toNat ≤ 13))
  let negative := t.head? = some '-'
  let u := if t.head? = some '-' ∨ t.head? = some '+' then t.drop 1 else t
  let digits := u.takeWhile Char.isDigit
  if digits = [] then (0, s)
  else
    let value : Int := digits.foldl (fun n c => n * 10 + (c.toNat - 48 : Nat)) 0
    let value := if negative then -value else value
    (max (-2147483648) (min 2147483647 value), u.dropWhile Char.isDigit)

/-- A long is made an int of 16 bits. -/
def toInt16 (n : Int) : Int := (n + 0x8000) % 0x10000 - 0x8000

/-- One `region[,size]` of the string of /L: the number, the size, and what is left. -/
def regionArg (c : List Char) : Int × Nat × List Char :=
  let (number, c) := strtol c
  match c with
  | ',' :: rest =>
    let (larg, c) := strtol rest
    let minSize := if larg ≠ -1 then ((larg + 0xf) / 16 % 0x10000).toNat else 0xffff
    (toInt16 number, minSize, c)
  | _ => (toInt16 number, 0xffff, c)

/-- What the string of /L has been found to say. -/
structure RegionChoice where
  regions : List UmbRegion
  upper : Bool
  outside : Bool
  deriving DecidableEq

/-- What follows a semicolon, if there is one. -/
def afterSemicolon : List Char → Option (List Char)
  | ';' :: rest => some rest
  | _ => none

/-- The loop over the string of /L; `r` regions have been taken.  Every round takes a character. -/
def chooseRegions : Nat → Nat → List Char → RegionChoice → List Char × RegionChoice
  | 0, _, c, s => (c, s)
  | fuel + 1, r, c, s =>
    let (number, minSize, rest) := regionArg c
    -- the region is in use, or it is not there
    let (r, s) :=
      if number ≥ s.regions.length then (r, s)
      else
        (r + 1, { s with
          upper := if r = 0 ∧ number = 0 then false else s.upper
          outside := s.outside || decide (number < 0)
          regions := if number < 0 then s.regions
            else s.regions.modify number.toNat fun x => { x with minSize := minSize, access := true } })
    match afterSemicolon rest with
    | some next => chooseRegions fuel r next s
    | none => (rest, s)

/-- The options as `leadOptions` has found them, and the command line behind them. -/
structure LhOptions where
  optS : Bool
  optL : Option (List Char)
  cmdline : List Char
  deriving DecidableEq

/-- The part of `parseArgs` about /L: what is left of its string, and the regions.  All regions of
upper memory that are not listed are disabled. -/
def parseL (optL : Option (List Char)) (regions : List UmbRegion) : List Char × RegionChoice :=
  match optL with
  | none => ([], ⟨regions, true, false⟩)
  | some c =>
    let off := regions.mapIdx fun i (x : UmbRegion) => if 1 ≤ i then { x with access := false } else x
    chooseRegions (c.length + 1) 0 c ⟨off, true, false⟩

/-- What `parseArgs` returns, where `left` is left of the string of /L. -/
def argsCode (o : LhOptions) (left : List Char) (unquote : Bool) : LhCode :=
  if o.cmdline = [] ∨ left ≠ [] then .invalidParms
  else if o.optS ∧ o.optL.isNone then .invalidParms
  else if unquote then .ok
  else .outOfMemory

/-- parseArgs.  `unquote` says whether there was memory for the file name. -/
def parseArgs (opts : Option LhOptions) (unquote : Bool) (regions : List UmbRegion) :
    LhCode × RegionChoice :=
  match opts with
  | none => (.silent, ⟨regions, true, false⟩)
  | some o => (argsCode o (parseL o.optL regions).1 unquote, (parseL o.optL regions).2)

/-! ## 4. Taking the memory -/

/-- The blocks that are taken: those the program must not use, and those it may. -/
structure Taken (M : Type) where
  mem : M
  block : List Nat
  avail : List Nat
  outside : Bool

/-- `block[allocatedBlocks++] = bl` -/
def Taken.toBlock (s : Taken M) (bl : Nat) : Taken M :=
  { s with block := s.block ++ [bl], outside := s.outside || decide (256 ≤ s.block.length) }

/-- `availBlock[availBlocks++] = bl`, and the blocks of this region that were found too small. -/
def Taken.toAvail (s : Taken M) (bl : Nat) (optS : Bool) (startBlock : Nat) (minSize : Nat) :
    Taken M :=
  let s := { s with avail := s.avail ++ [bl], outside := s.outside || decide (256 ≤ s.avail.length) }
  if optS then { s with mem := D.resize s.mem bl minSize }
  else
    { s with
      avail := s.avail ++ s.block.drop startBlock
      outside := s.outside || decide (256 < s.avail.length + (s.block.drop startBlock).length)
      block := s.block.take startBlock }

/-- A region may be used with a block of this size, where one was found before or not. -/
def usable (region : UmbRegion) (optS found : Bool) (size : Nat) : Bool :=
  region.access && (region.minSize == 0xffff || (!optS && found) ||
    (!(optS && found) && decide (region.minSize ≤ size)))

/-- The loop over the blocks of a region.  The inner result is false where DOS gives another block
than the one that was met. -/
def walkRegion (optS : Bool) (region : UmbRegion) (startBlock : Nat) :
    Nat → Nat → Bool → Taken M → Option (Bool × Taken M)
  | 0, _, _, _ => none
  | fuel + 1, seg, found, s =>
    if seg < region.stop ∧ (D.mcb s.mem seg).mcbType = 'M' then
      if (D.mcb s.mem seg).ownerPSP = 0 then
        let bl := (D.alloc s.mem (D.mcb s.mem seg).size).1
        let s := { s with mem := (D.alloc s.mem (D.mcb s.mem seg).size).2 }
        if bl ≠ seg + 1 then some (false, s)
        else if usable region optS found (D.mcb s.mem seg).size then
          let s := s.toAvail D bl optS startBlock region.minSize
          walkRegion optS region startBlock fuel (mcbNext D s.mem seg) true s
        else
          let s := s.toBlock bl
          walkRegion optS region startBlock fuel (mcbNext D s.mem seg) found s
      else walkRegion optS region startBlock fuel (mcbNext D s.mem seg) found s
    else some (true, s)

/-- The loop over the regions. -/
def walkRegions (fuel : Nat) (optS : Bool) : List UmbRegion → Taken M → Option (Bool × Taken M)
  | [], s => some (true, s)
  | region :: rest, s =>
    match walkRegion D optS region s.block.length fuel region.start false s with
    | none => none
    | some (false, s) => some (false, s)
    | some (true, s) => walkRegions fuel optS rest s

/-- Blocks are freed one after the other; the result says whether every call succeeded. -/
def freeAll : List Nat → M → Bool × M
  | [], m => (true, m)
  | b :: bs, m =>
    let (ok, m) := D.free m b
    let (oks, m) := freeAll bs m
    (ok && oks, m)

/-- loadhigh_prepare.  The second result says whether what was freed is gone. -/
def loadhighPrepare (fuel : Nat) (availMemory optS upper : Bool) (regions : List UmbRegion)
    (m : M) : Option (LhCode × Bool × Taken M) :=
  let m := D.setAllocStrategy (D.setUMBLinkState m 1) 0
  if availMemory then
    -- let DOS catenate successive free blocks
    let m := (D.alloc m 0xffff).2
    match walkRegions D fuel optS regions ⟨m, [], [], false⟩ with
    | none => none
    | some (false, s) => some (.mcbChain, true, s)
    | some (true, s) =>
      let (freed, m) := freeAll D s.avail s.mem
      some (.ok, freed, { s with mem := D.setAllocStrategy m (if upper then 0x80 else 0), avail := [] })
  else some (.outOfMemory, true, ⟨m, [], [], false⟩)

/-- The loop of `loadfix_prepare`, to the block that lies at 1000:0000 or above. -/
def loadfixLoop : Nat → Taken M → Option (Bool × Taken M)
  | 0, _ => none
  | fuel + 1, s =>
    let bl := (D.alloc s.mem 1).1
    let s := { s with mem := (D.alloc s.mem 1).2 }
    if bl = 0 then some (true, s)
    else if 0x1000 ≤ bl then
      some ((D.free s.mem bl).1, { s with mem := (D.free s.mem bl).2 })
    else
      let s := { s with mem := D.resize s.mem bl (0x1000 - bl) }
      loadfixLoop fuel (s.toBlock bl)

/-- loadfix_prepare.  There are fewer than 0x1000 blocks to be had. -/
def loadfixPrepare (m : M) : Option (LhCode × Bool × Taken M) :=
  let oldStrat := D.getAllocStrategy m
  match loadfixLoop D 0x1001 ⟨D.setAllocStrategy m 0, [], [], false⟩ with
  | none => none
  | some (freed, s) => some (.ok, freed, { s with mem := D.setAllocStrategy s.mem oldStrat })

/-! ## 5. lh_lf -/

/-- What `lh_lf` meets besides DOS: memory for the arrays and for the name, and the file. -/
structure LhEnv where
  regionMemory : Bool
  blockMemory : Bool
  unquote : Bool
  fileFound : Bool
  availMemory : Bool
  deriving DecidableEq

/-- What `lh_lf` leaves: its code, the memory, whether every `DOSfree` succeeded, and whether an
index was outside of an array. -/
structure LhResult (M : Type) where
  code : LhCode
  mem : M
  freed : Bool
  outside : Bool

/-- Clean Up. -/
def cleanUp (oldLink oldStrat : Nat) (code : LhCode) (freed outside : Bool) (s : Taken M) :
    LhResult M :=
  let (ok, m) := freeAll D s.block s.mem
  ⟨code, D.setAllocStrategy (D.setUMBLinkState m oldLink) oldStrat, freed && ok,
    outside || s.outside⟩

/-- Nothing has been taken yet. -/
def Taken.none (m : M) : Taken M := ⟨m, [], [], false⟩

/-- What the program must not use is taken. -/
def lhPrepare (fuel : Nat) (env : LhEnv) (loadfix optS : Bool) (choice : RegionChoice) (m : M) :
    Option (LhCode × Bool × Taken M) :=
  if loadfix then loadfixPrepare D m
  else loadhighPrepare D fuel env.availMemory optS choice.upper choice.regions m

/-- The options that the command takes: LOADFIX has none. -/
def lhOptions (loadfix : Bool) (opts : Option LhOptions) : Option LhOptions :=
  if loadfix then opts.map fun o => { o with optS := false, optL := none } else opts

/-- From where the regions are known. -/
def lhRun (fuel : Nat) (env : LhEnv) (loadfix : Bool) (opts : Option LhOptions)
    (oldLink oldStrat : Nat) (scan : RegionScan) (m : M) : Option (LhResult M) :=
  let opts := lhOptions loadfix opts
  let (code, choice) := parseArgs opts env.unquote scan.found
  let outside := scan.outside || choice.outside
  if code ≠ .ok then some (cleanUp D oldLink oldStrat code true outside (Taken.none m))
  else if ¬env.fileFound then
    some (cleanUp D oldLink oldStrat .fileNotFound true outside (Taken.none m))
  else
    match lhPrepare D fuel env loadfix ((opts.map LhOptions.optS).getD false) choice m with
    | none => none
    | some (code, freed, s) =>
      let s := if code = .ok then { s with mem := D.exec s.mem } else s
      some (cleanUp D oldLink oldStrat code freed outside s)

/-- lh_lf -/
def lhLf (fuel : Nat) (env : LhEnv) (loadfix : Bool) (opts : Option LhOptions) (m : M) :
    Option (LhResult M) :=
  let oldLink := D.getUMBLinkState m
  let oldStrat := D.getAllocStrategy m
  if env.regionMemory ∧ env.blockMemory then
    match findUMBRegions D fuel (D.relocate m) with
    | none => none
    | some (code, scan, m) =>
      if code = .ok then lhRun D fuel env loadfix opts oldLink oldStrat scan m
      else some (cleanUp D oldLink oldStrat code true scan.outside (Taken.none m))
  else some (cleanUp D oldLink oldStrat .outOfMemory true false (Taken.none m))

end

end SdcBoot.FreeCom
