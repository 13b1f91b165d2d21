/-
# The memory arena: `kernel/memmgr.c`

DOS memory is a chain of blocks of 16 byte paragraphs.  Each begins with a memory control block
(MCB) of one paragraph: a type byte (`MCB_NORMAL`, or `MCB_LAST` for the final one), the owner's PSP
segment (0 if free) and the number of paragraphs that follow.  The next MCB is found by segment
arithmetic in 16 bits, so the memory is modelled as what each segment holds when it is read as an
MCB, and every sum that is stored is taken modulo `2 ^ 16`.  A far pointer to an MCB is its segment,
with 0 for the null pointer.  The owner's name in an MCB is never read here and is left out.

The loops follow the chain until it ends.  Each takes a fuel argument and answers `none` if
that runs out; `Memory/Chain.lean` proves that on a well-formed chain it never does.
-/
import SdcBoot.Lib.Tiling

namespace SdcBoot.Memory

/-! ## 1. Control blocks -/

/-- `mcb`. -/
structure Mcb where
  mType : Nat
  mPsp : Nat
  mSize : Nat
  deriving DecidableEq

def MCB_NORMAL : Nat := 0x4d
def MCB_LAST : Nat := 0x5a
def FREE_PSP : Nat := 0

def SUCCESS : Int := 0
def DE_MCBDESTRY : Int := -7
def DE_NOMEM : Int := -8
def DE_INVLDMCB : Int := -9

/-- Allocation modes; `LARGEST` is -1 as a 16 bit word. -/
def LARGEST : Nat := 0xffff

/-- `mcbFree`. -/
def Mcb.free (b : Mcb) : Bool := b.mPsp == FREE_PSP

/-- `mcbFreeable`. -/
def Mcb.freeable (b : Mcb) : Bool := b.mType == MCB_NORMAL || b.mType == MCB_LAST

/-- `mcbValid`. -/
def Mcb.valid (b : Mcb) : Bool := b.mSize != 0xffff && b.freeable

/-- The kernel variables `memmgr.c` works on. -/
structure Arena where
  mem : Nat → Mcb
  firstMcb : Nat
  uppermemLink : Nat
  uppermemRoot : Nat
  memAccessMode : Nat

def nxtMCBsize (seg size : Nat) : Nat := (seg + size + 1) % 0x10000

def nxtMCB (m : Nat → Mcb) (seg : Nat) : Nat := nxtMCBsize seg (m seg).mSize

/-- A store to the MCB at `seg`. -/
def put (m : Nat → Mcb) (seg : Nat) (b : Mcb) : Nat → Mcb := Function.update m seg b

/-- How many iterations a walk of the chain may take: one for each paragraph. -/
def walkFuel : Nat := 0x10000

/-! ## 2. `joinMCBs` -/

/-- Join any following unused MCBs to the one at `p`. -/
def joinMCBs : Nat → (Nat → Mcb) → Nat → Option (Int × (Nat → Mcb))
  | 0, _, _ => none
  | fuel + 1, m, p =>
    if (m p).mType = MCB_NORMAL then
      let q := nxtMCB m p
      if !(m q).free then some (SUCCESS, m)
      else if !(m q).valid then some (DE_MCBDESTRY, m)
      else
        let m := put m p
          { m p with mType := (m q).mType, mSize := ((m p).mSize + (m q).mSize + 1) % 0x10000 }
        joinMCBs fuel (put m q { m q with mSize := 0xffff }) p
    else some (SUCCESS, m)

/-! ## 3. `DosMemAlloc` -/

def isFirstFit (mode : Nat) : Bool := mode == 0 || mode == 0x40 || mode == 0x80
def isBestFit (mode : Nat) : Bool := mode == 1 || mode == 0x41 || mode == 0x81
def isLastFit (mode : Nat) : Bool := mode == 2 || mode == 0x42 || mode == 0x82

/-- The search starts in upper memory: it is linked, and the mode (for `LARGEST` of everything,
the access mode) has one of the upper memory bits. -/
def Arena.startsHigh (a : Arena) (size mode : Nat) : Bool :=
  a.uppermemLink % 2 == 1 && a.uppermemRoot != 0xffff &&
    ((mode != LARGEST || size == 0xffff) &&
      (if mode == LARGEST then a.memAccessMode else mode) &&& 0xc0 != 0)

/-- How the search loop ends. -/
inductive Search where
  | destroyed (m : Nat → Mcb)
  | stopIt (m : Nat → Mcb) (foundSeg : Nat)
  | ended (m : Nat → Mcb) (biggestSeg foundSeg : Nat)

/-- The `FOREVER` loop of `DosMemAlloc`.  `default` behaves like the last-fit modes here. -/
def search (size mode : Nat) : Nat → (Nat → Mcb) → Nat → Nat → Nat → Option Search
  | 0, _, _, _, _ => none
  | fuel + 1, m, p, biggestSeg, foundSeg =>
    if !(m p).valid then some (.destroyed m)
    else if (m p).free then
      match joinMCBs walkFuel m p with
      | none => none
      | some (rc, m) =>
        if rc ≠ SUCCESS then some (.destroyed m)
        else
          let biggestSeg :=
            if biggestSeg = 0 ∨ (m biggestSeg).mSize < (m p).mSize then p else biggestSeg
          if (m p).mSize ≥ size ∧ isFirstFit mode then some (.stopIt m p)
          else
            let foundSeg :=
              if (m p).mSize ≥ size then
                if mode = LARGEST then foundSeg
                else if isBestFit mode then
                  if foundSeg = 0 ∨ (m foundSeg).mSize > (m p).mSize then p else foundSeg
                else p
              else foundSeg
            if (m p).mType = MCB_LAST then some (.ended m biggestSeg foundSeg)
            else search size mode fuel m (nxtMCB m p) biggestSeg foundSeg
    else if (m p).mType = MCB_LAST then some (.ended m biggestSeg foundSeg)
    else search size mode fuel m (nxtMCB m p) biggestSeg foundSeg

/-- What `DosMemAlloc` answers: its return code, and the out parameters it assigned. -/
structure AllocAns where
  rc : Int
  para : Option Nat
  asize : Option Nat
  deriving DecidableEq

/-- From `stopIt` on: split the found block unless it fits exactly (or the largest is taken),
and give it to the current process. -/
def takeBlock (m : Nat → Mcb) (cuPsp size mode foundSeg : Nat) : Nat × (Nat → Mcb) :=
  if mode ≠ LARGEST ∧ size ≠ (m foundSeg).mSize then
    if isLastFit mode then
      -- allocate from the end of the found block
      let p := foundSeg
      let b := m p
      let rest := (b.mSize + 0x10000 - (size + 1)) % 0x10000
      let m := put m p ⟨MCB_NORMAL, FREE_PSP, rest⟩
      let foundSeg := nxtMCBsize p rest
      (foundSeg, put m foundSeg ⟨b.mType, cuPsp, size⟩)
    else
      -- all other modes allocate from the beginning
      let p := nxtMCBsize foundSeg size
      let b := m foundSeg
      let m := put m p ⟨b.mType, FREE_PSP, (b.mSize + 0x10000 - size - 1) % 0x10000⟩
      (foundSeg, put m foundSeg ⟨MCB_NORMAL, cuPsp, size⟩)
  else (foundSeg, put m foundSeg { m foundSeg with mPsp := cuPsp })

/-- `DosMemAlloc`.  `passes` bounds the jumps to `searchAgain`, of which there is at most one:
it clears the mode bit that leads to it. -/
def allocPasses (cuPsp size : Nat) : Nat → Nat → Arena → Option (AllocAns × Arena)
  | 0, _, _ => none
  | passes + 1, mode, a =>
    let p := if a.startsHigh size mode then a.uppermemRoot else a.firstMcb
    match search size mode walkFuel a.mem p 0 0 with
    | none => none
    | some (.destroyed m) => some (⟨DE_MCBDESTRY, none, none⟩, { a with mem := m })
    | some (.stopIt m foundSeg) =>
      let (para, m) := takeBlock m cuPsp size mode foundSeg
      some (⟨SUCCESS, some para, none⟩, { a with mem := m })
    | some (.ended m biggestSeg foundSeg) =>
      let largest := mode = LARGEST ∧ biggestSeg ≠ 0 ∧ (m biggestSeg).mSize ≥ size
      let foundSeg := if largest then biggestSeg else foundSeg
      let asize := if largest then some (m biggestSeg).mSize else none
      if foundSeg = 0 ∨ (m foundSeg).mSize = 0 then
        if mode ≠ LARGEST ∧ mode &&& 0x80 ≠ 0 ∧ a.uppermemLink % 2 = 1 ∧
            a.uppermemRoot ≠ 0xffff then
          allocPasses cuPsp size passes (mode &&& 0xff7f) { a with mem := m }
        else
          some (⟨DE_NOMEM, none, some (if biggestSeg = 0 then 0 else (m biggestSeg).mSize)⟩,
            { a with mem := m })
      else
        let (para, m) := takeBlock m cuPsp size mode foundSeg
        some (⟨SUCCESS, some para, asize⟩, { a with mem := m })

@[inherit_doc allocPasses]
def dosMemAlloc (a : Arena) (cuPsp size mode : Nat) : Option (AllocAns × Arena) :=
  allocPasses cuPsp size 2 mode a

/-! ## 4. `DosMemFree` and `DosMemChange` -/

/-- `DosMemFree`: `para` is the segment of the MCB itself. -/
def dosMemFree (a : Arena) (para : Nat) : Int × Arena :=
  if para = 0 then (DE_INVLDMCB, a)
  else if !(a.mem para).freeable then (DE_INVLDMCB, a)
  else (SUCCESS, { a with mem := put a.mem para { a.mem para with mPsp := FREE_PSP } })

/-- The part of `DosMemChange` that cuts a block down to `size`, frees the remainder and joins
it with what is free behind it. -/
def shrinkBlock (m : Nat → Mcb) (p size : Nat) : Option (Int × (Nat → Mcb)) :=
  let q := nxtMCBsize p size
  let b := m p
  let m := put m q ⟨b.mType, FREE_PSP, (b.mSize + 0x10000 - size - 1) % 0x10000⟩
  joinMCBs walkFuel (put m p ⟨MCB_NORMAL, b.mPsp, size⟩) q

/-- The end of `DosMemChange`: shrink if the block is now larger than asked, then take it. -/
def resizeTo (a : Arena) (m : Nat → Mcb) (cuPsp p size : Nat) :
    Option ((Int × Option Nat) × Arena) :=
  if size < (m p).mSize then
    match shrinkBlock m p size with
    | none => none
    | some (rc, m) =>
      if rc ≠ SUCCESS then some ((DE_MCBDESTRY, none), { a with mem := m })
      else some ((SUCCESS, none), { a with mem := put m p { m p with mPsp := cuPsp } })
  else some ((SUCCESS, none), { a with mem := put m p { m p with mPsp := cuPsp } })

/-- `DosMemChange`: `para` is the segment of the data.  A block that cannot grow enough keeps
what it could join, and `maxSize` is assigned. -/
def dosMemChange (a : Arena) (cuPsp para size : Nat) : Option ((Int × Option Nat) × Arena) :=
  let p := (para + 0xffff) % 0x10000
  if !(a.mem p).valid then some ((DE_MCBDESTRY, none), a)
  else if size > (a.mem p).mSize then
    match joinMCBs walkFuel a.mem p with
    | none => none
    | some (rc, m) =>
      if rc ≠ SUCCESS then some ((DE_MCBDESTRY, none), { a with mem := m })
      else if size > (m p).mSize then
        some ((DE_NOMEM, some (m p).mSize), { a with mem := m })
      else resizeTo a m cuPsp p size
  else resizeTo a a.mem cuPsp p size

end SdcBoot.Memory
