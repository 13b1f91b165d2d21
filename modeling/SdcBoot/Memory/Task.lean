/-
# Loading a program: `kernel/task.c`

A program gets two blocks of memory: one for its environment, filled by `ChildEnv` with a copy of
the parent's strings and the path of the program, and one for the program itself.  For an EXE file
the size of the second is computed from the header, in 16 bit paragraphs throughout
(`DosExeLoader`), tried against the largest free block (`ExecMemLargest`) and allocated
(`ExecMemAlloc`); then the image is read into it.

This file has the functions as the code computes them.  Stores to the environment block and reads
of the image are recorded with the place they go to.  `DosRWSft` and `SftSeek` answer as they may.
-/
import SdcBoot.Memory.Use
import SdcBoot.Kernel.Truename

namespace SdcBoot.Memory

open Lib Kernel.Truename

/-! ## 1. The environment -/

def MAXENV : Nat := 32768
def ENV_KEEPFREE : Nat := 83
def DE_INVLDDATA : Int := -13
def DE_INVLDENV : Int := -10

/-- The loop that measures the parent's environment, from `n` on: where the first word of 0 is, if
it comes early enough. -/
def measureEnv (pSrc : Nat → UInt8) : Nat → Nat → Option Nat
  | 0, _ => none
  | fuel + 1, n =>
    if n ≥ MAXENV - ENV_KEEPFREE then none
    else if pSrc n = 0 ∧ pSrc (n + 1) = 0 then some n
    else measureEnv pSrc fuel (n + 1)

/-- `nEnvSize`: one byte when there is no environment, else the strings and two bytes of 0. -/
def nEnvSize : Option (Nat → UInt8) → Option Nat
  | none => some 1
  | some pSrc => (measureEnv pSrc (MAXENV - ENV_KEEPFREE) 0).map (· + 2)

/-- A store to the new environment: the offset in its segment, and the bytes. -/
structure EnvStore where
  offset : Nat
  bytes : List UInt8
  deriving DecidableEq

/-- What `ChildEnv` leaves: its return code, the MCB of the new environment, what it stored there,
and the arena. -/
structure EnvResult where
  rc : Int
  childEnvSeg : Option Nat
  stores : List EnvStore
  arena : Arena

/-- The paragraphs `ChildEnv` asks for. -/
def envParas (n : Nat) : Nat := (n + ENV_KEEPFREE + 15) / 16

/-- What is copied: the parent's strings, or an empty environment. -/
def copiedEnv (n : Nat) : Option (Nat → UInt8) → List UInt8
  | none => [0]
  | some pSrc => (List.range n).map pSrc

/-- **`ChildEnv`**: `pSrc` is the parent's environment, `name` what `truename` makes of the name
of the program.  The access mode is a byte. -/
def childEnv (a : Arena) (cuPsp : Nat) (pSrc : Option (Nat → UInt8)) (name : Except Int Path) :
    Option EnvResult :=
  match nEnvSize pSrc with
  | none => some ⟨DE_INVLDENV, none, [], a⟩
  | some n =>
    match dosMemAlloc a cuPsp (envParas n) (a.memAccessMode % 0x100) with
    | none => none
    | some (ans, a) =>
      if ans.rc < 0 then some ⟨ans.rc, none, [], a⟩
      else
        let stores : List EnvStore := [⟨0, copiedEnv n pSrc⟩, ⟨n, [1, 0]⟩]
        match name with
        | .error rc => some ⟨rc, ans.para, stores, a⟩
        | .ok path => some ⟨SUCCESS, ans.para, stores ++ [⟨n + 2, path ++ [0]⟩], a⟩

/-! ## 2. Memory for the program -/

/-- `DosMemLargest`. -/
def dosMemLargest (a : Arena) (cuPsp : Nat) : Option (Int × Nat × Arena) :=
  match dosMemAlloc a cuPsp 0xffff LARGEST with
  | none => none
  | some (ans, a) =>
    let size := ans.asize.getD 0
    if a.memAccessMode &&& 0x80 ≠ 0 then
      match dosMemAlloc { a with memAccessMode := a.memAccessMode &&& 0xff7f } cuPsp 0xffff LARGEST
          with
      | none => none
      | some (low, a') =>
        let lowsize := low.asize.getD 0
        let size := if lowsize > size then lowsize else size
        some (if size ≠ 0 then SUCCESS else DE_NOMEM, size,
          { a' with memAccessMode := a'.memAccessMode ||| 0x80 })
    else some (if size ≠ 0 then SUCCESS else DE_NOMEM, size, a)

/-- `ExecMemLargest`: how many paragraphs are available, trying high then low. -/
def execMemLargest (a : Arena) (cuPsp threshold : Nat) : Option (Int × Nat × Arena) :=
  let found :=
    if a.memAccessMode &&& 0x80 ≠ 0 then
      match dosMemLargest
          { a with memAccessMode := a.memAccessMode &&& 0xff7f ||| 0x40 } cuPsp with
      | none => none
      | some (rc, asize, a) =>
        let a := { a with memAccessMode := a.memAccessMode &&& 0xffbf }
        let r := if rc ≠ SUCCESS ∨ asize < threshold then dosMemLargest a cuPsp
          else some (rc, asize, a)
        r.map fun r => (r.1, r.2.1, { r.2.2 with memAccessMode := r.2.2.memAccessMode ||| 0x80 })
    else dosMemLargest a cuPsp
  found.map fun r => (if r.2.1 < threshold then DE_NOMEM else r.1, r.2.1, r.2.2)

/-- The second try of `ExecMemAlloc`: the largest block there is, first high, then low. -/
def allocLargest (a : Arena) (cuPsp : Nat) : Option (AllocAns × Arena) :=
  match dosMemAlloc a cuPsp 0 LARGEST with
  | none => none
  | some (ans, a) =>
    if a.memAccessMode &&& 0x80 ≠ 0 ∧ ans.rc ≠ SUCCESS then
      (dosMemAlloc { a with memAccessMode := a.memAccessMode &&& 0xff7f } cuPsp 0 LARGEST).map
        fun r => (r.1, { r.2 with memAccessMode := r.2.memAccessMode ||| 0x80 })
    else some (ans, a)

/-- `ExecMemAlloc`: the return code, the block, how large it is, and the arena. -/
def execMemAlloc (a : Arena) (cuPsp size : Nat) : Option (Int × Nat × Nat × Arena) :=
  match dosMemAlloc a cuPsp size (a.memAccessMode % 0x100) with
  | none => none
  | some (ans, a) =>
    let para := ans.para.getD 0
    let asize := ans.asize.getD 0
    if ans.rc = SUCCESS then some (SUCCESS, para, size, a)
    else if ans.rc ≠ DE_NOMEM then some (ans.rc, para, asize, a)
    else
      match allocLargest a cuPsp with
      | none => none
      | some (ans, a) =>
        let para := ans.para.getD para
        let asize := ans.asize.getD asize
        if ans.rc = SUCCESS ∧ asize < size then some (DE_NOMEM, para, asize, (dosMemFree a para).2)
        else some (ans.rc, para, asize, a)

/-! ## 3. `DosExeLoader` -/

/-- The words of the EXE header that decide where the image goes. -/
structure ExeHeader where
  exPages : UInt16
  exHeaderSize : UInt16
  exMinAlloc : UInt16
  exMaxAlloc : UInt16
  deriving DecidableEq

/-- `image_size` with the PSP, in a word. -/
def ExeHeader.imageSize (h : ExeHeader) : Nat :=
  ((h.exPages <<< 5) - h.exHeaderSize + 0x10).toNat

/-- `exe_size` as the least that will do. -/
def ExeHeader.leastSize (h : ExeHeader) : Nat := (h.imageSize + h.exMinAlloc.toNat) % 0x10000

/-- Neither a minimum nor a maximum: the image goes as high as possible. -/
def ExeHeader.loadsHigh (h : ExeHeader) : Bool := h.exMinAlloc.toNat ||| h.exMaxAlloc.toNat == 0

/-- `exe_size` as it is allocated, when `asize` paragraphs are available. -/
def ExeHeader.wantedSize (h : ExeHeader) (asize : Nat) : Nat :=
  let exeSize := (h.imageSize + h.exMaxAlloc.toNat) % 0x10000
  let exeSize := if exeSize > asize ∨ exeSize < h.imageSize then asize else exeSize
  if h.loadsHigh then asize else exeSize

/-- A `DosRWSft` of the image: the segment it reads to, and how many bytes. -/
structure Read where
  sp : Nat
  toRead : Nat
  deriving DecidableEq

/-- `CHUNK` in paragraphs. -/
def chunkParas : Nat := 32256 / 16

/-- `toRead`, with `exeSize` paragraphs to go. -/
def toRead (exeSize : Nat) : Nat := if exeSize < chunkParas then exeSize * 16 else chunkParas * 16

/-- The loop that reads the image in chunks; `nBytesRead` answers for each read, the first first. -/
def readImage (nBytesRead : Nat → Int) (exeSize sp : Nat) : List Read :=
  if nBytesRead 0 < toRead exeSize ∨ exeSize ≤ chunkParas then [⟨sp, toRead exeSize⟩]
  else ⟨sp, toRead exeSize⟩ ::
    readImage (fun k => nBytesRead (k + 1)) (exeSize - chunkParas) ((sp + chunkParas) % 0x10000)
termination_by exeSize
decreasing_by simp only [chunkParas] at *; omega

/-- An EXE program whose image was read: the MCB of its block, the segment the image begins at,
its paragraphs, and the arena. -/
structure Loaded where
  block : Nat
  startSeg : Nat
  paras : Nat
  arena : Arena

/-- The file, as the loader sees it. -/
structure ExeFile where
  header : ExeHeader
  seekOk : Bool
  nBytesRead : Nat → Int

/-- `exe_size` as it is read: the image without the PSP. -/
def ExeHeader.exeSize (h : ExeHeader) : Nat := (h.imageSize + 0x10000 - 0x10) % 0x10000

/-- `start_seg`, in the block whose MCB is at `mem`: behind the PSP, or as high as possible. -/
def startSegment (mem mSize : Nat) (h : ExeHeader) : Nat :=
  let startSeg := (mem + 1 + 0x10) % 0x10000
  if h.exeSize > 0 ∧ h.loadsHigh then (startSeg + mSize + 0x10000 - h.imageSize) % 0x10000
  else startSeg

/-- What a loader was called with. -/
structure ExecEnv where
  cuPsp : Nat
  pSrc : Option (Nat → UInt8)
  name : Except Int Path
  loadHigh : Bool
  /-- `env` before `ChildEnv` assigned it. -/
  env : Nat

/-- With `mode & 0x80`: link upper memory in, and prefer it. -/
def linkHigh (loadHigh : Bool) (a : Arena) : Option Arena :=
  if loadHigh then
    (dosUmbLink a 1).map fun a => { a with memAccessMode := a.memAccessMode ||| 0x80 }
  else some a

/-- Restore the old situation. -/
def restoreLink (loadHigh : Bool) (old a : Arena) : Option Arena :=
  if loadHigh then
    dosUmbLink { a with memAccessMode := old.memAccessMode } (old.uppermemLink % 0x100)
  else some a

/-- The memory part of `DosExeLoader`: the environment and the block, or the error. -/
def exeMemory (a : Arena) (e : ExecEnv) (h : ExeHeader) : Option (Int × Nat × Nat × Arena) :=
  match childEnv a e.cuPsp e.pSrc e.name with
  | none => none
  | some r =>
    let env := r.childEnvSeg.getD e.env
    let out :=
      if r.rc ≠ SUCCESS then some (r.rc, 0, r.arena)
      else
        match execMemLargest r.arena e.cuPsp h.leastSize with
        | none => none
        | some (rc, asize, a) =>
          if rc ≠ SUCCESS then some (rc, 0, a)
          else (execMemAlloc a e.cuPsp (h.wantedSize asize)).map fun r => (r.1, r.2.1, r.2.2.2)
    out.map fun r =>
      if r.1 ≠ SUCCESS then (r.1, env, r.2.1, (dosMemFree r.2.2 env).2)
      else (r.1, env, r.2.1, r.2.2)

/-- **`DosExeLoader`** up to the end of the image read, for `LOAD` and `LOADNGO`. -/
def dosExeLoader (a : Arena) (e : ExecEnv) (f : ExeFile) : Option (Except Int (Loaded × List Read)) :=
  match linkHigh e.loadHigh a with
  | none => none
  | some a1 =>
    match exeMemory a1 e f.header with
    | none => none
    | some (rc, _, mem, a2) =>
      match restoreLink e.loadHigh a a2 with
      | none => none
      | some a3 =>
        if rc ≠ SUCCESS then some (.error rc)
        else if !f.seekOk then some (.error DE_INVLDDATA)
        else
          let exeSize := f.header.exeSize
          let startSeg := startSegment mem (a3.mem mem).mSize f.header
          some (.ok (⟨mem, startSeg, exeSize, a3⟩, readImage f.nBytesRead exeSize startSeg))

end SdcBoot.Memory
