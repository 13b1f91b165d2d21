/-
# `truename`: the components of a name

`truename` of `kernel/newstuff.c` makes a path from the root of a drive out of the name a program
gave.  Here is how it appends one component in 8.3 form, and what it asks the rest of the kernel
(`NameEnv`); the function itself is in `Kernel/Canonical.lean`.

The destination is written through `addChar`, which refuses to go beyond `SFTMAX` characters, so a
path may have up to that many.
-/
import Mathlib.Data.List.Basic

namespace SdcBoot.Kernel.Truename

/-! ## 1. Names -/

abbrev Path : Type := List UInt8

def DE_FILENOTFND : Int := -2
def DE_PATHNOTFND : Int := -3
def SFTMAX : Nat := 128
def MAX_CDSPATH : Nat := 67
def FNAME_SIZE : Nat := 8
def FEXT_SIZE : Nat := 3

def backslash : UInt8 := 0x5c
def slash : UInt8 := 0x2f
def colon : UInt8 := 0x3a
def dot : UInt8 := 0x2e

def isSep (x : UInt8) : Bool := x == slash || x == backslash

/-- `*src == '/' || *src == '\\' || *src == '\0'` -/
def atEnd (src : Path) : Bool := src.head?.all isSep

/-- `_DirChars`: `"[]:|<>+=;,` -/
def _DirChars : Path := [0x22, 0x5b, 0x5d, 0x3a, 0x7c, 0x3c, 0x3e, 0x2b, 0x3d, 0x3b, 0x2c]

def DirChar (x : UInt8) : Bool := x ≥ 0x20 && !_DirChars.contains x

/-- What stands at `errRet`. -/
def errRet (src : Path) : Int := if src.any isSep then DE_PATHNOTFND else DE_FILENOTFND

/-- The CDS of a drive, and what the two calls that look at the drive find. -/
structure Cds where
  cdsCurrentPath : Path
  cdsBackslashOffset : Nat
  network : Bool
  mediaOk : Bool
  dirExists : Bool

/-- What `truename` asks of the kernel. -/
structure NameEnv where
  defaultDrive : Nat
  getCds : Nat → Option Cds
  isDevice : Path → Bool
  up : UInt8 → UInt8

/-! ## 2. Appending components -/

def addChar (src dest : Path) (x : UInt8) : Except Int Path :=
  if dest.length ≥ SFTMAX then .error (errRet src) else .ok (dest ++ [x])

/-- `while (i) { --i; addChar('?'); }` -/
def fillWild (src : Path) : Nat → Path → Except Int Path
  | 0, dest => .ok dest
  | i + 1, dest => (addChar src dest 0x3f).bind fun dest => fillWild src i dest

/-- A component in 8.3 form: the rest of the name, the destination, and whether there was a
wildcard in it.  `i` counts the room, `pneDot` says that the dot was seen. -/
def component : Path → Path → Nat → Bool → Bool → Except Int (Path × Path × Bool)
  | [], dest, _, _, wild => .ok ([], dest, wild)
  | x :: src, dest, i, pneDot, wild =>
    if isSep x then .ok (x :: src, dest, wild)
    else if x = 0x2a then
      (fillWild src i dest).bind fun dest => component src dest 0 pneDot true
    else if x = dot then
      if pneDot then .error (errRet src)
      else if atEnd src then .ok (src, dest, wild)
      else if !DirChar x then .error (errRet src)
      else (addChar src dest x).bind fun dest => component src dest FEXT_SIZE true wild
    else if i = 0 then component src dest i pneDot (wild || x == 0x3f)
    else if !DirChar x then .error (errRet src)
    else (addChar src dest x).bind fun dest => component src dest (i - 1) pneDot (wild || x == 0x3f)

/-! ## 3. Devices and drives -/

/-- `get_root`: the name after its last separator or colon. -/
def getRoot (fname : Path) : Path :=
  (fname.reverse.takeWhile fun x => !(isSep x || x == colon)).reverse

/-- `\DEV\` -/
def devDir : Path := [backslash, 0x44, 0x45, 0x56, backslash]

/-- The device has no directory, or only `\DEV\`; the name is then its last component, and the
drive is followed by a slash. -/
def plainDevice (env : NameEnv) (src : Path) : Bool :=
  (getRoot src).length == src.length ||
    ((getRoot src).length + 5 == src.length &&
      (src.take 5).map (fun x => if env.up x == slash then backslash else env.up x) == devDir)

/-- The letter of the drive, and a colon. -/
def driveName (result : Nat) : Path := [UInt8.ofNat (result % 0x20 + 0x41), colon]

/-! ## 4. How long the path may be -/

theorem addChar_length {src dest d : Path} {x : UInt8} (h : addChar src dest x = .ok d) :
    d.length ≤ SFTMAX := by
  unfold addChar at h
  split at h
  · cases h
  · cases h
    simp only [List.length_append, List.length_singleton]
    omega

theorem bind_ok {α β : Type} {p : Except Int α} {f : α → Except Int β} {y : β}
    (h : p.bind f = .ok y) : ∃ x, p = .ok x ∧ f x = .ok y := by
  cases p with
  | error e => cases h
  | ok x => exact ⟨x, rfl, h⟩

theorem fillWild_length {src : Path} : ∀ {i : Nat} {dest d : Path}, dest.length ≤ SFTMAX →
    fillWild src i dest = .ok d → d.length ≤ SFTMAX := by
  intro i
  induction i with
  | zero =>
    intro dest d hlen h
    cases h
    exact hlen
  | succ i ih =>
    intro dest d _ h
    obtain ⟨dest', h1, h2⟩ := bind_ok h
    exact ih (addChar_length h1) h2

theorem component_length {src : Path} : ∀ {dest : Path} {i : Nat} {pneDot wild : Bool}
    {r : Path × Path × Bool}, dest.length ≤ SFTMAX →
    component src dest i pneDot wild = .ok r → r.2.1.length ≤ SFTMAX := by
  induction src with
  | nil =>
    intro dest i pneDot wild r hlen h
    cases h
    exact hlen
  | cons x src ih =>
    intro dest i pneDot wild r hlen h
    rw [component] at h
    split at h
    · cases h
      exact hlen
    split at h
    · obtain ⟨dest', h1, h2⟩ := bind_ok h
      exact ih (fillWild_length hlen h1) h2
    split at h
    · split at h
      · cases h
      split at h
      · cases h
        exact hlen
      split at h
      · cases h
      · obtain ⟨dest', h1, h2⟩ := bind_ok h
        exact ih (addChar_length h1) h2
    split at h
    · exact ih hlen h
    split at h
    · cases h
    · obtain ⟨dest', h1, h2⟩ := bind_ok h
      exact ih (addChar_length h1) h2

end SdcBoot.Kernel.Truename
