/-
# Paths of the FTP server

A client sees one tree of names, written with slashes.  The drives are the names `DRIVE_A` to
`DRIVE_Z` in its root, and a user with a sandbox sees a subtree only: his paths have the path of
the sandbox in front of them before they are turned into DOS form.

`normalizeDir` walks the tree: it takes a path apart, drops "." and "..", refuses every component
that is not an 8.3 name, and writes the place it has arrived at back into the buffer.
`convertToDosPath` turns that into DOS form, `getNextToken` cuts out the arguments.

All of this is done in arrays of fixed size, and a write behind the end of one is an outcome of its
own, `overrun`: nothing can be said about what the server does after it.
-/
import Mathlib
import SdcBoot.Lib.Path

namespace SdcBoot.Ftp

open Lib List

/-! ## 1. Strings and outcomes -/

/-- A C string, without the NUL behind it. -/
abbrev CStr : Type := List Char

/-- How a routine ends: with a result, with a return code that is not 0, or with a write behind
the end of one of its arrays. -/
inductive Outcome (α : Type) where
  | ok (a : α)
  | error (rc : Nat)
  | overrun
  deriving DecidableEq

def Outcome.bind {α β : Type} : Outcome α → (α → Outcome β) → Outcome β
  | .ok a, f => f a
  | .error rc, _ => .error rc
  | .overrun, _ => .overrun

theorem Outcome.bind_eq_ok {α β : Type} {x : Outcome α} {f : α → Outcome β} {b : β}
    (h : x.bind f = .ok b) : ∃ a, x = .ok a ∧ f a = .ok b := by
  cases x with
  | ok a => exact ⟨a, rfl, h⟩
  | error rc => cases h
  | overrun => cases h

def slash : Char := '/'
def colon : Char := ':'
def backslash : Char := Char.ofNat 92
def doubleQuote : Char := Char.ofNat 34
def dot : CStr := ['.']
def dotDot : CStr := ['.', '.']

/-- `strupr`, which knows the letters of ASCII only. -/
def strupr (s : CStr) : CStr := s.map Char.toUpper

/-- `stricmp(a, b) == 0` -/
def stricmpEq (a b : CStr) : Bool := strupr a == strupr b

@[simp] theorem length_strupr (s : CStr) : (strupr s).length = s.length := by simp [strupr]

def USR_MAX_PATH_LENGTH : Nat := 73
def USR_MAX_PATHFILE_LENGTH : Nat := 85
def DOS_MAX_PATHFILE_LENGTH : Nat := 79
def USR_MAX_PATH_LENGTH_PADDED : Nat := 87
def USR_MAX_PATHFILE_LENGTH_PADDED : Nat := 99

/-! ## 2. File names -/

def DosChars : CStr := "!@#$%^&()-_\x7b\x7d`'~*?".toList

def isValidDosChar (c : Char) : Bool := c.isAlphanum || 127 < c.toNat || DosChars.contains c

/-- What may follow a name without a dot: nothing, or a dot and an extension. -/
def isValidExtension : CStr → Bool
  | [] => true
  | c :: ext => c == '.' && ext.all isValidDosChar && ext.length ≤ 3

/-- The loop over the characters from 1 to 7 and what comes after it. -/
def isValidRest : Nat → CStr → Bool
  | 0, rest => isValidExtension rest
  | _ + 1, [] => true
  | n + 1, c :: rest =>
    if c = '.' then isValidExtension (c :: rest) else isValidDosChar c && isValidRest n rest

def isValidDosFilename (filename : CStr) : Bool :=
  if filename = dot ∨ filename = dotDot then true
  else
    match filename with
    | [] => false
    | c :: rest => isValidDosChar c && isValidRest 7 rest

/-- A name that `normalizeDir` puts on its stack. -/
structure Component (c : CStr) : Prop where
  filename : isValidDosFilename c = true
  ne_dot : c ≠ dot
  ne_dotDot : c ≠ dotDot

/-- What no component contains. -/
def isSeparator (c : Char) : Bool := c == slash || c == colon || c == backslash

theorem isSeparator_of_valid {c : Char} (h : isValidDosChar c = true) : isSeparator c = false := by
  rcases Bool.eq_false_or_eq_true (isSeparator c) with hs | hs
  · simp only [isSeparator, Bool.or_eq_true, beq_iff_eq] at hs
    rcases hs with (rfl | rfl) | rfl <;> cases h
  · exact hs

variable {buffer ext : CStr} {bufferLen : Nat} {sep : Char} {names place : List CStr}

theorem isSeparator_of_extension (h : isValidExtension ext = true) :
    ∀ c ∈ ext, isSeparator c = false := by
  cases ext with
  | nil => simp
  | cons d ext =>
    simp only [isValidExtension, Bool.and_eq_true, beq_iff_eq, all_eq_true] at h
    obtain ⟨⟨rfl, hall⟩, -⟩ := h
    intro c hc
    rcases mem_cons.mp hc with rfl | hc
    · decide
    · exact isSeparator_of_valid (hall c hc)

theorem isSeparator_of_rest : ∀ {n : Nat} {rest : CStr}, isValidRest n rest = true →
    ∀ c ∈ rest, isSeparator c = false
  | 0, _, h => isSeparator_of_extension h
  | _ + 1, [], _ => by simp
  | n + 1, d :: rest, h => by
    rw [isValidRest] at h
    split at h
    · exact isSeparator_of_extension h
    · rw [Bool.and_eq_true] at h
      intro c hc
      rcases mem_cons.mp hc with rfl | hc
      · exact isSeparator_of_valid h.1
      · exact isSeparator_of_rest h.2 c hc

variable {c root tmp : CStr}

/-- **Components are names.**  None of them is empty, goes up or stays, and none contains a slash,
a colon or a backslash. -/
theorem Component.plain (h : Component c) :
    c ≠ [] ∧ c ≠ dot ∧ c ≠ dotDot ∧ ∀ x ∈ c, isSeparator x = false := by
  refine ⟨?_, h.ne_dot, h.ne_dotDot, ?_⟩
  · rintro rfl
    exact nomatch h.filename
  · have hvalid := h.filename
    rw [isValidDosFilename.eq_def, if_neg (by simp [h.ne_dot, h.ne_dotDot])] at hvalid
    cases c with
    | nil => simp
    | cons d rest =>
      simp only [Bool.and_eq_true] at hvalid
      intro x hx
      rcases mem_cons.mp hx with rfl | hx
      · exact isSeparator_of_valid hvalid.1
      · exact isSeparator_of_rest hvalid.2 x hx

theorem Component.slash_notMem (h : Component c) : '/' ∉ c := fun hmem =>
  nomatch h.plain.2.2.2 _ hmem

theorem length_of_extension (h : isValidExtension ext = true) : ext.length ≤ 4 := by
  cases ext with
  | nil => simp
  | cons c ext =>
    simp only [isValidExtension, Bool.and_eq_true, decide_eq_true_eq] at h
    rw [length_cons]
    omega

theorem length_of_rest : ∀ {n : Nat} {rest : CStr}, isValidRest n rest = true →
    rest.length ≤ n + 4
  | 0, _, h => by simpa using length_of_extension h
  | n + 1, [], _ => by simp
  | n + 1, d :: rest, h => by
    rw [isValidRest] at h
    split at h
    · have hlen := length_of_extension h
      omega
    · have hlen := length_of_rest (Bool.and_eq_true _ _ ▸ h).2
      rw [length_cons]
      omega

/-- A component has twelve characters at most. -/
theorem Component.length_le (h : Component c) : c.length ≤ 12 := by
  have hvalid := h.filename
  rw [isValidDosFilename.eq_def, if_neg (by simp [h.ne_dot, h.ne_dotDot])] at hvalid
  cases c with
  | nil => simp
  | cons d rest =>
    simp only [Bool.and_eq_true] at hvalid
    have hlen := length_of_rest hvalid.2
    rw [length_cons]
    omega

/-! Upper case does not change what is valid. -/

theorem toUpper_of_not_isAlpha {c : Char} (h : c.isAlpha = false) : c.toUpper = c :=
  Char.toUpper_eq_of_not_isLower fun hlower => by simp [Char.isAlpha, hlower] at h

theorem isValidDosChar_toUpper (c : Char) : isValidDosChar c.toUpper = isValidDosChar c := by
  cases h : c.isAlpha with
  | true => simp [isValidDosChar, Char.isAlphanum, h]
  | false => rw [toUpper_of_not_isAlpha h]

/-- A character that is not a letter is not the upper case of another one. -/
theorem toUpper_eq_iff {c d : Char} (hd : d.isAlpha = false) : c.toUpper = d ↔ c = d := by
  constructor
  · rintro rfl
    exact (toUpper_of_not_isAlpha (by rwa [Char.isAlpha_toUpper_eq_isAlpha] at hd)).symm
  · rintro rfl
    exact toUpper_of_not_isAlpha hd

theorem isValidExtension_strupr (ext : CStr) :
    isValidExtension (strupr ext) = isValidExtension ext := by
  cases ext with
  | nil => rfl
  | cons c ext =>
    have hdot : (c.toUpper == '.') = (c == '.') := by
      simp only [Bool.beq_eq_decide_eq, toUpper_eq_iff (d := '.') (by decide)]
    simp [isValidExtension, strupr, hdot, isValidDosChar_toUpper, Function.comp_def]

theorem isValidRest_strupr : ∀ (n : Nat) (rest : CStr),
    isValidRest n (strupr rest) = isValidRest n rest
  | 0, rest => isValidExtension_strupr rest
  | _ + 1, [] => rfl
  | n + 1, c :: rest => by
    have ih := isValidRest_strupr n rest
    have hext := isValidExtension_strupr (c :: rest)
    simp only [strupr, map_cons] at ih hext ⊢
    simp only [isValidRest, toUpper_eq_iff (d := '.') (by decide), isValidDosChar_toUpper, ih, hext]

theorem strupr_eq_iff {s t : CStr} (ht : ∀ x ∈ t, x.isAlpha = false) : strupr s = t ↔ s = t := by
  constructor
  · rintro rfl
    refine ext_getElem (by simp) fun i hi _ => ?_
    have hx := ht (s[i].toUpper) (mem_map_of_mem (getElem_mem hi))
    rw [Char.isAlpha_toUpper_eq_isAlpha] at hx
    simp [strupr, toUpper_of_not_isAlpha hx]
  · rintro rfl
    exact (map_congr_left fun x hx => toUpper_of_not_isAlpha (ht x hx)).trans (map_id _)

theorem dot_notAlpha : ∀ x ∈ dot, x.isAlpha = false := by
  rintro x hx
  rw [mem_singleton.mp hx]
  decide

theorem dotDot_notAlpha : ∀ x ∈ dotDot, x.isAlpha = false := by
  rintro x hx
  exact dot_notAlpha x (by simpa [dotDot, dot] using hx)

theorem Component.strupr (h : Component c) : Component (strupr c) where
  ne_dot := fun hdot => h.ne_dot ((strupr_eq_iff dot_notAlpha).mp hdot)
  ne_dotDot := fun hdot => h.ne_dotDot ((strupr_eq_iff dotDot_notAlpha).mp hdot)
  filename := by
    have hvalid := h.filename
    have hdot : Ftp.strupr c ≠ dot := fun hdot => h.ne_dot ((strupr_eq_iff dot_notAlpha).mp hdot)
    have hdd : Ftp.strupr c ≠ dotDot :=
      fun hdot => h.ne_dotDot ((strupr_eq_iff dotDot_notAlpha).mp hdot)
    rw [isValidDosFilename.eq_def, if_neg (by simp [h.ne_dot, h.ne_dotDot])] at hvalid
    rw [isValidDosFilename.eq_def, if_neg (by simp [hdot, hdd])]
    cases c with
    | nil => exact hvalid
    | cons d rest =>
      have hrest := isValidRest_strupr 7 rest
      simp only [Ftp.strupr] at hrest ⊢
      simpa [isValidDosChar_toUpper, hrest] using hvalid

/-! ## 3. `normalizeDir` -/

/-- The stack after a valid component. -/
def stackWith (component : List CStr) (tmp : CStr) : List CStr :=
  if tmp = dotDot then component.dropLast
  else if tmp = dot then component
  else component ++ [tmp]

/-- What is done with a component that has been read into `tmp`.  The NUL behind thirteen
characters has no place there.  The test of `top` is the one the next round begins with. -/
def pushComponent (component : List CStr) (tmp : CStr) : Outcome (List CStr) :=
  if tmp.length = 13 then .overrun
  else if isValidDosFilename tmp = false then .error 1
  else if (stackWith component tmp).length = 20 then .error 1
  else .ok (stackWith component tmp)

/-- The main loop, from some character of the buffer on: `component` is the stack, `tmp` what has
been read of the next component. -/
def readComponents : List CStr → CStr → CStr → Outcome (List CStr)
  | component, tmp, [] => if tmp = [] then .ok component else pushComponent component tmp
  | component, tmp, c :: rest =>
    if c = slash then
      -- an empty component is only tolerated at the very end
      if tmp = [] then if rest = [] then .ok component else .error 1
      else (pushComponent component tmp).bind fun component => readComponents component [] rest
    else if 12 < tmp.length then .error 1
    else readComponents component (tmp ++ [c]) rest

/-- The loop that writes the components back, with the test of `bufferLen` before each of them. -/
def writeComponents (bufferLen : Nat) : CStr → List CStr → Outcome CStr
  | buffer, [] => .ok buffer
  | buffer, c :: component =>
    if bufferLen ≤ buffer.length + 1 + c.length then .error 1
    else writeComponents bufferLen (buffer ++ slash :: c) component

/-- `normalizeDir`, with what it leaves in the buffer. -/
def normalizeDir (buffer : CStr) (bufferLen : Nat) : Outcome CStr :=
  match buffer with
  | [] => .error 1
  | c :: rest =>
    if c ≠ slash then .error 1
    else
      (readComponents [] [] rest).bind fun component =>
        if component = [] then .ok [slash]
        else (writeComponents bufferLen [] component).bind fun buffer => .ok (strupr buffer)

/-! What it computes: the place the path leads to. -/

/-- A component as a step in the tree. -/
def stepOf (c : CStr) : PathStep CStr :=
  if c = dotDot then .up else if c = dot then .stay else .into c

/-- The steps of a path: what stands between its slashes. -/
def stepsOf (path : CStr) : List (PathStep CStr) :=
  ((path.splitOn slash).filter (· ≠ [])).map stepOf

/-- A place as the user sees it. -/
def userPath (place : List CStr) : CStr := if place = [] then [slash] else render slash place

theorem pushComponent_eq_ok {component out : List CStr}
    (h : pushComponent component tmp = .ok out) :
    out = walk component [stepOf tmp] ∧ isValidDosFilename tmp = true := by
  unfold pushComponent at h
  split_ifs at h with hlen hvalid h20
  cases h
  refine ⟨?_, by simpa using hvalid⟩
  unfold stackWith stepOf
  split_ifs <;> rfl

theorem Component.of_valid (hvalid : isValidDosFilename tmp = true)
    (h : .into c ∈ [stepOf tmp]) : Component c := by
  have heq := mem_singleton.mp h
  unfold stepOf at heq
  split_ifs at heq with hdd hdot
  cases heq
  exact ⟨hvalid, hdot, hdd⟩

theorem stepsOf_nil : stepsOf [] = [] := by simp [stepsOf]

/-- A path of one component. -/
theorem stepsOf_of_notMem (hslash : slash ∉ tmp) (hne : tmp ≠ []) : stepsOf tmp = [stepOf tmp] := by
  simp [stepsOf, splitOn_eq_singleton hslash, hne]

/-- A slash ends a component. -/
theorem stepsOf_append (path rest : CStr) :
    stepsOf (path ++ slash :: rest) = stepsOf path ++ stepsOf rest := by
  simp [stepsOf, splitOn_append_cons_self]

theorem stepsOf_slash (rest : CStr) : stepsOf (slash :: rest) = stepsOf rest := by
  simpa [stepsOf_nil] using stepsOf_append [] rest

/-- **The main loop walks the tree**, and every component it enters has been tested. -/
theorem readComponents_eq_ok : ∀ {buffer : CStr} {component out : List CStr} {tmp : CStr},
    slash ∉ tmp → (∀ c ∈ component, Component c) → readComponents component tmp buffer = .ok out →
      out = walk component (stepsOf (tmp ++ buffer)) ∧ ∀ c ∈ out, Component c
  | [], component, out, tmp, hslash, hall, h => by
    rw [readComponents] at h
    split_ifs at h with htmp
    · cases h
      exact ⟨by simp [htmp, stepsOf_nil], hall⟩
    · obtain ⟨rfl, hvalid⟩ := pushComponent_eq_ok h
      rw [append_nil, stepsOf_of_notMem hslash htmp]
      refine ⟨rfl, fun c hc => ?_⟩
      rcases mem_walk hc with hc | hc
      · exact hall c hc
      · exact Component.of_valid hvalid hc
  | x :: buffer, component, out, tmp, hslash, hall, h => by
    rw [readComponents] at h
    split_ifs at h with hx htmp hrest hlong
    · cases h
      exact ⟨by simp [htmp, hrest, hx, stepsOf_slash, stepsOf_nil], hall⟩
    · obtain ⟨pushed, hpush, hread⟩ := Outcome.bind_eq_ok h
      obtain ⟨rfl, hvalid⟩ := pushComponent_eq_ok hpush
      have hpushed : ∀ c ∈ walk component [stepOf tmp], Component c := by
        intro c hc
        rcases mem_walk hc with hc | hc
        · exact hall c hc
        · exact Component.of_valid hvalid hc
      obtain ⟨rfl, hout⟩ := readComponents_eq_ok (by simp) hpushed hread
      refine ⟨?_, hout⟩
      rw [hx, stepsOf_append, stepsOf_of_notMem hslash htmp, walk_append, nil_append]
    · have hslash' : slash ∉ tmp ++ [x] := by
        simp only [mem_append, mem_singleton, not_or]
        exact ⟨hslash, fun heq => hx heq.symm⟩
      simpa using readComponents_eq_ok hslash' hall h

theorem writeComponents_eq_ok : ∀ {component : List CStr} {buffer out : CStr},
    writeComponents bufferLen buffer component = .ok out →
      out = buffer ++ render slash component ∧ (component ≠ [] → out.length < bufferLen)
  | [], buffer, out, h => by
    cases h
    simp
  | c :: component, buffer, out, h => by
    rw [writeComponents] at h
    split_ifs at h with hlen
    obtain ⟨rfl, hout⟩ := writeComponents_eq_ok h
    refine ⟨by simp, fun _ => ?_⟩
    cases component with
    | nil =>
      simp only [render_nil, append_nil, length_append, length_cons]
      omega
    | cons d component => exact hout nofun

theorem strupr_render (component : List CStr) :
    strupr (render slash component) = render slash (component.map strupr) := by
  induction component with
  | nil => rfl
  | cons c component ih =>
    simp only [strupr, render_cons, map_append] at ih ⊢
    rw [ih]
    rfl

/-- **What `normalizeDir` leaves in the buffer**: the place its path leads to from the root, in
upper case, and that place is named by components only. -/
theorem normalizeDir_eq_ok {out : CStr} (hlen : 1 < bufferLen)
    (h : normalizeDir buffer bufferLen = .ok out) :
    ∃ place : List CStr, place = (walk [] (stepsOf buffer)).map strupr ∧
      (∀ c ∈ place, Component c) ∧ out = userPath place ∧ out.length < bufferLen := by
  unfold normalizeDir at h
  split at h
  · cases h
  case h_2 c rest =>
  split_ifs at h with hc
  rw [ne_eq, not_not] at hc
  subst hc
  obtain ⟨component, hread, hwrite⟩ := Outcome.bind_eq_ok h
  obtain ⟨rfl, hall⟩ := readComponents_eq_ok (by simp) (by simp) hread
  rw [nil_append] at hwrite hall
  refine ⟨_, rfl, ?_, ?_⟩
  · intro c hc
    obtain ⟨d, hd, rfl⟩ := mem_map.mp hc
    exact (hall d hd).strupr
  · rw [stepsOf_slash]
    split_ifs at hwrite with hroot
    · cases hwrite
      rw [hroot]
      exact ⟨rfl, hlen⟩
    · obtain ⟨buffer, hbuffer, hout⟩ := Outcome.bind_eq_ok hwrite
      obtain ⟨rfl, hshort⟩ := writeComponents_eq_ok hbuffer
      cases hout
      rw [userPath, if_neg (by simpa using hroot), nil_append, strupr_render]
      refine ⟨rfl, ?_⟩
      rw [← strupr_render, length_strupr]
      exact hshort hroot

theorem mem_render {x : Char} (h : x ∈ render sep names) : x = sep ∨ ∃ c ∈ names, x ∈ c := by
  obtain ⟨c, hc, hx⟩ := mem_flatMap.mp h
  rcases mem_cons.mp hx with rfl | hx
  · exact .inl rfl
  · exact .inr ⟨c, hc, hx⟩

/-- A place written down holds no backslash. -/
theorem backslash_notMem_userPath (h : ∀ c ∈ place, Component c) : backslash ∉ userPath place := by
  intro hmem
  unfold userPath at hmem
  split_ifs at hmem
  · exact nomatch mem_singleton.mp hmem
  · rcases mem_render hmem with hslash | ⟨c, hc, hx⟩
    · cases hslash
    · exact nomatch (h c hc).plain.2.2.2 _ hx

/-- A path that goes on behind its root does not end with a separator. -/
theorem getLast?_append_render {other : Char} (hne : names ≠ [])
    (h : ∀ c ∈ names, c ≠ [] ∧ other ∉ c) (root : CStr) :
    (root ++ render sep names).getLast? ≠ some other := by
  rcases eq_nil_or_concat names with rfl | ⟨init, last, rfl⟩
  · exact absurd rfl hne
  · obtain ⟨hlast, hmem⟩ := h last (by simp)
    intro heq
    rw [concat_eq_append, render_append, render_cons, render_nil, append_nil,
      ← append_assoc, getLast?_append_of_ne_nil _ (by simp),
      getLast?_cons_of_ne_nil hlast] at heq
    exact hmem (mem_of_getLast? heq)

/-! ## 4. DOS paths -/

def drivePrefix : CStr := "/DRIVE_".toList

/-- The character at some index; behind the end there is a NUL. -/
def charAt (s : CStr) (i : Nat) : Char := s.getD i (Char.ofNat 0)

def isPathAbsolute (userPath : CStr) : Bool := charAt userPath 0 == slash

def isDrivePrefixPresent (userPath : CStr) : Bool :=
  drivePrefix.isPrefixOf userPath && charAt userPath 8 == slash &&
    ('A' ≤ charAt userPath 7 && charAt userPath 7 ≤ 'Z')

/-- `ValidDriveTable`, which is filled once when the server starts. -/
abbrev Drives : Type := Nat → Bool

def isDriveInValidTable (drives : Drives) (driveLetter : Char) : Bool :=
  64 < driveLetter.toNat && driveLetter.toNat < 91 && drives (driveLetter.toNat - 64)

def toBackslash (c : Char) : Char := if c = slash then backslash else c

/-- What the loop of `convertToDosPath` writes into `rc`, before a trailing backslash is removed. -/
def dosLetters (buffer : CStr) : CStr :=
  charAt buffer 7 :: colon :: backslash :: (buffer.drop 9).map toBackslash

/-- `convertToDosPath`, with what it leaves in the buffer; return code 2 leaves a lone slash there.
The array `rc` has room for 79 characters and the NUL. -/
def convertToDosPath (drives : Drives) (buffer : CStr) : Outcome CStr :=
  if isDrivePrefixPresent buffer = false then .error 2
  else if isDriveInValidTable drives (charAt buffer 7) = false then .error 1
  else if 79 < (dosLetters buffer).length then .overrun
  else if 3 < (dosLetters buffer).length ∧ (dosLetters buffer).getLast? = some backslash then
    .ok (dosLetters buffer).dropLast
  else .ok (dosLetters buffer)

/-- A path that names a drive to begin with. -/
structure OnDrive (drives : Drives) (root : CStr) : Prop where
  present : isDrivePrefixPresent root = true
  drive : isDriveInValidTable drives (charAt root 7) = true

/-- A directory on some drive in the normal form: its path names the drive and at least one
directory on it, and does not end with a slash. -/
structure Rooted (drives : Drives) (root : CStr) : Prop extends OnDrive drives root where
  long : 9 < root.length
  last : root.getLast? ≠ some slash

theorem toBackslash_component (h : Component c) : c.map toBackslash = c := by
  refine (map_congr_left fun x hx => ?_).trans (map_id _)
  rw [id, toBackslash, if_neg]
  rintro rfl
  exact h.slash_notMem hx

variable {drives : Drives}

theorem charAt_append (rest : CStr) {i : Nat} (h : i < root.length) :
    charAt (root ++ rest) i = charAt root i := by
  simp [charAt, getElem?_append_left h]

/-- The prefix goes as far as the slash behind the letter. -/
theorem lt_length_of_isDrivePrefixPresent (h : isDrivePrefixPresent root = true) :
    8 < root.length := by
  simp only [isDrivePrefixPresent, Bool.and_eq_true, beq_iff_eq] at h
  have height := h.1.2
  by_contra hshort
  rw [charAt, getD_eq_getElem?_getD, getElem?_eq_none (by omega)] at height
  cases height

theorem isDrivePrefixPresent_append (rest : CStr) (h : 8 < root.length)
    (hpresent : isDrivePrefixPresent root = true) : isDrivePrefixPresent (root ++ rest) = true := by
  simp only [isDrivePrefixPresent, Bool.and_eq_true, isPrefixOf_iff_prefix] at hpresent ⊢
  rw [charAt_append rest h, charAt_append rest (by omega)]
  exact ⟨⟨hpresent.1.1.trans (prefix_append _ _), hpresent.1.2⟩, hpresent.2⟩

theorem dosLetters_append (rest : CStr) (h : 8 < root.length) :
    dosLetters (root ++ rest) = dosLetters root ++ rest.map toBackslash := by
  unfold dosLetters
  rw [charAt_append rest (by omega), drop_append_of_le_length (by omega), map_append]
  rfl

theorem Rooted.getLast?_dosLetters (h : Rooted drives root)
    (hplain : backslash ∉ root) : (dosLetters root).getLast? ≠ some backslash := by
  have hdrop : root.drop 9 ≠ [] := by simpa using h.long
  have hlast := h.last
  rw [← take_append_drop 9 root, getLast?_append_of_ne_nil _ hdrop] at hlast
  have hback : (root.drop 9).getLast? ≠ some backslash := fun heq =>
    hplain (drop_subset 9 root (mem_of_getLast? heq))
  intro heq
  have hmap : (root.drop 9).map toBackslash ≠ [] := by simpa using hdrop
  rw [dosLetters, getLast?_cons_of_ne_nil (by simp), getLast?_cons_of_ne_nil (by simp),
    getLast?_cons_of_ne_nil hmap, getLast?_map, Option.map_eq_some_iff] at heq
  obtain ⟨c, hc, hcb⟩ := heq
  unfold toBackslash at hcb
  split_ifs at hcb with hslash
  · exact hlast (by rw [hc, hslash])
  · exact hback (by rw [hc, hcb])

theorem length_dosLetters (h : 8 < buffer.length) :
    (dosLetters buffer).length = buffer.length - 6 := by
  simp only [dosLetters, length_cons, length_map, length_drop]
  omega

/-- The DOS form of the root itself. -/
theorem Rooted.convertToDosPath_self (h : Rooted drives root) (hplain : backslash ∉ root)
    (hfits : root.length ≤ 85) : convertToDosPath drives root = .ok (dosLetters root) := by
  have hlong := h.long
  have hlen := length_dosLetters (by omega : 8 < root.length)
  rw [convertToDosPath, h.present, h.drive, if_neg (by simp), if_neg (by simp),
    if_neg (by omega), if_neg]
  rintro ⟨-, hlast⟩
  exact h.getLast?_dosLetters hplain hlast

/-- **The DOS form of a place below a path with a drive** is the DOS form of that path with the
names of the place behind it, and it is written in bounds when the user's path has at most 85
characters. -/
theorem OnDrive.convertToDosPath (h : OnDrive drives root) (hplace : ∀ c ∈ place, Component c) :
    Ftp.convertToDosPath drives (root ++ userPath place) =
      if (root ++ userPath place).length ≤ 85 then .ok (dosLetters root ++ render backslash place)
      else .overrun := by
  have hlong := lt_length_of_isDrivePrefixPresent h.present
  have hletters := dosLetters_append (userPath place) (by omega : 8 < root.length)
  have hlen := length_dosLetters
    (by rw [length_append]; omega : 8 < (root ++ userPath place).length)
  rw [Ftp.convertToDosPath, isDrivePrefixPresent_append _ (by omega) h.present,
    charAt_append _ (by omega), h.drive, if_neg (by simp), if_neg (by simp)]
  by_cases hfits : (root ++ userPath place).length ≤ 85
  · rw [if_pos hfits, if_neg (by omega), hletters]
    by_cases hroot : place = []
    · subst hroot
      have hmap : (userPath []).map toBackslash = [backslash] := rfl
      rw [hmap, if_pos, dropLast_concat, render_nil, append_nil]
      exact ⟨by simp [dosLetters], by simp⟩
    · have hmap : (userPath place).map toBackslash = render backslash place := by
        rw [userPath, if_neg hroot]
        exact map_render rfl fun c hc => toBackslash_component (hplace c hc)
      rw [hmap, if_neg]
      rintro ⟨-, hlast⟩
      refine getLast?_append_render hroot
        (fun c hc => ⟨(hplace c hc).plain.1, fun hmem => ?_⟩) _ hlast
      exact nomatch (hplace c hc).plain.2.2.2 _ hmem
  · rw [if_neg hfits, if_pos (by omega)]

end SdcBoot.Ftp
