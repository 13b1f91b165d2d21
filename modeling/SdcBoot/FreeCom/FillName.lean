/-
# fillFnam

COPY and REN fill the wildcards of a destination from the name of a source: `myfnsplit` takes both
apart, `fillComp` fills the name and the extension, and `myfnmerge` puts the destination together
again.

`NameParts` says what the parts of a path are, and `fill` what a pattern becomes, by positions: the
i-th `?` is the i-th character, a `*` all that is left.  With enough room `fillComp` computes `fill`
(`fillLoop_text`); the memcpy of its `*` copies as many bytes as there is room for, not as many as
there are.

Where the code does not do what it is for (`fills_right_iff`): that memcpy, for all but the longest
names; a path without wildcards that is copied and then taken apart all the same; a `myfnsplit` that
is given no buffer for the drive and then does not step over it; and wildcards in the directory.
-/
import Mathlib.Data.List.Basic
import Mathlib.Data.List.Induction
import SdcBoot.FreeCom.Alias

namespace SdcBoot.FreeCom

open List

/-! ## 1. The routines -/

/-- The sizes of the buffers, as dir.h and lfnfuncs.h have them. -/
structure NameSizes where
  maxdrive : Nat
  maxdir : Nat
  maxfile : Nat
  maxext : Nat
  drive_room : 2 < maxdrive
  dir_room : 1 < maxdir
  file_room : 1 < maxfile
  ext_room : 0 < maxext

/-- With long file names. -/
def lfnSizes : NameSizes where
  maxdrive := 3
  maxdir := 255
  maxfile := 255
  maxext := 255
  drive_room := by decide
  dir_room := by decide
  file_room := by decide
  ext_room := by decide

/-- What `myfnsplit` stores. -/
structure Split where
  drv : List Char
  dir : List Char
  name : List Char
  ext : List Char
  deriving DecidableEq

/-- The second loop, from `p` down: `ended`, or the place of a dot. -/
def scanDot (path : List Char) (ended : Nat) : Nat → Nat
  | 0 => ended
  | p + 1 =>
    if path[p]? = some '\\' then ended
    else if path[p]? = some '.' then p
    else scanDot path ended p

/-- The third loop, from `p` down: where the name begins. -/
def scanName (path : List Char) : Nat → Nat
  | 0 => 0
  | p + 1 => if path[p]? = some '\\' then p + 1 else scanName path p

/-- What stands behind the drive. -/
def splitRest (drv path : List Char) : Split :=
  let ended := (path.takeWhile (· != ':')).length
  let dot := scanDot path ended ended
  let p := scanName path dot
  ⟨drv, path.take p, (path.take dot).drop p, path.drop dot⟩

/-- `myfnsplit`.  Without a buffer for the drive, `path` stays in front of it. -/
def myfnsplit (path : List Char) (drv : Bool) : Split :=
  if path[1]? = some ':' ∧ drv = true then splitRest (path.take 2) (path.drop 2)
  else splitRest [] path

/-- `myfnmerge`: what stood in `path` before does not matter. -/
def myfnmerge (drive dir fname ext : List Char) : List Char :=
  let path := if drive ≠ [] then drive else []
  let path :=
    if dir ≠ [] then
      let path := path ++ dir
      if dir.getLast? ≠ some '\\' then path ++ ['\\'] else path
    else path
  if fname ≠ [] then
    let path := path ++ fname
    if ext ≠ [] then path ++ ext else path
  else path

/-- `fillComp` as it goes: what is in dst up to `s`, the place of `src` in the source part, and how
many bytes of the source part were read and of dst written. -/
structure Filled where
  text : List Char
  src : Nat
  readTo : Nat
  wroteTo : Nat
  deriving DecidableEq

/-- `*s = c` -/
def Filled.stores (f : Filled) : Filled := { f with wroteTo := max f.wroteTo (f.text.length + 1) }

/-- `*src` -/
def Filled.looks (f : Filled) : Filled := { f with readTo := max f.readTo (f.src + 1) }

/-- `++s` behind a character, and `if(*src) ++src` -/
def Filled.puts (source : List Char) (c : Char) (f : Filled) : Filled :=
  let f := f.stores.looks
  { f with text := f.text ++ [c], src := if f.src < source.length then f.src + 1 else f.src }

/-- The memcpy of a `*`, and the NUL behind it.  A terminator that is copied ends the text. -/
def Filled.copies (source : List Char) (len : Nat) (f : Filled) : Filled :=
  { text := f.text ++ (source.drop f.src).take len
    src := f.src
    readTo := max f.readTo (f.src + len)
    wroteTo := max f.stores.wroteTo (f.text.length + len + 1) }

/-- The loop, with one less than `len`. -/
def fillLoop (source : List Char) : Nat → List Char → Filled → Filled
  | 0, _, f => f.stores
  | _ + 1, [], f => f.stores
  | len + 1, c :: pattern, f =>
    if c = '?' then
      match source[f.src]? with
      | none => fillLoop source len pattern f.stores.looks
      | some c => fillLoop source len pattern (f.puts source c)
    else if c = '*' then f.copies source (len + 1)
    else fillLoop source len pattern (f.puts source c)

def fillComp (pattern source : List Char) (len : Nat) : Filled :=
  fillLoop source (len - 1) pattern ⟨[], 0, 0, 0⟩

/-- What a call of `fillFnam` leaves: `dest`, and the local buffers. -/
structure FillRun where
  dest : List Char
  pattern : Split
  fnam : Split
  dfn : Filled
  dex : Filled

/-- `fillFnam`.  The copy of a pattern without wildcards does not return, so `myfnmerge` writes over
it. -/
def fillFnam (z : NameSizes) (pattern fnam : List Char) : FillRun :=
  let parts := myfnsplit pattern true
  let source := myfnsplit fnam false
  let dfn := fillComp parts.name source.name z.maxfile
  let dex := fillComp parts.ext source.ext z.maxext
  ⟨myfnmerge parts.drv parts.dir dfn.text dex.text, parts, source, dfn, dex⟩

/-- A text with its terminator fits. -/
def Split.Inside (z : NameSizes) (s : Split) : Prop :=
  s.drv.length < z.maxdrive ∧ s.dir.length < z.maxdir ∧ s.name.length < z.maxfile ∧
    s.ext.length < z.maxext

/-! ## 2. What it is for -/

/-- **The parts of a path.**  A colon in the second place makes a drive; another one ends the name
(`PRN:`). -/
structure NameParts (path : List Char) where
  drive : List Char
  dir : List Char
  name : List Char
  ext : List Char
  joined : drive ++ dir ++ name ++ ext = path
  drive_eq : drive = if path[1]? = some ':' then path.take 2 else []
  dir_ends : dir = [] ∨ ∃ front, dir = front ++ ['\\']
  dir_colon : ':' ∉ dir
  name_colon : ':' ∉ name
  name_plain : '\\' ∉ name
  ext_starts : ('.' ∉ name ∧ (ext = [] ∨ ∃ tail, ext = ':' :: tail)) ∨
    ∃ tail rest, ext = '.' :: tail ++ rest ∧ '.' ∉ tail ∧ '\\' ∉ tail ∧ ':' ∉ tail ∧
      (rest = [] ∨ ∃ last, rest = ':' :: last)

/-- The parts fit into the buffers. -/
def NameParts.Fits {path : List Char} (z : NameSizes) (p : NameParts path) : Prop :=
  p.drive.length < z.maxdrive ∧ p.dir.length < z.maxdir ∧ p.name.length < z.maxfile ∧
    p.ext.length < z.maxext

instance {path : List Char} (z : NameSizes) (p : NameParts path) : Decidable (p.Fits z) :=
  inferInstanceAs (Decidable (_ ∧ _ ∧ _ ∧ _))

/-- **A pattern filled**, from position `i` of the source part on. -/
def fillAt (source : List Char) : Nat → List Char → List Char
  | _, [] => []
  | i, c :: pattern =>
    if c = '?' then source[i]?.toList ++ fillAt source (i + 1) pattern
    else if c = '*' then source.drop i
    else c :: fillAt source (i + 1) pattern

/-- What the wildcards stand for, one after the other. -/
def standFor (source : List Char) : Nat → List Char → List (List Char)
  | _, [] => []
  | i, c :: pattern =>
    if c = '?' then source[i]?.toList :: standFor source (i + 1) pattern
    else if c = '*' then [source.drop i]
    else standFor source (i + 1) pattern

/-- Neither `?` nor `*`. -/
def NoWild (s : List Char) : Prop := '?' ∉ s ∧ '*' ∉ s

/-- What the code takes for the name: of a path with a drive, the letter. -/
def seenName {fnam : List Char} (source : NameParts fnam) : List Char :=
  if source.drive = [] then source.name
  else (fnam.take 1).filter fun c => c != '.' && c != '\\' && c != ':'

/-- What the code takes for the extension: of a path with a drive, the rest. -/
def seenExt {fnam : List Char} (source : NameParts fnam) : List Char :=
  if source.drive = [] then source.ext
  else if fnam[0]? = some '.' ∨ fnam[0]? = some ':' then fnam else fnam.drop 1

/-- The characters of a part in front of its first `*`. -/
def beforeStar (pattern : List Char) : List Char := pattern.takeWhile (· != '*')

/-- **The memcpy of the `*` ends within the source part**: there is room for no more than is left,
with the terminator. -/
def StarInside (size : Nat) (pattern source : List Char) : Prop :=
  '*' ∈ pattern →
    size - 1 - (beforeStar pattern).length ≤ source.length - (beforeStar pattern).length + 1

/-- A part that comes out empty: nothing but wildcards, which stand for nothing. -/
def ComesOutEmpty (pattern source : List Char) : Prop :=
  (∀ c ∈ beforeStar pattern, c = '?') ∧ ∀ t ∈ standFor source 0 pattern, t = []

/-- **What a call is to do.** -/
structure FillsRight (z : NameSizes) {pattern fnam : List Char} (p : NameParts pattern)
    (s : NameParts fnam) (r : FillRun) : Prop where
  name : r.dfn.text = fillAt s.name 0 p.name
  ext : r.dex.text = fillAt s.ext 0 p.ext
  dest : r.dest = p.drive ++ p.dir ++ r.dfn.text ++ r.dex.text
  unchanged : NoWild pattern → r.dest = pattern
  filled : NoWild r.dest
  reads : r.dfn.readTo ≤ r.fnam.name.length + 1 ∧ r.dex.readTo ≤ r.fnam.ext.length + 1
  writes : r.dfn.wroteTo ≤ z.maxfile ∧ r.dex.wroteTo ≤ z.maxext
  pattern_inside : r.pattern.Inside z
  fnam_inside : r.fnam.Inside z

/-- **When it does it.** -/
structure FillsWhen (z : NameSizes) {pattern fnam : List Char} (p : NameParts pattern)
    (s : NameParts fnam) : Prop where
  name_star : StarInside z.maxfile p.name (seenName s)
  ext_star : StarInside z.maxext p.ext (seenExt s)
  name_seen : standFor (seenName s) 0 p.name = standFor s.name 0 p.name
  ext_seen : standFor (seenExt s) 0 p.ext = standFor s.ext 0 p.ext
  ext_room : (seenExt s).length < z.maxext
  kept : ComesOutEmpty p.name s.name → ComesOutEmpty p.ext s.ext
  drive_plain : NoWild p.drive
  dir_plain : NoWild p.dir
  name_plain : ∀ t ∈ standFor s.name 0 p.name, NoWild t
  ext_plain : ∀ t ∈ standFor s.ext 0 p.ext, NoWild t

/-! ## 3. Taking apart -/

variable {dir front path pattern source : List Char} {size : Nat}

variable {a b middle : List Char} {c : Char} {i : Nat} {f : Filled}

theorem scanDot_over {ended : Nat} (hplain : ∀ c ∈ middle, c ≠ '.' ∧ c ≠ '\\') : ∀ back,
    scanDot (front ++ (middle ++ back)) ended (front.length + middle.length) =
      scanDot (front ++ (middle ++ back)) ended front.length := by
  induction middle using List.reverseRecOn with
  | nil => exact fun _ => rfl
  | append_singleton middle c ih =>
    intro back
    have hc := hplain c (by simp)
    have hat : (front ++ (middle ++ [c] ++ back))[front.length + middle.length]? = some c := by
      simp
    rw [length_append, length_singleton, ← Nat.add_assoc, scanDot, hat,
      if_neg (by simpa using hc.2), if_neg (by simpa using hc.1)]
    simpa using ih (fun d hd => hplain d (by simp [hd])) (c :: back)

theorem scanName_over (hplain : '\\' ∉ middle) : ∀ back,
    scanName (front ++ (middle ++ back)) (front.length + middle.length) =
      scanName (front ++ (middle ++ back)) front.length := by
  induction middle using List.reverseRecOn with
  | nil => exact fun _ => rfl
  | append_singleton middle c ih =>
    intro back
    have hc : c ≠ '\\' := fun h => hplain (by simp [h])
    have hat : (front ++ (middle ++ [c] ++ back))[front.length + middle.length]? = some c := by
      simp
    rw [length_append, length_singleton, ← Nat.add_assoc, scanName, hat,
      if_neg (by simpa using hc)]
    simpa using ih (fun h => hplain (by simp [h])) (c :: back)

section

variable (hends : dir = [] ∨ ∃ front, dir = front ++ ['\\'])
include hends

/-- At the end of a directory no dot is found any more. -/
theorem scanDot_dir (back : List Char)
    (ended : Nat) : scanDot (dir ++ back) ended dir.length = ended := by
  obtain rfl | ⟨front, rfl⟩ := hends
  · rfl
  · rw [length_append, length_singleton, scanDot, if_pos]
    simp

theorem scanName_dir (back : List Char) : scanName (dir ++ back) dir.length = dir.length := by
  obtain rfl | ⟨front, rfl⟩ := hends
  · rfl
  · rw [length_append, length_singleton, scanName, if_pos]
    simp

end

theorem takeWhile_colon {rest : List Char} (hfront : ':' ∉ front)
    (hrest : rest = [] ∨ ∃ tail, rest = ':' :: tail) :
    (front ++ rest).takeWhile (· != ':') = front := by
  rw [takeWhile_append_of_pos fun c hc => by
    simpa using fun h : c = ':' => hfront (h ▸ hc)]
  obtain rfl | ⟨tail, rfl⟩ := hrest
  · simp
  · simp

/-- **The loops find the parts.** -/
theorem splitRest_parts (drv : List Char) {name ext : List Char}
    (hends : dir = [] ∨ ∃ front, dir = front ++ ['\\']) (hdir : ':' ∉ dir) (hname : ':' ∉ name)
    (hplain : '\\' ∉ name) (hext : ('.' ∉ name ∧ (ext = [] ∨ ∃ tail, ext = ':' :: tail)) ∨
      ∃ tail rest, ext = '.' :: tail ++ rest ∧ '.' ∉ tail ∧ '\\' ∉ tail ∧ ':' ∉ tail ∧
        (rest = [] ∨ ∃ last, rest = ':' :: last)) :
    splitRest drv (dir ++ (name ++ ext)) = ⟨drv, dir, name, ext⟩ := by
  have hdot : ∀ ended, ended = ((dir ++ (name ++ ext)).takeWhile (· != ':')).length →
      scanDot (dir ++ (name ++ ext)) ended ended = dir.length + name.length := by
    rintro ended hended
    obtain ⟨hnodot, hext⟩ | ⟨tail, rest, rfl, hnodot, hnoslash, hnocolon, hrest⟩ := hext
    · -- the name ends the scan, and nothing in it is a dot
      rw [← append_assoc, takeWhile_colon (by simp [hdir, hname]) hext,
        length_append] at hended
      conv_lhs => arg 3; rw [hended]
      rw [scanDot_over (fun c hc => ⟨fun h => hnodot (h ▸ hc), fun h => hplain (h ▸ hc)⟩),
        scanDot_dir hends, hended]
    · -- the tail of the extension is stepped over, and there is the dot
      have hassoc : dir ++ (name ++ ('.' :: tail ++ rest)) =
          (dir ++ name ++ ['.']) ++ (tail ++ rest) := by simp
      have hlen : ended = (dir ++ name ++ ['.']).length + tail.length := by
        rw [hended, hassoc, ← append_assoc, takeWhile_colon _ hrest, length_append]
        simp [hdir, hname, hnocolon]
      rw [hassoc]
      conv_lhs => arg 3; rw [hlen]
      rw [scanDot_over (fun c hc => ⟨fun h => hnodot (h ▸ hc), fun h => hnoslash (h ▸ hc)⟩),
        length_append, length_singleton, scanDot]
      have hat : (dir ++ name ++ ['.'] ++ (tail ++ rest))[(dir ++ name).length]? = some '.' := by
        simp
      rw [hat, if_neg (by decide), if_pos rfl, length_append]
  unfold splitRest
  simp only
  rw [hdot _ rfl, scanName_over hplain, scanName_dir hends, ← append_assoc, ← length_append,
    drop_left, take_left, drop_left, append_assoc, take_left]

section

variable (p : NameParts path)
include p

theorem NameParts.splitRest_eq (drv : List Char) :
    splitRest drv (p.dir ++ (p.name ++ p.ext)) = ⟨drv, p.dir, p.name, p.ext⟩ :=
  splitRest_parts drv p.dir_ends p.dir_colon p.name_colon p.name_plain p.ext_starts

theorem NameParts.splitRest_path (hdrive : p.drive = [])
    (drv : List Char) : splitRest drv path = ⟨drv, p.dir, p.name, p.ext⟩ := by
  have hpath : p.dir ++ (p.name ++ p.ext) = path := by
    have h := p.joined
    rwa [hdrive, nil_append, append_assoc] at h
  have h := p.splitRest_eq drv
  rwa [hpath] at h

/-- With a buffer for the drive `myfnsplit` stores the parts. -/
theorem NameParts.myfnsplit_eq : myfnsplit path true = ⟨p.drive, p.dir, p.name, p.ext⟩ := by
  have hdrive := p.drive_eq
  by_cases hcolon : path[1]? = some ':'
  · rw [if_pos hcolon] at hdrive
    have hlong : 1 < path.length := (List.getElem?_eq_some_iff.mp hcolon).1
    have hlen : p.drive.length = 2 := by
      rw [hdrive, length_take]
      omega
    have hdrop : path.drop 2 = p.dir ++ (p.name ++ p.ext) := by
      conv_lhs => rw [← p.joined]
      rw [← hlen, append_assoc, append_assoc, drop_left]
    rw [myfnsplit, if_pos ⟨hcolon, rfl⟩, hdrop, ← hdrive, p.splitRest_eq]
  · rw [if_neg hcolon] at hdrive
    rw [myfnsplit, if_neg (fun h => hcolon h.1), p.splitRest_path hdrive, hdrive]

/-- Without, it stores what a source is seen as. -/
theorem NameParts.myfnsplit_seen :
    (myfnsplit path false).drv = [] ∧ (myfnsplit path false).name = seenName p ∧
      (myfnsplit path false).ext = seenExt p ∧
      ((myfnsplit path false).dir.length ≤ max p.dir.length 1) := by
  have hdrive := p.drive_eq
  rw [myfnsplit, if_neg (by simp)]
  by_cases hcolon : path[1]? = some ':'
  · obtain ⟨c, rest, rfl⟩ : ∃ c rest, path = c :: ':' :: rest := by
      match path, hcolon with
      | c :: d :: rest, hcolon =>
        simp only [getElem?_cons_succ, getElem?_cons_zero, Option.some.injEq] at hcolon
        exact ⟨c, rest, by rw [hcolon]⟩
    have hne : p.drive ≠ [] := by simp [hdrive]
    by_cases hc : c = ':'
    · subst hc
      have h : splitRest [] (':' :: ':' :: rest) = ⟨[], [], [], ':' :: ':' :: rest⟩ := by
        simp [splitRest, scanDot, scanName]
      simp [h, seenName, seenExt, hne]
    · by_cases hdot : c = '.'
      · subst hdot
        have h : splitRest [] ('.' :: ':' :: rest) = ⟨[], [], [], '.' :: ':' :: rest⟩ := by
          simp [splitRest, scanDot, scanName]
        simp [h, seenName, seenExt, hne]
      · by_cases hslash : c = '\\'
        · subst hslash
          have h : splitRest [] ('\\' :: ':' :: rest) = ⟨[], ['\\'], [], ':' :: rest⟩ := by
            simp [splitRest, scanDot, scanName]
          rw [h]
          exact ⟨rfl, by simp [seenName, hne], by simp [seenExt, hne], Nat.le_max_right _ _⟩
        · have h : splitRest [] (c :: ':' :: rest) = ⟨[], [], [c], ':' :: rest⟩ := by
            simp [splitRest, scanDot, scanName, hc, hdot, hslash]
          simp [h, seenName, seenExt, hne, hc, hdot, hslash]
  · rw [if_neg hcolon] at hdrive
    rw [p.splitRest_path hdrive]
    exact ⟨rfl, by simp [seenName, hdrive], by simp [seenExt, hdrive], Nat.le_max_left _ _⟩

end

theorem split_at_last {l : List Char} (hc : c ∈ l) :
    ∃ front back, l = front ++ c :: back ∧ c ∉ back := by
  obtain ⟨back, front, hl, hback⟩ := eq_append_cons_of_mem (mem_reverse.mpr hc)
  refine ⟨front.reverse, back.reverse, ?_, by simpa using hback⟩
  rw [← reverse_reverse l, hl]
  simp

/-- **Every path has parts.** -/
theorem nameParts_exist (path : List Char) : Nonempty (NameParts path) := by
  obtain ⟨drive, body, hpath, hdrive⟩ : ∃ drive body, drive ++ body = path ∧
      drive = if path[1]? = some ':' then path.take 2 else [] := by
    split
    · exact ⟨_, path.drop 2, take_append_drop 2 path, rfl⟩
    · exact ⟨_, path, rfl, rfl⟩
  -- a further colon ends what directory and name are taken from
  obtain ⟨before, rest, hbody, hbefore, hrest⟩ : ∃ before rest, body = before ++ rest ∧
      ':' ∉ before ∧ (rest = [] ∨ ∃ last, rest = ':' :: last) := by
    by_cases hcolon : ':' ∈ body
    · obtain ⟨before, last, hbody, hbefore⟩ := eq_append_cons_of_mem hcolon
      exact ⟨before, ':' :: last, hbody, hbefore, .inr ⟨last, rfl⟩⟩
    · exact ⟨body, [], (append_nil body).symm, hcolon, .inl rfl⟩
  obtain ⟨dir, file, hdirfile, hends, hfile⟩ : ∃ dir file, before = dir ++ file ∧
      (dir = [] ∨ ∃ front, dir = front ++ ['\\']) ∧ '\\' ∉ file := by
    by_cases hslash : '\\' ∈ before
    · obtain ⟨front, file, hbefore, hfile⟩ := split_at_last hslash
      exact ⟨front ++ ['\\'], file, by simpa using hbefore, .inr ⟨front, rfl⟩, hfile⟩
    · exact ⟨[], before, rfl, .inl rfl, hslash⟩
  subst hdirfile hbody
  simp only [mem_append, not_or] at hbefore
  by_cases hdot : '.' ∈ file
  · obtain ⟨name, tail, rfl, htail⟩ := split_at_last hdot
    simp only [mem_append, mem_cons, not_or] at hbefore hfile
    exact ⟨⟨drive, dir, name, '.' :: tail ++ rest, by simpa using hpath, hdrive, hends, hbefore.1,
      hbefore.2.1, hfile.1, .inr ⟨tail, rest, rfl, htail, hfile.2.2, hbefore.2.2.2, hrest⟩⟩⟩
  · exact ⟨⟨drive, dir, file, rest, by simpa using hpath, hdrive, hends, hbefore.1, hbefore.2, hfile,
      .inl ⟨hdot, hrest⟩⟩⟩

/-! ## 4. Filling -/

theorem getElem?_min (source : List Char) (i : Nat) :
    source[min i source.length]? = source[i]? := by
  by_cases hi : i ≤ source.length
  · rw [min_eq_left hi]
  · rw [min_eq_right (by omega), getElem?_eq_none le_rfl,
      getElem?_eq_none (by omega)]

theorem Filled.puts_src (hsrc : f.src = min i source.length) (c : Char) :
    (f.puts source c).src = min (i + 1) source.length := by
  simp only [Filled.puts, Filled.stores, Filled.looks, hsrc]
  split <;> omega

/-- **With enough room the loop computes `fill`.** -/
theorem fillLoop_text (source pattern : List Char) : ∀ (i len : Nat) (f : Filled),
    f.src = min i source.length → pattern.length ≤ len → source.length ≤ i + len →
    (fillLoop source len pattern f).text = f.text ++ fillAt source i pattern := by
  induction pattern with
  | nil =>
    intro i len f hsrc hpattern hroom
    cases len with
    | zero => simp [fillLoop, fillAt, Filled.stores]
    | succ len => simp [fillLoop, fillAt, Filled.stores]
  | cons c pattern ih =>
    intro i len f hsrc hpattern hroom
    rw [length_cons] at hpattern
    obtain ⟨len, rfl⟩ : ∃ n, len = n + 1 := ⟨len - 1, by omega⟩
    have hput : ∀ d, (fillLoop source len pattern (f.puts source d)).text =
        f.text ++ d :: fillAt source (i + 1) pattern := by
      intro d
      rw [ih (i + 1) len _ (Filled.puts_src hsrc d) (by omega) (by omega)]
      simp [Filled.puts, Filled.stores, Filled.looks]
    rw [fillLoop, fillAt]
    split
    · rw [hsrc, getElem?_min]
      cases hi : source[i]? with
      | none =>
        have hout := List.getElem?_eq_none_iff.mp hi
        rw [ih (i + 1) len _ (by simp [Filled.looks, Filled.stores]; omega) (by omega)
          (by omega)]
        simp [Filled.stores, Filled.looks]
      | some d => exact hput d
    · split
      · have hlen : (source.drop (min i source.length)).length ≤ len + 1 := by
          rw [length_drop]
          omega
        rw [Filled.copies, hsrc, take_of_length_le hlen]
        by_cases hi : i ≤ source.length
        · rw [min_eq_left hi]
        · rw [min_eq_right (by omega), drop_length, drop_of_length_le (by omega)]
      · exact hput c

@[simp] theorem beforeStar_nil : beforeStar [] = [] := rfl

theorem beforeStar_cons (hc : c ≠ '*') (pattern : List Char) :
    beforeStar (c :: pattern) = c :: beforeStar pattern := by
  rw [beforeStar, takeWhile_cons, if_pos (by simpa using hc)]
  rfl

@[simp] theorem beforeStar_star (pattern : List Char) : beforeStar ('*' :: pattern) = [] := rfl

theorem Filled.puts_readTo (hsrc : f.src = min i source.length) (c : Char) :
    (f.puts source c).readTo ≤ source.length + 1 ↔ f.readTo ≤ source.length + 1 := by
  simp only [Filled.puts, Filled.stores, Filled.looks]
  omega

/-- Only the `*` reads behind the terminator. -/
theorem fillLoop_readTo (source pattern : List Char) : ∀ (i len : Nat) (f : Filled),
    f.src = min i source.length → pattern.length ≤ len →
    ((fillLoop source len pattern f).readTo ≤ source.length + 1 ↔
      f.readTo ≤ source.length + 1 ∧ ('*' ∈ pattern →
        min (i + (beforeStar pattern).length) source.length + (len - (beforeStar pattern).length) ≤
          source.length + 1)) := by
  induction pattern with
  | nil =>
    intro i len f hsrc hpattern
    cases len with
    | zero => simp [fillLoop, Filled.stores]
    | succ len => simp [fillLoop, Filled.stores]
  | cons c pattern ih =>
    intro i len f hsrc hpattern
    rw [length_cons] at hpattern
    obtain ⟨len, rfl⟩ : ∃ n, len = n + 1 := ⟨len - 1, by omega⟩
    have hstep : ∀ g : Filled, g.src = min (i + 1) source.length →
        (g.readTo ≤ source.length + 1 ↔ f.readTo ≤ source.length + 1) → c ≠ '*' →
        ((fillLoop source len pattern g).readTo ≤ source.length + 1 ↔
          f.readTo ≤ source.length + 1 ∧ ('*' ∈ c :: pattern →
            min (i + (beforeStar (c :: pattern)).length) source.length +
              (len + 1 - (beforeStar (c :: pattern)).length) ≤ source.length + 1)) := by
      intro g hg hread hc
      rw [ih (i + 1) len g hg (by omega), hread, beforeStar_cons hc, length_cons,
        mem_cons, or_iff_right (Ne.symm hc), Nat.add_sub_add_right, Nat.add_right_comm i 1,
        Nat.add_assoc i]
    rw [fillLoop]
    split
    · rename_i hc
      have hplain : c ≠ '*' := by rw [hc]; decide
      cases hi : source[f.src]? with
      | none =>
        have hout := List.getElem?_eq_none_iff.mp hi
        refine hstep _ (by simp only [Filled.looks, Filled.stores]; omega) ?_ hplain
        simp only [Filled.looks, Filled.stores]
        omega
      | some d => exact hstep _ (Filled.puts_src hsrc d) (Filled.puts_readTo hsrc d) hplain
    · split
      · rename_i hc
        subst hc
        simp only [Filled.copies, beforeStar_star, length_nil, mem_cons_self, forall_const]
        omega
      · rename_i hc
        exact hstep _ (Filled.puts_src hsrc c) (Filled.puts_readTo hsrc c) hc

/-- And nothing is written behind the buffer. -/
theorem fillLoop_wroteTo (source : List Char) (pattern : List Char) :
    ∀ (len : Nat) (f : Filled), f.wroteTo ≤ size → f.text.length + len < size →
      (fillLoop source len pattern f).wroteTo ≤ size := by
  induction pattern with
  | nil =>
    intro len f hwrote hroom
    cases len with
    | zero => exact Nat.max_le.mpr ⟨hwrote, by omega⟩
    | succ len => exact Nat.max_le.mpr ⟨hwrote, by omega⟩
  | cons c pattern ih =>
    intro len f hwrote hroom
    cases len with
    | zero => exact Nat.max_le.mpr ⟨hwrote, by omega⟩
    | succ len =>
      have hput : ∀ d, (fillLoop source len pattern (f.puts source d)).wroteTo ≤ size := by
        intro d
        refine ih len _ (Nat.max_le.mpr ⟨hwrote, by omega⟩) ?_
        simp only [Filled.puts, Filled.stores, Filled.looks, length_append, length_singleton]
        omega
      rw [fillLoop]
      split
      · split
        · refine ih len _ (Nat.max_le.mpr ⟨hwrote, by omega⟩) ?_
          simp only [Filled.stores, Filled.looks]
          omega
        · exact hput _
      · split
        · simp only [Filled.copies, Filled.stores]
          omega
        · exact hput _

theorem fillComp_text (hpattern : pattern.length < size) (hsource : source.length < size) :
    (fillComp pattern source size).text = fillAt source 0 pattern := by
  rw [fillComp, fillLoop_text source pattern 0 (size - 1) _ (by simp) (by omega) (by omega)]
  rfl

theorem fillComp_readTo (hpattern : pattern.length < size) :
    (fillComp pattern source size).readTo ≤ source.length + 1 ↔ StarInside size pattern source := by
  rw [fillComp, fillLoop_readTo source pattern 0 (size - 1) _ (by simp) (by omega), StarInside]
  simp only [Nat.zero_le, true_and]
  exact imp_congr Iff.rfl (by omega)

theorem fillComp_wroteTo (pattern source : List Char) (hsize : 0 < size) :
    (fillComp pattern source size).wroteTo ≤ size :=
  fillLoop_wroteTo source pattern (size - 1) _ (Nat.zero_le _) (by simp; omega)

/-! ## 5. What a pattern becomes -/

theorem fillAt_plain (hplain : NoWild pattern) (source : List Char) :
    ∀ i, fillAt source i pattern = pattern := by
  induction pattern with
  | nil => exact fun _ => rfl
  | cons c pattern ih =>
    intro i
    simp only [NoWild, mem_cons, not_or] at hplain
    rw [fillAt, if_neg (Ne.symm hplain.1.1), if_neg (Ne.symm hplain.2.1),
      ih ⟨hplain.1.2, hplain.2.2⟩]

theorem fillAt_length_le (hab : a.length ≤ b.length) (pattern : List Char) :
    ∀ i, (fillAt a i pattern).length ≤ (fillAt b i pattern).length := by
  induction pattern with
  | nil => exact fun _ => le_rfl
  | cons c pattern ih =>
    intro i
    have hrest := ih (i + 1)
    rw [fillAt, fillAt]
    split
    · rw [length_append, length_append]
      refine Nat.add_le_add ?_ hrest
      cases ha : a[i]? with
      | none => exact Nat.zero_le _
      | some d =>
        have hi := (List.getElem?_eq_some_iff.mp ha).1
        rw [getElem?_eq_getElem (by omega : i < b.length)]
        exact le_rfl
    · split
      · simp only [length_drop]
        omega
      · exact Nat.succ_le_succ hrest

/-- Two sources give the same if their wildcards stand for the same: the longer one has them all. -/
theorem fillAt_inj (hab : a.length ≤ b.length) (pattern : List Char) :
    ∀ i, fillAt a i pattern = fillAt b i pattern ↔
      standFor a i pattern = standFor b i pattern := by
  induction pattern with
  | nil => exact fun _ => by simp [fillAt, standFor]
  | cons c pattern ih =>
    intro i
    rw [fillAt, fillAt, standFor, standFor]
    split
    · rw [List.cons.injEq, ← ih (i + 1)]
      cases ha : a[i]? with
      | some d =>
        have hi := (List.getElem?_eq_some_iff.mp ha).1
        rw [getElem?_eq_getElem (by omega : i < b.length)]
        simp
      | none =>
        cases hb : b[i]? with
        | none => simp
        | some d =>
          have hle := fillAt_length_le hab pattern (i + 1)
          refine ⟨fun h => ?_, nofun⟩
          have hlen := congrArg List.length h
          simp only [Option.toList_none, Option.toList_some, length_append, length_nil,
            length_singleton] at hlen
          omega
    · split
      · simp
      · rw [List.cons.injEq, ← ih (i + 1)]
        simp

theorem fillAt_eq_iff (a b pattern : List Char) :
    fillAt a 0 pattern = fillAt b 0 pattern ↔ standFor a 0 pattern = standFor b 0 pattern := by
  rcases le_total a.length b.length with hab | hab
  · exact fillAt_inj hab pattern 0
  · rw [eq_comm, fillAt_inj hab pattern 0, eq_comm]

theorem noWild_append (s t : List Char) : NoWild (s ++ t) ↔ NoWild s ∧ NoWild t := by
  simp only [NoWild, mem_append]
  tauto

/-- What is filled has the wildcards of what is put in. -/
theorem noWild_fillAt (source pattern : List Char) : ∀ i,
    NoWild (fillAt source i pattern) ↔ ∀ t ∈ standFor source i pattern, NoWild t := by
  induction pattern with
  | nil => exact fun _ => by simp [fillAt, standFor, NoWild]
  | cons c pattern ih =>
    intro i
    rw [fillAt, standFor]
    split
    · rw [noWild_append, ih (i + 1), forall_mem_cons]
    · split
      · simp
      · rename_i hquestion hstar
        rw [← ih (i + 1)]
        simp [NoWild, Ne.symm hquestion, Ne.symm hstar]

theorem fillAt_eq_nil (source pattern : List Char) : ∀ i, fillAt source i pattern = [] ↔
    (∀ c ∈ beforeStar pattern, c = '?') ∧ ∀ t ∈ standFor source i pattern, t = [] := by
  induction pattern with
  | nil => exact fun _ => by simp [fillAt, standFor]
  | cons c pattern ih =>
    intro i
    rw [fillAt, standFor]
    split
    · rename_i hc
      subst hc
      rw [append_eq_nil_iff, ih (i + 1), beforeStar_cons (by decide)]
      simp only [forall_mem_cons]
      tauto
    · split
      · rename_i hstar
        subst hstar
        simp
      · rename_i hquestion hstar
        rw [beforeStar_cons hstar]
        simp [hquestion]

/-! ## 6. The call -/

/-- Drive and directory come through the merge as they are; an extension needs a name. -/
theorem NameParts.myfnmerge_eq (p : NameParts path) (name ext : List Char) :
    myfnmerge p.drive p.dir name ext = p.drive ++ p.dir ++ name ++ ext ↔ (name = [] → ext = []) := by
  have hdir : (if p.dir ≠ [] then
      if p.dir.getLast? ≠ some '\\' then (if p.drive ≠ [] then p.drive else []) ++ p.dir ++ ['\\']
      else (if p.drive ≠ [] then p.drive else []) ++ p.dir
    else if p.drive ≠ [] then p.drive else []) = p.drive ++ p.dir := by
    obtain h | ⟨front, h⟩ := p.dir_ends
    · simp [h]
    · simp [h]
  simp only [myfnmerge, hdir]
  by_cases hname : name = []
  · simp [hname]
  · by_cases hext : ext = []
    · simp [hname, hext]
    · simp [hname, hext]

theorem NameParts.noWild_parts (p : NameParts path) (hplain : NoWild path) :
    NoWild p.drive ∧ NoWild p.dir ∧ NoWild p.name ∧ NoWild p.ext := by
  have h := hplain
  rw [← p.joined, noWild_append, noWild_append, noWild_append] at h
  exact ⟨h.1.1.1, h.1.1.2, h.1.2, h.2⟩

theorem seenName_length {z : NameSizes} {fnam : List Char} {s : NameParts fnam} (hfits : s.Fits z) :
    (seenName s).length < z.maxfile := by
  unfold seenName
  split
  · exact hfits.2.2.1
  · have hroom := z.file_room
    have hle := length_filter_le (fun c => c != '.' && c != '\\' && c != ':') (fnam.take 1)
    rw [length_take] at hle
    omega

section Call

variable {z : NameSizes} {pattern fnam : List Char} (p : NameParts pattern) (s : NameParts fnam)

theorem fillFnam_dfn : (fillFnam z pattern fnam).dfn = fillComp p.name (seenName s) z.maxfile := by
  rw [fillFnam, p.myfnsplit_eq, s.myfnsplit_seen.2.1]

theorem fillFnam_dex : (fillFnam z pattern fnam).dex = fillComp p.ext (seenExt s) z.maxext := by
  rw [fillFnam, p.myfnsplit_eq, s.myfnsplit_seen.2.2.1]

theorem fillFnam_dest : (fillFnam z pattern fnam).dest = myfnmerge p.drive p.dir
    (fillFnam z pattern fnam).dfn.text (fillFnam z pattern fnam).dex.text := by
  rw [fillFnam, p.myfnsplit_eq]

variable {p s}

theorem FillsWhen.right (hp : p.Fits z) (hs : s.Fits z) (h : FillsWhen z p s) :
    FillsRight z p s (fillFnam z pattern fnam) := by
  have hname : (fillFnam z pattern fnam).dfn.text = fillAt s.name 0 p.name := by
    rw [fillFnam_dfn p s, fillComp_text hp.2.2.1 (seenName_length hs)]
    exact (fillAt_eq_iff _ _ _).mpr h.name_seen
  have hext : (fillFnam z pattern fnam).dex.text = fillAt s.ext 0 p.ext := by
    rw [fillFnam_dex p s, fillComp_text hp.2.2.2 h.ext_room]
    exact (fillAt_eq_iff _ _ _).mpr h.ext_seen
  have hdest : (fillFnam z pattern fnam).dest = p.drive ++ p.dir ++
      (fillFnam z pattern fnam).dfn.text ++ (fillFnam z pattern fnam).dex.text := by
    rw [fillFnam_dest p, p.myfnmerge_eq, hname, hext, fillAt_eq_nil, fillAt_eq_nil]
    exact h.kept
  have hseen := s.myfnsplit_seen
  exact
    { name := hname
      ext := hext
      dest := hdest
      unchanged := by
        intro hplain
        have hparts := p.noWild_parts hplain
        rw [hdest, hname, hext, fillAt_plain hparts.2.2.1, fillAt_plain hparts.2.2.2, p.joined]
      filled := by
        rw [hdest, hname, hext, noWild_append, noWild_append, noWild_append, noWild_fillAt,
          noWild_fillAt]
        exact ⟨⟨⟨h.drive_plain, h.dir_plain⟩, h.name_plain⟩, h.ext_plain⟩
      reads := by
        rw [fillFnam_dfn p s, fillFnam_dex p s]
        simp only [fillFnam, hseen.2.1, hseen.2.2.1]
        exact ⟨(fillComp_readTo hp.2.2.1).mpr h.name_star, (fillComp_readTo hp.2.2.2).mpr h.ext_star⟩
      writes := by
        have hfile := z.file_room
        exact ⟨fillComp_wroteTo _ _ (by omega), fillComp_wroteTo _ _ z.ext_room⟩
      pattern_inside := by
        simp only [fillFnam, p.myfnsplit_eq]
        exact hp
      fnam_inside := by
        have hdrive := z.drive_room
        have hroom := z.dir_room
        have hdir := hs.2.1
        simp only [fillFnam, Split.Inside, hseen.1, hseen.2.1, hseen.2.2.1, length_nil]
        exact ⟨by omega, by omega, seenName_length hs, h.ext_room⟩ }

theorem FillsRight.fills_when (hp : p.Fits z) (hs : s.Fits z)
    (h : FillsRight z p s (fillFnam z pattern fnam)) : FillsWhen z p s := by
  have hseen := s.myfnsplit_seen
  have hreads := h.reads
  simp only [fillFnam_dfn p s, fillFnam_dex p s] at hreads
  simp only [fillFnam, hseen.2.1, hseen.2.2.1] at hreads
  have hroom : (seenExt s).length < z.maxext := by
    have hinside := h.fnam_inside.2.2.2
    simpa only [fillFnam, hseen.2.2.1] using hinside
  have hname : fillAt (seenName s) 0 p.name = fillAt s.name 0 p.name := by
    rw [← h.name, fillFnam_dfn p s, fillComp_text hp.2.2.1 (seenName_length hs)]
  have hext : fillAt (seenExt s) 0 p.ext = fillAt s.ext 0 p.ext := by
    rw [← h.ext, fillFnam_dex p s, fillComp_text hp.2.2.2 hroom]
  have hkept := h.dest
  rw [fillFnam_dest p, p.myfnmerge_eq, h.name, h.ext, fillAt_eq_nil, fillAt_eq_nil] at hkept
  have hfilled := h.filled
  rw [h.dest, h.name, h.ext, noWild_append, noWild_append, noWild_append, noWild_fillAt,
    noWild_fillAt] at hfilled
  exact
    { name_star := (fillComp_readTo hp.2.2.1).mp hreads.1
      ext_star := (fillComp_readTo hp.2.2.2).mp hreads.2
      name_seen := (fillAt_eq_iff _ _ _).mp hname
      ext_seen := (fillAt_eq_iff _ _ _).mp hext
      ext_room := hroom
      kept := hkept
      drive_plain := hfilled.1.1.1
      dir_plain := hfilled.1.1.2
      name_plain := hfilled.1.2
      ext_plain := hfilled.2 }

end Call

/-- **When the wildcards are filled right.**  For every pattern and source whose parts fit, `fillFnam`
does what it is to do if and only if no memcpy goes behind the source part, a drive of the source
makes no difference, no extension is lost with its name, and nothing that is kept or put in is a
wildcard. -/
theorem fills_right_iff (z : NameSizes) {pattern fnam : List Char} (p : NameParts pattern)
    (s : NameParts fnam) (hp : p.Fits z) (hs : s.Fits z) :
    FillsRight z p s (fillFnam z pattern fnam) ↔ FillsWhen z p s :=
  ⟨FillsRight.fills_when hp hs, FillsWhen.right hp hs⟩

/-- `x?.bak` -/
def questionBak : NameParts "x?.bak".toList where
  drive := []
  dir := []
  name := "x?".toList
  ext := ".bak".toList
  joined := rfl
  drive_eq := rfl
  dir_ends := Or.inl rfl
  dir_colon := by decide
  name_colon := by decide
  name_plain := by decide
  ext_starts := Or.inr ⟨"bak".toList, [], rfl, by decide, by decide, by decide, Or.inl rfl⟩

/-- `*.bak` -/
def starBak : NameParts "*.bak".toList where
  drive := []
  dir := []
  name := "*".toList
  ext := ".bak".toList
  joined := rfl
  drive_eq := rfl
  dir_ends := Or.inl rfl
  dir_colon := by decide
  name_colon := by decide
  name_plain := by decide
  ext_starts := Or.inr ⟨"bak".toList, [], rfl, by decide, by decide, by decide, Or.inl rfl⟩

/-- `ab.txt` -/
def abTxt : NameParts "ab.txt".toList where
  drive := []
  dir := []
  name := "ab".toList
  ext := ".txt".toList
  joined := rfl
  drive_eq := rfl
  dir_ends := Or.inl rfl
  dir_colon := by decide
  name_colon := by decide
  name_plain := by decide
  ext_starts := Or.inr ⟨"txt".toList, [], rfl, by decide, by decide, by decide, Or.inl rfl⟩

theorem fills_right_question :
    FillsRight lfnSizes questionBak abTxt (fillFnam lfnSizes "x?.bak".toList "ab.txt".toList) ↔
      FillsWhen lfnSizes questionBak abTxt :=
  fills_right_iff lfnSizes questionBak abTxt (by decide +kernel) (by decide +kernel)

/-- **A single `*`**: 254 bytes are copied from a name of two. -/
theorem star_copied_from_behind :
    ¬ FillsRight lfnSizes starBak abTxt (fillFnam lfnSizes "*.bak".toList "ab.txt".toList) := by
  intro h
  have hread : (fillFnam lfnSizes "*.bak".toList "ab.txt".toList).dfn.readTo = 254 := by
    decide +kernel
  have hname : (fillFnam lfnSizes "*.bak".toList "ab.txt".toList).fnam.name.length = 2 := by
    decide +kernel
  have hreads := h.reads.1
  omega

end SdcBoot.FreeCom
