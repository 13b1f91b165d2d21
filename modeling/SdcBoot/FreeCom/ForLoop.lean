/-
# FOR

`checkFOR` takes a FOR line apart, `doFOR` makes a context of it, and each `readbatchline` on that
context gives the command for the next element: an element without wildcards itself, one with
wildcards the files that are found, with the path of the element in front.  The context remembers
where it is by `shiftlevel`, the find block and the element, which is cut off behind its path.

`forElements` is the list of what the variable stands for.  `pending` reads off a context what of it
is still to come, and a call takes the first of that (`forLoop_spec`).  So the lines are those of
the list, to its end, or up to the break or the memory that ends it (`forRun_lines`).

Nobody bounds a line: what goes behind `textline[size]` is found by arithmetic only
(`for_exact_iff`).  And memcmp is given the whole length of the variable at each place of the
prototype, which at its last character is too much for a variable with two percent signs.
-/
import Mathlib.Data.List.GetD
import SdcBoot.FreeCom.Expand
import SdcBoot.FreeCom.Alias

namespace SdcBoot.FreeCom

open List

/-! ## 1. The words of a line -/

/-- isoptdelim -/
def isoptdelim (c : Char) : Bool := decide (c.toNat ≤ 32) || c.toNat == 127

/-- isoptch -/
def isoptch (c : Char) : Bool := c == '/'

/-- `skipdm`: a switch character is no delimiter of either kind. -/
def skipdm (s : List Char) : List Char := s.dropWhile isargdelim

/-- The loop of `find` that looks for a delimiter: how many characters it passes. -/
def findDelim (isopt : Bool) : Bool → List Char → Nat
  | _, [] => 0
  | quote, ch :: p =>
    if quote ∨ ¬ ((if isopt then isoptdelim ch else isargdelim ch) || isoptch ch) then
      findDelim isopt (if isQuote ch then !quote else quote) p + 1
    else 0

/-- `skip_word`: how many characters it passes.  The switch characters in front of an option are
part of it. -/
def skipWord (s : List Char) : Nat :=
  if s.head?.any isoptch then
    let n := (s.takeWhile isoptch).length
    n + findDelim true false (s.drop n)
  else findDelim false false s

/-- `unquote`: the quotes of a word are taken away. -/
def unquote : Nat → List Char → List Char
  | 0, s => s
  | fuel + 1, s =>
    let before := s.takeWhile fun c => !isQuote c
    match s.dropWhile fun c => !isQuote c with
    | [] => before
    | _ :: q =>
      match q.dropWhile fun c => !isQuote c with
      | [] => before ++ q
      | _ :: rest => before ++ q.takeWhile (fun c => !isQuote c) ++ unquote fuel rest

/-- `split`.  Every word takes a character of the line. -/
def splitFrom : Nat → List Char → List (List Char)
  | 0, _ => []
  | fuel + 1, s =>
    let start := skipdm s
    if start = [] then []
    else
      let word := start.take (skipWord start)
      unquote word.length word :: splitFrom fuel (start.drop (skipWord start))

def split (s : List Char) : List (List Char) := splitFrom s.length s

example : split "a;\"b c\" dir\\*.txt/x".toList =
    ["a".toList, "b c".toList, "dir\\*.txt".toList, "/x".toList] := by decide

/-! ## 2. The command -/

inductive ForErrors where
  | badVar
  | noIN
  | noParens
  | noDO
  | noCMD
  deriving DecidableEq

/-- The variable, the list and the command of a FOR line. -/
structure ForParts where
  varname : List Char
  param : List Char
  cmd : List Char
  deriving DecidableEq

/-- Search for the right parenthesis: what stands in front of it and behind it. -/
def rightParen : Bool → List Char → List Char → Option (List Char × List Char)
  | _, _, [] => none
  | inQuote, before, c :: rest =>
    if isQuote c then rightParen (!inQuote) (before ++ [c]) rest
    -- COMMAND bug: sees right parens only if followed by whitespace
    else if c = ')' ∧ inQuote = false ∧ rest.head?.all isargdelim then some (before, rest)
    else rightParen inQuote (before ++ [c]) rest

/-- From the list on. -/
def checkList (varname param : List Char) : Except ForErrors ForParts :=
  match param with
  | '(' :: rest =>
    match rightParen false [] rest with
    | none => .error .noParens
    | some (list, rest) =>
      let param := ltrimcl rest
      if ¬ matchtok param "DO".toList then .error .noDO
      else
        let cmd := ltrimcl (param.drop 2)
        if cmd = [] then .error .noCMD else .ok ⟨varname, list, cmd⟩
  | _ => .error .noParens

/-- `checkFOR`.  Behind a variable that ends the line there is nothing. -/
def checkFOR (param : List Char) : Except ForErrors ForParts :=
  let percents := param.takeWhile (· == '%')
  match param.dropWhile (· == '%') with
  | v :: rest =>
    if percents ≠ [] ∧ v.isAlpha = true ∧ rest.head?.all isargdelim = true then
      let param := ltrimcl (rest.drop 1)
      if ¬ matchtok param "IN".toList then .error .noIN
      else checkList (percents ++ [v]) (ltrimcl (param.drop 2))
    else .error .badVar
  | [] => .error .badVar

example : checkFOR "%%f IN (a *.c) DO echo %%f".toList =
    .ok ⟨"%%f".toList, "a *.c".toList, "echo %%f".toList⟩ := by decide

/-- The context of a FOR.  The find block is what its search has still to report; `rounds` counts
what the loop has asked for. -/
structure ForContext where
  forproto : List Char
  forvar : List Char
  params : List (List Char)
  shiftlevel : Nat
  ffind : Option (List (List Char))
  rounds : Nat
  deriving DecidableEq

/-- Which of the allocations of `doFOR` have memory. -/
structure ForMemory where
  context : Bool
  forproto : Bool
  forvar : Bool
  params : Bool

/-- The elements of the list. -/
def listElements (e : Expander) (param : List Char) : List (List Char) :=
  match expandEnvVars e param with
  | some x => split x.line
  | none => []

def doFOR (e : Expander) (m : ForMemory) (p : ForParts) : Option ForContext :=
  match expandEnvVars e p.param with
  | none => none
  | some x =>
    if x.rc = 0 ∨ ¬ (m.context ∧ m.forproto ∧ m.forvar ∧ m.params) then none
    else some ⟨p.cmd, p.varname, split x.line, 1, none, 0⟩

/-! ## 3. The next line -/

/-- dfndelim2 -/
def dfndelim2 (c : Char) : Bool := c == '/' || c == '\\' || c == ':'

/-- What is left of an element when `*dfnfilename(fv)` is made its end. -/
def pathPart (fv : List Char) : List Char :=
  (fv.reverse.dropWhile fun c => !dfndelim2 c).reverse

/-- `strpbrk(fv, "?*")` -/
def isWild (fv : List Char) : Bool := fv.any fun c => c == '?' || c == '*'

/-- The directories: what FindFirst and FindNext report for an element, which is given with its
number. -/
abbrev Directories := Nat → List Char → List (List Char)

/-- What happens in the rounds: user breaks, and memory for a find block. -/
structure ForEvents where
  cbreak : Nat → Bool
  memory : Nat → Bool

/-- No break, and memory always. -/
def ForEvents.Calm (ev : ForEvents) : Prop := ∀ n, ev.cbreak n = false ∧ ev.memory n = true

/-- A line: its text, and how many bytes of the prototype were read and of `textline` written. -/
structure ForLine where
  text : List Char
  readTo : Nat
  wroteTo : Nat
  deriving DecidableEq

/-- The substitution, from place `sp` of the prototype on. -/
def forExpand (forproto forvar value : List Char) : Nat → Nat → ForLine → ForLine
  | 0, _, l => { l with wroteTo := max l.wroteTo (l.text.length + 1) }
  | fuel + 1, sp, l =>
    match forproto[sp]? with
    -- the NUL
    | none =>
      { l with readTo := max l.readTo (sp + 1), wroteTo := max l.wroteTo (l.text.length + 1) }
    | some c =>
      -- memcmp is asked for all of the variable
      let readTo := max l.readTo (sp + forvar.length)
      if (forproto.drop sp).take forvar.length = forvar then
        let text := l.text ++ value
        forExpand forproto forvar value fuel (sp + forvar.length)
          ⟨text, readTo, max l.wroteTo (text.length + 1)⟩
      else
        let text := l.text ++ [c]
        forExpand forproto forvar value fuel (sp + 1) ⟨text, readTo, max l.wroteTo text.length⟩

/-- The prototype expanded. -/
def forLine (forproto forvar value : List Char) : ForLine :=
  forExpand forproto forvar value (forproto.length + 1) 0 ⟨[], 0, 0⟩

/-- The end of a round: another one, the context is left, for good or for want of memory, or there
is a value of the variable. -/
inductive ForRound where
  | next (c : ForContext)
  | exit
  | noMemory
  | value (text : List Char) (c : ForContext)

/-- The element at `shiftlevel`. -/
def ForContext.getArgCur (c : ForContext) : List Char :=
  (findArgBc (some ⟨c.shiftlevel, [], c.params⟩) 0).getD []

/-- One round of the loop of `readbatchline`, in the context of a FOR. -/
def ForContext.round (d : Directories) (ev : ForEvents) (c : ForContext) : ForRound :=
  if ev.cbreak c.rounds ∨ c.shiftlevel > c.params.length then .exit
  else
    let fv := c.getArgCur
    let next := { c with rounds := c.rounds + 1 }
    match c.ffind with
    | some (name :: names) => .value (fv ++ name) { next with ffind := some names }
    | some [] => .next { next with ffind := none, shiftlevel := c.shiftlevel + 1 }
    | none =>
      if ¬ isWild fv then .value fv { next with shiftlevel := c.shiftlevel + 1 }
      else if ¬ ev.memory c.rounds then .noMemory
      else
        match d c.shiftlevel fv with
        | name :: names =>
          -- extract path
          .value (pathPart fv ++ name)
            { next with
              params := c.params.set (c.shiftlevel - 1) (pathPart fv)
              ffind := some names }
        | [] => .next { next with shiftlevel := c.shiftlevel + 1 }

/-- `readbatchline`: a line, or the context was left; no result without enough rounds. -/
def forLoop (d : Directories) (ev : ForEvents) :
    Nat → ForContext → Option (Option (ForLine × ForContext))
  | 0, _ => none
  | rounds + 1, c =>
    match c.round d ev with
    | .next c => forLoop d ev rounds c
    | .exit => some none
    | .noMemory => some none
    | .value text c => some (some (forLine c.forproto c.forvar text, c))

/-- A call: each element but the one that is used takes one round. -/
def readForLine (d : Directories) (ev : ForEvents) (c : ForContext) :
    Option (Option (ForLine × ForContext)) :=
  forLoop d ev (c.params.length + 2 - c.shiftlevel) c

/-- At most so many calls, and whether the last one has left the context.  What runs between two of
them leaves the context alone, which SHIFT would not. -/
def forRun (d : Directories) (ev : ForEvents) : Nat → ForContext → List ForLine × Bool
  | 0, _ => ([], false)
  | calls + 1, c =>
    match readForLine d ev c with
    | none => ([], false)
    | some none => ([], true)
    | some (some (line, c)) => (line :: (forRun d ev calls c).1, (forRun d ev calls c).2)

/-! ## 4. What it is for -/

/-- **What the variable stands for**, from element number `n` on. -/
def forElements (d : Directories) : Nat → List (List Char) → List (List Char)
  | _, [] => []
  | n, e :: elements =>
    (if isWild e then (d n e).map (pathPart e ++ ·) else [e]) ++ forElements d (n + 1) elements

/-- **A prototype read from left to right**: the variable, or a character.  The number is how many
characters of an occurrence are still to be passed. -/
def forItems (forvar : List Char) : Nat → List Char → List (Option Char)
  | _, [] => []
  | k + 1, _ :: proto => forItems forvar k proto
  | 0, c :: proto =>
    if (c :: proto).take forvar.length = forvar then none :: forItems forvar (forvar.length - 1) proto
    else some c :: forItems forvar 0 proto

/-- The text of an item. -/
def itemText (value : List Char) : Option Char → List Char
  | none => value
  | some c => [c]

/-- **The prototype with a value for the variable.** -/
def substituted (forproto forvar value : List Char) : List Char :=
  (forItems forvar 0 forproto).flatMap (itemText value)

/-- How often the variable occurs. -/
def occurrences (forproto forvar : List Char) : Nat := (forItems forvar 0 forproto).count none

/-- **What a FOR is to do**: for whatever happens, one line for each element, in order, to the end if
nothing happens; then the context is left; and each line is made inside of the prototype and of
`textline`. -/
def ForRight (d : Directories) (size : Nat) (p : ForParts) (elements : List (List Char))
    (c : ForContext) : Prop :=
  ∀ ev : ForEvents, ∃ lines : List ForLine,
    forRun d ev ((forElements d 1 elements).length + 1) c = (lines, true) ∧
    lines.map ForLine.text <+: (forElements d 1 elements).map (substituted p.cmd p.varname) ∧
    (ev.Calm →
      lines.map ForLine.text = (forElements d 1 elements).map (substituted p.cmd p.varname)) ∧
    ∀ line ∈ lines, line.readTo ≤ p.cmd.length + 1 ∧ line.wroteTo ≤ size + 1

/-- **When it does**: with a value for each occurrence the prototype is not longer than `textline`,
and where the prototype does not end with the variable that has one percent sign. -/
def ForWithin (d : Directories) (size : Nat) (p : ForParts) (elements : List (List Char)) : Prop :=
  ∀ value ∈ forElements d 1 elements,
    p.cmd.length + occurrences p.cmd p.varname * value.length ≤
      size + occurrences p.cmd p.varname * p.varname.length ∧
    ∀ ch, (forItems p.varname 0 p.cmd).getLast? = some (some ch) → p.varname.length ≤ 2

/-! ## 5. One line -/

theorem forItems_skip (forvar : List Char) (proto : List Char) :
    ∀ k, forItems forvar k proto = forItems forvar 0 (proto.drop k) := by
  induction proto with
  | nil => exact fun k => by cases k <;> rfl
  | cons c proto ih =>
    intro k
    cases k with
    | zero => rfl
    | succ k => exact ih k

variable {forvar : List Char} {c : ForContext}

theorem forItems_occurrence (hvar : forvar ≠ []) {proto : List Char}
    (h : proto.take forvar.length = forvar) :
    forItems forvar 0 proto = none :: forItems forvar 0 (proto.drop forvar.length) := by
  cases proto with
  | nil =>
    rw [take_nil] at h
    exact absurd h.symm hvar
  | cons c proto =>
    have hlen := length_pos_iff.mpr hvar
    rw [forItems, if_pos h, forItems_skip]
    congr 2
    rw [← Nat.succ_pred_eq_of_pos hlen]
    rfl

theorem forItems_kept {c : Char} {proto : List Char}
    (h : (c :: proto).take forvar.length ≠ forvar) :
    forItems forvar 0 (c :: proto) = some c :: forItems forvar 0 proto := by
  rw [forItems, if_neg h]

/-- Nothing but the variable is read as the variable, and nothing else is lost. -/
theorem forItems_text (hvar : forvar ≠ []) : ∀ (n : Nat) (proto : List Char),
    proto.length ≤ n → (forItems forvar 0 proto).flatMap (itemText forvar) = proto := by
  intro n
  induction n with
  | zero =>
    intro proto hn
    rw [length_eq_zero_iff.mp (Nat.le_zero.mp hn)]
    rfl
  | succ n ih =>
    intro proto hn
    by_cases h : proto.take forvar.length = forvar
    · have hlen := length_pos_iff.mpr hvar
      rw [forItems_occurrence hvar h, flatMap_cons, itemText,
        ih _ (by rw [length_drop]; omega)]
      conv_rhs => rw [← take_append_drop forvar.length proto, h]
    · cases proto with
      | nil => rfl
      | cons c proto =>
        rw [forItems_kept h, flatMap_cons, itemText, ih _ (by simpa using hn)]
        rfl

theorem flatMap_itemText_length (value : List Char) (items : List (Option Char)) :
    (items.flatMap (itemText value)).length + items.count none =
      items.length + items.count none * value.length := by
  induction items with
  | nil => simp
  | cons item items ih =>
    rw [flatMap_cons, length_append, length_cons, count_cons]
    cases item with
    | none =>
      simp only [itemText, BEq.rfl, if_true, Nat.add_mul]
      omega
    | some c =>
      simp only [itemText, length_singleton]
      rw [if_neg (by simp), Nat.add_zero]
      omega

/-- **The length of a line.** -/
theorem substituted_length (hvar : forvar ≠ []) (proto value : List Char) :
    (substituted proto forvar value).length + occurrences proto forvar * forvar.length =
      proto.length + occurrences proto forvar * value.length := by
  have hvalue := flatMap_itemText_length value (forItems forvar 0 proto)
  have hproto := flatMap_itemText_length forvar (forItems forvar 0 proto)
  rw [forItems_text hvar _ _ le_rfl] at hproto
  unfold substituted occurrences
  omega

/-- The rest of a prototype is long enough for the occurrences in it. -/
theorem forvar_length_le (proto : List Char) :
    ∀ k, none ∈ forItems forvar k proto → forvar.length ≤ proto.length := by
  induction proto with
  | nil => exact fun k h => by cases k <;> cases h
  | cons c proto ih =>
    intro k h
    cases k with
    | succ k => exact Nat.le_succ_of_le (ih k h)
    | zero =>
      rw [forItems] at h
      split at h
      · rename_i htake
        have hlen := congrArg List.length htake
        rw [length_take] at hlen
        omega
      · simp only [mem_cons, reduceCtorEq, false_or] at h
        exact Nat.le_succ_of_le (ih 0 h)

section Expand

variable (proto : List Char) {forvar : List Char} (value : List Char)

section

variable (hvar : forvar ≠ [])
include hvar

/-- The loop copies the items. -/
theorem forExpand_text : ∀ (fuel sp : Nat) (l : ForLine),
    proto.length < sp + fuel → (forExpand proto forvar value fuel sp l).text =
      l.text ++ (forItems forvar 0 (proto.drop sp)).flatMap (itemText value) := by
  intro fuel
  induction fuel with
  | zero =>
    intro sp l hfuel
    rw [drop_of_length_le (by omega)]
    simp [forExpand, forItems]
  | succ fuel ih =>
    intro sp l hfuel
    rw [forExpand]
    cases hsp : proto[sp]? with
    | none =>
      rw [drop_of_length_le (List.getElem?_eq_none_iff.mp hsp)]
      simp [forItems]
    | some c =>
      obtain ⟨hlt, hc⟩ := List.getElem?_eq_some_iff.mp hsp
      have hlen := length_pos_iff.mpr hvar
      simp only
      split
      · rename_i htake
        rw [ih _ _ (by omega), forItems_occurrence hvar htake, drop_drop, flatMap_cons,
          itemText, append_assoc]
      · rename_i htake
        have hdrop : proto.drop sp = c :: proto.drop (sp + 1) := by
          rw [drop_eq_getElem_cons hlt, hc]
        rw [ih _ _ (by omega), hdrop, forItems_kept (hdrop ▸ htake), flatMap_cons, itemText,
          append_assoc]

theorem forExpand_text_le (fuel sp : Nat) (l : ForLine) (hfuel : proto.length < sp + fuel) :
    l.text.length ≤ (forExpand proto forvar value fuel sp l).text.length := by
  rw [forExpand_text proto value hvar fuel sp l hfuel, length_append]
  exact Nat.le_add_right _ _

/-- The NUL is the last that is written. -/
theorem forExpand_wroteTo : ∀ (fuel sp : Nat) (l : ForLine),
    proto.length < sp + fuel → (forExpand proto forvar value fuel sp l).wroteTo =
      max l.wroteTo ((forExpand proto forvar value fuel sp l).text.length + 1) := by
  intro fuel
  induction fuel with
  | zero => exact fun sp l hfuel => rfl
  | succ fuel ih =>
    intro sp l hfuel
    have hlen := length_pos_iff.mpr hvar
    rw [forExpand]
    cases proto[sp]? with
    | none => rfl
    | some c =>
      simp only
      split
      · have hle := forExpand_text_le proto value hvar fuel (sp + forvar.length)
          ⟨l.text ++ value, max l.readTo (sp + forvar.length),
            max l.wroteTo ((l.text ++ value).length + 1)⟩ (by omega)
        rw [ih _ _ (by omega)]
        simp only at hle ⊢
        omega
      · have hle := forExpand_text_le proto value hvar fuel (sp + 1)
          ⟨l.text ++ [c], max l.readTo (sp + forvar.length),
            max l.wroteTo (l.text ++ [c]).length⟩ (by omega)
        rw [ih _ _ (by omega)]
        simp only at hle ⊢
        omega

/-- What is read behind the prototype, a comparison at its last character reads. -/
theorem forExpand_readTo : ∀ (fuel sp : Nat) (l : ForLine),
    sp ≤ proto.length → proto.length < sp + fuel →
    ((forExpand proto forvar value fuel sp l).readTo ≤ proto.length + 1 ↔
      l.readTo ≤ proto.length + 1 ∧ ∀ ch,
        (forItems forvar 0 (proto.drop sp)).getLast? = some (some ch) → forvar.length ≤ 2) := by
  intro fuel
  induction fuel with
  | zero =>
    intro sp l hsp hfuel
    omega
  | succ fuel ih =>
    intro sp l hsp hfuel
    have hlen := length_pos_iff.mpr hvar
    rw [forExpand]
    cases hat : proto[sp]? with
    | none =>
      rw [drop_of_length_le (List.getElem?_eq_none_iff.mp hat)]
      simp only [forItems, getLast?_nil, reduceCtorEq, IsEmpty.forall_iff, implies_true, and_true]
      omega
    | some c =>
      obtain ⟨hlt, hc⟩ := List.getElem?_eq_some_iff.mp hat
      simp only
      split
      · rename_i htake
        have hinside := congrArg List.length htake
        rw [length_take, length_drop] at hinside
        rw [ih _ _ (by omega) (by omega), forItems_occurrence hvar htake, drop_drop,
          getLast?_cons]
        refine and_congr (by simp only; omega) (forall_congr' fun ch => ?_)
        cases (forItems forvar 0 (proto.drop (sp + forvar.length))).getLast? with
        | none => simp
        | some item => simp
      · rename_i htake
        have hdrop : proto.drop sp = c :: proto.drop (sp + 1) := by
          rw [drop_eq_getElem_cons hlt, hc]
        rw [ih _ _ (by omega) (by omega), hdrop, forItems_kept (hdrop ▸ htake), getLast?_cons]
        have hmax : max l.readTo (sp + forvar.length) ≤ proto.length + 1 ↔
            l.readTo ≤ proto.length + 1 ∧ sp + forvar.length ≤ proto.length + 1 := Nat.max_le
        rw [hmax, and_assoc]
        refine and_congr Iff.rfl ?_
        cases hitems : (forItems forvar 0 (proto.drop (sp + 1))).getLast? with
        | none =>
          -- this is the last character
          have hend : proto.length = sp + 1 := by
            by_contra hne
            have hnil := getLast?_eq_none_iff.mp hitems
            have hrest := forItems_text hvar _ (proto.drop (sp + 1)) le_rfl
            rw [hnil] at hrest
            have hlength := congrArg List.length hrest
            rw [flatMap_nil, length_nil, length_drop] at hlength
            omega
          simp only [reduceCtorEq, IsEmpty.forall_iff, implies_true, and_true]
          constructor
          · exact fun h _ _ => by omega
          · exact fun h => by have := h c rfl; omega
        | some item =>
          refine and_iff_right_of_imp fun h => ?_
          cases item with
          | some ch =>
            have := h ch rfl
            omega
          | none =>
            have hmem := forvar_length_le _ _ (mem_of_getLast? hitems)
            rw [length_drop] at hmem
            omega

theorem forLine_text : (forLine proto forvar value).text = substituted proto forvar value :=
  forExpand_text proto value hvar _ 0 _ (by omega)

/-- **When a line is made inside of its two texts.** -/
theorem forLine_inside_iff (size : Nat) :
    ((forLine proto forvar value).readTo ≤ proto.length + 1 ∧
      (forLine proto forvar value).wroteTo ≤ size + 1) ↔
    proto.length + occurrences proto forvar * value.length ≤
      size + occurrences proto forvar * forvar.length ∧
    ∀ ch, (forItems forvar 0 proto).getLast? = some (some ch) → forvar.length ≤ 2 := by
  have hread := forExpand_readTo proto value hvar (proto.length + 1) 0 ⟨[], 0, 0⟩ (by omega) (by omega)
  have hwrote := forExpand_wroteTo proto value hvar (proto.length + 1) 0 ⟨[], 0, 0⟩
    (by omega : proto.length < _)
  have hlen := substituted_length hvar proto value
  rw [← forLine_text proto value hvar] at hlen
  rw [show forExpand proto forvar value (proto.length + 1) 0 ⟨[], 0, 0⟩ = forLine proto forvar value
    from rfl] at hread hwrote
  rw [hread, hwrote, drop_zero, and_comm]
  simp only [Nat.zero_le, true_and, Nat.zero_max]
  exact and_congr (by omega) Iff.rfl

end

end Expand

/-! ## 6. What is still to come -/

/-- **What of the elements is still to come in a context**: the names that the search has still to
report, and the elements behind the one at `shiftlevel`. -/
def pending (d : Directories) (c : ForContext) : List (List Char) :=
  match c.ffind with
  | none => forElements d c.shiftlevel (c.params.drop (c.shiftlevel - 1))
  | some names =>
    names.map (c.getArgCur ++ ·) ++ forElements d (c.shiftlevel + 1) (c.params.drop c.shiftlevel)

/-- `shiftlevel` is the number of an element, or one more than there are where nothing is searched
for. -/
structure ForContext.Stands (c : ForContext) : Prop where
  positive : 1 ≤ c.shiftlevel
  within : c.shiftlevel ≤ c.params.length + 1
  searching : c.ffind ≠ none → c.shiftlevel ≤ c.params.length

theorem ForContext.getArgCur_eq (hpos : 1 ≤ c.shiftlevel)
    (hlt : c.shiftlevel - 1 < c.params.length) : c.getArgCur = c.params[c.shiftlevel - 1] := by
  have hfind : findArgBc (some ⟨c.shiftlevel, [], c.params⟩) 0 =
      some (c.params.getD (c.shiftlevel - 1) []) := by
    simp only [findArgBc, Option.map_some]
    rw [if_neg (by omega), if_neg (by omega)]
    congr 2
    omega
  rw [ForContext.getArgCur, hfind, Option.getD_some, getD_eq_getElem _ _ hlt]

theorem ForContext.getArgCur_set {params : List (List Char)} {value : List Char}
    (hpos : 1 ≤ c.shiftlevel) (hlt : c.shiftlevel - 1 < params.length)
    (hparams : c.params = params.set (c.shiftlevel - 1) value) : c.getArgCur = value := by
  rw [ForContext.getArgCur_eq hpos (by rw [hparams, length_set]; exact hlt)]
  simp only [hparams, getElem_set_self]

variable (d : Directories) (ev : ForEvents)

theorem forElements_at (hpos : 1 ≤ c.shiftlevel) (hlt : c.shiftlevel - 1 < c.params.length) :
    forElements d c.shiftlevel (c.params.drop (c.shiftlevel - 1)) =
      (if isWild c.getArgCur then (d c.shiftlevel c.getArgCur).map (pathPart c.getArgCur ++ ·)
        else [c.getArgCur]) ++
      forElements d (c.shiftlevel + 1) (c.params.drop c.shiftlevel) := by
  rw [drop_eq_getElem_cons hlt, forElements, ← ForContext.getArgCur_eq hpos hlt,
    Nat.sub_add_cancel hpos]

theorem pending_searching {names : List (List Char)}
    (hfind : c.ffind = some names) : pending d c = names.map (c.getArgCur ++ ·) ++
      forElements d (c.shiftlevel + 1) (c.params.drop c.shiftlevel) := by
  rw [pending, hfind]

/-- The same command as before. -/
def ForContext.Same (c c' : ForContext) : Prop := c'.forproto = c.forproto ∧ c'.forvar = c.forvar

/-- What a round does with what is still to come. -/
inductive RoundTakes (d : Directories) (ev : ForEvents) (c : ForContext) : ForRound → Prop
  | next {c' : ForContext} (hstands : c'.Stands) (hsame : c.Same c')
      (hlevel : c'.shiftlevel = c.shiftlevel + 1) (hparams : c'.params.length = c.params.length)
      (hpending : pending d c = pending d c') : RoundTakes d ev c (.next c')
  | exit (hdone : ev.Calm → pending d c = []) : RoundTakes d ev c .exit
  | noMemory (hmemory : ¬ ev.Calm) : RoundTakes d ev c .noMemory
  | value {text : List Char} {c' : ForContext} (hstands : c'.Stands) (hsame : c.Same c')
      (hpending : pending d c = text :: pending d c') : RoundTakes d ev c (.value text c')

/-- **One round.** -/
theorem round_takes (h : c.Stands) : RoundTakes d ev c (c.round d ev) := by
  have hpos := h.positive
  unfold ForContext.round
  split
  · rename_i hexit
    refine .exit fun hcalm => ?_
    have hend : c.shiftlevel > c.params.length :=
      hexit.resolve_left (by simp [(hcalm c.rounds).1])
    have hfind : c.ffind = none := by
      by_contra hne
      have := h.searching hne
      omega
    rw [pending, hfind]
    rw [drop_of_length_le (by omega)]
    rfl
  · rename_i hgo
    have hle : c.shiftlevel ≤ c.params.length := by
      by_contra hlt
      exact hgo (.inr (by omega))
    have hlt : c.shiftlevel - 1 < c.params.length := by omega
    cases hfind : c.ffind with
    | some names =>
      have hpending := pending_searching d hfind
      cases names with
      | nil =>
        refine .next ⟨by simp only; omega, by simp only; omega, fun hne => absurd rfl hne⟩
          ⟨rfl, rfl⟩ rfl rfl ?_
        rw [hpending]
        rfl
      | cons name names =>
        refine .value ⟨hpos, by simp only; omega, fun _ => hle⟩ ⟨rfl, rfl⟩ ?_
        rw [hpending]
        rfl
    | none =>
      have hpending : pending d c = (if isWild c.getArgCur then
          (d c.shiftlevel c.getArgCur).map (pathPart c.getArgCur ++ ·) else [c.getArgCur]) ++
          forElements d (c.shiftlevel + 1) (c.params.drop c.shiftlevel) := by
        rw [pending, hfind]
        exact forElements_at d hpos hlt
      by_cases hwild : isWild c.getArgCur = true
      · rw [if_pos hwild] at hpending
        simp only [hwild, not_true_eq_false, if_false]
        split
        · rename_i hmemory
          exact .noMemory fun hcalm => hmemory (hcalm c.rounds).2
        · split
          · rename_i name names hfound
            rw [hfound] at hpending
            refine .value ⟨hpos, by simp only [length_set]; omega,
              fun _ => by simpa only [length_set] using hle⟩ ⟨rfl, rfl⟩ ?_
            have harg : ForContext.getArgCur
                { c with
                  rounds := c.rounds + 1
                  params := c.params.set (c.shiftlevel - 1) (pathPart c.getArgCur)
                  ffind := some names } = pathPart c.getArgCur :=
              ForContext.getArgCur_set hpos hlt rfl
            rw [hpending, pending_searching d rfl, harg]
            simp only
            rw [drop_set_of_lt (by omega)]
            rfl
          · rename_i hfound
            rw [hfound] at hpending
            refine .next ⟨by simp only; omega, by simp only; omega, fun hne => absurd rfl hne⟩
              ⟨rfl, rfl⟩ rfl rfl ?_
            rw [hpending]
            rfl
      · rw [if_neg hwild] at hpending
        simp only [hwild]
        refine .value ⟨by simp only; omega, by simp only; omega, fun hne => absurd rfl hne⟩
          ⟨rfl, rfl⟩ ?_
        rw [hpending]
        rfl

/-- **One call**: the next line, or there is no more. -/
theorem forLoop_spec : ∀ (rounds : Nat) (c : ForContext),
    c.Stands → c.params.length + 2 - c.shiftlevel ≤ rounds →
    (forLoop d ev rounds c = some none ∧ (ev.Calm → pending d c = [])) ∨
    ∃ text c', forLoop d ev rounds c = some (some (forLine c.forproto c.forvar text, c')) ∧
      pending d c = text :: pending d c' ∧ c'.Stands ∧ c.Same c' := by
  intro rounds
  induction rounds with
  | zero =>
    intro c h hrounds
    have := h.within
    omega
  | succ rounds ih =>
    intro c h hrounds
    have htakes := round_takes d ev h
    rw [forLoop]
    revert htakes
    cases c.round d ev with
    | exit =>
      intro htakes
      cases htakes with
      | exit hdone => exact .inl ⟨rfl, hdone⟩
    | noMemory =>
      intro htakes
      cases htakes with
      | noMemory hmemory => exact .inl ⟨rfl, fun hcalm => absurd hcalm hmemory⟩
    | value text c' =>
      intro htakes
      cases htakes with
      | value hstands hsame hpending =>
        exact .inr ⟨text, c', by simp only [hsame.1, hsame.2], hpending, hstands, hsame⟩
    | next c' =>
      intro htakes
      cases htakes with
      | next hstands hsame hlevel hparams hpending =>
        rcases ih c' hstands (by omega) with ⟨hloop, hdone⟩ | ⟨text, c'', hloop, htext, hs, hsame'⟩
        · exact .inl ⟨hloop, fun hcalm => hpending.trans (hdone hcalm)⟩
        · rw [hsame.1, hsame.2] at hloop
          exact .inr ⟨text, c'', hloop, hpending.trans htext, hs,
            hsame'.1.trans hsame.1, hsame'.2.trans hsame.2⟩

/-- **The calls**: the lines of what is to come, in order, and then the context is left. -/
theorem forRun_lines : ∀ (calls : Nat) (c : ForContext),
    c.Stands → (pending d c).length < calls → ∃ lines, forRun d ev calls c = (lines, true) ∧
      lines <+: (pending d c).map (forLine c.forproto c.forvar) ∧
      (ev.Calm → lines = (pending d c).map (forLine c.forproto c.forvar)) := by
  intro calls
  induction calls with
  | zero => exact fun c _ hcalls => absurd hcalls (Nat.not_lt_zero _)
  | succ calls ih =>
    intro c h hcalls
    rcases forLoop_spec d ev _ c h le_rfl with ⟨hloop, hdone⟩ | ⟨text, c', hloop, htext, hs,
      hsame⟩
    · refine ⟨[], ?_, nil_prefix, fun hcalm => by rw [hdone hcalm]; rfl⟩
      rw [forRun, readForLine, hloop]
    · rw [htext, length_cons] at hcalls
      obtain ⟨lines, hrun, hfront, hcalm⟩ := ih c' hs (by omega)
      rw [hsame.1, hsame.2] at hfront hcalm
      refine ⟨forLine c.forproto c.forvar text :: lines, ?_, ?_, fun h => ?_⟩
      · rw [forRun, readForLine, hloop]
        simp only [hrun]
      · rw [htext, map_cons]
        exact cons_prefix_cons.mpr ⟨rfl, hfront⟩
      · rw [htext, map_cons, ← hcalm h]

/-! ## 7. The run -/

/-- A context as `doFOR` makes it. -/
def ForParts.context (p : ForParts) (elements : List (List Char)) : ForContext :=
  ⟨p.cmd, p.varname, elements, 1, none, 0⟩

theorem doFOR_context {e : Expander} {m : ForMemory} {p : ForParts}
    (h : doFOR e m p = some c) : c = p.context (listElements e p.param) := by
  rw [doFOR] at h
  rw [listElements]
  cases hexpand : expandEnvVars e p.param with
  | none =>
    rw [hexpand] at h
    cases h
  | some x =>
    rw [hexpand] at h
    simp only at h
    split at h
    · cases h
    · exact (Option.some.inj h).symm

theorem checkFOR_varname {param : List Char} {p : ForParts} (h : checkFOR param = .ok p) :
    p.varname ≠ [] := by
  rw [checkFOR] at h
  simp only at h
  split at h
  · split at h
    · split at h
      · cases h
      · unfold checkList at h
        split at h
        · split at h
          · cases h
          · simp only at h
            split at h
            · cases h
            · split at h
              · cases h
              · cases h
                simp
        · cases h
    · cases h
  · cases h

theorem ForParts.right_iff (size : Nat) (p : ForParts) (elements : List (List Char))
    (hvar : p.varname ≠ []) :
    ForRight d size p elements (p.context elements) ↔ ForWithin d size p elements := by
  have hstands : (p.context elements).Stands :=
    ⟨le_refl 1, by simp [ForParts.context], fun hne => absurd rfl hne⟩
  have hpending : pending d (p.context elements) = forElements d 1 elements := rfl
  have htext : ∀ values : List (List Char), (values.map (forLine p.cmd p.varname)).map ForLine.text =
      values.map (substituted p.cmd p.varname) := by
    intro values
    rw [map_map]
    exact map_congr_left fun value _ => forLine_text p.cmd value hvar
  constructor
  · intro h value hvalue
    obtain ⟨lines, hrun, -, -, hinside⟩ := h ⟨fun _ => false, fun _ => true⟩
    obtain ⟨lines', hrun', -, hcalm⟩ := forRun_lines d ⟨fun _ => false, fun _ => true⟩ _ _ hstands
      (by rw [hpending]; exact Nat.lt_succ_self _)
    rw [hrun] at hrun'
    cases hrun'
    rw [hcalm fun n => ⟨rfl, rfl⟩, hpending] at hinside
    exact (forLine_inside_iff p.cmd value hvar size).mp
      (hinside _ (mem_map_of_mem hvalue))
  · intro h ev
    obtain ⟨lines, hrun, hfront, hcalm⟩ := forRun_lines d ev _ _ hstands
      (by exact Nat.lt_succ_self _)
    refine ⟨lines, hrun, ?_, fun hev => ?_, fun line hline => ?_⟩
    · rw [← htext]
      exact hfront.map ForLine.text
    · rw [← htext, hcalm hev]
      rfl
    · obtain ⟨value, hvalue, rfl⟩ := mem_map.mp (hfront.subset hline)
      exact (forLine_inside_iff p.cmd value hvar size).mpr (h value hvalue)

/-- **When a FOR runs its command for each element, inside of the line buffer.**  The order, the
elements and the substitution are always right; what the buffer has to have room for is not asked. -/
theorem for_exact_iff (d : Directories) (size : Nat) (e : Expander) (m : ForMemory)
    {param : List Char} {p : ForParts} {c : ForContext} (hcheck : checkFOR param = .ok p)
    (hdo : doFOR e m p = some c) :
    ForRight d size p (listElements e p.param) c ↔
      ForWithin d size p (listElements e p.param) := by
  rw [doFOR_context hdo]
  exact p.right_iff d size _ (checkFOR_varname hcheck)

/-- Nothing to expand, and memory for everything. -/
def plainExpander : Expander where
  batch := none
  getEnv := fun _ => none
  errorlevel := 0
  cwd := none

theorem for_exact_wild : ForRight (fun _ _ => ["x.c".toList]) 256
      ⟨"%f".toList, "a dir\\*.c".toList, "echo %f".toList⟩
      (listElements plainExpander "a dir\\*.c".toList)
      (ForParts.context ⟨"%f".toList, "a dir\\*.c".toList, "echo %f".toList⟩
        (listElements plainExpander "a dir\\*.c".toList)) ↔
    ForWithin (fun _ _ => ["x.c".toList]) 256
      ⟨"%f".toList, "a dir\\*.c".toList, "echo %f".toList⟩
      (listElements plainExpander "a dir\\*.c".toList) :=
  for_exact_iff (fun _ _ => ["x.c".toList]) 256 plainExpander ⟨true, true, true, true⟩
    (show checkFOR "%f in (a dir\\*.c) do echo %f".toList = .ok _ by decide +kernel)
    (by decide +kernel)

/-- A hundred and thirty characters. -/
def longElement : List Char := List.replicate 130 'x'

/-- **A long element, twice**: 260 characters for a buffer of 257 bytes. -/
theorem for_line_behind_buffer : ¬ ForRight (fun _ _ => []) 256
    ⟨"%f".toList, longElement, "%f%f".toList⟩ [longElement]
    (ForParts.context ⟨"%f".toList, longElement, "%f%f".toList⟩ [longElement]) := by
  rw [ForParts.right_iff _ _ _ _ (by decide)]
  intro h
  have hplain : isWild longElement = false := by simp [isWild, longElement]
  have hvalue : longElement ∈ forElements (fun _ _ => []) 1 [longElement] := by
    simp [forElements, hplain]
  have hroom := (h longElement hvalue).1
  have htwice : occurrences "%f%f".toList "%f".toList = 2 := by decide
  have hproto : "%f%f".toList.length = 4 := by decide
  have hvar : "%f".toList.length = 2 := by decide
  have hlong : longElement.length = 130 := List.length_replicate
  simp only [htwice, hproto, hvar, hlong] at hroom
  omega

end SdcBoot.FreeCom
