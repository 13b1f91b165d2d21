/-
# expandEnvVars

`expandEnvVars` copies a line and puts in what stands for the percent signs.  `items` reads the
line once, from left to right, into what each place of it stands for; `expansion` is the text of the
items.  The routine goes through the items with a test before each: room for one character more,
and room for what is put in, unless that is the errorlevel.

The test leaves two characters unused.  So a result of 255 characters, which fits with its NUL, is
given up, and so is one of 254 with something behind it that stands for nothing; and a line that ends
with the errorlevel gets through with more than 255.  `expand_exact_iff` says that this is all.
-/
import SdcBoot.FreeCom.Redirect

namespace SdcBoot.FreeCom

open List

/-! ## 1. What the percent signs stand for -/

def MAX_INTERNAL_COMMAND_SIZE : Nat := 256

/-- The fields of a batch context that `find_arg_bc` reads. -/
structure BatchArgs where
  shiftlevel : Int
  bfirst : List Char
  params : List (List Char)

/-- find_arg_bc -/
def findArgBc (b : Option BatchArgs) (n : Nat) : Option (List Char) :=
  b.map fun b =>
    let n : Int := n + b.shiftlevel
    if n = 0 then b.bfirst
    else if n > b.params.length ∨ n < 0 then []
    else b.params.getD (n - 1).toNat []

/-- What a line is expanded with: the innermost batch context, the variables, the errorlevel and the
current directory, or `none` where it cannot be had. -/
structure Expander where
  batch : Option BatchArgs
  getEnv : List Char → Option (List Char)
  errorlevel : UInt16
  cwd : Option (List Char)

/-- `matchtok`: the text begins with the word, in any case, and the word ends there. -/
def matchtok (text word : List Char) : Bool :=
  (text.take word.length).map Char.toUpper == word &&
    (text.drop word.length == [] || ltrimcl (text.drop word.length) != text.drop word.length)

/-- The last digits of a number, without zeros in front. -/
def digitsOf : Nat → Nat → List Char
  | 0, _ => []
  | k + 1, n => (if n < 10 then [] else digitsOf k (n / 10)) ++ [Nat.digitChar (n % 10)]

/-- `sprintf(cp, "%u", errorlevel)` -/
def decimal (n : UInt16) : List Char := digitsOf 5 n.toNat

/-! ## 2. The routine -/

/-- What is returned, the characters up to `cp`, and how many bytes of `line` were written to. -/
structure Expanded where
  rc : Nat
  line : List Char
  written : Nat
  deriving DecidableEq

/-- `cp >= parsedMax(numbytes)` -/
def parsedFull (line : List Char) (numbytes : Nat) : Bool :=
  decide (MAX_INTERNAL_COMMAND_SIZE - 1 ≤ line.length + numbytes)

/-- `cp = stpcpy(cp, text)`, which writes the NUL too. -/
def wrote (line : List Char) (written : Nat) (text : List Char) : Nat :=
  max written (line.length + text.length + 1)

/-- The loop of `expandEnvVars` over what is left of the line. -/
def expandLoop (e : Expander) : Nat → List Char → List Char → Nat → Option Expanded
  | 0, _, _, _ => none
  | _ + 1, [], line, written => some ⟨1, line, max written (line.length + 1)⟩
  | fuel + 1, c :: ip, line, written =>
    let put := fun (c : Char) (ip : List Char) =>
      expandLoop e fuel ip (line ++ [c]) (max written (line.length + 1))
    let copy := fun (text ip : List Char) =>
      if parsedFull line text.length then some ⟨0, line, written⟩
      else expandLoop e fuel ip (line ++ text) (wrote line written text)
    if parsedFull line 1 then some ⟨0, line, written⟩
    else if c = '%' then
      match ip with
      | [] => put '%' []
      | d :: rest =>
        if d = '%' then put '%' rest
        else if d.isDigit then
          match findArgBc e.batch (d.toNat - 48) with
          | some tp => copy tp rest
          -- the digit is copied in the next round
          | none => put '%' (d :: rest)
        else if '%' ∈ d :: rest then
          let name := (d :: rest).takeWhile (· != '%')
          let after := ((d :: rest).dropWhile (· != '%')).drop 1
          match e.getEnv name with
          | some evar => copy evar after
          | none =>
            if matchtok name "ERRORLEVEL".toList then
              -- no test here: the line has that many characters in reserve
              expandLoop e fuel after (line ++ decimal e.errorlevel)
                (wrote line written (decimal e.errorlevel))
            else if matchtok name "_CWD".toList then
              match e.cwd with
              | none => some ⟨0, line, written⟩
              | some evar => copy evar after
            else expandLoop e fuel after line written
        else put '%' (d :: rest)
    else put c ip

def expandEnvVars (e : Expander) (ip : List Char) : Option Expanded :=
  expandLoop e (ip.length + 1) ip [] 0

/-! ## 3. The expansion -/

/-- What a place of the line stands for. -/
inductive Item where
  | char (c : Char)
  | value (text : List Char)
  | level (text : List Char)
  | nothing
  /-- The current directory, which cannot be had. -/
  | noCwd
  deriving DecidableEq

def Item.text : Item → List Char
  | .char c => [c]
  | .value text | .level text => text
  | .nothing | .noCwd => []

/-- `%name%` -/
def named (e : Expander) (name : List Char) : Item :=
  match e.getEnv name with
  | some value => .value value
  | none =>
    if matchtok name "ERRORLEVEL".toList then .level (decimal e.errorlevel)
    else if matchtok name "_CWD".toList then
      match e.cwd with
      | none => .noCwd
      | some dir => .value dir
    else .nothing

/-- The first item of a line that begins with `c`, and the rest of the line. -/
def firstItem (e : Expander) (c : Char) : List Char → Item × List Char
  | [] => (.char c, [])
  | d :: rest =>
    if c ≠ '%' then (.char c, d :: rest)
    else if d = '%' then (.char '%', rest)
    else if d.isDigit then
      match findArgBc e.batch (d.toNat - 48) with
      | some arg => (.value arg, rest)
      | none => (.char '%', d :: rest)
    else if '%' ∈ d :: rest then
      (named e ((d :: rest).takeWhile (· != '%')), ((d :: rest).dropWhile (· != '%')).drop 1)
    else (.char '%', d :: rest)

/-- The items of a line; each takes a character of it at least. -/
def itemsFrom (e : Expander) : Nat → List Char → List Item
  | 0, _ => []
  | _ + 1, [] => []
  | fuel + 1, c :: ip => (firstItem e c ip).1 :: itemsFrom e fuel (firstItem e c ip).2

def items (e : Expander) (ip : List Char) : List Item := itemsFrom e (ip.length + 1) ip

/-- The reference expansion. -/
def expansion (is : List Item) : List Char := is.flatMap Item.text

theorem firstItem_shorter (e : Expander) (c : Char) (ip : List Char) :
    (firstItem e c ip).2.length ≤ ip.length := by
  unfold firstItem
  split
  · exact Nat.le_refl _
  · split
    · exact Nat.le_refl _
    · split
      · simp
      · split
        · split <;> simp
        · split
          · rw [length_drop]
            exact Nat.le_trans (Nat.sub_le _ _) (dropWhile_suffix _).length_le
          · exact Nat.le_refl _

/-! ## 4. The routine goes through the items -/

/-- The tests of the routine, over items. -/
def through : List Item → List Char → Nat → Expanded
  | [], line, written => ⟨1, line, max written (line.length + 1)⟩
  | i :: is, line, written =>
    if parsedFull line 1 then ⟨0, line, written⟩
    else
      match i with
      | .char c => through is (line ++ [c]) (max written (line.length + 1))
      | .value text =>
        if parsedFull line text.length then ⟨0, line, written⟩
        else through is (line ++ text) (wrote line written text)
      | .level text => through is (line ++ text) (wrote line written text)
      | .nothing => through is line written
      | .noCwd => ⟨0, line, written⟩

theorem expandLoop_eq (e : Expander) (fuel : Nat) : ∀ (ip line : List Char) (written : Nat),
    ip.length < fuel → expandLoop e fuel ip line written =
      some (through (itemsFrom e fuel ip) line written) := by
  induction fuel with
  | zero => exact fun ip line written h => absurd h (Nat.not_lt_zero _)
  | succ fuel ih =>
    intro ip line written hfuel
    cases ip with
    | nil => rfl
    | cons c ip =>
      have hrest := firstItem_shorter e c ip
      have hlen : ip.length < fuel := by simpa using hfuel
      rw [itemsFrom]
      unfold expandLoop through
      by_cases hfull : parsedFull line 1 = true
      · rw [if_pos hfull, if_pos hfull]
      · rw [if_neg hfull, if_neg hfull]
        have hnext : ∀ line written, expandLoop e fuel (firstItem e c ip).2 line written =
            some (through (itemsFrom e fuel (firstItem e c ip).2) line written) := fun line written =>
          ih _ line written (Nat.lt_of_le_of_lt hrest hlen)
        cases ip with
        | nil =>
          by_cases hc : c = '%'
          · subst hc
            simpa [firstItem] using hnext (line ++ ['%']) (max written (line.length + 1))
          · simpa [firstItem, hc] using hnext (line ++ [c]) (max written (line.length + 1))
        | cons d rest =>
          by_cases hc : c = '%'
          · subst hc
            rw [if_pos rfl]
            by_cases hd : d = '%'
            · simpa [firstItem, hd] using hnext (line ++ ['%']) (max written (line.length + 1))
            · by_cases hdigit : d.isDigit = true
              · cases harg : findArgBc e.batch (d.toNat - 48) with
                | none =>
                  simpa [firstItem, hd, hdigit, harg] using
                    hnext (line ++ ['%']) (max written (line.length + 1))
                | some arg =>
                  by_cases hroom : parsedFull line arg.length = true
                  · simp [firstItem, hd, hdigit, harg, hroom]
                  · simpa [firstItem, hd, hdigit, harg, hroom] using
                      hnext (line ++ arg) (wrote line written arg)
              · by_cases hclosed : '%' ∈ d :: rest
                · have hfirst : firstItem e '%' (d :: rest) =
                      (named e ((d :: rest).takeWhile (· != '%')),
                        ((d :: rest).dropWhile (· != '%')).drop 1) := by
                    rw [firstItem, if_neg (by simp), if_neg hd, if_neg hdigit, if_pos hclosed]
                  rw [hfirst] at hnext ⊢
                  dsimp only at hnext ⊢
                  rw [if_neg hd, if_neg hdigit, if_pos hclosed]
                  generalize (d :: rest).takeWhile (· != '%') = name at hnext ⊢
                  cases hvar : e.getEnv name with
                  | some value =>
                    by_cases hroom : parsedFull line value.length = true
                    · simp [named, hvar, hroom]
                    · simpa [named, hvar, hroom] using hnext (line ++ value) (wrote line written value)
                  | none =>
                    by_cases hlevel : matchtok name "ERRORLEVEL".toList = true
                    · simp only [named, hvar, if_pos hlevel]
                      exact hnext _ _
                    · by_cases hdir : matchtok name "_CWD".toList = true
                      · cases hcwd : e.cwd with
                        | none => simp only [named, hvar, if_neg hlevel, if_pos hdir, hcwd]
                        | some dir =>
                          simp only [named, hvar, if_neg hlevel, if_pos hdir, hcwd]
                          by_cases hroom : parsedFull line dir.length = true
                          · rw [if_pos hroom, if_pos hroom]
                          · rw [if_neg hroom, if_neg hroom]
                            exact hnext _ _
                      · simp only [named, hvar, if_neg hlevel, if_neg hdir]
                        exact hnext _ _
                · simpa [firstItem, hd, hdigit, hclosed] using
                    hnext (line ++ ['%']) (max written (line.length + 1))
          · simpa [firstItem, hc] using hnext (line ++ [c]) (max written (line.length + 1))

/-! ## 5. The tests -/

/-- The test that is made for what an item stands for, behind `n` characters. -/
def Item.HasRoom (n : Nat) : Item → Prop
  | .value text => n + text.length + 2 ≤ MAX_INTERNAL_COMMAND_SIZE
  | .noCwd => False
  | .char _ | .level _ | .nothing => True

/-- All tests are passed. -/
def Passes : Nat → List Item → Prop
  | _, [] => True
  | n, i :: is => n + 3 ≤ MAX_INTERNAL_COMMAND_SIZE ∧ i.HasRoom n ∧ Passes (n + i.text.length) is

theorem parsedFull_iff {line : List Char} {n : Nat} :
    parsedFull line n = true ↔ ¬ (line.length + n + 2 ≤ MAX_INTERNAL_COMMAND_SIZE) := by
  rw [parsedFull, decide_eq_true_iff]
  omega

/-- What is returned, and the line if all tests are passed. -/
theorem through_rc (is : List Item) : ∀ (line : List Char) (written : Nat),
    (Passes line.length is → (through is line written).rc = 1 ∧
      (through is line written).line = line ++ expansion is) ∧
    (¬ Passes line.length is → (through is line written).rc = 0) := by
  induction is with
  | nil => exact fun line written => ⟨fun _ => ⟨rfl, by simp [through, expansion]⟩, fun h => absurd trivial h⟩
  | cons i is ih =>
    intro line written
    unfold through
    by_cases hone : line.length + 3 ≤ MAX_INTERNAL_COMMAND_SIZE
    · rw [if_neg (by rw [parsedFull_iff]; omega)]
      -- behind what the item stands for
      have hnext : ∀ written, (Passes line.length (i :: is) → i.HasRoom line.length →
            (through is (line ++ i.text) written).rc = 1 ∧
            (through is (line ++ i.text) written).line = line ++ expansion (i :: is)) ∧
          (¬ Passes line.length (i :: is) → i.HasRoom line.length →
            (through is (line ++ i.text) written).rc = 0) := by
        intro written
        have hih := ih (line ++ i.text) written
        rw [length_append] at hih
        refine ⟨fun hpass _ => ?_, fun hno hroom => hih.2 fun hpass => hno ⟨hone, hroom, hpass⟩⟩
        rw [(hih.1 hpass.2.2).2]
        exact ⟨(hih.1 hpass.2.2).1, by simp [expansion]⟩
      cases i with
      | char c
      | level text => exact ⟨fun h => (hnext _).1 h trivial, fun h => (hnext _).2 h trivial⟩
      | nothing =>
        have hsame := hnext written
        simp only [Item.text, append_nil] at hsame
        exact ⟨fun h => hsame.1 h trivial, fun h => hsame.2 h trivial⟩
      | noCwd => exact ⟨fun h => h.2.1.elim, fun _ => rfl⟩
      | value text =>
        by_cases hroom : line.length + text.length + 2 ≤ MAX_INTERNAL_COMMAND_SIZE
        · dsimp only
          rw [if_neg (by rw [parsedFull_iff]; exact not_not_intro hroom)]
          exact ⟨fun h => (hnext _).1 h hroom, fun h => (hnext _).2 h hroom⟩
        · dsimp only
          rw [if_pos (parsedFull_iff.mpr hroom)]
          exact ⟨fun h => absurd h.2.1 hroom, fun _ => rfl⟩
    · rw [if_pos (by rw [parsedFull_iff]; omega)]
      exact ⟨fun h => absurd h.1 hone, fun _ => rfl⟩

/-- The tests of the last item decide, as each test is for more than the ones before. -/
theorem passes_concat (init : List Item) (last : Item) : ∀ n : Nat,
    Passes n (init ++ [last]) ↔ .noCwd ∉ init ∧
      n + (expansion init).length + 3 ≤ MAX_INTERNAL_COMMAND_SIZE ∧
      last.HasRoom (n + (expansion init).length) := by
  induction init with
  | nil => simp [Passes, expansion]
  | cons i init ih =>
    intro n
    have hlen : n + i.text.length + (expansion init).length =
        n + (expansion (i :: init)).length := by
      simp [expansion, Nat.add_assoc]
    rw [cons_append, Passes, ih, hlen]
    constructor
    · rintro ⟨-, hroom, hno, hlast⟩
      refine ⟨fun hmem => ?_, hlast⟩
      rcases mem_cons.mp hmem with rfl | hmem
      · exact hroom
      · exact hno hmem
    · rintro ⟨hno, hthree, hlast⟩
      refine ⟨by omega, ?_, fun hmem => hno (.tail _ hmem), hthree, hlast⟩
      cases i with
      | value text => simp only [Item.HasRoom, Item.text] at hlen ⊢; omega
      | noCwd => exact hno mem_cons_self
      | _ => trivial

/-! ## 6. What is written -/

theorem length_digitsOf (k n : Nat) : (digitsOf k n).length ≤ k := by
  induction k generalizing n with
  | zero => exact Nat.le_refl _
  | succ k ih =>
    have := ih (n / 10)
    unfold digitsOf
    split <;> simp
    omega

variable {e : Expander}

theorem named_level {name text : List Char} (h : named e name = .level text) :
    text = decimal e.errorlevel := by
  unfold named at h
  split at h
  · cases h
  · split at h
    · exact (Item.level.inj h).symm
    · split at h
      · split at h <;> cases h
      · cases h

theorem firstItem_level {c : Char} {ip text : List Char}
    (h : (firstItem e c ip).1 = .level text) : text = decimal e.errorlevel := by
  unfold firstItem at h
  split at h
  · cases h
  · split at h
    · cases h
    · split at h
      · cases h
      · split at h
        · split at h <;> cases h
        · split at h
          · exact named_level h
          · cases h

/-- The errorlevel has five digits at most. -/
theorem itemsFrom_level (fuel : Nat) : ∀ {ip text : List Char},
    .level text ∈ itemsFrom e fuel ip → text.length ≤ 5 := by
  induction fuel with
  | zero => exact nofun
  | succ fuel ih =>
    intro ip text h
    cases ip with
    | nil => cases h
    | cons c ip =>
      rcases mem_cons.mp h with h | h
      · rw [firstItem_level h.symm]
        exact length_digitsOf 5 _
      · exact ih h

/-- Behind the errorlevel there are 258 characters at most, and its NUL. -/
theorem through_written (is : List Item) : ∀ {line : List Char} {written : Nat},
    (∀ text, .level text ∈ is → text.length ≤ 5) → line.length ≤ 258 → written ≤ 259 →
    (through is line written).written ≤ 259 := by
  induction is with
  | nil =>
    intro line written _ hline hwritten
    simp only [through]
    omega
  | cons i is ih =>
    intro line written hlevel hline hwritten
    have hrest : ∀ text, .level text ∈ is → text.length ≤ 5 := fun text hmem =>
      hlevel text (.tail _ hmem)
    unfold through
    split
    · exact hwritten
    · rename_i hone
      rw [parsedFull_iff, not_not] at hone
      unfold MAX_INTERNAL_COMMAND_SIZE at hone
      cases i with
      | char c =>
        refine ih hrest ?_ ?_
        · simp only [length_append, length_singleton]
          omega
        · omega
      | nothing => exact ih hrest hline hwritten
      | noCwd => exact hwritten
      | level text =>
        have := hlevel text mem_cons_self
        refine ih hrest ?_ ?_
        · rw [length_append]
          omega
        · simp only [wrote]
          omega
      | value text =>
        dsimp only
        split
        · exact hwritten
        · rename_i hroom
          rw [parsedFull_iff, not_not] at hroom
          unfold MAX_INTERNAL_COMMAND_SIZE at hroom
          refine ih hrest ?_ ?_
          · rw [length_append]
            omega
          · simp only [wrote]
            omega

/-! ## 7. The line -/

/-- 1 only with the expansion, which fits with its NUL; 0 only if it does not fit; and nothing
written outside of `line`, which has `8 * sizeof(errorlevel)` bytes in reserve. -/
structure Right (is : List Item) (r : Expanded) : Prop where
  one : r.rc = 1 → r.line = expansion is ∧
    (expansion is).length + 1 ≤ MAX_INTERNAL_COMMAND_SIZE
  zero : r.rc = 0 → MAX_INTERNAL_COMMAND_SIZE < (expansion is).length + 1
  inside : r.written ≤ MAX_INTERNAL_COMMAND_SIZE + 8 * 2

def Item.isLevel : Item → Prop
  | .level _ => True
  | _ => False

/-- An expansion that fits has two characters less than the line, or ends with the errorlevel behind
three less, and needs no directory that cannot be had; one that does not fit does not end so. -/
def Settled (is : List Item) : Prop :=
  ∀ init last, is = init ++ [last] →
    ((expansion is).length + 1 ≤ MAX_INTERNAL_COMMAND_SIZE → .noCwd ∉ is ∧
      (expansion init).length + 3 ≤ MAX_INTERNAL_COMMAND_SIZE ∧
      (last.isLevel ∨ (expansion is).length + 2 ≤ MAX_INTERNAL_COMMAND_SIZE)) ∧
    (MAX_INTERNAL_COMMAND_SIZE < (expansion is).length + 1 →
      ¬ (.noCwd ∉ is ∧ (expansion init).length + 3 ≤ MAX_INTERNAL_COMMAND_SIZE ∧ last.isLevel))

theorem passes_iff (init : List Item) (last : Item) :
    Passes 0 (init ++ [last]) ↔ .noCwd ∉ init ++ [last] ∧
      (expansion init).length + 3 ≤ MAX_INTERNAL_COMMAND_SIZE ∧
      (last.isLevel ∨ (expansion (init ++ [last])).length + 2 ≤ MAX_INTERNAL_COMMAND_SIZE) := by
  have hlen : (expansion (init ++ [last])).length = (expansion init).length + last.text.length := by
    simp [expansion]
  have hmem : Item.noCwd ∉ init ++ [last] ↔ Item.noCwd ∉ init ∧ Item.noCwd ≠ last := by simp
  rw [passes_concat, Nat.zero_add, hlen, hmem]
  cases last with
  | level text => simp [Item.HasRoom, Item.isLevel]
  | noCwd => simp [Item.HasRoom]
  | value text =>
    simp only [Item.HasRoom, Item.isLevel, Item.text, ne_eq, reduceCtorEq, not_false_eq_true,
      and_true, false_or]
  | char c =>
    simp only [Item.HasRoom, Item.isLevel, ne_eq, reduceCtorEq, not_false_eq_true,
      and_true, false_or]
    exact ⟨fun h => ⟨h.1, h.2, h.2⟩, fun h => ⟨h.1, h.2.1⟩⟩
  | nothing =>
    simp only [Item.HasRoom, Item.text, ne_eq, reduceCtorEq, not_false_eq_true,
      and_true, length_nil]
    exact ⟨fun h => ⟨h.1, h.2, by omega⟩, fun h => ⟨h.1, h.2.1⟩⟩

/-- **`expandEnvVars` is the expansion** for just the lines whose items are settled. -/
theorem expand_exact_iff (e : Expander) (ip : List Char) :
    ∃ r, expandEnvVars e ip = some r ∧ (Right (items e ip) r ↔ Settled (items e ip)) := by
  refine ⟨_, expandLoop_eq e _ ip [] 0 (Nat.lt_succ_self _), ?_⟩
  have hwritten : (through (items e ip) [] 0).written ≤ MAX_INTERNAL_COMMAND_SIZE + 8 * 2 :=
    Nat.le_trans (through_written _ (fun _ => itemsFrom_level _) (Nat.zero_le _) (Nat.zero_le _))
      (by decide)
  obtain ⟨hone, hzero⟩ := through_rc (items e ip) [] 0
  have hitems : itemsFrom e (ip.length + 1) ip = items e ip := rfl
  rw [hitems]
  generalize items e ip = is at *
  generalize through is [] 0 = r at *
  rw [List.length_nil, List.nil_append] at *
  have hright : Right is r ↔
      (Passes 0 is → (expansion is).length + 1 ≤ MAX_INTERNAL_COMMAND_SIZE) ∧
      (¬ Passes 0 is → MAX_INTERNAL_COMMAND_SIZE < (expansion is).length + 1) := by
    refine ⟨fun h => ⟨fun hp => (h.one (hone hp).1).2, fun hp => h.zero (hzero hp)⟩, fun h => ⟨?_, ?_,
      hwritten⟩⟩
    · intro hrc
      by_cases hp : Passes 0 is
      · exact ⟨(hone hp).2, h.1 hp⟩
      · rw [hzero hp] at hrc
        cases hrc
    · intro hrc
      by_cases hp : Passes 0 is
      · rw [(hone hp).1] at hrc
        cases hrc
      · exact h.2 hp
  rw [hright]
  rcases List.eq_nil_or_concat is with rfl | ⟨init, last, rfl⟩
  · refine ⟨fun _ init last h => by simp at h, fun _ => ⟨fun _ => by decide, fun h => ?_⟩⟩
    exact absurd trivial h
  · rw [List.concat_eq_append] at *
    have hpasses := passes_iff init last
    constructor
    · rintro ⟨hfits, hover⟩ init' last' heq
      obtain ⟨rfl, hlast⟩ := List.append_inj' heq rfl
      obtain rfl : last = last' := by simpa using hlast
      refine ⟨fun hlen => ?_, fun hlen hno => ?_⟩
      · by_contra hno
        exact absurd (hover fun hp => hno (hpasses.mp hp)) (by omega)
      · exact absurd (hfits (hpasses.mpr ⟨hno.1, hno.2.1, Or.inl hno.2.2⟩)) (by omega)
    · intro h
      obtain ⟨hfits, hover⟩ := h init last rfl
      refine ⟨fun hp => ?_, fun hp => ?_⟩
      · obtain ⟨hno, hthree, hlast⟩ := hpasses.mp hp
        rcases hlast with hlevel | htwo
        · by_contra hlen
          exact hover (by omega) ⟨hno, hthree, hlevel⟩
        · omega
      · by_contra hlen
        exact hp (hpasses.mpr (hfits (by omega)))

/-- Nothing is set, and the last program returned 100. -/
def plain : Expander := ⟨none, fun _ => none, 100, none⟩

/-- A line of 255 characters is given up, and 253 characters and the errorlevel are let through. -/
theorem expand_not_exact :
    (∃ r, expandEnvVars plain (List.replicate 255 'a') = some r ∧
      ¬ Right (items plain (List.replicate 255 'a')) r) ∧
    ∃ r, expandEnvVars plain (List.replicate 253 'a' ++ "%ERRORLEVEL%".toList) = some r ∧
      ¬ Right (items plain (List.replicate 253 'a' ++ "%ERRORLEVEL%".toList)) r := by
  refine ⟨⟨⟨0, List.replicate 254 'a', 254⟩, by decide +kernel, fun h => ?_⟩,
    ⟨⟨1, List.replicate 253 'a' ++ "100".toList, 257⟩, by decide +kernel, fun h => ?_⟩⟩
  · exact absurd (h.zero rfl) (by decide +kernel)
  · exact absurd (h.one rfl).2 (by decide +kernel)

end SdcBoot.FreeCom
