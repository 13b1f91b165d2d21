/-
# aliasexpand

`aliasexpand` puts the value of an alias in the place of the command word, and begins again with
the line it has got.  A list of the aliases it has expanded, by their offsets in the alias table,
keeps it from going round for ever: each round takes an entry that is not in the list yet
(`aliasLoop_ends`).

`Expands` says what the line becomes.  The list is where the code goes wrong: `realloc` is asked for
`++numExpanded` bytes, and what is stored are `numExpanded` numbers of two bytes each.  So the first
entry is too many already (`alias_exact_iff`).

Characters are what the NLS tables say, which are a parameter; the end of a line is no character of
a name.  Offsets do not go round in the segment of the table.
-/
import Mathlib.Data.List.Nodup
import Mathlib.Data.List.Perm.Subperm
import SdcBoot.FreeCom.InPlace

namespace SdcBoot.FreeCom

open List

/-! ## 1. The table -/

/-- What DOS says of characters. -/
structure Nls where
  isFnchar : Char → Bool
  toFUpper : Char → Char

/-- `StrFUpr`: the string ends where a character is turned into NUL. -/
def strFUpr (nls : Nls) (s : List Char) : List Char := (s.map nls.toFUpper).takeWhile (· != nul)

/-- is_pathdelim -/
def isPathdelim (c : Char) : Bool := c == '\\' || c == ':'

/-- is_quote -/
def isQuote (c : Char) : Bool := c == '"'

/-- `env_findVar`, in the strings that begin at an offset: the offset of the variable, and what
stands behind its equals sign.  The table ends with an empty string. -/
def envFindVar (var : List Char) : Nat → List (List Char) → Option (Nat × List Char)
  | _, [] => none
  | _, [] :: _ => none
  | offset, entry :: entries =>
    if entry[var.length]? = some '=' ∧ entry.take var.length = var then
      some (offset, entry.drop (var.length + 1))
    else envFindVar var (offset + entry.length + 1) entries

/-- The offsets of all entries. -/
def offsets : Nat → List (List Char) → List Nat
  | _, [] => []
  | offset, entry :: entries => offset :: offsets (offset + entry.length + 1) entries

theorem length_offsets (entries : List (List Char)) : ∀ offset,
    (offsets offset entries).length = entries.length := by
  induction entries with
  | nil => exact fun _ => rfl
  | cons entry entries ih => exact fun offset => congrArg (· + 1) (ih _)

/-- What is found is an entry of the table. -/
theorem envFindVar_mem {var value : List Char} {ofs : Nat} (entries : List (List Char)) :
    ∀ offset, envFindVar var offset entries = some (ofs, value) → ofs ∈ offsets offset entries := by
  induction entries with
  | nil => exact nofun
  | cons entry entries ih =>
    intro offset h
    cases entry with
    | nil => cases h
    | cons c entry =>
      simp only [envFindVar] at h
      split at h
      · cases h
        exact mem_cons_self
      · exact mem_cons_of_mem _ (ih _ h)

/-! ## 2. The routine -/

/-- What the routine meets: the tables, the aliases, and for each `realloc`, by the number of bytes,
whether there is memory. -/
structure AliasEnv where
  nls : Nls
  aliases : List (List Char)
  malloc : Bool
  realloc : Nat → Bool

/-- What is told to the user. -/
inductive AliasError where
  | outOfMemory
  | commandTooLong
  deriving DecidableEq

/-- The line, the list of offsets with the bytes that were obtained for it, how many bytes of `hbuf`
were written to, and how often it was begun again. -/
structure AliasState where
  cmd : List Char
  expanded : List Nat
  room : Nat
  hbuf : Nat
  rounds : Nat
  error : Option AliasError
  deriving DecidableEq

/-- A character of a command word. -/
def isWord (nls : Nls) (c : Char) : Bool := nls.isFnchar c || c == '.'

/-- The loop `redo`. -/
def aliasLoop (e : AliasEnv) (maxlen : Nat) : Nat → AliasState → Option AliasState
  | 0, _ => none
  | fuel + 1, s =>
    let cp := ltrimcl s.cmd
    if cp.head? = some '*' then some { s with cmd := cp.drop 1 }
    else
      let name := cp.takeWhile (isWord e.nls)
      let cp := cp.dropWhile (isWord e.nls)
      let s := { s with hbuf := max s.hbuf (name.length + 1) }
      if name = [] ∨ cp.head?.any isPathdelim ∨ cp.head?.any isQuote then some s
      else
        match envFindVar (strFUpr e.nls name) 0 e.aliases with
        | none => some s
        | some (ofs, value) =>
          if ofs ∈ s.expanded then some s
          else if ¬ e.realloc (s.expanded.length + 1) then
            some { s with error := some .outOfMemory }
          else
            let s := { s with expanded := s.expanded ++ [ofs], room := s.expanded.length + 1 }
            if value.length < maxlen - cp.length then
              aliasLoop e maxlen fuel { s with
                cmd := value ++ cp
                hbuf := max s.hbuf ((value ++ cp).length + 1)
                rounds := s.rounds + 1 }
            else some { s with error := some .commandTooLong }

/-- aliasexpand -/
def aliasexpand (e : AliasEnv) (cmd : List Char) (maxlen : Nat) : Option AliasState :=
  if e.malloc then aliasLoop e maxlen (e.aliases.length + 1) ⟨cmd, [], 0, 0, 0, none⟩
  else some ⟨cmd, [], 0, 0, 0, some .outOfMemory⟩

/-! ## 3. What the line becomes -/

/-- Expansion is disabled. -/
def Starred (line : List Char) : Prop := (ltrimcl line).head? = some '*'

instance (line : List Char) : Decidable (Starred line) := inferInstanceAs (Decidable (_ = _))

/-- The alias that the command word of a line names: its offset, its value, and what of the line
stands behind the word. -/
def aliasOf (nls : Nls) (aliases : List (List Char)) (line : List Char) :
    Option (Nat × List Char × List Char) :=
  let word := (ltrimcl line).takeWhile (isWord nls)
  let rest := (ltrimcl line).dropWhile (isWord nls)
  if Starred line ∨ word = [] ∨ rest.head?.any isPathdelim ∨ rest.head?.any isQuote then none
  else (envFindVar (strFUpr nls word) 0 aliases).map fun a => (a.1, a.2, rest)

/-- A line is rewritten by aliases, one after the other. -/
inductive Rewrites (nls : Nls) (aliases : List (List Char)) :
    List Char → List Nat → List Char → Prop where
  | refl (line : List Char) : Rewrites nls aliases line [] line
  | snoc {line line' value rest : List Char} {applied : List Nat} {ofs : Nat}
      (h : Rewrites nls aliases line applied line')
      (halias : aliasOf nls aliases line' = some (ofs, value, rest)) :
      Rewrites nls aliases line (applied ++ [ofs]) (value ++ rest)

/-- Why it goes no further with a line that `applied` have led to, and what is returned. -/
inductive Stops (e : AliasEnv) (maxlen : Nat) (applied : List Nat) (line : List Char) :
    AliasState → Prop where
  | starred {r : AliasState} (h : Starred line) (hcmd : r.cmd = (ltrimcl line).drop 1)
      (hlist : r.expanded = applied) : Stops e maxlen applied line r
  | noAlias {r : AliasState} (h : aliasOf e.nls e.aliases line = none) (hno : ¬ Starred line)
      (hcmd : r.cmd = line) (hlist : r.expanded = applied) : Stops e maxlen applied line r
  | again {r : AliasState} {ofs : Nat} {value rest : List Char}
      (h : aliasOf e.nls e.aliases line = some (ofs, value, rest)) (hmem : ofs ∈ applied)
      (hcmd : r.cmd = line) (hlist : r.expanded = applied) : Stops e maxlen applied line r
  | noMemory {r : AliasState} {ofs : Nat} {value rest : List Char}
      (h : aliasOf e.nls e.aliases line = some (ofs, value, rest)) (hmem : ofs ∉ applied)
      (hrealloc : e.realloc (applied.length + 1) = false)
      (hcmd : r.cmd = line) (hlist : r.expanded = applied) : Stops e maxlen applied line r
  | tooLong {r : AliasState} {ofs : Nat} {value rest : List Char}
      (h : aliasOf e.nls e.aliases line = some (ofs, value, rest)) (hmem : ofs ∉ applied)
      (hlong : maxlen ≤ (value ++ rest).length)
      (hcmd : r.cmd = line) (hlist : r.expanded = applied ++ [ofs]) : Stops e maxlen applied line r

/-- **What is to be had of a call**, apart from the memory of the list: each alias is expanded once
at most, there are no more rounds than aliases, and the line is the one that the aliases lead to and
fits, as everything does that is put into the work buffer. -/
structure Expands (e : AliasEnv) (maxlen : Nat) (line : List Char) (r : AliasState) : Prop where
  once : r.expanded.Nodup
  few : r.expanded.length ≤ e.aliases.length
  rounds : r.rounds ≤ e.aliases.length
  fits : r.cmd.length < maxlen
  work : r.hbuf ≤ maxlen
  line : (e.malloc = false ∧ r.cmd = line ∧ r.expanded = []) ∨
    (e.malloc = true ∧ ∃ applied line', Rewrites e.nls e.aliases line applied line' ∧
      applied.length = r.rounds ∧ Stops e maxlen applied line' r)

/-- sizeof(unsigned) -/
def sizeofUnsigned : Nat := 2

/-- The list lies in the memory that was obtained for it. -/
def AliasState.ListInside (r : AliasState) : Prop := r.expanded.length * sizeofUnsigned ≤ r.room

instance (r : AliasState) : Decidable r.ListInside := inferInstanceAs (Decidable (_ ≤ _))

/-! ## 4. The loop -/

/-- One round, seen from the alias that the line names. -/
theorem aliasLoop_round (e : AliasEnv) (maxlen fuel : Nat) (s : AliasState) :
    let s' := { s with
      hbuf := max s.hbuf (((ltrimcl s.cmd).takeWhile (isWord e.nls)).length + 1) }
    aliasLoop e maxlen (fuel + 1) s =
      if Starred s.cmd then some { s with cmd := (ltrimcl s.cmd).drop 1 }
      else
        match aliasOf e.nls e.aliases s.cmd with
        | none => some s'
        | some (ofs, value, rest) =>
          if ofs ∈ s.expanded then some s'
          else if ¬ e.realloc (s.expanded.length + 1) then
            some { s' with error := some .outOfMemory }
          else
            let s' := { s' with expanded := s.expanded ++ [ofs], room := s.expanded.length + 1 }
            if value.length < maxlen - rest.length then
              aliasLoop e maxlen fuel { s' with
                cmd := value ++ rest
                hbuf := max s'.hbuf ((value ++ rest).length + 1)
                rounds := s.rounds + 1 }
            else some { s' with error := some .commandTooLong } := by
  intro s'
  rw [aliasLoop]
  by_cases hstar : Starred s.cmd
  · have hhead : (ltrimcl s.cmd).head? = some '*' := hstar
    rw [if_pos hstar, if_pos hhead]
  · have hhead : ¬ (ltrimcl s.cmd).head? = some '*' := hstar
    rw [if_neg hstar, if_neg hhead, aliasOf]
    by_cases hno : (ltrimcl s.cmd).takeWhile (isWord e.nls) = [] ∨
        ((ltrimcl s.cmd).dropWhile (isWord e.nls)).head?.any isPathdelim ∨
        ((ltrimcl s.cmd).dropWhile (isWord e.nls)).head?.any isQuote
    · rw [if_pos hno, if_pos (.inr hno)]
    · rw [if_neg hno, if_neg (not_or.mpr ⟨hstar, hno⟩)]
      cases envFindVar (strFUpr e.nls ((ltrimcl s.cmd).takeWhile (isWord e.nls))) 0 e.aliases with
      | none => rfl
      | some a => rfl

theorem aliasOf_mem {nls : Nls} {aliases : List (List Char)} {line value rest : List Char} {ofs : Nat}
    (h : aliasOf nls aliases line = some (ofs, value, rest)) : ofs ∈ offsets 0 aliases := by
  unfold aliasOf at h
  dsimp only at h
  split at h
  · cases h
  · obtain ⟨a, ha, heq⟩ := Option.map_eq_some_iff.mp h
    cases heq
    exact envFindVar_mem _ _ ha

theorem length_ltrimcl (line : List Char) : (ltrimcl line).length ≤ line.length :=
  (dropWhile_suffix _).length_le

/-- Before each round: what has been done so far. -/
structure Underway (e : AliasEnv) (maxlen : Nat) (line : List Char) (s : AliasState) : Prop where
  rewrites : Rewrites e.nls e.aliases line s.expanded s.cmd
  once : s.expanded.Nodup
  entries : s.expanded ⊆ offsets 0 e.aliases
  rounds : s.expanded.length = s.rounds
  room : s.room = s.expanded.length
  fits : s.cmd.length < maxlen
  work : s.hbuf ≤ maxlen

theorem Underway.few {e : AliasEnv} {maxlen : Nat} {line : List Char} {s : AliasState}
    (h : Underway e maxlen line s) : s.expanded.length ≤ e.aliases.length := by
  have hlen := (h.once.subperm h.entries).length_le
  rwa [length_offsets] at hlen

/-- **The loop ends**, for it never takes an entry twice. -/
theorem aliasLoop_ends {e : AliasEnv} (maxlen : Nat) (line : List Char) (hmalloc : e.malloc = true)
    (fuel : Nat) : ∀ s, Underway e maxlen line s → e.aliases.length < fuel + s.expanded.length →
      ∃ r, aliasLoop e maxlen fuel s = some r ∧ Expands e maxlen line r ∧
        r.room = r.expanded.length ∧ (r.expanded = [] ↔ s.expanded = [] ∧
          (aliasOf e.nls e.aliases s.cmd = none ∨ e.realloc 1 = false)) := by
  induction fuel with
  | zero =>
    intro s hs hfuel
    have := hs.few
    omega
  | succ fuel ih =>
    intro s hs hfuel
    have htrim := length_ltrimcl s.cmd
    have hword : ((ltrimcl s.cmd).takeWhile (isWord e.nls)).length ≤ (ltrimcl s.cmd).length :=
      (List.takeWhile_prefix _).length_le
    have hfits := hs.fits
    have hwork : max s.hbuf (((ltrimcl s.cmd).takeWhile (isWord e.nls)).length + 1) ≤ maxlen := by
      have := hs.work
      omega
    have hrounds : s.rounds ≤ e.aliases.length := hs.rounds ▸ hs.few
    rw [aliasLoop_round]
    by_cases hstar : Starred s.cmd
    · have hnone : aliasOf e.nls e.aliases s.cmd = none := if_pos (.inl hstar)
      rw [if_pos hstar]
      refine ⟨_, rfl, ⟨hs.once, hs.few, hrounds, ?_, hs.work, .inr ⟨hmalloc, _, _, hs.rewrites,
        hs.rounds, .starred hstar rfl rfl⟩⟩, hs.room, by simp [hnone]⟩
      rw [length_drop]
      omega
    · rw [if_neg hstar]
      cases halias : aliasOf e.nls e.aliases s.cmd with
      | none => exact ⟨_, rfl, ⟨hs.once, hs.few, hrounds, hfits, hwork, .inr ⟨hmalloc, _, _,
          hs.rewrites, hs.rounds, .noAlias halias hstar rfl rfl⟩⟩, hs.room, by simp⟩
      | some a =>
        obtain ⟨ofs, value, rest⟩ := a
        dsimp only
        by_cases hmem : ofs ∈ s.expanded
        · rw [if_pos hmem]
          have hne : s.expanded ≠ [] := ne_nil_of_mem hmem
          exact ⟨_, rfl, ⟨hs.once, hs.few, hrounds, hfits, hwork, .inr ⟨hmalloc, _, _, hs.rewrites,
            hs.rounds, .again halias hmem rfl rfl⟩⟩, hs.room, by simp [hne]⟩
        · rw [if_neg hmem]
          cases hrealloc : e.realloc (s.expanded.length + 1) with
          | false =>
            refine ⟨_, rfl, ⟨hs.once, hs.few, hrounds, hfits, hwork, .inr ⟨hmalloc, _, _,
              hs.rewrites, hs.rounds, .noMemory halias hmem hrealloc rfl rfl⟩⟩, hs.room, ?_⟩
            refine ⟨fun h => ⟨h, .inr ?_⟩, fun h => h.1⟩
            rw [show s.expanded = [] from h] at hrealloc
            exact hrealloc
          | true =>
            have honce : (s.expanded ++ [ofs]).Nodup :=
              List.Nodup.append hs.once (nodup_singleton ofs) (by simpa using hmem)
            have hentries : s.expanded ++ [ofs] ⊆ offsets 0 e.aliases :=
              append_subset.mpr ⟨hs.entries, by simpa using aliasOf_mem halias⟩
            have hlen : (s.expanded ++ [ofs]).length ≤ e.aliases.length := by
              rw [← length_offsets e.aliases 0]
              exact (honce.subperm hentries).length_le
            have hnever : s.expanded = [] → e.realloc 1 = true := fun hnil => by
              rw [hnil] at hrealloc
              exact hrealloc
            by_cases hroom : value.length < maxlen - rest.length
            · rw [if_pos hroom]
              have hnew : (value ++ rest).length < maxlen := by
                rw [length_append]
                omega
              obtain ⟨r, hr, hexp, hbytes, hempty⟩ := ih
                { cmd := value ++ rest
                  expanded := s.expanded ++ [ofs]
                  room := s.expanded.length + 1
                  hbuf := max (max s.hbuf (((ltrimcl s.cmd).takeWhile (isWord e.nls)).length + 1))
                    ((value ++ rest).length + 1)
                  rounds := s.rounds + 1
                  error := s.error }
                ⟨hs.rewrites.snoc halias, honce, hentries, by simp [hs.rounds], by simp, hnew,
                  Nat.max_le.mpr ⟨hwork, hnew⟩⟩
                (by simp only [length_append, length_singleton]; omega)
              refine ⟨r, hr, hexp, hbytes, ?_⟩
              rw [hempty]
              simpa using hnever
            · rw [if_neg hroom]
              refine ⟨_, rfl, ⟨honce, hlen, hrounds, hfits, hwork, .inr ⟨hmalloc, _, _, hs.rewrites,
                hs.rounds, .tooLong halias hmem ?_ rfl rfl⟩⟩, by simp, by simpa using hnever⟩
              rw [length_append]
              omega

/-! ## 5. The call -/

/-- **When the list is in its memory.**  Nothing else of the call depends on anything: it ends, and
the line is what the aliases lead to. -/
theorem alias_exact_iff (e : AliasEnv) (line : List Char) (maxlen : Nat)
    (hline : line.length < maxlen) : ∃ r, aliasexpand e line maxlen = some r ∧
      Expands e maxlen line r ∧ (r.ListInside ↔
        e.malloc = false ∨ aliasOf e.nls e.aliases line = none ∨ e.realloc 1 = false) := by
  unfold aliasexpand
  cases hmalloc : e.malloc with
  | false =>
    rw [if_neg (by simp)]
    exact ⟨_, rfl, ⟨List.nodup_nil, by simp, by simp, hline, by simp, Or.inl ⟨hmalloc, rfl, rfl⟩⟩,
      by simp [AliasState.ListInside]⟩
  | true =>
    rw [if_pos rfl]
    obtain ⟨r, hr, hexp, hroom, hempty⟩ := aliasLoop_ends maxlen line hmalloc
      (e.aliases.length + 1) ⟨line, [], 0, 0, 0, none⟩
      ⟨.refl line, List.nodup_nil, by simp, rfl, rfl, hline, by simp⟩ (by simp)
    refine ⟨r, hr, hexp, ?_⟩
    have hinside : r.ListInside ↔ r.expanded = [] := by
      rw [AliasState.ListInside, sizeofUnsigned, hroom, ← List.length_eq_zero_iff]
      omega
    rw [hinside, hempty]
    simp

/-- `A=B` and `B=A`, and memory for everything. -/
def twoAliases : AliasEnv where
  nls := ⟨Char.isAlphanum, Char.toUpper⟩
  aliases := ["A=b".toList, "B=a".toList]
  malloc := true
  realloc := fun _ => true

/-- The alias is found, but there is no memory to note it, and the line stays as it is. -/
theorem alias_exact_refused :
    ∃ r, aliasexpand { twoAliases with realloc := fun _ => false } "a x".toList 256 = some r ∧
      Expands { twoAliases with realloc := fun _ => false } 256 "a x".toList r ∧ r.ListInside := by
  obtain ⟨r, hr, hexp, hlist⟩ :=
    alias_exact_iff { twoAliases with realloc := fun _ => false } "a x".toList 256 (by decide)
  exact ⟨r, hr, hexp, hlist.mpr (.inr (.inr rfl))⟩

/-- **One alias is enough**: a number of two bytes is stored in one byte. -/
theorem alias_list_outside :
    ¬ ∃ r, aliasexpand twoAliases "a x".toList 256 = some r ∧ r.ListInside := by
  decide

end SdcBoot.FreeCom
