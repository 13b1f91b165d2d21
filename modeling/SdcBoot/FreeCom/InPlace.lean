/-
# get_redirection in the storage of the line

`get_redirection` rewrites the line where it stands: `sp` reads, `dp` writes behind it, and what the
two have passed is garbage.  Section 1 is the routine with its storage, in which an access outside
of the line is a failure (`none`).  `Reads` of section 2 says how a line is made of pieces, without
any storage; the routine leaves just what the pieces say (`scan_reads`), with one exception: a `>`
behind a `>>` does not take back that the file is opened for appending.  So `*ofatt` is right just
for the lines whose last output redirection is `>>` if one of them is (`redirection_exact_iff`).
-/
import Mathlib.Data.List.TakeWhile
import SdcBoot.FreeCom.Redirect

namespace SdcBoot.FreeCom

open List Option Nat

/-! ## 1. The routine -/

def nul : Char := Char.ofNat 0

/-- What is passed back, and the names that were freed. -/
structure Found where
  num : Nat
  ifn : Option (List Char)
  ofn : Option (List Char)
  freed : List (List Char)
  ofatt : OpenMode
  deriving DecidableEq

/-- The storage of the line and the two cursors. -/
structure Scan extends Found where
  mem : List Char
  dp : Nat
  sp : Nat
  deriving DecidableEq

/-- `*p = c` -/
def poke (mem : List Char) (p : Nat) (c : Char) : Option (List Char) :=
  if p < mem.length then some (mem.set p c) else none

/-- The string at `p`; all the routines that look for its end need a NUL. -/
def stringAt (mem : List Char) (p : Nat) : Option (List Char) :=
  if nul ∈ mem.drop p then some ((mem.drop p).takeWhile (· != nul)) else none

/-- `memmove(dst, src, len)` -/
def memmove (mem : List Char) (dst src len : Nat) : Option (List Char) :=
  if dst + len ≤ mem.length ∧ src + len ≤ mem.length then
    some (mem.take dst ++ (mem.drop src).take len ++ mem.drop (dst + len))
  else none

/-- A character of a name. -/
def isName (c : Char) : Bool := !isRedir c && !isargdelim c

/-- How much is copied behind a quote: with the closing one, or else all. -/
def quotedLength (text : List Char) : Nat :=
  (text.takeWhile (· != '"')).length + ((text.dropWhile (· != '"')).take 1).length

/-- The loop of `get_redirection`; every round moves `sp` on. -/
def scan : Nat → Scan → Option Scan
  | 0, _ => none
  | fuel + 1, s =>
    s.mem[s.sp]?.bind fun ch =>
    (poke s.mem s.dp ch).bind fun mem =>
    if ch = nul then some { s with mem := mem, dp := s.dp + 1, sp := s.sp + 1 }
    else if ch = '"' then
      (stringAt mem (s.sp + 1)).bind fun text =>
      (memmove mem (s.dp + 1) (s.sp + 1) (quotedLength text)).bind fun mem =>
      scan fuel { s with
        mem := mem
        dp := s.dp + 1 + quotedLength text
        sp := s.sp + 1 + quotedLength text }
    else if ch = '<' ∨ ch = '>' then
      let twice := ch = '>' ∧ mem[s.sp + 1]? = some '>'
      let sp := if twice then s.sp + 2 else s.sp + 1
      (stringAt mem sp).bind fun text =>
      -- the NUL that is planted behind the name is gone when the name was copied
      let name := (ltrimcl text).takeWhile isName
      let old := if ch = '<' then s.ifn else s.ofn
      scan fuel { s with
        mem := mem
        sp := sp + (text.takeWhile isargdelim).length + name.length
        ifn := if ch = '<' then some name else s.ifn
        ofn := if ch = '<' then s.ofn else some name
        freed := s.freed ++ old.toList
        ofatt := if twice then .append else s.ofatt }
    else if ch = '|' then
      (poke mem s.dp nul).bind fun mem =>
      scan fuel { s with mem := mem, dp := s.dp + 1, sp := s.sp + 1, num := s.num + 1 }
    else scan fuel { s with mem := mem, dp := s.dp + 1, sp := s.sp + 1 }

/-- The line in its storage, and what the caller has set. -/
def Scan.start (line : List Char) : Scan := ⟨⟨1, none, none, [], .create⟩, line ++ [nul], 0, 0⟩

def getRedirectionInPlace (line : List Char) : Option Scan := scan (line.length + 1) (.start line)

/-! ## 2. What a line is made of -/

inductive Piece where
  | char (c : Char)
  | quoted (text : List Char)
  | pipe
  | input (name : List Char)
  | output (append : Bool) (name : List Char)
  deriving DecidableEq

/-- A name is as long as it can be, and so are the delimiters before it. -/
structure NameFrom (gap name rest : List Char) : Prop where
  delims : ∀ c ∈ gap, isargdelim c = true
  letters : ∀ c ∈ name, isName c = true
  first : ∀ c ∈ (name ++ rest).head?, isargdelim c = false
  last : ∀ c ∈ rest.head?, isName c = false

/-- How a line is read, from left to right.  A quote in a name is a character of the name. -/
inductive Reads : List Char → List Piece → Prop where
  | nil : Reads [] []
  | quoted {text rest : List Char} {ps : List Piece} (htext : '"' ∉ text) (h : Reads rest ps) :
      Reads ('"' :: text ++ '"' :: rest) (.quoted ('"' :: text ++ ['"']) :: ps)
  | unclosed {text : List Char} (htext : '"' ∉ text) : Reads ('"' :: text) [.quoted ('"' :: text)]
  | input {gap name rest : List Char} {ps : List Piece} (hname : NameFrom gap name rest)
      (h : Reads rest ps) : Reads ('<' :: (gap ++ (name ++ rest))) (.input name :: ps)
  | append {gap name rest : List Char} {ps : List Piece} (hname : NameFrom gap name rest)
      (h : Reads rest ps) :
      Reads ('>' :: '>' :: (gap ++ (name ++ rest))) (.output true name :: ps)
  | output {gap name rest : List Char} {ps : List Piece} (hname : NameFrom gap name rest)
      (hone : (gap ++ (name ++ rest)).head? ≠ some '>') (h : Reads rest ps) :
      Reads ('>' :: (gap ++ (name ++ rest))) (.output false name :: ps)
  | pipe {rest : List Char} {ps : List Piece} (h : Reads rest ps) :
      Reads ('|' :: rest) (.pipe :: ps)
  | char {c : Char} {rest : List Char} {ps : List Piece}
      (hc : c ≠ '"' ∧ c ≠ '<' ∧ c ≠ '>' ∧ c ≠ '|') (h : Reads rest ps) :
      Reads (c :: rest) (.char c :: ps)

/-- What stays of a piece; a pipe sign becomes the end of a string. -/
def Piece.kept : Piece → List Char
  | .char c => [c]
  | .quoted text => text
  | .pipe => [nul]
  | .input _ | .output _ _ => []

/-- What a piece changes in what is passed back. -/
def Found.add (f : Found) : Piece → Found
  | .char _ | .quoted _ => f
  | .pipe => { f with num := f.num + 1 }
  | .input name => { f with ifn := some name, freed := f.freed ++ f.ifn.toList }
  | .output append name =>
    { f with
      ofn := some name
      freed := f.freed ++ f.ofn.toList
      ofatt := if append then .append else f.ofatt }

/-! ## 3. The storage -/

section

variable {written junk text rest tail : List Char}

theorem poke_eq (written junk tail : List Char) (c d : Char) : poke (written ++ (junk ++ c :: tail)) written.length d =
    some (written ++ ([d] ++ ((junk ++ [c]).tail ++ tail))) := by
  rw [poke, if_pos (by simp only [length_append, length_cons]; omega)]
  congr 1
  cases junk <;> simp

theorem memmove_eq (written junk text tail : List Char) :
    memmove (written ++ (junk ++ (text ++ tail))) written.length (written.length + junk.length)
      text.length = some (written ++ (text ++ ((junk ++ text).drop text.length ++ tail))) := by
  rw [memmove, if_pos (by simp; omega)]
  congr 1
  have hsrc : (written ++ (junk ++ (text ++ tail))).drop (written.length + junk.length) =
      text ++ tail := by
    rw [← length_append, ← append_assoc, drop_left]
  have hdst : (written ++ (junk ++ (text ++ tail))).drop (written.length + text.length) =
      (junk ++ text).drop text.length ++ tail := by
    rw [← drop_drop, drop_left, ← append_assoc,
      drop_append_of_le_length (by simp)]
  rw [take_left, hsrc, take_left, hdst, append_assoc]

theorem stringAt_eq {p : Nat} (hrest : nul ∉ rest) (hp : p = (written ++ junk).length) :
    stringAt (written ++ (junk ++ (rest ++ [nul]))) p = some rest := by
  have hdrop : (written ++ (junk ++ (rest ++ [nul]))).drop p = rest ++ [nul] := by
    rw [hp, ← append_assoc, drop_left]
  rw [stringAt, hdrop, if_pos (by simp)]
  congr 1
  rw [takeWhile_append_of_pos]
  · simp
  · intro c hc
    simpa using fun h : c = nul => hrest (h ▸ hc)

theorem getElem_sp (c : Char) : (written ++ (junk ++ (c :: rest ++ [nul])))[written.length +
    junk.length]? = some c := by
  simp

/-! ## 4. The routine and the pieces -/

/-- What was written, what the cursors have passed, and what is still to be read. -/
structure Stands (s : Scan) (written junk rest : List Char) : Prop where
  mem : s.mem = written ++ (junk ++ (rest ++ [nul]))
  dp : s.dp = written.length
  sp : s.sp = written.length + junk.length

/-- The routine has read the pieces, and is done. -/
structure Done (s : Scan) (written : List Char) (ps : List Piece) (s' : Scan) : Prop where
  mem : ∃ junk, s'.mem = written ++ (ps.flatMap Piece.kept ++ nul :: junk)
  size : s'.mem.length = s.mem.length
  found : s'.toFound = ps.foldl Found.add s.toFound

variable {s s1 s' : Scan} {p : Piece} {ps : List Piece}

/-- After the round of a piece it goes on behind what stays of it. -/
theorem Done.cons (h : Done s1 (written ++ p.kept) ps s') (hsize : s1.mem.length = s.mem.length)
    (hfound : s1.toFound = s.toFound.add p) : Done s written (p :: ps) s' := by
  obtain ⟨junk, hmem⟩ := h.mem
  refine ⟨⟨junk, ?_⟩, h.size.trans hsize, ?_⟩
  · rw [hmem, flatMap_cons, append_assoc, append_assoc]
  · rw [h.found, hfound, foldl_cons]

/-- The first character of a round is copied. -/
theorem Stands.copied {c : Char} (h : Stands s written junk (c :: rest)) :
    s.mem[s.sp]? = some c ∧
      poke s.mem s.dp c = some (written ++ ([c] ++ ((junk ++ [c]).tail ++ (rest ++ [nul])))) := by
  rw [h.mem, h.dp, h.sp]
  exact ⟨getElem_sp c, poke_eq _ _ _ c c⟩

theorem length_tail_append (c : Char) : (junk ++ [c]).tail.length = junk.length := by simp

variable (fuel : Nat)

theorem scan_nil (h : Stands s written junk []) : ∃ s', scan (fuel + 1) s = some s' ∧
    Done s written [] s' := by
  have hget : s.mem[s.sp]? = some nul := by
    rw [h.mem, h.sp, ← append_assoc, getElem?_append_right (by simp)]
    simp
  have hpoke : poke s.mem s.dp nul = some (written ++ ([nul] ++ ((junk ++ [nul]).tail ++ []))) := by
    rw [h.mem, h.dp]
    exact poke_eq _ _ [] nul nul
  have hround : scan (fuel + 1) s = some { s with
      mem := written ++ ([nul] ++ ((junk ++ [nul]).tail ++ [])), dp := s.dp + 1, sp := s.sp + 1 } := by
    rw [scan, hget, bind_some, hpoke, bind_some, if_pos rfl]
  refine ⟨_, hround, ⟨_, rfl⟩, ?_, rfl⟩
  rw [h.mem]
  simp

/-- A character that is copied as it is. -/
theorem scan_char {c : Char} (h : Stands s written junk (c :: rest)) (hnul : c ≠ nul)
    (hc : c ≠ '"' ∧ c ≠ '<' ∧ c ≠ '>' ∧ c ≠ '|') :
    ∃ s1 junk1, scan (fuel + 1) s = scan fuel s1 ∧ Stands s1 (written ++ [c]) junk1 rest ∧
      s1.mem.length = s.mem.length ∧ s1.toFound = s.toFound := by
  obtain ⟨hget, hpoke⟩ := h.copied
  have hround : scan (fuel + 1) s = scan fuel { s with
      mem := written ++ ([c] ++ ((junk ++ [c]).tail ++ (rest ++ [nul])))
      dp := s.dp + 1
      sp := s.sp + 1 } := by
    rw [scan, hget, bind_some, hpoke, bind_some, if_neg hnul, if_neg hc.1,
      if_neg (not_or.mpr ⟨hc.2.1, hc.2.2.1⟩), if_neg hc.2.2.2]
  refine ⟨_, (junk ++ [c]).tail, hround, ⟨?_, ?_, ?_⟩, ?_, rfl⟩
  · simp
  · simp [h.dp]
  · simp [h.sp]
    omega
  · rw [h.mem]
    simp
    omega

theorem scan_pipe (h : Stands s written junk ('|' :: rest)) :
    ∃ s1 junk1, scan (fuel + 1) s = scan fuel s1 ∧ Stands s1 (written ++ [nul]) junk1 rest ∧
      s1.mem.length = s.mem.length ∧ s1.toFound = s.toFound.add .pipe := by
  obtain ⟨hget, hpoke⟩ := h.copied
  have hend : poke (written ++ (['|'] ++ ((junk ++ ['|']).tail ++ (rest ++ [nul])))) s.dp nul =
      some (written ++ ([nul] ++ ((junk ++ ['|']).tail ++ (rest ++ [nul])))) := by
    rw [h.dp]
    exact poke_eq written [] _ '|' nul
  have hround : scan (fuel + 1) s = scan fuel { s with
      mem := written ++ ([nul] ++ ((junk ++ ['|']).tail ++ (rest ++ [nul])))
      dp := s.dp + 1
      sp := s.sp + 1
      num := s.num + 1 } := by
    rw [scan, hget, bind_some, hpoke, bind_some, if_neg (by decide),
      if_neg (by decide), if_neg (by decide), if_pos rfl, hend, bind_some]
  refine ⟨_, (junk ++ ['|']).tail, hround, ⟨?_, ?_, ?_⟩, ?_, rfl⟩
  · simp
  · simp [h.dp]
  · simp [h.sp]
    omega
  · rw [h.mem]
    simp
    omega

/-- A quoted part is moved as a whole. -/
theorem scan_quoted (h : Stands s written junk ('"' :: (text ++ rest))) (hnul : nul ∉ text ++ rest)
    (hlen : quotedLength (text ++ rest) = text.length) :
    ∃ s1 junk1, scan (fuel + 1) s = scan fuel s1 ∧ Stands s1 (written ++ ('"' :: text)) junk1 rest ∧
      s1.mem.length = s.mem.length ∧ s1.toFound = s.toFound := by
  obtain ⟨hget, hpoke⟩ := h.copied
  have hmem : written ++ (['"'] ++ ((junk ++ ['"']).tail ++ ((text ++ rest) ++ [nul]))) =
      (written ++ ['"']) ++ ((junk ++ ['"']).tail ++ ((text ++ rest) ++ [nul])) := by simp
  have hstring : stringAt (written ++ (['"'] ++ ((junk ++ ['"']).tail ++ ((text ++ rest) ++ [nul]))))
      (s.sp + 1) = some (text ++ rest) := by
    rw [hmem]
    exact stringAt_eq hnul (by simp [h.sp]; omega)
  have hmove : memmove (written ++ (['"'] ++ ((junk ++ ['"']).tail ++ ((text ++ rest) ++ [nul]))))
      (s.dp + 1) (s.sp + 1) text.length = some ((written ++ ['"']) ++ (text ++
        (((junk ++ ['"']).tail ++ text).drop text.length ++ (rest ++ [nul])))) := by
    rw [hmem, h.dp, h.sp, append_assoc text rest [nul]]
    have hm := memmove_eq (written ++ ['"']) (junk ++ ['"']).tail text (rest ++ [nul])
    rw [length_tail_append, length_append, length_singleton] at hm
    rw [Nat.add_right_comm]
    exact hm
  have hround : scan (fuel + 1) s = scan fuel { s with
      mem := (written ++ ['"']) ++ (text ++
        (((junk ++ ['"']).tail ++ text).drop text.length ++ (rest ++ [nul])))
      dp := s.dp + 1 + text.length
      sp := s.sp + 1 + text.length } := by
    rw [scan, hget, bind_some, hpoke, bind_some, if_neg (by decide), if_pos rfl,
      hstring, bind_some, hlen, hmove, bind_some]
  refine ⟨_, ((junk ++ ['"']).tail ++ text).drop text.length, hround, ⟨?_, ?_, ?_⟩, ?_, rfl⟩
  · simp
  · simp [h.dp]
    omega
  · simp [h.sp]
    omega
  · rw [h.mem]
    simp
    omega

/-- A run of characters, up to the first one that is not of the kind. -/
theorem span_eq {q : Char → Bool} {run rest : List Char} (hrun : ∀ c ∈ run, q c = true)
    (hrest : ∀ c ∈ rest.head?, q c = false) :
    (run ++ rest).takeWhile q = run ∧ (run ++ rest).dropWhile q = rest := by
  rw [takeWhile_append_of_pos hrun, dropWhile_append_of_pos hrun]
  cases rest with
  | nil => simp
  | cons c rest => simp [hrest c (by simp)]

/-- Up to a quote, or to the end. -/
theorem quote_span (rest : List Char) (htext : '"' ∉ text) (hrest : ∀ c ∈ rest.head?, c = '"') :
    (text ++ rest).takeWhile (· != '"') = text ∧ (text ++ rest).dropWhile (· != '"') = rest :=
  span_eq (fun c hc => by simpa using fun hq : c = '"' => htext (hq ▸ hc))
    fun c hc => by simp [hrest c hc]

variable {ch : Char} {gap name : List Char}

/-- The sign, the delimiters and the name are passed, and nothing of them is kept. -/
theorem scan_redirect (extra : List Char)
    (h : Stands s written junk (ch :: (extra ++ (gap ++ (name ++ rest)))))
    (hch : ch = '<' ∨ ch = '>') (hextra : extra = [] ∨ extra = ['>'])
    (htwice : ch = '>' ∧ ((extra ++ (gap ++ (name ++ rest))) ++ [nul]).head? = some '>' ↔
      extra = ['>'])
    (hnames : NameFrom gap name rest) (hnul : nul ∉ gap ++ (name ++ rest)) :
    ∃ s1 junk1, scan (fuel + 1) s = scan fuel s1 ∧ Stands s1 written junk1 rest ∧
      s1.mem.length = s.mem.length ∧
      s1.toFound = s.toFound.add
        (if ch = '<' then .input name else .output (decide (extra = ['>'])) name) := by
  obtain ⟨hget, hpoke⟩ := h.copied
  have hno : ch ≠ nul ∧ ch ≠ '"' := by rcases hch with rfl | rfl <;> decide
  -- the storage, with everything up to the name in one piece
  have hmem : written ++ ([ch] ++ ((junk ++ [ch]).tail ++
      (extra ++ (gap ++ (name ++ rest)) ++ [nul]))) =
      written ++ (([ch] ++ (junk ++ [ch]).tail ++ extra) ++ ((gap ++ (name ++ rest)) ++ [nul])) := by
    simp
  have hsecond : (written ++ ([ch] ++ ((junk ++ [ch]).tail ++
      (extra ++ (gap ++ (name ++ rest)) ++ [nul]))))[s.sp + 1]? =
      ((extra ++ (gap ++ (name ++ rest))) ++ [nul]).head? := by
    rw [← append_assoc, ← append_assoc, getElem?_append_right (by simp [h.sp]; omega),
      head?_eq_getElem?]
    congr 1
    simp only [length_append, length_cons, length_nil, length_tail, h.sp]
    omega
  have hafter : (if ch = '>' ∧ (written ++ ([ch] ++ ((junk ++ [ch]).tail ++
      (extra ++ (gap ++ (name ++ rest)) ++ [nul]))))[s.sp + 1]? = some '>' then s.sp + 2
      else s.sp + 1) = s.sp + 1 + extra.length := by
    rw [hsecond]
    rcases hextra with hx | hx
    · rw [if_neg fun hc => absurd (hx.symm.trans (htwice.mp hc)) (by simp), hx]
      rfl
    · rw [if_pos (htwice.mpr hx), hx]
      rfl
  have hstring : stringAt (written ++ ([ch] ++ ((junk ++ [ch]).tail ++
      (extra ++ (gap ++ (name ++ rest)) ++ [nul])))) (s.sp + 1 + extra.length) =
      some (gap ++ (name ++ rest)) := by
    rw [hmem]
    exact stringAt_eq hnul (by simp [h.sp]; omega)
  obtain ⟨hgap, htrim⟩ := span_eq hnames.delims hnames.first
  obtain ⟨hname, -⟩ := span_eq hnames.letters hnames.last
  have hround : scan (fuel + 1) s = scan fuel { s with
      mem := written ++ ([ch] ++ ((junk ++ [ch]).tail ++ (extra ++ (gap ++ (name ++ rest)) ++ [nul])))
      sp := s.sp + 1 + extra.length + gap.length + name.length
      ifn := if ch = '<' then some name else s.ifn
      ofn := if ch = '<' then s.ofn else some name
      freed := s.freed ++ (if ch = '<' then s.ifn else s.ofn).toList
      ofatt := if ch = '>' ∧ ((extra ++ (gap ++ (name ++ rest))) ++ [nul]).head? = some '>'
        then .append else s.ofatt } := by
    rw [scan, hget, bind_some, hpoke, bind_some, if_neg hno.1, if_neg hno.2, if_pos hch]
    dsimp only
    rw [hafter, hstring, bind_some, hgap, ltrimcl, htrim, hname, hsecond]
  refine ⟨_, [ch] ++ (junk ++ [ch]).tail ++ extra ++ gap ++ name, hround, ⟨?_, h.dp, ?_⟩, ?_, ?_⟩
  · simp
  · simp [h.sp]
    omega
  · rw [h.mem]
    simp
    omega
  · rcases hch with rfl | rfl
    · simp [Found.add]
    · change Found.mk _ _ _ _ _ = Found.mk _ _ _ _ _
      congr 1
      exact if_congr (htwice.trans decide_eq_true_iff.symm) rfl rfl

/-- **The routine reads the pieces**, and keeps of each what stays of it. -/
theorem scan_reads (h : Reads rest ps) : ∀ (fuel : Nat) {s : Scan} {written junk : List Char},
    nul ∉ rest → rest.length < fuel → Stands s written junk rest →
    ∃ s', scan fuel s = some s' ∧ Done s written ps s' := by
  induction h with
  | nil =>
    intro fuel s written junk _ hfuel hat
    obtain ⟨fuel, rfl⟩ := exists_eq_succ_of_ne_zero (ne_of_gt hfuel)
    exact scan_nil fuel hat
  | @quoted text rest ps htext _ ih =>
    intro fuel s written junk hnul hfuel hat
    obtain ⟨fuel, rfl⟩ := exists_eq_succ_of_ne_zero (Nat.ne_zero_of_lt hfuel)
    have hspan := quote_span ('"' :: rest) htext (by simp)
    have hlen : quotedLength ((text ++ ['"']) ++ rest) = (text ++ ['"']).length := by
      rw [append_assoc, singleton_append, quotedLength, hspan.1, hspan.2]
      simp
    have hat' : Stands s written junk ('"' :: ((text ++ ['"']) ++ rest)) := by
      simpa using hat
    obtain ⟨s1, junk1, hround, hat1, hsize, hfound⟩ := scan_quoted fuel hat'
      (fun hmem => hnul (mem_cons_of_mem _ (by simpa using hmem))) hlen
    obtain ⟨s', hscan, hdone⟩ := ih fuel (fun hmem => hnul (by simp [hmem]))
      (by simp at hfuel; omega) hat1
    exact ⟨s', hround.trans hscan, Done.cons (p := .quoted ('"' :: text ++ ['"'])) hdone hsize hfound⟩
  | @unclosed text htext =>
    intro fuel s written junk hnul hfuel hat
    obtain ⟨fuel, rfl⟩ := exists_eq_succ_of_ne_zero (Nat.ne_zero_of_lt hfuel)
    have hspan := quote_span [] htext (by simp)
    have hlen : quotedLength (text ++ []) = text.length := by
      rw [quotedLength, hspan.1, hspan.2]
      rfl
    have hat' : Stands s written junk ('"' :: (text ++ [])) := by simpa using hat
    obtain ⟨s1, junk1, hround, hat1, hsize, hfound⟩ := scan_quoted fuel hat'
      (fun hmem => hnul (mem_cons_of_mem _ (by simpa using hmem))) hlen
    obtain ⟨fuel, rfl⟩ := exists_eq_succ_of_ne_zero (n := fuel) (by simp at hfuel; omega)
    obtain ⟨s', hscan, hdone⟩ := scan_nil fuel hat1
    exact ⟨s', hround.trans hscan, Done.cons (p := .quoted ('"' :: text)) hdone hsize hfound⟩
  | @input gap name rest ps hnames _ ih =>
    intro fuel s written junk hnul hfuel hat
    obtain ⟨fuel, rfl⟩ := exists_eq_succ_of_ne_zero (Nat.ne_zero_of_lt hfuel)
    obtain ⟨s1, junk1, hround, hat1, hsize, hfound⟩ := scan_redirect fuel [] hat (.inl rfl) (.inl rfl) (by simp) hnames
      (fun hmem => hnul (.tail _ hmem))
    obtain ⟨s', hscan, hdone⟩ := ih fuel (fun hmem => hnul (by simp [hmem]))
      (by simp at hfuel; omega) hat1
    rw [← append_nil written] at hdone
    exact ⟨s', hround.trans hscan, by simpa using Done.cons (p := .input name) hdone hsize hfound⟩
  | @append gap name rest ps hnames _ ih =>
    intro fuel s written junk hnul hfuel hat
    obtain ⟨fuel, rfl⟩ := exists_eq_succ_of_ne_zero (Nat.ne_zero_of_lt hfuel)
    obtain ⟨s1, junk1, hround, hat1, hsize, hfound⟩ := scan_redirect fuel ['>'] hat (.inr rfl) (.inr rfl) (by simp) hnames
      (fun hmem => hnul (.tail _ (.tail _ hmem)))
    obtain ⟨s', hscan, hdone⟩ := ih fuel (fun hmem => hnul (by simp [hmem]))
      (by simp at hfuel; omega) hat1
    rw [← append_nil written] at hdone
    exact ⟨s', hround.trans hscan, by
      simpa using Done.cons (p := .output true name) hdone hsize (by simpa using hfound)⟩
  | @output gap name rest ps hnames hone _ ih =>
    intro fuel s written junk hnul hfuel hat
    obtain ⟨fuel, rfl⟩ := exists_eq_succ_of_ne_zero (Nat.ne_zero_of_lt hfuel)
    have hsecond : ((gap ++ (name ++ rest)) ++ [nul]).head? ≠ some '>' := by
      rw [head?_append]
      cases hhead : (gap ++ (name ++ rest)).head? with
      | none => simp [nul]
      | some c => simpa [hhead] using hone
    obtain ⟨s1, junk1, hround, hat1, hsize, hfound⟩ := scan_redirect fuel [] hat (.inr rfl) (.inl rfl) (by simpa using hsecond) hnames
      (fun hmem => hnul (.tail _ hmem))
    obtain ⟨s', hscan, hdone⟩ := ih fuel (fun hmem => hnul (by simp [hmem]))
      (by simp at hfuel; omega) hat1
    rw [← append_nil written] at hdone
    exact ⟨s', hround.trans hscan, by
      simpa using Done.cons (p := .output false name) hdone hsize (by simpa using hfound)⟩
  | @pipe rest ps _ ih =>
    intro fuel s written junk hnul hfuel hat
    obtain ⟨fuel, rfl⟩ := exists_eq_succ_of_ne_zero (Nat.ne_zero_of_lt hfuel)
    obtain ⟨s1, junk1, hround, hat1, hsize, hfound⟩ := scan_pipe fuel hat
    obtain ⟨s', hscan, hdone⟩ := ih fuel (fun hmem => hnul (.tail _ hmem))
      (by simp at hfuel; omega) hat1
    exact ⟨s', hround.trans hscan, Done.cons (p := .pipe) hdone hsize hfound⟩
  | @char c rest ps hc _ ih =>
    intro fuel s written junk hnul hfuel hat
    obtain ⟨fuel, rfl⟩ := exists_eq_succ_of_ne_zero (Nat.ne_zero_of_lt hfuel)
    obtain ⟨s1, junk1, hround, hat1, hsize, hfound⟩ := scan_char fuel hat
      (fun hz => hnul (hz ▸ mem_cons_self)) hc
    obtain ⟨s', hscan, hdone⟩ := ih fuel (fun hmem => hnul (.tail _ hmem))
      (by simp at hfuel; omega) hat1
    exact ⟨s', hround.trans hscan, Done.cons (p := .char c) hdone hsize hfound⟩

end

/-! ## 5. Every line is made of pieces -/

theorem head_dropWhile {q : Char → Bool} {l : List Char} :
    ∀ c ∈ (l.dropWhile q).head?, q c = false := by
  intro c hc
  have hhead := head?_dropWhile_not q l
  rw [Option.mem_def.mp hc] at hhead
  simpa using hhead

/-- The name behind a sign. -/
theorem names_behind (text : List Char) : ∃ gap name rest,
    text = gap ++ (name ++ rest) ∧ NameFrom gap name rest := by
  refine ⟨text.takeWhile isargdelim, (text.dropWhile isargdelim).takeWhile isName,
    (text.dropWhile isargdelim).dropWhile isName, ?_, ⟨?_, ?_, ?_, ?_⟩⟩
  · rw [takeWhile_append_dropWhile, takeWhile_append_dropWhile]
  · exact fun c hc => mem_takeWhile_imp hc
  · exact fun c hc => mem_takeWhile_imp hc
  · rw [takeWhile_append_dropWhile]
    exact head_dropWhile
  · exact head_dropWhile

theorem exists_reads : ∀ (n : Nat) (line : List Char), line.length ≤ n → ∃ ps, Reads line ps := by
  intro n
  induction n with
  | zero =>
    intro line hlen
    obtain rfl : line = [] := length_eq_zero_iff.mp (Nat.le_zero.mp hlen)
    exact ⟨[], .nil⟩
  | succ n ih =>
    intro line hlen
    cases line with
    | nil => exact ⟨[], .nil⟩
    | cons c text =>
      have hshort : ∀ rest : List Char, rest.length ≤ text.length → ∃ ps, Reads rest ps :=
        fun rest hle => ih rest (by simp at hlen; omega)
      by_cases hquote : c = '"'
      · subst hquote
        by_cases hmem : '"' ∈ text
        · obtain ⟨before, rest, rfl, hbefore⟩ := eq_append_cons_of_mem hmem
          obtain ⟨ps, hps⟩ := hshort rest (by simp; omega)
          exact ⟨_, .quoted hbefore hps⟩
        · exact ⟨_, .unclosed hmem⟩
      · by_cases hin : c = '<'
        · subst hin
          obtain ⟨gap, name, rest, rfl, hnames⟩ := names_behind text
          obtain ⟨ps, hps⟩ := hshort rest (by simp; omega)
          exact ⟨_, .input hnames hps⟩
        · by_cases hout : c = '>'
          · subst hout
            by_cases htwice : text.head? = some '>'
            · obtain ⟨text, rfl⟩ : ∃ t, text = '>' :: t := by
                cases text with
                | nil => cases htwice
                | cons d t => exact ⟨t, by rw [some.inj htwice]⟩
              obtain ⟨gap, name, rest, rfl, hnames⟩ := names_behind text
              obtain ⟨ps, hps⟩ := hshort rest (by simp; omega)
              exact ⟨_, .append hnames hps⟩
            · obtain ⟨gap, name, rest, rfl, hnames⟩ := names_behind text
              obtain ⟨ps, hps⟩ := hshort rest (by simp; omega)
              exact ⟨_, .output hnames htwice hps⟩
          · obtain ⟨ps, hps⟩ := hshort text le_rfl
            by_cases hpipe : c = '|'
            · subst hpipe
              exact ⟨_, .pipe hps⟩
            · exact ⟨_, .char ⟨hquote, hin, hout, hpipe⟩ hps⟩

/-! ## 6. What is passed back -/

/-- The names of the input redirections. -/
def inputs : List Piece → List (List Char)
  | [] => []
  | .input name :: ps => name :: inputs ps
  | .char _ :: ps | .quoted _ :: ps | .pipe :: ps | .output _ _ :: ps => inputs ps

def outputs : List Piece → List (List Char)
  | [] => []
  | .output _ name :: ps => name :: outputs ps
  | .char _ :: ps | .quoted _ :: ps | .pipe :: ps | .input _ :: ps => outputs ps

/-- Of each output redirection, whether it is `>>`. -/
def appends : List Piece → List Bool
  | [] => []
  | .output append _ :: ps => append :: appends ps
  | .char _ :: ps | .quoted _ :: ps | .pipe :: ps | .input _ :: ps => appends ps

/-- The strings between the pipe signs. -/
def strings : List Piece → List (List Char)
  | [] => [[]]
  | .pipe :: ps => [] :: strings ps
  | p :: ps => match strings ps with
    | [] => [p.kept]
    | first :: others => (p.kept ++ first) :: others

theorem getLast?_or {α : Type} (a : α) (l : List α) (x : Option α) :
    ((a :: l).getLast?).or x = l.getLast?.or (some a) := by
  cases h : l.getLast? with
  | none => simp [getLast?_eq_none_iff.mp h]
  | some b => simp [getLast?_cons, h]

variable (ps : List Piece) (f : Found)

theorem foldl_num : (ps.foldl Found.add f).num = f.num + ps.count .pipe := by
  induction ps generalizing f with
  | nil => rfl
  | cons p ps ih =>
    rw [foldl_cons, ih]
    cases p <;> simp [Found.add, Nat.add_right_comm, Nat.add_assoc]

theorem foldl_ifn : (ps.foldl Found.add f).ifn = (inputs ps).getLast?.or f.ifn := by
  induction ps generalizing f with
  | nil => rfl
  | cons p ps ih =>
    rw [foldl_cons, ih]
    cases p with
    | input name => exact (getLast?_or name (inputs ps) f.ifn).symm
    | _ => rfl

theorem foldl_ofn : (ps.foldl Found.add f).ofn = (outputs ps).getLast?.or f.ofn := by
  induction ps generalizing f with
  | nil => rfl
  | cons p ps ih =>
    rw [foldl_cons, ih]
    cases p with
    | output append name => exact (getLast?_or name (outputs ps) f.ofn).symm
    | _ => rfl

/-- Every name that was allocated is passed back or freed, and none twice. -/
theorem foldl_freed :
    ((ps.foldl Found.add f).freed ++ (ps.foldl Found.add f).ifn.toList ++
      (ps.foldl Found.add f).ofn.toList).Perm
      (f.freed ++ f.ifn.toList ++ f.ofn.toList ++ (inputs ps ++ outputs ps)) := by
  induction ps generalizing f with
  | nil => simp [inputs, outputs]
  | cons p ps ih =>
    refine (ih (f.add p)).trans ?_
    cases p with
    | char c => exact List.Perm.refl _
    | quoted text => exact List.Perm.refl _
    | pipe => exact List.Perm.refl _
    | input name
    | output append name =>
      simp only [Found.add, inputs, outputs, toList_some]
      rw [perm_iff_count]
      intro a
      simp only [count_append, count_cons, count_nil]
      omega

theorem foldl_ofatt :
    (ps.foldl Found.add f).ofatt = .append ↔ true ∈ appends ps ∨ f.ofatt = .append := by
  induction ps generalizing f with
  | nil => simp [appends]
  | cons p ps ih =>
    rw [foldl_cons, ih]
    cases p with
    | output append name => cases append <;> simp [Found.add, appends]
    | _ => rfl

/-- What stays is the strings, each with its NUL. -/
theorem kept_eq :
    ps.flatMap Piece.kept ++ [nul] = (strings ps).flatMap (· ++ [nul]) ∧
      (strings ps).length = 1 + ps.count .pipe := by
  induction ps with
  | nil => exact ⟨rfl, rfl⟩
  | cons p ps ih =>
    obtain ⟨hkept, hlen⟩ := ih
    rw [flatMap_cons, append_assoc, hkept]
    have hcons : strings ps ≠ [] := by
      intro hnil
      rw [hnil] at hlen
      simp at hlen
      omega
    obtain ⟨first, others, hstrings⟩ := exists_cons_of_ne_nil hcons
    cases p with
    | pipe => simp [strings, Piece.kept, hlen, Nat.add_comm]
    | _ =>
      simp only [strings, hstrings] at hlen ⊢
      exact ⟨by simp, by simpa using hlen⟩

/-! ## 7. The line -/

/-- `n` strings and nothing else of the line, the last names, and no name lost: all that is said of
`get_redirection` but the mode. -/
structure Splits (line : List Char) (ps : List Piece) (s : Scan) : Prop where
  inside : s.mem.length = line.length + 1
  num : s.num = 1 + ps.count .pipe
  strings : (strings ps).length = s.num ∧ (strings ps).flatMap (· ++ [nul]) <+: s.mem
  ifn : s.ifn = (inputs ps).getLast?
  ofn : s.ofn = (outputs ps).getLast?
  trimmed : ∀ name ∈ inputs ps ++ outputs ps, ∀ c ∈ name, isargdelim c = false
  freed : (s.freed ++ s.ifn.toList ++ s.ofn.toList).Perm (inputs ps ++ outputs ps)

theorem Reads.trimmed {line : List Char} {ps : List Piece} (h : Reads line ps) :
    ∀ name ∈ inputs ps ++ outputs ps, ∀ c ∈ name, isargdelim c = false := by
  have hletters : ∀ {gap name rest : List Char}, NameFrom gap name rest →
      ∀ c ∈ name, isargdelim c = false := fun hnames c hc => by
    have := hnames.letters c hc
    simp only [isName, Bool.and_eq_true, Bool.not_eq_true'] at this
    exact this.2
  induction h with
  | nil => simp [inputs, outputs]
  | unclosed => simp [inputs, outputs]
  | quoted _ _ ih => exact ih
  | pipe _ ih => exact ih
  | char _ _ ih => exact ih
  | input hnames _ ih =>
    intro n hn
    rcases mem_cons.mp hn with rfl | hn
    · exact hletters hnames
    · exact ih n hn
  | append hnames _ ih
  | output hnames _ _ ih =>
    intro n hn
    simp only [outputs, mem_append, mem_cons] at hn
    rcases hn with hn | rfl | hn
    · exact ih n (mem_append_left _ hn)
    · exact hletters hnames
    · exact ih n (mem_append_right _ hn)

/-- `*ofatt` asks for appending just if the last output redirection does. -/
def ModeRight (ps : List Piece) (s : Scan) : Prop :=
  s.ofatt = .append ↔ (appends ps).getLast? = some true

/-- **`get_redirection` splits a line exactly**, in the line's own storage; and what it asks for is
right just if no `>` comes behind a `>>`, or another `>>` comes behind it. -/
theorem redirection_exact_iff (line : List Char) (hline : nul ∉ line) :
    (∃ ps, Reads line ps) ∧ ∀ ps, Reads line ps →
      ∃ s, getRedirectionInPlace line = some s ∧ Splits line ps s ∧
        (ModeRight ps s ↔ (true ∈ appends ps → (appends ps).getLast? = some true)) := by
  refine ⟨exists_reads _ line le_rfl, fun ps hps => ?_⟩
  have hstart : Stands (.start line) [] [] line := ⟨rfl, rfl, rfl⟩
  obtain ⟨s, hscan, ⟨junk, hmem⟩, hsize, hfound⟩ := scan_reads hps (line.length + 1)
    hline (Nat.lt_succ_self _) hstart
  obtain ⟨hkept, hcount⟩ := kept_eq ps
  have hnum : s.num = 1 + ps.count .pipe := (congrArg Found.num hfound).trans (foldl_num ..)
  have hifn : s.ifn = (inputs ps).getLast? := by
    rw [congrArg Found.ifn hfound, foldl_ifn]
    exact Option.or_none
  have hofn : s.ofn = (outputs ps).getLast? := by
    rw [congrArg Found.ofn hfound, foldl_ofn]
    exact Option.or_none
  have hfreed : (s.freed ++ s.ifn.toList ++ s.ofn.toList).Perm (inputs ps ++ outputs ps) := by
    have hperm := foldl_freed ps (Scan.start line).toFound
    rw [← hfound] at hperm
    exact hperm
  have hofatt : s.ofatt = .append ↔ true ∈ appends ps := by
    rw [congrArg Found.ofatt hfound, foldl_ofatt]
    simp [Scan.start]
  refine ⟨s, hscan, ⟨?_, hnum, ⟨hcount.trans hnum.symm, junk, ?_⟩, hifn, hofn, hps.trimmed, hfreed⟩,
    ?_⟩
  · rw [hsize]
    simp [Scan.start]
  · rw [← hkept, hmem]
    simp
  · rw [ModeRight, hofatt]
    exact ⟨fun h => h.mp, fun h => ⟨h, fun hlast => List.mem_of_getLast? hlast⟩⟩

/-- A pipe, with the output of the second command appended. -/
theorem redirection_exact_two : (∃ ps, Reads "type <in|sort>> out".toList ps) ∧
    ∀ ps, Reads "type <in|sort>> out".toList ps →
      ∃ s, getRedirectionInPlace "type <in|sort>> out".toList = some s ∧
        Splits "type <in|sort>> out".toList ps s ∧
        (ModeRight ps s ↔ (true ∈ appends ps → (appends ps).getLast? = some true)) :=
  redirection_exact_iff "type <in|sort>> out".toList (by decide)

/-- The output goes to `b`, which is asked for with `>`, and is appended. -/
theorem redirection_append_stays : ∃ ps s, Reads ">>a>b".toList ps ∧
    getRedirectionInPlace ">>a>b".toList = some s ∧ s.ofn = some ['b'] ∧ ¬ ModeRight ps s := by
  refine ⟨[.output true ['a'], .output false ['b']], (getRedirectionInPlace ">>a>b".toList).get
    (by decide), ?_, (Option.some_get _).symm, by decide, ?_⟩
  · refine @Reads.append [] ['a'] ">b".toList _ ⟨by simp, ?_, ?_, ?_⟩
      (@Reads.output [] ['b'] [] _ ⟨by simp, ?_, ?_, ?_⟩ (by decide) .nil) <;> simp <;> decide
  · unfold ModeRight
    decide

/-! ## 8. The routine without the storage -/

def Redirection.add (r : Redirection) : Piece → Redirection
  | .char c => { r with command := r.command ++ [c] }
  | .quoted text => { r with command := r.command ++ text }
  | .pipe => { r with before := r.before ++ [r.command], command := [] }
  | .input name => { r with ifn := some name, strdups := r.strdups + 1 }
  | .output append name =>
    { r with
      ofn := some name
      ofatt := if append then .append else r.ofatt
      strdups := r.strdups + 1 }

theorem NameFrom.parts {gap name rest : List Char} (h : NameFrom gap name rest) :
    (ltrimcl (gap ++ (name ++ rest))).takeWhile (fun c => !isRedir c && !isargdelim c) = name ∧
      (ltrimcl (gap ++ (name ++ rest))).dropWhile (fun c => !isRedir c && !isargdelim c) = rest := by
  rw [ltrimcl, (span_eq h.delims h.first).2]
  exact span_eq h.letters h.last

theorem getRedirectionFrom_reads {rest : List Char} {ps : List Piece} (h : Reads rest ps) :
    ∀ {fuel : Nat} {r : Redirection}, rest.length ≤ fuel →
      getRedirectionFrom (fun _ => true) fuel rest r = (true, ps.foldl Redirection.add r) := by
  induction h <;> rintro (_ | fuel) r hfuel <;> try (cases hfuel; done)
  case nil.zero | nil.succ => rfl
  case quoted.succ text rest ps htext _ ih =>
    have hspan := quote_span ('"' :: rest) htext (by simp)
    have hle : rest.length ≤ fuel := by simp at hfuel; omega
    simp [getRedirectionFrom, hspan, ih hle, Redirection.add]
  case unclosed.succ text htext =>
    have hspan := quote_span [] htext (by simp)
    rw [append_nil] at hspan
    cases fuel <;> simp [getRedirectionFrom, hspan, Redirection.add]
  case input.succ gap name rest ps hnames _ ih | append.succ gap name rest ps hnames _ ih =>
    have hle : rest.length ≤ fuel := by simp at hfuel; omega
    simp [getRedirectionFrom, hnames.parts, ih hle, Redirection.add]
  case output.succ gap name rest ps hnames hone _ ih =>
    have hle : rest.length ≤ fuel := by simp at hfuel; omega
    simp [getRedirectionFrom, hnames.parts, hone, ih hle, Redirection.add, -head?_append]
  case pipe.succ ih => exact ih (Nat.le_of_succ_le_succ hfuel)
  case char.succ hc _ ih =>
    simp [getRedirectionFrom, hc, ih (Nat.le_of_succ_le_succ hfuel), Redirection.add]

/-- **Where there is memory for the names, `getRedirection` reads the same pieces.** -/
theorem getRedirection_reads {line : List Char} {ps : List Piece} (h : Reads line ps) :
    getRedirection (fun _ => true) line =
      (true, ps.foldl Redirection.add ⟨[], [], none, none, .create, 0⟩) :=
  getRedirectionFrom_reads h le_rfl

end SdcBoot.FreeCom
