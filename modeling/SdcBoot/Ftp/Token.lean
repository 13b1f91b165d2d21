/-
# What a token is

The comment in `getNextToken` gives a state machine for quotes, and `documented` is that machine:
it knows nothing of a target.  The routine agrees with it, cut to what fits in the target, unless a
quote inside of a quoted part comes when the target is full (`Roomy`): what stands there is stored
without a test.  Nor does it agree on a line of 32768 characters and more, whose length is negative
as an `int`.

With both out of the way each call leaves less of the line, and a line is used up by as many calls
as it has tokens (`token_exact_iff`).
-/
import SdcBoot.Ftp.User

namespace SdcBoot.Ftp

open List

/-! ## 1. The state machine of the comment -/

/-- The token, and what is left of the input: from the delimiter on. -/
def documented : TokenState → CStr → CStr × CStr
  | _, [] => ([], [])
  | .normal, c :: input =>
    if c = doubleQuote then documented .quoteSeen input
    else if isSpace c then ([], c :: input)
    else (c :: (documented .normal input).1, (documented .normal input).2)
  | .quoteSeen, c :: input =>
    if c = doubleQuote then
      (doubleQuote :: (documented .normal input).1, (documented .normal input).2)
    else (c :: (documented .inQuoteRegion input).1, (documented .inQuoteRegion input).2)
  | .inQuoteRegion, c :: input =>
    if c = doubleQuote then documented .inQuoteRegionQuoteSeen input
    else (c :: (documented .inQuoteRegion input).1, (documented .inQuoteRegion input).2)
  | .inQuoteRegionQuoteSeen, c :: input =>
    if isSpace c then ([], c :: input)
    else if c = doubleQuote then
      (doubleQuote :: (documented .inQuoteRegion input).1, (documented .inQuoteRegion input).2)
    else
      (doubleQuote :: c :: (documented .inQuoteRegion input).1, (documented .inQuoteRegion input).2)

/-- The token of a line. -/
def tokenOf (input : CStr) : CStr := (documented .normal (input.dropWhile isSpace)).1

/-- What is left of a line. -/
def restOf (input : CStr) : CStr := (documented .normal (input.dropWhile isSpace)).2

@[simp] theorem isSpace_doubleQuote : isSpace doubleQuote = false := by decide

/-- What is stored without a test has room; `n` characters of the token came before. -/
def Roomy (bufLen : Nat) : TokenState → Nat → CStr → Prop
  | _, _, [] => True
  | .normal, n, c :: input =>
    if c = doubleQuote then Roomy bufLen .quoteSeen n input
    else if isSpace c then True
    else Roomy bufLen .normal (n + 1) input
  | .quoteSeen, n, c :: input =>
    Roomy bufLen (if c = doubleQuote then .normal else .inQuoteRegion) (n + 1) input
  | .inQuoteRegion, n, c :: input =>
    if c = doubleQuote then Roomy bufLen .inQuoteRegionQuoteSeen n input
    else Roomy bufLen .inQuoteRegion (n + 1) input
  | .inQuoteRegionQuoteSeen, n, c :: input =>
    if isSpace c then True
    else if c = doubleQuote then n < bufLen ∧ Roomy bufLen .inQuoteRegion (n + 1) input
    else n + 1 < bufLen ∧ Roomy bufLen .inQuoteRegion (n + 2) input

/-! ## 2. The loop and the machine -/

theorem store_take (bufLen : Nat) (pre : CStr) (c : Char) :
    store bufLen (pre.take bufLen) c = (pre ++ [c]).take bufLen := by
  unfold store
  by_cases h : pre.length < bufLen
  · rw [take_of_length_le (le_of_lt h), if_pos h, take_of_length_le (by simpa using h)]
  · have hle : bufLen ≤ pre.length := Nat.le_of_not_lt h
    rw [if_neg (by rw [length_take, min_eq_left hle]; exact lt_irrefl _),
      take_append_of_le_length hle]

theorem terminated_take (bufLen : Nat) (pre : CStr) :
    terminated bufLen (pre.take bufLen) = pre.take (bufLen - 1) := by
  rw [terminated, take_take, min_eq_left (Nat.sub_le _ _)]

/-- The pointer that is returned. -/
def pointerTo (rest : CStr) : Option CStr := if rest = [] then none else some rest

/-- What the loop makes of the rest of the input, behind `pre`. -/
def Loops (bufLen : Nat) (st : TokenState) (pre input : CStr) : Prop :=
  (Roomy bufLen st pre.length input →
    tokenLoop bufLen st (pre.take bufLen) input =
      .ok ((pre ++ (documented st input).1).take (bufLen - 1),
        pointerTo (documented st input).2)) ∧
  (¬ Roomy bufLen st pre.length input →
    tokenLoop bufLen st (pre.take bufLen) input = .overrun)

variable {bufLen : Nat} {input : CStr}

/-- One character more of the token, with the same rest. -/
theorem Loops.more {st st' : TokenState} {pre input' : CStr} (cs : CStr)
    (h : Loops bufLen st' (pre ++ cs) input')
    (hroomy : Roomy bufLen st pre.length input ↔ Roomy bufLen st' (pre ++ cs).length input')
    (hloop : tokenLoop bufLen st (pre.take bufLen) input =
      tokenLoop bufLen st' ((pre ++ cs).take bufLen) input')
    (hdoc : documented st input = (cs ++ (documented st' input').1, (documented st' input').2)) :
    Loops bufLen st pre input := by
  refine ⟨fun hr => ?_, fun hr => ?_⟩
  · rw [hloop, h.1 (hroomy.mp hr), hdoc, append_assoc]
  · rw [hloop, h.2 fun hr' => hr (hroomy.mpr hr')]

/-- **The loop follows the machine**, as long as there is room. -/
theorem loops (bufLen : Nat) (input : CStr) :
    ∀ (st : TokenState) (pre : CStr), Loops bufLen st pre input := by
  induction input with
  | nil =>
    intro st pre
    refine ⟨fun _ => ?_, fun hr => absurd ?_ hr⟩
    · cases st <;> simp [tokenLoop, documented, terminated_take, pointerTo]
    · cases st <;> trivial
  | cons c input ih =>
    intro st pre
    cases st with
    | normal =>
      by_cases hq : c = doubleQuote
      · exact (ih .quoteSeen (pre ++ [])).more [] (by simp [Roomy, hq]) (by simp [tokenLoop, hq])
          (by simp [documented, hq])
      · by_cases hs : isSpace c = true
        · refine ⟨fun _ => ?_, fun hr => absurd ?_ hr⟩
          · simp [tokenLoop, documented, hq, hs, terminated_take, pointerTo]
          · simp [Roomy, hq, hs]
        · exact (ih .normal (pre ++ [c])).more [c] (by simp [Roomy, hq, hs])
            (by simp only [tokenLoop, if_neg hq, if_neg hs, store_take]) (by simp [documented, hq, hs])
    | quoteSeen =>
      by_cases hq : c = doubleQuote
      · exact (ih .normal (pre ++ [c])).more [c] (by simp [Roomy, hq])
          (by simp only [tokenLoop, if_pos hq, store_take]) (by simp [documented, hq])
      · exact (ih .inQuoteRegion (pre ++ [c])).more [c] (by simp [Roomy, hq])
          (by simp only [tokenLoop, if_neg hq, store_take]) (by simp [documented, hq])
    | inQuoteRegion =>
      by_cases hq : c = doubleQuote
      · exact (ih .inQuoteRegionQuoteSeen (pre ++ [])).more [] (by simp [Roomy, hq])
          (by simp [tokenLoop, hq]) (by simp [documented, hq])
      · exact (ih .inQuoteRegion (pre ++ [c])).more [c] (by simp [Roomy, hq])
          (by simp only [tokenLoop, if_neg hq, store_take]) (by simp [documented, hq])
    | inQuoteRegionQuoteSeen =>
      by_cases hs : isSpace c = true
      · refine ⟨fun _ => ?_, fun hr => absurd ?_ hr⟩
        · simp [tokenLoop, documented, hs, terminated_take, pointerTo]
        · simp [Roomy, hs]
      · -- here nothing is tested, so that the length of the target decides
        have hmin : (pre.take bufLen).length = min bufLen pre.length := length_take
        by_cases hq : c = doubleQuote
        · by_cases hlt : pre.length < bufLen
          · have hall : pre.take bufLen = pre := take_of_length_le (le_of_lt hlt)
            refine (ih .inQuoteRegion (pre ++ [doubleQuote])).more [doubleQuote]
              (by simp [Roomy, hq, hlt]) ?_ (by simp [documented, hq])
            rw [tokenLoop, if_neg hs, if_pos hq, hall, if_pos hlt,
              take_of_length_le (by simpa using hlt)]
          · refine ⟨fun hr => ?_, fun _ => ?_⟩
            · simp only [Roomy, if_neg hs, if_pos hq] at hr
              exact absurd hr.1 hlt
            · rw [tokenLoop, if_neg hs, if_pos hq, if_neg (by omega)]
        · by_cases hlt : pre.length + 1 < bufLen
          · have hall : pre.take bufLen = pre := take_of_length_le (by omega)
            refine (ih .inQuoteRegion (pre ++ [doubleQuote, c])).more [doubleQuote, c]
              (by simp [Roomy, hs, hq, hlt]) ?_ (by simp [documented, hs, hq])
            rw [tokenLoop, if_neg hs, if_neg hq, hall, if_pos hlt,
              take_of_length_le (by simp; omega)]
          · refine ⟨fun hr => ?_, fun _ => ?_⟩
            · simp only [Roomy, if_neg hs, if_neg hq] at hr
              exact absurd hr.1 hlt
            · rw [tokenLoop, if_neg hs, if_neg hq, if_neg (by omega)]

/-! ## 3. What is left of the line -/

/-- What is left begins with the delimiter that ended the token. -/
theorem documented_rest (input : CStr) : ∀ st, (documented st input).2 <:+ input ∧
    ∀ c rest, (documented st input).2 = c :: rest → isSpace c = true := by
  induction input with
  | nil =>
    intro st
    cases st <;> exact ⟨nil_suffix, fun c rest h => by simp [documented] at h⟩
  | cons c input ih =>
    have hthrough : ∀ st', (documented st' input).2 <:+ c :: input ∧
        ∀ d rest, (documented st' input).2 = d :: rest → isSpace d = true := fun st' =>
      ⟨(ih st').1.trans (suffix_cons c input), (ih st').2⟩
    have hhere : isSpace c = true → c :: input <:+ c :: input ∧
        ∀ d rest, c :: input = d :: rest → isSpace d = true := by
      refine fun hs => ⟨suffix_rfl, fun d rest h => ?_⟩
      cases h
      exact hs
    intro st
    cases st with
    | normal =>
      unfold documented
      split
      · exact hthrough _
      · split
        · rename_i hs
          exact hhere hs
        · exact hthrough _
    | quoteSeen
    | inQuoteRegion =>
      unfold documented
      split <;> exact hthrough _
    | inQuoteRegionQuoteSeen =>
      unfold documented
      split
      · rename_i hs
        exact hhere hs
      · split <;> exact hthrough _

variable {c : Char} {at' next rest : CStr}

/-- The first character of a token is taken. -/
theorem documented_shorter (hc : isSpace c = false) (input : CStr) :
    (documented .normal (c :: input)).2.length < (c :: input).length := by
  have hrest : ∀ st, (documented st input).2.length < (c :: input).length := fun st =>
    Nat.lt_succ_of_le (documented_rest input st).1.length_le
  unfold documented
  by_cases hq : c = doubleQuote
  · rw [if_pos hq]
    exact hrest _
  · rw [if_neg hq, if_neg (by simp [hc])]
    exact hrest _

theorem restOf_suffix (input : CStr) : restOf input <:+ input :=
  (documented_rest _ _).1.trans (dropWhile_suffix _)

theorem restOf_delimiter (h : restOf input = c :: rest) :
    isSpace c = true := (documented_rest _ _).2 c rest h

theorem restOf_shorter (h : restOf input ≠ []) : (restOf input).length < input.length := by
  unfold restOf at h ⊢
  cases hdrop : input.dropWhile isSpace with
  | nil => simp [hdrop, documented] at h
  | cons c rest =>
    have hc : isSpace c = false := by
      have hhead := head?_dropWhile_not isSpace input
      rw [hdrop] at hhead
      simpa using hhead
    have hle : (c :: rest).length ≤ input.length := hdrop ▸ (dropWhile_suffix _).length_le
    exact lt_of_lt_of_le (documented_shorter hc rest) hle

/-! ## 4. The routine -/

/-- `Utils::getNextToken` with the length of the input in an `int`: for 32768 characters and more it
is negative, and no loop is entered. -/
def getNextTokenInt (input : Option CStr) (bufLen : Nat) : Outcome (CStr × Option CStr) :=
  match input with
  | none => getNextToken none bufLen
  | some line =>
    if line.length < 32768 then getNextToken (some line) bufLen else .ok ([], some line)

/-- The token is the documented one, cut to the target; the pointer is NULL if the line is used up,
and points else at the delimiter, further on. -/
structure Exact (bufLen : Nat) (input : CStr) : Prop where
  call : getNextTokenInt (some input) bufLen =
    .ok ((tokenOf input).take (bufLen - 1), pointerTo (restOf input))
  further : ∀ next, pointerTo (restOf input) = some next →
    next <:+ input ∧ next.length < input.length ∧ ∃ c rest, next = c :: rest ∧ isSpace c = true

/-- The length is one of an `int`, and what is stored without a test has room. -/
def Cuts (bufLen : Nat) (input : CStr) : Prop :=
  input.length < 32768 ∧ Roomy bufLen .normal 0 (input.dropWhile isSpace)

theorem pointerTo_eq_some (h : pointerTo rest = some next) : next = rest ∧ rest ≠ [] := by
  unfold pointerTo at h
  split at h
  · cases h
  · rename_i hne
    exact ⟨(Option.some.inj h).symm, hne⟩

theorem pointerTo_restOf (h : pointerTo (restOf input) = some next) :
    next <:+ input ∧ next.length < input.length ∧ ∃ c rest, next = c :: rest ∧ isSpace c = true := by
  obtain ⟨rfl, hne⟩ := pointerTo_eq_some h
  refine ⟨restOf_suffix input, restOf_shorter hne, ?_⟩
  cases hrest : restOf input with
  | nil => exact absurd hrest hne
  | cons c rest => exact ⟨c, rest, rfl, restOf_delimiter hrest⟩

/-- A call cuts the documented token, runs past the target, or leaves the line as it is. -/
theorem getNextTokenInt_cases (bufLen : Nat) (input : CStr) :
    (Cuts bufLen input → getNextTokenInt (some input) bufLen =
      .ok ((tokenOf input).take (bufLen - 1), pointerTo (restOf input))) ∧
    (¬ Cuts bufLen input → getNextTokenInt (some input) bufLen = .overrun ∨
      32768 ≤ input.length ∧ getNextTokenInt (some input) bufLen = .ok ([], some input)) := by
  have hloop := loops bufLen (input.dropWhile isSpace) .normal []
  rw [Loops, take_nil, nil_append, length_nil] at hloop
  refine ⟨fun ⟨hint, hroomy⟩ => ?_, fun hno => ?_⟩
  · simp only [getNextTokenInt, getNextToken, if_pos hint]
    split
    · rename_i hblank
      simp [tokenOf, restOf, hblank, documented, pointerTo]
    · exact hloop.1 hroomy
  · by_cases hint : input.length < 32768
    · refine .inl ?_
      have hroomy : ¬ Roomy bufLen .normal 0 (input.dropWhile isSpace) := fun h => hno ⟨hint, h⟩
      simp only [getNextTokenInt, getNextToken, if_pos hint]
      rw [if_neg]
      · exact hloop.2 hroomy
      · intro hblank
        rw [hblank] at hroomy
        exact hroomy trivial
    · refine .inr ⟨Nat.le_of_not_lt hint, ?_⟩
      simp only [getNextTokenInt, if_neg hint]

theorem exact_iff (bufLen : Nat) (input : CStr) : Exact bufLen input ↔ Cuts bufLen input := by
  obtain ⟨hcuts, hnot⟩ := getNextTokenInt_cases bufLen input
  refine ⟨fun h => ?_, fun h => ⟨hcuts h, fun next hnext => pointerTo_restOf hnext⟩⟩
  by_contra hno
  rcases hnot hno with hover | ⟨-, hsame⟩
  · rw [h.call] at hover
    cases hover
  · -- the pointer that is returned has to be further on
    have hpoint : pointerTo (restOf input) = some input := by
      have hcall := h.call.symm.trans hsame
      injection hcall with hpair
      exact congrArg Prod.snd hpair
    exact absurd (h.further input hpoint).2.1 (lt_irrefl _)

/-! ## 5. A whole line -/

/-- Calls from the pointer the last one returned, until one returns NULL. -/
def calls (bufLen : Nat) : Nat → CStr → Option (List CStr)
  | 0, _ => none
  | k + 1, input =>
    match getNextTokenInt (some input) bufLen with
    | .ok (token, none) => some [token]
    | .ok (token, some next) => (calls bufLen k next).map (token :: ·)
    | _ => none

/-- The documented tokens of a line. -/
inductive TokensOf : CStr → List CStr → Prop where
  | last {input : CStr} (h : restOf input = []) : TokensOf input [tokenOf input]
  | more {input : CStr} {tokens : List CStr} (h : restOf input ≠ [])
      (hrest : TokensOf (restOf input) tokens) : TokensOf input (tokenOf input :: tokens)

/-- The places of a line at which a token is looked for. -/
inductive OnLine (input : CStr) : CStr → Prop where
  | start : OnLine input input
  | next {at' : CStr} (h : OnLine input at') (hne : restOf at' ≠ []) : OnLine input (restOf at')

theorem OnLine.behind (hne : restOf input ≠ [])
    (h : OnLine (restOf input) at') : OnLine input at' := by
  induction h with
  | start => exact .next .start hne
  | next _ hne' ih => exact .next ih hne'

/-- The line is used up, and what is cut from it is what is documented. -/
def LineExact (bufLen : Nat) (input : CStr) : Prop :=
  ∃ tokens, TokensOf input tokens ∧
    ∃ k ≤ input.length + 1, calls bufLen k input = some (tokens.map fun t => t.take (bufLen - 1))

theorem lineExact_of_cuts (bufLen : Nat) :
    ∀ (n : Nat) (input : CStr), input.length ≤ n → (∀ at', OnLine input at' → Cuts bufLen at') →
      LineExact bufLen input := by
  intro n
  induction n with
  | zero =>
    intro input hlen hall
    obtain rfl : input = [] := length_eq_zero_iff.mp (Nat.le_zero.mp hlen)
    refine ⟨[tokenOf []], .last rfl, 1, le_rfl, ?_⟩
    simp [calls, (exact_iff bufLen []).mpr (hall _ .start) |>.call, restOf, documented, pointerTo]
  | succ n ih =>
    intro input hlen hall
    have hcall := ((exact_iff bufLen input).mpr (hall _ .start)).call
    by_cases hrest : restOf input = []
    · refine ⟨[tokenOf input], .last hrest, 1, Nat.le_add_left _ _, ?_⟩
      simp [calls, hcall, hrest, pointerTo]
    · have hshorter := restOf_shorter hrest
      obtain ⟨tokens, htokens, k, hk, hcalls⟩ := ih (restOf input) (by omega)
        fun at' hat => hall at' (hat.behind hrest)
      refine ⟨tokenOf input :: tokens, .more hrest htokens, k + 1, by omega, ?_⟩
      simp [calls, hcall, pointerTo, hrest, hcalls]

theorem OnLine.cases_start (h : OnLine input at') :
    at' = input ∨ restOf input ≠ [] ∧ OnLine (restOf input) at' := by
  induction h with
  | start => exact .inl rfl
  | next hprev hne ih =>
    rcases ih with rfl | ⟨hne', hon⟩
    · exact .inr ⟨hne, .start⟩
    · exact .inr ⟨hne', .next hon hne⟩

/-- A line that is too long for an `int` is never used up. -/
theorem calls_tooLong (hlen : 32768 ≤ input.length) (k : Nat) : calls bufLen k input = none := by
  induction k with
  | zero => rfl
  | succ k ih =>
    have hcall : getNextTokenInt (some input) bufLen = .ok ([], some input) := by
      simp only [getNextTokenInt, if_neg (not_lt.mpr hlen)]
    simp [calls, hcall, ih]

theorem cuts_of_calls :
    ∀ (k : Nat) {input : CStr} {found : List CStr}, calls bufLen k input = some found →
      ∀ at', OnLine input at' → Cuts bufLen at' := by
  intro k
  induction k with
  | zero => exact nofun
  | succ k ih =>
    intro input found h at' hon
    obtain ⟨hcall, hnot⟩ := getNextTokenInt_cases bufLen input
    have hcuts : Cuts bufLen input := by
      by_contra hno
      rcases hnot hno with hover | ⟨hlen, -⟩
      · simp [calls, hover] at h
      · rw [calls_tooLong hlen] at h
        cases h
    rcases hon.cases_start with rfl | ⟨hne, hon'⟩
    · exact hcuts
    · simp only [calls, hcall hcuts, pointerTo, if_neg hne, Option.map_eq_some_iff] at h
      obtain ⟨found', hfound, -⟩ := h
      exact ih hfound at' hon'

/-- **`getNextToken` cuts the documented token** just for the lines whose length is one of an `int`
and in which what is stored without a test has room; and a line is used up, token by token, just if
that is so at every place a token is looked for.  A target of `last + 1` characters has the NUL in
place `last` at the latest. -/
theorem token_exact_iff (last : Nat) (input : CStr) :
    getNextTokenInt none (last + 1) = .ok ([], none) ∧
      (Exact (last + 1) input ↔ Cuts (last + 1) input) ∧
      (LineExact (last + 1) input ↔ ∀ at', OnLine input at' → Cuts (last + 1) at') := by
  refine ⟨rfl, exact_iff _ _, ?_, lineExact_of_cuts _ _ _ le_rfl⟩
  rintro ⟨tokens, -, k, -, hcalls⟩
  exact cuts_of_calls k hcalls

/-- The command of a client: a quoted part that fills the target, and a quote in it. -/
theorem token_not_exact :
    ¬ Exact 20 (doubleQuote :: List.replicate 20 'a' ++ [doubleQuote, doubleQuote]) := by
  intro h
  exact nomatch h.call

end SdcBoot.Ftp
