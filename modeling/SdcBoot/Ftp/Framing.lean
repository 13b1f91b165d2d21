/-
# Lines and segments

What the client sends is a stream; how it comes out of `recv` is up to the network.  `linesOf` cuts
the stream at each CR LF, and `wanted` are the lines of it that are to be run.  `serviceClient` looks
for CR LF anywhere in its buffer and throws away what stands behind it, so it depends on where the
segments end: two lines in one `recv` are one for it.

With every line end at the end of a `recv` (`Aligned`) only one thing is left: a line whose CR is the
last character of a full buffer, and whose LF is therefore not seen as the end of anything
(`framing_of_aligned`).
-/
import SdcBoot.Ftp.Service

namespace SdcBoot.Ftp

open List

/-! ## 1. Readings -/

/-- `recv` delivers these pieces one after the other, each of them into the room that the input buffer
has left, and these lines are handed on.  What is done with a line, and what else the server does
between two readings, changes nothing in the input buffer. -/
inductive Reading : Session → List CStr → List CStr → Prop where
  | nil {s : Session} : Reading s [] []
  | recv {s t : Session} {chunk : CStr} {chunks lines : List CStr}
      (hroom : chunk.length ≤ INPUTBUFFER_SIZE - s.client.inputBuffer.length)
      (hbuffer : t.client.inputBuffer = (readLine s chunk).1.client.inputBuffer)
      (heat : t.client.eatUntilNextCrLf = (readLine s chunk).1.client.eatUntilNextCrLf)
      (hrest : Reading t chunks lines) :
      Reading s (chunk :: chunks) ((readLine s chunk).2.toList ++ lines)

/-- A session for which nothing has been read yet. -/
def Fresh (s : Session) : Prop :=
  s.client.inputBuffer = [] ∧ s.client.eatUntilNextCrLf = false

/-- The command of a line, and what follows it; a line without a command word is passed over. -/
def commandOf (line : CStr) : Option (Outcome (CStr × Option CStr)) :=
  match getNextToken (some (withoutTelnet line)) COMMAND_MAX_LEN with
  | .ok ([], _) => none
  | .ok (command, nextTokenPtr) => some (.ok (strupr command, nextTokenPtr))
  | outcome => some outcome

def executed (lines : List CStr) : List (Outcome (CStr × Option CStr)) := lines.filterMap commandOf

/-! ## 2. Streams -/

/-- The lines of a stream that CR LF ends; `line` is what has been seen of the first one. -/
def linesFrom : CStr → CStr → List CStr
  | line, c :: d :: rest =>
    if c = CR ∧ d = LF then line :: linesFrom [] rest else linesFrom (line ++ [c]) (d :: rest)
  | _, _ => []

def linesOf (stream : CStr) : List CStr := linesFrom [] stream

/-- The lines that are to be run: what is too long is skipped. -/
def wanted (stream : CStr) : List CStr :=
  ((linesOf stream).filter fun line => line.length < INPUTBUFFER_SIZE).map
    fun line => line.takeWhile (· ≠ NUL)

/-- A piece with the end of a line in it ends there; `line` is what has come of the line so far. -/
inductive Aligned : CStr → List CStr → Prop where
  | nil {line : CStr} : Aligned line []
  | inside {line chunk : CStr} {chunks : List CStr} (h : hasLineEnd (line ++ chunk) = false)
      (hrest : Aligned (line ++ chunk) chunks) : Aligned line (chunk :: chunks)
  | ends {line chunk whole : CStr} {chunks : List CStr} (hline : line ++ chunk = whole ++ [CR, LF])
      (h : hasLineEnd (whole ++ [CR]) = false) (hrest : Aligned [] chunks) :
      Aligned line (chunk :: chunks)

theorem hasLineEnd_cons (c : Char) (cs : CStr) :
    hasLineEnd (c :: cs) = ((c == CR && cs.head? == some LF) || hasLineEnd cs) := by
  cases cs with
  | nil => simp [hasLineEnd]
  | cons d cs => simp [hasLineEnd]

theorem hasLineEnd_append_right {a b : CStr} (h : hasLineEnd (a ++ b) = false) :
    hasLineEnd b = false := by
  induction a with
  | nil => exact h
  | cons c a ih =>
    rw [cons_append, hasLineEnd_cons, Bool.or_eq_false_iff] at h
    exact ih h.2

theorem hasLineEnd_crlf (a : CStr) : hasLineEnd (a ++ [CR, LF]) = true := by
  induction a with
  | nil => rfl
  | cons c a ih => rw [cons_append, hasLineEnd_cons, ih, Bool.or_true]

/-- Up to the end of the first line. -/
theorem linesFrom_line {whole : CStr} (h : hasLineEnd (whole ++ [CR]) = false) (rest : CStr) :
    ∀ line, linesFrom line (whole ++ [CR, LF] ++ rest) = (line ++ whole) :: linesFrom [] rest := by
  induction whole with
  | nil =>
    intro line
    rw [append_nil]
    exact if_pos ⟨rfl, rfl⟩
  | cons c whole ih =>
    intro line
    rw [cons_append, hasLineEnd_cons, Bool.or_eq_false_iff] at h
    have hrest := ih h.2 (line ++ [c])
    rw [append_assoc line, singleton_append] at hrest
    have hnot : ∀ d, (whole ++ [CR]).head? = some d → ¬(c = CR ∧ d = LF) := by
      rintro d hd ⟨rfl, rfl⟩
      rw [hd] at h
      exact nomatch h.1
    cases whole with
    | nil =>
      exact if_neg (hnot CR rfl)
    | cons d whole =>
      rw [← hrest]
      exact if_neg (hnot d rfl)

/-- No line ends here. -/
theorem linesFrom_open {stream : CStr} (h : hasLineEnd stream = false) :
    ∀ line, linesFrom line stream = [] := by
  induction stream with
  | nil => exact fun _ => rfl
  | cons c stream ih =>
    intro line
    cases stream with
    | nil => rfl
    | cons d stream =>
      rw [hasLineEnd, Bool.or_eq_false_iff] at h
      rw [linesFrom, if_neg, ih h.2]
      rintro ⟨rfl, rfl⟩
      exact nomatch h.1

/-! ## 3. One reading -/

/-- What the input buffer holds of `line`, the part of a line that has come: full buffers were
dropped, and with the first of them the line. -/
structure Partial (line : CStr) (s : Session) : Prop where
  unfinished : hasLineEnd line = false
  buffer : ∃ (k : Nat) (dropped : CStr), line = dropped ++ s.client.inputBuffer ∧
    dropped.length = INPUTBUFFER_SIZE * k ∧ s.client.eatUntilNextCrLf = decide (0 < k)
  room : s.client.inputBuffer.length < INPUTBUFFER_SIZE

theorem Partial.congr {line : CStr} {s t : Session} (h : Partial line s)
    (hbuffer : t.client.inputBuffer = s.client.inputBuffer)
    (heat : t.client.eatUntilNextCrLf = s.client.eatUntilNextCrLf) : Partial line t :=
  ⟨h.unfinished, by rw [hbuffer, heat]; exact h.buffer, by rw [hbuffer]; exact h.room⟩

theorem Fresh.partial' {s : Session} (h : Fresh s) : Partial [] s :=
  ⟨rfl, ⟨0, [], by rw [h.1]; rfl, rfl, by rw [h.2]; rfl⟩, by rw [h.1]; decide⟩

section

variable {line chunk : CStr} {s : Session}

/-- A piece without the end of the line. -/
theorem Partial.inside (h : Partial line s)
    (hroom : chunk.length ≤ INPUTBUFFER_SIZE - s.client.inputBuffer.length)
    (hopen : hasLineEnd (line ++ chunk) = false) :
    Partial (line ++ chunk) (readLine s chunk).1 ∧ (readLine s chunk).2 = none := by
  obtain ⟨k, dropped, hline, hdropped, heat⟩ := h.buffer
  have hlt := h.room
  have hopen' : hasLineEnd (s.client.inputBuffer ++ chunk) = false := by
    rw [hline, append_assoc] at hopen
    exact hasLineEnd_append_right hopen
  have hline' : line ++ chunk = dropped ++ (s.client.inputBuffer ++ chunk) := by
    rw [hline, append_assoc]
  have hlength : (s.client.inputBuffer ++ chunk).length =
      s.client.inputBuffer.length + chunk.length := length_append
  unfold readLine
  simp only [take_of_length_le hroom]
  split
  · rename_i hshort
    exact ⟨⟨hopen, ⟨k, dropped, hline', hdropped, heat⟩, lt_trans hshort (by decide)⟩, rfl⟩
  · rw [if_neg (by rw [hopen']; decide)]
    split
    · rename_i hfull
      refine ⟨⟨hopen, ⟨k + 1, dropped ++ (s.client.inputBuffer ++ chunk), ?_, ?_, ?_⟩, ?_⟩, rfl⟩
      · exact hline'.trans (append_nil _).symm
      · rw [length_append, hdropped, hfull, Nat.mul_succ]
      · exact (decide_eq_true (Nat.succ_pos k)).symm
      · exact Nat.zero_lt_of_lt hlt
    · refine ⟨⟨hopen, ⟨k, dropped, hline', hdropped, heat⟩, ?_⟩, rfl⟩
      have hlen : (s.client.inputBuffer ++ chunk).length < INPUTBUFFER_SIZE := by omega
      exact hlen

/-- A piece that ends with the line. -/
theorem Partial.ends {whole : CStr} (h : Partial line s)
    (hroom : chunk.length ≤ INPUTBUFFER_SIZE - s.client.inputBuffer.length)
    (hends : line ++ chunk = whole ++ [CR, LF]) (hlength : whole.length % INPUTBUFFER_SIZE ≠ 119) :
    Partial [] (readLine s chunk).1 ∧
      (readLine s chunk).2 =
        if whole.length < INPUTBUFFER_SIZE then some (whole.takeWhile (· ≠ NUL)) else none := by
  obtain ⟨k, dropped, hline, hdropped, heat⟩ := h.buffer
  have hlt := h.room
  have hwhole : dropped ++ (s.client.inputBuffer ++ chunk) = whole ++ [CR, LF] := by
    rw [← hends, hline, append_assoc]
  have hcount := congrArg List.length hwhole
  simp only [length_append, length_cons, length_nil, hdropped] at hcount
  have hsize : INPUTBUFFER_SIZE = 120 := rfl
  rw [hsize] at hcount hlength hlt hroom hdropped
  have hsome : 0 < chunk.length := by
    refine pos_of_ne_zero fun hzero => ?_
    rw [eq_nil_of_length_eq_zero hzero, append_nil] at hends
    have hopen := h.unfinished
    rw [hends, hasLineEnd_crlf] at hopen
    cases hopen
  -- one character in the buffer is an LF whose CR was dropped with a full buffer
  obtain ⟨last, hlast⟩ : ∃ last, s.client.inputBuffer ++ chunk = last ++ [CR, LF] ∧
      whole = dropped ++ last := by
    have hdrop : dropped.length ≤ whole.length := by omega
    refine ⟨whole.drop dropped.length, ?_, ?_⟩
    · have := congrArg (List.drop dropped.length) hwhole
      rw [drop_left, drop_append_of_le_length hdrop] at this
      exact this
    · have := congrArg (List.take dropped.length) hwhole
      rw [take_left, take_append_of_le_length hdrop] at this
      conv_lhs => rw [← take_append_drop dropped.length whole, ← this]
  have hlen : (last ++ [CR, LF]).length = last.length + 2 := length_append
  unfold readLine
  simp only [hsize, take_of_length_le hroom, hlast.1]
  rw [if_neg (by omega), if_pos (hasLineEnd_crlf last), heat]
  by_cases hk : 0 < k
  · rw [if_pos (decide_eq_true hk), if_neg (by omega)]
    exact ⟨Fresh.partial' ⟨rfl, rfl⟩, rfl⟩
  · obtain rfl : k = 0 := by omega
    have hnil : dropped = [] := eq_nil_of_length_eq_zero (by omega)
    have hwhole' : whole = last := by rw [hlast.2, hnil, nil_append]
    rw [if_neg (by simp), if_pos (by omega), hlen, Nat.add_sub_cancel,
      take_left, hwhole']
    exact ⟨Fresh.partial' ⟨rfl, rfl⟩, rfl⟩

end

/-! ## 4. A whole stream -/

/-- No line is such that its CR fills a buffer. -/
def Framed (stream : CStr) : Prop :=
  ∀ line ∈ linesOf stream, line.length % INPUTBUFFER_SIZE ≠ INPUTBUFFER_SIZE - 1

/-- A run of readings hands on the lines that are wanted. -/
theorem Reading.lines_eq {s : Session} {chunks lines : List CStr} (h : Reading s chunks lines) :
    ∀ {line : CStr}, Partial line s → Aligned line chunks → Framed (line ++ chunks.flatten) →
      lines = wanted (line ++ chunks.flatten) := by
  induction h with
  | nil =>
    intro line hpartial _ _
    rw [flatten_nil, append_nil, wanted, linesOf, linesFrom_open hpartial.unfinished]
    rfl
  | @recv s t chunk chunks lines hroom hbuffer heat _ ih =>
    intro line hpartial haligned hframed
    have hstream : line ++ (chunk :: chunks).flatten = line ++ chunk ++ chunks.flatten := by
      rw [flatten_cons, append_assoc]
    rw [hstream] at hframed ⊢
    cases haligned with
    | inside hopen hrest =>
      obtain ⟨hnext, hnone⟩ := hpartial.inside hroom hopen
      rw [hnone]
      exact ih (hnext.congr hbuffer heat) hrest hframed
    | @ends _ _ whole _ hends hwhole hrest =>
      have hlines : linesOf (line ++ chunk ++ chunks.flatten) =
          whole :: linesOf ([] ++ chunks.flatten) := by
        rw [hends]
        exact linesFrom_line hwhole _ []
      rw [Framed, hlines] at hframed
      obtain ⟨hnext, hline⟩ := hpartial.ends hroom hends (hframed whole mem_cons_self)
      have hlater := ih (hnext.congr hbuffer heat) hrest
        fun l hl => hframed l (.tail _ hl)
      rw [hline, hlater, wanted, wanted, hlines]
      by_cases hshort : whole.length < INPUTBUFFER_SIZE
      · simp [hshort]
      · simp [hshort]

/-- **Two readings of one stream run the same commands**, those of the lines that fit, if every line
end is the end of a `recv`, and no line has its CR at the end of a full buffer. -/
theorem framing_of_aligned {s₁ s₂ : Session} {chunks₁ chunks₂ lines₁ lines₂ : List CStr}
    (h₁ : Reading s₁ chunks₁ lines₁) (h₂ : Reading s₂ chunks₂ lines₂) (hfresh₁ : Fresh s₁)
    (hfresh₂ : Fresh s₂) (hstream : chunks₁.flatten = chunks₂.flatten)
    (haligned₁ : Aligned [] chunks₁) (haligned₂ : Aligned [] chunks₂)
    (hframed : Framed chunks₁.flatten) :
    executed lines₁ = executed lines₂ ∧ executed lines₁ = executed (wanted chunks₁.flatten) := by
  have hlines₁ := h₁.lines_eq hfresh₁.partial' haligned₁ hframed
  have hlines₂ := h₂.lines_eq hfresh₂.partial' haligned₂ (by rw [← hstream]; exact hframed)
  rw [List.nil_append] at hlines₁ hlines₂
  rw [hlines₁, hlines₂, hstream]
  exact ⟨rfl, rfl⟩

/-- What a session hands on of pieces that are read one after the other. -/
def handed : Session → List CStr → List CStr
  | _, [] => []
  | s, chunk :: chunks => (readLine s chunk).2.toList ++ handed (readLine s chunk).1 chunks

theorem reading_handed (chunks : List CStr) : ∀ {s : Session},
    s.client.inputBuffer.length + chunks.flatten.length ≤ INPUTBUFFER_SIZE →
    Reading s chunks (handed s chunks) := by
  induction chunks with
  | nil => exact fun _ => .nil
  | cons chunk chunks ih =>
    intro s h
    rw [flatten_cons, length_append] at h
    have hroom : chunk.length ≤ INPUTBUFFER_SIZE - s.client.inputBuffer.length := by omega
    have hbuffer : (readLine s chunk).1.client.inputBuffer.length ≤
        s.client.inputBuffer.length + chunk.length := by
      rw [← length_append]
      unfold readLine
      simp only [take_of_length_le hroom]
      split_ifs <;> first | exact le_rfl | exact Nat.zero_le _
    exact .recv hroom rfl rfl (ih (by omega))

/-- A line in one piece, and in three. -/
theorem framing_of_three :
    executed (handed ⟨startNewSession unused, []⟩ [['N', 'O', 'O', 'P', CR, LF]]) =
        executed (handed ⟨startNewSession unused, []⟩ [['N', 'O'], ['O', 'P', CR], [LF]]) ∧
      executed (handed ⟨startNewSession unused, []⟩ [['N', 'O', 'O', 'P', CR, LF]]) =
        executed (wanted ['N', 'O', 'O', 'P', CR, LF]) :=
  framing_of_aligned (reading_handed _ (by decide)) (reading_handed _ (by decide)) ⟨rfl, rfl⟩
    ⟨rfl, rfl⟩ rfl (@Aligned.ends _ _ ['N', 'O', 'O', 'P'] _ rfl rfl .nil)
    (.inside rfl (.inside rfl (@Aligned.ends _ _ ['N', 'O', 'O', 'P'] _ rfl rfl .nil)))
    (by unfold Framed; decide)

/-- Two lines in one piece are run as one. -/
theorem framing_depends :
    ¬ ∀ (s : Session) (chunks₁ chunks₂ lines₁ lines₂ : List CStr), Fresh s →
      Reading s chunks₁ lines₁ → Reading s chunks₂ lines₂ → chunks₁.flatten = chunks₂.flatten →
        executed lines₁ = executed lines₂ := by
  intro h
  have hsame := h ⟨startNewSession unused, []⟩
    [['N', 'O', 'O', 'P', CR, LF, 'N', 'O', 'O', 'P', CR, LF]]
    [['N', 'O', 'O', 'P', CR, LF], ['N', 'O', 'O', 'P', CR, LF]] _ _ ⟨rfl, rfl⟩
    (reading_handed _ (by decide)) (reading_handed _ (by decide)) rfl
  exact nomatch congrArg List.length hsame

end SdcBoot.Ftp
