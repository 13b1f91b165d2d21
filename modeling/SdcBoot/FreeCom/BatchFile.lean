/-
# The lines of a batch file

Between two lines a batch file is closed; where it was is kept in `bpos`, and GOTO sets `brewind`
and the label that is searched for.  `readbatchline` goes on with the file of the context on top,
and where a file has no line any more, in the same loop, with the one below.

`FileView` is what of this matters: the lines that are not read yet, and the label.
`BatchView.read` says what a call is to do with a stack of them, by the first line that is wanted
(`skipTo`).  The loop is compared with it round by round (`readLoop_right`).

Three things come between.  The loop keeps `ip`, which is NULL after a line that was too long, and
at the end of the next file takes that for a line of this one.  `textlineEnd` wants room for a
newline even behind the last line.  And it ends a line at a NUL.  `ReadOk` leaves out these and no
more (`batch_lines_iff`).
-/
import SdcBoot.FreeCom.Batch
import SdcBoot.FreeCom.ForLoop

namespace SdcBoot.FreeCom

open List Nat

open Lib (Along Guarded along_iff_guarded)

/-! ## 1. A line -/

/-- The first line of a text, with its newline. -/
def firstLine : List Char → List Char
  | [] => []
  | c :: text => if c = '\n' then [c] else c :: firstLine text

/-- `fgets`: nothing at the end of the file. -/
def fgets (size : Nat) (unread : List Char) : Option (List Char) :=
  if unread = [] then none else some ((firstLine unread).take (size - 1))

/-- The loop of `textlineEnd`, with so many bytes in front of the last one. -/
def textlineEndFrom : Nat → Nat → List Char → Option Nat
  -- The very last byte of the buffer is hit
  | _, 0, _ => none
  | p, _ + 1, [] => some p
  | p, left + 1, c :: buf => if c = nul ∨ c = '\n' then some p else textlineEndFrom (p + 1) left buf

/-- `textlineEnd`: the place of the newline or the NUL. -/
def textlineEnd (buf : List Char) (buflen : Nat) : Option Nat := textlineEndFrom 0 (buflen - 1) buf

/-- What a line is. -/
inductive LineKind where
  | empty
  | label (name : List Char)
  | command (quiet : Bool) (text : List Char)
  deriving DecidableEq

/-- What `readbatchline` makes of `textline`. -/
def lineKind (textline : List Char) : LineKind :=
  let text := textline.takeWhile (· != nul)
  let text := (text.reverse.dropWhile fun x => x == '\n' || x == '\r').reverse
  let first := ltrimcl text
  -- don't echo this line
  let quiet := first.head? == some '@'
  let first := if quiet then ltrimcl (first.drop 1) else first
  match first with
  | [] => .empty
  | c :: rest =>
    -- label: the 1st word immediately following the colon
    if c = ':' then .label (rest.takeWhile isgraph) else .command quiet first

example : lineKind "  @ echo off\r\n".toList = .command true "echo off".toList := by decide

/-! ## 2. The contexts -/

/-- What of the system does not change: the files, what a FOR finds, and the size of `textline`. -/
structure BatchWorld where
  files : List Char → List Char
  directories : Directories
  size : Nat

/-- The context of a batch file; `bfile` is the place in the open file. -/
structure FileContext where
  bfnam : List Char
  bfile : Option Nat
  bpos : Nat
  bclose : Bool
  brewind : Bool
  blinecnt : Nat
  blabel : Option (List Char)
  echo : Bool
  deriving DecidableEq

/-- A context: of a batch file, or of a FOR with the echo flag it has saved. -/
inductive Frame where
  | file (c : FileContext)
  | loop (echo : Bool) (c : ForContext)
  deriving DecidableEq

/-- `bc` with what follows by `prev`, and the echo flag. -/
structure BatchState where
  frames : List Frame
  echo : Bool
  deriving DecidableEq

/-- The error messages. -/
inductive Report where
  | longBatchline (bfnam : List Char) (blinecnt : Nat)
  | noSuchLabel (bfnam label : List Char)
  | bfileVanished (bfnam : List Char)
  | gotoLabel
  | outOfMemory
  deriving DecidableEq

/-- Reports with the number of contexts below the one they are about. -/
abbrev Reports := List (Nat × Report)

/-- A line to execute, and whether it is echoed. -/
structure BatchLine where
  eflag : Bool
  text : List Char
  deriving DecidableEq

/-- What the rounds of a call meet. -/
structure ReadEvents where
  forBreak : Nat → Bool
  fileBreak : Nat → Bool
  memory : Nat → Bool
  opens : Nat → Bool
  seeks : Nat → Bool

/-- No break, memory always, and the files are there. -/
def ReadEvents.Calm (ev : ReadEvents) : Prop := ∀ n,
  ev.forBreak n = false ∧ ev.fileBreak n = false ∧ ev.memory n = true ∧ ev.opens n = true ∧
    ev.seeks n = true

/-- The end of a round: `continue`, with whether `ip` is not NULL, or `break`. -/
inductive ReadRound where
  | next (reports : Reports) (ip : Bool) (s : BatchState)
  | stop (reports : Reports) (first : Option BatchLine) (s : BatchState)

/-- What `exit_batch` says of a batch file. -/
def FileContext.exitReports (c : FileContext) (below : Nat) : Reports :=
  c.blabel.toList.map fun label => (below, .noSuchLabel c.bfnam label)

/-- No line of the context can be read. -/
def FileContext.leave (c : FileContext) (ip : Bool) (rest : List Frame) : ReadRound :=
  .next ((if ip then [] else [(rest.length, .longBatchline c.bfnam c.blinecnt)]) ++
    c.exitReports rest.length) ip ⟨rest, c.echo⟩

/-- What is done with a line. -/
def FileContext.takes (c : FileContext) (rest : List Frame) (echo : Bool) : LineKind → ReadRound
  | .empty => .next [] true ⟨.file c :: rest, echo⟩
  | .label name =>
    match c.blabel with
    | some label =>
      if sameLabel name label then .next [] true ⟨.file { c with blabel := none } :: rest, echo⟩
      else .next [] true ⟨.file c :: rest, echo⟩
    | none => .next [] true ⟨.file c :: rest, echo⟩
  | .command quiet text =>
    if c.blabel.isSome then .next [] true ⟨.file c :: rest, echo⟩
    else .stop [] (some ⟨!quiet && echo, text⟩) ⟨.file c :: rest, echo⟩

/-- The file is open at `pos`: the next line is read. -/
def FileContext.reads (w : BatchWorld) (ev : ReadEvents) (n : Nat) (ip : Bool) (c : FileContext)
    (pos : Nat) (rest : List Frame) (echo : Bool) : ReadRound :=
  let c := { c with blinecnt := c.blinecnt + 1 }
  if ev.fileBreak n then c.leave ip rest
  else
    match fgets w.size ((w.files c.bfnam).drop pos) with
    | none => c.leave ip rest
    | some textline =>
      let c := { c with bfile := some (pos + textline.length) }
      if textlineEnd textline w.size = none then c.leave false rest
      else c.takes rest echo (lineKind textline)

/-- A round in the context of a batch file. -/
def FileContext.round (w : BatchWorld) (ev : ReadEvents) (n : Nat) (ip : Bool) (c : FileContext)
    (rest : List Frame) (echo : Bool) : ReadRound :=
  match c.bfile with
  | none =>
    if ¬ ev.opens n then
      .next ((rest.length, .bfileVanished c.bfnam) :: c.exitReports rest.length) ip ⟨rest, c.echo⟩
    else
      let c := { c with bclose := true }
      if c.brewind then
        -- fopen() position at start of file
        { c with brewind := false, blinecnt := 0, bfile := some 0 }.reads w ev n ip 0 rest echo
      else if ¬ ev.seeks n then .next (c.exitReports rest.length) ip ⟨rest, c.echo⟩
      else { c with bfile := some c.bpos }.reads w ev n ip c.bpos rest echo
  | some pos =>
    if c.brewind then
      { c with brewind := false, blinecnt := 0, bfile := some 0 }.reads w ev n ip 0 rest echo
    else c.reads w ev n ip pos rest echo

/-- A round of the loop of `readbatchline`. -/
def Frame.round (w : BatchWorld) (ev : ReadEvents) (n : Nat) (ip : Bool) (rest : List Frame)
    (echo : Bool) : Frame → ReadRound
  | .file c => c.round w ev n ip rest echo
  | .loop saved c =>
    match c.round w.directories ⟨fun _ => ev.forBreak n, fun _ => ev.memory n⟩ with
    | .next c => .next [] ip ⟨.loop saved c :: rest, echo⟩
    | .exit => .next [] ip ⟨rest, saved⟩
    | .noMemory => .stop [(rest.length, .outOfMemory)] none ⟨rest, saved⟩
    | .value text c =>
      .stop [] (some ⟨echo, (forLine c.forproto c.forvar text).text⟩) ⟨.loop saved c :: rest, echo⟩

/-- The end of `readbatchline`: a file that was opened for the call is closed. -/
def BatchState.closed (s : BatchState) : BatchState :=
  match s.frames with
  | .file c :: rest =>
    if c.bclose then
      { s with
        frames := .file { c with bpos := c.bfile.getD c.bpos, bfile := none, bclose := false } :: rest }
    else s
  | _ => s

/-- What a call gives. -/
structure ReadResult where
  first : Option BatchLine
  reports : Reports
  s : BatchState
  deriving DecidableEq

/-- The loop of `readbatchline`; no result without enough rounds. -/
def readLoop (w : BatchWorld) (ev : ReadEvents) : Nat → Nat → Bool → BatchState → Option ReadResult
  | 0, _, _, s => if s.frames = [] then some ⟨none, [], s⟩ else none
  | rounds + 1, n, ip, s =>
    match s.frames with
    | [] => some ⟨none, [], s⟩
    | f :: rest =>
      match f.round w ev n ip rest s.echo with
      | .next reports ip s =>
        (readLoop w ev rounds (n + 1) ip s).map fun r => { r with reports := reports ++ r.reports }
      | .stop reports first s => some ⟨first, reports, s.closed⟩

/-- Where the next line is read. -/
def FileContext.place (c : FileContext) : Nat := if c.brewind then 0 else c.bfile.getD c.bpos

/-- How many rounds a context can take. -/
def Frame.rounds (w : BatchWorld) : Frame → Nat
  | .file c => ((w.files c.bfnam).drop c.place).length + 1
  | .loop _ c => c.params.length + 2 - c.shiftlevel

/-- `readbatchline` -/
def readbatchlineOf (w : BatchWorld) (ev : ReadEvents) (s : BatchState) : Option ReadResult :=
  readLoop w ev (s.frames.map (Frame.rounds w)).sum 0 true s

/-! ## 3. The commands -/

/-- A new context for a batch file. -/
def FileContext.init (bfnam : List Char) (echo : Bool) : FileContext where
  bfnam := bfnam
  bfile := none
  bpos := 0
  bclose := false
  brewind := true
  blinecnt := 0
  blabel := none
  echo := echo

/-- `while (bc && bc->forvar) exit_batch();` -/
def leaveLoops : List Frame → Bool → BatchState
  | .loop saved _ :: rest, _ => leaveLoops rest saved
  | frames, echo => ⟨frames, echo⟩

/-- The label that GOTO is given, without a colon in front. -/
def gotoTarget (param : List Char) : List Char :=
  let param := if param.head? = some ':' then skipdm (param.drop 1) else param
  param.take (skipWord param)

/-- Whether GOTO is given a label. -/
def gotoNames (param : List Char) : Bool :=
  if param.head? = some ':' then skipdm (param.drop 1) != [] else param != []

/-- `cmd_goto`, with whether there is memory for the label. -/
def BatchState.cmdGoto (s : BatchState) (param : List Char) (memory : Bool) : Reports × BatchState :=
  let s := leaveLoops s.frames s.echo
  match s.frames with
  | .file c :: rest =>
    if ¬ gotoNames param then
      ((rest.length, .gotoLabel) :: c.exitReports rest.length, ⟨rest, c.echo⟩)
    else if ¬ memory then ([(rest.length, .outOfMemory)], s)
    else ([], { s with
      frames := .file { c with brewind := true, blabel := some (gotoTarget param) } :: rest })
  | _ => ([], s)

/-- `batch`: a batch file takes the place of the one that is read. -/
def BatchState.batch (s : BatchState) (bfnam : List Char) : BatchState :=
  let s := leaveLoops s.frames s.echo
  match s.frames with
  | .file c :: rest => { s with frames := .file (.init bfnam c.echo) :: rest }
  | frames => { s with frames := .file (.init bfnam s.echo) :: frames }

/-- What happens to the contexts. -/
inductive BatchOp where
  | read (ev : ReadEvents)
  | goto (param : List Char) (memory : Bool)
  | batch (bfnam : List Char)
  /-- CALL of a batch file -/
  | call (bfnam : List Char)
  | doFor (e : Expander) (m : ForMemory) (param : List Char)
  | echo (on : Bool)

/-- The contexts after a FOR. -/
def BatchState.cmdFor (s : BatchState) (e : Expander) (m : ForMemory) (param : List Char) :
    BatchState :=
  match checkFOR param with
  | .error _ => s
  | .ok p =>
    match doFOR e m p with
    | none => s
    | some c => { s with frames := .loop s.echo c :: s.frames }

/-- A step, with what a read gives and what is reported. -/
def batchStep (w : BatchWorld) (s : BatchState) :
    BatchOp → Option (Option BatchLine × Reports) × BatchState
  | .read ev =>
    match readbatchlineOf w ev s with
    | none => (none, s)
    | some r => (some (r.first, r.reports), r.s)
  | .goto param memory => (some (none, (s.cmdGoto param memory).1), (s.cmdGoto param memory).2)
  | .batch bfnam => (some (none, []), s.batch bfnam)
  | .call bfnam =>
    (some (none, []), { s with frames := .file (.init bfnam s.echo) :: s.frames })
  | .doFor e m param => (some (none, []), s.cmdFor e m param)
  | .echo on => (some (none, []), { s with echo := on })

/-! ## 4. What it is for -/

/-- The lines of a text, each with its newline. -/
def fileLines : List Char → List (List Char)
  | [] => []
  | c :: text =>
    if c = '\n' then [c] :: fileLines text
    else
      match fileLines text with
      | [] => [[c]]
      | line :: lines => (c :: line) :: lines

/-- **What a batch file stands at**: the lines that are not read yet, how many were read, and the
label that is searched for. -/
structure FileView where
  bfnam : List Char
  unread : List (List Char)
  number : Nat
  target : Option (List Char)
  echo : Bool

/-- What a FOR stands at: the values that are still to come. -/
structure ForView where
  proto : List Char
  var : List Char
  values : List (List Char)
  echo : Bool

inductive FrameView where
  | file (v : FileView)
  | loop (v : ForView)

/-- The stack. -/
structure BatchView where
  frames : List FrameView
  echo : Bool

/-- A line fits: with its newline, if it has one, and the NUL. -/
def Fits (size : Nat) (line : List Char) : Bool := decide (line.length < size)

/-- **The first line that is wanted**, with what follows it, or the first that does not fit. -/
def skipTo (size : Nat) (wanted : List Char → Bool) (lines : List (List Char)) :
    List (List Char) :=
  lines.dropWhile fun line => Fits size line && !wanted line

/-- The line has the label. -/
def hasLabel (target line : List Char) : Bool :=
  match lineKind line with
  | .label name => sameLabel name target
  | _ => false

/-- The line is executed. -/
def isCommand (line : List Char) : Bool :=
  match lineKind line with
  | .command _ _ => true
  | _ => false

/-- What comes of a batch file: a line, with what is left, or the context is left. -/
inductive FileRead where
  | found (line : List Char) (unread : List (List Char)) (number : Nat)
  | left (reports : List Report)

/-- The report of a line that does not fit, where `lines` begin with it. -/
def FileView.tooLong (v : FileView) (lines : List (List Char)) : Report :=
  .longBatchline v.bfnam (v.number + (v.unread.length - lines.length) + 1)

/-- **The first executable line** of what is not read. -/
def FileView.command (v : FileView) (size : Nat) : FileRead :=
  match skipTo size isCommand v.unread with
  | [] => .left []
  | line :: lines =>
    if Fits size line then .found line lines (v.number + (v.unread.length - lines.length))
    else .left [v.tooLong (line :: lines)]

/-- **The next line of a batch file**: with a label, the first executable line behind the first line
that has it. -/
def FileView.read (v : FileView) (size : Nat) : FileRead :=
  match v.target with
  | none => v.command size
  | some label =>
    match skipTo size (hasLabel label) v.unread with
    | [] => .left [.noSuchLabel v.bfnam label]
    | line :: lines =>
      if Fits size line then
        FileView.command
          { v with unread := lines, number := v.number + (v.unread.length - lines.length) } size
      else .left [v.tooLong (line :: lines), .noSuchLabel v.bfnam label]

/-- The line that is given. -/
def lineGiven (line : List Char) (echo : Bool) : Option BatchLine :=
  match lineKind line with
  | .command quiet text => some ⟨!quiet && echo, text⟩
  | _ => none

/-- What a call is to give. -/
structure ViewResult where
  first : Option BatchLine
  reports : Reports
  view : BatchView

/-- **The next line of a stack of contexts.**  A context without one is left. -/
def viewRead (size : Nat) : List FrameView → Bool → ViewResult
  | [], echo => ⟨none, [], ⟨[], echo⟩⟩
  | .loop v :: rest, echo =>
    match v.values with
    | [] => viewRead size rest v.echo
    | value :: values =>
      ⟨some ⟨echo, substituted v.proto v.var value⟩, [],
        ⟨.loop { v with values := values } :: rest, echo⟩⟩
  | .file v :: rest, echo =>
    match v.read size with
    | .found line unread number =>
      ⟨lineGiven line echo, [],
        ⟨.file { v with unread := unread, number := number, target := none } :: rest, echo⟩⟩
    | .left reports =>
      let r := viewRead size rest v.echo
      { r with reports := reports.map (rest.length, ·) ++ r.reports }

/-- A batch file at its beginning. -/
def FileView.start (w : BatchWorld) (bfnam : List Char) (target : Option (List Char)) (echo : Bool) :
    FileView :=
  ⟨bfnam, fileLines (w.files bfnam), 0, target, echo⟩

/-- Contexts of FOR are left. -/
def viewLeaveLoops : List FrameView → Bool → BatchView
  | .loop v :: rest, _ => viewLeaveLoops rest v.echo
  | frames, echo => ⟨frames, echo⟩

/-- **GOTO**: the innermost batch file is read from its beginning, and the label is searched for. -/
def BatchView.goto (w : BatchWorld) (s : BatchView) (param : List Char) (memory : Bool) :
    BatchView :=
  let s := viewLeaveLoops s.frames s.echo
  match s.frames with
  | .file v :: rest =>
    if ¬ gotoNames param then ⟨rest, v.echo⟩
    else if ¬ memory then s
    else { s with frames := .file (.start w v.bfnam (some (gotoTarget param)) v.echo) :: rest }
  | _ => s

/-- Another batch file is begun. -/
def BatchView.batch (w : BatchWorld) (s : BatchView) (bfnam : List Char) : BatchView :=
  let s := viewLeaveLoops s.frames s.echo
  match s.frames with
  | .file v :: rest => { s with frames := .file (.start w bfnam none v.echo) :: rest }
  | frames => { s with frames := .file (.start w bfnam none s.echo) :: frames }

/-- FOR. -/
def BatchView.cmdFor (w : BatchWorld) (s : BatchView) (e : Expander) (m : ForMemory)
    (param : List Char) : BatchView :=
  match checkFOR param with
  | .error _ => s
  | .ok p =>
    match doFOR e m p with
    | none => s
    | some _ =>
      { s with
        frames := .loop ⟨p.cmd, p.varname, forElements w.directories 1 (listElements e p.param),
          s.echo⟩ :: s.frames }

/-- What is seen of a context. -/
def Frame.view (w : BatchWorld) : Frame → FrameView
  | .file c => .file
    { bfnam := c.bfnam
      unread := fileLines ((w.files c.bfnam).drop c.place)
      number := if c.brewind then 0 else c.blinecnt
      target := c.blabel
      echo := c.echo }
  | .loop saved c => .loop ⟨c.forproto, c.forvar, pending w.directories c, saved⟩

def BatchState.view (w : BatchWorld) (s : BatchState) : BatchView :=
  ⟨s.frames.map (Frame.view w), s.echo⟩

/-- **What a step is to do**: a read where nothing comes between returns the line, reports and
leaves what `viewRead` says, and a command does what it says. -/
def BatchRight (w : BatchWorld) (s : BatchState) (op : BatchOp)
    (r : Option (Option BatchLine × Reports) × BatchState) : Prop :=
  match op with
  | .read ev => ev.Calm →
    r.1 = some ((viewRead w.size (s.view w).frames s.echo).first,
      (viewRead w.size (s.view w).frames s.echo).reports) ∧
    r.2.view w = (viewRead w.size (s.view w).frames s.echo).view
  | .goto param memory => r.2.view w = (s.view w).goto w param memory
  | .batch bfnam => r.2.view w = (s.view w).batch w bfnam
  | .call bfnam =>
    r.2.view w = ⟨.file (.start w bfnam none s.echo) :: (s.view w).frames, s.echo⟩
  | .doFor e m param => r.2.view w = (s.view w).cmdFor w e m param
  | .echo on => r.2.view w = { s.view w with echo := on }

/-! ## 5. When it does -/

/-- The code takes the line for one that is too long. -/
def Overflows (size : Nat) (line : List Char) : Prop :=
  textlineEnd (line.take (size - 1)) size = none

/-- The code finds out whether the line fits. -/
def Measured (size : Nat) (line : List Char) : Prop := Overflows size line ↔ Fits size line = false

/-- The label that is searched for behind a line. -/
def passTarget (target : Option (List Char)) (line : List Char) : Option (List Char) :=
  target.filter fun label => !hasLabel label line

/-- The lines that are looked at for the next one. -/
def reachedLines (size : Nat) : Option (List Char) → List (List Char) → List (List Char)
  | _, [] => []
  | target, line :: lines =>
    line :: (if Fits size line = false ∨ (target = none ∧ isCommand line = true) then []
      else reachedLines size (passTarget target line) lines)

/-- **Nothing comes between**: `ip` is not NULL at the end of a file, and each line that is looked at
is measured right. -/
def ReadOk (size : Nat) : Bool → List FrameView → Prop
  | _, [] => True
  | ip, .loop v :: rest => v.values = [] → ReadOk size ip rest
  | ip, .file v :: rest =>
    (v.unread = [] → ip = true) ∧
    (∀ line ∈ reachedLines size v.target v.unread, Measured size line) ∧
    ∀ reports, v.read size = .left reports →
      ReadOk size ((reachedLines size v.target v.unread).all (Fits size)) rest

/-- The condition of a step. -/
def BatchOk (w : BatchWorld) (s : BatchState) : BatchOp → Prop
  | .read ev => ev.Calm → ReadOk w.size true (s.view w).frames
  | _ => True

/-! ## 6. Lines of a text -/

variable {line text : List Char} {size : Nat} {s : BatchState}

theorem firstLine_ne_nil (h : text ≠ []) : firstLine text ≠ [] := by
  cases text with
  | nil => exact absurd rfl h
  | cons c text =>
    rw [firstLine]
    split <;> simp

/-- The lines are the first one, and those of what is left. -/
theorem fileLines_eq (text : List Char) (h : text ≠ []) :
    fileLines text = firstLine text :: fileLines (text.drop (firstLine text).length) := by
  induction text with
  | nil => exact absurd rfl h
  | cons c text ih =>
    rw [fileLines, firstLine]
    split
    · rfl
    · cases text with
      | nil => rfl
      | cons d text =>
        rw [ih (by simp), length_cons, drop_succ_cons]

/-! ## 7. The next line, line by line -/

theorem skipTo_nil (size : Nat) (wanted : List Char → Bool) : skipTo size wanted [] = [] := rfl

theorem skipTo_length (size : Nat) (wanted : List Char → Bool) (lines : List (List Char)) :
    (skipTo size wanted lines).length ≤ lines.length :=
  (dropWhile_sublist _).length_le

theorem skipTo_stop {wanted : List Char → Bool} (h : Fits size line = false ∨ wanted line = true)
    (lines : List (List Char)) : skipTo size wanted (line :: lines) = line :: lines := by
  rw [skipTo, dropWhile_cons, if_neg]
  rcases h with h | h
  · simp [h]
  · simp [h]

theorem skipTo_pass {wanted : List Char → Bool} (hfits : Fits size line = true)
    (hwanted : wanted line = false) (lines : List (List Char)) :
    skipTo size wanted (line :: lines) = skipTo size wanted lines := by
  rw [skipTo, dropWhile_cons, if_pos (by simp [hfits, hwanted])]
  rfl

/-- One line is passed, and then the others. -/
theorem number_passed (number : Nat) {left lines : Nat} (h : left ≤ lines) :
    number + (lines + 1 - left) = number + 1 + (lines - left) := by
  omega

/-- What the context says when it is left while a label is searched for. -/
def FileView.exitReports (v : FileView) : List Report :=
  v.target.toList.map fun label => .noSuchLabel v.bfnam label

/-- A line is passed. -/
def FileView.passed (v : FileView) (line : List Char) (lines : List (List Char)) : FileView :=
  { v with unread := lines, number := v.number + 1, target := passTarget v.target line }

section Read

variable {v : FileView} {size : Nat} {line : List Char} {lines : List (List Char)}

theorem FileView.read_nil (h : v.unread = []) : v.read size = .left v.exitReports := by
  rw [FileView.read, FileView.exitReports]
  cases v.target with
  | none => rw [FileView.command, h, skipTo_nil]; rfl
  | some label => simp only [h]; rfl

section

variable (h : v.unread = line :: lines)
include h

theorem FileView.read_tooLong (hfits : Fits size line = false) :
    v.read size = .left (.longBatchline v.bfnam (v.number + 1) :: v.exitReports) := by
  rw [FileView.read, FileView.exitReports]
  cases v.target with
  | none =>
    rw [FileView.command, h, skipTo_stop (.inl hfits)]
    simp [hfits, FileView.tooLong, h]
  | some label =>
    simp only
    rw [h, skipTo_stop (.inl hfits)]
    simp [hfits, FileView.tooLong, h]

section

variable (hfits : Fits size line = true)
include hfits

theorem FileView.read_command (htarget : v.target = none) (hcommand : isCommand line = true) :
    v.read size = .found line lines (v.number + 1) := by
  rw [FileView.read, htarget]
  rw [FileView.command, h, skipTo_stop (.inr hcommand)]
  simp [hfits]

/-- Nothing but the line is passed over. -/
theorem FileView.command_passed (hcommand : isCommand line = false) (target : Option (List Char)) :
    v.command size = FileView.command
      { v with unread := lines, number := v.number + 1, target := target } size := by
  rw [FileView.command, FileView.command, h, skipTo_pass hfits hcommand]
  have hle := skipTo_length size isCommand lines
  cases hskip : skipTo size isCommand lines with
  | nil => rfl
  | cons line' lines' =>
    rw [hskip, length_cons] at hle
    simp only [FileView.tooLong, h, length_cons]
    rw [number_passed v.number (by omega : lines'.length ≤ _), number_passed v.number hle]

theorem FileView.read_passed (hpass : ¬ (v.target = none ∧ isCommand line = true)) :
    v.read size = (v.passed line lines).read size := by
  rw [FileView.read, FileView.read, FileView.passed]
  cases htarget : v.target with
  | none =>
    have hcommand : isCommand line = false := by
      cases hkind : isCommand line with
      | false => rfl
      | true => exact absurd ⟨htarget, hkind⟩ hpass
    exact FileView.command_passed h hfits hcommand _
  | some label =>
    simp only [passTarget, Option.filter_some]
    cases hlabel : hasLabel label line with
    | true =>
      rw [h, skipTo_stop (.inr hlabel)]
      simp [hfits]
      rfl
    | false =>
      simp only [Bool.not_false, if_true]
      rw [h, skipTo_pass hfits hlabel]
      have hle := skipTo_length size (hasLabel label) lines
      cases hskip : skipTo size (hasLabel label) lines with
      | nil => rfl
      | cons line' lines' =>
        rw [hskip, length_cons] at hle
        simp only [FileView.tooLong, h, length_cons]
        rw [number_passed v.number (by omega : lines'.length ≤ _), number_passed v.number hle]

end

end

end Read

/-- A line that is too long is one of those that are not read yet. -/
theorem FileView.read_number (lines : List (List Char)) : ∀ v : FileView,
    v.unread = lines → ∀ reports, v.read size = .left reports →
    ∀ bfnam m, .longBatchline bfnam m ∈ reports → v.number < m := by
  induction lines with
  | nil =>
    intro v h reports hread bfnam m hm
    rw [FileView.read_nil h] at hread
    cases hread
    simp [FileView.exitReports] at hm
  | cons line lines ih =>
    intro v h reports hread bfnam m hm
    by_cases hfits : Fits size line = true
    · by_cases hpass : v.target = none ∧ isCommand line = true
      · rw [FileView.read_command h hfits hpass.1 hpass.2] at hread
        cases hread
      · rw [FileView.read_passed h hfits hpass] at hread
        exact lt_of_succ_lt (ih _ rfl reports hread bfnam m hm)
    · rw [FileView.read_tooLong h (by simpa using hfits)] at hread
      cases hread
      simp only [mem_cons, Report.longBatchline.injEq, FileView.exitReports, mem_map,
        reduceCtorEq, and_false, exists_false, or_false] at hm
      omega

/-- Reports are about contexts of the stack. -/
theorem viewRead_depth (size : Nat) (frames : List FrameView) : ∀ echo, ∀ report ∈
    (viewRead size frames echo).reports, report.1 < frames.length := by
  induction frames with
  | nil => exact nofun
  | cons f rest ih =>
    intro echo report h
    cases f with
    | loop v =>
      rw [viewRead] at h
      split at h
      · exact lt_succ_of_lt (ih _ _ h)
      · cases h
    | file v =>
      rw [viewRead] at h
      split at h
      · cases h
      · rcases mem_append.mp h with h | h
        · obtain ⟨_, _, rfl⟩ := mem_map.mp h
          exact lt_succ_self _
        · exact lt_succ_of_lt (ih _ _ h)

/-! ## 8. A round -/

/-- Between two calls a file is closed, and within a call that of the context on top may be open. -/
def Frame.Closed : Frame → Prop
  | .file c => c.bfile = none ∧ c.bclose = false
  | .loop _ c => c.Stands ∧ c.forvar ≠ []

/-- The file is open for this call. -/
def FileContext.Opened (c : FileContext) : Prop :=
  (∃ pos, c.bfile = some pos) ∧ c.bclose = true ∧ c.brewind = false

def Frame.Ready : Frame → Prop
  | .file c => c.Opened ∨ (Frame.file c).Closed
  | f => f.Closed

/-- The context with its file open. -/
def FileContext.opened (c : FileContext) : FileContext :=
  { c with
    bfile := some c.place
    bclose := true
    brewind := false
    blinecnt := if c.brewind then 0 else c.blinecnt }

/-- What is seen of the context of a batch file. -/
def FileContext.view (w : BatchWorld) (c : FileContext) : FileView where
  bfnam := c.bfnam
  unread := fileLines ((w.files c.bfnam).drop c.place)
  number := if c.brewind then 0 else c.blinecnt
  target := c.blabel
  echo := c.echo

variable (w : BatchWorld) (c : FileContext)

@[simp] theorem Frame.view_file :
    (Frame.file c).view w = .file (c.view w) := rfl

theorem FileContext.Opened.opened_eq {c : FileContext} (h : c.Opened) : c.opened = c := by
  obtain ⟨⟨pos, hfile⟩, hclose, hrewind⟩ := h
  cases c
  subst hfile hclose hrewind
  rfl

/-- The context behind a line. -/
def FileContext.behind (c : FileContext) (text : List Char) (target : Option (List Char)) :
    FileContext :=
  { c.opened with
    blinecnt := c.opened.blinecnt + 1
    bfile := some (c.place + text.length)
    blabel := target }

theorem FileContext.behind_opened (text : List Char)
    (target : Option (List Char)) : (c.behind text target).Opened :=
  ⟨⟨_, rfl⟩, rfl, rfl⟩

theorem FileContext.behind_view {target : Option (List Char)}
    (htarget : target = passTarget c.blabel text) :
    (c.behind text target).view w = (c.view w).passed text
      (fileLines ((w.files c.bfnam).drop (c.place + text.length))) := by
  rw [htarget]
  rfl

theorem FileContext.behind_rounds (target : Option (List Char))
    (hunread : (w.files c.bfnam).drop c.place ≠ []) (htext : 0 < text.length) :
    (Frame.file (c.behind text target)).rounds w < (Frame.file c).rounds w := by
  have hlen := length_pos_iff.mpr hunread
  change ((w.files c.bfnam).drop (c.place + text.length)).length + 1 <
    ((w.files c.bfnam).drop c.place).length + 1
  rw [length_drop] at hlen ⊢
  rw [length_drop]
  omega

theorem passTarget_none (line : List Char) : passTarget none line = none := rfl

/-- A line without the label leaves the search as it is. -/
theorem passTarget_of_not (h : ∀ label, hasLabel label line = false)
    (target : Option (List Char)) : passTarget target line = target := by
  cases target with
  | none => rfl
  | some label => simp [passTarget, h]

section Round

variable {w : BatchWorld} {ev : ReadEvents} (hcalm : ev.Calm) (n : Nat) (ip : Bool)
  (rest : List Frame) (echo : Bool)

include hcalm

variable {c : FileContext}

/-- Every context of a batch file is read where its file is, opened or not. -/
theorem FileContext.round_eq (h : (Frame.file c).Ready) :
    c.round w ev n ip rest echo = c.opened.reads w ev n ip c.place rest echo := by
  obtain ⟨-, -, -, hopens, hseeks⟩ := hcalm n
  rcases h with h | ⟨hfile, hclose⟩
  · have heq := h.opened_eq
    obtain ⟨⟨pos, hfile⟩, hclose, hrewind⟩ := h
    have hplace : c.place = pos := by simp [FileContext.place, hfile, hrewind]
    rw [heq, FileContext.round, hfile, hplace]
    simp [hrewind]
  · rw [FileContext.round, hfile]
    simp only [hopens, hseeks]
    cases hrewind : c.brewind with
    | true => simp [FileContext.opened, FileContext.place, hrewind]
    | false => simp [FileContext.opened, FileContext.place, hrewind, hfile]

/-- **What a round of a batch file can be.** -/
inductive FileTakes (w : BatchWorld) (c : FileContext) (ip : Bool) (rest : List Frame) (echo : Bool) :
    ReadRound → Prop
  | ended (hunread : (c.view w).unread = []) :
      FileTakes w c ip rest echo (.next ((if ip then []
        else [(rest.length, .longBatchline c.bfnam ((c.view w).number + 1))]) ++
          c.exitReports rest.length) ip ⟨rest, c.echo⟩)
  | tooLong {line : List Char} {lines : List (List Char)}
      (hunread : (c.view w).unread = line :: lines) (hover : Overflows w.size line) :
      FileTakes w c ip rest echo
        (.next ((rest.length, .longBatchline c.bfnam ((c.view w).number + 1)) ::
          c.exitReports rest.length) false ⟨rest, c.echo⟩)
  | passed {line : List Char} {lines left : List (List Char)} {c' : FileContext}
      (hunread : (c.view w).unread = line :: lines) (hover : ¬ Overflows w.size line)
      (hpass : ¬ (c.blabel = none ∧ isCommand (line.take (w.size - 1)) = true)) (hopen : c'.Opened)
      (hview : c'.view w = (c.view w).passed (line.take (w.size - 1)) left)
      (hleft : Fits w.size line = true → left = lines)
      (hrounds : (Frame.file c').rounds w < (Frame.file c).rounds w) :
      FileTakes w c ip rest echo (.next [] true ⟨.file c' :: rest, echo⟩)
  | command {line : List Char} {lines left : List (List Char)} {c' : FileContext}
      (hunread : (c.view w).unread = line :: lines) (hover : ¬ Overflows w.size line)
      (hcommand : c.blabel = none ∧ isCommand (line.take (w.size - 1)) = true) (hopen : c'.Opened)
      (hview : c'.view w = (c.view w).passed (line.take (w.size - 1)) left)
      (hleft : Fits w.size line = true → left = lines) :
      FileTakes w c ip rest echo
        (.stop [] (lineGiven (line.take (w.size - 1)) echo) ⟨.file c' :: rest, echo⟩)

omit hcalm in
/-- What is done with a line, by what it is. -/
theorem takes_cases (c : FileContext) (text : List Char) :
    (¬ (c.blabel = none ∧ isCommand text = true) ∧
      (c.behind text c.blabel).takes rest echo (lineKind text) =
        .next [] true ⟨.file (c.behind text (passTarget c.blabel text)) :: rest, echo⟩) ∨
    ((c.blabel = none ∧ isCommand text = true) ∧
      (c.behind text c.blabel).takes rest echo (lineKind text) =
        .stop [] (lineGiven text echo)
          ⟨.file (c.behind text (passTarget c.blabel text)) :: rest, echo⟩) := by
  have hbehind : (c.behind text c.blabel).blabel = c.blabel := rfl
  cases hkind : lineKind text with
  | empty =>
    refine .inl ⟨by simp [isCommand, hkind], ?_⟩
    rw [passTarget_of_not fun label => by simp [hasLabel, hkind]]
    rfl
  | label name =>
    refine .inl ⟨by simp [isCommand, hkind], ?_⟩
    rw [FileContext.takes, hbehind]
    cases hlabel : c.blabel with
    | none => rfl
    | some label =>
      simp only [passTarget, Option.filter_some, hasLabel, hkind]
      cases sameLabel name label with
      | true => rfl
      | false => rfl
  | command quiet text' =>
    rw [passTarget_of_not fun label => by simp [hasLabel, hkind], FileContext.takes, hbehind]
    cases hlabel : c.blabel with
    | some label => exact .inl ⟨by simp, rfl⟩
    | none =>
      refine .inr ⟨by simp [isCommand, hkind], ?_⟩
      simp [lineGiven, hkind]

omit hcalm in
/-- A line that is not given up. -/
theorem line_takes (hsize : 1 < w.size) {unread line : List Char}
    (hfile : (w.files c.bfnam).drop c.place = unread) (hend : unread ≠ [])
    (hline : firstLine unread = line) (hover : ¬ Overflows w.size line) :
    FileTakes w c ip rest echo ((c.behind (line.take (w.size - 1)) c.blabel).takes rest echo
      (lineKind (line.take (w.size - 1)))) := by
  have hunread : (c.view w).unread = line :: fileLines (unread.drop line.length) := by
    rw [← hline, ← fileLines_eq unread hend, ← hfile]
    rfl
  have hpos : 0 < (line.take (w.size - 1)).length := by
    have hne := length_pos_iff.mpr (firstLine_ne_nil hend)
    rw [hline] at hne
    rw [length_take]
    omega
  have hleft : Fits w.size line = true →
      fileLines ((w.files c.bfnam).drop (c.place + (line.take (w.size - 1)).length)) =
        fileLines (unread.drop line.length) := by
    intro hfits
    have hlt : line.length < w.size := by simpa [Fits] using hfits
    rw [take_of_length_le (by omega), ← hfile, drop_drop]
  rcases takes_cases rest echo c (line.take (w.size - 1)) with ⟨hpass, htakes⟩ | ⟨hcommand, htakes⟩
  · rw [htakes]
    exact .passed hunread hover hpass (c.behind_opened _ _) (c.behind_view w rfl) hleft
      (c.behind_rounds w _ (by rw [hfile]; exact hend) hpos)
  · rw [htakes]
    exact .command hunread hover hcommand (c.behind_opened _ _) (c.behind_view w rfl) hleft

theorem file_takes (hsize : 1 < w.size) (h : (Frame.file c).Ready) :
    FileTakes w c ip rest echo (c.round w ev n ip rest echo) := by
  rw [c.round_eq hcalm n ip rest echo h, FileContext.reads]
  have hbreak := (hcalm n).2.1
  have hview : (c.view w).unread = fileLines ((w.files c.bfnam).drop c.place) := rfl
  simp only [hbreak, Bool.false_eq_true, if_false, fgets]
  obtain ⟨unread, hunread⟩ : ∃ unread, (w.files c.bfnam).drop c.place = unread := ⟨_, rfl⟩
  rw [show (w.files c.opened.bfnam).drop c.place = unread from hunread]
  by_cases hend : unread = []
  · rw [if_pos hend]
    exact .ended (by rw [hview, hunread, hend]; rfl)
  · rw [if_neg hend]
    simp only
    split
    · rename_i hover
      exact .tooLong (by rw [hview, hunread, fileLines_eq unread hend]) hover
    · rename_i hover
      exact line_takes ip rest echo hsize hunread hend rfl hover

end Round

/-! ## 9. What stays as it is -/

/-- Only the file of the context on top may be open. -/
def Standing : List Frame → Prop
  | [] => True
  | f :: rest => f.Ready ∧ ∀ g ∈ rest, g.Closed

theorem Frame.Closed.ready {f : Frame} (h : f.Closed) : f.Ready := by
  cases f with
  | file c => exact .inr h
  | loop echo c => exact h

theorem standing_of_closed {frames : List Frame} (h : ∀ f ∈ frames, f.Closed) : Standing frames := by
  cases frames with
  | nil => trivial
  | cons f rest => exact ⟨(h f (by simp)).ready, fun g hg => h g (by simp [hg])⟩

def ReadRound.state : ReadRound → BatchState
  | .next _ _ s => s
  | .stop _ _ s => s

section Standing

variable (w : BatchWorld) (ev : ReadEvents) (n : Nat) (ip : Bool) {rest : List Frame} (echo : Bool)
  (hrest : ∀ f ∈ rest, f.Closed)

include hrest

variable {c : FileContext}

theorem takes_standing (h : c.Opened) (kind : LineKind) :
    Standing (c.takes rest echo kind).state.frames := by
  cases kind with
  | empty => exact ⟨.inl h, hrest⟩
  | label name =>
    rw [FileContext.takes]
    split
    · split
      · exact ⟨.inl ⟨h.1, h.2⟩, hrest⟩
      · exact ⟨.inl h, hrest⟩
    · exact ⟨.inl h, hrest⟩
  | command quiet text =>
    rw [FileContext.takes]
    split
    · exact ⟨.inl h, hrest⟩
    · exact ⟨.inl h, hrest⟩

theorem reads_standing (h : c.Opened) (pos : Nat) :
    Standing (c.reads w ev n ip pos rest echo).state.frames := by
  rw [FileContext.reads]
  split
  · exact standing_of_closed hrest
  · split
    · exact standing_of_closed hrest
    · split
      · exact standing_of_closed hrest
      · refine takes_standing echo hrest ?_ _
        exact ⟨⟨_, rfl⟩, h.2⟩

theorem file_standing (h : (Frame.file c).Ready) :
    Standing (c.round w ev n ip rest echo).state.frames := by
  rw [FileContext.round]
  split
  · split
    · exact standing_of_closed hrest
    · simp only
      split
      · exact reads_standing w ev n ip echo hrest ⟨⟨0, rfl⟩, rfl, rfl⟩ 0
      · rename_i hrewind
        split
        · exact standing_of_closed hrest
        · exact reads_standing w ev n ip echo hrest ⟨⟨_, rfl⟩, rfl, by simpa using hrewind⟩ _
  · rename_i pos hfile
    have hopen : c.Opened := h.resolve_right fun hclosed => by
      rw [hclosed.1] at hfile
      cases hfile
    rw [if_neg (by simp [hopen.2.2])]
    exact reads_standing w ev n ip echo hrest hopen pos

theorem round_standing {f : Frame} (h : f.Ready) :
    Standing (f.round w ev n ip rest echo).state.frames := by
  cases f with
  | file c => exact file_standing w ev n ip echo hrest h
  | loop saved c =>
    have htakes := round_takes w.directories
      ⟨fun _ => ev.forBreak n, fun _ => ev.memory n⟩ h.1
    rw [Frame.round]
    revert htakes
    cases c.round w.directories ⟨fun _ => ev.forBreak n, fun _ => ev.memory n⟩ with
    | exit => exact fun _ => standing_of_closed hrest
    | noMemory => exact fun _ => standing_of_closed hrest
    | next c' =>
      rintro (⟨hstands, hsame, -, -, -⟩ | _)
      exact ⟨⟨hstands, by rw [hsame.2]; exact h.2⟩, hrest⟩
    | value text c' =>
      intro htakes
      cases htakes with
      | value hstands hsame _ => exact ⟨⟨hstands, by rw [hsame.2]; exact h.2⟩, hrest⟩

end Standing

theorem closed_closed (h : Standing s.frames) : ∀ f ∈ s.closed.frames, f.Closed := by
  obtain ⟨frames, echo⟩ := s
  cases frames with
  | nil => exact nofun
  | cons f rest =>
    obtain ⟨hready, hrest⟩ := h
    cases f with
    | loop saved c =>
      exact forall_mem_cons.mpr ⟨hready, hrest⟩
    | file c =>
      rw [BatchState.closed]
      simp only
      split
      · exact forall_mem_cons.mpr ⟨⟨rfl, rfl⟩, hrest⟩
      · rename_i hclose
        have hclosed := hready.resolve_left fun hopen => hclose hopen.2.1
        exact forall_mem_cons.mpr ⟨hclosed, hrest⟩

/-- A call closes what it has opened. -/
theorem readLoop_closed (ev : ReadEvents) : ∀ (rounds n : Nat) (ip : Bool)
    (s : BatchState), Standing s.frames → ∀ r, readLoop w ev rounds n ip s = some r →
    ∀ f ∈ r.s.frames, f.Closed := by
  intro rounds
  induction rounds with
  | zero =>
    intro n ip s h r hr
    rw [readLoop] at hr
    split at hr
    · rename_i hnil
      cases hr
      rw [hnil]
      exact nofun
    · cases hr
  | succ rounds ih =>
    intro n ip s h r hr
    rw [readLoop] at hr
    split at hr
    · rename_i hnil
      cases hr
      rw [hnil]
      exact nofun
    · rename_i f rest hframes
      rw [hframes] at h
      have hround := round_standing w ev n ip s.echo h.2 h.1
      revert hround hr
      cases f.round w ev n ip rest s.echo with
      | next reports ip s' =>
        intro hr hround
        obtain ⟨r', hr', rfl⟩ := Option.map_eq_some_iff.mp hr
        exact ih (n + 1) ip s' hround r' hr'
      | stop reports first s' =>
        intro hr hround
        cases hr
        exact closed_closed hround

/-! ## 10. A call -/

theorem FileContext.exitReports_eq (w : BatchWorld) (below : Nat) :
    c.exitReports below = (c.view w).exitReports.map (below, ·) := by
  rw [FileContext.exitReports, FileView.exitReports, map_map]
  rfl

theorem exitReports_not_long (v : FileView) (bfnam : List Char) (m : Nat) :
    .longBatchline bfnam m ∉ v.exitReports := by
  simp [FileView.exitReports]

section Call

variable {w : BatchWorld} (hsize : 1 < w.size) {ev : ReadEvents} (hcalm : ev.Calm)

/-- The number a report of a line that is too long must be above: what the context on top has
read. -/
def ReportsAbove (w : BatchWorld) (frames : List Frame) (reports : Reports) : Prop :=
  ∀ report ∈ reports, report.1 < frames.length ∧ ∀ c rest, frames = .file c :: rest →
    report.1 = rest.length → ∀ bfnam m, report.2 = .longBatchline bfnam m → (c.view w).number < m

variable {rest : List Frame}

theorem ReportsAbove.below {f : Frame} {reports : Reports}
    (h : ReportsAbove w rest reports) : ReportsAbove w (f :: rest) reports := by
  intro report hreport
  have hlt := (h report hreport).1
  refine ⟨lt_succ_of_lt hlt, fun c rest' heq hdepth => ?_⟩
  rw [List.cons.injEq] at heq
  rw [← heq.2] at hdepth
  omega

include hsize hcalm in
/-- A call reports nothing about lines that were read before. -/
theorem readLoop_above : ∀ (rounds n : Nat) (ip : Bool) (s : BatchState), Standing s.frames →
    ∀ r, readLoop w ev rounds n ip s = some r → ReportsAbove w s.frames r.reports := by
  intro rounds
  induction rounds with
  | zero =>
    intro n ip s h r hr
    rw [readLoop] at hr
    split at hr
    · cases hr
      exact nofun
    · cases hr
  | succ rounds ih =>
    intro n ip s h r hr
    rw [readLoop] at hr
    split at hr
    · cases hr
      exact nofun
    · rename_i f rest hframes
      rw [hframes] at h ⊢
      cases f with
      | loop saved c =>
        have hround := round_standing w ev n ip s.echo h.2 h.1
        have htakes := round_takes w.directories
          ⟨fun _ => ev.forBreak n, fun _ => ev.memory n⟩ h.1.1
        rw [Frame.round] at hr hround
        revert htakes hround hr
        cases c.round w.directories ⟨fun _ => ev.forBreak n, fun _ => ev.memory n⟩ with
        | exit =>
          intro hr hround _
          obtain ⟨r', hr', rfl⟩ := Option.map_eq_some_iff.mp hr
          exact (ih _ _ _ hround _ hr').below
        | noMemory =>
          intro hr hround htakes
          cases htakes with
          | noMemory hmemory =>
            exact absurd (fun _ => ⟨(hcalm n).1, (hcalm n).2.2.1⟩) hmemory
        | next c' =>
          intro hr hround _
          obtain ⟨r', hr', rfl⟩ := Option.map_eq_some_iff.mp hr
          have habove := ih _ _ _ hround _ hr'
          exact fun report hreport => ⟨(habove report hreport).1, nofun⟩
        | value text c' =>
          intro hr _ _
          cases hr
          exact nofun
      | file c =>
        have hround := round_standing w ev n ip s.echo h.2 h.1
        have htakes := file_takes hcalm n ip rest s.echo hsize h.1
        rw [Frame.round] at hr hround
        -- what the context itself says when it is left
        have hleft : ∀ m, (c.view w).number < m → ∀ reports', ReportsAbove w rest reports' →
            ReportsAbove w (.file c :: rest)
              ((rest.length, .longBatchline c.bfnam m) :: c.exitReports rest.length ++ reports') := by
          intro m hm reports' habove report hreport
          rcases mem_append.mp hreport with hreport | hreport
          · rcases mem_cons.mp hreport with rfl | hreport
            · refine ⟨lt_succ_self _, fun c' rest' heq _ bfnam m' hm' => ?_⟩
              cases heq
              cases hm'
              exact hm
            · rw [c.exitReports_eq w] at hreport
              obtain ⟨report', hreport', rfl⟩ := mem_map.mp hreport
              refine ⟨lt_succ_self _, fun c' rest' heq _ bfnam m' hm' => ?_⟩
              simp only at hm'
              rw [hm'] at hreport'
              exact absurd hreport' (exitReports_not_long _ _ _)
          · exact habove.below report hreport
        revert htakes hround hr
        generalize c.round w ev n ip rest s.echo = round
        intro hr hround htakes
        cases htakes with
        | ended hunread =>
          obtain ⟨r', hr', rfl⟩ := Option.map_eq_some_iff.mp hr
          have habove := ih _ _ _ hround _ hr'
          cases ip with
          | false => exact hleft _ (lt_succ_self _) _ habove
          | true =>
            have hall := hleft _ (lt_succ_self _) _ habove
            exact fun report hreport => hall report (.tail _ hreport)
        | tooLong hunread hover =>
          obtain ⟨r', hr', rfl⟩ := Option.map_eq_some_iff.mp hr
          exact hleft _ (lt_succ_self _) _ (ih _ _ _ hround _ hr')
        | passed hunread hover hpass hopen hview hleft' hrounds =>
          obtain ⟨r', hr', rfl⟩ := Option.map_eq_some_iff.mp hr
          have habove := ih _ _ _ hround _ hr'
          intro report hreport
          refine ⟨(habove report hreport).1, fun c' rest' heq hdepth bfnam m hm => ?_⟩
          cases heq
          have hlt := (habove report hreport).2 _ _ rfl hdepth bfnam m hm
          rw [hview] at hlt
          exact lt_of_succ_lt hlt
        | command hunread hover hcommand hopen hview hleft' =>
          cases hr
          exact nofun

end Call

/-! ## 11. The call against its purpose -/

section View

variable {v : FileView} {size : Nat} {line : List Char} {lines : List (List Char)}

theorem reachedLines_last (target : Option (List Char))
    (h : Fits size line = false ∨ (target = none ∧ isCommand line = true)) :
    reachedLines size target (line :: lines) = [line] := by
  rw [reachedLines, if_pos h]

theorem reachedLines_passed {target : Option (List Char)} (hfits : Fits size line = true)
    (hpass : ¬ (target = none ∧ isCommand line = true)) :
    reachedLines size target (line :: lines) =
      line :: reachedLines size (passTarget target line) lines := by
  rw [reachedLines, if_neg]
  rintro (h | h)
  · rw [hfits] at h
    cases h
  · exact hpass h

theorem readOk_ended (h : v.unread = []) (ip : Bool) (rest : List FrameView) :
    ReadOk size ip (.file v :: rest) ↔ ip = true ∧ ReadOk size true rest := by
  rw [ReadOk, FileView.read_nil h, h]
  simp [reachedLines]

section

variable (h : v.unread = line :: lines)
include h

theorem readOk_tooLong (hfits : Fits size line = false) (ip : Bool) (rest : List FrameView) :
    ReadOk size ip (.file v :: rest) ↔ Measured size line ∧ ReadOk size false rest := by
  rw [ReadOk, FileView.read_tooLong h hfits, h, reachedLines_last _ (.inl hfits)]
  simp [hfits]

theorem readOk_command (hfits : Fits size line = true)
    (hcommand : v.target = none ∧ isCommand line = true) (ip : Bool) (rest : List FrameView) :
    ReadOk size ip (.file v :: rest) ↔ Measured size line := by
  rw [ReadOk, FileView.read_command h hfits hcommand.1 hcommand.2, h,
    reachedLines_last _ (.inr hcommand)]
  simp

theorem readOk_passed (hfits : Fits size line = true)
    (hpass : ¬ (v.target = none ∧ isCommand line = true)) (ip : Bool) (rest : List FrameView) :
    ReadOk size ip (.file v :: rest) ↔
      Measured size line ∧ ReadOk size true (.file (v.passed line lines) :: rest) := by
  rw [ReadOk, ReadOk, FileView.read_passed h hfits hpass, h, reachedLines_passed hfits hpass]
  simp only [reduceCtorEq, false_implies, true_and, forall_mem_cons, all_cons, hfits,
    implies_true, and_assoc]
  rfl

/-- A line that is looked at is measured. -/
theorem ReadOk.measured {ip : Bool} {rest : List FrameView}
    (hok : ReadOk size ip (.file v :: rest)) : Measured size line := by
  refine hok.2.1 line ?_
  rw [h, reachedLines]
  exact mem_cons_self

end

theorem viewRead_left {reports : List Report} (hread : v.read size = .left reports)
    (rest : List FrameView) (echo : Bool) : viewRead size (.file v :: rest) echo =
      { viewRead size rest v.echo with
        reports := reports.map (rest.length, ·) ++ (viewRead size rest v.echo).reports } := by
  rw [viewRead, hread]

theorem viewRead_command (h : v.unread = line :: lines) (hfits : Fits size line = true)
    (hcommand : v.target = none ∧ isCommand line = true) (rest : List FrameView) (echo : Bool) :
    viewRead size (.file v :: rest) echo =
      ⟨lineGiven line echo, [], ⟨.file (v.passed line lines) :: rest, echo⟩⟩ := by
  rw [viewRead, FileView.read_command h hfits hcommand.1 hcommand.2, FileView.passed, hcommand.1,
    passTarget_none]

theorem viewRead_passed (h : v.unread = line :: lines) (hfits : Fits size line = true)
    (hpass : ¬ (v.target = none ∧ isCommand line = true)) (rest : List FrameView) (echo : Bool) :
    viewRead size (.file v :: rest) echo =
      viewRead size (.file (v.passed line lines) :: rest) echo := by
  rw [viewRead, viewRead, FileView.read_passed h hfits hpass]
  rfl

/-- A report about the context on top is one of the file. -/
theorem viewRead_top {rest : List FrameView} {echo : Bool} {report : Report}
    (h : (rest.length, report) ∈ (viewRead size (.file v :: rest) echo).reports) :
    ∃ reports, v.read size = .left reports ∧ report ∈ reports := by
  rw [viewRead] at h
  split at h
  · cases h
  · rename_i reports hread
    refine ⟨reports, hread, ?_⟩
    rcases mem_append.mp h with h | h
    · obtain ⟨report', hreport', heq⟩ := mem_map.mp h
      cases heq
      exact hreport'
    · exact absurd (viewRead_depth size rest _ _ h) (lt_irrefl _)

end View

/-- A call gives what it is to give. -/
def Agrees (w : BatchWorld) (r : ReadResult) (v : ViewResult) : Prop :=
  r.first = v.first ∧ r.reports = v.reports ∧ r.s.view w = v.view

theorem agrees_append (r : ReadResult) (v : ViewResult) (reports : Reports) :
    Agrees w { r with reports := reports ++ r.reports } { v with reports := reports ++ v.reports } ↔
      Agrees w r v := by
  simp [Agrees]

theorem closed_view (h : Standing s.frames) : s.closed.view w = s.view w := by
  obtain ⟨frames, echo⟩ := s
  cases frames with
  | nil => rfl
  | cons f rest =>
    cases f with
    | loop saved c => rfl
    | file c =>
      rw [BatchState.closed]
      simp only
      split
      · rename_i hclose
        have hopen : c.Opened := h.1.resolve_right fun hclosed => by
          rw [hclosed.2] at hclose
          cases hclose
        obtain ⟨⟨pos, hfile⟩, -, hrewind⟩ := hopen
        simp [BatchState.view, Frame.view, FileContext.place]
      · rfl

section Right

variable {w : BatchWorld} (hsize : 1 < w.size) {ev : ReadEvents} (hcalm : ev.Calm)

/-- What the rounds behind this one come to. -/
def RightFrom (w : BatchWorld) (ev : ReadEvents) (rounds : Nat) : Prop :=
  ∀ (n : Nat) (ip : Bool) (s : BatchState), Standing s.frames →
    (s.frames.map (Frame.rounds w)).sum ≤ rounds →
    ∃ r, readLoop w ev rounds n ip s = some r ∧
      (Agrees w r (viewRead w.size (s.frames.map (Frame.view w)) s.echo) ↔
        ReadOk w.size ip (s.frames.map (Frame.view w)))

include hcalm in
/-- A round of a FOR. -/
theorem loop_right {rounds : Nat} (ih : RightFrom w ev rounds) (n : Nat) (ip : Bool)
    {saved : Bool} {c : ForContext} (echo : Bool) (h : Standing (.loop saved c :: rest))
    (hrounds : ((Frame.loop saved c :: rest).map (Frame.rounds w)).sum ≤ rounds + 1) :
    ∃ r, readLoop w ev (rounds + 1) n ip ⟨.loop saved c :: rest, echo⟩ = some r ∧
      (Agrees w r (viewRead w.size ((Frame.loop saved c :: rest).map (Frame.view w)) echo) ↔
        ReadOk w.size ip ((Frame.loop saved c :: rest).map (Frame.view w))) := by
  rw [map_cons, sum_cons, Frame.rounds] at hrounds
  have hwithin := h.1.1.within
  have hstanding := round_standing w ev n ip echo h.2 h.1
  have htakes := round_takes w.directories ⟨fun _ => ev.forBreak n, fun _ => ev.memory n⟩ h.1.1
  have hev : ForEvents.Calm ⟨fun _ => ev.forBreak n, fun _ => ev.memory n⟩ :=
    fun _ => ⟨(hcalm n).1, (hcalm n).2.2.1⟩
  rw [readLoop]
  rw [Frame.round] at hstanding
  simp only [Frame.round]
  revert htakes hstanding
  cases c.round w.directories ⟨fun _ => ev.forBreak n, fun _ => ev.memory n⟩ with
  | noMemory =>
    intro _ htakes
    cases htakes with
    | noMemory hmemory => exact absurd hev hmemory
  | exit =>
    intro hstanding htakes
    cases htakes with
    | exit hdone =>
      obtain ⟨r, hr, hright⟩ := ih (n + 1) ip ⟨rest, saved⟩ hstanding (by simp only; omega)
      refine ⟨{ r with reports := [] ++ r.reports }, by simp only; rw [hr]; rfl, ?_⟩
      have hview : viewRead w.size ((Frame.loop saved c :: rest).map (Frame.view w)) echo =
          viewRead w.size (rest.map (Frame.view w)) saved := by
        rw [map_cons, Frame.view, viewRead, hdone hev]
      have hok : ReadOk w.size ip ((Frame.loop saved c :: rest).map (Frame.view w)) ↔
          ReadOk w.size ip (rest.map (Frame.view w)) := by
        rw [map_cons, Frame.view, ReadOk, hdone hev]
        simp
      rw [hview, hok]
      exact hright
  | next c' =>
    intro hstanding htakes
    cases htakes with
    | next hstands hsame hlevel hparams hpending =>
      obtain ⟨r, hr, hright⟩ := ih (n + 1) ip ⟨.loop saved c' :: rest, echo⟩ hstanding (by
        rw [map_cons, sum_cons, Frame.rounds]
        omega)
      refine ⟨{ r with reports := [] ++ r.reports }, by simp only; rw [hr]; rfl, ?_⟩
      have hview : (Frame.loop saved c').view w = (Frame.loop saved c).view w := by
        rw [Frame.view, Frame.view, hsame.1, hsame.2, hpending]
      simp only [map_cons, hview] at hright
      exact hright
  | value text c' =>
    intro hstanding htakes
    cases htakes with
    | value hstands hsame hpending =>
      refine ⟨_, rfl, ?_⟩
      rw [map_cons, Frame.view, viewRead, ReadOk, hpending]
      refine iff_of_true ⟨?_, rfl, ?_⟩ nofun
      · simp only
        rw [forLine_text _ _ (by rw [hsame.2]; exact h.1.2), hsame.1, hsame.2]
      · refine (closed_view w (s := ⟨.loop saved c' :: rest, echo⟩) hstanding).trans ?_
        simp only [BatchState.view, map_cons, Frame.view, hsame.1, hsame.2]

include hsize hcalm in
/-- A round of a batch file. -/
theorem file_right {rounds : Nat} (ih : RightFrom w ev rounds) (n : Nat) (ip : Bool)
    {c : FileContext} (echo : Bool) (h : Standing (.file c :: rest))
    (hrounds : ((Frame.file c :: rest).map (Frame.rounds w)).sum ≤ rounds + 1) :
    ∃ r, readLoop w ev (rounds + 1) n ip ⟨.file c :: rest, echo⟩ = some r ∧
      (Agrees w r (viewRead w.size ((Frame.file c :: rest).map (Frame.view w)) echo) ↔
        ReadOk w.size ip ((Frame.file c :: rest).map (Frame.view w))) := by
  rw [map_cons, sum_cons] at hrounds
  have hrest : (rest.map (Frame.rounds w)).sum ≤ rounds := by
    rw [Frame.rounds] at hrounds
    omega
  have hlen : (rest.map (Frame.view w)).length = rest.length := length_map _
  have hstanding := round_standing w ev n ip echo h.2 h.1
  have htakes := file_takes hcalm n ip rest echo hsize h.1
  rw [map_cons, Frame.view_file, readLoop]
  rw [Frame.round] at hstanding
  simp only [Frame.round]
  revert htakes hstanding
  generalize c.round w ev n ip rest echo = round
  intro hstanding htakes
  cases htakes with
  | ended hunread =>
    obtain ⟨r, hr, hright⟩ := ih (n + 1) ip ⟨rest, c.echo⟩ hstanding hrest
    refine ⟨_, by simp only; rw [hr]; rfl, ?_⟩
    rw [readOk_ended hunread, viewRead_left (FileView.read_nil hunread), hlen, c.exitReports_eq w]
    cases ip with
    | true => exact (agrees_append w r _ _).trans (hright.trans (by simp))
    | false =>
      refine iff_of_false (fun hagrees => ?_) (by simp)
      -- the false report is about no other context
      have hmem : (rest.length, Report.longBatchline c.bfnam ((c.view w).number + 1)) ∈
          (c.view w).exitReports.map (rest.length, ·) ++
            (viewRead w.size (rest.map (Frame.view w)) (c.view w).echo).reports := by
        have hreports := hagrees.2.1
        simp only at hreports
        rw [← hreports]
        simp
      rcases mem_append.mp hmem with hmem | hmem
      · obtain ⟨report, hreport, heq⟩ := mem_map.mp hmem
        cases heq
        exact exitReports_not_long _ _ _ hreport
      · have hlt := viewRead_depth _ _ _ _ hmem
        rw [hlen] at hlt
        exact lt_irrefl _ hlt
  | tooLong hunread hover =>
    obtain ⟨r, hr, hright⟩ := ih (n + 1) false ⟨rest, c.echo⟩ hstanding hrest
    refine ⟨_, by simp only; rw [hr]; rfl, ?_⟩
    rename_i line lines
    cases hfits : Fits w.size line with
    | false =>
      rw [readOk_tooLong hunread hfits, viewRead_left (FileView.read_tooLong hunread hfits), hlen,
        c.exitReports_eq w]
      exact (agrees_append w r _ _).trans
        (hright.trans (and_iff_right ⟨fun _ => hfits, fun _ => hover⟩).symm)
    | true =>
      refine iff_of_false (fun hagrees => ?_) fun hok => ?_
      · have hmem : ((rest.map (Frame.view w)).length,
            Report.longBatchline c.bfnam ((c.view w).number + 1)) ∈
            (viewRead w.size (.file (c.view w) :: rest.map (Frame.view w)) echo).reports := by
          rw [← hagrees.2.1, hlen]
          simp
        obtain ⟨reports, hread, hreport⟩ := viewRead_top hmem
        by_cases hpass : (c.view w).target = none ∧ isCommand line = true
        · rw [FileView.read_command hunread hfits hpass.1 hpass.2] at hread
          cases hread
        · rw [FileView.read_passed hunread hfits hpass] at hread
          exact lt_irrefl _ (FileView.read_number _ _ rfl _ hread _ _ hreport)
      · have hmeasured := (hok.measured hunread).mp hover
        rw [hfits] at hmeasured
        cases hmeasured
  | passed hunread hover hpass hopen hview hleft hfewer =>
    rename_i line lines left c'
    obtain ⟨r, hr, hright⟩ := ih (n + 1) true ⟨.file c' :: rest, echo⟩ hstanding (by
      rw [map_cons, sum_cons]
      omega)
    refine ⟨{ r with reports := [] ++ r.reports }, by simp only; rw [hr]; rfl, ?_⟩
    simp only [map_cons, Frame.view_file, hview] at hright
    cases hfits : Fits w.size line with
    | true =>
      have htext : line.take (w.size - 1) = line := by
        have hlt : line.length < w.size := by simpa [Fits] using hfits
        exact take_of_length_le (by omega)
      rw [htext] at hpass hright
      rw [hleft hfits] at hright
      rw [readOk_passed hunread hfits hpass, viewRead_passed hunread hfits hpass]
      exact hright.trans (and_iff_right
        ⟨fun h => absurd h hover, fun h => by rw [hfits] at h; cases h⟩).symm
    | false =>
      refine iff_of_false (fun hagrees => ?_) fun hok => ?_
      · -- the line that is too long is not reported, and nothing before it can be
        have hmem : (rest.length, Report.longBatchline c.bfnam ((c.view w).number + 1)) ∈
            r.reports := by
          have heq := hagrees.2.1
          rw [viewRead_left (FileView.read_tooLong hunread hfits), hlen] at heq
          simp only [nil_append] at heq
          rw [heq]
          exact mem_cons_self
        have hlt := (readLoop_above hsize hcalm _ _ _ _ hstanding _ hr _ hmem).2 _ _ rfl rfl _ _ rfl
        rw [hview] at hlt
        exact lt_irrefl _ hlt
      · exact hover ((hok.measured hunread).mpr hfits)
  | command hunread hover hcommand hopen hview hleft =>
    rename_i line lines left c'
    refine ⟨_, rfl, ?_⟩
    cases hfits : Fits w.size line with
    | true =>
      have htext : line.take (w.size - 1) = line := by
        have hlt : line.length < w.size := by simpa [Fits] using hfits
        exact take_of_length_le (by omega)
      rw [htext] at hcommand hview
      rw [hleft hfits] at hview
      rw [readOk_command hunread hfits hcommand, viewRead_command hunread hfits hcommand, htext]
      refine iff_of_true ⟨rfl, rfl, ?_⟩
        ⟨fun h => absurd h hover, fun h => by rw [hfits] at h; cases h⟩
      refine (closed_view w (s := ⟨.file c' :: rest, echo⟩) hstanding).trans ?_
      simp only [BatchState.view, map_cons, Frame.view_file, hview]
    | false =>
      refine iff_of_false (fun hagrees => ?_) fun hok => ?_
      · have heq := hagrees.2.1
        rw [viewRead_left (FileView.read_tooLong hunread hfits)] at heq
        cases heq
      · exact hover ((hok.measured hunread).mpr hfits)

include hsize hcalm in
/-- **A call does what it is to do if and only if nothing comes between.** -/
theorem readLoop_right : ∀ rounds, RightFrom w ev rounds := by
  intro rounds
  induction rounds with
  | zero =>
    intro n ip s h hrounds
    obtain ⟨frames, echo⟩ := s
    cases frames with
    | nil => exact ⟨_, rfl, iff_of_true ⟨rfl, rfl, rfl⟩ trivial⟩
    | cons f rest =>
      exfalso
      simp only [map_cons, sum_cons] at hrounds
      cases f with
      | file c =>
        rw [Frame.rounds] at hrounds
        omega
      | loop saved c =>
        have hwithin := h.1.1.within
        rw [Frame.rounds] at hrounds
        omega
  | succ rounds ih =>
    intro n ip s h hrounds
    obtain ⟨frames, echo⟩ := s
    cases frames with
    | nil => exact ⟨_, rfl, iff_of_true ⟨rfl, rfl, rfl⟩ trivial⟩
    | cons f rest =>
      cases f with
      | file c => exact file_right hsize hcalm ih n ip echo h hrounds
      | loop saved c => exact loop_right hcalm ih n ip echo h hrounds

end Right

/-! ## 12. Runs -/

theorem leaveLoops_view (frames : List Frame) : ∀ echo,
    (leaveLoops frames echo).view w = viewLeaveLoops (frames.map (Frame.view w)) echo := by
  induction frames with
  | nil => exact fun _ => rfl
  | cons f rest ih =>
    intro echo
    cases f with
    | file c => rfl
    | loop saved c => exact ih saved

theorem leaveLoops_closed (frames : List Frame) : ∀ echo, (∀ f ∈ frames, f.Closed) →
    ∀ f ∈ (leaveLoops frames echo).frames, f.Closed := by
  induction frames with
  | nil => exact fun _ h => h
  | cons f rest ih =>
    intro echo h
    cases f with
    | file c => exact h
    | loop saved c => exact ih saved fun g hg => h g (by simp [hg])

theorem goto_view (s : BatchState) (param : List Char) (memory : Bool) :
    (s.cmdGoto param memory).2.view w = (s.view w).goto w param memory := by
  have hloops : (leaveLoops s.frames s.echo).view w =
      viewLeaveLoops (s.view w).frames (s.view w).echo := leaveLoops_view w s.frames s.echo
  rw [BatchState.cmdGoto, BatchView.goto, ← hloops]
  obtain ⟨frames, echo⟩ := leaveLoops s.frames s.echo
  cases frames with
  | nil => rfl
  | cons f rest =>
    cases f with
    | loop saved c => rfl
    | file c =>
      simp only [BatchState.view]
      by_cases hnames : gotoNames param = true
      · cases memory with
        | false =>
          simp only [hnames, not_true_eq_false, if_false, Bool.false_eq_true, not_false_eq_true,
            if_true, map_cons, Frame.view_file]
        | true =>
          simp only [hnames]
          rfl
      · simp only [hnames]
        rfl

theorem batch_view (s : BatchState) (bfnam : List Char) :
    (s.batch bfnam).view w = (s.view w).batch w bfnam := by
  have hloops : (leaveLoops s.frames s.echo).view w =
      viewLeaveLoops (s.view w).frames (s.view w).echo := leaveLoops_view w s.frames s.echo
  rw [BatchState.batch, BatchView.batch, ← hloops]
  obtain ⟨frames, echo⟩ := leaveLoops s.frames s.echo
  cases frames with
  | nil => rfl
  | cons f rest =>
    cases f with
    | loop saved c => rfl
    | file c => rfl

theorem cmdFor_view (s : BatchState) (e : Expander) (m : ForMemory)
    (param : List Char) : (s.cmdFor e m param).view w = (s.view w).cmdFor w e m param := by
  rw [BatchState.cmdFor, BatchView.cmdFor]
  cases checkFOR param with
  | error _ => rfl
  | ok p =>
    simp only
    cases hdo : doFOR e m p with
    | none => rfl
    | some c =>
      rw [doFOR_context hdo]
      rfl

/-- **One step**: a command does what it says, and a read if nothing comes between. -/
theorem batch_step_iff {w : BatchWorld} (hsize : 1 < w.size) (h : ∀ f ∈ s.frames, f.Closed)
    (op : BatchOp) : BatchRight w s op (batchStep w s op) ↔ BatchOk w s op := by
  cases op with
  | goto param memory => exact iff_of_true (goto_view w s param memory) trivial
  | batch bfnam => exact iff_of_true (batch_view w s bfnam) trivial
  | call bfnam => exact iff_of_true rfl trivial
  | doFor e m param => exact iff_of_true (cmdFor_view w s e m param) trivial
  | echo on => exact iff_of_true rfl trivial
  | read ev =>
    refine forall_congr' fun hcalm => ?_
    obtain ⟨r, hr, hright⟩ := readLoop_right hsize hcalm _ 0 true s (standing_of_closed h)
      le_rfl
    have hread : batchStep w s (.read ev) = (some (r.first, r.reports), r.s) := by
      rw [batchStep, readbatchlineOf, hr]
    rw [hread, BatchState.view]
    refine Iff.trans ?_ hright
    simp only [Option.some.injEq, Prod.mk.injEq, and_assoc]
    rfl

theorem batch_step_closed {w : BatchWorld} (h : ∀ f ∈ s.frames, f.Closed)
    (op : BatchOp) : ∀ f ∈ (batchStep w s op).2.frames, f.Closed := by
  have hloops := leaveLoops_closed s.frames s.echo h
  cases op with
  | goto param memory =>
    rw [batchStep, BatchState.cmdGoto]
    split
    · rename_i c rest hframes
      rw [hframes] at hloops
      have hrest : ∀ f ∈ rest, f.Closed := fun f hf => hloops f (by simp [hf])
      split
      · exact hrest
      · split
        · rw [hframes]
          exact hloops
        · exact forall_mem_cons.mpr ⟨hloops (.file c) (by simp), hrest⟩
    · exact hloops
  | batch bfnam =>
    rw [batchStep, BatchState.batch]
    split
    · rename_i c rest hframes
      rw [hframes] at hloops
      exact forall_mem_cons.mpr ⟨⟨rfl, rfl⟩, fun f hf => hloops f (by simp [hf])⟩
    · exact forall_mem_cons.mpr ⟨⟨rfl, rfl⟩, hloops⟩
  | call bfnam => exact forall_mem_cons.mpr ⟨⟨rfl, rfl⟩, h⟩
  | echo on => exact h
  | doFor e m param =>
    rw [batchStep, BatchState.cmdFor]
    cases hcheck : checkFOR param with
    | error _ => exact h
    | ok p =>
      simp only
      cases hdo : doFOR e m p with
      | none => exact h
      | some c =>
        refine forall_mem_cons.mpr ⟨?_, h⟩
        rw [doFOR_context hdo]
        exact ⟨⟨le_refl 1, Nat.le_add_left 1 _, fun hne => absurd rfl hne⟩,
          checkFOR_varname hcheck⟩
  | read ev =>
    rw [batchStep]
    split
    · exact h
    · rename_i r hr
      exact readLoop_closed w ev _ 0 true s (standing_of_closed h) r hr

/-- **The lines of the batch files.**  In every run of reads and commands from the prompt, each call
of `readbatchline` returns the line that the files say, reports what does not fit and nothing else,
and stands where it should, if and only if in each of them nothing comes between. -/
theorem batch_lines_iff {w : BatchWorld} (hsize : 1 < w.size) (echo : Bool) (ops : List BatchOp) :
    Along (batchStep w) (BatchRight w) ⟨[], echo⟩ ops ↔
      Guarded (batchStep w) (BatchOk w) ⟨[], echo⟩ ops := by
  have hstep : ∀ (s : BatchState) op, (∀ f ∈ s.frames, f.Closed) →
      (BatchRight w s op (batchStep w s op) ↔ BatchOk w s op) :=
    fun s op h => batch_step_iff hsize h op
  have hkeep : ∀ (s : BatchState) op, (∀ f ∈ s.frames, f.Closed) → BatchOk w s op →
      ∀ f ∈ (batchStep w s op).2.frames, f.Closed :=
    fun s op h _ => batch_step_closed h op
  exact along_iff_guarded hstep hkeep ops ⟨[], echo⟩ nofun

/-- Nothing happens. -/
def calmEvents : ReadEvents :=
  ⟨fun _ => false, fun _ => false, fun _ => true, fun _ => true, fun _ => true⟩

/-- OUTER calls INNER, which is one long line. -/
def longInner : BatchWorld where
  files := fun bfnam =>
    if bfnam = "OUTER".toList then "call inner\n".toList else List.replicate 300 'x'
  directories := fun _ _ => []
  size := 256

theorem batch_lines_outer :
    Along (batchStep longInner) (BatchRight longInner) ⟨[], true⟩
        [.batch "OUTER".toList, .read calmEvents] ↔
      Guarded (batchStep longInner) (BatchOk longInner) ⟨[], true⟩
        [.batch "OUTER".toList, .read calmEvents] :=
  batch_lines_iff (by decide) true _

/-- **The end of a file taken for a long line**: INNER is reported, and OUTER, which has no line
left, with it. -/
theorem outer_reported_too :
    ¬ Along (batchStep longInner) (BatchRight longInner) ⟨[], true⟩
      [.batch "OUTER".toList, .read calmEvents, .call "INNER".toList, .read calmEvents] := by
  intro h
  have hread := (h.2.2.2.1 fun _ => ⟨rfl, rfl, rfl, rfl, rfl⟩).1
  have hsaid : (batchStep longInner (SdcBoot.Lib.run (batchStep longInner) ⟨[], true⟩
      [.batch "OUTER".toList, .read calmEvents, .call "INNER".toList]) (.read calmEvents)).1 =
      some (none, [(1, .longBatchline "INNER".toList 1), (0, .longBatchline "OUTER".toList 2)]) := by
    decide +kernel
  have hmeant : (viewRead longInner.size ((SdcBoot.Lib.run (batchStep longInner) ⟨[], true⟩
      [.batch "OUTER".toList, .read calmEvents, .call "INNER".toList]).view longInner).frames
      true).reports = [(1, .longBatchline "INNER".toList 1)] := by
    decide +kernel
  have hboth := hsaid.symm.trans hread
  simp only [Option.some.injEq, Prod.mk.injEq] at hboth
  have hreports := hboth.2.trans hmeant
  cases hreports

end SdcBoot.FreeCom
