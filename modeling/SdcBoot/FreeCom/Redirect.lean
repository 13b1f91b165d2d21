/-
# Redirection and pipes (`command.c`, `redir.c`)

`get_redirection` takes the redirections out of a command line and cuts it at the pipe signs.
`parsecommandline` saves the standard handles by `dup`, opens the files in their place, runs the
commands one after the other with a temporary file between two of them, and puts the handles back.

The handles are a table from numbers to open files; `dup` and `open` take the lowest free entry.  A
handle variable that holds -1 is `none`.  A file that is opened is given the number of files opened
before it, so that no two open files are confused.  What the calls to DOS and the C library answer is
given with the call to `parsecommandline`; the commands themselves are a parameter.  The line is
taken after the aliases are expanded.
-/
import Mathlib.Logic.Function.Basic

namespace SdcBoot.FreeCom

/-! ## 1. The handles of the shell -/

/-- The attributes a file is opened with. -/
inductive OpenMode where
  /-- O_TEXT | O_RDONLY -/
  | read
  /-- O_CREAT | O_TRUNC | O_TEXT | O_WRONLY -/
  | create
  /-- O_CREAT | O_APPEND | O_TEXT | O_WRONLY -/
  | append
  deriving DecidableEq

/-- What is reported to the user. -/
inductive Complaint where
  | outOfMemory
  | redirectFromFile (name : List Char)
  | redirectToFile (name : List Char)
  deriving DecidableEq

/-- The shell: its handle table of `limit` entries, the files opened so far, the handles saved in
`oldinfd` and `oldoutfd`, the names `tmpfn` gave and those passed to `killtmpfn`. -/
structure Shell where
  limit : Nat
  fds : Nat → Option Nat
  files : List (List Char × OpenMode)
  oldinfd : Option Nat
  oldoutfd : Option Nat
  obtained : List (List Char)
  killed : List (List Char)
  complaints : List Complaint
  tracemode : Bool

namespace Shell

/-- The handle that `open` and `dup` give. -/
def lowestFree (s : Shell) : Option Nat := (List.range s.limit).find? fun h => (s.fds h).isNone

/-- A handle is made to refer to an open file, or to none. -/
def point (s : Shell) (h : Nat) (f : Option Nat) : Shell :=
  { s with fds := Function.update s.fds h f }

/-- dup -/
def dup (s : Shell) (ok : Bool) (h : Nat) : Option Nat × Shell :=
  match s.fds h, s.lowestFree with
  | some f, some slot => if ok then (some slot, s.point slot (some f)) else (none, s)
  | _, _ => (none, s)

/-- dup2: a handle that is not open is refused, and nothing changes. -/
def dup2 (s : Shell) (src : Option Nat) (h : Nat) : Shell :=
  match src.bind s.fds with
  | some f => s.point h (some f)
  | none => s

/-- close -/
def close (s : Shell) (h : Option Nat) : Shell :=
  match h with
  | some h => s.point h none
  | none => s

/-- open, and devopen, whose name may be that of a device. -/
def openFile (s : Shell) (ok : Bool) (name : List Char) (mode : OpenMode) : Option Nat × Shell :=
  match s.lowestFree with
  | some slot =>
    if ok then
      (some slot, { s.point slot (some s.files.length) with files := s.files ++ [(name, mode)] })
    else (none, s)
  | none => (none, s)

/-- killtmpfn: does nothing without a name. -/
def killtmpfn (s : Shell) (name : Option (List Char)) : Shell :=
  { s with killed := s.killed ++ name.toList }

def complain (s : Shell) (c : Complaint) : Shell := { s with complaints := s.complaints ++ [c] }

end Shell

/-! ## 2. get_redirection -/

/-- is_redir -/
def isRedir (c : Char) : Bool := c == '<' || c == '>' || c == '|'

/-- isargdelim: a blank, a control character or one of `,;=`. -/
def isargdelim (c : Char) : Bool :=
  decide (c.toNat ≤ 32) || c.toNat == 127 || c == ',' || c == ';' || c == '='

/-- ltrimcl -/
def ltrimcl (s : List Char) : List Char := s.dropWhile isargdelim

/-- What has been read of a line: the commands before the last pipe sign, the one being read, the
names of the redirections, and how many names were allocated. -/
structure Redirection where
  before : List (List Char)
  command : List Char
  ifn : Option (List Char)
  ofn : Option (List Char)
  ofatt : OpenMode
  strdups : Nat
  deriving DecidableEq

/-- The loop of `get_redirection` over the characters that are left.  The result is false where
there was no memory for a name. -/
def getRedirectionFrom (strdup : Nat → Bool) : Nat → List Char → Redirection → Bool × Redirection
  | 0, _, r => (true, r)
  | _ + 1, [], r => (true, r)
  | fuel + 1, ch :: sp, r =>
    if ch = '"' then
      -- up to the closing quote, or to the end of the line
      let quoted := sp.takeWhile (· != '"') ++ (sp.dropWhile (· != '"')).take 1
      let rest := (sp.dropWhile (· != '"')).drop 1
      getRedirectionFrom strdup fuel rest { r with command := r.command ++ ch :: quoted }
    else if ch = '<' ∨ ch = '>' then
      let twice := ch = '>' ∧ sp.head? = some '>'
      let p := ltrimcl (if twice then sp.drop 1 else sp)
      let name := p.takeWhile fun c => !isRedir c && !isargdelim c
      let rest := p.dropWhile fun c => !isRedir c && !isargdelim c
      let found := if strdup r.strdups then some name else none
      let r := { r with
        ifn := if ch = '<' then found else r.ifn
        ofn := if ch = '<' then r.ofn else found
        ofatt := if twice then .append else r.ofatt
        strdups := r.strdups + 1 }
      if found.isNone then (false, r) else getRedirectionFrom strdup fuel rest r
    else if ch = '|' then
      getRedirectionFrom strdup fuel sp { r with before := r.before ++ [r.command], command := [] }
    else getRedirectionFrom strdup fuel sp { r with command := r.command ++ [ch] }

/-- get_redirection.  Every round takes a character of the line. -/
def getRedirection (strdup : Nat → Bool) (line : List Char) : Bool × Redirection :=
  getRedirectionFrom strdup line.length line ⟨[], [], none, none, .create, 0⟩

example : getRedirection (fun _ => true) "type \"a|b\" <in|sort>> out /r".toList =
    (true, ⟨["type \"a|b\" ".toList], "sort /r".toList, some "in".toList, some "out".toList,
      .append, 2⟩) := by decide

/-! ## 3. parsecommandline -/

/-- What the calls made by one `parsecommandline` answer: the strdups of `get_redirection`, the
`dup`s around the question of trace mode and the answer to it, the `dup`s that save handle 0 and 1,
`devopen` of the input and the output file, and for each stage of the pipe `tmpfn` and the `open`
for writing and for reading. -/
structure Outcomes where
  strdup : Nat → Bool
  traceIn : Bool
  traceOut : Bool
  answer : Nat
  dupIn : Bool
  openIn : Bool
  dupOut : Bool
  tmpfn : Nat → Option (List Char)
  openWrite : Nat → Bool
  openRead : Nat → Bool
  openOut : Bool

/-- The question of trace mode is asked on the handles that are saved, if there are any. -/
def traceQuestion (o : Outcomes) (s : Shell) : Shell :=
  let oldinfd := s.oldinfd
  let oldoutfd := s.oldoutfd
  let (redirFdin, s) := if oldinfd.isSome then
    let (fd, s) := s.dup o.traceIn 0
    (fd, s.dup2 oldinfd 0) else (none, s)
  let (redirFdout, s) := if oldoutfd.isSome then
    let (fd, s) := s.dup o.traceOut 1
    (fd, s.dup2 oldoutfd 1) else (none, s)
  let s := if oldinfd.isSome then (s.dup2 redirFdin 0).close redirFdin else s
  if oldoutfd.isSome then (s.dup2 redirFdout 1).close redirFdout else s

/-- Restore original STDIN. -/
def restoreIn (s : Shell) : Shell :=
  if s.oldinfd.isSome then
    { ((s.close (some 0)).dup2 s.oldinfd 0).close s.oldinfd with oldinfd := none }
  else s

/-- Restore original STDOUT. -/
def restoreOut (s : Shell) : Shell :=
  if s.oldoutfd.isSome then
    { ((s.close (some 1)).dup2 s.oldoutfd 1).close s.oldoutfd with oldoutfd := none }
  else s

/-- The label `abort`. -/
def abort (fname1 fname0 : Option (List Char)) (s : Shell) : Shell :=
  ((restoreOut (restoreIn s)).killtmpfn fname1).killtmpfn fname0

section Commands

variable (docommand : List Char → Shell → Shell)

/-- One round of the loop over all but the last command, from where `tmpfn` gave `fname0`. -/
def stage (o : Outcomes) (i : Nat) (command fname0 : List Char) (fname1 : Option (List Char))
    (s : Shell) : Shell :=
  let s := { s with obtained := s.obtained ++ [fname0] }
  let s := (s.openFile (o.openWrite i) fname0 .create).2
  let s := docommand command s
  let s := (s.close (some 1)).dup2 s.oldoutfd 1
  let s := (s.close (some 0)).killtmpfn fname1
  (s.openFile (o.openRead i) fname0 .read).2

/-- The loop over all but the last command.  The result is false where no temporary file could be
had. -/
def stages (o : Outcomes) : Nat → List (List Char) → Option (List Char) → Shell →
    Bool × Option (List Char) × Shell
  | _, [], fname1, s => (true, fname1, s)
  | i, command :: rest, fname1, s =>
    let s := s.close (some 1)
    match o.tmpfn i with
    | none => (false, fname1, s)
    | some fname0 =>
      stages o (i + 1) rest (some fname0) (stage docommand o i command fname0 fname1 s)

/-- From where the last command is to be run. -/
def lastCommand (o : Outcomes) (r : Redirection) (fname1 : Option (List Char)) (s : Shell) :
    Shell :=
  match r.ofn with
  | some out =>
    let (fd, s) := (s.close (some 1)).openFile o.openOut out r.ofatt
    if fd ≠ some 1 then abort fname1 none (s.complain (.redirectToFile out))
    else abort fname1 none (docommand r.command s)
  | none => abort fname1 none (docommand r.command (restoreOut s))

/-- From the end of the loop over the stages. -/
def afterStages (o : Outcomes) (r : Redirection) : Bool × Option (List Char) × Shell → Shell
  | (false, fname1, s) => abort fname1 none s
  | (true, fname1, s) => lastCommand docommand o r fname1 s

/-- From where the standard output is saved. -/
def runPipe (o : Outcomes) (r : Redirection) (s : Shell) : Shell :=
  let s := if r.ofn.isSome ∨ r.before ≠ [] then
    let (fd, s) := s.dup o.dupOut 1
    { s with oldoutfd := fd } else s
  afterStages docommand o r (stages docommand o 0 r.before none s)

/-- From where the standard input has been saved. -/
def redirectInput (o : Outcomes) (r : Redirection) (s : Shell) : Shell :=
  match r.ifn with
  | some name =>
    let (fd, s) := (s.close (some 0)).openFile o.openIn name .read
    if fd ≠ some 0 then abort none none (s.complain (.redirectFromFile name))
    else runPipe docommand o r s
  | none => runPipe docommand o r s

/-- From where `get_redirection` has cut the line. -/
def redirected (o : Outcomes) (r : Redirection) (s : Shell) : Shell :=
  let s := if r.ifn.isSome ∨ r.before ≠ [] then
    let (fd, s) := s.dup o.dupIn 0
    { s with oldinfd := fd } else s
  redirectInput docommand o r s

/-- parsecommandline -/
def parsecommandline (o : Outcomes) (line : List Char) (redirect : Bool) (s : Shell) : Shell :=
  let s := if s.tracemode then traceQuestion o s else s
  if s.tracemode ∧ o.answer ≠ 1 then s
  else if ¬redirect then docommand line s
  else
    match getRedirection o.strdup line with
    | (false, _) => abort none none (s.complain .outOfMemory)
    | (true, r) => redirected docommand o r s

end Commands

end SdcBoot.FreeCom
