/-
# COPY (`copy.c`)

A request is a destination and a list of chains: a source, and those that are appended to it.
`copyFiles` copies a chain to the destination; where the destination is the first source itself, it
appends the others to it.  `copy` goes through the names that match the first source: for each it
opens the destination and copies the sources one behind the other, by `BIGcopy` or, in text mode,
line by line.  A single source that is copied by `BIGcopy` makes the destination as long as it will
be before anything is written.

What DOS, the user and the C library answer is given with the request: whether a file can be opened,
a read fails, how many bytes a write takes, whether ^Break was pressed, which names match.  How
names are made and compared is a parameter.  File times, messages and the progress display are left
out.
-/
import SdcBoot.FreeCom.Files

namespace SdcBoot.FreeCom

/-! ## 1. Sources and what happens to them -/

/-- struct CopySource. -/
structure CopySource where
  ascii : Bool
  binary : Bool
  fnam : FileName
  deriving DecidableEq

/-- A source as it is opened, by its true path. -/
structure Source where
  path : FileName
  ascii : Bool
  binary : Bool
  deriving DecidableEq

/-- What happens while a source is copied.  `bufferSize` is what `DOSalloc` gives at last, 0 for
nothing; the n-th write takes at most `accepts n` bytes; a truncating write that extends the file
finds `room` clear bytes; `flushed` bytes of a text are written at once. -/
structure SourceEnv where
  opens : Bool
  breakBefore : Bool
  presizes : Bool
  room : Nat
  junk : Nat → UInt8
  bufferSize : Nat
  readFails : Nat → Bool
  accepts : Nat → Nat
  breaks : Nat → Bool
  cuts : Bool
  deviceInput : Bytes
  textMemory : Bool
  readError : Bool
  writeError : Bool
  flushed : Nat
  breakAfter : Bool

/-- The answer to PROMPT_OVERWRITE_FILE, where it is asked. -/
inductive Prompt where
  | yes
  | no
  | quit
  deriving DecidableEq

/-- What happens while a destination is written. -/
structure StepEnv where
  memory : Bool
  prompt : Prompt
  breakBefore : Bool
  opens : Bool
  source : Nat → SourceEnv
  closes : Bool

/-- The file is copied in text mode: as it was asked for, or because it is a device. -/
def Source.text (s : Source) (v : Volume) : Bool := s.ascii || (v.device s.path && !s.binary)

/-- What is read from a source. -/
def Source.content (s : Source) (v : Volume) (e : SourceEnv) : Bytes :=
  if v.device s.path then e.deviceInput else v.data s.path

/-! ## 2. Copying one source -/

/-- The loop of `BIGcopy` over what is left of the source, from the n-th round on. -/
def bigLoop (n : FileName) (e : SourceEnv) : Nat → Nat → Bytes → Work → Nat × Work
  | 0, _, _, w => (0, w)
  | fuel + 1, round, rest, w =>
    if e.readFails round then (1, w)
    else if rest = [] then (0, w)
    else
      let chunk := rest.take e.bufferSize
      let w1 := w.write n (chunk.take (e.accepts round))
      if e.accepts round < chunk.length then (2, w1)
      else if e.breaks round then (3, w1)
      else bigLoop n e fuel (round + 1) (rest.drop e.bufferSize) w1

/-- `BIGcopy`: 0, or what went wrong.  Every round reads a byte at least. -/
def BIGcopy (n : FileName) (e : SourceEnv) (content : Bytes) (w : Work) : Nat × Work :=
  if e.bufferSize = 0 then (3, w) else bigLoop n e (content.length + 1) 0 content w

def sizeChanged (n : FileName) (single : Bool) (s : Source) (v : Volume) : Bool :=
  single && !v.device s.path && !v.device n

/-- The branch for binary files; false for an error. -/
def copyBinary (n : FileName) (single : Bool) (e : SourceEnv) (s : Source) (w : Work) :
    Bool × Work :=
  let content := s.content w.v e
  if sizeChanged n single s w.v then
    if e.presizes then
      let r := BIGcopy n e content (w.presize n e.junk e.room content.length)
      (r.1 == 0, if r.1 = 0 ∧ e.cuts = true then r.2.cut n else r.2)
    else (false, w)
  else
    let r := BIGcopy n e content w
    (r.1 == 0, r.2)

/-- A line of text: it ends at its first NUL, and a newline is written as two characters. -/
def textLine (line : Bytes) : Bytes :=
  let buf := line.takeWhile (· != 0)
  if buf.getLast? = some 10 then buf.dropLast ++ [13, 10] else buf

/-- The branch for text files; `lines` is what `fgets` reads of a file. -/
def copyText (lines : Bytes → List Bytes) (n : FileName) (e : SourceEnv) (s : Source) (w : Work) :
    Bool × Work :=
  if e.textMemory then
    let text := (lines (s.content w.v e)).flatMap textLine
    let w1 := { w with pending := w.pending ++ text }
    (!e.readError && !e.writeError, w1.flush n e.flushed)
  else (false, w)

/-- One source, from its opening on; false for an error or ^Break. -/
def copySource (lines : Bytes → List Bytes) (n : FileName) (single : Bool) (e : SourceEnv)
    (s : Source) (w : Work) : Bool × Work :=
  if w.v.known s.path && e.opens then
    if e.breakBefore then (false, w)
    else
      let r := if s.text w.v then copyText lines n e s w else copyBinary n single e s w
      (r.1 && !e.breakAfter, r.2)
  else (false, w)

/-- The loop over the chain; the k-th source is the next. -/
def copySources (lines : Bytes → List Bytes) (n : FileName) (single : Bool)
    (env : Nat → SourceEnv) : Nat → List Source → Work → Bool × Work
  | _, [], w => (true, w)
  | k, s :: rest, w =>
    let r := copySource lines n single (env k) s w
    if r.1 then copySources lines n single env (k + 1) rest r.2 else (false, r.2)

/-! ## 3. Copying to one destination -/

/-- One round of the loop in `copy`, from the opening of the destination on. -/
structure Job where
  before : Volume
  dest : FileName
  append : Bool
  sources : List Source
  env : StepEnv

namespace Job

/-- What the destination starts with. -/
def kept (j : Job) : Bytes := if j.append then j.before.data j.dest else []

/-- `fdevopen`, to write or to append. -/
def opened (j : Job) : Work := ⟨j.before.put j.dest (some j.kept), j.kept.length, []⟩

/-- `src->app == NULL`. -/
def single (j : Job) : Bool := j.sources.length == 1

/-- `asc`, as the last source left it. -/
def asc (j : Job) : Bool := (j.sources.getLast?.map Source.ascii).getD false

/-- The sources are copied; after an error the destination is removed. -/
def run (lines : Bytes → List Bytes) (j : Job) : Bool × Volume :=
  let r := copySources lines j.dest j.single j.env.source 0 j.sources j.opened
  if r.1 && j.env.closes then
    let w := if j.asc then { r.2 with pending := r.2.pending ++ [0x1a] } else r.2
    (true, (w.flush j.dest w.pending.length).v)
  else (false, r.2.v.put j.dest none)

end Job

/-! ## 4. `copy` -/

/-- How names are dealt with: `truepath`, `fillFnam`, `dfnfilename`, and the names of a directory
that `dfnmerge` makes a pattern of.  `lines` is `fgets` in text mode. -/
structure Names where
  truepath : FileName → FileName
  fillFnam : FileName → FileName → FileName
  dfnfilename : FileName → FileName
  lines : Bytes → List Bytes

/-- What comes of a matching name: an error, nothing, or a copy. -/
inductive Planned where
  | refused
  | skipped
  | job (j : Job)

/-- One round of the loop in `copy`, up to the opening of the destination. -/
def plan (names : Names) (dst : FileName) (src : List CopySource) (append : Bool)
    (srcFile : FileName) (env : StepEnv) (v : Volume) : Planned :=
  let rDest := names.fillFnam dst srcFile
  let rSrc := src.map fun h => names.fillFnam h.fnam srcFile
  if rDest = [] ∨ [] ∈ rSrc then .refused
  else if env.memory = false ∨ names.truepath rDest ∈ rSrc.map names.truepath then .refused
  else if append = false ∧ env.prompt = .quit then .refused
  else if append = false ∧ env.prompt = .no then .skipped
  else if env.breakBefore = true ∨ env.opens = false then .refused
  else .job ⟨v, names.truepath rDest, append,
    src.map fun h => ⟨names.truepath (names.fillFnam h.fnam srcFile), h.ascii, h.binary⟩, env⟩

/-- What `copy` returns and leaves, and the copies it made. -/
structure Copied where
  ok : Bool
  after : Volume
  jobs : List Job

/-- The loop of `copy` over the names that match. -/
def copyLoop (names : Names) (dst : FileName) (src : List CopySource) (append : Bool)
    (env : Nat → StepEnv) : Nat → List FileName → Volume → Copied
  | _, [], v => ⟨true, v, []⟩
  | k, srcFile :: rest, v =>
    match plan names dst src append srcFile (env k) v with
    | .refused => ⟨false, v, []⟩
    | .skipped => copyLoop names dst src append env (k + 1) rest v
    | .job j =>
      let r := j.run names.lines
      if r.1 then
        let t := copyLoop names dst src append env (k + 1) rest r.2
        { t with jobs := j :: t.jobs }
      else ⟨false, r.2, [j]⟩

def isPattern (n : FileName) : Bool := n.any fun c => c == '*' || c == '?'

/-- What happens during `copyFiles`; `found` are the names FINDFIRST and FINDNEXT give. -/
structure ChainEnv where
  memory : Bool
  found : List FileName
  step : Nat → StepEnv

def copy (names : Names) (dst pattern : FileName) (src : List CopySource) (append : Bool)
    (env : ChainEnv) (v : Volume) : Copied :=
  if isPattern pattern then
    if env.found = [] then ⟨false, v, []⟩
    else copyLoop names dst src append env.step 0 env.found v
  else copyLoop names dst src append env.step 0 [names.dfnfilename pattern] v

/-- A source and those that are appended to it. -/
structure Chain where
  first : CopySource
  app : List CopySource
  deriving DecidableEq

def copyFiles (names : Names) (dst : FileName) (h : Chain) (env : ChainEnv) (v : Volume) : Copied :=
  if env.memory = false then ⟨false, v, []⟩
  else if names.truepath h.first.fnam ≠ names.truepath dst then
    copy names dst h.first.fnam (h.first :: h.app) false env v
  else if h.app ≠ [] then copy names dst h.first.fnam h.app true env v
  else ⟨false, v, []⟩

/-- The loop over the chains in `cmd_copy`. -/
def copyChains (names : Names) (dst : FileName) (env : Nat → ChainEnv) :
    Nat → List Chain → Volume → Copied
  | _, [], v => ⟨true, v, []⟩
  | k, h :: rest, v =>
    let r := copyFiles names dst h (env k) v
    if r.ok then
      let t := copyChains names dst env (k + 1) rest r.after
      { t with jobs := r.jobs ++ t.jobs }
    else r

/-! ## 5. The request -/

/-- The options and the chains while the arguments are read; a chain is being built as long as
others follow. -/
structure Context where
  chains : List Chain
  appendToFile : Bool
  optA : Bool
  optB : Bool

/-- `strtok` with "+". -/
def strtok (p : FileName) : List FileName := (p.splitOn '+').filter (· ≠ [])

def Context.srcItem (c : Context) (fnam : FileName) : CopySource := ⟨c.optA, c.optB, fnam⟩

/-- The last chain with more sources appended to it. -/
def appendLast (more : List CopySource) : List Chain → List Chain
  | [] => []
  | [h] => [{ h with app := h.app ++ more }]
  | h :: rest => h :: appendLast more rest

/-- `addSource`; `none` for a leading plus. -/
def addSource (p : FileName) (c : Context) : Option Context :=
  let items := (strtok p).map c.srcItem
  if c.appendToFile then
    if c.chains = [] then none
    else some { c with chains := appendLast items c.chains, appendToFile := false }
  else
    match items with
    | [] => some c
    | first :: app => some { c with chains := c.chains ++ [⟨first, app⟩] }

/-- An option behind a source is for that source. -/
def setLastFlags (ascii binary : Bool) : List Chain → List Chain
  | [] => []
  | [h] =>
    match h.app.getLast? with
    | none => [{ h with first := { h.first with ascii := ascii, binary := binary } }]
    | some last => [{ h with app := h.app.dropLast ++ [{ last with ascii := ascii, binary := binary }] }]
  | h :: rest => h :: setLastFlags ascii binary rest

/-- `opt_copy1`: /A or /B, on or off; one of them turns the other off. -/
def Context.option (a on : Bool) (c : Context) : Context :=
  if a then { c with optA := on, optB := c.optB && !on }
  else { c with optB := on, optA := c.optA && !on }

/-- An argument of COPY: an option, or sources. -/
inductive Argument where
  | option (a on : Bool)
  | sources (p : FileName)

/-- One round of the loop over the arguments in `cmd_copy`. -/
def readArgument (arg : Argument) (c : Context) : Option Context :=
  match arg with
  | .option a on =>
    let c1 := c.option a on
    some { c1 with chains := setLastFlags c1.optA c1.optB c1.chains }
  | .sources p =>
    if p.head? = some '+' then
      let rest := p.dropWhile (· == '+')
      if rest = [] then some { c with appendToFile := true }
      else addSource rest { c with appendToFile := true }
    else addSource p c

/-- The arguments, one after the other. -/
def readArguments : List Argument → Context → Option Context
  | [], c => some c
  | arg :: rest, c => (readArgument arg c).bind (readArguments rest)

/-- A destination and the chains that are copied to it. -/
structure Request where
  dest : FileName
  chains : List Chain

/-- The last argument is the destination, if there is more than one; it is not a sum. -/
def Context.request (c : Context) : Option Request :=
  if c.appendToFile then none
  else
    match c.chains with
    | [] => none
    | [h] => some ⟨['.', '\\', '*', '.', '*'], [h]⟩
    | chains =>
      match chains.getLast? with
      | some ⟨last, []⟩ => some ⟨last.fnam, chains.dropLast⟩
      | _ => none

/-- Each name is looked at: that of a directory stands for all files in it, and some are refused. -/
def Chain.mapNames (f : FileName → Option FileName) (h : Chain) : Option Chain := do
  let item (s : CopySource) : Option CopySource := (f s.fnam).map fun n => { s with fnam := n }
  return ⟨← item h.first, ← h.app.mapM item⟩

/-- The arguments of `cmd_copy` as a request; `inDirectory` says what a name stands for. -/
def readRequest (inDirectory : FileName → Option FileName) (args : List Argument)
    (optA optB : Bool) : Option Request := do
  let c ← readArguments args ⟨[], false, optA, optB⟩
  let chains ← c.chains.mapM (Chain.mapNames inDirectory)
  { c with chains := chains }.request

/-- `cmd_copy`; `optA` and `optB` are the options behind the last argument. -/
def cmdCopy (names : Names) (inDirectory : FileName → Option FileName) (args : List Argument)
    (optA optB : Bool) (env : Nat → ChainEnv) (v : Volume) : Copied :=
  match readRequest inDirectory args optA optB with
  | none => ⟨false, v, []⟩
  | some r => copyChains names r.dest env 0 r.chains v

end SdcBoot.FreeCom
