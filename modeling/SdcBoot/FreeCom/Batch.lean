/-
# The stack of batch contexts (`batch.c`, `goto.c`, `for.c`, `call.c`)

A context belongs to a batch file that is read, to a FOR command that is carried out, or, while CALL
runs its command, to nobody yet.  Contexts are pushed by `batch`, `doFOR` and `cmd_call`, and popped
by `exit_batch` and `cmd_call`.

Blocks of memory are named by numbers in the order in which they are given out; what is passed to
`free`, and the files that are closed, are listed in order.  A context is its block and what it
points to; a parameter list counts as one block.  `fault` says that a null pointer was followed or
given to `fopen`.

The texts a FOR expands to and the positions in the files are left out; what the allocations, the
file system and the user answer is given with each operation.
-/
import SdcBoot.FreeCom.Redirect
import SdcBoot.Lib.Run

namespace SdcBoot.FreeCom

/-! ## 1. Contexts -/

/-- struct bcontext. -/
structure BContext where
  block : Nat
  bfile : Option Nat
  bfnam : Option Nat
  bfirst : Option Nat
  forproto : Option Nat
  forvar : Option Nat
  params : Option Nat
  blabel : Option Nat
  ffind : Option Nat
  /-- the text at `blabel` -/
  label : List Char
  blinecnt : Nat
  shiftlevel : Nat
  numParams : Nat
  echo : Bool
  bclose : Bool
  brewind : Bool
  deriving DecidableEq

/-- initBatchContext -/
def initBatchContext (block : Nat) : BContext where
  block := block
  bfile := none
  bfnam := none
  bfirst := none
  forproto := none
  forvar := none
  params := none
  blabel := none
  ffind := none
  label := []
  blinecnt := 0
  shiftlevel := 0
  numParams := 0
  echo := false
  bclose := false
  brewind := true

/-- What `clearBatchContext` frees, in its order. -/
def BContext.strings (c : BContext) : List Nat :=
  c.bfnam.toList ++ c.bfirst.toList ++ c.blabel.toList ++ c.ffind.toList ++ c.forproto.toList ++
    c.forvar.toList ++ c.params.toList

/-- The contexts (`bc` and what follows by `prev`), the echo flag, and the account of blocks and
files. -/
structure Contexts where
  bc : List BContext
  echo : Bool
  blocks : Nat
  freed : List Nat
  files : Nat
  closed : List Nat
  fault : Bool
  deriving DecidableEq

namespace Contexts

/-- A block is given out; its name is the number of the blocks before it. -/
def alloc (s : Contexts) : Contexts := { s with blocks := s.blocks + 1 }

/-- free -/
def free (s : Contexts) (bs : List Nat) : Contexts := { s with freed := s.freed ++ bs }

/-- A change of the context on top. -/
def setTop (s : Contexts) (f : BContext → BContext) : Contexts :=
  match s.bc with
  | [] => s
  | c :: rest => { s with bc := f c :: rest }

/-- clearBatchContext -/
def clearBatchContext (s : Contexts) (c : BContext) : Contexts :=
  { s with freed := s.freed ++ c.strings, closed := s.closed ++ c.bfile.toList }

/-- exit_batch -/
def exitBatch (s : Contexts) : Contexts :=
  match s.bc with
  | [] => s
  | c :: rest => { (s.clearBatchContext c).free [c.block] with echo := c.echo, bc := rest }

/-- newBatchContext -/
def newBatchContext (s : Contexts) (ok : Bool) : Bool × Contexts :=
  if ok then (true, { s.alloc with bc := { initBatchContext s.blocks with echo := s.echo } :: s.bc })
  else (false, s)

/-- Kill any and all FOR contexts on top of `cs`. -/
def killForFrom : List BContext → Contexts → Contexts
  | [], s => s
  | c :: rest, s => if c.forvar.isSome then killForFrom rest s.exitBatch else s

/-- `while (bc && bc->forvar) exit_batch();` -/
def killFor (s : Contexts) : Contexts := killForFrom s.bc s

end Contexts

/-! ## 2. The commands -/

/-- What a start of a batch file meets: whether `abspath` has a path, `newBatchContext` and `strdup`
memory, and how many parameters `split` finds, none where it has no memory. -/
structure BatchCall where
  abspath : Bool
  context : Bool
  bfirst : Bool
  params : Option Nat
  deriving DecidableEq

/-- GOTO: the label and whether `strdup` has memory for it. -/
structure GotoCall where
  label : List Char
  strdup : Bool
  deriving DecidableEq

/-- FOR: whether `expandEnvVars` has room, `newBatchContext` and the two `strdup`s have memory, and
the number of list elements. -/
structure ForCall where
  expands : Bool
  context : Bool
  forproto : Bool
  forvar : Bool
  params : Option Nat
  deriving DecidableEq

/-- A command, as far as the contexts go. -/
inductive Command where
  | other
  | echo (on : Bool)
  | batch (a : BatchCall)
  | goto (a : GotoCall)
  | doFor (a : ForCall)
  /-- CALL, whose context can be had and whose options are right -/
  | call (context options : Bool) (c : Command)
  deriving DecidableEq

namespace Contexts

/-- The end of `batch`: the context on top is given its strings. -/
def startBatch (s : Contexts) (a : BatchCall) (fullname : Nat) : Contexts :=
  let s := s.setTop fun c => { c with bfnam := some fullname }
  if a.bfirst then
    let s := s.alloc.setTop fun c => { c with bfirst := some s.blocks }
    match a.params with
    | some n => s.alloc.setTop fun c => { c with params := some s.blocks, numParams := n }
    | none => s.exitBatch
  else s.exitBatch

/-- batch -/
def batch (s : Contexts) (a : BatchCall) : Contexts :=
  if a.abspath then
    let fullname := s.blocks
    let s := s.alloc.killFor
    match s.bc with
    | [] =>
      match s.newBatchContext a.context with
      | (false, s) => s.free [fullname]
      | (true, s) => s.startBatch a fullname
    | c :: rest =>
      -- transferring to another batch: the context is used again
      let s := s.clearBatchContext c
      startBatch { s with bc := { initBatchContext c.block with echo := c.echo } :: rest } a fullname
  else s

/-- cmd_goto, whose parameter begins with the label. -/
def cmdGoto (s : Contexts) (a : GotoCall) : Contexts :=
  let s := s.killFor
  if s.bc = [] then s
  else if a.label = [] then s.exitBatch
  else if a.strdup then
    s.alloc.setTop fun c => { c with brewind := true, blabel := some s.blocks, label := a.label }
  else s

/-- doFOR -/
def doFOR (s : Contexts) (a : ForCall) : Contexts :=
  if a.expands then
    match s.newBatchContext a.context with
    | (false, s) => s
    | (true, s) =>
      if a.forproto then
        let s := s.alloc.setTop fun c => { c with forproto := some s.blocks }
        if a.forvar then
          let s := s.alloc.setTop fun c => { c with forvar := some s.blocks }
          match a.params with
          | some n =>
            s.alloc.setTop fun c =>
              { c with params := some s.blocks, numParams := n, shiftlevel := 1 }
          | none => s.exitBatch
        else s.exitBatch
      else s.exitBatch
  else s

/-- The end of `cmd_call`, whose context is in block `n`. -/
def endCall (n : Nat) (s : Contexts) : Contexts :=
  match s.bc with
  | [] => { s with fault := true }
  | b :: rest =>
    -- Wasn't a batch file so remove context
    if b.bfile.isNone ∧ b.bfnam.isNone then { s.free [n] with bc := rest } else s

/-- A command is run. -/
def command (s : Contexts) : Command → Contexts
  | .other => s
  | .echo on => { s with echo := on }
  | .batch a => s.batch a
  | .goto a => s.cmdGoto a
  | .doFor a => s.doFOR a
  | .call context options c =>
    -- cmd_call
    match s.newBatchContext context with
    | (false, s') => s'
    | (true, s') =>
      if options then endCall s.blocks (s'.command c)
      else s'

end Contexts

/-! ## 3. Reading a line -/

/-- What one round of the loop of `readbatchline` meets. -/
structure ReadEvent where
  cbreak : Bool
  wild : Bool
  findBlock : Bool
  finds : Bool
  opens : Bool
  fsetpos : Bool
  line : Option (List Char)
  tooLong : Bool
  deriving DecidableEq

/-- A line to execute, and whether it is to be echoed. -/
inductive Line where
  | forCommand (eflag : Bool)
  | text (eflag : Bool) (line : List Char)
  deriving DecidableEq

/-- The end of a round: `continue`, or `break` with a line or without. -/
inductive Round where
  | next (s : Contexts)
  | stop (first : Option Line) (s : Contexts)
  deriving DecidableEq

/-- isgraph -/
def isgraph (c : Char) : Bool := decide (33 ≤ c.toNat) && decide (c.toNat ≤ 126)

/-- stricmp finds no difference. -/
def sameLabel (a b : List Char) : Bool := a.map Char.toLower == b.map Char.toLower

/-- The next list element or file of a FOR. -/
def forRound (e : ReadEvent) (c : BContext) (s : Contexts) : Round :=
  if e.cbreak ∨ c.shiftlevel > c.numParams then .next s.exitBatch
  else
    match c.ffind with
    | some b =>
      if e.finds then .stop (some (.forCommand s.echo)) s
      else .next ((s.free [b]).setTop fun c =>
        { c with ffind := none, shiftlevel := c.shiftlevel + 1 })
    | none =>
      if ¬e.wild then
        .stop (some (.forCommand s.echo))
          (s.setTop fun c => { c with shiftlevel := c.shiftlevel + 1 })
      else if ¬e.findBlock then .stop none s.exitBatch
      else if e.finds then
        .stop (some (.forCommand s.echo)) (s.alloc.setTop fun c => { c with ffind := some s.blocks })
      else .next ((s.alloc.free [s.blocks]).setTop fun c => { c with shiftlevel := c.shiftlevel + 1 })

/-- What is done with a line of a batch file. -/
def lineRound (text : List Char) (c : BContext) (s : Contexts) : Round :=
  let text := (text.reverse.dropWhile fun x => x == '\n' || x == '\r').reverse
  let first := ltrimcl text
  let eflag := if first.head? = some '@' then false else s.echo
  let first := if first.head? = some '@' then ltrimcl (first.drop 1) else first
  if first = [] then .next s
  else if first.head? = some ':' then
    match c.blabel with
    | some b =>
      if sameLabel ((first.drop 1).takeWhile isgraph) c.label then
        .next ((s.free [b]).setTop fun c => { c with blabel := none })
      else .next s
    | none => .next s
  else if c.blabel.isSome then .next s
  else .stop (some (.text eflag first)) s

/-- The file is open and at its place: the next line is read. -/
def fileRound (e : ReadEvent) (c : BContext) (s : Contexts) : Round :=
  let s := s.setTop fun c => { c with blinecnt := c.blinecnt + 1 }
  match e.line with
  | some text => if e.cbreak ∨ e.tooLong then .next s.exitBatch else lineRound text c s
  | none => .next s.exitBatch

/-- The next line of a batch file. -/
def batchRound (e : ReadEvent) (c : BContext) (s : Contexts) : Round :=
  if c.bfile.isNone then
    let s := { s with fault := s.fault || c.bfnam.isNone }
    if ¬e.opens then .next s.exitBatch
    else
      let s := { s with files := s.files + 1 }.setTop fun c =>
        { c with bfile := some s.files, bclose := true }
      if c.brewind then
        fileRound e c (s.setTop fun c => { c with brewind := false, blinecnt := 0 })
      else if ¬e.fsetpos then .next s.exitBatch
      else fileRound e c s
  else if c.brewind then fileRound e c (s.setTop fun c => { c with brewind := false, blinecnt := 0 })
  else fileRound e c s

/-- The end of `readbatchline`: a file that was opened temporarily is closed. -/
def closeBatchFile (s : Contexts) : Contexts :=
  match s.bc with
  | [] => s
  | c :: rest =>
    if c.bclose then
      { s with
        closed := s.closed ++ c.bfile.toList
        bc := { c with bfile := none, bclose := false } :: rest }
    else s

/-- readbatchline, from a list of what its rounds meet; no result where that is not enough. -/
def readbatchline : List ReadEvent → Contexts → Option (Option Line × Contexts)
  | es, s =>
    match s.bc, es with
    | [], _ => some (none, s)
    | _ :: _, [] => none
    | c :: _, e :: es =>
      match if c.forvar.isSome then forRound e c s else batchRound e c s with
      | .next s => readbatchline es s
      | .stop first s => some (first, closeBatchFile s)
  termination_by structural es => es

/-! ## 4. Runs -/

/-- What happens to the contexts. -/
inductive ContextOp where
  | command (c : Command)
  | read (es : List ReadEvent)
  deriving DecidableEq

/-- A read whose list of rounds is too short has not come back; it is not part of the run. -/
def contextStep (s : Contexts) : ContextOp → Option Line × Contexts
  | .command c => (none, s.command c)
  | .read es => (readbatchline es s).getD (none, s)

/-- No batch file is active. -/
def Contexts.idle (echo : Bool) : Contexts := ⟨[], echo, 0, [], 0, [], false⟩

end SdcBoot.FreeCom
