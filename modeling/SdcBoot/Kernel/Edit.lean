/-
# Editing a line (`chario.c`, `read_line`)

A line is put together in `local_buffer`, while the line before, the template, is still in the
buffer of the caller.  Most keys move both cursors, `count` in the new line and `stored_pos` in the
template; both are unsigned, and there are bounds at `count`.

What `read_line` reads of the template and what it writes is noted.  What it shows on the screen is
left out.

F2 and F4 look for a character from `stored_pos` on and take its distance for a position, and DEL
goes on behind the end of the template.  Without these `stored_pos` stays where it belongs
(`line_inside_iff`).
-/
import Mathlib.Data.List.Basic

namespace SdcBoot.Kernel.Edit

open List

/-! ## 1. Keys -/

def CTL_F : UInt16 := 0x06
def BS : UInt16 := 0x08
def LF : UInt16 := 0x0a
def CR : UInt16 := 0x0d
def CTL_Z : UInt16 := 0x1a
def ESC : UInt16 := 0x1b
def CTL_BS : UInt16 := 0x7f
def F1 : UInt16 := 0x3b00
def F2 : UInt16 := 0x3c00
def F3 : UInt16 := 0x3d00
def F4 : UInt16 := 0x3e00
def F5 : UInt16 := 0x3f00
def F6 : UInt16 := 0x4000
def LEFT : UInt16 := 0x4b00
def RIGHT : UInt16 := 0x4d00
def INS : UInt16 := 0x5200
def DEL : UInt16 := 0x5300

/-- What one round reads: the code of a key, and behind F2 and F4 a character. -/
structure Key where
  c : UInt16
  c2 : UInt8
  deriving DecidableEq

/-- The character behind F2 and F4; the second byte of an extended key is skipped. -/
def character (c : UInt16) : List UInt8 → Option (Key × List UInt8)
  | [] => none
  | [c2] => if c2 = 0 then none else some (⟨c, c2⟩, [])
  | c2 :: x :: input => if c2 = 0 then some (⟨c, 0⟩, input) else some (⟨c, c2⟩, x :: input)

def withCharacter (c : UInt16) (input : List UInt8) : Option (Key × List UInt8) :=
  if c = F2 ∨ c = F4 then character c input else some (⟨c, 0⟩, input)

/-- The calls of `read_char_check_break` in one round; an extended key is a zero and a second byte. -/
def readKey : List UInt8 → Option (Key × List UInt8)
  | [] => none
  | [c] => if c = 0 then none else withCharacter c.toUInt16 []
  | c :: x :: input =>
    if c = 0 then withCharacter (x.toUInt16 <<< (8 : UInt16)) input
    else withCharacter c.toUInt16 (x :: input)

/-- The keys up to the first CR, if there is one; a round reads at least one character. -/
def readKeys : Nat → List UInt8 → Option (List Key)
  | 0, _ => none
  | fuel + 1, input =>
    match readKey input with
    | none => none
    | some (k, rest) =>
      if k.c = CR then some [k]
      else
        match readKeys fuel rest with
        | none => none
        | some ks => some (k :: ks)

/-! ## 2. The buffers -/

/-- `struct keyboard` -/
structure Keyboard where
  kb_size : UInt8
  kb_count : UInt8
  kb_buf : Nat → UInt8

/-- What is read of the template, next to the size it has then, and what is written. -/
inductive Access where
  | stored (i stored_size : Nat)
  | kb_buf (i : Nat)
  | local_buffer (i : Nat)
  deriving DecidableEq

/-- An access to the template that is there, and to the bytes of a buffer. -/
def Access.Inside (size : Nat) : Access → Prop
  | .stored i stored_size => i < stored_size ∧ stored_size ≤ size
  | .kb_buf i => i < size
  | .local_buffer i => i < size

instance (size : Nat) (a : Access) : Decidable (a.Inside size) := by
  cases a <;> unfold Access.Inside <;> infer_instance

/-- The variables of `read_line`; the positions are `unsigned`. -/
structure Line where
  kb_buf : Nat → UInt8
  local_buffer : Nat → UInt8
  size : Nat
  count : Nat
  stored_pos : Nat
  stored_size : Nat
  insert : Bool
  accesses : List Access

namespace Line

/-- The template is good only if it ends with a CR. -/
def start (kp : Keyboard) (local_buffer : Nat → UInt8) : Line where
  kb_buf := kp.kb_buf
  local_buffer := local_buffer
  size := kp.kb_size.toNat
  count := 0
  stored_pos := 0
  stored_size := if kp.kb_buf kp.kb_count.toNat = 0x0d then kp.kb_count.toNat else 0
  insert := false
  accesses := []

/-- `local_buffer[count++] = x` -/
def store (x : UInt8) (l : Line) : Line :=
  { l with
    local_buffer := fun i => if i = l.count then x else l.local_buffer i
    count := l.count + 1
    accesses := .local_buffer l.count :: l.accesses }

/-- `local_buffer[count++] = echo_char(kp->kb_buf[stored_pos++])` -/
def echo (l : Line) : Line :=
  { l.store (l.kb_buf l.stored_pos) with
    stored_pos := l.stored_pos + 1
    accesses := .local_buffer l.count :: .stored l.stored_pos l.stored_size :: l.accesses }

/-- The loop of F2 and F3; `stored_pos` is a round nearer to `new_pos` each time. -/
def echoTo (new_pos : Nat) : Nat → Line → Line
  | 0, l => l
  | fuel + 1, l =>
    if l.stored_pos < new_pos ∧ l.count < l.size - 1 then echoTo new_pos fuel l.echo else l

/-- `stored_size - stored_pos`, as the length for `fmemchr`. -/
def rest (l : Line) : Nat := (l.stored_size + 65536 - l.stored_pos) % 65536

/-- `fmemchr` from `stored_pos` on: the distance of the first `c2`. -/
def find (c2 : UInt8) (l : Line) : Option Nat :=
  (List.range l.rest).find? fun j => l.kb_buf (l.stored_pos + j) == c2

/-- What `fmemchr` reads. -/
def scanned (c2 : UInt8) (l : Line) : List Access :=
  (List.range (((l.find c2).map (· + 1)).getD l.rest)).map fun j =>
    .stored (l.stored_pos + j) l.stored_size

/-- The position behind the character, as F2 and F4 have it. -/
def newPos (c2 : UInt8) (l : Line) : Nat :=
  if c2 = 0 then l.stored_pos
  else
    match l.find c2 with
    | none => l.stored_pos
    | some j => j + 1

/-- The search of F2 and F4. -/
def search (c2 : UInt8) (l : Line) : Line :=
  if c2 = 0 then l else { l with accesses := l.scanned c2 ++ l.accesses }

/-- F3, and what F2 and F4 fall through to: F4 does not copy. -/
def moveTo (copy : Bool) (new_pos : Nat) (l : Line) : Line :=
  { (if copy then l.echoTo new_pos new_pos else l) with stored_pos := new_pos }

/-- `fmemcpy(kp->kb_buf, local_buffer, count)` -/
def copyBack (l : Line) : Line :=
  { l with
    kb_buf := fun i => if i < l.count then l.local_buffer i else l.kb_buf i
    accesses := (List.range l.count).map .kb_buf ++ l.accesses }

/-- `start_new_line` -/
def startNewLine (l : Line) : Line := { l with count := 0, stored_pos := 0, insert := false }

/-- LEFT and the backspaces. -/
def back (l : Line) : Line := { l with count := l.count - 1, stored_pos := l.stored_pos - 1 }

/-- Any other key. -/
def type (c : UInt16) (l : Line) : Line :=
  let l1 := if l.count < l.size - 1 ∨ c = CR then l.store c.toUInt8 else l
  if l1.stored_pos < l1.stored_size ∧ l1.insert = false then
    { l1 with stored_pos := l1.stored_pos + 1 }
  else l1

/-- **One round** of `read_line`. -/
def round (k : Key) (l : Line) : Line :=
  if k.c = LF ∨ k.c = CTL_F then l
  else if k.c = RIGHT ∨ k.c = F1 then
    if l.stored_pos < l.stored_size ∧ l.count < l.size - 1 then l.echo else l
  else if k.c = F2 ∨ k.c = F4 then
    (l.search k.c2).moveTo (k.c != F4) (l.newPos k.c2)
  else if k.c = F3 then l.moveTo true l.stored_size
  else if k.c = F5 then { l.copyBack with stored_size := l.count }.startNewLine
  else if k.c = INS then { l with insert := !l.insert }
  else if k.c = DEL then { l with stored_pos := (l.stored_pos + 1) % 65536 }
  else if k.c = LEFT ∨ k.c = CTL_BS ∨ k.c = BS then l.back
  else if k.c = ESC then l.startNewLine
  else if k.c = F6 then l.type CTL_Z
  else l.type k.c

/-- The loop, up to the first CR. -/
def rounds : List Key → Line → Line
  | [], l => l
  | k :: ks, l => if k.c = CR then l.round k else rounds ks (l.round k)

end Line

/-- **`read_line`**, if the input has a CR. -/
def readLine (kp : Keyboard) (local_buffer : Nat → UInt8) (input : List UInt8) : Option Keyboard :=
  if kp.kb_size = 0 then some kp
  else
    match readKeys input.length input with
    | none => none
    | some ks =>
      let l := (Line.rounds ks (Line.start kp local_buffer)).copyBack
      some { kp with kb_buf := l.kb_buf, kb_count := UInt8.ofNat (l.count - 1) }

/-! ## 3. What a round keeps -/

namespace Line

/-- The new line has room for a CR, and the template fits into the buffer. -/
structure Sound (l : Line) : Prop where
  count : l.count < l.size
  stored : l.stored_size < l.size
  byte : l.size < 256

/-- All that was read of the template was there, and all that was written has a place. -/
def Inside (l : Line) : Prop := ∀ a ∈ l.accesses, a.Inside l.size

/-- The size of the buffer stays, and the cursor of the new line too. -/
structure Steps (l l' : Line) : Prop where
  size : l'.size = l.size
  stored : l'.stored_size = l.stored_size
  count : l'.count < l'.size

variable {l : Line} {k : Key}

theorem Steps.sound {l' : Line} (h : l.Sound) (hs : l.Steps l') : l'.Sound where
  count := hs.count
  stored := by
    rw [hs.stored, hs.size]
    exact h.stored
  byte := by
    rw [hs.size]
    exact h.byte

theorem Inside.cons {l' : Line} (h : l.Inside) (hsize : l'.size = l.size) (new : List Access)
    (heq : l'.accesses = new ++ l.accesses) (hnew : ∀ a ∈ new, a.Inside l.size) : l'.Inside := by
  intro a ha
  rw [heq, mem_append] at ha
  rw [hsize]
  exact ha.elim (hnew a) (h a)

theorem Inside.echo (h : l.Inside) (hs : l.Sound) (hpos : l.stored_pos < l.stored_size) :
    l.echo.Inside := by
  refine h.cons rfl [.local_buffer l.count, .stored l.stored_pos l.stored_size] rfl ?_
  intro a ha
  rcases mem_pair.mp ha with rfl | rfl
  · exact hs.count
  · exact ⟨hpos, Nat.le_of_lt hs.stored⟩

/-- The loop keeps all but the cursors, and goes no further than `new_pos`. -/
theorem echoTo_spec (new_pos fuel : Nat) (hs : l.Sound) :
    l.Steps (l.echoTo new_pos fuel) ∧ (l.echoTo new_pos fuel).insert = l.insert ∧
      (l.echoTo new_pos fuel).kb_buf = l.kb_buf ∧
      (new_pos ≤ l.stored_size → l.Inside → (l.echoTo new_pos fuel).Inside) := by
  induction fuel generalizing l with
  | zero => exact ⟨⟨rfl, rfl, hs.count⟩, rfl, rfl, fun _ h => h⟩
  | succ fuel ih =>
    unfold echoTo
    split
    next hmore =>
      have hstep : l.Steps l.echo := ⟨rfl, rfl, by change l.count + 1 < l.size; omega⟩
      obtain ⟨⟨hsize, hstored, hcount⟩, hinsert, hbuf, hinside⟩ := ih (hstep.sound hs)
      exact ⟨⟨hsize, hstored, hcount⟩, hinsert, hbuf, fun hnew h =>
        hinside hnew (h.echo hs (by omega))⟩
    next => exact ⟨⟨rfl, rfl, hs.count⟩, rfl, rfl, fun _ h => h⟩

theorem find_lt {c2 : UInt8} {j : Nat} (h : l.find c2 = some j) : j < l.rest :=
  mem_range.mp (mem_of_find?_eq_some h)

/-- What the search reads is in the template, from a position in it on. -/
theorem Inside.search (h : l.Inside) (hs : l.Sound) (hpos : l.stored_pos ≤ l.stored_size)
    (c2 : UInt8) : (l.search c2).Inside := by
  unfold Line.search
  split
  · exact h
  · refine h.cons rfl (l.scanned c2) rfl fun a ha => ?_
    obtain ⟨j, hj, rfl⟩ := mem_map.mp ha
    have hstored := hs.stored
    have hbyte := hs.byte
    have hrest : l.rest = l.stored_size - l.stored_pos := by
      unfold rest
      omega
    have hlt : j < l.rest := by
      have hj := mem_range.mp hj
      cases hfind : l.find c2 with
      | none =>
        rw [hfind] at hj
        exact hj
      | some i =>
        rw [hfind] at hj
        have := find_lt hfind
        exact Nat.lt_of_lt_of_le hj this
    exact ⟨by omega, by omega⟩

theorem search_fields (l : Line) (c2 : UInt8) : (l.search c2).size = l.size ∧
    (l.search c2).stored_size = l.stored_size ∧ (l.search c2).count = l.count ∧
    (l.search c2).stored_pos = l.stored_pos := by
  unfold search
  split <;> exact ⟨rfl, rfl, rfl, rfl⟩

theorem newPos_le (hs : l.Sound) (hpos : l.stored_pos ≤ l.stored_size) (c2 : UInt8) :
    l.newPos c2 ≤ l.stored_size := by
  unfold newPos
  split
  · exact hpos
  · split
    · exact hpos
    next hfind =>
      have hlt := find_lt hfind
      have hstored := hs.stored
      unfold rest at hlt
      omega

theorem moveTo_spec (copy : Bool) (new_pos : Nat) (hs : l.Sound) :
    l.Steps (l.moveTo copy new_pos) ∧
      (new_pos ≤ l.stored_size → l.Inside → (l.moveTo copy new_pos).Inside) := by
  obtain ⟨⟨hsize, hstored, hcount⟩, -, -, hinside⟩ := echoTo_spec new_pos new_pos hs
  cases copy with
  | false => exact ⟨⟨rfl, rfl, hs.count⟩, fun _ h => h⟩
  | true => exact ⟨⟨hsize, hstored, hcount⟩, hinside⟩

/-- `type` writes one character at most; behind a CR the line may be full. -/
theorem type_spec (c : UInt16) (hs : l.Sound) :
    (l.type c).size = l.size ∧ (l.type c).stored_size = l.stored_size ∧
      (c ≠ CR → (l.type c).count < l.size) ∧ (l.Inside → (l.type c).Inside) ∧
      (l.stored_pos ≤ l.stored_size → (l.type c).stored_pos ≤ l.stored_size) := by
  have hstore : l.Inside → (l.store c.toUInt8).Inside := by
    intro h
    refine h.cons rfl [.local_buffer l.count] rfl fun a ha => ?_
    rw [mem_singleton.mp ha]
    exact hs.count
  have hcount := hs.count
  unfold type
  dsimp only
  by_cases hroom : l.count < l.size - 1 ∨ c = CR
  · rw [if_pos hroom]
    have hlt : c ≠ CR → l.count + 1 < l.size := fun hc => by
      have := hroom.resolve_right hc
      omega
    split
    next hadv => exact ⟨rfl, rfl, hlt, hstore, fun _ => hadv.1⟩
    next => exact ⟨rfl, rfl, hlt, hstore, id⟩
  · rw [if_neg hroom]
    split
    next hadv => exact ⟨rfl, rfl, fun _ => hcount, fun h => h, fun _ => hadv.1⟩
    next => exact ⟨rfl, rfl, fun _ => hcount, fun h => h, id⟩

/-- **Any round** keeps the buffers in order; only a CR may fill the line. -/
theorem round_sound (k : Key) (hs : l.Sound) :
    (l.round k).size = l.size ∧ (l.round k).stored_size < l.size ∧
      (k.c ≠ CR → (l.round k).count < l.size) := by
  have hcount := hs.count
  have hstored := hs.stored
  have hsteps : ∀ {l' : Line}, l.Steps l' → l'.size = l.size ∧ l'.stored_size < l.size ∧
      (k.c ≠ CR → l'.count < l.size) := by
    intro l' h
    have hlt := h.count
    rw [h.size] at hlt
    exact ⟨h.size, by rw [h.stored]; exact hstored, fun _ => hlt⟩
  generalize hround : l.round k = l'
  rcases ite_eq_iff.mp hround with ⟨-, rfl⟩ | ⟨-, hround⟩
  · exact hsteps ⟨rfl, rfl, hcount⟩
  rcases ite_eq_iff.mp hround with ⟨-, hone⟩ | ⟨-, hround⟩
  · rcases ite_eq_iff.mp hone with ⟨hroom, rfl⟩ | ⟨-, rfl⟩
    · have hnext : l.echo.count < l.echo.size := by
        change l.count + 1 < l.size
        omega
      exact hsteps ⟨rfl, rfl, hnext⟩
    · exact hsteps ⟨rfl, rfl, hcount⟩
  rcases ite_eq_iff.mp hround with ⟨-, rfl⟩ | ⟨-, hround⟩
  · obtain ⟨hsize, hst, hc, -⟩ := search_fields l k.c2
    have hs' : (l.search k.c2).Sound :=
      ⟨by rw [hc, hsize]; exact hcount, by rw [hst, hsize]; exact hstored, by rw [hsize]; exact hs.byte⟩
    obtain ⟨hmove, -⟩ := moveTo_spec (k.c != F4) (l.newPos k.c2) hs'
    exact hsteps ⟨hmove.size.trans hsize, hmove.stored.trans hst, hmove.count⟩
  have hpos : 0 < l.size := Nat.zero_lt_of_lt hcount
  rcases ite_eq_iff.mp hround with ⟨-, rfl⟩ | ⟨-, hround⟩
  · exact hsteps (moveTo_spec true l.stored_size hs).1
  rcases ite_eq_iff.mp hround with ⟨-, rfl⟩ | ⟨-, hround⟩
  · exact ⟨rfl, hcount, fun _ => hpos⟩
  rcases ite_eq_iff.mp hround with ⟨-, rfl⟩ | ⟨-, hround⟩
  · exact hsteps ⟨rfl, rfl, hcount⟩
  rcases ite_eq_iff.mp hround with ⟨-, rfl⟩ | ⟨-, hround⟩
  · exact hsteps ⟨rfl, rfl, hcount⟩
  rcases ite_eq_iff.mp hround with ⟨-, rfl⟩ | ⟨-, hround⟩
  · exact hsteps ⟨rfl, rfl, Nat.lt_of_le_of_lt (Nat.sub_le l.count 1) hcount⟩
  rcases ite_eq_iff.mp hround with ⟨-, rfl⟩ | ⟨-, hround⟩
  · exact hsteps ⟨rfl, rfl, hpos⟩
  rcases ite_eq_iff.mp hround with ⟨-, rfl⟩ | ⟨-, rfl⟩
  · obtain ⟨hsize, hst, hlt, -, -⟩ := type_spec CTL_Z hs
    exact ⟨hsize, by rw [hst]; exact hstored, fun _ => hlt (by decide)⟩
  · obtain ⟨hsize, hst, hlt, -, -⟩ := type_spec k.c hs
    exact ⟨hsize, by rw [hst]; exact hstored, hlt⟩

/-- What is asked of a round: accesses inside, `stored_pos` in the template, and no way back for F2
and F4. -/
structure Proper (k : Key) (l : Line) : Prop where
  inside : (l.round k).Inside
  position : (l.round k).stored_pos ≤ (l.round k).stored_size
  forwards : k.c = F2 ∨ k.c = F4 → l.stored_pos ≤ (l.round k).stored_pos

/-- DEL is not at the end of the template, and the character of F2 and F4 is not nearer to
`stored_pos` than the start is. -/
structure Good (k : Key) (l : Line) : Prop where
  delete : k.c = DEL → l.stored_pos < l.stored_size
  search : k.c = F2 ∨ k.c = F4 → l.stored_pos ≤ l.newPos k.c2

/-- The other keys do nothing wrong. -/
theorem round_plain (hs : l.Sound) (hpos : l.stored_pos ≤ l.stored_size) (h : l.Inside)
    (hsearch : ¬ (k.c = F2 ∨ k.c = F4)) (hdel : k.c ≠ DEL) :
    (l.round k).Inside ∧ (l.round k).stored_pos ≤ (l.round k).stored_size := by
  generalize hround : l.round k = l'
  rcases ite_eq_iff.mp hround with ⟨-, rfl⟩ | ⟨-, hround⟩
  · exact ⟨h, hpos⟩
  rcases ite_eq_iff.mp hround with ⟨-, hone⟩ | ⟨-, hround⟩
  · rcases ite_eq_iff.mp hone with ⟨hroom, rfl⟩ | ⟨-, rfl⟩
    · exact ⟨h.echo hs hroom.1, hroom.1⟩
    · exact ⟨h, hpos⟩
  rcases ite_eq_iff.mp hround with ⟨hkey, -⟩ | ⟨-, hround⟩
  · exact absurd hkey hsearch
  rcases ite_eq_iff.mp hround with ⟨-, rfl⟩ | ⟨-, hround⟩
  · obtain ⟨hmove, hinside⟩ := moveTo_spec true l.stored_size hs
    refine ⟨hinside (Nat.le_refl _) h, ?_⟩
    rw [hmove.stored]
    exact Nat.le_refl l.stored_size
  rcases ite_eq_iff.mp hround with ⟨-, rfl⟩ | ⟨-, hround⟩
  · refine ⟨h.cons rfl ((List.range l.count).map .kb_buf) rfl fun a ha => ?_, Nat.zero_le l.count⟩
    obtain ⟨i, hi, rfl⟩ := mem_map.mp ha
    exact Nat.lt_trans (mem_range.mp hi) hs.count
  rcases ite_eq_iff.mp hround with ⟨-, rfl⟩ | ⟨-, hround⟩
  · exact ⟨h, hpos⟩
  rcases ite_eq_iff.mp hround with ⟨hkey, -⟩ | ⟨-, hround⟩
  · exact absurd hkey hdel
  rcases ite_eq_iff.mp hround with ⟨-, rfl⟩ | ⟨-, hround⟩
  · exact ⟨h, Nat.le_trans (Nat.sub_le l.stored_pos 1) hpos⟩
  rcases ite_eq_iff.mp hround with ⟨-, rfl⟩ | ⟨-, hround⟩
  · exact ⟨h, Nat.zero_le l.stored_size⟩
  rcases ite_eq_iff.mp hround with ⟨-, rfl⟩ | ⟨-, rfl⟩
  · obtain ⟨-, hst, -, hinside, hp⟩ := type_spec CTL_Z hs
    exact ⟨hinside h, by rw [hst]; exact hp hpos⟩
  · obtain ⟨-, hst, -, hinside, hp⟩ := type_spec k.c hs
    exact ⟨hinside h, by rw [hst]; exact hp hpos⟩

theorem round_delete (hk : k.c = DEL) (l : Line) :
    l.round k = { l with stored_pos := (l.stored_pos + 1) % 65536 } := by
  unfold round
  rw [hk]
  rfl

theorem round_search (hk : k.c = F2 ∨ k.c = F4) (l : Line) :
    l.round k = (l.search k.c2).moveTo (k.c != F4) (l.newPos k.c2) := by
  unfold round
  rcases hk with hk | hk <;> rw [hk] <;> rfl

/-- **One round**, from a position in the template. -/
theorem proper_iff_good (k : Key) (hs : l.Sound) (hpos : l.stored_pos ≤ l.stored_size)
    (h : l.Inside) : Proper k l ↔ Good k l := by
  have hstored := hs.stored
  have hbyte := hs.byte
  by_cases hsearch : k.c = F2 ∨ k.c = F4
  · have hdel : k.c ≠ DEL := by
      rcases hsearch with hk | hk <;> rw [hk] <;> decide
    obtain ⟨hsize, hst, hc, -⟩ := search_fields l k.c2
    have hs' : (l.search k.c2).Sound :=
      ⟨by rw [hc, hsize]; exact hs.count, by rw [hst, hsize]; exact hstored, by rw [hsize]; exact hbyte⟩
    obtain ⟨hmove, hinside⟩ := moveTo_spec (k.c != F4) (l.newPos k.c2) hs'
    have hnew := newPos_le hs hpos k.c2
    rw [← hst] at hnew
    constructor
    · intro hp
      refine ⟨fun hk => absurd hk hdel, fun _ => ?_⟩
      have := hp.forwards hsearch
      rw [round_search hsearch] at this
      exact this
    · intro hg
      refine ⟨?_, ?_, fun _ => ?_⟩
      · rw [round_search hsearch]
        exact hinside hnew (h.search hs hpos k.c2)
      · rw [round_search hsearch, hmove.stored]
        exact hnew
      · rw [round_search hsearch]
        exact hg.search hsearch
  · by_cases hdel : k.c = DEL
    · constructor
      · intro hp
        refine ⟨fun _ => ?_, fun hk => absurd hk hsearch⟩
        have hend := hp.position
        rw [round_delete hdel] at hend
        have hend : (l.stored_pos + 1) % 65536 ≤ l.stored_size := hend
        omega
      · intro hg
        have hlt := hg.delete hdel
        refine ⟨?_, ?_, fun hk => absurd hk hsearch⟩
        · rw [round_delete hdel]
          exact h
        · rw [round_delete hdel]
          change (l.stored_pos + 1) % 65536 ≤ l.stored_size
          omega
    · obtain ⟨hinside, hend⟩ := round_plain hs hpos h hsearch hdel
      exact iff_of_true ⟨hinside, hend, fun hk => absurd hk hsearch⟩
        ⟨fun hk => absurd hk hdel, fun hk => absurd hk hsearch⟩

/-! ## 4. All rounds -/

/-- A property of each round, up to the first CR. -/
def Rounds (P : Key → Line → Prop) : List Key → Line → Prop
  | [], _ => True
  | k :: ks, l => P k l ∧ (k.c ≠ CR → Rounds P ks (l.round k))

instance (k : Key) (l : Line) : Decidable (Good k l) :=
  decidable_of_iff ((k.c = DEL → l.stored_pos < l.stored_size) ∧
      (k.c = F2 ∨ k.c = F4 → l.stored_pos ≤ l.newPos k.c2))
    ⟨fun h => ⟨h.1, h.2⟩, fun h => ⟨h.1, h.2⟩⟩

instance Rounds.decidable (P : Key → Line → Prop) [∀ k l, Decidable (P k l)] :
    ∀ ks l, Decidable (Rounds P ks l)
  | [], _ => isTrue trivial
  | k :: ks, l =>
    have := Rounds.decidable P ks
    inferInstanceAs (Decidable (P k l ∧ (_ → Rounds P ks (l.round k))))

/-- **All rounds** are proper exactly if all keys are good. -/
theorem rounds_proper_iff (ks : List Key) (hs : l.Sound) (hpos : l.stored_pos ≤ l.stored_size)
    (h : l.Inside) : Rounds Proper ks l ↔ Rounds Good ks l := by
  induction ks generalizing l with
  | nil => exact Iff.rfl
  | cons k ks ih =>
    have hone := proper_iff_good k hs hpos h
    obtain ⟨hsize, hstored, hcount⟩ := round_sound k hs
    have hnext : Proper k l → k.c ≠ CR →
        (Rounds Proper ks (l.round k) ↔ Rounds Good ks (l.round k)) := by
      intro hp hcr
      refine ih ⟨?_, ?_, ?_⟩ hp.position hp.inside
      · rw [hsize]
        exact hcount hcr
      · rw [hsize]
        exact hstored
      · rw [hsize]
        exact hs.byte
    constructor
    · rintro ⟨hp, hrest⟩
      exact ⟨hone.mp hp, fun hcr => (hnext hp hcr).mp (hrest hcr)⟩
    · rintro ⟨hg, hrest⟩
      exact ⟨hone.mpr hg, fun hcr => (hnext (hone.mpr hg) hcr).mpr (hrest hcr)⟩

/-- A line that is ended by a CR. -/
structure Ended (size : Nat) (l : Line) : Prop where
  some : 0 < l.count
  room : l.count ≤ size
  last : l.local_buffer (l.count - 1) = 0x0d

theorem round_cr (hk : k.c = CR) (hs : l.Sound) : Ended l.size (l.round k) := by
  have hround : l.round k = l.type CR := by
    unfold round
    rw [hk]
    rfl
  have hended : Ended l.size (l.store CR.toUInt8) :=
    ⟨Nat.succ_pos _, hs.count, if_pos rfl⟩
  rw [hround]
  unfold type
  dsimp only
  rw [if_pos (show l.count < l.size - 1 ∨ CR = CR from .inr rfl)]
  split
  · exact ⟨hended.some, hended.room, hended.last⟩
  · exact hended

theorem rounds_ended {ks : List Key} (hcr : ∃ k ∈ ks, k.c = CR) (hs : l.Sound) :
    Ended l.size (rounds ks l) := by
  induction ks generalizing l with
  | nil =>
    obtain ⟨k, hk, -⟩ := hcr
    cases hk
  | cons k ks ih =>
    unfold rounds
    split
    next hk => exact round_cr hk hs
    next hk =>
      obtain ⟨hsize, hstored, hcount⟩ := round_sound k hs
      have hrest : ∃ k ∈ ks, k.c = CR := by
        obtain ⟨k', hmem, hk'⟩ := hcr
        rcases mem_cons.mp hmem with rfl | hmem
        · exact absurd hk' hk
        · exact ⟨k', hmem, hk'⟩
      rw [← hsize]
      refine ih hrest ⟨?_, ?_, ?_⟩
      · rw [hsize]
        exact hcount hk
      · rw [hsize]
        exact hstored
      · rw [hsize]
        exact hs.byte

end Line

theorem start_sound {kp : Keyboard} (hcount : kp.kb_count.toNat < kp.kb_size.toNat)
    (local_buffer : Nat → UInt8) : (Line.start kp local_buffer).Sound := by
  refine ⟨Nat.zero_lt_of_lt hcount, ?_, kp.kb_size.toNat_lt⟩
  change (if _ then _ else _ : Nat) < _
  split
  · exact hcount
  · exact Nat.zero_lt_of_lt hcount

theorem readKeys_cr (fuel : Nat) {input : List UInt8} {ks : List Key}
    (h : readKeys fuel input = some ks) : ∃ k ∈ ks, k.c = CR := by
  induction fuel generalizing input ks with
  | zero => cases h
  | succ fuel ih =>
    unfold readKeys at h
    cases hread : readKey input with
    | none =>
      rw [hread] at h
      cases h
    | some r =>
      rw [hread] at h
      dsimp only at h
      split at h
      next hcr =>
        cases h
        exact ⟨r.1, mem_singleton_self r.1, hcr⟩
      next =>
        cases hrest : readKeys fuel r.2 with
        | none =>
          rw [hrest] at h
          cases h
        | some rest =>
          rw [hrest] at h
          cases h
          obtain ⟨k, hk, hcr⟩ := ih hrest
          exact ⟨k, mem_cons_of_mem r.1 hk, hcr⟩

/-- **The line editor stays inside its buffers exactly if** DEL is not typed at the end of the
template, and the character behind F2 and F4 is at least as far from `stored_pos` as that is from the
start.  The line that comes back ends with a CR and fits in any case. -/
theorem line_inside_iff (kp : Keyboard) (local_buffer : Nat → UInt8) (input : List UInt8)
    (ks : List Key) (hsize : 1 ≤ kp.kb_size.toNat) (hcount : kp.kb_count.toNat < kp.kb_size.toNat)
    (hkeys : readKeys input.length input = some ks) :
    (Line.Rounds Line.Proper ks (Line.start kp local_buffer) ∧
      (Line.rounds ks (Line.start kp local_buffer)).count ≤ kp.kb_size.toNat ∧
      ∃ kp', readLine kp local_buffer input = some kp' ∧ kp'.kb_size = kp.kb_size ∧
        kp'.kb_count.toNat + 1 ≤ kp.kb_size.toNat ∧ kp'.kb_buf kp'.kb_count.toNat = 0x0d) ↔
      Line.Rounds Line.Good ks (Line.start kp local_buffer) := by
  have hs := start_sound hcount local_buffer
  have hended := Line.rounds_ended (readKeys_cr _ hkeys) hs
  have hproper := Line.rounds_proper_iff ks hs (Nat.zero_le _) (by intro a ha; cases ha)
  rw [hproper]
  refine and_iff_left ⟨hended.room, ?_⟩
  have hne : kp.kb_size ≠ 0 := by
    intro h
    rw [h] at hsize
    cases hsize
  unfold readLine
  rw [if_neg hne, hkeys]
  refine ⟨_, rfl, rfl, ?_⟩
  have hsome := hended.some
  have hroom : (Line.rounds ks (Line.start kp local_buffer)).count ≤ kp.kb_size.toNat := hended.room
  have hbyte := kp.kb_size.toNat_lt
  have hlast := hended.last
  generalize Line.rounds ks (Line.start kp local_buffer) = l at hsome hroom hlast ⊢
  have hnat : (UInt8.ofNat (l.copyBack.count - 1)).toNat = l.count - 1 :=
    UInt8.toNat_ofNat_of_lt' (show l.count - 1 < 256 by omega)
  refine ⟨by dsimp only; rw [hnat]; omega, ?_⟩
  dsimp only
  rw [hnat]
  exact (if_pos (show l.count - 1 < l.count by omega)).trans hlast

/-- The template `abcd`. -/
def fourLetters : Keyboard := ⟨9, 4, fun i => if i = 4 then 0x0d else 0x61 + UInt8.ofNat i⟩

/-- F2 copies up to the `b`, DEL passes the `c` over, F3 copies the rest, and `e` is typed: `abde`. -/
theorem line_inside_character :
    ∃ ks, readKeys 9 [0, 0x3c, 0x62, 0, 0x53, 0, 0x3d, 0x65, 0x0d] = some ks ∧
      Line.Rounds Line.Proper ks (Line.start fourLetters fun _ => 0) ∧
      (readLine fourLetters (fun _ => 0) [0, 0x3c, 0x62, 0, 0x53, 0, 0x3d, 0x65, 0x0d]).map
        (fun kp => (List.range 5).map kp.kb_buf) = some [0x61, 0x62, 0x64, 0x65, 0x0d] := by
  have hinside := (line_inside_iff fourLetters (fun _ => 0)
    [0, 0x3c, 0x62, 0, 0x53, 0, 0x3d, 0x65, 0x0d] [⟨F2, 0x62⟩, ⟨DEL, 0⟩, ⟨F3, 0⟩, ⟨0x65, 0⟩, ⟨CR, 0⟩]
    (by decide) (by decide) (by decide)).mpr (by decide +kernel)
  exact ⟨_, by decide, hinside.1, by decide +kernel⟩

/-- DEL without a template; and F2 with the `a` that is next to be copied, behind one character. -/
theorem line_not_inside :
    (∃ ks, readKeys 3 [0, 0x53, 0x0d] = some ks ∧
      ¬ Line.Rounds Line.Proper ks (Line.start ⟨4, 0, fun _ => 0x0d⟩ fun _ => 0)) ∧
    ∃ ks, readKeys 8 [0, 0x3b, 0, 0x3b, 0, 0x3c, 0x61, 0x0d] = some ks ∧
      ¬ Line.Rounds Line.Proper ks
        (Line.start ⟨9, 3, fun i => if i = 3 then 0x0d else 0x61⟩ fun _ => 0) := by
  refine ⟨⟨[⟨DEL, 0⟩, ⟨CR, 0⟩], by decide, fun h => ?_⟩,
    [⟨F1, 0⟩, ⟨F1, 0⟩, ⟨F2, 0x61⟩, ⟨CR, 0⟩], by decide, fun h => ?_⟩
  · exact nomatch h.1.position
  · have hthird := (h.2 (by decide)).2 (by decide)
    exact nomatch hthird.1.forwards (.inl rfl)

end SdcBoot.Kernel.Edit
