/-
# Swapping parts of a buffer (`bufshift.c`)

`SwapBufferParts` copies the three parts in their new order where there is memory for them.  Without,
two rotations bring the parts to the same length and back, and `SwapBuffer` swaps them; each of these
does its work byte by byte where there is no memory either.

The rotations take the difference of the lengths as an `int`, which has 16 bits here.  From 0x8000 on
it is negative.  The offsets come out right all the same, modulo 0x10000, but the loop over the bytes
does not run.
-/
import Mathlib.Data.List.Induction
import Mathlib.Logic.Function.Iterate

namespace SdcBoot.Defrag

open List

variable {α : Type}

/-! ## 1. The buffer -/

/-- The `n` bytes at `p`. -/
def readAt (buf : List α) (p n : Nat) : List α := (buf.drop p).take n

/-- `memcpy` and `memmove` to `p`, of bytes that have been read. -/
def writeAt (buf : List α) (p : Nat) (bytes : List α) : List α :=
  buf.take p ++ bytes ++ buf.drop (p + bytes.length)

/-- An `unsigned` as an `int`. -/
def asInt (n : Nat) : Int := if n < 0x8000 then n else n - 0x10000

/-- An offset or a `size_t` that was computed with an `int`. -/
def word (n : Int) : Nat := (n % 0x10000).toNat

/-- What both rotations do: with memory the work of `turn` at once, else byte by byte. -/
def rotateBuf (malloc : Bool) (turn : Int → List α → List α) (n : Int) (buf : List α) : List α :=
  if n = 0 then buf
  else if n ≠ 1 ∧ malloc then turn n buf
  else (turn 1)^[n.toNat] buf

/-- The last `n` bytes go to the front. -/
def rotateRightBy (first stop : Nat) (n : Int) (buf : List α) : List α :=
  let kept := readAt buf (word (stop - n)) (word n)
  let buf := writeAt buf (word (first + n)) (readAt buf first (word (stop - first - n)))
  writeAt buf first kept

/-- RotateBufRight -/
def rotateBufRight (malloc : Bool) (buf : List α) (first stop : Nat) (n : Int) : List α :=
  rotateBuf malloc (rotateRightBy first stop) n buf

/-- The first `n` bytes go to the end. -/
def rotateLeftBy (first stop : Nat) (n : Int) (buf : List α) : List α :=
  let kept := readAt buf first (word n)
  let buf := writeAt buf first (readAt buf (word (first + n)) (word (stop - first - n)))
  writeAt buf (word (stop - n)) kept

/-- RotateBufLeft -/
def rotateBufLeft (malloc : Bool) (buf : List α) (first stop : Nat) (n : Int) : List α :=
  rotateBuf malloc (rotateLeftBy first stop) n buf

/-- The part of `SwapBuffer` that is done at once. -/
def swapBy (buf : List α) (p1 p2 len : Nat) : List α :=
  let kept := readAt buf p1 len
  let buf := writeAt buf p1 (readAt buf p2 len)
  writeAt buf p2 kept

/-- The loop of `SwapBuffer`. -/
def swapBytes : Nat → List α → Nat → Nat → List α
  | 0, buf, _, _ => buf
  | n + 1, buf, p1, p2 => swapBytes n (swapBy buf p1 p2 1) (p1 + 1) (p2 + 1)

/-- SwapBuffer -/
def swapBuffer (malloc : Bool) (buf : List α) (p1 p2 len : Nat) : List α :=
  if len ≠ 1 ∧ malloc then swapBy buf p1 p2 len else swapBytes len buf p1 p2

/-- What each `malloc` of a call answers: in `SwapBufferParts`, and in the three routines below. -/
structure Mallocs where
  parts : Bool
  before : Bool
  swap : Bool
  after : Bool

/-- SlowSwapBufferParts -/
def slowSwapBufferParts (m : Mallocs) (buf : List α) (begin1 end1 begin2 end2 : Nat) : List α :=
  let len1 := end1 - begin1
  let len2 := end2 - begin2
  if len1 < len2 then
    let difference := len2 - len1
    let buf := rotateBufRight m.before buf end1 (begin2 + difference) (asInt difference)
    let buf := swapBuffer m.swap buf begin1 (begin2 + difference) len1
    rotateBufRight m.after buf begin1 (end1 + difference) (asInt difference)
  else if len2 < len1 then
    let difference := len1 - len2
    let buf := rotateBufLeft m.before buf (end1 - difference) begin2 (asInt difference)
    let buf := swapBuffer m.swap buf begin1 begin2 len2
    rotateBufLeft m.after buf (begin2 - difference) end2 (asInt difference)
  else swapBuffer m.swap buf begin1 begin2 len1

/-- SwapBufferParts -/
def swapBufferParts (m : Mallocs) (buf : List α) (begin1 end1 begin2 end2 : Nat) : List α :=
  if m.parts then
    writeAt buf begin1 (readAt buf begin2 (end2 - begin2) ++ readAt buf end1 (begin2 - end1) ++
      readAt buf begin1 (end1 - begin1))
  else slowSwapBufferParts m buf begin1 end1 begin2 end2

/-! ## 2. The routines -/

variable {first k len p p1 p2 stop : Nat} {back front mid x y : List α}

theorem readAt_parts (front x back : List α) {n : Nat} (hp : p = front.length)
    (hn : n = x.length) : readAt (front ++ x ++ back) p n = x := by
  subst hp hn
  rw [readAt, append_assoc, drop_left, take_left]

theorem writeAt_parts (front x y back : List α) (hp : p = front.length)
    (hlen : y.length = x.length) : writeAt (front ++ x ++ back) p y = front ++ y ++ back := by
  subst hp
  rw [writeAt, hlen, ← length_append, drop_left, append_assoc front x, take_left]

theorem word_nat {n : Int} (h : n % 0x10000 = k) : word n = k := by
  rw [word, h, Int.toNat_natCast]

theorem asInt_mod (n : Nat) : (asInt n - n) % 0x10000 = 0 := by
  unfold asInt
  split <;> omega

section

variable {front x y back : List α} {first stop : Nat} {n : Int}

theorem rotateRightBy_eq (hfirst : first = front.length) (hstop : stop = first + x.length + y.length)
    (hroom : stop < 0x10000) (hn : (n - y.length) % 0x10000 = 0) :
    rotateRightBy first stop n (front ++ (x ++ y) ++ back) = front ++ (y ++ x) ++ back := by
  have hkept : readAt (front ++ (x ++ y) ++ back) (word (stop - n)) (word n) = y := by
    rw [show front ++ (x ++ y) ++ back = front ++ x ++ y ++ back by simp]
    refine readAt_parts _ _ _ (word_nat ?_) (word_nat ?_)
    · rw [length_append]
      omega
    · omega
  have hmoved : readAt (front ++ (x ++ y) ++ back) first (word (stop - first - n)) = x := by
    rw [show front ++ (x ++ y) ++ back = front ++ x ++ (y ++ back) by simp]
    refine readAt_parts _ _ _ hfirst (word_nat ?_)
    omega
  -- the window, divided where the bytes are moved to
  have hcut : front ++ (x ++ y) ++ back =
      front ++ (x ++ y).take y.length ++ (x ++ y).drop y.length ++ back := by
    conv_lhs => rw [← take_append_drop y.length (x ++ y)]
    simp only [append_assoc]
  have hwrite : writeAt (front ++ (x ++ y) ++ back) (word (first + n)) x =
      front ++ (x ++ y).take y.length ++ x ++ back := by
    rw [hcut]
    refine writeAt_parts _ _ _ _ (word_nat ?_) ?_
    · rw [length_append, length_take, length_append]
      omega
    · rw [length_drop, length_append]
      omega
  unfold rotateRightBy
  simp only [hkept, hmoved, hwrite]
  rw [append_assoc _ x back, writeAt_parts _ _ _ _ hfirst]
  · simp
  · rw [length_take, length_append]
    omega

theorem rotateLeftBy_eq (hfirst : first = front.length) (hstop : stop = first + x.length + y.length)
    (hroom : stop < 0x10000) (hn : (n - x.length) % 0x10000 = 0) :
    rotateLeftBy first stop n (front ++ (x ++ y) ++ back) = front ++ (y ++ x) ++ back := by
  have hkept : readAt (front ++ (x ++ y) ++ back) first (word n) = x := by
    rw [show front ++ (x ++ y) ++ back = front ++ x ++ (y ++ back) by simp]
    refine readAt_parts _ _ _ hfirst (word_nat ?_)
    omega
  have hmoved : readAt (front ++ (x ++ y) ++ back) (word (first + n))
      (word (stop - first - n)) = y := by
    rw [show front ++ (x ++ y) ++ back = front ++ x ++ y ++ back by simp]
    refine readAt_parts _ _ _ (word_nat ?_) (word_nat ?_)
    · rw [length_append]
      omega
    · omega
  have hcut : front ++ (x ++ y) ++ back =
      front ++ (x ++ y).take y.length ++ ((x ++ y).drop y.length ++ back) := by
    conv_lhs => rw [← take_append_drop y.length (x ++ y)]
    simp only [append_assoc]
  have hwrite : writeAt (front ++ (x ++ y) ++ back) first y =
      front ++ y ++ (x ++ y).drop y.length ++ back := by
    rw [hcut, writeAt_parts _ _ _ _ hfirst, ← append_assoc]
    rw [length_take, length_append]
    omega
  unfold rotateLeftBy
  simp only [hkept, hmoved, hwrite]
  rw [writeAt_parts]
  · simp
  · refine word_nat ?_
    rw [length_append]
    omega
  · rw [length_drop, length_append]
    omega

end

/-- Whether a rotation by `k` bytes is done: its loop runs, or there is memory. -/
def turns (malloc : Bool) (k : Nat) : Bool := malloc || decide (k < 0x8000)

/-- **A rotation**, or nothing where its loop does not run. -/
theorem rotateBuf_eq {malloc : Bool} {turn : Int → List α → List α} {buf out : List α}
    (hk : k < 0x10000) (honce : turn (asInt k) buf = out) (hloop : (turn 1)^[k] buf = out) :
    rotateBuf malloc turn (asInt k) buf = if turns malloc k then out else buf := by
  unfold rotateBuf turns
  by_cases hzero : k = 0
  · subst hzero
    simpa [asInt] using hloop
  · rw [if_neg (by unfold asInt; split <;> omega)]
    by_cases hsmall : k < 0x8000
    · have hdone : (malloc || decide (k < 0x8000)) = true := by simp [hsmall]
      split
      · exact honce
      · rw [asInt, if_pos hsmall, Int.toNat_natCast]
        exact hloop
    · cases malloc with
      | true =>
        have hmany : asInt k ≠ 1 ∧ true = true := ⟨by unfold asInt; split <;> omega, rfl⟩
        rw [if_pos hmany, Bool.true_or, if_pos rfl]
        exact honce
      | false =>
        have hnever : (asInt k).toNat = 0 := by
          unfold asInt
          split <;> omega
        simp [hsmall, hnever]

theorem rotateBufRight_eq (malloc : Bool) (front y back : List α) (hfirst : first = front.length)
    (hroom : stop < 0x10000) (x : List α) (hstop : stop = first + x.length + y.length) :
    rotateBufRight malloc (front ++ (x ++ y) ++ back) first stop (asInt y.length) =
      if turns malloc y.length then front ++ (y ++ x) ++ back else front ++ (x ++ y) ++ back := by
  refine rotateBuf_eq (by omega) (rotateRightBy_eq hfirst hstop hroom (asInt_mod _)) ?_
  induction y using List.reverseRecOn generalizing x with
  | nil => simp
  | append_singleton y c ih =>
    rw [length_append, length_singleton] at hstop ⊢
    have hone : rotateRightBy first stop 1 (front ++ ((x ++ y) ++ [c]) ++ back) =
        front ++ ([c] ++ (x ++ y)) ++ back :=
      rotateRightBy_eq hfirst (by simp; omega) hroom (by simp)
    rw [Function.iterate_succ_apply, ← append_assoc x y, hone,
      show front ++ ([c] ++ (x ++ y)) ++ back = front ++ (([c] ++ x) ++ y) ++ back by simp,
      ih ([c] ++ x) (by simp; omega)]
    simp

theorem rotateBufLeft_eq (malloc : Bool) (front x back : List α) (hfirst : first = front.length)
    (hroom : stop < 0x10000) (y : List α) (hstop : stop = first + x.length + y.length) :
    rotateBufLeft malloc (front ++ (x ++ y) ++ back) first stop (asInt x.length) =
      if turns malloc x.length then front ++ (y ++ x) ++ back else front ++ (x ++ y) ++ back := by
  refine rotateBuf_eq (by omega) (rotateLeftBy_eq hfirst hstop hroom (asInt_mod _)) ?_
  induction x generalizing y with
  | nil => simp
  | cons c x ih =>
    rw [length_cons] at hstop ⊢
    have hone : rotateLeftBy first stop 1 (front ++ ([c] ++ (x ++ y)) ++ back) =
        front ++ ((x ++ y) ++ [c]) ++ back :=
      rotateLeftBy_eq hfirst (by simp; omega) hroom (by simp)
    rw [Function.iterate_succ_apply, show c :: x ++ y = [c] ++ (x ++ y) by simp, hone,
      append_assoc x, ih (y ++ [c]) (by simp; omega)]
    simp

theorem swapBy_eq (hp1 : p1 = front.length) (hp2 : p2 = p1 + x.length + mid.length)
    (hx : len = x.length) (hy : len = y.length) :
    swapBy (front ++ x ++ mid ++ y ++ back) p1 p2 len = front ++ y ++ mid ++ x ++ back := by
  have hright : p2 = (front ++ x ++ mid).length := by simp; omega
  have hread : readAt (front ++ x ++ mid ++ y ++ back) p1 len = x := by
    rw [show front ++ x ++ mid ++ y ++ back = front ++ x ++ (mid ++ y ++ back) by simp]
    exact readAt_parts _ _ _ hp1 hx
  unfold swapBy
  simp only [hread, readAt_parts _ _ _ hright hy]
  rw [show front ++ x ++ mid ++ y ++ back = front ++ x ++ (mid ++ y ++ back) by simp,
    writeAt_parts _ _ _ _ hp1 (hy.symm.trans hx),
    show front ++ y ++ (mid ++ y ++ back) = front ++ y ++ mid ++ y ++ back by simp,
    writeAt_parts _ _ _ _ (by simp; omega) (hx.symm.trans hy)]

/-- **`SwapBuffer` swaps**, with memory and without. -/
theorem swapBuffer_eq (malloc : Bool) (hp1 : p1 = front.length)
    (hp2 : p2 = p1 + x.length + mid.length) (hx : len = x.length)
    (hy : len = y.length) : swapBuffer malloc (front ++ x ++ mid ++ y ++ back) p1 p2 len =
      front ++ y ++ mid ++ x ++ back := by
  have hloop : ∀ (len : Nat) (front x mid y : List α) (p1 p2 : Nat), p1 = front.length →
      p2 = p1 + x.length + mid.length → len = x.length → len = y.length →
      swapBytes len (front ++ x ++ mid ++ y ++ back) p1 p2 = front ++ y ++ mid ++ x ++ back := by
    intro len
    induction len with
    | zero =>
      intro front x mid y p1 p2 _ _ hx hy
      rw [eq_nil_of_length_eq_zero hx.symm, eq_nil_of_length_eq_zero hy.symm]
      rfl
    | succ len ih =>
      intro front x mid y p1 p2 hp1 hp2 hx hy
      obtain ⟨a, x, rfl⟩ := exists_cons_of_length_eq_add_one hx.symm
      obtain ⟨b, y, rfl⟩ := exists_cons_of_length_eq_add_one hy.symm
      rw [length_cons] at hx hy hp2
      have hstep : swapBy (front ++ [a] ++ (x ++ mid) ++ [b] ++ (y ++ back)) p1 p2 1 =
          front ++ [b] ++ (x ++ mid) ++ [a] ++ (y ++ back) :=
        swapBy_eq hp1 (by simp; omega) rfl rfl
      have hrest := ih (front ++ [b]) x (mid ++ [a]) y (p1 + 1) (p2 + 1) (by simp [hp1])
        (by simp; omega) (by omega) (by omega)
      unfold swapBytes
      simp only [append_assoc, cons_append, nil_append] at hstep hrest ⊢
      rw [hstep, hrest]
  unfold swapBuffer
  split
  · exact swapBy_eq hp1 hp2 hx hy
  · exact hloop len front x mid y p1 p2 hp1 hp2 hx hy

/-! ## 3. The parts -/

/-- The pointers to the parts. -/
def swapAt (m : Mallocs) (front a mid b back : List α) : List α :=
  swapBufferParts m (front ++ a ++ mid ++ b ++ back) front.length (front.length + a.length)
    (front.length + a.length + mid.length) (front.length + a.length + mid.length + b.length)

/-- The two parts in each other's place. -/
def SwapsRight (front a mid b back : List α) : Prop :=
  ∀ m : Mallocs, swapAt m front a mid b back = front ++ b ++ mid ++ a ++ back

/-- **When the rotations do no harm without memory**: the difference of the lengths is positive as an
`int`, or what is rotated comes out as it was. -/
def RotationsFit (a mid b : List α) : Prop :=
  if a.length < b.length then
    let b' := b.take (b.length - a.length)
    let b'' := b.drop (b.length - a.length)
    b.length - a.length < 0x8000 ∨ (mid ++ b' = b' ++ mid ∧ b'' ++ b' = b' ++ b'')
  else
    let a' := a.take b.length
    let a'' := a.drop b.length
    a.length - b.length < 0x8000 ∨ (a'' ++ mid = mid ++ a'' ∧ a'' ++ a' = a' ++ a'')

section

variable {m : Mallocs} {front a mid b back : List α}

/-- With memory for the three parts. -/
theorem swapAt_parts (hm : m.parts = true) :
    swapAt m front a mid b back = front ++ b ++ mid ++ a ++ back := by
  have h1 : readAt (front ++ a ++ mid ++ b ++ back) (front.length + a.length + mid.length)
      (front.length + a.length + mid.length + b.length -
        (front.length + a.length + mid.length)) = b :=
    readAt_parts _ _ _ (by simp [Nat.add_assoc]) (by omega)
  have h2 : readAt (front ++ a ++ mid ++ b ++ back) (front.length + a.length)
      (front.length + a.length + mid.length - (front.length + a.length)) = mid := by
    rw [append_assoc _ b back]
    exact readAt_parts _ _ _ (by simp) (by omega)
  have h3 : readAt (front ++ a ++ mid ++ b ++ back) front.length
      (front.length + a.length - front.length) = a := by
    rw [show front ++ a ++ mid ++ b ++ back = front ++ a ++ (mid ++ b ++ back) by simp]
    exact readAt_parts _ _ _ rfl (by omega)
  unfold swapAt swapBufferParts
  rw [if_pos hm, h1, h2, h3,
    show front ++ a ++ mid ++ b ++ back = front ++ (a ++ mid ++ b) ++ back by simp,
    writeAt_parts _ _ _ _ rfl (by simp; omega)]
  simp

/-- What the second part ends as, where it is the longer one: the rotation of `p ++ q` behind the swap
is done or not. -/
def shortOut (front p q back w : List α) (done : Bool) : List α :=
  front ++ (if done then w.take p.length ++ q else q ++ w.take p.length) ++
    (w.drop p.length ++ back)

variable {p q : List α}

/-- Without, where the second part is longer: `p ++ q`, the second as long as `a`. -/
theorem swapAt_short (hm : m.parts = false) (ha : q.length = a.length) (hpos : 0 < p.length)
    (hroom : (front ++ a ++ mid ++ (p ++ q)).length < 0x10000) :
    swapAt m front a mid (p ++ q) back = shortOut front p q (a ++ back)
      (if turns m.before p.length then p ++ mid else mid ++ p) (turns m.after p.length) := by
  simp only [length_append] at hroom
  have hd : (p ++ q).length - a.length = p.length := by
    rw [length_append]
    omega
  have hslow : ∀ w : List α, w.length = mid.length + p.length →
      rotateBufRight m.after (swapBuffer m.swap (front ++ a ++ w ++ q ++ back) front.length
        (front.length + a.length + mid.length + p.length) a.length) front.length
        (front.length + a.length + p.length) (asInt p.length) =
      shortOut front p q (a ++ back) w (turns m.after p.length) := by
    intro w hw
    have hlen : (w.take p.length).length = p.length := by
      rw [length_take]
      omega
    have hrot := rotateBufRight_eq m.after front (w.take p.length) (w.drop p.length ++ (a ++ back))
      rfl (by omega : front.length + a.length + p.length < 0x10000) q (by omega)
    rw [hlen] at hrot
    rw [swapBuffer_eq m.swap rfl (by omega) rfl ha.symm,
      show front ++ q ++ w ++ a ++ back =
        front ++ (q ++ w.take p.length) ++ (w.drop p.length ++ (a ++ back)) by
          conv_lhs => rw [← take_append_drop p.length w]
          simp only [append_assoc], hrot, shortOut]
    split <;> rfl
  unfold swapAt swapBufferParts slowSwapBufferParts
  simp only [hm, Bool.false_eq_true, if_false, Nat.add_sub_cancel_left]
  rw [if_pos (by omega), hd,
    show front ++ a ++ mid ++ (p ++ q) ++ back = (front ++ a) ++ (mid ++ p) ++ (q ++ back) by simp,
    rotateBufRight_eq m.before (front ++ a) p (q ++ back) (by simp) (by omega) mid rfl]
  split
  · rw [← hslow (p ++ mid) (by simp; omega)]
    simp only [append_assoc]
  · rw [← hslow (mid ++ p) (by simp)]
    simp only [append_assoc]

/-- What the first part ends as, where it is not the shorter one. -/
def longOut (front q back : List α) (n : Nat) (w : List α) (done : Bool) : List α :=
  front ++ w.take n ++ (if done then q ++ w.drop n else w.drop n ++ q) ++ back

/-- Without, where the first part is not shorter: `q ++ p`, the first as long as `b`. -/
theorem swapAt_long (hm : m.parts = false) (hb : q.length = b.length)
    (hroom : (front ++ (q ++ p) ++ mid ++ b).length < 0x10000) :
    swapAt m front (q ++ p) mid b back = longOut (front ++ b) q back mid.length
      (if turns m.before p.length then mid ++ p else p ++ mid) (turns m.after p.length) := by
  simp only [length_append] at hroom
  have hslow : ∀ w : List α, w.length = mid.length + p.length →
      rotateBufLeft m.after (swapBuffer m.swap (front ++ q ++ w ++ b ++ back) front.length
        (front.length + (q.length + p.length) + mid.length) b.length)
        (front.length + (q.length + p.length) + mid.length - p.length)
        (front.length + (q.length + p.length) + mid.length + b.length) (asInt p.length) =
      longOut (front ++ b) q back mid.length w (turns m.after p.length) := by
    intro w hw
    have hlen : (w.drop mid.length).length = p.length := by
      rw [length_drop]
      omega
    have hfirst : front.length + (q.length + p.length) + mid.length - p.length =
        (front ++ b ++ w.take mid.length).length := by
      simp only [length_append, length_take]
      omega
    have hrot := rotateBufLeft_eq m.after (front ++ b ++ w.take mid.length) (w.drop mid.length) back
      hfirst (by omega : front.length + (q.length + p.length) + mid.length + b.length < 0x10000)
      q (by omega)
    rw [hlen] at hrot
    rw [swapBuffer_eq m.swap rfl (by omega) hb.symm rfl,
      show front ++ b ++ w ++ q ++ back =
        front ++ b ++ w.take mid.length ++ (w.drop mid.length ++ q) ++ back by
          conv_lhs => rw [← take_append_drop mid.length w]
          simp only [append_assoc], hrot, longOut]
    split <;> rfl
  unfold swapAt swapBufferParts slowSwapBufferParts
  simp only [hm, Bool.false_eq_true, if_false, Nat.add_sub_cancel_left, length_append]
  rw [if_neg (by omega)]
  by_cases hpos : b.length < q.length + p.length
  · rw [if_pos hpos, show q.length + p.length - b.length = p.length by omega,
      show front ++ (q ++ p) ++ mid ++ b ++ back = (front ++ q) ++ (p ++ mid) ++ (b ++ back) by simp,
      rotateBufLeft_eq m.before (front ++ q) p (b ++ back) (by simp; omega) (by omega) mid
        (by omega)]
    split
    · rw [← hslow (mid ++ p) (by simp)]
      simp only [append_assoc]
    · rw [← hslow (p ++ mid) (by simp; omega)]
      simp only [append_assoc]
  · obtain rfl : p = [] := eq_nil_of_length_eq_zero (by omega)
    rw [if_neg hpos]
    simp only [longOut, turns, append_nil, nil_append, length_nil, Nat.add_zero, Nat.zero_lt_succ,
      decide_true, Bool.or_true, ite_self, take_length, drop_length, hb]
    exact swapBuffer_eq m.swap rfl (by omega) hb.symm rfl

end

/-- Without memory for the parts, a result depends on two rotations.  If it is right when both are
done, and a first one that was left out shows, then it is always right just if the difference fits or
neither rotation changes anything. -/
theorem patterns_iff {β : Type} {out : List α → Bool → β} {right left : List α} {expected : β}
    (hboth : out right true = expected) (hshows : out left true = expected → left = right) :
    (∀ before after, out (if turns before k then right else left) (turns after k) = expected) ↔
      k < 0x8000 ∨ (left = right ∧ out right false = expected) := by
  by_cases hk : k < 0x8000
  · simp [turns, hk, hboth]
  · simp only [turns, hk, decide_false, Bool.or_false, false_or]
    constructor
    · intro h
      exact ⟨hshows (by simpa using h false true), by simpa using h true false⟩
    · rintro ⟨rfl, hlast⟩ before after
      rw [ite_self]
      cases after with
      | true => exact hboth
      | false => exact hlast

/-- **Swapping two parts** works whatever each `malloc` answers just if the rotations do no harm. -/
theorem swaps_right_iff (front a mid b back : List α)
    (hroom : (front ++ a ++ mid ++ b).length < 0x10000) :
    SwapsRight front a mid b back ↔ RotationsFit a mid b := by
  have hpatterns : ∀ out : Bool → Bool → List α, (∀ m : Mallocs, m.parts = false →
      swapAt m front a mid b back = out m.before m.after) → (SwapsRight front a mid b back ↔
        ∀ before after, out before after = front ++ b ++ mid ++ a ++ back) := by
    intro out hout
    constructor
    · intro h before after
      rw [← hout ⟨false, before, true, after⟩ rfl]
      exact h _
    · intro h m
      cases hm : m.parts with
      | true => exact swapAt_parts hm
      | false => rw [hout m hm, h]
  unfold RotationsFit
  split
  · rename_i hlt
    obtain ⟨p, q, rfl, hlen⟩ : ∃ p q, b = p ++ q ∧ q.length = a.length :=
      ⟨_, _, (List.take_append_drop (b.length - a.length) b).symm, by rw [List.length_drop]; omega⟩
    rw [List.length_append] at hlt
    have hd : (p ++ q).length - a.length = p.length := by
      rw [List.length_append]
      omega
    rw [hd, List.take_left, List.drop_left,
      hpatterns (fun before after => shortOut front p q (a ++ back)
        (if turns before p.length then p ++ mid else mid ++ p) (turns after p.length))
        (fun m hm => swapAt_short hm hlen (by omega) hroom), patterns_iff]
    · simp [shortOut, ← List.append_assoc]
      simp only [List.append_assoc, List.append_cancel_left_eq]
    · simp [shortOut]
    · intro h
      simp only [shortOut, if_true, List.append_assoc, List.append_cancel_left_eq] at h
      obtain ⟨htake, hdrop⟩ := List.append_inj h (by rw [List.length_take]; simp)
      have hdrop := List.append_cancel_right (List.append_cancel_left hdrop)
      rw [← List.take_append_drop p.length (mid ++ p), htake, hdrop]
  · rename_i hlt
    obtain ⟨p, q, rfl, hlen⟩ : ∃ p q, a = q ++ p ∧ q.length = b.length :=
      ⟨_, _, (List.take_append_drop b.length a).symm, by rw [List.length_take]; omega⟩
    have hd : (q ++ p).length - b.length = p.length := by
      rw [List.length_append]
      omega
    rw [hd, ← hlen, List.take_left, List.drop_left,
      hpatterns (fun before after => longOut (front ++ b) q back mid.length
        (if turns before p.length then mid ++ p else p ++ mid) (turns after p.length))
        (fun m hm => swapAt_long hm hlen hroom), patterns_iff]
    · simp [longOut, ← List.append_assoc]
      simp only [List.append_assoc, List.append_cancel_left_eq]
    · simp [longOut]
    · intro h
      simp only [longOut, if_true, List.append_assoc, List.append_cancel_left_eq] at h
      obtain ⟨htake, hdrop⟩ := List.append_inj h (by rw [List.length_take]; simp)
      have hdrop := List.append_cancel_right (List.append_cancel_left hdrop)
      rw [← List.take_append_drop mid.length (p ++ mid), htake, hdrop]

theorem swaps_right_small : SwapsRight [0] [1, 2] [3] [4] [5] :=
  (swaps_right_iff [0] [1, 2] [3] [4] [5] (by decide)).2 (Or.inl (by decide))

/-- One byte, and 0x8000 bytes of another value behind it, for which there is no memory. -/
theorem large_part_stays : ¬ SwapsRight [] [] [(1 : UInt8)] (List.replicate 0x8000 0) [] := by
  obtain ⟨p, hp⟩ : ∃ p, p = List.replicate 0x8000 (0 : UInt8) := ⟨_, rfl⟩
  have hlen : p.length = 0x8000 := by rw [hp, List.length_replicate]
  have hhead : p.head? = some 0 := by rw [hp, List.head?_replicate, if_neg (by decide)]
  rw [← hp]
  intro h
  have hstays : swapAt ⟨false, false, false, false⟩ [] [] [(1 : UInt8)] (p ++ []) [] =
      shortOut [] p [] ([] ++ []) (if turns false p.length then p ++ [1] else [1] ++ p)
        (turns false p.length) := swapAt_short rfl rfl (by omega) (by simp [hlen])
  rw [List.append_nil, h] at hstays
  have hfirst := congrArg List.head? hstays
  simp [shortOut, turns, hlen, hhead, List.head?_append] at hfirst

end SdcBoot.Defrag
