/-
# The reply buffer of a client

`addToOutput_var` and `addToOutput` put text behind what waits in `outputBuffer`, and `sendOutput`
hands the control socket what it takes.  `outputBufferLen` and `outputBufferIndex` are unsigned,
the counts computed from them are `int`: at sixteen bits one is the other taken apart again.

The two writers do not agree on a full buffer.  `addToOutput_var` leaves `outputBufferLen` at
`OUTPUTBUFFER_SIZE` when its text did not fit; `addToOutput` keeps a byte for the terminator, finds
minus one free and gives it to `memcpy` as a count.

* `OutputBuffer.step`: one call, with the bytes it writes;
* `inside_of_fits`, `step_bounded`: what a call that fits does;
* `output_inside_iff`: along a run nothing is written outside just where each call fits.
-/
import Mathlib.Tactic.SplitIfs
import SdcBoot.Lib.Run

namespace SdcBoot.Ftp

open Lib List

/-! ## 1. The calls -/

def OUTPUTBUFFER_SIZE : Nat := 1024

/-- A value stored in an `int`. -/
def int16 (n : Int) : Int := (n + 32768) % 65536 - 32768

/-- A value stored in a `uint16_t`, or passed as a `size_t`. -/
def uint16 (n : Int) : Nat := (n % 65536).toNat

structure OutputBuffer where
  outputBufferLen : Nat
  outputBufferIndex : Nat

/-- After `clearOutput`, and at the start of a session. -/
def OutputBuffer.empty : OutputBuffer := ⟨0, 0⟩

inductive OutputCall where
  /-- `rc` is the answer of `vsnprintf`: the length of the whole text, or negative. -/
  | addToOutput_var (rc : Int)
  | addToOutput (strlen : UInt16)
  /-- The bytes the socket takes at most, or none when it fails. -/
  | sendOutput (taken : Option Nat)
  | clearOutput

/-- Bytes of `outputBuffer` that are written: `count` of them from `start` on. -/
structure Write where
  start : Nat
  count : Nat

def Write.Inside (w : Write) : Prop := ∀ i < w.count, w.start + i < OUTPUTBUFFER_SIZE

def OutputBuffer.addToOutput_var (b : OutputBuffer) (rc : Int) : List Write × OutputBuffer :=
  let bytesAvail := int16 (OUTPUTBUFFER_SIZE - b.outputBufferLen)
  let size := uint16 bytesAvail
  if rc < 0 then
    ([⟨b.outputBufferLen, size⟩, ⟨OUTPUTBUFFER_SIZE - 1, 1⟩],
      { b with outputBufferLen := OUTPUTBUFFER_SIZE })
  else
    -- `vsnprintf` writes the text and its terminator, or as much as `size` allows
    let written : Write := ⟨b.outputBufferLen, min (rc.toNat + 1) size⟩
    if bytesAvail ≤ rc then
      ([written, ⟨OUTPUTBUFFER_SIZE - 1, 1⟩], { b with outputBufferLen := OUTPUTBUFFER_SIZE })
    else ([written], { b with outputBufferLen := uint16 (b.outputBufferLen + rc) })

def OutputBuffer.addToOutput (b : OutputBuffer) (strlen : UInt16) : List Write × OutputBuffer :=
  let bytesAvail := int16 (OUTPUTBUFFER_SIZE - b.outputBufferLen - 1)
  let bytesToCopy := int16 strlen.toNat
  let bytesToCopy := if bytesAvail < bytesToCopy then bytesAvail else bytesToCopy
  let outputBufferLen := uint16 (b.outputBufferLen + bytesToCopy)
  ([⟨b.outputBufferLen, uint16 bytesToCopy⟩, ⟨outputBufferLen, 1⟩],
    { b with outputBufferLen := outputBufferLen })

/-- `sendOutput` reads the buffer and writes nothing to it. -/
def OutputBuffer.sendOutput (b : OutputBuffer) (taken : Option Nat) : OutputBuffer :=
  let bytesToSend := int16 (b.outputBufferLen - b.outputBufferIndex)
  match taken with
  | none => b
  | some taken =>
    let bytesSent := min (taken : Int) bytesToSend
    if bytesSent < 0 then b
    else if bytesSent = bytesToSend then OutputBuffer.empty
    else { b with outputBufferIndex := uint16 (b.outputBufferIndex + bytesSent) }

def OutputBuffer.step (b : OutputBuffer) : OutputCall → List Write × OutputBuffer
  | .addToOutput_var rc => b.addToOutput_var rc
  | .addToOutput strlen => b.addToOutput strlen
  | .sendOutput taken => ([], b.sendOutput taken)
  | .clearOutput => ([], OutputBuffer.empty)

/-! ## 2. What is asked of a run -/

/-- `outputBufferIndex ≤ outputBufferLen ≤ OUTPUTBUFFER_SIZE`. -/
def OutputBuffer.Bounded (b : OutputBuffer) : Prop :=
  b.outputBufferIndex ≤ b.outputBufferLen ∧ b.outputBufferLen ≤ OUTPUTBUFFER_SIZE

/-- The writes of a step are inside of the buffer, and its counters are bounded after it. -/
def StaysInside (_ : OutputBuffer) (_ : OutputCall) (r : List Write × OutputBuffer) : Prop :=
  (∀ w ∈ r.1, w.Inside) ∧ r.2.Bounded

/-- A plain string is added to a buffer that `addToOutput_var` has not filled, and its length is
one that an `int` can hold. -/
def ReplyFits (b : OutputBuffer) : OutputCall → Prop
  | .addToOutput strlen => b.outputBufferLen < OUTPUTBUFFER_SIZE ∧ strlen.toNat < 32768
  | .addToOutput_var _ | .sendOutput _ | .clearOutput => True

/-! ## 3. One call -/

section

variable {b : OutputBuffer}

theorem empty_bounded : OutputBuffer.empty.Bounded := by
  unfold OutputBuffer.Bounded
  decide

theorem inside_of_le {start count : Nat} (h : start + count ≤ 1024) :
    Write.Inside ⟨start, count⟩ := by
  intro i hi
  simp only at hi ⊢
  unfold OUTPUTBUFFER_SIZE
  omega

theorem bounded_of_le {len index : Nat} (hindex : index ≤ len) (hlen : len ≤ 1024) :
    OutputBuffer.Bounded ⟨len, index⟩ := ⟨hindex, hlen⟩

theorem int16_eq {n : Int} (h : -32768 ≤ n ∧ n < 32768) : int16 n = n := by
  unfold int16
  omega

theorem uint16_eq {n : Int} (h : 0 ≤ n ∧ n < 65536) : uint16 n = n.toNat := by
  unfold uint16
  omega

theorem addToOutput_var_inside (h : b.Bounded) (rc : Int) :
    StaysInside b (.addToOutput_var rc) (b.addToOutput_var rc) := by
  obtain ⟨hindex, hlen⟩ := h
  unfold OUTPUTBUFFER_SIZE at hlen
  have havail : int16 (OUTPUTBUFFER_SIZE - b.outputBufferLen) = 1024 - b.outputBufferLen :=
    int16_eq (by unfold OUTPUTBUFFER_SIZE; omega)
  have hsize : uint16 (1024 - b.outputBufferLen) = 1024 - b.outputBufferLen := by
    rw [uint16_eq (by omega)]
    omega
  unfold StaysInside OutputBuffer.addToOutput_var
  simp only [havail]
  split_ifs with hneg hlong
  iterate 2
    refine ⟨?_, bounded_of_le (by unfold OUTPUTBUFFER_SIZE; omega) (le_refl 1024)⟩
    simp only [mem_cons, not_mem_nil, or_false, forall_eq_or_imp, forall_eq]
    exact ⟨inside_of_le (by omega), inside_of_le (by decide)⟩
  · have hsum : uint16 (b.outputBufferLen + rc) = (b.outputBufferLen + rc).toNat :=
      uint16_eq (by omega)
    refine ⟨?_, bounded_of_le (by omega) (by omega)⟩
    simp only [mem_cons, not_mem_nil, or_false, forall_eq]
    exact inside_of_le (by omega)

theorem addToOutput_inside (h : b.Bounded) {strlen : UInt16}
    (hfits : ReplyFits b (.addToOutput strlen)) :
    StaysInside b (.addToOutput strlen) (b.addToOutput strlen) := by
  obtain ⟨hindex, -⟩ := h
  obtain ⟨hlen, hstr⟩ := hfits
  unfold OUTPUTBUFFER_SIZE at hlen
  have havail : int16 (OUTPUTBUFFER_SIZE - b.outputBufferLen - 1) = 1023 - b.outputBufferLen := by
    rw [int16_eq (by unfold OUTPUTBUFFER_SIZE; omega)]
    unfold OUTPUTBUFFER_SIZE
    omega
  unfold StaysInside OutputBuffer.addToOutput
  simp only [havail, int16_eq (n := strlen.toNat) (by omega)]
  generalize hcopy : (if (1023 : Int) - b.outputBufferLen < strlen.toNat then
    (1023 : Int) - b.outputBufferLen else (strlen.toNat : Int)) = bytesToCopy
  rw [uint16_eq (n := bytesToCopy) (by omega), uint16_eq (by omega)]
  refine ⟨?_, bounded_of_le (by omega) (by omega)⟩
  simp only [mem_cons, not_mem_nil, or_false, forall_eq_or_imp, forall_eq]
  exact ⟨inside_of_le (by omega), inside_of_le (by omega)⟩

theorem sendOutput_bounded (h : b.Bounded) (taken : Option Nat) :
    (b.sendOutput taken).Bounded := by
  obtain ⟨hindex, hlen⟩ := h
  unfold OUTPUTBUFFER_SIZE at hlen
  cases taken with
  | none => exact ⟨hindex, hlen⟩
  | some taken =>
    have hsend : int16 (b.outputBufferLen - b.outputBufferIndex) =
        b.outputBufferLen - b.outputBufferIndex := int16_eq (by omega)
    simp only [OutputBuffer.sendOutput]
    split_ifs with hneg hall
    · exact ⟨hindex, hlen⟩
    · exact empty_bounded
    · rw [uint16_eq (by omega)]
      exact bounded_of_le (by omega) hlen

/-- **A call that fits** writes inside of the buffer and keeps the counters bounded. -/
theorem inside_of_fits (b : OutputBuffer) (call : OutputCall) (h : b.Bounded)
    (hfits : ReplyFits b call) : StaysInside b call (b.step call) := by
  cases call with
  | addToOutput_var rc => exact addToOutput_var_inside h rc
  | addToOutput strlen => exact addToOutput_inside h hfits
  | sendOutput taken => exact ⟨nofun, sendOutput_bounded h taken⟩
  | clearOutput => exact ⟨nofun, empty_bounded⟩

/-- A call that does not fit copies at least 32768 bytes. -/
theorem fits_of_inside {call : OutputCall} (h : b.Bounded)
    (hinside : StaysInside b call (b.step call)) : ReplyFits b call := by
  cases call with
  | addToOutput_var rc => trivial
  | addToOutput strlen =>
    obtain ⟨hindex, hlen⟩ := h
    have hcopy := hinside.1 _ mem_cons_self
    have hstr := strlen.toNat_lt
    unfold ReplyFits
    by_contra hfits
    have hwide : 2000 < uint16 (if int16 (OUTPUTBUFFER_SIZE - b.outputBufferLen - 1) <
        int16 strlen.toNat then int16 (OUTPUTBUFFER_SIZE - b.outputBufferLen - 1)
        else int16 strlen.toNat) := by
      unfold uint16 int16
      split_ifs <;> omega
    have hout := hcopy 1024 (by simp only; omega)
    unfold OUTPUTBUFFER_SIZE at hout
    omega
  | sendOutput taken => trivial
  | clearOutput => trivial

/-! ## 4. Runs -/

/-- **Replies.**  Along a run every write stays inside of the buffer and the counters stay bounded,
just where every call fits. -/
theorem output_inside_iff (calls : List OutputCall) (h : b.Bounded) :
    Along OutputBuffer.step StaysInside b calls ↔ Guarded OutputBuffer.step ReplyFits b calls := by
  constructor
  · intro hinside
    induction calls generalizing b with
    | nil => trivial
    | cons call calls ih =>
      exact ⟨fits_of_inside h hinside.1, ih hinside.1.2 hinside.2⟩
  · exact Along.of_invariant (fun b call hb hfits => (inside_of_fits b call hb hfits).2)
      inside_of_fits calls b h

end

end SdcBoot.Ftp
