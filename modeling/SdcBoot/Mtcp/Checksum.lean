/-
# Checksums in assembler

`tcplib/ipasm.asm` has three procedures for the checksums of IP, UDP and TCP: over one buffer
(`_ipchksum`), over a pseudo header and a buffer (`_ip_p_chksum`), and over a pseudo header and a
buffer in two pieces (`_ip_p_chksum2`), which is for the first fragment of a datagram.  They are
translated instruction by instruction; the text that two of them share is one definition here.

What they compute is `checksum`, and so do the two C functions that `tcplib/ip.cpp` keeps in a
comment (`simpleChecksum`, `pseudoChecksum`).  Over the loops the carry stays in the carry flag;
`Sums` says what the register and the flag hold together.
-/
import SdcBoot.Lib.EndAround
import SdcBoot.Lib.Word

namespace SdcBoot.Mtcp.Checksum

open Lib.EndAround Lib.Word List Nat

/-! ## 1. The processor -/

/-- A far pointer. -/
structure Far where
  seg : UInt16
  off : UInt16

/-- The bytes that can be addressed. -/
abbrev Memory : Type := UInt16 → UInt16 → UInt8

/-- The registers that the procedures use, and the carry flag. -/
structure Cpu where
  ax : UInt16
  bx : UInt16
  cx : UInt16
  dx : UInt16
  si : UInt16
  ds : UInt16
  cf : Bool

namespace Cpu

def lodsw (mem : Memory) (s : Cpu) : Cpu :=
  { s with ax := word (mem s.ds s.si) (mem s.ds (s.si + 1)), si := s.si + 2 }

/-- `adc bx, v` -/
def adc (s : Cpu) (v : UInt16) : Cpu :=
  let sum := s.bx.toNat + v.toNat + s.cf.toNat
  { s with bx := UInt16.ofNat sum, cf := decide (65536 ≤ sum) }

def clc (s : Cpu) : Cpu := { s with cf := false }

/-- `add bx, v` -/
def add (s : Cpu) (v : UInt16) : Cpu := s.clc.adc v

/-- `shr cx, 1` -/
def shrCx (s : Cpu) : Cpu := { s with cx := s.cx >>> 1, cf := decide (s.cx &&& 1 = 1) }

/-- `xor bx, bx` -/
def zeroBx (s : Cpu) : Cpu := { s with bx := 0, cf := false }

/-- `lds si, p` -/
def lds (s : Cpu) (p : Far) : Cpu := { s with ds := p.seg, si := p.off }

/-- `xchg dl, dh` -/
def xchgDx (s : Cpu) : Cpu := { s with dx := word (hiByte s.dx) (loByte s.dx) }

/-- `rounds` times the body of a loop, with `loop` at its end. -/
def repeated (body : Cpu → Cpu) : Nat → Cpu → Cpu
  | 0, s => s
  | rounds + 1, s => repeated body rounds { body s with cx := (body s).cx - 1 }

/-- A loop that `loop` closes: it counts `cx` down until it is zero, so zero means 65536 rounds. -/
def loop (body : Cpu → Cpu) (s : Cpu) : Cpu := repeated body ((s.cx - 1).toNat + 1) s

/-- `lodsw`, `adc bx, ax` -/
def addWord (mem : Memory) (s : Cpu) : Cpu :=
  let s := s.lodsw mem
  s.adc s.ax

end Cpu

/-! ## 2. The procedures -/

/-- From `and dx, 1` on: the last byte of an odd length, and the complement. -/
def finish (mem : Memory) (s : Cpu) : UInt16 :=
  let s := { s with dx := s.dx &&& 1, cf := false }
  let s :=
    if s.dx = 0 then s
    else
      let s := s.lodsw mem
      let s := { s with ax := word (loByte s.ax) 0, cf := false }
      let s := s.add s.ax
      s.adc 0
  ~~~ s.bx

/-- `_ipchksum` -/
def ipchksum (mem : Memory) (s : Cpu) (data : Far) (len : UInt16) : UInt16 :=
  let s := { s with dx := len, cx := len }
  let s := s.shrCx.zeroBx
  let s := (s.lds data).clc
  let s := s.loop (Cpu.addWord mem)
  let s := s.adc 0
  finish mem s

/-- The addresses of the pseudo header, from `xor bx, bx` on. -/
def addresses (mem : Memory) (s : Cpu) (src target : Far) : Cpu :=
  let s := s.zeroBx.clc
  let s := (s.lds src).lodsw mem
  let s := s.add s.ax
  let s := s.addWord mem
  let s := s.lds target
  let s := s.addWord mem
  let s := s.addWord mem
  s.adc 0

/-- Its protocol and its length. -/
def protocolAndLength (s : Cpu) (protocol : UInt8) : Cpu :=
  let s := { s with cx := word 0 protocol, cf := false }
  let s := s.add s.cx
  let s := s.xchgDx
  let s := s.adc s.dx
  let s := s.adc 0
  s.xchgDx

def pseudoWords (mem : Memory) (s : Cpu) (src target : Far) (protocol : UInt8) : Cpu :=
  protocolAndLength (addresses mem s src target) protocol

/-- Four words in one round. -/
def fourWords (mem : Memory) (s : Cpu) : Cpu :=
  (((s.addWord mem).addWord mem).addWord mem).addWord mem

/-- `cx` from bytes to rounds of four words. -/
def countFour (s : Cpu) : Cpu := s.shrCx.shrCx.shrCx.clc

def unrolled (mem : Memory) (s : Cpu) : Cpu := (s.loop (fourWords mem)).adc 0

/-- The words that are left over, and the end. -/
def leftOver (mem : Memory) (s : Cpu) : UInt16 :=
  let s := { s with cx := s.dx }
  let s := s.shrCx
  let s := { s with cx := s.cx &&& 3, cf := false }
  let s := if s.cx = 0 then s else (s.clc.loop (Cpu.addWord mem)).adc 0
  finish mem s

/-- `_ip_p_chksum` -/
def ipPChksum (mem : Memory) (s : Cpu) (src target data : Far) (protocol : UInt8) (len : UInt16) :
    UInt16 :=
  let s := { s with dx := len }
  let s := pseudoWords mem s src target protocol
  let s := countFour { s with cx := s.dx }
  let s := unrolled mem (s.lds data)
  leftOver mem s

/-- Two words in one round. -/
def twoWords (mem : Memory) (s : Cpu) : Cpu := (s.addWord mem).addWord mem

/-- `_ip_p_chksum2` -/
def ipPChksum2 (mem : Memory) (s : Cpu) (src target header : Far) (protocol : UInt8)
    (headerLen : UInt16) (data : Far) (dataLen : UInt16) : UInt16 :=
  let s := { s with dx := headerLen + dataLen }
  let s := pseudoWords mem s src target protocol
  let s := { s with cx := headerLen }
  let s := s.shrCx.shrCx.clc
  let s := s.lds header
  let s := (s.loop (twoWords mem)).adc 0
  let s := s.lds data
  let s := { s with cx := dataLen, dx := dataLen, cf := decide (dataLen < 8) }
  let s := if s.cx < 8 then s else unrolled mem (countFour s)
  leftOver mem s

/-! ## 3. What is computed -/

/-- The bytes from a place on; offsets go round. -/
def bytesFrom (mem : Memory) (seg off : UInt16) : Nat → List UInt8
  | 0 => []
  | n + 1 => mem seg off :: bytesFrom mem seg (off + 1) n

/-- The bytes a pointer points at. -/
def Far.bytes (mem : Memory) (p : Far) (n : Nat) : List UInt8 := bytesFrom mem p.seg p.off n

/-- The sum of the words, the low byte first and an odd byte at the end alone. -/
def wordSum : List UInt8 → Nat
  | [] => 0
  | [a] => a.toNat
  | a :: b :: rest => a.toNat + 256 * b.toNat + wordSum rest

/-- **The checksum of the Internet**: the complement of the sum of the words, with every carry
brought round. -/
def checksum (data : List UInt8) : UInt16 := ~~~ UInt16.ofNat (around 65536 (wordSum data))

/-- What is summed before the data of UDP and TCP.  The length is a word of the network. -/
def pseudoHeader (src target : List UInt8) (protocol : UInt8) (len : UInt16) : List UInt8 :=
  src ++ target ++ [0, protocol, hiByte len, loByte len]

/-! ## 4. The C functions -/

/-- `if (sum & 0x80000000) sum = (sum & 0xffff) + (sum >> 16)` -/
def foldTop (sum : Nat) : Nat := if 0x80000000 ≤ sum then sum % 65536 + sum / 65536 else sum

/-- `while (len > 1)`, and the odd byte; `sum` is a `uint32_t`. -/
def addWords : List UInt8 → Nat → Nat
  | [], sum => sum
  | [a], sum => (sum + a.toNat) % 0x100000000
  | a :: b :: rest, sum => addWords rest (foldTop ((sum + (word a b).toNat) % 0x100000000))

/-- `while (sum >> 16)` -/
def foldAll (sum : Nat) : Nat := folded 65536 sum sum

def simpleChecksum (data : List UInt8) : UInt16 := ~~~ UInt16.ofNat (foldAll (addWords data 0))

def pseudoChecksum (src target data : List UInt8) (protocol : UInt8) : UInt16 :=
  let psheader := src ++ target ++
    [0, protocol, hiByte (UInt16.ofNat data.length), loByte (UInt16.ofNat data.length)]
  let sum := foldAll (addWords psheader 0)
  ~~~ UInt16.ofNat (foldAll (addWords data sum))

/-! ## 5. Sums of words -/

theorem wordSum_append {a b : List UInt8} (h : a.length % 2 = 0) :
    wordSum (a ++ b) = wordSum a + wordSum b := by
  induction a using wordSum.induct with
  | case1 => simp [wordSum]
  | case2 x => cases h
  | case3 x y rest ih =>
    have hrest : rest.length % 2 = 0 := by
      rw [length_cons, length_cons] at h
      omega
    rw [cons_append, cons_append, wordSum, wordSum, ih hrest]
    omega

@[simp] theorem bytesFrom_length (mem : Memory) (seg : UInt16) (n : Nat) (off : UInt16) :
    (bytesFrom mem seg off n).length = n := by
  induction n generalizing off with
  | zero => rfl
  | succ n ih => rw [bytesFrom, length_cons, ih]

@[simp] theorem Far.bytes_length (mem : Memory) (p : Far) (n : Nat) : (p.bytes mem n).length = n :=
  bytesFrom_length mem p.seg n p.off

/-- The offset `n` bytes on. -/
def ahead (off : UInt16) (n : Nat) : UInt16 := off + UInt16.ofNat n

theorem ahead_zero (off : UInt16) : ahead off 0 = off := by simp [ahead]

theorem ahead_ahead (off : UInt16) (m n : Nat) : ahead (ahead off m) n = ahead off (m + n) := by
  simp [ahead, UInt16.add_assoc]

theorem bytesFrom_add (mem : Memory) (seg off : UInt16) (m n : Nat) :
    bytesFrom mem seg off (m + n) = bytesFrom mem seg off m ++ bytesFrom mem seg (ahead off m) n := by
  induction m generalizing off with
  | zero => rw [zero_add, ahead_zero, bytesFrom, nil_append]
  | succ m ih =>
    have hnext : ahead (off + 1) m = ahead off (m + 1) := by
      rw [add_comm m 1]
      exact ahead_ahead off 1 m
    rw [add_right_comm, bytesFrom, ih, bytesFrom, cons_append, hnext]

/-! ## 6. What the register and the flag hold -/

/-- The register and the carry flag together hold `n`, and they do not overflow. -/
def Sums (s : Cpu) (n : Nat) : Prop :=
  Open 65536 s.bx.toNat s.cf.toNat ∧ around 65536 (s.bx.toNat + s.cf.toNat) = around 65536 n

/-- The register alone holds it. -/
def Closed (s : Cpu) (n : Nat) : Prop := s.bx.toNat = around 65536 n

variable {s : Cpu} {k n : Nat} {len off seg : UInt16} {mem : Memory}

theorem Closed.sums (h : Closed s n) (hcf : s.cf = false) : Sums s n := by
  have hlt := s.bx.toNat_lt
  constructor
  · rw [hcf]
    exact hlt
  · rw [hcf, Bool.toNat_false, add_zero, around_of_lt hlt, h]

theorem adc_bx (s : Cpu) (v : UInt16) :
    (s.adc v).bx.toNat = (s.bx.toNat + v.toNat + s.cf.toNat) % 65536 := by
  exact UInt16.toNat_ofNat'

theorem adc_cf (s : Cpu) (v : UInt16) :
    (s.adc v).cf.toNat = (s.bx.toNat + v.toNat + s.cf.toNat) / 65536 := by
  have h1 := s.bx.toNat_lt
  have h2 := v.toNat_lt
  have h3 := s.cf.toNat_le
  change (decide (65536 ≤ _)).toNat = _
  by_cases h : 65536 ≤ s.bx.toNat + v.toNat + s.cf.toNat
  · rw [decide_eq_true h, Bool.toNat_true]
    omega
  · rw [decide_eq_false h, Bool.toNat_false]
    omega

theorem Sums.adc (h : Sums s n) (v : UInt16) : Sums (s.adc v) (n + v.toNat) := by
  obtain ⟨hopen, hsum⟩ := h.1.adc (by decide) v.toNat_lt
  unfold Sums
  rw [adc_bx, adc_cf]
  exact ⟨hopen, by rw [hsum, ← around_add, h.2, around_add]⟩

theorem Sums.xchgDx (h : Sums s n) : Sums s.xchgDx n := h

/-- `adc bx, 0` takes the carry in and leaves none. -/
theorem Sums.close (h : Sums s n) : Closed (s.adc 0) n ∧ (s.adc 0).cf = false := by
  obtain ⟨hw, hc⟩ := h.1.close
  constructor
  · unfold Closed
    rw [adc_bx, UInt16.toNat_zero, add_zero, hw, h.2]
  · have hcf := adc_cf s 0
    rw [UInt16.toNat_zero, add_zero, hc] at hcf
    exact Bool.toNat_eq_zero.mp hcf

theorem Closed.add (h : Closed s n) (v : UInt16) : Sums (s.add v) (n + v.toNat) :=
  Sums.adc (s := s.clc) (Closed.sums h rfl) v

/-! ## 7. The loops -/

/-- A sum of `n` with the source pointer at a place, and the length in `dx`. -/
structure At (s : Cpu) (seg off len : UInt16) (n : Nat) : Prop where
  ds : s.ds = seg
  si : s.si = off
  dx : s.dx = len
  sums : Sums s n

theorem At.lds (h : At s seg off len n) (p : Far) :
    At (s.lds p) p.seg p.off len n := ⟨rfl, rfl, h.dx, h.sums⟩

/-- Code that adds the words of the next `k` bytes. -/
def Adds (mem : Memory) (k : Nat) (body : Cpu → Cpu) : Prop :=
  ∀ (s : Cpu) (seg off len : UInt16) (n : Nat), At s seg off len n →
    At (body s) seg (ahead off k) len (n + wordSum (bytesFrom mem seg off k))

theorem addWord_adds (mem : Memory) : Adds mem 2 (Cpu.addWord mem) := by
  rintro s seg off len n ⟨rfl, rfl, rfl, hsums⟩
  refine ⟨rfl, rfl, rfl, ?_⟩
  have hadc := Sums.adc (s := s.lodsw mem) (v := (s.lodsw mem).ax) hsums
  have hword : (s.lodsw mem).ax.toNat = wordSum (bytesFrom mem s.ds s.si 2) := by
    simp only [Cpu.lodsw, word_toNat, bytesFrom, wordSum, add_zero]
  rw [hword] at hadc
  exact hadc

theorem Adds.comp {j : Nat} {f g : Cpu → Cpu} (hf : Adds mem j f) (hg : Adds mem k g)
    (hj : j % 2 = 0) : Adds mem (j + k) (fun s => g (f s)) := by
  intro s seg off len n h
  have hboth := hg _ _ _ _ _ (hf _ _ _ _ _ h)
  rw [ahead_ahead, add_assoc, ← wordSum_append (by rw [bytesFrom_length]; exact hj),
    ← bytesFrom_add] at hboth
  exact hboth

theorem fourWords_adds (mem : Memory) : Adds mem 8 (fourWords mem) :=
  (((addWord_adds mem).comp (addWord_adds mem) rfl).comp (addWord_adds mem) rfl).comp
    (addWord_adds mem) rfl

theorem twoWords_adds (mem : Memory) : Adds mem 4 (twoWords mem) :=
  (addWord_adds mem).comp (addWord_adds mem) rfl

/-- Counting down is no part of the sum. -/
theorem Adds.repeated {body : Cpu → Cpu} (h : Adds mem k body) (hk : k % 2 = 0)
    (rounds : Nat) : Adds mem (rounds * k) (Cpu.repeated body rounds) := by
  induction rounds with
  | zero =>
    intro s seg off len n hat
    rw [zero_mul, ahead_zero]
    exact hat
  | succ rounds ih =>
    have hcount : Adds mem k (fun s => { body s with cx := (body s).cx - 1 }) := by
      intro s seg off len n hat
      obtain ⟨hds, hsi, hdx, hsums⟩ := h _ _ _ _ _ hat
      exact ⟨hds, hsi, hdx, hsums⟩
    have hboth := hcount.comp ih hk
    rw [add_comm k, ← succ_mul] at hboth
    exact hboth

theorem loop_at {body : Cpu → Cpu} (h : Adds mem k body) (hk : k % 2 = 0) (hat : At s seg off len n)
    (hcx : s.cx.toNat ≠ 0) :
    At (s.loop body) seg (ahead off (s.cx.toNat * k)) len
      (n + wordSum (bytesFrom mem seg off (s.cx.toNat * k))) := by
  have hone : (1 : UInt16) ≤ s.cx := by
    exact Nat.one_le_iff_ne_zero.mpr hcx
  have hrounds : (s.cx - 1).toNat + 1 = s.cx.toNat := by
    rw [UInt16.toNat_sub_of_le _ _ hone, UInt16.toNat_one]
    omega
  rw [← hrounds]
  exact h.repeated hk _ _ _ _ _ _ hat

/-- A sum that is closed, at a place. -/
structure ClosedAt (s : Cpu) (seg off len : UInt16) (n : Nat) : Prop where
  ds : s.ds = seg
  si : s.si = off
  dx : s.dx = len
  closed : Closed s n

theorem At.close (h : At s seg off len n) :
    ClosedAt (s.adc 0) seg off len n ∧ (s.adc 0).cf = false :=
  ⟨⟨h.ds, h.si, h.dx, h.sums.close.1⟩, h.sums.close.2⟩

theorem shrCx_cx (s : Cpu) : s.shrCx.cx.toNat = s.cx.toNat / 2 := by
  exact shiftRight_eq_div_pow _ 1

theorem countFour_cx (s : Cpu) : (countFour s).cx.toNat = s.cx.toNat / 8 := by
  change s.shrCx.shrCx.shrCx.cx.toNat = _
  rw [shrCx_cx, shrCx_cx, shrCx_cx]
  omega

/-- The unrolled loop takes whole rounds. -/
theorem unrolled_at (mem : Memory) (h : ClosedAt s seg off len n) (hcf : s.cf = false)
    (hcx : s.cx.toNat ≠ 0) :
    ClosedAt (unrolled mem s) seg (ahead off (s.cx.toNat * 8)) len
      (n + wordSum (bytesFrom mem seg off (s.cx.toNat * 8))) :=
  (loop_at (fourWords_adds mem) rfl ⟨h.ds, h.si, h.dx, h.closed.sums hcf⟩ hcx).close.1

/-- The last byte. -/
theorem finish_eq (h : ClosedAt s seg off len n) :
    finish mem s = ~~~ UInt16.ofNat
      (around 65536 (n + wordSum (bytesFrom mem seg off (len.toNat % 2)))) := by
  obtain ⟨rfl, rfl, rfl, hclosed⟩ := h
  have hodd : (s.dx &&& 1).toNat = s.dx.toNat % 2 := by
    exact and_one_is_mod _
  unfold finish
  dsimp only
  by_cases hzero : s.dx &&& 1 = 0
  · rw [if_pos hzero]
    rw [hzero] at hodd
    rw [← hodd, UInt16.toNat_zero, bytesFrom, wordSum, add_zero, ← hclosed, UInt16.ofNat_toNat]
  · have hone : s.dx.toNat % 2 = 1 := by
      have hne : (s.dx &&& 1).toNat ≠ 0 := fun h => hzero (UInt16.toNat_inj.mp h)
      omega
    rw [if_neg hzero, hone, bytesFrom, bytesFrom, wordSum]
    have hbyte : (word (loByte (word (mem s.ds s.si) (mem s.ds (s.si + 1)))) 0).toNat =
        (mem s.ds s.si).toNat := by
      have := (mem s.ds s.si).toNat_lt
      rw [word_toNat, loByte_toNat, word_toNat, UInt8.toNat_zero]
      omega
    set last : Cpu := { s with
      dx := s.dx &&& 1, ax := word (loByte (word (mem s.ds s.si) (mem s.ds (s.si + 1)))) 0,
      si := s.si + 2, cf := false } with hlast
    have hsum : Closed last n := hclosed
    have hfinal := (hsum.add last.ax).close.1
    rw [hbyte] at hfinal
    rw [← hfinal, UInt16.ofNat_toNat]
    rfl

/-- The words that the unrolled loop leaves, and the last byte. -/
theorem leftOver_eq (h : ClosedAt s seg off len n) :
    leftOver mem s = ~~~ UInt16.ofNat
      (around 65536 (n + wordSum (bytesFrom mem seg off (len.toNat % 8)))) := by
  unfold leftOver
  dsimp only
  set s1 : Cpu := { s with cx := s.dx } with hs1
  have hcx : (s1.shrCx.cx &&& 3).toNat = len.toNat / 2 % 4 := by
    rw [UInt16.toNat_and, shrCx_cx, ← h.dx]
    exact and_two_pow_sub_one_eq_mod _ 2
  set s2 : Cpu := { s1.shrCx with cx := s1.shrCx.cx &&& 3, cf := false } with hs2
  have hat : ClosedAt s2 seg off len n := ⟨h.ds, h.si, h.dx, h.closed⟩
  by_cases hzero : s2.cx = 0
  · have hnone : len.toNat / 2 % 4 = 0 := by
      rw [← hcx]
      exact congrArg UInt16.toNat hzero
    rw [if_pos hzero, finish_eq hat, show len.toNat % 2 = len.toNat % 8 by omega]
  · have hsome : s2.clc.cx.toNat ≠ 0 := fun h => hzero (UInt16.toNat_inj.mp h)
    have hcount : s2.clc.cx.toNat * 2 = len.toNat / 2 % 4 * 2 := congrArg (· * 2) hcx
    have hsums : Sums s2.clc n := Closed.sums (s := s2.clc) h.closed rfl
    have hstart : At s2.clc seg off len n := ⟨h.ds, h.si, h.dx, hsums⟩
    have hloop := (loop_at (addWord_adds mem) rfl hstart hsome).close.1
    rw [if_neg hzero, finish_eq hloop, hcount, add_assoc,
      ← wordSum_append (by rw [bytesFrom_length]; omega), ← bytesFrom_add,
      show len.toNat / 2 % 4 * 2 + len.toNat % 2 = len.toNat % 8 by omega]

/-! ## 8. The procedures compute the checksum -/

theorem checksum_def (data : List UInt8) :
    checksum data = ~~~ UInt16.ofNat (around 65536 (wordSum data)) := rfl

theorem ipchksum_eq (mem : Memory) (s : Cpu) (data : Far) (h : 2 ≤ len.toNat) :
    ipchksum mem s data len = checksum (data.bytes mem len.toNat) := by
  unfold ipchksum
  set s0 : Cpu := (({ s with dx := len, cx := len }.shrCx.zeroBx.lds data).clc) with hs0
  have hcx : s0.cx.toNat = len.toNat / 2 := shrCx_cx { s with dx := len, cx := len }
  have hat : At s0 data.seg data.off len 0 := ⟨rfl, rfl, rfl, Closed.sums (s := s0) rfl rfl⟩
  have hloop := (loop_at (addWord_adds mem) rfl hat (by omega)).close.1
  rw [finish_eq hloop, hcx, zero_add, ← wordSum_append (by rw [bytesFrom_length]; omega),
    ← bytesFrom_add, show len.toNat / 2 * 2 + len.toNat % 2 = len.toNat by omega]
  rfl

theorem wordSum_four (mem : Memory) (p : Far) : wordSum (p.bytes mem 4) =
    wordSum (bytesFrom mem p.seg p.off 2) + wordSum (bytesFrom mem p.seg (ahead p.off 2) 2) := by
  rw [← wordSum_append (by rw [bytesFrom_length]), ← bytesFrom_add]
  rfl

theorem word_swapped (w : UInt16) :
    word (hiByte (word (hiByte w) (loByte w))) (loByte (word (hiByte w) (loByte w))) = w := by
  rw [hiByte_word, loByte_word, word_bytes]

/-- The first of the words is added to a cleared register. -/
theorem firstWord_at (mem : Memory) {s : Cpu} {p : Far} (hbx : s.bx = 0) (hds : s.ds = p.seg)
    (hsi : s.si = p.off) :
    At ((s.lodsw mem).add (s.lodsw mem).ax) p.seg (ahead p.off 2) s.dx
      (wordSum (bytesFrom mem p.seg p.off 2)) := by
  have hzero : Closed (s.lodsw mem) 0 := by
    change s.bx.toNat = _
    rw [hbx]
    rfl
  have hsums := hzero.add (s.lodsw mem).ax
  have hword : (s.lodsw mem).ax.toNat = wordSum (bytesFrom mem p.seg p.off 2) := by
    simp only [Cpu.lodsw, word_toNat, bytesFrom, wordSum, add_zero, hds, hsi]
  rw [hword, zero_add] at hsums
  refine ⟨hds, ?_, rfl, hsums⟩
  rw [← hsi]
  rfl

theorem addresses_closed (mem : Memory) (s : Cpu) (src target : Far) :
    Closed (addresses mem s src target)
        (wordSum (src.bytes mem 4) + wordSum (target.bytes mem 4)) ∧
      (addresses mem s src target).dx = s.dx := by
  have hat1 := @firstWord_at mem (s.zeroBx.clc.lds src) src rfl rfl rfl
  have hat2 := addWord_adds mem _ _ _ _ _ hat1
  rw [← wordSum_four] at hat2
  have hat3 := addWord_adds mem _ _ _ _ _ (addWord_adds mem _ _ _ _ _ (hat2.lds target))
  rw [add_assoc, ← wordSum_four] at hat3
  exact ⟨hat3.close.1.closed, hat3.close.1.dx⟩

theorem protocolAndLength_closed (h : Closed s n) (protocol : UInt8) :
    Closed (protocolAndLength s protocol)
        (n + 256 * protocol.toNat + ((hiByte s.dx).toNat + 256 * (loByte s.dx).toNat)) ∧
      (protocolAndLength s protocol).cf = false ∧ (protocolAndLength s protocol).dx = s.dx := by
  have hstart : Closed { s with cx := word 0 protocol, cf := false } n := h
  have hproto := hstart.add (word 0 protocol)
  rw [word_toNat, UInt8.toNat_zero, zero_add] at hproto
  have hlen := (hproto.xchgDx.adc (word (hiByte s.dx) (loByte s.dx))).close
  rw [word_toNat] at hlen
  exact ⟨hlen.1, hlen.2, word_swapped s.dx⟩

/-- The pseudo header is summed, and the length is as it was. -/
theorem pseudoWords_closed (mem : Memory) {s : Cpu} {len : UInt16} (hdx : s.dx = len)
    (src target : Far) (protocol : UInt8) :
    Closed (pseudoWords mem s src target protocol) (wordSum
        (pseudoHeader (src.bytes mem 4) (target.bytes mem 4) protocol len)) ∧
      (pseudoWords mem s src target protocol).cf = false ∧
      (pseudoWords mem s src target protocol).dx = len := by
  obtain ⟨haddr, hkept⟩ := addresses_closed mem s src target
  obtain ⟨hclosed, hcf, hdx'⟩ := protocolAndLength_closed haddr protocol
  rw [hkept, hdx] at hclosed hdx'
  refine ⟨?_, hcf, hdx'⟩
  have hsum : wordSum (pseudoHeader (src.bytes mem 4) (target.bytes mem 4) protocol len) =
      wordSum (src.bytes mem 4) + wordSum (target.bytes mem 4) + 256 * protocol.toNat +
        ((hiByte len).toNat + 256 * (loByte len).toNat) := by
    unfold pseudoHeader
    rw [wordSum_append (by simp), wordSum_append (by simp)]
    simp only [wordSum, UInt8.toNat_zero]
    omega
  rw [hsum]
  exact hclosed

theorem pseudoHeader_length (mem : Memory) (src target : Far) (protocol : UInt8) (len : UInt16) :
    (pseudoHeader (src.bytes mem 4) (target.bytes mem 4) protocol len).length = 12 := by
  simp [pseudoHeader]

/-- The count is set up and the source pointer loaded: the sum stays. -/
theorem Closed.count (h : Closed s n) (hdx : s.dx = len)
    (data : Far) : ClosedAt ((countFour { s with cx := s.dx }).lds data) data.seg data.off len n :=
  ⟨rfl, rfl, hdx, h⟩

theorem Closed.countTwo (h : Closed s n) (hdx : s.dx = len) (count : UInt16) (header : Far) :
    At (({ s with cx := count }.shrCx.shrCx.clc).lds header) header.seg header.off len n :=
  ⟨rfl, rfl, hdx, Closed.sums (s := { s with cx := count }.shrCx.shrCx.clc) h rfl⟩

theorem ipPChksum_eq (mem : Memory) (s : Cpu) (src target data : Far) (protocol : UInt8)
    (h : 8 ≤ len.toNat) :
    ipPChksum mem s src target data protocol len = checksum
      (pseudoHeader (src.bytes mem 4) (target.bytes mem 4) protocol len ++
        data.bytes mem len.toNat) := by
  unfold ipPChksum
  obtain ⟨hclosed, hcf, hdx⟩ := @pseudoWords_closed mem { s with dx := len } len rfl src target protocol
  set s1 : Cpu := pseudoWords mem { s with dx := len } src target protocol with hs1
  set s2 : Cpu := (countFour { s1 with cx := s1.dx }).lds data with hs2
  have hat : ClosedAt s2 data.seg data.off len _ := hclosed.count hdx data
  have hcx : s2.cx.toNat = len.toNat / 8 := by
    rw [← hdx]
    exact countFour_cx { s1 with cx := s1.dx }
  have hloop := unrolled_at mem hat rfl (by omega)
  rw [leftOver_eq hloop, hcx, add_assoc,
    ← wordSum_append (by rw [bytesFrom_length]; omega), ← bytesFrom_add,
    show len.toNat / 8 * 8 + len.toNat % 8 = len.toNat by omega, checksum_def,
    wordSum_append (by rw [pseudoHeader_length])]
  rfl

theorem ipPChksum2_eq (mem : Memory) (s : Cpu) (src target header data : Far) (protocol : UInt8)
    {headerLen : UInt16} (hpos : 0 < headerLen.toNat) (h4 : headerLen.toNat % 4 = 0)
    (dataLen : UInt16) :
    ipPChksum2 mem s src target header protocol headerLen data dataLen = checksum
      (pseudoHeader (src.bytes mem 4) (target.bytes mem 4) protocol (headerLen + dataLen) ++
        (header.bytes mem headerLen.toNat ++ data.bytes mem dataLen.toNat)) := by
  unfold ipPChksum2
  dsimp only
  obtain ⟨hclosed, -, hdx⟩ :=
    @pseudoWords_closed mem { s with dx := headerLen + dataLen } _ rfl src target protocol
  set s1 : Cpu := pseudoWords mem { s with dx := headerLen + dataLen } src target protocol with hs1
  set s2 : Cpu := ({ s1 with cx := headerLen }.shrCx.shrCx.clc).lds header with hs2
  have hcx2 : s2.cx.toNat = headerLen.toNat / 4 := by
    change headerLen.toNat / 2 / 2 = _
    omega
  have hat2 : At s2 header.seg header.off (headerLen + dataLen) _ :=
    hclosed.countTwo hdx headerLen header
  have hhead := (loop_at (twoWords_adds mem) rfl hat2 (by omega)).close.1
  rw [hcx2, show headerLen.toNat / 4 * 4 = headerLen.toNat by omega] at hhead
  set s3 : Cpu := { ((s2.loop (twoWords mem)).adc 0).lds data with
    cx := dataLen, dx := dataLen, cf := decide (dataLen < 8) } with hs3
  have hat3 : ClosedAt s3 data.seg data.off dataLen _ := ⟨rfl, rfl, rfl, hhead.closed⟩
  rw [checksum_def, wordSum_append (by rw [pseudoHeader_length]),
    wordSum_append (by rw [Far.bytes_length]; omega), ← add_assoc]
  have hlt : s3.cx < 8 ↔ dataLen.toNat < 8 := UInt16.lt_iff_toNat_lt
  by_cases hshort : s3.cx < 8
  · rw [if_pos hshort, leftOver_eq hat3, mod_eq_of_lt (hlt.mp hshort)]
    rfl
  · have hge : 8 ≤ dataLen.toNat := Nat.le_of_not_lt (fun h => hshort (hlt.mpr h))
    have hat4 : ClosedAt (countFour s3) data.seg data.off dataLen _ := ⟨rfl, rfl, rfl, hhead.closed⟩
    have hcx4 : (countFour s3).cx.toNat = dataLen.toNat / 8 := countFour_cx s3
    have hloop := unrolled_at mem hat4 rfl (by omega)
    rw [if_neg hshort, leftOver_eq hloop, hcx4, add_assoc _ (wordSum (bytesFrom ..)),
      ← @wordSum_append (bytesFrom ..) _ (by rw [bytesFrom_length]; omega), ← bytesFrom_add,
      show dataLen.toNat / 8 * 8 + dataLen.toNat % 8 = dataLen.toNat by omega]
    rfl

/-! ## 9. The C functions compute it too -/

theorem foldTop_spec {sum : Nat} (h : sum < 0x100000000) :
    foldTop sum < 0x80000000 ∧ around 65536 (foldTop sum) = around 65536 sum := by
  unfold foldTop
  split
  · exact ⟨by omega, around_fold (by decide) sum⟩
  · exact ⟨by omega, rfl⟩

/-- The upper part is folded before it could overflow. -/
theorem addWords_spec (data : List UInt8) {sum : Nat} (h : sum < 0x80000000) :
    around 65536 (addWords data sum) = around 65536 (sum + wordSum data) := by
  induction data using wordSum.induct generalizing sum with
  | case1 => rw [addWords, wordSum, add_zero]
  | case2 a =>
    have := a.toNat_lt
    rw [addWords, wordSum, mod_eq_of_lt (by omega)]
  | case3 a b rest ih =>
    have hw := (word a b).toNat_lt
    have hmod : (sum + (word a b).toNat) % 0x100000000 = sum + (word a b).toNat :=
      mod_eq_of_lt (by omega)
    obtain ⟨hlt, hsame⟩ := @foldTop_spec (sum + (word a b).toNat) (by omega)
    rw [addWords, wordSum, hmod, ih hlt, ← around_add, hsame, around_add, word_toNat, add_assoc]

theorem foldAll_eq (sum : Nat) : foldAll sum = around 65536 sum :=
  folded_eq (by decide) (le_refl sum)

theorem simpleChecksum_eq (data : List UInt8) : simpleChecksum data = checksum data := by
  unfold simpleChecksum checksum
  rw [foldAll_eq, addWords_spec data (by decide), zero_add]

theorem pseudoChecksum_eq {src target : List UInt8} (h : (src ++ target).length % 2 = 0)
    (data : List UInt8) (protocol : UInt8) :
    pseudoChecksum src target data protocol =
      checksum (pseudoHeader src target protocol (UInt16.ofNat data.length) ++ data) := by
  have heven : (pseudoHeader src target protocol (UInt16.ofNat data.length)).length % 2 = 0 := by
    unfold pseudoHeader
    rw [length_append, length_cons, length_cons, length_cons, length_cons, length_nil]
    omega
  unfold pseudoChecksum checksum
  dsimp only
  have hlt := around_lt (M := 65536) (by decide)
    (addWords (pseudoHeader src target protocol (UInt16.ofNat data.length)) 0)
  rw [wordSum_append heven, foldAll_eq, foldAll_eq]
  have hhead := addWords_spec (pseudoHeader src target protocol (UInt16.ofNat data.length))
    (show 0 < 0x80000000 by decide)
  rw [zero_add] at hhead
  unfold pseudoHeader at hhead hlt ⊢
  rw [addWords_spec data (lt_trans hlt (by decide)), around_add, ← around_add, hhead, around_add]

/-! ## 10. At the receiver -/

/-- Two zero bytes at an even place are replaced by a checksum. -/
def SumFilled (data filled : List UInt8) (sum : UInt16) : Prop :=
  ∃ front back, front.length % 2 = 0 ∧ data = front ++ 0 :: 0 :: back ∧
    filled = front ++ loByte sum :: hiByte sum :: back

theorem checksum_toNat (data : List UInt8) :
    (checksum data).toNat = 65535 - around 65536 (wordSum data) := by
  have hlt := around_lt (M := 65536) (by decide) (wordSum data)
  unfold checksum
  rw [UInt16.toNat_not, UInt16.toNat_ofNat_of_lt' hlt]
  rfl

/-- With its own checksum in it, data sums to zero. -/
theorem SumFilled.zero {data filled : List UInt8} (h : SumFilled data filled (checksum data)) :
    checksum filled = 0 := by
  obtain ⟨front, back, heven, hdata, hfilled⟩ := h
  have hsum : wordSum filled = wordSum data + (checksum data).toNat := by
    rw [hfilled, wordSum_append heven, wordSum, loByte_toNat, hiByte_toNat]
    conv_rhs => rw [hdata, wordSum_append heven, wordSum, ← hdata]
    rw [UInt8.toNat_zero]
    omega
  apply UInt16.toNat_inj.mp
  rw [checksum_toNat, hsum, checksum_toNat, around_complement (by decide)]
  rfl

theorem SumFilled.append {data filled : List UInt8} {sum : UInt16} (h : SumFilled data filled sum)
    {header : List UInt8} (heven : header.length % 2 = 0) :
    SumFilled (header ++ data) (header ++ filled) sum := by
  obtain ⟨front, back, hfront, rfl, rfl⟩ := h
  refine ⟨header ++ front, back, ?_, ?_, ?_⟩
  · rw [length_append]
    omega
  · rw [append_assoc]
  · rw [append_assoc]

/-- **The three procedures compute the checksum of the Internet**, as the C functions do, and with
the checksum in its field a segment sums to zero at the receiver. -/
theorem checksums_exact (mem : Memory) (s : Cpu) (src target header data : Far) (protocol : UInt8) :
    (∀ len : UInt16, 2 ≤ len.toNat →
      ipchksum mem s data len = checksum (data.bytes mem len.toNat) ∧
      ipchksum mem s data len = simpleChecksum (data.bytes mem len.toNat) ∧
      ∀ mem' s' data', SumFilled (data.bytes mem len.toNat) (data'.bytes mem' len.toNat)
          (ipchksum mem s data len) →
        ipchksum mem' s' data' len = 0) ∧
    (∀ len : UInt16, 8 ≤ len.toNat →
      ipPChksum mem s src target data protocol len = checksum
        (pseudoHeader (src.bytes mem 4) (target.bytes mem 4) protocol len ++
          data.bytes mem len.toNat) ∧
      ipPChksum mem s src target data protocol len =
        pseudoChecksum (src.bytes mem 4) (target.bytes mem 4) (data.bytes mem len.toNat) protocol ∧
      ∀ mem' s' src' target' data', src'.bytes mem' 4 = src.bytes mem 4 →
        target'.bytes mem' 4 = target.bytes mem 4 →
        SumFilled (data.bytes mem len.toNat) (data'.bytes mem' len.toNat)
          (ipPChksum mem s src target data protocol len) →
        ipPChksum mem' s' src' target' data' protocol len = 0) ∧
    ∀ headerLen dataLen : UInt16, 0 < headerLen.toNat → headerLen.toNat % 4 = 0 →
      ipPChksum2 mem s src target header protocol headerLen data dataLen = checksum
        (pseudoHeader (src.bytes mem 4) (target.bytes mem 4) protocol (headerLen + dataLen) ++
          (header.bytes mem headerLen.toNat ++ data.bytes mem dataLen.toNat)) ∧
      (headerLen.toNat + dataLen.toNat < 65536 →
        ipPChksum2 mem s src target header protocol headerLen data dataLen =
          pseudoChecksum (src.bytes mem 4) (target.bytes mem 4)
            (header.bytes mem headerLen.toNat ++ data.bytes mem dataLen.toNat) protocol ∧
        ∀ mem' s' src' target' data', 8 ≤ headerLen.toNat + dataLen.toNat →
          src'.bytes mem' 4 = src.bytes mem 4 → target'.bytes mem' 4 = target.bytes mem 4 →
          SumFilled (header.bytes mem headerLen.toNat ++ data.bytes mem dataLen.toNat)
            (data'.bytes mem' (headerLen.toNat + dataLen.toNat))
            (ipPChksum2 mem s src target header protocol headerLen data dataLen) →
          ipPChksum mem' s' src' target' data' protocol (headerLen + dataLen) = 0) := by
  have haddr : (src.bytes mem 4 ++ target.bytes mem 4).length % 2 = 0 := by
    simp
  have heven : ∀ len, (pseudoHeader (src.bytes mem 4) (target.bytes mem 4) protocol len).length % 2
      = 0 := fun len => by rw [pseudoHeader_length]
  refine ⟨fun len hlen => ?_, fun len hlen => ?_, fun headerLen dataLen hpos h4 => ?_⟩
  · have heq := ipchksum_eq mem s data hlen
    refine ⟨heq, heq.trans (simpleChecksum_eq _).symm, fun mem' s' data' hfilled => ?_⟩
    rw [heq] at hfilled
    rw [ipchksum_eq mem' s' data' hlen, hfilled.zero]
  · have heq := ipPChksum_eq mem s src target data protocol hlen
    refine ⟨heq, ?_, fun mem' s' src' target' data' hsrc htarget hfilled => ?_⟩
    · rw [heq, pseudoChecksum_eq haddr, Far.bytes_length, UInt16.ofNat_toNat]
    · rw [heq] at hfilled
      rw [ipPChksum_eq mem' s' src' target' data' protocol hlen, hsrc, htarget]
      exact (hfilled.append (heven len)).zero
  · have heq := ipPChksum2_eq mem s src target header data protocol hpos h4 dataLen
    refine ⟨heq, fun hlen => ?_⟩
    have hsum : (headerLen + dataLen).toNat = headerLen.toNat + dataLen.toNat := by
      rw [UInt16.toNat_add, Nat.mod_eq_of_lt hlen]
    refine ⟨?_, fun mem' s' src' target' data' h8 hsrc htarget hfilled => ?_⟩
    · rw [heq, pseudoChecksum_eq haddr, List.length_append, Far.bytes_length,
        Far.bytes_length, ← hsum, UInt16.ofNat_toNat]
    · rw [heq] at hfilled
      rw [ipPChksum_eq mem' s' src' target' data' protocol (by omega), hsrc, htarget, hsum]
      exact (hfilled.append (heven _)).zero

/-- Memory that holds its offsets, and a processor with the carry set. -/
def offsets : Memory := fun _ off => UInt8.ofNat off.toNat

def anyCpu : Cpu := ⟨0, 0, 0, 0, 0, 0, true⟩

theorem checksums_three :
    ipchksum offsets anyCpu ⟨0, 0⟩ 3 = 0xfefd ∧
      ipPChksum offsets anyCpu ⟨0, 4⟩ ⟨0, 8⟩ ⟨0, 0⟩ 17 9 = 0xb5cf ∧
      ipPChksum2 offsets anyCpu ⟨0, 4⟩ ⟨0, 8⟩ ⟨0, 32⟩ 17 8 ⟨0, 0⟩ 3 = 0x3255 := by
  obtain ⟨hsum, hpseudo, htwo⟩ :=
    checksums_exact offsets anyCpu ⟨0, 4⟩ ⟨0, 8⟩ ⟨0, 32⟩ ⟨0, 0⟩ 17
  exact ⟨(hsum 3 (by decide)).1.trans (by decide +kernel),
    (hpseudo 9 (by decide)).1.trans (by decide +kernel),
    (htwo 8 3 (by decide) (by decide)).1.trans (by decide +kernel)⟩

end SdcBoot.Mtcp.Checksum
