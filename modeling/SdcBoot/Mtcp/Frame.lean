/-
# What mTCP reads out of a packet (`ip.h`, `tcp.h`, `ipasm.asm`)

A packet is known by a pointer to its first byte; no routine above the packet driver is told how
many bytes came in.  The lengths are those of the headers, 16 bits wide, and differences of them go
round at 64K.  The checksum loops count with `loop`, so a count of zero goes round as well: 65536
times.

What a routine sums, copies or counts is noted as a `Use`, a range of bytes next to the number of
bytes there are.
-/
import SdcBoot.Mtcp.Options
import SdcBoot.Mtcp.Stack

namespace SdcBoot.Mtcp

open List

/-! ## 1. Packets, and the bytes of them that are used -/

/-- A packet: what lies in memory from its start on, and how many of these bytes are its own. -/
structure Datagram where
  mem : Nat → UInt8
  len : Nat

/-- PACKET_BUFFER_LEN. -/
def packetBufferLen : Nat := 1514

/-- A packet as the packet driver delivers it. -/
structure Frame extends Datagram where
  short : len ≤ packetBufferLen

/-- The use of `len` bytes from `start` on, of a packet that has `limit` bytes. -/
structure Use where
  limit : Nat
  start : Nat
  len : Nat
  deriving DecidableEq

def Use.Inside (u : Use) : Prop := u.len = 0 ∨ u.start + u.len ≤ u.limit

instance (u : Use) : Decidable u.Inside := inferInstanceAs (Decidable (_ ∨ _))

namespace Datagram

def use (p : Datagram) (start len : Nat) : Use := ⟨p.len, start, len⟩

@[simp] theorem use_inside (p : Datagram) (start len : Nat) :
    (p.use start len).Inside ↔ len = 0 ∨ start + len ≤ p.len := Iff.rfl

/-! ## 2. The fields of the headers -/

def byte (p : Datagram) (k : Nat) : Nat := (p.mem k).toNat

/-- A word as the machine loads it. -/
def word (p : Datagram) (k : Nat) : Nat := p.byte k + 256 * p.byte (k + 1)

/-- `ntohs` of the word at `k`. -/
def ntohs (p : Datagram) (k : Nat) : Nat := 256 * p.byte k + p.byte (k + 1)

/-- `ntohl` of the double word at `k`. -/
def ntohl (p : Datagram) (k : Nat) : Nat := 65536 * p.ntohs k + p.ntohs (k + 2)

end Datagram

/-- The difference of two `uint16_t`. -/
def sub16 (a b : Nat) : Nat := (a + 65536 - b) % 65536

/-- `sizeof(EthHeader)`. -/
def ethHeaderLen : Nat := 14

namespace Datagram

/-- `getIpHlen`. -/
def ipHlen (p : Datagram) : Nat := p.byte 14 % 16 * 4

/-- `payloadPtr`, from the start of the packet. -/
def payloadPtr (p : Datagram) : Nat := ethHeaderLen + p.ipHlen

def payloadLen (p : Datagram) : Nat := sub16 (p.ntohs 16) p.ipHlen

def isFragment (p : Datagram) : Bool := p.word 20 &&& 0xFF3F != 0

def isLastFragment (p : Datagram) : Bool := p.word 20 &&& 0x0020 == 0

def fragmentOffset (p : Datagram) : Nat := p.ntohs 20 % 8192 * 8

def protocol (p : Datagram) : Nat := p.byte 23

/-- `getTcpHlen`. -/
def tcpHlen (p : Datagram) : Nat := p.byte (p.payloadPtr + 12) / 4

def incomingDataLen (p : Datagram) : Nat := sub16 p.payloadLen p.tcpHlen

/-- `userData`, from the start of the packet. -/
def userData (p : Datagram) : Nat := p.payloadPtr + p.tcpHlen

theorem byte_lt (p : Datagram) (k : Nat) : p.byte k < 256 := (p.mem k).toNat_lt

end Datagram

theorem sub16_lt (a b : Nat) : sub16 a b < 65536 := Nat.mod_lt _ (by decide)

theorem sub16_of_le {a b : Nat} (ha : a < 65536) (hle : b ≤ a) : b + sub16 a b = a := by
  unfold sub16
  omega

/-! ## 3. Checksums -/

/-- `adc`: the sum and the carry. -/
def adc (acc : Nat × Nat) (w : Nat) : Nat × Nat :=
  ((acc.1 + w + acc.2) % 65536, (acc.1 + w + acc.2) / 65536)

/-- Words added to BX with the carry, which is added at the end. -/
def addWords (bx : Nat) (words : List Nat) : Nat :=
  let r := words.foldl adc (bx, 0)
  (r.1 + r.2) % 65536

/-- The rounds of a loop that counts CX down. -/
def loops (cx : Nat) : Nat := if cx = 0 then 65536 else cx

/-- The bytes `ipchksum` reads. -/
def ipchksumLen (len : Nat) : Nat := 2 * loops (len / 2) + len % 2

/-- The bytes `ip_p_chksum` reads; a round takes four words. -/
def pChksumLen (len : Nat) : Nat := 8 * loops (len / 8) + 2 * (len / 2 % 4) + len % 2

namespace Datagram

def words (p : Datagram) (start count : Nat) : List Nat :=
  (List.range count).map fun k => p.word (start + 2 * k)

/-- The last byte of an odd number is added by itself. -/
def addLast (p : Datagram) (len k bx : Nat) : Nat :=
  if len % 2 = 1 then addWords bx [p.byte k] else bx

def ipchksum (p : Datagram) (start len : Nat) : Nat :=
  let count := loops (len / 2)
  let bx := addWords 0 (p.words start count)
  65535 - p.addLast len (start + 2 * count) bx

/-- `ip_p_chksum`; the addresses are given as the words they are loaded as. -/
def ip_p_chksum (p : Datagram) (src target : List Nat) (protocol start len : Nat) : Nat :=
  let pseudo := addWords (addWords 0 (src ++ target)) [256 * protocol, len % 256 * 256 + len / 256]
  let count := loops (len / 8)
  let bx := addWords pseudo (p.words start (4 * count))
  let left := len / 2 % 4
  let bx := if left = 0 then bx else addWords bx (p.words (start + 8 * count) left)
  65535 - p.addLast len (start + 8 * count + 2 * left) bx

end Datagram

/-- `ipchksum` keeps to its length where there is a word to sum. -/
theorem ipchksumLen_of_le {len : Nat} (hlen : 2 ≤ len) : ipchksumLen len = len := by
  unfold ipchksumLen loops
  split <;> omega

theorem ipchksumLen_of_lt {len : Nat} (hlen : len < 2) : 131072 ≤ ipchksumLen len := by
  unfold ipchksumLen loops
  split <;> omega

/-- `ip_p_chksum` keeps to its length where there are four words to sum. -/
theorem pChksumLen_of_le {len : Nat} (hlen : 8 ≤ len) : pChksumLen len = len := by
  unfold pChksumLen loops
  split <;> omega

theorem pChksumLen_of_lt {len : Nat} (hlen : len < 8) : 524288 ≤ pChksumLen len := by
  unfold pChksumLen loops
  split <;> omega

namespace Datagram

/-! ## 4. The TCP header -/

/-- Where `readMSS` goes on after the option at `k`; `none` at the end of the list. -/
def nextOption (p : Datagram) (k : Nat) : Option Nat :=
  if p.byte k = 0 then none
  else if p.byte k = 1 then some ((k + 1) % 65536)
  else if p.byte k = 2 then some ((k + 4) % 65536)
  else some ((k + p.byte (k + 1)) % 65536)

/-- The bytes of an option that `readMSS` looks at: its kind, the value of an MSS, the length of
another. -/
def optionLen (p : Datagram) (k : Nat) : Nat :=
  if p.byte k ≤ 1 then 1 else if p.byte k = 2 then 4 else 2

/-- The loop of `readMSS`; `none` when it is not through. -/
def readOptions (p : Datagram) : Nat → Nat → Nat → Option Nat
  | 0, _, _ => none
  | fuel + 1, k, rc =>
    if k = p.userData then some rc
    else
      match p.nextOption k with
      | none => some rc
      | some k' => p.readOptions fuel k' (if p.byte k = 2 then p.ntohs (k + 2) else rc)

/-- `optionsStart`, from the start of the packet. -/
def optionsStart (p : Datagram) : Nat := p.payloadPtr + 20

def readMSS (p : Datagram) (fuel : Nat) : Option Nat :=
  if p.tcpHlen = 20 then some 536 else p.readOptions fuel p.optionsStart 536

/-- The options the loop of `readMSS` reads. -/
def optionUses (p : Datagram) : Nat → Nat → List Use
  | 0, _ => []
  | fuel + 1, k =>
    if k = p.userData then []
    else
      p.use k (p.optionLen k) ::
        match p.nextOption k with
        | none => []
        | some k' => p.optionUses fuel k'

/-- What `readMSS` reads. -/
def readMSSUses (p : Datagram) (fuel : Nat) : List Use :=
  if p.tcpHlen = 20 then [] else p.optionUses fuel p.optionsStart

/-- The options that are come to from `k` on. -/
inductive Visited (p : Datagram) (k : Nat) : Nat → Prop
  | start : k ≠ p.userData → Visited p k k
  | next {k' k'' : Nat} : Visited p k k' → p.nextOption k' = some k'' → k'' ≠ p.userData →
      Visited p k k''

/-- The options lie in the packet, and so does the end of their list. -/
def OptionsFit (p : Datagram) : Prop :=
  p.tcpHlen ≠ 20 → ∀ k, p.Visited p.optionsStart k → k + p.optionLen k ≤ p.len

theorem optionLen_pos (p : Datagram) (k : Nat) : 0 < p.optionLen k := by
  unfold optionLen
  split
  · decide
  · split <;> decide

/-- A round of the loop reads an option that is come to. -/
theorem visited_of_mem {p : Datagram} {k : Nat} {u : Use} : ∀ {fuel k' : Nat},
    (k' ≠ p.userData → p.Visited k k') → u ∈ p.optionUses fuel k' →
    ∃ k'', p.Visited k k'' ∧ u = p.use k'' (p.optionLen k'') := by
  intro fuel
  induction fuel with
  | zero =>
    intro k' _ hu
    cases hu
  | succ fuel ih =>
    intro k' hk' hu
    unfold optionUses at hu
    split at hu
    · cases hu
    · rename_i hne
      rcases mem_cons.mp hu with rfl | hrest
      · exact ⟨k', hk' hne, rfl⟩
      · split at hrest
        · cases hrest
        · rename_i next hnext
          exact ih (fun hstop => (hk' hne).next hnext hstop) hrest

/-- Every option that is come to is read, with enough rounds. -/
theorem Visited.read {p : Datagram} {k k' : Nat} (hvis : p.Visited k k') :
    ∃ rounds, ∀ fuel u, u ∈ p.optionUses (fuel + 1) k' → u ∈ p.optionUses (rounds + (fuel + 1)) k := by
  induction hvis with
  | start hne =>
    refine ⟨0, fun fuel u hu => ?_⟩
    rwa [zero_add]
  | @next k₁ k₂ hvis hnext hstop ih =>
    obtain ⟨rounds, hread⟩ := ih
    refine ⟨rounds + 1, fun fuel u hu => ?_⟩
    have hne : k₁ ≠ p.userData := by
      cases hvis with
      | start h => exact h
      | next _ _ h => exact h
    have hstep : u ∈ p.optionUses (fuel + 1 + 1) k₁ := by
      rw [optionUses, if_neg hne, hnext]
      exact mem_cons_of_mem _ hu
    have := hread (fuel + 1) u hstep
    rwa [show rounds + 1 + (fuel + 1) = rounds + (fuel + 1 + 1) by omega]

/-- **`readMSS` stays inside** when the options fit. -/
theorem readMSS_inside_iff (p : Datagram) :
    (∀ fuel, ∀ u ∈ p.readMSSUses fuel, u.Inside) ↔ p.OptionsFit := by
  unfold readMSSUses OptionsFit
  constructor
  · intro hall hne k hvis
    have hk : k ≠ p.userData := by
      cases hvis with
      | start h => exact h
      | next _ _ h => exact h
    obtain ⟨rounds, hread⟩ := hvis.read
    have hmem : p.use k (p.optionLen k) ∈ p.optionUses (0 + 1) k := by
      rw [optionUses, if_neg hk]
      exact mem_cons_self
    have hin := hall (rounds + (0 + 1)) (p.use k (p.optionLen k))
    rw [if_neg hne] at hin
    have hpos := p.optionLen_pos k
    rcases hin (hread 0 _ hmem) with h | h
    · exact absurd h (pos_iff_ne_zero.mp hpos)
    · exact h
  · intro hfit fuel u hu
    split at hu
    · cases hu
    · rename_i hne
      obtain ⟨k, hvis, rfl⟩ := visited_of_mem (fun h => Visited.start h) hu
      exact .inr (hfit hne k hvis)

/-- Below 64K the loop finds what it does with places that are numbers. -/
theorem readOptions_eq (p : Datagram) {value : UInt16} {reads : List Nat}
    (hlow : ∀ k ∈ reads, p.payloadPtr + k + 255 < 65536) : ∀ {fuel k : Nat} {rc : UInt16},
    Mtcp.readOptions (fun k => p.mem (p.payloadPtr + k)) p.tcpHlen fuel k rc = some (value, reads) →
    p.readOptions fuel (p.payloadPtr + k) rc.toNat = some value.toNat := by
  intro fuel
  induction fuel generalizing reads with
  | zero => nofun
  | succ fuel ih =>
    intro k rc h
    have hend : p.payloadPtr + k = p.userData ↔ k = p.tcpHlen := add_left_cancel_iff
    rw [readOptions, if_congr hend rfl rfl]
    by_cases hstop : k = p.tcpHlen
    · rw [Mtcp.readOptions, if_pos hstop] at h
      cases h
      exact if_pos hstop
    rw [if_neg hstop]
    have hplace : ∀ d < 256, (p.payloadPtr + (k + d)) % 65536 = p.payloadPtr + (k + d) := fun d hd => by
      have := hlow k (reads_head hstop h)
      omega
    cases readOptions_round hstop h with
    | endOfList hkind hvalue => simp [nextOption, byte, hkind, hvalue]
    | noOp hkind hread =>
      have := ih (fun k hk => hlow k (by simp [hk])) hread
      simpa [nextOption, byte, hkind, add_assoc, hplace]
    | mss hkind hread =>
      have := ih (fun k hk => hlow k (by simp [hk])) hread
      rw [Lib.Word.word_toNat, add_comm (p.mem _).toNat] at this
      simpa [nextOption, byte, hkind, add_assoc, hplace, ntohs]
    | other hkind hread =>
      have := ih (fun k hk => hlow k (by simp [hk])) hread
      simp only [ne_eq, ← UInt8.toNat_inj, UInt8.reduceToNat] at hkind
      simpa [nextOption, byte, hkind, add_assoc, hplace _ (p.mem _).toNat_lt]

/-- **It is `readMSS`** on the bytes from the TCP header on. -/
theorem readMSS_eq (p : Datagram) {fuel : Nat} {value : UInt16} {reads : List Nat}
    (hlow : ∀ k ∈ reads, p.payloadPtr + k + 255 < 65536)
    (h : Mtcp.readMSS (fun k => p.mem (p.payloadPtr + k)) (p.mem (p.payloadPtr + 12)) fuel =
      some (value, reads)) : p.readMSS fuel = some value.toNat := by
  unfold Mtcp.readMSS at h
  unfold readMSS
  split_ifs at h with hlen
  · exact (if_neg hlen).trans (p.readOptions_eq hlow h)
  · cases h
    exact if_pos (not_not.mp hlen)

end Datagram

end SdcBoot.Mtcp
