/-
# TCP options

`TcpHeader::readMSS` goes through the options of a SYN from the network and stops at an end of list
or where it has come to just the end of the header.  It takes the length of an option from the
packet as it is, and that of an MSS option for 4.  `getTcpHlen` is the data offset in bytes, but for
two of the reserved bits that it takes along.

`Chain` describes the options for which that goes well, byte for byte, and `wellFormed` is the list
of the MSS options that are to be looked at.  `readMSS` ends, inside of the header and with the right
value, just for a chain whose last MSS option is the last well-formed one (`readMSS_right_iff`).
-/
import SdcBoot.Lib.Word

namespace SdcBoot.Mtcp

open Lib.Word List

/-! ## 1. The routine -/

/-- The loop of `readMSS` at the place `p` of the packet, counted from the TCP header: the value, and
the places that are read.  It runs on behind the end of the header, if it does not hit it. -/
def readOptions (mem : Nat → UInt8) (stop : Nat) : Nat → Nat → UInt16 → Option (UInt16 × List Nat)
  | 0, _, _ => none
  | fuel + 1, p, rc =>
    if p = stop then some (rc, [])
    else if mem p = 0 then some (rc, [p])
    else if mem p = 1 then
      (readOptions mem stop fuel (p + 1) rc).map fun r => (r.1, p :: r.2)
    else if mem p = 2 then
      (readOptions mem stop fuel (p + 4) (word (mem (p + 3)) (mem (p + 2)))).map fun r =>
        (r.1, p :: (p + 2) :: (p + 3) :: r.2)
    else
      (readOptions mem stop fuel (p + (mem (p + 1)).toNat) rc).map fun r =>
        (r.1, p :: (p + 1) :: r.2)

/-- `TcpHeader::getTcpHlen`. -/
def getTcpHlen (hlenBits : UInt8) : Nat := hlenBits.toNat / 4

/-- The length of the header that the data offset announces: its upper four bits. -/
def announced (hlenBits : UInt8) : Nat := 4 * (hlenBits.toNat / 16)

/-- `TcpHeader::readMSS`; `none` if the fuel does not suffice. -/
def readMSS (mem : Nat → UInt8) (hlenBits : UInt8) (fuel : Nat) : Option (UInt16 × List Nat) :=
  if getTcpHlen hlenBits ≠ 20 then readOptions mem (getTcpHlen hlenBits) fuel 20 536
  else some (536, [])

/-! ## 2. Options -/

/-- The bytes from `p` on. -/
def area (mem : Nat → UInt8) (p : Nat) : Nat → List UInt8
  | 0 => []
  | n + 1 => mem p :: area mem (p + 1) n

/-- The values of the well-formed MSS options before an end of list or a malformed option. -/
def wellFormedFrom : Nat → List UInt8 → List UInt16
  | 0, _ => []
  | _ + 1, [] => []
  | fuel + 1, kind :: rest =>
    if kind = 0 then []
    else if kind = 1 then wellFormedFrom fuel rest
    else
      match kind, rest with
      | 2, 4 :: hi :: lo :: rest => word lo hi :: wellFormedFrom fuel rest
      | 2, _ => []
      | _, [] => []
      | _, len :: body =>
        if 2 ≤ len.toNat ∧ len.toNat ≤ body.length + 2 then
          wellFormedFrom fuel (body.drop (len.toNat - 2))
        else []

def wellFormed (options : List UInt8) : List UInt16 := wellFormedFrom options.length options

/-- The options the routine comes to, all of them inside, with the values of the MSS options.  The
routine takes the header for `slack` bytes longer than it is, so only a last option that is too long
brings it to its end there. -/
inductive Chain (slack : Nat) : List UInt8 → List UInt16 → Prop where
  | nil (h : slack = 0) : Chain slack [] []
  | endOfList {rest : List UInt8} : Chain slack (0 :: rest) []
  | noOp {rest : List UInt8} {vs : List UInt16} (h : Chain slack rest vs) :
      Chain slack (1 :: rest) vs
  | mss {len hi lo : UInt8} {rest : List UInt8} {vs : List UInt16} (h : Chain slack rest vs) :
      Chain slack (2 :: len :: hi :: lo :: rest) (word lo hi :: vs)
  | other {kind len : UInt8} {rest : List UInt8} {vs : List UInt16}
      (hkind : kind ≠ 0 ∧ kind ≠ 1 ∧ kind ≠ 2) (hpos : len ≠ 0)
      (hinside : len.toNat ≤ (kind :: len :: rest).length)
      (h : Chain slack ((kind :: len :: rest).drop len.toNat) vs) :
      Chain slack (kind :: len :: rest) vs
  | beyond {kind len : UInt8} {rest : List UInt8} (hkind : kind ≠ 0 ∧ kind ≠ 1 ∧ kind ≠ 2)
      (hlen : len.toNat = (kind :: len :: rest).length + slack) : Chain slack (kind :: len :: rest) []

/-! ## 3. The routine and the chain -/

@[simp] theorem length_area (mem : Nat → UInt8) (n : Nat) : ∀ p, (area mem p n).length = n := by
  induction n with
  | zero => exact fun _ => rfl
  | succ n ih => exact fun p => by rw [area, length_cons, ih]

theorem drop_area (mem : Nat → UInt8) (k : Nat) : ∀ p n,
    (area mem p n).drop k = area mem (p + k) (n - k) := by
  induction k with
  | zero => exact fun p n => rfl
  | succ k ih =>
    intro p n
    cases n with
    | zero => rw [Nat.zero_sub]; rfl
    | succ n => rw [area, drop_succ_cons, ih, add_right_comm, Nat.succ_sub_succ]; rfl

variable {mem : Nat → UInt8} {hlen slack : Nat}

variable {fuel p stop : Nat} {rc value : UInt16} {reads : List Nat}

/-- The kind and the length of an option that has both. -/
theorem cons_cons_eq_area {kind len : UInt8} {rest : List UInt8} {n : Nat}
    (h : kind :: len :: rest = area mem p n) :
    ∃ m, n = m + 2 ∧ kind = mem p ∧ len = mem (p + 1) ∧ rest = area mem (p + 2) m := by
  cases n with
  | zero => cases h
  | succ n =>
    obtain ⟨hkind, h⟩ := List.cons.inj h
    cases n with
    | zero => cases h
    | succ n =>
      obtain ⟨hlen, hrest⟩ := List.cons.inj h
      exact ⟨n, rfl, hkind, hlen, hrest⟩

/-- The routine ends, and has read nothing but what lies from `p` on in the header. -/
def Inside (mem : Nat → UInt8) (hlen slack p : Nat) (rc value : UInt16) : Prop :=
  ∃ fuel reads, readOptions mem (hlen + slack) fuel p rc = some (value, reads) ∧
    ∀ q ∈ reads, p ≤ q ∧ q < hlen

/-- A chain is read to its end. -/
theorem Chain.inside {options : List UInt8} {vs : List UInt16} (h : Chain slack options vs) :
    ∀ {p n : Nat}, options = area mem p n → p + n = hlen → ∀ rc : UInt16,
      Inside mem hlen slack p rc (vs.getLastD rc) := by
  induction h with
  | nil hslack =>
    intro p n hoptions hend rc
    cases n with
    | zero => exact ⟨1, [], by rw [readOptions, if_pos (by omega)]; rfl, by simp⟩
    | succ n => cases hoptions
  | endOfList =>
    intro p n hoptions hend rc
    cases n with
    | zero => cases hoptions
    | succ n =>
      obtain ⟨hkind, -⟩ := List.cons.inj hoptions
      refine ⟨1, [p], ?_, ?_⟩
      · rw [readOptions, if_neg (by omega), if_pos hkind.symm]
        rfl
      · simp
        omega
  | noOp _ ih =>
    intro p n hoptions hend rc
    cases n with
    | zero => cases hoptions
    | succ n =>
      obtain ⟨hkind, hrest⟩ := List.cons.inj hoptions
      obtain ⟨fuel, reads, hread, hinside⟩ := ih hrest (by omega) rc
      refine ⟨fuel + 1, p :: reads, ?_, ?_⟩
      · rw [readOptions, if_neg (by omega), if_neg (by rw [← hkind]; decide), if_pos hkind.symm, hread]
        rfl
      · intro q hq
        rcases mem_cons.mp hq with rfl | hq
        · omega
        · have := hinside q hq
          omega
  | @mss len hi lo rest vs _ ih =>
    intro p n hoptions hend rc
    obtain ⟨n, rfl, hkind, -, hvalue⟩ := cons_cons_eq_area hoptions
    obtain ⟨n, rfl, hhi, hlo, hrest⟩ := cons_cons_eq_area hvalue
    obtain ⟨fuel, reads, hread, hinside⟩ := ih hrest (by omega) (word lo hi)
    refine ⟨fuel + 1, p :: (p + 2) :: (p + 3) :: reads, ?_, ?_⟩
    · rw [readOptions, if_neg (by omega), if_neg (by rw [← hkind]; decide),
        if_neg (by rw [← hkind]; decide), if_pos hkind.symm, ← hhi, ← hlo, hread]
      cases vs <;> rfl
    · intro q hq
      simp only [mem_cons] at hq
      rcases hq with rfl | rfl | rfl | hq
      · omega
      · omega
      · omega
      · have := hinside q hq
        omega
  | @other kind len rest vs hkind hpos hlen' _ ih =>
    intro p n hoptions hend rc
    obtain ⟨n, rfl, hk, hl, -⟩ := cons_cons_eq_area hoptions
    have hle : len.toNat ≤ n + 2 := by
      rw [hoptions, length_area] at hlen'
      exact hlen'
    obtain ⟨fuel, reads, hread, hinside⟩ := ih (p := p + len.toNat) (n := n + 2 - len.toNat)
      (by rw [hoptions, drop_area]) (by omega) rc
    refine ⟨fuel + 1, p :: (p + 1) :: reads, ?_, ?_⟩
    · rw [readOptions, if_neg (by omega), if_neg (hk ▸ hkind.1), if_neg (hk ▸ hkind.2.1),
        if_neg (hk ▸ hkind.2.2), ← hl, hread]
      rfl
    · intro q hq
      simp only [mem_cons] at hq
      rcases hq with rfl | rfl | hq
      · omega
      · omega
      · have := hinside q hq
        omega
  | @beyond kind len rest hkind hlen' =>
    intro p n hoptions hend rc
    rw [hoptions, length_area] at hlen'
    obtain ⟨n, rfl, hk, hl, -⟩ := cons_cons_eq_area hoptions
    refine ⟨2, [p, p + 1], ?_, ?_⟩
    · rw [readOptions, if_neg (by omega), if_neg (hk ▸ hkind.1), if_neg (hk ▸ hkind.2.1),
        if_neg (hk ▸ hkind.2.2), ← hl, readOptions, if_pos (by omega)]
      rfl
    · simp
      omega

/-- At an option of length 0 the routine stays for ever. -/
theorem readOptions_stuck (hp : p ≠ stop) (hkind : mem p ≠ 0 ∧ mem p ≠ 1 ∧ mem p ≠ 2)
    (hlen' : mem (p + 1) = 0) (rc : UInt16) : ∀ fuel, readOptions mem stop fuel p rc = none := by
  intro fuel
  induction fuel with
  | zero => rfl
  | succ fuel ih =>
    have hstay : p + (mem (p + 1)).toNat = p := by rw [hlen', UInt8.toNat_zero, add_zero]
    rw [readOptions, if_neg hp, if_neg hkind.1, if_neg hkind.2.1, if_neg hkind.2.2, hstay, ih]
    rfl

/-- One round that ends: what option it is at, what it has read of it, and the rest of the run. -/
inductive RoundOf (mem : Nat → UInt8) (stop fuel p : Nat) (rc value : UInt16) : List Nat → Prop where
  | endOfList (hkind : mem p = 0) (hvalue : value = rc) : RoundOf mem stop fuel p rc value [p]
  | noOp {reads : List Nat} (hkind : mem p = 1)
      (hread : readOptions mem stop fuel (p + 1) rc = some (value, reads)) :
      RoundOf mem stop fuel p rc value (p :: reads)
  | mss {reads : List Nat} (hkind : mem p = 2)
      (hread : readOptions mem stop fuel (p + 4) (word (mem (p + 3)) (mem (p + 2))) =
        some (value, reads)) :
      RoundOf mem stop fuel p rc value (p :: (p + 2) :: (p + 3) :: reads)
  | other {reads : List Nat} (hkind : mem p ≠ 0 ∧ mem p ≠ 1 ∧ mem p ≠ 2)
      (hread : readOptions mem stop fuel (p + (mem (p + 1)).toNat) rc = some (value, reads)) :
      RoundOf mem stop fuel p rc value (p :: (p + 1) :: reads)

theorem readOptions_round (hp : p ≠ stop)
    (h : readOptions mem stop (fuel + 1) p rc = some (value, reads)) :
    RoundOf mem stop fuel p rc value reads := by
  rw [readOptions, if_neg hp] at h
  rcases ite_eq_iff.mp h with ⟨hkind, hend⟩ | ⟨hne0, h⟩
  · cases hend
    exact .endOfList hkind rfl
  rcases ite_eq_iff.mp h with ⟨hkind, hnext⟩ | ⟨hne1, h⟩
  · obtain ⟨⟨value', reads'⟩, hread, hr⟩ := Option.map_eq_some_iff.mp hnext
    cases hr
    exact .noOp hkind hread
  rcases ite_eq_iff.mp h with ⟨hkind, hnext⟩ | ⟨hne2, hnext⟩
  · obtain ⟨⟨value', reads'⟩, hread, hr⟩ := Option.map_eq_some_iff.mp hnext
    cases hr
    exact .mss hkind hread
  · obtain ⟨⟨value', reads'⟩, hread, hr⟩ := Option.map_eq_some_iff.mp hnext
    cases hr
    exact .other ⟨hne0, hne1, hne2⟩ hread

/-- Short of its end the routine reads the byte it stands at. -/
theorem reads_head (hp : p ≠ stop)
    (h : readOptions mem stop fuel p rc = some (value, reads)) : p ∈ reads := by
  cases fuel with
  | zero => cases h
  | succ fuel =>
    cases readOptions_round hp h with
    | endOfList => exact mem_singleton_self p
    | noOp | mss | other => exact mem_cons_self

/-- What is read inside of the header is a chain. -/
theorem chain_of_inside (fuel : Nat) : ∀ {p n : Nat} {rc value : UInt16} {reads : List Nat},
    p + n = hlen → readOptions mem (hlen + slack) fuel p rc = some (value, reads) →
    (∀ q ∈ reads, q < hlen) →
    ∃ vs, Chain slack (area mem p n) vs ∧ value = vs.getLastD rc := by
  induction fuel with
  | zero => exact nofun
  | succ fuel ih =>
    intro p n rc value reads hend h hinside
    by_cases hp : p = hlen + slack
    · rw [readOptions, if_pos hp] at h
      cases h
      obtain rfl : n = 0 := by omega
      exact ⟨[], .nil (by omega), rfl⟩
    · have hlt : p < hlen := hinside p (reads_head hp h)
      cases readOptions_round hp h with
      | endOfList hkind hvalue =>
        obtain ⟨n, rfl⟩ : ∃ m, n = m + 1 := ⟨n - 1, by omega⟩
        rw [area, hkind]
        exact ⟨[], .endOfList, hvalue⟩
      | noOp hkind hread =>
        obtain ⟨n, rfl⟩ : ∃ m, n = m + 1 := ⟨n - 1, by omega⟩
        obtain ⟨vs, hchain, hvalue⟩ := ih (n := n) (by omega) hread
          fun q hq => hinside q (.tail _ hq)
        rw [area, hkind]
        exact ⟨vs, .noOp hchain, hvalue⟩
      | mss hkind hread =>
        have h3 : p + 3 < hlen := hinside _ (by simp)
        obtain ⟨n, rfl⟩ : ∃ m, n = m + 4 := ⟨n - 4, by omega⟩
        obtain ⟨vs, hchain, hvalue⟩ := ih (n := n) (by omega) hread
          fun q hq => hinside q (by simp [hq])
        refine ⟨word (mem (p + 3)) (mem (p + 2)) :: vs, ?_, ?_⟩
        · rw [area, hkind]
          exact .mss hchain
        · rw [hvalue]
          cases vs <;> rfl
      | @other reads' hkind hread =>
        have h1 : p + 1 < hlen := hinside _ (by simp)
        have hpos : mem (p + 1) ≠ 0 := by
          intro hz
          rw [readOptions_stuck hp hkind hz] at h
          cases h
        have hinside' : ∀ q ∈ reads', q < hlen := fun q hq => hinside q (by simp [hq])
        obtain ⟨n, rfl⟩ : ∃ m, n = m + 2 := ⟨n - 2, by omega⟩
        by_cases hle : p + (mem (p + 1)).toNat ≤ hlen
        · have hle' : (mem (p + 1)).toNat ≤ n + 2 := by omega
          obtain ⟨vs, hchain, hvalue⟩ := ih (n := n + 2 - (mem (p + 1)).toNat)
            (by rw [add_assoc, Nat.add_sub_cancel' hle', hend]) hread hinside'
          rw [← drop_area] at hchain
          refine ⟨vs, .other hkind hpos ?_ hchain, hvalue⟩
          simpa only [length_cons, length_area] using hle'
        · -- behind the header nothing is read any more: it has hit the end it takes
          have hstop : p + (mem (p + 1)).toNat = hlen + slack := by
            by_contra hne
            exact hle (le_of_lt (hinside' _ (reads_head hne hread)))
          have hvalue : value = rc := by
            cases fuel with
            | zero => cases hread
            | succ fuel =>
              rw [readOptions, if_pos hstop] at hread
              exact (Prod.mk.inj (Option.some.inj hread)).1.symm
          refine ⟨[], .beyond hkind ?_, hvalue⟩
          simp only [length_cons, length_area]
          omega

/-! ## 4. When the routine is right -/

/-- The MSS options the routine comes to end with the last one that counts. -/
def Settles (slack : Nat) (options : List UInt8) : Prop :=
  ∃ vs, Chain slack options vs ∧ vs.getLastD 536 = (wellFormed options).getLastD 536

/-- The bytes of the options in a header that announces so much. -/
def optionsOf (mem : Nat → UInt8) (hlenBits : UInt8) : List UInt8 :=
  area mem 20 (announced hlenBits - 20)

/-- The reserved bits that the routine takes for length. -/
def reservedBytes (hlenBits : UInt8) : Nat := hlenBits.toNat / 4 % 4

theorem getTcpHlen_eq (hlenBits : UInt8) :
    getTcpHlen hlenBits = announced hlenBits + reservedBytes hlenBits := by
  unfold getTcpHlen announced reservedBytes
  omega

/-- **`readMSS` ends, reads nothing but options and returns the last well-formed MSS** just for a
header that is not shorter than the fixed one, and options that are a chain down to the end of list
or to the end the routine takes, whose last MSS option is the last one that counts. -/
theorem readMSS_right_iff (mem : Nat → UInt8) (hlenBits : UInt8) :
    (∃ fuel value reads, readMSS mem hlenBits fuel = some (value, reads) ∧
      (∀ q ∈ reads, 20 ≤ q ∧ q < announced hlenBits) ∧
      value = (wellFormed (optionsOf mem hlenBits)).getLastD 536) ↔
    20 ≤ announced hlenBits ∧ Settles (reservedBytes hlenBits) (optionsOf mem hlenBits) := by
  have hlen := getTcpHlen_eq hlenBits
  unfold readMSS optionsOf
  by_cases hshort : getTcpHlen hlenBits = 20
  · have h20 : announced hlenBits = 20 ∧ reservedBytes hlenBits = 0 := by
      unfold announced reservedBytes at *
      omega
    rw [h20.1, h20.2]
    exact iff_of_true ⟨0, 536, [], if_neg (fun h => h hshort), by simp, rfl⟩
      ⟨le_rfl, [], .nil rfl, rfl⟩
  · rw [hlen] at hshort ⊢
    constructor
    · rintro ⟨fuel, value, reads, hread, hinside, hvalue⟩
      rw [if_pos hshort] at hread
      have hle : 20 ≤ announced hlenBits := by
        have := hinside 20 (reads_head (Ne.symm hshort) hread)
        omega
      obtain ⟨vs, hchain, hlast⟩ := chain_of_inside fuel
        (Nat.add_sub_cancel' hle) hread fun q hq => (hinside q hq).2
      exact ⟨hle, vs, hchain, hlast.symm.trans hvalue⟩
    · rintro ⟨hle, vs, hchain, hlast⟩
      obtain ⟨fuel, reads, hread, hinside⟩ :=
        hchain.inside rfl (Nat.add_sub_cancel' hle) 536
      exact ⟨fuel, _, reads, by rw [if_pos hshort, hread], hinside, hlast⟩

/-- An option whose length is 0 holds the routine for ever. -/
theorem readMSS_never_ends :
    ¬ ∀ (mem : Nat → UInt8) (hlenBits : UInt8),
      ∃ fuel value reads, readMSS mem hlenBits fuel = some (value, reads) ∧
        (∀ q ∈ reads, 20 ≤ q ∧ q < announced hlenBits) ∧
        value = (wellFormed (optionsOf mem hlenBits)).getLastD 536 := by
  intro h
  obtain ⟨fuel, value, reads, hread, -, -⟩ := h (fun q => if q = 20 then 3 else 0) 0x60
  rw [readMSS, if_pos (by decide), readOptions_stuck (by decide) (by decide) rfl] at hread
  cases hread

end SdcBoot.Mtcp
