/-
# The name that is asked for

`sendRequest` puts a host name into a question: it writes each length where the dot was, once it has
come to the next one.  `wire` is what that has to come to, label by label; `encodeLoop_labels` says that
it does, and `decodeLoop_wire` that `decodeName` makes the name of it again.

`resolve` keeps the length of the name in eight bits.  A name of 256 characters or more passes its
test whenever the length, so cut, is small enough; `resolve_sound_iff` says that this is all.
-/
import Mathlib.Data.List.TakeWhile
import SdcBoot.Lib.Word
import SdcBoot.Mtcp.Dns

namespace SdcBoot.Mtcp.Dns

open Lib.Word List

/-! ## 1. sendRequest -/

/-- The header of a query. -/
def header (recursionDesired : Bool) (ident : UInt16) : List UInt8 :=
  [hiByte ident, loByte ident, if recursionDesired then 1 else 0, 0x80, 0, 1, 0, 0, 0, 0, 0, 0]

/-- The loop of `sendRequest`, and what it does behind it.  `query.data` is what was written of it;
the byte at `lenByte` is not set yet. -/
def encodeLoop : List UInt8 → Nat → UInt8 → List UInt8 → List UInt8
  | [], lenByte, sublen, data => data.set lenByte sublen ++ [0, 0, 1, 0, 1]
  | c :: serverName, lenByte, sublen, data =>
    if c = dot then encodeLoop serverName data.length 0 (data.set lenByte sublen ++ [0])
    else encodeLoop serverName lenByte (sublen + 1) (data ++ [c])

/-- What is handed to `Udp::sendUdp`. -/
structure Query where
  bytes : List UInt8
  reqLen : UInt8

/-- `strlen` in sixteen bits. -/
def strlen16 (serverName : List UInt8) : Nat := serverName.length % 65536

def sendRequest (recursionDesired : Bool) (serverName : List UInt8) (ident : UInt16) : Query where
  bytes := header recursionDesired ident ++
    encodeLoop (serverName.take (strlen16 serverName)) 0 0 [0]
  reqLen := UInt8.ofNat (12 + strlen16 serverName + 2 + 4)

/-! ## 2. resolve -/

abbrev IpAddr := UInt8 × UInt8 × UInt8 × UInt8

def isdigit (c : UInt8) : Bool := 48 ≤ c && c ≤ 57

def isspace (c : UInt8) : Bool := c == 32 || (9 ≤ c && c ≤ 13)

/-- `%d` of `sscanf`. -/
def scanDecimal (s : List UInt8) : Option (UInt16 × List UInt8) :=
  let s := s.dropWhile isspace
  let (negative, s) := match s with
    | 45 :: rest => (true, rest)
    | 43 :: rest => (false, rest)
    | _ => (false, s)
  let digits := s.takeWhile isdigit
  let value : UInt16 := digits.foldl (fun v c => 10 * v + (c - 48).toUInt16) 0
  if digits = [] then none
  else some (if negative then 0 - value else value, s.dropWhile isdigit)

/-- A dot of the format. -/
def scanDot : List UInt8 → Option (List UInt8)
  | c :: rest => if c = dot then some rest else none
  | [] => none

/-- `sscanf` with "%d.%d.%d.%d", if all four are there; an address takes the low bytes. -/
def scanAddress (s : List UInt8) : Option IpAddr := do
  let (tmp1, s) ← scanDecimal s
  let (tmp2, s) ← scanDecimal (← scanDot s)
  let (tmp3, s) ← scanDecimal (← scanDot s)
  let (tmp4, _) ← scanDecimal (← scanDot s)
  return (tmp1.toUInt8, tmp2.toUInt8, tmp3.toUInt8, tmp4.toUInt8)

structure DnsState where
  nameServer : IpAddr
  ipThisMachine : IpAddr
  dnsTable : List (List UInt8 × IpAddr)
  queryPending : Bool
  lastQueryRc : UInt8

/-- `Dns::find`. -/
def find (s : DnsState) (name : List UInt8) : Option IpAddr :=
  (s.dnsTable.find? fun r => r.1 == name).map (·.2)

/-- `strlen` in eight bits. -/
def strlen8 (serverName : List UInt8) : Nat := serverName.length % 256

def allNumeric (serverName : List UInt8) : Bool :=
  (serverName.take (strlen8 serverName)).all fun c => isdigit c || c == dot

/-- An address in digits. -/
def numeric (serverName : List UInt8) : Option IpAddr :=
  if allNumeric serverName then scanAddress serverName else none

/-- What `resolve` has done: `pendingName` is what it copied into the pending record, and `requested`
what it has called `sendRequest` with. -/
structure Resolved where
  rc : Int
  target : Option IpAddr
  state : DnsState
  pendingName : Option (List UInt8)
  requested : Option (List UInt8)

/-- `Dns::resolve`. -/
def resolve (s : DnsState) (serverName : List UInt8) (sendReq : UInt8) : Resolved :=
  match numeric serverName with
  | some addr => ⟨0, some addr, s, none, none⟩
  | none =>
    if s.nameServer = s.ipThisMachine then ⟨-2, none, s, none, none⟩
    else if strlen8 serverName ≥ DNS_MAX_NAME_LEN then ⟨-1, none, s, none, none⟩
    else
      match find s serverName with
      | some addr => ⟨0, some addr, s, none, none⟩
      | none =>
        if s.queryPending then ⟨2, none, s, none, none⟩
        else if sendReq = 0 then ⟨3, none, s, none, none⟩
        else
          ⟨1, none, { s with queryPending := true, lastQueryRc := 0 }, some serverName,
            some serverName⟩

/-! ## 3. The wire format -/

/-- The labels with their lengths, and the zero byte. -/
def wire : List (List UInt8) → List UInt8
  | [] => [0]
  | label :: labels => UInt8.ofNat label.length :: (label ++ wire labels)

/-- A host name in its labels. -/
structure WellFormed (labels : List (List UInt8)) : Prop where
  some : labels ≠ []
  noDot : ∀ label ∈ labels, dot ∉ label
  nonempty : ∀ label ∈ labels, 0 < label.length
  short : ∀ label ∈ labels, label.length ≤ 63

/-- The name with its dots. -/
def dotted (labels : List (List UInt8)) : List UInt8 := [dot].intercalate labels

/-- Inside of a label the characters are copied, and counted. -/
theorem encodeLoop_label {w : List UInt8} (hw : dot ∉ w) (rest before : List UInt8) (x : UInt8) :
    ∀ copied : List UInt8,
      encodeLoop (w ++ rest) before.length (UInt8.ofNat copied.length) (before ++ x :: copied) =
        encodeLoop rest before.length (UInt8.ofNat (copied ++ w).length)
          (before ++ x :: (copied ++ w)) := by
  induction w with
  | nil => simp
  | cons c w ih =>
    intro copied
    obtain ⟨hc, hw'⟩ := not_or.mp (mt mem_cons.mpr hw)
    have hcount : UInt8.ofNat copied.length + 1 = UInt8.ofNat (copied ++ [c]).length := by
      rw [length_append, length_singleton, UInt8.ofNat_add]
      rfl
    rw [cons_append, encodeLoop, if_neg (Ne.symm hc), hcount, append_assoc,
      cons_append, ih hw' (copied ++ [c]), append_assoc, singleton_append]

/-- The length of a label is put where it belongs. -/
theorem set_length (before copied : List UInt8) (x sublen : UInt8) :
    (before ++ x :: copied).set before.length sublen = before ++ sublen :: copied := by
  rw [set_append_right _ _ le_rfl, Nat.sub_self, set_cons_zero]

variable {labels : List (List UInt8)} {mem : Nat → UInt8} {p : Nat}

/-- The loop writes the labels, each behind its length. -/
theorem encodeLoop_labels (hsome : labels ≠ [])
    (hdots : ∀ label ∈ labels, dot ∉ label) : ∀ before : List UInt8,
    encodeLoop (dotted labels) before.length 0 (before ++ [0]) =
      before ++ wire labels ++ [0, 1, 0, 1] := by
  induction labels with
  | nil => exact absurd rfl hsome
  | cons label labels ih =>
    intro before
    have hlabel := hdots label mem_cons_self
    have hrest : ∀ l ∈ labels, dot ∉ l := fun l hl => hdots l (.tail _ hl)
    cases labels with
    | nil =>
      have hloop := encodeLoop_label hlabel [] before 0 []
      rw [append_nil, nil_append, length_nil] at hloop
      rw [dotted, intercalate_singleton]
      refine hloop.trans ?_
      rw [encodeLoop, set_length]
      simp [wire]
    | cons next labels =>
      have hloop := encodeLoop_label hlabel (dot :: dotted (next :: labels)) before 0 []
      rw [nil_append, length_nil] at hloop
      refine hloop.trans ?_
      have hlength : (before ++ 0 :: label).length =
          (before ++ UInt8.ofNat label.length :: label).length := by simp
      rw [encodeLoop, if_pos rfl, set_length, hlength, ih (cons_ne_nil _ _) hrest]
      simp [wire]

/-! ## 4. Decoding it -/

/-- These bytes lie at `p`. -/
def Lies (mem : Nat → UInt8) (p : Nat) (bytes : List UInt8) : Prop :=
  ∀ i (h : i < bytes.length), mem (p + i) = bytes[i]

theorem Lies.head {b : UInt8} {bytes : List UInt8}
    (h : Lies mem p (b :: bytes)) : mem p = b := h 0 (Nat.succ_pos _)

theorem Lies.tail {b : UInt8} {bytes : List UInt8}
    (h : Lies mem p (b :: bytes)) : Lies mem (p + 1) bytes := by
  intro i hi
  rw [add_right_comm, add_assoc, h (i + 1) (Nat.succ_lt_succ hi)]
  rfl

theorem Lies.right {a b : List UInt8} (h : Lies mem p (a ++ b)) : Lies mem (p + a.length) b := by
  intro i hi
  rw [add_assoc, h (a.length + i) (by rw [length_append]; omega)]
  exact getElem_append_right' a hi ▸ by simp

theorem lies_getD (a b c : List UInt8) : Lies ((a ++ b ++ c).getD · 0) a.length b := by
  intro i hi
  simp [getElem?_append_right, getElem?_append_left, hi]

/-- The text of the labels in `nameBuf`, a dot behind each. -/
def text (labels : List (List UInt8)) : List UInt8 := labels.flatMap (· ++ [dot])

theorem text_eq (h : labels ≠ []) : text labels = dotted labels ++ [dot] := by
  induction labels with
  | nil => exact absurd rfl h
  | cons label labels ih =>
    cases labels with
    | nil => simp [text, dotted]
    | cons next labels =>
      rw [text, flatMap_cons, ← text, ih (cons_ne_nil _ _)]
      simp [dotted]

theorem wire_length (labels : List (List UInt8)) :
    (wire labels).length = (text labels).length + 1 := by
  induction labels with
  | nil => rfl
  | cons label labels ih =>
    simp only [wire, text, flatMap_cons, length_cons, length_append, ih, length_nil]
    omega

def written (nameBuf : Nat → UInt8) (at' : Nat) (bytes : List UInt8) : Nat → UInt8 :=
  copyTo nameBuf at' bytes.length (bytes.getD · 0)

theorem written_nil (nameBuf : Nat → UInt8) (at' : Nat) : written nameBuf at' [] = nameBuf := by
  funext i
  exact if_neg fun h => lt_irrefl _ (lt_of_le_of_lt h.1 h.2)

theorem written_append (nameBuf : Nat → UInt8) (at' : Nat) (a b : List UInt8) :
    written (written nameBuf at' a) (at' + a.length) b = written nameBuf at' (a ++ b) := by
  funext i
  simp only [written, copyTo, length_append, List.getD]
  by_cases ha : at' ≤ i ∧ i < at' + a.length
  · rw [if_neg (by omega), if_pos ha, if_pos (by omega), getElem?_append_left (by omega)]
  · by_cases hb : at' + a.length ≤ i ∧ i < at' + a.length + b.length
    · rw [if_pos hb, if_pos (by omega), getElem?_append_right (by omega), Nat.sub_sub]
    · rw [if_neg hb, if_neg ha, if_neg (by omega)]

/-- A label that was copied, and its dot. -/
theorem store_dot {label : List UInt8} (h : Lies mem p label) (nameBuf : Nat → UInt8) (at' : Nat) :
    store (copyTo nameBuf at' label.length fun k => mem (p + k)) (at' + label.length : Nat) dot =
      written nameBuf at' (label ++ [dot]) := by
  funext i
  rw [store, if_pos (Int.natCast_nonneg _), Int.toNat_natCast]
  simp only [written, copyTo, length_append, length_singleton, List.getD]
  by_cases hdot : i = at' + label.length
  · subst hdot
    simp
  · rw [Function.update_of_ne hdot, copyTo]
    by_cases hi : at' ≤ i ∧ i < at' + label.length
    · have hlt : i - at' < label.length := by omega
      rw [if_pos hi, if_pos (by omega), h _ hlt, getElem?_append_left hlt,
        getElem?_eq_getElem hlt]
      rfl
    · rw [if_neg hi, if_neg (by omega)]

/-- What was written in the wire format is decoded to the text of the labels, the last dot of which
becomes the zero byte. -/
theorem decodeLoop_wire (hnonempty : ∀ label ∈ labels, 0 < label.length)
    (hshort : ∀ label ∈ labels, label.length ≤ 63) :
    ∀ {p t : Nat} (nameBuf : Nat → UInt8), Lies mem p (wire labels) →
      t + (text labels).length ≤ DNS_MAX_NAME_LEN →
      ∃ fuel d, decodeLoop mem fuel p t none nameBuf = some d ∧
        d.current = p + (wire labels).length ∧
        d.nameBuf = store (written nameBuf t (text labels)) ((t + (text labels).length : Nat) - 1) 0 := by
  induction labels with
  | nil =>
    intro p tmp nameBuf hlies _
    have hzero : (mem p).toNat = 0 := by rw [hlies.head]; rfl
    refine ⟨1, _, by rw [decodeLoop, if_pos hzero], rfl, ?_⟩
    rw [text, flatMap_nil, written_nil, length_nil, Nat.add_zero]
    rfl
  | cons label labels ih =>
    intro p tmp nameBuf hlies hroom
    have hpos := hnonempty label mem_cons_self
    have hle := hshort label mem_cons_self
    have hbyte : (mem p).toNat = label.length := by
      rw [hlies.head, UInt8.toNat_ofNat_of_lt' (lt_of_le_of_lt hle (by decide))]
    have hlabel : Lies mem (p + 1) label := by
      intro i hi
      rw [hlies.tail i (by rw [length_append]; omega), getElem_append_left hi]
    have hrest : Lies mem (p + 1 + label.length) (wire labels) := hlies.tail.right
    have htext : text (label :: labels) = (label ++ [dot]) ++ text labels := by
      rw [text, flatMap_cons, ← text]
    have hlength : (text (label :: labels)).length = label.length + 1 + (text labels).length := by
      rw [htext, length_append, length_append, length_singleton]
    rw [hlength] at hroom ⊢
    obtain ⟨fuel, d, hd, hcurrent, hbuf⟩ := ih
      (fun l hl => hnonempty l (.tail _ hl))
      (fun l hl => hshort l (.tail _ hl))
      (t := tmp + label.length + 1) (written nameBuf tmp (label ++ [dot])) hrest (by omega)
    refine ⟨fuel + 1, d.touch (List.range' p (label.length + 1)) (indices tmp (label.length + 1)),
      ?_, ?_, ?_⟩
    · rw [decodeLoop, hbyte, if_neg (by omega), if_neg (by omega), if_neg (by omega), store_dot hlabel,
        hd]
      rfl
    · rw [Decoded.touch, hcurrent, wire, length_cons, length_append]
      omega
    · have hat : tmp + label.length + 1 = tmp + (label ++ [dot]).length := by simp; omega
      rw [Decoded.touch, hbuf, htext, ← written_append nameBuf tmp (label ++ [dot]), ← hat]
      simp only [add_assoc]

/-! ## 5. The round trip -/

/-- The question decodes to the name, and has the length that is sent. -/
structure RoundTrip (recursionDesired : Bool) (ident : UInt16) (name : List UInt8) : Prop where
  decodes : ∀ nameBuf, ∃ fuel d,
    decodeName ((sendRequest recursionDesired name ident).bytes.getD · 0) fuel 12 nameBuf = some d ∧
      (∀ i (h : i < name.length), d.nameBuf i = name[i]) ∧ d.nameBuf name.length = 0 ∧
      -- the type and the class are what follows
      (sendRequest recursionDesired name ident).bytes.drop d.current = [0, 1, 0, 1]
  reqLen : (sendRequest recursionDesired name ident).reqLen.toNat =
    (sendRequest recursionDesired name ident).bytes.length

/-- Every host name that fits comes back. -/
theorem roundTrip (hlabels : WellFormed labels) (hfits : (dotted labels).length < DNS_MAX_NAME_LEN)
    (recursionDesired : Bool) (ident : UInt16) :
    RoundTrip recursionDesired ident (dotted labels) := by
  have hlt : (dotted labels).length < 128 := hfits
  have hlen : strlen16 (dotted labels) = (dotted labels).length := Nat.mod_eq_of_lt (by omega)
  have hbytes : (sendRequest recursionDesired (dotted labels) ident).bytes =
      header recursionDesired ident ++ wire labels ++ [0, 1, 0, 1] := by
    have hloop := encodeLoop_labels hlabels.some hlabels.noDot []
    rw [sendRequest, hlen, take_length, append_assoc]
    exact congrArg (header recursionDesired ident ++ ·) hloop
  have hheader : (header recursionDesired ident).length = 12 := rfl
  have htext := text_eq hlabels.some
  have htextLen : (text labels).length = (dotted labels).length + 1 := by
    rw [htext, length_append, length_singleton]
  refine ⟨fun nameBuf => ?_, ?_⟩
  · obtain ⟨fuel, d, hd, hcurrent, hbuf⟩ := decodeLoop_wire (t := 0) hlabels.nonempty
      hlabels.short nameBuf (lies_getD (header recursionDesired ident) (wire labels) [0, 1, 0, 1])
      (by omega)
    have hend : ((0 + (text labels).length : Nat) : Int) - 1 = ((dotted labels).length : Nat) := by
      omega
    rw [hend, htext, store, if_pos (Int.natCast_nonneg _), Int.toNat_natCast] at hbuf
    rw [hheader] at hd hcurrent
    refine ⟨fuel, d, by rw [decodeName, hbytes, hd], ?_, ?_, ?_⟩
    · intro i hi
      rw [hbuf, Function.update_of_ne (ne_of_lt hi), written, copyTo,
        if_pos (by simp; omega), Nat.sub_zero, List.getD, getElem?_append_left hi,
        getElem?_eq_getElem hi]
      rfl
    · rw [hbuf, Function.update_self]
    · rw [hbytes, hcurrent, ← hheader, ← length_append, drop_left]
  · rw [hbytes, length_append, length_append, wire_length, htextLen, hheader, sendRequest,
      hlen, UInt8.toNat_ofNat_of_lt' (by rw [UInt8.size]; omega)]
    simp only [length_cons, length_nil]
    omega

/-! ## 6. resolve -/

/-- Nothing but the length keeps `resolve` from asking. -/
structure Asked (s : DnsState) (serverName : List UInt8) (sendReq : UInt8) : Prop where
  notNumeric : numeric serverName = none
  server : s.nameServer ≠ s.ipThisMachine
  notCached : find s serverName = none
  notBusy : s.queryPending = false
  wanted : sendReq ≠ 0

/-- What is asked for, and when. -/
theorem resolve_passes_iff (s : DnsState) (serverName : List UInt8) (sendReq : UInt8)
    (n : List UInt8) :
    ((resolve s serverName sendReq).requested = some n ∨
      (resolve s serverName sendReq).pendingName = some n) ↔
    n = serverName ∧ Asked s serverName sendReq ∧ strlen8 serverName < DNS_MAX_NAME_LEN := by
  unfold resolve
  split
  · rename_i hnum
    simp only [reduceCtorEq, or_self, false_iff]
    exact fun ⟨_, h, _⟩ => by rw [h.notNumeric] at hnum; cases hnum
  · rename_i hnum
    split
    · rename_i hserver
      simp only [reduceCtorEq, or_self, false_iff]
      exact fun ⟨_, h, _⟩ => h.server hserver
    · rename_i hserver
      split
      · rename_i hlong
        simp only [reduceCtorEq, or_self, false_iff]
        exact fun ⟨_, _, h⟩ => not_lt.mpr hlong h
      · rename_i hfits
        split
        · rename_i hcached
          simp only [reduceCtorEq, or_self, false_iff]
          exact fun ⟨_, h, _⟩ => by rw [h.notCached] at hcached; cases hcached
        · rename_i hcached
          split
          · rename_i hbusy
            simp only [reduceCtorEq, or_self, false_iff]
            exact fun ⟨_, h, _⟩ => by rw [h.notBusy] at hbusy; cases hbusy
          · rename_i hbusy
            split
            · rename_i hwanted
              simp only [reduceCtorEq, or_self, false_iff]
              exact fun ⟨_, h, _⟩ => h.wanted hwanted
            · rename_i hwanted
              simp only [or_self, Option.some.injEq]
              constructor
              · rintro rfl
                exact ⟨rfl, ⟨hnum, hserver, hcached, Bool.eq_false_of_not_eq_true hbusy, hwanted⟩,
                  not_le.mp hfits⟩
              · exact fun h => h.1.symm

/-- **A name comes back from its question, and only names that fit are asked for**, unless the length
is 128 or more and comes out below 128 in eight bits, and nothing else keeps `resolve` from asking. -/
theorem resolve_sound_iff (s : DnsState) (name : List UInt8) (sendReq : UInt8)
    (recursionDesired : Bool) (ident : UInt16) :
    ((∀ labels, WellFormed labels → dotted labels = name → name.length < DNS_MAX_NAME_LEN →
        RoundTrip recursionDesired ident name) ∧
      ∀ n, (resolve s name sendReq).requested = some n ∨
        (resolve s name sendReq).pendingName = some n → n.length + 1 ≤ DNS_MAX_NAME_LEN) ↔
    (Asked s name sendReq →
      name.length < DNS_MAX_NAME_LEN ∨ DNS_MAX_NAME_LEN ≤ name.length % 256) := by
  constructor
  · rintro ⟨-, hpasses⟩ hasked
    by_contra hwrap
    obtain ⟨hlong, hcut⟩ := not_or.mp hwrap
    have := hpasses name
      ((resolve_passes_iff s name sendReq name).mpr ⟨rfl, hasked, not_le.mp hcut⟩)
    exact hlong this
  · intro hcond
    constructor
    · rintro labels hlabels rfl hfits
      exact roundTrip hlabels hfits recursionDesired ident
    · intro n hn
      obtain ⟨rfl, hasked, hcut⟩ := (resolve_passes_iff s name sendReq n).mp hn
      exact (hcond hasked).resolve_right (not_le.mpr hcut)

/-- A name of 256 characters, whose length is 0 in eight bits. -/
theorem resolve_passes_long :
    ¬ ∀ (s : DnsState) (name : List UInt8) (sendReq : UInt8) (recursionDesired : Bool)
        (ident : UInt16),
      (∀ labels, WellFormed labels → dotted labels = name → name.length < DNS_MAX_NAME_LEN →
        RoundTrip recursionDesired ident name) ∧
      ∀ n, (resolve s name sendReq).requested = some n ∨
        (resolve s name sendReq).pendingName = some n → n.length + 1 ≤ DNS_MAX_NAME_LEN := by
  intro h
  obtain ⟨-, hpasses⟩ := h ⟨(10, 0, 0, 1), (10, 0, 0, 2), [], false, 0⟩
    (97 :: List.replicate 255 97) 1 true 0
  have hlength : (97 :: List.replicate 255 (97 : UInt8)).length = 256 := by
    rw [List.length_cons, List.length_replicate]
  have hnumeric : numeric (97 :: List.replicate 255 97) = none := by
    unfold numeric
    split <;> rfl
  have hlong := hpasses _ ((resolve_passes_iff _ _ _ _).mpr
    ⟨rfl, ⟨hnumeric, by decide, rfl, rfl, by decide⟩, by rw [strlen8, hlength]; decide⟩)
  rw [hlength] at hlong
  exact absurd hlong (by decide)

end SdcBoot.Mtcp.Dns
