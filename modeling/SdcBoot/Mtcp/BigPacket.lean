/-
# The memory of reassembly (`ip.cpp`)

`processFragment` once more, with all that it keeps in static variables: the slots, the count of the
slots in use, and the free list of the BigPackets; and with what `makeBigPacket` copies where.
`purgeOverdue` gives up slots, and a consumer frees the BigPacket it was handed.

The count, the order of the offsets and the free list are right after any run.  The copies stay inside
a BigPacket as long as the test for the size is: offset and length are added as 16-bit words, and a
length is what a header says, so the sum can go round.
-/
import Mathlib.Data.List.GetD
import Mathlib.Data.List.InsertIdx
import SdcBoot.Mtcp.Fragment

namespace SdcBoot.Mtcp

open List

variable {β : Type}

/-! ## 1. The static variables -/

/-- `fragControl`, `Ip::fragsInReassembly` and `BigPacketFreeList`, the top first; `held` are the
BigPackets that consumers have. -/
structure Reassembly (β : Type) where
  fragControl : List (FragControl β)
  fragsInReassembly : UInt8
  bigPacketFreeList : List Nat
  held : List Nat

/-- The loop of `makeBigPacket`: `memcpy` to `data`, from where on and how many bytes; `startOffset`
is a `uint16_t`. -/
def copies : Nat → List (Fragment β) → List (Nat × Nat)
  | _, [] => []
  | startOffset, f :: rest =>
    (startOffset, f.length) :: copies ((startOffset + f.length) % 65536) rest

/-- A BigPacket as it is made, from the fragments of a slot. -/
structure BigPacket (β : Type) where
  bp : Nat
  frags : List (Fragment β)

/-- All copies stay in the data. -/
def BigPacket.Inside (cfg : FragConfig) (b : BigPacket β) : Prop :=
  ∀ c ∈ copies 0 b.frags, c.1 + c.2 ≤ cfg.bigPacketSize

instance (cfg : FragConfig) (b : BigPacket β) : Decidable (b.Inside cfg) :=
  inferInstanceAs (Decidable (∀ c ∈ copies 0 b.frags, _))

namespace Reassembly

/-- `initForReassembly` -/
def init (slots : Nat) : Reassembly β :=
  ⟨List.replicate slots .idle, 0, (List.range slots).reverse, []⟩

def put (i : Nat) (fc : FragControl β) (s : Reassembly β) : Reassembly β :=
  { s with fragControl := s.fragControl.set i fc }

/-- `killFragmentControl`; `fc` is what the slot has by then. -/
def killFragmentControl (i : Nat) (fc : FragControl β) (s : Reassembly β) : Reassembly β :=
  { s.put i fc.killed with fragsInReassembly := s.fragsInReassembly - 1 }

/-- `returnBigPacket`, by a consumer that has it. -/
def returnBigPacket (bp : Nat) (s : Reassembly β) : Reassembly β :=
  if bp ∈ s.held then
    { s with bigPacketFreeList := bp :: s.bigPacketFreeList, held := s.held.erase bp }
  else s

def makeBigPacket (i : Nat) (fc : FragControl β) (s : Reassembly β) :
    Reassembly β × Option (BigPacket β) :=
  match s.bigPacketFreeList with
  | [] => (s.killFragmentControl i fc, none)
  | bp :: rest =>
    ({ s.killFragmentControl i fc with bigPacketFreeList := rest, held := bp :: s.held },
      some ⟨bp, fc.frags⟩)

/-- The fragment is in the list. -/
def inserted (cfg : FragConfig) (i : Nat) (fc : FragControl β) (s : Reassembly β) :
    Reassembly β × Option (BigPacket β) :=
  if fc.lastFragRcvd && complete 0 fc.frags then s.makeBigPacket i fc
  else if fc.frags.length = cfg.maxFragsPerPacket then (s.killFragmentControl i fc, none)
  else (s.put i fc, none)

/-- A fragment of a datagram that is being collected. -/
def addFragment (cfg : FragConfig) (info : FragInfo) (packet : β) (i : Nat) (fc : FragControl β)
    (s : Reassembly β) : Reassembly β × Option (BigPacket β) :=
  if info.tooBig cfg then (s.killFragmentControl i fc, none)
  else
    let fc1 := if info.last then { fc with lastFragRcvd := true } else fc
    let pos := fc1.insertPos info.offset
    let fc2 := { fc1 with frags := fc1.frags.insertIdx pos (info.fragment packet) }
    match fc1.frags[pos]? with
    | some f =>
      if info.offset = f.offset ∧ info.length = f.length then (s.put i fc1, none)
      else if f.offset < (info.offset + info.length) % 65536 then
        (s.killFragmentControl i fc1, none)
      else s.inserted cfg i fc2
    | none => s.inserted cfg i fc2

/-- The first fragment of a datagram. -/
def startFragment (cfg : FragConfig) (info : FragInfo) (packet : β) (s : Reassembly β) :
    Reassembly β :=
  match findOpenFragControl s.fragControl with
  | none => s
  | some i =>
    if info.tooBig cfg then s
    else
      { s.put i ⟨true, info.last, info.src, info.ident, [info.fragment packet]⟩ with
        fragsInReassembly := s.fragsInReassembly + 1 }

/-- **`processFragment`** -/
def processFragment (cfg : FragConfig) (info : FragInfo) (packet : β) (s : Reassembly β) :
    Reassembly β × Option (BigPacket β) :=
  match findFragControl s.fragControl info.src info.ident with
  | none => (s.startFragment cfg info packet, none)
  | some i => s.addFragment cfg info packet i (s.fragControl.getD i .idle)

section

variable (cfg : FragConfig) (info : FragInfo) (packet : β) (s : Reassembly β)

/-- A routine leaves the slots, and hands on the fragments, that the one on the slots alone does. -/
def Does (r : Reassembly β × Option (BigPacket β)) (r' : Reassembled β) : Prop :=
  r.1.fragControl = r'.fragControl ∧ r.2.map BigPacket.frags = r'.whole

theorem inserted_does (i : Nat) (fc : FragControl β) :
    Does (s.inserted cfg i fc)
      (Mtcp.inserted cfg (!s.bigPacketFreeList.isEmpty) s.fragControl i fc) := by
  unfold inserted Mtcp.inserted
  split
  · unfold makeBigPacket
    cases s.bigPacketFreeList <;> exact ⟨rfl, rfl⟩
  · split <;> exact ⟨rfl, rfl⟩

theorem addFragment_does (i : Nat) (fc : FragControl β) :
    Does (s.addFragment cfg info packet i fc)
      (Mtcp.addFragment cfg (!s.bigPacketFreeList.isEmpty) info packet s.fragControl i fc) := by
  unfold addFragment Mtcp.addFragment
  split
  · exact ⟨rfl, rfl⟩
  · dsimp only
    generalize (if info.last then { fc with lastFragRcvd := true } else fc) = fc
    cases fc.frags[fc.insertPos info.offset]? with
    | none => exact inserted_does ..
    | some f =>
      dsimp only
      split_ifs
      · exact ⟨rfl, rfl⟩
      · exact ⟨rfl, rfl⟩
      · exact inserted_does ..

/-- **On the slots it is `processFragment`** without the counts, with a BigPacket if one is free. -/
theorem processFragment_does :
    Does (s.processFragment cfg info packet)
      (Mtcp.processFragment cfg (!s.bigPacketFreeList.isEmpty) info packet s.fragControl) := by
  unfold processFragment Mtcp.processFragment
  cases findFragControl s.fragControl info.src info.ident with
  | some i => exact addFragment_does ..
  | none =>
    dsimp only [startFragment, Mtcp.startFragment]
    cases findOpenFragControl s.fragControl with
    | none => exact ⟨rfl, rfl⟩
    | some i =>
      dsimp only
      split <;> exact ⟨rfl, rfl⟩

end

/-- One round of `purgeOverdue`. -/
def purge (overdue : Nat → Bool) (s : Reassembly β) (i : Nat) : Reassembly β :=
  let fc := s.fragControl.getD i .idle
  if fc.inUse && overdue i then s.killFragmentControl i fc else s

/-- `purgeOverdue`; `overdue` says which timers have run out. -/
def purgeOverdue (overdue : Nat → Bool) (s : Reassembly β) : Reassembly β :=
  (List.range s.fragControl.length).foldl (purge overdue) s

/-- What happens to the reassembly. -/
inductive Event (β : Type) where
  | fragment (info : FragInfo) (packet : β)
  | purgeOverdue (overdue : Nat → Bool)
  | returnBigPacket (bp : Nat)

def step (cfg : FragConfig) (s : Reassembly β) : Event β → Reassembly β × Option (BigPacket β)
  | .fragment info packet => s.processFragment cfg info packet
  | .purgeOverdue overdue => (s.purgeOverdue overdue, none)
  | .returnBigPacket bp => (s.returnBigPacket bp, none)

/-- A run, and the BigPackets it makes. -/
def run (cfg : FragConfig) (s : Reassembly β) : List (Event β) → Reassembly β × List (BigPacket β)
  | [] => (s, [])
  | e :: events =>
    let r := (s.step cfg e).1.run cfg events
    (r.1, (s.step cfg e).2.toList ++ r.2)

/-- What holds when a slot that is in use is given up holds after `purgeOverdue`. -/
theorem purgeOverdue_keeps {P : Reassembly β → Prop}
    (hkill : ∀ (t : Reassembly β) (i : Nat), (t.fragControl.getD i .idle).inUse = true → P t →
      P (t.killFragmentControl i (t.fragControl.getD i .idle)))
    (overdue : Nat → Bool) {s : Reassembly β} (h : P s) : P (s.purgeOverdue overdue) := by
  have hround : ∀ (t : Reassembly β) (i : Nat), P t → P (t.purge overdue i) := by
    intro t i ht
    unfold purge
    dsimp only
    split
    next hdue => exact hkill t i (Bool.and_eq_true _ _ ▸ hdue).1 ht
    next => exact ht
  unfold purgeOverdue
  generalize List.range s.fragControl.length = is
  induction is generalizing s with
  | nil => exact h
  | cons i is ih => exact ih (hround s i h)

end Reassembly

/-! ## 2. The slots -/

/-- The fragments of a slot: in the order of their offsets, and with a place free. -/
structure FragControl.Ordered (cfg : FragConfig) (fc : FragControl β) : Prop where
  sorted : fc.frags.Pairwise fun f g => f.offset ≤ g.offset
  room : fc.frags.length < cfg.maxFragsPerPacket

/-- A fragment that is inside a BigPacket. -/
def Fragment.Inside (cfg : FragConfig) (f : Fragment β) : Prop :=
  f.offset + f.length ≤ cfg.bigPacketSize

/-- An offset goes where it belongs. -/
theorem insertPos_sorted {frags : List (Fragment β)} (x : Fragment β)
    (h : frags.Pairwise fun f g => f.offset ≤ g.offset) :
    (frags.insertIdx (frags.findIdx fun f => decide (x.offset ≤ f.offset)) x).Pairwise
      fun f g => f.offset ≤ g.offset := by
  induction frags with
  | nil => exact pairwise_singleton _ x
  | cons f frags ih =>
    obtain ⟨hf, hrest⟩ := pairwise_cons.mp h
    rw [findIdx_cons]
    by_cases hle : x.offset ≤ f.offset
    · rw [decide_eq_true hle, cond_true, insertIdx_zero]
      refine pairwise_cons.mpr ⟨fun g hg => ?_, h⟩
      rcases mem_cons.mp hg with rfl | hg
      · exact hle
      · exact le_trans hle (hf g hg)
    · rw [decide_eq_false hle, cond_false, insertIdx_succ_cons]
      refine pairwise_cons.mpr ⟨fun g hg => ?_, ih hrest⟩
      rcases eq_or_mem_of_mem_insertIdx hg with rfl | hg
      · exact Nat.le_of_not_le hle
      · exact hf g hg

/-- With one more fragment they are still in order, and not too many. -/
theorem FragControl.Ordered.insert {cfg : FragConfig} {fc : FragControl β} (h : fc.Ordered cfg)
    (info : FragInfo) (packet : β) :
    ((fc.frags.insertIdx (fc.insertPos info.offset) (info.fragment packet)).Pairwise
      fun f g => f.offset ≤ g.offset) ∧
    (fc.frags.insertIdx (fc.insertPos info.offset) (info.fragment packet)).length ≤
      cfg.maxFragsPerPacket := by
  refine ⟨insertPos_sorted (info.fragment packet) h.sorted, ?_⟩
  have hroom := h.room
  rw [length_insertIdx]
  split <;> omega

/-- The copies of a list without gaps are where the fragments say. -/
theorem copies_inside {cfg : FragConfig} (frags : List (Fragment β)) {startOffset : Nat}
    (hcomplete : complete startOffset frags = true) (hinside : ∀ f ∈ frags, f.Inside cfg) :
    ∀ c ∈ copies startOffset frags, c.1 + c.2 ≤ cfg.bigPacketSize := by
  induction frags generalizing startOffset with
  | nil =>
    intro c hc
    cases hc
  | cons f frags ih =>
    rw [complete, Bool.and_eq_true, beq_iff_eq] at hcomplete
    intro c hc
    rcases mem_cons.mp hc with rfl | hc
    · rw [← hcomplete.1]
      exact hinside f mem_cons_self
    · exact ih hcomplete.2 (fun g hg => hinside g (mem_cons_of_mem f hg)) c hc

namespace Reassembly

/-- What holds after any run: slots in order, the slots in use counted, and each BigPacket in one
place. -/
structure Sound (cfg : FragConfig) (bigPackets : Nat) (s : Reassembly β) : Prop where
  ordered : ∀ fc ∈ s.fragControl, fc.Ordered cfg
  counted : s.fragsInReassembly.toNat = s.fragControl.countP FragControl.inUse
  few : s.fragControl.length < 256
  conserved : (s.bigPacketFreeList ++ s.held).Perm (List.range bigPackets)

/-- All fragments that are held are inside a BigPacket. -/
def Inside (cfg : FragConfig) (s : Reassembly β) : Prop :=
  ∀ fc ∈ s.fragControl, ∀ f ∈ fc.frags, f.Inside cfg

variable {cfg : FragConfig} {n : Nat} {s : Reassembly β}

variable {i : Nat} {fc : FragControl β}

theorem getD_mem (hi : i < s.fragControl.length) : s.fragControl.getD i .idle ∈ s.fragControl := by
  rw [getD_eq_getElem _ _ hi]
  exact getElem_mem hi

section

variable (h : s.Sound cfg n)
include h

/-- A slot in use stays in use with other fragments. -/
theorem Sound.put (hi : i < s.fragControl.length)
    (huse : (s.fragControl.getD i .idle).inUse = true) (hfc : fc.inUse = true)
    (hordered : fc.Ordered cfg) : (s.put i fc).Sound cfg n where
  ordered := fun g hg => (mem_or_eq_of_mem_set hg).elim (h.ordered g) fun heq => heq ▸ hordered
  counted := by
    have hpos : 0 < s.fragControl.countP FragControl.inUse :=
      countP_pos_iff.mpr ⟨_, getD_mem hi, huse⟩
    rw [getD_eq_getElem _ _ hi] at huse
    change _ = (s.fragControl.set i fc).countP _
    rw [countP_set hi, if_pos huse, if_pos hfc, Nat.sub_add_cancel hpos]
    exact h.counted
  few := by
    change (s.fragControl.set i fc).length < 256
    rw [length_set]
    exact h.few
  conserved := h.conserved

section

variable (hcfg : 0 < cfg.maxFragsPerPacket)
include hcfg

/-- A slot that is given up is not counted any more. -/
theorem Sound.kill (fc : FragControl β)
    (hi : i < s.fragControl.length) (huse : (s.fragControl.getD i .idle).inUse = true) :
    (s.killFragmentControl i fc).Sound cfg n where
  ordered := fun g hg => (mem_or_eq_of_mem_set hg).elim (h.ordered g) fun heq =>
    heq ▸ ⟨List.Pairwise.nil, hcfg⟩
  counted := by
    have hpos : 0 < s.fragControl.countP FragControl.inUse :=
      countP_pos_iff.mpr ⟨_, getD_mem hi, huse⟩
    rw [getD_eq_getElem _ _ hi] at huse
    change (s.fragsInReassembly - 1).toNat = (s.fragControl.set i fc.killed).countP _
    have hone : (1 : UInt8) ≤ s.fragsInReassembly := by
      rw [UInt8.le_iff_toNat_le, h.counted]
      exact hpos
    rw [countP_set hi, if_pos huse, if_neg (by exact Bool.false_ne_true),
      UInt8.toNat_sub_of_le _ _ hone, h.counted]
    rfl
  few := by
    change (s.fragControl.set i fc.killed).length < 256
    rw [length_set]
    exact h.few
  conserved := h.conserved

theorem Sound.makeBigPacket (fc : FragControl β) (hi : i < s.fragControl.length)
    (huse : (s.fragControl.getD i .idle).inUse = true) : (s.makeBigPacket i fc).1.Sound cfg n := by
  have hkill := h.kill hcfg fc hi huse
  unfold Reassembly.makeBigPacket
  cases hfree : s.bigPacketFreeList with
  | nil => exact hkill
  | cons bp rest =>
    refine ⟨hkill.ordered, hkill.counted, hkill.few, ?_⟩
    have hconserved := h.conserved
    rw [hfree] at hconserved
    exact perm_middle.trans hconserved

theorem Sound.inserted
    (hi : i < s.fragControl.length) (huse : (s.fragControl.getD i .idle).inUse = true)
    (hfc : fc.inUse = true) (hsorted : fc.frags.Pairwise fun f g => f.offset ≤ g.offset)
    (hroom : fc.frags.length ≤ cfg.maxFragsPerPacket) : (s.inserted cfg i fc).1.Sound cfg n := by
  unfold Reassembly.inserted
  split
  · exact h.makeBigPacket hcfg fc hi huse
  · split
    · exact h.kill hcfg fc hi huse
    · exact h.put hi huse hfc ⟨hsorted, by omega⟩

theorem Sound.addFragment (info : FragInfo) (packet : β) (hi : i < s.fragControl.length)
    (huse : (s.fragControl.getD i .idle).inUse = true) :
    (s.addFragment cfg info packet i (s.fragControl.getD i .idle)).1.Sound cfg n := by
  have hordered := h.ordered _ (getD_mem hi)
  unfold Reassembly.addFragment
  split
  · exact h.kill hcfg _ hi huse
  · have hfc1 : ∀ fc1, fc1 = (if info.last then
        { s.fragControl.getD i .idle with lastFragRcvd := true } else s.fragControl.getD i .idle) →
        fc1.inUse = true ∧ fc1.Ordered cfg := by
      rintro _ rfl
      split
      · exact ⟨huse, hordered.sorted, hordered.room⟩
      · exact ⟨huse, hordered⟩
    dsimp only
    generalize hfc : (if info.last = true then
      { s.fragControl.getD i .idle with lastFragRcvd := true } else s.fragControl.getD i .idle) = fc1
    obtain ⟨huse1, hordered1⟩ := hfc1 fc1 hfc.symm
    obtain ⟨hsorted, hroom⟩ := hordered1.insert info packet
    cases fc1.frags[fc1.insertPos info.offset]? with
    | none => exact h.inserted hcfg hi huse huse1 hsorted hroom
    | some f =>
      dsimp only
      split
      · exact h.put hi huse huse1 hordered1
      · split
        · exact h.kill hcfg fc1 hi huse
        · exact h.inserted hcfg hi huse huse1 hsorted hroom

end

theorem Sound.startFragment (hcfg : 1 < cfg.maxFragsPerPacket) (info : FragInfo)
    (packet : β) : (s.startFragment cfg info packet).Sound cfg n := by
  unfold Reassembly.startFragment
  cases hopen : findOpenFragControl s.fragControl with
  | none => exact h
  | some i =>
    obtain ⟨hi, hidle, -⟩ := findIdx?_eq_some_iff_getElem.mp hopen
    have hidle : s.fragControl[i].inUse = false := by simpa using hidle
    have hfew := h.few
    dsimp only
    split
    · exact h
    · refine ⟨fun g hg => (mem_or_eq_of_mem_set hg).elim (h.ordered g) fun heq => ?_, ?_, ?_,
        h.conserved⟩
      · rw [heq]
        exact ⟨pairwise_singleton _ _, hcfg⟩
      · change (s.fragsInReassembly + 1).toNat = (s.fragControl.set i _).countP _
        have hless : s.fragControl.countP FragControl.inUse < s.fragControl.length := by
          refine lt_of_le_of_ne countP_le_length fun hall => ?_
          have := countP_eq_length.mp hall s.fragControl[i] (getElem_mem hi)
          rw [hidle] at this
          cases this
        rw [countP_set hi, hidle, if_neg Bool.false_ne_true, if_pos rfl, UInt8.toNat_add, h.counted]
        exact Nat.mod_eq_of_lt (show _ + 1 < 256 by omega)
      · change (s.fragControl.set i _).length < 256
        rw [length_set]
        exact hfew

theorem Sound.purgeOverdue (hcfg : 0 < cfg.maxFragsPerPacket)
    (overdue : Nat → Bool) : (s.purgeOverdue overdue).Sound cfg n := by
  refine purgeOverdue_keeps (fun t i huse ht => ?_) overdue h
  refine ht.kill hcfg _ (Nat.lt_of_not_le fun hle => ?_) huse
  rw [getD_eq_default _ _ hle] at huse
  cases huse

theorem Sound.returnBigPacket (bp : Nat) : (s.returnBigPacket bp).Sound cfg n := by
  unfold Reassembly.returnBigPacket
  split
  next hheld =>
    refine ⟨h.ordered, h.counted, h.few, ?_⟩
    exact (perm_middle.symm.trans
      (List.Perm.append_left _ (perm_cons_erase hheld).symm)).trans h.conserved
  next => exact h

/-- **One event** keeps the static variables sound. -/
theorem Sound.step (hcfg : 1 < cfg.maxFragsPerPacket) (e : Event β) :
    (s.step cfg e).1.Sound cfg n := by
  cases e with
  | fragment info packet =>
    change (s.processFragment cfg info packet).1.Sound cfg n
    unfold Reassembly.processFragment
    cases hfind : findFragControl s.fragControl info.src info.ident with
    | none => exact h.startFragment hcfg info packet
    | some i =>
      obtain ⟨hi, hfor, -⟩ := findIdx?_eq_some_iff_getElem.mp hfind
      refine h.addFragment (by omega) info packet hi ?_
      rw [getD_eq_getElem _ _ hi]
      unfold FragControl.isFor at hfor
      rw [Bool.and_eq_true, Bool.and_eq_true] at hfor
      exact hfor.1.1
  | purgeOverdue overdue => exact h.purgeOverdue (by omega) overdue
  | returnBigPacket bp => exact h.returnBigPacket bp

end

theorem init_sound (hcfg : 0 < cfg.maxFragsPerPacket) {slots : Nat} (hslots : slots < 256) :
    (init slots : Reassembly β).Sound cfg slots where
  ordered := fun fc hfc => by
    rw [eq_of_mem_replicate hfc]
    exact ⟨List.Pairwise.nil, hcfg⟩
  counted := by
    change 0 = (List.replicate slots FragControl.idle).countP _
    rw [countP_replicate, if_neg (by exact Bool.false_ne_true)]
  few := by
    change (List.replicate slots FragControl.idle).length < 256
    rw [length_replicate]
    exact hslots
  conserved := by
    change ((List.range slots).reverse ++ []).Perm _
    rw [append_nil]
    exact reverse_perm _

/-- **A run** does. -/
theorem Sound.run (h : s.Sound cfg n) (hcfg : 1 < cfg.maxFragsPerPacket) (events : List (Event β)) :
    (s.run cfg events).1.Sound cfg n := by
  induction events generalizing s with
  | nil => exact h
  | cons e events ih => exact ih (h.step hcfg e)

/-! ## 3. The copies -/

/-- The test for the size says what the sum is. -/
def Event.Measured (cfg : FragConfig) : Event β → Prop
  | .fragment info _ => info.tooBig cfg = decide (cfg.bigPacketSize < info.offset + info.length)
  | _ => True

section

variable (h : s.Inside cfg)
include h

theorem Inside.put (hfc : ∀ f ∈ fc.frags, f.Inside cfg) : (s.put i fc).Inside cfg :=
  fun g hg => (mem_or_eq_of_mem_set hg).elim (h g) fun heq => heq ▸ hfc

theorem Inside.kill (i : Nat) (fc : FragControl β) :
    (s.killFragmentControl i fc).Inside cfg :=
  fun g hg => (mem_or_eq_of_mem_set hg).elim (h g) fun heq => heq ▸ nofun

/-- The fragments of a slot are inside, also where there is no slot. -/
theorem Inside.slot (i : Nat) :
    ∀ f ∈ (s.fragControl.getD i .idle).frags, f.Inside cfg := by
  rcases lt_or_ge i s.fragControl.length with hi | hi
  · exact h _ (getD_mem hi)
  · rw [getD_eq_default _ _ hi]
    exact nofun

theorem Inside.inserted (i : Nat) (hfc : ∀ f ∈ fc.frags, f.Inside cfg) :
    (s.inserted cfg i fc).1.Inside cfg ∧
      ∀ b ∈ (s.inserted cfg i fc).2, b.Inside cfg := by
  unfold Reassembly.inserted
  split
  next hwhole =>
    unfold Reassembly.makeBigPacket
    cases s.bigPacketFreeList with
    | nil => exact ⟨h.kill i fc, nofun⟩
    | cons bp rest =>
      refine ⟨h.kill i fc, fun b hb => ?_⟩
      rw [← Option.mem_some.mp hb]
      exact copies_inside fc.frags (Bool.and_eq_true _ _ ▸ hwhole).2 hfc
  next =>
    split
    · exact ⟨h.kill i fc, nofun⟩
    · exact ⟨h.put hfc, nofun⟩

theorem Inside.addFragment {info : FragInfo}
    (hfits : info.tooBig cfg = false → info.offset + info.length ≤ cfg.bigPacketSize) (packet : β)
    (i : Nat) :
    (s.addFragment cfg info packet i (s.fragControl.getD i .idle)).1.Inside cfg ∧
      ∀ b ∈ (s.addFragment cfg info packet i (s.fragControl.getD i .idle)).2, b.Inside cfg := by
  unfold Reassembly.addFragment
  split
  · exact ⟨h.kill i _, nofun⟩
  next hbig =>
    dsimp only
    have hslot : ∀ f ∈ (if info.last = true then
        { s.fragControl.getD i .idle with lastFragRcvd := true }
        else s.fragControl.getD i .idle).frags, f.Inside cfg := by
      split
      · exact h.slot i
      · exact h.slot i
    generalize (if info.last = true then
      { s.fragControl.getD i .idle with lastFragRcvd := true }
      else s.fragControl.getD i .idle) = fc1 at hslot ⊢
    have hinsert : ∀ f ∈ fc1.frags.insertIdx (fc1.insertPos info.offset) (info.fragment packet),
        f.Inside cfg := by
      intro f hf
      rcases eq_or_mem_of_mem_insertIdx hf with rfl | hf
      · exact hfits (Bool.eq_false_iff.mpr hbig)
      · exact hslot f hf
    cases fc1.frags[fc1.insertPos info.offset]? with
    | none => exact h.inserted i hinsert
    | some f =>
      dsimp only
      split
      · exact ⟨h.put hslot, nofun⟩
      · split
        · exact ⟨h.kill i fc1, nofun⟩
        · exact h.inserted i hinsert

/-- **One event**: with the test for the size right, copies and slots stay inside. -/
theorem Inside.step {e : Event β} (he : e.Measured cfg) :
    (s.step cfg e).1.Inside cfg ∧ ∀ b ∈ (s.step cfg e).2, b.Inside cfg := by
  cases e with
  | fragment info packet =>
    have hfits : info.tooBig cfg = false → info.offset + info.length ≤ cfg.bigPacketSize := by
      intro hbig
      have hmeasured : info.tooBig cfg = _ := he
      rw [hbig] at hmeasured
      exact Nat.le_of_not_lt (of_decide_eq_false hmeasured.symm)
    change (s.processFragment cfg info packet).1.Inside cfg ∧
      ∀ b ∈ (s.processFragment cfg info packet).2, b.Inside cfg
    unfold Reassembly.processFragment
    cases findFragControl s.fragControl info.src info.ident with
    | none =>
      refine ⟨?_, nofun⟩
      unfold Reassembly.startFragment
      cases findOpenFragControl s.fragControl with
      | none => exact h
      | some i =>
        dsimp only
        split
        · exact h
        next hbig =>
          refine Inside.put h fun f hf => ?_
          rw [mem_singleton.mp hf]
          exact hfits (Bool.eq_false_iff.mpr hbig)
    | some i => exact h.addFragment hfits packet i
  | purgeOverdue overdue =>
    exact ⟨purgeOverdue_keeps (fun t i _ ht => ht.kill i _) overdue h, nofun⟩
  | returnBigPacket bp =>
    refine ⟨?_, nofun⟩
    change (s.returnBigPacket bp).Inside cfg
    unfold Reassembly.returnBigPacket
    split
    · exact h
    · exact h

/-- **A run** whose fragments are all measured right. -/
theorem Inside.run {events : List (Event β)} (he : ∀ e ∈ events, e.Measured cfg) :
    ∀ b ∈ (s.run cfg events).2, b.Inside cfg := by
  induction events generalizing s with
  | nil =>
    intro b hb
    cases hb
  | cons e events ih =>
    obtain ⟨hnext, hmade⟩ := h.step (he e mem_cons_self)
    intro b hb
    rcases mem_append.mp hb with hb | hb
    · exact hmade b (Option.mem_toList.mp hb)
    · exact ih hnext (fun e he' => he e (.tail _ he')) b hb

end

/-- **Reassembly stays in its memory** if offset and length of no fragment go round to a sum that
passes: then every copy is in the data of its BigPacket.  The slots, the count and the BigPackets
are sound after any run. -/
theorem memory_sound (cfg : FragConfig) (slots : Nat) (events : List (Event β))
    (hcfg : 1 < cfg.maxFragsPerPacket) (hslots : slots < 256) :
    ((init slots).run cfg events).1.Sound cfg slots ∧
      ((∀ e ∈ events, e.Measured cfg) →
        ∀ b ∈ ((init slots).run cfg events).2, b.Inside cfg) := by
  refine ⟨(init_sound (by omega) hslots).run hcfg events, Inside.run fun fc hfc => ?_⟩
  rw [List.eq_of_mem_replicate hfc]
  exact nofun

/-- Two fragments that follow each other, four slots. -/
theorem memory_sound_two :
    ((init 4).run ⟨10, 1500⟩ [.fragment ⟨1, 7, 0, 800, false⟩ 0, .fragment ⟨1, 7, 800, 700, true⟩ 1]).1.Sound
        ⟨10, 1500⟩ 4 ∧
      ∀ b ∈ ((init 4).run ⟨10, 1500⟩
        [.fragment ⟨1, 7, 0, 800, false⟩ 0, .fragment ⟨1, 7, 800, 700, true⟩ 1]).2,
        b.Inside ⟨10, 1500⟩ := by
  obtain ⟨hsound, hinside⟩ := memory_sound ⟨10, 1500⟩ 4
    [.fragment ⟨1, 7, 0, 800, false⟩ 0, .fragment ⟨1, 7, 800, 700, true⟩ 1] (by decide) (by decide)
  refine ⟨hsound, hinside fun e he => ?_⟩
  rcases List.mem_pair.mp he with rfl | rfl <;> rfl

/-- A length of 64064 from offset 1480 on goes round to 8, and is copied. -/
theorem memory_overrun :
    ¬ ∀ b ∈ ((init 4).run ⟨10, 1500⟩
        [.fragment ⟨1, 7, 0, 1480, false⟩ 0, .fragment ⟨1, 7, 1480, 64064, true⟩ 1]).2,
        b.Inside ⟨10, 1500⟩ := by
  decide

end Reassembly

end SdcBoot.Mtcp
