/-
# All fragments of a datagram (`ip.cpp`)

Fragments of a datagram as a sender makes them come in, in any order, some of them twice, and with
others between them.  The slot of the datagram then has just those that have come, in their order
(`Collecting`); so the search for gaps finds one as long as a fragment is missing, and with the last
one that was missing the BigPacket is made.
-/
import SdcBoot.Mtcp.Whole

namespace SdcBoot.Mtcp.Reassembly

open List Bool

/-! ## 1. All fragments of a datagram -/

/-- A datagram in fragments as a sender makes them: they have data and follow one another, only
the last one says that it is the last, and the stack has room for them. -/
structure Cut (cfg : FragConfig) (ps : List Frame) : Prop where
  key : ∀ p ∈ ps, ∀ q ∈ ps, p.datagramKey = q.datagramKey
  fragments : ∀ p ∈ ps, p.isFragment = true
  data : ∀ p ∈ ps, 0 < p.payloadLen
  tiles : Tiles 0 (ps.map Frame.fragment)
  last : ∃ front l, ps = front ++ [l] ∧ (∀ p ∈ front, p.isLastFragment = false) ∧
    l.isLastFragment = true
  size : total (ps.map Frame.fragment) ≤ cfg.bigPacketSize
  count : ps.length ≤ cfg.maxFragsPerPacket

variable {i k : Nat} {fc : FragControl Frame} {q : Frame} {es : List Happening}

variable {ps : List Frame}

/-- Frames of a cut, one before the other. -/
theorem tiles_pairwise (h : Tiles k (ps.map Frame.fragment)) :
    (∀ p ∈ ps, k ≤ p.fragmentOffset) ∧
      ps.Pairwise fun p q => p.fragmentOffset + p.payloadLen ≤ q.fragmentOffset := by
  induction ps generalizing k with
  | nil => exact ⟨nofun, List.Pairwise.nil⟩
  | cons p ps ih =>
    obtain ⟨hoff, hrest⟩ := h
    have hoff : p.fragmentOffset = k := hoff
    obtain ⟨hfrom, hpair⟩ := ih hrest
    refine ⟨fun q hq => ?_, pairwise_cons.mpr ⟨fun q hq => hfrom q hq, hpair⟩⟩
    rcases mem_cons.mp hq with rfl | hq
    · omega
    · have hle : p.fragmentOffset + p.payloadLen ≤ q.fragmentOffset := hfrom q hq
      omega

/-- A frame that begins a datagram and ends it is no fragment. -/
theorem not_fragment {f : Frame} (hoff : f.fragmentOffset = 0) (hlast : f.isLastFragment = true) :
    f.isFragment = false := by
  have hbyte : ∀ b : Fin 256, b.val % 32 = 0 → b.val &&& 0x0020 = 0 → b.val &&& 0xFF3F = 0 := by
    decide +kernel
  have h0 := f.byte_lt 20
  have h1 := f.byte_lt 21
  have hoff : (256 * f.byte 20 + f.byte 21) % 8192 * 8 = 0 := hoff
  have hlow : f.byte 21 = 0 := by omega
  have hhigh : f.byte 20 % 32 = 0 := by omega
  have hword : f.word 20 = f.byte 20 := by
    change f.byte 20 + 256 * f.byte 21 = _
    rw [hlow]
    rfl
  unfold Datagram.isLastFragment at hlast
  unfold Datagram.isFragment
  rw [hword] at hlast ⊢
  rw [hbyte ⟨f.byte 20, h0⟩ hhigh (beq_iff_eq.mp hlast)]
  rfl

/-- The fragments that have come, by their offsets. -/
def came (ps : List Frame) (got : Nat → Bool) : List (Fragment Frame) :=
  (ps.filter fun p => got p.fragmentOffset).map Frame.fragment

def add (got : Nat → Bool) (offset : Nat) : Nat → Bool := fun k => got k || k == offset

/-! ## 2. One more fragment -/

variable {α : Type} {e : Happening}

theorem insertIdx_append (a b : List α) (x : α) : (a ++ b).insertIdx a.length x = a ++ x :: b := by
  induction a with
  | nil => rfl
  | cons y a ih => exact congrArg (y :: ·) ih

theorem findIdx_skip {p : α → Bool} {a b : List α} (ha : ∀ x ∈ a, p x = false)
    (hb : ∀ x ∈ b.head?, p x = true) : (a ++ b).findIdx p = a.length := by
  induction a with
  | nil =>
    cases b with
    | nil => rfl
    | cons x b => rw [nil_append, findIdx_cons, hb x rfl, cond_true, length_nil]
  | cons y a ih =>
    rw [cons_append, findIdx_cons, ha y mem_cons_self, cond_false,
      ih fun x hx => ha x (mem_cons_of_mem y hx), length_cons]

theorem came_append (a b : List Frame) (got : Nat → Bool) : came (a ++ b) got = came a got ++ came b got := by
  unfold came
  rw [filter_append, map_append]

theorem mem_came {got : Nat → Bool} {g : Fragment Frame} :
    g ∈ came ps got ↔ ∃ p ∈ ps, got p.fragmentOffset = true ∧ p.fragment = g := by
  unfold came
  rw [mem_map]
  constructor
  · rintro ⟨p, hp, rfl⟩
    rw [mem_filter] at hp
    exact ⟨p, hp.1, hp.2, rfl⟩
  · rintro ⟨p, hp, hgot, rfl⟩
    exact ⟨p, mem_filter.mpr ⟨hp, hgot⟩, rfl⟩

theorem came_add {got : Nat → Bool} {offset : Nat}
    (h : ∀ p ∈ ps, p.fragmentOffset ≠ offset) : came ps (add got offset) = came ps got := by
  unfold came
  refine congrArg _ (filter_congr fun p hp => ?_)
  change (got p.fragmentOffset || p.fragmentOffset == offset) = _
  rw [beq_eq_false_iff_ne.mpr (h p hp), Bool.or_false]

/-- What lies before a fragment and behind it. -/
structure Between (ps pre post : List Frame) (p : Frame) : Prop where
  split : ps = pre ++ p :: post
  before : ∀ q ∈ pre, q.fragmentOffset + q.payloadLen ≤ p.fragmentOffset ∧ 0 < q.payloadLen
  behind : ∀ q ∈ post, p.fragmentOffset + p.payloadLen ≤ q.fragmentOffset
  data : 0 < p.payloadLen

theorem Cut.between {cfg : FragConfig} (h : Cut cfg ps) {p : Frame} (hp : p ∈ ps) :
    ∃ pre post, Between ps pre post p := by
  obtain ⟨pre, post, hsplit⟩ := append_of_mem hp
  have hpair := (tiles_pairwise h.tiles).2
  rw [hsplit, pairwise_append] at hpair
  refine ⟨pre, post, hsplit, fun q hq => ⟨hpair.2.2 q hq p mem_cons_self,
    h.data q (hsplit ▸ mem_append_left _ hq)⟩, (pairwise_cons.mp hpair.2.1).1, h.data p hp⟩

variable {ps pre post : List Frame} {p : Frame} {got : Nat → Bool}

section

variable (h : Between ps pre post p)
include h

/-- The place of a fragment among those that have come. -/
theorem Between.insertPos
    (hfc : fc.frags = came pre got ++ (if got p.fragmentOffset then [p.fragment] else []) ++ came post got) :
    fc.insertPos p.fragmentOffset = (came pre got).length := by
  unfold FragControl.insertPos
  rw [hfc, append_assoc]
  refine findIdx_skip (fun g hg => ?_) fun g hg => ?_
  · obtain ⟨q, hq, -, rfl⟩ := mem_came.mp hg
    have := h.before q hq
    exact decide_eq_false (show ¬ p.fragmentOffset ≤ q.fragmentOffset by omega)
  · refine decide_eq_true ?_
    have hmem := mem_of_mem_head? hg
    rcases mem_append.mp hmem with hmem | hmem
    · split at hmem
      · rw [mem_singleton.mp hmem]
        exact le_rfl
      · cases hmem
    · obtain ⟨q, hq, -, rfl⟩ := mem_came.mp hmem
      exact le_trans (Nat.le_add_right _ _) (h.behind q hq)

theorem Between.came_eq (got : Nat → Bool) :
    came ps got = came pre got ++ (if got p.fragmentOffset then [p.fragment] else []) ++ came post got := by
  rw [h.split, came_append, append_assoc]
  refine congrArg _ ?_
  change ((p :: post).filter _).map _ = _
  rw [filter_cons]
  split <;> rfl

/-- A fragment that is new goes between the others, and overlaps none. -/
theorem Between.insert (fc : FragControl Frame)
    (hfc : fc.frags = came ps got) (hnew : got p.fragmentOffset = false) :
    fc.frags.insertIdx (fc.insertPos p.fragmentOffset) p.fragment = came ps (add got p.fragmentOffset) ∧
      ∀ g, fc.frags[fc.insertPos p.fragmentOffset]? = some g →
        p.fragmentOffset + p.payloadLen ≤ g.offset := by
  have heq := h.came_eq got
  rw [← hfc] at heq
  rw [h.insertPos heq, heq, hnew, if_neg Bool.false_ne_true, append_nil]
  constructor
  · rw [insertIdx_append, h.came_eq, came_add fun q hq => ?_, came_add fun q hq => ?_,
      if_pos (show add got p.fragmentOffset p.fragmentOffset = true by simp [add])]
    · rw [append_assoc]
      rfl
    · have := h.behind q hq
      have := h.data
      omega
    · have := h.before q hq
      omega
  · intro g hg
    rw [getElem?_append_right le_rfl, Nat.sub_self] at hg
    obtain ⟨q, hq, -, rfl⟩ := mem_came.mp (mem_of_getElem? hg)
    exact h.behind q hq

/-- One that has come before is found. -/
theorem Between.found (hfc : fc.frags = came ps got) (hold : got p.fragmentOffset = true) :
    fc.frags[fc.insertPos p.fragmentOffset]? = some p.fragment := by
  have heq := h.came_eq got
  rw [← hfc] at heq
  rw [h.insertPos heq, heq, hold, if_pos rfl, append_assoc,
    getElem?_append_right le_rfl, Nat.sub_self]
  rfl

end

/-! ## 3. The search for gaps -/

theorem came_all (h : ∀ p ∈ ps, got p.fragmentOffset = true) : came ps got = ps.map Frame.fragment := by
  unfold came
  rw [filter_eq_self.mpr h]

theorem complete_tiles {frags : List (Fragment Frame)} (h : Tiles k frags)
    (hk : k + total frags < 65536) : complete k frags = true := by
  induction frags generalizing k with
  | nil => rfl
  | cons g frags ih =>
    obtain ⟨hoff, hrest⟩ := h
    have htotal : total (g :: frags) = g.length + total frags := rfl
    unfold Fragment.stop at hrest
    rw [complete, hoff, Nat.mod_eq_of_lt (by omega), beq_self_eq_true, Bool.true_and]
    rw [hoff] at hrest
    exact ih hrest (by omega)

/-- While one before the last is missing, there is a gap. -/
theorem complete_gap (htiles : Tiles k (ps.map Frame.fragment)) (hsome : ∀ p ∈ ps, 0 < p.payloadLen)
    (hsize : k + total (ps.map Frame.fragment) < 65536) (hq : q ∈ ps)
    (hlast : got q.fragmentOffset = true) (hp : p ∈ ps) (hmissing : got p.fragmentOffset = false)
    (hlt : p.fragmentOffset < q.fragmentOffset) : complete k (came ps got) = false := by
  induction ps generalizing k with
  | nil => cases hq
  | cons f ps ih =>
    obtain ⟨hoff, hrest⟩ := htiles
    have hoff : f.fragmentOffset = k := hoff
    have htotal : total ((f :: ps).map Frame.fragment) = f.payloadLen + total (ps.map Frame.fragment) := rfl
    obtain ⟨hfrom, -⟩ := tiles_pairwise hrest
    have hstop : f.fragment.stop = k + f.payloadLen := by
      change f.fragmentOffset + f.payloadLen = _
      rw [hoff]
    rw [hstop] at hrest hfrom
    have hq' : q ∈ ps := by
      rcases mem_cons.mp hq with rfl | hq
      · rcases mem_cons.mp hp with rfl | hp
        · omega
        · have := hfrom p hp
          have := hsome q mem_cons_self
          omega
      · exact hq
    by_cases hgot : got f.fragmentOffset = true
    · have hp' : p ∈ ps := by
        rcases mem_cons.mp hp with rfl | hp
        · rw [hgot] at hmissing
          cases hmissing
        · exact hp
      have hcame : came (f :: ps) got = f.fragment :: came ps got := by
        unfold came
        rw [filter_cons, if_pos hgot]
        rfl
      have hlen : f.fragment.length = f.payloadLen := rfl
      rw [hcame, complete, hlen, Nat.mod_eq_of_lt (by omega),
        ih hrest (fun g hg => hsome g (mem_cons_of_mem f hg)) (by omega) hq' hp', Bool.and_false]
    · -- the list begins too far behind
      have hcame : came (f :: ps) got = came ps got := by
        unfold came
        rw [filter_cons, if_neg hgot]
      rw [hcame]
      have hne : q.fragment ∈ came ps got := mem_came.mpr ⟨q, hq', hlast, rfl⟩
      cases hrest' : came ps got with
      | nil =>
        rw [hrest'] at hne
        cases hne
      | cons g gs =>
        have hg : g ∈ came ps got := hrest' ▸ mem_cons_self
        obtain ⟨r, hr, -, rfl⟩ := mem_came.mp hg
        have := hfrom r hr
        have := hsome f mem_cons_self
        have hoffr : r.fragment.offset = r.fragmentOffset := rfl
        rw [complete, hoffr, beq_eq_false_iff_ne.mpr (by omega), Bool.false_and]

/-! ## 4. Other datagrams -/

/-- The slots for a source and ident are the same; the others may have changed. -/
def Apart (src ident : Nat) (slots slots' : List (FragControl Frame)) : Prop :=
  slots'.length = slots.length ∧ ∀ j, slots'.getD j .idle = slots.getD j .idle ∨
    ((slots.getD j .idle).isFor src ident = false ∧ (slots'.getD j .idle).isFor src ident = false)

section Apart

variable {src ident : Nat} {slots slots' slots'' : List (FragControl Frame)}

theorem Apart.refl (slots : List (FragControl Frame)) : Apart src ident slots slots :=
  ⟨rfl, fun _ => .inl rfl⟩

theorem Apart.trans (h : Apart src ident slots slots') (h' : Apart src ident slots' slots'') :
    Apart src ident slots slots'' := by
  refine ⟨h'.1.trans h.1, fun j => ?_⟩
  rcases h.2 j with heq | hno
  · rcases h'.2 j with heq' | hno'
    · exact .inl (heq'.trans heq)
    · exact .inr ⟨heq ▸ hno'.1, hno'.2⟩
  · rcases h'.2 j with heq' | hno'
    · exact .inr ⟨hno.1, heq' ▸ hno.2⟩
    · exact .inr ⟨hno.1, hno'.2⟩

theorem Apart.set (hold : (slots.getD i .idle).isFor src ident = false)
    (hnew : fc.isFor src ident = false) : Apart src ident slots (slots.set i fc) := by
  refine ⟨length_set, fun j => ?_⟩
  by_cases hj : i = j
  · subst hj
    rcases lt_or_ge i slots.length with hi | hi
    · refine .inr ⟨hold, ?_⟩
      rw [getD_eq_getElem _ _ (by rw [length_set]; exact hi), getElem_set_self]
      exact hnew
    · rw [set_eq_of_length_le hi]
      exact .inl rfl
  · left
    rw [getD_eq_getElem?_getD, getElem?_set_ne hj, ← getD_eq_getElem?_getD]

theorem find_eq (slots : List (FragControl Frame)) :
    findFragControl slots src ident = (slots.map fun fc => fc.isFor src ident).findIdx? id := by
  rw [findIdx?_map]
  rfl

/-- The slot of the datagram is found as before, and has the same fragments. -/
theorem Apart.find (h : Apart src ident slots slots') :
    findFragControl slots' src ident = findFragControl slots src ident ∧
      ∀ i, findFragControl slots src ident = some i → slots'.getD i .idle = slots.getD i .idle := by
  constructor
  · rw [find_eq, find_eq]
    refine congrArg _ (ext_getElem (by rw [length_map, length_map, h.1]) fun j h1 h2 => ?_)
    rw [length_map] at h1 h2
    rw [getElem_map, getElem_map, ← getD_eq_getElem _ .idle h1, ← getD_eq_getElem _ .idle h2]
    rcases h.2 j with heq | hno
    · rw [heq]
    · rw [hno.1, hno.2]
  · intro i hfind
    obtain ⟨hi, hfor, -⟩ := findIdx?_eq_some_iff_getElem.mp hfind
    rcases h.2 i with heq | hno
    · exact heq
    · rw [← getD_eq_getElem _ .idle hi, hno.1] at hfor
      cases hfor

theorem isFor_false (h : ¬ (fc.srcAddr = src ∧ fc.ident = ident)) : fc.isFor src ident = false := by
  refine Bool.eq_false_iff.mpr fun hfor => h ?_
  unfold FragControl.isFor at hfor
  rw [and_eq_true, and_eq_true, beq_iff_eq, beq_iff_eq] at hfor
  exact ⟨hfor.1.2, hfor.2⟩

end Apart

variable {cfg : FragConfig} {s : Reassembly Frame} {src ident : Nat}

/-- A fragment changes the slot it goes to, which stays with its source and ident. -/
theorem inserted_slots (cfg : FragConfig) (i : Nat) (fc : FragControl Frame) (s : Reassembly Frame) :
    ∃ fc', (s.inserted cfg i fc).1.fragControl = s.fragControl.set i fc' ∧
      fc'.srcAddr = fc.srcAddr ∧ fc'.ident = fc.ident := by
  unfold Reassembly.inserted
  split
  · unfold Reassembly.makeBigPacket
    cases s.bigPacketFreeList with
    | nil => exact ⟨fc.killed, rfl, rfl, rfl⟩
    | cons bp rest => exact ⟨fc.killed, rfl, rfl, rfl⟩
  · split
    · exact ⟨fc.killed, rfl, rfl, rfl⟩
    · exact ⟨fc, rfl, rfl, rfl⟩

theorem addFragment_slots (cfg : FragConfig) (f : Frame) (i : Nat) (fc : FragControl Frame)
    (s : Reassembly Frame) :
    ∃ fc', (s.addFragment cfg f.fragInfo f i fc).1.fragControl = s.fragControl.set i fc' ∧
      fc'.srcAddr = fc.srcAddr ∧ fc'.ident = fc.ident := by
  unfold Reassembly.addFragment
  split
  · exact ⟨fc.killed, rfl, rfl, rfl⟩
  · dsimp only
    rw [flagged_eq]
    split
    · split
      · exact ⟨_, rfl, rfl, rfl⟩
      · split
        · exact ⟨_, rfl, rfl, rfl⟩
        · obtain ⟨fc', heq, hsrc, hident⟩ := inserted_slots cfg i _ s
          exact ⟨fc', heq, hsrc, hident⟩
    · obtain ⟨fc', heq, hsrc, hident⟩ := inserted_slots cfg i _ s
      exact ⟨fc', heq, hsrc, hident⟩

/-- Nothing happens to the datagram of the source and ident, but that fragments of it come while
there is a slot. -/
def Calm (src ident : Nat) (ps : List Frame) (s : Reassembly Frame) : Happening → Prop
  | .arrives f => f.fragInfo.src = src ∧ f.fragInfo.ident = ident → f ∈ ps ∧
      (findFragControl s.fragControl src ident = none → findOpenFragControl s.fragControl ≠ none)
  | .purgeOverdue overdue =>
      ∀ i, (s.fragControl.getD i .idle).isFor src ident = true → overdue i = false
  | .returnBigPacket _ => True

/-- A run in which nothing else happens to it. -/
def AllCalm (cfg : FragConfig) (src ident : Nat) (ps : List Frame) :
    Reassembly Frame → List Happening → Prop
  | _, [] => True
  | s, e :: rest => Calm src ident ps s e ∧ AllCalm cfg src ident ps (s.step cfg e.event).1 rest

/-- A happening is no fragment of the datagram. -/
def Other (src ident : Nat) : Happening → Prop
  | .arrives f => ¬ (f.fragInfo.src = src ∧ f.fragInfo.ident = ident)
  | _ => True

/-- The slots of others are apart. -/
theorem Other.apart (h : Other src ident e) (hcalm : Calm src ident ps s e) :
    Apart src ident s.fragControl (s.step cfg e.event).1.fragControl := by
  cases e with
  | arrives f =>
    change Apart src ident s.fragControl (s.processFragment cfg f.fragInfo f).1.fragControl
    unfold Reassembly.processFragment
    cases hfind : findFragControl s.fragControl f.fragInfo.src f.fragInfo.ident with
    | none =>
      dsimp only
      unfold Reassembly.startFragment
      cases hopen : findOpenFragControl s.fragControl with
      | none => exact Apart.refl _
      | some i =>
        obtain ⟨hi, hidle, -⟩ := findIdx?_eq_some_iff_getElem.mp hopen
        dsimp only
        split
        · exact Apart.refl _
        · refine Apart.set ?_ (isFor_false h)
          rw [getD_eq_getElem _ _ hi]
          unfold FragControl.isFor
          rw [show s.fragControl[i].inUse = false by simpa using hidle]
          rfl
    | some i =>
      obtain ⟨hi, hfor, -⟩ := findIdx?_eq_some_iff_getElem.mp hfind
      rw [← getD_eq_getElem _ .idle hi] at hfor
      unfold FragControl.isFor at hfor
      rw [and_eq_true, and_eq_true, beq_iff_eq, beq_iff_eq] at hfor
      obtain ⟨fc', heq, hsrc, hident⟩ := addFragment_slots cfg f i (s.fragControl.getD i .idle) s
      change Apart src ident s.fragControl
        (s.addFragment cfg f.fragInfo f i (s.fragControl.getD i .idle)).1.fragControl
      rw [heq]
      refine Apart.set (isFor_false ?_) (isFor_false ?_)
      · rw [hfor.1.2, hfor.2]
        exact h
      · rw [hsrc, hident, hfor.1.2, hfor.2]
        exact h
  | purgeOverdue overdue =>
    change Apart src ident s.fragControl (s.purgeOverdue overdue).fragControl
    have hround : ∀ (is : List Nat) (t : Reassembly Frame),
        (∀ i, (t.fragControl.getD i .idle).isFor src ident = true → overdue i = false) →
        Apart src ident t.fragControl (is.foldl (purge overdue) t).fragControl := by
      intro is
      induction is with
      | nil => exact fun t _ => Apart.refl t.fragControl
      | cons i is ih =>
        intro t ht
        have hone : Apart src ident t.fragControl (t.purge overdue i).fragControl := by
          unfold Reassembly.purge
          dsimp only
          split
          next hdue =>
            rw [and_eq_true] at hdue
            refine Apart.set (Bool.eq_false_iff.mpr fun hfor => ?_) rfl
            rw [ht i hfor] at hdue
            cases hdue.2
          next => exact Apart.refl _
        refine hone.trans (ih _ fun j hfor => ?_)
        rcases hone.2 j with heq | hno
        · rw [heq] at hfor
          exact ht j hfor
        · rw [hno.2] at hfor
          cases hfor
    exact hround _ s hcalm
  | returnBigPacket bp =>
    change Apart src ident s.fragControl (s.returnBigPacket bp).fragControl
    unfold Reassembly.returnBigPacket
    split
    · exact Apart.refl _
    · exact Apart.refl _

/-! ## 5. The slot of a datagram -/

/-- Some fragment that has come is the last one. -/
def LastCame (ps : List Frame) (got : Nat → Bool) : Prop :=
  ∃ q ∈ ps, got q.fragmentOffset = true ∧ q.isLastFragment = true

/-- A slot has what has come. -/
structure Slot (src ident : Nat) (ps : List Frame) (got : Nat → Bool) (s : Reassembly Frame) (i : Nat)
    (fc : FragControl Frame) : Prop where
  find : findFragControl s.fragControl src ident = some i
  get : s.fragControl.getD i .idle = fc
  frags : fc.frags = came ps got
  flag : fc.lastFragRcvd = true ↔ LastCame ps got

/-- Nothing has come, or a slot has it. -/
def Collecting (src ident : Nat) (ps : List Frame) (got : Nat → Bool) (s : Reassembly Frame) : Prop :=
  ((∀ p ∈ ps, got p.fragmentOffset = false) ∧ findFragControl s.fragControl src ident = none) ∨
    ((∃ p ∈ ps, got p.fragmentOffset = true) ∧ ∃ i fc, Slot src ident ps got s i fc)

/-- What others do leaves the slot as it is. -/
theorem Collecting.apart {s' : Reassembly Frame} (h : Collecting src ident ps got s)
    (happart : Apart src ident s.fragControl s'.fragControl) : Collecting src ident ps got s' := by
  obtain ⟨hfind, hget⟩ := happart.find
  rcases h with ⟨hnone, hno⟩ | ⟨hsome, i, fc, hslot⟩
  · exact .inl ⟨hnone, hfind.trans hno⟩
  · exact .inr ⟨hsome, i, fc, hfind.trans hslot.find, (hget i hslot.find).trans hslot.get,
      hslot.frags, hslot.flag⟩

theorem find_set {slots : List (FragControl Frame)}
    (hi : i < slots.length) (hbefore : ∀ (j : Nat) (hj : j < slots.length), j < i →
      slots[j].isFor src ident = false) (hfc : fc.isFor src ident = true) :
    findFragControl (slots.set i fc) src ident = some i ∧ (slots.set i fc).getD i .idle = fc := by
  have hi' : i < (slots.set i fc).length := by
    rw [length_set]
    exact hi
  constructor
  · refine findIdx?_eq_some_iff_getElem.mpr ⟨hi', ?_, fun j hj => ?_⟩
    · rw [getElem_set_self]
      exact hfc
    · rw [getElem_set_ne (by omega), hbefore j (by omega) hj]
      exact Bool.false_ne_true
  · rw [getD_eq_getElem _ _ hi', getElem_set_self]

/-- A slot that is found, with something else in it. -/
theorem Slot.put {fc' : FragControl Frame} {got' : Nat → Bool} (h : Slot src ident ps got s i fc)
    (huse : fc'.isFor src ident = true) (hframes : fc'.frags = came ps got')
    (hflag : fc'.lastFragRcvd = true ↔ LastCame ps got') :
    Slot src ident ps got' (s.put i fc') i fc' := by
  obtain ⟨hi, -, hbefore⟩ := findIdx?_eq_some_iff_getElem.mp h.find
  obtain ⟨hfind, hget⟩ := find_set hi (fun j hj hlt => Bool.eq_false_iff.mpr (hbefore j hlt)) huse
  exact ⟨hfind, hget, hframes, hflag⟩

theorem Slot.isFor (h : Slot src ident ps got s i fc) : fc.isFor src ident = true := by
  obtain ⟨hi, hfor, -⟩ := findIdx?_eq_some_iff_getElem.mp h.find
  rw [← getD_eq_getElem _ .idle hi, h.get] at hfor
  exact hfor

/-- A fragment is known by its offset. -/
theorem Between.unique (h : Between ps pre post p) (hq : q ∈ ps)
    (hoff : q.fragmentOffset = p.fragmentOffset) : q = p := by
  rw [h.split, mem_append, mem_cons] at hq
  rcases hq with hq | rfl | hq
  · have := h.before q hq
    omega
  · rfl
  · have := h.behind q hq
    have := h.data
    omega

theorem Between.lastCame_add (h : Between ps pre post p) (got : Nat → Bool) :
    LastCame ps (add got p.fragmentOffset) ↔ LastCame ps got ∨ p.isLastFragment = true := by
  constructor
  · rintro ⟨q, hq, hgot, hlast⟩
    rcases Bool.or_eq_true_iff.mp hgot with hgot | hoff
    · exact .inl ⟨q, hq, hgot, hlast⟩
    · rw [h.unique hq (beq_iff_eq.mp hoff)] at hlast
      exact .inr hlast
  · rintro (⟨q, hq, hgot, hlast⟩ | hlast)
    · exact ⟨q, hq, Bool.or_eq_true_iff.mpr (.inl hgot), hlast⟩
    · refine ⟨p, ?_, Bool.or_eq_true_iff.mpr (.inr (beq_self_eq_true _)), hlast⟩
      rw [h.split]
      exact mem_append_right _ mem_cons_self

section

variable (h : Cut cfg ps)
include h

theorem Cut.fits (hp : p ∈ ps) :
    p.fragmentOffset + p.payloadLen ≤ cfg.bigPacketSize := by
  have hle := stop_le_total h.tiles p.fragment (mem_map_of_mem hp)
  have hsize := h.size
  have hstop : p.fragment.stop = p.fragmentOffset + p.payloadLen := rfl
  omega

section

variable (hcfg : cfg.bigPacketSize + 20 < 65536)
include hcfg

theorem Cut.not_tooBig (hp : p ∈ ps) :
    p.fragInfo.tooBig cfg = false := by
  have hfits := h.fits hp
  change decide (cfg.bigPacketSize < (p.fragmentOffset + p.payloadLen) % 65536) = false
  exact decide_eq_false (by omega)

/-- While a fragment is missing, the datagram is not taken for whole, and the slot has room. -/
theorem Cut.incomplete (hq : q ∈ ps)
    (hmissing : got q.fragmentOffset = false) (hframes : fc.frags = came ps got)
    (hflag : fc.lastFragRcvd = true ↔ LastCame ps got) :
    (fc.lastFragRcvd && complete 0 fc.frags) = false ∧ fc.frags.length ≠ cfg.maxFragsPerPacket := by
  constructor
  · refine Bool.eq_false_iff.mpr fun hwhole => ?_
    rw [and_eq_true, hflag, hframes] at hwhole
    obtain ⟨⟨l, hl, hgot, hlast⟩, hcomplete⟩ := hwhole
    obtain ⟨front, l', hsplit, hfront, -⟩ := h.last
    obtain ⟨pre, post, hbetween⟩ := h.between hl
    have hlt : q.fragmentOffset < l.fragmentOffset := by
      have hne : q ≠ l := by
        rintro rfl
        rw [hmissing] at hgot
        cases hgot
      have hend : l' = l := by
        rw [hsplit, mem_append, mem_singleton] at hl
        rcases hl with hl | hl
        · rw [hfront l hl] at hlast
          cases hlast
        · exact hl.symm
      have hqfront : q ∈ front := by
        rw [hsplit, mem_append, mem_singleton] at hq
        exact hq.resolve_right fun heq => hne (heq.trans hend)
      have hpair := (tiles_pairwise h.tiles).2
      rw [hsplit, pairwise_append] at hpair
      have hle := hpair.2.2 q hqfront l' (mem_singleton_self l')
      have := h.data q hq
      rw [hend] at hle
      omega
    have hsize := h.size
    rw [complete_gap h.tiles h.data (by omega) hl hgot hq hmissing hlt] at hcomplete
    cases hcomplete
  · have hless : (came ps got).length < ps.length := by
      unfold came
      rw [length_map]
      exact length_filter_lt_length_iff_exists.mpr ⟨q, hq, by rw [hmissing]; exact Bool.false_ne_true⟩
    have := h.count
    rw [hframes]
    omega

/-- With all of them, it is whole. -/
theorem Cut.complete
    (hall : ∀ q ∈ ps, got q.fragmentOffset = true) (hframes : fc.frags = came ps got)
    (hflag : fc.lastFragRcvd = true ↔ LastCame ps got) :
    (fc.lastFragRcvd && Mtcp.complete 0 fc.frags) = true := by
  obtain ⟨front, l, hsplit, -, hlast⟩ := h.last
  have hl : l ∈ ps := hsplit ▸ mem_append_right _ (mem_singleton_self l)
  have hsize := h.size
  rw [hflag.mpr ⟨l, hl, hall l hl, hlast⟩, hframes, came_all hall,
    complete_tiles h.tiles (by omega)]
  rfl

end

end

/-- What `processFragment` does with a fragment at the slot of its datagram. -/
theorem Slot.step_eq (h : Slot src ident ps got s i fc)
    (hcut : Cut cfg ps) (hcfg : cfg.bigPacketSize + 20 < 65536) (hp : p ∈ ps)
    (hkey : p.fragInfo.src = src ∧ p.fragInfo.ident = ident) {fc1 fc2 : FragControl Frame}
    (hfc1 : fc1 = { fc with lastFragRcvd := fc.lastFragRcvd || p.isLastFragment })
    (hfc2 : fc2 = { fc1 with
      frags := fc.frags.insertIdx (fc.insertPos p.fragmentOffset) p.fragment }) :
    s.step cfg (Happening.arrives p).event =
      match fc.frags[fc.insertPos p.fragmentOffset]? with
      | some g =>
        if p.fragmentOffset = g.offset ∧ p.payloadLen = g.length then (s.put i fc1, none)
        else if g.offset < (p.fragmentOffset + p.payloadLen) % 65536 then
          (s.killFragmentControl i fc1, none)
        else s.inserted cfg i fc2
      | none => s.inserted cfg i fc2 := by
  subst hfc1 hfc2
  change s.processFragment cfg p.fragInfo p = _
  unfold Reassembly.processFragment
  rw [hkey.1, hkey.2, h.find]
  dsimp only
  rw [h.get]
  unfold Reassembly.addFragment
  rw [hcut.not_tooBig hcfg hp, if_neg Bool.false_ne_true]
  dsimp only
  rw [flagged_eq]
  have hsame : ∀ last offset, ({ fc with lastFragRcvd := last } : FragControl Frame).insertPos offset =
      fc.insertPos offset := fun _ _ => rfl
  rw [hsame]
  dsimp only
  have hoff : p.fragInfo.offset = p.fragmentOffset := rfl
  rw [hoff]
  cases fc.frags[fc.insertPos p.fragmentOffset]? with
  | none => rfl
  | some g => rfl

/-- **A new fragment** goes into the slot, which then is looked through. -/
theorem Slot.new (h : Slot src ident ps got s i fc) (hcut : Cut cfg ps)
    (hcfg : cfg.bigPacketSize + 20 < 65536) (hp : p ∈ ps)
    (hkey : p.fragInfo.src = src ∧ p.fragInfo.ident = ident) (hnew : got p.fragmentOffset = false) :
    ∃ fc', fc'.isFor src ident = true ∧ fc'.frags = came ps (add got p.fragmentOffset) ∧
      (fc'.lastFragRcvd = true ↔ LastCame ps (add got p.fragmentOffset)) ∧
      s.step cfg (Happening.arrives p).event = s.inserted cfg i fc' := by
  obtain ⟨pre, post, hbetween⟩ := hcut.between hp
  obtain ⟨hinsert, hover⟩ := hbetween.insert fc h.frags hnew
  have hfits := hcut.fits hp
  refine ⟨{ fc with lastFragRcvd := fc.lastFragRcvd || p.isLastFragment
                    frags := fc.frags.insertIdx (fc.insertPos p.fragmentOffset) p.fragment },
    h.isFor, hinsert, ?_, ?_⟩
  · rw [hbetween.lastCame_add, ← h.flag]
    exact or_eq_true_iff
  · rw [h.step_eq hcut hcfg hp hkey rfl rfl]
    cases hat : fc.frags[fc.insertPos p.fragmentOffset]? with
    | none => rfl
    | some g =>
      have hle := hover g hat
      have hdata := hcut.data p hp
      dsimp only
      rw [if_neg (by omega), if_neg (by rw [Nat.mod_eq_of_lt (by omega)]; omega)]

theorem add_of_got (hold : got p.fragmentOffset = true) : add got p.fragmentOffset = got := by
  funext k
  change (got k || k == p.fragmentOffset) = got k
  by_cases hk : k = p.fragmentOffset
  · rw [hk, hold, Bool.true_or]
  · rw [beq_eq_false_iff_ne.mpr hk, Bool.or_false]

/-- **A duplicate** is thrown away. -/
theorem Slot.duplicate (h : Slot src ident ps got s i fc) (hcut : Cut cfg ps)
    (hcfg : cfg.bigPacketSize + 20 < 65536) (hp : p ∈ ps)
    (hkey : p.fragInfo.src = src ∧ p.fragInfo.ident = ident) (hold : got p.fragmentOffset = true) :
    ∃ fc', Slot src ident ps got (s.step cfg (Happening.arrives p).event).1 i fc' := by
  obtain ⟨pre, post, hbetween⟩ := hcut.between hp
  have hfound := hbetween.found h.frags hold
  have hflag : (fc.lastFragRcvd || p.isLastFragment) = true ↔ LastCame ps got := by
    rw [or_eq_true_iff, h.flag]
    exact ⟨fun hor => hor.elim id fun hlast => ⟨p, hp, hold, hlast⟩, Or.inl⟩
  refine ⟨{ fc with lastFragRcvd := fc.lastFragRcvd || p.isLastFragment }, ?_⟩
  have hstep : s.step cfg (Happening.arrives p).event =
      (s.put i { fc with lastFragRcvd := fc.lastFragRcvd || p.isLastFragment }, none) := by
    rw [h.step_eq hcut hcfg hp hkey rfl rfl, hfound]
    exact if_pos ⟨rfl, rfl⟩
  rw [hstep]
  exact h.put h.isFor h.frags hflag

/-- **The first fragment** gets a slot. -/
theorem first_collecting (hcut : Cut cfg ps) (hcfg : cfg.bigPacketSize + 20 < 65536) (hp : p ∈ ps)
    (hkey : p.fragInfo.src = src ∧ p.fragInfo.ident = ident)
    (hnone : ∀ q ∈ ps, got q.fragmentOffset = false)
    (hfind : findFragControl s.fragControl src ident = none)
    (hopen : findOpenFragControl s.fragControl ≠ none) :
    Collecting src ident ps (add got p.fragmentOffset) (s.step cfg (Happening.arrives p).event).1 := by
  obtain ⟨pre, post, hbetween⟩ := hcut.between hp
  obtain ⟨i, hi⟩ := Option.ne_none_iff_exists'.mp hopen
  obtain ⟨hlt, -, -⟩ := findIdx?_eq_some_iff_getElem.mp hi
  have hstep : (s.step cfg (Happening.arrives p).event).1.fragControl =
      s.fragControl.set i ⟨true, p.isLastFragment, src, ident, [p.fragment]⟩ := by
    change (s.processFragment cfg p.fragInfo p).1.fragControl = _
    unfold Reassembly.processFragment
    rw [hkey.1, hkey.2, hfind]
    dsimp only
    unfold Reassembly.startFragment
    rw [hi]
    dsimp only
    rw [hcut.not_tooBig hcfg hp, if_neg Bool.false_ne_true, hkey.1, hkey.2]
    rfl
  have hfor : (⟨true, p.isLastFragment, src, ident, [p.fragment]⟩ : FragControl Frame).isFor src ident =
      true := by
    unfold FragControl.isFor
    rw [beq_self_eq_true, beq_self_eq_true]
    rfl
  obtain ⟨hfound, hget⟩ := find_set hlt (fun j hj _ =>
    findIdx?_eq_none_iff.mp hfind _ (getElem_mem hj)) hfor
  have hempty : ∀ qs : List Frame, (∀ q ∈ qs, q ∈ ps) → came qs got = [] := by
    intro qs hqs
    unfold came
    rw [filter_eq_nil_iff.mpr fun q hq => by rw [hnone q (hqs q hq)]; exact Bool.false_ne_true]
    rfl
  have hone : came ps (add got p.fragmentOffset) = [p.fragment] := by
    have hadd := (hbetween.insert ⟨true, false, 0, 0, []⟩
      (hempty ps fun _ => id).symm (hnone p hp)).1
    exact hadd.symm
  refine .inr ⟨⟨p, hp, Bool.or_eq_true_iff.mpr (.inr (beq_self_eq_true _))⟩, i,
    ⟨true, p.isLastFragment, src, ident, [p.fragment]⟩, ?_, ?_, ?_, ?_⟩
  · rw [hstep]
    exact hfound
  · rw [hstep, hget]
  · exact hone.symm
  · rw [hbetween.lastCame_add]
    refine ⟨Or.inr, fun hor => hor.resolve_left ?_⟩
    rintro ⟨q, hq, hgot, -⟩
    rw [hnone q hq] at hgot
    cases hgot

/-! ## 6. The whole datagram -/

/-- What has come after a run. -/
def arrived (src ident : Nat) : (Nat → Bool) → List Happening → Nat → Bool
  | got, [] => got
  | got, .arrives f :: rest =>
    arrived src ident (if f.fragInfo.src = src ∧ f.fragInfo.ident = ident then add got f.fragmentOffset
      else got) rest
  | got, _ :: rest => arrived src ident got rest

/-- **One happening** while a fragment is still missing. -/
theorem Collecting.step (h : Collecting src ident ps got s) (hcut : Cut cfg ps)
    (hcfg : cfg.bigPacketSize + 20 < 65536) (hcalm : Calm src ident ps s e) (hq : q ∈ ps)
    (hmissing : arrived src ident got [e] q.fragmentOffset = false) :
    Collecting src ident ps (arrived src ident got [e]) (s.step cfg e.event).1 := by
  by_cases hother : Other src ident e
  · have hsame : arrived src ident got [e] = got := by
      cases e with
      | arrives f =>
        change (if _ then _ else _) = got
        exact if_neg hother
      | purgeOverdue overdue => rfl
      | returnBigPacket bp => rfl
    rw [hsame]
    exact h.apart (hother.apart hcalm)
  · cases e with
    | arrives f =>
      have hfkey : f.fragInfo.src = src ∧ f.fragInfo.ident = ident := not_not.mp hother
      obtain ⟨hf, hopen⟩ := hcalm hfkey
      have hgot : arrived src ident got [.arrives f] = add got f.fragmentOffset := if_pos hfkey
      rw [hgot] at hmissing ⊢
      rcases h with ⟨hnone, hfind⟩ | ⟨hsome, i, fc, hslot⟩
      · exact first_collecting hcut hcfg hf hfkey hnone hfind (hopen hfind)
      · right
        refine ⟨⟨f, hf, Bool.or_eq_true_iff.mpr (.inr (beq_self_eq_true _))⟩, i, ?_⟩
        by_cases hold : got f.fragmentOffset = true
        · rw [add_of_got hold]
          exact hslot.duplicate hcut hcfg hf hfkey hold
        · obtain ⟨fc', huse, hframes, hflag, hstep⟩ := hslot.new hcut hcfg hf hfkey
            (Bool.eq_false_iff.mpr hold)
          obtain ⟨hnot, hroom⟩ := hcut.incomplete hcfg hq hmissing hframes hflag
          refine ⟨fc', ?_⟩
          rw [hstep]
          unfold Reassembly.inserted
          rw [hnot, if_neg Bool.false_ne_true, if_neg hroom]
          exact hslot.put huse hframes hflag
    | purgeOverdue overdue => exact absurd trivial hother
    | returnBigPacket bp => exact absurd trivial hother

theorem arrived_mono (es : List Happening) (h : got k = true) :
    arrived src ident got es k = true := by
  induction es generalizing got with
  | nil => exact h
  | cons e es ih =>
    cases e with
    | arrives f =>
      refine ih ?_
      split
      · exact Bool.or_eq_true_iff.mpr (.inl h)
      · exact h
    | purgeOverdue overdue => exact ih h
    | returnBigPacket bp => exact ih h

theorem arrived_cons (e : Happening) (es : List Happening) :
    arrived src ident got (e :: es) = arrived src ident (arrived src ident got [e]) es := by
  cases e <;> rfl

/-- **A run** in which a fragment stays away. -/
theorem Collecting.run (h : Collecting src ident ps got s) (hcut : Cut cfg ps)
    (hcfg : cfg.bigPacketSize + 20 < 65536) (hcalm : AllCalm cfg src ident ps s es) (hq : q ∈ ps)
    (hmissing : arrived src ident got es q.fragmentOffset = false) :
    Collecting src ident ps (arrived src ident got es)
      (s.run cfg (es.map Happening.event)).1 := by
  induction es generalizing s got with
  | nil => exact h
  | cons e es ih =>
    rw [arrived_cons] at hmissing ⊢
    refine ih (h.step hcut hcfg hcalm.1 hq ?_) hcalm.2 hmissing
    refine Bool.eq_false_iff.mpr fun hgot => ?_
    rw [arrived_mono es hgot] at hmissing
    cases hmissing

/-- A datagram has more than one fragment. -/
theorem Cut.two (h : Cut cfg ps) (p : Frame) : ∃ q ∈ ps, q ≠ p := by
  obtain ⟨front, l, hsplit, -, hlast⟩ := h.last
  cases front with
  | nil =>
    -- a single one would be no fragment
    have hl : l ∈ ps := hsplit ▸ mem_singleton_self l
    have htiles := h.tiles
    rw [hsplit] at htiles
    have hno := not_fragment htiles.1 hlast
    rw [h.fragments l hl] at hno
    cases hno
  | cons f front =>
    have hpair := (tiles_pairwise h.tiles).2
    rw [hsplit] at hpair
    have hle := (pairwise_cons.mp hpair).1 l (mem_append_right _ (mem_singleton_self l))
    have hf : f ∈ ps := hsplit ▸ mem_append_left _ mem_cons_self
    have hl : l ∈ ps := hsplit ▸ mem_append_right _ (mem_singleton_self l)
    by_cases hfp : f = p
    · refine ⟨l, hl, fun heq => ?_⟩
      have := h.data f hf
      rw [hfp, heq] at hle
      rw [hfp] at this
      omega
    · exact ⟨f, hf, hfp⟩

/-- **The last fragment that was missing** makes the BigPacket. -/
theorem Collecting.complete (h : Collecting src ident ps got s) (hcut : Cut cfg ps)
    (hcfg : cfg.bigPacketSize + 20 < 65536)
    (hkey : ∀ q ∈ ps, q.fragInfo.src = src ∧ q.fragInfo.ident = ident) (hp : p ∈ ps)
    (hmissing : got p.fragmentOffset = false)
    (hall : ∀ q ∈ ps, q ≠ p → got q.fragmentOffset = true) (hfree : s.bigPacketFreeList ≠ []) :
    ∃ b, (s.step cfg (Happening.arrives p).event).2 = some b ∧ b.frags = ps.map Frame.fragment := by
  obtain ⟨q, hq, hqp⟩ := hcut.two p
  obtain ⟨pre, post, hbetween⟩ := hcut.between hp
  rcases h with ⟨hnone, -⟩ | ⟨-, i, fc, hslot⟩
  · have := hall q hq hqp
    rw [hnone q hq] at this
    cases this
  · obtain ⟨fc', huse, hframes, hflag, hstep⟩ := hslot.new hcut hcfg hp (hkey p hp) hmissing
    have hcome : ∀ q ∈ ps, add got p.fragmentOffset q.fragmentOffset = true := by
      intro q hq
      by_cases heq : q = p
      · rw [heq]
        exact Bool.or_eq_true_iff.mpr (.inr (beq_self_eq_true _))
      · exact Bool.or_eq_true_iff.mpr (.inl (hall q hq heq))
    rw [hstep]
    unfold Reassembly.inserted
    rw [hcut.complete hcfg hcome hframes hflag, if_pos rfl]
    unfold Reassembly.makeBigPacket
    cases hlist : s.bigPacketFreeList with
    | nil => exact absurd hlist hfree
    | cons bp rest => exact ⟨_, rfl, hframes.trans (came_all hcome)⟩

theorem arrived_of_mem (hkey : p.fragInfo.src = src ∧ p.fragInfo.ident = ident)
    (h : .arrives p ∈ es) : arrived src ident got es p.fragmentOffset = true := by
  induction es generalizing got with
  | nil => cases h
  | cons e es ih =>
    rcases mem_cons.mp h with rfl | h
    · refine arrived_mono es ?_
      rw [if_pos hkey]
      exact Bool.or_eq_true_iff.mpr (.inr (beq_self_eq_true _))
    · rw [arrived_cons]
      exact ih h

theorem not_arrived (hcut : Cut cfg ps) (hp : p ∈ ps) (hcalm : AllCalm cfg src ident ps s es)
    (hnot : .arrives p ∉ es)
    (hgot : got p.fragmentOffset = false) : arrived src ident got es p.fragmentOffset = false := by
  obtain ⟨pre, post, hbetween⟩ := hcut.between hp
  induction es generalizing s got with
  | nil => exact hgot
  | cons e es ih =>
    rw [arrived_cons]
    refine ih hcalm.2 (fun h => hnot (mem_cons_of_mem e h)) ?_
    cases e with
    | arrives f =>
      change (if _ then _ else _ : Nat → Bool) _ = false
      by_cases hkey : f.fragInfo.src = src ∧ f.fragInfo.ident = ident
      · rw [if_pos hkey]
        have hne : p.fragmentOffset ≠ f.fragmentOffset := by
          intro hoff
          have heq := hbetween.unique (hcalm.1 hkey).1 hoff.symm
          exact hnot (heq ▸ mem_cons_self)
        change (got p.fragmentOffset || p.fragmentOffset == f.fragmentOffset) = false
        rw [hgot, beq_eq_false_iff_ne.mpr hne]
        rfl
      · rw [if_neg hkey]
        exact hgot
    | purgeOverdue overdue => exact hgot
    | returnBigPacket bp => exact hgot

/-- **Reassembly is exact** in a run whose frames all suit: a BigPacket is made of the fragments of
one datagram.  And all fragments of a datagram make a BigPacket as soon as the last one that was
missing comes in, if nothing else of its source and ident does. -/
theorem reassembly_exact (cfg : FragConfig) (slots : Nat) (hcfg : cfg.bigPacketSize + 20 < 65536) :
    (∀ happenings, AllSuit cfg (init slots) happenings →
      ∀ b ∈ ((init slots).run cfg (happenings.map Happening.event)).2,
        Whole (fun f => .arrives f ∈ happenings) b.frags) ∧
    ∀ (s : Reassembly Frame) (happenings : List Happening) (ps : List Frame) (p : Frame),
      Cut cfg ps → p ∈ ps →
      findFragControl s.fragControl p.fragInfo.src p.fragInfo.ident = none →
      AllCalm cfg p.fragInfo.src p.fragInfo.ident ps s happenings →
      (∀ q ∈ ps, q ≠ p → .arrives q ∈ happenings) → .arrives p ∉ happenings →
      (s.run cfg (happenings.map Happening.event)).1.bigPacketFreeList ≠ [] →
      ∃ b, ((s.run cfg (happenings.map Happening.event)).1.step cfg (Happening.arrives p).event).2 =
          some b ∧
        b.frags = ps.map Frame.fragment ∧ ∀ old first,
          (Mtcp.makeBigPacket old first b.frags).ntohs 16 = 20 + total b.frags ∧
          (Mtcp.makeBigPacket old first b.frags).bytes 34 (total b.frags) = fragData b.frags := by
  constructor
  · intro happenings hsuit
    exact (init_kept slots).run hcfg (fun f hf => hf) hsuit
  · intro s happenings ps p hcut hp hfind hcalm hothers hnot hfree
    have hkey : ∀ q ∈ ps, q.fragInfo.src = p.fragInfo.src ∧ q.fragInfo.ident = p.fragInfo.ident := by
      intro q hq
      have h := hcut.key q hq p hp
      unfold Frame.datagramKey at h
      rw [Prod.mk.injEq, Prod.mk.injEq, Prod.mk.injEq] at h
      exact ⟨h.1, h.2.2.2⟩
    have hmissing : arrived p.fragInfo.src p.fragInfo.ident (fun _ => false) happenings
        p.fragmentOffset = false := not_arrived hcut hp hcalm hnot rfl
    have hstart : Collecting p.fragInfo.src p.fragInfo.ident ps (fun _ => false) s :=
      .inl ⟨fun _ _ => rfl, hfind⟩
    obtain ⟨b, hb, hframes⟩ := (hstart.run hcut hcfg hcalm hp hmissing).complete hcut hcfg hkey hp
      hmissing (fun q hq hne => arrived_of_mem (hkey q hq) (hothers q hq hne)) hfree
    have hsize := hcut.size
    refine ⟨b, hb, hframes, fun old first => ⟨makeBigPacket_header old first ?_,
      makeBigPacket_payload old first b.frags⟩⟩
    rw [hframes]
    omega

/-! ## 7. Two fragments -/

instance (f : Frame) (g : Fragment Frame) : Decidable (AgreesWith f g) :=
  decidable_of_iff (f.ntohl 30 = g.packet.ntohl 30 ∧ f.protocol = g.packet.protocol ∧
      (f.isLastFragment = true → g.stop ≤ f.fragment.stop) ∧
      (g.packet.isLastFragment = true → f.fragment.stop ≤ g.stop) ∧
      (f.isLastFragment = true → f.fragmentOffset = g.offset → f.payloadLen = g.length →
        g.packet.isLastFragment = true))
    ⟨fun ⟨hd, hp, hs, hs', hdup⟩ => ⟨hd, hp, hs, hs', hdup⟩,
      fun ⟨hd, hp, hs, hs', hdup⟩ => ⟨hd, hp, hs, hs', hdup⟩⟩

/-- A fragment of eight bytes: flags, a protocol, and the offset in units of eight. -/
def eightBytes (flags protocol offset : UInt8) : Frame where
  mem := fun k =>
    if k = 14 then 0x45 else if k = 17 then 28 else if k = 20 then flags
    else if k = 21 then offset else if k = 23 then protocol else 0
  len := 42
  short := by decide

/-- Two fragments of UDP, the second one first. -/
theorem reassembly_exact_two :
    (∀ b ∈ ((init 4).run ⟨10, 1500⟩ ([.arrives (eightBytes 0 17 1),
        .arrives (eightBytes 0x20 17 0)].map Happening.event)).2,
      Whole (fun f => .arrives f ∈ [Happening.arrives (eightBytes 0 17 1),
        .arrives (eightBytes 0x20 17 0)]) b.frags) ∧
    ∃ b, (((init 4).run ⟨10, 1500⟩ ([.arrives (eightBytes 0 17 1)].map Happening.event)).1.step
        ⟨10, 1500⟩ (Happening.arrives (eightBytes 0x20 17 0)).event).2 = some b ∧
      b.frags = [eightBytes 0x20 17 0, eightBytes 0 17 1].map Frame.fragment := by
  obtain ⟨hsafe, hlive⟩ := reassembly_exact ⟨10, 1500⟩ 4 (by decide)
  refine ⟨hsafe _ ⟨⟨rfl, by decide⟩, ⟨rfl, by decide⟩, trivial⟩, ?_⟩
  have hothers : ∀ q ∈ [eightBytes 0x20 17 0, eightBytes 0 17 1], q ≠ eightBytes 0x20 17 0 →
      .arrives q ∈ [Happening.arrives (eightBytes 0 17 1)] := by
    intro q hq hne
    rcases List.mem_pair.mp hq with rfl | rfl
    · exact absurd rfl hne
    · exact List.mem_cons_self
  have hnot : .arrives (eightBytes 0x20 17 0) ∉ [Happening.arrives (eightBytes 0 17 1)] := by
    intro h
    injection List.mem_singleton.mp h with heq
    exact nomatch congrArg (fun f : Frame => f.isLastFragment) heq
  obtain ⟨b, hb, hframes, -⟩ := hlive (init 4) [.arrives (eightBytes 0 17 1)]
    [eightBytes 0x20 17 0, eightBytes 0 17 1] (eightBytes 0x20 17 0)
    ⟨by decide, by decide, by decide, by exact ⟨rfl, rfl, trivial⟩,
      ⟨[eightBytes 0x20 17 0], eightBytes 0 17 1, rfl, by decide, by decide⟩, by decide, by decide⟩
    List.mem_cons_self (by decide)
    ⟨fun _ => ⟨List.mem_cons_of_mem _ List.mem_cons_self, fun _ => by decide⟩, trivial⟩ hothers hnot
    (by decide)
  exact ⟨b, hb, hframes⟩

/-- The first half of a UDP datagram, and the second of a TCP segment. -/
theorem reassembly_not_exact :
    ¬ ∀ b ∈ ((init 4).run ⟨10, 1500⟩ ([.arrives (eightBytes 0x20 17 0),
        .arrives (eightBytes 0 6 1)].map Happening.event)).2,
      Whole (fun _ => True) b.frags := by
  intro h
  have hmixed : ∃ b ∈ ((init 4).run ⟨10, 1500⟩ ([.arrives (eightBytes 0x20 17 0),
      .arrives (eightBytes 0 6 1)].map Happening.event)).2, ∃ g ∈ b.frags, ∃ g' ∈ b.frags,
      g.packet.datagramKey ≠ g'.packet.datagramKey := by decide
  obtain ⟨b, hb, g, hg, g', hg', hne⟩ := hmixed
  exact hne ((h b hb).one g hg g' hg')

end SdcBoot.Mtcp.Reassembly
