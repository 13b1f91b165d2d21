/-
# The ring of the buffers (`blockio.c`)

The buffers are linked in both directions, and `firstbuf` is one of them.  `searchblock` walks the
ring once: it stops at a buffer that holds the block, or it comes back to the first and knows a
buffer to give up; this one goes to the front (`move_buffer`).  A buffer is the offset of its
address, and 0 stands for none where `searchblock` notes one, although a buffer may lie at offset 0.

Whatever the flags are, the ring stays a ring of the same buffers in the same order but for the one
that went to the front, and no two valid buffers stand for one block.  A buffer that `getFATblock`
has just returned is not given up by the next call.  Where no buffer lies at offset 0, this is the
cache whose ring is a list.
-/
import SdcBoot.Block.Coherence
import SdcBoot.Lib.Links

namespace SdcBoot.Block

open Lib List Option

variable {S : Type}

/-! ## 1. The links -/

/-- The buffers with their links.  The list of the cache is not read. -/
structure Buffers (S : Type) where
  cache : Cache S
  links : Links Nat
  firstbuf : Nat

/-- What the walk of `searchblock` has seen; 0 is no buffer. -/
structure Seen where
  fatCount : Nat
  lastNonFat : Nat
  uncacheBuf : Nat

/-- A buffer that does not hold the block. -/
def Seen.note (buf : Nat → Buffer S) (s : Seen) (bp : Nat) : Seen where
  fatCount := if (buf bp).fat then s.fatCount + 1 else s.fatCount
  lastNonFat := if (buf bp).fat then s.lastNonFat else bp
  uncacheBuf := if (buf bp).uncache then bp else s.uncacheBuf

/-- `move_buffer` -/
def Buffers.moveBuffer (c : Buffers S) (bp firstbp : Nat) : Buffers S :=
  { c with links := (c.links.unlink bp).insertBefore bp firstbp }

/-- The loop of `searchblock`: a buffer that holds the block, or what was seen on the way around. -/
def Buffers.searchLoop (c : Buffers S) (blkno dsk : Nat) : Nat → Nat → Seen → Option (Nat ⊕ Seen)
  | 0, _, _ => none
  | fuel + 1, bp, s =>
    if (c.cache.buf bp).holds dsk blkno then some (.inl bp)
    else
      let s := s.note c.cache.buf bp
      let bp := c.links.next bp
      if bp ≠ c.firstbuf then c.searchLoop blkno dsk fuel bp s else some (.inr s)

/-- The buffer to give up. -/
def Buffers.giveUp (c : Buffers S) (s : Seen) : Nat :=
  if s.uncacheBuf ≠ 0 then s.uncacheBuf
  else if (c.cache.buf c.firstbuf).fat ∧ s.fatCount < 3 ∧ s.lastNonFat ≠ 0 then s.lastNonFat
  else c.links.prev c.firstbuf

/-- The buffer gets or loses its UNCACHE mark and goes to the front. -/
def Buffers.front (c : Buffers S) (bp : Nat) (uncache : Bool) : Buffers S :=
  let c' := { c with cache := c.cache.setBuf bp { c.cache.buf bp with uncache := uncache } }
  if bp ≠ c.firstbuf then { c'.moveBuffer bp c.firstbuf with firstbuf := bp } else c'

def Buffers.searchblock (fuel : Nat) (c : Buffers S) (blkno dsk : Nat) :
    Option (Nat × Buffers S) :=
  (c.searchLoop blkno dsk fuel c.firstbuf ⟨0, 0, 0⟩).map fun
    | .inl bp => (bp, c.front bp false)
    | .inr s => (c.giveUp s, c.front (c.giveUp s) true)

def Buffers.getblk (fuel : Nat) (c : Buffers S) (blkno dsk : Nat) (overwrite : Bool) :
    Option (Option Nat × Buffers S) :=
  (c.searchblock fuel blkno dsk).map fun (bp, c) =>
    if !(c.cache.buf bp).uncache then (some bp, c)
    else
      let f := c.cache.flush1 bp
      if !f.1 then (none, { c with cache := f.2 })
      else if overwrite then (some bp, { c with cache := f.2.claim bp blkno dsk })
      else
        let r := f.2.dskread dsk
        let m := r.2.2.setBuf bp { r.2.2.buf bp with bBuffer := r.2.1 blkno }
        if r.1 then (none, { c with cache := m })
        else (some bp, { c with cache := m.claim bp blkno dsk })

/-- `getFATblock`, with what it notes of the DPB. -/
def Buffers.getFATblock (fuel : Nat) (c : Buffers S) (blkno dsk copies offset xfatsize : Nat) :
    Option (Option Nat × Buffers S) :=
  (c.getblk fuel blkno dsk false).map fun
    | (some bp, c) => (some bp, { c with cache := c.cache.markFat bp copies offset xfatsize })
    | (none, c) => (none, c)

/-! ## 2. The walk -/

theorem searchLoop_eq (c : Buffers S) (blkno dsk : Nat) {todo : List Nat} :
    ∀ {fuel bp : Nat} (s : Seen), (bp :: todo ++ [c.firstbuf]).IsChain c.links.Joined →
      c.firstbuf ∉ todo → todo.length < fuel →
      c.searchLoop blkno dsk fuel bp s =
        match (bp :: todo).find? fun i => (c.cache.buf i).holds dsk blkno with
        | some i => some (.inl i)
        | none => some (.inr ((bp :: todo).foldl (Seen.note c.cache.buf) s)) := by
  induction todo with
  | nil =>
    intro fuel bp s hchain _ hfuel
    obtain ⟨fuel, rfl⟩ := Nat.exists_eq_succ_of_ne_zero (by omega : fuel ≠ 0)
    have hnext : c.links.next bp = c.firstbuf := (isChain_cons_cons.mp hchain).1.1
    by_cases hb : (c.cache.buf bp).holds dsk blkno = true
    · simp [Buffers.searchLoop, hb]
    · simp [Buffers.searchLoop, hb, hnext]
  | cons y ys ih =>
    intro fuel bp s hchain hnot hfuel
    obtain ⟨fuel, rfl⟩ := Nat.exists_eq_succ_of_ne_zero (by omega : fuel ≠ 0)
    obtain ⟨hbp, hrest⟩ := isChain_cons_cons.mp hchain
    have hne : y ≠ c.firstbuf := fun he => hnot (he ▸ mem_cons_self)
    by_cases hb : (c.cache.buf bp).holds dsk blkno = true
    · simp [Buffers.searchLoop, hb]
    · have hgo := ih (s.note c.cache.buf bp) hrest
        (fun h => hnot (mem_cons_of_mem y h)) (Nat.lt_of_succ_lt_succ hfuel)
      simp only [Buffers.searchLoop, hb, Bool.false_eq_true, if_false, hbp.1, ne_eq, hne,
        not_false_eq_true, if_true, hgo, find?_cons_of_neg, foldl_cons]

/-- The last of a list that a test selects, 0 where there is none. -/
theorem foldl_last (p : Nat → Bool) (l : List Nat) : ∀ d : Nat,
    l.foldl (fun s i => if p i then i else s) d = ((l.filter p).getLast?).getD d := by
  induction l with
  | nil => exact fun d => rfl
  | cons i l ih =>
    intro d
    rw [foldl_cons, ih]
    by_cases hi : p i = true
    · rw [if_pos hi, filter_cons_of_pos hi, getLast?_cons]
      rfl
    · rw [if_neg hi, filter_cons_of_neg hi]

/-- **What is seen on the way around.** -/
theorem foldl_note (buf : Nat → Buffer S) (l : List Nat) : ∀ s : Seen,
    (l.foldl (Seen.note buf) s).fatCount =
      s.fatCount + (l.filter fun i => (buf i).fat).length ∧
    (l.foldl (Seen.note buf) s).lastNonFat =
      (l.filter fun i => !(buf i).fat).getLast?.getD s.lastNonFat ∧
    (l.foldl (Seen.note buf) s).uncacheBuf =
      (l.filter fun i => (buf i).uncache).getLast?.getD s.uncacheBuf := by
  simp only [← foldl_last]
  induction l with
  | nil => exact fun s => ⟨rfl, rfl, rfl⟩
  | cons i l ih =>
    intro s
    obtain ⟨h1, h2, h3⟩ := ih (s.note buf i)
    refine ⟨h1.trans ?_, h2.trans ?_, h3.trans ?_⟩
    · cases hf : (buf i).fat <;> simp [Seen.note, hf, add_assoc, add_comm]
    · cases hf : (buf i).fat <;> simp [Seen.note, hf]
    · rfl

/-! ## 3. The invariant -/

/-- The buffers of `l`, from `firstbuf` on, are a ring, and no two valid ones stand for one block. -/
structure Buffers.Sound (c : Buffers S) (l : List Nat) : Prop where
  ring : c.links.Ring l
  first : l.head? = some c.firstbuf
  two : 2 ≤ l.length
  distinct : ∀ i ∈ l, ∀ j ∈ l, ∀ u b, (c.cache.buf i).holds u b = true →
    (c.cache.buf j).holds u b = true → i = j

variable {l : List Nat} {c : Buffers S} {fuel : Nat}

theorem getLast?_mem {p : Nat → Bool} (h : (l.filter p).getLast?.getD 0 ≠ 0) :
    (l.filter p).getLast?.getD 0 ∈ l ∧ p ((l.filter p).getLast?.getD 0) = true := by
  cases hl : (l.filter p).getLast? with
  | none =>
    rw [hl] at h
    exact absurd rfl h
  | some i => exact mem_filter.mp (mem_of_getLast? hl)

/-- The buffer in front of the first is the last, and another one. -/
theorem Buffers.Sound.prev {rest : List Nat} (h : c.Sound (c.firstbuf :: rest)) :
    c.links.prev c.firstbuf ∈ rest ∧ c.links.prev c.firstbuf = rest.getLastD c.firstbuf := by
  obtain ⟨-, hchain⟩ := h.ring
  rcases eq_nil_or_concat rest with rfl | ⟨l, z, rfl⟩
  · exact nomatch h.two
  · have heq : c.firstbuf :: l.concat z ++ [c.firstbuf] =
        c.firstbuf :: l ++ z :: c.firstbuf :: [] := by simp
    rw [heq, isChain_append_cons_cons] at hchain
    rw [hchain.2.1.2]
    simp

/-- **The buffer to give up** is one of the ring; it is not the first, if that one is a FAT buffer in
use. -/
theorem Buffers.Sound.giveUp (h : c.Sound l) {s : Seen}
    (hs : s = l.foldl (Seen.note c.cache.buf) ⟨0, 0, 0⟩) :
    c.giveUp s ∈ l ∧ ((c.cache.buf c.firstbuf).fat = true →
      (c.cache.buf c.firstbuf).uncache = false → c.giveUp s ≠ c.firstbuf) := by
  obtain ⟨-, hlast, hunc⟩ := foldl_note c.cache.buf l ⟨0, 0, 0⟩
  rw [← hs] at hlast hunc
  unfold Buffers.giveUp
  split
  · rename_i hne
    rw [hunc] at hne ⊢
    obtain ⟨hmem, hp⟩ := getLast?_mem hne
    refine ⟨hmem, fun _ hcached he => ?_⟩
    rw [he, hcached] at hp
    cases hp
  · split
    · rename_i hfat
      have hne := hfat.2.2
      rw [hlast] at hne ⊢
      obtain ⟨hmem, hp⟩ := getLast?_mem hne
      refine ⟨hmem, fun hf _ he => ?_⟩
      rw [he, hf] at hp
      cases hp
    · obtain ⟨rest, rfl⟩ := head?_eq_some_iff.mp h.first
      obtain ⟨hprev, -⟩ := h.prev
      refine ⟨mem_cons_of_mem _ hprev, fun _ _ he => ?_⟩
      exact (nodup_cons.mp h.ring.nodup).1 (he ▸ hprev)

/-- A buffer goes to the front. -/
theorem Buffers.Sound.front (h : c.Sound l) {i : Nat} (hi : i ∈ l)
    (uncache : Bool) : (c.front i uncache).Sound (i :: l.erase i) ∧
      (c.front i uncache).firstbuf = i ∧ (c.front i uncache).cache =
        c.cache.setBuf i { c.cache.buf i with uncache := uncache } := by
  obtain ⟨rest, rfl⟩ := head?_eq_some_iff.mp h.first
  have hperm := perm_cons_erase hi
  have hholds : ∀ j u b, ((c.cache.setBuf i { c.cache.buf i with uncache := uncache }).buf j).holds
      u b = (c.cache.buf j).holds u b := fun j u b => found_holds c.cache i j uncache u b
  have hdistinct : ∀ x ∈ i :: (c.firstbuf :: rest).erase i, ∀ y ∈ i :: (c.firstbuf :: rest).erase i, ∀ u b,
      ((c.cache.setBuf i { c.cache.buf i with uncache := uncache }).buf x).holds u b = true →
      ((c.cache.setBuf i { c.cache.buf i with uncache := uncache }).buf y).holds u b = true →
      x = y := by
    intro x hx y hy u b
    rw [hholds, hholds]
    exact h.distinct x (hperm.mem_iff.mpr hx) y (hperm.mem_iff.mpr hy) u b
  have htwo : 2 ≤ (i :: (c.firstbuf :: rest).erase i).length := hperm.length_eq ▸ h.two
  unfold Buffers.front
  by_cases hne : i ≠ c.firstbuf
  · rw [if_pos hne]
    exact ⟨⟨h.ring.toFront hi hne, rfl, htwo, hdistinct⟩, rfl, rfl⟩
  · rw [if_neg hne]
    obtain rfl := not_not.mp hne
    rw [erase_cons_head] at htwo hdistinct ⊢
    exact ⟨⟨h.ring, h.first, htwo, hdistinct⟩, rfl, rfl⟩

/-- What `searchblock` returns: the buffer of a hit, or one to give up. -/
structure Searched (c : Buffers S) (l : List Nat) (blkno dsk i : Nat) (hit : Bool) : Prop where
  mem : i ∈ l
  held : hit = true → (c.cache.buf i).holds dsk blkno = true
  missed : hit = false → (∀ j ∈ l, ¬ (c.cache.buf j).holds dsk blkno = true) ∧
    ((c.cache.buf c.firstbuf).fat = true → (c.cache.buf c.firstbuf).uncache = false →
      i ≠ c.firstbuf)

/-- **`searchblock` comes to an end**: it walks the ring once. -/
theorem searchblock_eq (h : c.Sound l) (hfuel : l.length ≤ fuel) (blkno dsk : Nat) :
    c.searchblock fuel blkno dsk =
      match l.find? fun i => (c.cache.buf i).holds dsk blkno with
      | some i => some (i, c.front i false)
      | none => some (c.giveUp (l.foldl (Seen.note c.cache.buf) ⟨0, 0, 0⟩),
          c.front (c.giveUp (l.foldl (Seen.note c.cache.buf) ⟨0, 0, 0⟩)) true) := by
  obtain ⟨rest, rfl⟩ := head?_eq_some_iff.mp h.first
  obtain ⟨hnodup, hchain⟩ := h.ring
  unfold Buffers.searchblock
  rw [searchLoop_eq c blkno dsk ⟨0, 0, 0⟩ hchain (nodup_cons.mp hnodup).1 hfuel]
  cases (c.firstbuf :: rest).find? fun i => (c.cache.buf i).holds dsk blkno <;> rfl

theorem searchblock_spec (h : c.Sound l) (hfuel : l.length ≤ fuel) (blkno dsk : Nat) :
    ∃ i hit, c.searchblock fuel blkno dsk = some (i, c.front i !hit) ∧
      Searched c l blkno dsk i hit := by
  rw [searchblock_eq h hfuel]
  cases hfind : l.find? fun i => (c.cache.buf i).holds dsk blkno with
  | some i =>
    refine ⟨i, true, rfl, mem_of_find?_eq_some hfind, fun _ => ?_, nofun⟩
    simpa using find?_some hfind
  | none =>
    obtain ⟨hmem, hne⟩ := h.giveUp rfl
    exact ⟨_, false, rfl, hmem, nofun, fun _ =>
      ⟨fun j hj => find?_eq_none.mp hfind j hj, hne⟩⟩

/-- **With no buffer at offset 0** the buffer to give up is the one of the cache whose ring is a
list. -/
theorem Buffers.Sound.giveUp_eq (h : c.Sound l) (hzero : 0 ∉ l) :
    c.giveUp (l.foldl (Seen.note c.cache.buf) ⟨0, 0, 0⟩) = { c.cache with ring := l }.victim := by
  obtain ⟨rest, rfl⟩ := head?_eq_some_iff.mp h.first
  obtain ⟨hcount, hlast, hunc⟩ := foldl_note c.cache.buf (c.firstbuf :: rest) ⟨0, 0, 0⟩
  have hmem : ∀ p : Nat → Bool, ∀ i, ((c.firstbuf :: rest).filter p).getLast? = some i → i ≠ 0 :=
    fun p i hi he => hzero (he ▸ (mem_filter.mp (mem_of_getLast? hi)).1)
  unfold Buffers.giveUp Cache.victim
  rw [hcount, hlast, hunc, h.prev.2]
  cases hu : ((c.firstbuf :: rest).filter fun i => (c.cache.buf i).uncache).getLast? with
  | some i => simp [hmem _ i hu]
  | none =>
    cases hl : ((c.firstbuf :: rest).filter fun i => !(c.cache.buf i).fat).getLast? with
    | some i => simp [hl, hmem _ i hl]
    | none => simp [hl]

/-- **`searchblock` on the linked buffers is `searchblock` on the list**, where no buffer lies at
offset 0. -/
theorem searchblock_refines (h : c.Sound l) (hfuel : l.length ≤ fuel) (hzero : 0 ∉ l)
    (blkno dsk : Nat) :
    ∃ i c', c.searchblock fuel blkno dsk = some (i, c') ∧
      { c.cache with ring := l }.searchblock blkno dsk =
        (i, { c'.cache with ring := i :: l.erase i }) := by
  have heq := searchblock_eq h hfuel blkno dsk
  unfold Cache.searchblock
  cases hfind : l.find? fun i => (c.cache.buf i).holds dsk blkno with
  | some i =>
    rw [hfind] at heq
    refine ⟨i, _, heq, ?_⟩
    rw [(h.front (mem_of_find?_eq_some hfind) false).2.2]
    rfl
  | none =>
    rw [hfind] at heq
    refine ⟨_, _, heq, ?_⟩
    rw [(h.front (h.giveUp rfl).1 true).2.2, ← h.giveUp_eq hzero]
    rfl

/-! ## 4. `getblk` -/

theorem writeCopies_buf (unit stride : Nat) (contents : S) (n : Nat) : ∀ (blkno : Nat) (c : Cache S),
    (Cache.writeCopies unit stride contents n blkno c).2.buf = c.buf := by
  induction n with
  | zero => exact fun _ _ => rfl
  | succ n ih =>
    intro blkno c
    have hw : (c.dskwrite unit blkno 1 fun _ => contents).2.buf = c.buf := by
      unfold Cache.dskwrite
      split <;> rfl
    exact (ih _ _).trans hw

/-- `flush1` leaves a buffer its block, and the others as they are. -/
theorem flush1_buf (c : Cache S) (i : Nat) : ∃ v, (v = true → (c.buf i).valid = true) ∧
    (c.flush1 i).2.buf = (c.setBuf i { c.buf i with dirty := false, valid := v }).buf := by
  refine ⟨(c.buf i).valid && (c.flush1 i).1, fun hv => (Bool.and_eq_true_iff.mp hv).1, ?_⟩
  have hbuf : (if (c.buf i).valid && (c.buf i).dirty then
      Cache.writeCopies (c.buf i).bUnit (c.buf i).stride (c.buf i).bBuffer (c.buf i).copies
        (c.buf i).bBlkno c else (true, c)).2.buf = c.buf := by
    split
    · exact writeCopies_buf ..
    · rfl
  simp only [Cache.flush1, Cache.setBuf, hbuf]

theorem dskread_buf (c : Cache S) (dsk : Nat) : (c.dskread dsk).2.2.buf = c.buf := by
  unfold Cache.dskread
  split <;> rfl

/-- What `getblk` does for a block, with the buffer `i` in front of the others. -/
structure Got (c : Buffers S) (l : List Nat) (blkno dsk i : Nat) (r : Option Nat) (c' : Buffers S) :
    Prop where
  mem : i ∈ l
  sound : c'.Sound (i :: l.erase i)
  first : c'.firstbuf = i
  result : r = none ∨ r = some i
  done : r = some i → (c'.cache.buf i).holds dsk blkno = true ∧ (c'.cache.buf i).uncache = false
  other : ∀ j, j ≠ i → c'.cache.buf j = c.cache.buf j
  apart : (c.cache.buf c.firstbuf).fat = true → (c.cache.buf c.firstbuf).uncache = false →
    ¬ (c.cache.buf c.firstbuf).holds dsk blkno = true → i ≠ c.firstbuf

/-- The first buffer gets another content: one that stands for nothing else than before, or for a
block that no other one stands for. -/
theorem Buffers.Sound.setFirst {i : Nat} (h : c.Sound (i :: l)) {m : Cache S}
    (hother : ∀ j, j ≠ i → m.buf j = c.cache.buf j)
    (hfree : ∀ u b, (m.buf i).holds u b = true → ∀ j ∈ l, ¬ (c.cache.buf j).holds u b = true) :
    ({ c with cache := m } : Buffers S).Sound (i :: l) := by
  have hnot := (nodup_cons.mp h.ring.nodup).1
  have hback : ∀ j ∈ l, m.buf j = c.cache.buf j := fun j hj => hother j fun he => hnot (he ▸ hj)
  refine ⟨h.ring, h.first, h.two, fun x hx y hy u b hxb hyb => ?_⟩
  rcases mem_cons.mp hx with rfl | hxl
  · rcases mem_cons.mp hy with rfl | hyl
    · rfl
    · exact absurd (hback y hyl ▸ hyb) (hfree u b hxb y hyl)
  · rcases mem_cons.mp hy with rfl | hyl
    · exact absurd (hback x hxl ▸ hxb) (hfree u b hyb x hxl)
    · rw [hback x hxl] at hxb
      rw [hback y hyl] at hyb
      exact h.distinct x hx y hy u b hxb hyb

/-- **`getblk` keeps the ring.** -/
theorem getblk_spec (h : c.Sound l) (hfuel : l.length ≤ fuel) (blkno dsk : Nat) (overwrite : Bool) :
    ∃ i r c', c.getblk fuel blkno dsk overwrite = some (r, c') ∧ Got c l blkno dsk i r c' := by
  obtain ⟨i, hit, hsearch, hs⟩ := searchblock_spec h hfuel blkno dsk
  obtain ⟨hfront, hfirst, hcache⟩ := h.front hs.mem (!hit)
  have hself : (c.front i !hit).cache.buf i = { c.cache.buf i with uncache := !hit } := by
    rw [hcache, setBuf_self]
  have hothers : ∀ j, j ≠ i → (c.front i !hit).cache.buf j = c.cache.buf j := fun j hj => by
    rw [hcache, setBuf_ne _ _ hj]
  have happart : (c.cache.buf c.firstbuf).fat = true → (c.cache.buf c.firstbuf).uncache = false →
      ¬ (c.cache.buf c.firstbuf).holds dsk blkno = true → i ≠ c.firstbuf := by
    intro hfat hcached hnot
    cases hit with
    | true => exact fun he => hnot (he ▸ hs.held rfl)
    | false => exact (hs.missed rfl).2 hfat hcached
  unfold Buffers.getblk
  rw [hsearch]
  simp only [map_some, hself]
  cases hit with
  | true =>
    refine ⟨i, some i, _, rfl, hs.mem, hfront, hfirst, .inr rfl, fun _ => ?_, hothers, happart⟩
    rw [hself]
    exact ⟨hs.held rfl, rfl⟩
  | false =>
    simp only [Bool.not_false] at hself hfront hfirst hothers
    simp only [Bool.not_false, Bool.not_true, Bool.false_eq_true, if_false]
    obtain ⟨v, hv, hflush⟩ := flush1_buf (c.front i true).cache i
    have hmiss := (hs.missed rfl).1
    have hset : ∀ (m : Cache S), (∀ j, j ≠ i → m.buf j = (c.front i true).cache.buf j) →
        (∀ u b, (m.buf i).holds u b = true → (c.cache.buf i).holds u b = true ∨
          u = dsk ∧ b = blkno) →
        ({ c.front i true with cache := m } : Buffers S).Sound (i :: l.erase i) := by
      intro m hother hheld
      refine hfront.setFirst hother fun u b hb j hj hjb => ?_
      have hne : j ≠ i := fun he => (nodup_cons.mp hfront.ring.nodup).1 (he ▸ hj)
      rw [hothers j hne] at hjb
      rcases hheld u b hb with hib | ⟨rfl, rfl⟩
      · exact hne (h.distinct j (mem_of_mem_erase hj) i hs.mem u b hjb hib)
      · exact hmiss j (mem_of_mem_erase hj) hjb
    -- a buffer that was not given to the block stands for what it stood for
    have hold : ∀ (m : Cache S) (x : S), m.buf =
        ((c.front i true).cache.setBuf i { (c.front i true).cache.buf i with
          dirty := false, valid := v, bBuffer := x }).buf →
        Got c l blkno dsk i none { c.front i true with cache := m } := by
      intro m x hm
      have hne : ∀ j, j ≠ i → m.buf j = (c.front i true).cache.buf j := fun j hj => by
        rw [hm, setBuf_ne _ _ hj]
      refine ⟨hs.mem, hset m hne fun u b hb => .inl ?_, hfirst, .inl rfl, nofun,
        fun j hj => (hne j hj).trans (hothers j hj), happart⟩
      rw [hm, setBuf_self, holds_iff] at hb
      rw [hself] at hb hv
      exact holds_iff.mpr ⟨hb.1, hv hb.2.1, hb.2.2⟩
    have hgive : ∀ m : Cache S, (∀ j, j ≠ i → m.buf j = (c.front i true).cache.buf j) →
        Got c l blkno dsk i (some i) { c.front i true with cache := m.claim i blkno dsk } := by
      intro m hm
      have hne : ∀ j, j ≠ i → (m.claim i blkno dsk).buf j = (c.front i true).cache.buf j :=
        fun j hj => (setBuf_ne _ _ hj).trans (hm j hj)
      have hnew : ((m.claim i blkno dsk).buf i).holds dsk blkno = true ∧
          ((m.claim i blkno dsk).buf i).uncache = false := by
        unfold Cache.claim
        rw [setBuf_self]
        exact ⟨by simp [Buffer.holds], rfl⟩
      refine ⟨hs.mem, hset _ hne fun u b hb => .inr ?_, hfirst, .inr rfl, fun _ => hnew,
        fun j hj => (hne j hj).trans (hothers j hj), happart⟩
      obtain ⟨h1, -, h3⟩ := holds_iff.mp hb
      obtain ⟨h1', -, h3'⟩ := holds_iff.mp hnew.1
      exact ⟨h3.symm.trans h3', h1.symm.trans h1'⟩
    have hflushed : ∀ j, j ≠ i → ((c.front i true).cache.flush1 i).2.buf j =
        (c.front i true).cache.buf j := fun j hj => by rw [hflush, setBuf_ne _ _ hj]
    split
    · refine ⟨i, none, _, rfl, hold _ ((c.front i true).cache.buf i).bBuffer ?_⟩
      rw [hflush]
    · split
      · exact ⟨i, some i, _, rfl, hgive _ hflushed⟩
      · have hread : ∀ x : S, ((((c.front i true).cache.flush1 i).2.dskread dsk).2.2.setBuf i
            { (((c.front i true).cache.flush1 i).2.dskread dsk).2.2.buf i with bBuffer := x }).buf =
            ((c.front i true).cache.setBuf i { (c.front i true).cache.buf i with
              dirty := false, valid := v, bBuffer := x }).buf := by
          intro x
          simp only [Cache.setBuf, dskread_buf, hflush, Function.update_self, Function.update_idem]
        split
        · exact ⟨i, none, _, rfl, hold _ _ (hread _)⟩
        · refine ⟨i, some i, _, rfl, hgive _ fun j hj => ?_⟩
          rw [hread, setBuf_ne _ _ hj]

theorem writeCopies_ring (unit stride : Nat) (contents : S) (n : Nat) :
    ∀ (blkno : Nat) (m : Cache S),
      Cache.writeCopies unit stride contents n blkno { m with ring := l } =
        ((Cache.writeCopies unit stride contents n blkno m).1,
          { (Cache.writeCopies unit stride contents n blkno m).2 with ring := l }) := by
  induction n with
  | zero => exact fun _ _ => rfl
  | succ n ih =>
    intro blkno m
    have hw : Cache.dskwrite { m with ring := l } unit blkno 1 (fun _ => contents) =
        ((m.dskwrite unit blkno 1 fun _ => contents).1,
          { (m.dskwrite unit blkno 1 fun _ => contents).2 with ring := l }) := by
      obtain ⟨ring, buf, dev, reads, _ | ⟨_ | _ | _, ws⟩⟩ := m <;> rfl
    simp only [Cache.writeCopies, hw, ih]

theorem flush1_ring (m : Cache S) (i : Nat) :
    Cache.flush1 { m with ring := l } i = ((m.flush1 i).1, { (m.flush1 i).2 with ring := l }) := by
  unfold Cache.flush1
  dsimp only
  split
  · rw [writeCopies_ring]
    rfl
  · rfl

theorem dskread_ring (m : Cache S) (dsk : Nat) : Cache.dskread { m with ring := l } dsk =
    ((m.dskread dsk).1, (m.dskread dsk).2.1, { (m.dskread dsk).2.2 with ring := l }) := by
  obtain ⟨ring, buf, dev, _ | ⟨_ | _ | _, rs⟩, writes⟩ := m <;> rfl

/-- **`getblk` on the linked buffers is `getblk` on the list.** -/
theorem getblk_refines (h : c.Sound l) (hfuel : l.length ≤ fuel) (hzero : 0 ∉ l)
    (blkno dsk : Nat) (overwrite : Bool) : ∃ i ∈ l, ∃ r c',
      c.getblk fuel blkno dsk overwrite = some (r, c') ∧ c'.Sound (i :: l.erase i) ∧
      { c.cache with ring := l }.getblk blkno dsk overwrite =
        (r, { c'.cache with ring := i :: l.erase i }) := by
  obtain ⟨i, r, c', hget, hgot⟩ := getblk_spec h hfuel blkno dsk overwrite
  refine ⟨i, hgot.mem, r, c', hget, hgot.sound, ?_⟩
  obtain ⟨j, d, hsearch, hlist⟩ := searchblock_refines h hfuel hzero blkno dsk
  obtain ⟨k, hit, hfound, hs⟩ := searchblock_spec h hfuel blkno dsk
  cases hsearch.symm.trans hfound
  unfold Buffers.getblk at hget
  rw [hsearch] at hget
  simp only [map_some, some.injEq] at hget
  have hfirst : c'.firstbuf = j := by
    rw [← (h.front hs.mem (!hit)).2.1, ← congrArg (fun p => p.2.firstbuf) hget]
    split_ifs <;> rfl
  obtain rfl : j = i := hfirst.symm.trans hgot.first
  unfold Cache.getblk
  simp only [hlist, flush1_ring, dskread_ring]
  split_ifs at hget ⊢ <;>
    cases hget
  all_goals rfl

/-- Of two calls of `getFATblock` for different sectors the second returns another buffer, and the
first one's buffer is intact. -/
def FatBlocksApart (fuel : Nat) (c : Buffers S) : Prop :=
  ∀ b u b' u' copies offset xfatsize copies' offset' xfatsize' i j c₁ c₂, (b, u) ≠ (b', u') →
    c.getFATblock fuel b u copies offset xfatsize = some (some i, c₁) →
    c₁.getFATblock fuel b' u' copies' offset' xfatsize' = some (some j, c₂) →
    j ≠ i ∧ c₂.cache.buf i = c₁.cache.buf i

/-- **Two FAT blocks at a time.** -/
theorem getFATblock_apart (h : c.Sound l) (hfuel : l.length ≤ fuel) : FatBlocksApart fuel c := by
  intro b u b' u' copies offset xfatsize copies' offset' xfatsize' i j c₁ c₂ hne h₁ h₂
  obtain ⟨x, r, d, hget, hgot⟩ := getblk_spec h hfuel b u false
  unfold Buffers.getFATblock at h₁
  rw [hget] at h₁
  rcases hgot.result with rfl | rfl
  · exact nomatch congrArg Prod.fst (some.inj h₁)
  obtain ⟨hxi, rfl⟩ := Prod.mk.inj (some.inj h₁)
  obtain rfl := some.inj hxi
  obtain ⟨hheld, hcached⟩ := hgot.done rfl
  -- the first buffer is a FAT buffer in use
  have hmark : ∀ u b, ((d.cache.markFat x copies offset xfatsize).buf x).holds u b = true →
      (d.cache.buf x).holds u b = true := by
    intro v k hk
    obtain ⟨h1, -, h3⟩ := holds_iff.mp hk
    unfold Cache.markFat at h1 h3
    rw [setBuf_self] at h1 h3
    exact holds_iff.mpr ⟨h1, (holds_iff.mp hheld).2.1, h3⟩
  have hsound : ({ d with cache := d.cache.markFat x copies offset xfatsize } : Buffers S).Sound
      (x :: l.erase x) := by
    refine hgot.sound.setFirst (fun j hj => setBuf_ne _ _ hj) fun v k hk j hj hjk => ?_
    have he := hgot.sound.distinct j (mem_cons_of_mem x hj) x mem_cons_self v k hjk
      (hmark v k hk)
    exact (nodup_cons.mp hgot.sound.ring.nodup).1 (he ▸ hj)
  have hlen : (x :: l.erase x).length ≤ fuel := by
    rw [← (perm_cons_erase hgot.mem).length_eq]
    exact hfuel
  obtain ⟨y, r', e, hget', hgot'⟩ := getblk_spec hsound hlen b' u' false
  unfold Buffers.getFATblock at h₂
  rw [hget'] at h₂
  rcases hgot'.result with rfl | rfl
  · exact nomatch congrArg Prod.fst (some.inj h₂)
  obtain ⟨hyj, rfl⟩ := Prod.mk.inj (some.inj h₂)
  obtain rfl := some.inj hyj
  have hfirst : d.firstbuf = x := hgot.first
  have hyx : y ≠ x := by
    have happart := hgot'.apart
    simp only [hfirst, Cache.markFat, setBuf_self] at happart
    refine happart trivial hcached fun hk => hne ?_
    obtain ⟨h1, -, h3⟩ := holds_iff.mp hheld
    obtain ⟨h1', -, h3'⟩ := holds_iff.mp hk
    exact Prod.ext (h1.symm.trans h1') (h3.symm.trans h3')
  refine ⟨hyx, ?_⟩
  have hkept : (e.cache.markFat y copies' offset' xfatsize').buf x = e.cache.buf x :=
    setBuf_ne _ _ hyx.symm
  exact hkept.trans (hgot'.other x hyx.symm)

/-! ## 5. Runs -/

/-- The calls; between them the callers change the flags of a buffer, but for BFR_VALID. -/
inductive RingCall where
  | searchblock (blkno dsk : Nat)
  | getblk (blkno dsk : Nat) (overwrite : Bool)
  | flags (bp : Nat) (dirty data dir fat uncache : Bool)

/-- One call, and the buffer that is returned; the outer result is none where the walk did not end. -/
def ringStep (fuel : Nat) (c : Buffers S) : RingCall → Option (Option Nat) × Buffers S
  | .searchblock blkno dsk =>
    match c.searchblock fuel blkno dsk with
    | some (bp, c) => (some (some bp), c)
    | none => (none, c)
  | .getblk blkno dsk overwrite =>
    match c.getblk fuel blkno dsk overwrite with
    | some (r, c) => (some r, c)
    | none => (none, c)
  | .flags bp dirty data dir fat uncache =>
    (some none, { c with cache := c.cache.setBuf bp { c.cache.buf bp with
      dirty := dirty, data := data, dir := dir, fat := fat, uncache := uncache } })

/-- **What a call does to the ring `l`**: a buffer goes to the front, the others keep their order, and
it is the buffer that is returned, if any; a change of flags leaves the ring as it is. -/
def RingKept (l : List Nat) (call : RingCall) (out : Option (Option Nat) × Buffers S) : Prop :=
  match call with
  | .flags .. => out.2.Sound l
  | .getblk .. => ∃ i ∈ l, out.2.Sound (i :: l.erase i) ∧ (out.1 = some none ∨ out.1 = some (some i))
  | .searchblock .. => ∃ i ∈ l, out.2.Sound (i :: l.erase i) ∧ out.1 = some (some i)

theorem ringStep_spec (h : c.Sound l) (hfuel : l.length ≤ fuel)
    (call : RingCall) : RingKept l call (ringStep fuel c call) := by
  cases call with
  | searchblock blkno dsk =>
    obtain ⟨i, hit, hsearch, hs⟩ := searchblock_spec h hfuel blkno dsk
    refine ⟨i, hs.mem, ?_, ?_⟩
    · simp only [ringStep, hsearch]
      exact (h.front hs.mem _).1
    · simp only [ringStep, hsearch]
  | getblk blkno dsk overwrite =>
    obtain ⟨i, r, c', hget, hgot⟩ := getblk_spec h hfuel blkno dsk overwrite
    refine ⟨i, hgot.mem, ?_, ?_⟩
    · simp only [ringStep, hget]
      exact hgot.sound
    · simp only [ringStep, hget]
      exact hgot.result.imp (congrArg some) (congrArg some)
  | flags bp dirty data dir fat uncache =>
    have hheld : ∀ x u b, ((ringStep fuel c (.flags bp dirty data dir fat uncache)).2.cache.buf x).holds
        u b = (c.cache.buf x).holds u b := by
      intro x u b
      by_cases hx : x = bp
      · simp [ringStep, hx, Buffer.holds]
      · simp [ringStep, setBuf_ne _ _ hx]
    refine ⟨h.ring, h.first, h.two, fun x hx y hy u b hxb hyb => ?_⟩
    rw [hheld] at hxb hyb
    exact h.distinct x hx y hy u b hxb hyb

/-- **The buffer ring stays a ring.**  Before each call of a run the buffers form a ring of the same
buffers, no two valid ones stand for one block, and two `getFATblock` for different sectors would
return different buffers, the first one's contents intact; the call comes to an end and brings its
buffer to the front. -/
theorem ring_along_run {fuel : Nat} {c : Buffers S} {l : List Nat} (h : c.Sound l)
    (hfuel : l.length ≤ fuel) (calls : List RingCall) :
    Along (ringStep fuel) (fun c call out => ∃ l', l'.Perm l ∧ c.Sound l' ∧ RingKept l' call out ∧
      FatBlocksApart fuel c) c calls := by
  refine Along.of_invariant (I := fun c => ∃ l', l'.Perm l ∧ c.Sound l') ?_ ?_ calls c
    ⟨l, List.Perm.refl l, h⟩ (guarded_of_forall (fun _ _ => trivial : ∀ _ _, True) _ _)
  · rintro d call ⟨l', hperm, hd⟩ -
    have hkept := ringStep_spec hd (hperm.length_eq ▸ hfuel) call
    cases call with
    | searchblock blkno dsk =>
      obtain ⟨i, hi, hs, -⟩ := hkept
      exact ⟨_, (List.perm_cons_erase hi).symm.trans hperm, hs⟩
    | getblk blkno dsk overwrite =>
      obtain ⟨i, hi, hs, -⟩ := hkept
      exact ⟨_, (List.perm_cons_erase hi).symm.trans hperm, hs⟩
    | flags => exact ⟨l', hperm, hkept⟩
  · rintro d call ⟨l', hperm, hd⟩ -
    have hlen : l'.length ≤ fuel := hperm.length_eq ▸ hfuel
    exact ⟨l', hperm, hd, ringStep_spec hd hlen call, getFATblock_apart hd hlen⟩

/-- Three buffers that hold nothing yet, the first at offset 0. -/
def threeBuffers : Buffers Nat where
  cache := freshCache
  links := ⟨fun i => if i = 1064 then 0 else i + 532, fun i => if i = 0 then 1064 else i - 532⟩
  firstbuf := 0

theorem threeBuffers_sound : threeBuffers.Sound [0, 532, 1064] := by
  refine ⟨⟨by decide, ?_⟩, rfl, by decide, ?_⟩
  · simp [Links.Joined, threeBuffers]
  · intro i _ j _ u b hi
    exact absurd (holds_iff.mp hi).2.1 (by simp [threeBuffers, freshCache])

/-- Two sectors of the FAT are read, and one of them again. -/
theorem ring_along_run_three : Along (ringStep 3) (fun c call out => ∃ l', l'.Perm [0, 532, 1064] ∧
    c.Sound l' ∧ RingKept l' call out ∧ FatBlocksApart 3 c) threeBuffers
    [.getblk 1 2 false, .getblk 2 2 false, .searchblock 1 2] :=
  ring_along_run threeBuffers_sound (by decide) _

/-! ## 6. The list -/

variable {m : Cache S}

/-- The same call of the cache whose ring is a list. -/
def listStep (m : Cache S) : RingCall → Option Nat × Cache S
  | .searchblock blkno dsk =>
    let s := m.searchblock blkno dsk
    (some s.1, s.2)
  | .getblk blkno dsk overwrite => m.getblk blkno dsk overwrite
  | .flags bp dirty data dir fat uncache =>
    (none, m.setBuf bp { m.buf bp with
      dirty := dirty, data := data, dir := dir, fat := fat, uncache := uncache })

/-- The linked buffers are the list `l`. -/
def Buffers.IsList (c : Buffers S) (l : List Nat) (m : Cache S) : Prop :=
  c.Sound l ∧ m = { c.cache with ring := l }

theorem ringStep_refines (h : c.IsList l m) (hfuel : l.length ≤ fuel) (hzero : 0 ∉ l)
    (call : RingCall) :
    (ringStep fuel c call).1 = some (listStep m call).1 ∧
      ∃ l', l'.Perm l ∧ (ringStep fuel c call).2.IsList l' (listStep m call).2 := by
  obtain ⟨hsound, rfl⟩ := h
  cases call with
  | searchblock blkno dsk =>
    obtain ⟨i, c', hsearch, hlist⟩ := searchblock_refines hsound hfuel hzero blkno dsk
    obtain ⟨k, hit, hfound, hs⟩ := searchblock_spec hsound hfuel blkno dsk
    cases hsearch.symm.trans hfound
    simp only [ringStep, listStep, hsearch, hlist]
    exact ⟨trivial, _, (perm_cons_erase hs.mem).symm, (hsound.front hs.mem _).1, rfl⟩
  | getblk blkno dsk overwrite =>
    obtain ⟨i, hi, r, c', hget, hsound', hlist⟩ :=
      getblk_refines hsound hfuel hzero blkno dsk overwrite
    simp only [ringStep, listStep, hget, hlist]
    exact ⟨trivial, _, (perm_cons_erase hi).symm, hsound', rfl⟩
  | flags bp dirty data dir fat uncache =>
    exact ⟨rfl, l, List.Perm.refl l, ringStep_spec hsound hfuel (.flags ..), rfl⟩

/-- **The linked buffers refine the list.**  With no buffer at offset 0, every run of the linked ring
gives the answers of the cache whose ring is a list, and ends in the buffers and on the disk of
that cache. -/
theorem ring_refines_list (h : c.Sound l) (hfuel : l.length ≤ fuel) (hzero : 0 ∉ l)
    (calls : List RingCall) :
    answers (ringStep fuel) c calls =
        (answers listStep { c.cache with ring := l } calls).map some ∧
      ∃ l', l'.Perm l ∧ (run (ringStep fuel) c calls).IsList l'
        (run listStep { c.cache with ring := l } calls) := by
  refine answers_of_simulation (R := fun (c : Buffers S) m => ∃ l', l'.Perm l ∧ c.IsList l' m) some ?_
    calls ⟨l, List.Perm.refl l, h, rfl⟩
  rintro c m call ⟨l₁, hperm, hlist⟩
  obtain ⟨hans, l₂, hperm', hlist'⟩ := ringStep_refines hlist (hperm.length_eq ▸ hfuel)
    (fun hin => hzero (hperm.mem_iff.mp hin)) call
  exact ⟨hans, l₂, hperm'.trans hperm, hlist'⟩

/-- The three buffers behind something else. -/
def movedBuffers : Buffers Nat where
  cache := freshCache
  links := ⟨fun i => if i = 1596 then 532 else i + 532, fun i => if i = 532 then 1596 else i - 532⟩
  firstbuf := 532

theorem movedBuffers_refine : answers (ringStep 3) movedBuffers
      [.getblk 1 2 false, .getblk 2 2 false, .searchblock 1 2] =
    (answers listStep { freshCache with ring := [532, 1064, 1596] }
      [.getblk 1 2 false, .getblk 2 2 false, .searchblock 1 2]).map some := by
  have hsound : movedBuffers.Sound [532, 1064, 1596] := by
    refine ⟨⟨by decide, ?_⟩, rfl, by decide, ?_⟩
    · simp [Links.Joined, movedBuffers]
    · intro i _ j _ u b hi
      exact absurd (holds_iff.mp hi).2.1 (by simp [movedBuffers, freshCache])
  exact (ring_refines_list hsound (by decide) (by decide) _).1

end SdcBoot.Block
