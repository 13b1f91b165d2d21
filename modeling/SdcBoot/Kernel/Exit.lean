/-
# Process exit: `return_user`

A process that does not stay resident closes its handles, then the files it opened through FCBs
(`FcbCloseAll`), then frees its memory (`FreeProcessMem`).  Memory is released completely
(`Memory/Umb.lean`); files depend on the tables:

* `DosClose` leaves a slot alone whose SFT entry is not in use;
* `FcbCloseAll` goes through the SFT until `idx_to_sft` fails, that is, up to the first entry that
  is NOT IN USE.  FCB files behind a hole stay open for ever (`fcb_behind_hole_leaks`);
* it closes each file once, so an entry with more references than one stays in use.

`exit_releases_iff` says that everything is released just where none of this happens (`ExitOk`).
Closing a file that was written to passes its start, size, date and time on to the other entries
for it (`merge_file_changes`), so these are compared up to the four fields; where there is no such
file, they are exactly as before.
-/
import SdcBoot.Kernel.Refs
import SdcBoot.Memory.Umb

namespace SdcBoot.Kernel

open Lib Memory List

/-! ## 1. The functions -/

/-- The loop over the handles. -/
def closeHandles (env : Nat → CloseEnv) : List Nat → Kern → Kern
  | [], k => k
  | i :: is, k => closeHandles env is (dosCloseHandle k i (env i)).2

/-- The entry was opened by the current process through an FCB. -/
def Kern.isFcb (k : Kern) (s : Sft) : Bool := hasBits s.sftMode O_FCB && s.sftPsp == k.cuPsp

/-- `FcbCloseAll` from `idx` on; the walk ends at the latest behind the last entry. -/
def fcbCloseAll (env : Nat → CloseEnv) : List Nat → Kern → Kern
  | [], k => k
  | idx :: rest, k =>
    match k.idxToSft idx with
    | none => k
    | some s =>
      fcbCloseAll env rest (if k.isFcb s then (dosCloseSft k idx false (env idx)).2 else k)

/-- What `return_user` does for a process that does not stay resident, once the redirector has
been told. -/
def endProcess (handles fcbs : Nat → CloseEnv) (k : Kern) : Option Kern :=
  let p := k.psp k.cuPsp
  let k := closeHandles handles (List.range p.psMaxfiles) k
  let k := fcbCloseAll fcbs (List.range (sftTotal k.sfthead)) k
  (freeProcessMem k.mem k.cuPsp).map fun r => { k with mem := r.2 }

/-- The state when the redirector has been told that the process ends (`REM_PROCESS_END`,
`REM_CLOSEALL`). -/
def Kern.notified (processEnd closeAll : List (List Sft) → List (List Sft)) (k : Kern) : Kern :=
  { k with sfthead := closeAll (processEnd k.sfthead) }

/-- `return_user`, up to the switch to the parent.  `processEnd` and `closeAll` are what the
redirector does to the SFT when it is notified. -/
def returnUser (tsr : Bool) (processEnd closeAll : List (List Sft) → List (List Sft))
    (handles fcbs : Nat → CloseEnv) (k : Kern) : Option Kern :=
  let parent := (k.psp k.cuPsp).psParent
  if !tsr && parent != k.cuPsp then
    (endProcess handles fcbs (k.notified processEnd closeAll)).map fun k => { k with cuPsp := parent }
  else some { k with sfthead := processEnd k.sfthead, cuPsp := parent }

/-- Every close succeeds: the redirector's, the driver's and the directory write. -/
def CloseEnv.Ok (env : CloseEnv) : Prop :=
  env.remoteClose = SUCCESS ∧ env.deviceClose = true ∧ env.dirWritten = true

/-! ## 2. References taken away -/

/-- What an entry says about who refers to it and how. -/
def Sft.ref (s : Sft) : Nat × Nat × Nat := (s.sftCount, s.sftMode, s.sftPsp)

/-- Entry `i` has lost `n i` references and is otherwise as it was in `proj`, if it lost none. -/
structure Less (proj : Sft → Sft) (n : Nat → Nat) (k k' : Kern) : Prop where
  refs : ∀ i, (k'.sft i).map Sft.ref =
    (k.sft i).map fun s => (s.sftCount - n i, s.sftMode, s.sftPsp)
  same : ∀ i, n i = 0 → (k'.sft i).map proj = (k.sft i).map proj

theorem Less.zero (proj : Sft → Sft) (k : Kern) : Less proj (fun _ => 0) k k :=
  ⟨fun _ => rfl, fun _ _ => rfl⟩

variable {proj : Sft → Sft} {n : Nat → Nat} {k k1 k2 k' : Kern} {i idx : Nat} {s : Sft}
  {env : CloseEnv} {Q : Kern → Prop}

variable {m : Nat → Nat} {k3 : Kern} {h j len : Nat} {is : List Nat}

theorem Less.trans (h : Less proj n k1 k2)
    (h' : Less proj m k2 k3) : Less proj (fun i => n i + m i) k1 k3 := by
  refine ⟨fun i => ?_, fun i hi => ?_⟩
  · have hmap : (k2.sft i).map (fun s => (s.sftCount - m i, s.sftMode, s.sftPsp)) =
        ((k2.sft i).map Sft.ref).map fun r => (r.1 - m i, r.2.1, r.2.2) := by
      rw [Option.map_map]
      rfl
    rw [h'.refs i, hmap, h.refs i, Option.map_map]
    congr 1
    funext s
    simp [Nat.sub_sub]
  · have hn : n i = 0 ∧ m i = 0 := by omega
    exact (h'.same i hn.2).trans (h.same i hn.1)

theorem Less.congr (h : Less proj n k k')
    (hnm : ∀ i s, k.sft i = some s → m i = n i) : Less proj m k k' := by
  refine ⟨fun i => ?_, fun i hi => ?_⟩
  · rw [h.refs i]
    cases hs : k.sft i with
    | none => rfl
    | some s => simp [hnm i s hs]
  · cases hs : k.sft i with
    | none =>
      have := congrArg Option.isSome (h.refs i)
      rw [hs] at this
      simpa using this
    | some s => rw [← hs]; exact h.same i ((hnm i s hs).symm.trans hi)

/-- What a closing function may count on, and keeps: under `Q`, dropping a reference to one of
the entries `mine` leaves all other entries alone, as far as `proj` shows them. -/
structure ClosesWith (proj : Sft → Sft) (mine : Nat → Prop) (Q : Kern → Prop) : Prop where
  drop : ∀ k i s k' (env : CloseEnv), Q k → mine i → k.sft i = some s → s.sftCount ≠ 0 →
    (dosCloseSft k i false env).2 = k' → Dropped k i s k' →
    Q k' ∧ ∀ j, j ≠ i → (k'.sft j).map proj = (k.sft j).map proj
  handle : ∀ k hndl v, Q k → Q (k.setHandle hndl v)

/-- A close that can succeed drops the entry. -/
theorem dosCloseSft_ok (hs : k.sft i = some s) (hc : s.sftCount ≠ 0)
    (henv : env.Ok) : Dropped k i s (dosCloseSft k i false env).2 := by
  obtain ⟨hremote, hdev, hdir⟩ := henv
  have hrc : (dosCloseSft k i false env).1 = SUCCESS := by
    unfold dosCloseSft
    simp only [idxToSft_eq hs hc]
    split
    · exact hremote
    · split
      · simp [hdev]
      · simp [dosClose, hs, hdir]
  rcases dosCloseSft_cases k i false env with ⟨rc, sp, hr, -, hne⟩ | ⟨j, t, hj, ht, -, -, -, hdrop⟩
  · rw [hr] at hrc
    rcases hne with hne | hne
    · exact absurd hrc hne
    · cases hne
  · have hij : i = j := by exact_mod_cast hj
    subst hij
    rw [Option.some.inj (hs.symm.trans ht)]
    exact hdrop

/-- One reference. -/
def one (i : Nat) : Nat → Nat := fun j => if j = i then 1 else 0

/-- Dropping a reference to one of the entries `mine`. -/
theorem less_of_dropped (hs : k.sft i = some s) (hc : s.sftCount ≠ 0) (hdrop : Dropped k i s k')
    (hsame : ∀ j, j ≠ i → (k'.sft j).map proj = (k.sft j).map proj) : Less proj (one i) k k' := by
  refine ⟨fun j => ?_, fun j hj => hsame j fun he => by simp [one, he] at hj⟩
  by_cases hj : j = i
  · subst hj
    have hown := congrArg (Option.map Sft.ref) hdrop.own
    rw [Option.map_map] at hown
    refine hown.trans ?_
    rw [hs, Option.map_some, Option.map_some]
    change some ((s.released _).sftCount, (s.released _).sftMode, (s.released _).sftPsp) = _
    rw [released_count, down16, if_neg hc]
    cases k.lastLocal s <;> simp [one, Sft.released, Sft.dropped]
  · have hoth := congrArg (Option.map Sft.ref) (hdrop.others j hj)
    rw [Option.map_map, Option.map_map] at hoth
    refine (show (k'.sft j).map Sft.ref = (k.sft j).map Sft.ref from hoth).trans ?_
    simp only [one, if_neg hj]
    rfl

theorem Less.isSome (h : Less proj n k k') (i : Nat) : (k'.sft i).isSome = (k.sft i).isSome := by
  have := congrArg Option.isSome (h.refs i)
  simpa using this

/-- A kernel state that differs in the SFT, SHARE's tables and handles of the current process. -/
structure SameProcess (k k' : Kern) : Prop where
  cuPsp : k'.cuPsp = k.cuPsp
  mem : k'.mem = k.mem
  maxfiles : (k'.psp k'.cuPsp).psMaxfiles = (k.psp k.cuPsp).psMaxfiles

theorem SameProcess.trans (h : SameProcess k1 k2) (h' : SameProcess k2 k3) : SameProcess k1 k3 :=
  ⟨h'.cuPsp.trans h.cuPsp, h'.mem.trans h.mem, h'.maxfiles.trans h.maxfiles⟩

/-- **Closing one handle at exit**: refused, and nothing changes, if its entry is not in use;
else the slot is given up and the entry dropped. -/
theorem exitClose_cases {mine : Nat → Prop} (hcw : ClosesWith proj mine Q) {hndl : Nat}
    (henv : env.Ok) (hQ : Q k) (hok : TablesOk k)
    (hmine : k.slot hndl ≠ 0xff → mine (k.slot hndl)) :
    (k.getSft hndl = none ∧ (dosCloseHandle k hndl env).2 = k) ∨
      ∃ s, k.getSft hndl = some s ∧ Q (dosCloseHandle k hndl env).2 ∧
        TablesOk (dosCloseHandle k hndl env).2 ∧ SameProcess k (dosCloseHandle k hndl env).2 ∧
        Less proj (one (k.slot hndl)) k (dosCloseHandle k hndl env).2 ∧
        ∀ b, (dosCloseHandle k hndl env).2.slot b = if hndl = b then 0xff else k.slot b := by
  cases hget : k.getSft hndl with
  | none =>
    left
    refine ⟨rfl, ?_⟩
    simp only [dosCloseHandle, show k.idxToSft (k.getSftIdx hndl) = none from hget]
  | some s =>
    right
    obtain ⟨hlt, hidx, hff, hs, hc⟩ := getSft_some hget
    have hclose : dosCloseHandle k hndl env =
        dosCloseSft (k.setHandle hndl 0xff) (k.slot hndl) false env := by
      simp only [dosCloseHandle, show k.idxToSft (k.getSftIdx hndl) = some s from hget]
      rw [hidx]
    have hs1 : (k.setHandle hndl 0xff).sft (k.slot hndl) = some s := hs
    have hdrop := dosCloseSft_ok hs1 hc henv
    obtain ⟨hQ', hsame⟩ := hcw.drop _ _ _ _ env (hcw.handle k hndl 0xff hQ) (hmine hff) hs1 hc rfl
      hdrop
    rw [hclose]
    generalize (dosCloseSft (k.setHandle hndl 0xff) (k.slot hndl) false env).2 = k' at *
    have hpsps : k'.psps = (k.setHandle hndl 0xff).psps := by rw [hdrop.rest]
    have hcu : k'.cuPsp = k.cuPsp := by
      rw [hdrop.rest]
      rfl
    have hpsp : k'.psp k'.cuPsp = (k.setHandle hndl 0xff).psp (k.setHandle hndl 0xff).cuPsp := by
      unfold Kern.psp
      rw [hpsps, hcu]
      rfl
    have hdropped := less_of_dropped hs1 hc hdrop hsame
    have hless : Less proj (one (k.slot hndl)) k k' := ⟨hdropped.refs, hdropped.same⟩
    have htables := tablesOk_setHandle hok hndl 0xff
    refine ⟨s, rfl, hQ', ⟨?_, ?_, ?_⟩, ⟨hcu, ?_, ?_⟩, hless, fun b => ?_⟩
    · rw [hpsps]
      exact htables.nodup
    · rw [hpsps]
      exact htables.fits
    · rw [sftTotal_of_same hless.isSome]
      exact hok.total
    · rw [hdrop.rest]
      rfl
    · rw [hpsp, psp_setHandle]
    · rw [← slot_setHandle hok hlt]
      unfold Kern.slot
      rw [hpsp]

/-- How many of the handles `is` hold the index. -/
def Kern.held (k : Kern) (is : List Nat) (i : Nat) : Nat :=
  if i = 0xff then 0 else (is.map k.slot).count i

theorem held_cons (k : Kern) (h : Nat) (is : List Nat) (i : Nat) :
    k.held (h :: is) i = k.held is i + if k.slot h = i ∧ i ≠ 0xff then 1 else 0 := by
  unfold Kern.held
  by_cases hi : i = 0xff
  · simp [hi]
  · by_cases hs : k.slot h = i
    · simp [hi, hs]
    · simp [hs]

/-- The slots `is` can all be closed: each leads to an entry, with as many references. -/
def Closable (k : Kern) (is : List Nat) : Prop :=
  ∀ i, 0 < k.held is i → ∃ s, k.sft i = some s ∧ k.held is i ≤ s.sftCount

/-- What the loop over the handles leaves. -/
structure HandlesClosed (proj : Sft → Sft) (Q : Kern → Prop) (is : List Nat) (k k' : Kern) :
    Prop where
  inv : Q k'
  tables : TablesOk k'
  process : SameProcess k k'
  less : Less proj (k.held is) k k'
  frame : ∀ h, h ∉ is → k'.slot h = k.slot h
  closed : (∀ h ∈ is, k'.slot h = 0xff) ↔ Closable k is

/-- The refused close of a slot that is in use: it stays open, whatever follows. -/
theorem handlesClosed_refused (hnone : k.getSft h = none) (hh : h < (k.psp k.cuPsp).psMaxfiles)
    (hnot : h ∉ is) (ih : HandlesClosed proj Q is k k') : HandlesClosed proj Q (h :: is) k k' := by
  -- the entry the slot leads to is not in use
  have hdead : k.slot h ≠ 0xff → ∀ s, k.sft (k.slot h) = some s → s.sftCount = 0 := by
    intro hff s hs
    by_contra hc
    have hidx : k.getSftIdx h = (k.slot h : Int) := by
      unfold Kern.getSftIdx
      rw [if_neg (by omega), ← slot_of_lt hh, if_neg hff]
    have : k.getSft h = some s := by
      unfold Kern.getSft
      rw [hidx]
      exact idxToSft_eq hs hc
    rw [hnone] at this
    cases this
  have hheld : ∀ i, k.held (h :: is) i = 0 → k.held is i = 0 := by
    intro i hi
    rw [held_cons] at hi
    omega
  have hslot := ih.frame h hnot
  refine ⟨ih.inv, ih.tables, ih.process, ⟨fun i => ?_, fun i hi => ih.less.same i (hheld i hi)⟩,
    fun b hb => ih.frame b fun hmem => hb (.tail _ hmem), ?_⟩
  · rw [ih.less.refs i]
    cases hs : k.sft i with
    | none => rfl
    | some s =>
      rw [held_cons]
      split
      · rename_i heq
        obtain ⟨rfl, hff⟩ := heq
        simp [hdead hff s hs]
      · rfl
  · by_cases hff : k.slot h = 0xff
    · have hsame : ∀ i, k.held (h :: is) i = k.held is i := by
        intro i
        rw [held_cons, if_neg]
        · rfl
        · rintro ⟨rfl, hne⟩
          exact hne hff
      unfold Closable
      simp only [hsame]
      rw [← Closable, ← ih.closed]
      constructor
      · exact fun hall b hb => hall b (.tail _ hb)
      · intro hall b hb
        rcases mem_cons.mp hb with rfl | hb
        · exact hslot.trans hff
        · exact hall b hb
    · constructor
      · intro hall
        exact absurd (hslot.symm.trans (hall h mem_cons_self)) hff
      · intro hcl
        have hpos : 0 < k.held (h :: is) (k.slot h) := by
          rw [held_cons, if_pos ⟨rfl, hff⟩]
          omega
        obtain ⟨s, hs, hle⟩ := hcl _ hpos
        rw [hdead hff s hs] at hle
        omega

/-- The count of an entry that may have lost references. -/
theorem Less.count (h : Less proj n k k') (hs : k.sft i = some s) :
    ∃ s', k'.sft i = some s' ∧ s'.sftCount = s.sftCount - n i ∧ s'.sftMode = s.sftMode ∧
      s'.sftPsp = s.sftPsp := by
  have hr := h.refs i
  rw [hs] at hr
  obtain ⟨s', hs', he⟩ := Option.map_eq_some_iff.mp hr
  simp only [Sft.ref, Prod.mk.injEq] at he
  exact ⟨s', hs', he⟩

/-- Whether the rest can be closed, after one handle has been. -/
theorem closable_cons (hs : k.sft (k.slot h) = some s) (hc : s.sftCount ≠ 0) (hff : k.slot h ≠ 0xff)
    (hless : Less proj (one (k.slot h)) k k1)
    (hheld : ∀ i, k1.held is i = k.held is i) : Closable k1 is ↔ Closable k (h :: is) := by
  constructor
  · intro hcl i hi
    by_cases hpos : 0 < k1.held is i
    · obtain ⟨s1, hs1, hle⟩ := hcl i hpos
      have hex : (k.sft i).isSome := by
        rw [← hless.isSome i, hs1]
        rfl
      obtain ⟨t, ht⟩ := Option.isSome_iff_exists.mp hex
      obtain ⟨t', ht', hcount, -⟩ := hless.count ht
      cases hs1.symm.trans ht'
      refine ⟨t, ht, ?_⟩
      rw [held_cons, ← hheld]
      by_cases hi' : k.slot h = i
      · subst hi'
        cases ht.symm.trans hs
        simp only [one, if_true] at hcount
        split <;> omega
      · rw [if_neg fun h => hi' h.1]
        omega
    · rw [held_cons, ← hheld] at hi
      split at hi
      · rename_i heq
        obtain ⟨rfl, -⟩ := heq
        refine ⟨s, hs, ?_⟩
        rw [held_cons, if_pos ⟨rfl, hff⟩, ← hheld]
        omega
      · omega
  · intro hcl i hi
    have hi' : 0 < k.held (h :: is) i := by
      rw [held_cons, ← hheld]
      omega
    obtain ⟨t, ht, hle⟩ := hcl i hi'
    obtain ⟨t', ht', hcount, -⟩ := hless.count ht
    refine ⟨t', ht', ?_⟩
    rw [held_cons, ← hheld] at hle
    by_cases hj : k.slot h = i
    · rw [if_pos ⟨hj, hj ▸ hff⟩] at hle
      simp only [one, hj, if_true] at hcount
      omega
    · simp only [one, if_neg (Ne.symm hj)] at hcount
      omega

/-- **The loop over the handles.** -/
theorem closeHandles_spec {mine : Nat → Prop} (hcw : ClosesWith proj mine Q) {env : Nat → CloseEnv}
    (henv : ∀ i, (env i).Ok) :
    ∀ (is : List Nat) (k : Kern), Q k → TablesOk k → is.Nodup →
      (∀ h ∈ is, h < (k.psp k.cuPsp).psMaxfiles) →
      (∀ h ∈ is, k.slot h ≠ 0xff → mine (k.slot h)) →
      HandlesClosed proj Q is k (closeHandles env is k)
  | [], k, hQ, hok, _, _, _ => by
    refine ⟨hQ, hok, ⟨rfl, rfl, rfl⟩, (Less.zero proj k).congr fun i _ _ => ?_, fun _ _ => rfl, ?_⟩
    · simp [Kern.held]
    · simp [Closable, Kern.held]
  | h :: is, k, hQ, hok, hnd, hlt, hmine => by
    obtain ⟨hnot, hnd'⟩ := nodup_cons.mp hnd
    have hh : h < (k.psp k.cuPsp).psMaxfiles := hlt h mem_cons_self
    have hlt' : ∀ b ∈ is, b < (k.psp k.cuPsp).psMaxfiles :=
      fun b hb => hlt b (.tail _ hb)
    have hmine' : ∀ b ∈ is, k.slot b ≠ 0xff → mine (k.slot b) :=
      fun b hb => hmine b (.tail _ hb)
    rw [closeHandles]
    rcases exitClose_cases hcw (henv h) hQ hok (hmine h mem_cons_self) with
      ⟨hnone, hk⟩ | ⟨s, hget, hQ1, hok1, hproc, hless, hslot⟩
    · rw [hk]
      exact handlesClosed_refused hnone hh hnot
        (closeHandles_spec hcw henv is k hQ hok hnd' hlt' hmine')
    · obtain ⟨-, -, hff, hs, hc⟩ := getSft_some hget
      generalize (dosCloseHandle k h (env h)).2 = k1 at *
      have hslot' : ∀ b ∈ is, k1.slot b = k.slot b := by
        intro b hb
        rw [hslot, if_neg]
        rintro rfl
        exact hnot hb
      have hheld : ∀ i, k1.held is i = k.held is i := by
        intro i
        unfold Kern.held
        rw [map_congr_left hslot']
      have ih := closeHandles_spec hcw henv is k1 hQ1 hok1 hnd'
        (fun b hb => by rw [hproc.maxfiles]; exact hlt' b hb)
        (fun b hb hne => by rw [hslot' b hb] at hne ⊢; exact hmine' b hb hne)
      refine ⟨ih.inv, ih.tables, hproc.trans ih.process, ?_, fun b hb => ?_, ?_⟩
      · refine (hless.trans ih.less).congr fun i _ _ => ?_
        rw [held_cons, hheld, one]
        by_cases hi : i = k.slot h
        · rw [if_pos ⟨hi.symm, hi ▸ hff⟩, if_pos hi]
          omega
        · rw [if_neg fun he => hi he.1.symm, if_neg hi]
          omega
      · simp only [mem_cons, not_or] at hb
        rw [ih.frame b hb.2, hslot, if_neg (Ne.symm hb.1)]
      · rw [← closable_cons hs hc hff hless hheld, ← ih.closed]
        constructor
        · exact fun hall b hb => hall b (.tail _ hb)
        · intro hall b hb
          rcases mem_cons.mp hb with rfl | hb
          · rw [ih.frame b hnot, hslot, if_pos rfl]
          · exact hall b hb

/-! ## 3. `FcbCloseAll` -/

/-- The walk from `idx` on comes to entry `i`: all entries from `idx` to `i` are in use. -/
def Reached (k : Kern) (idx i : Nat) : Prop :=
  idx ≤ i ∧ ∀ j, idx ≤ j → j ≤ i → ∃ t, k.sft j = some t ∧ t.sftCount ≠ 0

/-- The walk comes to entry `i` and closes it. -/
def Visited (k : Kern) (idx len i : Nat) : Prop :=
  i < idx + len ∧ Reached k idx i ∧ ∃ s, k.sft i = some s ∧ k.isFcb s = true

/-- What the walk leaves: the FCB entries it came to have lost one reference. -/
structure FcbsClosed (proj : Sft → Sft) (idx len : Nat) (k k' : Kern) : Prop where
  psps : k'.psps = k.psps
  process : SameProcess k k'
  less : ∃ n : Nat → Nat, Less proj n k k' ∧ (∀ i, n i = 0 ∨ n i = 1) ∧
    ∀ i, n i = 1 ↔ Visited k idx len i

theorem FcbsClosed.unchanged (h : ∀ i, ¬ Visited k idx len i) : FcbsClosed proj idx len k k :=
  ⟨rfl, ⟨rfl, rfl, rfl⟩, fun _ => 0, Less.zero proj k, fun _ => .inl rfl,
    fun i => ⟨nofun, fun hv => absurd hv (h i)⟩⟩

/-- One step of the walk, at an entry in use. -/
theorem visited_cons (hs : k.sft idx = some s) (hc : s.sftCount ≠ 0) :
    Visited k idx (len + 1) i ↔ (i = idx ∧ k.isFcb s = true) ∨ Visited k (idx + 1) len i := by
  constructor
  · rintro ⟨hlt, ⟨hle, hr⟩, t, ht, hf⟩
    by_cases hi : i = idx
    · subst hi
      cases hs.symm.trans ht
      exact .inl ⟨rfl, hf⟩
    · exact .inr ⟨by omega, ⟨by omega, fun j h1 h2 => hr j (by omega) h2⟩, t, ht, hf⟩
  · rintro (⟨rfl, hf⟩ | ⟨hlt, ⟨hle, hr⟩, hfcb⟩)
    · refine ⟨by omega, ⟨le_rfl, fun j h1 h2 => ?_⟩, s, hs, hf⟩
      have : j = i := by omega
      exact ⟨s, this ▸ hs, hc⟩
    · refine ⟨by omega, ⟨by omega, fun j h1 h2 => ?_⟩, hfcb⟩
      by_cases hj : j = idx
      · exact ⟨s, hj ▸ hs, hc⟩
      · exact hr j (by omega) h2

/-- Entries behind `idx` are visited alike if only entry `idx` has lost references. -/
theorem visited_of_less (hcu : k1.cuPsp = k.cuPsp) (hless : Less proj n k k1)
    (hn : ∀ j, j ≠ idx → n j = 0) (len i : Nat) :
    Visited k1 (idx + 1) len i ↔ Visited k (idx + 1) len i := by
  have hexists : ∀ j, (∃ t, k1.sft j = some t) ↔ ∃ t, k.sft j = some t := by
    intro j
    rw [← Option.isSome_iff_exists, ← Option.isSome_iff_exists, hless.isSome j]
  have hentry : ∀ j, j ≠ idx → ∀ p : Nat → Nat → Nat → Prop,
      (∃ t, k1.sft j = some t ∧ p t.sftCount t.sftMode t.sftPsp) ↔
        ∃ t, k.sft j = some t ∧ p t.sftCount t.sftMode t.sftPsp := by
    intro j hj p
    constructor
    · rintro ⟨t1, ht1, hp⟩
      obtain ⟨t, ht⟩ := (hexists j).mp ⟨t1, ht1⟩
      obtain ⟨t', ht', h1, h2, h3⟩ := hless.count ht
      cases ht1.symm.trans ht'
      rw [hn j hj, Nat.sub_zero] at h1
      exact ⟨t, ht, h1 ▸ h2 ▸ h3 ▸ hp⟩
    · rintro ⟨t, ht, hp⟩
      obtain ⟨t', ht', h1, h2, h3⟩ := hless.count ht
      rw [hn j hj, Nat.sub_zero] at h1
      exact ⟨t', ht', by rw [h1, h2, h3]; exact hp⟩
  constructor
  · rintro ⟨hlt, ⟨hle, hr⟩, hf⟩
    refine ⟨hlt, ⟨hle, fun j h1 h2 => ?_⟩, ?_⟩
    · exact (hentry j (by omega) fun c _ _ => c ≠ 0).mp (hr j h1 h2)
    · have := (hentry i (by omega) fun _ m p => (hasBits m O_FCB && p == k.cuPsp) = true).mp
        (by simpa [Kern.isFcb, hcu] using hf)
      simpa [Kern.isFcb] using this
  · rintro ⟨hlt, ⟨hle, hr⟩, hf⟩
    refine ⟨hlt, ⟨hle, fun j h1 h2 => ?_⟩, ?_⟩
    · exact (hentry j (by omega) fun c _ _ => c ≠ 0).mpr (hr j h1 h2)
    · have := (hentry i (by omega) fun _ m p => (hasBits m O_FCB && p == k.cuPsp) = true).mpr
        (by simpa [Kern.isFcb] using hf)
      simpa [Kern.isFcb, hcu] using this

/-- **The walk of `FcbCloseAll`.** -/
theorem fcbCloseAll_spec {mine : Nat → Prop} (hcw : ClosesWith proj mine Q) {env : Nat → CloseEnv}
    (henv : ∀ i, (env i).Ok) :
    ∀ (len idx : Nat) (k : Kern), Q k → (∀ i s, k.sft i = some s → k.isFcb s = true → mine i) →
      FcbsClosed proj idx len k (fcbCloseAll env (List.range' idx len) k)
  | 0, idx, k, _, _ => by
    refine FcbsClosed.unchanged ?_
    rintro i ⟨hlt, ⟨hle, -⟩, -⟩
    omega
  | len + 1, idx, k, hQ, hmine => by
    rw [range'_succ, fcbCloseAll]
    cases hidx : k.idxToSft idx with
    | none =>
      refine FcbsClosed.unchanged ?_
      rintro i ⟨-, ⟨hle, hr⟩, -⟩
      obtain ⟨t, ht, hc⟩ := hr idx le_rfl hle
      rw [idxToSft_eq ht hc] at hidx
      cases hidx
    | some s =>
      obtain ⟨j, hj, hs, hc⟩ := idxToSft_some hidx
      have hij : idx = j := by exact_mod_cast hj
      subst hij
      dsimp only
      by_cases hfcb : k.isFcb s = true
      · rw [if_pos hfcb]
        have hdrop := dosCloseSft_ok hs hc (henv idx)
        obtain ⟨hQ1, hsame⟩ := hcw.drop k idx s _ (env idx) hQ (hmine idx s hs hfcb) hs hc rfl hdrop
        generalize (dosCloseSft k idx false (env idx)).2 = k1 at *
        have hless : Less proj (one idx) k k1 := less_of_dropped hs hc hdrop hsame
        have hcu : k1.cuPsp = k.cuPsp := by rw [hdrop.rest]
        have hmine1 : ∀ i t, k1.sft i = some t → k1.isFcb t = true → mine i := by
          intro i t ht hf
          obtain ⟨t0, ht0⟩ : ∃ t0, k.sft i = some t0 := by
            rw [← Option.isSome_iff_exists, ← hless.isSome i, ht]
            rfl
          obtain ⟨t', ht', -, h2, h3⟩ := hless.count ht0
          cases ht.symm.trans ht'
          refine hmine i t0 ht0 ?_
          unfold Kern.isFcb at hf ⊢
          rw [← h2, ← h3, ← hcu]
          exact hf
        obtain ⟨hp, hproc, n, hn, h01, hv⟩ := fcbCloseAll_spec hcw henv len (idx + 1) k1 hQ1 hmine1
        have hproc1 : SameProcess k k1 := by
          rw [hdrop.rest]
          exact ⟨rfl, rfl, rfl⟩
        have hfresh : ∀ i, n i = 1 → i ≠ idx := by
          intro i hi
          have hle : idx + 1 ≤ i := ((hv i).mp hi).2.1.1
          omega
        refine ⟨hp.trans (by rw [hdrop.rest]), hproc1.trans hproc, _, hless.trans hn, fun i => ?_,
          fun i => ?_⟩
        · have hf := hfresh i
          unfold one
          rcases h01 i with h0 | h1
          · rw [h0]
            split <;> simp
          · rw [h1, if_neg (hf h1)]
            simp
        · rw [visited_cons hs hc, ← visited_of_less hcu hless
            (fun j hj => if_neg hj) len i, ← hv i]
          have hf := hfresh i
          unfold one
          by_cases hi : i = idx
          · have h0 : n i = 0 := (h01 i).resolve_right fun h1 => hf h1 hi
            simp [hi, hfcb, hi ▸ h0]
          · simp [hi]
      · rw [if_neg hfcb]
        obtain ⟨hp, hproc, n, hn, h01, hv⟩ := fcbCloseAll_spec hcw henv len (idx + 1) k hQ hmine
        refine ⟨hp, hproc, n, hn, h01, fun i => ?_⟩
        rw [visited_cons hs hc, hv i]
        simp [hfcb]

/-! ## 4. What a close does to other entries -/

/-- No entry `mine` that was written to is one of several for a file: there is nothing to merge. -/
def NoMerge (mine : Nat → Prop) (k : Kern) : Prop :=
  k.shareInstalled = false ∨ ∀ i s, mine i → k.sft i = some s →
    hasBits s.sftFlags SFT_FCLEAN = false → ∀ j t, j ≠ i → k.sft j = some t →
      sameFile (sftToFnode k.fat32 i s) j t = false

theorem sameFile_closingFnode (k : Kern) (i : Nat) (s : Sft) (env : CloseEnv) (j : Nat) (t : Sft) :
    sameFile (closingFnode k i s env) j t = sameFile (sftToFnode k.fat32 i s) j t := by
  unfold closingFnode
  dsimp only
  split <;> rfl

/-- Distribution is never to the entry itself. -/
theorem sameFile_self (fat32 : Nat → Bool) (i : Nat) (s t : Sft) :
    sameFile (sftToFnode fat32 i s) i t = false := by
  simp [sameFile, sftToFnode]

theorem distribute_eq_of_noMerge (h : k.shareInstalled = false ∨ ∀ j t, j ≠ i → k.sft j = some t →
      sameFile (sftToFnode k.fat32 i s) j t = false) (j : Nat) :
    nthSft (distribute k.shareInstalled (closingFnode k i s env) k.sfthead) j = k.sft j := by
  rw [nthSft_distribute]
  change (k.sft j).map _ = k.sft j
  cases ht : k.sft j with
  | none => rfl
  | some t =>
    rw [Option.map_some, sameFile_closingFnode]
    rcases h with hshare | hno
    · simp [hshare]
    · by_cases hj : j = i
      · simp [hj, sameFile_self]
      · simp [hno j t hj ht]

/-- With nothing to merge, a close stores to its own entry only. -/
theorem dosCloseSft_others (hs : k.sft i = some s) (hc : s.sftCount ≠ 0)
    (h : hasBits s.sftFlags SFT_FCLEAN = true ∨ k.shareInstalled = false ∨
      ∀ j t, j ≠ i → k.sft j = some t → sameFile (sftToFnode k.fat32 i s) j t = false) (hj : j ≠ i) : (dosCloseSft k i false env).2.sft j = k.sft j := by
  have hset : ∀ (k1 : Kern) f, (k1.setSft i f).sft j = k1.sft j := by
    intro k1 f
    rw [sft_setSft, if_neg (Ne.symm hj)]
  have hclose : (dosClose k i env).2.sft j = k.sft j := by
    simp only [dosClose, hs]
    by_cases hclean : hasBits s.sftFlags SFT_FCLEAN = true
    · simp only [hclean, if_true]
    · simp only [if_neg hclean]
      exact distribute_eq_of_noMerge (h.resolve_left hclean) j
  unfold dosCloseSft
  simp only [idxToSft_eq hs hc, Int.toNat_natCast]
  split
  · split
    · rw [hset]
    · rfl
  · split
    · split
      · rfl
      · exact hset k _
    · split
      · exact hclose
      · unfold dropLocal
        split
        · exact (hset _ _).trans hclose
        · exact (hset _ _).trans hclose

/-- What `sameFile` reads of an entry. -/
def Sft.fileId (s : Sft) : Nat × Nat × Nat × Nat × Nat :=
  (s.sftDcb, s.sftAttrib, s.sftDiridx, s.sftDirsector, s.sftFlags)

theorem sameFile_congr {fat32 : Nat → Bool} {s' t t' : Sft} (hs : s'.fileId = s.fileId)
    (ht : t'.fileId = t.fileId) (hc : t'.sftCount ≠ 0 → t.sftCount ≠ 0)
    (h : sameFile (sftToFnode fat32 i s) j t = false) :
    sameFile (sftToFnode fat32 i s') j t' = false := by
  simp only [Sft.fileId, Prod.mk.injEq] at hs ht
  obtain ⟨h1, h2, h3, h4, -⟩ := hs
  obtain ⟨g1, g2, g3, g4, -⟩ := ht
  rw [Bool.eq_false_iff] at h ⊢
  intro hsame
  apply h
  simp only [sameFile, sftToFnode, Bool.and_eq_true, bne_iff_ne] at hsame ⊢
  rw [h1, h2, h3, h4, g1, g2, g3, g4] at hsame
  obtain ⟨⟨⟨⟨⟨⟨a1, a2⟩, a3⟩, a4⟩, a5⟩, a6⟩, a7⟩ := hsame
  exact ⟨⟨⟨⟨⟨⟨a1, hc a2⟩, a3⟩, a4⟩, a5⟩, a6⟩, a7⟩

/-- With nothing to merge, a close leaves every other entry exactly as it is. -/
theorem closesWith_id (mine : Nat → Prop) : ClosesWith id mine (NoMerge mine) := by
  refine ⟨fun k i s k' env hQ hmine hs hc hk' hdrop => ?_, fun k hndl v hQ => hQ⟩
  have hothers : ∀ j, j ≠ i → k'.sft j = k.sft j := by
    intro j hj
    rw [← hk']
    refine dosCloseSft_others hs hc ?_ hj
    by_cases hclean : hasBits s.sftFlags SFT_FCLEAN = true
    · exact .inl hclean
    · exact .inr (hQ.imp id fun hno => hno i s hmine hs (by simpa using hclean))
  refine ⟨?_, fun j hj => by rw [hothers j hj]⟩
  -- an entry after the close is that before it, up to the count and the slot
  have hback : ∀ j t', k'.sft j = some t' → ∃ t, k.sft j = some t ∧ t'.fileId = t.fileId ∧
      (t'.sftCount ≠ 0 → t.sftCount ≠ 0) := by
    intro j t' ht'
    by_cases hj : j = i
    · subst hj
      refine ⟨s, hs, ?_, fun _ => hc⟩
      have hown := congrArg (Option.map Sft.fileId) hdrop.own
      rw [ht', Option.map_map, Option.map_some] at hown
      have : t'.fileId = (s.released (k.lastLocal s)).fileId := Option.some.inj hown
      rw [this]
      cases k.lastLocal s <;> rfl
    · rw [hothers j hj] at ht'
      exact ⟨t', ht', rfl, id⟩
  have hinst : k'.shareInstalled = k.shareInstalled := by rw [hdrop.rest]
  rcases hQ with hno | hno
  · exact .inl (hinst.trans hno)
  · refine .inr fun a sa hma hsa hdirty b tb hab htb => ?_
    obtain ⟨sa0, hsa0, hida, -⟩ := hback a sa hsa
    obtain ⟨tb0, htb0, hidb, hcb⟩ := hback b tb htb
    have hflags : sa.sftFlags = sa0.sftFlags := congrArg (fun x => x.2.2.2.2) hida
    exact sameFile_congr hida hidb hcb (hno a sa0 hma hsa0 (hflags ▸ hdirty) b tb0 hab htb0)

/-! ## 5. The whole exit -/

/-- The handles of the current process. -/
def Kern.handles (k : Kern) : List Nat := List.range (k.psp k.cuPsp).psMaxfiles

/-- **Everything is released** when the current process of `k` has ended: its FCB files, its
handles and its memory; the chains, the link state, all other MCBs, and the SFT entries the
process had nothing to do with, are as before, as far as `proj` shows an entry. -/
structure Released (proj : Sft → Sft) (k : Kern) (low up : List Block) (hi : Nat) (k' : Kern) :
    Prop where
  fcbs : ∀ i s, k'.sft i = some s → k.isFcb s = true → s.sftCount = 0
  handles : ∀ h ∈ k.handles, (k'.psp k.cuPsp).slots.getD h 0xff = 0xff
  mcbs : ∀ b ∈ low ++ up, (k'.mem.mem b.seg).mPsp ≠ k.cuPsp
  otherMcbs : ∀ b ∈ low ++ up, b.hdr.mPsp ≠ k.cuPsp → k'.mem.mem b.seg = b.hdr
  chains : Layout k'.mem (low.map (releaseBlock k.cuPsp)) (up.map (releaseBlock k.cuPsp)) hi
  link : k'.mem.uppermemLink = k.mem.uppermemLink
  otherSfts : ∀ i s, k.sft i = some s → k.isFcb s = false → k.held k.handles i = 0 →
    (k'.sft i).map proj = some (proj s)

/-- **The condition on the state**: every slot of the process leads to an entry in use, with as
many references as the process has slots for it; and each of its FCB entries that the handles
leave in use has one reference left, and every entry before it is left in use too. -/
structure ExitOk (k : Kern) : Prop where
  handles : Closable k k.handles
  fcbs : ∀ i s, k.sft i = some s → k.isFcb s = true → s.sftCount ≤ k.held k.handles i ∨
    s.sftCount = k.held k.handles i + 1 ∧
      ∀ j, j < i → ∀ t, k.sft j = some t → k.held k.handles j < t.sftCount

/-- The entries the process refers to. -/
def Kern.mine (k : Kern) (i : Nat) : Prop :=
  (∃ h ∈ k.handles, k.slot h = i) ∨ ∃ s, k.sft i = some s ∧ k.isFcb s = true

/-- What is left of files and handles, when the closes keep other entries as `proj` shows them. -/
theorem endProcess_files (h1 : HandlesClosed proj Q k.handles k k1)
    (h2 : FcbsClosed proj 0 (sftTotal k1.sfthead) k1 k2) :
    (∀ i s, k.sft i = some s → k.isFcb s = false → k.held k.handles i = 0 →
        (k2.sft i).map proj = some (proj s)) ∧
      (((∀ i s, k2.sft i = some s → k.isFcb s = true → s.sftCount = 0) ∧
          ∀ h ∈ k.handles, (k2.psp k.cuPsp).slots.getD h 0xff = 0xff) ↔ ExitOk k) := by
  obtain ⟨m, hm, h01, hv⟩ := h2.less
  have hcu := h1.process.cuPsp
  -- an entry at the end, the entry it was, and the counts in between
  have hentry : ∀ i s, k.sft i = some s → ∃ s1 s2, k1.sft i = some s1 ∧ k2.sft i = some s2 ∧
      s1.sftCount = s.sftCount - k.held k.handles i ∧ s2.sftCount = s1.sftCount - m i ∧
      k1.isFcb s1 = k.isFcb s ∧ k.isFcb s2 = k.isFcb s := by
    intro i s hs
    obtain ⟨s1, hs1, hc1, hm1, hp1⟩ := h1.less.count hs
    obtain ⟨s2, hs2, hc2, hm2, hp2⟩ := hm.count hs1
    refine ⟨s1, s2, hs1, hs2, hc1, hc2, ?_, ?_⟩
    · simp only [Kern.isFcb, hm1, hp1, hcu]
    · simp only [Kern.isFcb, hm2, hp2, hm1, hp1]
  have hvisited : ∀ i s, k.sft i = some s → (m i = 1 ↔ k.isFcb s = true ∧
      ∀ j, j ≤ i → ∀ t, k.sft j = some t → k.held k.handles j < t.sftCount) := by
    intro i s hs
    obtain ⟨s1, s2, hs1, -, -, -, hf1, -⟩ := hentry i s hs
    rw [hv i]
    constructor
    · rintro ⟨-, ⟨-, hr⟩, s1', hs1', hf⟩
      cases hs1.symm.trans hs1'
      refine ⟨hf1 ▸ hf, fun j hj t ht => ?_⟩
      obtain ⟨t1, -, ht1, -, hc1, -⟩ := hentry j t ht
      obtain ⟨t1', ht1', hne⟩ := hr j (Nat.zero_le _) hj
      cases ht1.symm.trans ht1'
      omega
    · rintro ⟨hf, hall⟩
      have hlt := nthSft_lt_total hs1
      refine ⟨by omega, ⟨Nat.zero_le _, fun j _ hj => ?_⟩, s1, hs1, by rw [hf1]; exact hf⟩
      obtain ⟨t, ht⟩ := nthSft_of_lt (lt_of_le_of_lt hj (nthSft_lt_total hs))
      obtain ⟨t1, -, ht1, -, hc1, -⟩ := hentry j t ht
      have := hall j hj t ht
      exact ⟨t1, ht1, by omega⟩
  refine ⟨fun i s hs hf hheld => ?_, ?_⟩
  · have hm0 : m i = 0 := (h01 i).resolve_right fun hm1 => by
      have := ((hvisited i s hs).mp hm1).1
      rw [hf] at this
      cases this
    rw [hm.same i hm0, h1.less.same i hheld, hs]
    rfl
  have hslots : (∀ h ∈ k.handles, (k2.psp k.cuPsp).slots.getD h 0xff = 0xff) ↔
      Closable k k.handles := by
    rw [← h1.closed]
    have hpsp : k2.psp k.cuPsp = k1.psp k1.cuPsp := by
      unfold Kern.psp
      rw [h2.psps, hcu]
    rw [hpsp]
    rfl
  constructor
  · rintro ⟨hfcbs, hhandles⟩
    refine ⟨hslots.mp hhandles, fun i s hs hf => ?_⟩
    obtain ⟨s1, s2, -, hs2, hc1, hc2, -, hf2⟩ := hentry i s hs
    have hzero := hfcbs i s2 hs2 (hf2.trans hf)
    by_cases hle : s.sftCount ≤ k.held k.handles i
    · exact .inl hle
    · have hm1 : m i = 1 := by
        rcases h01 i with h0 | h1
        · omega
        · exact h1
      refine .inr ⟨by omega, fun j hj => ?_⟩
      exact ((hvisited i s hs).mp hm1).2 j (by omega)
  · intro hexit
    refine ⟨fun i s2 hs2 hf2 => ?_, hslots.mpr hexit.handles⟩
    obtain ⟨s, hs⟩ : ∃ s, k.sft i = some s := by
      rw [← Option.isSome_iff_exists, ← h1.less.isSome i, ← hm.isSome i, hs2]
      rfl
    obtain ⟨s1, s2', -, hs2', hc1, hc2, -, hf2'⟩ := hentry i s hs
    cases hs2.symm.trans hs2'
    rcases hexit.fcbs i s hs (hf2'.symm.trans hf2) with hle | ⟨heq, hall⟩
    · omega
    · have hm1 : m i = 1 := by
        refine (hvisited i s hs).mpr ⟨hf2'.symm.trans hf2, fun j hj t ht => ?_⟩
        by_cases hji : j = i
        · subst hji
          cases hs.symm.trans ht
          omega
        · exact hall j (by omega) t ht
      omega

/-- **The exit**, when the closes keep other entries as `proj` shows them. -/
theorem endProcess_spec (hcw : ClosesWith proj k.mine Q) {handles fcbs : Nat → CloseEnv}
    (hh : ∀ i, (handles i).Ok) (hf : ∀ i, (fcbs i).Ok) (hQ : Q k) (hok : TablesOk k)
    (hP : k.cuPsp ≠ FREE_PSP) {low up : List Block} {hi : Nat} (hfirst : 0 < k.mem.firstMcb)
    (hhi : hi ≤ 0x10000) (hlayout : Layout k.mem low up hi) :
    ∃ k', endProcess handles fcbs k = some k' ∧ (Released proj k low up hi k' ↔ ExitOk k) := by
  have h1 : HandlesClosed proj Q k.handles k (closeHandles handles k.handles k) :=
    closeHandles_spec hcw hh k.handles k hQ hok nodup_range
      (fun h hmem => mem_range.mp hmem) (fun h hmem _ => .inl ⟨h, hmem, rfl⟩)
  generalize hk1 : closeHandles handles k.handles k = k1 at h1
  have hmine : ∀ i s, k1.sft i = some s → k1.isFcb s = true → k.mine i := by
    intro i s1 hs1 hfcb
    obtain ⟨s, hs⟩ : ∃ s, k.sft i = some s := by
      rw [← Option.isSome_iff_exists, ← h1.less.isSome i, hs1]
      rfl
    obtain ⟨s1', hs1', -, hm, hp⟩ := h1.less.count hs
    cases hs1.symm.trans hs1'
    refine .inr ⟨s, hs, ?_⟩
    simp only [Kern.isFcb, hm, hp, h1.process.cuPsp] at hfcb
    exact hfcb
  have h2 := fcbCloseAll_spec hcw hf (sftTotal k1.sfthead) 0 k1 h1.inv hmine
  rw [← range_eq_range'] at h2
  generalize hk2 : fcbCloseAll fcbs (List.range (sftTotal k1.sfthead)) k1 = k2 at h2
  obtain ⟨hothers, hiff⟩ := endProcess_files h1 h2
  have hmem : k2.mem = k.mem := h2.process.mem.trans h1.process.mem
  have hcu : k2.cuPsp = k.cuPsp := h2.process.cuPsp.trans h1.process.cuPsp
  have hfree := freeProcessMem_spec k.cuPsp hfirst hhi hlayout
  refine ⟨{ k2 with mem := { k.mem with
    mem := released k.cuPsp k.mem.mem ((low ++ up).map Tile.seg) } }, ?_, ?_⟩
  · have hrun : endProcess handles fcbs k =
        (freeProcessMem k2.mem k2.cuPsp).map fun r => { k2 with mem := r.2 } := by
      rw [← hk2, ← hk1]
      rfl
    rw [hrun, hmem, hcu, hfree]
    rfl
  · rw [← hiff]
    constructor
    · exact fun h => ⟨h.fcbs, h.handles⟩
    · rintro ⟨hfcbs, hhandles⟩
      have hblock : ∀ b ∈ low ++ up,
          released k.cuPsp k.mem.mem ((low ++ up).map Tile.seg) b.seg = b.hdr.releasedBy k.cuPsp := by
        intro b hb
        rw [released_of_mem (mem_map_of_mem hb), hlayout.mem hb]
      refine ⟨hfcbs, hhandles, fun b hb => ?_, fun b hb hne => ?_, hlayout.released k.cuPsp, rfl,
        hothers⟩
      · change (released k.cuPsp k.mem.mem _ b.seg).mPsp ≠ _
        rw [hblock b hb, Mcb.releasedBy]
        split
        · exact Ne.symm hP
        · assumption
      · change released k.cuPsp k.mem.mem _ b.seg = _
        rw [hblock b hb, Mcb.releasedBy, if_neg hne]

/-- **Process exit.**  A process that ends without staying resident, in any layout of memory and
with all closes succeeding: `return_user` comes to its end, and everything is released, up to the
fields that closing a written file passes on to its other entries, if and only if the state it
starts from meets `ExitOk`.  If no file of the process that was written to has another entry,
other entries are exactly as before. -/
theorem exit_releases_iff (k : Kern) (low up : List Block) (hi : Nat)
    (processEnd closeAll : List (List Sft) → List (List Sft)) (handles fcbs : Nat → CloseEnv)
    (hok : TablesOk (k.notified processEnd closeAll)) (hP : k.cuPsp ≠ FREE_PSP)
    (hparent : (k.psp k.cuPsp).psParent ≠ k.cuPsp) (hh : ∀ i, (handles i).Ok)
    (hf : ∀ i, (fcbs i).Ok) (hfirst : 0 < k.mem.firstMcb) (hhi : hi ≤ 0x10000)
    (hlayout : Layout k.mem low up hi) :
    ∃ k', returnUser false processEnd closeAll handles fcbs k = some k' ∧
      (Released Sft.core (k.notified processEnd closeAll) low up hi k' ↔
        ExitOk (k.notified processEnd closeAll)) ∧
      (NoMerge (k.notified processEnd closeAll).mine (k.notified processEnd closeAll) →
        (Released id (k.notified processEnd closeAll) low up hi k' ↔
          ExitOk (k.notified processEnd closeAll))) := by
  set k0 := k.notified processEnd closeAll with hk0
  have hcore : ClosesWith Sft.core k0.mine (fun _ => True) :=
    ⟨fun _ _ _ _ _ _ _ _ _ _ hdrop => ⟨trivial, hdrop.others⟩, fun _ _ _ _ => trivial⟩
  obtain ⟨k1, hrun, hcoreiff⟩ :=
    endProcess_spec (k := k0) hcore hh hf trivial hok hP hfirst hhi hlayout
  have hret : returnUser false processEnd closeAll handles fcbs k =
      some { k1 with cuPsp := (k.psp k.cuPsp).psParent } := by
    have hne : ((k.psp k.cuPsp).psParent != k.cuPsp) = true := by simpa using hparent
    unfold returnUser
    simp only [Bool.not_false, Bool.true_and, hne, if_true]
    rw [← hk0, hrun]
    rfl
  -- `Released` does not look at the current process of the final state
  have hcu : ∀ proj, Released proj k0 low up hi { k1 with cuPsp := (k.psp k.cuPsp).psParent } ↔
      Released proj k0 low up hi k1 :=
    fun proj => ⟨fun h => ⟨h.1, h.2, h.3, h.4, h.5, h.6, h.7⟩,
      fun h => ⟨h.1, h.2, h.3, h.4, h.5, h.6, h.7⟩⟩
  refine ⟨_, hret, (hcu _).trans hcoreiff, fun hno => ?_⟩
  obtain ⟨k2, hrun2, hidiff⟩ :=
    endProcess_spec (k := k0) (closesWith_id k0.mine) hh hf hno hok hP hfirst hhi hlayout
  have hk12 : k1 = k2 := Option.some.inj (hrun.symm.trans hrun2)
  rw [hcu, hk12]
  exact hidiff

/-- Process 2, child of 1, with an FCB file in the last entry of the SFT, a handle to the file in
entry 0, and 4 paragraphs of memory.  Entry 1 has `count` references. -/
def fcbProcess (count : Nat) : Kern where
  sfthead := [[{ Sft.zero with sftCount := 1, sftFlags := SFT_FCLEAN, sftPsp := 2 }],
    [{ Sft.zero with sftCount := count, sftFlags := SFT_FCLEAN, sftPsp := 1 },
     { Sft.zero with sftCount := 1, sftFlags := SFT_FCLEAN, sftPsp := 2, sftMode := O_FCB }]]
  psps := [(2, ⟨2, [0, 0xff], 1⟩), (1, ⟨1, [1], 1⟩)]
  cuPsp := 2
  share := Share.init 0 0
  shareInstalled := false
  mem :=
    { mem := fun s => if s = 1 then ⟨MCB_LAST, 2, 4⟩ else ⟨0, 0, 0⟩
      firstMcb := 1
      uppermemLink := 0
      uppermemRoot := 0xffff
      memAccessMode := 0 }
  fat32 _ := false
  dhAttr _ := 0
  opened _ := []

theorem fcbProcess_layout (count : Nat) :
    Layout (fcbProcess count).mem [⟨1, ⟨MCB_LAST, 2, 4⟩⟩] [] 6 :=
  .noUmb rfl rfl ⟨⟨rfl, rfl, rfl⟩, rfl, by decide⟩

theorem closeOk_ok : closeOk.Ok := ⟨rfl, rfl, rfl⟩

/-- The exit of a process none of whose files is behind a hole. -/
theorem fcbProcess_exit :
    ∃ k', returnUser false id id (fun _ => closeOk) (fun _ => closeOk) (fcbProcess 1) = some k' ∧
      (Released Sft.core ((fcbProcess 1).notified id id) [⟨1, ⟨MCB_LAST, 2, 4⟩⟩] [] 6 k' ↔
        ExitOk ((fcbProcess 1).notified id id)) ∧
      (NoMerge ((fcbProcess 1).notified id id).mine ((fcbProcess 1).notified id id) →
        (Released id ((fcbProcess 1).notified id id) [⟨1, ⟨MCB_LAST, 2, 4⟩⟩] [] 6 k' ↔
          ExitOk ((fcbProcess 1).notified id id))) :=
  exit_releases_iff (fcbProcess 1) [⟨1, ⟨MCB_LAST, 2, 4⟩⟩] [] 6 id id _ _
    ⟨by decide, by decide, by decide⟩ (by decide) (by decide) (fun _ => closeOk_ok)
    (fun _ => closeOk_ok) (by decide) (by decide) (fcbProcess_layout 1)

/-- **A file behind a hole.**  Entry 1 is not in use; the FCB file in entry 2 is still in use
after its process has ended. -/
theorem fcb_behind_hole_leaks :
    ∃ k', returnUser false id id (fun _ => closeOk) (fun _ => closeOk) (fcbProcess 0) = some k' ∧
      ((fcbProcess 0).psp 2).psParent ≠ 2 ∧
      Layout (fcbProcess 0).mem [⟨1, ⟨MCB_LAST, 2, 4⟩⟩] [] 6 ∧
      ¬ Released Sft.core (fcbProcess 0) [⟨1, ⟨MCB_LAST, 2, 4⟩⟩] [] 6 k' := by
  have hrun : ((returnUser false id id (fun _ => closeOk) (fun _ => closeOk) (fcbProcess 0)).bind
      fun k => k.sft 2) = some
        { Sft.zero with sftCount := 1, sftFlags := SFT_FCLEAN, sftPsp := 2, sftMode := O_FCB } := by
    decide
  obtain ⟨k', hk', hsft⟩ := Option.bind_eq_some_iff.mp hrun
  refine ⟨k', hk', by decide, fcbProcess_layout 0, fun h => ?_⟩
  exact nomatch h.fcbs 2 _ hsft (by decide)

end SdcBoot.Kernel
