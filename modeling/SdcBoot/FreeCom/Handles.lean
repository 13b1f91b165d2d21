/-
# The shell gets its handles back

`Kept` is what a command line may do to the handles, to `oldinfd` and `oldoutfd` and to the
temporary files.  Between the `dup`s and the label `abort` the state is `Borrowed`: every handle
other than 0 and 1 is as it was, but for the two copies, which lie in entries that were free.  From
there `abort` puts 0 and 1 back where there is a copy; where a handle was closed without one, nothing
brings the file back (`Spoiled`).  So everything depends on the `dup`s (`dupsSucceed`).
-/
import SdcBoot.FreeCom.Redirect
import Mathlib.Data.List.Range
import Mathlib.Data.List.Perm.Basic

namespace SdcBoot.FreeCom

open List Option

/-! ## 1. The lowest free handle -/

namespace Shell

@[simp] theorem point_fds (s : Shell) (h : Nat) (f : Option Nat) (g : Nat) :
    (s.point h f).fds g = if g = h then f else s.fds g := by
  simp [point, Function.update_apply]

/-- An entry of the table that is free. -/
def Free (s : Shell) (h : Nat) : Prop := h < s.limit ∧ s.fds h = none

variable {s : Shell}

variable {h : Nat}

theorem lowestFree_eq_some : s.lowestFree = some h ↔ s.Free h ∧ ∀ g < h, s.fds g ≠ none := by
  unfold lowestFree
  rw [find?_range_eq_some]
  constructor
  · rintro ⟨hnone, hlt, hbelow⟩
    refine ⟨⟨by simpa using hlt, by simpa using hnone⟩, fun g hg hg0 => ?_⟩
    have := hbelow g hg
    simp [hg0] at this
  · rintro ⟨⟨hlt, hnone⟩, hbelow⟩
    refine ⟨by simp [hnone], by simpa using hlt, fun g hg => ?_⟩
    cases hf : s.fds g with
    | none => exact absurd hf (hbelow g hg)
    | some f => simp

theorem lowestFree_eq_none : s.lowestFree = none ↔ ∀ h, ¬ s.Free h := by
  unfold lowestFree
  rw [find?_eq_none]
  constructor
  · intro hall h hfree
    have := hall h (by simpa using hfree.1)
    simp [hfree.2] at this
  · intro hall h hh hnone
    exact hall h ⟨by simpa using hh, by simpa using hnone⟩

/-- `open` finds an entry not above one that is free. -/
theorem lowestFree_le (hfree : s.Free h) : ∃ g, s.lowestFree = some g ∧ g ≤ h := by
  cases hlow : s.lowestFree with
  | none => exact absurd hfree (lowestFree_eq_none.mp hlow h)
  | some g =>
    refine ⟨g, rfl, ?_⟩
    by_contra hgt
    exact (lowestFree_eq_some.mp hlow).2 h (by omega) hfree.2

theorem Free.ne {s : Shell} (hg : s.Free g) (hf : s.fds h = some f) : g ≠ h := by
  rintro rfl
  exact nomatch hf.symm.trans hg.2

end Shell

/-- Of two free handles that are needed one is taken already. -/
theorem one_taken_iff {F F' : Nat → Prop} {slot : Nat} {P : Prop} (hslot : F slot)
    (hF : ∀ h, F' h ↔ F h ∧ h ≠ slot) (hP : P) :
    (∃ h, F' h) ↔ ∃ h, F h ∧ (P → ∃ g, g ≠ h ∧ F g) := by
  constructor
  · rintro ⟨h, hh⟩
    obtain ⟨hh, hne⟩ := (hF h).mp hh
    exact ⟨h, hh, fun _ => ⟨slot, hne.symm, hslot⟩⟩
  · rintro ⟨h, hh, hmore⟩
    obtain ⟨g, hne, hg⟩ := hmore hP
    by_cases hhs : h = slot
    · exact ⟨g, (hF g).mpr ⟨hg, hhs ▸ hne⟩⟩
    · exact ⟨h, (hF h).mpr ⟨hh, hhs⟩⟩

theorem none_taken_iff {F : Nat → Prop} {P : Prop} (hP : ¬ P) :
    (∃ h, F h) ↔ ∃ h, F h ∧ (P → ∃ g, g ≠ h ∧ F g) :=
  exists_congr fun _ => (and_iff_left fun h => absurd h hP).symm

/-! ## 2. What a command line may do to the shell -/

/-- **What `parsecommandline` found is there again**: the handles, the saved handles, and every
temporary file that was obtained is killed once. -/
structure Kept (s s' : Shell) : Prop where
  limit : s'.limit = s.limit
  fds : s'.fds = s.fds
  oldinfd : s'.oldinfd = s.oldinfd
  oldoutfd : s'.oldoutfd = s.oldoutfd
  files : s.files.length ≤ s'.files.length
  temps : ∃ e, s'.obtained = s.obtained ++ e ∧ s'.killed.Perm (s.killed ++ e)

/-- The commands leave the handles as they find them. -/
def Tidy (docommand : List Char → Shell → Shell) : Prop := ∀ line s, Kept s (docommand line s)

/-- Handles 0 and 1 refer to files that are open. -/
structure Standard (s : Shell) : Prop where
  room : 2 ≤ s.limit
  open0 : ∃ f < s.files.length, s.fds 0 = some f
  open1 : ∃ f < s.files.length, s.fds 1 = some f

/-- A step that touches no handle but 0 and 1. -/
structure Low (c c' : Shell) : Prop where
  limit : c'.limit = c.limit
  fds : ∀ h, 2 ≤ h → c'.fds h = c.fds h
  oldinfd : c'.oldinfd = c.oldinfd
  oldoutfd : c'.oldoutfd = c.oldoutfd
  files : c.files.length ≤ c'.files.length
  temps : ∃ e, c'.obtained = c.obtained ++ e ∧ c'.killed.Perm (c.killed ++ e)

theorem Low.refl (c : Shell) : Low c c :=
  ⟨rfl, fun _ _ => rfl, rfl, rfl, le_rfl, [], by simp, by simp⟩

variable {c c' s : Shell} {a f h : Nat} {pending : List (List Char)} {o : Outcomes}

theorem Low.trans {d e : Shell} (h : Low c d) (h' : Low d e) : Low c e := by
  obtain ⟨l, hl, hl'⟩ := h.temps
  obtain ⟨m, hm, hm'⟩ := h'.temps
  refine ⟨h'.limit.trans h.limit, fun g hg => (h'.fds g hg).trans (h.fds g hg),
    h'.oldinfd.trans h.oldinfd, h'.oldoutfd.trans h.oldoutfd, h.files.trans h'.files, l ++ m, ?_, ?_⟩
  · rw [hm, hl, append_assoc]
  · rw [← append_assoc]
    exact hm'.trans (hl'.append_right m)

theorem Kept.low (h : Kept c c') : Low c c' :=
  ⟨h.limit, fun g _ => congrFun h.fds g, h.oldinfd, h.oldoutfd, h.files, h.temps⟩

theorem low_point (hh : h < 2) (f : Option Nat) : Low c (c.point h f) := by
  refine ⟨rfl, fun g hg => ?_, rfl, rfl, le_rfl, [], by simp [Shell.point], by simp [Shell.point]⟩
  rw [Shell.point_fds, if_neg (by omega)]

theorem low_dup2 (hh : h < 2) (src : Option Nat) : Low c (c.dup2 src h) := by
  unfold Shell.dup2
  split
  · exact low_point hh _
  · exact Low.refl c

theorem low_complain (c : Shell) (m : Complaint) : Low c (c.complain m) :=
  ⟨rfl, fun _ _ => rfl, rfl, rfl, le_rfl, [], by simp [Shell.complain], by simp [Shell.complain]⟩

/-- **The lowest-free-handle rule.**  Where handle 0 or 1 is closed, `open` gives one of them, or
fails and changes nothing. -/
theorem openFile_cases (hfree : c.Free h) (ok : Bool) (name : List Char) (mode : OpenMode) :
    (∃ g ≤ h, c.Free g ∧ (∀ i < g, c.fds i ≠ none) ∧ ok = true ∧
      (c.openFile ok name mode).1 = some g ∧
      (c.openFile ok name mode).2.fds = (c.point g (some c.files.length)).fds) ∨
    (ok = false ∧ c.openFile ok name mode = (none, c)) := by
  obtain ⟨g, hlow, hle⟩ := Shell.lowestFree_le hfree
  obtain ⟨hg, hbelow⟩ := Shell.lowestFree_eq_some.mp hlow
  cases ok with
  | true => exact .inl ⟨g, hle, hg, hbelow, rfl, by simp [Shell.openFile, hlow],
      by simp [Shell.openFile, hlow]⟩
  | false => exact .inr ⟨rfl, by simp [Shell.openFile, hlow]⟩

theorem low_openFile (hh : h < 2) (hfree : c.Free h) (ok : Bool) (name : List Char)
    (mode : OpenMode) : Low c (c.openFile ok name mode).2 := by
  obtain ⟨g, hlow, hle⟩ := Shell.lowestFree_le hfree
  unfold Shell.openFile
  rw [hlow]
  cases ok with
  | true =>
    refine ⟨rfl, fun i hi => ?_, rfl, rfl, by simp, [], by simp [Shell.point], by simp [Shell.point]⟩
    exact (low_point (show g < 2 by omega) _).fds i hi
  | false => exact Low.refl c

/-! ## 3. While the handles are redirected -/

/-- The state `c` of a command line that began in `s`: the copies of handle 0 and 1 are in entries
that were free, and the files in `pending` are still to be killed. -/
structure Borrowed (s c : Shell) (pending : List (List Char)) : Prop where
  limit : c.limit = s.limit
  other : ∀ h, 2 ≤ h → c.oldinfd ≠ some h → c.oldoutfd ≠ some h → c.fds h = s.fds h
  savedIn : ∀ a, c.oldinfd = some a → 2 ≤ a ∧ s.fds a = none ∧ c.fds a = s.fds 0
  savedOut : ∀ b, c.oldoutfd = some b → 2 ≤ b ∧ s.fds b = none ∧ c.fds b = s.fds 1
  distinct : ∀ a, c.oldinfd = some a → c.oldoutfd ≠ some a
  files : s.files.length ≤ c.files.length
  temps : ∃ e, c.obtained = s.obtained ++ e ∧ (c.killed ++ pending).Perm (s.killed ++ e)

/-- What handle `h` referred to is no longer there: it is closed, or refers to a file opened
since. -/
def Spoiled (s c : Shell) (h : Nat) : Prop := ∀ f, c.fds h = some f → s.files.length ≤ f

theorem Borrowed.low (hb : Borrowed s c pending) (hl : Low c c') : Borrowed s c' pending := by
  obtain ⟨e, he, he'⟩ := hb.temps
  obtain ⟨l, hl1, hl2⟩ := hl.temps
  refine ⟨hl.limit.trans hb.limit, ?_, ?_, ?_, ?_, hb.files.trans hl.files, e ++ l, ?_, ?_⟩
  · intro h hh hi ho
    rw [hl.oldinfd] at hi
    rw [hl.oldoutfd] at ho
    rw [hl.fds h hh]
    exact hb.other h hh hi ho
  · intro a ha
    rw [hl.oldinfd] at ha
    obtain ⟨h2, hs, hc⟩ := hb.savedIn a ha
    exact ⟨h2, hs, (hl.fds a h2).trans hc⟩
  · intro b hb'
    rw [hl.oldoutfd] at hb'
    obtain ⟨h2, hs, hc⟩ := hb.savedOut b hb'
    exact ⟨h2, hs, (hl.fds b h2).trans hc⟩
  · intro a ha
    rw [hl.oldinfd] at ha
    rw [hl.oldoutfd]
    exact hb.distinct a ha
  · rw [hl1, he, append_assoc]
  · calc (c'.killed ++ pending).Perm (c.killed ++ l ++ pending) := hl2.append_right pending
      _ = c.killed ++ (l ++ pending) := by rw [append_assoc]
      List.Perm _ (c.killed ++ (pending ++ l)) := perm_append_comm.append_left _
      _ = c.killed ++ pending ++ l := by rw [append_assoc]
      List.Perm _ (s.killed ++ e ++ l) := he'.append_right l
      _ = s.killed ++ (e ++ l) := by rw [append_assoc]

theorem Borrowed.start (hin : s.oldinfd = none) (hout : s.oldoutfd = none) : Borrowed s s [] := by
  refine ⟨rfl, fun _ _ _ _ => rfl, ?_, ?_, ?_, le_rfl, [], by simp, by simp⟩
  · intro a ha
    rw [hin] at ha
    cases ha
  · intro b hb
    rw [hout] at hb
    cases hb
  · intro a ha
    rw [hin] at ha
    cases ha

theorem Borrowed.obtain (hb : Borrowed s c pending) (name : List Char) :
    Borrowed s { c with obtained := c.obtained ++ [name] } (pending ++ [name]) := by
  obtain ⟨e, he, he'⟩ := hb.temps
  refine ⟨hb.limit, hb.other, hb.savedIn, hb.savedOut, hb.distinct, hb.files, e ++ [name], ?_, ?_⟩
  · simp [he]
  · have := he'.append_right [name]
    simpa using this

theorem Borrowed.kill {name : Option (List Char)}
    (hb : Borrowed s c (name.toList ++ pending)) : Borrowed s (c.killtmpfn name) pending := by
  obtain ⟨e, he, he'⟩ := hb.temps
  refine ⟨hb.limit, hb.other, hb.savedIn, hb.savedOut, hb.distinct, hb.files, e, he, ?_⟩
  simpa [Shell.killtmpfn] using he'

/-! ## 4. The stages of a pipe -/

theorem Spoiled.of_eq (hs : Spoiled s c h) (he : c'.fds h = c.fds h) :
    Spoiled s c' h := fun f hf => hs f (he ▸ hf)

theorem spoiled_of_none (he : c.fds h = none) : Spoiled s c h :=
  fun f hf => by rw [he] at hf; cases hf

variable {b fa fb i slot : Nat} {t u : Shell}

/-- A file that is opened spoils the handle it is given, and no handle is mended by it. -/
theorem Spoiled.openFile (hs : Spoiled s c i) (hfiles : s.files.length ≤ c.files.length)
    (hfree : c.Free h) (ok : Bool) (name : List Char)
    (mode : OpenMode) : Spoiled s (c.openFile ok name mode).2 i := by
  rcases openFile_cases hfree ok name mode with ⟨g, -, -, -, -, -, hfds⟩ | ⟨-, hsame⟩
  · intro f hf
    rw [hfds, Shell.point_fds] at hf
    split at hf
    · cases hf
      exact hfiles
    · exact hs f hf
  · rw [hsame]
    exact hs

section Pipe

variable {docommand : List Char → Shell → Shell} (hcmd : Tidy docommand) {o : Outcomes} {s : Shell}

include hcmd

variable {c : Shell}

/-- **One stage of a pipe** takes no handle but 0 and 1, kills the temporary file it read from and
leaves the one it wrote; handle 0 is not what it was, and handle 1 only where it was saved. -/
theorem stage_borrowed {fname1 : Option (List Char)}
    (hb : Borrowed s c fname1.toList) (hfree : c.Free 1) (i : Nat) (command fname0 : List Char) :
    Borrowed s (stage docommand o i command fname0 fname1 c) [fname0] ∧
      (stage docommand o i command fname0 fname1 c).oldinfd = c.oldinfd ∧
      (stage docommand o i command fname0 fname1 c).oldoutfd = c.oldoutfd ∧
      Spoiled s (stage docommand o i command fname0 fname1 c) 0 ∧
      (c.oldoutfd = none → Spoiled s (stage docommand o i command fname0 fname1 c) 1) := by
  let c1 : Shell := { c with obtained := c.obtained ++ [fname0] }
  let c2 := (c1.openFile (o.openWrite i) fname0 .create).2
  let c3 := docommand command c2
  let c4 := (c3.close (some 1)).dup2 c3.oldoutfd 1
  let c5 := c4.close (some 0)
  have hfree1 : c1.Free 1 := hfree
  have hl2 : Low c1 c2 := low_openFile (by decide) hfree1 _ _ _
  have hl3 : Low c2 c3 := (hcmd command c2).low
  have hl4 : Low c3 c4 := (low_point (by decide) none).trans (low_dup2 (by decide) _)
  have hl5 : Low c4 c5 := low_point (by decide) none
  have hl := hl2.trans (hl3.trans (hl4.trans hl5))
  have hb5 : Borrowed s c5 (fname1.toList ++ [fname0]) := (hb.obtain fname0).low hl
  have hb6 : Borrowed s (c5.killtmpfn fname1) [fname0] := hb5.kill
  have hzero : (c5.killtmpfn fname1).fds 0 = none := by
    change (c4.point 0 none).fds 0 = none
    rw [Shell.point_fds, if_pos rfl]
  have hlimit : (c5.killtmpfn fname1).limit = c.limit := hl.limit
  have hfree6 : (c5.killtmpfn fname1).Free 0 := by
    refine ⟨?_, hzero⟩
    rw [hlimit]
    exact lt_trans Nat.zero_lt_one hfree.1
  have hl7 := low_openFile (by decide) hfree6 (o.openRead i) fname0 .read
  have hspoil : Spoiled s (c5.killtmpfn fname1) 0 := spoiled_of_none hzero
  refine ⟨hb6.low hl7, hl7.oldinfd.trans hl.oldinfd, hl7.oldoutfd.trans hl.oldoutfd, ?_, ?_⟩
  · exact hspoil.openFile hb6.files hfree6 _ _ _
  · intro hout
    have hout3 : c3.oldoutfd = none := (hl3.oldoutfd.trans hl2.oldoutfd).trans hout
    have hone : (c5.killtmpfn fname1).fds 1 = none := by
      change (c4.point 0 none).fds 1 = none
      have h4 : c4 = c3.point 1 none := by
        change (c3.close (some 1)).dup2 c3.oldoutfd 1 = c3.point 1 none
        rw [hout3]
        rfl
      rw [h4, Shell.point_fds, if_neg (by decide), Shell.point_fds, if_pos rfl]
    exact (spoiled_of_none hone).openFile hb6.files hfree6 _ _ _

omit hcmd in
theorem close_one {pending : List (List Char)} (hroom : 2 ≤ s.limit) (hb : Borrowed s c pending) :
    Borrowed s (c.close (some 1)) pending ∧ (c.close (some 1)).Free 1 := by
  refine ⟨hb.low (low_point (by decide) none), ?_, ?_⟩
  · change 1 < c.limit
    rw [hb.limit]
    omega
  · change (c.point 1 none).fds 1 = none
    rw [Shell.point_fds, if_pos rfl]

/-- What a run over the stages `cmds` leaves, from `c`. -/
structure Piped (s c : Shell) (o : Outcomes) (i : Nat) (cmds : List (List Char))
    (out : Bool × Option (List Char) × Shell) : Prop where
  borrowed : Borrowed s out.2.2 out.2.1.toList
  oldinfd : out.2.2.oldinfd = c.oldinfd
  oldoutfd : out.2.2.oldoutfd = c.oldoutfd
  idle : cmds = [] → out = (true, out.2.1, c)
  first : o.tmpfn i = none → out.2.2.fds 0 = c.fds 0
  spoiled0 : Spoiled s c 0 ∨ (cmds ≠ [] ∧ o.tmpfn i ≠ none) → Spoiled s out.2.2 0
  spoiled1 : c.oldoutfd = none → Spoiled s c 1 ∨ cmds ≠ [] → Spoiled s out.2.2 1

/-- **The whole pipe**, by induction on the commands before the last. -/
theorem stages_piped (hroom : 2 ≤ s.limit) (cmds : List (List Char)) :
    ∀ (i : Nat) (fname1 : Option (List Char)) (c : Shell), Borrowed s c fname1.toList →
      Piped s c o i cmds (stages docommand o i cmds fname1 c) := by
  induction cmds with
  | nil =>
    intro i fname1 c hb
    refine ⟨hb, rfl, rfl, fun _ => rfl, fun _ => rfl, ?_, ?_⟩
    · rintro (h | ⟨h, -⟩)
      · exact h
      · exact absurd rfl h
    · rintro - (h | h)
      · exact h
      · exact absurd rfl h
  | cons command rest ih =>
    intro i fname1 c hb
    obtain ⟨hb1, hfree1⟩ := close_one hroom hb
    have h0 : (c.close (some 1)).fds 0 = c.fds 0 := by
      change (c.point 1 none).fds 0 = c.fds 0
      rw [Shell.point_fds, if_neg (by decide)]
    unfold stages
    cases htmp : o.tmpfn i with
    | none =>
      refine ⟨hb1, rfl, rfl, fun h => (cons_ne_nil _ _ h).elim, fun _ => h0, ?_, fun _ _ => ?_⟩
      · rintro (h | ⟨-, h⟩)
        · exact h.of_eq h0
        · exact absurd htmp h
      · exact spoiled_of_none hfree1.2
    | some fname0 =>
      obtain ⟨hb2, hin, hout, hs0, hs1⟩ :=
        stage_borrowed hcmd (o := o) hb1 hfree1 i command fname0
      have hrest := ih (i + 1) (some fname0) _ hb2
      refine ⟨hrest.borrowed, hrest.oldinfd.trans hin, hrest.oldoutfd.trans hout,
        fun h => (cons_ne_nil _ _ h).elim, fun h => ?_, fun _ => ?_, fun hnone _ => ?_⟩
      · rw [htmp] at h
        cases h
      · exact hrest.spoiled0 (.inl hs0)
      · exact hrest.spoiled1 (hout.trans hnone) (.inl (hs1 hnone))

end Pipe

/-! ## 5. Putting the handles back -/

/-- A handle is closed, taken from its copy, and the copy is closed. -/
theorem putBack_eq (ha : 2 ≤ a) (hh : h < 2) (hf : c.fds a = some f) :
    ((c.close (some h)).dup2 (some a) h).close (some a) =
      { c with fds := fun g => if g = a then none else if g = h then some f else c.fds g } := by
  have hopen : (c.point h none).fds a = some f := by
    rw [Shell.point_fds, if_neg (show a ≠ h by omega)]
    exact hf
  have hdup : (c.close (some h)).dup2 (some a) h = (c.point h none).point h (some f) := by
    simp only [Shell.close, Shell.dup2, bind_some, hopen]
  have hfds : (((c.point h none).point h (some f)).point a none).fds =
      fun g => if g = a then none else if g = h then some f else c.fds g := by
    funext g
    simp only [Shell.point_fds]
    split
    · rfl
    · split <;> rfl
  rw [hdup, ← hfds]
  rfl

/-- Handle 0 from its copy, and nothing else. -/
theorem Borrowed.restoreIn (hs : Standard s) (hb : Borrowed s c pending) :
    Borrowed s (restoreIn c) pending ∧ (FreeCom.restoreIn c).oldinfd = none ∧
      (FreeCom.restoreIn c).oldoutfd = c.oldoutfd ∧
      (FreeCom.restoreIn c).fds 0 = (if c.oldinfd.isSome then s.fds 0 else c.fds 0) ∧
      (FreeCom.restoreIn c).fds 1 = c.fds 1 := by
  unfold FreeCom.restoreIn
  cases hin : c.oldinfd with
  | none => exact ⟨by simpa using hb, by simp [hin], by simp, by simp, by simp⟩
  | some a =>
    obtain ⟨ha, hfree, hcopy⟩ := hb.savedIn a hin
    obtain ⟨f, -, hf⟩ := hs.open0
    simp only [isSome_some, if_true]
    rw [putBack_eq ha (by decide) (hcopy.trans hf)]
    refine ⟨⟨hb.limit, fun g hg _ hout => ?_, nofun,
      fun b hout => ?_, nofun, hb.files, hb.temps⟩, trivial, rfl, ?_, ?_⟩
    · by_cases hga : g = a
      · rw [hga]
        simpa using hfree.symm
      · have hgin : c.oldinfd ≠ some g := fun h => hga (some.inj (h.symm.trans hin))
        have hg0 : g ≠ 0 := by omega
        simpa [hga, hg0] using hb.other g hg hgin hout
    · obtain ⟨hb2, hbfree, hbcopy⟩ := hb.savedOut b hout
      have hba : b ≠ a := fun h => hb.distinct a hin (h ▸ hout)
      have hb0 : b ≠ 0 := by omega
      exact ⟨hb2, hbfree, by simpa [hba, hb0] using hbcopy⟩
    · simp [hf, show (0 : Nat) ≠ a by omega]
    · simp [show (1 : Nat) ≠ a by omega]

/-- Handle 1 from its copy, and nothing else. -/
theorem Borrowed.restoreOut (hs : Standard s) (hb : Borrowed s c pending) :
    Borrowed s (restoreOut c) pending ∧ (FreeCom.restoreOut c).oldoutfd = none ∧
      (FreeCom.restoreOut c).oldinfd = c.oldinfd ∧
      (FreeCom.restoreOut c).fds 1 = (if c.oldoutfd.isSome then s.fds 1 else c.fds 1) ∧
      (FreeCom.restoreOut c).fds 0 = c.fds 0 := by
  unfold FreeCom.restoreOut
  cases hout : c.oldoutfd with
  | none => exact ⟨by simpa using hb, by simp [hout], by simp, by simp, by simp⟩
  | some b =>
    obtain ⟨hb2, hfree, hcopy⟩ := hb.savedOut b hout
    obtain ⟨f, -, hf⟩ := hs.open1
    simp only [isSome_some, if_true]
    rw [putBack_eq hb2 (by decide) (hcopy.trans hf)]
    refine ⟨⟨hb.limit, fun g hg hin _ => ?_, fun a hin => ?_,
      nofun, nofun, hb.files, hb.temps⟩,
      trivial, rfl, ?_, ?_⟩
    · by_cases hgb : g = b
      · rw [hgb]
        simpa using hfree.symm
      · have hgout : c.oldoutfd ≠ some g := fun h => hgb (some.inj (h.symm.trans hout))
        have hg1 : g ≠ 1 := by omega
        simpa [hgb, hg1] using hb.other g hg hin hgout
    · obtain ⟨ha2, hafree, hacopy⟩ := hb.savedIn a hin
      have hab : a ≠ b := fun h => hb.distinct a hin (h ▸ hout)
      have ha1 : a ≠ 1 := by omega
      exact ⟨ha2, hafree, by simpa [hab, ha1] using hacopy⟩
    · simp [hf, show (1 : Nat) ≠ b by omega]
    · simp [show (0 : Nat) ≠ b by omega]

/-- **What `abort` brings back.**  It is all of it exactly when a handle without a copy still
refers to what it did. -/
theorem abort_kept_iff {s c : Shell} {fname1 : Option (List Char)} (hs : Standard s)
    (hin : s.oldinfd = none) (hout : s.oldoutfd = none) (hb : Borrowed s c fname1.toList) :
    Kept s (abort fname1 none c) ↔
      (c.oldinfd = none → c.fds 0 = s.fds 0) ∧ (c.oldoutfd = none → c.fds 1 = s.fds 1) := by
  obtain ⟨hb1, hin1, hout1, h01, h11⟩ := hb.restoreIn hs
  obtain ⟨hb2, hout2, hin2, h12, h02⟩ := hb1.restoreOut hs
  have hb3 : Borrowed s (abort fname1 none c) [] := by
    have := (show Borrowed s _ (fname1.toList ++ []) by simpa using hb2).kill
    simpa [abort, Shell.killtmpfn] using this
  have hfds : (abort fname1 none c).fds = (restoreOut (restoreIn c)).fds := rfl
  have hsome : ∀ x : Option Nat, x = none ∨ x.isSome := fun x => by cases x <;> simp
  constructor
  · intro hk
    rw [hout1] at h12
    refine ⟨fun h => ?_, fun h => ?_⟩
    · rw [h] at h01
      rw [← hk.fds, hfds, h02, h01]
      simp
    · rw [h, h11] at h12
      rw [← hk.fds, hfds, h12]
      simp
  · rintro ⟨h0, h1⟩
    obtain ⟨e, he, he'⟩ := hb3.temps
    refine ⟨hb3.limit, funext fun g => ?_, (hin2.trans hin1).trans hin.symm,
      hout2.trans hout.symm, hb3.files, e, he, by simpa using he'⟩
    rw [hfds]
    match g with
    | 0 =>
      rw [h02, h01]
      rcases hsome c.oldinfd with h | h
      · simpa [h] using h0 h
      · rw [if_pos h]
    | 1 =>
      rw [h12, hout1, h11]
      rcases hsome c.oldoutfd with h | h
      · simpa [h] using h1 h
      · rw [if_pos h]
    | n + 2 =>
      refine hb2.other (n + 2) (by omega) ?_ ?_
      · rw [hin2, hin1]
        simp
      · rw [hout2]
        simp

/-! ## 6. From the last command back to the line -/

theorem Standard.spoiled0 (hs : Standard s) (h : Spoiled s c 0) : c.fds 0 ≠ s.fds 0 := by
  obtain ⟨f, hf, h0⟩ := hs.open0
  intro he
  exact absurd (h f (he.trans h0)) (by omega)

theorem Standard.spoiled1 (hs : Standard s) (h : Spoiled s c 1) : c.fds 1 ≠ s.fds 1 := by
  obtain ⟨f, hf, h1⟩ := hs.open1
  intro he
  exact absurd (h f (he.trans h1)) (by omega)

theorem Piped.fds_zero_iff {cmds : List (List Char)} {out : Bool × Option (List Char) × Shell}
    (hs : Standard s) (hp : Piped s c o i cmds out) :
    out.2.2.fds 0 = s.fds 0 ↔ c.fds 0 = s.fds 0 ∧ (cmds ≠ [] → o.tmpfn i = none) := by
  by_cases hcmds : cmds = []
  · have hsame : out.2.2 = c := congrArg (fun x => x.2.2) (hp.idle hcmds)
    rw [hsame]
    exact ⟨fun h => ⟨h, fun h' => absurd hcmds h'⟩, And.left⟩
  · by_cases htmp : o.tmpfn i = none
    · rw [hp.first htmp]
      exact ⟨fun h => ⟨h, fun _ => htmp⟩, And.left⟩
    · refine iff_of_false (hs.spoiled0 (hp.spoiled0 (.inr ⟨hcmds, htmp⟩))) ?_
      rintro ⟨-, h⟩
      exact htmp (h hcmds)

/-- `dup` of an open handle succeeds where DOS lets it and an entry is free. -/
theorem dup_eq (hf : c.fds h = some f) (ok : Bool) :
    (∃ slot, c.lowestFree = some slot ∧ (ok = true ∧ ∃ g, c.Free g) ∧
      c.dup ok h = (some slot, c.point slot (some f))) ∨
    (¬ (ok = true ∧ ∃ g, c.Free g) ∧ c.dup ok h = (none, c)) := by
  unfold Shell.dup
  rw [hf]
  cases hlow : c.lowestFree with
  | none =>
    right
    refine ⟨?_, rfl⟩
    rintro ⟨-, g, hg⟩
    exact Shell.lowestFree_eq_none.mp hlow g hg
  | some slot =>
    have hfree := (Shell.lowestFree_eq_some.mp hlow).1
    cases ok with
    | true => exact .inl ⟨slot, rfl, ⟨rfl, slot, hfree⟩, rfl⟩
    | false => exact .inr ⟨by simp, rfl⟩

section Line

variable {docommand : List Char → Shell → Shell} (hcmd : Tidy docommand) {o : Outcomes}
  {r : Redirection} {s : Shell} (hs : Standard s) (hin : s.oldinfd = none)
  (hout : s.oldoutfd = none)

include hcmd hs hin hout

/-- The last command, and the output file before it: closing handle 1 needs the copy, whether the
file can be opened or not, and whichever handle it is given. -/
theorem lastCommand_kept_iff {fname1 : Option (List Char)} (hb : Borrowed s c fname1.toList) :
    Kept s (lastCommand docommand o r fname1 c) ↔
      (c.oldinfd = none → c.fds 0 = s.fds 0) ∧
        (c.oldoutfd = none → c.fds 1 = s.fds 1 ∧ r.ofn = none) := by
  unfold lastCommand
  cases hofn : r.ofn with
  | none =>
    obtain ⟨hb1, hout1, hin1, h11, h01⟩ := hb.restoreOut hs
    have hrun := hcmd r.command (restoreOut c)
    rw [abort_kept_iff hs hin hout (hb1.low hrun.low), hrun.fds, hrun.oldinfd, hrun.oldoutfd,
      hin1, hout1, h01, h11]
    cases c.oldoutfd <;> simp
  | some out =>
    obtain ⟨hb1, hfree1⟩ := close_one hs.room hb
    let c2 := ((c.close (some 1)).openFile o.openOut out r.ofatt).2
    have hl2 : Low (c.close (some 1)) c2 := low_openFile (by decide) hfree1 _ _ _
    have hsp1 : Spoiled s c2 1 :=
      (spoiled_of_none hfree1.2).openFile hb1.files hfree1 _ _ _
    have h0 : c2.fds 0 = s.fds 0 ↔ c.fds 0 = s.fds 0 := by
      have hclose : (c.close (some 1)).fds 0 = c.fds 0 := by
        change (c.point 1 none).fds 0 = c.fds 0
        rw [Shell.point_fds, if_neg (by decide)]
      rcases openFile_cases hfree1 o.openOut out r.ofatt with ⟨g, -, hg, -, -, -, hfds⟩ | ⟨-, hsame⟩
      · have hc2 : c2.fds 0 = ((c.close (some 1)).point g (some (c.close (some 1)).files.length)).fds 0 :=
          congrFun hfds 0
        rw [hc2, Shell.point_fds, hclose]
        by_cases hg0 : 0 = g
        · -- handle 0 is closed, and the file goes there
          have hnone : c.fds 0 = none := hclose ▸ (hg0 ▸ hg.2)
          have hbad : Spoiled s c2 0 := by
            intro f hf
            rw [hc2, Shell.point_fds, if_pos hg0] at hf
            cases hf
            exact hb.files
          have hnot := hs.spoiled0 hbad
          rw [hc2, Shell.point_fds] at hnot
          exact iff_of_false hnot (hs.spoiled0 (spoiled_of_none hnone))
        · rw [if_neg hg0]
      · have hc2 : c2 = c.close (some 1) := congrArg Prod.snd hsame
        rw [hc2, hclose]
    have hkey : ∀ d : Shell, Low c2 d → d.fds 0 = c2.fds 0 → d.fds 1 = c2.fds 1 →
        (Kept s (abort fname1 none d) ↔ (c.oldinfd = none → c.fds 0 = s.fds 0) ∧
          (c.oldoutfd = none → c.fds 1 = s.fds 1 ∧ some out = none)) := by
      intro d hd hd0 hd1
      have hin2 : d.oldinfd = c.oldinfd := hd.oldinfd.trans hl2.oldinfd
      have hout2 : d.oldoutfd = c.oldoutfd := hd.oldoutfd.trans hl2.oldoutfd
      rw [abort_kept_iff hs hin hout ((hb1.low hl2).low hd), hin2, hout2, hd0, hd1, h0]
      refine and_congr_right fun _ => ⟨fun h hnone => ?_, fun h hnone => ?_⟩
      · exact absurd (h hnone) (hs.spoiled1 hsp1)
      · exact absurd (h hnone).2 (by simp)
    change Kept s (if ((c.close (some 1)).openFile o.openOut out r.ofatt).1 ≠ some 1 then
      abort fname1 none (c2.complain (.redirectToFile out))
      else abort fname1 none (docommand r.command c2)) ↔ _
    split
    · exact hkey _ (low_complain _ _) rfl rfl
    · have hrun := hcmd r.command c2
      exact hkey _ hrun.low (congrFun hrun.fds 0) (congrFun hrun.fds 1)

/-- The pipe and the last command, from where handle 1 is to be saved: with its copy, or where it
is not needed, everything depends on handle 0. -/
theorem runPipe_kept_iff (hb : Borrowed s c []) (hcout : c.oldoutfd = none)
    (h1 : c.fds 1 = s.fds 1) (h0 : c.fds 0 ≠ none) :
    Kept s (runPipe docommand o r c) ↔
      (c.oldinfd = none → c.fds 0 = s.fds 0 ∧ (r.before ≠ [] → o.tmpfn 0 = none)) ∧
        (r.ofn.isSome ∨ r.before ≠ [] → o.dupOut = true ∧ ∃ h, c.Free h) := by
  -- from the state after the `dup`
  have hrest : ∀ d : Shell, Borrowed s d [] → d.oldinfd = c.oldinfd → d.fds 0 = c.fds 0 →
      d.fds 1 = c.fds 1 →
      (Kept s (afterStages docommand o r (stages docommand o 0 r.before none d)) ↔
      (c.oldinfd = none → c.fds 0 = s.fds 0 ∧ (r.before ≠ [] → o.tmpfn 0 = none)) ∧
        (d.oldoutfd = none → ¬ (r.ofn.isSome ∨ r.before ≠ []))) := by
    intro d hd hdin hd0 hd1
    have hp := stages_piped (o := o) hcmd hs.room r.before 0 none d (by simpa using hd)
    have hzero := hp.fds_zero_iff hs
    have hone : d.oldoutfd = none → r.before ≠ [] →
        (stages docommand o 0 r.before none d).2.2.fds 1 ≠ s.fds 1 :=
      fun h hne => hs.spoiled1 (hp.spoiled1 h (.inr hne))
    have hidle := hp.idle
    have hpin := hp.oldinfd
    have hpout := hp.oldoutfd
    have hpb := hp.borrowed
    revert hzero hone hidle hpin hpout hpb
    rcases stages docommand o 0 r.before none d with ⟨_ | _, fname1, e⟩
    · intro hzero hone hidle hpin hpout hpb
      have hne : r.before ≠ [] := fun h => nomatch congrArg Prod.fst (hidle h)
      simp only [afterStages] at hzero hone hpin hpout hpb ⊢
      rw [abort_kept_iff hs hin hout hpb, hzero, hpin, hpout, hdin, hd0]
      refine and_congr_right fun _ => ⟨fun h hnone => ?_, fun h hnone => ?_⟩
      · exact absurd (h hnone) (hone hnone hne)
      · exact absurd (.inr hne) (h hnone)
    · intro hzero hone hidle hpin hpout hpb
      simp only [afterStages] at hzero hone hpin hpout hpb ⊢
      rw [lastCommand_kept_iff hcmd hs hin hout hpb, hzero, hpin, hpout, hdin, hd0]
      refine and_congr_right fun _ => ⟨fun h hnone => ?_, fun h hnone => ?_⟩
      · obtain ⟨he1, hofn⟩ := h hnone
        rintro (hsome | hne)
        · simp [hofn] at hsome
        · exact hone hnone hne he1
      · have hnot := h hnone
        have hnil : r.before = [] := by
          by_contra hne
          exact hnot (.inr hne)
        have hed : e = d := congrArg (fun x => x.2.2) (hidle hnil)
        refine ⟨by rw [hed, hd1, h1], ?_⟩
        cases hofn : r.ofn with
        | none => rfl
        | some out => exact absurd (.inl (by simp [hofn])) hnot
  unfold runPipe
  by_cases hneed : r.ofn.isSome ∨ r.before ≠ []
  · rw [if_pos hneed]
    obtain ⟨f, -, hf⟩ := hs.open1
    rcases dup_eq (h1.trans hf) o.dupOut with ⟨slot, hlow, hok, hdup⟩ | ⟨hbad, hdup⟩
    · obtain ⟨hfree, -⟩ := Shell.lowestFree_eq_some.mp hlow
      have hslot0 : slot ≠ 0 := fun h => h0 (h ▸ hfree.2)
      have hslot1 : slot ≠ 1 := by
        rintro rfl
        have hnone := hfree.2
        rw [h1, hf] at hnone
        cases hnone
      have hslot : 2 ≤ slot := by omega
      have hin' : c.oldinfd ≠ some slot := by
        intro h
        obtain ⟨f0, -, hf0⟩ := hs.open0
        have := (hb.savedIn slot h).2.2
        rw [hfree.2, hf0] at this
        cases this
      have hd : Borrowed s { c.point slot (some f) with oldoutfd := some slot } [] := by
        refine ⟨hb.limit, fun g hg hgin hgout => ?_, fun a ha => ?_, fun b hb' => ?_,
          fun a ha h => ?_, hb.files, hb.temps⟩
        · have hne : g ≠ slot := fun h => hgout (congrArg some h.symm)
          simpa [hne] using hb.other g hg hgin (by simp [hcout])
        · obtain ⟨ha2, hfa, hca⟩ := hb.savedIn a ha
          have hne : a ≠ slot := fun h => hin' (h ▸ ha)
          exact ⟨ha2, hfa, by simpa [hne] using hca⟩
        · cases hb'
          refine ⟨hslot, ?_, by simpa using hf.symm⟩
          rw [← hb.other slot hslot hin' (by simp [hcout])]
          exact hfree.2
        · exact hin' (ha.trans h.symm)
      rw [hdup]
      refine (hrest _ hd rfl ?_ ?_).trans (and_congr_right fun _ => ?_)
      · simp [hslot0.symm]
      · simp [hslot1.symm]
      · exact ⟨fun _ _ => hok, nofun⟩
    · have hd : ({ c with oldoutfd := none } : Shell) = c := by rw [← hcout]
      rw [hdup]
      simp only [hd]
      refine (hrest c hb rfl rfl rfl).trans (and_congr_right fun _ => ?_)
      exact ⟨fun h _ => absurd hneed (h hcout), fun h => absurd (h hneed) hbad⟩
  · rw [if_neg hneed]
    refine (hrest c hb rfl rfl rfl).trans (and_congr_right fun _ => ?_)
    exact ⟨fun _ h => absurd h hneed, fun _ _ => hneed⟩

/-- The handle 0 can be saved: DOS lets it be, and an entry of the table is free. -/
def SavesIn (o : Outcomes) (s : Shell) : Prop := o.dupIn = true ∧ ∃ h, s.Free h

/-- Handle 1 can be saved: there is another free entry where handle 0 has been saved before. -/
def SavesOut (o : Outcomes) (r : Redirection) (s : Shell) : Prop :=
  o.dupOut = true ∧ ∃ h, s.Free h ∧
    ((r.ifn.isSome ∨ r.before ≠ []) ∧ SavesIn o s → ∃ g, g ≠ h ∧ s.Free g)

/-- **A handle is saved before it is closed.**  Handle 0 is closed for an input file and by the
first stage of a pipe that has its temporary file; handle 1 for an output file and by the first
stage, if the input file could be opened. -/
def SavedBeforeClosed (o : Outcomes) (r : Redirection) (s : Shell) : Prop :=
  (r.ifn.isSome ∨ (r.before ≠ [] ∧ o.tmpfn 0 ≠ none) → SavesIn o s) ∧
    ((r.ifn.isSome → o.openIn = true) ∧ (r.ofn.isSome ∨ r.before ≠ []) → SavesOut o r s)

/-- The input file, from where handle 0 is saved: closing handle 0 needs the copy. -/
theorem inputFile_kept_iff {d : Shell} (hd : Borrowed s d []) (hdout : d.oldoutfd = none)
    (h0 : d.fds 0 = s.fds 0) (h1 : d.fds 1 = s.fds 1) (name : List Char) :
    Kept s (
      if ((d.close (some 0)).openFile o.openIn name .read).1 ≠ some 0 then
        abort none none (((d.close (some 0)).openFile o.openIn name .read).2.complain
          (.redirectFromFile name))
      else runPipe docommand o r ((d.close (some 0)).openFile o.openIn name .read).2) ↔
      d.oldinfd ≠ none ∧ (o.openIn = true → r.ofn.isSome ∨ r.before ≠ [] →
        o.dupOut = true ∧ ∃ h, d.Free h) := by
  let e := d.close (some 0)
  have he : Borrowed s e [] := hd.low (low_point (by decide) none)
  have he0 : e.fds 0 = none := by
    change (d.point 0 none).fds 0 = none
    rw [Shell.point_fds, if_pos rfl]
  have hene : ∀ g, g ≠ 0 → e.fds g = d.fds g := by
    intro g hg
    change (d.point 0 none).fds g = d.fds g
    rw [Shell.point_fds, if_neg hg]
  have hfree : e.Free 0 := by
    refine ⟨?_, he0⟩
    have := hs.room
    rw [he.limit]
    omega
  obtain ⟨f0, -, hf0⟩ := hs.open0
  rcases openFile_cases hfree o.openIn name .read with
    ⟨g, hg, -, -, hok, hfd, hfds⟩ | ⟨hfail, hsame⟩
  · obtain rfl : g = 0 := by omega
    let e2 := (e.openFile o.openIn name .read).2
    have hl : Low e e2 := low_openFile (by decide) hfree _ _ _
    have hb2 : Borrowed s e2 [] := he.low hl
    have hfds2 : ∀ i, e2.fds i = if i = 0 then some e.files.length else e.fds i := by
      intro i
      have := congrFun hfds i
      rwa [Shell.point_fds] at this
    have hbad : Spoiled s e2 0 := by
      intro f hf
      rw [hfds2, if_pos rfl] at hf
      cases hf
      exact he.files
    have hfree2 : ∀ h, e2.Free h ↔ d.Free h := by
      intro h
      have hlim : e2.limit = d.limit := hl.limit
      unfold Shell.Free
      rw [hlim, hfds2]
      by_cases hh : h = 0
      · rw [hh, h0, hf0]
        simp
      · rw [if_neg hh, hene h hh]
    have hin2 : e2.oldinfd = d.oldinfd := hl.oldinfd
    have hout2 : e2.oldoutfd = none := hl.oldoutfd.trans hdout
    have h12 : e2.fds 1 = s.fds 1 := by
      rw [hfds2, if_neg (by decide), hene 1 (by decide), h1]
    have h02 : e2.fds 0 ≠ none := by
      rw [hfds2, if_pos rfl]
      simp
    rw [if_neg (by simpa using hfd)]
    refine (runPipe_kept_iff hcmd hs hin hout hb2 hout2 h12 h02).trans ?_
    rw [hin2]
    simp only [hfree2, hok, true_implies]
    refine and_congr_left fun _ => ⟨fun h hnone => ?_, fun h hnone => absurd hnone h⟩
    exact hs.spoiled0 hbad (h hnone).1
  · have hsame' : (d.close (some 0)).openFile o.openIn name .read = (none, e) := hsame
    rw [hsame', if_pos (by simp), abort_kept_iff hs hin hout (he.low (low_complain _ _))]
    have h1e : (e.complain (.redirectFromFile name)).fds 1 = s.fds 1 :=
      (hene 1 (by decide)).trans h1
    have h0e : (e.complain (.redirectFromFile name)).fds 0 ≠ s.fds 0 := by
      change e.fds 0 ≠ s.fds 0
      rw [he0, hf0]
      simp
    constructor
    · rintro ⟨h, -⟩
      exact ⟨fun hnone => h0e (h hnone), fun h => by rw [hfail] at h; cases h⟩
    · rintro ⟨h, -⟩
      exact ⟨fun hnone => absurd hnone h, fun _ => h1e⟩

/-- The line after it is cut: exactly when each handle is saved before it is closed. -/
theorem redirected_kept_iff :
    Kept s (redirected docommand o r s) ↔ SavedBeforeClosed o r s := by
  -- from the state after the `dup`, which has saved handle 0 or not
  have hrest : ∀ d : Shell, Borrowed s d [] → d.oldoutfd = none → d.fds 0 = s.fds 0 →
      d.fds 1 = s.fds 1 → (d.oldinfd ≠ none → SavesIn o s) →
      (r.ifn.isSome ∨ r.before ≠ [] → SavesIn o s → d.oldinfd ≠ none) →
      (o.dupOut = true ∧ (∃ h, d.Free h) ↔ SavesOut o r s) →
      (Kept s (redirectInput docommand o r d) ↔ SavedBeforeClosed o r s) := by
    intro d hd hdout h0 h1 hsaved hneed hfree
    unfold redirectInput
    cases hifn : r.ifn with
    | some name =>
      have hiff := inputFile_kept_iff hcmd hs hin hout (o := o) (r := r) hd hdout h0 h1 name
      refine hiff.trans ?_
      have hthere : r.ifn.isSome := by simp [hifn]
      unfold SavedBeforeClosed
      rw [← hfree]
      simp only [hthere, true_or, true_implies]
      constructor
      · rintro ⟨hin', hrest⟩
        exact ⟨hsaved hin', fun h => hrest h.1 h.2⟩
      · rintro ⟨hin', hrest⟩
        exact ⟨hneed (.inl hthere) hin', fun h h' => hrest ⟨h, h'⟩⟩
    | none =>
      obtain ⟨f0, -, hf0⟩ := hs.open0
      have hd0 : d.fds 0 ≠ none := by
        rw [h0, hf0]
        simp
      refine (runPipe_kept_iff hcmd hs hin hout hd hdout h1 hd0).trans ?_
      unfold SavedBeforeClosed
      rw [← hfree]
      simp only [hifn, isSome_none, Bool.false_eq_true, false_or, false_implies, true_and]
      refine and_congr_left fun _ => ⟨fun h hpipe => ?_, fun h hnone => ⟨h0, fun hne => ?_⟩⟩
      · by_cases hnone : d.oldinfd = none
        · exact absurd ((h hnone).2 hpipe.1) hpipe.2
        · exact hsaved hnone
      · by_contra htmp
        exact hneed (.inr hne) (h ⟨hne, htmp⟩) hnone
  obtain ⟨f0, -, hf0⟩ := hs.open0
  obtain ⟨f1, -, hf1⟩ := hs.open1
  unfold redirected
  by_cases hneed : r.ifn.isSome ∨ r.before ≠ []
  · rw [if_pos hneed]
    rcases dup_eq hf0 o.dupIn with ⟨slot, hlow, hok, hdup⟩ | ⟨hbad, hdup⟩
    · obtain ⟨hslot, -⟩ := Shell.lowestFree_eq_some.mp hlow
      have hslot0 : slot ≠ 0 := hslot.ne hf0
      have hslot1 : slot ≠ 1 := hslot.ne hf1
      let d : Shell := { s.point slot (some f0) with oldinfd := some slot }
      have hdfds : ∀ g, d.fds g = if g = slot then some f0 else s.fds g :=
        fun g => Shell.point_fds s slot (some f0) g
      have hd : Borrowed s d [] := by
        refine ⟨rfl, fun g _ hgin _ => ?_, fun a ha => ?_, fun b hb => ?_, fun a _ h => ?_, le_rfl,
          [], by simp [d, Shell.point], by simp [d, Shell.point]⟩
        · rw [hdfds, if_neg]
          exact fun h => hgin (congrArg some h.symm)
        · cases ha
          exact ⟨by omega, hslot.2, by rw [hdfds, if_pos rfl, hf0]⟩
        · exact nomatch hb.symm.trans hout
        · exact nomatch h.symm.trans hout
      have hdfree : ∀ h, d.Free h ↔ s.Free h ∧ h ≠ slot := by
        intro h
        change h < s.limit ∧ d.fds h = none ↔ _
        rw [hdfds]
        unfold Shell.Free
        by_cases hh : h = slot <;> simp [hh]
      rw [hdup]
      refine hrest d hd hout ?_ ?_ (fun _ => hok) (fun _ _ => by simp [d]) ?_
      · rw [hdfds, if_neg hslot0.symm]
      · rw [hdfds, if_neg hslot1.symm]
      · exact and_congr_right fun _ => one_taken_iff hslot hdfree ⟨hneed, hok⟩
    · have hd : ({ s with oldinfd := none } : Shell) = s := by rw [← hin]
      rw [hdup]
      simp only [hd]
      exact hrest s (Borrowed.start hin hout) hout rfl rfl (fun h => absurd hin h)
        (fun _ h => absurd h hbad) (and_congr_right fun _ => none_taken_iff fun h => hbad h.2)
  · rw [if_neg hneed]
    exact hrest s (Borrowed.start hin hout) hout rfl rfl (fun h => absurd hin h)
      (fun h => absurd h hneed) (and_congr_right fun _ => none_taken_iff fun h => hneed h.1)

end Line

/-! ## 7. The question of trace mode -/

/-- The state of a call inside a line that is redirected: the saved handles are copies, and open. -/
structure Nested (s : Shell) : Prop where
  savedIn : ∀ a, s.oldinfd = some a → 2 ≤ a ∧ s.fds a ≠ none
  savedOut : ∀ b, s.oldoutfd = some b → 2 ≤ b ∧ s.fds b ≠ none

/-- Handle `h` can be copied. -/
def CanDup (ok : Bool) (s : Shell) (h : Nat) : Prop := ok = true ∧ s.fds h ≠ none ∧ ∃ g, s.Free g

/-- Handle 1 can be copied, after handle 0 where that is copied too. -/
def CanDupOut (o : Outcomes) (s : Shell) : Prop :=
  o.traceOut = true ∧ s.fds 1 ≠ none ∧ ∃ h, s.Free h ∧
    (s.oldinfd.isSome ∧ CanDup o.traceIn s 0 → ∃ g, g ≠ h ∧ s.Free g)

/-- Handle 1 is closed, so that the copy of handle 0 is made there; a copy of it cannot be made, and
what handle 0 is taken from in the end is what it referred to. -/
def Coincides (o : Outcomes) (s : Shell) (b : Nat) : Prop :=
  s.oldinfd.isSome ∧ CanDup o.traceIn s 0 ∧ s.fds 1 = none ∧ s.fds 0 = s.fds b ∧
    ¬ (o.traceOut = true ∧ ∃ g, g ≠ 1 ∧ s.Free g)

/-- **The question leaves the handles as they are**: each handle that is turned away from the
redirection can be copied before, or refers to the saved file anyway, or `Coincides`. -/
def AsksSafely (o : Outcomes) (s : Shell) : Prop :=
  (∀ a, s.oldinfd = some a → CanDup o.traceIn s 0 ∨ s.fds 0 = s.fds a) ∧
    ∀ b, s.oldoutfd = some b → CanDupOut o s ∨ s.fds 1 = s.fds b ∨ Coincides o s b

/-- A handle is copied and turned to the saved file. -/
def turnAway (ok : Bool) (old : Option Nat) (h : Nat) (s : Shell) : Option Nat × Shell :=
  ((s.dup ok h).1, (s.dup ok h).2.dup2 old h)

/-- A handle is taken from its copy, if there is one. -/
def turnBack (fd : Option Nat) (h : Nat) (s : Shell) : Shell := (s.dup2 fd h).close fd

theorem turnAway_cases (hfa : s.fds a = some f) (ok : Bool) :
    (∃ slot fh, s.lowestFree = some slot ∧ CanDup ok s h ∧ s.fds h = some fh ∧
      turnAway ok (some a) h s = (some slot, (s.point slot (some fh)).point h (some f))) ∨
    (¬ CanDup ok s h ∧ turnAway ok (some a) h s = (none, s.point h (some f))) := by
  have hplain : s.dup2 (some a) h = s.point h (some f) := by
    simp [Shell.dup2, hfa]
  cases hfh : s.fds h with
  | none =>
    refine .inr ⟨fun hc => hc.2.1 hfh, ?_⟩
    have hdup : s.dup ok h = (none, s) := by
      simp [Shell.dup, hfh]
    rw [turnAway, hdup, hplain]
  | some fh =>
    rcases dup_eq hfh ok with ⟨slot, hlow, hok, hdup⟩ | ⟨hbad, hdup⟩
    · have hfree := (Shell.lowestFree_eq_some.mp hlow).1
      refine .inl ⟨slot, fh, hlow, ⟨hok.1, by simp [hfh], hok.2⟩, rfl, ?_⟩
      have hne : a ≠ slot := (hfree.ne hfa).symm
      rw [turnAway, hdup]
      simp [Shell.dup2, hne, hfa]
    · exact .inr ⟨fun hc => hbad ⟨hc.1, hc.2.2⟩, by rw [turnAway, hdup, hplain]⟩

theorem turnBack_fds (hf : s.fds slot = some f) (g : Nat) :
    (turnBack (some slot) h s).fds g =
      if g = slot then none else if g = h then some f else s.fds g := by
  simp [turnBack, Shell.dup2, hf, Shell.close]

theorem traceQuestion_eq (o : Outcomes) (s : Shell) :
    traceQuestion o s =
      let x := if s.oldinfd.isSome then turnAway o.traceIn s.oldinfd 0 s else (none, s)
      let y := if s.oldoutfd.isSome then turnAway o.traceOut s.oldoutfd 1 x.2 else (none, x.2)
      let z := if s.oldinfd.isSome then turnBack x.1 0 y.2 else y.2
      if s.oldoutfd.isSome then turnBack y.1 1 z else z := by
  unfold traceQuestion turnAway turnBack
  cases s.oldinfd <;> cases s.oldoutfd <;> rfl

/-- One handle alone. -/
theorem turnAround_fds_iff (ha : s.fds a ≠ none) (ok : Bool) :
    (turnBack (turnAway ok (some a) h s).1 h (turnAway ok (some a) h s).2).fds = s.fds ↔
      CanDup ok s h ∨ s.fds h = s.fds a := by
  obtain ⟨f, hf⟩ := Option.ne_none_iff_exists'.mp ha
  rcases turnAway_cases (h := h) hf ok with ⟨slot, fh, hlow, hcan, hfh, heq⟩ | ⟨hbad, heq⟩
  · have hfree := (Shell.lowestFree_eq_some.mp hlow).1
    rw [heq]
    refine iff_of_true (funext fun g => ?_) (.inl hcan)
    have hne : slot ≠ h := hfree.ne hfh
    have hcopy : ((s.point slot (some fh)).point h (some f)).fds slot = some fh := by
      simp [hne]
    rw [turnBack_fds hcopy]
    by_cases hg : g = slot
    · rw [if_pos hg, hg, hfree.2]
    · by_cases hgh : g = h
      · rw [if_neg hg, if_pos hgh, hgh, hfh]
      · simp [hg, hgh]
  · rw [heq]
    have hback : (turnBack none h (s.point h (some f))).fds = (s.point h (some f)).fds := rfl
    rw [hback]
    constructor
    · intro he
      have := congrFun he h
      rw [Shell.point_fds, if_pos rfl] at this
      exact .inr (this.symm.trans hf.symm)
    · rintro (hcan | he)
      · exact absurd hcan hbad
      · funext g
        rw [Shell.point_fds]
        split
        · rename_i hg
          rw [hg, he, hf]
        · rfl

/-- Both handles, where handle 0 is copied. -/
theorem turnBoth_copied {f0 : Nat} (hlow : s.lowestFree = some slot) (h0 : s.fds 0 = some f0)
    (hsome : s.oldinfd.isSome) (hcan : CanDup o.traceIn s 0) (hb2 : 2 ≤ b)
    (hfb : s.fds b = some fb) :
    let s2 := (s.point slot (some f0)).point 0 (some fa)
    let y := turnAway o.traceOut (some b) 1 s2
    (turnBack y.1 1 (turnBack (some slot) 0 y.2)).fds = s.fds ↔
      CanDupOut o s ∨ s.fds 1 = s.fds b ∨ Coincides o s b := by
  intro s2 y
  obtain ⟨hslot, hbelow⟩ := Shell.lowestFree_eq_some.mp hlow
  have hslot0 : slot ≠ 0 := hslot.ne h0
  have hslotb : slot ≠ b := hslot.ne hfb
  have hs2 : ∀ g, s2.fds g = if g = 0 then some fa else if g = slot then some f0 else s.fds g := by
    intro g
    simp only [s2, Shell.point_fds]
  have hs2b : s2.fds b = some fb := by
    rw [hs2, if_neg (by omega), if_neg hslotb.symm, hfb]
  have hfree2 : ∀ g, s2.Free g ↔ s.Free g ∧ g ≠ slot := by
    intro g
    change g < s.limit ∧ s2.fds g = none ↔ _
    rw [hs2]
    unfold Shell.Free
    by_cases hg0 : g = 0
    · simp [hg0, h0]
    · by_cases hg : g = slot
      · simp [hg, hslot0]
      · simp [hg0, hg]
  by_cases hone : slot = 1
  · -- handle 1 was closed and holds the copy of handle 0
    subst hone
    have hclosed : s.fds 1 = none := hslot.2
    have hnotDup : ¬ CanDupOut o s := fun h => h.2.1 hclosed
    have hnotSame : s.fds 1 ≠ s.fds b := by
      rw [hclosed, hfb]
      simp
    have hback : ∀ s3 : Shell, s3.fds 1 = some fb → ∀ g, (turnBack (some 1) 0 s3).fds g =
        if g = 1 then none else if g = 0 then some fb else s3.fds g := fun s3 h g => turnBack_fds h g
    rcases turnAway_cases (h := 1) hs2b o.traceOut with
      ⟨slot', fh, hlow', hcan', hfh, heq⟩ | ⟨hbad, heq⟩
    · have hy : y = (some slot', (s2.point slot' (some fh)).point 1 (some fb)) := heq
      obtain ⟨hfree', hne'⟩ := (hfree2 slot').mp (Shell.lowestFree_eq_some.mp hlow').1
      have hslot'0 : slot' ≠ 0 := hfree'.ne h0
      refine iff_of_false (fun he => ?_) ?_
      · have hmid := hback ((s2.point slot' (some fh)).point 1 (some fb)) (by simp)
        have hcopy : (turnBack (some 1) 0 ((s2.point slot' (some fh)).point 1 (some fb))).fds slot' =
            some fh := by
          rw [hmid, if_neg hne', if_neg hslot'0]
          simp [hne']
        have := congrFun he 1
        rw [hy, turnBack_fds hcopy, if_neg hne'.symm, if_pos rfl, hclosed] at this
        cases this
      · rintro (h | h | h)
        · exact hnotDup h
        · exact hnotSame h
        · exact h.2.2.2.2 ⟨hcan'.1, slot', hne', hfree'⟩
    · have hy : y = (none, s2.point 1 (some fb)) := heq
      have hfds : ∀ g, (turnBack y.1 1 (turnBack (some 1) 0 y.2)).fds g =
          if g = 1 then none else if g = 0 then some fb else s2.fds g := by
        intro g
        rw [hy]
        have := hback (s2.point 1 (some fb)) (by simp) g
        refine this.trans ?_
        by_cases hg : g = 1 <;> simp [hg]
      constructor
      · intro he
        have h00 := congrFun he 0
        rw [hfds, if_neg (by decide), if_pos rfl] at h00
        refine .inr (.inr ⟨hsome, hcan, hclosed, h00.symm.trans hfb.symm, ?_⟩)
        rintro ⟨hok, g, hg, hfree⟩
        refine hbad ⟨hok, ?_, g, (hfree2 g).mpr ⟨hfree, hg⟩⟩
        rw [hs2]
        simp
      · rintro (h | h | h)
        · exact absurd h hnotDup
        · exact absurd h hnotSame
        · funext g
          rw [hfds]
          by_cases hg1 : g = 1
          · rw [if_pos hg1, hg1, hclosed]
          · by_cases hg0 : g = 0
            · rw [if_neg hg1, if_pos hg0, hg0, h.2.2.2.1, hfb]
            · rw [if_neg hg1, if_neg hg0, hs2, if_neg hg0, if_neg hg1]
  · have hopen : s.fds 1 ≠ none := hbelow 1 (by omega)
    have hs21 : s2.fds 1 = s.fds 1 := by
      rw [hs2, if_neg (by decide), if_neg (fun h => hone h.symm)]
    have hnotCo : ¬ Coincides o s b := fun h => hopen h.2.2.1
    have hdup : CanDup o.traceOut s2 1 ↔ CanDupOut o s := by
      unfold CanDup CanDupOut
      rw [hs21]
      exact and_congr_right fun _ => and_congr_right fun _ =>
        one_taken_iff hslot hfree2 ⟨hsome, hcan⟩
    rcases turnAway_cases (h := 1) hs2b o.traceOut with
      ⟨slot', fh, hlow', hcan', hfh, heq⟩ | ⟨hbad, heq⟩
    · have hy : y = (some slot', (s2.point slot' (some fh)).point 1 (some fb)) := heq
      obtain ⟨hfree', hne'⟩ := (hfree2 slot').mp (Shell.lowestFree_eq_some.mp hlow').1
      have hslot'0 : slot' ≠ 0 := hfree'.ne h0
      have hslot'1 : slot' ≠ 1 := by
        rintro rfl
        exact hopen hfree'.2
      refine iff_of_true (funext fun g => ?_) (.inl (hdup.mp hcan'))
      have hfirst : ((s2.point slot' (some fh)).point 1 (some fb)).fds slot = some f0 := by
        simp [hone, hne'.symm, hs2, hslot0]
      have hcopy : (turnBack (some slot) 0 ((s2.point slot' (some fh)).point 1 (some fb))).fds slot' =
          some fh := by
        rw [turnBack_fds hfirst, if_neg hne', if_neg hslot'0]
        simp [hslot'1]
      rw [hy, turnBack_fds hcopy, turnBack_fds hfirst]
      by_cases hg' : g = slot'
      · rw [if_pos hg', hg', hfree'.2]
      · by_cases hg1 : g = 1
        · rw [if_neg hg', if_pos hg1, hg1, ← hs21, hfh]
        · by_cases hg : g = slot
          · rw [if_neg hg', if_neg hg1, if_pos hg, hg, hslot.2]
          · by_cases hg0 : g = 0
            · rw [if_neg hg', if_neg hg1, if_neg hg, if_pos hg0, hg0, h0]
            · simp [hg', hg1, hg, hg0, hs2]
    · have hy : y = (none, s2.point 1 (some fb)) := heq
      have hfirst : (s2.point 1 (some fb)).fds slot = some f0 := by
        simp [hone, hs2, hslot0]
      have hfds : ∀ g, (turnBack y.1 1 (turnBack (some slot) 0 y.2)).fds g =
          if g = slot then none else if g = 0 then some f0 else if g = 1 then some fb
            else s2.fds g := by
        intro g
        rw [hy]
        refine (turnBack_fds hfirst g).trans ?_
        rw [Shell.point_fds]
      have hnotDup : ¬ CanDupOut o s := fun h => hbad (hdup.mpr h)
      constructor
      · intro he
        have h11 := congrFun he 1
        rw [hfds, if_neg (fun h => hone h.symm), if_neg (by decide), if_pos rfl] at h11
        exact .inr (.inl (h11.symm.trans hfb.symm))
      · rintro (h | h | h)
        · exact absurd h hnotDup
        · funext g
          rw [hfds]
          by_cases hg : g = slot
          · rw [if_pos hg, hg, hslot.2]
          · by_cases hg0 : g = 0
            · rw [if_neg hg, if_pos hg0, hg0, h0]
            · by_cases hg1 : g = 1
              · rw [if_neg hg, if_neg hg0, if_pos hg1, hg1, h, hfb]
              · rw [if_neg hg, if_neg hg0, if_neg hg1, hs2, if_neg hg0, if_neg hg]
        · exact absurd h hnotCo

/-- Both handles, where handle 0 cannot be copied and stays on the saved file. -/
theorem turnBoth_lost (hb2 : 2 ≤ b) (hfa : s.fds a = some fa) (hfb : s.fds b = some fb)
    (hbad : ¬ CanDup o.traceIn s 0) :
    let y := turnAway o.traceOut (some b) 1 (s.point 0 (some fa))
    (turnBack y.1 1 y.2).fds = s.fds ↔
      s.fds 0 = s.fds a ∧ (CanDupOut o s ∨ s.fds 1 = s.fds b ∨ Coincides o s b) := by
  intro y
  have hco : ¬ Coincides o s b := fun h => hbad h.2.1
  have hs2b : (s.point 0 (some fa)).fds b = some fb := by
    rw [Shell.point_fds, if_neg (by omega), hfb]
  have hzero : (turnBack y.1 1 y.2).fds 0 = some fa := by
    rcases turnAway_cases (h := 1) hs2b o.traceOut with ⟨slot, fh, hlow, -, hfh, heq⟩ | ⟨-, heq⟩
    · have hy : y = (some slot, ((s.point 0 (some fa)).point slot (some fh)).point 1 (some fb)) :=
        heq
      have hfree := (Shell.lowestFree_eq_some.mp hlow).1
      have hne0 : slot ≠ 0 := by
        rintro rfl
        exact nomatch hfree.2
      have hne1 : slot ≠ 1 := hfree.ne hfh
      have hcopy : (((s.point 0 (some fa)).point slot (some fh)).point 1 (some fb)).fds slot =
          some fh := by
        simp [hne1]
      rw [hy, turnBack_fds hcopy]
      simp [hne0.symm]
    · have hy : y = (none, (s.point 0 (some fa)).point 1 (some fb)) := heq
      rw [hy]
      change (((s.point 0 (some fa)).point 1 (some fb))).fds 0 = some fa
      simp
  have hdup : CanDup o.traceOut s 1 ↔ CanDupOut o s := by
    exact and_congr_right fun _ => and_congr_right fun _ => none_taken_iff fun h => hbad h.2
  by_cases h0 : s.fds 0 = some fa
  · have hsame : s.point 0 (some fa) = s := by
      have : Function.update s.fds 0 (some fa) = s.fds := by
        rw [← h0]
        exact Function.update_eq_self 0 s.fds
      unfold Shell.point
      rw [this]
    have hy : y = turnAway o.traceOut (some b) 1 s := by
      change turnAway o.traceOut (some b) 1 (s.point 0 (some fa)) = _
      rw [hsame]
    have hopen : s.fds b ≠ none := by
      rw [hfb]
      simp
    rw [hy, turnAround_fds_iff hopen, hdup]
    constructor
    · rintro (h | h)
      · exact ⟨h0.trans hfa.symm, .inl h⟩
      · exact ⟨h0.trans hfa.symm, .inr (.inl h)⟩
    · rintro ⟨-, h | h | h⟩
      · exact .inl h
      · exact .inr h
      · exact absurd h hco
  · refine iff_of_false (fun he => h0 ?_) (fun h => h0 (h.1.trans hfa))
    rw [← hzero, he]

/-- **The question of trace mode, exactly.** -/
theorem traceQuestion_fds_iff (hn : Nested s) :
    (traceQuestion o s).fds = s.fds ↔ AsksSafely o s := by
  rw [traceQuestion_eq]
  unfold AsksSafely
  cases hin : s.oldinfd with
  | none =>
    cases hout : s.oldoutfd with
    | none => simp
    | some b =>
      obtain ⟨-, hb⟩ := hn.savedOut b hout
      have hco : ¬ Coincides o s b := by
        intro h
        have := h.1
        rw [hin] at this
        cases this
      have hdup : CanDup o.traceOut s 1 ↔ CanDupOut o s := by
        unfold CanDupOut CanDup
        simp [hin]
      simp only [isSome_none, isSome_some, if_true, Bool.false_eq_true, if_false]
      rw [turnAround_fds_iff hb, hdup]
      constructor
      · refine fun h => ⟨nofun, fun c hc => ?_⟩
        cases hc
        exact h.imp_right .inl
      · rintro ⟨-, h⟩
        rcases h b rfl with h | h | h
        · exact .inl h
        · exact .inr h
        · exact absurd h hco
  | some a =>
    obtain ⟨-, ha⟩ := hn.savedIn a hin
    obtain ⟨fa, hfa⟩ := Option.ne_none_iff_exists'.mp ha
    cases hout : s.oldoutfd with
    | none =>
      simp only [isSome_none, isSome_some, if_true, Bool.false_eq_true, if_false]
      rw [turnAround_fds_iff ha]
      constructor
      · refine fun h => ⟨fun c hc => ?_, nofun⟩
        cases hc
        exact h
      · exact fun h => h.1 a rfl
    | some b =>
      obtain ⟨hb2, hb⟩ := hn.savedOut b hout
      obtain ⟨fb, hfb⟩ := Option.ne_none_iff_exists'.mp hb
      have hgoal : (CanDup o.traceIn s 0 ∨ s.fds 0 = s.fds a) ∧
          (CanDupOut o s ∨ s.fds 1 = s.fds b ∨ Coincides o s b) ↔
          (∀ c, some a = some c → CanDup o.traceIn s 0 ∨ s.fds 0 = s.fds c) ∧
            ∀ c, some b = some c → CanDupOut o s ∨ s.fds 1 = s.fds c ∨ Coincides o s c := by
        constructor
        · rintro ⟨h, h'⟩
          refine ⟨fun c hc => ?_, fun c hc => ?_⟩
          · cases hc
            exact h
          · cases hc
            exact h'
        · exact fun h => ⟨h.1 a rfl, h.2 b rfl⟩
      rw [← hgoal]
      rcases turnAway_cases (h := 0) hfa o.traceIn with ⟨slot, f0, hlow, hcan, hf0, heq⟩ | ⟨hbad, heq⟩
      · rw [heq]
        refine (turnBoth_copied hlow hf0 (by simp [hin]) hcan hb2 hfb).trans ?_
        exact ⟨fun h => ⟨.inl hcan, h⟩, And.right⟩
      · rw [heq]
        refine (turnBoth_lost hb2 hfa hfb hbad).trans ?_
        exact and_congr_left fun _ => ⟨.inr, fun h => h.resolve_left hbad⟩

/-- Nothing but the handle table is changed. -/
def OnlyFds (s t : Shell) : Prop := t = { s with fds := t.fds }

theorem OnlyFds.trans (h : OnlyFds s t) (h' : OnlyFds t u) : OnlyFds s u := by
  unfold OnlyFds at *
  rw [h', h]

theorem onlyFds_dup (s : Shell) (ok : Bool) (h : Nat) : OnlyFds s (s.dup ok h).2 := by
  unfold Shell.dup
  split
  · split <;> rfl
  · rfl

theorem onlyFds_dup2 (s : Shell) (src : Option Nat) (h : Nat) : OnlyFds s (s.dup2 src h) := by
  unfold Shell.dup2
  split <;> rfl

theorem onlyFds_close (s : Shell) (h : Option Nat) : OnlyFds s (s.close h) := by
  cases h <;> rfl

theorem onlyFds_turnAway (ok : Bool) (old : Option Nat) (h : Nat) (s : Shell) :
    OnlyFds s (turnAway ok old h s).2 := (onlyFds_dup s ok h).trans (onlyFds_dup2 _ old h)

theorem onlyFds_turnBack (fd : Option Nat) (h : Nat) (s : Shell) : OnlyFds s (turnBack fd h s) :=
  (onlyFds_dup2 s fd h).trans (onlyFds_close _ fd)

theorem onlyFds_traceQuestion (o : Outcomes) (s : Shell) : OnlyFds s (traceQuestion o s) := by
  rw [traceQuestion_eq]
  cases s.oldinfd with
  | none =>
    cases s.oldoutfd with
    | none => rfl
    | some b => exact (onlyFds_turnAway _ _ _ s).trans (onlyFds_turnBack _ _ _)
  | some a =>
    cases s.oldoutfd with
    | none => exact (onlyFds_turnAway _ _ _ s).trans (onlyFds_turnBack _ _ _)
    | some b =>
      exact ((onlyFds_turnAway _ _ _ s).trans (onlyFds_turnAway _ _ _ _)).trans
        ((onlyFds_turnBack _ _ _).trans (onlyFds_turnBack _ _ _))

/-- What is done where nothing but the table was changed is kept exactly when that was not. -/
theorem OnlyFds.kept_iff (h : OnlyFds s t) (hu : Kept t u) : Kept s u ↔ t.fds = s.fds := by
  constructor
  · intro hk
    rw [← hu.fds, hk.fds]
  · intro he
    have hts : t = s := by
      rw [h, he]
    rwa [← hts]

theorem Kept.refl (s : Shell) : Kept s s :=
  ⟨rfl, rfl, rfl, rfl, le_rfl, [], by simp, by simp⟩

/-! ## 8. Every command line -/

/-- The line is run: no question is asked, or the answer to it is yes. -/
def Goes (o : Outcomes) (s : Shell) : Prop := s.tracemode = true → o.answer = 1

/-- **A command line leaves the handles and the temporary files as it found them exactly when each
standard handle is saved before it is closed.**  A call that does not redirect touches them only for
the question of trace mode. -/
theorem parsecommandline_kept_iff {docommand : List Char → Shell → Shell} (hcmd : Tidy docommand)
    (o : Outcomes) (line : List Char) (s : Shell) :
    (Standard s → s.oldinfd = none → s.oldoutfd = none →
      (Kept s (parsecommandline docommand o line true s) ↔
        (Goes o s → ∀ r, getRedirection o.strdup line = (true, r) → SavedBeforeClosed o r s))) ∧
    (Nested s →
      (Kept s (parsecommandline docommand o line false s) ↔
        (s.tracemode = true → AsksSafely o s))) := by
  constructor
  · intro hs hin hout
    have hsame : (if s.tracemode then traceQuestion o s else s) = s := by
      split
      · rw [traceQuestion_eq]
        simp [hin, hout]
      · rfl
    unfold parsecommandline
    rw [hsame]
    by_cases hgo : Goes o s
    · rw [if_neg (fun h => h.2 (hgo h.1)), if_neg (by simp)]
      rcases hget : getRedirection o.strdup line with ⟨_ | _, r⟩
      · refine iff_of_true ?_ nofun
        have hb := (Borrowed.start hin hout).low (low_complain s .outOfMemory)
        exact (@abort_kept_iff s _ none hs hin hout hb).mpr ⟨fun _ => rfl, fun _ => rfl⟩
      · refine (redirected_kept_iff hcmd hs hin hout).trans ⟨fun h _ r' hr => ?_, fun h => ?_⟩
        · obtain rfl : r = r' := congrArg Prod.snd hr
          exact h
        · exact h hgo r rfl
    · have hno : s.tracemode = true ∧ o.answer ≠ 1 := by
        unfold Goes at hgo
        exact Classical.not_imp.mp hgo
      rw [if_pos hno]
      exact iff_of_true (Kept.refl s) (fun h => absurd h hgo)
  · intro hn
    have hrun : ∀ t, OnlyFds s t →
        (Kept s (if t.tracemode ∧ o.answer ≠ 1 then t else docommand line t) ↔ t.fds = s.fds) := by
      intro t ht
      split
      · exact ht.kept_iff (Kept.refl t)
      · exact ht.kept_iff (hcmd line t)
    have hunfold : parsecommandline docommand o line false s =
        let t := if s.tracemode then traceQuestion o s else s
        if t.tracemode ∧ o.answer ≠ 1 then t else docommand line t := by
      unfold parsecommandline
      simp
    rw [hunfold]
    cases htr : s.tracemode with
    | false => exact (hrun s rfl).trans (by simp)
    | true =>
      refine (hrun _ (onlyFds_traceQuestion o s)).trans ?_
      rw [traceQuestion_fds_iff hn]
      simp

/-- The calls to DOS succeed and the temporary files are `0`, `1` and so on. -/
def allGranted : Outcomes where
  strdup := fun _ => true
  traceIn := true
  traceOut := true
  answer := 1
  dupIn := true
  openIn := true
  dupOut := true
  tmpfn := fun i => some [Char.ofNat (48 + i)]
  openWrite := fun _ => true
  openRead := fun _ => true
  openOut := true

/-- A shell with the first `n` of its twenty handles in use. -/
def shellWith (n : Nat) : Shell where
  limit := 20
  fds := fun h => if h < n then some h else none
  files := List.replicate n ("con".toList, .read)
  oldinfd := none
  oldoutfd := none
  obtained := []
  killed := []
  complaints := []
  tracemode := false

/-- The shell within a redirected command, in trace mode: the standard handles are saved as 5 and 6. -/
def tracedShell : Shell :=
  { shellWith 7 with oldinfd := some 5, oldoutfd := some 6, tracemode := true }

theorem pipe_keeps_handles :
    Kept (shellWith 5)
        (parsecommandline (fun _ s => s) allGranted "dir | sort >list".toList true (shellWith 5)) ∧
      Kept tracedShell
        (parsecommandline (fun _ s => s) allGranted "dir".toList false tracedShell) := by
  have hcmd : Tidy fun _ s => s := fun _ s => Kept.refl s
  constructor
  · have hs : Standard (shellWith 5) := ⟨by decide, ⟨0, by decide, rfl⟩, ⟨1, by decide, rfl⟩⟩
    refine ((parsecommandline_kept_iff hcmd allGranted _ _).1 hs rfl rfl).mpr ?_
    refine fun _ r _ => ⟨fun _ => ⟨rfl, 5, by decide, rfl⟩, fun _ => ?_⟩
    exact ⟨rfl, 5, ⟨by decide, rfl⟩, fun _ => ⟨6, by decide, by decide, rfl⟩⟩
  · have hn : Nested tracedShell := by
      constructor
      · rintro a ⟨⟩
        exact ⟨by decide, by decide⟩
      · rintro b ⟨⟩
        exact ⟨by decide, by decide⟩
    refine ((parsecommandline_kept_iff hcmd allGranted "dir".toList tracedShell).2 hn).mpr ?_
    refine fun _ => ⟨fun _ _ => .inl ⟨rfl, by decide, 7, by decide, rfl⟩, fun _ _ => .inl ?_⟩
    exact ⟨rfl, by decide, 7, ⟨by decide, rfl⟩, fun _ => ⟨8, by decide, by decide, rfl⟩⟩

/-- With all handles in use nothing is saved, and standard input stays on the file. -/
theorem full_table_loses_input :
    Standard (shellWith 20) ∧
      ¬ Kept (shellWith 20)
        (parsecommandline (fun _ s => s) allGranted "sort <list".toList true (shellWith 20)) := by
  refine ⟨⟨by decide, ⟨0, by decide, rfl⟩, ⟨1, by decide, rfl⟩⟩, fun hk => ?_⟩
  have h0 := congrFun hk.fds 0
  revert h0
  decide +kernel

end SdcBoot.FreeCom
