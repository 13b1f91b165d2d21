/-
# `truename`: what stands in front of the name

To tell `..` from `.` the loop of `truename` looks two characters back when a component is over.  If
the name is a dot, or begins with a dot and a separator, the first of them is not part of the name:
it is the byte in front of it, and if that byte is a dot the current directory is taken for its
parent.  Everywhere else what the function returns depends on its string only
(`name_alone`).

Here the function has its number too (`truenameCode`), and the name is read from a memory.
-/
import SdcBoot.Kernel.Idempotent

namespace SdcBoot.Kernel.Truename

open Lib List

/-! ## 1. The number -/

def IS_DEVICE : Nat := 0x20
def IS_NETWORK : Nat := 0x40

/-- `result`: the drive and two bits. -/
structure Result where
  drive : Nat
  device : Bool
  network : Bool
  deriving DecidableEq

/-- The number that is returned. -/
def Result.number (r : Result) : Nat :=
  r.drive ||| (if r.device then IS_DEVICE else 0) ||| (if r.network then IS_NETWORK else 0)

/-- What the number depends on besides the path. -/
structure CodeEnv where
  subst : Nat → Bool
  lastdrive : Nat
  joinedNetwork : Nat → Bool
  osMajor : Nat

/-- `drLetterToNr(DosUpFChar(c))`, of a letter that is a capital already. -/
def drLetterToNr (c : UInt8) : Nat := (c.toNat + 256 - 0x41) % 256

/-- SUBST: the drive that the hidden prefix names, if there is one of that letter. -/
def substDrive (code : CodeEnv) (r : Result) (cp : Path) : Result :=
  if code.subst r.drive && cp.tail.head? == some colon &&
      decide (drLetterToNr (cp.headD 0) < code.lastdrive) then
    { r with drive := drLetterToNr (cp.headD 0) }
  else r

/-- The joined drive whose path leads `dest`. -/
def joinedDrive (dest : Path) : List (Nat × Path) → Option Nat
  | [] => none
  | (i, path) :: joined =>
    if (dest.drop path.length).head?.all (· == backslash) && path.isPrefixOf dest then some i
    else joinedDrive dest joined

/-- The number at the end, for the path as the loop leaves it. -/
def finishCode (env : NameMap) (code : CodeEnv) (mode : Mode) (r : Result) (rootPos : Nat)
    (dest : Path) : Nat :=
  let dest := if dest.length = 2 then dest ++ [backslash] else dest
  let dest := dest.take rootPos ++ (dest.drop rootPos).map env.up
  let slashed := (dest.drop 2).head? == some slash
  match if slashed || mode.skipPhysical then none else joinedDrive dest env.joined with
  | some i => { r with drive := i, network := code.joinedNetwork i }.number
  | none =>
    if mode.allowWildcards && !mode.skipPhysical && !mode.checkDevPath then
      if code.osMajor = 6 ∧ r.device = true ∧ r.network = false then 0x3a00 else 0
    else r.number

/-- The number with which the loop is left behind. -/
def loopCode (env : NameMap) (code : CodeEnv) (mode : Mode) (src : Path) (cds : Cds) : Result :=
  let r : Result := ⟨driveOf env.toNameEnv src, env.isDevice src, cds.network⟩
  if r.device && plainDevice env.toNameEnv (behindDrive src) then { r with network := false }
  else if mode.skipPhysical then r
  else
    match currentPath cds with
    | .ok cp => substDrive code r cp
    | .error _ => r

/-- From the drive on, when no redirector takes the name. -/
def mapped (env : NameMap) (code : CodeEnv) (mode : Mode) (src : Path) (cds : Cds) (before : UInt8) :
    Except Int (Nat × Path) :=
  (start env mode (driveOf env.toNameEnv src) cds (env.isDevice src)
      (if src.tail.head? = some colon then colon else before) (behindDrive src)).bind fun s =>
    (componentsAt s.root s.rootPos s.before (s.src.length + 1) s.src s.dest false).bind fun r =>
      (finish env mode (env.isDevice src && !cds.network) s.rootPos r.1 r.2).bind fun path =>
        .ok (finishCode env code mode (loopCode env code mode src cds) s.rootPos r.1, path)

/-- **`truename`**: the number and the path, or the error.  `before` is the byte in front of the
name. -/
def truenameCode (env : NameMap) (code : CodeEnv) (mode : Mode) (before : UInt8) (src : Path) :
    Except Int (Nat × Path) :=
  if src = [] then .error DE_FILENOTFND
  else if src.take 2 = [backslash, backslash] then
    if src.length ≥ SFTMAX then .error (errRet src) else .ok (IS_NETWORK, src)
  else
    match env.getCds (driveOf env.toNameEnv src) with
    | none => .error DE_PATHNOTFND
    | some cds =>
      match if mode.skipPhysical then none else env.qremote src with
      | some answer =>
        let slashed := (answer.drop 2).head? == some slash && env.isDevice src
        .ok ({ drive := driveOf env.toNameEnv src, device := env.isDevice src,
               network := cds.network && !slashed : Result }.number, answer)
      | none => mapped env code mode src cds before

theorem mapped_path (env : NameMap) (code : CodeEnv) (mode : Mode) (src : Path) (cds : Cds) :
    (mapped env code mode src cds env.before).map Prod.snd =
      (start env mode (driveOf env.toNameEnv src) cds (env.isDevice src)
          (if src.tail.head? = some colon then colon else env.before) (behindDrive src)).bind
        fun s =>
          (componentsAt s.root s.rootPos s.before (s.src.length + 1) s.src s.dest false).bind
            fun r => finish env mode (env.isDevice src && !cds.network) s.rootPos r.1 r.2 := by
  unfold mapped
  cases start env mode (driveOf env.toNameEnv src) cds (env.isDevice src)
    (if src.tail.head? = some colon then colon else env.before) (behindDrive src) with
  | error e => rfl
  | ok s =>
    simp only [Except.bind]
    cases componentsAt s.root s.rootPos s.before (s.src.length + 1) s.src s.dest false with
    | error e => rfl
    | ok r =>
      simp only
      cases finish env mode (env.isDevice src && !cds.network) s.rootPos r.1 r.2 with
      | error e => rfl
      | ok path => rfl

/-- The path is that of `truenameIn`. -/
theorem truenameCode_path (env : NameMap) (code : CodeEnv) (mode : Mode) (src : Path) :
    (truenameCode env code mode env.before src).map Prod.snd = truenameIn env mode src := by
  unfold truenameCode truenameIn
  split
  · rfl
  split
  · split <;> rfl
  cases env.getCds (driveOf env.toNameEnv src) with
  | none => rfl
  | some cds =>
    cases (if mode.skipPhysical then none else env.qremote src) with
    | some answer => rfl
    | none => exact mapped_path env code mode src cds

/-! ## 2. Memory -/

/-- The segment that the pointer is in, as bytes. -/
abbrev Memory : Type := UInt16 → UInt8

/-- The string at `p`: it ends at the first zero byte. -/
def nameAt (mem : Memory) (p : UInt16) : Path :=
  ((List.range 0x10000).map fun i => mem (p + UInt16.ofNat i)).takeWhile (· != 0)

/-- **`truename`** of the name at `p`.  Besides the name it may look at the byte in front of it. -/
def truenameAt (env : NameMap) (code : CodeEnv) (mode : Mode) (mem : Memory) (p : UInt16) :
    Except Int (Nat × Path) :=
  truenameCode env code mode (mem (p - 1)) (nameAt mem p)

/-- The name begins with a single dot, and no drive or separator is in front of it. -/
def LoneDot (src : Path) : Prop := src.head? = some dot ∧ atEnd src.tail = true

instance (src : Path) : Decidable (LoneDot src) := inferInstanceAs (Decidable (_ ∧ _))

/-! ## 3. Where the byte is not looked at -/

/-- Behind a component the byte does not matter any more. -/
theorem componentsAt_before {root : UInt8} {rootPos : Nat} (b b' : UInt8) :
    ∀ (fuel : Nat) (src dest : Path) (wild : Bool), ¬ LoneDot src →
      componentsAt root rootPos b fuel src dest wild =
        componentsAt root rootPos b' fuel src dest wild := by
  intro fuel
  induction fuel with
  | zero => exact fun _ _ _ _ => rfl
  | succ fuel ih =>
    intro src dest wild hlone
    -- what is left behind a component begins with a separator
    have hnext : ∀ rest dest wild, atEnd rest = true →
        componentsAt root rootPos b fuel rest dest wild =
          componentsAt root rootPos b' fuel rest dest wild := by
      intro rest dest wild hend
      refine ih rest dest wild fun h => ?_
      cases rest with
      | nil => cases h.1
      | cons x rest =>
        cases h.1
        rw [atEnd_cons] at hend
        cases hend
    -- at a dot with nothing behind it there is a separator in front
    have hdot : (src.dropWhile isSep).head? = some dot →
        atEnd ((src.dropWhile isSep).drop 1) = true → src.head?.any isSep = true := by
      intro hhead hend
      cases src with
      | nil => cases hhead
      | cons x src =>
        by_cases hx : isSep x = true
        · exact hx
        · rw [dropWhile_cons_of_neg hx] at hhead hend
          exact absurd ⟨hhead, hend⟩ hlone
    rw [componentsAt, componentsAt]
    split
    · rfl
    split
    · rfl
    congr 1
    funext d
    extract_lets name twoDots rest
    split
    · rename_i hhead
      split
      · rename_i hend
        have hsame : ∀ c : UInt8,
            (twoDots || (c == dot && !src.head?.any isSep)) = twoDots := by
          intro c
          cases htwo : twoDots with
          | true => rfl
          | false =>
            have hrest : rest = name.drop 1 := by
              simp only [rest, htwo, Bool.false_eq_true, if_false]
            rw [hrest] at hend
            rw [hdot hhead hend]
            simp
        rw [hsame b, hsame b']
        split
        · congr 1
          funext d'
          exact hnext rest d' wild hend
        · exact hnext rest _ wild hend
      · rfl
    · cases hcomp : component name d FNAME_SIZE false wild with
      | error e => rfl
      | ok r => exact hnext r.1 r.2.1 r.2.2 (component_ok hcomp).rest.1

/-- The byte in front of the name, as the loop is given it. -/
theorem start_before {env : NameMap} {mode : Mode} {result : Nat} {cds : Cds} {device : Bool}
    {src : Path} (b b' : UInt8) (hlone : ¬ LoneDot src) :
    (∃ e, ∀ c, start env mode result cds device c src = .error e) ∨
      ∃ s s', start env mode result cds device b src = .ok s ∧
        start env mode result cds device b' src = .ok s' ∧ s'.root = s.root ∧
        s'.rootPos = s.rootPos ∧ s'.src = s.src ∧ s'.dest = s.dest ∧
        (s.before = s'.before ∨ ¬ LoneDot s.src) := by
  unfold start
  split
  · refine .inr ⟨_, _, rfl, rfl, rfl, rfl, rfl, rfl, ?_⟩
    by_cases hroot : getRoot src = src
    · right
      simpa [hroot] using hlone
    · left
      simp [hroot]
  · cases currentPath cds with
    | error e => exact .inl ⟨e, fun _ => rfl⟩
    | ok cp =>
      refine .inr ⟨_, _, rfl, rfl, rfl, rfl, rfl, rfl, ?_⟩
      cases habs : src.head?.any isSep with
      | true =>
        left
        cases src with
        | nil => cases habs
        | cons x src => rfl
      | false =>
        right
        simpa using hlone

theorem mapped_alone (env : NameMap) (code : CodeEnv) (mode : Mode) (src : Path) (cds : Cds)
    (b b' : UInt8) (hlone : src.tail.head? = some colon ∨ ¬ LoneDot src) :
    mapped env code mode src cds b = mapped env code mode src cds b' := by
  unfold mapped
  by_cases hcolon : src.tail.head? = some colon
  · rw [if_pos hcolon, if_pos hcolon]
  · have hname : ¬ LoneDot (behindDrive src) := by
      rw [behindDrive, if_neg hcolon]
      exact hlone.resolve_left hcolon
    rw [if_neg hcolon, if_neg hcolon]
    rcases @start_before env mode (driveOf env.toNameEnv src) cds (env.isDevice src)
      (behindDrive src) b b' hname with ⟨e, he⟩ | ⟨s, s', hs, hs', hroot, hpos, hsrc, hdest, hb⟩
    · rw [he, he]
    · rw [hs, hs']
      simp only [Except.bind, hroot, hpos, hsrc, hdest]
      have hsame : componentsAt s.root s.rootPos s.before (s.src.length + 1) s.src s.dest false =
          componentsAt s.root s.rootPos s'.before (s.src.length + 1) s.src s.dest false := by
        rcases hb with hb | hb
        · rw [hb]
        · exact componentsAt_before _ _ _ _ _ _ hb
      rw [hsame]

/-- **The function depends on its string only**, when the name does not begin with a single dot. -/
theorem truenameCode_alone (env : NameMap) (code : CodeEnv) (mode : Mode) (src : Path)
    (b b' : UInt8) (hlone : src.tail.head? = some colon ∨ ¬ LoneDot src) :
    truenameCode env code mode b src = truenameCode env code mode b' src := by
  unfold truenameCode
  simp only [mapped_alone env code mode src _ b b' hlone]

/-- The loop is entered: the drive is there, no redirector takes the name, and the name is that of a
device or the drive has a medium. -/
def EntersLoop (env : NameMap) (mode : Mode) (src : Path) : Prop :=
  ∃ cds, env.getCds (driveOf env.toNameEnv src) = some cds ∧
    (if mode.skipPhysical then none else env.qremote src) = none ∧
    ((env.isDevice src && plainDevice env.toNameEnv (behindDrive src)) = true ∨
      cds.network = true ∨ cds.mediaOk = true)

/-- What is returned in front of the loop does not depend on the byte either. -/
theorem truenameCode_early (env : NameMap) (code : CodeEnv) (mode : Mode) (src : Path)
    (b b' : UInt8) (hno : ¬ EntersLoop env mode src) :
    truenameCode env code mode b src = truenameCode env code mode b' src := by
  unfold truenameCode
  split
  · rfl
  split
  · rfl
  cases hcds : env.getCds (driveOf env.toNameEnv src) with
  | none => rfl
  | some cds =>
    cases hremote : (if mode.skipPhysical then none else env.qremote src) with
    | some answer => rfl
    | none =>
      have hout : ∀ c, mapped env code mode src cds c = .error DE_PATHNOTFND := by
        intro c
        have hfalse : ∀ {x : Bool}, ¬ (x = true) → x = false := Bool.eq_false_iff.mpr
        rw [mapped, start, if_neg fun h => hno ⟨cds, hcds, hremote, .inl h⟩, currentPath,
          hfalse fun h => hno ⟨cds, hcds, hremote, .inr (.inl h)⟩,
          hfalse fun h => hno ⟨cds, hcds, hremote, .inr (.inr h)⟩]
        rfl
      exact (hout b).trans (hout b').symm

/-! ## 4. Where it is -/

variable {hidden src : Path} {env : NameMap} {cds : Cds} {comps : List Path}

/-- A component is the same behind a shorter path. -/
theorem component_shift : ∀ {d d' : Path} {i : Nat} {pneDot wild : Bool}
    {r : Path × Path × Bool}, d'.length ≤ d.length → component src d i pneDot wild = .ok r →
    ∃ t, r.2.1 = d ++ t ∧ component src d' i pneDot wild = .ok (r.1, d' ++ t, r.2.2) := by
  have hadd : ∀ {src d d' q : Path} {x : UInt8}, d'.length ≤ d.length → addChar src d x = .ok q →
      q = d ++ [x] ∧ addChar src d' x = .ok (d' ++ [x]) := by
    intro src d d' q x hle h
    refine ⟨addChar_ok h, addChar_eq ?_⟩
    unfold addChar at h
    split at h
    · cases h
    · omega
  have hfill : ∀ {src : Path} {i : Nat} {d d' q : Path}, d'.length ≤ d.length →
      fillWild src i d = .ok q →
      q = d ++ List.replicate i question ∧
        fillWild src i d' = .ok (d' ++ List.replicate i question) := by
    intro src i
    induction i with
    | zero =>
      intro d d' q _ h
      cases h
      exact ⟨by simp, by simp [fillWild]⟩
    | succ i ih =>
      intro d d' q hle h
      obtain ⟨q', h1, h2⟩ := bind_ok h
      obtain ⟨rfl, h3⟩ := hadd hle h1
      obtain ⟨hq, h4⟩ := ih (show (d' ++ [0x3f]).length ≤ (d ++ [0x3f]).length by simpa using hle) h2
      refine ⟨by rw [hq, replicate_succ, append_assoc]; rfl, ?_⟩
      rw [fillWild, h3]
      change fillWild src i (d' ++ [0x3f]) = _
      rw [h4, replicate_succ, append_assoc]
      rfl
  induction src with
  | nil =>
    intro d d' i pneDot wild r _ h
    cases h
    exact ⟨[], by simp, by simp [component]⟩
  | cons x src ih =>
    intro d d' i pneDot wild r hle h
    -- one more character or more, and then the rest
    have hmore : ∀ {s : Path} {j : Nat} {dotSeen w : Bool},
        component src (d ++ s) j dotSeen w = .ok r →
        ∃ t, r.2.1 = d ++ t ∧ component src (d' ++ s) j dotSeen w = .ok (r.1, d' ++ t, r.2.2) := by
      intro s j dotSeen w hc
      obtain ⟨t, h1, h2⟩ := ih (show (d' ++ s).length ≤ (d ++ s).length by simpa using hle) hc
      exact ⟨s ++ t, by rw [h1, append_assoc], by rw [h2, append_assoc]⟩
    rw [component] at h ⊢
    split at h
    · rename_i hsep
      cases h
      exact ⟨[], by simp, by rw [if_pos hsep]; simp⟩
    rename_i hsep
    rw [if_neg hsep]
    split at h
    · rename_i hstar
      rw [if_pos hstar]
      obtain ⟨q, h1, h2⟩ := bind_ok h
      obtain ⟨rfl, h3⟩ := hfill hle h1
      obtain ⟨t, ht, h4⟩ := hmore h2
      exact ⟨t, ht, by rw [h3]; exact h4⟩
    rename_i hstar
    rw [if_neg hstar]
    split at h
    · rename_i hdot
      rw [if_pos hdot]
      split at h
      · cases h
      rename_i hpne
      rw [if_neg hpne]
      split at h
      · rename_i hend
        cases h
        exact ⟨[], by simp, by rw [if_pos hend]; simp⟩
      rename_i hend
      rw [if_neg hend]
      split at h
      · cases h
      rename_i hdir
      rw [if_neg hdir]
      obtain ⟨q, h1, h2⟩ := bind_ok h
      obtain ⟨rfl, h3⟩ := hadd hle h1
      obtain ⟨t, ht, h4⟩ := hmore h2
      exact ⟨t, ht, by rw [h3]; exact h4⟩
    rename_i hdot
    rw [if_neg hdot]
    split at h
    · rename_i hi
      rw [if_pos hi]
      have h' : component src (d ++ []) i pneDot (wild || x == 0x3f) = .ok r := by
        rw [append_nil]
        exact h
      obtain ⟨t, ht, h4⟩ := hmore h'
      rw [append_nil] at h4
      exact ⟨t, ht, h4⟩
    rename_i hi
    rw [if_neg hi]
    split at h
    · cases h
    rename_i hdir
    rw [if_neg hdir]
    obtain ⟨q, h1, h2⟩ := bind_ok h
    obtain ⟨rfl, h3⟩ := hadd hle h1
    obtain ⟨t, ht, h4⟩ := hmore h2
    exact ⟨t, ht, by rw [h3]; exact h4⟩

theorem ok_bind {α β : Type} (x : α) (f : α → Except Int β) :
    (Except.ok x : Except Int α).bind f = f x := rfl

/-- What the loop makes of the rest of a name from a place with one component less. -/
def Shorter (r : Path × Bool) (q : Except Int (Path × Bool)) : Prop :=
  (∃ e, q = .error e) ∨ ∃ r', q = .ok r' ∧ r'.2 = r.2 ∧ r'.1.length + 1 < r.1.length

theorem render_shorter {xs ws : List Path} {c : Path} (hc : c ≠ []) :
    (render backslash (xs ++ ws)).length + 1 < (render backslash (xs ++ c :: ws)).length := by
  have hpos := length_pos_iff.mpr hc
  simp only [render_append, render_cons, length_append, length_cons]
  omega

/-- **One component less at the start, one less at the end**: where the loop succeeds from a place,
from the place without one of its components it fails, or ends in a shorter path. -/
theorem componentsAt_shorter {pre : Path} (hpre : Open pre) {before : UInt8} :
    ∀ {fuel : Nat} {src : Path} {xs ws : List Path} {c : Path} {wild : Bool} {r : Path × Bool},
      Names wild (xs ++ c :: ws) →
      componentsAt backslash pre.length before fuel src
        (pre ++ render backslash (xs ++ c :: ws)) wild = .ok r →
      Shorter r (componentsAt backslash pre.length before fuel src
        (pre ++ render backslash (xs ++ ws)) wild) := by
  intro fuel
  induction fuel with
  | zero =>
    intro src xs ws c wild r hnames h
    cases h
    refine .inr ⟨_, rfl, rfl, ?_⟩
    have := @render_shorter xs ws c (hnames.form c (by simp)).ne_nil
    simp only [length_append]
    omega
  | succ fuel ih =>
    intro src xs ws c wild r hnames h
    have hlen := @render_shorter xs ws c (hnames.form c (by simp)).ne_nil
    have hform : ∀ d ∈ xs ++ ws, Name83 d := by
      intro d hd
      refine hnames.form d ?_
      rcases mem_append.mp hd with hd | hd
      · exact mem_append_left _ hd
      · exact mem_append_right _ (.tail _ hd)
    rw [componentsAt] at h ⊢
    split at h
    · rename_i hnil
      cases h
      rw [if_pos hnil]
      refine .inr ⟨_, rfl, rfl, ?_⟩
      simp only [length_append]
      omega
    rename_i hnil
    split at h
    · cases h
    rename_i hwild
    rw [if_neg hnil, if_neg hwild]
    rw [Bool.not_eq_true] at hwild
    subst hwild
    obtain ⟨d, h1, h2⟩ := bind_ok h
    have hlast : (pre ++ render backslash (xs ++ c :: ws)).getLast? ≠ some backslash :=
      open_render hpre hnames.form
    have hlast' : (pre ++ render backslash (xs ++ ws)).getLast? ≠ some backslash :=
      open_render hpre hform
    rw [if_pos hlast] at h1
    rw [if_pos hlast']
    have hroom : (pre ++ render backslash (xs ++ ws)).length < SFTMAX := by
      unfold addChar at h1
      split at h1
      · cases h1
      · simp only [length_append] at *
        omega
    rw [addChar_eq hroom]
    rw [addChar_ok h1] at h2
    rw [ok_bind]
    extract_lets name twoDots rest at h2
    extract_lets
    rw [dropLast_concat] at h2 ⊢
    split at h2
    · rename_i hhead
      rw [if_pos hhead]
      split at h2
      · rename_i hend
        rw [if_pos hend]
        split at h2
        · -- one up
          rename_i hup
          rw [if_pos hup]
          obtain ⟨d', h3, h4⟩ := bind_ok h2
          rw [dropComponentAt_render hpre hnames.form (by simp), if_neg (by simp)] at h3
          cases h3
          rw [dropComponentAt_render hpre hform (by simp)]
          have hsub := hnames.dropLast
          rcases eq_nil_or_concat' ws with rfl | ⟨ws, w, rfl⟩
          · rw [append_nil, dropLast_concat] at *
            rcases eq_nil_or_concat' xs with rfl | ⟨xs, x, rfl⟩
            · exact .inl ⟨DE_PATHNOTFND, rfl⟩
            · rw [if_neg (by simp), dropLast_concat]
              have := @ih rest xs [] x false r hsub h4
              rwa [append_nil] at this
          · have hdrop : (xs ++ c :: (ws ++ [w])).dropLast = xs ++ c :: ws := by
              rw [← cons_append, ← append_assoc, dropLast_concat]
            rw [hdrop] at hsub h4
            rw [if_neg (by simp), ← append_assoc, dropLast_concat]
            exact ih hsub h4
        · rename_i hstay
          rw [if_neg hstay]
          exact ih hnames h2
      · cases h2
    · rename_i hhead
      rw [if_neg hhead]
      obtain ⟨r', h3, h4⟩ := bind_ok h2
      obtain ⟨t, ht, h5⟩ := component_shift
        (show (pre ++ render backslash (xs ++ ws) ++ [backslash]).length ≤
          (pre ++ render backslash (xs ++ c :: ws) ++ [backslash]).length by
            simp only [length_append] at *
            omega) h3
      rw [h5, ok_bind]
      rw [ht] at h4
      by_cases hname : name = []
      · -- the separator at the end of the name
        rw [hname, component] at h3
        cases h3
        rw [componentsAt_nil] at h4 ⊢
        cases h4
        refine .inr ⟨_, rfl, rfl, ?_⟩
        simp only [length_append]
        omega
      · obtain ⟨c', hd', hc', hw⟩ := component_name (not_atEnd_dropWhile hname) hhead h3
        obtain rfl : t = c' := append_cancel_left (ht.symm.trans hd')
        have heq : ∀ zs : List Path, pre ++ render backslash zs ++ [backslash] ++ t =
            pre ++ render backslash (zs ++ [t]) := by
          intro zs
          simp
        rw [heq, append_assoc, cons_append] at h4
        rw [heq, append_assoc]
        refine ih ?_ h4
        have := @Names.append r'.2.2 _ t hnames hc' fun hfalse hmem => by
          rw [hw hmem] at hfalse
          cases hfalse
        rwa [append_assoc, cons_append] at this

/-- The name begins with a dot that is a component of its own, and no drive is in front of it. -/
def DotFirst (src : Path) : Prop := src.tail.head? ≠ some colon ∧ LoneDot src

instance (src : Path) : Decidable (DotFirst src) := inferInstanceAs (Decidable (_ ∧ _))

theorem DotFirst.eq (h : DotFirst src) : ∃ rest, src = dot :: rest ∧ atEnd rest = true := by
  obtain ⟨-, hhead, hend⟩ := h
  cases src with
  | nil => cases hhead
  | cons x rest => exact ⟨rest, by rw [Option.some.inj hhead], hend⟩

/-- The first round of the loop, at such a dot. -/
theorem componentsAt_dot {pre rest : Path} {names : List Path} (hpre : Open pre)
    (hnames : Names false names) (hroom : (pre ++ render backslash names).length < SFTMAX)
    (hend : atEnd rest = true) (b : UInt8) (fuel : Nat) :
    componentsAt backslash pre.length b (fuel + 1) (dot :: rest) (pre ++ render backslash names)
        false =
      if b = dot then
        if names = [] then .error DE_PATHNOTFND
        else componentsAt backslash pre.length 0 fuel rest
          (pre ++ render backslash names.dropLast) false
      else componentsAt backslash pre.length 0 fuel rest (pre ++ render backslash names) false := by
  have hlone : ¬ LoneDot rest := by
    rintro ⟨hhead, -⟩
    cases rest with
    | nil => cases hhead
    | cons x rest =>
      cases hhead
      rw [atEnd_cons] at hend
      cases hend
  have htwo : (rest.head? == some dot) = false := by
    cases rest with
    | nil => rfl
    | cons x rest =>
      simpa using slash_ne_dot hend
  have hopen : (pre ++ render backslash names).getLast? ≠ some backslash :=
    open_render hpre hnames.form
  rw [componentsAt, if_neg (cons_ne_nil _ _), if_neg Bool.false_ne_true, if_pos hopen,
    addChar_eq hroom, ok_bind]
  have hdrop : (dot :: rest).dropWhile isSep = dot :: rest :=
    dropWhile_cons_of_neg (by decide)
  have hsep : (dot :: rest).head?.any isSep = false := rfl
  rw [hdrop, hsep]
  simp only [head?_cons, tail_cons, htwo, if_true, Bool.false_eq_true, if_false, drop_succ_cons,
    drop_zero, hend, Bool.false_or, Bool.not_false, Bool.and_true, beq_iff_eq, dropLast_concat]
  split
  · rw [dropComponentAt_render hpre hnames.form (by simp)]
    split
    · rfl
    · exact componentsAt_before _ _ _ _ _ _ hlone
  · exact componentsAt_before _ _ _ _ _ _ hlone

theorem Local.withBefore (h : Local env src cds hidden comps) (b : UInt8) :
    Local { env with before := b } src cds hidden comps :=
  ⟨h.upcase, h.notUnc, h.drive, h.canonical, h.noDevice, h.noRemote, h.noJoin⟩

/-- **A dot in front of the name makes a difference**, wherever the name leads somewhere without
it. -/
theorem truenameIn_dot {mode : Mode} (h : Local env src cds hidden comps) (hdot : DotFirst src)
    {b : UInt8} (hb : b ≠ dot) {path : Path}
    (hok : truenameIn { env with before := b } mode src = .ok path) :
    truenameIn { env with before := dot } mode src ≠ .ok path := by
  intro hsame
  obtain ⟨rest, rfl, hend⟩ := hdot.eq
  have hsrc : dot :: rest ≠ [] := cons_ne_nil _ _
  have hmedia : cds.mediaOk = true := by
    by_contra hno
    rw [truenameIn_no_media (h.withBefore b) hsrc (by simpa using hno)] at hok
    cases hok
  have hbehind : behindDrive (dot :: rest) = dot :: rest := if_neg hdot.1
  have hrel : relative (dot :: rest) = dot :: rest := by
    rw [relative, hbehind]
    rfl
  have hbefore : ∀ c, beforeName { env with before := c } (dot :: rest) = c := by
    intro c
    simp only [beforeName, hbehind, if_neg hdot.1]
    rfl
  set pre := prefixOf env mode (dot :: rest) hidden with hpre
  have hopen : Open pre := open_prefixOf h.canonical.open
  set names := startNames cds (dot :: rest) comps with hnames
  have hform : Names false names := startNames_names h.canonical
  have hroom : (pre ++ render backslash names).length < SFTMAX := start_room h.canonical
  rw [truenameIn_eq (h.withBefore b) hsrc hmedia, hbefore, hrel] at hok
  rw [truenameIn_eq (h.withBefore dot) hsrc hmedia, hbefore, hrel] at hsame
  obtain ⟨r, h1, h2⟩ := bind_ok hok
  obtain ⟨r', h1', h2'⟩ := bind_ok hsame
  have h1 : componentsAt backslash pre.length b ((dot :: rest).length + 1) (dot :: rest)
      (pre ++ render backslash names) false = .ok r := h1
  have h1' : componentsAt backslash pre.length dot ((dot :: rest).length + 1) (dot :: rest)
      (pre ++ render backslash names) false = .ok r' := h1'
  rw [componentsAt_dot hopen hform hroom hend, if_neg hb] at h1
  rw [componentsAt_dot hopen hform hroom hend, if_pos rfl] at h1'
  obtain ⟨-, hpath⟩ := finish_eq (h.withBefore b).noJoin h2
  obtain ⟨-, hpath'⟩ := finish_eq (h.withBefore dot).noJoin h2'
  rcases eq_nil_or_concat' names with hnil | ⟨xs, c, hxs⟩
  · rw [if_pos hnil] at h1'
    cases h1'
  · rw [if_neg (by rw [hxs]; simp), hxs, dropLast_concat] at h1'
    rw [hxs] at h1 hform
    rcases @componentsAt_shorter pre hopen 0 _ rest xs [] c false r hform h1 with
      ⟨e, he⟩ | ⟨r2, hr2, -, hlen⟩
    · rw [append_nil, h1'] at he
      cases he
    · rw [append_nil, h1'] at hr2
      cases hr2
      -- the lengths differ
      have hpad : ∀ d : Path, ∀ k : Nat, (d.take k ++ (d.drop k).map env.up).length = d.length := by
        intro d k
        rw [length_append, length_map, ← length_append, take_append_drop]
      have heq := congrArg List.length (hpath.symm.trans hpath')
      have heq : (if r.1.length = 2 then r.1 ++ [backslash] else r.1).length =
          (if r'.1.length = 2 then r'.1 ++ [backslash] else r'.1).length := by
        rw [← hpad _ pre.length, ← hpad (if r'.1.length = 2 then _ else _) pre.length]
        exact heq
      split at heq
      · split at heq
        · omega
        · simp only [length_append] at heq
          omega
      · split at heq
        · simp only [length_append, length_singleton] at heq
          omega
        · omega

/-! ## 5. Two memories -/

/-- What the function returns depends on the string at `p` only, where that string is `src`. -/
def Alone (env : NameMap) (code : CodeEnv) (mode : Mode) (p : UInt16) (src : Path) : Prop :=
  ∀ mem mem' : Memory, nameAt mem p = src → nameAt mem' p = src →
    truenameAt env code mode mem p = truenameAt env code mode mem' p

/-- A segment with the name at `p` and the byte `b` in front of it. -/
def named (src : Path) (b : UInt8) (p : UInt16) : Memory :=
  fun q => if q = p - 1 then b else src.getD (q - p).toNat 0

theorem nameAt_named (hname : ∀ x ∈ src, x ≠ 0) (hlen : src.length < 0xffff) (b : UInt8)
    (p : UInt16) : nameAt (named src b p) p = src := by
  have hat : ∀ i < 0xffff, named src b p (p + UInt16.ofNat i) = src.getD i 0 := by
    intro i hi
    have hsub : p + UInt16.ofNat i - p = UInt16.ofNat i := by
      rw [UInt16.add_comm, UInt16.add_sub_cancel]
    have htoNat : (UInt16.ofNat i).toNat = i :=
      UInt16.toNat_ofNat_of_lt' (show i < UInt16.size from lt_trans hi (by decide))
    have hne : p + UInt16.ofNat i ≠ p - 1 := by
      intro heq
      have h := congrArg (fun q => (q - p).toNat) heq
      simp only [hsub, htoNat] at h
      have h1 : (p - 1 - p).toNat = 0xffff := by
        rw [UInt16.sub_eq_add_neg, UInt16.sub_eq_add_neg, UInt16.add_comm p, UInt16.add_assoc,
          ← UInt16.sub_eq_add_neg p p, UInt16.sub_self]
        rfl
      omega
    rw [named, if_neg hne, hsub, htoNat]
  obtain ⟨k, hk⟩ : ∃ k, 0x10000 = src.length + (k + 1) := ⟨0xffff - src.length, by omega⟩
  have hfront : (List.range src.length).map (fun i => named src b p (p + UInt16.ofNat i)) = src := by
    refine ext_getElem (by simp) fun i h1 h2 => ?_
    rw [getElem_map, getElem_range, hat i (by omega), getD_eq_getElem?_getD,
      getElem?_eq_getElem h2, Option.getD_some]
  rw [nameAt, hk, range_add, map_append, hfront,
    takeWhile_append_of_pos fun x hx => by simpa using hname x hx, map_map,
    range_succ_eq_map, map_cons, takeWhile_cons_of_neg, append_nil]
  have hz := hat src.length hlen
  simp only [Function.comp_apply, add_zero, hz]
  simp

/-- `C:\A` is the current directory. -/
def inA : Cds where
  cdsCurrentPath := [0x43, colon, backslash, 0x41]
  cdsBackslashOffset := 2
  network := false
  mediaOk := true
  dirExists := true

def plainCode : CodeEnv := ⟨fun _ => false, 4, fun _ => false, 5⟩

end SdcBoot.Kernel.Truename
