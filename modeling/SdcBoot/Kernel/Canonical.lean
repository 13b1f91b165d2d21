/-
# `truename`: canonical paths

`truename` of `kernel/newstuff.c` in all its modes.  The path starts with the hidden prefix of the
drive, which SUBST makes longer than the drive letter, and the loop over the components never backs
up into that prefix.  The redirector's answer, the joined drives and the directories are arguments
(`NameMap`); the number that the function returns is in `Kernel/Before.lean`.

What comes out is canonical (`Canonical`): the prefix, and components in 8.3 form behind one
backslash each.  The loop keeps this component by component, also when it takes one off again, and a
`..` for which there is no component left ends it with `DE_PATHNOTFND`.
-/
import SdcBoot.Kernel.Truename
import SdcBoot.Lib.Path

namespace SdcBoot.Kernel.Truename

open Lib List Option

/-! ## 1. The modes -/

/-- The bits `CDS_MODE_SKIP_PHYSICAL`, `CDS_MODE_CHECK_DEV_PATH` and `CDS_MODE_ALLOW_WILDCARDS`. -/
structure Mode where
  skipPhysical : Bool
  checkDevPath : Bool
  allowWildcards : Bool

/-- What `truename` asks of the kernel when it looks through a drive.  `qremote` is the answer of
the redirector if it is not empty, `joined` are the joined drives in order, `before` is the byte in
front of the name.  A drive's number has five bits. -/
structure NameMap extends NameEnv where
  qremote : Path → Option Path
  joined : List (Nat × Path)
  dir_exists : Path → Bool
  before : UInt8
  drive : ∀ {n : Nat} {cds : Cds}, getCds n = some cds → n < 0x20

/-- `while(*--p != '\\') if (p <= rootPos) return DE_PATHNOTFND` -/
def dropComponentAt (rootPos : Nat) : Nat → Path → Except Int Path
  | 0, _ => .error DE_PATHNOTFND
  | n + 1, dest =>
    if dest.getLast? = some backslash then .ok dest.dropLast
    else if dest.length ≤ rootPos + 1 then .error DE_PATHNOTFND
    else dropComponentAt rootPos n dest.dropLast

/-- The loop over the components; `before` is the character in front of the name, which is looked at
when the name begins with a dot and nothing follows that dot. -/
def componentsAt (root : UInt8) (rootPos : Nat) (before : UInt8) :
    Nat → Path → Path → Bool → Except Int (Path × Bool)
  | 0, _, dest, wild => .ok (dest, wild)
  | fuel + 1, src, dest, wild =>
    if src = [] then .ok (dest, wild)
    else if wild then .error DE_PATHNOTFND
    else
      (if dest.getLast? ≠ some root then addChar src dest root else .ok dest).bind fun dest =>
        let name := src.dropWhile isSep
        if name.head? = some dot then
          let twoDots := name.tail.head? == some dot
          let rest := name.drop (if twoDots then 2 else 1)
          if atEnd rest then
            if twoDots || (before == dot && !src.head?.any isSep) then
              (dropComponentAt rootPos dest.length dest.dropLast).bind fun dest =>
                componentsAt root rootPos before fuel rest dest wild
            else componentsAt root rootPos before fuel rest dest.dropLast wild
          else .error (errRet rest)
        else
          (component name dest FNAME_SIZE false wild).bind fun r =>
            componentsAt root rootPos before fuel r.1 r.2.1 r.2.2

/-- Where the loop over the components starts. -/
structure Start where
  root : UInt8
  rootPos : Nat
  before : UInt8
  src : Path
  dest : Path

/-- The current directory of the drive, or the root if it is gone. -/
def currentPath (cds : Cds) : Except Int Path :=
  let cp := cds.cdsCurrentPath.take (MAX_CDSPATH - 1)
  if !cds.network && !cds.mediaOk then .error DE_PATHNOTFND
  else .ok (if cds.network || cds.dirExists then cp else cp.take (cds.cdsBackslashOffset + 1))

/-- From the name behind the drive to the state in which the loop starts. -/
def start (env : NameMap) (mode : Mode) (result : Nat) (cds : Cds) (device : Bool) (before : UInt8)
    (src : Path) : Except Int Start :=
  if device && plainDevice env.toNameEnv src then
    .ok { root := slash, rootPos := 2, before := if getRoot src = src then before else backslash,
          src := getRoot src, dest := driveName result }
  else
    (currentPath cds).bind fun cp =>
      let hidden := if mode.skipPhysical then driveName result else cp.take cds.cdsBackslashOffset
      let absolute := src.head?.any isSep
      let p := if absolute then hidden
        else hidden ++ backslash :: (cp.drop cds.cdsBackslashOffset).tail
      .ok { root := backslash, rootPos := hidden.length,
            before := if absolute then src.headD before else before,
            src := if absolute then src.tail else src,
            -- remove trailing separator
            dest := if p.getLast? = some backslash then p.dropLast else p }

/-- The path on a joined drive: the first one whose path leads `dest`. -/
def join (dest : Path) : List (Nat × Path) → Option Path
  | [] => none
  | (i, path) :: joined =>
    if (dest.drop path.length).head?.all (· == backslash) && path.isPrefixOf dest then
      some (if dest.length = path.length then driveName i ++ [backslash]
        else driveName i ++ dest.drop path.length)
    else join dest joined

/-- What follows the loop. -/
def finish (env : NameMap) (mode : Mode) (device : Bool) (rootPos : Nat) (dest : Path)
    (wild : Bool) : Except Int Path :=
  if wild && !mode.allowWildcards then .error DE_PATHNOTFND
  else
    let dest := if dest.length = 2 then dest ++ [backslash] else dest
    let dest := dest.take rootPos ++ (dest.drop rootPos).map env.up
    let slashed := (dest.drop 2).head? == some slash
    match if slashed || mode.skipPhysical then none else join dest env.joined with
    | some dest => .ok dest
    | none =>
      if mode.checkDevPath && device && !slashed && !env.dir_exists dest then .error DE_PATHNOTFND
      else .ok dest

/-- The drive of a name, whether it is given or not. -/
def driveOf (env : NameEnv) (src : Path) : Nat :=
  if src.tail.head? = some colon then ((env.up (src.headD 0)).toNat + 256 - 0x41) % 256
  else env.defaultDrive

/-- The name behind the drive, if there is one. -/
def behindDrive (src : Path) : Path := if src.tail.head? = some colon then src.drop 2 else src

/-- **`truename`** in the given mode: the path, or the error. -/
def truenameIn (env : NameMap) (mode : Mode) (src : Path) : Except Int Path :=
  if src = [] then .error DE_FILENOTFND
  else if src.take 2 = [backslash, backslash] then
    if src.length ≥ SFTMAX then .error (errRet src) else .ok src
  else
    match env.getCds (driveOf env.toNameEnv src) with
    | none => .error DE_PATHNOTFND
    | some cds =>
      match if mode.skipPhysical then none else env.qremote src with
      | some answer => .ok answer
      | none =>
        (start env mode (driveOf env.toNameEnv src) cds (env.isDevice src)
            (if src.tail.head? = some colon then colon else env.before) (behindDrive src)).bind
          fun s =>
            (componentsAt s.root s.rootPos s.before (s.src.length + 1) s.src s.dest false).bind
              fun r => finish env mode (env.isDevice src && !cds.network) s.rootPos r.1 r.2

/-! ## 2. Canonical paths -/

def question : UInt8 := 0x3f

/-- A character that a component may be made of. -/
def nameChar (x : UInt8) : Bool := DirChar x && !isSep x && x != dot && x != 0x2a

/-- A run of such characters. -/
def Piece (n : Nat) (s : Path) : Prop := s ≠ [] ∧ s.length ≤ n ∧ s.all nameChar = true

/-- A component in 8.3 form. -/
def Name83 (c : Path) : Prop :=
  ∃ name ext, c = name ++ ext ∧ Piece FNAME_SIZE name ∧
    (ext = [] ∨ ∃ e, ext = dot :: e ∧ Piece FEXT_SIZE e)

/-- Components in 8.3 form, of which the last one only may have wildcards, and that only if `wild`
says so. -/
structure Names (wild : Bool) (comps : List Path) : Prop where
  form : ∀ c ∈ comps, Name83 c
  inner : ∀ c ∈ comps.dropLast, question ∉ c
  last : wild = false → ∀ c ∈ comps, question ∉ c

/-- **A canonical path** over a prefix: components behind one backslash each and in capitals, and
possibly a backslash at the end. -/
def Canonical (up : UInt8 → UInt8) (wild : Bool) (hidden path : Path) : Prop :=
  ∃ comps trail, path = hidden ++ render backslash comps ++ trail ∧
    Names wild comps ∧ (∀ c ∈ comps, c.map up = c) ∧
    (trail = [] ∨ trail = [backslash] ∧ Names false comps)

/-! ## 3. Characters -/

variable {before x : UInt8} {n : Nat} {c dest pre s src : Path} {wild : Bool}
  {r : Path × Path × Bool} {comps : List Path} {e : Int}

theorem nameChar_iff :
    nameChar x = true ↔ DirChar x = true ∧ isSep x = false ∧ x ≠ dot ∧ x ≠ 0x2a := by
  simp [nameChar, and_assoc]

theorem nameChar_question : nameChar question = true := by decide

theorem dirChar_dot : DirChar dot = true := by decide

theorem not_nameChar_backslash : ¬ nameChar backslash = true := by decide

theorem nameChar_ne_backslash (h : nameChar x = true) : x ≠ backslash := by
  rintro rfl
  exact not_nameChar_backslash h

theorem Piece.ne_backslash (h : Piece n s) : ∀ x ∈ s, x ≠ backslash :=
  fun x hx => nameChar_ne_backslash (all_eq_true.mp h.2.2 x hx)

theorem Name83.ne_nil (h : Name83 c) : c ≠ [] := by
  obtain ⟨name, ext, rfl, hname, -⟩ := h
  exact append_ne_nil_of_left_ne_nil hname.1 ext

theorem Name83.ne_backslash (h : Name83 c) : ∀ x ∈ c, x ≠ backslash := by
  obtain ⟨name, ext, rfl, hname, hext⟩ := h
  intro x hx
  rcases mem_append.mp hx with hx | hx
  · exact hname.ne_backslash x hx
  · rcases hext with rfl | ⟨e, rfl, he⟩
    · cases hx
    · rcases mem_cons.mp hx with rfl | hx
      · decide
      · exact he.ne_backslash x hx

theorem addChar_ok {d : Path} (h : addChar src dest x = .ok d) : d = dest ++ [x] := by
  unfold addChar at h
  split at h
  · cases h
  · exact (Except.ok.inj h).symm

theorem addChar_eq (h : dest.length < SFTMAX) : addChar src dest x = .ok (dest ++ [x]) := by
  rw [addChar, if_neg (by omega)]

theorem fillWild_ok : ∀ {i : Nat} {dest d : Path}, fillWild src i dest = .ok d →
    d = dest ++ List.replicate i question := by
  intro i
  induction i with
  | zero =>
    intro dest d h
    rw [← Except.ok.inj h, replicate_zero, append_nil]
  | succ i ih =>
    intro dest d h
    obtain ⟨dest', h1, h2⟩ := bind_ok h
    rw [ih h2, addChar_ok h1, append_assoc, replicate_succ]
    rfl

/-! ## 4. One component -/

/-- What the loop over the characters of a component has appended: a part of a name, and then an
extension, of which there may be one already. -/
structure Appended (src dest : Path) (i : Nat) (pneDot wild : Bool) (r : Path × Path × Bool) :
    Prop where
  text : ∃ name ext, r.2.1 = dest ++ (name ++ ext) ∧ name.length ≤ i ∧
    name.all nameChar = true ∧
    (ext = [] ∨ pneDot = false ∧ ∃ e, ext = dot :: e ∧ Piece FEXT_SIZE e) ∧
    (question ∈ name ++ ext → r.2.2 = true) ∧
    (0 < i → ¬ atEnd src = true → src.head? ≠ some dot → name ≠ [])
  rest : atEnd r.1 = true ∧ ∃ w, src = w ++ r.1 ∧ w.all (fun x => !isSep x) = true
  wild : wild = true → r.2.2 = true

theorem atEnd_cons : atEnd (x :: src) = isSep x := by simp [atEnd]

/-- One more character of the name. -/
theorem Appended.cons {i : Nat} {pneDot : Bool} (hsep : isSep x = false)
    (hs : s.all nameChar = true) {w : Bool} (hw : wild = true → w = true)
    (hq : question ∈ s → w = true) (hne : 0 < i → s ≠ []) {j : Nat} (hj : s.length + j ≤ i)
    (h : Appended src (dest ++ s) j pneDot w r) : Appended (x :: src) dest i pneDot wild r := by
  obtain ⟨⟨name, ext, hr, hname, hall, hext, hquestion, -⟩, ⟨hend, v, hv, hvsep⟩, hwild⟩ := h
  refine ⟨⟨s ++ name, ext, ?_, ?_, ?_, hext, ?_, ?_⟩, ⟨hend, x :: v, ?_, ?_⟩, fun h => hwild (hw h)⟩
  · rw [hr]
    simp only [append_assoc]
  · rw [length_append]
    omega
  · rw [all_append, hs, hall]
    rfl
  · intro hmem
    rw [append_assoc] at hmem
    rcases mem_append.mp hmem with hmem | hmem
    · exact hwild (hq hmem)
    · exact hquestion hmem
  · exact fun hi _ _ => append_ne_nil_of_left_ne_nil (hne hi) name
  · rw [hv, cons_append]
  · rw [all_cons, hsep, hvsep]
    rfl

/-- **What one component appends**, whatever the name says. -/
theorem component_ok : ∀ {dest : Path} {i : Nat} {pneDot wild : Bool}
    {r : Path × Path × Bool}, component src dest i pneDot wild = .ok r →
    Appended src dest i pneDot wild r := by
  induction src with
  | nil =>
    intro dest i pneDot wild r h
    cases h
    exact ⟨⟨[], [], by simp, Nat.zero_le _, rfl, .inl rfl, by simp, by simp [atEnd]⟩,
      ⟨rfl, [], rfl, rfl⟩, id⟩
  | cons x src ih =>
    intro dest i pneDot wild r h
    rw [component] at h
    split at h
    · rename_i hsep
      cases h
      exact ⟨⟨[], [], by simp, Nat.zero_le _, rfl, .inl rfl, by simp, by simp [atEnd, hsep]⟩,
        ⟨by simp [atEnd, hsep], [], rfl, rfl⟩, id⟩
    rename_i hsep
    rw [Bool.not_eq_true] at hsep
    split at h
    · -- `*` fills the room that is left with question marks
      obtain ⟨d, h1, h2⟩ := bind_ok h
      rw [fillWild_ok h1] at h2
      refine Appended.cons hsep (s := List.replicate i question) ?_ (fun _ => rfl)
        (fun _ => rfl) (fun hi => ?_) (j := 0) (by simp) (ih h2)
      · simp [nameChar_question]
      · rw [ne_eq, replicate_eq_nil_iff]
        omega
    rename_i hstar
    split at h
    · rename_i hdot
      split at h
      · cases h
      rename_i hpne
      rw [Bool.not_eq_true] at hpne
      split at h
      · -- a dot at the end is stripped
        rename_i hend
        cases h
        exact ⟨⟨[], [], by simp, Nat.zero_le _, rfl, .inl rfl, by simp, by simp [hdot]⟩,
          ⟨hend, [x], rfl, by simp [hsep]⟩, id⟩
      rename_i hend
      split at h
      · cases h
      obtain ⟨d, h1, h2⟩ := bind_ok h
      rw [addChar_ok h1] at h2
      obtain ⟨⟨name, ext, hr, hname, hall, hext, hquestion, hnonempty⟩, ⟨hrest, v, hv, hvsep⟩,
        hwild⟩ := ih h2
      obtain rfl : ext = [] := by
        rcases hext with hext | ⟨hfalse, -⟩
        · exact hext
        · cases hfalse
      rw [append_nil] at hr hquestion
      have hne : name ≠ [] := by
        refine hnonempty (by decide) hend ?_
        intro hhead
        -- a second dot is an error
        cases src with
        | nil => cases hhead
        | cons y src =>
          cases hhead
          rw [component, if_neg (by decide), if_neg (by decide), if_pos rfl, if_pos rfl] at h2
          cases h2
      refine ⟨⟨[], dot :: name, ?_, Nat.zero_le _, rfl, .inr ⟨hpne, name, rfl, hne, hname, hall⟩,
        ?_, by simp [hdot]⟩, ⟨hrest, x :: v, by rw [hv]; rfl, by simp [hsep, hvsep]⟩, hwild⟩
      · rw [hr, hdot]
        simp
      · intro hmem
        rcases mem_cons.mp hmem with hmem | hmem
        · exact absurd hmem (by decide)
        · exact hquestion hmem
    rename_i hdot
    split at h
    · -- no room is left
      rename_i hi
      refine Appended.cons hsep (s := []) (w := wild || x == question) rfl
        (fun hw => by simp [hw]) (fun h => absurd h not_mem_nil) (fun hpos => by omega) (j := i)
        (by simp) ?_
      rw [append_nil]
      exact ih h
    rename_i hi
    split at h
    · cases h
    rename_i hdir
    obtain ⟨d, h1, h2⟩ := bind_ok h
    rw [addChar_ok h1] at h2
    have hx : nameChar x = true := nameChar_iff.mpr ⟨by simpa using hdir, hsep, hdot, hstar⟩
    refine Appended.cons hsep (s := [x]) (w := wild || x == question)
      (by simpa using hx) (fun hw => by simp [hw]) ?_ (fun _ => cons_ne_nil x []) (j := i - 1)
      (by simp only [length_singleton]; omega) (ih h2)
    intro hmem
    simp only [mem_singleton] at hmem
    simp [← hmem, question]

/-- A whole component. -/
theorem component_name (hsrc : ¬ atEnd src = true) (hdot : src.head? ≠ some dot)
    (h : component src dest FNAME_SIZE false false = .ok r) :
    ∃ c, r.2.1 = dest ++ c ∧ Name83 c ∧ (question ∈ c → r.2.2 = true) := by
  obtain ⟨⟨name, ext, hr, hname, hall, hext, hquestion, hne⟩, -, -⟩ := component_ok h
  refine ⟨name ++ ext, hr, ⟨name, ext, rfl, ⟨hne (by decide) hsrc hdot, hname, hall⟩, ?_⟩,
    hquestion⟩
  rcases hext with rfl | ⟨-, hext⟩
  · exact .inl rfl
  · exact .inr hext

/-! ## 5. The loop over the components -/

/-- A path to which components can be appended: it does not end in a backslash. -/
def Open (dest : Path) : Prop := dest.getLast? ≠ some backslash

theorem open_append (hne : s ≠ []) (h : ∀ x ∈ s, x ≠ backslash) : Open (pre ++ s) := by
  intro hlast
  rw [getLast?_append_of_ne_nil pre hne] at hlast
  exact h _ (mem_of_getLast? hlast) rfl

theorem open_render {pre : Path} (hpre : Open pre) : ∀ {comps : List Path},
    (∀ c ∈ comps, Name83 c) → Open (pre ++ render backslash comps) := by
  intro comps
  induction comps using List.reverseRecOn with
  | nil => exact fun _ => by simpa using hpre
  | append_singleton comps c _ =>
    intro h
    have hc : Name83 c := h c (by simp)
    have heq : pre ++ render backslash (comps ++ [c]) =
        (pre ++ render backslash comps ++ [backslash]) ++ c := by simp
    rw [heq]
    exact open_append hc.ne_nil hc.ne_backslash

variable {fuel rootPos : Nat} {root : UInt8} {w : Path}

/-- Taking the last component off takes off exactly one. -/
theorem dropComponentAt_name {q : Path} (hq : rootPos ≤ q.length) :
    ∀ {c : Path} {n : Nat}, (∀ x ∈ c, x ≠ backslash) → c.length < n →
      dropComponentAt rootPos n (q ++ backslash :: c) = .ok q := by
  intro c
  induction c using List.reverseRecOn with
  | nil =>
    intro n _ hn
    obtain ⟨n, rfl⟩ := Nat.exists_eq_succ_of_ne_zero (by omega : n ≠ 0)
    rw [dropComponentAt, if_pos (by simp), dropLast_concat]
  | append_singleton c x ih =>
    intro n hc hn
    rw [length_append, length_singleton] at hn
    obtain ⟨n, rfl⟩ := Nat.exists_eq_succ_of_ne_zero (by omega : n ≠ 0)
    have heq : q ++ backslash :: (c ++ [x]) = (q ++ backslash :: c) ++ [x] := by simp
    rw [heq, dropComponentAt, if_neg ?_, if_neg ?_, dropLast_concat]
    · exact ih (fun y hy => hc y (by simp [hy])) (by omega)
    · simp only [length_append, length_cons]
      omega
    · rw [getLast?_append_of_ne_nil _ (cons_ne_nil x []), getLast?_singleton]
      exact fun h => hc x (by simp) (some.inj h)

/-- Above the prefix there is nothing to take off. -/
theorem dropComponentAt_top (hpre : Open pre) :
    dropComponentAt pre.length n pre = .error DE_PATHNOTFND := by
  cases n with
  | zero => rfl
  | succ n => rw [dropComponentAt, if_neg hpre, if_pos (Nat.le_succ _)]

theorem dropComponentAt_render (hpre : Open pre) (h : ∀ c ∈ comps, Name83 c)
    (hn : (pre ++ render backslash comps).length < n) :
    dropComponentAt pre.length n (pre ++ render backslash comps) =
      if comps = [] then .error DE_PATHNOTFND
      else .ok (pre ++ render backslash comps.dropLast) := by
  induction comps using List.reverseRecOn with
  | nil =>
    rw [if_pos rfl, render_nil, append_nil]
    exact dropComponentAt_top hpre
  | append_singleton comps c _ =>
    rw [if_neg (by simp), dropLast_concat]
    have heq : pre ++ render backslash (comps ++ [c]) =
        (pre ++ render backslash comps) ++ backslash :: c := by simp
    rw [heq] at hn ⊢
    refine dropComponentAt_name (by simp) (h c (by simp)).ne_backslash ?_
    rw [length_append, length_cons] at hn
    omega

theorem componentsAt_nil :
    ∀ fuel, componentsAt root rootPos before fuel [] dest wild = .ok (dest, wild)
  | 0 => rfl
  | fuel + 1 => by rw [componentsAt, if_pos rfl]

theorem Names.append {wild : Bool} {comps : List Path} {c : Path} (h : Names false comps)
    (hc : Name83 c) (hw : wild = false → question ∉ c) : Names wild (comps ++ [c]) := by
  refine ⟨?_, ?_, ?_⟩
  · intro d hd
    rcases mem_append.mp hd with hd | hd
    · exact h.form d hd
    · rw [mem_singleton.mp hd]
      exact hc
  · rw [dropLast_concat]
    exact h.last rfl
  · intro hwild d hd
    rcases mem_append.mp hd with hd | hd
    · exact h.last rfl d hd
    · rw [mem_singleton.mp hd]
      exact hw hwild

theorem Names.dropLast (h : Names false comps) :
    Names false comps.dropLast where
  form c hc := h.form c (dropLast_subset comps hc)
  inner c hc := h.inner c (dropLast_subset _ hc)
  last _ c hc := h.last rfl c (dropLast_subset comps hc)

theorem not_atEnd_dropWhile (h : src.dropWhile isSep ≠ []) :
    ¬ atEnd (src.dropWhile isSep) = true := by
  have hx := head?_dropWhile_not isSep src
  cases heq : src.dropWhile isSep with
  | nil => exact absurd heq h
  | cons x name =>
    rw [heq] at hx
    rw [atEnd_cons]
    simpa using hx

/-- What the loop has in its hands when it is done. -/
def Built (pre : Path) (r : Path × Bool) : Prop :=
  ∃ comps trail, r.1 = pre ++ render backslash comps ++ trail ∧ Names r.2 comps ∧
    (trail = [] ∨ trail = [backslash] ∧ Names false comps)

/-- **The loop builds canonical paths.** -/
theorem componentsAt_built (hpre : Open pre) :
    ∀ {fuel : Nat} {src : Path} {comps : List Path} {wild : Bool} {r : Path × Bool},
      Names wild comps →
      componentsAt backslash pre.length before fuel src (pre ++ render backslash comps) wild =
        .ok r → Built pre r := by
  intro fuel
  induction fuel with
  | zero =>
    intro src comps wild r hnames h
    cases h
    exact ⟨comps, [], by simp, hnames, .inl rfl⟩
  | succ fuel ih =>
    intro src comps wild r hnames h
    rw [componentsAt] at h
    split at h
    · cases h
      exact ⟨comps, [], by simp, hnames, .inl rfl⟩
    split at h
    · cases h
    rename_i hwild
    rw [Bool.not_eq_true] at hwild
    subst hwild
    obtain ⟨d, h1, h2⟩ := bind_ok h
    have hopen : (pre ++ render backslash comps).getLast? ≠ some backslash :=
      open_render hpre hnames.form
    rw [if_pos hopen] at h1
    rw [addChar_ok h1] at h2
    extract_lets name twoDots rest at h2
    rw [dropLast_concat] at h2
    split at h2
    · split at h2
      · split at h2
        · obtain ⟨d', h3, h4⟩ := bind_ok h2
          rw [dropComponentAt_render hpre hnames.form (by simp)] at h3
          split at h3
          · cases h3
          · cases h3
            exact ih hnames.dropLast h4
        · exact ih hnames h2
      · cases h2
    rename_i hdot
    obtain ⟨r', h3, h4⟩ := bind_ok h2
    by_cases hend : name = []
    · -- the separator at the end of the name
      rw [hend, component] at h3
      cases h3
      rw [componentsAt_nil] at h4
      cases h4
      exact ⟨comps, [backslash], by simp, hnames, .inr ⟨rfl, hnames⟩⟩
    · obtain ⟨c, hd', hc, hw⟩ := component_name (not_atEnd_dropWhile hend) hdot h3
      have heq : r'.2.1 = pre ++ render backslash (comps ++ [c]) := by
        rw [hd']
        simp
      rw [heq] at h4
      refine ih (hnames.append hc fun hfalse hmem => ?_) h4
      rw [hw hmem] at hfalse
      cases hfalse

/-! ## 6. Going up -/

/-- The components of a name, as they are written. -/
def words : Path → List Path
  | [] => []
  | x :: src =>
    if isSep x then words src
    else if atEnd src then [x] :: words src
    else
      match words src with
      | [] => [[x]]
      | w :: ws => (x :: w) :: ws

/-- What a component does: a dot stays, two dots go up. -/
def stepOf (w : Path) : PathStep Path :=
  if w = [dot] then .stay else if w = [dot, dot] then .up else .into w

/-- The steps that a name takes.  A dot at its start goes up if a dot stands in front of the
name. -/
def steps (before : UInt8) (src : Path) : List (PathStep Path) :=
  match words src with
  | [] => []
  | w :: ws =>
    (if w = [dot] ∧ before = dot ∧ src.head?.any isSep = false then .up else stepOf w) ::
      ws.map stepOf

theorem words_append : ∀ {w rest : Path}, w ≠ [] → w.all (fun x => !isSep x) = true →
    atEnd rest = true → words (w ++ rest) = w :: words rest
  | [x], rest, _, hw, hrest => by
    have hx : isSep x = false := by simpa using hw
    rw [singleton_append, words, if_neg (by simp [hx]), if_pos hrest]
  | x :: y :: w, rest, _, hw, hrest => by
    rw [all_cons, Bool.and_eq_true] at hw
    have hx : isSep x = false := by simpa using hw.1
    have hy : isSep y = false := by simpa using (all_eq_true.mp hw.2 y mem_cons_self)
    have ih := @words_append (y :: w) rest (cons_ne_nil y w) hw.2 hrest
    rw [cons_append, words, if_neg (by simp [hx]), if_neg (by simp [atEnd, hy]), ih]

theorem words_dropWhile : ∀ src : Path, words (src.dropWhile isSep) = words src
  | [] => rfl
  | x :: src => by
    cases hx : isSep x with
    | true => rw [dropWhile_cons_of_pos hx, words_dropWhile src, words, if_pos hx]
    | false => rw [dropWhile_cons_of_neg (by simp [hx])]

theorem words_eq_nil (h : src.dropWhile isSep = []) : words src = [] := by
  rw [← words_dropWhile, h]
  rfl

/-- A name whose rest goes up has a separator in it. -/
theorem any_of_climbs (hend : atEnd src = true)
    (h : climbs n ((words src).map stepOf) = true) : src.any isSep = true := by
  cases src with
  | nil => simp [words] at h
  | cons x src =>
    rw [atEnd_cons] at hend
    rw [any_cons, hend, Bool.true_or]

theorem errRet_of_any (h : src.any isSep = true) : errRet src = DE_PATHNOTFND := by
  rw [errRet, if_pos h]

theorem addChar_error (h : addChar src dest x = .error e) : e = errRet src := by
  unfold addChar at h
  split at h
  · exact (Except.error.inj h).symm
  · cases h

theorem bind_error {α β : Type} {p : Except Int α} {f : α → Except Int β}
    (h : p.bind f = .error e) : p = .error e ∨ ∃ x, p = .ok x ∧ f x = .error e := by
  cases p with
  | error e' =>
    rw [Except.error.inj h]
    exact .inl rfl
  | ok x => exact .inr ⟨x, rfl, h⟩

theorem fillWild_error : ∀ {i : Nat} {dest : Path},
    fillWild src i dest = .error e → e = errRet src := by
  intro i
  induction i with
  | zero =>
    intro dest h
    cases h
  | succ i ih =>
    intro dest h
    rcases bind_error h with h | ⟨d, -, h⟩
    · exact addChar_error h
    · exact ih h

/-- In front of a separator an ill-formed component is a path that is not found. -/
theorem component_error : ∀ {dest : Path} {i : Nat} {pneDot wild : Bool},
    src.any isSep = true → component src dest i pneDot wild = .error e → e = DE_PATHNOTFND := by
  induction src with
  | nil =>
    intro dest i pneDot wild hany
    cases hany
  | cons x src ih =>
    intro dest i pneDot wild hany h
    rw [component] at h
    split at h
    · cases h
    rename_i hsep
    rw [any_cons, Bool.eq_false_of_not_eq_true hsep, Bool.false_or] at hany
    have herr := errRet_of_any hany
    split at h
    · rcases bind_error h with h | ⟨d, -, h⟩
      · rw [fillWild_error h, herr]
      · exact ih hany h
    split at h
    · split at h
      · rw [← Except.error.inj h, herr]
      split at h
      · cases h
      split at h
      · rw [← Except.error.inj h, herr]
      · rcases bind_error h with h | ⟨d, -, h⟩
        · rw [addChar_error h, herr]
        · exact ih hany h
    split at h
    · exact ih hany h
    split at h
    · rw [← Except.error.inj h, herr]
    · rcases bind_error h with h | ⟨d, -, h⟩
      · rw [addChar_error h, herr]
      · exact ih hany h

theorem steps_atEnd (h : atEnd src = true) : steps before src = (words src).map stepOf := by
  cases src with
  | nil => rfl
  | cons x src =>
    rw [atEnd_cons] at h
    unfold steps
    split
    · rename_i heq
      rw [heq]
      rfl
    · rename_i w ws heq
      rw [heq, if_neg (by simp [h])]
      rfl

theorem stepOf_into (h : w.head? ≠ some dot) : stepOf w = .into w := by
  rw [stepOf, if_neg (by rintro rfl; exact h rfl), if_neg (by rintro rfl; exact h rfl)]

variable {before : UInt8}

/-- A name in two parts: a word, and what stands behind it. -/
theorem steps_append {src w rest : Path} (hsrc : src.dropWhile isSep = w ++ rest)
    (hne : w ≠ []) (hw : w.all (fun x => !isSep x) = true) (hrest : atEnd rest = true) :
    steps before src =
      (if w = [dot] ∧ before = dot ∧ src.head?.any isSep = false then .up else stepOf w) ::
        (words rest).map stepOf := by
  have heq : words src = w :: words rest := by
    rw [← words_dropWhile, hsrc, words_append hne hw hrest]
  unfold steps
  rw [heq]

def inWord (x : UInt8) : Bool := !isSep x

theorem atEnd_dropWhile (src : Path) : atEnd (src.dropWhile inWord) = true := by
  have hx := head?_dropWhile_not inWord src
  cases heq : src.dropWhile inWord with
  | nil => rfl
  | cons x rest =>
    rw [heq] at hx
    rw [atEnd_cons]
    simpa [inWord] using hx

theorem takeWhile_ne_nil (h : ¬ atEnd src = true) : src.takeWhile inWord ≠ [] := by
  cases src with
  | nil => exact absurd rfl h
  | cons x src =>
    rw [atEnd_cons, Bool.not_eq_true] at h
    rw [takeWhile_cons_of_pos (by simp [inWord, h])]
    exact cons_ne_nil _ _

/-- A name that goes up and does not begin with a dot or two has a separator in it. -/
theorem any_of_steps {src dots rest : Path} {n : Nat}
    (hsrc : src.dropWhile isSep = dots ++ rest) (hdots : dots.all inWord = true)
    (hrest : ¬ atEnd rest = true)
    (hinto : stepOf (dots ++ rest.takeWhile inWord) = .into (dots ++ rest.takeWhile inWord))
    (h : climbs n (steps before src) = true) : rest.any isSep = true := by
  have htake : (rest.takeWhile inWord).all inWord = true := all_takeWhile
  have hne := takeWhile_ne_nil hrest
  have hsplit : rest = rest.takeWhile inWord ++ rest.dropWhile inWord :=
    takeWhile_append_dropWhile.symm
  have hsteps := @steps_append before src (dots ++ rest.takeWhile inWord) (rest.dropWhile inWord)
    (by rw [hsrc, append_assoc, ← hsplit]) (append_ne_nil_of_right_ne_nil dots hne)
    (by rw [all_append]; exact Bool.and_eq_true_iff.mpr ⟨hdots, htake⟩)
    (atEnd_dropWhile rest)
  have hword : dots ++ rest.takeWhile inWord ≠ [dot] := by
    intro heq
    rw [heq] at hinto
    cases hinto
  rw [hsteps, if_neg (fun h => hword h.1), hinto, climbs_into] at h
  rw [hsplit, any_append, any_of_climbs (atEnd_dropWhile rest) h, Bool.or_true]

/-- The loop answers, with less fuel, that a name which goes up above the prefix is not found. -/
def ClimbsOut (pre : Path) (before : UInt8) (fuel : Nat) : Prop :=
  ∀ {src : Path} {comps : List Path} {wild : Bool}, Names wild comps → src.length < fuel →
    ((pre ++ render backslash comps).length < SFTMAX ∨ src.any isSep = true) →
    climbs comps.length (steps before src) = true →
    componentsAt backslash pre.length before fuel src (pre ++ render backslash comps) wild =
      .error DE_PATHNOTFND

/-- What is left to do when a word is taken. -/
theorem ClimbsOut.next {pre : Path} {fuel : Nat} (ih : ClimbsOut pre before fuel)
    {src w rest : Path} {comps : List Path} {wild : Bool} (hfuel : src.length < fuel + 1)
    (hw : w ≠ []) (hdrop : src.dropWhile isSep = w ++ rest) (hend : atEnd rest = true)
    (hnames : Names wild comps) (hclimbs : climbs comps.length ((words rest).map stepOf) = true) :
    componentsAt backslash pre.length before fuel rest (pre ++ render backslash comps) wild =
      .error DE_PATHNOTFND := by
  have hlen : (src.dropWhile isSep).length ≤ src.length :=
    (dropWhile_suffix isSep).length_le
  have hwlen := length_pos_iff.mpr hw
  have hsum := congrArg List.length hdrop
  rw [length_append] at hsum
  refine ih hnames (by omega) (.inr (any_of_climbs hend hclimbs)) ?_
  rw [steps_atEnd hend]
  exact hclimbs

/-- What is left to do when the last component is taken off. -/
theorem ClimbsOut.up (ih : ClimbsOut pre before fuel) (hpre : Open pre) {rest : Path}
    (hfuel : src.length < fuel + 1) (hw : w ≠ []) (hdrop : src.dropWhile isSep = w ++ rest)
    (hend : atEnd rest = true) (hnames : Names false comps)
    (hn : (pre ++ render backslash comps).length < n)
    (hclimbs : climbs comps.length (.up :: (words rest).map stepOf) = true) :
    ((dropComponentAt pre.length n (pre ++ render backslash comps)).bind fun dest =>
      componentsAt backslash pre.length before fuel rest dest false) = .error DE_PATHNOTFND := by
  rw [dropComponentAt_render hpre hnames.form hn]
  rcases eq_nil_or_concat' comps with rfl | ⟨comps, c, rfl⟩
  · rfl
  · rw [if_neg (by simp), dropLast_concat]
    have hcomps := hnames.dropLast
    rw [dropLast_concat] at hcomps
    rw [length_append, length_singleton] at hclimbs
    exact ih.next hfuel hw hdrop hend hcomps hclimbs

/-- **A name that goes up above the prefix is not found.**  Whatever goes wrong before it gets that
far, the rest of the name makes it the same error. -/
theorem componentsAt_climbs (hpre : Open pre) : ClimbsOut pre before fuel := by
  induction fuel with
  | zero => exact fun _ h => absurd h (Nat.not_lt_zero _)
  | succ fuel ih =>
    intro src comps wild hnames hfuel hroom hclimbs
    have hsrc : src ≠ [] := by
      rintro rfl
      cases hclimbs
    rw [componentsAt, if_neg hsrc]
    split
    · rfl
    rename_i hwild
    rw [Bool.not_eq_true] at hwild
    subst hwild
    have hopen : (pre ++ render backslash comps).getLast? ≠ some backslash :=
      open_render hpre hnames.form
    rw [if_pos hopen]
    cases hadd : addChar src (pre ++ render backslash comps) backslash with
    | error e =>
      have hany : src.any isSep = true := by
        rcases hroom with hroom | hroom
        · rw [addChar_eq hroom] at hadd
          cases hadd
        · exact hroom
      rw [addChar_error hadd, errRet_of_any hany]
      rfl
    | ok d =>
      rw [addChar_ok hadd]
      have hname : src.dropWhile isSep ≠ [] := by
        intro hnil
        rw [steps, words_eq_nil hnil] at hclimbs
        cases hclimbs
      have hnot := not_atEnd_dropWhile hname
      have hbig : (pre ++ render backslash comps).length <
          (pre ++ render backslash comps ++ [backslash]).length := by simp
      rw [Except.bind]
      simp only [dropLast_concat]
      split
      · rename_i hdot
        obtain ⟨more, hmore⟩ : ∃ more, src.dropWhile isSep = dot :: more := by
          cases heq : src.dropWhile isSep with
          | nil => exact absurd heq hname
          | cons x more =>
            rw [heq] at hdot
            exact ⟨more, by rw [some.inj hdot]⟩
        rw [hmore]
        by_cases htwo : more.head? = some dot
        · -- two dots
          obtain ⟨more, rfl⟩ : ∃ more', more = dot :: more' := by
            cases more with
            | nil => cases htwo
            | cons x more => exact ⟨more, by rw [some.inj htwo]⟩
          simp only [tail_cons, head?_cons, beq_self_eq_true, if_true, drop_succ_cons,
            drop_zero, Bool.true_or]
          split
          · rename_i hend
            rw [@steps_append before src [dot, dot] more hmore (cons_ne_nil _ _) rfl hend,
              if_neg (by simp), show stepOf [dot, dot] = .up from rfl] at hclimbs
            exact ih.up hpre (w := [dot, dot]) hfuel (cons_ne_nil _ _) hmore hend hnames hbig
              hclimbs
          · rename_i hend
            have hne := takeWhile_ne_nil hend
            have hany := @any_of_steps before src [dot, dot] more comps.length hmore rfl hend
              (by simp [stepOf, hne]) hclimbs
            rw [errRet_of_any hany]
        · -- one dot
          simp only [tail_cons, beq_iff_eq, htwo, if_false, drop_succ_cons, drop_zero]
          split
          · rename_i hend
            rw [@steps_append before src [dot] more hmore (cons_ne_nil _ _) rfl hend] at hclimbs
            by_cases hbefore : before = dot ∧ src.head?.any isSep = false
            · rw [if_pos ⟨rfl, hbefore⟩] at hclimbs
              rw [if_pos (by simp [hbefore.1, hbefore.2])]
              exact ih.up hpre (w := [dot]) hfuel (cons_ne_nil _ _) hmore hend hnames hbig hclimbs
            · rw [if_neg (fun h => hbefore h.2), show stepOf [dot] = .stay from rfl,
                climbs_stay] at hclimbs
              rw [if_neg (by simpa [htwo] using hbefore)]
              exact ih.next (w := [dot]) hfuel (cons_ne_nil _ _) hmore hend hnames hclimbs
          · rename_i hend
            have hany := @any_of_steps before src [dot] more comps.length hmore rfl hend
              ?_ hclimbs
            · rw [errRet_of_any hany]
            · cases more with
              | nil => exact absurd rfl hend
              | cons x more =>
                have hx : x ≠ dot := fun h => htwo (by rw [h]; rfl)
                rw [atEnd_cons, Bool.not_eq_true] at hend
                rw [takeWhile_cons_of_pos (by simp [inWord, hend])]
                simp [stepOf, hx]
      · rename_i hdot
        cases hcomp : component (src.dropWhile isSep) (pre ++ render backslash comps ++ [backslash])
            FNAME_SIZE false false with
        | error e =>
          have hany := @any_of_steps before src [] (src.dropWhile isSep) comps.length rfl rfl hnot
            (stepOf_into ?_) hclimbs
          · rw [component_error hany hcomp]
            rfl
          · cases heq : src.dropWhile isSep with
            | nil => exact absurd heq hname
            | cons x name =>
              rw [heq] at hdot hnot
              rw [atEnd_cons, Bool.not_eq_true] at hnot
              rw [nil_append, takeWhile_cons_of_pos (by simp [inWord, hnot])]
              exact hdot
        | ok r =>
          obtain ⟨c, hd, hc, hw⟩ := component_name hnot hdot hcomp
          obtain ⟨-, ⟨hend, v, hv, hvsep⟩, -⟩ := component_ok hcomp
          have hvne : v ≠ [] := by
            rintro rfl
            rw [hv] at hnot
            exact hnot hend
          have hvdot : v.head? ≠ some dot := by
            rw [hv, head?_append_of_ne_nil v hvne] at hdot
            exact hdot
          rw [@steps_append before src v r.1 hv hvne hvsep hend,
            if_neg (fun h => hvdot (by rw [h.1]; rfl)), stepOf_into hvdot, climbs_into] at hclimbs
          have heq : r.2.1 = pre ++ render backslash (comps ++ [c]) := by
            rw [hd]
            simp
          have hnames' : Names r.2.2 (comps ++ [c]) := hnames.append hc fun hfalse hmem => by
            rw [hw hmem] at hfalse
            cases hfalse
          change componentsAt backslash pre.length before fuel r.1 r.2.1 r.2.2 = _
          rw [heq]
          refine ih.next hfuel hvne hv hend hnames' ?_
          rw [length_append, length_singleton]
          exact hclimbs

theorem slash_ne_dot (h : isSep x = true) : x ≠ dot := by
  rintro rfl
  cases h

end SdcBoot.Kernel.Truename
