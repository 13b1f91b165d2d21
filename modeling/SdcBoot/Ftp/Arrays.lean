/-
# The arrays of a path

`normalizeDir` and `convertToDosPath` leave the lengths to their callers, and each caller has a limit
of its own.  `readNames` is the main loop of `normalizeDir` over what stands between the slashes;
with it, `normalizeDir_overrun_iff` says for which paths the NUL of a component has no place in `tmp`,
and `convertToDosPath_overrun_iff` for which `rc` is too short.  All other writes of the two are
inside.
-/
import SdcBoot.Ftp.Bounds
import SdcBoot.Ftp.Output

namespace SdcBoot.Ftp

open Lib List

/-! ## 1. The main loop over components -/

section

variable {α : Type} {a : α} {rc : Nat}

theorem Outcome.ok_ne_overrun : Outcome.ok a ≠ .overrun := nofun

theorem Outcome.error_ne_overrun : (Outcome.error rc : Outcome α) ≠ .overrun := nofun

theorem Outcome.error_ne_ok : Outcome.error rc ≠ .ok a := nofun

theorem Outcome.overrun_ne_ok : Outcome.overrun ≠ .ok a := nofun

end

/-- The main loop of `normalizeDir`. -/
def readNames : List CStr → List CStr → Outcome (List CStr)
  | stack, [] => .ok stack
  | stack, c :: names =>
    if c = [] then if names = [] ∨ names = [[]] then .ok stack else .error 1
    else if 13 < c.length then .error 1
    else (pushComponent stack c).bind fun stack => readNames stack names

/-- These names are taken one after the other, and the stack does not get twenty. -/
inductive Accepts : List CStr → List CStr → List CStr → Prop where
  | nil {stack : List CStr} : Accepts stack [] stack
  | cons {stack names out : List CStr} {c : CStr} (hvalid : isValidDosFilename c = true)
      (hdepth : (stackWith stack c).length ≠ 20) (h : Accepts (stackWith stack c) names out) :
      Accepts stack (c :: names) out

theorem splitOn_head {u : CStr} (hu : slash ∉ u) (rest : CStr) :
    ∃ head tail, (u ++ rest).splitOn slash = (u ++ head) :: tail := by
  by_cases hmem : slash ∈ rest
  · obtain ⟨as, bs, rfl, has⟩ := eq_append_cons_of_mem hmem
    have hfirst : slash ∉ u ++ as := by simp [hu, has]
    refine ⟨as, bs.splitOn slash, ?_⟩
    rw [← append_assoc, splitOn_append_cons_self, splitOn_eq_singleton hfirst]
    rfl
  · exact ⟨rest, [], splitOn_eq_singleton (by simp [hu, hmem])⟩

theorem splitOn_eq_empty {rest : CStr} :
    (rest.splitOn slash = [] ∨ rest.splitOn slash = [[]]) ↔ rest = [] := by
  constructor
  · intro h
    cases rest with
    | nil => rfl
    | cons x rest =>
      by_cases hx : x = slash
      · subst hx
        have hsplit := splitOn_append_cons_self (a := slash) [] rest
        rw [nil_append] at hsplit
        obtain ⟨head, tail, htail⟩ := splitOn_head (u := []) (by simp) rest
        rw [nil_append] at htail
        rw [hsplit, htail] at h
        simp at h
      · obtain ⟨head, tail, hsplit⟩ := splitOn_head (u := [x]) (by simp [Ne.symm hx]) rest
        rw [singleton_append] at hsplit
        rw [hsplit] at h
        simp at h
  · rintro rfl
    exact .inr (splitOn_nil slash)

/-- Character by character, or component by component. -/
theorem readComponents_eq {buffer : CStr} : ∀ {stack : List CStr} {tmp : CStr}, slash ∉ tmp →
    tmp.length ≤ 13 →
    readComponents stack tmp buffer = readNames stack ((tmp ++ buffer).splitOn slash) := by
  induction buffer with
  | nil =>
    intro stack tmp hslash hlen
    rw [append_nil, splitOn_eq_singleton hslash, readComponents, readNames]
    split
    · rw [if_pos (.inl rfl)]
    · rw [if_neg (by omega)]
      cases pushComponent stack tmp <;> rfl
  | cons x buffer ih =>
    intro stack tmp hslash hlen
    rw [readComponents]
    by_cases hx : x = slash
    · subst hx
      rw [if_pos rfl, splitOn_append_cons_self, splitOn_eq_singleton hslash,
        singleton_append, readNames]
      by_cases hempty : tmp = []
      · rw [if_pos hempty, if_pos hempty]
        exact if_congr splitOn_eq_empty.symm rfl rfl
      · rw [if_neg hempty, if_neg hempty, if_neg (by omega)]
        have hrest : ∀ stack, readComponents stack [] buffer =
            readNames stack (buffer.splitOn slash) := by
          intro stack
          simpa using @ih stack [] (by simp) (by simp)
        simp only [hrest]
    · have hslash' : slash ∉ tmp ++ [x] := by simp [hslash, Ne.symm hx]
      have happend : tmp ++ x :: buffer = tmp ++ [x] ++ buffer := by simp
      rw [if_neg hx, happend]
      split
      · obtain ⟨head, tail, hsplit⟩ := splitOn_head hslash' buffer
        rw [hsplit, readNames, if_neg (by simp), if_pos]
        simp only [length_append, length_singleton]
        omega
      · exact ih hslash' (by simp only [length_append, length_singleton]; omega)

/-! ## 2. What becomes of a path -/

theorem valid_length {c : CStr} (h : isValidDosFilename c = true) : c ≠ [] ∧ c.length ≤ 12 := by
  by_cases hdot : c = dot
  · rw [hdot]
    decide
  · by_cases hdd : c = dotDot
    · rw [hdd]
      decide
    · have hcomponent : Component c := ⟨h, hdot, hdd⟩
      exact ⟨hcomponent.plain.1, hcomponent.length_le⟩

/-- A component of thirteen characters is come to, past names that are all taken. -/
def Thirteen (components : List CStr) : Prop :=
  ∃ names c rest out, components = names ++ c :: rest ∧ Accepts [] names out ∧ c.length = 13

/-- The names of a path, without the slashes it may end with, are taken and leave this place. -/
def Leads (components : List CStr) (place : List CStr) : Prop :=
  ∃ names tail, components = names ++ tail ∧ (tail = [] ∨ tail = [[]] ∨ tail = [[], []]) ∧
    Accepts [] names place

variable {component components : List CStr}

theorem readNames_overrun_iff : ∀ {stack : List CStr},
    readNames stack components = .overrun ↔
      ∃ names c rest out, components = names ++ c :: rest ∧ Accepts stack names out ∧
        c.length = 13 := by
  induction components with
  | nil =>
    intro stack
    refine iff_of_false (by simp [readNames]) ?_
    rintro ⟨names, c, rest, out, heq, -⟩
    simp at heq
  | cons c components ih =>
    intro stack
    -- the first name is not the one, so it is taken
    have hfirst : c.length ≠ 13 → ((∃ names c' rest out, c :: components = names ++ c' :: rest ∧
        Accepts stack names out ∧ c'.length = 13) ↔
        isValidDosFilename c = true ∧ (stackWith stack c).length ≠ 20 ∧
          ∃ names c' rest out, components = names ++ c' :: rest ∧
            Accepts (stackWith stack c) names out ∧ c'.length = 13) := by
      intro hne
      constructor
      · rintro ⟨names, c', rest, out, heq, haccepts, hlen⟩
        cases haccepts with
        | nil =>
          cases heq
          exact absurd hlen hne
        | cons hvalid hdepth haccepts =>
          cases heq
          exact ⟨hvalid, hdepth, _, _, _, _, rfl, haccepts, hlen⟩
      · rintro ⟨hvalid, hdepth, names, c', rest, out, rfl, haccepts, hlen⟩
        exact ⟨c :: names, c', rest, out, rfl, .cons hvalid hdepth haccepts, hlen⟩
    rw [readNames]
    split
    · rename_i hempty
      rw [hfirst (by rw [hempty]; decide)]
      refine iff_of_false ?_ fun h => (valid_length h.1).1 hempty
      split
      · exact Outcome.ok_ne_overrun
      · exact Outcome.error_ne_overrun
    · split
      · rw [hfirst (by omega)]
        refine iff_of_false Outcome.error_ne_overrun fun h => ?_
        have := (valid_length h.1).2
        omega
      · rw [pushComponent]
        split
        · rename_i hlen
          exact iff_of_true rfl ⟨[], c, components, stack, rfl, .nil, hlen⟩
        · rename_i hlen
          rw [hfirst hlen]
          split
          · rename_i hinvalid
            refine iff_of_false Outcome.error_ne_overrun fun h => ?_
            rw [hinvalid] at h
            cases h.1
          · rename_i hvalid
            split
            · rename_i hdepth
              exact iff_of_false Outcome.error_ne_overrun fun h => h.2.1 hdepth
            · rename_i hdepth
              refine ih.trans ?_
              exact ⟨fun h => ⟨Bool.eq_true_of_not_eq_false hvalid, hdepth, h⟩, fun h => h.2.2⟩

/-- The first name is taken and the rest goes on, or it belongs to what is left. -/
theorem accepts_cons_iff {stack place : List CStr} {c : CStr} {Left : List CStr → Prop} :
    (∃ names tail, c :: components = names ++ tail ∧ Left tail ∧ Accepts stack names place) ↔
      Left (c :: components) ∧ place = stack ∨
        isValidDosFilename c = true ∧ (stackWith stack c).length ≠ 20 ∧
          ∃ names tail, components = names ++ tail ∧ Left tail ∧
            Accepts (stackWith stack c) names place := by
  constructor
  · rintro ⟨names, tail, heq, hleft, haccepts⟩
    cases haccepts with
    | nil =>
      exact .inl ⟨heq ▸ hleft, rfl⟩
    | cons hvalid hdepth haccepts =>
      cases heq
      exact .inr ⟨hvalid, hdepth, _, tail, rfl, hleft, haccepts⟩
  · rintro (⟨hleft, rfl⟩ | ⟨hvalid, hdepth, names, tail, rfl, hleft, haccepts⟩)
    · exact ⟨[], _, rfl, hleft, .nil⟩
    · exact ⟨c :: names, tail, rfl, hleft, .cons hvalid hdepth haccepts⟩

theorem readNames_ok_iff : ∀ {stack place : List CStr},
    readNames stack components = .ok place ↔
      ∃ names tail, components = names ++ tail ∧ (tail = [] ∨ tail = [[]] ∨ tail = [[], []]) ∧
        Accepts stack names place := by
  induction components with
  | nil =>
    intro stack place
    constructor
    · intro h
      cases h
      exact ⟨[], [], rfl, .inl rfl, .nil⟩
    · rintro ⟨names, tail, heq, -, haccepts⟩
      obtain ⟨rfl, rfl⟩ := append_eq_nil_iff.mp heq.symm
      cases haccepts
      rfl
  | cons c components ih =>
    intro stack place
    rw [readNames, accepts_cons_iff]
    split
    · rename_i hempty
      subst hempty
      have hinvalid : isValidDosFilename [] ≠ true := by decide
      refine Iff.trans ?_ (or_iff_left fun h => hinvalid h.1).symm
      constructor
      · intro h
        split at h
        · rename_i htail
          refine ⟨.inr ?_, (Outcome.ok.inj h).symm⟩
          rcases htail with rfl | rfl
          · exact .inl rfl
          · exact .inr rfl
        · cases h
      · rintro ⟨hleft, rfl⟩
        rcases hleft with hleft | hleft | hleft
        · cases hleft
        · rw [if_pos (.inl (List.cons.inj hleft).2)]
        · rw [if_pos (.inr (List.cons.inj hleft).2)]
    · rename_i hne
      rw [or_iff_right (by
        rintro ⟨hleft | hleft | hleft, -⟩
        · cases hleft
        · exact hne (List.cons.inj hleft).1
        · exact hne (List.cons.inj hleft).1)]
      split
      · refine iff_of_false Outcome.error_ne_ok fun h => ?_
        have := (valid_length h.1).2
        omega
      · rw [pushComponent]
        split
        · refine iff_of_false Outcome.overrun_ne_ok fun h => ?_
          have := (valid_length h.1).2
          omega
        · split
          · rename_i hinvalid
            refine iff_of_false Outcome.error_ne_ok fun h => ?_
            rw [hinvalid] at h
            cases h.1
          · rename_i hvalid
            split
            · rename_i hdepth
              exact iff_of_false Outcome.error_ne_ok fun h => h.2.1 hdepth
            · rename_i hdepth
              refine ih.trans ?_
              exact ⟨fun h => ⟨Bool.eq_true_of_not_eq_false hvalid, hdepth, h⟩, fun h => h.2.2⟩

/-- What stands between the slashes of a path that begins with one. -/
def componentsOf (buffer : CStr) : List CStr := buffer.tail.splitOn slash

/-- **The NUL of a component runs past `tmp`** just for a path that comes to thirteen characters. -/
theorem normalizeDir_overrun_iff (buffer : CStr) (bufferLen : Nat) :
    normalizeDir buffer bufferLen = .overrun ↔
      buffer.head? = some slash ∧ Thirteen (componentsOf buffer) := by
  unfold normalizeDir
  cases buffer with
  | nil => exact iff_of_false Outcome.error_ne_overrun fun h => by cases h.1
  | cons c rest =>
    simp only [head?_cons, Option.some.injEq]
    by_cases hc : c = slash
    · subst hc
      have hread := @readComponents_eq rest [] [] (by simp) (by simp)
      rw [nil_append] at hread
      rw [if_neg (fun h => h rfl), hread, Thirteen, componentsOf, tail_cons,
        ← readNames_overrun_iff]
      cases readNames [] (rest.splitOn slash) with
      | overrun => exact iff_of_true rfl ⟨rfl, rfl⟩
      | error rc => exact iff_of_false Outcome.error_ne_overrun fun h => by cases h.2
      | ok component =>
        refine iff_of_false ?_ fun h => by cases h.2
        dsimp only [Outcome.bind]
        split_ifs
        · exact not_false
        · cases hwrite : writeComponents bufferLen [] component with
          | overrun => exact absurd hwrite writeComponents_ne_overrun
          | error rc => exact Outcome.error_ne_overrun
          | ok buffer => exact Outcome.ok_ne_overrun
    · rw [if_pos hc]
      exact iff_of_false Outcome.error_ne_overrun fun h => hc h.1

theorem writeComponents_ok_iff {bufferLen : Nat} : ∀ {buffer out : CStr},
    writeComponents bufferLen buffer component = .ok out ↔
      out = buffer ++ render slash component ∧ (component ≠ [] → out.length < bufferLen) := by
  induction component with
  | nil =>
    intro buffer out
    rw [writeComponents, render_nil, append_nil]
    exact ⟨fun h => ⟨(Outcome.ok.inj h).symm, fun hne => absurd rfl hne⟩, fun h => by rw [h.1]⟩
  | cons c component ih =>
    intro buffer out
    refine ⟨writeComponents_eq_ok, ?_⟩
    rintro ⟨rfl, hlen⟩
    have hlen := hlen (cons_ne_nil _ _)
    simp only [render_cons, length_append, length_cons] at hlen
    rw [writeComponents, if_neg (by omega), ih]
    refine ⟨by simp, fun _ => ?_⟩
    simp only [render_cons, length_append]
    omega

/-- The path leads to this place, and the place can be written into the buffer. -/
structure Normal (buffer : CStr) (bufferLen : Nat) (place : List CStr) : Prop where
  absolute : buffer.head? = some slash
  leads : Leads (componentsOf buffer) place
  fits : place ≠ [] → (render slash place).length < bufferLen

theorem normalizeDir_ok_iff (buffer : CStr) (bufferLen : Nat) (out : CStr) :
    normalizeDir buffer bufferLen = .ok out ↔
      ∃ place, Normal buffer bufferLen place ∧ out = strupr (userPath place) := by
  unfold normalizeDir
  cases buffer with
  | nil => exact iff_of_false Outcome.error_ne_ok fun ⟨place, h⟩ => by cases h.1.absolute
  | cons c rest =>
    by_cases hc : c = slash
    · subst hc
      have hread := @readComponents_eq rest [] [] (by simp) (by simp)
      rw [nil_append] at hread
      have hleads : ∀ place, readNames [] (rest.splitOn slash) = .ok place ↔
          Leads (componentsOf (slash :: rest)) place := fun place => readNames_ok_iff
      simp only
      rw [if_neg (fun h => h rfl), hread]
      constructor
      · intro h
        obtain ⟨place, hplace, hwrite⟩ := Outcome.bind_eq_ok h
        refine ⟨place, ⟨rfl, (hleads place).mp hplace, ?_⟩, ?_⟩
        · intro hne
          rw [if_neg hne] at hwrite
          obtain ⟨buffer, hbuffer, -⟩ := Outcome.bind_eq_ok hwrite
          obtain ⟨rfl, hlen⟩ := writeComponents_ok_iff.mp hbuffer
          exact hlen hne
        · rw [userPath]
          split at hwrite
          · rename_i hempty
            rw [if_pos hempty, ← Outcome.ok.inj hwrite]
            rfl
          · rename_i hne
            obtain ⟨buffer, hbuffer, hout⟩ := Outcome.bind_eq_ok hwrite
            obtain ⟨rfl, -⟩ := writeComponents_ok_iff.mp hbuffer
            rw [if_neg hne, ← Outcome.ok.inj hout]
            rfl
      · rintro ⟨place, hnormal, rfl⟩
        rw [(hleads place).mpr hnormal.leads]
        simp only [Outcome.bind, userPath]
        split
        · rfl
        · rename_i hne
          rw [writeComponents_ok_iff.mpr ⟨rfl, fun _ => hnormal.fits hne⟩]
          rfl
    · simp only
      rw [if_pos hc]
      refine iff_of_false Outcome.error_ne_ok fun h => ?_
      obtain ⟨place, hplace, -⟩ := h
      exact hc (Option.some.inj hplace.absolute)

/-- A path on a drive that is too long for `rc`. -/
def RcShort (drives : Drives) (buffer : CStr) : Prop :=
  isDrivePrefixPresent buffer = true ∧ isDriveInValidTable drives (charAt buffer 7) = true ∧
    85 < buffer.length

/-- **`rc` is too short** just for a path of more than 85 characters. -/
theorem convertToDosPath_overrun_iff (drives : Drives) (buffer : CStr) :
    convertToDosPath drives buffer = .overrun ↔ RcShort drives buffer := by
  have hlen : 79 < (dosLetters buffer).length ↔ 85 < buffer.length := by
    simp only [dosLetters, length_cons, length_map, length_drop]
    omega
  unfold convertToDosPath RcShort
  rw [← hlen]
  split_ifs with hpresent hdrive hlong hlast
  · exact iff_of_false not_false fun h => by rw [hpresent] at h; cases h.1
  · exact iff_of_false not_false fun h => by rw [hdrive] at h; cases h.2.1
  · exact iff_of_true rfl
      ⟨Bool.eq_true_of_not_eq_false hpresent, Bool.eq_true_of_not_eq_false hdrive, hlong⟩
  · exact iff_of_false not_false fun h => hlong h.2.2
  · exact iff_of_false not_false fun h => hlong h.2.2

/-- The stack and its names fit into `component`. -/
def StackInside (component : List CStr) : Prop :=
  component.length < 20 ∧ ∀ c ∈ component, c.length ≤ 12

theorem stack_empty : StackInside [] := ⟨by decide, nofun⟩

theorem pushComponent_inside {out : List CStr} {tmp : CStr} (h : StackInside component)
    (hpush : pushComponent component tmp = .ok out) : StackInside out := by
  obtain ⟨hlen, hall⟩ := h
  unfold pushComponent at hpush
  split_ifs at hpush with hthirteen hvalid hdepth
  cases hpush
  have hname : tmp.length ≤ 12 := (valid_length (Bool.eq_true_of_not_eq_false hvalid)).2
  unfold stackWith at hdepth ⊢
  split_ifs at hdepth ⊢ with hup hstay
  · exact ⟨by rw [length_dropLast]; omega, fun c hc => hall c (mem_of_mem_dropLast hc)⟩
  · exact ⟨hlen, hall⟩
  · rw [length_append, length_singleton] at hdepth
    refine ⟨by rw [length_append, length_singleton]; omega, fun c hc => ?_⟩
    rcases mem_append.mp hc with hc | hc
    · exact hall c hc
    · rw [mem_singleton.mp hc]
      exact hname

/-- What the main loop has on its stack, whatever it has read. -/
theorem readComponents_inside {read : CStr} : ∀ {component out : List CStr} {tmp : CStr},
    StackInside component → readComponents component tmp read = .ok out → StackInside out := by
  induction read with
  | nil =>
    intro component out tmp h hread
    unfold readComponents at hread
    split_ifs at hread with htmp
    · cases hread
      exact h
    · exact pushComponent_inside h hread
  | cons c rest ih =>
    intro component out tmp h hread
    unfold readComponents at hread
    split_ifs at hread with hslash htmp hend hlong
    · cases hread
      exact h
    · obtain ⟨stack, hpush, hrest⟩ := Outcome.bind_eq_ok hread
      exact ih (pushComponent_inside h hpush) hrest
    · exact ih h hread

/-- What is written back is shorter than the buffer, after each component. -/
theorem writeComponents_inside {bufferLen : Nat} :
    ∀ {buffer out : CStr}, buffer.length < bufferLen →
      writeComponents bufferLen buffer component = .ok out → out.length < bufferLen := by
  induction component with
  | nil =>
    intro buffer out h hwrite
    cases hwrite
    exact h
  | cons c component ih =>
    intro buffer out h hwrite
    unfold writeComponents at hwrite
    split_ifs at hwrite with hroom
    exact ih (by rw [length_append, length_cons]; omega) hwrite

/-! ## 3. The callers -/

/-- What calls the two: a path of a command (with the length its caller allows), `doCwd`, and the two
directories of a user record. -/
inductive PathCall where
  | fullPath (maxOutBufferLen : Nat) (filespec : CStr)
  | cwd (parm : CStr)
  | sandbox (user : FtpUser)
  | uploaddir (user : FtpUser)

section

variable (server : Server) (ans : Answers) (isDir : CStr → Bool) (s : Session)

/-- The path that is normalized, and the length of its buffer. -/
def PathCall.path : PathCall → CStr
  | .fullPath _ filespec => userView s.client filespec
  | .cwd parm => userView s.client parm
  | .sandbox user => withoutSlash user.sandbox
  | .uploaddir user => user.uploaddir

def PathCall.bufferLen : PathCall → Nat
  | .fullPath _ _ => USR_MAX_PATHFILE_LENGTH + 20
  | .cwd _ | .sandbox _ | .uploaddir _ => USR_MAX_PATH_LENGTH

/-- `tmp` or `rc` is written behind its end. -/
def PathCall.Overruns : PathCall → Prop
  | .fullPath maxOutBufferLen filespec =>
    formFullPath server s.client maxOutBufferLen filespec = .overrun
  | .cwd parm => doCwdPath server ans s parm = .overrun
  | .sandbox user => checkSandbox server.drives isDir user = .overrun
  | .uploaddir user => checkUploaddir server.drives isDir user = .overrun

/-- The call comes to `normalizeDir`: it has passed the checks before. -/
def PathCall.Normalizes : PathCall → Prop
  | .fullPath _ filespec => (userView s.client filespec).length < USR_MAX_PATHFILE_LENGTH + 20
  | .cwd parm => (userView s.client parm).length ≤ USR_MAX_PATH_LENGTH + 20 - 1
  | .sandbox user => user.sandbox ≠ bracketNone ∧
      isDrivePrefixPresent (withoutSlash user.sandbox) = true ∧
      isDriveInValidTable server.drives (charAt (withoutSlash user.sandbox) 7) = true
  | .uploaddir user => user.uploaddir ≠ bracketAny ∧ charAt user.uploaddir 0 = slash

/-- The path that `convertToDosPath` gets is within the limit of its caller and too long for `rc`. -/
def PathCall.Long (place : List CStr) : PathCall → Prop
  | .fullPath maxOutBufferLen _ =>
    (s.client.ftproot ++ withDriveSlash s.client (strupr (userPath place))).length <
        maxOutBufferLen ∧
      RcShort server.drives
        (s.client.ftproot ++ withDriveSlash s.client (strupr (userPath place)))
  | .cwd _ | .sandbox _ | .uploaddir _ => False

/-- No component of thirteen characters is come to, and no place whose path is too long for `rc`. -/
def PathCall.Roomy (call : PathCall) : Prop :=
  call.Normalizes server s →
    ¬((call.path s).head? = some slash ∧ Thirteen (componentsOf (call.path s))) ∧
      ∀ place, Normal (call.path s) call.bufferLen place → ¬call.Long server s place

end

section

variable {server : Server} {ans : Answers} {isDir : CStr → Bool} {s : Session}

theorem formFullPath_overrun_iff (maxOutBufferLen : Nat) (filespec : CStr) :
    formFullPath server s.client maxOutBufferLen filespec ≠ .overrun ↔
      (PathCall.fullPath maxOutBufferLen filespec).Roomy server s := by
  unfold formFullPath PathCall.Roomy
  simp only [PathCall.Normalizes, PathCall.path, PathCall.bufferLen, PathCall.Long]
  split
  · exact iff_of_true Outcome.error_ne_overrun fun h => absurd h (by omega)
  · have hlen : (userView s.client filespec).length < USR_MAX_PATHFILE_LENGTH + 20 := by omega
    rw [← normalizeDir_overrun_iff _ (USR_MAX_PATHFILE_LENGTH + 20)]
    simp only [hlen, forall_const]
    cases hnormal : normalizeDir (userView s.client filespec) (USR_MAX_PATHFILE_LENGTH + 20) with
    | overrun => exact iff_of_false (fun h => h rfl) fun h => h.1 rfl
    | error rc =>
      refine iff_of_true Outcome.error_ne_overrun ⟨Outcome.error_ne_overrun, fun place hplace => ?_⟩
      have hok := (normalizeDir_ok_iff _ _ _).mpr ⟨place, hplace, rfl⟩
      rw [hnormal] at hok
      cases hok
    | ok newpath =>
      -- the place is the only one the path leads to
      have hall : ∀ place, Normal (userView s.client filespec) (USR_MAX_PATHFILE_LENGTH + 20) place →
          strupr (userPath place) = newpath := by
        intro place hplace
        have hok := (normalizeDir_ok_iff _ _ _).mpr ⟨place, hplace, rfl⟩
        rw [hnormal] at hok
        exact (Outcome.ok.inj hok).symm
      obtain ⟨place, hplace, hnew⟩ := (normalizeDir_ok_iff _ _ _).mp hnormal
      simp only
      split
      · refine iff_of_true Outcome.error_ne_overrun ⟨Outcome.ok_ne_overrun, fun place hplace h => ?_⟩
        rw [hall place hplace, length_append] at h
        omega
      · rw [ne_eq, convertToDosPath_overrun_iff]
        constructor
        · refine fun h => ⟨Outcome.ok_ne_overrun, fun place hplace hlong => h ?_⟩
          rw [hall place hplace] at hlong
          exact hlong.2
        · intro h hshort
          refine h.2 place hplace ?_
          rw [← hnew, length_append]
          exact ⟨by omega, hshort⟩

theorem dosBuffer_ne_overrun {drives : Drives} {buffer : CStr} (h : buffer.length ≤ 85) :
    dosBuffer drives buffer ≠ .overrun := by
  unfold dosBuffer
  cases hconvert : convertToDosPath drives buffer with
  | overrun => exact absurd hconvert (convertToDosPath_ne_overrun h)
  | ok path => exact Outcome.ok_ne_overrun
  | error rc => exact Outcome.ok_ne_overrun

/-- A call whose path does not become that of a file has room just where `normalizeDir` has. -/
theorem PathCall.roomy_iff {call : PathCall} (hnever : ∀ place, ¬call.Long server s place) :
    call.Roomy server s ↔
      (call.Normalizes server s → normalizeDir (call.path s) call.bufferLen ≠ .overrun) := by
  refine imp_congr_right fun _ => ?_
  rw [ne_eq, normalizeDir_overrun_iff]
  exact and_iff_left fun place _ => hnever place

theorem doCwdPath_overrun_iff (parm : CStr) :
    doCwdPath server ans s parm ≠ .overrun ↔ (PathCall.cwd parm).Roomy server s := by
  rw [@PathCall.roomy_iff server s (.cwd parm) fun _ h => h]
  simp only [PathCall.Normalizes, PathCall.path, PathCall.bufferLen]
  refine ⟨fun h hlen hnormal => h ?_, fun h => ?_⟩
  · simp only [doCwdPath, hnormal, if_neg (not_lt.mpr hlen)]
  · obtain ⟨t, ht⟩ := @doCwdPath_fits server ans s parm fun hlen => h (Nat.le_pred_of_lt hlen)
    exact ht ▸ Outcome.ok_ne_overrun

theorem checkSandbox_overrun_iff (user : FtpUser) :
    checkSandbox server.drives isDir user ≠ .overrun ↔
      (PathCall.sandbox user).Roomy server s := by
  rw [@PathCall.roomy_iff server s (.sandbox user) fun _ h => h]
  simp only [PathCall.Normalizes, PathCall.path, PathCall.bufferLen]
  unfold checkSandbox
  split
  · rename_i hnone
    exact iff_of_true Outcome.ok_ne_overrun fun h => absurd hnone h.1
  · rename_i hnone
    split
    · rename_i hpresent
      exact iff_of_true Outcome.ok_ne_overrun fun h => by rw [hpresent] at h; cases h.2.1
    · rename_i hpresent
      split
      · rename_i hdrive
        exact iff_of_true Outcome.ok_ne_overrun fun h => by rw [hdrive] at h; cases h.2.2
      · rename_i hdrive
        have hreached : user.sandbox ≠ bracketNone ∧
            isDrivePrefixPresent (withoutSlash user.sandbox) = true ∧
            isDriveInValidTable server.drives (charAt (withoutSlash user.sandbox) 7) = true :=
          ⟨hnone, Bool.eq_true_of_not_eq_false hpresent, Bool.eq_true_of_not_eq_false hdrive⟩
        simp only [hreached, ne_eq, not_false_eq_true, and_self, forall_const]
        cases hnormal : normalizeDir (withoutSlash user.sandbox) USR_MAX_PATH_LENGTH with
        | overrun => exact iff_of_false (fun h => h rfl) fun h => h rfl
        | error rc => exact iff_of_true Outcome.ok_ne_overrun Outcome.error_ne_overrun
        | ok sandbox =>
          refine iff_of_true ?_ Outcome.ok_ne_overrun
          obtain ⟨-, -, -, -, hshort⟩ := normalizeDir_eq_ok (by decide) hnormal
          have hbound : sandbox.length < 73 := hshort
          simp only
          cases hdos : dosBuffer server.drives sandbox with
          | overrun => exact absurd hdos (dosBuffer_ne_overrun (by omega))
          | error rc => exact Outcome.error_ne_overrun
          | ok tmp =>
            simp only [Outcome.bind]
            split
            · exact Outcome.ok_ne_overrun
            · exact Outcome.ok_ne_overrun

theorem checkUploaddir_overrun_iff (user : FtpUser) :
    checkUploaddir server.drives isDir user ≠ .overrun ↔
      (PathCall.uploaddir user).Roomy server s := by
  rw [@PathCall.roomy_iff server s (.uploaddir user) fun _ h => h]
  simp only [PathCall.Normalizes, PathCall.path, PathCall.bufferLen]
  unfold checkUploaddir
  split
  · rename_i hany
    exact iff_of_true Outcome.ok_ne_overrun fun h => absurd hany h.1
  · rename_i hany
    split
    · rename_i hslash
      exact iff_of_true Outcome.ok_ne_overrun fun h => absurd h.2 hslash
    · rename_i hslash
      rw [ne_eq, not_not] at hslash
      simp only [hany, hslash, ne_eq, not_false_eq_true, and_self, forall_const]
      cases hnormal : normalizeDir user.uploaddir USR_MAX_PATH_LENGTH with
      | overrun => exact iff_of_false (fun h => h rfl) fun h => h rfl
      | error rc => exact iff_of_true Outcome.ok_ne_overrun Outcome.error_ne_overrun
      | ok uploaddir =>
        refine iff_of_true ?_ Outcome.ok_ne_overrun
        simp only
        generalize htmp : (if user.sandbox = bracketNone then [] else user.sandbox) ++ uploaddir =
          tmp
        have hlen : (if user.sandbox = bracketNone then [] else user.sandbox).length +
            uploaddir.length = tmp.length := by rw [← htmp, length_append]
        simp only [hlen]
        split
        · exact Outcome.ok_ne_overrun
        · have hbound : USR_MAX_PATH_LENGTH = 73 := rfl
          cases hdos : dosBuffer server.drives tmp with
          | overrun => exact absurd hdos (dosBuffer_ne_overrun (by omega))
          | error rc => exact Outcome.error_ne_overrun
          | ok path =>
            simp only [Outcome.bind]
            split
            · exact Outcome.ok_ne_overrun
            · exact Outcome.ok_ne_overrun

/-- **A call stays in the arrays** just where it has room. -/
theorem PathCall.overruns_iff (call : PathCall) :
    ¬call.Overruns server ans isDir s ↔ call.Roomy server s := by
  cases call with
  | fullPath maxOutBufferLen filespec => exact formFullPath_overrun_iff maxOutBufferLen filespec
  | cwd parm => exact doCwdPath_overrun_iff parm
  | sandbox user => exact checkSandbox_overrun_iff user
  | uploaddir user => exact checkUploaddir_overrun_iff user

end

/-! ## 4. The arrays and the reply buffer -/

/-- The writes of a call stay inside: of `tmp` and `rc`, of `component` whatever has been read of the
path, and of the buffer whatever has been written back. -/
def PathCall.Inside (server : Server) (ans : Answers) (isDir : CStr → Bool) (s : Session)
    (call : PathCall) : Prop :=
  ¬call.Overruns server ans isDir s ∧
    (∀ read component, readComponents [] [] read = .ok component →
      component.length ≤ 32 ∧ ∀ c ∈ component, c.length + 1 ≤ 13) ∧
    (∀ component buffer, writeComponents call.bufferLen [] component = .ok buffer →
      buffer.length + 1 ≤ call.bufferLen) ∧
    ∀ path newpath, normalizeDir path call.bufferLen = .ok newpath →
      newpath.length + 1 ≤ call.bufferLen

/-- **The buffers of the server.**  The calls that put together a path write inside of the arrays,
and the replies inside of the buffer of the client, just where a path has no component of thirteen
characters and no place too long for `rc`, and where no plain string is added to a full buffer. -/
theorem buffers_inside_iff (server : Server) (ans : Answers) (isDir : CStr → Bool) (s : Session)
    (call : PathCall) (replies : List OutputCall) :
    call.Inside server ans isDir s ∧ Along OutputBuffer.step StaysInside .empty replies ↔
      call.Roomy server s ∧ Guarded OutputBuffer.step ReplyFits .empty replies := by
  have hlen : 1 < call.bufferLen := by
    cases call <;> simp only [PathCall.bufferLen] <;> decide
  rw [output_inside_iff replies empty_bounded, ← @PathCall.overruns_iff server ans isDir s call]
  refine and_congr_left fun _ => ⟨And.left, fun hroomy => ⟨hroomy, ?_, ?_, ?_⟩⟩
  · intro read component hread
    obtain ⟨hdepth, hall⟩ := readComponents_inside stack_empty hread
    exact ⟨by omega, fun c hc => Nat.succ_le_succ (hall c hc)⟩
  · intro component buffer hwrite
    exact writeComponents_inside (lt_trans Nat.zero_lt_one hlen) hwrite
  · intro path newpath hnormal
    obtain ⟨-, -, -, -, hshort⟩ := normalizeDir_eq_ok hlen hnormal
    exact hshort

/-- `CWD` with a name of thirteen characters. -/
def longName : PathCall := .cwd "/ABCDEFGHIJKLM".toList

/-- The listing of a path whose six directories have names of twelve characters. -/
def deepPath : PathCall :=
  .fullPath USR_MAX_PATHFILE_LENGTH_PADDED
    ("/DRIVE_C".toList ++ (List.replicate 6 "/ABCDEFGH.IJK".toList).flatten)

/-- A text that does not fit, and then a plain string. -/
def fillsUp : List OutputCall := [.addToOutput_var 2000, .addToOutput 4]

/-- A name and a path that are let through, and a buffer that is added to when it is full. -/
theorem buffers_overflow :
    ¬longName.Inside oneUser calm (fun _ => true) ⟨startNewSession unused, []⟩ ∧
      ¬deepPath.Inside oneUser calm (fun _ => true) ⟨startNewSession unused, []⟩ ∧
      ¬Along OutputBuffer.step StaysInside .empty fillsUp := by
  refine ⟨fun h => h.1 ?_, fun h => h.1 ?_, fun h => ?_⟩
  · unfold longName PathCall.Overruns
    decide +kernel
  · unfold deepPath PathCall.Overruns
    decide +kernel
  · have hfits := (output_inside_iff fillsUp empty_bounded).mp h
    exact nomatch hfits.2.1.1

end SdcBoot.Ftp
