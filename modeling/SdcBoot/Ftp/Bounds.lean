/-
# Where the arrays are large enough

Four writes of the server go past the end of an array for some of what a client can send:

* `getNextToken` stores what follows a quote inside of a quoted part without looking at the length
  of its target;
* `normalizeDir` puts the NUL of a component of thirteen characters behind its buffer;
* `filespec` is six characters shorter than the token `doDataXfer` reads into it;
* `convertToDosPath` has room for 79 characters, and for `LIST`, `NLST` and `APPE` the path may have
  as many as 98 with the sandbox in front.

`Call.Fits` says of a call, by the client record and what the client sends, that none of this
happens; under it every call runs to its end.
-/
import SdcBoot.Ftp.Session

namespace SdcBoot.Ftp

open Lib List

/-! ## 1. The conditions -/

/-- A token is cut within its target, and something holds of it and of the rest of the line. -/
def TokenFits (input : Option CStr) (bufLen : Nat) (P : CStr → Option CStr → Prop) : Prop :=
  ∃ token next, getNextToken input bufLen = .ok (token, next) ∧ P token next

/-- The full path of an argument is formed within its arrays. -/
def PathFits (client : FtpClient) (maxOutBufferLen : Nat) (arg : CStr) : Prop :=
  (userView client arg).length < USR_MAX_PATHFILE_LENGTH + 20 →
    normalizeDir (userView client arg) (USR_MAX_PATHFILE_LENGTH + 20) ≠ .overrun ∧
    ∀ newpath, normalizeDir (userView client arg) (USR_MAX_PATHFILE_LENGTH + 20) = .ok newpath →
      client.ftproot.length + newpath.length < maxOutBufferLen →
        client.ftproot.length + newpath.length ≤ 85

/-- The two array lengths of a command on a path, for a client who may give it. -/
def pathBuffers (client : FtpClient) (command : CStr) : Option (Nat × Nat) :=
  let file := (USR_MAX_PATHFILE_LENGTH_PADDED, USR_MAX_PATHFILE_LENGTH)
  if isWord command ["DELE"] then if client.user.cmd_DELE then some file else none
  else if isWord command ["RNFR"] then if client.user.cmd_RNFR then some file else none
  else if isWord command ["MKD", "XMKD"] then
    if client.user.cmd_MKD ∧ mayUpload client then
      some (USR_MAX_PATH_LENGTH_PADDED, USR_MAX_PATH_LENGTH - 1)
    else none
  else if isWord command ["RMD", "XRMD"] then
    if client.user.cmd_RMD then some (USR_MAX_PATH_LENGTH_PADDED, USR_MAX_PATH_LENGTH) else none
  else if isWord command ["MDTM"] ∨ isWord command ["STAT"] then some file
  else none

/-- A command, with what stands behind it on the line. -/
structure CommandFits (client : FtpClient) (command : CStr) (next : Option CStr) : Prop where
  path : ∀ bufLen maxLen, pathBuffers client command = some (bufLen, maxLen) →
    TokenFits next bufLen fun arg _ => arg ≠ [] → PathFits client maxLen arg
  cwd : isWord command ["CWD", "XCWD"] →
    TokenFits next (USR_MAX_PATH_LENGTH + 20) fun arg _ =>
      (userView client (strupr arg)).length < USR_MAX_PATH_LENGTH + 20 →
        normalizeDir (userView client (strupr arg)) USR_MAX_PATH_LENGTH ≠ .overrun
  xfer : ∀ type, xferType command = some type → client.dataXferState = .notActive →
    TokenFits next USR_MAX_PATHFILE_LENGTH fun filespec _ =>
      filespec.length < DOS_MAX_PATHFILE_LENGTH ∧
        (type = .retr ∨ type = .stor → PathFits client USR_MAX_PATHFILE_LENGTH filespec)
  option : isWord command ["MODE"] ∨ isWord command ["STRU"] ∨ isWord command ["TYPE"] →
    TokenFits next 20 fun _ _ => True
  site : isWord command ["SITE"] →
    TokenFits next 10 fun siteCmd next =>
      stricmpEq siteCmd "diskfree".toList → TokenFits next 2 fun _ _ => True

/-- A line, in the state it is read in. -/
def LineFits (server : Server) (client : FtpClient) (line : CStr) : Prop :=
  TokenFits (some (withoutTelnet line)) COMMAND_MAX_LEN fun word next => word ≠ [] →
    (client.state = .userPrompt → strupr word = "USER".toList → client.loginAttempts < 3 →
      TokenFits next USERNAME_LEN fun name _ => name ≠ [] →
        ∃ found, getUserRec name server.userFile client.user = .ok found) ∧
    (client.state = .passwordPrompt → strupr word = "PASS".toList →
      TokenFits next TMP_PASSWORD_LEN fun _ _ => True) ∧
    (client.state = .rnfrSent → strupr word = "RNTO".toList →
      TokenFits next USR_MAX_PATHFILE_LENGTH_PADDED fun arg _ => arg ≠ [] →
        PathFits client USR_MAX_PATHFILE_LENGTH arg) ∧
    (client.state.signedIn → CommandFits client (strupr word) next)

/-- A transfer that gets its connection. -/
def XferFits (client : FtpClient) : Prop :=
  client.dataXferState = .connected → client.dataXferType ≠ .storU →
    PathFits client USR_MAX_PATHFILE_LENGTH_PADDED client.filespec

/-- A call in which every array is large enough. -/
def Call.Fits (server : Server) (client : FtpClient) : Call → Prop
  | .service ans =>
    XferFits (serviceRemoteClosed ans ⟨client, []⟩).client ∧
      ∀ s line, serviceUntilLine server ans ⟨client, []⟩ = .ok (s, some line) →
        LineFits server s.client line
  | .dataConnection => True
  | .expire => True

instance {input : Option CStr} {bufLen : Nat} {P : CStr → Option CStr → Prop}
    [∀ token next, Decidable (P token next)] : Decidable (TokenFits input bufLen P) :=
  match h : getNextToken input bufLen with
  | .ok (token, next) =>
    decidable_of_iff (P token next) (by simp [TokenFits, h])
  | .error _ | .overrun => isFalse (by simp [TokenFits, h])

instance {α : Type} {x : Outcome α} {P : α → Prop} [DecidablePred P] :
    Decidable (∀ a, x = .ok a → P a) :=
  match x with
  | .ok a => decidable_of_iff (P a) (by simp)
  | .error _ | .overrun => isTrue nofun

instance decidableOfSome {α : Type} {x : Option α} {P : α → Prop} [DecidablePred P] :
    Decidable (∀ a, x = some a → P a) :=
  inferInstanceAs (Decidable (∀ a ∈ x, P a))

instance (client : FtpClient) (maxOutBufferLen : Nat) (arg : CStr) :
    Decidable (PathFits client maxOutBufferLen arg) := by
  unfold PathFits
  infer_instance

set_option synthInstance.maxSize 1000 in
instance (client : FtpClient) (command : CStr) (next : Option CStr) :
    Decidable (CommandFits client command next) :=
  decidable_of_iff
    ((∀ lengths, pathBuffers client command = some lengths →
        TokenFits next lengths.1 fun arg _ => arg ≠ [] → PathFits client lengths.2 arg) ∧
      (isWord command ["CWD", "XCWD"] →
        TokenFits next (USR_MAX_PATH_LENGTH + 20) fun arg _ =>
          (userView client (strupr arg)).length < USR_MAX_PATH_LENGTH + 20 →
            normalizeDir (userView client (strupr arg)) USR_MAX_PATH_LENGTH ≠ .overrun) ∧
      (∀ type, xferType command = some type → client.dataXferState = .notActive →
        TokenFits next USR_MAX_PATHFILE_LENGTH fun filespec _ =>
          filespec.length < DOS_MAX_PATHFILE_LENGTH ∧
            (type = .retr ∨ type = .stor → PathFits client USR_MAX_PATHFILE_LENGTH filespec)) ∧
      (isWord command ["MODE"] ∨ isWord command ["STRU"] ∨ isWord command ["TYPE"] →
        TokenFits next 20 fun _ _ => True) ∧
      (isWord command ["SITE"] →
        TokenFits next 10 fun siteCmd next =>
          stricmpEq siteCmd "diskfree".toList → TokenFits next 2 fun _ _ => True))
    ⟨fun ⟨path, cwd, xfer, option, site⟩ =>
        ⟨fun bufLen maxLen => path (bufLen, maxLen), cwd, xfer, option, site⟩,
      fun h => ⟨fun lengths => h.path lengths.1 lengths.2, h.cwd, h.xfer, h.option, h.site⟩⟩

instance (state : FtpClientState) : Decidable state.signedIn :=
  inferInstanceAs (Decidable (state = .commandLine ∨ state = .rnfrSent))

instance {name : CStr} {userFile : List CStr} {user : FtpUser} :
    Decidable (∃ found, getUserRec name userFile user = .ok found) :=
  match getUserRec name userFile user with
  | .ok found => isTrue ⟨found, rfl⟩
  | .error _ | .overrun => isFalse nofun

set_option synthInstance.maxSize 1000 in
instance (server : Server) (client : FtpClient) (line : CStr) :
    Decidable (LineFits server client line) := by
  unfold LineFits
  infer_instance

instance (client : FtpClient) : Decidable (XferFits client) := by
  unfold XferFits
  infer_instance

instance (server : Server) (client : FtpClient) : (call : Call) → Decidable (call.Fits server client)
  | .service ans =>
    decidable_of_iff
      (XferFits (serviceRemoteClosed ans ⟨client, []⟩).client ∧
        ∀ r, serviceUntilLine server ans ⟨client, []⟩ = .ok r →
          ∀ line, r.2 = some line → LineFits server r.1.client line)
      (and_congr_right fun _ => ⟨fun h s line hline => h (s, some line) hline line rfl,
        fun h r hr line hline => h r.1 line (hline ▸ hr)⟩)
  | .dataConnection | .expire => isTrue trivial

/-! ## 2. Paths -/

variable {buffer : CStr}

/-- No component of thirteen characters, no NUL behind the buffer. -/
theorem readComponents_ne_overrun : ∀ {component : List CStr} {tmp : CStr},
    slash ∉ tmp → (∀ c ∈ (tmp ++ buffer).splitOn slash, c.length ≠ 13) →
      readComponents component tmp buffer ≠ .overrun := by
  induction buffer with
  | nil =>
    intro component tmp hslash h
    have htmp : tmp.length ≠ 13 :=
      h tmp (by rw [append_nil, splitOn_eq_singleton hslash]; exact mem_singleton_self _)
    rw [readComponents, pushComponent, if_neg htmp]
    split_ifs <;> simp
  | cons x buffer ih =>
    intro component tmp hslash h
    rw [readComponents]
    split_ifs with hx hempty hrest hlong
    · simp
    · simp
    · rw [hx, splitOn_append_cons_self, splitOn_eq_singleton hslash] at h
      have htmp : tmp.length ≠ 13 := h tmp (by simp)
      have hrest := fun c hc => h c (mem_append_right _ hc)
      rw [pushComponent, if_neg htmp]
      split_ifs
      · simp [Outcome.bind]
      · simp [Outcome.bind]
      · exact ih (by simp) (by simpa using hrest)
    · simp
    · refine ih ?_ (by simpa using h)
      simp only [mem_append, mem_singleton, not_or]
      exact ⟨hslash, fun heq => hx heq.symm⟩

variable {bufferLen : Nat}

theorem writeComponents_ne_overrun {component : List CStr} :
    ∀ {buffer : CStr}, writeComponents bufferLen buffer component ≠ .overrun := by
  induction component with
  | nil =>
    intro buffer
    simp [writeComponents]
  | cons c component ih =>
    intro buffer
    rw [writeComponents]
    split_ifs
    · simp
    · exact ih

theorem normalizeDir_ne_overrun
    (h : ∀ c ∈ buffer.splitOn slash, c.length ≠ 13) : normalizeDir buffer bufferLen ≠ .overrun := by
  unfold normalizeDir
  split
  · exact nofun
  case h_2 c rest =>
  split_ifs with hc
  · exact nofun
  rw [ne_eq, not_not] at hc
  subst hc
  have hread : readComponents [] [] rest ≠ .overrun := by
    refine readComponents_ne_overrun (by simp) fun c hc => h c ?_
    have hsplit := splitOn_append_cons_self (a := slash) [] rest
    rw [nil_append] at hsplit
    rw [hsplit]
    exact mem_append_right _ hc
  cases hcomp : readComponents [] [] rest with
  | overrun => exact absurd hcomp hread
  | error rc => exact nofun
  | ok component =>
    dsimp only [Outcome.bind]
    split_ifs
    · exact nofun
    · cases hwrite : writeComponents bufferLen [] component with
      | overrun => exact absurd hwrite writeComponents_ne_overrun
      | error rc => exact nofun
      | ok buffer => exact nofun

/-- `convertToDosPath` runs past `rc` only with more than 85 characters. -/
theorem convertToDosPath_ne_overrun {drives : Drives} (h : buffer.length ≤ 85) :
    convertToDosPath drives buffer ≠ .overrun := by
  unfold convertToDosPath
  split_ifs with hpresent hdrive hlong
  · simp
  · simp
  · have hlen : (dosLetters buffer).length ≤ 79 := by
      simp only [dosLetters, length_cons, length_map, length_drop]
      omega
    omega
  · simp
  · simp

section

variable {server : Server} {ans : Answers} {s : Session} {next : Option CStr}

variable {client : FtpClient}

variable {maxOutBufferLen : Nat} {arg : CStr} {result : Outcome Session}

theorem formFullPath_ne_overrun (h : PathFits client maxOutBufferLen arg) :
    formFullPath server client maxOutBufferLen arg ≠ .overrun := by
  unfold formFullPath
  split_ifs with hlong
  · exact nofun
  obtain ⟨hnorm, hlen⟩ := h (by omega)
  cases hpath : normalizeDir (userView client arg) (USR_MAX_PATHFILE_LENGTH + 20) with
  | overrun => exact absurd hpath hnorm
  | error rc => exact nofun
  | ok newpath =>
    dsimp only
    split_ifs with hmax
    · exact nofun
    · refine convertToDosPath_ne_overrun ?_
      rw [length_append]
      unfold withDriveSlash at hmax ⊢
      split_ifs at hmax ⊢ with hdrive
      · rw [hdrive.1, length_append, hdrive.2.2]
        decide
      · exact hlen newpath hpath (by omega)

theorem onPath_fits {bufLen : Nat} {bad : String} {body : Session → CStr → CStr → Stat → Session}
    (h : TokenFits next bufLen fun arg _ => arg ≠ [] → PathFits s.client maxOutBufferLen arg) :
    ∃ t, onPath server ans s next bufLen maxOutBufferLen bad body = .ok t := by
  obtain ⟨token, rest, htoken, hfits⟩ := h
  unfold onPath
  rw [htoken]
  dsimp only [Outcome.bind]
  split_ifs with hempty
  · exact ⟨_, rfl⟩
  · cases hpath : formFullPath server s.client maxOutBufferLen token with
    | overrun => exact absurd hpath (formFullPath_ne_overrun (hfits hempty))
    | error rc => exact ⟨_, rfl⟩
    | ok fullpath => exact ⟨_, rfl⟩

theorem doStat_fits (h : TokenFits next USR_MAX_PATHFILE_LENGTH_PADDED fun arg _ =>
      arg ≠ [] → PathFits s.client USR_MAX_PATHFILE_LENGTH arg) :
    ∃ t, doStat server ans s next = .ok t := by
  obtain ⟨token, rest, htoken, hfits⟩ := h
  unfold doStat
  rw [htoken]
  dsimp only [Outcome.bind]
  split_ifs with hempty
  · exact ⟨_, rfl⟩
  · cases hpath : formFullPath server (s.say "211-Status of %s" [token]).client
        USR_MAX_PATHFILE_LENGTH token with
    | overrun => exact absurd hpath (formFullPath_ne_overrun (hfits hempty))
    | error rc =>
      dsimp only
      split_ifs <;> exact ⟨_, rfl⟩
    | ok fullpath => exact ⟨_, rfl⟩

/-! ## 3. The current directory -/

theorem changeTo_fits {parm newpath : CStr} :
    ∃ t, changeTo server ans s parm newpath = .ok t := by
  unfold changeTo
  dsimp only
  split_ifs with hlong hroot hdrive
  · exact ⟨_, rfl⟩
  · exact ⟨_, rfl⟩
  · exact ⟨_, rfl⟩
  · have hlen : (lookedUp s.client newpath).length ≤ 85 := by
      unfold lookedUp
      unfold USR_MAX_PATH_LENGTH at hlong
      split_ifs with hempty
      · rw [hempty, length_nil] at hlong
        rw [length_append, length_singleton]
        omega
      · rw [length_append]
        omega
    unfold dosBuffer
    cases hdos : convertToDosPath server.drives (lookedUp s.client newpath) with
    | overrun => exact absurd hdos (convertToDosPath_ne_overrun hlen)
    | error rc =>
      dsimp only [Outcome.bind]
      split_ifs <;> exact ⟨_, rfl⟩
    | ok fullpath =>
      dsimp only [Outcome.bind]
      split_ifs <;> exact ⟨_, rfl⟩

theorem doCwdPath_fits {parm : CStr}
    (h : (userView s.client parm).length < USR_MAX_PATH_LENGTH + 20 →
      normalizeDir (userView s.client parm) USR_MAX_PATH_LENGTH ≠ .overrun) :
    ∃ t, doCwdPath server ans s parm = .ok t := by
  unfold doCwdPath
  split_ifs with hlong
  · exact ⟨_, rfl⟩
  · cases hpath : normalizeDir (userView s.client parm) USR_MAX_PATH_LENGTH with
    | overrun => exact absurd hpath (h (by omega))
    | error rc => exact ⟨_, rfl⟩
    | ok newpath => exact changeTo_fits

theorem doCwd_fits (h : TokenFits next (USR_MAX_PATH_LENGTH + 20) fun arg _ =>
      (userView s.client (strupr arg)).length < USR_MAX_PATH_LENGTH + 20 →
        normalizeDir (userView s.client (strupr arg)) USR_MAX_PATH_LENGTH ≠ .overrun) :
    ∃ t, doCwd server ans s next = .ok t := by
  obtain ⟨token, rest, htoken, hfits⟩ := h
  unfold doCwd
  rw [htoken]
  dsimp only [Outcome.bind]
  split_ifs with hempty
  · exact ⟨_, rfl⟩
  · exact doCwdPath_fits hfits

theorem mem_splitOn_dirPath {place : List CStr} (hplace : ∀ c ∈ place, Component c) {rest c : CStr}
    (h : c ∈ (dirPath place ++ rest).splitOn slash) :
    c = [] ∨ c ∈ place ∨ c ∈ rest.splitOn slash := by
  have hnames : ∀ {place : List CStr}, (∀ c ∈ place, Component c) →
      ∀ c ∈ (place.flatMap (· ++ [slash]) ++ rest).splitOn slash,
        c ∈ place ∨ c ∈ rest.splitOn slash := by
    intro place
    induction place with
    | nil => exact fun _ c hc => .inr hc
    | cons d place ih =>
      intro hplace c hc
      have hd : slash ∉ d := (hplace d mem_cons_self).slash_notMem
      rw [flatMap_cons, append_assoc, append_assoc, singleton_append,
        splitOn_append_cons_self, splitOn_eq_singleton hd] at hc
      rcases mem_append.mp hc with hc | hc
      · exact .inl (by rw [mem_singleton.mp hc]; exact mem_cons_self)
      · rcases ih (fun c hc => hplace c (mem_cons_of_mem d hc)) c hc with hc | hc
        · exact .inl (mem_cons_of_mem d hc)
        · exact .inr hc
  have hsplit := splitOn_append_cons_self (a := slash) [] (place.flatMap (· ++ [slash]) ++ rest)
  rw [nil_append, splitOn_nil] at hsplit
  rw [dirPath, cons_append, hsplit] at h
  rcases mem_append.mp h with hc | hc
  · exact .inl (mem_singleton.mp hc)
  · exact .inr (hnames hplace c hc)

/-- A name without slashes, below the current directory. -/
theorem normalizeDir_below_cwd (hcwd : IsDirectoryPath client.cwd) (hslash : slash ∉ arg)
    (hlen : arg.length ≠ 13) (bufferLen : Nat) :
    normalizeDir (userView client arg) bufferLen ≠ .overrun := by
  obtain ⟨place, hplace, hcwd⟩ := hcwd
  have habs : isPathAbsolute arg = false := by
    cases arg with
    | nil => rfl
    | cons c arg =>
      simp only [isPathAbsolute, beq_eq_false_iff_ne]
      rintro rfl
      exact hslash mem_cons_self
  unfold userView
  rw [habs, if_neg (by simp), hcwd]
  refine normalizeDir_ne_overrun fun c hc => ?_
  rcases mem_splitOn_dirPath hplace hc with rfl | hc | hc
  · simp
  · have hshort := (hplace c hc).length_le
    omega
  · rw [splitOn_eq_singleton hslash] at hc
    rw [mem_singleton.mp hc]
    exact hlen

theorem doCwd_up (hcwd : IsDirectoryPath s.client.cwd) :
    ∃ t, doCwd server ans s (some dotDot) = .ok t :=
  doCwd_fits ⟨dotDot, none, by decide, fun _ =>
    normalizeDir_below_cwd hcwd (by decide) (by decide) _⟩

/-! ## 4. Transfers -/

theorem formFullPath_DataXfer_fits {outBufferLen : Nat} {filespec : CStr}
    {body : CStr → Outcome Session} (h : PathFits s.client outBufferLen filespec)
    (hbody : ∀ fullpath, ∃ t, body fullpath = .ok t) :
    ∃ t, formFullPath_DataXfer server s outBufferLen filespec body = .ok t := by
  unfold formFullPath_DataXfer
  cases hpath : formFullPath server s.client outBufferLen filespec with
  | overrun => exact absurd hpath (formFullPath_ne_overrun h)
  | error rc =>
    dsimp only
    split_ifs
    · exact hbody _
    all_goals exact ⟨_, rfl⟩
  | ok fullpath => exact hbody fullpath

theorem length_uniqueName (ans : Answers) (attempt : Nat) : (uniqueName ans attempt).length = 12 := by
  simp [uniqueName]

theorem slash_notMem_uniqueName (ans : Answers) (attempt : Nat) : slash ∉ uniqueName ans attempt := by
  intro hmem
  simp only [uniqueName, cons_append, mem_cons, mem_append, mem_map, mem_range] at hmem
  rcases hmem with hu | ⟨i, -, hdigit⟩ | hque
  · cases hu
  · have hlt := Nat.mod_lt (ans.rand (7 * attempt + i)) (by decide : 0 < 10)
    have hdigits : ∀ d < 10, Char.ofNat (d + 48) ≠ slash := by decide
    exact hdigits _ hlt hdigit
  · exact absurd hque (by decide)

theorem storeUnique_fits : ∀ {left : Nat} {s : Session}, IsDirectoryPath s.client.cwd →
    ∃ t, storeUnique server ans left s = .ok t
  | 0, s, _ => ⟨_, rfl⟩
  | left + 1, s, hcwd => by
    have hfits : PathFits s.client USR_MAX_PATHFILE_LENGTH (uniqueName ans (4 - left)) := fun _ =>
      ⟨normalizeDir_below_cwd hcwd (slash_notMem_uniqueName _ _)
        (by rw [length_uniqueName]; decide) _,
      fun newpath _ hmax => by unfold USR_MAX_PATHFILE_LENGTH at hmax; omega⟩
    refine formFullPath_DataXfer_fits hfits fun fullpath => ?_
    split_ifs
    · exact ⟨_, rfl⟩
    · exact storeUnique_fits hcwd

theorem xferConnected_fits (hcwd : IsDirectoryPath s.client.cwd)
    (h : s.client.dataXferType ≠ .storU →
      PathFits s.client USR_MAX_PATHFILE_LENGTH_PADDED s.client.filespec) :
    ∃ t, xferConnected server ans s = .ok t := by
  unfold xferConnected
  split
  · exact ⟨_, rfl⟩
  case h_7 => exact storeUnique_fits hcwd
  case h_2 | h_3 =>
    exact formFullPath_DataXfer_fits (h (by simp [*])) fun fullpath => ⟨_, rfl⟩
  case h_4 | h_5 | h_6 =>
    refine formFullPath_DataXfer_fits (h (by simp [*])) fun fullpath => ?_
    split_ifs
    all_goals exact ⟨_, rfl⟩

theorem doDataXfer_fits (hcwd : IsDirectoryPath s.client.cwd)
    (hinit : s.client.dataXferState ≠ .init) (h : XferFits s.client) :
    ∃ t, doDataXfer server ans s none = .ok t := by
  unfold doDataXfer
  split
  · exact ⟨_, rfl⟩
  · exact absurd ‹_› hinit
  · exact ⟨_, rfl⟩
  case h_4 hconnected => exact xferConnected_fits hcwd (h hconnected)
  all_goals exact ⟨_, rfl⟩

theorem xferInit_fits (h : TokenFits next USR_MAX_PATHFILE_LENGTH fun filespec _ =>
      filespec.length < DOS_MAX_PATHFILE_LENGTH ∧
        (s.client.dataXferType = .retr ∨ s.client.dataXferType = .stor →
          PathFits s.client USR_MAX_PATHFILE_LENGTH filespec)) :
    ∃ t, xferInit server ans s next = .ok t := by
  obtain ⟨filespec, rest, htoken, hlen, hpath⟩ := h
  unfold xferInit
  rw [htoken]
  dsimp only [Outcome.bind]
  rw [if_neg (by omega)]
  split_ifs with hretr hstor
  · refine formFullPath_DataXfer_fits (hpath (.inl hretr)) fun fullpath => ?_
    split_ifs <;> exact ⟨_, rfl⟩
  · refine formFullPath_DataXfer_fits (hpath (.inr hstor)) fun fullpath => ?_
    split_ifs <;> exact ⟨_, rfl⟩
  · exact ⟨_, rfl⟩

theorem doXfer_fits {listType : DataXferType} (h : s.client.dataXferState = .notActive →
      TokenFits next USR_MAX_PATHFILE_LENGTH fun filespec _ =>
        filespec.length < DOS_MAX_PATHFILE_LENGTH ∧
          (listType = .retr ∨ listType = .stor →
            PathFits s.client USR_MAX_PATHFILE_LENGTH filespec)) :
    ∃ t, doXfer server ans s next listType = .ok t := by
  unfold doXfer
  split_ifs with hperm hdir hidle
  · exact ⟨_, rfl⟩
  · exact ⟨_, rfl⟩
  · exact xferInit_fits (h hidle)
  · exact ⟨_, rfl⟩

/-! ## 5. Commands and lines -/

theorem doOption_fits {name : CStr} {accepted known : List Char} {reply : String}
    (h : TokenFits next 20 fun _ _ => True) :
    ∃ t, doOption s next name accepted reply known = .ok t := by
  obtain ⟨option, rest, htoken, -⟩ := h
  unfold doOption
  rw [htoken]
  dsimp only [Outcome.bind]
  split_ifs <;> exact ⟨_, rfl⟩

theorem doType_fits (h : TokenFits next 20 fun _ _ => True) : ∃ t, doType s next = .ok t := by
  obtain ⟨datatype, rest, htoken, -⟩ := h
  unfold doType
  rw [htoken]
  dsimp only [Outcome.bind]
  split_ifs <;> exact ⟨_, rfl⟩

theorem doSite_fits (h : TokenFits next 10 fun siteCmd next =>
      stricmpEq siteCmd "diskfree".toList → TokenFits next 2 fun _ _ => True) :
    ∃ t, doSite server ans s next = .ok t := by
  obtain ⟨siteCmd, rest, htoken, hdisk⟩ := h
  unfold doSite
  rw [htoken]
  dsimp only [Outcome.bind]
  split_ifs with hstats hwho hhelp hdiskfree
  · exact ⟨_, rfl⟩
  · exact ⟨_, rfl⟩
  · exact ⟨_, rfl⟩
  · obtain ⟨driveLetter, rest', hletter, -⟩ := hdisk hdiskfree
    unfold doSiteDiskFree
    rw [hletter]
    dsimp only [Outcome.bind]
    split_ifs <;> exact ⟨_, rfl⟩
  · exact ⟨_, rfl⟩

variable {command : CStr}

theorem pathCommand_fits (hcwd : IsDirectoryPath s.client.cwd)
    (h : CommandFits s.client command next)
    (hcommand : pathCommand server ans s command next = some result) : ∃ t, result = .ok t := by
  have hpath := h.path
  unfold pathBuffers at hpath
  cases pathCommand_cases hcommand with
  | quit => exact ⟨_, rfl⟩
  | dele hdele =>
    unfold doDele
    split_ifs with hperm
    · exact ⟨_, rfl⟩
    · exact onPath_fits (hpath _ _ (by simp [hdele, hperm]))
  | rnfr hrnfr =>
    have hdele : isWord command ["DELE"] = false := isWord_of_ne hrnfr (by decide)
    unfold doRnfr
    split_ifs with hperm
    · exact ⟨_, rfl⟩
    · exact onPath_fits (hpath _ _ (by simp [hdele, hrnfr, hperm]))
  | rnto => exact ⟨_, rfl⟩
  | cwd hcwd' => exact doCwd_fits (h.cwd hcwd')
  | cdup => exact doCwd_up hcwd
  | pwd => exact ⟨_, rfl⟩
  | mkd hmkd =>
    have hdele : isWord command ["DELE"] = false := isWord_of_ne hmkd (by decide)
    have hrnfr : isWord command ["RNFR"] = false := isWord_of_ne hmkd (by decide)
    unfold doMkd
    split_ifs with hperm hupload
    · exact ⟨_, rfl⟩
    · exact ⟨_, rfl⟩
    · exact onPath_fits (hpath _ _ (by simp [hdele, hrnfr, hmkd, hperm, hupload]))
  | rmd hrmd =>
    have hdele : isWord command ["DELE"] = false := isWord_of_ne hrmd (by decide)
    have hrnfr : isWord command ["RNFR"] = false := isWord_of_ne hrmd (by decide)
    have hmkd : isWord command ["MKD", "XMKD"] = false := isWord_of_ne hrmd (by decide)
    unfold doRmd
    split_ifs with hperm
    · exact ⟨_, rfl⟩
    · exact onPath_fits (hpath _ _ (by simp [hdele, hrnfr, hmkd, hrmd, hperm]))

theorem xferCommand_fits (h : CommandFits s.client command next)
    (hcommand : xferCommand server ans s command next = some result) : ∃ t, result = .ok t := by
  unfold xferCommand at hcommand
  split_ifs at hcommand
  · cases hcommand
    exact ⟨_, rfl⟩
  · cases hcommand
    exact ⟨_, rfl⟩
  · cases hcommand
    exact ⟨_, rfl⟩
  · obtain ⟨listType, htype, rfl⟩ := Option.map_eq_some_iff.mp hcommand
    exact doXfer_fits (h.xfer listType htype)

theorem otherCommand_fits (h : CommandFits s.client command next)
    (hnone : pathCommand server ans s command next = none) :
    ∃ t, otherCommand server ans s command next = .ok t := by
  have hpath := h.path
  unfold pathBuffers at hpath
  obtain ⟨hdele, hrnfr, hmkd, hrmd⟩ := pathCommand_none hnone
  generalize hresult : otherCommand server ans s command next = result
  cases otherCommand_cases hresult with
  | mode hmode => exact doOption_fits (h.option (.inl hmode))
  | stru hstru => exact doOption_fits (h.option (.inr (.inl hstru)))
  | type htype => exact doType_fits (h.option (.inr (.inr htype)))
  | help => exact ⟨_, rfl⟩
  | mdtm hmdtm => exact onPath_fits (hpath _ _ (by simp [hdele, hrnfr, hmkd, hrmd, hmdtm]))
  | stat hstat => exact doStat_fits (hpath _ _ (by simp [hdele, hrnfr, hmkd, hrmd, hstat]))
  | site hsite => exact doSite_fits (h.site hsite)
  | answer => exact ⟨_, rfl⟩

theorem commandLine_fits (hcwd : IsDirectoryPath s.client.cwd)
    (h : CommandFits s.client command next) :
    ∃ t, commandLine server ans s command next = .ok t := by
  unfold commandLine
  split
  case h_1 hpath => exact pathCommand_fits hcwd h hpath
  case h_2 hxfer => exact xferCommand_fits h hxfer
  case h_3 hpath _ => exact otherCommand_fits h hpath

theorem runLine_fits {line : CStr} (hcwd : IsDirectoryPath s.client.cwd)
    (h : LineFits server s.client line) : ∃ t, runLine server ans s line = .ok t := by
  obtain ⟨word, rest, htoken, hfits⟩ := h
  unfold runLine
  rw [htoken]
  dsimp only [Outcome.bind]
  split_ifs with hempty
  · exact ⟨_, rfl⟩
  obtain ⟨huser, hpass, hrnto, hcommand⟩ := hfits hempty
  unfold runCommand
  split
  case h_1 hstate =>
    unfold userPrompt
    dsimp only
    split_ifs with hword hmany
    · exact ⟨_, rfl⟩
    · obtain ⟨name, rest', hname, hrec⟩ := huser hstate hword (by omega)
      rw [hname]
      dsimp only [Outcome.bind]
      split_ifs with hnone
      · exact ⟨_, rfl⟩
      · obtain ⟨found, hfound⟩ := hrec hnone
        rw [hfound]
        dsimp only
        split_ifs <;> exact ⟨_, rfl⟩
    · exact ⟨_, rfl⟩
  case h_2 hstate =>
    unfold passwordPrompt
    split_ifs with hword
    · obtain ⟨token, rest', hpassword, -⟩ := hpass hstate hword
      rw [hpassword]
      dsimp only [Outcome.bind]
      split_ifs <;> exact ⟨_, rfl⟩
    · exact ⟨_, rfl⟩
  case h_3 hstate =>
    split_ifs with hword
    · exact onPath_fits (hrnto hstate hword)
    · have h := hcommand (.inr hstate)
      exact commandLine_fits hcwd ⟨h.path, h.cwd, h.xfer, h.option, h.site⟩
  case h_4 hstate => exact commandLine_fits hcwd (hcommand (.inl hstate))
  all_goals exact ⟨_, rfl⟩

/-- **A call that fits runs to its end.** -/
theorem Call.run_fits {call : Call} (h : Standing server client)
    (hfits : call.Fits server client) : ∃ t, call.run server client = .ok t := by
  cases call with
  | dataConnection =>
    unfold Call.run
    split_ifs <;> exact ⟨_, rfl⟩
  | expire => exact ⟨_, rfl⟩
  | service ans =>
    obtain ⟨hxfer, hline⟩ := hfits
    have huntil : ∃ r, serviceUntilLine server ans ⟨client, []⟩ = .ok r := by
      have hclosed := @serviceRemoteClosed_waits server ans ⟨client, []⟩ h
      unfold serviceUntilLine
      dsimp only
      split_ifs
      · exact ⟨_, rfl⟩
      · obtain ⟨t, ht⟩ := @doDataXfer_fits server ans _ hclosed.standing.cwd hclosed.standing.xfer hxfer
        rw [ht]
        exact ⟨_, rfl⟩
    unfold Call.run
    dsimp only
    split_ifs
    · exact ⟨_, rfl⟩
    obtain ⟨⟨u, line⟩, hu⟩ := huntil
    have hwaits := serviceUntilLine_waits (by exact h) hu
    unfold serviceClient
    rw [hu]
    cases line with
    | none => exact ⟨_, rfl⟩
    | some line => exact runLine_fits hwaits.standing.cwd (hline u line hu)

end

end SdcBoot.Ftp
