/-
# The sandbox

A user with a sandbox sees a part of one drive, and every path he can make the server look at is
the DOS form of his root, alone or with names behind it.  The names are 8.3 names, so none of them
goes up or holds a separator.

This holds of every session in which the arrays of the server are large enough.  The path of a
listing or of an append is formed with the sandbox in front of it and may be longer than
`convertToDosPath` has room for.
-/
import SdcBoot.Ftp.Bounds

namespace SdcBoot.Ftp

open Lib List

/-! ## 1. What it is to be inside -/

/-- The DOS form of the root, alone or followed by names. -/
def Inside (drives : Drives) (root path : CStr) : Prop :=
  ∃ dos place, convertToDosPath drives root = .ok dos ∧
    (∀ c ∈ place, c ≠ [] ∧ c ≠ dot ∧ c ≠ dotDot ∧ ∀ x ∈ c, isSeparator x = false) ∧
    path = dos ++ render backslash place

/-- The paths of an event that are passed to the file system. -/
def Event.paths : Event → List CStr
  | .command _ | .password _ => []
  | .stat path | .findfirst path | .unlink path | .rmdir path => [path]
  | .fopen path _ _ | .mkdir path _ => [path]
  | .rename old new => [old, new]

/-- A user who passes `sanityCheck`, with a sandbox that it leaves as it is. -/
def FtpUser.Sandboxed (drives : Drives) (user : FtpUser) : Prop :=
  (∃ isDir checked, sanityCheck drives isDir user = .ok (none, checked) ∧
    checked.sandbox = user.sandbox) ∧ user.sandbox ≠ bracketNone

/-- A place below a root. -/
structure Below (drives : Drives) (root path : CStr) (place : List CStr) : Prop where
  component : ∀ c ∈ place, Component c
  path : path = dosLetters root ++ render backslash place

variable {drives : Drives} {path root : CStr} {place : List CStr} {server : Server} {call : Call}

section

variable (h : Below drives root path place)
include h

section

variable (hroot : Rooted drives root)
include hroot

section

variable (hplain : backslash ∉ root)
include hplain

theorem Below.inside (hfits : root.length ≤ 85) : Inside drives root path :=
  ⟨dosLetters root, place, hroot.convertToDosPath_self hplain hfits,
    fun c hc => (h.component c hc).plain, h.path⟩

/-- A path below the root does not end with a backslash. -/
theorem Below.getLast? : path.getLast? ≠ some backslash := by
  rw [h.path]
  rcases eq_or_ne place [] with rfl | hne
  · rw [render_nil, append_nil]
    exact hroot.getLast?_dosLetters hplain
  · refine getLast?_append_render hne (fun c hc => ?_) _
    obtain ⟨hempty, -, -, hsep⟩ := (h.component c hc).plain
    exact ⟨hempty, fun hmem => nomatch hsep _ hmem⟩

/-- The pattern for the files of a directory is one name more. -/
theorem Below.filesOf :
    Below drives root (filesOf path) (place ++ [allFiles]) where
  component := fun c hc => by
    rcases mem_append.mp hc with hc | hc
    · exact h.component c hc
    · rw [mem_singleton.mp hc]
      exact ⟨by decide, by decide, by decide⟩
  path := by
    rw [Ftp.filesOf, if_neg (h.getLast? hroot hplain), h.path]
    simp

end

end

end

/-! ## 2. Every path is below the root -/

section

variable {server : Server} {client : FtpClient} {path : CStr}

section

variable (hroot : Rooted server.drives client.ftproot)
include hroot

/-- What is formed with the root in front is below it, if it is formed at all. -/
theorem convertToDosPath_below (hplace : ∀ c ∈ place, Component c) {result : Outcome CStr}
    (h : convertToDosPath server.drives (client.ftproot ++ userPath place) = result) :
    (∃ path, result = .ok path ∧ Below server.drives client.ftproot path place) ∨
      result = .overrun := by
  rw [hroot.convertToDosPath hplace] at h
  split_ifs at h
  · exact .inl ⟨_, h.symm, hplace, rfl⟩
  · exact .inr h.symm

/-- `formFullPath` for a user with a root. -/
theorem formFullPath_below {maxOutBufferLen : Nat} {arg : CStr} :
    formFullPath server client maxOutBufferLen arg ≠ .error 2 ∧
      ∀ path, formFullPath server client maxOutBufferLen arg = .ok path →
        ∃ place, Below server.drives client.ftproot path place := by
  have hne : client.ftproot ≠ [] := by
    intro hnil
    have hlong := hroot.long
    rw [hnil, length_nil] at hlong
    omega
  unfold formFullPath
  split_ifs with hlong
  · exact ⟨nofun, nofun⟩
  cases hnorm : normalizeDir (userView client arg) (USR_MAX_PATHFILE_LENGTH + 20) with
  | overrun => exact ⟨nofun, nofun⟩
  | error rc => exact ⟨nofun, nofun⟩
  | ok newpath =>
    obtain ⟨place, -, hplace, rfl, -⟩ := normalizeDir_eq_ok (by decide) hnorm
    have hsame : withDriveSlash client (userPath place) = userPath place :=
      if_neg fun hslash => hne hslash.1
    dsimp only
    rw [hsame]
    split_ifs with hmax
    · exact ⟨nofun, nofun⟩
    · rcases convertToDosPath_below hroot hplace rfl with ⟨path, hpath, hbelow⟩ | hover
      · rw [hpath]
        refine ⟨nofun, fun path' hpath' => ⟨place, ?_⟩⟩
        cases hpath'
        exact hbelow
      · rw [hover]
        exact ⟨nofun, nofun⟩

theorem Reached.below
    (h : Reached server client path) : ∃ place, Below server.drives client.ftproot path place := by
  obtain ⟨maxOutBufferLen, arg, hok | ⟨herror, -⟩⟩ := h
  · exact (formFullPath_below hroot).2 path hok
  · exact absurd herror (formFullPath_below hroot).1

theorem ReachedBefore.below (h : ReachedBefore server client path) :
    ∃ place, Below server.drives client.ftproot path place := by
  obtain ⟨cwd, h⟩ := h
  exact @Reached.below server { client with cwd := cwd } path hroot h

theorem Entered.below
    (h : Entered server client path) : ∃ place, Below server.drives client.ftproot path place := by
  obtain ⟨parm, newpath, hnorm, -, hpath⟩ := h
  obtain ⟨place, -, hplace, rfl, -⟩ := normalizeDir_eq_ok (by decide) hnorm
  have hne : client.ftproot ≠ [] := by
    intro hnil
    have hlong := hroot.long
    rw [hnil, length_nil] at hlong
    omega
  rw [lookedUp, if_neg hne, dosBuffer] at hpath
  rcases convertToDosPath_below hroot hplace rfl with ⟨path', hpath', hbelow⟩ | hover
  · rw [hpath'] at hpath
    cases hpath
    exact ⟨place, hbelow⟩
  · rw [hover] at hpath
    cases hpath

end

/-- **Every event of a session with a root stays below it.** -/
theorem Origin.inside {e : Event} (hroot : Rooted server.drives client.ftproot)
    (hplain : backslash ∉ client.ftproot) (hfits : client.ftproot.length ≤ 85)
    (h : Origin server client e) :
    ∀ path ∈ e.paths, Inside server.drives client.ftproot path := by
  have hin {path : CStr} (h : ∃ place, Below server.drives client.ftproot path place) :
      Inside server.drives client.ftproot path := by
    obtain ⟨place, h⟩ := h
    exact h.inside hroot hplain hfits
  cases h with
  | command word => simp [Event.paths]
  | stat h => simpa [Event.paths] using hin (h.below hroot)
  | entered h => simpa [Event.paths] using hin (h.below hroot)
  | findfirst h => simpa [Event.paths] using hin (h.below hroot)
  | findfiles h =>
    obtain ⟨place, h⟩ := h.below hroot
    simpa [Event.paths] using hin ⟨_, h.filesOf hroot hplain⟩
  | fopen mode h => simpa [Event.paths] using hin ((formFullPath_below hroot).2 _ h)
  | unlink h => simpa [Event.paths] using hin (h.below hroot)
  | rename hold h => simpa [Event.paths] using ⟨hin (hold.below hroot), hin (h.below hroot)⟩
  | mkdir h => simpa [Event.paths] using hin ((formFullPath_below hroot).2 _ h)
  | rmdir h => simpa [Event.paths] using hin (h.below hroot)

end

/-! ## 3. Sessions -/

/-- A session as the calls go by: the events of a call, and the record behind it.  There is none
after a write behind the end of an array. -/
def step (server : Server) : Option FtpClient → Call → Option (List Event) × Option FtpClient
  | none, _ => (none, none)
  | some client, call =>
    match call.run server client with
    | .ok s => (some s.events, some s.client)
    | .error _ => (none, none)
    | .overrun => (none, none)

/-- The calls for which the arrays are large enough. -/
def Fitting (server : Server) : Option FtpClient → Call → Prop
  | none, _ => True
  | some client, call => call.Fits server client

instance (server : Server) (state : Option FtpClient) (call : Call) :
    Decidable (Fitting server state call) :=
  match state with
  | none => isTrue trivial
  | some client => inferInstanceAs (Decidable (call.Fits server client))

/-- A session under way. -/
def Running (server : Server) (state : Option FtpClient) : Prop :=
  ∃ client, state = some client ∧ Standing server client

theorem step_eq_of_fits {client : FtpClient} (h : Standing server client)
    (hfits : call.Fits server client) :
    ∃ s, call.run server client = .ok s ∧
      step server (some client) call = (some s.events, some s.client) := by
  obtain ⟨s, hs⟩ := Call.run_fits h hfits
  exact ⟨s, hs, by rw [step, hs]⟩

variable {state : Option FtpClient}

/-- **Every call leaves the session standing**, if the arrays are large enough. -/
theorem Running.step (h : Running server state)
    (hfits : Fitting server state call) : Running server (step server state call).2 := by
  obtain ⟨client, rfl, hstanding⟩ := h
  obtain ⟨s, hs, hstep⟩ := step_eq_of_fits hstanding hfits
  rw [hstep]
  exact ⟨s.client, rfl, (Call.run_served hstanding hs).standing⟩

/-- A call that keeps to the sandbox of the user it is run for. -/
def KeepsInside (server : Server) (before : Option FtpClient) :
    Option (List Event) × Option FtpClient → Prop
  | (some events, some after) =>
    IsDirectoryPath after.cwd ∧
      ∀ client, before = some client → client.user.Sandboxed server.drives →
        ∀ e ∈ events, ∀ path ∈ e.paths, Inside server.drives client.user.sandbox path
  | _ => False

theorem Running.keepsInside (h : Running server state) (hfits : Fitting server state call) :
    KeepsInside server state (Ftp.step server state call) := by
  obtain ⟨client, rfl, hstanding⟩ := h
  obtain ⟨s, hs, hstep⟩ := step_eq_of_fits hstanding hfits
  have hserved := Call.run_served hstanding hs
  rw [hstep]
  refine ⟨hserved.standing.cwd, fun client' hclient hsandboxed e he path hpath => ?_⟩
  cases hclient
  obtain ⟨⟨isDir, checked, hpassed, hsame⟩, hsandbox⟩ := hsandboxed
  obtain ⟨new, hnew, horigin, hpasswords⟩ := hserved.events
  rw [hnew] at he
  by_cases hsigned : client.state.signedIn
  · obtain ⟨hrooted, hplain, hshort⟩ := rooted_of_sanityCheck hpassed hsame hsandbox
    have hroot : client.ftproot = client.user.sandbox := by
      rw [hstanding.root hsigned, rootOf, if_neg hsandbox]
    have hlen : client.ftproot.length ≤ 85 := by
      unfold USR_MAX_PATH_LENGTH at hshort
      rw [hroot]
      omega
    rw [← hroot] at hrooted hplain ⊢
    exact (horigin hsigned e he).inside hrooted hplain hlen path hpath
  · obtain ⟨token, rfl⟩ := hpasswords hsigned e he
    simp [Event.paths] at hpath

/-- **The sandbox holds.**  In every session in which the arrays are large enough, the current
directory stays a directory path and every path that is passed to the file system is inside of the
sandbox. -/
theorem sandbox_holds (server : Server) (client : FtpClient) (calls : List Call)
    (h : Guarded (step server) (Fitting server) (some (startNewSession client)) calls) :
    Along (step server) (fun state _ result => KeepsInside server state result)
      (some (startNewSession client)) calls :=
  Along.of_invariant (I := Running server) (fun _ _ hrun hfits => hrun.step hfits)
    (fun _ _ hrun hfits => hrun.keepsInside hfits) calls _
    ⟨_, rfl, startNewSession_standing server client⟩ h

/-- A client who has got as far as his name. -/
def namesHimself : List Call := .service calm :: sends "USER bob"

/-- He signs in. -/
def signsIn : List Call := namesHimself ++ sends "PASS secret"

/-- The client changes to his upload directory, which is there. -/
def goesToUpload : List Call :=
  signsIn ++
    [.service { calm with
      recv := some ("CWD /IN".toList ++ [CR, LF])
      stat := fun _ => .directory },
    .service calm]

def inUpload : FtpClient :=
  (run (step oneUser) (some (startNewSession unused)) goesToUpload).getD unused

/-- There he makes a directory, tries to get out of the sandbox and stores a file. -/
def worksInside : List Call :=
  goesToUpload ++ sends "MKD NEW" ++ sends "CWD ../../OUT" ++ sends "PASV" ++ [.dataConnection] ++
    sends "STOR NEW/A.TXT" ++ [.service calm]

theorem worksInside_fits :
    Guarded (step oneUser) (Fitting oneUser) (some (startNewSession unused)) worksInside := by
  decide +kernel

/-- What he has done in his session. -/
def eventsOf (calls : List Call) : List Event :=
  (answers (step oneUser) (some (startNewSession unused)) calls).flatMap fun events =>
    events.getD []

/-- The DOS form of what he sees under some names. -/
def inFtp (names : List String) : CStr :=
  "C:".toList ++ render backslash (("FTP" :: names).map String.toList)

theorem sandbox_holds_worksInside : inUpload.user.Sandboxed oneUser.drives ∧
    Along (step oneUser) (fun state _ result => KeepsInside oneUser state result)
        (some (startNewSession unused)) worksInside ∧
      (eventsOf worksInside).flatMap Event.paths =
        [inFtp ["IN"], inFtp ["IN", "NEW"], inFtp ["IN", "NEW"], inFtp ["OUT"],
          inFtp ["IN", "NEW", "A.TXT"], inFtp ["IN", "NEW", "A.TXT"], inFtp ["IN", "NEW", "A.TXT"]] :=
  ⟨⟨⟨fun _ => true, inUpload.user, by decide +kernel, rfl⟩, by decide +kernel⟩,
    sandbox_holds oneUser unused worksInside worksInside_fits, by decide +kernel⟩

/-! ## 4. A listing that is too deep -/

/-- Six names of twelve characters are a path of 78, and with the sandbox one of 90. -/
def deepListing : List Call :=
  signsIn ++ sends "PASV" ++ [.dataConnection] ++
    sends "LIST /ABCDEFGH.123/ABCDEFGH.123/ABCDEFGH.123/ABCDEFGH.123/ABCDEFGH.123/ABCDEFGH.123"

/-- The listing writes behind the end of `rc` in `convertToDosPath`. -/
theorem deepListing_breaks : ¬ Along (step oneUser)
    (fun state _ result => KeepsInside oneUser state result)
    (some (startNewSession unused)) deepListing := by
  have hlost : none ∈ answers (step oneUser) (some (startNewSession unused)) deepListing := by
    decide +kernel
  intro h
  have hkept (state : Option FtpClient) (call : Call) (r : Option (List Event) × Option FtpClient)
      (h : KeepsInside oneUser state r) : r.1 ≠ none := by
    rintro hnone
    obtain ⟨events, after⟩ := r
    cases hnone
    exact h
  exact h.answers (· ≠ none) hkept none hlost rfl

end SdcBoot.Ftp
