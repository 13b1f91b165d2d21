/-
# Where the paths of a session come from

Every path a call hands to the file system was formed by `formFullPath`, or by `doCwd` in its own
way, from the root and the current directory the client had before the call; the one path that may be
older is what `RNFR` has kept for `RNTO`.  That is all the later modules need to know of the
routines, and it is shown here, routine by routine: what a call does besides is to change its own
record, and neither the user nor the root nor, `doCwd` apart, the current directory.  Most of them
create nothing (`Quiet`).
-/
import SdcBoot.Ftp.Service

namespace SdcBoot.Ftp

open Lib List

/-! ## 1. Origins -/

/-- A path `formFullPath` leaves in its buffer, where the commands go on. -/
def Reached (server : Server) (client : FtpClient) (path : CStr) : Prop :=
  ∃ maxOutBufferLen arg, formFullPath server client maxOutBufferLen arg = .ok path ∨
    formFullPath server client maxOutBufferLen arg = .error 2 ∧ path = [slash]

/-- A path that was reached from the same root, but perhaps from another directory. -/
def ReachedBefore (server : Server) (client : FtpClient) (path : CStr) : Prop :=
  ∃ cwd, Reached server { client with cwd := cwd } path

/-- A path `doCwd` looks up. -/
def Entered (server : Server) (client : FtpClient) (path : CStr) : Prop :=
  ∃ parm newpath, normalizeDir parm USR_MAX_PATH_LENGTH = .ok newpath ∧
    client.ftproot.length + newpath.length ≤ USR_MAX_PATH_LENGTH - 2 ∧
    dosBuffer server.drives (lookedUp client newpath) = .ok path

/-- What can be said about an event of a call on a client, other than that a password is compared. -/
inductive Origin (server : Server) (client : FtpClient) : Event → Prop where
  | command (word : CStr) : Origin server client (.command word)
  | stat {path : CStr} (h : Reached server client path) : Origin server client (.stat path)
  | entered {path : CStr} (h : Entered server client path) : Origin server client (.stat path)
  | findfirst {path : CStr} (h : Reached server client path) :
      Origin server client (.findfirst path)
  | findfiles {path : CStr} (h : Reached server client path) :
      Origin server client (.findfirst (filesOf path))
  | fopen {path arg : CStr} (mode : CStr) {maxOutBufferLen : Nat}
      (h : formFullPath server client maxOutBufferLen arg = .ok path) :
      Origin server client (.fopen path mode arg)
  | unlink {path : CStr} (h : Reached server client path) : Origin server client (.unlink path)
  | rename {old new : CStr} (hold : ReachedBefore server client old)
      (h : Reached server client new) : Origin server client (.rename old new)
  | mkdir {path arg : CStr} {maxOutBufferLen : Nat}
      (h : formFullPath server client maxOutBufferLen arg = .ok path) :
      Origin server client (.mkdir path arg)
  | rmdir {path : CStr} (h : Reached server client path) : Origin server client (.rmdir path)

variable {server : Server} {client client' : FtpClient} {path : CStr} {e : Event} {s t u : Session}

theorem Reached.of_ok {maxOutBufferLen : Nat} {arg : CStr}
    (h : formFullPath server client maxOutBufferLen arg = .ok path) :
    Reached server client path := ⟨_, _, .inl h⟩

section

variable (hroot : client'.ftproot = client.ftproot)
include hroot

/-- `formFullPath` reads two fields of the client. -/
theorem formFullPath_congr (hcwd : client'.cwd = client.cwd) (maxOutBufferLen : Nat) (arg : CStr) :
    formFullPath server client' maxOutBufferLen arg =
      formFullPath server client maxOutBufferLen arg := by
  unfold formFullPath userView withDriveSlash
  rw [hroot, hcwd]

theorem Reached.congr (hcwd : client'.cwd = client.cwd)
    (h : Reached server client' path) : Reached server client path := by
  obtain ⟨maxOutBufferLen, arg, h⟩ := h
  rw [formFullPath_congr hroot hcwd] at h
  exact ⟨maxOutBufferLen, arg, h⟩

theorem ReachedBefore.congr
    (h : ReachedBefore server client' path) : ReachedBefore server client path := by
  obtain ⟨cwd, h⟩ := h
  exact ⟨cwd, Reached.congr (by exact hroot) (by rfl) h⟩

end

theorem Reached.before
    (h : Reached server client path) : ReachedBefore server client path := ⟨client.cwd, h⟩

theorem Origin.congr (hroot : client'.ftproot = client.ftproot) (hcwd : client'.cwd = client.cwd)
    (h : Origin server client' e) : Origin server client e := by
  cases h with
  | command word => exact .command word
  | stat h => exact .stat (h.congr hroot hcwd)
  | entered h =>
    obtain ⟨parm, newpath, h⟩ := h
    rw [lookedUp, hroot] at h
    exact .entered ⟨parm, newpath, h⟩
  | findfirst h => exact .findfirst (h.congr hroot hcwd)
  | findfiles h => exact .findfiles (h.congr hroot hcwd)
  | fopen mode h => exact .fopen mode (formFullPath_congr hroot hcwd _ _ ▸ h)
  | unlink h => exact .unlink (h.congr hroot hcwd)
  | rename hold h => exact .rename (hold.congr hroot) (h.congr hroot hcwd)
  | mkdir h => exact .mkdir (formFullPath_congr hroot hcwd _ _ ▸ h)
  | rmdir h => exact .rmdir (h.congr hroot hcwd)

/-! ## 2. What a routine leaves alone -/

/-- Nothing has happened that anyone outside of the record can see. -/
structure Same (s s' : Session) : Prop where
  state : s'.client.state = s.client.state
  user : s'.client.user = s.client.user
  ftproot : s'.client.ftproot = s.client.ftproot
  cwd : s'.client.cwd = s.client.cwd
  loginAttempts : s'.client.loginAttempts = s.client.loginAttempts
  filespec : s'.client.filespec = s.client.filespec
  events : s'.events = s.events
  xfer : s'.client.dataXferState = s.client.dataXferState ∨ s'.client.dataXferState ≠ .init

theorem Same.refl (s : Session) : Same s s := ⟨rfl, rfl, rfl, rfl, rfl, rfl, rfl, .inl rfl⟩

theorem xfer_trans {a b c : DataXferState} (h : b = a ∨ b ≠ .init) (h' : c = b ∨ c ≠ .init) :
    c = a ∨ c ≠ .init := by
  rcases h' with rfl | h'
  · exact h
  · exact .inr h'

theorem Same.trans (h : Same s t) (h' : Same t u) : Same s u :=
  ⟨h'.state.trans h.state, h'.user.trans h.user, h'.ftproot.trans h.ftproot, h'.cwd.trans h.cwd,
    h'.loginAttempts.trans h.loginAttempts, h'.filespec.trans h.filespec, h'.events.trans h.events,
    xfer_trans h.xfer h'.xfer⟩

theorem Same.say (s : Session) (text : String) (args : List CStr) : Same s (s.say text args) :=
  ⟨rfl, rfl, rfl, rfl, rfl, rfl, rfl, .inl rfl⟩

theorem Same.setXfer (s : Session) {state : DataXferState} (h : state ≠ .init) :
    Same s (s.setXfer state) :=
  ⟨rfl, rfl, rfl, rfl, rfl, rfl, rfl, .inr h⟩

theorem Same.clearOutput (s : Session) : Same s (clearOutput s) := ⟨rfl, rfl, rfl, rfl, rfl, rfl, rfl, .inl rfl⟩

theorem Same.sendOutput (ans : Answers) (s : Session) : Same s (sendOutput ans s) := by
  unfold Ftp.sendOutput
  split_ifs
  · exact .clearOutput s
  · exact .refl s

theorem Same.endDataTransfers (s : Session) (msg : String) : Same s (endDataTransfers s msg) := by
  unfold Ftp.endDataTransfers
  dsimp only
  split_ifs <;> exact ⟨rfl, rfl, rfl, rfl, rfl, rfl, rfl, .inr nofun⟩

/-! ## 3. What a routine creates, and what it does -/

/-- What an event creates or appends to, if the file system plays along: the path, and what the
client has called it. -/
def Event.creates (ans : Answers) : Event → Option (CStr × CStr)
  | .fopen path mode arg =>
    if charAt mode 0 ≠ 'r' ∧ ans.opens path then some (path, arg) else none
  | .mkdir path arg => if ans.succeeds path then some (path, arg) else none
  | _ => none

def created (ans : Answers) (events : List Event) : List (CStr × CStr) :=
  events.filterMap (Event.creates ans)

/-- A routine that creates nothing. -/
def CreatesNothing (ans : Answers) (s t : Session) : Prop :=
  created ans t.events = created ans s.events

section

variable {ans : Answers}

theorem created_emit (e : Event) :
    created ans (s.emit e).events = created ans s.events ++ (e.creates ans).toList := by
  simp only [created, Session.emit, filterMap_append, filterMap_cons]
  cases e.creates ans <;> rfl

theorem CreatesNothing.refl : CreatesNothing ans s s := rfl

theorem CreatesNothing.trans (h : CreatesNothing ans s t) (h' : CreatesNothing ans t u) :
    CreatesNothing ans s u := Eq.trans h' h

theorem Same.createsNothing (h : Same s t) : CreatesNothing ans s t := by
  unfold CreatesNothing
  rw [h.events]

/-- An event that creates nothing. -/
theorem CreatesNothing.emit {e : Event} (he : e.creates ans = none) :
    CreatesNothing ans s (s.emit e) := by
  unfold CreatesNothing
  rw [created_emit, he, Option.toList_none, append_nil]

theorem CreatesNothing.say (h : CreatesNothing ans s t) (text : String) (args : List CStr) :
    CreatesNothing ans s (t.say text args) := h

end

/-- What a call, or a part of one, does: the events it adds all have an origin. -/
structure Does (server : Server) (s s' : Session) : Prop where
  state : s'.client.state = s.client.state
  user : s'.client.user = s.client.user
  ftproot : s'.client.ftproot = s.client.ftproot
  cwd : s'.client.cwd = s.client.cwd
  loginAttempts : s'.client.loginAttempts = s.client.loginAttempts
  xfer : s'.client.dataXferState = s.client.dataXferState ∨ s'.client.dataXferState ≠ .init
  filespec : s'.client.filespec = s.client.filespec ∨ s.client.dataXferState = .init
  events : ∃ new, s'.events = s.events ++ new ∧ ∀ e ∈ new, Origin server s.client e

theorem Same.does {s' : Session} (h : Same s s') : Does server s s' :=
  ⟨h.state, h.user, h.ftproot, h.cwd, h.loginAttempts, h.xfer, .inl h.filespec, [],
    by rw [h.events, append_nil], by simp⟩

theorem Does.trans (h : Does server s t) (h' : Does server t u) : Does server s u := by
  obtain ⟨new, hnew, hall⟩ := h.events
  obtain ⟨new', hnew', hall'⟩ := h'.events
  refine ⟨h'.state.trans h.state, h'.user.trans h.user, h'.ftproot.trans h.ftproot,
    h'.cwd.trans h.cwd, h'.loginAttempts.trans h.loginAttempts, xfer_trans h.xfer h'.xfer, ?_,
    new ++ new', ?_, ?_⟩
  · rcases h.filespec with hspec | hinit
    · rcases h'.filespec with hspec' | hinit
      · exact .inl (hspec'.trans hspec)
      · rcases h.xfer with hsame | hno
        · exact .inr (hsame ▸ hinit)
        · exact absurd hinit hno
    · exact .inr hinit
  · rw [hnew', hnew, append_assoc]
  · intro e he
    rcases mem_append.mp he with he | he
    · exact hall e he
    · exact (hall' e he).congr h.ftproot h.cwd

theorem Same.trans_does (h : Same s t) (h' : Does server t u) : Does server s u :=
  h.does.trans h'

theorem Does.emit (h : Origin server s.client e) : Does server s (s.emit e) :=
  ⟨rfl, rfl, rfl, rfl, rfl, .inl rfl, .inl rfl, [e], rfl, by simpa using h⟩

theorem Does.emit_trans (h : Origin server s.client e)
    (h' : Does server (s.emit e) u) : Does server s u :=
  (Does.emit h).trans h'

theorem Does.say (h : Does server s u) (text : String)
    (args : List CStr) : Does server s (u.say text args) :=
  ⟨h.state, h.user, h.ftproot, h.cwd, h.loginAttempts, h.xfer, h.filespec, h.events⟩

/-- What is done without creating anything. -/
structure Quiet (server : Server) (ans : Answers) (s s' : Session) : Prop where
  does : Does server s s'
  nothing : CreatesNothing ans s s'

section

variable {ans : Answers}

theorem Same.quiet (h : Same s t) : Quiet server ans s t := ⟨h.does, h.createsNothing⟩

theorem Quiet.trans (h : Quiet server ans s t) (h' : Quiet server ans t u) :
    Quiet server ans s u := ⟨h.does.trans h'.does, h.nothing.trans h'.nothing⟩

theorem Quiet.emit (h : Origin server s.client e) (he : e.creates ans = none := by rfl) :
    Quiet server ans s (s.emit e) := ⟨.emit h, .emit he⟩

theorem Quiet.say (h : Quiet server ans s u) (text : String) (args : List CStr) :
    Quiet server ans s (u.say text args) := ⟨h.does.say text args, h.nothing⟩

end

/-! ## 4. Commands on paths -/

section

variable {server : Server} {ans : Answers} {s s' : Session} {nextTokenPtr : Option CStr}

variable {maxOutBufferLen : Nat} {filespec fullpath : CStr}

variable {bufLen outBufferLen : Nat} {bad : String} {body : Session → CStr → CStr → Stat → Session}

/-- The two ways a command on a path goes. -/
theorem onPath_cases
    (h : onPath server ans s nextTokenPtr bufLen maxOutBufferLen bad body = .ok s') :
    Same s s' ∨ ∃ userPart fullpath,
      formFullPath server s.client maxOutBufferLen userPart = .ok fullpath ∧
        s' = body (s.emit (.stat fullpath)) userPart fullpath (ans.stat fullpath) := by
  obtain ⟨⟨userPart, next⟩, -, h⟩ := Outcome.bind_eq_ok h
  dsimp only at h
  split_ifs at h
  · cases h
    exact .inl (.say ..)
  · cases hpath : formFullPath server s.client maxOutBufferLen userPart with
    | overrun => simp [hpath] at h
    | error rc =>
      simp only [hpath] at h
      cases h
      exact .inl (.say ..)
    | ok fullpath =>
      simp only [hpath] at h
      cases h
      exact .inr ⟨userPart, fullpath, hpath, rfl⟩

theorem onPath_quiet (hbody : ∀ s userPart fullpath st,
      formFullPath server s.client maxOutBufferLen userPart = .ok fullpath →
        Quiet server ans s (body s userPart fullpath st))
    (h : onPath server ans s nextTokenPtr bufLen maxOutBufferLen bad body = .ok s') :
    Quiet server ans s s' := by
  rcases onPath_cases h with hsame | ⟨userPart, fullpath, hpath, rfl⟩
  · exact hsame.quiet
  · exact .trans (.emit (.stat (.of_ok hpath))) (hbody _ _ _ _ hpath)

theorem doMdtm_quiet (h : doMdtm server ans s nextTokenPtr = .ok s') : Quiet server ans s s' := by
  refine onPath_quiet (fun s userPart fullpath st hpath => ?_) h
  split <;> exact (Same.say ..).quiet

theorem doDele_quiet (h : doDele server ans s nextTokenPtr = .ok s') : Quiet server ans s s' := by
  unfold doDele at h
  split_ifs at h
  · cases h
    exact (Same.say ..).quiet
  · refine onPath_quiet (fun s userPart fullpath st hpath => ?_) h
    split
    · exact (Same.say ..).quiet
    · have hunlink : Quiet server ans s (s.emit (.unlink fullpath)) :=
        .emit (.unlink (.of_ok hpath))
      split_ifs <;> exact hunlink.say _ _
    · exact (Same.say ..).quiet

theorem doRmd_quiet (h : doRmd server ans s nextTokenPtr = .ok s') : Quiet server ans s s' := by
  unfold doRmd at h
  split_ifs at h
  · cases h
    exact (Same.say ..).quiet
  · refine onPath_quiet (fun s userPart fullpath st hpath => ?_) h
    split
    · exact (Same.say ..).quiet
    · have hrmdir : Quiet server ans s (s.emit (.rmdir fullpath)) := .emit (.rmdir (.of_ok hpath))
      split_ifs <;> exact hrmdir.say _ _
    · exact (Same.say ..).quiet

theorem doMkd_does (h : doMkd server ans s nextTokenPtr = .ok s') : Does server s s' := by
  unfold doMkd at h
  split_ifs at h
  · cases h
    exact (Same.say ..).does
  · cases h
    exact (Same.say ..).does
  · rcases onPath_cases h with hsame | ⟨userPart, fullpath, hpath, rfl⟩
    · exact hsame.does
    refine .emit_trans (.stat (.of_ok hpath)) ?_
    split
    · have hmkdir := Does.emit (s := s.emit (.stat fullpath)) (.mkdir hpath)
      split_ifs <;> exact hmkdir.say _ _
    · exact (Same.say ..).does

theorem doRnto_quiet (hold : ReachedBefore server s.client s.client.filespec)
    (h : doRnto server ans s nextTokenPtr = .ok s') : Quiet server ans s s' := by
  rcases onPath_cases h with hsame | ⟨userPart, fullpath, hpath, rfl⟩
  · exact hsame.quiet
  refine .trans (.emit (.stat (.of_ok hpath))) ?_
  split
  · have hrename : Quiet server ans (s.emit (.stat fullpath)) _ :=
      .emit (.rename hold (.of_ok hpath))
    split_ifs <;> exact hrename.say _ _
  · exact (Same.say ..).quiet

/-! ## 5. Listings and transfers -/

theorem findFirst_quiet (hpath : Reached server s.client fullpath) :
    Quiet server ans s (findFirst ans s fullpath).1 := by
  unfold findFirst
  split_ifs with hlen hdir
  · exact .trans (.emit (.stat hpath)) (.emit (.findfiles hpath))
  · exact .trans (.emit (.stat hpath)) (.emit (.findfirst hpath))
  · exact .emit (.findfirst hpath)

theorem doStatLine_same (ans : Answers) (s : Session) : Same s (doStatLine ans s) := by
  unfold doStatLine
  split_ifs <;> exact ⟨rfl, rfl, rfl, rfl, rfl, rfl, rfl, .inl rfl⟩

theorem doStatSearch_quiet (hpath : Reached server s.client fullpath) :
    Quiet server ans s (doStatSearch ans s fullpath) := by
  have hfirst := @findFirst_quiet server ans s _ hpath
  unfold doStatSearch
  dsimp only
  split_ifs
  · obtain ⟨hdoes, hnothing⟩ := hfirst
    exact ⟨⟨hdoes.state, hdoes.user, hdoes.ftproot, hdoes.cwd, hdoes.loginAttempts,
      hdoes.xfer, hdoes.filespec, hdoes.events⟩, hnothing⟩
  · exact hfirst.say _ _

theorem Same.doStatStatus (s : Session) : Same s (doStatStatus s) :=
  (((Same.say s ..).trans (.say ..)).trans (.say ..)).trans (.say ..)

theorem doStat_quiet (h : doStat server ans s nextTokenPtr = .ok s') : Quiet server ans s s' := by
  obtain ⟨⟨parm, next⟩, -, h⟩ := Outcome.bind_eq_ok h
  dsimp only at h
  split_ifs at h
  · cases h
    exact (Same.doStatStatus s).quiet
  · have hsay := Same.say s "211-Status of %s" [parm]
    cases hpath : formFullPath server (s.say "211-Status of %s" [parm]).client
        USR_MAX_PATHFILE_LENGTH parm with
    | overrun => simp [hpath] at h
    | ok fullpath =>
      simp only [hpath] at h
      cases h
      exact hsay.quiet.trans (doStatSearch_quiet (.of_ok hpath))
    | error rc =>
      simp only [hpath] at h
      split_ifs at h with hrc
      · cases h
        exact hsay.quiet.trans (doStatSearch_quiet ⟨_, _, .inr ⟨hrc ▸ hpath, rfl⟩⟩)
      · cases h
        exact (hsay.trans (.say ..)).quiet

/-- The two ways a path for a transfer is formed. -/
theorem formFullPath_DataXfer_cases {body : CStr → Outcome Session}
    (h : formFullPath_DataXfer server s outBufferLen filespec body = .ok s') :
    Same s s' ∨ ∃ fullpath, Reached server s.client fullpath ∧
      (isListing s.client.dataXferType = false →
        formFullPath server s.client outBufferLen filespec = .ok fullpath) ∧
      body fullpath = .ok s' := by
  unfold formFullPath_DataXfer at h
  cases hpath : formFullPath server s.client outBufferLen filespec with
  | overrun => simp [hpath] at h
  | ok fullpath =>
    simp only [hpath] at h
    exact .inr ⟨fullpath, .of_ok hpath, fun _ => rfl, h⟩
  | error rc =>
    simp only [hpath] at h
    split_ifs at h with hlist
    · exact .inr ⟨[slash], ⟨_, _, .inr ⟨hlist.1 ▸ hpath, rfl⟩⟩, by simp [hlist.2], h⟩
    all_goals
      cases h
      exact .inl (.endDataTransfers ..)

theorem startConnection_xfer (ans : Answers) (s : Session) :
    (startConnection ans s).client.dataXferState ≠ .init := by
  unfold startConnection
  dsimp only
  split_ifs <;> exact nofun

theorem Same.startConnection (ans : Answers) (s : Session) : Same s (startConnection ans s) := by
  have hxfer := startConnection_xfer ans s
  unfold Ftp.startConnection at hxfer ⊢
  dsimp only at hxfer ⊢
  split_ifs at hxfer ⊢
  · exact ⟨rfl, rfl, rfl, rfl, rfl, rfl, rfl, .inr hxfer⟩
  · exact ⟨rfl, rfl, rfl, rfl, rfl, rfl, rfl, .inr hxfer⟩
  · exact .endDataTransfers ..
  · exact .endDataTransfers ..
  · exact Same.trans (t := { s with client := { s.client with ds := true } })
      ⟨rfl, rfl, rfl, rfl, rfl, rfl, rfl, .inl rfl⟩ (.endDataTransfers ..)
  · exact ⟨rfl, rfl, rfl, rfl, rfl, rfl, rfl, .inr hxfer⟩

/-- `filespec` is set, and one path is looked up. -/
theorem Quiet.setFilespec_stat (hinit : s.client.dataXferState = .init)
    (h : Reached server s.client path) (hsame : Same
      (({ s with client := { s.client with filespec := filespec } } : Session).emit (.stat path)) s') :
    Quiet server ans s s' :=
  ⟨⟨hsame.state, hsame.user, hsame.ftproot, hsame.cwd, hsame.loginAttempts, hsame.xfer, .inr hinit,
    [.stat path], hsame.events, fun e he => by rw [mem_singleton.mp he]; exact .stat h⟩,
    (CreatesNothing.emit (s := s) rfl).trans hsame.createsNothing⟩

theorem Quiet.setFilespec (hinit : s.client.dataXferState = .init)
    (hsame : Same { s with client := { s.client with filespec := filespec } } s') :
    Quiet server ans s s' :=
  ⟨⟨hsame.state, hsame.user, hsame.ftproot, hsame.cwd, hsame.loginAttempts, hsame.xfer, .inr hinit,
    [], by rw [hsame.events, append_nil], by simp⟩, hsame.createsNothing⟩

/-- The look at the file before a transfer is started. -/
theorem xferInit_lookup {found : CStr → Prop} [DecidablePred found]
    {text : String} {s₁ : Session} (hinit : s.client.dataXferState = .init)
    (hs₁ : s₁ = { s with client := { s.client with filespec := filespec } })
    (hlist : isListing s₁.client.dataXferType = false)
    (h : formFullPath_DataXfer server s₁ USR_MAX_PATHFILE_LENGTH filespec (fun fullpath =>
      if found fullpath then .ok (endDataTransfers (s₁.emit (.stat fullpath)) text)
      else .ok (startConnection ans (s₁.emit (.stat fullpath)))) = .ok s') :
    Quiet server ans s s' ∧ s'.client.dataXferState ≠ .init := by
  subst hs₁
  unfold formFullPath_DataXfer at h
  cases hpath : formFullPath server
      ({ s with client := { s.client with filespec := filespec } } : Session).client
      USR_MAX_PATHFILE_LENGTH filespec with
  | overrun => simp [hpath] at h
  | ok fullpath =>
    simp only [hpath] at h
    have hreached : Reached server s.client fullpath := (Reached.of_ok hpath).congr rfl rfl
    split_ifs at h
    · cases h
      exact ⟨.setFilespec_stat hinit hreached (.endDataTransfers ..), nofun⟩
    · cases h
      exact ⟨.setFilespec_stat hinit hreached (.startConnection ..), startConnection_xfer _ _⟩
  | error rc =>
    simp only [hpath] at h
    rw [if_neg (by simp [hlist])] at h
    split_ifs at h
    all_goals
      cases h
      exact ⟨.setFilespec hinit (.endDataTransfers ..), nofun⟩

/-- **A transfer that is started** has left its first state, whatever has become of it. -/
theorem xferInit_quiet (hinit : s.client.dataXferState = .init)
    (h : xferInit server ans s nextTokenPtr = .ok s') :
    Quiet server ans s s' ∧ s'.client.dataXferState ≠ .init := by
  obtain ⟨⟨filespec, next⟩, -, h⟩ := Outcome.bind_eq_ok h
  dsimp only at h
  split_ifs at h with hlen hretr hstor
  · exact xferInit_lookup hinit rfl (by rw [hretr]; rfl) h
  · exact xferInit_lookup hinit rfl (by rw [hstor]; rfl) h
  · cases h
    exact ⟨.setFilespec hinit (.startConnection ..), startConnection_xfer _ _⟩

theorem Same.xferConnecting (ans : Answers) (s : Session) : Same s (xferConnecting ans s) := by
  have hwait : Same s (if ans.timedOut = true then
      Ftp.endDataTransfers s Msg_425_Cant_Open_Conn else s) := by
    split_ifs
    · exact .endDataTransfers ..
    · exact .refl s
  unfold Ftp.xferConnecting
  dsimp only
  split_ifs at hwait ⊢
  all_goals first
    | exact hwait
    | exact .setXfer s (by decide)

theorem Same.xferActive (ans : Answers) (s : Session) : Same s (xferActive ans s) := by
  unfold Ftp.xferActive
  have hclosed : Same s (if ans.dsRemoteClosed = true ∧ isStore s.client.dataXferType = false then
      Ftp.endDataTransfers s Msg_426_Request_term else s) := by
    split_ifs
    · exact .endDataTransfers ..
    · exact .refl s
  dsimp only
  split
  · exact hclosed
  · exact hclosed.trans ((Same.setXfer _ (by decide)).trans (.say ..))
  · exact hclosed.trans (.endDataTransfers ..)

theorem Same.xferClosing (ans : Answers) (s : Session) : Same s (xferClosing ans s) := by
  unfold Ftp.xferClosing
  dsimp only
  split_ifs
  · exact ⟨rfl, rfl, rfl, rfl, rfl, rfl, rfl, .inl rfl⟩
  · exact ⟨rfl, rfl, rfl, rfl, rfl, rfl, rfl, .inr nofun⟩

theorem openFile_does {mode arg : CStr} {reply : Option Reply}
    (hpath : formFullPath server s.client maxOutBufferLen arg = .ok fullpath) :
    Does server s (openFile ans s fullpath mode arg reply) := by
  refine .emit_trans (.fopen mode hpath) ?_
  unfold openFile
  split_ifs
  · exact (Same.endDataTransfers ..).does
  · cases reply with
    | none => exact (Same.setXfer _ (by decide)).does
    | some reply => exact ((Same.say ..).trans (.setXfer _ (by decide))).does

/-- A transfer of a file has no use for the root above the drives. -/
theorem formFullPath_DataXfer_file
    {body : CStr → Outcome Session} (hlist : isListing s.client.dataXferType = false)
    (hbody : ∀ fullpath, formFullPath server s.client outBufferLen filespec = .ok fullpath →
      body fullpath = .ok s' → Does server s s')
    (h : formFullPath_DataXfer server s outBufferLen filespec body = .ok s') :
    Does server s s' := by
  rcases formFullPath_DataXfer_cases h with hsame | ⟨fullpath, -, hpath, hdone⟩
  · exact hsame.does
  · exact hbody fullpath (hpath hlist) hdone

theorem storeUnique_does : ∀ {left : Nat} {s : Session},
    isListing s.client.dataXferType = false → storeUnique server ans left s = .ok s' →
      Does server s s'
  | 0, s, _, h => by
    cases h
    exact (Same.endDataTransfers ..).does
  | left + 1, s, hlist, h => by
    refine formFullPath_DataXfer_file hlist (fun fullpath hpath hbody => ?_) h
    refine .emit_trans (.stat (.of_ok hpath)) ?_
    split_ifs at hbody
    · cases hbody
      exact openFile_does (s := s.emit (.stat fullpath)) hpath
    · exact storeUnique_does hlist hbody

/-- **A transfer that gets its connection** opens or lists what `filespec` names. -/
theorem xferConnected_does (h : xferConnected server ans s = .ok s') : Does server s s' := by
  have hstat {path : CStr} {n : Nat} {arg : CStr}
      (hpath : formFullPath server s.client n arg = .ok path) :
      Origin server s.client (.stat path) := .stat (.of_ok hpath)
  unfold xferConnected at h
  split at h
  · cases h
    exact (Same.setXfer s (by decide)).does
  case h_2 | h_3 =>
    refine (Same.say s "150 Sending file list" []).trans_does ?_
    rcases formFullPath_DataXfer_cases h with hsame | ⟨fullpath, hpath, -, hbody⟩
    · exact hsame.does
    · cases hbody
      have hfirst := (@findFirst_quiet server ans (s.say _ _) _ hpath).does
      exact ⟨hfirst.state, hfirst.user, hfirst.ftproot, hfirst.cwd, hfirst.loginAttempts,
        .inr (by simp [Session.setXfer]), hfirst.filespec, hfirst.events⟩
  case h_4 hretr =>
    refine formFullPath_DataXfer_file (by rw [hretr]; rfl) (fun fullpath hpath hbody => ?_) h
    refine .emit_trans (hstat hpath) ?_
    split_ifs at hbody
    · cases hbody
      exact (Same.endDataTransfers ..).does
    all_goals
      cases hbody
      exact (Same.say ..).trans_does (openFile_does hpath)
  case h_5 hstor =>
    refine formFullPath_DataXfer_file (by rw [hstor]; rfl) (fun fullpath hpath hbody => ?_) h
    refine .emit_trans (hstat hpath) ?_
    split_ifs at hbody
    · cases hbody
      exact (Same.endDataTransfers ..).does
    · cases hbody
      exact (Same.say ..).trans_does (openFile_does hpath)
  case h_6 hstorA =>
    refine formFullPath_DataXfer_file (by rw [hstorA]; rfl) (fun fullpath hpath hbody => ?_) h
    refine .emit_trans (hstat hpath) ?_
    split_ifs at hbody
    · cases hbody
      exact (Same.endDataTransfers ..).does
    · cases hbody
      exact (Same.say ..).trans_does (openFile_does hpath)
  case h_7 hstorU => exact storeUnique_does (by rw [hstorU]; rfl) h

theorem doDataXfer_does (h : doDataXfer server ans s nextTokenPtr = .ok s') :
    Does server s s' := by
  unfold doDataXfer at h
  split at h
  · cases h
    exact (Same.refl s).does
  · exact (xferInit_quiet ‹_› h).1.does
  · cases h
    exact (Same.xferConnecting ans s).does
  · exact xferConnected_does h
  · cases h
    exact (Same.xferActive ans s).does
  · cases h
    exact (Same.xferClosing ans s).does

theorem Same.doPort (ans : Answers) (s : Session) : Same s (doPort ans s) := by
  unfold Ftp.doPort
  split_ifs
  · exact .say ..
  · cases ans.sscanfPort with
    | none => exact ⟨rfl, rfl, rfl, rfl, rfl, rfl, rfl, .inl rfl⟩
    | some port => exact ⟨rfl, rfl, rfl, rfl, rfl, rfl, rfl, .inl rfl⟩

theorem Same.doPasv (ans : Answers) (s : Session) : Same s (doPasv ans s) := by
  unfold Ftp.doPasv
  split_ifs <;> exact ⟨rfl, rfl, rfl, rfl, rfl, rfl, rfl, .inl rfl⟩

theorem Same.foldl_say : ∀ (texts : List String) (s : Session),
    Same s (texts.foldl (fun s text => s.say text []) s)
  | [], s => .refl s
  | _ :: texts, s => (Same.say s _ _).trans (Same.foldl_say texts _)

theorem Same.doHelp (s : Session) : Same s (doHelp s) := .foldl_say helpTexts s

theorem doType_same (h : doType s nextTokenPtr = .ok s') : Same s s' := by
  obtain ⟨⟨datatype, next⟩, -, h⟩ := Outcome.bind_eq_ok h
  dsimp only at h
  split_ifs at h <;> cases h <;> exact ⟨rfl, rfl, rfl, rfl, rfl, rfl, rfl, .inl rfl⟩

theorem doOption_same {name : CStr} {accepted known : List Char} {reply : String}
    (h : doOption s nextTokenPtr name accepted reply known = .ok s') : Same s s' := by
  obtain ⟨⟨option, next⟩, -, h⟩ := Outcome.bind_eq_ok h
  dsimp only at h
  split_ifs at h <;> cases h <;> exact .say ..

theorem doSiteDiskFree_same (h : doSiteDiskFree server ans s nextTokenPtr = .ok s') :
    Same s s' := by
  obtain ⟨⟨driveLetter, next⟩, -, h⟩ := Outcome.bind_eq_ok h
  dsimp only at h
  split_ifs at h <;> cases h <;> exact .say ..

theorem doSite_same (h : doSite server ans s nextTokenPtr = .ok s') : Same s s' := by
  obtain ⟨⟨siteCmd, next⟩, -, h⟩ := Outcome.bind_eq_ok h
  dsimp only at h
  split_ifs at h
  · cases h
    exact .say ..
  · cases h
    exact .say ..
  · cases h
    exact .say ..
  · exact doSiteDiskFree_same h
  · cases h
    exact .say ..

end

/-! ## 6. Commands -/

/-- A current directory: the root, or names that each end with a slash. -/
def dirPath (place : List CStr) : CStr := slash :: place.flatMap (· ++ [slash])

def IsDirectoryPath (cwd : CStr) : Prop := ∃ place, (∀ c ∈ place, Component c) ∧ cwd = dirPath place

theorem render_slash : ∀ place : List CStr, render slash place ++ [slash] = dirPath place
  | [] => rfl
  | c :: place => by
    have ih := render_slash place
    simp only [dirPath, render_cons, flatMap_cons, append_assoc, cons_append, nil_append] at ih ⊢
    rw [ih]

/-- `doCwd` puts back the slash that `normalizeDir` has left off. -/
theorem withSlash_userPath {place : List CStr} (h : ∀ c ∈ place, Component c) :
    withSlash (userPath place) = dirPath place := by
  unfold withSlash
  by_cases hroot : place = []
  · subst hroot
    rfl
  · have hlast : (userPath place).getLast? ≠ some slash := by
      rw [userPath, if_neg hroot]
      exact getLast?_append_render hroot (fun c hc => ⟨(h c hc).plain.1, (h c hc).slash_notMem⟩) []
    rw [if_neg hlast, userPath, if_neg hroot, render_slash]

/-- What a command does.  It may change the current directory for another one, `RNFR` keeps a path
in `filespec`, and `QUIT` ends the session. -/
structure Turns (server : Server) (s s' : Session) : Prop where
  state : s'.client.state = s.client.state ∨
    s'.client.state = .rnfrSent ∧ Reached server s.client s'.client.filespec ∨
    s'.client.state = .closingPushOutput ∧ s'.client.dataXferState = .closing
  user : s'.client.user = s.client.user
  ftproot : s'.client.ftproot = s.client.ftproot
  loginAttempts : s'.client.loginAttempts = s.client.loginAttempts
  cwd : s'.client.cwd = s.client.cwd ∨ IsDirectoryPath s'.client.cwd
  xfer : s'.client.dataXferState = s.client.dataXferState ∨ s'.client.dataXferState ≠ .init
  events : ∃ new, s'.events = s.events ++ new ∧ ∀ e ∈ new, Origin server s.client e

section

variable {server : Server} {ans : Answers} {s s' : Session} {nextTokenPtr : Option CStr}

theorem Does.turns (h : Does server s s') : Turns server s s' :=
  ⟨.inl h.state, h.user, h.ftproot, h.loginAttempts, .inl h.cwd, h.xfer, h.events⟩

/-- A command that creates nothing. -/
theorem Quiet.turns (h : Quiet server ans s s') : Turns server s s' ∧ CreatesNothing ans s s' :=
  ⟨h.does.turns, h.nothing⟩

theorem doXfer_turns {listType : DataXferType}
    (h : doXfer server ans s nextTokenPtr listType = .ok s') :
    Turns server s s' ∧ CreatesNothing ans s s' := by
  unfold doXfer at h
  split_ifs at h
  · cases h
    exact (Same.say ..).quiet.turns
  · cases h
    exact (Same.say ..).quiet.turns
  · obtain ⟨⟨hdoes, hnothing⟩, hxfer⟩ := xferInit_quiet (by rfl) h
    obtain ⟨new, hnew, hall⟩ := hdoes.events
    refine ⟨⟨.inl hdoes.state, hdoes.user, hdoes.ftproot, hdoes.loginAttempts, .inl hdoes.cwd,
      .inr hxfer, new, hnew, fun e he => ?_⟩, hnothing⟩
    have horigin := hall e he
    exact Origin.congr (by rfl) (by rfl) horigin
  · cases h
    exact (Same.say ..).quiet.turns

theorem doRnfr_turns (h : doRnfr server ans s nextTokenPtr = .ok s') :
    Turns server s s' ∧ CreatesNothing ans s s' := by
  unfold doRnfr at h
  split_ifs at h
  · cases h
    exact (Same.say ..).quiet.turns
  · rcases onPath_cases h with hsame | ⟨userPart, fullpath, hpath, rfl⟩
    · exact hsame.quiet.turns
    have hstat : Quiet server ans s (s.emit (.stat fullpath)) := .emit (.stat (.of_ok hpath))
    split
    · exact (hstat.say _ _).turns
    · exact ⟨⟨.inr (.inl ⟨rfl, .of_ok hpath⟩), rfl, rfl, rfl, .inl rfl, .inl rfl,
        hstat.does.events⟩, hstat.nothing⟩

theorem endSession_turns (s : Session) (h : Same s s') : Turns server s (endSession s') := by
  have hend := h.trans (.endDataTransfers s' Msg_426_Request_term)
  exact ⟨.inr (.inr ⟨rfl, rfl⟩), hend.user, hend.ftproot, hend.loginAttempts, .inl hend.cwd,
    .inr (by simp [endSession, Session.setState, endDataTransfers, Session.setXfer]),
    hend.does.events⟩

theorem Turns.setCwd {cwd : CStr} (h : Does server s t) (hcwd : IsDirectoryPath cwd) :
    Turns server s (setCwd t cwd) :=
  ⟨.inl h.state, h.user, h.ftproot, h.loginAttempts, .inr hcwd, h.xfer, h.events⟩

theorem changeTo_turns {parm parm' newpath : CStr}
    (hnorm : normalizeDir parm' USR_MAX_PATH_LENGTH = .ok newpath)
    (h : changeTo server ans s parm newpath = .ok s') :
    Turns server s s' ∧ CreatesNothing ans s s' := by
  obtain ⟨place, -, hplace, hnew, -⟩ := normalizeDir_eq_ok (by decide) hnorm
  unfold changeTo at h
  dsimp only at h
  split_ifs at h with hlong hroot hdrive
  · cases h
    exact (Same.say ..).quiet.turns
  · cases h
    exact ⟨.setCwd (Same.refl s).does ⟨[], by simp, rfl⟩, .refl⟩
  · cases h
    exact (Same.say ..).quiet.turns
  · obtain ⟨fullpath, hfull, h⟩ := Outcome.bind_eq_ok h
    have hstat : Origin server s.client (.stat fullpath) :=
      .entered ⟨parm', newpath, hnorm, by omega, hfull⟩
    split_ifs at h
    · cases h
      exact ⟨.setCwd (.emit hstat) ⟨place, hplace, by rw [hnew, withSlash_userPath hplace]⟩,
        .emit rfl⟩
    · cases h
      exact ((Quiet.emit hstat).say _ _).turns

theorem doCwdPath_turns {parm : CStr} (h : doCwdPath server ans s parm = .ok s') :
    Turns server s s' ∧ CreatesNothing ans s s' := by
  unfold doCwdPath at h
  split_ifs at h
  · cases h
    exact (Same.say ..).quiet.turns
  · split at h
    · cases h
    · cases h
      exact (Same.say ..).quiet.turns
    · exact changeTo_turns ‹_› h

theorem doCwd_turns (h : doCwd server ans s nextTokenPtr = .ok s') :
    Turns server s s' ∧ CreatesNothing ans s s' := by
  obtain ⟨⟨token, next⟩, -, h⟩ := Outcome.bind_eq_ok h
  dsimp only at h
  split_ifs at h
  · cases h
    exact (Same.say ..).quiet.turns
  · exact doCwdPath_turns h

variable {command : CStr}

variable {result : Outcome Session}

theorem pathCommand_turns (hcommand : pathCommand server ans s command nextTokenPtr = some result)
    (h : result = .ok s') : Turns server s s' := by
  cases pathCommand_cases hcommand with
  | quit =>
    cases h
    exact endSession_turns s ((Same.say ..).trans (.sendOutput ..))
  | dele => exact (doDele_quiet h).does.turns
  | rnfr => exact (doRnfr_turns h).1
  | rnto =>
    cases h
    exact (Same.say ..).does.turns
  | cwd => exact (doCwd_turns h).1
  | cdup => exact (doCwd_turns h).1
  | pwd =>
    cases h
    exact (Same.say ..).does.turns
  | mkd => exact (doMkd_does h).turns
  | rmd => exact (doRmd_quiet h).does.turns

theorem xferCommand_turns (hcommand : xferCommand server ans s command nextTokenPtr = some result)
    (h : result = .ok s') :
    Turns server s s' ∧ CreatesNothing ans s s' := by
  unfold xferCommand at hcommand
  split_ifs at hcommand
  · cases hcommand
    cases h
    exact (Same.doPasv ..).quiet.turns
  · cases hcommand
    cases h
    exact (Same.doPort ..).quiet.turns
  · cases hcommand
    cases h
    exact ((Same.endDataTransfers ..).trans (.say ..)).quiet.turns
  · obtain ⟨listType, -, rfl⟩ := Option.map_eq_some_iff.mp hcommand
    exact doXfer_turns h

theorem otherCommand_quiet
    (h : otherCommand server ans s command nextTokenPtr = .ok s') : Quiet server ans s s' := by
  generalize hresult : otherCommand server ans s command nextTokenPtr = result at h
  cases otherCommand_cases hresult with
  | mode => exact (doOption_same h).quiet
  | stru => exact (doOption_same h).quiet
  | type => exact (doType_same h).quiet
  | help =>
    cases h
    exact (Same.doHelp s).quiet
  | mdtm => exact doMdtm_quiet h
  | stat => exact doStat_quiet h
  | site => exact (doSite_same h).quiet
  | answer =>
    cases h
    exact (Same.say ..).quiet

/-- **What a command does.** -/
theorem commandLine_turns
    (h : commandLine server ans s command nextTokenPtr = .ok s') : Turns server s s' := by
  unfold commandLine at h
  split at h
  case h_1 hpath => exact pathCommand_turns hpath h
  case h_2 hxfer => exact (xferCommand_turns hxfer h).1
  case h_3 => exact (otherCommand_quiet h).does.turns

end

end SdcBoot.Ftp
