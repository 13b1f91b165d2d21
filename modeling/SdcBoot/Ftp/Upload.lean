/-
# The upload directory

A user with an upload directory may only create files and directories there.  What the server looks
at is his current directory, and of that only the first characters; the name he gives is resolved
on its own, so an absolute one, or one that goes up, leads out again, and so does a directory whose
name begins like that of the upload directory.

Nothing else creates anything: what a call creates is what `STOR`, `APPE` or `STOU` names when the
data connection is there, and what `MKD` names.  A call keeps to the upload directory if and only
if that name leads below it.
-/
import SdcBoot.Ftp.Sandbox

namespace SdcBoot.Ftp

open Lib List

/-! ## 1. What is created -/

/-- A routine that creates what is told. -/
def Creates (ans : Answers) (P : CStr → CStr → Prop) (s t : Session) : Prop :=
  ∀ path arg, (path, arg) ∈ created ans t.events ↔
    (path, arg) ∈ created ans s.events ∨ P path arg

section

variable {server : Server} {ans : Answers} {s t u : Session} {nextTokenPtr : Option CStr}
  {P : CStr → CStr → Prop}

theorem CreatesNothing.creates (h : CreatesNothing ans s t) (hP : ∀ path arg, ¬ P path arg) :
    Creates ans P s t := by
  intro path arg
  rw [h]
  simp [hP]

theorem CreatesNothing.then (h : CreatesNothing ans s t) (h' : Creates ans P t u) :
    Creates ans P s u := fun path arg => by rw [h' path arg, h]

theorem Creates.then (h : Creates ans P s t) (h' : CreatesNothing ans t u) :
    Creates ans P s u := fun path arg => by rw [h', h path arg]

/-! ## 2. Commands -/

/-- What `MKD` creates. -/
def Makes (server : Server) (ans : Answers) (client : FtpClient) (command : CStr)
    (nextTokenPtr : Option CStr) (path arg : CStr) : Prop :=
  isWord command ["MKD", "XMKD"] ∧ client.user.cmd_MKD = true ∧ mayUpload client = true ∧
    arg ≠ [] ∧ (∃ next, getNextToken nextTokenPtr USR_MAX_PATH_LENGTH_PADDED = .ok (arg, next)) ∧
    formFullPath server client (USR_MAX_PATH_LENGTH - 1) arg = .ok path ∧
    ans.stat path = .absent ∧ ans.succeeds path = true

variable {arg command : CStr} {client : FtpClient}

theorem doMkd_creates (hmkd : isWord command ["MKD", "XMKD"])
    (h : doMkd server ans s nextTokenPtr = .ok t) :
    Creates ans (Makes server ans s.client command nextTokenPtr) s t := by
  unfold doMkd at h
  split_ifs at h with hperm hmay
  · cases h
    exact CreatesNothing.refl.creates fun path arg hmakes => by simp [Makes, hperm] at hmakes
  · cases h
    exact CreatesNothing.refl.creates fun path arg hmakes => by simp [Makes, hmay] at hmakes
  unfold onPath at h
  obtain ⟨⟨userPart, next⟩, htoken, h⟩ := Outcome.bind_eq_ok h
  -- there is one name, and one path for it
  have hone {path arg : CStr}
      (hmakes : Makes server ans s.client command nextTokenPtr path arg) : arg = userPart := by
    obtain ⟨-, -, -, -, ⟨next', htoken'⟩, -⟩ := hmakes
    rw [htoken] at htoken'
    cases htoken'
    rfl
  dsimp only at h
  split_ifs at h with hempty
  · cases h
    refine CreatesNothing.refl.creates fun path arg hmakes => ?_
    obtain rfl := hone hmakes
    exact hmakes.2.2.2.1 hempty
  cases hpath : formFullPath server s.client (USR_MAX_PATH_LENGTH - 1) userPart with
  | overrun => simp [hpath] at h
  | error rc =>
    simp only [hpath] at h
    cases h
    refine CreatesNothing.refl.creates fun path arg hmakes => ?_
    obtain rfl := hone hmakes
    obtain ⟨-, -, -, -, -, hform, -⟩ := hmakes
    rw [hpath] at hform
    cases hform
  | ok fullpath =>
    simp only [hpath] at h
    have hpath' {path arg : CStr}
        (hmakes : Makes server ans s.client command nextTokenPtr path arg) : path = fullpath := by
      obtain rfl := hone hmakes
      obtain ⟨-, -, -, -, -, hform, -⟩ := hmakes
      rw [hpath] at hform
      cases hform
      rfl
    have hmakes_iff (path arg : CStr) :
        Makes server ans s.client command nextTokenPtr path arg ↔
          (path = fullpath ∧ arg = userPart) ∧
            ans.stat fullpath = .absent ∧ ans.succeeds fullpath = true := by
      constructor
      · intro hmakes
        obtain rfl := hone hmakes
        obtain rfl := hpath' hmakes
        exact ⟨⟨rfl, rfl⟩, hmakes.2.2.2.2.2.2⟩
      · rintro ⟨⟨rfl, rfl⟩, hdone⟩
        exact ⟨hmkd, by simpa using hperm, by simpa using hmay, hempty, ⟨next, htoken⟩, hpath, hdone⟩
    cases h
    refine CreatesNothing.then (t := s.emit (.stat fullpath)) (.emit rfl) ?_
    intro path arg
    rw [hmakes_iff]
    split
    case h_1 habsent =>
      have hmkdir : created ans
          (if ans.succeeds fullpath then
            ((s.emit (.stat fullpath)).emit (.mkdir fullpath userPart)).say "257 %s created"
              [shown ((s.emit (.stat fullpath)).emit (.mkdir fullpath userPart)).client fullpath]
          else ((s.emit (.stat fullpath)).emit (.mkdir fullpath userPart)).say "550 Error creating %s"
              [shown ((s.emit (.stat fullpath)).emit (.mkdir fullpath userPart)).client fullpath]).events =
          created ans (s.emit (.stat fullpath)).events ++
            (Event.creates ans (.mkdir fullpath userPart)).toList := by
        rw [← created_emit]
        split_ifs <;> rfl
      rw [hmkdir, mem_append, Event.creates]
      by_cases hdone : ans.succeeds fullpath = true
      · simp [hdone, habsent]
      · simp [hdone]
    case h_2 hother =>
      have hno : ans.stat fullpath ≠ .absent := hother
      simp [hno, Session.say]

/-! ## 3. Transfers -/

/-- The name `STOU` arrives at, with the number of attempts that are left. -/
def firstFree (server : Server) (ans : Answers) (client : FtpClient) : Nat → Option (CStr × CStr)
  | 0 => none
  | left + 1 =>
    match formFullPath server client USR_MAX_PATHFILE_LENGTH (uniqueName ans (4 - left)) with
    | .ok path =>
      if ans.stat path = .absent then some (path, uniqueName ans (4 - left))
      else firstFree server ans client left
    | _ => none

/-- What a transfer creates or appends to when it gets its connection. -/
def Stores (server : Server) (ans : Answers) (client : FtpClient) (path arg : CStr) : Prop :=
  ans.opens path = true ∧
    match client.dataXferType with
    | .stor => arg = client.filespec ∧
        formFullPath server client USR_MAX_PATHFILE_LENGTH_PADDED arg = .ok path ∧
        ans.stat path = .absent
    | .storA => arg = client.filespec ∧
        formFullPath server client USR_MAX_PATHFILE_LENGTH_PADDED arg = .ok path ∧
        (ans.stat path = .absent ∨ ans.stat path = .regular)
    | .storU => firstFree server ans client 5 = some (path, arg)
    | _ => False

variable {outBufferLen : Nat} {filespec path : CStr} {letter : Char} {result : Outcome Session}

/-- A file is opened for writing. -/
theorem openFile_created {fullpath mode arg : CStr} {reply : Option Reply}
    (hmode : charAt mode 0 ≠ 'r') :
    Creates ans (fun path name => (path = fullpath ∧ name = arg) ∧ ans.opens path = true) s
      (openFile ans s fullpath mode arg reply) := by
  have hopen : created ans (openFile ans s fullpath mode arg reply).events =
      created ans s.events ++ (Event.creates ans (.fopen fullpath mode arg)).toList := by
    rw [← created_emit]
    unfold openFile
    split_ifs
    · exact (Same.endDataTransfers ..).createsNothing
    · cases reply <;> rfl
  intro path name
  rw [hopen, mem_append, Event.creates]
  by_cases hopens : ans.opens fullpath = true
  · simp only [ne_eq, hmode, not_false_eq_true, hopens, and_self, if_true, Option.toList_some,
      mem_singleton, Prod.mk.injEq]
    refine or_congr_right ⟨fun heq => ⟨heq, heq.1 ▸ hopens⟩, fun heq => heq.1⟩
  · rw [if_neg fun hboth => hopens hboth.2, Option.toList_none]
    refine or_congr_right ⟨fun hmem => absurd hmem (not_mem_nil), ?_⟩
    rintro ⟨⟨rfl, rfl⟩, hopens'⟩
    exact absurd hopens' hopens

theorem charAt_fileMode (h : letter ≠ 'r') :
    charAt (fileMode client letter) 0 ≠ 'r' := h

/-- A file is opened for reading. -/
theorem openFile_reads {fullpath mode text : CStr} (hmode : charAt mode 0 = 'r') :
    CreatesNothing ans u
      (openFile ans (u.say "150 %s type File RETR started" [text]) fullpath mode arg none) := by
  unfold openFile
  have hopen : CreatesNothing ans u
      ((u.say "150 %s type File RETR started" [text]).emit (.fopen fullpath mode arg)) :=
    CreatesNothing.emit (by simp [Event.creates, hmode])
  split_ifs
  · exact hopen.trans (Same.endDataTransfers ..).createsNothing
  · exact hopen

/-- One file, in the two ways that only differ in what may be there before. -/
theorem storeFile_creates {text done : String}
    {bad : CStr → Prop} [DecidablePred bad] (hletter : letter ≠ 'r')
    (hlist : isListing s.client.dataXferType = false)
    (h : formFullPath_DataXfer server s outBufferLen filespec (fun fullpath =>
      if bad fullpath then .ok (endDataTransfers (s.emit (.stat fullpath)) text)
      else .ok (openFile ans ((s.emit (.stat fullpath)).say done [typeName s.client]) fullpath
        (fileMode s.client letter) filespec none)) = .ok t) :
    Creates ans (fun path arg => ans.opens path = true ∧ arg = filespec ∧
      formFullPath server s.client outBufferLen arg = .ok path ∧ ¬ bad path) s t := by
  unfold formFullPath_DataXfer at h
  cases hpath : formFullPath server s.client outBufferLen filespec with
  | overrun => simp [hpath] at h
  | error rc =>
    have hnone (path arg : CStr) : ¬ (ans.opens path = true ∧ arg = filespec ∧
        formFullPath server s.client outBufferLen arg = .ok path ∧ ¬ bad path) := by
      rintro ⟨-, rfl, hform, -⟩
      rw [hpath] at hform
      cases hform
    simp only [hpath, hlist, Bool.false_eq_true, and_false, if_false] at h
    refine CreatesNothing.creates ?_ hnone
    split_ifs at h
    all_goals
      cases h
      exact (Same.endDataTransfers ..).createsNothing
  | ok fullpath =>
    simp only [hpath] at h
    have hstat : CreatesNothing ans s (s.emit (.stat fullpath)) := .emit rfl
    split_ifs at h with hbad
    · cases h
      refine (hstat.trans (Same.endDataTransfers ..).createsNothing).creates ?_
      rintro path arg ⟨-, rfl, hform, hnot⟩
      rw [hpath] at hform
      cases hform
      exact hnot hbad
    · cases h
      have hopen := (hstat.say done [typeName s.client]).then
        (@openFile_created ans ((s.emit (.stat fullpath)).say done [typeName s.client]) fullpath
          (fileMode s.client letter) filespec none (charAt_fileMode hletter))
      intro path arg
      rw [hopen path arg]
      refine or_congr_right ⟨?_, ?_⟩
      · rintro ⟨⟨rfl, rfl⟩, hopens⟩
        exact ⟨hopens, rfl, hpath, hbad⟩
      · rintro ⟨hopens, rfl, hform, -⟩
        rw [hpath] at hform
        cases hform
        exact ⟨⟨rfl, rfl⟩, hopens⟩

theorem storeUnique_creates : ∀ {left : Nat} {s : Session},
    isListing s.client.dataXferType = false → storeUnique server ans left s = .ok t →
      Creates ans (fun path arg => ans.opens path = true ∧
        firstFree server ans s.client left = some (path, arg)) s t
  | 0, s, _, h => by
    cases h
    exact (Same.endDataTransfers ..).createsNothing.creates (by simp [firstFree])
  | left + 1, s, hlist, h => by
    unfold storeUnique formFullPath_DataXfer at h
    unfold firstFree
    cases hpath : formFullPath server s.client USR_MAX_PATHFILE_LENGTH
        (uniqueName ans (4 - left)) with
    | overrun => simp [hpath] at h
    | error rc =>
      simp only [hpath, hlist, Bool.false_eq_true, and_false, if_false] at h
      refine CreatesNothing.creates ?_ (by simp)
      split_ifs at h
      all_goals
        cases h
        exact (Same.endDataTransfers ..).createsNothing
    | ok fullpath =>
      simp only [hpath] at h
      have hstat : CreatesNothing ans s (s.emit (.stat fullpath)) := .emit rfl
      dsimp only
      split_ifs at h ⊢ with habsent
      · cases h
        refine hstat.then fun path arg => ?_
        rw [openFile_created (charAt_fileMode (by decide)) path arg]
        simp only [Option.some.injEq, Prod.mk.injEq]
        refine or_congr_right ⟨?_, ?_⟩
        · rintro ⟨⟨rfl, rfl⟩, hopens⟩
          exact ⟨hopens, rfl, rfl⟩
        · rintro ⟨hopens, rfl, rfl⟩
          exact ⟨⟨rfl, rfl⟩, hopens⟩
      · exact hstat.then (storeUnique_creates (by exact hlist) h)

/-- **A transfer that gets its connection** creates one file at most. -/
theorem xferConnected_creates (h : xferConnected server ans s = .ok t) :
    Creates ans (Stores server ans s.client) s t := by
  unfold Stores
  unfold xferConnected at h
  split at h
  case h_1 htype =>
    cases h
    exact CreatesNothing.refl.creates (by simp [htype])
  case h_2 htype | h_3 htype =>
    refine CreatesNothing.creates ?_ (by simp [htype])
    refine (Same.say s "150 Sending file list" []).createsNothing.trans ?_
    rcases formFullPath_DataXfer_cases h with hsame | ⟨fullpath, hpath, -, hbody⟩
    · exact hsame.createsNothing
    · cases hbody
      exact (findFirst_quiet (s := s.say "150 Sending file list" []) hpath).nothing
  case h_4 htype =>
    refine CreatesNothing.creates ?_ (by simp [htype])
    rcases formFullPath_DataXfer_cases h with hsame | ⟨fullpath, -, -, hbody⟩
    · exact hsame.createsNothing
    have hstat : CreatesNothing ans s (s.emit (.stat fullpath)) := .emit rfl
    dsimp only at hbody
    split_ifs at hbody
    · cases hbody
      exact hstat.trans (Same.endDataTransfers ..).createsNothing
    all_goals
      cases hbody
      exact hstat.trans (openFile_reads rfl)
  case h_5 htype =>
    have hlist : isListing s.client.dataXferType = false := by rw [htype]; rfl
    have hstore := storeFile_creates (by decide : 'w' ≠ 'r') hlist h
    simpa [htype] using hstore
  case h_6 htype =>
    have hlist : isListing s.client.dataXferType = false := by rw [htype]; rfl
    have hstore := storeFile_creates (by decide : 'a' ≠ 'r') hlist h
    simpa [htype, or_iff_not_imp_left] using hstore
  case h_7 htype =>
    have hlist : isListing s.client.dataXferType = false := by rw [htype]; rfl
    simpa [htype] using storeUnique_creates hlist h

/-- What is created where the transfers are moved on. -/
theorem doDataXfer_creates (h : doDataXfer server ans s none = .ok t) :
    Creates ans (fun path arg => s.client.dataXferState = .connected ∧
      Stores server ans s.client path arg) s t := by
  unfold doDataXfer at h
  split at h
  case h_4 hstate =>
    simpa [hstate] using xferConnected_creates h
  case h_1 hstate =>
    cases h
    exact CreatesNothing.refl.creates (by simp [hstate])
  case h_2 hstate => exact (xferInit_quiet hstate h).1.nothing.creates (by simp [hstate])
  case h_3 hstate =>
    cases h
    exact (Same.xferConnecting ans s).createsNothing.creates (by simp [hstate])
  case h_5 hstate =>
    cases h
    exact (Same.xferActive ans s).createsNothing.creates (by simp [hstate])
  case h_6 hstate =>
    cases h
    exact (Same.xferClosing ans s).createsNothing.creates (by simp [hstate])

/-! ## 4. Lines -/

theorem pathCommand_creates (hcommand : pathCommand server ans s command nextTokenPtr = some result)
    (h : result = .ok t) : Creates ans (Makes server ans s.client command nextTokenPtr) s t := by
  -- a command that is not `MKD`
  have hquiet (h : CreatesNothing ans s t) {words : List String} (hword : isWord command words = true)
      (hne : ∀ word ∈ words, isWord word.toList ["MKD", "XMKD"] = false) :
      Creates ans (Makes server ans s.client command nextTokenPtr) s t :=
    h.creates fun path arg hmakes => by
      rw [Makes, isWord_of_ne hword hne] at hmakes
      cases hmakes.1
  cases pathCommand_cases hcommand with
  | quit hquit =>
    cases h
    have hend : CreatesNothing ans s
        (endSession (sendOutput ans (s.say "221 Server closing connection" []))) :=
      ((Same.say ..).trans ((Same.sendOutput ..).trans (.endDataTransfers ..))).createsNothing
    exact hquiet hend hquit (by decide)
  | dele hdele => exact hquiet (doDele_quiet h).nothing hdele (by decide)
  | rnfr hrnfr => exact hquiet (doRnfr_turns h).2 hrnfr (by decide)
  | rnto hrnto =>
    cases h
    exact hquiet (Same.say ..).createsNothing hrnto (by decide)
  | cwd hcwd => exact hquiet (doCwd_turns h).2 hcwd (by decide)
  | cdup hcdup => exact hquiet (doCwd_turns h).2 hcdup (by decide)
  | pwd hpwd =>
    cases h
    exact hquiet (Same.say ..).createsNothing hpwd (by decide)
  | mkd hmkd => exact doMkd_creates hmkd h
  | rmd hrmd => exact hquiet (doRmd_quiet h).nothing hrmd (by decide)

/-- `MKD` is a command on a path. -/
theorem Makes.pathCommand (h : Makes server ans s.client command nextTokenPtr path arg) :
    pathCommand server ans s command nextTokenPtr ≠ none := by
  intro hnone
  have hmkd := (pathCommand_none hnone).2.2.1
  rw [h.1] at hmkd
  cases hmkd

theorem commandLine_creates (h : commandLine server ans s command nextTokenPtr = .ok t) :
    Creates ans (Makes server ans s.client command nextTokenPtr) s t := by
  unfold commandLine at h
  split at h
  case h_1 hpath => exact pathCommand_creates hpath h
  case h_2 hpath hxfer =>
    exact (xferCommand_turns hxfer h).2.creates fun path arg hmakes => hmakes.pathCommand hpath
  case h_3 hpath _ =>
    exact (otherCommand_quiet h).nothing.creates fun path arg hmakes => hmakes.pathCommand hpath

/-- What a line creates. -/
def LineMakes (server : Server) (ans : Answers) (client : FtpClient) (line path arg : CStr) : Prop :=
  ∃ command next, getNextToken (some (withoutTelnet line)) COMMAND_MAX_LEN = .ok (command, next) ∧
    command ≠ [] ∧ client.state.signedIn ∧
    Makes server ans client (strupr command) next path arg

/-- The record is looked at for its user, its root and its current directory only. -/
theorem Makes.congr {client' : FtpClient} (huser : client'.user = client.user)
    (hroot : client'.ftproot = client.ftproot) (hcwd : client'.cwd = client.cwd) :
    Makes server ans client' command nextTokenPtr path arg ↔
      Makes server ans client command nextTokenPtr path arg := by
  unfold Makes mayUpload
  rw [huser, hcwd, formFullPath_congr hroot hcwd]

/-- Nobody creates anything before he has signed in. -/
theorem Served.createsNothing (h : Served server s t) (hnot : ¬ s.client.state.signedIn) :
    CreatesNothing ans s t := by
  obtain ⟨new, hnew, -, hpasswords⟩ := h.events
  have hnone : new.filterMap (Event.creates ans) = [] := by
    refine filterMap_eq_nil_iff.mpr fun e he => ?_
    obtain ⟨token, rfl⟩ := hpasswords hnot e he
    rfl
  unfold CreatesNothing created
  rw [hnew, filterMap_append, hnone, append_nil]

theorem runCommand_creates (hstanding : Standing server s.client)
    (h : runCommand server ans s command nextTokenPtr = .ok t) :
    Creates ans (fun path arg => s.client.state.signedIn ∧
      Makes server ans s.client command nextTokenPtr path arg) s t := by
  by_cases hsigned : s.client.state.signedIn
  · simp only [hsigned, true_and]
    have hemit : CreatesNothing ans s (s.emit (.command command)) := .emit rfl
    unfold runCommand at h
    split at h
    case h_3 hstate =>
      have hback : CreatesNothing ans s
          ((s.emit (.command command)).setState .commandLine) := hemit
      split_ifs at h with hrnto
      · have hold : ReachedBefore server
            ((s.emit (.command command)).setState .commandLine).client s.client.filespec :=
          (hstanding.filespec hstate).congr rfl
        refine CreatesNothing.creates (hback.trans (doRnto_quiet hold h).nothing) ?_
        rintro path arg ⟨hword, -⟩
        rw [hrnto] at hword
        cases hword
      · refine hback.then fun path arg => ?_
        rw [commandLine_creates h path arg]
        exact or_congr_right (Makes.congr rfl rfl rfl)
    case h_4 hstate => exact hemit.then (commandLine_creates h)
    all_goals
      simp_all [FtpClientState.signedIn]
  · have hserved := runCommand_served hstanding h
    exact (hserved.createsNothing hsigned).creates fun path arg hmakes => hsigned hmakes.1

theorem runLine_creates {line : CStr} (hstanding : Standing server s.client)
    (h : runLine server ans s line = .ok t) :
    Creates ans (LineMakes server ans s.client line) s t := by
  obtain ⟨⟨command, next⟩, htoken, h⟩ := Outcome.bind_eq_ok h
  have hone {path arg : CStr} : LineMakes server ans s.client line path arg ↔
      command ≠ [] ∧ s.client.state.signedIn ∧
        Makes server ans s.client (strupr command) next path arg := by
    refine ⟨?_, fun hmakes => ⟨command, next, htoken, hmakes⟩⟩
    rintro ⟨command', next', htoken', hmakes⟩
    rw [htoken] at htoken'
    cases htoken'
    exact hmakes
  dsimp only at h
  split_ifs at h with hempty
  · cases h
    exact CreatesNothing.refl.creates fun path arg hmakes => (hone.mp hmakes).1 hempty
  · intro path arg
    rw [hone, runCommand_creates hstanding h path arg]
    simp [hempty]

/-! ## 5. Calls -/

/-- What a call creates: what a transfer that gets its connection stores, and what `MKD` makes. -/
def Call.Creates (server : Server) (client : FtpClient) (path arg : CStr) : Call → Prop
  | .service ans =>
    client.state ≠ .closed ∧
      ((serviceRemoteClosed ans ⟨client, []⟩).client.output = [] ∧
          (serviceRemoteClosed ans ⟨client, []⟩).client.dataXferState = .connected ∧
          Stores server ans (serviceRemoteClosed ans ⟨client, []⟩).client path arg ∨
        ∃ s line, serviceUntilLine server ans ⟨client, []⟩ = .ok (s, some line) ∧
          LineMakes server ans s.client line path arg)
  | .dataConnection => False
  | .expire => False

/-- What the events of a call create. -/
def Call.created (events : List Event) : Call → List (CStr × CStr)
  | .service ans => Ftp.created ans events
  | .dataConnection => []
  | .expire => []

theorem serviceRemoteClosed_createsNothing : CreatesNothing ans s (serviceRemoteClosed ans s) := by
  unfold serviceRemoteClosed
  split_ifs
  · split
    · exact CreatesNothing.refl
    · exact CreatesNothing.refl
    · exact (Same.endDataTransfers ..).createsNothing
  · exact CreatesNothing.refl

theorem serviceAfterXfer_createsNothing : CreatesNothing ans s (serviceAfterXfer ans s).1 := by
  unfold serviceAfterXfer
  split_ifs
  · exact CreatesNothing.refl
  · exact CreatesNothing.refl
  · exact CreatesNothing.refl
  · exact (doStatLine_same ans s).createsNothing
  · exact (serviceInput_same ans s).1.createsNothing

theorem serviceUntilLine_creates {line : Option CStr}
    (h : serviceUntilLine server ans s = .ok (t, line)) :
    Creates ans (fun path arg => (serviceRemoteClosed ans s).client.output = [] ∧
      (serviceRemoteClosed ans s).client.dataXferState = .connected ∧
      Stores server ans (serviceRemoteClosed ans s).client path arg) s t := by
  refine serviceRemoteClosed_createsNothing.then ?_
  unfold serviceUntilLine at h
  dsimp only at h
  split_ifs at h with hout
  · cases h
    exact (Same.sendOutput ans _).createsNothing.creates fun path arg hstores => hout hstores.1
  · rw [ne_eq, not_not] at hout
    obtain ⟨u, hxfer, hafter⟩ := Outcome.bind_eq_ok h
    obtain ⟨rfl, -⟩ := Prod.ext_iff.mp (Outcome.ok.inj hafter)
    simpa [hout] using (doDataXfer_creates hxfer).then serviceAfterXfer_createsNothing

/-- **What a call creates** is what it is told to. -/
theorem Call.run_created {call : Call} (hstanding : Standing server client)
    (h : call.run server client = .ok t) (path arg : CStr) :
    (path, arg) ∈ call.created t.events ↔ call.Creates server client path arg := by
  cases call with
  | dataConnection => simp [Call.created, Call.Creates]
  | expire => simp [Call.created, Call.Creates]
  | service ans =>
    unfold Call.run at h
    dsimp only at h
    unfold Call.created Call.Creates
    split_ifs at h with hclosed
    · cases h
      simp [Ftp.created, hclosed]
    obtain ⟨⟨u, line⟩, huntil, h⟩ := Outcome.bind_eq_ok h
    have hstores := serviceUntilLine_creates huntil path arg
    have hnil : (path, arg) ∉ Ftp.created ans ([] : List Event) := not_mem_nil
    simp only [hnil] at hstores
    cases line with
    | none =>
      cases h
      rw [hstores]
      simp [hclosed, huntil]
    | some line =>
      have hwaits := serviceUntilLine_waits (by exact hstanding) huntil
      rw [runLine_creates hwaits.standing h path arg, hstores]
      simp [hclosed, huntil]

end

/-! ## 6. Where a name leads -/

/-- A path in a directory or in one below it. -/
def Lies (dir path : CStr) : Prop :=
  ∃ name, name ≠ [] ∧ path = (if dir = [slash] then [] else dir) ++ slash :: name

/-- The names of a path. -/
def namesOf (path : CStr) : List CStr := (path.splitOn slash).filter (· ≠ [])

/-- What a client calls something leads below a directory. -/
def LeadsInto (dir : CStr) (client : FtpClient) (arg : CStr) : Prop :=
  ∃ names, names ≠ [] ∧
    (walk [] (stepsOf (userView client arg))).map strupr = namesOf dir ++ names

theorem namesOf_append_render : ∀ {place : List CStr} {c : CStr}, Component c →
    (∀ d ∈ place, Component d) → namesOf (c ++ render slash place) = c :: place
  | [], c, hc, _ => by
    have hslash : slash ∉ c := hc.slash_notMem
    simp [namesOf, splitOn_eq_singleton hslash, hc.plain.1]
  | d :: place, c, hc, hplace => by
    have ih := namesOf_append_render (hplace d mem_cons_self)
      fun e he => hplace e (mem_cons_of_mem d he)
    have hslash : slash ∉ c := hc.slash_notMem
    unfold namesOf at ih ⊢
    rw [render_cons, cons_append, splitOn_append_cons_self, filter_append, ih,
      splitOn_eq_singleton hslash]
    simp [hc.plain.1]

variable {place : List CStr} {path : CStr} {server : Server}

/-- A path in normal form has the names it was made of. -/
theorem namesOf_userPath (h : ∀ c ∈ place, Component c) : namesOf (userPath place) = place := by
  cases place with
  | nil => decide
  | cons c place =>
    have hnames := namesOf_append_render (h c mem_cons_self)
      fun d hd => h d (mem_cons_of_mem c hd)
    have hsplit := splitOn_append_cons_self (a := slash) [] (c ++ render slash place)
    unfold namesOf at hnames ⊢
    rw [nil_append, splitOn_nil] at hsplit
    rw [userPath, if_neg (cons_ne_nil c place), render_cons, cons_append, hsplit, filter_append, hnames]
    rfl

theorem userPath_base (h : ∀ c ∈ place, Component c) :
    (if userPath place = [slash] then [] else userPath place) = render slash place := by
  cases place with
  | nil => rfl
  | cons c place =>
    have hne : userPath (c :: place) = render slash (c :: place) := if_neg (cons_ne_nil c place)
    rw [hne, if_neg]
    intro heq
    rw [render_cons, cons_append, List.cons.injEq] at heq
    exact (h c mem_cons_self).plain.1 (append_eq_nil_iff.mp heq.2).1

/-- What a place below some directory looks like, with or without a slash at its end. -/
theorem lies_iff {top : List CStr} (htop : ∀ c ∈ top, Component c)
    (hplace : ∀ c ∈ place, Component c) {tail : CStr} (htail : tail = [] ∨ tail = [slash]) :
    Lies (userPath top) (render slash place ++ tail) ↔
      ∃ names, names ≠ [] ∧ place = namesOf (userPath top) ++ names := by
  have hnames {place : List CStr} (h : ∀ c ∈ place, Component c) :
      ∀ c ∈ place, c ≠ [] ∧ slash ∉ c := fun c hc => ⟨(h c hc).plain.1, (h c hc).slash_notMem⟩
  unfold Lies
  rw [userPath_base htop, namesOf_userPath htop]
  exact render_below_iff htail (hnames htop) (hnames hplace)

theorem map_toSlash {s : CStr} (h : backslash ∉ s) : s.map toSlash = s := by
  refine (map_congr_left fun c hc => ?_).trans (map_id s)
  have hne : c ≠ backslash := fun heq => h (heq ▸ hc)
  exact if_neg hne

/-- Back from the DOS form, which has a backslash wherever there was a separator. -/
theorem convertToUserPath_dosLetters (hpresent : isDrivePrefixPresent path = true) :
    convertToUserPath (dosLetters path) = path.map toSlash := by
  simp only [isDrivePrefixPresent, Bool.and_eq_true, beq_iff_eq, decide_eq_true_eq,
    isPrefixOf_iff_prefix] at hpresent
  obtain ⟨⟨⟨rest, rfl⟩, height⟩, -, hletter⟩ := hpresent
  rcases rest with _ | ⟨x, _ | ⟨y, rest⟩⟩
  · exact absurd height (by decide)
  · have hnul : charAt (drivePrefix ++ [x]) 8 = NUL := rfl
    rw [hnul] at height
    exact absurd height (by decide)
  · have hy : y = slash := height
    subst hy
    have hx : x ≤ 'Z' := hletter
    have hplain : toSlash x = x := if_neg fun heq => absurd (heq ▸ hx) (by decide)
    have hback : toSlash ∘ toBackslash = toSlash := by
      funext c
      rw [Function.comp_apply, toBackslash]
      split_ifs with hc
      · rw [hc]
        rfl
      · rfl
    have hletters : dosLetters (drivePrefix ++ x :: slash :: rest) =
        x :: colon :: backslash :: rest.map toBackslash := rfl
    have huser : convertToUserPath (x :: colon :: backslash :: rest.map toBackslash) =
        drivePrefix ++ x :: slash :: (rest.map toBackslash).map toSlash := rfl
    rw [hletters, huser, map_map, hback, map_append, map_cons, hplain]
    rfl

section

variable {server : Server} {client : FtpClient} {place : List CStr}

/-- A path below a sandbox is shown without it, however the sandbox is written. -/
theorem shown_of_onDrive (hroot : OnDrive server.drives client.ftproot)
    (hplace : ∀ c ∈ place, Component c) :
    shown client (dosLetters client.ftproot ++ render backslash place) = render slash place := by
  have hlong := lt_length_of_isDrivePrefixPresent hroot.present
  have hmap : (render slash place).map toBackslash = render backslash place :=
    map_render rfl fun c hc => toBackslash_component (hplace c hc)
  have hno : backslash ∉ render slash place := by
    intro hmem
    rcases mem_render hmem with heq | ⟨c, hc, hx⟩
    · cases heq
    · exact nomatch (hplace c hc).plain.2.2.2 _ hx
  unfold shown
  rw [← hmap, ← dosLetters_append _ hlong,
    convertToUserPath_dosLetters (isDrivePrefixPresent_append _ hlong hroot.present),
    map_append, map_toSlash hno, drop_left' (length_map _)]

/-- A path of a user without a sandbox is shown as it is, but for the slash behind a drive. -/
theorem shown_of_drive (hroot : client.ftproot = []) (hplace : ∀ c ∈ place, Component c)
    (h : convertToDosPath server.drives (withDriveSlash client (userPath place)) = .ok path) :
    ∃ tail, (tail = [] ∨ tail = [slash]) ∧ shown client path = render slash place ++ tail := by
  have hne : place ≠ [] := by
    rintro rfl
    have hsame : withDriveSlash client (userPath []) = [slash] :=
      if_neg fun hdrive => absurd hdrive.2.2 (by decide)
    rw [hsame, convertToDosPath, if_pos (by decide)] at h
    exact absurd h (by simp)
  have hwritten : userPath place = render slash place := if_neg hne
  have hlast : (userPath place).getLast? ≠ some slash := by
    rw [hwritten]
    exact getLast?_append_render hne
      (fun c hc => ⟨(hplace c hc).plain.1, (hplace c hc).slash_notMem⟩) []
  have hplain := backslash_notMem_userPath hplace
  -- the slash behind the root of a drive, which has too short a DOS form to lose it again
  obtain ⟨tail, htail, hslash, hshort⟩ : ∃ tail, (tail = [] ∨ tail = [slash]) ∧
      withDriveSlash client (userPath place) = userPath place ++ tail ∧
      (tail = [] ∨ (userPath place).length = 8) := by
    unfold withDriveSlash
    split_ifs with hdrive
    · exact ⟨[slash], .inr rfl, rfl, .inr hdrive.2.2⟩
    · exact ⟨[], .inl rfl, (append_nil _).symm, .inl rfl⟩
  have hno : backslash ∉ userPath place ++ tail := by
    intro hmem
    rcases mem_append.mp hmem with hmem | hmem
    · exact hplain hmem
    · rcases htail with rfl | rfl
      · exact not_mem_nil hmem
      · exact absurd (mem_singleton.mp hmem) (by decide)
  refine ⟨tail, htail, ?_⟩
  rw [hslash, convertToDosPath] at h
  split_ifs at h with hpresent hdrive hlong htrail
  · rcases hshort with rfl | height
    · rw [append_nil] at *
      have hlen : 9 < (userPath place).length := by
        have hletters := htrail.1
        simp only [dosLetters, length_cons, length_map, length_drop] at hletters
        omega
      have hrooted : Rooted server.drives (userPath place) :=
        ⟨⟨by simpa using hpresent, by simpa using hdrive⟩, hlen, hlast⟩
      exact absurd htrail.2 (hrooted.getLast?_dosLetters hplain)
    · have hletters := htrail.1
      have hone : tail.length ≤ 1 := by rcases htail with rfl | rfl <;> simp
      simp only [dosLetters, length_cons, length_map, length_drop, length_append] at hletters
      omega
  · cases h
    unfold shown
    rw [hroot, length_nil, drop_zero, ← hwritten,
      convertToUserPath_dosLetters (by simpa using hpresent), map_toSlash hno]

/-- **What is created lies in the directory its name leads into**, and nowhere else. -/
theorem lies_iff_leadsInto {dir : CStr} {top : List CStr} (htop : ∀ c ∈ top, Component c)
    (hdir : dir = userPath top) (hroot : client.ftproot = [] ∨ OnDrive server.drives client.ftproot)
    {maxOutBufferLen : Nat} {arg : CStr}
    (h : formFullPath server client maxOutBufferLen arg = .ok path) :
    Lies dir (shown client path) ↔ LeadsInto dir client arg := by
  unfold formFullPath at h
  split_ifs at h with hlong
  cases hnorm : normalizeDir (userView client arg) (USR_MAX_PATHFILE_LENGTH + 20) with
  | overrun => simp [hnorm] at h
  | error rc => simp [hnorm] at h
  | ok newpath =>
    simp only [hnorm] at h
    split_ifs at h with hmax
    obtain ⟨place, hwalk, hplace, rfl, -⟩ := normalizeDir_eq_ok (by decide) hnorm
    obtain ⟨tail, htail, hshown⟩ : ∃ tail, (tail = [] ∨ tail = [slash]) ∧
        shown client path = render slash place ++ tail := by
      rcases hroot with hnil | hdrive
      · rw [hnil, nil_append] at h
        exact shown_of_drive hnil hplace h
      · have hne : client.ftproot ≠ [] := by
          intro hnil
          have hlong := lt_length_of_isDrivePrefixPresent hdrive.present
          rw [hnil, length_nil] at hlong
          omega
        have hsame : withDriveSlash client (userPath place) = userPath place :=
          if_neg fun hslash => hne hslash.1
        rw [hsame, hdrive.convertToDosPath hplace] at h
        split_ifs at h
        cases h
        exact ⟨[], .inl rfl, by rw [shown_of_onDrive hdrive hplace, append_nil]⟩
    unfold LeadsInto
    rw [hshown, ← hwalk, hdir]
    exact lies_iff htop hplace htail

end

/-! ## 7. Sessions -/

/-- A user who passes `sanityCheck`, with an upload directory that it leaves as it is. -/
def FtpUser.Restricted (drives : Drives) (user : FtpUser) : Prop :=
  (∃ isDir checked, sanityCheck drives isDir user = .ok (none, checked) ∧
    checked.uploaddir = user.uploaddir) ∧ user.uploaddir ≠ bracketAny

/-- The upload directory is then written in the normal form. -/
theorem FtpUser.Restricted.uploaddir {drives : Drives} {user : FtpUser}
    (h : user.Restricted drives) :
    ∃ top, (∀ c ∈ top, Component c) ∧ user.uploaddir = userPath top := by
  obtain ⟨⟨isDir, checked, hpassed, hsame⟩, hany⟩ := h
  obtain ⟨half, -, hupload⟩ := sanityCheck_eq_ok hpassed
  obtain ⟨hchecked, rfl⟩ | ⟨dir, hnorm, rfl⟩ := checkUploaddir_eq_ok hupload
  · exact absurd (hsame.symm.trans hchecked) hany
  · obtain ⟨top, -, htop, hdir, -⟩ := normalizeDir_eq_ok (by decide) hnorm
    exact ⟨top, htop, hsame.symm.trans hdir⟩

/-- A call that creates nothing outside of the upload directory. -/
def UploadsInside (server : Server) (before : Option FtpClient) (call : Call) :
    Option (List Event) × Option FtpClient → Prop
  | (some events, some _) =>
    ∀ client, before = some client → client.user.Restricted server.drives →
      ∀ path arg, (path, arg) ∈ call.created events →
        Lies client.user.uploaddir (shown client path)
  | _ => False

/-- A call in which all that is to be created is given a name that leads into the upload
directory. -/
def NamesInside (server : Server) (before : Option FtpClient) (call : Call) : Prop :=
  ∀ client, before = some client → client.user.Restricted server.drives →
    ∀ path arg, call.Creates server client path arg → LeadsInto client.user.uploaddir client arg

variable {client : FtpClient} {arg : CStr} {call : Call}

/-- What is created has got its path from `formFullPath`. -/
theorem Origin.formed {ans : Answers} {e : Event} (h : Origin server client e)
    (hcreates : e.creates ans = some (path, arg)) :
    ∃ maxOutBufferLen, formFullPath server client maxOutBufferLen arg = .ok path := by
  cases h with
  | fopen mode h
  | mkdir h =>
    rw [Event.creates] at hcreates
    split_ifs at hcreates
    cases hcreates
    exact ⟨_, h⟩
  | _ => cases hcreates

/-- Only a user who has signed in creates something, and it lies where its name leads. -/
theorem Served.lies_iff {t : Session} (hstanding : Standing server client)
    (h : Served server ⟨client, []⟩ t) (huser : client.user.Restricted server.drives)
    (hmem : (path, arg) ∈ call.created t.events) :
    Lies client.user.uploaddir (shown client path) ↔
      LeadsInto client.user.uploaddir client arg := by
  cases call with
  | dataConnection => cases hmem
  | expire => cases hmem
  | service ans =>
    have hsigned : client.state.signedIn := by
      by_contra hnot
      have hnothing : created ans t.events = [] := @Served.createsNothing server ans _ _ h hnot
      have hnone : (path, arg) ∈ created ans t.events := hmem
      rw [hnothing] at hnone
      exact not_mem_nil hnone
    obtain ⟨new, hnew, horigin, -⟩ := h.events
    rw [nil_append] at hnew
    obtain ⟨e, he, hcreates⟩ := mem_filterMap.mp hmem
    obtain ⟨maxOutBufferLen, hform⟩ := (horigin hsigned e (hnew ▸ he)).formed hcreates
    obtain ⟨top, htop, hdir⟩ := huser.uploaddir
    refine lies_iff_leadsInto htop hdir ?_ hform
    rw [hstanding.root hsigned, rootOf]
    split_ifs with hnone
    · exact .inl rfl
    · obtain ⟨⟨isDir, checked, hpassed, -⟩, -⟩ := huser
      exact .inr (onDrive_of_sanityCheck hpassed hnone)

theorem Running.uploadsInside_iff {state : Option FtpClient} (h : Running server state)
    (hfits : Fitting server state call) :
    UploadsInside server state call (Ftp.step server state call) ↔
      NamesInside server state call := by
  obtain ⟨client, rfl, hstanding⟩ := h
  obtain ⟨s, hs, hstep⟩ := step_eq_of_fits hstanding hfits
  have hserved := Call.run_served hstanding hs
  rw [hstep]
  constructor
  · intro hinside client' hclient huser path arg hcreates
    cases hclient
    have hmem := (Call.run_created hstanding hs path arg).mpr hcreates
    exact (hserved.lies_iff hstanding huser hmem).mp (hinside client rfl huser path arg hmem)
  · intro hnames client' hclient huser path arg hmem
    cases hclient
    have hcreates := (Call.run_created hstanding hs path arg).mp hmem
    exact (hserved.lies_iff hstanding huser hmem).mpr (hnames client rfl huser path arg hcreates)

/-- **The upload directory.**  In a session in which the arrays are large enough, a call creates
nothing outside of the upload directory if and only if every name it is given for something new
leads into it. -/
theorem uploads_inside_iff (server : Server) (client : FtpClient) (calls : List Call)
    (h : Guarded (step server) (Fitting server) (some (startNewSession client)) calls) :
    Along (step server)
      (fun state call result =>
        UploadsInside server state call result ↔ NamesInside server state call)
      (some (startNewSession client)) calls :=
  Along.of_invariant (I := Running server) (fun _ _ hrun hfits => hrun.step hfits)
    (fun _ _ hrun hfits => hrun.uploadsInside_iff hfits) calls _
    ⟨_, rfl, startNewSession_standing server client⟩ h

theorem uploads_inside_iff_worksInside : inUpload.user.Restricted oneUser.drives ∧
    Along (step oneUser)
        (fun state call result =>
          UploadsInside oneUser state call result ↔ NamesInside oneUser state call)
        (some (startNewSession unused)) worksInside ∧
      created calm (eventsOf worksInside) =
        [(inFtp ["IN", "NEW"], "NEW".toList), (inFtp ["IN", "NEW", "A.TXT"], "NEW/A.TXT".toList)] :=
  ⟨⟨⟨fun _ => true, inUpload.user, by decide +kernel, rfl⟩, by decide +kernel⟩,
    uploads_inside_iff oneUser unused worksInside worksInside_fits, by decide +kernel⟩

def makesOutside : Call :=
  .service { calm with recv := some ("MKD /OUT".toList ++ [CR, LF]) }

def madeOutside : FtpClient := (step oneUser (some inUpload) makesOutside).2.getD unused

/-- The DOS form of what he makes. -/
def outside : CStr := inFtp ["OUT"]

/-- From his upload directory a user can make directories anywhere. -/
theorem makesOutside_escapes : ¬ Along (step oneUser)
    (fun state call result => UploadsInside oneUser state call result)
    (some (startNewSession unused)) (goesToUpload ++ [makesOutside]) := by
  intro h
  have hlast := h.at_step goesToUpload
  have hrun : run (step oneUser) (some (startNewSession unused)) goesToUpload = some inUpload := by
    decide +kernel
  have hstep : step oneUser (some inUpload) makesOutside =
      (some [.command "MKD".toList, .stat outside, .mkdir outside "/OUT".toList],
        some madeOutside) := by
    decide +kernel
  rw [hrun, hstep] at hlast
  have huser : inUpload.user.Restricted oneUser.drives :=
    ⟨⟨fun _ => true, inUpload.user, by decide +kernel, rfl⟩, by decide +kernel⟩
  obtain ⟨name, -, hlies⟩ := hlast inUpload rfl huser outside "/OUT".toList (by decide +kernel)
  have hshown : shown inUpload outside = "/OUT".toList := by decide +kernel
  have hdir : inUpload.user.uploaddir = "/IN".toList := by decide +kernel
  rw [hshown, hdir, if_neg (by decide)] at hlies
  have hletter : 'O' = 'I' := (List.cons.inj (List.cons.inj hlies).2).1
  cases hletter

end SdcBoot.Ftp
