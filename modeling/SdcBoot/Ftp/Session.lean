/-
# What holds of a session

Paths are only looked at for a client who has signed in, and for him the root is the one his record
gives him.  Before that no transfer is under way, and after the end of the session only the end of
one.  `Standing` says so, every call keeps it, and `Call.run_does` is what the later modules use of
a call.
-/
import SdcBoot.Lib.Run
import SdcBoot.Ftp.Origin

namespace SdcBoot.Ftp

open Lib List

/-! ## 1. The invariant -/

/-- The root of a user's tree. -/
def rootOf (user : FtpUser) : CStr := if user.sandbox = bracketNone then [] else user.sandbox

/-- The states in which commands are run. -/
def FtpClientState.signedIn (state : FtpClientState) : Prop := state = .commandLine ∨ state = .rnfrSent

structure Standing (server : Server) (client : FtpClient) : Prop where
  xfer : client.dataXferState ≠ .init
  prompt : client.state = .userPrompt ∨ client.state = .passwordPrompt →
    client.dataXferState = .notActive
  ending : client.state = .closingPushOutput ∨ client.state = .closing ∨ client.state = .closed →
    client.dataXferState = .notActive ∨ client.dataXferState = .closing
  root : client.state.signedIn → client.ftproot = rootOf client.user
  cwd : IsDirectoryPath client.cwd
  filespec : client.state = .rnfrSent → ReachedBefore server client client.filespec

/-- The fields it speaks of. -/
theorem Standing.congr {server : Server} {client client' : FtpClient} (h : Standing server client)
    (hstate : client'.state = client.state) (hxfer : client'.dataXferState = client.dataXferState)
    (huser : client'.user = client.user) (hroot : client'.ftproot = client.ftproot)
    (hcwd : client'.cwd = client.cwd) (hspec : client'.filespec = client.filespec) :
    Standing server client' where
  xfer := hxfer ▸ h.xfer
  prompt := by rw [hstate, hxfer]; exact h.prompt
  ending := by rw [hstate, hxfer]; exact h.ending
  root := by rw [hstate, hroot, huser]; exact h.root
  cwd := hcwd ▸ h.cwd
  filespec := by
    rw [hstate, hspec]
    exact fun hsent => (h.filespec hsent).congr hroot.symm

theorem startNewSession_standing (server : Server) (client : FtpClient) :
    Standing server (startNewSession client) where
  xfer := nofun
  prompt := fun _ => rfl
  ending := by simp [startNewSession]
  root := by simp [startNewSession, FtpClientState.signedIn]
  cwd := ⟨[], by simp, rfl⟩
  filespec := nofun

section

variable {server : Server} {ans : Answers} {s t : Session}

/-- The end of a session, from any point. -/
theorem endSession_standing (h : Standing server s.client) :
    Standing server (endSession s).client := by
  have hend := Same.endDataTransfers s Msg_426_Request_term
  exact
    { xfer := by simp [endSession, Session.setState, endDataTransfers, Session.setXfer]
      prompt := by simp [endSession, Session.setState]
      ending := fun _ => .inr (by
        simp [endSession, Session.setState, endDataTransfers, Session.setXfer])
      root := by simp [endSession, Session.setState, FtpClientState.signedIn]
      cwd := by
        have hcwd : (endSession s).client.cwd = s.client.cwd := hend.cwd
        exact hcwd ▸ h.cwd
      filespec := by simp [endSession, Session.setState] }

/-! ## 2. Up to a line of input -/

/-- A transfer is moved on. -/
theorem doDataXfer_standing (h : Standing server s.client)
    (hrun : doDataXfer server ans s none = .ok t) :
    Standing server t.client ∧ Does server s t ∧
      (s.client.state.signedIn ∨ t.events = s.events) := by
  have hdoes := doDataXfer_does hrun
  have hspec : t.client.filespec = s.client.filespec := hdoes.filespec.resolve_right h.xfer
  have hxfer : t.client.dataXferState ≠ .init := by
    rcases hdoes.xfer with heq | hne
    · exact heq ▸ h.xfer
    · exact hne
  -- outside of the command states a transfer is at most waited for
  have hidle : s.client.dataXferState = .notActive ∨ s.client.dataXferState = .closing →
      (t.client.dataXferState = .notActive ∨ t.client.dataXferState = .closing) ∧
        (s.client.dataXferState = .notActive → t.client.dataXferState = .notActive) ∧
        t.events = s.events := by
    rintro (hnot | hclosing)
    · rw [doDataXfer, hnot] at hrun
      cases hrun
      exact ⟨.inl hnot, fun _ => hnot, rfl⟩
    · rw [doDataXfer, hclosing] at hrun
      cases hrun
      refine ⟨?_, fun hnot => absurd (hnot ▸ hclosing) nofun, (Same.xferClosing ans s).events⟩
      unfold xferClosing
      dsimp only
      split_ifs
      · exact .inr hclosing
      · exact .inl rfl
  refine ⟨⟨hxfer, fun hp => ?_, fun he => ?_, fun hs => ?_, ?_, fun hsent => ?_⟩, hdoes, ?_⟩
  · rw [hdoes.state] at hp
    exact (hidle (.inl (h.prompt hp))).2.1 (h.prompt hp)
  · rw [hdoes.state] at he
    exact (hidle (h.ending he)).1
  · rw [hdoes.state] at hs
    rw [hdoes.ftproot, hdoes.user]
    exact h.root hs
  · rw [hdoes.cwd]
    exact h.cwd
  · rw [hdoes.state] at hsent
    rw [hspec]
    exact (h.filespec hsent).congr hdoes.ftproot.symm
  · cases hstate : s.client.state with
    | commandLine => exact .inl (.inl rfl)
    | rnfrSent => exact .inl (.inr rfl)
    | userPrompt | passwordPrompt =>
      exact .inr (hidle (.inl (h.prompt (by simp [hstate])))).2.2
    | closed | closingPushOutput | closing => exact .inr (hidle (h.ending (by simp [hstate]))).2.2

theorem readLine_same (s : Session) (received : CStr) :
    Same s (readLine s received).1 ∧
      (readLine s received).1.client.dataXferState = s.client.dataXferState := by
  unfold readLine
  dsimp only
  split_ifs <;> exact ⟨⟨rfl, rfl, rfl, rfl, rfl, rfl, rfl, .inl rfl⟩, rfl⟩

theorem serviceInput_same (ans : Answers) (s : Session) :
    Same s (serviceInput ans s).1 ∧
      (serviceInput ans s).1.client.dataXferState = s.client.dataXferState := by
  unfold serviceInput
  cases ans.recv with
  | none => exact ⟨.refl s, rfl⟩
  | some received => exact readLine_same s received

/-- What happens in a call until a line is there, if one is: nothing that could be seen, but for
what a transfer does. -/
structure Waits (server : Server) (s t : Session) (line : Option CStr) : Prop where
  standing : Standing server t.client
  user : t.client.user = s.client.user
  ftproot : t.client.ftproot = s.client.ftproot
  cwd : t.client.cwd = s.client.cwd
  loginAttempts : t.client.loginAttempts = s.client.loginAttempts
  state : line ≠ none → t.client.state = s.client.state
  events : ∃ new, t.events = s.events ++ new ∧ ∀ e ∈ new, Origin server s.client e
  quiet : s.client.state.signedIn ∨ t.events = s.events

variable {line : Option CStr} {state : FtpClientState} {s₁ : Session}

section

variable (h : Standing server s.client)
include h

theorem Waits.of_same (hsame : Same s t)
    (hxfer : t.client.dataXferState = s.client.dataXferState) : Waits server s t line :=
  ⟨h.congr hsame.state hxfer hsame.user hsame.ftproot hsame.cwd hsame.filespec, hsame.user,
    hsame.ftproot, hsame.cwd, hsame.loginAttempts, fun _ => hsame.state, hsame.does.events,
    .inr hsame.events⟩

section

variable (hxfer : s.client.dataXferState = .notActive ∨ s.client.dataXferState = .closing)
include hxfer

section

variable (hstate : state = .closingPushOutput ∨ state = .closing ∨ state = .closed)
include hstate

/-- A session that has been ended, and is on its way to `Closed`. -/
theorem Standing.ended : Standing server (s.setState state).client where
  xfer := h.xfer
  prompt := fun hprompt => by
    have hprompt : state = .userPrompt ∨ state = .passwordPrompt := hprompt
    rcases hstate with rfl | rfl | rfl <;> simp at hprompt
  ending := fun _ => hxfer
  root := fun hsigned => by
    have hsigned : state = .commandLine ∨ state = .rnfrSent := hsigned
    rcases hstate with rfl | rfl | rfl <;> simp at hsigned
  cwd := h.cwd
  filespec := fun hsent => by
    have hsent : state = .rnfrSent := hsent
    rcases hstate with rfl | rfl | rfl <;> cases hsent

theorem Waits.ended : Waits server s (s.setState state) none :=
  ⟨h.ended hxfer hstate, rfl, rfl, rfl, rfl, nofun, (Same.refl s).does.events, .inr rfl⟩

end

end

theorem serviceAfterXfer_waits :
    Waits server s (serviceAfterXfer ans s).1 (serviceAfterXfer ans s).2 := by
  unfold serviceAfterXfer
  split_ifs with hpush hclosing hdone hstat
  · exact .ended h (h.ending (.inl hpush)) (.inr (.inl rfl))
  · exact .ended h (.inl hdone.1) (.inr (.inr rfl))
  · exact .of_same h (.refl s) rfl
  · refine .of_same h (doStatLine_same ans s) ?_
    unfold doStatLine
    split_ifs <;> rfl
  · exact .of_same h (serviceInput_same ans s).1 (serviceInput_same ans s).2

theorem serviceRemoteClosed_waits : Waits server s (serviceRemoteClosed ans s) none := by
  unfold serviceRemoteClosed
  have hend := Same.endDataTransfers s Msg_426_Request_term
  have hended : Waits server s (endSession s) none :=
    ⟨endSession_standing h, hend.user, hend.ftproot, hend.cwd, hend.loginAttempts, nofun,
      hend.does.events, .inr hend.events⟩
  split_ifs
  · split
    · exact .of_same h (.clearOutput s) rfl
    · exact .of_same h (.refl s) rfl
    · exact hended
  · exact .of_same h (.refl s) rfl

end

theorem serviceRemoteClosed_state (ans : Answers) (s : Session) :
    (serviceRemoteClosed ans s).client.state = s.client.state ∨
      (serviceRemoteClosed ans s).client.state = .closingPushOutput := by
  unfold serviceRemoteClosed
  split_ifs
  · split
    · exact .inl rfl
    · exact .inl rfl
    · exact .inr rfl
  · exact .inl rfl

theorem serviceAfterXfer_line (h : (serviceAfterXfer ans s).2 ≠ none) :
    s.client.state ≠ .closingPushOutput := by
  intro hpush
  unfold serviceAfterXfer at h
  rw [if_pos hpush] at h
  exact h rfl

/-- **Up to a line of input.** -/
theorem serviceUntilLine_waits (h : Standing server s.client)
    (hrun : serviceUntilLine server ans s = .ok (t, line)) : Waits server s t line := by
  unfold serviceUntilLine at hrun
  dsimp only at hrun
  have hclosed := @serviceRemoteClosed_waits server ans s h
  split_ifs at hrun with hout
  · cases hrun
    have hsend := Same.sendOutput ans (serviceRemoteClosed ans s)
    have hxfer : (sendOutput ans (serviceRemoteClosed ans s)).client.dataXferState =
        (serviceRemoteClosed ans s).client.dataXferState := by
      unfold sendOutput
      split_ifs <;> rfl
    exact ⟨hclosed.standing.congr hsend.state hxfer hsend.user hsend.ftproot hsend.cwd
      hsend.filespec, hsend.user.trans hclosed.user, hsend.ftproot.trans hclosed.ftproot,
      hsend.cwd.trans hclosed.cwd, hsend.loginAttempts.trans hclosed.loginAttempts, nofun,
      by rw [hsend.events]; exact hclosed.events, by rw [hsend.events]; exact hclosed.quiet⟩
  · obtain ⟨u, hxfer, hafter⟩ := Outcome.bind_eq_ok hrun
    obtain ⟨hstanding, hdoes, hquiet⟩ := doDataXfer_standing hclosed.standing hxfer
    obtain ⟨rfl, rfl⟩ := Prod.ext_iff.mp (Outcome.ok.inj hafter)
    have hwaits := @serviceAfterXfer_waits server ans u hstanding
    -- what is closed is not asked for a line
    have hsigned (hs : (serviceRemoteClosed ans s).client.state ≠ .closingPushOutput) :
        (serviceRemoteClosed ans s).client.state = s.client.state :=
      (serviceRemoteClosed_state ans s).resolve_right hs
    obtain ⟨new₁, hnew₁, hall₁⟩ := hclosed.events
    obtain ⟨new₂, hnew₂, hall₂⟩ := hdoes.events
    obtain ⟨new₃, hnew₃, hall₃⟩ := hwaits.events
    refine ⟨hwaits.standing, hwaits.user.trans (hdoes.user.trans hclosed.user),
      hwaits.ftproot.trans (hdoes.ftproot.trans hclosed.ftproot),
      hwaits.cwd.trans (hdoes.cwd.trans hclosed.cwd),
      hwaits.loginAttempts.trans (hdoes.loginAttempts.trans hclosed.loginAttempts), fun hline => ?_,
      ⟨new₁ ++ new₂ ++ new₃, ?_, fun e he => ?_⟩, ?_⟩
    · have hpush := serviceAfterXfer_line hline
      rw [hwaits.state hline, hdoes.state, hsigned (hdoes.state ▸ hpush)]
    · rw [hnew₃, hnew₂, hnew₁]
      simp
    · rcases mem_append.mp he with he | he
      · rcases mem_append.mp he with he | he
        · exact hall₁ e he
        · exact (hall₂ e he).congr hclosed.ftproot hclosed.cwd
      · exact (hall₃ e he).congr (hdoes.ftproot.trans hclosed.ftproot)
          (hdoes.cwd.trans hclosed.cwd)
    · by_cases hsign : s.client.state.signedIn
      · exact .inl hsign
      · have hnot : ¬ (serviceRemoteClosed ans s).client.state.signedIn := by
          intro hyes
          refine hsign (hsigned (fun hpush => ?_) ▸ hyes)
          simp [hpush, FtpClientState.signedIn] at hyes
        have hnot' : ¬ u.client.state.signedIn := hdoes.state ▸ hnot
        rw [hwaits.quiet.resolve_left hnot', hquiet.resolve_left hnot,
          hclosed.quiet.resolve_left hsign]
        exact .inr rfl

/-! ## 3. Lines -/

/-- What has become of a client by the end of a call, or of a part of one. -/
structure Served (server : Server) (s t : Session) : Prop where
  standing : Standing server t.client
  user : s.client.state.signedIn → t.client.user = s.client.user
  events : ∃ new, t.events = s.events ++ new ∧
    (s.client.state.signedIn → ∀ e ∈ new, Origin server s.client e) ∧
    (¬ s.client.state.signedIn → ∀ e ∈ new, ∃ token, e = .password token)

theorem Served.of_same (h : Standing server t.client) (hsame : Same s t) : Served server s t :=
  ⟨h, fun _ => hsame.user, [], by rw [hsame.events, append_nil], by simp, by simp⟩

/-- A command leaves a client who has signed in, or one whose session has been ended. -/
theorem Turns.standing (h : Standing server s₁.client) (hstate : s₁.client.state = .commandLine)
    (hturns : Turns server s₁ t) : Standing server t.client := by
  have hroot : t.client.ftproot = rootOf t.client.user := by
    rw [hturns.ftproot, hturns.user]
    exact h.root (.inl hstate)
  refine ⟨?_, fun hprompt => ?_, fun hending => ?_, fun _ => hroot, ?_, fun hsent => ?_⟩
  · rcases hturns.xfer with heq | hne
    · exact heq ▸ h.xfer
    · exact hne
  · rcases hturns.state with heq | ⟨heq, -⟩ | ⟨heq, -⟩ <;> simp [heq, hstate] at hprompt
  · rcases hturns.state with heq | ⟨heq, -⟩ | ⟨-, hclosing⟩
    · simp [heq, hstate] at hending
    · simp [heq] at hending
    · exact .inr hclosing
  · rcases hturns.cwd with heq | hdir
    · exact heq ▸ h.cwd
    · exact hdir
  · rcases hturns.state with heq | ⟨-, hreached⟩ | ⟨heq, -⟩
    · simp [heq, hstate] at hsent
    · exact hreached.before.congr hturns.ftproot.symm
    · simp [heq] at hsent

variable {command : CStr} {next : Option CStr}

/-- The login of an unknown, refused or ended name. -/
theorem userPrompt_served (h : Standing server s.client) (hstate : s.client.state = .userPrompt)
    (hrun : userPrompt server s command next = .ok t) : Served server s t := by
  have hnot : ¬ s.client.state.signedIn := by simp [hstate, FtpClientState.signedIn]
  have hidle := h.prompt (.inl hstate)
  -- every record of a client who is not signed in and waits for nothing will do
  have hserved (client : FtpClient) (hxfer : client.dataXferState = .notActive)
      (hprompt : client.state = .userPrompt ∨ client.state = .passwordPrompt)
      (hcwd : client.cwd = s.client.cwd) : Served server s ⟨client, s.events⟩ := by
    refine ⟨⟨by simp [hxfer], fun _ => hxfer, fun _ => .inl hxfer, fun hs => ?_, hcwd ▸ h.cwd,
      fun hs => ?_⟩, fun hs => absurd hs hnot, [], by simp, by simp, by simp⟩
    · rcases hprompt with hp | hp <;> simp [hp, FtpClientState.signedIn] at hs
    · rcases hprompt with hp | hp <;> simp [hp] at hs
  unfold userPrompt at hrun
  dsimp only at hrun
  split_ifs at hrun with huser hmany
  · cases hrun
    have hend := Same.endDataTransfers
      { s with client := { s.client with loginAttempts := s.client.loginAttempts + 1 } }
      Msg_426_Request_term
    refine ⟨endSession_standing (h.congr rfl rfl rfl rfl rfl rfl), fun hs => absurd hs hnot, [], ?_,
      by simp, by simp⟩
    rw [append_nil]
    exact hend.events
  · obtain ⟨⟨tmpUserName, next⟩, -, hrun⟩ := Outcome.bind_eq_ok hrun
    split_ifs at hrun
    · cases hrun
      exact hserved _ hidle (.inl hstate) rfl
    · obtain ⟨⟨found, user⟩, -, hrun⟩ := Outcome.bind_eq_ok hrun
      split_ifs at hrun
      · cases hrun
        exact hserved _ hidle (.inr rfl) rfl
      · cases hrun
        exact hserved _ hidle (.inr rfl) rfl
      · cases hrun
        exact hserved _ hidle (.inl hstate) rfl
  · cases hrun
    exact hserved _ hidle (.inl hstate) rfl

theorem passwordPrompt_served (h : Standing server s.client)
    (hstate : s.client.state = .passwordPrompt)
    (hrun : passwordPrompt s command next = .ok t) : Served server s t := by
  have hnot : ¬ s.client.state.signedIn := by simp [hstate, FtpClientState.signedIn]
  have hidle := h.prompt (.inr hstate)
  have hback (u : Session) (hu : u.client.cwd = s.client.cwd)
      (hxfer : u.client.dataXferState = .notActive) :
      Standing server (u.setState .userPrompt).client :=
    ⟨by simp [Session.setState, hxfer], fun _ => hxfer, fun _ => .inl hxfer,
      by simp [Session.setState, FtpClientState.signedIn], hu ▸ h.cwd,
      by simp [Session.setState]⟩
  unfold passwordPrompt at hrun
  split_ifs at hrun
  · obtain ⟨⟨tmpPassword, next⟩, -, hrun⟩ := Outcome.bind_eq_ok hrun
    dsimp only at hrun
    split_ifs at hrun
    · cases hrun
      exact ⟨hback _ rfl hidle, fun hs => absurd hs hnot, [], by simp [Session.setState, Session.say],
        by simp, by simp⟩
    · cases hrun
      refine ⟨⟨by simp [signIn, Session.say, Session.emit, hidle], by simp [signIn],
        by simp [signIn], fun _ => rfl, ⟨[], by simp, rfl⟩, by simp [signIn]⟩, fun hs => absurd hs hnot, [.password tmpPassword], rfl,
        fun hs => absurd hs hnot, by simp⟩
    · cases hrun
      exact ⟨hback _ rfl hidle, fun hs => absurd hs hnot, [.password tmpPassword], rfl,
        fun hs => absurd hs hnot, by simp⟩
  · cases hrun
    exact ⟨hback _ rfl hidle, fun hs => absurd hs hnot, [], by simp [Session.setState, Session.say],
      by simp, by simp⟩

/-- A command is run for a client who has signed in. -/
theorem commandLine_served {word : CStr} (h : Standing server s₁.client)
    (hstate : s₁.client.state = .commandLine) (hsigned : s.client.state.signedIn)
    (huser : s₁.client.user = s.client.user) (hroot : s₁.client.ftproot = s.client.ftproot)
    (hcwd : s₁.client.cwd = s.client.cwd) (hevents : s₁.events = s.events ++ [.command word])
    (hturns : Turns server s₁ t) : Served server s t := by
  obtain ⟨new, hnew, hall⟩ := hturns.events
  refine ⟨hturns.standing h hstate, fun _ => hturns.user.trans huser,
    .command word :: new, ?_, fun _ e he => ?_, fun hnot => absurd hsigned hnot⟩
  · rw [hnew, hevents, append_assoc, singleton_append]
  · rcases mem_cons.mp he with rfl | he
    · exact .command word
    · exact (hall e he).congr hroot hcwd

theorem runCommand_served (h : Standing server s.client)
    (hrun : runCommand server ans s command next = .ok t) : Served server s t := by
  unfold runCommand at hrun
  split at hrun
  · exact userPrompt_served h ‹_› hrun
  · exact passwordPrompt_served h ‹_› hrun
  case h_3 hsent =>
    have hsigned : s.client.state.signedIn := .inr hsent
    have h₁ : Standing server ((s.emit (.command command)).setState .commandLine).client :=
      ⟨h.xfer, nofun, nofun, fun _ => h.root hsigned, h.cwd, nofun⟩
    have hturns : Turns server ((s.emit (.command command)).setState .commandLine) t := by
      split_ifs at hrun
      · have hold : ReachedBefore server
            ((s.emit (.command command)).setState .commandLine).client s.client.filespec :=
          (h.filespec hsent).congr rfl
        exact (doRnto_quiet hold hrun).does.turns
      · exact commandLine_turns hrun
    exact commandLine_served h₁ rfl hsigned rfl rfl rfl rfl hturns
  case h_4 hcommand =>
    have h₁ : Standing server (s.emit (.command command)).client := h
    have hturns : Turns server (s.emit (.command command)) t := commandLine_turns hrun
    exact commandLine_served h₁ hcommand (.inl hcommand) rfl rfl rfl rfl hturns
  all_goals
    cases hrun
    exact .of_same h (.refl s)

theorem runLine_served {line : CStr} (h : Standing server s.client)
    (hrun : runLine server ans s line = .ok t) : Served server s t := by
  obtain ⟨⟨command, next⟩, -, hrun⟩ := Outcome.bind_eq_ok hrun
  dsimp only at hrun
  split_ifs at hrun
  · cases hrun
    exact .of_same h (.refl s)
  · exact runCommand_served h hrun

/-- **What a call does** to a client. -/
theorem Call.run_served {call : Call} {client : FtpClient} (h : Standing server client)
    (hrun : call.run server client = .ok t) : Served server ⟨client, []⟩ t := by
  cases call with
  | dataConnection =>
    unfold Call.run at hrun
    dsimp only at hrun
    split_ifs at hrun
    · cases hrun
      exact .of_same (h.congr rfl rfl rfl rfl rfl rfl) ⟨rfl, rfl, rfl, rfl, rfl, rfl, rfl, .inl rfl⟩
    · cases hrun
      exact .of_same h (.refl _)
  | expire =>
    cases hrun
    have hend := Same.endDataTransfers ⟨client, []⟩ Msg_426_Request_term
    refine ⟨endSession_standing h, fun _ => hend.user, [], ?_, by simp, by simp⟩
    exact hend.events
  | service ans =>
    unfold Call.run at hrun
    dsimp only at hrun
    split_ifs at hrun
    · cases hrun
      exact .of_same h (.refl _)
    obtain ⟨⟨u, line⟩, huntil, hrun⟩ := Outcome.bind_eq_ok hrun
    have hwaits := serviceUntilLine_waits (by exact h) huntil
    obtain ⟨new, hnew, hall⟩ := hwaits.events
    have hquiet (hnot : ¬ client.state.signedIn) : new = [] := by
      have hsame := hwaits.quiet.resolve_left hnot
      rw [hnew, nil_append] at hsame
      exact hsame
    cases line with
    | none =>
      cases hrun
      exact ⟨hwaits.standing, fun _ => hwaits.user, new, hnew, fun _ => hall, fun hnot => by
        rw [hquiet hnot]
        simp⟩
    | some line =>
      have hstate := hwaits.state nofun
      have hserved := runLine_served hwaits.standing hrun
      obtain ⟨new', hnew', horigin', hpasswords'⟩ := hserved.events
      rw [hstate] at horigin' hpasswords'
      refine ⟨hserved.standing, fun hs => (hserved.user (hstate ▸ hs)).trans hwaits.user,
        new ++ new', by rw [hnew', hnew, append_assoc], fun hs e he => ?_, fun hnot e he => ?_⟩
      · rcases mem_append.mp he with he | he
        · exact hall e he
        · exact (horigin' hs e he).congr hwaits.ftproot hwaits.cwd
      · rw [hquiet hnot, nil_append] at he
        exact hpasswords' hnot e he

end

end SdcBoot.Ftp
