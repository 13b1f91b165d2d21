/-
# The login

A command is run only for a client who has signed in: some line of his named a user of the password
file, and a later one gave the password of this user.  What stood between the two made no
difference to the server: blank lines, which it passes over.  A line that is too long is answered
and thrown away before it becomes a line.

The record of the session is the one that the name brought in, from the name to the end of the
session, so everything runs with the root and the permissions of this user.  Each name costs one of
three attempts, and no more than one password is compared for it.

Nothing is said about a session from a write behind the end of an array on.
-/
import SdcBoot.Ftp.Sandbox

namespace SdcBoot.Ftp

open Lib List

/-! ## 1. Lines of a login -/

/-- The command word of a line, with what stands behind it. -/
def HasWord (line word : CStr) (next : Option CStr) : Prop :=
  ∃ token, getNextToken (some (withoutTelnet line)) COMMAND_MAX_LEN = .ok (token, next) ∧
    strupr token = word

/-- A line the server passes over. -/
def Blank (line : CStr) : Prop := ∃ next, HasWord line [] next

/-- A user of the password file, under some name. -/
def InFile (userFile : List CStr) (name : CStr) (user : FtpUser) : Prop :=
  ∃ lineBuffer ∈ userFile, createUserRec lineBuffer = .ok (0, user) ∧
    ∃ userName next, getNextToken (some lineBuffer) USERNAME_LEN = .ok (userName, next) ∧
      stricmpEq name userName = true

/-- A `USER` line for a user of the password file. -/
def NamesUser (server : Server) (line : CStr) (user : FtpUser) : Prop :=
  ∃ next name rest, HasWord line "USER".toList next ∧
    getNextToken next USERNAME_LEN = .ok (name, rest) ∧ InFile server.userFile name user

/-- A `PASS` line with the password of a user. -/
def GivesPassword (line : CStr) (user : FtpUser) : Prop :=
  ∃ next token rest, HasWord line "PASS".toList next ∧
    getNextToken next TMP_PASSWORD_LEN = .ok (token, rest) ∧ token ≠ [] ∧
      (user.userPass = bracketEmail ∨ user.userPass = token)

/-- The lines end with the name of a user, and blank lines. -/
def Named (server : Server) (lines : List CStr) (user : FtpUser) : Prop :=
  ∃ before userLine blanks, lines = before ++ userLine :: blanks ∧
    NamesUser server userLine user ∧ ∀ line ∈ blanks, Blank line

/-- Among the lines there is the name of a user with his password behind it. -/
def SignedIn (server : Server) (lines : List CStr) (user : FtpUser) : Prop :=
  ∃ before passLine after, lines = before ++ passLine :: after ∧
    Named server before user ∧ GivesPassword passLine user

section

variable {server : Server} {lines : List CStr} {user : FtpUser} {line : CStr}

theorem Named.append_blank (h : Named server lines user) (hblank : Blank line) :
    Named server (lines ++ [line]) user := by
  obtain ⟨before, userLine, blanks, rfl, hnames, hall⟩ := h
  refine ⟨before, userLine, blanks ++ [line], by simp, hnames, fun other hother => ?_⟩
  rcases mem_append.mp hother with hother | hother
  · exact hall other hother
  · rw [mem_singleton.mp hother]
    exact hblank

theorem Named.of_user (h : NamesUser server line user) : Named server (lines ++ [line]) user :=
  ⟨lines, line, [], rfl, h, by simp⟩

theorem Named.signedIn (h : Named server lines user) (hpass : GivesPassword line user) :
    SignedIn server (lines ++ [line]) user :=
  ⟨lines, line, [], rfl, h, hpass⟩

theorem SignedIn.append (h : SignedIn server lines user) (more : List CStr) :
    SignedIn server (lines ++ more) user := by
  obtain ⟨before, passLine, after, rfl, hnamed, hpass⟩ := h
  exact ⟨before, passLine, after ++ more, by simp, hnamed, hpass⟩

/-- `getUserRec` finds users of the file only. -/
theorem getUserRec_inFile {name : CStr} : ∀ {userFile : List CStr} {buffer : FtpUser},
    getUserRec name userFile buffer = .ok (true, user) → InFile userFile name user
  | [], _, h => absurd h (by simp [getUserRec])
  | lineBuffer :: userFile, buffer, h => by
    have hlater (h : getUserRec name userFile buffer = .ok (true, user)) :
        InFile (lineBuffer :: userFile) name user := by
      obtain ⟨other, hother, hrest⟩ := getUserRec_inFile h
      exact ⟨other, mem_cons_of_mem _ hother, hrest⟩
    rw [getUserRec] at h
    split_ifs at h with hskip
    · exact hlater h
    · obtain ⟨⟨userName, next⟩, htoken, h⟩ := Outcome.bind_eq_ok h
      dsimp only at h
      split_ifs at h with hempty hname
      · exact hlater h
      · obtain ⟨⟨rc, found⟩, hcreate, hrc⟩ := Outcome.bind_eq_ok h
        obtain ⟨hzero, rfl⟩ := Prod.ext_iff.mp (Outcome.ok.inj hrc)
        obtain rfl : rc = 0 := beq_iff_eq.mp hzero
        exact ⟨lineBuffer, mem_cons_self, hcreate, userName, next, htoken, hname⟩
      · exact hlater h

end

/-! ## 2. Sessions with their lines -/

/-- A session, and the lines that have been read in it. -/
structure Connection where
  client : Option FtpClient
  lines : List CStr

/-- The line a call reads, if it reads one. -/
def Call.line (server : Server) (client : FtpClient) : Call → Option CStr
  | .service ans =>
    if client.state = .closed then none
    else
      match serviceUntilLine server ans ⟨client, []⟩ with
      | .ok (_, line) => line
      | _ => none
  | .dataConnection => none
  | .expire => none

def converse (server : Server) (c : Connection) (call : Call) :
    Option (List Event) × Connection :=
  match c.client with
  | none => (none, c)
  | some client =>
    ((step server (some client) call).1,
      ⟨(step server (some client) call).2, c.lines ++ (call.line server client).toList⟩)

/-- The attempts a client has left. -/
def attemptsLeft (client : FtpClient) : Nat :=
  match client.state with
  | .userPrompt => 3 - client.loginAttempts
  | .passwordPrompt => 3 - client.loginAttempts + 1
  | _ => 0

/-- What the lines say about the record. -/
structure Known (server : Server) (client : FtpClient) (lines : List CStr) : Prop where
  standing : Standing server client
  named : client.state = .passwordPrompt → Named server lines client.user
  signedIn : client.state.signedIn → SignedIn server lines client.user

def Event.isPassword : Event → Bool
  | .password _ => true
  | _ => false

/-- How many passwords have been compared. -/
def passwords (events : List Event) : Nat := events.countP Event.isPassword

/-- A client who is not asked for a name or a password any more. -/
def FtpClientState.Past (state : FtpClientState) : Prop :=
  state ≠ .userPrompt ∧ state ≠ .passwordPrompt

variable {client : FtpClient} {server : Server} {c : Connection}

theorem attemptsLeft_of_past (h : client.state.Past) : attemptsLeft client = 0 := by
  unfold attemptsLeft
  split
  · exact absurd ‹_› h.1
  · exact absurd ‹_› h.2
  · rfl

theorem attemptsLeft_userPrompt (h : client.state = .userPrompt) :
    attemptsLeft client = 3 - client.loginAttempts := by
  rw [attemptsLeft, h]

theorem attemptsLeft_passwordPrompt (h : client.state = .passwordPrompt) :
    attemptsLeft client = 3 - client.loginAttempts + 1 := by
  rw [attemptsLeft, h]

theorem endSession_past (s : Session) : (endSession s).client.state.Past := ⟨nofun, nofun⟩

theorem signIn_past (s : Session) : (signIn s).client.state.Past := ⟨nofun, nofun⟩

/-! ## 3. What a part of a call leaves -/

section

variable {server : Server} {ans : Answers} {s t : Session} {lines : List CStr}
  {nextTokenPtr : Option CStr}

theorem passwords_of_origin {events new : List Event}
    (h : ∀ e ∈ new, Origin server client e) : passwords (events ++ new) = passwords events := by
  have hnone : passwords new = 0 := by
    refine countP_eq_zero.mpr fun e he => ?_
    cases h e he <;> simp [Event.isPassword]
  unfold passwords at hnone ⊢
  rw [countP_append, hnone, add_zero]

/-- A part of a call by which nobody is signed in: he is where he was, or past the login. -/
structure Passes (s t : Session) : Prop where
  state : t.client.state = s.client.state ∨
    t.client.state.Past ∧ (t.client.state.signedIn → s.client.state.signedIn)
  user : t.client.user = s.client.user
  loginAttempts : t.client.loginAttempts = s.client.loginAttempts
  passwords : passwords t.events = passwords s.events

theorem Passes.known (h : Passes s t) (hknown : Known server s.client lines)
    (hstanding : Standing server t.client) : Known server t.client lines where
  standing := hstanding
  named := fun hprompt => by
    rcases h.state with heq | ⟨hpast, -⟩
    · rw [h.user]
      exact hknown.named (heq ▸ hprompt)
    · exact absurd hprompt hpast.2
  signedIn := fun hsigned => by
    rw [h.user]
    rcases h.state with heq | ⟨-, hback⟩
    · exact hknown.signedIn (heq ▸ hsigned)
    · exact hknown.signedIn (hback hsigned)

theorem Passes.attemptsLeft (h : Passes s t) :
    attemptsLeft t.client ≤ attemptsLeft s.client := by
  rcases h.state with heq | ⟨hpast, -⟩
  · unfold Ftp.attemptsLeft
    rw [heq, h.loginAttempts]
  · rw [attemptsLeft_of_past hpast]
    exact Nat.zero_le _

/-- The end of a session is past the login. -/
theorem serviceAfterXfer_state (ans : Answers) (s : Session) :
    (serviceAfterXfer ans s).1.client.state = s.client.state ∨
      (serviceAfterXfer ans s).1.client.state = .closing ∨
      (serviceAfterXfer ans s).1.client.state = .closed := by
  unfold serviceAfterXfer
  split_ifs
  · exact .inr (.inl rfl)
  · exact .inr (.inr rfl)
  · exact .inl rfl
  · exact .inl (doStatLine_same ans s).state
  · exact .inl (serviceInput_same ans s).1.state

theorem serviceUntilLine_state {line : Option CStr}
    (h : serviceUntilLine server ans s = .ok (t, line)) :
    t.client.state = s.client.state ∨ t.client.state = .closingPushOutput ∨
      t.client.state = .closing ∨ t.client.state = .closed := by
  have hclosed := serviceRemoteClosed_state ans s
  have hor {state : FtpClientState} (heq : state = (serviceRemoteClosed ans s).client.state) :
      state = s.client.state ∨ state = .closingPushOutput ∨ state = .closing ∨ state = .closed := by
    rw [heq]
    rcases hclosed with heq | heq
    · exact .inl heq
    · exact .inr (.inl heq)
  unfold serviceUntilLine at h
  dsimp only at h
  split_ifs at h
  · cases h
    exact hor (Same.sendOutput ans _).state
  · obtain ⟨u, hxfer, hafter⟩ := Outcome.bind_eq_ok h
    obtain ⟨rfl, -⟩ := Prod.ext_iff.mp (Outcome.ok.inj hafter)
    rcases serviceAfterXfer_state ans u with heq | hended
    · exact hor (heq.trans (doDataXfer_does hxfer).state)
    · exact .inr (.inr hended)

/-- Up to a line of input nothing happens to the login. -/
theorem serviceUntilLine_passes {line : Option CStr} (hstanding : Standing server s.client)
    (h : serviceUntilLine server ans s = .ok (t, line)) : Passes s t := by
  have hwaits := serviceUntilLine_waits hstanding h
  obtain ⟨new, hnew, hall⟩ := hwaits.events
  refine ⟨?_, hwaits.user, hwaits.loginAttempts, by rw [hnew, passwords_of_origin hall]⟩
  rcases serviceUntilLine_state h with heq | hended
  · exact .inl heq
  · right
    rcases hended with heq | heq | heq <;> rw [heq] <;>
      simp [FtpClientState.Past, FtpClientState.signedIn]

/-- A line in the state that asks for a name. -/
theorem userPrompt_known {command line : CStr} (hstate : s.client.state = .userPrompt) (hword : HasWord line command nextTokenPtr)
    (h : userPrompt server s command nextTokenPtr = .ok t) :
    (t.client.state = .passwordPrompt → Named server (lines ++ [line]) t.client.user) ∧
      ¬ t.client.state.signedIn ∧
      passwords t.events + attemptsLeft t.client ≤ passwords s.events + attemptsLeft s.client := by
  have hleft := attemptsLeft_userPrompt hstate
  -- the name is asked for again
  have hagain (client : FtpClient) (hprompt : client.state = .userPrompt)
      (hmore : s.client.loginAttempts ≤ client.loginAttempts) :
      (client.state = .passwordPrompt → Named server (lines ++ [line]) client.user) ∧
        ¬ client.state.signedIn ∧
        passwords s.events + attemptsLeft client ≤ passwords s.events + attemptsLeft s.client := by
    refine ⟨fun hp => absurd (hprompt.symm.trans hp) (by decide),
      by simp [hprompt, FtpClientState.signedIn], ?_⟩
    rw [hleft, attemptsLeft_userPrompt hprompt]
    exact Nat.add_le_add_left (by omega) _
  unfold userPrompt at h
  dsimp only at h
  split_ifs at h with huser hmany
  · cases h
    have hend := Same.endDataTransfers
      { s with client := { s.client with loginAttempts := s.client.loginAttempts + 1 } }
      Msg_426_Request_term
    refine ⟨by simp [endSession, Session.setState], by simp [endSession, Session.setState, FtpClientState.signedIn], ?_⟩
    have hsame : passwords (endSession
        { s with client := { s.client with loginAttempts := s.client.loginAttempts + 1 } }).events =
        passwords s.events := congrArg passwords hend.events
    rw [attemptsLeft_of_past (endSession_past _), hsame]
    exact Nat.le_add_right _ _
  · obtain ⟨⟨tmpUserName, next⟩, hname, h⟩ := Outcome.bind_eq_ok h
    split_ifs at h with hempty
    · cases h
      exact hagain _ hstate (Nat.le_succ _)
    · obtain ⟨⟨found, user⟩, hrec, h⟩ := Outcome.bind_eq_ok h
      have hfound (client : FtpClient) (huser' : client.user = user)
          (hprompt : client.state = .passwordPrompt)
          (hmore : client.loginAttempts = s.client.loginAttempts + 1) (hfound : found = true) :
          (client.state = .passwordPrompt → Named server (lines ++ [line]) client.user) ∧
            ¬ client.state.signedIn ∧
            passwords s.events + attemptsLeft client ≤
              passwords s.events + attemptsLeft s.client := by
        refine ⟨fun _ => .of_user ⟨nextTokenPtr, tmpUserName, next, huser ▸ hword, hname, ?_⟩,
          by simp [hprompt, FtpClientState.signedIn], ?_⟩
        · rw [huser']
          exact getUserRec_inFile (hfound ▸ hrec)
        · rw [hleft, attemptsLeft_passwordPrompt hprompt]
          exact Nat.add_le_add_left (by omega) _
      split_ifs at h with hyes hmail
      · cases h
        exact hfound _ rfl rfl rfl hyes
      · cases h
        exact hfound _ rfl rfl rfl hyes
      · cases h
        exact hagain _ hstate (Nat.le_succ _)
  · cases h
    exact hagain _ hstate le_rfl

variable {command : CStr}

/-- A line in the state that asks for a password. -/
theorem passwordPrompt_known {line : CStr} (hknown : Known server s.client lines)
    (hstate : s.client.state = .passwordPrompt) (hword : HasWord line command nextTokenPtr)
    (h : passwordPrompt s command nextTokenPtr = .ok t) :
    t.client.state ≠ .passwordPrompt ∧
      (t.client.state.signedIn → SignedIn server (lines ++ [line]) t.client.user) ∧
      passwords t.events + attemptsLeft t.client ≤ passwords s.events + attemptsLeft s.client := by
  have hleft := attemptsLeft_passwordPrompt hstate
  -- back to the name, after one password at most
  have hback (u : Session) (hmore : u.client.loginAttempts = s.client.loginAttempts)
      (hone : passwords u.events ≤ passwords s.events + 1) :
      (u.setState .userPrompt).client.state ≠ .passwordPrompt ∧
        ((u.setState .userPrompt).client.state.signedIn →
          SignedIn server (lines ++ [line]) (u.setState .userPrompt).client.user) ∧
        passwords (u.setState .userPrompt).events + attemptsLeft (u.setState .userPrompt).client ≤
          passwords s.events + attemptsLeft s.client := by
    refine ⟨by simp [Session.setState], by simp [Session.setState, FtpClientState.signedIn], ?_⟩
    have hu : attemptsLeft (u.setState .userPrompt).client = 3 - s.client.loginAttempts := by
      rw [← hmore]
      rfl
    have hevents : (u.setState .userPrompt).events = u.events := rfl
    rw [hu, hleft, hevents]
    omega
  have hcount (token : CStr) : passwords (s.emit (.password token)).events =
      passwords s.events + 1 := by
    simp [passwords, Session.emit, Event.isPassword]
  unfold passwordPrompt at h
  split_ifs at h with hpass
  · obtain ⟨⟨tmpPassword, next⟩, htoken, h⟩ := Outcome.bind_eq_ok h
    dsimp only at h
    split_ifs at h with hempty hok
    · cases h
      exact hback _ rfl (Nat.le_succ _)
    · cases h
      refine ⟨by simp [signIn], fun _ => (hknown.named hstate).signedIn
        ⟨nextTokenPtr, tmpPassword, next, hpass ▸ hword, htoken, hempty, ?_⟩, ?_⟩
      · simp only [passwordOk, Bool.or_eq_true, beq_iff_eq] at hok
        exact hok
      · have hevents : (signIn (s.emit (.password tmpPassword))).events =
            (s.emit (.password tmpPassword)).events := rfl
        rw [attemptsLeft_of_past (signIn_past _), hevents, hcount, hleft]
        omega
    · cases h
      exact hback _ rfl (hcount tmpPassword).le
  · cases h
    exact hback _ rfl (Nat.le_succ _)

/-- A command leaves a client past the login. -/
theorem runCommand_past (hsigned : s.client.state.signedIn)
    (h : runCommand server ans s command nextTokenPtr = .ok t) : t.client.state.Past := by
  have hpast {s₁ : Session} (hstate : s₁.client.state = .commandLine)
      (hor : t.client.state = s₁.client.state ∨ t.client.state = .rnfrSent ∨
        t.client.state = .closingPushOutput) : t.client.state.Past := by
    rcases hor with heq | heq | heq
    · rw [heq, hstate]
      exact ⟨nofun, nofun⟩
    · rw [heq]
      exact ⟨nofun, nofun⟩
    · rw [heq]
      exact ⟨nofun, nofun⟩
  have hturns {s₁ : Session} (hstate : s₁.client.state = .commandLine) (hturns : Turns server s₁ t) :
      t.client.state.Past :=
    hpast hstate (hturns.state.imp_right fun hor => hor.imp And.left And.left)
  unfold runCommand at h
  rcases hsigned with hstate | hstate
  · rw [hstate] at h
    exact @hturns (s.emit (.command command)) hstate (commandLine_turns h)
  · rw [hstate] at h
    split_ifs at h
    · rcases onPath_cases h with hsame | ⟨userPart, fullpath, -, rfl⟩
      · exact hpast rfl (.inl hsame.state)
      · split
        · split_ifs <;> exact ⟨nofun, nofun⟩
        · exact ⟨nofun, nofun⟩
    · exact hturns rfl (commandLine_turns h)

/-- **A line of input**, and what the lines say afterwards. -/
theorem runLine_known {line : CStr} (hknown : Known server s.client lines)
    (h : runLine server ans s line = .ok t) :
    Known server t.client (lines ++ [line]) ∧
      passwords t.events + attemptsLeft t.client ≤ passwords s.events + attemptsLeft s.client := by
  have hserved := runLine_served hknown.standing h
  obtain ⟨⟨command, next⟩, htoken, h⟩ := Outcome.bind_eq_ok h
  dsimp only at h
  split_ifs at h with hempty
  · cases h
    have hblank : Blank line := ⟨next, command, htoken, by rw [hempty]; rfl⟩
    exact ⟨⟨hknown.standing, fun hprompt => (hknown.named hprompt).append_blank hblank,
      fun hsigned => (hknown.signedIn hsigned).append [line]⟩, le_rfl⟩
  have hword : HasWord line (strupr command) next := ⟨command, htoken, rfl⟩
  by_cases hsigned : s.client.state.signedIn
  · have hpast := runCommand_past hsigned h
    obtain ⟨new, hnew, horigin, -⟩ := hserved.events
    refine ⟨⟨hserved.standing, fun hprompt => absurd hprompt hpast.2, fun _ => ?_⟩, ?_⟩
    · rw [hserved.user hsigned]
      exact (hknown.signedIn hsigned).append [line]
    · rw [hnew, passwords_of_origin (horigin hsigned), attemptsLeft_of_past hpast]
      exact Nat.add_le_add_left (Nat.zero_le _) _
  · unfold runCommand at h
    split at h
    case h_1 hstate =>
      obtain ⟨hnamed, hnot, hcount⟩ := @userPrompt_known server s t lines next _ line hstate hword h
      exact ⟨⟨hserved.standing, hnamed, fun hyes => absurd hyes hnot⟩, hcount⟩
    case h_2 hstate =>
      obtain ⟨hne, hin, hcount⟩ := passwordPrompt_known hknown hstate hword h
      exact ⟨⟨hserved.standing, fun hprompt => absurd hprompt hne, hin⟩, hcount⟩
    case h_3 hstate => exact absurd (.inr hstate) hsigned
    case h_4 hstate => exact absurd (.inl hstate) hsigned
    all_goals
      cases h
      refine ⟨⟨hknown.standing, fun hprompt => ?_, fun hyes => absurd hyes hsigned⟩, le_rfl⟩
      simp_all

/-- **A call**, and what the lines say afterwards. -/
theorem Call.run_known {call : Call} (hknown : Known server client lines)
    (h : call.run server client = .ok t) :
    Known server t.client (lines ++ (call.line server client).toList) ∧
      passwords t.events + attemptsLeft t.client ≤ attemptsLeft client := by
  have hserved := Call.run_served hknown.standing h
  have hsame (hpasses : Passes ⟨client, []⟩ t) :
      Known server t.client (lines ++ []) ∧
        passwords t.events + attemptsLeft t.client ≤ attemptsLeft client := by
    rw [append_nil]
    have hnone : passwords t.events = 0 := hpasses.passwords
    have hleft := hpasses.attemptsLeft
    exact ⟨hpasses.known hknown hserved.standing, by rw [hnone, zero_add]; exact hleft⟩
  cases call with
  | dataConnection =>
    unfold Call.run at h
    refine hsame ?_
    split_ifs at h <;> cases h <;> exact ⟨.inl rfl, rfl, rfl, rfl⟩
  | expire =>
    cases h
    have hend := Same.endDataTransfers ⟨client, []⟩ Msg_426_Request_term
    exact hsame ⟨.inr ⟨endSession_past _, by
      simp [endSession, Session.setState, FtpClientState.signedIn]⟩, hend.user, hend.loginAttempts,
      congrArg passwords hend.events⟩
  | service ans =>
    unfold Call.run at h
    unfold Call.line
    dsimp only at h ⊢
    split_ifs at h ⊢ with hclosed
    · cases h
      exact hsame ⟨.inl rfl, rfl, rfl, rfl⟩
    obtain ⟨⟨u, line⟩, huntil, h⟩ := Outcome.bind_eq_ok h
    have hpasses := serviceUntilLine_passes (by exact hknown.standing) huntil
    rw [huntil]
    cases line with
    | none =>
      cases h
      exact hsame hpasses
    | some line =>
      have hwaits := serviceUntilLine_waits (by exact hknown.standing) huntil
      obtain ⟨hafter, hcount⟩ := runLine_known (hpasses.known hknown hwaits.standing) h
      have hnone : passwords u.events = 0 := hpasses.passwords
      have hleft : attemptsLeft u.client ≤ attemptsLeft client := hpasses.attemptsLeft
      exact ⟨hafter, by omega⟩

end

/-! ## 4. Sessions -/

/-- A call of a session does something for a client only behind his name and his password, and then
with the record of this user. -/
def Authorized (server : Server) (before : Connection) (answer : Option (List Event)) : Prop :=
  ∀ client events, before.client = some client → answer = some events →
    (∃ e ∈ events, e.isPassword = false) →
      SignedIn server before.lines client.user ∧ client.ftproot = rootOf client.user

/-- The passwords compared in a session. -/
def passwordsCompared (server : Server) (c : Connection) (calls : List Call) : Nat :=
  ((answers (converse server) c calls).map fun events => passwords (events.getD [])).sum

/-- What is known of a session, as long as there is one. -/
def Connection.Sound (server : Server) (c : Connection) : Prop :=
  ∀ client, c.client = some client → Known server client c.lines

/-- The attempts that are left in a session. -/
def Connection.budget (c : Connection) : Nat := (c.client.map attemptsLeft).getD 0

theorem converse_some {server : Server} {c : Connection} {call : Call} {client : FtpClient}
    (hclient : c.client = some client) :
    (∃ s, call.run server client = .ok s ∧ converse server c call =
      (some s.events, ⟨some s.client, c.lines ++ (call.line server client).toList⟩)) ∨
    converse server c call = (none, ⟨none, c.lines ++ (call.line server client).toList⟩) := by
  unfold converse
  rw [hclient]
  dsimp only
  rw [step]
  cases hrun : call.run server client with
  | ok s => exact .inl ⟨s, rfl, rfl⟩
  | error rc => exact .inr rfl
  | overrun => exact .inr rfl

theorem Connection.Sound.converse (h : c.Sound server)
    (call : Call) : (converse server c call).2.Sound server := by
  intro client hclient
  cases hbefore : c.client with
  | none =>
    unfold Ftp.converse at hclient
    rw [hbefore] at hclient
    exact absurd (hbefore.symm.trans hclient) nofun
  | some client₀ =>
    rcases @converse_some server c call client₀ hbefore with ⟨s, hs, hstep⟩ | hstep
    · rw [hstep] at hclient ⊢
      cases hclient
      exact (Call.run_known (h client₀ hbefore) hs).1
    · rw [hstep] at hclient
      cases hclient

theorem Connection.Sound.authorized (h : c.Sound server)
    (call : Call) : Authorized server c (Ftp.converse server c call).1 := by
  intro client events hclient hanswer ⟨e, he, hno⟩
  have hknown := h client hclient
  rcases @converse_some server c call client hclient with ⟨s, hs, hstep⟩ | hstep
  · rw [hstep] at hanswer
    cases hanswer
    obtain ⟨new, hnew, -, hpasswords⟩ := (Call.run_served hknown.standing hs).events
    by_cases hsigned : client.state.signedIn
    · exact ⟨hknown.signedIn hsigned, hknown.standing.root hsigned⟩
    · rw [nil_append] at hnew
      obtain ⟨token, rfl⟩ := hpasswords hsigned e (hnew ▸ he)
      cases hno
  · rw [hstep] at hanswer
    cases hanswer

theorem Connection.Sound.spends (h : c.Sound server) (call : Call) :
    passwords ((Ftp.converse server c call).1.getD []) + (Ftp.converse server c call).2.budget ≤
      c.budget := by
  cases hbefore : c.client with
  | none =>
    have hstep : Ftp.converse server c call = (none, c) := by
      unfold Ftp.converse
      rw [hbefore]
    rw [hstep]
    exact (zero_add _).le
  | some client =>
    have hbudget : c.budget = attemptsLeft client := by rw [Connection.budget, hbefore]; rfl
    rw [hbudget]
    rcases @converse_some server c call client hbefore with ⟨s, hs, hstep⟩ | hstep
    · rw [hstep]
      exact (Call.run_known (h client hbefore) hs).2
    · rw [hstep]
      exact Nat.zero_le _

/-- A connection that has just been accepted, whatever the record has been used for before. -/
def accepted (client : FtpClient) : Connection := ⟨some (startNewSession client), []⟩

theorem accepted_sound (server : Server) (client : FtpClient) : (accepted client).Sound server := by
  intro client' hclient
  cases hclient
  exact ⟨startNewSession_standing server client, nofun, by
    simp [startNewSession, FtpClientState.signedIn]⟩

/-- **Commands need a login.**  In every session, whatever a call does is done for a client who has
named a user of the password file and, blank lines apart, given his password with the next line,
and it is done with the record and the root of this user; and no more than three passwords are
compared. -/
theorem commands_need_login (server : Server) (client : FtpClient) (calls : List Call) :
    Along (converse server) (fun before _ result => Authorized server before result.1)
        (accepted client) calls ∧
      passwordsCompared server (accepted client) calls ≤ 3 := by
  have hsound := accepted_sound server client
  constructor
  · exact Along.of_invariant (I := Connection.Sound server) (fun _ call h _ => h.converse call)
      (fun _ call h _ => h.authorized call) calls _ hsound
      (guarded_of_forall (fun _ _ => trivial) calls _)
  · have hcost := @sum_cost_le _ _ _ (converse server) (Connection.Sound server)
      (fun events => passwords (events.getD [])) Connection.budget
      (fun _ call h => h.converse call) (fun _ call h => h.spends call) calls _ hsound
    exact hcost

/-! ## 5. A blank line in between -/

/-- The password stands on the line behind the name. -/
def SignedInAtOnce (server : Server) (lines : List CStr) (user : FtpUser) : Prop :=
  ∃ before userLine passLine after, lines = before ++ userLine :: passLine :: after ∧
    NamesUser server userLine user ∧ GivesPassword passLine user

def AuthorizedAtOnce (server : Server) (before : Connection) (answer : Option (List Event)) :
    Prop :=
  ∀ client events, before.client = some client → answer = some events →
    (∃ e ∈ events, e.paths ≠ []) → SignedInAtOnce server before.lines client.user

theorem HasWord.unique {line word word' : CStr} {next next' : Option CStr}
    (h : HasWord line word next) (h' : HasWord line word' next') : word = word' := by
  obtain ⟨token, htoken, rfl⟩ := h
  obtain ⟨token', htoken', rfl⟩ := h'
  rw [htoken] at htoken'
  cases htoken'
  rfl

theorem hasWord_nil : HasWord [] [] none := ⟨[], rfl, rfl⟩

/-- A client who hits the return key once more. -/
def hesitates : List Call :=
  namesHimself ++ sends "" ++ sends "PASS secret"

def deletes : Call := .service { calm with recv := some ("DELE A".toList ++ [CR, LF]) }

/-- The blank line does not keep the client from signing in. -/
theorem hesitates_authorized_late : ¬ Along (converse oneUser)
    (fun before _ result => AuthorizedAtOnce oneUser before result.1)
    (accepted unused) (hesitates ++ [deletes]) := by
  intro h
  have hlast := h.at_step hesitates
  have hlines : (run (converse oneUser) (accepted unused) hesitates).lines =
      ["USER bob".toList, [], "PASS secret".toList] := by decide +kernel
  have hevents : (converse oneUser (run (converse oneUser) (accepted unused) hesitates)
      deletes).1 = some [.command "DELE".toList,
        .stat ("C:".toList ++ render backslash ["FTP".toList, "A".toList])] := by decide +kernel
  have hclient : (run (converse oneUser) (accepted unused) hesitates).client =
      some ((run (converse oneUser) (accepted unused) hesitates).client.getD unused) := by
    decide +kernel
  obtain ⟨before, userLine, passLine, after, heq, hnames, hpass⟩ :=
    hlast _ _ hclient hevents ⟨_, List.mem_cons_of_mem _ List.mem_cons_self, nofun⟩
  obtain ⟨next, name, rest, hword, -⟩ := hnames
  obtain ⟨next', token, rest', hword', -⟩ := hpass
  rw [hlines] at heq
  -- one of the two lines would be the blank one
  rcases before with _ | ⟨first, _ | ⟨second, _ | ⟨third, before⟩⟩⟩
  · cases heq
    exact nomatch hasWord_nil.unique hword'
  · cases heq
    exact nomatch hasWord_nil.unique hword
  · cases heq
  · simp at heq

end SdcBoot.Ftp
