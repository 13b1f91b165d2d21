/-
# Lines, the login, and the commands

A line ends with CR LF, but `serviceClient` looks for them anywhere in what has arrived and takes
all of it, less two characters, as one line.  A line without a command word is passed over, and so
is a line that does not fit into the buffer.

The login is a state of its own before and after the name: a line in `PasswordPrompt` is either the
password or leads back to `UserPrompt`.
-/
import SdcBoot.Ftp.Client

namespace SdcBoot.Ftp

/-! ## 1. Lines -/

def CR : Char := Char.ofNat 13
def LF : Char := Char.ofNat 10
def NUL : Char := Char.ofNat 0

/-- CR LF is somewhere in the buffer. -/
def hasLineEnd : CStr → Bool
  | c :: d :: rest => (c == CR && d == LF) || hasLineEnd (d :: rest)
  | _ => false

/-- The reading half of `serviceClient`: what `recv` has delivered goes behind what is in the
input buffer, and a complete line is handed on. -/
def readLine (s : Session) (received : CStr) : Session × Option CStr :=
  let bytesToRead := INPUTBUFFER_SIZE - s.client.inputBuffer.length
  let buffer := s.client.inputBuffer ++ received.take bytesToRead
  let keep (buffer : CStr) (eat : Bool) : Session :=
    { s with client := { s.client with inputBuffer := buffer, eatUntilNextCrLf := eat } }
  if buffer.length < 2 then (keep buffer s.client.eatUntilNextCrLf, none)
  else if hasLineEnd buffer then
    if s.client.eatUntilNextCrLf then (keep [] false, none)
    else (keep [] false, some ((buffer.take (buffer.length - 2)).takeWhile (· ≠ NUL)))
  else if buffer.length = INPUTBUFFER_SIZE then
    ((keep [] true).say "500 Syntax error: %s" ["Line too long".toList], none)
  else (keep buffer s.client.eatUntilNextCrLf, none)

/-- A line that begins with a Telnet IAC loses everything up to the next character below 128. -/
def withoutTelnet (line : CStr) : CStr :=
  if (charAt line 0).toNat = 255 then line.dropWhile (128 ≤ ·.toNat) else line

/-! ## 2. The login -/

/-- The state `UserPrompt`. -/
def userPrompt (server : Server) (s : Session) (command : CStr) (nextTokenPtr : Option CStr) :
    Outcome Session :=
  if command = "USER".toList then
    let s : Session :=
      { s with client := { s.client with loginAttempts := s.client.loginAttempts + 1 } }
    if 3 < s.client.loginAttempts then .ok (endSession s)
    else
      (getNextToken nextTokenPtr USERNAME_LEN).bind fun (tmpUserName, _) =>
        if tmpUserName = [] then .ok (s.say "500 %s command requires a parameter" ["USER".toList])
        else
          (getUserRec tmpUserName server.userFile s.client.user).bind fun (found, user) =>
            let s : Session := { s with client := { s.client with user := user } }
            if found then
              let s :=
                if user.userPass = bracketEmail then
                  s.say "331 Anonymous ok, send your email addr as the password" []
                else s.say "331 User OK, send Password" []
              .ok (s.setState .passwordPrompt)
            else .ok (s.say "530 I dont like your name" [])
  else .ok (s.say Msg_530_Please_Login [])

def TMP_PASSWORD_LEN : Nat := 50

/-- A password that is accepted for a user. -/
def passwordOk (user : FtpUser) (tmpPassword : CStr) : Bool :=
  user.userPass == bracketEmail || user.userPass == tmpPassword

/-- The session of a user who has signed in. -/
def signIn (s : Session) : Session :=
  let s := s.say "230 User logged in" []
  { s with client := { s.client with
      state := .commandLine
      ftproot := if s.client.user.sandbox = bracketNone then [] else s.client.user.sandbox
      cwd := [slash] } }

/-- The state `PasswordPrompt`. -/
def passwordPrompt (s : Session) (command : CStr) (nextTokenPtr : Option CStr) : Outcome Session :=
  if command = "PASS".toList then
    (getNextToken nextTokenPtr TMP_PASSWORD_LEN).bind fun (tmpPassword, _) =>
      if tmpPassword = [] then .ok ((s.say "530 Login incorrect" []).setState .userPrompt)
      else
        let s := s.emit (.password tmpPassword)
        if passwordOk s.client.user tmpPassword then .ok (signIn s)
        else .ok ((s.say "530 Bad password" []).setState .userPrompt)
  else .ok ((s.say Msg_530_Please_Login []).setState .userPrompt)

/-! ## 3. Commands -/

def helpTexts : List String :=
  ["214-Welcome to the mTCP FTP server, Beta Version: ",
    " USER  PASS  REIN  ACCT  REST",
    " RNFR  RNTO  DELE",
    " CWD   XCWD  CDUP  XCUP  PWD   XPWD  MKD   XMKD  RMD   XRMD",
    " PASV  PORT  ABOR  LIST  NLST  RETR  STOR  STOU  APPE",
    " MODE  STRU  TYPE  HELP  ALLO  FEAT  MDTM  NOOP  STAT  SYST SITE",
    "214 OK"]

def doHelp (s : Session) : Session := helpTexts.foldl (fun s text => s.say text []) s

def doType (s : Session) (nextTokenPtr : Option CStr) : Outcome Session :=
  (getNextToken nextTokenPtr 20).bind fun (datatype, _) =>
    let mode (ascii : Bool) (text : String) : Session :=
      ({ s with client := { s.client with asciiMode := ascii } } : Session).say text []
    if datatype = [] then .ok (s.say "500 %s command requires a parameter" ["TYPE".toList])
    else if charAt datatype 0 ∈ ['a', 'A'] then .ok (mode true "200 Type set to A")
    else if charAt datatype 0 ∈ ['i', 'I'] then .ok (mode false "200 Type set to I")
    else .ok (s.say "500 TYPE %s not understood or supported" [datatype])

/-- `doStru` and `doMode`: one letter is accepted, two are known but not supported. -/
def doOption (s : Session) (nextTokenPtr : Option CStr) (name : CStr) (accepted : List Char)
    (reply : String) (known : List Char) : Outcome Session :=
  (getNextToken nextTokenPtr 20).bind fun (option, _) =>
    if option = [] then .ok (s.say "500 %s command requires a parameter" [name])
    else if charAt option 0 ∈ accepted then .ok (s.say reply [])
    else if charAt option 0 ∈ known then
      .ok (s.say "504 Unsupported option for %s: %s" [name, option])
    else .ok (s.say "501 Unrecognized option for %s: %s" [name, option])

def doStru (s : Session) (nextTokenPtr : Option CStr) : Outcome Session :=
  doOption s nextTokenPtr "STRU".toList ['f', 'F'] "200 STRU set to F" ['r', 'R', 'p', 'P']

def doMode (s : Session) (nextTokenPtr : Option CStr) : Outcome Session :=
  doOption s nextTokenPtr "MODE".toList ['s', 'S'] "200 MODE set to S" ['b', 'B', 'c', 'C']

def doSiteDiskFree (server : Server) (ans : Answers) (s : Session) (nextTokenPtr : Option CStr) :
    Outcome Session :=
  (getNextToken nextTokenPtr 2).bind fun (driveLetter, _) =>
    if driveLetter = [] then .ok (s.say "211 Please specify a drive letter" [])
    else if isDriveInValidTable server.drives (charAt driveLetter 0).toUpper = false then
      .ok (s.say "211 Bad or inactive drive letter" [])
    else if ans.succeeds driveLetter then
      .ok (s.say "211 Disk %s has %lu free bytes" [driveLetter])
    else .ok (s.say "211 Error reading free space on Disk %s" [driveLetter])

def doSite (server : Server) (ans : Answers) (s : Session) (nextTokenPtr : Option CStr) :
    Outcome Session :=
  (getNextToken nextTokenPtr 10).bind fun (siteCmd, nextTokenPtr) =>
    if stricmpEq siteCmd "stats".toList then .ok (s.say "211 OK" [])
    else if stricmpEq siteCmd "who".toList then .ok (s.say "200 OK" [])
    else if stricmpEq siteCmd "help".toList then
      .ok (s.say "211 Site commands: HELP DISKFREE STATS WHO" [])
    else if stricmpEq siteCmd "diskfree".toList then doSiteDiskFree server ans s nextTokenPtr
    else .ok (s.say "500 Unknown SITE command" [])

/-- `strcmp(command, ..) == 0` for one of the words. -/
def isWord (command : CStr) (words : List String) : Bool :=
  words.any fun word => word.toList == command

/-- The commands that are about paths, and `QUIT` before them. -/
def pathCommand (server : Server) (ans : Answers) (s : Session) (command : CStr)
    (nextTokenPtr : Option CStr) : Option (Outcome Session) :=
  if isWord command ["QUIT"] then
    some (.ok (endSession (sendOutput ans (s.say "221 Server closing connection" []))))
  else if isWord command ["DELE"] then some (doDele server ans s nextTokenPtr)
  else if isWord command ["RNFR"] then some (doRnfr server ans s nextTokenPtr)
  else if isWord command ["RNTO"] then some (.ok (s.say "503 Send RNFR first" []))
  else if isWord command ["CWD", "XCWD"] then some (doCwd server ans s nextTokenPtr)
  else if isWord command ["CDUP", "XCUP"] then some (doCwd server ans s (some dotDot))
  else if isWord command ["PWD", "XPWD"] then
    some (.ok (s.say "257 \"%s\" is current directory" [s.client.cwd]))
  else if isWord command ["MKD", "XMKD"] then some (doMkd server ans s nextTokenPtr)
  else if isWord command ["RMD", "XRMD"] then some (doRmd server ans s nextTokenPtr)
  else none

/-- The type of transfer a command asks for. -/
def xferType (command : CStr) : Option DataXferType :=
  if isWord command ["LIST"] then some .list
  else if isWord command ["NLST"] then some .nlist
  else if isWord command ["RETR"] then some .retr
  else if isWord command ["STOR"] then some .stor
  else if isWord command ["APPE"] then some .storA
  else if isWord command ["STOU"] then some .storU
  else none

/-- The commands that are about the data connection. -/
def xferCommand (server : Server) (ans : Answers) (s : Session) (command : CStr)
    (nextTokenPtr : Option CStr) : Option (Outcome Session) :=
  if isWord command ["PASV"] then some (.ok (doPasv ans s))
  else if isWord command ["PORT"] then some (.ok (doPort ans s))
  else if isWord command ["ABOR"] then some (.ok (doAbort s))
  else (xferType command).map fun listType => doXfer server ans s nextTokenPtr listType

/-- The commands that only answer. -/
def answerOf (command : CStr) : Reply :=
  if isWord command ["ALLO"] then ⟨"202 No storage allocation necessary", []⟩
  else if isWord command ["FEAT"] then
    ⟨"211-mTCP FTP server features:\r\n MDTM\r\n211 End", []⟩
  else if isWord command ["NOOP"] then ⟨"200 NOOP command successful", []⟩
  else if isWord command ["SYST"] then ⟨"215 UNIX Type: L8", []⟩
  else if isWord command ["USER", "PASS"] then ⟨"503 You are already logged in", []⟩
  else if isWord command ["REIN", "ACCT", "REST"] then ⟨"502 Command not implemented", []⟩
  else ⟨"500 Syntax error: %s", [command]⟩

/-- The settings, and what is left. -/
def otherCommand (server : Server) (ans : Answers) (s : Session) (command : CStr)
    (nextTokenPtr : Option CStr) : Outcome Session :=
  if isWord command ["MODE"] then doMode s nextTokenPtr
  else if isWord command ["STRU"] then doStru s nextTokenPtr
  else if isWord command ["TYPE"] then doType s nextTokenPtr
  else if isWord command ["HELP"] then .ok (doHelp s)
  else if isWord command ["MDTM"] then doMdtm server ans s nextTokenPtr
  else if isWord command ["STAT"] then doStat server ans s nextTokenPtr
  else if isWord command ["SITE"] then doSite server ans s nextTokenPtr
  else .ok (s.say (answerOf command).text (answerOf command).args)

/-- A word is not among those of another command. -/
theorem isWord_of_ne {command : CStr} {words others : List String} (h : isWord command words = true)
    (hne : ∀ word ∈ words, isWord word.toList others = false) : isWord command others = false := by
  obtain ⟨word, hword, heq⟩ := List.any_eq_true.mp h
  rw [← beq_iff_eq.mp heq]
  exact hne word hword

/-- What `pathCommand` can be, with the word it is for. -/
inductive PathCommand (server : Server) (ans : Answers) (s : Session) (command : CStr)
    (nextTokenPtr : Option CStr) : Outcome Session → Prop where
  | quit (hquit : isWord command ["QUIT"] = true) : PathCommand server ans s command nextTokenPtr
      (.ok (endSession (sendOutput ans (s.say "221 Server closing connection" []))))
  | dele (hdele : isWord command ["DELE"] = true) : PathCommand server ans s command nextTokenPtr
      (doDele server ans s nextTokenPtr)
  | rnfr (hrnfr : isWord command ["RNFR"] = true) : PathCommand server ans s command nextTokenPtr
      (doRnfr server ans s nextTokenPtr)
  | rnto (hrnto : isWord command ["RNTO"] = true) : PathCommand server ans s command nextTokenPtr
      (.ok (s.say "503 Send RNFR first" []))
  | cwd (hcwd : isWord command ["CWD", "XCWD"] = true) :
      PathCommand server ans s command nextTokenPtr (doCwd server ans s nextTokenPtr)
  | cdup (hcdup : isWord command ["CDUP", "XCUP"] = true) :
      PathCommand server ans s command nextTokenPtr (doCwd server ans s (some dotDot))
  | pwd (hpwd : isWord command ["PWD", "XPWD"] = true) :
      PathCommand server ans s command nextTokenPtr
        (.ok (s.say "257 \"%s\" is current directory" [s.client.cwd]))
  | mkd (hmkd : isWord command ["MKD", "XMKD"] = true) :
      PathCommand server ans s command nextTokenPtr (doMkd server ans s nextTokenPtr)
  | rmd (hrmd : isWord command ["RMD", "XRMD"] = true) :
      PathCommand server ans s command nextTokenPtr (doRmd server ans s nextTokenPtr)

/-- What `otherCommand` can be. -/
inductive OtherCommand (server : Server) (ans : Answers) (s : Session) (command : CStr)
    (nextTokenPtr : Option CStr) : Outcome Session → Prop where
  | mode (hmode : isWord command ["MODE"] = true) :
      OtherCommand server ans s command nextTokenPtr (doMode s nextTokenPtr)
  | stru (hstru : isWord command ["STRU"] = true) :
      OtherCommand server ans s command nextTokenPtr (doStru s nextTokenPtr)
  | type (htype : isWord command ["TYPE"] = true) :
      OtherCommand server ans s command nextTokenPtr (doType s nextTokenPtr)
  | help : OtherCommand server ans s command nextTokenPtr (.ok (doHelp s))
  | mdtm (hmdtm : isWord command ["MDTM"] = true) :
      OtherCommand server ans s command nextTokenPtr (doMdtm server ans s nextTokenPtr)
  | stat (hstat : isWord command ["STAT"] = true) :
      OtherCommand server ans s command nextTokenPtr (doStat server ans s nextTokenPtr)
  | site (hsite : isWord command ["SITE"] = true) :
      OtherCommand server ans s command nextTokenPtr (doSite server ans s nextTokenPtr)
  | answer : OtherCommand server ans s command nextTokenPtr
      (.ok (s.say (answerOf command).text (answerOf command).args))

section

variable {server : Server} {ans : Answers} {s : Session} {command : CStr}
  {nextTokenPtr : Option CStr}

theorem pathCommand_cases {result : Outcome Session}
    (h : pathCommand server ans s command nextTokenPtr = some result) :
    PathCommand server ans s command nextTokenPtr result := by
  rcases ite_eq_iff.mp h with ⟨hquit, heq⟩ | ⟨-, h⟩
  · cases heq
    exact .quit hquit
  rcases ite_eq_iff.mp h with ⟨hdele, heq⟩ | ⟨-, h⟩
  · cases heq
    exact .dele hdele
  rcases ite_eq_iff.mp h with ⟨hrnfr, heq⟩ | ⟨-, h⟩
  · cases heq
    exact .rnfr hrnfr
  rcases ite_eq_iff.mp h with ⟨hrnto, heq⟩ | ⟨-, h⟩
  · cases heq
    exact .rnto hrnto
  rcases ite_eq_iff.mp h with ⟨hcwd, heq⟩ | ⟨-, h⟩
  · cases heq
    exact .cwd hcwd
  rcases ite_eq_iff.mp h with ⟨hcdup, heq⟩ | ⟨-, h⟩
  · cases heq
    exact .cdup hcdup
  rcases ite_eq_iff.mp h with ⟨hpwd, heq⟩ | ⟨-, h⟩
  · cases heq
    exact .pwd hpwd
  rcases ite_eq_iff.mp h with ⟨hmkd, heq⟩ | ⟨-, h⟩
  · cases heq
    exact .mkd hmkd
  rcases ite_eq_iff.mp h with ⟨hrmd, heq⟩ | ⟨-, h⟩
  · cases heq
    exact .rmd hrmd
  cases h

/-- A command that has one of the words is about paths. -/
theorem pathCommand_none (h : pathCommand server ans s command nextTokenPtr = none) :
    isWord command ["DELE"] = false ∧ isWord command ["RNFR"] = false ∧
      isWord command ["MKD", "XMKD"] = false ∧ isWord command ["RMD", "XRMD"] = false := by
  obtain ⟨-, h⟩ := (ite_eq_iff.mp h).resolve_left fun h => by cases h.2
  obtain ⟨hdele, h⟩ := (ite_eq_iff.mp h).resolve_left fun h => by cases h.2
  obtain ⟨hrnfr, h⟩ := (ite_eq_iff.mp h).resolve_left fun h => by cases h.2
  obtain ⟨-, h⟩ := (ite_eq_iff.mp h).resolve_left fun h => by cases h.2
  obtain ⟨-, h⟩ := (ite_eq_iff.mp h).resolve_left fun h => by cases h.2
  obtain ⟨-, h⟩ := (ite_eq_iff.mp h).resolve_left fun h => by cases h.2
  obtain ⟨-, h⟩ := (ite_eq_iff.mp h).resolve_left fun h => by cases h.2
  obtain ⟨hmkd, h⟩ := (ite_eq_iff.mp h).resolve_left fun h => by cases h.2
  obtain ⟨hrmd, h⟩ := (ite_eq_iff.mp h).resolve_left fun h => by cases h.2
  simp only [Bool.not_eq_true] at hdele hrnfr hmkd hrmd
  exact ⟨hdele, hrnfr, hmkd, hrmd⟩

theorem otherCommand_cases {result : Outcome Session}
    (h : otherCommand server ans s command nextTokenPtr = result) :
    OtherCommand server ans s command nextTokenPtr result := by
  rcases ite_eq_iff.mp h with ⟨hmode, rfl⟩ | ⟨-, h⟩
  · exact .mode hmode
  rcases ite_eq_iff.mp h with ⟨hstru, rfl⟩ | ⟨-, h⟩
  · exact .stru hstru
  rcases ite_eq_iff.mp h with ⟨htype, rfl⟩ | ⟨-, h⟩
  · exact .type htype
  rcases ite_eq_iff.mp h with ⟨-, rfl⟩ | ⟨-, h⟩
  · exact .help
  rcases ite_eq_iff.mp h with ⟨hmdtm, rfl⟩ | ⟨-, h⟩
  · exact .mdtm hmdtm
  rcases ite_eq_iff.mp h with ⟨hstat, rfl⟩ | ⟨-, h⟩
  · exact .stat hstat
  rcases ite_eq_iff.mp h with ⟨hsite, rfl⟩ | ⟨-, rfl⟩
  · exact .site hsite
  · exact .answer

end

/-- The state `CommandLine`.  The words of its tests are all different, so the tests can be made in
groups. -/
def commandLine (server : Server) (ans : Answers) (s : Session) (command : CStr)
    (nextTokenPtr : Option CStr) : Outcome Session :=
  match pathCommand server ans s command nextTokenPtr, xferCommand server ans s command nextTokenPtr with
  | some result, _ => result
  | none, some result => result
  | none, none => otherCommand server ans s command nextTokenPtr

/-- The switch over the state, for a line with a command word. -/
def runCommand (server : Server) (ans : Answers) (s : Session) (command : CStr)
    (nextTokenPtr : Option CStr) : Outcome Session :=
  match s.client.state with
  | .userPrompt => userPrompt server s command nextTokenPtr
  | .passwordPrompt => passwordPrompt s command nextTokenPtr
  | .rnfrSent =>
    let s := (s.emit (.command command)).setState .commandLine
    if command = "RNTO".toList then doRnto server ans s nextTokenPtr
    else commandLine server ans s command nextTokenPtr
  | .commandLine => commandLine server ans (s.emit (.command command)) command nextTokenPtr
  | .closed | .closingPushOutput | .closing => .ok s

def runLine (server : Server) (ans : Answers) (s : Session) (line : CStr) : Outcome Session :=
  (getNextToken (some (withoutTelnet line)) COMMAND_MAX_LEN).bind fun (command, nextTokenPtr) =>
    if command = [] then .ok s else runCommand server ans s (strupr command) nextTokenPtr

/-! ## 4. `serviceClient` -/

/-- The reading. -/
def serviceInput (ans : Answers) (s : Session) : Session × Option CStr :=
  match ans.recv with
  | none => (s, none)
  | some received => readLine s received

/-- What is done after a transfer has been moved on. -/
def serviceAfterXfer (ans : Answers) (s : Session) : Session × Option CStr :=
  if s.client.state = .closingPushOutput then (s.setState .closing, none)
  else if s.client.state = .closing then
    if s.client.dataXferState = .notActive ∧ ans.csCloseDone then (s.setState .closed, none)
    else (s, none)
  else if s.client.statCmdActive then (doStatLine ans s, none)
  else serviceInput ans s

/-- `if ( client->cs->isRemoteClosed( ) )` and what hangs on it. -/
def serviceRemoteClosed (ans : Answers) (s : Session) : Session :=
  if ans.csRemoteClosed then
    match s.client.state with
    | .closingPushOutput => clearOutput s
    | .closing => s
    | _ => endSession s
  else s

/-- `serviceClient` up to the point where there is a full line of input. -/
def serviceUntilLine (server : Server) (ans : Answers) (s : Session) :
    Outcome (Session × Option CStr) :=
  let s := serviceRemoteClosed ans s
  if s.client.output ≠ [] then .ok (sendOutput ans s, none)
  else (doDataXfer server ans s none).bind fun s => .ok (serviceAfterXfer ans s)

def serviceClient (server : Server) (ans : Answers) (s : Session) : Outcome Session :=
  (serviceUntilLine server ans s).bind fun (s, line) =>
    match line with
    | none => .ok s
    | some line => runLine server ans s line

/-- What the main loop does with an active client: it serves him, gives him a data connection he is
listening for, or ends his session because of a time-out or a shutdown. -/
inductive Call where
  | service (ans : Answers)
  | dataConnection
  | expire

/-- A client who has gone to `Closed` is not served any more. -/
def Call.run (server : Server) (call : Call) (client : FtpClient) : Outcome Session :=
  let s : Session := ⟨client, []⟩
  match call with
  | .service ans => if client.state = .closed then .ok s else serviceClient server ans s
  | .dataConnection =>
    if client.ls then .ok ⟨{ client with ls := false, ds := true }, []⟩ else .ok s
  | .expire => .ok (endSession s)

/-! ## 5. A client to try things with -/

/-- An outside where nothing goes wrong and nothing happens. -/
def calm : Answers where
  csRemoteClosed := false
  sendsAll := true
  csCloseDone := false
  recv := none
  dsCloseDone := false
  dsRemoteClosed := false
  connectComplete := true
  timedOut := false
  getSocket := true
  listens := true
  setRecvBuffer := true
  connects := true
  sscanfPort := none
  round := .goesOn
  rand := id
  stat := fun _ => .absent
  finds := fun _ => false
  findsNext := false
  opens := fun _ => true
  succeeds := fun _ => true

/-- The client sends a line; and a moment later what there is to answer has been sent. -/
def sends (line : String) : List Call :=
  [.service { calm with recv := some (line.toList ++ [CR, LF]) }, .service calm]

/-- A server with one user. -/
def oneUser : Server where
  drives := fun _ => true
  userFile := ["bob secret /DRIVE_C/FTP /IN ALL".toList]

/-- A client record that has not been used yet. -/
def unused : FtpClient where
  state := .closed
  ds := false
  ls := false
  user := .wiped
  loginAttempts := 0
  ftproot := []
  cwd := []
  dataPort := 0
  inputBuffer := []
  eatUntilNextCrLf := false
  output := []
  dataXferState := .notActive
  dataXferType := .noDataXfer
  asciiMode := false
  statCmdActive := false
  activeConnect := false
  filespec := []

end SdcBoot.Ftp
