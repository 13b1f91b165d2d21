/-
# A session of the FTP server

The main loop calls `serviceClient` for every active client.  A call sends what is waiting to be
sent, moves a data transfer on, and reads the control connection; when a line is complete, it is
one step of the login or one command.

What the outside answers in a call (the sockets, the file system, the clock, `rand`, `sscanf`) is
an argument, and a call hands back the client record and what it did: the commands it dispatched,
the passwords it compared, and the paths it passed to the file system.  A call that writes behind
the end of one of its arrays has no result.

The replies are kept with their texts, but not the lines of listings, the size of the output buffer
and the bytes of a transfer: only that it goes on, completes or fails.
-/
import SdcBoot.Ftp.User

namespace SdcBoot.Ftp

/-! ## 1. The client record -/

inductive FtpClientState where
  | closed
  | userPrompt
  | passwordPrompt
  | commandLine
  | rnfrSent
  | closingPushOutput
  | closing
  deriving DecidableEq

inductive DataXferState where
  | notActive
  | init
  | connecting
  | connected
  | active
  | closing
  deriving DecidableEq

inductive DataXferType where
  | noDataXfer
  | list
  | nlist
  | retr
  | stor
  | storA
  | storU
  deriving DecidableEq

/-- A text for the control connection, with the strings that go into its format. -/
structure Reply where
  text : String
  args : List CStr
  deriving DecidableEq

/-- `ds` and `ls` say whether there is a data socket and a listening socket. -/
structure FtpClient where
  state : FtpClientState
  ds : Bool
  ls : Bool
  user : FtpUser
  loginAttempts : Nat
  ftproot : CStr
  cwd : CStr
  dataPort : Nat
  inputBuffer : CStr
  eatUntilNextCrLf : Bool
  output : List Reply
  dataXferState : DataXferState
  dataXferType : DataXferType
  asciiMode : Bool
  statCmdActive : Bool
  activeConnect : Bool
  filespec : CStr
  deriving DecidableEq

def INPUTBUFFER_SIZE : Nat := 120
def COMMAND_MAX_LEN : Nat := 20

/-- `startNewSession`, and the greeting `processNewConnection` sends. -/
def startNewSession (client : FtpClient) : FtpClient :=
  { client with
    state := .userPrompt
    user := { client.user with userName := [] }
    loginAttempts := 0
    dataPort := 0
    ftproot := []
    cwd := [slash]
    inputBuffer := []
    eatUntilNextCrLf := false
    output := [⟨"220 mTCP FTP Server", []⟩]
    dataXferState := .notActive
    dataXferType := .noDataXfer
    asciiMode := false
    statCmdActive := false }

/-! ## 2. The outside, and what a call does -/

/-- What `stat` says about a path. -/
inductive Stat where
  | absent
  | regular
  | directory
  | other
  deriving DecidableEq

/-- How a round of an active transfer ends. -/
inductive Round where
  | goesOn
  | completes
  | fails
  deriving DecidableEq

/-- The answers of the outside during one call. -/
structure Answers where
  csRemoteClosed : Bool
  sendsAll : Bool
  csCloseDone : Bool
  recv : Option CStr
  dsCloseDone : Bool
  dsRemoteClosed : Bool
  connectComplete : Bool
  timedOut : Bool
  getSocket : Bool
  listens : Bool
  setRecvBuffer : Bool
  connects : Bool
  sscanfPort : Option Nat
  round : Round
  rand : Nat → Nat
  stat : CStr → Stat
  finds : CStr → Bool
  findsNext : Bool
  opens : CStr → Bool
  succeeds : CStr → Bool

/-- What a call does that is not confined to the client record.  Where something may be created,
`arg` is what the client, or `STOU` for him, has called it. -/
inductive Event where
  | command (word : CStr)
  | password (token : CStr)
  | stat (path : CStr)
  | findfirst (path : CStr)
  | fopen (path mode arg : CStr)
  | unlink (path : CStr)
  | rename (old new : CStr)
  | mkdir (path arg : CStr)
  | rmdir (path : CStr)
  deriving DecidableEq

/-- A call under way: the client record, and what has been done so far. -/
structure Session where
  client : FtpClient
  events : List Event
  deriving DecidableEq

/-- What does not change while the server runs. -/
structure Server where
  drives : Drives
  userFile : List CStr

/-- `addToOutput` and `addToOutput_var` -/
def Session.say (s : Session) (text : String) (args : List CStr) : Session :=
  { s with client := { s.client with output := s.client.output ++ [⟨text, args⟩] } }

def Session.emit (s : Session) (event : Event) : Session :=
  { s with events := s.events ++ [event] }

def Session.setXfer (s : Session) (state : DataXferState) : Session :=
  { s with client := { s.client with dataXferState := state } }

def Session.setState (s : Session) (state : FtpClientState) : Session :=
  { s with client := { s.client with state := state } }

def clearOutput (s : Session) : Session := { s with client := { s.client with output := [] } }

/-- `sendOutput`: what does not get out now stays where it is. -/
def sendOutput (ans : Answers) (s : Session) : Session := if ans.sendsAll then clearOutput s else s

def endDataTransfers (s : Session) (msg : String) : Session :=
  let s : Session := { s with client := { s.client with ls := false } }
  let s := if s.client.dataXferState ≠ .notActive then s.say msg [] else s
  s.setXfer .closing

def Msg_425_Cant_Open_Conn : String := "425 Cant open connection - please try again"
def Msg_425_Send_Port : String := "425 Send PORT first or try passive mode"
def Msg_425_Transfer_In_Progress : String := "425 Transfer already in progress"
def Msg_426_Request_term : String := "426 Request terminated"
def Msg_530_Please_Login : String := "530 Please login"
def Msg_550_Filesystem_error : String := "550 Filesystem error"

def endSession (s : Session) : Session :=
  (endDataTransfers s Msg_426_Request_term).setState .closingPushOutput

/-! ## 3. Paths of a session -/

/-- The path as the user sees it: what is not absolute is below his current directory. -/
def userView (client : FtpClient) (arg : CStr) : CStr :=
  (if isPathAbsolute arg then [] else client.cwd) ++ arg

/-- The root of a drive gets the slash back that `normalizeDir` has left off. -/
def withDriveSlash (client : FtpClient) (newpath : CStr) : CStr :=
  if client.ftproot = [] ∧ drivePrefix.isPrefixOf newpath ∧ newpath.length = 8 then
    newpath ++ [slash]
  else newpath

/-- `formFullPath`; its return codes are 1 for a drive that is not there, 2 for the root above the
drives, 3 for a path that is too long and 4 for one `normalizeDir` refuses. -/
def formFullPath (server : Server) (client : FtpClient) (maxOutBufferLen : Nat) (filespec : CStr) :
    Outcome CStr :=
  if USR_MAX_PATHFILE_LENGTH + 20 ≤ (userView client filespec).length then .error 3
  else
    match normalizeDir (userView client filespec) (USR_MAX_PATHFILE_LENGTH + 20) with
    | .overrun => .overrun
    | .error _ => .error 4
    | .ok newpath =>
      let newpath := withDriveSlash client newpath
      if maxOutBufferLen ≤ client.ftproot.length + newpath.length then .error 3
      else convertToDosPath server.drives (client.ftproot ++ newpath)

/-- What `doDele` and its like begin with: the argument is cut out, its full path formed and passed
to `stat`. -/
def onPath (server : Server) (ans : Answers) (s : Session) (nextTokenPtr : Option CStr)
    (bufLen maxOutBufferLen : Nat) (bad : String)
    (body : Session → CStr → CStr → Stat → Session) : Outcome Session :=
  (getNextToken nextTokenPtr bufLen).bind fun (userPart, _) =>
    if userPart = [] then .ok (s.say "501 Invalid number of arguments" [])
    else
      match formFullPath server s.client maxOutBufferLen userPart with
      | .overrun => .overrun
      | .error _ => .ok (s.say bad [])
      | .ok fullpath => .ok (body (s.emit (.stat fullpath)) userPart fullpath (ans.stat fullpath))

def toSlash (c : Char) : Char := if c = backslash then slash else c

def convertToUserPath (dosPath : CStr) : CStr :=
  drivePrefix ++ charAt dosPath 0 :: (dosPath.drop 2).map toSlash

/-- A path as the replies show it: without the sandbox. -/
def shown (client : FtpClient) (fullpath : CStr) : CStr :=
  (convertToUserPath fullpath).drop client.ftproot.length

/-- The test with `strnicmp` that uploads and new directories have to pass. -/
def mayUpload (client : FtpClient) : Bool :=
  client.user.uploaddir == bracketAny ||
    stricmpEq client.user.uploaddir (client.cwd.take client.user.uploaddir.length)

/-! ## 4. Commands on paths -/

def doMdtm (server : Server) (ans : Answers) (s : Session) (nextTokenPtr : Option CStr) :
    Outcome Session :=
  onPath server ans s nextTokenPtr USR_MAX_PATHFILE_LENGTH_PADDED USR_MAX_PATHFILE_LENGTH
    "550 Bad path or filename" fun s userPart _ st =>
      match st with
      | .absent => s.say "550 %s: bad file" [userPart]
      | _ => s.say "213 %4d%02d%02d%02d%02d%02d" []

def doDele (server : Server) (ans : Answers) (s : Session) (nextTokenPtr : Option CStr) :
    Outcome Session :=
  if s.client.user.cmd_DELE = false then .ok (s.say "550 permission denied" [])
  else
    onPath server ans s nextTokenPtr USR_MAX_PATHFILE_LENGTH_PADDED USR_MAX_PATHFILE_LENGTH
      "550 Bad file" fun s userPart fullpath st =>
        match st with
        | .absent => s.say "550 %s: bad file" [userPart]
        | .regular =>
          if ans.succeeds fullpath then
            (s.emit (.unlink fullpath)).say "250 DELE command successful" []
          else (s.emit (.unlink fullpath)).say "550 Error removing %s" [userPart]
        | _ => s.say "550 %s: not a plain file" [userPart]

def doRmd (server : Server) (ans : Answers) (s : Session) (nextTokenPtr : Option CStr) :
    Outcome Session :=
  if s.client.user.cmd_RMD = false then .ok (s.say "550 permission denied" [])
  else
    onPath server ans s nextTokenPtr USR_MAX_PATH_LENGTH_PADDED USR_MAX_PATH_LENGTH
      "550 Bad path" fun s userPart fullpath st =>
        match st with
        | .absent => s.say "550 %s: bad file" [userPart]
        | .directory =>
          if ans.succeeds fullpath then
            (s.emit (.rmdir fullpath)).say "250 RMD command successful" []
          else (s.emit (.rmdir fullpath)).say "550 Error removing %s" [userPart]
        | _ => s.say "550 %s: not a directory" [userPart]

def doMkd (server : Server) (ans : Answers) (s : Session) (nextTokenPtr : Option CStr) :
    Outcome Session :=
  if s.client.user.cmd_MKD = false then .ok (s.say "550 permission denied" [])
  else if mayUpload s.client = false then
    .ok (s.say "550 You need to be in the %s directory to create directories"
      [s.client.user.uploaddir])
  else
    onPath server ans s nextTokenPtr USR_MAX_PATH_LENGTH_PADDED (USR_MAX_PATH_LENGTH - 1)
      "550 Bad path" fun s userPart fullpath st =>
        match st with
        | .absent =>
          let s := s.emit (.mkdir fullpath userPart)
          if ans.succeeds fullpath then s.say "257 %s created" [shown s.client fullpath]
          else s.say "550 Error creating %s" [shown s.client fullpath]
        | _ => s.say "550 %s: already exists" [shown s.client fullpath]

def doRnfr (server : Server) (ans : Answers) (s : Session) (nextTokenPtr : Option CStr) :
    Outcome Session :=
  if s.client.user.cmd_RNFR = false then .ok (s.say "550 permission denied" [])
  else
    onPath server ans s nextTokenPtr USR_MAX_PATHFILE_LENGTH_PADDED USR_MAX_PATHFILE_LENGTH
      "550 Bad path or file" fun s userPart fullpath st =>
        match st with
        | .absent => s.say "550 %s: bad file or directory" [userPart]
        | _ =>
          let s : Session := { s with client := { s.client with filespec := fullpath } }
          (s.say "350 File or directory exists, ready for destination name" []).setState .rnfrSent

def doRnto (server : Server) (ans : Answers) (s : Session) (nextTokenPtr : Option CStr) :
    Outcome Session :=
  onPath server ans s nextTokenPtr USR_MAX_PATHFILE_LENGTH_PADDED USR_MAX_PATHFILE_LENGTH
    "550 Bad path or file" fun s userPart fullpath st =>
      match st with
      | .absent =>
        if ans.succeeds fullpath then
          (s.emit (.rename s.client.filespec fullpath)).say "250 Rename successful" []
        else (s.emit (.rename s.client.filespec fullpath)).say "550 Rename failed" []
      | _ => s.say "550 %s: already exists" [userPart]

def setCwd (s : Session) (cwd : CStr) : Session :=
  ({ s with client := { s.client with cwd := cwd } } : Session).say "250 CWD command successful" []

/-- The path `doCwd` looks up: below the sandbox, or with a slash behind it in case it is a drive. -/
def lookedUp (client : FtpClient) (newpath : CStr) : CStr :=
  if client.ftproot = [] then newpath ++ [slash] else client.ftproot ++ newpath

/-- A path with a slash at its end. -/
def withSlash (newpath : CStr) : CStr :=
  if newpath.getLast? = some slash then newpath else newpath ++ [slash]

/-- `doCwd`, from the normal form of the new path on.  The root above the drives is a place only
without a sandbox. -/
def changeTo (server : Server) (ans : Answers) (s : Session) (parm newpath : CStr) :
    Outcome Session :=
  let fullpath := lookedUp s.client newpath
  if USR_MAX_PATH_LENGTH - 2 < s.client.ftproot.length + newpath.length then
    .ok (s.say "550 Path too long" [])
  else if s.client.ftproot = [] ∧ newpath = [slash] then .ok (setCwd s [slash])
  else if s.client.ftproot = [] ∧ (isDrivePrefixPresent fullpath = false ∨
      isDriveInValidTable server.drives (charAt fullpath 7) = false) then
    .ok (s.say "550 Invalid or inactive drive letter in path: %s" [parm])
  else
    (dosBuffer server.drives fullpath).bind fun fullpath =>
      let s := s.emit (.stat fullpath)
      if ans.stat fullpath = .directory then
        .ok (setCwd s (withSlash newpath))
      else .ok (s.say "550 \"%s\": No such directory" [parm])

/-- `doCwd`, from its argument on. -/
def doCwdPath (server : Server) (ans : Answers) (s : Session) (parm : CStr) : Outcome Session :=
  if USR_MAX_PATH_LENGTH + 20 - 1 < (userView s.client parm).length then
    .ok (s.say "550 Path too long" [])
  else
    match normalizeDir (userView s.client parm) USR_MAX_PATH_LENGTH with
    | .overrun => .overrun
    | .error _ => .ok (s.say "550 \"%s\": Bad path format or too long" [parm])
    | .ok newpath => changeTo server ans s parm newpath

def doCwd (server : Server) (ans : Answers) (s : Session) (nextTokenPtr : Option CStr) :
    Outcome Session :=
  (getNextToken nextTokenPtr (USR_MAX_PATH_LENGTH + 20)).bind fun (token, _) =>
    let parm := strupr token
    if parm = [] then .ok (s.say "501 Invalid number of arguments" [])
    else doCwdPath server ans s parm

/-! ## 5. Listings -/

def allFiles : CStr := "*.*".toList

/-- The pattern for all files of a directory. -/
def filesOf (fullpath : CStr) : CStr :=
  if fullpath.getLast? = some backslash then fullpath ++ allFiles
  else fullpath ++ backslash :: allFiles

/-- `_my_dos_findfirst` with a path or, where the path is that of a directory, with a pattern for
its files.  Whether anything was found is handed on. -/
def findFirst (ans : Answers) (s : Session) (fullpath : CStr) : Session × Bool :=
  let (s, pattern) :=
    if fullpath.length < USR_MAX_PATH_LENGTH then
      (s.emit (.stat fullpath),
        if ans.stat fullpath = .directory then filesOf fullpath else fullpath)
    else (s, fullpath)
  (s.emit (.findfirst pattern), ans.finds pattern)

/-- `doStat` for a listing that is under way: one line, and the end when there are no more. -/
def doStatLine (ans : Answers) (s : Session) : Session :=
  let s := s.say " %s 1 ftp ftp %10lu %s %2d  %4d %s" []
  if ans.findsNext then s
  else
    ({ s with client := { s.client with statCmdActive := false } } : Session).say
      "211 End of Status" []

/-- `doStat` without a parameter. -/
def doStatStatus (s : Session) : Session :=
  let s := s.say "211-Status of mTCP FTP Server\r\n Logged in as %s" [s.client.user.userName]
  let s := s.say (if s.client.ds then " Active data connection" else " No active data connection") []
  let s := s.say " Type: %s Structure: File, Mode: Stream"
    [if s.client.asciiMode then "ASCII".toList else "IMAGE".toList]
  s.say "211 End of status" []

/-- The start of the listing. -/
def doStatSearch (ans : Answers) (s : Session) (fullpath : CStr) : Session :=
  let (s, found) := findFirst ans s fullpath
  if found then { s with client := { s.client with statCmdActive := true } }
  else s.say "211 End of Status" []

/-- `doStat` for a new command. -/
def doStat (server : Server) (ans : Answers) (s : Session) (nextTokenPtr : Option CStr) :
    Outcome Session :=
  (getNextToken nextTokenPtr USR_MAX_PATHFILE_LENGTH_PADDED).bind fun (parm, _) =>
    if parm = [] then .ok (doStatStatus s)
    else
      let s := s.say "211-Status of %s" [parm]
      match formFullPath server s.client USR_MAX_PATHFILE_LENGTH parm with
      | .overrun => .overrun
      | .ok fullpath => .ok (doStatSearch ans s fullpath)
      | .error rc =>
        if rc = 2 then .ok (doStatSearch ans s [slash]) else .ok (s.say "211 End of Status" [])

/-! ## 6. Data transfers -/

def isStore (type : DataXferType) : Bool := type == .stor || type == .storA || type == .storU
def isListing (type : DataXferType) : Bool := type == .list || type == .nlist

/-- `formFullPath_DataXfer`: a path, or a transfer that has been ended. -/
def formFullPath_DataXfer (server : Server) (s : Session) (outBufferLen : Nat) (filespec : CStr)
    (body : CStr → Outcome Session) : Outcome Session :=
  match formFullPath server s.client outBufferLen filespec with
  | .overrun => .overrun
  | .ok fullpath => body fullpath
  | .error rc =>
    if rc = 2 ∧ isListing s.client.dataXferType then body [slash]
    else if rc = 2 then .ok (endDataTransfers s "550 No file ops supported in root directory")
    else if rc = 3 then .ok (endDataTransfers s "550 Path too long")
    else .ok (endDataTransfers s "550 Bad path")

/-- The end of `DL_Init`: find or start the data connection. -/
def startConnection (ans : Answers) (s : Session) : Session :=
  let passive (state : DataXferState) : Session :=
    { s with client := { s.client with activeConnect := false, dataXferState := state } }
  if s.client.ls then passive .connecting
  else if s.client.ds then passive .connected
  else if s.client.dataPort = 0 then endDataTransfers s Msg_425_Send_Port
  else if ans.getSocket = false then endDataTransfers s Msg_425_Cant_Open_Conn
  else
    let s : Session := { s with client := { s.client with ds := true } }
    if isStore s.client.dataXferType ∧ ans.setRecvBuffer = false ∨ ans.connects = false then
      endDataTransfers s Msg_425_Cant_Open_Conn
    else { s with client := { s.client with activeConnect := true, dataXferState := .connecting } }

/-- `doDataXfer` in `DL_Init`.  `filespec` has room for 78 characters and the NUL. -/
def xferInit (server : Server) (ans : Answers) (s : Session) (parms : Option CStr) :
    Outcome Session :=
  (getNextToken parms USR_MAX_PATHFILE_LENGTH).bind fun (filespec, _) =>
    if DOS_MAX_PATHFILE_LENGTH ≤ filespec.length then .overrun
    else
      let s : Session := { s with client := { s.client with filespec := filespec } }
      if s.client.dataXferType = .retr then
        formFullPath_DataXfer server s USR_MAX_PATHFILE_LENGTH filespec fun fullpath =>
          let s := s.emit (.stat fullpath)
          if ans.stat fullpath ≠ .regular then .ok (endDataTransfers s "550 File not found")
          else .ok (startConnection ans s)
      else if s.client.dataXferType = .stor then
        formFullPath_DataXfer server s USR_MAX_PATHFILE_LENGTH filespec fun fullpath =>
          let s := s.emit (.stat fullpath)
          if ans.stat fullpath ≠ .absent then .ok (endDataTransfers s "553 File exists already")
          else .ok (startConnection ans s)
      else .ok (startConnection ans s)

/-- `doDataXfer` in `DL_Connecting` -/
def xferConnecting (ans : Answers) (s : Session) : Session :=
  let waiting := if s.client.activeConnect then ans.connectComplete = false else s.client.ls = true
  if waiting then
    if ans.timedOut then endDataTransfers s Msg_425_Cant_Open_Conn else s
  else s.setXfer .connected

/-- `fopen`, and what follows for a transfer. -/
def openFile (ans : Answers) (s : Session) (fullpath mode arg : CStr) (reply : Option Reply) :
    Session :=
  let s := s.emit (.fopen fullpath mode arg)
  if ans.opens fullpath = false then endDataTransfers s Msg_550_Filesystem_error
  else
    let s :=
      match reply with
      | some reply => s.say reply.text reply.args
      | none => s
    s.setXfer .active

/-- The names of `STOU`: seven digits from `rand`. -/
def uniqueName (ans : Answers) (attempt : Nat) : CStr :=
  'U' :: (List.range 7).map (fun i => Char.ofNat (ans.rand (7 * attempt + i) % 10 + 48)) ++
    ".QUE".toList

def fileMode (client : FtpClient) (letter : Char) : CStr :=
  [letter, if client.asciiMode then 't' else 'b']

def typeName (client : FtpClient) : CStr :=
  if client.asciiMode then "ASCII".toList else "BINARY".toList

/-- The loop of `STOU`, with the number of attempts that are left. -/
def storeUnique (server : Server) (ans : Answers) : Nat → Session → Outcome Session
  | 0, s => .ok (endDataTransfers s "550 Cant generate a unique name")
  | left + 1, s =>
    let filename := uniqueName ans (4 - left)
    formFullPath_DataXfer server s USR_MAX_PATHFILE_LENGTH filename fun fullpath =>
      let s := s.emit (.stat fullpath)
      if ans.stat fullpath = .absent then
        .ok (openFile ans s fullpath (fileMode s.client 'w') filename
          (some ⟨"150 %s type STOU started, Filename is %s%s",
            [typeName s.client, s.client.cwd, filename]⟩))
      else storeUnique server ans left s

/-- `doDataXfer` in `DL_Connected` -/
def xferConnected (server : Server) (ans : Answers) (s : Session) : Outcome Session :=
  match s.client.dataXferType with
  | .noDataXfer => .ok (s.setXfer .active)
  | .list | .nlist =>
    let s := s.say "150 Sending file list" []
    formFullPath_DataXfer server s USR_MAX_PATHFILE_LENGTH_PADDED s.client.filespec fun fullpath =>
      .ok ((findFirst ans s fullpath).1.setXfer .active)
  | .retr =>
    formFullPath_DataXfer server s USR_MAX_PATHFILE_LENGTH_PADDED s.client.filespec fun fullpath =>
      let s := s.emit (.stat fullpath)
      if ans.stat fullpath ≠ .regular then .ok (endDataTransfers s "550 File not found")
      else
        let s := s.say "150 %s type File RETR started" [typeName s.client]
        let mode := if s.client.asciiMode then ['r'] else ['r', 'b']
        .ok (openFile ans s fullpath mode s.client.filespec none)
  | .stor =>
    formFullPath_DataXfer server s USR_MAX_PATHFILE_LENGTH_PADDED s.client.filespec fun fullpath =>
      let s := s.emit (.stat fullpath)
      if ans.stat fullpath ≠ .absent then .ok (endDataTransfers s "550 File exists already")
      else
        let s := s.say "150 %s type File STOR started" [typeName s.client]
        .ok (openFile ans s fullpath (fileMode s.client 'w') s.client.filespec none)
  | .storA =>
    formFullPath_DataXfer server s USR_MAX_PATHFILE_LENGTH_PADDED s.client.filespec fun fullpath =>
      let s := s.emit (.stat fullpath)
      if ans.stat fullpath ≠ .absent ∧ ans.stat fullpath ≠ .regular then
        .ok (endDataTransfers s "550 Target exists but is not a normal file")
      else
        let s := s.say "150 %s type File APPE started" [typeName s.client]
        .ok (openFile ans s fullpath (fileMode s.client 'a') s.client.filespec none)
  | .storU => storeUnique server ans 5 s

/-- `doDataXfer` in `DL_Active` -/
def xferActive (ans : Answers) (s : Session) : Session :=
  -- a connection the client has closed ends a transfer to him, but the round is gone through
  let s :=
    if ans.dsRemoteClosed ∧ isStore s.client.dataXferType = false then
      endDataTransfers s Msg_426_Request_term
    else s
  match ans.round with
  | .goesOn => s
  | .completes => (s.setXfer .closing).say "226 Transfer complete" []
  | .fails => endDataTransfers s Msg_550_Filesystem_error

/-- `doDataXfer` in `DL_Closing` -/
def xferClosing (ans : Answers) (s : Session) : Session :=
  let s : Session := { s with client := { s.client with dataPort := 0 } }
  if s.client.ds ∧ ans.dsCloseDone = false then s
  else
    { s with client := { s.client with
        ds := false, dataXferType := .noDataXfer, dataXferState := .notActive } }

/-- `doDataXfer`.  Only `doXfer` calls it with parameters. -/
def doDataXfer (server : Server) (ans : Answers) (s : Session) (parms : Option CStr) :
    Outcome Session :=
  match s.client.dataXferState with
  | .notActive => .ok s
  | .init => xferInit server ans s parms
  | .connecting => .ok (xferConnecting ans s)
  | .connected => xferConnected server ans s
  | .active => .ok (xferActive ans s)
  | .closing => .ok (xferClosing ans s)

def doXfer (server : Server) (ans : Answers) (s : Session) (nextTokenPtr : Option CStr)
    (listType : DataXferType) : Outcome Session :=
  if listType = .stor ∧ s.client.user.cmd_STOR = false ∨
      listType = .storA ∧ s.client.user.cmd_APPE = false ∨
      listType = .storU ∧ s.client.user.cmd_STOU = false then
    .ok (s.say "550 permission denied" [])
  else if isStore listType ∧ mayUpload s.client = false then
    .ok (s.say "550 You need to be in the %s directory to upload" [s.client.user.uploaddir])
  else if s.client.dataXferState = .notActive then
    doDataXfer server ans
      { s with client := { s.client with dataXferState := .init, dataXferType := listType } }
      nextTokenPtr
  else .ok (s.say Msg_425_Cant_Open_Conn [])

def doAbort (s : Session) : Session :=
  (endDataTransfers s Msg_426_Request_term).say "226 ABOR complete" []

/-- `doPort`; what `sscanf` makes of the parameters is an answer of the outside. -/
def doPort (ans : Answers) (s : Session) : Session :=
  if s.client.dataXferState ≠ .notActive then s.say Msg_425_Transfer_In_Progress []
  else
    let s : Session := { s with client := { s.client with ls := false, ds := false } }
    match ans.sscanfPort with
    | none => s.say "501 Illegal PORT command" []
    | some port =>
      ({ s with client := { s.client with dataPort := port } } : Session).say
        "200 PORT command successful" []

def doPasv (ans : Answers) (s : Session) : Session :=
  if s.client.dataXferState ≠ .notActive then s.say Msg_425_Transfer_In_Progress []
  else
    let s : Session := { s with client := { s.client with ds := false, ls := ans.getSocket } }
    if ans.getSocket = false ∨ ans.listens = false then s.say Msg_425_Cant_Open_Conn []
    else s.say "227 Entering Passive Mode (%d,%d,%d,%d,%d,%d)" []

end SdcBoot.Ftp
