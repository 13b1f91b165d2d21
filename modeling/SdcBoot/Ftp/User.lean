/-
# Tokens and user records

The password file holds one user a line.  `getUserRec` looks a name up in it and fills the record
of the session, `sanityCheck` is what the server does with every line when it starts.  Both cut
their lines with `getNextToken`, the routine that also cuts what clients send.

`getNextToken` stops storing characters when its target is full, except behind a quote that
follows a quote inside of a quoted part; there it stores what comes without looking.
-/
import SdcBoot.Ftp.Path

namespace SdcBoot.Ftp

open List

/-! ## 1. Tokens -/

def isSpace (c : Char) : Bool := c == ' ' || (9 ≤ c.toNat && c.toNat ≤ 13)

inductive TokenState where
  | normal
  | quoteSeen
  | inQuoteRegion
  | inQuoteRegionQuoteSeen
  deriving DecidableEq

/-- `if ( j < bufLen ) target[j++] = c` -/
def store (bufLen : Nat) (target : CStr) (c : Char) : CStr :=
  if target.length < bufLen then target ++ [c] else target

/-- The NUL goes behind the token, or to the last place of the target. -/
def terminated (bufLen : Nat) (target : CStr) : CStr := target.take (bufLen - 1)

/-- The loop of `getNextToken`: the token and, unless the input is used up, what is left of it. -/
def tokenLoop (bufLen : Nat) : TokenState → CStr → CStr → Outcome (CStr × Option CStr)
  | _, target, [] => .ok (terminated bufLen target, none)
  | .normal, target, c :: input =>
    if c = doubleQuote then tokenLoop bufLen .quoteSeen target input
    else if isSpace c then .ok (terminated bufLen target, some (c :: input))
    else tokenLoop bufLen .normal (store bufLen target c) input
  | .quoteSeen, target, c :: input =>
    tokenLoop bufLen (if c = doubleQuote then .normal else .inQuoteRegion)
      (store bufLen target c) input
  | .inQuoteRegion, target, c :: input =>
    if c = doubleQuote then tokenLoop bufLen .inQuoteRegionQuoteSeen target input
    else tokenLoop bufLen .inQuoteRegion (store bufLen target c) input
  | .inQuoteRegionQuoteSeen, target, c :: input =>
    if isSpace c then .ok (terminated bufLen target, some (c :: input))
    -- no test of `bufLen` from here on
    else if c = doubleQuote then
      if target.length < bufLen then tokenLoop bufLen .inQuoteRegion (target ++ [doubleQuote]) input
      else .overrun
    else if target.length + 1 < bufLen then
      tokenLoop bufLen .inQuoteRegion (target ++ [doubleQuote, c]) input
    else .overrun

/-- `Utils::getNextToken`; `none` is the null pointer. -/
def getNextToken (input : Option CStr) (bufLen : Nat) : Outcome (CStr × Option CStr) :=
  match input with
  | none => .ok ([], none)
  | some input =>
    if input.dropWhile isSpace = [] then .ok ([], none)
    else tokenLoop bufLen .normal [] (input.dropWhile isSpace)

/-! ## 2. Records -/

def USERNAME_LEN : Nat := 10
def USERPASS_LEN : Nat := 10

structure FtpUser where
  userName : CStr
  userPass : CStr
  sandbox : CStr
  uploaddir : CStr
  cmd_DELE : Bool
  cmd_MKD : Bool
  cmd_RMD : Bool
  cmd_RNFR : Bool
  cmd_STOR : Bool
  cmd_APPE : Bool
  cmd_STOU : Bool
  deriving DecidableEq

def FtpUser.wiped : FtpUser :=
  ⟨[], [], [], [], false, false, false, false, false, false, false⟩

def bracketNone : CStr := "[NONE]".toList
def bracketAny : CStr := "[ANY]".toList
def bracketEmail : CStr := "[EMAIL]".toList

/-- One word of the permissions; `none` for a word that is not known. -/
def FtpUser.permit (user : FtpUser) (token : CStr) : Option FtpUser :=
  if token = "ALL".toList then
    some { user with
      cmd_DELE := true, cmd_MKD := true, cmd_RMD := true, cmd_RNFR := true,
      cmd_STOR := true, cmd_APPE := true, cmd_STOU := true }
  else if token = "DELE".toList then some { user with cmd_DELE := true }
  else if token = "MKD".toList then some { user with cmd_MKD := true }
  else if token = "RMD".toList then some { user with cmd_RMD := true }
  else if token = "RNFR".toList then some { user with cmd_RNFR := true }
  else if token = "STOR".toList then some { user with cmd_STOR := true }
  else if token = "APPE".toList then some { user with cmd_APPE := true }
  else if token = "STOU".toList then some { user with cmd_STOU := true }
  else none

/-- The loop over the permissions.  Every round uses up a character at least, so the length of what
is left bounds the number of rounds. -/
def readPermissions : Nat → FtpUser → Option CStr → Outcome (Nat × FtpUser)
  | 0, user, _ => .ok (0, user)
  | _ + 1, user, none => .ok (0, user)
  | rounds + 1, user, some input =>
    (getNextToken (some input) 10).bind fun (token, next) =>
      if token = [] then .ok (0, user)
      else
        match user.permit (strupr token) with
        | none => .ok (2, user)
        | some user => readPermissions rounds user next

/-- `FtpUser::createUserRec`, with its return code and what it leaves in the record. -/
def createUserRec (input : CStr) : Outcome (Nat × FtpUser) :=
  let buffer := FtpUser.wiped
  if input = [] then .ok (1, buffer)
  else
    (getNextToken (some input) USERNAME_LEN).bind fun (userName, next) =>
      let buffer := { buffer with userName := userName }
      if next = none ∨ userName = [] then .ok (1, buffer)
      else
        (getNextToken next USERPASS_LEN).bind fun (userPass, next) =>
          let buffer := { buffer with userPass := userPass }
          if next = none ∨ userPass = [] then .ok (1, buffer)
          else
            let buffer := { buffer with
              userPass := if stricmpEq userPass bracketEmail then strupr userPass else userPass }
            (getNextToken next USR_MAX_PATH_LENGTH).bind fun (sandbox, next) =>
              if next = none ∨ sandbox = [] then .ok (1, { buffer with sandbox := sandbox })
              else
                let buffer := { buffer with sandbox := strupr sandbox }
                (getNextToken next USR_MAX_PATH_LENGTH).bind fun (uploaddir, next) =>
                  if uploaddir = [] then .ok (1, buffer)
                  else
                    readPermissions ((next.getD []).length + 1)
                      { buffer with uploaddir := strupr uploaddir } next

/-- `FtpUser::getUserRec` over the lines `fgets` delivers: whether the user was found, and the
record as it is then.  A line that is found in error ends the search. -/
def getUserRec (targetUser : CStr) : List CStr → FtpUser → Outcome (Bool × FtpUser)
  | [], buffer => .ok (false, buffer)
  | lineBuffer :: userFile, buffer =>
    if lineBuffer = [] ∨ lineBuffer.head? = some '#' then getUserRec targetUser userFile buffer
    else
      (getNextToken (some lineBuffer) USERNAME_LEN).bind fun (tmpUserName, _) =>
        if tmpUserName = [] then getUserRec targetUser userFile buffer
        else if stricmpEq targetUser tmpUserName then
          (createUserRec lineBuffer).bind fun (rc, buffer) => .ok (rc == 0, buffer)
        else getUserRec targetUser userFile buffer

/-! ## 3. `sanityCheck` -/

/-- What `convertToDosPath` leaves in a buffer, whatever it returns. -/
def dosBuffer (drives : Drives) (buffer : CStr) : Outcome CStr :=
  match convertToDosPath drives buffer with
  | .ok path => .ok path
  | .error rc => .ok (if rc = 2 then [slash] else buffer)
  | .overrun => .overrun

/-- `sandbox` without the trailing slash an administrator may have put there. -/
def withoutSlash (sandbox : CStr) : CStr :=
  if 9 < sandbox.length ∧ sandbox.getLast? = some slash then sandbox.dropLast else sandbox

/-- The first half of `FtpUser::sanityCheck`: an error message or none, and the record. -/
def checkSandbox (drives : Drives) (isDir : CStr → Bool) (user : FtpUser) :
    Outcome (Option String × FtpUser) :=
  if user.sandbox = bracketNone then .ok (none, user)
  else
    if isDrivePrefixPresent (withoutSlash user.sandbox) = false then
      .ok (some "sandbox field should start with /DRIVE_x/",
        { user with sandbox := withoutSlash user.sandbox })
    else if isDriveInValidTable drives (charAt (withoutSlash user.sandbox) 7) = false then
      .ok (some "bad drive letter in sandbox field",
        { user with sandbox := withoutSlash user.sandbox })
    else
      match normalizeDir (withoutSlash user.sandbox) USR_MAX_PATH_LENGTH with
      | .overrun => .overrun
      | .error _ =>
        .ok (some "sandbox path is not valid", { user with sandbox := withoutSlash user.sandbox })
      | .ok sandbox =>
        (dosBuffer drives sandbox).bind fun tmp =>
          if isDir tmp then .ok (none, { user with sandbox := sandbox })
          else .ok (some "sandbox is not a directory", { user with sandbox := sandbox })

/-- The second half, for the upload directory. -/
def checkUploaddir (drives : Drives) (isDir : CStr → Bool) (user : FtpUser) :
    Outcome (Option String × FtpUser) :=
  if user.uploaddir = bracketAny then .ok (none, user)
  else if charAt user.uploaddir 0 ≠ slash then
    .ok (some "uploaddir needs to start with a '/'", user)
  else
    match normalizeDir user.uploaddir USR_MAX_PATH_LENGTH with
    | .overrun => .overrun
    | .error _ => .ok (some "uploaddir field is not valid", user)
    | .ok uploaddir =>
      let tmp := if user.sandbox = bracketNone then [] else user.sandbox
      if USR_MAX_PATH_LENGTH ≤ tmp.length + uploaddir.length then
        .ok (some "combined sandbox and incoming dirs too long",
          { user with uploaddir := uploaddir })
      else
        (dosBuffer drives (tmp ++ uploaddir)).bind fun tmp =>
          if isDir tmp then .ok (none, { user with uploaddir := uploaddir })
          else .ok (some "incoming is not a directory", { user with uploaddir := uploaddir })

/-- `FtpUser::sanityCheck`: an error message or none, and the record with its paths in normal
form. -/
def sanityCheck (drives : Drives) (isDir : CStr → Bool) (user : FtpUser) :
    Outcome (Option String × FtpUser) :=
  (checkSandbox drives isDir user).bind fun (errMsgOut, user) =>
    if errMsgOut.isSome then .ok (errMsgOut, user) else checkUploaddir drives isDir user

variable {drives : Drives} {isDir : CStr → Bool} {user : FtpUser}

theorem checkSandbox_eq_ok {checked : FtpUser}
    (h : checkSandbox drives isDir user = .ok (none, checked)) :
    (user.sandbox = bracketNone ∧ checked = user) ∨
      ∃ dir, isDrivePrefixPresent (withoutSlash user.sandbox) = true ∧
        isDriveInValidTable drives (charAt (withoutSlash user.sandbox) 7) = true ∧
        normalizeDir (withoutSlash user.sandbox) USR_MAX_PATH_LENGTH = .ok dir ∧
        checked = { user with sandbox := dir } := by
  unfold checkSandbox at h
  split_ifs at h with hnone hpresent hdrive
  · cases h
    exact .inl ⟨hnone, rfl⟩
  · cases h
  · cases h
  · cases hnorm : normalizeDir (withoutSlash user.sandbox) USR_MAX_PATH_LENGTH with
    | overrun => simp [hnorm] at h
    | error rc => simp [hnorm] at h
    | ok dir =>
      simp only [hnorm] at h
      obtain ⟨tmp, -, h⟩ := Outcome.bind_eq_ok h
      split_ifs at h with hdir
      · cases h
        exact .inr ⟨dir, by simpa using hpresent, by simpa using hdrive, rfl, rfl⟩
      · cases h

theorem checkUploaddir_eq_ok {checked : FtpUser}
    (h : checkUploaddir drives isDir user = .ok (none, checked)) :
    (user.uploaddir = bracketAny ∧ checked = user) ∨
      ∃ dir, normalizeDir user.uploaddir USR_MAX_PATH_LENGTH = .ok dir ∧
        checked = { user with uploaddir := dir } := by
  unfold checkUploaddir at h
  split_ifs at h with hany hslash
  · cases h
    exact .inl ⟨hany, rfl⟩
  · cases h
  all_goals
    cases hnorm : normalizeDir user.uploaddir USR_MAX_PATH_LENGTH with
    | overrun => simp [hnorm] at h
    | error rc => simp [hnorm] at h
    | ok dir =>
      simp only [hnorm] at h
      split_ifs at h
      · cases h
      · obtain ⟨tmp, -, h⟩ := Outcome.bind_eq_ok h
        split_ifs at h
        · cases h
          exact .inr ⟨dir, rfl, rfl⟩
        · cases h

section

variable {checked half : FtpUser}

theorem sanityCheck_eq_ok (h : sanityCheck drives isDir user = .ok (none, checked)) :
    ∃ half, checkSandbox drives isDir user = .ok (none, half) ∧
      checkUploaddir drives isDir half = .ok (none, checked) := by
  obtain ⟨⟨err, half⟩, hsandbox, hrest⟩ := Outcome.bind_eq_ok h
  cases err with
  | some err => cases hrest
  | none => exact ⟨half, hsandbox, hrest⟩

/-- The second half leaves the sandbox alone. -/
theorem checkUploaddir_sandbox (h : checkUploaddir drives isDir half = .ok (none, checked)) :
    checked.sandbox = half.sandbox := by
  obtain ⟨-, rfl⟩ | ⟨dir, -, rfl⟩ := checkUploaddir_eq_ok h
  · rfl
  · rfl

theorem withoutSlash_append (sandbox : CStr) :
    ∃ rest, sandbox = withoutSlash sandbox ++ rest := by
  unfold withoutSlash
  split_ifs with hslash
  · exact ⟨_, (dropLast_append_getLast? _ hslash.2).symm⟩
  · exact ⟨[], (append_nil _).symm⟩

/-- **A sandbox that passes the check names a drive to begin with**, with or without the slash that
the check takes from its end. -/
theorem onDrive_of_sanityCheck (h : sanityCheck drives isDir user = .ok (none, checked))
    (hsandbox : user.sandbox ≠ bracketNone) : OnDrive drives user.sandbox := by
  obtain ⟨half, hcheck, -⟩ := sanityCheck_eq_ok h
  obtain ⟨hnone, -⟩ | ⟨dir, hpresent, hdrive, -⟩ := checkSandbox_eq_ok hcheck
  · exact absurd hnone hsandbox
  have hlong := lt_length_of_isDrivePrefixPresent hpresent
  obtain ⟨rest, hrest⟩ := withoutSlash_append user.sandbox
  rw [hrest]
  exact ⟨isDrivePrefixPresent_append _ hlong hpresent, by rwa [charAt_append _ (by omega)]⟩

/-- **A sandbox that the check leaves as it is** is a directory below a drive, written in the normal
form. -/
theorem rooted_of_sanityCheck (h : sanityCheck drives isDir user = .ok (none, checked))
    (hsame : checked.sandbox = user.sandbox) (hsandbox : user.sandbox ≠ bracketNone) :
    Rooted drives user.sandbox ∧ backslash ∉ user.sandbox ∧
      user.sandbox.length < USR_MAX_PATH_LENGTH := by
  have hdrive := onDrive_of_sanityCheck h hsandbox
  have hlong := lt_length_of_isDrivePrefixPresent hdrive.present
  obtain ⟨half, hcheck, hupload⟩ := sanityCheck_eq_ok h
  obtain ⟨hnone, -⟩ | ⟨dir, -, -, hnorm, rfl⟩ := checkSandbox_eq_ok hcheck
  · exact absurd hnone hsandbox
  have hdir : user.sandbox = dir := hsame.symm.trans (checkUploaddir_sandbox hupload)
  obtain ⟨place, -, hplace, hwritten, hlen⟩ := normalizeDir_eq_ok (by decide) hnorm
  rw [hdir, hwritten] at hdrive hlong ⊢
  rw [hwritten] at hlen
  have hroot : place ≠ [] := by
    rintro rfl
    exact absurd hlong (by decide)
  have hlast : (userPath place).getLast? ≠ some slash := by
    rw [userPath, if_neg hroot]
    exact getLast?_append_render hroot
      (fun c hc => ⟨(hplace c hc).plain.1, (hplace c hc).slash_notMem⟩) []
  refine ⟨⟨hdrive, ?_, hlast⟩, backslash_notMem_userPath hplace, hlen⟩
  -- the slash behind the drive is not the end
  have height := hdrive.present
  simp only [isDrivePrefixPresent, Bool.and_eq_true, beq_iff_eq] at height
  by_contra hshort
  refine hlast ?_
  rw [getLast?_eq_getElem?, show (userPath place).length - 1 = 8 by omega,
    getElem?_eq_getElem hlong, ← height.1.2, charAt, getD_eq_getElem _ _ hlong]

end

end SdcBoot.Ftp
