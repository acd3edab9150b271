import ArchGuard.GoText
import ArchGuard.GoTime
import ArchGuard.SharedCalls

/-! `CheckPassword` without captcha, statement by statement over the row of one user, with the read
of the row that its callers begin with. -/
namespace ArchGuard.Object
open GoText SharedCalls

/-- The two columns of an application for failed sign-ins, as configured. -/
structure SigninConfig where
  failedSigninLimit : ℤ
  failedSigninFrozenTime : ℤ
  deriving DecidableEq, Repr

/-- `GetFailedSigninConfigByUser`: zero stands for the default. -/
def SigninConfig.limit (a : SigninConfig) : ℤ := if a.failedSigninLimit = 0 then 5 else a.failedSigninLimit

def SigninConfig.frozenTime (a : SigninConfig) : ℤ :=
  if a.failedSigninFrozenTime = 0 then 15 else a.failedSigninFrozenTime

/-- What the clock shows: nanoseconds since the epoch, and the text of the second. -/
structure Instant where
  ns : ℤ
  text : String
  written : GoTime.rfc3339Nano (ns - ns%10^9) = some text

def Instant.second (now : Instant) : ℤ := now.ns - now.ns%10^9

structure UserRow where
  signinWrongTimes : ℤ
  lastSigninWrongTime : String
  deriving DecidableEq, Repr

/-- The zero `time.Time`, which a text that does not parse stands for. -/
def zeroTime : ℤ := -62135596800*10^9

/-- `time.Time.Sub`, within the bounds of a duration. -/
def durationSince (now last : ℤ) : ℤ := max (-2^63) (min (2^63-1) (now - last))

/-- The whole minutes that a freeze since `last` still lasts. -/
def SigninConfig.minutesLeft (a : SigninConfig) (now : Instant) (last : ℤ) : ℤ :=
  a.frozenTime - (durationSince now.ns last).tdiv (60*10^9)

inductive SigninError
  | passwordEmpty
  /-- `SigninReasonWrongPassword`, with the chances that remain. -/
  | wrongPassword (leftChances : ℤ)
  /-- `SigninReasonAccountFrozen`, with the minutes to wait. -/
  | accountFrozen (minutes : ℤ)
  deriving DecidableEq, Repr

/-- Where an attempt stands: the statement it runs next, with its copy of the row. -/
inductive SigninPc
  | getUser (password : GoString)
  | resetExpired (password : GoString) (user : UserRow)
  | isPasswordCorrect (password : GoString) (user : UserRow)
  | recordSigninErrorInfo (user : UserRow)
  | resetUserSigninErrorTimes (user : UserRow)
  | signedIn
  | refused (err : SigninError)
  deriving DecidableEq, Repr

section Attempt

variable (a : SigninConfig)

/-- `checkSigninErrorTimes` on a copy of the row, before its own UPDATE. -/
def checkSigninErrorTimes (now : Instant) (password : GoString) (user : UserRow) : SigninPc :=
  if a.limit ≤ user.signinWrongTimes then
    let minutes := a.minutesLeft now ((GoTime.parseRfc3339 user.lastSigninWrongTime).getD zeroTime)
    if 0 < minutes then .refused (.accountFrozen minutes)
    else .resetExpired password { user with signinWrongTimes := 0 }
  else .isPasswordCorrect password user

def afterUserRow (now : Instant) (password : GoString) (user : UserRow) : SigninPc :=
  if password = [] then .refused .passwordEmpty else checkSigninErrorTimes a now password user

/-- The copy that `recordSigninErrorInfo` writes back. -/
def countWrong (now : Instant) (user : UserRow) : UserRow :=
  if user.signinWrongTimes < a.limit then
    { signinWrongTimes := user.signinWrongTimes + 1
      lastSigninWrongTime :=
        if a.limit ≤ user.signinWrongTimes + 1 then now.text else user.lastSigninWrongTime }
  else user

/-- The error of `recordSigninErrorInfo`. -/
def recordedError (user : UserRow) : SigninError :=
  if 0 ≤ a.limit - user.signinWrongTimes then .wrongPassword (a.limit - user.signinWrongTimes)
  else .accountFrozen a.frozenTime

def afterComparison (now : Instant) (correct : Bool) (user : UserRow) : SigninPc :=
  if correct then
    if user.signinWrongTimes = 0 then .signedIn
    else .resetUserSigninErrorTimes { user with signinWrongTimes := 0 }
  else .recordSigninErrorInfo (countWrong a now user)

/-- The attempts on one user; `correct` is what the credential manager finds of a password. -/
def signinProgram (correct : GoString → Bool) : Program UserRow GoString SigninPc Instant where
  entry := .getUser
  next
    | .getUser password, now, row => some (afterUserRow a now password row, row)
    | .resetExpired password user, _, row =>
      some (.isPasswordCorrect password user, { row with signinWrongTimes := user.signinWrongTimes })
    | .isPasswordCorrect password user, now, row =>
      some (afterComparison a now (correct password) user, row)
    | .recordSigninErrorInfo user, _, _ => some (.refused (recordedError a user), user)
    | .resetUserSigninErrorTimes user, _, _ => some (.signedIn, user)
    | .signedIn, _, _ => none
    | .refused _, _, _ => none

end Attempt

abbrev SigninSite := Site UserRow SigninPc

abbrev SigninEvent := Event GoString Instant

theorem Instant.parse_text (now : Instant) : GoTime.parseRfc3339 now.text = some now.second :=
  GoTime.parseRfc3339_rfc3339Nano now.written

end ArchGuard.Object
