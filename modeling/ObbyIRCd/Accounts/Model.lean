import ObbyIRCd.Lib.Bytes
import ObbyIRCd.Lib.Keyed

/-!
# The table of accounts

The rows of the table `accounts` of `account-registration.c`, which logins, the command `2FA` and
account recovery read. Kept of a row are the columns that they use.
-/

namespace ObbyIRCd

/-- The SCRAM columns of an account. -/
structure Scram where
  salt : List Char
  iterations : ℕ
  storedKey : List Char
  serverKey : List Char
deriving DecidableEq, Repr

/-- A row of `accounts`. A missing `password_scheme` and an empty one are both read as `none`. -/
structure Account where
  id : ℕ
  name : List Char
  email : List Char := []
  verified : Bool := false
  password : List Char := []
  passwordScheme : Option (List Char) := none
  scram : Option Scram := none
  twofaEnabled : Bool := false
deriving DecidableEq, Repr

/-- `find_account`: the first row whose name is equal up to case. -/
def findAccount (db : List Account) (name : List Char) : Option Account :=
  Keyed.find (fun acc => lower acc.name) db (lower name)

end ObbyIRCd
