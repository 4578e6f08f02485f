import Roster.File.Path

/-!
# Accounts of users

The list of accounts of a machine has a line for each account, whose fields stand between colons.
The third field is the number of the user and the sixth one the home directory. The first account
with the number of a user counts (`accountHome?`).
-/

set_option autoImplicit false
set_option relaxedAutoImplicit false

namespace Roster

/-- An account of a user. -/
structure Account where
  /-- The number of the user, as it is written. -/
  user : String
  /-- The home directory; the empty text is none. -/
  home : String
deriving DecidableEq

namespace Account

/-- The account on a line of the list. -/
def ofLine? (line : List Char) : Option Account :=
  match Text.splitOn ':' line with
  | _ :: _ :: user :: _ :: _ :: home :: _ => some ⟨String.ofList user, String.ofList home⟩
  | _ => none

/-- The accounts on the lines of a list. -/
def ofList (text : String) : List Account :=
  (Text.lines text.toList).filterMap ofLine?

end Account

/-- The home directory that a list of accounts has for a user, if it has one. -/
def accountHome? (accounts : List Account) (user : String) : Option Path :=
  match accounts.find? fun account ↦ account.user = user with
  | some account => if account.home = "" then none else some account.home
  | none => none

end Roster
