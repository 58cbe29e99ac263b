import GrantCompiler.Naming.Reported
import GrantCompiler.Naming.Template

/-!
# Identities of applications

An application has an account in the cluster and an account in the cloud, both under one username,
and a subject through which the first acts as the second.  The provider restricts usernames; one
that breaks its rules is reported and used all the same.
-/

set_option autoImplicit false

namespace GrantCompiler

namespace AppName

/-- What the usernames of scheduled applications start with, shortened to keep within the length
that the provider allows. -/
def scheduledMark : String := "scheduled-"

/-- What `scheduledMark` is shortened to. -/
def scheduledShort : String := "s-"

/-- What usernames end with. -/
def usernameEnding : String := "-sa"

/-- The username of an application's accounts. -/
def username (app : AppName) : String :=
  let full := (app.text ++ usernameEnding).toList
  if scheduledMark.toList.isPrefixOf full then
    scheduledShort ++ String.ofList (full.drop scheduledMark.length)
  else String.ofList full

end AppName

namespace Username

/-- A lower-case letter of ASCII. -/
def isLower (c : Char) : Bool := 'a' ≤ c && c ≤ 'z'

/-- A lower-case letter or a digit of ASCII. -/
def isLowerOrDigit (c : Char) : Bool := isLower c || ('0' ≤ c && c ≤ '9')

/-- The provider's rule: 6 to 30 characters, a lower-case letter first, a lower-case letter or a
digit last, and nothing but these and hyphens between. -/
def valid (username : String) : Bool :=
  match username.toList with
  | [] => false
  | first :: rest =>
    isLower first && 5 ≤ rest.length && rest.length ≤ 29 &&
      rest.dropLast.all (fun c => c == '-' || isLowerOrDigit c) &&
      (rest.getLast?.any isLowerOrDigit)

end Username

namespace AppName

/-- `<namespace>/<username>` -/
def clusterAccount (app : AppName) (space : NamespaceName) : ClusterAccount :=
  ⟨space.text ++ "/" ++ app.username⟩

/-- The application's account in the cloud, by its mail address. -/
def cloudAccount (app : AppName) (locators : Locators) : Reported Member := do
  unless Username.valid app.username do
    Reported.report (.invalidAccountName app app.username)
  let project ← Reported.silently (Template.SharedProject.resolve locators Template.memberName)
  return ⟨Template.member app.username project⟩

end AppName

/-- The subject as which a cluster account acts in the cloud. -/
def ClusterAccount.subject (account : ClusterAccount) (locators : Locators) :
    Except MissingLocator Member := do
  let project ← Template.SharedProject.resolve locators Template.subjectName
  return ⟨Template.subject account.text project⟩

/-- The path of a cloud account, for the policy on the account itself. -/
def Member.fullName (account : Member) (locators : Locators) : Except MissingLocator FullName := do
  let project ← Template.SharedProject.resolve locators Template.accountPath
  return ⟨Template.accountFullName account.text project⟩

end GrantCompiler
