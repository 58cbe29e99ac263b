import GrantCompiler.Kind

/-!
# Findings

What a run noticed and did not stop for.  Nothing here aborts anything: naming and aggregation
report findings beside their results, in the order in which they came up, and the caller decides
whether to log them or to refuse the result because of them.
-/

set_option autoImplicit false

namespace GrantCompiler

/-- A finding: something that a run noticed and went on after. -/
inductive Diagnostic
  /-- The account name derived for an application breaks the provider's syntax; it is used all the
  same, and the provider will refuse it. -/
  | invalidAccountName (app : AppName) (username : String)
  /-- A kind that no naming rule knows. -/
  | unsupportedKind (kind : String)
  /-- An operation without an entry in the permission table. -/
  | unknownOperation (kind : String) (operation : OperationName)
  /-- Usage of an application that is not declared. -/
  | unknownApp (app : AppName)
  /-- Usage of a resource that is not declared. -/
  | unknownResource (kind : String) (name : ResourceName)
  /-- An application that is listed in more than one namespace. -/
  | duplicateApp (app : AppName) (kept dropped : NamespaceName)
deriving DecidableEq

namespace Diagnostic

/-- A short stable code, for logs and for counting. -/
def code : Diagnostic → String
  | invalidAccountName .. => "invalid-sa-username"
  | unsupportedKind .. => "unsupported-kind"
  | unknownOperation .. => "unknown-operation"
  | unknownApp .. => "unknown-app"
  | unknownResource .. => "unknown-resource"
  | duplicateApp .. => "duplicate-app"

/-- The text of a finding, with the names as the documents spell them. -/
def message : Diagnostic → String
  | invalidAccountName app username =>
    "invalid service account username " ++ username ++ " for app " ++ app.text
  | unsupportedKind kind => "resource kind " ++ kind ++ " is not supported"
  | unknownOperation kind operation =>
    "no roles defined for operation " ++ operation.text ++ " on " ++ kind
  | unknownApp app => "usage declared for undeclared app " ++ app.text
  | unknownResource kind name =>
    "usage references undeclared " ++ kind ++ " resource " ++ name.text
  | duplicateApp app kept dropped =>
    "app " ++ app.text ++ " declared in namespaces " ++ kept.text ++ " and " ++ dropped.text ++
      "; using " ++ kept.text

end Diagnostic

/-- Findings in the order in which they came up. -/
abbrev Diagnostics := List Diagnostic

/-- How many findings have a code. -/
def Diagnostics.count (ds : Diagnostics) (code : String) : Nat :=
  List.countP (fun d => d.code == code) ds

end GrantCompiler
