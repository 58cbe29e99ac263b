import GrantCompiler.FileSystem
import GrantCompiler.Document.Form
import GrantCompiler.Yaml.Expansion

/-!
# Reading the documents

The two documents are YAML texts, given in memory or as files.
-/

set_option autoImplicit false

namespace GrantCompiler

open Yaml (Shape)

/-- Maps from names to lists of names. -/
def nameListsShape : Shape := .map (.list .text)

/-- The applications that a text lists. -/
def Apps.ofYaml? (text : String) : Option Apps := do
  let d ← Yaml.Document.ofText? text
  Apps.ofTree? (← d.expandRoot (d.expand nameListsShape))

/-- The table of permissions that a text spells by itself. -/
def Permissions.ofYaml? (text : String) : Option Permissions := do
  let d ← Yaml.Document.ofText? text
  Permissions.ofTree? (← d.expandRoot (d.expand (.map nameListsShape)))

/-- What is wanted of a key of the document on usage. -/
def Section.shape? (key : String) : Option Shape :=
  (Section.ofKey? key).map fun
    | .resources => .map nameListsShape
    | .permissions => .map nameListsShape
    | .usage => .map (.map nameListsShape)

/-- The document on usage that a text spells. -/
def UsageDocument.ofYaml? (text : String) : Option UsageDocument := do
  let d ← Yaml.Document.ofText? text
  UsageDocument.ofTree? (← d.expandRoot (d.expandFields Section.shape?))

/-! ## Files -/

/-- Why a document could not be loaded. -/
inductive DocumentFailure
  | unreadable (path : String) (cause : FileFailure)
  /-- The text is no document of the wanted form; `detail` says what is wrong with it. -/
  | malformed (path detail : String)

/-- The text of a failure. -/
def DocumentFailure.message : DocumentFailure → String
  | unreadable path cause => "failed to read " ++ path ++ ": " ++ cause.message
  | malformed path detail => "failed to parse " ++ path ++ ": " ++ detail

/-- How the texts of files are come by. -/
abbrev ReadFile := String → Except FileFailure String

/-- Reads a file, and a document from its text. -/
def loadDocument {α : Type} (read : ReadFile) (path : String) (ofText? : String → Option α) :
    Except DocumentFailure α :=
  match read path with
  | .error cause => .error (.unreadable path cause)
  | .ok text =>
    match ofText? text with
    | none => .error (.malformed path "not a YAML document of the expected form")
    | some document => .ok document

/-- Reads the document on applications. -/
def loadApps (read : ReadFile) (path : String) : Except DocumentFailure Apps :=
  loadDocument read path Apps.ofYaml?

/-- Reads the document on usage. -/
def loadUsage (read : ReadFile) (path : String) : Except DocumentFailure UsageDocument :=
  loadDocument read path UsageDocument.ofYaml?

end GrantCompiler
