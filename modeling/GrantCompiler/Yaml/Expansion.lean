import GrantCompiler.Document.Tree
import GrantCompiler.Yaml.Node

/-!
# From YAML documents to trees

References are followed where the content of a document is wanted, and only there, so what a reader
passes over cannot fail.  A `Shape` says what is wanted.  Following references is limited to a
multiple of the document's size, which keeps a short text from standing for an enormous tree.
-/

set_option autoImplicit false

namespace GrantCompiler
namespace Yaml

/-- What a reader wants of a node. -/
inductive Shape
  | text
  | list (item : Shape)
  | map (value : Shape)

/-- Counts the references that may still be followed. -/
abbrev Expansion := StateT Nat Option

namespace Document

/-- How many references may be followed for each node of a document. -/
def referencesPerNode : Nat := 100

/-- The node itself, or the one that it refers to. -/
def target (d : Document) : Node → Expansion Node
  | .reference number => do
    match ← get with
    | 0 => failure
    | left + 1 =>
      set left
      match d.anchors.lookup number with
      | some node => return node
      | none => failure
  | node => return node

/-- The tree of a node that is wanted as a text. -/
def expandText (d : Document) (node : Node) : Expansion Tree := do
  match ← d.target node with
  | .scalar _ true => return .blank
  | .scalar content false => return .text content
  | _ => failure

/-- The tree of a node that is wanted in a shape. -/
def expand (d : Document) : Shape → Node → Expansion Tree
  | .text, node => d.expandText node
  | .list item, node => do
    match ← d.target node with
    | .list items => return .list (← items.mapM (d.expand item))
    | .scalar _ true => return .blank
    | _ => failure
  | .map value, node => do
    match ← d.target node with
    | .map entries =>
      return .fields (← entries.mapM fun (k, v) => do
        return (← d.expandText k, ← d.expand value v))
    | .scalar _ true => return .blank
    | _ => failure

/-- The tree of a map of which only some keys are wanted, each with a value of its shape. -/
def expandFields (d : Document) (wanted : String → Option Shape) (node : Node) :
    Expansion Tree := do
  match ← d.target node with
  | .map entries =>
    let fields ← entries.mapM fun (k, v) => do
      let key ← d.expandText k
      match key.asText?.bind wanted with
      | some shape => return some (key, ← d.expand shape v)
      | none => return none
    return .fields (fields.filterMap id)
  | .scalar _ true => return .blank
  | _ => failure

/-- Expands the root; a text without a document is blank. -/
def expandRoot (d : Document) (expansion : Node → Expansion Tree) : Option Tree :=
  match d.root with
  | none => some .blank
  | some node => (expansion node).run' (referencesPerNode * d.size)

end Document

end Yaml
end GrantCompiler
