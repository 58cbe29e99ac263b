import GrantCompiler.OrderedMap

/-!
# Trees

What a document says before anyone asks what it means: texts, lists, and fields in the order and
number in which they are written.  The reading functions turn a tree into a value or refuse it.
They know three forms, a text, a list and a map, and they are strict about them; the one indulgence
is a value left blank, which is a text, a list or a map without content, as the reader wants it.
-/

set_option autoImplicit false

namespace GrantCompiler

/-- What a document says, value by value. -/
inductive Tree
  | text (content : String)
  /-- Nothing is written where a value could stand. -/
  | blank
  /-- A value that is no text, no list and no map. -/
  | atom
  | list (items : List Tree)
  /-- Keys with values, as written. -/
  | fields (entries : List (Tree × Tree))

namespace Tree

variable {α : Type} {K : Type} {V : Type}

/-! ## Reading -/

/-- The text that a value is. -/
def asText? : Tree → Option String
  | text content => some content
  | blank => some ""
  | _ => none

/-- The items of a list, each read in the same way. -/
def asList? (item : Tree → Option α) : Tree → Option (List α)
  | list items => items.mapM item
  | blank => some []
  | _ => none

/-- The entries of a map, as written. -/
def asEntries? : Tree → Option (List (Tree × Tree))
  | fields entries => some entries
  | blank => some []
  | _ => none

/-- A map; a key that is written again takes its last value, but all its values are read. -/
def asMap? [Ord K] [Std.TransOrd K] [Std.LawfulEqOrd K] (key : String → K)
    (value : Tree → Option V) (t : Tree) : Option (OrderedMap K V) := do
  let pairs ← (← t.asEntries?).mapM fun (k, v) => do return (key (← k.asText?), ← value v)
  return .ofList pairs

/-! ## Writing -/

/-- A list of values that are written in one way. -/
def ofList (item : α → Tree) (items : List α) : Tree := list (items.map item)

/-- The entries of a map, in the order of its keys. -/
def ofMap [Ord K] (key : K → String) (value : V → Tree) (m : OrderedMap K V) : Tree :=
  fields (m.toList.map fun (k, v) => (text (key k), value v))

end Tree

end GrantCompiler
