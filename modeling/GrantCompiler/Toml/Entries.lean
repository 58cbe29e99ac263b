import GrantCompiler.Toml.Value

/-!
# Tables and who may extend them

A document is written line by line, and several lines can speak of one table.  A header defines a
table once; it may do so after a longer header or a dotted key has passed through it, but a table
that a dotted key made belongs to the dotted keys of the section it stands in.  A value, and with it
a table written in braces, is closed for good.

Keys stand in the order in which they were first named, except that a table which has been passed
through before it is defined takes its place when it is defined.

`define`, `grow` and `assign` enter one line into what the lines before it have built, and refuse a
line that breaks these rules.
-/

set_option autoImplicit false

namespace GrantCompiler
namespace Toml

/-- What the lines read so far have put under a key. -/
inductive Node
  | value (v : Value)
  /-- A table; `implied` when only longer headers or dotted keys have named it, `dotted` when a
  dotted key made it. -/
  | table (implied dotted : Bool) (entries : List (String × Node))
  /-- A list of tables, of which only the last is open; the others are closed, the latest first. -/
  | tables (closed : List Value) (last : List (String × Node))

/-- What the lines read so far have put into a table. -/
abbrev Entries := List (String × Node)

/-! ## What has been built -/

mutual

/-- The value that has been built under a key. -/
def Node.toValue : Node → Value
  | .value v => v
  | .table _ _ entries => .table (valuesOf entries)
  | .tables closed last => .list (closed.reverse ++ [.table (valuesOf last)])

/-- The values of a table, in the order of its entries. -/
def valuesOf : List (String × Node) → List (String × Value)
  | [] => []
  | (key, node) :: rest => (key, node.toValue) :: valuesOf rest

end

/-! ## Building -/

namespace Entries

/-- Changes what stands under a key, or enters it. -/
def modify (key : String) (f : Option Node → Option Node) : Entries → Option Entries
  | [] => do return [(key, ← f none)]
  | (k, node) :: rest =>
    if k = key then do return (k, ← f (some node)) :: rest
    else do return (k, node) :: (← modify key f rest)

/-- Goes on inside the table under a key, which a header's path may pass through. -/
def within (f : Entries → Option Entries) : Option Node → Option Node
  | none => do return .table true false (← f [])
  | some (.value _) => none
  | some (.table implied dotted entries) => do return .table implied dotted (← f entries)
  | some (.tables closed last) => do return .tables closed (← f last)

/-- Enters the header of a table. -/
def define : List String → Entries → Option Entries
  | [] => fun _ => none
  | [key] => fun s =>
    match s.lookup key with
    | none => some (s ++ [(key, .table false false [])])
    | some (.table true false entries) =>
      some (s.filter (·.1 != key) ++ [(key, .table false false entries)])
    | some _ => none
  | key :: rest => modify key (within (define rest))

/-- Enters the header of one more table of a list. -/
def grow : List String → Entries → Option Entries
  | [] => fun _ => none
  | [key] => modify key fun
    | none => some (.tables [] [])
    | some (.tables closed last) => some (.tables (.table (valuesOf last) :: closed) [])
    | some _ => none
  | key :: rest => modify key (within (grow rest))

/-- Enters a key, given as the path of a dotted key, with its value. -/
def assign (v : Value) : List String → Entries → Option Entries
  | [] => fun _ => none
  | [key] => modify key fun
    | none => some (.value v)
    | some _ => none
  | key :: rest => modify key fun
    | none => do return .table true true (← assign v rest [])
    | some (.table true dotted entries) =>
      if rest.length = 1 && !dotted then none
      else do return .table true dotted (← assign v rest entries)
    | some (.tables closed last) =>
      if rest.length = 1 then none else do return .tables closed (← assign v rest last)
    | some _ => none

/-- Enters a key below the header that is open. -/
def assignUnder (v : Value) (path : List String) : List String → Entries → Option Entries
  | [] => assign v path
  | key :: rest => modify key (within (assignUnder v path rest))

end Entries

end Toml
end GrantCompiler
