/-!
# Bindings given as arguments

A binding argument reads `NAME=VALUE`.  The first `=` separates, so a value may hold further ones;
neither side may be empty.
-/

set_option autoImplicit false

namespace GrantCompiler
namespace Locator

/-- A value given to a locator key. -/
structure Binding where
  key : String
  value : String
deriving DecidableEq

/-- The binding an argument spells, if it spells one. -/
def Binding.parse? (argument : String) : Option Binding :=
  let name := argument.toList.takeWhile (· != '=')
  match argument.toList.dropWhile (· != '=') with
  | _ :: value =>
    if name.isEmpty || value.isEmpty then none
    else some ⟨String.ofList name, String.ofList value⟩
  | [] => none

/-- The argument that spells a binding. -/
def Binding.argument (b : Binding) : String := b.key ++ "=" ++ b.value

end Locator
end GrantCompiler
