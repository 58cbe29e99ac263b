import GrantCompiler.OrderedMap

/-!
# Values of a locators file

A locators file is a TOML document.  Of a value at its top only the text matters, if it is a text.
Lists and tables keep what they hold, as it is written: it has to be well formed, even though no
locator comes of it.
-/

set_option autoImplicit false

namespace GrantCompiler
namespace Toml

/-- What a key of a document stands for. -/
inductive Value
  | text (content : String)
  /-- A number, a truth value, a date or a time. -/
  | scalar
  | list (items : List Value)
  /-- Keys with values; no key occurs twice. -/
  | table (entries : List (String × Value))

/-- A document seen from its top: each key with its value. -/
abbrev Table := OrderedMap String Value

end Toml
end GrantCompiler
