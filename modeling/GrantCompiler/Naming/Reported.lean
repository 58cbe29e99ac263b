import GrantCompiler.Diagnostic
import GrantCompiler.Locator.Basic

/-!
# Results with findings

Deriving names reports findings as it goes and stops at the first locator that is missing.  What
was reported before that stays reported, so a result is the pair of the findings and the outcome.
-/

set_option autoImplicit false

namespace GrantCompiler

/-- An outcome together with everything reported on the way to it. -/
structure Reported (α : Type) where
  diagnostics : Diagnostics
  outcome : Except MissingLocator α

namespace Reported

variable {α β : Type}

/-- A finding, and on with the work. -/
def report (d : Diagnostic) : Reported Unit := ⟨[d], .ok ()⟩

/-- Work that reports nothing. -/
def silently (outcome : Except MissingLocator α) : Reported α := ⟨[], outcome⟩

instance : Monad Reported where
  pure a := ⟨[], .ok a⟩
  bind x f :=
    match x.outcome with
    | .ok a => ⟨x.diagnostics ++ (f a).diagnostics, (f a).outcome⟩
    | .error e => ⟨x.diagnostics, .error e⟩

end Reported

end GrantCompiler
