import Mathlib.Data.List.TakeWhile

/-!
# The first equals sign

A long option with its value and a locator with its text are each written as one word, in which the
first equals sign divides the two sides.  The first side has none, the second may have any number.

* `takeWhile_side` and `dropWhile_side` — a word that is put together from two sides falls apart
  into the same two.
* `eq_takeWhile_append` and `eq_of_takeWhile_eq` — a word that falls apart was put together, and one
  that does not is the first side alone.
* `sides_inj` — there is one way only to put it together.
-/

set_option autoImplicit false

namespace GrantCompiler

variable {side side' : List Char}

theorem ne_of_not_mem (h : '=' ∉ side) : ∀ c ∈ side, (c != '=') = true := by
  intro c hc
  refine bne_iff_ne.2 ?_
  rintro rfl
  exact h hc

theorem takeWhile_side (h : '=' ∉ side) (rest : List Char) :
    (side ++ '=' :: rest).takeWhile (· != '=') = side := by
  rw [List.takeWhile_append_of_pos (ne_of_not_mem h), List.takeWhile_cons_of_neg (by decide),
    List.append_nil]

theorem dropWhile_side (h : '=' ∉ side) (rest : List Char) :
    (side ++ '=' :: rest).dropWhile (· != '=') = '=' :: rest := by
  rw [List.dropWhile_append_of_pos (ne_of_not_mem h), List.dropWhile_cons_of_neg (by decide)]

/-- What follows the first side begins with the equals sign. -/
theorem eq_takeWhile_append {word value : List Char} {c : Char}
    (h : word.dropWhile (· != '=') = c :: value) :
    word = word.takeWhile (· != '=') ++ '=' :: value := by
  have hne : word.dropWhile (· != '=') ≠ [] := by rw [h]; exact List.cons_ne_nil _ _
  have hhead := List.head_dropWhile_not (· != '=') hne
  simp only [h, List.head_cons, bne_eq_false_iff_eq] at hhead
  subst hhead
  rw [← h, List.takeWhile_append_dropWhile]

/-- A word in which nothing follows the first side is that side. -/
theorem eq_of_takeWhile_eq {word name : List Char} (h : word.takeWhile (· != '=') = name)
    (hrest : word.dropWhile (· != '=') = []) : word = name := by
  rw [← List.takeWhile_append_dropWhile (p := (· != '=')) (l := word), h, hrest, List.append_nil]

theorem sides_inj {rest rest' : List Char} (h : '=' ∉ side) (h' : '=' ∉ side') :
    side ++ '=' :: rest = side' ++ '=' :: rest' ↔ side = side' ∧ rest = rest' := by
  refine ⟨fun heq => ?_, fun ⟨hside, hrest⟩ => by rw [hside, hrest]⟩
  have hside : side = side' := by
    rw [← takeWhile_side h rest, heq, takeWhile_side h' rest']
  subst hside
  exact ⟨rfl, (List.cons.inj (List.append_cancel_left heq)).2⟩

end GrantCompiler
