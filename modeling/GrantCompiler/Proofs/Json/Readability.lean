import GrantCompiler.Json

/-!
# A JSON text is read in one way

The text of a value says where it ends: whatever follows it, a reader that knows the layout can take
only one value off the front.  So no content, however it is chosen, can make one value look like
another, or make a value look as if it ended early.

* `unescape` reads one character of a quoted text back, and `unescape_escape` says that it does.
* `quote_append_inj` — a quoted text ends at its own closing quote.
* `chars_append_inj` — **unique readability** of values, in either layout and at any depth.  The
  further items of a list end at the first character that is no comma, which is why the companions
  for items and fields ask what follows them not to start with one.
-/

set_option autoImplicit false

namespace GrantCompiler
namespace Json

/-! ## Quoted texts -/

/-- Reads one character of a quoted text, in either of the ways it may be written. -/
def unescape : List Char → Option (Char × List Char)
  | '\\' :: 'u' :: '0' :: '0' :: high :: low :: rest =>
    some (Char.ofNat (16 * Digit.value high + Digit.value low), rest)
  | '\\' :: mark :: rest =>
    some (
      if mark = 'b' then '\x08'
      else if mark = 't' then '\t'
      else if mark = 'n' then '\n'
      else if mark = 'f' then '\x0c'
      else if mark = 'r' then '\r'
      else mark, rest)
  | c :: rest => some (c, rest)
  | [] => none

theorem unescape_plain {c : Char} (hc : c ≠ '\\') (rest : List Char) :
    unescape (c :: rest) = some (c, rest) := by
  unfold unescape
  split
  next h => exact absurd (List.cons.inj h).1 hc
  next h => exact absurd (List.cons.inj h).1 hc
  next h => cases h; rfl
  next h => cases h

theorem unescape_escape (c : Char) (rest : List Char) :
    unescape (escape c ++ rest) = some (c, rest) := by
  unfold escape
  repeat' split
  all_goals try (subst c; rfl)
  next hlow =>
    have hhigh : c.toNat / 16 < 16 := by omega
    have hlast : c.toNat % 16 < 16 := by omega
    have hsum : 16 * (c.toNat / 16) + c.toNat % 16 = c.toNat := by omega
    show some (Char.ofNat (16 * Digit.value (Digit.ofValue (c.toNat / 16)) +
      Digit.value (Digit.ofValue (c.toNat % 16))), rest) = _
    rw [Digit.value_ofValue _ hhigh, Digit.value_ofValue _ hlast, hsum, Char.ofNat_toNat]
  next hslash _ _ _ _ _ _ => exact unescape_plain hslash rest

/-- An escaped character is not taken for the closing quote. -/
theorem head_escape_ne (c : Char) (rest : List Char) : (escape c ++ rest).head? ≠ some '"' := by
  unfold escape
  repeat' split
  all_goals try (simp; done)
  next hquote _ _ _ _ _ _ _ => simpa using hquote

theorem escape_append_inj {c d : Char} {r s : List Char} (h : escape c ++ r = escape d ++ s) :
    c = d ∧ r = s := by
  have hread : some (c, r) = some (d, s) := by
    rw [← unescape_escape c r, h, unescape_escape]
  simpa using hread

theorem escaped_append_inj {r s : List Char} : ∀ {a b : List Char},
    a.flatMap escape ++ '"' :: r = b.flatMap escape ++ '"' :: s → a = b ∧ r = s
  | [], [], h => by simpa using h
  | [], d :: b, h => by
    rw [List.flatMap_cons, List.append_assoc] at h
    exact absurd (congrArg List.head? h).symm (head_escape_ne d _)
  | c :: a, [], h => by
    rw [List.flatMap_cons, List.append_assoc] at h
    exact absurd (congrArg List.head? h) (head_escape_ne c _)
  | c :: a, d :: b, h => by
    rw [List.flatMap_cons, List.flatMap_cons, List.append_assoc, List.append_assoc] at h
    obtain ⟨rfl, hrest⟩ := escape_append_inj h
    obtain ⟨rfl, hrs⟩ := escaped_append_inj hrest
    exact ⟨rfl, hrs⟩

/-- A quoted text ends at its own closing quote. -/
theorem quote_append_inj {a b : String} {r s : List Char} (h : quote a ++ r = quote b ++ s) :
    a = b ∧ r = s := by
  have hbody : a.toList.flatMap escape ++ '"' :: r = b.toList.flatMap escape ++ '"' :: s := by
    simpa [quote] using h
  obtain ⟨hab, hrs⟩ := escaped_append_inj hbody
  exact ⟨String.ext hab, hrs⟩

/-! ## Values -/

/-- The character that a value starts with. -/
def opener : Json → Char
  | text _ => '"'
  | list _ => '['
  | fields _ => '\x7b'

theorem head_chars (layout : Layout) (depth : Nat) (v : Json) (r : List Char) :
    (chars layout depth v ++ r).head? = some v.opener := by
  cases v with
  | text content => rfl
  | list items => cases items <;> rfl
  | fields entries => cases entries <;> rfl

theorem head_chars_ne_close (layout : Layout) (depth : Nat) (v : Json) (r : List Char) :
    (chars layout depth v ++ r).head? ≠ some ']' := by
  rw [head_chars]
  cases v <;> simp [opener]

theorem opener_eq_of_append_eq {layout : Layout} {depth : Nat} {v w : Json} {r s : List Char}
    (h : chars layout depth v ++ r = chars layout depth w ++ s) : v.opener = w.opener := by
  have hhead := congrArg List.head? h
  rw [head_chars, head_chars] at hhead
  exact Option.some_inj.1 hhead

/-- A line break is nothing, or it starts with a line feed. -/
theorem head_lineBreak (layout : Layout) (depth : Nat) (r : List Char) :
    (lineBreak layout depth ++ r).head? = r.head? ∨
      (lineBreak layout depth ++ r).head? = some '\n' := by
  cases layout
  · exact .inl rfl
  · exact .inr rfl

/-- Where the brackets close, no further item follows. -/
theorem head_close_ne_comma (layout : Layout) (depth : Nat) {c : Char} (hc : c ≠ ',')
    (r : List Char) : (lineBreak layout depth ++ c :: r).head? ≠ some ',' := by
  rcases head_lineBreak layout depth (c :: r) with h | h
  · rw [h]; simpa using hc
  · rw [h]; decide

/-- What closes at once is not what goes on with an item. -/
theorem close_ne_lineBreak (layout : Layout) (depth : Nat) {c : Char} (hc : c ≠ '\n')
    {r s : List Char} (hr : r.head? ≠ some c) : c :: s ≠ lineBreak layout depth ++ r := by
  intro h
  rcases head_lineBreak layout depth r with hb | hb
  · rw [← h] at hb; exact hr hb.symm
  · rw [← h] at hb; exact hc (by simpa using hb)

mutual

/-- **Unique readability.**  A value is determined by any text that it starts, and so is the rest of
that text. -/
theorem chars_append_inj (layout : Layout) : ∀ (depth : Nat) (v w : Json) {r s : List Char},
    chars layout depth v ++ r = chars layout depth w ++ s → v = w ∧ r = s
  | _, text a, w, r, s, h => by
    cases w with
    | text b =>
      obtain ⟨rfl, hrs⟩ := quote_append_inj h
      exact ⟨rfl, hrs⟩
    | list items => exact absurd (opener_eq_of_append_eq h) (by simp [opener])
    | fields entries => exact absurd (opener_eq_of_append_eq h) (by simp [opener])
  | depth, list [], w, r, s, h => by
    cases w with
    | text b => exact absurd (opener_eq_of_append_eq h) (by simp [opener])
    | fields entries => exact absurd (opener_eq_of_append_eq h) (by simp [opener])
    | list items =>
      cases items with
      | nil => exact ⟨rfl, by simpa [chars] using h⟩
      | cons item items =>
        simp only [chars, List.cons_append, List.append_assoc, List.cons.injEq, true_and] at h
        exact absurd h (close_ne_lineBreak layout _ (by decide) (head_chars_ne_close layout _ _ _))
  | depth, list (item :: items), w, r, s, h => by
    cases w with
    | text b => exact absurd (opener_eq_of_append_eq h) (by simp [opener])
    | fields entries => exact absurd (opener_eq_of_append_eq h) (by simp [opener])
    | list items' =>
      cases items' with
      | nil =>
        simp only [chars, List.cons_append, List.append_assoc, List.cons.injEq, true_and] at h
        exact absurd h.symm
          (close_ne_lineBreak layout _ (by decide) (head_chars_ne_close layout _ _ _))
      | cons item' items' =>
        simp only [chars, List.cons_append, List.append_assoc, List.cons.injEq, true_and,
          List.append_cancel_left_eq, List.nil_append] at h
        obtain ⟨rfl, hrest⟩ := chars_append_inj layout (depth + 1) item item' h
        obtain ⟨rfl, hclose⟩ := itemChars_append_inj layout (depth + 1) items items'
          (head_close_ne_comma layout depth (by decide) r)
          (head_close_ne_comma layout depth (by decide) s) hrest
        exact ⟨rfl, by simpa using hclose⟩
  | depth, fields [], w, r, s, h => by
    cases w with
    | text b => exact absurd (opener_eq_of_append_eq h) (by simp [opener])
    | list items => exact absurd (opener_eq_of_append_eq h) (by simp [opener])
    | fields entries =>
      cases entries with
      | nil => exact ⟨rfl, by simpa [chars] using h⟩
      | cons entry entries =>
        simp only [chars, List.cons_append, List.append_assoc, List.cons.injEq, true_and] at h
        exact absurd h (close_ne_lineBreak layout _ (by decide) (by simp [quote]))
  | depth, fields ((key, value) :: entries), w, r, s, h => by
    cases w with
    | text b => exact absurd (opener_eq_of_append_eq h) (by simp [opener])
    | list items => exact absurd (opener_eq_of_append_eq h) (by simp [opener])
    | fields entries' =>
      cases entries' with
      | nil =>
        simp only [chars, List.cons_append, List.append_assoc, List.cons.injEq, true_and] at h
        exact absurd h.symm (close_ne_lineBreak layout _ (by decide) (by simp [quote]))
      | cons entry' entries' =>
        obtain ⟨key', value'⟩ := entry'
        simp only [chars, List.cons_append, List.append_assoc, List.cons.injEq, true_and,
          List.append_cancel_left_eq, List.nil_append] at h
        obtain ⟨rfl, hvalue⟩ := quote_append_inj h
        rw [List.append_cancel_left_eq] at hvalue
        obtain ⟨rfl, hrest⟩ := chars_append_inj layout (depth + 1) value value' hvalue
        obtain ⟨rfl, hclose⟩ := fieldChars_append_inj layout (depth + 1) entries entries'
          (head_close_ne_comma layout depth (by decide) r)
          (head_close_ne_comma layout depth (by decide) s) hrest
        exact ⟨rfl, by simpa using hclose⟩

theorem itemChars_append_inj (layout : Layout) : ∀ (depth : Nat) (items items' : List Json)
    {r s : List Char}, r.head? ≠ some ',' → s.head? ≠ some ',' →
    itemChars layout depth items ++ r = itemChars layout depth items' ++ s → items = items' ∧ r = s
  | _, [], [], _, _, _, _, h => ⟨rfl, h⟩
  | _, [], _ :: _, r, _, hr, _, h => by
    rw [itemChars, List.nil_append] at h
    exact absurd (by rw [h]; rfl) hr
  | _, _ :: _, [], _, s, _, hs, h => by
    rw [itemChars.eq_1, List.nil_append] at h
    exact absurd (by rw [← h]; rfl) hs
  | depth, item :: items, item' :: items', r, s, hr, hs, h => by
    simp only [itemChars, List.cons_append, List.append_assoc, List.cons.injEq, true_and,
      List.append_cancel_left_eq] at h
    obtain ⟨rfl, hrest⟩ := chars_append_inj layout depth item item' h
    obtain ⟨rfl, hrs⟩ := itemChars_append_inj layout depth items items' hr hs hrest
    exact ⟨rfl, hrs⟩

theorem fieldChars_append_inj (layout : Layout) : ∀ (depth : Nat)
    (entries entries' : List (String × Json)) {r s : List Char},
    r.head? ≠ some ',' → s.head? ≠ some ',' →
    fieldChars layout depth entries ++ r = fieldChars layout depth entries' ++ s →
      entries = entries' ∧ r = s
  | _, [], [], _, _, _, _, h => ⟨rfl, h⟩
  | _, [], _ :: _, r, _, hr, _, h => by
    rw [fieldChars, List.nil_append] at h
    exact absurd (by rw [h]; rfl) hr
  | _, _ :: _, [], _, s, _, hs, h => by
    rw [fieldChars.eq_1, List.nil_append] at h
    exact absurd (by rw [← h]; rfl) hs
  | depth, (key, value) :: entries, (key', value') :: entries', r, s, hr, hs, h => by
    simp only [fieldChars, List.cons_append, List.append_assoc, List.cons.injEq, true_and,
      List.append_cancel_left_eq] at h
    obtain ⟨rfl, hvalue⟩ := quote_append_inj h
    rw [List.append_cancel_left_eq] at hvalue
    obtain ⟨rfl, hrest⟩ := chars_append_inj layout depth value value' hvalue
    obtain ⟨rfl, hrs⟩ := fieldChars_append_inj layout depth entries entries' hr hs hrest
    exact ⟨rfl, hrs⟩

end

end Json
end GrantCompiler
