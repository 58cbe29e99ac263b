import GrantCompiler.Json

/-!
# What the layouts of a value differ in

The two layouts differ in blanks and line feeds, and only in those that stand between the quoted
texts of a value: what stands inside a quoted text is content.  Telling the two apart takes a scan
that goes from quote to quote and is not misled by a quote that is escaped (`Place`).  `condense`
leaves out the fillers that such a scan meets.

* `Condenses` — a text that begins and ends between quoted texts, and what condensing leaves of it.
  Such texts are condensed one after the other, whatever follows them.
* `condenses_chars` — in either layout and at any depth, a value condenses to its compact text.
* `le_of_mem_chars` — a compact text has no control characters, whatever is quoted in it.
-/

set_option autoImplicit false

namespace GrantCompiler
namespace Json

/-! ## Scanning -/

/-- Where a scan of a text has got to. -/
inductive Place
  | between
  | quoted
  /-- Inside a quoted text, after a backslash. -/
  | escaped
deriving DecidableEq

namespace Place

/-- The place after a character. -/
def next : Place → Char → Place
  | between, c => if c = '"' then quoted else between
  | quoted, c => if c = '"' then between else if c = '\\' then escaped else quoted
  | escaped, _ => quoted

/-- Whether a character that is met here is a blank or a line feed outside all quoted texts. -/
def isFiller (place : Place) (c : Char) : Bool :=
  place = between && (c = ' ' || c = '\n')

end Place

/-- A text without its fillers, scanned from a place on. -/
def condense (place : Place) : List Char → List Char
  | [] => []
  | c :: rest =>
    if place.isFiller c then condense (place.next c) rest
    else c :: condense (place.next c) rest

/-! ## Quoted texts -/

theorem condense_quoted_cons {c : Char} (hquote : c ≠ '"') (hslash : c ≠ '\\') (rest : List Char) :
    condense .quoted (c :: rest) = c :: condense .quoted rest := by
  simp [condense, Place.isFiller, Place.next, hquote, hslash]

/-- Whatever follows a backslash is content. -/
theorem condense_quoted_slash (mark : Char) (rest : List Char) :
    condense .quoted ('\\' :: mark :: rest) = '\\' :: mark :: condense .quoted rest := by
  simp [condense, Place.isFiller, Place.next]

theorem ofValue_ne : ∀ n < 16, Digit.ofValue n ≠ '"' ∧ Digit.ofValue n ≠ '\\' := by decide

/-- A character keeps the scan inside its quoted text, in whatever way it is written. -/
theorem condense_escape (c : Char) (rest : List Char) :
    condense .quoted (escape c ++ rest) = escape c ++ condense .quoted rest := by
  unfold escape
  repeat' split
  all_goals try exact condense_quoted_slash _ rest
  next hlow =>
    obtain ⟨hquote, hslash⟩ := ofValue_ne (c.toNat / 16) (by omega)
    obtain ⟨hquote', hslash'⟩ := ofValue_ne (c.toNat % 16) (by omega)
    show condense .quoted ('\\' :: 'u' :: '0' :: '0' :: Digit.ofValue (c.toNat / 16) ::
      Digit.ofValue (c.toNat % 16) :: rest) = _
    rw [condense_quoted_slash, condense_quoted_cons (by decide) (by decide),
      condense_quoted_cons (by decide) (by decide), condense_quoted_cons hquote hslash,
      condense_quoted_cons hquote' hslash']
    rfl
  next hquote hslash _ _ _ _ _ _ => exact condense_quoted_cons hquote hslash rest

theorem condense_escaped (content rest : List Char) :
    condense .quoted (content.flatMap escape ++ rest) =
      content.flatMap escape ++ condense .quoted rest := by
  induction content with
  | nil => rfl
  | cons c content ih =>
    rw [List.flatMap_cons, List.append_assoc, condense_escape, ih, List.append_assoc]

/-! ## Values -/

/-- A text that begins and ends between quoted texts, and what condensing leaves of it. -/
def Condenses (cs ds : List Char) : Prop :=
  ∀ rest, condense .between (cs ++ rest) = ds ++ condense .between rest

section Condensing

variable {cs ds cs' ds' : List Char}

theorem Condenses.eq (h : Condenses cs ds) : condense .between cs = ds := by
  simpa [condense] using h []

theorem condenses_nil : Condenses [] [] := fun _ => rfl

theorem Condenses.append (h : Condenses cs ds) (h' : Condenses cs' ds') :
    Condenses (cs ++ cs') (ds ++ ds') := by
  intro rest
  rw [List.append_assoc, h, h', List.append_assoc]

/-- What stands between quoted texts is kept unless it is a filler. -/
theorem Condenses.cons {c : Char} (hc : c ≠ '"' ∧ c ≠ ' ' ∧ c ≠ '\n') (h : Condenses cs ds) :
    Condenses (c :: cs) (c :: ds) := by
  intro rest
  have hstep : condense .between (c :: (cs ++ rest)) = c :: condense .between (cs ++ rest) := by
    simp [condense, Place.isFiller, Place.next, hc]
  rw [List.cons_append, hstep, h, List.cons_append]

theorem condenses_fillers (hcs : ∀ c ∈ cs, c = ' ' ∨ c = '\n') : Condenses cs [] := by
  intro rest
  induction cs with
  | nil => rfl
  | cons c cs ih =>
    obtain ⟨hc, htail⟩ := List.forall_mem_cons.1 hcs
    have hstep : condense .between (c :: (cs ++ rest)) = condense .between (cs ++ rest) := by
      rcases hc with rfl | rfl <;> rfl
    rw [List.cons_append, hstep]
    exact ih htail

end Condensing

theorem condenses_quote (content : String) : Condenses (quote content) (quote content) := by
  intro rest
  have hbody := condense_escaped content.toList ('"' :: rest)
  have hclose : condense .quoted ('"' :: rest) = '"' :: condense .between rest := rfl
  rw [hclose] at hbody
  show condense .between ('"' :: content.toList.flatMap escape ++ ['"'] ++ rest) = _
  rw [List.append_assoc, quote, List.append_assoc]
  exact congrArg ('"' :: ·) hbody

theorem condenses_lineBreak (layout : Layout) (depth depth' : Nat) :
    Condenses (lineBreak layout depth) (lineBreak .compact depth') := by
  refine condenses_fillers ?_
  intro c hc
  cases layout with
  | compact => cases hc
  | indented =>
    rcases List.mem_cons.1 hc with rfl | hc
    · exact .inr rfl
    · exact .inl (List.eq_of_mem_replicate hc)

theorem condenses_colon (layout : Layout) : Condenses (colon layout) (colon .compact) := by
  cases layout with
  | compact => exact condenses_nil.cons (by decide)
  | indented => exact (condenses_fillers (by simp)).cons (by decide)

mutual

/-- **The layouts of a value differ in fillers only.** -/
theorem condenses_chars (layout : Layout) : ∀ (depth depth' : Nat) (v : Json),
    Condenses (chars layout depth v) (chars .compact depth' v)
  | _, _, text content => condenses_quote content
  | _, _, list [] => (condenses_nil.cons (by decide)).cons (by decide)
  | depth, depth', list (item :: items) => by
    have hopen := (condenses_lineBreak layout (depth + 1) (depth' + 1)).cons
      (c := '[') (by decide)
    have hitem := condenses_chars layout (depth + 1) (depth' + 1) item
    have hitems := condenses_itemChars layout (depth + 1) (depth' + 1) items
    have hclose := (condenses_lineBreak layout depth depth').append
      (condenses_nil.cons (c := ']') (by decide))
    have hall := ((hopen.append hitem).append hitems).append hclose
    rw [← List.append_assoc, ← List.append_assoc] at hall
    rw [chars, chars]
    exact hall
  | _, _, fields [] => (condenses_nil.cons (by decide)).cons (by decide)
  | depth, depth', fields ((key, value) :: entries) => by
    have hopen := (condenses_lineBreak layout (depth + 1) (depth' + 1)).cons
      (c := '\x7b') (by decide)
    have hkey := (hopen.append (condenses_quote key)).append (condenses_colon layout)
    have hvalue := condenses_chars layout (depth + 1) (depth' + 1) value
    have hentries := condenses_fieldChars layout (depth + 1) (depth' + 1) entries
    have hclose := (condenses_lineBreak layout depth depth').append
      (condenses_nil.cons (c := '\x7d') (by decide))
    have hall := ((hkey.append hvalue).append hentries).append hclose
    rw [← List.append_assoc, ← List.append_assoc] at hall
    rw [chars, chars]
    exact hall

theorem condenses_itemChars (layout : Layout) : ∀ (depth depth' : Nat) (items : List Json),
    Condenses (itemChars layout depth items) (itemChars .compact depth' items)
  | _, _, [] => condenses_nil
  | depth, depth', item :: items => by
    have hcomma := (condenses_lineBreak layout depth depth').cons (c := ',') (by decide)
    have hitem := condenses_chars layout depth depth' item
    have hitems := condenses_itemChars layout depth depth' items
    rw [itemChars, itemChars]
    exact (hcomma.append hitem).append hitems

theorem condenses_fieldChars (layout : Layout) :
    ∀ (depth depth' : Nat) (entries : List (String × Json)),
      Condenses (fieldChars layout depth entries) (fieldChars .compact depth' entries)
  | _, _, [] => condenses_nil
  | depth, depth', (key, value) :: entries => by
    have hcomma := (condenses_lineBreak layout depth depth').cons (c := ',') (by decide)
    have hkey := (hcomma.append (condenses_quote key)).append (condenses_colon layout)
    have hvalue := condenses_chars layout depth depth' value
    have hentries := condenses_fieldChars layout depth depth' entries
    rw [fieldChars, fieldChars]
    exact (hkey.append hvalue).append hentries

end

/-! ## Control characters -/

theorem le_ofValue : ∀ n < 16, 32 ≤ (Digit.ofValue n).toNat := by decide

theorem le_of_mem_escape (c : Char) : ∀ d ∈ escape c, 32 ≤ d.toNat := by
  unfold escape
  repeat' split
  all_goals try (simp; done)
  next hlow =>
    have hhigh := le_ofValue (c.toNat / 16) (by omega)
    have hlast := le_ofValue (c.toNat % 16) (by omega)
    simp [Digit.hexPair, hhigh, hlast]
  next hc => simpa using hc

theorem le_of_mem_quote (content : String) : ∀ d ∈ quote content, 32 ≤ d.toNat := by
  have hbody : ∀ d ∈ content.toList.flatMap escape, 32 ≤ d.toNat := by
    intro d hd
    obtain ⟨c, -, hd⟩ := List.mem_flatMap.1 hd
    exact le_of_mem_escape c d hd
  rw [quote, List.forall_mem_append, List.forall_mem_cons]
  exact ⟨⟨by decide, hbody⟩, by simp⟩

mutual

/-- **No control character is met in a compact text**, for all those in its contents are escaped. -/
theorem le_of_mem_chars : ∀ (depth : Nat) (v : Json), ∀ c ∈ chars .compact depth v, 32 ≤ c.toNat
  | _, text content => le_of_mem_quote content
  | _, list [] => by simp [chars]
  | depth, list (item :: items) => by
    have hitem := le_of_mem_chars (depth + 1) item
    have hitems := le_of_mem_itemChars (depth + 1) items
    simpa [chars, lineBreak, or_imp, forall_and] using ⟨hitem, hitems⟩
  | _, fields [] => by simp [chars]
  | depth, fields ((key, value) :: entries) => by
    have hkey := le_of_mem_quote key
    have hvalue := le_of_mem_chars (depth + 1) value
    have hentries := le_of_mem_fieldChars (depth + 1) entries
    simpa [chars, lineBreak, colon, or_imp, forall_and] using ⟨hkey, hvalue, hentries⟩

theorem le_of_mem_itemChars : ∀ (depth : Nat) (items : List Json),
    ∀ c ∈ itemChars .compact depth items, 32 ≤ c.toNat
  | _, [] => by simp [itemChars]
  | depth, item :: items => by
    have hitem := le_of_mem_chars depth item
    have hitems := le_of_mem_itemChars depth items
    simpa [itemChars, lineBreak, or_imp, forall_and] using ⟨hitem, hitems⟩

theorem le_of_mem_fieldChars : ∀ (depth : Nat) (entries : List (String × Json)),
    ∀ c ∈ fieldChars .compact depth entries, 32 ≤ c.toNat
  | _, [] => by simp [fieldChars]
  | depth, (key, value) :: entries => by
    have hkey := le_of_mem_quote key
    have hvalue := le_of_mem_chars depth value
    have hentries := le_of_mem_fieldChars depth entries
    simpa [fieldChars, lineBreak, colon, or_imp, forall_and] using ⟨hkey, hvalue, hentries⟩

end

end Json
end GrantCompiler
