import GrantCompiler.Proofs.Json.Fillers
import GrantCompiler.Proofs.Policy.Text

/-!
# One record to a line

The compact text is made to be read line by line: a line feed ends each record, and none can stand
inside one, because a compact record has no control characters at all.  So its lines are the records
(`splitOn_recordChars`), and there are as many line feeds as records (`count_recordChars`).

The indented text spreads every record over several lines, but it says the same: without its fillers
each record is the compact one (`Policy.condense_record`).  This includes the line feeds that end
the records, so the text as a whole condenses to the compact text without its line ends.
-/

set_option autoImplicit false

namespace GrantCompiler

/-! ## One record -/

namespace Policy

theorem toList_record (layout : Layout) (p : Policy) :
    (p.record layout).toList = p.json.chars layout 0 := by
  rw [record, Json.render, String.toList_ofList]

/-- The indented record is the compact one with fillers. -/
theorem condense_record (layout : Layout) (p : Policy) :
    Json.condense .between (p.record layout).toList = (p.record .compact).toList := by
  rw [toList_record, toList_record]
  exact (Json.condenses_chars layout 0 0 p.json).eq

theorem lineFeed_not_mem_chars (p : Policy) : '\n' ∉ p.json.chars .compact 0 := by
  intro h
  exact absurd (Json.le_of_mem_chars 0 p.json '\n' h) (by decide)

end Policy

/-! ## All records -/

section Records

variable (ps : List Policy)

theorem recordChars_cons (layout : Layout) (p : Policy) :
    recordChars layout (p :: ps) = p.json.chars layout 0 ++ '\n' :: recordChars layout ps := by
  rw [recordChars, List.flatMap_cons, List.append_assoc]
  rfl

theorem condenses_recordChars (layout : Layout) :
    Json.Condenses (recordChars layout ps) (ps.flatMap fun p => p.json.chars .compact 0) := by
  induction ps with
  | nil => exact Json.condenses_nil
  | cons p rest ih =>
    have hrecord := Json.condenses_chars layout 0 0 p.json
    have hend : Json.Condenses ['\n'] [] := Json.condenses_fillers (by simp)
    have hall := (hrecord.append hend).append ih
    rwa [List.append_nil] at hall

theorem filter_recordChars :
    (recordChars .compact ps).filter (· ≠ '\n') = ps.flatMap fun p => p.json.chars .compact 0 := by
  induction ps with
  | nil => rfl
  | cons p rest ih =>
    have hrecord : (p.json.chars .compact 0).filter (· ≠ '\n') = p.json.chars .compact 0 := by
      refine List.filter_eq_self.2 ?_
      intro c hc
      exact decide_eq_true fun h => p.lineFeed_not_mem_chars (h ▸ hc)
    rw [recordChars_cons, List.filter_append, hrecord, List.filter_cons_of_neg (by simp), ih,
      List.flatMap_cons]

theorem count_recordChars : (recordChars .compact ps).count '\n' = ps.length := by
  induction ps with
  | nil => rfl
  | cons p rest ih =>
    rw [recordChars_cons, List.count_append, List.count_eq_zero_of_not_mem p.lineFeed_not_mem_chars,
      List.count_cons_self, ih, List.length_cons]
    omega

/-- Nothing stands after the last line feed. -/
theorem splitOn_recordChars :
    (recordChars .compact ps).splitOn '\n' = (ps.map fun p => p.json.chars .compact 0) ++ [[]] := by
  induction ps with
  | nil => rfl
  | cons p rest ih =>
    rw [recordChars_cons, List.splitOn_append_cons_self_of_not_mem p.lineFeed_not_mem_chars, ih]
    rfl

theorem eq_lineFeed_of_mem_recordChars :
    ∀ c ∈ recordChars .compact ps, c.toNat < 32 → c = '\n' := by
  intro c hc hcontrol
  obtain ⟨p, -, hc⟩ := List.mem_flatMap.1 hc
  rcases List.mem_append.1 hc with hc | hc
  · have hle := Json.le_of_mem_chars 0 p.json c hc
    omega
  · exact List.mem_singleton.1 hc

end Records

namespace Policies

/-- **Two layouts of the same records, one of them a record to a line.**  Without the blanks and
line feeds that stand outside quoted texts, the indented text is the compact text without its line
ends, and each of its records is the compact one.  The compact text has a line feed for every record
that writing either of them reports, and no other control character, and its lines are the
records. -/
theorem text_layouts (m : Policies) :
    Json.condense .between (m.text .indented).toList =
      (m.text .compact).toList.filter (· ≠ '\n') ∧
    (∀ p ∈ m.granting,
      Json.condense .between (p.record .indented).toList = (p.record .compact).toList) ∧
    (m.text .compact).toList.count '\n' = m.granting.length ∧
    (∀ (layout : Layout) (d : Device), d.Takes layout m →
      (d.writePolicies layout m).1.received = d.received ++ utf8 (m.text layout) ∧
      (d.writePolicies layout m).2 = .ok ((m.text .compact).toList.count '\n')) ∧
    (∀ c ∈ (m.text .compact).toList, c.toNat < 32 → c = '\n') ∧
    (m.text .compact).toList.splitOn '\n' =
      (m.granting.map fun p => (p.record .compact).toList) ++ [[]] := by
  have hcount : (m.text .compact).toList.count '\n' = m.granting.length := by
    rw [toList_text, count_recordChars]
  refine ⟨?_, fun p _ => p.condense_record .indented, hcount, ?_, ?_, ?_⟩
  · rw [toList_text, toList_text, filter_recordChars]
    exact (condenses_recordChars m.granting .indented).eq
  · intro layout d hd
    obtain ⟨hwritten, hreceived⟩ := hd.writePolicies
    rw [hcount]
    exact ⟨hreceived, hwritten⟩
  · rw [toList_text]
    exact eq_lineFeed_of_mem_recordChars m.granting
  · rw [toList_text, splitOn_recordChars]
    simp only [Policy.toList_record]

/-! ### Names that look like layout -/

namespace LayoutInNames

/-- A line feed in a resource, quotes and a colon in a role, and a backslash at the end of a member.
The third resource is addressed only. -/
def policies : Policies :=
  ofGrants [⟨⟨"a\n b"⟩, [⟨"\"r\" : s"⟩], ⟨"x\\"⟩⟩, ⟨⟨"c"⟩, [⟨"r"⟩], ⟨"y"⟩⟩, ⟨⟨"d"⟩, [], ⟨"y"⟩⟩]

/-- A device with room for both records. -/
def device : Device := ⟨200, "disk full", none, []⟩

/-- The two records, and nothing after the last line feed. -/
def lines : List String := [
  "\x7b\"resource\":\"a\\n b\",\"bindings\":[\x7b\"role\":\"\\\"r\\\" : s\"," ++
    "\"members\":[\"serviceAccount:x\\\\\"]\x7d]\x7d",
  "\x7b\"resource\":\"c\",\"bindings\":[\x7b\"role\":\"r\"," ++
    "\"members\":[\"serviceAccount:y\"]\x7d]\x7d",
  ""]

theorem two_lines : device.Takes .compact policies ∧
    (device.writePolicies .compact policies).2 = .ok 2 ∧
    ((policies.text .compact).toList.splitOn '\n').map String.ofList = lines ∧
    (policies.text .indented).toList.count '\n' = 22 ∧
    Json.condense .between (policies.text .indented).toList =
      (policies.text .compact).toList.filter (· ≠ '\n') := by
  have htakes : device.Takes .compact policies := ⟨by decide +kernel, rfl⟩
  obtain ⟨hcondensed, -, hcount, hwritten, -, hlines⟩ := text_layouts policies
  refine ⟨htakes, ?_, ?_, ?_, hcondensed⟩
  · rw [(hwritten .compact device htakes).2, hcount]
    rfl
  · rw [hlines]
    simp only [Policy.toList_record]
    decide +kernel
  · rw [toList_text]
    decide +kernel

end LayoutInNames

end Policies

end GrantCompiler
