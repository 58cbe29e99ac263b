import GrantCompiler.Proofs.Policy.Writing

/-!
# Where a device refuses

A device that takes a limited number of bytes may stop anywhere in the text: inside a record, be it
in the middle of an escape or of a character, at the line feed that ends a record, or not before the
end, where it can still refuse to be flushed.  `Proofs.Policy.Writing` says when writing succeeds
and what has been received; this file says how it fails.

A place in the text is a number of bytes.  `InRecord` and `AtRecordEnd` say on which side of the end
of a record it is, and every place before the end of the text is on one of the two
(`lt_length_recordBytes_iff`).  `Device.Ends` then reads off how the writing ends, from the place
where the device is full, and `Device.writePolicies_ends` is the result: that is how it ends.

Records are offered to the device whole, and nothing hangs on it: a record that is offered piece by
piece, up to the first refusal, comes to the same (`Device.writePieces_eq`).
-/

set_option autoImplicit false

namespace GrantCompiler

variable (layout : Layout)

/-! ## Places in the text -/

/-- The byte at a place belongs to a record. -/
def InRecord (ps : List Policy) (n : Nat) : Prop :=
  ∃ before p after, ps = before ++ p :: after ∧
    (recordBytes layout before).length ≤ n ∧
      n < (recordBytes layout before).length + (utf8 (p.record layout)).length

/-- The byte at a place is the line feed that ends a record. -/
def AtRecordEnd (ps : List Policy) (n : Nat) : Prop :=
  ∃ before p after, ps = before ++ p :: after ∧
    n = (recordBytes layout before).length + (utf8 (p.record layout)).length

variable {layout} {ps : List Policy} {n : Nat}

theorem recordBytes_append (before rest : List Policy) :
    recordBytes layout (before ++ rest) = recordBytes layout before ++ recordBytes layout rest :=
  List.flatMap_append

theorem recordBytes_split (before : List Policy) (p : Policy) (after : List Policy) :
    recordBytes layout (before ++ p :: after) =
      recordBytes layout before ++ (utf8 (p.record layout) ++
        utf8 "\n" ++ recordBytes layout after) := by
  rw [recordBytes_append, recordBytes, recordBytes, List.flatMap_cons, recordBytes]

theorem length_lineFeed : (utf8 "\n").length = 1 := rfl

theorem InRecord.lt_length (h : InRecord layout ps n) : n < (recordBytes layout ps).length := by
  obtain ⟨before, p, after, rfl, -, hlt⟩ := h
  simp only [recordBytes_split, List.length_append]
  omega

theorem AtRecordEnd.lt_length (h : AtRecordEnd layout ps n) :
    n < (recordBytes layout ps).length := by
  obtain ⟨before, p, after, rfl, rfl⟩ := h
  simp only [recordBytes_split, List.length_append, length_lineFeed]
  omega

theorem AtRecordEnd.getElem?_eq (h : AtRecordEnd layout ps n) :
    (recordBytes layout ps)[n]? = some 0x0a := by
  obtain ⟨before, p, after, rfl, rfl⟩ := h
  rw [recordBytes_split, List.getElem?_append_right (by omega), Nat.add_sub_cancel_left,
    List.append_assoc, List.getElem?_append_right (Nat.le_refl _), Nat.sub_self]
  rfl

/-- A place after the first record is a place in the others. -/
theorem InRecord.cons (p : Policy) (h : InRecord layout ps n) :
    InRecord layout (p :: ps) ((recordBytes layout [p]).length + n) := by
  obtain ⟨before, q, after, rfl, hle, hlt⟩ := h
  refine ⟨p :: before, q, after, rfl, ?_⟩
  rw [Device.recordBytes_cons, List.length_append]
  omega

theorem AtRecordEnd.cons (p : Policy) (h : AtRecordEnd layout ps n) :
    AtRecordEnd layout (p :: ps) ((recordBytes layout [p]).length + n) := by
  obtain ⟨before, q, after, rfl, rfl⟩ := h
  refine ⟨p :: before, q, after, rfl, ?_⟩
  rw [Device.recordBytes_cons layout p before, List.length_append, Nat.add_assoc]

/-- The text consists of records and line feeds. -/
theorem lt_length_recordBytes_iff :
    n < (recordBytes layout ps).length ↔ InRecord layout ps n ∨ AtRecordEnd layout ps n := by
  refine ⟨fun h => ?_, fun h => h.elim InRecord.lt_length AtRecordEnd.lt_length⟩
  induction ps generalizing n with
  | nil => simp [recordBytes] at h
  | cons p rest ih =>
    have hfirst : (recordBytes layout [p]).length = (utf8 (p.record layout)).length + 1 := by
      simp [recordBytes, length_lineFeed]
    rcases Nat.lt_trichotomy n (utf8 (p.record layout)).length with hlt | heq | hgt
    · exact .inl ⟨[], p, rest, rfl, Nat.zero_le n, by simpa [recordBytes] using hlt⟩
    · exact .inr ⟨[], p, rest, rfl, by simpa [recordBytes] using heq⟩
    · rw [Device.recordBytes_cons, List.length_append] at h
      obtain ⟨k, rfl⟩ : ∃ k, n = (recordBytes layout [p]).length + k :=
        ⟨n - (recordBytes layout [p]).length, by omega⟩
      exact (ih (by omega)).imp (InRecord.cons p) (AtRecordEnd.cons p)

/-! ## Up to the refusal -/

namespace Device

variable {d : Device} {m : Policies}

@[simp] theorem refusal_write (d : Device) (bytes : List UInt8) :
    (d.write bytes).1.refusal = d.refusal := rfl

/-- Writes pieces in order, up to the first that is not taken whole. -/
def writePieces (d : Device) : List (List UInt8) → Device × Bool
  | [] => (d, true)
  | piece :: rest =>
    match d.write piece with
    | (d, true) => d.writePieces rest
    | refused => refused

theorem write_nil (d : Device) : d.write [] = (d, true) := by
  simp [write]

/-- It makes no difference how the bytes are cut into pieces. -/
theorem writePieces_eq (pieces : List (List UInt8)) (d : Device) :
    d.writePieces pieces = d.write pieces.flatten := by
  induction pieces generalizing d with
  | nil => exact d.write_nil.symm
  | cons piece rest ih =>
    have hdevice : d.write piece = ((d.write piece).1, decide (piece.length ≤ d.room)) := rfl
    rw [writePieces, List.flatten_cons, hdevice]
    by_cases hroom : piece.length ≤ d.room
    · rw [decide_eq_true hroom]
      refine (ih _).trans (Prod.ext device_write_append.symm (decide_eq_decide.2 ?_))
      rw [room_write, List.length_append]
      omega
    · rw [decide_eq_false hroom]
      refine Prod.ext (device_write_append_of_lt (by omega)).symm (decide_eq_false ?_).symm
      rw [List.length_append]
      omega

/-! ### One record -/

theorem writeRecord_of_le {p : Policy} (h : (recordBytes layout [p]).length ≤ d.room) :
    d.writeRecord layout p = ((d.write (recordBytes layout [p])).1, .ok ()) :=
  Prod.ext (device_writeRecord layout p d) ((writeRecord_eq_ok_iff layout p d).2 h)

theorem writeRecord_of_lt {p : Policy} (h : d.room < (utf8 (p.record layout)).length) :
    (d.writeRecord layout p).2 = .error (.record d.refusal) := by
  rw [writeRecord, writeText_of_lt h]
  rfl

theorem writeRecord_of_eq {p : Policy} (h : d.room = (utf8 (p.record layout)).length) :
    (d.writeRecord layout p).2 = .error (.device d.refusal) := by
  have hfull : (d.write (utf8 (p.record layout))).1.room < (utf8 "\n").length := by
    rw [room_write, length_lineFeed]
    omega
  rw [writeRecord, writeText_of_le (Nat.le_of_eq h.symm)]
  simp only
  rw [writeText_of_lt hfull]
  rfl

/-! ### All records -/

/-- What fits is written, and the rest goes to the device as that leaves it. -/
theorem writeRecords_append {before : List Policy} (rest : List Policy)
    (h : (recordBytes layout before).length ≤ d.room) :
    d.writeRecords layout (before ++ rest) =
      (d.write (recordBytes layout before)).1.writeRecords layout rest := by
  induction before generalizing d with
  | nil =>
    have hnil : recordBytes layout [] = [] := rfl
    rw [hnil, write_nil]
    rfl
  | cons p before ih =>
    rw [recordBytes_cons, List.length_append] at h
    have hbefore : (recordBytes layout before).length ≤
        (d.write (recordBytes layout [p])).1.room := by
      rw [room_write]
      omega
    rw [List.cons_append, writeRecords, writeRecord_of_le (by omega),
      recordBytes_cons layout p before, device_write_append]
    exact ih hbefore

theorem writeRecords_error {p : Policy} {rest : List Policy} {e : WriteFailure}
    (h : (d.writeRecord layout p).2 = .error e) :
    (d.writeRecords layout (p :: rest)).2 = .error e := by
  rw [writeRecords]
  rcases hrecord : d.writeRecord layout p with ⟨d', o⟩
  rw [hrecord] at h
  cases h
  rfl

theorem writeRecords_of_inRecord (h : InRecord layout ps d.room) :
    (d.writeRecords layout ps).2 = .error (.record d.refusal) := by
  obtain ⟨before, p, after, rfl, hle, hlt⟩ := h
  rw [writeRecords_append (p :: after) hle]
  refine writeRecords_error (writeRecord_of_lt ?_)
  rw [room_write]
  omega

theorem writeRecords_of_atRecordEnd (h : AtRecordEnd layout ps d.room) :
    (d.writeRecords layout ps).2 = .error (.device d.refusal) := by
  obtain ⟨before, p, after, rfl, heq⟩ := h
  rw [writeRecords_append (p :: after) (by omega)]
  refine writeRecords_error (writeRecord_of_eq ?_)
  rw [room_write]
  omega

theorem writeRecords_of_unflushed {refusal : String}
    (hroom : (recordBytes layout ps).length ≤ d.room) (hflush : d.flushRefusal = some refusal) :
    (d.writeRecords layout ps).2 = .error (.device refusal) := by
  rw [← List.append_nil ps, writeRecords_append [] hroom, writeRecords, flush, flushRefusal_write,
    hflush]

theorem writePolicies_eq (d : Device) (m : Policies) :
    d.writePolicies layout m = ((d.writeRecords layout m.granting).1,
      (d.writeRecords layout m.granting).2.map fun _ => m.granting.length) := by
  rw [writePolicies]
  rcases d.writeRecords layout m.granting with ⟨d', _ | _⟩ <;> rfl

variable (layout)

/-- How writing to a device ends, told by the place where it is full. -/
inductive Ends (d : Device) (m : Policies) : Except WriteFailure Nat → Prop
  | taken (room : (utf8 (m.text layout)).length ≤ d.room) (flush : d.flushRefusal = none) :
      Ends d m (.ok m.granting.length)
  | unflushed (room : (utf8 (m.text layout)).length ≤ d.room) {refusal : String}
      (flush : d.flushRefusal = some refusal) : Ends d m (.error (.device refusal))
  | inRecord (place : InRecord layout m.granting d.room) :
      Ends d m (.error (.record d.refusal))
  | atRecordEnd (place : AtRecordEnd layout m.granting d.room) :
      Ends d m (.error (.device d.refusal))

variable {layout}

theorem Ends.eq {o : Except WriteFailure Nat} (h : d.Ends layout m o) :
    (d.writePolicies layout m).2 = o := by
  cases h with
  | taken hroom hflush => exact (Takes.writePolicies ⟨hroom, hflush⟩).1
  | unflushed hroom hflush =>
    rw [utf8_text] at hroom
    rw [writePolicies_eq, writeRecords_of_unflushed hroom hflush]
    rfl
  | inRecord hplace =>
    rw [writePolicies_eq, writeRecords_of_inRecord hplace]
    rfl
  | atRecordEnd hplace =>
    rw [writePolicies_eq, writeRecords_of_atRecordEnd hplace]
    rfl

theorem exists_ends (d : Device) (m : Policies) : ∃ o, d.Ends layout m o := by
  rcases Nat.lt_or_ge d.room (utf8 (m.text layout)).length with hlt | hge
  · rw [utf8_text, lt_length_recordBytes_iff] at hlt
    exact hlt.elim (fun hplace => ⟨_, .inRecord hplace⟩) fun hplace => ⟨_, .atRecordEnd hplace⟩
  · cases hflush : d.flushRefusal with
    | none => exact ⟨_, .taken hge hflush⟩
    | some refusal => exact ⟨_, .unflushed hge hflush⟩

theorem writePolicies_eq_iff {o : Except WriteFailure Nat} :
    (d.writePolicies layout m).2 = o ↔ d.Ends layout m o := by
  obtain ⟨o', h⟩ : ∃ o, d.Ends layout m o := exists_ends d m
  refine ⟨?_, Ends.eq⟩
  rintro rfl
  rw [h.eq]
  exact h

/-- No place is on both sides of the end of a record. -/
theorem not_atRecordEnd_of_inRecord (h : InRecord layout ps n) : ¬ AtRecordEnd layout ps n := by
  intro hend
  have hrecord := writeRecords_of_inRecord (d := ⟨n, "", none, []⟩) h
  rw [writeRecords_of_atRecordEnd (d := ⟨n, "", none, []⟩) hend] at hrecord
  cases hrecord

/-- **Where a device refuses.**  It has received as much of the text as it takes.  The writing ends
well, with the number of records, exactly if that is all of the text and the device can be flushed.
If the device is full before the end, it refuses either a byte of a record or the line feed after
one, and the two failures tell which.  A record may be offered in any pieces. -/
theorem writePolicies_ends (layout : Layout) (d : Device) (m : Policies) :
    (d.writePolicies layout m).1.received =
      d.received ++ (utf8 (m.text layout)).take (min d.room (utf8 (m.text layout)).length) ∧
    (∀ o, (d.writePolicies layout m).2 = o ↔ d.Ends layout m o) ∧
    (∀ n, n < (utf8 (m.text layout)).length ↔
      InRecord layout m.granting n ∨ AtRecordEnd layout m.granting n) ∧
    (∀ n, AtRecordEnd layout m.granting n →
      ¬ InRecord layout m.granting n ∧ (utf8 (m.text layout))[n]? = some 0x0a) ∧
    ∀ pieces, d.writePieces pieces = d.write pieces.flatten := by
  refine ⟨?_, fun o => writePolicies_eq_iff, fun n => ?_, fun n hend => ⟨fun hin => ?_, ?_⟩,
    fun pieces => writePieces_eq pieces d⟩
  · rw [writePolicies_eq, device_writeRecords, received_write, utf8_text, ← List.take_eq_take_min]
  · rw [utf8_text]
    exact lt_length_recordBytes_iff
  · exact not_atRecordEnd_of_inRecord hin hend
  · rw [utf8_text]
    exact hend.getElem?_eq

/-! ### A cut through a character

The resource is written with two bytes, the second of which the device refuses. -/

namespace CutCharacter

/-- A resource whose name takes two bytes. -/
def policies : Policies := .ofGrants [⟨⟨"é"⟩, [⟨"r"⟩], ⟨"x"⟩⟩]

/-- A device that takes one of them. -/
def device : Device := ⟨14, "disk full", none, []⟩

theorem refused_inside :
    (device.writePolicies .compact policies).2 = .error (.record "disk full") ∧
    (device.writePolicies .compact policies).1.received.getLast? = some 0xc3 := by
  obtain ⟨hreceived, hends, -⟩ := writePolicies_ends .compact device policies
  refine ⟨(hends _).2 (.inRecord ?_), ?_⟩
  · exact ⟨[], (Policy.ofResource ⟨"é"⟩).add [⟨"r"⟩] ⟨"x"⟩, [], rfl, by decide +kernel,
      by decide +kernel⟩
  · rw [hreceived]
    decide +kernel

end CutCharacter

end Device

end GrantCompiler
