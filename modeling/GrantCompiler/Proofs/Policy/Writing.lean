import GrantCompiler.Policy.Record

/-!
# Writing records to a device

Records are written piece by piece, and the writing stops at the first piece that the device does
not take whole.  To the device it makes no difference: it ends as if all the bytes had been offered
to it at once (`Device.device_writeRecords`), because a piece that is not taken whole leaves no room
for anything after it.  Whether the writing succeeds is likewise a matter of the whole text only
(`Device.writeRecords_eq_ok_iff`).
-/

set_option autoImplicit false

namespace GrantCompiler

/-! ## Bytes -/

/-- The bytes of a text. -/
def utf8 (text : String) : List UInt8 := text.toUTF8.data.toList

@[simp] theorem utf8_append (a b : String) : utf8 (a ++ b) = utf8 a ++ utf8 b := by
  simp [utf8, String.toByteArray_append]

theorem utf8_inj {a b : String} (h : utf8 a = utf8 b) : a = b := by
  have hdata : a.toByteArray.data = b.toByteArray.data := by simpa [utf8] using h
  exact String.toByteArray_inj.1 (ByteArray.ext hdata)

/-- The bytes of records, each with its line feed. -/
def recordBytes (layout : Layout) (ps : List Policy) : List UInt8 :=
  ps.flatMap fun p => utf8 (p.record layout) ++ utf8 "\n"

theorem utf8_text (layout : Layout) (m : Policies) :
    utf8 (m.text layout) = recordBytes layout m.granting := by
  rw [Policies.text, recordBytes]
  induction m.granting with
  | nil => rfl
  | cons p rest ih =>
    rw [List.map_cons, String.join_cons, utf8_append, utf8_append, ih, List.flatMap_cons]

/-! ## Devices -/

namespace Device

variable {d : Device} {a b : List UInt8}

@[simp] theorem received_write : (d.write a).1.received = d.received ++ a.take d.room := rfl

@[simp] theorem room_write : (d.write a).1.room = d.room - a.length := rfl

@[simp] theorem flushRefusal_write : (d.write a).1.flushRefusal = d.flushRefusal := rfl

theorem device_write_append : (d.write (a ++ b)).1 = ((d.write a).1.write b).1 := by
  simp [write, List.take_append, Nat.sub_sub]

/-- What does not fit leaves no room for anything after it. -/
theorem device_write_append_of_lt (h : d.room < a.length) :
    (d.write (a ++ b)).1 = (d.write a).1 := by
  rw [device_write_append]
  have hroom : d.room - a.length = 0 := by omega
  simp [write, hroom]

theorem writeText_of_le {text : String} (h : (utf8 text).length ≤ d.room) :
    d.writeText text = ((d.write (utf8 text)).1, true) :=
  Prod.ext rfl (decide_eq_true h)

theorem writeText_of_lt {text : String} (h : d.room < (utf8 text).length) :
    d.writeText text = ((d.write (utf8 text)).1, false) :=
  Prod.ext rfl (decide_eq_false (Nat.not_le_of_lt h))

variable (layout : Layout)

/-! ### One record -/

theorem device_writeRecord (p : Policy) (d : Device) :
    (d.writeRecord layout p).1 = (d.write (recordBytes layout [p])).1 := by
  rw [recordBytes, List.flatMap_singleton, writeRecord]
  rcases Nat.lt_or_ge d.room (utf8 (p.record layout)).length with ha | ha
  · rw [writeText_of_lt ha, device_write_append_of_lt ha]
  · rw [writeText_of_le ha, device_write_append]
    simp only
    rcases Nat.lt_or_ge (d.write (utf8 (p.record layout))).1.room (utf8 "\n").length with hb | hb
    · rw [writeText_of_lt hb]
    · rw [writeText_of_le hb]

theorem writeRecord_eq_ok_iff (p : Policy) (d : Device) :
    (d.writeRecord layout p).2 = .ok () ↔ (recordBytes layout [p]).length ≤ d.room := by
  rw [recordBytes, List.flatMap_singleton, writeRecord, List.length_append]
  rcases Nat.lt_or_ge d.room (utf8 (p.record layout)).length with ha | ha
  · rw [writeText_of_lt ha]
    simp
    omega
  · rw [writeText_of_le ha]
    simp only
    rcases Nat.lt_or_ge (d.write (utf8 (p.record layout))).1.room (utf8 "\n").length with hb | hb
    · rw [writeText_of_lt hb]
      rw [room_write] at hb
      simp
      omega
    · rw [writeText_of_le hb]
      rw [room_write] at hb
      simp
      omega

/-! ### All records -/

theorem recordBytes_cons (p : Policy) (ps : List Policy) :
    recordBytes layout (p :: ps) = recordBytes layout [p] ++ recordBytes layout ps := by
  simp [recordBytes]

/-- The device ends as if the whole text had been offered to it at once. -/
theorem device_writeRecords (ps : List Policy) (d : Device) :
    (d.writeRecords layout ps).1 = (d.write (recordBytes layout ps)).1 := by
  induction ps generalizing d with
  | nil => simp [writeRecords, recordBytes, write]
  | cons p rest ih =>
    have hdevice := device_writeRecord layout p d
    have hok := writeRecord_eq_ok_iff layout p d
    rw [writeRecords, recordBytes_cons]
    rcases hrecord : d.writeRecord layout p with ⟨d', o⟩
    rw [hrecord] at hdevice hok
    cases o with
    | ok u =>
      simp only at hdevice ⊢
      rw [ih d', hdevice, device_write_append]
    | error e =>
      have hlt : d.room < (recordBytes layout [p]).length :=
        Nat.lt_of_not_le fun h => by cases hok.2 h
      simp only at hdevice ⊢
      rw [hdevice, device_write_append_of_lt hlt]

/-- Writing succeeds exactly if the device takes the whole text and can be flushed. -/
theorem writeRecords_eq_ok_iff (ps : List Policy) (d : Device) :
    (d.writeRecords layout ps).2 = .ok () ↔
      (recordBytes layout ps).length ≤ d.room ∧ d.flushRefusal = none := by
  induction ps generalizing d with
  | nil =>
    rw [writeRecords, flush]
    cases d.flushRefusal <;> simp [recordBytes]
  | cons p rest ih =>
    have hdevice := device_writeRecord layout p d
    have hok := writeRecord_eq_ok_iff layout p d
    rw [writeRecords, recordBytes_cons, List.length_append]
    rcases hrecord : d.writeRecord layout p with ⟨d', o⟩
    rw [hrecord] at hdevice hok
    cases o with
    | ok u =>
      have hle : (recordBytes layout [p]).length ≤ d.room := hok.1 rfl
      simp only at hdevice ⊢
      rw [ih d', hdevice, room_write, flushRefusal_write]
      refine and_congr_left fun _ => ?_
      omega
    | error e =>
      have hlt : d.room < (recordBytes layout [p]).length :=
        Nat.lt_of_not_le fun h => by cases hok.2 h
      simp only [reduceCtorEq, false_iff]
      omega

/-- The device takes the policies: it has room for all of their text, and it can be flushed. -/
structure Takes (d : Device) (m : Policies) : Prop where
  room : (utf8 (m.text layout)).length ≤ d.room
  flush : d.flushRefusal = none

variable {layout}

theorem Takes.writePolicies {d : Device} {m : Policies} (h : d.Takes layout m) :
    (d.writePolicies layout m).2 = .ok m.granting.length ∧
      (d.writePolicies layout m).1.received = d.received ++ utf8 (m.text layout) := by
  have hroom := h.room
  rw [utf8_text] at hroom ⊢
  have hdevice := device_writeRecords layout m.granting d
  have hok := (writeRecords_eq_ok_iff layout m.granting d).2 ⟨hroom, h.flush⟩
  rw [Device.writePolicies]
  rcases hwritten : d.writeRecords layout m.granting with ⟨d', o⟩
  rw [hwritten] at hdevice hok
  simp only at hdevice hok
  subst hdevice hok
  exact ⟨rfl, by simp [List.take_of_length_le hroom]⟩

end Device

end GrantCompiler
