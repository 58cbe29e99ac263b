import GrantCompiler.Json
import GrantCompiler.Policy.Map

/-!
# Policies as text

Each policy that grants something is one record, a JSON object ended by a line feed, and the records
stand in the order of the resources.  `Device` is what the text is written to: it takes a number of
bytes and refuses the next one, and it may refuse to be flushed.  A device that fails inside a
record and one that fails between records are told apart; why it failed, it says itself.
-/

set_option autoImplicit false

namespace GrantCompiler

/-- What stands before a member in the text of a binding. -/
def memberMark : String := "serviceAccount:"

/-- A binding as it stands in a record, with the mark before each member. -/
def RoleBinding.json (b : RoleBinding) : Json :=
  .fields [
    ("role", .text b.role.text),
    ("members", .list (b.members.toList.map fun m => .text (memberMark ++ m.text)))]

/-- A policy as a record, with its bindings in the order of their roles. -/
def Policy.json (p : Policy) : Json :=
  .fields [("resource", .text p.resource.text), ("bindings", .list (p.bindings.map (·.json)))]

namespace Policy

/-- The record of a policy, without the line feed that ends it. -/
def record (layout : Layout) (p : Policy) : String := p.json.render layout

end Policy

/-- The text of all records. -/
def Policies.text (layout : Layout) (m : Policies) : String :=
  String.join (m.granting.map fun p => p.record layout ++ "\n")

/-! ## Writing -/

/-- Where writing the records failed, and what the device said. -/
inductive WriteFailure
  /-- Inside the text of a record. -/
  | record (refusal : String)
  /-- At the line feed after a record, or at the end. -/
  | device (refusal : String)
deriving DecidableEq

/-- The text of a failure, which tells the two places apart. -/
def WriteFailure.message : WriteFailure → String
  | record refusal => "Serialization error: " ++ refusal
  | device refusal => "IO error: " ++ refusal

/-- A device that takes `room` more bytes. -/
structure Device where
  room : Nat
  /-- What it says to the byte after those. -/
  refusal : String
  /-- What it says to being flushed, if it refuses that. -/
  flushRefusal : Option String
  received : List UInt8

namespace Device

/-- Writes bytes until the device is full; says whether all of them were taken. -/
def write (d : Device) (bytes : List UInt8) : Device × Bool :=
  ({ d with
      room := d.room - bytes.length
      received := d.received ++ bytes.take d.room },
    bytes.length ≤ d.room)

/-- Writes a text in UTF-8, as far as the device takes it. -/
def writeText (d : Device) (text : String) : Device × Bool := d.write text.toUTF8.data.toList

/-- Writes a record and its line feed. -/
def writeRecord (layout : Layout) (d : Device) (p : Policy) : Device × Except WriteFailure Unit :=
  match d.writeText (p.record layout) with
  | (d, false) => (d, .error (.record d.refusal))
  | (d, true) =>
    match d.writeText "\n" with
    | (d, false) => (d, .error (.device d.refusal))
    | (d, true) => (d, .ok ())

/-- Sees to it that the device keeps what it has taken. -/
def flush (d : Device) : Except WriteFailure Unit :=
  match d.flushRefusal with
  | none => .ok ()
  | some refusal => .error (.device refusal)

/-- Writes records in order, and flushes the device after the last. -/
def writeRecords (layout : Layout) (d : Device) : List Policy → Device × Except WriteFailure Unit
  | [] => (d, d.flush)
  | p :: rest =>
    match d.writeRecord layout p with
    | (d, .ok ()) => d.writeRecords layout rest
    | failed => failed

/-- Writes the records of all policies and flushes; answers with their number. -/
def writePolicies (layout : Layout) (d : Device) (m : Policies) :
    Device × Except WriteFailure Nat :=
  match d.writeRecords layout m.granting with
  | (d, .ok ()) => (d, .ok m.granting.length)
  | (d, .error e) => (d, .error e)

end Device

end GrantCompiler
