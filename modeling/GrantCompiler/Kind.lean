import GrantCompiler.Name

/-!
# Kinds of resource

A kind is written as a text in declarations, usage and permissions.  Five texts have a meaning of
their own; any other text is kept as it is, so that it can be reported instead of refused.

A queue is virtual: it stands for a topic and a subscription, which are addressed and granted
separately.  `Kind.effective` says which kinds a usage is granted on.

`Kind.ofText` and `Kind.text` are inverse to each other, so different texts are different kinds.
-/

set_option autoImplicit false

namespace GrantCompiler

open Std (TransOrd LawfulEqOrd OrientedCmp TransCmp LawfulEqCmp)

/-- The texts that name a kind of their own. -/
def Kind.reserved : List String :=
  ["buckets", "queues", "queues.topics", "queues.subscriptions", "serviceAccounts"]

/-- A kind of resource. -/
inductive Kind
  | buckets
  | queues
  | queueTopics
  | queueSubscriptions
  | serviceAccounts
  /-- Any other text. -/
  | other (text : String) (free : text ∉ Kind.reserved)
deriving DecidableEq

namespace Kind

/-- How a kind is written. -/
def text : Kind → String
  | buckets => "buckets"
  | queues => "queues"
  | queueTopics => "queues.topics"
  | queueSubscriptions => "queues.subscriptions"
  | serviceAccounts => "serviceAccounts"
  | other text _ => text

instance : ToString Kind := ⟨text⟩

/-- The kind that a text names. -/
def ofText (text : String) : Kind :=
  if h : text ∈ reserved then
    if text = "buckets" then buckets
    else if text = "queues" then queues
    else if text = "queues.topics" then queueTopics
    else if text = "queues.subscriptions" then queueSubscriptions
    else serviceAccounts
  else other text h

@[simp] theorem ofText_text (k : Kind) : ofText k.text = k := by
  cases k with
  | other t h => simp [text, ofText, h]
  | _ => decide

@[simp] theorem text_ofText (t : String) : (ofText t).text = t := by
  unfold ofText
  split
  next h =>
    simp only [reserved, List.mem_cons, List.not_mem_nil, or_false] at h
    rcases h with rfl | rfl | rfl | rfl | rfl <;> decide
  · rfl

theorem text_inj {j k : Kind} (h : j.text = k.text) : j = k := by
  rw [← ofText_text j, h, ofText_text]

/-- Whether the text has no meaning of its own. -/
def isOther : Kind → Bool
  | other .. => true
  | _ => false

/-! ## Order

The reserved kinds come first, in the order of their declaration; other kinds follow by text. -/

/-- The place of a reserved kind; all others share the one after these. -/
def rank : Kind → Nat
  | buckets => 0
  | queues => 1
  | queueTopics => 2
  | queueSubscriptions => 3
  | serviceAccounts => 4
  | other .. => 5

instance : Ord Kind := ⟨compareLex (compareOn rank) (compareOn text)⟩

instance : TransOrd Kind :=
  inferInstanceAs (TransCmp (compareLex (compareOn rank) (compareOn text)))

instance : LawfulEqOrd Kind where
  eq_of_compare {a b} h := by
    have hlex : compareLex (compareOn rank) (compareOn text) a b = .eq := h
    have htext : compare a.text b.text = .eq := (compareLex_eq_eq.1 hlex).2
    exact text_inj (LawfulEqCmp.eq_of_compare htext)

/-! ## Granting -/

/-- The addressable kinds that a usage of this kind is granted on. -/
def effective : Kind → List Kind
  | queues => [queueTopics, queueSubscriptions]
  | kind => [kind]

end Kind

end GrantCompiler
