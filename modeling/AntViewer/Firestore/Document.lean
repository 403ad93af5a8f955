import AntViewer.Library.SortedSets

set_option relaxedAutoImplicit false
set_option autoImplicit false

/-!
# Local documents and the queries over them

What the vendored client keeps of documents: a document has a key, data and a state that says
whether it carries writes the server has not acknowledged, or not yet sent back. A query selects
documents, compares them, and may be limited to the first or last few. The documents of a query
are kept in a set that is sorted by its comparison. An assertion of the client that fails ends
the computation with the text of the assertion.

## Main definitions

* `hardAssert`, `hardFail` — the assertions.
* `Document`, `MaybeDocument`, `DocumentState` — documents in the local store.
* `Query`, `LimitType` — what a view uses of a query.
* `DocumentSet` — the documents of a query.
-/

namespace AntViewer.Firestore

open SortedSets

universe u

/-- `HARD_ASSERT(condition, message)`. -/
def hardAssert (condition : Bool) (message : String) : Except String PUnit.{u + 1} :=
  if condition then .ok ⟨⟩ else .error message

/-- `HARD_FAIL(message)`. -/
def hardFail {α : Type u} (message : String) : Except String α := .error message

@[simp] lemma hardAssert_true (message : String) : hardAssert.{u} true message = .ok ⟨⟩ := rfl

/-- A sequence of two computations succeeds only if both do. -/
lemma ok_of_bind {α β : Type u} {x : Except String α} {f : α → Except String β} {b : β}
    (h : x >>= f = .ok b) : ∃ a, x = .ok a ∧ f a = .ok b := by
  cases x with
  | error message => cases h
  | ok a => exact ⟨a, rfl, h⟩

/-- Whether a document carries local writes. -/
inductive DocumentState
  /-- Local writes are applied that the server has not acknowledged. -/
  | localMutations
  /-- Writes are applied that the server has acknowledged but not sent back yet. -/
  | committedMutations
  | synced
  deriving DecidableEq

/-- A document in the local store. -/
structure Document (κ δ : Type*) where
  key : κ
  data : δ
  state : DocumentState
  deriving DecidableEq

namespace Document

variable {κ δ : Type*}

/-- `has_local_mutations()`. -/
def hasLocalMutations (d : Document κ δ) : Bool := d.state = .localMutations

/-- `has_committed_mutations()`. -/
def hasCommittedMutations (d : Document κ δ) : Bool := d.state = .committedMutations

lemma not_local_of_committed {d : Document κ δ} (h : d.hasCommittedMutations = true) :
    d.hasLocalMutations = false := by
  simp only [hasCommittedMutations, hasLocalMutations, decide_eq_true_eq,
    decide_eq_false_iff_not] at *
  simp [h]

end Document

/-- What the local store knows under a key. -/
inductive MaybeDocument (κ δ : Type*)
  | document (d : Document κ δ)
  /-- The document is known not to exist. -/
  | noDocument
  /-- The document exists, its data is not known. -/
  | unknownDocument

/-- The document, if there is one. -/
def MaybeDocument.toDocument {κ δ : Type*} : MaybeDocument κ δ → Option (Document κ δ)
  | document d => some d
  | noDocument => none
  | unknownDocument => none

/-- Which end of the result a query is limited to. -/
inductive LimitType
  | none
  | first
  | last
  deriving DecidableEq

/-- What a view uses of a query. Whether a document matches and where it comes depends on its
key and data only, and documents with different keys never compare as the same. -/
structure Query (κ δ : Type*) where
  matchesDocument : κ → δ → Bool
  comparator : κ × δ → κ × δ → Ordering
  trans : Std.TransCmp comparator
  separates : ∀ a b, comparator a b = .eq → a.1 = b.1
  limitType : LimitType
  limit : ℕ

namespace Query

variable {κ δ : Type*}

/-- The query for all documents of a collection, in the order of their keys. -/
def collection (κ δ : Type*) [LinearOrder κ] : Query κ δ where
  matchesDocument _ _ := true
  comparator a b := compare a.1 b.1
  trans :=
    { eq_swap := Std.OrientedCmp.eq_swap
      isLE_trans := Std.TransCmp.isLE_trans }
  separates _ _ h := compare_eq_iff_eq.mp h
  limitType := .none
  limit := 0

/-- `Matches(doc)`. -/
def Matches (q : Query κ δ) (d : Document κ δ) : Bool := q.matchesDocument d.key d.data

/-- `Comparator()`, as an order on documents. -/
def order (q : Query κ δ) : Ranking κ (Document κ δ) where
  key := Document.key
  cmp a b := q.comparator (a.key, a.data) (b.key, b.data)
  trans :=
    { eq_swap := q.trans.eq_swap
      isLE_trans := q.trans.isLE_trans }
  separates _ _ h := q.separates _ _ h

@[simp] lemma order_key (q : Query κ δ) (d : Document κ δ) : q.order.key d = d.key := rfl

/-- `has_limit_to_first()`. -/
def hasLimitToFirst (q : Query κ δ) : Bool := q.limitType = .first

/-- `has_limit_to_last()`. -/
def hasLimitToLast (q : Query κ δ) : Bool := q.limitType = .last

/-- Documents with the same key and data come at the same place. -/
lemma lt_congr {q : Query κ δ} {a a' b b' : Document κ δ} (ha : a.key = a'.key)
    (ha' : a.data = a'.data) (hb : b.key = b'.key) (hb' : b.data = b'.data) :
    q.order.Lt a b ↔ q.order.Lt a' b' := by
  show q.comparator (a.key, a.data) (b.key, b.data) = .lt ↔
    q.comparator (a'.key, a'.data) (b'.key, b'.data) = .lt
  rw [ha, ha', hb, hb']

end Query

/-- The documents of a query, in its order. -/
abbrev DocumentSet {κ δ : Type*} (q : Query κ δ) := SortedSet q.order

/-- A set of document keys. -/
abbrev DocumentKeySet (κ : Type*) := Finset κ

end AntViewer.Firestore
