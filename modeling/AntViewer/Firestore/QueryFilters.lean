import AntViewer.Firestore.Database
import AntViewer.Firestore.Document
import Mathlib.Data.List.Lex
import Mathlib.Data.String.Basic
import Mathlib.Tactic.Common

set_option relaxedAutoImplicit false
set_option autoImplicit false

/-!
# Filters of a query

A filter compares a field of a document, or its key, with a value. There is a class of filters for
each kind of operator; which values it takes is asserted when it is made, and relied on when
documents are matched. A document that does not have the field does not match.

## Main definitions

* `QueryValue`, `DocumentFields` — what queries ask of values and documents.
* `FieldFilter.create` — filters, with what is asserted when they are made.
* `FieldFilter.Matches` — whether a document matches.

## Main results

* `FieldFilter.matches_ok` — matching a document does not fail.
* `FieldFilter.isSome_of_matches` — a document that matches has the field.
-/

namespace AntViewer.Firestore

/-! ## Keys and values -/

/-- Keys are compared segment by segment. -/
instance : LinearOrder DocumentKey :=
  LinearOrder.lift' DocumentKey.path fun _ _ => DocumentKey.ext

/-- `FieldValue::Type`. -/
inductive ValueType
  | null
  | boolean
  | integer
  | double
  | timestamp
  | serverTimestamp
  | string
  | blob
  | reference
  | geoPoint
  | array
  | object
  deriving DecidableEq

/-- `FieldValue::Comparable(lhs, rhs)`. -/
def ValueType.comparable (lhs rhs : ValueType) : Bool :=
  match lhs with
  | integer | double => rhs = integer ∨ rhs = double
  | timestamp | serverTimestamp => rhs = timestamp ∨ rhs = serverTimestamp
  | _ => lhs = rhs

/-- What queries ask of a `FieldValue`: its type, what is in a string, an array or a reference, and
how arrays and references are made. -/
class QueryValue (υ : Type*) where
  type : υ → ValueType
  string : υ → String
  array : υ → List υ
  reference : υ → DocumentKey
  null : υ
  fromArray : List υ → υ
  fromReference : DocumentKey → υ
  type_fromArray : ∀ elements, type (fromArray elements) = .array
  array_fromArray : ∀ elements, array (fromArray elements) = elements
  type_fromReference : ∀ key, type (fromReference key) = .reference

namespace QueryValue

variable {υ : Type} [QueryValue υ]

/-- `array_value()`. -/
def arrayValue (v : υ) : Except String (List υ) := do
  hardAssert (type v = .array) "type() == Type::Array"
  return array v

/-- `reference_value()`, of which the key is used. -/
def referenceValue (v : υ) : Except String DocumentKey := do
  hardAssert (type v = .reference) "type() == Type::Reference"
  return reference v

lemma arrayValue_eq {v : υ} (h : type v = .array) : arrayValue v = .ok (array v) := by
  rw [arrayValue, decide_eq_true h]
  rfl

lemma referenceValue_eq {v : υ} (h : type v = .reference) :
    referenceValue v = .ok (reference v) := by
  rw [referenceValue, decide_eq_true h]
  rfl

end QueryValue

open QueryValue

instance : QueryValue FieldValue where
  type
    | .null => .null
    | .boolean _ => .boolean
    | .integer _ => .integer
    | .double _ => .double
    | .timestamp _ => .timestamp
    | .serverTimestamp => .serverTimestamp
    | .string _ => .string
    | .blob => .blob
    | .reference _ => .reference
    | .geoPoint => .geoPoint
    | .array _ => .array
    | .object => .object
  string
    | .string s => s
    | _ => ""
  array
    | .array elements => elements
    | _ => []
  reference
    | .reference key => key
    | _ => ⟨[], rfl⟩
  null := .null
  fromArray := .array
  fromReference := .reference
  type_fromArray _ := rfl
  array_fromArray _ := rfl
  type_fromReference _ := rfl

/-- `doc.field(path)`, for paths other than the one of the key. -/
class DocumentFields (δ : Type) (φ υ : outParam Type) where
  field : δ → φ → Option υ

instance : DocumentFields Fields String FieldValue where
  field data name := data.lookup name

/-- `model::FieldPath`, as far as queries tell them apart. -/
inductive FieldPath (φ : Type)
  | keyFieldPath
  | field (name : φ)
  deriving DecidableEq

/-! ## Operators -/

/-- `Filter::Operator`. -/
inductive Operator
  | lessThan
  | lessThanOrEqual
  | equal
  | notEqual
  | greaterThanOrEqual
  | greaterThan
  | arrayContains
  | in
  | arrayContainsAny
  | notIn
  deriving DecidableEq

namespace Operator

/-- `IsInequality()` of a filter with the operator. -/
def isInequality : Operator → Bool
  | lessThan | lessThanOrEqual | greaterThan | greaterThanOrEqual | notEqual | notIn => true
  | _ => false

/-- `IsArrayOperator(op)`. -/
def isArrayOperator : Operator → Bool
  | arrayContains | arrayContainsAny => true
  | _ => false

/-- `IsDisjunctiveOperator(op)`. -/
def isDisjunctiveOperator : Operator → Bool
  | «in» | arrayContainsAny | notIn => true
  | _ => false

/-- `MatchesComparison(comparison)`. -/
def matchesComparison : Operator → Ordering → Except String Bool
  | lessThan, comparison => .ok (comparison = .lt)
  | lessThanOrEqual, comparison => .ok (comparison = .lt ∨ comparison = .eq)
  | equal, comparison => .ok (comparison = .eq)
  | greaterThanOrEqual, comparison => .ok (comparison = .gt ∨ comparison = .eq)
  | greaterThan, comparison => .ok (comparison = .gt)
  | notEqual, comparison => .ok (comparison ≠ .eq)
  | _, _ => hardFail "Operator %s unsuitable for comparison"

/-- Operators other than those for arrays are suitable for comparison. -/
lemma matchesComparison_ok {op : Operator} (harray : op.isArrayOperator = false)
    (hdisjunctive : op.isDisjunctiveOperator = false) (comparison : Ordering) :
    ∃ b, op.matchesComparison comparison = .ok b := by
  cases op with
  | arrayContains | arrayContainsAny => cases harray
  | «in» | notIn => cases hdisjunctive
  | _ => exact ⟨_, rfl⟩

end Operator

/-! ## Making filters -/

variable {δ φ υ : Type} [QueryValue υ]

/-- `KeyFieldInFilter::ValidateArrayValue(value)`. -/
def validateArrayValue (value : υ) : Except String Unit := do
  hardAssert (type value = .array) "Comparing on key with In/NotIn, but the value was not an Array"
  (array value).forM fun refValue =>
    hardAssert (type refValue = .reference)
      "Comparing on key with In/NotIn, but an array value was not a Reference"

/-- What `FieldFilter::Create` asserts, and the classes of filters when they are made. -/
def FieldFilter.assertValid : FieldPath φ → Operator → υ → Except String Unit
  | .keyFieldPath, .in, valueRhs => validateArrayValue valueRhs
  | .keyFieldPath, .notIn, valueRhs => validateArrayValue valueRhs
  | .keyFieldPath, op, valueRhs => do
    hardAssert (type valueRhs = .reference) "Comparing on key, but filter value not a Reference."
    hardAssert (!op.isArrayOperator) "%s queries don't make sense on document keys."
  | .field _, .in, valueRhs =>
    hardAssert (type valueRhs = .array) "IN filter has invalid value: %s"
  | .field _, .arrayContainsAny, valueRhs =>
    hardAssert (type valueRhs = .array) "arrayContainsAny filter has invalid value: %s"
  | .field _, .notIn, valueRhs =>
    hardAssert (type valueRhs = .array) "notIn filter has invalid value: %s"
  | .field _, _, _ => .ok ()

/-- `FieldFilter`, of the class that its field and its operator determine. -/
structure FieldFilter (φ υ : Type) [QueryValue υ] where
  field : FieldPath φ
  op : Operator
  value : υ
  valid : FieldFilter.assertValid field op value = .ok ()

namespace FieldFilter

/-- A filter for the key can be made of an array of references, -/
lemma assertValid_of_references {op : Operator} (hop : op = .in ∨ op = .notIn) {refs : List υ}
    (h : ∀ v ∈ refs, type v = .reference) :
    assertValid (.keyFieldPath : FieldPath φ) op (fromArray refs) = .ok () := by
  have hvalid : validateArrayValue (fromArray refs) = .ok () := by
    unfold validateArrayValue
    rw [type_fromArray, array_fromArray, decide_eq_true rfl]
    induction refs with
    | nil => rfl
    | cons ref refs ih =>
      show (hardAssert (type ref = ValueType.reference) _ >>= fun _ => _) = _
      rw [decide_eq_true (h ref List.mem_cons_self)]
      exact ih fun v hv => h v (List.mem_cons_of_mem _ hv)
  rcases hop with rfl | rfl <;> exact hvalid

/-- or of a reference, -/
lemma assertValid_of_reference {op : Operator} (hop : ¬ (op = .in ∨ op = .notIn))
    (harray : op.isArrayOperator = false) {value : υ} (h : type value = .reference) :
    assertValid (.keyFieldPath : FieldPath φ) op value = .ok () := by
  rw [not_or] at hop
  cases op with
  | «in» => exact absurd rfl hop.1
  | notIn => exact absurd rfl hop.2
  | arrayContains | arrayContainsAny => cases harray
  | _ =>
    simp only [assertValid, decide_eq_true h]
    rfl

/-- and one for another field, of an array if its operator is disjunctive. -/
lemma assertValid_of_array {op : Operator} {value : υ} (name : φ)
    (h : op.isDisjunctiveOperator = true → type value = .array) :
    assertValid (.field name) op value = .ok () := by
  cases op with
  | «in» | arrayContainsAny | notIn => simp only [assertValid, h rfl, decide_true, hardAssert_true]
  | _ => rfl

/-- `FieldFilter::Create(path, op, value_rhs)`. -/
def create (path : FieldPath φ) (op : Operator) (valueRhs : υ) :
    Except String (FieldFilter φ υ) :=
  match h : assertValid path op valueRhs with
  | .ok () => .ok ⟨path, op, valueRhs, h⟩
  | .error message => .error message

/-- `IsInequality()`. -/
def isInequality (f : FieldFilter φ υ) : Bool := f.op.isInequality

/-- A filter is made if nothing that is asserted fails. -/
lemma create_eq {path : FieldPath φ} {op : Operator} {valueRhs : υ}
    (h : assertValid path op valueRhs = .ok ()) :
    create path op valueRhs = .ok ⟨path, op, valueRhs, h⟩ := by
  unfold create
  split
  · rfl
  · next message herror =>
    rw [h] at herror
    cases herror

/-! ## Matching documents -/

/-- `KeyFieldInFilter::Contains(array_value, doc)`. -/
def containsKey (arrayValue : List υ) (key : DocumentKey) : Except String Bool :=
  arrayValue.anyM fun rhs => do return key = (← referenceValue rhs)

variable [BEq υ] [Ord υ] [DocumentFields δ φ υ]

/-- `Matches(doc)` of the classes for the key: `KeyFieldInFilter`, `KeyFieldNotInFilter`, and
`KeyFieldFilter`. -/
def matchesKey (op : Operator) (value : υ) (key : DocumentKey) : Except String Bool :=
  match op with
  | .in => do containsKey (← arrayValue value) key
  | .notIn => do return !(← containsKey (← arrayValue value) key)
  | op => do op.matchesComparison (compare key (← referenceValue value))

/-- `FieldFilter::Rep::Matches(doc)`, from the value of the field. Types do not have to match for
`notEqual`. -/
def matchesRep (op : Operator) (value : υ) (maybeLhs : Option υ) : Except String Bool :=
  match maybeLhs with
  | none => return false
  | some lhs =>
    if op = .notEqual ∨ (type lhs).comparable (type value) = true then
      op.matchesComparison (compare lhs value)
    else return false

/-- `Matches(doc)` of the classes for other fields, from the value of the field:
`ArrayContainsFilter`, `ArrayContainsAnyFilter`, `InFilter`, `NotInFilter`, and `FieldFilter`. -/
def matchesField (op : Operator) (value : υ) (maybeLhs : Option υ) : Except String Bool :=
  match op with
  | .arrayContains => return maybeLhs.any fun lhs => type lhs = .array && (array lhs).contains value
  | .arrayContainsAny => do
    let arrayValue ← arrayValue value
    return maybeLhs.any fun lhs => type lhs = .array && (array lhs).any arrayValue.contains
  | .in => do
    let arrayValue ← arrayValue value
    return maybeLhs.any arrayValue.contains
  | .notIn => do
    let arrayValue ← arrayValue value
    if arrayValue.contains null then return false
    return maybeLhs.any fun lhs => !arrayValue.contains lhs
  | op => matchesRep op value maybeLhs

/-- `Matches(doc)`. -/
def Matches (f : FieldFilter φ υ) (key : DocumentKey) (data : δ) : Except String Bool :=
  match f.field with
  | .keyFieldPath => matchesKey f.op f.value key
  | .field name => matchesField f.op f.value (DocumentFields.field data name)

/-! ## What matching relies on -/

omit [BEq υ] [Ord υ] in
/-- What is asserted of an array of keys. -/
lemma of_validateArrayValue {value : υ} (h : validateArrayValue value = .ok ()) :
    type value = .array ∧ ∀ rhs ∈ array value, type rhs = .reference := by
  unfold validateArrayValue at h
  obtain ⟨u, harray, h⟩ := ok_of_bind h
  refine ⟨by simpa [hardAssert] using harray, ?_⟩
  generalize array value = refs at h
  induction refs with
  | nil => simp
  | cons ref refs ih =>
    obtain ⟨u, href, h⟩ := ok_of_bind (x := hardAssert _ _) h
    have htype : type ref = .reference := by simpa [hardAssert] using href
    simpa [htype] using ih h

omit [BEq υ] [Ord υ] in
/-- Searching an array of keys does not fail. -/
lemma containsKey_ok {refs : List υ} (h : ∀ rhs ∈ refs, type rhs = .reference)
    (key : DocumentKey) : ∃ b, containsKey refs key = .ok b := by
  unfold containsKey
  induction refs with
  | nil => exact ⟨false, rfl⟩
  | cons ref refs ih =>
    obtain ⟨b, hb⟩ := ih fun rhs hrhs => h rhs (List.mem_cons_of_mem _ hrhs)
    rw [List.anyM_cons, referenceValue_eq (h ref List.mem_cons_self)]
    by_cases hkey : key = reference ref
    · exact ⟨true, by simp [hkey]; rfl⟩
    · exact ⟨b, by rw [← hb]; simp [hkey]; rfl⟩

omit [BEq υ] [Ord υ] in
/-- What is asserted of a filter for the key. -/
lemma of_assertValid_key {op : Operator} {value : υ}
    (h : assertValid (.keyFieldPath : FieldPath φ) op value = .ok ()) :
    (op = .in ∨ op = .notIn) ∧ validateArrayValue value = .ok () ∨
      op.isArrayOperator = false ∧ op.isDisjunctiveOperator = false ∧ type value = .reference := by
  have href : ∀ b message, (do
      hardAssert (type value = ValueType.reference) message
      hardAssert b "%s queries don't make sense on document keys.") = .ok () →
      type value = .reference ∧ b = true := by
    intro b message h
    obtain ⟨u, htype, h⟩ := ok_of_bind h
    cases b with
    | false => cases h
    | true => exact ⟨by simpa [hardAssert] using htype, rfl⟩
  cases op with
  | «in» => exact Or.inl ⟨Or.inl rfl, h⟩
  | notIn => exact Or.inl ⟨Or.inr rfl, h⟩
  | arrayContains | arrayContainsAny => exact absurd (href _ _ h).2 Bool.false_ne_true
  | _ => exact Or.inr ⟨rfl, rfl, (href _ _ h).1⟩

omit [BEq υ] [Ord υ] in
/-- The classes for the key match if their assertions held. -/
lemma matchesKey_ok {op : Operator} {value : υ}
    (h : assertValid (.keyFieldPath : FieldPath φ) op value = .ok ()) (key : DocumentKey) :
    ∃ b, matchesKey op value key = .ok b := by
  rcases of_assertValid_key h with ⟨hop, hvalid⟩ | ⟨harray, hdisjunctive, href⟩
  · obtain ⟨harray, hrefs⟩ := of_validateArrayValue hvalid
    obtain ⟨b, hb⟩ := containsKey_ok hrefs key
    rcases hop with rfl | rfl
    · exact ⟨b, by simp only [matchesKey, arrayValue_eq harray]; exact hb⟩
    · refine ⟨!b, ?_⟩
      simp only [matchesKey, arrayValue_eq harray]
      show (containsKey (array value) key >>= fun found => pure !found) = _
      rw [hb]
      rfl
  · have hcompare := Operator.matchesComparison_ok harray hdisjunctive
      (compare key (reference value))
    have heq : matchesKey op value key =
        op.matchesComparison (compare key (reference value)) := by
      unfold matchesKey
      rw [referenceValue_eq href]
      cases op with
      | «in» | notIn => cases hdisjunctive
      | _ => rfl
    rwa [heq]

omit [BEq υ] in
/-- Comparing does not fail. -/
lemma matchesRep_ok {op : Operator} (harray : op.isArrayOperator = false)
    (hdisjunctive : op.isDisjunctiveOperator = false) (value : υ) (maybeLhs : Option υ) :
    ∃ b, matchesRep op value maybeLhs = .ok b := by
  cases maybeLhs with
  | none => exact ⟨false, rfl⟩
  | some lhs =>
    unfold matchesRep
    dsimp only
    split_ifs
    · exact Operator.matchesComparison_ok harray hdisjunctive _
    · exact ⟨false, rfl⟩

/-- The other classes match if their assertions held. -/
lemma matchesField_ok {op : Operator} {value : υ} {name : φ}
    (h : assertValid (.field name) op value = .ok ()) (maybeLhs : Option υ) :
    ∃ b, matchesField op value maybeLhs = .ok b := by
  have harray : op.isDisjunctiveOperator = true → arrayValue value = .ok (array value) := by
    intro hop
    refine arrayValue_eq ?_
    cases op with
    | «in» | arrayContainsAny | notIn => simpa [assertValid, hardAssert] using h
    | _ => cases hop
  cases op with
  | arrayContains => exact ⟨_, rfl⟩
  | «in» => exact ⟨_, by simp only [matchesField, harray rfl]; rfl⟩
  | arrayContainsAny => exact ⟨_, by simp only [matchesField, harray rfl]; rfl⟩
  | notIn =>
    simp only [matchesField, harray rfl]
    show ∃ b, (if (array value).contains null = true then pure false
      else pure (maybeLhs.any fun lhs => !(array value).contains lhs) : Except String Bool) = .ok b
    split_ifs
    · exact ⟨_, rfl⟩
    · exact ⟨_, rfl⟩
  | _ => exact matchesRep_ok rfl rfl value maybeLhs

/-- **Matching a document** does not fail. -/
lemma matches_ok (f : FieldFilter φ υ) (key : DocumentKey) (data : δ) :
    ∃ b, f.Matches key data = .ok b := by
  obtain ⟨field, op, value, valid⟩ := f
  cases field with
  | keyFieldPath => exact matchesKey_ok valid key
  | field name => exact matchesField_ok valid _

/-- **A document that matches** has the field. -/
lemma isSome_of_matches {f : FieldFilter φ υ} {key : DocumentKey} {data : δ} {name : φ}
    (hfield : f.field = .field name) (h : f.Matches key data = .ok true) :
    (DocumentFields.field data name).isSome := by
  obtain ⟨field, op, value, valid⟩ := f
  subst hfield
  change matchesField op value (DocumentFields.field data name) = .ok true at h
  cases hlhs : DocumentFields.field data name with
  | some lhs => rfl
  | none =>
    exfalso
    rw [hlhs] at h
    cases op with
    | «in» | arrayContainsAny =>
      obtain ⟨refs, -, h⟩ := ok_of_bind h
      cases h
    | notIn =>
      obtain ⟨refs, -, h⟩ := ok_of_bind h
      split_ifs at h <;> cases h
    | _ => cases h

end FieldFilter

end AntViewer.Firestore
