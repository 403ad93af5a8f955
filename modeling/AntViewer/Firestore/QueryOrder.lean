import AntViewer.Firestore.QueryFilters
import Mathlib.Data.Set.Basic

set_option relaxedAutoImplicit false
set_option autoImplicit false

/-!
# Orders and cursors of a query

A query consists of filters, orders by fields, and cursors to start and to end at. Documents that
match are compared by one order after the other; an order by key is added in the end, so that two
documents never compare as the same. If there is no order but a filter by an inequality, the field
of the filter is an order too. A cursor gives values for the first of the orders, which are compared
with those of a document. All this relies on the documents having the fields they are compared by.

## Main definitions

* `OrderBy`, `Bound`, `CoreQuery` — a query and its parts.
* `CoreQuery.orderBys`, `CoreQuery.Matches` — what it says about documents.
* `compareDocuments`, `compareAll` — the comparison, and one that cannot fail.

## Main results

* `compareAll_trans`, `key_eq_of_compareAll` — the comparison is one of a total preorder, in which
  only documents with the same key are the same.
* `compareDocuments_of_hasFields`, `Bound.sortsBeforeDocument_of_hasFields` — documents with the
  fields can be compared, with each other and with cursors.
-/

namespace AntViewer.Firestore

open SortedSets QueryValue

/-! ## Orders and cursors -/

/-- `Direction`. -/
inductive Direction
  | ascending
  | descending
  deriving DecidableEq

/-- `ApplyTo(result)`. -/
def Direction.applyTo : Direction → Ordering → Ordering
  | ascending, result => result
  | descending, result => result.swap

/-- `OrderBy`. -/
structure OrderBy (φ : Type) where
  field : FieldPath φ
  direction : Direction

/-- `Bound`: values for the first orders, and whether it comes before the documents that have
them. -/
structure Bound (υ : Type) where
  position : List υ
  before : Bool

section

variable {δ φ υ : Type} [QueryValue υ] [DocumentFields δ φ υ] [Ord υ]

/-- The body of the loop of `SortsBeforeDocument`, before the direction is applied. -/
def compareComponent (fieldValue : υ) (field : FieldPath φ) (doc : DocumentKey × δ) :
    Except String Ordering :=
  match field with
  | .keyFieldPath => do
    hardAssert (type fieldValue = .reference)
      "Bound has a non-key value where the key path is being used %s"
    return compare (← referenceValue fieldValue) doc.1
  | .field name =>
    match DocumentFields.field doc.2 name with
    | none => hardFail "Field should exist since document matched the orderBy already."
    | some docValue => return compare fieldValue docValue

/-- The loop of `SortsBeforeDocument` over the values of the cursor. -/
def comparePosition : List υ → List (OrderBy φ) → DocumentKey × δ → Except String Ordering
  | fieldValue :: position, orderingComponent :: orderBy, doc => do
    let comparison ← compareComponent fieldValue orderingComponent.field doc
    let comparison := orderingComponent.direction.applyTo comparison
    if comparison ≠ .eq then return comparison else comparePosition position orderBy doc
  | _, _, _ => .ok .eq

/-- `SortsBeforeDocument(order_by, document)`. -/
def Bound.sortsBeforeDocument (bound : Bound υ) (orderBy : List (OrderBy φ))
    (doc : DocumentKey × δ) : Except String Bool := do
  hardAssert (bound.position.length ≤ orderBy.length)
    "Bound has more components than the provided order by."
  let result ← comparePosition bound.position orderBy doc
  return if bound.before then result.isLE else result = .lt

end

/-! ## Queries -/

/-- `DocumentKey::IsDocumentKey(path)`. -/
def isDocumentKey (path : List String) : Bool := path.length % 2 = 0

/-- `HasCollectionId(collection_id)`. -/
def hasCollectionId (key : DocumentKey) (collectionId : String) : Bool :=
  2 ≤ key.path.length ∧ key.path[key.path.length - 2]? = some collectionId

/-- `IsImmediateParentOf(potential_child)`. -/
def isImmediateParentOf (path potentialChild : List String) : Bool :=
  path.length + 1 = potentialChild.length ∧ path.isPrefixOf potentialChild

/-- `Target::kNoLimit`. -/
def noLimit : ℤ := 2147483647

/-- `core::Query`. -/
structure CoreQuery (φ υ : Type) [QueryValue υ] where
  path : List String
  collectionGroup : Option String
  filters : List (FieldFilter φ υ)
  explicitOrderBys : List (OrderBy φ)
  limit : ℤ
  limitType : LimitType
  startAt : Option (Bound υ)
  endAt : Option (Bound υ)

namespace CoreQuery

variable {δ φ υ : Type} [QueryValue υ]

/-- `Query(path, collection_group)`. -/
def ofPath (path : List String) (collectionGroup : Option String) : CoreQuery φ υ where
  path := path
  collectionGroup := collectionGroup
  filters := []
  explicitOrderBys := []
  limit := noLimit
  limitType := .none
  startAt := none
  endAt := none

/-- `IsDocumentQuery()`. -/
def isDocumentQuery (q : CoreQuery φ υ) : Bool :=
  isDocumentKey q.path && q.collectionGroup.isNone && q.filters.isEmpty

/-- `InequalityFilterField()`. -/
def inequalityFilterField (q : CoreQuery φ υ) : Option (FieldPath φ) :=
  (q.filters.find? FieldFilter.isInequality).map FieldFilter.field

/-- `FirstOrderByField()`. -/
def firstOrderByField (q : CoreQuery φ υ) : Option (FieldPath φ) :=
  q.explicitOrderBys.head?.map OrderBy.field

/-- `FindOperator(ops)`. -/
def findOperator (q : CoreQuery φ υ) (ops : List Operator) : Option Operator :=
  (q.filters.find? fun f => f.op ∈ ops).map FieldFilter.op

/-- The direction of the implicit order by key. -/
def lastDirection (q : CoreQuery φ υ) : Direction :=
  match q.explicitOrderBys.getLast? with
  | none => .ascending
  | some o => o.direction

variable [DecidableEq φ]

/-- `MatchesAllDocuments()`. -/
def matchesAllDocuments (q : CoreQuery φ υ) : Bool :=
  q.filters.isEmpty && q.limit = noLimit && q.startAt.isNone && q.endAt.isNone &&
    match q.explicitOrderBys with
    | [] => true
    | [o] => o.field = .keyFieldPath
    | _ => false

/-- `order_bys()`: the explicit orders, and an order by key. -/
def orderBys (q : CoreQuery φ υ) : Except String (List (OrderBy φ)) :=
  match q.inequalityFilterField, q.firstOrderByField with
  | some field, none =>
    -- The inequality filter field has to be the first order.
    if field = .keyFieldPath then return [⟨.keyFieldPath, .ascending⟩]
    else return [⟨field, .ascending⟩, ⟨.keyFieldPath, .ascending⟩]
  | inequalityField, first => do
    hardAssert (inequalityField.all fun field => first = some field)
      "First orderBy %s should match inequality field %s."
    if q.explicitOrderBys.any fun o => o.field = .keyFieldPath then return q.explicitOrderBys
    else return q.explicitOrderBys ++ [⟨.keyFieldPath, q.lastDirection⟩]

/-- `AddingFilter(filter)`. -/
def addingFilter (q : CoreQuery φ υ) (filter : FieldFilter φ υ) :
    Except String (CoreQuery φ υ) := do
  hardAssert (!q.isDocumentQuery) "No filter is allowed for document query"
  hardAssert (!filter.isInequality || q.inequalityFilterField.all fun field =>
    field = filter.field) "Query must only have one inequality field."
  return { q with filters := q.filters ++ [filter] }

/-- `AddingOrderBy(order_by)`. -/
def addingOrderBy (q : CoreQuery φ υ) (orderBy : OrderBy φ) : Except String (CoreQuery φ υ) := do
  hardAssert (!q.isDocumentQuery) "No ordering is allowed for document query"
  hardAssert (!q.explicitOrderBys.isEmpty || q.inequalityFilterField.all fun field =>
    field = orderBy.field) "First OrderBy must match inequality field."
  return { q with explicitOrderBys := q.explicitOrderBys ++ [orderBy] }

end CoreQuery

/-! ## Matching documents -/

section Matching

variable {δ φ υ : Type} [QueryValue υ] [DocumentFields δ φ υ]

/-- `MatchesPathAndCollectionGroup(doc)`. -/
def matchesPathAndCollectionGroup (path : List String) (collectionGroup : Option String)
    (key : DocumentKey) : Bool :=
  match collectionGroup with
  | some id => hasCollectionId key id && path.isPrefixOf key.path
  | none => if isDocumentKey path then path = key.path else isImmediateParentOf path key.path

/-- `MatchesOrderBy(doc)`: a document needs the fields of the orders. -/
def matchesOrderBy (orderBys : List (OrderBy φ)) (data : δ) : Bool :=
  orderBys.all fun o =>
    match o.field with
    | .keyFieldPath => true
    | .field name => (DocumentFields.field data name).isSome

variable [BEq υ] [Ord υ]

/-- `MatchesFilters(doc)`. -/
def matchesFilters (filters : List (FieldFilter φ υ)) (doc : DocumentKey × δ) :
    Except String Bool :=
  filters.allM fun f => f.Matches doc.1 doc.2

/-- `MatchesBounds(doc)`, in the order of the query. -/
def matchesBounds (startAt endAt : Option (Bound υ)) (ordering : List (OrderBy φ))
    (doc : DocumentKey × δ) : Except String Bool := do
  if let some bound := startAt then
    if !(← bound.sortsBeforeDocument ordering doc) then return false
  if let some bound := endAt then
    if ← bound.sortsBeforeDocument ordering doc then return false
  return true

/-- `Matches(doc)`. -/
def CoreQuery.Matches [DecidableEq φ] (q : CoreQuery φ υ) (doc : DocumentKey × δ) :
    Except String Bool := do
  if !matchesPathAndCollectionGroup q.path q.collectionGroup doc.1 then return false
  if !matchesOrderBy q.explicitOrderBys doc.2 then return false
  if !(← matchesFilters q.filters doc) then return false
  matchesBounds q.startAt q.endAt (← q.orderBys) doc

end Matching

/-! ## Comparing documents -/

section Comparing

variable {δ φ υ : Type} [DocumentFields δ φ υ] [Ord υ]

/-- `OrderBy::Compare(lhs, rhs)`. -/
def OrderBy.compareDocuments (o : OrderBy φ) (lhs rhs : DocumentKey × δ) : Except String Ordering :=
  match o.field with
  | .keyFieldPath => .ok (o.direction.applyTo (compare lhs.1 rhs.1))
  | .field name =>
    match DocumentFields.field lhs.2 name, DocumentFields.field rhs.2 name with
    | some value1, some value2 => .ok (o.direction.applyTo (compare value1 value2))
    | _, _ => hardFail "Trying to compare documents on fields that don't exist."

/-- The loop of `Comparator()` over the orders. -/
def compareDocuments : List (OrderBy φ) → DocumentKey × δ → DocumentKey × δ → Except String Ordering
  | [], _, _ => .ok .eq
  | o :: ordering, doc1, doc2 => do
    let comp ← o.compareDocuments doc1 doc2
    if comp ≠ .eq then return comp else compareDocuments ordering doc1 doc2

/-- The comparison of one order, as if missing fields came first. -/
def OrderBy.comparison (o : OrderBy φ) (lhs rhs : DocumentKey × δ) : Ordering :=
  o.direction.applyTo (match o.field with
    | .keyFieldPath => compare lhs.1 rhs.1
    | .field name => compare (DocumentFields.field lhs.2 name) (DocumentFields.field rhs.2 name))

/-- The comparison of all orders, as if missing fields came first. -/
def compareAll : List (OrderBy φ) → DocumentKey × δ → DocumentKey × δ → Ordering
  | [] => fun _ _ => .eq
  | o :: ordering => compareLex o.comparison (compareAll ordering)

/-- The comparison of one order is one of a preorder. -/
lemma OrderBy.comparison_trans [Std.TransOrd υ] (o : OrderBy φ) :
    Std.TransCmp (o.comparison : DocumentKey × δ → DocumentKey × δ → Ordering) := by
  obtain ⟨field, direction⟩ := o
  have hascending : Std.TransCmp
      ((⟨field, .ascending⟩ : OrderBy φ).comparison :
        DocumentKey × δ → DocumentKey × δ → Ordering) := by
    cases field with
    | keyFieldPath =>
      exact inferInstanceAs (Std.TransCmp (compareOn (Prod.fst : DocumentKey × δ → DocumentKey)))
    | field name =>
      exact inferInstanceAs (Std.TransCmp (compareOn fun d : DocumentKey × δ =>
        DocumentFields.field d.2 name))
  cases direction with
  | ascending => exact hascending
  | descending =>
    have hswap : ((⟨field, .descending⟩ : OrderBy φ).comparison :
          DocumentKey × δ → DocumentKey × δ → Ordering) =
        fun a b => (⟨field, .ascending⟩ : OrderBy φ).comparison b a := by
      funext a b
      rw [hascending.eq_swap]
      rfl
    rw [hswap]
    infer_instance

/-- The comparison of all orders is one of a preorder. -/
lemma compareAll_trans [Std.TransOrd υ] (ordering : List (OrderBy φ)) :
    Std.TransCmp (compareAll ordering : DocumentKey × δ → DocumentKey × δ → Ordering) := by
  induction ordering with
  | nil =>
    exact
      { eq_swap := rfl
        isLE_trans := fun _ _ => rfl }
  | cons o ordering ih =>
    have := o.comparison_trans (δ := δ)
    exact inferInstanceAs (Std.TransCmp (compareLex o.comparison (compareAll ordering)))

/-- Swapping does not make different results the same. -/
lemma Direction.applyTo_eq_eq {direction : Direction} {result : Ordering} :
    direction.applyTo result = .eq ↔ result = .eq := by
  cases direction <;> cases result <;> decide

/-- With an order by key, documents compare as the same only under the same key. -/
lemma key_eq_of_compareAll {ordering : List (OrderBy φ)} {a b : DocumentKey × δ}
    (hkey : ∃ o ∈ ordering, o.field = .keyFieldPath) (h : compareAll ordering a b = .eq) :
    a.1 = b.1 := by
  induction ordering with
  | nil =>
    obtain ⟨o, ho, -⟩ := hkey
    cases ho
  | cons o ordering ih =>
    rw [compareAll, compareLex, Ordering.then_eq_eq] at h
    obtain ⟨o', ho', hfield⟩ := hkey
    rcases List.mem_cons.mp ho' with rfl | ho'
    · have hcompare := h.1
      rw [OrderBy.comparison, Direction.applyTo_eq_eq, hfield] at hcompare
      exact compare_eq_iff_eq.mp hcompare
    · exact ih ⟨o', ho', hfield⟩ h.2

/-- A document has the fields it is compared by. -/
def HasFields (ordering : List (OrderBy φ)) (d : δ) : Prop :=
  ∀ o ∈ ordering, ∀ name, o.field = .field name → (DocumentFields.field d name).isSome

/-- Documents that have the fields they are compared by can be compared. -/
lemma compareDocuments_of_hasFields {ordering : List (OrderBy φ)} {a b : DocumentKey × δ}
    (ha : HasFields ordering a.2) (hb : HasFields ordering b.2) :
    compareDocuments ordering a b = .ok (compareAll ordering a b) := by
  induction ordering with
  | nil => rfl
  | cons o ordering ih =>
    have ih := ih (fun o' ho' => ha o' (List.mem_cons_of_mem _ ho'))
      (fun o' ho' => hb o' (List.mem_cons_of_mem _ ho'))
    have hcompare : o.compareDocuments a b = .ok (o.comparison a b) := by
      unfold OrderBy.compareDocuments OrderBy.comparison
      cases hfield : o.field with
      | keyFieldPath => rfl
      | field name =>
        obtain ⟨v, hv⟩ := Option.isSome_iff_exists.mp (ha o List.mem_cons_self name hfield)
        obtain ⟨w, hw⟩ := Option.isSome_iff_exists.mp (hb o List.mem_cons_self name hfield)
        simp only [hv, hw]
        rfl
    rw [compareDocuments, hcompare, compareAll, compareLex]
    show (if o.comparison a b ≠ .eq then _ else _) = _
    cases hresult : o.comparison a b with
    | eq => rw [if_neg (by simp), ih]; rfl
    | lt => rw [if_pos (by simp)]; rfl
    | gt => rw [if_pos (by simp)]; rfl

/-! ## Cursors -/

/-- A cursor fits the orders of a query: it has no more values than there are orders, and a
reference where the order is by key. -/
structure Bound.Fits [QueryValue υ] (bound : Bound υ) (ordering : List (OrderBy φ)) : Prop where
  length_le : bound.position.length ≤ ordering.length
  keys : ∀ p ∈ bound.position.zip ordering, p.2.field = .keyFieldPath → type p.1 = .reference

/-- The values of a cursor that fits can be compared with a document that has the fields. -/
lemma comparePosition_ok [QueryValue υ] {position : List υ} {ordering : List (OrderBy φ)}
    {doc : DocumentKey × δ}
    (hkeys : ∀ p ∈ position.zip ordering, p.2.field = .keyFieldPath → type p.1 = .reference)
    (hdoc : HasFields ordering doc.2) :
    ∃ result, comparePosition position ordering doc = .ok result := by
  induction position generalizing ordering with
  | nil => exact ⟨.eq, rfl⟩
  | cons value position ih =>
    cases ordering with
    | nil => exact ⟨.eq, rfl⟩
    | cons o ordering =>
      obtain ⟨result, hresult⟩ := ih (fun p hp => hkeys p (List.mem_cons_of_mem _ hp))
        fun o' ho' => hdoc o' (List.mem_cons_of_mem _ ho')
      obtain ⟨comparison, hcomparison⟩ :
          ∃ comparison, compareComponent value o.field doc = .ok comparison := by
        unfold compareComponent
        cases hfield : o.field with
        | keyFieldPath =>
          have htype := hkeys (value, o) List.mem_cons_self hfield
          simp only [htype, decide_true, hardAssert_true, referenceValue_eq htype]
          exact ⟨_, rfl⟩
        | field name =>
          obtain ⟨v, hv⟩ := Option.isSome_iff_exists.mp (hdoc o List.mem_cons_self name hfield)
          simp only [hv]
          exact ⟨_, rfl⟩
      rw [comparePosition, hcomparison]
      show ∃ r, (if o.direction.applyTo comparison ≠ .eq then
        .ok (o.direction.applyTo comparison) else comparePosition position ordering doc) = .ok r
      rcases eq_or_ne (o.direction.applyTo comparison) .eq with heq | hne
      · exact ⟨result, by rw [if_neg (not_not.mpr heq), hresult]⟩
      · exact ⟨_, if_pos hne⟩

/-- **A cursor that fits** can be compared with a document that has the fields. -/
lemma Bound.sortsBeforeDocument_of_hasFields [QueryValue υ] {bound : Bound υ}
    {ordering : List (OrderBy φ)} (h : bound.Fits ordering) {doc : DocumentKey × δ}
    (hdoc : HasFields ordering doc.2) :
    ∃ b, bound.sortsBeforeDocument ordering doc = .ok b := by
  obtain ⟨result, hresult⟩ := comparePosition_ok h.keys hdoc
  rw [Bound.sortsBeforeDocument, decide_eq_true h.length_le, hardAssert_true, hresult]
  exact ⟨_, rfl⟩

/-- Documents between cursors are found without failing. -/
lemma matchesBounds_ok [QueryValue υ] {startAt endAt : Option (Bound υ)}
    {ordering : List (OrderBy φ)} (hstart : ∀ bound ∈ startAt, bound.Fits ordering)
    (hend : ∀ bound ∈ endAt, bound.Fits ordering) {doc : DocumentKey × δ}
    (hdoc : HasFields ordering doc.2) :
    ∃ b, matchesBounds startAt endAt ordering doc = .ok b := by
  have hbefore : ∀ bound : Bound υ, bound.Fits ordering →
      ∃ b, bound.sortsBeforeDocument ordering doc = .ok b :=
    fun bound h => Bound.sortsBeforeDocument_of_hasFields h hdoc
  unfold matchesBounds
  cases startAt with
  | none =>
    cases endAt with
    | none => exact ⟨true, rfl⟩
    | some last =>
      obtain ⟨ended, hended⟩ := hbefore last (hend last rfl)
      simp only [hended]
      cases ended <;> exact ⟨_, rfl⟩
  | some first =>
    obtain ⟨started, hstarted⟩ := hbefore first (hstart first rfl)
    simp only [hstarted]
    cases endAt with
    | none => cases started <;> exact ⟨_, rfl⟩
    | some last =>
      obtain ⟨ended, hended⟩ := hbefore last (hend last rfl)
      simp only [hended]
      cases started <;> cases ended <;> exact ⟨_, rfl⟩

end Comparing

/-! ## The values of the program's documents -/

/-- `FieldValue::CompareTo`, from the order of the values. -/
@[reducible] def ValueOrder.toOrd (ord : ValueOrder) : Ord FieldValue where
  compare v w := if ord.le v w then if ord.le w v then .eq else .lt else .gt

/-- Comparing by an order of the values is comparing by a total preorder. -/
lemma ValueOrder.transOrd (ord : ValueOrder) : @Std.TransOrd FieldValue (toOrd ord) := by
  have hle : ∀ v w, ((toOrd ord).compare v w).isLE = ord.le v w := by
    intro v w
    show (if ord.le v w then if ord.le w v then Ordering.eq else .lt else .gt).isLE = _
    cases ord.le v w <;> cases ord.le w v <;> rfl
  refine @Std.TransCmp.mk _ _ ⟨fun {v w} => ?_⟩ fun {u v w} huv hvw => ?_
  · show (if ord.le v w then if ord.le w v then Ordering.eq else .lt else .gt) =
      (if ord.le w v then if ord.le v w then Ordering.eq else .lt else .gt).swap
    have htotal := ord.total v w
    cases hvw : ord.le v w <;> cases hwv : ord.le w v <;> simp_all
  · rw [hle] at *
    exact ord.trans u v w huv hvw

end AntViewer.Firestore
