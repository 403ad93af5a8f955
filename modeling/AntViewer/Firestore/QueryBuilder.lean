import AntViewer.Firestore.QueryOrder
import AntViewer.Library.Outcomes

set_option relaxedAutoImplicit false
set_option autoImplicit false

/-!
# Building a query

A query is narrowed down by builder calls, each of which is validated against the query so far and
thrown out as an invalid argument if it does not fit: the value of a filter against its field and
its operator, the filter against the other filters, an order against the filters and the cursors,
and a cursor against the orders. What is accepted is relied on further down, where it is asserted.

## Main definitions

* `QueryStart`, `BuilderCall`, `CoreQuery.build` — how queries are built, with the validation.
* `BuilderCall.Fits` — the arguments of a call that are asserted, and not validated.
* `CoreQuery.WellFormed` — what holds of every query that is built.

## Main results

* `CoreQuery.ends_buildAll` — every query that is built is well formed, and an assertion fails only
  for a call that does not fit.
* `CoreQuery.built_or_refused` — such a query can be matched, and compares what matches.
-/

namespace AntViewer.Firestore

open SortedSets QueryValue Outcomes

variable {φ : Type}

/-! ## What is thrown -/

/-- `Describe(op)`. -/
def Operator.describe : Operator → String
  | lessThan => "lessThan"
  | lessThanOrEqual => "lessThanOrEqual"
  | equal => "equal"
  | notEqual => "notEqual"
  | greaterThanOrEqual => "greaterThanOrEqual"
  | greaterThan => "greaterThan"
  | arrayContains => "arrayContains"
  | «in» => "in"
  | arrayContainsAny => "arrayContainsAny"
  | notIn => "notIn"

/-- `ConflictingOps(op)`: the operators that cannot be used with an operator. -/
def Operator.conflictingOps : Operator → List Operator
  | notEqual => [notEqual, notIn]
  | arrayContains => [arrayContains, arrayContainsAny, notIn]
  | «in» => [arrayContainsAny, «in», notIn]
  | arrayContainsAny => [arrayContains, arrayContainsAny, «in», notIn]
  | notIn => [arrayContains, arrayContainsAny, «in», notIn, notEqual]
  | _ => []

/-- What a builder call is thrown out for. -/
inductive InvalidArgument (φ : Type)
  | collectionPath (path : List String)
  | collectionID (collectionID : String)
  | arrayOperatorOnKey (op : Operator)
  | emptyArray (op : Operator)
  | tooManyElements (op : Operator)
  | emptyDocumentID
  | slashInDocumentID (documentKey : String)
  | noDocumentPath (path : List String)
  | noDocumentID (type : String)
  | inequalityFields (existing new : FieldPath φ)
  | firstOrderBy (orderBy inequality : FieldPath φ)
  | sameOperator (op : Operator)
  | conflictingOperators (op conflicting : Operator)
  | startBeforeOrderBy
  | endBeforeOrderBy
  | limit (limit : ℤ)
  | cursorAtMissingDocument
  | cursorAtServerTimestamp (field : FieldPath φ)
  | cursorAtMissingField (field : FieldPath φ)
  | tooManyCursorValues
  | noStringInCursor
  | slashInCursor (documentID : String)
  | noDocumentPathInCursor (path : List String)

/-- The text of the exception. -/
def InvalidArgument.message (canonicalString : FieldPath φ → String) : InvalidArgument φ → String
  | collectionPath path =>
    "Invalid collection reference. Collection references must have an odd number of segments, " ++
      "but " ++ "/".intercalate path ++ " has " ++ toString path.length
  | collectionID id =>
    "Invalid collection ID (" ++ id ++ "). Collection IDs must not contain / in them."
  | arrayOperatorOnKey op =>
    "Invalid query. You can't perform " ++ op.describe ++ " queries on document ID since " ++
      "document IDs are not arrays."
  | emptyArray op =>
    "Invalid Query. A non-empty array is required for '" ++ op.describe ++ "' filters."
  | tooManyElements op =>
    "Invalid Query. '" ++ op.describe ++ "' filters support a maximum of 10 elements in the " ++
      "value array."
  | emptyDocumentID =>
    "Invalid query. When querying by document ID you must provide a valid document ID, but it " ++
      "was an empty string."
  | slashInDocumentID documentKey =>
    "Invalid query. When querying a collection by document ID you must provide a plain document " ++
      "ID, but '" ++ documentKey ++ "' contains a '/' character."
  | noDocumentPath path =>
    "Invalid query. When querying a collection group by document ID, the value provided must " ++
      "result in a valid document path, but '" ++ "/".intercalate path ++ "' is not because it " ++
      "has an odd number of segments."
  | noDocumentID type =>
    "Invalid query. When querying by document ID you must provide a valid string or " ++
      "DocumentReference, but it was of type: " ++ type
  | inequalityFields existing new =>
    "Invalid Query. All where filters with an inequality (notEqual, lessThan, " ++
      "lessThanOrEqual, greaterThan, or greaterThanOrEqual) must be on the same field. But you " ++
      "have inequality filters on '" ++ canonicalString existing ++ "' and '" ++
      canonicalString new ++ "'"
  | firstOrderBy orderBy inequality =>
    "Invalid query. You have a where filter with an inequality (notEqual, lessThan, " ++
      "lessThanOrEqual, greaterThan, or greaterThanOrEqual) on field '" ++
      canonicalString inequality ++ "' and so you must also use '" ++
      canonicalString inequality ++ "' as your first queryOrderedBy field, but your first " ++
      "queryOrderedBy is currently on field '" ++ canonicalString orderBy ++ "' instead."
  | sameOperator op =>
    "Invalid Query. You cannot use more than one '" ++ op.describe ++ "' filter."
  | conflictingOperators op conflicting =>
    "Invalid Query. You cannot use '" ++ op.describe ++ "' filters with '" ++
      conflicting.describe ++ "' filters."
  | startBeforeOrderBy =>
    "Invalid query. You must not specify a starting point before specifying the order by."
  | endBeforeOrderBy =>
    "Invalid query. You must not specify an ending point before specifying the order by."
  | limit n =>
    "Invalid Query. Query limit (" ++ toString n ++ ") is invalid. Limit must be positive."
  | cursorAtMissingDocument =>
    "Invalid query. You are trying to start or end a query using a document that doesn't exist."
  | cursorAtServerTimestamp field =>
    "Invalid query. You are trying to start or end a query using a document for which the field " ++
      "'" ++ canonicalString field ++ "' is an uncommitted server timestamp. (Since the value " ++
      "of this field is unknown, you cannot start/end a query with it.)"
  | cursorAtMissingField field =>
    "Invalid query. You are trying to start or end a query using a document for which the field " ++
      "'" ++ canonicalString field ++ "' (used as the order by) does not exist."
  | tooManyCursorValues =>
    "Invalid query. You are trying to start or end a query using more values than were " ++
      "specified in the order by."
  | noStringInCursor => "Invalid query. Expected a string for the document ID."
  | slashInCursor documentID =>
    "Invalid query. When querying a collection and ordering by document ID, you must pass a " ++
      "plain document ID, but '" ++ documentID ++ "' contains a slash."
  | noDocumentPathInCursor path =>
    "Invalid query. When querying a collection group and ordering by document ID, you must pass " ++
      "a value that results in a valid document path, but '" ++ "/".intercalate path ++
      "' is not because it contains an odd number of segments."

/-- `a` conflicts with `b` where `b` conflicts with `a`. -/
lemma Operator.conflictingOps_symm {a b : Operator} (h : a ∈ b.conflictingOps) :
    b ∈ a.conflictingOps := by
  cases a <;> cases b <;> simp_all [conflictingOps]

/-- How a builder call fails: by an exception the caller is promised, or by an assertion. -/
inductive Failure (φ : Type)
  | invalidArgument (e : InvalidArgument φ)
  | assertion (message : String)

/-- `ThrowInvalidArgument`. -/
def throwInvalidArgument {α : Type} (e : InvalidArgument φ) : Except (Failure φ) α :=
  .error (.invalidArgument e)

/-- A computation that may fail an assertion. -/
def asserted {α : Type} (x : Except String α) : Except (Failure φ) α := x.mapError .assertion

/-- `ResourcePath::FromStringView(path)`, with its assertion. -/
def fromStringView (path : String) : Except String (List String) := do
  hardAssert (¬ ['/', '/'] <:+: path.toList)
    "Invalid path (%s). Paths must not contain // in them."
  return ResourcePath.fromString path

/-! ## The builder calls -/

/-- What a query starts from: a collection, or a collection group. -/
inductive QueryStart
  | collection (path : List String)
  | collectionGroup (collectionID : String)

/-- What a cursor is given by: a document, if it exists, or values for the first orders. -/
inductive Cursor (δ υ : Type)
  | snapshot (document : Option (DocumentKey × δ))
  | fieldValues (values : List υ)

/-- A call of the builder: a filter, an order, a limit, or a cursor. -/
inductive BuilderCall (φ δ υ : Type)
  | filter (path : FieldPath φ) (op : Operator) (value : υ) (type : String)
  | orderBy (path : FieldPath φ) (direction : Direction)
  | limitToFirst (limit : ℤ)
  | limitToLast (limit : ℤ)
  | startAt (cursor : Cursor δ υ) (isBefore : Bool)
  | endAt (cursor : Cursor δ υ) (isBefore : Bool)

namespace CoreQuery

variable {δ υ : Type} [QueryValue υ] [DecidableEq φ]

/-- `ValidateOrderByField(order_by_field, inequality_field)`: what is thrown, if anything. -/
def validateOrderByField (orderByField inequalityField : FieldPath φ) :
    Option (InvalidArgument φ) :=
  if orderByField ≠ inequalityField then some (.firstOrderBy orderByField inequalityField) else none

/-- The part of `ValidateNewFilter` that is about inequalities. -/
def validateInequality (q : CoreQuery φ υ) (f : FieldFilter φ υ) : Option (InvalidArgument φ) :=
  if f.isInequality then
    (q.inequalityFilterField.bind fun existing =>
      if existing ≠ f.field then some (.inequalityFields existing f.field) else none) <|>
    q.firstOrderByField.bind fun first => validateOrderByField first f.field
  else none

/-- `ValidateNewFilter(filter)`. -/
def validateNewFilter (q : CoreQuery φ υ) (f : FieldFilter φ υ) : Option (InvalidArgument φ) :=
  q.validateInequality f <|> (q.findOperator f.op.conflictingOps).map fun conflicting =>
    if conflicting = f.op then .sameOperator f.op else .conflictingOperators f.op conflicting

/-- `ValidateNewOrderByPath(field_path)`. -/
def validateNewOrderByPath (q : CoreQuery φ υ) (path : FieldPath φ) :
    Option (InvalidArgument φ) :=
  match q.firstOrderByField with
  | none => q.inequalityFilterField.bind fun inequality => validateOrderByField path inequality
  | some _ => none

omit [DecidableEq φ] in
/-- `ValidateDisjunctiveFilterElements(field_value, op)`. -/
def validateDisjunctiveFilterElements (fieldValue : υ) (op : Operator) :
    Except (Failure φ) Unit := do
  asserted (hardAssert (type fieldValue = .array)
    "A FieldValue of Array type is required for disjunctive filters.")
  if (array fieldValue).length = 0 then throwInvalidArgument (.emptyArray op)
  else if 10 < (array fieldValue).length then throwInvalidArgument (.tooManyElements op)
  else return ()

omit [DecidableEq φ] in
/-- The key of the document with an id below the path of the query, with what is thrown for a slash
in the id, and for a path that is not one of a document. -/
def documentKey (q : CoreQuery φ υ) (documentID : String) (slash : InvalidArgument φ)
    (noDocument : List String → InvalidArgument φ) : Except (Failure φ) DocumentKey :=
  if q.collectionGroup.isNone ∧ '/' ∈ documentID.toList then throwInvalidArgument slash
  else do
    let path := q.path ++ (← asserted (fromStringView documentID))
    if h : path.length % 2 = 0 then return ⟨path, h⟩ else throwInvalidArgument (noDocument path)

omit [DecidableEq φ] in
/-- `ParseExpectedReferenceValue(field_value, type_describer)`. -/
def parseExpectedReferenceValue (q : CoreQuery φ υ) (typeDescriber : String) (fieldValue : υ) :
    Except (Failure φ) υ :=
  if type fieldValue = .string then
    if (string fieldValue).isEmpty then throwInvalidArgument .emptyDocumentID
    else do
      return fromReference (← q.documentKey (string fieldValue)
        (.slashInDocumentID (string fieldValue)) .noDocumentPath)
  else if type fieldValue = .reference then return fieldValue
  else throwInvalidArgument (.noDocumentID typeDescriber)

omit [DecidableEq φ] in
/-- The value of a filter, after the checks in `Filter` of a value against its field and its
operator. -/
def filterValue (q : CoreQuery φ υ) (fieldPath : FieldPath φ) (op : Operator) (fieldValue : υ)
    (typeDescriber : String) : Except (Failure φ) υ :=
  match fieldPath with
  | .keyFieldPath =>
    if op.isArrayOperator then throwInvalidArgument (.arrayOperatorOnKey op)
    else if op = .in ∨ op = .notIn then do
      validateDisjunctiveFilterElements fieldValue op
      let references ← (array fieldValue).mapM (q.parseExpectedReferenceValue typeDescriber)
      return fromArray references
    else q.parseExpectedReferenceValue typeDescriber fieldValue
  | .field _ => do
    if op.isDisjunctiveOperator then validateDisjunctiveFilterElements fieldValue op
    return fieldValue

/-- `Filter(field_path, op, field_value, type_describer)`. -/
def filter (q : CoreQuery φ υ) (fieldPath : FieldPath φ) (op : Operator) (fieldValue : υ)
    (typeDescriber : String) : Except (Failure φ) (CoreQuery φ υ) := do
  let fieldValue ← q.filterValue fieldPath op fieldValue typeDescriber
  let filter ← asserted (FieldFilter.create fieldPath op fieldValue)
  match q.validateNewFilter filter with
  | some e => throwInvalidArgument e
  | none => asserted (q.addingFilter filter)

/-- `OrderBy(field_path, direction)`. -/
def orderBy (q : CoreQuery φ υ) (fieldPath : FieldPath φ) (direction : Direction) :
    Except (Failure φ) (CoreQuery φ υ) :=
  match q.validateNewOrderByPath fieldPath with
  | some e => throwInvalidArgument e
  | none =>
    if q.startAt.isSome then throwInvalidArgument .startBeforeOrderBy
    else if q.endAt.isSome then throwInvalidArgument .endBeforeOrderBy
    else asserted (q.addingOrderBy ⟨fieldPath, direction⟩)

/-- `SaturatedLimitValue(limit)`: the cast to 32 bits wraps around. -/
def saturatedLimitValue (limit : ℤ) : ℤ :=
  if noLimit ≤ limit then noLimit else Int.bmod limit (2 ^ 32)

omit [DecidableEq φ] in
/-- `LimitToFirst(limit)` and `LimitToLast(limit)`. -/
def limitTo (q : CoreQuery φ υ) (limitType : LimitType) (limit : ℤ) :
    Except (Failure φ) (CoreQuery φ υ) :=
  if limit ≤ 0 then throwInvalidArgument (.limit limit)
  else .ok { q with limit := limit, limitType := limitType }

variable [DocumentFields δ φ υ]

/-- `boundFromSnapshot:isBefore:`. -/
def boundFromSnapshot (q : CoreQuery φ υ) (snapshot : Option (DocumentKey × δ))
    (isBefore : Bool) : Except (Failure φ) (Bound υ) :=
  match snapshot with
  | none => throwInvalidArgument .cursorAtMissingDocument
  | some document => do
    let orderBys ← asserted q.orderBys
    let components ← orderBys.mapM fun orderBy =>
      match orderBy.field with
      | .keyFieldPath => return fromReference document.1
      | .field name =>
        match DocumentFields.field document.2 name with
        | none => throwInvalidArgument (.cursorAtMissingField orderBy.field)
        | some value =>
          if type value = .serverTimestamp then
            throwInvalidArgument (.cursorAtServerTimestamp orderBy.field)
          else return value
    return ⟨components, isBefore⟩

omit [DecidableEq φ] [DocumentFields δ φ υ] in
/-- `boundFromFieldValues:isBefore:`. -/
def boundFromFieldValues (q : CoreQuery φ υ) (fieldValues : List υ) (isBefore : Bool) :
    Except (Failure φ) (Bound υ) :=
  if q.explicitOrderBys.length < fieldValues.length then throwInvalidArgument .tooManyCursorValues
  else do
    let components ← (fieldValues.zip q.explicitOrderBys).mapM fun (fieldValue, sortOrder) =>
      match sortOrder.field with
      | .keyFieldPath =>
        if type fieldValue ≠ .string then throwInvalidArgument .noStringInCursor
        else do
          return fromReference (← q.documentKey (string fieldValue)
            (.slashInCursor (string fieldValue)) .noDocumentPathInCursor)
      | .field _ => return fieldValue
    return ⟨components, isBefore⟩

/-- The bound that a cursor is turned into. -/
def bound (q : CoreQuery φ υ) (cursor : Cursor δ υ) (isBefore : Bool) :
    Except (Failure φ) (Bound υ) :=
  match cursor with
  | .snapshot document => q.boundFromSnapshot document isBefore
  | .fieldValues values => q.boundFromFieldValues values isBefore

/-- One call of the builder. -/
def build (q : CoreQuery φ υ) : BuilderCall φ δ υ → Except (Failure φ) (CoreQuery φ υ)
  | .filter path op value type => q.filter path op value type
  | .orderBy path direction => q.orderBy path direction
  | .limitToFirst limit => q.limitTo .first (saturatedLimitValue limit)
  | .limitToLast limit => q.limitTo .last (saturatedLimitValue limit)
  | .startAt cursor isBefore => do return { q with startAt := some (← q.bound cursor isBefore) }
  | .endAt cursor isBefore => do return { q with endAt := some (← q.bound cursor isBefore) }

omit [DecidableEq φ] in
/-- `MakeQuery(path)` of a collection reference, and `collectionGroupWithID:`. -/
def makeQuery : QueryStart → Except (Failure φ) (CoreQuery φ υ)
  | .collection path =>
    if path.length % 2 ≠ 1 then throwInvalidArgument (.collectionPath path)
    else .ok (ofPath path none)
  | .collectionGroup collectionID =>
    if '/' ∈ collectionID.toList then throwInvalidArgument (.collectionID collectionID)
    else .ok (ofPath [] (some collectionID))

/-- All calls, one after the other. -/
def buildAll (start : QueryStart) (calls : List (BuilderCall φ δ υ)) :
    Except (Failure φ) (CoreQuery φ υ) :=
  makeQuery start >>= calls.foldlM build

end CoreQuery

/-! ## What is asserted of the arguments -/

/-- An assertion fails only if `p`. -/
def Failure.Blames (p : Prop) : Failure φ → Prop
  | invalidArgument _ => True
  | assertion _ => p

lemma Failure.Blames.imp {p p' : Prop} (h : p → p') (e : Failure φ) (he : e.Blames p) :
    e.Blames p' := by
  cases e with
  | invalidArgument e => trivial
  | assertion message => exact h he

lemma ends_throw {α : Type} (p : Prop) (P : α → Prop) (e : InvalidArgument φ) :
    Ends (Failure.Blames p) P (throwInvalidArgument e) := trivial

/-- What is asserted either holds or is to blame. -/
lemma ends_asserted {α : Type} {p : Prop} {P : α → Prop} {x : Except String α}
    (h : (∃ a, x = .ok a ∧ P a) ∨ p ∧ ∀ a, x = .ok a → P a) :
    Ends (Failure.Blames p : Failure φ → Prop) P (asserted x) := by
  rcases h with ⟨a, rfl, ha⟩ | ⟨hp, hok⟩
  · exact ha
  · cases x with
    | ok a => exact hok a rfl
    | error message => exact hp

/-- An assertion of the builder. -/
lemma ends_hardAssert (c : Prop) [Decidable c] (message : String) :
    Ends (Failure.Blames (¬ c) : Failure φ → Prop) (fun _ : Unit => c)
      (asserted (hardAssert c message)) := by
  by_cases hc : c
  · rw [decide_eq_true hc]
    exact hc
  · rw [decide_eq_false hc]
    exact hc

/-- A string that is used as a path has no two slashes in a row. -/
def IsPath (s : String) : Prop := ¬ ['/', '/'] <:+: s.toList

instance (s : String) : Decidable (IsPath s) := inferInstanceAs (Decidable (¬ _))

/-- A string without slashes is a path. -/
lemma isPath_of_notMem {s : String} (h : '/' ∉ s.toList) : IsPath s :=
  fun hslashes => h (hslashes.subset List.mem_cons_self)

/-- The collection group that is asked for. -/
def QueryStart.group : QueryStart → Option String
  | collection _ => none
  | collectionGroup collectionID => some collectionID

section Fits

variable {δ υ : Type} [QueryValue υ]

/-- Where a query is for a collection group, values that are strings are paths. -/
def NamesDocuments (group : Option String) (values : List υ) : Prop :=
  group.isSome = true → ∀ v ∈ values, type v = .string → IsPath (string v)

/-- What is asserted of a cursor. -/
def Cursor.Fits (group : Option String) : Cursor δ υ → Prop
  | snapshot _ => True
  | fieldValues values => NamesDocuments group values

/-- What is asserted of the arguments of a call, and not validated: the value of a filter with a
disjunctive operator is an array, and document ids in a collection group are paths. -/
def BuilderCall.Fits (group : Option String) : BuilderCall φ δ υ → Prop
  | filter .keyFieldPath op value _ =>
    (op = .in ∨ op = .notIn → type value = .array) ∧ NamesDocuments group (value :: array value)
  | filter (.field _) op value _ => op.isDisjunctiveOperator = true → type value = .array
  | orderBy _ _ => True
  | limitToFirst _ => True
  | limitToLast _ => True
  | startAt cursor _ => cursor.Fits group
  | endAt cursor _ => cursor.Fits group

end Fits

namespace CoreQuery

variable {δ υ : Type} [QueryValue υ] [DecidableEq φ]

omit [DecidableEq φ] in
/-- Only arrays are validated as the values of disjunctive filters. -/
lemma ends_validateDisjunctiveFilterElements (value : υ) (op : Operator) :
    Ends (Failure.Blames (type value ≠ .array) : Failure φ → Prop)
      (fun _ => type value = .array) (validateDisjunctiveFilterElements value op) := by
  refine (ends_hardAssert _ _).bind fun _ harray => ?_
  exact Ends.ite (fun _ => ends_throw _ _ _) fun _ =>
    Ends.ite (fun _ => ends_throw _ _ _) fun _ => harray

omit [DecidableEq φ] in
/-- A document id in a collection is a path, or it has been refused. -/
lemma ends_documentKey (q : CoreQuery φ υ) (documentID : String) (slash : InvalidArgument φ)
    (noDocument : List String → InvalidArgument φ) :
    Ends (Failure.Blames (q.collectionGroup.isSome = true ∧ ¬ IsPath documentID))
      (fun _ => True) (q.documentKey documentID slash noDocument) := by
  refine Ends.ite (fun _ => ends_throw _ _ _) fun hslash => ?_
  have hpath : Ends (Failure.Blames (q.collectionGroup.isSome = true ∧ ¬ IsPath documentID))
      (fun _ => True) (asserted (fromStringView documentID) : Except (Failure φ) _) := by
    by_cases hpath : IsPath documentID
    · refine ends_asserted (Or.inl ⟨ResourcePath.fromString documentID, ?_, trivial⟩)
      unfold fromStringView
      rw [show decide (¬ ['/', '/'] <:+: documentID.toList) = true from decide_eq_true hpath]
      rfl
    · refine ends_asserted (Or.inr ⟨⟨?_, hpath⟩, fun _ _ => trivial⟩)
      by_contra hgroup
      rw [Option.not_isSome_iff_eq_none] at hgroup
      exact hslash ⟨by rw [hgroup]; rfl, by_contra fun hmem => hpath (isPath_of_notMem hmem)⟩
  refine hpath.bind fun path _ => ?_
  by_cases heven : (q.path ++ path).length % 2 = 0
  · simp only [dif_pos heven]
    trivial
  · simp only [dif_neg heven]
    trivial

omit [DecidableEq φ] in
/-- What is expected to be a reference becomes one. -/
lemma ends_parseExpectedReferenceValue (q : CoreQuery φ υ) (typeDescriber : String) (value : υ) :
    Ends (Failure.Blames (q.collectionGroup.isSome = true ∧ type value = .string ∧
        ¬ IsPath (string value)))
      (fun v => type v = .reference) (q.parseExpectedReferenceValue typeDescriber value) := by
  refine Ends.ite (fun hstring => ?_) fun _ => Ends.ite (fun href => href) fun _ => ends_throw _ _ _
  refine Ends.ite (fun _ => ends_throw _ _ _) fun _ => ?_
  refine ((ends_documentKey q _ _ _).imp_error ?_).bind fun key _ => type_fromReference key
  exact Failure.Blames.imp fun h => ⟨h.1, hstring, h.2⟩

omit [DecidableEq φ] in
/-- **The value of a filter** is one that the filter can be made of. -/
lemma ends_filterValue (q : CoreQuery φ υ) (path : FieldPath φ) (op : Operator) (value : υ)
    (typeDescriber : String) :
    Ends (Failure.Blames
        ¬ (BuilderCall.filter path op value typeDescriber : BuilderCall φ δ υ).Fits
          q.collectionGroup)
      (fun v => FieldFilter.assertValid path op v = .ok ())
      (q.filterValue path op value typeDescriber) := by
  have harray : ∀ p : Prop, (type value ≠ .array → p) →
      Ends (Failure.Blames p : Failure φ → Prop) (fun _ => type value = .array)
        (validateDisjunctiveFilterElements value op) := fun p h =>
    (ends_validateDisjunctiveFilterElements value op).imp_error (Failure.Blames.imp h)
  have href : ∀ v ∈ value :: array value, Ends (Failure.Blames
        ¬ (BuilderCall.filter .keyFieldPath op value typeDescriber : BuilderCall φ δ υ).Fits
          q.collectionGroup) (fun v => type v = .reference)
      (q.parseExpectedReferenceValue typeDescriber v) := by
    intro v hv
    refine (ends_parseExpectedReferenceValue q typeDescriber v).imp_error ?_
    exact Failure.Blames.imp fun h hfits => h.2.2 (hfits.2 h.1 v hv h.2.1)
  cases path with
  | keyFieldPath =>
    refine Ends.ite (fun _ => ends_throw _ _ _) fun hno => Ends.ite (fun hop => ?_) fun hop => ?_
    · refine (harray _ fun h hfits => h (hfits.1 hop)).bind fun _ _ => ?_
      refine (Ends.mapM_forall fun v hv => href v (List.mem_cons_of_mem _ hv)).bind
        fun references hrefs => ?_
      exact FieldFilter.assertValid_of_references hop hrefs
    · refine (href value List.mem_cons_self).imp fun v hv => ?_
      exact FieldFilter.assertValid_of_reference hop (Bool.eq_false_iff.mpr hno) hv
  | field name =>
    cases hop : op.isDisjunctiveOperator with
    | false =>
      simp only [filterValue, hop]
      exact FieldFilter.assertValid_of_array name fun h => by rw [hop] at h; cases h
    | true =>
      simp only [filterValue, hop, if_true]
      refine (harray _ fun h hfits => h (hfits hop)).bind fun _ hvalue => ?_
      exact FieldFilter.assertValid_of_array name fun _ => hvalue

/-! ## What holds of a query that is built -/

/-- The orders, where they can be determined. -/
def ordering (q : CoreQuery φ υ) : List (OrderBy φ) :=
  match q.orderBys with
  | .ok ordering => ordering
  | .error _ => []

/-- What holds of a query that is built: inequality filters are on one field, which the first
order is on, no two filters have operators in conflict, a limit is positive, and cursors fit the
orders. -/
structure WellFormed (q : CoreQuery φ υ) : Prop where
  notDocument : q.collectionGroup = none → q.path.length % 2 = 1
  oneInequality : ∀ f ∈ q.filters, f.isInequality = true → q.inequalityFilterField = some f.field
  firstOrder : ∀ i o, q.inequalityFilterField = some i → q.firstOrderByField = some o → i = o
  operators : q.filters.Pairwise fun f g => g.op ∉ f.op.conflictingOps
  limit : q.limitType ≠ .none → 0 < q.limit
  unlimited : q.limitType = .none → q.limit = noLimit
  startAt : ∀ bound ∈ q.startAt, bound.Fits q.ordering
  endAt : ∀ bound ∈ q.endAt, bound.Fits q.ordering

/-- The explicit orders, with an order by key if there is none. -/
def orderBysWithKey (q : CoreQuery φ υ) : List (OrderBy φ) :=
  if q.explicitOrderBys.any fun o => o.field = .keyFieldPath then q.explicitOrderBys
  else q.explicitOrderBys ++ [⟨.keyFieldPath, q.lastDirection⟩]

/-- The orders, if there are none but an inequality filter. -/
lemma orderBys_of_inequality {q : CoreQuery φ υ} {i : FieldPath φ}
    (hi : q.inequalityFilterField = some i) (ho : q.explicitOrderBys = []) :
    q.orderBys = .ok (if i = .keyFieldPath then [⟨.keyFieldPath, .ascending⟩]
      else [⟨i, .ascending⟩, ⟨.keyFieldPath, .ascending⟩]) := by
  have hfirst : q.firstOrderByField = none := by rw [firstOrderByField, ho]; rfl
  unfold orderBys
  rw [hi, hfirst]
  dsimp only
  split_ifs <;> rfl

/-- The orders, in the other cases. -/
lemma orderBys_of_explicit {q : CoreQuery φ υ}
    (hfirst : ∀ i o, q.inequalityFilterField = some i → q.firstOrderByField = some o → i = o)
    (h : q.inequalityFilterField = none ∨ q.explicitOrderBys ≠ []) :
    q.orderBys = .ok q.orderBysWithKey := by
  have hassert : (q.inequalityFilterField.all fun field =>
      q.firstOrderByField = some field) = true := by
    cases hi : q.inequalityFilterField with
    | none => rfl
    | some i =>
      rw [hi] at h
      obtain ⟨o, os, hos⟩ := List.exists_cons_of_ne_nil (h.resolve_left (by simp))
      have ho : q.firstOrderByField = some o.field := by rw [firstOrderByField, hos]; rfl
      simp [ho, hfirst i o.field hi ho]
  have hmatch : q.orderBys = (do
      hardAssert (q.inequalityFilterField.all fun field => q.firstOrderByField = some field)
        "First orderBy %s should match inequality field %s."
      if q.explicitOrderBys.any fun o => o.field = .keyFieldPath then return q.explicitOrderBys
      else return q.explicitOrderBys ++ [⟨.keyFieldPath, q.lastDirection⟩]) := by
    unfold orderBys
    cases hi : q.inequalityFilterField with
    | none => rfl
    | some i =>
      cases ho : q.firstOrderByField with
      | some o => rfl
      | none =>
        rw [hi] at h
        obtain ⟨o, os, hos⟩ := List.exists_cons_of_ne_nil (h.resolve_left (by simp))
        rw [firstOrderByField, hos] at ho
        cases ho
  rw [hmatch, hassert, hardAssert_true, orderBysWithKey]
  show (if _ then _ else _) = _
  split_ifs <;> rfl

/-- The orders are the field of an inequality and the key, or the explicit ones with one by key. -/
lemma orderBys_cases {q : CoreQuery φ υ}
    (hfirst : ∀ i o, q.inequalityFilterField = some i → q.firstOrderByField = some o → i = o) :
    (∃ i, q.inequalityFilterField = some i ∧
      q.orderBys = .ok (if i = .keyFieldPath then [⟨.keyFieldPath, .ascending⟩]
        else [⟨i, .ascending⟩, ⟨.keyFieldPath, .ascending⟩])) ∨
      q.orderBys = .ok q.orderBysWithKey := by
  cases hi : q.inequalityFilterField with
  | none => exact Or.inr (orderBys_of_explicit hfirst (Or.inl hi))
  | some i =>
    by_cases ho : q.explicitOrderBys = []
    · exact Or.inl ⟨i, rfl, orderBys_of_inequality hi ho⟩
    · exact Or.inr (orderBys_of_explicit hfirst (Or.inr ho))

/-- The orders can be determined, if the first one is on the field of the inequality filters. -/
lemma orderBys_eq {q : CoreQuery φ υ}
    (hfirst : ∀ i o, q.inequalityFilterField = some i → q.firstOrderByField = some o → i = o) :
    q.orderBys = .ok q.ordering := by
  rcases orderBys_cases hfirst with ⟨i, -, h⟩ | h
  · rw [CoreQuery.ordering, h]
  · rw [CoreQuery.ordering, h]

/-- One of the orders is by key. -/
lemma exists_key_ordering {q : CoreQuery φ υ}
    (hfirst : ∀ i o, q.inequalityFilterField = some i → q.firstOrderByField = some o → i = o) :
    ∃ o ∈ q.ordering, o.field = .keyFieldPath := by
  unfold CoreQuery.ordering
  rcases orderBys_cases hfirst with ⟨i, -, h⟩ | h
  · rw [h]
    refine ⟨⟨.keyFieldPath, .ascending⟩, ?_, rfl⟩
    dsimp only
    split_ifs
    · exact List.mem_cons_self
    · exact List.mem_cons_of_mem _ List.mem_cons_self
  · rw [h]
    dsimp only [orderBysWithKey]
    split_ifs with hany
    · obtain ⟨o, ho, hkey⟩ := List.any_eq_true.mp hany
      exact ⟨o, ho, by simpa using hkey⟩
    · exact ⟨⟨.keyFieldPath, q.lastDirection⟩, by simp, rfl⟩

omit [DecidableEq φ] in
/-- A filter on an inequality is among the filters. -/
lemma mem_of_inequalityFilterField {q : CoreQuery φ υ} {i : FieldPath φ}
    (h : q.inequalityFilterField = some i) : ∃ f ∈ q.filters, f.field = i := by
  obtain ⟨f, hf, rfl⟩ := Option.map_eq_some_iff.mp h
  exact ⟨f, List.mem_of_find?_eq_some hf, rfl⟩

section Matching

variable [BEq υ] [Ord υ] [DocumentFields δ φ υ]

omit [DecidableEq φ] in
/-- Matching all filters does not fail. -/
lemma matchesFilters_ok (filters : List (FieldFilter φ υ)) (doc : DocumentKey × δ) :
    ∃ b, matchesFilters filters doc = .ok b := by
  unfold matchesFilters
  induction filters with
  | nil => exact ⟨true, rfl⟩
  | cons f filters ih =>
    obtain ⟨b, hb⟩ := f.matches_ok doc.1 doc.2
    rw [List.allM, hb]
    cases b with
    | false => exact ⟨false, rfl⟩
    | true => exact ih

omit [DecidableEq φ] in
/-- What matches all filters matches each. -/
lemma matches_of_matchesFilters {filters : List (FieldFilter φ υ)} {doc : DocumentKey × δ}
    (h : matchesFilters filters doc = .ok true) :
    ∀ f ∈ filters, f.Matches doc.1 doc.2 = .ok true := by
  unfold matchesFilters at h
  induction filters with
  | nil => exact fun f hf => absurd hf List.not_mem_nil
  | cons f filters ih =>
    rw [List.allM] at h
    obtain ⟨b, hb, h⟩ := ok_of_bind h
    cases b with
    | false => cases h
    | true => exact List.forall_mem_cons.mpr ⟨hb, ih h⟩

/-- **A document that matches** filters and explicit orders has the fields of all orders. -/
lemma hasFields_ordering {q : CoreQuery φ υ}
    (hfirst : ∀ i o, q.inequalityFilterField = some i → q.firstOrderByField = some o → i = o)
    {doc : DocumentKey × δ} (horder : matchesOrderBy q.explicitOrderBys doc.2 = true)
    (hfilters : matchesFilters q.filters doc = .ok true) : HasFields q.ordering doc.2 := by
  unfold CoreQuery.ordering
  rcases orderBys_cases hfirst with ⟨i, hi, h⟩ | h
  · rw [h]
    obtain ⟨f, hf, rfl⟩ := mem_of_inequalityFilterField hi
    intro o ho name hname
    -- The order by a field other than the key is the one of the inequality.
    have hfield : f.field = .field name := by
      dsimp only at ho
      split_ifs at ho with hkey
      · obtain rfl := List.mem_singleton.mp ho
        cases hname
      · rcases List.mem_cons.mp ho with rfl | ho
        · exact hname
        · obtain rfl := List.mem_singleton.mp ho
          cases hname
    exact FieldFilter.isSome_of_matches hfield (matches_of_matchesFilters hfilters f hf)
  · rw [h]
    have hfields : HasFields q.explicitOrderBys doc.2 := by
      intro o ho name hname
      have hfield := List.all_eq_true.mp horder o ho
      rwa [hname] at hfield
    dsimp only [orderBysWithKey]
    split_ifs
    · exact hfields
    · intro o ho name hname
      rcases List.mem_append.mp ho with ho | ho
      · exact hfields o ho name hname
      · obtain rfl := List.mem_singleton.mp ho
        cases hname

/-- What matching a document with a well-formed query comes to. -/
lemma WellFormed.matches_spec {q : CoreQuery φ υ} (hq : q.WellFormed) (doc : DocumentKey × δ) :
    ∃ b, q.Matches doc = .ok b ∧ (b = true → HasFields q.ordering doc.2) := by
  unfold CoreQuery.Matches
  cases matchesPathAndCollectionGroup q.path q.collectionGroup doc.1 with
  | false => exact ⟨false, rfl, fun h => by cases h⟩
  | true =>
    cases horder : matchesOrderBy q.explicitOrderBys doc.2 with
    | false => exact ⟨false, rfl, fun h => by cases h⟩
    | true =>
      obtain ⟨filtered, hfilters⟩ := matchesFilters_ok q.filters doc
      simp only [hfilters, orderBys_eq hq.firstOrder]
      cases filtered with
      | false => exact ⟨false, rfl, fun h => by cases h⟩
      | true =>
        have hfields := hasFields_ordering hq.firstOrder horder hfilters
        obtain ⟨b, hb⟩ := matchesBounds_ok hq.startAt hq.endAt hfields
        exact ⟨b, hb, fun _ => hfields⟩

end Matching

/-! ## One call -/

/-- A query without filters, orders and cursors is well formed. -/
lemma wellFormed_ofPath {path : List String} {group : Option String}
    (h : group = none → path.length % 2 = 1) : (ofPath path group : CoreQuery φ υ).WellFormed where
  notDocument := h
  oneInequality f hf := by cases hf
  firstOrder i o hi := by cases hi
  operators := List.Pairwise.nil
  limit h := absurd rfl h
  unlimited _ := rfl
  startAt bound h := by cases h
  endAt bound h := by cases h

omit [DecidableEq φ] in
/-- A query for a collection or a collection group is not one for a document. -/
lemma not_isDocumentQuery {q : CoreQuery φ υ}
    (h : q.collectionGroup = none → q.path.length % 2 = 1) : q.isDocumentQuery = false := by
  unfold isDocumentQuery isDocumentKey
  cases hgroup : q.collectionGroup with
  | none => simp [h hgroup]
  | some id => simp

omit [DecidableEq φ] in
/-- The inequality field, after a filter is added. -/
lemma inequalityFilterField_append (q : CoreQuery φ υ) (f : FieldFilter φ υ) :
    ({ q with filters := q.filters ++ [f] } : CoreQuery φ υ).inequalityFilterField =
      q.inequalityFilterField.or (if f.isInequality then some f.field else none) := by
  unfold inequalityFilterField
  rw [List.find?_append]
  cases q.filters.find? FieldFilter.isInequality with
  | some g => rfl
  | none => cases hf : f.isInequality <;> simp [List.find?, hf]

/-- What a filter that passes the validation of inequalities fits. -/
lemma of_validateInequality {q : CoreQuery φ υ} {f : FieldFilter φ υ}
    (h : q.validateInequality f = none) (hf : f.isInequality = true) :
    (∀ i, q.inequalityFilterField = some i → i = f.field) ∧
      ∀ o, q.firstOrderByField = some o → o = f.field := by
  unfold validateInequality at h
  rw [if_pos hf] at h
  cases hi : q.inequalityFilterField <;> cases ho : q.firstOrderByField <;>
    simp_all [validateOrderByField]

/-- **Cursors still fit** when a filter is added. If it adds an order, there was only the one by
key before, so a cursor has one value at most. -/
lemma fits_addingFilter {q : CoreQuery φ υ} {f : FieldFilter φ υ}
    (hfirst : ∀ i o, q.inequalityFilterField = some i → q.firstOrderByField = some o → i = o)
    (hfirst' : ∀ i o,
      ({ q with filters := q.filters ++ [f] } : CoreQuery φ υ).inequalityFilterField = some i →
        q.firstOrderByField = some o → i = o) {bound : Bound υ}
    (h : bound.Fits q.ordering) :
    bound.Fits ({ q with filters := q.filters ++ [f] } : CoreQuery φ υ).ordering := by
  set q' : CoreQuery φ υ := { q with filters := q.filters ++ [f] } with hq'
  have hfield : q'.inequalityFilterField =
      q.inequalityFilterField.or (if f.isInequality then some f.field else none) :=
    inequalityFilterField_append q f
  have hsame : q'.orderBys = q.orderBys → bound.Fits q'.ordering := by
    intro heq
    unfold CoreQuery.ordering at h ⊢
    rwa [heq]
  by_cases ho : q.explicitOrderBys = []
  · cases hi : q.inequalityFilterField with
    | some i =>
      rw [hi] at hfield
      refine hsame ?_
      rw [orderBys_of_inequality hi ho, orderBys_of_inequality (q := q') hfield ho]
    | none =>
      rw [hi, Option.none_or] at hfield
      cases hf : f.isInequality with
      | false =>
        rw [hf] at hfield
        refine hsame ?_
        rw [orderBys_of_explicit hfirst (Or.inl hi),
          orderBys_of_explicit (q := q') hfirst' (Or.inl hfield)]
        rfl
      | true =>
        rw [hf, if_pos rfl] at hfield
        have hordering : q.ordering = [⟨.keyFieldPath, .ascending⟩] := by
          rw [CoreQuery.ordering, orderBys_of_explicit hfirst (Or.inl hi), orderBysWithKey]
          simp [ho, lastDirection]
        have hordering' : q'.ordering = if f.field = .keyFieldPath then
            [⟨.keyFieldPath, .ascending⟩]
            else [⟨f.field, .ascending⟩, ⟨.keyFieldPath, .ascending⟩] := by
          rw [CoreQuery.ordering, orderBys_of_inequality (q := q') hfield ho]
        rw [hordering] at h
        rw [hordering']
        split_ifs with hkey
        · exact h
        · obtain ⟨position, before⟩ := bound
          obtain ⟨hlength, hkeys⟩ := h
          match position, hlength with
          | [], _ => exact ⟨Nat.zero_le _, fun p hp => absurd hp List.not_mem_nil⟩
          | [value], _ =>
            refine ⟨Nat.le_succ 1, fun p hp hp' => ?_⟩
            obtain rfl := List.mem_singleton.mp hp
            exact absurd hp' hkey
  · refine hsame ?_
    rw [orderBys_of_explicit hfirst (Or.inr ho), orderBys_of_explicit (q := q') hfirst' (Or.inr ho)]
    rfl

/-- A filter that passes the validation can be added. -/
lemma WellFormed.addingFilter {q : CoreQuery φ υ} (hq : q.WellFormed) {f : FieldFilter φ υ}
    (h : q.validateNewFilter f = none) :
    q.addingFilter f = .ok { q with filters := q.filters ++ [f] } ∧
      ({ q with filters := q.filters ++ [f] } : CoreQuery φ υ).WellFormed := by
  have hinequality : q.validateInequality f = none := by
    cases hv : q.validateInequality f with
    | none => rfl
    | some e => simp [validateNewFilter, hv] at h
  have hfind : q.findOperator f.op.conflictingOps = none := by
    simpa [validateNewFilter, hinequality] using h
  have hops : ∀ g ∈ q.filters, g.op ∉ f.op.conflictingOps := by
    simpa [findOperator] using hfind
  have hfield := inequalityFilterField_append q f
  have hassert : (!f.isInequality || q.inequalityFilterField.all fun field =>
      field = f.field) = true := by
    cases hf : f.isInequality with
    | false => rfl
    | true =>
      have hsame := (of_validateInequality hinequality hf).1
      cases hi : q.inequalityFilterField with
      | none => rfl
      | some i => simp [hsame i hi]
  have hfirst : ∀ i o, ({ q with filters := q.filters ++ [f] } :
      CoreQuery φ υ).inequalityFilterField = some i → q.firstOrderByField = some o → i = o := by
    intro i o hi ho
    rw [hfield] at hi
    cases hiq : q.inequalityFilterField with
    | some i' =>
      rw [hiq] at hi
      obtain rfl : i' = i := by simpa using hi
      exact hq.firstOrder i' o hiq ho
    | none =>
      rw [hiq] at hi
      cases hf : f.isInequality with
      | false => simp [hf] at hi
      | true =>
        obtain rfl : f.field = i := by simpa [hf] using hi
        exact ((of_validateInequality hinequality hf).2 o ho).symm
  refine ⟨?_, hq.notDocument, ?_, hfirst, ?_, hq.limit, hq.unlimited,
    fun bound hb => fits_addingFilter hq.firstOrder hfirst (hq.startAt bound hb),
    fun bound hb => fits_addingFilter hq.firstOrder hfirst (hq.endAt bound hb)⟩
  · unfold CoreQuery.addingFilter
    simp only [not_isDocumentQuery hq.notDocument, Bool.not_false, hassert, hardAssert_true]
    rfl
  · intro g hg hgi
    rw [hfield]
    rcases List.mem_append.mp hg with hg | hg
    · rw [hq.oneInequality g hg hgi]
      rfl
    · obtain rfl := List.mem_singleton.mp hg
      have hsame := (of_validateInequality hinequality hgi).1
      rw [if_pos hgi]
      cases hi : q.inequalityFilterField with
      | none => rfl
      | some i => rw [hsame i hi]; rfl
  · refine List.pairwise_append.mpr ⟨hq.operators, List.pairwise_singleton _ _, ?_⟩
    intro g hg f' hf'
    obtain rfl := List.mem_singleton.mp hf'
    exact fun hmem => hops g hg (Operator.conflictingOps_symm hmem)

/-- An order that passes the validation can be added, if there are no cursors. -/
lemma WellFormed.addingOrderBy {q : CoreQuery φ υ} (hq : q.WellFormed) {o : OrderBy φ}
    (h : q.validateNewOrderByPath o.field = none) (hstart : q.startAt = none)
    (hend : q.endAt = none) :
    q.addingOrderBy o = .ok { q with explicitOrderBys := q.explicitOrderBys ++ [o] } ∧
      ({ q with explicitOrderBys := q.explicitOrderBys ++ [o] } : CoreQuery φ υ).WellFormed := by
  have hfirst : q.explicitOrderBys = [] → ∀ i, q.inequalityFilterField = some i → o.field = i := by
    intro hnil i hi
    simpa [validateNewOrderByPath, firstOrderByField, hnil, hi, validateOrderByField] using h
  have hassert : (!q.explicitOrderBys.isEmpty || q.inequalityFilterField.all fun field =>
      field = o.field) = true := by
    cases hos : q.explicitOrderBys with
    | cons o' os => rfl
    | nil =>
      cases hi : q.inequalityFilterField with
      | none => rfl
      | some i => simp [hfirst hos i hi]
  refine ⟨?_, hq.notDocument, hq.oneInequality, ?_, hq.operators, hq.limit, hq.unlimited, ?_, ?_⟩
  · unfold CoreQuery.addingOrderBy
    simp only [not_isDocumentQuery hq.notDocument, Bool.not_false, hassert, hardAssert_true]
    rfl
  · intro i o' hi ho'
    change q.inequalityFilterField = some i at hi
    cases hos : q.explicitOrderBys with
    | nil =>
      have heq : o.field = o' := by simpa [firstOrderByField, hos] using ho'
      rw [← heq, hfirst hos i hi]
    | cons o₁ os =>
      refine hq.firstOrder i o' hi ?_
      simpa [firstOrderByField, hos] using ho'
  · intro bound hbound
    rw [hstart] at hbound
    cases hbound
  · intro bound hbound
    rw [hend] at hbound
    cases hbound

/-- **A filter call** on a well-formed query. -/
lemma WellFormed.filter {q : CoreQuery φ υ} (hq : q.WellFormed) (path : FieldPath φ)
    (op : Operator) (value : υ) (typeDescriber : String) :
    Ends (Failure.Blames
        ¬ (BuilderCall.filter path op value typeDescriber : BuilderCall φ δ υ).Fits
          q.collectionGroup)
      (fun q' => q'.WellFormed ∧ q'.collectionGroup = q.collectionGroup)
      (q.filter path op value typeDescriber) := by
  refine (ends_filterValue q path op value typeDescriber).bind fun v hv => ?_
  rw [FieldFilter.create_eq hv]
  show Ends _ _ (match q.validateNewFilter ⟨path, op, v, hv⟩ with
    | some e => throwInvalidArgument e
    | none => asserted (q.addingFilter ⟨path, op, v, hv⟩))
  cases h : q.validateNewFilter ⟨path, op, v, hv⟩ with
  | some e => trivial
  | none =>
    obtain ⟨hadd, hwell⟩ := hq.addingFilter h
    exact ends_asserted (Or.inl ⟨_, hadd, hwell, rfl⟩)

/-- **An order call** on a well-formed query. -/
lemma WellFormed.orderBy {q : CoreQuery φ υ} (hq : q.WellFormed) (path : FieldPath φ)
    (direction : Direction) :
    Ends (Failure.Blames False)
      (fun q' => q'.WellFormed ∧ q'.collectionGroup = q.collectionGroup)
      (q.orderBy path direction) := by
  unfold CoreQuery.orderBy
  cases h : q.validateNewOrderByPath path with
  | some e => trivial
  | none =>
    refine Ends.ite (fun _ => ends_throw _ _ _) fun hstart => Ends.ite (fun _ => ends_throw _ _ _)
      fun hend => ?_
    rw [Option.not_isSome_iff_eq_none] at hstart hend
    obtain ⟨hadd, hwell⟩ := hq.addingOrderBy (o := ⟨path, direction⟩) h hstart hend
    exact ends_asserted (Or.inl ⟨_, hadd, hwell, rfl⟩)

/-- **A limit call** on a well-formed query. -/
lemma WellFormed.limitTo {q : CoreQuery φ υ} (hq : q.WellFormed) {limitType : LimitType}
    (htype : limitType ≠ .none) (limit : ℤ) :
    Ends (Failure.Blames False)
      (fun q' => q'.WellFormed ∧ q'.collectionGroup = q.collectionGroup)
      (q.limitTo limitType limit) :=
  Ends.ite (fun _ => ends_throw _ _ _) fun hpos =>
    ⟨⟨hq.notDocument, hq.oneInequality, hq.firstOrder, hq.operators, fun _ => not_le.mp hpos,
      fun h => absurd h htype, hq.startAt, hq.endAt⟩, rfl⟩

section Cursors

omit [DecidableEq φ] in
/-- Values that fit some of the first orders, one by one, fit the orders. -/
lemma fits_of_front {front ordering : List (OrderBy φ)} {components : List υ}
    (hfront : front <+: ordering) (isBefore : Bool)
    (h : List.Forall₂ (fun o v => o.field = .keyFieldPath → type v = .reference) front components) :
    (⟨components, isBefore⟩ : Bound υ).Fits ordering := by
  obtain ⟨others, rfl⟩ := hfront
  constructor
  · rw [List.length_append, h.length_eq]
    exact Nat.le_add_right _ _
  · rintro ⟨v, o⟩ hp
    have hzip : components.zip (front ++ others) = components.zip front := by
      have happend : (components ++ []).zip (front ++ others) =
          components.zip front ++ [].zip others := List.zip_append h.length_eq.symm
      rwa [List.append_nil, List.zip_nil_left, List.append_nil] at happend
    rw [hzip] at hp
    have hflip : List.Forall₂ (flip fun (o : OrderBy φ) (v : υ) =>
        o.field = .keyFieldPath → type v = .reference) components front := List.Forall₂.flip h
    exact List.forall₂_zip hflip hp

variable [DocumentFields δ φ υ]

/-- A cursor that is a document fits the orders. -/
lemma ends_boundFromSnapshot {q : CoreQuery φ υ}
    (hfirst : ∀ i o, q.inequalityFilterField = some i → q.firstOrderByField = some o → i = o)
    (snapshot : Option (DocumentKey × δ)) (isBefore : Bool) :
    Ends (Failure.Blames False) (fun bound : Bound υ => bound.Fits q.ordering)
      (q.boundFromSnapshot snapshot isBefore) := by
  cases snapshot with
  | none => trivial
  | some document =>
    unfold boundFromSnapshot
    rw [orderBys_eq hfirst]
    show Ends _ _ (q.ordering.mapM _ >>= _)
    refine (Ends.mapM (R := fun (o : OrderBy φ) (v : υ) =>
      o.field = .keyFieldPath → type v = .reference) fun o _ => ?_).bind fun components h => ?_
    · cases hfield : o.field with
      | keyFieldPath => exact fun _ => type_fromReference _
      | field name =>
        dsimp only
        cases DocumentFields.field document.2 name with
        | none => trivial
        | some value => exact Ends.ite (fun _ => ends_throw _ _ _) fun _ h => by cases h
    · exact fits_of_front (List.prefix_refl _) isBefore h

omit [DocumentFields δ φ υ] in
/-- A cursor that is given by values fits the orders. -/
lemma ends_boundFromFieldValues {q : CoreQuery φ υ}
    (hfirst : ∀ i o, q.inequalityFilterField = some i → q.firstOrderByField = some o → i = o)
    (fieldValues : List υ) (isBefore : Bool) :
    Ends (Failure.Blames ¬ NamesDocuments q.collectionGroup fieldValues)
      (fun bound : Bound υ => bound.Fits q.ordering)
      (q.boundFromFieldValues fieldValues isBefore) := by
  refine Ends.ite (fun _ => ends_throw _ _ _) fun _ => ?_
  refine (Ends.mapM (R := fun (p : υ × OrderBy φ) (v : υ) =>
    p.2.field = .keyFieldPath → type v = .reference) fun p hp => ?_).bind fun components h => ?_
  · obtain ⟨value, o⟩ := p
    dsimp only
    cases hfield : o.field with
    | field name => exact fun h => by cases h
    | keyFieldPath =>
      refine Ends.ite (fun _ => ends_throw _ _ _) fun hstring => ?_
      refine ((ends_documentKey q _ _ _).imp_error ?_).bind fun key _ _ => type_fromReference key
      exact Failure.Blames.imp fun h hnames =>
        h.2 (hnames h.1 value (List.of_mem_zip hp).1 (not_not.mp hstring))
  · have hfront : ∀ (values : List υ) (orderBys : List (OrderBy φ)),
        (values.zip orderBys).map Prod.snd <+: orderBys := by
      intro values
      induction values with
      | nil => exact fun _ => List.nil_prefix
      | cons value values ih =>
        intro orderBys
        cases orderBys with
        | nil => exact List.nil_prefix
        | cons o orderBys => exact List.cons_prefix_cons.mpr ⟨rfl, ih orderBys⟩
    have hexplicit : ((fieldValues.zip q.explicitOrderBys).map Prod.snd) <+: q.ordering := by
      by_cases ho : q.explicitOrderBys = []
      · rw [ho, List.zip_nil_right]
        exact List.nil_prefix
      · refine (hfront fieldValues _).trans ?_
        rw [CoreQuery.ordering, orderBys_of_explicit hfirst (Or.inr ho)]
        dsimp only [orderBysWithKey]
        split_ifs
        · exact List.prefix_refl _
        · exact List.prefix_append _ _
    refine fits_of_front hexplicit isBefore ?_
    rwa [List.forall₂_map_left_iff]

end Cursors

section Build

variable [DocumentFields δ φ υ]

/-- The bound that a cursor is turned into fits the orders. -/
lemma ends_bound {q : CoreQuery φ υ} (hq : q.WellFormed) (cursor : Cursor δ υ) (isBefore : Bool) :
    Ends (Failure.Blames ¬ cursor.Fits q.collectionGroup)
      (fun bound => bound.Fits q.ordering) (q.bound cursor isBefore) := by
  cases cursor with
  | snapshot document =>
    refine (ends_boundFromSnapshot hq.firstOrder document isBefore).imp_error ?_
    exact Failure.Blames.imp False.elim
  | fieldValues values => exact ends_boundFromFieldValues hq.firstOrder values isBefore

/-- **One builder call** on a well-formed query makes a well-formed query or is thrown out as an
invalid argument; an assertion fails only if the call does not fit. -/
lemma WellFormed.build {q : CoreQuery φ υ} (hq : q.WellFormed) (call : BuilderCall φ δ υ) :
    Ends (Failure.Blames ¬ call.Fits q.collectionGroup)
      (fun q' => q'.WellFormed ∧ q'.collectionGroup = q.collectionGroup) (q.build call) := by
  cases call with
  | filter path op value type => exact hq.filter path op value type
  | orderBy path direction =>
    exact (hq.orderBy path direction).imp_error (Failure.Blames.imp False.elim)
  | limitToFirst limit =>
    exact (hq.limitTo (by decide) _).imp_error (Failure.Blames.imp False.elim)
  | limitToLast limit =>
    exact (hq.limitTo (by decide) _).imp_error (Failure.Blames.imp False.elim)
  | startAt cursor isBefore =>
    refine (ends_bound hq cursor isBefore).bind fun bound hbound => ⟨⟨hq.notDocument,
      hq.oneInequality, hq.firstOrder, hq.operators, hq.limit, hq.unlimited, ?_, hq.endAt⟩, rfl⟩
    intro bound' h
    cases h
    exact hbound
  | endAt cursor isBefore =>
    refine (ends_bound hq cursor isBefore).bind fun bound hbound => ⟨⟨hq.notDocument,
      hq.oneInequality, hq.firstOrder, hq.operators, hq.limit, hq.unlimited, hq.startAt, ?_⟩, rfl⟩
    intro bound' h
    cases h
    exact hbound

/-- **Every query that is built** is well formed; an assertion fails only for a call that does not
fit. -/
lemma ends_buildAll (start : QueryStart) (calls : List (BuilderCall φ δ υ)) :
    Ends (Failure.Blames (∃ call ∈ calls, ¬ call.Fits start.group)) WellFormed
      (buildAll start calls) := by
  have hstart : Ends (Failure.Blames (∃ call ∈ calls, ¬ call.Fits start.group))
      (fun q : CoreQuery φ υ => q.WellFormed ∧ q.collectionGroup = start.group)
      (makeQuery start) := by
    cases start with
    | collection path =>
      refine Ends.ite (fun _ => ends_throw _ _ _) fun hodd => ⟨wellFormed_ofPath fun _ => ?_, rfl⟩
      exact not_not.mp hodd
    | collectionGroup id =>
      exact Ends.ite (fun _ => ends_throw _ _ _) fun _ =>
        ⟨wellFormed_ofPath (fun h => by cases h), rfl⟩
  refine hstart.bind fun q hq => (Ends.foldlM (I := fun q : CoreQuery φ υ =>
    q.WellFormed ∧ q.collectionGroup = start.group) hq fun call hcall q hq => ?_).imp
      fun q hq => hq.1
  obtain ⟨hwell, hgroup⟩ := hq
  refine ((hwell.build call).imp fun q' hq' => ⟨hq'.1, hq'.2.trans hgroup⟩).imp_error ?_
  rw [hgroup]
  exact Failure.Blames.imp fun h => ⟨call, hcall, h⟩

end Build

/-! ## The results -/

/-- The rules for the operators of a query: only one array operator and only one disjunctive
operator, `notEqual` not twice, and `notIn` with none of these. -/
structure FollowsRules (q : CoreQuery φ υ) : Prop where
  array : (q.filters.filter fun f => f.op.isArrayOperator).length ≤ 1
  disjunctive : (q.filters.filter fun f => f.op.isDisjunctiveOperator).length ≤ 1
  notEqual : (q.filters.filter fun f => f.op = .notEqual).length ≤ 1
  notIn : ∀ f ∈ q.filters, f.op = .notIn → ∀ g ∈ q.filters,
    g.op.isArrayOperator = false ∧ g.op ≠ .notEqual ∧
      (g.op.isDisjunctiveOperator = true → g.op = .notIn)

omit [DecidableEq φ] in
/-- If any two filters of a kind are in conflict, there is at most one of the kind. -/
lemma length_filter_le_one {q : CoreQuery φ υ}
    (h : q.filters.Pairwise fun f g => g.op ∉ f.op.conflictingOps) (p : Operator → Bool)
    (hp : ∀ a b, p a = true → p b = true → b ∈ a.conflictingOps) :
    (q.filters.filter fun f => p f.op).length ≤ 1 := by
  have hpairwise := h.filter fun f => p f.op
  cases hl : q.filters.filter fun f => p f.op with
  | nil => simp
  | cons f l =>
    cases l with
    | nil => simp
    | cons g l =>
      exfalso
      have hmem : ∀ x ∈ f :: g :: l, p x.op = true := by
        intro x hx
        rw [← hl] at hx
        simpa using (List.mem_filter.mp hx).2
      rw [hl, List.pairwise_cons] at hpairwise
      exact hpairwise.1 g List.mem_cons_self (hp f.op g.op (hmem f List.mem_cons_self)
        (hmem g (List.mem_cons_of_mem _ List.mem_cons_self)))

/-- A well-formed query follows the rules for the operators. -/
lemma WellFormed.followsRules {q : CoreQuery φ υ} (hq : q.WellFormed) : q.FollowsRules where
  array := length_filter_le_one hq.operators Operator.isArrayOperator
    fun a b => by cases a <;> cases b <;> simp [Operator.isArrayOperator, Operator.conflictingOps]
  disjunctive := length_filter_le_one hq.operators Operator.isDisjunctiveOperator
    fun a b => by
      cases a <;> cases b <;> simp [Operator.isDisjunctiveOperator, Operator.conflictingOps]
  notEqual := length_filter_le_one hq.operators (fun op => op = .notEqual)
    fun a b => by cases a <;> cases b <;> simp [Operator.conflictingOps]
  notIn f hf hnotIn g hg := by
    have hallowed : f ≠ g → g.op ∉ f.op.conflictingOps := by
      have : Std.Symm fun f g : FieldFilter φ υ => g.op ∉ f.op.conflictingOps :=
        ⟨fun a b h hmem => h (Operator.conflictingOps_symm hmem)⟩
      exact hq.operators.forall hf hg
    by_cases hfg : f = g
    · rw [← hfg, hnotIn]
      simp [Operator.isArrayOperator]
    · have hop := hallowed hfg
      rw [hnotIn] at hop
      revert hop
      cases g.op <;> simp [Operator.conflictingOps, Operator.isArrayOperator,
        Operator.isDisjunctiveOperator]

section Results

variable [DocumentFields δ φ υ] [BEq υ] [Ord υ] [Std.TransOrd υ]

/-- **What is built can be relied on**: any sequence of builder calls on a collection or a
collection group is thrown out as an invalid argument, or builds a query with a positive limit, if
any, that follows the rules for operators, whose orders can be determined, that can be matched with
any document, and for which documents that match can be compared, as by a total preorder that never
finds documents with different keys the same. An assertion fails only if some call does not fit.

**Proof sketch.** Induction along the calls, each of which keeps the query well formed. The orders
of a well-formed query have an order by key, and documents that match have the fields of all orders,
also of the one that an inequality filter adds. A filter may add an order after a cursor is given,
but then the cursor has no value for it or for the key. -/
theorem built_or_refused (start : QueryStart) (calls : List (BuilderCall φ δ υ)) :
    (∃ e, buildAll start calls = .error (.invalidArgument e)) ∨
      (∃ message, buildAll start calls = .error (.assertion message)) ∧
        (∃ call ∈ calls, ¬ call.Fits start.group) ∨
      ∃ q, buildAll start calls = .ok q ∧ q.FollowsRules ∧ (q.limitType ≠ .none → 0 < q.limit) ∧
        (∀ doc : DocumentKey × δ, ∃ b, q.Matches doc = .ok b) ∧
        ∃ ordering comparison, q.orderBys = .ok ordering ∧
          Std.TransCmp (comparison : DocumentKey × δ → DocumentKey × δ → Ordering) ∧
          (∀ a b, comparison a b = .eq → a.1 = b.1) ∧
          ∀ a b, q.Matches a = .ok true → q.Matches b = .ok true →
            compareDocuments ordering a b = .ok (comparison a b) := by
  rcases (ends_buildAll start calls).cases with ⟨q, hok, hq⟩ | ⟨e, herror, he⟩
  · refine Or.inr (Or.inr ⟨q, hok, hq.followsRules, hq.limit, fun doc => ?_, q.ordering,
      compareAll q.ordering, orderBys_eq hq.firstOrder, compareAll_trans q.ordering,
      fun _ _ => key_eq_of_compareAll (exists_key_ordering hq.firstOrder), ?_⟩)
    · obtain ⟨b, hb, -⟩ := hq.matches_spec doc
      exact ⟨b, hb⟩
    · have hfields : ∀ doc : DocumentKey × δ, q.Matches doc = .ok true →
          HasFields q.ordering doc.2 := by
        intro doc hdoc
        obtain ⟨b, hb, hfields⟩ := hq.matches_spec doc
        rw [hdoc] at hb
        cases hb
        exact hfields rfl
      exact fun a b ha hb => compareDocuments_of_hasFields (hfields a ha) (hfields b hb)
  · cases e with
    | invalidArgument e => exact Or.inl ⟨e, herror⟩
    | assertion message => exact Or.inr (Or.inl ⟨⟨message, herror⟩, he⟩)

end Results

/-- The query of the latest message, which starts after a cursor: a filter, an order and a limit. -/
theorem built_latest :
    letI := ValueOrder.toOrd .timestampsLast
    letI : BEq FieldValue := ⟨fun v w => compare v w == .eq⟩
    let calls : List (BuilderCall String Fields FieldValue) :=
      [.filter (.field "type") .equal (.integer 1) "NSNumber",
        .orderBy (.field "timestamp") .descending, .limitToFirst 1,
        .startAt (.fieldValues [.timestamp 5]) false]
    ∃ q : CoreQuery String FieldValue, buildAll (.collection ["messages"]) calls = .ok q ∧
      q.FollowsRules ∧ (∀ doc : DocumentKey × Fields, ∃ b, q.Matches doc = .ok b) ∧
      ∃ (ordering : List (OrderBy String))
        (comparison : DocumentKey × Fields → DocumentKey × Fields → Ordering),
        q.orderBys = .ok ordering ∧ ∀ a b, q.Matches a = .ok true → q.Matches b = .ok true →
          compareDocuments ordering a b = .ok (comparison a b) := by
  let _ := ValueOrder.toOrd .timestampsLast
  have := ValueOrder.transOrd .timestampsLast
  let _ : BEq FieldValue := ⟨fun v w => compare v w == .eq⟩
  intro calls
  obtain ⟨q, hq⟩ : ∃ q, buildAll (.collection ["messages"]) calls = .ok q := ⟨_, rfl⟩
  rcases built_or_refused (.collection ["messages"]) calls with ⟨e, he⟩ | ⟨⟨message, he⟩, -⟩ | h
  · rw [hq] at he
    cases he
  · rw [hq] at he
    cases he
  · obtain ⟨q', hok, hrules, -, hmatches, ordering, comparison, hordering, -, -, hcompare⟩ := h
    exact ⟨q', hok, hrules, hmatches, ordering, comparison, hordering, hcompare⟩

end CoreQuery

end AntViewer.Firestore
