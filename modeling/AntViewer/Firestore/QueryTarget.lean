import AntViewer.Firestore.QueryBuilder
import AntViewer.Firestore.QueryEngine

set_option relaxedAutoImplicit false
set_option autoImplicit false

/-!
# What a query is used as

A query that is built is what views are made of, and what the local store executes. The server gets
it as a target, which knows no limit to the last documents: the target is limited to the first ones,
in the reversed order, and its cursors change places.

## Main definitions

* `CoreQuery.toQuery`, `CoreQuery.toLocalQuery` — what views and the local store use of a query.
* `Target`, `CoreQuery.toTarget` — what the server is sent.
* `Target.toQuery` — what a target selects.

## Main results

* `CoreQuery.compareDocuments_executeQuery` — what executing the query returns can be compared, as
  views do it.
* `CoreQuery.WellFormed.matches_toTarget` — a target matches the documents that the query matches.
* `CoreQuery.upToDate_toTarget` — the target selects the documents that the query selects.
-/

namespace AntViewer.Firestore

open SortedSets QueryValue Runs

/-! ## Two queries with the same documents -/

section Congr

variable {κ δ : Type*} [LinearOrder κ] {q q' : Query κ δ} {store : LocalDocuments κ δ}

/-- Documents that are up to date for a query are so for another one that selects and prefers the
same documents, whatever their order. -/
lemma UpToDate.of_perm {documents : DocumentSet q} {documents' : DocumentSet q'}
    (h : UpToDate q store documents) (hmatches : q.matchesDocument = q'.matchesDocument)
    (hlimited : q'.limitType ≠ .none ↔ q.limitType ≠ .none)
    (hlimit : q.limitType ≠ .none → q'.limit = q.limit)
    (hbefore : q.limitType ≠ .none → ∀ a b, q'.Before a b ↔ q.Before a b)
    (hperm : documents'.elements.Perm documents.elements) : UpToDate q' store documents' := by
  have hget : ∀ k, documents'.get? k = documents.get? k := by
    intro k
    apply Option.ext
    intro d
    rw [SortedSet.get?_eq_some_iff, SortedSet.get?_eq_some_iff, hperm.mem_iff]
    rfl
  have hcandidate : ∀ k, store.candidate q' k = store.candidate q k := by
    intro k
    unfold LocalDocuments.candidate View.newDocument
    congr 1
    funext d
    unfold Query.Matches
    rw [hmatches]
  have hsize : documents'.size = documents.size := hperm.length_eq
  refine ⟨fun k d hd => ?_, fun k stored hstored hnone => ?_, fun h' => ?_⟩
  · rw [hcandidate]
    exact h.shows k d (hget k ▸ hd)
  · rw [hcandidate] at hstored
    rcases h.missing k stored hstored (hget k ▸ hnone) with hc | ⟨hlast, hfull, hpast⟩
    · exact Or.inl hc
    · refine Or.inr ⟨hlimited.mpr hlast, ?_, fun d hd => ?_⟩
      · rw [hsize, hfull, hlimit hlast]
      · exact (hbefore hlast d stored).mpr (hpast d (hperm.mem_iff.mp hd))
  · have hlast := hlimited.mp h'
    rw [hsize, hlimit hlast]
    exact h.size hlast

end Congr

variable {δ φ υ : Type} [QueryValue υ]

/-! ## Queries -/

namespace CoreQuery

section Matching

variable [DecidableEq φ] [DocumentFields δ φ υ] [BEq υ] [Ord υ]

/-- Is it found that the document matches? -/
def selects (q : CoreQuery φ υ) (k : DocumentKey) (d : δ) : Bool :=
  match q.Matches (k, d) with
  | .ok b => b
  | .error _ => false

lemma selects_eq_true {q : CoreQuery φ υ} {k : DocumentKey} {d : δ} :
    q.selects k d = true ↔ q.Matches (k, d) = .ok true := by
  unfold selects
  cases q.Matches (k, d) with
  | ok b => exact ⟨fun h => congrArg _ h, fun h => Except.ok.inj h⟩
  | error message => exact ⟨fun h => (by cases h), fun h => (by cases h)⟩

omit [BEq υ] [Ord υ] in
/-- A query that is built has an order by key. -/
lemma WellFormed.exists_key {q : CoreQuery φ υ} (hq : q.WellFormed) :
    ∃ o ∈ q.ordering, o.field = .keyFieldPath := exists_key_ordering hq.firstOrder

/-- Documents that match have the fields of the orders. -/
lemma WellFormed.hasFields {q : CoreQuery φ υ} (hq : q.WellFormed) {k : DocumentKey} {d : δ}
    (h : q.Matches (k, d) = .ok true) : HasFields q.ordering d := by
  obtain ⟨b, hb, hfields⟩ := hq.matches_spec (k, d)
  rw [h] at hb
  cases hb
  exact hfields rfl

variable [Std.TransOrd υ]

/-- What views use of a query that is built. -/
def toQuery (δ : Type) [DocumentFields δ φ υ] (q : CoreQuery φ υ) (hq : q.WellFormed) :
    Query DocumentKey δ where
  matchesDocument := q.selects
  comparator := compareAll q.ordering
  trans := compareAll_trans q.ordering
  separates _ _ := key_eq_of_compareAll hq.exists_key
  limitType := q.limitType
  limit := q.limit.toNat

/-- The comparison of matching documents does not fail, and is the one of the view. -/
lemma compareDocuments_toQuery {q : CoreQuery φ υ} (hq : q.WellFormed)
    {a b : Document DocumentKey δ} (ha : (q.toQuery δ hq).Matches a = true)
    (hb : (q.toQuery δ hq).Matches b = true) :
    compareDocuments q.ordering (a.key, a.data) (b.key, b.data) =
      .ok ((q.toQuery δ hq).order.cmp a b) :=
  compareDocuments_of_hasFields (hq.hasFields (selects_eq_true.mp ha))
    (hq.hasFields (selects_eq_true.mp hb))

/-- What the local store uses of a query that is built for a collection. -/
def toLocalQuery {F ε : Type} [DocumentFields (DocumentData F ε) φ υ] (q : CoreQuery φ υ)
    (hq : q.WellFormed) (hgroup : q.collectionGroup = none) : LocalQuery DocumentKey F ε where
  toQuery := q.toQuery (DocumentData F ε) hq
  documentKey := none
  isImmediateParentOf k := isImmediateParentOf q.path k.path
  matchesAllDocuments := q.matchesAllDocuments
  matches_collection _ k d h := by
    have hmatches := selects_eq_true.mp h
    unfold CoreQuery.Matches matchesPathAndCollectionGroup isDocumentKey at hmatches
    simp only [hgroup, hq.notDocument hgroup] at hmatches
    cases hparent : Firestore.isImmediateParentOf q.path k.path with
    | true => rfl
    | false =>
      simp only [hparent] at hmatches
      cases hmatches
  matches_document key h := by cases h

/-- **What executing a built query returns** are documents that match it, and that can be compared
as views compare them. -/
theorem compareDocuments_executeQuery {F ε : Type} [Add F] [IntCast F] [DecidableEq ε]
    [DocumentFields (DocumentData F ε) φ υ] {q : CoreQuery φ υ} (hq : q.WellFormed)
    (hgroup : q.collectionGroup = none) {s : CachedStore DocumentKey F ε} (hs : s.Plain)
    {target : Option (CachedTarget DocumentKey)}
    (htarget : ∀ t ∈ target, s.Complete (q.toLocalQuery hq hgroup) t)
    {results : List (DocumentKey × MaybeDocument DocumentKey (DocumentData F ε))}
    (hresults : (s.executeQuery (q.toLocalQuery hq hgroup) target true).1 = results) :
    ∀ a ∈ results, ∀ b ∈ results, ∃ d e, a.2.toDocument = some d ∧ b.2.toDocument = some e ∧
      compareDocuments q.ordering (d.key, d.data) (e.key, e.data) =
        .ok ((q.toQuery (DocumentData F ε) hq).order.cmp d e) := by
  have hmatches : ∀ a ∈ results, ∃ d, a.2.toDocument = some d ∧
      (q.toQuery (DocumentData F ε) hq).Matches d = true := by
    rintro ⟨k, m⟩ ha
    rw [← hresults] at ha
    obtain ⟨hget, hcandidate⟩ := (hs.answers_executeQuery htarget).sound k m ha
    obtain ⟨d, hd⟩ := Option.isSome_iff_exists.mp hcandidate
    unfold LocalDocuments.candidate View.newDocument at hd
    rw [hget] at hd
    exact ⟨d, Option.filter_eq_some_iff.mp hd⟩
  intro a ha b hb
  obtain ⟨d, hd, hdmatches⟩ := hmatches a ha
  obtain ⟨e, he, hematches⟩ := hmatches b hb
  exact ⟨d, e, hd, he, compareDocuments_toQuery hq hdmatches hematches⟩

end Matching

end CoreQuery

/-! ## Targets -/

/-- The other direction. -/
def Direction.flip : Direction → Direction
  | ascending => descending
  | descending => ascending

/-- The order by the same field in the other direction. -/
def OrderBy.flip (o : OrderBy φ) : OrderBy φ := ⟨o.field, o.direction.flip⟩

/-- The cursor at the same position, on the other side. -/
def Bound.flip (bound : Bound υ) : Bound υ := ⟨bound.position, !bound.before⟩

/-- `Target`. -/
structure Target (φ υ : Type) [QueryValue υ] where
  path : List String
  collectionGroup : Option String
  filters : List (FieldFilter φ υ)
  orderBys : List (OrderBy φ)
  limit : ℤ
  startAt : Option (Bound υ)
  endAt : Option (Bound υ)

/-- `ToTarget()`. -/
def CoreQuery.toTarget [DecidableEq φ] (q : CoreQuery φ υ) : Except String (Target φ υ) := do
  let orderBys ← q.orderBys
  if q.limitType = .last then
    -- The directions are flipped, since the last results are wanted, and the cursors swapped.
    return ⟨q.path, q.collectionGroup, q.filters, orderBys.map OrderBy.flip, q.limit,
      q.endAt.map Bound.flip, q.startAt.map Bound.flip⟩
  else
    return ⟨q.path, q.collectionGroup, q.filters, orderBys, q.limit, q.startAt, q.endAt⟩

section Target

variable [DocumentFields δ φ υ] [BEq υ] [Ord υ]

/-- A document matches a target if it is below its path, has the fields of all orders, matches all
filters, and is between the cursors. -/
def Target.Matches (t : Target φ υ) (doc : DocumentKey × δ) : Except String Bool := do
  if !matchesPathAndCollectionGroup t.path t.collectionGroup doc.1 then return false
  if !matchesOrderBy t.orderBys doc.2 then return false
  if !(← matchesFilters t.filters doc) then return false
  matchesBounds t.startAt t.endAt t.orderBys doc

/-- Is it found that the document matches? -/
def Target.selects (t : Target φ υ) (k : DocumentKey) (d : δ) : Bool :=
  match t.Matches (k, d) with
  | .ok b => b
  | .error _ => false

/-- What a target selects: the first documents that match, up to the limit. -/
def Target.toQuery [Std.TransOrd υ] (δ : Type) [DocumentFields δ φ υ] (t : Target φ υ)
    (h : ∃ o ∈ t.orderBys, o.field = .keyFieldPath) : Query DocumentKey δ where
  matchesDocument := t.selects
  comparator := compareAll t.orderBys
  trans := compareAll_trans t.orderBys
  separates _ _ := key_eq_of_compareAll h
  limitType := if t.limit = noLimit then .none else .first
  limit := t.limit.toNat

/-! ## Flipping -/

omit [QueryValue υ] [BEq υ] in
/-- Flipping the orders flips the comparison. -/
lemma compareAll_flip (ordering : List (OrderBy φ)) (a b : DocumentKey × δ) :
    compareAll (ordering.map OrderBy.flip) a b = (compareAll ordering a b).swap := by
  induction ordering with
  | nil => rfl
  | cons o ordering ih =>
    have hflip : o.flip.comparison a b = (o.comparison a b).swap := by
      obtain ⟨field, direction⟩ := o
      cases direction with
      | ascending => rfl
      | descending => exact (Ordering.swap_swap).symm
    rw [List.map_cons, compareAll, compareLex, hflip, ih, compareAll, compareLex,
      Ordering.swap_then]

omit [BEq υ] in
/-- It also flips the comparison with a cursor. -/
lemma comparePosition_flip (position : List υ) (ordering : List (OrderBy φ))
    (doc : DocumentKey × δ) :
    comparePosition position (ordering.map OrderBy.flip) doc =
      (comparePosition position ordering doc).map Ordering.swap := by
  induction position generalizing ordering with
  | nil => rfl
  | cons value position ih =>
    cases ordering with
    | nil => rfl
    | cons o ordering =>
      rw [List.map_cons, comparePosition, comparePosition]
      have hfield : o.flip.field = o.field := rfl
      rw [hfield]
      cases compareComponent value o.field doc with
      | error message => rfl
      | ok comparison =>
        have happly : o.flip.direction.applyTo comparison =
            (o.direction.applyTo comparison).swap := by
          obtain ⟨field, direction⟩ := o
          cases direction with
          | ascending => rfl
          | descending => exact (Ordering.swap_swap).symm
        show (if o.flip.direction.applyTo comparison ≠ .eq then
            .ok (o.flip.direction.applyTo comparison)
          else comparePosition position (ordering.map OrderBy.flip) doc) =
          Except.map Ordering.swap (if o.direction.applyTo comparison ≠ .eq then
            .ok (o.direction.applyTo comparison) else comparePosition position ordering doc)
        rw [happly, ih]
        cases o.direction.applyTo comparison <;> rfl

omit [BEq υ] in
/-- A flipped cursor is before a document if the cursor is not. -/
lemma Bound.sortsBeforeDocument_flip (bound : Bound υ) (ordering : List (OrderBy φ))
    (doc : DocumentKey × δ) :
    bound.flip.sortsBeforeDocument (ordering.map OrderBy.flip) doc =
      (bound.sortsBeforeDocument ordering doc).map fun b => !b := by
  unfold Bound.sortsBeforeDocument Bound.flip
  rw [List.length_map, comparePosition_flip]
  cases decide (bound.position.length ≤ ordering.length) with
  | false => rfl
  | true =>
    cases comparePosition bound.position ordering doc with
    | error message => rfl
    | ok result => cases bound.before <;> cases result <;> rfl

omit [BEq υ] in
/-- **Between flipped cursors** that have changed places are the same documents. -/
lemma matchesBounds_flip {startAt endAt : Option (Bound υ)} {ordering : List (OrderBy φ)}
    (hstart : ∀ bound ∈ startAt, bound.Fits ordering) (hend : ∀ bound ∈ endAt, bound.Fits ordering)
    {doc : DocumentKey × δ} (hdoc : HasFields ordering doc.2) :
    matchesBounds (endAt.map Bound.flip) (startAt.map Bound.flip) (ordering.map OrderBy.flip) doc =
      matchesBounds startAt endAt ordering doc := by
  have hbefore : ∀ bound : Bound υ, bound.Fits ordering →
      ∃ b, bound.sortsBeforeDocument ordering doc = .ok b :=
    fun bound h => Bound.sortsBeforeDocument_of_hasFields h hdoc
  unfold matchesBounds
  cases startAt with
  | none =>
    cases endAt with
    | none => rfl
    | some last =>
      obtain ⟨ended, hended⟩ := hbefore last (hend last rfl)
      simp only [Option.map_some, Option.map_none, Bound.sortsBeforeDocument_flip, hended]
      cases ended <;> rfl
  | some first =>
    obtain ⟨started, hstarted⟩ := hbefore first (hstart first rfl)
    cases endAt with
    | none =>
      simp only [Option.map_some, Option.map_none, Bound.sortsBeforeDocument_flip, hstarted]
      cases started <;> rfl
    | some last =>
      obtain ⟨ended, hended⟩ := hbefore last (hend last rfl)
      simp only [Option.map_some, Bound.sortsBeforeDocument_flip, hstarted, hended]
      cases started <;> cases ended <;> rfl

/-! ## What a target selects -/

omit [QueryValue υ] [BEq υ] [Ord υ] in
/-- `MatchesOrderBy` says that the document has the fields. -/
lemma matchesOrderBy_iff {ordering : List (OrderBy φ)} {d : δ} :
    matchesOrderBy ordering d = true ↔ HasFields ordering d := by
  unfold matchesOrderBy HasFields
  rw [List.all_eq_true]
  refine forall₂_congr fun o _ => ?_
  cases o.field with
  | keyFieldPath => simp
  | field name => simp

omit [QueryValue υ] [BEq υ] [Ord υ] in
/-- Flipped orders are on the same fields. -/
lemma hasFields_flip {ordering : List (OrderBy φ)} {d : δ} :
    HasFields (ordering.map OrderBy.flip) d ↔ HasFields ordering d :=
  List.forall_mem_map

namespace CoreQuery

variable [DecidableEq φ]

omit [DocumentFields δ φ υ] [BEq υ] [Ord υ] in
/-- The explicit orders are among the orders. -/
lemma mem_ordering {q : CoreQuery φ υ}
    (hfirst : ∀ i o, q.inequalityFilterField = some i → q.firstOrderByField = some o → i = o)
    {o : OrderBy φ} (ho : o ∈ q.explicitOrderBys) : o ∈ q.ordering := by
  rw [CoreQuery.ordering, orderBys_of_explicit hfirst (Or.inr (List.ne_nil_of_mem ho))]
  dsimp only [orderBysWithKey]
  split_ifs
  · exact ho
  · exact List.mem_append_left _ ho

omit [BEq υ] [Ord υ] in
/-- The target of a query that is built. -/
lemma WellFormed.toTarget_eq {q : CoreQuery φ υ} (hq : q.WellFormed) :
    q.toTarget = .ok (if q.limitType = .last then
      ⟨q.path, q.collectionGroup, q.filters, q.ordering.map OrderBy.flip, q.limit,
        q.endAt.map Bound.flip, q.startAt.map Bound.flip⟩
    else ⟨q.path, q.collectionGroup, q.filters, q.ordering, q.limit, q.startAt, q.endAt⟩) := by
  unfold toTarget
  rw [orderBys_eq hq.firstOrder]
  show (if _ then _ else _) = _
  split_ifs <;> rfl

omit [BEq υ] [Ord υ] in
/-- The orders of the target. -/
lemma WellFormed.orderBys_toTarget {q : CoreQuery φ υ} (hq : q.WellFormed) {t : Target φ υ}
    (ht : q.toTarget = .ok t) :
    t.orderBys = if q.limitType = .last then q.ordering.map OrderBy.flip else q.ordering := by
  rw [hq.toTarget_eq] at ht
  cases ht
  split_ifs <;> rfl

/-- **A target matches** the documents that the query matches. -/
lemma WellFormed.matches_toTarget {q : CoreQuery φ υ} (hq : q.WellFormed) {t : Target φ υ}
    (ht : q.toTarget = .ok t) (doc : DocumentKey × δ) : t.Matches doc = q.Matches doc := by
  have hfields : matchesOrderBy t.orderBys doc.2 = true ↔ HasFields q.ordering doc.2 := by
    rw [hq.orderBys_toTarget ht, matchesOrderBy_iff]
    split_ifs
    · exact hasFields_flip
    · rfl
  have hbounds : HasFields q.ordering doc.2 → matchesBounds t.startAt t.endAt t.orderBys doc =
      matchesBounds q.startAt q.endAt q.ordering doc := by
    intro hdoc
    rw [hq.toTarget_eq] at ht
    cases ht
    split_ifs
    · exact matchesBounds_flip hq.startAt hq.endAt hdoc
    · rfl
  have hpath : t.path = q.path ∧ t.collectionGroup = q.collectionGroup ∧ t.filters = q.filters := by
    rw [hq.toTarget_eq] at ht
    cases ht
    split_ifs <;> exact ⟨rfl, rfl, rfl⟩
  obtain ⟨hpath, hgroup, hfilters⟩ := hpath
  unfold Target.Matches CoreQuery.Matches
  rw [hpath, hgroup, hfilters]
  cases matchesPathAndCollectionGroup q.path q.collectionGroup doc.1 with
  | false => rfl
  | true =>
    obtain ⟨filtered, hfiltered⟩ := matchesFilters_ok q.filters doc
    cases horder : matchesOrderBy q.explicitOrderBys doc.2 with
    | false =>
      have hnot : matchesOrderBy t.orderBys doc.2 = false := by
        rw [Bool.eq_false_iff, Ne, hfields]
        intro hdoc
        rw [Bool.eq_false_iff, Ne, matchesOrderBy_iff] at horder
        exact horder fun o ho => hdoc o (mem_ordering hq.firstOrder ho)
      rw [hnot]
      rfl
    | true =>
      simp only [hfiltered, orderBys_eq hq.firstOrder]
      cases filtered with
      | false => cases matchesOrderBy t.orderBys doc.2 <;> rfl
      | true =>
        have hdoc := hasFields_ordering hq.firstOrder horder hfiltered
        rw [hfields.mpr hdoc]
        exact hbounds hdoc

omit [BEq υ] [Ord υ] in
/-- The target of a query has an order by key. -/
lemma WellFormed.exists_key_toTarget {q : CoreQuery φ υ} (hq : q.WellFormed) {t : Target φ υ}
    (ht : q.toTarget = .ok t) : ∃ o ∈ t.orderBys, o.field = .keyFieldPath := by
  obtain ⟨o, ho, hkey⟩ := hq.exists_key
  rw [hq.orderBys_toTarget ht]
  split_ifs
  · exact ⟨o.flip, List.mem_map_of_mem ho, hkey⟩
  · exact ⟨o, ho, hkey⟩

variable [Std.TransOrd υ]

/-- The target has a limit if the query has one, which is not the largest number. -/
lemma WellFormed.limited_toTarget {q : CoreQuery φ υ} (hq : q.WellFormed)
    (hlimit : q.limitType ≠ .none → q.limit < noLimit) {t : Target φ υ}
    (ht : q.toTarget = .ok t) (hkey : ∃ o ∈ t.orderBys, o.field = .keyFieldPath) :
    (t.toQuery δ hkey).limit = (q.toQuery δ hq).limit ∧
      (t.toQuery δ hkey).limitType = if q.limitType = .none then .none else .first := by
  have htlimit : t.limit = q.limit := by
    rw [hq.toTarget_eq] at ht
    cases ht
    split_ifs <;> rfl
  refine ⟨congrArg Int.toNat htlimit, ?_⟩
  show (if t.limit = noLimit then LimitType.none else .first) = _
  rw [htlimit]
  by_cases htype : q.limitType = .none
  · rw [if_pos (hq.unlimited htype), if_pos htype]
  · rw [if_neg (hlimit htype).ne, if_neg htype]

/-- The target prefers the documents that the query prefers. -/
lemma WellFormed.before_toTarget {q : CoreQuery φ υ} (hq : q.WellFormed)
    (hlimit : q.limitType ≠ .none → q.limit < noLimit) {t : Target φ υ}
    (ht : q.toTarget = .ok t) (hkey : ∃ o ∈ t.orderBys, o.field = .keyFieldPath)
    (htype : q.limitType ≠ .none) (a b : Document DocumentKey δ) :
    (t.toQuery δ hkey).Before a b ↔ (q.toQuery δ hq).Before a b := by
  have hfirst : (t.toQuery δ hkey).preference = (t.toQuery δ hkey).order := by
    rw [Query.preference, if_pos]
    rw [Query.hasLimitToFirst, (hq.limited_toTarget hlimit ht hkey).2, if_neg htype]
    rfl
  have horderBys := hq.orderBys_toTarget ht
  rw [Query.Before, hfirst, Query.Before]
  cases hlast : q.limitType with
  | none => exact absurd hlast htype
  | first =>
    have hpreference : (q.toQuery δ hq).preference = (q.toQuery δ hq).order := by
      rw [Query.preference, if_pos]
      simp [Query.hasLimitToFirst, toQuery, hlast]
    rw [hpreference]
    simp [Ranking.Lt, Query.order, Target.toQuery, toQuery, horderBys, hlast]
  | last =>
    have hpreference : (q.toQuery δ hq).preference = (q.toQuery δ hq).order.reverse := by
      rw [Query.preference, if_neg]
      simp [Query.hasLimitToFirst, toQuery, hlast]
    rw [hpreference]
    have htrans := compareAll_trans (δ := δ) q.ordering
    simp only [Ranking.Lt, Query.order, Target.toQuery, toQuery, Ranking.reverse, horderBys, hlast,
      if_true, compareAll_flip, ← htrans.eq_swap]

/-- The documents of a query in the order of its target. -/
def targetDocuments {q : CoreQuery φ υ} (hq : q.WellFormed) {t : Target φ υ}
    (ht : q.toTarget = .ok t) (hkey : ∃ o ∈ t.orderBys, o.field = .keyFieldPath)
    (documents : DocumentSet (q.toQuery δ hq)) : DocumentSet (t.toQuery δ hkey) where
  elements := if q.limitType = .last then documents.elements.reverse else documents.elements
  sorted := by
    have hlt : ∀ a b : Document DocumentKey δ, (t.toQuery δ hkey).order.Lt a b ↔
        if q.limitType = .last then (q.toQuery δ hq).order.Lt b a
        else (q.toQuery δ hq).order.Lt a b := by
      intro a b
      have htrans := compareAll_trans (δ := δ) q.ordering
      simp only [Ranking.Lt, Query.order, Target.toQuery, toQuery, hq.orderBys_toTarget ht]
      split_ifs
      · rw [compareAll_flip, ← htrans.eq_swap]
      · rfl
    split_ifs with hlast
    · rw [List.pairwise_reverse]
      exact documents.sorted.imp fun {a b} h => by rw [hlt, if_pos hlast]; exact h
    · exact documents.sorted.imp fun {a b} h => by rw [hlt, if_neg hlast]; exact h
  nodup := by
    split_ifs
    · rw [List.map_reverse, List.nodup_reverse]
      exact documents.nodup
    · exact documents.nodup

/-- **The target selects what the query selects**: a query that is built, and does not have the
largest number as its limit, has a target, which matches the documents that the query matches; and
whatever the local store has, documents are up to date for the query exactly if they are, in the
order of the target, up to date for the target.

**Proof sketch.** Flipping all orders flips every comparison, also the ones with the cursors, which
are then on the other side. The last documents in an order are the first ones in the flipped one. -/
theorem upToDate_toTarget {start : QueryStart} {calls : List (BuilderCall φ δ υ)}
    {q : CoreQuery φ υ} (hbuilt : buildAll start calls = .ok q)
    (hlimit : q.limitType ≠ .none → q.limit < noLimit) :
    ∃ (hq : q.WellFormed) (t : Target φ υ) (ht : ∃ o ∈ t.orderBys, o.field = .keyFieldPath),
      q.toTarget = .ok t ∧ (∀ doc : DocumentKey × δ, t.Matches doc = q.Matches doc) ∧
      ∀ (store : LocalDocuments DocumentKey δ) (documents : DocumentSet (q.toQuery δ hq)),
        ∃ documents' : DocumentSet (t.toQuery δ ht),
          documents'.elements = (if q.limitType = .last then documents.elements.reverse
            else documents.elements) ∧
          (UpToDate (q.toQuery δ hq) store documents ↔
            UpToDate (t.toQuery δ ht) store documents') := by
  have hq : q.WellFormed := by
    have hends := ends_buildAll start calls
    rw [hbuilt] at hends
    exact hends
  obtain ⟨t, ht⟩ : ∃ t, q.toTarget = .ok t := ⟨_, hq.toTarget_eq⟩
  have hkey := hq.exists_key_toTarget ht
  refine ⟨hq, t, hkey, ht, hq.matches_toTarget ht, fun store documents =>
    ⟨targetDocuments hq ht hkey documents, rfl, ?_⟩⟩
  have hmatches : (q.toQuery δ hq).matchesDocument = (t.toQuery δ hkey).matchesDocument := by
    funext k d
    show q.selects k d = t.selects k d
    unfold selects Target.selects
    rw [hq.matches_toTarget ht]
  obtain ⟨heq, htype⟩ := hq.limited_toTarget (δ := δ) hlimit ht hkey
  have hlimited : (t.toQuery δ hkey).limitType ≠ .none ↔ (q.toQuery δ hq).limitType ≠ .none := by
    rw [htype]
    show _ ↔ q.limitType ≠ .none
    split_ifs with h <;> simp [h]
  have hbefore : q.limitType ≠ .none → ∀ a b,
      (t.toQuery δ hkey).Before a b ↔ (q.toQuery δ hq).Before a b :=
    fun h => hq.before_toTarget hlimit ht hkey h
  have hperm : (targetDocuments hq ht hkey documents).elements.Perm documents.elements := by
    unfold targetDocuments
    dsimp only
    split_ifs
    · exact List.reverse_perm _
    · rfl
  exact ⟨fun h => h.of_perm hmatches hlimited (fun _ => heq) hbefore hperm,
    fun h => h.of_perm hmatches.symm hlimited.symm (fun _ => heq.symm)
      (fun h' a b => (hbefore (hlimited.mp h') a b).symm) hperm.symm⟩

end CoreQuery

end Target

/-! ### The last document -/

/-- The key of a document of the collection. -/
def messageKey (id : String) : DocumentKey := ⟨["messages", id], by simp⟩

/-- A query for the last document in the order of a field, from a cursor on. -/
def CoreQuery.lastByTimestamp : CoreQuery String FieldValue :=
  { CoreQuery.ofPath ["messages"] none with
    explicitOrderBys := [⟨.field "timestamp", .ascending⟩]
    limit := 1
    limitType := .last
    startAt := some ⟨[.timestamp 1], true⟩ }

/-- A message with a time. -/
def stamped (id : String) (time : Timestamp) : Document DocumentKey Fields :=
  ⟨messageKey id, [("timestamp", .timestamp time)], .synced⟩

/-- A local store with two documents, of which the second one is newer. -/
def twoStamped : LocalDocuments DocumentKey Fields where
  get k :=
    if k = messageKey "a" then .document (stamped "a" 1)
    else if k = messageKey "b" then .document (stamped "b" 2)
    else .noDocument
  keyed k d h := by
    split_ifs at h with ha hb <;> cases h
    · exact ha.symm
    · exact hb.symm

/-- Both documents match, and the first one comes first. -/
lemma CoreQuery.selects_lastByTimestamp :
    letI := ValueOrder.toOrd .timestampsLast
    letI : BEq FieldValue := ⟨fun v w => compare v w == .eq⟩
    lastByTimestamp.selects (messageKey "a") (stamped "a" 1).data = true ∧
      lastByTimestamp.selects (messageKey "b") (stamped "b" 2).data = true ∧
      compareAll lastByTimestamp.ordering (messageKey "a", (stamped "a" 1).data)
        (messageKey "b", (stamped "b" 2).data) = .lt := by
  decide +kernel

/-- The newest document is up to date for the query limited to the last one, so it is for its
target, which is limited to the first one in the flipped order. -/
theorem CoreQuery.upToDate_toTarget_last :
    letI := ValueOrder.toOrd .timestampsLast
    haveI := ValueOrder.transOrd .timestampsLast
    letI : BEq FieldValue := ⟨fun v w => compare v w == .eq⟩
    let calls : List (BuilderCall String Fields FieldValue) :=
      [.orderBy (.field "timestamp") .ascending, .limitToLast 1,
        .startAt (.fieldValues [.timestamp 1]) true]
    buildAll (.collection ["messages"]) calls = .ok lastByTimestamp ∧
      ∃ (t : Target String FieldValue) (ht : ∃ o ∈ t.orderBys, o.field = .keyFieldPath)
        (documents : DocumentSet (t.toQuery Fields ht)), lastByTimestamp.toTarget = .ok t ∧
        documents.elements = [stamped "b" 2] ∧
        UpToDate (t.toQuery Fields ht) twoStamped documents := by
  let _ := ValueOrder.toOrd .timestampsLast
  have := ValueOrder.transOrd .timestampsLast
  let _ : BEq FieldValue := ⟨fun v w => compare v w == .eq⟩
  intro calls
  have hbuilt : buildAll (.collection ["messages"]) calls = .ok lastByTimestamp := rfl
  obtain ⟨hq, t, ht, htarget, -, h⟩ := upToDate_toTarget hbuilt fun _ => by decide
  obtain ⟨ha, hb, hfirst⟩ := selects_lastByTimestamp
  have hne : messageKey "b" ≠ messageKey "a" := by decide +kernel
  have hcandidate : ∀ k, twoStamped.candidate (lastByTimestamp.toQuery Fields hq) k =
      if k = messageKey "a" then some (stamped "a" 1)
      else if k = messageKey "b" then some (stamped "b" 2) else none := by
    intro k
    unfold LocalDocuments.candidate twoStamped View.newDocument
    dsimp only
    split_ifs with hka hkb
    · exact Option.filter_eq_some_iff.mpr ⟨rfl, ha⟩
    · exact Option.filter_eq_some_iff.mpr ⟨rfl, hb⟩
    · rfl
  obtain ⟨documents, helements, hiff⟩ := h twoStamped
    ⟨[stamped "b" 2], List.pairwise_singleton _ _, List.nodup_singleton _⟩
  refine ⟨hbuilt, t, ht, documents, htarget, helements, hiff.mp ⟨?_, ?_, ?_⟩⟩
  · intro k d hd
    obtain ⟨hmem, hk⟩ := SortedSet.get?_eq_some_iff.mp hd
    obtain rfl := List.mem_singleton.mp hmem
    obtain rfl : messageKey "b" = k := hk
    rw [hcandidate, if_neg hne, if_pos rfl]
    exact ⟨_, rfl, Document.Shows.refl _⟩
  · intro k stored hstored hnone
    rw [hcandidate] at hstored
    split_ifs at hstored with hka hkb
    · cases hstored
      refine Or.inr ⟨fun h => (by cases h), rfl, fun d hd => ?_⟩
      obtain rfl := List.mem_singleton.mp hd
      have hlast : (lastByTimestamp.toQuery Fields hq).hasLimitToFirst ≠ true :=
        show decide (LimitType.last = .first) ≠ true by decide
      rw [Query.Before, Query.preference, if_neg hlast]
      exact hfirst
    · cases hkb
      exact absurd rfl (SortedSet.get?_eq_none_iff.mp hnone _ List.mem_cons_self)
  · intro _
    exact le_refl 1

end AntViewer.Firestore
