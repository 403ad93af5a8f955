import AntViewer.Firestore.Document
import AntViewer.Firestore.ObjectValue
import AntViewer.Firestore.Value

set_option relaxedAutoImplicit false
set_option autoImplicit false

/-!
# Mutations

A mutation sets, patches or deletes a document, if its precondition holds. Setting and patching may
transform fields: the new value of a field is computed from the one before.

## Main definitions

* `LeafValue`, `TransformOperation` — values that are no objects, and transforms of them.
* `StoredDocument`, `Precondition`, `Mutation` — what is written, where, and when.
* `Mutation.applyToLocalView` — what a write does to what the client shows of a document.
* `Mutation.extractTransformBaseValue` — the values that increments start from.

## Main results

* `Mutation.agree_applyToLocalView` — a field after a write depends on what it was before only.
-/

namespace AntViewer.Firestore

open NestedMaps

/-! ## Values and transforms -/

/-- The values of `model::FieldValue` for which `is_number()`. -/
inductive NumberValue (F : Type)
  | integer (n : ℤ)
  | double (d : F)
  deriving DecidableEq

/-- The values of `model::FieldValue` that are no objects. The elements of arrays are compared
only, and values of the remaining types are passed on only. -/
inductive LeafValue (F ε : Type)
  | number (n : NumberValue F)
  | array (elements : List ε)
  | serverTimestamp (localWriteTime : Timestamp)
      (previousValue : Option (Tree String (LeafValue F ε)))
  | other (value : ε)

section Equality

variable {F ε : Type} [DecidableEq F] [DecidableEq ε]

mutual

/-- `operator==` of values that are no objects. -/
def LeafValue.decEq : (a b : LeafValue F ε) → Decidable (a = b)
  | .number m, .number n => decidable_of_iff (m = n) (by simp)
  | .number _, .array _ => isFalse (by simp)
  | .number _, .serverTimestamp _ _ => isFalse (by simp)
  | .number _, .other _ => isFalse (by simp)
  | .array _, .number _ => isFalse (by simp)
  | .array l, .array l' => decidable_of_iff (l = l') (by simp)
  | .array _, .serverTimestamp _ _ => isFalse (by simp)
  | .array _, .other _ => isFalse (by simp)
  | .serverTimestamp _ _, .number _ => isFalse (by simp)
  | .serverTimestamp _ _, .array _ => isFalse (by simp)
  | .serverTimestamp t v, .serverTimestamp t' v' =>
    have := LeafValue.decEqPrevious v v'
    decidable_of_iff (t = t' ∧ v = v') (by simp)
  | .serverTimestamp _ _, .other _ => isFalse (by simp)
  | .other _, .number _ => isFalse (by simp)
  | .other _, .array _ => isFalse (by simp)
  | .other _, .serverTimestamp _ _ => isFalse (by simp)
  | .other v, .other v' => decidable_of_iff (v = v') (by simp)
termination_by structural a => a

/-- Equality of the previous values of server timestamps. -/
def LeafValue.decEqPrevious : (v v' : Option (Tree String (LeafValue F ε))) → Decidable (v = v')
  | none, none => isTrue rfl
  | none, some _ => isFalse (by simp)
  | some _, none => isFalse (by simp)
  | some v, some v' =>
    have := LeafValue.decEqTree v v'
    decidable_of_iff (v = v') (by simp)
termination_by structural v => v

/-- Equality of values, objects included: they have the same fields with the same values. -/
def LeafValue.decEqTree : (v v' : Tree String (LeafValue F ε)) → Decidable (v = v')
  | .leaf a, .leaf b =>
    have := a.decEq b
    decidable_of_iff (a = b) (by simp)
  | .leaf _, .node _ _ => isFalse (by simp)
  | .node _ _, .leaf _ => isFalse (by simp)
  | .node keys vals, .node keys' vals' =>
    if hkeys : keys = keys' then
      have : ∀ k (h : k ∈ keys) (h' : k ∈ keys'), Decidable (vals ⟨k, h⟩ = vals' ⟨k, h'⟩) :=
        fun k h h' => LeafValue.decEqTree (vals ⟨k, h⟩) (vals' ⟨k, h'⟩)
      have : Decidable (∀ k (h : k ∈ keys), vals ⟨k, h⟩ = vals' ⟨k, hkeys ▸ h⟩) :=
        Finset.decidableDforallFinset
      decidable_of_iff (∀ k (h : k ∈ keys), vals ⟨k, h⟩ = vals' ⟨k, hkeys ▸ h⟩) (by
        subst hkeys
        simp [funext_iff])
    else isFalse (by simp [hkeys])
termination_by structural v => v

end

instance : DecidableEq (DocumentValue (LeafValue F ε)) := LeafValue.decEqTree

/-- `operator==` of objects. -/
instance : DecidableEq (ObjectValue (LeafValue F ε)) := fun o o' =>
  decidable_of_iff (o.value = o'.value) ⟨ObjectValue.ext, congrArg ObjectValue.value⟩

end Equality

/-- `LONG_MAX`. -/
def longMax : ℤ := 2 ^ 63 - 1

/-- `LONG_MIN`. -/
def longMin : ℤ := -2 ^ 63

/-- `SafeIncrement(x, y)`. -/
def safeIncrement (x y : ℤ) : ℤ :=
  if 0 < x ∧ y > longMax - x then longMax
  else if x < 0 ∧ y < longMin - x then longMin
  else x + y

/-- `TransformOperation`. -/
inductive TransformOperation (F ε : Type)
  | serverTimestamp
  | arrayUnion (elements : List ε)
  | arrayRemove (elements : List ε)
  | increment (operand : NumberValue F)

section Transforms

variable {F ε : Type}

/-- `AsDouble(value)`. -/
def NumberValue.asDouble [IntCast F] : NumberValue F → F
  | integer n => n
  | double d => d

namespace TransformOperation

/-- `CoercedFieldValuesArray(value)`. -/
def coercedFieldValuesArray : Option (DocumentValue (LeafValue F ε)) → List ε
  | some (.leaf (.array elements)) => elements
  | _ => []

/-- `ArrayTransform::Rep::Apply` for `Type::ArrayUnion`. -/
def applyUnion [DecidableEq ε] (elements result : List ε) : List ε :=
  elements.foldl (fun result element =>
    if element ∈ result then result else result ++ [element]) result

/-- `ArrayTransform::Rep::Apply` for `Type::ArrayRemove`. -/
def applyRemove [DecidableEq ε] (elements result : List ε) : List ε :=
  elements.foldl (fun result element => result.filter fun r => r ≠ element) result

/-- The number that is incremented: the previous value, or `FromInteger(0)`. -/
def baseNumber : Option (DocumentValue (LeafValue F ε)) → NumberValue F
  | some (.leaf (.number n)) => n
  | _ => .integer 0

/-- `ComputeBaseValue(previous_value)`. -/
def computeBaseValue (op : TransformOperation F ε)
    (previousValue : Option (DocumentValue (LeafValue F ε))) : Option (LeafValue F ε) :=
  match op with
  | increment _ => some (.number (baseNumber previousValue))
  | serverTimestamp => none
  | arrayUnion _ => none
  | arrayRemove _ => none

/-- The sum of `NumericIncrementTransform::Rep::ApplyToLocalView`. -/
def add [Add F] [IntCast F] : NumberValue F → NumberValue F → NumberValue F
  | .integer x, .integer y => .integer (safeIncrement x y)
  | baseValue, operand => .double (baseValue.asDouble + operand.asDouble)

/-- `ApplyToLocalView(previous_value, local_write_time)`; no result is an object. -/
def applyToLocalView [Add F] [IntCast F] [DecidableEq ε] (op : TransformOperation F ε)
    (previousValue : Option (DocumentValue (LeafValue F ε))) (localWriteTime : Timestamp) :
    LeafValue F ε :=
  match op with
  | serverTimestamp => .serverTimestamp localWriteTime previousValue
  | arrayUnion elements => .array (applyUnion elements (coercedFieldValuesArray previousValue))
  | arrayRemove elements => .array (applyRemove elements (coercedFieldValuesArray previousValue))
  | increment operand => .number (add (baseNumber previousValue) operand)

end TransformOperation

/-- `FieldTransform`. The path of a field is never empty. -/
structure FieldTransform (F ε : Type) where
  path : List String
  nonempty : path ≠ []
  transformation : TransformOperation F ε

end Transforms

/-! ## Documents and mutations -/

/-- `MaybeDocument`, under its key. -/
inductive StoredDocument (δ : Type*)
  | document (data : δ) (version : Timestamp) (state : DocumentState)
  | noDocument (version : Timestamp) (hasCommittedMutations : Bool)
  | unknownDocument (version : Timestamp)

namespace StoredDocument

/-- Is there a document? -/
def isDocument {δ : Type*} : Option (StoredDocument δ) → Bool
  | some (document _ _ _) => true
  | _ => false

variable {α : Type*}

/-- `Document(*maybe_doc).field(path)`, if there is a document. -/
def field (doc : Option (StoredDocument (ObjectValue α))) (path : List String) :
    Option (DocumentValue α) :=
  match doc with
  | some (document data _ _) => data.get path
  | _ => none

/-- `Document(*maybe_doc).data()`, or `ObjectValue::Empty()`. -/
def data : Option (StoredDocument (ObjectValue α)) → ObjectValue α
  | some (document data _ _) => data
  | _ => .empty α

/-- A document that is missing reads as an empty one. -/
lemma field_eq (doc : Option (StoredDocument (ObjectValue α))) {path : List String}
    (hpath : path ≠ []) : field doc path = (data doc).get path := by
  have hempty : (ObjectValue.empty α).get path = none := Tree.get_empty hpath
  rcases doc with _ | (_ | _ | _)
  · exact hempty.symm
  · rfl
  · exact hempty.symm
  · exact hempty.symm

end StoredDocument

/-- `Precondition`. -/
inductive Precondition
  | none
  | exists_ (expected : Bool)
  | updateTime (version : Timestamp)

namespace Precondition

/-- `IsValidFor(maybe_doc)`. -/
def isValidFor {δ : Type*} (precondition : Precondition) (doc : Option (StoredDocument δ)) :
    Bool :=
  match precondition with
  | none => true
  | exists_ expected => expected = StoredDocument.isDocument doc
  | updateTime time =>
    match doc with
    | some (.document _ version _) => version = time
    | _ => false

/-- Does it compare versions? Such preconditions are made for transactions, which are not applied
locally. -/
def readsVersion : Precondition → Bool
  | updateTime _ => true
  | _ => false

/-- Other preconditions hold for all documents, or for no document. -/
lemma isValidFor_congr {δ : Type*} {precondition : Precondition}
    (h : precondition.readsVersion = false) {d d' : Option (StoredDocument δ)}
    (hd : StoredDocument.isDocument d = StoredDocument.isDocument d') :
    precondition.isValidFor d = precondition.isValidFor d' := by
  cases precondition with
  | none => rfl
  | exists_ expected => rw [isValidFor, isValidFor, hd]
  | updateTime version => cases h

end Precondition

/-- `SetMutation`, `PatchMutation`, `DeleteMutation`. There is also `VerifyMutation`, for
transactions; applying it locally fails. -/
inductive Mutation (κ F ε : Type)
  | set (key : κ) (value : ObjectValue (LeafValue F ε)) (precondition : Precondition)
      (fieldTransforms : List (FieldTransform F ε))
  | patch (key : κ) (value : ObjectValue (LeafValue F ε)) (mask : FieldMask)
      (precondition : Precondition) (fieldTransforms : List (FieldTransform F ε))
  | delete (key : κ) (precondition : Precondition)

namespace Mutation

variable {κ F ε : Type}

/-- `key()`. -/
def key : Mutation κ F ε → κ
  | set key _ _ _ => key
  | patch key _ _ _ _ => key
  | delete key _ => key

/-- `precondition()`. -/
def precondition : Mutation κ F ε → Precondition
  | set _ _ precondition _ => precondition
  | patch _ _ _ precondition _ => precondition
  | delete _ precondition => precondition

/-- `field_transforms()`. -/
def fieldTransforms : Mutation κ F ε → List (FieldTransform F ε)
  | set _ _ _ fieldTransforms => fieldTransforms
  | patch _ _ _ _ fieldTransforms => fieldTransforms
  | delete _ _ => []

/-- `GetPostMutationVersion(maybe_doc)`; `SnapshotVersion::None()` is zero. -/
def getPostMutationVersion {δ : Type*} : Option (StoredDocument δ) → Timestamp
  | some (.document _ version _) => version
  | _ => 0

/-- The step of the loop of `ExtractTransformBaseValue`. -/
def extractBase (doc : Option (StoredDocument (ObjectValue (LeafValue F ε))))
    (baseObject : Option (ObjectValue (LeafValue F ε))) (transform : FieldTransform F ε) :
    Option (ObjectValue (LeafValue F ε)) :=
  match transform.transformation.computeBaseValue (StoredDocument.field doc transform.path) with
  | none => baseObject
  | some coercedValue =>
    some ((baseObject.getD (.empty _)).set transform.path (.leaf coercedValue))

/-- `ExtractTransformBaseValue(maybe_doc)`. -/
def extractTransformBaseValue (m : Mutation κ F ε)
    (doc : Option (StoredDocument (ObjectValue (LeafValue F ε)))) :
    Option (ObjectValue (LeafValue F ε)) :=
  m.fieldTransforms.foldl (extractBase doc) none

variable [Add F] [IntCast F] [DecidableEq ε]

/-- `LocalTransformResults(maybe_doc, local_write_time)`. -/
def localTransformResults (fieldTransforms : List (FieldTransform F ε))
    (doc : Option (StoredDocument (ObjectValue (LeafValue F ε)))) (localWriteTime : Timestamp) :
    List (DocumentValue (LeafValue F ε)) :=
  fieldTransforms.map fun transform =>
    .leaf (transform.transformation.applyToLocalView (StoredDocument.field doc transform.path)
      localWriteTime)

omit [Add F] [IntCast F] [DecidableEq ε] in
/-- `TransformObject(object_value, transform_results)`. -/
def transformObject (fieldTransforms : List (FieldTransform F ε))
    (objectValue : ObjectValue (LeafValue F ε))
    (transformResults : List (DocumentValue (LeafValue F ε))) : ObjectValue (LeafValue F ε) :=
  (fieldTransforms.zip transformResults).foldl
    (fun object transform => object.set transform.1.path transform.2) objectValue

/-- `ApplyToLocalView(maybe_doc, local_write_time)`. -/
def applyToLocalView (m : Mutation κ F ε) (localWriteTime : Timestamp)
    (doc : Option (StoredDocument (ObjectValue (LeafValue F ε)))) :
    Option (StoredDocument (ObjectValue (LeafValue F ε))) :=
  if m.precondition.isValidFor doc = false then doc
  else
    match m with
    | set _ value _ transforms =>
      some (.document
        (transformObject transforms value (localTransformResults transforms doc localWriteTime))
        (getPostMutationVersion doc) .localMutations)
    | patch _ value mask _ transforms =>
      some (.document
        (transformObject transforms (value.patchObject mask (StoredDocument.data doc))
          (localTransformResults transforms doc localWriteTime))
        (getPostMutationVersion doc) .localMutations)
    | delete _ _ => some (.noDocument 0 false)

/-! ### What a write depends on -/

/-- Two documents that both exist or both do not, with the same value of a field. -/
structure Agree (path : List String)
    (d d' : Option (StoredDocument (ObjectValue (LeafValue F ε)))) : Prop where
  isDocument : StoredDocument.isDocument d = StoredDocument.isDocument d'
  get_data : (StoredDocument.data d).get path = (StoredDocument.data d').get path

omit [Add F] [IntCast F] [DecidableEq ε] in
/-- Two documents that do not exist have the same values of all fields. -/
lemma Agree.of_missing {path : List String}
    {d d' : Option (StoredDocument (ObjectValue (LeafValue F ε)))}
    (hd : StoredDocument.isDocument d = false) (hd' : StoredDocument.isDocument d' = false) :
    Agree path d d' := by
  have hdata : ∀ doc : Option (StoredDocument (ObjectValue (LeafValue F ε))),
      StoredDocument.isDocument doc = false →
      StoredDocument.data doc = ObjectValue.empty (LeafValue F ε) := by
    intro doc hdoc
    rcases doc with _ | (_ | _ | _)
    · rfl
    · cases hdoc
    · rfl
    · rfl
  exact ⟨hd.trans hd'.symm, by rw [hdata d hd, hdata d' hd']⟩

/-- The results of the transforms are put in place one after the other. -/
lemma transformObject_eq (transforms : List (FieldTransform F ε))
    (object : ObjectValue (LeafValue F ε))
    (d : Option (StoredDocument (ObjectValue (LeafValue F ε)))) (time : Timestamp) :
    transformObject transforms object (localTransformResults transforms d time) =
      transforms.foldl (fun object transform => object.set transform.path
        (.leaf (transform.transformation.applyToLocalView
          (StoredDocument.field d transform.path) time))) object := by
  unfold transformObject localTransformResults
  induction transforms generalizing object with
  | nil => rfl
  | cons transform transforms ih => exact ih _

/-- A field after one transform depends only on what it was before. A transform further inside
reads a part of the field; a transform further outside replaces it by something without fields. -/
lemma get_set_transform_congr {path : List String}
    {d d' : Option (StoredDocument (ObjectValue (LeafValue F ε)))}
    (hd : (StoredDocument.data d).get path = (StoredDocument.data d').get path)
    {object object' : ObjectValue (LeafValue F ε)} (hobject : object.get path = object'.get path)
    (transform : FieldTransform F ε) (time : Timestamp) :
    (object.set transform.path (.leaf (transform.transformation.applyToLocalView
      (StoredDocument.field d transform.path) time))).get path =
    (object'.set transform.path (.leaf (transform.transformation.applyToLocalView
      (StoredDocument.field d' transform.path) time))).get path := by
  rcases path_cases path transform.path with ⟨rest, hrest⟩ | ⟨rest, hrest, rfl⟩ | hapart
  · have hfield : StoredDocument.field d transform.path =
        StoredDocument.field d' transform.path := by
      rw [StoredDocument.field_eq d transform.nonempty,
        StoredDocument.field_eq d' transform.nonempty]
      unfold ObjectValue.get at *
      rw [hrest, Tree.get_append, Tree.get_append, hd]
    rw [hfield]
    exact Tree.get_set_congr hobject transform.path _
  · have hleaf : ∀ (object : ObjectValue (LeafValue F ε)) (a : LeafValue F ε),
        (object.set transform.path (.leaf a)).get (transform.path ++ rest) = none := by
      intro object a
      obtain ⟨k, rest, rfl⟩ := List.exists_cons_of_ne_nil hrest
      exact Tree.get_set_append object.value transform.nonempty (.leaf a) (k :: rest)
    rw [hleaf, hleaf]
  · exact (Tree.get_set_of_apart _ hapart.symm _).trans
      (hobject.trans (Tree.get_set_of_apart _ hapart.symm _).symm)

/-- A field after some transforms depends only on what it was before. -/
lemma get_transformObject_congr {path : List String}
    {d d' : Option (StoredDocument (ObjectValue (LeafValue F ε)))}
    (hd : (StoredDocument.data d).get path = (StoredDocument.data d').get path)
    {object object' : ObjectValue (LeafValue F ε)} (hobject : object.get path = object'.get path)
    (transforms : List (FieldTransform F ε)) (time : Timestamp) :
    (transformObject transforms object (localTransformResults transforms d time)).get path =
    (transformObject transforms object' (localTransformResults transforms d' time)).get path := by
  rw [transformObject_eq, transformObject_eq]
  induction transforms generalizing object object' with
  | nil => exact hobject
  | cons transform transforms ih => exact ih (get_set_transform_congr hd hobject transform time)

/-- Whether there is a document after a write. -/
lemma isDocument_applyToLocalView (m : Mutation κ F ε) (time : Timestamp)
    {d d' : Option (StoredDocument (ObjectValue (LeafValue F ε)))}
    (hm : m.precondition.readsVersion = false)
    (hd : StoredDocument.isDocument d = StoredDocument.isDocument d') :
    StoredDocument.isDocument (m.applyToLocalView time d) =
      StoredDocument.isDocument (m.applyToLocalView time d') := by
  unfold applyToLocalView
  rw [Precondition.isValidFor_congr hm hd]
  split_ifs with hvalid
  · exact hd
  · cases m <;> rfl

/-- **A field after a write** depends on what it was before, and on whether there was a document,
and on nothing else. -/
theorem agree_applyToLocalView (m : Mutation κ F ε) (time : Timestamp) {path : List String}
    {d d' : Option (StoredDocument (ObjectValue (LeafValue F ε)))}
    (hm : m.precondition.readsVersion = false) (h : Agree path d d') :
    Agree path (m.applyToLocalView time d) (m.applyToLocalView time d') := by
  refine ⟨isDocument_applyToLocalView m time hm h.isDocument, ?_⟩
  unfold applyToLocalView
  rw [Precondition.isValidFor_congr hm h.isDocument]
  split_ifs with hvalid
  · exact h.get_data
  · cases m with
    | set key value precondition transforms =>
      exact get_transformObject_congr h.get_data rfl transforms time
    | patch key value mask precondition transforms =>
      refine get_transformObject_congr h.get_data ?_ transforms time
      exact ObjectValue.get_patchObject_congr value mask h.get_data
    | delete key precondition => rfl

end Mutation

end AntViewer.Firestore
