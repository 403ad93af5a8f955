import AntViewer.Firestore.View
import AntViewer.Library.NestedMaps
import Mathlib.Data.List.Lex
import Mathlib.Data.String.Basic

set_option relaxedAutoImplicit false
set_option autoImplicit false

/-!
# The data of documents

The data of a document is an object: a nested map from field names to values. Patches copy some of
its fields from another object.

## Main definitions

* `ObjectValue` — objects, with `get`, `set`, `delete`, `toFieldMask`.
* `ObjectValue.patchObject` — the fields of a mask, from another object.

## Main results

* `ObjectValue.patchObject_spec` — what a patch changes, in whatever order its paths are taken, and
  that an object can be sent as a patch.
-/

namespace AntViewer.Firestore

open NestedMaps

/-- `model::FieldValue`: an object, or a value of another type. -/
abbrev DocumentValue (α : Type*) := NestedMaps.Tree String α

/-- `FieldMask`: paths of fields. -/
abbrev FieldMask := Finset (List String)

/-- `covers(field_path)`: the path is one of the mask, or leads further. -/
def FieldMask.covers (mask : FieldMask) (path : List String) : Prop := ∃ p ∈ mask, p <+: path

/-- `ObjectValue`. -/
structure ObjectValue (α : Type*) where
  value : DocumentValue α
  isObject : value.isNode = true

namespace ObjectValue

variable {α : Type*}

@[ext] lemma ext {o o' : ObjectValue α} (h : o.value = o'.value) : o = o' := by
  cases o
  cases o'
  cases h
  rfl

/-- `Empty()`. -/
def empty (α : Type*) : ObjectValue α := ⟨Tree.empty String α, rfl⟩

/-- `Get(field_path)`. -/
def get (o : ObjectValue α) (path : List String) : Option (DocumentValue α) := o.value.get path

/-- `Set(field_path, value)`; no caller passes the empty path, for which there is an assertion. -/
def set (o : ObjectValue α) (path : List String) (value : DocumentValue α) : ObjectValue α :=
  ⟨o.value.set path value, Tree.isNode_set o.isObject path value⟩

/-- `Delete(field_path)`; no caller passes the empty path, for which there is an assertion. -/
def delete (o : ObjectValue α) (path : List String) : ObjectValue α :=
  ⟨o.value.delete path, Tree.isNode_delete o.isObject path⟩

/-- `ToFieldMask()`: the paths to the values that are no objects, and to the empty objects. -/
def toFieldMask (o : ObjectValue α) : FieldMask := o.value.paths

/-- The body of the loop of `PatchMutation::PatchObject`. -/
def patchField (value obj : ObjectValue α) (path : List String) : ObjectValue α :=
  if path = [] then obj
  else
    match value.get path with
    | none => obj.delete path
    | some newValue => obj.set path newValue

/-- `PatchMutation::PatchObject(obj)`, for the value and the mask of the patch. -/
def patchObject (value : ObjectValue α) (mask : FieldMask) (obj : ObjectValue α) : ObjectValue α :=
  (inKeyOrder mask).foldl (patchField value) obj

/-- Patching copies fields one after the other, in whatever order. -/
lemma value_patchFields (value obj : ObjectValue α) (paths : List (List String)) :
    (paths.foldl (patchField value) obj).value = Tree.copyAll value.value obj.value paths := by
  unfold Tree.copyAll
  induction paths generalizing obj with
  | nil => rfl
  | cons path paths ih =>
    rw [List.foldl_cons, List.foldl_cons, ih]
    congr 1
    unfold patchField Tree.copy get
    by_cases hpath : path = []
    · rw [if_pos hpath, hpath]
      rfl
    · rw [if_neg hpath]
      cases value.value.get path <;> rfl

/-- Patching copies the fields of the mask. -/
lemma value_patchObject (value : ObjectValue α) (mask : FieldMask) (obj : ObjectValue α) :
    (patchObject value mask obj).value =
      Tree.copyAll value.value obj.value (inKeyOrder mask) :=
  value_patchFields value obj (inKeyOrder mask)

/-- The order in which the paths of a mask are taken does not matter. -/
lemma foldl_patchField (value obj : ObjectValue α) {mask : FieldMask} {paths : List (List String)}
    (h : ∀ p, p ∈ paths ↔ p ∈ mask) :
    paths.foldl (patchField value) obj = patchObject value mask obj := by
  apply ext
  rw [value_patchFields, value_patchObject]
  exact Tree.copyAll_congr _ _ fun p => (h p).trans mem_inKeyOrder.symm

/-- A field that the mask covers is as in the value of the patch. -/
lemma get_patchObject_of_covers (value : ObjectValue α) {mask : FieldMask} (obj : ObjectValue α)
    {path : List String} (hmask : [] ∉ mask) (hcovers : mask.covers path) :
    (patchObject value mask obj).get path = value.get path := by
  obtain ⟨p, hp, hprefix⟩ := hcovers
  rw [get, value_patchObject]
  refine (Tree.get_copyAll _ _ _ path).1 ⟨p, mem_inKeyOrder.mpr hp, ?_, hprefix⟩
  rintro rfl
  exact hmask hp

/-- A field apart from the mask is as before. -/
lemma get_patchObject_of_apart (value : ObjectValue α) {mask : FieldMask} (obj : ObjectValue α)
    {path : List String} (hapart : ∀ p ∈ mask, Apart p path) :
    (patchObject value mask obj).get path = obj.get path := by
  rw [get, value_patchObject]
  exact (Tree.get_copyAll _ _ _ path).2 fun p hp => hapart p (mem_inKeyOrder.mp hp)

/-- A field after a patch depends only on what it was before. -/
lemma get_patchObject_congr (value : ObjectValue α) (mask : FieldMask) {obj obj' : ObjectValue α}
    {path : List String} (h : obj.get path = obj'.get path) :
    (patchObject value mask obj).get path = (patchObject value mask obj').get path := by
  rw [get, get, value_patchObject, value_patchObject]
  exact Tree.get_copyAll_congr value.value h (inKeyOrder mask)

/-- The mask of an object does not have the empty path. -/
lemma nil_notMem_toFieldMask (o : ObjectValue α) : [] ∉ o.toFieldMask :=
  fun h => Tree.ne_nil_of_mem_paths h rfl

/-- **What a patch changes**: a field that the mask covers is as in the value of the patch, and
missing if it is missing there; a field apart from the mask is as before; and whatever the order in
which the paths of the mask are taken, however often, the result is the same. An object that is
sent as a patch with its own mask is the result of patching nothing.

**Proof sketch.** Once a field is copied, whatever else is copied leaves it as it is in the patch;
and an object is determined by what is found along all paths. An object is also determined by its
fields that are no objects, and by its empty objects. -/
theorem patchObject_spec (value : ObjectValue α) :
    (∀ (mask : FieldMask) obj path, [] ∉ mask → mask.covers path →
      (patchObject value mask obj).get path = value.get path) ∧
    (∀ mask obj path, (∀ p ∈ mask, Apart p path) →
      (patchObject value mask obj).get path = obj.get path) ∧
    (∀ (mask : FieldMask) obj (paths : List (List String)), (∀ p, p ∈ paths ↔ p ∈ mask) →
      paths.foldl (patchField value) obj = patchObject value mask obj) ∧
    patchObject value value.toFieldMask (empty α) = value := by
  refine ⟨fun mask obj path hmask hcovers => get_patchObject_of_covers value obj hmask hcovers,
    fun mask obj path hapart => get_patchObject_of_apart value obj hapart,
    fun mask obj paths hpaths => foldl_patchField value obj hpaths, ?_⟩
  apply ext
  rw [value_patchObject]
  exact Tree.copyAll_paths value.isObject fun p => mem_inKeyOrder

/-- A patch that sets one field of an object, takes another one away and leaves the third. -/
theorem patchObject_spec_pair :
    let value := (empty ℕ).set ["a"] (.leaf 1)
    let obj := ((empty ℕ).set ["b"] (.leaf 2)).set ["c", "d"] (.leaf 3)
    (patchObject value {["a"], ["c"]} obj).get ["a"] = some (.leaf 1) ∧
    (patchObject value {["a"], ["c"]} obj).get ["c", "d"] = none ∧
    (patchObject value {["a"], ["c"]} obj).get ["b"] = some (.leaf 2) ∧
    patchField value (patchField value (patchField value obj ["c"]) ["a"]) ["c"] =
      patchObject value {["a"], ["c"]} obj ∧
    patchObject value value.toFieldMask (empty ℕ) = value := by
  obtain ⟨hcovered, hapart, horder, hself⟩ := patchObject_spec ((empty ℕ).set ["a"] (.leaf 1))
  refine ⟨hcovered _ _ _ ?_ ⟨["a"], by simp, List.prefix_rfl⟩,
    hcovered _ _ _ ?_ ⟨["c"], by simp, ⟨["d"], rfl⟩⟩, hapart _ _ _ ?_,
    horder _ _ [["c"], ["a"], ["c"]] ?_, hself⟩
  · simp
  · simp
  · intro p hp
    rcases Finset.mem_insert.mp hp with rfl | hp
    · exact apart_of_ne (by simp) [] []
    · obtain rfl := Finset.mem_singleton.mp hp
      exact apart_of_ne (by simp) [] []
  · intro p
    simp only [List.mem_cons, List.not_mem_nil, Finset.mem_insert, Finset.mem_singleton]
    tauto

end ObjectValue

end AntViewer.Firestore
