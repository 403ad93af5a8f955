import AntViewer.Firestore.Mutations
import AntViewer.Library.Runs
import Mathlib.Algebra.Order.Ring.Unbundled.Rat

set_option relaxedAutoImplicit false
set_option autoImplicit false

/-!
# Local writes

A write of the program is applied at once to what the client shows of a document. It waits in a
batch until the server acknowledges it, and whatever the server sends meanwhile, it is applied
again to that. An increment of a number would then count twice if the server sent a document that
has it already. So the client keeps with a batch the numbers that its increments started from, as
patches that are applied first.

## Main definitions

* `MutationBatch`, `LocalStore.newBatch` — batches, and how the client makes them.
* `LocalDocumentsView.getDocument` — a document of the server with the waiting batches applied.
* `Mutation.Increments` — a mutation that increments a field.

## Main results

* `LocalDocumentsView.increment_steady` — what is shown of an incremented field does not depend
  on what the server sends while the increment waits.
* `LocalDocumentsView.increment_counts_once` — it is the number of when the write was made, plus
  the operand.
-/

namespace AntViewer.Firestore

open NestedMaps Runs

/-! ## Batches -/

/-- `MutationBatch`, as far as it is applied to documents. -/
structure MutationBatch (κ F ε : Type) where
  localWriteTime : Timestamp
  baseMutations : List (Mutation κ F ε)
  mutations : List (Mutation κ F ε)
  nonempty : mutations ≠ []

section Batches

variable {κ F ε : Type} [DecidableEq κ] [Add F] [IntCast F] [DecidableEq ε]

/-- Applies those of some mutations that write to a document. -/
def applyMutations (documentKey : κ) (localWriteTime : Timestamp)
    (mutations : List (Mutation κ F ε))
    (doc : Option (StoredDocument (ObjectValue (LeafValue F ε)))) :
    Option (StoredDocument (ObjectValue (LeafValue F ε))) :=
  mutations.foldl (fun doc mutation =>
    if mutation.key = documentKey then mutation.applyToLocalView localWriteTime doc else doc) doc

/-- `ApplyToLocalDocument(maybe_doc, document_key)`. -/
def MutationBatch.applyToLocalDocument (batch : MutationBatch κ F ε) (documentKey : κ)
    (doc : Option (StoredDocument (ObjectValue (LeafValue F ε)))) :
    Option (StoredDocument (ObjectValue (LeafValue F ε))) :=
  applyMutations documentKey batch.localWriteTime batch.mutations
    (applyMutations documentKey batch.localWriteTime batch.baseMutations doc)

/-- `LocalDocumentsView::GetDocument(key, batches)`, for the document of the remote document
cache. -/
def LocalDocumentsView.getDocument (key : κ) (batches : List (MutationBatch κ F ε))
    (remote : Option (StoredDocument (ObjectValue (LeafValue F ε)))) :
    Option (StoredDocument (ObjectValue (LeafValue F ε))) :=
  batches.foldl (fun document batch => batch.applyToLocalDocument key document) remote

omit [DecidableEq κ] [Add F] [IntCast F] [DecidableEq ε] in
/-- The base mutation that `WriteLocally` records for a mutation, if any. -/
def LocalStore.baseMutation
    (existing : κ → Option (StoredDocument (ObjectValue (LeafValue F ε))))
    (mutation : Mutation κ F ε) : Option (Mutation κ F ε) :=
  (mutation.extractTransformBaseValue (existing mutation.key)).map fun baseValue =>
    .patch mutation.key baseValue baseValue.toFieldMask (.exists_ true) []

omit [DecidableEq κ] [Add F] [IntCast F] [DecidableEq ε] in
/-- The batch that `LocalStore::WriteLocally(mutations)` adds to the queue, for what is shown of
the documents. -/
def LocalStore.newBatch
    (existing : κ → Option (StoredDocument (ObjectValue (LeafValue F ε))))
    (localWriteTime : Timestamp) (mutations : List (Mutation κ F ε)) (h : mutations ≠ []) :
    MutationBatch κ F ε where
  localWriteTime := localWriteTime
  baseMutations := mutations.filterMap (LocalStore.baseMutation existing)
  mutations := mutations
  nonempty := h

/-! ### Increments -/

/-- The mutation increments a field by some operand, and transforms nothing else inside or around
the field. -/
def Mutation.Increments (m : Mutation κ F ε) (path : List String) (operand : NumberValue F) :
    Prop :=
  (∃ transform ∈ m.fieldTransforms, transform.path = path) ∧
  ∀ transform ∈ m.fieldTransforms,
    transform.path = path ∧ transform.transformation = .increment operand ∨
    Apart transform.path path

omit [DecidableEq κ] [Add F] [IntCast F] [DecidableEq ε] in
/-- A field that was set is found. -/
lemma get_set_self (object : ObjectValue (LeafValue F ε)) (transform : FieldTransform F ε)
    (v : DocumentValue (LeafValue F ε)) :
    (object.set transform.path v).get transform.path = some v := by
  have h := Tree.get_set_append object.value transform.nonempty v []
  rwa [List.append_nil] at h

omit [DecidableEq κ] [Add F] [IntCast F] [DecidableEq ε] in
/-- The base value of a mutation has the number that the mutation increments.

**Proof sketch.** The number is put there when the loop comes to the increment. Base values of
other transforms are apart, or they are the same number again. -/
lemma Mutation.get_extractTransformBaseValue {m : Mutation κ F ε} {path : List String}
    {operand : NumberValue F} (h : m.Increments path operand)
    (doc : Option (StoredDocument (ObjectValue (LeafValue F ε)))) :
    ∃ baseValue, m.extractTransformBaseValue doc = some baseValue ∧ baseValue.get path =
      some (.leaf (.number (TransformOperation.baseNumber (StoredDocument.field doc path)))) := by
  obtain ⟨⟨transform, hmem, rfl⟩, htransforms⟩ := h
  have hincrement : ∀ t : FieldTransform F ε, t.path = transform.path →
      t.transformation = .increment operand → ∀ baseObject,
      (extractBase doc baseObject t).bind (fun o => o.get transform.path) = some (.leaf
        (.number (TransformOperation.baseNumber (StoredDocument.field doc transform.path)))) := by
    intro t hpath hop baseObject
    rw [extractBase, hop, ← hpath]
    exact get_set_self _ t _
  have hop := ((htransforms transform hmem).resolve_right fun h => h.1 List.prefix_rfl).2
  refine Option.bind_eq_some_iff.mp (foldl_observe
    (fun baseObject => baseObject.bind fun object => ObjectValue.get object transform.path)
    (fun t ht => ?_) ⟨transform, hmem, hincrement transform rfl hop⟩ none)
  rcases htransforms t ht with ⟨hpath, hop⟩ | hapart
  · exact Or.inl (hincrement t hpath hop)
  · refine Or.inr fun baseObject => ?_
    unfold extractBase
    cases t.transformation.computeBaseValue (StoredDocument.field doc t.path) with
    | none => rfl
    | some v =>
      refine (Tree.get_set_of_apart _ hapart _).trans ?_
      cases baseObject with
      | none => exact Tree.get_empty transform.nonempty
      | some object => rfl

/-- The mutations that are applied locally are made without versions. -/
def IgnoreVersions (mutations : List (Mutation κ F ε)) : Prop :=
  ∀ m ∈ mutations, m.precondition.readsVersion = false

/-- Whether there is a document after some writes. -/
lemma isDocument_applyMutations (key : κ) (time : Timestamp) {mutations : List (Mutation κ F ε)}
    (hmutations : IgnoreVersions mutations)
    {d d' : Option (StoredDocument (ObjectValue (LeafValue F ε)))}
    (h : StoredDocument.isDocument d = StoredDocument.isDocument d') :
    StoredDocument.isDocument (applyMutations key time mutations d) =
      StoredDocument.isDocument (applyMutations key time mutations d') := by
  unfold applyMutations
  induction mutations generalizing d d' with
  | nil => exact h
  | cons m mutations ih =>
    refine ih (fun m' hm' => hmutations m' (List.mem_cons_of_mem m hm')) ?_
    dsimp only
    split_ifs with hkey
    · exact m.isDocument_applyToLocalView time (hmutations m List.mem_cons_self) h
    · exact h

/-- A field after some writes depends on what it was before only. -/
lemma agree_applyMutations (key : κ) (time : Timestamp) {mutations : List (Mutation κ F ε)}
    (hmutations : IgnoreVersions mutations) {path : List String}
    {d d' : Option (StoredDocument (ObjectValue (LeafValue F ε)))}
    (h : Mutation.Agree path d d') :
    Mutation.Agree path (applyMutations key time mutations d)
      (applyMutations key time mutations d') := by
  unfold applyMutations
  induction mutations generalizing d d' with
  | nil => exact h
  | cons m mutations ih =>
    refine ih (fun m' hm' => hmutations m' (List.mem_cons_of_mem m hm')) ?_
    dsimp only
    split_ifs with hkey
    · exact m.agree_applyToLocalView time (hmutations m List.mem_cons_self) h
    · exact h

omit [DecidableEq κ] in
/-- **The base mutation** of an increment puts the number there that is incremented, in whatever
document it is applied to. -/
lemma LocalStore.get_baseMutation {m : Mutation κ F ε} {path : List String}
    {operand : NumberValue F} (h : m.Increments path operand)
    (existing : κ → Option (StoredDocument (ObjectValue (LeafValue F ε)))) (time : Timestamp) :
    ∃ base, LocalStore.baseMutation existing m = some base ∧ base.key = m.key ∧
      base.precondition = .exists_ true ∧
      ∀ d, StoredDocument.isDocument d = true →
        StoredDocument.isDocument (base.applyToLocalView time d) = true ∧
        (StoredDocument.data (base.applyToLocalView time d)).get path = some (.leaf (.number
          (TransformOperation.baseNumber (StoredDocument.field (existing m.key) path)))) := by
  obtain ⟨baseValue, hbase, hget⟩ := Mutation.get_extractTransformBaseValue h (existing m.key)
  refine ⟨.patch m.key baseValue baseValue.toFieldMask (.exists_ true) [], ?_, rfl, rfl,
    fun d hd => ?_⟩
  · rw [LocalStore.baseMutation, hbase]
    rfl
  · have hvalid : (Precondition.exists_ true).isValidFor d = true := by
      rw [Precondition.isValidFor, hd]
      rfl
    have hpath : path ≠ [] := by
      obtain ⟨⟨transform, -, rfl⟩, -⟩ := h
      exact transform.nonempty
    have hcovers : baseValue.toFieldMask.covers path :=
      ⟨path, Tree.mem_paths_of_get hpath hget rfl, List.prefix_rfl⟩
    rw [Mutation.applyToLocalView, Mutation.precondition, if_neg (by rw [hvalid]; simp)]
    exact ⟨rfl, (ObjectValue.get_patchObject_of_covers baseValue _
      baseValue.nil_notMem_toFieldMask hcovers).trans hget⟩

omit [DecidableEq κ] [Add F] [IntCast F] [DecidableEq ε] in
/-- Base mutations ask whether there is a document, and for no version. -/
lemma LocalStore.ignoreVersions_baseMutations (mutations : List (Mutation κ F ε))
    (existing : κ → Option (StoredDocument (ObjectValue (LeafValue F ε)))) :
    IgnoreVersions (mutations.filterMap (LocalStore.baseMutation existing)) := by
  intro base hbase
  obtain ⟨m, -, hm⟩ := List.mem_filterMap.mp hbase
  obtain ⟨baseValue, -, rfl⟩ := Option.map_eq_some_iff.mp hm
  rfl

/-- Once the base mutations are applied, an incremented field is the same in all documents. -/
lemma LocalStore.agree_baseMutations {mutations : List (Mutation κ F ε)} {m : Mutation κ F ε}
    (hm : m ∈ mutations) {path : List String} {operand : NumberValue F}
    (h : m.Increments path operand)
    (existing : κ → Option (StoredDocument (ObjectValue (LeafValue F ε)))) (time : Timestamp)
    {d d' : Option (StoredDocument (ObjectValue (LeafValue F ε)))}
    (hd : StoredDocument.isDocument d = StoredDocument.isDocument d') :
    Mutation.Agree path
      (applyMutations m.key time (mutations.filterMap (LocalStore.baseMutation existing)) d)
      (applyMutations m.key time (mutations.filterMap (LocalStore.baseMutation existing)) d') := by
  have hversions := LocalStore.ignoreVersions_baseMutations mutations existing
  obtain ⟨base, hbase, hkey, hprecondition, hget⟩ := LocalStore.get_baseMutation h existing time
  obtain ⟨before, after, rfl⟩ := List.append_of_mem hm
  rw [List.filterMap_append, List.filterMap_cons_some hbase] at hversions ⊢
  unfold applyMutations
  rw [List.foldl_append, List.foldl_append, List.foldl_cons, List.foldl_cons, if_pos hkey,
    if_pos hkey]
  refine agree_applyMutations m.key time
    (fun m' hm' => hversions m' (List.mem_append_right _ (List.mem_cons_of_mem base hm'))) ?_
  -- the base mutation itself
  have hbefore := isDocument_applyMutations m.key time
    (fun m' hm' => hversions m' (List.mem_append_left _ hm')) hd
  have hreads : base.precondition.readsVersion = false := by rw [hprecondition]; rfl
  refine ⟨base.isDocument_applyToLocalView time hreads hbefore, ?_⟩
  cases hdoc : StoredDocument.isDocument (applyMutations m.key time
      (before.filterMap (LocalStore.baseMutation existing)) d) with
  | true => exact (hget _ hdoc).2.trans (hget _ (hbefore ▸ hdoc)).2.symm
  | false =>
    exact (base.agree_applyToLocalView time hreads
      (Mutation.Agree.of_missing hdoc (hbefore ▸ hdoc))).get_data

/-- A field with the waiting batches applied depends on what it was before only. -/
lemma LocalDocumentsView.agree_getDocument (key : κ) {batches : List (MutationBatch κ F ε)}
    (hbatches : ∀ b ∈ batches, IgnoreVersions b.baseMutations ∧ IgnoreVersions b.mutations)
    {path : List String} {d d' : Option (StoredDocument (ObjectValue (LeafValue F ε)))}
    (h : Mutation.Agree path d d') :
    Mutation.Agree path (getDocument key batches d) (getDocument key batches d') := by
  unfold getDocument
  induction batches generalizing d d' with
  | nil => exact h
  | cons b batches ih =>
    obtain ⟨hbase, hmutations⟩ := hbatches b List.mem_cons_self
    refine ih (fun b' hb' => hbatches b' (List.mem_cons_of_mem b hb')) ?_
    exact agree_applyMutations key _ hmutations (agree_applyMutations key _ hbase h)

omit [DecidableEq κ] [Add F] [IntCast F] [DecidableEq ε] in
/-- A mutation whose only transform is an increment. -/
lemma Mutation.increments_single {m : Mutation κ F ε} {transform : FieldTransform F ε}
    {operand : NumberValue F} {path : List String} (h : m.fieldTransforms = [transform])
    (hop : transform.transformation = .increment operand) (hpath : transform.path = path) :
    m.Increments path operand := by
  rw [Mutation.Increments, h]
  refine ⟨⟨transform, List.mem_singleton_self _, hpath⟩, fun t ht => Or.inl ?_⟩
  rw [List.mem_singleton.mp ht]
  exact ⟨hpath, hop⟩

/-- A document with a number in one field. -/
def counter (n : ℤ) : StoredDocument (ObjectValue (LeafValue ℚ String)) :=
  .document ((ObjectValue.empty _).set ["count"] (.leaf (.number (.integer n)))) 0 .synced

/-- The update that increments the number by one. -/
def countUp : Mutation ℕ ℚ String :=
  .patch 0 (.empty _) ∅ (.exists_ true)
    [⟨["count"], List.cons_ne_nil _ _, .increment (.integer 1)⟩]

/-- It increments the field by one. -/
lemma increments_countUp : countUp.Increments ["count"] (.integer 1) :=
  Mutation.increments_single rfl rfl rfl

/-- A batch of it is not empty. -/
lemma countUp_ne_nil : [countUp] ≠ [] := List.cons_ne_nil _ _

/-- It is made without a version. -/
lemma ignoreVersions_countUp : IgnoreVersions [countUp] := by
  intro m hm
  rw [List.mem_singleton.mp hm]
  rfl

/-- **Increments do not flicker.** A write increments a field. Whatever the server sends for the
document while the write waits, and whatever becomes of the writes before it and is written after
it, the same is shown in the field, as long as there is a document for the write to be applied to.

**Proof sketch.** The base mutations of the batch put the same number into the field. From there
on everything that is applied depends on nothing that differs. -/
theorem LocalDocumentsView.increment_steady
    (existing : κ → Option (StoredDocument (ObjectValue (LeafValue F ε)))) (time : Timestamp)
    (mutations : List (Mutation κ F ε)) (hmutations : IgnoreVersions mutations)
    (m : Mutation κ F ε) (hm : m ∈ mutations) (path : List String) (operand : NumberValue F)
    (h : m.Increments path operand) (earlier earlier' later : List (MutationBatch κ F ε))
    (hlater : ∀ b ∈ later, IgnoreVersions b.baseMutations ∧ IgnoreVersions b.mutations)
    (remote remote' : Option (StoredDocument (ObjectValue (LeafValue F ε))))
    (hremote : StoredDocument.isDocument (getDocument m.key earlier remote) =
      StoredDocument.isDocument (getDocument m.key earlier' remote')) :
    StoredDocument.field (getDocument m.key (earlier ++ LocalStore.newBatch existing time
      mutations (List.ne_nil_of_mem hm) :: later) remote) path =
    StoredDocument.field (getDocument m.key (earlier' ++ LocalStore.newBatch existing time
      mutations (List.ne_nil_of_mem hm) :: later) remote') path := by
  have hpath : path ≠ [] := by
    obtain ⟨⟨transform, -, rfl⟩, -⟩ := h
    exact transform.nonempty
  rw [StoredDocument.field_eq _ hpath, StoredDocument.field_eq _ hpath]
  have hbatch := agree_applyMutations m.key time hmutations
    (LocalStore.agree_baseMutations hm h existing time hremote)
  have hall := agree_getDocument m.key hlater hbatch
  unfold getDocument at *
  rw [List.foldl_append, List.foldl_append]
  exact hall.get_data

/-- The same is shown whether the server's document has the increment or not. -/
theorem LocalDocumentsView.increment_steady_counter :
    StoredDocument.field (getDocument 0 ([] ++ LocalStore.newBatch (fun _ => some (counter 3))
      0 [countUp] (List.cons_ne_nil _ _) :: []) (some (counter 3))) ["count"] =
    StoredDocument.field (getDocument 0 ([] ++ LocalStore.newBatch (fun _ => some (counter 3))
      0 [countUp] (List.cons_ne_nil _ _) :: []) (some (counter 4))) ["count"] :=
  LocalDocumentsView.increment_steady _ 0 [countUp] ignoreVersions_countUp countUp
    (List.mem_singleton_self _) ["count"] (.integer 1) increments_countUp [] [] []
    (List.forall_mem_nil _) (some (counter 3)) (some (counter 4)) rfl

/-! ### The number that is shown -/

omit [DecidableEq κ] in
/-- After its transforms a mutation has the sum in the field that it increments. -/
lemma Mutation.get_transformObject {m : Mutation κ F ε} {path : List String}
    {operand : NumberValue F} (h : m.Increments path operand)
    (object : ObjectValue (LeafValue F ε))
    (d : Option (StoredDocument (ObjectValue (LeafValue F ε)))) (time : Timestamp) :
    (transformObject m.fieldTransforms object
      (localTransformResults m.fieldTransforms d time)).get path =
    some (.leaf (.number (TransformOperation.add
      (TransformOperation.baseNumber (StoredDocument.field d path)) operand))) := by
  rw [transformObject_eq]
  obtain ⟨⟨transform, hmem, rfl⟩, htransforms⟩ := h
  have hincrement : ∀ t : FieldTransform F ε, t.path = transform.path →
      t.transformation = .increment operand → ∀ object : ObjectValue (LeafValue F ε),
      (object.set t.path (.leaf (t.transformation.applyToLocalView
        (StoredDocument.field d t.path) time))).get transform.path =
      some (.leaf (.number (TransformOperation.add (TransformOperation.baseNumber
        (StoredDocument.field d transform.path)) operand))) := by
    intro t hpath hop object
    rw [hop, ← hpath]
    exact get_set_self object t _
  have hop := ((htransforms transform hmem).resolve_right fun h => h.1 List.prefix_rfl).2
  refine foldl_observe (fun object => ObjectValue.get object transform.path) (fun t ht => ?_)
    ⟨transform, hmem, hincrement transform rfl hop⟩ object
  rcases htransforms t ht with ⟨hpath, hop⟩ | hapart
  · exact Or.inl (hincrement t hpath hop)
  · exact Or.inr fun object => Tree.get_set_of_apart object.value hapart _

/-- Mutations of other documents are skipped. -/
lemma applyMutations_filter (key : κ) (time : Timestamp) (mutations : List (Mutation κ F ε))
    (d : Option (StoredDocument (ObjectValue (LeafValue F ε)))) :
    applyMutations key time mutations d =
      applyMutations key time (mutations.filter fun m => m.key = key) d := by
  unfold applyMutations
  induction mutations generalizing d with
  | nil => rfl
  | cons m mutations ih =>
    by_cases hm : m.key = key
    · rw [List.filter_cons_of_pos (by simpa using hm), List.foldl_cons, List.foldl_cons, ih]
    · rw [List.filter_cons_of_neg (by simpa using hm), List.foldl_cons, if_neg hm, ih]

omit [Add F] [IntCast F] [DecidableEq ε] in
/-- A base mutation writes to the document of its mutation. -/
lemma LocalStore.filter_baseMutations (key : κ) (mutations : List (Mutation κ F ε))
    (existing : κ → Option (StoredDocument (ObjectValue (LeafValue F ε)))) :
    (mutations.filterMap (LocalStore.baseMutation existing)).filter (fun m => m.key = key) =
      (mutations.filter fun m => m.key = key).filterMap (LocalStore.baseMutation existing) := by
  induction mutations with
  | nil => rfl
  | cons m mutations ih =>
    cases hbase : LocalStore.baseMutation existing m with
    | none =>
      rw [List.filterMap_cons_none hbase, ih]
      by_cases hm : m.key = key
      · rw [List.filter_cons_of_pos (by simpa using hm), List.filterMap_cons_none hbase]
      · rw [List.filter_cons_of_neg (by simpa using hm)]
    | some base =>
      have hkey : base.key = m.key := by
        obtain ⟨baseValue, -, rfl⟩ := Option.map_eq_some_iff.mp hbase
        rfl
      rw [List.filterMap_cons_some hbase]
      by_cases hm : m.key = key
      · rw [List.filter_cons_of_pos (by simpa [hkey] using hm),
          List.filter_cons_of_pos (by simpa using hm), List.filterMap_cons_some hbase, ih]
      · rw [List.filter_cons_of_neg (by simpa [hkey] using hm),
          List.filter_cons_of_neg (by simpa using hm), ih]

/-- A batch with one write to a document applies its base mutation, and then the write. -/
lemma LocalStore.applyToLocalDocument_newBatch
    (existing : κ → Option (StoredDocument (ObjectValue (LeafValue F ε)))) (time : Timestamp)
    {mutations : List (Mutation κ F ε)} (hne : mutations ≠ []) {m base : Mutation κ F ε}
    (honly : mutations.filter (fun m' => m'.key = m.key) = [m])
    (hbase : LocalStore.baseMutation existing m = some base) (hkey : base.key = m.key)
    (d : Option (StoredDocument (ObjectValue (LeafValue F ε)))) :
    (LocalStore.newBatch existing time mutations hne).applyToLocalDocument m.key d =
      m.applyToLocalView time (base.applyToLocalView time d) := by
  have hmutations : ∀ d, applyMutations m.key time mutations d = m.applyToLocalView time d := by
    intro d
    rw [applyMutations_filter, honly, applyMutations, List.foldl_cons, List.foldl_nil, if_pos rfl]
  have hbases : applyMutations m.key time
      (mutations.filterMap (LocalStore.baseMutation existing)) d =
      base.applyToLocalView time d := by
    rw [applyMutations_filter, LocalStore.filter_baseMutations, honly,
      List.filterMap_cons_some hbase, applyMutations, List.filterMap_nil, List.foldl_cons,
      List.foldl_nil, if_pos hkey]
  exact (hmutations _).trans (congrArg (m.applyToLocalView time) hbases)

/-- **Increments count once.** A write that is the only one of its batch for a document increments
a field. As long as there is a document, the field shows the number that was shown when the write
was made, plus the operand, whether or not the document that the server sends has it already.

**Proof sketch.** The base mutation puts the number of then into the field, and the increment finds
it there. -/
lemma LocalDocumentsView.increment_counts_once
    (existing : κ → Option (StoredDocument (ObjectValue (LeafValue F ε)))) (time : Timestamp)
    (mutations : List (Mutation κ F ε)) (m : Mutation κ F ε) (hm : m ∈ mutations)
    (honly : mutations.filter (fun m' => m'.key = m.key) = [m])
    (hprecondition : m.precondition = .none ∨ m.precondition = .exists_ true)
    (path : List String) (operand : NumberValue F) (h : m.Increments path operand)
    (earlier : List (MutationBatch κ F ε))
    (remote : Option (StoredDocument (ObjectValue (LeafValue F ε))))
    (hremote : StoredDocument.isDocument (getDocument m.key earlier remote) = true) :
    StoredDocument.field (getDocument m.key (earlier ++ [LocalStore.newBatch existing time
      mutations (List.ne_nil_of_mem hm)]) remote) path =
    some (.leaf (.number (TransformOperation.add
      (TransformOperation.baseNumber (StoredDocument.field (existing m.key) path)) operand))) := by
  have hpath : path ≠ [] := by
    obtain ⟨⟨transform, -, rfl⟩, -⟩ := h
    exact transform.nonempty
  obtain ⟨base, hbase, hkey, hexists, hget⟩ := LocalStore.get_baseMutation h existing time
  rw [getDocument, List.foldl_append, List.foldl_cons, List.foldl_nil,
    LocalStore.applyToLocalDocument_newBatch existing time _ honly hbase hkey]
  obtain ⟨hdoc, hnumber⟩ := hget _ hremote
  unfold getDocument at hdoc hnumber
  -- the document is there, with the number of then
  generalize base.applyToLocalView time _ = d at hdoc hnumber ⊢
  have hbaseNumber : TransformOperation.baseNumber (StoredDocument.field d path) =
      TransformOperation.baseNumber (StoredDocument.field (existing m.key) path) := by
    rw [StoredDocument.field_eq d hpath, hnumber]
    rfl
  have hvalid : m.precondition.isValidFor d = true := by
    rcases hprecondition with hnone | hsome
    · rw [hnone]
      rfl
    · rw [hsome, Precondition.isValidFor, hdoc]
      rfl
  unfold Mutation.applyToLocalView
  rw [hvalid, if_neg Bool.true_eq_false.mp, ← hbaseNumber]
  cases m with
  | set key value precondition transforms => exact Mutation.get_transformObject h value d time
  | patch key value mask precondition transforms => exact Mutation.get_transformObject h _ d time
  | delete key precondition =>
    obtain ⟨⟨transform, hmem, -⟩, -⟩ := h
    cases hmem

end Batches

end AntViewer.Firestore
