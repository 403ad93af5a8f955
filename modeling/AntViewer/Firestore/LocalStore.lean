import AntViewer.Firestore.LocalWrites
import AntViewer.Library.Runs

set_option relaxedAutoImplicit false
set_option autoImplicit false

/-!
# The local store

The local store keeps the documents that the server sent, and a queue of the batches of writes that
wait for the server. What is shown of a document is the document of the server with the waiting
batches applied. The server acknowledges or rejects the batches in the order of the queue; an
acknowledged batch is applied to the documents of the server, unless they are newer.

## Main definitions

* `Mutation.applyToRemoteDocument` — what an acknowledged write does to a document of the server.
* `LocalStore` — the store, with `getDocument`, `writeLocally`, `acknowledgeBatch`, `rejectBatch`.
* `LocalStore.Step` — one step of the store, whatever the server sends.

## Main results

* `LocalStore.counts_along` — in every run an increment counts once until it is acknowledged.
-/

namespace AntViewer.Firestore

open Runs

/-! ## Acknowledged writes -/

/-- An assertion that does not fail holds. -/
lemma of_hardAssert {condition : Bool} {message : String} {u : PUnit}
    (h : hardAssert condition message = .ok u) : condition = true := by
  cases condition with
  | true => rfl
  | false => cases h

/-- `MutationResult`. -/
structure MutationResult (F ε : Type) where
  version : Timestamp
  transformResults : Option (List (DocumentValue (LeafValue F ε)))

section Remote

variable {κ F ε : Type} [DecidableEq ε]

/-- `ApplyToRemoteDocument(previous_value, transform_result)`. -/
def TransformOperation.applyToRemoteDocument (op : TransformOperation F ε)
    (previousValue : Option (DocumentValue (LeafValue F ε)))
    (transformResult : DocumentValue (LeafValue F ε)) : DocumentValue (LeafValue F ε) :=
  match op with
  | serverTimestamp => transformResult
  | arrayUnion elements =>
    .leaf (.array (applyUnion elements (coercedFieldValuesArray previousValue)))
  | arrayRemove elements =>
    .leaf (.array (applyRemove elements (coercedFieldValuesArray previousValue)))
  | increment _ => transformResult

/-- `ServerTransformResults(maybe_doc, server_transform_results)`. -/
def Mutation.serverTransformResults (fieldTransforms : List (FieldTransform F ε))
    (doc : Option (StoredDocument (ObjectValue (LeafValue F ε))))
    (serverResults : List (DocumentValue (LeafValue F ε))) :
    Except String (List (DocumentValue (LeafValue F ε))) := do
  hardAssert (fieldTransforms.length = serverResults.length)
    "server transform result size (%s) should match field transforms size (%s)"
  pure ((fieldTransforms.zip serverResults).map fun result =>
    result.1.transformation.applyToRemoteDocument (StoredDocument.field doc result.1.path)
      result.2)

/-- The results of the transforms of a patch: none if the server sends none. -/
def Mutation.patchTransformResults (fieldTransforms : List (FieldTransform F ε))
    (doc : Option (StoredDocument (ObjectValue (LeafValue F ε)))) (result : MutationResult F ε) :
    Except String (List (DocumentValue (LeafValue F ε))) :=
  match result.transformResults with
  | none => .ok []
  | some serverResults => serverTransformResults fieldTransforms doc serverResults

/-- `ApplyToRemoteDocument(maybe_doc, mutation_result)`. -/
def Mutation.applyToRemoteDocument (m : Mutation κ F ε)
    (doc : Option (StoredDocument (ObjectValue (LeafValue F ε)))) (result : MutationResult F ε) :
    Except String (StoredDocument (ObjectValue (LeafValue F ε))) :=
  match m with
  | set _ value _ transforms =>
    match result.transformResults with
    | none => .ok (.document value result.version .committedMutations)
    | some serverResults => do
      let transformResults ← serverTransformResults transforms doc serverResults
      pure (.document (transformObject transforms value transformResults) result.version
        .committedMutations)
  | patch _ value mask precondition transforms =>
    if precondition.isValidFor doc = false then .ok (.unknownDocument result.version)
    else do
      let transformResults ← patchTransformResults transforms doc result
      hardAssert (transformResults.length = transforms.length) "Transform results size mismatch."
      pure (.document (transformObject transforms
        (value.patchObject mask (StoredDocument.data doc)) transformResults) result.version
        .committedMutations)
  | delete _ _ => do
    hardAssert result.transformResults.isNone "Transform results received by DeleteMutation."
    pure (.noDocument result.version true)

/-- `version()` of a `MaybeDocument`. -/
def StoredDocument.version {δ : Type*} : StoredDocument δ → Timestamp
  | document _ version _ => version
  | noDocument version _ => version
  | unknownDocument version => version

variable [DecidableEq κ]

omit [DecidableEq ε] in
/-- `MutationBatch::keys()`, in the order of the writes. -/
def MutationBatch.keys (batch : MutationBatch κ F ε) : List κ :=
  (batch.mutations.map Mutation.key).dedup

/-- The body of the loop of `MutationBatch::ApplyToRemoteDocument`. -/
def MutationBatch.applyResult (documentKey : κ)
    (doc : Option (StoredDocument (ObjectValue (LeafValue F ε))))
    (acknowledged : Mutation κ F ε × MutationResult F ε) :
    Except String (Option (StoredDocument (ObjectValue (LeafValue F ε)))) :=
  if acknowledged.1.key = documentKey then
    (acknowledged.1.applyToRemoteDocument doc acknowledged.2).map some
  else .ok doc

/-- `MutationBatch::ApplyToRemoteDocument(maybe_doc, document_key, mutation_batch_result)`. -/
def MutationBatch.applyToRemoteDocument (batch : MutationBatch κ F ε) (documentKey : κ)
    (mutationResults : List (MutationResult F ε))
    (doc : Option (StoredDocument (ObjectValue (LeafValue F ε)))) :
    Except String (Option (StoredDocument (ObjectValue (LeafValue F ε)))) := do
  hardAssert (mutationResults.length = batch.mutations.length)
    "Mismatch between mutations length (%s) and results length (%s)"
  (batch.mutations.zip mutationResults).foldlM (applyResult documentKey) doc

omit [DecidableEq ε] in
/-- `doc_versions()` of a `MutationBatchResult`: the last result for a document counts. -/
def MutationBatch.docVersions (batch : MutationBatch κ F ε)
    (mutationResults : List (MutationResult F ε)) (key : κ) : Option Timestamp :=
  (((batch.mutations.zip mutationResults).filter fun result => result.1.key = key).getLast?).map
    fun result => result.2.version

end Remote

/-! ## The store -/

/-- `LocalStore`: the remote document cache and the mutation queue. -/
structure LocalStore (κ F ε : Type) where
  remoteDocuments : κ → Option (StoredDocument (ObjectValue (LeafValue F ε)))
  queue : List (MutationBatch κ F ε)

namespace LocalStore

variable {κ F ε : Type} [DecidableEq κ] [Add F] [IntCast F] [DecidableEq ε]

omit [Add F] [IntCast F] [DecidableEq ε] in
/-- `AllMutationBatchesAffectingDocumentKey(key)`. -/
def batchesAffecting (s : LocalStore κ F ε) (key : κ) : List (MutationBatch κ F ε) :=
  s.queue.filter fun batch => key ∈ batch.keys

/-- `LocalDocumentsView::GetDocument(key)`. -/
def getDocument (s : LocalStore κ F ε) (key : κ) :
    Option (StoredDocument (ObjectValue (LeafValue F ε))) :=
  LocalDocumentsView.getDocument key (s.batchesAffecting key) (s.remoteDocuments key)

/-- `LocalDocumentsView::GetDocuments(keys)`: missing documents read as deleted ones. -/
def getDocuments (s : LocalStore κ F ε) (key : κ) :
    Option (StoredDocument (ObjectValue (LeafValue F ε))) :=
  some ((s.getDocument key).getD (.noDocument 0 false))

/-- `WriteLocally(mutations)`. -/
def writeLocally (s : LocalStore κ F ε) (localWriteTime : Timestamp)
    (mutations : List (Mutation κ F ε)) (h : mutations ≠ []) : LocalStore κ F ε :=
  { s with queue := s.queue ++ [newBatch s.getDocuments localWriteTime mutations h] }

omit [Add F] [IntCast F] in
/-- The body of the loop of `ApplyBatchResult`. -/
def applyResultTo (batch : MutationBatch κ F ε) (mutationResults : List (MutationResult F ε))
    (remoteDocuments : κ → Option (StoredDocument (ObjectValue (LeafValue F ε)))) (key : κ) :
    Except String (κ → Option (StoredDocument (ObjectValue (LeafValue F ε)))) :=
  match batch.docVersions mutationResults key with
  | none => hardFail "doc_versions should contain every doc in the write."
  | some ackVersion =>
    if (remoteDocuments key).all fun doc => doc.version < ackVersion then do
      let doc ← batch.applyToRemoteDocument key mutationResults (remoteDocuments key)
      hardAssert (doc.isSome || (remoteDocuments key).isNone)
        "Mutation batch %s applied to document %s resulted in nullopt."
      pure (Function.update remoteDocuments key doc)
    else .ok remoteDocuments

omit [Add F] [IntCast F] in
/-- `AcknowledgeBatch(batch_result)`; only the first batch of the queue can be acknowledged. -/
def acknowledgeBatch (s : LocalStore κ F ε) (mutationResults : List (MutationResult F ε)) :
    Except String (LocalStore κ F ε) :=
  match s.queue with
  | [] => hardFail "Trying to remove batch from empty queue"
  | batch :: queue => do
    hardAssert (batch.mutations.length = mutationResults.length)
      "Number of mutations sent %s must equal results received %s"
    let remoteDocuments ←
      batch.keys.foldlM (applyResultTo batch mutationResults) s.remoteDocuments
    pure { remoteDocuments, queue }

omit [DecidableEq κ] [Add F] [IntCast F] [DecidableEq ε] in
/-- `RejectBatch(batch_id)`; only the first batch of the queue can be removed. -/
def rejectBatch (s : LocalStore κ F ε) : Except String (LocalStore κ F ε) :=
  match s.queue with
  | [] => hardFail "Attempt to reject nonexistent batch!"
  | _ :: queue => .ok { s with queue }

/-! ## Runs -/

/-- What happens to the store. -/
inductive Event (κ F ε : Type)
  | write (localWriteTime : Timestamp) (mutations : List (Mutation κ F ε)) (h : mutations ≠ [])
  | acknowledge (mutationResults : List (MutationResult F ε))
  | reject
  /-- The server sends documents, or documents are dropped. -/
  | remote (remoteDocuments : κ → Option (StoredDocument (ObjectValue (LeafValue F ε))))

/-- One step of the store. -/
def Step (s : LocalStore κ F ε) (e : Event κ F ε) (s' : LocalStore κ F ε) : Prop :=
  match e with
  | .write localWriteTime mutations h => s' = s.writeLocally localWriteTime mutations h
  | .acknowledge mutationResults => s.acknowledgeBatch mutationResults = .ok s'
  | .reject => s.rejectBatch = .ok s'
  | .remote remoteDocuments => s' = { s with remoteDocuments }

omit [DecidableEq κ] [Add F] [IntCast F] [DecidableEq ε] in
/-- The program does not write to the document. -/
def Event.Spares (key : κ) : Event κ F ε → Prop
  | write _ mutations _ => ∀ m ∈ mutations, m.key ≠ key
  | acknowledge _ => True
  | reject => True
  | remote _ => True

omit [Add F] [IntCast F] in
/-- Acknowledging a batch takes it from the queue. -/
lemma queue_of_acknowledgeBatch {s s' : LocalStore κ F ε}
    {mutationResults : List (MutationResult F ε)}
    (h : s.acknowledgeBatch mutationResults = .ok s') : s'.queue = s.queue.tail := by
  unfold acknowledgeBatch at h
  cases hqueue : s.queue with
  | nil => rw [hqueue] at h; cases h
  | cons batch queue =>
    rw [hqueue] at h
    obtain ⟨-, -, h⟩ := ok_of_bind h
    obtain ⟨remoteDocuments, -, h⟩ := ok_of_bind h
    cases h
    rfl

omit [DecidableEq κ] [Add F] [IntCast F] [DecidableEq ε] in
/-- Rejecting a batch takes it from the queue. -/
lemma queue_of_rejectBatch {s s' : LocalStore κ F ε} (h : s.rejectBatch = .ok s') :
    s'.queue = s.queue.tail := by
  unfold rejectBatch at h
  cases hqueue : s.queue with
  | nil => rw [hqueue] at h; cases h
  | cons batch queue =>
    rw [hqueue] at h
    cases h
    rfl

/-- Nothing waits for the document, or one batch is the last that does. -/
def LastFor (key : κ) (batch : MutationBatch κ F ε) (s : LocalStore κ F ε) : Prop :=
  s.batchesAffecting key = [] ∨ ∃ earlier, s.batchesAffecting key = earlier ++ [batch]

omit [Add F] [IntCast F] [DecidableEq ε] in
/-- Taking the first batch from the queue leaves the last one for a document the last one. -/
lemma LastFor.tail {key : κ} {batch : MutationBatch κ F ε} {s s' : LocalStore κ F ε}
    (h : s.LastFor key batch) (hqueue : s'.queue = s.queue.tail) : s'.LastFor key batch := by
  unfold LastFor batchesAffecting at *
  rw [hqueue]
  cases hs : s.queue with
  | nil => exact Or.inl rfl
  | cons first queue =>
    rw [hs] at h
    rw [List.tail_cons]
    by_cases hfirst : key ∈ first.keys
    · rw [List.filter_cons_of_pos (by simpa using hfirst)] at h
      obtain h | ⟨earlier, h⟩ := h
      · cases h
      · cases earlier with
        | nil => exact Or.inl (List.cons.inj h).2
        | cons _ earlier => exact Or.inr ⟨earlier, (List.cons.inj h).2⟩
    · rwa [List.filter_cons_of_neg (by simpa using hfirst)] at h

omit [Add F] [IntCast F] [DecidableEq ε] in
/-- The keys of a batch are those of its writes. -/
lemma mem_keys {batch : MutationBatch κ F ε} {key : κ} :
    key ∈ batch.keys ↔ ∃ m ∈ batch.mutations, m.key = key := by
  rw [MutationBatch.keys, List.mem_dedup, List.mem_map]

/-- **A step** that writes nothing to a document leaves the last batch for it the last one. -/
lemma lastFor_step {key : κ} {batch : MutationBatch κ F ε} {s s' : LocalStore κ F ε}
    {e : Event κ F ε} (h : s.LastFor key batch) (hstep : Step s e s') (hspares : e.Spares key) :
    s'.LastFor key batch := by
  cases e with
  | write time mutations hne =>
    obtain rfl : s' = s.writeLocally time mutations hne := hstep
    have hkeys : key ∉ (newBatch s.getDocuments time mutations hne).keys := by
      rw [mem_keys]
      rintro ⟨m, hm, hkey⟩
      exact hspares m hm hkey
    unfold LastFor batchesAffecting writeLocally at *
    rwa [List.filter_append, List.filter_cons_of_neg (by simpa using hkeys), List.filter_nil,
      List.append_nil]
  | acknowledge results => exact h.tail (queue_of_acknowledgeBatch hstep)
  | reject => exact h.tail (queue_of_rejectBatch hstep)
  | remote documents =>
    obtain rfl : s' = { s with remoteDocuments := documents } := hstep
    exact h

/-- After a write to a document its batch is the last one for the document. -/
lemma lastFor_writeLocally (s : LocalStore κ F ε) (time : Timestamp)
    {mutations : List (Mutation κ F ε)} {m : Mutation κ F ε} (hm : m ∈ mutations) :
    (s.writeLocally time mutations (List.ne_nil_of_mem hm)).LastFor m.key
      (newBatch s.getDocuments time mutations (List.ne_nil_of_mem hm)) := by
  refine Or.inr ⟨s.batchesAffecting m.key, ?_⟩
  have hkeys : m.key ∈ (newBatch s.getDocuments time mutations (List.ne_nil_of_mem hm)).keys :=
    mem_keys.mpr ⟨m, hm, rfl⟩
  unfold batchesAffecting writeLocally
  rw [List.filter_append, List.filter_cons_of_pos (by simpa using hkeys), List.filter_nil]

omit [Add F] [IntCast F] [DecidableEq ε] [DecidableEq κ] in
/-- An update of a document that does not exist does nothing. -/
lemma isValidFor_exists {d : Option (StoredDocument (ObjectValue (LeafValue F ε)))}
    (hd : StoredDocument.isDocument d = false) :
    (Precondition.exists_ true).isValidFor d = false := by
  rw [Precondition.isValidFor, hd]
  rfl

/-- If a document is shown after a batch whose only write to it is an update, there was a document
before. -/
lemma isDocument_of_newBatch
    {existing : κ → Option (StoredDocument (ObjectValue (LeafValue F ε)))} {time : Timestamp}
    {mutations : List (Mutation κ F ε)} {hne : mutations ≠ []} {m : Mutation κ F ε}
    (honly : mutations.filter (fun m' => m'.key = m.key) = [m])
    (hprecondition : m.precondition = .exists_ true) {path : List String}
    {operand : NumberValue F} (h : m.Increments path operand)
    {d : Option (StoredDocument (ObjectValue (LeafValue F ε)))}
    (hd : StoredDocument.isDocument
      ((newBatch existing time mutations hne).applyToLocalDocument m.key d) = true) :
    StoredDocument.isDocument d = true := by
  obtain ⟨base, hbase, hkey, hexists, -⟩ := get_baseMutation h existing time
  rw [applyToLocalDocument_newBatch existing time hne honly hbase hkey] at hd
  by_contra hmissing
  have hvalid := isValidFor_exists (Bool.eq_false_of_not_eq_true hmissing)
  have hbaseSkipped : base.applyToLocalView time d = d := by
    unfold Mutation.applyToLocalView
    rw [hexists, if_pos hvalid]
  have hskipped : m.applyToLocalView time d = d := by
    unfold Mutation.applyToLocalView
    rw [hprecondition, if_pos hvalid]
  rw [hbaseSkipped, hskipped] at hd
  exact hmissing hd

/-- What a read of many documents gives for a field. -/
lemma field_getDocuments (s : LocalStore κ F ε) (key : κ) (path : List String) :
    StoredDocument.field (s.getDocuments key) path =
      StoredDocument.field (s.getDocument key) path := by
  unfold getDocuments
  cases s.getDocument key <;> rfl

/-- **Increments count once, in every run.** The program updates a document so that a field of it
is incremented, and writes nothing to the document afterwards. Whatever the server sends,
acknowledges and rejects and whatever is written elsewhere: until no write to the document is
waiting any more, the field shows the number that was shown before the update, plus the operand,
whenever the document is shown.

**Proof sketch.** The batch of the update stays the last one in the queue for the document, until it
leaves the queue. The batches before it and the documents of the server do not matter: the base
mutation replaces what they make of the field. -/
theorem counts_along (s : LocalStore κ F ε) (time : Timestamp)
    (mutations : List (Mutation κ F ε)) (m : Mutation κ F ε) (hm : m ∈ mutations)
    (honly : mutations.filter (fun m' => m'.key = m.key) = [m])
    (hprecondition : m.precondition = .exists_ true) (path : List String)
    (operand : NumberValue F) (h : m.Increments path operand)
    (tr : List (Event κ F ε × LocalStore κ F ε))
    (hrun : Along Step (s.writeLocally time mutations (List.ne_nil_of_mem hm)) tr)
    (hspares : Along (fun _ e _ => e.Spares m.key)
      (s.writeLocally time mutations (List.ne_nil_of_mem hm)) tr) :
    (final (s.writeLocally time mutations (List.ne_nil_of_mem hm)) tr).batchesAffecting m.key = [] ∨
    (StoredDocument.isDocument
        ((final (s.writeLocally time mutations (List.ne_nil_of_mem hm)) tr).getDocument m.key) =
        true →
      StoredDocument.field
        ((final (s.writeLocally time mutations (List.ne_nil_of_mem hm)) tr).getDocument m.key)
        path =
        some (.leaf (.number (TransformOperation.add (TransformOperation.baseNumber
          (StoredDocument.field (s.getDocument m.key) path)) operand)))) := by
  have hlast := hrun.final_invariant_of hspares (lastFor_writeLocally s time hm)
    fun _ _ _ hlast hstep hspare => lastFor_step hlast hstep hspare
  generalize final (s.writeLocally time mutations (List.ne_nil_of_mem hm)) tr = s' at hlast ⊢
  refine hlast.imp id ?_
  rintro ⟨earlier, hearlier⟩ hshown
  rw [← field_getDocuments s]
  unfold getDocument at hshown ⊢
  rw [hearlier] at hshown ⊢
  refine LocalDocumentsView.increment_counts_once s.getDocuments time mutations m hm honly
    (Or.inr hprecondition) path operand h earlier (s'.remoteDocuments m.key) ?_
  unfold LocalDocumentsView.getDocument at hshown ⊢
  rw [List.foldl_append, List.foldl_cons, List.foldl_nil] at hshown
  exact isDocument_of_newBatch honly hprecondition h hshown

/-- The server sends the document with the increment before it acknowledges the increment. -/
theorem counts_along_counter :
    (LocalStore.batchesAffecting ⟨fun _ => some (counter 4), [newBatch
      (fun _ => some (counter 3)) 0 [countUp] (List.cons_ne_nil _ _)]⟩ 0 = []) ∨
    (StoredDocument.isDocument (LocalStore.getDocument ⟨fun _ => some (counter 4), [newBatch
      (fun _ => some (counter 3)) 0 [countUp] (List.cons_ne_nil _ _)]⟩ 0) = true →
    StoredDocument.field (LocalStore.getDocument ⟨fun _ => some (counter 4), [newBatch
      (fun _ => some (counter 3)) 0 [countUp] (List.cons_ne_nil _ _)]⟩ 0) ["count"] =
      some (.leaf (.number (.integer 4)))) :=
  counts_along ⟨fun _ => some (counter 3), []⟩ 0 [countUp] countUp (List.mem_singleton_self _)
    rfl rfl ["count"] (.integer 1) increments_countUp
    [(.remote fun _ => some (counter 4), ⟨fun _ => some (counter 4), [newBatch
      (fun _ => some (counter 3)) 0 [countUp] (List.cons_ne_nil _ _)]⟩)]
    ⟨rfl, trivial⟩ ⟨trivial, trivial⟩

end LocalStore

end AntViewer.Firestore
