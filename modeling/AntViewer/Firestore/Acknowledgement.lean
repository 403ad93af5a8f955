import AntViewer.Firestore.LocalStore

set_option relaxedAutoImplicit false
set_option autoImplicit false

/-!
# Acknowledged writes

When the server acknowledges a batch, the batch leaves the queue and is applied to the documents
that the server sent before. Unless the batch asks the server for values that the client does not
know, this changes nothing of what is shown.

## Main definitions

* `TransformOperation.isArrayTransform` — transforms whose results the client computes itself.
* `MutationBatch.Predictable` — batches whose results the client knows in advance.

## Main results

* `Mutation.agree_applyToRemoteDocument` — an acknowledged write does what it did when it waited.
* `LocalStore.acknowledged_as_shown` — acknowledging a batch changes nothing of what is shown.
-/

namespace AntViewer.Firestore

variable {κ F ε : Type} [DecidableEq ε]

/-! ## One write -/

omit [DecidableEq ε] in
/-- `IsArrayTransform(type)`. -/
def TransformOperation.isArrayTransform : TransformOperation F ε → Bool
  | arrayUnion _ => true
  | arrayRemove _ => true
  | serverTimestamp => false
  | increment _ => false

/-- The server sends no results for array transforms, so they are computed again. -/
lemma TransformOperation.applyToRemoteDocument_eq [Add F] [IntCast F]
    {op : TransformOperation F ε} (h : op.isArrayTransform = true)
    (previousValue : Option (DocumentValue (LeafValue F ε)))
    (transformResult : DocumentValue (LeafValue F ε)) (time : Timestamp) :
    op.applyToRemoteDocument previousValue transformResult =
      .leaf (op.applyToLocalView previousValue time) := by
  cases op with
  | arrayUnion elements => rfl
  | arrayRemove elements => rfl
  | serverTimestamp => cases h
  | increment operand => cases h

namespace Mutation

omit [DecidableEq ε] in
/-- Documents that agree as a whole have the same data. -/
lemma Agree.data_eq {d d' : Option (StoredDocument (ObjectValue (LeafValue F ε)))}
    (h : Agree [] d d') : StoredDocument.data d = StoredDocument.data d' :=
  ObjectValue.ext (Option.some.inj h.get_data)

omit [DecidableEq ε] in
/-- Documents with the same data agree as a whole. -/
lemma Agree.of_documents {object object' : ObjectValue (LeafValue F ε)} (h : object = object')
    {version version' : Timestamp} {state state' : DocumentState} :
    Agree [] (some (.document object version state))
      (some (.document object' version' state')) := by
  subst h
  exact ⟨rfl, rfl⟩

variable [Add F] [IntCast F]

/-- The results that the server sends for array transforms are those of the client. -/
lemma serverTransformResults_eq {transforms : List (FieldTransform F ε)}
    (harray : ∀ t ∈ transforms, t.transformation.isArrayTransform = true)
    {d d' : Option (StoredDocument (ObjectValue (LeafValue F ε)))} (h : Agree [] d d')
    {serverResults results : List (DocumentValue (LeafValue F ε))}
    (hresults : serverTransformResults transforms d serverResults = .ok results)
    (time : Timestamp) : results = localTransformResults transforms d' time := by
  obtain ⟨_, hlength, hok⟩ := ok_of_bind hresults
  have hlength' := of_hardAssert hlength
  cases hok
  unfold localTransformResults
  clear hresults hlength
  induction transforms generalizing serverResults with
  | nil => rfl
  | cons t transforms ih =>
    obtain ⟨result, serverResults, rfl⟩ := List.exists_cons_of_length_eq_add_one
      (of_decide_eq_true hlength').symm
    rw [List.zip_cons_cons, List.map_cons, List.map_cons,
      ih (fun t ht => harray t (List.mem_cons_of_mem _ ht)) (by simpa using hlength'),
      TransformOperation.applyToRemoteDocument_eq (harray t List.mem_cons_self) _ _ time,
      StoredDocument.field_eq d t.nonempty, StoredDocument.field_eq d' t.nonempty, h.data_eq]

/-- **An acknowledged write** does to the document of the server what it did to the document that
was shown, if the two agree and the write was possible. -/
theorem agree_applyToRemoteDocument {m : Mutation κ F ε}
    (hversions : m.precondition.readsVersion = false)
    (harray : ∀ t ∈ m.fieldTransforms, t.transformation.isArrayTransform = true)
    {result : MutationResult F ε}
    (hresult : m.fieldTransforms = [] ∨ result.transformResults.isSome = true) (time : Timestamp)
    {d d' : Option (StoredDocument (ObjectValue (LeafValue F ε)))} (h : Agree [] d d')
    (hvalid : m.precondition.isValidFor d' = true)
    {e : StoredDocument (ObjectValue (LeafValue F ε))}
    (happlied : m.applyToRemoteDocument d result = .ok e) :
    Agree [] (some e) (m.applyToLocalView time d') := by
  have hvalid' := (Precondition.isValidFor_congr hversions h.isDocument).trans hvalid
  unfold applyToLocalView
  rw [hvalid, if_neg Bool.true_eq_false.mp]
  cases m with
  | set key value precondition transforms =>
    unfold applyToRemoteDocument at happlied
    cases htransforms : result.transformResults with
    | none =>
      obtain rfl : transforms = [] := hresult.resolve_right (by simp [htransforms])
      simp only [htransforms] at happlied
      cases happlied
      exact Agree.of_documents rfl
    | some serverResults =>
      simp only [htransforms] at happlied
      obtain ⟨results, hresults, happlied⟩ := ok_of_bind happlied
      cases happlied
      exact Agree.of_documents (congrArg (transformObject transforms value)
        (serverTransformResults_eq harray h hresults time))
  | patch key value mask precondition transforms =>
    unfold applyToRemoteDocument at happlied
    have hvalidPatch : precondition.isValidFor d = true := hvalid'
    dsimp only at happlied
    rw [hvalidPatch, if_neg Bool.true_eq_false.mp] at happlied
    obtain ⟨results, hresults, happlied⟩ := ok_of_bind happlied
    obtain ⟨-, -, happlied⟩ := ok_of_bind happlied
    cases happlied
    refine Agree.of_documents ?_
    rw [h.data_eq]
    unfold patchTransformResults at hresults
    cases htransforms : result.transformResults with
    | none =>
      obtain rfl : transforms = [] := hresult.resolve_right (by simp [htransforms])
      rfl
    | some serverResults =>
      simp only [htransforms] at hresults
      exact congrArg (transformObject transforms _)
        (serverTransformResults_eq harray h hresults time)
  | delete key precondition =>
    obtain ⟨-, -, happlied⟩ := ok_of_bind happlied
    cases happlied
    exact ⟨rfl, rfl⟩

end Mutation

/-! ## One batch -/

namespace MutationBatch

omit [DecidableEq ε] in
/-- A batch whose results the client knows in advance: no increments, no times of the server, and
no conditions on versions. -/
structure Predictable (batch : MutationBatch κ F ε) : Prop where
  baseMutations : batch.baseMutations = []
  ignoreVersions : IgnoreVersions batch.mutations
  arrayTransforms : ∀ m ∈ batch.mutations, ∀ t ∈ m.fieldTransforms,
    t.transformation.isArrayTransform = true

/-- The server sends results for the writes that have transforms. -/
def Answered (batch : MutationBatch κ F ε) (mutationResults : List (MutationResult F ε)) : Prop :=
  ∀ p ∈ batch.mutations.zip mutationResults,
    p.1.fieldTransforms = [] ∨ p.2.transformResults.isSome = true

variable [DecidableEq κ] [Add F] [IntCast F]

/-- The preconditions of the writes to a document hold when their turn comes. -/
def Possible (batch : MutationBatch κ F ε) (key : κ)
    (doc : Option (StoredDocument (ObjectValue (LeafValue F ε)))) : Prop :=
  ∀ before m after, batch.mutations = before ++ m :: after → m.key = key →
    m.precondition.isValidFor (applyMutations key batch.localWriteTime before doc) = true

omit [DecidableEq κ] [DecidableEq ε] [Add F] [IntCast F] in
/-- The client records no base mutations for array transforms. -/
lemma predictable_newBatch
    (existing : κ → Option (StoredDocument (ObjectValue (LeafValue F ε)))) (time : Timestamp)
    {mutations : List (Mutation κ F ε)} (hne : mutations ≠ [])
    (hversions : IgnoreVersions mutations) (harray : ∀ m ∈ mutations, ∀ t ∈ m.fieldTransforms,
      t.transformation.isArrayTransform = true) :
    (LocalStore.newBatch existing time mutations hne).Predictable := by
  refine ⟨List.filterMap_eq_nil_iff.mpr fun m hm => ?_, hversions, harray⟩
  have hbase : ∀ transforms : List (FieldTransform F ε),
      (∀ t ∈ transforms, t.transformation.isArrayTransform = true) →
      transforms.foldl (Mutation.extractBase (existing m.key)) none = none := by
    intro transforms
    induction transforms with
    | nil => exact fun _ => rfl
    | cons t transforms ih =>
      intro h
      have hstep : Mutation.extractBase (existing m.key) none t = none := by
        have ht := h t List.mem_cons_self
        unfold Mutation.extractBase
        cases hop : t.transformation with
        | arrayUnion elements => rfl
        | arrayRemove elements => rfl
        | serverTimestamp => rfl
        | increment operand => rw [hop] at ht; cases ht
      rw [List.foldl_cons, hstep]
      exact ih fun t ht => h t (List.mem_cons_of_mem _ ht)
  rw [LocalStore.baseMutation, Mutation.extractTransformBaseValue,
    hbase m.fieldTransforms (harray m hm)]
  rfl

/-- The results of some writes, applied to the document of the server, do what the writes did to
the document that was shown. -/
lemma agree_applyResults (key : κ) (time : Timestamp) {mutations : List (Mutation κ F ε)}
    (hversions : IgnoreVersions mutations)
    (harray : ∀ m ∈ mutations, ∀ t ∈ m.fieldTransforms,
      t.transformation.isArrayTransform = true)
    {results : List (MutationResult F ε)} (hlength : results.length = mutations.length)
    (hanswered : ∀ p ∈ mutations.zip results,
      p.1.fieldTransforms = [] ∨ p.2.transformResults.isSome = true)
    {d d' e : Option (StoredDocument (ObjectValue (LeafValue F ε)))}
    (hpossible : ∀ before m after, mutations = before ++ m :: after → m.key = key →
      m.precondition.isValidFor (applyMutations key time before d') = true)
    (h : Mutation.Agree [] d d')
    (happlied : (mutations.zip results).foldlM (applyResult key) d = .ok e) :
    Mutation.Agree [] e (applyMutations key time mutations d') := by
  induction mutations generalizing results d d' with
  | nil =>
    cases happlied
    exact h
  | cons m mutations ih =>
    obtain ⟨result, results, rfl⟩ := List.exists_cons_of_length_eq_add_one hlength
    rw [List.zip_cons_cons, List.foldlM_cons] at happlied
    obtain ⟨next, hnext, happlied⟩ := ok_of_bind happlied
    refine ih (fun m' hm' => hversions m' (List.mem_cons_of_mem m hm'))
      (fun m' hm' => harray m' (List.mem_cons_of_mem m hm')) (Nat.succ.inj hlength)
      (fun p hp => hanswered p (List.mem_cons_of_mem _ hp))
      (fun before m' after hsplit => hpossible (m :: before) m' after (by rw [hsplit]; rfl))
      ?_ happlied
    dsimp only
    unfold applyResult at hnext
    by_cases hkey : m.key = key
    · rw [if_pos hkey] at hnext
      cases hresult : m.applyToRemoteDocument d result with
      | error message => rw [hresult] at hnext; cases hnext
      | ok document =>
        rw [hresult] at hnext
        cases hnext
        rw [if_pos hkey]
        exact Mutation.agree_applyToRemoteDocument (hversions m List.mem_cons_self)
          (harray m List.mem_cons_self) (hanswered (m, result) List.mem_cons_self) time h
          (hpossible [] m mutations rfl hkey) hresult
    · rw [if_neg hkey] at hnext
      cases hnext
      rwa [if_neg hkey]

end MutationBatch

/-! ## The store -/

namespace LocalStore

variable [DecidableEq κ]

/-- Applying a batch to the document under one key changes no other document. -/
lemma applyResultTo_of_ne {batch : MutationBatch κ F ε} {results : List (MutationResult F ε)}
    {documents documents' : κ → Option (StoredDocument (ObjectValue (LeafValue F ε)))} {key k : κ}
    (h : applyResultTo batch results documents k = .ok documents') (hkey : key ≠ k) :
    documents' key = documents key := by
  unfold applyResultTo at h
  cases hversion : batch.docVersions results k with
  | none => rw [hversion] at h; cases h
  | some ackVersion =>
    simp only [hversion] at h
    split_ifs at h with hold
    · obtain ⟨doc, -, h⟩ := ok_of_bind h
      obtain ⟨-, -, h⟩ := ok_of_bind h
      cases h
      exact Function.update_of_ne hkey _ _
    · cases h
      rfl

/-- The document of the server is not as new as the results of a batch. -/
def Older (batch : MutationBatch κ F ε) (results : List (MutationResult F ε)) (key : κ)
    (doc : Option (StoredDocument (ObjectValue (LeafValue F ε)))) : Prop :=
  ∀ ackVersion, batch.docVersions results key = some ackVersion →
    doc.all (fun d => d.version < ackVersion) = true

/-- A batch is applied to a document that is older. -/
lemma applyResultTo_self {batch : MutationBatch κ F ε} {results : List (MutationResult F ε)}
    {documents documents' : κ → Option (StoredDocument (ObjectValue (LeafValue F ε)))} {key : κ}
    (h : applyResultTo batch results documents key = .ok documents')
    (hold : Older batch results key (documents key)) :
    batch.applyToRemoteDocument key results (documents key) = .ok (documents' key) := by
  unfold applyResultTo at h
  cases hversion : batch.docVersions results key with
  | none => rw [hversion] at h; cases h
  | some ackVersion =>
    simp only [hversion] at h
    rw [if_pos (hold ackVersion hversion)] at h
    obtain ⟨doc, hdoc, h⟩ := ok_of_bind h
    obtain ⟨-, -, h⟩ := ok_of_bind h
    cases h
    rw [Function.update_self, hdoc]

/-- What the loop over the documents of a batch does to each document.

**Proof sketch.** Induction on the keys. Each key comes once, so a document is as it was when its
turn comes, and stays as it is afterwards. -/
lemma foldlM_applyResultTo {batch : MutationBatch κ F ε} {results : List (MutationResult F ε)}
    {keys : List κ} (hnodup : keys.Nodup)
    {documents documents' : κ → Option (StoredDocument (ObjectValue (LeafValue F ε)))}
    (h : keys.foldlM (applyResultTo batch results) documents = .ok documents') (key : κ) :
    (key ∉ keys → documents' key = documents key) ∧
    (key ∈ keys → Older batch results key (documents key) →
      batch.applyToRemoteDocument key results (documents key) = .ok (documents' key)) := by
  induction keys generalizing documents with
  | nil =>
    cases h
    exact ⟨fun _ => rfl, fun hkey => absurd hkey List.not_mem_nil⟩
  | cons k keys ih =>
    rw [List.foldlM_cons] at h
    obtain ⟨next, hnext, h⟩ := ok_of_bind h
    obtain ⟨hk, hkeys⟩ := List.nodup_cons.mp hnodup
    obtain ⟨hother, hself⟩ := ih hkeys h
    constructor
    · intro hkey
      exact (hother (List.not_mem_of_not_mem_cons hkey)).trans
        (applyResultTo_of_ne hnext (List.ne_of_not_mem_cons hkey))
    · intro hkey hold
      rcases List.mem_cons.mp hkey with rfl | hmem
      · rw [hother hk]
        exact applyResultTo_self hnext hold
      · have hne : key ≠ k := fun heq => hk (heq ▸ hmem)
        rw [← applyResultTo_of_ne hnext hne] at hold ⊢
        exact hself hmem hold

variable [Add F] [IntCast F]

/-- **Acknowledging changes nothing of what is shown.** The server acknowledges a batch whose
results the client knows in advance, and whose writes were possible. Then each document is shown
as it was, with the batches that are still waiting, unless the server sent a newer document before.

**Proof sketch.** What the acknowledged batch makes of the document of the server agrees with what
it made of it while it waited. The batches that are still waiting depend on nothing else. -/
theorem acknowledged_as_shown {s s' : LocalStore κ F ε} {batch : MutationBatch κ F ε}
    {queue : List (MutationBatch κ F ε)} (hqueue : s.queue = batch :: queue)
    (hbatch : batch.Predictable)
    (hrest : ∀ b ∈ queue, IgnoreVersions b.baseMutations ∧ IgnoreVersions b.mutations)
    {results : List (MutationResult F ε)} (hanswered : batch.Answered results)
    (hok : s.acknowledgeBatch results = .ok s') (key : κ)
    (hpossible : batch.Possible key (s.remoteDocuments key))
    (hold : Older batch results key (s.remoteDocuments key)) :
    StoredDocument.isDocument (s'.getDocument key) = StoredDocument.isDocument (s.getDocument key) ∧
    StoredDocument.data (s'.getDocument key) = StoredDocument.data (s.getDocument key) := by
  unfold acknowledgeBatch at hok
  simp only [hqueue] at hok
  obtain ⟨_, hlength, hok⟩ := ok_of_bind hok
  obtain ⟨documents, hdocuments, hok⟩ := ok_of_bind hok
  cases hok
  obtain ⟨hother, hself⟩ := foldlM_applyResultTo (List.nodup_dedup _) hdocuments key
  have hagree : Mutation.Agree []
      (getDocument { remoteDocuments := documents, queue := queue } key) (s.getDocument key) := by
    unfold getDocument batchesAffecting
    rw [hqueue]
    dsimp only
    by_cases hkey : key ∈ batch.keys
    · have hdocument : Mutation.Agree [] (documents key)
          (batch.applyToLocalDocument key (s.remoteDocuments key)) := by
        obtain ⟨-, -, happlied⟩ := ok_of_bind (hself hkey hold)
        unfold MutationBatch.applyToLocalDocument
        rw [hbatch.baseMutations]
        exact MutationBatch.agree_applyResults key batch.localWriteTime hbatch.ignoreVersions
          hbatch.arrayTransforms (of_decide_eq_true (of_hardAssert hlength)).symm hanswered
          hpossible ⟨rfl, rfl⟩ happlied
      rw [List.filter_cons_of_pos (by simpa using hkey)]
      exact LocalDocumentsView.agree_getDocument key
        (fun b hb => hrest b (List.mem_of_mem_filter hb)) hdocument
    · rw [List.filter_cons_of_neg (by simpa using hkey), hother hkey]
      exact ⟨rfl, rfl⟩
  exact ⟨hagree.isDocument, hagree.data_eq⟩

/-- The write that sets the number of a counter. -/
def setCount (n : ℤ) : Mutation ℕ ℚ String :=
  .set 0 ((ObjectValue.empty _).set ["count"] (.leaf (.number (.integer n)))) .none []

/-- A store in which it waits. -/
def settingCount (n : ℤ) : LocalStore ℕ ℚ String where
  remoteDocuments _ := some (counter 3)
  queue := [newBatch (fun _ => some (counter 3)) 0 [setCount n] (List.cons_ne_nil _ _)]

/-- The write that sets the number of a counter and marks it. -/
def setMarked (n : ℤ) : Mutation ℕ ℚ String :=
  .set 0 ((ObjectValue.empty _).set ["count"] (.leaf (.number (.integer n)))) .none
    [⟨["marks"], List.cons_ne_nil _ _, .arrayUnion ["set"]⟩]

/-- A store in which it waits, and another write counts up after it. -/
def markingCount : LocalStore ℕ ℚ String where
  remoteDocuments _ := some (counter 3)
  queue := [newBatch (fun _ => some (counter 3)) 0 [setMarked 5] (List.cons_ne_nil _ _),
    newBatch (fun _ => some (counter 5)) 0 [countUp] countUp_ne_nil]

/-- The write that sets and marks the counter is acknowledged while the increment waits, and the
counter is shown as before: with the mark, and one higher than it was set. -/
theorem acknowledged_as_shown_marked :
    ∃ s', markingCount.acknowledgeBatch [⟨1, some [.leaf (.other "null")]⟩] = .ok s' ∧
      StoredDocument.field (markingCount.getDocument 0) ["count"] =
        some (.leaf (.number (.integer 6))) ∧
      StoredDocument.field (markingCount.getDocument 0) ["marks"] =
        some (.leaf (.array ["set"])) ∧
      StoredDocument.isDocument (s'.getDocument 0) =
        StoredDocument.isDocument (markingCount.getDocument 0) ∧
      StoredDocument.data (s'.getDocument 0) =
        StoredDocument.data (markingCount.getDocument 0) := by
  have hsingle : ∀ m ∈ [setMarked 5], m = setMarked 5 := fun m hm => List.mem_singleton.mp hm
  obtain ⟨s', hok⟩ : ∃ s', markingCount.acknowledgeBatch [⟨1, some [.leaf (.other "null")]⟩] =
      .ok s' := ⟨_, rfl⟩
  refine ⟨s', hok, by decide +kernel, by decide +kernel, acknowledged_as_shown rfl
    (MutationBatch.predictable_newBatch _ 0 (List.cons_ne_nil _ _) ?_ ?_) ?_ ?_ hok 0 ?_ ?_⟩
  · intro m hm
    rw [hsingle m hm]
    rfl
  · intro m hm
    rw [hsingle m hm]
    intro t ht
    rw [List.mem_singleton.mp ht]
    rfl
  · intro b hb
    rw [List.mem_singleton.mp hb]
    exact ⟨ignoreVersions_baseMutations [countUp] fun _ => some (counter 5), ignoreVersions_countUp⟩
  · intro p hp
    rw [List.mem_singleton.mp hp]
    exact Or.inr rfl
  · intro before m after hsplit _
    have hmem : m ∈ before ++ m :: after := List.mem_append_right before List.mem_cons_self
    rw [← hsplit] at hmem
    rw [hsingle m hmem]
    rfl
  · intro ackVersion hversion
    obtain rfl : 1 = ackVersion := Option.some.inj hversion
    rfl

end LocalStore

end AntViewer.Firestore
