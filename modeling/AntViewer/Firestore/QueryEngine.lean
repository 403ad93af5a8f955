import AntViewer.Firestore.PendingWrites
import AntViewer.Firestore.ViewMaintenance

set_option relaxedAutoImplicit false
set_option autoImplicit false

/-!
# Executing queries

The local store executes a query over a collection by going through the cached documents of the
collection, and applies the waiting writes to them once more; or it starts from the documents that
the server had reported for the query, and looks only at those that were read since. Neither applies
the base values that the waiting batches carry for increments, and a document of the server that
does not match is fetched only if a patch waits for it. So a query shows a document as a look-up by
its key does, unless one of the waiting writes depends on what is left out.

## Main definitions

* `CachedStore`, `LocalQuery`, `CachedTarget` — what executing a query reads.
* `CachedStore.getDocumentsMatchingCollectionQuery`, `CachedStore.executeQuery` — executing it.
* `CachedStore.Plain` — no waiting write depends on what is left out.
* `CachedStore.Complete` — the server had reported what matched.

## Main results

* `CachedStore.Plain.executeFullCollectionScan_eq` — going through the collection shows what
  look-ups do.
* `CachedStore.Plain.answers_executeQuery` — what a query is answered with, however it is executed.
-/

namespace AntViewer.Firestore

open SortedSets Runs View

/-! ## What a look-up shows -/

namespace StoredDocument

/-- The data and the state of a document, if there is one. -/
def content {δ : Type*} : Option (StoredDocument δ) → Option (δ × DocumentState)
  | some (document data _ state) => some (data, state)
  | _ => none

/-- The document, if it is one. -/
def asDocument {δ : Type*} (doc : Option (StoredDocument δ)) : Option (StoredDocument δ) :=
  if isDocument doc then doc else none

section

variable {δ : Type*} {d d' : Option (StoredDocument δ)}

lemma isDocument_eq (d : Option (StoredDocument δ)) : isDocument d = (content d).isSome := by
  rcases d with _ | (_ | _ | _) <;> rfl

@[simp] lemma content_asDocument (d : Option (StoredDocument δ)) :
    content (asDocument d) = content d := by
  rcases d with _ | (_ | _ | _) <;> rfl

/-- Documents with the same content either both exist or both do not. -/
lemma isDocument_congr (h : content d = content d') : isDocument d = isDocument d' := by
  rw [isDocument_eq, isDocument_eq, h]

lemma content_eq_none (h : isDocument d = false) : content d = none := by
  rwa [isDocument_eq, Option.isSome_eq_false_iff, Option.isNone_iff_eq_none] at h

end

section

variable {α : Type*} {d d' : Option (StoredDocument (ObjectValue α))}

lemma data_eq (d : Option (StoredDocument (ObjectValue α))) :
    data d = (content d).elim (.empty α) Prod.fst := by
  rcases d with _ | (_ | _ | _) <;> rfl

lemma field_eq_content (d : Option (StoredDocument (ObjectValue α))) (path : List String) :
    field d path = (content d).bind fun c => c.1.get path := by
  rcases d with _ | (_ | _ | _) <;> rfl

end

end StoredDocument

section Content

variable {κ F ε : Type} [Add F] [IntCast F] [DecidableEq ε]

/-- The data of documents. -/
abbrev DocumentData (F ε : Type) := ObjectValue (LeafValue F ε)

/-- What is cached, or shown, under a key. -/
abbrev CachedDocument (F ε : Type) := Option (StoredDocument (ObjectValue (LeafValue F ε)))

/-- **What a write makes of a document** depends on its content only, if it compares no versions. -/
lemma Mutation.content_applyToLocalView (m : Mutation κ F ε) (time : Timestamp)
    (hreads : m.precondition.readsVersion = false) {d d' : CachedDocument F ε}
    (h : StoredDocument.content d = StoredDocument.content d') :
    StoredDocument.content (m.applyToLocalView time d) =
      StoredDocument.content (m.applyToLocalView time d') := by
  have hvalid := Precondition.isValidFor_congr hreads (StoredDocument.isDocument_congr h)
  have hresults : ∀ transforms : List (FieldTransform F ε),
      localTransformResults transforms d time = localTransformResults transforms d' time := by
    intro transforms
    unfold localTransformResults
    simp only [StoredDocument.field_eq_content, h]
  have hdata : StoredDocument.data d = StoredDocument.data d' := by
    rw [StoredDocument.data_eq, StoredDocument.data_eq, h]
  unfold applyToLocalView
  rw [hvalid]
  split_ifs
  · exact h
  · cases m with
    | set key value precondition transforms =>
      simp only [hresults]
      rfl
    | patch key value mask precondition transforms =>
      simp only [hresults, hdata]
      rfl
    | delete key precondition => rfl

/-- A write that leaves the same under its key whatever was there. -/
def Mutation.Overwrites : Mutation κ F ε → Prop
  | set _ _ precondition transforms => precondition = .none ∧ transforms = []
  | patch _ _ _ _ _ => False
  | delete _ precondition => precondition = .none

/-- Is it a patch? -/
def Mutation.isPatch : Mutation κ F ε → Bool
  | patch _ _ _ _ _ => true
  | _ => false

lemma Mutation.Overwrites.content_eq {m : Mutation κ F ε} (h : m.Overwrites) (time : Timestamp)
    (d d' : CachedDocument F ε) :
    StoredDocument.content (m.applyToLocalView time d) =
      StoredDocument.content (m.applyToLocalView time d') := by
  cases m with
  | set key value precondition transforms =>
    obtain ⟨rfl, rfl⟩ := h
    rfl
  | patch key value mask precondition transforms => exact h.elim
  | delete key precondition =>
    obtain rfl : precondition = .none := h
    rfl

omit [Add F] [IntCast F] [DecidableEq ε] in
lemma Mutation.Overwrites.readsVersion {m : Mutation κ F ε} (h : m.Overwrites) :
    m.precondition.readsVersion = false := by
  cases m with
  | set key value precondition transforms =>
    obtain ⟨rfl, rfl⟩ := h
    rfl
  | patch key value mask precondition transforms => exact h.elim
  | delete key precondition =>
    obtain rfl : precondition = .none := h
    rfl

omit [Add F] [IntCast F] [DecidableEq ε] in
/-- A write has a base value if and only if it increments something. -/
lemma Mutation.extractTransformBaseValue_eq_none (m : Mutation κ F ε) (doc : CachedDocument F ε) :
    m.extractTransformBaseValue doc = none ↔
      ∀ t ∈ m.fieldTransforms, ∀ operand, t.transformation ≠ .increment operand := by
  unfold extractTransformBaseValue
  have hfold : ∀ (transforms : List (FieldTransform F ε))
      (base : Option (ObjectValue (LeafValue F ε))),
      transforms.foldl (extractBase doc) base = none ↔ base = none ∧
        ∀ t ∈ transforms, ∀ operand, t.transformation ≠ .increment operand := by
    intro transforms
    induction transforms with
    | nil => simp
    | cons t transforms ih =>
      intro base
      rw [List.foldl_cons, ih]
      unfold extractBase
      cases hop : t.transformation <;> simp [TransformOperation.computeBaseValue, hop]
  rw [hfold]
  exact and_iff_right rfl

omit [Add F] [IntCast F] [DecidableEq ε] in
/-- A batch carries base mutations if and only if one of its writes increments something. -/
lemma LocalStore.baseMutations_newBatch_eq_nil
    (existing : κ → CachedDocument F ε) (time : Timestamp) {mutations : List (Mutation κ F ε)}
    (hne : mutations ≠ []) : (newBatch existing time mutations hne).baseMutations = [] ↔
      ∀ m ∈ mutations, ∀ t ∈ m.fieldTransforms, ∀ operand,
        t.transformation ≠ .increment operand := by
  show mutations.filterMap (baseMutation existing) = [] ↔ _
  rw [List.filterMap_eq_nil_iff]
  refine forall₂_congr fun m _ => ?_
  unfold baseMutation
  rw [Option.map_eq_none_iff, Mutation.extractTransformBaseValue_eq_none]

end Content

/-! ## What executing a query reads -/

/-- `DocumentMap`, and the maps of the remote document cache. -/
abbrev DocumentMap (κ F ε : Type) := κ → CachedDocument F ε

/-- `MaybeDocumentMap`. -/
abbrev MaybeDocumentMap (κ F ε : Type) := List (κ × MaybeDocument κ (DocumentData F ε))

/-- Where the documents of the server are cached. -/
inductive Persistence
  | memory
  | levelDb
  deriving DecidableEq

/-- `LocalStore`, with the keys that its remote document cache has, and with the version of the
server under which each document was read. -/
structure CachedStore (κ F ε : Type) extends LocalStore κ F ε where
  persistence : Persistence
  keys : DocumentKeySet κ
  readTime : κ → Timestamp
  cached : ∀ k, (remoteDocuments k).isSome → k ∈ keys
  read : ∀ k, (remoteDocuments k).isSome → 0 < readTime k

/-- A query, with what the local store asks it besides: whether it is one for a document, which
documents are in its collection, and `MatchesAllDocuments()`. -/
structure LocalQuery (κ F ε : Type) extends Query κ (DocumentData F ε) where
  /-- The key of the document, if `IsDocumentQuery()`. -/
  documentKey : Option κ
  isImmediateParentOf : κ → Bool
  matchesAllDocuments : Bool
  matches_collection : documentKey = none → ∀ k d, matchesDocument k d = true →
    isImmediateParentOf k = true
  matches_document : ∀ key, documentKey = some key → ∀ k d, matchesDocument k d = true ↔ k = key

/-- The `TargetData` of a query, with the keys that the target cache has for it: what the server
had reported, and the version at which the result was last known to be complete. -/
structure CachedTarget (κ : Type) where
  lastLimboFreeSnapshotVersion : Timestamp
  matchingKeys : DocumentKeySet κ

/-- The query for all documents of a collection, in the order of their keys. -/
def LocalQuery.collection (κ F ε : Type) [LinearOrder κ] : LocalQuery κ F ε where
  toQuery := Query.collection κ _
  documentKey := none
  isImmediateParentOf _ := true
  matchesAllDocuments := true
  matches_collection _ _ _ _ := rfl
  matches_document _ h := by cases h

namespace CachedStore

open StoredDocument (toMaybeDocument)

variable {κ F ε : Type} [LinearOrder κ] [Add F] [IntCast F] [DecidableEq ε]

/-! ## Executing a query -/

omit [LinearOrder κ] [Add F] [IntCast F] [DecidableEq ε] in
/-- A view is given the content of a document. -/
lemma toDocument_toMaybeDocument (k : κ) (doc : CachedDocument F ε) :
    (toMaybeDocument k doc).toDocument =
      (StoredDocument.content doc).map fun c => ⟨k, c.1, c.2⟩ := by
  rcases doc with _ | (_ | _ | _) <;> rfl

/-- Is it a document that matches the query? -/
def Matches (q : LocalQuery κ F ε) (k : κ) (doc : CachedDocument F ε) : Bool :=
  (StoredDocument.content doc).any fun c => q.matchesDocument k (c.1)

omit [LinearOrder κ] [Add F] [IntCast F] [DecidableEq ε] in
/-- Whether a document matches depends on its content. -/
lemma matches_congr (q : LocalQuery κ F ε) (k : κ) {d d' : CachedDocument F ε}
    (h : StoredDocument.content d = StoredDocument.content d') :
    Matches q k d = Matches q k d' := by
  unfold Matches
  rw [h]

/-- `RemoteDocumentCache::GetMatching(query, since_read_time)`. The cache in memory returns what
matches, the one in LevelDB all documents of the collection. -/
def getMatching (s : CachedStore κ F ε) (q : LocalQuery κ F ε) (sinceReadTime : Timestamp) :
    DocumentMap κ F ε := fun k =>
  if q.isImmediateParentOf k = true ∧ sinceReadTime < s.readTime k ∧
      (s.persistence = .levelDb ∨ Matches q k (s.remoteDocuments k) = true) then
    StoredDocument.asDocument (s.remoteDocuments k)
  else none

/-- `AllMutationBatchesAffectingQuery(query)`. -/
def allMutationBatchesAffectingQuery (s : CachedStore κ F ε) (q : LocalQuery κ F ε) :
    List (MutationBatch κ F ε) :=
  s.queue.filter fun batch => batch.keys.any q.isImmediateParentOf

/-- `AddMissingBaseDocuments(matching_batches, existing_docs)`. -/
def addMissingBaseDocuments (s : CachedStore κ F ε) (matchingBatches : List (MutationBatch κ F ε))
    (existingDocs : DocumentMap κ F ε) : DocumentMap κ F ε := fun k =>
  if (existingDocs k).isNone && matchingBatches.any fun batch =>
      batch.mutations.any fun m => m.isPatch && m.key = k then
    StoredDocument.asDocument (s.remoteDocuments k)
  else existingDocs k

/-- The body of the loop of `GetDocumentsMatchingCollectionQuery` over the waiting writes. -/
def applyMutation (q : LocalQuery κ F ε) (localWriteTime : Timestamp) (results : DocumentMap κ F ε)
    (m : Mutation κ F ε) : DocumentMap κ F ε :=
  if q.isImmediateParentOf m.key then
    Function.update results m.key
      (StoredDocument.asDocument (m.applyToLocalView localWriteTime (results m.key)))
  else results

/-- `LocalDocumentsView::GetDocumentsMatchingCollectionQuery(query, since_read_time)`. -/
def getDocumentsMatchingCollectionQuery (s : CachedStore κ F ε) (q : LocalQuery κ F ε)
    (sinceReadTime : Timestamp) : DocumentMap κ F ε :=
  let results := s.getMatching q sinceReadTime
  let matchingBatches := s.allMutationBatchesAffectingQuery q
  let results := s.addMissingBaseDocuments matchingBatches results
  -- Only the writes of the batches are applied, not their base mutations.
  let results := matchingBatches.foldl (fun results batch =>
    batch.mutations.foldl (applyMutation q batch.localWriteTime) results) results
  fun k => if Matches q k (results k) then results k else none

/-- `LocalDocumentsView::GetDocumentsMatchingDocumentQuery(doc_path)`. -/
def getDocumentsMatchingDocumentQuery (s : CachedStore κ F ε) (key : κ) : DocumentMap κ F ε :=
  fun k => if k = key then StoredDocument.asDocument (s.getDocument key) else none

/-- `LocalDocumentsView::GetDocumentsMatchingQuery(query, since_read_time)`, without collection
groups. -/
def getDocumentsMatchingQuery (s : CachedStore κ F ε) (q : LocalQuery κ F ε)
    (sinceReadTime : Timestamp) : DocumentMap κ F ε :=
  match q.documentKey with
  | some key => s.getDocumentsMatchingDocumentQuery key
  | none => s.getDocumentsMatchingCollectionQuery q sinceReadTime

/-- The local store as a view sees it: what look-ups by key show. -/
def documents (s : CachedStore κ F ε) : LocalDocuments κ (DocumentData F ε) where
  get k := toMaybeDocument k (s.getDocument k)
  keyed k d h := by
    rw [toDocument_toMaybeDocument] at h
    obtain ⟨c, -, rfl⟩ := Option.map_eq_some_iff.mp h
    rfl

/-- `QueryEngine::ExecuteFullCollectionScan(query)`. -/
def executeFullCollectionScan (s : CachedStore κ F ε) (q : LocalQuery κ F ε) (k : κ) :
    Option (Document κ (DocumentData F ε)) :=
  (toMaybeDocument k (s.getDocumentsMatchingQuery q 0 k)).toDocument

/-- `QueryEngine::ApplyQuery(query, documents)`, for the documents under some keys. -/
def applyQuery (s : CachedStore κ F ε) (q : LocalQuery κ F ε) (remoteKeys : DocumentKeySet κ) :
    DocumentSet q.toQuery :=
  (inKeyOrder remoteKeys).foldl (fun queryResults k =>
    match s.documents.candidate q.toQuery k with
    | some d => queryResults.insert d
    | none => queryResults) (SortedSet.empty q.order)

/-- `QueryEngine::NeedsRefill(..)`: a document that matched does not match any more, or the one at
the edge of the limit has changed. -/
def needsRefill (s : CachedStore κ F ε) (q : LocalQuery κ F ε)
    (sortedPreviousResults : DocumentSet q.toQuery) (remoteKeys : DocumentKeySet κ)
    (limboFreeSnapshotVersion : Timestamp) : Bool :=
  if remoteKeys.card ≠ sortedPreviousResults.size then true
  else
    match if q.hasLimitToFirst then sortedPreviousResults.last
      else sortedPreviousResults.first with
    | none => false
    | some documentAtLimitEdge =>
      documentAtLimitEdge.hasLocalMutations || documentAtLimitEdge.hasCommittedMutations ||
        (s.getDocument documentAtLimitEdge.key).any fun doc =>
          limboFreeSnapshotVersion < doc.version

/-- `QueryEngine::GetDocumentsMatchingQuery(query, last_limbo_free_snapshot_version,
remote_keys)`. -/
def queryEngine (s : CachedStore κ F ε) (q : LocalQuery κ F ε)
    (lastLimboFreeSnapshotVersion : Timestamp) (remoteKeys : DocumentKeySet κ) (k : κ) :
    Option (Document κ (DocumentData F ε)) :=
  if q.matchesAllDocuments then s.executeFullCollectionScan q k
  else if lastLimboFreeSnapshotVersion = 0 then s.executeFullCollectionScan q k
  else
    let previousResults := s.applyQuery q remoteKeys
    if q.limitType ≠ .none ∧
        s.needsRefill q previousResults remoteKeys lastLimboFreeSnapshotVersion = true then
      s.executeFullCollectionScan q k
    else
      match previousResults.get? k with
      | some result => some result
      | none =>
        (toMaybeDocument k
          (s.getDocumentsMatchingQuery q lastLimboFreeSnapshotVersion k)).toDocument

/-- The keys under which there may be a document. -/
def allKeys (s : CachedStore κ F ε) : DocumentKeySet κ :=
  s.keys ∪ (s.queue.flatMap MutationBatch.keys).toFinset

/-- `LocalStore::ExecuteQuery(query, use_previous_results)`: the documents and the remote keys. -/
def executeQuery (s : CachedStore κ F ε) (q : LocalQuery κ F ε) (target : Option (CachedTarget κ))
    (usePreviousResults : Bool) : MaybeDocumentMap κ F ε × DocumentKeySet κ :=
  let lastLimboFreeSnapshotVersion :=
    target.elim 0 CachedTarget.lastLimboFreeSnapshotVersion
  let remoteKeys := target.elim ∅ CachedTarget.matchingKeys
  let documents := s.queryEngine q (if usePreviousResults then lastLimboFreeSnapshotVersion else 0)
    (if usePreviousResults then remoteKeys else ∅)
  ((inKeyOrder s.allKeys).filterMap fun k => (documents k).map fun d => (k, .document d),
    remoteKeys)

/-! ## Going through a collection -/

/-- The writes of some batches with their times, without the base mutations. -/
def userWrites (batches : List (MutationBatch κ F ε)) : List (Timestamp × Mutation κ F ε) :=
  batches.flatMap fun batch => batch.mutations.map fun m => (batch.localWriteTime, m)

/-- No waiting write depends on what executing a query leaves out: none increments a number (so
that no batch carries base mutations) or compares versions, and if no patch waits for a document of
the server, the writes to it leave nothing of it. -/
structure Plain (s : CachedStore κ F ε) : Prop where
  noBase : ∀ batch ∈ s.queue, batch.baseMutations = []
  ignoreVersions : ∀ batch ∈ s.queue, IgnoreVersions batch.mutations
  overwrites : ∀ k, StoredDocument.isDocument (s.remoteDocuments k) = true →
    (∃ batch ∈ s.queue, ∃ m ∈ batch.mutations, m.key = k ∧ m.isPatch = true) ∨
      ∀ batch ∈ s.queue, ∀ m ∈ batch.mutations, m.key = k → m.Overwrites

/-- What the loop over the waiting writes does to the document under a key. -/
def scanWrite (k : κ) (doc : CachedDocument F ε) (write : Timestamp × Mutation κ F ε) :
    CachedDocument F ε :=
  if write.2.key = k then StoredDocument.asDocument (write.2.applyToLocalView write.1 doc) else doc

omit [LinearOrder κ] [Add F] [IntCast F] [DecidableEq ε] in
@[simp] lemma userWrites_nil : userWrites ([] : List (MutationBatch κ F ε)) = [] := rfl

omit [LinearOrder κ] [Add F] [IntCast F] [DecidableEq ε] in
lemma userWrites_cons (batch : MutationBatch κ F ε) (batches : List (MutationBatch κ F ε)) :
    userWrites (batch :: batches) =
      batch.mutations.map (fun m => (batch.localWriteTime, m)) ++ userWrites batches := rfl

omit [LinearOrder κ] [Add F] [IntCast F] [DecidableEq ε] in
lemma mem_userWrites {batches : List (MutationBatch κ F ε)} {write : Timestamp × Mutation κ F ε} :
    write ∈ userWrites batches ↔ ∃ batch ∈ batches, write.1 = batch.localWriteTime ∧
      write.2 ∈ batch.mutations := by
  unfold userWrites
  rw [List.mem_flatMap]
  refine exists_congr fun batch => and_congr_right fun _ => ?_
  rw [List.mem_map]
  constructor
  · rintro ⟨m, hm, rfl⟩
    exact ⟨rfl, hm⟩
  · rintro ⟨htime, hm⟩
    exact ⟨write.2, hm, Prod.ext htime.symm rfl⟩

/-- The loop over the waiting writes works on each key of the collection by itself. -/
lemma foldl_applyMutation {q : LocalQuery κ F ε} {k : κ} (hk : q.isImmediateParentOf k = true)
    (batches : List (MutationBatch κ F ε)) (results : DocumentMap κ F ε) :
    batches.foldl (fun results batch =>
        batch.mutations.foldl (applyMutation q batch.localWriteTime) results) results k =
      (userWrites batches).foldl (scanWrite k) (results k) := by
  have hstep : ∀ (time : Timestamp) (results : DocumentMap κ F ε) (m : Mutation κ F ε),
      applyMutation q time results m k = scanWrite k (results k) (time, m) := by
    intro time results m
    unfold applyMutation scanWrite
    by_cases hm : m.key = k
    · rw [hm, if_pos hk, if_pos rfl, Function.update_self]
    · rw [if_neg hm]
      split_ifs
      · exact Function.update_of_ne (fun h => hm h.symm) _ _
      · rfl
  have hmutations : ∀ (time : Timestamp) (mutations : List (Mutation κ F ε))
      (results : DocumentMap κ F ε), mutations.foldl (applyMutation q time) results k =
        (mutations.map fun m => (time, m)).foldl (scanWrite k) (results k) := by
    intro time mutations
    induction mutations with
    | nil => exact fun _ => rfl
    | cons m mutations ih =>
      intro results
      rw [List.foldl_cons, ih, hstep, List.map_cons, List.foldl_cons]
  induction batches generalizing results with
  | nil => rfl
  | cons batch batches ih =>
    rw [List.foldl_cons, ih, hmutations, userWrites_cons, List.foldl_append]

omit [Add F] [IntCast F] [DecidableEq ε] in
/-- Batches that write to other documents do not matter. -/
lemma foldl_userWrites_filter {k : κ}
    {f : CachedDocument F ε → Timestamp × Mutation κ F ε → CachedDocument F ε}
    (hf : ∀ doc write, write.2.key ≠ k → f doc write = doc) {p : MutationBatch κ F ε → Bool}
    {queue : List (MutationBatch κ F ε)} (hp : ∀ batch ∈ queue, k ∈ batch.keys → p batch = true)
    (doc : CachedDocument F ε) :
    (userWrites (queue.filter p)).foldl f doc = (userWrites queue).foldl f doc := by
  induction queue generalizing doc with
  | nil => rfl
  | cons batch queue ih =>
    have hrest := fun b hb => hp b (List.mem_cons_of_mem batch hb)
    rw [userWrites_cons, List.foldl_append]
    cases hbatch : p batch with
    | true => rw [List.filter_cons_of_pos hbatch, userWrites_cons, List.foldl_append, ih hrest]
    | false =>
      have hkey : k ∉ batch.keys := by
        intro hmem
        rw [hp batch List.mem_cons_self hmem] at hbatch
        cases hbatch
      have hsame : (batch.mutations.map fun m => (batch.localWriteTime, m)).foldl f doc = doc := by
        refine List.foldlRecOn (motive := fun doc' => doc' = doc) _ f rfl ?_
        rintro doc' rfl write hwrite
        obtain ⟨m, hm, rfl⟩ := List.mem_map.mp hwrite
        exact hf _ _ fun h => hkey (LocalStore.mem_keys.mpr ⟨m, hm, h⟩)
      rw [List.filter_cons_of_neg (by rw [hbatch]; exact Bool.false_ne_true), ih hrest, hsame]

omit [LinearOrder κ] in
/-- Writes that compare no versions depend on the content of a document only. -/
lemma content_foldl_applyWrite [DecidableEq κ] {k : κ} {writes : List (Timestamp × Mutation κ F ε)}
    (hwrites : ∀ write ∈ writes, write.2.precondition.readsVersion = false)
    {d d' : CachedDocument F ε} (h : StoredDocument.content d = StoredDocument.content d') :
    StoredDocument.content (writes.foldl (applyWrite k) d) =
      StoredDocument.content (writes.foldl (applyWrite k) d') := by
  induction writes generalizing d d' with
  | nil => exact h
  | cons write writes ih =>
    refine ih (fun w hw => hwrites w (List.mem_cons_of_mem write hw)) ?_
    unfold applyWrite
    split_ifs
    · exact write.2.content_applyToLocalView write.1 (hwrites write List.mem_cons_self) h
    · exact h

/-- The loop over the waiting writes shows what applying them shows. -/
lemma content_foldl_scanWrite {k : κ} {writes : List (Timestamp × Mutation κ F ε)}
    (hwrites : ∀ write ∈ writes, write.2.precondition.readsVersion = false)
    {d d' : CachedDocument F ε} (h : StoredDocument.content d = StoredDocument.content d') :
    StoredDocument.content (writes.foldl (scanWrite k) d) =
      StoredDocument.content (writes.foldl (applyWrite k) d') := by
  induction writes generalizing d d' with
  | nil => exact h
  | cons write writes ih =>
    refine ih (fun w hw => hwrites w (List.mem_cons_of_mem write hw)) ?_
    unfold scanWrite applyWrite
    split_ifs
    · rw [StoredDocument.content_asDocument]
      exact write.2.content_applyToLocalView write.1 (hwrites write List.mem_cons_self) h
    · exact h

omit [LinearOrder κ] in
/-- Writes that overwrite a document show the same whatever was there. -/
lemma content_foldl_overwrites [DecidableEq κ] {k : κ}
    {writes : List (Timestamp × Mutation κ F ε)}
    (hwrites : ∀ write ∈ writes, write.2.key = k → write.2.Overwrites)
    (hsome : ∃ write ∈ writes, write.2.key = k) (d d' : CachedDocument F ε) :
    StoredDocument.content (writes.foldl (applyWrite k) d) =
      StoredDocument.content (writes.foldl (applyWrite k) d') := by
  induction writes generalizing d d' with
  | nil =>
    obtain ⟨write, hwrite, -⟩ := hsome
    cases hwrite
  | cons write writes ih =>
    have hrest := fun w hw => hwrites w (List.mem_cons_of_mem write hw)
    rw [List.foldl_cons, List.foldl_cons]
    by_cases hlater : ∃ w ∈ writes, w.2.key = k
    · exact ih hrest hlater _ _
    · have hidle : ∀ d : CachedDocument F ε, writes.foldl (applyWrite k) d = d := by
        intro d
        refine List.foldlRecOn (motive := fun d' => d' = d) writes (applyWrite k) rfl ?_
        rintro d' rfl w hw
        exact if_neg fun h => hlater ⟨w, hw, h⟩
      obtain ⟨w, hw, hkey⟩ := hsome
      obtain rfl : w = write := (List.mem_cons.mp hw).resolve_right fun h => hlater ⟨w, h, hkey⟩
      rw [hidle, hidle, applyWrite, applyWrite, if_pos hkey, if_pos hkey]
      exact (hwrites w hw hkey).content_eq w.1 _ _

section Scan

variable {s : CachedStore κ F ε} (q : LocalQuery κ F ε)

/-- Is there a waiting write for the document? -/
def Touched (s : CachedStore κ F ε) (k : κ) : Prop := ∃ write ∈ userWrites s.queue, write.2.key = k

/-- A look-up applies the waiting writes, if the batches carry nothing else. -/
lemma Plain.getDocument_eq (h : s.Plain) (k : κ) :
    s.getDocument k = (userWrites s.queue).foldl (applyWrite k) (s.remoteDocuments k) := by
  have hwaiting : ∀ batches : List (MutationBatch κ F ε), (∀ b ∈ batches, b.baseMutations = []) →
      waitingWrites batches = userWrites batches := by
    intro batches hbase
    induction batches with
    | nil => rfl
    | cons batch batches ih =>
      have hrest := ih fun b hb => hbase b (List.mem_cons_of_mem batch hb)
      unfold waitingWrites at hrest ⊢
      rw [List.flatMap_cons, hrest, hbase batch List.mem_cons_self, List.nil_append,
        userWrites_cons]
  unfold LocalStore.getDocument LocalStore.batchesAffecting
  rw [getDocument_eq_foldl, hwaiting _ fun b hb => h.noBase b (List.mem_of_mem_filter hb)]
  exact foldl_userWrites_filter (fun doc write hkey => if_neg hkey)
    (fun b _ hb => decide_eq_true hb) _

omit [LinearOrder κ] [Add F] [IntCast F] [DecidableEq ε] in
/-- No waiting write compares versions. -/
lemma Plain.readsVersion (h : s.Plain) (write : Timestamp × Mutation κ F ε)
    (hwrite : write ∈ userWrites s.queue) : write.2.precondition.readsVersion = false := by
  obtain ⟨batch, hbatch, -, hm⟩ := mem_userWrites.mp hwrite
  exact h.ignoreVersions batch hbatch write.2 hm

/-- Nothing but the cached document is shown where no write waits. -/
lemma Plain.getDocument_of_not_touched (h : s.Plain) {k : κ} (hk : ¬ s.Touched k) :
    s.getDocument k = s.remoteDocuments k := by
  rw [h.getDocument_eq]
  refine List.foldlRecOn (motive := fun doc => doc = s.remoteDocuments k) _ _ rfl ?_
  rintro doc rfl write hwrite
  exact if_neg fun hkey => hk ⟨write, hwrite, hkey⟩

omit [Add F] [IntCast F] [DecidableEq ε] in
/-- The documents that the loop over the waiting writes starts from. -/
lemma addMissingBaseDocuments_getMatching (sinceReadTime : Timestamp) (k : κ) :
    s.addMissingBaseDocuments (s.allMutationBatchesAffectingQuery q)
        (s.getMatching q sinceReadTime) k = none ∨
      s.addMissingBaseDocuments (s.allMutationBatchesAffectingQuery q)
        (s.getMatching q sinceReadTime) k = StoredDocument.asDocument (s.remoteDocuments k) := by
  unfold addMissingBaseDocuments getMatching
  split_ifs
  · exact Or.inr rfl
  · exact Or.inr rfl
  · exact Or.inr rfl
  · exact Or.inl rfl

omit [Add F] [IntCast F] [DecidableEq ε] in
/-- A patch that waits for a document of the collection gets its base document. -/
lemma addMissingBaseDocuments_of_patch (sinceReadTime : Timestamp) {k : κ}
    (hk : q.isImmediateParentOf k = true)
    (hpatch : ∃ batch ∈ s.queue, ∃ m ∈ batch.mutations, m.key = k ∧ m.isPatch = true) :
    s.addMissingBaseDocuments (s.allMutationBatchesAffectingQuery q)
      (s.getMatching q sinceReadTime) k = StoredDocument.asDocument (s.remoteDocuments k) := by
  obtain ⟨batch, hbatch, m, hm, hkey, hpatch⟩ := hpatch
  have hmatching : batch ∈ s.allMutationBatchesAffectingQuery q := by
    refine List.mem_filter.mpr ⟨hbatch, List.any_eq_true.mpr ⟨k, ?_, hk⟩⟩
    exact LocalStore.mem_keys.mpr ⟨m, hm, hkey⟩
  have hany : ((s.allMutationBatchesAffectingQuery q).any fun batch =>
      batch.mutations.any fun m => m.isPatch && m.key = k) = true := by
    refine List.any_eq_true.mpr ⟨batch, hmatching, List.any_eq_true.mpr ⟨m, hm, ?_⟩⟩
    rw [hpatch, hkey, decide_eq_true rfl]
    rfl
  unfold addMissingBaseDocuments
  rw [hany, Bool.and_true]
  unfold getMatching
  by_cases hfound : q.isImmediateParentOf k = true ∧ sinceReadTime < s.readTime k ∧
      (s.persistence = .levelDb ∨ Matches q k (s.remoteDocuments k) = true)
  · rw [if_pos hfound]
    exact ite_self _
  · rw [if_neg hfound]
    rfl

/-- **Going through a collection, where a write waits**: the documents show what look-ups show,
whenever they were read.

**Proof sketch.** Both apply the same writes. They start from the same document if a patch waits for
it, or if the server has none; otherwise the writes leave nothing of what they start from. -/
lemma Plain.content_of_touched (h : s.Plain) {k : κ} (hk : q.isImmediateParentOf k = true)
    (htouched : s.Touched k) (sinceReadTime : Timestamp) :
    StoredDocument.content ((userWrites (s.allMutationBatchesAffectingQuery q)).foldl (scanWrite k)
        (s.addMissingBaseDocuments (s.allMutationBatchesAffectingQuery q)
          (s.getMatching q sinceReadTime) k)) =
      StoredDocument.content (s.getDocument k) := by
  have hbatches : ∀ doc : CachedDocument F ε,
      (userWrites (s.allMutationBatchesAffectingQuery q)).foldl (scanWrite k) doc =
        (userWrites s.queue).foldl (scanWrite k) doc := fun doc =>
    foldl_userWrites_filter (fun _ _ hkey => if_neg hkey)
      (fun b _ hb => List.any_eq_true.mpr ⟨k, hb, hk⟩) doc
  have hbase := addMissingBaseDocuments_getMatching (s := s) q sinceReadTime k
  have hpatched := addMissingBaseDocuments_of_patch (s := s) q sinceReadTime hk
  rw [hbatches, h.getDocument_eq, content_foldl_scanWrite h.readsVersion rfl]
  generalize s.addMissingBaseDocuments _ _ k = base at hbase hpatched ⊢
  cases hdoc : StoredDocument.isDocument (s.remoteDocuments k) with
  | false =>
    refine content_foldl_applyWrite h.readsVersion ?_
    rcases hbase with rfl | rfl
    · exact (StoredDocument.content_eq_none hdoc).symm
    · exact StoredDocument.content_asDocument _
  | true =>
    rcases h.overwrites k hdoc with hpatch | hwrites
    · refine content_foldl_applyWrite h.readsVersion ?_
      rw [hpatched hpatch, StoredDocument.content_asDocument]
    · refine content_foldl_overwrites (fun write hwrite hkey => ?_) htouched _ _
      obtain ⟨batch, hbatch, -, hm⟩ := mem_userWrites.mp hwrite
      exact hwrites batch hbatch write.2 hm hkey

/-- **Going through a collection, where no write waits**: cached documents that match are found if
they were read since. -/
lemma Plain.content_of_not_touched (h : s.Plain) {k : κ} (hk : q.isImmediateParentOf k = true)
    (htouched : ¬ s.Touched k) (sinceReadTime : Timestamp) :
    (sinceReadTime < s.readTime k →
      StoredDocument.content (s.getDocumentsMatchingCollectionQuery q sinceReadTime k) =
        if Matches q k (s.getDocument k) then StoredDocument.content (s.getDocument k)
        else none) ∧
    (¬ sinceReadTime < s.readTime k →
      StoredDocument.content (s.getDocumentsMatchingCollectionQuery q sinceReadTime k) = none) := by
  have hpatch : ((s.allMutationBatchesAffectingQuery q).any fun batch =>
      batch.mutations.any fun m => m.isPatch && m.key = k) = false := by
    rw [Bool.eq_false_iff]
    intro hany
    obtain ⟨batch, hbatch, hany⟩ := List.any_eq_true.mp hany
    obtain ⟨m, hm, hpatch⟩ := List.any_eq_true.mp hany
    rw [Bool.and_eq_true, decide_eq_true_eq] at hpatch
    exact htouched ⟨(batch.localWriteTime, m),
      mem_userWrites.mpr ⟨batch, List.mem_of_mem_filter hbatch, rfl, hm⟩, hpatch.2⟩
  have hidle : ∀ doc : CachedDocument F ε,
      (userWrites (s.allMutationBatchesAffectingQuery q)).foldl (scanWrite k) doc = doc := by
    intro doc
    refine List.foldlRecOn (motive := fun doc' => doc' = doc) _ _ rfl ?_
    rintro doc' rfl write hwrite
    obtain ⟨batch, hbatch, htime, hm⟩ := mem_userWrites.mp hwrite
    exact if_neg fun hkey => htouched ⟨write,
      mem_userWrites.mpr ⟨batch, List.mem_of_mem_filter hbatch, htime, hm⟩, hkey⟩
  rw [h.getDocument_of_not_touched htouched]
  unfold getDocumentsMatchingCollectionQuery
  simp only [foldl_applyMutation hk, hidle]
  unfold addMissingBaseDocuments
  simp only [hpatch, Bool.and_false, Bool.false_eq_true, if_false]
  constructor
  · intro hread
    cases hmatches : Matches q k (s.remoteDocuments k) with
    | true =>
      have hfound : s.getMatching q sinceReadTime k =
          StoredDocument.asDocument (s.remoteDocuments k) :=
        if_pos ⟨hk, hread, Or.inr hmatches⟩
      rw [hfound, matches_congr q k (StoredDocument.content_asDocument _), hmatches]
      exact StoredDocument.content_asDocument _
    | false =>
      have hnone : Matches q k (s.getMatching q sinceReadTime k) = false := by
        unfold getMatching
        split_ifs
        · rw [matches_congr q k (StoredDocument.content_asDocument _), hmatches]
        · rfl
      rw [hnone]
      rfl
  · intro hread
    have hmissing : s.getMatching q sinceReadTime k = none := if_neg fun hfound => hread hfound.2.1
    rw [hmissing]
    rfl

/-- What a look-up shows of a document that matches, with its content. -/
lemma candidate_eq (s : CachedStore κ F ε) (k : κ) :
    s.documents.candidate q.toQuery k =
      (if Matches q k (s.getDocument k) then StoredDocument.content (s.getDocument k)
        else none).map fun c => ⟨k, c.1, c.2⟩ := by
  show (toMaybeDocument k (s.getDocument k)).toDocument.filter q.toQuery.Matches = _
  rw [toDocument_toMaybeDocument]
  unfold Matches
  cases StoredDocument.content (s.getDocument k) with
  | none => rfl
  | some c =>
    rw [Option.map_some, Option.filter_some, Option.any_some]
    show (if q.matchesDocument k (c.1) = true then _ else _) = _
    split_ifs <;> rfl

/-- **The documents matching a query** are those of the look-ups, except for documents that no write
waits for and that were not read since. -/
lemma Plain.getDocumentsMatchingQuery_spec (h : s.Plain) (sinceReadTime : Timestamp) (k : κ) :
    (toMaybeDocument k (s.getDocumentsMatchingQuery q sinceReadTime k)).toDocument =
        s.documents.candidate q.toQuery k ∨
      (toMaybeDocument k (s.getDocumentsMatchingQuery q sinceReadTime k)).toDocument =
          none ∧
        q.documentKey = none ∧ ¬ s.Touched k ∧ s.readTime k ≤ sinceReadTime := by
  rw [candidate_eq, toDocument_toMaybeDocument]
  unfold getDocumentsMatchingQuery
  cases hpath : q.documentKey with
  | some key =>
    left
    congr 1
    show StoredDocument.content (s.getDocumentsMatchingDocumentQuery key k) = _
    unfold getDocumentsMatchingDocumentQuery Matches
    by_cases hk : k = key
    · subst hk
      rw [if_pos rfl, StoredDocument.content_asDocument]
      cases StoredDocument.content (s.getDocument k) with
      | none => rfl
      | some c => rw [Option.any_some, (q.matches_document k hpath k _).mpr rfl, if_pos rfl]
    · rw [if_neg hk]
      cases StoredDocument.content (s.getDocument k) with
      | none => rfl
      | some c =>
        have hnot : q.matchesDocument k (c.1) ≠ true := fun hmatches =>
          hk ((q.matches_document key hpath k _).mp hmatches)
        rw [Option.any_some, if_neg hnot]
        rfl
  | none =>
    show Option.map _ (StoredDocument.content
      (s.getDocumentsMatchingCollectionQuery q sinceReadTime k)) = _ ∨ _
    cases hk : q.isImmediateParentOf k with
    | false =>
      left
      have hnot : ∀ doc : CachedDocument F ε, Matches q k doc = false := by
        intro doc
        rw [Bool.eq_false_iff]
        intro hmatches
        obtain ⟨c, -, hc⟩ := Option.any_eq_true _ _ |>.mp hmatches
        rw [q.matches_collection hpath k _ hc] at hk
        cases hk
      unfold getDocumentsMatchingCollectionQuery
      simp only [hnot]
      rfl
    | true =>
      by_cases htouched : s.Touched k
      · left
        have hcontent := h.content_of_touched q hk htouched sinceReadTime
        unfold getDocumentsMatchingCollectionQuery
        simp only [foldl_applyMutation hk]
        rw [matches_congr q k hcontent, apply_ite StoredDocument.content, hcontent]
        rfl
      · obtain ⟨hread, hnot⟩ := h.content_of_not_touched q hk htouched sinceReadTime
        by_cases hsince : sinceReadTime < s.readTime k
        · left
          rw [hread hsince]
        · right
          rw [hnot hsince]
          exact ⟨rfl, rfl, htouched, not_lt.mp hsince⟩

/-- **A full scan** shows what look-ups show. -/
theorem Plain.executeFullCollectionScan_eq (h : s.Plain) (k : κ) :
    s.executeFullCollectionScan q k = s.documents.candidate q.toQuery k := by
  unfold executeFullCollectionScan
  rcases h.getDocumentsMatchingQuery_spec q 0 k with heq | ⟨hnone, -, htouched, hread⟩
  · exact heq
  · have hmissing : s.remoteDocuments k = none := by
      by_contra hsome
      exact absurd (s.read k (Option.isSome_iff_ne_none.mpr hsome)) (not_lt.mpr hread)
    rw [hnone, candidate_eq, h.getDocument_of_not_touched htouched, hmissing]
    rfl

end Scan

/-- The server has sent a counter with an increment that still waits. -/
def countedTwice : CachedStore ℕ ℚ String where
  remoteDocuments k := if k = 0 then some (counter 4) else none
  queue := [LocalStore.newBatch (fun _ => some (counter 3)) 0 [countUp] countUp_ne_nil]
  persistence := .levelDb
  keys := {0}
  readTime _ := 1
  cached k h := by
    by_contra hk
    rw [if_neg fun h0 => hk (Finset.mem_singleton.mpr h0)] at h
    cases h
  read _ _ := Int.one_pos

/-- A look-up shows the count with the increment, executing a query counts it twice. -/
example : StoredDocument.field (countedTwice.getDocument 0) ["count"] =
      some (.leaf (.number (.integer 4))) ∧
    (countedTwice.executeFullCollectionScan (LocalQuery.collection ℕ ℚ String) 0).bind
        (fun d => d.data.get ["count"]) =
      some (.leaf (.number (.integer 5))) := by
  decide +kernel

/-! ## Starting from previous results -/

section Previous

variable {s : CachedStore κ F ε} {q : LocalQuery κ F ε}

/-- The previous results are the documents under the remote keys that still match. -/
lemma get?_applyQuery (s : CachedStore κ F ε) (q : LocalQuery κ F ε) (remoteKeys : DocumentKeySet κ)
    (k : κ) : (s.applyQuery q remoteKeys).get? k =
      if k ∈ remoteKeys then s.documents.candidate q.toQuery k else none := by
  have hfold : ∀ (keys : List κ) (queryResults : DocumentSet q.toQuery),
      (keys.foldl (fun queryResults k =>
        match s.documents.candidate q.toQuery k with
        | some d => queryResults.insert d
        | none => queryResults) queryResults).get? k =
      if k ∈ keys ∧ (s.documents.candidate q.toQuery k).isSome then
        s.documents.candidate q.toQuery k
      else queryResults.get? k := by
    intro keys
    induction keys with
    | nil =>
      intro queryResults
      rw [if_neg fun h => List.not_mem_nil h.1]
      rfl
    | cons key keys ih =>
      intro queryResults
      rw [List.foldl_cons, ih]
      cases hkey : s.documents.candidate q.toQuery key with
      | none =>
        by_cases hk : k = key
        · rw [hk, hkey]
          simp
        · simp [hk]
      | some d =>
        have hd : d.key = key := LocalDocuments.key_of_candidate hkey
        by_cases hk : k = key
        · subst hk
          simp [hkey, SortedSet.get?_insert, hd]
        · simp [hk, SortedSet.get?_insert, hd]
  unfold applyQuery
  rw [hfold, SortedSet.get?_empty]
  simp only [mem_inKeyOrder]
  by_cases hk : k ∈ remoteKeys
  · cases hcandidate : s.documents.candidate q.toQuery k with
    | none => simp
    | some d => simp [hk]
  · simp [hk]

/-- A document that is shown as the server had sent it by some version. -/
structure Unchanged (s : CachedStore κ F ε) (version : Timestamp)
    (d : Document κ (DocumentData F ε)) : Prop where
  synced : d.state = .synced
  version_le : ∀ doc, s.getDocument d.key = some doc → doc.version ≤ version

/-- What the local store has recorded of a target is complete: a document of a collection that
matches, for which no write waits, and which was not read since the last version without documents
in limbo, is among the remote keys, or these are as many as the limit allows, and those of them that
are unchanged since come before it. -/
def Complete (s : CachedStore κ F ε) (q : LocalQuery κ F ε) (target : CachedTarget κ) : Prop :=
  ∀ k d, q.documentKey = none → s.documents.candidate q.toQuery k = some d → ¬ s.Touched k →
    s.readTime k ≤ target.lastLimboFreeSnapshotVersion → k ∉ target.matchingKeys →
    q.limitType ≠ .none ∧ target.matchingKeys.card = q.limit ∧
      ∀ k' ∈ target.matchingKeys, ∀ d', s.documents.candidate q.toQuery k' = some d' →
        s.Unchanged target.lastLimboFreeSnapshotVersion d' → q.Before d' d

/-- **Nothing comes before a document that is left out**: if no refill is needed, all documents
under the remote keys still match, and the one at the edge of the limit, to which the others are
preferred, is unchanged. -/
lemma before_of_needsRefill {target : CachedTarget κ} {d : Document κ (DocumentData F ε)}
    (hrefill : s.needsRefill q (s.applyQuery q target.matchingKeys) target.matchingKeys
      target.lastLimboFreeSnapshotVersion = false)
    (hunchanged : ∀ k' ∈ target.matchingKeys, ∀ d',
      s.documents.candidate q.toQuery k' = some d' →
        s.Unchanged target.lastLimboFreeSnapshotVersion d' → q.Before d' d)
    (k' : κ) (hk' : k' ∈ target.matchingKeys) :
    ∃ d', s.documents.candidate q.toQuery k' = some d' ∧ q.Before d' d := by
  have hget := get?_applyQuery s q target.matchingKeys
  generalize s.applyQuery q target.matchingKeys = previous at hrefill hget
  have hcard : target.matchingKeys.card = previous.size := by
    by_contra hne
    rw [needsRefill, if_pos hne] at hrefill
    cases hrefill
  rw [needsRefill, if_neg (not_not.mpr hcard)] at hrefill
  have hkeys : previous.keys = target.matchingKeys := by
    refine Finset.eq_of_subset_of_card_le (fun k hk => ?_) (by rw [hcard, SortedSet.card_keys])
    by_contra hother
    rw [SortedSet.mem_keys, hget, if_neg hother] at hk
    cases hk
  obtain ⟨d', hd'⟩ : ∃ d', previous.get? k' = some d' := by
    rw [← Option.isSome_iff_exists, ← SortedSet.mem_keys, hkeys]
    exact hk'
  have hcandidate : ∀ k e, previous.get? k = some e → k ∈ target.matchingKeys ∧
      s.documents.candidate q.toQuery k = some e := by
    intro k e he
    rw [hget] at he
    split_ifs at he with hk
    exact ⟨hk, he⟩
  refine ⟨d', (hcandidate k' d' hd').2, ?_⟩
  cases hedge : (if q.hasLimitToFirst then previous.last else previous.first) with
  | none =>
    have hempty : previous.elements = [] := by
      split_ifs at hedge
      · exact List.getLast?_eq_none_iff.mp hedge
      · exact List.head?_eq_none_iff.mp hedge
    have hmem := SortedSet.mem_of_get? hd'
    rw [hempty] at hmem
    cases hmem
  | some e =>
    rw [hedge] at hrefill
    simp only [Bool.or_eq_false_iff] at hrefill
    obtain ⟨⟨hlocal, hcommitted⟩, hversion⟩ := hrefill
    have hmem : e ∈ previous.elements := by
      split_ifs at hedge
      · exact SortedSet.mem_of_last hedge
      · exact SortedSet.mem_of_first hedge
    have hfound : previous.get? e.key = some e := SortedSet.get?_key hmem
    have hsame : s.Unchanged target.lastLimboFreeSnapshotVersion e := by
      constructor
      · cases hstate : e.state with
        | localMutations => simp [Document.hasLocalMutations, hstate] at hlocal
        | committedMutations => simp [Document.hasCommittedMutations, hstate] at hcommitted
        | synced => rfl
      · intro doc hdoc
        rw [hdoc, Option.any_some, decide_eq_false_iff_not, not_lt] at hversion
        exact hversion
    have hbefore := hunchanged e.key (hcandidate _ _ hfound).1 e (hcandidate _ _ hfound).2 hsame
    by_cases heq : d' = e
    · exact heq ▸ hbefore
    · exact Ranking.lt_trans (before_found hedge (SortedSet.mem_of_get? hd') heq) hbefore

end Previous

/-! ## The result -/

section Results

variable {s : CachedStore κ F ε} {q : LocalQuery κ F ε}

/-- A document that is shown is cached, or a write waits for it. -/
lemma Plain.mem_allKeys (h : s.Plain) {k : κ} {d : Document κ (DocumentData F ε)}
    (hd : s.documents.candidate q.toQuery k = some d) : k ∈ s.allKeys := by
  rw [allKeys, Finset.mem_union, List.mem_toFinset, List.mem_flatMap]
  by_cases htouched : s.Touched k
  · obtain ⟨write, hwrite, hkey⟩ := htouched
    obtain ⟨batch, hbatch, -, hm⟩ := mem_userWrites.mp hwrite
    exact Or.inr ⟨batch, hbatch, LocalStore.mem_keys.mpr ⟨write.2, hm, hkey⟩⟩
  · left
    refine s.cached k (Option.isSome_iff_ne_none.mpr fun hmissing => ?_)
    rw [candidate_eq, h.getDocument_of_not_touched htouched, hmissing] at hd
    cases hd

/-- The documents that are found, in the order of their keys. -/
lemma Plain.mem_results (h : s.Plain) {found : κ → Option (Document κ (DocumentData F ε))}
    (hfound : ∀ k, found k = s.documents.candidate q.toQuery k ∨ found k = none) :
    (((inKeyOrder s.allKeys).filterMap fun k =>
        (found k).map fun d => (k, MaybeDocument.document d)).map Prod.fst).Nodup ∧
    (∀ k m, (k, m) ∈ ((inKeyOrder s.allKeys).filterMap fun k =>
        (found k).map fun d => (k, MaybeDocument.document d)) →
      s.documents.get k = m ∧ (s.documents.candidate q.toQuery k).isSome) ∧
    ∀ k, (found k).isSome → k ∈ ((inKeyOrder s.allKeys).filterMap fun k =>
        (found k).map fun d => (k, MaybeDocument.document d)).map Prod.fst := by
  have hcandidate : ∀ k d, found k = some d → s.documents.candidate q.toQuery k = some d := by
    intro k d hd
    rcases hfound k with heq | hnone
    · exact heq ▸ hd
    · rw [hnone] at hd
      cases hd
  refine ⟨?_, fun k m hmem => ?_, fun k hk => ?_⟩
  · refine (nodup_inKeyOrder s.allKeys).sublist ?_
    rw [List.map_filterMap]
    have hkeys : (fun k => ((found k).map fun d => (k, MaybeDocument.document d)).map Prod.fst) =
        Option.guard fun k => (found k).isSome := by
      funext k
      cases hk : found k <;> simp [Option.guard, hk]
    rw [hkeys, List.filterMap_eq_filter]
    exact List.filter_sublist
  · obtain ⟨k', -, hk'⟩ := List.mem_filterMap.mp hmem
    obtain ⟨d, hd, heq⟩ := Option.map_eq_some_iff.mp hk'
    cases heq
    have hstored := hcandidate k d hd
    refine ⟨?_, by rw [hstored]; rfl⟩
    have hdocument := (Option.filter_eq_some_iff.mp hstored).1
    cases hget : (s.documents : LocalDocuments κ (DocumentData F ε)).get k with
    | document d' =>
      rw [hget] at hdocument
      cases hdocument
      rfl
    | noDocument =>
      rw [hget] at hdocument
      cases hdocument
    | unknownDocument =>
      rw [hget] at hdocument
      cases hdocument
  · obtain ⟨d, hd⟩ := Option.isSome_iff_exists.mp hk
    refine List.mem_map.mpr ⟨(k, .document d), List.mem_filterMap.mpr ⟨k, ?_, by rw [hd]; rfl⟩, rfl⟩
    exact mem_inKeyOrder.mpr (h.mem_allKeys (hcandidate k d hd))

/-- **Executing a query anew** returns what look-ups show. -/
theorem Plain.executeQuery_false (h : s.Plain) (target : Option (CachedTarget κ)) :
    ExecuteQuery q.toQuery s.documents (s.executeQuery q target false).1 := by
  have hengine : ∀ k, s.queryEngine q 0 ∅ k = s.documents.candidate q.toQuery k := by
    intro k
    unfold queryEngine
    rw [h.executeFullCollectionScan_eq, if_pos rfl, ite_self]
  obtain ⟨hnodup, hsound, hcomplete⟩ := h.mem_results fun k => Or.inl (hengine k)
  refine ⟨hnodup, hsound, fun k hk => hcomplete k ?_⟩
  rwa [hengine]

/-- **The query engine** shows what look-ups show, but for documents that are left out with reason:
old ones outside of the previous results, when no refill is needed. -/
lemma Plain.queryEngine_spec (h : s.Plain) (t : CachedTarget κ) (k : κ) :
    s.queryEngine q t.lastLimboFreeSnapshotVersion t.matchingKeys k =
        s.documents.candidate q.toQuery k ∨
      s.queryEngine q t.lastLimboFreeSnapshotVersion t.matchingKeys k = none ∧
        q.documentKey = none ∧ ¬ s.Touched k ∧ s.readTime k ≤ t.lastLimboFreeSnapshotVersion ∧
        k ∉ t.matchingKeys ∧
        (q.limitType ≠ .none → s.needsRefill q (s.applyQuery q t.matchingKeys) t.matchingKeys
          t.lastLimboFreeSnapshotVersion = false) := by
  unfold queryEngine
  rw [h.executeFullCollectionScan_eq]
  dsimp only
  split_ifs with hall hfirst hrefill
  · exact Or.inl rfl
  · exact Or.inl rfl
  · exact Or.inl rfl
  · have hget := get?_applyQuery s q t.matchingKeys k
    cases hprevious : (s.applyQuery q t.matchingKeys).get? k with
    | some result =>
      rw [hprevious] at hget
      split_ifs at hget with hk
      exact Or.inl hget
    | none =>
      rw [hprevious] at hget
      rcases h.getDocumentsMatchingQuery_spec q t.lastLimboFreeSnapshotVersion k with
        heq | ⟨hnone, hpath, htouched, hread⟩
      · exact Or.inl heq
      · by_cases hk : k ∈ t.matchingKeys
        · rw [if_pos hk] at hget
          left
          rw [← hget]
          exact hnone
        · refine Or.inr ⟨hnone, hpath, htouched, hread, hk, fun hlimit => ?_⟩
          exact Bool.eq_false_iff.mpr fun hneeds => hrefill ⟨hlimit, hneeds⟩

/-- **What a query is answered with** when it is listened to: if the record of its target is
complete, this is what a new view needs.

**Proof sketch.** What the previous results leave out is an old document that no write waits for.
The record says that the remote keys come before it. -/
theorem Plain.answers_executeQuery (h : s.Plain) {target : Option (CachedTarget κ)}
    (htarget : ∀ t ∈ target, s.Complete q t) :
    Answers q.toQuery s.documents (s.executeQuery q target true).1 := by
  cases target with
  | none => exact (h.executeQuery_false (q := q) none).answers
  | some t =>
    have hspec := h.queryEngine_spec (q := q) t
    obtain ⟨hnodup, hsound, hcomplete⟩ := h.mem_results fun k => (hspec k).imp id And.left
    refine ⟨hnodup, hsound, fun k stored hstored => ?_⟩
    rcases hspec k with heq | ⟨-, hpath, htouched, hread, hk, hrefill⟩
    · exact Or.inl (hcomplete k (by rw [heq, hstored]; rfl))
    · obtain ⟨hlimit, hcard, hbefore⟩ :=
        htarget t rfl k stored hpath hstored htouched hread hk
      refine Or.inr ⟨hlimit, t.matchingKeys, hcard, fun k' hk' => ?_⟩
      obtain ⟨d', hd', hlt⟩ := before_of_needsRefill (hrefill hlimit) hbefore k' hk'
      refine ⟨hcomplete k' ?_, d', hd', hlt⟩
      rcases hspec k' with heq | ⟨-, -, -, -, hother, -⟩
      · rw [heq, hd']
        rfl
      · exact absurd hk' hother

end Results

end CachedStore

end AntViewer.Firestore
