import AntViewer.Firestore.Acknowledgement
import AntViewer.Firestore.QueryEngine

set_option relaxedAutoImplicit false
set_option autoImplicit false

/-!
# Changes of the local store

Whenever the local store changes, it returns the documents that it may show differently now: after
a write what the new batch makes of the documents it writes to, after an acknowledgement or a
rejection what look-ups show of the documents of the batch, and when the server has sent documents
those that were taken over, with the waiting batches applied. The views are maintained from these
lists, so the lists must agree with what look-ups show, and leave nothing out.

## Main definitions

* `CachedStore.Event`, `CachedStore.next` — what can happen to the local store, and the code that
  runs then, with the changes that it returns.
* `CachedStore.Event.Once` — each document is written to or sent once.

## Main results

* `CachedStore.step_of_next` — these are steps of the local store.
* `CachedStore.covers_next` — the changes lead from what was shown to what is shown.
-/

namespace AntViewer.Firestore

open Runs View

namespace StoredDocument

/-- `has_pending_writes()`. -/
def hasPendingWrites {δ : Type*} : StoredDocument δ → Bool
  | document _ _ state => state = .localMutations ∨ state = .committedMutations
  | noDocument _ hasCommittedMutations => hasCommittedMutations
  | unknownDocument _ => true

/-- It is known that there is no document, or nothing is known. -/
def IsGone {δ : Type*} : Option (StoredDocument δ) → Prop
  | some (document _ _ _) => False
  | some (noDocument _ _) => True
  | some (unknownDocument _) => False
  | none => True

/-- The same, unless both are gone. -/
def Alike {δ : Type*} (d d' : Option (StoredDocument δ)) : Prop := d = d' ∨ IsGone d ∧ IsGone d'

lemma Alike.refl {δ : Type*} (d : Option (StoredDocument δ)) : Alike d d := Or.inl rfl

/-- What is missing reads as a deleted document. -/
lemma alike_getD {δ : Type*} (d : Option (StoredDocument δ)) (version : Timestamp) (b : Bool) :
    Alike (some (d.getD (.noDocument version b))) d := by
  cases d with
  | none => exact Or.inr ⟨trivial, trivial⟩
  | some _ => exact Or.inl rfl

end StoredDocument

/-- A version that the server has given to documents, which is not `SnapshotVersion::None()`. -/
abbrev ServerVersion := {version : Timestamp // 0 < version}

variable {κ F ε : Type} [LinearOrder κ] [Add F] [IntCast F] [DecidableEq ε]

/-- The body of the loop of `ApplyToLocalDocumentSet`: the whole batch is applied. -/
def MutationBatch.applyFor (batch : MutationBatch κ F ε)
    (mutatedDocuments : DocumentMap κ F ε) (mutation : Mutation κ F ε) :
    DocumentMap κ F ε :=
  match batch.applyToLocalDocument mutation.key (mutatedDocuments mutation.key) with
  | some mutatedDocument => Function.update mutatedDocuments mutation.key (some mutatedDocument)
  | none => mutatedDocuments

/-- `ApplyToLocalDocumentSet(document_set)`. -/
def MutationBatch.applyToLocalDocumentSet (batch : MutationBatch κ F ε)
    (documentSet : DocumentMap κ F ε) : DocumentMap κ F ε :=
  batch.mutations.foldl batch.applyFor documentSet

namespace CachedStore

open StoredDocument (toMaybeDocument)

/-! ## What the functions of the store return -/

/-- `RemoteDocumentCache::Add(document, read_time)`. -/
def add (s : CachedStore κ F ε) (key : κ) (doc : StoredDocument (DocumentData F ε))
    (readTime : ServerVersion) : CachedStore κ F ε where
  remoteDocuments := Function.update s.remoteDocuments key (some doc)
  queue := s.queue
  persistence := s.persistence
  keys := insert key s.keys
  readTime := Function.update s.readTime key readTime
  cached k h := by
    by_cases hk : k = key
    · exact hk ▸ Finset.mem_insert_self _ _
    · rw [Function.update_of_ne hk] at h
      exact Finset.mem_insert_of_mem (s.cached k h)
  read k h := by
    by_cases hk : k = key
    · rw [hk, Function.update_self]
      exact readTime.2
    · rw [Function.update_of_ne hk] at h ⊢
      exact s.read k h

/-- `RemoteDocumentCache::Remove(key)`. -/
def remove (s : CachedStore κ F ε) (key : κ) : CachedStore κ F ε where
  remoteDocuments := Function.update s.remoteDocuments key none
  queue := s.queue
  persistence := s.persistence
  keys := s.keys.erase key
  readTime := s.readTime
  cached k h := by
    by_cases hk : k = key
    · rw [hk, Function.update_self] at h
      cases h
    · rw [Function.update_of_ne hk] at h
      exact Finset.mem_erase.mpr ⟨hk, s.cached k h⟩
  read k h := by
    by_cases hk : k = key
    · rw [hk, Function.update_self] at h
      cases h
    · rw [Function.update_of_ne hk] at h
      exact s.read k h

omit [Add F] [IntCast F] [DecidableEq ε] in
/-- Without a document there is less that writes could depend on. -/
lemma Plain.remove {s : CachedStore κ F ε} (h : s.Plain) (key : κ) : (s.remove key).Plain where
  noBase := h.noBase
  ignoreVersions := h.ignoreVersions
  overwrites k hk := by
    by_cases heq : k = key
    · change StoredDocument.isDocument (Function.update s.remoteDocuments key none k) = true at hk
      rw [heq, Function.update_self] at hk
      cases hk
    · change StoredDocument.isDocument (Function.update s.remoteDocuments key none k) = true at hk
      rw [Function.update_of_ne heq] at hk
      exact h.overwrites k hk

/-- The store with other waiting batches. -/
def withQueue (s : CachedStore κ F ε) (queue : List (MutationBatch κ F ε)) : CachedStore κ F ε where
  remoteDocuments := s.remoteDocuments
  queue := queue
  persistence := s.persistence
  keys := s.keys
  readTime := s.readTime
  cached := s.cached
  read := s.read

/-- `GetDocuments(keys)` of the local documents view, for the views. -/
def getDocumentsFor (s : CachedStore κ F ε) (keys : List κ) : MaybeDocumentMap κ F ε :=
  keys.map fun key => (key, toMaybeDocument key (s.getDocuments key))

/-- `WriteLocally(mutations)`. -/
def writeLocally (s : CachedStore κ F ε) (localWriteTime : Timestamp)
    (mutations : List (Mutation κ F ε)) (h : mutations ≠ []) :
    CachedStore κ F ε × MaybeDocumentMap κ F ε :=
  let batch := LocalStore.newBatch s.getDocuments localWriteTime mutations h
  let changedDocuments := batch.applyToLocalDocumentSet s.getDocuments
  (s.withQueue (s.queue ++ [batch]),
    batch.keys.map fun key => (key, toMaybeDocument key (changedDocuments key)))

/-- The body of the loop of `ApplyBatchResult(batch_result)`. -/
def applyResultTo (batch : MutationBatch κ F ε) (mutationResults : List (MutationResult F ε))
    (commitVersion : ServerVersion) (s : CachedStore κ F ε) (docKey : κ) :
    Except String (CachedStore κ F ε) :=
  match batch.docVersions mutationResults docKey with
  | none => hardFail "doc_versions should contain every doc in the write."
  | some ackVersion =>
    if (s.remoteDocuments docKey).all fun doc => doc.version < ackVersion then do
      match ← batch.applyToRemoteDocument docKey mutationResults (s.remoteDocuments docKey) with
      | none =>
        hardAssert (s.remoteDocuments docKey).isNone
          "Mutation batch %s applied to document %s resulted in nullopt."
        return s
      | some doc => return s.add docKey doc commitVersion
    else return s

/-- `AcknowledgeBatch(batch_result)`. -/
def acknowledgeBatch (s : CachedStore κ F ε) (mutationResults : List (MutationResult F ε))
    (commitVersion : ServerVersion) :
    Except String (CachedStore κ F ε × MaybeDocumentMap κ F ε) :=
  match s.queue with
  | [] => hardFail "Trying to remove batch from empty queue"
  | batch :: queue => do
    hardAssert (batch.mutations.length = mutationResults.length)
      "Number of mutations sent %s must equal results received %s"
    let s ← batch.keys.foldlM (applyResultTo batch mutationResults commitVersion) s
    let s := s.withQueue queue
    return (s, s.getDocumentsFor batch.keys)

/-- `RejectBatch(batch_id)`. -/
def rejectBatch (s : CachedStore κ F ε) :
    Except String (CachedStore κ F ε × MaybeDocumentMap κ F ε) :=
  match s.queue with
  | [] => hardFail "Attempt to reject nonexistent batch!"
  | batch :: queue =>
    let s := s.withQueue queue
    .ok (s, s.getDocumentsFor batch.keys)

/-- The body of the loop of `ApplyRemoteEvent(remote_event)` over the document updates. -/
def applyDocumentUpdate (existingDocs : DocumentMap κ F ε)
    (snapshotVersion : Option ServerVersion)
    (acc : CachedStore κ F ε × List (κ × StoredDocument (DocumentData F ε)))
    (update : κ × StoredDocument (DocumentData F ε)) :
    Except String (CachedStore κ F ε × List (κ × StoredDocument (DocumentData F ε))) :=
  let (s, changedDocs) := acc
  let (key, doc) := update
  match doc with
  | .noDocument 0 _ => return (s.remove key, changedDocs ++ [update])
  | doc =>
    if (existingDocs key).all fun existingDoc => existingDoc.version < doc.version ∨
        doc.version = existingDoc.version ∧ existingDoc.hasPendingWrites = true then
      match snapshotVersion with
      | none => hardFail "Cannot add a document when the remote version is zero"
      | some readTime => return (s.add key doc readTime, changedDocs ++ [update])
    else return acc

/-- `GetLocalViewOfDocuments(base_docs)`: the waiting batches are applied. -/
def getLocalViewOfDocuments (s : CachedStore κ F ε)
    (baseDocs : List (κ × StoredDocument (DocumentData F ε))) : MaybeDocumentMap κ F ε :=
  baseDocs.map fun (key, doc) => (key, toMaybeDocument key (some
    ((LocalDocumentsView.getDocument key (s.batchesAffecting key) (some doc)).getD
      (.noDocument 0 false))))

/-- `ApplyRemoteEvent(remote_event)`, with the documents that were sent and the snapshot version,
if it is not `SnapshotVersion::None()`. -/
def applyRemoteEvent (s : CachedStore κ F ε)
    (documentUpdates : List (κ × StoredDocument (DocumentData F ε)))
    (snapshotVersion : Option ServerVersion) :
    Except String (CachedStore κ F ε × MaybeDocumentMap κ F ε) := do
  let (s, changedDocs) ←
    documentUpdates.foldlM (applyDocumentUpdate s.remoteDocuments snapshotVersion) (s, [])
  return (s, s.getLocalViewOfDocuments changedDocs)

/-- What can happen to the local store. -/
inductive Event (κ F ε : Type)
  | write (localWriteTime : Timestamp) (mutations : List (Mutation κ F ε)) (h : mutations ≠ [])
  | acknowledge (mutationResults : List (MutationResult F ε)) (commitVersion : ServerVersion)
  | reject
  | remote (documentUpdates : List (κ × StoredDocument (DocumentData F ε)))
      (snapshotVersion : Option ServerVersion)

/-- The code that runs then: the store afterwards, and the changes that are returned. -/
def next (s : CachedStore κ F ε) :
    Event κ F ε → Except String (CachedStore κ F ε × MaybeDocumentMap κ F ε)
  | .write localWriteTime mutations h => .ok (s.writeLocally localWriteTime mutations h)
  | .acknowledge mutationResults commitVersion => s.acknowledgeBatch mutationResults commitVersion
  | .reject => s.rejectBatch
  | .remote documentUpdates snapshotVersion => s.applyRemoteEvent documentUpdates snapshotVersion

/-- Each document is written to once by a batch, and sent once by the server. -/
def Event.Once : Event κ F ε → Prop
  | write _ mutations _ => (mutations.map Mutation.key).Nodup
  | acknowledge _ _ => True
  | reject => True
  | remote documentUpdates _ => (documentUpdates.map Prod.fst).Nodup

/-! ## What is shown of documents that are gone -/

omit [LinearOrder κ] in
/-- A write makes the same of documents that are gone, or leaves them gone. -/
lemma alike_applyToLocalView (m : Mutation κ F ε) (time : Timestamp) {d d' : CachedDocument F ε}
    (h : StoredDocument.Alike d d') :
    StoredDocument.Alike (m.applyToLocalView time d) (m.applyToLocalView time d') := by
  rcases h with rfl | ⟨hd, hd'⟩
  · exact StoredDocument.Alike.refl _
  · have hgone : ∀ doc : CachedDocument F ε, StoredDocument.IsGone doc →
        m.precondition.isValidFor doc = m.precondition.isValidFor (none : CachedDocument F ε) ∧
          (m.precondition.isValidFor doc = true →
            m.applyToLocalView time doc = m.applyToLocalView time none) := by
      intro doc hdoc
      have hvalid : m.precondition.isValidFor doc =
          m.precondition.isValidFor (none : CachedDocument F ε) := by
        rcases doc with _ | (_ | _ | _)
        · rfl
        · exact hdoc.elim
        · cases m.precondition <;> rfl
        · exact hdoc.elim
      refine ⟨hvalid, fun htrue => ?_⟩
      unfold Mutation.applyToLocalView
      rw [← hvalid, htrue]
      rcases doc with _ | (_ | _ | _)
      · rfl
      · exact hdoc.elim
      · rfl
      · exact hdoc.elim
    obtain ⟨hvalid, hsame⟩ := hgone d hd
    obtain ⟨hvalid', hsame'⟩ := hgone d' hd'
    by_cases htrue : m.precondition.isValidFor (none : CachedDocument F ε) = true
    · exact Or.inl ((hsame (hvalid.trans htrue)).trans (hsame' (hvalid'.trans htrue)).symm)
    · right
      rw [Bool.not_eq_true] at htrue
      unfold Mutation.applyToLocalView
      rw [if_pos (hvalid.trans htrue), if_pos (hvalid'.trans htrue)]
      exact ⟨hd, hd'⟩

/-- So do all writes of a batch, -/
lemma alike_applyToLocalDocument (batch : MutationBatch κ F ε) (key : κ) {d d' : CachedDocument F ε}
    (h : StoredDocument.Alike d d') : StoredDocument.Alike (batch.applyToLocalDocument key d)
      (batch.applyToLocalDocument key d') := by
  have hfold : ∀ (mutations : List (Mutation κ F ε)) {d d' : CachedDocument F ε},
      StoredDocument.Alike d d' → StoredDocument.Alike
        (applyMutations key batch.localWriteTime mutations d)
        (applyMutations key batch.localWriteTime mutations d') := by
    intro mutations
    induction mutations with
    | nil => exact id
    | cons m mutations ih =>
      intro d d' h
      refine ih ?_
      dsimp only
      split_ifs
      · exact alike_applyToLocalView m _ h
      · exact h
  exact hfold _ (hfold _ h)

/-- and all waiting batches. -/
lemma alike_getDocument (key : κ) (batches : List (MutationBatch κ F ε)) {d d' : CachedDocument F ε}
    (h : StoredDocument.Alike d d') :
    StoredDocument.Alike (LocalDocumentsView.getDocument key batches d)
      (LocalDocumentsView.getDocument key batches d') := by
  induction batches generalizing d d' with
  | nil => exact h
  | cons batch batches ih => exact ih (alike_applyToLocalDocument batch key h)

omit [LinearOrder κ] [Add F] [IntCast F] [DecidableEq ε] in
/-- A view is given the same of documents that are gone. -/
lemma toMaybeDocument_congr {k : κ} {d d' : CachedDocument F ε} (h : StoredDocument.Alike d d') :
    toMaybeDocument k d = toMaybeDocument k d' := by
  rcases h with rfl | ⟨hd, hd'⟩
  · rfl
  · have hgone : ∀ doc : CachedDocument F ε, StoredDocument.IsGone doc →
        toMaybeDocument k doc = (.noDocument : MaybeDocument κ (DocumentData F ε)) := by
      intro doc hdoc
      rcases doc with _ | (_ | _ | _)
      · rfl
      · exact hdoc.elim
      · rfl
      · exact hdoc.elim
    rw [hgone d hd, hgone d' hd']

/-- What `GetDocuments` returns is what look-ups show. -/
lemma toMaybeDocument_getDocuments (s : CachedStore κ F ε) (k : κ) :
    toMaybeDocument k (s.getDocuments k) = s.documents.get k :=
  toMaybeDocument_congr (StoredDocument.alike_getD _ _ _)

/-! ## Steps of the store -/

omit [Add F] [IntCast F] in
/-- Applying the results to a document does to the cache what it does in the local store. -/
lemma applyResultTo_eq {batch : MutationBatch κ F ε} {results : List (MutationResult F ε)}
    {version : ServerVersion} {s s' : CachedStore κ F ε} {key : κ}
    (h : applyResultTo batch results version s key = .ok s') :
    LocalStore.applyResultTo batch results s.remoteDocuments key = .ok s'.remoteDocuments ∧
      s'.queue = s.queue := by
  unfold applyResultTo at h
  unfold LocalStore.applyResultTo
  cases hversion : batch.docVersions results key with
  | none => rw [hversion] at h; cases h
  | some ackVersion =>
    simp only [hversion] at h ⊢
    split_ifs at h ⊢ with hold
    · obtain ⟨doc, hdoc, h⟩ := ok_of_bind h
      rw [hdoc]
      cases doc with
      | none =>
        obtain ⟨u, hassert, h⟩ := ok_of_bind h
        cases h
        have hnone := of_hardAssert hassert
        refine ⟨?_, rfl⟩
        show (hardAssert (false || (s.remoteDocuments key).isNone) _ >>= _) = _
        rw [hnone, ← Option.isNone_iff_eq_none.mp hnone]
        exact congrArg Except.ok (Function.update_eq_self key s.remoteDocuments)
      | some doc =>
        cases h
        exact ⟨rfl, rfl⟩
    · cases h
      exact ⟨rfl, rfl⟩

omit [Add F] [IntCast F] in
/-- So does the loop over the documents of a batch. -/
lemma foldlM_applyResultTo_eq {batch : MutationBatch κ F ε} {results : List (MutationResult F ε)}
    {version : ServerVersion} {keys : List κ} {s s' : CachedStore κ F ε}
    (h : keys.foldlM (applyResultTo batch results version) s = .ok s') :
    keys.foldlM (LocalStore.applyResultTo batch results) s.remoteDocuments =
      .ok s'.remoteDocuments ∧ s'.queue = s.queue := by
  induction keys generalizing s with
  | nil =>
    cases h
    exact ⟨rfl, rfl⟩
  | cons key keys ih =>
    rw [List.foldlM_cons] at h
    obtain ⟨next, hnext, h⟩ := ok_of_bind h
    obtain ⟨hstep, hqueue⟩ := applyResultTo_eq hnext
    obtain ⟨hfold, hqueue'⟩ := ih h
    rw [List.foldlM_cons, hstep]
    exact ⟨hfold, hqueue'.trans hqueue⟩

/-- What is shown under a key depends on the document of the server and on the batches for it. -/
lemma getDocument_congr {s s' : LocalStore κ F ε} {k : κ}
    (hremote : s'.remoteDocuments k = s.remoteDocuments k)
    (hbatches : s'.batchesAffecting k = s.batchesAffecting k) :
    s'.getDocument k = s.getDocument k := by
  unfold LocalStore.getDocument
  rw [hremote, hbatches]

omit [Add F] [IntCast F] [DecidableEq ε] in
/-- Taking a batch from the queue matters to its documents only. -/
lemma batchesAffecting_of_tail {s s' : LocalStore κ F ε} {batch : MutationBatch κ F ε} {k : κ}
    (hqueue : s.queue = batch :: s'.queue) (hk : k ∉ batch.keys) :
    s'.batchesAffecting k = s.batchesAffecting k := by
  unfold LocalStore.batchesAffecting
  rw [hqueue, List.filter_cons_of_neg (by simpa using hk)]

/-- The documents of a batch are reported as look-ups show them. -/
lemma covers_getDocumentsFor {s s' : CachedStore κ F ε} {keys : List κ} (hnodup : keys.Nodup)
    (h : ∀ k ∉ keys, s'.getDocument k = s.getDocument k) :
    s.documents.Covers s'.documents (s'.getDocumentsFor keys : MaybeDocumentMap κ F ε) := by
  have hkeys : (s'.getDocumentsFor keys : MaybeDocumentMap κ F ε).map Prod.fst = keys := by
    unfold getDocumentsFor
    rw [List.map_map]
    exact List.map_id _
  refine ⟨by rwa [hkeys], fun k m hmem => ?_, fun k hk => ?_⟩
  · obtain ⟨key, -, heq⟩ := List.mem_map.mp hmem
    cases heq
    exact (toMaybeDocument_getDocuments s' k).symm
  · rw [hkeys] at hk
    show toMaybeDocument k (s'.getDocument k) = toMaybeDocument k (s.getDocument k)
    rw [h k hk]

/-- **The server acknowledges a batch.** -/
lemma acknowledgeBatch_spec {s s' : CachedStore κ F ε} {results : List (MutationResult F ε)}
    {version : ServerVersion} {changes : MaybeDocumentMap κ F ε}
    (h : s.acknowledgeBatch results version = .ok (s', changes)) :
    s.toLocalStore.acknowledgeBatch results = .ok s'.toLocalStore ∧
      s.documents.Covers s'.documents changes := by
  unfold acknowledgeBatch at h
  unfold LocalStore.acknowledgeBatch
  cases hqueue : s.queue with
  | nil => rw [hqueue] at h; cases h
  | cons batch queue =>
    simp only [hqueue] at h ⊢
    obtain ⟨u, hlength, h⟩ := ok_of_bind h
    obtain ⟨applied, happlied, h⟩ := ok_of_bind h
    obtain ⟨hfold, -⟩ := foldlM_applyResultTo_eq happlied
    cases h
    constructor
    · rw [hlength]
      show (batch.keys.foldlM (LocalStore.applyResultTo batch results) s.remoteDocuments >>= _) = _
      rw [hfold]
      rfl
    · refine covers_getDocumentsFor (List.nodup_dedup _) fun k hk => ?_
      exact getDocument_congr
        ((LocalStore.foldlM_applyResultTo (List.nodup_dedup _) hfold k).1 hk)
        (batchesAffecting_of_tail hqueue hk)

/-- **The server rejects a batch.** -/
lemma rejectBatch_spec {s s' : CachedStore κ F ε} {changes : MaybeDocumentMap κ F ε}
    (h : s.rejectBatch = .ok (s', changes)) :
    s.toLocalStore.rejectBatch = .ok s'.toLocalStore ∧
      s.documents.Covers s'.documents changes := by
  unfold rejectBatch at h
  unfold LocalStore.rejectBatch
  cases hqueue : s.queue with
  | nil => rw [hqueue] at h; cases h
  | cons batch queue =>
    simp only [hqueue] at h ⊢
    cases h
    refine ⟨rfl, covers_getDocumentsFor (List.nodup_dedup _) fun k hk => ?_⟩
    exact getDocument_congr rfl (batchesAffecting_of_tail hqueue hk)

omit [LinearOrder κ] in
/-- A write leaves something under its key. -/
lemma isSome_applyToLocalView (m : Mutation κ F ε) (time : Timestamp) {d : CachedDocument F ε}
    (h : d.isSome) : (m.applyToLocalView time d).isSome := by
  unfold Mutation.applyToLocalView
  split_ifs
  · exact h
  · cases m <;> rfl

/-- So does a batch. -/
lemma isSome_applyToLocalDocument (batch : MutationBatch κ F ε) (key : κ) {d : CachedDocument F ε}
    (h : d.isSome) : (batch.applyToLocalDocument key d).isSome := by
  have hfold : ∀ (mutations : List (Mutation κ F ε)) {d : CachedDocument F ε}, d.isSome →
      (applyMutations key batch.localWriteTime mutations d).isSome := by
    intro mutations d h
    refine List.foldlRecOn (motive := fun d : CachedDocument F ε => d.isSome) mutations _ h ?_
    intro d hd m _
    split_ifs
    · exact isSome_applyToLocalView m _ hd
    · exact hd
  exact hfold _ (hfold _ h)

/-- **What a batch makes of some documents**, if it writes to each of them once. -/
lemma applyToLocalDocumentSet_eq {batch : MutationBatch κ F ε}
    (hnodup : (batch.mutations.map Mutation.key).Nodup) {documentSet : DocumentMap κ F ε}
    (hset : ∀ k, (documentSet k).isSome) {k : κ} (hk : k ∈ batch.keys) :
    batch.applyToLocalDocumentSet documentSet k = batch.applyToLocalDocument k (documentSet k) := by
  have hfold : ∀ (mutations : List (Mutation κ F ε)) (set : DocumentMap κ F ε),
      (mutations.map Mutation.key).Nodup → (∀ k, (set k).isSome) →
      mutations.foldl batch.applyFor set k =
        if k ∈ mutations.map Mutation.key then batch.applyToLocalDocument k (set k) else set k := by
    intro mutations
    induction mutations with
    | nil => exact fun set _ _ => rfl
    | cons m mutations ih =>
      intro set hnodup hset
      rw [List.map_cons, List.nodup_cons] at hnodup
      obtain ⟨d, hd⟩ := Option.isSome_iff_exists.mp
        (isSome_applyToLocalDocument batch m.key (hset m.key))
      have hstep : batch.applyFor set m = Function.update set m.key (some d) := by
        rw [MutationBatch.applyFor, hd]
      rw [List.foldl_cons, hstep, ih _ hnodup.2]
      · by_cases hkey : k = m.key
        · rw [hkey, if_neg hnodup.1, Function.update_self, List.map_cons,
            if_pos List.mem_cons_self, hd]
        · rw [Function.update_of_ne hkey, List.map_cons]
          simp only [List.mem_cons, hkey, false_or]
      · intro k'
        by_cases hkey : k' = m.key
        · rw [hkey, Function.update_self]
          rfl
        · rw [Function.update_of_ne hkey]
          exact hset k'
  unfold MutationBatch.applyToLocalDocumentSet
  rw [hfold _ _ hnodup hset, if_pos]
  rwa [MutationBatch.keys, List.mem_dedup] at hk

/-- **The program writes.** -/
lemma writeLocally_spec (s : CachedStore κ F ε) (time : Timestamp)
    {mutations : List (Mutation κ F ε)} (hne : mutations ≠ [])
    (hnodup : (mutations.map Mutation.key).Nodup) :
    s.documents.Covers (s.writeLocally time mutations hne).1.documents
      (s.writeLocally time mutations hne).2 := by
  set batch := LocalStore.newBatch s.getDocuments time mutations hne with hbatch
  have hkeys : (s.writeLocally time mutations hne).2.map Prod.fst = batch.keys := by
    show (batch.keys.map fun key => _).map Prod.fst = _
    rw [List.map_map]
    exact List.map_id _
  have hqueue : (s.writeLocally time mutations hne).1.queue = s.queue ++ [batch] := rfl
  refine ⟨by rw [hkeys]; exact List.nodup_dedup _, fun k m hmem => ?_, fun k hk => ?_⟩
  · obtain ⟨key, hkey, heq⟩ := List.mem_map.mp hmem
    cases heq
    have hshown : (s.writeLocally time mutations hne).1.getDocument k =
        batch.applyToLocalDocument k (s.getDocument k) := by
      unfold LocalStore.getDocument LocalStore.batchesAffecting
      rw [hqueue, List.filter_append, List.filter_cons_of_pos (by simpa using hkey),
        List.filter_nil]
      exact List.foldl_append
    show toMaybeDocument k ((s.writeLocally time mutations hne).1.getDocument k) = _
    rw [hshown, applyToLocalDocumentSet_eq hnodup (fun _ => rfl) hkey]
    have halike := StoredDocument.alike_getD (s.getDocument k) 0 false
    exact (toMaybeDocument_congr (alike_applyToLocalDocument batch k halike)).symm
  · rw [hkeys] at hk
    refine congrArg (toMaybeDocument k) (getDocument_congr rfl ?_)
    unfold LocalStore.batchesAffecting
    rw [hqueue, List.filter_append, List.filter_cons_of_neg (by simpa using hk), List.filter_nil,
      List.append_nil]

/-- The loop over the documents that the server has sent: those that were taken over are cached, or
gone if they are, and the others are as they were. -/
structure Tracks (s : CachedStore κ F ε)
    (acc : CachedStore κ F ε × List (κ × StoredDocument (DocumentData F ε))) : Prop where
  queue : acc.1.queue = s.queue
  nodup : (acc.2.map Prod.fst).Nodup
  changed : ∀ k doc, (k, doc) ∈ acc.2 → StoredDocument.Alike (some doc) (acc.1.remoteDocuments k)
  unchanged : ∀ k ∉ acc.2.map Prod.fst, acc.1.remoteDocuments k = s.remoteDocuments k

omit [LinearOrder κ] [Add F] [IntCast F] [DecidableEq ε] in
/-- One more document that is taken over. -/
lemma Tracks.append {s s' : CachedStore κ F ε}
    {acc : CachedStore κ F ε × List (κ × StoredDocument (DocumentData F ε))}
    (h : Tracks s acc) {k : κ} {doc : StoredDocument (DocumentData F ε)}
    (hk : k ∉ acc.2.map Prod.fst) (hqueue : s'.queue = acc.1.queue)
    (hself : StoredDocument.Alike (some doc) (s'.remoteDocuments k))
    (hother : ∀ k' ≠ k, s'.remoteDocuments k' = acc.1.remoteDocuments k') :
    Tracks s (s', acc.2 ++ [(k, doc)]) where
  queue := hqueue.trans h.queue
  nodup := by
    rw [List.map_append]
    refine List.nodup_append.mpr ⟨h.nodup, List.nodup_singleton _, fun k' hk' k'' hk'' heq => ?_⟩
    rw [heq, List.mem_singleton.mp hk''] at hk'
    exact hk hk'
  changed k' doc' hmem := by
    rcases List.mem_append.mp hmem with hmem | hmem
    · rw [hother k' fun heq => hk (heq ▸ List.mem_map.mpr ⟨_, hmem, rfl⟩)]
      exact h.changed k' doc' hmem
    · cases List.mem_singleton.mp hmem
      exact hself
  unchanged k' hk' := by
    rw [List.map_append, List.mem_append, not_or] at hk'
    rw [hother k' fun heq => hk'.2 (heq ▸ List.mem_singleton_self _)]
    exact h.unchanged k' hk'.1

omit [Add F] [IntCast F] [DecidableEq ε] in
/-- One document that the server has sent. -/
lemma tracks_applyDocumentUpdate {existing : DocumentMap κ F ε} {version : Option ServerVersion}
    {s : CachedStore κ F ε}
    {acc acc' : CachedStore κ F ε × List (κ × StoredDocument (DocumentData F ε))}
    (hacc : Tracks s acc) {update : κ × StoredDocument (DocumentData F ε)}
    (h : applyDocumentUpdate existing version acc update = .ok acc')
    (hk : update.1 ∉ acc.2.map Prod.fst) :
    Tracks s acc' ∧ ∀ k ∈ acc'.2.map Prod.fst, k ∈ acc.2.map Prod.fst ∨ k = update.1 := by
  obtain ⟨key, doc⟩ := update
  obtain ⟨cache, changedDocs⟩ := acc
  have hkeys : ∀ k ∈ (changedDocs ++ [(key, doc)]).map Prod.fst,
      k ∈ changedDocs.map Prod.fst ∨ k = key := by
    intro k hk
    rw [List.map_append, List.mem_append] at hk
    exact hk.imp_right List.mem_singleton.mp
  unfold applyDocumentUpdate at h
  dsimp only at h
  split at h
  · cases h
    refine ⟨hacc.append hk rfl (Or.inr ⟨trivial, ?_⟩) fun k' hk' => Function.update_of_ne hk' _ _,
      hkeys⟩
    show StoredDocument.IsGone (Function.update cache.remoteDocuments key none key)
    rw [Function.update_self]
    trivial
  · split_ifs at h
    · cases version with
      | none => cases h
      | some readTime =>
        cases h
        refine ⟨hacc.append hk rfl (Or.inl ?_) fun k' hk' => Function.update_of_ne hk' _ _, hkeys⟩
        exact (Function.update_self key (some doc) cache.remoteDocuments).symm
    · cases h
      exact ⟨hacc, fun k hk => Or.inl hk⟩

omit [Add F] [IntCast F] [DecidableEq ε] in
/-- All documents that the server has sent, each of them once. -/
lemma tracks_foldlM {existing : DocumentMap κ F ε} {version : Option ServerVersion}
    {s : CachedStore κ F ε} {updates : List (κ × StoredDocument (DocumentData F ε))}
    (hnodup : (updates.map Prod.fst).Nodup)
    {acc acc' : CachedStore κ F ε × List (κ × StoredDocument (DocumentData F ε))}
    (hacc : Tracks s acc) (hfresh : ∀ k ∈ acc.2.map Prod.fst, k ∉ updates.map Prod.fst)
    (h : updates.foldlM (applyDocumentUpdate existing version) acc = .ok acc') :
    Tracks s acc' := by
  induction updates generalizing acc with
  | nil =>
    cases h
    exact hacc
  | cons update updates ih =>
    rw [List.map_cons, List.nodup_cons] at hnodup
    rw [List.foldlM_cons] at h
    obtain ⟨next, hnext, h⟩ := ok_of_bind h
    obtain ⟨htracks, hkeys⟩ := tracks_applyDocumentUpdate hacc hnext
      fun hk => hfresh _ hk List.mem_cons_self
    refine ih hnodup.2 htracks (fun k hk hmem => ?_) h
    rcases hkeys k hk with hk | rfl
    · exact hfresh k hk (List.mem_cons_of_mem _ hmem)
    · exact hnodup.1 hmem

/-- **The server sends documents.** -/
lemma applyRemoteEvent_spec {s s' : CachedStore κ F ε}
    {updates : List (κ × StoredDocument (DocumentData F ε))}
    {version : Option ServerVersion} {changes : MaybeDocumentMap κ F ε}
    (hnodup : (updates.map Prod.fst).Nodup)
    (h : s.applyRemoteEvent updates version = .ok (s', changes)) :
    s'.queue = s.queue ∧ s.documents.Covers s'.documents changes := by
  unfold applyRemoteEvent at h
  obtain ⟨⟨applied, changedDocs⟩, happlied, h⟩ := ok_of_bind h
  cases h
  have htracks : Tracks s (s', changedDocs) := by
    have hstart : Tracks s (s, []) :=
      ⟨rfl, List.nodup_nil, fun k doc hmem => absurd hmem List.not_mem_nil, fun _ _ => rfl⟩
    exact tracks_foldlM hnodup hstart (fun k hk => absurd hk List.not_mem_nil) happlied
  have hkeys : (s'.getLocalViewOfDocuments changedDocs).map Prod.fst =
      changedDocs.map Prod.fst := by
    unfold getLocalViewOfDocuments
    rw [List.map_map]
    rfl
  refine ⟨htracks.queue, ⟨by rw [hkeys]; exact htracks.nodup, fun k m hmem => ?_, fun k hk => ?_⟩⟩
  · obtain ⟨⟨key, doc⟩, hdoc, heq⟩ := List.mem_map.mp hmem
    cases heq
    have halike := alike_getDocument k (s'.batchesAffecting k) (htracks.changed k doc hdoc)
    have hmissing := toMaybeDocument_congr (k := k) (StoredDocument.alike_getD
      (LocalDocumentsView.getDocument k (s'.batchesAffecting k) (some doc)) 0 false)
    exact (hmissing.trans (toMaybeDocument_congr halike)).symm
  · rw [hkeys] at hk
    refine congrArg (toMaybeDocument k) (getDocument_congr (htracks.unchanged k hk) ?_)
    unfold LocalStore.batchesAffecting
    rw [htracks.queue]

/-- The event of the local store without versions of documents read. -/
def Event.toStoreEvent (s' : CachedStore κ F ε) : Event κ F ε → LocalStore.Event κ F ε
  | write localWriteTime mutations h => .write localWriteTime mutations h
  | acknowledge mutationResults _ => .acknowledge mutationResults
  | reject => .reject
  | remote _ _ => .remote s'.remoteDocuments

/-- **The changes cover the step**: whatever happens to the local store, if each document is
written to once by a batch and sent once by the server, what the store returns leads from what it
showed to what it shows. -/
theorem covers_next {s s' : CachedStore κ F ε} {e : Event κ F ε}
    {changes : MaybeDocumentMap κ F ε} (honce : e.Once)
    (h : s.next e = .ok (s', changes)) : s.documents.Covers s'.documents changes := by
  cases e with
  | write time mutations hne =>
    cases h
    exact s.writeLocally_spec time hne honce
  | acknowledge results version => exact (acknowledgeBatch_spec h).2
  | reject => exact (rejectBatch_spec h).2
  | remote updates version => exact (applyRemoteEvent_spec honce h).2

/-- **These are steps of the local store.** -/
theorem step_of_next {s s' : CachedStore κ F ε} {e : Event κ F ε}
    {changes : MaybeDocumentMap κ F ε} (honce : e.Once)
    (h : s.next e = .ok (s', changes)) :
    LocalStore.Step s.toLocalStore (e.toStoreEvent s') s'.toLocalStore := by
  cases e with
  | write time mutations hne =>
    cases h
    rfl
  | acknowledge results version => exact (acknowledgeBatch_spec h).1
  | reject => exact (rejectBatch_spec h).1
  | remote updates version =>
    exact congrArg (LocalStore.mk s'.remoteDocuments) (applyRemoteEvent_spec honce h).1

end CachedStore

end AntViewer.Firestore
