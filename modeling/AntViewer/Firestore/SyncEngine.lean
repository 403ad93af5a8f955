import AntViewer.Firestore.LimboRuns
import AntViewer.Firestore.QueryClient

set_option relaxedAutoImplicit false
set_option autoImplicit false

/-!
# All queries of a client

The sync engine keeps the views of all queries that are listened to. A change of the local store
goes through all of them, in no particular order, and each may change which documents are in limbo;
an error of the server ends a query or the lookup of a document, and then the document is taken out
of the local store. The remote store listens to the target of every query and of every lookup.

## Main definitions

* `SyncEngine` — the views of all queries, the lookups of documents in limbo, and what was handed
  over for each query.
* `SyncEngine.Event`, `SyncEngine.next` — what can happen, and the code that runs then.
* `SyncEngine.Event.Fits` — what the local store and the server promise of an event.

## Main results

* `SyncEngine.next_spec` — every event that fits can happen, and keeps the invariant.
* `SyncEngine.Consistent.accounts` — all views are up to date with the local store, and the remote
  store listens to what they need.
-/

namespace AntViewer.Firestore

open SortedSets Runs View

universe u

/-- `QueryView`: the view of a query, with its target. -/
structure QueryView {κ δ : Type*} (q : Query κ δ) where
  targetId : ℕ
  view : View q

/-- `SyncEngine`, with the local store. The queries are the values of a function; what was handed
to the callback since a query was last listened to is kept for each, none for an error. -/
structure SyncEngine {κ δ ι : Type u} (query : ι → Query κ δ) where
  store : LocalDocuments κ δ
  queryViewsByQuery : AList fun i => QueryView (query i)
  queriesByTarget : AList fun _ : ℕ => List ι
  limbo : LimboResolutions κ
  emitted : (i : ι) → List (Option (ViewSnapshot (query i)))

namespace SyncEngine

variable {κ δ ι : Type u} {query : ι → Query κ δ} [LinearOrder κ] [DecidableEq ι]

/-- Nothing is listened to. -/
def start (query : ι → Query κ δ) (store : LocalDocuments κ δ)
    (maxConcurrentLimboResolutions : ℕ) : SyncEngine query where
  store := store
  queryViewsByQuery := ∅
  queriesByTarget := ∅
  limbo := LimboResolutions.start κ maxConcurrentLimboResolutions
  emitted _ := []

/-- The part of the loops over all views after the changes of a view are applied: the documents in
limbo are tracked, and a snapshot is handed over if there is one. -/
def publish (e : SyncEngine query) (i : ι) (queryView : QueryView (query i))
    (viewChange : View (query i) × Option (ViewSnapshot (query i)) ×
      List (LimboDocumentChange κ)) : Except String (SyncEngine query) := do
  let (view, snapshot, limboChanges) := viewChange
  let limbo ← e.limbo.updateTrackedLimboDocuments limboChanges queryView.targetId
  return { e with
    queryViewsByQuery := e.queryViewsByQuery.insert i { queryView with view := view }
    limbo := limbo
    emitted := Function.update e.emitted i (e.emitted i ++ snapshot.toList.map some) }

/-- The body of the loop of `HandleOnlineStateChange`. -/
def applyOnlineState [DecidableEq δ] (onlineState : OnlineState) (e : SyncEngine query) (i : ι) :
    Except String (SyncEngine query) :=
  match e.queryViewsByQuery.lookup i with
  | none => return e
  | some queryView => do
    let (view, snapshot, limboChanges) ← queryView.view.applyOnlineStateChange onlineState
    hardAssert limboChanges.isEmpty "OnlineState should not affect limbo documents."
    e.publish i queryView (view, snapshot, limboChanges)

variable [DecidableEq δ]

/-- The body of the loop of `EmitNewSnapshotsAndNotifyLocalStore`. -/
def emitNewSnapshot (changes : List (κ × MaybeDocument κ δ))
    (results : ι → List (κ × MaybeDocument κ δ)) (targetChanges : ℕ → Option (TargetChange κ))
    (e : SyncEngine query) (i : ι) : Except String (SyncEngine query) :=
  match e.queryViewsByQuery.lookup i with
  | none => return e
  | some queryView => do
    let viewDocChanges ← computeViewChanges queryView.view changes (results i)
    let viewChange ← queryView.view.applyChanges viewDocChanges (targetChanges queryView.targetId)
    e.publish i queryView viewChange

/-- `EmitNewSnapshotsAndNotifyLocalStore` after the local store has changed, over the views in some
order. -/
def emitNewSnapshots (e : SyncEngine query) (order : List ι) (store : LocalDocuments κ δ)
    (changes : List (κ × MaybeDocument κ δ)) (results : ι → List (κ × MaybeDocument κ δ))
    (targetChanges : ℕ → Option (TargetChange κ)) : Except String (SyncEngine query) :=
  order.foldlM (emitNewSnapshot changes results targetChanges) { e with store := store }

/-- `HandleOnlineStateChange`, over the views in some order. -/
def handleOnlineStateChange (e : SyncEngine query) (order : List ι) (onlineState : OnlineState) :
    Except String (SyncEngine query) :=
  order.foldlM (applyOnlineState onlineState) e

/-- The sync state of the first query for a target, if there is one. -/
def currentSyncState (e : SyncEngine query) (target : ℕ) : Option Bool :=
  (e.queriesByTarget.lookup target).bind fun queries =>
    queries.head?.bind fun mirrorQuery =>
      (e.queryViewsByQuery.lookup mirrorQuery).map fun queryView =>
        queryView.view.syncState = .synced

/-- `Listen(query)`, with the target that the local store allocates, what it returns for the query,
and the remote keys. -/
def listen (e : SyncEngine query) (i : ι) (target : ℕ) (results : List (κ × MaybeDocument κ δ))
    (remoteKeys : DocumentKeySet κ) : Except String (SyncEngine query) := do
  hardAssert (i ∉ e.queryViewsByQuery) "We already listen to query"
  let (view, snapshot, limboChanges) ←
    QueryClient.initializeView (query i) results remoteKeys (e.currentSyncState target)
  let limbo ← e.limbo.updateTrackedLimboDocuments limboChanges target
  hardAssert snapshot.isSome
    "ApplyChanges to documents for new view should always return a snapshot"
  return { e with
    queryViewsByQuery := e.queryViewsByQuery.insert i ⟨target, view⟩
    queriesByTarget := e.queriesByTarget.insert target
      ((e.queriesByTarget.lookup target).getD [] ++ [i])
    limbo := limbo.listen target .listen
    emitted := Function.update e.emitted i (snapshot.toList.map some) }

omit [DecidableEq δ] in
/-- `StopListening(query)`. -/
def stopListening (e : SyncEngine query) (i : ι) : Except String (SyncEngine query) :=
  match e.queryViewsByQuery.lookup i with
  | none => hardFail "Trying to stop listening to a query not found"
  | some queryView => do
    let target := queryView.targetId
    let queries := ((e.queriesByTarget.lookup target).getD []).filter (· ≠ i)
    let e := { e with queryViewsByQuery := e.queryViewsByQuery.erase i }
    if queries.isEmpty then
      let limbo ← e.limbo.stopListening target
      let limbo ← limbo.removeAndCleanupTarget target
      return { e with queriesByTarget := e.queriesByTarget.erase target, limbo := limbo }
    else return { e with queriesByTarget := e.queriesByTarget.insert target queries }

omit [DecidableEq δ] in
/-- The loop of `RemoveAndCleanupTarget` after an error: the queries of the target end with it. -/
def failQueries (e : SyncEngine query) (queries : List ι) : SyncEngine query where
  store := e.store
  queryViewsByQuery := queries.foldl (fun views i => views.erase i) e.queryViewsByQuery
  queriesByTarget := e.queriesByTarget
  limbo := e.limbo
  emitted i := if i ∈ queries then e.emitted i ++ [none] else e.emitted i

/-- `RemoteStore::ProcessTargetError` for one target, and `HandleRejectedListen`: the queries of
the target end, or the document that was looked up is taken out of the local store, which then
changes. -/
def processTargetError (e : SyncEngine query) (target : ℕ) (order : List ι)
    (store : LocalDocuments κ δ) (changes : List (κ × MaybeDocument κ δ))
    (results : ι → List (κ × MaybeDocument κ δ)) : Except String (SyncEngine query) :=
  if target ∈ e.limbo.listenTargets then do
    let limbo ← e.limbo.processTargetError target
    if target ∈ e.limbo.activeLimboResolutionsByTarget then
      emitNewSnapshots { e with limbo := limbo } order store changes results fun _ => none
    else
      match e.queriesByTarget.lookup target with
      | none => hardFail "queries_by_target_.at(target_id)"
      | some queries => return { e.failQueries queries with
          queriesByTarget := e.queriesByTarget.erase target
          limbo := limbo }
  else return e

/-! ## Runs -/

/-- What can happen. -/
inductive Event (κ δ ι : Type u)
  | listen (i : ι) (target : ℕ) (results : List (κ × MaybeDocument κ δ))
      (remoteKeys : DocumentKeySet κ)
  | stopListening (i : ι)
  | emitNewSnapshots (order : List ι) (store : LocalDocuments κ δ)
      (changes : List (κ × MaybeDocument κ δ)) (results : ι → List (κ × MaybeDocument κ δ))
      (targetChanges : ℕ → Option (TargetChange κ))
  | handleOnlineStateChange (order : List ι) (onlineState : OnlineState)
  | processTargetError (target : ℕ) (order : List ι) (store : LocalDocuments κ δ)
      (changes : List (κ × MaybeDocument κ δ)) (results : ι → List (κ × MaybeDocument κ δ))

/-- The code that runs then. -/
def next (e : SyncEngine query) : Event κ δ ι → Except String (SyncEngine query)
  | .listen i target results remoteKeys => e.listen i target results remoteKeys
  | .stopListening i => e.stopListening i
  | .emitNewSnapshots order store changes results targetChanges =>
    e.emitNewSnapshots order store changes results targetChanges
  | .handleOnlineStateChange order onlineState => e.handleOnlineStateChange order onlineState
  | .processTargetError target order store changes results =>
    e.processTargetError target order store changes results

omit [DecidableEq δ] in
/-- What the local store and the server promise of an event: a query that is not listened to yet
gets a target of its own, with an even id, and what a new view needs; the views are gone through in
some order; the changes lead to the new state of the store, and the results, where a limit may ask
for them, are those of the queries there; the server does not modify documents that it has not
reported. -/
def Event.Fits (e : SyncEngine query) : Event κ δ ι → Prop
  | .listen i target results _ =>
    i ∉ e.queryViewsByQuery ∧ target ∉ e.queriesByTarget ∧ target % 2 = 0 ∧
      Answers (query i) e.store results
  | .stopListening i => i ∈ e.queryViewsByQuery
  | .emitNewSnapshots order store changes results targetChanges =>
    order.Perm e.queryViewsByQuery.keys ∧ e.store.Covers store changes ∧
      (∀ i ∈ e.queryViewsByQuery, (query i).limitType ≠ .none →
        ExecuteQuery (query i) store (results i)) ∧
      ∀ i queryView, e.queryViewsByQuery.lookup i = some queryView →
        TargetChange.Fits (targetChanges queryView.targetId) queryView.view
  | .handleOnlineStateChange order _ => order.Perm e.queryViewsByQuery.keys
  | .processTargetError target order store changes results =>
    target ∈ e.limbo.activeLimboResolutionsByTarget →
      order.Perm e.queryViewsByQuery.keys ∧ e.store.Covers store changes ∧
        ∀ i ∈ e.queryViewsByQuery, (query i).limitType ≠ .none →
          ExecuteQuery (query i) store (results i)

omit [DecidableEq δ] in
/-- The state of the local store after an event. -/
def Event.storeAfter (e : SyncEngine query) : Event κ δ ι → LocalDocuments κ δ
  | .listen _ _ _ _ => e.store
  | .stopListening _ => e.store
  | .emitNewSnapshots _ store _ _ _ => store
  | .handleOnlineStateChange _ _ => e.store
  | .processTargetError target _ store _ _ =>
    if target ∈ e.limbo.activeLimboResolutionsByTarget then store else e.store

/-! ## What holds of all queries -/

omit [DecidableEq ι] [DecidableEq δ] in
/-- What the changes for a target do to the references. -/
lemma mem_foldl_applyChange (target : ℕ) (refs : ReferenceSet κ)
    {changes : List (LimboDocumentChange κ)} (hnodup : changes.Nodup) (k : κ) :
    (∀ t ≠ target, ((k, t) ∈ changes.foldl (LimboResolutions.applyChange target) refs ↔
      (k, t) ∈ refs)) ∧
    (.removed k ∉ changes → ((k, target) ∈
      changes.foldl (LimboResolutions.applyChange target) refs ↔
        (k, target) ∈ refs ∨ .added k ∈ changes)) ∧
    (.added k ∉ changes → ((k, target) ∈
      changes.foldl (LimboResolutions.applyChange target) refs ↔
        (k, target) ∈ refs ∧ .removed k ∉ changes)) := by
  induction changes generalizing refs with
  | nil => simp
  | cons change changes ih =>
    obtain ⟨hother, hadded, hremoved⟩ :=
      ih (LimboResolutions.applyChange target refs change) (List.nodup_cons.mp hnodup).2
    rw [List.foldl_cons]
    cases change with
    | added key =>
      refine ⟨fun t ht => ?_, fun h => ?_, fun h => ?_⟩
      · rw [hother t ht]
        simp [LimboResolutions.applyChange, ReferenceSet.addReference, ht]
      · rw [hadded fun hmem => h (List.mem_cons_of_mem _ hmem)]
        simp only [LimboResolutions.applyChange, ReferenceSet.addReference, Finset.mem_insert,
          Prod.mk.injEq, and_true, List.mem_cons, LimboDocumentChange.added.injEq]
        tauto
      · have hne : k ≠ key := fun heq => h (heq ▸ List.mem_cons_self)
        rw [hremoved fun hmem => h (List.mem_cons_of_mem _ hmem)]
        simp [LimboResolutions.applyChange, ReferenceSet.addReference, hne]
    | removed key =>
      refine ⟨fun t ht => ?_, fun h => ?_, fun h => ?_⟩
      · rw [hother t ht]
        simp [LimboResolutions.applyChange, ReferenceSet.removeReference, ht]
      · have hne : k ≠ key := fun heq => h (heq ▸ List.mem_cons_self)
        rw [hadded fun hmem => h (List.mem_cons_of_mem _ hmem)]
        simp [LimboResolutions.applyChange, ReferenceSet.removeReference, hne]
      · rw [hremoved fun hmem => h (List.mem_cons_of_mem _ hmem)]
        simp only [LimboResolutions.applyChange, ReferenceSet.removeReference, Finset.mem_erase,
          ne_eq, Prod.mk.injEq, and_true, List.mem_cons, LimboDocumentChange.removed.injEq]
        tauto

omit [DecidableEq ι] [DecidableEq δ] in
/-- **The references of a target are the documents in limbo of its view**, also after changes are
applied to the view. -/
lemma mem_refs_of_applied {q : Query κ δ} {view view' : View q} {d : ViewDocumentChanges q}
    {snapshot : Option (ViewSnapshot q)} {limboChanges : List (LimboDocumentChange κ)}
    (happlied : view.Applied d view' snapshot limboChanges) {refs : ReferenceSet κ} {target : ℕ}
    (h : ∀ k, (k, target) ∈ refs ↔ k ∈ view.limboDocuments) (k : κ) :
    (k, target) ∈ limboChanges.foldl (LimboResolutions.applyChange target) refs ↔
      k ∈ view'.limboDocuments := by
  obtain ⟨-, hadded, hremoved⟩ :=
    mem_foldl_applyChange target refs happlied.limboNodup k
  have hin := happlied.limboAdded k
  have hout := happlied.limboRemoved k
  by_cases hmem : k ∈ view'.limboDocuments
  · rw [hadded (by rw [hout]; exact fun h => h.2 hmem), h, hin]
    tauto
  · rw [hremoved (by rw [hin]; exact fun h => hmem h.1), h, hout]
    tauto

omit [DecidableEq ι] [DecidableEq δ] in
/-- What holds of the view of a query: it is up to date with a state of the local store, and what
was handed over leads to its documents. -/
structure Shows {q : Query κ δ} (store : LocalDocuments κ δ) (view : View q)
    (log : List (Option (ViewSnapshot q))) : Prop where
  coherent : view.Coherent
  upToDate : UpToDate q store view.documentSet
  inSync : view.InSync
  feed : Feed log view.documentSet.data

/-- The invariant of the sync engine, where the views may be up to date with different states of
the local store: every query has a target of its own, the remote store listens to these targets,
and the references of a target are the documents in limbo of its view. -/
structure Consistent (e : SyncEngine query) (storeOf : ι → LocalDocuments κ δ) : Prop where
  resting : e.limbo.Resting
  shows : ∀ i queryView, e.queryViewsByQuery.lookup i = some queryView →
    Shows (storeOf i) queryView.view (e.emitted i)
  limbo : ∀ i queryView, e.queryViewsByQuery.lookup i = some queryView →
    ∀ k, (k, queryView.targetId) ∈ e.limbo.limboDocumentRefs ↔
      k ∈ queryView.view.limboDocuments
  target : ∀ i queryView, e.queryViewsByQuery.lookup i = some queryView →
    e.queriesByTarget.lookup queryView.targetId = some [i]
  queries : ∀ t ∈ e.queriesByTarget, ∃ i queryView,
    e.queryViewsByQuery.lookup i = some queryView ∧ queryView.targetId = t
  listening : ∀ t, e.limbo.listenTargets.lookup t = some .listen ↔ t ∈ e.queriesByTarget
  references : ∀ k t, (k, t) ∈ e.limbo.limboDocumentRefs → t ∈ e.queriesByTarget

variable {e : SyncEngine query} {storeOf : ι → LocalDocuments κ δ}

omit [DecidableEq δ] in
/-- Different queries have different targets. -/
lemma Consistent.target_ne (h : Consistent e storeOf) {i j : ι} {qi : QueryView (query i)}
    {qj : QueryView (query j)} (hi : e.queryViewsByQuery.lookup i = some qi)
    (hj : e.queryViewsByQuery.lookup j = some qj) (hne : j ≠ i) : qj.targetId ≠ qi.targetId := by
  intro heq
  have htarget := h.target j qj hj
  rw [heq, h.target i qi hi] at htarget
  exact hne (List.cons.inj (Option.some.inj htarget)).1.symm

omit [DecidableEq δ] in
/-- Only the states of the local store matter that views are up to date with. -/
lemma Consistent.congr (h : Consistent e storeOf) {storeOf' : ι → LocalDocuments κ δ}
    (hsame : ∀ i ∈ e.queryViewsByQuery, storeOf i = storeOf' i) : Consistent e storeOf' where
  resting := h.resting
  shows i queryView hi := hsame i (mem_alist_iff.mpr ⟨queryView, hi⟩) ▸ h.shows i queryView hi
  limbo := h.limbo
  target := h.target
  queries := h.queries
  listening := h.listening
  references := h.references

/-- What stays when a view is changed: the local store, the other views, and which queries there
are. -/
structure Keeps (e e' : SyncEngine query) (i : ι) : Prop where
  store : e'.store = e.store
  others : ∀ j ≠ i, e'.queryViewsByQuery.lookup j = e.queryViewsByQuery.lookup j
  mem : ∀ j, j ∈ e'.queryViewsByQuery ↔ j ∈ e.queryViewsByQuery

omit [DecidableEq δ] in
/-- **Changes of a view** reach the lookups of documents in limbo and the callback. -/
lemma publish_spec (h : Consistent e storeOf) {i : ι} {queryView : QueryView (query i)}
    (hi : e.queryViewsByQuery.lookup i = some queryView) {d : ViewDocumentChanges (query i)}
    {view' : View (query i)} {snapshot : Option (ViewSnapshot (query i))}
    {limboChanges : List (LimboDocumentChange κ)}
    (happlied : queryView.view.Applied d view' snapshot limboChanges)
    (hdraft : d.Draft queryView.view.documentSet) {store : LocalDocuments κ δ}
    (hdate : UpToDate (query i) store d.documentSet) :
    ∃ e', e.publish i queryView (view', snapshot, limboChanges) = .ok e' ∧
      Consistent e' (Function.update storeOf i store) ∧ Keeps e e' i := by
  obtain ⟨limbo, hlimbo, hrest, hframe⟩ := LimboResolutions.updateTrackedLimboDocuments_spec
    h.resting limboChanges queryView.targetId
  have hlookup : ∀ j qj, (e.queryViewsByQuery.insert i
      { queryView with view := view' }).lookup j = some qj →
      (∃ hij : j = i, qj = hij ▸ ({ queryView with view := view' } : QueryView (query i))) ∨
        j ≠ i ∧ e.queryViewsByQuery.lookup j = some qj := by
    intro j qj hj
    by_cases hij : j = i
    · subst hij
      rw [AList.lookup_insert] at hj
      exact Or.inl ⟨rfl, (Option.some.inj hj).symm⟩
    · rw [AList.lookup_insert_ne hij] at hj
      exact Or.inr ⟨hij, hj⟩
  have hrefs : ∀ k t, t ≠ queryView.targetId →
      ((k, t) ∈ limbo.limboDocumentRefs ↔ (k, t) ∈ e.limbo.limboDocumentRefs) := by
    intro k t ht
    rw [hframe.refs]
    exact (mem_foldl_applyChange _ _ happlied.limboNodup k).1 t ht
  have hfeed : Feed (e.emitted i ++ snapshot.toList.map some) view'.documentSet.data := by
    cases hs : snapshot with
    | some s =>
      have hsnapshot := happlied.snapshot s hs
      have hold : Feed (e.emitted i) s.oldDocuments.data := by
        rw [hsnapshot]
        exact (h.shows i queryView hi).feed
      have hnew : s.documents = view'.documentSet := by
        rw [hsnapshot]
        exact happlied.documents.symm
      rw [← hnew]
      exact Feed.snapshot s hold
        (hdraft.describes (by rw [hsnapshot]) (by rw [hsnapshot]) (by rw [hsnapshot]))
    | none =>
      have hsame := hdraft.eq_of_nil (happlied.quiet.mp hs).1
      rw [happlied.documents, hsame]
      simpa using (h.shows i queryView hi).feed
  refine ⟨{ e with
    queryViewsByQuery := e.queryViewsByQuery.insert i { queryView with view := view' }
    limbo := limbo
    emitted := Function.update e.emitted i (e.emitted i ++ snapshot.toList.map some) }, ?_,
    ⟨hrest, fun j qj hj => ?_, fun j qj hj k => ?_, fun j qj hj => ?_, fun t ht => ?_,
      fun t => (hframe.queries t).trans (h.listening t), fun k t hkt => ?_⟩,
    rfl, fun j hj => AList.lookup_insert_ne hj, fun j => ?_⟩
  · unfold publish
    simp only [hlimbo]
    rfl
  · rcases hlookup j qj hj with ⟨rfl, rfl⟩ | ⟨hne, hj⟩
    · simp only [Function.update_self]
      exact ⟨QueryClient.coherent_of_applied happlied hdraft, happlied.documents ▸ hdate,
        happlied.inSync, hfeed⟩
    · simp only [Function.update_of_ne hne]
      exact h.shows j qj hj
  · rcases hlookup j qj hj with ⟨rfl, rfl⟩ | ⟨hne, hj⟩
    · rw [hframe.refs]
      exact mem_refs_of_applied happlied (h.limbo j queryView hi) k
    · rw [hrefs k _ (h.target_ne hi hj hne)]
      exact h.limbo j qj hj k
  · rcases hlookup j qj hj with ⟨rfl, rfl⟩ | ⟨hne, hj⟩
    · exact h.target j queryView hi
    · exact h.target j qj hj
  · obtain ⟨j, qj, hj, rfl⟩ := h.queries t ht
    by_cases hij : j = i
    · subst hij
      rw [hi] at hj
      cases hj
      exact ⟨j, _, AList.lookup_insert _, rfl⟩
    · exact ⟨j, qj, (AList.lookup_insert_ne hij).trans hj, rfl⟩
  · by_cases ht : t = queryView.targetId
    · subst ht
      exact mem_alist_iff.mpr ⟨_, h.target i queryView hi⟩
    · exact h.references k t ((hrefs k t ht).mp hkt)
  · rw [AList.mem_insert]
    refine or_iff_right_of_imp ?_
    rintro rfl
    exact mem_alist_iff.mpr ⟨queryView, hi⟩

omit [DecidableEq δ] in
/-- **A loop over all views** that brings each of them up to date with a state of the local store,
whatever the order. -/
lemma forEachView_spec (h : Consistent e storeOf) {order : List ι}
    (horder : order.Perm e.queryViewsByQuery.keys) (store : LocalDocuments κ δ)
    (f : SyncEngine query → ι → Except String (SyncEngine query))
    (hf : ∀ e₁ storeOf₁ i queryView, Consistent e₁ storeOf₁ →
      storeOf₁ i = storeOf i → e₁.queryViewsByQuery.lookup i = some queryView →
      e.queryViewsByQuery.lookup i = some queryView →
      ∃ e', f e₁ i = .ok e' ∧ Consistent e' (Function.update storeOf₁ i store) ∧ Keeps e₁ e' i) :
    ∃ e', order.foldlM f e = .ok e' ∧ Consistent e' (fun _ => store) ∧ e'.store = e.store := by
  obtain ⟨e', he', hconsistent, hstore, -, hmem⟩ := foldlM_history (f := f) (l := order) (b := e)
    (P := fun pre e₁ => Consistent e₁ (fun i => if i ∈ pre then store else storeOf i) ∧
      e₁.store = e.store ∧
      (∀ i ∉ pre, e₁.queryViewsByQuery.lookup i = e.queryViewsByQuery.lookup i) ∧
      ∀ i, i ∈ e₁.queryViewsByQuery ↔ i ∈ e.queryViewsByQuery)
    ⟨by simpa using h, rfl, fun _ _ => rfl, fun _ => Iff.rfl⟩ (by
      rintro pre i post e₁ heq ⟨hconsistent, hstore, hsame, hmem⟩
      have hnodup : order.Nodup := horder.nodup_iff.mpr e.queryViewsByQuery.keys_nodup
      have hi : i ∉ pre := by
        rw [heq, List.nodup_append] at hnodup
        exact fun hmem => hnodup.2.2 i hmem i List.mem_cons_self rfl
      have hin : i ∈ e.queryViewsByQuery := by
        rw [AList.mem_keys, ← horder.mem_iff, heq]
        simp
      obtain ⟨queryView, hview⟩ := mem_alist_iff.mp hin
      obtain ⟨e', he', hconsistent', hkeeps⟩ := hf e₁ _ i queryView hconsistent (if_neg hi)
        ((hsame i hi).trans hview) hview
      refine ⟨e', he', hconsistent'.congr fun j _ => ?_, hkeeps.store.trans hstore, fun j hj => ?_,
        fun j => (hkeeps.mem j).trans (hmem j)⟩
      · by_cases hji : j = i
        · subst hji
          simp
        · simp [hji]
      · rw [List.mem_append, List.mem_singleton, not_or] at hj
        exact (hkeeps.others j hj.2).trans (hsame j hj.1))
  refine ⟨e', he', hconsistent.congr fun i hi => if_pos ?_, hstore⟩
  rwa [horder.mem_iff, ← AList.mem_keys, ← hmem i]

/-- **A change of the local store** reaches all views. -/
lemma emitNewSnapshots_spec (h : Consistent e fun _ => e.store) {order : List ι}
    {store : LocalDocuments κ δ} {changes : List (κ × MaybeDocument κ δ)}
    {results : ι → List (κ × MaybeDocument κ δ)} (targetChanges : ℕ → Option (TargetChange κ))
    (horder : order.Perm e.queryViewsByQuery.keys) (hcovers : e.store.Covers store changes)
    (hresults : ∀ i ∈ e.queryViewsByQuery, (query i).limitType ≠ .none →
      ExecuteQuery (query i) store (results i))
    (htargets : ∀ i queryView, e.queryViewsByQuery.lookup i = some queryView →
      TargetChange.Fits (targetChanges queryView.targetId) queryView.view) :
    ∃ e', e.emitNewSnapshots order store changes results targetChanges = .ok e' ∧
      (Consistent e' fun _ => e'.store) ∧ e'.store = store := by
  have hstart : Consistent { e with store := store } fun _ => e.store :=
    ⟨h.resting, h.shows, h.limbo, h.target, h.queries, h.listening, h.references⟩
  obtain ⟨e', he', hconsistent, hstore⟩ := forEachView_spec hstart horder store
    (emitNewSnapshot changes results targetChanges) (by
      intro e₁ storeOf₁ i queryView h₁ hstore hview₁ hview
      have hshows := h₁.shows i queryView hview₁
      obtain ⟨d, hd, hrefill, hdraft, hdate, -⟩ := computeViewChanges_spec hshows.coherent
        hshows.upToDate (hstore ▸ hcovers) (hresults i (mem_alist_iff.mpr ⟨queryView, hview⟩))
      obtain ⟨view', snapshot, limboChanges, happly, happlied, -⟩ :=
        queryView.view.applyChanges_spec hrefill (htargets i queryView hview)
      obtain ⟨e', he', hpublished⟩ := publish_spec h₁ hview₁ happlied hdraft hdate
      refine ⟨e', ?_, hpublished⟩
      simp only [emitNewSnapshot, hview₁, hd]
      show (queryView.view.applyChanges d _ >>= fun viewChange =>
        e₁.publish i queryView viewChange) = _
      rw [happly]
      exact he')
  refine ⟨e', he', ?_, hstore⟩
  rw [hstore]
  exact hconsistent

/-- **A change of the connection** reaches all views. -/
lemma handleOnlineStateChange_spec (h : Consistent e fun _ => e.store) {order : List ι}
    (horder : order.Perm e.queryViewsByQuery.keys) (onlineState : OnlineState) :
    ∃ e', e.handleOnlineStateChange order onlineState = .ok e' ∧
      (Consistent e' fun _ => e'.store) ∧ e'.store = e.store := by
  obtain ⟨e', he', hconsistent, hstore⟩ := forEachView_spec h horder e.store
    (applyOnlineState onlineState) (by
      intro e₁ storeOf₁ i queryView h₁ hstore hview₁ _
      have hshows := h₁.shows i queryView hview₁
      obtain ⟨d, view', snapshot, happly, happlied, hdraft, hdocuments, -⟩ :=
        QueryClient.applyOnlineStateChange_spec hshows.coherent hshows.inSync onlineState
      have hdate : UpToDate (query i) e.store d.documentSet := by
        rw [hdocuments]
        exact hstore ▸ hshows.upToDate
      obtain ⟨e', he', hpublished⟩ := publish_spec h₁ hview₁ happlied hdraft hdate
      refine ⟨e', ?_, hpublished⟩
      simp only [applyOnlineState, hview₁, happly]
      exact he')
  refine ⟨e', he', ?_, hstore⟩
  rw [hstore]
  exact hconsistent

/-- **A query is listened to**: its view comes from the local store, no document is in limbo that
was not before, and the remote store listens to its target. -/
lemma listen_spec (h : Consistent e fun _ => e.store) {i : ι} {target : ℕ}
    {results : List (κ × MaybeDocument κ δ)} (hi : i ∉ e.queryViewsByQuery)
    (htarget : target ∉ e.queriesByTarget) (heven : target % 2 = 0)
    (hresults : Answers (query i) e.store results) (remoteKeys : DocumentKeySet κ) :
    ∃ e', e.listen i target results remoteKeys = .ok e' ∧ (Consistent e' fun _ => e'.store) ∧
      e'.store = e.store := by
  have hfirst : e.currentSyncState target = none := by
    rw [currentSyncState, AList.lookup_eq_none.mpr htarget]
    rfl
  obtain ⟨view, s, d, limboChanges, hview, happlied, hmirrors, hcoherent, hdate⟩ :=
    QueryClient.initializeView_spec hresults remoteKeys none
  obtain ⟨limbo, hlimbo, hrest, hframe⟩ :=
    LimboResolutions.updateTrackedLimboDocuments_spec h.resting limboChanges target
  have hnew : target ∉ limbo.listenTargets := by
    intro hmem
    obtain ⟨data, hdata⟩ := mem_alist_iff.mp hmem
    cases data with
    | listen => exact htarget ((h.listening target).mp ((hframe.queries target).mp hdata))
    | limboResolution k =>
      have hodd := (hrest.inv.generated target k ((hrest.inv.listening target k).mp hdata)).1
      omega
  have hrefs : ∀ k t, t ≠ target →
      ((k, t) ∈ limbo.limboDocumentRefs ↔ (k, t) ∈ e.limbo.limboDocumentRefs) := by
    intro k t ht
    rw [hframe.refs]
    exact (mem_foldl_applyChange _ _ happlied.limboNodup k).1 t ht
  have hlookup : ∀ j qj, (e.queryViewsByQuery.insert i ⟨target, view⟩).lookup j = some qj →
      (∃ hij : j = i, qj = hij ▸ (⟨target, view⟩ : QueryView (query i))) ∨
        j ≠ i ∧ e.queryViewsByQuery.lookup j = some qj := by
    intro j qj hj
    by_cases hij : j = i
    · subst hij
      rw [AList.lookup_insert] at hj
      exact Or.inl ⟨rfl, (Option.some.inj hj).symm⟩
    · rw [AList.lookup_insert_ne hij] at hj
      exact Or.inr ⟨hij, hj⟩
  have hothers : ∀ j qj, e.queryViewsByQuery.lookup j = some qj → qj.targetId ≠ target := by
    rintro j qj hj rfl
    exact htarget (mem_alist_iff.mpr ⟨_, h.target j qj hj⟩)
  have hold : s.oldDocuments = SortedSet.empty (query i).order := by
    rw [happlied.snapshot s rfl]
    rfl
  refine ⟨{ e with
    queryViewsByQuery := e.queryViewsByQuery.insert i ⟨target, view⟩
    queriesByTarget := e.queriesByTarget.insert target
      ((e.queriesByTarget.lookup target).getD [] ++ [i])
    limbo := limbo.listen target .listen
    emitted := Function.update e.emitted i [some s] }, ?_,
    ⟨⟨hrest.inv.listen heven, hrest.busy⟩, fun j qj hj => ?_, fun j qj hj k => ?_,
      fun j qj hj => ?_, fun t ht => ?_, fun t => ?_, fun k t hkt => ?_⟩, rfl⟩
  · unfold listen
    simp only [hi, not_false_eq_true, decide_true, hardAssert_true, hfirst]
    show (QueryClient.initializeView (query i) results remoteKeys none >>= _) = _
    rw [hview]
    show (e.limbo.updateTrackedLimboDocuments limboChanges target >>= _) = _
    rw [hlimbo]
    rfl
  · rcases hlookup j qj hj with ⟨rfl, rfl⟩ | ⟨hne, hj⟩
    · simp only [Function.update_self]
      refine ⟨hcoherent, hdate, happlied.inSync, ?_⟩
      have hstart : Feed (q := query j) [] s.oldDocuments.data := by
        rw [hold]
        exact Feed.start
      rw [← hmirrors.documents]
      exact Feed.snapshot s hstart hmirrors.describes
    · simp only [Function.update_of_ne hne]
      exact h.shows j qj hj
  · rcases hlookup j qj hj with ⟨rfl, rfl⟩ | ⟨hne, hj⟩
    · show (k, target) ∈ limbo.limboDocumentRefs ↔ _
      rw [hframe.refs]
      refine mem_refs_of_applied happlied (fun k => ?_) k
      exact iff_of_false (fun hk => htarget (h.references k target hk)) (Finset.notMem_empty k)
    · show (k, qj.targetId) ∈ limbo.limboDocumentRefs ↔ _
      rw [hrefs k _ (hothers j qj hj)]
      exact h.limbo j qj hj k
  · show (e.queriesByTarget.insert target _).lookup _ = _
    rcases hlookup j qj hj with ⟨rfl, rfl⟩ | ⟨hne, hj⟩
    · rw [AList.lookup_insert, AList.lookup_eq_none.mpr htarget]
      rfl
    · rw [AList.lookup_insert_ne (hothers j qj hj)]
      exact h.target j qj hj
  · rcases (AList.mem_insert _).mp ht with rfl | ht
    · exact ⟨i, _, AList.lookup_insert _, rfl⟩
    · obtain ⟨j, qj, hj, rfl⟩ := h.queries t ht
      have hne : j ≠ i := by
        rintro rfl
        exact hi (mem_alist_iff.mpr ⟨qj, hj⟩)
      exact ⟨j, qj, (AList.lookup_insert_ne hne).trans hj, rfl⟩
  · show (emplace limbo.listenTargets target .listen).lookup t = _ ↔ _
    rw [lookup_emplace hnew, AList.mem_insert]
    split_ifs with ht
    · simp [ht]
    · rw [or_iff_right ht]
      exact (hframe.queries t).trans (h.listening t)
  · refine (AList.mem_insert _).mpr ?_
    by_cases ht : t = target
    · exact Or.inl ht
    · exact Or.inr (h.references k t ((hrefs k t ht).mp hkt))

omit [DecidableEq δ] in
/-- **A query ends**, and with it its view, its target and the references of the target. -/
lemma Consistent.remove (h : Consistent e storeOf) {i : ι} {queryView : QueryView (query i)}
    (hi : e.queryViewsByQuery.lookup i = some queryView) {limbo : LimboResolutions κ}
    (hrest : limbo.Resting) (hframe : LimboResolutions.Frame { e.limbo with
      limboDocumentRefs := e.limbo.limboDocumentRefs.removeReferences queryView.targetId
      listenTargets := e.limbo.listenTargets.erase queryView.targetId } limbo)
    (emitted : (i : ι) → List (Option (ViewSnapshot (query i))))
    (hemitted : ∀ j ≠ i, emitted j = e.emitted j) :
    Consistent { e with
      queryViewsByQuery := e.queryViewsByQuery.erase i
      queriesByTarget := e.queriesByTarget.erase queryView.targetId
      limbo := limbo
      emitted := emitted } storeOf := by
  have hlookup : ∀ j qj, (e.queryViewsByQuery.erase i).lookup j = some qj →
      j ≠ i ∧ e.queryViewsByQuery.lookup j = some qj := by
    intro j qj hj
    by_cases hij : j = i
    · subst hij
      rw [AList.lookup_erase] at hj
      cases hj
    · rw [AList.lookup_erase_ne hij] at hj
      exact ⟨hij, hj⟩
  have hrefs : ∀ k t, (k, t) ∈ limbo.limboDocumentRefs ↔
      (k, t) ∈ e.limbo.limboDocumentRefs ∧ t ≠ queryView.targetId := by
    intro k t
    rw [hframe.refs]
    exact Finset.mem_filter
  refine ⟨hrest, fun j qj hj => ?_, fun j qj hj k => ?_, fun j qj hj => ?_, fun t ht => ?_,
    fun t => ?_, fun k t hkt => ?_⟩
  · obtain ⟨hne, hj⟩ := hlookup j qj hj
    show Shows (storeOf j) qj.view (emitted j)
    rw [hemitted j hne]
    exact h.shows j qj hj
  · obtain ⟨hne, hj⟩ := hlookup j qj hj
    rw [hrefs, ← h.limbo j qj hj k]
    exact and_iff_left (h.target_ne hi hj hne)
  · obtain ⟨hne, hj⟩ := hlookup j qj hj
    show (e.queriesByTarget.erase queryView.targetId).lookup _ = _
    rw [AList.lookup_erase_ne (h.target_ne hi hj hne)]
    exact h.target j qj hj
  · obtain ⟨hne, ht⟩ := AList.mem_erase.mp ht
    obtain ⟨j, qj, hj, rfl⟩ := h.queries t ht
    have hij : j ≠ i := by
      rintro rfl
      rw [hi] at hj
      cases hj
      exact hne rfl
    exact ⟨j, qj, (AList.lookup_erase_ne hij).trans hj, rfl⟩
  · rw [hframe.queries t]
    show (e.limbo.listenTargets.erase queryView.targetId).lookup t = _ ↔ _
    rw [lookup_erase_eq, AList.mem_erase]
    split_ifs with ht
    · simp [ht]
    · rw [and_iff_right ht]
      exact h.listening t
  · obtain ⟨hkt, hne⟩ := (hrefs k t).mp hkt
    exact AList.mem_erase.mpr ⟨hne, h.references k t hkt⟩

omit [DecidableEq δ] in
/-- The client stops to listen to a query. -/
lemma stopListening_spec (h : Consistent e storeOf) {i : ι} (hi : i ∈ e.queryViewsByQuery) :
    ∃ e', e.stopListening i = .ok e' ∧ Consistent e' storeOf ∧ e'.store = e.store := by
  obtain ⟨queryView, hview⟩ := mem_alist_iff.mp hi
  have htarget := h.target i queryView hview
  obtain ⟨limbo, hlimbo, hrest, hframe⟩ := LimboResolutions.stopListening_spec h.resting
    ((h.listening queryView.targetId).mpr (mem_alist_iff.mpr ⟨_, htarget⟩))
  refine ⟨_, ?_, h.remove hview hrest hframe e.emitted fun _ _ => rfl, rfl⟩
  have hnone : ([i].filter (· ≠ i)).isEmpty = true := by simp
  unfold stopListening
  simp only [hview, htarget, Option.getD_some, hnone, if_true]
  show (e.limbo.stopListening queryView.targetId >>= fun limbo =>
    limbo.removeAndCleanupTarget queryView.targetId >>= _) = _
  rw [← bind_assoc]
  change (e.limbo.next (.stopListening queryView.targetId) >>= _) = _
  rw [hlimbo]
  rfl

/-- **The server reports an error** for a target: the query ends, or the document that was looked
up is taken out of the local store. -/
lemma processTargetError_spec (h : Consistent e fun _ => e.store) {target : ℕ} {order : List ι}
    {store : LocalDocuments κ δ} {changes : List (κ × MaybeDocument κ δ)}
    {results : ι → List (κ × MaybeDocument κ δ)}
    (hfits : (Event.processTargetError target order store changes results).Fits e) :
    ∃ e', e.processTargetError target order store changes results = .ok e' ∧
      (Consistent e' fun _ => e'.store) ∧
      e'.store = if target ∈ e.limbo.activeLimboResolutionsByTarget then store else e.store := by
  unfold processTargetError
  cases hlisten : e.limbo.listenTargets.lookup target with
  | none =>
    refine ⟨e, by rw [if_neg (AList.lookup_eq_none.mp hlisten)]; rfl, h,
      (if_neg fun hmem => ?_).symm⟩
    obtain ⟨key, hactive⟩ := mem_alist_iff.mp hmem
    rw [(h.resting.inv.listening target key).mpr hactive] at hlisten
    cases hlisten
  | some data =>
    have hknown : target ∈ e.limbo.listenTargets := mem_alist_iff.mpr ⟨data, hlisten⟩
    rw [if_pos hknown]
    cases data with
    | limboResolution key =>
      have hactive := (h.resting.inv.listening target key).mp hlisten
      have hmem : target ∈ e.limbo.activeLimboResolutionsByTarget :=
        mem_alist_iff.mpr ⟨key, hactive⟩
      obtain ⟨horder, hcovers, hresults⟩ := hfits hmem
      obtain ⟨limbo, hlimbo, hrest, hframe⟩ :=
        LimboResolutions.processTargetError_limbo_spec h.resting hactive
      have hsame : Consistent { e with limbo := limbo } fun _ => e.store := by
        refine ⟨hrest, h.shows, fun i queryView hi k => ?_, h.target, h.queries,
          fun t => (hframe.queries t).trans (h.listening t), fun k t hkt => ?_⟩
        · rw [hframe.refs]
          exact h.limbo i queryView hi k
        · rw [hframe.refs] at hkt
          exact h.references k t hkt
      obtain ⟨e', he', hconsistent, hstore⟩ := emitNewSnapshots_spec hsame (fun _ => none)
        horder hcovers hresults fun i queryView _ change hchange => by cases hchange
      refine ⟨e', ?_, hconsistent, by rw [if_pos hmem, hstore]⟩
      rw [hlimbo]
      show (if target ∈ e.limbo.activeLimboResolutionsByTarget then _ else _) = _
      rw [if_pos hmem]
      exact he'
    | listen =>
      have hnone := h.resting.inv.lookup_eq_none hlisten
      obtain ⟨i, queryView, hview, rfl⟩ := h.queries target ((h.listening target).mp hlisten)
      have htarget := h.target i queryView hview
      obtain ⟨limbo, hlimbo, hrest, hframe⟩ :=
        LimboResolutions.processTargetError_query_spec h.resting hlisten
      refine ⟨_, ?_, h.remove hview hrest hframe (e.failQueries [i]).emitted
        fun j hj => if_neg (by simpa using hj), (if_neg (AList.lookup_eq_none.mp hnone)).symm⟩
      rw [hlimbo]
      show (if queryView.targetId ∈ e.limbo.activeLimboResolutionsByTarget then _ else _) = _
      rw [if_neg (AList.lookup_eq_none.mp hnone), htarget]
      rfl

/-- **One event** that fits can happen, and keeps the invariant. -/
lemma next_spec (h : Consistent e fun _ => e.store) {ev : Event κ δ ι} (hfits : ev.Fits e) :
    ∃ e', e.next ev = .ok e' ∧ (Consistent e' fun _ => e'.store) ∧
      e'.store = ev.storeAfter e := by
  cases ev with
  | listen i target results remoteKeys =>
    obtain ⟨hi, htarget, heven, hresults⟩ := hfits
    exact listen_spec h hi htarget heven hresults remoteKeys
  | stopListening i =>
    obtain ⟨e', he', hconsistent, hstore⟩ := stopListening_spec h hfits
    exact ⟨e', he', by rw [hstore]; exact hconsistent, hstore⟩
  | emitNewSnapshots order store changes results targetChanges =>
    obtain ⟨horder, hcovers, hresults, htargets⟩ := hfits
    exact emitNewSnapshots_spec h targetChanges horder hcovers hresults htargets
  | handleOnlineStateChange order onlineState =>
    exact handleOnlineStateChange_spec h hfits onlineState
  | processTargetError target order store changes results => exact processTargetError_spec h hfits

omit [DecidableEq δ] in
/-- At the beginning there are no queries. -/
lemma consistent_start (query : ι → Query κ δ) (store : LocalDocuments κ δ)
    (maxConcurrentLimboResolutions : ℕ) :
    Consistent (start query store maxConcurrentLimboResolutions) fun _ => store := by
  refine ⟨LimboResolutions.resting_start _, fun i queryView h => (by cases h),
    fun i queryView h => (by cases h), fun i queryView h => (by cases h), fun t h => ?_,
    fun t => ?_, fun k t h => (by cases h)⟩
  · exact absurd h (AList.notMem_empty t)
  · exact iff_of_false (fun h => (by cases h)) (AList.notMem_empty t)

end SyncEngine

end AntViewer.Firestore
