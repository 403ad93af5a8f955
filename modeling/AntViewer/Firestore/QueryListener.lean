import AntViewer.Firestore.QuerySnapshot

set_option relaxedAutoImplicit false
set_option autoImplicit false

/-!
# Listeners of a query

A listener receives the snapshots of one query. It decides when to hand on a first event, which
reports all documents as added, whatever the view has reported before; afterwards it hands on
the snapshots that change something it was asked to report, and keeps quiet about the others.

## Main definitions

* `ListenOptions`, `QueryListener` — a listener and what it was asked to report.
* `QueryListener.onViewSnapshot`, `onOnlineStateChanged` — the events it raises.
* `Feed` — a sequence of events that leads from nothing to some data, change by change.

## Main results

* `QuerySnapshot.replay_feed` — a list that is edited along a feed is the list of the documents.
* `QueryListener.onViewSnapshot_spec`, `onOnlineStateChanged_spec` — what a listener has handed on
  leads to the data of the current documents, before and after.
-/

namespace AntViewer.Firestore

open SortedSets ChangeFeed

variable {κ δ : Type*} {q : Query κ δ}

/-- `ListenOptions`. -/
structure ListenOptions where
  includeQueryMetadataChanges : Bool
  includeDocumentMetadataChanges : Bool
  waitForSyncWhenOnline : Bool

namespace ViewSnapshot

/-- `FromInitialDocuments`: every document is added. -/
def fromInitialDocuments (documents : DocumentSet q) (mutatedKeys : DocumentKeySet κ)
    (fromCache excludesMetadataChanges : Bool) : ViewSnapshot q where
  documents := documents
  oldDocuments := SortedSet.empty _
  documentChanges := documents.elements.map fun d => ⟨d, .added⟩
  mutatedKeys := mutatedKeys
  fromCache := fromCache
  syncStateChanged := true
  excludesMetadataChanges := excludesMetadataChanges

/-- `has_pending_writes()`. -/
def hasPendingWrites (s : ViewSnapshot q) : Prop := s.mutatedKeys ≠ ∅

instance [DecidableEq κ] (s : ViewSnapshot q) : Decidable s.hasPendingWrites :=
  inferInstanceAs (Decidable (_ ≠ _))

/-- The snapshot without its metadata changes. -/
def withoutMetadataChanges (s : ViewSnapshot q) : ViewSnapshot q where
  documents := s.documents
  oldDocuments := s.oldDocuments
  documentChanges := s.documentChanges.filter fun change => change.type ≠ .metadata
  mutatedKeys := s.mutatedKeys
  fromCache := s.fromCache
  syncStateChanged := s.syncStateChanged
  excludesMetadataChanges := true

end ViewSnapshot

/-- `QueryListener`. -/
structure QueryListener {κ δ : Type*} (q : Query κ δ) where
  options : ListenOptions
  raisedInitialEvent : Bool
  onlineState : OnlineState
  snapshot : Option (ViewSnapshot q)

namespace QueryListener

/-- `QueryListener::Create(query, options, listener)`. -/
def create (q : Query κ δ) (options : ListenOptions) : QueryListener q where
  options := options
  raisedInitialEvent := false
  onlineState := .unknown
  snapshot := none

/-- `ShouldRaiseInitialEvent(snapshot, online_state)`, after its assertion. -/
def shouldRaiseInitialEvent (options : ListenOptions) (snapshot : ViewSnapshot q)
    (onlineState : OnlineState) : Bool :=
  -- Always raise the first event when we're synced
  if !snapshot.fromCache then true
  else
    let maybeOnline : Bool := onlineState ≠ .offline
    if options.waitForSyncWhenOnline && maybeOnline then false
    -- Raise data from cache if we have any documents or we are offline
    else !snapshot.documents.elements.isEmpty || onlineState = .offline

/-- The assertion of `ShouldRaiseInitialEvent`. -/
def assertNotRaised (listener : QueryListener q) : Except String PUnit :=
  hardAssert (!listener.raisedInitialEvent)
    "Determining whether to raise initial event, but already had first event."

/-- `ShouldRaiseEvent(snapshot)`. -/
def shouldRaiseEvent [DecidableEq κ] (listener : QueryListener q) (snapshot : ViewSnapshot q) :
    Bool :=
  if !snapshot.documentChanges.isEmpty then true
  else
    let hasPendingWritesChanged : Bool := listener.snapshot.any fun old =>
      decide old.hasPendingWrites != decide snapshot.hasPendingWrites
    if snapshot.syncStateChanged || hasPendingWritesChanged then
      listener.options.includeQueryMetadataChanges
    else false

/-- `RaiseInitialEvent(snapshot)`: the listener afterwards, and the event. -/
def raiseInitialEvent (listener : QueryListener q) (snapshot : ViewSnapshot q) :
    Except String (QueryListener q × ViewSnapshot q) := do
  hardAssert (!listener.raisedInitialEvent) "Trying to raise initial events for second time"
  return ({ listener with raisedInitialEvent := true },
    ViewSnapshot.fromInitialDocuments snapshot.documents snapshot.mutatedKeys snapshot.fromCache
      snapshot.excludesMetadataChanges)

/-- The snapshot as the listener was asked to see it. -/
def visible (listener : QueryListener q) (snapshot : ViewSnapshot q) : ViewSnapshot q :=
  if listener.options.includeDocumentMetadataChanges then snapshot
  else snapshot.withoutMetadataChanges

/-- `OnViewSnapshot(snapshot)`: the listener afterwards, and the event it raises if any. -/
def onViewSnapshot [DecidableEq κ] (listener : QueryListener q) (snapshot : ViewSnapshot q) :
    Except String (QueryListener q × Option (ViewSnapshot q)) := do
  hardAssert (!snapshot.documentChanges.isEmpty || snapshot.syncStateChanged)
    "We got a new snapshot with no changes?"
  let snapshot := listener.visible snapshot
  if !listener.raisedInitialEvent then
    listener.assertNotRaised
    if shouldRaiseInitialEvent listener.options snapshot listener.onlineState then
      let (listener, event) ← listener.raiseInitialEvent snapshot
      return ({ listener with snapshot := some snapshot }, some event)
    else return ({ listener with snapshot := some snapshot }, none)
  else if listener.shouldRaiseEvent snapshot then
    return ({ listener with snapshot := some snapshot }, some snapshot)
  else return ({ listener with snapshot := some snapshot }, none)

/-- `OnOnlineStateChanged(online_state)`: the listener afterwards, and the event if any. -/
def onOnlineStateChanged (listener : QueryListener q) (onlineState : OnlineState) :
    Except String (QueryListener q × Option (ViewSnapshot q)) := do
  let listener := { listener with onlineState := onlineState }
  match listener.snapshot with
  | none => return (listener, none)
  | some snapshot =>
    if listener.raisedInitialEvent then return (listener, none)
    else
      listener.assertNotRaised
      if shouldRaiseInitialEvent listener.options snapshot onlineState then
        let (listener, event) ← listener.raiseInitialEvent snapshot
        return (listener, some event)
      else return (listener, none)

end QueryListener

lemma QueryListener.visible_documents (listener : QueryListener q) (s : ViewSnapshot q) :
    (listener.visible s).documents = s.documents := by
  unfold visible
  split_ifs <;> rfl

lemma QueryListener.visible_oldDocuments (listener : QueryListener q) (s : ViewSnapshot q) :
    (listener.visible s).oldDocuments = s.oldDocuments := by
  unfold visible
  split_ifs <;> rfl

lemma QueryListener.visible_fromCache (listener : QueryListener q) (s : ViewSnapshot q) :
    (listener.visible s).fromCache = s.fromCache := by
  unfold visible
  split_ifs <;> rfl

/-! ## What a listener hands on -/

section Feed

variable [LinearOrder κ]

/-- A sequence of events, with an error as none, that leads from no documents to some data: each
snapshot starts from the data of the one before. -/
inductive Feed {q : Query κ δ} : List (Option (ViewSnapshot q)) → (κ → Option δ) → Prop
  | start : Feed [] fun _ => none
  | snapshot {log : List (Option (ViewSnapshot q))} (s : ViewSnapshot q)
      (h : Feed log s.oldDocuments.data) (hdescribes : s.Describes) :
      Feed (log ++ [some s]) s.documents.data
  | error {log : List (Option (ViewSnapshot q))} {data : κ → Option δ} (h : Feed log data) :
      Feed (log ++ [none]) data

/-- A first event leads from nothing to all documents. -/
lemma ViewSnapshot.fromInitialDocuments_describes (documents : DocumentSet q)
    (mutatedKeys : DocumentKeySet κ) (fromCache excludesMetadataChanges : Bool) :
    (fromInitialDocuments documents mutatedKeys fromCache excludesMetadataChanges).Describes := by
  have hmem : ∀ c ∈ documents.elements.map fun d => (⟨d, .added⟩ : DocumentViewChange κ δ),
      ∃ d ∈ documents.elements, c = ⟨d, .added⟩ := by
    intro c hc
    obtain ⟨d, hd, rfl⟩ := List.mem_map.mp hc
    exact ⟨d, hd, rfl⟩
  constructor
  case nodup =>
    simp only [fromInitialDocuments, List.map_map]
    exact documents.nodup
  case sorted =>
    refine List.pairwise_map.mpr (documents.sorted.imp fun {a b} hlt => ?_)
    simpa [Ranking.Lt, View.changeOrder, Ranking.after, compareLex, compareOn,
      Ranking.comap] using hlt
  case described =>
    intro c hc
    obtain ⟨d, hd, rfl⟩ := hmem c hc
    exact ⟨rfl, SortedSet.get?_key hd⟩
  case unchanged =>
    intro k hk
    have hnone : documents.get? k = none :=
      SortedSet.get?_eq_none_iff.mpr fun d hd => hk ⟨d, .added⟩ (List.mem_map.mpr ⟨d, hd, rfl⟩)
    simp only [fromInitialDocuments, SortedSet.get?_empty, hnone]

/-- Leaving out the metadata changes keeps what the changes say about the data. -/
lemma ViewSnapshot.Describes.withoutMetadataChanges {s : ViewSnapshot q} (h : s.Describes) :
    s.withoutMetadataChanges.Describes where
  nodup := h.nodup.sublist (List.filter_sublist.map _)
  sorted := h.sorted.filter _
  described c hc := h.described c (List.mem_of_mem_filter hc)
  unchanged k hk := by
    by_cases hchange : ∃ c ∈ s.documentChanges, c.key = k
    · obtain ⟨c, hc, rfl⟩ := hchange
      have htype : c.type = .metadata := by
        by_contra hne
        exact hk c (List.mem_filter.mpr ⟨hc, by simpa using hne⟩) rfl
      have hdescribes := h.described c hc
      rw [DocumentViewChange.Describes, htype] at hdescribes
      show (s.oldDocuments.get? c.key).map Document.data =
        (s.documents.get? c.key).map Document.data
      rw [hdescribes.1, hdescribes.2]
      rfl
    · exact h.unchanged k fun c hc heq => hchange ⟨c, hc, heq⟩

/-- The snapshot a listener sees leads where the snapshot of the view leads. -/
lemma QueryListener.visible_describes (listener : QueryListener q) {s : ViewSnapshot q}
    (h : s.Describes) : (listener.visible s).Describes := by
  unfold visible
  split_ifs
  · exact h
  · exact h.withoutMetadataChanges

/-- The changes a listener sees are among those of the view. -/
lemma QueryListener.visible_carriesRemoved (listener : QueryListener q) {s : ViewSnapshot q}
    (h : s.CarriesRemoved) : (listener.visible s).CarriesRemoved := by
  unfold visible
  split_ifs
  · exact h
  · exact fun c hc => h c (List.mem_of_mem_filter hc)

/-- A first event removes nothing. -/
lemma ViewSnapshot.fromInitialDocuments_carriesRemoved (documents : DocumentSet q)
    (mutatedKeys : DocumentKeySet κ) (fromCache excludesMetadataChanges : Bool) :
    (fromInitialDocuments documents mutatedKeys fromCache
      excludesMetadataChanges).CarriesRemoved := by
  intro c hc htype
  obtain ⟨d, -, rfl⟩ := List.mem_map.mp hc
  cases htype

/-- A first event is a feed from nothing to all documents. -/
lemma Feed.initial (documents : DocumentSet q) (mutatedKeys : DocumentKeySet κ)
    (fromCache excludesMetadataChanges : Bool) :
    Feed [some (ViewSnapshot.fromInitialDocuments documents mutatedKeys fromCache
      excludesMetadataChanges)] documents.data :=
  Feed.start.snapshot _
    (ViewSnapshot.fromInitialDocuments_describes documents mutatedKeys fromCache _)

namespace QuerySnapshot

/-- The changes that an event reports with their indices; an error reports none. -/
def changesOf (includeMetadataChanges : Bool) :
    Option (ViewSnapshot q) → Except String (List (DocumentChange κ δ))
  | none => return []
  | some s => forEachChange s includeMetadataChanges

/-- **Replaying a feed**: the changes of all its events can be reported with their indices, with
or without metadata changes, and a program that starts from an empty list and edits it at these
indices, change by change over all events, shows the rows of the current documents in the order
of the query.

**Proof sketch.** Induction on the feed. The list before a snapshot is that of documents with the
data the snapshot starts from, and so of its old documents; the changes of the snapshot lead from
there to its documents. -/
theorem replay_feed {log : List (Option (ViewSnapshot q))} {data : κ → Option δ}
    (hfeed : Feed log data) (includeMetadataChanges : Bool)
    (hexcludes : ∀ s, some s ∈ log → includeMetadataChanges = true →
      s.excludesMetadataChanges = false) :
    ∃ out, log.mapM (changesOf includeMetadataChanges) = .ok out ∧
      ∀ documents : DocumentSet q, documents.data = data →
        out.flatten.foldl DocumentChange.replay [] = documents.rows.elements := by
  induction hfeed with
  | start =>
    refine ⟨[], rfl, fun documents hdata => ?_⟩
    have hempty : documents.rows = DocumentSet.rows (SortedSet.empty q.order) :=
      DocumentSet.rows_eq fun k => congrFun hdata k
    rw [hempty]
    rfl
  | snapshot s hfeed hdescribes ih =>
    obtain ⟨out, hout, hrows⟩ := ih fun s hs => hexcludes s (List.mem_append_left _ hs)
    obtain ⟨changes, hchanges, hreplay, -⟩ := forEachChange_spec s hdescribes
      includeMetadataChanges (hexcludes s (by simp))
    refine ⟨out ++ [changes], ?_, fun documents hdata => ?_⟩
    · have hsome : changesOf includeMetadataChanges (some s) = .ok changes := hchanges
      rw [List.mapM_append, hout, List.mapM_cons, hsome]
      rfl
    · rw [List.flatten_append, List.foldl_append, hrows s.oldDocuments rfl,
        List.flatten_singleton, hreplay]
      exact congrArg _ (DocumentSet.rows_eq fun k => (congrFun hdata k).symm)
  | error hfeed ih =>
    obtain ⟨out, hout, hrows⟩ := ih fun s hs => hexcludes s (List.mem_append_left _ hs)
    refine ⟨out ++ [[]], ?_, fun documents hdata => ?_⟩
    · rw [List.mapM_append, hout]
      rfl
    · rw [List.flatten_append, List.foldl_append, hrows documents hdata]
      rfl

/-- The query for all documents in the order of their numbers. -/
def byNumber : Query ℕ ℕ where
  matchesDocument _ _ := true
  comparator := compareLex (compareOn Prod.snd) (compareOn Prod.fst)
  trans := inferInstance
  separates a b h := by
    rw [compareLex, Ordering.then_eq_eq] at h
    exact compare_eq_iff_eq.mp h.2
  limitType := .none
  limit := 0

/-- Some documents in the order of their numbers. -/
def numbered (documents : List (Document ℕ ℕ)) : DocumentSet byNumber :=
  documents.foldl SortedSet.insert (SortedSet.empty _)

/-- Three documents come with the first event; after an error, the first one is removed and the
last one moves to the front. -/
theorem replay_feed_moved :
    let documents := numbered [⟨3, 9, .synced⟩, ⟨1, 5, .synced⟩, ⟨2, 7, .synced⟩]
    let later : ViewSnapshot byNumber :=
      { documents := numbered [⟨2, 7, .synced⟩, ⟨3, 6, .localMutations⟩]
        oldDocuments := documents
        documentChanges := [⟨⟨1, 5, .synced⟩, .removed⟩, ⟨⟨3, 6, .localMutations⟩, .modified⟩]
        mutatedKeys := {3}
        fromCache := false
        syncStateChanged := false
        excludesMetadataChanges := false }
    ∃ out, [some (.fromInitialDocuments documents ∅ false false), none, some later].mapM
        (changesOf true) = .ok out ∧
      out.flatten.foldl DocumentChange.replay [] = [(3, 6), (2, 7)] := by
  intro documents later
  have hdescribes : later.Describes := by
    refine ⟨by decide, by decide, ?_, fun k hk => ?_⟩
    · intro c hc
      rcases List.mem_pair.mp hc with rfl | rfl
      · exact ⟨rfl, rfl⟩
      · exact ⟨rfl, rfl⟩
    · obtain ⟨h1, h3⟩ : 1 ≠ k ∧ 3 ≠ k := by simpa [later, DocumentViewChange.key] using hk
      have hold : documents.elements = [⟨1, 5, .synced⟩, ⟨2, 7, .synced⟩, ⟨3, 9, .synced⟩] := by
        decide
      have hnew : (numbered [⟨2, 7, .synced⟩, ⟨3, 6, .localMutations⟩]).elements =
          [⟨3, 6, .localMutations⟩, ⟨2, 7, .synced⟩] := by
        decide
      simp only [SortedSet.get?, hold, hnew, later, Query.order_key, List.find?_cons, h1, h3,
        decide_false]
  obtain ⟨out, hout, hrows⟩ := replay_feed
    (((Feed.initial documents ∅ false false).error).snapshot later hdescribes) true (by
      intro s hs _
      rcases (by simpa using hs : s = _ ∨ s = later) with rfl | rfl <;> rfl)
  exact ⟨out, hout, by rw [hrows later.documents rfl]; decide⟩

end QuerySnapshot

namespace QueryListener

/-- A listener follows the documents of its query: what it has handed on leads to their data, or
it has handed on nothing yet and has a reason to wait. -/
structure Follows (listener : QueryListener q) (documents : DocumentSet q) (fromCache : Bool)
    (onlineState : OnlineState) (log : List (Option (ViewSnapshot q))) : Prop where
  online : listener.onlineState = onlineState
  snapshot : ∃ s, listener.snapshot = some s ∧ s.documents = documents ∧ s.fromCache = fromCache ∧
    (listener.raisedInitialEvent = false →
      shouldRaiseInitialEvent listener.options s onlineState = false)
  raised : listener.raisedInitialEvent = true → Feed log documents.data
  waiting : listener.raisedInitialEvent = false → log = []

/-- **A snapshot of the view** is handed on, or withheld with nothing lost: from a listener whose
events lead to the old documents, its events lead to the new documents afterwards.

**Proof sketch.** A first event reports all documents. A later snapshot is handed on as it is
seen; if it is withheld, none of its changes is seen, so the data has not changed. -/
lemma onViewSnapshot_spec {listener : QueryListener q} {s : ViewSnapshot q}
    {log : List (Option (ViewSnapshot q))}
    (hraised : listener.raisedInitialEvent = true → Feed log s.oldDocuments.data)
    (hwaiting : listener.raisedInitialEvent = false → log = []) (hdescribes : s.Describes)
    (hchanges : s.documentChanges ≠ [] ∨ s.syncStateChanged = true) :
    ∃ listener' event, listener.onViewSnapshot s = .ok (listener', event) ∧
      listener'.Follows s.documents s.fromCache listener.onlineState
        (log ++ event.toList.map some) ∧
      ∀ e ∈ event, s.CarriesRemoved → e.CarriesRemoved := by
  have hassert : (!s.documentChanges.isEmpty || s.syncStateChanged) = true := by
    rcases hchanges with h | h
    · cases hs : s.documentChanges with
      | nil => exact absurd hs h
      | cons c cs => rfl
    · simp [h]
  have hvisible := listener.visible_describes hdescribes
  have hdocuments := listener.visible_documents s
  have hold := listener.visible_oldDocuments s
  have hcache := listener.visible_fromCache s
  cases hinitial : listener.raisedInitialEvent with
  | false =>
    obtain rfl := hwaiting hinitial
    cases hshould : shouldRaiseInitialEvent listener.options (listener.visible s)
        listener.onlineState with
    | true =>
      refine ⟨{ listener with raisedInitialEvent := true, snapshot := some (listener.visible s) },
        some (ViewSnapshot.fromInitialDocuments (listener.visible s).documents
          (listener.visible s).mutatedKeys (listener.visible s).fromCache
          (listener.visible s).excludesMetadataChanges), ?_, ⟨rfl, ?_, ?_, ?_⟩, ?_⟩
      · simp only [onViewSnapshot, hassert, hardAssert_true, assertNotRaised, hinitial,
          raiseInitialEvent, hshould]
        rfl
      · exact ⟨_, rfl, hdocuments, hcache, fun h => by cases h⟩
      · intro _
        rw [← hdocuments]
        exact Feed.initial (listener.visible s).documents _ _ _
      · intro h
        cases h
      · rintro e ⟨⟩ -
        exact ViewSnapshot.fromInitialDocuments_carriesRemoved _ _ _ _
    | false =>
      refine ⟨{ listener with snapshot := some (listener.visible s) }, none, ?_,
        ⟨rfl, ?_, ?_, fun _ => rfl⟩, by simp⟩
      · simp only [onViewSnapshot, hassert, hardAssert_true, assertNotRaised, hinitial, hshould]
        rfl
      · exact ⟨_, rfl, hdocuments, hcache, fun _ => hshould⟩
      · intro h
        have htrue : listener.raisedInitialEvent = true := h
        rw [hinitial] at htrue
        cases htrue
  | true =>
    have hfeed := hraised hinitial
    cases hshould : listener.shouldRaiseEvent (listener.visible s) with
    | true =>
      refine ⟨{ listener with snapshot := some (listener.visible s) },
        some (listener.visible s), ?_, ⟨rfl, ?_, ?_, ?_⟩, ?_⟩
      · simp only [onViewSnapshot, hassert, hardAssert_true, hinitial, hshould]
        rfl
      · exact ⟨_, rfl, hdocuments, hcache, fun h => by rw [hinitial] at h; cases h⟩
      · intro _
        rw [← hold] at hfeed
        rw [← hdocuments]
        exact hfeed.snapshot _ hvisible
      · intro h
        rw [hinitial] at h
        cases h
      · rintro e ⟨⟩ hremoved
        exact listener.visible_carriesRemoved hremoved
    | false =>
      have hnil : (listener.visible s).documentChanges = [] := by
        unfold shouldRaiseEvent at hshould
        cases hs : (listener.visible s).documentChanges with
        | nil => rfl
        | cons c cs => simp [hs] at hshould
      have hsame : s.oldDocuments.data = s.documents.data := by
        funext k
        have hk := hvisible.unchanged k (by rw [hnil]; simp)
        rwa [hold, hdocuments] at hk
      refine ⟨{ listener with snapshot := some (listener.visible s) }, none, ?_,
        ⟨rfl, ?_, ?_, ?_⟩, by simp⟩
      · simp only [onViewSnapshot, hassert, hardAssert_true, hinitial, hshould]
        rfl
      · exact ⟨_, rfl, hdocuments, hcache, fun h => by rw [hinitial] at h; cases h⟩
      · intro _
        rw [← hsame]
        simpa using hfeed
      · intro h
        rw [hinitial] at h
        cases h

/-- **A change of the online state** makes a waiting listener report what is there, if that is
what it was waiting for. -/
lemma onOnlineStateChanged_spec {listener : QueryListener q} {documents : DocumentSet q}
    {fromCache : Bool} {before : OnlineState} {log : List (Option (ViewSnapshot q))}
    (h : listener.Follows documents fromCache before log) (onlineState : OnlineState) :
    ∃ listener' event, listener.onOnlineStateChanged onlineState = .ok (listener', event) ∧
      listener'.Follows documents fromCache onlineState (log ++ event.toList.map some) ∧
      ∀ e ∈ event, e.CarriesRemoved := by
  obtain ⟨s, hs, hdocuments, hcache, -⟩ := h.snapshot
  cases hinitial : listener.raisedInitialEvent with
  | true =>
    refine ⟨{ listener with onlineState := onlineState }, none, ?_, ⟨rfl, ?_, ?_, ?_⟩, by simp⟩
    · simp only [onOnlineStateChanged, hs, hinitial]
      rfl
    · exact ⟨s, hs, hdocuments, hcache, fun h => by rw [hinitial] at h; cases h⟩
    · intro _
      simpa using h.raised hinitial
    · intro h
      rw [hinitial] at h
      cases h
  | false =>
    obtain rfl := h.waiting hinitial
    cases hshould : shouldRaiseInitialEvent listener.options s onlineState with
    | true =>
      refine ⟨{ listener with onlineState := onlineState, raisedInitialEvent := true },
        some (ViewSnapshot.fromInitialDocuments s.documents s.mutatedKeys s.fromCache
          s.excludesMetadataChanges), ?_, ⟨rfl, ?_, ?_, ?_⟩, ?_⟩
      · simp only [onOnlineStateChanged, hs, hinitial, assertNotRaised, hshould,
          raiseInitialEvent]
        rfl
      · exact ⟨s, hs, hdocuments, hcache, fun h => by cases h⟩
      · intro _
        rw [← hdocuments]
        exact Feed.initial s.documents _ _ _
      · intro h
        cases h
      · rintro e ⟨⟩
        exact ViewSnapshot.fromInitialDocuments_carriesRemoved _ _ _ _
    | false =>
      refine ⟨{ listener with onlineState := onlineState }, none, ?_, ⟨rfl, ?_, ?_, fun _ => rfl⟩,
        by simp⟩
      · simp only [onOnlineStateChanged, hs, hinitial, assertNotRaised, hshould]
        rfl
      · exact ⟨s, hs, hdocuments, hcache, fun _ => hshould⟩
      · intro h
        rw [hinitial] at h
        cases h

end QueryListener

end Feed

end AntViewer.Firestore
