import AntViewer.Firestore.QueryListener

set_option relaxedAutoImplicit false
set_option autoImplicit false

/-!
# A query from the local store to its listeners

The sync engine keeps a view of every query that is listened to, and the event manager keeps its
listeners and the last snapshot. This is the life of one query: the first listener creates the
view from the local store, later ones start from the last snapshot; changes of the store, of the
connection and of what the server says about the query go through the view to all listeners, in
any order; the last listener to leave takes the view with it, and so does an error of the server.

## Main definitions

* `QueryClient` — what the sync engine and the event manager keep for one query.
* `QueryClient.Event`, `QueryClient.next` — what can happen, and the code that runs then.
* `QueryClient.Event.Fits` — what the local store and the server promise of an event.

## Main results

* `QueryClient.next_spec` — every event that fits can happen, and keeps the invariant.
* `QueryClient.Consistent.serves` — what every listener was handed leads to the current documents,
  which are up to date with the local store.
-/

namespace AntViewer.Firestore

open SortedSets Runs ChangeFeed View

variable {κ δ : Type*}

/-- `EventManager::QueryListenersInfo`; listeners are known by the order in which they came. -/
structure QueryListenersInfo {κ δ : Type*} (q : Query κ δ) where
  listeners : List (ℕ × QueryListener q)
  viewSnapshot : Option (ViewSnapshot q)

/-- What the sync engine and the event manager keep for one query, the local store, and what the
callback of each listener has been called with, none for an error. -/
structure QueryClient {κ δ : Type*} (q : Query κ δ) where
  store : LocalDocuments κ δ
  /-- `online_state_` of the event manager. -/
  onlineState : OnlineState
  /-- The entry of the query in `queries_`. -/
  info : Option (QueryListenersInfo q)
  /-- The view of the query in `query_views_by_query_`. -/
  view : Option (View q)
  /-- How many listeners there have been. -/
  registered : ℕ
  events : ℕ → List (Option (ViewSnapshot q))

/-- `TargetChange::CreateSynthesizedTargetChange(current)`. -/
def TargetChange.createSynthesizedTargetChange (κ : Type*) (current : Bool) : TargetChange κ where
  current := current
  addedDocuments := ∅
  modifiedDocuments := ∅
  removedDocuments := ∅

namespace QueryClient

variable {q : Query κ δ}

/-- A client nobody has used yet. -/
def start (q : Query κ δ) (store : LocalDocuments κ δ) : QueryClient q where
  store := store
  onlineState := .unknown
  info := none
  view := none
  registered := 0
  events _ := []

/-- The loop over the listeners of a query: the listeners afterwards and the events raised. -/
def forEachListener
    (f : QueryListener q → Except String (QueryListener q × Option (ViewSnapshot q))) :
    List (ℕ × QueryListener q) →
      Except String (List (ℕ × QueryListener q) × List (ℕ × ViewSnapshot q))
  | [] => return ([], [])
  | (id, listener) :: listeners => do
    let (listener, event) ← f listener
    let (listeners, events) ← forEachListener f listeners
    return ((id, listener) :: listeners, event.toList.map (fun s => (id, s)) ++ events)

/-- Calling back the listeners that have raised events. -/
def deliver (events : ℕ → List (Option (ViewSnapshot q))) (raised : List (ℕ × ViewSnapshot q))
    (id : ℕ) : List (Option (ViewSnapshot q)) :=
  events id ++ (raised.filter fun e => e.1 = id).map fun e => some e.2

section

variable [LinearOrder κ]

/-- `EventManager::OnViewSnapshots`, with at most one snapshot of this query. -/
def onViewSnapshots (c : QueryClient q) (snapshot : Option (ViewSnapshot q)) :
    Except String (QueryClient q) :=
  match snapshot, c.info with
  | some s, some info => do
    let (listeners, raised) ← forEachListener (fun l => l.onViewSnapshot s) info.listeners
    return { c with info := some ⟨listeners, some s⟩, events := deliver c.events raised }
  | _, _ => return c

/-- `EventManager::HandleOnlineStateChange`. -/
def notifyOnlineState (c : QueryClient q) (onlineState : OnlineState) :
    Except String (QueryClient q) :=
  match c.info with
  | some info => do
    let (listeners, raised) ←
      forEachListener (fun l => l.onOnlineStateChanged onlineState) info.listeners
    return { c with
      onlineState := onlineState
      info := some { info with listeners := listeners }
      events := deliver c.events raised }
  | none => return { c with onlineState := onlineState }

variable [DecidableEq δ]

/-- The part of `SyncEngine::InitializeViewAndComputeSnapshot` that makes the view, with what the
local store returns for the query, the remote keys, and the sync state of another query for the
same target if any. -/
def initializeView (q : Query κ δ) (results : List (κ × MaybeDocument κ δ))
    (remoteKeys : DocumentKeySet κ) (synthesized : Option Bool) :
    Except String (View q × Option (ViewSnapshot q) × List (LimboDocumentChange κ)) := do
  let view := View.create q remoteKeys
  let viewDocChanges ← view.computeDocumentChanges results none
  view.applyChanges viewDocChanges (synthesized.map (TargetChange.createSynthesizedTargetChange κ))

/-- `SyncEngine::InitializeViewAndComputeSnapshot`. -/
def initializeViewAndComputeSnapshot (q : Query κ δ) (results : List (κ × MaybeDocument κ δ))
    (remoteKeys : DocumentKeySet κ) (synthesized : Option Bool) :
    Except String (View q × ViewSnapshot q) := do
  let (view, snapshot, _) ← initializeView q results remoteKeys synthesized
  match snapshot with
  | some s => return (view, s)
  | none => hardFail "ApplyChanges to documents for new view should always return a snapshot"

/-- `SyncEngine::Listen`. -/
def listen (c : QueryClient q) (results : List (κ × MaybeDocument κ δ))
    (remoteKeys : DocumentKeySet κ) (synthesized : Option Bool) :
    Except String (QueryClient q) := do
  hardAssert c.view.isNone "We already listen to query"
  let (view, snapshot) ← initializeViewAndComputeSnapshot q results remoteKeys synthesized
  onViewSnapshots { c with view := some view } (some snapshot)

/-- `EventManager::AddQueryListener`, with a new listener. -/
def addQueryListener (c : QueryClient q) (options : ListenOptions)
    (results : List (κ × MaybeDocument κ δ)) (remoteKeys : DocumentKeySet κ)
    (synthesized : Option Bool) : Except String (QueryClient q) := do
  let info := c.info.getD ⟨[], none⟩
  let (listener, event) ← (QueryListener.create q options).onOnlineStateChanged c.onlineState
  hardAssert event.isNone
    "OnOnlineStateChanged() shouldn't raise an event for brand-new listeners."
  let (listener, event) ← match info.viewSnapshot with
    | some s => listener.onViewSnapshot s
    | none => pure (listener, none)
  let raised := event.toList.map fun s => (c.registered, s)
  let added := { c with
    info := some { info with listeners := info.listeners ++ [(c.registered, listener)] }
    registered := c.registered + 1
    events := deliver c.events raised }
  if c.info.isNone then added.listen results remoteKeys synthesized else return added

/-- `SyncEngine::StopListening`. -/
def stopListening (c : QueryClient q) : Except String (QueryClient q) := do
  hardAssert c.view.isSome "Trying to stop listening to a query not found"
  return { c with view := none }

/-- `EventManager::RemoveQueryListener`. -/
def removeQueryListener (c : QueryClient q) (id : ℕ) : Except String (QueryClient q) :=
  match c.info with
  | none => return c
  | some info =>
    let listeners := info.listeners.eraseP fun p => p.1 = id
    if listeners.isEmpty then stopListening { c with info := none }
    else return { c with info := some { info with listeners := listeners } }

/-- `SyncEngine::EmitNewSnapshotsAndNotifyLocalStore` after the local store has changed, with what
it returns for the query now and what the server says about the query. -/
def emitNewSnapshots (c : QueryClient q) (store : LocalDocuments κ δ)
    (changes results : List (κ × MaybeDocument κ δ)) (targetChange : Option (TargetChange κ)) :
    Except String (QueryClient q) :=
  match c.view with
  | none => return { c with store := store }
  | some view => do
    let viewDocChanges ← SyncEngine.computeViewChanges view changes results
    let (view, snapshot, _) ← view.applyChanges viewDocChanges targetChange
    onViewSnapshots { c with store := store, view := some view } snapshot

/-- The part of `SyncEngine::HandleOnlineStateChange` that is about the view. -/
def applyOnlineState (c : QueryClient q) (onlineState : OnlineState) :
    Except String (QueryClient q) :=
  match c.view with
  | none => return c
  | some view => do
    let (view, snapshot, limboChanges) ← view.applyOnlineStateChange onlineState
    hardAssert limboChanges.isEmpty "OnlineState should not affect limbo documents."
    onViewSnapshots { c with view := some view } snapshot

/-- `SyncEngine::HandleOnlineStateChange`. -/
def handleOnlineStateChange (c : QueryClient q) (onlineState : OnlineState) :
    Except String (QueryClient q) := do
  let c ← c.applyOnlineState onlineState
  notifyOnlineState c onlineState

/-- `SyncEngine::HandleRejectedListen`, when the server rejects the query. -/
def handleRejectedListen (c : QueryClient q) : QueryClient q where
  store := c.store
  onlineState := c.onlineState
  info := none
  view := none
  registered := c.registered
  events id :=
    if ∃ info, c.info = some info ∧ id ∈ info.listeners.map Prod.fst then c.events id ++ [none]
    else c.events id

/-! ## Runs -/

/-- What can happen to a query. -/
inductive Event (κ δ : Type*)
  | addQueryListener (options : ListenOptions) (results : List (κ × MaybeDocument κ δ))
      (remoteKeys : DocumentKeySet κ) (synthesized : Option Bool)
  | removeQueryListener (id : ℕ)
  | emitNewSnapshots (store : LocalDocuments κ δ) (changes results : List (κ × MaybeDocument κ δ))
      (targetChange : Option (TargetChange κ))
  | handleOnlineStateChange (onlineState : OnlineState)
  | handleRejectedListen

/-- The code that runs then. -/
def next (c : QueryClient q) : Event κ δ → Except String (QueryClient q)
  | .addQueryListener options results remoteKeys synthesized =>
    c.addQueryListener options results remoteKeys synthesized
  | .removeQueryListener id => c.removeQueryListener id
  | .emitNewSnapshots store changes results targetChange =>
    c.emitNewSnapshots store changes results targetChange
  | .handleOnlineStateChange onlineState => c.handleOnlineStateChange onlineState
  | .handleRejectedListen => return c.handleRejectedListen

end

section

variable [LinearOrder κ]

/-- What the local store and the server promise of an event: the changes lead to the new state of
the store; the results, where they are used, are what a new view needs or those of the query there;
the server does not modify documents that it has not reported, and it only rejects a query that is
listened to. -/
def Event.Fits (c : QueryClient q) : Event κ δ → Prop
  | .addQueryListener _ results _ _ => c.info = none → Answers q c.store results
  | .removeQueryListener _ => True
  | .emitNewSnapshots store changes results targetChange =>
    c.store.Covers store changes ∧ (q.limitType ≠ .none → ExecuteQuery q store results) ∧
      ∀ view, c.view = some view → TargetChange.Fits targetChange view
  | .handleOnlineStateChange _ => True
  | .handleRejectedListen => c.view.isSome

end

/-! ## What holds of a client -/

/-- The loop over the listeners succeeds if each of its calls does, and raises the events of each
listener under its number. -/
lemma forEachListener_spec
    {f : QueryListener q → Except String (QueryListener q × Option (ViewSnapshot q))}
    {P : ℕ → QueryListener q → Option (ViewSnapshot q) → Prop}
    {listeners : List (ℕ × QueryListener q)} (hnodup : (listeners.map Prod.fst).Nodup)
    (h : ∀ p ∈ listeners, ∃ listener event, f p.2 = .ok (listener, event) ∧ P p.1 listener event) :
    ∃ listeners' raised, forEachListener f listeners = .ok (listeners', raised) ∧
      listeners'.map Prod.fst = listeners.map Prod.fst ∧
      (∀ p ∈ listeners', ∃ event, P p.1 p.2 event ∧
        raised.filter (fun e => e.1 = p.1) = event.toList.map fun s => (p.1, s)) ∧
      ∀ id ∉ listeners.map Prod.fst, raised.filter (fun e => e.1 = id) = [] := by
  induction listeners with
  | nil => exact ⟨[], [], rfl, rfl, by simp, fun _ _ => rfl⟩
  | cons p listeners ih =>
    obtain ⟨id, listener⟩ := p
    rw [List.map_cons, List.nodup_cons] at hnodup
    obtain ⟨listener', event, hf, hP⟩ := h _ List.mem_cons_self
    obtain ⟨listeners', raised, hfold, hids, hall, hother⟩ :=
      ih hnodup.2 fun p hp => h p (List.mem_cons_of_mem _ hp)
    have hhead : ∀ id', (event.toList.map fun s => (id, s)).filter (fun e => e.1 = id') =
        if id = id' then event.toList.map fun s => (id, s) else [] := by
      intro id'
      split_ifs with heq
      · rw [List.filter_eq_self]
        simp [heq]
      · rw [List.filter_eq_nil_iff]
        simp [heq]
    refine ⟨(id, listener') :: listeners', event.toList.map (fun s => (id, s)) ++ raised, ?_, ?_,
      ?_, ?_⟩
    · rw [forEachListener, hf]
      show (forEachListener f listeners >>= _) = _
      rw [hfold]
      rfl
    · rw [List.map_cons, List.map_cons, hids]
    · intro p hp
      rw [List.filter_append, hhead]
      rcases List.mem_cons.mp hp with rfl | hp
      · refine ⟨event, hP, ?_⟩
        rw [if_pos rfl, hother _ hnodup.1, List.append_nil]
      · obtain ⟨event', hP', hraised⟩ := hall p hp
        have hne : id ≠ p.1 := by
          intro heq
          apply hnodup.1
          rw [heq, ← hids]
          exact List.mem_map.mpr ⟨p, hp, rfl⟩
        exact ⟨event', hP', by rw [if_neg hne, List.nil_append, hraised]⟩
    · intro id' hid'
      rw [List.map_cons, List.mem_cons, not_or] at hid'
      rw [List.filter_append, hhead, if_neg fun h => hid'.1 h.symm, hother _ hid'.2]
      rfl

/-- What a listener is called back with. -/
lemma deliver_of_filter {events : ℕ → List (Option (ViewSnapshot q))}
    {raised : List (ℕ × ViewSnapshot q)} {id : ℕ} {event : Option (ViewSnapshot q)}
    (h : raised.filter (fun e => e.1 = id) = event.toList.map fun s => (id, s)) :
    deliver events raised id = events id ++ event.toList.map some := by
  rw [deliver, h, List.map_map]
  rfl

/-- The numbers of the listeners that are there. -/
def ids (c : QueryClient q) : List ℕ :=
  match c.info with
  | some info => info.listeners.map Prod.fst
  | none => []

/-- Listeners that have been removed do not come back, and are not called back any more. -/
structure Evolves (c c' : QueryClient q) : Prop where
  registered : c.registered ≤ c'.registered
  members : ∀ id < c.registered, id ∈ c'.ids → id ∈ c.ids
  silent : ∀ id < c.registered, id ∉ c.ids → c'.events id = c.events id

/-- Nothing happens to the listeners. -/
lemma Evolves.of_same {c c' : QueryClient q} (hregistered : c'.registered = c.registered)
    (hinfo : c'.info = c.info) (hevents : c'.events = c.events) : Evolves c c' where
  registered := hregistered.ge
  members id _ h := by
    simp only [ids, hinfo] at h
    exact h
  silent id _ _ := by rw [hevents]

lemma Evolves.trans {c c' c'' : QueryClient q} (h : Evolves c c') (h' : Evolves c' c'') :
    Evolves c c'' where
  registered := h.registered.trans h'.registered
  members id hid hmem := h.members id hid (h'.members id (hid.trans_le h.registered) hmem)
  silent id hid hmem := by
    rw [h'.silent id (hid.trans_le h.registered) fun h' => hmem (h.members id hid h')]
    exact h.silent id hid hmem

/-- Calling back the listeners that are there. -/
lemma Evolves.deliver {c : QueryClient q} {info : QueryListenersInfo q}
    (c' : QueryClient q) (hinfo : c.info = some info) {raised : List (ℕ × ViewSnapshot q)}
    (hregistered : c'.registered = c.registered)
    (hevents : c'.events = QueryClient.deliver c.events raised)
    (hids : c'.ids = info.listeners.map Prod.fst)
    (hother : ∀ id ∉ info.listeners.map Prod.fst, raised.filter (fun e => e.1 = id) = []) :
    Evolves c c' := by
  have hsame : c'.ids = c.ids := by
    rw [hids]
    simp only [ids, hinfo]
  refine ⟨hregistered.ge, fun id _ h => hsame ▸ h, fun id _ h => ?_⟩
  rw [hevents, QueryClient.deliver, hother id (by rwa [← hids, hsame])]
  simp

section

variable [LinearOrder κ]

/-- What a listener has been handed leads to the documents, or it has been handed nothing. -/
structure Attends (listener : QueryListener q) (documents : DocumentSet q)
    (onlineState : OnlineState) (log : List (Option (ViewSnapshot q))) : Prop where
  online : listener.onlineState = onlineState
  raised : listener.raisedInitialEvent = true → Feed log documents.data
  waiting : listener.raisedInitialEvent = false → log = []

/-- The last snapshot of the event manager is one of the view. -/
structure Mirrors (s : ViewSnapshot q) (view : View q) : Prop where
  documents : s.documents = view.documentSet
  fromCache : s.fromCache = (view.syncState = .local : Bool)
  describes : s.Describes
  changed : s.documentChanges ≠ [] ∨ s.syncStateChanged = true
  removed : q.limitType = .none → s.CarriesRemoved

/-- The listeners of a query are different, and known. -/
structure Listed (c : QueryClient q) (info : QueryListenersInfo q) : Prop where
  nonempty : info.listeners ≠ []
  nodup : (info.listeners.map Prod.fst).Nodup
  known : ∀ id ∈ info.listeners.map Prod.fst, id < c.registered

/-- While a query is listened to: the view is up to date with the local store and in sync, the
last snapshot is one of it, and the listeners follow its documents. -/
structure Live (c : QueryClient q) (info : QueryListenersInfo q) (view : View q) : Prop extends
    Listed c info where
  coherent : view.Coherent
  upToDate : UpToDate q c.store view.documentSet
  inSync : view.InSync
  snapshot : ∃ s, info.viewSnapshot = some s ∧ Mirrors s view
  follows : ∀ p ∈ info.listeners,
    p.2.Follows view.documentSet (view.syncState = .local) c.onlineState (c.events p.1)

/-- What listeners have been handed so far is, for each of them, a feed. -/
structure History (c : QueryClient q) : Prop where
  fresh : ∀ id, c.registered ≤ id → c.events id = []
  feed : ∀ id, ∃ data, Feed (c.events id) data
  removed : q.limitType = .none → ∀ id s, some s ∈ c.events id → s.CarriesRemoved

/-- The invariant of a client: nobody listens, or the query is live. -/
structure Consistent (c : QueryClient q) : Prop extends History c where
  state : c.info = none ∧ c.view = none ∨
    ∃ info view, c.info = some info ∧ c.view = some view ∧ Live c info view

/-- A listener that follows the documents attends to them. -/
lemma attends_of_follows {listener : QueryListener q} {documents : DocumentSet q}
    {fromCache : Bool} {onlineState : OnlineState} {log : List (Option (ViewSnapshot q))}
    (h : listener.Follows documents fromCache onlineState log) :
    Attends listener documents onlineState log :=
  ⟨h.online, h.raised, h.waiting⟩

/-- What a listener that follows has been handed is a feed. -/
lemma exists_feed {listener : QueryListener q} {documents : DocumentSet q}
    {fromCache : Bool} {onlineState : OnlineState} {log : List (Option (ViewSnapshot q))}
    (h : listener.Follows documents fromCache onlineState log) : ∃ data, Feed log data := by
  cases hraised : listener.raisedInitialEvent with
  | true => exact ⟨_, h.raised hraised⟩
  | false =>
    rw [h.waiting hraised]
    exact ⟨_, Feed.start⟩

/-- **Calling back**: if each listener of a query raises at most one event in the loop over them,
and follows the documents afterwards, what was handed to every listener is a feed. -/
lemma History.deliver {c : QueryClient q} (c' : QueryClient q) (h : History c)
    {documents : DocumentSet q} {fromCache : Bool} {onlineState : OnlineState}
    {listeners : List (ℕ × QueryListener q)}
    {raised : List (ℕ × ViewSnapshot q)} (hregistered : c'.registered = c.registered)
    (hevents : c'.events = QueryClient.deliver c.events raised)
    (hknown : ∀ id ∈ listeners.map Prod.fst, id < c.registered)
    (hfollows : ∀ p ∈ listeners, ∃ event : Option (ViewSnapshot q),
      (p.2.Follows documents fromCache onlineState (c.events p.1 ++ event.toList.map some) ∧
        (q.limitType = .none → ∀ e ∈ event, e.CarriesRemoved)) ∧
      raised.filter (fun e => e.1 = p.1) = event.toList.map fun s => (p.1, s))
    (hother : ∀ id ∉ listeners.map Prod.fst, raised.filter (fun e => e.1 = id) = []) :
    History c' ∧ ∀ p ∈ listeners,
      p.2.Follows documents fromCache onlineState (c'.events p.1) := by
  have hquiet : ∀ id ∉ listeners.map Prod.fst, c'.events id = c.events id := by
    intro id hid
    rw [hevents, QueryClient.deliver, hother id hid]
    simp
  have hraised : ∀ p ∈ listeners, ∃ event : Option (ViewSnapshot q),
      p.2.Follows documents fromCache onlineState (c'.events p.1) ∧
        c'.events p.1 = c.events p.1 ++ event.toList.map some ∧
        (q.limitType = .none → ∀ e ∈ event, e.CarriesRemoved) := by
    intro p hp
    obtain ⟨event, ⟨hfollows, hremoved⟩, hfilter⟩ := hfollows p hp
    have heq : c'.events p.1 = c.events p.1 ++ event.toList.map some := by
      rw [hevents]
      exact deliver_of_filter hfilter
    exact ⟨event, heq ▸ hfollows, heq, hremoved⟩
  refine ⟨⟨fun id hid => ?_, fun id => ?_, fun hlimit id s hs => ?_⟩, fun p hp => ?_⟩
  · rw [hregistered] at hid
    rw [hquiet id fun hmem => absurd (hknown id hmem) (not_lt.mpr hid)]
    exact h.fresh id hid
  · by_cases hid : id ∈ listeners.map Prod.fst
    · obtain ⟨p, hp, rfl⟩ := List.mem_map.mp hid
      obtain ⟨event, hfollows, -, -⟩ := hraised p hp
      exact exists_feed hfollows
    · rw [hquiet id hid]
      exact h.feed id
  · by_cases hid : id ∈ listeners.map Prod.fst
    · obtain ⟨p, hp, rfl⟩ := List.mem_map.mp hid
      obtain ⟨event, -, heq, hremoved⟩ := hraised p hp
      rw [heq, List.mem_append] at hs
      rcases hs with hs | hs
      · exact h.removed hlimit p.1 s hs
      · refine hremoved hlimit s ?_
        simpa using hs
    · rw [hquiet id hid] at hs
      exact h.removed hlimit id s hs
  · obtain ⟨-, hfollows, -⟩ := hraised p hp
    exact hfollows

/-- **A snapshot of the view** reaches all listeners that attend to its old documents. -/
lemma onViewSnapshots_spec {c : QueryClient q} (hhistory : History c)
    {info : QueryListenersInfo q} {view : View q} {s : ViewSnapshot q} (hinfo : c.info = some info)
    (hview : c.view = some view) (hlisted : Listed c info)
    (hattends : ∀ p ∈ info.listeners, Attends p.2 s.oldDocuments c.onlineState (c.events p.1))
    (hmirrors : Mirrors s view) (hcoherent : view.Coherent)
    (hdate : UpToDate q c.store view.documentSet) (hsync : view.InSync) :
    ∃ c', c.onViewSnapshots (some s) = .ok c' ∧ Consistent c' ∧ Evolves c c' := by
  obtain ⟨listeners, raised, hfold, hids, hall, hother⟩ := forEachListener_spec
    (f := fun l => l.onViewSnapshot s)
    (P := fun id listener event => listener.Follows s.documents s.fromCache c.onlineState
        (c.events id ++ event.toList.map some) ∧
      (q.limitType = .none → ∀ e ∈ event, e.CarriesRemoved)) hlisted.nodup (by
    intro p hp
    obtain ⟨honline, hraised, hwaiting⟩ := hattends p hp
    obtain ⟨listener, event, hok, hfollows, hremoved⟩ :=
      QueryListener.onViewSnapshot_spec hraised hwaiting hmirrors.describes hmirrors.changed
    rw [honline] at hfollows
    exact ⟨listener, event, hok, hfollows, fun hlimit e he =>
      hremoved e he (hmirrors.removed hlimit)⟩)
  obtain ⟨hhistory', hfollows⟩ := hhistory.deliver
    { c with info := some ⟨listeners, some s⟩, events := deliver c.events raised } rfl rfl
    (hids ▸ hlisted.known) hall (hids ▸ hother)
  refine ⟨{ c with info := some ⟨listeners, some s⟩, events := deliver c.events raised }, ?_,
    ⟨hhistory', Or.inr ⟨⟨listeners, some s⟩, view, rfl, hview, ⟨?_, ?_, ?_⟩, hcoherent, hdate,
      hsync, ⟨s, rfl, hmirrors⟩, ?_⟩⟩, Evolves.deliver _ hinfo rfl rfl hids hother⟩
  · simp only [onViewSnapshots, hinfo, hfold]
    rfl
  · intro hnil
    have hempty : info.listeners.map Prod.fst = [] := by
      rw [← hids]
      simp [show listeners = [] from hnil]
    exact hlisted.nonempty (List.map_eq_nil_iff.mp hempty)
  · exact hids ▸ hlisted.nodup
  · exact hids ▸ hlisted.known
  · rw [← hmirrors.documents, ← hmirrors.fromCache]
    exact hfollows

/-- The documents of a view after changes are applied are coherent. -/
lemma coherent_of_applied {view view' : View q} {d : ViewDocumentChanges q}
    {snapshot : Option (ViewSnapshot q)} {limboChanges : List (LimboDocumentChange κ)}
    (happlied : view.Applied d view' snapshot limboChanges) (hdraft : d.Draft view.documentSet) :
    view'.Coherent where
  mutated k := by
    rw [happlied.mutated, happlied.documents]
    exact hdraft.mutated k
  matching k doc hdoc := by
    rw [happlied.documents] at hdoc
    exact hdraft.matching k doc hdoc

/-- The snapshot made when changes are applied is one of the new view. -/
lemma mirrors_of_applied {view view' : View q} {d : ViewDocumentChanges q}
    {snapshot : Option (ViewSnapshot q)} {limboChanges : List (LimboDocumentChange κ)}
    {s : ViewSnapshot q} (happlied : view.Applied d view' snapshot limboChanges)
    (hdraft : d.Draft view.documentSet)
    (happlies : q.limitType = .none → ∀ k change, d.changeSet.get? k = some change →
      change.Applies (view.documentSet.get? k)) (hs : snapshot = some s) : Mirrors s view' := by
  have hsnapshot := happlied.snapshot s hs
  have hloud : ¬ (d.changeSet.getChanges = [] ∧ view'.syncState = view.syncState) := by
    rw [← happlied.quiet, hs]
    simp
  constructor
  case documents => rw [hsnapshot, happlied.documents]
  case fromCache => rw [hsnapshot]
  case describes =>
    exact hdraft.describes (by rw [hsnapshot]) (by rw [hsnapshot]) (by rw [hsnapshot])
  case changed =>
    rw [hsnapshot]
    by_cases hnil : d.changeSet.getChanges = []
    · right
      simpa using fun h => hloud ⟨hnil, h⟩
    · left
      rwa [ne_eq, View.sortChanges_eq_nil]
  case removed =>
    intro hlimit change hchange htype
    rw [hsnapshot] at hchange ⊢
    have hmem : change ∈ d.changeSet.elements := (View.sortChanges_perm _).mem_iff.mp hchange
    have hget : d.changeSet.get? change.key = some change := SortedSet.get?_key hmem
    have happly := happlies hlimit change.key change hget
    rw [DocumentViewChange.Applies, htype] at happly
    show (view.documentSet.get? change.key).map Document.data = _
    rw [happly]
    rfl

/-- **Changes of the view** reach its listeners. -/
lemma publish_spec {c : QueryClient q} (hhistory : History c) {info : QueryListenersInfo q}
    {view view' : View q} (hinfo : c.info = some info) (hlive : Live c info view)
    {store : LocalDocuments κ δ} {d : ViewDocumentChanges q} {snapshot : Option (ViewSnapshot q)}
    {limboChanges : List (LimboDocumentChange κ)}
    (happlied : view.Applied d view' snapshot limboChanges) (hdraft : d.Draft view.documentSet)
    (hdate : UpToDate q store d.documentSet)
    (happlies : q.limitType = .none → ∀ k change, d.changeSet.get? k = some change →
      change.Applies (view.documentSet.get? k)) :
    ∃ c', onViewSnapshots { c with store := store, view := some view' } snapshot = .ok c' ∧
      Consistent c' ∧ Evolves c c' := by
  have hhistory' : History { c with store := store, view := some view' } :=
    ⟨hhistory.fresh, hhistory.feed, hhistory.removed⟩
  have hlisted : Listed { c with store := store, view := some view' } info :=
    ⟨hlive.nonempty, hlive.nodup, hlive.known⟩
  have hcoherent := coherent_of_applied happlied hdraft
  rw [← happlied.documents] at hdate
  cases hs : snapshot with
  | some s =>
    have hattends : ∀ p ∈ info.listeners,
        Attends p.2 s.oldDocuments c.onlineState (c.events p.1) := by
      intro p hp
      rw [happlied.snapshot s hs]
      exact attends_of_follows (hlive.follows p hp)
    obtain ⟨c', hok, hc', hevolves⟩ := onViewSnapshots_spec hhistory' hinfo rfl hlisted hattends
      (mirrors_of_applied happlied hdraft happlies hs) hcoherent hdate happlied.inSync
    have hsame : Evolves c { c with store := store, view := some view' } :=
      Evolves.of_same rfl rfl rfl
    exact ⟨c', hok, hc', hsame.trans hevolves⟩
  | none =>
    obtain ⟨hnil, hstate⟩ := happlied.quiet.mp hs
    have hsame : view'.documentSet = view.documentSet :=
      happlied.documents.trans (hdraft.eq_of_nil hnil)
    obtain ⟨s, hsnapshot, hmirrors⟩ := hlive.snapshot
    refine ⟨_, rfl, ⟨hhistory', Or.inr ⟨info, view', hinfo, rfl, hlisted, hcoherent, hdate,
      happlied.inSync, ⟨s, hsnapshot, ⟨?_, ?_, hmirrors.describes, hmirrors.changed,
        hmirrors.removed⟩⟩, ?_⟩⟩, Evolves.of_same rfl rfl rfl⟩
    · rw [hsame]
      exact hmirrors.documents
    · rw [hstate]
      exact hmirrors.fromCache
    · rw [hsame, hstate]
      exact hlive.follows

/-- **A change of the online state** reaches the listeners. -/
lemma notifyOnlineState_spec {c : QueryClient q} (hc : Consistent c) (onlineState : OnlineState) :
    ∃ c', c.notifyOnlineState onlineState = .ok c' ∧ Consistent c' ∧ Evolves c c' := by
  rcases hc.state with ⟨hinfo, hview⟩ | ⟨info, view, hinfo, hview, hlive⟩
  · refine ⟨{ c with onlineState := onlineState }, by simp only [notifyOnlineState, hinfo]; rfl,
      ⟨⟨hc.fresh, hc.feed, hc.removed⟩, Or.inl ⟨hinfo, hview⟩⟩, Evolves.of_same rfl rfl rfl⟩
  · obtain ⟨listeners, raised, hfold, hids, hall, hother⟩ := forEachListener_spec
      (f := fun l => l.onOnlineStateChanged onlineState)
      (P := fun id listener event =>
        listener.Follows view.documentSet (view.syncState = .local) onlineState
          (c.events id ++ event.toList.map some) ∧
        (q.limitType = .none → ∀ e ∈ event, e.CarriesRemoved)) hlive.nodup (by
      intro p hp
      obtain ⟨listener, event, hok, hfollows, hremoved⟩ :=
        QueryListener.onOnlineStateChanged_spec (hlive.follows p hp) onlineState
      exact ⟨listener, event, hok, hfollows, fun _ => hremoved⟩)
    obtain ⟨hhistory, hfollows⟩ := hc.toHistory.deliver
      { c with
        onlineState := onlineState
        info := some { info with listeners := listeners }
        events := deliver c.events raised } rfl rfl
      (hids ▸ hlive.known) hall (hids ▸ hother)
    refine ⟨_, by simp only [notifyOnlineState, hinfo, hfold]; rfl, ⟨hhistory,
      Or.inr ⟨_, view, rfl, hview, ⟨?_, ?_, ?_⟩, hlive.coherent, hlive.upToDate, hlive.inSync,
        hlive.snapshot, hfollows⟩⟩, Evolves.deliver _ hinfo rfl rfl hids hother⟩
    · intro hnil
      have hempty : info.listeners.map Prod.fst = [] := by
        rw [← hids]
        simp [show listeners = [] from hnil]
      exact hlive.nonempty (List.map_eq_nil_iff.mp hempty)
    · exact hids ▸ hlive.nodup
    · exact hids ▸ hlive.known

/-- Removing a listener. -/
lemma removeQueryListener_spec {c : QueryClient q} (hc : Consistent c) (id : ℕ) :
    ∃ c', c.removeQueryListener id = .ok c' ∧ Consistent c' ∧ Evolves c c' := by
  rcases hc.state with ⟨hinfo, hview⟩ | ⟨info, view, hinfo, hview, hlive⟩
  · exact ⟨c, by simp only [removeQueryListener, hinfo]; rfl, hc, Evolves.of_same rfl rfl rfl⟩
  · have hsublist : (info.listeners.eraseP fun p => p.1 = id).Sublist info.listeners :=
      List.eraseP_sublist
    cases hnil : (info.listeners.eraseP fun p => p.1 = id).isEmpty with
    | true =>
      refine ⟨{ c with info := none, view := none }, ?_,
        ⟨⟨hc.fresh, hc.feed, hc.removed⟩, Or.inl ⟨rfl, rfl⟩⟩,
        ⟨le_rfl, fun id _ h => (by cases h), fun _ _ _ => rfl⟩⟩
      simp only [removeQueryListener, hinfo, hnil, stopListening, hview]
      rfl
    | false =>
      refine ⟨{ c with info := some { info with
          listeners := info.listeners.eraseP fun p => p.1 = id } }, ?_,
        ⟨⟨hc.fresh, hc.feed, hc.removed⟩, Or.inr ⟨_, view, rfl, hview, ⟨?_, ?_, ?_⟩,
          hlive.coherent, hlive.upToDate, hlive.inSync, hlive.snapshot, ?_⟩⟩,
        ⟨le_rfl, fun id _ h => ?_, fun _ _ _ => rfl⟩⟩
      · simp only [removeQueryListener, hinfo, hnil]
        rfl
      · intro h
        rw [List.isEmpty_eq_false_iff] at hnil
        exact hnil h
      · exact hlive.nodup.sublist (hsublist.map _)
      · exact fun id hid => hlive.known id ((hsublist.map _).subset hid)
      · exact fun p hp => hlive.follows p (hsublist.subset hp)
      · simp only [ids, hinfo]
        exact (hsublist.map _).subset h

/-- An error of the server is handed to all listeners, which are removed. -/
lemma handleRejectedListen_spec {c : QueryClient q} (hc : Consistent c) :
    Consistent c.handleRejectedListen ∧ Evolves c c.handleRejectedListen := by
  refine ⟨⟨⟨fun id hid => ?_, fun id => ?_, fun hlimit id s hs => ?_⟩, Or.inl ⟨rfl, rfl⟩⟩,
    ⟨le_rfl, fun id _ h => (by cases h), fun id _ hid => if_neg ?_⟩⟩
  · unfold handleRejectedListen
    dsimp only
    rw [if_neg, hc.fresh id hid]
    rintro ⟨info, hinfo, hmem⟩
    rcases hc.state with ⟨hnone, -⟩ | ⟨info', view, hinfo', -, hlive⟩
    · rw [hnone] at hinfo
      cases hinfo
    · rw [hinfo] at hinfo'
      cases hinfo'
      exact absurd (hlive.known id hmem) (not_lt.mpr hid)
  · obtain ⟨data, hfeed⟩ := hc.feed id
    unfold handleRejectedListen
    dsimp only
    split_ifs
    · exact ⟨data, hfeed.error⟩
    · exact ⟨data, hfeed⟩
  · unfold handleRejectedListen at hs
    dsimp only at hs
    split_ifs at hs
    · refine hc.removed hlimit id s ?_
      simpa using hs
    · exact hc.removed hlimit id s hs
  · rintro ⟨info, hinfo, hmem⟩
    refine hid ?_
    simp only [ids, hinfo]
    exact hmem

variable [DecidableEq δ]

/-- **A change of the local store** reaches the listeners. -/
lemma emitNewSnapshots_spec {c : QueryClient q} (hc : Consistent c) {store : LocalDocuments κ δ}
    {changes results : List (κ × MaybeDocument κ δ)} {targetChange : Option (TargetChange κ)}
    (hfits : (Event.emitNewSnapshots store changes results targetChange).Fits c) :
    ∃ c', c.emitNewSnapshots store changes results targetChange = .ok c' ∧ Consistent c' ∧
      Evolves c c' := by
  obtain ⟨hcovers, hresults, htarget⟩ := hfits
  rcases hc.state with ⟨hinfo, hview⟩ | ⟨info, view, hinfo, hview, hlive⟩
  · exact ⟨{ c with store := store }, by simp only [emitNewSnapshots, hview]; rfl,
      ⟨⟨hc.fresh, hc.feed, hc.removed⟩, Or.inl ⟨hinfo, hview⟩⟩, Evolves.of_same rfl rfl rfl⟩
  · obtain ⟨d, hd, hrefill, hdraft, hdate, happlies⟩ :=
      SyncEngine.computeViewChanges_spec hlive.coherent hlive.upToDate hcovers hresults
    obtain ⟨view', snapshot, limboChanges, happly, happlied, -⟩ :=
      view.applyChanges_spec hrefill (htarget view hview)
    obtain ⟨c', hc', hconsistent⟩ :=
      publish_spec hc.toHistory hinfo hlive happlied hdraft hdate happlies
    refine ⟨c', ?_, hconsistent⟩
    simp only [emitNewSnapshots, hview, hd]
    show (view.applyChanges d targetChange >>= _) = _
    rw [happly]
    exact hc'

omit [DecidableEq δ] in
/-- **Going offline** takes a view that was current out of sync; nothing else changes it. -/
lemma applyOnlineStateChange_spec {view : View q} (hview : view.Coherent) (hsync : view.InSync)
    (onlineState : OnlineState) :
    ∃ (d : ViewDocumentChanges q) (view' : View q) (snapshot : Option (ViewSnapshot q)),
      view.applyOnlineStateChange onlineState = .ok (view', snapshot, []) ∧
      view.Applied d view' snapshot [] ∧ d.Draft view.documentSet ∧
      d.documentSet = view.documentSet ∧ ∀ k, d.changeSet.get? k = none := by
  have hdraft : (⟨view.documentSet, SortedSet.empty _, view.mutatedKeys, false⟩ :
      ViewDocumentChanges q).Draft view.documentSet :=
    ⟨fun _ => rfl, hview.mutated, hview.matching⟩
  by_cases hoffline : view.current = true ∧ onlineState = .offline
  · have hfits : TargetChange.Fits none { view with current := false } := fun _ h => by cases h
    obtain ⟨view', snapshot, limboChanges, happly, happlied, hcurrent⟩ :=
      View.applyChanges_spec { view with current := false } (c := ⟨view.documentSet,
        SortedSet.empty _, view.mutatedKeys, false⟩) rfl hfits
    obtain rfl : limboChanges = [] := happlied.resting (hcurrent rfl)
    refine ⟨_, view', snapshot, ?_, ⟨happlied.documents, happlied.mutated, happlied.inSync,
      happlied.quiet, happlied.snapshot, happlied.limboAdded, happlied.limboRemoved,
      happlied.limboNodup, happlied.resting⟩, hdraft, rfl, fun _ => rfl⟩
    rw [View.applyOnlineStateChange, if_pos hoffline]
    exact happly
  · refine ⟨_, view, none, by rw [View.applyOnlineStateChange, if_neg hoffline],
      ⟨rfl, rfl, hsync, iff_of_true rfl ⟨rfl, rfl⟩, fun s h => (by cases h), fun k => ?_,
        fun k => ?_, List.nodup_nil, fun _ => rfl⟩, hdraft, rfl, fun _ => rfl⟩
    · simp
    · simp

omit [DecidableEq δ] in
/-- A change of the connection reaches the listeners. -/
lemma applyOnlineState_spec {c : QueryClient q} (hc : Consistent c) (onlineState : OnlineState) :
    ∃ c', c.applyOnlineState onlineState = .ok c' ∧ Consistent c' ∧ Evolves c c' := by
  rcases hc.state with ⟨hinfo, hview⟩ | ⟨info, view, hinfo, hview, hlive⟩
  · exact ⟨c, by simp only [applyOnlineState, hview]; rfl, hc, Evolves.of_same rfl rfl rfl⟩
  · obtain ⟨d, view', snapshot, happly, happlied, hdraft, hdocuments, hnone⟩ :=
      applyOnlineStateChange_spec hlive.coherent hlive.inSync onlineState
    obtain ⟨c', hok, hc'⟩ := publish_spec hc.toHistory hinfo hlive happlied hdraft
      (hdocuments ▸ hlive.upToDate) (fun _ k change h => by rw [hnone k] at h; cases h)
    refine ⟨c', ?_, hc'⟩
    simp only [applyOnlineState, hview, happly]
    exact hok

/-- **The first snapshot of a query**: a new view shows what the local store returns, and there
is a snapshot of it in which everything is added. -/
lemma initializeView_spec {store : LocalDocuments κ δ}
    {results : List (κ × MaybeDocument κ δ)} (hresults : Answers q store results)
    (remoteKeys : DocumentKeySet κ) (synthesized : Option Bool) :
    ∃ view s d limboChanges,
      initializeView q results remoteKeys synthesized = .ok (view, some s, limboChanges) ∧
      (View.create q remoteKeys).Applied d view (some s) limboChanges ∧ Mirrors s view ∧
      view.Coherent ∧ UpToDate q store view.documentSet := by
  have hmap : IsDocumentMap results := by
    refine ⟨hresults.nodup, fun k m d hmem hd => ?_⟩
    rw [← (hresults.sound k m hmem).1] at hd
    exact store.keyed k d hd
  have hempty : ((View.create q remoteKeys).startChanges none).Draft
      (View.create q remoteKeys).documentSet := by
    refine ⟨fun _ => rfl, fun k => ?_, fun k d hd => by cases hd⟩
    simp [View.create, View.startChanges]
  have hstart : ∀ k d, ((View.create q remoteKeys).startChanges none).documentSet.get? k = some d →
      ∃ stored, store.candidate q k = some stored ∧ d.Shows stored := fun k d hd => by cases hd
  obtain ⟨acc, d, -, hdraft, hlooped, htrim, hok⟩ :=
    (View.create q remoteKeys).computeDocumentChanges_spec none hempty hmap
  have hrefill : d.needsRefill = false :=
    htrim.needsRefill.trans (secondPass_needsRefill hresults hstart hlooped)
  have hdate : UpToDate q store d.documentSet := by
    exact upToDate_of_trimmed htrim (secondPass_shows hresults hstart hlooped)
      (missing_of_answers hresults (fun _ => rfl) hlooped htrim)
  have hfits : TargetChange.Fits (synthesized.map (TargetChange.createSynthesizedTargetChange κ))
      (View.create q remoteKeys) := by
    intro change hchange
    obtain ⟨current, -, rfl⟩ := Option.map_eq_some_iff.mp hchange
    exact Finset.empty_subset _
  obtain ⟨view, snapshot, limboChanges, happly, happlied, -⟩ :=
    (View.create q remoteKeys).applyChanges_spec hrefill hfits
  obtain ⟨s, rfl⟩ : ∃ s, snapshot = some s := by
    rw [← Option.isSome_iff_exists, Option.isSome_iff_ne_none, ne_eq, happlied.quiet]
    exact fun h => happlied.inSync.determined h.2
  have hadded : ∀ k change, d.changeSet.get? k = some change →
      change.Applies ((View.create q remoteKeys).documentSet.get? k) := by
    intro k change hchange
    have htracks := hdraft.tracks k
    rw [hchange] at htracks
    obtain ⟨document, type⟩ := change
    cases type with
    | added => exact htracks.1
    | modified => exact htracks.1
    | metadata => exact htracks.1
    | removed => cases htracks.1
  refine ⟨view, s, d, limboChanges, ?_, happlied,
    mirrors_of_applied happlied hdraft (fun _ => hadded) rfl,
    coherent_of_applied happlied hdraft, ?_⟩
  · unfold initializeView
    simp only [hok (Or.inl rfl)]
    exact happly
  · rw [happlied.documents]
    exact hdate

/-- **A new listener** is handed the last snapshot, if there is one; the first one creates the
view. -/
lemma addQueryListener_spec {c : QueryClient q} (hc : Consistent c) (options : ListenOptions)
    {results : List (κ × MaybeDocument κ δ)} (hresults : c.info = none → Answers q c.store results)
    (remoteKeys : DocumentKeySet κ) (synthesized : Option Bool) :
    ∃ c', c.addQueryListener options results remoteKeys synthesized = .ok c' ∧ Consistent c' ∧
      Evolves c c' := by
  have hcreate : (QueryListener.create q options).onOnlineStateChanged c.onlineState =
      .ok ({ QueryListener.create q options with onlineState := c.onlineState }, none) := rfl
  have hhistory : History { c with registered := c.registered + 1 } :=
    ⟨fun id hid => hc.fresh id (Nat.le_of_succ_le hid), hc.feed, hc.removed⟩
  have hfresh : c.events c.registered = [] := hc.fresh _ le_rfl
  rcases hc.state with ⟨hinfo, hview⟩ | ⟨info, view, hinfo, hview, hlive⟩
  · obtain ⟨view, s, d, limboChanges, hcomputed, happlied, hmirrors, hcoherent, hdate⟩ :=
      initializeView_spec (hresults hinfo) remoteKeys synthesized
    have hadded : History ({ c with
        info := some ⟨[(c.registered, { QueryListener.create q options with
          onlineState := c.onlineState })], none⟩
        view := some view
        registered := c.registered + 1
        events := deliver c.events [] } : QueryClient q) :=
      ⟨fun id hid => by simpa [deliver] using hhistory.fresh id hid,
        by simpa [deliver] using hc.feed, by simpa [deliver] using hc.removed⟩
    obtain ⟨c', hok, hc', hevolves⟩ := onViewSnapshots_spec hadded (s := s) rfl rfl
      ⟨by simp, by simp, by simp⟩ (fun p hp => by
        obtain rfl := List.mem_singleton.mp hp
        exact ⟨rfl, fun h => (by cases h), fun _ => (by simp [deliver, hfresh])⟩)
      hmirrors hcoherent hdate happlied.inSync
    have hone : Evolves c ({ c with
        info := some ⟨[(c.registered, { QueryListener.create q options with
          onlineState := c.onlineState })], none⟩
        view := some view
        registered := c.registered + 1
        events := deliver c.events [] } : QueryClient q) := by
      refine ⟨Nat.le_succ _, fun id hid hmem => ?_, fun id _ _ => by simp [deliver]⟩
      obtain rfl := List.mem_singleton.mp hmem
      exact absurd hid (lt_irrefl _)
    refine ⟨c', ?_, hc', hone.trans hevolves⟩
    simp only [addQueryListener, hinfo, hcreate]
    show ({ c with
      info := some ⟨[(c.registered, { QueryListener.create q options with
        onlineState := c.onlineState })], none⟩
      registered := c.registered + 1
      events := deliver c.events [] } : QueryClient q).listen results remoteKeys synthesized = _
    simp only [listen, hview, initializeViewAndComputeSnapshot, hcomputed]
    exact hok
  · obtain ⟨s, hsnapshot, hmirrors⟩ := hlive.snapshot
    have hraised : ({ QueryListener.create q options with
        onlineState := c.onlineState } : QueryListener q).raisedInitialEvent = false := rfl
    obtain ⟨listener, event, hok, hfollows, hremoved⟩ := QueryListener.onViewSnapshot_spec
      (fun h => by rw [hraised] at h; cases h) (fun _ => hfresh) hmirrors.describes
      hmirrors.changed
    have hfollows' : ∀ p ∈ info.listeners ++ [(c.registered, listener)],
        ∃ event' : Option (ViewSnapshot q),
          (p.2.Follows view.documentSet (view.syncState = .local) c.onlineState
            (c.events p.1 ++ event'.toList.map some) ∧
            (q.limitType = .none → ∀ e ∈ event', e.CarriesRemoved)) ∧
          (event.toList.map fun s => (c.registered, s)).filter (fun e => e.1 = p.1) =
            event'.toList.map fun s => (p.1, s) := by
      intro p hp
      rcases List.mem_append.mp hp with hp | hp
      · have hlt := hlive.known p.1 (List.mem_map_of_mem hp)
        refine ⟨none, ⟨by simpa using hlive.follows p hp, by simp⟩, ?_⟩
        rw [Option.toList_none, List.map_nil, List.filter_eq_nil_iff]
        intro e he
        obtain ⟨s, -, rfl⟩ := List.mem_map.mp he
        simpa using (ne_of_lt hlt).symm
      · obtain rfl := List.mem_singleton.mp hp
        refine ⟨event, ⟨?_, fun hlimit e he => hremoved e he (hmirrors.removed hlimit)⟩, ?_⟩
        · rw [← hmirrors.documents, ← hmirrors.fromCache]
          exact hfollows
        · rw [List.filter_eq_self]
          intro e he
          obtain ⟨s, -, rfl⟩ := List.mem_map.mp he
          simp
    have hlisted : Listed { c with registered := c.registered + 1 }
        { info with listeners := info.listeners ++ [(c.registered, listener)] } := by
      refine ⟨by simp, ?_, ?_⟩
      · rw [List.map_append]
        refine List.Nodup.append hlive.nodup (by simp) ?_
        intro id hid hmem
        obtain rfl := List.mem_singleton.mp hmem
        exact absurd (hlive.known _ hid) (lt_irrefl _)
      · intro id hid
        rw [List.map_append, List.mem_append] at hid
        rcases hid with hid | hid
        · exact Nat.lt_succ_of_lt (hlive.known id hid)
        · obtain rfl := List.mem_singleton.mp hid
          exact Nat.lt_succ_self _
    obtain ⟨hhistory', hall⟩ := hhistory.deliver { c with
        info := some { info with listeners := info.listeners ++ [(c.registered, listener)] }
        registered := c.registered + 1
        events := deliver c.events (event.toList.map fun s => (c.registered, s)) } rfl rfl
      hlisted.known hfollows' (fun id hid => by
        rw [List.filter_eq_nil_iff]
        intro e he
        obtain ⟨s, -, rfl⟩ := List.mem_map.mp he
        rintro heq
        exact hid (by simp [← (show c.registered = id by simpa using heq)]))
    refine ⟨_, ?_, ⟨hhistory', Or.inr ⟨_, view, rfl, hview, ⟨hlisted.nonempty, hlisted.nodup,
      hlisted.known⟩, hlive.coherent, hlive.upToDate, hlive.inSync, ⟨s, hsnapshot, hmirrors⟩,
      hall⟩⟩, Nat.le_succ _, fun id hid hmem => ?_, fun id hid _ => ?_⟩
    · simp only [addQueryListener, hinfo, hcreate, Option.getD_some, hsnapshot]
      show (QueryListener.onViewSnapshot { QueryListener.create q options with
        onlineState := c.onlineState } s >>= _) = _
      rw [hok]
      rfl
    · simp only [ids, hinfo]
      simp only [ids, List.map_append, List.mem_append] at hmem
      refine hmem.resolve_right fun h => ?_
      obtain rfl := List.mem_singleton.mp h
      exact absurd hid (lt_irrefl _)
    · have hnil :
          (event.toList.map fun s => (c.registered, s)).filter (fun e => e.1 = id) = [] := by
        rw [List.filter_eq_nil_iff]
        intro e he
        obtain ⟨s, -, rfl⟩ := List.mem_map.mp he
        simpa using (ne_of_lt hid).symm
      simp only [deliver, hnil, List.map_nil, List.append_nil]

omit [DecidableEq δ] in
/-- Handing on a snapshot leaves alone what is known of the query, but for its listeners. -/
lemma same_of_onViewSnapshots {c c' : QueryClient q} {snapshot : Option (ViewSnapshot q)}
    (h : c.onViewSnapshots snapshot = .ok c') :
    c'.store = c.store ∧ c'.info.isSome = c.info.isSome := by
  unfold onViewSnapshots at h
  split at h
  case h_1 info hinfo =>
    obtain ⟨⟨listeners, raised⟩, -, h⟩ := ok_of_bind h
    cases h
    rw [hinfo]
    exact ⟨rfl, rfl⟩
  case h_2 =>
    cases h
    exact ⟨rfl, rfl⟩

/-- After a listener has come the query is listened to, and the local store is as before. -/
lemma same_of_addQueryListener {c c' : QueryClient q} {options : ListenOptions}
    {results : List (κ × MaybeDocument κ δ)} {remoteKeys : DocumentKeySet κ}
    {synthesized : Option Bool}
    (h : c.addQueryListener options results remoteKeys synthesized = .ok c') :
    c'.store = c.store ∧ c'.info.isSome = true := by
  obtain ⟨⟨listener, event⟩, -, h⟩ := ok_of_bind h
  obtain ⟨_, -, h⟩ := ok_of_bind h
  dsimp only at h
  split at h
  all_goals
    obtain ⟨⟨listener, event⟩, -, h⟩ := ok_of_bind h
    dsimp only at h
    split_ifs at h
    · obtain ⟨_, -, h⟩ := ok_of_bind h
      obtain ⟨⟨view, snapshot⟩, -, h⟩ := ok_of_bind h
      exact same_of_onViewSnapshots h
    · cases h
      exact ⟨rfl, rfl⟩

/-- After a change of the local store the query is listened to as before. -/
lemma same_of_emitNewSnapshots {c c' : QueryClient q} {store : LocalDocuments κ δ}
    {changes results : List (κ × MaybeDocument κ δ)} {targetChange : Option (TargetChange κ)}
    (h : c.emitNewSnapshots store changes results targetChange = .ok c') :
    c'.store = store ∧ c'.info.isSome = c.info.isSome := by
  unfold emitNewSnapshots at h
  split at h
  · cases h
    exact ⟨rfl, rfl⟩
  · obtain ⟨d, -, h⟩ := ok_of_bind h
    obtain ⟨⟨view, snapshot, limboChanges⟩, -, h⟩ := ok_of_bind h
    exact same_of_onViewSnapshots h

/-- The state of the local store after an event. -/
def Event.storeAfter (store : LocalDocuments κ δ) : Event κ δ → LocalDocuments κ δ
  | .addQueryListener _ _ _ _ => store
  | .removeQueryListener _ => store
  | .emitNewSnapshots store' _ _ _ => store'
  | .handleOnlineStateChange _ => store
  | .handleRejectedListen => store

/-- Only changes of the local store change it. -/
lemma store_of_next {c c' : QueryClient q} {e : Event κ δ} (h : c.next e = .ok c') :
    c'.store = e.storeAfter c.store := by
  cases e with
  | addQueryListener options results remoteKeys synthesized =>
    exact (same_of_addQueryListener h).1
  | removeQueryListener id =>
    change c.removeQueryListener id = .ok c' at h
    unfold removeQueryListener at h
    split at h
    · cases h
      rfl
    · dsimp only at h
      split_ifs at h
      · obtain ⟨_, -, h⟩ := ok_of_bind h
        cases h
        rfl
      · cases h
        rfl
  | emitNewSnapshots store changes results targetChange =>
    exact (same_of_emitNewSnapshots h).1
  | handleOnlineStateChange onlineState =>
    obtain ⟨c₁, h₁, h⟩ := ok_of_bind h
    have hview : c₁.store = c.store := by
      unfold applyOnlineState at h₁
      split at h₁
      · cases h₁
        rfl
      · obtain ⟨⟨view, snapshot, limboChanges⟩, -, h₁⟩ := ok_of_bind h₁
        obtain ⟨_, -, h₁⟩ := ok_of_bind h₁
        exact (same_of_onViewSnapshots h₁).1
    have hlisteners : c'.store = c₁.store := by
      unfold notifyOnlineState at h
      split at h
      · obtain ⟨⟨listeners, raised⟩, -, h⟩ := ok_of_bind h
        cases h
        rfl
      · cases h
        rfl
    exact hlisteners.trans hview
  | handleRejectedListen =>
    cases h
    rfl

/-- **One event** that fits can happen, and keeps the invariant. -/
lemma next_spec {c : QueryClient q} (hc : Consistent c) {e : Event κ δ} (he : e.Fits c) :
    ∃ c', c.next e = .ok c' ∧ Consistent c' ∧ Evolves c c' := by
  cases e with
  | addQueryListener options results remoteKeys synthesized =>
    exact addQueryListener_spec hc options he remoteKeys synthesized
  | removeQueryListener id => exact removeQueryListener_spec hc id
  | emitNewSnapshots store changes results targetChange => exact emitNewSnapshots_spec hc he
  | handleOnlineStateChange onlineState =>
    obtain ⟨c₁, hok, hc₁, hevolves₁⟩ := applyOnlineState_spec hc onlineState
    obtain ⟨c', hok', hc', hevolves'⟩ := notifyOnlineState_spec hc₁ onlineState
    refine ⟨c', ?_, hc', hevolves₁.trans hevolves'⟩
    show (c.applyOnlineState onlineState >>= fun c => c.notifyOnlineState onlineState) = .ok c'
    rw [hok]
    exact hok'
  | handleRejectedListen => exact ⟨_, rfl, handleRejectedListen_spec hc⟩

omit [DecidableEq δ] in
/-- Before the first listener there is nothing to follow. -/
lemma consistent_start (q : Query κ δ) (store : LocalDocuments κ δ) :
    Consistent (start q store) :=
  ⟨⟨fun _ _ => rfl, fun _ => ⟨_, Feed.start⟩, fun _ _ _ h => by cases h⟩, Or.inl ⟨rfl, rfl⟩⟩

end

end QueryClient

end AntViewer.Firestore
