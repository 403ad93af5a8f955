import AntViewer.Firestore.RandomAccessQueue
import AntViewer.Firestore.View
import AntViewer.Library.Runs
import Mathlib.Data.List.AList

set_option relaxedAutoImplicit false
set_option autoImplicit false

/-!
# Looking up the documents in limbo

A document is in limbo if a view shows it although the server does not report it. The sync engine
looks such documents up one by one, with a target of their own, and at most so many at a time; the
others wait in a queue. It counts the references of the views to the documents in limbo, so that
a lookup ends when the last view has let go of its document.

## Main definitions

* `ReferenceSet` — which documents are in limbo for which targets.
* `LimboResolutions` — what the sync engine keeps of the lookups, with the targets that the remote
  store listens to.
* `LimboAction`, `Orderly` — the history of the lookups, and the life of a document in it.
* `phaseOf` — what is known about a document after the history so far.
-/

namespace AntViewer.Firestore

open Runs RandomAccessQueue

/-- `ReferenceSet`: references of targets to documents. -/
abbrev ReferenceSet (κ : Type*) := Finset (κ × ℕ)

namespace ReferenceSet

variable {κ : Type*} [LinearOrder κ]

/-- `AddReference(key, id)`. -/
def addReference (refs : ReferenceSet κ) (key : κ) (id : ℕ) : ReferenceSet κ :=
  insert (key, id) refs

/-- `RemoveReference(key, id)`. -/
def removeReference (refs : ReferenceSet κ) (key : κ) (id : ℕ) : ReferenceSet κ :=
  refs.erase (key, id)

/-- `ReferencedKeys(id)`. -/
def referencedKeys (refs : ReferenceSet κ) (id : ℕ) : DocumentKeySet κ :=
  (refs.filter fun r => r.2 = id).image Prod.fst

/-- `RemoveReferences(id)`. -/
def removeReferences (refs : ReferenceSet κ) (id : ℕ) : ReferenceSet κ :=
  refs.filter fun r => r.2 ≠ id

/-- `ContainsKey(key)`. -/
def containsKey (refs : ReferenceSet κ) (key : κ) : Bool :=
  decide (∃ r ∈ refs, r.1 = key)

@[simp] lemma mem_referencedKeys {refs : ReferenceSet κ} {key : κ} {id : ℕ} :
    key ∈ refs.referencedKeys id ↔ (key, id) ∈ refs := by
  simp [referencedKeys]

@[simp] lemma containsKey_iff {refs : ReferenceSet κ} {key : κ} :
    refs.containsKey key = true ↔ ∃ id, (key, id) ∈ refs := by
  simp [containsKey]

end ReferenceSet

/-- `TargetData`: a target of queries, or the lookup of a document in limbo. -/
inductive TargetData (κ : Type*)
  | listen
  | limboResolution (key : κ)
  deriving DecidableEq

/-- What is done to a document while it is in limbo. -/
inductive LimboAction (κ : Type*)
  | enqueued (key : κ)
  | started (key : κ) (target : ℕ)
  | dropped (key : κ)
  | stopped (key : κ) (target : ℕ)
  | rejected (key : κ) (target : ℕ)
  deriving DecidableEq

/-- The part of `SyncEngine` that looks up documents in limbo, with the part of `RemoteStore` that
knows the targets. -/
structure LimboResolutions (κ : Type*) where
  limboDocumentRefs : ReferenceSet κ
  enqueuedLimboResolutions : RandomAccessQueue κ
  activeLimboTargetsByKey : AList fun _ : κ => ℕ
  activeLimboResolutionsByTarget : AList fun _ : ℕ => κ
  /-- The next id of `target_id_generator_`. -/
  nextId : ℕ
  maxConcurrentLimboResolutions : ℕ
  /-- `listen_targets_` of the remote store. -/
  listenTargets : AList fun _ : ℕ => TargetData κ
  /-- What was done to the documents so far, which the source does not keep. -/
  log : List (LimboAction κ)

/-- `emplace(key, value)`: what a map has for a key stays. -/
def emplace {α β : Type*} [DecidableEq α] (m : AList fun _ : α => β) (a : α) (b : β) :
    AList fun _ : α => β :=
  if a ∈ m then m else m.insert a b

namespace LimboResolutions

variable {κ : Type*} [LinearOrder κ]

/-- No document is in limbo. The ids of the sync engine are odd; those of queries are even. -/
def start (κ : Type*) (maxConcurrentLimboResolutions : ℕ) : LimboResolutions κ where
  limboDocumentRefs := ∅
  enqueuedLimboResolutions := RandomAccessQueue.create κ
  activeLimboTargetsByKey := ∅
  activeLimboResolutionsByTarget := ∅
  nextId := 1
  maxConcurrentLimboResolutions := maxConcurrentLimboResolutions
  listenTargets := ∅
  log := []

/-- `RemoteStore::Listen(target_data)`. -/
def listen (s : LimboResolutions κ) (target : ℕ) (data : TargetData κ) : LimboResolutions κ :=
  { s with listenTargets := emplace s.listenTargets target data }

/-- `RemoteStore::StopListening(target_id)`. -/
def stopListening (s : LimboResolutions κ) (target : ℕ) : Except String (LimboResolutions κ) := do
  hardAssert (target ∈ s.listenTargets) "StopListening: target not currently watched"
  return { s with listenTargets := s.listenTargets.erase target }

/-- The body of the loop of `PumpEnqueuedLimboResolutions`, for the key in front. -/
def startResolution (s : LimboResolutions κ) (key : κ) : LimboResolutions κ :=
  let limboTargetId := s.nextId
  listen { s with
    enqueuedLimboResolutions := s.enqueuedLimboResolutions.popFront
    nextId := s.nextId + 2
    activeLimboResolutionsByTarget := emplace s.activeLimboResolutionsByTarget limboTargetId key
    activeLimboTargetsByKey := emplace s.activeLimboTargetsByKey key limboTargetId
    log := s.log ++ [.started key limboTargetId] } limboTargetId (.limboResolution key)

/-- The loop of `PumpEnqueuedLimboResolutions`, `i` times at most. -/
def pump : ℕ → LimboResolutions κ → Except String (LimboResolutions κ)
  | 0, s => return s
  | i + 1, s =>
    if !s.enqueuedLimboResolutions.empty &&
        s.activeLimboTargetsByKey.keys.length < s.maxConcurrentLimboResolutions then do
      match ← s.enqueuedLimboResolutions.front with
      | none => return s
      | some key => pump i (s.startResolution key)
    else return s

/-- `PumpEnqueuedLimboResolutions()`. Every time around takes an entry out of the queue. -/
def pumpEnqueuedLimboResolutions (s : LimboResolutions κ) : Except String (LimboResolutions κ) :=
  pump s.enqueuedLimboResolutions.queue.length s

/-- `TrackLimboChange(limbo_change)`. -/
def trackLimboChange (s : LimboResolutions κ) (key : κ) : Except String (LimboResolutions κ) :=
  if key ∈ s.activeLimboTargetsByKey then return s
  else
    let (enqueued, added) := s.enqueuedLimboResolutions.pushBack key
    if added then
      pumpEnqueuedLimboResolutions { s with
        enqueuedLimboResolutions := enqueued
        log := s.log ++ [.enqueued key] }
    else return { s with enqueuedLimboResolutions := enqueued }

/-- The first line of `RemoveLimboTarget(key)`. -/
def dropEnqueued (s : LimboResolutions κ) (key : κ) : LimboResolutions κ :=
  let (enqueued, removed) := s.enqueuedLimboResolutions.remove key
  { s with
    enqueuedLimboResolutions := enqueued
    log := if removed then s.log ++ [.dropped key] else s.log }

/-- `RemoveLimboTarget(key)`. -/
def removeLimboTarget (s : LimboResolutions κ) (key : κ) : Except String (LimboResolutions κ) := do
  let s := s.dropEnqueued key
  match s.activeLimboTargetsByKey.lookup key with
  | none => return s
  | some limboTargetId =>
    let s ← s.stopListening limboTargetId
    pumpEnqueuedLimboResolutions { s with
      activeLimboTargetsByKey := s.activeLimboTargetsByKey.erase key
      activeLimboResolutionsByTarget := s.activeLimboResolutionsByTarget.erase limboTargetId
      log := s.log ++ [.stopped key limboTargetId] }

/-- The body of the loop of `UpdateTrackedLimboDocuments`. -/
def updateTrackedLimboDocument (target : ℕ) (s : LimboResolutions κ) :
    LimboDocumentChange κ → Except String (LimboResolutions κ)
  | .added key =>
    trackLimboChange
      { s with limboDocumentRefs := s.limboDocumentRefs.addReference key target } key
  | .removed key =>
    let s := { s with limboDocumentRefs := s.limboDocumentRefs.removeReference key target }
    if !s.limboDocumentRefs.containsKey key then removeLimboTarget s key else return s

/-- `UpdateTrackedLimboDocuments(limbo_changes, target_id)`. -/
def updateTrackedLimboDocuments (s : LimboResolutions κ)
    (limboChanges : List (LimboDocumentChange κ)) (target : ℕ) :
    Except String (LimboResolutions κ) :=
  limboChanges.foldlM (updateTrackedLimboDocument target) s

/-- The part of `RemoveAndCleanupTarget` about documents in limbo. -/
def removeAndCleanupTarget (s : LimboResolutions κ) (target : ℕ) :
    Except String (LimboResolutions κ) :=
  let limboKeys := s.limboDocumentRefs.referencedKeys target
  let s := { s with limboDocumentRefs := s.limboDocumentRefs.removeReferences target }
  (inKeyOrder limboKeys).foldlM
    (fun s key => if !s.limboDocumentRefs.containsKey key then removeLimboTarget s key
      else return s) s

/-- The first branch of `SyncEngine::HandleRejectedListen`: a lookup failed. -/
def handleRejectedLookup (s : LimboResolutions κ) (target : ℕ) (limboKey : κ) :
    Except String (LimboResolutions κ) :=
  pumpEnqueuedLimboResolutions { s with
    activeLimboTargetsByKey := s.activeLimboTargetsByKey.erase limboKey
    activeLimboResolutionsByTarget := s.activeLimboResolutionsByTarget.erase target
    log := s.log ++ [.rejected limboKey target] }

/-- `RemoteStore::ProcessTargetError` for one target, with what `HandleRejectedListen` does about
the lookups; targets that have been removed already are ignored. -/
def processTargetError (s : LimboResolutions κ) (target : ℕ) :
    Except String (LimboResolutions κ) :=
  if target ∈ s.listenTargets then
    let s := { s with listenTargets := s.listenTargets.erase target }
    match s.activeLimboResolutionsByTarget.lookup target with
    | some limboKey => handleRejectedLookup s target limboKey
    | none => removeAndCleanupTarget s target
  else return s

end LimboResolutions

/-! ## The life of a document in limbo -/

/-- What is known about a document: it is not looked up, it waits, it is looked up with a target,
or the server has rejected the lookup. -/
inductive Phase
  | idle
  | waiting
  | active (target : ℕ)
  | rejected
  deriving DecidableEq

namespace LimboAction

variable {κ : Type*}

/-- The document that something is done to. -/
def key : LimboAction κ → κ
  | .enqueued key => key
  | .started key _ => key
  | .dropped key => key
  | .stopped key _ => key
  | .rejected key _ => key

/-- The phase of the document afterwards. -/
def phase : LimboAction κ → Phase
  | .enqueued _ => .waiting
  | .started _ target => .active target
  | .dropped _ => .idle
  | .stopped _ _ => .idle
  | .rejected _ _ => .rejected

/-- In which phases of the document it can be done. -/
def Follows (before : Phase) : LimboAction κ → Prop
  | .enqueued _ => before = .idle ∨ before = .rejected
  | .started _ _ => before = .waiting
  | .dropped _ => before = .waiting
  | .stopped _ target => before = .active target
  | .rejected _ target => before = .active target

/-- What it does to the queue. -/
def toOp : LimboAction κ → Option (RandomAccessQueue.Op κ)
  | .enqueued key => some (.pushBack key)
  | .started _ _ => some .popFront
  | .dropped key => some (.remove key)
  | .stopped _ _ => none
  | .rejected _ _ => none

/-- The document that is enqueued. -/
def enqueuedKey : LimboAction κ → Option κ
  | .enqueued key => some key
  | _ => none

/-- The document whose lookup is started. -/
def startedKey : LimboAction κ → Option κ
  | .started key _ => some key
  | _ => none

end LimboAction

section History

variable {κ : Type*}

/-- The operations on the queue so far. -/
def queueOps (log : List (LimboAction κ)) : List (RandomAccessQueue.Op κ) :=
  log.filterMap LimboAction.toOp

/-- What one more action adds to a part of the history. -/
lemma filterMap_concat {β : Type*} (f : LimboAction κ → Option β) (log : List (LimboAction κ))
    (a : LimboAction κ) : (log ++ [a]).filterMap f = log.filterMap f ++ (f a).toList := by
  rw [List.filterMap_append]
  cases hf : f a <;> simp [hf]

/-- What one more action does to the queue. -/
lemma queueOps_concat (log : List (LimboAction κ)) (a : LimboAction κ) :
    queueOps (log ++ [a]) = queueOps log ++ a.toOp.toList :=
  filterMap_concat _ log a

variable [DecidableEq κ]

/-- The phase a document is in: what was done to it last decides. -/
def phaseOf (log : List (LimboAction κ)) (k : κ) : Phase :=
  log.foldl (fun before a => if a.key = k then a.phase else before) .idle

/-- Everything that was done to a document could be done in the phase that it was in. -/
def Orderly (log : List (LimboAction κ)) : Prop :=
  ∀ pre a post, log = pre ++ a :: post → a.Follows (phaseOf pre a.key)

/-- What is done to a document changes its phase, and no other. -/
lemma phaseOf_concat (log : List (LimboAction κ)) (a : LimboAction κ) (k : κ) :
    phaseOf (log ++ [a]) k = if a.key = k then a.phase else phaseOf log k := by
  rw [phaseOf, List.foldl_append]
  rfl

/-- One more action that can be done. -/
lemma Orderly.concat {log : List (LimboAction κ)} (h : Orderly log) {a : LimboAction κ}
    (ha : a.Follows (phaseOf log a.key)) : Orderly (log ++ [a]) := by
  intro pre b post heq
  rcases List.eq_nil_or_concat post with rfl | ⟨post, last, rfl⟩
  · obtain ⟨rfl, hlast⟩ := List.append_inj' heq rfl
    obtain rfl := (List.cons.inj hlast).1
    exact ha
  · have hlast : log ++ [a] = (pre ++ b :: post) ++ [last] := by
      rw [heq]
      simp
    exact h pre b post (List.append_inj' hlast rfl).1

/-- Fewer operations on the queue. -/
lemma addsFresh_of_concat {log : List (LimboAction κ)} {a : LimboAction κ}
    (h : AddsFresh (queueOps (log ++ [a]))) : AddsFresh (queueOps log) := by
  rw [queueOps_concat] at h
  exact h.of_prefix (List.prefix_append _ _)

end History

end AntViewer.Firestore
