import AntViewer.Firestore.ViewChanges
import Mathlib.Data.Finset.Sort

set_option relaxedAutoImplicit false
set_option autoImplicit false

/-!
# The view of a query

The client keeps, for every query that is listened to, a view: the documents of its result, and
what is known about their being in sync with the server. When documents of the local store
change, the view computes its new documents and their changes from the changed documents alone.
A query with a limit may then need a second pass over all documents that match it. The changes
are applied in a separate step, which also takes in what the server says about the query.

## Main definitions

* `View.computeDocumentChanges` — the new documents and the changes.
* `View.applyChanges`, `View.applyOnlineStateChange` — the new state, and the snapshot to emit.
* `ViewSnapshot` — what listeners are handed.
-/

namespace AntViewer.Firestore

open SortedSets

variable {κ δ : Type*}

/-- Whether the documents of a view are known to be what the server has. -/
inductive SyncState
  | none
  | local
  | synced
  deriving DecidableEq

/-- Whether the client is connected. -/
inductive OnlineState
  | unknown
  | online
  | offline
  deriving DecidableEq

/-- What the server says about the result of a query. -/
structure TargetChange (κ : Type*) where
  current : Bool
  addedDocuments : DocumentKeySet κ
  modifiedDocuments : DocumentKeySet κ
  removedDocuments : DocumentKeySet κ

/-- The keys in the order in which loops go through them. -/
def inKeyOrder {κ : Type*} [LinearOrder κ] (keys : DocumentKeySet κ) : List κ :=
  keys.sort (· ≤ ·)

@[simp] lemma mem_inKeyOrder {κ : Type*} [LinearOrder κ] {keys : DocumentKeySet κ} {k : κ} :
    k ∈ inKeyOrder keys ↔ k ∈ keys :=
  Finset.mem_sort _

lemma nodup_inKeyOrder {κ : Type*} [LinearOrder κ] (keys : DocumentKeySet κ) :
    (inKeyOrder keys).Nodup :=
  Finset.sort_nodup _ _

/-- A document enters or leaves limbo. -/
inductive LimboDocumentChange (κ : Type*)
  | added (key : κ)
  | removed (key : κ)
  deriving DecidableEq

/-- The new documents of a view and their changes. -/
structure ViewDocumentChanges {κ δ : Type*} [LinearOrder κ] (q : Query κ δ) where
  documentSet : DocumentSet q
  changeSet : DocumentViewChangeSet κ δ
  mutatedKeys : DocumentKeySet κ
  needsRefill : Bool

/-- The state of a query at one moment, with the changes since the moment before. -/
structure ViewSnapshot {κ δ : Type*} (q : Query κ δ) where
  documents : DocumentSet q
  oldDocuments : DocumentSet q
  documentChanges : List (DocumentViewChange κ δ)
  mutatedKeys : DocumentKeySet κ
  fromCache : Bool
  syncStateChanged : Bool
  excludesMetadataChanges : Bool

/-- `View`. -/
structure View {κ δ : Type*} (q : Query κ δ) where
  documentSet : DocumentSet q
  syncState : SyncState
  current : Bool
  syncedDocuments : DocumentKeySet κ
  limboDocuments : DocumentKeySet κ
  mutatedKeys : DocumentKeySet κ

namespace View

variable {q : Query κ δ}

/-- `View(query, remote_documents)`. -/
def create (q : Query κ δ) (remoteDocuments : DocumentKeySet κ) : View q where
  documentSet := SortedSet.empty q.order
  syncState := .none
  current := false
  syncedDocuments := remoteDocuments
  limboDocuments := ∅
  mutatedKeys := ∅

/-- `ShouldWaitForSyncedDocument(new_doc, old_doc)`: the document of an acknowledged write is not
shown, since the server will send it again. -/
def shouldWaitForSyncedDocument (newDoc oldDoc : Document κ δ) : Bool :=
  oldDoc.hasLocalMutations && newDoc.hasCommittedMutations && !newDoc.hasLocalMutations

section

variable [LinearOrder κ] [DecidableEq δ]

/-! ### Computing the changes -/

/-- The part of `ComputeDocumentChanges` that decides what the change of one document is.
Committed mutations count for documents that were mutated during the lifetime of the view. -/
def calculateChange (view : View q) (key : κ) (oldDoc newDoc : Option (Document κ δ)) :
    Option (DocumentViewChange κ δ) :=
  let oldDocHadPendingMutations : Bool := oldDoc.isSome && key ∈ view.mutatedKeys
  let newDocHasPendingMutations : Bool := newDoc.any fun d =>
    d.hasLocalMutations || (key ∈ view.mutatedKeys && d.hasCommittedMutations)
  match oldDoc, newDoc with
  | some old, some new =>
    if old.data ≠ new.data then
      if shouldWaitForSyncedDocument new old then none else some ⟨new, .modified⟩
    else if oldDocHadPendingMutations ≠ newDocHasPendingMutations then some ⟨new, .metadata⟩
    else none
  | none, some new => some ⟨new, .added⟩
  | some old, none => some ⟨old, .removed⟩
  | none, none => none

/-- The part of `ComputeDocumentChanges` that decides whether a change may make room for a
document that was past the limit: a document that was in a full limit moves out or is removed. -/
def makesRoom (lastDocInLimit firstDocInLimit : Option (Document κ δ))
    (change : DocumentViewChange κ δ) : Bool :=
  match change.type with
  | .modified =>
    lastDocInLimit.any (fun last => q.order.cmp change.document last = .gt) ||
      firstDocInLimit.any fun first => q.order.cmp change.document first = .lt
  | .removed => lastDocInLimit.isSome || firstDocInLimit.isSome
  | _ => false

/-- The body of the loop of `ComputeDocumentChanges` over the changed documents. -/
def applyDocument (view : View q) (oldDocumentSet : DocumentSet q)
    (lastDocInLimit firstDocInLimit : Option (Document κ δ)) (acc : ViewDocumentChanges q)
    (docChange : κ × MaybeDocument κ δ) : Except String (ViewDocumentChanges q) := do
  let (key, maybeNewDoc) := docChange
  let oldDoc := oldDocumentSet.get? key
  hardAssert (maybeNewDoc.toDocument.all fun d => key = d.key)
    "Mismatching key in document changes"
  let newDoc := maybeNewDoc.toDocument.filter q.Matches
  match view.calculateChange key oldDoc newDoc with
  | none => return acc
  | some change =>
    let changeSet ← acc.changeSet.addChange change
    let needsRefill :=
      acc.needsRefill || makesRoom (q := q) lastDocInLimit firstDocInLimit change
    match newDoc with
    | some d => return {
        documentSet := acc.documentSet.insert d
        changeSet := changeSet
        mutatedKeys :=
          if d.hasLocalMutations then insert key acc.mutatedKeys else acc.mutatedKeys.erase key
        needsRefill := needsRefill }
    | none => return {
        documentSet := acc.documentSet.erase key
        changeSet := changeSet
        mutatedKeys := acc.mutatedKeys.erase key
        needsRefill := needsRefill }

/-- The loop of `ComputeDocumentChanges` that drops documents out to meet the limit, `i` of them. -/
def dropDocuments : ℕ → ViewDocumentChanges q → Except String (ViewDocumentChanges q)
  | 0, acc => return acc
  | i + 1, acc => do
    let found := if q.hasLimitToFirst then acc.documentSet.last else acc.documentSet.first
    match found with
    -- the loop runs while there are more documents than the limit
    | none => return acc
    | some oldDoc =>
      let changeSet ← acc.changeSet.addChange ⟨oldDoc, .removed⟩
      dropDocuments i { acc with
        documentSet := acc.documentSet.erase oldDoc.key
        mutatedKeys := acc.mutatedKeys.erase oldDoc.key
        changeSet := changeSet }

/-- The part of `ComputeDocumentChanges` that drops documents out to meet the limit. -/
def meetLimit (acc : ViewDocumentChanges q) : Except String (ViewDocumentChanges q) :=
  if q.limitType ≠ .none then dropDocuments (acc.documentSet.size - q.limit) acc else .ok acc

/-- The last document of a view that has all documents its limit to the first ones allows. -/
def lastDocInLimit (oldDocumentSet : DocumentSet q) : Option (Document κ δ) :=
  if q.hasLimitToFirst ∧ oldDocumentSet.size = q.limit then oldDocumentSet.last else none

/-- The first document of a view that has all documents its limit to the last ones allows. -/
def firstDocInLimit (oldDocumentSet : DocumentSet q) : Option (Document κ δ) :=
  if q.hasLimitToLast ∧ oldDocumentSet.size = q.limit then oldDocumentSet.first else none

/-- Where `ComputeDocumentChanges` starts: a second pass continues the changes of the first. -/
def startChanges (view : View q) (previousChanges : Option (ViewDocumentChanges q)) :
    ViewDocumentChanges q :=
  match previousChanges with
  | some previous => { previous with needsRefill := false }
  | none => ⟨view.documentSet, SortedSet.empty _, view.mutatedKeys, false⟩

/-- `ComputeDocumentChanges(doc_changes, previous_changes)`. -/
def computeDocumentChanges (view : View q) (docChanges : List (κ × MaybeDocument κ δ))
    (previousChanges : Option (ViewDocumentChanges q)) :
    Except String (ViewDocumentChanges q) := do
  let start := view.startChanges previousChanges
  let oldDocumentSet := start.documentSet
  let acc ← docChanges.foldlM (view.applyDocument oldDocumentSet
    (lastDocInLimit oldDocumentSet) (firstDocInLimit oldDocumentSet)) start
  let acc ← meetLimit acc
  hardAssert (!acc.needsRefill || previousChanges.isNone)
    "View was refilled using docs that themselves needed refilling."
  return acc

/-! ### Applying the changes -/

/-- `GetDocumentViewChangeTypePosition(change_type)`; metadata changes become modifications. -/
def typePosition : DocumentViewChange.Type → ℕ
  | .removed => 0
  | .added => 1
  | .modified => 2
  | .metadata => 2

/-- The order in which the changes of a snapshot come: by type, then as the query orders. -/
def changeOrder (q : Query κ δ) : Ranking κ (DocumentViewChange κ δ) :=
  (q.order.comap DocumentViewChange.document).after (compareOn fun c => typePosition c.type)

/-- `std::sort` of the changes. -/
def sortChanges (q : Query κ δ) (changes : List (DocumentViewChange κ δ)) :
    List (DocumentViewChange κ δ) :=
  changes.mergeSort fun a b => ((changeOrder q).cmp a b).isLE

/-- `ShouldBeInLimbo(key)`: a document of the view that the server does not report and that no
local write explains. -/
def shouldBeInLimbo (view : View q) (key : κ) : Bool :=
  if key ∈ view.syncedDocuments then false
  else
    match view.documentSet.get? key with
    | none => false
    | some d => !d.hasLocalMutations

/-- `ApplyTargetChange(target_change)`. -/
def applyTargetChange (view : View q) (targetChange : Option (TargetChange κ)) :
    Except String (View q) :=
  match targetChange with
  | none => .ok view
  | some change => do
    let added := view.syncedDocuments ∪ change.addedDocuments
    hardAssert (change.modifiedDocuments ⊆ added) "Modified document not found in view."
    return { view with
      syncedDocuments := added \ change.removedDocuments
      current := change.current }

/-- `UpdateLimboDocuments()`. -/
def updateLimboDocuments (view : View q) : View q × List (LimboDocumentChange κ) :=
  if !view.current then (view, [])
  else
    let oldLimboDocuments := view.limboDocuments
    let limboDocuments := view.documentSet.keys.filter fun key => view.shouldBeInLimbo key
    ({ view with limboDocuments := limboDocuments },
      (inKeyOrder (oldLimboDocuments \ limboDocuments)).map .removed ++
        (inKeyOrder (limboDocuments \ oldLimboDocuments)).map .added)

/-- The part of `ApplyChanges` after `ApplyTargetChange`: the documents in limbo and the sync state
are brought up to date, and a snapshot is made unless nothing has changed. -/
def emitSnapshot (view : View q) (oldDocuments : DocumentSet q)
    (changes : List (DocumentViewChange κ δ)) :
    View q × Option (ViewSnapshot q) × List (LimboDocumentChange κ) :=
  let (view, limboChanges) := view.updateLimboDocuments
  let synced := view.limboDocuments = ∅ ∧ view.current = true
  let newSyncState := if synced then SyncState.synced else SyncState.local
  let syncStateChanged := newSyncState ≠ view.syncState
  let view := { view with syncState := newSyncState }
  if changes.isEmpty ∧ ¬ syncStateChanged then (view, none, limboChanges)
  else (view, some {
      documents := view.documentSet
      oldDocuments := oldDocuments
      documentChanges := changes
      mutatedKeys := view.mutatedKeys
      fromCache := newSyncState = .local
      syncStateChanged := syncStateChanged
      excludesMetadataChanges := false }, limboChanges)

/-- `ApplyChanges(doc_changes, target_change)`: the new view, the snapshot to emit if there is
one, and the changes of the documents in limbo. -/
def applyChanges (view : View q) (docChanges : ViewDocumentChanges q)
    (targetChange : Option (TargetChange κ)) :
    Except String (View q × Option (ViewSnapshot q) × List (LimboDocumentChange κ)) := do
  hardAssert (!docChanges.needsRefill) "Cannot apply changes that need a refill"
  let oldDocuments := view.documentSet
  let changes := sortChanges q docChanges.changeSet.getChanges
  let view ← applyTargetChange
    { view with documentSet := docChanges.documentSet, mutatedKeys := docChanges.mutatedKeys }
    targetChange
  return emitSnapshot view oldDocuments changes

/-- `ApplyOnlineStateChange(online_state)`. -/
def applyOnlineStateChange (view : View q) (onlineState : OnlineState) :
    Except String (View q × Option (ViewSnapshot q) × List (LimboDocumentChange κ)) :=
  if view.current ∧ onlineState = .offline then
    applyChanges { view with current := false }
      ⟨view.documentSet, SortedSet.empty _, view.mutatedKeys, false⟩ none
  else .ok (view, none, [])

end

end View

end AntViewer.Firestore
