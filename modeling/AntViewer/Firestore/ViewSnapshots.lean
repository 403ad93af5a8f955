import AntViewer.Firestore.ViewMaintenance
import AntViewer.Library.ChangeFeed

set_option relaxedAutoImplicit false
set_option autoImplicit false

/-!
# The snapshots of a view

When changes are applied to a view, it takes in what the server says about the query, determines
which documents are in limbo, and emits a snapshot unless nothing has changed. A snapshot comes
with the changes from the documents before to the documents now, in a fixed order.

## Main definitions

* `ViewSnapshot.Describes` — the changes of a snapshot lead from its old documents to its new ones.
* `View.InSync` — when a view counts as synced, and which documents are in limbo.

## Main results

* `View.applyChanges_spec` — applying the changes of a view.
* `ViewSnapshot.Describes.isDiff` — to consumers, the changes are the difference of the data.
-/

namespace AntViewer.Firestore

open SortedSets Runs View ChangeFeed

variable {κ δ : Type*} {q : Query κ δ}

/-! ## The order of the changes -/

/-- Sorting keeps the changes. -/
lemma View.sortChanges_perm (changes : List (DocumentViewChange κ δ)) :
    (sortChanges q changes).Perm changes :=
  List.mergeSort_perm _ _

lemma View.sortChanges_eq_nil {changes : List (DocumentViewChange κ δ)} :
    sortChanges q changes = [] ↔ changes = [] := by
  rw [← List.length_eq_zero_iff, (sortChanges_perm changes).length_eq, List.length_eq_zero_iff]

/-- With one change for each key, the sorted changes are in strict order. -/
lemma View.sortChanges_sorted {changes : List (DocumentViewChange κ δ)}
    (hnodup : (changes.map DocumentViewChange.key).Nodup) :
    (sortChanges q changes).Pairwise (changeOrder q).Lt := by
  have hle : (sortChanges q changes).Pairwise fun a b =>
      ((changeOrder q).cmp a b).isLE = true := by
    refine List.pairwise_mergeSort ?_ ?_ changes
    · intro a b c hab hbc
      exact Std.TransCmp.isLE_trans hab hbc
    · intro a b
      have hswap : (changeOrder q).cmp a b = ((changeOrder q).cmp b a).swap :=
        Std.OrientedCmp.eq_swap
      rw [hswap]
      cases (changeOrder q).cmp b a <;> rfl
  have hkeys : (sortChanges q changes).Pairwise fun a b => a.key ≠ b.key := by
    have hperm := (sortChanges_perm (q := q) changes).map DocumentViewChange.key
    exact List.pairwise_map.mp (hperm.nodup_iff.mpr hnodup)
  refine (hle.and hkeys).imp ?_
  rintro a b ⟨hab, hne⟩
  cases hcmp : (changeOrder q).cmp a b with
  | lt => exact hcmp
  | eq => exact absurd ((changeOrder q).separates a b hcmp) hne
  | gt =>
    rw [hcmp] at hab
    cases hab

/-! ## What a snapshot says -/

section Describes

variable [LinearOrder κ]

/-- The changes of a snapshot lead from its old documents to its new ones: there is at most one
for each key, they are in order, each describes its document, and a document without a change has
kept its data. -/
structure ViewSnapshot.Describes (s : ViewSnapshot q) : Prop where
  nodup : (s.documentChanges.map DocumentViewChange.key).Nodup
  sorted : s.documentChanges.Pairwise (changeOrder q).Lt
  described : ∀ c ∈ s.documentChanges,
    c.Describes (s.oldDocuments.get? c.key) (s.documents.get? c.key)
  unchanged : ∀ k, (∀ c ∈ s.documentChanges, c.key ≠ k) →
    (s.oldDocuments.get? k).map Document.data = (s.documents.get? k).map Document.data

/-- The data of the documents of a view. -/
def DocumentSet.data (documents : DocumentSet q) (k : κ) : Option δ :=
  (documents.get? k).map Document.data

/-- What `QuerySnapshot` makes of the type of a change. -/
def DocumentViewChange.Type.toKind : DocumentViewChange.Type → Kind
  | .added => .added
  | .modified => .modified
  | .metadata => .modified
  | .removed => .removed

/-- A change of a view, as consumers see it. -/
def DocumentViewChange.toChange (c : DocumentViewChange κ δ) : Change κ δ :=
  ⟨c.type.toKind, c.key, c.document.data⟩

/-- What removals carry is the data that the document had. -/
def ViewSnapshot.CarriesRemoved (s : ViewSnapshot q) : Prop :=
  ∀ c ∈ s.documentChanges, c.type = .removed →
    s.oldDocuments.data c.key = some c.document.data

end Describes

/-! ## Applying changes -/

section Applying

variable [LinearOrder κ]

/-- A view counts as synced if it is current and no document is in limbo; while it is current,
the documents in limbo are the ones that should be. -/
structure View.InSync (view : View q) : Prop where
  synced : view.syncState = .synced ↔ view.current = true ∧ view.limboDocuments = ∅
  determined : view.syncState ≠ .none
  limbo : view.current = true →
    view.limboDocuments = view.documentSet.keys.filter fun key => view.shouldBeInLimbo key

/-- The target change says nothing about documents that the server has not reported. -/
def TargetChange.Fits (targetChange : Option (TargetChange κ)) (view : View q) : Prop :=
  ∀ change, targetChange = some change →
    change.modifiedDocuments ⊆ view.syncedDocuments ∪ change.addedDocuments

/-- What `applyChanges` returns: the new view, its snapshot unless nothing has changed, and the
changes of the documents in limbo. -/
structure View.Applied (view : View q) (c : ViewDocumentChanges q) (view' : View q)
    (snapshot : Option (ViewSnapshot q)) (limboChanges : List (LimboDocumentChange κ)) : Prop where
  documents : view'.documentSet = c.documentSet
  mutated : view'.mutatedKeys = c.mutatedKeys
  inSync : view'.InSync
  quiet : snapshot = none ↔ c.changeSet.getChanges = [] ∧ view'.syncState = view.syncState
  snapshot : ∀ s, snapshot = some s → s = {
    documents := c.documentSet
    oldDocuments := view.documentSet
    documentChanges := sortChanges q c.changeSet.getChanges
    mutatedKeys := c.mutatedKeys
    fromCache := view'.syncState = .local
    syncStateChanged := view'.syncState ≠ view.syncState
    excludesMetadataChanges := false }
  limboAdded : ∀ k, .added k ∈ limboChanges ↔ k ∈ view'.limboDocuments ∧ k ∉ view.limboDocuments
  limboRemoved : ∀ k, .removed k ∈ limboChanges ↔
    k ∈ view.limboDocuments ∧ k ∉ view'.limboDocuments
  limboNodup : limboChanges.Nodup
  resting : view'.current = false → limboChanges = []

/-- Taking in what the server says succeeds if it fits. -/
lemma View.applyTargetChange_spec (view : View q) {targetChange : Option (TargetChange κ)}
    (h : TargetChange.Fits targetChange view) :
    ∃ view', view.applyTargetChange targetChange = .ok view' ∧
      view'.documentSet = view.documentSet ∧ view'.mutatedKeys = view.mutatedKeys ∧
      view'.limboDocuments = view.limboDocuments ∧ view'.syncState = view.syncState ∧
      (targetChange = none → view'.current = view.current) := by
  cases targetChange with
  | none => exact ⟨view, rfl, rfl, rfl, rfl, rfl, fun _ => rfl⟩
  | some change =>
    have hsubset := h change rfl
    refine ⟨{ view with
      syncedDocuments := (view.syncedDocuments ∪ change.addedDocuments) \ change.removedDocuments
      current := change.current }, ?_, rfl, rfl, rfl, rfl, fun h => by cases h⟩
    simp only [applyTargetChange, hsubset, decide_true, hardAssert_true]
    rfl

/-- Determining the documents in limbo, and reporting those that enter and leave it. -/
lemma View.updateLimboDocuments_spec (view : View q) :
    ∃ limboDocuments limboChanges,
      view.updateLimboDocuments = ({ view with limboDocuments := limboDocuments }, limboChanges) ∧
      (view.current = true → limboDocuments =
        view.documentSet.keys.filter fun key => view.shouldBeInLimbo key) ∧
      (∀ k, .added k ∈ limboChanges ↔ k ∈ limboDocuments ∧ k ∉ view.limboDocuments) ∧
      (∀ k, .removed k ∈ limboChanges ↔ k ∈ view.limboDocuments ∧ k ∉ limboDocuments) ∧
      limboChanges.Nodup ∧ (view.current = false → limboChanges = []) := by
  unfold updateLimboDocuments
  by_cases hcurrent : view.current = true
  · refine ⟨_, _, if_neg (by simp [hcurrent]), fun _ => rfl, ?_, ?_, ?_,
      fun h => by rw [hcurrent] at h; cases h⟩
    · intro k
      simp
    · intro k
      simp
    · refine List.nodup_append.mpr ⟨?_, ?_, ?_⟩
      · exact (nodup_inKeyOrder _).map fun _ _ h => LimboDocumentChange.removed.inj h
      · exact (nodup_inKeyOrder _).map fun _ _ h => LimboDocumentChange.added.inj h
      · rintro _ hremoved _ hadded rfl
        obtain ⟨k, -, hk⟩ := List.mem_map.mp hremoved
        obtain ⟨k', -, hk'⟩ := List.mem_map.mp hadded
        rw [← hk] at hk'
        cases hk'
  · refine ⟨view.limboDocuments, [], if_pos (by simpa using hcurrent),
      fun h => absurd h hcurrent, ?_, ?_, List.nodup_nil, fun _ => rfl⟩
    · intro k
      simp
    · intro k
      simp

/-- **Applying changes** that need no refill succeeds if what the server says fits.

**Proof sketch.** The steps are taken one after the other: what the server says, the documents in
limbo, the sync state. Which documents should be in limbo depends on neither of the last two. -/
theorem View.applyChanges_spec (view : View q) {c : ViewDocumentChanges q}
    {targetChange : Option (TargetChange κ)} (hrefill : c.needsRefill = false)
    (htarget : TargetChange.Fits targetChange view) :
    ∃ view' snapshot limboChanges,
      view.applyChanges c targetChange = .ok (view', snapshot, limboChanges) ∧
      view.Applied c view' snapshot limboChanges ∧
      (targetChange = none → view'.current = view.current) := by
  have hfits : TargetChange.Fits targetChange
      { view with documentSet := c.documentSet, mutatedKeys := c.mutatedKeys } := htarget
  obtain ⟨view₁, hview₁, hdocuments, hmutated, hlimbo, hstate, hkept⟩ :=
    applyTargetChange_spec _ hfits
  obtain ⟨limboDocuments, limboChanges, hview₂, hcurrent, hadded, hremoved, hnodup, hresting⟩ :=
    updateLimboDocuments_spec view₁
  have happly : view.applyChanges c targetChange =
      .ok (view₁.emitSnapshot view.documentSet (sortChanges q c.changeSet.getChanges)) := by
    unfold applyChanges
    rw [hrefill]
    show (applyTargetChange { view with documentSet := c.documentSet, mutatedKeys := c.mutatedKeys }
      targetChange >>= _) = _
    rw [hview₁]
    rfl
  obtain ⟨newSyncState, hnew, hsynced⟩ : ∃ newSyncState, (if limboDocuments = ∅ ∧
      view₁.current = true then SyncState.synced else SyncState.local) = newSyncState ∧
      (newSyncState = .synced ↔ view₁.current = true ∧ limboDocuments = ∅) := by
    refine ⟨_, rfl, ?_⟩
    by_cases h : limboDocuments = ∅ ∧ view₁.current = true
    · simp [h]
    · rw [if_neg h]
      simpa [and_comm] using h
  have hdetermined : newSyncState ≠ .none := by
    rw [← hnew]
    split_ifs <;> simp
  have hemit : view₁.emitSnapshot view.documentSet (sortChanges q c.changeSet.getChanges) =
      ({ view₁ with limboDocuments := limboDocuments, syncState := newSyncState },
        if c.changeSet.getChanges = [] ∧ newSyncState = view.syncState then none else some {
          documents := c.documentSet
          oldDocuments := view.documentSet
          documentChanges := sortChanges q c.changeSet.getChanges
          mutatedKeys := c.mutatedKeys
          fromCache := newSyncState = .local
          syncStateChanged := newSyncState ≠ view.syncState
          excludesMetadataChanges := false }, limboChanges) := by
    unfold emitSnapshot
    simp only [hview₂, hnew, hstate, hdocuments, hmutated, List.isEmpty_iff, sortChanges_eq_nil,
      ne_eq, not_not]
    split_ifs <;> rfl
  refine ⟨_, _, _, happly.trans (congrArg Except.ok hemit), ⟨hdocuments, hmutated,
    ⟨hsynced, hdetermined, hcurrent⟩, ?_, ?_, ?_, ?_, hnodup, hresting⟩, hkept⟩
  · rw [ite_eq_left_iff]
    simp
  · intro s hs
    split_ifs at hs
    exact (Option.some.inj hs).symm
  · rw [← hlimbo]
    exact hadded
  · rw [← hlimbo]
    exact hremoved

/-- The changes of a draft lead from the documents of the view to those of the draft. -/
lemma ViewDocumentChanges.Draft.describes {documents : DocumentSet q} {c : ViewDocumentChanges q}
    (h : c.Draft documents) {s : ViewSnapshot q} (hold : s.oldDocuments = documents)
    (hnew : s.documents = c.documentSet)
    (hchanges : s.documentChanges = sortChanges q c.changeSet.getChanges) : s.Describes := by
  have hperm : s.documentChanges.Perm c.changeSet.elements := by
    rw [hchanges]
    exact sortChanges_perm _
  have hnodup : (c.changeSet.elements.map DocumentViewChange.key).Nodup := c.changeSet.nodup
  refine ⟨(hperm.map _).nodup_iff.mpr hnodup, ?_, ?_, ?_⟩
  · rw [hchanges]
    exact sortChanges_sorted hnodup
  · intro change hchange
    have hget : c.changeSet.get? change.key = some change :=
      SortedSet.get?_key (hperm.mem_iff.mp hchange)
    have htracks := h.tracks change.key
    rw [hget] at htracks
    rw [hold, hnew]
    exact htracks
  · intro k hk
    have hget : c.changeSet.get? k = none :=
      SortedSet.get?_eq_none_iff.mpr fun change hchange => hk change (hperm.mem_iff.mpr hchange)
    have htracks := h.tracks k
    rw [hget] at htracks
    rw [hold, hnew]
    exact congrArg _ htracks

/-- Without changes, the documents of a draft are those of the view. -/
lemma ViewDocumentChanges.Draft.eq_of_nil {documents : DocumentSet q} {c : ViewDocumentChanges q}
    (h : c.Draft documents) (hnil : c.changeSet.getChanges = []) : c.documentSet = documents := by
  apply SortedSet.ext_get?
  intro k
  have hget : c.changeSet.get? k = none := by
    refine SortedSet.get?_eq_none_iff.mpr fun change hchange => ?_
    have hmem : change ∈ c.changeSet.getChanges := hchange
    rw [hnil] at hmem
    cases hmem
  have htracks := h.tracks k
  rw [hget] at htracks
  exact htracks.symm

end Applying

end AntViewer.Firestore
