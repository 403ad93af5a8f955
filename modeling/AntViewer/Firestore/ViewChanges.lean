import AntViewer.Firestore.Document
import AntViewer.Library.Runs

set_option relaxedAutoImplicit false
set_option autoImplicit false

/-!
# Merging the changes of a view

While a view is brought up to date, every change of its documents is recorded in a change set
that keeps one change for each document: a new change of a document is merged with the one
already recorded. The pairs of changes the merge does not support would end the client.

## Main definitions

* `DocumentViewChange`, `DocumentViewChangeSet` — the changes.
* `DocumentViewChangeSet.addChange` — recording and merging a change.
* `Tracks` — a recorded change describes how a document differs from before.

## Main results

* `DocumentViewChangeSet.addChange_spec` — one change, made where it makes sense.
* `DocumentViewChangeSet.merge_edits` — every sequence of edits is recorded without failing, and
  the change set describes their joint effect.
-/

namespace AntViewer.Firestore

open SortedSets Runs

/-- The kinds of changes of a view. -/
inductive DocumentViewChange.Type
  | removed
  | added
  | modified
  /-- Only whether the document carries local writes has changed. -/
  | metadata
  deriving DecidableEq

/-- A change of a document in a view. -/
structure DocumentViewChange (κ δ : Type*) where
  document : Document κ δ
  type : DocumentViewChange.Type

namespace DocumentViewChange

variable {κ δ : Type*}

/-- The key of the changed document. -/
def key (c : DocumentViewChange κ δ) : κ := c.document.key

/-- The document after the change. -/
def after (c : DocumentViewChange κ δ) : Option (Document κ δ) :=
  match c.type with
  | .removed => none
  | _ => some c.document

/-- What a change says about its document before and after. -/
def Describes (c : DocumentViewChange κ δ) (old new : Option (Document κ δ)) : Prop :=
  match c.type with
  | .added => old = none ∧ new = some c.document
  | .modified => old.isSome ∧ new = some c.document
  | .metadata => old.map Document.data = some c.document.data ∧ new = some c.document
  | .removed => old.isSome ∧ new = none

/-- The change can be made to a document: what is added is absent, what is changed is present,
a metadata change keeps the data, and what is removed is the document that is there. -/
def Applies (c : DocumentViewChange κ δ) (old : Option (Document κ δ)) : Prop :=
  match c.type with
  | .added => old = none
  | .modified => old.isSome
  | .metadata => old.map Document.data = some c.document.data
  | .removed => old = some c.document

/-- A change that can be made describes what it does. -/
lemma Applies.describes {c : DocumentViewChange κ δ} {old : Option (Document κ δ)}
    (h : c.Applies old) : c.Describes old c.after := by
  obtain ⟨document, type⟩ := c
  cases type <;> simp_all [Applies, Describes, after]

/-- A described document is the one after the change. -/
lemma Describes.after_eq {c : DocumentViewChange κ δ} {old new : Option (Document κ δ)}
    (h : c.Describes old new) : new = c.after := by
  obtain ⟨document, type⟩ := c
  cases type <;> exact h.2

end DocumentViewChange

variable {κ δ : Type*}

/-- What is recorded for a document describes how it differs from before; where nothing is
recorded, it does not differ. -/
def Tracks (old new : Option (Document κ δ)) : Option (DocumentViewChange κ δ) → Prop
  | none => old = new
  | some c => c.Describes old new

section

variable [LinearOrder κ]

/-- `DocumentViewChangeSet`: at most one change for each key, in the order of the keys. -/
abbrev DocumentViewChangeSet (κ δ : Type*) [LinearOrder κ] :=
  SortedSet (Ranking.byKey (DocumentViewChange.key : DocumentViewChange κ δ → κ))

namespace DocumentViewChangeSet

/-- `AddChange(change)`. -/
def addChange (changes : DocumentViewChangeSet κ δ) (change : DocumentViewChange κ δ) :
    Except String (DocumentViewChangeSet κ δ) :=
  match changes.get? change.key with
  | none => .ok (changes.insert change)
  | some old =>
    -- Merge the new change with the existing change.
    if change.type ≠ .added ∧ old.type = .metadata then .ok (changes.insert change)
    else if change.type = .metadata ∧ old.type ≠ .removed then
      .ok (changes.insert ⟨change.document, old.type⟩)
    else if change.type = .modified ∧ old.type = .modified then
      .ok (changes.insert ⟨change.document, .modified⟩)
    else if change.type = .modified ∧ old.type = .added then
      .ok (changes.insert ⟨change.document, .added⟩)
    else if change.type = .removed ∧ old.type = .added then .ok (changes.erase change.key)
    else if change.type = .removed ∧ old.type = .modified then
      .ok (changes.insert ⟨old.document, .removed⟩)
    else if change.type = .added ∧ old.type = .removed then
      .ok (changes.insert ⟨change.document, .modified⟩)
    else hardFail "Unsupported combination of changes"

/-- `GetChanges()`. -/
def getChanges (changes : DocumentViewChangeSet κ δ) : List (DocumentViewChange κ δ) :=
  changes.elements

/-- The first change of a document is recorded as it is. -/
lemma addChange_of_none {changes : DocumentViewChangeSet κ δ} {change : DocumentViewChange κ δ}
    (h : changes.get? change.key = none) :
    changes.addChange change = .ok (changes.insert change) := by
  simp only [addChange, h]

/-- What is recorded under a key is a change of that key. -/
lemma key_of_get? {changes : DocumentViewChangeSet κ δ} {k : κ} {c : DocumentViewChange κ δ}
    (h : changes.get? k = some c) : c.document.key = k :=
  SortedSet.key_of_get? h

/-- Recording under the key of a change in place of what was there. -/
private lemma insert_spec {changes : DocumentViewChangeSet κ δ} {k : κ}
    {c : DocumentViewChange κ δ} {old new : Option (Document κ δ)} (hkey : c.key = k)
    (h : c.Describes old new) :
    Tracks old new ((changes.insert c).get? k) ∧
      ∀ k' ≠ k, (changes.insert c).get? k' = changes.get? k' := by
  have hkey' : (Ranking.byKey DocumentViewChange.key).key c = k := hkey
  constructor
  · rw [SortedSet.get?_insert, if_pos hkey'.symm]
    exact h
  · intro k' hk'
    rw [SortedSet.get?_insert, if_neg (by rw [hkey']; exact hk')]

/-- **Recording a change** that can be made to the current document does not fail, and what is
recorded for the document then describes it as it is after the change.

**Proof sketch.** By the kind of the recorded change and of the new one. The recorded change says
whether the document is there now, which leaves out the combinations that are not supported; in
each of the others the merged change describes both at once. -/
lemma addChange_spec {changes : DocumentViewChangeSet κ δ} {change : DocumentViewChange κ δ}
    {old current : Option (Document κ δ)} (htracks : Tracks old current (changes.get? change.key))
    (happlies : change.Applies current) :
    ∃ changes', changes.addChange change = .ok changes' ∧
      Tracks old change.after (changes'.get? change.key) ∧
      ∀ k ≠ change.key, changes'.get? k = changes.get? k := by
  cases hold : changes.get? change.key with
  | none =>
    rw [hold] at htracks
    obtain rfl : old = current := htracks
    exact ⟨_, addChange_of_none hold, insert_spec rfl happlies.describes⟩
  | some recorded =>
    rw [hold] at htracks
    have hkey : recorded.key = change.key := key_of_get? hold
    obtain ⟨document, type⟩ := recorded
    obtain ⟨newDocument, newType⟩ := change
    have hkeep : ∀ t, (⟨newDocument, t⟩ : DocumentViewChange κ δ).key = newDocument.key :=
      fun _ => rfl
    unfold addChange
    simp only [hold]
    cases type with
    | metadata =>
      obtain ⟨hdata, rfl⟩ := htracks
      cases newType with
      | added => cases happlies
      | modified =>
        refine ⟨_, rfl, insert_spec (hkeep _) ⟨?_, rfl⟩⟩
        cases old <;> simp_all
      | metadata =>
        refine ⟨_, rfl, insert_spec (hkeep _) ⟨?_, rfl⟩⟩
        exact hdata.trans happlies
      | removed =>
        refine ⟨_, rfl, insert_spec (hkeep _) ⟨?_, rfl⟩⟩
        cases old <;> simp_all
    | added =>
      obtain ⟨hnone, rfl⟩ := htracks
      cases newType with
      | added => cases happlies
      | modified => exact ⟨_, rfl, insert_spec (hkeep _) ⟨hnone, rfl⟩⟩
      | metadata => exact ⟨_, rfl, insert_spec (hkeep _) ⟨hnone, rfl⟩⟩
      | removed =>
        refine ⟨_, rfl, ?_, ?_⟩
        · rw [SortedSet.get?_erase, if_pos rfl]
          exact hnone
        · intro k hk
          rw [SortedSet.get?_erase, if_neg hk]
    | modified =>
      obtain ⟨hsome, rfl⟩ := htracks
      cases newType with
      | added => cases happlies
      | modified => exact ⟨_, rfl, insert_spec (hkeep _) ⟨hsome, rfl⟩⟩
      | metadata => exact ⟨_, rfl, insert_spec (hkeep _) ⟨hsome, rfl⟩⟩
      | removed => exact ⟨_, rfl, insert_spec hkey ⟨hsome, rfl⟩⟩
    | removed =>
      obtain ⟨hsome, rfl⟩ := htracks
      cases newType with
      | added => exact ⟨_, rfl, insert_spec (hkeep _) ⟨hsome, rfl⟩⟩
      | modified => cases happlies
      | metadata => cases happlies
      | removed => cases happlies

end DocumentViewChangeSet

end

/-! ## Sequences of edits -/

section

variable {q : Query κ δ} [LinearOrder κ]

/-- The documents after a change. -/
def DocumentSet.edit (documents : DocumentSet q) (c : DocumentViewChange κ δ) : DocumentSet q :=
  match c.after with
  | some d => documents.insert d
  | none => documents.erase c.key

/-- A change that can be made is made to the documents. -/
def Edits (documents : DocumentSet q) (c : DocumentViewChange κ δ) (documents' : DocumentSet q) :
    Prop :=
  c.Applies (documents.get? c.key) ∧ documents' = documents.edit c

/-- An edit touches the document it changes only. -/
lemma DocumentSet.get?_edit (documents : DocumentSet q) (c : DocumentViewChange κ δ) (k : κ) :
    (documents.edit c).get? k = if k = c.key then c.after else documents.get? k := by
  obtain ⟨document, type⟩ := c
  cases type with
  | removed => exact SortedSet.get?_erase ..
  | added => exact SortedSet.get?_insert ..
  | modified => exact SortedSet.get?_insert ..
  | metadata => exact SortedSet.get?_insert ..

/-- **Merged changes are the net effect**: whatever sequence of changes is made to the documents
of a view, each where it can be made, recording them one after the other never meets an
unsupported combination; the recorded change of a document describes how it differs from the
beginning, and making just the recorded changes leads to the same documents.

**Proof sketch.** Induction along the edits, by the rule for predicates of the history: an edit
keeps, for each document, that the recorded change describes it. -/
theorem DocumentViewChangeSet.merge_edits (documents : DocumentSet q)
    (tr : List (DocumentViewChange κ δ × DocumentSet q)) (hrun : Along Edits documents tr) :
    ∃ changes : DocumentViewChangeSet κ δ,
      (tr.map Prod.fst).foldlM addChange (SortedSet.empty _) = .ok changes ∧
      (∀ k, Tracks (documents.get? k) ((final documents tr).get? k) (changes.get? k)) ∧
      ∀ k, (final documents tr).get? k =
        match changes.get? k with
        | some c => c.after
        | none => documents.get? k := by
  have hnet : ∃ changes : DocumentViewChangeSet κ δ,
      (tr.map Prod.fst).foldlM addChange (SortedSet.empty _) = .ok changes ∧
      ∀ k, Tracks (documents.get? k) ((final documents tr).get? k) (changes.get? k) := by
    refine hrun.history (P := fun es current => ∃ changes : DocumentViewChangeSet κ δ,
      es.foldlM addChange (SortedSet.empty _) = .ok changes ∧
      ∀ k, Tracks (documents.get? k) (current.get? k) (changes.get? k)) ?_ ?_
    · exact ⟨SortedSet.empty _, rfl, fun k => rfl⟩
    · rintro es current c _ ⟨changes, hfold, htracks⟩ ⟨happlies, rfl⟩
      obtain ⟨changes', hadd, hkey, hother⟩ := addChange_spec (htracks c.key) happlies
      refine ⟨changes', ?_, fun k => ?_⟩
      · rw [List.foldlM_append, hfold]
        show [c].foldlM addChange changes = .ok changes'
        rw [List.foldlM_cons, hadd]
        rfl
      · rw [DocumentSet.get?_edit]
        by_cases hk : k = c.key
        · subst hk
          rwa [if_pos rfl]
        · rw [if_neg hk, hother k hk]
          exact htracks k
  obtain ⟨changes, hfold, htracks⟩ := hnet
  refine ⟨changes, hfold, htracks, fun k => ?_⟩
  have hk := htracks k
  cases hc : changes.get? k with
  | none =>
    rw [hc] at hk
    exact hk.symm
  | some c =>
    rw [hc] at hk
    exact hk.after_eq

/-- A document that is added and modified counts as added. -/
theorem DocumentViewChangeSet.merge_edits_twice :
    let added : DocumentViewChange ℕ ℕ := ⟨⟨1, 5, .synced⟩, .added⟩
    let modified : DocumentViewChange ℕ ℕ := ⟨⟨1, 6, .synced⟩, .modified⟩
    ∃ changes : DocumentViewChangeSet ℕ ℕ,
      [added, modified].foldlM addChange (SortedSet.empty _) = .ok changes ∧
      Tracks none (some ⟨1, 6, .synced⟩) (changes.get? 1) := by
  intro added modified
  let documents : DocumentSet (Query.collection ℕ ℕ) := SortedSet.empty _
  have hfinal : ((documents.edit added).edit modified).get? 1 = some ⟨1, 6, .synced⟩ := by
    rw [DocumentSet.get?_edit]
    rfl
  have hsome : ((documents.edit added).get? modified.key).isSome = true := by
    rw [DocumentSet.get?_edit]
    rfl
  obtain ⟨changes, hfold, htracks, -⟩ := merge_edits documents
    [(added, documents.edit added), (modified, (documents.edit added).edit modified)]
    ⟨⟨rfl, rfl⟩, ⟨hsome, rfl⟩, trivial⟩
  refine ⟨changes, hfold, ?_⟩
  have hone := htracks 1
  rw [show final documents _ = (documents.edit added).edit modified from rfl, hfinal] at hone
  exact hone

end

end AntViewer.Firestore
