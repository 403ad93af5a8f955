import AntViewer.Firestore.ViewSnapshots
import Mathlib.Data.List.InsertIdx

set_option relaxedAutoImplicit false
set_option autoImplicit false

/-!
# The changes a query snapshot reports

A query snapshot hands its documents and its document changes to the program. Each change comes
with the index the document had and the index it gets, for a program that shows the documents in
a list and edits the list change by change. The indices are computed on a copy of the old
documents that is edited along.

## Main definitions

* `QuerySnapshot.forEachChange` — the changes of a snapshot, with their indices.
* `DocumentChange.replay` — a program that edits its list at these indices.

## Main results

* `QuerySnapshot.forEachChange_spec` — no assertion fails, and the edited list is the list of
  the documents.
-/

namespace AntViewer.Firestore

open SortedSets ChangeFeed

variable {κ δ : Type*} [LinearOrder κ] {q : Query κ δ}

/-- `api::DocumentChange`, with the metadata of its document. -/
structure DocumentChange (κ δ : Type*) where
  type : Kind
  document : Document κ δ
  hasPendingWrites : Bool
  fromCache : Bool
  oldIndex : Option ℕ
  newIndex : Option ℕ

namespace QuerySnapshot

/-- A reported change, with the metadata the snapshot has for its document. -/
def documentChange (s : ViewSnapshot q) (type : Kind) (change : DocumentViewChange κ δ)
    (oldIndex newIndex : Option ℕ) : DocumentChange κ δ where
  type := type
  document := change.document
  hasPendingWrites := change.key ∈ s.mutatedKeys
  fromCache := s.fromCache
  oldIndex := oldIndex
  newIndex := newIndex

/-- The loop of `ForEachChange` over the changes of a first snapshot. -/
def firstChanges (s : ViewSnapshot q) :
    Option (Document κ δ) → ℕ → List (DocumentViewChange κ δ) →
      Except String (List (DocumentChange κ δ))
  | _, _, [] => return []
  | lastDocument, index, change :: changes => do
    hardAssert (change.type = .added) "Invalid event type for first snapshot"
    hardAssert (lastDocument.all fun last => q.order.cmp last change.document = .lt)
      "Got added events in wrong order"
    let rest ← firstChanges s (some change.document) (index + 1) changes
    return documentChange s .added change none (some index) :: rest

/-- The old index of a changed document, and the tracker without it. -/
def trackOld (indexTracker : DocumentSet q) (change : DocumentViewChange κ δ) :
    Except String (Option ℕ × DocumentSet q) :=
  if change.type ≠ .added then do
    hardAssert (indexTracker.indexOf change.key).isSome "Index for document not found"
    return (indexTracker.indexOf change.key, indexTracker.erase change.key)
  else return (none, indexTracker)

/-- The new index of a changed document, and the tracker with it. -/
def trackNew (indexTracker : DocumentSet q) (change : DocumentViewChange κ δ) :
    Option ℕ × DocumentSet q :=
  if change.type ≠ .removed then
    ((indexTracker.insert change.document).indexOf change.key,
      indexTracker.insert change.document)
  else (none, indexTracker)

/-- The loop of `ForEachChange` over the changes of a later snapshot. -/
def laterChanges (s : ViewSnapshot q) (includeMetadataChanges : Bool) :
    DocumentSet q → List (DocumentViewChange κ δ) → Except String (List (DocumentChange κ δ))
  | _, [] => return []
  | indexTracker, change :: changes =>
    if !includeMetadataChanges && change.type = .metadata then
      laterChanges s includeMetadataChanges indexTracker changes
    else do
      let (oldIndex, indexTracker) ← trackOld indexTracker change
      let (newIndex, indexTracker) := trackNew indexTracker change
      let rest ← laterChanges s includeMetadataChanges indexTracker changes
      return documentChange s change.type.toKind change oldIndex newIndex :: rest

/-- `ForEachChange(include_metadata_changes, callback)`: what the callback is called with. -/
def forEachChange (s : ViewSnapshot q) (includeMetadataChanges : Bool) :
    Except String (List (DocumentChange κ δ)) :=
  if includeMetadataChanges ∧ s.excludesMetadataChanges then
    throw ("To include metadata changes with your document changes, you must call " ++
      "addSnapshotListener(includeMetadataChanges:true).")
  else if s.oldDocuments.elements.isEmpty then firstChanges s none 0 s.documentChanges
  else laterChanges s includeMetadataChanges s.oldDocuments s.documentChanges

end QuerySnapshot

/-! ## A list that is edited along -/

/-- A row of a list of documents: what the program shows of a document. -/
def Document.row (d : Document κ δ) : κ × δ := (d.key, d.data)

/-- The order of the rows. -/
def Query.rowOrder (q : Query κ δ) : Ranking κ (κ × δ) where
  key := Prod.fst
  cmp := q.comparator
  trans := q.trans
  separates := q.separates

/-- The rows of the documents. -/
def DocumentSet.rows (documents : DocumentSet q) : SortedSet q.rowOrder :=
  SortedSet.map (r := q.rowOrder) (f := Document.row) documents

/-- Editing a list of rows by a change, at its indices. -/
def DocumentChange.replay (rows : List (κ × δ)) (change : DocumentChange κ δ) : List (κ × δ) :=
  let rows := match change.oldIndex with
    | some i => rows.eraseIdx i
    | none => rows
  match change.newIndex with
  | some i => rows.insertIdx i change.document.row
  | none => rows

lemma DocumentSet.get?_rows (documents : DocumentSet q) (k : κ) :
    documents.rows.get? k = (documents.get? k).map Document.row :=
  SortedSet.get?_map (r := q.rowOrder) (f := Document.row) documents k

/-- Documents with the same data have the same rows. -/
lemma DocumentSet.rows_eq {documents documents' : DocumentSet q}
    (h : ∀ k, documents.data k = documents'.data k) : documents.rows = documents'.rows := by
  apply SortedSet.ext_get?
  intro k
  have hrow : ∀ documents : DocumentSet q,
      documents.rows.get? k = (documents.data k).map fun d => (k, d) := by
    intro documents
    rw [get?_rows, data]
    cases hd : documents.get? k with
    | none => rfl
    | some d =>
      have hkey : d.key = k := SortedSet.key_of_get? hd
      simp [Document.row, hkey]
  rw [hrow, hrow, h]

namespace QuerySnapshot

/-- Tracking the old index of a changed document edits the rows there. -/
lemma trackOld_spec {indexTracker : DocumentSet q} {change : DocumentViewChange κ δ}
    (h : change.type ≠ .added → (indexTracker.get? change.key).isSome) :
    ∃ oldIndex tracker, trackOld indexTracker change = .ok (oldIndex, tracker) ∧
      tracker.rows.elements = (match oldIndex with
        | some i => indexTracker.rows.elements.eraseIdx i
        | none => indexTracker.rows.elements) ∧
      (change.type = .added → tracker = indexTracker) ∧
      (change.type ≠ .added → tracker = indexTracker.erase change.key) := by
  unfold trackOld
  by_cases htype : change.type = .added
  · rw [if_neg (by simpa using htype)]
    exact ⟨none, indexTracker, rfl, rfl, fun _ => rfl, fun h => absurd htype h⟩
  · rw [if_pos htype]
    have hindex : (indexTracker.indexOf change.key).isSome = true := by
      rw [Option.isSome_iff_ne_none, ne_eq, SortedSet.indexOf_eq_none_iff,
        ← ne_eq, ← Option.isSome_iff_ne_none]
      exact h htype
    obtain ⟨i, hi⟩ := Option.isSome_iff_exists.mp hindex
    refine ⟨some i, indexTracker.erase change.key, ?_, ?_, fun h => absurd h htype, fun _ => rfl⟩
    · simp only [hi, Option.isSome_some, hardAssert_true]
      rfl
    · show (indexTracker.erase change.key).elements.map _ = (indexTracker.elements.map _).eraseIdx i
      rw [SortedSet.elements_erase hi, List.eraseIdx_map]

/-- Tracking the new index of a changed document edits the rows there. -/
lemma trackNew_spec {indexTracker : DocumentSet q} {change : DocumentViewChange κ δ}
    (h : indexTracker.get? change.key = none) :
    (trackNew indexTracker change).2.rows.elements =
      (match (trackNew indexTracker change).1 with
        | some i => indexTracker.rows.elements.insertIdx i change.document.row
        | none => indexTracker.rows.elements) ∧
      ∀ k, (trackNew indexTracker change).2.get? k =
        if k = change.key then change.after else indexTracker.get? k := by
  unfold trackNew
  by_cases htype : change.type = .removed
  · rw [if_neg (by simpa using htype)]
    refine ⟨rfl, fun k => ?_⟩
    by_cases hk : k = change.key
    · rw [if_pos hk, hk, h, DocumentViewChange.after, htype]
    · rw [if_neg hk]
  · rw [if_pos htype]
    obtain ⟨i, hi, helements⟩ := SortedSet.elements_insert indexTracker change.document
    have herase : indexTracker.erase change.key = indexTracker := by
      apply SortedSet.ext_get?
      intro k
      rw [SortedSet.get?_erase]
      by_cases hk : k = change.key
      · rw [if_pos hk, hk, h]
      · rw [if_neg hk]
    have hindex : (indexTracker.insert change.document).indexOf change.key = some i := hi
    constructor
    · simp only [hindex]
      show (indexTracker.insert change.document).elements.map _ =
        (indexTracker.elements.map _).insertIdx i _
      have hsame : (indexTracker.insert change.document).elements =
          indexTracker.elements.insertIdx i change.document := by
        rw [helements]
        exact congrArg (fun s => List.insertIdx s.elements i change.document) herase
      rw [hsame, List.map_insertIdx]
    · intro k
      rw [SortedSet.get?_insert]
      have hafter : change.after = some change.document := by
        obtain ⟨document, type⟩ := change
        cases type <;> simp_all [DocumentViewChange.after]
      rw [hafter]
      rfl

/-- The changes that are reported: without the metadata changes, unless asked for. -/
def reported (includeMetadataChanges : Bool) (changes : List (DocumentViewChange κ δ)) :
    List (DocumentViewChange κ δ) :=
  changes.filter fun change => includeMetadataChanges || change.type ≠ .metadata

/-- What the program is told about a change. -/
def toChange (change : DocumentChange κ δ) : Change κ δ :=
  ⟨change.type, change.document.key, change.document.data⟩

/-- **The loop over later changes**: if the changes lead from the data of the tracker to that of
the documents, no index is missing, and editing the rows of the tracker at the indices leads to
the rows of the documents.

**Proof sketch.** Induction on the changes. The next change takes its document out of the tracker
and puts it back, which edits the rows at the old and at the new index; the other documents, whose
changes come later, stay in the tracker as they are. A metadata change that is left out does not
touch the rows. -/
lemma laterChanges_spec (s : ViewSnapshot q) (includeMetadataChanges : Bool)
    {documents : DocumentSet q} (changes : List (DocumentViewChange κ δ))
    (indexTracker : DocumentSet q) (hnodup : (changes.map DocumentViewChange.key).Nodup)
    (hdescribes : ∀ c ∈ changes, c.Describes (indexTracker.get? c.key) (documents.get? c.key))
    (hunchanged : ∀ k, (∀ c ∈ changes, c.key ≠ k) → indexTracker.data k = documents.data k) :
    ∃ out, laterChanges s includeMetadataChanges indexTracker changes = .ok out ∧
      out.foldl DocumentChange.replay indexTracker.rows.elements = documents.rows.elements ∧
      out.map toChange =
        (reported includeMetadataChanges changes).map DocumentViewChange.toChange := by
  induction changes generalizing indexTracker with
  | nil =>
    refine ⟨[], rfl, ?_, rfl⟩
    rw [List.foldl_nil, DocumentSet.rows_eq fun k => hunchanged k (by simp)]
  | cons change changes ih =>
    rw [List.map_cons, List.nodup_cons] at hnodup
    have hne : ∀ c ∈ changes, c.key ≠ change.key := fun c hc heq =>
      hnodup.1 (heq ▸ List.mem_map_of_mem hc)
    have hchange := hdescribes change List.mem_cons_self
    by_cases hskip : (!includeMetadataChanges && decide (change.type = .metadata)) = true
    · obtain ⟨hinclude, htype⟩ : includeMetadataChanges = false ∧ change.type = .metadata := by
        simpa using hskip
      obtain ⟨out, hout, hrows, hreported⟩ := ih indexTracker hnodup.2
        (fun c hc => hdescribes c (List.mem_cons_of_mem _ hc)) fun k hk => by
          by_cases hkey : k = change.key
          · subst hkey
            rw [DocumentViewChange.Describes, htype] at hchange
            rw [DocumentSet.data, DocumentSet.data, hchange.1, hchange.2]
            rfl
          · refine hunchanged k fun c hc => ?_
            rcases List.mem_cons.mp hc with rfl | hc
            · exact fun heq => hkey heq.symm
            · exact hk c hc
      refine ⟨out, ?_, hrows, ?_⟩
      · rw [laterChanges, if_pos hskip]
        exact hout
      · rw [hreported]
        simp [reported, hinclude, htype]
    · have hold : change.type ≠ .added → (indexTracker.get? change.key).isSome := by
        obtain ⟨document, type⟩ := change
        intro htype
        cases type with
        | added => exact absurd rfl htype
        | removed => exact hchange.1
        | modified => exact hchange.1
        | metadata =>
          have hdata := congrArg Option.isSome hchange.1
          simpa using hdata
      obtain ⟨oldIndex, tracker, htrack, holdRows, hadded, hpresent⟩ := trackOld_spec hold
      have habsent : tracker.get? change.key = none := by
        by_cases htype : change.type = .added
        · rw [hadded htype]
          rw [DocumentViewChange.Describes, htype] at hchange
          exact hchange.1
        · rw [hpresent htype, SortedSet.get?_erase, if_pos rfl]
      have hothers : ∀ k ≠ change.key, tracker.get? k = indexTracker.get? k := by
        intro k hk
        by_cases htype : change.type = .added
        · rw [hadded htype]
        · rw [hpresent htype, SortedSet.get?_erase, if_neg hk]
      obtain ⟨hnewRows, hget⟩ := trackNew_spec habsent
      obtain ⟨out, hout, hrows, hreported⟩ := ih (trackNew tracker change).2 hnodup.2
        (fun c hc => by
          rw [hget, if_neg (hne c hc), hothers c.key (hne c hc)]
          exact hdescribes c (List.mem_cons_of_mem _ hc))
        fun k hk => by
          rw [DocumentSet.data, DocumentSet.data, hget]
          by_cases hkey : k = change.key
          · rw [if_pos hkey, hkey, hchange.after_eq]
          · rw [if_neg hkey, hothers k hkey]
            refine hunchanged k fun c hc => ?_
            rcases List.mem_cons.mp hc with rfl | hc
            · exact fun heq => hkey heq.symm
            · exact hk c hc
      refine ⟨documentChange s change.type.toKind change oldIndex (trackNew tracker change).1 ::
        out, ?_, ?_, ?_⟩
      · rw [laterChanges, if_neg hskip, htrack]
        show (laterChanges s includeMetadataChanges (trackNew tracker change).2 changes >>= _) = _
        rw [hout]
        rfl
      · rw [List.foldl_cons, ← hrows]
        congr 1
        rw [hnewRows]
        simp only [DocumentChange.replay, documentChange]
        rw [← holdRows]
      · rw [List.map_cons, hreported]
        have hkeep : (includeMetadataChanges || decide (change.type ≠ .metadata)) = true := by
          cases includeMetadataChanges <;> simp_all
        rw [reported, reported, List.filter_cons_of_pos (by simpa using hkeep), List.map_cons]
        rfl

/-- **The loop over first changes**: additions in the order of the query are reported with their
positions, and editing the rows before them leads to all rows. -/
lemma firstChanges_spec (s : ViewSnapshot q) (changes : List (DocumentViewChange κ δ))
    (last : Option (Document κ δ)) (rows : List (κ × δ))
    (hadded : ∀ c ∈ changes, c.type = .added)
    (hsorted : changes.Pairwise (View.changeOrder q).Lt)
    (hlast : ∀ d ∈ last, ∀ c ∈ changes, q.order.Lt d c.document) :
    ∃ out, firstChanges s last rows.length changes = .ok out ∧
      out.foldl DocumentChange.replay rows = rows ++ changes.map (·.document.row) ∧
      out.map toChange = changes.map DocumentViewChange.toChange := by
  induction changes generalizing last rows with
  | nil => exact ⟨[], rfl, by simp, rfl⟩
  | cons change changes ih =>
    rw [List.pairwise_cons] at hsorted
    have htype : change.type = .added := hadded change List.mem_cons_self
    have hbefore : ∀ c ∈ changes, q.order.Lt change.document c.document := by
      intro c hc
      have hlt := hsorted.1 c hc
      have hctype : c.type = .added := hadded c (List.mem_cons_of_mem _ hc)
      simpa [Ranking.Lt, View.changeOrder, Ranking.after, compareLex, compareOn, htype, hctype,
        Ranking.comap] using hlt
    obtain ⟨out, hout, hrows, hreported⟩ := ih (some change.document)
      (rows ++ [change.document.row]) (fun c hc => hadded c (List.mem_cons_of_mem _ hc)) hsorted.2
      (by rintro d ⟨⟩; exact hbefore)
    refine ⟨documentChange s .added change none (some rows.length) :: out, ?_, ?_, ?_⟩
    · have hassert : (last.all fun d => decide (q.order.cmp d change.document = .lt)) = true := by
        cases last with
        | none => rfl
        | some d => exact decide_eq_true (hlast d rfl change List.mem_cons_self)
      rw [List.length_append, List.length_singleton] at hout
      rw [firstChanges, htype, hassert]
      show (firstChanges s (some change.document) (rows.length + 1) changes >>= _) = _
      rw [hout]
      rfl
    · rw [List.foldl_cons, List.map_cons]
      simp only [DocumentChange.replay, documentChange, List.insertIdx_length_self]
      rw [hrows, List.append_assoc]
      rfl
    · rw [List.map_cons, List.map_cons, hreported]
      simp [toChange, documentChange, DocumentViewChange.toChange, htype,
        DocumentViewChange.Type.toKind, DocumentViewChange.key]

/-- The documents of a first snapshot are those that its changes add, in their order. -/
lemma elements_of_first {s : ViewSnapshot q} (h : s.Describes)
    (hnone : ∀ k, s.oldDocuments.get? k = none)
    (hadded : ∀ c ∈ s.documentChanges, c.type = .added) :
    s.documents.elements = s.documentChanges.map DocumentViewChange.document := by
  have hget : ∀ c ∈ s.documentChanges, s.documents.get? c.key = some c.document := by
    intro c hc
    have hdescribes := h.described c hc
    rw [DocumentViewChange.Describes, hadded c hc] at hdescribes
    exact hdescribes.2
  have hnodup : (s.documentChanges.map DocumentViewChange.document).Nodup := by
    refine List.Nodup.of_map Document.key ?_
    rw [List.map_map]
    exact h.nodup
  have hmem : ∀ d, d ∈ s.documents.elements ↔
      d ∈ s.documentChanges.map DocumentViewChange.document := by
    intro d
    rw [List.mem_map]
    constructor
    · intro hd
      have hdget : s.documents.get? d.key = some d := SortedSet.get?_key hd
      by_contra hall
      have hunchanged := h.unchanged d.key fun c hc heq => hall ⟨c, hc, by
        have := hget c hc
        rw [heq, hdget] at this
        exact (Option.some.inj this).symm⟩
      rw [hnone, hdget] at hunchanged
      cases hunchanged
    · rintro ⟨c, hc, rfl⟩
      exact SortedSet.mem_of_get? (hget c hc)
  have hperm : s.documents.elements.Perm
      (s.documentChanges.map DocumentViewChange.document) :=
    (List.perm_ext_iff_of_nodup s.documents.nodup.of_map hnodup).mpr hmem
  refine hperm.eq_of_pairwise (fun a b _ _ hab hba => absurd hba (Ranking.lt_asymm hab))
    s.documents.sorted (List.pairwise_map.mpr ?_)
  refine h.sorted.imp_of_mem fun {a b} ha hb hlt => ?_
  simpa [Ranking.Lt, View.changeOrder, Ranking.after, compareLex, compareOn, hadded a ha,
    hadded b hb, Ranking.comap] using hlt

/-- **Replaying the reported changes**: for every snapshot whose changes lead from its old
documents to its new ones, the changes can be reported (no index is missing, and the additions of
a first snapshot come in order), with or without metadata changes; and a program that edits its
list of rows at the reported indices, change by change, goes from the rows of the old documents
to exactly the rows of the new ones. -/
lemma forEachChange_spec (s : ViewSnapshot q) (h : s.Describes)
    (includeMetadataChanges : Bool)
    (hexcludes : includeMetadataChanges = true → s.excludesMetadataChanges = false) :
    ∃ out, forEachChange s includeMetadataChanges = .ok out ∧
      out.foldl DocumentChange.replay s.oldDocuments.rows.elements = s.documents.rows.elements ∧
      out.map toChange =
        (reported includeMetadataChanges s.documentChanges).map DocumentViewChange.toChange := by
  unfold forEachChange
  rw [if_neg (by rintro ⟨hinclude, hexclude⟩; rw [hexcludes hinclude] at hexclude; cases hexclude)]
  by_cases hempty : s.oldDocuments.elements.isEmpty = true
  · rw [if_pos hempty]
    have hold : s.oldDocuments.elements = [] := List.isEmpty_iff.mp hempty
    have hnone : ∀ k, s.oldDocuments.get? k = none := fun k => by
      rw [SortedSet.get?_eq_none_iff, hold]
      simp
    have hadded : ∀ c ∈ s.documentChanges, c.type = .added := by
      intro c hc
      have hdescribes := h.described c hc
      rw [hnone] at hdescribes
      obtain ⟨document, type⟩ := c
      cases type with
      | added => rfl
      | removed => simp [DocumentViewChange.Describes] at hdescribes
      | modified => simp [DocumentViewChange.Describes] at hdescribes
      | metadata => simp [DocumentViewChange.Describes] at hdescribes
    obtain ⟨out, hout, hrows, hreported⟩ := firstChanges_spec s s.documentChanges none [] hadded
      h.sorted (by simp)
    refine ⟨out, hout, ?_, ?_⟩
    · show out.foldl DocumentChange.replay (s.oldDocuments.elements.map Document.row) =
        s.documents.elements.map Document.row
      rw [hold, elements_of_first h hnone hadded, List.map_map]
      exact hrows
    · rw [hreported, reported, List.filter_eq_self.mpr]
      intro c hc
      simp [hadded c hc]
  · rw [if_neg hempty]
    exact laterChanges_spec s includeMetadataChanges s.documentChanges s.oldDocuments h.nodup
      h.described h.unchanged

end QuerySnapshot

end AntViewer.Firestore
