import AntViewer.Firestore.View

set_option relaxedAutoImplicit false
set_option autoImplicit false

/-!
# What a view computes from changed documents

Specifications of the two loops of `View.computeDocumentChanges`: the one over the changed
documents, and the one that drops documents out to meet the limit. Both are sequences of edits
of the documents that are recorded in the change set as they are made.

## Main definitions

* `ViewDocumentChanges.Draft` — the changes so far describe the documents so far.
* `Query.preference` — which documents a limited query prefers.
* `View.outcome` — what becomes of one document.

## Main results

* `View.foldlM_applyDocument` — the loop over the changed documents.
* `View.dropDocuments_spec` — the loop that drops documents.
-/

namespace AntViewer.Firestore

open SortedSets Runs

variable {κ δ : Type*} [LinearOrder κ] {q : Query κ δ}

/-- The documents computed so far, with the changes that lead to them from those of the view and
the keys of those that carry local writes. -/
structure ViewDocumentChanges.Draft (documents : DocumentSet q) (acc : ViewDocumentChanges q) :
    Prop where
  tracks : ∀ k, Tracks (documents.get? k) (acc.documentSet.get? k) (acc.changeSet.get? k)
  mutated : ∀ k, k ∈ acc.mutatedKeys ↔
    ∃ d, acc.documentSet.get? k = some d ∧ d.hasLocalMutations = true
  matching : ∀ k d, acc.documentSet.get? k = some d → q.Matches d = true

/-- The documents after one more change. -/
def ViewDocumentChanges.update (acc : ViewDocumentChanges q) (c : DocumentViewChange κ δ)
    (changeSet : DocumentViewChangeSet κ δ) (needsRefill : Bool) : ViewDocumentChanges q where
  documentSet := acc.documentSet.edit c
  changeSet := changeSet
  mutatedKeys :=
    if c.after.any Document.hasLocalMutations then insert c.key acc.mutatedKeys
    else acc.mutatedKeys.erase c.key
  needsRefill := needsRefill

/-- **One more change** that can be made, to a document that matches, keeps a draft. -/
lemma ViewDocumentChanges.Draft.update {documents : DocumentSet q} {acc : ViewDocumentChanges q}
    (h : acc.Draft documents) {c : DocumentViewChange κ δ}
    (happlies : c.Applies (acc.documentSet.get? c.key))
    (hmatch : ∀ d, c.after = some d → q.Matches d = true) (needsRefill : Bool) :
    ∃ changeSet, acc.changeSet.addChange c = .ok changeSet ∧
      (acc.update c changeSet needsRefill).Draft documents ∧
      (acc.changeSet.get? c.key = none → changeSet.get? c.key = some c) ∧
      ∀ k ≠ c.key, changeSet.get? k = acc.changeSet.get? k := by
  obtain ⟨changeSet, hadd, hkey, hother⟩ :=
    DocumentViewChangeSet.addChange_spec (h.tracks c.key) happlies
  refine ⟨changeSet, hadd, ⟨?_, ?_, ?_⟩, ?_, hother⟩
  · intro k
    simp only [ViewDocumentChanges.update, DocumentSet.get?_edit]
    by_cases hk : k = c.key
    · subst hk
      rwa [if_pos rfl]
    · rw [if_neg hk, hother k hk]
      exact h.tracks k
  · intro k
    simp only [ViewDocumentChanges.update, DocumentSet.get?_edit]
    by_cases hk : k = c.key
    · subst hk
      rw [if_pos rfl]
      cases hafter : c.after with
      | none => simp
      | some d => cases hd : d.hasLocalMutations <;> simp [hd]
    · rw [if_neg hk, ← h.mutated k]
      split_ifs <;> simp [hk]
  · intro k d
    simp only [ViewDocumentChanges.update, DocumentSet.get?_edit]
    by_cases hk : k = c.key
    · rw [if_pos hk]
      exact hmatch d
    · rw [if_neg hk]
      exact h.matching k d
  · intro hnone
    rw [DocumentViewChangeSet.addChange_of_none hnone] at hadd
    cases hadd
    rw [SortedSet.get?_insert]
    exact if_pos rfl

/-- The order in which a query prefers documents: from the end the query is limited to. -/
def Query.preference (q : Query κ δ) : Ranking κ (Document κ δ) :=
  if q.hasLimitToFirst then q.order else q.order.reverse

/-- The query prefers the first document. -/
abbrev Query.Before (q : Query κ δ) (a b : Document κ δ) : Prop := q.preference.Lt a b

/-! ## The change of one document -/

namespace View

/-- The document of a change, if it matches the query. -/
def newDocument (q : Query κ δ) (maybeNewDoc : MaybeDocument κ δ) : Option (Document κ δ) :=
  maybeNewDoc.toDocument.filter q.Matches

omit [LinearOrder κ] in
lemma matches_of_newDocument {m : MaybeDocument κ δ} {d : Document κ δ}
    (h : newDocument q m = some d) : q.Matches d = true :=
  (Option.filter_eq_some_iff.mp h).2

section Loop

variable [DecidableEq δ] {view : View q}

/-- What becomes of a document of the view. -/
def outcome (view : View q) (key : κ) (oldDoc newDoc : Option (Document κ δ)) :
    Option (Document κ δ) :=
  if (view.calculateChange key oldDoc newDoc).isSome then newDoc else oldDoc

/-- The calculated change leads from the old document to the new one. -/
lemma calculateChange_spec {key : κ} {oldDoc newDoc : Option (Document κ δ)}
    {c : DocumentViewChange κ δ} (h : view.calculateChange key oldDoc newDoc = some c)
    (hold : ∀ d, oldDoc = some d → d.key = key) (hnew : ∀ d, newDoc = some d → d.key = key) :
    c.key = key ∧ c.after = newDoc ∧ c.Applies oldDoc := by
  unfold calculateChange at h
  cases oldDoc with
  | none =>
    cases newDoc with
    | none => simp at h
    | some new =>
      obtain rfl : ⟨new, .added⟩ = c := by simpa using h
      exact ⟨hnew new rfl, rfl, rfl⟩
  | some old =>
    cases newDoc with
    | none =>
      obtain rfl : ⟨old, .removed⟩ = c := by simpa using h
      exact ⟨hold old rfl, rfl, rfl⟩
    | some new =>
      simp only at h
      split_ifs at h with hdata hwait hpending
      · obtain rfl : ⟨new, .modified⟩ = c := by simpa using h
        exact ⟨hnew new rfl, rfl, rfl⟩
      · obtain rfl : ⟨new, .metadata⟩ = c := by simpa using h
        refine ⟨hnew new rfl, rfl, ?_⟩
        simpa [DocumentViewChange.Applies] using hdata

variable {oldDocumentSet : DocumentSet q} {lastDocInLimit firstDocInLimit : Option (Document κ δ)}
  {acc : ViewDocumentChanges q} {key : κ} {m : MaybeDocument κ δ}

/-- An iteration without a change. -/
lemma applyDocument_of_none (hkey : ∀ d, m.toDocument = some d → d.key = key)
    (h : view.calculateChange key (oldDocumentSet.get? key) (newDocument q m) = none) :
    view.applyDocument oldDocumentSet lastDocInLimit firstDocInLimit acc (key, m) = .ok acc := by
  have hassert : (m.toDocument.all fun d => decide (key = d.key)) = true := by
    cases hm : m.toDocument with
    | none => rfl
    | some d => simp [hkey d hm]
  unfold newDocument at h
  simp only [applyDocument, hassert, hardAssert_true, h]
  rfl

/-- An iteration with a change. -/
lemma applyDocument_of_some {c : DocumentViewChange κ δ} {changeSet : DocumentViewChangeSet κ δ}
    (hkey : ∀ d, m.toDocument = some d → d.key = key)
    (h : view.calculateChange key (oldDocumentSet.get? key) (newDocument q m) = some c)
    (hadd : acc.changeSet.addChange c = .ok changeSet) :
    view.applyDocument oldDocumentSet lastDocInLimit firstDocInLimit acc (key, m) =
      .ok (acc.update c changeSet
        (acc.needsRefill || makesRoom (q := q) lastDocInLimit firstDocInLimit c)) := by
  have hassert : (m.toDocument.all fun d => decide (key = d.key)) = true := by
    cases hm : m.toDocument with
    | none => rfl
    | some d => simp [hkey d hm]
  have hnewkey : ∀ d, newDocument q m = some d → d.key = key := fun d hd =>
    hkey d (Option.filter_eq_some_iff.mp hd).1
  obtain ⟨hckey, hafter, -⟩ := calculateChange_spec h (fun d hd => SortedSet.key_of_get? hd) hnewkey
  unfold newDocument at h hafter
  simp only [applyDocument, hassert, hardAssert_true, h]
  cases hnew : m.toDocument.filter q.Matches with
  | none =>
    rw [hnew] at hafter
    simp only [ViewDocumentChanges.update, DocumentSet.edit, hafter, hckey, Option.any_none]
    show (acc.changeSet.addChange c >>= _) = _
    rw [hadd]
    rfl
  | some d =>
    rw [hnew] at hafter
    simp only [ViewDocumentChanges.update, DocumentSet.edit, hafter, hckey, Option.any_some]
    show (acc.changeSet.addChange c >>= _) = _
    rw [hadd]
    rfl

/-- Changed documents by key: at most one for each key, every one under its own key. -/
structure IsDocumentMap (docChanges : List (κ × MaybeDocument κ δ)) : Prop where
  nodup : (docChanges.map Prod.fst).Nodup
  keyed : ∀ k m d, (k, m) ∈ docChanges → m.toDocument = some d → d.key = k

/-- What the loop over the changed documents computes: the outcome of every changed document,
recorded as it is if nothing was recorded before, and whether some change makes room. -/
structure Looped (view : View q) (lastDocInLimit firstDocInLimit : Option (Document κ δ))
    (start : ViewDocumentChanges q) (docChanges : List (κ × MaybeDocument κ δ))
    (acc : ViewDocumentChanges q) : Prop where
  untouched : ∀ k ∉ docChanges.map Prod.fst,
    acc.documentSet.get? k = start.documentSet.get? k ∧
      acc.changeSet.get? k = start.changeSet.get? k
  touched : ∀ k m, (k, m) ∈ docChanges →
    acc.documentSet.get? k = view.outcome k (start.documentSet.get? k) (newDocument q m) ∧
      (start.changeSet.get? k = none → acc.changeSet.get? k =
        view.calculateChange k (start.documentSet.get? k) (newDocument q m))
  refill : acc.needsRefill = true ↔ ∃ k m c, (k, m) ∈ docChanges ∧
    view.calculateChange k (start.documentSet.get? k) (newDocument q m) = some c ∧
      makesRoom (q := q) lastDocInLimit firstDocInLimit c = true

variable (view lastDocInLimit firstDocInLimit) in
/-- **The loop over the changed documents** succeeds; it computes the outcome of each of them
and leaves the other documents alone.

**Proof sketch.** Induction along the list, with the elements so far. The document of the next
key is still the old one, since each key occurs once, so its calculated change can be made. -/
lemma foldlM_applyDocument {documents : DocumentSet q} {start : ViewDocumentChanges q}
    {docChanges : List (κ × MaybeDocument κ δ)} (hstart : start.Draft documents)
    (hrefill : start.needsRefill = false) (hmap : IsDocumentMap docChanges) :
    ∃ acc, docChanges.foldlM
        (view.applyDocument start.documentSet lastDocInLimit firstDocInLimit) start = .ok acc ∧
      acc.Draft documents ∧
      Looped view lastDocInLimit firstDocInLimit start docChanges acc := by
  refine foldlM_history (P := fun pre acc => acc.Draft documents ∧
    Looped view lastDocInLimit firstDocInLimit start pre acc) ⟨hstart, ?_, ?_, ?_⟩ ?_
  · exact fun k _ => ⟨rfl, rfl⟩
  · intro k m hmem
    simp at hmem
  · simp [hrefill]
  · rintro pre ⟨key, m⟩ post acc hsplit ⟨hdraft, hlooped⟩
    have hnodup := hmap.nodup
    rw [hsplit, List.map_append, List.map_cons, List.nodup_append] at hnodup
    have hfresh : key ∉ pre.map Prod.fst := fun hmem =>
      hnodup.2.2 key hmem key List.mem_cons_self rfl
    have hkeyed : ∀ d, m.toDocument = some d → d.key = key := fun d hd =>
      hmap.keyed key m d (by rw [hsplit]; simp) hd
    obtain ⟨hcurrent, hchanges⟩ := hlooped.untouched key hfresh
    have hne : ∀ k, k ∉ (pre ++ [(key, m)]).map Prod.fst → k ∉ pre.map Prod.fst ∧ k ≠ key := by
      intro k hk
      simpa using hk
    have hmem : ∀ k m', (k, m') ∈ pre ++ [(key, m)] →
        (k, m') ∈ pre ∧ k ≠ key ∨ k = key ∧ m' = m := by
      intro k m' hk
      rcases List.mem_append.mp hk with hin | hin
      · exact Or.inl ⟨hin, fun heq => hfresh (heq ▸ List.mem_map_of_mem hin)⟩
      · exact Or.inr (by simpa using hin)
    cases hchange : view.calculateChange key (start.documentSet.get? key) (newDocument q m) with
    | none =>
      refine ⟨acc, applyDocument_of_none hkeyed hchange, hdraft, ?_, ?_, ?_⟩
      · exact fun k hk => hlooped.untouched k (hne k hk).1
      · intro k m' hk
        rcases hmem k m' hk with ⟨hk, -⟩ | ⟨rfl, rfl⟩
        · exact hlooped.touched k m' hk
        · rw [outcome, hchange]
          exact ⟨hcurrent, fun hnone => hchanges.trans hnone⟩
      · rw [hlooped.refill]
        constructor
        · rintro ⟨k, m', c, hk, hc⟩
          exact ⟨k, m', c, List.mem_append_left _ hk, hc⟩
        · rintro ⟨k, m', c, hk, hc, hroom⟩
          rcases hmem k m' hk with ⟨hk, -⟩ | ⟨rfl, rfl⟩
          · exact ⟨k, m', c, hk, hc, hroom⟩
          · rw [hchange] at hc
            cases hc
    | some c =>
      have hnewkey : ∀ d, newDocument q m = some d → d.key = key := fun d hd =>
        hkeyed d (Option.filter_eq_some_iff.mp hd).1
      obtain ⟨rfl, hafter, happlies⟩ :=
        calculateChange_spec hchange (fun d hd => SortedSet.key_of_get? hd) hnewkey
      rw [← hcurrent] at happlies
      have hmatch : ∀ d, c.after = some d → q.Matches d = true := fun d hd =>
        matches_of_newDocument (hafter.symm.trans hd)
      obtain ⟨changeSet, hadd, hupdate, hset, hother⟩ := hdraft.update happlies hmatch
        (acc.needsRefill || makesRoom (q := q) lastDocInLimit firstDocInLimit c)
      refine ⟨_, applyDocument_of_some hkeyed hchange hadd, hupdate, ?_, ?_, ?_⟩
      · intro k hk
        obtain ⟨hpre, hck⟩ := hne k hk
        simp only [ViewDocumentChanges.update]
        rw [DocumentSet.get?_edit, if_neg hck, hother k hck]
        exact hlooped.untouched k hpre
      · intro k m' hk
        simp only [ViewDocumentChanges.update]
        rcases hmem k m' hk with ⟨hk, hck⟩ | ⟨rfl, rfl⟩
        · rw [DocumentSet.get?_edit, if_neg hck, hother k hck]
          exact hlooped.touched k m' hk
        · rw [DocumentSet.get?_edit, if_pos rfl, outcome, hchange, hafter]
          exact ⟨rfl, fun hnone => hset (hchanges.trans hnone)⟩
      · simp only [ViewDocumentChanges.update, Bool.or_eq_true]
        constructor
        · rintro (hbefore | hroom)
          · obtain ⟨k, m', c', hk, hc⟩ := hlooped.refill.mp hbefore
            exact ⟨k, m', c', List.mem_append_left _ hk, hc⟩
          · exact ⟨c.key, m, c, by simp, hchange, hroom⟩
        · rintro ⟨k, m', c', hk, hc, hroom⟩
          rcases hmem k m' hk with ⟨hk, -⟩ | ⟨rfl, rfl⟩
          · exact Or.inl (hlooped.refill.mpr ⟨k, m', c', hk, hc, hroom⟩)
          · rw [hchange] at hc
            cases hc
            exact Or.inr hroom

end Loop

/-! ## Dropping documents -/

section Drop

variable {documents : DocumentSet q} {acc : ViewDocumentChanges q}

/-- What dropping documents leaves: a part of the documents, at most as many as the limit, and
nothing is dropped unless the limit is met by documents that the query prefers. -/
structure Trimmed (acc acc' : ViewDocumentChanges q) : Prop where
  kept : ∀ k d, acc'.documentSet.get? k = some d → acc.documentSet.get? k = some d
  dropped : ∀ k d, acc.documentSet.get? k = some d → acc'.documentSet.get? k = none →
    q.limitType ≠ .none ∧ acc'.documentSet.size = q.limit ∧
      ∀ v ∈ acc'.documentSet.elements, q.Before v d
  size : q.limitType ≠ .none → acc'.documentSet.size = min acc.documentSet.size q.limit
  unlimited : q.limitType = .none → acc' = acc
  needsRefill : acc'.needsRefill = acc.needsRefill

omit [LinearOrder κ] in
/-- The document at the edge of the limit comes after all others in preference. -/
lemma before_found {d v : Document κ δ}
    (h : (if q.hasLimitToFirst then documents.last else documents.first) = some d)
    (hv : v ∈ documents.elements) (hne : v ≠ d) : q.Before v d := by
  unfold Query.Before Query.preference
  cases hq : q.hasLimitToFirst with
  | true =>
    rw [if_pos hq] at h
    exact SortedSet.lt_last h hv hne
  | false =>
    rw [if_neg (by simp [hq])] at h
    show q.order.Lt d v
    exact SortedSet.first_lt h hv hne

/-- Dropping one document is an edit. -/
private lemma update_removed (d : Document κ δ) (changeSet : DocumentViewChangeSet κ δ) :
    acc.update ⟨d, .removed⟩ changeSet acc.needsRefill =
      { acc with
        documentSet := acc.documentSet.erase d.key
        mutatedKeys := acc.mutatedKeys.erase d.key
        changeSet := changeSet } := rfl

/-- **The loop that drops documents** succeeds as long as there are documents; what it drops
comes after everything it keeps.

**Proof sketch.** Induction on the number of documents to drop. The first one dropped comes
after all others; it is there, so its removal can be recorded. -/
lemma dropDocuments_spec {i : ℕ} (hdraft : acc.Draft documents)
    (hi : i ≤ acc.documentSet.size) :
    ∃ acc', dropDocuments i acc = .ok acc' ∧ acc'.Draft documents ∧
      acc'.documentSet.size + i = acc.documentSet.size ∧
      acc'.needsRefill = acc.needsRefill ∧
      (∀ k d, acc'.documentSet.get? k = some d → acc.documentSet.get? k = some d) ∧
      ∀ k d, acc.documentSet.get? k = some d → acc'.documentSet.get? k = none →
        ∀ v ∈ acc'.documentSet.elements, q.Before v d := by
  induction i generalizing acc with
  | zero =>
    refine ⟨acc, rfl, hdraft, rfl, rfl, fun k d h => h, ?_⟩
    intro k d hd hnone
    rw [hd] at hnone
    cases hnone
  | succ i ih =>
    cases hfound : if q.hasLimitToFirst then acc.documentSet.last else acc.documentSet.first with
    | none =>
      exfalso
      have hempty : acc.documentSet.elements = [] := by
        split_ifs at hfound
        · exact List.getLast?_eq_none_iff.mp hfound
        · exact List.head?_eq_none_iff.mp hfound
      rw [SortedSet.size, hempty] at hi
      simp at hi
    | some d =>
      have hmem : d ∈ acc.documentSet.elements := by
        split_ifs at hfound
        · exact SortedSet.mem_of_last hfound
        · exact SortedSet.mem_of_first hfound
      have happlies : (⟨d, .removed⟩ : DocumentViewChange κ δ).Applies
          (acc.documentSet.get? d.key) := SortedSet.get?_key hmem
      obtain ⟨changeSet, hadd, hupdate, -, -⟩ :=
        hdraft.update happlies (fun d hd => by cases hd) acc.needsRefill
      rw [update_removed] at hupdate
      have hsize : (acc.documentSet.erase d.key).size + 1 = acc.documentSet.size :=
        SortedSet.size_erase hmem
      obtain ⟨acc', hdrop, hdraft', hsize', hrefill, hkept, hdropped⟩ :=
        ih hupdate (by show i ≤ (acc.documentSet.erase d.key).size; omega)
      refine ⟨acc', ?_, hdraft', ?_, hrefill, ?_, ?_⟩
      · simp only [dropDocuments, hfound]
        rw [hadd]
        exact hdrop
      · simp only at hsize'
        omega
      · intro k d' hd'
        have herase := hkept k d' hd'
        rw [SortedSet.get?_erase] at herase
        split_ifs at herase
        exact herase
      · intro k d' hd' hnone v hv
        by_cases hk : k = d.key
        · have hvd : (acc.documentSet.erase d.key).get? v.key = some v :=
            hkept v.key v (SortedSet.get?_key hv)
          obtain ⟨hvmem, hvkey⟩ := SortedSet.mem_erase.mp (SortedSet.mem_of_get? hvd)
          have hdd : d' = d := SortedSet.eq_of_key (SortedSet.mem_of_get? hd') hmem
            ((SortedSet.key_of_get? hd').trans hk)
          rw [hdd]
          exact before_found hfound hvmem fun heq => hvkey (heq ▸ rfl)
        · refine hdropped k d' ?_ hnone v hv
          show (acc.documentSet.erase d.key).get? k = some d'
          rwa [SortedSet.get?_erase, if_neg hk]

/-- **Meeting the limit** succeeds and trims the documents to the preferred ones. -/
lemma meetLimit_spec (hdraft : acc.Draft documents) :
    ∃ acc', meetLimit acc = .ok acc' ∧ acc'.Draft documents ∧ Trimmed acc acc' := by
  unfold meetLimit
  by_cases hlimit : q.limitType = .none
  · rw [if_neg (by simpa using hlimit)]
    refine ⟨acc, rfl, hdraft, fun k d h => h, ?_, ?_, fun _ => rfl, rfl⟩
    · intro k d hd hnone
      rw [hd] at hnone
      cases hnone
    · exact fun h => absurd hlimit h
  · rw [if_pos hlimit]
    obtain ⟨acc', hdrop, hdraft', hsize, hrefill, hkept, hdropped⟩ :=
      dropDocuments_spec (i := acc.documentSet.size - q.limit) hdraft (by omega)
    have hmin : acc'.documentSet.size = min acc.documentSet.size q.limit := by omega
    refine ⟨acc', hdrop, hdraft', hkept, ?_, fun _ => hmin, fun h => absurd h hlimit, hrefill⟩
    intro k d hd hnone
    refine ⟨hlimit, ?_, hdropped k d hd hnone⟩
    by_contra hne
    have hzero : acc.documentSet.size - q.limit = 0 := by omega
    rw [hzero] at hdrop
    obtain rfl : acc = acc' := Except.ok.inj hdrop
    rw [hd] at hnone
    cases hnone

end Drop

end View

end AntViewer.Firestore
