import AntViewer.Firestore.ViewUpdate

set_option relaxedAutoImplicit false
set_option autoImplicit false

/-!
# A view stays up to date

The local store keeps a document, or none, under every key. A view that has seen every change of
the store shows what a query over the whole store would return: every document of the view shows
one of the store that matches, and what matches and is not shown lies past the limit. There is one
exception, by design: a document whose write was acknowledged is shown as before until the server
sends it back.

## Main definitions

* `LocalDocuments`, `LocalDocuments.Covers`, `ExecuteQuery` — the local store as a view sees it.
* `Document.Shows`, `UpToDate` — a view is up to date with the store.
* `SyncEngine.computeViewChanges` — the two passes over the documents.

## Main results

* `SyncEngine.computeViewChanges_spec` — one update of a view, which never fails.
-/

namespace AntViewer.Firestore

open SortedSets Runs View

variable {κ δ : Type*}

/-- What the local store knows under each key. -/
structure LocalDocuments (κ δ : Type*) where
  get : κ → MaybeDocument κ δ
  keyed : ∀ k d, (get k).toDocument = some d → d.key = k

namespace LocalDocuments

/-- The local store in which nothing is known. -/
def empty (κ δ : Type*) : LocalDocuments κ δ where
  get _ := .noDocument
  keyed _ _ h := by cases h

/-- The document under a key, if it matches the query. -/
def candidate (store : LocalDocuments κ δ) (q : Query κ δ) (k : κ) : Option (Document κ δ) :=
  newDocument q (store.get k)

lemma key_of_candidate {store : LocalDocuments κ δ} {q : Query κ δ} {k : κ} {d : Document κ δ}
    (h : store.candidate q k = some d) : d.key = k :=
  store.keyed k d (Option.filter_eq_some_iff.mp h).1

/-- The candidate under a key, from what is known there. -/
lemma candidate_of_eq {store : LocalDocuments κ δ} {q : Query κ δ} {k : κ}
    {m : MaybeDocument κ δ} (h : store.get k = m) : store.candidate q k = newDocument q m := by
  rw [candidate, h]

/-- The changed documents lead from one state of the store to the next. -/
structure Covers (store store' : LocalDocuments κ δ) (docChanges : List (κ × MaybeDocument κ δ)) :
    Prop where
  nodup : (docChanges.map Prod.fst).Nodup
  changed : ∀ k m, (k, m) ∈ docChanges → store'.get k = m
  unchanged : ∀ k ∉ docChanges.map Prod.fst, store'.get k = store.get k

lemma Covers.isDocumentMap {store store' : LocalDocuments κ δ}
    {docChanges : List (κ × MaybeDocument κ δ)} (h : Covers store store' docChanges) :
    IsDocumentMap docChanges := by
  refine ⟨h.nodup, fun k m d hmem hd => ?_⟩
  rw [← h.changed k m hmem] at hd
  exact store'.keyed k d hd

end LocalDocuments

/-- The result of a query over the local store: each document that matches, once. -/
structure ExecuteQuery (q : Query κ δ) (store : LocalDocuments κ δ)
    (results : List (κ × MaybeDocument κ δ)) : Prop where
  nodup : (results.map Prod.fst).Nodup
  sound : ∀ k m, (k, m) ∈ results → store.get k = m ∧ (store.candidate q k).isSome
  complete : ∀ k, (store.candidate q k).isSome → k ∈ results.map Prod.fst

/-- What a new view needs of the result of a query: documents that match, each once, and all that
do, but for those that come after as many others as the limit allows. -/
structure Answers (q : Query κ δ) (store : LocalDocuments κ δ)
    (results : List (κ × MaybeDocument κ δ)) : Prop where
  nodup : (results.map Prod.fst).Nodup
  sound : ∀ k m, (k, m) ∈ results → store.get k = m ∧ (store.candidate q k).isSome
  complete : ∀ k stored, store.candidate q k = some stored → k ∈ results.map Prod.fst ∨
    q.limitType ≠ .none ∧ ∃ before : DocumentKeySet κ, before.card = q.limit ∧
      ∀ k' ∈ before, k' ∈ results.map Prod.fst ∧
        ∃ d, store.candidate q k' = some d ∧ q.Before d stored

/-- The result of a query is enough for a new view. -/
lemma ExecuteQuery.answers {q : Query κ δ} {store : LocalDocuments κ δ}
    {results : List (κ × MaybeDocument κ δ)} (h : ExecuteQuery q store results) :
    Answers q store results where
  nodup := h.nodup
  sound := h.sound
  complete k stored hstored := Or.inl (h.complete k (by rw [hstored]; rfl))

/-- What a view shows of a document: its data and whether it carries local writes, or the state
before a write that the server has acknowledged and not sent back. -/
def Document.Shows (shown stored : Document κ δ) : Prop :=
  shown.data = stored.data ∧ shown.hasLocalMutations = stored.hasLocalMutations ∨
    shown.hasLocalMutations = true ∧ stored.hasCommittedMutations = true

/-- The documents are up to date with the local store. -/
structure UpToDate (q : Query κ δ) (store : LocalDocuments κ δ) [DecidableEq κ]
    (documents : DocumentSet q) : Prop where
  shows : ∀ k d, documents.get? k = some d → ∃ stored, store.candidate q k = some stored ∧
    d.Shows stored
  missing : ∀ k stored, store.candidate q k = some stored → documents.get? k = none →
    stored.hasCommittedMutations = true ∨
      q.limitType ≠ .none ∧ documents.size = q.limit ∧
        ∀ d ∈ documents.elements, q.Before d stored
  size : q.limitType ≠ .none → documents.size ≤ q.limit

namespace Document

lemma Shows.refl (d : Document κ δ) : d.Shows d := Or.inl ⟨rfl, rfl⟩

variable [LinearOrder κ] [DecidableEq δ] {q : Query κ δ} {view : View q}

/-- A document whose change is not applied shows the new version. -/
lemma shows_of_calculateChange {key : κ} {old new : Document κ δ}
    (hmutated : key ∈ view.mutatedKeys ↔ old.hasLocalMutations = true)
    (h : view.calculateChange key (some old) (some new) = none) : old.Shows new := by
  simp only [calculateChange] at h
  split_ifs at h with hdata hwait hpending
  · simp only [shouldWaitForSyncedDocument, Bool.and_eq_true] at hwait
    exact Or.inr hwait.1
  · have hdata : old.data = new.data := by simpa using hdata
    cases hold : old.hasLocalMutations with
    | false =>
      have hkey : key ∉ view.mutatedKeys := by simp [hmutated, hold]
      simp [hkey] at hpending
      exact Or.inl ⟨hdata, by rw [hold, hpending]⟩
    | true =>
      have hkey : key ∈ view.mutatedKeys := hmutated.mpr hold
      simp [hkey] at hpending
      cases hlocal : new.hasLocalMutations with
      | true => exact Or.inl ⟨hdata, by rw [hold, hlocal]⟩
      | false => exact Or.inr ⟨hold, hpending hlocal⟩

/-- What is calculated for a document that already shows the new version is at most a change of
its metadata. -/
lemma Shows.metadata {key : κ} {old new : Document κ δ} {c : DocumentViewChange κ δ}
    (h : old.Shows new) (hc : view.calculateChange key (some old) (some new) = some c) :
    c.type = .metadata := by
  simp only [calculateChange] at hc
  split_ifs at hc with hdata hwait hpending
  · exfalso
    rcases h with ⟨heq, -⟩ | ⟨hlocal, hcommitted⟩
    · exact hdata heq
    · apply hwait
      simp [shouldWaitForSyncedDocument, hlocal, hcommitted, not_local_of_committed hcommitted]
  · obtain rfl : ⟨new, .metadata⟩ = c := by simpa using hc
    rfl

end Document

/-- The order of preference does not depend on the versions of documents with the same data. -/
lemma Query.before_congr {q : Query κ δ} {a a' b b' : Document κ δ} (ha : a.key = a'.key)
    (ha' : a.data = a'.data) (hb : b.key = b'.key) (hb' : b.data = b'.data) :
    q.Before a b ↔ q.Before a' b' := by
  unfold Query.Before Query.preference
  cases q.hasLimitToFirst with
  | true => exact Query.lt_congr ha ha' hb hb'
  | false => exact Query.lt_congr hb hb' ha ha'

namespace View

variable {q : Query κ δ}

/-- Changes make room only in a view with a limit. -/
lemma makesRoom_none (c : DocumentViewChange κ δ) : makesRoom (q := q) none none c = false := by
  obtain ⟨document, type⟩ := c
  cases type <;> rfl

/-- A change of metadata makes no room. -/
lemma makesRoom_metadata {c : DocumentViewChange κ δ} (lastDocInLimit firstDocInLimit :
    Option (Document κ δ)) (h : c.type = .metadata) :
    makesRoom (q := q) lastDocInLimit firstDocInLimit c = false := by
  unfold makesRoom
  rw [h]

variable [LinearOrder κ] [DecidableEq δ] {view : View q}

/-- A document that is and stays in the result shows the new version afterwards. -/
lemma outcome_shows (view : View q) (key : κ) {old new : Document κ δ}
    (h : view.calculateChange key (some old) (some new) = none → old.Shows new) :
    ∃ d, view.outcome key (some old) (some new) = some d ∧ d.Shows new := by
  unfold outcome
  cases hc : view.calculateChange key (some old) (some new) with
  | none => exact ⟨old, rfl, h hc⟩
  | some c => exact ⟨new, rfl, Document.Shows.refl new⟩

/-- A document that is not in the view enters it if it matches. -/
lemma outcome_none (key : κ) (newDoc : Option (Document κ δ)) :
    view.outcome key none newDoc = newDoc := by
  cases newDoc <;> rfl

/-- A document that does not match any more leaves the view. -/
lemma outcome_removed (key : κ) (oldDoc : Option (Document κ δ)) :
    view.outcome key oldDoc none = none := by
  cases oldDoc <;> rfl

end View

section Trim

variable {q : Query κ δ}

/-- **The edge of a full view**: the document that all others are preferred to. A change that
makes no room is not a removal, and does not put a document behind the edge. -/
lemma exists_edge {documents : DocumentSet q} (hlimit : q.limitType ≠ .none)
    (hsize : documents.size = q.limit) (hne : documents.elements ≠ []) :
    ∃ e ∈ documents.elements, (∀ d ∈ documents.elements, d ≠ e → q.Before d e) ∧
      ∀ c, makesRoom (q := q) (lastDocInLimit documents) (firstDocInLimit documents) c = false →
        c.type ≠ .removed ∧ (c.type = .modified → ¬ q.Before e c.document) := by
  cases htype : q.limitType with
  | none => exact absurd htype hlimit
  | first =>
    have hfirst : q.hasLimitToFirst = true := by simp [Query.hasLimitToFirst, htype]
    have hlast : q.hasLimitToLast = false := by simp [Query.hasLimitToLast, htype]
    obtain ⟨e, he⟩ : ∃ e, documents.last = some e := ⟨_, List.getLast?_eq_some_getLast hne⟩
    have hedge : lastDocInLimit documents = some e := by
      rw [lastDocInLimit, if_pos ⟨hfirst, hsize⟩]
      exact he
    have hnone : firstDocInLimit documents = none := by simp [firstDocInLimit, hlast]
    have hpreference : q.preference = q.order := by simp [Query.preference, hfirst]
    refine ⟨e, SortedSet.mem_of_last he, fun d hd hde => ?_, fun c hc => ?_⟩
    · rw [Query.Before, hpreference]
      exact SortedSet.lt_last he hd hde
    · rw [hedge, hnone] at hc
      obtain ⟨document, type⟩ := c
      rw [Query.Before, hpreference, ← Ranking.gt_iff_lt]
      cases type <;> simp [makesRoom] at hc ⊢
      exact hc
  | last =>
    have hfirst : q.hasLimitToFirst = false := by simp [Query.hasLimitToFirst, htype]
    have hlast : q.hasLimitToLast = true := by simp [Query.hasLimitToLast, htype]
    obtain ⟨e, he⟩ : ∃ e, documents.first = some e := ⟨_, List.head?_eq_some_head hne⟩
    have hedge : firstDocInLimit documents = some e := by
      rw [firstDocInLimit, if_pos ⟨hlast, hsize⟩]
      exact he
    have hnone : lastDocInLimit documents = none := by simp [lastDocInLimit, hfirst]
    have hpreference : q.preference = q.order.reverse := by simp [Query.preference, hfirst]
    refine ⟨e, SortedSet.mem_of_first he, fun d hd hde => ?_, fun c hc => ?_⟩
    · rw [Query.Before, hpreference]
      show q.order.Lt e d
      exact SortedSet.first_lt he hd hde
    · rw [hedge, hnone] at hc
      obtain ⟨document, type⟩ := c
      rw [Query.Before, hpreference]
      cases type <;> simp [makesRoom] at hc ⊢
      exact hc

variable [LinearOrder κ] {store : LocalDocuments κ δ}

/-- **Trimming keeps documents up to date**: if the documents show those of the store, and what is
missing in them lies past the limit after trimming, then the trimmed documents are up to date. -/
lemma upToDate_of_trimmed {acc acc' : ViewDocumentChanges q} (htrim : Trimmed acc acc')
    (hshows : ∀ k d, acc.documentSet.get? k = some d →
      ∃ stored, store.candidate q k = some stored ∧ d.Shows stored)
    (hmissing : ∀ k stored, store.candidate q k = some stored → acc.documentSet.get? k = none →
      stored.hasCommittedMutations = true ∨
        q.limitType ≠ .none ∧ acc'.documentSet.size = q.limit ∧
          ∀ d ∈ acc'.documentSet.elements, q.Before d stored) :
    UpToDate q store acc'.documentSet where
  shows k d hd := hshows k d (htrim.kept k d hd)
  missing k stored hstored hnone := by
    cases hacc : acc.documentSet.get? k with
    | none => exact hmissing k stored hstored hacc
    | some d =>
      obtain ⟨hlimit, hsize, hbefore⟩ := htrim.dropped k d hacc hnone
      obtain ⟨stored', hstored', hshown⟩ := hshows k d hacc
      obtain rfl : stored = stored' := Option.some.inj (hstored.symm.trans hstored')
      rcases hshown with ⟨hdata, -⟩ | ⟨-, hcommitted⟩
      · right
        refine ⟨hlimit, hsize, fun v hv =>
          (Query.before_congr rfl rfl ?_ hdata).mp (hbefore v hv)⟩
        have hkey : d.key = k := SortedSet.key_of_get? hacc
        rw [hkey, LocalDocuments.key_of_candidate hstored]
      · exact Or.inl hcommitted
  size hlimit := by
    rw [htrim.size hlimit]
    exact min_le_right _ _

/-- **Nothing is missed without a second pass**: if every document of a full view is still there
and not behind the edge, then what remains after trimming is preferred to everything that the
edge was preferred to.

**Proof sketch.** No document of the old view is dropped in favour of one behind the edge, since
what is dropped comes after all that is kept. So if a kept document were behind the edge, all the
old documents would be kept besides it, which is more than the limit. -/
lemma before_of_edge {documents : DocumentSet q} {acc acc' : ViewDocumentChanges q}
    {e stored : Document κ δ} (htrim : Trimmed acc acc') (hlimit : q.limitType ≠ .none)
    (hsize : documents.size = q.limit)
    (hstay : ∀ k ∈ documents.keys, ∃ d, acc.documentSet.get? k = some d ∧ ¬ q.Before e d)
    (hstored : q.Before e stored) :
    acc'.documentSet.size = q.limit ∧ ∀ d ∈ acc'.documentSet.elements, q.Before d stored := by
  have hsubset : documents.keys ⊆ acc.documentSet.keys := by
    intro k hk
    obtain ⟨d, hd, -⟩ := hstay k hk
    rw [SortedSet.mem_keys, hd]
    rfl
  have hcard : q.limit ≤ acc.documentSet.size := by
    rw [← hsize, ← SortedSet.card_keys, ← SortedSet.card_keys]
    exact Finset.card_le_card hsubset
  have hfull : acc'.documentSet.size = q.limit := by
    rw [htrim.size hlimit]
    exact min_eq_right hcard
  refine ⟨hfull, fun d hd => ?_⟩
  suffices hnot : ¬ q.Before e d from Ranking.lt_of_not_lt_of_lt hnot hstored
  intro hbehind
  have hkept : documents.keys ⊆ acc'.documentSet.keys := by
    intro k hk
    obtain ⟨d₀, hd₀, hnot⟩ := hstay k hk
    rw [SortedSet.mem_keys, Option.isSome_iff_ne_none]
    intro hnone
    have hafter : q.Before d d₀ := (htrim.dropped k d₀ hd₀ hnone).2.2 d hd
    exact hnot (Ranking.lt_trans hbehind hafter)
  have hkeys : documents.keys = acc'.documentSet.keys := by
    refine Finset.eq_of_subset_of_card_le hkept ?_
    rw [SortedSet.card_keys, SortedSet.card_keys, hfull, hsize]
  have hdkey : d.key ∈ documents.keys := by
    rw [hkeys, SortedSet.mem_keys, ← Query.order_key q d, SortedSet.get?_key hd]
    rfl
  obtain ⟨d₀, hd₀, hnot⟩ := hstay d.key hdkey
  have hacc : acc.documentSet.get? d.key = some d := htrim.kept d.key d (SortedSet.get?_key hd)
  obtain rfl : d = d₀ := Option.some.inj (hacc.symm.trans hd₀)
  exact hnot hbehind

end Trim

/-! ## The two passes -/

section Passes

variable [LinearOrder κ] {q : Query κ δ}

/-- The documents of a view match the query, and its mutated keys are those of the documents with
local writes. -/
structure View.Coherent (view : View q) : Prop where
  mutated : ∀ k, k ∈ view.mutatedKeys ↔
    ∃ d, view.documentSet.get? k = some d ∧ d.hasLocalMutations = true
  matching : ∀ k d, view.documentSet.get? k = some d → q.Matches d = true

lemma View.Coherent.mutated_iff {view : View q} (h : view.Coherent) {k : κ} {d : Document κ δ}
    (hd : view.documentSet.get? k = some d) :
    k ∈ view.mutatedKeys ↔ d.hasLocalMutations = true := by
  rw [h.mutated k, hd]
  simp

/-- A coherent view is where a first pass starts. -/
lemma View.Coherent.draft {view : View q} (h : view.Coherent) :
    (view.startChanges none).Draft view.documentSet where
  tracks _ := rfl
  mutated := h.mutated
  matching := h.matching

variable [DecidableEq δ]

/-- **One pass** over changed documents: the loop over them and the trimming succeed. -/
lemma View.computeDocumentChanges_spec (view : View q) {documents : DocumentSet q}
    {docChanges : List (κ × MaybeDocument κ δ)}
    (previousChanges : Option (ViewDocumentChanges q))
    (hdraft : (view.startChanges previousChanges).Draft documents)
    (hmap : IsDocumentMap docChanges) :
    ∃ acc acc', acc.Draft documents ∧ acc'.Draft documents ∧
      Looped view (lastDocInLimit (view.startChanges previousChanges).documentSet)
        (firstDocInLimit (view.startChanges previousChanges).documentSet)
        (view.startChanges previousChanges) docChanges acc ∧
      Trimmed acc acc' ∧
      (previousChanges = none ∨ acc'.needsRefill = false →
        view.computeDocumentChanges docChanges previousChanges = .ok acc') := by
  have hrefill : (view.startChanges previousChanges).needsRefill = false := by
    cases previousChanges <;> rfl
  obtain ⟨acc, hfold, hacc, hlooped⟩ := foldlM_applyDocument view
    (lastDocInLimit (view.startChanges previousChanges).documentSet)
    (firstDocInLimit (view.startChanges previousChanges).documentSet) hdraft hrefill hmap
  obtain ⟨acc', htrim, hacc', htrimmed⟩ := meetLimit_spec hacc
  refine ⟨acc, acc', hacc, hacc', hlooped, htrimmed, fun hok => ?_⟩
  have hassert : (!acc'.needsRefill || previousChanges.isNone) = true := by
    rcases hok with rfl | hok <;> simp_all
  unfold computeDocumentChanges
  simp only [hfold]
  show (meetLimit acc >>= _) = _
  simp only [htrim]
  show (hardAssert (!acc'.needsRefill || previousChanges.isNone) _ >>= _) = _
  rw [hassert]
  rfl

section FirstPass

variable {view : View q} {store store' : LocalDocuments κ δ}
  {docChanges : List (κ × MaybeDocument κ δ)}
  {lastDocInLimit firstDocInLimit : Option (Document κ δ)} {acc : ViewDocumentChanges q}

/-- After the loop of the first pass, the documents show those of the changed store. -/
lemma firstPass_shows (hview : view.Coherent) (hdate : UpToDate q store view.documentSet)
    (hcovers : store.Covers store' docChanges)
    (hlooped : Looped view lastDocInLimit firstDocInLimit (view.startChanges none) docChanges acc)
    (k : κ) (d : Document κ δ) (hd : acc.documentSet.get? k = some d) :
    ∃ stored, store'.candidate q k = some stored ∧ d.Shows stored := by
  by_cases hk : k ∈ docChanges.map Prod.fst
  · obtain ⟨⟨k, m⟩, hmem, rfl⟩ := List.mem_map.mp hk
    rw [LocalDocuments.candidate_of_eq (hcovers.changed k m hmem)]
    rw [(hlooped.touched k m hmem).1] at hd
    cases hold : view.documentSet.get? k with
    | none =>
      have hnew : newDocument q m = some d := by
        rw [← hd]
        show _ = view.outcome k (view.documentSet.get? k) (newDocument q m)
        rw [hold, outcome_none]
      exact ⟨d, hnew, Document.Shows.refl d⟩
    | some old =>
      change view.outcome k (view.documentSet.get? k) (newDocument q m) = some d at hd
      rw [hold] at hd
      cases hnew : newDocument q m with
      | none =>
        rw [hnew, outcome_removed] at hd
        cases hd
      | some new =>
        obtain ⟨d', hd', hshows⟩ := outcome_shows view k fun hc =>
          Document.shows_of_calculateChange (hview.mutated_iff hold) hc
        rw [hnew, hd'] at hd
        cases hd
        exact ⟨new, rfl, hshows⟩
  · rw [(hlooped.untouched k hk).1] at hd
    obtain ⟨stored, hstored, hshows⟩ := hdate.shows k d hd
    refine ⟨stored, ?_, hshows⟩
    rwa [LocalDocuments.candidate_of_eq (hcovers.unchanged k hk)]

/-- A document that matches is there after the loop if it is changed. -/
lemma looped_isSome {start : ViewDocumentChanges q} {k : κ} {m : MaybeDocument κ δ}
    {stored : Document κ δ}
    (hlooped : Looped view lastDocInLimit firstDocInLimit start docChanges acc)
    (hmem : (k, m) ∈ docChanges) (hnew : newDocument q m = some stored) :
    acc.documentSet.get? k ≠ none := by
  rw [(hlooped.touched k m hmem).1, hnew, outcome]
  cases hold : start.documentSet.get? k with
  | none => simp [calculateChange]
  | some old => split_ifs <;> simp

/-- If no change makes room, the documents of a full view stay, and none of them moves behind
the edge. -/
lemma firstPass_stays {e : Document κ δ}
    (hlooped : Looped view lastDocInLimit firstDocInLimit (view.startChanges none) docChanges acc)
    (hmap : IsDocumentMap docChanges) (hrefill : acc.needsRefill = false)
    (hedge : ∀ d ∈ view.documentSet.elements, d ≠ e → q.Before d e)
    (hroom : ∀ c, makesRoom (q := q) lastDocInLimit firstDocInLimit c = false →
      c.type ≠ .removed ∧ (c.type = .modified → ¬ q.Before e c.document))
    (k : κ) (hk : k ∈ view.documentSet.keys) :
    ∃ d, acc.documentSet.get? k = some d ∧ ¬ q.Before e d := by
  obtain ⟨old, hold⟩ := Option.isSome_iff_exists.mp (SortedSet.mem_keys.mp hk)
  have hnot : ¬ q.Before e old := by
    by_cases heq : old = e
    · rw [heq]
      exact Ranking.lt_irrefl e
    · exact Ranking.lt_asymm (hedge old (SortedSet.mem_of_get? hold) heq)
  by_cases hchanged : k ∈ docChanges.map Prod.fst
  · obtain ⟨⟨k, m⟩, hmem, rfl⟩ := List.mem_map.mp hchanged
    have hdoc : acc.documentSet.get? k = view.outcome k (some old) (newDocument q m) := by
      rw [(hlooped.touched k m hmem).1, ← hold]
      rfl
    cases hc : view.calculateChange k (some old) (newDocument q m) with
    | none =>
      refine ⟨old, ?_, hnot⟩
      rw [hdoc, outcome, hc]
      rfl
    | some c =>
      have hc' : view.calculateChange k ((view.startChanges none).documentSet.get? k)
          (newDocument q m) = some c := by
        show view.calculateChange k (view.documentSet.get? k) (newDocument q m) = some c
        rw [hold, hc]
      have hnoroom : makesRoom (q := q) lastDocInLimit firstDocInLimit c = false := by
        rw [Bool.eq_false_iff]
        intro htrue
        have htrue' := hlooped.refill.mpr ⟨k, m, c, hmem, hc', htrue⟩
        rw [hrefill] at htrue'
        cases htrue'
      obtain ⟨hremoved, hmodified⟩ := hroom c hnoroom
      obtain ⟨hkey, hafter, happlies⟩ := calculateChange_spec hc
        (fun d hd => by cases hd; exact SortedSet.key_of_get? hold)
        (fun d hd => hmap.keyed k m d hmem (Option.filter_eq_some_iff.mp hd).1)
      rw [outcome, hc] at hdoc
      obtain ⟨document, type⟩ := c
      refine ⟨document, ?_, ?_⟩
      · rw [hdoc]
        cases type with
        | removed => exact absurd rfl hremoved
        | added => exact hafter.symm
        | modified => exact hafter.symm
        | metadata => exact hafter.symm
      · cases type with
        | removed => exact absurd rfl hremoved
        | added => cases happlies
        | modified => exact hmodified rfl
        | metadata =>
          have hdata : document.data = old.data := by
            simpa using (Option.some.inj happlies).symm
          have hsame : document.key = old.key := hkey.trans (SortedSet.key_of_get? hold).symm
          exact fun hbefore =>
            hnot ((Query.before_congr rfl rfl hsame hdata).mp hbefore)
  · exact ⟨old, by rw [(hlooped.untouched k hchanged).1]; exact hold, hnot⟩

/-- After a first pass that needs no refill, what is missing lies past the limit. -/
lemma firstPass_missing {acc' : ViewDocumentChanges q}
    (hdate : UpToDate q store view.documentSet) (hcovers : store.Covers store' docChanges)
    (hlooped : Looped view (View.lastDocInLimit view.documentSet)
      (View.firstDocInLimit view.documentSet) (view.startChanges none) docChanges acc)
    (htrim : Trimmed acc acc') (hrefill : acc.needsRefill = false)
    (k : κ) (stored : Document κ δ) (hstored : store'.candidate q k = some stored)
    (hnone : acc.documentSet.get? k = none) :
    stored.hasCommittedMutations = true ∨
      q.limitType ≠ .none ∧ acc'.documentSet.size = q.limit ∧
        ∀ d ∈ acc'.documentSet.elements, q.Before d stored := by
  have hk : k ∉ docChanges.map Prod.fst := by
    intro hk
    obtain ⟨⟨k, m⟩, hmem, rfl⟩ := List.mem_map.mp hk
    rw [LocalDocuments.candidate_of_eq (hcovers.changed k m hmem)] at hstored
    exact looped_isSome hlooped hmem hstored hnone
  rw [LocalDocuments.candidate_of_eq (hcovers.unchanged k hk)] at hstored
  rw [(hlooped.untouched k hk).1] at hnone
  rcases hdate.missing k stored hstored hnone with hcommitted | ⟨hlimit, hsize, hbefore⟩
  · exact Or.inl hcommitted
  · refine Or.inr ⟨hlimit, ?_⟩
    by_cases hempty : view.documentSet.elements = []
    · have hzero : q.limit = 0 := by rw [← hsize, SortedSet.size, hempty]; rfl
      have hnil : acc'.documentSet.size = 0 := by
        rw [htrim.size hlimit, hzero]
        exact Nat.min_zero _
      refine ⟨hnil.trans hzero.symm, fun d hd => ?_⟩
      rw [List.eq_nil_of_length_eq_zero hnil] at hd
      cases hd
    · obtain ⟨e, he, hedge, hroom⟩ := exists_edge hlimit hsize hempty
      exact before_of_edge htrim hlimit hsize
        (firstPass_stays hlooped hcovers.isDocumentMap hrefill hedge hroom) (hbefore e he)

end FirstPass

section SecondPass

variable {view : View q} {store : LocalDocuments κ δ} {results : List (κ × MaybeDocument κ δ)}
  {lastDocInLimit firstDocInLimit : Option (Document κ δ)} {start acc : ViewDocumentChanges q}

/-- After the loop of the second pass, the documents show those of the store. -/
lemma secondPass_shows (hresults : Answers q store results)
    (hstart : ∀ k d, start.documentSet.get? k = some d →
      ∃ stored, store.candidate q k = some stored ∧ d.Shows stored)
    (hlooped : Looped view lastDocInLimit firstDocInLimit start results acc)
    (k : κ) (d : Document κ δ) (hd : acc.documentSet.get? k = some d) :
    ∃ stored, store.candidate q k = some stored ∧ d.Shows stored := by
  by_cases hk : k ∈ results.map Prod.fst
  · obtain ⟨⟨k, m⟩, hmem, rfl⟩ := List.mem_map.mp hk
    obtain ⟨hget, hsome⟩ := hresults.sound k m hmem
    obtain ⟨stored, hstored⟩ := Option.isSome_iff_exists.mp hsome
    have hnew : newDocument q m = some stored := by
      rwa [LocalDocuments.candidate_of_eq hget] at hstored
    rw [(hlooped.touched k m hmem).1, hnew] at hd
    refine ⟨stored, hstored, ?_⟩
    cases hold : start.documentSet.get? k with
    | none =>
      rw [hold, outcome_none] at hd
      cases hd
      exact Document.Shows.refl _
    | some old =>
      obtain ⟨stored', hstored', hshows⟩ := hstart k old hold
      obtain rfl : stored = stored' := Option.some.inj (hstored.symm.trans hstored')
      obtain ⟨d', hd', hshows'⟩ := outcome_shows view k fun _ => hshows
      rw [hold, hd'] at hd
      cases hd
      exact hshows'
  · rw [(hlooped.untouched k hk).1] at hd
    exact hstart k d hd

/-- The second pass never needs another one. -/
lemma secondPass_needsRefill (hresults : Answers q store results)
    (hstart : ∀ k d, start.documentSet.get? k = some d →
      ∃ stored, store.candidate q k = some stored ∧ d.Shows stored)
    (hlooped : Looped view lastDocInLimit firstDocInLimit start results acc) :
    acc.needsRefill = false := by
  rw [Bool.eq_false_iff, ne_eq, hlooped.refill]
  rintro ⟨k, m, c, hmem, hc, hroom⟩
  obtain ⟨hget, hsome⟩ := hresults.sound k m hmem
  obtain ⟨stored, hstored⟩ := Option.isSome_iff_exists.mp hsome
  have hnew : newDocument q m = some stored := by
    rwa [LocalDocuments.candidate_of_eq hget] at hstored
  rw [hnew] at hc
  cases hold : start.documentSet.get? k with
  | none =>
    rw [hold] at hc
    obtain rfl : ⟨stored, .added⟩ = c := by simpa [calculateChange] using hc
    cases hroom
  | some old =>
    obtain ⟨stored', hstored', hshows⟩ := hstart k old hold
    obtain rfl : stored = stored' := Option.some.inj (hstored.symm.trans hstored')
    rw [hold] at hc
    rw [makesRoom_metadata lastDocInLimit firstDocInLimit (hshows.metadata hc)] at hroom
    cases hroom

/-- A pass over the result of a query that starts from nothing misses only what comes after the
limit.

**Proof sketch.** There are documents up to the limit in the result that are preferred to the
missing one. Either all of them are kept, and then nothing else is, or one of them is dropped, and
then all that is kept is preferred to it. -/
lemma missing_of_answers {acc' : ViewDocumentChanges q} (hresults : Answers q store results)
    (hstart : ∀ k, start.documentSet.get? k = none)
    (hlooped : Looped view lastDocInLimit firstDocInLimit start results acc)
    (htrim : Trimmed acc acc') (k : κ) (stored : Document κ δ)
    (hstored : store.candidate q k = some stored) (hnone : acc.documentSet.get? k = none) :
    stored.hasCommittedMutations = true ∨
      q.limitType ≠ .none ∧ acc'.documentSet.size = q.limit ∧
        ∀ d ∈ acc'.documentSet.elements, q.Before d stored := by
  have hfound : ∀ k' ∈ results.map Prod.fst,
      acc.documentSet.get? k' = store.candidate q k' := by
    intro k' hk'
    obtain ⟨⟨k', m⟩, hmem, rfl⟩ := List.mem_map.mp hk'
    rw [(hlooped.touched k' m hmem).1, hstart, outcome_none,
      LocalDocuments.candidate_of_eq (hresults.sound k' m hmem).1]
  obtain hmem | ⟨hlimit, before, hcard, hbefore⟩ := hresults.complete k stored hstored
  · rw [hfound k hmem, hstored] at hnone
    cases hnone
  · have hearlier : ∀ k' ∈ before, ∃ d, acc.documentSet.get? k' = some d ∧ q.Before d stored := by
      intro k' hk'
      obtain ⟨hmem, d, hd, hlt⟩ := hbefore k' hk'
      exact ⟨d, (hfound k' hmem).trans hd, hlt⟩
    have hfull : acc'.documentSet.size = q.limit := by
      rw [htrim.size hlimit, ← hcard, min_eq_right]
      rw [← SortedSet.card_keys]
      refine Finset.card_le_card fun k' hk' => ?_
      obtain ⟨d, hd, -⟩ := hearlier k' hk'
      rw [SortedSet.mem_keys, hd]
      rfl
    refine Or.inr ⟨hlimit, hfull, fun d hd => ?_⟩
    have hkept : acc.documentSet.get? d.key = some d :=
      htrim.kept d.key d (SortedSet.get?_key hd)
    by_cases hall : before ⊆ acc'.documentSet.keys
    · have hkeys : before = acc'.documentSet.keys :=
        Finset.eq_of_subset_of_card_le hall (by rw [SortedSet.card_keys, hfull, hcard])
      have hkey : d.key ∈ before := by
        rw [hkeys, SortedSet.mem_keys, ← Query.order_key q d, SortedSet.get?_key hd]
        rfl
      obtain ⟨d', hd', hlt⟩ := hearlier d.key hkey
      obtain rfl : d = d' := Option.some.inj (hkept.symm.trans hd')
      exact hlt
    · obtain ⟨k', hk', hdropped⟩ := Finset.not_subset.mp hall
      obtain ⟨d', hd', hlt⟩ := hearlier k' hk'
      have hgone : acc'.documentSet.get? k' = none := by
        rwa [SortedSet.mem_keys, Option.not_isSome_iff_eq_none] at hdropped
      exact Ranking.lt_trans ((htrim.dropped k' d' hd' hgone).2.2 d hd) hlt

end SecondPass

/-- The part of `EmitNewSnapshotsAndNotifyLocalStore` that computes the changes of one view: from
the changed documents, and if those may have made room, once more from all documents of the local
store that match. -/
def SyncEngine.computeViewChanges (view : View q) (changes results : List (κ × MaybeDocument κ δ)) :
    Except String (ViewDocumentChanges q) := do
  let viewDocChanges ← view.computeDocumentChanges changes none
  if viewDocChanges.needsRefill then view.computeDocumentChanges results (some viewDocChanges)
  else return viewDocChanges

/-- **An update keeps a view up to date**: from a coherent view that is up to date with the local
store, the two passes over the changes of the store succeed, and lead to documents that are up to
date with the changed store, with the changes that lead there. Without a limit every recorded
change can be made to the document of the old view.

**Proof sketch.** After the first loop the documents show those of the store. If no change made
room, what is missing was missing before and stays past the limit. Otherwise the second loop sees
every document that matches, so it only adds documents and changes metadata, and nothing is
missing before the trimming. -/
lemma SyncEngine.computeViewChanges_spec {view : View q} {store store' : LocalDocuments κ δ}
    {changes results : List (κ × MaybeDocument κ δ)} (hview : view.Coherent)
    (hdate : UpToDate q store view.documentSet) (hcovers : store.Covers store' changes)
    (hresults : q.limitType ≠ .none → ExecuteQuery q store' results) :
    ∃ c, computeViewChanges view changes results = .ok c ∧ c.needsRefill = false ∧
      c.Draft view.documentSet ∧ UpToDate q store' c.documentSet ∧
      (q.limitType = .none → ∀ k change, c.changeSet.get? k = some change →
        change.Applies (view.documentSet.get? k)) := by
  obtain ⟨acc, acc', hacc, hacc', hlooped, htrim, hok⟩ :=
    view.computeDocumentChanges_spec none hview.draft hcovers.isDocumentMap
  have hshows := firstPass_shows hview hdate hcovers hlooped
  unfold computeViewChanges
  rw [hok (Or.inl rfl)]
  cases hrefill : acc'.needsRefill with
  | false =>
    refine ⟨acc', ?_, hrefill, hacc', ?_, ?_⟩
    · show (if acc'.needsRefill = true then _ else _) = _
      rw [hrefill]
      rfl
    · exact upToDate_of_trimmed htrim hshows (firstPass_missing hdate hcovers hlooped htrim
        (htrim.needsRefill.symm.trans hrefill))
    · intro hlimit k change hchange
      rw [htrim.unlimited hlimit] at hchange
      by_cases hk : k ∈ changes.map Prod.fst
      · obtain ⟨⟨k, m⟩, hmem, rfl⟩ := List.mem_map.mp hk
        rw [(hlooped.touched k m hmem).2 rfl] at hchange
        exact (calculateChange_spec hchange (fun d hd => SortedSet.key_of_get? hd) fun d hd =>
          hcovers.isDocumentMap.keyed k m d hmem (Option.filter_eq_some_iff.mp hd).1).2.2
      · rw [(hlooped.untouched k hk).2] at hchange
        cases hchange
  | true =>
    have hlimit : q.limitType ≠ .none := by
      intro hlimit
      rw [htrim.needsRefill, hlooped.refill] at hrefill
      obtain ⟨k, m, c, -, -, hroom⟩ := hrefill
      rw [View.lastDocInLimit, View.firstDocInLimit, if_neg, if_neg, makesRoom_none] at hroom
      · cases hroom
      · simp [Query.hasLimitToLast, hlimit]
      · simp [Query.hasLimitToFirst, hlimit]
    have hresults := hresults hlimit
    have hstart : (view.startChanges (some acc')).Draft view.documentSet :=
      ⟨hacc'.tracks, hacc'.mutated, hacc'.matching⟩
    have hmap : IsDocumentMap results := by
      refine ⟨hresults.nodup, fun k m d hmem hd => ?_⟩
      rw [← (hresults.sound k m hmem).1] at hd
      exact store'.keyed k d hd
    obtain ⟨acc₂, acc₂', -, hacc₂', hlooped₂, htrim₂, hok₂⟩ :=
      view.computeDocumentChanges_spec (some acc') hstart hmap
    have hshows' : ∀ k d, (view.startChanges (some acc')).documentSet.get? k = some d →
        ∃ stored, store'.candidate q k = some stored ∧ d.Shows stored :=
      fun k d hd => hshows k d (htrim.kept k d hd)
    have hrefill₂ : acc₂'.needsRefill = false :=
      htrim₂.needsRefill.trans (secondPass_needsRefill hresults.answers hshows' hlooped₂)
    refine ⟨acc₂', ?_, hrefill₂, hacc₂', ?_, fun h => absurd h hlimit⟩
    · show (if acc'.needsRefill = true then _ else _) = _
      rw [hrefill, if_pos rfl]
      exact hok₂ (Or.inr hrefill₂)
    · refine upToDate_of_trimmed htrim₂ (secondPass_shows hresults.answers hshows' hlooped₂) ?_
      intro k stored hstored hnone
      exfalso
      obtain ⟨⟨k, m⟩, hmem, rfl⟩ := List.mem_map.mp
        (hresults.complete k (by rw [hstored]; rfl))
      rw [LocalDocuments.candidate_of_eq (hresults.sound k m hmem).1] at hstored
      exact looped_isSome hlooped₂ hmem hstored hnone

end Passes

end AntViewer.Firestore
