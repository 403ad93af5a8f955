import Mathlib.Data.List.Nodup
import Mathlib.Logic.Function.Basic
import Mathlib.Tactic.Common

set_option relaxedAutoImplicit false
set_option autoImplicit false

/-!
# Following a keyed collection by its changes

A collection of documents, as a partial function from keys to data, changes from one snapshot to
the next by a list of changes with at most one for each key: documents are added, modified and
removed. A follower keeps an entry for each key and updates it by the changes alone. The
follower `ChangeFeed.addRemove` parses what is added, drops what is removed and parsed, and
ignores modifications.

## Main definitions

* `ChangeFeed.IsDiff` — a list of changes is the difference of two snapshots.
* `ChangeFeed.follow` — updating a view by a list of changes.
* `ChangeFeed.addRemove` — the follower that ignores modifications.

## Main results

* `ChangeFeed.follow_mirrors_iff` — an entry that mirrors its document goes on doing so iff no
  modification changes what the parser makes of it.
* `ChangeFeed.follow_holds_added` — an entry is never behind what its document was added as.
-/

namespace ChangeFeed

variable {κ δ μ : Type*}

/-- What happened to a document. -/
inductive Kind
  | added
  | modified
  | removed
  deriving DecidableEq

/-- One change: for a removal, the data is the last known one. -/
structure Change (κ δ : Type*) where
  kind : Kind
  key : κ
  data : δ

/-- The changes lead from the documents of one snapshot to those of the next. -/
structure IsDiff (docs docs' : κ → Option δ) (changes : List (Change κ δ)) : Prop where
  nodup : (changes.map Change.key).Nodup
  added : ∀ k d, ⟨.added, k, d⟩ ∈ changes → docs k = none ∧ docs' k = some d
  modified : ∀ k d, ⟨.modified, k, d⟩ ∈ changes → (docs k).isSome ∧ docs' k = some d
  removed : ∀ k d, ⟨.removed, k, d⟩ ∈ changes → docs k = some d ∧ docs' k = none
  unchanged : ∀ k, (∀ c ∈ changes, c.key ≠ k) → docs' k = docs k

/-- A change of other data. -/
def Change.map {δ' : Type*} (f : δ → δ') (c : Change κ δ) : Change κ δ' := ⟨c.kind, c.key, f c.data⟩

/-- What is read of the data changes with it. -/
lemma IsDiff.map {δ' : Type*} {docs docs' : κ → Option δ} {changes : List (Change κ δ)}
    (h : IsDiff docs docs' changes) (f : δ → δ') :
    IsDiff (fun k => (docs k).map f) (fun k => (docs' k).map f) (changes.map (Change.map f)) := by
  have hmem : ∀ {kind k d'}, (⟨kind, k, d'⟩ : Change κ δ') ∈ changes.map (Change.map f) →
      ∃ d, ⟨kind, k, d⟩ ∈ changes ∧ f d = d' := by
    intro kind k d' hd'
    obtain ⟨⟨kind', k', d⟩, hd, heq⟩ := List.mem_map.mp hd'
    cases heq
    exact ⟨d, hd, rfl⟩
  constructor
  case nodup =>
    rw [List.map_map]
    exact h.nodup
  case added =>
    intro k d' hd'
    obtain ⟨d, hd, rfl⟩ := hmem hd'
    obtain ⟨hold, hnew⟩ := h.added k d hd
    exact ⟨by rw [hold]; rfl, by rw [hnew]; rfl⟩
  case modified =>
    intro k d' hd'
    obtain ⟨d, hd, rfl⟩ := hmem hd'
    obtain ⟨hold, hnew⟩ := h.modified k d hd
    exact ⟨by rwa [Option.isSome_map], by rw [hnew]; rfl⟩
  case removed =>
    intro k d' hd'
    obtain ⟨d, hd, rfl⟩ := hmem hd'
    obtain ⟨hold, hnew⟩ := h.removed k d hd
    exact ⟨by rw [hold]; rfl, by rw [hnew]; rfl⟩
  case unchanged =>
    intro k hk
    rw [h.unchanged k fun c hc => hk _ (List.mem_map.mpr ⟨c, hc, rfl⟩)]

/-- How the follower that ignores modifications updates the entry of a document. -/
def addRemove (parse : κ → δ → Option μ) (c : Change κ δ) (entry : Option μ) : Option μ :=
  match c.kind with
  | .added => (parse c.key c.data).or entry
  | .modified => entry
  | .removed => if (parse c.key c.data).isSome then none else entry

/-- A key has one change, or none. -/
lemma change_cases (changes : List (Change κ δ)) (k : κ) :
    (∃ kind d, (⟨kind, k, d⟩ : Change κ δ) ∈ changes) ∨ ∀ c ∈ changes, c.key ≠ k := by
  by_cases h : ∃ c ∈ changes, c.key = k
  · obtain ⟨⟨kind, k', d⟩, hc, rfl⟩ := h
    exact Or.inl ⟨kind, d, hc⟩
  · exact Or.inr fun c hc heq => h ⟨c, hc, heq⟩

/-- Two changes of one key in a list with at most one for each key are the same. -/
lemma change_unique {changes : List (Change κ δ)} (hnodup : (changes.map Change.key).Nodup)
    {c c' : Change κ δ} (hc : c ∈ changes) (hc' : c' ∈ changes) (hkey : c.key = c'.key) :
    c = c' :=
  List.inj_on_of_nodup_map hnodup hc hc' hkey

variable [DecidableEq κ]

/-- A document that was absent is added. -/
lemma IsDiff.single_added {docs : κ → Option δ} {k : κ} {d : δ} (h : docs k = none) :
    IsDiff docs (Function.update docs k (some d)) [⟨.added, k, d⟩] := by
  constructor
  case nodup => simp
  case added =>
    intro k' d' hmem
    obtain ⟨rfl, rfl⟩ := by simpa using hmem
    exact ⟨h, Function.update_self ..⟩
  case modified => intro k' d' hmem; simp at hmem
  case removed => intro k' d' hmem; simp at hmem
  case unchanged =>
    intro k' hne
    exact Function.update_of_ne (hne _ List.mem_cons_self).symm _ _

/-- A document that is present is modified. -/
lemma IsDiff.single_modified {docs : κ → Option δ} {k : κ} {d : δ} (h : (docs k).isSome) :
    IsDiff docs (Function.update docs k (some d)) [⟨.modified, k, d⟩] := by
  constructor
  case nodup => simp
  case added => intro k' d' hmem; simp at hmem
  case modified =>
    intro k' d' hmem
    obtain ⟨rfl, rfl⟩ := by simpa using hmem
    exact ⟨h, Function.update_self ..⟩
  case removed => intro k' d' hmem; simp at hmem
  case unchanged =>
    intro k' hne
    exact Function.update_of_ne (hne _ List.mem_cons_self).symm _ _

/-- The view after a list of changes, each of which updates the entry of its key by `act`. -/
def follow (act : Change κ δ → Option μ → Option μ) (view : κ → Option μ)
    (changes : List (Change κ δ)) : κ → Option μ :=
  changes.foldl (fun view c => Function.update view c.key (act c (view c.key))) view

@[simp] lemma follow_nil (act : Change κ δ → Option μ → Option μ) (view : κ → Option μ) :
    follow act view [] = view := rfl

lemma follow_cons (act : Change κ δ → Option μ → Option μ) (view : κ → Option μ)
    (c : Change κ δ) (changes : List (Change κ δ)) :
    follow act view (c :: changes) =
      follow act (Function.update view c.key (act c (view c.key))) changes := rfl

/-- The entry of a key without a change stays as it is. -/
lemma follow_of_ne {act : Change κ δ → Option μ → Option μ} {view : κ → Option μ}
    {changes : List (Change κ δ)} {k : κ} (h : ∀ c ∈ changes, c.key ≠ k) :
    follow act view changes k = view k := by
  induction changes generalizing view with
  | nil => rfl
  | cons c changes ih =>
    rw [follow_cons, ih fun c' hc' => h c' (List.mem_cons_of_mem c hc')]
    exact Function.update_of_ne (h c List.mem_cons_self).symm _ _

/-- The entry of a key with a change is updated by that change alone. -/
lemma follow_of_mem (act : Change κ δ → Option μ → Option μ) (view : κ → Option μ)
    {changes : List (Change κ δ)} {c : Change κ δ} (hnodup : (changes.map Change.key).Nodup)
    (hc : c ∈ changes) : follow act view changes c.key = act c (view c.key) := by
  induction changes generalizing view with
  | nil => simp at hc
  | cons c₀ changes ih =>
    rw [List.map_cons, List.nodup_cons] at hnodup
    rw [follow_cons]
    rcases List.mem_cons.mp hc with rfl | hc
    · rw [follow_of_ne fun c' hc' heq => hnodup.1 (List.mem_map.mpr ⟨c', hc', heq⟩),
        Function.update_self]
    · have hne : c.key ≠ c₀.key := fun heq =>
        hnodup.1 (List.mem_map.mpr ⟨c, hc, heq⟩)
      rw [ih _ hnodup.2 hc, Function.update_of_ne hne]

/-- **Mirroring a document**: if the entry of a key is what the parser makes of its document in
one snapshot, it is so in the next one iff no modification of the document changes what the
parser makes of it.

**Proof sketch.** By the one change of the key. An added document had no entry, so the entry
becomes its parse. The entry of a removed one is the parse of the data that the removal
carries, so it is dropped if there is one. A modification leaves the entry, which is the parse
of the old data. -/
theorem follow_mirrors_iff {parse : κ → δ → Option μ} {docs docs' : κ → Option δ}
    {view : κ → Option μ} {changes : List (Change κ δ)} {k : κ}
    (hdiff : IsDiff docs docs' changes) (hview : view k = (docs k).bind (parse k)) :
    follow (addRemove parse) view changes k = (docs' k).bind (parse k) ↔
      ∀ d d', docs k = some d → ⟨.modified, k, d'⟩ ∈ changes → parse k d' = parse k d := by
  rcases change_cases changes k with ⟨kind, d', hc⟩ | hnone
  · have hentry := follow_of_mem (addRemove parse) view hdiff.nodup hc
    have honly : ∀ d, (⟨.modified, k, d⟩ : Change κ δ) ∈ changes → kind = .modified ∧ d' = d := by
      intro d hd
      have heq := change_unique hdiff.nodup hc hd rfl
      exact ⟨congrArg Change.kind heq, congrArg Change.data heq⟩
    cases kind with
    | added =>
      obtain ⟨hdocs, hdocs'⟩ := hdiff.added k d' hc
      simp only [hentry, addRemove, hview, hdocs, hdocs', Option.bind_none, Option.bind_some,
        Option.or_none, true_iff]
      rintro d _ ⟨⟩
    | modified =>
      obtain ⟨hsome, hdocs'⟩ := hdiff.modified k d' hc
      obtain ⟨d, hd⟩ := Option.isSome_iff_exists.mp hsome
      simp only [hentry, addRemove, hview, hd, hdocs', Option.bind_some]
      constructor
      · rintro heq _ d₂ ⟨⟩ hd₂
        obtain ⟨-, rfl⟩ := honly d₂ hd₂
        exact heq.symm
      · exact fun h => (h d d' rfl hc).symm
    | removed =>
      obtain ⟨hdocs, hdocs'⟩ := hdiff.removed k d' hc
      have hleft : follow (addRemove parse) view changes k = none := by
        simp only [hentry, addRemove, hview, hdocs, Option.bind_some]
        cases parse k d' <;> simp
      simp only [hleft, hdocs', Option.bind_none, true_iff]
      intro d d₂ _ hd₂
      cases (honly d₂ hd₂).1
  · rw [follow_of_ne hnone, hdiff.unchanged k hnone, hview]
    simp only [true_iff]
    intro d d' _ hmem
    exact absurd rfl (hnone _ hmem)

/-- **What was added is held**: the follower never loses what the parser made of a document when
it was added, as long as the document is there. -/
theorem follow_holds_added {parse : κ → δ → Option μ} {asAdded : κ → Option δ}
    {view : κ → Option μ} {changes : List (Change κ δ)} {k : κ}
    (hnodup : (changes.map Change.key).Nodup)
    (hview : ∀ d m, asAdded k = some d → parse k d = some m → view k = some m) :
    ∀ d m, follow (addRemove fun _ d => some d) asAdded changes k = some d →
      parse k d = some m → follow (addRemove parse) view changes k = some m := by
  rcases change_cases changes k with ⟨kind, d', hc⟩ | hnone
  · have hadded := follow_of_mem (addRemove fun _ d => some d) asAdded hnodup hc
    have hentry := follow_of_mem (addRemove parse) view hnodup hc
    rw [hadded, hentry]
    cases kind with
    | added =>
      intro d m hd hm
      cases hd
      simp [addRemove, hm]
    | modified => exact hview
    | removed =>
      intro d m hd
      simp [addRemove] at hd
  · rw [follow_of_ne hnone, follow_of_ne hnone]
    exact hview

end ChangeFeed
