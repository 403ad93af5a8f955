import AntViewer.Firestore.LimboInvariant

set_option relaxedAutoImplicit false
set_option autoImplicit false

/-!
# Runs of the lookups of documents in limbo

Each function of the sync engine about documents in limbo is a sequence of the steps that keep the
invariant, and ends where lookups are active for as many of the waiting documents as allowed.

## Main definitions

* `LimboResolutions.Resting` — the invariant between two calls.
* `LimboResolutions.Event`, `LimboResolutions.next` — what can happen, and the code that runs then.
* `LimboResolutions.Resolves` — what is done for the documents in limbo.

## Main results

* `LimboResolutions.pump_spec` — the loop over the waiting documents.
* `LimboResolutions.resolves_run` — in every run, no assertion fails, no document in limbo is left
  without a lookup, and no lookup without a document in limbo as long as the queue works.
-/

namespace AntViewer.Firestore

open Runs RandomAccessQueue

namespace LimboResolutions

variable {κ : Type*} [LinearOrder κ] {s : LimboResolutions κ} {R : κ → Prop}

/-! ## The functions -/

/-- Documents only wait if as many as allowed are looked up. -/
def Busy (s : LimboResolutions κ) : Prop :=
  s.enqueuedLimboResolutions.elements ≠ [] →
    s.activeLimboTargetsByKey.keys.length = s.maxConcurrentLimboResolutions

/-- What the lookups leave alone: the references, the bound, and the targets of queries. -/
structure Frame (s s' : LimboResolutions κ) : Prop where
  refs : s'.limboDocumentRefs = s.limboDocumentRefs
  bound : s'.maxConcurrentLimboResolutions = s.maxConcurrentLimboResolutions
  queries : ∀ t, s'.listenTargets.lookup t = some .listen ↔ s.listenTargets.lookup t = some .listen

omit [LinearOrder κ] in
lemma Frame.refl (s : LimboResolutions κ) : Frame s s := ⟨rfl, rfl, fun _ => Iff.rfl⟩

omit [LinearOrder κ] in
lemma Frame.trans {s s' s'' : LimboResolutions κ} (h : Frame s s') (h' : Frame s' s'') :
    Frame s s'' :=
  ⟨h'.refs.trans h.refs, h'.bound.trans h.bound, fun t => (h'.queries t).trans (h.queries t)⟩

/-- Starting a lookup leaves the targets of queries alone. -/
lemma Sound.frame_startResolution (h : Sound s) (key : κ) : Frame s (s.startResolution key) := by
  refine ⟨rfl, rfl, fun t => ?_⟩
  show (emplace s.listenTargets s.nextId (.limboResolution key)).lookup t = _ ↔ _
  rw [lookup_emplace h.unused.2]
  split_ifs with ht
  · subst ht
    rw [AList.lookup_eq_none.mpr h.unused.2]
    simp
  · exact Iff.rfl

/-- The end of a lookup leaves the targets of queries alone. -/
lemma Sound.frame_endLookup (h : Sound s) {key : κ} {target : ℕ} (a : LimboAction κ)
    (htarget : s.activeLimboResolutionsByTarget.lookup target = some key) :
    Frame s (s.endLookup key target a) := by
  refine ⟨rfl, rfl, fun t => ?_⟩
  show (s.listenTargets.erase target).lookup t = _ ↔ _
  rw [lookup_erase_eq]
  split_ifs with ht
  · subst ht
    rw [(h.listening t key).mpr htarget]
    simp
  · exact Iff.rfl

/-- **The loop over the queue** starts lookups until no document waits or there are enough. -/
lemma pump_spec (i : ℕ) (h : Inv s R) (hi : s.enqueuedLimboResolutions.elements.length ≤ i) :
    ∃ s', pump i s = .ok s' ∧ Inv s' R ∧ Busy s' ∧ Frame s s' := by
  induction i generalizing s with
  | zero =>
    have hnil : s.enqueuedLimboResolutions.elements = [] :=
      List.length_eq_zero_iff.mp (Nat.le_zero.mp hi)
    exact ⟨s, rfl, h, fun hne => absurd hnil hne, Frame.refl s⟩
  | succ i ih =>
    unfold pump
    rw [h.stored.empty_eq, h.stored.front_eq]
    cases helements : s.enqueuedLimboResolutions.elements with
    | nil => exact ⟨s, rfl, h, fun hne => absurd helements hne, Frame.refl s⟩
    | cons key rest =>
      by_cases hroom : s.activeLimboTargetsByKey.keys.length < s.maxConcurrentLimboResolutions
      · have hfront : s.enqueuedLimboResolutions.elements.head? = some key := by
          rw [helements]
          rfl
        have hrest : (s.startResolution key).enqueuedLimboResolutions.elements.length ≤ i := by
          show s.enqueuedLimboResolutions.popFront.elements.length ≤ i
          rw [h.stored.elements_popFront, helements]
          rw [helements] at hi
          exact Nat.le_of_succ_le_succ hi
        obtain ⟨s', hs', hinv, hbusy, hframe⟩ := ih (h.startResolution hfront hroom) hrest
        refine ⟨s', ?_, hinv, hbusy, (h.frame_startResolution key).trans hframe⟩
        simp only [List.isEmpty_cons, Bool.not_false, hroom, decide_true, Bool.and_self, if_true]
        exact hs'
      · refine ⟨s, ?_, h, fun _ => le_antisymm h.bounded (not_lt.mp hroom), Frame.refl s⟩
        simp only [hroom, decide_false, Bool.and_false]
        rfl

/-- A queue has as many elements as entries at most. -/
lemma pumpEnqueuedLimboResolutions_spec (h : Inv s R) :
    ∃ s', s.pumpEnqueuedLimboResolutions = .ok s' ∧ Inv s' R ∧ Busy s' ∧ Frame s s' := by
  refine pump_spec _ h ?_
  rw [elements, List.length_map]
  exact List.length_filter_le _ _

/-- **A document comes into limbo**, maybe not for the first time. -/
lemma trackLimboChange_spec (h : Inv s R) (hbusy : Busy s) (key : κ) :
    ∃ s', s.trackLimboChange key = .ok s' ∧ Inv s' (fun k => R k ∨ k = key) ∧ Busy s' ∧
      Frame s s' := by
  unfold trackLimboChange
  by_cases hactive : key ∈ s.activeLimboTargetsByKey
  · rw [if_pos hactive]
    exact ⟨s, rfl, h.refer (Or.inl hactive), hbusy, Frame.refl s⟩
  · rw [if_neg hactive]
    have hadded := (pushBack_spec s.enqueuedLimboResolutions key).1
    cases hin : s.enqueuedLimboResolutions.contains key with
    | true =>
      have hsame : s.enqueuedLimboResolutions.pushBack key =
          (s.enqueuedLimboResolutions, false) := by
        obtain ⟨address, haddress⟩ := Option.isSome_iff_exists.mp hin
        simp only [RandomAccessQueue.pushBack, haddress]
      rw [hsame]
      exact ⟨s, rfl, h.refer (Or.inr hin), hbusy, Frame.refl s⟩
    | false =>
      rw [hin] at hadded
      obtain ⟨s', hs', hinv, hbusy', hframe⟩ :=
        pumpEnqueuedLimboResolutions_spec (h.enqueue hactive hin)
      refine ⟨s', ?_, hinv, hbusy', hframe.refs, hframe.bound, hframe.queries⟩
      simp only [hadded, Bool.not_false, if_true]
      exact hs'

/-- **The last view lets go of a document**, which is not looked up any more. -/
lemma removeLimboTarget_spec (h : Inv s R) (hbusy : Busy s) (key : κ) :
    ∃ s', s.removeLimboTarget key = .ok s' ∧ Inv s' (fun k => R k ∧ k ≠ key) ∧ Busy s' ∧
      Frame s s' := by
  have hdropped := h.dropEnqueued key
  unfold removeLimboTarget
  cases hactive : s.activeLimboTargetsByKey.lookup key with
  | none =>
    have hnone : (s.dropEnqueued key).activeLimboTargetsByKey.lookup key = none := hactive
    refine ⟨s.dropEnqueued key, by simp only [hnone]; rfl, hdropped.congr fun k => ?_, ?_,
      ⟨rfl, rfl, fun _ => Iff.rfl⟩⟩
    · refine and_congr_right fun _ => or_iff_left_of_imp ?_
      rintro hmem rfl
      exact AList.lookup_eq_none.mp hactive hmem
    · intro hne
      refine hbusy fun hnil => hne ?_
      have hsublist := (h.stored.remove_spec key).1
      rw [hnil] at hsublist
      exact List.sublist_nil.mp hsublist
  | some target =>
    have hsome : (s.dropEnqueued key).activeLimboTargetsByKey.lookup key = some target := hactive
    have htarget := hdropped.resolving key target hsome
    have hlistens : target ∈ (s.dropEnqueued key).listenTargets :=
      mem_alist_iff.mpr ⟨_, (hdropped.listening target key).mpr htarget⟩
    obtain ⟨s', hs', hinv, hbusy', hframe⟩ := pumpEnqueuedLimboResolutions_spec
      (hdropped.endLookup htarget (Or.inl rfl))
    have hframe' := (hdropped.frame_endLookup (.stopped key target) htarget).trans hframe
    refine ⟨s', ?_, hinv.congr fun k => ?_, hbusy', hframe'.refs, hframe'.bound,
      hframe'.queries⟩
    · simp only [hsome, stopListening, hlistens, decide_true, hardAssert_true]
      exact hs'
    · simp only [reduceCtorEq, or_false, and_assoc]
      exact and_congr_right fun _ => and_iff_right_of_imp Or.inl

/-- The invariant between two calls: exactly the referenced documents have to be looked up. -/
structure Resting (s : LimboResolutions κ) : Prop where
  inv : Inv s fun k => s.limboDocumentRefs.containsKey k = true
  busy : Busy s

/-- What a change of the documents in limbo does to the references. -/
def applyChange (target : ℕ) (refs : ReferenceSet κ) : LimboDocumentChange κ → ReferenceSet κ
  | .added key => refs.addReference key target
  | .removed key => refs.removeReference key target

/-- One change of the documents in limbo. -/
lemma updateTrackedLimboDocument_spec (h : Resting s) (target : ℕ)
    (change : LimboDocumentChange κ) :
    ∃ s', s.updateTrackedLimboDocument target change = .ok s' ∧ Resting s' ∧
      Frame { s with limboDocumentRefs := applyChange target s.limboDocumentRefs change } s' := by
  cases change with
  | added key =>
    obtain ⟨s', hs', hinv, hbusy, hframe⟩ := trackLimboChange_spec
      (h.inv.setRefs (s.limboDocumentRefs.addReference key target)) h.busy key
    refine ⟨s', hs', ⟨hinv.congr fun k => ?_, hbusy⟩, hframe⟩
    rw [hframe.refs]
    simp only [ReferenceSet.containsKey_iff, ReferenceSet.addReference, Finset.mem_insert,
      Prod.mk.injEq]
    constructor
    · rintro (⟨id, hid⟩ | rfl)
      · exact ⟨id, Or.inr hid⟩
      · exact ⟨target, Or.inl ⟨rfl, rfl⟩⟩
    · rintro ⟨id, ⟨rfl, -⟩ | hid⟩
      · exact Or.inr rfl
      · exact Or.inl ⟨id, hid⟩
  | removed key =>
    have hinv := h.inv.setRefs (s.limboDocumentRefs.removeReference key target)
    have hothers : ∀ k, k ≠ key →
        ((s.limboDocumentRefs.removeReference key target).containsKey k = true ↔
          s.limboDocumentRefs.containsKey k = true) := by
      intro k hk
      simp [ReferenceSet.removeReference, hk]
    show ∃ s', (if !(s.limboDocumentRefs.removeReference key target).containsKey key then
      removeLimboTarget _ key else return _) = .ok s' ∧ _
    cases hcontains : (s.limboDocumentRefs.removeReference key target).containsKey key with
    | true =>
      refine ⟨_, rfl, ⟨hinv.congr fun k => ?_, h.busy⟩, Frame.refl _⟩
      by_cases hk : k = key
      · subst hk
        refine iff_of_true ?_ hcontains
        obtain ⟨id, hid⟩ := ReferenceSet.containsKey_iff.mp hcontains
        exact ReferenceSet.containsKey_iff.mpr ⟨id, Finset.mem_of_mem_erase hid⟩
      · exact (hothers k hk).symm
    | false =>
      obtain ⟨s', hs', hinv', hbusy, hframe⟩ := removeLimboTarget_spec hinv h.busy key
      refine ⟨s', hs', ⟨hinv'.congr fun k => ?_, hbusy⟩, hframe⟩
      rw [hframe.refs]
      show _ ↔ (s.limboDocumentRefs.removeReference key target).containsKey k = true
      by_cases hk : k = key
      · subst hk
        simp [hcontains]
      · rw [hothers k hk]
        exact and_iff_left hk

/-- **The documents in limbo change** for a target. -/
lemma updateTrackedLimboDocuments_spec (h : Resting s) (changes : List (LimboDocumentChange κ))
    (target : ℕ) : ∃ s', s.updateTrackedLimboDocuments changes target = .ok s' ∧ Resting s' ∧
      Frame { s with
        limboDocumentRefs := changes.foldl (applyChange target) s.limboDocumentRefs } s' := by
  refine foldlM_history (P := fun pre s' => Resting s' ∧ Frame { s with
    limboDocumentRefs := pre.foldl (applyChange target) s.limboDocumentRefs } s')
    ⟨h, Frame.refl s⟩ ?_
  rintro pre change post s₁ - ⟨hrest, hframe⟩
  obtain ⟨s', hs', hrest', hframe'⟩ := updateTrackedLimboDocument_spec hrest target change
  refine ⟨s', hs', hrest', ?_, hframe'.bound.trans hframe.bound,
    fun t => (hframe'.queries t).trans (hframe.queries t)⟩
  rw [hframe'.refs, hframe.refs, List.foldl_append]
  rfl

/-- **A target goes**, and with it its references. -/
lemma removeAndCleanupTarget_spec (h : Resting s) (target : ℕ) :
    ∃ s', s.removeAndCleanupTarget target = .ok s' ∧ Resting s' ∧
      Frame { s with limboDocumentRefs := s.limboDocumentRefs.removeReferences target } s' := by
  let refs := s.limboDocumentRefs.removeReferences target
  obtain ⟨s', hs', hinv, hbusy, hframe⟩ := foldlM_history
    (f := fun s key => if !s.limboDocumentRefs.containsKey key then removeLimboTarget s key
      else return s)
    (l := inKeyOrder (s.limboDocumentRefs.referencedKeys target))
    (b := { s with limboDocumentRefs := refs })
    (P := fun pre s' => Inv s' (fun k => s.limboDocumentRefs.containsKey k = true ∧
      (k ∈ pre → refs.containsKey k = true)) ∧ Busy s' ∧
        Frame { s with limboDocumentRefs := refs } s')
    ⟨(h.inv.setRefs refs).congr fun k => by simp, h.busy, Frame.refl _⟩ (by
      rintro pre key post s₁ - ⟨hinv, hbusy, hframe⟩
      have hrefs : s₁.limboDocumentRefs = refs := hframe.refs
      rw [hrefs]
      cases hcontains : refs.containsKey key with
      | true =>
        refine ⟨s₁, rfl, hinv.congr fun k => and_congr_right fun _ => ?_, hbusy, hframe⟩
        rw [List.mem_append, List.mem_singleton]
        exact ⟨fun h hk => hk.elim h fun heq => heq ▸ hcontains, fun h hk => h (Or.inl hk)⟩
      | false =>
        obtain ⟨s', hs', hinv', hbusy', hframe'⟩ := removeLimboTarget_spec hinv hbusy key
        refine ⟨s', hs', hinv'.congr fun k => ?_, hbusy', hframe.trans hframe'⟩
        rw [and_assoc, List.mem_append, List.mem_singleton]
        refine and_congr_right fun _ => ?_
        constructor
        · rintro ⟨h, hne⟩ (hk | heq)
          · exact h hk
          · exact absurd heq hne
        · intro h
          refine ⟨fun hk => h (Or.inl hk), ?_⟩
          rintro rfl
          rw [h (Or.inr rfl)] at hcontains
          cases hcontains)
  refine ⟨s', hs', ⟨hinv.congr fun k => ?_, hbusy⟩, hframe⟩
  rw [hframe.refs]
  show _ ↔ refs.containsKey k = true
  simp only [ReferenceSet.containsKey_iff, mem_inKeyOrder, ReferenceSet.mem_referencedKeys]
  constructor
  · rintro ⟨⟨id, hid⟩, hkept⟩
    by_cases heq : id = target
    · exact hkept (heq ▸ hid)
    · exact ⟨id, Finset.mem_filter.mpr ⟨hid, heq⟩⟩
  · rintro ⟨id, hid⟩
    exact ⟨⟨id, (Finset.mem_filter.mp hid).1⟩, fun _ => ⟨id, hid⟩⟩

/-- **The server rejects a lookup.** -/
lemma handleRejectedLookup_spec (h : Resting s) {target : ℕ} {key : κ}
    (htarget : s.activeLimboResolutionsByTarget.lookup target = some key) :
    ∃ s', handleRejectedLookup { s with listenTargets := s.listenTargets.erase target } target key =
      .ok s' ∧ Resting s' ∧ Frame s s' := by
  obtain ⟨s', hs', hinv, hbusy, hframe⟩ := pumpEnqueuedLimboResolutions_spec
    (h.inv.endLookup htarget (Or.inr rfl))
  refine ⟨s', hs', ⟨hinv.congr fun k => ?_, hbusy⟩,
    (h.inv.frame_endLookup (.rejected key target) htarget).trans hframe⟩
  rw [hframe.refs]
  exact and_iff_left (Or.inr rfl)

/-! ## Runs -/

/-- What can happen: the targets of queries come and go, the documents in limbo for a target
change, and the server reports an error for a target. -/
inductive Event (κ : Type*)
  | listen (target : ℕ)
  | updateTrackedLimboDocuments (limboChanges : List (LimboDocumentChange κ)) (target : ℕ)
  | stopListening (target : ℕ)
  | processTargetError (target : ℕ)

/-- The code that runs then. -/
def next (s : LimboResolutions κ) : Event κ → Except String (LimboResolutions κ)
  | .listen target => return s.listen target .listen
  | .updateTrackedLimboDocuments limboChanges target =>
    s.updateTrackedLimboDocuments limboChanges target
  | .stopListening target => do
    let s ← s.stopListening target
    s.removeAndCleanupTarget target
  | .processTargetError target => s.processTargetError target

/-- The ids of targets of queries are even, and the client only stops to listen to targets of
queries that it listens to. -/
def Event.Fits (s : LimboResolutions κ) : Event κ → Prop
  | .listen target => target % 2 = 0
  | .updateTrackedLimboDocuments _ _ => True
  | .stopListening target => s.listenTargets.lookup target = some .listen
  | .processTargetError _ => True

/-- One event, which fits. -/
def Step (s : LimboResolutions κ) (e : Event κ) (s' : LimboResolutions κ) : Prop :=
  e.Fits s ∧ s.next e = .ok s'

/-- A target of queries is not one of a lookup. -/
lemma Sound.lookup_eq_none (h : Sound s) {target : ℕ}
    (htarget : s.listenTargets.lookup target = some .listen) :
    s.activeLimboResolutionsByTarget.lookup target = none := by
  rw [Option.eq_none_iff_forall_not_mem]
  intro k hk
  rw [(h.listening target k).mpr hk] at htarget
  cases htarget

/-- The client stops to listen to a target of queries. -/
lemma stopListening_spec (h : Resting s) {target : ℕ}
    (htarget : s.listenTargets.lookup target = some .listen) :
    ∃ s', s.next (.stopListening target) = .ok s' ∧ Resting s' ∧ Frame { s with
      limboDocumentRefs := s.limboDocumentRefs.removeReferences target
      listenTargets := s.listenTargets.erase target } s' := by
  have hrest : Resting { s with listenTargets := s.listenTargets.erase target } :=
    ⟨h.inv.forget (h.inv.lookup_eq_none htarget), h.busy⟩
  obtain ⟨s', hs', hrest', hframe⟩ := removeAndCleanupTarget_spec hrest target
  refine ⟨s', ?_, hrest', hframe⟩
  have hmem : target ∈ s.listenTargets := mem_alist_iff.mpr ⟨_, htarget⟩
  show (s.stopListening target >>= fun s => s.removeAndCleanupTarget target) = _
  simp only [stopListening, hmem, decide_true, hardAssert_true]
  exact hs'

/-- The server rejects a target of queries. -/
lemma processTargetError_query_spec (h : Resting s) {target : ℕ}
    (htarget : s.listenTargets.lookup target = some .listen) :
    ∃ s', s.processTargetError target = .ok s' ∧ Resting s' ∧ Frame { s with
      limboDocumentRefs := s.limboDocumentRefs.removeReferences target
      listenTargets := s.listenTargets.erase target } s' := by
  have hnone := h.inv.lookup_eq_none htarget
  have hrest : Resting { s with listenTargets := s.listenTargets.erase target } :=
    ⟨h.inv.forget hnone, h.busy⟩
  obtain ⟨s', hs', hrest', hframe⟩ := removeAndCleanupTarget_spec hrest target
  refine ⟨s', ?_, hrest', hframe⟩
  simp only [processTargetError, if_pos (mem_alist_iff.mpr ⟨_, htarget⟩), hnone]
  exact hs'

/-- The server rejects a lookup. -/
lemma processTargetError_limbo_spec (h : Resting s) {target : ℕ} {key : κ}
    (htarget : s.activeLimboResolutionsByTarget.lookup target = some key) :
    ∃ s', s.processTargetError target = .ok s' ∧ Resting s' ∧ Frame s s' := by
  have hmem : target ∈ s.listenTargets :=
    mem_alist_iff.mpr ⟨_, (h.inv.listening target key).mpr htarget⟩
  simp only [processTargetError, if_pos hmem, htarget]
  exact handleRejectedLookup_spec h htarget

/-- **One event** that fits can happen, and keeps the invariant. -/
lemma next_spec (h : Resting s) {e : Event κ} (he : e.Fits s) :
    ∃ s', s.next e = .ok s' ∧ Resting s' := by
  cases e with
  | listen target => exact ⟨_, rfl, ⟨h.inv.listen he, h.busy⟩⟩
  | updateTrackedLimboDocuments limboChanges target =>
    obtain ⟨s', hs', hrest, -⟩ := updateTrackedLimboDocuments_spec h limboChanges target
    exact ⟨s', hs', hrest⟩
  | stopListening target =>
    obtain ⟨s', hs', hrest, -⟩ := stopListening_spec h he
    exact ⟨s', hs', hrest⟩
  | processTargetError target =>
    cases hlookup : s.listenTargets.lookup target with
    | none =>
      refine ⟨s, ?_, h⟩
      show s.processTargetError target = .ok s
      rw [processTargetError, if_neg (AList.lookup_eq_none.mp hlookup)]
      rfl
    | some data =>
      cases data with
      | listen =>
        obtain ⟨s', hs', hrest, -⟩ := processTargetError_query_spec h hlookup
        exact ⟨s', hs', hrest⟩
      | limboResolution key =>
        obtain ⟨s', hs', hrest, -⟩ :=
          processTargetError_limbo_spec h ((h.inv.listening target key).mp hlookup)
        exact ⟨s', hs', hrest⟩

/-- As long as the queue works: the history is orderly; the remote store listens to no more lookups
than allowed; a document waits or is looked up exactly if its history says so, the remote store
listens to a target for every lookup and to none for anything else that is in limbo, and what waits
or is looked up is in limbo. -/
structure Exact (s : LimboResolutions κ) : Prop where
  orderly : Orderly s.log
  bounded : ∀ targets : Finset ℕ,
    (∀ t ∈ targets, ∃ k, s.listenTargets.lookup t = some (.limboResolution k)) →
      targets.card ≤ s.maxConcurrentLimboResolutions
  waiting : ∀ k, phaseOf s.log k = .waiting ↔ k ∈ s.enqueuedLimboResolutions.elements
  active : ∀ k t, phaseOf s.log k = .active t ↔
    s.listenTargets.lookup t = some (.limboResolution k)
  inLimbo : ∀ k, phaseOf s.log k = .waiting ∨ (∃ t, phaseOf s.log k = .active t) →
    s.limboDocumentRefs.containsKey k = true
  attended : ∀ k, s.limboDocumentRefs.containsKey k = true → phaseOf s.log k = .waiting ∨
    (∃ t, phaseOf s.log k = .active t) ∨ phaseOf s.log k = .rejected

/-- What is done for the documents in limbo: every event that fits can happen; no more documents are
recorded as looked up than allowed, others only wait if as many as allowed are, and lookups are
started in the order in which the documents came into limbo; every document in limbo is looked up,
waits, or was rejected; and the lookups are exactly these as long as the queue works. -/
structure Resolves (s : LimboResolutions κ) : Prop where
  total : ∀ e : Event κ, e.Fits s → ∃ s', s.next e = .ok s'
  bounded : s.activeLimboTargetsByKey.keys.length ≤ s.maxConcurrentLimboResolutions
  busy : s.enqueuedLimboResolutions.elements ≠ [] →
    s.activeLimboTargetsByKey.keys.length = s.maxConcurrentLimboResolutions
  inOrder : (s.log.filterMap LimboAction.startedKey ++
    s.enqueuedLimboResolutions.elements).Sublist (s.log.filterMap LimboAction.enqueuedKey)
  attended : ∀ k, s.limboDocumentRefs.containsKey k = true →
    (∃ t, s.listenTargets.lookup t = some (.limboResolution k)) ∨
      k ∈ s.enqueuedLimboResolutions.elements ∨ ∃ t, LimboAction.rejected k t ∈ s.log
  exact : AddsFresh (queueOps s.log) → Exact s

/-- If every lookup is recorded under its document, there are no more than documents recorded. -/
lemma Tracks.card_le {R : κ → Prop} (h : Tracks s R) {targets : Finset ℕ}
    (htargets : ∀ t ∈ targets, ∃ k, s.activeLimboResolutionsByTarget.lookup t = some k) :
    targets.card ≤ s.activeLimboTargetsByKey.keys.length := by
  have hsub : targets ⊆
      (s.activeLimboTargetsByKey.keys.filterMap s.activeLimboTargetsByKey.lookup).toFinset := by
    intro t ht
    obtain ⟨k, hk⟩ := htargets t ht
    have hrecorded := h.inverse t k hk
    exact List.mem_toFinset.mpr (List.mem_filterMap.mpr
      ⟨k, AList.mem_keys.mpr (mem_alist_iff.mpr ⟨t, hrecorded⟩), hrecorded⟩)
  exact (Finset.card_le_card hsub).trans
    ((List.toFinset_card_le _).trans (List.length_filterMap_le _ _))

/-- What is tracked is exact. -/
lemma Inv.exact (h : Inv s fun k => s.limboDocumentRefs.containsKey k = true)
    (hfresh : AddsFresh (queueOps s.log)) : Exact s := by
  have ht := h.tracks hfresh
  refine ⟨ht.orderly, fun targets htargets => ?_, ht.waiting, fun k t => ?_, fun k hk => ?_,
    fun k hk => ?_⟩
  · refine (ht.card_le fun t hmem => ?_).trans h.bounded
    obtain ⟨k, hk⟩ := htargets t hmem
    exact ⟨k, (h.listening t k).mp hk⟩
  · rw [ht.active, h.listening]
    exact ⟨h.resolving k t, ht.inverse t k⟩
  · refine ht.needed k (hk.imp (ht.waiting k).mp ?_)
    rintro ⟨t, hphase⟩
    exact mem_alist_iff.mpr ⟨t, (ht.active k t).mp hphase⟩
  · have hidle := ht.attended k hk
    cases hphase : phaseOf s.log k with
    | idle => exact absurd hphase hidle
    | waiting => exact Or.inl rfl
    | active t => exact Or.inr (Or.inl ⟨t, rfl⟩)
    | rejected => exact Or.inr (Or.inr rfl)

/-- What the invariant says about the documents in limbo. -/
lemma Resting.resolves (h : Resting s) : Resolves s where
  total e he := by
    obtain ⟨s', hs', -⟩ := next_spec h he
    exact ⟨s', hs'⟩
  bounded := h.inv.bounded
  busy := h.busy
  inOrder := h.inv.inOrder
  attended k hk := by
    refine (h.inv.attended k hk).imp_left fun hmem => ?_
    obtain ⟨t, ht⟩ := mem_alist_iff.mp hmem
    exact ⟨t, (h.inv.listening t k).mpr (h.inv.resolving k t ht)⟩
  exact := h.inv.exact

/-- At the beginning, no document is in limbo. -/
lemma resting_start (maxConcurrentLimboResolutions : ℕ) :
    Resting (start κ maxConcurrentLimboResolutions) := by
  refine ⟨⟨⟨rfl, fun k t h => (by cases h), fun t k h => (by cases h), rfl,
    fun t k => ⟨fun h => (by cases h), fun h => (by cases h)⟩, fun t h => (by cases h),
    Nat.zero_le _, List.Sublist.refl _⟩, fun k hk => ?_, fun _ => ⟨?_, fun t k h => (by cases h),
    fun k => ⟨fun h => (by cases h), fun h => (by cases h)⟩,
    fun k t => ⟨fun h => (by cases h), fun h => (by cases h)⟩, fun k hk => ?_, fun k hk => ?_⟩⟩,
    fun h => absurd rfl h⟩
  · obtain ⟨id, hid⟩ := ReferenceSet.containsKey_iff.mp hk
    cases hid
  · intro pre a post h
    simp [start] at h
  · rcases hk with hk | hk <;> cases hk
  · obtain ⟨id, hid⟩ := ReferenceSet.containsKey_iff.mp hk
    cases hid

/-- **Documents in limbo are looked up** in every run, however targets come and go, documents enter
and leave limbo and the server reports errors: no assertion fails, then or in any event that can
come next; no more documents are recorded as looked up than allowed, and others only wait for
these, in their order; no document in limbo is left out, unless its lookup was rejected. As long as
no document comes into limbo again while its removed entry is in the queue, no more lookups are
active than allowed, every lookup was started once for a document that waited, and ended once, when
the document left limbo or the server rejected it.

**Proof sketch.** Between two calls the invariant holds for the referenced documents. Within a
call it holds for the documents that have to be looked up at the moment, and each step changes
these by one document at most. -/
theorem resolves_run (maxConcurrentLimboResolutions : ℕ)
    (tr : List (Event κ × LimboResolutions κ))
    (hrun : Along Step (start κ maxConcurrentLimboResolutions) tr) :
    Along (fun _ _ s => Resolves s) (start κ maxConcurrentLimboResolutions) tr := by
  have hinv := hrun.invariant (resting_start maxConcurrentLimboResolutions) (by
    rintro s e s' hs ⟨hfits, hnext⟩
    obtain ⟨s'', hs'', hrest⟩ := next_spec hs hfits
    rw [hnext] at hs''
    cases hs''
    exact hrest)
  exact hinv.mono fun s e s' h => h.2.2.resolves

/-- Two documents come into limbo, and one may be looked up at a time. -/
theorem resolves_run_two : ∃ s : LimboResolutions ℕ,
    (start ℕ 1).next (.updateTrackedLimboDocuments [.added 4, .added 5] 2) = .ok s ∧
      Resolves s := by
  have hfits : (Event.updateTrackedLimboDocuments [.added 4, .added 5] 2).Fits (start ℕ 1) :=
    trivial
  obtain ⟨s, hs, -⟩ := next_spec (resting_start 1) hfits
  exact ⟨s, hs, (resolves_run 1 [(_, s)] ⟨⟨hfits, hs⟩, trivial⟩).1⟩

/-- A document comes into limbo again while its removed entry waits behind another one: in the end
no document is in limbo, and the third one is still looked up. -/
example :
    ∃ s : LimboResolutions ℕ, [.updateTrackedLimboDocuments [.added 1, .added 2, .added 3] 2,
        .updateTrackedLimboDocuments [.removed 3] 2, .updateTrackedLimboDocuments [.added 3] 2,
        .updateTrackedLimboDocuments [.removed 1] 2,
        .updateTrackedLimboDocuments [.removed 3, .removed 2] 2].foldlM next (start ℕ 1) = .ok s ∧
      s.limboDocumentRefs = ∅ ∧ s.listenTargets.lookup 5 = some (.limboResolution 3) :=
  ⟨_, rfl, by decide⟩

end LimboResolutions

end AntViewer.Firestore
