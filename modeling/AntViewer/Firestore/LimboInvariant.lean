import AntViewer.Firestore.LimboResolutions

set_option relaxedAutoImplicit false
set_option autoImplicit false

/-!
# What holds of the lookups of documents in limbo

The sync engine changes what it keeps of the lookups in small steps: a document is enqueued, its
lookup is started, it is dropped from the queue, its lookup ends. Between the steps of one call the
references are ahead of the lookups, so the invariant takes the documents that have to be looked up
as a parameter, and each step says how it changes them.

## Main definitions

* `LimboResolutions.Sound` — what holds in any case.
* `LimboResolutions.Tracks` — what holds as long as the queue works.
* `LimboResolutions.Inv` — the invariant, for the documents that have to be looked up.

## Main results

* `LimboResolutions.Inv.enqueue`, `LimboResolutions.Inv.startResolution`,
  `LimboResolutions.Inv.dropEnqueued`, `LimboResolutions.Inv.endLookup` — the steps.
-/

namespace AntViewer.Firestore

open Runs RandomAccessQueue

/-! ## Maps -/

section Maps

variable {α β : Type*} [DecidableEq α]

/-- What a map has for the keys after a new one is added. -/
lemma lookup_emplace {m : AList fun _ : α => β} {a : α} (ha : a ∉ m) (b : β) (x : α) :
    (emplace m a b).lookup x = if x = a then some b else m.lookup x := by
  rw [emplace, if_neg ha]
  split_ifs with hx
  · subst hx
    exact AList.lookup_insert m
  · exact AList.lookup_insert_ne hx

/-- What a map has for the keys after one is erased. -/
lemma lookup_erase_eq (m : AList fun _ : α => β) (a x : α) :
    (m.erase a).lookup x = if x = a then none else m.lookup x := by
  split_ifs with hx
  · subst hx
    exact AList.lookup_erase x m
  · exact AList.lookup_erase_ne hx

/-- A map has something for its keys. -/
lemma mem_alist_iff {γ : α → Type*} {m : AList γ} {a : α} : a ∈ m ↔ ∃ b, m.lookup a = some b := by
  rw [← AList.lookup_isSome, Option.isSome_iff_exists]

/-- Adding a key makes a map larger by one at most. -/
lemma length_keys_emplace_le (m : AList fun _ : α => β) (a : α) (b : β) :
    (emplace m a b).keys.length ≤ m.keys.length + 1 := by
  unfold emplace
  split_ifs with ha
  · exact Nat.le_succ _
  · rw [AList.keys_insert, List.length_cons, List.erase_of_not_mem ha]

/-- Erasing a key does not make a map larger. -/
lemma length_keys_erase_le (m : AList fun _ : α => β) (a : α) :
    (m.erase a).keys.length ≤ m.keys.length := by
  rw [AList.keys_erase]
  exact List.length_erase_le

end Maps

namespace LimboResolutions

variable {κ : Type*} [LinearOrder κ]

/-! ## What holds of the lookups -/

/-- What holds of the lookups in any case: an active lookup has its target, ids are not used twice
and are those of the sync engine, the remote store listens to the lookups, there are not too many,
and documents are looked up in the order in which they came into limbo. -/
structure Sound (s : LimboResolutions κ) : Prop where
  recorded : s.enqueuedLimboResolutions = (queueOps s.log).foldl exec (create κ)
  resolving : ∀ k t, s.activeLimboTargetsByKey.lookup k = some t →
    s.activeLimboResolutionsByTarget.lookup t = some k
  generated : ∀ t k, s.activeLimboResolutionsByTarget.lookup t = some k →
    t % 2 = 1 ∧ t < s.nextId
  odd : s.nextId % 2 = 1
  listening : ∀ t k, s.listenTargets.lookup t = some (.limboResolution k) ↔
    s.activeLimboResolutionsByTarget.lookup t = some k
  queries : ∀ t, s.listenTargets.lookup t = some .listen → t % 2 = 0
  bounded : s.activeLimboTargetsByKey.keys.length ≤ s.maxConcurrentLimboResolutions
  inOrder : (s.log.filterMap LimboAction.startedKey ++
    s.enqueuedLimboResolutions.elements).Sublist (s.log.filterMap LimboAction.enqueuedKey)

/-- The history of the lookups is orderly and says what is looked up and what waits: only
documents that have to be, and all of these that are not rejected. -/
structure Tracks (s : LimboResolutions κ) (referenced : κ → Prop) : Prop where
  orderly : Orderly s.log
  inverse : ∀ t k, s.activeLimboResolutionsByTarget.lookup t = some k →
    s.activeLimboTargetsByKey.lookup k = some t
  waiting : ∀ k, phaseOf s.log k = .waiting ↔ k ∈ s.enqueuedLimboResolutions.elements
  active : ∀ k t, phaseOf s.log k = .active t ↔ s.activeLimboTargetsByKey.lookup k = some t
  needed : ∀ k, k ∈ s.enqueuedLimboResolutions.elements ∨ k ∈ s.activeLimboTargetsByKey →
    referenced k
  attended : ∀ k, referenced k → phaseOf s.log k ≠ .idle

/-- The invariant of the lookups: no document that has to be looked up is left out, and if the
queue works, nothing else is looked up. -/
structure Inv (s : LimboResolutions κ) (referenced : κ → Prop) : Prop extends Sound s where
  attended : ∀ k, referenced k → k ∈ s.activeLimboTargetsByKey ∨
    k ∈ s.enqueuedLimboResolutions.elements ∨ ∃ t, LimboAction.rejected k t ∈ s.log
  tracks : AddsFresh (queueOps s.log) → Tracks s referenced

variable {s : LimboResolutions κ} {R : κ → Prop}

/-- The queue of the lookups is one that operations led to. -/
lemma Sound.stored (h : Sound s) : s.enqueuedLimboResolutions.Stored := by
  rw [h.recorded]
  exact stored_run _

/-- If the queue works, it is tidy. -/
lemma Sound.tidy (h : Sound s) (hfresh : AddsFresh (queueOps s.log)) :
    s.enqueuedLimboResolutions.Tidy := by
  rw [h.recorded]
  exact (tidy_run hfresh).1

/-- The next id is not in use. -/
lemma Sound.unused (h : Sound s) :
    s.nextId ∉ s.activeLimboResolutionsByTarget ∧ s.nextId ∉ s.listenTargets := by
  have hactive : s.nextId ∉ s.activeLimboResolutionsByTarget := by
    intro hmem
    obtain ⟨k, hk⟩ := mem_alist_iff.mp hmem
    exact absurd (h.generated _ k hk).2 (lt_irrefl _)
  refine ⟨hactive, fun hmem => ?_⟩
  obtain ⟨data, hdata⟩ := mem_alist_iff.mp hmem
  cases data with
  | listen =>
    have heven := h.queries _ hdata
    have hodd := h.odd
    omega
  | limboResolution k =>
    exact hactive (mem_alist_iff.mpr ⟨k, (h.listening _ k).mp hdata⟩)

/-- A document that waits is not looked up. -/
lemma Tracks.apart (h : Tracks s R) {k : κ}
    (hk : k ∈ s.enqueuedLimboResolutions.elements) : s.activeLimboTargetsByKey.lookup k = none := by
  rw [Option.eq_none_iff_forall_not_mem]
  intro t ht
  have hactive := (h.active k t).mpr ht
  rw [(h.waiting k).mpr hk] at hactive
  cases hactive

/-- The invariant depends on which documents are referenced only. -/
lemma Inv.congr {R' : κ → Prop} (h : Inv s R) (hR : ∀ k, R k ↔ R' k) : Inv s R' := by
  obtain rfl : R = R' := funext fun k => propext (hR k)
  exact h

/-! ### The steps -/

/-- A document that is looked up or waits already may be referenced once more. -/
lemma Inv.refer (h : Inv s R) {key : κ} (hkey : key ∈ s.activeLimboTargetsByKey ∨
    s.enqueuedLimboResolutions.contains key = true) : Inv s fun k => R k ∨ k = key := by
  have hmem : key ∈ s.activeLimboTargetsByKey ∨ key ∈ s.enqueuedLimboResolutions.elements :=
    hkey.imp_right h.stored.mem_of_contains
  refine ⟨h.toSound, fun k hk => ?_, fun hfresh => ?_⟩
  · rcases hk with hk | rfl
    · exact h.attended k hk
    · exact hmem.imp_right Or.inl
  · have ht := h.tracks hfresh
    refine ⟨ht.orderly, ht.inverse, ht.waiting, ht.active, fun k hk => Or.inl (ht.needed k hk),
      fun k hk => ?_⟩
    rcases hk with hk | rfl
    · exact ht.attended k hk
    · rcases hmem with hmem | hmem
      · obtain ⟨t, hactive⟩ := mem_alist_iff.mp hmem
        rw [(ht.active k t).mpr hactive]
        simp
      · rw [(ht.waiting k).mpr hmem]
        simp

/-- **A document comes into limbo** and waits. -/
lemma Inv.enqueue (h : Inv s R) {key : κ} (hactive : key ∉ s.activeLimboTargetsByKey)
    (hout : s.enqueuedLimboResolutions.contains key = false) :
    Inv { s with
      enqueuedLimboResolutions := (s.enqueuedLimboResolutions.pushBack key).1
      log := s.log ++ [.enqueued key] } fun k => R k ∨ k = key := by
  have helements : (s.enqueuedLimboResolutions.pushBack key).1.elements =
      s.enqueuedLimboResolutions.elements ++ [key] := by
    rw [(pushBack_spec _ key).2, hout]
    rfl
  refine ⟨⟨?_, h.resolving, h.generated, h.odd, h.listening, h.queries, h.bounded, ?_⟩,
    fun k hk => ?_, fun hfresh => ?_⟩
  · rw [queueOps_concat, List.foldl_append, ← h.recorded]
    rfl
  · rw [helements, filterMap_concat, filterMap_concat]
    simpa [LimboAction.startedKey, LimboAction.enqueuedKey] using
      h.inOrder.append (List.Sublist.refl [key])
  · rw [helements]
    rcases hk with hk | rfl
    · rcases h.attended k hk with hk | hk | ⟨t, hk⟩
      · exact Or.inl hk
      · exact Or.inr (Or.inl (List.mem_append_left _ hk))
      · exact Or.inr (Or.inr ⟨t, List.mem_append_left _ hk⟩)
    · exact Or.inr (Or.inl (List.mem_append_right _ List.mem_cons_self))
  · have ht := h.tracks (addsFresh_of_concat hfresh)
    have hwaiting : key ∉ s.enqueuedLimboResolutions.elements := by
      intro hmem
      rw [(h.tidy (addsFresh_of_concat hfresh)).contains_iff.mpr hmem] at hout
      cases hout
    have hnone : s.activeLimboTargetsByKey.lookup key = none := AList.lookup_eq_none.mpr hactive
    refine ⟨ht.orderly.concat ?_, ht.inverse, fun k => ?_, fun k t => ?_, fun k hk => ?_,
      fun k hk => ?_⟩
    · show phaseOf s.log key = .idle ∨ phaseOf s.log key = .rejected
      cases hphase : phaseOf s.log key with
      | idle => exact Or.inl rfl
      | rejected => exact Or.inr rfl
      | waiting => exact absurd ((ht.waiting key).mp hphase) hwaiting
      | active t =>
        have hlookup := (ht.active key t).mp hphase
        rw [hnone] at hlookup
        cases hlookup
    · rw [phaseOf_concat, helements]
      by_cases hk : key = k
      · subst hk
        simp [LimboAction.key, LimboAction.phase]
      · have hne : k ≠ key := fun h => hk h.symm
        simp [LimboAction.key, hk, hne, ht.waiting k]
    · rw [phaseOf_concat]
      by_cases hk : key = k
      · subst hk
        simp [LimboAction.key, LimboAction.phase, hnone]
      · simp [LimboAction.key, hk, ht.active k t]
    · rw [helements, List.mem_append, List.mem_singleton] at hk
      rcases hk with (hk | hk) | hk
      · exact Or.inl (ht.needed k (Or.inl hk))
      · exact Or.inr hk
      · exact Or.inl (ht.needed k (Or.inr hk))
    · rw [phaseOf_concat]
      by_cases hkey : key = k
      · simp [LimboAction.key, LimboAction.phase, hkey]
      · have hR : R k := hk.resolve_right fun h => hkey h.symm
        simpa [LimboAction.key, hkey] using ht.attended k hR

/-- **The lookup of the document in front is started**. -/
lemma Inv.startResolution (h : Inv s R) {key : κ}
    (hfront : s.enqueuedLimboResolutions.elements.head? = some key)
    (hroom : s.activeLimboTargetsByKey.keys.length < s.maxConcurrentLimboResolutions) :
    Inv (s.startResolution key) R := by
  obtain ⟨hactive, hlisten⟩ := h.unused
  have hodd := h.odd
  obtain ⟨rest, helements⟩ : ∃ rest, s.enqueuedLimboResolutions.elements = key :: rest :=
    ⟨_, List.eq_cons_of_mem_head? hfront⟩
  have hpopped : s.enqueuedLimboResolutions.popFront.elements = rest := by
    rw [h.stored.elements_popFront, helements]
    rfl
  have hbyTarget : ∀ t, (s.startResolution key).activeLimboResolutionsByTarget.lookup t =
      if t = s.nextId then some key else s.activeLimboResolutionsByTarget.lookup t :=
    fun t => lookup_emplace hactive key t
  have hlistens : ∀ t, (s.startResolution key).listenTargets.lookup t =
      if t = s.nextId then some (.limboResolution key) else s.listenTargets.lookup t :=
    fun t => lookup_emplace hlisten _ t
  have hkept : ∀ k t, s.activeLimboTargetsByKey.lookup k = some t → t ≠ s.nextId := by
    rintro k t hk rfl
    exact hactive (mem_alist_iff.mpr ⟨k, h.resolving k _ hk⟩)
  have hmem : ∀ k, k ∈ (s.startResolution key).activeLimboTargetsByKey ↔
      k = key ∨ k ∈ s.activeLimboTargetsByKey := by
    intro k
    show k ∈ emplace s.activeLimboTargetsByKey key s.nextId ↔ _
    unfold emplace
    split_ifs with hkey
    · exact ⟨Or.inr, fun hk => hk.elim (fun heq => heq ▸ hkey) id⟩
    · rw [AList.mem_insert]
  refine ⟨⟨?_, fun k t hk => ?_, fun t k hk => ?_, ?_, fun t k => ?_, fun t ht => ?_, ?_, ?_⟩,
    fun k hk => ?_, fun hfresh => ?_⟩
  · show s.enqueuedLimboResolutions.popFront =
      (queueOps (s.log ++ [.started key s.nextId])).foldl _ _
    rw [queueOps_concat, List.foldl_append, ← h.recorded]
    rfl
  · have hcases : s.activeLimboTargetsByKey.lookup k = some t ∨ k = key ∧ t = s.nextId := by
      by_cases hkey : key ∈ s.activeLimboTargetsByKey
      · left
        have hsame : emplace s.activeLimboTargetsByKey key s.nextId = s.activeLimboTargetsByKey :=
          if_pos hkey
        rw [← hsame]
        exact hk
      · have heq := (lookup_emplace hkey s.nextId k).symm.trans hk
        split_ifs at heq with hkk
        · exact Or.inr ⟨hkk, (Option.some.inj heq).symm⟩
        · exact Or.inl heq
    rw [hbyTarget]
    rcases hcases with hk | ⟨rfl, rfl⟩
    · rw [if_neg (hkept k t hk)]
      exact h.resolving k t hk
    · rw [if_pos rfl]
  · show t % 2 = 1 ∧ t < s.nextId + 2
    rw [hbyTarget] at hk
    split_ifs at hk with ht
    · omega
    · obtain ⟨hparity, hlt⟩ := h.generated t k hk
      omega
  · show (s.nextId + 2) % 2 = 1
    omega
  · rw [hlistens, hbyTarget]
    split_ifs
    · rw [Option.some.injEq, Option.some.injEq, TargetData.limboResolution.injEq]
    · exact h.listening t k
  · rw [hlistens] at ht
    split_ifs at ht
    · cases ht
    · exact h.queries t ht
  · exact (length_keys_emplace_le _ _ _).trans hroom
  · show ((s.log ++ [LimboAction.started key s.nextId]).filterMap LimboAction.startedKey ++
      s.enqueuedLimboResolutions.popFront.elements).Sublist
        ((s.log ++ [LimboAction.started key s.nextId]).filterMap LimboAction.enqueuedKey)
    have hinOrder := h.inOrder
    rw [helements] at hinOrder
    rw [hpopped, filterMap_concat, filterMap_concat]
    simpa [LimboAction.startedKey, LimboAction.enqueuedKey] using hinOrder
  · rw [hmem]
    show _ ∨ k ∈ s.enqueuedLimboResolutions.popFront.elements ∨
      ∃ t, LimboAction.rejected k t ∈ s.log ++ [LimboAction.started key s.nextId]
    rw [hpopped]
    rcases h.attended k hk with hk | hk | ⟨t, hk⟩
    · exact Or.inl (Or.inr hk)
    · rw [helements, List.mem_cons] at hk
      exact hk.elim (fun heq => Or.inl (Or.inl heq)) fun hk => Or.inr (Or.inl hk)
    · exact Or.inr (Or.inr ⟨t, List.mem_append_left _ hk⟩)
  · have hfresh' : AddsFresh (queueOps s.log) := addsFresh_of_concat hfresh
    have ht := h.tracks hfresh'
    have hnodup := (h.tidy hfresh').nodup_elements
    rw [helements, List.nodup_cons] at hnodup
    have hwaits : key ∈ s.enqueuedLimboResolutions.elements := by
      rw [helements]
      exact List.mem_cons_self
    have hnone := ht.apart hwaits
    have hbyKey : ∀ k, (s.startResolution key).activeLimboTargetsByKey.lookup k =
        if k = key then some s.nextId else s.activeLimboTargetsByKey.lookup k :=
      fun k => lookup_emplace (AList.lookup_eq_none.mp hnone) s.nextId k
    have hphase : ∀ k, phaseOf (s.startResolution key).log k =
        if key = k then .active s.nextId else phaseOf s.log k := fun k => phaseOf_concat _ _ k
    refine ⟨ht.orderly.concat ((ht.waiting key).mpr hwaits), fun t k hk => ?_, fun k => ?_,
      fun k t => ?_, fun k hk => ?_, fun k hk => ?_⟩
    · rw [hbyTarget] at hk
      rw [hbyKey]
      split_ifs at hk with htarget
      · cases hk
        rw [if_pos rfl, htarget]
      · have hlookup := ht.inverse t k hk
        rw [if_neg, hlookup]
        rintro rfl
        rw [hnone] at hlookup
        cases hlookup
    · rw [hphase]
      show _ ↔ k ∈ s.enqueuedLimboResolutions.popFront.elements
      rw [hpopped]
      by_cases hk : key = k
      · subst hk
        simp [hnodup.1]
      · have hne : k ≠ key := fun h => hk h.symm
        rw [if_neg hk, ht.waiting, helements, List.mem_cons, or_iff_right hne]
    · rw [hphase, hbyKey]
      by_cases hk : key = k
      · subst hk
        simp
      · rw [if_neg hk, if_neg fun h => hk h.symm, ht.active]
    · rw [hmem] at hk
      apply ht.needed
      rw [helements, List.mem_cons]
      rcases hk with hk | hk | hk
      · refine Or.inl (Or.inr ?_)
        rw [← hpopped]
        exact hk
      · exact Or.inl (Or.inl hk)
      · exact Or.inr hk
    · rw [hphase]
      split_ifs
      · simp
      · exact ht.attended k hk

/-- **A document that is not referenced any more does not wait** any more. -/
lemma Inv.dropEnqueued (h : Inv s R) (key : κ) :
    Inv (s.dropEnqueued key) fun k => R k ∧ (k ≠ key ∨ k ∈ s.activeLimboTargetsByKey) := by
  obtain ⟨hsublist, hothers⟩ := h.stored.remove_spec key
  have hfound := remove_snd s.enqueuedLimboResolutions key
  have hlog : (s.dropEnqueued key).log =
      if s.enqueuedLimboResolutions.contains key = true then s.log ++ [.dropped key]
      else s.log := by
    rw [← hfound]
    rfl
  have hsame : s.enqueuedLimboResolutions.contains key = false →
      (s.enqueuedLimboResolutions.remove key).1 = s.enqueuedLimboResolutions := by
    intro hout
    rw [contains, Option.isSome_eq_false_iff, Option.isNone_iff_eq_none] at hout
    simp only [RandomAccessQueue.remove, hout]
  have hrecorded : (s.enqueuedLimboResolutions.remove key).1 =
      (queueOps (s.dropEnqueued key).log).foldl exec (create κ) := by
    rw [hlog]
    split_ifs with hin
    · rw [queueOps_concat, List.foldl_append, ← h.recorded]
      rfl
    · rw [hsame (by simpa using hin)]
      exact h.recorded
  refine ⟨⟨hrecorded, h.resolving, h.generated, h.odd, h.listening, h.queries, h.bounded, ?_⟩,
    fun k hk => ?_, fun hfresh => ?_⟩
  · rw [hlog]
    have hfewer := (List.Sublist.append (List.Sublist.refl _) hsublist).trans h.inOrder
    split_ifs with hin
    · show (_ ++ (s.enqueuedLimboResolutions.remove key).1.elements).Sublist _
      rw [filterMap_concat, filterMap_concat]
      simpa [LimboAction.startedKey, LimboAction.enqueuedKey] using hfewer
    · exact hfewer
  · obtain ⟨hR, hkey⟩ := hk
    rcases hkey with hne | hactive
    · rcases h.attended k hR with hk | hk | ⟨t, hk⟩
      · exact Or.inl hk
      · exact Or.inr (Or.inl (hothers k hk hne))
      · refine Or.inr (Or.inr ⟨t, ?_⟩)
        rw [hlog]
        split_ifs
        · exact List.mem_append_left _ hk
        · exact hk
    · exact Or.inl hactive
  · cases hin : s.enqueuedLimboResolutions.contains key with
    | false =>
      rw [hlog, hin] at hfresh
      have ht := h.tracks hfresh
      have hout : key ∉ s.enqueuedLimboResolutions.elements := fun hmem => by
        rw [(h.tidy hfresh).contains_iff.mpr hmem] at hin
        cases hin
      have hqueue : s.dropEnqueued key = s := by
        show { s with enqueuedLimboResolutions := (s.enqueuedLimboResolutions.remove key).1
                      log := (s.dropEnqueued key).log } = s
        rw [hlog, hin, hsame hin]
        rfl
      rw [hqueue]
      refine ⟨ht.orderly, ht.inverse, ht.waiting, ht.active, fun k hk => ⟨ht.needed k hk, ?_⟩,
        fun k hk => ht.attended k hk.1⟩
      rcases hk with hk | hk
      · exact Or.inl fun heq => hout (heq ▸ hk)
      · exact Or.inr hk
    | true =>
      rw [hlog, if_pos hin] at hfresh
      have hfresh' := addsFresh_of_concat hfresh
      have ht := h.tracks hfresh'
      have htidy := h.tidy hfresh'
      have hwaits : key ∈ s.enqueuedLimboResolutions.elements := htidy.contains_iff.mp hin
      have hnone := ht.apart hwaits
      have hmem : ∀ k, k ∈ (s.dropEnqueued key).enqueuedLimboResolutions.elements ↔
          k ≠ key ∧ k ∈ s.enqueuedLimboResolutions.elements := by
        intro k
        show k ∈ (s.enqueuedLimboResolutions.remove key).1.elements ↔ _
        rw [(htidy.remove key).2, htidy.nodup_elements.mem_erase_iff]
      have hphase : ∀ k, phaseOf (s.dropEnqueued key).log k =
          if key = k then .idle else phaseOf s.log k := by
        intro k
        rw [hlog, if_pos hin]
        exact phaseOf_concat _ _ k
      refine ⟨?_, ht.inverse, fun k => ?_, fun k t => ?_, fun k hk => ?_, fun k hk => ?_⟩
      · rw [hlog, if_pos hin]
        exact ht.orderly.concat ((ht.waiting key).mpr hwaits)
      · rw [hphase, hmem]
        by_cases hk : key = k
        · simp [hk]
        · have hne : k ≠ key := fun h => hk h.symm
          simp [hk, hne, ht.waiting]
      · rw [hphase]
        show _ ↔ s.activeLimboTargetsByKey.lookup k = some t
        by_cases hk : key = k
        · subst hk
          simp [hnone]
        · rw [if_neg hk, ht.active]
      · rw [hmem] at hk
        rcases hk with hk | hk
        · exact ⟨ht.needed k (Or.inl hk.2), Or.inl hk.1⟩
        · exact ⟨ht.needed k (Or.inr hk), Or.inr hk⟩
      · rw [hphase, if_neg]
        · exact ht.attended k hk.1
        · rintro rfl
          rcases hk.2 with hne | hactive
          · exact hne rfl
          · exact AList.lookup_eq_none.mp hnone hactive

/-- The state after the lookup of a document ends, which is written down. -/
def endLookup (s : LimboResolutions κ) (key : κ) (target : ℕ) (a : LimboAction κ) :
    LimboResolutions κ :=
  { s with
    activeLimboTargetsByKey := s.activeLimboTargetsByKey.erase key
    activeLimboResolutionsByTarget := s.activeLimboResolutionsByTarget.erase target
    listenTargets := s.listenTargets.erase target
    log := s.log ++ [a] }

/-- **A lookup ends**: it is stopped, or the server has rejected it. -/
lemma Inv.endLookup (h : Inv s R) {key : κ} {target : ℕ} {a : LimboAction κ}
    (htarget : s.activeLimboResolutionsByTarget.lookup target = some key)
    (ha : a = .stopped key target ∨ a = .rejected key target) :
    Inv (s.endLookup key target a) fun k => R k ∧ (k ≠ key ∨ a = .rejected key target) := by
  have hkey : a.key = key := by rcases ha with rfl | rfl <;> rfl
  have hop : a.toOp = none := by rcases ha with rfl | rfl <;> rfl
  have hstarted : a.startedKey = none := by rcases ha with rfl | rfl <;> rfl
  have henqueued : a.enqueuedKey = none := by rcases ha with rfl | rfl <;> rfl
  have hbyKey : ∀ k, (s.endLookup key target a).activeLimboTargetsByKey.lookup k =
      if k = key then none else s.activeLimboTargetsByKey.lookup k := lookup_erase_eq _ key
  have hbyTarget : ∀ t, (s.endLookup key target a).activeLimboResolutionsByTarget.lookup t =
      if t = target then none else s.activeLimboResolutionsByTarget.lookup t :=
    lookup_erase_eq _ target
  have hlistens : ∀ t, (s.endLookup key target a).listenTargets.lookup t =
      if t = target then none else s.listenTargets.lookup t := lookup_erase_eq _ target
  refine ⟨⟨?_, fun k t hk => ?_, fun t k hk => ?_, h.odd, fun t k => ?_, fun t ht => ?_,
    (length_keys_erase_le _ _).trans h.bounded, ?_⟩, fun k hk => ?_, fun hfresh => ?_⟩
  · show s.enqueuedLimboResolutions = (queueOps (s.log ++ [a])).foldl exec (create κ)
    rw [queueOps_concat, hop]
    simpa using h.recorded
  · rw [hbyKey] at hk
    split_ifs at hk with hne
    rw [hbyTarget, if_neg]
    · exact h.resolving k t hk
    · rintro rfl
      rw [h.resolving k t hk] at htarget
      exact hne (Option.some.inj htarget)
  · rw [hbyTarget] at hk
    split_ifs at hk
    exact h.generated t k hk
  · rw [hlistens, hbyTarget]
    split_ifs
    · simp
    · exact h.listening t k
  · rw [hlistens] at ht
    split_ifs at ht
    exact h.queries t ht
  · show ((s.log ++ [a]).filterMap LimboAction.startedKey ++ _).Sublist
      ((s.log ++ [a]).filterMap LimboAction.enqueuedKey)
    rw [filterMap_concat, filterMap_concat, hstarted, henqueued]
    simp only [Option.toList_none, List.append_nil]
    exact h.inOrder
  · obtain ⟨hR, hcases⟩ := hk
    by_cases hne : k = key
    · subst hne
      obtain rfl := hcases.resolve_left fun hne => hne rfl
      exact Or.inr (Or.inr ⟨target, List.mem_append_right _ List.mem_cons_self⟩)
    · rcases h.attended k hR with hk | hk | ⟨t, hk⟩
      · exact Or.inl (AList.mem_erase.mpr ⟨hne, hk⟩)
      · exact Or.inr (Or.inl hk)
      · exact Or.inr (Or.inr ⟨t, List.mem_append_left _ hk⟩)
  · have hfresh' : AddsFresh (queueOps s.log) := addsFresh_of_concat hfresh
    have ht := h.tracks hfresh'
    have hactive := ht.inverse target key htarget
    have hphase : ∀ k, phaseOf (s.endLookup key target a).log k =
        if key = k then a.phase else phaseOf s.log k := by
      intro k
      show phaseOf (s.log ++ [a]) k = _
      rw [phaseOf_concat, hkey]
    have hresting : a.phase = .idle ∨ a.phase = .rejected := by
      rcases ha with rfl | rfl
      · exact Or.inl rfl
      · exact Or.inr rfl
    have hout : key ∉ s.enqueuedLimboResolutions.elements := fun hmem => by
      rw [ht.apart hmem] at hactive
      cases hactive
    have hmem : ∀ k, k ∈ (s.endLookup key target a).activeLimboTargetsByKey ↔
        k ≠ key ∧ k ∈ s.activeLimboTargetsByKey := fun k => AList.mem_erase
    refine ⟨ht.orderly.concat ?_, fun t k hk => ?_, fun k => ?_, fun k t => ?_, fun k hk => ?_,
      fun k hk => ?_⟩
    · rw [hkey, (ht.active key target).mpr hactive]
      rcases ha with rfl | rfl <;> rfl
    · rw [hbyTarget] at hk
      split_ifs at hk with hne
      have hlookup := ht.inverse t k hk
      rw [hbyKey, if_neg, hlookup]
      rintro rfl
      rw [hactive] at hlookup
      exact hne (Option.some.inj hlookup).symm
    · rw [hphase]
      show _ ↔ k ∈ s.enqueuedLimboResolutions.elements
      by_cases hk : key = k
      · subst hk
        rcases hresting with hrest | hrest <;> simp [hrest, hout]
      · rw [if_neg hk, ht.waiting]
    · rw [hphase, hbyKey]
      by_cases hk : key = k
      · subst hk
        rcases hresting with hrest | hrest <;> simp [hrest]
      · rw [if_neg hk, if_neg fun h => hk h.symm, ht.active]
    · rw [hmem] at hk
      rcases hk with hk | hk
      · exact ⟨ht.needed k (Or.inl hk), Or.inl fun heq => hout (heq ▸ hk)⟩
      · exact ⟨ht.needed k (Or.inr hk.2), Or.inl hk.1⟩
    · rw [hphase]
      by_cases hne : key = k
      · subst hne
        obtain rfl := hk.2.resolve_left fun hne => hne rfl
        simp [LimboAction.phase]
      · rw [if_neg hne]
        exact ht.attended k hk.1

/-- The remote store listens to one more target of queries. -/
lemma Inv.listen (h : Inv s R) {target : ℕ} (heven : target % 2 = 0) :
    Inv (s.listen target .listen) R := by
  have hnone : s.activeLimboResolutionsByTarget.lookup target = none := by
    rw [Option.eq_none_iff_forall_not_mem]
    intro k hk
    have hodd := (h.generated target k hk).1
    omega
  by_cases hmem : target ∈ s.listenTargets
  · have hsame : s.listen target .listen = s := by
      rw [LimboResolutions.listen, emplace, if_pos hmem]
    rw [hsame]
    exact h
  · have hlistens := lookup_emplace hmem TargetData.listen
    refine ⟨⟨h.recorded, h.resolving, h.generated, h.odd, fun t k => ?_, fun t ht => ?_,
      h.bounded, h.inOrder⟩, h.attended, fun hfresh => ?_⟩
    · show (emplace s.listenTargets target .listen).lookup t = _ ↔ _
      rw [hlistens]
      split_ifs with heq
      · subst heq
        show _ ↔ s.activeLimboResolutionsByTarget.lookup t = some k
        simp [hnone]
      · exact h.listening t k
    · change (emplace s.listenTargets target .listen).lookup t = _ at ht
      rw [hlistens] at ht
      split_ifs at ht with heq
      · exact heq ▸ heven
      · exact h.queries t ht
    · have ht := h.tracks hfresh
      exact ⟨ht.orderly, ht.inverse, ht.waiting, ht.active, ht.needed, ht.attended⟩

/-- The remote store does not listen to a target of queries any more. -/
lemma Inv.forget (h : Inv s R) {target : ℕ}
    (htarget : s.activeLimboResolutionsByTarget.lookup target = none) :
    Inv { s with listenTargets := s.listenTargets.erase target } R := by
  have hlistens := lookup_erase_eq s.listenTargets target
  refine ⟨⟨h.recorded, h.resolving, h.generated, h.odd, fun t k => ?_, fun t ht => ?_,
    h.bounded, h.inOrder⟩, h.attended, fun hfresh => ?_⟩
  · show (s.listenTargets.erase target).lookup t = _ ↔ _
    rw [hlistens]
    split_ifs with heq
    · subst heq
      show _ ↔ s.activeLimboResolutionsByTarget.lookup t = some k
      simp [htarget]
    · exact h.listening t k
  · change (s.listenTargets.erase target).lookup t = _ at ht
    rw [hlistens] at ht
    split_ifs at ht
    exact h.queries t ht
  · have ht := h.tracks hfresh
    exact ⟨ht.orderly, ht.inverse, ht.waiting, ht.active, ht.needed, ht.attended⟩

/-- The invariant does not depend on the references as such. -/
lemma Inv.setRefs (h : Inv s R) (refs : ReferenceSet κ) :
    Inv { s with limboDocumentRefs := refs } R := by
  refine ⟨⟨h.recorded, h.resolving, h.generated, h.odd, h.listening, h.queries, h.bounded,
    h.inOrder⟩, h.attended, fun hfresh => ?_⟩
  have ht := h.tracks hfresh
  exact ⟨ht.orderly, ht.inverse, ht.waiting, ht.active, ht.needed, ht.attended⟩

end LimboResolutions

end AntViewer.Firestore
