import AntViewer.Firestore.LocalStore
import AntViewer.Firestore.View
import AntViewer.Library.Runs
import Mathlib.Data.Prod.Lex

set_option relaxedAutoImplicit false
set_option autoImplicit false

/-!
# The mutation queue

The queue of the local store numbers its batches. A batch is looked up by its number through the
number of the first batch, and the batches of a document are looked up in an index of pairs of
keys and numbers, which is kept beside the queue.

## Main definitions

* `MemoryMutationQueue` — the queue, the next number and the index.
* `MemoryMutationQueue.Invariant` — numbers are consecutive, and the index is the one of the queue.

## Main results

* `MemoryMutationQueue.invariant_step` — every operation keeps the invariant.
* `MemoryMutationQueue.lookups_along` — in every run the index finds the batches of each document,
  and no assertion about the queue fails.
-/

namespace AntViewer.Firestore

open Runs

/-- `DocumentKeyReference`, ordered `ByKey`: first by the key, then by the number. -/
abbrev DocumentKeyReference (κ : Type*) := κ ×ₗ ℤ

/-- A batch with its `batch_id()`. Numbers are `int`s; a program does not make so many writes that
they overflow. -/
abbrev NumberedBatch (κ F ε : Type) := ℤ × MutationBatch κ F ε

/-- `MemoryMutationQueue`. -/
structure MemoryMutationQueue (κ F ε : Type) where
  queue : List (NumberedBatch κ F ε)
  nextBatchId : ℤ
  batchesByDocumentKey : Finset (DocumentKeyReference κ)

namespace MemoryMutationQueue

variable {κ F ε : Type}

/-- The queue when it is constructed. -/
def new (κ F ε : Type) : MemoryMutationQueue κ F ε := ⟨[], 1, ∅⟩

/-- `Start()`. -/
def start (q : MemoryMutationQueue κ F ε) : MemoryMutationQueue κ F ε :=
  if q.queue.isEmpty then { q with nextBatchId := 1 } else q

/-- `IndexOfBatchId(batch_id)`. -/
def indexOfBatchId (q : MemoryMutationQueue κ F ε) (batchId : ℤ) : ℤ :=
  match q.queue with
  | [] => 0
  | firstBatch :: _ => batchId - firstBatch.1

/-- `LookupMutationBatch(batch_id)`. -/
def lookupMutationBatch (q : MemoryMutationQueue κ F ε) (batchId : ℤ) :
    Except String (Option (NumberedBatch κ F ε)) :=
  if q.queue.isEmpty then .ok none
  else if q.indexOfBatchId batchId < 0 ∨ q.queue.length ≤ q.indexOfBatchId batchId then .ok none
  else
    match q.queue[(q.indexOfBatchId batchId).toNat]? with
    | none => .ok none
    | some batch => do
      hardAssert (batch.1 = batchId) "If found, batch must match"
      pure (some batch)

variable [LinearOrder κ]

/-- `AddMutationBatch(...)`. -/
def addMutationBatch (q : MemoryMutationQueue κ F ε) (batch : MutationBatch κ F ε) :
    Except String (MemoryMutationQueue κ F ε) := do
  hardAssert (q.queue.getLast?.all fun prior => prior.1 < q.nextBatchId)
    "Mutation batch_ids must be in monotonically increasing order"
  pure
    { queue := q.queue ++ [(q.nextBatchId, batch)]
      nextBatchId := q.nextBatchId + 1
      batchesByDocumentKey := batch.mutations.foldl
        (fun references mutation => insert (toLex (mutation.key, q.nextBatchId)) references)
        q.batchesByDocumentKey }

/-- `RemoveMutationBatch(batch)`. -/
def removeMutationBatch (q : MemoryMutationQueue κ F ε) (batch : NumberedBatch κ F ε) :
    Except String (MemoryMutationQueue κ F ε) :=
  match q.queue with
  | [] => hardFail "Trying to remove batch from empty queue"
  | head :: queue => do
    hardAssert (head.1 = batch.1) "Can only remove the first entry of the mutation queue"
    pure
      { q with
        queue
        batchesByDocumentKey := batch.2.mutations.foldl
          (fun references mutation => references.erase (toLex (mutation.key, batch.1)))
          q.batchesByDocumentKey }

/-- `batches_by_document_key_.values_from(start)`. -/
def valuesFrom (q : MemoryMutationQueue κ F ε) (start : DocumentKeyReference κ) :
    List (DocumentKeyReference κ) :=
  (inKeyOrder q.batchesByDocumentKey).filter fun reference => start ≤ reference

/-- The body of the loop of `AllMutationBatchesAffectingDocumentKey`. -/
def batchOf (q : MemoryMutationQueue κ F ε) (reference : DocumentKeyReference κ) :
    Except String (NumberedBatch κ F ε) := do
  match ← q.lookupMutationBatch (ofLex reference).2 with
  | none => hardFail "Batches in the index must exist in the main table"
  | some batch => pure batch

/-- `AllMutationBatchesAffectingDocumentKey(key)`. -/
def allMutationBatchesAffectingDocumentKey (q : MemoryMutationQueue κ F ε) (key : κ) :
    Except String (List (NumberedBatch κ F ε)) :=
  ((q.valuesFrom (toLex (key, 0))).takeWhile fun reference => (ofLex reference).1 = key).mapM
    q.batchOf

/-! ## The invariant -/

omit [LinearOrder κ] in
/-- The batches are numbered from a number on. -/
def Consecutive : ℤ → List (NumberedBatch κ F ε) → Prop
  | _, [] => True
  | id, batch :: queue => batch.1 = id ∧ Consecutive (id + 1) queue

/-- Numbers are consecutive and positive, and the index is the one of the queue. -/
structure Invariant (q : MemoryMutationQueue κ F ε) : Prop where
  consecutive : Consecutive (q.nextBatchId - q.queue.length) q.queue
  positive : (q.queue.length : ℤ) < q.nextBatchId
  references : ∀ key id, toLex (key, id) ∈ q.batchesByDocumentKey ↔
    ∃ batch, (id, batch) ∈ q.queue ∧ key ∈ batch.keys

section Numbers

omit [LinearOrder κ]

/-- The numbers of the batches are those from the first one on. -/
lemma Consecutive.bounds {id : ℤ} {queue : List (NumberedBatch κ F ε)}
    (h : Consecutive id queue) {batch : NumberedBatch κ F ε} (hmem : batch ∈ queue) :
    id ≤ batch.1 ∧ batch.1 < id + queue.length := by
  induction queue generalizing id with
  | nil => cases hmem
  | cons first queue ih =>
    obtain ⟨hfirst, hqueue⟩ := h
    rw [List.length_cons]
    rcases List.mem_cons.mp hmem with rfl | hmem
    · omega
    · have := ih hqueue hmem
      omega

/-- A batch stands where its number says. -/
lemma Consecutive.getElem {id : ℤ} {queue : List (NumberedBatch κ F ε)}
    (h : Consecutive id queue) {batch : NumberedBatch κ F ε} (hmem : batch ∈ queue) :
    queue[(batch.1 - id).toNat]? = some batch := by
  induction queue generalizing id with
  | nil => cases hmem
  | cons first queue ih =>
    obtain ⟨hfirst, hqueue⟩ := h
    rcases List.mem_cons.mp hmem with rfl | hmem
    · have hindex : (batch.1 - id).toNat = 0 := by omega
      rw [hindex]
      rfl
    · have hbounds := hqueue.bounds hmem
      have hindex : (batch.1 - id).toNat = (batch.1 - (id + 1)).toNat + 1 := by omega
      rw [hindex, List.getElem?_cons_succ]
      exact ih hqueue hmem

/-- The numbers increase. -/
lemma Consecutive.pairwise {id : ℤ} {queue : List (NumberedBatch κ F ε)}
    (h : Consecutive id queue) : queue.Pairwise fun b b' => b.1 < b'.1 := by
  induction queue generalizing id with
  | nil => exact List.Pairwise.nil
  | cons first queue ih =>
    obtain ⟨hfirst, hqueue⟩ := h
    refine List.pairwise_cons.mpr ⟨fun batch hmem => ?_, ih hqueue⟩
    have := hqueue.bounds hmem
    omega

/-- The next number continues the sequence. -/
lemma Consecutive.concat {id : ℤ} {queue : List (NumberedBatch κ F ε)}
    (h : Consecutive id queue) (batch : MutationBatch κ F ε) :
    Consecutive id (queue ++ [(id + queue.length, batch)]) := by
  induction queue generalizing id with
  | nil => exact ⟨by simp, trivial⟩
  | cons first queue ih =>
    obtain ⟨hfirst, hqueue⟩ := h
    have hid : id + (first :: queue).length = id + 1 + queue.length := by
      rw [List.length_cons]
      omega
    rw [hid]
    exact ⟨hfirst, ih hqueue⟩

end Numbers

/-- What a loop of insertions inserts. -/
lemma mem_foldl_insert {α β : Type*} [DecidableEq β] (f : α → β) (l : List α) (s : Finset β)
    (b : β) : b ∈ l.foldl (fun s a => insert (f a) s) s ↔ b ∈ s ∨ ∃ a ∈ l, f a = b := by
  induction l generalizing s with
  | nil => simp
  | cons a l ih =>
    rw [List.foldl_cons, ih, Finset.mem_insert]
    simp only [List.mem_cons, exists_eq_or_imp, eq_comm (a := b)]
    tauto

/-- What a loop of erasures leaves. -/
lemma mem_foldl_erase {α β : Type*} [DecidableEq β] (f : α → β) (l : List α) (s : Finset β)
    (b : β) : b ∈ l.foldl (fun s a => s.erase (f a)) s ↔ b ∈ s ∧ ∀ a ∈ l, f a ≠ b := by
  induction l generalizing s with
  | nil => simp
  | cons a l ih =>
    rw [List.foldl_cons, ih, Finset.mem_erase, List.forall_mem_cons, ne_comm]
    tauto

/-- The new queue. -/
lemma invariant_new : (new κ F ε).Invariant where
  consecutive := trivial
  positive := by simp [new]
  references key id := by simp [new]

/-- Starting the queue again. -/
lemma Invariant.start {q : MemoryMutationQueue κ F ε} (h : q.Invariant) : q.start.Invariant := by
  unfold MemoryMutationQueue.start
  cases hqueue : q.queue with
  | cons first queue => exact h
  | nil =>
    refine ⟨?_, ?_, ?_⟩
    · simp [Consecutive]
    · simp
    · simpa [hqueue] using h.references

/-- Adding a batch succeeds, and keeps the invariant. -/
lemma Invariant.add {q : MemoryMutationQueue κ F ε} (h : q.Invariant)
    (batch : MutationBatch κ F ε) :
    ∃ q', q.addMutationBatch batch = .ok q' ∧ q'.Invariant := by
  have hassert : (q.queue.getLast?.all fun prior => prior.1 < q.nextBatchId) = true := by
    cases hlast : q.queue.getLast? with
    | none => rfl
    | some prior =>
      have hbounds := h.consecutive.bounds (List.mem_of_getLast? hlast)
      have hlt : prior.1 < q.nextBatchId := by omega
      simpa using hlt
  refine ⟨_, by rw [addMutationBatch, hassert]; rfl, ?_, ?_, ?_⟩
  · have hconcat := h.consecutive.concat batch
    rw [sub_add_cancel] at hconcat
    have hlength : q.nextBatchId + 1 - ((q.queue ++ [(q.nextBatchId, batch)]).length : ℤ) =
        q.nextBatchId - q.queue.length := by
      rw [List.length_append, List.length_singleton]
      omega
    rwa [hlength]
  · have hpositive := h.positive
    rw [List.length_append, List.length_singleton]
    dsimp only
    omega
  · intro key id
    rw [mem_foldl_insert, h.references]
    constructor
    · rintro (⟨batch', hmem, hkey⟩ | ⟨m, hm, heq⟩)
      · exact ⟨batch', List.mem_append_left _ hmem, hkey⟩
      · obtain ⟨rfl, rfl⟩ := Prod.mk.inj (toLex.injective heq)
        exact ⟨batch, List.mem_append_right _ (List.mem_singleton_self _),
          LocalStore.mem_keys.mpr ⟨m, hm, rfl⟩⟩
    · rintro ⟨batch', hmem, hkey⟩
      rcases List.mem_append.mp hmem with hmem | hmem
      · exact Or.inl ⟨batch', hmem, hkey⟩
      · obtain ⟨rfl, rfl⟩ := Prod.mk.inj (List.mem_singleton.mp hmem)
        obtain ⟨m, hm, rfl⟩ := LocalStore.mem_keys.mp hkey
        exact Or.inr ⟨m, hm, rfl⟩

/-- Removing a batch of the queue keeps the invariant. -/
lemma Invariant.remove {q q' : MemoryMutationQueue κ F ε} (h : q.Invariant)
    {batch : NumberedBatch κ F ε} (hbatch : batch ∈ q.queue)
    (hok : q.removeMutationBatch batch = .ok q') : q'.Invariant := by
  unfold removeMutationBatch at hok
  cases hqueue : q.queue with
  | nil => rw [hqueue] at hok; cases hok
  | cons head queue =>
    simp only [hqueue] at hok
    obtain ⟨_, hassert, hremoved⟩ := ok_of_bind hok
    have hconsecutive := h.consecutive
    rw [hqueue] at hconsecutive hbatch
    obtain ⟨hhead, htail⟩ := hconsecutive
    -- the batch is the first one: no other has its number
    obtain rfl : batch = head := by
      rcases List.mem_cons.mp hbatch with rfl | hmem
      · rfl
      · have hbounds := htail.bounds hmem
        have hsame : head.1 = batch.1 := of_decide_eq_true (of_hardAssert hassert)
        omega
    cases hremoved
    have hpositive := h.positive
    rw [hqueue, List.length_cons] at hpositive
    rw [List.length_cons] at hhead htail
    refine ⟨?_, ?_, ?_⟩
    · have hlength : q.nextBatchId - ((queue.length + 1 : ℕ) : ℤ) + 1 =
          q.nextBatchId - queue.length := by omega
      rwa [hlength] at htail
    · dsimp only
      omega
    · intro key id
      rw [mem_foldl_erase, h.references, hqueue]
      constructor
      · rintro ⟨⟨batch', hmem, hkey⟩, hother⟩
        rcases List.mem_cons.mp hmem with heq | hmem
        · obtain ⟨m, hm, rfl⟩ := LocalStore.mem_keys.mp hkey
          subst heq
          exact absurd rfl (hother m hm)
        · exact ⟨batch', hmem, hkey⟩
      · rintro ⟨batch', hmem, hkey⟩
        refine ⟨⟨batch', List.mem_cons_of_mem _ hmem, hkey⟩, fun m hm heq => ?_⟩
        obtain ⟨-, rfl⟩ := Prod.mk.inj (toLex.injective heq)
        have hbounds := htail.bounds hmem
        omega

/-! ## Lookups -/

/-- A batch of the queue is found under its number. -/
lemma Invariant.lookup {q : MemoryMutationQueue κ F ε} (h : q.Invariant)
    {batch : NumberedBatch κ F ε} (hmem : batch ∈ q.queue) :
    q.lookupMutationBatch batch.1 = .ok (some batch) := by
  have hbounds := h.consecutive.bounds hmem
  have hget := h.consecutive.getElem hmem
  have hindex : q.indexOfBatchId batch.1 = batch.1 - (q.nextBatchId - q.queue.length) := by
    have hconsecutive := h.consecutive
    unfold indexOfBatchId
    cases hqueue : q.queue with
    | nil => rw [hqueue] at hmem; cases hmem
    | cons first queue =>
      rw [hqueue] at hconsecutive
      dsimp only
      rw [hconsecutive.1]
  have hempty : q.queue.isEmpty = false := List.isEmpty_eq_false_iff.mpr (List.ne_nil_of_mem hmem)
  rw [lookupMutationBatch, hempty, if_neg Bool.false_ne_true, hindex, if_neg (by omega), hget]
  simp

/-- A list in which all elements with a property come first. -/
lemma takeWhile_eq_filter {α : Type*} {p : α → Bool} {l : List α}
    (h : l.Pairwise fun a b => p b = true → p a = true) : l.takeWhile p = l.filter p := by
  induction l with
  | nil => rfl
  | cons a l ih =>
    obtain ⟨ha, hl⟩ := List.pairwise_cons.mp h
    by_cases hp : p a = true
    · rw [List.takeWhile_cons_of_pos hp, List.filter_cons_of_pos hp, ih hl]
    · rw [List.takeWhile_cons_of_neg hp, List.filter_cons_of_neg hp, eq_comm,
        List.filter_eq_nil_iff]
      exact fun b hb hpb => hp (ha b hb hpb)

/-- **The index of a document** has the numbers of its batches, in the order of the queue.

**Proof sketch.** Both lists increase and have the same elements. From the start of the lookup on,
the references of the document come first. -/
lemma Invariant.references_eq {q : MemoryMutationQueue κ F ε} (h : q.Invariant) (key : κ) :
    ((q.valuesFrom (toLex (key, 0))).takeWhile fun reference => (ofLex reference).1 = key) =
      (q.queue.filter fun batch => key ∈ batch.2.keys).map fun batch => toLex (key, batch.1) := by
  have hsorted : (q.valuesFrom (toLex (key, 0))).Pairwise (· ≤ ·) :=
    (Finset.pairwise_sort _ _).filter _
  have hfirst : (q.valuesFrom (toLex (key, 0))).Pairwise fun a b =>
      decide ((ofLex b).1 = key) = true → decide ((ofLex a).1 = key) = true := by
    refine hsorted.imp_of_mem fun {a b} ha _ hab hb => ?_
    have hstart : toLex (key, (0 : ℤ)) ≤ a := of_decide_eq_true (List.mem_filter.mp ha).2
    have hkey : key ≤ (ofLex a).1 := Prod.Lex.monotone_fst _ _ hstart
    have hle : (ofLex a).1 ≤ (ofLex b).1 := Prod.Lex.monotone_fst _ _ hab
    rw [of_decide_eq_true hb] at hle
    exact decide_eq_true (le_antisymm hle hkey)
  rw [takeWhile_eq_filter hfirst]
  have hleft := hsorted.filter fun reference => decide ((ofLex reference).1 = key)
  have hright : ((q.queue.filter fun batch => key ∈ batch.2.keys).map
      fun batch => (toLex (key, batch.1) : DocumentKeyReference κ)).Pairwise (· < ·) := by
    refine List.pairwise_map.mpr ((h.consecutive.pairwise.filter _).imp fun {b b'} hlt => ?_)
    exact Prod.Lex.toLex_lt_toLex.mpr (Or.inr ⟨rfl, hlt⟩)
  refine List.Perm.eq_of_pairwise' hleft (hright.imp fun h => le_of_lt h) ?_
  refine (List.perm_ext_iff_of_nodup (((nodup_inKeyOrder _).filter _).filter _)
    (hright.imp fun h => ne_of_lt h)).mpr fun reference => ?_
  obtain ⟨key', id, rfl⟩ : ∃ key' id, reference = toLex (key', id) := ⟨_, _, rfl⟩
  rw [List.mem_filter, decide_eq_true_iff, List.mem_filter, mem_inKeyOrder, h.references,
    decide_eq_true_iff, List.mem_map]
  constructor
  · rintro ⟨⟨⟨batch, hmem, hkey⟩, -⟩, rfl⟩
    exact ⟨(id, batch), List.mem_filter.mpr ⟨hmem, decide_eq_true hkey⟩, rfl⟩
  · rintro ⟨⟨id', batch⟩, hmem, heq⟩
    obtain ⟨rfl, rfl⟩ := Prod.mk.inj (toLex.injective heq)
    obtain ⟨hmem, hkey⟩ := List.mem_filter.mp hmem
    have hpositive := h.positive
    have hbounds := h.consecutive.bounds hmem
    refine ⟨⟨⟨batch, hmem, of_decide_eq_true hkey⟩, ?_⟩, rfl⟩
    exact Prod.Lex.toLex_le_toLex.mpr (Or.inr ⟨rfl, by omega⟩)

/-- Looking up the batches of a document succeeds, and finds them. -/
lemma Invariant.allMutationBatchesAffectingDocumentKey_eq {q : MemoryMutationQueue κ F ε}
    (h : q.Invariant) (key : κ) :
    q.allMutationBatchesAffectingDocumentKey key =
      .ok (q.queue.filter fun batch => key ∈ batch.2.keys) := by
  rw [allMutationBatchesAffectingDocumentKey, h.references_eq]
  have hlookups : ∀ batches : List (NumberedBatch κ F ε), (∀ batch ∈ batches, batch ∈ q.queue) →
      (batches.map fun batch => (toLex (key, batch.1) : DocumentKeyReference κ)).mapM q.batchOf =
        .ok batches := by
    intro batches
    induction batches with
    | nil => exact fun _ => rfl
    | cons batch batches ih =>
      intro hmem
      have hbatch : q.batchOf (toLex (key, batch.1)) = .ok batch := by
        unfold batchOf
        dsimp only [ofLex_toLex]
        rw [h.lookup (hmem batch List.mem_cons_self)]
        rfl
      rw [List.map_cons, List.mapM_cons, hbatch,
        ih fun b hb => hmem b (List.mem_cons_of_mem batch hb)]
      rfl
  exact hlookups _ fun batch hmem => List.mem_of_mem_filter hmem

/-! ## Runs -/

/-- The operations that change the queue. Only batches of the queue are removed: the callers have
them from it. -/
inductive Operation (κ F ε : Type)
  | start
  | add (batch : MutationBatch κ F ε)
  | remove (batch : NumberedBatch κ F ε)

/-- One operation that succeeds. -/
def Step (q : MemoryMutationQueue κ F ε) (operation : Operation κ F ε)
    (q' : MemoryMutationQueue κ F ε) : Prop :=
  match operation with
  | .start => q' = q.start
  | .add batch => q.addMutationBatch batch = .ok q'
  | .remove batch => batch ∈ q.queue ∧ q.removeMutationBatch batch = .ok q'

/-- **Every operation** keeps the invariant. -/
lemma invariant_step {q q' : MemoryMutationQueue κ F ε} {operation : Operation κ F ε}
    (h : q.Invariant) (hstep : Step q operation q') : q'.Invariant := by
  cases operation with
  | start =>
    obtain rfl : q' = q.start := hstep
    exact h.start
  | add batch =>
    obtain ⟨q₁, hadd, hq₁⟩ := h.add batch
    obtain rfl : q₁ = q' := Except.ok.inj (hadd.symm.trans hstep)
    exact hq₁
  | remove batch => exact h.remove hstep.1 hstep.2

/-- **The index in every run.** After any operations, the lookup for a document succeeds and finds
the batches that write to it, in the order of the queue: those that the local store applies.
Adding a batch never fails, nor does removing the first one, and an empty queue has no references.

**Proof sketch.** Numbers stay consecutive and the index stays the one of the queue. So a number
tells where its batch is, and both the references of a document and its batches are sorted. -/
theorem lookups_along (tr : List (Operation κ F ε × MemoryMutationQueue κ F ε))
    (hrun : Along Step (new κ F ε) tr) :
    (∀ (documents : κ → Option (StoredDocument (ObjectValue (LeafValue F ε)))) (key : κ),
      ((final (new κ F ε) tr).allMutationBatchesAffectingDocumentKey key).map (List.map Prod.snd) =
        .ok (LocalStore.batchesAffecting
          ⟨documents, (final (new κ F ε) tr).queue.map Prod.snd⟩ key)) ∧
    (∀ batch, ∃ q', (final (new κ F ε) tr).addMutationBatch batch = .ok q') ∧
    (∀ batch queue, (final (new κ F ε) tr).queue = batch :: queue →
      ∃ q', (final (new κ F ε) tr).removeMutationBatch batch = .ok q') ∧
    ((final (new κ F ε) tr).queue = [] → (final (new κ F ε) tr).batchesByDocumentKey = ∅) := by
  have h := hrun.final_invariant invariant_new fun _ _ _ hq hstep => invariant_step hq hstep
  generalize final (new κ F ε) tr = q at h ⊢
  refine ⟨fun documents key => ?_, fun batch => ?_, fun batch queue hqueue => ?_, fun hqueue => ?_⟩
  · rw [h.allMutationBatchesAffectingDocumentKey_eq key, LocalStore.batchesAffecting,
      List.filter_map]
    rfl
  · obtain ⟨q', hadd, -⟩ := h.add batch
    exact ⟨q', hadd⟩
  · unfold removeMutationBatch
    simp only [hqueue, decide_true, hardAssert_true]
    exact ⟨_, rfl⟩
  · refine Finset.eq_empty_of_forall_notMem fun reference hmem => ?_
    obtain ⟨batch, hbatch, -⟩ := (h.references (ofLex reference).1 (ofLex reference).2).mp hmem
    rw [hqueue] at hbatch
    cases hbatch

/-- A batch for the document of a counter. -/
def countingUp : MutationBatch ℕ ℚ String :=
  LocalStore.newBatch (fun _ => some (counter 3)) 0 [countUp] countUp_ne_nil

/-- A batch that deletes the counter and another document. -/
def deletingBoth : MutationBatch ℕ ℚ String :=
  LocalStore.newBatch (fun _ => some (counter 3)) 0 [.delete 1 .none, .delete 0 .none]
    (List.cons_ne_nil _ _)

/-- The queue after both batches have come and the first one has left. -/
theorem lookups_along_removed :
    let references : Finset (DocumentKeyReference ℕ) :=
      insert (toLex (0, 2)) (insert (toLex (1, 2)) {toLex (0, 1)})
    let q : MemoryMutationQueue ℕ ℚ String :=
      ⟨[(2, deletingBoth)], 3, references.erase (toLex (0, 1))⟩
    (q.allMutationBatchesAffectingDocumentKey 0).map (List.map Prod.snd) =
      .ok (LocalStore.batchesAffecting ⟨fun _ => some (counter 3), [deletingBoth]⟩ 0) :=
  let references : Finset (DocumentKeyReference ℕ) :=
    insert (toLex (0, 2)) (insert (toLex (1, 2)) {toLex (0, 1)})
  (lookups_along [(.add countingUp, ⟨[(1, countingUp)], 2, {toLex (0, 1)}⟩),
    (.add deletingBoth, ⟨[(1, countingUp), (2, deletingBoth)], 3, references⟩),
    (.remove (1, countingUp), ⟨[(2, deletingBoth)], 3, references.erase (toLex (0, 1))⟩)]
    ⟨rfl, rfl, ⟨List.mem_cons_self, rfl⟩, trivial⟩).1 (fun _ => some (counter 3)) 0

end MemoryMutationQueue

end AntViewer.Firestore
