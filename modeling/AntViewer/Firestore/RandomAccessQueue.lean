import Mathlib.Data.List.Nodup
import Mathlib.Logic.Function.Basic
import Mathlib.Tactic.Common
import AntViewer.Firestore.Document

set_option relaxedAutoImplicit false
set_option autoImplicit false

/-!
# A queue with removal

The queue of the vendored client that elements can be removed from. A removed element leaves its
entry behind, marked as removed, which is dropped when it comes to the front; a map from elements
to their entries says what is in the queue. When a marked entry is dropped, the map forgets its
element, which is right only if the element was not added again in the meantime.

## Main definitions

* `RandomAccessQueue` — the queue, with `pushBack`, `front`, `popFront`, `remove`, `elements`.
* `RandomAccessQueue.Tidy` — no element is stored both as removed and as present.
* `RandomAccessQueue.Op`, `exec`, `QueueSpec.exec` — runs, and what a plain list does instead.

## Main results

* `RandomAccessQueue.refines_list_iff` — the queue does what a plain list does exactly if no element
  is added while its removed entry is stored.
* `RandomAccessQueue.Stored.forgets` — otherwise it ends up denying an element that it stores.
-/

namespace AntViewer.Firestore

/-- `QueueEntry`, with the address it is stored at. -/
structure QueueEntry (α : Type*) where
  address : ℕ
  element : α
  removed : Bool
  deriving DecidableEq

/-- `RandomAccessQueue`. -/
structure RandomAccessQueue (α : Type*) where
  queue : List (QueueEntry α)
  /-- `queue_entries_by_element_`: the addresses of the entries. -/
  queueEntriesByElement : α → Option ℕ
  /-- The next address that is free. -/
  nextAddress : ℕ

namespace RandomAccessQueue

variable {α : Type*}

/-- A queue nothing was added to. -/
def create (α : Type*) : RandomAccessQueue α := ⟨[], fun _ => none, 0⟩

/-- `empty()`. -/
def empty (q : RandomAccessQueue α) : Bool := q.queue.isEmpty

/-- `contains(element)`. -/
def contains (q : RandomAccessQueue α) (element : α) : Bool :=
  (q.queueEntriesByElement element).isSome

/-- `elements()`. -/
def elements (q : RandomAccessQueue α) : List α :=
  (q.queue.filter fun entry => !entry.removed).map QueueEntry.element

/-- `front()`; there is no element in front of an empty queue. -/
def front (q : RandomAccessQueue α) : Except String (Option α) :=
  match q.queue with
  | [] => return none
  | entry :: _ => do
    hardAssert (!entry.removed)
      "The front element in the queue should not be marked as \"removed\""
    return some entry.element

variable [DecidableEq α]

/-- `push_back(element)`: the queue afterwards, and whether the element was added. -/
def pushBack (q : RandomAccessQueue α) (element : α) : RandomAccessQueue α × Bool :=
  match q.queueEntriesByElement element with
  | some _ => (q, false)
  | none => ({
      queue := q.queue ++ [⟨q.nextAddress, element, false⟩]
      queueEntriesByElement :=
        Function.update q.queueEntriesByElement element (some q.nextAddress)
      nextAddress := q.nextAddress + 1 }, true)

/-- The loop of `PruneLeadingQueueEntries()`. -/
def pruneLeadingQueueEntries (nextAddress : ℕ) :
    List (QueueEntry α) → (α → Option ℕ) → RandomAccessQueue α
  | [], entries => ⟨[], entries, nextAddress⟩
  | entry :: queue, entries =>
    if entry.removed then
      pruneLeadingQueueEntries nextAddress queue (Function.update entries entry.element none)
    else ⟨entry :: queue, entries, nextAddress⟩

/-- `pop_front()`. -/
def popFront (q : RandomAccessQueue α) : RandomAccessQueue α :=
  match q.queue with
  | [] => q
  | entry :: queue => pruneLeadingQueueEntries q.nextAddress queue
      (Function.update q.queueEntriesByElement entry.element none)

/-- `set_removed()` of the entry at an address. -/
def setRemoved (address : ℕ) (entry : QueueEntry α) : QueueEntry α :=
  if entry.address = address then { entry with removed := true } else entry

/-- `remove(element)`: the queue afterwards, and whether the element was found. -/
def remove (q : RandomAccessQueue α) (element : α) : RandomAccessQueue α × Bool :=
  match q.queueEntriesByElement element with
  | none => (q, false)
  | some address => (pruneLeadingQueueEntries q.nextAddress (q.queue.map (setRemoved address))
      (Function.update q.queueEntriesByElement element none), true)

/-! ## Tidy queues -/

/-- What holds of every queue: entries have addresses of their own, what the map has is stored and
not removed, and the front is not removed. -/
structure Stored (q : RandomAccessQueue α) : Prop where
  nodup : (q.queue.map QueueEntry.address).Nodup
  known : ∀ entry ∈ q.queue, entry.address < q.nextAddress
  live : ∀ x address, q.queueEntriesByElement x = some address → ⟨address, x, false⟩ ∈ q.queue
  front : ∀ entry, q.queue.head? = some entry → entry.removed = false

/-- A tidy queue: the map has every element that is stored and not removed, and no removed entry
has an element that is in the queue. -/
structure Tidy (q : RandomAccessQueue α) : Prop extends Stored q where
  mapped : ∀ entry ∈ q.queue, entry.removed = false →
    q.queueEntriesByElement entry.element = some entry.address
  apart : ∀ entry ∈ q.queue, entry.removed = true → q.queueEntriesByElement entry.element = none

omit [DecidableEq α] in
/-- The elements are those of the entries that are not removed. -/
lemma mem_elements {q : RandomAccessQueue α} {x : α} :
    x ∈ q.elements ↔ ∃ entry ∈ q.queue, entry.removed = false ∧ entry.element = x := by
  simp [elements, and_assoc]

omit [DecidableEq α] in
/-- Two entries at one address are the same. -/
lemma Stored.eq_of_address {q : RandomAccessQueue α} (h : q.Stored) {a b : QueueEntry α}
    (ha : a ∈ q.queue) (hb : b ∈ q.queue) (hab : a.address = b.address) : a = b :=
  List.inj_on_of_nodup_map h.nodup ha hb hab

omit [DecidableEq α] in
/-- A tidy queue has no element twice. -/
lemma Tidy.nodup_elements {q : RandomAccessQueue α} (h : q.Tidy) : q.elements.Nodup := by
  have hlive : ((q.queue.filter fun entry => !entry.removed).map QueueEntry.address).Nodup :=
    h.nodup.sublist (List.filter_sublist.map _)
  refine List.Nodup.map_on ?_ hlive.of_map
  intro a ha b hb hab
  rw [List.mem_filter] at ha hb
  apply h.eq_of_address ha.1 hb.1
  have hma := h.mapped a ha.1 (by simpa using ha.2)
  have hmb := h.mapped b hb.1 (by simpa using hb.2)
  rw [hab, hmb] at hma
  exact (Option.some.inj hma).symm

omit [DecidableEq α] in
/-- A queue stores the elements that it contains. -/
lemma Stored.mem_of_contains {q : RandomAccessQueue α} (h : q.Stored) {x : α}
    (hx : q.contains x = true) : x ∈ q.elements := by
  obtain ⟨address, haddress⟩ := Option.isSome_iff_exists.mp hx
  exact mem_elements.mpr ⟨_, h.live x address haddress, rfl, rfl⟩

omit [DecidableEq α] in
/-- A tidy queue contains the elements it stores. -/
lemma Tidy.contains_iff {q : RandomAccessQueue α} (h : q.Tidy) {x : α} :
    q.contains x = true ↔ x ∈ q.elements := by
  refine ⟨h.mem_of_contains, fun hx => ?_⟩
  obtain ⟨entry, hentry, hremoved, rfl⟩ := mem_elements.mp hx
  rw [contains, h.mapped entry hentry hremoved]
  rfl

omit [DecidableEq α] in
/-- A queue nothing was added to is tidy. -/
lemma tidy_create : (create α).Tidy :=
  ⟨⟨by simp [create], by simp [create], fun x address h => (by cases h),
    fun entry h => (by cases h)⟩, fun entry h => (by cases h), fun entry h => (by cases h)⟩

/-- **Dropping the removed entries in front**: they go with what the map has for their elements,
and the others stay. -/
lemma prune_spec (n : ℕ) (es : List (QueueEntry α)) (m : α → Option ℕ) :
    ∃ dropped, es = dropped ++ (pruneLeadingQueueEntries n es m).queue ∧
      (∀ entry ∈ dropped, entry.removed = true) ∧
      (∀ x, (pruneLeadingQueueEntries n es m).queueEntriesByElement x =
        if x ∈ dropped.map QueueEntry.element then none else m x) ∧
      (∀ entry, (pruneLeadingQueueEntries n es m).queue.head? = some entry →
        entry.removed = false) ∧
      (pruneLeadingQueueEntries n es m).nextAddress = n := by
  induction es generalizing m with
  | nil => exact ⟨[], rfl, by simp, by simp [pruneLeadingQueueEntries], fun entry h => (by cases h),
      rfl⟩
  | cons entry es ih =>
    unfold pruneLeadingQueueEntries
    by_cases hremoved : entry.removed = true
    · rw [if_pos hremoved]
      obtain ⟨dropped, hes, hdropped, hmap, hfront, hnext⟩ :=
        ih (Function.update m entry.element none)
      refine ⟨entry :: dropped, by rw [List.cons_append, ← hes], ?_, fun x => ?_, hfront, hnext⟩
      · intro e he
        rcases List.mem_cons.mp he with rfl | he
        · exact hremoved
        · exact hdropped e he
      · rw [hmap, List.map_cons]
        by_cases hx : x = entry.element
        · subst hx
          simp
        · simp [hx]
    · rw [if_neg hremoved]
      refine ⟨[], rfl, by simp, by simp, fun e he => ?_, rfl⟩
      obtain rfl : entry = e := by simpa using he
      simpa using hremoved

/-- Dropping the removed entries in front keeps what holds of every queue. -/
lemma stored_prune {n : ℕ} {es : List (QueueEntry α)} {m : α → Option ℕ}
    (hnodup : (es.map QueueEntry.address).Nodup) (hknown : ∀ entry ∈ es, entry.address < n)
    (hlive : ∀ x address, m x = some address → ⟨address, x, false⟩ ∈ es) :
    (pruneLeadingQueueEntries n es m).Stored := by
  obtain ⟨dropped, hes, hdropped, hmap, hfront, hnext⟩ := prune_spec n es m
  have hsublist : (pruneLeadingQueueEntries n es m).queue.Sublist es := by
    conv_rhs => rw [hes]
    exact List.sublist_append_right _ _
  refine ⟨hnodup.sublist (hsublist.map _), fun entry hentry => ?_, fun x address h => ?_, hfront⟩
  · rw [hnext]
    exact hknown entry (hsublist.subset hentry)
  · rw [hmap] at h
    split_ifs at h
    have hmem := hlive x address h
    rw [hes, List.mem_append] at hmem
    rcases hmem with hmem | hmem
    · cases hdropped _ hmem
    · exact hmem

/-- Dropping the removed entries in front leaves the elements. -/
lemma elements_prune (n : ℕ) (es : List (QueueEntry α)) (m : α → Option ℕ) :
    (pruneLeadingQueueEntries n es m).elements =
      (es.filter fun entry => !entry.removed).map QueueEntry.element := by
  obtain ⟨dropped, hes, hdropped, -, -, -⟩ := prune_spec n es m
  have hnone : dropped.filter (fun entry => !entry.removed) = [] := by
    rw [List.filter_eq_nil_iff]
    intro entry hentry
    simp [hdropped entry hentry]
  conv_rhs => rw [hes, List.filter_append, hnone, List.nil_append]
  rfl

/-- In a tidy queue, dropping the removed entries in front changes nothing but these entries. -/
lemma tidy_prune {n : ℕ} {es : List (QueueEntry α)} {m : α → Option ℕ}
    (hnodup : (es.map QueueEntry.address).Nodup) (hknown : ∀ entry ∈ es, entry.address < n)
    (hlive : ∀ x address, m x = some address → ⟨address, x, false⟩ ∈ es)
    (hmapped : ∀ entry ∈ es, entry.removed = false → m entry.element = some entry.address)
    (hapart : ∀ entry ∈ es, entry.removed = true → m entry.element = none) :
    (pruneLeadingQueueEntries n es m).Tidy := by
  obtain ⟨dropped, hes, hdropped, hmap, -, -⟩ := prune_spec n es m
  have hsubset : ∀ entry ∈ (pruneLeadingQueueEntries n es m).queue, entry ∈ es := by
    intro entry hentry
    rw [hes]
    exact List.mem_append_right _ hentry
  have hsame : ∀ x, (pruneLeadingQueueEntries n es m).queueEntriesByElement x = m x := by
    intro x
    rw [hmap]
    split_ifs with hx
    · obtain ⟨entry, hentry, rfl⟩ := List.mem_map.mp hx
      have hin : entry ∈ es := by
        rw [hes]
        exact List.mem_append_left _ hentry
      exact (hapart entry hin (hdropped entry hentry)).symm
    · rfl
  refine ⟨stored_prune hnodup hknown hlive, fun entry hentry hlive => ?_,
    fun entry hentry hremoved => ?_⟩
  · rw [hsame]
    exact hmapped entry (hsubset entry hentry) hlive
  · rw [hsame]
    exact hapart entry (hsubset entry hentry) hremoved

omit [DecidableEq α] in
/-- The front of a queue is its first element. -/
lemma Stored.front_eq {q : RandomAccessQueue α} (h : q.Stored) :
    q.front = .ok q.elements.head? := by
  unfold RandomAccessQueue.front elements
  cases hq : q.queue with
  | nil => rfl
  | cons entry es =>
    have hremoved : entry.removed = false := h.front entry (by rw [hq]; rfl)
    rw [List.filter_cons_of_pos (by simp [hremoved])]
    simp only [hremoved]
    rfl

omit [DecidableEq α] in
/-- A queue is empty if it has no elements. -/
lemma Stored.empty_eq {q : RandomAccessQueue α} (h : q.Stored) :
    q.empty = q.elements.isEmpty := by
  unfold RandomAccessQueue.empty elements
  cases hq : q.queue with
  | nil => rfl
  | cons entry es =>
    have hremoved : entry.removed = false := h.front entry (by rw [hq]; rfl)
    simp [hremoved]

/-! ## The operations -/

/-- An element that is added has no removed entry any more. -/
def Fresh (q : RandomAccessQueue α) (x : α) : Prop :=
  q.contains x = false → ∀ entry ∈ q.queue, entry.removed = true → entry.element ≠ x

/-- Adding an element. -/
lemma Stored.pushBack {q : RandomAccessQueue α} (h : q.Stored) (x : α) :
    (q.pushBack x).1.Stored := by
  unfold RandomAccessQueue.pushBack
  cases hx : q.queueEntriesByElement x with
  | some address => exact h
  | none =>
    refine ⟨?_, ?_, ?_, ?_⟩
    · rw [List.map_append]
      refine List.Nodup.append h.nodup (by simp) ?_
      intro address haddress hmem
      obtain ⟨entry, hentry, rfl⟩ := List.mem_map.mp haddress
      have hlt := h.known entry hentry
      have heq : entry.address = q.nextAddress := by simpa using hmem
      omega
    · intro entry hentry
      show entry.address < q.nextAddress + 1
      rcases List.mem_append.mp hentry with hentry | hentry
      · have hlt := h.known entry hentry
        omega
      · obtain rfl := List.mem_singleton.mp hentry
        exact Nat.lt_succ_self _
    · intro y address hy
      by_cases hyx : y = x
      · subst hyx
        obtain rfl : q.nextAddress = address := by simpa using hy
        exact List.mem_append_right _ List.mem_cons_self
      · simp only [Function.update_of_ne hyx] at hy
        exact List.mem_append_left _ (h.live y address hy)
    · intro entry hentry
      cases hq : q.queue with
      | nil =>
        rw [hq] at hentry
        cases hentry
        rfl
      | cons e es =>
        rw [hq] at hentry
        cases hentry
        exact h.front _ (by rw [hq]; rfl)

/-- **Adding an element** that is not in the queue adds it to the end. -/
lemma pushBack_spec (q : RandomAccessQueue α) (x : α) :
    (q.pushBack x).2 = (!q.contains x) ∧ (q.pushBack x).1.elements =
      if q.contains x = true then q.elements else q.elements ++ [x] := by
  unfold RandomAccessQueue.pushBack contains
  cases q.queueEntriesByElement x with
  | some address => exact ⟨rfl, rfl⟩
  | none => exact ⟨rfl, by simp [elements]⟩

/-- A queue stays tidy when an element is added whose removed entry is gone. -/
lemma Tidy.pushBack {q : RandomAccessQueue α} (h : q.Tidy) {x : α} (hfresh : q.Fresh x) :
    (q.pushBack x).1.Tidy := by
  have hstored := h.toStored.pushBack x
  unfold RandomAccessQueue.pushBack at *
  cases hx : q.queueEntriesByElement x with
  | some address => exact h
  | none =>
    simp only [hx] at hstored
    have hout : q.contains x = false := by rw [contains, hx]; rfl
    refine ⟨hstored, fun entry hentry hremoved => ?_, fun entry hentry hremoved => ?_⟩
    · rcases List.mem_append.mp hentry with hentry | hentry
      · have hmapped := h.mapped entry hentry hremoved
        have hne : entry.element ≠ x := by
          rintro rfl
          rw [hx] at hmapped
          cases hmapped
        exact (Function.update_of_ne hne _ _).trans hmapped
      · obtain rfl := List.mem_singleton.mp hentry
        exact Function.update_self ..
    · rcases List.mem_append.mp hentry with hentry | hentry
      · exact (Function.update_of_ne (hfresh hout entry hentry hremoved) _ _).trans
          (h.apart entry hentry hremoved)
      · obtain rfl := List.mem_singleton.mp hentry
        cases hremoved

/-- Taking the front element out. -/
lemma Stored.popFront {q : RandomAccessQueue α} (h : q.Stored) : q.popFront.Stored := by
  unfold RandomAccessQueue.popFront
  cases hq : q.queue with
  | nil => exact h
  | cons entry es =>
    have hnodup := h.nodup
    rw [hq, List.map_cons, List.nodup_cons] at hnodup
    refine stored_prune hnodup.2
      (fun e he => h.known e (by rw [hq]; exact List.mem_cons_of_mem _ he)) fun x address hx => ?_
    by_cases hne : x = entry.element
    · subst hne
      simp at hx
    · rw [Function.update_of_ne hne] at hx
      have hmem := h.live x address hx
      rw [hq, List.mem_cons] at hmem
      rcases hmem with rfl | hmem
      · exact absurd rfl hne
      · exact hmem

/-- **Taking the front element out** leaves the others. -/
lemma Stored.elements_popFront {q : RandomAccessQueue α} (h : q.Stored) :
    q.popFront.elements = q.elements.tail := by
  unfold RandomAccessQueue.popFront
  cases hq : q.queue with
  | nil =>
    have hnil : q.elements = [] := by simp [elements, hq]
    rw [hnil]
    rfl
  | cons entry es =>
    have hfront : entry.removed = false := h.front entry (by rw [hq]; rfl)
    refine (elements_prune _ _ _).trans ?_
    rw [elements, hq, List.filter_cons_of_pos (by simp [hfront])]
    rfl

/-- A queue stays tidy when its front element is taken out. -/
lemma Tidy.popFront {q : RandomAccessQueue α} (h : q.Tidy) : q.popFront.Tidy := by
  unfold RandomAccessQueue.popFront
  cases hq : q.queue with
  | nil => exact h
  | cons entry es =>
    have hfront : entry.removed = false := h.front entry (by rw [hq]; rfl)
    have hnodup := h.nodup
    rw [hq, List.map_cons, List.nodup_cons] at hnodup
    have hmem : ∀ e ∈ es, e ∈ q.queue := fun e he => by rw [hq]; exact List.mem_cons_of_mem _ he
    have hhead := h.mapped entry (by rw [hq]; exact List.mem_cons_self) hfront
    have hother : ∀ e ∈ es, e.removed = false → e.element ≠ entry.element := by
      intro e he hremoved heq
      have hmapped := h.mapped e (hmem e he) hremoved
      rw [heq, hhead] at hmapped
      exact hnodup.1 (List.mem_map.mpr ⟨e, he, (Option.some.inj hmapped).symm⟩)
    refine tidy_prune hnodup.2 (fun e he => h.known e (hmem e he)) (fun x address hx => ?_)
      (fun e he hremoved => (Function.update_of_ne (hother e he hremoved) _ _).trans
        (h.mapped e (hmem e he) hremoved)) (fun e he hremoved => ?_)
    · by_cases hne : x = entry.element
      · subst hne
        simp at hx
      · rw [Function.update_of_ne hne] at hx
        have hlive := h.live x address hx
        rw [hq, List.mem_cons] at hlive
        rcases hlive with rfl | hlive
        · exact absurd rfl hne
        · exact hlive
    · rw [Function.update_apply]
      split_ifs
      · rfl
      · exact h.apart e (hmem e he) hremoved

omit [DecidableEq α] in
@[simp] lemma setRemoved_address (address : ℕ) (entry : QueueEntry α) :
    (setRemoved address entry).address = entry.address := by
  unfold setRemoved
  split_ifs <;> rfl

omit [DecidableEq α] in
@[simp] lemma setRemoved_element (address : ℕ) (entry : QueueEntry α) :
    (setRemoved address entry).element = entry.element := by
  unfold setRemoved
  split_ifs <;> rfl

omit [DecidableEq α] in
@[simp] lemma setRemoved_removed (address : ℕ) (entry : QueueEntry α) :
    (setRemoved address entry).removed = (entry.removed || entry.address = address) := by
  unfold setRemoved
  split_ifs with h <;> simp [h]

omit [DecidableEq α] in
/-- Marking entries as removed moves none of them. -/
lemma map_setRemoved (address : ℕ) (es : List (QueueEntry α)) :
    (es.map (setRemoved address)).map QueueEntry.address = es.map QueueEntry.address := by
  rw [List.map_map]
  exact List.map_congr_left fun entry _ => setRemoved_address address entry

omit [DecidableEq α] in
/-- What is marked was there, and what was there is marked if it is at the address. -/
lemma mem_map_setRemoved {address : ℕ} {es : List (QueueEntry α)} {entry : QueueEntry α} :
    entry ∈ es.map (setRemoved address) ↔
      entry ∈ es ∧ entry.address ≠ address ∨
        ∃ e ∈ es, e.address = address ∧ entry = { e with removed := true } := by
  rw [List.mem_map]
  constructor
  · rintro ⟨e, he, rfl⟩
    unfold setRemoved
    split_ifs with haddress
    · exact Or.inr ⟨e, he, haddress, rfl⟩
    · exact Or.inl ⟨he, haddress⟩
  · rintro (⟨hentry, haddress⟩ | ⟨e, he, haddress, rfl⟩)
    · exact ⟨entry, hentry, if_neg haddress⟩
    · exact ⟨e, he, if_pos haddress⟩

/-- What the map has for the other elements is stored after an element is marked as removed. -/
lemma Stored.live_setRemoved {q : RandomAccessQueue α} (h : q.Stored) {x : α} {address : ℕ}
    (hx : q.queueEntriesByElement x = some address) (y : α) (a : ℕ)
    (hy : Function.update q.queueEntriesByElement x none y = some a) :
    ⟨a, y, false⟩ ∈ q.queue.map (setRemoved address) := by
  by_cases hne : y = x
  · subst hne
    simp at hy
  · rw [Function.update_of_ne hne] at hy
    refine mem_map_setRemoved.mpr (Or.inl ⟨h.live y a hy, fun haddress => hne ?_⟩)
    have heq := h.eq_of_address (h.live y a hy) (h.live x address hx) haddress
    exact congrArg QueueEntry.element heq

/-- Removing an element. -/
lemma Stored.remove {q : RandomAccessQueue α} (h : q.Stored) (x : α) : (q.remove x).1.Stored := by
  unfold RandomAccessQueue.remove
  cases hx : q.queueEntriesByElement x with
  | none => exact h
  | some address =>
    refine stored_prune ?_ ?_ (h.live_setRemoved hx)
    · rw [map_setRemoved]
      exact h.nodup
    · intro entry hentry
      rcases mem_map_setRemoved.mp hentry with ⟨hentry, -⟩ | ⟨e, he, -, rfl⟩
      · exact h.known entry hentry
      · exact h.known e he

/-- An element is found if it is in the queue. -/
lemma remove_snd (q : RandomAccessQueue α) (x : α) : (q.remove x).2 = q.contains x := by
  unfold RandomAccessQueue.remove contains
  cases q.queueEntriesByElement x <;> rfl

/-- The elements after one is marked as removed. -/
lemma elements_remove {q : RandomAccessQueue α} {x : α} {address : ℕ}
    (hx : q.queueEntriesByElement x = some address) : (q.remove x).1.elements =
      (q.queue.filter fun entry => !(entry.removed || entry.address = address)).map
        QueueEntry.element := by
  unfold RandomAccessQueue.remove
  simp only [hx]
  rw [elements_prune, List.filter_map, List.map_map]
  have helement : QueueEntry.element ∘ setRemoved address = (QueueEntry.element : _ → α) := by
    funext entry
    exact setRemoved_element address entry
  have hlive : (fun entry : QueueEntry α => !entry.removed) ∘ setRemoved address =
      fun entry => !(entry.removed || entry.address = address) := by
    funext entry
    exact congrArg _ (setRemoved_removed address entry)
  rw [helement, hlive]

/-- **Removing an element** takes no other one out, and adds none. -/
lemma Stored.remove_spec {q : RandomAccessQueue α} (h : q.Stored) (x : α) :
    (q.remove x).1.elements.Sublist q.elements ∧
      ∀ y ∈ q.elements, y ≠ x → y ∈ (q.remove x).1.elements := by
  cases hx : q.queueEntriesByElement x with
  | none =>
    have hsame : (q.remove x).1 = q := by simp only [RandomAccessQueue.remove, hx]
    rw [hsame]
    exact ⟨List.Sublist.refl _, fun y hy _ => hy⟩
  | some address =>
    rw [elements_remove hx]
    refine ⟨List.Sublist.map _ (List.monotone_filter_right _ fun entry hentry => ?_),
      fun y hy hne => ?_⟩
    · simp only [Bool.not_eq_true', Bool.or_eq_false_iff] at hentry
      simp [hentry.1]
    · obtain ⟨entry, hentry, hremoved, rfl⟩ := mem_elements.mp hy
      refine List.mem_map.mpr ⟨entry, List.mem_filter.mpr ⟨hentry, ?_⟩, rfl⟩
      have haddress : entry.address ≠ address := by
        intro haddress
        have heq := h.eq_of_address hentry (h.live x address hx) haddress
        exact hne (congrArg QueueEntry.element heq)
      simp [hremoved, haddress]

/-- A queue stays tidy when an element is removed, which then is not in it. -/
lemma Tidy.remove {q : RandomAccessQueue α} (h : q.Tidy) (x : α) :
    (q.remove x).1.Tidy ∧ (q.remove x).1.elements = q.elements.erase x := by
  cases hx : q.queueEntriesByElement x with
  | none =>
    have hsame : (q.remove x).1 = q := by simp only [RandomAccessQueue.remove, hx]
    rw [hsame]
    refine ⟨h, (List.erase_of_not_mem fun hmem => ?_).symm⟩
    have hin := h.contains_iff.mpr hmem
    rw [contains, hx] at hin
    cases hin
  | some address =>
    have helement : ∀ entry ∈ q.queue, entry.removed = false →
        (entry.address = address ↔ entry.element = x) := by
      intro entry hentry hremoved
      have hmapped := h.mapped entry hentry hremoved
      constructor
      · intro haddress
        exact congrArg QueueEntry.element
          (h.eq_of_address hentry (h.live x address hx) haddress)
      · rintro rfl
        exact Option.some.inj (hmapped.symm.trans hx)
    constructor
    · simp only [RandomAccessQueue.remove, hx]
      refine tidy_prune (by rw [map_setRemoved]; exact h.nodup) (fun entry hentry => ?_)
        (h.live_setRemoved hx) (fun entry hentry hremoved => ?_) (fun entry hentry hremoved => ?_)
      · rcases mem_map_setRemoved.mp hentry with ⟨hentry, -⟩ | ⟨e, he, -, rfl⟩
        · exact h.known entry hentry
        · exact h.known e he
      · rcases mem_map_setRemoved.mp hentry with ⟨hentry, haddress⟩ | ⟨e, -, -, rfl⟩
        · have hne : entry.element ≠ x := fun hsame =>
            haddress ((helement entry hentry hremoved).mpr hsame)
          exact (Function.update_of_ne hne _ _).trans (h.mapped entry hentry hremoved)
        · cases hremoved
      · rcases mem_map_setRemoved.mp hentry with ⟨hentry, haddress⟩ | ⟨e, he, haddress, rfl⟩
        · rw [Function.update_apply]
          split_ifs
          · rfl
          · exact h.apart entry hentry hremoved
        · have heq := h.eq_of_address he (h.live x address hx) haddress
          rw [heq]
          exact Function.update_self ..
    · rw [elements_remove hx, h.nodup_elements.erase_eq_filter, elements, List.filter_map,
        List.filter_filter]
      congr 1
      refine List.filter_congr fun entry hentry => ?_
      cases hremoved : entry.removed with
      | true => simp
      | false =>
        rw [Bool.eq_iff_iff]
        simp [helement entry hentry hremoved]

/-! ## Runs -/

/-- The operations that change a queue. -/
inductive Op (α : Type*)
  | pushBack (element : α)
  | popFront
  | remove (element : α)

/-- What an operation does to the queue. -/
def exec (q : RandomAccessQueue α) : Op α → RandomAccessQueue α
  | .pushBack element => (q.pushBack element).1
  | .popFront => q.popFront
  | .remove element => (q.remove element).1

/-- What it does to a list of different elements. -/
def QueueSpec.exec (l : List α) : Op α → List α
  | .pushBack element => if element ∈ l then l else l ++ [element]
  | .popFront => l.tail
  | .remove element => l.erase element

/-- The queue answers every question as the list does. -/
structure Answers (q : RandomAccessQueue α) (l : List α) : Prop where
  elements : q.elements = l
  front : q.front = .ok l.head?
  empty : q.empty = l.isEmpty
  contains : ∀ x, q.contains x = decide (x ∈ l)
  pushBack : ∀ x, (q.pushBack x).2 = decide (x ∉ l)
  remove : ∀ x, (q.remove x).2 = decide (x ∈ l)

/-- No element is added while its removed entry is stored. -/
def AddsFresh (ops : List (Op α)) : Prop :=
  ∀ pre x post, ops = pre ++ .pushBack x :: post → (pre.foldl exec (create α)).Fresh x

/-- Whatever is done to a queue, the front is not marked as removed. -/
lemma stored_run (ops : List (Op α)) : (ops.foldl exec (create α)).Stored := by
  induction ops using List.reverseRecOn with
  | nil => exact tidy_create.toStored
  | append_singleton ops op ih =>
    rw [List.foldl_append]
    cases op with
    | pushBack element => exact ih.pushBack element
    | popFront => exact ih.popFront
    | remove element => exact ih.remove element

/-- Doing nothing adds nothing. -/
lemma addsFresh_nil : AddsFresh ([] : List (Op α)) := by
  intro pre x post h
  simp at h

/-- What holds of a run holds of its beginnings. -/
lemma AddsFresh.of_prefix {ops pre : List (Op α)} (h : AddsFresh ops) (hpre : pre <+: ops) :
    AddsFresh pre := by
  obtain ⟨rest, rfl⟩ := hpre
  rintro before x after rfl
  exact h before x (after ++ rest) (by simp)

/-- One more operation, which adds an element only if its removed entry is gone. -/
lemma AddsFresh.append_singleton {ops : List (Op α)} {op : Op α} (h : AddsFresh ops)
    (hop : ∀ x, op = .pushBack x → (ops.foldl exec (create α)).Fresh x) :
    AddsFresh (ops ++ [op]) := by
  intro pre x post heq
  rcases List.eq_nil_or_concat post with rfl | ⟨post, last, rfl⟩
  · obtain ⟨rfl, hlast⟩ := List.append_inj' heq rfl
    exact hop x (List.cons.inj hlast).1
  · have hlast : ops ++ [op] = (pre ++ .pushBack x :: post) ++ [last] := by
      rw [heq]
      simp
    exact h pre x post (List.append_inj' hlast rfl).1

/-- Taking elements out adds none. -/
lemma AddsFresh.append_popFront {ops : List (Op α)} (h : AddsFresh ops) (n : ℕ) :
    AddsFresh (ops ++ List.replicate n .popFront) := by
  induction n with
  | zero => simpa using h
  | succ n ih =>
    rw [List.replicate_succ', ← List.append_assoc]
    exact ih.append_singleton fun x hx => (by cases hx)

/-- A queue in which no element was added while its removed entry is stored is tidy, and has the
elements of the list. -/
lemma tidy_run {ops : List (Op α)} (hops : AddsFresh ops) :
    (ops.foldl exec (create α)).Tidy ∧
      (ops.foldl exec (create α)).elements = ops.foldl QueueSpec.exec [] := by
  induction ops using List.reverseRecOn with
  | nil => exact ⟨tidy_create, rfl⟩
  | append_singleton ops op ih =>
    have hpre : AddsFresh ops := by
      rintro pre x post rfl
      exact hops pre x (post ++ [op]) (by simp)
    obtain ⟨htidy, helements⟩ := ih hpre
    rw [List.foldl_append, List.foldl_append]
    cases op with
    | pushBack element =>
      refine ⟨htidy.pushBack (hops ops element [] rfl), ?_⟩
      refine (pushBack_spec _ element).2.trans ?_
      simp only [htidy.contains_iff, helements]
      rfl
    | popFront =>
      exact ⟨htidy.popFront, htidy.elements_popFront.trans (by rw [helements]; rfl)⟩
    | remove element =>
      obtain ⟨htidy', helements'⟩ := htidy.remove element
      exact ⟨htidy', helements'.trans (by rw [helements]; rfl)⟩

/-- A tidy queue answers as the list of its elements does. -/
lemma Tidy.answers {q : RandomAccessQueue α} (h : q.Tidy) : q.Answers q.elements := by
  have hcontains : ∀ x, q.contains x = decide (x ∈ q.elements) := by
    intro x
    rw [Bool.eq_iff_iff, decide_eq_true_iff]
    exact h.contains_iff
  refine ⟨rfl, h.front_eq, h.empty_eq, hcontains, fun x => ?_, fun x => ?_⟩
  · rw [(pushBack_spec q x).1, hcontains, decide_not]
  · rw [remove_snd, hcontains]

/-- **How a queue forgets an element**: when it is emptied, the removed entry in front of a present
one takes what the map has for their element with it. -/
lemma Stored.forgets {q : RandomAccessQueue α} (h : q.Stored) {pre post : List (QueueEntry α)}
    {gone entry : QueueEntry α} (hq : q.queue = pre ++ gone :: post) (hgone : gone.removed = true)
    (hentry : entry ∈ post) (hlive : entry.removed = false) (heq : entry.element = gone.element) :
    ∃ n, gone.element ∈ ((List.replicate n Op.popFront).foldl exec q).elements ∧
      ((List.replicate n Op.popFront).foldl exec q).contains gone.element = false := by
  induction hlen : pre.length using Nat.strongRecOn generalizing q pre with
  | _ len ih =>
    cases pre with
    | nil =>
      have hfront := h.front gone (by rw [hq]; rfl)
      rw [hgone] at hfront
      cases hfront
    | cons first pre =>
      have hpop : q.popFront = pruneLeadingQueueEntries q.nextAddress (pre ++ gone :: post)
          (Function.update q.queueEntriesByElement first.element none) := by
        unfold RandomAccessQueue.popFront
        rw [hq]
        rfl
      obtain ⟨dropped, hes, hdropped, hmap, -, -⟩ := prune_spec q.nextAddress (pre ++ gone :: post)
        (Function.update q.queueEntriesByElement first.element none)
      rw [← hpop] at hes hmap
      rcases List.append_eq_append_iff.mp hes with ⟨between, hpre, hrest⟩ | ⟨between, hpre, hrest⟩
      · cases between with
        | nil =>
          have hqueue : q.popFront.queue = [] ++ gone :: post := hrest.symm
          obtain ⟨n, hn⟩ := ih 0 (by rw [← hlen]; exact Nat.succ_pos _) h.popFront hqueue rfl
          exact ⟨n + 1, hn⟩
        | cons e between =>
          obtain ⟨rfl, hpost⟩ := List.cons.inj hrest
          refine ⟨1, ?_, ?_⟩
          · subst hpost
            rcases List.mem_append.mp hentry with hentry | hentry
            · have hremoved := hdropped entry (by rw [hpre]; simp [hentry])
              rw [hlive] at hremoved
              cases hremoved
            · exact mem_elements.mpr ⟨entry, hentry, hlive, heq⟩
          · show q.popFront.contains gone.element = false
            rw [contains, hmap, if_pos (by rw [hpre]; simp)]
            rfl
      · have hshorter : between.length < len := by
          rw [← hlen, hpre, List.length_cons, List.length_append]
          omega
        obtain ⟨n, hn⟩ := ih between.length hshorter h.popFront hrest rfl
        exact ⟨n + 1, hn⟩

/-- **The queue does what a plain list does exactly if no element is added while its removed entry
is stored**: then, and only then, it answers as the list would after every operation, and also
while it is emptied at any point. Its front is an element that was not removed in any case.

**Proof sketch.** The one direction is the run lemma for tidy queues: taking elements out adds
none. For the other, an element that is added while its removed entry is stored has its new entry
behind that one. Emptying the queue drops the removed entry at the latest together with the entry
in front of it, and the map forgets the element while the new entry is still stored. -/
theorem refines_list_iff (ops : List (Op α)) :
    (∃ x, (ops.foldl exec (create α)).front = .ok x) ∧
    (AddsFresh ops ↔ ∀ pre n, pre <+: ops →
      Answers ((pre ++ List.replicate n Op.popFront).foldl exec (create α))
        ((pre ++ List.replicate n Op.popFront).foldl QueueSpec.exec [])) := by
  refine ⟨⟨_, (stored_run ops).front_eq⟩, fun hops pre n hpre => ?_, fun h => ?_⟩
  · obtain ⟨htidy, helements⟩ := tidy_run ((hops.of_prefix hpre).append_popFront n)
    rw [← helements]
    exact htidy.answers
  · induction ops using List.reverseRecOn with
    | nil => exact addsFresh_nil
    | append_singleton ops op ih =>
      have hops : AddsFresh ops := ih fun pre n hpre =>
        h pre n (hpre.trans (List.prefix_append ops [op]))
      refine hops.append_singleton ?_
      rintro x rfl hout gone hgone hremoved rfl
      obtain ⟨before, after, hq⟩ := List.append_of_mem hgone
      have hpush : ((ops ++ [Op.pushBack gone.element]).foldl exec (create α)).queue =
          before ++ gone :: (after ++ [⟨(ops.foldl exec (create α)).nextAddress, gone.element,
            false⟩]) := by
        rw [List.foldl_append]
        show ((ops.foldl exec (create α)).pushBack gone.element).1.queue = _
        rw [contains, Option.isSome_eq_false_iff, Option.isNone_iff_eq_none] at hout
        simp [RandomAccessQueue.pushBack, hout, hq]
      obtain ⟨n, hstored, hdenied⟩ := (stored_run (ops ++ [Op.pushBack gone.element])).forgets hpush
        hremoved (List.mem_append_right _ List.mem_cons_self) rfl rfl
      rw [← List.foldl_append] at hstored hdenied
      have hanswers := h _ n (List.prefix_refl _)
      rw [hanswers.contains, ← hanswers.elements, decide_eq_false_iff_not] at hdenied
      exact hdenied hstored

/-- An element is added again behind its removed entry, and the one in front is taken out. -/
example :
    let q := [.pushBack 0, .pushBack 1, .remove 1, .pushBack 1, .popFront].foldl exec (create ℕ)
    q.elements = [1] ∧ q.contains 1 = false := by decide

end RandomAccessQueue

end AntViewer.Firestore
