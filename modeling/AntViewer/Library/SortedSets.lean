import Mathlib.Data.Finset.Card
import Mathlib.Data.List.Sort
import Mathlib.Tactic.Common

set_option relaxedAutoImplicit false
set_option autoImplicit false

/-!
# Keyed elements in a sorted set

Elements that carry keys are compared by a function that never finds two elements with different
keys equal. A `SortedSet` holds at most one element for each key, in increasing order; its
invariant is part of the type. Such a set is determined by what it has under each key, so
operations on it are compared by their effect on lookups.

## Main definitions

* `SortedSets.Ranking` — keys and a comparison that separates them.
* `Ranking.byKey`, `comap`, `reverse`, `after` — ways to compare.
* `SortedSets.SortedSet` — the elements in increasing order, at most one for each key.
* `SortedSet.get?`, `insert`, `erase`, `indexOf`, `first`, `last` — the operations.

## Main results

* `SortedSet.ext_get?` — two sets with the same elements under each key are equal.
* `SortedSet.elements_erase`, `SortedSet.elements_insert` — erasing and inserting are editing the
  list of the elements at the index of the element.
-/

namespace SortedSets

/-- Elements with keys and a comparison in which elements with different keys differ. -/
structure Ranking (κ ε : Type*) where
  key : ε → κ
  cmp : ε → ε → Ordering
  trans : Std.TransCmp cmp
  separates : ∀ a b, cmp a b = .eq → key a = key b

variable {κ ε : Type*} {r : Ranking κ ε}

instance (r : Ranking κ ε) : Std.TransCmp r.cmp := r.trans

/-- The first element comes before the second one. -/
def Ranking.Lt (r : Ranking κ ε) (a b : ε) : Prop := r.cmp a b = .lt

instance (r : Ranking κ ε) : DecidableRel r.Lt :=
  fun a b => inferInstanceAs (Decidable (r.cmp a b = .lt))

namespace Ranking

lemma lt_irrefl (a : ε) : ¬ r.Lt a a := by
  have h : r.cmp a a = .eq := Std.ReflCmp.compare_self
  simp [Lt, h]

lemma lt_trans {a b c : ε} (hab : r.Lt a b) (hbc : r.Lt b c) : r.Lt a c :=
  Std.TransCmp.lt_trans hab hbc

lemma lt_asymm {a b : ε} (hab : r.Lt a b) : ¬ r.Lt b a :=
  fun hba => r.lt_irrefl a (r.lt_trans hab hba)

lemma gt_iff_lt {a b : ε} : r.cmp a b = .gt ↔ r.Lt b a := Std.OrientedCmp.gt_iff_lt

/-- An element that is not after another one comes before whatever the other one is before. -/
lemma lt_of_not_lt_of_lt {a b c : ε} (hab : ¬ r.Lt b a) (hbc : r.Lt b c) : r.Lt a c := by
  cases hcmp : r.cmp a b with
  | lt => exact r.lt_trans hcmp hbc
  | eq => exact Std.TransCmp.lt_of_eq_of_lt hcmp hbc
  | gt => exact absurd (r.gt_iff_lt.mp hcmp) hab

/-- Of two elements with different keys one comes before the other. -/
lemma lt_or_lt {a b : ε} (h : r.key a ≠ r.key b) : r.Lt a b ∨ r.Lt b a := by
  cases hcmp : r.cmp a b with
  | lt => exact Or.inl hcmp
  | eq => exact absurd (r.separates a b hcmp) h
  | gt => exact Or.inr (r.gt_iff_lt.mp hcmp)

/-- Comparing elements by their keys. -/
def byKey [LinearOrder κ] (key : ε → κ) : Ranking κ ε where
  key := key
  cmp a b := compare (key a) (key b)
  trans :=
    { eq_swap := Std.OrientedCmp.eq_swap
      isLE_trans := Std.TransCmp.isLE_trans }
  separates _ _ h := Std.LawfulEqCmp.eq_of_compare h

/-- Comparing by what a function makes of the elements. -/
def comap {ε' : Type*} (r : Ranking κ ε) (f : ε' → ε) : Ranking κ ε' where
  key a := r.key (f a)
  cmp a b := r.cmp (f a) (f b)
  trans :=
    { eq_swap := Std.OrientedCmp.eq_swap
      isLE_trans := Std.TransCmp.isLE_trans }
  separates a b := r.separates (f a) (f b)

/-- Comparing the other way around. -/
def reverse (r : Ranking κ ε) : Ranking κ ε where
  key := r.key
  cmp a b := r.cmp b a
  trans := inferInstance
  separates a b h := (r.separates b a h).symm

/-- Comparing first by another comparison. -/
def after (r : Ranking κ ε) (cmp : ε → ε → Ordering) [Std.TransCmp cmp] : Ranking κ ε where
  key := r.key
  cmp := compareLex cmp r.cmp
  trans := inferInstance
  separates a b h := by
    rw [compareLex, Ordering.then_eq_eq] at h
    exact r.separates a b h.2

end Ranking

/-- A set of elements in increasing order, with at most one element for each key. -/
structure SortedSet (r : Ranking κ ε) where
  elements : List ε
  sorted : elements.Pairwise r.Lt
  nodup : (elements.map r.key).Nodup

namespace SortedSet

/-- Two elements of a set with the same key are the same. -/
lemma eq_of_key {s : SortedSet r} {a b : ε} (ha : a ∈ s.elements) (hb : b ∈ s.elements)
    (h : r.key a = r.key b) : a = b :=
  List.inj_on_of_nodup_map s.nodup ha hb h

/-- The empty set. -/
def empty (r : Ranking κ ε) : SortedSet r := ⟨[], List.Pairwise.nil, List.nodup_nil⟩

/-- The number of elements. -/
def size (s : SortedSet r) : ℕ := s.elements.length

/-- The least element. -/
def first (s : SortedSet r) : Option ε := s.elements.head?

/-- The greatest element. -/
def last (s : SortedSet r) : Option ε := s.elements.getLast?

@[simp] lemma elements_empty : (empty r).elements = [] := rfl

@[simp] lemma size_empty : (empty r).size = 0 := rfl

/-- The last element comes after all others. -/
lemma lt_last {s : SortedSet r} {a b : ε} (ha : s.last = some a) (hb : b ∈ s.elements)
    (hne : b ≠ a) : r.Lt b a := by
  obtain ⟨init, hinit⟩ := List.getLast?_eq_some_iff.mp ha
  have hsorted := s.sorted
  rw [hinit, List.pairwise_append] at hsorted
  rw [hinit, List.mem_append, List.mem_singleton] at hb
  exact hsorted.2.2 b (hb.resolve_right hne) a (List.mem_singleton.mpr rfl)

/-- The first element comes before all others. -/
lemma first_lt {s : SortedSet r} {a b : ε} (ha : s.first = some a) (hb : b ∈ s.elements)
    (hne : b ≠ a) : r.Lt a b := by
  obtain ⟨tail, htail⟩ := List.head?_eq_some_iff.mp ha
  have hsorted := s.sorted
  rw [htail, List.pairwise_cons] at hsorted
  rw [htail, List.mem_cons] at hb
  exact hsorted.1 b (hb.resolve_left hne)

lemma mem_of_last {s : SortedSet r} {a : ε} (h : s.last = some a) : a ∈ s.elements :=
  List.mem_of_getLast? h

lemma mem_of_first {s : SortedSet r} {a : ε} (h : s.first = some a) : a ∈ s.elements :=
  List.mem_of_head? h

/-- Inserting into a sorted list an element that differs in order from all of it. -/
lemma pairwise_orderedInsert {l : List ε} {a : ε} (hl : l.Pairwise r.Lt)
    (h : ∀ b ∈ l, r.Lt a b ∨ r.Lt b a) : (l.orderedInsert r.Lt a).Pairwise r.Lt := by
  induction l with
  | nil => simp
  | cons b l ih =>
    rw [List.pairwise_cons] at hl
    rw [List.orderedInsert_cons]
    by_cases hab : r.Lt a b
    · rw [if_pos hab, List.pairwise_cons]
      refine ⟨?_, List.pairwise_cons.mpr hl⟩
      intro c hc
      rcases List.mem_cons.mp hc with rfl | hc
      · exact hab
      · exact r.lt_trans hab (hl.1 c hc)
    · rw [if_neg hab, List.pairwise_cons]
      refine ⟨?_, ih hl.2 fun c hc => h c (List.mem_cons_of_mem b hc)⟩
      intro c hc
      rcases List.mem_orderedInsert _ |>.mp hc with rfl | hc
      · exact (h b List.mem_cons_self).resolve_left hab
      · exact hl.1 c hc

/-! ### Lookups, erasing and inserting -/

variable [DecidableEq κ]

/-- The element with a key, if there is one. -/
def get? (s : SortedSet r) (k : κ) : Option ε := s.elements.find? fun a => r.key a = k

/-- The position of the element with a key. -/
def indexOf (s : SortedSet r) (k : κ) : Option ℕ := s.elements.findIdx? fun a => r.key a = k

/-- The set without the element that has the given key. -/
def erase (s : SortedSet r) (k : κ) : SortedSet r where
  elements := s.elements.filter fun a => r.key a ≠ k
  sorted := s.sorted.filter _
  nodup := s.nodup.sublist (List.filter_sublist.map _)

@[simp] lemma get?_empty (k : κ) : (empty r).get? k = none := rfl

lemma get?_eq_some_iff {s : SortedSet r} {k : κ} {a : ε} :
    s.get? k = some a ↔ a ∈ s.elements ∧ r.key a = k := by
  constructor
  · intro h
    exact ⟨List.mem_of_find?_eq_some h, by simpa using List.find?_some h⟩
  · rintro ⟨ha, rfl⟩
    cases h : s.get? (r.key a) with
    | none =>
      have hne := List.find?_eq_none.mp h a ha
      simp at hne
    | some b =>
      have hb : r.key b = r.key a := by simpa using List.find?_some h
      rw [s.eq_of_key (List.mem_of_find?_eq_some h) ha hb]

lemma key_of_get? {s : SortedSet r} {k : κ} {a : ε} (h : s.get? k = some a) : r.key a = k :=
  (get?_eq_some_iff.mp h).2

lemma mem_of_get? {s : SortedSet r} {k : κ} {a : ε} (h : s.get? k = some a) : a ∈ s.elements :=
  (get?_eq_some_iff.mp h).1

lemma get?_key {s : SortedSet r} {a : ε} (h : a ∈ s.elements) : s.get? (r.key a) = some a :=
  get?_eq_some_iff.mpr ⟨h, rfl⟩

lemma get?_eq_none_iff {s : SortedSet r} {k : κ} :
    s.get? k = none ↔ ∀ a ∈ s.elements, r.key a ≠ k := by
  simp [get?, List.find?_eq_none]

lemma mem_erase {s : SortedSet r} {k : κ} {a : ε} :
    a ∈ (s.erase k).elements ↔ a ∈ s.elements ∧ r.key a ≠ k := by
  simp [erase, List.mem_filter]

/-- Erasing a key leaves the other keys alone. -/
lemma get?_erase (s : SortedSet r) (k k' : κ) :
    (s.erase k).get? k' = if k' = k then none else s.get? k' := by
  ext a
  rw [get?_eq_some_iff, mem_erase]
  by_cases hk : k' = k
  · subst hk
    simp only [if_pos, reduceCtorEq, iff_false]
    exact fun h => h.1.2 h.2
  · rw [if_neg hk, get?_eq_some_iff]
    constructor
    · exact fun h => ⟨h.1.1, h.2⟩
    · exact fun h => ⟨⟨h.1, fun heq => hk (h.2.symm.trans heq)⟩, h.2⟩

/-- The set with an element in place of the one with the same key. -/
def insert (s : SortedSet r) (a : ε) : SortedSet r where
  elements := (s.erase (r.key a)).elements.orderedInsert r.Lt a
  sorted := pairwise_orderedInsert (s.erase (r.key a)).sorted fun b hb =>
    r.lt_or_lt fun h => (mem_erase.mp hb).2 h.symm
  nodup := by
    have hperm := ((s.erase (r.key a)).elements.perm_orderedInsert r.Lt a).map r.key
    rw [hperm.nodup_iff, List.map_cons, List.nodup_cons]
    refine ⟨?_, (s.erase (r.key a)).nodup⟩
    intro hmem
    obtain ⟨b, hb, hkey⟩ := List.mem_map.mp hmem
    exact (mem_erase.mp hb).2 hkey

lemma mem_insert {s : SortedSet r} {a b : ε} :
    b ∈ (s.insert a).elements ↔ b = a ∨ b ∈ s.elements ∧ r.key b ≠ r.key a := by
  rw [insert, List.mem_orderedInsert, mem_erase]

/-- Inserting an element leaves the other keys alone. -/
lemma get?_insert (s : SortedSet r) (a : ε) (k : κ) :
    (s.insert a).get? k = if k = r.key a then some a else s.get? k := by
  ext b
  rw [get?_eq_some_iff, mem_insert]
  by_cases hk : k = r.key a
  · subst hk
    rw [if_pos rfl]
    constructor
    · rintro ⟨rfl | ⟨-, hne⟩, hkey⟩
      · rfl
      · exact absurd hkey hne
    · rintro ⟨⟩
      exact ⟨Or.inl rfl, rfl⟩
  · rw [if_neg hk, get?_eq_some_iff]
    constructor
    · rintro ⟨rfl | ⟨hmem, -⟩, rfl⟩
      · exact absurd rfl hk
      · exact ⟨hmem, rfl⟩
    · rintro ⟨hmem, rfl⟩
      exact ⟨Or.inr ⟨hmem, hk⟩, rfl⟩

/-- **Extensionality**: two sets with the same elements under each key are equal. -/
theorem ext_get? {s t : SortedSet r} (h : ∀ k, s.get? k = t.get? k) : s = t := by
  have hmem : ∀ a, a ∈ s.elements ↔ a ∈ t.elements := by
    intro a
    have hs := get?_eq_some_iff (s := s) (k := r.key a) (a := a)
    have ht := get?_eq_some_iff (s := t) (k := r.key a) (a := a)
    simp only [and_true] at hs ht
    rw [← hs, ← ht, h]
  have hperm : s.elements.Perm t.elements :=
    (List.perm_ext_iff_of_nodup s.nodup.of_map t.nodup.of_map).mpr hmem
  have heq : s.elements = t.elements :=
    hperm.eq_of_pairwise (fun a b _ _ hab hba => absurd hba (r.lt_asymm hab)) s.sorted t.sorted
  obtain ⟨elements, _, _⟩ := s
  obtain ⟨elements', _, _⟩ := t
  subst heq
  rfl

/-! ### Images -/

/-- The images of the elements of a set that is sorted by what a function makes of them. -/
def map {ε' : Type*} {f : ε' → ε} (s : SortedSet (r.comap f)) : SortedSet r where
  elements := s.elements.map f
  sorted := List.pairwise_map.mpr s.sorted
  nodup := by
    rw [List.map_map]
    exact s.nodup

/-- The image under a key is the image of the element under that key. -/
lemma get?_map {ε' : Type*} {f : ε' → ε} (s : SortedSet (r.comap f)) (k : κ) :
    s.map.get? k = (s.get? k).map f := by
  simp only [get?, map, List.find?_map]
  rfl

/-! ### Keys and sizes -/

/-- The keys of the elements. -/
def keys (s : SortedSet r) : Finset κ := (s.elements.map r.key).toFinset

lemma mem_keys {s : SortedSet r} {k : κ} : k ∈ s.keys ↔ (s.get? k).isSome := by
  rw [keys, List.mem_toFinset, List.mem_map, Option.isSome_iff_exists]
  simp only [get?_eq_some_iff]

lemma card_keys (s : SortedSet r) : s.keys.card = s.size := by
  rw [keys, List.toFinset_card_of_nodup s.nodup, List.length_map, size]

/-- Erasing a key that is there makes the set smaller by one. -/
lemma size_erase {s : SortedSet r} {a : ε} (h : a ∈ s.elements) :
    (s.erase (r.key a)).size + 1 = s.size := by
  have hkeys : (s.erase (r.key a)).keys = s.keys.erase (r.key a) := by
    ext k
    rw [Finset.mem_erase, mem_keys, mem_keys, get?_erase]
    by_cases hk : k = r.key a <;> simp [hk]
  have hmem : r.key a ∈ s.keys := by
    rw [mem_keys, get?_key h]
    rfl
  rw [← card_keys, ← card_keys, hkeys]
  exact Finset.card_erase_add_one hmem

/-! ### Positions -/

/-- The position of a key in a list in which it occurs once. -/
private lemma findIdx?_split (pre post : List ε) (a : ε)
    (h : ∀ b ∈ pre, r.key b ≠ r.key a) :
    (pre ++ a :: post).findIdx? (fun b => decide (r.key b = r.key a)) = some pre.length := by
  have hpre : pre.findIdx? (fun b => decide (r.key b = r.key a)) = none := by
    simpa [List.findIdx?_eq_none_iff] using h
  simp [List.findIdx?_append, List.findIdx?_cons, hpre]

/-- A set that has an element is what comes before it, the element and what comes after it. -/
lemma split_of_mem {s : SortedSet r} {a : ε} (h : a ∈ s.elements) :
    ∃ pre post, s.elements = pre ++ a :: post ∧ s.indexOf (r.key a) = some pre.length ∧
      (s.erase (r.key a)).elements = pre ++ post := by
  obtain ⟨pre, post, hsplit⟩ := List.append_of_mem h
  have hnodup := s.nodup
  rw [hsplit, List.map_append, List.map_cons, List.nodup_append, List.nodup_cons] at hnodup
  obtain ⟨-, ⟨hpost, -⟩, hdisj⟩ := hnodup
  have hpre : ∀ b ∈ pre, r.key b ≠ r.key a := fun b hb =>
    hdisj _ (List.mem_map_of_mem hb) _ List.mem_cons_self
  have hpost : ∀ b ∈ post, r.key b ≠ r.key a := fun b hb heq =>
    hpost (heq ▸ List.mem_map_of_mem hb)
  refine ⟨pre, post, hsplit, ?_, ?_⟩
  · rw [indexOf, hsplit]
    exact findIdx?_split pre post a hpre
  · have hkeep : ∀ l : List ε, (∀ b ∈ l, r.key b ≠ r.key a) →
        l.filter (fun b => decide (r.key b ≠ r.key a)) = l := fun l hl =>
      List.filter_eq_self.mpr fun b hb => by simpa using hl b hb
    simp only [erase]
    rw [hsplit, List.filter_append, List.filter_cons, hkeep pre hpre, hkeep post hpost]
    simp

/-- A key that is not there has no position. -/
lemma indexOf_eq_none_iff {s : SortedSet r} {k : κ} : s.indexOf k = none ↔ s.get? k = none := by
  rw [get?_eq_none_iff, indexOf, List.findIdx?_eq_none_iff]
  simp

/-- **Erasing** an element is deleting it at its position. -/
theorem elements_erase {s : SortedSet r} {k : κ} {i : ℕ} (h : s.indexOf k = some i) :
    (s.erase k).elements = s.elements.eraseIdx i := by
  have hsome : (s.get? k).isSome := by
    rw [Option.isSome_iff_ne_none, ne_eq, ← indexOf_eq_none_iff, h]
    simp
  obtain ⟨a, ha⟩ := Option.isSome_iff_exists.mp hsome
  obtain rfl := key_of_get? ha
  obtain ⟨pre, post, hsplit, hindex, herase⟩ := split_of_mem (mem_of_get? ha)
  obtain rfl : pre.length = i := by simpa [hindex] using h
  rw [herase, hsplit, List.eraseIdx_append_of_length_le le_rfl]
  simp

/-- Putting an element between two parts of a list. -/
private lemma insertIdx_split (pre post : List ε) (a : ε) :
    (pre ++ post).insertIdx pre.length a = pre ++ a :: post := by
  induction pre with
  | nil => rfl
  | cons b pre ih => simpa using ih

/-- **Inserting** an element is putting it at its position into the list without its key. -/
theorem elements_insert (s : SortedSet r) (a : ε) :
    ∃ i, (s.insert a).indexOf (r.key a) = some i ∧
      (s.insert a).elements = (s.erase (r.key a)).elements.insertIdx i a := by
  have hmem : a ∈ (s.insert a).elements := mem_insert.mpr (Or.inl rfl)
  obtain ⟨pre, post, hsplit, hindex, herase⟩ := split_of_mem hmem
  have hsame : (s.insert a).erase (r.key a) = s.erase (r.key a) := by
    apply ext_get?
    intro k
    rw [get?_erase, get?_erase, get?_insert]
    by_cases hk : k = r.key a <;> simp [hk]
  refine ⟨pre.length, hindex, ?_⟩
  rw [← hsame, herase, hsplit, insertIdx_split]

end SortedSet

end SortedSets
