import Mathlib

set_option relaxedAutoImplicit false
set_option autoImplicit false

/-!
# Keyed stores, last writes and tallies

A log of writes, each a key with a value, is kept in two ways. Abstractly it is the partial
function `Tally.lastWrite` that sends each key to the last value written under it. Concretely it
is a dictionary `Tally.store` in which every write replaces the entry of its key; keys and
values are encoded on the way in, the keys injectively. The two agree key by key
(`Tally.lookup_store`), so counting entries of the dictionary is counting writers
(`Tally.countP_store`).

The module also has the grouping of a list by a key (`Tally.grouping`), read back group by
group.

## Main definitions

* `Tally.lastWrite`, `Tally.writers` — the last value under a key, and the keys written to.
* `Tally.tally` — how many keys have a last value that satisfies a predicate.
* `Tally.store` — the dictionary that a log of writes leaves.
* `Tally.grouping` — the dictionary from each key to the elements of a list with that key.

## Main results

* `Tally.lookup_store`, `Tally.countP_store` — the dictionary agrees with the log.
* `Tally.sum_tally` — the tallies of the classes below a bound add up.
* `Tally.length_grouping` — the size of a group is a count over the list.
* `Tally.sum_countP` — counting a list class by class.
* `Tally.lastWrite_congr` — only the order of the writes of one key matters.
-/

namespace Tally

variable {α β γ κ ν : Type*}

/-! ## Last writes -/

section LastWrite

variable [DecidableEq κ]

/-- The last value the log writes under the key `k`. -/
def lastWrite (log : List (κ × ν)) (k : κ) : Option ν :=
  ((log.filter fun w => w.1 = k).getLast?).map Prod.snd

/-- The keys the log writes to. -/
def writers (log : List (κ × ν)) : Finset κ := (log.map Prod.fst).toFinset

/-- The number of keys whose last value satisfies `p`. -/
def tally (log : List (κ × ν)) (p : ν → Bool) : ℕ :=
  ((writers log).filter fun k => (lastWrite log k).any p = true).card

@[simp] lemma lastWrite_nil (k : κ) : lastWrite ([] : List (κ × ν)) k = none := rfl

/-- A further write changes the last value of its own key only. -/
lemma lastWrite_concat (log : List (κ × ν)) (w : κ × ν) (k : κ) :
    lastWrite (log ++ [w]) k = if w.1 = k then some w.2 else lastWrite log k := by
  unfold lastWrite
  by_cases h : w.1 = k <;> simp [List.filter_append, h]

/-- A key has a last value iff the log writes to it. -/
lemma lastWrite_isSome (log : List (κ × ν)) (k : κ) :
    (lastWrite log k).isSome ↔ k ∈ writers log := by
  simp [lastWrite, writers]

/-- Two logs with the same writes, in the same order, under the key `k` agree on its last
value; the order of the writes of different keys is irrelevant. -/
lemma lastWrite_congr {log log' : List (κ × ν)} {k : κ}
    (h : (log.filter fun w => w.1 = k) = log'.filter fun w => w.1 = k) :
    lastWrite log k = lastWrite log' k := by
  rw [lastWrite, lastWrite, h]

/-- The tally depends on the log only through its last values. -/
lemma tally_congr {log log' : List (κ × ν)} (h : ∀ k, lastWrite log k = lastWrite log' k)
    (p : ν → Bool) : tally log p = tally log' p := by
  have hw : writers log = writers log' := by
    ext k
    rw [← lastWrite_isSome, ← lastWrite_isSome, h]
  simp only [tally, hw, h]

/-- Keys whose last value satisfies one of two exclusive predicates are counted once. -/
lemma tally_or (log : List (κ × ν)) (p q : ν → Bool) (hpq : ∀ v, p v = true → q v = false) :
    tally log (fun v => p v || q v) = tally log p + tally log q := by
  unfold tally
  rw [← Finset.card_union_of_disjoint]
  · congr 1
    ext k
    simp only [Finset.mem_filter, Finset.mem_union, ← and_or_left]
    cases lastWrite log k <;> simp
  · rw [Finset.disjoint_filter]
    intro k _ hp
    cases hk : lastWrite log k with
    | none => simp
    | some v =>
      rw [hk, Option.any_some] at hp
      simp [hpq v hp]

/-- Summing the tallies of the classes `0, …, n - 1` counts the keys with a class among them. -/
lemma sum_tally (log : List (κ × ν)) (g : ν → ℤ) (n : ℕ) :
    ((List.range n).map fun i : ℕ => ((tally log fun v => g v = i : ℕ) : ℤ)).sum =
      tally log fun v => 0 ≤ g v ∧ g v < n := by
  induction n with
  | zero =>
    have hempty : (fun v => decide (0 ≤ g v ∧ g v < (0 : ℕ))) = fun _ => false := by
      funext v
      simp only [decide_eq_false_iff_not]
      omega
    rw [hempty]
    simp [tally]
  | succ n ih =>
    have hsplit : (fun v => decide (0 ≤ g v ∧ g v < (n + 1 : ℕ))) =
        fun v => decide (0 ≤ g v ∧ g v < n) || decide (g v = n) := by
      funext v
      rw [← Bool.decide_or, decide_eq_decide]
      push_cast
      omega
    rw [List.range_succ, List.map_append, List.sum_append, ih, hsplit, tally_or]
    · simp
    · intro v hv
      simp only [decide_eq_true_eq, decide_eq_false_iff_not] at hv ⊢
      omega

end LastWrite

/-! ## The dictionary a log leaves -/

section Store

variable [DecidableEq β] (c : κ → β) (enc : ν → γ)

/-- The dictionary left by a log of writes: each write replaces the entry of its key. -/
def store (log : List (κ × ν)) : AList fun _ : β => γ :=
  log.foldl (fun s w => s.insert (c w.1) (enc w.2)) ∅

@[simp] lemma store_nil : store c enc ([] : List (κ × ν)) = ∅ := rfl

lemma store_concat (log : List (κ × ν)) (w : κ × ν) :
    store c enc (log ++ [w]) = (store c enc log).insert (c w.1) (enc w.2) := by
  simp [store]

variable {c} [DecidableEq κ]

/-- **Last write wins**: the dictionary holds, under the code of a key, the code of the last
value written under that key. -/
lemma lookup_store (hc : Function.Injective c) (log : List (κ × ν)) (k : κ) :
    (store c enc log).lookup (c k) = (lastWrite log k).map enc := by
  induction log using List.reverseRecOn with
  | nil => simp
  | append_singleton log w ih =>
    rw [store_concat, lastWrite_concat]
    by_cases h : w.1 = k
    · subst h
      simp [AList.lookup_insert]
    · rw [AList.lookup_insert_ne fun hk => h (hc hk).symm, ih, if_neg h]

/-- Every key of the dictionary is the code of a key the log writes to. -/
lemma mem_store {log : List (κ × ν)} {x : β} (hx : x ∈ store c enc log) :
    ∃ k ∈ writers log, c k = x := by
  induction log using List.reverseRecOn with
  | nil => simp at hx
  | append_singleton log w ih =>
    rw [store_concat, AList.mem_insert] at hx
    rcases hx with rfl | hx
    · exact ⟨w.1, by simp [writers], rfl⟩
    · obtain ⟨k, hk, rfl⟩ := ih hx
      exact ⟨k, by simp [writers] at hk ⊢; exact Or.inr hk, rfl⟩

/-- **Counting entries is counting writers**: the entries of the dictionary whose value
satisfies `p` are as many as the keys whose last value does.

**Proof sketch.** The codes of the keys counted on the right and the keys of the entries
counted on the left are lists without repetitions, the first since the code is injective,
the second since a dictionary has one entry for each key. They have the same members by
`lookup_store` and `mem_store`, hence the same length. -/
theorem countP_store (hc : Function.Injective c) (log : List (κ × ν)) (p : γ → Bool) :
    (store c enc log).entries.countP (fun e => p e.2) = tally log fun v => p (enc v) := by
  classical
  set s := store c enc log with hs
  set K := (writers log).filter fun k => (lastWrite log k).any (fun v => p (enc v)) = true with hK
  have hleft : ((s.entries.filter fun e => p e.2).map Sigma.fst).Nodup :=
    (s.nodupKeys.sublist List.filter_sublist)
  have hright : (K.toList.map c).Nodup := K.nodup_toList.map hc
  have hmem : ∀ x, x ∈ (s.entries.filter fun e => p e.2).map Sigma.fst ↔ x ∈ K.toList.map c := by
    intro x
    simp only [List.mem_map, List.mem_filter, Sigma.exists, exists_and_right, exists_eq_right,
      Finset.mem_toList]
    constructor
    · rintro ⟨g, hg, hp⟩
      have hlook : s.lookup x = some g := AList.mem_lookup_iff.mpr hg
      obtain ⟨k, hk, rfl⟩ := mem_store enc (AList.lookup_isSome.mp (by rw [hlook]; rfl))
      rw [hs, lookup_store enc hc, Option.map_eq_some_iff] at hlook
      obtain ⟨v, hv, rfl⟩ := hlook
      exact ⟨k, Finset.mem_filter.mpr ⟨hk, by simp [hv, hp]⟩, rfl⟩
    · rintro ⟨k, hk, rfl⟩
      obtain ⟨-, hany⟩ := Finset.mem_filter.mp hk
      obtain ⟨v, hv, hp⟩ := (Option.any_eq_true _ _).mp hany
      exact ⟨enc v, AList.mem_lookup_iff.mp (by rw [hs, lookup_store enc hc, hv]; rfl), hp⟩
  have hperm := (List.perm_ext_iff_of_nodup hleft hright).mpr hmem
  rw [List.countP_eq_length_filter, tally, ← hK, ← Finset.length_toList]
  simpa using hperm.length_eq

end Store

/-! ## Grouping -/

section Grouping

variable [DecidableEq κ]

/-- The dictionary from each key to the elements of the list that have it, in their order. -/
def grouping (f : α → κ) (xs : List α) : AList fun _ : κ => List α :=
  xs.foldl (fun d x => d.insert (f x) ((d.lookup (f x)).getD [] ++ [x])) ∅

lemma grouping_concat (f : α → κ) (xs : List α) (x : α) :
    grouping f (xs ++ [x]) =
      (grouping f xs).insert (f x) (((grouping f xs).lookup (f x)).getD [] ++ [x]) := by
  simp [grouping]

/-- The group of a key, empty where the dictionary has none, is the sublist with that key. -/
lemma getD_grouping (f : α → κ) (xs : List α) (k : κ) :
    ((grouping f xs).lookup k).getD [] = xs.filter fun x => f x = k := by
  induction xs using List.reverseRecOn with
  | nil => simp [grouping]
  | append_singleton xs x ih =>
    rw [grouping_concat, List.filter_append]
    by_cases h : f x = k
    · subst h
      simp [AList.lookup_insert, ih]
    · rw [AList.lookup_insert_ne fun hk => h hk.symm, ih]
      simp [h]

/-- The size of a group, zero where there is none, counts the elements with its key. -/
lemma length_grouping (f : α → κ) (xs : List α) (k : κ) :
    (((grouping f xs).lookup k).map List.length).getD 0 = xs.countP fun x => f x = k := by
  have h := congrArg List.length (getD_grouping f xs k)
  rw [← List.countP_eq_length_filter] at h
  rw [← h]
  cases (grouping f xs).lookup k <;> rfl

end Grouping

/-! ## Counting by class -/

section Classes

/-- Two conditions that exclude each other are counted separately. -/
lemma countP_or {p q : α → Bool} (h : ∀ x, p x = true → q x = false) (xs : List α) :
    (xs.countP fun x => p x || q x) = xs.countP p + xs.countP q := by
  induction xs with
  | nil => rfl
  | cons x xs ih =>
    rw [List.countP_cons, List.countP_cons, List.countP_cons, ih]
    cases hp : p x with
    | false =>
      rw [Bool.false_or]
      simp only [Bool.false_eq_true, if_false]
      omega
    | true =>
      rw [h x hp]
      simp only [Bool.true_or, if_true, Bool.false_eq_true, if_false]
      omega

/-- Counting the elements of each of the classes `0, …, n - 1` counts those with a class among
them. -/
lemma sum_countP (g : α → Option ℤ) (xs : List α) (n : ℕ) :
    ((List.range n).map fun i : ℕ => ((xs.countP fun x => g x = some (i : ℤ) : ℕ) : ℤ)).sum =
      xs.countP fun x => ∃ i < n, g x = some (i : ℤ) := by
  induction n with
  | zero => simp
  | succ n ih =>
    have hsplit : (fun x => decide (∃ i < n + 1, g x = some (i : ℤ))) =
        fun x => decide (∃ i < n, g x = some (i : ℤ)) || decide (g x = some (n : ℤ)) := by
      funext x
      rw [← Bool.decide_or, decide_eq_decide, Nat.exists_lt_succ_right]
    rw [List.range_succ, List.map_append, List.sum_append, ih, hsplit, countP_or]
    · simp
    · intro x hx
      obtain ⟨i, hi, hg⟩ := of_decide_eq_true hx
      rw [hg, decide_eq_false_iff_not, Option.some_inj]
      omega

/-- The classes together have at most as many elements as the list. -/
lemma sum_countP_le (g : α → Option ℤ) (xs : List α) (n : ℕ) :
    ((List.range n).map fun i : ℕ => ((xs.countP fun x => g x = some (i : ℤ) : ℕ) : ℤ)).sum ≤
      xs.length := by
  rw [sum_countP]
  exact_mod_cast List.countP_le_length

end Classes

end Tally
