import Mathlib.Data.Finset.Union
import Mathlib.Data.List.Infix
import Mathlib.Tactic.Common

set_option relaxedAutoImplicit false
set_option autoImplicit false

/-!
# Nested maps

A nested map is a leaf, or a finite map from keys to nested maps. What is stored in it is found,
replaced and deleted along paths of keys. Replacing creates the maps that are missing on the way,
in place of leaves; deleting creates nothing. A path says nothing about another path unless one of
them begins the other.

## Main definitions

* `NestedMaps.Tree` — nested maps.
* `NestedMaps.Tree.get`, `set`, `delete` — the operations along a path.
* `NestedMaps.Tree.paths` — the paths to the leaves and to the empty maps.
* `NestedMaps.Tree.copy`, `copyAll` — making a tree agree with another one along paths.

## Main results

* `NestedMaps.Tree.get_set_append`, `get_set_of_apart` — what is found after a replacement.
* `NestedMaps.Tree.get_set_congr`, `get_delete_congr` — it depends on what was found there only.
* `NestedMaps.Tree.get_copyAll` — copying paths copies what they begin and nothing else.
* `NestedMaps.Tree.copyAll_congr` — in whatever order they are copied, and however often.
* `NestedMaps.Tree.copyAll_paths` — copying all paths of a map to an empty map copies the map.
-/

namespace NestedMaps

variable {κ α : Type*}

/-- A leaf, or a finite map from keys to trees. -/
inductive Tree (κ α : Type*)
  | leaf (a : α)
  | node (keys : Finset κ) (vals : {k // k ∈ keys} → Tree κ α)

/-- Neither of two paths begins the other. -/
def Apart (p q : List κ) : Prop := ¬ p <+: q ∧ ¬ q <+: p

lemma Apart.of_cons {k : κ} {p q : List κ} (h : Apart (k :: p) (k :: q)) : Apart p q := by
  unfold Apart at *
  simpa [List.cons_prefix_cons] using h

lemma Apart.symm {p q : List κ} (h : Apart p q) : Apart q p := ⟨h.2, h.1⟩

/-- Paths that begin with different keys are apart. -/
lemma apart_of_ne {k k' : κ} (h : k ≠ k') (p q : List κ) : Apart (k :: p) (k' :: q) := by
  unfold Apart
  simp [List.cons_prefix_cons, h, Ne.symm h]

/-- Of two paths, the first begins the second, or it leads further than the second, or they are
apart. -/
lemma path_cases (p q : List κ) :
    (∃ r, q = p ++ r) ∨ (∃ r, r ≠ [] ∧ p = q ++ r) ∨ Apart p q := by
  by_cases hpq : p <+: q
  · obtain ⟨r, rfl⟩ := hpq
    exact Or.inl ⟨r, rfl⟩
  · by_cases hqp : q <+: p
    · obtain ⟨r, rfl⟩ := hqp
      refine Or.inr (Or.inl ⟨r, ?_, rfl⟩)
      rintro rfl
      exact hpq (by simp)
    · exact Or.inr (Or.inr ⟨hpq, hqp⟩)

namespace Tree

/-- The map with no entries. -/
def empty (κ α : Type*) : Tree κ α := node ∅ fun k => absurd k.2 (Finset.notMem_empty _)

/-- Is it a map? -/
def isNode : Tree κ α → Bool
  | leaf _ => false
  | node _ _ => true

variable [DecidableEq κ]

/-- The entry of a map under a key; a leaf has no entries. -/
def child : Tree κ α → κ → Option (Tree κ α)
  | leaf _, _ => none
  | node keys vals, k => if h : k ∈ keys then some (vals ⟨k, h⟩) else none

/-- Two maps are the same if their entries are. -/
lemma ext_child {s t : Tree κ α} (hs : s.isNode = true) (ht : t.isNode = true)
    (h : ∀ k, s.child k = t.child k) : s = t := by
  cases s with
  | leaf a => cases hs
  | node keys vals =>
    cases t with
    | leaf a => cases ht
    | node keys' vals' =>
      have hkeys : keys = keys' := by
        ext k
        have hk := congrArg Option.isSome (h k)
        simp only [child] at hk
        by_cases h1 : k ∈ keys <;> by_cases h2 : k ∈ keys' <;> simp [h1, h2] at hk ⊢
      subst hkeys
      have hvals : vals = vals' := by
        funext k
        have hk := h k
        simp only [child, k.2, dif_pos, Option.some.injEq] at hk
        exact hk
      rw [hvals]

/-- The map with the entry of a key replaced; a leaf counts as an empty map. -/
def setChild : Tree κ α → κ → Tree κ α → Tree κ α
  | leaf _, k, t => node {k} fun _ => t
  | node keys vals, k, t => node (insert k keys) fun k' =>
      if h : k'.1 = k then t else vals ⟨k'.1, Finset.mem_of_mem_insert_of_ne k'.2 h⟩

/-- The map without the entry of a key. -/
def eraseChild : Tree κ α → κ → Tree κ α
  | leaf a, _ => leaf a
  | node keys vals, k => node (keys.erase k) fun k' => vals ⟨k'.1, Finset.mem_of_mem_erase k'.2⟩

omit [DecidableEq κ] in
@[simp] lemma isNode_empty : (empty κ α).isNode = true := rfl

@[simp] lemma isNode_setChild (t : Tree κ α) (k : κ) (s : Tree κ α) :
    (t.setChild k s).isNode = true := by
  cases t <;> rfl

@[simp] lemma isNode_eraseChild (t : Tree κ α) (k : κ) :
    (t.eraseChild k).isNode = t.isNode := by
  cases t <;> rfl

/-- Entries exist in maps only. -/
lemma isNode_of_child {t s : Tree κ α} {k : κ} (h : t.child k = some s) : t.isNode = true := by
  cases t with
  | leaf a => cases h
  | node keys vals => rfl

lemma child_setChild (t : Tree κ α) (k : κ) (s : Tree κ α) (k' : κ) :
    (t.setChild k s).child k' = if k' = k then some s else t.child k' := by
  cases t with
  | leaf a =>
    by_cases hk : k' = k
    · simp [setChild, child, hk]
    · simp [setChild, child, hk]
  | node keys vals =>
    by_cases hk : k' = k
    · simp [setChild, child, hk]
    · by_cases hmem : k' ∈ keys
      · simp [setChild, child, hk, hmem]
      · simp [setChild, child, hk, hmem]

lemma child_eraseChild (t : Tree κ α) (k k' : κ) :
    (t.eraseChild k).child k' = if k' = k then none else t.child k' := by
  cases t with
  | leaf a => simp [eraseChild, child]
  | node keys vals =>
    by_cases hk : k' = k
    · simp [eraseChild, child, hk]
    · by_cases hmem : k' ∈ keys
      · simp [eraseChild, child, hk, hmem]
      · simp [eraseChild, child, hk, hmem]

/-! ## Operations along a path -/

/-- What is found at the end of a path. -/
def get : Tree κ α → List κ → Option (Tree κ α)
  | t, [] => some t
  | t, k :: p => (t.child k).bind fun s => s.get p
termination_by structural _ p => p

/-- Replaces what is at the end of a path. Where a map is missing on the way, a new one is put in
its place. The empty path leads nowhere that could be replaced. -/
def set : Tree κ α → List κ → Tree κ α → Tree κ α
  | t, [], _ => t
  | t, [k], s => t.setChild k s
  | t, k :: l :: p, s => t.setChild k (set ((t.child k).getD (empty κ α)) (l :: p) s)
termination_by structural _ p _ => p

/-- Deletes what is at the end of a path; where the path leads nowhere there is nothing to do. -/
def delete : Tree κ α → List κ → Tree κ α
  | t, [] => t
  | t, [k] => t.eraseChild k
  | t, k :: l :: p =>
    match t.child k with
    | some s => if s.isNode then t.setChild k (delete s (l :: p)) else t
    | none => t
termination_by structural _ p => p

lemma get_cons (t : Tree κ α) (k : κ) (p : List κ) :
    t.get (k :: p) = (t.child k).bind fun s => s.get p := rfl

/-- A path is followed part by part. -/
lemma get_append (t : Tree κ α) (p q : List κ) :
    t.get (p ++ q) = (t.get p).bind fun s => s.get q := by
  induction p generalizing t with
  | nil => rfl
  | cons k p ih =>
    rw [List.cons_append, get_cons, get_cons]
    cases t.child k with
    | none => rfl
    | some s => exact ih s

/-- Nothing is found in the empty map. -/
lemma get_empty {p : List κ} (hp : p ≠ []) : (empty κ α).get p = none := by
  cases p with
  | nil => exact absurd rfl hp
  | cons k p => rfl

/-- Replacing leaves a map a map. -/
lemma isNode_set {t : Tree κ α} (ht : t.isNode = true) (p : List κ) (s : Tree κ α) :
    (t.set p s).isNode = true := by
  match p with
  | [] => exact ht
  | [k] => exact isNode_setChild t k s
  | k :: l :: p => exact isNode_setChild t k _

/-- Deleting leaves a map a map. -/
lemma isNode_delete {t : Tree κ α} (ht : t.isNode = true) (p : List κ) :
    (t.delete p).isNode = true := by
  match p with
  | [] => exact ht
  | [k] => rwa [delete, isNode_eraseChild]
  | k :: l :: p =>
    rw [delete]
    split
    · split_ifs
      · exact isNode_setChild _ _ _
      · exact ht
    · exact ht

/-- **A replaced entry** is found where it was put, with all that is in it. -/
theorem get_set_append (t : Tree κ α) {p : List κ} (hp : p ≠ []) (s : Tree κ α) (q : List κ) :
    (t.set p s).get (p ++ q) = s.get q := by
  induction p generalizing t with
  | nil => exact absurd rfl hp
  | cons k p ih =>
    cases p with
    | nil => rw [set, List.cons_append, get_cons, child_setChild, if_pos rfl]; rfl
    | cons l p =>
      rw [set, List.cons_append, get_cons, child_setChild, if_pos rfl]
      exact ih ((t.child k).getD (empty κ α)) (List.cons_ne_nil l p)

/-- A replacement is not seen along paths that are apart from its own. -/
theorem get_set_of_apart (t : Tree κ α) {p q : List κ} (h : Apart p q) (s : Tree κ α) :
    (t.set p s).get q = t.get q := by
  induction p generalizing t q with
  | nil => exact absurd List.nil_prefix h.1
  | cons k p ih =>
    cases q with
    | nil => exact absurd List.nil_prefix h.2
    | cons k' q =>
      cases p with
      | nil =>
        have hk : k' ≠ k := by
          rintro rfl
          exact h.1 (by simp [List.cons_prefix_cons])
        rw [set, get_cons, get_cons, child_setChild, if_neg hk]
      | cons l p =>
        rw [set, get_cons, get_cons, child_setChild]
        by_cases hk : k' = k
        · subst hk
          have hapart := h.of_cons
          rw [if_pos rfl, Option.bind_some, ih _ hapart]
          cases t.child k' with
          | some c => rfl
          | none =>
            refine get_empty ?_
            rintro rfl
            exact hapart.2 List.nil_prefix
        · rw [if_neg hk]

/-- Nothing is found where something was deleted. -/
theorem get_delete_append (t : Tree κ α) {p : List κ} (hp : p ≠ []) (q : List κ) :
    (t.delete p).get (p ++ q) = none := by
  induction p generalizing t with
  | nil => exact absurd rfl hp
  | cons k p ih =>
    cases p with
    | nil => rw [delete, List.cons_append, get_cons, child_eraseChild, if_pos rfl]; rfl
    | cons l p =>
      rw [delete, List.cons_append]
      cases hchild : t.child k with
      | none =>
        rw [get_cons]
        simp [hchild]
      | some s =>
        by_cases hs : s.isNode = true
        · simp only [hs, if_true]
          rw [get_cons, child_setChild, if_pos rfl]
          exact ih s (List.cons_ne_nil l p)
        · simp only [hs]
          rw [if_neg Bool.false_ne_true, get_cons, hchild, Option.bind_some, List.cons_append,
            get_cons]
          cases s with
          | leaf a => rfl
          | node keys vals => exact absurd rfl hs

/-- A deletion is not seen along paths that are apart from its own. -/
theorem get_delete_of_apart (t : Tree κ α) {p q : List κ} (h : Apart p q) :
    (t.delete p).get q = t.get q := by
  induction p generalizing t q with
  | nil => exact absurd List.nil_prefix h.1
  | cons k p ih =>
    cases q with
    | nil => exact absurd List.nil_prefix h.2
    | cons k' q =>
      cases p with
      | nil =>
        have hk : k' ≠ k := by
          rintro rfl
          exact h.1 (by simp [List.cons_prefix_cons])
        rw [delete, get_cons, get_cons, child_eraseChild, if_neg hk]
      | cons l p =>
        rw [delete]
        cases hchild : t.child k with
        | none => rfl
        | some s =>
          by_cases hs : s.isNode = true
          · simp only [hs, if_true]
            rw [get_cons, get_cons, child_setChild]
            by_cases hk : k' = k
            · subst hk
              rw [if_pos rfl, hchild, Option.bind_some, Option.bind_some, ih s h.of_cons]
            · rw [if_neg hk]
          · simp only [hs]
            rfl

/-- Replacing along a longer path replaces inside of what is found on the way, or of a new map. -/
lemma get_set_above (t : Tree κ α) {q r : List κ} (hq : q ≠ []) (hr : r ≠ []) (s : Tree κ α) :
    (t.set (q ++ r) s).get q = some (((t.get q).getD (empty κ α)).set r s) := by
  induction q generalizing t with
  | nil => exact absurd rfl hq
  | cons k q ih =>
    cases q with
    | nil =>
      obtain ⟨l, r, rfl⟩ := List.exists_cons_of_ne_nil hr
      rw [List.cons_append, List.nil_append, set, get_cons, child_setChild, if_pos rfl, get_cons]
      cases t.child k <;> rfl
    | cons l q =>
      rw [List.cons_append, List.cons_append, set, get_cons, child_setChild, if_pos rfl,
        Option.bind_some, ← List.cons_append, ih _ (List.cons_ne_nil l q), get_cons t]
      cases t.child k <;> rfl

/-- Deleting along a longer path deletes inside of what is found on the way. -/
lemma get_delete_above (t : Tree κ α) (q : List κ) {r : List κ} (hr : r ≠ []) :
    (t.delete (q ++ r)).get q = (t.get q).map fun c => c.delete r := by
  induction q generalizing t with
  | nil => rfl
  | cons k q ih =>
    obtain ⟨l, p, hp⟩ := List.exists_cons_of_ne_nil (List.append_ne_nil_of_right_ne_nil q hr)
    rw [List.cons_append, hp, delete, ← hp, get_cons t]
    cases hchild : t.child k with
    | none =>
      rw [get_cons, hchild]
      rfl
    | some c =>
      by_cases hc : c.isNode = true
      · simp only [hc, if_true]
        rw [get_cons, child_setChild, if_pos rfl, Option.bind_some, Option.bind_some, ih]
      · simp only [hc]
        rw [if_neg Bool.false_ne_true, get_cons, hchild, Option.bind_some]
        cases c with
        | node keys vals => exact absurd rfl hc
        | leaf a =>
          -- nothing is below a leaf, and deleting below it leaves it
          cases q with
          | cons k' q => rfl
          | nil =>
            obtain ⟨l', r, rfl⟩ := List.exists_cons_of_ne_nil hr
            cases r <;> rfl

/-- What is found along a path after a replacement depends only on what was found there. -/
theorem get_set_congr {t t' : Tree κ α} {q : List κ} (h : t.get q = t'.get q) (p : List κ)
    (s : Tree κ α) : (t.set p s).get q = (t'.set p s).get q := by
  rcases path_cases p q with ⟨r, rfl⟩ | ⟨r, hr, rfl⟩ | hapart
  · by_cases hp : p = []
    · subst hp
      exact h
    · rw [get_set_append t hp, get_set_append t' hp]
  · by_cases hq : q = []
    · subst hq
      obtain rfl : t = t' := Option.some.inj h
      rfl
    · rw [get_set_above t hq hr, get_set_above t' hq hr, h]
  · rw [get_set_of_apart t hapart, get_set_of_apart t' hapart, h]

/-- What is found along a path after a deletion depends only on what was found there. -/
theorem get_delete_congr {t t' : Tree κ α} {q : List κ} (h : t.get q = t'.get q) (p : List κ) :
    (t.delete p).get q = (t'.delete p).get q := by
  rcases path_cases p q with ⟨r, rfl⟩ | ⟨r, hr, rfl⟩ | hapart
  · by_cases hp : p = []
    · subst hp
      exact h
    · rw [get_delete_append t hp, get_delete_append t' hp]
  · rw [get_delete_above t q hr, get_delete_above t' q hr, h]
  · rw [get_delete_of_apart t hapart, get_delete_of_apart t' hapart, h]

/-- Replacing what is found by itself changes nothing. -/
lemma set_get {t s : Tree κ α} {p : List κ} (h : t.get p = some s) : t.set p s = t := by
  induction p generalizing t with
  | nil => rfl
  | cons k p ih =>
    rw [get_cons] at h
    obtain ⟨c, hc, hget⟩ := Option.bind_eq_some_iff.mp h
    have hnode := isNode_of_child hc
    cases p with
    | nil =>
      cases hget
      refine ext_child (isNode_setChild t k s) hnode fun k' => ?_
      rw [set, child_setChild]
      split_ifs with hk
      · rw [hk, hc]
      · rfl
    | cons l p =>
      rw [set, hc, Option.getD_some, ih hget]
      refine ext_child (isNode_setChild t k c) hnode fun k' => ?_
      rw [child_setChild]
      split_ifs with hk
      · rw [hk, hc]
      · rfl

/-- Deleting where nothing is found changes nothing. -/
lemma delete_of_get_eq_none {t : Tree κ α} {p : List κ} (h : t.get p = none) :
    t.delete p = t := by
  induction p generalizing t with
  | nil => rfl
  | cons k p ih =>
    cases p with
    | nil =>
      have hc : t.child k = none := by
        rw [get_cons] at h
        cases hc : t.child k with
        | none => rfl
        | some c => rw [hc] at h; cases h
      cases t with
      | leaf a => rfl
      | node keys vals =>
        refine ext_child rfl rfl fun k' => ?_
        rw [delete, child_eraseChild]
        split_ifs with hk
        · rw [hk, hc]
        · rfl
    | cons l p =>
      rw [delete]
      cases hc : t.child k with
      | none => rfl
      | some c =>
        rw [get_cons, hc, Option.bind_some] at h
        by_cases hnode : c.isNode = true
        · simp only [hnode, if_true, ih h]
          refine ext_child (isNode_setChild t k c) (isNode_of_child hc) fun k' => ?_
          rw [child_setChild]
          split_ifs with hk
          · rw [hk, hc]
          · rfl
        · simp only [hnode]
          rfl

/-! ## Copying along paths -/

/-- Makes a tree agree with another one at the end of a path. -/
def copy (s t : Tree κ α) (p : List κ) : Tree κ α :=
  match s.get p with
  | some v => t.set p v
  | none => t.delete p

/-- Makes a tree agree with another one at the ends of some paths, one after the other. -/
def copyAll (s t : Tree κ α) (ps : List (List κ)) : Tree κ α := ps.foldl (copy s) t

/-- Copying into a map leaves it a map. -/
lemma isNode_copyAll (s : Tree κ α) {t : Tree κ α} (ht : t.isNode = true) (ps : List (List κ)) :
    (copyAll s t ps).isNode = true := by
  induction ps generalizing t with
  | nil => exact ht
  | cons p ps ih =>
    refine ih ?_
    unfold copy
    split
    · exact isNode_set ht p _
    · exact isNode_delete ht p

lemma get_copy_append (s t : Tree κ α) {p : List κ} (hp : p ≠ []) (q : List κ) :
    (copy s t p).get (p ++ q) = s.get (p ++ q) := by
  rw [get_append s, copy]
  cases s.get p with
  | some v => exact get_set_append t hp v q
  | none => exact get_delete_append t hp q

lemma get_copy_of_apart (s t : Tree κ α) {p q : List κ} (h : Apart p q) :
    (copy s t p).get q = t.get q := by
  rw [copy]
  cases s.get p with
  | some v => exact get_set_of_apart t h v
  | none => exact get_delete_of_apart t h

/-- Where the trees agree there is nothing to copy. -/
lemma copy_of_get_eq {s t : Tree κ α} {p : List κ} (h : t.get p = s.get p) : copy s t p = t := by
  rw [copy]
  cases hs : s.get p with
  | some v => exact set_get (h.trans hs)
  | none => exact delete_of_get_eq_none (h.trans hs)

/-- Where the trees agree they go on agreeing, whatever is copied. -/
lemma get_copy_of_get_eq {s t : Tree κ α} {q : List κ} (h : t.get q = s.get q) (p : List κ) :
    (copy s t p).get q = s.get q := by
  rcases path_cases p q with ⟨r, rfl⟩ | ⟨r, -, rfl⟩ | hapart
  · by_cases hp : p = []
    · subst hp
      exact h
    · exact get_copy_append s t hp r
  · rw [copy_of_get_eq (by rw [get_append, get_append, h]), h]
  · rw [get_copy_of_apart s t hapart, h]

/-- **Copying paths** makes the trees agree along every path that one of them begins, and is not
seen along paths that are apart from all of them.

**Proof sketch.** Once the trees agree along a path, they go on agreeing: a later copy replaces
what is found by itself, or it is apart. -/
theorem get_copyAll (s t : Tree κ α) (ps : List (List κ)) (q : List κ) :
    ((∃ p ∈ ps, p ≠ [] ∧ p <+: q) → (copyAll s t ps).get q = s.get q) ∧
    ((∀ p ∈ ps, Apart p q) → (copyAll s t ps).get q = t.get q) := by
  have hkeep : ∀ (ps : List (List κ)) (t : Tree κ α), t.get q = s.get q →
      (copyAll s t ps).get q = s.get q := by
    intro ps
    induction ps with
    | nil => exact fun t h => h
    | cons p ps ih => exact fun t h => ih (copy s t p) (get_copy_of_get_eq h p)
  induction ps generalizing t with
  | nil => exact ⟨by simp, fun _ => rfl⟩
  | cons p ps ih =>
    constructor
    · rintro ⟨p', hp', hne, hbelow⟩
      rcases List.mem_cons.mp hp' with rfl | hp'
      · obtain ⟨r, rfl⟩ := hbelow
        exact hkeep ps _ (get_copy_append s t hne r)
      · exact (ih (copy s t p)).1 ⟨p', hp', hne, hbelow⟩
    · intro hapart
      have hrest := (ih (copy s t p)).2 fun p' hp' => hapart p' (List.mem_cons_of_mem p hp')
      exact hrest.trans (get_copy_of_apart s t (hapart p List.mem_cons_self))

/-- What is found along a path after copying depends only on what was found there. -/
lemma get_copyAll_congr (s : Tree κ α) {t t' : Tree κ α} {q : List κ} (h : t.get q = t'.get q)
    (ps : List (List κ)) : (copyAll s t ps).get q = (copyAll s t' ps).get q := by
  induction ps generalizing t t' with
  | nil => exact h
  | cons p ps ih =>
    refine ih ?_
    unfold copy
    cases s.get p with
    | some v => exact get_set_congr h p v
    | none => exact get_delete_congr h p

/-! ### The order of copying -/

omit [DecidableEq κ] in
/-- What a tree is by itself: the value of a leaf, or a map. -/
def shape : Tree κ α → Option α
  | leaf a => some a
  | node _ _ => none

omit [DecidableEq κ] in
lemma shape_of_isNode {t : Tree κ α} (h : t.isNode = true) : t.shape = none := by
  cases t with
  | leaf a => cases h
  | node keys vals => rfl

/-- Two trees are the same if the same is found along all paths, entries of maps apart. -/
lemma ext_shape {s t : Tree κ α} (h : ∀ q, (s.get q).map shape = (t.get q).map shape) :
    s = t := by
  induction s generalizing t with
  | leaf a =>
    have hroot := h []
    cases t with
    | leaf b =>
      obtain rfl : a = b := by simpa [get, shape] using hroot
      rfl
    | node keys vals => simp [get, shape] at hroot
  | node keys vals ih =>
    have hroot := h []
    cases t with
    | leaf b => simp [get, shape] at hroot
    | node keys' vals' =>
      refine ext_child rfl rfl fun k => ?_
      have hk : ∀ q, (((node keys vals).child k).bind fun s => s.get q).map shape =
          (((node keys' vals').child k).bind fun s => s.get q).map shape := fun q => h (k :: q)
      cases hs : (node keys vals).child k with
      | none =>
        cases ht : (node keys' vals').child k with
        | none => rfl
        | some t =>
          have hnone := hk []
          simp [hs, ht, get] at hnone
      | some s =>
        cases ht : (node keys' vals').child k with
        | none =>
          have hnone := hk []
          simp [hs, ht, get] at hnone
        | some t =>
          simp only [hs, ht, Option.bind_some] at hk
          by_cases hmem : k ∈ keys
          · obtain rfl : vals ⟨k, hmem⟩ = s := by simpa [child, hmem] using hs
            rw [ih ⟨k, hmem⟩ hk]
          · simp [child, hmem] at hs

/-- Replacing something makes the tree a map. -/
lemma shape_set (t : Tree κ α) {p : List κ} (hp : p ≠ []) (s : Tree κ α) :
    (t.set p s).shape = none := by
  obtain ⟨k, p, rfl⟩ := List.exists_cons_of_ne_nil hp
  cases p with
  | nil => exact shape_of_isNode (isNode_setChild t k s)
  | cons l p => exact shape_of_isNode (isNode_setChild t k _)

/-- Deleting something leaves a map a map, and a leaf that leaf. -/
lemma shape_delete (t : Tree κ α) (p : List κ) : (t.delete p).shape = t.shape := by
  cases t with
  | node keys vals => exact shape_of_isNode (isNode_delete rfl p)
  | leaf a => rcases p with _ | ⟨k, _ | ⟨l, p⟩⟩ <;> rfl

/-- Along a path that it does not begin, a copied path is only seen by the maps on its way. -/
lemma shape_get_copy (s t : Tree κ α) {p q : List κ} (h : ¬ p <+: q) :
    ((copy s t p).get q).map shape =
      if q <+: p ∧ (s.get p).isSome then some none else (t.get q).map shape := by
  rcases path_cases p q with ⟨r, rfl⟩ | ⟨r, hr, rfl⟩ | hapart
  · exact absurd (List.prefix_append p r) h
  · unfold copy
    cases hs : s.get (q ++ r) with
    | none =>
      rw [if_neg (by simp), get_delete_above t q hr, Option.map_map]
      congr 1
      funext c
      exact shape_delete c r
    | some v =>
      rw [if_pos ⟨List.prefix_append q r, rfl⟩]
      by_cases hq : q = []
      · subst hq
        exact congrArg some (shape_set t hr v)
      · rw [get_set_above t hq hr, Option.map_some, shape_set _ hr]
  · rw [get_copy_of_apart s t hapart, if_neg fun hbelow => hapart.2 hbelow.1]

/-- Along a path that none of them begins, copied paths are only seen by the maps on their way. -/
lemma shape_get_copyAll (s t : Tree κ α) {ps : List (List κ)} {q : List κ}
    (h : ∀ p ∈ ps, p = [] ∨ ¬ p <+: q) :
    ((∃ p ∈ ps, p ≠ [] ∧ q <+: p ∧ (s.get p).isSome) →
      ((copyAll s t ps).get q).map shape = some none) ∧
    ((∀ p ∈ ps, p ≠ [] → q <+: p → s.get p = none) →
      ((copyAll s t ps).get q).map shape = (t.get q).map shape) := by
  induction ps generalizing t with
  | nil => exact ⟨by simp, fun _ => rfl⟩
  | cons p ps ih =>
    obtain ⟨hthrough, hapart⟩ := ih (copy s t p) fun p' hp' => h p' (List.mem_cons_of_mem p hp')
    have hhead : p = [] → copy s t p = t := by
      rintro rfl
      rfl
    constructor
    · rintro ⟨p', hp', hne, hbelow, hsome⟩
      by_cases hrest : ∃ p ∈ ps, p ≠ [] ∧ q <+: p ∧ (s.get p).isSome
      · exact hthrough hrest
      · rcases List.mem_cons.mp hp' with rfl | hp'
        · have hps : ∀ p ∈ ps, p ≠ [] → q <+: p → s.get p = none := fun p hp hne hbelow =>
            Option.not_isSome_iff_eq_none.mp fun hsome => hrest ⟨p, hp, hne, hbelow, hsome⟩
          have hbegins : ¬ p' <+: q := (h p' List.mem_cons_self).resolve_left hne
          exact (hapart hps).trans ((shape_get_copy s t hbegins).trans (if_pos ⟨hbelow, hsome⟩))
        · exact absurd ⟨p', hp', hne, hbelow, hsome⟩ hrest
    · intro hnone
      refine (hapart fun p' hp' => hnone p' (List.mem_cons_of_mem p hp')).trans ?_
      rcases h p List.mem_cons_self with hnil | hbegins
      · rw [hhead hnil]
      · have hne : p ≠ [] := by
          rintro rfl
          exact hbegins List.nil_prefix
        refine (shape_get_copy s t hbegins).trans (if_neg ?_)
        rintro ⟨hbelow, hsome⟩
        rw [hnone p List.mem_cons_self hne hbelow] at hsome
        cases hsome

/-- **The order of copying** does not matter, and neither does copying a path again. -/
theorem copyAll_congr (s t : Tree κ α) {ps ps' : List (List κ)} (h : ∀ p, p ∈ ps ↔ p ∈ ps') :
    copyAll s t ps = copyAll s t ps' := by
  refine ext_shape fun q => ?_
  by_cases hcovered : ∃ p ∈ ps, p ≠ [] ∧ p <+: q
  · have hcovered' : ∃ p ∈ ps', p ≠ [] ∧ p <+: q := by simpa only [h] using hcovered
    rw [(get_copyAll s t ps q).1 hcovered, (get_copyAll s t ps' q).1 hcovered']
  · have hbegins : ∀ p ∈ ps, p = [] ∨ ¬ p <+: q := fun p hp => by
      by_contra hnot
      rw [not_or, not_not] at hnot
      exact hcovered ⟨p, hp, hnot⟩
    obtain ⟨hthrough, hapart⟩ := shape_get_copyAll s t hbegins
    have hbegins' : ∀ p ∈ ps', p = [] ∨ ¬ p <+: q := fun p hp => hbegins p ((h p).mpr hp)
    obtain ⟨hthrough', hapart'⟩ := shape_get_copyAll s t hbegins'
    by_cases hsome : ∃ p ∈ ps, p ≠ [] ∧ q <+: p ∧ (s.get p).isSome
    · rw [hthrough hsome, hthrough' (by simpa only [h] using hsome)]
    · have hnone : ∀ p ∈ ps, p ≠ [] → q <+: p → s.get p = none := fun p hp hne hbelow =>
        Option.not_isSome_iff_eq_none.mp fun hfound => hsome ⟨p, hp, hne, hbelow, hfound⟩
      rw [hapart hnone, hapart' fun p hp => hnone p ((h p).mpr hp)]

/-! ## The paths of a tree -/

/-- The paths to the leaves and to the empty maps inside a tree. -/
def paths : Tree κ α → Finset (List κ)
  | leaf _ => ∅
  | node keys vals => keys.attach.biUnion fun k =>
      if (vals k).paths = ∅ then {[k.1]} else (vals k).paths.image (k.1 :: ·)

/-- A path of a tree goes on in an entry, or ends there if the entry has no paths. -/
lemma mem_paths {t : Tree κ α} {p : List κ} : p ∈ t.paths ↔ ∃ k s q, p = k :: q ∧
    t.child k = some s ∧ (s.paths = ∅ ∧ q = [] ∨ q ∈ s.paths) := by
  cases t with
  | leaf a => simp [paths, child]
  | node keys vals =>
    simp only [paths, Finset.mem_biUnion, Finset.mem_attach, true_and, Subtype.exists]
    constructor
    · rintro ⟨k, hk, hp⟩
      refine ⟨k, vals ⟨k, hk⟩, ?_⟩
      split_ifs at hp with hempty
      · exact ⟨[], Finset.mem_singleton.mp hp, by simp [child, hk], Or.inl ⟨hempty, rfl⟩⟩
      · obtain ⟨q, hq, rfl⟩ := Finset.mem_image.mp hp
        exact ⟨q, rfl, by simp [child, hk], Or.inr hq⟩
    · rintro ⟨k, s, q, rfl, hs, hq⟩
      by_cases hk : k ∈ keys
      · obtain rfl : vals ⟨k, hk⟩ = s := by simpa [child, hk] using hs
        refine ⟨k, hk, ?_⟩
        rcases hq with ⟨hempty, rfl⟩ | hq
        · rw [if_pos hempty]
          exact Finset.mem_singleton_self _
        · rw [if_neg (Finset.ne_empty_of_mem hq)]
          exact Finset.mem_image_of_mem _ hq
      · simp [child, hk] at hs

/-- The paths of a tree are not empty. -/
lemma ne_nil_of_mem_paths {t : Tree κ α} {p : List κ} (h : p ∈ t.paths) : p ≠ [] := by
  obtain ⟨k, s, q, rfl, -⟩ := mem_paths.mp h
  exact List.cons_ne_nil k q

/-- The paths of a tree lead somewhere. -/
lemma isSome_get_of_mem_paths {t : Tree κ α} {p : List κ} (h : p ∈ t.paths) :
    (t.get p).isSome = true := by
  induction p generalizing t with
  | nil => rfl
  | cons k p ih =>
    obtain ⟨k', s, q, heq, hs, hq⟩ := mem_paths.mp h
    cases heq
    rw [get_cons, hs, Option.bind_some]
    rcases hq with ⟨-, rfl⟩ | hq
    · rfl
    · exact ih hq

/-- Where a tree without paths is found there ends a path. -/
lemma mem_paths_of_get {t s : Tree κ α} {p : List κ} (hp : p ≠ []) (h : t.get p = some s)
    (hs : s.paths = ∅) : p ∈ t.paths := by
  induction p generalizing t with
  | nil => exact absurd rfl hp
  | cons k p ih =>
    rw [get_cons] at h
    obtain ⟨c, hc, hget⟩ := Option.bind_eq_some_iff.mp h
    refine mem_paths.mpr ⟨k, c, p, rfl, hc, ?_⟩
    by_cases hp : p = []
    · subst hp
      cases hget
      exact Or.inl ⟨hs, rfl⟩
    · exact Or.inr (ih hp hget)

/-- Paths that are found start in a map. -/
lemma isNode_of_get {t : Tree κ α} {p : List κ} (hp : p ≠ []) (h : (t.get p).isSome = true) :
    t.isNode = true := by
  cases p with
  | nil => exact absurd rfl hp
  | cons k p =>
    cases t with
    | leaf a => cases h
    | node keys vals => rfl

/-- **A map is determined along its paths**: another map that agrees with it there, and in which
nothing is found apart from them, is the same map.

**Proof sketch.** Induction on the map. If the entry of a key has no paths, the key alone is a
path. Otherwise the other map has an entry there that agrees along the paths of the entry, and in
which nothing is found apart from them. -/
theorem eq_of_paths {s t : Tree κ α} (hs : s.isNode = true) (ht : t.isNode = true)
    (hpaths : ∀ p ∈ t.paths, s.get p = t.get p)
    (hapart : ∀ p, p ≠ [] → (∀ m ∈ t.paths, Apart m p) → s.get p = none) : s = t := by
  induction t generalizing s with
  | leaf a => cases ht
  | node keys vals ih =>
    refine ext_child hs rfl fun k => ?_
    by_cases hk : k ∈ keys
    · have hchild : (node keys vals).child k = some (vals ⟨k, hk⟩) := by simp [child, hk]
      rw [hchild]
      by_cases hempty : (vals ⟨k, hk⟩).paths = ∅
      · have hget := hpaths [k] (mem_paths.mpr ⟨k, _, [], rfl, hchild, Or.inl ⟨hempty, rfl⟩⟩)
        rw [get_cons, get_cons, hchild] at hget
        cases hc : s.child k with
        | none => rw [hc] at hget; cases hget
        | some c => rw [hc] at hget; exact hget
      · have hagree : ∀ m ∈ (vals ⟨k, hk⟩).paths,
            (s.child k).bind (fun c => c.get m) = (vals ⟨k, hk⟩).get m := by
          intro m hm
          have hget := hpaths (k :: m) (mem_paths.mpr ⟨k, _, m, rfl, hchild, Or.inr hm⟩)
          rwa [get_cons, get_cons, hchild, Option.bind_some] at hget
        obtain ⟨m, hm⟩ := Finset.nonempty_iff_ne_empty.mpr hempty
        have hsome := isSome_get_of_mem_paths hm
        cases hc : s.child k with
        | none =>
          rw [← hagree m hm, hc] at hsome
          cases hsome
        | some c =>
          have hget : ∀ m ∈ (vals ⟨k, hk⟩).paths, c.get m = (vals ⟨k, hk⟩).get m := by
            intro m hm
            rw [← hagree m hm, hc, Option.bind_some]
          refine congrArg some (ih ⟨k, hk⟩ ?_ (isNode_of_get (ne_nil_of_mem_paths hm) hsome) hget
            fun p hp hm => ?_)
          · exact isNode_of_get (ne_nil_of_mem_paths hm) (by rwa [hget m hm])
          · have hnone := hapart (k :: p) (List.cons_ne_nil k p) fun m' hm' => by
              obtain ⟨k', c', q, rfl, hc', hq⟩ := mem_paths.mp hm'
              by_cases hkk : k' = k
              · subst hkk
                rw [hchild] at hc'
                cases hc'
                have hq' := hq.resolve_left fun h => hempty h.1
                have := hm q hq'
                unfold Apart at *
                simpa [List.cons_prefix_cons] using this
              · exact apart_of_ne hkk q p
            rwa [get_cons, hc, Option.bind_some] at hnone
    · have hnone := hapart [k] (List.cons_ne_nil k []) fun m hm => by
        obtain ⟨k', c', q, rfl, hc', -⟩ := mem_paths.mp hm
        refine apart_of_ne ?_ q []
        rintro rfl
        simp [child, hk] at hc'
      rw [get_cons] at hnone
      cases hc : s.child k with
      | none => simp [child, hk]
      | some c => rw [hc] at hnone; cases hnone

/-- **Copying all paths** of a map to the empty map copies the map, in whatever order. -/
theorem copyAll_paths {t : Tree κ α} (ht : t.isNode = true) {ps : List (List κ)}
    (h : ∀ p, p ∈ ps ↔ p ∈ t.paths) : copyAll t (empty κ α) ps = t := by
  refine eq_of_paths (isNode_copyAll t isNode_empty ps) ht (fun p hp => ?_) fun p hp hapart => ?_
  · exact (get_copyAll t _ ps p).1
      ⟨p, (h p).mpr hp, ne_nil_of_mem_paths hp, List.prefix_rfl⟩
  · rw [(get_copyAll t _ ps p).2 fun m hm => hapart m ((h m).mp hm)]
    exact get_empty hp

end Tree

end NestedMaps
