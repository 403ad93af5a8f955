import AntViewer.Library.Apportionment
import AntViewer.Swift

set_option relaxedAutoImplicit false
set_option autoImplicit false

/-!
# The displayed percentages of a poll

`FirePoll.calculatePercentages` turns the vote counts of a poll into percentages: each count is
floored to `100 * x / sum`, and what the floors lose is handed to one class of equal
percentages, unless all the answers that have a percentage have the same one.

## Main definitions

* `calculatePercentages` — the function of the source, with its traps.

## Main results

* `length_of_calculatePercentages` — there is one percentage for each count.
* `foldlM_add_zero`, `percentageArray_eq_ok`, `foldlM_sub`, `addToClass_eq_ok` — what the steps
  of the function return on counts that are not negative.
* `calculatePercentages_of_sum_eq_zero` — without votes the counts themselves are returned.
-/

namespace AntViewer

/-- `pollAnswers.map {100 * $0/sum}`. -/
def percentageArray (pollAnswers : List ℤ) (sum : ℤ) : Eval (List ℤ) :=
  pollAnswers.mapM fun x => do
    let product ← SwiftInt.mul 100 x
    SwiftInt.div product sum

/-- The percentage whose class gets the rounding leftover: the first one, or the first that
differs from it if it occurs again (and the first one still if there is no other). -/
def correctedNumber (arrayWithoutZero : List ℤ) (firstElement : ℤ) : ℤ :=
  if (arrayWithoutZero.drop 1).contains firstElement then
    (arrayWithoutZero.find? fun x => x ≠ firstElement).getD firstElement
  else firstElement

/-- `percentageArray.map {$0 == number ? $0 + a : $0}`. -/
def addToClass (percentageArray : List ℤ) (number a : ℤ) : Eval (List ℤ) :=
  percentageArray.mapM fun x => if x = number then SwiftInt.add x a else pure x

/-- `FirePoll.calculatePercentages`. -/
def calculatePercentages (pollAnswers : List ℤ) : Eval (List ℤ) := do
  let sum ← pollAnswers.foldlM SwiftInt.add 0
  if sum = 0 then
    return pollAnswers
  let percentages ← percentageArray pollAnswers sum
  let arrayWithoutZero := percentages.filter fun x => x ≠ 0
  let delta ← percentages.foldlM SwiftInt.sub 100
  -- `Set(arrayWithoutZero).count == 1`
  if arrayWithoutZero.toFinset.card = 1 then
    return percentages
  let firstElement ← subscript arrayWithoutZero 0
  let number := correctedNumber arrayWithoutZero firstElement
  let count : ℤ := (arrayWithoutZero.filter fun x => x = number).length
  let a ← SwiftInt.div delta count
  addToClass percentages number a

/-- There is one percentage for each count. -/
lemma length_of_calculatePercentages {pollAnswers percentages : List ℤ}
    (h : calculatePercentages pollAnswers = .ok percentages) :
    percentages.length = pollAnswers.length := by
  simp only [calculatePercentages, Eval.bind_eq_ok] at h
  obtain ⟨sum, -, h⟩ := h
  split_ifs at h
  · cases h
    rfl
  · simp only [Eval.bind_eq_ok] at h
    obtain ⟨floors, hfloors, delta, -, h⟩ := h
    have hlen : floors.length = pollAnswers.length := Eval.length_of_mapM hfloors
    split_ifs at h
    · cases h
      exact hlen
    · simp only [Eval.bind_eq_ok] at h
      obtain ⟨firstElement, -, a, -, h⟩ := h
      rw [Eval.length_of_mapM h, hlen]

/-! ## The steps of the function

Each step of `calculatePercentages` is computed on counts that are not negative. -/

section Steps

variable {pollAnswers : List ℤ}

/-- `reduce(0, +)` checks only the end of the sum: a partial sum that overflowed would not come
back into range. -/
lemma foldlM_add {acc : ℤ} (hxs : ∀ x ∈ pollAnswers, 0 ≤ x) (hnonneg : 0 ≤ acc)
    (hacc : SwiftInt.InRange acc) :
    pollAnswers.foldlM SwiftInt.add acc = SwiftInt.checked (acc + pollAnswers.sum) := by
  induction pollAnswers generalizing acc with
  | nil =>
    rw [List.sum_nil, add_zero, SwiftInt.checked_of_inRange hacc]
    rfl
  | cons x xs ih =>
    have hx : 0 ≤ x := hxs x List.mem_cons_self
    have hxs' : ∀ y ∈ xs, 0 ≤ y := fun y hy => hxs y (List.mem_cons_of_mem x hy)
    have hsum : 0 ≤ xs.sum := List.sum_nonneg hxs'
    rw [List.foldlM_cons, List.sum_cons, ← add_assoc, SwiftInt.add]
    by_cases hr : SwiftInt.InRange (acc + x)
    · rw [SwiftInt.checked_of_inRange hr]
      exact ih hxs' (by omega) hr
    · have hr' : ¬SwiftInt.InRange (acc + x + xs.sum) := fun h =>
        hr (h.of_le (by omega) (by omega))
      rw [SwiftInt.checked, if_neg hr, SwiftInt.checked, if_neg hr']
      rfl

/-- The sum of the counts is the exact one, or a trap. -/
lemma foldlM_add_zero (hxs : ∀ x ∈ pollAnswers, 0 ≤ x) :
    pollAnswers.foldlM SwiftInt.add 0 = SwiftInt.checked pollAnswers.sum := by
  rw [foldlM_add hxs le_rfl (by decide), zero_add]

/-- `reduce(acc, -)` returns the exact difference when it does not become negative. -/
lemma foldlM_sub {fs : List ℤ} {acc : ℤ} (hfs : ∀ f ∈ fs, 0 ≤ f) (hacc : SwiftInt.InRange acc)
    (hsum : fs.sum ≤ acc) : fs.foldlM SwiftInt.sub acc = .ok (acc - fs.sum) := by
  induction fs generalizing acc with
  | nil =>
    rw [List.sum_nil, sub_zero]
    rfl
  | cons f fs ih =>
    have hf : 0 ≤ f := hfs f List.mem_cons_self
    have hfs' : ∀ g ∈ fs, 0 ≤ g := fun g hg => hfs g (List.mem_cons_of_mem f hg)
    have hrest : 0 ≤ fs.sum := List.sum_nonneg hfs'
    rw [List.sum_cons] at hsum ⊢
    have hr : SwiftInt.InRange (acc - f) := hacc.of_le (by omega) (by omega)
    rw [List.foldlM_cons, SwiftInt.sub, SwiftInt.checked_of_inRange hr, ← sub_sub]
    exact ih hfs' hr (by omega)

/-- The percentages are the counts' quotas of 100 when no product overflows. -/
lemma percentageArray_eq_ok {sum : ℤ} (hxs : ∀ x ∈ pollAnswers, 0 ≤ x) (hs : 0 < sum)
    (hfit : ∀ x ∈ pollAnswers, SwiftInt.InRange (100 * x)) :
    percentageArray pollAnswers sum = .ok (pollAnswers.map (Apportionment.quota 100 sum)) := by
  apply Eval.mapM_of_forall
  intro x hx
  have hnonneg : 0 ≤ 100 * x := by linarith [hxs x hx]
  have hq : SwiftInt.InRange (100 * x / sum) :=
    (hfit x hx).of_le (Int.ediv_nonneg hnonneg hs.le) (Int.ediv_le_self sum hnonneg)
  rw [SwiftInt.mul, SwiftInt.checked_of_inRange (hfit x hx)]
  show SwiftInt.div (100 * x) sum = .ok (Apportionment.quota 100 sum x)
  rw [SwiftInt.div, if_neg hs.ne', Int.tdiv_eq_ediv_of_nonneg hnonneg,
    SwiftInt.checked_of_inRange hq]
  rfl

/-- Percentages that are returned have overflowed nowhere. -/
lemma inRange_of_percentageArray {sum : ℤ} {percentages : List ℤ}
    (h : percentageArray pollAnswers sum = .ok percentages) :
    ∀ x ∈ pollAnswers, SwiftInt.InRange (100 * x) := by
  intro x hx
  obtain ⟨y, hy⟩ := Eval.ok_of_mapM h x hx
  obtain ⟨product, hproduct, -⟩ := Eval.bind_eq_ok.mp hy
  exact (SwiftInt.checked_eq_ok.mp hproduct).1

/-- Adding the leftover to one class is an award. -/
lemma addToClass_eq_ok {percentages : List ℤ} {number a : ℤ}
    (hfit : ∀ f ∈ percentages, SwiftInt.InRange (f + a)) :
    addToClass percentages number a =
      .ok (percentages.map (Apportionment.award number a)) := by
  apply Eval.mapM_of_forall
  intro f hf
  unfold Apportionment.award
  split_ifs
  · exact SwiftInt.checked_of_inRange (hfit f hf)
  · rfl

/-- The class that gets the leftover is one of the percentages. -/
lemma correctedNumber_mem {f : ℤ} {fs : List ℤ} : correctedNumber (f :: fs) f ∈ f :: fs := by
  unfold correctedNumber
  split_ifs
  · cases hfind : (f :: fs).find? fun x => x ≠ f with
    | none => exact List.mem_cons_self
    | some g => exact List.mem_of_find?_eq_some hfind
  · exact List.mem_cons_self

end Steps

/-- Without votes, the counts are returned as they are. -/
lemma calculatePercentages_of_sum_eq_zero {pollAnswers : List ℤ}
    (hxs : ∀ x ∈ pollAnswers, 0 ≤ x) (hs : pollAnswers.sum = 0) :
    calculatePercentages pollAnswers = .ok pollAnswers := by
  rw [calculatePercentages, foldlM_add_zero hxs, hs]
  rfl

/-- Zeros are returned as they are. -/
lemma calculatePercentages_zeros (n : ℕ) :
    calculatePercentages (List.replicate n 0) = .ok (List.replicate n 0) := by
  apply calculatePercentages_of_sum_eq_zero
  · intro x hx
    rw [List.eq_of_mem_replicate hx]
  · simp

end AntViewer
