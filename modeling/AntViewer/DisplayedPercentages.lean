import AntViewer.Percentages

set_option relaxedAutoImplicit false
set_option autoImplicit false

/-!
# What a poll displays, as a function of its counts

`calculatePercentages` without its traps: a count is displayed as its quota of 100, and one
class of equal quotas, the favoured one, is raised by an equal share of what the quotas lose.
The function of the source returns these percentages whenever it returns.

## Main definitions

* `floors`, `votedFloors` — the percentages rounded down, and those that are not zero.
* `favoured`, `share` — the class that is raised, and by how much.
* `percentage`, `displayed` — the percentage of a count, and the list of them.
* `Fits` — the sums and products of the function are values of an `Int`.

## Main results

* `calculatePercentages_eq` — the function on counts that fit: the displayed percentages, or the
  trap of reading the first element of an empty array.
* `eq_displayed_of_ok`, `eq_percentage_of_ok` — whatever the function returns are the displayed
  percentages, as a list and for one answer.
* `sum_displayed` — the displayed percentages leave of 100 what the favoured class cannot share.
-/

namespace AntViewer

open Apportionment

/-! ## Definitions -/

/-- The percentages rounded down (`percentageArray`). -/
def floors (pollAnswers : List ℤ) : List ℤ := quotas 100 pollAnswers

/-- The rounded-down percentages that are not zero (`arrayWithoutZero`). -/
def votedFloors (pollAnswers : List ℤ) : List ℤ := (floors pollAnswers).filter fun f => f ≠ 0

/-- The rounded-down percentage whose class is raised (`number`). -/
def favoured (pollAnswers : List ℤ) : ℤ :=
  correctedNumber (votedFloors pollAnswers) ((votedFloors pollAnswers).headD 0)

/-- What each member of the favoured class is raised by: nothing unless there are two different
non-zero percentages, else an equal part of the loss (`a`). -/
def share (pollAnswers : List ℤ) : ℤ :=
  if (votedFloors pollAnswers).toFinset.card ≤ 1 then 0
  else loss 100 pollAnswers / ((floors pollAnswers).count (favoured pollAnswers) : ℕ)

/-- The percentage displayed for an answer with `x` votes. -/
def percentage (pollAnswers : List ℤ) (x : ℤ) : ℤ :=
  award (favoured pollAnswers) (share pollAnswers) (quota 100 pollAnswers.sum x)

/-- The percentages displayed for all answers. -/
def displayed (pollAnswers : List ℤ) : List ℤ := pollAnswers.map (percentage pollAnswers)

/-- The part of the function after its early returns. -/
def correction (pollAnswers : List ℤ) : Eval (List ℤ) := do
  let firstElement ← subscript (votedFloors pollAnswers) 0
  let number := correctedNumber (votedFloors pollAnswers) firstElement
  let count : ℤ := ((votedFloors pollAnswers).filter fun x => x = number).length
  let a ← SwiftInt.div (loss 100 pollAnswers) count
  addToClass (floors pollAnswers) number a

/-- The sum of the counts and 100 times each of them are values of an `Int`. -/
structure Fits (pollAnswers : List ℤ) : Prop where
  sum : SwiftInt.InRange pollAnswers.sum
  product : ∀ x ∈ pollAnswers, SwiftInt.InRange (100 * x)

variable {pollAnswers : List ℤ}

/-! ## The favoured class and its share -/

/-- Rounded-down percentages are not negative. -/
lemma floors_nonneg (hxs : ∀ x ∈ pollAnswers, 0 ≤ x) : ∀ f ∈ floors pollAnswers, 0 ≤ f :=
  quotas_nonneg (by decide) hxs

/-- The rounded-down percentages and the loss make up 100. -/
lemma sum_floors (pollAnswers : List ℤ) :
    (floors pollAnswers).sum = 100 - loss 100 pollAnswers := by
  rw [loss, floors]
  omega

lemma mem_votedFloors {f : ℤ} : f ∈ votedFloors pollAnswers ↔ f ∈ floors pollAnswers ∧ f ≠ 0 := by
  simp [votedFloors]

/-- The favoured class is one of the non-zero percentages, if there are any. -/
lemma favoured_mem (h : votedFloors pollAnswers ≠ []) :
    favoured pollAnswers ∈ votedFloors pollAnswers := by
  unfold favoured
  cases hv : votedFloors pollAnswers with
  | nil => exact absurd hv h
  | cons f fs => exact correctedNumber_mem

/-- The favoured class has a member. -/
lemma count_favoured_pos (h : votedFloors pollAnswers ≠ []) :
    0 < (floors pollAnswers).count (favoured pollAnswers) :=
  List.count_pos_iff.mpr (mem_votedFloors.mp (favoured_mem h)).1

/-- The size of the favoured class is also counted among the non-zero percentages. -/
lemma length_filter_favoured (h : votedFloors pollAnswers ≠ []) :
    ((votedFloors pollAnswers).filter fun x => x = favoured pollAnswers).length =
      (floors pollAnswers).count (favoured pollAnswers) := by
  have hne : favoured pollAnswers ≠ 0 := (mem_votedFloors.mp (favoured_mem h)).2
  rw [← List.countP_eq_length_filter, votedFloors, List.countP_filter, List.count]
  apply List.countP_congr
  intro f _
  simp only [Bool.and_eq_true, decide_eq_true_eq, beq_iff_eq]
  constructor
  · exact fun hf => hf.1
  · rintro rfl
    exact ⟨rfl, hne⟩

/-- There are two different non-zero percentages, in terms of the rounded-down ones. -/
lemma one_lt_card_iff (hxs : ∀ x ∈ pollAnswers, 0 ≤ x) :
    1 < (votedFloors pollAnswers).toFinset.card ↔
      ∃ f ∈ floors pollAnswers, ∃ g ∈ floors pollAnswers, 0 < f ∧ f < g := by
  constructor
  · intro h
    obtain ⟨f, hf, g, hg, hne⟩ := Finset.one_lt_card.mp h
    rw [List.mem_toFinset, mem_votedFloors] at hf hg
    have hf0 : 0 ≤ f := floors_nonneg hxs f hf.1
    have hg0 : 0 ≤ g := floors_nonneg hxs g hg.1
    rcases lt_or_gt_of_ne hne with hlt | hlt
    · exact ⟨f, hf.1, g, hg.1, by omega, hlt⟩
    · exact ⟨g, hg.1, f, hf.1, by omega, hlt⟩
  · intro h
    obtain ⟨f, hf, g, hg, hpos, hlt⟩ := h
    apply Finset.one_lt_card.mpr
    refine ⟨f, ?_, g, ?_, hlt.ne⟩
    · exact List.mem_toFinset.mpr (mem_votedFloors.mpr ⟨hf, hpos.ne'⟩)
    · exact List.mem_toFinset.mpr (mem_votedFloors.mpr ⟨hg, by omega⟩)

/-- With votes, the share is the loss divided by the class, rounded down. -/
lemma share_of_one_lt_card (h : 1 < (votedFloors pollAnswers).toFinset.card) :
    share pollAnswers =
      loss 100 pollAnswers / ((floors pollAnswers).count (favoured pollAnswers) : ℕ) :=
  if_neg (by omega)

/-- Two different non-zero percentages are some. -/
lemma votedFloors_ne_nil (h : 1 < (votedFloors pollAnswers).toFinset.card) :
    votedFloors pollAnswers ≠ [] := by
  intro hnil
  rw [hnil] at h
  simp at h

/-- Without votes every count is zero, and so is every rounded-down percentage. -/
lemma floors_of_sum_eq_zero (hs : pollAnswers.sum = 0) : ∀ f ∈ floors pollAnswers, f = 0 := by
  intro f hf
  obtain ⟨x, -, rfl⟩ := List.mem_map.mp hf
  rw [quota, hs, Int.ediv_zero]

/-- If there are no non-zero percentages, nothing is shared. -/
lemma share_of_votedFloors_eq_nil (h : votedFloors pollAnswers = []) : share pollAnswers = 0 := by
  rw [share, h]
  rfl

/-- The loss is not negative, also without votes. -/
lemma loss_hundred_nonneg (hxs : ∀ x ∈ pollAnswers, 0 ≤ x) : 0 ≤ loss 100 pollAnswers := by
  rcases (List.sum_nonneg hxs).eq_or_lt with hzero | hs
  · have hfloors : (floors pollAnswers).sum = 0 :=
      List.sum_eq_zero (floors_of_sum_eq_zero hzero.symm)
    rw [sum_floors] at hfloors
    omega
  · exact loss_nonneg hs

/-- The loss is at most 100. -/
lemma loss_le_hundred (hxs : ∀ x ∈ pollAnswers, 0 ≤ x) : loss 100 pollAnswers ≤ 100 := by
  have hsum : 0 ≤ (floors pollAnswers).sum := List.sum_nonneg (floors_nonneg hxs)
  rw [sum_floors] at hsum
  omega

/-- A share is not negative. -/
lemma share_nonneg (hxs : ∀ x ∈ pollAnswers, 0 ≤ x) : 0 ≤ share pollAnswers := by
  unfold share
  split_ifs
  · rfl
  · exact Int.ediv_nonneg (loss_hundred_nonneg hxs) (by omega)

/-- All the shares together are at most the loss. -/
lemma count_mul_share_le (hxs : ∀ x ∈ pollAnswers, 0 ≤ x) :
    ((floors pollAnswers).count (favoured pollAnswers) : ℕ) * share pollAnswers ≤
      loss 100 pollAnswers := by
  unfold share
  split_ifs
  · rw [mul_zero]
    exact loss_hundred_nonneg hxs
  · rename_i h
    have hcount : 0 < (floors pollAnswers).count (favoured pollAnswers) :=
      count_favoured_pos (votedFloors_ne_nil (by omega))
    exact Int.mul_ediv_self_le (by omega)

/-- One share is at most the loss. -/
lemma share_le_loss (hxs : ∀ x ∈ pollAnswers, 0 ≤ x) :
    share pollAnswers ≤ loss 100 pollAnswers := by
  unfold share
  split_ifs
  · exact loss_hundred_nonneg hxs
  · exact Int.ediv_le_self _ (loss_hundred_nonneg hxs)

/-! ## The displayed percentages -/

/-- The list of percentages is the list of rounded-down ones with one class raised. -/
lemma displayed_eq_map_floors (pollAnswers : List ℤ) :
    displayed pollAnswers =
      (floors pollAnswers).map (award (favoured pollAnswers) (share pollAnswers)) := by
  rw [floors, quotas, List.map_map]
  rfl

/-- In the favoured class, the rounded-down percentage and a share are displayed. -/
lemma percentage_of_eq_favoured {x : ℤ}
    (h : quota 100 pollAnswers.sum x = favoured pollAnswers) :
    percentage pollAnswers x = quota 100 pollAnswers.sum x + share pollAnswers := if_pos h

/-- Outside of the favoured class, the rounded-down percentage is displayed. -/
lemma percentage_of_ne_favoured {x : ℤ}
    (h : quota 100 pollAnswers.sum x ≠ favoured pollAnswers) :
    percentage pollAnswers x = quota 100 pollAnswers.sum x := award_of_ne h

/-- A displayed percentage is at least the rounded-down one. -/
lemma quota_le_percentage (hxs : ∀ x ∈ pollAnswers, 0 ≤ x) (x : ℤ) :
    quota 100 pollAnswers.sum x ≤ percentage pollAnswers x :=
  le_award (share_nonneg hxs)

/-- A displayed percentage exceeds the rounded-down one by at most one share. -/
lemma percentage_le_quota_add (hxs : ∀ x ∈ pollAnswers, 0 ≤ x) (x : ℤ) :
    percentage pollAnswers x ≤ quota 100 pollAnswers.sum x + share pollAnswers :=
  award_le (share_nonneg hxs)

/-- An answer without votes is displayed as zero: the favoured class is not the class of zero. -/
lemma percentage_zero (pollAnswers : List ℤ) : percentage pollAnswers 0 = 0 := by
  rw [percentage, quota_zero]
  by_cases h : votedFloors pollAnswers = []
  · rw [share_of_votedFloors_eq_nil h, award_zero]
  · exact award_of_ne (mem_votedFloors.mp (favoured_mem h)).2.symm

/-- **What the displayed percentages add up to**: 100 without the loss, and with the shares of
the favoured class. -/
lemma sum_displayed (pollAnswers : List ℤ) :
    (displayed pollAnswers).sum = 100 - loss 100 pollAnswers +
      ((floors pollAnswers).count (favoured pollAnswers) : ℕ) * share pollAnswers := by
  rw [displayed_eq_map_floors, sum_map_award, sum_floors]

/-- Without votes, the counts are displayed as they are. -/
lemma displayed_of_sum_eq_zero (hxs : ∀ x ∈ pollAnswers, 0 ≤ x) (hs : pollAnswers.sum = 0) :
    displayed pollAnswers = pollAnswers := by
  have hid : ∀ x ∈ pollAnswers, percentage pollAnswers x = id x := by
    intro x hx
    obtain rfl : x = 0 := List.all_zero_of_le_zero_le_of_sum_eq_zero hxs hs hx
    exact percentage_zero pollAnswers
  rw [displayed, List.map_congr_left hid, List.map_id]

/-! ## The function of the source -/

section Refinement

variable (hxs : ∀ x ∈ pollAnswers, 0 ≤ x)

include hxs

/-- Products that fit give the rounded-down percentages. -/
lemma percentageArray_eq_floors (hfit : Fits pollAnswers) (hs : 0 < pollAnswers.sum) :
    percentageArray pollAnswers pollAnswers.sum = .ok (floors pollAnswers) :=
  percentageArray_eq_ok hxs hs hfit.product

/-- `delta` is the loss. -/
lemma foldlM_sub_floors : (floors pollAnswers).foldlM SwiftInt.sub 100 =
    .ok (loss 100 pollAnswers) := by
  have hloss : 0 ≤ loss 100 pollAnswers := loss_hundred_nonneg hxs
  have hsum : (floors pollAnswers).sum = 100 - loss 100 pollAnswers := sum_floors _
  rw [foldlM_sub (floors_nonneg hxs) (by decide) (by omega), hsum, sub_sub_cancel]

/-- No percentage overflows when a share is added to it. -/
lemma inRange_add_share : ∀ f ∈ floors pollAnswers,
    SwiftInt.InRange (f + share pollAnswers) := by
  intro f hf
  have hle : f ≤ (floors pollAnswers).sum := List.single_le_sum (floors_nonneg hxs) f hf
  have hf0 : 0 ≤ f := floors_nonneg hxs f hf
  have hshare : share pollAnswers ≤ loss 100 pollAnswers := share_le_loss hxs
  have hshare0 : 0 ≤ share pollAnswers := share_nonneg hxs
  rw [sum_floors] at hle
  have hhundred : SwiftInt.InRange 100 := by decide
  exact hhundred.of_le (by omega) (by omega)

/-- The division of the loss by the size of the favoured class. -/
lemma div_loss_eq_share (h : 1 < (votedFloors pollAnswers).toFinset.card) :
    SwiftInt.div (loss 100 pollAnswers)
      ((floors pollAnswers).count (favoured pollAnswers) : ℕ) = .ok (share pollAnswers) := by
  have hcount : 0 < (floors pollAnswers).count (favoured pollAnswers) :=
    count_favoured_pos (votedFloors_ne_nil h)
  have hhundred : SwiftInt.InRange 100 := by decide
  have hle : share pollAnswers ≤ 100 := (share_le_loss hxs).trans (loss_le_hundred hxs)
  rw [SwiftInt.div, if_neg (by omega), Int.tdiv_eq_ediv_of_nonneg (loss_hundred_nonneg hxs),
    ← share_of_one_lt_card h, SwiftInt.checked_of_inRange (hhundred.of_le (share_nonneg hxs) hle)]

/-- With two different non-zero percentages the correction returns the displayed ones. -/
lemma correction_eq_ok (h : 1 < (votedFloors pollAnswers).toFinset.card) :
    correction pollAnswers = .ok (displayed pollAnswers) := by
  have hnil : votedFloors pollAnswers ≠ [] := votedFloors_ne_nil h
  have hfirst : subscript (votedFloors pollAnswers) 0 =
      .ok ((votedFloors pollAnswers).headD 0) := by
    cases hv : votedFloors pollAnswers with
    | nil => exact absurd hv hnil
    | cons f fs => rfl
  rw [correction, hfirst, Eval.ok_bind]
  show (SwiftInt.div (loss 100 pollAnswers) (((votedFloors pollAnswers).filter fun x =>
    x = favoured pollAnswers).length : ℕ) >>= addToClass _ (favoured pollAnswers)) = _
  rw [length_filter_favoured hnil, div_loss_eq_share hxs h, Eval.ok_bind,
    addToClass_eq_ok (inRange_add_share hxs), displayed_eq_map_floors]

/-- With votes, the function returns the rounded-down percentages if there is one value among
the non-zero ones, and goes on to the correction otherwise. -/
lemma calculatePercentages_of_sum_pos (hfit : Fits pollAnswers) (hs : 0 < pollAnswers.sum) :
    calculatePercentages pollAnswers =
      if (votedFloors pollAnswers).toFinset.card = 1 then .ok (floors pollAnswers)
      else correction pollAnswers := by
  have hsum : pollAnswers.foldlM SwiftInt.add 0 = .ok pollAnswers.sum := by
    rw [foldlM_add_zero hxs, SwiftInt.checked_of_inRange hfit.sum]
  rw [calculatePercentages, hsum, Eval.ok_bind, if_neg hs.ne',
    percentageArray_eq_floors hxs hfit hs, Eval.ok_bind, foldlM_sub_floors hxs, Eval.ok_bind]
  rfl

/-- **The function on counts that fit**: it returns the displayed percentages, except that with
votes and no non-zero percentage it reads the first element of an empty array. -/
theorem calculatePercentages_eq (hfit : Fits pollAnswers) :
    calculatePercentages pollAnswers =
      if 0 < pollAnswers.sum ∧ votedFloors pollAnswers = [] then .error .indexOutOfRange
      else .ok (displayed pollAnswers) := by
  rcases (List.sum_nonneg hxs).eq_or_lt with hzero | hs
  · rw [calculatePercentages_of_sum_eq_zero hxs hzero.symm,
      displayed_of_sum_eq_zero hxs hzero.symm, if_neg (by omega)]
  · rw [calculatePercentages_of_sum_pos hxs hfit hs]
    by_cases hnil : votedFloors pollAnswers = []
    · -- the set of the values of an empty array has no element, not one
      rw [if_pos (⟨hs, hnil⟩ : _ ∧ _), correction, hnil]
      rfl
    · rw [if_neg (fun hc : _ ∧ _ => hnil hc.2)]
      have hcard : (votedFloors pollAnswers).toFinset.card ≠ 0 := by simpa using hnil
      split_ifs with hone
      · have hshare : share pollAnswers = 0 := if_pos hone.le
        rw [displayed_eq_map_floors, hshare, map_award_zero]
      · exact correction_eq_ok hxs (by omega)

/-- Whatever is returned has overflowed nowhere. -/
lemma fits_of_ok {percentages : List ℤ}
    (h : calculatePercentages pollAnswers = .ok percentages) : Fits pollAnswers := by
  rw [calculatePercentages, foldlM_add_zero hxs, Eval.bind_eq_ok] at h
  obtain ⟨sum, hsum, h⟩ := h
  obtain ⟨hrange, rfl⟩ := SwiftInt.checked_eq_ok.mp hsum
  refine ⟨hrange, ?_⟩
  by_cases hs : pollAnswers.sum = 0
  · intro x hx
    obtain rfl : x = 0 := List.all_zero_of_le_zero_le_of_sum_eq_zero hxs hs hx
    decide
  · rw [if_neg hs, Eval.bind_eq_ok] at h
    obtain ⟨floors, hfloors, -⟩ := h
    exact inRange_of_percentageArray hfloors

/-- **What the function returns are the displayed percentages**, and some percentage is not zero
if there are votes. -/
theorem eq_displayed_of_ok {percentages : List ℤ}
    (h : calculatePercentages pollAnswers = .ok percentages) :
    percentages = displayed pollAnswers ∧
      (0 < pollAnswers.sum → votedFloors pollAnswers ≠ []) := by
  rw [calculatePercentages_eq hxs (fits_of_ok hxs h)] at h
  split_ifs at h with hc
  cases h
  exact ⟨rfl, fun hs hnil => hc ⟨hs, hnil⟩⟩

/-- The percentage returned for one answer is the one displayed for its count. -/
lemma eq_percentage_of_ok {percentages : List ℤ}
    (h : calculatePercentages pollAnswers = .ok percentages) {i : ℕ} {x p : ℤ}
    (hx : pollAnswers[i]? = some x) (hp : percentages[i]? = some p) :
    p = percentage pollAnswers x := by
  obtain ⟨rfl, -⟩ := eq_displayed_of_ok hxs h
  rw [displayed, List.getElem?_map, hx, Option.map_some, Option.some_inj] at hp
  exact hp.symm

end Refinement

end AntViewer
