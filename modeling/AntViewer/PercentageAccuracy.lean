import AntViewer.DisplayedPercentages

set_option relaxedAutoImplicit false
set_option autoImplicit false

/-!
# How accurate the displayed percentages are

A displayed percentage is at least its quota and exceeds it by less than the number of answers
that have votes; the percentages never add up to more than 100. They add up to 100 only when the
function does not return early and the favoured class can share the loss without a remainder:
the early return compares the rounded-down percentages in place of the votes, and `delta/count`
drops what is left over.

## Main definitions

* `voted` — the number of answers that have votes.
* `EvenSplit` — all answers that have votes have the same number of them.
* `SharedOut` — the favoured class takes the whole loss.

## Main results

* `percentages_accurate` — the bounds on every percentage and on their sum.
* `sum_percentages_iff` — when the percentages add up to 100.
-/

namespace AntViewer

open Apportionment

variable {pollAnswers percentages : List ℤ}

/-! ## Bounds -/

/-- The number of answers with at least one vote. -/
def voted (pollAnswers : List ℤ) : ℕ := pollAnswers.countP fun x => 0 < x

section Bounds

variable (hxs : ∀ x ∈ pollAnswers, 0 ≤ x)

include hxs

/-- The displayed percentages are not negative. -/
lemma percentage_nonneg {x : ℤ} (hx : x ∈ pollAnswers) : 0 ≤ percentage pollAnswers x := by
  have hquota : 0 ≤ quota 100 pollAnswers.sum x :=
    quota_nonneg (by decide) (List.sum_nonneg hxs) (hxs x hx)
  exact hquota.trans (quota_le_percentage hxs x)

/-- The displayed percentages add up to at most 100. -/
lemma sum_displayed_le : (displayed pollAnswers).sum ≤ 100 := by
  have hshared := count_mul_share_le hxs
  rw [sum_displayed]
  omega

/-- A displayed percentage is at most 100, because their sum is. -/
lemma percentage_le_hundred {x : ℤ} (hx : x ∈ pollAnswers) :
    percentage pollAnswers x ≤ 100 := by
  have hnonneg : ∀ p ∈ displayed pollAnswers, 0 ≤ p := by
    intro p hp
    obtain ⟨y, hy, rfl⟩ := List.mem_map.mp hp
    exact percentage_nonneg hxs hy
  have hle : percentage pollAnswers x ≤ (displayed pollAnswers).sum :=
    List.single_le_sum hnonneg _ (List.mem_map_of_mem hx)
  exact hle.trans (sum_displayed_le hxs)

/-- With votes, less than one point is lost for each answer that has votes. -/
lemma loss_le_voted (hs : 0 < pollAnswers.sum) : loss 100 pollAnswers ≤ voted pollAnswers - 1 :=
  Int.le_sub_one_of_lt (loss_lt hxs hs)

/-- The displayed percentages miss 100 by at most the loss. -/
lemma le_sum_displayed (hs : 0 < pollAnswers.sum) :
    100 - ((voted pollAnswers : ℤ) - 1) ≤ (displayed pollAnswers).sum := by
  have hloss := loss_le_voted hxs hs
  have hshared : 0 ≤ ((floors pollAnswers).count (favoured pollAnswers) : ℕ) *
      share pollAnswers := mul_nonneg (by omega) (share_nonneg hxs)
  rw [sum_displayed]
  omega

/-- A displayed percentage exceeds its quota by less than the number of answers with votes. -/
lemma percentage_le_quota_add_voted (hs : 0 < pollAnswers.sum) (x : ℤ) :
    percentage pollAnswers x ≤ quota 100 pollAnswers.sum x + (voted pollAnswers - 1) := by
  have hquota := percentage_le_quota_add hxs x
  have hshare := share_le_loss hxs
  have hloss := loss_le_voted hxs hs
  omega

/-- If all shares of 100 are whole numbers, they are displayed. -/
lemma sum_mul_percentage_of_dvd (hs : 0 < pollAnswers.sum)
    (hdvd : ∀ x ∈ pollAnswers, pollAnswers.sum ∣ 100 * x) {x : ℤ} (hx : x ∈ pollAnswers) :
    pollAnswers.sum * percentage pollAnswers x = 100 * x := by
  have hloss : loss 100 pollAnswers = 0 := (loss_eq_zero_iff hs).mpr hdvd
  have hshare : share pollAnswers = 0 := by
    have hle := share_le_loss hxs
    have hnonneg := share_nonneg hxs
    omega
  rw [percentage, hshare, award_zero, sum_mul_quota_of_dvd (hdvd x hx)]

end Bounds

/-- **Accuracy and range of the displayed percentages**, for counts that are not negative and
on which the function returns. Without votes all of them are zero. With votes each one is
between its quota and its quota with one less than the number of answers that have votes, and
in `0...100`; answers without votes get zero; the sum is at most 100 and misses it by less than
the number of answers that have votes; and shares that are all whole numbers are displayed
exactly.

**Proof sketch.** What is returned are the displayed percentages. The loss is less than the
number of answers with votes because each of them loses less than one point; the share of the
favoured class is part of the loss, so the sum does not pass 100, and then no percentage does. -/
theorem percentages_accurate (hxs : ∀ x ∈ pollAnswers, 0 ≤ x)
    (h : calculatePercentages pollAnswers = .ok percentages) :
    percentages.length = pollAnswers.length ∧
    (pollAnswers.sum = 0 → ∀ p ∈ percentages, p = 0) ∧
    (0 < pollAnswers.sum →
      (∀ (i : ℕ) (x p : ℤ), pollAnswers[i]? = some x → percentages[i]? = some p →
        100 * x / pollAnswers.sum ≤ p ∧
        p ≤ 100 * x / pollAnswers.sum + (voted pollAnswers - 1) ∧
        0 ≤ p ∧ p ≤ 100 ∧ (x = 0 → p = 0)) ∧
      percentages.sum ≤ 100 ∧
      100 - ((voted pollAnswers : ℤ) - 1) ≤ percentages.sum ∧
      ((∀ x ∈ pollAnswers, pollAnswers.sum ∣ 100 * x) →
        ∀ (i : ℕ) (x p : ℤ), pollAnswers[i]? = some x → percentages[i]? = some p →
          pollAnswers.sum * p = 100 * x)) := by
  have hdisplayed : percentages = displayed pollAnswers := (eq_displayed_of_ok hxs h).1
  refine ⟨length_of_calculatePercentages h, ?_, ?_⟩
  · intro hs p hp
    rw [hdisplayed, displayed_of_sum_eq_zero hxs hs] at hp
    exact List.all_zero_of_le_zero_le_of_sum_eq_zero hxs hs hp
  · intro hs
    refine ⟨?_, ?_, ?_, ?_⟩
    · intro i x p hx hp
      obtain rfl : p = percentage pollAnswers x := eq_percentage_of_ok hxs h hx hp
      have hmem : x ∈ pollAnswers := List.mem_of_getElem? hx
      refine ⟨quota_le_percentage hxs x, percentage_le_quota_add_voted hxs hs x,
        percentage_nonneg hxs hmem, percentage_le_hundred hxs hmem, ?_⟩
      rintro rfl
      exact percentage_zero pollAnswers
    · rw [hdisplayed]
      exact sum_displayed_le hxs
    · rw [hdisplayed]
      exact le_sum_displayed hxs hs
    · intro hdvd i x p hx hp
      obtain rfl : p = percentage pollAnswers x := eq_percentage_of_ok hxs h hx hp
      exact sum_mul_percentage_of_dvd hxs hs hdvd (List.mem_of_getElem? hx)

/-- Three answers with votes and one without. -/
theorem percentages_accurate_four :
    calculatePercentages [3, 0, 2, 1] = .ok [51, 0, 33, 16] ∧ voted [3, 0, 2, 1] = 3 ∧
      ([51, 0, 33, 16] : List ℤ).sum ≤ 100 := by
  have h : calculatePercentages [3, 0, 2, 1] = .ok [51, 0, 33, 16] := by decide
  exact ⟨h, by decide, ((percentages_accurate (by decide) h).2.2 (by decide)).2.1⟩

/-! ## When the percentages add up -/

/-- All answers that have votes have the same number of them. -/
def EvenSplit (pollAnswers : List ℤ) : Prop :=
  ∀ x ∈ pollAnswers, ∀ y ∈ pollAnswers, 0 < x → 0 < y → x = y

instance (pollAnswers : List ℤ) : Decidable (EvenSplit pollAnswers) :=
  inferInstanceAs (Decidable (∀ _ ∈ _, _))

/-- Two answers have different rounded-down percentages other than zero, and the loss can be
divided by the number of answers with the favoured one. -/
def SharedOut (pollAnswers : List ℤ) : Prop :=
  (∃ f ∈ floors pollAnswers, ∃ g ∈ floors pollAnswers, 0 < f ∧ f < g) ∧
    (((floors pollAnswers).count (favoured pollAnswers) : ℕ) : ℤ) ∣ loss 100 pollAnswers

instance (pollAnswers : List ℤ) : Decidable (SharedOut pollAnswers) :=
  inferInstanceAs (Decidable (_ ∧ _))

/-- If nothing is lost and there is only one value among the non-zero percentages, the split is
even. -/
lemma evenSplit_of_loss_eq_zero (hs : 0 < pollAnswers.sum) (hloss : loss 100 pollAnswers = 0)
    (hcard : (votedFloors pollAnswers).toFinset.card ≤ 1) : EvenSplit pollAnswers := by
  have hexact : ∀ x ∈ pollAnswers, pollAnswers.sum * quota 100 pollAnswers.sum x = 100 * x :=
    fun x hx => sum_mul_quota_of_dvd ((loss_eq_zero_iff hs).mp hloss x hx)
  have hmem : ∀ x ∈ pollAnswers, 0 < x →
      quota 100 pollAnswers.sum x ∈ (votedFloors pollAnswers).toFinset := by
    intro x hx hpos
    rw [List.mem_toFinset, mem_votedFloors]
    refine ⟨List.mem_map_of_mem hx, fun hzero => ?_⟩
    have hx' := hexact x hx
    rw [hzero, mul_zero] at hx'
    omega
  intro x hx y hy hxpos hypos
  have heq := Finset.card_le_one.mp hcard _ (hmem x hx hxpos) _ (hmem y hy hypos)
  have hx' := hexact x hx
  rw [heq, hexact y hy] at hx'
  omega

/-- **When the displayed percentages add up to 100**, unless the split is even. -/
lemma sum_displayed_eq_iff (hxs : ∀ x ∈ pollAnswers, 0 ≤ x) (hs : 0 < pollAnswers.sum)
    (hsplit : ¬EvenSplit pollAnswers) :
    (displayed pollAnswers).sum = 100 ↔ SharedOut pollAnswers := by
  rw [SharedOut, ← one_lt_card_iff hxs, sum_displayed]
  by_cases hcard : 1 < (votedFloors pollAnswers).toFinset.card
  · have hshare := share_of_one_lt_card hcard
    constructor
    · intro hsum
      exact ⟨hcard, Dvd.intro (share pollAnswers) (by omega)⟩
    · rintro ⟨-, hdvd⟩
      rw [hshare, Int.mul_ediv_cancel' hdvd]
      omega
  · have hshare : share pollAnswers = 0 := if_pos (by omega)
    have hloss : loss 100 pollAnswers ≠ 0 := fun hloss =>
      hsplit (evenSplit_of_loss_eq_zero hs hloss (by omega))
    rw [hshare, mul_zero]
    constructor
    · intro hsum
      omega
    · intro hshared
      exact absurd hshared.1 hcard

/-- **When the percentages add up.** On counts with votes on which the function returns, the
percentages of a split that is not even add up to 100 if and only if two answers have different
non-zero percentages after rounding down and the loss can be divided by the size of the
favoured class.

**Proof sketch.** The displayed percentages add up to 100 less the loss, with the size of the
favoured class times its share. With two different non-zero percentages the share is the loss
divided by that size, and the rest of that division is dropped. With one, the loss is not
handed out at all, and it is zero only for an even split. -/
theorem sum_percentages_iff (hxs : ∀ x ∈ pollAnswers, 0 ≤ x) (hs : 0 < pollAnswers.sum)
    (h : calculatePercentages pollAnswers = .ok percentages) :
    (¬EvenSplit pollAnswers → percentages.sum = 100) ↔
      EvenSplit pollAnswers ∨ SharedOut pollAnswers := by
  obtain ⟨rfl, -⟩ := eq_displayed_of_ok hxs h
  by_cases hsplit : EvenSplit pollAnswers
  · exact ⟨fun _ => Or.inl hsplit, fun _ hne => absurd hsplit hne⟩
  · rw [← sum_displayed_eq_iff hxs hs hsplit]
    constructor
    · intro hsum
      exact Or.inr (hsum hsplit)
    · intro hor _
      exact hor.resolve_left hsplit

-- of three equal answers and one of two thirds of their votes, the last one takes the whole loss
example : SharedOut [3, 3, 3, 2] := by decide

/-- Two answers take a third and two thirds. -/
theorem sum_percentages_two :
    (¬EvenSplit [1, 2] → ([34, 66] : List ℤ).sum = 100) ↔ EvenSplit [1, 2] ∨ SharedOut [1, 2] :=
  sum_percentages_iff (by decide) (by decide) (by decide)

/-- **Percentages that do not add up**: an answer that rounds down to zero triggers the early
return, and a class of two cannot share one point. -/
theorem percentages_short :
    ((∀ x ∈ [1, 200], (0 : ℤ) ≤ x) ∧ 0 < ([1, 200] : List ℤ).sum ∧ ¬EvenSplit [1, 200] ∧
      calculatePercentages [1, 200] = .ok [0, 99] ∧ ([0, 99] : List ℤ).sum ≠ 100) ∧
    ((∀ x ∈ [1, 1, 2, 2, 3], (0 : ℤ) ≤ x) ∧ 0 < ([1, 1, 2, 2, 3] : List ℤ).sum ∧
      ¬EvenSplit [1, 1, 2, 2, 3] ∧
      calculatePercentages [1, 1, 2, 2, 3] = .ok [11, 11, 22, 22, 33] ∧
      ([11, 11, 22, 22, 33] : List ℤ).sum ≠ 100) := by
  decide

end AntViewer
