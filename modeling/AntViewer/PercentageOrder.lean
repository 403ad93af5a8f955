import AntViewer.DisplayedPercentages

set_option relaxedAutoImplicit false
set_option autoImplicit false

/-!
# Whether the displayed percentages follow the votes

Rounding down keeps the order of two answers, and an answer that gets one more vote does not
lose quota. Both can change when the favoured class is raised: the class is chosen by the
position and the repetition of its percentage, whether it is large or small, and all its members
get the same share. The theorems say exactly when the share turns the order around.

## Main results

* `displayed_order_iff` — when the answer with more votes shows at least as much.
* `vote_keeps_percentage_iff` — when one more vote does not lower the percentage of its answer.
-/

namespace AntViewer

open Apportionment

variable {pollAnswers percentages : List ℤ}

/-! ## Two answers of one poll -/

/-- The quotas of a poll follow its votes, also when there are none. -/
lemma quota_hundred_mono (hxs : ∀ x ∈ pollAnswers, 0 ≤ x) {x y : ℤ} (h : y ≤ x) :
    quota 100 pollAnswers.sum y ≤ quota 100 pollAnswers.sum x := by
  rcases (List.sum_nonneg hxs).eq_or_lt with hzero | hs
  · rw [← hzero, quota, quota, Int.ediv_zero, Int.ediv_zero]
  · exact quota_mono (by decide) hs h

/-- **When the displayed order is the order of the votes.** Let answer `i` have at least as many
votes as answer `j`, on counts on which the function returns. Then `i` shows at least the
percentage of `j` unless `j` is in the favoured class, `i` has a larger percentage after
rounding down, and the share of the class lifts `j` past it. In particular answers with equally
many votes show the same percentage.

**Proof sketch.** The quotas follow the votes, and raising one class of quotas turns around
the order of two of them only if it raises the smaller one past the other. -/
theorem displayed_order_iff (hxs : ∀ x ∈ pollAnswers, 0 ≤ x)
    (h : calculatePercentages pollAnswers = .ok percentages) {i j : ℕ} {x y p q : ℤ}
    (hx : pollAnswers[i]? = some x) (hy : pollAnswers[j]? = some y)
    (hp : percentages[i]? = some p) (hq : percentages[j]? = some q) (hyx : y ≤ x) :
    (q ≤ p ↔
      ¬(quota 100 pollAnswers.sum y = favoured pollAnswers ∧
        quota 100 pollAnswers.sum y < quota 100 pollAnswers.sum x ∧
        quota 100 pollAnswers.sum x < quota 100 pollAnswers.sum y + share pollAnswers)) ∧
    (x = y → p = q) := by
  obtain rfl : p = percentage pollAnswers x := eq_percentage_of_ok hxs h hx hp
  obtain rfl : q = percentage pollAnswers y := eq_percentage_of_ok hxs h hy hq
  constructor
  · exact award_le_award_iff (share_nonneg hxs) (quota_hundred_mono hxs hyx)
  · intro hxy
    rw [hxy]

/-- Two answers of a poll whose order is kept, and two with equally many votes. -/
theorem displayed_order_three :
    calculatePercentages [1, 1, 4] = .ok [16, 16, 68] ∧ (16 : ℤ) ≤ 68 := by
  have h : calculatePercentages [1, 1, 4] = .ok [16, 16, 68] := by decide
  have horder := displayed_order_iff (by decide) h (i := 2) (j := 0) rfl rfl rfl rfl (by decide)
  exact ⟨h, horder.1.mpr (by decide)⟩

/-- **An answer with fewer votes that shows more**: of 17, 18 and 18 votes the first one is
favoured because its percentage occurs once, and the two lost points lift it past the others. -/
theorem displayed_order_reversed :
    ¬∀ (xs ps : List ℤ) (i j : ℕ) (x y p q : ℤ), (∀ z ∈ xs, 0 ≤ z) →
      calculatePercentages xs = .ok ps → xs[i]? = some x → xs[j]? = some y →
      ps[i]? = some p → ps[j]? = some q → y ≤ x → q ≤ p := by
  intro hall
  have h : calculatePercentages [17, 18, 18] = .ok [34, 33, 33] := by decide
  have hle : (34 : ℤ) ≤ 33 :=
    hall [17, 18, 18] [34, 33, 33] 1 0 18 17 33 34 (by decide) h rfl rfl rfl rfl (by decide)
  exact absurd hle (by decide)

/-! ## One more vote -/

/-- One more vote is one more in the sum. -/
lemma sum_set_add_one {i : ℕ} {x : ℤ} (hx : pollAnswers[i]? = some x) :
    (pollAnswers.set i (x + 1)).sum = pollAnswers.sum + 1 := by
  obtain ⟨hi, rfl⟩ := List.getElem?_eq_some_iff.mp hx
  rw [List.sum_set', dif_pos hi, neg_add_cancel_left]

/-- Counts stay non-negative after one more vote. -/
lemma nonneg_set_add_one (hxs : ∀ x ∈ pollAnswers, 0 ≤ x) {i : ℕ} {x : ℤ}
    (hx : pollAnswers[i]? = some x) : ∀ y ∈ pollAnswers.set i (x + 1), 0 ≤ y := by
  intro y hy
  rcases List.mem_or_eq_of_mem_set hy with hmem | rfl
  · exact hxs y hmem
  · have hx0 : 0 ≤ x := hxs x (List.mem_of_getElem? hx)
    omega

/-- **One more vote does not lower the quota of its answer.** -/
lemma quota_le_quota_vote (hxs : ∀ x ∈ pollAnswers, 0 ≤ x) {x : ℤ} (hx : x ∈ pollAnswers) :
    quota 100 pollAnswers.sum x ≤ quota 100 (pollAnswers.sum + 1) (x + 1) := by
  have hx0 : 0 ≤ x := hxs x hx
  rcases (List.sum_nonneg hxs).eq_or_lt with hzero | hs
  · rw [← hzero, quota, Int.ediv_zero]
    exact quota_nonneg (by decide) (by decide) (by omega)
  · have hle : x ≤ pollAnswers.sum := List.single_le_sum hxs x hx
    exact quota_le_quota_add (by decide) hs hle (by decide)

/-- The percentage after one more vote, over the old sum. -/
lemma percentage_vote {i : ℕ} {x : ℤ} (hx : pollAnswers[i]? = some x) :
    percentage (pollAnswers.set i (x + 1)) (x + 1) =
      award (favoured (pollAnswers.set i (x + 1))) (share (pollAnswers.set i (x + 1)))
        (quota 100 (pollAnswers.sum + 1) (x + 1)) := by
  rw [percentage, sum_set_add_one hx]

/-- One more vote does not lower the percentage below the old quota. -/
lemma quota_le_percentage_vote (hxs : ∀ x ∈ pollAnswers, 0 ≤ x) {i : ℕ} {x : ℤ}
    (hx : pollAnswers[i]? = some x) :
    quota 100 pollAnswers.sum x ≤ percentage (pollAnswers.set i (x + 1)) (x + 1) := by
  rw [percentage_vote hx]
  apply (quota_le_quota_vote hxs (List.mem_of_getElem? hx)).trans
  exact le_award (share_nonneg (nonneg_set_add_one hxs hx))

/-- **When a vote does not lower its own answer.** Let the function return on counts and on the
same counts with one more vote for answer `i`. The percentage of `i` does not fall below what
it was after rounding down, so it falls by at most one share of the favoured class; and it
does not fall at all unless `i` was in that class and its share was more than what its
percentage after rounding down and its share after the vote make up for.

**Proof sketch.** The quota of `i` does not fall. Outside the favoured class that quota was
what `i` showed; inside, `i` showed its quota and the share. -/
theorem vote_keeps_percentage_iff (hxs : ∀ x ∈ pollAnswers, 0 ≤ x) {percentages' : List ℤ}
    {i : ℕ} {x p p' : ℤ} (hx : pollAnswers[i]? = some x)
    (h : calculatePercentages pollAnswers = .ok percentages)
    (h' : calculatePercentages (pollAnswers.set i (x + 1)) = .ok percentages')
    (hp : percentages[i]? = some p) (hp' : percentages'[i]? = some p') :
    quota 100 pollAnswers.sum x ≤ quota 100 (pollAnswers.sum + 1) (x + 1) ∧
    p ≤ p' + share pollAnswers ∧
    (p ≤ p' ↔
      ¬(quota 100 pollAnswers.sum x = favoured pollAnswers ∧
        award (favoured (pollAnswers.set i (x + 1))) (share (pollAnswers.set i (x + 1)))
            (quota 100 (pollAnswers.sum + 1) (x + 1)) <
          quota 100 pollAnswers.sum x + share pollAnswers)) := by
  have hxs' : ∀ y ∈ pollAnswers.set i (x + 1), 0 ≤ y := nonneg_set_add_one hxs hx
  have hi : i < pollAnswers.length := (List.getElem?_eq_some_iff.mp hx).1
  have hx' : (pollAnswers.set i (x + 1))[i]? = some (x + 1) := List.getElem?_set_self hi
  obtain rfl : p = percentage pollAnswers x := eq_percentage_of_ok hxs h hx hp
  obtain rfl : p' = percentage (pollAnswers.set i (x + 1)) (x + 1) :=
    eq_percentage_of_ok hxs' h' hx' hp'
  have hbefore := percentage_le_quota_add hxs x
  have hafter := quota_le_percentage_vote hxs hx
  refine ⟨quota_le_quota_vote hxs (List.mem_of_getElem? hx), by omega, ?_⟩
  rw [← percentage_vote hx]
  by_cases hfav : quota 100 pollAnswers.sum x = favoured pollAnswers
  · rw [percentage_of_eq_favoured hfav]
    omega
  · rw [percentage_of_ne_favoured hfav]
    omega

/-- A second vote for one of two answers. -/
theorem vote_keeps_percentage_two :
    calculatePercentages [1, 2] = .ok [34, 66] ∧
      calculatePercentages ([1, 2].set 0 (1 + 1)) = .ok [50, 50] ∧ (34 : ℤ) ≤ 50 := by
  have h : calculatePercentages [1, 2] = .ok [34, 66] := by decide
  have h' : calculatePercentages ([1, 2].set 0 (1 + 1)) = .ok [50, 50] := by decide
  have hvote := vote_keeps_percentage_iff (by decide) (i := 0) rfl h h' rfl rfl
  exact ⟨h, h', hvote.2.2.mpr (by decide)⟩

/-- **A vote that lowers its own answer**: of 16, 4 and 17 votes the first answer gets both lost
points, and after one more vote it is level with the third one and gets none. -/
theorem vote_lowers_percentage :
    ¬∀ (xs ps ps' : List ℤ) (i : ℕ) (x p p' : ℤ), (∀ z ∈ xs, 0 ≤ z) → xs[i]? = some x →
      calculatePercentages xs = .ok ps → calculatePercentages (xs.set i (x + 1)) = .ok ps' →
      ps[i]? = some p → ps'[i]? = some p' → p ≤ p' := by
  intro hall
  have h : calculatePercentages [16, 4, 17] = .ok [45, 10, 45] := by decide
  have h' : calculatePercentages ([16, 4, 17].set 0 (16 + 1)) = .ok [44, 12, 44] := by decide
  have hle : (45 : ℤ) ≤ 44 := hall [16, 4, 17] _ _ 0 16 45 44 (by decide) rfl h h' rfl rfl
  exact absurd hle (by decide)

end AntViewer
