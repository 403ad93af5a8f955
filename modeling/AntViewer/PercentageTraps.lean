import AntViewer.DisplayedPercentages
import AntViewer.FirePoll

set_option relaxedAutoImplicit false
set_option autoImplicit false

/-!
# When computing the percentages traps

`calculatePercentages` reads `arrayWithoutZero[0]` after a test on the number of distinct values
that lets the empty array through. The array is empty when no answer reaches one percent of the
votes, which takes more than 100 answers. The counts of a poll are numbers of documents of one
snapshot, so their sum does not overflow.

## Main results

* `eq_trap_of_error`, `exists_error_iff` — on what the function traps, and exactly when.
* `trap_boundary` — the boundary, with the numbers of answers on its two sides.
* `FirePoll.answersHandler_returns` — the listener of a poll with at most 100 answers returns.
* `FirePoll.answersHandler_traps` — a poll with more answers has a snapshot on which it does not.
-/

namespace AntViewer

open Apportionment

variable {pollAnswers : List ℤ}

/-! ## The boundary -/

/-- With votes, there are no non-zero percentages iff no answer reaches one percent. -/
lemma votedFloors_eq_nil_iff (hxs : ∀ x ∈ pollAnswers, 0 ≤ x) (hs : 0 < pollAnswers.sum) :
    votedFloors pollAnswers = [] ↔ ∀ x ∈ pollAnswers, 100 * x < pollAnswers.sum := by
  have hzero : ∀ x ∈ pollAnswers, (quota 100 pollAnswers.sum x = 0 ↔ 100 * x < pollAnswers.sum) :=
    fun x hx => quota_eq_zero_iff (by decide) hs (hxs x hx)
  rw [votedFloors, List.filter_eq_nil_iff, floors, quotas, List.forall_mem_map]
  constructor
  · intro h x hx
    apply (hzero x hx).mp
    simpa using h x hx
  · intro h x hx
    simpa using (hzero x hx).mpr (h x hx)

/-- A sum of counts that does not fit is refused by the addition. -/
lemma calculatePercentages_of_not_inRange (hxs : ∀ x ∈ pollAnswers, 0 ≤ x)
    (hs : ¬SwiftInt.InRange pollAnswers.sum) :
    calculatePercentages pollAnswers = .error .overflow := by
  rw [calculatePercentages, foldlM_add_zero hxs, SwiftInt.checked, if_neg hs]
  rfl

/-- A sum that does not fit is more than 100 times every count that does. -/
lemma lt_sum_of_not_inRange (hxs : ∀ x ∈ pollAnswers, 0 ≤ x)
    (hfit : ∀ x ∈ pollAnswers, SwiftInt.InRange (100 * x))
    (hs : ¬SwiftInt.InRange pollAnswers.sum) :
    0 < pollAnswers.sum ∧ ∀ x ∈ pollAnswers, 100 * x < pollAnswers.sum := by
  have hnonneg : 0 ≤ pollAnswers.sum := List.sum_nonneg hxs
  have hlarge : (2 : ℤ) ^ 63 ≤ pollAnswers.sum := by
    by_contra hlt
    exact hs ⟨by omega, by omega⟩
  refine ⟨by omega, ?_⟩
  intro x hx
  exact (hfit x hx).2.trans_le hlarge

/-- **Which trap is hit**: the sum overflows, or an empty array is read. -/
lemma eq_trap_of_error (hxs : ∀ x ∈ pollAnswers, 0 ≤ x)
    (hfit : ∀ x ∈ pollAnswers, SwiftInt.InRange (100 * x)) {trap : Trap}
    (h : calculatePercentages pollAnswers = .error trap) :
    (¬SwiftInt.InRange pollAnswers.sum ∧ trap = .overflow) ∨
      (SwiftInt.InRange pollAnswers.sum ∧ trap = .indexOutOfRange ∧ 0 < pollAnswers.sum ∧
        votedFloors pollAnswers = []) := by
  by_cases hs : SwiftInt.InRange pollAnswers.sum
  · rw [calculatePercentages_eq hxs ⟨hs, hfit⟩] at h
    split_ifs at h with hempty
    cases h
    exact Or.inr ⟨hs, rfl, hempty⟩
  · rw [calculatePercentages_of_not_inRange hxs hs] at h
    cases h
    exact Or.inl ⟨hs, rfl⟩

/-- **The boundary of the trap**: votes, and no answer that reaches one percent of them. -/
lemma exists_error_iff (hxs : ∀ x ∈ pollAnswers, 0 ≤ x)
    (hfit : ∀ x ∈ pollAnswers, SwiftInt.InRange (100 * x)) :
    (∃ trap, calculatePercentages pollAnswers = .error trap) ↔
      0 < pollAnswers.sum ∧ ∀ x ∈ pollAnswers, 100 * x < pollAnswers.sum := by
  constructor
  · rintro ⟨trap, h⟩
    rcases eq_trap_of_error hxs hfit h with ⟨hs, -⟩ | ⟨-, -, hpos, hempty⟩
    · exact lt_sum_of_not_inRange hxs hfit hs
    · exact ⟨hpos, (votedFloors_eq_nil_iff hxs hpos).mp hempty⟩
  · rintro ⟨hpos, hlt⟩
    by_cases hs : SwiftInt.InRange pollAnswers.sum
    · refine ⟨.indexOutOfRange, ?_⟩
      rw [calculatePercentages_eq hxs ⟨hs, hfit⟩,
        if_pos ⟨hpos, (votedFloors_eq_nil_iff hxs hpos).mpr hlt⟩]
    · exact ⟨.overflow, calculatePercentages_of_not_inRange hxs hs⟩

/-- **At most 100 answers**: one of them reaches one percent, so nothing traps. -/
lemma exists_ok_of_length_le (hxs : ∀ x ∈ pollAnswers, 0 ≤ x)
    (hfit : ∀ x ∈ pollAnswers, SwiftInt.InRange (100 * x)) (hlen : pollAnswers.length ≤ 100) :
    ∃ percentages, calculatePercentages pollAnswers = .ok percentages := by
  cases h : calculatePercentages pollAnswers with
  | ok percentages => exact ⟨percentages, rfl⟩
  | error trap =>
    obtain ⟨hs, hlt⟩ := (exists_error_iff hxs hfit).mp ⟨trap, h⟩
    have hlen' : (pollAnswers.length : ℤ) ≤ 100 := by exact_mod_cast hlen
    obtain ⟨x, hx, hle⟩ := exists_quota_pos hlen' hs
    exact absurd (hlt x hx) (by omega)

/-- **More than 100 answers**: with one vote each, none of them reaches one percent. -/
lemma exists_error_replicate {n : ℕ} (hn : 100 < n) :
    ∃ trap, calculatePercentages (List.replicate n 1) = .error trap := by
  have hone : ∀ x ∈ List.replicate n (1 : ℤ), x = 1 := fun x hx => List.eq_of_mem_replicate hx
  have hsum : (List.replicate n (1 : ℤ)).sum = n := by simp
  apply (exists_error_iff ?_ ?_).mpr
  · rw [hsum]
    refine ⟨by omega, ?_⟩
    intro x hx
    rw [hone x hx]
    omega
  · intro x hx
    rw [hone x hx]
    decide
  · intro x hx
    rw [hone x hx]
    decide

namespace FirePoll

/-! ## The counts of a snapshot -/

/-- The counts of a snapshot are not negative. -/
lemma voteCounts_nonneg (documents : List QueryDocumentSnapshot) (n : ℕ) :
    ∀ x ∈ voteCounts documents n, 0 ≤ x := by
  intro x hx
  obtain ⟨i, -, rfl⟩ := List.mem_map.mp hx
  omega

/-- The counts of a snapshot add up to at most the number of its documents. -/
lemma sum_voteCounts_le (documents : List QueryDocumentSnapshot) (n : ℕ) :
    (voteCounts documents n).sum ≤ documents.length :=
  Tally.sum_countP_le (fun d : QueryDocumentSnapshot => d.data.int "chosenAnswer") documents n

/-- The sum of the counts of a snapshot is an `Int`, as the number of its documents is. -/
lemma inRange_sum_voteCounts {documents : List QueryDocumentSnapshot}
    (hdocuments : SwiftInt.InRange documents.length) (n : ℕ) :
    SwiftInt.InRange (voteCounts documents n).sum :=
  hdocuments.of_le (List.sum_nonneg (voteCounts_nonneg documents n))
    (sum_voteCounts_le documents n)

/-- One document for each of `n` answers. -/
def oneVoteEach (n : ℕ) : List QueryDocumentSnapshot :=
  (List.range n).map fun i : ℕ =>
    ⟨⟨["polls", "p", "answeredUsers"], toString i⟩, [("chosenAnswer", .integer i)]⟩

/-- Every answer counts the one document that chose it. -/
lemma voteCounts_oneVoteEach (n : ℕ) : voteCounts (oneVoteEach n) n = List.replicate n 1 := by
  rw [List.eq_replicate_iff]
  refine ⟨length_voteCounts _ _, ?_⟩
  intro x hx
  obtain ⟨i, hi, rfl⟩ := List.mem_map.mp hx
  have hcount : ((oneVoteEach n).countP fun d => d.data.int "chosenAnswer" = some (i : ℤ)) =
      (List.range n).count i := by
    rw [oneVoteEach, List.countP_map, List.count]
    apply List.countP_congr
    intro j _
    simp [Fields.int, FieldValue.asInt]
  rw [hcount, List.count_eq_one_of_mem List.nodup_range hi]
  rfl

end FirePoll

/-! ## The main results -/

/-- **Exact boundary of the trap**, for counts that are not negative and whose hundredfold is an
`Int`. Computing the percentages traps if and only if there are votes and no count reaches one
percent of them. No division is by zero; as long as the sum of the counts is an `Int`, which it
is for the counts of every snapshot, the trap is the first element of an empty array. With at
most 100 answers nothing traps, and for every larger number of answers there is a snapshot with
one vote for each that does.

**Proof sketch.** Outside of an overflow the function only traps on an array without non-zero
percentages, so on counts below one percent of the sum. At most 100 of these do not add up to
the sum. A sum that overflows is more than any hundredfold that does not. -/
theorem trap_boundary (hxs : ∀ x ∈ pollAnswers, 0 ≤ x)
    (hfit : ∀ x ∈ pollAnswers, SwiftInt.InRange (100 * x)) :
    ((∃ trap, calculatePercentages pollAnswers = .error trap) ↔
      0 < pollAnswers.sum ∧ ∀ x ∈ pollAnswers, 100 * x < pollAnswers.sum) ∧
    (∀ trap, calculatePercentages pollAnswers = .error trap → trap ≠ .divisionByZero ∧
      (SwiftInt.InRange pollAnswers.sum →
        trap = .indexOutOfRange ∧ votedFloors pollAnswers = [])) ∧
    (∀ (documents : List QueryDocumentSnapshot) (n : ℕ), SwiftInt.InRange documents.length →
      SwiftInt.InRange (FirePoll.voteCounts documents n).sum) ∧
    (pollAnswers.length ≤ 100 →
      ∃ percentages, calculatePercentages pollAnswers = .ok percentages) ∧
    (∀ n : ℕ, 100 < n → (∃ documents, FirePoll.voteCounts documents n = List.replicate n 1) ∧
      ∃ trap, calculatePercentages (List.replicate n 1) = .error trap) := by
  refine ⟨exists_error_iff hxs hfit, ?_, ?_, exists_ok_of_length_le hxs hfit, ?_⟩
  · intro trap h
    rcases eq_trap_of_error hxs hfit h with ⟨hs, rfl⟩ | ⟨-, rfl, -, hempty⟩
    · refine ⟨by decide, ?_⟩
      intro hrange
      exact absurd hrange hs
    · exact ⟨by decide, fun _ => ⟨rfl, hempty⟩⟩
  · intro documents n hdocuments
    exact FirePoll.inRange_sum_voteCounts hdocuments n
  · intro n hn
    exact ⟨⟨FirePoll.oneVoteEach n, FirePoll.voteCounts_oneVoteEach n⟩,
      exists_error_replicate hn⟩

/-- Two answers, one without votes. -/
theorem trap_boundary_two :
    ¬((0 : ℤ) < ([0, 3] : List ℤ).sum ∧ ∀ x ∈ ([0, 3] : List ℤ), 100 * x < ([0, 3] : List ℤ).sum) ∧
      ∃ percentages, calculatePercentages [0, 3] = .ok percentages := by
  have h := @trap_boundary [0, 3] (by decide) (by decide)
  exact ⟨by decide, h.2.2.2.1 (by decide)⟩

namespace FirePoll

variable (current : Option User) (poll : FirePoll)

/-- **A poll with at most 100 answers follows its snapshots**: the listener returns on every
snapshot whose number of documents can be multiplied by 100. -/
theorem answersHandler_returns (hlen : poll.pollAnswers.length ≤ 100)
    (documents : List QueryDocumentSnapshot)
    (hdocuments : SwiftInt.InRange (100 * documents.length)) :
    ∃ out, answersHandler current poll (some documents) = .ok out := by
  have hfit : ∀ x ∈ voteCounts documents poll.pollAnswers.length, SwiftInt.InRange (100 * x) := by
    intro x hx
    have hx0 : 0 ≤ x := voteCounts_nonneg documents _ x hx
    have hle : x ≤ (voteCounts documents poll.pollAnswers.length).sum :=
      List.single_le_sum (voteCounts_nonneg documents _) x hx
    have hsum := sum_voteCounts_le documents poll.pollAnswers.length
    exact hdocuments.of_le (by omega) (by omega)
  obtain ⟨percentages, h⟩ := exists_ok_of_length_le (voteCounts_nonneg documents _) hfit
    (by rwa [length_voteCounts])
  exact ⟨(_, _), answersHandler_eq_ok.mpr ⟨percentages, h, rfl, rfl⟩⟩

/-- **A poll with more than 100 answers can stop the process**: the listener does not return on
the snapshot in which every answer has one vote. -/
theorem answersHandler_traps (hlen : 100 < poll.pollAnswers.length) :
    ∃ trap, answersHandler current poll (some (oneVoteEach poll.pollAnswers.length)) =
      .error trap := by
  cases hout : answersHandler current poll (some (oneVoteEach poll.pollAnswers.length)) with
  | error trap => exact ⟨trap, rfl⟩
  | ok out =>
    obtain ⟨percentages, h, -⟩ := answersHandler_eq_ok.mp hout
    rw [voteCounts_oneVoteEach] at h
    obtain ⟨trap, htrap⟩ := exists_error_replicate hlen
    rw [htrap] at h
    cases h

end FirePoll

end AntViewer
