import AntViewer.FirePoll
import AntViewer.Library.Runs

set_option relaxedAutoImplicit false
set_option autoImplicit false

/-!
# A poll on the screen

The life of one `FirePoll` while a consumer shows it: the consumer sets `onUpdate` once the
poll is built, the answers listener calls back with snapshots and errors, and the signed-in
user changes in between. A run goes on as long as no callback traps.

## Main definitions

* `PollSession`, `PollSession.step` — the session and its events.
* `PollSession.Consistent` — what holds of a session, given the events so far.
* `PollSession.ReadsOwnAnswer` — the user answer after a snapshot is the current user's own.

## Main results

* `PollSession.consistent_after_run` — counts, percentages and observed updates of every run.
* `PollSession.reads_own_answer_iff` — exactly when the user answer is the current user's.
-/

namespace AntViewer

open Runs

/-- A poll, the signed-in user, and the calls of `onUpdate` so far. -/
structure PollSession where
  current : Option User
  poll : FirePoll
  updates : List FirePoll.Update
  deriving DecidableEq

namespace PollSession

/-- What can happen during a session. -/
inductive Event
  /-- `User.current` changes: a sign-in, a switch of users or a sign-out. -/
  | user (current : Option User)
  /-- The answers listener calls back, with nil on an error. -/
  | answers (querySnapshot : Option (List QueryDocumentSnapshot))

/-- A poll is built from a document, and the consumer sets its `onUpdate`. -/
def start (current : Option User) (snapshot : DocumentSnapshot) (onUpdate : Option Callback) :
    Option PollSession :=
  (FirePoll.init current snapshot).map fun poll => ⟨current, { poll with onUpdate := onUpdate }, []⟩

/-- One event of a session. -/
def step (s : PollSession) : Event → Eval PollSession
  | .user current => .ok { s with current := current }
  | .answers querySnapshot => do
    let result ← FirePoll.answersHandler s.current s.poll querySnapshot
    return { s with poll := result.1, updates := s.updates ++ result.2 }

/-- The event `e` leads from `s` to `s'` without a trap. -/
def Step (s : PollSession) (e : Event) (s' : PollSession) : Prop := s.step e = .ok s'

/-- The snapshots among the events, in their order; errors bring none. -/
def snapshots (es : List Event) : List (List QueryDocumentSnapshot) :=
  es.filterMap fun e => match e with
    | .answers querySnapshot => querySnapshot
    | .user _ => none

@[simp] lemma snapshots_user (es : List Event) (current : Option User) :
    snapshots (es ++ [.user current]) = snapshots es := by
  simp [snapshots]

@[simp] lemma snapshots_error (es : List Event) :
    snapshots (es ++ [.answers none]) = snapshots es := by
  simp [snapshots]

@[simp] lemma snapshots_answers (es : List Event) (documents : List QueryDocumentSnapshot) :
    snapshots (es ++ [.answers (some documents)]) = snapshots es ++ [documents] := by
  simp [snapshots]

/-- **What a step can do**: change the user, nothing (an error), or take over a snapshot. -/
lemma step_cases {s s' : PollSession} {e : Event} (h : Step s e s') :
    (∃ current, e = .user current ∧ s' = { s with current := current }) ∨
    (e = .answers none ∧ s' = s) ∨
    ∃ documents percentages, e = .answers (some documents) ∧
      calculatePercentages (FirePoll.voteCounts documents s.poll.pollAnswers.length) =
        .ok percentages ∧
      s'.current = s.current ∧
      s'.poll = { s.poll with
        userAnswer := FirePoll.answerAfter s.current s.poll documents
        answersCount := FirePoll.voteCounts documents s.poll.pollAnswers.length
        percentForEachAnswer := percentages } ∧
      s'.updates =
        s.updates ++ s.poll.onUpdate.toList.map fun callback => ⟨callback, s'.poll⟩ := by
  cases e with
  | user current =>
    cases h
    exact Or.inl ⟨current, rfl, rfl⟩
  | answers querySnapshot =>
    refine Or.inr ?_
    simp only [Step, step, Eval.bind_eq_ok] at h
    obtain ⟨⟨poll, updates⟩, hhandler, h⟩ := h
    cases h
    cases querySnapshot with
    | none =>
      rw [FirePoll.answersHandler_none] at hhandler
      cases hhandler
      exact Or.inl ⟨rfl, by simp⟩
    | some documents =>
      obtain ⟨percentages, hp, rfl, rfl⟩ := FirePoll.answersHandler_eq_ok.mp hhandler
      exact Or.inr ⟨documents, percentages, rfl, hp, rfl, rfl, rfl⟩

/-- An error callback leaves the whole session as it was. -/
lemma step_error (s : PollSession) : s.step (.answers none) = .ok s := by
  simp [step, FirePoll.answersHandler_none, bind, Except.bind, pure, Except.pure]

/-! ## Counts, percentages and updates -/

/-- The counts of the latest of the snapshots, zeros before the first one. -/
def latestCounts (shots : List (List QueryDocumentSnapshot)) (n : ℕ) : List ℤ :=
  match shots.getLast? with
  | some documents => FirePoll.voteCounts documents n
  | none => List.replicate n 0

/-- `onUpdate` was called for this snapshot: it saw the counts of the snapshot and the
percentages that belong to them. -/
def ObservedAt (callback : Callback) (n : ℕ) (documents : List QueryDocumentSnapshot)
    (update : FirePoll.Update) : Prop :=
  update.callback = callback ∧
  update.seen.answersCount = FirePoll.voteCounts documents n ∧
  calculatePercentages update.seen.answersCount = .ok update.seen.percentForEachAnswer

/-- What holds of a session started as `s₀` with the given callback, after the events `es`. -/
structure Consistent (s₀ : PollSession) (callback : Callback) (es : List Event)
    (s : PollSession) : Prop where
  pollAnswers : s.poll.pollAnswers = s₀.poll.pollAnswers
  onUpdate : s.poll.onUpdate = some callback
  answersCount : s.poll.answersCount = latestCounts (snapshots es) s.poll.pollAnswers.length
  percentages : calculatePercentages s.poll.answersCount = .ok s.poll.percentForEachAnswer
  updates : List.Forall₂ (ObservedAt callback s.poll.pollAnswers.length) (snapshots es) s.updates

@[simp] lemma length_latestCounts (shots : List (List QueryDocumentSnapshot)) (n : ℕ) :
    (latestCounts shots n).length = n := by
  unfold latestCounts
  cases shots.getLast? <;> simp

/-- `init` establishes the relation between counts and percentages by itself. -/
lemma consistent_start {current : Option User} {snapshot : DocumentSnapshot}
    {callback : Callback} {s₀ : PollSession}
    (h : start current snapshot (some callback) = some s₀) : Consistent s₀ callback [] s₀ := by
  obtain ⟨poll, hinit, rfl⟩ := Option.map_eq_some_iff.mp h
  obtain ⟨value, question, answers, -, -, -, rfl⟩ := FirePoll.init_eq_some.mp hinit
  exact ⟨rfl, rfl, rfl, calculatePercentages_zeros _, List.Forall₂.nil⟩

/-- Every event keeps a session consistent.

**Proof sketch.** Only a snapshot changes counts, percentages and updates. The listener assigns
all three from that snapshot, so the relation does not depend on what it was before. -/
lemma consistent_step {s₀ s s' : PollSession} {callback : Callback} {es : List Event} {e : Event}
    (hs : Consistent s₀ callback es s) (h : Step s e s') :
    Consistent s₀ callback (es ++ [e]) s' := by
  rcases step_cases h with ⟨current, rfl, rfl⟩ | ⟨rfl, rfl⟩ |
    ⟨documents, percentages, rfl, hp, -, hpoll, hupdates⟩
  · exact ⟨hs.pollAnswers, hs.onUpdate, by simpa using hs.answersCount, hs.percentages,
      by simpa using hs.updates⟩
  · exact ⟨hs.pollAnswers, hs.onUpdate, by simpa using hs.answersCount, hs.percentages,
      by simpa using hs.updates⟩
  · have hseen : ObservedAt callback s.poll.pollAnswers.length documents ⟨callback, s'.poll⟩ := by
      rw [hpoll]
      exact ⟨rfl, rfl, hp⟩
    refine ⟨by rw [hpoll]; exact hs.pollAnswers, by rw [hpoll]; exact hs.onUpdate, ?_,
      by rw [hpoll]; exact hp, ?_⟩
    · rw [hpoll, snapshots_answers]
      simp [latestCounts]
    · rw [hupdates, hs.onUpdate, snapshots_answers, show s'.poll.pollAnswers = s.poll.pollAnswers by
        rw [hpoll]]
      exact List.rel_append hs.updates (List.Forall₂.cons hseen List.Forall₂.nil)

/-- **Counts, percentages and updates of every run**: from any accepted poll document, after
any events that did not trap, there is one count and one percentage for each answer; the counts
are those of the latest snapshot, the percentages are computed from them, `onUpdate` was called
once for each snapshot in turn and saw that snapshot's counts and percentages, and an error
callback would change nothing. -/
theorem consistent_after_run (current : Option User) (snapshot : DocumentSnapshot)
    (callback : Callback) (s₀ : PollSession) (tr : List (Event × PollSession))
    (hstart : start current snapshot (some callback) = some s₀) (hrun : Along Step s₀ tr) :
    (final s₀ tr).poll.pollAnswers = s₀.poll.pollAnswers ∧
    (final s₀ tr).poll.answersCount.length = s₀.poll.pollAnswers.length ∧
    (final s₀ tr).poll.percentForEachAnswer.length = s₀.poll.pollAnswers.length ∧
    (final s₀ tr).poll.answersCount =
      latestCounts (snapshots (tr.map Prod.fst)) s₀.poll.pollAnswers.length ∧
    calculatePercentages (final s₀ tr).poll.answersCount =
      .ok (final s₀ tr).poll.percentForEachAnswer ∧
    List.Forall₂ (ObservedAt callback s₀.poll.pollAnswers.length)
      (snapshots (tr.map Prod.fst)) (final s₀ tr).updates ∧
    (final s₀ tr).step (.answers none) = .ok (final s₀ tr) := by
  have hs := hrun.history (P := Consistent s₀ callback) (consistent_start hstart)
    fun _ _ _ _ hs h => consistent_step hs h
  have hcounts := hs.answersCount
  have hupdates := hs.updates
  rw [hs.pollAnswers] at hcounts hupdates
  have hlen : (final s₀ tr).poll.answersCount.length = s₀.poll.pollAnswers.length := by
    rw [hcounts, length_latestCounts]
  refine ⟨hs.pollAnswers, hlen, ?_, hcounts, hs.percentages, hupdates, step_error _⟩
  rw [length_of_calculatePercentages hs.percentages, hlen]

/-- A poll document with two answers, and further fields. -/
def pollDocument (documentID : String) (fields : Fields) : DocumentSnapshot :=
  ⟨⟨["polls"], documentID⟩, some (("question", .string "Who wins?") ::
    ("answers", .array [.string "Home", .string "Away"]) :: fields)⟩

/-- The document of a user's vote. -/
def voteDocument (documentID : String) (value : FieldValue) : QueryDocumentSnapshot :=
  ⟨⟨["polls", "final", "answeredUsers"], documentID⟩, [("chosenAnswer", value)]⟩

/-- The poll of `pollDocument` while it is shown with callback `0`. -/
def shownPoll (userAnswer : Option ℤ) (answersCount percentages : List ℤ) : FirePoll :=
  ⟨⟨["polls"], "final"⟩, "final", userAnswer, "Who wins?", ["Home", "Away"], answersCount,
    percentages, some 0⟩

/-- One run through an error, and a snapshot with two votes and a malformed one. -/
theorem consistent_after_two_votes :
    FirePoll.voteCounts [voteDocument "1" (.integer 1), voteDocument "2" (.string "1"),
      voteDocument "3" (.integer 1)] 2 = [0, 2] ∧
    calculatePercentages [0, 2] = .ok [0, 100] := by
  refine ⟨by decide, ?_⟩
  exact (consistent_after_run none (pollDocument "final" []) 0
    ⟨none, shownPoll none [0, 0] [0, 0], []⟩
    [(.answers none, ⟨none, shownPoll none [0, 0] [0, 0], []⟩),
      (.answers (some [voteDocument "1" (.integer 1), voteDocument "2" (.string "1"),
        voteDocument "3" (.integer 1)]),
        ⟨none, shownPoll none [0, 2] [0, 100], [⟨0, shownPoll none [0, 2] [0, 100]⟩]⟩)]
    (by decide) ⟨by unfold Step; decide, by unfold Step; decide, trivial⟩).2.2.2.2.1

/-! ## The user answer -/

/-- The answer of the current user in a snapshot; nil if nobody is signed in. -/
def ownAnswer (current : Option User) (documents : List QueryDocumentSnapshot) : Option ℤ :=
  current.bind (FirePoll.answerOf documents)

/-- Once a snapshot is handled the user answer is the current user's own, and every call of
`onUpdate` on the way saw it. -/
def ReadsOwnAnswer (s : PollSession) (e : Event) (s' : PollSession) : Prop :=
  ∀ documents, e = .answers (some documents) →
    s'.poll.userAnswer = ownAnswer s.current documents ∧
    ∀ update ∈ s'.updates.drop s.updates.length,
      update.seen.userAnswer = ownAnswer s.current documents

/-- A snapshot that arrives while nobody is signed in finds no user answer. -/
def ClearWhenSignedOut (s : PollSession) (e : Event) (_ : PollSession) : Prop :=
  ∀ documents, e = .answers (some documents) → s.current = none → s.poll.userAnswer = none

/-- The poll document has no answer under the id `init` compares with the user's: it is not
named after the signed-in user (nor `"0"` when there is none), or has no `Int` as its
`chosenAnswer`. -/
def NoSeed (current : Option User) (snapshot : DocumentSnapshot) : Prop :=
  ∀ value, snapshot.data = some value →
    SwiftInt.description ((current.map User.id).getD 0) = snapshot.reference.documentID →
    value.int "chosenAnswer" = none

/-- The user answer right after `init` is nil iff the poll document does not seed it. -/
lemma start_userAnswer {current : Option User} {snapshot : DocumentSnapshot}
    {onUpdate : Option Callback} {s₀ : PollSession}
    (h : start current snapshot onUpdate = some s₀) :
    s₀.poll.userAnswer = none ↔ NoSeed current snapshot := by
  obtain ⟨poll, hinit, rfl⟩ := Option.map_eq_some_iff.mp h
  obtain ⟨value, question, answers, hvalue, -, -, rfl⟩ := FirePoll.init_eq_some.mp hinit
  simp [NoSeed, hvalue]

/-- A step leaves the current user's own answer iff it does not meet a signed-out session with
an answer left over.

**Proof sketch.** With a user the listener assigns that user's answer. Without one it skips the
assignment, so the answer is nil afterwards iff it was nil before. The callback sees the poll
as it is at the end. -/
lemma readsOwnAnswer_iff {s s' : PollSession} {e : Event} (h : Step s e s') :
    ReadsOwnAnswer s e s' ↔ ClearWhenSignedOut s e s' := by
  rcases step_cases h with ⟨current, rfl, rfl⟩ | ⟨rfl, rfl⟩ |
    ⟨documents, percentages, rfl, -, -, hpoll, hupdates⟩
  · simp [ReadsOwnAnswer, ClearWhenSignedOut]
  · simp [ReadsOwnAnswer, ClearWhenSignedOut]
  · have hanswer : s'.poll.userAnswer = FirePoll.answerAfter s.current s.poll documents := by
      rw [hpoll]
    have hseen : ∀ update ∈ s'.updates.drop s.updates.length,
        update.seen.userAnswer = s'.poll.userAnswer := by
      rw [hupdates, List.drop_left]
      intro update hmem
      obtain ⟨callback, -, rfl⟩ := List.mem_map.mp hmem
      rfl
    have hown : ReadsOwnAnswer s (.answers (some documents)) s' ↔
        s'.poll.userAnswer = ownAnswer s.current documents := by
      constructor
      · exact fun hr => (hr documents rfl).1
      · rintro heq _ ⟨⟩
        exact ⟨heq, fun update hmem => (hseen update hmem).trans heq⟩
    rw [hown, hanswer]
    cases hcurrent : s.current with
    | none => simp [FirePoll.answerAfter, ownAnswer, ClearWhenSignedOut, hcurrent]
    | some user => simp [FirePoll.answerAfter, ownAnswer, ClearWhenSignedOut, hcurrent]

/-- **When the user answer is the current user's own**: from any accepted poll document and
along any run, the user answer is nil after `init` and, after each snapshot and in each call of
`onUpdate`, the current user's answer in that snapshot, if and only if the poll document does
not seed an answer and every snapshot that arrives while nobody is signed in finds none. -/
theorem reads_own_answer_iff (current : Option User) (snapshot : DocumentSnapshot)
    (onUpdate : Option Callback) (s₀ : PollSession) (tr : List (Event × PollSession))
    (hstart : start current snapshot onUpdate = some s₀) (hrun : Along Step s₀ tr) :
    (s₀.poll.userAnswer = none ∧ Along ReadsOwnAnswer s₀ tr) ↔
      (NoSeed current snapshot ∧ Along ClearWhenSignedOut s₀ tr) := by
  rw [start_userAnswer hstart, along_congr hrun fun _ _ _ => readsOwnAnswer_iff]

/-- The condition holds, and so does the property, in a run with a sign-in and a vote. -/
theorem reads_own_answer_signed_in :
    ReadsOwnAnswer ⟨some ⟨7⟩, shownPoll none [0, 0] [0, 0], []⟩
      (.answers (some [voteDocument "7" (.integer 1)]))
      ⟨some ⟨7⟩, shownPoll (some 1) [0, 1] [0, 100],
        [⟨0, shownPoll (some 1) [0, 1] [0, 100]⟩]⟩ := by
  refine ((reads_own_answer_iff none (pollDocument "final" []) (some 0)
    ⟨none, shownPoll none [0, 0] [0, 0], []⟩
    [(.user (some ⟨7⟩), ⟨some ⟨7⟩, shownPoll none [0, 0] [0, 0], []⟩),
      (.answers (some [voteDocument "7" (.integer 1)]),
        ⟨some ⟨7⟩, shownPoll (some 1) [0, 1] [0, 100],
          [⟨0, shownPoll (some 1) [0, 1] [0, 100]⟩]⟩)]
    (by decide) ⟨by unfold Step; decide, by unfold Step; decide, trivial⟩).mpr ⟨?_, ?_⟩).2.2.1
  · rintro value ⟨⟩ -
    rfl
  · exact ⟨fun _ h => by simp at h, fun _ _ h => by simp at h, trivial⟩

/-- **The user answer of others**: a poll document named after the signed-in user seeds the
answer before any vote is read, and the vote of a user who has signed out stays the user answer
when the next snapshot is handled. -/
theorem reads_answer_of_nobody :
    ((start (some ⟨7⟩) (pollDocument "7" [("chosenAnswer", .integer 1)]) (some 0)).map
      fun s => s.poll.userAnswer) = some (some 1) ∧
    start (some ⟨7⟩) (pollDocument "final" []) (some 0) =
      some ⟨some ⟨7⟩, shownPoll none [0, 0] [0, 0], []⟩ ∧
    ∃ s₁ s₂ s₃, Along Step ⟨some ⟨7⟩, shownPoll none [0, 0] [0, 0], []⟩
        [(.answers (some [voteDocument "7" (.integer 1)]), s₁), (.user none, s₂),
          (.answers (some [voteDocument "7" (.integer 1)]), s₃)] ∧
      ¬ ReadsOwnAnswer s₂ (.answers (some [voteDocument "7" (.integer 1)])) s₃ := by
  refine ⟨by decide, by decide,
    ⟨some ⟨7⟩, shownPoll (some 1) [0, 1] [0, 100], [⟨0, shownPoll (some 1) [0, 1] [0, 100]⟩]⟩,
    ⟨none, shownPoll (some 1) [0, 1] [0, 100], [⟨0, shownPoll (some 1) [0, 1] [0, 100]⟩]⟩,
    ⟨none, shownPoll (some 1) [0, 1] [0, 100], [⟨0, shownPoll (some 1) [0, 1] [0, 100]⟩,
      ⟨0, shownPoll (some 1) [0, 1] [0, 100]⟩]⟩, ⟨by unfold Step; decide, by unfold Step; decide,
      by unfold Step; decide, trivial⟩, fun h => ?_⟩
  have hanswer := (h _ rfl).1
  simp [ownAnswer, shownPoll] at hanswer

end PollSession

end AntViewer
