import AntViewer.Firestore.Database
import AntViewer.Library.Tally
import AntViewer.Percentages
import AntViewer.ViewerExtension

set_option relaxedAutoImplicit false
set_option autoImplicit false

/-!
# Polls

A `FirePoll` is built from a poll document and follows the documents of its `answeredUsers`
collection. Its `answersCount` has a property observer that recomputes the percentages, and the
percentages have one that calls `onUpdate`; both run on an assignment and neither runs inside
`init`. A call of `onUpdate` is modelled by an `Update`, the callback with the poll as the
callback finds it.

## Main definitions

* `FirePoll`, `FirePoll.init` — the object and its failable initializer.
* `FirePoll.answersHandler` — the listener of the answers.
* `FirePoll.saveAnswerWith` — the write of a vote.
* `FirePoll.voteCounts`, `FirePoll.answerOf` — what the listener reads off a snapshot, as plain
  functions of its documents.

## Main results

* `FirePoll.init_eq_some` — when a poll document is accepted and what comes out.
* `FirePoll.countAnswers_eq` — the grouping pass is a plain count.
* `FirePoll.answersHandler_eq_ok` — the listener, as one assignment and at most one call.
-/

namespace AntViewer

/-- A poll, as `FirePoll` keeps it. -/
structure FirePoll where
  ref : DocumentReference
  key : String
  userAnswer : Option ℤ
  pollQuestion : String
  pollAnswers : List String
  answersCount : List ℤ
  percentForEachAnswer : List ℤ
  onUpdate : Option Callback
  deriving DecidableEq

namespace FirePoll

/-- One call of `onUpdate`: the closure, and the poll it can look at while it runs. -/
structure Update where
  callback : Callback
  seen : FirePoll
  deriving DecidableEq

/-! ## Definitions -/

/-- `FirePoll.init(snapshot:)`. -/
def init (current : Option User) (snapshot : DocumentSnapshot) : Option FirePoll := do
  let value ← snapshot.data
  let pollQuestion ← value.string "question"
  let pollAnswers ← value.stringArray "answers"
  return {
    ref := snapshot.reference
    key := snapshot.reference.documentID
    pollQuestion := pollQuestion
    pollAnswers := pollAnswers
    percentForEachAnswer := pollAnswers.map fun _ => 0
    answersCount := pollAnswers.map fun _ => 0
    userAnswer :=
      if SwiftInt.description ((current.map User.id).getD 0) = snapshot.reference.documentID then
        value.int "chosenAnswer"
      else none
    onUpdate := none }

/-- An assignment to `percentForEachAnswer`, whose `didSet` calls `onUpdate`. -/
def setPercentForEachAnswer (poll : FirePoll) (newValue : List ℤ) : FirePoll × List Update :=
  let poll := { poll with percentForEachAnswer := newValue }
  (poll, poll.onUpdate.toList.map fun callback => ⟨callback, poll⟩)

/-- An assignment to `answersCount`, whose `didSet` assigns the percentages. -/
def setAnswersCount (poll : FirePoll) (newValue : List ℤ) : Eval (FirePoll × List Update) := do
  let poll := { poll with answersCount := newValue }
  let percentages ← calculatePercentages poll.answersCount
  return poll.setPercentForEachAnswer percentages

/-- The counting pass of the listener: the answers are grouped by value, and the group of each
answer's offset is counted. -/
def countAnswers (pollAnswers : List String) (documents : List QueryDocumentSnapshot) : List ℤ :=
  let answers := documents.filterMap fun d => d.data.int "chosenAnswer"
  let answersDict := Tally.grouping (fun answer => answer) answers
  pollAnswers.zipIdx.map fun answer =>
    ((((answersDict.lookup (answer.2 : ℤ)).map List.length).getD 0 : ℕ) : ℤ)

/-- The listener on the answers (`answersHandler()`); the snapshot is nil on an error. -/
def answersHandler (current : Option User) (poll : FirePoll)
    (querySnapshot : Option (List QueryDocumentSnapshot)) : Eval (FirePoll × List Update) :=
  match querySnapshot with
  | none => .ok (poll, [])
  | some documents =>
    let poll := match current with
      | some user =>
        let userDocument := documents.find? fun d : QueryDocumentSnapshot =>
          d.documentID = SwiftInt.description user.id
        { poll with userAnswer := userDocument.bind fun d => d.data.int "chosenAnswer" }
      | none => poll
    poll.setAnswersCount (countAnswers poll.pollAnswers documents)

/-- The collection of the votes on a poll. -/
def answeredUsers (poll : FirePoll) : List String := poll.ref.collection "answeredUsers"

/-- `saveAnswerWith(index:)`, received by the server at time `now`. -/
def saveAnswerWith (current : Option User) (poll : FirePoll) (index : ℤ) (db : Database)
    (now : Timestamp) : Database :=
  match current with
  | some user =>
    db.setData ⟨poll.answeredUsers, SwiftInt.description user.id⟩
      [("chosenAnswer", .integer index), ("timestamp", .serverTimestamp)] now
  | none => db

/-! ## What the listener reads -/

/-- The number of documents whose `chosenAnswer` reads as `i`, for each of `n` answers. -/
def voteCounts (documents : List QueryDocumentSnapshot) (n : ℕ) : List ℤ :=
  (List.range n).map fun i : ℕ =>
    ((documents.countP fun d => d.data.int "chosenAnswer" = some (i : ℤ) : ℕ) : ℤ)

/-- The answer in the document of the given user: nil if there is none or it is not an `Int`. -/
def answerOf (documents : List QueryDocumentSnapshot) (user : User) : Option ℤ :=
  (documents.find? fun d => d.documentID = SwiftInt.description user.id).bind fun d =>
    d.data.int "chosenAnswer"

/-- The user answer after a snapshot: the current user's, or the old one if there is no user. -/
def answerAfter (current : Option User) (poll : FirePoll)
    (documents : List QueryDocumentSnapshot) : Option ℤ :=
  match current with
  | some user => answerOf documents user
  | none => poll.userAnswer

/-- **The grouping pass counts**: looking up the size of each answer's group is the plain count
of the documents with that answer, whatever the other documents hold. -/
lemma countAnswers_eq (pollAnswers : List String) (documents : List QueryDocumentSnapshot) :
    countAnswers pollAnswers documents = voteCounts documents pollAnswers.length := by
  have hcount : ∀ i : ℕ, (documents.filterMap fun d => d.data.int "chosenAnswer").countP
      (fun answer => answer = (i : ℤ)) =
      documents.countP fun d => d.data.int "chosenAnswer" = some (i : ℤ) := by
    intro i
    rw [List.countP_filterMap]
    congr 1
    funext d
    cases d.data.int "chosenAnswer" <;> simp
  unfold countAnswers voteCounts
  apply List.ext_getElem
  · simp
  · intro i h1 h2
    simp only [List.getElem_map, List.getElem_zipIdx, List.getElem_range, zero_add,
      Tally.length_grouping, hcount]

@[simp] lemma length_voteCounts (documents : List QueryDocumentSnapshot) (n : ℕ) :
    (voteCounts documents n).length = n := by
  simp [voteCounts]

/-- When a poll document is accepted, and the poll that comes out: its counts and percentages
are zeros, and only its user answer depends on who is signed in. -/
lemma init_eq_some {current : Option User} {snapshot : DocumentSnapshot} {poll : FirePoll} :
    init current snapshot = some poll ↔
      ∃ value question answers, snapshot.data = some value ∧
        value.string "question" = some question ∧ value.stringArray "answers" = some answers ∧
        poll = {
          ref := snapshot.reference
          key := snapshot.reference.documentID
          pollQuestion := question
          pollAnswers := answers
          percentForEachAnswer := List.replicate answers.length 0
          answersCount := List.replicate answers.length 0
          userAnswer :=
            if SwiftInt.description ((current.map User.id).getD 0) =
                snapshot.reference.documentID then value.int "chosenAnswer" else none
          onUpdate := none } := by
  unfold init
  constructor
  · intro h
    simp only [Option.bind_eq_bind, Option.bind_eq_some_iff] at h
    obtain ⟨value, hvalue, question, hquestion, answers, hanswers, h⟩ := h
    refine ⟨value, question, answers, hvalue, hquestion, hanswers, ?_⟩
    simpa [List.map_const', eq_comm] using h
  · rintro ⟨value, question, answers, hvalue, hquestion, hanswers, rfl⟩
    simp [hvalue, hquestion, hanswers, List.map_const']

/-- An error callback changes nothing and calls nobody. -/
lemma answersHandler_none (current : Option User) (poll : FirePoll) :
    answersHandler current poll none = .ok (poll, []) := rfl

/-- **The listener on a snapshot**: it returns iff the percentages of the new counts can be
computed; then counts, percentages and user answer are those of the snapshot, and a callback
that is set is called once, with the poll as it stands at the end. -/
lemma answersHandler_eq_ok {current : Option User} {poll poll' : FirePoll}
    {documents : List QueryDocumentSnapshot} {updates : List Update} :
    answersHandler current poll (some documents) = .ok (poll', updates) ↔
      ∃ percentages,
        calculatePercentages (voteCounts documents poll.pollAnswers.length) = .ok percentages ∧
        poll' = { poll with
          userAnswer := answerAfter current poll documents
          answersCount := voteCounts documents poll.pollAnswers.length
          percentForEachAnswer := percentages } ∧
        updates = poll.onUpdate.toList.map fun callback => ⟨callback, poll'⟩ := by
  cases current with
  | none =>
    simp only [answersHandler, setAnswersCount, countAnswers_eq, Eval.bind_eq_ok,
      setPercentForEachAnswer, answerAfter]
    constructor
    · rintro ⟨percentages, hp, h⟩
      cases h
      exact ⟨percentages, hp, rfl, rfl⟩
    · rintro ⟨percentages, hp, rfl, rfl⟩
      exact ⟨percentages, hp, rfl⟩
  | some user =>
    simp only [answersHandler, setAnswersCount, countAnswers_eq, Eval.bind_eq_ok,
      setPercentForEachAnswer, answerAfter, answerOf]
    constructor
    · rintro ⟨percentages, hp, h⟩
      cases h
      exact ⟨percentages, hp, rfl, rfl⟩
    · rintro ⟨percentages, hp, rfl, rfl⟩
      exact ⟨percentages, hp, rfl⟩

end FirePoll

end AntViewer
