import AntViewer.PollSession

set_option relaxedAutoImplicit false
set_option autoImplicit false

/-!
# Votes, from the writer to the counts

Users vote by `saveAnswerWith`, each on an object of their own for the same poll, and the
answers listener of any of these objects reads the collection the votes leave. Abstractly a
history of votes is a log of answers by user id, of which the last answer of each user counts.
The collection is the dictionary of that log, keyed by the decimal ids, so the listener's
counts are tallies of the log.

## Main definitions

* `Vote`, `castAll` — calls of `saveAnswerWith`, and the database they leave.
* `voters`, `lastSaved` — who has voted, and the last saved index of a user.

## Main results

* `castAll_answeredUsers` — the collection is the dictionary of the log.
* `voteCounts_castAll` — the listener's counts are tallies of the log.
* `vote_tally` — what the listener makes of a snapshot after any history of votes.
-/

namespace AntViewer

/-- One call of `saveAnswerWith(index:)`: the poll object, the signed-in user if there is one,
the index, and the server's time. -/
structure Vote where
  poll : FirePoll
  current : Option User
  index : ℤ
  time : Timestamp

namespace Vote

/-- The database after a call. -/
def cast (db : Database) (v : Vote) : Database :=
  FirePoll.saveAnswerWith v.current v.poll v.index db v.time

/-- The database after a history of calls. -/
def castAll (votes : List Vote) (db : Database) : Database := votes.foldl cast db

/-- The log of the saved answers: user id, index and time; without a user nothing is saved. -/
def saved (votes : List Vote) : List (ℤ × ℤ × Timestamp) :=
  votes.filterMap fun v => v.current.map fun user => (user.id, v.index, v.time)

/-- The ids of the users who saved an answer. -/
def voters (votes : List Vote) : Finset ℤ := Tally.writers (saved votes)

/-- The index a user saved last; nil for a user who never voted. -/
def lastSaved (votes : List Vote) (id : ℤ) : Option ℤ :=
  (Tally.lastWrite (saved votes) id).map Prod.fst

/-- The fields of a vote, as the server stores them. -/
def voteFields (answer : ℤ × Timestamp) : Fields :=
  [("chosenAnswer", .integer answer.1), ("timestamp", .timestamp answer.2)]

@[simp] lemma voteFields_int (answer : ℤ × Timestamp) :
    (voteFields answer).int "chosenAnswer" = some answer.1 := by
  simp [Fields.int, voteFields, FieldValue.asInt]

/-- A call by a signed-in user writes one entry of the collection, under the decimal id. -/
lemma cast_some {db : Database} {v : Vote} {user : User} (h : v.current = some user) :
    cast db v v.poll.answeredUsers =
      (db v.poll.answeredUsers).insert (SwiftInt.description user.id)
        (voteFields (v.index, v.time)) := by
  simp only [cast, FirePoll.saveAnswerWith, h]
  exact Database.setData_same db ⟨v.poll.answeredUsers, SwiftInt.description user.id⟩ _ _

/-- A call without a signed-in user writes nothing. -/
lemma cast_none {db : Database} {v : Vote} (h : v.current = none) : cast db v = db := by
  simp only [cast, FirePoll.saveAnswerWith, h]

/-- **The collection of a history** is the dictionary of its log.

**Proof sketch.** Induction on the history from its end: the last call either writes the entry
of its user, as the last entry of the log does, or it was made without a user and neither the
collection nor the log changes. -/
lemma castAll_answeredUsers {poll : FirePoll} {votes : List Vote} {db : Database}
    (hpoll : ∀ v ∈ votes, v.poll.ref = poll.ref) (hempty : db poll.answeredUsers = ∅) :
    castAll votes db poll.answeredUsers =
      Tally.store SwiftInt.description voteFields (saved votes) := by
  induction votes using List.reverseRecOn with
  | nil => simpa [castAll, saved] using hempty
  | append_singleton votes v ih =>
    have ih := ih fun w hw => hpoll w (List.mem_append_left _ hw)
    have hpath : poll.answeredUsers = v.poll.answeredUsers := by
      rw [FirePoll.answeredUsers, FirePoll.answeredUsers, hpoll v (by simp)]
    have hlast : castAll (votes ++ [v]) db = cast (castAll votes db) v := by simp [castAll]
    rw [hlast]
    cases hcurrent : v.current with
    | none =>
      have hsaved : saved (votes ++ [v]) = saved votes := by simp [saved, hcurrent]
      rw [cast_none hcurrent, hsaved, ih]
    | some user =>
      have hsaved : saved (votes ++ [v]) = saved votes ++ [(user.id, v.index, v.time)] := by
        simp [saved, hcurrent]
      rw [hsaved, Tally.store_concat, ← ih, hpath, cast_some hcurrent]

section Snapshot

variable {poll : FirePoll} {votes : List Vote} {db : Database}
  {documents : List QueryDocumentSnapshot}
  (hpoll : ∀ v ∈ votes, v.poll.ref = poll.ref) (hempty : db poll.answeredUsers = ∅)
  (hdocs : documents.Perm ((castAll votes db).documents poll.answeredUsers))

include hpoll hempty hdocs

/-- **The counts of a history**: among the documents, in any order, the answers that read as
`i` are as many as the users whose last saved index is `i`. -/
lemma voteCounts_castAll (n : ℕ) :
    FirePoll.voteCounts documents n = (List.range n).map fun i : ℕ =>
      ((Tally.tally (saved votes) fun answer => answer.1 = (i : ℤ) : ℕ) : ℤ) := by
  unfold FirePoll.voteCounts
  refine List.map_congr_left fun i _ => ?_
  have hcount := Tally.countP_store voteFields SwiftInt.description_injective (saved votes)
    fun data => data.int "chosenAnswer" = some (i : ℤ)
  simp only [voteFields_int, Option.some.injEq] at hcount
  rw [hdocs.countP_eq, Database.documents, castAll_answeredUsers hpoll hempty, List.countP_map,
    ← hcount]
  rfl

/-- The answer in a user's document is the index the user saved last. -/
lemma answerOf_castAll (user : User) :
    FirePoll.answerOf documents user = lastSaved votes user.id := by
  have hfind := Database.find_document hdocs (SwiftInt.description user.id)
  rw [castAll_answeredUsers hpoll hempty,
    Tally.lookup_store voteFields SwiftInt.description_injective] at hfind
  unfold FirePoll.answerOf lastSaved
  calc ((documents.find? fun d => d.documentID = SwiftInt.description user.id).bind fun d =>
        d.data.int "chosenAnswer")
      = ((documents.find? fun d => d.documentID = SwiftInt.description user.id).map
          QueryDocumentSnapshot.data).bind fun data => data.int "chosenAnswer" := by
        rw [Option.bind_map]
        rfl
    _ = ((Tally.lastWrite (saved votes) user.id).map voteFields).bind fun data =>
          data.int "chosenAnswer" := by rw [hfind]
    _ = (Tally.lastWrite (saved votes) user.id).map Prod.fst := by
        cases Tally.lastWrite (saved votes) user.id <;> simp

end Snapshot

/-- The log entries of a user are the calls that user made. -/
lemma saved_filter (votes : List Vote) (id : ℤ) :
    ((saved votes).filter fun w => w.1 = id) =
      saved (votes.filter fun v => v.current = some ⟨id⟩) := by
  induction votes with
  | nil => rfl
  | cons v votes ih =>
    rcases hcurrent : v.current with _ | user
    · simpa [saved, hcurrent] using ih
    · by_cases hid : user.id = id
      · subst hid
        simpa [saved, hcurrent] using ih
      · have hne : (⟨user.id⟩ : User) ≠ ⟨id⟩ := fun h => hid (congrArg User.id h)
        simpa [saved, hcurrent, hid, hne] using ih

/-- The tally of an answer is the number of the users who saved it last. -/
lemma tally_eq_card (votes : List Vote) (p : ℤ → Prop) [DecidablePred p] :
    (Tally.tally (saved votes) fun answer => p answer.1) =
      ((voters votes).filter fun id => ∃ i ∈ lastSaved votes id, p i).card := by
  unfold Tally.tally voters lastSaved
  congr 1
  ext id
  simp only [Finset.mem_filter, and_congr_right_iff]
  intro _
  rcases Tally.lastWrite (saved votes) id with _ | ⟨i, t⟩ <;> simp

/-- **The vote tally over whole runs**: whatever users voted, in whatever order and how often,
once a poll object has handled a snapshot of exactly the documents they left, it has one count
for each answer; the count of an answer is the number of users who saved it last, the counts
add up to the users whose last answer exists, and the user answer is the current user's last
saved index. Interleaving the calls of different users in another way leads to the same poll,
and different ids never share a document.

**Proof sketch.** The counts are tallies of the log (`voteCounts_castAll`), which depend only on
the last write of each user, hence only on each user's own calls in their order. -/
theorem vote_tally (poll : FirePoll) (votes : List Vote) (db : Database)
    (documents : List QueryDocumentSnapshot) (current : Option User) (poll' : FirePoll)
    (updates : List FirePoll.Update)
    (hpoll : ∀ v ∈ votes, v.poll.ref = poll.ref) (hempty : db poll.answeredUsers = ∅)
    (hdocs : documents.Perm ((castAll votes db).documents poll.answeredUsers))
    (h : FirePoll.answersHandler current poll (some documents) = .ok (poll', updates)) :
    poll'.answersCount.length = poll.pollAnswers.length ∧
    (∀ i : ℕ, i < poll.pollAnswers.length → poll'.answersCount[i]? =
      some ((((voters votes).filter fun id => lastSaved votes id = some (i : ℤ)).card : ℕ) : ℤ)) ∧
    poll'.answersCount.sum = ((((voters votes).filter fun id => ∃ i ∈ lastSaved votes id,
      0 ≤ i ∧ i < poll.pollAnswers.length).card : ℕ) : ℤ) ∧
    (∀ user, current = some user → poll'.userAnswer = lastSaved votes user.id) ∧
    (∀ (votes' : List Vote) (documents' : List QueryDocumentSnapshot) (poll'' : FirePoll)
      (updates' : List FirePoll.Update), (∀ v ∈ votes', v.poll.ref = poll.ref) →
      (∀ id : ℤ, (votes'.filter fun v => v.current = some ⟨id⟩) =
        votes.filter fun v => v.current = some ⟨id⟩) →
      documents'.Perm ((castAll votes' db).documents poll.answeredUsers) →
      FirePoll.answersHandler current poll (some documents') = .ok (poll'', updates') →
      poll'' = poll') ∧
    ∀ id id' : ℤ, SwiftInt.description id = SwiftInt.description id' → id = id' := by
  obtain ⟨percentages, hp, rfl, -⟩ := FirePoll.answersHandler_eq_ok.mp h
  have hcounts := voteCounts_castAll hpoll hempty hdocs poll.pollAnswers.length
  refine ⟨by simp, fun i hi => ?_, ?_, ?_, ?_, fun _ _ => SwiftInt.description_inj.mp⟩
  · simp only [hcounts]
    rw [List.getElem?_map, List.getElem?_range hi, Option.map_some,
      tally_eq_card votes fun j => j = (i : ℤ)]
    simp
  · simp only [hcounts]
    rw [Tally.sum_tally, tally_eq_card votes fun j => 0 ≤ j ∧ j < poll.pollAnswers.length]
  · rintro user rfl
    exact answerOf_castAll hpoll hempty hdocs user
  · intro votes' documents' poll'' updates' hpoll' hsame hdocs' h'
    obtain ⟨percentages', hp', rfl, -⟩ := FirePoll.answersHandler_eq_ok.mp h'
    have hlast : ∀ id, Tally.lastWrite (saved votes') id = Tally.lastWrite (saved votes) id :=
      fun id => Tally.lastWrite_congr (by rw [saved_filter, saved_filter, hsame])
    have hcounts' := voteCounts_castAll hpoll' hempty hdocs' poll.pollAnswers.length
    simp only [Tally.tally_congr hlast] at hcounts'
    rw [← hcounts] at hcounts'
    have hanswer : FirePoll.answerAfter current poll documents' =
        FirePoll.answerAfter current poll documents := by
      cases current with
      | none => rfl
      | some user =>
        simp only [FirePoll.answerAfter]
        rw [answerOf_castAll hpoll' hempty hdocs', answerOf_castAll hpoll hempty hdocs, lastSaved,
          lastSaved, hlast]
    rw [hcounts', hp] at hp'
    cases hp'
    rw [hcounts', hanswer]

/-- Two users vote, the first of them twice, and once nobody is signed in. -/
def revote : List Vote :=
  let poll := PollSession.shownPoll none [0, 0] [0, 0]
  [⟨poll, some ⟨1⟩, 0, 10⟩, ⟨poll, none, 0, 20⟩, ⟨poll, some ⟨2⟩, 5, 30⟩, ⟨poll, some ⟨1⟩, 1, 40⟩]

/-- The second vote of the first user is counted and the first one is not; the other user's
index is out of range. -/
theorem vote_tally_revote :
    (((voters revote).filter fun id => lastSaved revote id = some ((1 : ℕ) : ℤ)).card : ℤ) = 1 ∧
    (((voters revote).filter fun id => ∃ i ∈ lastSaved revote id, 0 ≤ i ∧ i < 2).card : ℤ) = 1 ∧
    lastSaved revote 1 = some 1 := by
  obtain ⟨-, hcount, hsum, hanswer, -⟩ := vote_tally (PollSession.shownPoll none [0, 0] [0, 0])
    revote (fun _ => ∅)
    [⟨⟨["polls", "final", "answeredUsers"], "1"⟩, voteFields (1, 40)⟩,
      ⟨⟨["polls", "final", "answeredUsers"], "2"⟩, voteFields (5, 30)⟩] (some ⟨1⟩)
    (PollSession.shownPoll (some 1) [0, 1] [0, 100])
    [⟨0, PollSession.shownPoll (some 1) [0, 1] [0, 100]⟩]
    (by decide) rfl (List.Perm.of_eq rfl) (by decide)
  exact ⟨(Option.some.inj (hcount 1 (by decide))).symm, hsum.symm, (hanswer ⟨1⟩ rfl).symm⟩

end Vote

end AntViewer
