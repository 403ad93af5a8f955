import AntViewer.Firestore.Database
import AntViewer.ViewerExtension

set_option relaxedAutoImplicit false
set_option autoImplicit false

/-!
# The three reads of the feed

For a stream of the feed, `MessageFetcher` reads the newest message, whether a poll is active,
and whether the chat is on. Each read hands its result over in a dictionary keyed by the id of
the stream, in which the caller looks the id up again.

A definition such as `getLatestMessageFor` is the closure that Firestore calls back, and
`getLatestMessageFor.ref` the query or document it is called back for.

## Main definitions

* `MessageFetcher.getLatestMessageFor`, `checkPollStatus`, `checkChatState` — the reads.
* `MessageFetcher.Outcome` — what Firestore answers them with.
* `MessageFetcher.latestMessage`, `isPollOn`, `isChatOn` — what a caller makes of the answers.
* `MessageFetcher.Outcome.Holds`, `HasPoll`, `HasChat` — what the answers say.

## Main results

* `MessageFetcher.latestMessage_eq_some_iff`, `isPollOn_eq_true_iff`, `isChatOn_eq_true_iff` — a
  caller makes of the answers what they say.
-/

namespace AntViewer

namespace MessageFetcher

/-- The query of `getLatestMessageFor(video:)`, as the documents it selects. -/
def getLatestMessageFor.ref (ord : ValueOrder) (env : EnvironmentType) (video : ℤ)
    (db : Database) : List QueryDocumentSnapshot :=
  let streams := ResourcePath.fromString ("antourage/" ++ env.rawValue ++ "/streams")
  let document : DocumentReference := ⟨streams, SwiftInt.description video⟩
  let typed := Query.whereField (db.documents (document.collection "messages")) "type" (.integer 1)
  Query.limit (Query.order ord typed "timestamp") 1

/-- The closure of `getLatestMessageFor(video:)`: the dictionary it hands over. -/
def getLatestMessageFor (video : ℤ) (snapshot : Option (List QueryDocumentSnapshot)) :
    List (ℤ × LatestComment) :=
  let latest : Option LatestComment := do
    let document ← snapshot.bind List.head?
    let nickname ← document.data.string "nickname"
    let text ← document.data.string "text"
    let userID := (document.data.string "userID").getD ""
    return ⟨userID, nickname, text, some 0⟩
  match latest with
  | some latest => [(video, latest)]
  | none => []

/-- The query of `checkPollStatus(live:)`, as the documents it selects. -/
def checkPollStatus.ref (env : EnvironmentType) (live : ℤ) (db : Database) :
    List QueryDocumentSnapshot :=
  let polls := ResourcePath.fromString
    ("antourage/" ++ env.rawValue ++ "/streams/" ++ SwiftInt.description live ++ "/polls")
  Query.whereField (db.documents polls) "isActive" (.boolean true)

/-- The closure of `checkPollStatus(live:)`. -/
def checkPollStatus (live : ℤ) (snapshot : Option (List QueryDocumentSnapshot)) :
    List (ℤ × Bool) :=
  [(live, !((snapshot.map List.isEmpty).getD true))]

/-- The document of `checkChatState(live:)`; its path is written with a trailing slash. -/
def checkChatState.ref (env : EnvironmentType) (live : ℤ) : DocumentReference :=
  ⟨ResourcePath.fromString ("antourage/" ++ env.rawValue ++ "/streams/"),
    SwiftInt.description live⟩

/-- The closure of `checkChatState(live:)`. -/
def checkChatState (live : ℤ) (snapshot : Option DocumentSnapshot) : List (ℤ × Bool) :=
  let chatOn := ((snapshot.bind DocumentSnapshot.data).bind fun data =>
    data.bool "isChatActive").getD false
  [(live, chatOn)]

/-- What Firestore answers the three reads of a stream with; nil where a read fails. -/
structure Outcome where
  messages : Option (List QueryDocumentSnapshot)
  polls : Option (List QueryDocumentSnapshot)
  stream : Option DocumentSnapshot

/-- `infoDict[video.id]` of the newest message. -/
def latestMessage (video : ℤ) (outcome : Outcome) : Option LatestComment :=
  (getLatestMessageFor video outcome.messages).lookup video

/-- `infoDict[video.id] ?? false` of the active polls. -/
def isPollOn (video : ℤ) (outcome : Outcome) : Bool :=
  ((checkPollStatus video outcome.polls).lookup video).getD false

/-- `infoDict[video.id] ?? false` of the chat state. -/
def isChatOn (video : ℤ) (outcome : Outcome) : Bool :=
  ((checkChatState video outcome.stream).lookup video).getD false

/-! ## What the answers say -/

namespace Outcome

/-- The first document of the messages is this comment: it has a nickname and a text. -/
def Holds (outcome : Outcome) (comment : LatestComment) : Prop :=
  ∃ document documents nickname text, outcome.messages = some (document :: documents) ∧
    document.data.string "nickname" = some nickname ∧ document.data.string "text" = some text ∧
    comment = ⟨(document.data.string "userID").getD "", nickname, text, some 0⟩

/-- The query for active polls has found a document. -/
def HasPoll (outcome : Outcome) : Prop :=
  ∃ document documents, outcome.polls = some (document :: documents)

/-- The document of the stream exists and says that its chat is active. -/
def HasChat (outcome : Outcome) : Prop :=
  ∃ snapshot data, outcome.stream = some snapshot ∧ snapshot.data = some data ∧
    data.bool "isChatActive" = some true

end Outcome

/-- A caller finds the newest message that the answer holds, and none if it holds none. -/
lemma latestMessage_eq_some_iff {video : ℤ} {outcome : Outcome} {comment : LatestComment} :
    latestMessage video outcome = some comment ↔ outcome.Holds comment := by
  unfold latestMessage getLatestMessageFor Outcome.Holds
  rcases outcome.messages with _ | _ | ⟨document, documents⟩
  · simp
  · simp
  · cases hnickname : document.data.string "nickname" with
    | none => simp [hnickname]
    | some nickname =>
      cases htext : document.data.string "text" with
      | none => simp [htext]
      | some text => simp [hnickname, htext, eq_comm]

/-- A caller finds a poll iff the query has found one. -/
lemma isPollOn_eq_true_iff {video : ℤ} {outcome : Outcome} :
    isPollOn video outcome = true ↔ outcome.HasPoll := by
  unfold isPollOn checkPollStatus Outcome.HasPoll
  rcases outcome.polls with _ | _ | ⟨document, documents⟩ <;> simp

/-- A caller finds the chat on iff the document of the stream says so. -/
lemma isChatOn_eq_true_iff {video : ℤ} {outcome : Outcome} :
    isChatOn video outcome = true ↔ outcome.HasChat := by
  unfold isChatOn checkChatState Outcome.HasChat
  cases outcome.stream with
  | none => simp
  | some snapshot =>
    cases hdata : snapshot.data with
    | none => simp [hdata]
    | some data => cases hactive : data.bool "isChatActive" <;> simp [hdata, hactive]

end MessageFetcher

end AntViewer
