import AntViewer.Firestore.Database
import AntViewer.Library.ChangeFeed
import AntViewer.Library.Runs
import AntViewer.ViewerExtension

set_option relaxedAutoImplicit false
set_option autoImplicit false

/-!
# The chat of a stream

A `FireChat` that is not served from the cache listens to the messages of its stream and to the
stream document, and sends messages. The messages listener reports additions and removals of
documents that the parser `Message(data:docID:date:)` accepts. The parser is part of the closed
framework, so it is a parameter here, with any type of messages.

## Main definitions

* `FireChat.init`, `FireChat.send`, `Message.toAnyObject` — the chat and what it writes.
* `FireChat.messagesHandler`, `FireChat.stateHandler` — its listeners.
* `FireChat.Mirror` — the messages collection, and a consumer that follows the chat.

## Main results

* `FireChat.consume_messagesHandler` — the consumer is the follower that ignores modifications.
* `FireChat.mirrors_messages_iff` — when the consumer holds exactly the collection's messages.
-/

namespace AntViewer

open Runs ChangeFeed

/-- `Message.toAnyObject()`. -/
def Message.toAnyObject (message : Message) : Fields :=
  [("avatarUrl", .string (message.avatarUrl.getD "")),
    ("type", .integer 1),
    ("timestamp", .serverTimestamp),
    ("userID", .string message.userID),
    ("nickname", .string message.nickname),
    ("text", .string message.text)]

/-- A chat; without a reference it is served from the cache. -/
structure FireChat where
  ref : Option DocumentReference

namespace FireChat

/-- `FireChat.init(for:)` for the video with the given id and stored entry. -/
def init (env : EnvironmentType) (contentMO : VideoContentMO) (id : ℤ) : FireChat :=
  if contentMO.chatLoaded then ⟨none⟩
  else
    ⟨some ⟨ResourcePath.fromString ("antourage/" ++ env.rawValue ++ "/streams"),
      SwiftInt.description id⟩⟩

/-- `send(message:)`; the server receives the message at time `now` and stores it under the
automatic id `docID`. -/
def send (chat : FireChat) (message : Message) (docID : String) (now : Timestamp)
    (db : Database) : Database :=
  match chat.ref with
  | some ref => db.addDocument (ref.collection "messages") docID message.toAnyObject now
  | none => db

/-- The listener on the stream document (`stateHandler()`): what it passes to `onStateChange`.
The snapshot is nil on an error. -/
def stateHandler (documentSnapshot : Option DocumentSnapshot) : List Bool :=
  match documentSnapshot.bind DocumentSnapshot.data with
  | none => []
  | some document => [(document.bool "isChatActive").getD false]

/-! ## Messages -/

/-- A change in a query snapshot. -/
structure DocumentChange where
  type : Kind
  document : QueryDocumentSnapshot

/-- A call of `onAdd` or `onRemove`, with the id of the document the message was read from. -/
inductive Call (α : Type)
  | onAdd (docID : String) (message : α)
  | onRemove (docID : String) (message : α)

section Messages

variable {α : Type} (parse : Fields → String → Option Timestamp → Option α)

/-- The message of a document (`Message(data:docID:date:)` with the date of the document). -/
def message (docID : String) (data : Fields) : Option α :=
  parse data docID (data.timestamp "timestamp")

/-- The listener on the messages (`messagesHandler()`): the calls it makes. The snapshot is nil
on an error. -/
def messagesHandler (querySnapshot : Option (List DocumentChange)) : List (Call α) :=
  match querySnapshot with
  | none => []
  | some documentChanges =>
    documentChanges.flatMap fun diff =>
      match diff.type with
      | .added =>
        let data := diff.document.data
        let date := data.timestamp "timestamp"
        let docID := diff.document.documentID
        match parse data docID date with
        | some message => [.onAdd docID message]
        | none => []
      | .removed =>
        let data := diff.document.data
        let date := data.timestamp "timestamp"
        let docID := diff.document.documentID
        match parse data docID date with
        | some message => [.onRemove docID message]
        | none => []
      -- `default: break`
      | .modified => []

/-- A consumer that stores each message under its document id and deletes it when told to. -/
def consume (view : String → Option α) : Call α → String → Option α
  | .onAdd docID message => Function.update view docID (some message)
  | .onRemove docID _ => Function.update view docID none

/-- A document change as a change of the collection. -/
def DocumentChange.toChange (diff : DocumentChange) : Change String Fields :=
  ⟨diff.type, diff.document.documentID, diff.document.data⟩

/-- **The consumer of the chat** is the follower of the messages that ignores modifications.

**Proof sketch.** Induction on the changes: each of them makes at most one call, which updates
the entry of its document as the follower does, and no call leaves the entry as it is. -/
lemma consume_messagesHandler (view : String → Option α) (documentChanges : List DocumentChange) :
    (messagesHandler parse (some documentChanges)).foldl consume view =
      follow (addRemove (message parse)) view (documentChanges.map DocumentChange.toChange) := by
  induction documentChanges generalizing view with
  | nil => rfl
  | cons diff documentChanges ih =>
    obtain ⟨type, document⟩ := diff
    rw [List.map_cons, follow_cons, ← ih]
    cases type with
    | added =>
      cases hparse : parse document.data document.documentID
          (document.data.timestamp "timestamp") <;>
        simp [messagesHandler, consume, DocumentChange.toChange, addRemove, message, hparse]
    | modified => simp [messagesHandler, DocumentChange.toChange, addRemove]
    | removed =>
      cases hparse : parse document.data document.documentID
          (document.data.timestamp "timestamp") <;>
        simp [messagesHandler, consume, DocumentChange.toChange, addRemove, message, hparse]

/-- The messages collection at the latest snapshot, the data each of its documents was last
added with, and the messages a consumer holds. -/
structure Mirror (α : Type) where
  docs : String → Option Fields
  asAdded : String → Option Fields
  view : String → Option α

namespace Mirror

/-- Before the first snapshot. -/
def start (α : Type) : Mirror α := ⟨fun _ => none, fun _ => none, fun _ => none⟩

/-- A callback of the messages listener: an error changes nothing; a snapshot comes with the
changes since the one before, and the consumer follows the calls. -/
inductive Step : Mirror α → Option (List DocumentChange) → Mirror α → Prop
  | error (s : Mirror α) : Step s none s
  | snapshot (s : Mirror α) (documentChanges : List DocumentChange) (docs' : String → Option Fields)
      (h : IsDiff s.docs docs' (documentChanges.map DocumentChange.toChange)) :
      Step s (some documentChanges)
        ⟨docs', follow (addRemove fun _ data => some data) s.asAdded
            (documentChanges.map DocumentChange.toChange),
          (messagesHandler parse (some documentChanges)).foldl consume s.view⟩

/-- The consumer holds under the id exactly the message of the document, if there is one. -/
def MirrorsAt (docID : String) (s : Mirror α) : Prop :=
  s.view docID = (s.docs docID).bind (message parse docID)

/-- No modification of the document in this callback changes what the parser makes of it. -/
def KeepsMessage (docID : String) (s : Mirror α) (e : Option (List DocumentChange))
    (_ : Mirror α) : Prop :=
  ∀ documentChanges data data', e = some documentChanges → s.docs docID = some data →
    ⟨.modified, docID, data'⟩ ∈ documentChanges.map DocumentChange.toChange →
    message parse docID data' = message parse docID data

/-- The message a present document was added with, if it was one, is held. -/
def HoldsAdded (s : Mirror α) : Prop :=
  ∀ docID data m, s.asAdded docID = some data → message parse docID data = some m →
    s.view docID = some m

/-- A modified document keeps its entry. -/
def IgnoresModified (s : Mirror α) (e : Option (List DocumentChange)) (s' : Mirror α) : Prop :=
  ∀ documentChanges docID data, e = some documentChanges →
    ⟨.modified, docID, data⟩ ∈ documentChanges.map DocumentChange.toChange →
    s'.view docID = s.view docID

variable {parse}

/-- A callback keeps an entry a mirror of its document iff it does not modify the message. -/
lemma mirrorsAt_iff {docID : String} {s s' : Mirror α} {e : Option (List DocumentChange)}
    (hs : MirrorsAt parse docID s) (h : Step parse s e s') :
    MirrorsAt parse docID s' ↔ KeepsMessage parse docID s e s' := by
  cases h with
  | error => simp [KeepsMessage, hs]
  | snapshot documentChanges docs' hdiff =>
    unfold MirrorsAt KeepsMessage
    rw [consume_messagesHandler, follow_mirrors_iff hdiff hs]
    constructor
    · rintro hkeep _ data data' ⟨⟩ hdata hmem
      exact hkeep data data' hdata hmem
    · exact fun hkeep data data' hdata hmem => hkeep documentChanges data data' rfl hdata hmem

/-- Every callback keeps the messages of present documents, as they were added. -/
lemma holdsAdded_step {s s' : Mirror α} {e : Option (List DocumentChange)}
    (hs : HoldsAdded parse s) (h : Step parse s e s') : HoldsAdded parse s' := by
  cases h with
  | error => exact hs
  | snapshot documentChanges docs' hdiff =>
    intro docID data m hdata hm
    rw [consume_messagesHandler]
    exact follow_holds_added hdiff.nodup (hs docID) data m hdata hm

/-- No callback touches the entry of a document it modifies. -/
lemma ignoresModified_step {s s' : Mirror α} {e : Option (List DocumentChange)}
    (h : Step parse s e s') : IgnoresModified s e s' := by
  rintro documentChanges docID data rfl hmem
  cases h with
  | snapshot _ docs' hdiff =>
    rw [consume_messagesHandler]
    exact follow_of_mem (addRemove (message parse)) s.view hdiff.nodup hmem

end Mirror

end Messages

/-- **What the chat consumer holds**: along every run of snapshots, each with the changes since
the one before, and for every parser, a modified document keeps its entry; a message that was
read when its document was added is held as long as the document is there; and under a document
id the consumer holds after each snapshot exactly the message of the current document, none
being lost, stale or left behind, if and only if no modification of that document changed what
the parser makes of it. -/
theorem mirrors_messages_iff {α : Type} (parse : Fields → String → Option Timestamp → Option α)
    (tr : List (Option (List DocumentChange) × Mirror α))
    (hrun : Along (Mirror.Step parse) (Mirror.start α) tr) :
    Along Mirror.IgnoresModified (Mirror.start α) tr ∧
    Along (fun _ _ s' => Mirror.HoldsAdded parse s') (Mirror.start α) tr ∧
    ∀ docID, Along (fun _ _ s' => Mirror.MirrorsAt parse docID s') (Mirror.start α) tr ↔
      Along (Mirror.KeepsMessage parse docID) (Mirror.start α) tr := by
  refine ⟨hrun.mono fun _ _ _ => Mirror.ignoresModified_step, ?_, fun docID => ?_⟩
  · have hinv := hrun.invariant (I := Mirror.HoldsAdded parse)
      (by intro docID data m hdata; cases hdata) fun _ _ _ => Mirror.holdsAdded_step
    exact hinv.mono fun _ _ _ h => h.2.2
  · exact along_iff (I := Mirror.MirrorsAt parse docID) hrun rfl
      (fun _ _ _ hs h hkeep => (Mirror.mirrorsAt_iff hs h).mpr hkeep)
      fun _ _ _ => Mirror.mirrorsAt_iff

/-- A message document in the state in which it is sent, before the server has answered. -/
def unstamped : QueryDocumentSnapshot :=
  ⟨⟨["messages"], "m"⟩, [("timestamp", .serverTimestamp)]⟩

/-- The same document once the server timestamp is known. -/
def stamped : QueryDocumentSnapshot :=
  ⟨⟨["messages"], "m"⟩, [("timestamp", .timestamp 5)]⟩

/-- A parser that keeps the date of a message. -/
def parseDate (_ : Fields) (_ : String) (date : Option Timestamp) : Option (Option Timestamp) :=
  some date

/-- A run in which the document `m` is added and then changed. -/
def changedRun (first second : QueryDocumentSnapshot) :
    List (Option (List DocumentChange) × Mirror (Option Timestamp)) :=
  let added : DocumentChange := ⟨.added, first⟩
  let modified : DocumentChange := ⟨.modified, second⟩
  let view := (messagesHandler parseDate (some [added])).foldl consume fun _ => none
  let asAdded := follow (addRemove fun _ data => some data) (fun _ => none) [added.toChange]
  let docs := Function.update (fun _ => none) first.documentID (some first.data)
  [(some [added], ⟨docs, asAdded, view⟩),
    (some [modified], ⟨Function.update docs second.documentID (some second.data),
      follow (addRemove fun _ data => some data) asAdded [modified.toChange],
      (messagesHandler parseDate (some [modified])).foldl consume view⟩)]

/-- Adding a document and modifying it is a run. -/
lemma changedRun_along {first second : QueryDocumentSnapshot}
    (hid : second.documentID = first.documentID) :
    Along (Mirror.Step parseDate) (Mirror.start _) (changedRun first second) := by
  refine ⟨.snapshot (Mirror.start _) _ _ (IsDiff.single_added rfl), ?_, trivial⟩
  refine .snapshot ⟨_, _, _⟩ _ _ (IsDiff.single_modified ?_)
  simp [hid]

/-- A modification that leaves the date alone keeps the consumer a mirror. -/
theorem mirrors_messages_redelivered :
    Mirror.MirrorsAt parseDate "m" (final (Mirror.start _) (changedRun stamped stamped)) := by
  refine (((mirrors_messages_iff parseDate (changedRun stamped stamped)
    (changedRun_along rfl)).2.2 "m").mpr ⟨?_, ?_, trivial⟩).2.1
  · rintro _ data data' ⟨⟩ hdata
    cases hdata
  · rintro _ data data' ⟨⟩ hdata hmem
    obtain ⟨-, rfl⟩ : "m" = stamped.documentID ∧ data' = stamped.data := by
      simpa [DocumentChange.toChange] using hmem
    obtain rfl : data = stamped.data := by
      simpa [changedRun, stamped, QueryDocumentSnapshot.documentID, eq_comm] using hdata
    rfl

/-- **A message that stays stale**: a document is added before its server timestamp is known and
then modified to carry it; the consumer goes on holding the message without the date. -/
theorem keeps_unstamped_message :
    Along (Mirror.Step parseDate) (Mirror.start _) (changedRun unstamped stamped) ∧
    (final (Mirror.start _) (changedRun unstamped stamped)).view "m" = some none ∧
    message parseDate "m" stamped.data = some (some 5) ∧
    ¬ Mirror.MirrorsAt parseDate "m" (final (Mirror.start _) (changedRun unstamped stamped)) := by
  have hview : (final (Mirror.start _) (changedRun unstamped stamped)).view "m" = some none := by
    decide
  have hdocs : ((final (Mirror.start _) (changedRun unstamped stamped)).docs "m").bind
      (message parseDate "m") = some (some 5) := by decide
  refine ⟨changedRun_along rfl, hview, by decide, fun h => ?_⟩
  rw [Mirror.MirrorsAt, hview, hdocs] at h
  cases h

end FireChat

end AntViewer
