import AntViewer.FireChat
import AntViewer.MessageFetcher

set_option relaxedAutoImplicit false
set_option autoImplicit false

/-!
# Chat messages, from the writer to the feed

Chats send messages, documents are deleted, and other documents appear beside the messages; the
feed reads the newest message of a stream. Abstractly a history is a log of what was sent to
which stream, from which deletions strike messages out. The database refines this log: the
documents of type 1 under a stream are the encodings of its surviving messages, and the query
of `getLatestMessageFor` finds the one with the greatest server timestamp.

## Main definitions

* `Sent`, `survivors` — the log of a history.
* `ReadBack.document` — the document of a sent message; `ReadBack.Step` — what writes documents.
* `ReadBack.Refines` — the database holds exactly the surviving messages.

## Main results

* `ReadBack.refines_step` — every write is one of the log.
* `ReadBack.reads_back_latest` — what the feed reads after any history.
-/

namespace AntViewer

open Runs

/-- A message as it was sent: the stream, the automatic id and the server's time. -/
structure Sent where
  stream : ℤ
  docID : String
  message : Message
  time : Timestamp
  deriving DecidableEq

/-- The fields the server stores for a sent message. -/
def Sent.fields (m : Sent) : Fields := m.message.toAnyObject.resolve m.time

namespace ReadBack

/-- What changes the messages of streams. -/
inductive Event
  /-- A live chat of the stream sends a message. -/
  | send (stream : ℤ) (message : Message) (docID : String) (time : Timestamp)
  /-- A document among the messages of the stream is deleted. -/
  | delete (stream : ℤ) (docID : String)
  /-- A document that is not of type 1 is added to them. -/
  | addOther (stream : ℤ) (data : Fields) (docID : String) (time : Timestamp)

/-- The server timestamp of a message sent. -/
def Event.timestamp : Event → Option Timestamp
  | send _ _ _ time => some time
  | _ => none

/-- The path of the messages of a stream. -/
def messages (env : EnvironmentType) (stream : ℤ) : List String :=
  DocumentReference.collection
    ⟨ResourcePath.fromString ("antourage/" ++ env.rawValue ++ "/streams"),
      SwiftInt.description stream⟩ "messages"

/-- Is it a document of type 1? -/
def isMessage (data : Fields) : Bool := (data.lookup "type").any (·.isEqualTo (.integer 1))

/-- The steps of a history; automatic ids are fresh. -/
inductive Step (env : EnvironmentType) : Database → Event → Database → Prop
  | send (db : Database) (contentMO : VideoContentMO) (stream : ℤ) (message : Message)
      (docID : String) (time : Timestamp) (hlive : contentMO.chatLoaded = false)
      (hfresh : docID ∉ db (messages env stream)) :
      Step env db (.send stream message docID time)
        ((FireChat.init env contentMO stream).send message docID time db)
  | delete (db : Database) (stream : ℤ) (docID : String) :
      Step env db (.delete stream docID) (db.delete ⟨messages env stream, docID⟩)
  | addOther (db : Database) (stream : ℤ) (data : Fields) (docID : String) (time : Timestamp)
      (htype : isMessage data = false) (hfresh : docID ∉ db (messages env stream)) :
      Step env db (.addOther stream data docID time)
        (db.addDocument (messages env stream) docID data time)

/-! ## The log -/

/-- How an event changes the log of surviving messages. -/
def survive (log : List Sent) : Event → List Sent
  | .send stream message docID time => log ++ [⟨stream, docID, message, time⟩]
  | .delete stream docID => log.filter fun m => ¬ (m.stream = stream ∧ m.docID = docID)
  | .addOther _ _ _ _ => log

/-- The messages that were sent and not deleted since. -/
def survivors (history : List Event) : List Sent := history.foldl survive []

@[simp] lemma survivors_concat (history : List Event) (e : Event) :
    survivors (history ++ [e]) = survive (survivors history) e := by
  simp [survivors]

/-- The surviving messages were sent at times of the history. -/
lemma survivors_sublist (history : List Event) :
    ((survivors history).map Sent.time).Sublist (history.filterMap Event.timestamp) := by
  induction history using List.reverseRecOn with
  | nil => exact List.Sublist.slnil
  | append_singleton history e ih =>
    rw [survivors_concat, List.filterMap_append]
    cases e with
    | send stream message docID time =>
      simpa [survive, Event.timestamp] using ih
    | delete stream docID =>
      rw [show [Event.delete stream docID].filterMap Event.timestamp = [] from rfl,
        List.append_nil]
      exact (List.filter_sublist.map Sent.time).trans ih
    | addOther stream data docID time =>
      rw [show [Event.addOther stream data docID time].filterMap Event.timestamp = [] from rfl,
        List.append_nil]
      exact ih

/-! ## The documents -/

@[simp] lemma fields_timestamp (m : Sent) :
    m.fields.lookup "timestamp" = some (.timestamp m.time) := rfl

@[simp] lemma fields_string (m : Sent) : m.fields.string "userID" = some m.message.userID ∧
    m.fields.string "nickname" = some m.message.nickname ∧
    m.fields.string "text" = some m.message.text := ⟨rfl, rfl, rfl⟩

/-- Sent messages are of type 1. -/
@[simp] lemma isMessage_fields (m : Sent) : isMessage m.fields = true := rfl

/-- Resolving server timestamps does not make a message of a document. -/
lemma isMessage_resolve (data : Fields) (now : Timestamp) :
    isMessage (data.resolve now) = isMessage data := by
  unfold isMessage Fields.resolve
  induction data with
  | nil => rfl
  | cons f data ih =>
    obtain ⟨key, value⟩ := f
    by_cases hkey : "type" = key
    · subst hkey
      cases value <;> simp [FieldValue.resolve, FieldValue.isEqualTo]
    · have hkey : ("type" == key) = false := by simpa using hkey
      simpa [List.lookup_cons, hkey] using ih

/-- The messages of different streams are in different places. -/
lemma messages_inj {env : EnvironmentType} {stream stream' : ℤ} :
    messages env stream = messages env stream' ↔ stream = stream' := by
  simp [messages, DocumentReference.collection]

/-- A live chat adds the message to the messages of its stream. -/
lemma send_live {env : EnvironmentType} {contentMO : VideoContentMO} {stream : ℤ}
    (h : contentMO.chatLoaded = false) (message : Message) (docID : String) (time : Timestamp)
    (db : Database) : (FireChat.init env contentMO stream).send message docID time db =
      db.setData ⟨messages env stream, docID⟩ message.toAnyObject time := by
  simp [FireChat.init, h, FireChat.send, Database.addDocument, messages]

/-- The database holds, as documents of type 1, exactly the messages of a log. -/
def Refines (env : EnvironmentType) (log : List Sent) (db : Database) : Prop :=
  ∀ stream docID data,
    (db (messages env stream)).lookup docID = some data ∧ isMessage data = true ↔
      ∃ m ∈ log, m.stream = stream ∧ m.docID = docID ∧ m.fields = data

variable {env : EnvironmentType} {log : List Sent} {db db' : Database} {e : Event}

/-- No message of the log is stored under a fresh id. -/
lemma Refines.fresh (h : Refines env log db) {stream : ℤ} {docID : String}
    (hfresh : docID ∉ db (messages env stream)) (m : Sent) (hm : m ∈ log) :
    ¬ (m.stream = stream ∧ m.docID = docID) := by
  rintro ⟨rfl, rfl⟩
  obtain ⟨hlookup, -⟩ := (h m.stream m.docID m.fields).mpr ⟨m, hm, rfl, rfl, rfl⟩
  rw [AList.lookup_eq_none.mpr hfresh] at hlookup
  cases hlookup

/-- **Every write is one of the log**: a step of the database refines the same step of the log.

**Proof sketch.** A step changes the document of one id in one collection. Under that id there
is the new message after sending, nothing after a deletion, and no message after adding
another document, since no message was there before; everywhere else both are as before. -/
lemma refines_step (hs : Refines env log db) (h : Step env db e db') :
    Refines env (survive log e) db' := by
  intro stream' docID' data'
  cases h with
  | send contentMO stream message docID time hlive hfresh =>
    rw [send_live hlive, Database.lookup_setData]
    simp only [survive, messages_inj, List.mem_append, List.mem_singleton]
    split
    · rename_i hkey
      obtain ⟨rfl, rfl⟩ := hkey
      constructor
      · rintro ⟨hdata, -⟩
        exact ⟨_, Or.inr rfl, rfl, rfl, Option.some.inj hdata⟩
      · rintro ⟨m, hm | rfl, hstream, hdocID, rfl⟩
        · exact absurd ⟨hstream, hdocID⟩ (hs.fresh hfresh m hm)
        · exact ⟨rfl, isMessage_fields _⟩
    · rename_i hkey
      rw [hs stream' docID' data']
      constructor
      · rintro ⟨m, hm, hrest⟩
        exact ⟨m, Or.inl hm, hrest⟩
      · rintro ⟨m, hm | rfl, hstream, hdocID, hdata⟩
        · exact ⟨m, hm, hstream, hdocID, hdata⟩
        · exact absurd ⟨hstream.symm, hdocID.symm⟩ hkey
  | delete stream docID =>
    rw [Database.lookup_delete]
    simp only [survive, messages_inj, List.mem_filter, decide_eq_true_eq]
    split
    · rename_i hkey
      obtain ⟨rfl, rfl⟩ := hkey
      constructor
      · rintro ⟨hdata, -⟩
        cases hdata
      · rintro ⟨m, ⟨-, hkept⟩, hstream, hdocID, -⟩
        exact absurd ⟨hstream, hdocID⟩ hkept
    · rename_i hkey
      rw [hs stream' docID' data']
      constructor
      · rintro ⟨m, hm, rfl, rfl, hdata⟩
        exact ⟨m, ⟨hm, hkey⟩, rfl, rfl, hdata⟩
      · rintro ⟨m, ⟨hm, -⟩, hrest⟩
        exact ⟨m, hm, hrest⟩
  | addOther stream data docID time htype hfresh =>
    rw [Database.addDocument, Database.lookup_setData]
    simp only [survive, messages_inj]
    split
    · rename_i hkey
      obtain ⟨rfl, rfl⟩ := hkey
      constructor
      · rintro ⟨hdata, hmessage⟩
        rw [← Option.some.inj hdata, isMessage_resolve, htype] at hmessage
        cases hmessage
      · rintro ⟨m, hm, hstream, hdocID, -⟩
        exact absurd ⟨hstream, hdocID⟩ (hs.fresh hfresh m hm)
    · exact hs stream' docID' data'

/-! ## What the feed reads -/

/-- The document of a sent message. -/
def document (env : EnvironmentType) (m : Sent) : QueryDocumentSnapshot :=
  ⟨⟨messages env m.stream, m.docID⟩, m.fields⟩

/-- The comment the feed makes of a sent message. -/
def comment (m : Sent) : LatestComment :=
  ⟨m.message.userID, m.message.nickname, m.message.text, some 0⟩

/-- The documents of type 1 of a stream are those of its surviving messages. -/
lemma Refines.mem_typed (h : Refines env log db) (stream : ℤ) (d : QueryDocumentSnapshot) :
    d ∈ Query.whereField (db.documents (messages env stream)) "type" (.integer 1) ↔
      ∃ m ∈ log, m.stream = stream ∧ document env m = d := by
  have hd := h stream d.documentID d.data
  rw [Query.whereField, List.mem_filter, Database.mem_documents, and_assoc, ← isMessage, hd]
  constructor
  · rintro ⟨hparent, m, hm, rfl, hdocID, hfields⟩
    refine ⟨m, hm, rfl, ?_⟩
    obtain ⟨⟨parent, documentID⟩, data⟩ := d
    cases hparent
    cases hdocID
    cases hfields
    rfl
  · rintro ⟨m, hm, rfl, rfl⟩
    exact ⟨rfl, m, hm, rfl, rfl, rfl⟩

/-- **The newest message**: the feed reads nothing of a stream without surviving messages, and
otherwise one of those with the greatest timestamp. -/
lemma Refines.getLatestMessageFor (h : Refines env log db) (ord : ValueOrder) (stream : ℤ) :
    let infoDict := MessageFetcher.getLatestMessageFor stream
      (some (MessageFetcher.getLatestMessageFor.ref ord env stream db))
    (infoDict = [] ∧ ∀ m ∈ log, m.stream ≠ stream) ∨
      ∃ m ∈ log, m.stream = stream ∧ (∀ m' ∈ log, m'.stream = stream → m'.time ≤ m.time) ∧
        infoDict = [(stream, comment m)] := by
  have href : MessageFetcher.getLatestMessageFor.ref ord env stream db =
      Query.limit (Query.order ord (Query.whereField (db.documents (messages env stream)) "type"
        (.integer 1)) "timestamp") 1 := rfl
  have hmem := h.mem_typed stream
  simp only [href]
  set typed := Query.whereField (db.documents (messages env stream)) "type" (.integer 1)
  cases hhead : (Query.limit (Query.order ord typed "timestamp") 1).head? with
  | none =>
    refine Or.inl ⟨by simp [MessageFetcher.getLatestMessageFor, hhead], fun m hm hstream => ?_⟩
    have hordered : document env m ∈ Query.order ord typed "timestamp" :=
      (Query.mem_order ord typed "timestamp" _).mpr
        ⟨(hmem _).mpr ⟨m, hm, hstream, rfl⟩, by simp [document]⟩
    have hnil : Query.order ord typed "timestamp" = [] := by
      simpa [Query.limit, List.head?_take] using hhead
    rw [hnil] at hordered
    cases hordered
  | some d =>
    obtain ⟨hd, hgreatest⟩ := Query.first_greatest ord typed "timestamp" d hhead
    obtain ⟨m, hm, hstream, rfl⟩ := (hmem d).mp hd
    refine Or.inr ⟨m, hm, hstream, fun m' hm' hstream' => ?_, ?_⟩
    · have hafter := hgreatest (document env m') ((hmem _).mpr ⟨m', hm', hstream', rfl⟩)
        (by simp [document])
      simpa [Query.descending, document, ord.timestamp] using hafter
    · simp [MessageFetcher.getLatestMessageFor, hhead, document, comment]

/-- **What chat writes, the feed reads back**: after every history of messages sent by live
chats, deletions and additions of other documents, with pairwise distinct server timestamps, the
feed reads for every stream a dictionary that is empty iff no message of that stream survives,
and otherwise has the id of the stream as its only key and the surviving message of that stream
with the greatest timestamp as its value. -/
theorem reads_back_latest (ord : ValueOrder) (env : EnvironmentType)
    (tr : List (Event × Database)) (hrun : Along (Step env) (fun _ => ∅) tr)
    (htimes : ((tr.map Prod.fst).filterMap Event.timestamp).Nodup) (stream : ℤ) :
    let sent := (survivors (tr.map Prod.fst)).filter fun m => m.stream = stream
    let infoDict := MessageFetcher.getLatestMessageFor stream
      (some (MessageFetcher.getLatestMessageFor.ref ord env stream (final (fun _ => ∅) tr)))
    (infoDict = [] ↔ sent = []) ∧
    ∀ m ∈ sent, (∀ m' ∈ sent, m'.time ≤ m.time) → infoDict = [(stream, comment m)] := by
  have hrefines : Refines env (survivors (tr.map Prod.fst)) (final (fun _ => ∅) tr) := by
    refine hrun.history (P := fun history db => Refines env (survivors history) db) ?_ ?_
    · intro stream docID data
      simp [survivors]
    · intro history db e db' hs h
      rw [survivors_concat]
      exact refines_step hs h
  have hdistinct := htimes.sublist (survivors_sublist _)
  rcases hrefines.getLatestMessageFor ord stream with ⟨hnil, hnone⟩ | ⟨m, hm, hstream, hmax, hdict⟩
  · have hsent : (survivors (tr.map Prod.fst)).filter (fun m => m.stream = stream) = [] := by
      simpa [List.filter_eq_nil_iff] using hnone
    simp only [hnil, hsent]
    exact ⟨trivial, by simp⟩
  · have hmem : m ∈ (survivors (tr.map Prod.fst)).filter fun m => m.stream = stream := by
      simp [hm, hstream]
    refine ⟨?_, fun m' hm' hgreatest => ?_⟩
    · simp only [hdict, List.cons_ne_nil, false_iff]
      exact List.ne_nil_of_mem hmem
    · obtain ⟨hm', hstream'⟩ : m' ∈ survivors (tr.map Prod.fst) ∧ m'.stream = stream := by
        simpa using hm'
      have htime : m.time = m'.time := le_antisymm (hgreatest m hmem) (hmax m' hm' hstream')
      rw [hdict, List.inj_on_of_nodup_map hdistinct hm hm' htime]

/-- Two messages are sent to a stream and one to another, and the second one is deleted. -/
theorem reads_back_after_deletion :
    let chat := FireChat.init .dev ⟨false, false, none⟩
    let db₁ := (chat 7).send ⟨"1", "Ann", "First", none⟩ "a" 10 fun _ => ∅
    let db₂ := (chat 7).send ⟨"2", "Bob", "Second", none⟩ "b" 20 db₁
    let db₃ := (chat 8).send ⟨"3", "Cy", "Elsewhere", none⟩ "c" 30 db₂
    let db₄ := db₃.delete ⟨messages .dev 7, "b"⟩
    MessageFetcher.getLatestMessageFor 7
      (some (MessageFetcher.getLatestMessageFor.ref .timestampsLast .dev 7 db₄)) =
        [(7, ⟨"1", "Ann", "First", some 0⟩)] := by
  intro chat db₁ db₂ db₃ db₄
  exact (reads_back_latest .timestampsLast .dev
    [(.send 7 ⟨"1", "Ann", "First", none⟩ "a" 10, db₁),
      (.send 7 ⟨"2", "Bob", "Second", none⟩ "b" 20, db₂),
      (.send 8 ⟨"3", "Cy", "Elsewhere", none⟩ "c" 30, db₃), (.delete 7 "b", db₄)]
    ⟨.send _ _ 7 _ "a" 10 rfl (by decide), .send _ _ 7 _ "b" 20 rfl (by decide),
      .send _ _ 8 _ "c" 30 rfl (by decide), .delete _ 7 "b", trivial⟩ (by decide) 7).2
    ⟨7, "a", ⟨"1", "Ann", "First", none⟩, 10⟩ (by decide) (by decide)

end ReadBack

end AntViewer
