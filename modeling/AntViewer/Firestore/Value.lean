import AntViewer.Swift

set_option relaxedAutoImplicit false
set_option autoImplicit false

/-!
# Firestore field values and their Swift casts

The value of a document field is one of the vendored client's field types. The program only
ever sees it through a conditional cast (`as? Int`, `as? Bool`, `as? String`, `as? [String]`,
`as? Timestamp`). Numbers and booleans reach Swift boxed as `NSNumber`, so the numeric casts
succeed whenever the number is represented exactly: `true as? Int` is `1`, `3.0 as? Int` is
`3`, and `1 as? Bool` is `true`.

## Main definitions

* `DocumentKey` — the keys of documents.
* `FieldValue` — the field types; `Fields` — the dictionary `data()` returns.
* `FieldValue.asInt`, `asBool`, `asString`, `asStringArray`, `asTimestamp` — the casts.
* `FieldValue.isEqualTo` — the equality filter of a query.
* `Fields.resolve` — what the server stores for a server-timestamp marker.
-/

namespace AntViewer

/-- A point in time, in nanoseconds. -/
abbrev Timestamp := ℤ

/-- `DocumentKey`: a path with an even number of segments. -/
@[ext] structure DocumentKey where
  path : List String
  even : path.length % 2 = 0

/-- A field value. A double is given by its exact value, `none` for infinities and NaN; a reference
by the key of its document; the contents of blobs, geo points and nested objects are read by nothing
here. -/
inductive FieldValue
  | null
  | boolean (b : Bool)
  | integer (n : ℤ)
  | double (value : Option ℚ)
  | timestamp (t : Timestamp)
  /-- A write of `FieldValue.serverTimestamp()` the server has not resolved yet. -/
  | serverTimestamp
  | string (s : String)
  | blob
  | reference (key : DocumentKey)
  | geoPoint
  | array (elements : List FieldValue)
  | object

namespace FieldValue

/-- `value as? Int`. -/
def asInt : FieldValue → Option ℤ
  | boolean b => some (if b then 1 else 0)
  | integer n => some n
  | double (some q) => if q.den = 1 ∧ SwiftInt.InRange q.num then some q.num else none
  | _ => none

/-- `value as? Bool`. -/
def asBool : FieldValue → Option Bool
  | boolean b => some b
  | integer n => if n = 1 then some true else if n = 0 then some false else none
  | double (some q) => if q = 1 then some true else if q = 0 then some false else none
  | _ => none

/-- `value as? String`. -/
def asString : FieldValue → Option String
  | string s => some s
  | _ => none

/-- `value as? [String]`: every element has to be a string. -/
def asStringArray : FieldValue → Option (List String)
  | array elements => elements.mapM asString
  | _ => none

/-- `value as? Timestamp`; an unresolved server timestamp reads as null. -/
def asTimestamp : FieldValue → Option Timestamp
  | timestamp t => some t
  | _ => none

/-- The constants the program filters by with `isEqualTo:`. -/
inductive Filter
  | integer (n : ℤ)
  | boolean (b : Bool)

/-- The equality filter of a query, which compares numbers by value across the number types. -/
def isEqualTo : FieldValue → Filter → Bool
  | integer m, .integer n => m = n
  | double (some q), .integer n => q = n
  | boolean a, .boolean b => a = b
  | _, _ => false

/-- What the server stores at time `now` for a field of a write. -/
def resolve (now : Timestamp) : FieldValue → FieldValue
  | serverTimestamp => timestamp now
  | v => v

end FieldValue

/-- The fields of a document, as the dictionary `[String: Any]` of `data()`. -/
abbrev Fields := List (String × FieldValue)

namespace Fields

/-- `data[key] as? Int`. -/
def int (data : Fields) (key : String) : Option ℤ := (data.lookup key).bind FieldValue.asInt

/-- `data[key] as? Bool`. -/
def bool (data : Fields) (key : String) : Option Bool := (data.lookup key).bind FieldValue.asBool

/-- `data[key] as? String`. -/
def string (data : Fields) (key : String) : Option String :=
  (data.lookup key).bind FieldValue.asString

/-- `data[key] as? [String]`. -/
def stringArray (data : Fields) (key : String) : Option (List String) :=
  (data.lookup key).bind FieldValue.asStringArray

/-- `data[key] as? Timestamp`. -/
def timestamp (data : Fields) (key : String) : Option Timestamp :=
  (data.lookup key).bind FieldValue.asTimestamp

/-- The fields the server stores for a write it receives at time `now`. -/
def resolve (now : Timestamp) (data : Fields) : Fields :=
  data.map fun f => (f.1, f.2.resolve now)

end Fields

end AntViewer
