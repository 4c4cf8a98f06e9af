import GraphMapper.Text.Escaped
import GraphMapper.Timestamp
import GraphMapper.Value.Text

/-!
# Codecs

How an application value becomes a stored value and back.  The list of codecs is
closed: it has the eight that every application is given.  An application may
bring rules of its own in their place; what is said of all codecs is said of
these eight, and null passes through each of them.

Timestamps are stored as seconds since 1970 in whole milliseconds, and JSON
values as text.  The other codecs store values as they are and check their
kind; an integer may be given as a whole floating-point number.
-/

namespace GraphMapper

/-- The marshalling rule of a property. -/
inductive Codec where
  /-- Text, of limited length if one is given. -/
  | string (maxLength : Option Nat)
  | integer
  | float
  | boolean
  | datetime
  | json
  /-- Text that is made up when none is supplied. -/
  | uniqueId
  /-- Lists whose items all follow one rule. -/
  | array (item : Codec)
deriving DecidableEq

/-- Why a codec refuses a value. -/
inductive CodecError where
  | mismatch (expected got : String)
  | tooLong (length max : Nat)
  | badTimestamp (text : String) (fault : Timestamp.Fault)
  | timestampOutOfRange (seconds : Double)
  | badJson (message : String)

/-- A refusal in words. -/
def CodecError.message : CodecError → String
  | mismatch expected got => "expected " ++ expected ++ ", got " ++ got
  | tooLong length max => s!"string of {length} chars exceeds max length {max}"
  | badTimestamp text fault => "invalid timestamp " ++ Text.escaped text ++ ": " ++ fault.text
  | timestampOutOfRange seconds => "timestamp " ++ seconds.plainText ++ " out of range"
  | badJson message => message

namespace Codec

/-- The name of a codec. -/
def kind : Codec → String
  | string _ => "string"
  | integer => "integer"
  | float => "float"
  | boolean => "boolean"
  | datetime => "datetime"
  | json => "json"
  | uniqueId => "unique_id"
  | array _ => "array"

/-- Whether the stored value is a list that filters search inside. -/
def isArray : Codec → Bool
  | array _ => true
  | _ => false

/-- The value made up when none is supplied, from a fresh identifier. -/
def generate (c : Codec) (fresh : String) : Option Value :=
  match c with
  | uniqueId => some (.string fresh)
  | _ => none

/-- The refusal of a value of the wrong kind. -/
def mismatch {α : Type} (expected : String) (v : Value) : Except CodecError α :=
  .error (.mismatch expected v.kind)

/-- Checks text against a length in characters. -/
def checkLength (maxLength : Option Nat) (s : String) : Except CodecError Value :=
  match maxLength with
  | some max => if max < s.length then .error (.tooLong s.length max) else .ok (.string s)
  | none => .ok (.string s)

/-- The point in time that a value gives: a timestamp in text, or seconds since 1970, rounded
to milliseconds. -/
def instant (v : Value) : Except CodecError Timestamp :=
  match v with
  | .string s =>
    match Timestamp.parse s with
    | .ok t => .ok t
    | .error fault => .error (.badTimestamp s fault)
  | v =>
    match v.float? with
    | none => mismatch "timestamp" v
    | some seconds =>
      let millis := seconds.scaleBy 1000
      let instant? :=
        if millis.isNaN then Timestamp.ofMillis? 0
        else if millis.isInfinite then none
        else Timestamp.ofMillis? millis.nearest
      match instant? with
      | some t => .ok t
      | none => .error (.timestampOutOfRange seconds)

/-- An application value as it is stored. -/
def encode : Codec → Value → Except CodecError Value
  | _, .null => .ok .null
  | string maxLength, v =>
    match v with
    | .string s => checkLength maxLength s
    | v => mismatch "string" v
  | integer, v =>
    match v with
    | .int i => .ok (.int i)
    | .float x =>
      match x.whole? with
      | some i => .ok (.int (saturate i))
      | none => mismatch "integer" v
    | v => mismatch "integer" v
  | float, v =>
    match v.float? with
    | some x => .ok (.float x)
    | none => mismatch "number" v
  | boolean, v =>
    match v with
    | .bool b => .ok (.bool b)
    | v => mismatch "bool" v
  | datetime, v => do
    let t ← instant v
    return .float (Double.ofRatio (decide (t.millis < 0)) t.millis.natAbs 1000)
  | json, v => .ok (.string v.text)
  | uniqueId, v =>
    match v with
    | .string s => .ok (.string s)
    | v => mismatch "string" v
  | array item, v =>
    match v with
    | .list items => return .list (← items.mapM (encode item))
    | v => mismatch "list" v

/-- A stored value as the application sees it. -/
def decode : Codec → Value → Except CodecError Value
  | _, .null => .ok .null
  | string _, v =>
    match v with
    | .string s => .ok (.string s)
    | v => mismatch "string" v
  | datetime, v => do
    let t ← instant v
    return .string t.text
  | json, v =>
    match v with
    | .string s =>
      match Value.parse s with
      | .ok v => .ok v
      | .error message => .error (.badJson message)
    | v => mismatch "json string" v
  | array item, v =>
    match v with
    | .list items => return .list (← items.mapM (decode item))
    | v => mismatch "list" v
  | integer, v => encode integer v
  | float, v => encode float v
  | boolean, v => encode boolean v
  | uniqueId, v => encode uniqueId v

end Codec

end GraphMapper
