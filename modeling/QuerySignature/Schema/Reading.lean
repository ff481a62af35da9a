import QuerySignature.Json.Decode
import QuerySignature.Json.Reader
import QuerySignature.Schema.Basic
import QuerySignature.SqlType.Name

namespace QuerySignature

/-! # Reading a schema

A schema document is a JSON list of column records. The records are read in order and the first
bad one decides the error. Within a record that is an object the fields are looked at in the order
of their names, and only then are missing fields missed; within one that is a list, in the order
of the list. How the text of a file is got is left to whoever asks for the schema.
-/

/-- What is wrong with a record. -/
inductive RecordFault where
  | unknownType (declared : String)
  | wrongField (name : String)
  | missingField (name : String)
  | notARecord
  deriving DecidableEq, Repr

namespace RecordFault

/-- The fault in words. -/
def message : RecordFault → String
  | unknownType declared => "Unknown column type '" ++ declared ++ "'"
  | wrongField name => "invalid value for field '" ++ name ++ "'"
  | missingField name => "missing field '" ++ name ++ "'"
  | notARecord => "invalid column record"

end RecordFault

/-- Why there is no schema or no type. -/
inductive SchemaError where
  | unknownType (declared : String)
  | unreadable (path : String) (reason : String)
  | notJson (path : String)
  | notAList
  | badRecord (fault : RecordFault)
  deriving DecidableEq, Repr

namespace SchemaError

/-- The error in words. -/
def message : SchemaError → String
  | unknownType declared => "Unknown column type '" ++ declared ++ "'"
  | unreadable path reason => "Could not read schema file " ++ path ++ ": " ++ reason
  | notJson path => "Invalid schema JSON: " ++ path ++ ": not a JSON value"
  | notAList => "Invalid schema JSON: schema JSON must be an array of column records"
  | badRecord fault => "Invalid schema JSON: " ++ fault.message

end SchemaError

/-- The type of a declaration, or the error that names it. -/
def SqlType.declared (declaration : String) : Except SchemaError SqlType :=
  match SqlType.ofDeclared? declaration with
  | some type => .ok type
  | none => .error (.unknownType declaration)

namespace ColumnRecord

/-- Reads the value of a field with a plain reader. -/
def field {α : Type} (read? : Json → Option α) (name : String) (value : Json) :
    Except RecordFault α :=
  match read? value with
  | some read => .ok read
  | none => .error (.wrongField name)

/-- Reads the declared type. -/
def typeField (value : Json) : Except RecordFault SqlType :=
  match value with
  | .text declared =>
    match SqlType.ofDeclared? declared with
    | some type => .ok type
    | none => .error (.unknownType declared)
  | _ => .error (.wrongField "type")

/-- Reads the mark of a key. -/
def keyField : Json → Except RecordFault KeyRole :=
  field (fun value => value.choice?.bind KeyRole.ofMark?) "key"

/-- Misses a field. -/
def require {α : Type} (name : String) : Option α → Except RecordFault α
  | some value => .ok value
  | none => .error (.missingField name)

/-- Reads a record. -/
def ofJson (value : Json) : Except RecordFault ColumnRecord :=
  match value with
  | .object fields => do
    let column ← (Json.find? "column" fields).mapM (field Json.text? "column")
    let key ← (Json.find? "key" fields).mapM keyField
    let notNull ← (Json.find? "notNull" fields).mapM (field Json.bool? "notNull")
    let table ← (Json.find? "table" fields).mapM (field Json.text? "table")
    let type ← (Json.find? "type" fields).mapM typeField
    let table ← require "table" table
    let column ← require "column" column
    let type ← require "type" type
    let notNull ← require "notNull" notNull
    pure ⟨table, column, type, key.getD .plain, notNull⟩
  | .list items => do
    let table ← require "table" items[0]? >>= field Json.text? "table"
    let column ← require "column" items[1]? >>= field Json.text? "column"
    let type ← require "type" items[2]? >>= typeField
    let key ← items[3]?.mapM keyField
    let notNull ← require "notNull" items[4]? >>= field Json.bool? "notNull"
    if 5 < items.length then .error .notARecord
    else pure ⟨table, column, type, key.getD .plain, notNull⟩
  | _ => .error .notARecord

end ColumnRecord

namespace Schema

/-- Reads a schema document. -/
def ofJson (value : Json) : Except SchemaError Schema :=
  match value with
  | .list items =>
    match items.mapM ColumnRecord.ofJson with
    | .ok records => .ok (ofRecords records)
    | .error fault => .error (.badRecord fault)
  | _ => .error .notAList

/-- Reads the text of a schema file. -/
def ofText (path text : String) : Except SchemaError Schema :=
  match Json.read? text with
  | some value => ofJson value
  | none => .error (.notJson path)

/-- Reads the schema file at a path, given what reading a path comes to: a text, or why there is
none. -/
def ofFile (read : String → Except String String) (path : String) : Except SchemaError Schema :=
  match read path with
  | .ok text => ofText path text
  | .error reason => .error (.unreadable path reason)

end Schema

end QuerySignature
