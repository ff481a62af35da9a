import QuerySignature.SqlType.Basic
import QuerySignature.Text.Caseless
import QuerySignature.Text.CharClass

namespace QuerySignature

/-! # Names of types

Every type has one canonical name. A declared type is read with or without a length and modifiers,
as in `varchar(255)` or `int unsigned`; the storage classes only in upper case, all other names in
any case.

- `ofDeclared?_name`: the canonical name of a type declares that type.
-/

namespace SqlType

/-- The canonical name. -/
def name : SqlType → String
  | tinyInt => "tinyint"
  | smallInt => "smallint"
  | mediumInt => "mediumint"
  | int => "int"
  | bigInt => "bigint"
  | float => "float"
  | double => "double"
  | decimal => "decimal"
  | char => "char"
  | varchar => "varchar"
  | text => "text"
  | enum => "enum"
  | set => "set"
  | date => "date"
  | dateTime => "datetime"
  | timestamp => "timestamp"
  | time => "time"
  | year => "year"
  | bit => "bit"
  | blob => "blob"
  | json => "json"
  | storageInteger => "INTEGER"
  | storageReal => "REAL"
  | storageNumeric => "NUMERIC"
  | storageText => "TEXT"
  | storageBlob => "BLOB"
  | storageDate => "DATE"

/-- The storage class of an upper-case name. -/
def storageClass? (base : String) : Option SqlType :=
  match base with
  | "INTEGER" => some storageInteger
  | "REAL" => some storageReal
  | "NUMERIC" => some storageNumeric
  | "TEXT" => some storageText
  | "BLOB" => some storageBlob
  | "DATE" => some storageDate
  | _ => none

/-- The column type of a lower-case name. -/
def columnType? (base : String) : Option SqlType :=
  match base with
  | "tinyint" | "bool" | "boolean" => some tinyInt
  | "smallint" => some smallInt
  | "mediumint" => some mediumInt
  | "int" | "integer" => some int
  | "bigint" => some bigInt
  | "float" => some float
  | "double" | "real" => some double
  | "decimal" | "numeric" | "dec" => some decimal
  | "char" => some char
  | "varchar" => some varchar
  | "text" | "tinytext" | "mediumtext" | "longtext" => some text
  | "enum" => some enum
  | "set" => some set
  | "date" => some date
  | "datetime" => some dateTime
  | "timestamp" => some timestamp
  | "time" => some time
  | "year" => some year
  | "bit" => some bit
  | "blob" | "tinyblob" | "mediumblob" | "longblob" | "binary" | "varbinary" => some blob
  | "json" => some json
  | _ => none

/-- The characters of a declaration up to its length or modifiers, without surrounding blanks. -/
def declaredBase (declared : String) : String :=
  let cut := declared.toList.takeWhile fun c => c != '(' && c != ' '
  String.ofList ((cut.dropWhile isBlank).reverse.dropWhile isBlank).reverse

/-- The type that a declaration names. -/
def ofDeclared? (declared : String) : Option SqlType :=
  let base := declaredBase declared
  (storageClass? base).or (columnType? (lowerName base))

theorem ofDeclared?_name (t : SqlType) : ofDeclared? t.name = some t := by
  cases t <;> rfl

end SqlType

end QuerySignature
