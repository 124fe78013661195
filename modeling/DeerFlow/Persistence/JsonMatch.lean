import DeerFlow.Lib.JsonRoundTrip
import DeerFlow.Persistence.ThreadStores

/-! The metadata filter as SQL. One template gives a clause for SQLite and one for PostgreSQL, which
name the types of JSON differently, read numbers differently and cast them differently. -/

namespace DeerFlow.Persistence

section Texts

/-- A character of Python: any code point, also one of the two halves of a pair. -/
abbrev CodePoint := Fin 0x110000

abbrev CodeText := List CodePoint

namespace CodePoint

def isHigh (c : CodePoint) : Bool := 0xD800 ≤ c.val ∧ c.val < 0xDC00

def isLow (c : CodePoint) : Bool := 0xDC00 ≤ c.val ∧ c.val < 0xE000

def isSurrogate (c : CodePoint) : Bool := c.isHigh || c.isLow

/-- The character, if it has one of its own. -/
def toChar? (c : CodePoint) : Option Char :=
  if h : c.val.isValidChar then some (Char.ofNatAux c.val h) else none

end CodePoint

def codes (text : Text) : CodeText := text.map fun c => Fin.ofNat 0x110000 c.toNat

def CodeText.chars? (s : CodeText) : Option Text := s.mapM CodePoint.toChar?

/-- A text of PostgreSQL has no character zero, and no text in UTF-8 has half of a pair. -/
def unreadable (s : CodeText) : Bool := s.any fun c => c = 0 || c.isSurrogate

end Texts

section Stored

/-- A string of JSON: two halves that make up a pair are read as one character. -/
structure JsonText where
  codes : CodeText
  joined : codes.IsChain fun c d => ¬ (c.isHigh = true ∧ d.isLow = true)

/-- A value of JSON, which has no NaN and no infinite number. -/
inductive StoredJson where
  | null
  | bool (b : Bool)
  | int (n : Int)
  | float (x : FloatLiteral)
  | str (s : JsonText)
  | arr (xs : List StoredJson)
  | obj (items : List (JsonText × StoredJson))

/-- The JSON object of a metadata column. -/
structure MetadataObject where
  items : List (JsonText × StoredJson)
  unique : (items.map fun item => item.1.codes).Nodup

def MetadataObject.get (object : MetadataObject) (key : String) : Option StoredJson :=
  (object.items.find? fun item => item.1.codes = codes key.toList).map Prod.snd

mutual

/-- A key or a string of the value is unreadable. -/
def unreadableJson : StoredJson → Bool
  | .null | .bool _ | .int _ | .float _ => false
  | .str s => unreadable s.codes
  | .arr xs => unreadableList xs
  | .obj items => unreadableItems items

def unreadableList : List StoredJson → Bool
  | [] => false
  | x :: xs => unreadableJson x || unreadableList xs

def unreadableItems : List (JsonText × StoredJson) → Bool
  | [] => false
  | (k, x) :: items => unreadable k.codes || unreadableJson x || unreadableItems items

end

end Stored

section Filter

/-- What `JsonMatch.__init__` lets through. -/
structure JsonMatch where
  key : String
  value : FilterValue CodeText
  validKey : validateMetadataFilterKey key = true
  validValue : validateMetadataFilterValue value = true

end Filter

section Values

/-- A real of SQLite: the one nearest to an integer, or that of a literal. -/
inductive SqlReal where
  | ofInt (n : Int)
  | ofLiteral (text : Text)
  deriving DecidableEq

inductive SqlValue where
  | null
  | bool (b : Bool)
  | int (n : Int)
  | real (r : SqlReal)
  | text (s : CodeText)
  deriving DecidableEq

inductive SqlError where
  | unicodeEncode
  | unsupportedUnicode
  | invalidByteSequence
  | invalidText
  | outOfRange
  deriving DecidableEq

def sqlEq (a b : SqlValue) : SqlValue :=
  if a = .null ∨ b = .null then .null else .bool (a = b)

def sqlAnd : SqlValue → SqlValue → SqlValue
  | .bool false, _ => .bool false
  | _, .bool false => .bool false
  | .bool true, .bool true => .bool true
  | _, _ => .null

/-- `~`. -/
def sqlRegex (pattern : Text → Bool) : SqlValue → SqlValue
  | .text s => .bool (s.chars?.any pattern)
  | _ => .null

def FilterValue.toSql : FilterValue CodeText → SqlValue
  | .null => .null
  | .bool b => .bool b
  | .int n => .int n
  | .str s => .text s

/-- `^-?[0-9]+$`. -/
def isIntegerText (text : Text) : Bool :=
  let digits := if text.head? = some '-' then text.tail else text
  digits ≠ [] && digits.all Char.isDigit

def integerOfText (text : Text) : Int :=
  if text.head? = some '-' then -(Nat.ofDigitChars 10 text.tail 0 : Int)
  else Nat.ofDigitChars 10 text 0

inductive IntegerType where
  | integer
  | bigint

/-- What SQLite makes of a value that is not a number of JSON. -/
def castTo (otherInteger : SqlValue → Int) : IntegerType → SqlValue → Except SqlError SqlValue
  | _, .null => .ok .null
  | .integer, .int n => .ok (.int n)
  | .integer, .real (.ofInt n) => .ok (.int (castInt64 n))
  | .integer, value => .ok (.int (otherInteger value))
  | .bigint, .text s =>
    match s.chars?.filter isIntegerText with
    | some text =>
      let n := integerOfText text
      if int64Min ≤ n ∧ n ≤ int64Max then .ok (.int n) else .error .outOfRange
    | none => .error .invalidText
  | .bigint, value => .ok (.int (otherInteger value))

end Values

section Clauses

inductive SqlExpr where
  | typeof
  | extract
  | literal (s : String)
  | param (value : FilterValue CodeText)
  | eq (a b : SqlExpr)
  | isIn (a : SqlExpr) (values : List String)
  | and (a b : SqlExpr)
  | cast (a : SqlExpr) (type : IntegerType)
  | likeRegex (a : SqlExpr) (pattern : Text → Bool)
  | caseWhen (condition result : SqlExpr)

/-- `_Dialect`, as far as the filter values need it. -/
structure DialectNames where
  nullType : String
  intTypes : List String
  intCast : IntegerType
  intGuard : Option (Text → Bool)
  stringType : String
  boolType : Option String

def sqliteNames : DialectNames where
  nullType := "null"
  intTypes := ["integer"]
  intCast := .integer
  intGuard := none
  stringType := "text"
  boolType := none

def pgNames : DialectNames where
  nullType := "null"
  intTypes := ["number"]
  intCast := .bigint
  intGuard := some isIntegerText
  stringType := "string"
  boolType := some "boolean"

def typeCheck : List String → SqlExpr
  | [type] => .eq .typeof (.literal type)
  | types => .isIn .typeof types

def buildClause (dialect : DialectNames) : FilterValue CodeText → SqlExpr
  | .null => .eq .typeof (.literal dialect.nullType)
  | .bool b =>
    let boolStr := if b then "true" else "false"
    match dialect.boolType with
    | none => .eq .typeof (.literal boolStr)
    | some boolType => .and (.eq .typeof (.literal boolType)) (.eq .extract (.literal boolStr))
  | .int n =>
    match dialect.intGuard with
    | some guard =>
      .eq (.caseWhen (.and (typeCheck dialect.intTypes) (.likeRegex .extract guard))
        (.cast .extract dialect.intCast)) (.param (.int n))
    | none =>
      .and (typeCheck dialect.intTypes) (.eq (.cast .extract dialect.intCast) (.param (.int n)))
  | .str s => .and (.eq .typeof (.literal dialect.stringType)) (.eq .extract (.param (.str s)))

end Clauses

section Databases

/-- What a database answers about the value under a key, and how it takes a parameter. -/
structure Database where
  field : MetadataObject → String → Except SqlError (Option StoredJson)
  typeof : StoredJson → String
  extract : StoredJson → SqlValue
  bind : FilterValue CodeText → Except SqlError SqlValue
  names : DialectNames

/-- What is left open of the databases: the text of an array or an object, and whether SQLite reads
the escapes of a label before it compares it with a key, as it does since 3.45. -/
structure DatabaseBuild where
  container : StoredJson → CodeText
  readsLabels : Bool

/-- `json_type`, `json_extract`. An integer beyond 64 bits is extracted as a real, and a string up
to the character zero. The newline of a key is escaped in a label. -/
def sqlite (build : DatabaseBuild) : Database where
  field object key :=
    .ok (if build.readsLabels || '\n' ∉ key.toList then object.get key else none)
  typeof
    | .null => "null"
    | .bool b => if b then "true" else "false"
    | .int _ => "integer"
    | .float _ => "real"
    | .str _ => "text"
    | .arr _ => "array"
    | .obj _ => "object"
  extract
    | .null => .null
    | .bool b => .int (if b then 1 else 0)
    | .int n => if int64Min ≤ n ∧ n ≤ int64Max then .int n else .real (.ofInt n)
    | .float x => .real (.ofLiteral x.text)
    | .str s => .text (s.codes.takeWhile (· ≠ 0))
    | .arr xs => .text (build.container (.arr xs))
    | .obj items => .text (build.container (.obj items))
  bind
    | .str s => if s.any CodePoint.isSurrogate then .error .unicodeEncode else .ok (.text s)
    | value => .ok value.toSql
  names := sqliteNames

/-- `json_typeof`, `->>`. An object with a text that is unreadable cannot be read, and such a
parameter cannot be sent. -/
def postgres (build : DatabaseBuild) : Database where
  field object key :=
    if unreadableItems object.items then .error .unsupportedUnicode else .ok (object.get key)
  typeof
    | .null => "null"
    | .bool _ => "boolean"
    | .int _ | .float _ => "number"
    | .str _ => "string"
    | .arr _ => "array"
    | .obj _ => "object"
  extract
    | .null => .null
    | .bool b => .text (codes (if b then "true" else "false").toList)
    | .int n => .text (codes (intText n))
    | .float x => .text (codes x.text)
    | .str s => .text s.codes
    | .arr xs => .text (build.container (.arr xs))
    | .obj items => .text (build.container (.obj items))
  bind
    | .str s =>
      if s.any CodePoint.isSurrogate then .error .unicodeEncode
      else if 0 ∈ s then .error .invalidByteSequence
      else .ok (.text s)
    | value => .ok value.toSql
  names := pgNames

variable (db : Database) (otherInteger : SqlValue → Int) (object : MetadataObject) (key : String)

/-- A clause is evaluated in full, except for a CASE whose condition does not hold. -/
@[grind =]
def SqlExpr.eval : SqlExpr → Except SqlError SqlValue
  | .typeof => (db.field object key).map fun found =>
      (found.map fun x => SqlValue.text (codes (db.typeof x).toList)).getD .null
  | .extract => (db.field object key).map fun found => (found.map db.extract).getD .null
  | .literal s => .ok (.text (codes s.toList))
  | .param value => db.bind value
  | .eq a b => do return sqlEq (← a.eval) (← b.eval)
  | .isIn a values => do
    let x ← a.eval
    return if x = .null then .null else .bool (values.any fun s => x = .text (codes s.toList))
  | .and a b => do return sqlAnd (← a.eval) (← b.eval)
  | .cast a type => do castTo otherInteger type (← a.eval)
  | .likeRegex a pattern => do return sqlRegex pattern (← a.eval)
  | .caseWhen condition result => do
    if (← condition.eval) = .bool true then result.eval else return .null

/-- Whether a search finds the row. -/
def JsonMatch.selects (filter : JsonMatch) : Except SqlError Bool :=
  ((buildClause db.names filter.value).eval db otherInteger object filter.key).map
    fun result => decide (result = .bool true)

end Databases

end DeerFlow.Persistence
