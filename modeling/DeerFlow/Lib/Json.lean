import DeerFlow.Lib.KeyedTable

/-! JSON values and their text, as Python's `json` module writes it with
`ensure_ascii` off and reads it again. A text is a list of characters. A float
is its literal; objects keep the order of their keys. -/

namespace DeerFlow

abbrev Text := List Char

instance : LawfulBEq Text := inferInstance

structure Digits where
  chars : Text
  nonempty : chars ≠ []
  digits : ∀ c ∈ chars, c.isDigit = true

inductive Sign where
  | none
  | plus
  | minus

def Sign.text : Sign → Text
  | .none => []
  | .plus => ['+']
  | .minus => ['-']

structure Exponent where
  upper : Bool
  sign : Sign
  digits : Digits

structure FloatLiteral where
  negative : Bool
  whole : Nat
  fraction : Option Digits
  exponent : Option Exponent
  isFloat : fraction.isSome ∨ exponent.isSome

/-- The floats that JSON has no number for. -/
inductive NonFinite where
  | nan
  | infinity
  | negInfinity

inductive Json where
  | null
  | bool (b : Bool)
  | int (n : Int)
  | float (x : FloatLiteral)
  | nonFinite (x : NonFinite)
  | str (s : String)
  | arr (xs : List Json)
  | obj (items : List (String × Json))

inductive Json.Unique : Json → Prop
  | null : Unique .null
  | bool (b : Bool) : Unique (.bool b)
  | int (n : Int) : Unique (.int n)
  | float (x : FloatLiteral) : Unique (.float x)
  | nonFinite (x : NonFinite) : Unique (.nonFinite x)
  | str (s : String) : Unique (.str s)
  | arr {xs : List Json} : (∀ x ∈ xs, Unique x) → Unique (.arr xs)
  | obj {items : List (String × Json)} : (items.map Prod.fst).Nodup →
      (∀ x ∈ items, Unique x.2) → Unique (.obj items)

/-- Every character of the strings of a value satisfies `p`. -/
inductive Json.Over (p : Char → Prop) : Json → Prop
  | null : Over p .null
  | bool (b : Bool) : Over p (.bool b)
  | int (n : Int) : Over p (.int n)
  | float (x : FloatLiteral) : Over p (.float x)
  | nonFinite (x : NonFinite) : Over p (.nonFinite x)
  | str {s : String} : (∀ c ∈ s.toList, p c) → Over p (.str s)
  | arr {xs : List Json} : (∀ x ∈ xs, Over p x) → Over p (.arr xs)
  | obj {items : List (String × Json)} : (∀ x ∈ items, ∀ c ∈ x.1.toList, p c) →
      (∀ x ∈ items, Over p x.2) → Over p (.obj items)

section Writing

def Exponent.text (e : Exponent) : Text :=
  (if e.upper then 'E' else 'e') :: e.sign.text ++ e.digits.chars

def fractionText : Option Digits → Text
  | none => []
  | some ds => '.' :: ds.chars

def exponentText : Option Exponent → Text
  | none => []
  | some e => e.text

def FloatLiteral.text (x : FloatLiteral) : Text :=
  (if x.negative then ['-'] else []) ++ Nat.toDigits 10 x.whole ++
    (fractionText x.fraction ++ exponentText x.exponent)

def intText (n : Int) : Text :=
  (if n < 0 then ['-'] else []) ++ Nat.toDigits 10 n.natAbs

def NonFinite.text : NonFinite → Text
  | .nan => "NaN".toList
  | .infinity => "Infinity".toList
  | .negInfinity => "-Infinity".toList

def escapes : List (Char × Char) :=
  [('"', '"'), ('\\', '\\'), ('b', '\x08'), ('f', '\x0c'), ('n', '\n'), ('r', '\r'), ('t', '\t')]

def escapeChar (c : Char) : Text :=
  match escapes.find? fun e => e.2 = c with
  | some e => ['\\', e.1]
  | none =>
    if c.toNat < 32 then
      ['\\', 'u', '0', '0', Nat.digitChar (c.toNat / 16), Nat.digitChar (c.toNat % 16)]
    else [c]

def quote (s : String) : Text := '"' :: s.toList.flatMap escapeChar ++ ['"']

/-- What follows the first item of an array or an object. -/
@[grind =]
def joinTail {α : Type*} (text : α → Text) : List α → Text
  | [] => []
  | x :: xs => ',' :: ' ' :: text x ++ joinTail text xs

def joinItems {α : Type*} (text : α → Text) : List α → Text
  | [] => []
  | x :: xs => text x ++ joinTail text xs

mutual

def Json.dumps : Json → Text
  | .null => "null".toList
  | .bool b => if b then "true".toList else "false".toList
  | .int n => intText n
  | .float x => x.text
  | .nonFinite x => x.text
  | .str s => quote s
  | .arr [] => "[]".toList
  | .arr (x :: xs) => '[' :: x.dumps ++ dumpsTail xs ++ [']']
  | .obj [] => "\x7b\x7d".toList
  | .obj ((k, v) :: items) => '\x7b' :: quote k ++ ':' :: ' ' :: v.dumps ++ dumpsItems items ++ ['\x7d']

def dumpsTail : List Json → Text
  | [] => []
  | x :: xs => ',' :: ' ' :: x.dumps ++ dumpsTail xs

def dumpsItems : List (String × Json) → Text
  | [] => []
  | (k, v) :: items => ',' :: ' ' :: quote k ++ ':' :: ' ' :: v.dumps ++ dumpsItems items

end

end Writing

section Reading

def isJsonSpace (c : Char) : Bool := c = ' ' || c = '\t' || c = '\n' || c = '\r'

def skip (s : Text) : Text := s.dropWhile isJsonSpace

def parseDigits (s : Text) : Option (Digits × Text) :=
  let ds := s.takeWhile Char.isDigit
  if h : ds ≠ [] then some (⟨ds, h, fun _ => List.mem_takeWhile_imp⟩, s.dropWhile Char.isDigit)
  else none

/-- A number has no leading zeros: digits after a zero are not read. -/
def parseWhole : Text → Option (Nat × Text)
  | '0' :: rest => some (0, rest)
  | s => (parseDigits s).map fun p => (Nat.ofDigitChars 10 p.1.chars 0, p.2)

def parseFraction (s : Text) : Option Digits × Text :=
  match s with
  | '.' :: rest => (parseDigits rest).elim (none, s) fun p => (some p.1, p.2)
  | _ => (none, s)

def parseSign : Text → Sign × Text
  | '+' :: rest => (.plus, rest)
  | '-' :: rest => (.minus, rest)
  | s => (.none, s)

def parseExponent (s : Text) : Option Exponent × Text :=
  match s with
  | c :: rest =>
    if c = 'e' ∨ c = 'E' then
      (parseDigits (parseSign rest).2).elim (none, s) fun p =>
        (some ⟨c = 'E', (parseSign rest).1, p.1⟩, p.2)
    else (none, s)
  | [] => (none, [])

def parseUnsigned (negative : Bool) (s : Text) : Option (Json × Text) :=
  (parseWhole s).map fun p =>
    let fraction := parseFraction p.2
    let exponent := parseExponent fraction.2
    if h : fraction.1.isSome ∨ exponent.1.isSome then
      (.float ⟨negative, p.1, fraction.1, exponent.1, h⟩, exponent.2)
    else (.int (if negative then -p.1 else p.1), exponent.2)

def parseNumber : Text → Option (Json × Text)
  | '-' :: rest => parseUnsigned true rest
  | s => parseUnsigned false s

def hexDigit (c : Char) : Option Nat :=
  if c.isDigit then some (c.toNat - 48)
  else if 'a' ≤ c ∧ c ≤ 'f' then some (c.toNat - 87)
  else if 'A' ≤ c ∧ c ≤ 'F' then some (c.toNat - 55)
  else none

def hex4 (a b c d : Char) : Option Nat :=
  match hexDigit a, hexDigit b, hexDigit c, hexDigit d with
  | some a, some b, some c, some d => some (((a * 16 + b) * 16 + c) * 16 + d)
  | _, _, _, _ => none

def unescape (c : Char) : Option Char :=
  if c = '/' then some '/' else (escapes.find? fun e => e.1 = c).map Prod.snd

/-- The character of a code unit; a surrogate alone stands for no character. -/
def unitChar (n : Nat) : Option Char :=
  if 0xD800 ≤ n ∧ n < 0xE000 then none else some (Char.ofNat n)

/-- The rest of a string whose opening quote has been read. -/
@[grind =]
def parseString : Text → Option (Text × Text)
  | [] => none
  | '"' :: rest => some ([], rest)
  | '\\' :: 'u' :: a :: b :: c :: d :: rest =>
    match hex4 a b c d with
    | none => none
    | some n =>
      match unitChar n with
      | some x => (parseString rest).map fun p => (x :: p.1, p.2)
      | none =>
        match rest with
        | '\\' :: 'u' :: e :: f :: g :: h :: rest =>
          match hex4 e f g h with
          | none => none
          | some m =>
            if n < 0xDC00 ∧ 0xDC00 ≤ m ∧ m < 0xE000 then
              (parseString rest).map fun p =>
                (Char.ofNat (0x10000 + (n - 0xD800) * 0x400 + (m - 0xDC00)) :: p.1, p.2)
            else none
        | _ => none
  | '\\' :: c :: rest =>
    match unescape c with
    | none => none
    | some x => (parseString rest).map fun p => (x :: p.1, p.2)
  | c :: rest =>
    if c = '\\' ∨ c.toNat < 32 then none else (parseString rest).map fun p => (c :: p.1, p.2)

/-- The items up to `close`, the first of which starts here. -/
@[grind =]
def parseItems {α : Type*} (item : Text → Option (α × Text)) (close : Char) :
    Nat → Text → Option (List α × Text)
  | 0, _ => none
  | fuel + 1, s =>
    match item s with
    | none => none
    | some (x, rest) =>
      match skip rest with
      | [] => none
      | c :: rest =>
        if c = ',' then (parseItems item close fuel (skip rest)).map fun p => (x :: p.1, p.2)
        else if c = close then some ([x], rest)
        else none

/-- What stands between two brackets, of which the first has been read. -/
def parseBracketed {α : Type*} (item : Text → Option (α × Text)) (close : Char) (s : Text) :
    Option (List α × Text) :=
  match skip s with
  | [] => none
  | c :: rest =>
    if c = close then some ([], rest) else parseItems item close (c :: rest).length (c :: rest)

def parseMember (value : Text → Option (Json × Text)) : Text → Option ((String × Json) × Text)
  | '"' :: rest =>
    match parseString rest with
    | none => none
    | some (k, rest) =>
      match skip rest with
      | ':' :: rest => (value (skip rest)).map fun p => ((String.ofList k, p.1), p.2)
      | _ => none
  | _ => none

/-- Of two items with one key the later one counts, in the place of the first. -/
def ofItems (items : List (String × Json)) : List (String × Json) :=
  items.foldl (fun d x => upsert Prod.fst x d) []

/-- A value, nested at most `fuel` deep, and the rest of the text. -/
@[grind =]
def parseValue : Nat → Text → Option (Json × Text)
  | 0, _ => none
  | fuel + 1, s =>
    match s with
    | '"' :: rest => (parseString rest).map fun p => (.str (String.ofList p.1), p.2)
    | '[' :: rest => (parseBracketed (parseValue fuel) ']' rest).map fun p => (.arr p.1, p.2)
    | '\x7b' :: rest => (parseBracketed (parseMember (parseValue fuel)) '\x7d' rest).map fun p =>
        (.obj (ofItems p.1), p.2)
    | 'n' :: 'u' :: 'l' :: 'l' :: rest => some (.null, rest)
    | 't' :: 'r' :: 'u' :: 'e' :: rest => some (.bool true, rest)
    | 'f' :: 'a' :: 'l' :: 's' :: 'e' :: rest => some (.bool false, rest)
    | 'N' :: 'a' :: 'N' :: rest => some (.nonFinite .nan, rest)
    | 'I' :: 'n' :: 'f' :: 'i' :: 'n' :: 'i' :: 't' :: 'y' :: rest => some (.nonFinite .infinity, rest)
    | '-' :: 'I' :: 'n' :: 'f' :: 'i' :: 'n' :: 'i' :: 't' :: 'y' :: rest =>
      some (.nonFinite .negInfinity, rest)
    | s => parseNumber s

/-- `json.loads`, where it does not raise. -/
def Json.loads (s : Text) : Option Json :=
  match parseValue (s.length + 1) (skip s) with
  | none => none
  | some (j, rest) => if skip rest = [] then some j else none

end Reading

end DeerFlow
