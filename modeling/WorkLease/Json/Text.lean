import WorkLease.Bytes.Hex
import WorkLease.Json

/-!
# The text of JSON values

`Json.parse` reads one value with blanks around it. An integer literal of at most 64 bits is
an integer; a literal with a fraction or an exponent, a longer one and `-0` are real. Of
fields of one name in an object the last counts. `Json.render` writes a value without blanks.
-/

namespace WorkLease.Json

/-! ## Reading -/

/-- The rest of a text after the blanks at its start. -/
def skipBlank (chars : List Char) : List Char :=
  chars.dropWhile fun c => c = ' ' || c = '\t' || c = '\n' || c = '\r'

/-- The character of a pair of surrogates. -/
def ofSurrogates? (high low : Nat) : Option Char :=
  if 0xdc00 ≤ low ∧ low < 0xe000 then
    some (Char.ofNat (0x10000 + (high - 0xd800) * 0x400 + (low - 0xdc00)))
  else none

def shortEscape? (c : Char) : Option Char :=
  match c with
  | 'n' => some '\n'
  | 't' => some '\t'
  | 'r' => some '\r'
  | 'b' => some (Char.ofNat 8)
  | 'f' => some (Char.ofNat 12)
  | '"' | '\\' | '/' => some c
  | _ => none

/-- The characters up to the closing quote, behind those in `read` in reverse, and the rest. -/
def stringRest (read : List Char) : List Char → Option (List Char × List Char)
  | '"' :: rest => some (read.reverse, rest)
  | '\\' :: 'u' :: a :: b :: c :: d :: '\\' :: 'u' :: e :: f :: g :: h :: rest => do
      let unit ← Hex.toNat? [a, b, c, d]
      if 0xd800 ≤ unit ∧ unit < 0xdc00 then
        let pair ← ofSurrogates? unit (← Hex.toNat? [e, f, g, h])
        stringRest (pair :: read) rest
      else if 0xdc00 ≤ unit ∧ unit < 0xe000 then none
      else stringRest (Char.ofNat unit :: read) ('\\' :: 'u' :: e :: f :: g :: h :: rest)
  | '\\' :: 'u' :: a :: b :: c :: d :: rest => do
      let unit ← Hex.toNat? [a, b, c, d]
      if 0xd800 ≤ unit ∧ unit < 0xe000 then none
      else stringRest (Char.ofNat unit :: read) rest
  | '\\' :: c :: rest => do
      let plain ← shortEscape? c
      stringRest (plain :: read) rest
  | c :: rest => if c.toNat < 0x20 then none else stringRest (c :: read) rest
  | [] => none

def isNumberPart (c : Char) : Bool :=
  c.isDigit || c = '-' || c = '+' || c = '.' || c = 'e' || c = 'E'

/-- The rest after one digit or more. -/
def afterDigits? : List Char → Option (List Char)
  | c :: rest => if c.isDigit then some (rest.dropWhile Char.isDigit) else none
  | [] => none

/-- The rest after an integer, which may be negative and starts with zero only if it is zero. -/
def afterInteger? (chars : List Char) : Option (List Char) :=
  match if chars.head? = some '-' then chars.tail else chars with
  | '0' :: rest => some rest
  | digits => afterDigits? digits

/-- The rest after a fraction, if there is one. -/
def afterFraction? : List Char → Option (List Char)
  | '.' :: rest => afterDigits? rest
  | rest => some rest

/-- The rest after an exponent, if there is one. -/
def afterExponent? : List Char → Option (List Char)
  | [] => some []
  | c :: rest =>
      if c = 'e' ∨ c = 'E' then
        afterDigits? (if rest.head? = some '+' ∨ rest.head? = some '-' then rest.tail else rest)
      else some (c :: rest)

def ofLiteral? (literal : List Char) : Option Json := do
  let afterWhole ← afterInteger? literal
  let afterAll ← afterExponent? (← afterFraction? afterWhole)
  let written := String.ofList literal
  if ¬ afterAll.isEmpty then none
  else if ¬ afterWhole.isEmpty ∨ literal = ['-', '0'] then return .real written
  else
    let n ← written.toInt?
    if n < -0x8000000000000000 ∨ (UInt64.size : Int) ≤ n then return .real written
    else return .int n

/-- The fields of an object with one more after them, or in place of the one of its name. -/
def setField (name : String) (value : Json) : List (String × Json) → List (String × Json)
  | [] => [(name, value)]
  | field :: rest =>
      if field.1 = name then (name, value) :: rest else field :: setField name value rest

/-- The rest of a text that starts with a word. -/
def afterWord? (word : String) (chars : List Char) : Option (List Char) :=
  if word.toList.isPrefixOf chars then some (chars.drop word.length) else none

mutual

/-- Reads a value; `fuel` bounds the number of nested and following values. -/
def readValue (fuel : Nat) (chars : List Char) : Option (Json × List Char) :=
  match fuel with
  | 0 => none
  | fuel + 1 =>
      match skipBlank chars with
      | [] => none
      | '"' :: rest => (stringRest [] rest).map fun (s, rest) => (.text (String.ofList s), rest)
      | '[' :: rest =>
          match skipBlank rest with
          | ']' :: rest => some (.array [], rest)
          | rest => (readItems fuel rest).map fun (items, rest) => (.array items, rest)
      | 't' :: rest => (afterWord? "rue" rest).map fun rest => (.bool true, rest)
      | 'f' :: rest => (afterWord? "alse" rest).map fun rest => (.bool false, rest)
      | 'n' :: rest => (afterWord? "ull" rest).map fun rest => (.null, rest)
      | c :: rest =>
          if c = '\x7b' then
            match skipBlank rest with
            | [] => none
            | d :: more =>
                if d = '\x7d' then some (.object [], more)
                else
                  (readFields fuel [] (d :: more)).map fun (fields, rest) => (.object fields, rest)
          else
            (ofLiteral? ((c :: rest).takeWhile isNumberPart)).map fun n =>
              (n, (c :: rest).dropWhile isNumberPart)

/-- Reads the values of an array up to its end. -/
def readItems (fuel : Nat) (chars : List Char) : Option (List Json × List Char) :=
  match fuel with
  | 0 => none
  | fuel + 1 => do
      let (item, rest) ← readValue fuel chars
      match skipBlank rest with
      | ',' :: rest =>
          let (items, rest) ← readItems fuel rest
          return (item :: items, rest)
      | ']' :: rest => return ([item], rest)
      | _ => none

/-- Reads the fields of an object up to its end, after those in `read`. -/
def readFields (fuel : Nat) (read : List (String × Json)) (chars : List Char) :
    Option (List (String × Json) × List Char) :=
  match fuel with
  | 0 => none
  | fuel + 1 =>
      match skipBlank chars with
      | '"' :: rest => do
          let (name, rest) ← stringRest [] rest
          match skipBlank rest with
          | ':' :: rest =>
              let (value, rest) ← readValue fuel rest
              let read := setField (String.ofList name) value read
              match skipBlank rest with
              | ',' :: rest => readFields fuel read rest
              | c :: rest => if c = '\x7d' then return (read, rest) else none
              | [] => none
          | _ => none
      | _ => none

end

def parse (text : String) : Option Json := do
  let chars := text.toList
  let (value, rest) ← readValue (2 * chars.length + 1) chars
  if (skipBlank rest).isEmpty then return value else none

/-! ## Writing -/

/-- A character of a text, escaped where it has to be. -/
def escapeChar (c : Char) : List Char :=
  if c = '"' then ['\\', '"']
  else if c = '\\' then ['\\', '\\']
  else if c.toNat < 0x20 then '\\' :: 'u' :: Hex.digitsOfNat 4 c.toNat
  else [c]

def quote (text : String) : String :=
  "\"" ++ String.ofList (text.toList.flatMap escapeChar) ++ "\""

mutual

def render : Json → String
  | null => "null"
  | bool b => if b then "true" else "false"
  | int n => toString n
  | real literal => literal
  | text s => quote s
  | array items => "[" ++ ",".intercalate (renderItems items) ++ "]"
  | object fields => "\x7b" ++ ",".intercalate (renderFields fields) ++ "\x7d"

def renderItems : List Json → List String
  | [] => []
  | item :: items => render item :: renderItems items

def renderFields : List (String × Json) → List String
  | [] => []
  | (name, value) :: fields => (quote name ++ ":" ++ render value) :: renderFields fields

end

end WorkLease.Json
