import WideColumn.Text.Hex

/-!
# JSON tokens

Cuts a JSON text into tokens, one character at a time. Strings are kept as code points, for an
escape may name half of a surrogate pair, which is no character by itself. A string in which a
control character stands without an escape is a token of its own kind, for only bytes may be written
so. Of numbers only whole ones without fraction and exponent keep their value.
-/

namespace WideColumn.Json

/-- A piece of a JSON text. -/
inductive Token where
  | openArray
  | closeArray
  | openObject
  | closeObject
  | comma
  | colon
  | null
  | bool (b : Bool)
  /-- A number; `none` for one with a sign in front of zero, a fraction or an exponent. -/
  | number (n : Option Int)
  | string (points : List Nat)
  /-- A string with a control character that is not escaped. -/
  | rawString (points : List Nat)
  deriving DecidableEq, Repr

/-! ## Numbers -/

/-- Whether a character can stand in a number. -/
def isNumberChar (c : Char) : Bool :=
  c.isDigit || c == '-' || c == '+' || c == '.' || c == 'e' || c == 'E'

/-- The number that digits spell. -/
def digitsValue (digits : List Char) : Nat :=
  digits.foldl (fun n c => n * 10 + (c.toNat - '0'.toNat)) 0

def isDigits (cs : List Char) : Bool := !cs.isEmpty && cs.all Char.isDigit

/-- Whether a text is an exponent: nothing, or a mark, an optional sign and digits. -/
def isExponent : List Char → Bool
  | [] => true
  | mark :: rest =>
    (mark == 'e' || mark == 'E') &&
      match rest with
      | '+' :: digits | '-' :: digits => isDigits digits
      | digits => isDigits digits

/-- Whether a text is a fraction, which may be missing, and an exponent. -/
def isTail : List Char → Bool
  | '.' :: rest =>
    isDigits (rest.takeWhile Char.isDigit) && isExponent (rest.dropWhile Char.isDigit)
  | rest => isExponent rest

/-- Reads a number without its sign. A zero in front stands alone. -/
def unsigned? (cs : List Char) : Option (Option Nat) :=
  let digits := cs.takeWhile Char.isDigit
  let tail := cs.dropWhile Char.isDigit
  if digits.isEmpty || (digits.head? == some '0' && digits.length != 1) || !isTail tail then none
  else some (if tail.isEmpty then some (digitsValue digits) else none)

/-- Reads a number. -/
def number? : List Char → Option Token
  | '-' :: cs => (unsigned? cs).map fun n =>
      .number (match n with
        | some 0 => none
        | some n => some (-(n : Int))
        | none => none)
  | cs => (unsigned? cs).map fun n => .number (n.map fun n => (n : Int))

/-! ## Strings -/

/-- A unit of a string: a character as it stands, or the bits of an escape, at most sixteen. -/
inductive StringUnit where
  | plain (c : Char)
  | escaped (bits : Nat)
  deriving DecidableEq, Repr

/-- The code points of units. Two escapes in a row that are the halves of a pair make one. -/
def pointsOf : List StringUnit → List Nat
  | [] => []
  | .plain c :: rest => c.toNat :: pointsOf rest
  | .escaped high :: .escaped low :: rest =>
    if 0xD800 ≤ high ∧ high ≤ 0xDBFF ∧ 0xDC00 ≤ low ∧ low ≤ 0xDFFF then
      (0x10000 + (high - 0xD800) * 0x400 + (low - 0xDC00)) :: pointsOf rest
    else high :: pointsOf (.escaped low :: rest)
  | .escaped n :: rest => n :: pointsOf rest

/-- Whether a unit is a control character that is not escaped. -/
def StringUnit.isControl : StringUnit → Bool
  | .plain c => c.toNat < 0x20
  | .escaped _ => false

/-- The token of a string with these units. -/
def stringToken (units : List StringUnit) : Token :=
  if units.any StringUnit.isControl then .rawString (pointsOf units) else .string (pointsOf units)

/-- The character that a one-letter escape stands for. -/
def shortEscape? : Char → Option Char
  | '"' => some '"'
  | '\\' => some '\\'
  | '/' => some '/'
  | 'b' => some '\x08'
  | 'f' => some '\x0c'
  | 'n' => some '\n'
  | 'r' => some '\r'
  | 't' => some '\t'
  | _ => none

/-! ## Scanning -/

/-- Where a scan stands between two characters. Parts that are not complete are kept backwards. -/
inductive ScanState where
  /-- Between tokens. -/
  | between
  /-- Inside a word of letters. -/
  | word (letters : List Char)
  /-- Inside a number. -/
  | number (chars : List Char)
  /-- Inside a string. -/
  | string (units : List StringUnit)
  /-- After a backslash. -/
  | escape (units : List StringUnit)
  /-- Inside the four digits of an escape, with the number of digits still to come. -/
  | hex (units : List StringUnit) (bits missing : Nat)
  deriving DecidableEq, Repr

/-- The token of a single mark. -/
def mark? : Char → Option Token
  | '[' => some .openArray
  | ']' => some .closeArray
  | '\x7b' => some .openObject
  | '\x7d' => some .closeObject
  | ',' => some .comma
  | ':' => some .colon
  | _ => none

/-- The token of a word. -/
def word? (letters : List Char) : Option Token :=
  if letters = "null".toList then some .null
  else if letters = "true".toList then some (.bool true)
  else if letters = "false".toList then some (.bool false)
  else none

def isSpace (c : Char) : Bool := c == ' ' || c == '\n' || c == '\t' || c == '\r'

/-- A character between tokens: the tokens it completes, and where the scan goes on. -/
def start? (c : Char) : Option (List Token × ScanState) :=
  if isSpace c then some ([], .between)
  else if c == '"' then some ([], .string [])
  else if c == '-' || c.isDigit then some ([], .number [c])
  else if c.isAlpha then some ([], .word [c])
  else (mark? c).map fun token => ([token], .between)

/-- One character of a scan. -/
def scanChar? (state : ScanState) (c : Char) : Option (List Token × ScanState) :=
  match state with
  | .between => start? c
  | .word letters =>
    if c.isAlpha then some ([], .word (c :: letters))
    else do
      let token ← word? letters.reverse
      let (tokens, state) ← start? c
      return (token :: tokens, state)
  | .number chars =>
    if isNumberChar c then some ([], .number (c :: chars))
    else do
      let token ← number? chars.reverse
      let (tokens, state) ← start? c
      return (token :: tokens, state)
  | .string units =>
    if c == '"' then some ([stringToken units.reverse], .between)
    else if c == '\\' then some ([], .escape units)
    else some ([], .string (.plain c :: units))
  | .escape units =>
    if c == 'u' then some ([], .hex units 0 4)
    else (shortEscape? c).map fun c => ([], .string (.escaped c.toNat :: units))
  | .hex units bits missing =>
    (Hex.digitValue? c).map fun digit =>
      let bits := bits * 16 + digit
      ([], if missing ≤ 1 then .string (.escaped bits :: units) else .hex units bits (missing - 1))

/-- The tokens left when a text ends. -/
def finish? : ScanState → Option (List Token)
  | .between => some []
  | .word letters => (word? letters.reverse).map ([·])
  | .number chars => (number? chars.reverse).map ([·])
  | .string _ | .escape _ | .hex _ _ _ => none

/-- Scans the rest of a text. -/
def scanFrom? (state : ScanState) : List Char → Option (List Token)
  | [] => finish? state
  | c :: cs => do
    let (tokens, state) ← scanChar? state c
    let rest ← scanFrom? state cs
    return tokens ++ rest

def tokens? (text : String) : Option (List Token) := scanFrom? .between text.toList

end WideColumn.Json
