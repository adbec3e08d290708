import DbfAnonymizer.Lib.CodePoint
import DbfAnonymizer.Lib.Outcome

/-! JSON values, their compact ASCII text, and a parser that hands every object to a hook. -/
namespace DbfAnonymizer.Lib

/-- A number with a fraction or an exponent is kept as its literal. -/
inductive Json (χ : Type := Char)
  | null
  | bool (value : Bool)
  | int (value : ℤ)
  | float (literal : List Char)
  | str (value : List χ)
  | arr (items : List (Json χ))
  | obj (pairs : List (List Char × Json χ))
  deriving Repr, Inhabited

namespace Json

def hexDigit (n : ℕ) : Char := Nat.digitChar (n % 16)

def hex4 (n : ℕ) : List Char := [hexDigit (n / 4096), hexDigit (n / 256), hexDigit (n / 16), hexDigit n]

/-- The escape of one code point outside of the printable ASCII range, or of a character JSON reserves. -/
def escapeChar (c : Char) : List Char :=
  if c = '"' then ['\\', '"']
  else if c = '\\' then ['\\', '\\']
  else if c = '\n' then ['\\', 'n']
  else if c = '\r' then ['\\', 'r']
  else if c = '\t' then ['\\', 't']
  else if c = '\x0c' then ['\\', 'f']
  else if c = '\x08' then ['\\', 'b']
  else if 32 ≤ c.toNat ∧ c.toNat ≤ 126 then [c]
  else if c.toNat < 65536 then '\\' :: 'u' :: hex4 c.toNat
  else
    let n := c.toNat - 65536
    '\\' :: 'u' :: hex4 (55296 + n / 1024) ++ '\\' :: 'u' :: hex4 (56320 + n % 1024)

section Writing
variable {χ : Type} [TextChar χ]

def plain (value : List Char) : Json χ := .str (TextChar.ofPlain value)

@[simp] theorem plain_char : (plain : List Char → Json) = .str := rfl

theorem plain_injective : Function.Injective (plain : List Char → Json χ) := by
  intro s s' h
  exact TextChar.ofPlain_injective (Json.str.inj h)

@[simp] theorem plain_inj {s s' : List Char} : (plain s : Json χ) = plain s' ↔ s = s' := plain_injective.eq_iff

@[simp] theorem map_plain_inj {s s' : Option (List Char)} :
    s.map (plain : List Char → Json χ) = s'.map plain ↔ s = s' := (Option.map_injective plain_injective).eq_iff

/-- A surrogate is escaped as if it were a character. -/
def escape (c : χ) : List Char :=
  match TextChar.scalar? c with
  | some d => escapeChar d
  | none => '\\' :: 'u' :: hex4 (TextChar.codePoint c)

@[simp] theorem escape_char : (escape : Char → List Char) = escapeChar := rfl

def quote (s : List χ) : List Char := '"' :: s.flatMap escape ++ ['"']

def intText (value : ℤ) : List Char :=
  if value < 0 then '-' :: Nat.toDigits 10 value.natAbs else Nat.toDigits 10 value.natAbs

mutual
/-- The compact text: no blanks, ASCII only, the pairs of an object in the order they have. -/
def dumps : Json χ → List Char
  | .null => ['n', 'u', 'l', 'l']
  | .bool true => ['t', 'r', 'u', 'e']
  | .bool false => ['f', 'a', 'l', 's', 'e']
  | .int value => intText value
  | .float literal => literal
  | .str value => quote value
  | .arr [] => ['[', ']']
  | .arr (v :: vs) => '[' :: dumps v ++ dumpsItems vs
  | .obj [] => ['{', '}']
  | .obj ((key, v) :: pairs) => '{' :: quote key ++ ':' :: dumps v ++ dumpsPairs pairs

def dumpsItems : List (Json χ) → List Char
  | [] => [']']
  | v :: vs => ',' :: dumps v ++ dumpsItems vs

def dumpsPairs : List (List Char × Json χ) → List Char
  | [] => ['}']
  | (key, v) :: pairs => ',' :: quote key ++ ':' :: dumps v ++ dumpsPairs pairs
end

end Writing

def isBlank (c : Char) : Bool := c == ' ' || c == '\t' || c == '\n' || c == '\r'

def skipBlanks (input : List Char) : List Char := input.dropWhile isBlank

/-- What follows the word at the head of the input. -/
def after : List Char → List Char → Option (List Char)
  | [], input => some input
  | c :: word, d :: input => if c = d then after word input else none
  | _ :: _, [] => none

def hexValue (c : Char) : Option ℕ :=
  if c.isDigit then some (c.toNat - 48)
  else if 'a' ≤ c ∧ c ≤ 'f' then some (c.toNat - 87)
  else if 'A' ≤ c ∧ c ≤ 'F' then some (c.toNat - 55)
  else none

def hexValue4 : List Char → Option (ℕ × List Char)
  | a :: b :: c :: d :: rest => do
    let n := (← hexValue a) * 4096 + (← hexValue b) * 256 + (← hexValue c) * 16 + (← hexValue d)
    some (n, rest)
  | _ => none

/-- A code point from four hexadecimal digits, or from a surrogate pair. A lone surrogate is no character. -/
def unescapeUnicode (input : List Char) : Option (Char × List Char) := do
  let (high, rest) ← hexValue4 input
  if 55296 ≤ high ∧ high < 56320 then
    let (low, rest) ← hexValue4 (← after ['\\', 'u'] rest)
    if 56320 ≤ low ∧ low < 57344 then
      some (Char.ofNat (65536 + (high - 55296) * 1024 + (low - 56320)), rest)
    else none
  else if 56320 ≤ high ∧ high < 57344 then none
  else some (Char.ofNat high, rest)

def unescape : List Char → Option (Char × List Char)
  | [] => none
  | c :: rest =>
    if c = 'u' then unescapeUnicode rest
    else if c = '"' ∨ c = '\\' ∨ c = '/' then some (c, rest)
    else if c = 'n' then some ('\n', rest)
    else if c = 'r' then some ('\r', rest)
    else if c = 't' then some ('\t', rest)
    else if c = 'f' then some ('\x0c', rest)
    else if c = 'b' then some ('\x08', rest)
    else none

/-- The rest of a string, after its opening quote. -/
def parseString : ℕ → List Char → Option (List Char × List Char)
  | 0, _ => none
  | _ + 1, [] => none
  | n + 1, c :: rest =>
    if c = '"' then some ([], rest)
    else if c = '\\' then do
      let (d, rest) ← unescape rest
      let (s, rest) ← parseString n rest
      some (d :: s, rest)
    else if c.toNat < 32 then none
    else do
      let (s, rest) ← parseString n rest
      some (c :: s, rest)

/-- A digit run of at least one digit after `prefixed`, if it is there. -/
def optionalDigits (prefixed input : List Char) : List Char × List Char :=
  if (input.takeWhile Char.isDigit).isEmpty then ([], prefixed ++ input)
  else (prefixed ++ input.takeWhile Char.isDigit, input.dropWhile Char.isDigit)

def parseFraction : List Char → List Char × List Char
  | '.' :: rest => optionalDigits ['.'] rest
  | input => ([], input)

def parseExponent : List Char → List Char × List Char
  | [] => ([], [])
  | e :: rest =>
    if e = 'e' ∨ e = 'E' then
      match rest with
      | [] => ([], [e])
      | sign :: digits =>
        if sign = '+' ∨ sign = '-' then optionalDigits [e, sign] digits else optionalDigits [e] rest
    else ([], e :: rest)

/-- The digits of an integer part: a zero stands alone. -/
def parseMagnitude : List Char → Option (List Char × List Char)
  | [] => none
  | c :: rest =>
    if c = '0' then some (['0'], rest)
    else if c.isDigit then some (c :: rest.takeWhile Char.isDigit, rest.dropWhile Char.isDigit)
    else none

def parseNumber (input : List Char) : Option (Json × List Char) := do
  let negative := input.head? = some '-'
  let (digits, rest) ← parseMagnitude (if negative then input.tail else input)
  let (fraction, rest) := parseFraction rest
  let (exponent, rest) := parseExponent rest
  let magnitude : ℤ := Nat.ofDigitChars 10 digits 0
  if fraction = [] ∧ exponent = [] then
    some (.int (if negative then -magnitude else magnitude), rest)
  else some (.float ((if negative then ['-'] else []) ++ digits ++ fraction ++ exponent), rest)

def literals : List (List Char × Json) :=
  [(['n', 'u', 'l', 'l'], .null), (['t', 'r', 'u', 'e'], .bool true), (['f', 'a', 'l', 's', 'e'], .bool false),
    (['N', 'a', 'N'], .float ['N', 'a', 'N']), ("Infinity".toList, .float "Infinity".toList),
    ("-Infinity".toList, .float "-Infinity".toList)]

def parseAtom (input : List Char) : Option (Json × List Char) :=
  match literals.findSome? fun p => (after p.1 input).map fun rest => (p.2, rest) with
  | some result => some result
  | none => parseNumber input

section Parser
variable {ε : Type} (syntaxError : ε) (hook : List (List Char × Json) → Except ε Json)

def orSyntax {α : Type} (result : Option α) : Except ε α :=
  match result with
  | some a => .ok a
  | none => .error syntaxError

def parseKey (input : List Char) : Except ε (List Char × List Char) :=
  match input with
  | '"' :: rest => do
    let (key, rest) ← orSyntax syntaxError (parseString (rest.length + 1) rest)
    let rest ← orSyntax syntaxError (after [':'] (skipBlanks rest))
    .ok (key, skipBlanks rest)
  | _ => .error syntaxError

mutual
/-- One value; `hook` makes the value of an object from its pairs. -/
def parseValue : ℕ → List Char → Except ε (Json × List Char)
  | 0, _ => .error syntaxError
  | n + 1, input =>
    match input with
    | '"' :: rest => do
      let (s, rest) ← orSyntax syntaxError (parseString (rest.length + 1) rest)
      .ok (.str s, rest)
    | '[' :: rest =>
      match skipBlanks rest with
      | ']' :: rest => .ok (.arr [], rest)
      | rest => do
        let (v, rest) ← parseValue n rest
        let (vs, rest) ← parseItems n (skipBlanks rest)
        .ok (.arr (v :: vs), rest)
    | '{' :: rest =>
      match skipBlanks rest with
      | '}' :: rest => do
        let value ← hook []
        .ok (value, rest)
      | rest => do
        let (key, rest) ← parseKey syntaxError rest
        let (v, rest) ← parseValue n rest
        let (pairs, rest) ← parsePairs n (skipBlanks rest)
        let value ← hook ((key, v) :: pairs)
        .ok (value, rest)
    | input => orSyntax syntaxError (parseAtom input)

def parseItems : ℕ → List Char → Except ε (List Json × List Char)
  | 0, _ => .error syntaxError
  | n + 1, input =>
    match input with
    | ']' :: rest => .ok ([], rest)
    | ',' :: rest => do
      let (v, rest) ← parseValue n (skipBlanks rest)
      let (vs, rest) ← parseItems n (skipBlanks rest)
      .ok (v :: vs, rest)
    | _ => .error syntaxError

def parsePairs : ℕ → List Char → Except ε (List (List Char × Json) × List Char)
  | 0, _ => .error syntaxError
  | n + 1, input =>
    match input with
    | '}' :: rest => .ok ([], rest)
    | ',' :: rest => do
      let (key, rest) ← parseKey syntaxError (skipBlanks rest)
      let (v, rest) ← parseValue n rest
      let (pairs, rest) ← parsePairs n (skipBlanks rest)
      .ok ((key, v) :: pairs, rest)
    | _ => .error syntaxError
end

/-- A whole text: blanks around one value. -/
def loads (input : List Char) : Except ε Json := do
  let (value, rest) ← parseValue syntaxError hook (2 * input.length + 2) (skipBlanks input)
  refuseIf (skipBlanks rest ≠ []) syntaxError
  .ok value

end Parser
end Json
end DbfAnonymizer.Lib
