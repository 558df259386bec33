/-!
# JSON documents

A document is read in two steps. Reading the text checks its grammar only: the numbers that are not
written as natural numbers are told apart from those that are, and a string whose escapes are no
text is kept as such, since a document may hold both in places that nobody looks at. What a place
has to hold is up to the reader of the document.
-/

namespace LiveTables

/-- A JSON document. -/
inductive Json where
  | null
  | bool (b : Bool)
  /-- A number written with digits alone. -/
  | natural (n : Nat)
  /-- Any other number. -/
  | number
  /-- A string; there is no text if its escapes form half of a surrogate pair. -/
  | string (text? : Option String)
  | array (items : List Json)
  | object (members : List (Option String × Json))

namespace Json

/-! ## Reading -/

/-- Blanks between the parts of a document. -/
def isBlank (c : Char) : Bool := c = ' ' || c = '\n' || c = '\t' || c = '\r'

/-- Leaves out blanks. -/
def skipBlanks (cs : List Char) : List Char := cs.dropWhile isBlank

/-- The value of a hexadecimal digit. -/
def hexValue? (c : Char) : Option Nat :=
  if c.isDigit then some (c.toNat - 48)
  else if 'a' ≤ c ∧ c ≤ 'f' then some (c.toNat - 87)
  else if 'A' ≤ c ∧ c ≤ 'F' then some (c.toNat - 55)
  else none

/-- The character that a letter stands for after a backslash. -/
def escaped? : Char → Option Char
  | '"' => some '"'
  | '\\' => some '\\'
  | '/' => some '/'
  | 'b' => some '\x08'
  | 'f' => some '\x0c'
  | 'n' => some '\n'
  | 'r' => some '\r'
  | 't' => some '\t'
  | _ => none

/-- Reads the units of a string after its opening quote: 16-bit units from numeric escapes, and
characters from all else. -/
def readUnits : List Char → Option (List (Nat ⊕ Char) × List Char)
  | '"' :: rest => some ([], rest)
  | '\\' :: 'u' :: a :: b :: c :: d :: rest => do
    let high := 16 * (← hexValue? a) + (← hexValue? b)
    let unit := 256 * high + 16 * (← hexValue? c) + (← hexValue? d)
    let (units, rest) ← readUnits rest
    return (.inl unit :: units, rest)
  | '\\' :: e :: rest => do
    let c ← escaped? e
    let (units, rest) ← readUnits rest
    return (.inr c :: units, rest)
  | c :: rest => do
    if c = '\\' ∨ c.toNat < 32 then none
    let (units, rest) ← readUnits rest
    return (.inr c :: units, rest)
  | [] => none

/-- The text of a list of units; a high surrogate has to be followed by a low one. -/
def textOfUnits? : List (Nat ⊕ Char) → Option (List Char)
  | [] => some []
  | .inr c :: rest => (textOfUnits? rest).map (c :: ·)
  | .inl hi :: .inl lo :: rest =>
    if 0xD800 ≤ hi ∧ hi < 0xDC00 then
      if 0xDC00 ≤ lo ∧ lo < 0xE000 then
        (textOfUnits? rest).map (Char.ofNat (0x10000 + (hi - 0xD800) * 0x400 + (lo - 0xDC00)) :: ·)
      else none
    else if 0xDC00 ≤ hi ∧ hi < 0xE000 then none
    else (textOfUnits? (.inl lo :: rest)).map (Char.ofNat hi :: ·)
  | .inl unit :: rest =>
    if 0xD800 ≤ unit ∧ unit < 0xE000 then none
    else (textOfUnits? rest).map (Char.ofNat unit :: ·)

/-- Reads a string after its opening quote. -/
def readString (cs : List Char) : Option (Option String × List Char) := do
  let (units, rest) ← readUnits cs
  return ((textOfUnits? units).map String.ofList, rest)

/-- Splits off the digits in front; there has to be one. -/
def readDigits (cs : List Char) : Option (List Char × List Char) :=
  match cs.takeWhile Char.isDigit with
  | [] => none
  | digits => some (digits, cs.dropWhile Char.isDigit)

/-- Leaves out the fraction and the exponent of a number; tells whether there was either. -/
def skipFraction (cs : List Char) : Option (Bool × List Char) := do
  let (fraction, cs) ← match cs with
    | '.' :: rest => do let (_, rest) ← readDigits rest; pure (true, rest)
    | cs => some (false, cs)
  match cs with
  | e :: rest =>
    if e = 'e' ∨ e = 'E' then
      let digits := match rest with
        | '+' :: r => r
        | '-' :: r => r
        | r => r
      let (_, rest) ← readDigits digits
      return (true, rest)
    else return (fraction, cs)
  | [] => return (fraction, cs)

/-- Reads a number. The whole part has no leading zeros. -/
def readNumber (cs : List Char) : Option (Json × List Char) := do
  let (negative, body) := match cs with
    | '-' :: rest => (true, rest)
    | cs => (false, cs)
  let (digits, rest) ← readDigits body
  if digits.head? = some '0' ∧ digits.length ≠ 1 then none
  let (fraction, rest) ← skipFraction rest
  let value := digits.foldl (fun n c => 10 * n + (c.toNat - 48)) 0
  return (if negative || fraction then .number else .natural value, rest)

mutual
/-- Reads a value, with at most `fuel` values inside each other and after each other. -/
def readValue : (fuel : Nat) → List Char → Option (Json × List Char)
  | 0, _ => none
  | fuel + 1, cs =>
    match skipBlanks cs with
    | 'n' :: 'u' :: 'l' :: 'l' :: rest => some (.null, rest)
    | 't' :: 'r' :: 'u' :: 'e' :: rest => some (.bool true, rest)
    | 'f' :: 'a' :: 'l' :: 's' :: 'e' :: rest => some (.bool false, rest)
    | '"' :: rest => do
      let (text?, rest) ← readString rest
      return (.string text?, rest)
    | '[' :: rest =>
      match skipBlanks rest with
      | ']' :: rest => some (.array [], rest)
      | rest => do
        let (items, rest) ← readItems fuel rest
        return (.array items, rest)
    | '\x7b' :: rest =>
      match skipBlanks rest with
      | '\x7d' :: rest => some (.object [], rest)
      | rest => do
        let (members, rest) ← readMembers fuel rest
        return (.object members, rest)
    | cs => readNumber cs

/-- Reads the items of an array up to its closing bracket. -/
def readItems : (fuel : Nat) → List Char → Option (List Json × List Char)
  | 0, _ => none
  | fuel + 1, cs => do
    let (item, rest) ← readValue fuel cs
    match skipBlanks rest with
    | ',' :: rest => do
      let (items, rest) ← readItems fuel rest
      return (item :: items, rest)
    | ']' :: rest => return ([item], rest)
    | _ => none

/-- Reads the members of an object up to its closing brace. -/
def readMembers : (fuel : Nat) → List Char → Option (List (Option String × Json) × List Char)
  | 0, _ => none
  | fuel + 1, cs => do
    match skipBlanks cs with
    | '"' :: rest => do
      let (key, rest) ← readString rest
      match skipBlanks rest with
      | ':' :: rest => do
        let (item, rest) ← readValue fuel rest
        match skipBlanks rest with
        | ',' :: rest => do
          let (members, rest) ← readMembers fuel rest
          return ((key, item) :: members, rest)
        | '\x7d' :: rest => return ([(key, item)], rest)
        | _ => none
      | _ => none
    | _ => none
end

/-- Reads a document; nothing but blanks may follow it. Every value, item and member takes a
character at least. -/
def parse? (s : String) : Option Json := do
  let cs := s.toList
  let (json, rest) ← readValue (2 * cs.length + 1) cs
  if (skipBlanks rest).isEmpty then some json else none

/-! ## Looking at a document -/

/-- The truth value of a document. -/
def bool? : Json → Option Bool
  | bool b => some b
  | _ => none

/-- The text of a document. -/
def text? : Json → Option String
  | string text? => text?
  | _ => none

/-- The number of a document, if it is below a bound. -/
def below? (bound : Nat) : Json → Option Nat
  | natural n => if n < bound then some n else none
  | _ => none

/-- The items of an array. -/
def items? : Json → Option (List Json)
  | array items => some items
  | _ => none

/-- The members of an object. All keys have to be text. -/
def members? : Json → Option (List (String × Json))
  | object members => members.mapM fun (key, item) => return (← key, item)
  | _ => none

/-- The values of the fields with the given names. They stand in an object, in any order, each at
most once, beside members of other names; or in an array, in the order of the names. -/
def fields? (names : List String) : Json → Option (List (Option Json))
  | array items =>
    if items.length ≤ names.length then
      some (items.map some ++ List.replicate (names.length - items.length) none)
    else none
  | json => do
    let members ← json.members?
    names.mapM fun name =>
      match members.filter (·.1 = name) with
      | [] => some none
      | [member] => some (some member.2)
      | _ => none

/-! ## Writing -/

/-- The two lowest hexadecimal digits of a number. -/
def hexPair (n : Nat) : List Char := [Nat.digitChar (n / 16 % 16), Nat.digitChar (n % 16)]

/-- A character as it stands in a string. -/
def writeChar (c : Char) : List Char :=
  match c with
  | '"' => ['\\', '"']
  | '\\' => ['\\', '\\']
  | '\x08' => ['\\', 'b']
  | '\x0c' => ['\\', 'f']
  | '\n' => ['\\', 'n']
  | '\r' => ['\\', 'r']
  | '\t' => ['\\', 't']
  | c => if c.toNat < 32 then ['\\', 'u', '0', '0'] ++ hexPair c.toNat else [c]

/-- A string with its quotes. -/
def writeString (s : String) : String :=
  String.ofList ('"' :: s.toList.flatMap writeChar ++ ['"'])

/-- An array of texts of items. -/
def writeArray (items : List String) : String := "[" ++ ",".intercalate items ++ "]"

/-- An object of keys and texts of items. -/
def writeObject (members : List (String × String)) : String :=
  "\x7b" ++ ",".intercalate (members.map fun (key, item) => writeString key ++ ":" ++ item) ++ "\x7d"

end Json

end LiveTables
