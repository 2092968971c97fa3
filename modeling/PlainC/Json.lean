import PlainC.Text

/-!
# JSON

A document as a tree that keeps the order of keys and keys that come twice. The tree keeps apart what
is well-formed and what can be used: a string with half of a surrogate pair stands for no text, and a
number that is not written as a natural number of 64 bits stands for no count. Whoever passes over
such a value need not care.
-/

namespace PlainC

inductive Json where
  | null
  | bool (value : Bool)
  /-- A number, with its value if it is a natural number of 64 bits, written without a point. -/
  | number (value : Option Nat)
  /-- A string, with its text if it has one. -/
  | string (text : Option Text)
  | array (items : List Json)
  | object (members : List (Option Text × Json))

namespace Json

def isSpace (c : Char) : Bool := c = ' ' || c = '\n' || c = '\t' || c = '\r'

def skipSpace (text : Text) : Text := text.dropWhile isSpace

/-! Strings -/

/-- What a string is made of: characters and the halves of surrogate pairs. -/
inductive Item where
  | char (c : Char)
  | half (code : Nat)

def hexDigit? (c : Char) : Option Nat :=
  if c.isDigit then some (c.toNat - 48)
  else if 'a' ≤ c && c ≤ 'f' then some (c.toNat - 87)
  else if 'A' ≤ c && c ≤ 'F' then some (c.toNat - 55)
  else none

/-- The number that hexadecimal digits stand for. -/
def code? (digits : Text) : Option Nat := do
  return (← digits.mapM hexDigit?).foldl (fun code digit => code * 16 + digit) 0

/-- What a code of 16 bits stands for. -/
def Item.ofCode (code : Nat) : Item :=
  if code.isValidChar then .char (Char.ofNat code) else .half code

/-- What a letter behind a backslash stands for. -/
def escaped? : Char → Option Char
  | '\x22' => some '\x22'
  | '\\' => some '\\'
  | '/' => some '/'
  | 'b' => some '\x08'
  | 'f' => some '\x0c'
  | 'n' => some '\n'
  | 'r' => some '\r'
  | 't' => some '\t'
  | _ => none

/-- The items of a string behind its opening quote. Control characters are not written as they are. -/
def items? : Text → Option (List Item × Text)
  | [] => none
  | c :: rest =>
    if c = '\x22' then some ([], rest)
    else if c = '\\' then
      match rest with
      | [] => none
      | 'u' :: a :: b :: c :: d :: rest => do
        let code ← code? [a, b, c, d]
        let (items, rest) ← items? rest
        return (.ofCode code :: items, rest)
      | letter :: rest => do
        let c ← escaped? letter
        let (items, rest) ← items? rest
        return (.char c :: items, rest)
    else if c.toNat < 0x20 then none
    else do
      let (items, rest) ← items? rest
      return (.char c :: items, rest)

def isHigh (code : Nat) : Bool := 0xD800 ≤ code && code < 0xDC00

def isLow (code : Nat) : Bool := 0xDC00 ≤ code && code < 0xE000

/-- The text of a string: a high half followed by a low one is one character, and any other half
spoils the text. -/
def text? : List Item → Option Text
  | [] => some []
  | .char c :: rest => (text? rest).map (c :: ·)
  | .half high :: .half low :: rest =>
    if isHigh high && isLow low then
      (text? rest).map (Char.ofNat (0x10000 + (high - 0xD800) * 0x400 + (low - 0xDC00)) :: ·)
    else none
  | .half _ :: _ => none

/-- A string behind its opening quote. -/
def string? (text : Text) : Option (Option Text × Text) :=
  (items? text).map fun (items, rest) => (text? items, rest)

/-! Numbers -/

def digits? (text : Text) : Option (Text × Text) :=
  let run := text.takeWhile Char.isDigit
  if run.isEmpty then none else some (run, text.drop run.length)

/-- The digits before the point; a zero stands alone. -/
def whole? : Text → Option (Text × Text)
  | '0' :: rest => if rest.head?.any Char.isDigit then none else some (['0'], rest)
  | text => digits? text

/-- What follows a fraction, if there is one. -/
def afterFraction? : Text → Option Text
  | '.' :: rest => (digits? rest).map Prod.snd
  | text => some text

/-- What follows an exponent, if there is one. -/
def afterExponent? : Text → Option Text
  | [] => some []
  | c :: rest =>
    if c = 'e' || c = 'E' then
      let rest :=
        match rest with
        | '+' :: more => more
        | '-' :: more => more
        | _ => rest
      (digits? rest).map Prod.snd
    else some (c :: rest)

/-- One above the greatest natural number of 64 bits. -/
def countBound : Nat := 0x10000000000000000

def number? (text : Text) : Option (Option Nat × Text) := do
  let (negative, text) :=
    match text with
    | '-' :: rest => (true, rest)
    | _ => (false, text)
  let (digits, rest) ← whole? text
  let after ← afterFraction? rest >>= afterExponent?
  let value := digits.foldl (fun value c => value * 10 + (c.toNat - 48)) 0
  let isWhole := rest.head?.all fun c => c ≠ '.' && c ≠ 'e' && c ≠ 'E'
  let isNatural := !negative && isWhole && value < countBound
  return (if isNatural then some value else none, after)

/-! Values -/

mutual

def value? : (fuel : Nat) → Text → Option (Json × Text)
  | 0, _ => none
  | fuel + 1, text =>
    match text with
    | 'n' :: 'u' :: 'l' :: 'l' :: rest => some (.null, rest)
    | 't' :: 'r' :: 'u' :: 'e' :: rest => some (.bool true, rest)
    | 'f' :: 'a' :: 'l' :: 's' :: 'e' :: rest => some (.bool false, rest)
    | '\x22' :: rest => (string? rest).map fun (content, rest) => (.string content, rest)
    | '[' :: rest =>
      match skipSpace rest with
      | ']' :: rest => some (.array [], rest)
      | rest => (elements? fuel rest).map fun (items, rest) => (.array items, rest)
    | '\x7b' :: rest =>
      match skipSpace rest with
      | '\x7d' :: rest => some (.object [], rest)
      | rest => (members? fuel rest).map fun (members, rest) => (.object members, rest)
    | _ => (number? text).map fun (value, rest) => (.number value, rest)

/-- The items of an array, one at least, and its end. -/
def elements? : (fuel : Nat) → Text → Option (List Json × Text)
  | 0, _ => none
  | fuel + 1, text => do
    let (item, rest) ← value? fuel text
    match skipSpace rest with
    | ',' :: rest =>
      let (items, rest) ← elements? fuel (skipSpace rest)
      return (item :: items, rest)
    | ']' :: rest => return ([item], rest)
    | _ => none

/-- The members of an object, one at least, and its end. -/
def members? : (fuel : Nat) → Text → Option (List (Option Text × Json) × Text)
  | 0, _ => none
  | fuel + 1, text =>
    match text with
    | '\x22' :: rest => do
      let (key, rest) ← string? rest
      match skipSpace rest with
      | ':' :: rest =>
        let (value, rest) ← value? fuel (skipSpace rest)
        match skipSpace rest with
        | ',' :: rest =>
          let (members, rest) ← members? fuel (skipSpace rest)
          return ((key, value) :: members, rest)
        | '\x7d' :: rest => return ([(key, value)], rest)
        | _ => none
      | _ => none
    | _ => none

end

/-- A document with nothing but white space around its value. -/
def parse? (text : Text) : Option Json := do
  let text := skipSpace text
  let (value, rest) ← value? (2 * text.length + 1) text
  if (skipSpace rest).isEmpty then some value else none

end Json

end PlainC
