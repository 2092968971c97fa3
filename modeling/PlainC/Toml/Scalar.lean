import PlainC.Text

/-!
# TOML strings, numbers and dates

The readers take the rest of a document and give a value with what follows it, or nothing.
-/

namespace PlainC

namespace Toml

def isWs (c : Char) : Bool := c = ' ' || c = '\t'

def skipWs (text : Text) : Text := text.dropWhile isWs

/-- A line feed, with or without a carriage return before it. -/
def newline? : Text → Option Text
  | '\n' :: rest => some rest
  | '\r' :: '\n' :: rest => some rest
  | _ => none

/-- Characters that may be written as they are, in comments and in strings. -/
def isPrintable (c : Char) : Bool := c = '\t' || (c.toNat ≥ 0x20 && c.toNat ≠ 0x7F)

/-- The end of a line or of the document, with blanks and a comment before it. -/
def lineEnd? (text : Text) : Option Text :=
  let text := skipWs text
  let text := if text.head? = some '#' then text.dropWhile isPrintable else text
  if text.isEmpty then some [] else newline? text

/-! Strings -/

def isHexDigit (c : Char) : Bool :=
  c.isDigit || ('a' ≤ c && c ≤ 'f') || ('A' ≤ c && c ≤ 'F')

def hexValue (c : Char) : Nat :=
  if c.isDigit then c.toNat - 48 else if 'a' ≤ c then c.toNat - 87 else c.toNat - 55

def numeral (base : Nat) (digits : Text) : Nat :=
  digits.foldl (fun value c => value * base + hexValue c) 0

/-- The character of a code point given by `count` hexadecimal digits. -/
def codePoint? (count : Nat) (text : Text) : Option (Char × Text) :=
  let digits := text.take count
  let code := numeral 16 digits
  if digits.length = count && digits.all isHexDigit && code.isValidChar then
    some (Char.ofNat code, text.drop count)
  else none

/-- The character that an escape stands for, behind its backslash. -/
def escape? : Text → Option (Char × Text)
  | 'b' :: rest => some ('\x08', rest)
  | 't' :: rest => some ('\t', rest)
  | 'n' :: rest => some ('\n', rest)
  | 'f' :: rest => some ('\x0c', rest)
  | 'r' :: rest => some ('\r', rest)
  | '\x22' :: rest => some ('\x22', rest)
  | '\\' :: rest => some ('\\', rest)
  | 'u' :: rest => codePoint? 4 rest
  | 'U' :: rest => codePoint? 8 rest
  | _ => none

/-- The rest of a string within one line, behind its opening quote. -/
def basicBody? : (fuel : Nat) → Text → Option (Text × Text)
  | _ + 1, '\x22' :: rest => some ([], rest)
  | fuel + 1, '\\' :: rest => do
    let (c, rest) ← escape? rest
    let (body, rest) ← basicBody? fuel rest
    return (c :: body, rest)
  | fuel + 1, c :: rest =>
    if isPrintable c then do
      let (body, rest) ← basicBody? fuel rest
      return (c :: body, rest)
    else none
  | _, _ => none

/-- The rest of a literal string within one line, behind its opening apostrophe. -/
def literalBody? (text : Text) : Option (Text × Text) :=
  let body := text.takeWhile fun c => isPrintable c && c ≠ '\x27'
  match text.drop body.length with
  | '\x27' :: rest => some (body, rest)
  | _ => none

/-- Blanks with at least one line end among them, behind a backslash. -/
def splice? (text : Text) : Option Text := do
  let rest ← newline? (skipWs text)
  return skipLines rest.length rest
where
  skipLines : Nat → Text → Text
    | 0, text => text
    | fuel + 1, text =>
      let text := skipWs text
      match newline? text with
      | some rest => skipLines fuel rest
      | none => text

/-- The rest of a string over several lines, behind its opening quotes. Three quotes close it, and up
to two directly before them belong to it. -/
def blockBody? (quote : Char) (escapes : Bool) : (fuel : Nat) → Text → Option (Text × Text)
  | 0, _ => none
  | _, [] => none
  | fuel + 1, c :: rest =>
    if c = quote then
      let run := (c :: rest).takeWhile (· = quote)
      if run.length < 3 then do
        let (body, rest) ← blockBody? quote escapes fuel ((c :: rest).drop run.length)
        return (run ++ body, rest)
      else
        let own := min (run.length - 3) 2
        some (run.take own, (c :: rest).drop (own + 3))
    else if c = '\\' && escapes then
      match splice? rest with
      | some rest => blockBody? quote escapes fuel rest
      | none => do
        let (c, rest) ← escape? rest
        let (body, rest) ← blockBody? quote escapes fuel rest
        return (c :: body, rest)
    else
      match newline? (c :: rest) with
      | some rest => do
        let (body, rest) ← blockBody? quote escapes fuel rest
        return ('\n' :: body, rest)
      | none =>
        if isPrintable c then do
          let (body, rest) ← blockBody? quote escapes fuel rest
          return (c :: body, rest)
        else none

/-- A string over several lines; a line end right behind the opening quotes is not part of it. -/
def block? (quote : Char) (escapes : Bool) (text : Text) : Option (Text × Text) :=
  let text := (newline? text).getD text
  blockBody? quote escapes (text.length + 1) text

/-- A string within one line. -/
def lineString? : Text → Option (Text × Text)
  | '\x22' :: rest => basicBody? (rest.length + 1) rest
  | '\x27' :: rest => literalBody? rest
  | _ => none

def string? : Text → Option (Text × Text)
  | '\x22' :: '\x22' :: '\x22' :: rest => block? '\x22' true rest
  | '\x27' :: '\x27' :: '\x27' :: rest => block? '\x27' false rest
  | text => lineString? text

/-! Numbers -/

/-- Digits with single underscores between them. -/
def digits? (isDigit : Char → Bool) (text : Text) : Option (Text × Text) :=
  let run := text.takeWhile fun c => isDigit c || c = '_'
  let groups := Text.split '_' run
  if groups.all (!·.isEmpty) then some (groups.flatten, text.drop run.length) else none

def sign (text : Text) : Bool × Text :=
  match text with
  | '-' :: rest => (true, rest)
  | '+' :: rest => (false, rest)
  | _ => (false, text)

/-- Decimal digits without a superfluous zero in front. -/
def decimal? (text : Text) : Option (Text × Text) :=
  match text with
  | '0' :: '_' :: _ => none
  | '0' :: c :: _ => if c.isDigit then none else digits? Char.isDigit text
  | _ => digits? Char.isDigit text

/-- One above the greatest integer of 64 bits. -/
def integerBound : Nat := 0x8000000000000000

/-- An integer of 64 bits. -/
def integer? (text : Text) : Option (Int × Text) :=
  match text with
  | '0' :: 'x' :: rest => radix 16 isHexDigit rest
  | '0' :: 'o' :: rest => radix 8 (fun c => '0' ≤ c && c ≤ '7') rest
  | '0' :: 'b' :: rest => radix 2 (fun c => c = '0' || c = '1') rest
  | _ => do
    let (negative, rest) := sign text
    let (digits, rest) ← decimal? rest
    let value : Int := if negative then -(numeral 10 digits : Int) else numeral 10 digits
    if -(integerBound : Int) ≤ value ∧ value < integerBound then some (value, rest) else none
where
  radix (base : Nat) (isDigit : Char → Bool) (text : Text) : Option (Int × Text) := do
    let (digits, rest) ← digits? isDigit text
    let value := numeral base digits
    if value < integerBound then some ((value : Int), rest) else none

/-- Whether `digits * 10 ^ exponent` rounds to no finite number of 64 bits. -/
def overflows (digits : Nat) (exponent : Int) : Bool :=
  let bound := Nat.pow 2 1024 - Nat.pow 2 970
  let size : Int := (Nat.repr digits).length + exponent
  if digits = 0 || size < 300 then false
  else if size > 320 then true
  else if exponent ≥ 0 then digits * Nat.pow 10 exponent.toNat ≥ bound
  else digits ≥ bound * Nat.pow 10 (-exponent).toNat

/-- The exponent of a number behind its mark. -/
def exponent? : Text → Option (Int × Text)
  | c :: rest =>
    if c = 'e' || c = 'E' then do
      let (negative, rest) := sign rest
      let (digits, rest) ← digits? Char.isDigit rest
      let value : Int := numeral 10 digits
      return (if negative then -value else value, rest)
    else none
  | [] => none

/-- The digits behind a decimal point. -/
def fraction? : Text → Option (Text × Text)
  | '.' :: rest => digits? Char.isDigit rest
  | _ => none

/-- A number with a fraction or an exponent; it must not be too large, but may be too small. -/
def finiteFloat? (text : Text) : Option Text := do
  let (negative, rest) := sign text
  let (whole, rest) ← decimal? rest
  let (digits, exponent, rest) ←
    match fraction? rest with
    | some (fraction, rest) =>
      let (exponent, rest) := (exponent? rest).getD (0, rest)
      some (whole ++ fraction, exponent - fraction.length, rest)
    | none => do
      let (exponent, rest) ← exponent? rest
      some (whole, exponent, rest)
  if !negative && overflows (numeral 10 digits) exponent then none else some rest

def float? (text : Text) : Option Text :=
  match (sign text).2 with
  | 'i' :: 'n' :: 'f' :: rest => some rest
  | 'n' :: 'a' :: 'n' :: rest => some rest
  | _ => finiteFloat? text

/-! Dates and times -/

/-- A number of exactly `count` digits within bounds. -/
def fixed? (count low high : Nat) (text : Text) : Option (Nat × Text) :=
  let digits := text.take count
  let value := numeral 10 digits
  if digits.length = count && digits.all Char.isDigit && low ≤ value && value ≤ high then
    some (value, text.drop count)
  else none

def mark? (mark : Char) : Text → Option Text
  | c :: rest => if c = mark then some rest else none
  | [] => none

def daysIn (year month : Nat) : Nat :=
  let isLeap := year % 4 = 0 && (year % 100 ≠ 0 || year % 400 = 0)
  if month = 2 then (if isLeap then 29 else 28)
  else if month = 4 || month = 6 || month = 9 || month = 11 then 30
  else 31

def date? (text : Text) : Option Text := do
  let (year, rest) ← fixed? 4 0 9999 text
  let (month, rest) ← fixed? 2 1 12 (← mark? '-' rest)
  let (_, rest) ← fixed? 2 1 (daysIn year month) (← mark? '-' rest)
  return rest

/-- A time of day; a minute may have a leap second. -/
def time? (text : Text) : Option Text := do
  let (_, rest) ← fixed? 2 0 23 text
  let (_, rest) ← fixed? 2 0 59 (← mark? ':' rest)
  let (_, rest) ← fixed? 2 0 60 (← mark? ':' rest)
  match rest with
  | '.' :: more =>
    let digits := more.takeWhile Char.isDigit
    return if digits.isEmpty then rest else more.drop digits.length
  | _ => return rest

/-- The distance to universal time. -/
def offset? : Text → Option Text
  | c :: rest =>
    if c = 'Z' || c = 'z' then some rest
    else if c = '+' || c = '-' then do
      let (_, rest) ← fixed? 2 0 23 rest
      let (_, rest) ← fixed? 2 0 59 (← mark? ':' rest)
      return rest
    else none
  | [] => none

/-- A date, a time, or a date with a time and possibly an offset. -/
def dateTime? (text : Text) : Option Text :=
  match date? text with
  | none => time? text
  | some rest =>
    match rest with
    | c :: more =>
      if c = 'T' || c = 't' || c = ' ' then
        match time? more with
        | some rest => some ((offset? rest).getD rest)
        | none => some (c :: more)
      else some (c :: more)
    | [] => some []

end Toml

end PlainC
