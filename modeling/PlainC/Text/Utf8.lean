import PlainC.Text

/-!
# Text as bytes

Files and the outputs of tools are bytes. A file is text only if its bytes are well-formed UTF-8. The
output of a tool is always taken for text: each longest piece that could have begun a character and
did not is replaced by one replacement character.
-/

namespace PlainC

abbrev Bytes := List UInt8

namespace Text

/-- The bytes of a character: the first tells how many there are, and each of the others has six bits
of the code. -/
def charBytes (c : Char) : Bytes :=
  let n := c.toNat
  let codes :=
    if n < 0x80 then [n]
    else if n < 0x800 then [0xC0 + n / 0x40, 0x80 + n % 0x40]
    else if n < 0x10000 then [0xE0 + n / 0x1000, 0x80 + n / 0x40 % 0x40, 0x80 + n % 0x40]
    else [0xF0 + n / 0x40000, 0x80 + n / 0x1000 % 0x40, 0x80 + n / 0x40 % 0x40, 0x80 + n % 0x40]
  codes.map UInt8.ofNat

def toBytes (text : Text) : Bytes := text.flatMap charBytes

/-- What the first byte of a character of several bytes says: the bits that it contributes, and the
bounds of each byte that must follow. -/
def lead? (byte : Nat) : Option (Nat × List (Nat × Nat)) :=
  let any := (0x80, 0xBF)
  if 0xC2 ≤ byte ∧ byte ≤ 0xDF then some (byte - 0xC0, [any])
  else if byte = 0xE0 then some (0, [(0xA0, 0xBF), any])
  else if byte = 0xED then some (0xD, [(0x80, 0x9F), any])
  else if 0xE1 ≤ byte ∧ byte ≤ 0xEF then some (byte - 0xE0, [any, any])
  else if byte = 0xF0 then some (0, [(0x90, 0xBF), any, any])
  else if byte = 0xF4 then some (4, [(0x80, 0x8F), any, any])
  else if 0xF1 ≤ byte ∧ byte ≤ 0xF3 then some (byte - 0xF0, [any, any, any])
  else none

/-- The bytes that follow within their bounds, as far as they do. -/
def following : List (Nat × Nat) → Bytes → Bytes
  | (low, high) :: bounds, byte :: bytes =>
    if low ≤ byte.toNat ∧ byte.toNat ≤ high then byte :: following bounds bytes else []
  | _, _ => []

def replacement : Char := '�'

/-- The character that begins with `byte`, and how many of the bytes behind it belong to it. -/
def decodeOne (byte : UInt8) (bytes : Bytes) : Char × Nat :=
  if byte.toNat < 0x80 then (Char.ofNat byte.toNat, 0)
  else
    match lead? byte.toNat with
    | none => (replacement, 0)
    | some (bits, bounds) =>
      let more := following bounds bytes
      if more.length = bounds.length then
        (Char.ofNat (more.foldl (fun code b => code * 0x40 + (b.toNat - 0x80)) bits), more.length)
      else (replacement, more.length)

def decodeFrom : (skip : Nat) → Bytes → Text
  | _, [] => []
  | skip + 1, _ :: bytes => decodeFrom skip bytes
  | 0, byte :: bytes =>
    let (c, n) := decodeOne byte bytes
    c :: decodeFrom n bytes

/-- The text of any bytes. -/
def ofBytes (bytes : Bytes) : Text := decodeFrom 0 bytes

/-- The text of well-formed bytes: those are the bytes that their text is written with. -/
def ofBytes? (bytes : Bytes) : Option Text :=
  let text := ofBytes bytes
  if toBytes text = bytes then some text else none

end Text

end PlainC
