/-!
Decoding bytes. Bytes that belong to no character are skipped.
-/
namespace Reporting

/-- How characters are stored as bytes. -/
inductive Encoding
  | utf8
  /-- Every byte is the code point of the same number. -/
  | latin1
  /-- Bytes from 0x80 on are skipped. -/
  | ascii
  deriving DecidableEq, Repr

namespace Encoding

/-- Looks up a name, without regard to case and punctuation. -/
def ofName? (name : String) : Option Encoding :=
  match String.ofList ((name.toList.filter Char.isAlphanum).map Char.toLower) with
  | "utf8" => some utf8
  | "iso88591" | "latin1" | "l1" => some latin1
  | "ascii" | "usascii" => some ascii
  | _ => none

/-- The bytes that go on a character of several bytes. -/
def isContinuation (b : Nat) : Bool := 0x80 ≤ b && b < 0xC0

/-- The second bytes that may follow a first byte of three or four: others would write a character
with too many bytes, a surrogate, or a number that is too large. -/
def isSecond (first second : Nat) : Bool :=
  if first = 0xE0 then 0xA0 ≤ second && second < 0xC0
  else if first = 0xED then 0x80 ≤ second && second < 0xA0
  else if first = 0xF0 then 0x90 ≤ second && second < 0xC0
  else if first = 0xF4 then 0x80 ≤ second && second < 0x90
  else isContinuation second

/-- Decodes UTF-8. Of a sequence that is cut short, the bytes that fit are skipped. -/
def decodeUtf8 : List Nat → List Char
  | [] => []
  | a :: r =>
    if a < 0x80 then Char.ofNat a :: decodeUtf8 r
    else if 0xC2 ≤ a ∧ a < 0xE0 then
      match r with
      | b :: r =>
        if isContinuation b then Char.ofNat ((a - 0xC0) * 0x40 + (b - 0x80)) :: decodeUtf8 r
        else decodeUtf8 (b :: r)
      | [] => []
    else if 0xE0 ≤ a ∧ a < 0xF0 then
      match r with
      | b :: r =>
        if isSecond a b then
          match r with
          | c :: r =>
            if isContinuation c then
              Char.ofNat (((a - 0xE0) * 0x40 + (b - 0x80)) * 0x40 + (c - 0x80)) :: decodeUtf8 r
            else decodeUtf8 (c :: r)
          | [] => []
        else decodeUtf8 (b :: r)
      | [] => []
    else if 0xF0 ≤ a ∧ a < 0xF5 then
      match r with
      | b :: r =>
        if isSecond a b then
          match r with
          | c :: r =>
            if isContinuation c then
              match r with
              | d :: r =>
                if isContinuation d then
                  Char.ofNat ((((a - 0xF0) * 0x40 + (b - 0x80)) * 0x40 + (c - 0x80)) * 0x40 +
                    (d - 0x80)) :: decodeUtf8 r
                else decodeUtf8 (d :: r)
              | [] => []
            else decodeUtf8 (c :: r)
          | [] => []
        else decodeUtf8 (b :: r)
      | [] => []
    else decodeUtf8 r

/-- The characters of bytes. -/
def decode (e : Encoding) (bytes : List Nat) : List Char :=
  match e with
  | utf8 => decodeUtf8 bytes
  | latin1 => bytes.map Char.ofNat
  | ascii => (bytes.filter (· < 0x80)).map Char.ofNat

/-- The bytes of a text in UTF-8. -/
def encodeUtf8 (s : String) : List Nat := s.toUTF8.toList.map UInt8.toNat

/-- Decodes in a given encoding, or else as UTF-8. -/
def decodeWith (e : Option Encoding) (bytes : List Nat) : String :=
  String.ofList ((e.getD utf8).decode bytes)

end Encoding
end Reporting
