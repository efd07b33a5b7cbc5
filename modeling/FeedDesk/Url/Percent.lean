import FeedDesk.Number.Decimal

/-!
# Percent encoding

Characters that may not stand in a part of a URL are written as the bytes of their UTF-8 form,
each as a percent sign and two upper-case hexadecimal digits. Each part has its own set of such
characters; what is not ASCII is in all of them.
-/
namespace FeedDesk.Url

open Number

def percentByte (b : UInt8) : List Char :=
  '%' :: (hexDigits 2 b.toNat).map Char.toUpper

def percentEncode (set : Char → Bool) (cs : List Char) : List Char :=
  cs.flatMap fun c => if set c then (String.utf8EncodeChar c).flatMap percentByte else [c]

/-- The bytes of a text in which percent signs with two digits stand for bytes. -/
def percentDecode : List Char → List UInt8
  | '%' :: a :: b :: rest =>
    match readHex? [a, b] with
    | some n => UInt8.ofNat n :: percentDecode rest
    | none => '%'.toNat.toUInt8 :: percentDecode (a :: b :: rest)
  | c :: rest => String.utf8EncodeChar c ++ percentDecode rest
  | [] => []

/-- Controls, and all that is not ASCII. -/
def controlSet (c : Char) : Bool := c < ' ' || '~' < c

def fragmentSet (c : Char) : Bool :=
  controlSet c || c == ' ' || c == '"' || c == '<' || c == '>' || c == '\x60'

def pathSet (c : Char) : Bool :=
  fragmentSet c || c == '#' || c == '?' || c == '\x7b' || c == '\x7d'

def userinfoSet (c : Char) : Bool :=
  pathSet c || c == '/' || c == ':' || c == ';' || c == '=' || c == '@' || c == '[' || c == '\\'
    || c == ']' || c == '^' || c == '|'

/-- What is encoded in the query of a web address. -/
def querySet (c : Char) : Bool :=
  controlSet c || c == ' ' || c == '"' || c == '#' || c == '<' || c == '>' || c == '\''

end FeedDesk.Url
