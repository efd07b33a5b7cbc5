import FeedDesk.Url.Percent

/-!
# Hosts

The host of a web address is a domain name, an IPv4 address or an IPv6 address in brackets. A
name whose last label is a number is an IPv4 address, with one to four numbers in decimal, octal
or hexadecimal digits, the last of which fills the bytes that are left. How names with characters
beyond ASCII are written is not laid down here: it is a parameter, and any mapping will do.
-/
namespace FeedDesk.Url

open Number

/-- How the names of domains are written in ASCII: what the bytes of a name come to, if they are a
name at all. Which characters names have and how they are folded is for the tables of a mapping. -/
class DomainMapping where
  toAscii? : List UInt8 → Option (List Char)

inductive UrlError where
  | emptyHost
  | badDomain
  | badPort
  | badIpv4
  | badIpv6
  | badHostCharacter
  | noScheme
  deriving DecidableEq, Repr

def UrlError.message : UrlError → String
  | emptyHost => "empty host"
  | badDomain => "invalid international domain name"
  | badPort => "invalid port number"
  | badIpv4 => "invalid IPv4 address"
  | badIpv6 => "invalid IPv6 address"
  | badHostCharacter => "invalid domain character"
  | noScheme => "relative URL without a base"

/-- A host. An IPv6 address is given by its eight pieces of 16 bits. -/
inductive Host where
  | domain (name : String)
  | ipv4 (address : Nat)
  | ipv6 (pieces : List Nat)
  deriving DecidableEq, Repr, Inhabited

namespace Host

def splitAt (separator : Char) (cs : List Char) : List (List Char) :=
  match cs with
  | [] => [[]]
  | c :: rest =>
    if c = separator then [] :: splitAt separator rest
    else
      match splitAt separator rest with
      | part :: parts => (c :: part) :: parts
      | [] => [[c]]

/-! ## IPv4 -/

/-- Digits in a base, of which the first may be missing. -/
def readBase? (base : Nat) (cs : List Char) : Option Nat :=
  cs.foldlM (fun n c => (hexValue? c).bind fun d => if d < base then some (base * n + d) else none) 0

def ipv4Number? : List Char → Option Nat
  | [] => none
  | '0' :: 'x' :: cs | '0' :: 'X' :: cs => readBase? 16 cs
  | '0' :: c :: cs => readBase? 8 (c :: cs)
  | cs => readBase? 10 cs

/-- The parts of a name, without the empty one behind a final dot. -/
def labels (name : List Char) : List (List Char) :=
  let parts := splitAt '.' name
  match parts.reverse with
  | [] :: front@(_ :: _) => front.reverse
  | _ => parts

/-- Whether a name ends in a number and so has to be an IPv4 address. -/
def endsInNumber (name : List Char) : Bool :=
  match (labels name).getLast? with
  | some label => (!label.isEmpty && label.all Char.isDigit) || (ipv4Number? label).isSome
  | none => false

/-- The address of up to four numbers: bytes, and in the last one all that is left. -/
def ipv4OfNumbers? (numbers : List Nat) : Option Nat :=
  match numbers.reverse with
  | [] => none
  | last :: front =>
    if front.length ≤ 3 && last < Nat.pow 256 (4 - front.length) && front.all (· < 256) then
      some (front.reverse.foldl (fun n b => 256 * n + b) 0 * Nat.pow 256 (4 - front.length) + last)
    else none

def ipv4? (name : List Char) : Option Nat :=
  ((labels name).mapM ipv4Number?).bind ipv4OfNumbers?

def ipv4Text (address : Nat) : String :=
  ".".intercalate ([3, 2, 1, 0].map fun i => Nat.repr (address / Nat.pow 256 i % 256))

/-! ## IPv6 -/

def ipv6Piece? (cs : List Char) : Option Nat :=
  if cs.isEmpty || 4 < cs.length then none else readHex? cs

/-- A byte in decimal digits without a zero in front. -/
def plainByte? (cs : List Char) : Option Nat :=
  match cs with
  | '0' :: _ :: _ => none
  | _ => (readNat? cs).filter (· < 256)

def dottedPieces? (cs : List Char) : Option (List Nat) :=
  match (splitAt '.' cs).mapM plainByte? with
  | some [a, b, c, d] => some [256 * a + b, 256 * c + d]
  | _ => none

/-- The pieces of consecutive fields; the last field may be dotted if nothing follows them. -/
def ipv6Pieces? (final : Bool) : List (List Char) → Option (List Nat)
  | [] => some []
  | [cs] =>
    if final && cs.contains '.' then dottedPieces? cs else (ipv6Piece? cs).map fun p => [p]
  | cs :: rest => do
    let p ← ipv6Piece? cs
    let ps ← ipv6Pieces? final rest
    pure (p :: ps)

/-- Takes off the empty field that a double colon at the start adds. -/
def dropLeadField : List (List Char) → Option (List (List Char))
  | [] :: [] :: f :: fs => some ([] :: f :: fs)
  | [] :: _ => none
  | fs => some fs

def dropLastField (fields : List (List Char)) : Option (List (List Char)) :=
  match fields.reverse with
  | [] :: [] :: fs => some ([] :: fs).reverse
  | [] :: _ => none
  | _ => some fields

/-- The eight pieces that a text in brackets denotes. One double colon stands for the zeros that
are missing, of which there is at least one. -/
def ipv6? (cs : List Char) : Option (List Nat) := do
  let fields ← dropLastField (← dropLeadField (splitAt ':' cs))
  let front := fields.takeWhile (!·.isEmpty)
  match fields.dropWhile (!·.isEmpty) with
  | [] =>
    let ps ← ipv6Pieces? true front
    if ps.length = 8 then some ps else none
  | _ :: back =>
    let ps ← ipv6Pieces? false front
    let qs ← ipv6Pieces? true back
    if ps.length + qs.length ≤ 7 then
      some (ps ++ List.replicate (8 - ps.length - qs.length) 0 ++ qs)
    else none

def zerosAhead (ps : List Nat) : Nat := (ps.takeWhile (· == 0)).length

/-- The start and the length of the first longest run of two or more zeros. -/
def longestZeros (ps : List Nat) : Option (Nat × Nat) :=
  (List.range ps.length).foldl
    (fun best i =>
      let n := zerosAhead (ps.drop i)
      if 2 ≤ n ∧ (best.map Prod.snd).getD 1 < n then some (i, n) else best)
    none

def colonText (ps : List Nat) : String :=
  ":".intercalate (ps.map fun p => String.ofList (hexDigits 1 p))

/-- An IPv6 address, with the first longest run of zeros left out. -/
def ipv6Text (ps : List Nat) : String :=
  match longestZeros ps with
  | none => colonText ps
  | some (i, n) => colonText (ps.take i) ++ "::" ++ colonText (ps.drop (i + n))

/-! ## Hosts of addresses -/

/-- The ASCII characters that the host of any other URL may not have. -/
def isForbiddenOpaque (c : Char) : Bool :=
  c == '\x00' || c == '\t' || c == '\n' || c == '\r' || c == ' ' || c == '#' || c == '/' || c == ':'
    || c == '<' || c == '>' || c == '?' || c == '@' || c == '[' || c == '\\' || c == ']' || c == '^'
    || c == '|'

def bracketed (cs : List Char) : Except UrlError Host :=
  match cs.getLast?, ipv6? (cs.tail.dropLast) with
  | some ']', some ps => .ok (.ipv6 ps)
  | _, _ => .error .badIpv6

/-- The host of a web address. Percent signs are resolved before a name is mapped to ASCII. -/
def parse [DomainMapping] (cs : List Char) : Except UrlError Host :=
  match cs with
  | '[' :: _ => bracketed cs
  | _ =>
    match DomainMapping.toAscii? (percentDecode cs) with
    | none => .error .badDomain
    | some [] => .error .emptyHost
    | some name =>
      if endsInNumber name then
        match ipv4? name with
        | some a => .ok (.ipv4 a)
        | none => .error .badIpv4
      else .ok (.domain (String.ofList name))

/-- The host of any other URL, which is not looked into unless it is in brackets. -/
def parseOpaque (cs : List Char) : Except UrlError Host :=
  match cs with
  | '[' :: _ => bracketed cs
  | _ =>
    if cs.any isForbiddenOpaque then .error .badHostCharacter
    else .ok (.domain (String.ofList (percentEncode controlSet cs)))

def text : Host → String
  | domain name => name
  | ipv4 a => ipv4Text a
  | ipv6 ps => "[" ++ ipv6Text ps ++ "]"

end Host

end FeedDesk.Url
