import FeedDesk.Number.Decimal

/-!
# Texts in JSON

A text is quoted. Between the quotes, a backslash starts an escape, a character below U+0020 is
not allowed, and an escape with a UTF-16 surrogate is a character only together with its other
half. Written out, only the quote, the backslash and the characters below U+0020 are escaped.
-/
namespace FeedDesk.Json

open Number

/-- A piece of a quoted text: a character, or an escaped UTF-16 unit. -/
inductive Piece where
  | plain (c : Char)
  | unit (value : Nat)
  deriving DecidableEq, Repr

def isHighSurrogate (u : Nat) : Bool := 0xd800 ≤ u && u < 0xdc00

def isLowSurrogate (u : Nat) : Bool := 0xdc00 ≤ u && u < 0xe000

def joinSurrogates (high low : Nat) : Char :=
  Char.ofNat (0x10000 + (high - 0xd800) * 0x400 + (low - 0xdc00))

/-- The text that pieces denote, if every surrogate has its other half. -/
def assemble : List Piece → Option (List Char)
  | [] => some []
  | .plain c :: rest => (assemble rest).map (c :: ·)
  | .unit u :: rest =>
    if isHighSurrogate u then
      match rest with
      | .unit v :: rest =>
        if isLowSurrogate v then (assemble rest).map (joinSurrogates u v :: ·) else none
      | _ => none
    else if isLowSurrogate u then none
    else (assemble rest).map (Char.ofNat u :: ·)

def shortEscape? : Char → Option Char
  | '"' => some '"'
  | '\\' => some '\\'
  | '/' => some '/'
  | 'b' => some '\x08'
  | 'f' => some '\x0c'
  | 'n' => some '\n'
  | 'r' => some '\r'
  | 't' => some '\t'
  | _ => none

/-- The pieces up to the closing quote, behind those already read, and what follows the quote. -/
def readPieces (read : List Piece) : List Char → Option (List Piece × List Char)
  | [] => none
  | '"' :: rest => some (read.reverse, rest)
  | '\\' :: 'u' :: a :: b :: c :: d :: rest =>
    match readHex? [a, b, c, d] with
    | some u => readPieces (.unit u :: read) rest
    | none => none
  | '\\' :: c :: rest =>
    match shortEscape? c with
    | some c => readPieces (.plain c :: read) rest
    | none => none
  | c :: rest => if c < ' ' || c = '\\' then none else readPieces (.plain c :: read) rest

def readText (cs : List Char) : Option (Option String × List Char) :=
  (readPieces [] cs).map fun (pieces, rest) => ((assemble pieces).map String.ofList, rest)

def escapeChar (c : Char) : List Char :=
  if c = '"' then ['\\', '"']
  else if c = '\\' then ['\\', '\\']
  else if c = '\x08' then ['\\', 'b']
  else if c = '\x0c' then ['\\', 'f']
  else if c = '\n' then ['\\', 'n']
  else if c = '\r' then ['\\', 'r']
  else if c = '\t' then ['\\', 't']
  else if c < ' ' then ['\\', 'u'] ++ hexDigits 4 c.toNat
  else [c]

def writeText (cs : List Char) : List Char :=
  '"' :: cs.flatMap escapeChar ++ ['"']

end FeedDesk.Json
