import FeedDesk.Number.Decimal

/-!
# White space, keys and texts in TOML

A text stands in double quotes, where a backslash starts an escape, or in single quotes, where all
characters stand for themselves. Three quotes enclose a text of several lines.
-/
namespace FeedDesk.Toml

def isSpace (c : Char) : Bool := c == ' ' || c == '\t'

def skipSpace (cs : List Char) : List Char := cs.dropWhile isSpace

/-- The characters of comments and quoted texts: all but the control characters, the tab apart. -/
def isPlain (c : Char) : Bool := c == '\t' || (' ' ≤ c && c != '\x7f')

def afterNewline? : List Char → Option (List Char)
  | '\n' :: rest | '\r' :: '\n' :: rest => some rest
  | _ => none

/-- What follows the rest of a line that holds nothing but a comment. -/
def afterLine? (cs : List Char) : Option (List Char) :=
  let rest := match skipSpace cs with
    | '#' :: comment => comment.dropWhile isPlain
    | rest => rest
  if rest.isEmpty then some [] else afterNewline? rest

def skipFiller (inComment : Bool) : List Char → List Char
  | [] => []
  | '\n' :: rest | '\r' :: '\n' :: rest => skipFiller false rest
  | c :: rest =>
    if inComment then if isPlain c then skipFiller true rest else c :: rest
    else if isSpace c then skipFiller false rest
    else if c = '#' then skipFiller true rest
    else c :: rest

/-! ## Quoted texts -/

def shortEscape? : Char → Option Char
  | 'b' => some '\x08'
  | 'f' => some '\x0c'
  | 'n' => some '\n'
  | 'r' => some '\r'
  | 't' => some '\t'
  | '"' => some '"'
  | '\\' => some '\\'
  | _ => none

def charOfHex? (digits : List Char) : Option Char :=
  (Number.readHex? digits).bind fun n => if n.isValidChar then some (Char.ofNat n) else none

/-- A text of one line up to its closing double quote. -/
def readBasic (read : List Char) : List Char → Option (String × List Char)
  | [] => none
  | '"' :: rest => some (String.ofList read.reverse, rest)
  | '\\' :: 'u' :: a :: b :: c :: d :: rest =>
    match charOfHex? [a, b, c, d] with
    | some x => readBasic (x :: read) rest
    | none => none
  | '\\' :: 'U' :: a :: b :: c :: d :: e :: f :: g :: h :: rest =>
    match charOfHex? [a, b, c, d, e, f, g, h] with
    | some x => readBasic (x :: read) rest
    | none => none
  | '\\' :: c :: rest =>
    match shortEscape? c with
    | some x => readBasic (x :: read) rest
    | none => none
  | c :: rest => if isPlain c && c != '\\' then readBasic (c :: read) rest else none

/-- A text of one line up to its closing single quote. -/
def readLiteral (read : List Char) : List Char → Option (String × List Char)
  | [] => none
  | '\'' :: rest => some (String.ofList read.reverse, rest)
  | c :: rest => if isPlain c then readLiteral (c :: read) rest else none

/-- Where the reader of a text of several lines is: in the text, behind a backslash that has to
end its line, or in the white space that such a backslash takes away. -/
inductive LongPlace where
  | within
  | lineEnding
  | indentation
  deriving DecidableEq, Repr

/-- A text of several lines up to its closing double quotes, of which up to two more belong to the
text. -/
def readLongBasic (place : LongPlace) (read : List Char) : List Char → Option (String × List Char)
  | [] => none
  | '\n' :: rest | '\r' :: '\n' :: rest =>
    if place = .within then readLongBasic .within ('\n' :: read) rest
    else readLongBasic .indentation read rest
  | '"' :: '"' :: '"' :: '"' :: '"' :: rest =>
    if place = .lineEnding then none
    else some (String.ofList ('"' :: '"' :: read).reverse, rest)
  | '"' :: '"' :: '"' :: '"' :: rest =>
    if place = .lineEnding then none else some (String.ofList ('"' :: read).reverse, rest)
  | '"' :: '"' :: '"' :: rest =>
    if place = .lineEnding then none else some (String.ofList read.reverse, rest)
  | '\\' :: 'u' :: a :: b :: c :: d :: rest =>
    match charOfHex? [a, b, c, d] with
    | some x => if place = .lineEnding then none else readLongBasic .within (x :: read) rest
    | none => none
  | '\\' :: 'U' :: a :: b :: c :: d :: e :: f :: g :: h :: rest =>
    match charOfHex? [a, b, c, d, e, f, g, h] with
    | some x => if place = .lineEnding then none else readLongBasic .within (x :: read) rest
    | none => none
  | '\\' :: c :: rest =>
    if place = .lineEnding then none
    else
      match shortEscape? c with
      | some x => readLongBasic .within (x :: read) rest
      | none =>
        if isSpace c then readLongBasic .lineEnding read rest
        else if c = '\n' then readLongBasic .indentation read rest
        else if c = '\r' ∧ rest.head? = some '\n' then readLongBasic .indentation read rest
        else none
  | c :: rest =>
    if isSpace c then
      if place = .within then readLongBasic .within (c :: read) rest
      else readLongBasic place read rest
    else if place = .lineEnding then none
    else if isPlain c && c != '\\' then readLongBasic .within (c :: read) rest
    else none

/-- A text of several lines up to its closing single quotes, of which up to two more belong to the
text. -/
def readLongLiteral (read : List Char) : List Char → Option (String × List Char)
  | [] => none
  | '\'' :: '\'' :: '\'' :: '\'' :: '\'' :: rest =>
    some (String.ofList ('\'' :: '\'' :: read).reverse, rest)
  | '\'' :: '\'' :: '\'' :: '\'' :: rest => some (String.ofList ('\'' :: read).reverse, rest)
  | '\'' :: '\'' :: '\'' :: rest => some (String.ofList read.reverse, rest)
  | '\n' :: rest | '\r' :: '\n' :: rest => readLongLiteral ('\n' :: read) rest
  | c :: rest => if isPlain c then readLongLiteral (c :: read) rest else none

def dropNewline (cs : List Char) : List Char := (afterNewline? cs).getD cs

def readText : List Char → Option (String × List Char)
  | '"' :: '"' :: '"' :: rest => readLongBasic .within [] (dropNewline rest)
  | '"' :: rest => readBasic [] rest
  | '\'' :: '\'' :: '\'' :: rest => readLongLiteral [] (dropNewline rest)
  | '\'' :: rest => readLiteral [] rest
  | _ => none

/-! ## Keys -/

def isKeyChar (c : Char) : Bool := c.isAlphanum || c == '-' || c == '_'

def readKeyPart : List Char → Option (String × List Char)
  | '"' :: rest => readBasic [] rest
  | '\'' :: rest => readLiteral [] rest
  | cs =>
    let part := cs.takeWhile isKeyChar
    if part.isEmpty then none else some (String.ofList part, cs.dropWhile isKeyChar)

/-- The parts of a key that may still come, behind those already read. A key has fewer than eighty
parts, of which `room` are left. -/
def readKeyParts : Nat → List String → List Char → Option (List String × String × List Char)
  | 0, _, _ => none
  | room + 1, before, cs =>
    match readKeyPart (skipSpace cs) with
    | none => none
    | some (part, rest) =>
      match skipSpace rest with
      | '.' :: rest => readKeyParts room (before ++ [part]) rest
      | rest => some (before, part, rest)

/-- The key in front: the parts before its last dot, and the part behind it. -/
def readKey (cs : List Char) : Option (List String × String × List Char) :=
  readKeyParts 79 [] cs

end FeedDesk.Toml
