import FeedDesk.Number.Decimal
import FeedDesk.Toml.Value

/-!
# Numbers and points in time in TOML

Underscores may stand between digits. An integer has 64 bits. A decimal is rounded to the
binary64 format and must not exceed it.
-/
namespace FeedDesk.Toml

open Number

/-! ## Points in time -/

def readTwo (most : Nat) : List Char → Option (Nat × List Char)
  | a :: b :: rest =>
    match readNat? [a, b] with
    | some n => if n ≤ most then some (n, rest) else none
    | none => none
  | _ => none

def daysOf (year month : Nat) : Nat :=
  if month = 2 then
    if year % 4 = 0 ∧ (year % 100 ≠ 0 ∨ year % 400 = 0) then 29 else 28
  else if month = 4 ∨ month = 6 ∨ month = 9 ∨ month = 11 then 30
  else 31

def after? (c : Char) : List Char → Option (List Char)
  | d :: rest => if d = c then some rest else none
  | [] => none

def readMonthDay (year : Nat) (cs : List Char) : Option (Date × List Char) := do
  let (month, rest) ← readTwo 12 cs
  let (day, rest) ← readTwo 31 (← after? '-' rest)
  if 1 ≤ month ∧ 1 ≤ day ∧ day ≤ daysOf year month then some (⟨year, month, day⟩, rest) else none

def readSecondFraction : List Char → List Nat × List Char
  | '.' :: rest =>
    let digits := rest.takeWhile Char.isDigit
    if digits.isEmpty then ([], '.' :: rest)
    else (digits.map digitValue, rest.dropWhile Char.isDigit)
  | cs => ([], cs)

def readMinuteSecond (hour : Nat) (cs : List Char) : Option (TimeOfDay × List Char) := do
  let (minute, rest) ← readTwo 59 cs
  let (second, rest) ← readTwo 60 (← after? ':' rest)
  let (fraction, rest) := readSecondFraction rest
  pure (⟨hour, minute, second, fraction⟩, rest)

def readTime (cs : List Char) : Option (TimeOfDay × List Char) := do
  let (hour, rest) ← readTwo 23 cs
  readMinuteSecond hour (← after? ':' rest)

/-- The offset from UTC in front, if there is one; refused if it is cut short. -/
def readOffset : List Char → Option (Option Offset × List Char)
  | 'Z' :: rest | 'z' :: rest => some (some .utc, rest)
  | sign :: cs =>
    if sign = '+' ∨ sign = '-' then do
      let (hours, rest) ← readTwo 23 cs
      let (minutes, rest) ← readTwo 59 (← after? ':' rest)
      let span : Int := hours * 60 + minutes
      pure (some (.ahead (if sign = '-' then -span else span)), rest)
    else some (none, sign :: cs)
  | [] => some (none, [])

/-- What follows the sign between a date and a time. -/
def afterDateMark? : List Char → Option (List Char)
  | 'T' :: rest | 't' :: rest | ' ' :: rest => some rest
  | _ => none

/-- A date in front with what belongs to it, behind its year. -/
def readFromMonth (year : Nat) (cs : List Char) : Option (Moment × List Char) := do
  let (date, rest) ← readMonthDay year cs
  match (afterDateMark? rest).bind fun cs => (readTwo 23 cs).bind fun (h, r) =>
      (after? ':' r).map fun r => (h, r) with
  | none => pure (.day date, rest)
  | some (hour, rest) =>
    let (time, rest) ← readMinuteSecond hour rest
    let (offset, rest) ← readOffset rest
    pure (.dayTime date time offset, rest)

inductive MomentStart where
  | date (year : Nat) (rest : List Char)
  | time
  | neither

/-- Looks for four digits and a hyphen, or for two digits and a colon. -/
def momentStart : List Char → MomentStart
  | a :: b :: ':' :: _ => if a.isDigit && b.isDigit then .time else .neither
  | a :: b :: c :: d :: '-' :: rest =>
    match readNat? [a, b, c, d] with
    | some year => .date year rest
    | none => .neither
  | _ => .neither

/-! ## Numbers -/

/-- The digits in front, behind those already read, with single underscores between them. -/
def readRun (isDigit : Char → Bool) (read : List Char) : List Char → Option (List Char × List Char)
  | [] => some (read.reverse, [])
  | '_' :: c :: rest => if isDigit c then readRun isDigit (c :: read) rest else none
  | c :: rest =>
    if c = '_' then none
    else if isDigit c then readRun isDigit (c :: read) rest
    else some (read.reverse, c :: rest)

def readRun1 (isDigit : Char → Bool) : List Char → Option (List Char × List Char)
  | c :: rest => if isDigit c then readRun isDigit [c] rest else none
  | [] => none

/-- The whole part of a decimal number in front: a zero, or digits that do not begin with one. -/
def readWhole : List Char → Option (List Char × List Char)
  | '0' :: rest => some (['0'], rest)
  | cs => readRun1 Char.isDigit cs

/-- An integer if 64 bits can hold it. -/
def integer? (n : Int) : Option Value :=
  if -Int.pow 2 63 ≤ n ∧ n < Int.pow 2 63 then some (.integer n) else none

/-- The number `± digits · 10 ^ power` in the binary64 format. Powers that are far out of its range
are not computed. -/
def realOf (negative : Bool) (digits : List Nat) (power : Int) : Binary64 :=
  let m := ofDigits 0 digits
  let lead := (digitsOf m).length + power
  if m = 0 ∨ lead < -330 then .zero negative
  else if 310 < lead then .infinite negative
  else if 0 ≤ power then .ofRatio negative (m * Nat.pow 10 power.toNat) 1
  else .ofRatio negative m (Nat.pow 10 (-power).toNat)

def readPower : List Char → Option (Option Int × List Char)
  | 'e' :: '+' :: cs | 'E' :: '+' :: cs =>
    (readRun1 Char.isDigit cs).map fun (ds, rest) => (some (ofDigits 0 (ds.map digitValue)), rest)
  | 'e' :: '-' :: cs | 'E' :: '-' :: cs =>
    (readRun1 Char.isDigit cs).map fun (ds, rest) => (some (-ofDigits 0 (ds.map digitValue)), rest)
  | 'e' :: cs | 'E' :: cs =>
    (readRun1 Char.isDigit cs).map fun (ds, rest) => (some (ofDigits 0 (ds.map digitValue)), rest)
  | cs => some (none, cs)

def readFraction : List Char → Option (Option (List Char) × List Char)
  | '.' :: cs => (readRun1 Char.isDigit cs).map fun (ds, rest) => (some ds, rest)
  | cs => some (none, cs)

/-- A decimal is refused if it rounds to infinity; one below zero counts as any other. -/
def real? (x : Binary64) : Option Value :=
  if x = .infinite false then none else some (.real x)

def readDecimal (negative : Bool) (cs : List Char) : Option (Value × List Char) := do
  let (whole, rest) ← readWhole cs
  let (fraction, rest) ← readFraction rest
  let (power, rest) ← readPower rest
  let digits := (whole ++ fraction.getD []).map digitValue
  if fraction.isNone && power.isNone then
    let n : Int := ofDigits 0 digits
    pure (← integer? (if negative then -n else n), rest)
  else
    pure (← real? (realOf negative digits (power.getD 0 - (fraction.getD []).length)), rest)

def isDigitOf (base : Nat) (c : Char) : Bool := (hexValue? c).any (· < base)

def readInBase (base : Nat) (cs : List Char) : Option (Value × List Char) := do
  let (ds, rest) ← readRun1 (isDigitOf base) cs
  let n := ds.foldl (fun n c => base * n + (hexValue? c).getD 0) 0
  pure (← integer? n, rest)

/-- An infinite or undefined number, or a decimal, in front, behind its sign. -/
def readSigned (negative : Bool) : List Char → Option (Value × List Char)
  | 'i' :: 'n' :: 'f' :: rest => some (.real (.infinite negative), rest)
  | 'n' :: 'a' :: 'n' :: rest => some (.real .nan, rest)
  | cs => readDecimal negative cs

def readNumber (cs : List Char) : Option (Value × List Char) :=
  match momentStart cs with
  | .date year rest => (readFromMonth year rest).map fun (m, rest) => (.moment m, rest)
  | .time => (readTime cs).map fun (t, rest) => (.moment (.time t), rest)
  | .neither =>
    match cs with
    | '0' :: 'x' :: rest => readInBase 16 rest
    | '0' :: 'o' :: rest => readInBase 8 rest
    | '0' :: 'b' :: rest => readInBase 2 rest
    | '+' :: rest => readSigned false rest
    | '-' :: rest => readSigned true rest
    | cs => readSigned false cs

end FeedDesk.Toml
