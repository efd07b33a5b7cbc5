import FeedDesk.Number.Fixed
import FeedDesk.Number.Decimal

/-!
# Points in time

A point in time is given by the calendar and the clock, as precisely as a document gives it, and
is written in one way: with a `T` before the time, up to nine digits of a second's fraction and no
zeros behind them.
-/
namespace FeedDesk.Toml

open Number

structure Date where
  year : Nat
  month : Nat
  day : Nat
  deriving DecidableEq, Repr

/-- A time of day. The digits of a second's fraction are given one by one. -/
structure TimeOfDay where
  hour : Nat
  minute : Nat
  second : Nat
  fraction : List Nat
  deriving DecidableEq, Repr

/-- How a clock is set: to UTC by name, or by minutes ahead of it. -/
inductive Offset where
  | utc
  | ahead (minutes : Int)
  deriving DecidableEq, Repr

/-- A point in time: a day, a time, or both, and then perhaps how the clock is set. -/
inductive Moment where
  | day (date : Date)
  | time (time : TimeOfDay)
  | dayTime (date : Date) (time : TimeOfDay) (offset : Option Offset)
  deriving DecidableEq, Repr

def Date.chars (d : Date) : List Char :=
  lastDigits 4 d.year ++ '-' :: lastDigits 2 d.month ++ '-' :: lastDigits 2 d.day

def TimeOfDay.chars (t : TimeOfDay) : List Char :=
  let fraction := ((t.fraction.take 9).reverse.dropWhile (· == 0)).reverse.map digitChar
  lastDigits 2 t.hour ++ ':' :: lastDigits 2 t.minute ++ ':' :: lastDigits 2 t.second
    ++ if fraction.isEmpty then [] else '.' :: fraction

def Offset.chars : Offset → List Char
  | utc => ['Z']
  | ahead minutes =>
    (if minutes < 0 then '-' else '+') :: lastDigits 2 (minutes.natAbs / 60)
      ++ ':' :: lastDigits 2 (minutes.natAbs % 60)

def Moment.text : Moment → String
  | day date => String.ofList date.chars
  | time t => String.ofList t.chars
  | dayTime date t offset =>
    String.ofList (date.chars ++ 'T' :: t.chars ++ (offset.map Offset.chars).getD [])

end FeedDesk.Toml
