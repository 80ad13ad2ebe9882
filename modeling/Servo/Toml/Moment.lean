/-
Dates and times as a TOML document writes them.

A date has a year of four digits and a month and a day of two. A time has hours
and minutes and may go on with seconds and their fraction. A time can follow a
date after a letter or one blank, and such a time can end in its distance from
universal time.
-/
import Servo.Toml.Reader.Basic

namespace Servo.Toml.Moment

open Reader

/-- The number of days in a month. -/
def daysIn (year month : Nat) : Nat :=
  if month = 2 then
    if year % 4 = 0 ∧ (year % 100 ≠ 0 ∨ year % 400 = 0) then 29 else 28
  else if month = 4 ∨ month = 6 ∨ month = 9 ∨ month = 11 then 30
  else 31

/-- A number of two digits, up to a greatest one. -/
def upTo (greatest : Nat) : Reader Unit := do
  if greatest < (← number 10 2 0) then failure

/-- A year, a month and a day that the month has. -/
def date : Reader Unit := do
  let year ← number 10 4 0
  char '-'
  let month ← number 10 2 0
  char '-'
  let day ← number 10 2 0
  if month = 0 ∨ 12 < month ∨ day = 0 ∨ daysIn year month < day then failure

/-- Hours and minutes. -/
def clock : Reader Unit := do
  upTo 23
  char ':'
  upTo 59

/-- A time of the day. Its last minute may have one second more than others. -/
def time : Reader Unit := do
  clock
  if ← optionally ':' then
    upTo 60
    if ← optionally '.' then
      let fraction ← takeAll (isDigit 10)
      if fraction.isEmpty then failure

/-- The distance from universal time. -/
def offset : Reader Unit := do
  match ← peek with
  | some 'Z' | some 'z' => discard next
  | some '+' | some '-' =>
    discard next
    clock
  | _ => return

/-- A date, with a time of that day or without. -/
def dateTime : Reader Unit := do
  date
  match ← peek with
  | some 'T' | some 't' | some ' ' =>
    discard next
    time
    offset
  | _ => return

/-- Whether a text is a date, a time or both. -/
def isMoment (cs : List Char) : Bool := accepts dateTime cs || accepts time cs

end Servo.Toml.Moment
