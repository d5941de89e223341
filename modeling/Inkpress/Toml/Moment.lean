import Inkpress.Calendar
import Inkpress.Text.Basic

namespace Inkpress.Toml

open Text (Reader)

namespace Moment

def part (count least most : Nat) : Reader Nat := fun cs => do
  let (n, rest) ← Text.Reader.digits 10 count cs
  if least ≤ n ∧ n ≤ most then some (n, rest) else none

def expect (c : Char) : List Char → Option (List Char)
  | d :: rest => if d = c then some rest else none
  | [] => none

def date : Reader String := fun cs => do
  let (year, rest) ← part 4 0 9999 cs
  let (month, rest) ← part 2 1 12 (← expect '-' rest)
  let (day, rest) ← part 2 1 (Inkpress.Moment.daysInMonth year month) (← expect '-' rest)
  some (Inkpress.Moment.padded 4 year ++ "-" ++ Inkpress.Moment.padded 2 month ++ "-" ++
    Inkpress.Moment.padded 2 day, rest)

/-- A fraction of a second: nine digits count, and zeros at the end are left out. -/
def fraction : Reader String
  | '.' :: cs =>
    match Text.Reader.span Char.isDigit cs with
    | ([], _) => none
    | (ds, rest) =>
      match ((ds.take 9).reverse.dropWhile (· = '0')).reverse with
      | [] => some ("", rest)
      | ds => some (String.ofList ('.' :: ds), rest)
  | cs => some ("", cs)

def time : Reader String := fun cs => do
  let (hour, rest) ← part 2 0 23 cs
  let (minute, rest) ← part 2 0 59 (← expect ':' rest)
  let (second, rest) ← part 2 0 60 (← expect ':' rest)
  let (f, rest) ← fraction rest
  some (Inkpress.Moment.padded 2 hour ++ ":" ++ Inkpress.Moment.padded 2 minute ++ ":" ++
    Inkpress.Moment.padded 2 second ++ f, rest)

def offset : Reader String
  | 'Z' :: rest => some ("Z", rest)
  | 'z' :: rest => some ("Z", rest)
  | c :: cs =>
    if c = '+' ∨ c = '-' then do
      let (hour, rest) ← part 2 0 23 cs
      let (minute, rest) ← part 2 0 59 (← expect ':' rest)
      let sign := if c = '-' ∧ hour + minute ≠ 0 then "-" else "+"
      some (sign ++ Inkpress.Moment.padded 2 hour ++ ":" ++ Inkpress.Moment.padded 2 minute, rest)
    else some ("", c :: cs)
  | [] => some ("", [])

def dateTime : Reader String := fun cs => do
  let (d, rest) ← date cs
  match rest with
  | [] => none
  | c :: rest =>
    if c = 'T' ∨ c = 't' ∨ c = ' ' then
      let (t, rest) ← time rest
      let (o, rest) ← offset rest
      some (d ++ "T" ++ t ++ o, rest)
    else none

end Moment

def moment : Reader String := fun cs =>
  ((Moment.dateTime cs).or (Moment.date cs)).or (Moment.time cs)

end Inkpress.Toml
