import Inkpress.Text.Basic

namespace Inkpress

structure Moment where
  year : Int
  month : Nat
  day : Nat
  hour : Nat
  minute : Nat
  second : Nat
  offset : Int
  deriving Repr, DecidableEq

namespace Moment

def isLeapYear (y : Int) : Bool :=
  y % 4 = 0 && (y % 100 ≠ 0 || y % 400 = 0)

def daysInMonth (y : Int) (m : Nat) : Nat :=
  if m = 2 then (if isLeapYear y then 29 else 28)
  else if m = 4 ∨ m = 6 ∨ m = 9 ∨ m = 11 then 30
  else 31

def isValid (m : Moment) : Bool :=
  1 ≤ m.month && m.month ≤ 12 && 1 ≤ m.day && m.day ≤ daysInMonth m.year m.month
    && m.hour < 24 && m.minute < 60 && m.second ≤ 60 && -86400 < m.offset && m.offset < 86400

/-- The number of a day, counted from 1 March of year 0. -/
def dayNumber (year : Int) (month day : Nat) : Int :=
  let y := if month ≤ 2 then year - 1 else year
  let m : Int := ((month + 9) % 12 : Nat)
  365 * y + y / 4 - y / 100 + y / 400 + (153 * m + 2) / 5 + day - 1

def dateOf (n : Int) : Int × Nat × Nat :=
  let era := n / 146097
  let inEra := n % 146097
  let yearOfEra := (inEra - inEra / 1460 + inEra / 36524 - inEra / 146096) / 365
  let inYear := inEra - (365 * yearOfEra + yearOfEra / 4 - yearOfEra / 100)
  let m := (5 * inYear + 2) / 153
  let day := (inYear - (153 * m + 2) / 5 + 1).toNat
  let month := if m < 10 then (m + 3).toNat else (m - 9).toNat
  let year := yearOfEra + 400 * era + if month ≤ 2 then 1 else 0
  (year, month, day)

def toUniversal (m : Moment) : Moment :=
  let minutes := dayNumber m.year m.month m.day * 1440 + m.hour * 60 + m.minute
  -- a distance that is no whole number of minutes moves the seconds too
  let total := minutes * 60 + min m.second 59 - m.offset
  let (year, month, day) := dateOf (total / 86400)
  let rest := (total % 86400).toNat
  let leap := if m.second = 60 then 1 else 0
  ⟨year, month, day, rest / 3600, rest / 60 % 60, rest % 60 + leap, 0⟩

def ofUnixTime (seconds : Int) : Moment :=
  toUniversal ⟨1970, 1, 1, 0, 0, 0, -seconds⟩

def padded (width n : Nat) : String :=
  let s := toString n
  String.ofList (List.replicate (width - s.length) '0') ++ s

def yearText (y : Int) : String :=
  if 0 ≤ y ∧ y ≤ 9999 then padded 4 y.toNat
  else (if y < 0 then "-" else "+") ++ padded 4 y.natAbs

def text (m : Moment) : String :=
  yearText m.year ++ "-" ++ padded 2 m.month ++ "-" ++ padded 2 m.day ++ " " ++
    padded 2 m.hour ++ ":" ++ padded 2 m.minute ++ ":" ++ padded 2 m.second

abbrev Rest := List Char

def skipBlanks (cs : Rest) : Rest := cs.dropWhile Text.isBlankChar

def digits? (most : Nat) (cs : Rest) : Option (Nat × Rest) :=
  let ds := (cs.take most).takeWhile Char.isDigit
  if ds.isEmpty then none
  else some (ds.foldl (fun n c => 10 * n + (c.toNat - 48)) 0, cs.drop ds.length)

def number? (most : Nat) (cs : Rest) : Option (Nat × Rest) :=
  digits? most (skipBlanks cs)

def year? (cs : Rest) : Option (Int × Rest) :=
  match skipBlanks cs with
  | '+' :: cs => (digits? cs.length cs).map fun (n, cs) => ((n : Int), cs)
  | '-' :: cs => (digits? cs.length cs).map fun (n, cs) => (-(n : Int), cs)
  | cs => (digits? 4 cs).map fun (n, cs) => ((n : Int), cs)

def char? (c : Char) (cs : Rest) : Option Rest :=
  match skipBlanks cs with
  | d :: cs => if d = c then some cs else none
  | [] => none

def fraction? (cs : Rest) : Option Rest :=
  match cs with
  | '.' :: cs =>
    let rest := cs.dropWhile Char.isDigit
    if rest.length = cs.length then none else some rest
  | cs => some cs

def twoDigits? (cs : Rest) : Option (Nat × Rest) :=
  match cs with
  | a :: b :: rest =>
    if a.isDigit && b.isDigit then some (10 * (a.toNat - 48) + (b.toNat - 48), rest) else none
  | _ => none

def offset? (cs : Rest) : Option (Int × Rest) :=
  match cs with
  | 'Z' :: cs | 'z' :: cs => some (0, cs)
  | _ =>
    if (cs.take 3).map Char.toUpper = ['U', 'T', 'C'] then some (0, cs.drop 3)
    else do
      let (sign, cs) ← match cs with
        | '+' :: cs => some ((1 : Int), cs)
        | '-' :: cs | '−' :: cs => some ((-1 : Int), cs)
        | _ => none
      let (h, cs) ← twoDigits? cs
      let cs := cs.dropWhile fun c => c = ':' || Text.isBlankChar c
      let (m, cs) ← twoDigits? cs
      guard (m < 60)
      some (sign * (h * 3600 + m * 60 : Nat), cs)

def ofText? (s : String) : Option Moment := do
  let (year, cs) ← year? s.toList
  let (month, cs) ← char? '-' cs >>= number? 2
  let (day, cs) ← char? '-' cs >>= number? 2
  let cs ← match cs with
    | 'T' :: cs | 't' :: cs | ' ' :: cs => some cs
    | _ => none
  let (hour, cs) ← number? 2 cs
  let (minute, cs) ← char? ':' cs >>= number? 2
  let (second, cs) ← char? ':' cs >>= number? 2
  let cs ← fraction? cs
  let (offset, cs) ← offset? (skipBlanks cs)
  let m : Moment := ⟨year, month, day, hour, minute, second, offset⟩
  guard ((skipBlanks cs).isEmpty && m.isValid)
  some m

end Moment

end Inkpress
