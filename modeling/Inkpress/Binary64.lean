import Inkpress.Text.Basic
import Inkpress.Text.Split

namespace Inkpress

inductive Binary64
  | nan
  | infinite (negative : Bool)
  /-- The number `mantissa * 2 ^ exponent`. The mantissa is below `2 ^ 53`, and it is at least
  `2 ^ 52` unless the exponent is the least, -1074. -/
  | finite (negative : Bool) (mantissa : Nat) (exponent : Int)
  deriving Repr, DecidableEq

namespace Binary64

def zero (negative : Bool) : Binary64 :=
  finite negative 0 (-1074)

def nearestEven (num den : Nat) : Nat :=
  let q := num / den
  let r := num % den
  if den < 2 * r ∨ (2 * r = den ∧ q % 2 = 1) then q + 1 else q

def raise (n : Nat) (exponent : Int) : Nat :=
  n * Nat.pow 2 exponent.toNat

def exponentOf (num den : Nat) : Int :=
  let guess : Int := (Nat.log2 num : Int) - Nat.log2 den - 53
  let e := if raise num (-guess) / raise den guess < Nat.pow 2 53 then guess else guess + 1
  max e (-1074)

def ofRatio (negative : Bool) (num den : Nat) : Binary64 :=
  if num = 0 then zero negative
  else
    let e := exponentOf num den
    let m := nearestEven (raise num (-e)) (raise den e)
    let (m, e) := if m < Nat.pow 2 53 then (m, e) else (Nat.pow 2 52, e + 1)
    if e ≤ 971 then finite negative m e else infinite negative

def ofDecimal (negative : Bool) (digits : Nat) (exponent : Int) : Binary64 :=
  let size : Int := (Nat.toDigits 10 digits).length + exponent
  if digits = 0 ∨ size < -400 then zero negative
  else if 400 < size then infinite negative
  else ofRatio negative (digits * Nat.pow 10 exponent.toNat) (Nat.pow 10 (-exponent).toNat)

def ratio (mantissa : Nat) (exponent : Int) : Nat × Nat :=
  (raise mantissa exponent, raise 1 (-exponent))

def timesPowerOfTen (x : Binary64) (exponent : Int) : Binary64 :=
  match x, ofDecimal false 1 exponent.natAbs with
  | finite negative m e, finite _ m' e' =>
    let (a, b) := ratio m e
    let (c, d) := ratio m' e'
    if 0 ≤ exponent then ofRatio negative (a * c) (b * d) else ofRatio negative (a * d) (b * c)
  | x, _ => x

structure Decimal where
  digits : Nat
  exponent : Int

/-- The magnitudes that round to a number, as bounds over one denominator, and whether the bounds
themselves do. -/
structure Interval where
  low : Nat
  value : Nat
  high : Nat
  den : Nat
  closed : Bool

def interval (mantissa : Nat) (exponent : Int) : Interval :=
  -- below a power of two the numbers are twice as dense
  let below := if mantissa = Nat.pow 2 52 ∧ -1074 < exponent then 1 else 2
  let unit := raise 1 exponent
  ⟨(4 * mantissa - below) * unit, 4 * mantissa * unit, (4 * mantissa + 2) * unit,
    4 * raise 1 (-exponent), mantissa % 2 = 0⟩

def Interval.has (i : Interval) (num den : Nat) : Bool :=
  let x := num * i.den
  if i.closed then i.low * den ≤ x && x ≤ i.high * den
  else i.low * den < x && x < i.high * den

/-- The multiple of a power of ten in the interval that is nearest to its value, if there is one. -/
def Interval.onGrid? (i : Interval) (exponent : Int) : Option Nat :=
  let up := Nat.pow 10 exponent.toNat
  let down := Nat.pow 10 (-exponent).toNat
  let n := i.value * down / (i.den * up)
  let fits (k : Nat) := i.has (k * up) down
  -- twice the distance to the lower neighbour against the whole step; half way the upper one counts
  let upper := i.den * up ≤ 2 * (i.value * down - n * (i.den * up))
  if fits n && fits (n + 1) then some (if upper then n + 1 else n)
  else if fits n then some n
  else if fits (n + 1) then some (n + 1)
  else none

def Interval.coarsest (i : Interval) : Nat → Int → Decimal
  | 0, e => ⟨0, e⟩
  | tries + 1, e =>
    match i.onGrid? e with
    | some n => ⟨n, e⟩
    | none => i.coarsest tries (e - 1)

def powerAbove (num den : Nat) : Int :=
  if den ≤ num then (Nat.toDigits 10 (num / den)).length
  else 1 - ((Nat.toDigits 10 (den / num)).length : Int)

/-- The shortest decimal that rounds to a magnitude, and of those the nearest to it. -/
def shortest (mantissa : Nat) (exponent : Int) : Decimal :=
  let i := interval mantissa exponent
  i.coarsest 20 (powerAbove i.value i.den)

def Decimal.text (d : Decimal) : String :=
  let ds := Nat.toDigits 10 d.digits
  if 0 ≤ d.exponent then String.ofList (ds ++ List.replicate d.exponent.toNat '0')
  else
    let places := (-d.exponent).toNat
    let ds := List.replicate (places + 1 - ds.length) '0' ++ ds
    String.ofList (ds.take (ds.length - places) ++ '.' :: ds.drop (ds.length - places))

def sign (negative : Bool) : String :=
  if negative then "-" else ""

def text : Binary64 → String
  | nan => "NaN"
  | infinite negative => sign negative ++ "inf"
  | finite negative m e =>
    sign negative ++ if m = 0 then "0" else (shortest m e).text

def isZero : Binary64 → Bool
  | finite _ m _ => m = 0
  | nan => false
  | infinite _ => false

def toNat (limit : Nat) : Binary64 → Nat
  | nan => 0
  | infinite negative => if negative then 0 else limit
  | finite negative m e =>
    let (num, den) := ratio m e
    if negative then 0 else min limit ((2 * num + den) / (2 * den))

def significand? (cs : List Char) : Option (Nat × Int) :=
  match Text.splitFirst? '.' cs with
  | some (whole, part) => do
    let n ← Text.Numeral.natural? (whole ++ part)
    some (n, -(part.length : Int))
  | none => do
    let n ← Text.Numeral.natural? cs
    some (n, 0)

def magnitude? (negative : Bool) (cs : List Char) : Option Binary64 :=
  let word := Text.lowerAscii (String.ofList cs)
  if word = "nan" then some nan
  else if word = "inf" ∨ word = "infinity" then some (infinite negative)
  else
    let small := cs.map fun c => if c = 'E' then 'e' else c
    match Text.splitFirst? 'e' small with
    | some (front, power) => do
      let (n, shift) ← significand? front
      let exponent ← Text.Numeral.integer? power
      some (ofDecimal negative n (shift + exponent))
    | none => do
      let (n, shift) ← significand? cs
      some (ofDecimal negative n shift)

/-- Reads a decimal number or the name of one that has no digits. -/
def ofText? (cs : List Char) : Option Binary64 :=
  match cs with
  | '-' :: rest => magnitude? true rest
  | '+' :: rest => magnitude? false rest
  | rest => magnitude? false rest

end Binary64

end Inkpress
