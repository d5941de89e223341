import Inkpress.Binary64
import Inkpress.Text.Basic

namespace Inkpress.Toml

inductive Value
  | text (s : String)
  | integer (n : Int)
  | number (x : Binary64)
  | bool (b : Bool)
  | moment (s : String)
  | array (items : List Value)
  | table (entries : List (String × Value))
  deriving Inhabited

namespace Scalar

def grouped? (base : Nat) (cs : List Char) : Option (List Char) :=
  let groups := Text.split '_' cs
  if groups.all fun g => g ≠ [] && g.all fun c => (Text.Reader.digit? c).any (· < base) then
    some groups.flatten
  else none

def whole? (cs : List Char) : Option (List Char) := do
  let ds ← grouped? 10 cs
  if ds.head? = some '0' ∧ ds.length ≠ 1 then none else some ds

def signed : List Char → Bool × List Char
  | '-' :: cs => (true, cs)
  | '+' :: cs => (false, cs)
  | cs => (false, cs)

def based? (base : Nat) (cs : List Char) : Option Value := do
  let n ← Text.Reader.number? base (← grouped? base cs)
  if n < Nat.pow 2 63 then some (.integer n) else none

def decimal? (cs : List Char) : Option Value := do
  let (negative, cs) := signed cs
  let n ← Text.Reader.number? 10 (← whole? cs)
  if negative then (if n ≤ Nat.pow 2 63 then some (.integer (-n)) else none)
  else if n < Nat.pow 2 63 then some (.integer n)
  else none

def integer? : List Char → Option Value
  | '0' :: 'x' :: cs => based? 16 cs
  | '0' :: 'o' :: cs => based? 8 cs
  | '0' :: 'b' :: cs => based? 2 cs
  | cs => decimal? cs

def significand? (cs : List Char) : Option (Nat × Nat) :=
  match Text.splitFirst? '.' cs with
  | some (front, back) => do
    let front ← whole? front
    let back ← grouped? 10 back
    let n ← Text.Reader.number? 10 (front ++ back)
    some (n, back.length)
  | none => do
    let n ← Text.Reader.number? 10 (← whole? cs)
    some (n, 0)

def exponent? (cs : List Char) : Option Int := do
  let (negative, cs) := signed cs
  let n ← Text.Reader.number? 10 (← grouped? 10 cs)
  some (if negative then -n else n)

/-- A number with a point or an exponent. One that is too large is refused if it is positive. -/
def floating? (cs : List Char) : Option Value := do
  let (negative, cs) := signed cs
  let small := cs.map fun c => if c = 'E' then 'e' else c
  let x ← match Text.splitFirst? 'e' small with
    | some (front, power) => do
      let (n, places) ← significand? front
      let e ← exponent? power
      some (Binary64.ofDecimal negative n (e - places))
    | none =>
      if cs.contains '.' then do
        let (n, places) ← significand? cs
        some (Binary64.ofDecimal negative n (-(places : Int)))
      else none
  if x = .infinite false then none else some (.number x)

def word? (cs : List Char) : Option Value :=
  match String.ofList cs with
  | "true" => some (.bool true)
  | "false" => some (.bool false)
  | "inf" => some (.number (.infinite false))
  | "+inf" => some (.number (.infinite false))
  | "-inf" => some (.number (.infinite true))
  | "nan" => some (.number .nan)
  | "+nan" => some (.number .nan)
  | "-nan" => some (.number .nan)
  | _ => none

end Scalar

def scalar? (cs : List Char) : Option Value :=
  ((Scalar.word? cs).or (Scalar.integer? cs)).or (Scalar.floating? cs)

end Inkpress.Toml
