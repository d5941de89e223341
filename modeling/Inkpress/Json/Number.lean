import Inkpress.Binary64
import Inkpress.Json.Basic

namespace Inkpress.Json

inductive Number
  | whole (n : Int)
  | floating (x : Binary64)
  deriving Repr, DecidableEq

namespace Number

def absorb (n : Nat) : List Char → Nat × List Char
  | [] => (n, [])
  | c :: cs =>
    let next := 10 * n + (c.toNat - 48)
    if next < Nat.pow 2 64 then absorb next cs else (n, c :: cs)

def scale : Nat → Binary64 → Int → Option Binary64
  | 0, x, _ => some x
  | steps + 1, x, e =>
    if x.isZero then some x
    else if e < -308 then scale steps (x.timesPowerOfTen (-308)) (e + 308)
    else if 308 < e then none
    else match x.timesPowerOfTen e with
      | .infinite _ => none
      | y => some y

structure Parts where
  whole : List Char
  fraction : Option (List Char)
  power : Option Int

def Parts.ofLiteral (cs : List Char) : Parts :=
  let (front, power) := match Text.splitFirst? 'e' cs with
    | some (front, p) => (front, Text.Numeral.integer? p)
    | none => (cs, none)
  match Text.splitFirst? '.' front with
  | some (whole, fraction) => ⟨whole, some fraction, power⟩
  | none => ⟨front, none, power⟩

def ofParts (negative : Bool) (p : Parts) : Option Number :=
  let (n, left) := absorb 0 p.whole
  let fraction := p.fraction.getD []
  let (m, unread) := absorb n fraction
  let scaled (x : Nat) (e : Int) : Option Number :=
    (scale 4 (Binary64.ofRatio negative x 1) e).map floating
  match p.fraction, p.power with
  | none, none =>
    if left ≠ [] then scaled n left.length
    else if negative then
      if 0 < n ∧ n ≤ Nat.pow 2 63 then some (whole (-n)) else scaled n 0
    else if n < Nat.pow 2 63 then some (whole n)
    else scaled n 0
  | _, power => scaled m (left.length - (fraction.length - unread.length) + power.getD 0)

def ofLiteral? (literal : String) : Option Number :=
  match literal.toList with
  | '-' :: cs => ofParts true (.ofLiteral cs)
  | cs => ofParts false (.ofLiteral cs)

end Number

end Inkpress.Json
