import Inkpress.Json.Number
import Inkpress.Table
import Inkpress.Toml.Reader

namespace Inkpress.Settings

inductive Value
  | null
  | bool (b : Bool)
  | integer (n : Int)
  | number (x : Binary64)
  | text (s : String)
  | list (items : List Value)
  | sect (entries : List (String × Value))
  deriving Inhabited

namespace Value

def empty : Value := sect []

mutual

def ofToml : Toml.Value → Value
  | .text s => .text s
  | .integer n => .integer n
  | .number x => .number x
  | .bool b => .bool b
  | .moment s => .text s
  | .array items => .list (ofTomlItems items)
  | .table entries => .sect (ofTomlEntries entries)

def ofTomlItems : List Toml.Value → List Value
  | [] => []
  | v :: vs => ofToml v :: ofTomlItems vs

def ofTomlEntries : List (String × Toml.Value) → List (String × Value)
  | [] => []
  | (k, v) :: es => (k, ofToml v) :: ofTomlEntries es

end

mutual

def ofJson? : Json → Option Value
  | .null => some .null
  | .bool b => some (.bool b)
  | .number literal =>
    match Json.Number.ofLiteral? literal with
    | some (.whole n) => some (.integer n)
    | some (.floating x) => some (.number x)
    | none => none
  | .text s => some (.text s)
  | .array items => (ofJsonItems? items).map .list
  | .object members => (ofJsonMembers? members).map .sect

def ofJsonItems? : List Json → Option (List Value)
  | [] => some []
  | j :: js =>
    match ofJson? j, ofJsonItems? js with
    | some v, some vs => some (v :: vs)
    | _, _ => none

def ofJsonMembers? : List (String × Json) → Option (List (String × Value))
  | [] => some []
  | (k, j) :: ms =>
    match ofJson? j, ofJsonMembers? ms with
    | some v, some es => some (if es.any (·.1 = k) then es else (k, v) :: es)
    | _, _ => none

end

/-- A variable is a switch or a number if it reads as one, and else a text. -/
def ofVariable (s : String) : Value :=
  match Text.lowerAscii s with
  | "true" => .bool true
  | "false" => .bool false
  | _ =>
    match Text.Numeral.signed? 64 s.toList with
    | some n => .integer n
    | none =>
      match Binary64.ofText? s.toList with
      | some x => .number x
      | none => .text s

def boolText (b : Bool) : String :=
  if b then "true" else "false"

def switch? (word : String) : Option Bool :=
  match Text.lowerAscii word with
  | "true" => some true
  | "on" => some true
  | "yes" => some true
  | "false" => some false
  | "off" => some false
  | "no" => some false
  | _ => none

def text? : Value → Option String
  | text s => some s
  | bool b => some (boolText b)
  | integer n => some (toString n)
  | number x => some x.text
  | null => none
  | list _ => none
  | sect _ => none

def bool? : Value → Option Bool
  | bool b => some b
  | integer n => some (n ≠ 0)
  | number x => some !x.isZero
  | text s => if s = "1" then some true else if s = "0" then some false else switch? s
  | null => none
  | list _ => none
  | sect _ => none

def natural? : Value → Option Nat
  | bool b => some b.toNat
  | integer n => if 0 ≤ n then some n.toNat else none
  | number x => some (x.toNat (Nat.pow 2 64 - 1))
  | text s =>
    match switch? s with
    | some b => some b.toNat
    | none => Text.Numeral.unsigned? 64 s.toList
  | null => none
  | list _ => none
  | sect _ => none

def word? (bits : Nat) (v : Value) : Option Nat := do
  let n ← v.natural?
  if n < Nat.pow 2 bits then some n else none

end Value

end Inkpress.Settings
