import Inkpress.Text.Basic

namespace Inkpress.Xml

open Inkpress.Text (isGap)

def localName (name : List Char) : List Char :=
  if ':' ∈ name then (name.dropWhile (· ≠ ':')).drop 1 else name

/-- An attribute as it is written: its value still holds references. -/
structure Attribute where
  key : List Char
  value : List Char
  deriving Repr, DecidableEq

namespace Attribute

def localKey (a : Attribute) : List Char :=
  localName a.key

/-- Where a reader of attributes stands. Unfinished pieces are kept reversed. -/
inductive Place
  | gap
  | key (read : List Char)
  | sign (read : List Char)
  | quote (key : List Char)
  | value (key : List Char) (quote : Char) (read : List Char)
  | skip

/-- A reader of attributes: its place, the keys met so far and the entries so far, reversed. -/
structure Reader where
  place : Place
  keys : List (List Char)
  read : List (Option Attribute)

namespace Reader

def start : Reader := ⟨.gap, [], []⟩

/-- A key is complete at its equals sign; the second attribute with one key is malformed. -/
def closeKey (r : Reader) (key : List Char) : Reader :=
  if key ∈ r.keys then { r with place := .skip, read := none :: r.read }
  else { r with place := .quote key, keys := key :: r.keys }

def step (r : Reader) (c : Char) : Reader :=
  match r.place with
  | .gap => if isGap c then r else { r with place := .key [c] }
  | .key read =>
    if c = '=' then r.closeKey read.reverse
    else if isGap c then { r with place := .sign read }
    else { r with place := .key (c :: read) }
  | .sign read =>
    if isGap c then r
    else if c = '=' then r.closeKey read.reverse
    else { r with place := .key [c], read := none :: r.read }
  | .quote key =>
    if isGap c then r
    else if c = '"' ∨ c = '\'' then { r with place := .value key c [] }
    else { r with place := .skip, read := none :: r.read }
  | .value key q read =>
    if c = q then { r with place := .gap, read := some ⟨key, read.reverse⟩ :: r.read }
    else { r with place := .value key q (c :: read) }
  | .skip => if isGap c then { r with place := .gap } else r

def finish (r : Reader) : List (Option Attribute) :=
  match r.place with
  | .gap | .skip => r.read.reverse
  | .key _ | .sign _ | .quote _ | .value _ _ _ => (none :: r.read).reverse

end Reader

def ofText (cs : List Char) : List (Option Attribute) :=
  (cs.foldl Reader.step Reader.start).finish

end Attribute

end Inkpress.Xml
