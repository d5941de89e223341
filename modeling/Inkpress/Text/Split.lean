

namespace Inkpress.Text

def split (sep : Char) : List Char → List (List Char)
  | [] => [[]]
  | c :: cs =>
    if c = sep then [] :: split sep cs
    else match split sep cs with
      | [] => [[c]]
      | piece :: pieces => (c :: piece) :: pieces

def after? (start : List Char) (cs : List Char) : Option (List Char) :=
  if start.isPrefixOf cs then some (cs.drop start.length) else none

def join (sep : Char) : List (List Char) → List Char
  | [] => []
  | [piece] => piece
  | piece :: pieces => piece ++ sep :: join sep pieces

def splitFirst? (sep : Char) : List Char → Option (List Char × List Char)
  | [] => none
  | c :: cs => if c = sep then some ([], cs) else (splitFirst? sep cs).map fun (a, b) => (c :: a, b)

def splitLast? (sep : Char) : List Char → Option (List Char × List Char)
  | [] => none
  | c :: cs =>
    match splitLast? sep cs with
    | some (a, b) => some (c :: a, b)
    | none => if c = sep then some ([], cs) else none

theorem splitLast?_eq_none_iff {sep : Char} {cs : List Char} : splitLast? sep cs = none ↔ sep ∉ cs := by
  induction cs with
  | nil => simp [splitLast?]
  | cons c cs ih =>
    rw [List.mem_cons, not_or, ← ih, splitLast?]
    cases splitLast? sep cs with
    | some ab => simp
    | none => simp [eq_comm]

theorem eq_of_splitLast? {sep : Char} {cs a b : List Char} (h : splitLast? sep cs = some (a, b)) :
    cs = a ++ sep :: b ∧ sep ∉ b := by
  induction cs generalizing a with
  | nil => cases h
  | cons c cs ih =>
    rw [splitLast?] at h
    cases hs : splitLast? sep cs with
    | some ab =>
      simp only [hs, Option.some.injEq, Prod.mk.injEq] at h
      obtain ⟨rfl, rfl⟩ := h
      obtain ⟨hcs, hb⟩ := ih hs
      exact ⟨congrArg (c :: ·) hcs, hb⟩
    | none =>
      simp only [hs] at h
      split at h
      · next hc =>
        cases h
        exact ⟨congrArg (· :: _) hc, splitLast?_eq_none_iff.1 hs⟩
      · cases h

theorem split_ne_nil (sep : Char) (cs : List Char) : split sep cs ≠ [] := by
  cases cs with
  | nil => simp [split]
  | cons c cs =>
    simp only [split]
    split
    · simp
    · split <;> simp

theorem join_split (sep : Char) (cs : List Char) : join sep (split sep cs) = cs := by
  induction cs with
  | nil => rfl
  | cons c cs ih =>
    simp only [split]
    split
    · next h =>
      subst h
      cases hs : split c cs with
      | nil => exact absurd hs (split_ne_nil c cs)
      | cons p ps => rw [hs] at ih; simp [join, ih]
    · cases hs : split sep cs with
      | nil => exact absurd hs (split_ne_nil sep cs)
      | cons p ps =>
        rw [hs] at ih
        cases ps with
        | nil => simpa [join] using ih
        | cons q qs => simpa [join] using ih

end Inkpress.Text

namespace Inkpress.Text.Path

def dropIdle (reversed : List (List Char)) : List (List Char) :=
  reversed.dropWhile fun s => s = [] ∨ s = ['.']

def fileName? (path : List Char) : Option (List Char) :=
  match dropIdle (split '/' path).reverse with
  | [] => none
  | name :: _ => if name = ['.', '.'] then none else some name

def named? (path : List Char) : Option (List Char) :=
  match dropIdle (split '/' path).reverse with
  | [] => none
  | name :: above => if name = ['.', '.'] then none else some (join '/' (name :: above).reverse)

/-- A file name around its last dot; a dot in front of everything else divides nothing. -/
def divide (name : List Char) : List Char × Option (List Char) :=
  match splitLast? '.' name with
  | some (stem@(_ :: _), ext) => (stem, some ext)
  | _ => (name, none)

def stem? (path : List Char) : Option (List Char) :=
  (fileName? path).map fun name => (divide name).1

def extension? (path : List Char) : Option (List Char) :=
  fileName? path >>= fun name => (divide name).2

end Inkpress.Text.Path
