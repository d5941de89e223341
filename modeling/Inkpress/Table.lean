namespace Inkpress

namespace Assoc

variable {κ α : Type} [DecidableEq κ]

/-- Changes the value under a key of a list of entries, or adds one at the end. -/
def alter (key : κ) (f : Option α → α) : List (κ × α) → List (κ × α)
  | [] => [(key, f none)]
  | e :: es => if e.1 = key then (key, f (some e.2)) :: es else e :: alter key f es

def put (key : κ) (value : α) : List (κ × α) → List (κ × α) :=
  alter key fun _ => value

theorem find?_alter (key : κ) (f : Option α → α) (es : List (κ × α)) (k : κ) :
    ((alter key f es).find? (·.1 = k)).map (·.2) =
      if k = key then some (f ((es.find? (·.1 = key)).map (·.2)))
      else (es.find? (·.1 = k)).map (·.2) := by
  induction es with
  | nil =>
      by_cases hk : k = key
      · simp [alter, hk]
      · simp [alter, hk, Ne.symm hk]
  | cons e es ih =>
      by_cases he : e.1 = key
      · by_cases hk : k = key
        · simp [alter, he, hk]
        · simp [alter, he, hk, Ne.symm hk]
      · by_cases hk : e.1 = k
        · have hne : k ≠ key := fun h => he (hk.trans h)
          simp [alter, hk, hne]
        · simpa [alter, he, hk] using ih

end Assoc

/-- A finite table from text, in the order of first insertions; of two insertions under one key the later
counts. -/
structure Table (α : Type) where
  entries : List (String × α)
  deriving Repr

namespace Table

variable {α : Type}

def empty : Table α := ⟨[]⟩

def insert (t : Table α) (key : String) (value : α) : Table α :=
  ⟨Assoc.put key value t.entries⟩

def find? (t : Table α) (key : String) : Option α :=
  (t.entries.find? (·.1 = key)).map (·.2)

def values (t : Table α) : List α :=
  t.entries.map (·.2)

@[simp] theorem find?_empty (key : String) : (empty : Table α).find? key = none := rfl

theorem find?_insert (t : Table α) (key : String) (value : α) (k : String) :
    (t.insert key value).find? k = if k = key then some value else t.find? k :=
  Assoc.find?_alter key (fun _ => value) t.entries k

end Table

end Inkpress
