import Inkpress.Proofs.Store.Sound
import Inkpress.Store.Database

namespace Inkpress.Store

open Document (Part ImageMap)

inductive Operation
  | store (readFile : String → Option ByteArray) (now : Moment) (post : NewPost)
      (parts : List Part) (images : ImageMap)
  | deletePost (title : String)
  | deleteBlock (id : Int)
  | deleteImage (id : Int)
  | createAll

inductive Answer
  | stored (s : Stored)
  | found (b : Bool)
  | done
  deriving Repr, DecidableEq

namespace Operation

def run (p : Pool) : Operation → Except Error Answer × Pool
  | store readFile now post parts images =>
    let (r, p) := p.store readFile now post parts images
    (r.map .stored, p)
  | deletePost title =>
    let (r, p) := p.deletePost title
    (r.map .found, p)
  | deleteBlock id =>
    let (r, p) := p.deleteBlock id
    (r.map .found, p)
  | deleteImage id =>
    let (r, p) := p.deleteImage id
    (r.map .found, p)
  | createAll =>
    let (r, p) := p.write (·.createAll)
    (r.map fun _ => .done, p)

def runAll (p : Pool) (ops : List Operation) : Pool :=
  ops.foldl (fun p op => (op.run p).2) p

end Operation

inductive RowChange
  | insertPost (title : String) (author : Option String) (published modified : Moment)
  | updatePost (id : Int) (title : Option String) (author : Option (Option String))
      (modified : Moment)
  | insertBlock (post : Int) (kindName : String) (content : Option String) (sequence : Int)
  | insertImage (image : Tables.NewImage)

namespace RowChange

def apply (t : Tables) : RowChange → Except Violation (Unit × Tables)
  | insertPost title author published modified =>
    (t.insertPost title author published modified).map fun (_, t) => ((), t)
  | updatePost id title author modified =>
    (t.updatePost id title author modified).map fun (_, t) => ((), t)
  | insertBlock post kindName content sequence =>
    (t.insertBlock post kindName content sequence).map fun (_, t) => ((), t)
  | insertImage image => (t.insertImage image).map fun (_, t) => ((), t)

def run (p : Pool) (c : RowChange) : Except Error Unit × Pool :=
  p.change fun t => (c.apply t).mapError ofViolation

end RowChange

/-- The states that a store can get into. What a replica holds is not ours to say. -/
inductive Reachable : Pool → Prop
  | fresh : Reachable ⟨.fresh, none⟩
  | bare : Reachable ⟨.bare, none⟩
  | operation {p : Pool} (h : Reachable p) (op : Operation) : Reachable (op.run p).2
  | rowChange {p : Pool} (h : Reachable p) (c : RowChange) : Reachable (c.run p).2
  | dropAll {p : Pool} (h : Reachable p) : Reachable (p.write (·.dropAll)).2
  | close {p : Pool} (h : Reachable p) : Reachable { p with primary.closed := true }
  | replicate {p : Pool} (h : Reachable p) (r : Option Database) : Reachable { p with replica := r }

def Database.Sound (d : Database) : Prop :=
  ∀ t, d.tables = some t → t.Sound

namespace Database

variable {d : Database}

theorem tables_of_reach {t : Tables} (h : d.reach = .ok t) : d.tables = some t ∧ d.closed = false := by
  simp only [reach] at h
  split at h
  · cases h
  · next hopen =>
      split at h
      · cases h
      · next ht =>
          cases h
          exact ⟨ht, by simpa using hopen⟩

theorem reach_write {t : Tables} (h : d.reach = .ok t) (u : Tables) :
    reach { d with tables := some u } = .ok u := by
  simp only [reach, (tables_of_reach h).2, Bool.false_eq_true, if_false]

theorem Sound.change (h : d.Sound) {α : Type} {f : Tables → Except Error (α × Tables)}
    (hf : ∀ t a u, t.Sound → f t = .ok (a, u) → u.Sound) : (d.change f).2.Sound := by
  simp only [Database.change]
  split
  · exact h
  · next t ht =>
      split
      · exact h
      · next a u hu =>
          intro v hv
          obtain rfl : u = v := by simpa using hv
          exact hf t a u (h t (tables_of_reach ht).1) hu

theorem Sound.changeOk (h : d.Sound) {α : Type} {g : Tables → α × Tables}
    (hg : ∀ t, t.Sound → (g t).2.Sound) : (d.change fun t => .ok (g t)).2.Sound := by
  refine h.change fun t a u ht hu => ?_
  rw [Except.ok.injEq] at hu
  simpa only [hu] using hg t ht

theorem Sound.createAll (h : d.Sound) : d.createAll.2.Sound := by
  simp only [Database.createAll]
  split
  · exact h
  · intro t ht
    cases hd : d.tables with
    | none =>
        obtain rfl : Tables.empty = t := by simpa [hd] using ht
        exact Tables.sound_empty
    | some u =>
        obtain rfl : u = t := by simpa [hd] using ht
        exact h u hd

theorem Sound.dropAll (h : d.Sound) : d.dropAll.2.Sound := by
  simp only [Database.dropAll]
  split
  · exact h
  · intro t ht
    cases ht

end Database

theorem Operation.run_sound {p : Pool} (h : p.primary.Sound) (op : Operation) :
    (op.run p).2.primary.Sound := by
  cases op with
  | store readFile now post parts images =>
      simp only [run, Pool.store]
      split
      · exact h.change fun t a u ht hu => ht.storePost hu
      · exact h
  | deletePost title =>
      exact Database.Sound.changeOk (g := (·.deletePost title)) h fun t ht => ht.deletePost title
  | deleteBlock id =>
      exact Database.Sound.changeOk (g := (·.deleteBlock id)) h fun t ht => ht.deleteBlock id
  | deleteImage id =>
      exact Database.Sound.changeOk (g := (·.deleteImage id)) h fun t ht => ht.deleteImage id
  | createAll => exact h.createAll

theorem RowChange.apply_sound {t u : Tables} (h : t.Sound) (c : RowChange)
    (hu : c.apply t = .ok ((), u)) : u.Sound := by
  cases c with
  | insertPost title author published modified =>
      obtain ⟨⟨p, t'⟩, hp, hu⟩ := ok_of_map hu
      cases hu
      exact h.insertPost hp
  | updatePost id title author modified =>
      obtain ⟨⟨p, t'⟩, hp, hu⟩ := ok_of_map hu
      cases hu
      exact h.updatePost hp
  | insertBlock post kindName content sequence =>
      obtain ⟨⟨p, t'⟩, hp, hu⟩ := ok_of_map hu
      cases hu
      exact h.insertBlock hp
  | insertImage image =>
      obtain ⟨⟨p, t'⟩, hp, hu⟩ := ok_of_map hu
      cases hu
      exact h.insertImage hp

/-- The constraints hold in every state that a store can get into. -/
theorem Reachable.sound {p : Pool} (h : Reachable p) : p.primary.Sound := by
  induction h with
  | fresh =>
      intro t ht
      cases ht
      exact Tables.sound_empty
  | bare =>
      intro t ht
      cases ht
  | operation _ op ih => exact op.run_sound ih
  | rowChange _ c ih =>
      exact ih.change fun t a u ht hu => c.apply_sound ht (ok_of_mapError hu)
  | dropAll _ ih => exact ih.dropAll
  | close _ ih => exact ih
  | replicate _ _ ih => exact ih

end Inkpress.Store
