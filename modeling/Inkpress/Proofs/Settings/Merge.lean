import Inkpress.Proofs.Settings.Key
import Inkpress.Proofs.Table

namespace Inkpress.Settings

open Table (last?)

namespace Value

def member? : Value → String → Option Value
  | sect es, key => (es.find? (·.1 = key)).map (·.2)
  | _, _ => none

def IsSect (v : Value) : Prop :=
  ∃ es, v = sect es

section

variable {key : String} {f g : Option Value → Value}

theorem member?_atKey (h : Text.lowerAscii key = key) (f : Option Value → Value) (v : Value)
    (k : String) :
    (v.atKey key f).member? k = if k = key then some (f (v.member? key)) else v.member? k := by
  cases v with
  | sect es =>
      simp only [atKey, h]
      exact Assoc.find?_alter key f es k
  | null | bool | integer | number | text | list =>
      simp only [atKey, h]
      exact Assoc.find?_alter key f [] k

theorem isSect_atKey (v : Value) : (v.atKey key f).IsSect := by
  cases v <;> exact ⟨_, rfl⟩

theorem atKey_atKey (v : Value) :
    (v.atKey key f).atKey key g = v.atKey key fun o => g (some (f o)) := by
  cases v <;> exact congrArg sect Assoc.alter_alter

end

def set (v : Value) (k : Key) (w : Value) : Value :=
  v.atKey k.sectionName fun o => (o.getD null).atKey k.field fun _ => w

def setting? (v : Value) (k : Key) : Option Value :=
  (v.member? k.sectionName).bind (·.member? k.field)

theorem setting?_set (v : Value) (k : Key) (w : Value) (j : Key) :
    (v.set k w).setting? j = if j = k then some w else v.setting? j := by
  rw [setting?, set, member?_atKey k.lowerAscii_sectionName]
  by_cases hs : j.sectionName = k.sectionName
  · rw [if_pos hs, Option.bind_some, member?_atKey k.lowerAscii_field]
    by_cases hf : j.field = k.field
    · have hjk : j = k := Key.name_injective (by rw [Key.name, Key.name, hs, hf])
      rw [if_pos hf, if_pos hjk]
    · have hjk : j ≠ k := fun h => hf (h ▸ rfl)
      rw [if_neg hf, if_neg hjk, setting?, hs]
      cases v.member? k.sectionName <;> rfl
  · have hjk : j ≠ k := fun h => hs (h ▸ rfl)
    rw [if_neg hs, if_neg hjk, setting?]

theorem merge_of_read {kind : Kind} {w : Value} (h : (kind.read? w).isSome) : w.merge = fun _ => w := by
  funext o
  cases w with
  | sect es => rw [kind.read?_sect] at h; cases h
  | null | bool | integer | number | text | list => rw [merge]; exact fun _ he => Value.noConfusion he

theorem write_name {k : Key} {w : Value} (h : (k.kind.read? w).isSome) (v : Value) :
    w.write (KeyPath.ofName k.name) v = v.set k w := by
  rw [k.ofName_name, set]
  simp only [write, merge_of_read h]

theorem merge_sect (fields : List (String × Value)) :
    (sect fields).merge = fun o => mergeEntries fields (o.getD empty) := by
  funext o
  rw [merge]

def settingsOf : String × Value → List (String × Value)
  | (name, sect fields) => fields.map fun e => (name ++ "." ++ e.1, e.2)
  | e => [e]

/-- The entries of layers that set settings: one by its full name, or some of a section. -/
inductive WellTyped : String × Value → Prop
  | one (k : Key) (w : Value) (h : (k.kind.read? w).isSome) : WellTyped (k.name, w)
  | many (k : Key) (fields : List (String × Value))
      (h : ∀ e ∈ fields, ∃ j : Key, j.sectionName = k.sectionName ∧ j.field = e.1 ∧
        (j.kind.read? e.2).isSome) : WellTyped (k.sectionName, sect fields)

def isField (sectionName : String) (e : String × Value) : Bool :=
  Key.all.any fun j => j.sectionName = sectionName && j.field = e.1 && (j.kind.read? e.2).isSome

theorem isField_iff {sectionName : String} {e : String × Value} : isField sectionName e ↔
    ∃ j : Key, j.sectionName = sectionName ∧ j.field = e.1 ∧ (j.kind.read? e.2).isSome := by
  simp only [isField, List.any_eq_true, Bool.and_eq_true, decide_eq_true_eq, and_assoc]
  constructor
  · rintro ⟨j, -, hj⟩
    exact ⟨j, hj⟩
  · rintro ⟨j, hj⟩
    exact ⟨j, j.mem_all, hj⟩

def isWellTyped : String × Value → Bool
  | (name, sect fields) => Key.all.any fun k => k.sectionName = name && fields.all (isField name)
  | (name, w) => Key.all.any fun k => k.name = name && (k.kind.read? w).isSome

theorem isWellTyped_iff {e : String × Value} : isWellTyped e ↔ WellTyped e := by
  constructor
  · intro h
    obtain ⟨name, w⟩ := e
    cases w with
    | sect fields =>
        obtain ⟨k, -, hk⟩ := List.any_eq_true.1 h
        obtain ⟨hname, hfields⟩ := Bool.and_eq_true_iff.1 hk
        obtain rfl := of_decide_eq_true hname
        exact .many k fields fun e he => isField_iff.1 (List.all_eq_true.1 hfields e he)
    | null | bool | integer | number | text | list =>
        obtain ⟨k, -, hk⟩ := List.any_eq_true.1 h
        obtain ⟨hname, hread⟩ := Bool.and_eq_true_iff.1 hk
        obtain rfl := of_decide_eq_true hname
        exact .one k _ hread
  · intro h
    cases h with
    | one k w h =>
        have hk : (decide (k.name = k.name) && (k.kind.read? w).isSome) = true := by
          rw [decide_eq_true rfl, h]
          rfl
        cases w with
        | sect fields => rw [k.kind.read?_sect] at h; cases h
        | null | bool | integer | number | text | list => exact List.any_eq_true.2 ⟨k, k.mem_all, hk⟩
    | many k fields h =>
        refine List.any_eq_true.2 ⟨k, k.mem_all, Bool.and_eq_true_iff.2 ⟨decide_eq_true rfl, ?_⟩⟩
        exact List.all_eq_true.2 fun e he => isField_iff.2 (h e he)

instance : DecidablePred WellTyped :=
  fun _ => decidable_of_iff _ isWellTyped_iff

theorem setting?_mergeEntries (k : Key) {fields : List (String × Value)}
    (h : ∀ e ∈ fields, ∃ j : Key, j.sectionName = k.sectionName ∧ j.field = e.1 ∧
      (j.kind.read? e.2).isSome) (v : Value) (j : Key) :
    (v.atKey k.sectionName fun o => mergeEntries fields (o.getD empty)).setting? j =
      (last? (settingsOf (k.sectionName, sect fields)) j.name).or (v.setting? j) := by
  induction fields generalizing v with
  | nil =>
      rw [setting?, member?_atKey k.lowerAscii_sectionName, settingsOf, List.map_nil]
      split
      · next hs =>
          rw [setting?, hs]
          cases v.member? k.sectionName <;> rfl
      · rfl
  | cons e es ih =>
      obtain ⟨⟨i, hs, hf, hread⟩, hes⟩ := List.forall_mem_cons.1 h
      have hname : k.sectionName ++ "." ++ e.1 = i.name := by rw [Key.name, hs, hf]
      -- The first field could as well have been written alone, before the others are merged in.
      have hset : (v.atKey k.sectionName fun o => mergeEntries (e :: es) (o.getD empty)) =
          (v.set i e.2).atKey k.sectionName fun o => mergeEntries es (o.getD empty) := by
        rw [set, hs, atKey_atKey]
        congr 1
        funext o
        rw [mergeEntries, merge_of_read hread, hf, Option.getD_some]
        cases o <;> rfl
      rw [hset, ih hes, setting?_set]
      simp only [settingsOf, List.map_cons, Table.last?_cons, hname]
      by_cases hj : j = i
      · rw [if_pos hj, if_pos (hj ▸ rfl), Option.or_assoc, Option.some_or]
      · have hne : i.name ≠ j.name := fun hn => hj (Key.name_injective hn).symm
        rw [if_neg hj, if_neg hne, Option.or_none]

theorem setting?_write {e : String × Value} (h : WellTyped e) (v : Value) (k : Key) :
    (e.2.write (KeyPath.ofName e.1) v).setting? k = (last? (settingsOf e) k.name).or (v.setting? k) := by
  cases h with
  | one j w h =>
      have hself : settingsOf (j.name, w) = [(j.name, w)] := by
        cases w with
        | sect fields => rw [j.kind.read?_sect] at h; cases h
        | null | bool | integer | number | text | list => rfl
      rw [write_name h, setting?_set, hself, Table.last?_singleton]
      by_cases hk : k = j
      · rw [if_pos hk, if_pos (hk ▸ rfl), Option.some_or]
      · have hne : j.name ≠ k.name := fun hn => hk (Key.name_injective hn).symm
        rw [if_neg hk, if_neg hne, Option.none_or]
  | many j fields h =>
      rw [← setting?_mergeEntries j h, j.ofName_sectionName]
      simp only [write, merge_sect]

theorem WellTyped.read {e : String × Value} (h : WellTyped e) {name : String} {w : Value}
    (hw : (name, w) ∈ settingsOf e) : ∃ k : Key, k.name = name ∧ (k.kind.read? w).isSome := by
  cases h with
  | one k v h =>
      cases v with
      | sect fields => rw [k.kind.read?_sect] at h; cases h
      | null | bool | integer | number | text | list =>
          cases List.mem_singleton.1 hw
          exact ⟨k, rfl, h⟩
  | many k fields h =>
      obtain ⟨e, he, heq⟩ := List.mem_map.1 hw
      obtain ⟨j, hs, hf, hread⟩ := h e he
      cases heq
      exact ⟨j, by rw [Key.name, hs, hf], hread⟩

def Sectioned (v : Value) : Prop :=
  v.IsSect ∧ ∀ name w, v.member? name = some w → w.IsSect

theorem sectioned_empty : empty.Sectioned :=
  ⟨⟨[], rfl⟩, fun _ _ h => by cases h⟩

theorem isSect_mergeEntries {es : List (String × Value)} {old : Value} (h : old.IsSect) :
    (mergeEntries es old).IsSect := by
  induction es generalizing old with
  | nil => rwa [mergeEntries]
  | cons e es ih =>
      rw [mergeEntries]
      exact ih (isSect_atKey old)

theorem Sectioned.atKey {v : Value} (hv : v.Sectioned) (k : Key) {f : Option Value → Value}
    (hf : ∀ o, (∀ w, o = some w → w.IsSect) → (f o).IsSect) :
    (v.atKey k.sectionName f).Sectioned := by
  refine ⟨isSect_atKey v, ?_⟩
  intro name w hw
  rw [member?_atKey k.lowerAscii_sectionName] at hw
  split at hw
  · cases hw
    exact hf _ (hv.2 _)
  · exact hv.2 name w hw

theorem Sectioned.write {v : Value} (hv : v.Sectioned) {e : String × Value} (h : WellTyped e) :
    (e.2.write (KeyPath.ofName e.1) v).Sectioned := by
  cases h with
  | one k w h =>
      rw [write_name h]
      exact hv.atKey k fun _ _ => isSect_atKey _
  | many k fields h =>
      rw [k.ofName_sectionName]
      simp only [Value.write, merge_sect]
      refine hv.atKey k fun o ho => isSect_mergeEntries ?_
      cases o with
      | none => exact ⟨[], rfl⟩
      | some w => exact ho w rfl

end Value

open Value (setting? settingsOf WellTyped)

def settingsIn (l : Layer) : List (String × Value) :=
  l.flatMap settingsOf

variable {layer : Layer} {layers : List Layer}

theorem setting?_writeLayer (h : ∀ e ∈ layer, WellTyped e) (v : Value) (k : Key) :
    (writeLayer v layer).setting? k = (last? (settingsIn layer) k.name).or (v.setting? k) := by
  induction layer generalizing v with
  | nil => rfl
  | cons e es ih =>
      obtain ⟨he, hes⟩ := List.forall_mem_cons.1 h
      rw [writeLayer, List.foldl_cons, ← writeLayer, ih hes, Value.setting?_write he, settingsIn,
        settingsIn, List.flatMap_cons, Table.last?_append, Option.or_assoc]

theorem setting?_foldl (h : ∀ l ∈ layers, ∀ e ∈ l, WellTyped e) (v : Value) (k : Key) :
    (layers.foldl writeLayer v).setting? k =
      (last? (layers.flatMap settingsIn) k.name).or (v.setting? k) := by
  induction layers generalizing v with
  | nil => rfl
  | cons l ls ih =>
      obtain ⟨hl, hls⟩ := List.forall_mem_cons.1 h
      rw [List.foldl_cons, ih hls, setting?_writeLayer hl, List.flatMap_cons, Table.last?_append,
        Option.or_assoc]

theorem sectioned_foldl (h : ∀ l ∈ layers, ∀ e ∈ l, WellTyped e) {v : Value} (hv : v.Sectioned) :
    (layers.foldl writeLayer v).Sectioned := by
  have hlayer (l : Layer) (hl : ∀ e ∈ l, WellTyped e) (v : Value) (hv : v.Sectioned) :
      (writeLayer v l).Sectioned := by
    induction l generalizing v with
    | nil => exact hv
    | cons e es ih =>
        obtain ⟨he, hes⟩ := List.forall_mem_cons.1 hl
        exact ih hes _ (hv.write he)
  induction layers generalizing v with
  | nil => exact hv
  | cons l ls ih =>
      obtain ⟨hl, hls⟩ := List.forall_mem_cons.1 h
      exact ih hls (hlayer l hl v hv)

/-- Layers leave sections, and in them for each setting the last value that it was given. -/
theorem combine_spec (h : ∀ l ∈ layers, ∀ e ∈ l, WellTyped e) :
    (Value.sect (combine layers)).Sectioned ∧
      ∀ k, (Value.sect (combine layers)).setting? k = last? (layers.flatMap settingsIn) k.name := by
  have hsectioned := sectioned_foldl h Value.sectioned_empty
  obtain ⟨es, hes⟩ := hsectioned.1
  have hcombine : Value.sect (combine layers) = layers.foldl writeLayer .empty := by
    rw [combine, hes]
  rw [hcombine]
  refine ⟨hsectioned, ?_⟩
  intro k
  rw [setting?_foldl h]
  exact Option.or_none

theorem read_of_last? (h : ∀ l ∈ layers, ∀ e ∈ l, WellTyped e) {k : Key} {w : Value}
    (hw : last? (layers.flatMap settingsIn) k.name = some w) : (k.kind.read? w).isSome := by
  obtain ⟨l, hl, hmem⟩ := List.mem_flatMap.1 (Table.mem_of_last? hw)
  obtain ⟨e, he, hmem⟩ := List.mem_flatMap.1 hmem
  obtain ⟨j, hj, hread⟩ := (h l hl e he).read hmem
  rwa [← Key.name_injective hj]

end Inkpress.Settings
