import Inkpress.Table
import Mathlib.Data.List.Induction
import Mathlib.Data.List.Nodup

namespace Inkpress

namespace Assoc

variable {κ α : Type} [DecidableEq κ] {key other k : κ} {f g : Option α → α} {es : List (κ × α)}

theorem alter_of_notMem (h : key ∉ es.map (·.1)) : alter key f es = es ++ [(key, f none)] := by
  induction es with
  | nil => rfl
  | cons e es ih =>
      rw [List.map_cons, List.mem_cons, not_or] at h
      rw [alter, if_neg (Ne.symm h.1), ih h.2, List.cons_append]

theorem keys_alter_of_mem (h : key ∈ es.map (·.1)) : (alter key f es).map (·.1) = es.map (·.1) := by
  induction es with
  | nil => cases h
  | cons e es ih =>
      by_cases he : e.1 = key
      · rw [alter, if_pos he, List.map_cons, List.map_cons, he]
      · rw [alter, if_neg he, List.map_cons, List.map_cons, ih (List.mem_of_ne_of_mem (Ne.symm he) h)]

theorem mem_keys_alter : k ∈ (alter key f es).map (·.1) ↔ k = key ∨ k ∈ es.map (·.1) := by
  by_cases h : key ∈ es.map (·.1)
  · rw [keys_alter_of_mem h]
    refine ⟨.inr, ?_⟩
    rintro (rfl | hk)
    · exact h
    · exact hk
  · rw [alter_of_notMem h, List.map_append, List.mem_append, List.map_singleton, List.mem_singleton, or_comm]

theorem nodup_keys_alter (h : (es.map (·.1)).Nodup) : ((alter key f es).map (·.1)).Nodup := by
  by_cases hkey : key ∈ es.map (·.1)
  · rwa [keys_alter_of_mem hkey]
  · rw [alter_of_notMem hkey, List.map_append]
    exact List.nodup_append_comm.1 (List.nodup_cons.2 ⟨hkey, h⟩)

theorem alter_alter : alter key g (alter key f es) = alter key (fun o => g (some (f o))) es := by
  induction es with
  | nil => simp [alter]
  | cons e es ih =>
      by_cases he : e.1 = key
      · simp [alter, he]
      · simp [alter, he, ih]

theorem alter_congr (h : f ((es.find? (·.1 = key)).map (·.2)) = g ((es.find? (·.1 = key)).map (·.2))) :
    alter key f es = alter key g es := by
  induction es with
  | nil => simpa [alter] using h
  | cons e es ih =>
      by_cases he : e.1 = key
      · simpa [alter, he] using h
      · rw [List.find?_cons_of_neg (by simpa using he)] at h
        simp only [alter, if_neg he, ih h]

/-- Changes under two keys may be made in any order, if one of the keys is there. -/
theorem alter_comm (hne : other ≠ key) (h : (es.find? (·.1 = key)).isSome) :
    alter other g (alter key f es) = alter key f (alter other g es) := by
  induction es with
  | nil => cases h
  | cons e es ih =>
      by_cases he : e.1 = key
      · simp [alter, he, hne.symm]
      · rw [List.find?_cons_of_neg (by simpa using he)] at h
        by_cases ho : e.1 = other
        · simp [alter, ho, hne]
        · simp only [alter, if_neg he, if_neg ho, ih h]

end Assoc

namespace Table

variable {α : Type}

def keys (t : Table α) : List String :=
  t.entries.map (·.1)

def insertAll (t : Table α) (es : List (String × α)) : Table α :=
  es.foldl (fun t e => t.insert e.1 e.2) t

def last? (es : List (String × α)) (key : String) : Option α :=
  ((es.filter (·.1 = key)).getLast?).map (·.2)

theorem last?_eq_none_iff {es : List (String × α)} {key : String} :
    last? es key = none ↔ ∀ e ∈ es, e.1 ≠ key := by
  simp only [last?, Option.map_eq_none_iff, List.getLast?_eq_none_iff, List.filter_eq_nil_iff,
    decide_eq_true_eq, ne_eq]

theorem mem_of_last? {es : List (String × α)} {key : String} {a : α} (h : last? es key = some a) :
    (key, a) ∈ es := by
  obtain ⟨e, he, rfl⟩ := Option.map_eq_some_iff.1 h
  obtain ⟨hmem, hkey⟩ := List.mem_filter.1 (List.mem_of_getLast? he)
  obtain rfl := of_decide_eq_true hkey
  exact hmem

theorem last?_concat (es : List (String × α)) (e : String × α) (key : String) :
    last? (es ++ [e]) key = if e.1 = key then some e.2 else last? es key := by
  rw [last?, List.filter_append]
  by_cases he : e.1 = key
  · rw [List.filter_cons_of_pos (by simpa using he), List.filter_nil, List.getLast?_concat, if_pos he]
    rfl
  · rw [List.filter_cons_of_neg (by simpa using he), List.filter_nil, List.append_nil, if_neg he, last?]

theorem last?_append (es es' : List (String × α)) (key : String) :
    last? (es ++ es') key = (last? es' key).or (last? es key) := by
  induction es' using List.reverseRecOn with
  | nil => rw [List.append_nil]; rfl
  | append_singleton es' e ih =>
      rw [← List.append_assoc, last?_concat, last?_concat, ih]
      split <;> rfl

theorem last?_singleton (e : String × α) (key : String) :
    last? [e] key = if e.1 = key then some e.2 else none :=
  last?_concat [] e key

theorem last?_cons (e : String × α) (es : List (String × α)) (key : String) :
    last? (e :: es) key = (last? es key).or (if e.1 = key then some e.2 else none) := by
  rw [← List.singleton_append, last?_append, last?_singleton]

theorem insertAll_concat (t : Table α) (es : List (String × α)) (e : String × α) :
    t.insertAll (es ++ [e]) = (t.insertAll es).insert e.1 e.2 :=
  List.foldl_concat _ _ _ _

theorem insertAll_append (t : Table α) (es es' : List (String × α)) :
    t.insertAll (es ++ es') = (t.insertAll es).insertAll es' :=
  List.foldl_append

theorem find?_insertAll (t : Table α) (es : List (String × α)) (key : String) :
    (t.insertAll es).find? key = (last? es key).or (t.find? key) := by
  induction es using List.reverseRecOn with
  | nil => rfl
  | append_singleton es e ih =>
      rw [insertAll_concat, find?_insert, ih, last?_concat]
      by_cases he : e.1 = key
      · rw [if_pos he, if_pos he.symm, Option.some_or]
      · rw [if_neg he, if_neg (Ne.symm he)]

theorem insert_of_find?_eq_none {t : Table α} {key : String} (h : t.find? key = none) (value : α) :
    t.insert key value = ⟨t.entries ++ [(key, value)]⟩ := by
  have hkey : key ∉ t.entries.map (·.1) := by
    intro hmem
    obtain ⟨e, he, rfl⟩ := List.mem_map.1 hmem
    exact List.find?_eq_none.1 (Option.map_eq_none_iff.1 h) e he (decide_eq_true rfl)
  rw [insert, Assoc.put, Assoc.alter_of_notMem hkey]

theorem mem_keys_insert {t : Table α} {key k : String} {value : α} :
    k ∈ (t.insert key value).keys ↔ k = key ∨ k ∈ t.keys :=
  Assoc.mem_keys_alter

theorem nodup_keys_insert {t : Table α} (h : t.keys.Nodup) (key : String) (value : α) :
    (t.insert key value).keys.Nodup :=
  Assoc.nodup_keys_alter h

theorem mem_keys_insertAll {t : Table α} {es : List (String × α)} {k : String} :
    k ∈ (t.insertAll es).keys ↔ k ∈ es.map (·.1) ∨ k ∈ t.keys := by
  induction es using List.reverseRecOn with
  | nil => simp [insertAll]
  | append_singleton es e ih =>
      rw [insertAll_concat, mem_keys_insert, ih, List.map_append, List.mem_append]
      simp only [List.map_cons, List.map_nil, List.mem_singleton]
      tauto

theorem nodup_keys_insertAll {t : Table α} (h : t.keys.Nodup) (es : List (String × α)) :
    (t.insertAll es).keys.Nodup := by
  induction es using List.reverseRecOn with
  | nil => exact h
  | append_singleton es e ih =>
      rw [insertAll_concat]
      exact nodup_keys_insert ih _ _

end Table

end Inkpress
