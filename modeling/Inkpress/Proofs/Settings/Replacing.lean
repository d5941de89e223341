import Inkpress.Proofs.Settings.Reading

namespace Inkpress.Settings

open Value (sect)

namespace Value

variable {key other : String} {f g : Option Value → Value} {es : List (String × Value)} {v : Value}

theorem atKey_of_lowerAscii (h : Text.lowerAscii other = Text.lowerAscii key) (f : Option Value → Value)
    (v : Value) : v.atKey other f = v.atKey key f := by
  cases v <;> simp only [atKey, h]

theorem member?_atKey_of_ne {k : String} (h : k ≠ Text.lowerAscii key) (f : Option Value → Value)
    (v : Value) : (v.atKey key f).member? k = v.member? k := by
  cases v with
  | sect es => exact (Assoc.find?_alter _ f es k).trans (if_neg h)
  | null | bool | integer | number | text | list => exact (Assoc.find?_alter _ f [] k).trans (if_neg h)

theorem atKey_congr (hkey : Text.lowerAscii key = key) (h : (v.member? key).isSome)
    (hfg : f (v.member? key) = g (v.member? key)) : v.atKey key f = v.atKey key g := by
  cases v with
  | sect es =>
      simp only [atKey, hkey]
      exact congrArg sect (Assoc.alter_congr hfg)
  | null | bool | integer | number | text | list => cases h

theorem atKey_comm (hkey : Text.lowerAscii key = key) (hne : Text.lowerAscii other ≠ key)
    (h : (v.member? key).isSome) : (v.atKey key f).atKey other g = (v.atKey other g).atKey key f := by
  cases v with
  | sect es =>
      simp only [atKey, hkey]
      refine congrArg sect (Assoc.alter_comm hne ?_)
      rwa [member?, Option.isSome_map] at h
  | null | bool | integer | number | text | list => cases h

variable {k : Key}

theorem exists_fields (h : (v.setting? k).isSome) :
    ∃ fields, v.member? k.sectionName = some (sect fields) ∧ ((sect fields).member? k.field).isSome := by
  obtain ⟨w, hw⟩ := Option.isSome_iff_exists.1 h
  obtain ⟨s, hs, hfield⟩ := Option.bind_eq_some_iff.1 hw
  cases s with
  | sect fields => exact ⟨fields, hs, Option.isSome_iff_exists.2 ⟨w, hfield⟩⟩
  | null | bool | integer | number | text | list => cases hfield

theorem set_set (v : Value) (k : Key) (u w : Value) : (v.set k u).set k w = v.set k w := by
  rw [set, set, set, atKey_atKey]
  congr 1
  funext o
  exact atKey_atKey _

end Value

/-- Whether a path leads past a setting: neither to it or into it, nor to its section as a whole or to a
place of that. -/
def Key.isPassedBy (k : Key) : List Step → Bool
  | .key a :: .key b :: _ => Text.lowerAscii a ≠ k.sectionName || Text.lowerAscii b ≠ k.field
  | .key a :: _ => Text.lowerAscii a ≠ k.sectionName
  | _ => false

theorem Key.isPassedBy_cases {k : Key} {path : List Step} (h : k.isPassedBy path) :
    (∃ a rest, path = .key a :: rest ∧ Text.lowerAscii a ≠ k.sectionName) ∨
      ∃ a b rest, path = .key a :: .key b :: rest ∧ Text.lowerAscii a = k.sectionName ∧
        Text.lowerAscii b ≠ k.field := by
  revert h
  fun_cases Key.isPassedBy k path with
  | case1 a b rest =>
      intro h
      by_cases ha : Text.lowerAscii a = k.sectionName
      · exact .inr ⟨a, b, rest, rfl, ha, by simpa [ha] using h⟩
      · exact .inl ⟨a, .key b :: rest, rfl, ha⟩
  | case2 a rest => exact fun h => .inl ⟨a, rest, rfl, of_decide_eq_true h⟩
  | case3 => exact fun h => Bool.noConfusion h

theorem Key.isPassedBy_name {j k : Key} (h : j ≠ k) : k.isPassedBy (KeyPath.ofName j.name) := by
  simp only [j.ofName_name, isPassedBy, j.lowerAscii_sectionName, j.lowerAscii_field, Bool.or_eq_true,
    decide_eq_true_eq]
  by_contra hsame
  obtain ⟨hsection, hfield⟩ := not_or.1 hsame
  exact h (name_injective (by rw [name, name, not_not.1 hsection, not_not.1 hfield]))

namespace Value

variable {k : Key} {u v w : Value} {path : List Step}

theorem exists_write_eq (u : Value) (a : String) (rest : List Step) :
    ∃ f, ∀ v : Value, u.write (.key a :: rest) v = v.atKey a f := by
  cases rest with
  | nil => exact ⟨u.merge, fun v => rfl⟩
  | cons step rest => exact ⟨fun o => u.write (step :: rest) (o.getD null), fun v => rfl⟩

theorem setting?_atKey_of_ne {a : String} (ha : Text.lowerAscii a ≠ k.sectionName)
    (f : Option Value → Value) (v : Value) : (v.atKey a f).setting? k = v.setting? k := by
  rw [setting?, member?_atKey_of_ne ha.symm, setting?]

theorem setting?_write_of_isPassedBy (h : k.isPassedBy path) (hv : (v.setting? k).isSome) (u : Value) :
    (u.write path v).setting? k = v.setting? k := by
  rcases Key.isPassedBy_cases h with ⟨a, rest, rfl, ha⟩ | ⟨a, b, rest, rfl, ha, hb⟩
  · obtain ⟨f, hf⟩ := exists_write_eq u a rest
    rw [hf, setting?_atKey_of_ne ha]
  · obtain ⟨f, hf⟩ := exists_write_eq u b rest
    obtain ⟨fields, hfields, -⟩ := exists_fields hv
    have hwrite : u.write (.key a :: .key b :: rest) v =
        v.atKey k.sectionName fun o => (o.getD null).atKey b f := by
      rw [← atKey_of_lowerAscii (ha.trans k.lowerAscii_sectionName.symm)]
      simp only [write, hf]
    rw [hwrite, setting?, member?_atKey k.lowerAscii_sectionName, if_pos rfl, hfields, Option.getD_some,
      Option.bind_some, member?_atKey_of_ne hb.symm, setting?, hfields, Option.bind_some]

/-- What is written past a setting is the same whatever its value is. -/
theorem write_set (h : k.isPassedBy path) (hv : (v.setting? k).isSome) (u w : Value) :
    u.write path (v.set k w) = (u.write path v).set k w := by
  obtain ⟨fields, hfields, hfield⟩ := exists_fields hv
  have hsection : (v.member? k.sectionName).isSome := by rw [hfields]; rfl
  rcases Key.isPassedBy_cases h with ⟨a, rest, rfl, ha⟩ | ⟨a, b, rest, rfl, ha, hb⟩
  · obtain ⟨f, hf⟩ := exists_write_eq u a rest
    rw [hf, hf, set, set, atKey_comm k.lowerAscii_sectionName ha hsection]
  · obtain ⟨f, hf⟩ := exists_write_eq u b rest
    have hwrite (v : Value) : u.write (.key a :: .key b :: rest) v =
        v.atKey k.sectionName fun o => (o.getD null).atKey b f := by
      rw [← atKey_of_lowerAscii (ha.trans k.lowerAscii_sectionName.symm)]
      simp only [write, hf]
    -- Both writes are to the section, where they are to different keys.
    rw [hwrite, hwrite, set, set, atKey_atKey, atKey_atKey]
    refine atKey_congr k.lowerAscii_sectionName hsection ?_
    rw [hfields, Option.getD_some, Option.getD_some, Option.getD_some]
    exact atKey_comm k.lowerAscii_field hb hfield

end Value

def Passes (k : Key) (layer : Layer) : Prop :=
  ∀ e ∈ layer, k.isPassedBy (KeyPath.ofName e.1)

variable {k : Key} {v w : Value} {layer : Layer}

theorem writeLayer_set (h : Passes k layer) (hv : (v.setting? k).isSome) (w : Value) :
    writeLayer (v.set k w) layer = (writeLayer v layer).set k w := by
  induction layer generalizing v with
  | nil => rfl
  | cons e es ih =>
      obtain ⟨he, hes⟩ := List.forall_mem_cons.1 h
      have hwrite := Value.setting?_write_of_isPassedBy he hv e.2
      rw [writeLayer, List.foldl_cons, ← writeLayer, Value.write_set he hv, ih hes (hwrite ▸ hv)]
      rfl

def Server.withText (s : Server) (t : String) : Key → Server
  | .host => { s with host := t }
  | .allowedOrigin => { s with allowedOrigin := t }
  | _ => s

def Database.withText (d : Database) (t : String) : Key → Database
  | .url => { d with url := t }
  | .readUrl => { d with readUrl := some t }
  | _ => d

def Ingestion.withText (i : Ingestion) (t : String) : Key → Ingestion
  | .imagesDir => { i with imagesDir := some t }
  | .defaultAuthor => { i with defaultAuthor := t }
  | _ => i

def Observability.withText (o : Observability) (t : String) : Key → Observability
  | .logLevel => { o with logLevel := t }
  | .serviceName => { o with serviceName := t }
  | _ => o

def withText (s : Settings) (k : Key) (t : String) : Settings :=
  ⟨s.server.withText t k, s.database.withText t k, s.ingestion.withText t k,
    s.observability.withText t k⟩

theorem get?_withText {k : Key} (hk : k.kind = .text) (s : Settings) (t : String) (j : Key) :
    (s.withText k t).get? j = if j = k then some (.text t) else s.get? j := by
  cases k <;> first | exact absurd hk (by decide) | (cases j <;> rfl)

section

variable {ε α β γ : Type} {x : Except ε α}

theorem ok_bind (a : α) (f : α → Except ε β) : (Except.ok a >>= f) = f a := rfl

theorem bind_eq_map {f : α → Except ε β} {g : α → Except ε γ} {φ : γ → β} (h : ∀ a, f a = (g a).map φ) :
    (x >>= f) = (x >>= g).map φ := by
  cases x with
  | error e => rfl
  | ok a => exact h a

theorem map_bind_eq_map {ψ : α → α} {f : Option α → Except ε β} {g : Option α → Except ε γ} {φ : γ → β}
    (h : ∀ a, f (some (ψ a)) = (g (some a)).map φ) :
    ((x.map ψ).map some >>= f) = (x.map some >>= g).map φ := by
  cases x with
  | error e => rfl
  | ok a => exact h a

end

variable {fields fields' : List (String × Value)} {sectionName : String} {t t' : String}

/-- A text of a section and another one in its place: all other fields are read alike. -/
structure Rewritten (sectionName : String) (k : Key) (t t' : String)
    (fields fields' : List (String × Value)) : Prop where
  others : ∀ {α : Type} name place (conv : Value → Option α), name ≠ k.field →
    (Fields.named sectionName fields').read? name place conv =
      (Fields.named sectionName fields).read? name place conv
  before : ∃ w : Value, (sect fields).member? k.field = some w ∧ w.text? = some t
  after : ∃ w : Value, (sect fields').member? k.field = some w ∧ w.text? = some t'

theorem Fields.read?_congr {α : Type} {name : String} (place : Nat) (conv : Value → Option α)
    (h : (sect fields').member? name = (sect fields).member? name) :
    (Fields.named sectionName fields').read? name place conv =
      (Fields.named sectionName fields).read? name place conv := by
  have hfind (es : List (String × Value)) : (Fields.named sectionName es).find? name place =
      ((sect es).member? name).map
        fun v => (v, if sectionName = "" then name else sectionName ++ "." ++ name) := by
    rw [Value.member?, Option.map_map]
    rfl
  rw [read?, read?, hfind, hfind, h]

theorem Fields.read?_of_member? {α : Type} {name : String} {place : Nat} {w : Value} {conv : Value → Option α}
    {a : α} (hw : (sect fields).member? name = some w) (ha : conv w = some a) :
    (Fields.named sectionName fields).read? name place conv = .ok (some a) := by
  obtain ⟨e, he, rfl⟩ := Option.map_eq_some_iff.1 hw
  simp only [read?, find?, he, Option.map_some, ha]

theorem Fields.need_named {α : Type} (es : List (String × Value)) (name : String) (a : Option α) :
    (named sectionName es).need name a = a.elim (.error (.missing name)) .ok := by
  cases a <;> rfl

theorem Fields.optional_named {α : Type} (es : List (String × Value)) (a : Option (Option α)) :
    (named sectionName es).optional a = .ok a.join := by
  cases a <;> rfl

theorem orNull_of_text {w : Value} (h : w.text? = some t) : orNull Value.text? w = some (some t) := by
  rw [orNull_eq (by simp only [Kind.read?, h]; rfl), h]
  rfl

namespace Rewritten

variable (h : Rewritten sectionName k t t' fields fields') (place : Nat)

include h

theorem read?_both {α : Type} {conv : Value → Option α} {f : String → α}
    (hconv : ∀ (w : Value) s, w.text? = some s → conv w = some (f s)) :
    (Fields.named sectionName fields).read? k.field place conv = .ok (some (f t)) ∧
      (Fields.named sectionName fields').read? k.field place conv = .ok (some (f t')) := by
  obtain ⟨w, hw, ht⟩ := h.before
  obtain ⟨w', hw', ht'⟩ := h.after
  exact ⟨Fields.read?_of_member? hw (hconv w t ht), Fields.read?_of_member? hw' (hconv w' t' ht')⟩

theorem read?_text : (Fields.named sectionName fields).read? k.field place Value.text? = .ok (some t) ∧
    (Fields.named sectionName fields').read? k.field place Value.text? = .ok (some t') :=
  h.read?_both place fun _ _ ht => ht

theorem read?_orNull :
    (Fields.named sectionName fields).read? k.field place (orNull Value.text?) = .ok (some (some t)) ∧
      (Fields.named sectionName fields').read? k.field place (orNull Value.text?) =
        .ok (some (some t')) :=
  h.read?_both place fun _ _ ht => orNull_of_text ht

end Rewritten

theorem Server.ofValue_rewritten (h : Rewritten "server" k t t' fields fields')
    (hk : k = .host ∨ k = .allowedOrigin) :
    Server.ofValue (sect fields') = (Server.ofValue (sect fields)).map (·.withText t' k) := by
  have hothers {α : Type} := @h.others α
  rcases hk with rfl | rfl
  · obtain ⟨hbefore, hafter⟩ := h.read?_text 0
    simp only [Key.field] at hbefore hafter hothers
    simp (disch := decide) only [ofValue, Fields.ofValue, ok_bind, hbefore, hafter, hothers]
    exact bind_eq_map fun _ => bind_eq_map fun _ => bind_eq_map fun _ => rfl
  · obtain ⟨hbefore, hafter⟩ := h.read?_text 3
    simp only [Key.field] at hbefore hafter hothers
    simp (disch := decide) only [ofValue, Fields.ofValue, ok_bind, hbefore, hafter, hothers]
    exact bind_eq_map fun _ => bind_eq_map fun _ => bind_eq_map fun _ => rfl

theorem Database.ofValue_rewritten (h : Rewritten "database" k t t' fields fields')
    (hk : k = .url ∨ k = .readUrl) :
    Database.ofValue (sect fields') = (Database.ofValue (sect fields)).map (·.withText t' k) := by
  have hothers {α : Type} := @h.others α
  rcases hk with rfl | rfl
  · obtain ⟨hbefore, hafter⟩ := h.read?_text 0
    simp only [Key.field] at hbefore hafter hothers
    simp (disch := decide) only [ofValue, Fields.ofValue, ok_bind, hbefore, hafter, hothers,
      Fields.need_named, Fields.optional_named]
    exact bind_eq_map fun _ => bind_eq_map fun _ => bind_eq_map fun _ => bind_eq_map fun _ =>
      bind_eq_map fun _ => bind_eq_map fun _ => rfl
  · obtain ⟨hbefore, hafter⟩ := h.read?_orNull 1
    simp only [Key.field] at hbefore hafter hothers
    simp (disch := decide) only [ofValue, Fields.ofValue, ok_bind, hbefore, hafter, hothers,
      Fields.need_named, Fields.optional_named]
    exact bind_eq_map fun _ => bind_eq_map fun _ => bind_eq_map fun _ => bind_eq_map fun _ =>
      bind_eq_map fun _ => bind_eq_map fun _ => bind_eq_map fun _ => rfl

theorem Ingestion.ofValue_rewritten (h : Rewritten "ingestion" k t t' fields fields')
    (hk : k = .imagesDir ∨ k = .defaultAuthor) :
    Ingestion.ofValue (sect fields') = (Ingestion.ofValue (sect fields)).map (·.withText t' k) := by
  have hothers {α : Type} := @h.others α
  rcases hk with rfl | rfl
  · obtain ⟨hbefore, hafter⟩ := h.read?_orNull 0
    simp only [Key.field] at hbefore hafter hothers
    simp (disch := decide) only [ofValue, Fields.ofValue, ok_bind, hbefore, hafter, hothers,
      Fields.optional_named]
    exact bind_eq_map fun _ => rfl
  · obtain ⟨hbefore, hafter⟩ := h.read?_text 1
    simp only [Key.field] at hbefore hafter hothers
    simp (disch := decide) only [ofValue, Fields.ofValue, ok_bind, hbefore, hafter, hothers,
      Fields.optional_named]
    exact bind_eq_map fun _ => rfl

theorem Observability.ofValue_rewritten (h : Rewritten "observability" k t t' fields fields')
    (hk : k = .logLevel ∨ k = .serviceName) :
    Observability.ofValue (sect fields') =
      (Observability.ofValue (sect fields)).map (·.withText t' k) := by
  have hothers {α : Type} := @h.others α
  rcases hk with rfl | rfl
  · obtain ⟨hbefore, hafter⟩ := h.read?_text 0
    simp only [Key.field] at hbefore hafter hothers
    simp (disch := decide) only [ofValue, Fields.ofValue, ok_bind, hbefore, hafter, hothers]
    exact bind_eq_map fun _ => bind_eq_map fun _ => bind_eq_map fun _ => rfl
  · obtain ⟨hbefore, hafter⟩ := h.read?_text 3
    simp only [Key.field] at hbefore hafter hothers
    simp (disch := decide) only [ofValue, Fields.ofValue, ok_bind, hbefore, hafter, hothers]
    exact bind_eq_map fun _ => bind_eq_map fun _ => bind_eq_map fun _ => rfl

section

variable {es es' : List (String × Value)} {w w' : Value}

theorem section?_eq_member? {α : Type} (es : List (String × Value)) (name : String)
    (read : Value → Except Fault α) :
    (section? es name read) =
      ((sect es).member? name).elim (.ok none) fun v => (read v).map some := by
  rw [section?, Value.member?]
  cases es.find? (·.1 = name) <;> rfl

/-- With another text for a setting, the settings are read alike but for it. -/
theorem ofEntries_set (hk : k.kind = .text) (hw : (sect es).setting? k = some w) (ht : w.text? = some t)
    (ht' : w'.text? = some t') (hes' : (sect es).set k w' = sect es') :
    ofEntries es' = (ofEntries es).map (·.withText k t') := by
  obtain ⟨fields, hfields, -⟩ := Value.exists_fields (v := sect es) (k := k) (by rw [hw]; rfl)
  obtain ⟨fields', hfields'⟩ : ∃ fields', (sect fields).atKey k.field (fun _ => w') = sect fields' :=
    ⟨_, rfl⟩
  have hmember (name : String) : (sect es').member? name =
      if name = k.sectionName then some (sect fields') else (sect es).member? name := by
    rw [← hes', Value.set, Value.member?_atKey k.lowerAscii_sectionName, hfields, Option.getD_some, hfields']
  have hrewritten : Rewritten k.sectionName k t t' fields fields' := by
    rw [Value.setting?, hfields, Option.bind_some] at hw
    refine ⟨?_, ⟨w, hw, ht⟩, ⟨w', ?_, ht'⟩⟩
    · intro α name place conv hne
      refine Fields.read?_congr place conv ?_
      rw [← hfields', Value.member?_atKey k.lowerAscii_field, if_neg hne]
    · rw [← hfields', Value.member?_atKey k.lowerAscii_field, if_pos rfl]
  have hsection {α : Type} (read : Value → Except Fault α) :
      (section? es k.sectionName read) = (read (sect fields)).map some ∧
        (section? es' k.sectionName read) = (read (sect fields')).map some := by
    rw [section?_eq_member?, section?_eq_member?, hfields, hmember, if_pos rfl]
    exact ⟨rfl, rfl⟩
  have hothers {α : Type} (name : String) (read : Value → Except Fault α) (hne : name ≠ k.sectionName) :
      (section? es' name read) = section? es name read := by
    rw [section?_eq_member?, section?_eq_member?, hmember, if_neg hne]
  cases k with
  | host | allowedOrigin =>
      simp only [Key.sectionName] at hsection hothers hrewritten
      simp (disch := decide) only [ofEntries, hsection, hothers,
        Server.ofValue_rewritten hrewritten (by decide)]
      refine map_bind_eq_map fun _ => bind_eq_map fun d => bind_eq_map fun _ => bind_eq_map fun _ => ?_
      cases d <;> rfl
  | url | readUrl =>
      simp only [Key.sectionName] at hsection hothers hrewritten
      simp (disch := decide) only [ofEntries, hsection, hothers,
        Database.ofValue_rewritten hrewritten (by decide)]
      exact bind_eq_map fun _ => map_bind_eq_map fun _ => bind_eq_map fun _ => bind_eq_map fun _ => rfl
  | imagesDir | defaultAuthor =>
      simp only [Key.sectionName] at hsection hothers hrewritten
      simp (disch := decide) only [ofEntries, hsection, hothers,
        Ingestion.ofValue_rewritten hrewritten (by decide)]
      refine bind_eq_map fun _ => bind_eq_map fun d => map_bind_eq_map fun _ => bind_eq_map fun _ => ?_
      cases d <;> rfl
  | logLevel | serviceName =>
      simp only [Key.sectionName] at hsection hothers hrewritten
      simp (disch := decide) only [ofEntries, hsection, hothers,
        Observability.ofValue_rewritten hrewritten (by decide)]
      refine bind_eq_map fun _ => bind_eq_map fun d => bind_eq_map fun _ => map_bind_eq_map fun _ => ?_
      cases d <;> rfl
  | _ => cases hk

end

end Inkpress.Settings
