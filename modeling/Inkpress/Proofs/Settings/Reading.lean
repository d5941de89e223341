import Inkpress.Proofs.Settings.Merge

namespace Inkpress.Settings

open Value (sect)

def Readable (sectionName : String) (fields : List (String × Value)) : Prop :=
  ∀ k : Key, k.sectionName = sectionName → ∀ w, (sect fields).member? k.field = some w →
    (k.kind.read? w).isSome

def IsRead (s : Settings) (fields : List (String × Value)) (k : Key) : Prop :=
  s.get? k = (((sect fields).member? k.field).bind k.kind.read?).or (default.get? k)

section

variable {α : Type} {sectionName : String} {fields : List (String × Value)}

def readField (fields : List (String × Value)) (name : String) (conv : Value → Option α) : Option α :=
  ((sect fields).member? name).bind conv

theorem Readable.read? (h : Readable sectionName fields) (k : Key) (hk : k.sectionName = sectionName)
    (place : Nat) (conv : Value → Option α) (hconv : ∀ w, (k.kind.read? w).isSome → (conv w).isSome) :
    (Fields.named sectionName fields).read? k.field place conv =
      .ok (readField fields k.field conv) := by
  have hread := h k hk
  simp only [readField, Value.member?] at hread ⊢
  simp only [Fields.read?, Fields.find?]
  cases hfield : fields.find? (·.1 = k.field) with
  | none => rfl
  | some e =>
      obtain ⟨a, ha⟩ := Option.isSome_iff_exists.1 (hconv e.2 (hread e.2 (by rw [hfield]; rfl)))
      simp only [Option.map_some, ha, Option.bind_some]

theorem orNull_eq {w : Value} (h : (Kind.text.read? w).isSome) :
    orNull Value.text? w = w.text?.map some := by
  cases w with
  | null => cases h
  | bool | integer | number | text | list | sect => rfl

theorem Readable.optional (h : Readable sectionName fields) (k : Key) (hk : k.sectionName = sectionName)
    (hkind : k.kind = .text) (place : Nat) :
    ∃ o, (Fields.named sectionName fields).read? k.field place (orNull Value.text?) = .ok o ∧
      (Fields.named sectionName fields).optional o = .ok (readField fields k.field Value.text?) := by
  refine ⟨_, h.read? k hk place (orNull Value.text?) ?_, ?_⟩
  · intro w hw
    rw [hkind] at hw
    rw [orNull_eq hw, Option.isSome_map]
    simpa only [Kind.read?, Option.isSome_map] using hw
  · rw [readField, readField]
    cases hfield : (sect fields).member? k.field with
    | none => rfl
    | some w =>
        have hread := h k hk w hfield
        rw [hkind] at hread
        rw [Option.bind_some, Option.bind_some, orNull_eq hread]
        cases w.text? <;> rfl

theorem readField_map (fields : List (String × Value)) (name : String) (conv : Value → Option α)
    (f : α → Scalar) :
    (readField fields name fun v => (conv v).map f) = (readField fields name conv).map f := by
  rw [readField, readField, Option.map_bind]
  rfl

theorem some_readField (name : String) (conv : Value → Option α) (f : α → Scalar) (d : α) :
    some (f ((readField fields name conv).getD d)) =
      (readField fields name fun v => (conv v).map f).or (some (f d)) := by
  rw [readField_map]
  cases readField fields name conv <;> rfl

theorem map_readField (name : String) (conv : Value → Option α) (f : α → Scalar) :
    (readField fields name conv).map f = (readField fields name fun v => (conv v).map f).or none := by
  rw [readField_map, Option.or_none]

end

section

variable {fields : List (String × Value)}

theorem Server.ofValue_spec (h : Readable "server" fields) : ∃ server,
    Server.ofValue (sect fields) = .ok server ∧
      ∀ s : Settings, s.server = server → ∀ k : Key, k.sectionName = "server" → IsRead s fields k := by
  have hhost := h.read? .host rfl 0 Value.text? (by simp [Key.kind, Kind.read?])
  have hport := h.read? .port rfl 1 (Value.word? 16) (by simp [Key.kind, Kind.read?])
  have htimeout := h.read? .requestTimeout rfl 2 (Value.word? 64) (by simp [Key.kind, Kind.read?])
  have horigin := h.read? .allowedOrigin rfl 3 Value.text? (by simp [Key.kind, Kind.read?])
  simp only [Key.field] at hhost hport htimeout horigin
  let d : Server := {}
  refine ⟨⟨(readField fields "host" Value.text?).getD d.host,
    (readField fields "port" (Value.word? 16)).getD d.port,
    (readField fields "request_timeout_secs" (Value.word? 64)).getD d.requestTimeout,
    (readField fields "cors_allowed_origin" Value.text?).getD d.allowedOrigin⟩, ?_, ?_⟩
  · simp only [ofValue, Fields.ofValue, bind, Except.bind, hhost, hport, htimeout, horigin]
    rfl
  · intro s hs k hk
    cases k with
    | host | port | requestTimeout | allowedOrigin =>
        rw [IsRead, get?, hs]
        exact some_readField _ _ _ _
    | _ => exact absurd hk (by decide)

theorem Observability.ofValue_spec (h : Readable "observability" fields) : ∃ observability,
    Observability.ofValue (sect fields) = .ok observability ∧
      ∀ s : Settings, s.observability = observability →
        ∀ k : Key, k.sectionName = "observability" → IsRead s fields k := by
  have hlevel := h.read? .logLevel rfl 0 Value.text? (by simp [Key.kind, Kind.read?])
  have hjson := h.read? .logsJson rfl 1 Value.bool? (by simp [Key.kind, Kind.read?])
  have hport := h.read? .metricsPort rfl 2 (Value.word? 16) (by simp [Key.kind, Kind.read?])
  have hname := h.read? .serviceName rfl 3 Value.text? (by simp [Key.kind, Kind.read?])
  simp only [Key.field] at hlevel hjson hport hname
  let d : Observability := {}
  refine ⟨⟨(readField fields "log_level" Value.text?).getD d.logLevel,
    (readField fields "json_logging" Value.bool?).getD d.logsJson,
    (readField fields "metrics_port" (Value.word? 16)).getD d.metricsPort,
    (readField fields "service_name" Value.text?).getD d.serviceName⟩, ?_, ?_⟩
  · simp only [ofValue, Fields.ofValue, bind, Except.bind, hlevel, hjson, hport, hname]
    rfl
  · intro s hs k hk
    cases k with
    | logLevel | logsJson | metricsPort | serviceName =>
        rw [IsRead, get?, hs]
        exact some_readField _ _ _ _
    | _ => exact absurd hk (by decide)

theorem Ingestion.ofValue_spec (h : Readable "ingestion" fields) : ∃ ingestion,
    Ingestion.ofValue (sect fields) = .ok ingestion ∧
      ∀ s : Settings, s.ingestion = ingestion →
        ∀ k : Key, k.sectionName = "ingestion" → IsRead s fields k := by
  obtain ⟨o, hread, hdir⟩ := h.optional .imagesDir rfl rfl 0
  have hauthor := h.read? .defaultAuthor rfl 1 Value.text? (by simp [Key.kind, Kind.read?])
  simp only [Key.field] at hread hdir hauthor
  let d : Ingestion := {}
  refine ⟨⟨readField fields "images_dir" Value.text?,
    (readField fields "default_author" Value.text?).getD d.defaultAuthor⟩, ?_, ?_⟩
  · simp only [ofValue, Fields.ofValue, bind, Except.bind, hread, hauthor, hdir]
    rfl
  · intro s hs k hk
    cases k with
    | imagesDir =>
        rw [IsRead, get?, hs]
        exact map_readField _ _ _
    | defaultAuthor =>
        rw [IsRead, get?, hs]
        exact some_readField _ _ _ _
    | _ => exact absurd hk (by decide)

theorem Database.ofValue_spec (h : Readable "database" fields) :
    ((Database.ofValue (sect fields)).isOk ↔ ((sect fields).member? "url").isSome) ∧
      ∀ s : Settings, Database.ofValue (sect fields) = .ok s.database →
        ∀ k : Key, k.sectionName = "database" → IsRead s fields k := by
  have hurl := h.read? .url rfl 0 Value.text? (by simp [Key.kind, Kind.read?])
  obtain ⟨o, hread, hreplica⟩ := h.optional .readUrl rfl rfl 1
  have hmost := h.read? .maxConnections rfl 2 (Value.word? 32) (by simp [Key.kind, Kind.read?])
  have hleast := h.read? .minConnections rfl 3 (Value.word? 32) (by simp [Key.kind, Kind.read?])
  have hconnect := h.read? .connectTimeout rfl 4 (Value.word? 64) (by simp [Key.kind, Kind.read?])
  have hidle := h.read? .idleTimeout rfl 5 (Value.word? 64) (by simp [Key.kind, Kind.read?])
  have hlogs := h.read? .logsStatements rfl 6 Value.bool? (by simp [Key.kind, Kind.read?])
  simp only [Key.field] at hurl hread hreplica hmost hleast hconnect hidle hlogs
  have hvalue : Database.ofValue (sect fields) = (readField fields "url" Value.text?).elim
      (.error (.missing "url")) fun url => .ok
        ⟨url, readField fields "read_url" Value.text?,
          (readField fields "max_connections" (Value.word? 32)).getD 10,
          (readField fields "min_connections" (Value.word? 32)).getD 1,
          (readField fields "connect_timeout_secs" (Value.word? 64)).getD 10,
          (readField fields "idle_timeout_secs" (Value.word? 64)).getD 300,
          (readField fields "sqlx_logging" Value.bool?).getD false⟩ := by
    simp only [ofValue, Fields.ofValue, bind, Except.bind, hurl, hread, hmost, hleast, hconnect, hidle,
      hlogs]
    cases readField fields "url" Value.text? with
    | none => rfl
    | some url =>
        simp only [Fields.need, hreplica]
        rfl
  rw [hvalue]
  cases htext : readField fields "url" Value.text? with
  | none =>
      have hnone : (sect fields).member? "url" = none := by
        by_contra hsome
        obtain ⟨w, hw⟩ := Option.ne_none_iff_exists'.1 hsome
        have hkind := h .url rfl w hw
        rw [readField, hw, Option.bind_some] at htext
        simp only [Key.kind, Kind.read?, htext] at hkind
        cases hkind
      rw [hnone]
      refine ⟨Iff.rfl, ?_⟩
      intro s hs
      cases hs
  | some url =>
      obtain ⟨w, hw, -⟩ := Option.bind_eq_some_iff.1 htext
      rw [hw]
      refine ⟨Iff.rfl, ?_⟩
      intro s hs k hk
      have hdatabase := (Except.ok.inj hs).symm
      cases k with
      | url =>
          have hshown := readField_map fields "url" Value.text? Scalar.text
          rw [htext, Option.map_some] at hshown
          rw [IsRead, get?, hdatabase]
          exact (congrArg (fun o => o.or (default.get? .url)) hshown).symm
      | readUrl =>
          rw [IsRead, get?, hdatabase]
          exact map_readField _ _ _
      | maxConnections | minConnections | connectTimeout | idleTimeout | logsStatements =>
          rw [IsRead, get?, hdatabase]
          exact some_readField _ _ _ _
      | _ => exact absurd hk (by decide)

end

def fieldsOf (es : List (String × Value)) (name : String) : List (String × Value) :=
  match (sect es).member? name with
  | some (.sect fields) => fields
  | _ => []

section

variable {α : Type} {es : List (String × Value)}

theorem member?_fieldsOf (h : (sect es).Sectioned) (k : Key) :
    (sect (fieldsOf es k.sectionName)).member? k.field = (sect es).setting? k := by
  rw [fieldsOf, Value.setting?]
  cases hmember : (sect es).member? k.sectionName with
  | none => rfl
  | some w =>
      obtain ⟨fields, rfl⟩ := h.2 _ _ hmember
      rfl

theorem section?_eq (h : (sect es).Sectioned) (name : String) (read : Value → Except Fault α) :
    (section? es name read) = if ((sect es).member? name).isSome then
      (read (sect (fieldsOf es name))).map some else .ok none := by
  cases hfind : es.find? (·.1 = name) with
  | none =>
      have hmember : (sect es).member? name = none := by rw [Value.member?, hfind, Option.map_none]
      rw [section?, hfind, hmember]
      rfl
  | some e =>
      have hmember : (sect es).member? name = some e.2 := by rw [Value.member?, hfind, Option.map_some]
      obtain ⟨fields, he⟩ := h.2 name e.2 hmember
      simp only [section?, hfind, fieldsOf, hmember, he, Option.isSome_some, if_true]

theorem section?_getD (h : (sect es).Sectioned) {name : String} {read : Value → Except Fault α} {d a : α}
    (hd : read (sect []) = .ok d) (ha : read (sect (fieldsOf es name)) = .ok a) :
    ∃ o, section? es name read = .ok o ∧ o.getD d = a := by
  rw [section?_eq h, ha]
  cases hmember : (sect es).member? name with
  | none =>
      rw [fieldsOf, hmember] at ha
      exact ⟨none, rfl, Except.ok.inj (hd.symm.trans ha)⟩
  | some w => exact ⟨some a, rfl, rfl⟩

theorem ofEntries_spec (h : (sect es).Sectioned)
    (hread : ∀ k w, (sect es).setting? k = some w → (k.kind.read? w).isSome) :
    ((ofEntries es).isOk ↔ ((sect es).setting? .url).isSome) ∧
      ∀ s, ofEntries es = .ok s → ∀ k : Key,
        s.get? k = (((sect es).setting? k).bind k.kind.read?).or (default.get? k) := by
  have hreadable (name : String) : Readable name (fieldsOf es name) := by
    rintro k rfl w hw
    exact hread k w (member?_fieldsOf h k ▸ hw)
  obtain ⟨server, hserver, hservers⟩ := Server.ofValue_spec (hreadable _)
  obtain ⟨ingestion, hingestion, hingestions⟩ := Ingestion.ofValue_spec (hreadable _)
  obtain ⟨observability, hobservability, hobservabilities⟩ := Observability.ofValue_spec (hreadable _)
  obtain ⟨hurl, hdatabases⟩ := Database.ofValue_spec (hreadable _)
  -- Three sections may be missing, and come to their defaults then; the one of the database may not.
  obtain ⟨o₁, h₁, rfl⟩ := section?_getD h (d := {}) rfl hserver
  obtain ⟨o₂, h₂, rfl⟩ := section?_getD h (d := {}) rfl hingestion
  obtain ⟨o₃, h₃, rfl⟩ := section?_getD h (d := {}) rfl hobservability
  have hmember : (sect (fieldsOf es "database")).member? "url" = (sect es).setting? .url :=
    member?_fieldsOf h .url
  rw [hmember] at hurl
  have hdatabase := section?_eq h "database" Database.ofValue
  cases hmember : (sect es).member? "database" with
  | none =>
      rw [hmember, Option.isSome_none, if_neg Bool.false_ne_true] at hdatabase
      have hentries : ofEntries es = .error (.missing "database") := by
        simp only [ofEntries, h₁, h₂, h₃, hdatabase, bind, Except.bind]
      have hnone : (sect es).setting? .url = none := by
        simp only [Value.setting?, Key.sectionName, hmember, Option.bind_none]
      rw [hentries, hnone]
      refine ⟨Iff.rfl, ?_⟩
      intro s hs
      cases hs
  | some w =>
      rw [hmember, Option.isSome_some, if_pos rfl] at hdatabase
      rw [← hurl]
      cases hvalue : Database.ofValue (sect (fieldsOf es "database")) with
      | error fault =>
          rw [hvalue] at hdatabase
          have hentries : ofEntries es = .error fault := by
            simp only [ofEntries, h₁, hdatabase, bind, Except.bind, Except.map]
          rw [hentries]
          refine ⟨Iff.rfl, ?_⟩
          intro s hs
          cases hs
      | ok database =>
          rw [hvalue] at hdatabase
          have hentries : ofEntries es = .ok ⟨o₁.getD {}, database, o₂.getD {}, o₃.getD {}⟩ := by
            simp only [ofEntries, h₁, h₂, h₃, hdatabase, bind, Except.bind, Except.map]
            rfl
          rw [hentries]
          refine ⟨Iff.rfl, ?_⟩
          intro s hs k
          obtain rfl := Except.ok.inj hs
          rw [← member?_fieldsOf h k]
          rcases k.sectionName_cases with hk | hk | hk | hk <;> rw [hk]
          · exact hservers _ rfl k hk
          · exact hdatabases _ hvalue k hk
          · exact hingestions _ rfl k hk
          · exact hobservabilities _ rfl k hk

end

end Inkpress.Settings
