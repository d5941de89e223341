import Inkpress.Proofs.Settings.Reading
import Inkpress.Proofs.Text.Numeral
import Inkpress.Proofs.Text.Splitting

namespace Inkpress.Settings

open Table (last?)
open Value (WellTyped)

/-- The texts of variables for what a setting can be: `true` and `false` in any case, digits of a number
that fits into 64 bits with a sign, and any text that is read neither so nor as a floating number. -/
inductive Scalar.Spelled : Scalar → String → Prop
  | switch {b : Bool} {s : String} (h : Text.lowerAscii s = Value.boolText b) : Spelled (.switch b) s
  | number {n : Nat} {s : String} (h : Text.Numeral.Writes s.toList n) (hn : n < Nat.pow 2 63) :
      Spelled (.number n) s
  | text {s : String} (hswitch : ∀ b, Text.lowerAscii s ≠ Value.boolText b)
      (hwhole : Text.Numeral.signed? 64 s.toList = none)
      (hfloating : Binary64.ofText? s.toList = none) : Spelled (.text s) s

theorem not_isDigit_boolText (b : Bool) : (Value.boolText b).toList.all fun c => !c.isDigit := by
  cases b <;> decide

theorem toLower_of_isDigit {c : Char} (h : c.isDigit) : c.toLower = c := by
  have hsmall : ¬(c.val ≥ 'A'.val ∧ c.val ≤ 'Z'.val) := by
    rintro ⟨hcapital, -⟩
    have hdigit := (Bool.and_eq_true_iff.1 h).2
    simp only [ge_iff_le, UInt32.le_iff_toNat_le, decide_eq_true_eq] at hcapital hdigit
    exact absurd (Nat.le_trans hcapital hdigit) (by decide)
  exact dif_neg hsmall

theorem lowerAscii_ne_boolText {s : String} {n : Int} (h : Text.Numeral.Writes s.toList n) (b : Bool) :
    Text.lowerAscii s ≠ Value.boolText b := by
  intro hs
  obtain ⟨c, hc, hdigit⟩ := h.exists_isDigit
  have hmem : c.toLower ∈ (Value.boolText b).toList := by
    rw [← hs, Text.lowerAscii, String.toList_map]
    exact List.mem_map_of_mem hc
  rw [toLower_of_isDigit hdigit] at hmem
  have hnone := List.all_eq_true.1 (not_isDigit_boolText b) c hmem
  rw [hdigit] at hnone
  cases hnone

theorem ofVariable_of_ne {s : String} (h : ∀ b, Text.lowerAscii s ≠ Value.boolText b) :
    Value.ofVariable s = ((Text.Numeral.signed? 64 s.toList).map .integer).getD
      (((Binary64.ofText? s.toList).map .number).getD (.text s)) := by
  unfold Value.ofVariable
  split
  · next hs => exact absurd hs (h true)
  · next hs => exact absurd hs (h false)
  · cases Text.Numeral.signed? 64 s.toList with
    | some n => rfl
    | none => cases Binary64.ofText? s.toList <;> rfl

theorem Scalar.Spelled.ofVariable {x : Scalar} {s : String} (h : x.Spelled s) :
    Value.ofVariable s = x.toValue := by
  cases h with
  | @switch b _ h => cases b <;> simp only [Value.ofVariable, h, Value.boolText] <;> rfl
  | @number n _ h hn =>
      have hlow : -(Nat.pow 2 (64 - 1) : Int) ≤ n :=
        Int.le_trans (Int.neg_nonpos_of_nonneg (Int.natCast_nonneg _)) (Int.natCast_nonneg n)
      have hread : Text.Numeral.signed? 64 s.toList = some (n : Int) :=
        Text.Numeral.signed?_eq_some_iff.2 ⟨h, hlow, Int.ofNat_lt.2 hn⟩
      rw [ofVariable_of_ne (lowerAscii_ne_boolText h), hread]
      rfl
  | text hswitch hwhole hfloating =>
      rw [ofVariable_of_ne hswitch, hwhole, hfloating]
      rfl

def fileLayer (files : Files) (name : String) : Layer :=
  match locate files name with
  | some (f, content) => (f.read? content).getD []
  | none => []

/-- Whether the file that a name leads to, if it leads to one, reads and sets settings. -/
def SetsSettings (files : Files) (name : String) : Prop :=
  ∀ f content, locate files name = some (f, content) →
    ∃ layer, f.read? content = some layer ∧ ∀ e ∈ layer, WellTyped e

theorem setsSettings_of_all {files : Files} {name : String}
    (h : (locate files name).all fun found => (found.1.read? found.2).any fun layer =>
      layer.all fun e => decide (WellTyped e)) : SetsSettings files name := by
  intro f content hfound
  rw [hfound, Option.all_some, Option.any_eq_true] at h
  obtain ⟨layer, hread, hlayer⟩ := h
  exact ⟨layer, hread, fun e he => of_decide_eq_true (List.all_eq_true.1 hlayer e he)⟩

section

variable {files : Files}

theorem locate_config {stem : String} (hne : stem ≠ "") (hslash : '/' ∉ stem.toList)
    (hdot : '.' ∉ stem.toList) (hplain : files ("config/" ++ stem) = none) :
    locate files ("config/" ++ stem) =
      ((files ("config/" ++ stem ++ ".toml")).map fun content => (.toml, content)).or
        ((files ("config/" ++ stem ++ ".json")).map fun content => (.json, content)) := by
  have hsplit : Text.split '/' ("config".toList ++ '/' :: stem.toList) = ["config".toList, stem.toList] := by
    rw [Text.split_append (by decide), Text.split_of_not_mem hslash]
  have hnil : stem.toList ≠ [] := fun h => hne (String.toList_inj.1 h)
  have hidle : ¬(stem.toList = [] ∨ stem.toList = ['.']) := by
    rintro (h | h)
    · exact hnil h
    · exact hdot (h ▸ List.mem_singleton_self '.')
  have hup : stem.toList ≠ ['.', '.'] := fun h => hdot (h ▸ List.mem_cons_self)
  have hnamed : Text.Path.named? ("config/" ++ stem).toList = some ("config/" ++ stem).toList := by
    have hpath : ("config/" ++ stem).toList = "config".toList ++ '/' :: stem.toList := String.toList_append
    rw [hpath, Text.Path.named?, hsplit]
    simp only [Text.Path.dropIdle, List.reverse_cons, List.reverse_nil, List.nil_append, List.cons_append,
      List.dropWhile_cons_of_neg, hidle, decide_false, Bool.false_eq_true, not_false_eq_true, if_neg hup]
    rfl
  simp only [locate, hplain, hnamed, Option.bind_eq_bind, Option.bind_some, String.ofList_toList]

end

/-- What settings come to of which something is set, under full names: there are any if the url of the
database is set, and each is what it is set to last, or its default. What is written out comes to
itself. -/
structure ComesTo (set : List (String × Value)) (r : Except Fault Settings) : Prop where
  isOk : r.isOk ↔ (last? set "database.url").isSome
  get? : ∀ s, r = .ok s → ∀ k : Key,
    s.get? k = ((last? set k.name).bind k.kind.read?).or (default.get? k)
  written : ∀ s, r = .ok s → ∀ (k : Key) x, k.kind.Admits x → last? set k.name = some x.toValue →
    s.get? k = some x

section

variable {files : Files} {e : Environment} {name : String} {layers : List Layer}

theorem comesTo_ofEntries (h : ∀ l ∈ layers, ∀ e ∈ l, WellTyped e) :
    ComesTo (layers.flatMap settingsIn) (ofEntries (combine layers)) := by
  obtain ⟨hsectioned, hsetting⟩ := combine_spec h
  have hread : ∀ k w, (Value.sect (combine layers)).setting? k = some w → (k.kind.read? w).isSome := by
    intro k w hw
    exact read_of_last? h (hsetting k ▸ hw)
  obtain ⟨hok, hget⟩ := ofEntries_spec hsectioned hread
  refine ⟨hsetting .url ▸ hok, ?_, ?_⟩
  · intro s hs k
    rw [hget s hs k, hsetting]
  · intro s hs k x hx hlast
    rw [hget s hs k, hsetting, hlast, Option.bind_some, Kind.read?_toValue hx, Option.some_or]

theorem wellTyped_base : ∀ e ∈ base, WellTyped e :=
  List.forall_mem_cons.2
    ⟨.one .host _ rfl, List.forall_mem_cons.2 ⟨.one .port _ rfl, List.forall_mem_nil _⟩⟩

theorem read_base (k : Key) :
    ((last? (settingsIn base) k.name).bind k.kind.read?).or (default.get? k) = default.get? k := by
  cases k <;> decide +kernel

theorem ComesTo.of_base {set : List (String × Value)} {r : Except Fault Settings}
    (h : ComesTo (settingsIn base ++ set) r) : ComesTo set r := by
  have hlast (key : String) :
      last? (settingsIn base ++ set) key = (last? set key).or (last? (settingsIn base) key) :=
    Table.last?_append _ _ _
  refine ⟨?_, ?_, ?_⟩
  · have hurl : last? (settingsIn base) "database.url" = none :=
      Table.last?_eq_none_iff.2 (by decide +kernel)
    rw [h.isOk, hlast, hurl, Option.or_none]
  · intro s hs k
    -- Where nothing else is set, what was set first is the default, so that it might be missing.
    rw [h.get? s hs k, hlast]
    cases last? set k.name with
    | some w => rw [Option.some_or]
    | none => rw [Option.none_or, read_base, Option.bind_none, Option.none_or]
  · intro s hs k x hx hset
    refine h.written s hs k x hx ?_
    rw [hlast, hset, Option.some_or]

theorem ofFileIfAny_eq (h : SetsSettings files name) :
    ofFileIfAny files name = .ok (fileLayer files name) := by
  rw [ofFileIfAny, ofFile, fileLayer]
  cases hfound : locate files name with
  | none => rfl
  | some found =>
      obtain ⟨layer, hread, -⟩ := h found.1 found.2 hfound
      simp only [hread, Option.getD_some]

theorem wellTyped_fileLayer (h : SetsSettings files name) : ∀ e ∈ fileLayer files name, WellTyped e := by
  rw [fileLayer]
  cases hfound : locate files name with
  | none => exact List.forall_mem_nil _
  | some found =>
      obtain ⟨layer, hread, hlayer⟩ := h found.1 found.2 hfound
      simpa only [hread, Option.getD_some] using hlayer

theorem mapM_ofFileIfAny (names : List String) (h : ∀ name ∈ names, SetsSettings files name) :
    names.mapM (ofFileIfAny files) = .ok (names.map (fileLayer files)) := by
  induction names with
  | nil => rfl
  | cons name names ih =>
      obtain ⟨hname, hnames⟩ := List.forall_mem_cons.1 h
      rw [List.mapM_cons, ofFileIfAny_eq hname, ih hnames]
      rfl

theorem load_eq (h : ∀ name ∈ layerNames e, SetsSettings files name) :
    load files e = ofEntries (combine
      (base :: ((layerNames e).map (fileLayer files) ++ [ofEnvironment e]))) := by
  rw [load, mapM_ofFileIfAny _ h]
  rfl

theorem loadFile_eq {found : Format × ByteArray} (hfound : locate files name = some found)
    (h : SetsSettings files name) :
    loadFile files e name = ofEntries (combine [fileLayer files name, ofEnvironment e]) := by
  obtain ⟨layer, hread, -⟩ := h found.1 found.2 hfound
  have hfile : ofFile files name = .ok (fileLayer files name) := by
    rw [ofFile, fileLayer, hfound]
    simp only [hread, Option.getD_some]
  rw [loadFile, hfile]
  rfl

/-- Settings come to what the files of the `config` directory and then the variables set, the later ones
over the earlier; settings of one file to what it and then the variables set. A variable that spells out
what a setting can be sets it so. -/
theorem load_comesTo (he : ∀ v ∈ ofEnvironment e, WellTyped v) :
    ((∀ name ∈ layerNames e, SetsSettings files name) →
      ComesTo ((layerNames e).flatMap (fun name => settingsIn (fileLayer files name)) ++
        settingsIn (ofEnvironment e)) (load files e)) ∧
    (∀ name, (locate files name).isSome → SetsSettings files name →
      ComesTo (settingsIn (fileLayer files name) ++ settingsIn (ofEnvironment e))
        (loadFile files e name)) ∧
    ∀ (x : Scalar) s, x.Spelled s → Value.ofVariable s = x.toValue := by
  refine ⟨?_, ?_, fun x s h => h.ofVariable⟩
  · intro hfiles
    rw [load_eq hfiles]
    apply ComesTo.of_base
    have hlayers : ∀ l ∈ base :: ((layerNames e).map (fileLayer files) ++ [ofEnvironment e]),
        ∀ v ∈ l, WellTyped v := by
      intro l hl
      rcases List.mem_cons.1 hl with rfl | hl
      · exact wellTyped_base
      · rcases List.mem_append.1 hl with hl | hl
        · obtain ⟨name, hname, rfl⟩ := List.mem_map.1 hl
          exact wellTyped_fileLayer (hfiles name hname)
        · rwa [List.mem_singleton.1 hl]
    have h := comesTo_ofEntries hlayers
    rwa [List.flatMap_cons, List.flatMap_append, List.flatMap_map, List.flatMap_singleton] at h
  · intro name hsome hfile
    obtain ⟨found, hfound⟩ := Option.isSome_iff_exists.1 hsome
    rw [loadFile_eq hfound hfile]
    have hlayers : ∀ l ∈ [fileLayer files name, ofEnvironment e], ∀ v ∈ l, WellTyped v :=
      List.forall_mem_cons.2
        ⟨wellTyped_fileLayer hfile, List.forall_mem_cons.2 ⟨he, List.forall_mem_nil _⟩⟩
    have h := comesTo_ofEntries hlayers
    rwa [List.flatMap_cons, List.flatMap_singleton] at h

/-- A file over another, and a variable over both. -/
theorem load_comesTo_three :
    let files : Files := fun name =>
      if name = "config/default.toml" then
        some "[server]\nport = 8080\n[database]\nurl = \"sqlite://a\"\nmax_connections = 2\n".toUTF8
      else if name = "config/production.toml" then
        some "[database]\nmax_connections = 3\nmin_connections = 2\n".toUTF8
      else none
    let e : Environment := [("APP_ENV", "production"), ("APP__DATABASE__MAX_CONNECTIONS", "4")]
    ∃ s, load files e = .ok s ∧
      [Key.url, .port, .maxConnections, .minConnections, .idleTimeout].map s.get? =
        [some (.text "sqlite://a"), some (.number 8080), some (.number 4), some (.number 2),
          some (.number 300)] := by
  intro files e
  have he : ∀ v ∈ ofEnvironment e, WellTyped v := by
    have hall : ((ofEnvironment e).all fun v => decide (WellTyped v)) = true := by decide +kernel
    exact fun v hv => of_decide_eq_true (List.all_eq_true.1 hall v hv)
  have hfiles : ∀ name ∈ layerNames e, SetsSettings files name := by
    have hnames : layerNames e = ["config/default", "config/production", "config/local"] := rfl
    rw [hnames]
    refine List.forall_mem_cons.2 ⟨?_, List.forall_mem_cons.2 ⟨?_, List.forall_mem_cons.2
      ⟨?_, List.forall_mem_nil _⟩⟩⟩
    · exact setsSettings_of_all (by decide +kernel)
    · exact setsSettings_of_all (by decide +kernel)
    · exact setsSettings_of_all (by decide +kernel)
  have h := (load_comesTo he).1 hfiles
  obtain ⟨s, hs⟩ : ∃ s, load files e = .ok s := by
    have hok := h.isOk.2 (by decide +kernel)
    cases hload : load files e with
    | ok s => exact ⟨s, rfl⟩
    | error fault => rw [hload] at hok; cases hok
  refine ⟨s, hs, ?_⟩
  rw [funext (h.get? s hs)]
  decide +kernel

/-- A variable with a number that fits into 64 bits, but not with a sign: it is read as a floating
number, and the setting is another one. -/
theorem load_large_number :
    let files : Files := fun name =>
      if name = "config/default.toml" then some "[database]\nurl = \"sqlite://blog.db\"\n".toUTF8 else none
    let e : Environment := [("APP__SERVER__REQUEST_TIMEOUT_SECS", "9223372036854775809")]
    Text.Numeral.unsigned? 64 "9223372036854775809".toList = some 9223372036854775809 ∧
      (ofEnvironment e).map (·.1) = [Key.requestTimeout.name] ∧ ∃ s, load files e = .ok s ∧
        s.get? .requestTimeout = some (.number 9223372036854775808) := by
  intro files e
  refine ⟨by decide +kernel, by decide +kernel,
    ⟨{ requestTimeout := 9223372036854775808 }, { url := "sqlite://blog.db" }, {}, {}⟩, ?_, rfl⟩
  decide +kernel

end

end Inkpress.Settings
