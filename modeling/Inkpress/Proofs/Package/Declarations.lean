import Inkpress.Image.Header
import Inkpress.Proofs.Document.Staging
import Inkpress.Proofs.Package.MainPart
import Mathlib.Data.List.Induction
import Mathlib.Logic.Relation

namespace Inkpress.Package

open Store (ok_of_bind ok_of_map)
open Relation (EqvGen)

inductive Subject
  | part (name : String)
  | extension (ext : String)
  deriving DecidableEq

def Subject.lower : Subject → Subject
  | part name => part (Text.lowerAscii name)
  | extension ext => extension (Text.lowerAscii ext)

structure Declaration where
  subject : Subject
  contentType : String
  deriving DecidableEq

namespace Declaration

def ofAttributes? (key : String) (subject : String → Subject) (attrs : Table String) :
    Option Declaration :=
  match attrs.find? key, attrs.find? "ContentType" with
  | some s, some contentType => some ⟨subject s, contentType⟩
  | _, _ => none

def ofTag? (tag : Xml.Tag) : Option Declaration :=
  if tag.localName = "Default".toList then
    (attributes tag).toOption.bind (ofAttributes? "Extension" .extension)
  else if tag.localName = "Override".toList then
    (attributes tag).toOption.bind (ofAttributes? "PartName" .part)
  else none

end Declaration

def declarations (xml : String) : List Declaration :=
  (elementsIn xml.toList).filterMap Declaration.ofTag?

def declarationsOf (a : Zip.Archive) : List Declaration :=
  match textPart? a typesPart with
  | .ok (some xml) => declarations xml
  | _ => []

def declaredFor (ds : List Declaration) (s : Subject) : List String :=
  (ds.filter fun d => d.subject.lower = s.lower).map (·.contentType)

theorem declaredFor_append (ds ds' : List Declaration) (s : Subject) :
    declaredFor (ds ++ ds') s = declaredFor ds s ++ declaredFor ds' s := by
  rw [declaredFor, List.filter_append, List.map_append]
  rfl

theorem declaredFor_singleton (d : Declaration) (s : Subject) :
    declaredFor [d] s = if d.subject.lower = s.lower then [d.contentType] else [] := by
  by_cases h : d.subject.lower = s.lower <;> simp [declaredFor, h]

namespace ContentTypes

def add (types : ContentTypes) (d : Declaration) : ContentTypes :=
  match d.subject with
  | .part name => { types with overrides := types.overrides.insert (Text.lowerAscii name) d.contentType }
  | .extension ext => { types with defaults := types.defaults.insert (Text.lowerAscii ext) d.contentType }

def find? (types : ContentTypes) : Subject → Option String
  | .part name => types.overrides.find? (Text.lowerAscii name)
  | .extension ext => types.defaults.find? (Text.lowerAscii ext)

theorem find?_add (types : ContentTypes) (d : Declaration) (s : Subject) :
    (types.add d).find? s = if d.subject.lower = s.lower then some d.contentType else types.find? s := by
  obtain ⟨subject, contentType⟩ := d
  cases subject <;> cases s <;> simp [add, find?, Subject.lower, Table.find?_insert, eq_comm]

theorem find?_foldl_add (ds : List Declaration) (s : Subject) :
    (ds.foldl add empty).find? s = (declaredFor ds s).getLast? := by
  induction ds using List.reverseRecOn with
  | nil => cases s <;> rfl
  | append_singleton ds d ih =>
      rw [List.foldl_concat, find?_add, ih, declaredFor_append, declaredFor_singleton]
      split
      · exact List.getLast?_concat.symm
      · rw [List.append_nil]

theorem visit_eq {types types' : ContentTypes} {tag : Xml.Tag} (h : types.visit tag = .ok types') :
    types' = (Declaration.ofTag? tag).toList.foldl add types := by
  rw [visit] at h
  rw [Declaration.ofTag?]
  split at h
  · next hname =>
      obtain ⟨attrs, hattrs, rfl⟩ := ok_of_map h
      rw [if_pos hname, hattrs]
      simp only [Except.toOption, Option.bind_some, Declaration.ofAttributes?]
      cases attrs.find? "Extension" <;> cases attrs.find? "ContentType" <;> rfl
  · next hdefault =>
      rw [if_neg hdefault]
      split at h
      · next hname =>
          obtain ⟨attrs, hattrs, rfl⟩ := ok_of_map h
          rw [if_pos hname, hattrs]
          simp only [Except.toOption, Option.bind_some, Declaration.ofAttributes?]
          cases attrs.find? "PartName" <;> cases attrs.find? "ContentType" <;> rfl
      · next hoverride =>
          rw [if_neg hoverride]
          exact (Except.ok.inj h).symm

theorem foldlM_visit_eq {tags : List Xml.Tag} {types types' : ContentTypes}
    (h : tags.foldlM visit types = .ok types') :
    types' = (tags.filterMap Declaration.ofTag?).foldl add types := by
  induction tags generalizing types with
  | nil => exact (Except.ok.inj h).symm
  | cons tag tags ih =>
      rw [List.foldlM_cons] at h
      obtain ⟨next, hnext, h⟩ := ok_of_bind h
      rw [ih h, visit_eq hnext, List.filterMap_cons]
      cases Declaration.ofTag? tag <;> rfl

end ContentTypes

theorem readContentTypes_find? {xml : String} {types : ContentTypes}
    (h : readContentTypes xml = .ok types) (s : Subject) :
    types.find? s = (declaredFor (declarations xml) s).getLast? := by
  rw [readContentTypes, foldElements_eq] at h
  obtain ⟨types', hfold, h⟩ := ok_of_bind h
  split at h
  · cases h
    rw [ContentTypes.foldlM_visit_eq hfold]
    exact ContentTypes.find?_foldl_add _ s
  · cases h

/-- Two neighbours that declare different things change places, or one thing is written in other letters. -/
inductive Rewords : List Declaration → List Declaration → Prop
  | swap (before after : List Declaration) {d e : Declaration} (h : d.subject.lower ≠ e.subject.lower) :
    Rewords (before ++ [d, e] ++ after) (before ++ [e, d] ++ after)
  | recase (before after : List Declaration) (contentType : String) {s s' : Subject}
    (h : s.lower = s'.lower) :
    Rewords (before ++ [⟨s, contentType⟩] ++ after) (before ++ [⟨s', contentType⟩] ++ after)

theorem declaredFor_of_rewords {ds ds' : List Declaration} (h : Rewords ds ds') (s : Subject) :
    declaredFor ds s = declaredFor ds' s := by
  have haround {mid mid' : List Declaration} (hmid : declaredFor mid s = declaredFor mid' s)
      (before after : List Declaration) :
      declaredFor (before ++ mid ++ after) s = declaredFor (before ++ mid' ++ after) s := by
    simp only [declaredFor_append, hmid]
  cases h with
  | @swap before after d e h =>
      refine haround ?_ before after
      -- Only one of the two can be on the subject, so that its place among the others is the same.
      rw [← List.singleton_append, ← List.singleton_append (l := [d]), declaredFor_append,
        declaredFor_append, declaredFor_singleton, declaredFor_singleton]
      by_cases hd : d.subject.lower = s.lower
      · have he : e.subject.lower ≠ s.lower := fun he => h (hd.trans he.symm)
        rw [if_neg he, List.append_nil, List.nil_append]
      · rw [if_neg hd, List.append_nil, List.nil_append]
  | @recase before after contentType r r' h =>
      refine haround ?_ before after
      rw [declaredFor_singleton, declaredFor_singleton]
      simp only [h]

theorem declaredFor_eqvGen {ds ds' : List Declaration} (h : EqvGen Rewords ds ds') (s : Subject) :
    declaredFor ds s = declaredFor ds' s := by
  induction h with
  | rel ds ds' h => exact declaredFor_of_rewords h s
  | refl ds => rfl
  | symm ds ds' h ih => exact ih.symm
  | trans ds ds' ds'' h h' ih ih' => exact ih.trans ih'

/-- What follows the last dot of a name; nothing where there is no dot. -/
def FollowsLastDot (name ext : String) : Prop :=
  '.' ∉ ext.toList ∧ ((∃ before, name.toList = before ++ '.' :: ext.toList) ∨
    '.' ∉ name.toList ∧ ext = "")

theorem followsLastDot_extension (name : String) :
    FollowsLastDot name (String.ofList (PartName.extension name.toList)) := by
  rw [PartName.extension]
  cases h : Text.splitLast? '.' name.toList with
  | some ab =>
      obtain ⟨before, ext⟩ := ab
      obtain ⟨hname, hext⟩ := Text.eq_of_splitLast? h
      rw [FollowsLastDot, String.toList_ofList]
      exact ⟨hext, .inl ⟨before, hname⟩⟩
  | none => exact ⟨List.not_mem_nil, .inr ⟨Text.splitLast?_eq_none_iff.1 h, rfl⟩⟩

/-- The content type of a part with an extension, as some declarations have it. -/
def declaredType (ds : List Declaration) (part ext : String) : Option String :=
  (declaredFor ds (.part ("/" ++ part))).getLast?.or (declaredFor ds (.extension ext)).getLast?

theorem relationshipsOf_ne (name : List Char) :
    String.ofList (PartName.relationshipsOf name) ≠ typesPart := by
  have hsuffix : ".rels".toList <:+ PartName.relationshipsOf name := by
    rw [PartName.relationshipsOf]
    split <;> exact List.suffix_append _ _
  intro h
  have hlist : PartName.relationshipsOf name = typesPart.toList := by rw [← h, String.toList_ofList]
  have hnot : ¬".rels".toList <:+ typesPart.toList := by decide +kernel
  exact hnot (hlist ▸ hsuffix)

theorem find?_types {order : Table Relationship → List Relationship} {a : Zip.Archive} {p : Package}
    (hp : ofArchiveIn order a = .ok p) (s : Subject) :
    p.types.find? s = (declaredFor (declarationsOf a) s).getLast? := by
  obtain ⟨part, -, hp⟩ := ok_of_bind hp
  obtain ⟨rels, -, hp⟩ := ok_of_bind hp
  obtain ⟨types, htypes, hp⟩ := ok_of_bind hp
  cases hp
  obtain ⟨text, htext, htypes⟩ := ok_of_bind htypes
  rw [declarationsOf, htext]
  cases text with
  | none =>
      cases htypes
      cases s <;> rfl
  | some xml => exact readContentTypes_find? htypes s

theorem contentTypeOf_eq [Image.Library] {p : Package} {ds : List Declaration}
    (h : ∀ s, p.types.find? s = (declaredFor ds s).getLast?) (part : String) : p.contentTypeOf part =
      ((declaredType ds part (String.ofList (PartName.extension part.toList))).or
        (Image.Library.kindOf? part)).getD fallbackType := by
  rw [declaredType, ← h, ← h]
  rfl

theorem map_picture_congr [Image.Library] {p p' : Package} (hmain : p'.mainPart = p.mainPart)
    (hrels : p'.relationships = p.relationships)
    (htypes : ∀ part, p'.contentTypeOf part = p.contentTypeOf part)
    (hparts : ∀ part, p'.archive.find? part = p.archive.find? part ∨
      ∃ data data', p.archive.find? part = some (.bytes data) ∧
        p'.archive.find? part = some (.bytes data')) (id : String) :
    (p'.picture id).map (·.contentType) = (p.picture id).map (·.contentType) := by
  rw [picture, picture, hrels]
  cases p.relationships.find? id with
  | none => rfl
  | some r =>
      have hpart : p'.partOf r = p.partOf r := by rw [partOf, partOf, hmain]
      simp only [hpart, htypes]
      rcases hparts (p.partOf r) with hsame | ⟨data, data', hdata, hdata'⟩
      · rw [hsame]
      · rw [hdata, hdata']
        split <;> rfl

def ofTypes (types : String) : Zip.Archive :=
  .ofMembers [(typesPart, Bytes.ofString types),
    ("word/_rels/document.xml.rels",
      Bytes.ofString (String.ofList (Listing.plain [("a", ⟨"", "i.gif", false⟩)]).written)),
    ("word/i.gif", ⟨#[71]⟩)]

theorem textPart?_ofTypes (types : String) : textPart? (ofTypes types) typesPart = .ok (some types) :=
  textPart?_of_find? rfl

theorem find?_ofTypes (types types' : String) {part : String} (h : part ≠ typesPart) :
    (ofTypes types).find? part = (ofTypes types').find? part :=
  (find?_ofMembers_cons_of_ne h _ _).trans (find?_ofMembers_cons_of_ne h _ _).symm

theorem exists_ofArchive_ofTypes [Image.Library] {xml : String} {types : ContentTypes}
    (h : readContentTypes xml = .ok types) :
    ∃ p, ofArchive (ofTypes xml) = .ok p ∧ ∃ pic, p.picture "a" = .ok pic ∧
      ∀ r, p.relationships.find? "a" = some r → p.partOf r = "word/i.gif" := by
  let r : Relationship := ⟨"", "i.gif", false⟩
  let p : Package := ⟨ofTypes xml, defaultMainPart, Table.empty.insertAll [("a", r)], types⟩
  have hmain : selectMain Table.values (ofTypes xml) = .ok defaultMainPart := by
    have hmissing : (ofTypes xml).find? "_rels/.rels" = none := rfl
    rw [selectMain, tableOf_missing hmissing]
    rfl
  have hrels : tableOf (ofTypes xml) (String.ofList (PartName.relationshipsOf defaultMainPart.toList))
      .empty readRelationships = .ok (Table.empty.insertAll [("a", r)]) := by
    have hpart : String.ofList (PartName.relationshipsOf defaultMainPart.toList) =
        "word/_rels/document.xml.rels" := by decide +kernel
    rw [hpart]
    exact tableOf_plain rfl
  have hp : ofArchive (ofTypes xml) = .ok p :=
    ofArchiveIn_eq hmain hrels ((tableOf_eq_read (textPart?_ofTypes xml) _ _).trans h)
  have hr : p.relationships.find? "a" = some r := rfl
  have hpart : p.partOf r = "word/i.gif" := by
    have hresolve : String.ofList (PartName.resolve (PartName.directory defaultMainPart.toList)
        "i.gif".toList) = "word/i.gif" := by decide +kernel
    exact hresolve
  have hdata : p.archive.find? (p.partOf r) = some (.bytes ⟨#[71]⟩) := by
    rw [hpart]
    rfl
  refine ⟨p, hp, _, picture_eq_ok.2 ⟨r, _, hr, rfl, hdata, rfl⟩, ?_⟩
  intro r' hr'
  obtain rfl : r = r' := Option.some.inj (hr.symm.trans hr')
  exact hpart

/-- The picture of a relationship has the type that was last declared for its part, else the type that was
last declared for its extension, and only else a guess. A package that differs in the order of declarations
of different things, or in the ASCII letters they are written in, has the same types. -/
theorem contentType_declared [Image.Library] {order : Table Relationship → List Relationship} {a : Zip.Archive}
    {p : Package} (hp : ofArchiveIn order a = .ok p) :
    (∀ id pic, p.picture id = .ok pic → ∃ r ext, p.relationships.find? id = some r ∧
      FollowsLastDot (p.partOf r) ext ∧ pic.contentType =
        ((declaredType (declarationsOf a) (p.partOf r) ext).or
          (Image.Library.kindOf? (p.partOf r))).getD fallbackType) ∧
    ∀ a' xml xml' types', (∀ part, part ≠ typesPart → a'.find? part = a.find? part) →
      textPart? a typesPart = .ok (some xml) → textPart? a' typesPart = .ok (some xml') →
      readContentTypes xml' = .ok types' → EqvGen Rewords (declarations xml) (declarations xml') →
      ∃ p', ofArchiveIn order a' = .ok p' ∧
        ∀ id, (p'.picture id).map (·.contentType) = (p.picture id).map (·.contentType) := by
  have htypes := find?_types hp
  constructor
  · intro id pic hpic
    obtain ⟨r, data, hr, -, -, rfl⟩ := picture_eq_ok.1 hpic
    exact ⟨r, _, hr, followsLastDot_extension _, contentTypeOf_eq htypes _⟩
  · intro a' xml xml' types' hsame hxml hxml' htypes' hreworded
    obtain ⟨part, hpart, hp⟩ := ok_of_bind hp
    obtain ⟨rels, hrels, hp⟩ := ok_of_bind hp
    obtain ⟨types, -, hp⟩ := ok_of_bind hp
    cases hp
    have hown : "_rels/.rels" ≠ typesPart := by decide +kernel
    have hpart' : selectMain order a' = .ok part := by
      rw [selectMain, tableOf_congr (hsame _ hown)]
      exact hpart
    have hp' := ofArchiveIn_eq hpart'
      ((tableOf_congr (hsame _ (relationshipsOf_ne part.toList)) _ _).trans hrels)
      ((tableOf_eq_read hxml' _ _).trans htypes')
    refine ⟨_, hp', ?_⟩
    have htypes' := find?_types hp'
    refine map_picture_congr rfl rfl ?_ ?_
    · intro part
      have hlast (s : Subject) : types'.find? s = (declaredFor (declarationsOf a) s).getLast? := by
        have hof : declarationsOf a = declarations xml := by rw [declarationsOf, hxml]
        have hof' : declarationsOf a' = declarations xml' := by rw [declarationsOf, hxml']
        rw [hof, declaredFor_eqvGen hreworded s, ← hof']
        exact htypes' s
      rw [contentTypeOf_eq htypes, contentTypeOf_eq hlast]
    · intro part
      by_cases hne : part = typesPart
      · obtain ⟨data, hdata⟩ := exists_bytes_of_textPart? hxml
        obtain ⟨data', hdata'⟩ := exists_bytes_of_textPart? hxml'
        exact .inr ⟨data, data', hne ▸ hdata, hne ▸ hdata'⟩
      · exact .inl (hsame part hne)

/-- A declaration for a part and one for its extension, the other way round and in other letters. -/
theorem contentType_declared_gif :
    let xml := "<Default Extension='gif' ContentType='b'/><Override PartName='/word/i.gif' ContentType='c'/>"
    let xml' := "<Override PartName='/Word/I.GIF' ContentType='c'/><Default Extension='gif' ContentType='b'/>"
    ∃ p p', ofArchive (ofTypes xml) = .ok p ∧ ofArchive (ofTypes xml') = .ok p' ∧
      (p.picture "a").map (·.contentType) = .ok "c" ∧ (p'.picture "a").map (·.contentType) = .ok "c" := by
  intro xml xml'
  have hxml : xml.toList = _ := String.toList_ofList
  have hxml' : xml'.toList = _ := String.toList_ofList
  have hds : declarations xml = [⟨.extension "gif", "b"⟩, ⟨.part "/word/i.gif", "c"⟩] := by
    rw [declarations, hxml]
    decide +kernel
  have hds' : declarations xml' = [⟨.part "/Word/I.GIF", "c"⟩, ⟨.extension "gif", "b"⟩] := by
    rw [declarations, hxml']
    decide +kernel
  have hread : (readContentTypes xml).map (fun _ => ()) = .ok () := by
    rw [readContentTypes, foldElements, hxml]
    decide +kernel
  have hread' : (readContentTypes xml').map (fun _ => ()) = .ok () := by
    rw [readContentTypes, foldElements, hxml']
    decide +kernel
  obtain ⟨types, hread, -⟩ := ok_of_map hread
  obtain ⟨types', hread', -⟩ := ok_of_map hread'
  have hwords : EqvGen Rewords (declarations xml) (declarations xml') := by
    have hlower : Text.lowerAscii "/word/i.gif" = _ := Text.lowerAscii_ofList _
    have hlower' : Text.lowerAscii "/Word/I.GIF" = _ := Text.lowerAscii_ofList _
    have hcase : (Subject.part "/word/i.gif").lower = (Subject.part "/Word/I.GIF").lower := by
      rw [Subject.lower, Subject.lower, hlower, hlower']
      rfl
    rw [hds, hds']
    exact .trans _ _ _ (.rel _ _ (.swap [] [] Subject.noConfusion)) (.rel _ _ (.recase [] [_] "c" hcase))
  obtain ⟨p, hp, hpic⟩ := exists_ofArchive_ofTypes hread
  obtain ⟨hpicture, hreworded⟩ := contentType_declared hp
  obtain ⟨p', hp', hsame⟩ := hreworded _ xml xml' types' (fun _ => find?_ofTypes xml' xml)
    (textPart?_ofTypes xml) (textPart?_ofTypes xml') hread' hwords
  obtain ⟨pic, hpic, hpart⟩ := hpic
  obtain ⟨r, ext, hr, -, htype⟩ := hpicture "a" pic hpic
  have htype : pic.contentType = "c" := by
    have hslash : "/" ++ "word/i.gif" = "/word/i.gif" := by decide +kernel
    have hdeclared : declaredType (declarationsOf (ofTypes xml)) "word/i.gif" ext = some "c" := by
      simp [declaredType, declarationsOf, textPart?_ofTypes, hds, declaredFor, Subject.lower, hslash]
    rw [htype, hpart r hr, hdeclared]
    rfl
  have hmap : (p.picture "a").map (·.contentType) = .ok "c" := by
    rw [hpic]
    exact congrArg Except.ok htype
  exact ⟨p, p', hp, hp', hmap, (hsame "a").trans hmap⟩

end Inkpress.Package
