import Inkpress.Package.Basic
import Inkpress.Proofs.Package.Listing
import Inkpress.Proofs.Store.Sound
import Inkpress.Proofs.Text.Octets

namespace Inkpress.Package

open Store (ok_of_bind)

section

variable {a a' : Zip.Archive} {part : String}

theorem find?_ofMembers_cons_of_ne {name : String} (h : part ≠ name) (data : ByteArray)
    (ms : List (String × ByteArray)) :
    (Zip.Archive.ofMembers ((name, data) :: ms)).find? part = (Zip.Archive.ofMembers ms).find? part := by
  simp [Zip.Archive.find?, Zip.Archive.ofMembers, h.symm]

theorem textPart?_of_find? {s : String} (h : a.find? part = some (.bytes (Bytes.ofString s))) :
    textPart? a part = .ok (some s) := by
  have hdecode : Text.Utf8.decode? (Bytes.ofString s) = some s := Text.Utf8.decode?_toUTF8 s
  rw [textPart?, h]
  simp only [hdecode]

theorem exists_bytes_of_textPart? {s : String} (h : textPart? a part = .ok (some s)) :
    ∃ data, a.find? part = some (.bytes data) := by
  rw [textPart?] at h
  split at h
  · cases h
  · cases h
  · cases h
  · next data hdata => exact ⟨data, hdata⟩

theorem tableOf_congr {α : Type} (h : a'.find? part = a.find? part) (empty : α)
    (read : String → Except Fault α) : tableOf a' part empty read = tableOf a part empty read := by
  rw [tableOf, tableOf, textPart?, textPart?, h]

theorem tableOf_eq_read {α : Type} {s : String} (h : textPart? a part = .ok (some s)) (empty : α)
    (read : String → Except Fault α) : tableOf a part empty read = read s := by
  rw [tableOf, h]
  rfl

theorem tableOf_missing {α : Type} (h : a.find? part = none) (empty : α)
    (read : String → Except Fault α) : tableOf a part empty read = .ok empty := by
  rw [tableOf, textPart?, h]
  rfl

end

namespace Relationship

def isMain (r : Relationship) : Bool :=
  r.kind = officeDocument && !r.external

def rootPart (r : Relationship) : String :=
  String.ofList (PartName.resolve [] r.target.toList)

end Relationship

/-- An order for the relationships of every table, with each of them as often as it is there. -/
structure Enumeration where
  list : Table Relationship → List Relationship
  perm : ∀ t, (list t).Perm t.values

namespace Enumeration

def ofTable : Enumeration := ⟨Table.values, fun _ => .refl _⟩

def leading (r : Relationship) : Enumeration where
  list t := if r ∈ t.values then r :: t.values.erase r else t.values
  perm t := by
    split
    · next hr => exact (List.perm_cons_erase hr).symm
    · exact .refl _

theorem list_leading {r : Relationship} {t : Table Relationship} (hr : r ∈ t.values) :
    (leading r).list t = r :: t.values.erase r :=
  if_pos hr

end Enumeration

variable {r : Relationship} {rels : List Relationship}

theorem mainPartOf_eq (rels : List Relationship) : mainPartOf rels =
    ((rels.find? Relationship.isMain).map Relationship.rootPart).getD defaultMainPart := by
  have hfind : rels.find? (fun r => r.kind = Relationship.officeDocument && !r.external) =
      rels.find? Relationship.isMain := rfl
  rw [mainPartOf, hfind]
  cases rels.find? Relationship.isMain <;> rfl

theorem mainPartOf_cons (h : r.isMain) (rels : List Relationship) :
    mainPartOf (r :: rels) = r.rootPart := by
  rw [mainPartOf_eq, List.find?_cons_of_pos h]
  rfl

theorem mainPartOf_of_none (h : ∀ r ∈ rels, ¬r.isMain) : mainPartOf rels = defaultMainPart := by
  rw [mainPartOf_eq, List.find?_eq_none.2 h]
  rfl

theorem exists_mainPartOf (hr : r ∈ rels) (hmain : r.isMain) :
    ∃ r' ∈ rels, r'.isMain ∧ mainPartOf rels = r'.rootPart := by
  obtain ⟨r', hfind⟩ := Option.isSome_iff_exists.1 (List.find?_isSome.2 ⟨r, hr, hmain⟩)
  refine ⟨r', List.mem_of_find?_eq_some hfind, List.find?_some hfind, ?_⟩
  rw [mainPartOf_eq, hfind]
  rfl

theorem selectMain_eq {a : Zip.Archive} {own : Table Relationship}
    (hown : tableOf a "_rels/.rels" .empty readRelationships = .ok own)
    (order : Table Relationship → List Relationship) :
    selectMain order a = .ok (mainPartOf (order own)) := by
  rw [selectMain, hown]
  rfl

theorem ofArchiveIn_eq {order : Table Relationship → List Relationship} {a : Zip.Archive} {part : String}
    {rels : Table Relationship} {types : ContentTypes} (hpart : selectMain order a = .ok part)
    (hrels : tableOf a (String.ofList (PartName.relationshipsOf part.toList)) .empty readRelationships =
      .ok rels)
    (htypes : tableOf a typesPart .empty readContentTypes = .ok types) :
    ofArchiveIn order a = .ok ⟨a, part, rels, types⟩ := by
  rw [ofArchiveIn, hpart]
  simp only [bind, Except.bind, ofMain, hrels, htypes]

theorem mainPart_of_ofMain {a : Zip.Archive} {part : String} {p : Package}
    (h : ofMain a part = .ok p) : p.mainPart = part := by
  obtain ⟨rels, -, h⟩ := ok_of_bind h
  obtain ⟨types, -, h⟩ := ok_of_bind h
  cases h
  rfl

def ofRelationships (es : List (String × Relationship)) : Zip.Archive :=
  .ofMembers [("_rels/.rels", Bytes.ofString (String.ofList (Listing.plain es).written))]

theorem tableOf_plain {a : Zip.Archive} {part : String} {es : List (String × Relationship)}
    (h : a.find? part = some (.bytes (Bytes.ofString (String.ofList (Listing.plain es).written)))) :
    tableOf a part .empty readRelationships = .ok (Table.empty.insertAll es) := by
  have hread := (Listing.plain es).readRelationships_eq
  rw [Listing.relationships_plain] at hread
  rw [tableOf_eq_read (textPart?_of_find? h)]
  exact hread

section

variable (es : List (String × Relationship))

theorem find?_ofRelationships {part : String} (h : part ≠ "_rels/.rels") :
    (ofRelationships es).find? part = none :=
  find?_ofMembers_cons_of_ne h _ []

theorem tableOf_ofRelationships : tableOf (ofRelationships es) "_rels/.rels" .empty readRelationships =
    .ok (Table.empty.insertAll es) :=
  tableOf_plain rfl

theorem ofArchiveIn_ofRelationships {order : Table Relationship → List Relationship} {part : String}
    (hpart : mainPartOf (order (Table.empty.insertAll es)) = part)
    (hrels : String.ofList (PartName.relationshipsOf part.toList) ≠ "_rels/.rels") :
    ofArchiveIn order (ofRelationships es) = .ok ⟨ofRelationships es, part, .empty, .empty⟩ := by
  have hmain : selectMain order (ofRelationships es) = .ok part := by
    rw [selectMain_eq (tableOf_ofRelationships es), hpart]
  have htypes : typesPart ≠ "_rels/.rels" := by decide +kernel
  exact ofArchiveIn_eq hmain (tableOf_missing (find?_ofRelationships es hrels) _ _)
    (tableOf_missing (find?_ofRelationships es htypes) _ _)

end

/-- With no internal relationship to a main document the usual name is selected in every order. With some,
what can be selected are the parts that they lead to: each of them in some order, and nothing else. So the
order does not matter just where they all lead to one part. -/
theorem selectMain_orders {a : Zip.Archive} {own : Table Relationship}
    (hown : tableOf a "_rels/.rels" .empty readRelationships = .ok own) :
    let mains := own.values.filter Relationship.isMain
    (∀ (e : Enumeration) p, ofArchiveIn e.list a = .ok p → selectMain e.list a = .ok p.mainPart) ∧
    (mains = [] → ∀ e : Enumeration, selectMain e.list a = .ok defaultMainPart) ∧
    (mains ≠ [] → ∀ part, (∃ e : Enumeration, selectMain e.list a = .ok part) ↔
      ∃ r ∈ mains, r.rootPart = part) ∧
    ((∀ e e' : Enumeration, selectMain e.list a = selectMain e'.list a) ↔
      ∀ r ∈ mains, ∀ r' ∈ mains, r.rootPart = r'.rootPart) := by
  intro mains
  have hselect (e : Enumeration) := selectMain_eq hown e.list
  have hmem {r : Relationship} : r ∈ mains ↔ r ∈ own.values ∧ r.isMain := List.mem_filter
  have hleading {r : Relationship} (hr : r ∈ mains) :
      selectMain (Enumeration.leading r).list a = .ok r.rootPart := by
    obtain ⟨hr, hmain⟩ := hmem.1 hr
    rw [hselect, Enumeration.list_leading hr, mainPartOf_cons hmain]
  have hsome (e : Enumeration) {r : Relationship} (hr : r ∈ mains) :
      ∃ r' ∈ mains, selectMain e.list a = .ok r'.rootPart := by
    obtain ⟨hr, hmain⟩ := hmem.1 hr
    obtain ⟨r', hr', hmain', hpart⟩ := exists_mainPartOf ((e.perm own).mem_iff.2 hr) hmain
    refine ⟨r', hmem.2 ⟨(e.perm own).mem_iff.1 hr', hmain'⟩, ?_⟩
    rw [hselect, hpart]
  have hnone (hnil : mains = []) (e : Enumeration) :
      selectMain e.list a = .ok defaultMainPart := by
    have hno : ∀ r ∈ e.list own, ¬r.isMain := fun r hr =>
      List.filter_eq_nil_iff.1 hnil r ((e.perm own).mem_iff.1 hr)
    rw [hselect, mainPartOf_of_none hno]
  refine ⟨?_, hnone, ?_, ?_, ?_⟩
  · intro e p hp
    obtain ⟨part, hpart, hp⟩ := ok_of_bind hp
    rw [hpart, mainPart_of_ofMain hp]
  · intro hne part
    obtain ⟨r, hr⟩ := List.exists_mem_of_ne_nil mains hne
    constructor
    · rintro ⟨e, he⟩
      obtain ⟨r', hr', hpart⟩ := hsome e hr
      exact ⟨r', hr', Except.ok.inj (hpart.symm.trans he)⟩
    · rintro ⟨r, hr, rfl⟩
      exact ⟨.leading r, hleading hr⟩
  · intro hsame r hr r' hr'
    have hparts := hsame (.leading r) (.leading r')
    rw [hleading hr, hleading hr'] at hparts
    exact Except.ok.inj hparts
  · intro hsame e e'
    by_cases hnil : mains = []
    · rw [hnone hnil, hnone hnil]
    · obtain ⟨r, hr⟩ := List.exists_mem_of_ne_nil mains hnil
      obtain ⟨s, hs, he⟩ := hsome e hr
      obtain ⟨s', hs', he'⟩ := hsome e' hr
      rw [he, he', hsame s hs s' hs']

/-- Two main documents, the target of one of them with steps up and on the spot. -/
theorem selectMain_orders_two :
    let rels : List Relationship := [⟨Relationship.officeDocument, "a.xml", false⟩,
      ⟨Relationship.officeDocument, "../b/./c.xml", false⟩]
    let a := ofRelationships (["1", "2"].zip rels)
    ∃ own, tableOf a "_rels/.rels" .empty readRelationships = .ok own ∧ own.values = rels ∧
      ∀ part, (∃ e : Enumeration, selectMain e.list a = .ok part) ↔
        part = "a.xml" ∨ part = "b/c.xml" := by
  intro rels a
  have hown := tableOf_ofRelationships (["1", "2"].zip rels)
  have hvalues : (Table.empty.insertAll (["1", "2"].zip rels)).values = rels := rfl
  have hmains : rels.filter Relationship.isMain = rels := by decide +kernel
  have hroots : rels.map Relationship.rootPart = ["a.xml", "b/c.xml"] := by decide +kernel
  obtain ⟨-, -, hparts, -⟩ := selectMain_orders hown
  rw [hvalues, hmains] at hparts
  refine ⟨_, hown, hvalues, ?_⟩
  intro part
  rw [hparts (List.cons_ne_nil _ _), ← List.mem_map, hroots]
  simp only [List.mem_cons, List.not_mem_nil, or_false]

/-- Two orders of one table, two main documents. -/
theorem mainPart_differs :
    let rels : List Relationship := [⟨Relationship.officeDocument, "a.xml", false⟩,
      ⟨Relationship.officeDocument, "b.xml", false⟩]
    let a := ofRelationships (["1", "2"].zip rels)
    ∃ (e e' : Enumeration) (p p' : Package), ofArchiveIn e.list a = .ok p ∧
      ofArchiveIn e'.list a = .ok p' ∧ p.mainPart = "a.xml" ∧ p'.mainPart = "b.xml" := by
  intro rels a
  let e : Enumeration := .ofTable
  let e' : Enumeration := .leading ⟨Relationship.officeDocument, "b.xml", false⟩
  have hp : ofArchiveIn e.list a = .ok ⟨a, "a.xml", .empty, .empty⟩ :=
    ofArchiveIn_ofRelationships _ (by decide +kernel) (by decide +kernel)
  have hp' : ofArchiveIn e'.list a = .ok ⟨a, "b.xml", .empty, .empty⟩ :=
    ofArchiveIn_ofRelationships _ (by decide +kernel) (by decide +kernel)
  exact ⟨e, e', _, _, hp, hp', rfl, rfl⟩

end Inkpress.Package
