import Inkpress.Package.Tables
import Inkpress.Proofs.Package.Elements
import Inkpress.Proofs.Table
import Inkpress.Proofs.Xml.Respelling
import Inkpress.Proofs.Xml.StartTag

namespace Inkpress.Package

open Xml (Tag Event Spells IsAside IsName IsSpace WrittenAttribute WrittenTag ArePlain eventsIn encodeElement
  localKey_plainAttribute plainAttribute plainTag textEvents)

def told? : Event → Option (Option Tag)
  | .fault => some none
  | .start tag | .empty tag => some (some tag)
  | .text _ | .stop => none

def told (es : List Event) : List (Option Tag) :=
  es.filterMap told?

theorem told_append (es es' : List Event) : told (es ++ es') = told es ++ told es' :=
  List.filterMap_append

theorem told_textEvents (raw : List Char) : told (textEvents raw) = [] := by
  rw [textEvents]
  split <;> rfl

section

variable {β : Type} (visit : β → Tag → Except Fault β)

def visitTold (acc : β) : Option Tag → Except Fault β
  | none => .error .markup
  | some tag => visit acc tag

theorem foldlM_told (es : List Event) (acc : β) :
    es.foldlM (visitEvent visit) acc = (told es).foldlM (visitTold visit) acc := by
  induction es generalizing acc with
  | nil => rfl
  | cons e es ih =>
      rw [List.foldlM_cons, funext ih]
      cases e <;> rfl

theorem foldElements_told (start : β) (xml : String) :
    foldElements visit start xml = (told (Xml.events xml.toList)).foldlM (visitTold visit) start := by
  rw [← foldlM_told]
  rfl

theorem foldlM_visitTold (tags : List Tag) (acc : β) :
    (tags.map some).foldlM (visitTold visit) acc = tags.foldlM visit acc :=
  List.foldlM_map

end

theorem told_eventsIn (opened : List (List Char)) (cs : List Char) :
    told (eventsIn opened cs) = told (eventsIn opened (cs.dropWhile (· ≠ '<'))) := by
  have hevents : eventsIn opened cs = _ := Xml.Scanner.finish_run_text [] [] cs
  rw [hevents, told_append, told_append, told_textEvents]
  rfl

theorem told_events (cs : List Char) : told (Xml.events cs) = told (eventsIn [] cs) := by
  rw [Xml.events_eq_eventsIn]
  fun_cases Xml.unmarked cs with
  | case1 rest =>
      rw [told_eventsIn [] ('\uFEFF' :: rest), List.dropWhile_cons_of_pos (by decide), ← told_eventsIn]
  | case2 => rfl

/-- A part of a text that tells of some elements, whatever follows. -/
def Tells (cs : List Char) (opened : List (List Char)) (tags : List Tag)
    (opened' : List (List Char)) : Prop :=
  ∀ ds, told (eventsIn opened (cs ++ ds)) = tags.map some ++ told (eventsIn opened' ds)

namespace Tells

variable {cs ds raw : List Char} {opened opened' opened'' : List (List Char)} {tags tags' : List Tag}
  {es : List Event}

theorem nil : Tells [] opened [] opened := fun _ => rfl

theorem append (h : Tells cs opened tags opened') (h' : Tells ds opened' tags' opened'') :
    Tells (cs ++ ds) opened (tags ++ tags') opened'' := by
  intro rest
  rw [List.append_assoc, h, h', List.map_append, List.append_assoc]

theorem of_spells (h : Spells cs opened es opened') (hes : told es = tags.map some) :
    Tells cs opened tags opened' := by
  intro rest
  rw [h.eventsIn_append, told_append, hes]

theorem none (h : Spells cs opened [] opened') : Tells cs opened [] opened' :=
  of_spells h rfl

theorem one {tag : Tag} {e : Event} (h : Spells cs opened [e] opened')
    (he : told? e = some (some tag)) : Tells cs opened [tag] opened' :=
  of_spells h (List.filterMap_cons_some he)

theorem text (h : '<' ∉ raw) : Tells raw opened [] opened := by
  intro rest
  have hraw : ∀ c ∈ raw, decide (c ≠ '<') := by
    intro c hc
    exact decide_eq_true fun hlt => h (hlt ▸ hc)
  rw [told_eventsIn, List.dropWhile_append_of_pos hraw, ← told_eventsIn]
  rfl

theorem foldElements_eq {β : Type} (visit : β → Tag → Except Fault β) (start : β)
    (h : Tells cs [] tags opened) :
    foldElements visit start (String.ofList cs) = tags.foldlM visit start := by
  have hend := h []
  have hnil : told (eventsIn opened []) = [] := rfl
  rw [List.append_nil, hnil, List.append_nil] at hend
  rw [foldElements_told, String.toList_ofList, told_events, hend, foldlM_visitTold]

end Tells

def attributesOf (t : WrittenTag) : List (String × String) :=
  t.attributes.map fun a => (String.ofList a.read.localKey, String.ofList a.text)

theorem attributes_tag (t : WrittenTag) :
    attributes t.tag = .ok (Table.empty.insertAll (attributesOf t)) := by
  have hfold (as : List WrittenAttribute) (table : Table String) :
      (as.map fun a => some a.read).foldlM addAttribute table = .ok (table.insertAll
        (as.map fun a => (String.ofList a.read.localKey, String.ofList a.text))) := by
    induction as generalizing table with
    | nil => rfl
    | cons a as ih =>
        have hadd : addAttribute table (some a.read) =
            .ok (table.insert (String.ofList a.read.localKey) (String.ofList a.text)) := by
          have hvalue : Xml.unescape a.read.value = some a.text := a.unescape_value
          simp only [addAttribute, hvalue]
        rw [List.map_cons, List.foldlM_cons, hadd]
        exact ih _
  exact hfold t.attributes .empty

theorem attributesOf_plainTag (name : String) (hname : IsName name.toList)
    {fields : List (String × String)} (h : ArePlain fields) :
    attributesOf (plainTag name hname h) = fields := by
  have hfield : ∀ f ∈ fields, ∀ hf : IsName f.1.toList,
      (String.ofList (plainAttribute f.1 hf f.2).read.localKey,
        String.ofList (plainAttribute f.1 hf f.2).text) = f := by
    intro f hmem hf
    rw [localKey_plainAttribute hf (h.colon_notMem f hmem)]
    exact Prod.ext String.ofList_toList String.ofList_toList
  have hpmap : fields.pmap (fun f hf => (String.ofList (plainAttribute f.1 hf f.2).read.localKey,
      String.ofList (plainAttribute f.1 hf f.2).text)) h.isName = fields.pmap (fun f _ => f) h.isName :=
    List.pmap_congr_left fields fun f hmem hf _ => hfield f hmem hf
  rw [attributesOf, plainTag, List.map_pmap, hpmap, List.pmap_eq_map, List.map_id']

namespace Relationship

def fields (id : String) (r : Relationship) : List (String × String) :=
  [("Id", id), ("Type", r.kind), ("Target", r.target)] ++
    if r.external then [("TargetMode", "External")] else []

theorem arePlain_fields (id : String) (r : Relationship) : ArePlain (r.fields id) := by
  let keys := ["Id", "Type", "Target", "TargetMode"]
  have hprefix : (r.fields id).map (·.1) <+: keys := by
    rw [fields]
    split
    · exact List.prefix_rfl
    · exact ⟨["TargetMode"], rfl⟩
  have hmem {f : String × String} (hf : f ∈ r.fields id) : f.1 ∈ keys :=
    hprefix.subset (List.mem_map_of_mem hf)
  have hname : ∀ key ∈ keys, IsName key.toList := by decide +kernel
  have hcolon : ∀ key ∈ keys, ':' ∉ key.toList := by decide +kernel
  have hnodup : keys.Nodup := by decide +kernel
  exact ⟨fun f hf => hname _ (hmem hf), fun f hf => hcolon _ (hmem hf), hnodup.sublist hprefix.sublist⟩

def writtenTag (id : String) (r : Relationship) : WrittenTag :=
  plainTag "Relationship" (by decide) (r.arePlain_fields id)

def encode (id : String) (r : Relationship) : List Char :=
  encodeElement "Relationship" (r.fields id)

theorem encode_eq (id : String) (r : Relationship) :
    r.encode id = '<' :: (r.writtenTag id).content ++ ['/', '>'] :=
  (Xml.content_plainTag _ _ (r.arePlain_fields id)).symm

theorem visit_writtenTag (rels : Table Relationship) (id : String) (r : Relationship) :
    visit rels (r.writtenTag id).tag = .ok (rels.insert id r) := by
  have hlocal : Xml.localName "Relationship".toList = "Relationship".toList := by decide
  have hname : (r.writtenTag id).tag.localName = "Relationship".toList := hlocal
  have hread : ofAttributes? (Table.empty.insertAll (r.fields id)) = some (id, r) := by
    obtain ⟨kind, target, external⟩ := r
    cases external
    · simp [fields, ofAttributes?, Table.find?_insertAll, Table.last?]
    · have hmode : Text.lowerAscii "External" = "external" := by decide +kernel
      simp [fields, ofAttributes?, Table.find?_insertAll, Table.last?, hmode]
  rw [visit, if_pos hname, attributes_tag, writtenTag, attributesOf_plainTag]
  simp only [Except.map, hread]

end Relationship

/-- A tag that says nothing about relationships: it has another name, no id or no target. -/
def IsSilent (t : WrittenTag) : Prop :=
  t.localName ≠ "Relationship".toList ∨
    (∀ a ∈ t.attributes, a.read.localKey ≠ "Id".toList) ∨
    ∀ a ∈ t.attributes, a.read.localKey ≠ "Target".toList

theorem visit_of_isSilent {t : WrittenTag} (h : IsSilent t) (rels : Table Relationship) :
    Relationship.visit rels t.tag = .ok rels := by
  by_cases hname : t.localName = "Relationship".toList
  · have hnone (key : String) (hkey : ∀ a ∈ t.attributes, a.read.localKey ≠ key.toList) :
        (Table.empty.insertAll (attributesOf t)).find? key = none := by
      have hlast : Table.last? (attributesOf t) key = none := by
        rw [Table.last?_eq_none_iff, attributesOf, List.forall_mem_map]
        intro a ha heq
        exact hkey a ha (by rw [← heq, String.toList_ofList])
      rw [Table.find?_insertAll, hlast]
      rfl
    have hread : Relationship.ofAttributes? (Table.empty.insertAll (attributesOf t)) = none := by
      rcases h with h | h | h
      · exact absurd hname h
      · rw [Relationship.ofAttributes?, hnone "Id" h]
        rfl
      · rw [Relationship.ofAttributes?, hnone "Target" h]
        cases (Table.empty.insertAll (attributesOf t)).find? "Id" <;> rfl
    have hname : t.tag.localName = "Relationship".toList := hname
    rw [Relationship.visit, if_pos hname, attributes_tag]
    simp only [Except.map, hread]
  · have hname : t.tag.localName ≠ "Relationship".toList := hname
    rw [Relationship.visit, if_neg hname]

/-- Relationships one after the other, with other markup between and around them. -/
inductive Listing
  | nil
  | relationship (id : String) (r : Relationship) (rest : Listing)
  | text (raw : List Char) (h : '<' ∉ raw) (rest : Listing)
  | aside (written : List Char) (h : IsAside written) (rest : Listing)
  | cdata (body : List Char) (h : ¬"]]>".toList <:+: body) (rest : Listing)
  | element (tag : WrittenTag) (h : IsSilent tag) (space : List Char) (hspace : IsSpace space)
    (content rest : Listing)
  | closed (tag : WrittenTag) (h : IsSilent tag) (rest : Listing)

namespace Listing

def written : Listing → List Char
  | nil => []
  | relationship id r rest => r.encode id ++ rest.written
  | text raw _ rest => raw ++ rest.written
  | aside written _ rest => written ++ rest.written
  | cdata body _ rest => Xml.cdata body ++ rest.written
  | element tag _ space _ content rest =>
    '<' :: tag.content ++ ['>'] ++
      (content.written ++ ('<' :: '/' :: tag.name ++ space ++ ['>'] ++ rest.written))
  | closed tag _ rest => '<' :: tag.content ++ ['/', '>'] ++ rest.written

def relationships : Listing → List (String × Relationship)
  | nil => []
  | relationship id r rest => (id, r) :: rest.relationships
  | text _ _ rest | aside _ _ rest | cdata _ _ rest | closed _ _ rest => rest.relationships
  | element _ _ _ _ content rest => content.relationships ++ rest.relationships

def tags : Listing → List Tag
  | nil => []
  | relationship id r rest => (r.writtenTag id).tag :: rest.tags
  | text _ _ rest | aside _ _ rest | cdata _ _ rest => rest.tags
  | element tag _ _ _ content rest => tag.tag :: (content.tags ++ rest.tags)
  | closed tag _ rest => tag.tag :: rest.tags

def plain (es : List (String × Relationship)) : Listing :=
  es.foldr (fun e rest => relationship e.1 e.2 rest) nil

theorem tells_written (l : Listing) (opened : List (List Char)) :
    Tells l.written opened l.tags opened := by
  induction l generalizing opened with
  | nil => exact .nil
  | relationship id r rest ih =>
      rw [written, r.encode_eq]
      exact (Tells.one ((r.writtenTag id).spells_empty opened) rfl).append (ih opened)
  | text raw h rest ih => exact (Tells.text h).append (ih opened)
  | aside written h rest ih => exact (Tells.none (.aside h opened)).append (ih opened)
  | cdata body h rest ih => exact (Tells.none (.cdata h opened)).append (ih opened)
  | element tag h space hspace content rest ihContent ihRest =>
      have hstart : Tells ('<' :: tag.content ++ ['>']) opened [tag.tag] (tag.name :: opened) :=
        .one (tag.spells_start opened) rfl
      have hstop : Tells ('<' :: '/' :: tag.name ++ space ++ ['>']) (tag.name :: opened) [] opened :=
        .of_spells (tag.spells_stop hspace opened) rfl
      exact hstart.append ((ihContent _).append (hstop.append (ihRest opened)))
  | closed tag h rest ih =>
      exact (Tells.one (tag.spells_empty opened) rfl).append (ih opened)

theorem foldlM_tags (l : Listing) (rels : Table Relationship) :
    l.tags.foldlM Relationship.visit rels = .ok (rels.insertAll l.relationships) := by
  induction l generalizing rels with
  | nil => rfl
  | relationship id r rest ih =>
      rw [tags, List.foldlM_cons, r.visit_writtenTag]
      exact ih _
  | text raw h rest ih => exact ih rels
  | aside written h rest ih => exact ih rels
  | cdata body h rest ih => exact ih rels
  | element tag h space hspace content rest ihContent ihRest =>
      have hcontent : (content.tags ++ rest.tags).foldlM Relationship.visit rels =
          .ok ((rels.insertAll content.relationships).insertAll rest.relationships) := by
        rw [List.foldlM_append, ihContent]
        exact ihRest _
      rw [tags, List.foldlM_cons, visit_of_isSilent h, relationships, Table.insertAll_append]
      exact hcontent
  | closed tag h rest ih =>
      rw [tags, List.foldlM_cons, visit_of_isSilent h]
      exact ih rels

theorem readRelationships_eq (l : Listing) :
    readRelationships (String.ofList l.written) = .ok (Table.empty.insertAll l.relationships) := by
  rw [readRelationships, (l.tells_written []).foldElements_eq, foldlM_tags]

theorem written_plain (es : List (String × Relationship)) :
    (plain es).written = es.flatMap fun e => e.2.encode e.1 := by
  induction es with
  | nil => rfl
  | cons e es ih => rw [List.flatMap_cons, ← ih]; rfl

theorem relationships_plain (es : List (String × Relationship)) : (plain es).relationships = es := by
  induction es with
  | nil => rfl
  | cons e es ih => exact congrArg (e :: ·) ih

end Listing

/-- Whatever stands between the relationships of a listing, and whatever their ids, kinds and targets are:
each id is read with the relationship that was written last under it, there are no other ids, and the
relationships alone give the same table. -/
theorem readRelationships_written (l : Listing) :
    ∃ rels, readRelationships (String.ofList l.written) = .ok rels ∧
      readRelationships (String.ofList (l.relationships.flatMap fun e => e.2.encode e.1)) = .ok rels ∧
      rels.keys.Nodup ∧ (∀ id, id ∈ rels.keys ↔ id ∈ l.relationships.map (·.1)) ∧
      ∀ id, rels.find? id = Table.last? l.relationships id := by
  refine ⟨_, l.readRelationships_eq, ?_, ?_, ?_, ?_⟩
  · have hplain := (Listing.plain l.relationships).readRelationships_eq
    rwa [Listing.written_plain, Listing.relationships_plain] at hplain
  · have hempty : (Table.empty : Table Relationship).keys.Nodup := List.nodup_nil
    exact Table.nodup_keys_insertAll hempty _
  · intro id
    rw [Table.mem_keys_insertAll]
    exact or_iff_left List.not_mem_nil
  · intro id
    rw [Table.find?_insertAll]
    exact Option.or_none

end Inkpress.Package
