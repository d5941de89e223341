import Inkpress.Proofs.Body.Drawings
import Inkpress.Proofs.Body.Tags

namespace Inkpress.Body

open Xml (Tag Event nestAll tagsIn)

namespace OpenParagraph

variable {p q : OpenParagraph}

def outline (p : OpenParagraph) : Nat × Option Nat × List (Option String) :=
  (p.depth, p.drawing, p.read.drawings)

theorem outline_element (h : p.outline = q.outline) (opened : List (List Char)) (tag : Tag)
    (opens : Bool) : (p.element opened tag opens).outline = (q.element opened tag opens).outline := by
  obtain ⟨hdepth, h⟩ := Prod.mk.inj h
  obtain ⟨hdrawing, hdrawings⟩ := Prod.mk.inj h
  rw [outline, outline, depth_element, depth_element, drawing_element, drawing_element,
    drawings_element, drawings_element, hdepth, hdrawing, hdrawings]

theorem outline_close (h : p.outline = q.outline) (n : Nat) :
    (p.close n).outline = (q.close n).outline := by
  obtain ⟨hdepth, h⟩ := Prod.mk.inj h
  obtain ⟨hdrawing, hdrawings⟩ := Prod.mk.inj h
  rw [close, close, hdrawing]
  by_cases hn : q.drawing = some n
  · rw [if_pos hn, if_pos hn, outline, outline, hdepth, hdrawings]
  · rw [if_neg hn, if_neg hn, outline, outline, hdepth, hdrawing, hdrawings]

end OpenParagraph

namespace Walk

variable {w v u : Walk}

def outline (w : Walk) :
    List (List Char) × Option (Nat × Option Nat × List (Option String)) × List (List (Option String)) :=
  (w.opened, w.current.map OpenParagraph.outline, w.collected.map Paragraph.drawings)

theorem outline_eq (hopened : w.opened = v.opened)
    (hcurrent : w.current.map OpenParagraph.outline = v.current.map OpenParagraph.outline)
    (hcollected : w.collected.map Paragraph.drawings = v.collected.map Paragraph.drawings) :
    w.outline = v.outline := by
  rw [outline, outline, hopened, hcurrent, hcollected]

theorem outline_step_text {raw : List Char} (h : w.step (.text raw) = .ok u) :
    u.outline = w.outline := by
  obtain ⟨opened, current, collected⟩ := w
  cases current with
  | none =>
      cases h
      rfl
  | some p =>
      simp only [step] at h
      split at h
      · split at h
        · cases h
          rfl
        · cases h
      · cases h
        rfl

/-- Tags never stop the walk, and what they do to the outline depends on the outline alone. -/
theorem outline_step {e : Event} (he : e.isTag) (h : w.outline = v.outline) :
    ∃ w' v', w.step e = .ok w' ∧ v.step e = .ok v' ∧ w'.outline = v'.outline := by
  obtain ⟨opened, current, collected⟩ := w
  obtain ⟨opened', current', collected'⟩ := v
  obtain ⟨hopened, h⟩ := Prod.mk.inj h
  obtain ⟨hcurrent, hcollected⟩ := Prod.mk.inj h
  obtain rfl : opened = opened' := hopened
  cases current with
  | none =>
      obtain rfl : current' = none := Option.map_eq_none_iff.1 hcurrent.symm
      cases e with
      | start tag => exact ⟨_, _, rfl, rfl, outline_eq rfl rfl hcollected⟩
      | empty tag =>
          refine ⟨_, _, rfl, rfl, ?_⟩
          by_cases hp : beginsParagraph ⟨opened, none, collected⟩ tag = true
          · have hp' : beginsParagraph ⟨opened, none, collected'⟩ tag = true := hp
            rw [if_pos hp, if_pos hp']
            exact outline_eq rfl rfl (congrArg (_ :: ·) hcollected)
          · have hp' : ¬beginsParagraph ⟨opened, none, collected'⟩ tag = true := hp
            rw [if_neg hp, if_neg hp']
            exact outline_eq rfl rfl hcollected
      | stop => exact ⟨_, _, rfl, rfl, outline_eq rfl rfl hcollected⟩
      | text raw => cases he
      | fault => cases he
  | some p =>
      obtain ⟨q, rfl, hqp⟩ := Option.map_eq_some_iff.1 hcurrent.symm
      cases e with
      | start tag =>
          have hread := OpenParagraph.outline_element hqp.symm opened tag true
          exact ⟨_, _, rfl, rfl, outline_eq rfl (congrArg some hread) hcollected⟩
      | empty tag =>
          have hread := OpenParagraph.outline_element hqp.symm opened tag false
          exact ⟨_, _, rfl, rfl, outline_eq rfl (congrArg some hread) hcollected⟩
      | stop =>
          have hread := OpenParagraph.outline_close hqp.symm opened.dropLast.length
          obtain ⟨hdepth, h⟩ := Prod.mk.inj hread
          obtain ⟨-, hdrawings⟩ := Prod.mk.inj h
          simp only [step]
          by_cases hend : (q.close opened.dropLast.length).depth = opened.dropLast.length
          · rw [if_pos hend, if_pos (hdepth.trans hend)]
            exact ⟨_, _, rfl, rfl, outline_eq rfl rfl (congrArg₂ List.cons hdrawings hcollected)⟩
          · rw [if_neg hend, if_neg (by rwa [hdepth])]
            exact ⟨_, _, rfl, rfl, outline_eq rfl (congrArg some hread) hcollected⟩
      | text raw => cases he
      | fault => cases he

theorem outline_run {es : List Event} (h : w.run es = .ok u) (hv : w.outline = v.outline) :
    ∃ v', v.run (es.filter Event.isTag) = .ok v' ∧ u.outline = v'.outline := by
  induction es generalizing w v with
  | nil =>
      cases h
      exact ⟨v, rfl, hv⟩
  | cons e es ih =>
      by_cases he : e.isTag = true
      · obtain ⟨w', v', hw', hv', houtline⟩ := outline_step he hv
        rw [List.filter_cons_of_pos he, run_cons hv']
        rw [run_cons hw'] at h
        exact ih h houtline
      · rw [List.filter_cons_of_neg he]
        cases e with
        | text raw =>
            cases hstep : w.step (.text raw) with
            | error fault =>
                rw [run, List.foldlM_cons, hstep] at h
                cases h
            | ok w' =>
                rw [run_cons hstep] at h
                exact ih h ((outline_step_text hstep).trans hv)
        | fault => cases h
        | _ => exact absurd rfl he

end Walk

theorem drawings_eq_of_tags {es es' : List Event} {ps ps' : List Paragraph}
    (htags : es.filter Event.isTag = es'.filter Event.isTag) (h : paragraphsOfEvents es = .ok ps)
    (h' : paragraphsOfEvents es' = .ok ps') :
    ps.map Paragraph.drawings = ps'.map Paragraph.drawings := by
  obtain ⟨w, hw, -, rfl⟩ := exists_run_of_paragraphsOfEvents h
  obtain ⟨w', hw', -, rfl⟩ := exists_run_of_paragraphsOfEvents h'
  obtain ⟨v, hv, hwv⟩ := Walk.outline_run hw rfl
  obtain ⟨v', hv', hwv'⟩ := Walk.outline_run hw' rfl
  rw [htags, hv'] at hv
  obtain rfl := Except.ok.inj hv
  obtain ⟨-, h⟩ := Prod.mk.inj (hwv.trans hwv'.symm)
  obtain ⟨-, hcollected⟩ := Prod.mk.inj h
  rw [List.map_reverse, List.map_reverse, hcollected]

structure Site.Records (s : Site) (entry : Option String) : Prop where
  leading : (s.closed && s.nested) = false → entry = pictureOf s.content.leadingBlips
  own : (s.closed && s.nested) = false → s.content.holdsDrawing = false →
    entry = pictureOf s.content.ownBlips

theorem Site.Leads.records {s : Site} {entry : Option String} (h : s.Leads entry) : s.Records entry where
  leading := h
  own hfree hnone := by rw [h hfree, Forest.leadingBlips_eq_ownBlips hnone]

/-- The entries of a paragraph with some content: one for each drawing, in the order of their start
tags. -/
def Forest.Records (content : Forest) (p : Paragraph) : Prop :=
  List.Forall₂ Site.Records (content.sites false) p.drawings

/-- The tags of a text with paragraphs are those of a forest, and its drawings are recorded. The entry of
a drawing is the first picture of its own blips, if no drawing begins inside it, and the first of those
before such a drawing otherwise. Of a drawing that is closed in its own tag inside another one nothing
is said. -/
theorem paragraphs_pictures {xml : String} {ps : List Paragraph} (h : paragraphs xml = .ok ps) :
    (∃ f : Forest, f.tags = tagsIn xml.toList) ∧
    ∀ f : Forest, f.tags = tagsIn xml.toList → List.Forall₂ Forest.Records f.contents ps := by
  have hnest : nestAll [] (Xml.events xml.toList) = some (Xml.scan xml.toList).opened := by
    rw [Xml.nestAll_events, Xml.nestAll_tagsIn]
  constructor
  · have htags := Xml.nestAll_tagsIn xml.toList
    rw [opened_of_paragraphsOfEvents h hnest, ← Xml.filter_isTag_events] at htags
    obtain ⟨f, hf⟩ := exists_forest (fun e he => (List.mem_filter.1 he).2) htags
    refine ⟨f, ?_⟩
    rw [Forest.tags, hf, List.filter_filter, ← Xml.filter_isTag_events]
    simp only [Bool.and_self]
  · intro f hf
    have hhold : ¬HoldParagraph [] := by decide
    have hread (opened : List (List Char)) (content : Forest) :
        content.Records (content.read opened) :=
      (content.drawings_read opened).imp fun _ _ hs => hs.records
    have hcollect : List.Forall₂ (fun content entries => List.Forall₂ Site.Records
        (content.sites false) entries) f.contents ((f.collect []).map Paragraph.drawings) :=
      List.forall₂_map_right_iff.2 (f.forall₂_collect hread hhold)
    rw [← Xml.filter_isTag_events] at hf
    rw [drawings_eq_of_tags hf (paragraphsOfEvents_events f) h] at hcollect
    exact (List.forall₂_map_right_iff (f := Paragraph.drawings)).1 hcollect

/-- Two pictures one after the other. -/
theorem paragraphs_pictures_beside :
    let xml :=
      "<body><p><drawing><blip embed='a'/></drawing><drawing><blip embed='b'/></drawing></p></body>"
    let ps : List Paragraph := [⟨"", [some "a", some "b"]⟩]
    paragraphs xml = .ok ps ∧ (∃ f : Forest, f.tags = tagsIn xml.toList) ∧
      ∀ f : Forest, f.tags = tagsIn xml.toList → List.Forall₂ Forest.Records f.contents ps := by
  intro xml ps
  have h : paragraphs xml = .ok ps := by decide +kernel
  exact ⟨h, paragraphs_pictures h⟩

/-- A drawing inside another one takes its entry, and leaves the walk with no open drawing. -/
theorem paragraphs_pictures_nested :
    let xml :=
      "<body><p><drawing><drawing><blip embed='a'/></drawing><blip embed='b'/></drawing></p></body>"
    let blip (id : String) : Tag := ⟨"blip".toList, [some ⟨"embed".toList, id.toList⟩]⟩
    let element (name : String) (content rest : Forest) : Forest :=
      .element ⟨name.toList, []⟩ content rest
    let content := element "drawing"
      (element "drawing" (.closed (blip "a") .nil) (.closed (blip "b") .nil)) .nil
    let document := element "body" (element "p" content .nil) .nil
    let own (content : Forest) := (content.sites false).map fun s => pictureOf s.content.ownBlips
    document.tags = tagsIn xml.toList ∧ document.contents.map own = [[some "b", some "a"]] ∧
      paragraphs xml = .ok [⟨"", [none, some "a"]⟩] := by
  decide +kernel

end Inkpress.Body
