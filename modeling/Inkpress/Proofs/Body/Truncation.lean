import Inkpress.Proofs.Body.Tags

namespace Inkpress.Body

open Xml (Tag Event nestAll tagsIn)

theorem Forest.nestAll_tags (f : Forest) (opened : List (List Char)) :
    nestAll opened f.tags = some opened := by
  rw [tags, Xml.nestAll_filter_isTag, f.nestAll_events]

theorem Forest.tags_root (root : Tag) (content : Forest) :
    (element root content nil).tags = .start root :: (content.tags ++ [.stop]) := by
  rw [tags, events, List.filter_cons_of_pos rfl, List.filter_append]
  rfl

/-- Within an element its name stays open until its end tag. -/
theorem exists_opened_of_isPrefix {root : Tag} {content : Forest} {es : List Event}
    (h : es <+: (Forest.element root content .nil).tags) (hstart : es ≠ [])
    (hstop : es ≠ (Forest.element root content .nil).tags) :
    ∃ opened, nestAll [] es = some (opened ++ [root.name]) := by
  rw [Forest.tags_root] at h hstop
  cases es with
  | nil => exact absurd rfl hstart
  | cons e es =>
      obtain ⟨rfl, hes⟩ := List.cons_prefix_cons.1 h
      rcases List.prefix_concat_iff.1 hes with rfl | ⟨rest, hrest⟩
      · exact absurd rfl hstop
      · have hcontent := content.nestAll_tags []
        rw [← hrest, Xml.nestAll_append] at hcontent
        obtain ⟨opened, hopened, -⟩ := Option.bind_eq_some_iff.1 hcontent
        exact ⟨opened, Xml.nestAll_frame hopened [root.name]⟩

/-- A document whose tags are those of one element, cut off where its start tag is complete and its end
tag is not, has no paragraphs. -/
theorem paragraphs_cut {xml : String} {root : Tag} {content : Forest}
    (hroot : tagsIn xml.toList = (Forest.element root content .nil).tags) {k : Nat}
    (hstart : tagsIn (xml.toList.take k) ≠ [])
    (hstop : tagsIn (xml.toList.take k) ≠ tagsIn xml.toList) :
    ∃ fault, paragraphs (String.ofList (xml.toList.take k)) = .error fault := by
  have hprefix : tagsIn (xml.toList.take k) <+: tagsIn xml.toList := by
    conv_rhs => rw [← List.take_append_drop k xml.toList]
    exact Xml.isPrefix_tagsIn _ _
  rw [hroot] at hprefix hstop
  obtain ⟨opened, hopened⟩ := exists_opened_of_isPrefix hprefix hstart hstop
  rw [← Xml.nestAll_events] at hopened
  rw [paragraphs, String.toList_ofList]
  cases hps : paragraphsOfEvents (Xml.events (xml.toList.take k)) with
  | error fault => exact ⟨fault, rfl⟩
  | ok ps =>
      have hnil := opened_of_paragraphsOfEvents hps hopened
      exact absurd (List.append_eq_nil_iff.1 hnil).2 (List.cons_ne_nil _ _)

/-- A document that is cut off within a reference. -/
theorem paragraphs_cut_reference :
    let xml := "<body><p><r><t>x&amp;y</t></r></p></body>"
    let element (name : String) (content : Forest) : Forest :=
      .element ⟨name.toList, []⟩ content .nil
    paragraphs xml = .ok [⟨"x&y", []⟩] ∧
      tagsIn xml.toList = (element "body" (element "p" (element "r" (element "t" .nil)))).tags ∧
      tagsIn (xml.toList.take 19) ≠ [] ∧ tagsIn (xml.toList.take 19) ≠ tagsIn xml.toList ∧
      ∃ fault, paragraphs "<body><p><r><t>x&am" = .error fault := by
  intro xml element
  have hcut : String.ofList (xml.toList.take 19) = "<body><p><r><t>x&am" := by decide +kernel
  have hroot : tagsIn xml.toList =
      (element "body" (element "p" (element "r" (element "t" .nil)))).tags := by decide +kernel
  have hstart : tagsIn (xml.toList.take 19) ≠ [] := by decide +kernel
  have hstop : tagsIn (xml.toList.take 19) ≠ tagsIn xml.toList := by decide +kernel
  refine ⟨by decide +kernel, hroot, hstart, hstop, ?_⟩
  rw [← hcut]
  exact paragraphs_cut hroot hstart hstop

end Inkpress.Body
