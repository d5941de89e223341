import Inkpress.Proofs.Body.Indices
import Inkpress.Proofs.Body.Truncation
import Mathlib.Data.List.Induction

namespace Inkpress.Body

open Xml (Tag Event nest nestAll)

inductive LeavesOpen : List Event → List Tag → Prop
  | trees (f : Forest) : LeavesOpen f.tags []
  | element (f : Forest) (tag : Tag) {es : List Event} {tags : List Tag} (h : LeavesOpen es tags) :
      LeavesOpen (f.tags ++ .start tag :: es) (tag :: tags)

namespace LeavesOpen

variable {es : List Event} {tags : List Tag} {tag : Tag}

theorem nil : LeavesOpen [] [] :=
  .trees .nil

theorem trees_of_nestAll {f : Forest} (hes : ∀ e ∈ es, e.isTag) (h : nestAll [] es = some []) :
    LeavesOpen (f.tags ++ es) [] := by
  have htags : ∀ e ∈ f.tags ++ es, e.isTag := by
    intro e he
    rcases List.mem_append.1 he with he | he
    · exact (List.mem_filter.1 he).2
    · exact hes e he
  have hnest : nestAll [] (f.tags ++ es) = some [] := by
    rw [Xml.nestAll_append, f.nestAll_tags, Option.bind_some, h]
  obtain ⟨g, hg⟩ := exists_forest htags hnest
  have htags' : g.tags = f.tags ++ es := by
    rw [Forest.tags, hg]
    exact List.filter_eq_self.2 htags
  exact htags' ▸ .trees g

theorem start (h : LeavesOpen es tags) (tag : Tag) : LeavesOpen (es ++ [.start tag]) (tags ++ [tag]) := by
  induction h with
  | trees f => exact .element f tag nil
  | element f outer h ih =>
      rw [List.append_assoc, List.cons_append]
      exact .element f outer ih

theorem empty (h : LeavesOpen es tags) (tag : Tag) : LeavesOpen (es ++ [.empty tag]) tags := by
  induction h with
  | trees f => exact trees_of_nestAll (List.forall_mem_singleton.2 rfl) rfl
  | element f outer h ih =>
      rw [List.append_assoc, List.cons_append]
      exact .element f outer ih

theorem stop (h : LeavesOpen es (tags ++ [tag])) : LeavesOpen (es ++ [.stop]) tags := by
  generalize hopen : tags ++ [tag] = opened at h
  induction h generalizing tags with
  | trees f => exact absurd hopen (List.concat_ne_nil _ _)
  | @element f outer es' inner h ih =>
      rw [List.append_assoc, List.cons_append]
      cases tags with
      | cons t tags =>
          obtain ⟨rfl, rfl⟩ := List.cons.inj hopen
          exact .element f t (ih rfl)
      | nil =>
          obtain ⟨rfl, rfl⟩ := List.cons.inj hopen
          cases h with
          | trees g =>
              have hnest : nestAll [] (.start tag :: (g.tags ++ [.stop])) = some [] := by
                have hcontent := g.nestAll_tags [tag.name]
                have happend := Xml.nestAll_append [tag.name] g.tags [.stop]
                rw [hcontent, Option.bind_some] at happend
                exact happend
              refine trees_of_nestAll ?_ hnest
              intro e he
              rcases List.mem_cons.1 he with rfl | he
              · rfl
              · rcases List.mem_append.1 he with he | he
                · exact (List.mem_filter.1 he).2
                · rw [List.mem_singleton.1 he]
                  rfl

end LeavesOpen

theorem exists_leavesOpen {es : List Event} {opened : List (List Char)} (h : nestAll [] es = some opened) :
    ∃ tags : List Tag, LeavesOpen (es.filter Event.isTag) tags ∧ opened = (tags.map (·.name)).reverse := by
  induction es using List.reverseRecOn generalizing opened with
  | nil =>
      obtain rfl := Option.some.inj h
      exact ⟨[], .nil, rfl⟩
  | append_singleton es e ih =>
      rw [Xml.nestAll_append] at h
      obtain ⟨before, hbefore, hlast⟩ := Option.bind_eq_some_iff.1 h
      obtain ⟨tags, htags, rfl⟩ := ih hbefore
      have hnest : nest (tags.map (·.name)).reverse e = some opened := by
        rw [nestAll, List.foldlM_cons] at hlast
        simpa using hlast
      rw [List.filter_append]
      cases e with
      | start tag =>
          obtain rfl := Option.some.inj hnest
          exact ⟨tags ++ [tag], htags.start tag, by simp⟩
      | empty tag =>
          obtain rfl := Option.some.inj hnest
          exact ⟨tags, htags.empty tag, rfl⟩
      | stop =>
          rcases List.eq_nil_or_concat' tags with rfl | ⟨tags, tag, rfl⟩
          · cases hnest
          · rw [List.map_append, List.reverse_append] at hnest
            obtain rfl := Option.some.inj hnest
            exact ⟨tags, htags.stop, rfl⟩
      | text raw | fault =>
          obtain rfl := Option.some.inj hnest
          exact ⟨tags, (List.append_nil (es.filter Event.isTag)).symm ▸ htags, rfl⟩

namespace Walk

variable {w v : Walk}

def canLook (w : Walk) : Event → Bool
  | .start _ | .empty _ | .text _ => w.current.all fun p => p.depth + 1 ≤ w.opened.length
  | .stop | .fault => true

/-- The walk with every look watched: nothing, if one of them goes wrong. -/
def run? (w : Walk) : List Event → Option (Except Fault Walk)
  | [] => some (.ok w)
  | e :: es =>
    if w.canLook e then
      match w.step e with
      | .ok v => v.run? es
      | .error fault => some (.error fault)
    else none

theorem Points.canLook (h : w.Points) (e : Event) : w.canLook e := by
  cases e with
  | start | empty | text =>
      rw [Walk.canLook, Option.all_eq_true]
      exact fun p hp => decide_eq_true (h p hp).depth_lt
  | stop | fault => rfl

/-- No look goes wrong, so that watching changes nothing. -/
theorem Points.run?_eq (h : w.Points) (es : List Event) : w.run? es = some (w.run es) := by
  induction es generalizing w with
  | nil => rfl
  | cons e es ih =>
      rw [run?, if_pos (h.canLook e), Walk.run, List.foldlM_cons]
      cases hstep : w.step e with
      | error fault => rfl
      | ok v => exact ih (h.step hstep)

end Walk

/-- After each event of a text the names that are kept are those of the elements that are open. A
paragraph that is being read keeps its own depth and that of a drawing among them, so that the names below
it can be looked at; and at no event of any text is a look taken anywhere else. -/
theorem walk_indices (xml : String) :
    (∀ es w, es <+: Xml.events xml.toList → Walk.start.run es = .ok w →
      (∃ tags, LeavesOpen (es.filter Event.isTag) tags ∧ w.opened = tags.map Tag.localName) ∧
      ∀ p ∈ w.current, p.Points w.opened ∧ p.depth + 1 ≤ w.opened.length) ∧
    (Walk.start.run? (Xml.events xml.toList)).map (· >>= Walk.finish) = some (paragraphs xml) := by
  refine ⟨?_, ?_⟩
  · intro es w hes hrun
    refine ⟨?_, fun p hp => ?_⟩
    · obtain ⟨after, hafter⟩ := hes
      have hall : nestAll [] (Xml.events xml.toList) = some (Xml.scan xml.toList).opened := by
        rw [Xml.nestAll_events, Xml.nestAll_tagsIn]
      -- The scanner lets no end tag through that fits no open element.
      rw [← hafter, Xml.nestAll_append] at hall
      obtain ⟨opened, hopened, -⟩ := Option.bind_eq_some_iff.1 hall
      obtain ⟨tags, htags, rfl⟩ := exists_leavesOpen hopened
      refine ⟨tags, htags, ?_⟩
      rw [Walk.opened_run rfl hrun hopened, List.map_reverse, List.reverse_reverse, List.map_map]
      rfl
    · have hpoints := Walk.Points.start.run hrun p hp
      exact ⟨hpoints, hpoints.depth_lt⟩
  · rw [Walk.Points.start.run?_eq]
    rfl

/-- A drawing in a paragraph in which there is another `p`, before any of them ends. -/
theorem walk_indices_drawing :
    let xml := "<w:body><w:p><p/><w:drawing>x"
    let es : List Event := [.start ⟨"w:body".toList, []⟩, .start ⟨"w:p".toList, []⟩,
      .empty ⟨"p".toList, []⟩, .start ⟨"w:drawing".toList, []⟩]
    let p : OpenParagraph := ⟨1, some 2, ⟨"", [none]⟩⟩
    let w : Walk := ⟨["body".toList, "p".toList, "drawing".toList], some p, []⟩
    es <+: Xml.events xml.toList ∧ Walk.start.run es = .ok w ∧ p.Points w.opened := by
  intro xml es p w
  have hes : es <+: Xml.events xml.toList := by decide +kernel
  have hrun : Walk.start.run es = .ok w := rfl
  exact ⟨hes, hrun, (((walk_indices xml).1 es w hes hrun).2 p rfl).1⟩

end Inkpress.Body
