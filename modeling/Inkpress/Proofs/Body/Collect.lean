import Inkpress.Proofs.Body.Forest
import Mathlib.Data.List.Forall2

namespace Inkpress.Body

open Xml (Tag Event)

namespace Walk

theorem run_cons {w v : Walk} {e : Event} (h : w.step e = .ok v) (es : List Event) :
    w.run (e :: es) = v.run es := by
  rw [run, List.foldlM_cons, h]
  rfl

theorem run_append {w v : Walk} {es : List Event} (h : w.run es = .ok v) (es' : List Event) :
    w.run (es ++ es') = v.run es' := by
  rw [run, List.foldlM_append, ← run, h]
  rfl

theorem run_append_error {w : Walk} {es : List Event} {fault : Fault} (h : w.run es = .error fault)
    (es' : List Event) : w.run (es ++ es') = .error fault := by
  rw [run, List.foldlM_append, ← run, h]
  rfl

theorem exists_step_of_run_cons {w v : Walk} {e : Event} {es : List Event} (h : w.run (e :: es) = .ok v) :
    ∃ u, w.step e = .ok u ∧ u.run es = .ok v := by
  rw [run, List.foldlM_cons] at h
  cases hstep : w.step e with
  | error fault =>
      rw [hstep] at h
      cases h
  | ok u =>
      rw [hstep] at h
      exact ⟨u, rfl, h⟩

theorem run_induction {P : Walk → Prop} {w v : Walk} {es : List Event} (h : P w)
    (hstep : ∀ {w v : Walk}, P w → ∀ {e : Event}, w.step e = .ok v → P v) (hv : w.run es = .ok v) : P v := by
  induction es generalizing w with
  | nil =>
      cases hv
      exact h
  | cons e es ih =>
      obtain ⟨u, hu, hrun⟩ := exists_step_of_run_cons hv
      exact ih (hstep h hu) hrun

theorem run_singleton (w : Walk) (e : Event) : w.run [e] = w.step e := by
  rw [run, List.foldlM_cons]
  exact bind_pure _

theorem beginsParagraph_iff {opened : List (List Char)} {current : Option OpenParagraph}
    {collected : List Paragraph} {tag : Tag} :
    beginsParagraph ⟨opened, current, collected⟩ tag ↔
      tag.localName = "p".toList ∧ opened.getLast? = some "body".toList := by
  simp only [beginsParagraph, atBody, Bool.and_eq_true, decide_eq_true_eq]

end Walk

theorem length_fillLast (embed : Option String) (ds : List (Option String)) :
    (fillLast embed ds).length = ds.length := by
  induction ds with
  | nil => rfl
  | cons d ds ih =>
      cases ds with
      | nil => rfl
      | cons d' ds => exact congrArg (· + 1) ih

theorem isTextPath_iff {path : List (List Char)} : isTextPath path ↔
    path = ["r".toList, "t".toList] ∨ path = ["hyperlink".toList, "r".toList, "t".toList] := by
  simp only [isTextPath, Bool.or_eq_true, decide_eq_true_eq]

theorem isRunPath_iff {path : List (List Char)} : isRunPath path ↔
    path = ["r".toList] ∨ path = ["hyperlink".toList, "r".toList] := by
  simp only [isRunPath, Bool.or_eq_true, decide_eq_true_eq]

theorem isLineBreak_iff {tag : Tag} : isLineBreak tag ↔
    ∀ a ∈ tag.attribute? "type".toList, a.value = "textWrapping".toList := by
  rw [isLineBreak, Option.all_eq_true]
  simp only [decide_eq_true_eq, Option.mem_def]

namespace OpenParagraph

structure Reads (p q : OpenParagraph) (ns : List (List (List Char) × Node)) : Prop where
  depth : q.depth = p.depth
  text : q.read.text = p.read.text ++ String.ofList (ns.flatMap fun (path, n) => n.written path)
  drawings : q.read.drawings.length = p.read.drawings.length + ns.countP fun (_, n) => n.isDrawing

variable {p q r : OpenParagraph} {ns ns' : List (List (List Char) × Node)}

theorem Reads.refl (p : OpenParagraph) : p.Reads p [] := ⟨rfl, by simp, rfl⟩

theorem Reads.trans (h : p.Reads q ns) (h' : q.Reads r ns') : p.Reads r (ns ++ ns') where
  depth := h'.depth.trans h.depth
  text := by
    rw [h'.text, h.text, List.flatMap_append, String.ofList_append, String.append_assoc]
  drawings := by
    rw [h'.drawings, h.drawings, List.countP_append, Nat.add_assoc]

theorem Reads.path_eq (h : p.Reads q ns) (opened : List (List Char)) :
    q.path opened = p.path opened := by
  rw [path, path, h.depth]

theorem depth_close (n : Nat) : (p.close n).depth = p.depth := by
  rw [close]
  split <;> rfl

theorem read_close (n : Nat) : (p.close n).read = p.read := by
  rw [close]
  split <;> rfl

theorem Reads.close (h : p.Reads q ns) (n : Nat) : p.Reads (q.close n) ns := by
  refine ⟨(depth_close n).trans h.depth, ?_, ?_⟩
  · rw [read_close, h.text]
  · rw [read_close, h.drawings]

theorem length_lt_concat (opened : List (List Char)) (name : List Char) :
    opened.length < (opened ++ [name]).length := by
  rw [List.length_append]
  exact Nat.lt_succ_self _

theorem path_append {opened : List (List Char)} (h : p.depth < opened.length) (name : List Char) :
    p.path (opened ++ [name]) = p.path opened ++ [name] := by
  rw [path, path, List.drop_append_of_le_length h]

def takeText (p : OpenParagraph) (opened : List (List Char)) (data : CharData) : OpenParagraph :=
  if isTextPath (p.path opened) then p.append (String.ofList data.text) else p

theorem reads_takeText (opened : List (List Char)) (data : CharData) :
    p.Reads (p.takeText opened data) [(p.path opened, .text data)] := by
  rw [takeText]
  by_cases h : isTextPath (p.path opened)
  · rw [if_pos h]
    refine ⟨rfl, ?_, rfl⟩
    simp only [append, List.flatMap_cons, List.flatMap_nil, List.append_nil, Node.written,
      if_pos (isTextPath_iff.1 h)]
  · rw [if_neg h]
    refine ⟨rfl, ?_, rfl⟩
    simp only [List.flatMap_cons, List.flatMap_nil, List.append_nil, Node.written,
      if_neg (mt isTextPath_iff.2 h), String.ofList_nil, String.append_empty]

theorem length_drawings_element (opened : List (List Char)) (tag : Tag) (opens : Bool) :
    (p.element opened tag opens).read.drawings.length =
      p.read.drawings.length + if tag.localName = "drawing".toList then 1 else 0 := by
  simp only [element]
  by_cases hname : tag.localName = "drawing".toList
  · simp only [if_pos hname, List.length_append, List.length_cons, List.length_nil]
  · simp only [if_neg hname]
    split
    · exact length_fillLast _ _
    · split
      · rfl
      · split
        · rfl
        · split <;> rfl

theorem text_element (opened : List (List Char)) (tag : Tag) (opens : Bool) (content : Forest) :
    (p.element opened tag opens).read.text = p.read.text ++
      String.ofList ((Node.element tag content).written (p.path opened)) := by
  have hsilent (htab : tag.localName ≠ "tab".toList) (hcr : tag.localName ≠ "cr".toList)
      (hbr : tag.localName ≠ "br".toList) :
      p.read.text = p.read.text ++
        String.ofList ((Node.element tag content).written (p.path opened)) := by
    simp only [Node.written, if_neg htab, if_neg hcr, hbr, false_and, if_false, ite_self,
      String.ofList_nil, String.append_empty]
  simp only [element]
  split
  · next hname => exact hsilent (by rw [hname]; decide) (by rw [hname]; decide) (by rw [hname]; decide)
  · split
    · next hname =>
        have hname := hname.1
        exact hsilent (by rw [hname]; decide) (by rw [hname]; decide) (by rw [hname]; decide)
    · split
      · next h =>
          simp only [append, Node.written, if_pos (isRunPath_iff.1 h.2), if_pos h.1]
      · next htab =>
          split
          · next h =>
              obtain ⟨hname, hrun, hbreak⟩ := h
              have hne : tag.localName ≠ "tab".toList := by rw [hname]; decide
              have hne' : tag.localName ≠ "cr".toList := by rw [hname]; decide
              simp only [append, Node.written, if_pos (isRunPath_iff.1 hrun), if_neg hne,
                if_neg hne', if_pos (And.intro hname (isLineBreak_iff.1 hbreak))]
          · next hbr =>
              split
              · next h =>
                  have hne : tag.localName ≠ "tab".toList := by rw [h.1]; decide
                  simp only [append, Node.written, if_pos (isRunPath_iff.1 h.2), if_neg hne,
                    if_pos h.1]
              · next hcr =>
                  by_cases hrun : isRunPath (p.path opened)
                  · have hne : tag.localName ≠ "tab".toList := fun hname => htab ⟨hname, hrun⟩
                    have hne' : tag.localName ≠ "cr".toList := fun hname => hcr ⟨hname, hrun⟩
                    have hne'' : ¬(tag.localName = "br".toList ∧
                        ∀ a ∈ tag.attribute? "type".toList, a.value = "textWrapping".toList) :=
                      fun h => hbr ⟨h.1, hrun, isLineBreak_iff.2 h.2⟩
                    simp only [Node.written, if_neg hne, if_neg hne', if_neg hne'', ite_self,
                      String.ofList_nil, String.append_empty]
                  · simp only [Node.written, if_neg (mt isRunPath_iff.2 hrun), String.ofList_nil,
                      String.append_empty]

theorem reads_element (opened : List (List Char)) (tag : Tag) (opens : Bool) (content : Forest) :
    p.Reads (p.element opened tag opens) [(p.path opened, .element tag content)] where
  depth := by
    simp only [element]
    repeat' split
    all_goals rfl
  text := by
    rw [text_element opened tag opens content, List.flatMap_cons, List.flatMap_nil,
      List.append_nil]
  drawings := by
    rw [length_drawings_element, List.countP_cons, List.countP_nil, Nat.zero_add]
    simp only [Node.isDrawing, decide_eq_true_eq]

theorem depth_element (opened : List (List Char)) (tag : Tag) (opens : Bool) :
    (p.element opened tag opens).depth = p.depth :=
  (p.reads_element opened tag opens .nil).depth

theorem depth_element_lt {opened : List (List Char)} (h : p.depth < opened.length) (tag : Tag)
    (opens : Bool) : (p.element opened tag opens).depth < (opened ++ [tag.localName]).length := by
  rw [depth_element]
  exact Nat.lt_trans h (length_lt_concat opened tag.localName)

def after (opened : List (List Char)) : OpenParagraph → Forest → OpenParagraph
  | p, .nil => p
  | p, .text data rest => (p.takeText opened data).after opened rest
  | p, .element tag content rest =>
    (((p.element opened tag true).after (opened ++ [tag.localName]) content).close opened.length).after
      opened rest
  | p, .closed tag rest => (p.element opened tag false).after opened rest

theorem reads_after (f : Forest) {opened : List (List Char)} (h : p.depth < opened.length) :
    p.Reads (p.after opened f) (f.nodes (p.path opened)) := by
  induction f generalizing opened p with
  | nil => exact .refl p
  | text data rest ih =>
      have hread := p.reads_takeText opened data
      have hrest := ih (p := p.takeText opened data) (by rwa [hread.depth])
      rw [hread.path_eq] at hrest
      exact hread.trans hrest
  | element tag content rest ihContent ihRest =>
      have hread := p.reads_element opened tag true content
      have hcontent := ihContent (depth_element_lt h tag true)
      rw [hread.path_eq, p.path_append h] at hcontent
      have hread := (hread.trans hcontent).close opened.length
      have hrest := ihRest (p := ((p.element opened tag true).after (opened ++ [tag.localName])
        content).close opened.length) (by rwa [hread.depth])
      rw [hread.path_eq] at hrest
      simpa only [after, Forest.nodes, List.cons_append, List.nil_append] using hread.trans hrest
  | closed tag rest ih =>
      have hread := p.reads_element opened tag false .nil
      have hrest := ih (p := p.element opened tag false) (by rwa [hread.depth])
      rw [hread.path_eq] at hrest
      exact hread.trans hrest

end OpenParagraph

theorem run_inside (f : Forest) (opened : List (List Char)) (p : OpenParagraph)
    (collected : List Paragraph) (h : p.depth < opened.length) :
    Walk.run ⟨opened, some p, collected⟩ f.events = .ok ⟨opened, some (p.after opened f), collected⟩ := by
  induction f generalizing opened p with
  | nil => rfl
  | text data rest ih =>
      have hread := p.reads_takeText opened data
      have hstep : Walk.step ⟨opened, some p, collected⟩ (.text data.raw) =
          .ok ⟨opened, some (p.takeText opened data), collected⟩ := by
        by_cases hpath : isTextPath (p.path opened)
        · simp only [Walk.step, OpenParagraph.takeText, hpath, if_true, data.unescape_raw]
        · simp only [Walk.step, OpenParagraph.takeText, hpath, Bool.false_eq_true, if_false]
      rw [Forest.events, Walk.run_cons hstep]
      exact ih opened _ (by rwa [hread.depth])
  | element tag content rest ihContent ihRest =>
      have hread := p.reads_element opened tag true content
      have hinside := OpenParagraph.depth_element_lt h tag true
      have hstart : Walk.step ⟨opened, some p, collected⟩ (.start tag) =
          .ok ⟨opened ++ [tag.localName], some (p.element opened tag true), collected⟩ := rfl
      have hcontent := ihContent (opened ++ [tag.localName]) (p.element opened tag true) hinside
      have hclosed := (OpenParagraph.reads_after content hinside).close opened.length
      have hdepth := hclosed.depth.trans hread.depth
      have hstop : Walk.step ⟨opened ++ [tag.localName],
          some ((p.element opened tag true).after (opened ++ [tag.localName]) content), collected⟩ .stop =
          .ok ⟨opened, some (((p.element opened tag true).after (opened ++ [tag.localName])
            content).close opened.length), collected⟩ := by
        simp only [Walk.step, List.dropLast_concat]
        rw [if_neg (by rw [hdepth]; exact Nat.ne_of_lt h)]
      rw [Forest.events, Walk.run_cons hstart, Walk.run_append hcontent, Walk.run_cons hstop]
      exact ihRest opened _ (by rwa [hdepth])
  | closed tag rest ih =>
      have hread := p.reads_element opened tag false .nil
      have hstep : Walk.step ⟨opened, some p, collected⟩ (.empty tag) =
          .ok ⟨opened, some (p.element opened tag false), collected⟩ := rfl
      rw [Forest.events, Walk.run_cons hstep]
      exact ih opened _ (by rwa [hread.depth])

namespace Forest

def read (opened : List (List Char)) (content : Forest) : Paragraph :=
  (OpenParagraph.after (opened ++ ["p".toList]) ⟨opened.length, none, .empty⟩ content).read

def collect (opened : List (List Char)) : Forest → List Paragraph
  | nil => []
  | text _ rest => rest.collect opened
  | element tag content rest =>
    if tag.localName = "p".toList ∧ opened.getLast? = some "body".toList then
      content.read opened :: rest.collect opened
    else content.collect (opened ++ [tag.localName]) ++ rest.collect opened
  | closed tag rest =>
    if tag.localName = "p".toList ∧ opened.getLast? = some "body".toList then
      .empty :: rest.collect opened
    else rest.collect opened

end Forest

theorem run_paragraph (tag : Tag) (content : Forest) (opened : List (List Char))
    (collected : List Paragraph)
    (hp : tag.localName = "p".toList ∧ opened.getLast? = some "body".toList) :
    Walk.run ⟨opened, none, collected⟩ (.start tag :: (content.events ++ [.stop])) =
      .ok ⟨opened, none, content.read opened :: collected⟩ := by
  have hstart : Walk.step ⟨opened, none, collected⟩ (.start tag) =
      .ok ⟨opened ++ ["p".toList], some ⟨opened.length, none, .empty⟩, collected⟩ := by
    simp only [Walk.step, if_pos (Walk.beginsParagraph_iff.2 hp), hp.1]
  have hinside := OpenParagraph.length_lt_concat opened "p".toList
  have hcontent := run_inside content (opened ++ ["p".toList]) ⟨opened.length, none, .empty⟩ collected
    hinside
  have hdepth := ((OpenParagraph.reads_after (p := ⟨opened.length, none, .empty⟩) content
    hinside).close opened.length).depth
  have hstop (p : OpenParagraph) (hp : (p.close opened.length).depth = opened.length) :
      Walk.step ⟨opened ++ ["p".toList], some p, collected⟩ .stop =
        .ok ⟨opened, none, p.read :: collected⟩ := by
    simp only [Walk.step, List.dropLast_concat, if_pos hp, OpenParagraph.read_close]
  rw [Walk.run_cons hstart, Walk.run_append hcontent, Walk.run_cons (hstop _ hdepth)]
  rfl

theorem run_outside (f : Forest) (opened : List (List Char)) (collected : List Paragraph) :
    Walk.run ⟨opened, none, collected⟩ f.events =
      .ok ⟨opened, none, (f.collect opened).reverse ++ collected⟩ := by
  induction f generalizing opened collected with
  | nil => rfl
  | text data rest ih =>
      have hstep : Walk.step ⟨opened, none, collected⟩ (.text data.raw) =
          .ok ⟨opened, none, collected⟩ := rfl
      rw [Forest.events, Walk.run_cons hstep]
      exact ih opened collected
  | element tag content rest ihContent ihRest =>
      rw [Forest.collect]
      by_cases hp : tag.localName = "p".toList ∧ opened.getLast? = some "body".toList
      · have hevents : (Forest.element tag content rest).events =
            (.start tag :: (content.events ++ [.stop])) ++ rest.events := by
          simp only [Forest.events, List.cons_append, List.append_assoc, List.nil_append]
        rw [hevents, Walk.run_append (run_paragraph tag content opened collected hp), if_pos hp, ihRest,
          List.reverse_cons, List.append_assoc]
        rfl
      · have hstart : Walk.step ⟨opened, none, collected⟩ (.start tag) =
            .ok ⟨opened ++ [tag.localName], none, collected⟩ := by
          simp only [Walk.step, if_neg (mt Walk.beginsParagraph_iff.1 hp)]
        have hstop (collected : List Paragraph) :
            Walk.step ⟨opened ++ [tag.localName], none, collected⟩ .stop =
              .ok ⟨opened, none, collected⟩ := by
          simp only [Walk.step, List.dropLast_concat]
        rw [Forest.events, Walk.run_cons hstart, Walk.run_append (ihContent _ collected),
          Walk.run_cons (hstop _), ihRest, if_neg hp, List.reverse_append, List.append_assoc]
  | closed tag rest ih =>
      rw [Forest.collect]
      by_cases hp : tag.localName = "p".toList ∧ opened.getLast? = some "body".toList
      · have hstep : Walk.step ⟨opened, none, collected⟩ (.empty tag) =
            .ok ⟨opened, none, .empty :: collected⟩ := by
          simp only [Walk.step, if_pos (Walk.beginsParagraph_iff.2 hp)]
        rw [Forest.events, Walk.run_cons hstep, ih, if_pos hp, List.reverse_cons, List.append_assoc]
        rfl
      · have hstep : Walk.step ⟨opened, none, collected⟩ (.empty tag) =
            .ok ⟨opened, none, collected⟩ := by
          simp only [Walk.step, if_neg (mt Walk.beginsParagraph_iff.1 hp)]
        rw [Forest.events, Walk.run_cons hstep, ih, if_neg hp]

theorem paragraphsOfEvents_events (f : Forest) : paragraphsOfEvents f.events = .ok (f.collect []) := by
  rw [paragraphsOfEvents, Walk.start, run_outside]
  simp [Walk.finish, bind, Except.bind]

/-- What holds of every paragraph that is read of some content holds of the paragraphs of a forest and
those that are collected of it. -/
theorem Forest.forall₂_collect {R : Forest → Paragraph → Prop}
    (hR : ∀ opened content, R content (content.read opened)) (f : Forest) {opened : List (List Char)}
    (h : ¬HoldParagraph opened) : List.Forall₂ R (f.contentsIn opened) (f.collect opened) := by
  induction f generalizing opened with
  | nil => exact .nil
  | text data rest ih => exact ih h
  | element tag content rest ihContent ihRest =>
      rw [contentsIn_element, collect, Node.content?]
      by_cases hp : tag.localName = "p".toList ∧ opened.getLast? = some "body".toList
      · rw [if_pos ⟨hp.1, hp.2, h⟩, if_pos hp,
          content.contentsIn_eq_nil (holdParagraph_append.2 (.inr hp))]
        exact .cons (hR opened content) (ihRest h)
      · rw [if_neg fun h => hp ⟨h.1, h.2.1⟩, if_neg hp]
        exact List.rel_append (ihContent fun hold => (holdParagraph_append.1 hold).elim h hp) (ihRest h)
  | closed tag rest ih =>
      rw [contentsIn_closed, collect, Node.content?]
      by_cases hp : tag.localName = "p".toList ∧ opened.getLast? = some "body".toList
      · rw [if_pos ⟨hp.1, hp.2, h⟩, if_pos hp]
        exact .cons (hR opened nil) (ih h)
      · rw [if_neg fun h => hp ⟨h.1, h.2.1⟩, if_neg hp]
        exact ih h

def Paragraph.digest (p : Paragraph) : String × Nat :=
  (p.text, p.drawings.length)

theorem Forest.digest_read (opened : List (List Char)) (content : Forest) :
    (content.read opened).digest = (content.textOf, content.drawingsOf) := by
  let p : OpenParagraph := ⟨opened.length, none, .empty⟩
  have hread := OpenParagraph.reads_after (p := p) content
    (OpenParagraph.length_lt_concat opened "p".toList)
  have hpath : p.path (opened ++ ["p".toList]) = [] :=
    List.drop_of_length_le (by rw [List.length_append]; exact Nat.le_refl _)
  rw [hpath] at hread
  rw [Paragraph.digest, read, hread.text, hread.drawings]
  simp only [p, Paragraph.empty, String.empty_append, List.length_nil, Nat.zero_add]
  rfl

/-- The walk over the events of a forest collects its paragraphs, each with its text and as many
entries as it has drawings. -/
theorem paragraphsOfEvents_eq (f : Forest) :
    (paragraphsOfEvents f.events).map (·.map Paragraph.digest) = .ok f.paragraphs := by
  have hhold : ¬HoldParagraph [] := by decide
  have hdigests := f.forall₂_collect (R := fun content p =>
    (content.textOf, content.drawingsOf) = p.digest)
    (fun opened content => (content.digest_read opened).symm) hhold
  rw [paragraphsOfEvents_events, Forest.paragraphs, Forest.paragraphsIn_eq]
  refine congrArg Except.ok (Eq.symm ?_)
  rw [← List.forall₂_eq_eq_eq, List.forall₂_map_left_iff, List.forall₂_map_right_iff]
  exact hdigests

end Inkpress.Body
