import Inkpress.Body.Walk
import Inkpress.Proofs.Body.Collect
import Inkpress.Proofs.Xml.Markup
import Inkpress.Proofs.Xml.Reference

namespace Inkpress.Body

open Xml (Tag Event Spells IsStartTag IsAside textEvents)

def replaceChar (c : Char) (written cs : List Char) : List Char :=
  cs.flatMap fun d => if d = c then written else [d]

/-- The ampersand comes first: the replacements of the other characters bring new ones. -/
def encode (cs : List Char) : List Char :=
  replaceChar '>' "&gt;".toList (replaceChar '<' "&lt;".toList (replaceChar '&' "&amp;".toList cs))

theorem encode_eq_flatMap (cs : List Char) : encode cs = cs.flatMap fun c => encode [c] := by
  simp only [encode, replaceChar, List.flatMap_assoc, List.flatMap_cons, List.flatMap_nil,
    List.append_nil]

theorem encode_singleton_of_ne {c : Char} (hamp : c ≠ '&') (hlt : c ≠ '<') (hgt : c ≠ '>') :
    encode [c] = [c] := by
  simp only [encode, replaceChar, List.flatMap_cons, List.flatMap_nil, List.append_nil, if_neg hamp,
    if_neg hlt, if_neg hgt]

theorem encode_singleton_cases {P : Char → List Char → Prop} (hamp : P '&' "&amp;".toList)
    (hlt : P '<' "&lt;".toList) (hgt : P '>' "&gt;".toList)
    (hself : ∀ c, c ≠ '&' → c ≠ '<' → c ≠ '>' → P c [c]) (c : Char) : P c (encode [c]) := by
  by_cases hc : c = '&'
  · subst hc
    exact hamp
  · by_cases hc' : c = '<'
    · subst hc'
      exact hlt
    · by_cases hc'' : c = '>'
      · subst hc''
        exact hgt
      · rw [encode_singleton_of_ne hc hc' hc'']
        exact hself c hc hc' hc''

theorem unescape_encode (cs : List Char) : Xml.unescape (encode cs) = some cs := by
  rw [encode_eq_flatMap]
  apply Xml.unescape_flatMap
  intro c read
  apply encode_singleton_cases (P := fun c written =>
    Xml.Decoding.run ⟨none, read⟩ written = some ⟨none, c :: read⟩)
  · rfl
  · rfl
  · rfl
  · intro c hamp _ _
    have hstep : Xml.Decoding.step ⟨none, read⟩ c = some ⟨none, c :: read⟩ := if_neg hamp
    rw [Xml.Decoding.run, List.foldlM_cons, hstep]
    rfl

theorem bracket_notMem_encode (cs : List Char) : '<' ∉ encode cs := by
  rw [encode_eq_flatMap, List.mem_flatMap]
  rintro ⟨c, -, hc⟩
  revert hc
  apply encode_singleton_cases (P := fun _ written => '<' ∉ written)
  · decide
  · decide
  · decide
  · intro c _ hlt _ hmem
    exact hlt (List.mem_singleton.1 hmem).symm

theorem encode_ne_nil {cs : List Char} (h : cs ≠ []) : encode cs ≠ [] := by
  intro hnil
  have hread := unescape_encode cs
  rw [hnil] at hread
  exact h (Option.some.inj hread).symm

def encodeRun (s : String) : List Char :=
  if s.isEmpty then []
  else
    "<w:r>".toList ++
      ("<w:t xml:space=\"preserve\">".toList ++ encode s.toList ++ "</w:t>".toList) ++
    "</w:r>".toList

def encodeParagraph (s : String) : List Char :=
  "<w:p>".toList ++ encodeRun s ++ "</w:p>".toList

def documentTag : List Char :=
  "w:document xmlns:w=\"http://schemas.openxmlformats.org/wordprocessingml/2006/main\"".toList ++
  " xmlns:r=\"http://schemas.openxmlformats.org/officeDocument/2006/relationships\"".toList ++
  " xmlns:wp=\"http://schemas.openxmlformats.org/drawingml/2006/wordprocessingDrawing\"".toList ++
  " xmlns:a=\"http://schemas.openxmlformats.org/drawingml/2006/main\"".toList ++
  " xmlns:pic=\"http://schemas.openxmlformats.org/drawingml/2006/picture\"".toList

def declaration : List Char :=
  "<?xml version=\"1.0\" encoding=\"UTF-8\" standalone=\"yes\"?>".toList

def encodeMarkup (texts : List String) : List Char :=
  declaration ++ (['\n'] ++ ('<' :: documentTag ++ ['>'] ++
    ("<w:body>".toList ++ (texts.flatMap encodeParagraph ++ "<w:sectPr/>".toList) ++ "</w:body>".toList) ++
    "</w:document>".toList))

def encodeDocument (texts : List String) : String :=
  String.ofList (encodeMarkup texts)

def tagNamed (content : String) : Tag :=
  .ofText content.toList

def runForest (s : String) : Forest :=
  if s.isEmpty then .nil
  else
    .element (tagNamed "w:r") (.element (tagNamed "w:t xml:space=\"preserve\"")
      (.text ⟨encode s.toList, s.toList, unescape_encode s.toList⟩ .nil) .nil) .nil

def bodyForest : List String → Forest
  | [] => .closed (tagNamed "w:sectPr") .nil
  | s :: texts => .element (tagNamed "w:p") (runForest s) (bodyForest texts)

def documentForest (texts : List String) : Forest :=
  .text ⟨['\n'], ['\n'], rfl⟩
    (.element (.ofText documentTag) (.element (tagNamed "w:body") (bodyForest texts) .nil) .nil)

variable {opened : List (List Char)}

theorem spells_run (s : String) (opened : List (List Char)) :
    Spells (encodeRun s) opened (runForest s).events opened := by
  rw [encodeRun, runForest]
  split
  · exact .nil
  · next hs =>
      have hraw : (encode s.toList).isEmpty = false :=
        List.isEmpty_eq_false_iff.2 (encode_ne_nil (by simpa using hs))
      have htext : (Forest.text ⟨encode s.toList, s.toList, unescape_encode s.toList⟩ .nil).events =
          textEvents (encode s.toList) := by
        rw [textEvents, hraw]
        rfl
      -- The run around the text, and then the text in its own element.
      rw [Forest.events]
      apply Spells.element "w:r".toList (by decide) rfl (by decide) (by decide)
      rw [Forest.events, htext]
      exact .textElement "w:t xml:space=\"preserve\"".toList (by decide) rfl (by decide)
        (by decide) (bracket_notMem_encode s.toList) _

theorem spells_paragraphs (texts : List String) (opened : List (List Char)) :
    Spells (texts.flatMap encodeParagraph ++ "<w:sectPr/>".toList) opened (bodyForest texts).events
      opened := by
  induction texts with
  | nil =>
      have hsect : "<w:sectPr/>".toList = '<' :: "w:sectPr".toList ++ ['/', '>'] := by decide
      rw [List.flatMap_nil, List.nil_append, hsect]
      exact .emptyTag (by decide) opened
  | cons s texts ih =>
      have hp : Spells (encodeParagraph s) opened
          (.start (tagNamed "w:p") :: ((runForest s).events ++ [.stop])) opened :=
        .element "w:p".toList (by decide) rfl (by decide) (by decide) (spells_run s _)
      have hevents : (bodyForest (s :: texts)).events =
          .start (tagNamed "w:p") :: ((runForest s).events ++ [.stop]) ++ (bodyForest texts).events := by
        rw [bodyForest, Forest.events, List.cons_append, List.append_assoc]
        rfl
      rw [hevents, List.flatMap_cons, List.append_assoc]
      exact hp.append ih

theorem isAside_declaration : IsAside declaration := by
  let body := "xml version=\"1.0\" encoding=\"UTF-8\" standalone=\"yes\"".toList
  have hdeclaration : declaration = '<' :: "?".toList ++ (body ++ "?>".toList) := by decide +kernel
  rw [hdeclaration]
  exact .instruction body (by decide +kernel) (by decide +kernel)

theorem isStartTag_documentTag : IsStartTag documentTag := by decide +kernel

theorem spells_encodeMarkup (texts : List String) :
    Spells (encodeMarkup texts) [] (documentForest texts).events [] := by
  have hbody (opened : List (List Char)) : Spells ("<w:body>".toList ++
      (texts.flatMap encodeParagraph ++ "<w:sectPr/>".toList) ++ "</w:body>".toList) opened
      (.start (tagNamed "w:body") :: ((bodyForest texts).events ++ [.stop])) opened :=
    .element "w:body".toList (by decide) rfl (by decide) (by decide)
      (spells_paragraphs texts _)
  have hclosing : "</w:document>".toList = '<' :: '/' :: (Tag.ofText documentTag).name ++ ['>'] := by
    decide +kernel
  have hroot := Spells.element documentTag isStartTag_documentTag rfl rfl hclosing (hbody [_])
  have hline : '<' ∉ ['\n'] := by decide
  exact (Spells.aside isAside_declaration []).append (.text hline hroot)

theorem events_encodeDocument (texts : List String) :
    Xml.events (encodeDocument texts).toList = (documentForest texts).events := by
  rw [encodeDocument, String.toList_ofList]
  apply (spells_encodeMarkup texts).events_eq
  have hne : declaration ≠ [] := by decide
  rw [encodeMarkup, List.head?_append_of_ne_nil _ hne]
  decide

theorem textOf_run {run text : Tag} (hrun : run.localName = "r".toList)
    (htext : text.localName = "t".toList) (data : CharData) :
    (Forest.element run (.element text (.text data .nil) .nil) .nil).textOf =
      String.ofList data.text := by
  rw [Forest.textOf, Forest.nodes, Forest.nodes, Forest.nodes, hrun, htext]
  simp only [List.flatMap_cons, Forest.nodes, List.flatMap_nil, List.append_nil, Node.written, htext]
  rfl

theorem drawingsOf_run {run text : Tag} (hrun : run.localName = "r".toList)
    (htext : text.localName = "t".toList) (data : CharData) :
    (Forest.element run (.element text (.text data .nil) .nil) .nil).drawingsOf = 0 := by
  rw [Forest.drawingsOf, Forest.nodes, Forest.nodes, Forest.nodes]
  simp only [Forest.nodes, List.append_nil, List.countP_cons, Node.isDrawing, hrun, htext]
  rfl

theorem digest_runForest (s : String) : ((runForest s).textOf, (runForest s).drawingsOf) = (s, 0) := by
  rw [runForest]
  split
  · next hs =>
      obtain rfl : s = "" := String.isEmpty_iff.1 hs
      rfl
  · have hrun : (tagNamed "w:r").localName = "r".toList := by decide
    have htext : (tagNamed "w:t xml:space=\"preserve\"").localName = "t".toList := by decide
    rw [textOf_run hrun htext, drawingsOf_run hrun htext, String.ofList_toList]

theorem read_runForest (s : String) (opened : List (List Char)) :
    (runForest s).read opened = ⟨s, []⟩ := by
  have hdigest := ((runForest s).digest_read opened).trans (digest_runForest s)
  obtain ⟨htext, hdrawings⟩ := Prod.mk.inj hdigest
  generalize (runForest s).read opened = p at htext hdrawings
  obtain ⟨text, drawings⟩ := p
  obtain rfl : text = s := htext
  obtain rfl : drawings = [] := List.eq_nil_of_length_eq_zero hdrawings
  rfl

theorem collect_bodyForest (texts : List String) (hopened : opened.getLast? = some "body".toList) :
    (bodyForest texts).collect opened = texts.map fun s => ⟨s, []⟩ := by
  have hp : (tagNamed "w:p").localName = "p".toList := by decide
  induction texts with
  | nil =>
      have hsect : (tagNamed "w:sectPr").localName ≠ "p".toList := by decide
      rw [bodyForest, Forest.collect, if_neg fun h => hsect h.1]
      rfl
  | cons s texts ih =>
      rw [bodyForest, Forest.collect, if_pos ⟨hp, hopened⟩, ih, read_runForest]
      rfl

theorem collect_documentForest (texts : List String) :
    (documentForest texts).collect [] = texts.map fun s => ⟨s, []⟩ := by
  have hdocument : (Tag.ofText documentTag).localName = "document".toList := by decide +kernel
  have hbody : (tagNamed "w:body").localName = "body".toList := by decide
  have hne : "document".toList ≠ "p".toList := by decide
  have hne' : "body".toList ≠ "p".toList := by decide
  have hinside : (Forest.element (tagNamed "w:body") (bodyForest texts) .nil).collect ["document".toList] =
      texts.map fun s => ⟨s, []⟩ := by
    rw [Forest.collect, hbody, if_neg fun h => hne' h.1, collect_bodyForest texts rfl]
    exact List.append_nil _
  rw [documentForest, Forest.collect, Forest.collect, hdocument, if_neg fun h => hne h.1]
  exact (List.append_nil _).trans hinside

/-- Every text is read back, as a paragraph with no drawing. -/
theorem paragraphs_encodeDocument (texts : List String) :
    paragraphs (encodeDocument texts) = .ok (texts.map fun s => ⟨s, []⟩) := by
  rw [paragraphs, events_encodeDocument, paragraphsOfEvents_events, collect_documentForest]

end Inkpress.Body
