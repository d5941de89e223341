import Inkpress.Body.Walk

namespace Inkpress.Body

open Xml (Tag Event)

/-- Character data and the text that it stands for. -/
structure CharData where
  raw : List Char
  text : List Char
  unescape_raw : Xml.unescape raw = some text

/-- Trees side by side. The content of an element is a forest again. -/
inductive Forest
  | nil
  | text (data : CharData) (rest : Forest)
  | element (tag : Tag) (content rest : Forest)
  | closed (tag : Tag) (rest : Forest)

inductive Node
  | text (data : CharData)
  | element (tag : Tag) (content : Forest)

namespace Node

/-- What a node adds to the text of a paragraph, given the names between the two. -/
def written (path : List (List Char)) : Node → List Char
  | text data =>
    if path = ["r".toList, "t".toList] ∨ path = ["hyperlink".toList, "r".toList, "t".toList] then
      data.text
    else []
  | element tag _ =>
    if path = ["r".toList] ∨ path = ["hyperlink".toList, "r".toList] then
      if tag.localName = "tab".toList then ['\t']
      else if tag.localName = "cr".toList then ['\n']
      else if tag.localName = "br".toList ∧
          ∀ a ∈ tag.attribute? "type".toList, a.value = "textWrapping".toList then ['\n']
      else []
    else []

def isDrawing : Node → Bool
  | text _ => false
  | element tag _ => tag.localName = "drawing".toList

end Node

namespace Forest

def events : Forest → List Event
  | nil => []
  | text data rest => .text data.raw :: rest.events
  | element tag content rest => .start tag :: (content.events ++ .stop :: rest.events)
  | closed tag rest => .empty tag :: rest.events

def nodes (above : List (List Char)) : Forest → List (List (List Char) × Node)
  | nil => []
  | text data rest => (above, .text data) :: rest.nodes above
  | element tag content rest =>
    (above, .element tag content) :: (content.nodes (above ++ [tag.localName]) ++ rest.nodes above)
  | closed tag rest => (above, .element tag nil) :: rest.nodes above

/-- The text of a paragraph with this content. -/
def textOf (content : Forest) : String :=
  String.ofList ((content.nodes []).flatMap fun (path, n) => n.written path)

def drawingsOf (content : Forest) : Nat :=
  (content.nodes []).countP fun (_, n) => n.isDrawing

end Forest

/-- Whether names hold a paragraph of the body. -/
def HoldParagraph (above : List (List Char)) : Prop :=
  ["body".toList, "p".toList] <:+: above

instance (above : List (List Char)) : Decidable (HoldParagraph above) :=
  inferInstanceAs (Decidable (["body".toList, "p".toList] <:+: above))

/-- The text and the number of drawings of a paragraph: an element `p` right below an element
`body`, and in no other such paragraph. -/
def Node.paragraph? (above : List (List Char)) : Node → Option (String × Nat)
  | text _ => none
  | element tag content =>
    if tag.localName = "p".toList ∧ above.getLast? = some "body".toList ∧ ¬HoldParagraph above then
      some (content.textOf, content.drawingsOf)
    else none

def Node.content? (above : List (List Char)) : Node → Option Forest
  | text _ => none
  | element tag content =>
    if tag.localName = "p".toList ∧ above.getLast? = some "body".toList ∧ ¬HoldParagraph above then
      some content
    else none

theorem Node.paragraph?_eq (above : List (List Char)) (n : Node) :
    n.paragraph? above = (n.content? above).map fun content => (content.textOf, content.drawingsOf) := by
  cases n with
  | text data => rfl
  | element tag content =>
      rw [paragraph?, content?]
      split <;> rfl

namespace Forest

def paragraphsIn (above : List (List Char)) (f : Forest) : List (String × Nat) :=
  (f.nodes above).filterMap fun (above, n) => n.paragraph? above

/-- The paragraphs of a document in document order. -/
def paragraphs (f : Forest) : List (String × Nat) :=
  f.paragraphsIn []

def contentsIn (above : List (List Char)) (f : Forest) : List Forest :=
  (f.nodes above).filterMap fun (above, n) => n.content? above

def contents (f : Forest) : List Forest :=
  f.contentsIn []

variable {above : List (List Char)}

theorem paragraphsIn_eq (f : Forest) : f.paragraphsIn above =
    (f.contentsIn above).map fun content => (content.textOf, content.drawingsOf) := by
  rw [paragraphsIn, contentsIn, List.map_filterMap]
  simp only [Node.paragraph?_eq]

theorem contentsIn_element (tag : Tag) (content rest : Forest) :
    (element tag content rest).contentsIn above =
      ((Node.element tag content).content? above).toList ++
        (content.contentsIn (above ++ [tag.localName]) ++ rest.contentsIn above) := by
  rw [contentsIn, nodes, List.filterMap_cons, List.filterMap_append]
  split <;> rename_i h <;> simp only [h] <;> rfl

theorem contentsIn_closed (tag : Tag) (rest : Forest) :
    (closed tag rest).contentsIn above =
      ((Node.element tag nil).content? above).toList ++ rest.contentsIn above := by
  rw [contentsIn, nodes, List.filterMap_cons]
  split <;> rename_i h <;> simp only [h] <;> rfl

end Forest

theorem holdParagraph_append {above : List (List Char)} {name : List Char} :
    HoldParagraph (above ++ [name]) ↔
      HoldParagraph above ∨ (name = "p".toList ∧ above.getLast? = some "body".toList) := by
  have hsuffix : ["body".toList, "p".toList] <:+ above ++ [name] ↔
      name = "p".toList ∧ above.getLast? = some "body".toList := by
    rw [← List.singleton_suffix_iff_getLast?_eq_some, List.suffix_concat_iff]
    constructor
    · rintro (h | ⟨t, ht, h⟩)
      · cases h
      · have ht : ["body".toList] ++ ["p".toList] = t ++ [name] := ht
        obtain ⟨rfl, hname⟩ := List.append_inj' ht rfl
        exact ⟨(List.singleton_inj.1 hname).symm, h⟩
    · rintro ⟨rfl, h⟩
      exact .inr ⟨["body".toList], rfl, h⟩
  rw [HoldParagraph, HoldParagraph, List.infix_concat_iff, hsuffix, or_comm]

theorem Node.content?_eq_none {above : List (List Char)} (h : HoldParagraph above) (n : Node) :
    n.content? above = none := by
  cases n with
  | text data => rfl
  | element tag content => exact if_neg fun hp => hp.2.2 h

theorem Forest.contentsIn_eq_nil (f : Forest) {above : List (List Char)}
    (h : HoldParagraph above) : f.contentsIn above = [] := by
  induction f generalizing above with
  | nil => rfl
  | text data rest ih => exact ih h
  | element tag content rest ihContent ihRest =>
      rw [contentsIn_element, Node.content?_eq_none h, ihRest h,
        ihContent (holdParagraph_append.2 (.inl h))]
      rfl
  | closed tag rest ih =>
      rw [contentsIn_closed, Node.content?_eq_none h, ih h]
      rfl

end Inkpress.Body
