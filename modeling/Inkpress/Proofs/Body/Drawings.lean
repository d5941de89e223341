import Inkpress.Proofs.Body.Collect

namespace Inkpress.Body

open Xml (Tag Event)

/-- A drawing in a paragraph. -/
structure Site where
  nested : Bool
  closed : Bool
  content : Forest

def isDrawing (tag : Tag) : Bool :=
  tag.localName = "drawing".toList

def blipOf (tag : Tag) : List Tag :=
  if tag.localName = "blip".toList then [tag] else []

namespace Forest

def sites (nested : Bool) : Forest → List Site
  | nil => []
  | text _ rest => rest.sites nested
  | element tag content rest =>
    if isDrawing tag then ⟨nested, false, content⟩ :: (content.sites true ++ rest.sites nested)
    else content.sites nested ++ rest.sites nested
  | closed tag rest =>
    if isDrawing tag then ⟨nested, true, nil⟩ :: rest.sites nested else rest.sites nested

def holdsDrawing : Forest → Bool
  | nil => false
  | text _ rest => rest.holdsDrawing
  | element tag content rest => isDrawing tag || (content.holdsDrawing || rest.holdsDrawing)
  | closed tag rest => isDrawing tag || rest.holdsDrawing

/-- The blips of a forest that are not inside a drawing of it, in document order. -/
def ownBlips : Forest → List Tag
  | nil => []
  | text _ rest => rest.ownBlips
  | element tag content rest =>
    if isDrawing tag then rest.ownBlips else blipOf tag ++ (content.ownBlips ++ rest.ownBlips)
  | closed tag rest => blipOf tag ++ rest.ownBlips

/-- The blips of a forest before its first drawing. -/
def leadingBlips : Forest → List Tag
  | nil => []
  | text _ rest => rest.leadingBlips
  | element tag content rest =>
    if isDrawing tag then []
    else blipOf tag ++
      (content.leadingBlips ++ if content.holdsDrawing then [] else rest.leadingBlips)
  | closed tag rest => if isDrawing tag then [] else blipOf tag ++ rest.leadingBlips

theorem sites_eq_nil_iff (f : Forest) (nested : Bool) :
    f.sites nested = [] ↔ f.holdsDrawing = false := by
  induction f with
  | nil => simp only [sites, holdsDrawing]
  | text data rest ih => exact ih
  | element tag content rest ihContent ihRest =>
      by_cases htag : isDrawing tag = true
      · simp [sites, holdsDrawing, htag]
      · simp only [sites, holdsDrawing, htag, Bool.false_eq_true, if_false, List.append_eq_nil_iff,
          ihContent, ihRest, Bool.or_eq_false_iff, true_and]
  | closed tag rest ih =>
      by_cases htag : isDrawing tag = true
      · simp [sites, holdsDrawing, htag]
      · simp only [sites, holdsDrawing, htag, Bool.false_eq_true, if_false, ih, Bool.false_or]

theorem leadingBlips_eq_ownBlips {f : Forest} (h : f.holdsDrawing = false) :
    f.leadingBlips = f.ownBlips := by
  induction f with
  | nil => rfl
  | text data rest ih => exact ih h
  | element tag content rest ihContent ihRest =>
      obtain ⟨htag, h⟩ := Bool.or_eq_false_iff.1 h
      obtain ⟨hcontent, hrest⟩ := Bool.or_eq_false_iff.1 h
      simp only [leadingBlips, ownBlips, htag, hcontent, ihContent hcontent, ihRest hrest,
        Bool.false_eq_true, if_false]
  | closed tag rest ih =>
      obtain ⟨htag, hrest⟩ := Bool.or_eq_false_iff.1 h
      simp only [leadingBlips, ownBlips, htag, ih hrest, Bool.false_eq_true, if_false]

end Forest

def pictureOf (blips : List Tag) : Option String :=
  blips.findSome? embedId?

/-- A drawing is recorded with the first picture of its own blips before the first drawing inside it,
unless it is closed in its own tag inside another drawing. -/
def Site.Leads (s : Site) (entry : Option String) : Prop :=
  (s.closed && s.nested) = false → entry = pictureOf s.content.leadingBlips

def fill (blips : List Tag) (ds : List (Option String)) : List (Option String) :=
  blips.foldl (fun ds tag => fillLast (embedId? tag) ds) ds

theorem length_fill (blips : List Tag) (ds : List (Option String)) :
    (fill blips ds).length = ds.length := by
  induction blips generalizing ds with
  | nil => rfl
  | cons tag blips ih => exact (ih _).trans (length_fillLast _ _)

theorem fillLast_append (embed : Option String) (ds : List (Option String)) {es : List (Option String)}
    (hes : es ≠ []) : fillLast embed (ds ++ es) = ds ++ fillLast embed es := by
  induction ds with
  | nil => rfl
  | cons d ds ih =>
      have hne : (ds ++ es).isEmpty = false :=
        List.isEmpty_eq_false_iff.2 (List.append_ne_nil_of_right_ne_nil ds hes)
      rw [List.cons_append, fillLast, hne, ih]
      rfl

theorem fillLast_ne_nil (embed : Option String) {ds : List (Option String)} (hds : ds ≠ []) :
    fillLast embed ds ≠ [] := by
  rw [← List.length_pos_iff, length_fillLast]
  exact List.length_pos_iff.2 hds

theorem fill_append (blips : List Tag) (ds : List (Option String)) {es : List (Option String)}
    (hes : es ≠ []) : fill blips (ds ++ es) = ds ++ fill blips es := by
  induction blips generalizing es with
  | nil => rfl
  | cons tag blips ih =>
      rw [fill, List.foldl_cons, fillLast_append _ _ hes]
      exact ih (fillLast_ne_nil _ hes)

theorem fill_singleton (blips : List Tag) (d : Option String) :
    fill blips [d] = [d.or (pictureOf blips)] := by
  induction blips generalizing d with
  | nil => rw [pictureOf, List.findSome?_nil, Option.or_none]; rfl
  | cons tag blips ih =>
      rw [fill, List.foldl_cons]
      refine (ih (d.or (embedId? tag))).trans ?_
      rw [pictureOf, pictureOf, List.findSome?_cons, Option.or_assoc]
      cases embedId? tag <;> rfl

theorem forall₂_fillLast {sites : List Site} {es : List (Option String)}
    (h : List.Forall₂ Site.Leads sites es)
    (hlast : ∀ s ∈ sites.getLast?, (s.closed && s.nested) = true) (embed : Option String) :
    List.Forall₂ Site.Leads sites (fillLast embed es) := by
  induction h with
  | nil => exact .nil
  | @cons s e sites es hs hrest ih =>
      cases hrest with
      | nil =>
          refine .cons (fun hfree => ?_) .nil
          rw [hlast s rfl] at hfree
          cases hfree
      | cons hs' hrest => exact .cons hs (ih fun s' hs' => hlast s' (by rwa [List.getLast?_cons_cons]))

theorem forall₂_fill {sites : List Site} {es : List (Option String)}
    (h : List.Forall₂ Site.Leads sites es)
    (hlast : ∀ s ∈ sites.getLast?, (s.closed && s.nested) = true) (blips : List Tag) :
    List.Forall₂ Site.Leads sites (fill blips es) := by
  induction blips generalizing es with
  | nil => exact h
  | cons tag blips ih => exact ih (forall₂_fillLast h hlast _)

namespace OpenParagraph

/-- Some nodes of a paragraph were read: blips that lead, for the last drawing before them as long as it
is open, and then some drawings. -/
structure Fills (p q : OpenParagraph) (blips : List Tag) (sites : List Site) : Prop where
  depth : q.depth = p.depth
  drawing : q.drawing = p.drawing ∨ q.drawing = none ∧ sites ≠ []
  drawings : ∃ es, q.read.drawings =
    fill (if p.drawing.isSome then blips else []) p.read.drawings ++ es ∧ List.Forall₂ Site.Leads sites es
  last : q.drawing.isSome → ∀ s ∈ sites.getLast?, (s.closed && s.nested) = true

variable {p q r : OpenParagraph} {blips blips' : List Tag} {sites sites' : List Site}

theorem Fills.of_eq (hdepth : q.depth = p.depth) (hdrawing : q.drawing = p.drawing)
    (hdrawings : q.read.drawings = fill (if p.drawing.isSome then blips else []) p.read.drawings) :
    p.Fills q blips [] :=
  ⟨hdepth, .inl hdrawing, ⟨[], by rw [hdrawings, List.append_nil], .nil⟩, fun _ _ hs => by cases hs⟩

theorem Fills.trans_nil (h : p.Fills q blips []) (h' : q.Fills r blips' sites') :
    p.Fills r (blips ++ blips') sites' := by
  obtain ⟨es, hes, hnil⟩ := h.drawings
  obtain ⟨es', hes', hleads⟩ := h'.drawings
  obtain rfl := List.forall₂_nil_left_iff.1 hnil
  have hdrawing : q.drawing = p.drawing := h.drawing.resolve_right fun h => h.2 rfl
  refine ⟨h'.depth.trans h.depth, hdrawing ▸ h'.drawing, ⟨es', ?_, hleads⟩, h'.last⟩
  rw [hes', hes, List.append_nil, hdrawing]
  by_cases hlive : p.drawing.isSome = true
  · rw [if_pos hlive, if_pos hlive, if_pos hlive, fill, fill, fill, List.foldl_append]
  · rw [if_neg hlive, if_neg hlive, if_neg hlive]
    rfl

theorem Fills.trans_cons {s : Site} (h : p.Fills q blips (s :: sites)) (h' : q.Fills r blips' sites') :
    p.Fills r blips (s :: sites ++ sites') := by
  obtain ⟨es, hes, hleads⟩ := h.drawings
  obtain ⟨es', hes', hleads'⟩ := h'.drawings
  have hne : es ≠ [] := by
    rintro rfl
    cases hleads
  -- Blips that follow are for the last drawing only if it is one of those that nothing is said of.
  have hleads : List.Forall₂ Site.Leads (s :: sites)
      (fill (if q.drawing.isSome then blips' else []) es) := by
    by_cases hlive : q.drawing.isSome = true
    · exact forall₂_fill hleads (h.last hlive) _
    · rw [if_neg hlive]
      exact hleads
  refine ⟨h'.depth.trans h.depth, ?_, ⟨_, ?_, List.rel_append hleads hleads'⟩, ?_⟩
  · rcases h'.drawing with hdrawing | ⟨hdrawing, -⟩
    · rcases h.drawing with hdrawing' | ⟨hdrawing', -⟩
      · exact .inl (hdrawing.trans hdrawing')
      · exact .inr ⟨hdrawing.trans hdrawing', List.cons_ne_nil _ _⟩
    · exact .inr ⟨hdrawing, List.cons_ne_nil _ _⟩
  · rw [hes', hes, fill_append _ _ hne, List.append_assoc]
  · intro hlive t ht
    cases sites' with
    | nil =>
        rw [List.append_nil] at ht
        have hdrawing : r.drawing = q.drawing := h'.drawing.resolve_right fun h => h.2 rfl
        exact h.last (hdrawing ▸ hlive) t ht
    | cons s' sites' =>
        rw [List.getLast?_append_cons] at ht
        exact h'.last hlive t ht

theorem drawing_element (opened : List (List Char)) (tag : Tag) (opens : Bool) :
    (p.element opened tag opens).drawing =
      if isDrawing tag && opens then some opened.length else p.drawing := by
  rw [element, isDrawing]
  by_cases htag : tag.localName = "drawing".toList
  · cases opens <;> simp [htag]
  · simp only [htag, if_false, decide_false, Bool.false_and, Bool.false_eq_true]
    repeat' split
    all_goals rfl

theorem drawings_element (opened : List (List Char)) (tag : Tag) (opens : Bool) :
    (p.element opened tag opens).read.drawings =
      if isDrawing tag then p.read.drawings ++ [none]
      else fill (if p.drawing.isSome then blipOf tag else []) p.read.drawings := by
  rw [element, isDrawing]
  by_cases htag : tag.localName = "drawing".toList
  · simp [htag]
  · simp only [htag, if_false, decide_false, Bool.false_eq_true]
    by_cases hblip : tag.localName = "blip".toList ∧ p.drawing.isSome = true
    · rw [if_pos hblip, if_pos hblip.2, blipOf, if_pos hblip.1]
      rfl
    · have hnone : (if p.drawing.isSome then blipOf tag else []) = [] := by
        split
        · next hlive => exact if_neg fun hname => hblip ⟨hname, hlive⟩
        · rfl
      rw [if_neg hblip, hnone]
      repeat' split
      all_goals rfl

theorem fills_element (opened : List (List Char)) {tag : Tag} (opens : Bool)
    (htag : isDrawing tag = false) : p.Fills (p.element opened tag opens) (blipOf tag) [] := by
  refine .of_eq (depth_element opened tag opens) ?_ ?_
  · rw [drawing_element, htag]
    rfl
  · rw [drawings_element, htag]
    rfl

theorem fills_closed (opened : List (List Char)) {tag : Tag} (htag : isDrawing tag = true) {nested : Bool}
    (hnested : p.drawing.isSome → nested = true) :
    p.Fills (p.element opened tag false) [] [⟨nested, true, .nil⟩] := by
  have hdrawing : (p.element opened tag false).drawing = p.drawing := by
    rw [drawing_element, Bool.and_false]
    rfl
  refine ⟨depth_element opened tag false, .inl hdrawing, ⟨[none], ?_, .cons (fun _ => rfl) .nil⟩, ?_⟩
  · rw [drawings_element, htag, ite_self]
    rfl
  · intro hlive s hs
    obtain rfl := Option.some.inj hs
    exact hnested (hdrawing ▸ hlive)

theorem fills_drawing (opened : List (List Char)) {tag : Tag} (htag : isDrawing tag = true) (nested : Bool)
    {content : Forest}
    (h : (p.element opened tag true).Fills q content.leadingBlips (content.sites true)) :
    p.Fills (q.close opened.length) [] (⟨nested, false, content⟩ :: content.sites true) := by
  have hopen : (p.element opened tag true).drawing = some opened.length := by
    rw [drawing_element, htag]
    rfl
  obtain ⟨es, hes, hleads⟩ := h.drawings
  have hnone : (q.close opened.length).drawing = none := by
    rw [close]
    rcases h.drawing with hq | ⟨hq, -⟩
    · rw [if_pos (hq.trans hopen)]
    · rw [hq, if_neg (Option.some_ne_none _).symm, hq]
  refine ⟨?_, .inr ⟨hnone, List.cons_ne_nil _ _⟩, ⟨pictureOf content.leadingBlips :: es, ?_, ?_⟩, ?_⟩
  · rw [depth_close, h.depth, depth_element]
  · rw [read_close, hes, hopen, drawings_element, if_pos htag, Option.isSome_some, if_pos rfl, ite_self,
      fill_append _ _ (List.cons_ne_nil _ _), fill_singleton, List.append_assoc]
    rfl
  · exact .cons (fun _ => rfl) hleads
  · intro hlive
    rw [hnone] at hlive
    cases hlive

theorem fills_takeText (opened : List (List Char)) (data : CharData) :
    p.Fills (p.takeText opened data) [] [] := by
  rw [takeText]
  split
  · exact .of_eq rfl rfl (by rw [ite_self]; rfl)
  · exact .of_eq rfl rfl (by rw [ite_self]; rfl)

theorem Fills.drawing_lt (h : p.Fills q blips sites) {n : Nat} (hp : ∀ d ∈ p.drawing, d < n) :
    ∀ d ∈ q.drawing, d < n := by
  rcases h.drawing with hq | ⟨hq, -⟩
  · rwa [hq]
  · intro d hd
    rw [hq] at hd
    cases hd

theorem Fills.nested (h : p.Fills q blips sites) {nested : Bool} (hp : p.drawing.isSome → nested = true) :
    q.drawing.isSome → nested = true := by
  rcases h.drawing with hq | ⟨hq, -⟩
  · rwa [hq]
  · intro hlive
    rw [hq] at hlive
    cases hlive

theorem close_of_lt {n : Nat} (hp : ∀ d ∈ p.drawing, d < n) : p.close n = p :=
  if_neg fun h => Nat.lt_irrefl n (hp n h)

theorem fills_after (f : Forest) {opened : List (List Char)} (h : p.depth < opened.length)
    (hp : ∀ d ∈ p.drawing, d < opened.length) {nested : Bool}
    (hnested : p.drawing.isSome → nested = true) :
    p.Fills (p.after opened f) f.leadingBlips (f.sites nested) := by
  induction f generalizing p opened nested with
  | nil => exact .of_eq rfl rfl (by rw [Forest.leadingBlips, ite_self]; rfl)
  | text data rest ih =>
      have htext := p.fills_takeText opened data
      exact htext.trans_nil
        (ih (by rwa [htext.depth]) (htext.drawing_lt hp) (htext.nested hnested))
  | element tag content rest ihContent ihRest =>
      have hinside := depth_element_lt h tag true
      rw [after, Forest.leadingBlips, Forest.sites]
      by_cases htag : isDrawing tag = true
      · have hopen : (p.element opened tag true).drawing = some opened.length := by
          rw [drawing_element, htag]
          rfl
        have hcontent : (p.element opened tag true).Fills
            ((p.element opened tag true).after (opened ++ [tag.localName]) content)
            content.leadingBlips (content.sites true) := by
          apply ihContent hinside
          · rw [hopen]
            rintro d ⟨⟩
            exact length_lt_concat opened tag.localName
          · exact fun _ => rfl
        -- Its end tag leaves no drawing open, so no blip of the rest leads for one before it.
        have hfirst := fills_drawing opened htag nested hcontent
        rw [if_pos htag, if_pos htag]
        exact hfirst.trans_cons
          (ihRest (by rwa [hfirst.depth]) (hfirst.drawing_lt hp) (hfirst.nested hnested))
      · have htag' := Bool.eq_false_iff.2 htag
        have hfirst := p.fills_element opened true htag'
        have hcontent : (p.element opened tag true).Fills
            ((p.element opened tag true).after (opened ++ [tag.localName]) content)
            content.leadingBlips (content.sites nested) := by
          apply ihContent hinside
          · intro d hd
            exact Nat.lt_trans (hfirst.drawing_lt hp d hd) (length_lt_concat opened tag.localName)
          · exact hfirst.nested hnested
        have hlt := hcontent.drawing_lt (hfirst.drawing_lt hp)
        have hrest := ihRest (by rwa [hcontent.depth, hfirst.depth]) hlt
          (hcontent.nested (hfirst.nested hnested))
        rw [if_neg htag, if_neg htag, close_of_lt hlt]
        refine hfirst.trans_nil ?_
        -- Blips of the rest go on leading only if no drawing began in the content.
        cases hsites : content.sites nested with
        | nil =>
            rw [hsites] at hcontent
            rw [(content.sites_eq_nil_iff nested).1 hsites]
            exact hcontent.trans_nil hrest
        | cons s sites =>
            have hholds : content.holdsDrawing = true := by
              rw [← Bool.not_eq_false, ← content.sites_eq_nil_iff nested, hsites]
              exact List.cons_ne_nil _ _
            rw [hsites] at hcontent
            rw [hholds, if_pos rfl, List.append_nil]
            exact hcontent.trans_cons hrest
  | closed tag rest ih =>
      rw [after, Forest.leadingBlips, Forest.sites]
      by_cases htag : isDrawing tag = true
      · have hfirst := p.fills_closed opened htag hnested
        rw [if_pos htag, if_pos htag]
        exact hfirst.trans_cons
          (ih (by rwa [hfirst.depth]) (hfirst.drawing_lt hp) (hfirst.nested hnested))
      · have hfirst := p.fills_element opened false (Bool.eq_false_iff.2 htag)
        rw [if_neg htag, if_neg htag]
        exact hfirst.trans_nil
          (ih (by rwa [hfirst.depth]) (hfirst.drawing_lt hp) (hfirst.nested hnested))

end OpenParagraph

theorem Forest.drawings_read (opened : List (List Char)) (content : Forest) :
    List.Forall₂ Site.Leads (content.sites false) (content.read opened).drawings := by
  have hfills : (⟨opened.length, none, .empty⟩ : OpenParagraph).Fills
      (OpenParagraph.after (opened ++ ["p".toList]) ⟨opened.length, none, .empty⟩ content)
      content.leadingBlips (content.sites false) := by
    apply OpenParagraph.fills_after content (OpenParagraph.length_lt_concat opened "p".toList)
    · intro d hd
      cases hd
    · intro hlive
      cases hlive
  obtain ⟨es, hes, hleads⟩ := hfills.drawings
  rw [read, hes]
  exact hleads

end Inkpress.Body
