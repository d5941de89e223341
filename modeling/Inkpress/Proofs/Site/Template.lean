import Inkpress.Proofs.Text.Splitting
import Inkpress.Site.Route
import Mathlib.Data.List.Forall2

namespace Inkpress.Site

open Text (split)

def templates : List String :=
  ["/api/blog_posts", "/api/blog/\x7bpost_id\x7d", "/api/blog/image/\x7bimage_id\x7d",
    "/home/\x7bname\x7d", "/test"]

namespace Template

def Admits (pattern segment : List Char) : Prop :=
  if pattern.head? = some '\x7b' then segment ≠ [] else segment = pattern

instance (pattern segment : List Char) : Decidable (Admits pattern segment) := by
  unfold Admits
  infer_instance

/-- Whether a path has the form of a template, segment by segment. -/
def Fits (path : List Char) (template : String) : Prop :=
  List.Forall₂ Admits (split '/' template.toList) (split '/' path)

instance (path : List Char) (template : String) : Decidable (Fits path template) :=
  inferInstanceAs (Decidable (List.Forall₂ _ _ _))

end Template

open Template (Admits Fits)

namespace Route

def segments : Route → List (List Char)
  | health => ["health".toList]
  | ready => ["ready".toList]
  | posts => ["api".toList, "blog_posts".toList]
  | post s => ["api".toList, "blog".toList, s]
  | image s => ["api".toList, "blog".toList, "image".toList, s]
  | home s => ["home".toList, s]
  | echo => ["test".toList]

def IsProper : Route → Prop
  | post s | image s | home s => s ≠ []
  | health | ready | posts | echo => True

variable {segs : List (List Char)} {path : List Char} {route : Route}

theorem ofSegments?_eq_some_iff :
    ofSegments? segs = some route ↔ route.IsProper ∧ segs = route.segments := by
  constructor
  · fun_cases ofSegments? segs with
    | case1 => rintro ⟨⟩; exact ⟨trivial, rfl⟩
    | case2 => rintro ⟨⟩; exact ⟨trivial, rfl⟩
    | case3 => rintro ⟨⟩; exact ⟨trivial, rfl⟩
    | case5 a b h => rintro ⟨⟩; exact ⟨trivial, by rw [h.1, h.2]; rfl⟩
    | case6 a b _ h => rintro ⟨⟩; exact ⟨h.2, by rw [h.1]; rfl⟩
    | case8 a b c h => rintro ⟨⟩; exact ⟨h.2.2, by rw [h.1, h.2.1]; rfl⟩
    | case10 a b c d h => rintro ⟨⟩; exact ⟨h.2.2.2, by rw [h.1, h.2.1, h.2.2.1]; rfl⟩
    | case4 | case7 | case9 | case11 | case12 => rintro ⟨⟩
  · rintro ⟨hproper, rfl⟩
    cases route with
    | health => rfl
    | ready => rfl
    | posts => rfl
    | post s => exact if_pos ⟨rfl, rfl, hproper⟩
    | image s => exact if_pos ⟨rfl, rfl, rfl, hproper⟩
    | home s => exact if_pos ⟨rfl, hproper⟩
    | echo => rfl

theorem segments_ne_nil (route : Route) : route.segments ≠ [] := by
  cases route <;> exact List.cons_ne_nil _ _

theorem ofPath?_eq_some_iff :
    ofPath? path = some route ↔ route.IsProper ∧ split '/' path = [] :: route.segments := by
  cases path with
  | nil =>
      refine ⟨fun h => (Option.some_ne_none route h.symm).elim, ?_⟩
      rintro ⟨-, hsplit⟩
      exact absurd (List.cons.inj hsplit).2.symm route.segments_ne_nil
  | cons c rest =>
      by_cases hc : c = '/'
      · subst hc
        have hsplit : split '/' ('/' :: rest) = [] :: split '/' rest := by rw [split, if_pos rfl]
        rw [ofPath?, ofSegments?_eq_some_iff, hsplit, List.cons_inj_right]
      · have hpath : ofPath? (c :: rest) = none := by
          unfold ofPath?
          split
          · next h => exact absurd (List.cons.inj h).1 hc
          · rfl
        rw [hpath, split, if_neg hc]
        refine ⟨fun h => (Option.some_ne_none route h.symm).elim, ?_⟩
        rintro ⟨-, hsplit⟩
        split at hsplit <;> cases hsplit

end Route

namespace Template

variable {path : List Char} {texts patterns segs : List (List Char)}

theorem forall₂_append (h : ∀ t ∈ texts, t.head? ≠ some '\x7b') :
    List.Forall₂ Admits (texts ++ patterns) segs ↔
      ∃ rest, segs = texts ++ rest ∧ List.Forall₂ Admits patterns rest := by
  induction texts generalizing segs with
  | nil => simp only [List.nil_append, exists_eq_left']
  | cons t ts ih =>
      obtain ⟨ht, hts⟩ := List.forall_mem_cons.1 h
      simp only [List.cons_append, List.forall₂_cons_left_iff, Admits, if_neg ht, ih hts]
      constructor
      · rintro ⟨s, -, rfl, ⟨rest, rfl, hrest⟩, rfl⟩
        exact ⟨rest, rfl, hrest⟩
      · rintro ⟨rest, rfl, hrest⟩
        exact ⟨t, ts ++ rest, rfl, ⟨rest, rfl, hrest⟩, rfl⟩

theorem fits_text (texts : List (List Char)) {template : String}
    (hsplit : split '/' template.toList = texts) (h : ∀ t ∈ texts, t.head? ≠ some '\x7b') :
    Fits path template ↔ split '/' path = texts := by
  rw [Fits, hsplit, ← List.append_nil texts, forall₂_append h]
  simp only [List.forall₂_nil_left_iff, exists_eq_right]

theorem fits_name (texts : List (List Char)) (name : List Char) {template : String}
    (hsplit : split '/' template.toList = texts ++ ['\x7b' :: name])
    (h : ∀ t ∈ texts, t.head? ≠ some '\x7b') :
    Fits path template ↔ ∃ s ≠ [], split '/' path = texts ++ [s] := by
  rw [Fits, hsplit, forall₂_append h]
  simp only [List.forall₂_cons_left_iff, List.forall₂_nil_left_iff, Admits, List.head?_cons, if_true]
  constructor
  · rintro ⟨-, hs, s, -, hne, rfl, rfl⟩
    exact ⟨s, hne, hs⟩
  · rintro ⟨s, hne, hs⟩
    exact ⟨[s], hs, s, [], hne, rfl, rfl⟩

/-- What a request is counted under is the template that its path fits. -/
theorem endpoint?_eq_some_iff {e : String} :
    (Route.ofPath? path).bind Route.endpoint? = some e ↔ e ∈ templates ∧ Fits path e := by
  -- The templates as segments of the path; from these each route is read off.
  have hposts : Fits path "/api/blog_posts" ↔ split '/' path = [[], "api".toList, "blog_posts".toList] :=
    fits_text _ (by decide) (by decide)
  have hpost : Fits path "/api/blog/\x7bpost_id\x7d" ↔
      ∃ s ≠ [], split '/' path = [[], "api".toList, "blog".toList, s] :=
    fits_name [[], "api".toList, "blog".toList] "post_id\x7d".toList (by decide) (by decide)
  have himage : Fits path "/api/blog/image/\x7bimage_id\x7d" ↔
      ∃ s ≠ [], split '/' path = [[], "api".toList, "blog".toList, "image".toList, s] :=
    fits_name [[], "api".toList, "blog".toList, "image".toList] "image_id\x7d".toList (by decide) (by decide)
  have hhome : Fits path "/home/\x7bname\x7d" ↔ ∃ s ≠ [], split '/' path = [[], "home".toList, s] :=
    fits_name [[], "home".toList] "name\x7d".toList (by decide) (by decide)
  have hecho : Fits path "/test" ↔ split '/' path = [[], "test".toList] :=
    fits_text _ (by decide) (by decide)
  have hbind (route : Route) (hproper : route.IsProper) (hsplit : split '/' path = [] :: route.segments) :
      (Route.ofPath? path).bind Route.endpoint? = route.endpoint? := by
    rw [Route.ofPath?_eq_some_iff.2 ⟨hproper, hsplit⟩, Option.bind_some]
  constructor
  · intro h
    obtain ⟨route, hroute, he⟩ := Option.bind_eq_some_iff.1 h
    obtain ⟨hproper, hsplit⟩ := Route.ofPath?_eq_some_iff.1 hroute
    cases route <;> cases he
    · exact ⟨by decide, hposts.2 hsplit⟩
    · exact ⟨by decide, hpost.2 ⟨_, hproper, hsplit⟩⟩
    · exact ⟨by decide, himage.2 ⟨_, hproper, hsplit⟩⟩
    · exact ⟨by decide, hhome.2 ⟨_, hproper, hsplit⟩⟩
    · exact ⟨by decide, hecho.2 hsplit⟩
  · rintro ⟨he, hfits⟩
    simp only [templates, List.mem_cons, List.not_mem_nil, or_false] at he
    rcases he with rfl | rfl | rfl | rfl | rfl
    · exact hbind .posts trivial (hposts.1 hfits)
    · obtain ⟨s, hne, hs⟩ := hpost.1 hfits
      exact hbind (.post s) hne hs
    · obtain ⟨s, hne, hs⟩ := himage.1 hfits
      exact hbind (.image s) hne hs
    · obtain ⟨s, hne, hs⟩ := hhome.1 hfits
      exact hbind (.home s) hne hs
    · exact hbind .echo trivial (hecho.1 hfits)

theorem find?_templates (path : List Char) :
    templates.find? (fun e => Fits path e) = (Route.ofPath? path).bind Route.endpoint? := by
  cases h : templates.find? (fun e => Fits path e) with
  | some e =>
      have hfits : Fits path e := by simpa using List.find?_some h
      exact (endpoint?_eq_some_iff.2 ⟨List.mem_of_find?_eq_some h, hfits⟩).symm
  | none =>
      cases hroute : (Route.ofPath? path).bind Route.endpoint? with
      | none => rfl
      | some e =>
          obtain ⟨he, hfits⟩ := endpoint?_eq_some_iff.1 hroute
          exact absurd (decide_eq_true hfits) (List.find?_eq_none.1 h e he)

/-- An address of posts, although it begins like one of images. -/
example : templates.find? (fun e => Fits "/api/blog/image".toList e) = some "/api/blog/\x7bpost_id\x7d" := by
  decide

end Template

end Inkpress.Site
