import Inkpress.Image.Header
import Inkpress.Proofs.Package.MainPart
import Inkpress.Proofs.Text.Splitting

namespace Inkpress.Package

open Store (ok_of_bind)
open Text (split join split_append_split split_join not_mem_of_mem_split eq_of_splitLast?)

namespace PartName

/-- A segment that leads to something of its own. -/
def IsName (segment : List Char) : Prop :=
  segment ≠ [] ∧ segment ≠ ['.'] ∧ segment ≠ ['.', '.'] ∧ '/' ∉ segment

/-- A name that is joined of segments, none of them empty or a step. -/
def IsNormal (name : List Char) : Prop :=
  ∃ segments, (∀ s ∈ segments, IsName s) ∧ name = join '/' segments

/-- No segment of a directory is a step. -/
def HasNoSteps (directory : List Char) : Prop :=
  ∀ s ∈ split '/' directory, s ≠ ['.'] ∧ s ≠ ['.', '.']

def segments (base target : List Char) : List (List Char) :=
  (split '/' target).foldl descend (origin base target)

theorem resolve_eq (base target : List Char) : resolve base target = join '/' (segments base target) :=
  rfl

section

variable {path ss : List (List Char)} {s : List Char} {P : List Char → Prop}

theorem descend_name (path : List (List Char)) (h : IsName s) : descend path s = path ++ [s] := by
  rw [descend, if_neg (not_or.2 ⟨h.1, h.2.1⟩), if_neg h.2.2.1]

theorem foldl_descend_names (path : List (List Char)) (h : ∀ s ∈ ss, IsName s) :
    ss.foldl descend path = path ++ ss := by
  induction ss generalizing path with
  | nil => exact (List.append_nil path).symm
  | cons s ss ih =>
      obtain ⟨hs, hss⟩ := List.forall_mem_cons.1 h
      rw [List.foldl_cons, descend_name path hs, ih _ hss, List.append_assoc, List.singleton_append]

theorem forall_mem_descend (hpath : ∀ p ∈ path, P p) (hs : '/' ∉ s) (hP : IsName s → P s) :
    ∀ p ∈ descend path s, P p := by
  rw [descend]
  split
  · exact hpath
  · next hidle =>
      obtain ⟨hempty, hdot⟩ := not_or.1 hidle
      split
      · exact fun p hp => hpath p (List.dropLast_subset path hp)
      · next hup =>
          intro p hp
          rcases List.mem_append.1 hp with hp | hp
          · exact hpath p hp
          · obtain rfl := List.mem_singleton.1 hp
            exact hP ⟨hempty, hdot, hup, hs⟩

theorem forall_mem_foldl_descend (hpath : ∀ p ∈ path, P p) (hss : ∀ s ∈ ss, '/' ∉ s)
    (hP : ∀ s, IsName s → P s) : ∀ p ∈ ss.foldl descend path, P p := by
  induction ss generalizing path with
  | nil => exact hpath
  | cons s ss ih =>
      obtain ⟨hs, hss⟩ := List.forall_mem_cons.1 hss
      exact ih (forall_mem_descend hpath hs (hP s)) hss

end

variable {base target name : List Char}

theorem forall_mem_segments {P : List Char → Prop}
    (hbase : ∀ s ∈ split '/' base, s ≠ [] → P s) (hP : ∀ s, IsName s → P s) :
    ∀ s ∈ segments base target, P s := by
  refine forall_mem_foldl_descend ?_ (fun s => not_mem_of_mem_split) hP
  rw [origin]
  split
  · intro p hp
    cases hp
  · intro p hp
    obtain ⟨hp, hne⟩ := List.mem_filter.1 hp
    exact hbase p hp (of_decide_eq_true hne)

theorem isName_of_mem_segments (h : HasNoSteps base) : ∀ s ∈ segments base target, IsName s :=
  forall_mem_segments (fun s hs hne => ⟨hne, (h s hs).1, (h s hs).2, not_mem_of_mem_split hs⟩)
    fun _ => id

theorem split_join_names {ss : List (List Char)} (h : ∀ s ∈ ss, s ≠ [] ∧ '/' ∉ s) :
    (split '/' (join '/' ss)).filter (· ≠ []) = ss := by
  cases ss with
  | nil => rfl
  | cons s ss =>
      rw [split_join (List.cons_ne_nil s ss) fun p hp => (h p hp).2]
      exact List.filter_eq_self.2 fun p hp => decide_eq_true (h p hp).1

theorem origin_resolve (base target : List Char) {next : List Char} (h : next.head? ≠ some '/') :
    origin (resolve base target) next = segments base target := by
  rw [origin, if_neg h, resolve_eq]
  exact split_join_names (forall_mem_segments (fun s hs hne => ⟨hne, not_mem_of_mem_split hs⟩)
    fun s hs => ⟨hs.1, hs.2.2.2⟩)

theorem origin_absolute (base : List Char) (h : target.head? = some '/') : origin base target = [] :=
  if_pos h

theorem origin_append {t : List Char} (base : List Char) (h : t ≠ []) (u : List Char) :
    origin base (t ++ u) = origin base t := by
  obtain ⟨c, cs, rfl⟩ := List.exists_cons_of_ne_nil h
  rfl

theorem resolve_append {t u : List Char} (base : List Char) (ht : t ≠ []) (hu : u.head? ≠ some '/') :
    resolve base (t ++ '/' :: u) = resolve (resolve base t) u := by
  have horigin := origin_resolve base t hu
  rw [resolve_eq, resolve_eq _ u, segments, segments, horigin, origin_append base ht,
    split_append_split, List.foldl_append]
  rfl

theorem segments_up (base target : List Char) :
    segments base ("/..".toList ++ '/' :: target) = segments base ('/' :: target) := by
  -- The step up has nothing to drop, and an empty segment, as the other side has in front, adds nothing.
  have hroot : (split '/' "/..".toList).foldl descend [] = [] := rfl
  have hstep : descend [] [] = [] := rfl
  rw [segments, segments, origin_absolute base rfl, origin_absolute base rfl, split_append_split,
    List.foldl_append, hroot, split, if_pos rfl, List.foldl_cons, hstep]

theorem IsNormal.split_eq (h : IsNormal name) : ∃ ss, (∀ s ∈ ss, IsName s) ∧ name = join '/' ss ∧
    (split '/' name = ss ∨ split '/' name = [[]] ∧ ss = []) := by
  obtain ⟨ss, hss, rfl⟩ := h
  refine ⟨ss, hss, rfl, ?_⟩
  cases ss with
  | nil => exact .inr ⟨rfl, rfl⟩
  | cons s ss => exact .inl (split_join (List.cons_ne_nil s ss) fun p hp => (hss p hp).2.2.2)

theorem IsNormal.hasNoSteps (h : IsNormal name) : HasNoSteps name := by
  obtain ⟨ss, hss, -, hsplit | ⟨hsplit, -⟩⟩ := h.split_eq
  · intro s hs
    rw [hsplit] at hs
    exact ⟨(hss s hs).2.1, (hss s hs).2.2.1⟩
  · intro s hs
    rw [hsplit, List.mem_singleton] at hs
    subst hs
    exact ⟨List.cons_ne_nil _ _ ∘ Eq.symm, List.cons_ne_nil _ _ ∘ Eq.symm⟩

theorem isNormal_resolve (h : HasNoSteps base) (target : List Char) : IsNormal (resolve base target) :=
  ⟨segments base target, isName_of_mem_segments h, rfl⟩

theorem IsNormal.resolve_absolute (h : IsNormal name) (base : List Char) :
    resolve base ('/' :: name) = name := by
  obtain ⟨ss, hss, hname, hsplit⟩ := h.split_eq
  have hwalk : (split '/' name).foldl descend [] = ss := by
    rcases hsplit with hsplit | ⟨hsplit, rfl⟩
    · rw [hsplit, foldl_descend_names [] hss, List.nil_append]
    · rw [hsplit]
      rfl
  have hstep : descend [] [] = [] := rfl
  rw [resolve_eq, segments, origin_absolute base rfl, split, if_pos rfl, List.foldl_cons, hstep, hwalk,
    hname]

theorem HasNoSteps.directory (h : HasNoSteps name) : HasNoSteps (directory name) := by
  rw [PartName.directory]
  cases hlast : Text.splitLast? '/' name with
  | none =>
      intro s hs
      obtain rfl := List.mem_singleton.1 hs
      exact ⟨List.cons_ne_nil _ _ ∘ Eq.symm, List.cons_ne_nil _ _ ∘ Eq.symm⟩
  | some parts =>
      obtain ⟨hname, -⟩ := eq_of_splitLast? hlast
      intro s hs
      refine h s ?_
      rw [hname, split_append_split]
      exact List.mem_append_left _ hs

end PartName

open PartName

theorem isNormal_defaultMainPart : IsNormal defaultMainPart.toList := by
  refine ⟨["word".toList, "document.xml".toList], ?_, rfl⟩
  intro s hs
  rcases List.mem_pair.1 hs with rfl | rfl <;> exact ⟨by decide, by decide, by decide, by decide⟩

theorem hasNoSteps_nil : HasNoSteps [] := by
  intro s hs
  obtain rfl := List.mem_singleton.1 hs
  exact ⟨by decide, by decide⟩

theorem isNormal_mainPartOf (rels : List Relationship) : IsNormal (mainPartOf rels).toList := by
  rw [mainPartOf_eq]
  cases rels.find? Relationship.isMain with
  | none => exact isNormal_defaultMainPart
  | some r =>
      rw [Option.map_some, Option.getD_some, Relationship.rootPart, String.toList_ofList]
      exact isNormal_resolve hasNoSteps_nil _

section

variable {order : Table Relationship → List Relationship} {a : Zip.Archive}

theorem isNormal_selectMain {part : String} (h : selectMain order a = .ok part) : IsNormal part.toList := by
  obtain ⟨own, -, hpart⟩ := ok_of_bind h
  cases hpart
  exact isNormal_mainPartOf _

theorem isNormal_mainPart {p : Package} (h : ofArchiveIn order a = .ok p) : IsNormal p.mainPart.toList := by
  obtain ⟨part, hpart, hp⟩ := ok_of_bind h
  rw [mainPart_of_ofMain hp]
  exact isNormal_selectMain hpart

end

theorem isNormal_partOf {p : Package} (h : IsNormal p.mainPart.toList) (r : Relationship) :
    IsNormal (p.partOf r).toList := by
  rw [partOf, String.toList_ofList]
  exact isNormal_resolve h.hasNoSteps.directory _

/-- A picture depends on the archive through the one part that its relationship leads to. -/
theorem picture_congr [Image.Library] {p : Package} {a : Zip.Archive}
    (h : ∀ r, a.find? (p.partOf r) = p.archive.find? (p.partOf r)) (id : String) :
    ({ p with archive := a } : Package).picture id = p.picture id := by
  simp only [picture]
  cases p.relationships.find? id with
  | none => rfl
  | some r =>
      have hpart : ({ p with archive := a } : Package).partOf r = p.partOf r := rfl
      simp only [hpart, h r]
      rfl

/-- What a target names from a directory without steps is normal, and with a slash in front it is found from
everywhere. Following a target in two parts leads where the whole does; one with a slash in front does not
depend on where it is followed, and at the root a step up leads nowhere. So the main document that a package
selects has a normal name, and pictures are only looked for under such names. -/
theorem resolve_normal_compose [Image.Library] :
    (∀ base target, HasNoSteps base → IsNormal (resolve base target)) ∧
    (∀ base target, resolve base ("/..".toList ++ '/' :: target) = resolve base ('/' :: target)) ∧
    (∀ base base' target, target.head? = some '/' → resolve base target = resolve base' target) ∧
    (∀ base t u, t ≠ [] → u.head? ≠ some '/' →
      resolve base (t ++ '/' :: u) = resolve (resolve base t) u) ∧
    (∀ base target b, HasNoSteps base → resolve b ('/' :: resolve base target) = resolve base target) ∧
    (∀ order a part, selectMain order a = .ok part → IsNormal part.toList) ∧
    ∀ order a p, ofArchiveIn order a = .ok p → IsNormal p.mainPart.toList ∧
      (∀ r, IsNormal (p.partOf r).toList) ∧
      ∀ a' : Zip.Archive, (∀ part, IsNormal part.toList → a'.find? part = p.archive.find? part) →
        ∀ id, ({ p with archive := a' } : Package).picture id = p.picture id := by
  refine ⟨fun base target h => isNormal_resolve h target, ?_, ?_, fun base t u => resolve_append base, ?_,
    ?_, ?_⟩
  · intro base target
    rw [resolve_eq, segments_up, resolve_eq]
  · intro base base' target h
    rw [resolve_eq, resolve_eq, segments, segments, origin_absolute base h, origin_absolute base' h]
  · intro base target b h
    exact (isNormal_resolve h target).resolve_absolute b
  · intro order a part h
    exact isNormal_selectMain h
  · intro order a p h
    have hmain := isNormal_mainPart h
    refine ⟨hmain, isNormal_partOf hmain, ?_⟩
    intro a' ha
    exact picture_congr fun r => ha _ (isNormal_partOf hmain r)

/-- A target that goes up and on from a directory, and a package whose main document is named with steps. -/
theorem resolve_normal_compose_up :
    let base := "word/sub".toList
    let a := ofRelationships [("1", ⟨Relationship.officeDocument, "../b/./c.xml", false⟩)]
    HasNoSteps base ∧ resolve base "../media/a.png".toList = "word/media/a.png".toList ∧
      IsNormal "word/media/a.png".toList ∧
      resolve "x/..".toList "/word/media/a.png".toList = "word/media/a.png".toList ∧
      resolve (resolve base "../media".toList) "a.png".toList = "word/media/a.png".toList ∧
      ∃ p, ofArchiveIn Table.values a = .ok p ∧ p.mainPart = "b/c.xml" ∧ IsNormal p.mainPart.toList ∧
        IsNormal (p.partOf ⟨"", "../../media//x.png", false⟩).toList := by
  intro base a
  have hbase : HasNoSteps base := by
    have hsplit : split '/' base = ["word".toList, "sub".toList] := by decide
    intro s hs
    rw [hsplit] at hs
    rcases List.mem_pair.1 hs with rfl | rfl <;> exact ⟨by decide, by decide⟩
  have hresolve : resolve base "../media/a.png".toList = "word/media/a.png".toList := by decide
  have hopen : ofArchiveIn Table.values a = .ok ⟨a, "b/c.xml", .empty, .empty⟩ :=
    ofArchiveIn_ofRelationships _ (by decide +kernel) (by decide +kernel)
  obtain ⟨hnormal, -, -, happend, hself, -, hpackage⟩ := resolve_normal_compose
  have hback := hself base "../media/a.png".toList "x/..".toList hbase
  have hsteps := happend base "../media".toList "a.png".toList (by decide) (by decide)
  rw [hresolve] at hback
  refine ⟨hbase, hresolve, hresolve ▸ hnormal base "../media/a.png".toList hbase, hback,
    hsteps.symm.trans hresolve, _, hopen, rfl, (hpackage _ _ _ hopen).1, (hpackage _ _ _ hopen).2.1 _⟩

end Inkpress.Package
