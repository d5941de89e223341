import Inkpress.Proofs.Store.Interleaving

namespace Inkpress.Store

theorem BlockKind.ofName_eq_image_iff {s : String} : ofName s = image ↔ s = "image" := by
  rw [ofName]
  split
  · next h => exact iff_of_true rfl h
  · next h =>
      split
      · exact iff_of_false BlockKind.noConfusion h
      · exact iff_of_false BlockKind.noConfusion h

theorem find?_eq_some_iff_least {α : Type} {f : α → Int} {l : List α}
    (h : l.Pairwise fun a b => f a < f b) {fits : α → Bool} {a : α} :
    l.find? fits = some a ↔ a ∈ l ∧ fits a ∧ ∀ b ∈ l, fits b → f a ≤ f b := by
  constructor
  · intro hfind
    obtain ⟨ha, before, after, rfl, hbefore⟩ := List.find?_eq_some_iff_append.1 hfind
    refine ⟨by simp, ha, ?_⟩
    intro b hb hfits
    obtain ⟨-, hafter, -⟩ := List.pairwise_append.1 h
    rcases List.mem_append.1 hb with hb | hb
    · have := hbefore b hb
      rw [hfits] at this
      cases this
    · rcases List.mem_cons.1 hb with rfl | hb
      · exact Int.le_refl _
      · exact Int.le_of_lt ((List.pairwise_cons.1 hafter).1 b hb)
  · rintro ⟨ha, hfits, hleast⟩
    obtain ⟨before, after, rfl⟩ := List.append_of_mem ha
    refine List.find?_eq_some_iff_append.2 ⟨hfits, before, after, rfl, ?_⟩
    intro b hb
    rw [Bool.not_eq_true', ← Bool.not_eq_true]
    intro hb'
    have hlt := (List.pairwise_append.1 h).2.2 b hb a List.mem_cons_self
    have := hleast b (List.mem_append_left _ hb) hb'
    omega

namespace Tables

variable {t : Tables}

/-- An image is what a block shows. -/
structure Shows (t : Tables) (b : Block) (i : Image) : Prop where
  kindName : b.kindName = "image"
  mem : i ∈ t.images
  post : i.post = b.post
  block : i.block = some b.id
  least : ∀ j ∈ t.images, j.post = b.post → j.block = some b.id → i.id ≤ j.id

/-- A block as it should be shown. -/
structure Presents (t : Tables) (b : Block) (v : BlockView) : Prop where
  kindName : v.kindName = b.kindName
  content : v.content = b.content
  sequence : v.sequence = b.sequence
  enriched : v.payload.isSome ↔
    b.kindName = "image" ∧ ∃ i ∈ t.images, i.post = b.post ∧ i.block = some b.id
  payload : ∀ shown, v.payload = some shown ↔ ∃ i, t.Shows b i ∧ .ofImage i = shown

theorem Sound.shown?_eq_some_iff (h : t.Sound) {b : Block} {i : Image} :
    shown? (t.imagesOf b.post) b = some i ↔ t.Shows b i := by
  have hascending : (t.imagesOf b.post).Pairwise fun i j => i.id < j.id :=
    (List.pairwise_map.1 h.image_ids.sorted).filter _
  rw [shown?, Block.kind]
  by_cases hkind : b.kindName = "image"
  · rw [if_pos (BlockKind.ofName_eq_image_iff.2 hkind), find?_eq_some_iff_least hascending]
    simp only [mem_imagesOf, decide_eq_true_eq]
    constructor
    · rintro ⟨⟨hmem, hpost⟩, hblock, hleast⟩
      exact ⟨hkind, hmem, hpost, hblock, fun j hj hjpost => hleast j ⟨hj, hjpost⟩⟩
    · rintro ⟨-, hmem, hpost, hblock, hleast⟩
      exact ⟨⟨hmem, hpost⟩, hblock, fun j hj => hleast j hj.1 hj.2⟩
  · rw [if_neg (mt BlockKind.ofName_eq_image_iff.1 hkind)]
    constructor
    · intro hnone
      cases hnone
    · intro hshows
      exact absurd hshows.kindName hkind

theorem shown?_isSome_iff {b : Block} : (shown? (t.imagesOf b.post) b).isSome ↔
    b.kindName = "image" ∧ ∃ i ∈ t.images, i.post = b.post ∧ i.block = some b.id := by
  rw [shown?, Block.kind]
  by_cases hkind : b.kindName = "image"
  · rw [if_pos (BlockKind.ofName_eq_image_iff.2 hkind), List.find?_isSome]
    simp only [mem_imagesOf, decide_eq_true_eq, hkind, true_and, and_assoc]
  · rw [if_neg (mt BlockKind.ofName_eq_image_iff.1 hkind)]
    simp only [Option.isSome_none, Bool.false_eq_true, hkind, false_and]

theorem Sound.presents (h : t.Sound) (b : Block) :
    t.Presents b (.of b (shown? (t.imagesOf b.post) b)) where
  kindName := rfl
  content := rfl
  sequence := rfl
  enriched := by rw [BlockView.of, Option.isSome_map, shown?_isSome_iff]
  payload shown := by
    rw [BlockView.of, Option.map_eq_some_iff]
    simp only [h.shown?_eq_some_iff]

end Tables

/-- The detail of a post has each block of the post once, in the order of their places, and no images
but those that belong to the post and are linked to one of its blocks. -/
theorem Pool.detail_assembled {p : Pool} {t : Tables} (h : t.Sound) (ht : p.reader.reach = .ok t)
    {post : Post} (hpost : post ∈ t.posts) : ∃ blocks views,
      p.detail post.id = .ok ⟨.ofPost post, views⟩ ∧
      blocks.Perm (t.blocks.filter (·.post = post.id)) ∧
      blocks.Pairwise (fun a b => a.sequence < b.sequence) ∧
      List.Forall₂ t.Presents blocks views ∧
      ∀ i, (i.post ≠ post.id ∨ i.block = none ∨
          ∃ c ∈ t.blocks, i.block = some c.id ∧ c.post ≠ post.id) →
        ∀ b ∈ blocks, ¬t.Shows b i := by
  have hdetail := detail_of_reader ht post.id
  rw [Tables.detail?, h.post?_of_mem hpost] at hdetail
  refine ⟨t.blocksOf post.id, _, hdetail, List.mergeSort_perm _ _, h.blocksOf_increasing post.id, ?_, ?_⟩
  · rw [List.forall₂_map_right_iff, List.forall₂_same]
    intro b hb
    rw [← (Tables.mem_blocksOf.1 hb).2]
    exact h.presents b
  · intro i hi b hb hshows
    obtain ⟨hmem, hbpost⟩ := Tables.mem_blocksOf.1 hb
    rcases hi with hother | hnone | ⟨c, hc, hlink, hcpost⟩
    · exact hother (hshows.post.trans hbpost)
    · rw [hshows.block] at hnone
      cases hnone
    · have hid : c.id = b.id := Option.some.inj (hlink.symm.trans hshows.block)
      obtain rfl := h.block_ids.inj hc hmem hid
      exact hcpost hbpost

/-- Of six images one is shown: the others belong to another post, are linked to one of its blocks, to a
block that is no image, to none, or come later. -/
theorem Pool.detail_assembled_crossed :
    let now : Moment := ⟨2025, 1, 1, 0, 0, 0, 0⟩
    let image (id post : Int) (block : Option Int) (name : String) : Image :=
      ⟨id, post, block, name, .empty, none, none, none⟩
    let t : Tables := ⟨[⟨1, "t", none, now, now⟩, ⟨2, "u", none, now, now⟩],
      [⟨1, 1, "image", none, 7⟩, ⟨2, 1, "verse", none, -3⟩, ⟨3, 2, "image", none, 0⟩],
      [image 1 2 (some 1) "a", image 2 1 (some 3) "b", image 3 1 none "c", image 4 1 (some 1) "d",
        image 5 1 (some 1) "e", image 6 1 (some 2) "f"], 2, 3, 6⟩
    let p : Pool := ⟨⟨some t, false⟩, none⟩
    t.Sound ∧ ∃ blocks views, p.detail 1 = .ok ⟨.ofPost ⟨1, "t", none, now, now⟩, views⟩ ∧
      List.Forall₂ t.Presents blocks views ∧
      views.map (fun v => (v.sequence, v.payload.map (·.name))) = [(-3, none), (7, some "d")] := by
  intro now image t p
  have hsound : t.Sound := by decide
  obtain ⟨blocks, views, hdetail, -, -, hpresents, -⟩ :=
    detail_assembled (p := p) (t := t) hsound rfl List.mem_cons_self
  -- The order of the places is the only one in which the blocks of the post can be.
  have hblocks : t.blocksOf 1 = [⟨2, 1, "verse", none, -3⟩, ⟨1, 1, "image", none, 7⟩] := by
    have hperm : (t.blocksOf 1).Perm [⟨1, 1, "image", none, 7⟩, ⟨2, 1, "verse", none, -3⟩] :=
      List.mergeSort_perm _ _
    apply List.Perm.eq_of_pairwise _ (hsound.blocksOf_increasing 1) (by decide) (hperm.trans (.swap _ _ []))
    intro a b _ _ hab hba
    omega
  have hshown : (p.detail 1).map (fun d => d.blocks.map fun v => (v.sequence, v.payload.map (·.name))) =
      .ok [(-3, none), (7, some "d")] := by
    rw [detail_of_reader rfl, Tables.detail?, hblocks]
    rfl
  rw [hdetail] at hshown
  exact ⟨hsound, blocks, views, hdetail, hpresents, Except.ok.inj hshown⟩

end Inkpress.Store
