import Inkpress.Proofs.Store.Interleaving

namespace Inkpress.Store

namespace Tables

variable {t u : Tables} {id : Int}

/-- Tables without some of their rows, and without the links to the blocks among these. -/
def without (t : Tables) (post : Post → Bool) (block : Block → Bool) (image : Image → Bool) :
    Tables :=
  { t with
    posts := t.posts.filter (!post ·)
    blocks := t.blocks.filter (!block ·)
    images := (t.images.filter (!image ·)).map fun i =>
      if t.blocks.any (fun b => block b && i.block = some b.id) then { i with block := none } else i }

theorem Sound.eq_of_title (h : t.Sound) {p q : Post} (hp : p ∈ t.posts) (hq : q ∈ t.posts)
    (he : p.title = q.title) : p = q :=
  List.inj_on_of_nodup_map (List.pairwise_map.2 h.titles) hp hq he

theorem Sound.postTitled?_of_mem (h : t.Sound) {q : Post} (hq : q ∈ t.posts) :
    t.postTitled? q.title = some q := by
  apply find?_of_unique hq (by simp)
  intro p hp htitle
  exact h.eq_of_title hp hq (of_decide_eq_true htitle)

theorem Sound.unlinked_iff (h : t.Sound) (block : Block → Bool) {i : Image} (hi : i ∈ t.images) :
    i.block.any (fun id => (t.blocks.filter (!block ·)).all (·.id ≠ id)) =
      t.blocks.any (fun b => block b && i.block = some b.id) := by
  rw [Bool.eq_iff_iff]
  constructor
  · intro hgone
    cases hid : i.block with
    | none =>
        rw [hid] at hgone
        cases hgone
    | some id =>
        obtain ⟨b, hb, rfl⟩ := h.image_block i hi id hid
        rw [hid, Option.any_some, List.all_eq_true] at hgone
        refine List.any_eq_true.2 ⟨b, hb, ?_⟩
        by_contra hstays
        have hmem : b ∈ t.blocks.filter (!block ·) := by simpa [hb] using hstays
        exact of_decide_eq_true (hgone b hmem) rfl
  · intro hlinked
    obtain ⟨b, hb, hlinked⟩ := List.any_eq_true.1 hlinked
    obtain ⟨hgoes, hid⟩ := Bool.and_eq_true_iff.1 hlinked
    rw [of_decide_eq_true hid, Option.any_some, List.all_eq_true]
    intro c hc
    obtain ⟨hc, hstays⟩ := List.mem_filter.1 hc
    refine decide_eq_true fun he => ?_
    obtain rfl := h.block_ids.inj hc hb he
    rw [hgoes] at hstays
    cases hstays

theorem Sound.unlinkImages_eq (h : t.Sound) (block : Block → Bool) (images : List Image)
    (hsub : ∀ i ∈ images, i ∈ t.images) :
    unlinkImages (t.blocks.filter (!block ·)) images = images.map fun i =>
      if t.blocks.any (fun b => block b && i.block = some b.id) then { i with block := none } else i := by
  refine List.map_congr_left ?_
  intro i hi
  rw [h.unlinked_iff block (hsub i hi)]

theorem Sound.deletePost_eq (h : t.Sound) {q : Post} (hq : q ∈ t.posts) :
    t.deletePost q.title =
      (true, t.without (·.title = q.title) (·.post = q.id) (·.post = q.id)) := by
  have hposts : t.posts.filter (fun p => !decide (p.id = q.id)) =
      t.posts.filter (fun p => !decide (p.title = q.title)) := by
    refine List.filter_congr ?_
    intro p hp
    by_cases he : p = q
    · simp [he]
    · have hid : p.id ≠ q.id := fun hid => he (h.post_ids.inj hp hq hid)
      have htitle : p.title ≠ q.title := fun htitle => he (h.eq_of_title hp hq htitle)
      simp [hid, htitle]
  have himages := h.unlinkImages_eq (·.post = q.id)
    (t.images.filter (fun i => !decide (i.post = q.id))) fun i hi => (List.mem_filter.1 hi).1
  simp only [Tables.deletePost, h.postTitled?_of_mem hq, without, hposts, ← himages, ne_eq, decide_not]

theorem deletePost_of_absent {title : String} (habsent : ∀ q ∈ t.posts, q.title ≠ title) :
    t.deletePost title = (false, t) := by
  have hnone : t.postTitled? title = none := by simpa [postTitled?] using habsent
  rw [deletePost, hnone]

theorem Sound.deleteBlock_eq (h : t.Sound) {b : Block} (hb : b ∈ t.blocks) :
    t.deleteBlock b.id = (true, t.without (fun _ => false) (·.id = b.id) (fun _ => false)) := by
  have himages := h.unlinkImages_eq (·.id = b.id) t.images fun _ hi => hi
  have hall {α : Type} (l : List α) : l.filter (fun _ => !false) = l :=
    List.filter_eq_self.2 fun _ _ => rfl
  rw [Tables.deleteBlock, if_pos (hasBlock_iff.2 ⟨b, hb, rfl⟩), without, hall, hall, ← himages]
  simp only [ne_eq, decide_not]

theorem deleteBlock_of_absent (habsent : ∀ b ∈ t.blocks, b.id ≠ id) :
    t.deleteBlock id = (false, t) := by
  refine if_neg fun hb => ?_
  obtain ⟨b, hb, hid⟩ := hasBlock_iff.1 hb
  exact habsent b hb hid

end Tables

namespace Pool

variable {p : Pool} {t u : Tables} {id : Int}

/-- A reader who sees the same of a post sees the same detail. A replica is not written to. -/
theorem detail_of_sameFor (ht : p.primary.reach = .ok t) (h : Tables.SameFor id t u) :
    Pool.detail { p with primary.tables := some u } id = p.detail id := by
  obtain ⟨primary, replica⟩ := p
  cases replica with
  | none =>
      have hu := Database.reach_write ht u
      rw [detail_eq rfl ht, detail_eq rfl hu, Tables.detail?, Tables.detail?, h.post]
      cases t.post? id with
      | none => rfl
      | some post => exact congrArg Except.ok (h.assemble_eq h (.refl id t) post)
  | some r => rfl

theorem deletePost_eq (ht : p.primary.reach = .ok t) (title : String) :
    p.deletePost title =
      (.ok (t.deletePost title).1, { p with primary.tables := some (t.deletePost title).2 }) := by
  simp only [deletePost, change, write, Database.change_of_reach ht]

theorem deleteBlock_eq (ht : p.primary.reach = .ok t) (block : Int) :
    p.deleteBlock block =
      (.ok (t.deleteBlock block).1, { p with primary.tables := some (t.deleteBlock block).2 }) := by
  simp only [deleteBlock, change, write, Database.change_of_reach ht]

/-- A post goes with its blocks and images, and a block by itself; of the images that stay, those that
were linked to a block that went are linked to none. Where nothing is found nothing changes, and a post
that neither went nor lost a block is shown as before. -/
theorem delete_cascade (h : t.Sound) (ht : p.primary.reach = .ok t) :
    let holding (u : Tables) : Pool := { p with primary.tables := some u }
    (∀ title,
      (∀ q ∈ t.posts, q.title = title → p.deletePost title =
        (.ok true, holding (t.without (·.title = title) (·.post = q.id) (·.post = q.id)))) ∧
      ((∀ q ∈ t.posts, q.title ≠ title) → p.deletePost title = (.ok false, p)) ∧
      ∀ id, (∀ q ∈ t.posts, q.id = id → q.title ≠ title) →
        (p.deletePost title).2.detail id = p.detail id) ∧
    (∀ block,
      (∀ b ∈ t.blocks, b.id = block → p.deleteBlock block =
        (.ok true, holding (t.without (fun _ => false) (·.id = block) (fun _ => false)))) ∧
      ((∀ b ∈ t.blocks, b.id ≠ block) → p.deleteBlock block = (.ok false, p)) ∧
      ∀ id, (∀ b ∈ t.blocks, b.id = block → b.post ≠ id) →
        (p.deleteBlock block).2.detail id = p.detail id) := by
  intro holding
  have hsame : { p with primary.tables := some t } = p := (Operation.pool_eq_of_reach ht).symm
  constructor
  · intro title
    rw [deletePost_eq ht]
    refine ⟨?_, ?_, ?_⟩
    · rintro q hq rfl
      rw [h.deletePost_eq hq]
    · intro habsent
      rw [Tables.deletePost_of_absent habsent, hsame]
    · intro id hid
      exact detail_of_sameFor ht (Tables.sameFor_deletePost hid)
  · intro block
    rw [deleteBlock_eq ht]
    refine ⟨?_, ?_, ?_⟩
    · rintro b hb rfl
      rw [h.deleteBlock_eq hb]
    · intro habsent
      rw [Tables.deleteBlock_of_absent habsent, hsame]
    · intro id hid
      exact detail_of_sameFor ht (Tables.sameFor_deleteBlock hid)

/-- A post goes whose block shows an image of another post. -/
theorem delete_cascade_crossed :
    let now : Moment := ⟨2025, 1, 1, 0, 0, 0, 0⟩
    let image (id post block : Int) : Image := ⟨id, post, some block, "a.png", .empty, none, none, none⟩
    let t : Tables := ⟨[⟨1, "t", none, now, now⟩, ⟨2, "u", none, now, now⟩],
      [⟨1, 1, "image", none, 0⟩, ⟨2, 2, "image", none, 5⟩], [image 1 1 2, image 2 2 1, image 3 2 2], 2, 2, 3⟩
    let p : Pool := ⟨⟨some t, false⟩, none⟩
    t.Sound ∧ (∃ u, p.deletePost "t" = (.ok true, { p with primary.tables := some u }) ∧
      u.posts.map (·.id) = [2] ∧ u.blocks.map (·.id) = [2] ∧
      u.images.map (fun i => (i.id, i.block)) = [(2, none), (3, some 2)]) ∧
    (p.deletePost "t").2.detail 2 = p.detail 2 ∧ (p.deleteBlock 1).2.detail 2 = p.detail 2 ∧
    p.deleteBlock 7 = (.ok false, p) := by
  intro now image t p
  have hsound : t.Sound := by decide
  obtain ⟨hpost, hblock⟩ := delete_cascade (p := p) hsound rfl
  refine ⟨hsound, ?_, ?_, ?_, ?_⟩
  · exact ⟨_, (hpost "t").1 ⟨1, "t", none, now, now⟩ List.mem_cons_self rfl, rfl, rfl, rfl⟩
  · exact (hpost "t").2.2 2 (by decide)
  · exact (hblock 1).2.2 2 (by decide)
  · exact (hblock 7).2.1 (by decide)

end Pool

end Inkpress.Store
