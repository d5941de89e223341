import Inkpress.Proofs.Store.Lineage

namespace Inkpress.Store

open Document (Part ImageMap)

/-- The detail of a post from reads at three times. -/
def Pool.detailAcross (p q r : Pool) (id : Int) : Except Error Detail := do
  match ← p.find id with
  | none => .error (.postNotFound id)
  | some post =>
    let blocks ← q.blocksOf id
    let images ← r.imagesOf id
    .ok (Tables.assemble post blocks images)

theorem Pool.detailAcross_self (p : Pool) (id : Int) : p.detailAcross p p id = p.detail id := rfl

theorem Pool.detailAcross_eq {p q r : Pool} {t u w : Tables} (hp : p.replica = none)
    (hq : q.replica = none) (hr : r.replica = none) (ht : p.primary.reach = .ok t)
    (hu : q.primary.reach = .ok u) (hw : r.primary.reach = .ok w) (id : Int) :
    p.detailAcross q r id = match t.post? id with
      | some post => .ok (Tables.assemble post (u.blocksOf id) (w.imagesOf id))
      | none => .error (.postNotFound id) := by
  simp only [detailAcross, find, blocksOf, imagesOf, read, reader, hp, hq, hr, Option.getD_none,
    Database.read, ht, hu, hw, Except.map, bind, Except.bind]
  cases t.post? id <;> rfl

namespace Tables

variable {t u w : Tables} {id : Int}

/-- Posts that were there are what they were, and got no rows. -/
structure Sheds (t u : Tables) : Prop where
  last : t.lastPost ≤ u.lastPost
  posts : ∀ p ∈ u.posts, p.id ≤ t.lastPost → p ∈ t.posts
  blocks : ∀ b ∈ u.blocks, b.post ≤ t.lastPost → b ∈ t.blocks
  images : ∀ i ∈ u.images, i.post ≤ t.lastPost → ∃ j ∈ t.images, i.Was j

theorem Shrinks.sheds (h : t.Shrinks u) : t.Sheds u where
  last := Int.le_of_eq h.last.1.symm
  posts p hp _ := h.posts p hp
  blocks b hb _ := h.blocks b hb
  images i hi _ := h.images i hi

theorem Sheds.trans (h : t.Sheds u) (h' : u.Sheds w) : t.Sheds w where
  last := Int.le_trans h.last h'.last
  posts := by
    intro p hp hle
    exact h.posts p (h'.posts p hp (Int.le_trans hle h.last)) hle
  blocks := by
    intro b hb hle
    exact h.blocks b (h'.blocks b hb (Int.le_trans hle h.last)) hle
  images := by
    intro k hk hle
    obtain ⟨j, hj, hkj⟩ := h'.images k hk (Int.le_trans hle h.last)
    obtain ⟨i, hi, hji⟩ := h.images j hj (hkj.post_eq ▸ hle)
    exact ⟨i, hi, hkj.trans hji⟩

theorem Precedes.sheds {v : Volume} (h : t.Precedes v) : t.Sheds (t.addVolume v) where
  last := Int.le_of_lt h.post
  posts q hq hle := mem_of_mem_snoc hq hle h.post
  blocks := by
    intro b hb hle
    rcases mem_blocks_addVolume.1 hb with hb | ⟨p, hp, rfl⟩
    · exact hb
    · have hpost : p.row.post = v.id := (h.blocks p hp).1
      have := h.post
      omega
  images := by
    intro i hi hle
    rcases mem_images_addVolume.1 hi with hi | ⟨p, hp, q, hq, rfl⟩
    · exact ⟨i, hi, .refl i⟩
    · have hpost : (q.row p.post (some p.block)).post = v.id := (h.blocks p hp).1
      have := h.post
      omega

structure SameFor (id : Int) (t u : Tables) : Prop where
  post : u.post? id = t.post? id
  blocks : u.blocksOf id = t.blocksOf id
  shown : ∀ b ∈ t.blocksOf id, shown? (u.imagesOf id) b = shown? (t.imagesOf id) b

theorem SameFor.refl (id : Int) (t : Tables) : SameFor id t t := ⟨rfl, rfl, fun _ _ => rfl⟩

theorem SameFor.trans (h : SameFor id t u) (h' : SameFor id u w) : SameFor id t w where
  post := h'.post.trans h.post
  blocks := h'.blocks.trans h.blocks
  shown b hb := (h'.shown b (h.blocks ▸ hb)).trans (h.shown b hb)

theorem mem_blocksOf {b : Block} : b ∈ t.blocksOf id ↔ b ∈ t.blocks ∧ b.post = id := by
  simp only [blocksOf, List.mem_mergeSort, List.mem_filter, decide_eq_true_eq]

theorem mem_imagesOf {i : Image} : i ∈ t.imagesOf id ↔ i ∈ t.images ∧ i.post = id := by
  simp only [imagesOf, List.mem_filter, decide_eq_true_eq]

theorem sameFor_addVolume {v : Volume} (hv : t.Precedes v) (hid : v.id ≠ id) :
    SameFor id t (t.addVolume v) := by
  have hblocks : (t.addVolume v).blocks.filter (·.post = id) = t.blocks.filter (·.post = id) := by
    have hnew : (v.places.map Place.row).filter (·.post = id) = [] := by
      simp only [List.filter_eq_nil_iff, List.mem_map, decide_eq_true_eq]
      rintro b ⟨p, hp, rfl⟩ he
      exact hid ((hv.blocks p hp).1.symm.trans he)
    simp only [addVolume, placeAll, List.filter_append, hnew, List.append_nil]
  have himages : (t.addVolume v).imagesOf id = t.imagesOf id := by
    have hnew : (v.places.filterMap Place.image?).filter (·.post = id) = [] := by
      simp only [List.filter_eq_nil_iff, List.mem_filterMap, decide_eq_true_eq]
      rintro i ⟨p, hp, hi⟩ he
      rw [← Place.imageRow?_nothing] at hi
      exact hid ((hv.blocks p hp).1.symm.trans ((Place.post_of_imageRow? hi).symm.trans he))
    simp only [imagesOf, addVolume, placeAll, List.filter_append, hnew, List.append_nil]
  refine ⟨?_, ?_, ?_⟩
  · have hpost : ¬v.post.id = id := hid
    simp [post?, addVolume, placeAll, hpost]
  · rw [blocksOf, hblocks, blocksOf]
  · intro b _
    rw [himages]

theorem find?_unlinkImages {blocks : List Block} {b : Block} (hb : b ∈ blocks)
    (images : List Image) : (unlinkImages blocks images).find? (·.block = some b.id) =
      images.find? (·.block = some b.id) := by
  induction images with
  | nil => rfl
  | cons i images ih =>
      rw [unlinkImages, List.map_cons, ← unlinkImages, List.find?_cons, List.find?_cons, ih]
      by_cases hi : i.block = some b.id
      · have hlinked : i.block.any (fun id => blocks.all (·.id ≠ id)) = false := by
          simp only [hi, Option.any_some, List.all_eq_false]
          exact ⟨b, hb, by simp⟩
        simp only [hlinked, Bool.false_eq_true, if_false]
      · have hcleared : ¬(if i.block.any (fun id => blocks.all (·.id ≠ id)) then
            { i with block := none } else i).block = some b.id := by
          split
          · intro h
            cases h
          · exact hi
        simp only [hi, hcleared, decide_false]

theorem filter_unlinkImages (blocks : List Block) (images : List Image) (id : Int) :
    (unlinkImages blocks images).filter (·.post = id) =
      unlinkImages blocks (images.filter (·.post = id)) := by
  rw [unlinkImages, unlinkImages, List.filter_map]
  congr 1
  refine List.filter_congr ?_
  intro i _
  simp only [Function.comp_apply]
  split <;> rfl

theorem shown?_unlinkImages {blocks : List Block} {b : Block} (hb : b ∈ blocks)
    (images : List Image) : shown? (unlinkImages blocks images) b = shown? images b := by
  simp only [shown?, find?_unlinkImages hb]

theorem filter_filter_of_imp {α : Type} {l : List α} {f g : α → Bool}
    (h : ∀ a ∈ l, g a → f a) : (l.filter f).filter g = l.filter g := by
  rw [List.filter_filter]
  refine List.filter_congr ?_
  intro a ha
  cases hg : g a with
  | false => rw [Bool.false_and]
  | true => rw [h a ha hg, Bool.and_self]

theorem sameFor_deletePost {title : String}
    (hid : ∀ p ∈ t.posts, p.id = id → p.title ≠ title) :
    SameFor id t (t.deletePost title).2 := by
  simp only [deletePost]
  split
  · exact .refl id t
  · next p hp =>
      have hmem : p ∈ t.posts := List.mem_of_find?_eq_some hp
      have htitle : p.title = title := by simpa using List.find?_some hp
      have hne : p.id ≠ id := fun he => hid p hmem he htitle
      have hblocks : (t.blocks.filter (·.post ≠ p.id)).filter (·.post = id) =
          t.blocks.filter (·.post = id) := by
        apply filter_filter_of_imp
        intro b _ hb
        simpa [of_decide_eq_true hb] using hne.symm
      have himages : (t.images.filter (·.post ≠ p.id)).filter (·.post = id) =
          t.images.filter (·.post = id) := by
        apply filter_filter_of_imp
        intro i _ hi
        simpa [of_decide_eq_true hi] using hne.symm
      refine ⟨?_, ?_, ?_⟩
      · simp only [post?, List.find?_filter]
        congr 1
        funext q
        grind
      · simp only [blocksOf, hblocks]
      · intro b hb
        obtain ⟨hb, hpost⟩ := mem_blocksOf.1 hb
        have hkept : b ∈ t.blocks.filter (·.post ≠ p.id) := by
          refine List.mem_filter.2 ⟨hb, ?_⟩
          simpa [hpost] using hne.symm
        simp only [imagesOf, filter_unlinkImages, himages, shown?_unlinkImages hkept]

theorem sameFor_deleteBlock {block : Int} (hid : ∀ b ∈ t.blocks, b.id = block → b.post ≠ id) :
    SameFor id t (t.deleteBlock block).2 := by
  simp only [deleteBlock]
  split
  · have hblocks : (t.blocks.filter (·.id ≠ block)).filter (·.post = id) =
        t.blocks.filter (·.post = id) := by
      apply filter_filter_of_imp
      intro b hb hpost
      simpa using fun he => hid b hb he (of_decide_eq_true hpost)
    refine ⟨rfl, ?_, ?_⟩
    · simp only [blocksOf, hblocks]
    · intro b hb
      obtain ⟨hb, hpost⟩ := mem_blocksOf.1 hb
      have hkept : b ∈ t.blocks.filter (·.id ≠ block) := by
        refine List.mem_filter.2 ⟨hb, ?_⟩
        simpa using fun he => hid b hb he hpost
      simp only [imagesOf, filter_unlinkImages, shown?_unlinkImages hkept]
  · exact .refl id t

theorem sameFor_deleteImage {image : Int} (hid : ∀ i ∈ t.images, i.id = image → i.post ≠ id) :
    SameFor id t (t.deleteImage image).2 := by
  simp only [deleteImage]
  split
  · have himages : (t.images.filter (·.id ≠ image)).filter (·.post = id) =
        t.images.filter (·.post = id) := by
      apply filter_filter_of_imp
      intro i hi hpost
      simpa using fun he => hid i hi he (of_decide_eq_true hpost)
    refine ⟨rfl, rfl, ?_⟩
    intro b _
    simp only [imagesOf, himages]
  · exact .refl id t

theorem Sound.blocksOf_increasing (h : t.Sound) (id : Int) :
    (t.blocksOf id).Pairwise fun a b => a.sequence < b.sequence := by
  have hsorted : (t.blocksOf id).Pairwise fun a b => decide (a.sequence ≤ b.sequence) = true := by
    apply List.pairwise_mergeSort
    · intro a b c hab hbc
      simp only [decide_eq_true_eq] at hab hbc ⊢
      omega
    · intro a b
      simp only [Bool.or_eq_true, decide_eq_true_eq]
      omega
  have hplaces : (t.blocksOf id).Pairwise
      fun a b => ¬(a.post = b.post ∧ a.sequence = b.sequence) := by
    have hperm := List.mergeSort_perm (t.blocks.filter (·.post = id))
      fun a b => decide (a.sequence ≤ b.sequence)
    refine (hperm.pairwise_iff ?_).2 (h.places.filter _)
    intro a b hab he
    exact hab ⟨he.1.symm, he.2.symm⟩
  refine (hsorted.and hplaces).imp_of_mem ?_
  intro a b ha hb ⟨hle, hne⟩
  have hpost := (mem_blocksOf.1 ha).2.trans (mem_blocksOf.1 hb).2.symm
  have hle := of_decide_eq_true hle
  have : a.sequence ≠ b.sequence := fun he => hne ⟨hpost, he⟩
  omega

theorem assemble_congr {post : Post} {blocks : List Block} {images images' : List Image}
    (h : ∀ b ∈ blocks, shown? images b = shown? images' b) :
    assemble post blocks images = assemble post blocks images' := by
  rw [assemble, assemble, Detail.mk.injEq]
  refine ⟨rfl, List.map_congr_left ?_⟩
  intro b hb
  rw [h b hb]

theorem mem_of_shown? {images : List Image} {b : Block} {i : Image}
    (h : shown? images b = some i) : i ∈ images ∧ i.block = some b.id := by
  rw [shown?] at h
  split at h
  · exact ⟨List.mem_of_find?_eq_some h, by simpa using List.find?_some h⟩
  · cases h

theorem Sheds.block (ht : t.Sound) (hu : u.Sound) (h : t.Sheds u) {post : Post}
    (hpost : t.post? id = some post) {b : Block} (hb : b ∈ u.blocksOf id) :
    b ∈ t.blocks ∧ b ∈ u.blocks ∧ b.post = id ∧ u.post? id = some post := by
  obtain ⟨hb, hbid⟩ := mem_blocksOf.1 hb
  obtain ⟨hmem, hid⟩ := mem_of_post? hpost
  have hle : id ≤ t.lastPost := hid ▸ ht.post_ids.le_last _ (List.mem_map_of_mem hmem)
  refine ⟨h.blocks b hb (hbid ▸ hle), hb, hbid, ?_⟩
  obtain ⟨q, hq, hqb⟩ := hu.block_post b hb
  have hqid : q.id = id := hqb.trans hbid
  obtain rfl : q = post :=
    ht.post_ids.inj (h.posts q hq (hqid ▸ hle)) hmem (hqid.trans hid.symm)
  rw [← hqid, hu.post?_of_mem hq]

theorem Sheds.image (ht : t.Sound) (hw : w.Sound) (h : t.Sheds w) (h' : t.Becomes w)
    {b : Block} (hb : b ∈ t.blocks) {i : Image} (hi : i ∈ w.imagesOf b.post)
    (hlink : i.block = some b.id) :
    i ∈ t.images ∧ i ∈ w.images ∧ i.post = b.post ∧ b ∈ w.blocks := by
  obtain ⟨hiw, hpost⟩ := mem_imagesOf.1 hi
  obtain ⟨q, hq, hqid⟩ := ht.block_post b hb
  have hle : b.post ≤ t.lastPost := hqid ▸ ht.post_ids.le_last _ (List.mem_map_of_mem hq)
  obtain ⟨j, hj, hij⟩ := h.images i hiw (hpost ▸ hle)
  obtain rfl := hij.eq_of_block hlink
  obtain ⟨c, hc, hcid⟩ := hw.image_block i hiw b.id hlink
  have hle : c.id ≤ t.lastBlock := hcid ▸ ht.block_ids.le_last _ (List.mem_map_of_mem hb)
  obtain rfl : c = b := ht.block_ids.inj (h'.blocks c hc hle) hb hcid
  exact ⟨hj, hiw, hpost, hc⟩

/-- Whatever a reader puts together is of one post, which had it from the start. -/
theorem Sheds.view (ht : t.Sound) (hu : u.Sound) (hw : w.Sound) (htu : t.Sheds u) (htw : t.Sheds w)
    (hbecomes : t.Becomes w) {post : Post} (hpost : t.post? id = some post) {v : BlockView}
    (hv : v ∈ (assemble post (u.blocksOf id) (w.imagesOf id)).blocks) :
    ∃ b, (b ∈ t.blocks ∧ b ∈ u.blocks ∧ b.post = id ∧ u.post? id = some post) ∧
      (v.kindName = b.kindName ∧ v.content = b.content ∧ v.sequence = b.sequence) ∧
      ∀ shown ∈ v.payload, ∃ i, (i ∈ t.images ∧ i ∈ w.images ∧ i.post = id ∧ b ∈ w.blocks) ∧
        i.block = some b.id ∧ shown = .ofImage i := by
  obtain ⟨b, hb, rfl⟩ := List.mem_map.1 hv
  have hblock := htu.block ht hu hpost hb
  refine ⟨b, hblock, ⟨rfl, rfl, rfl⟩, ?_⟩
  intro payload hpayload
  obtain ⟨i, hi, rfl⟩ := Option.map_eq_some_iff.1 hpayload
  obtain ⟨hmem, hlink⟩ := mem_of_shown? hi
  obtain ⟨hbt, -, rfl, -⟩ := hblock
  exact ⟨i, htw.image ht hw hbecomes hbt hmem hlink, hlink, rfl⟩

theorem SameFor.assemble_eq {x : Tables} (hu : SameFor id t u) (hw : SameFor id t w)
    (hx : SameFor id t x) (post : Post) :
    assemble post (u.blocksOf id) (w.imagesOf id) =
      assemble post (x.blocksOf id) (x.imagesOf id) := by
  rw [hu.blocks, hx.blocks]
  apply assemble_congr
  intro b hb
  rw [hw.shown b hb, hx.shown b hb]

end Tables

namespace Operation

/-- Whether an operation touches a post: stores it, or deletes it or a row of it. -/
def Touches (t : Tables) (id : Int) : Operation → Prop
  | store _ _ _ _ _ => t.lastPost + 1 = id
  | deletePost title => ∃ p ∈ t.posts, p.id = id ∧ p.title = title
  | deleteBlock block => ∃ b ∈ t.blocks, b.id = block ∧ b.post = id
  | deleteImage image => ∃ i ∈ t.images, i.id = image ∧ i.post = id
  | createAll => False

/-- No operation touches a post when it is its turn. -/
def Untouched (p : Pool) (id : Int) (ops : List Operation) : Prop :=
  ∀ before op after t, ops = before ++ op :: after →
    (runAll p before).primary.reach = .ok t → ¬op.Touches t id

variable {p : Pool} {t u : Tables} {id : Int}

theorem untouched_nil : Untouched p id [] := by
  intro before op after t he
  cases before <;> cases he

theorem untouched_cons {op : Operation} {ops : List Operation} :
    Untouched p id (op :: ops) ↔
      (∀ t, p.primary.reach = .ok t → ¬op.Touches t id) ∧ Untouched (op.run p).2 id ops := by
  constructor
  · intro h
    refine ⟨fun t ht => h [] op ops t rfl ht, ?_⟩
    intro before op' after t he ht
    exact h (op :: before) op' after t (by rw [he]; rfl) ht
  · rintro ⟨hop, hops⟩ before op' after t he ht
    cases before with
    | nil =>
        obtain ⟨rfl, -⟩ := List.cons.inj he
        exact hop t ht
    | cons first before =>
        obtain ⟨rfl, hrest⟩ := List.cons.inj he
        exact hops before op' after t hrest ht

theorem Does.sheds {op : Operation} (h : op.Does t u) : t.Sheds u := by
  cases h with
  | nothing => exact (Tables.Shrinks.refl t).sheds
  | store readFile now post parts images =>
      exact (t.precedes_ofParts readFile now post parts images).sheds
  | deletePost title => exact (t.shrinks_deletePost title).sheds
  | deleteBlock block => exact (t.shrinks_deleteBlock block).sheds
  | deleteImage image => exact (t.shrinks_deleteImage image).sheds

theorem Does.sameFor {op : Operation} (h : op.Does t u) (hid : ¬op.Touches t id) :
    Tables.SameFor id t u := by
  cases h with
  | nothing => exact .refl id t
  | store readFile now post parts images =>
      exact Tables.sameFor_addVolume (t.precedes_ofParts readFile now post parts images) hid
  | deletePost title =>
      apply Tables.sameFor_deletePost
      intro p hp hpid htitle
      exact hid ⟨p, hp, hpid, htitle⟩
  | deleteBlock block =>
      apply Tables.sameFor_deleteBlock
      intro b hb hbid hpost
      exact hid ⟨b, hb, hbid, hpost⟩
  | deleteImage image =>
      apply Tables.sameFor_deleteImage
      intro i hi hiid hpost
      exact hid ⟨i, hi, hiid, hpost⟩

theorem runAll_append (p : Pool) (ops ops' : List Operation) :
    runAll p (ops ++ ops') = runAll (runAll p ops) ops' := List.foldl_append

theorem runAll_tables (h : t.Sound) (ht : p.primary.reach = .ok t) (ops : List Operation) :
    ∃ u, (runAll p ops).primary.reach = .ok u ∧ (runAll p ops).replica = p.replica ∧ u.Sound ∧
      t.Becomes u ∧ t.Sheds u := by
  induction ops generalizing p t with
  | nil => exact ⟨t, ht, rfl, h, .refl t, (Tables.Shrinks.refl t).sheds⟩
  | cons op ops ih =>
      obtain ⟨u, hdoes, hu, hreach, hreplica⟩ := op.run_tables h ht
      obtain ⟨w, hw, hreplica', hsound, hbecomes, hsheds⟩ := ih hu hreach
      exact ⟨w, hw, hreplica'.trans hreplica, hsound, hdoes.becomes.trans hbecomes,
        hdoes.sheds.trans hsheds⟩

theorem runAll_sameFor (h : t.Sound) (ht : p.primary.reach = .ok t) {ops : List Operation}
    (hops : Untouched p id ops) (hu : (runAll p ops).primary.reach = .ok u) :
    Tables.SameFor id t u := by
  induction ops generalizing p t with
  | nil =>
      obtain rfl : t = u := Except.ok.inj (ht.symm.trans hu)
      exact .refl id t
  | cons op ops ih =>
      obtain ⟨v, hdoes, hv, hreach, -⟩ := op.run_tables h ht
      obtain ⟨hop, hops⟩ := untouched_cons.1 hops
      exact (hdoes.sameFor (hop t ht)).trans (ih hv hreach hops hu)

theorem Untouched.of_append {ops ops' : List Operation} (h : Untouched p id (ops ++ ops')) :
    Untouched p id ops := by
  intro before op after t he ht
  exact h before op (after ++ ops') t (by rw [he, List.append_assoc]; rfl) ht

/-- A detail that is read while operations go on is of one post: each block was the post's from the
start and when it was read, in the order of their places, and each image was linked to its block from
the start and when it was read. If no operation touches the post, all is as at any one time. -/
theorem detailAcross_run (h : Reachable p) (hreplica : p.replica = none)
    (ht : p.primary.reach = .ok t) (id : Int) (ops ops' : List Operation) :
    let q := runAll p ops
    let r := runAll p (ops ++ ops')
    (∀ d, p.detailAcross q r id = .ok d → ∃ post u w,
      q.primary.reach = .ok u ∧ r.primary.reach = .ok w ∧ t.post? id = some post ∧
      d.post = .ofPost post ∧ d.blocks.Pairwise (fun v v' => v.sequence < v'.sequence) ∧
      ∀ v ∈ d.blocks, ∃ b, (b ∈ t.blocks ∧ b ∈ u.blocks ∧ b.post = id ∧ u.post? id = some post) ∧
        (v.kindName = b.kindName ∧ v.content = b.content ∧ v.sequence = b.sequence) ∧
        ∀ shown ∈ v.payload, ∃ i, (i ∈ t.images ∧ i ∈ w.images ∧ i.post = id ∧ b ∈ w.blocks) ∧
          i.block = some b.id ∧ shown = .ofImage i) ∧
    (Untouched p id (ops ++ ops') → ∀ before after, ops ++ ops' = before ++ after →
      p.detailAcross q r id = (runAll p before).detail id) := by
  intro q r
  have hsound : t.Sound := h.sound t (Database.tables_of_reach ht).1
  obtain ⟨u, hu, hqreplica, husound, -, htu⟩ := runAll_tables hsound ht ops
  obtain ⟨w, hw, hrreplica, hwsound, hbecomes, htw⟩ := runAll_tables hsound ht (ops ++ ops')
  have hacross := Pool.detailAcross_eq hreplica (hqreplica.trans hreplica)
    (hrreplica.trans hreplica) ht hu hw id
  refine ⟨?_, ?_⟩
  · intro d hd
    rw [hacross] at hd
    cases hpost : t.post? id with
    | none =>
        rw [hpost] at hd
        cases hd
    | some post =>
        rw [hpost] at hd
        obtain rfl := Except.ok.inj hd
        refine ⟨post, u, w, hu, hw, rfl, rfl, ?_, ?_⟩
        · exact List.pairwise_map.2 (husound.blocksOf_increasing id)
        · intro v hv
          exact htu.view hsound husound hwsound htw hbecomes hpost hv
  · intro huntouched before after he
    obtain ⟨x, hx, hxreplica, -, -, -⟩ := runAll_tables hsound ht before
    have hsame_u := runAll_sameFor hsound ht huntouched.of_append hu
    have hsame_w := runAll_sameFor hsound ht huntouched hw
    have hsame_x := runAll_sameFor hsound ht (he ▸ huntouched).of_append hx
    have hdetail := Pool.detailAcross_eq (hxreplica.trans hreplica) (hxreplica.trans hreplica)
      (hxreplica.trans hreplica) hx hx hx id
    rw [hacross, ← Pool.detailAcross_self, hdetail, hsame_x.post]
    cases t.post? id with
    | none => rfl
    | some post => exact congrArg Except.ok (hsame_u.assemble_eq hsame_w hsame_x post)

/-- Between the reads of one document another is stored and deleted, or the document itself goes. -/
theorem detailAcross_run_changed :
    let now : Moment := ⟨2025, 1, 1, 0, 0, 0, 0⟩
    let images : ImageMap := ⟨[("a", ⟨1, some ⟨"dir/a.png", "a.png", "image/png", 2, 3⟩⟩)]⟩
    let add (title : String) : Operation :=
      .store (fun _ => some .empty) now ⟨title, none⟩ [.paragraph "x", .image "a"] images
    let p := (run ⟨.fresh, none⟩ (add "t")).2
    let other := [add "u", deletePost "u"]
    let gone := [deleteBlock 1, deletePost "t"]
    Untouched p 1 other ∧
    p.detailAcross (runAll p [add "u"]) (runAll p other) 1 = (runAll p [add "u"]).detail 1 ∧
    ∃ d u, p.detailAcross (runAll p [deleteBlock 1]) (runAll p gone) 1 = .ok d ∧
      (runAll p [deleteBlock 1]).primary.reach = .ok u ∧ u.blocks.map (·.id) = [2] ∧
      ∀ v ∈ d.blocks, ∃ b ∈ u.blocks, b.post = 1 ∧ v.sequence = b.sequence := by
  intro now images add p other gone
  have hreachable : Reachable p := .operation .fresh (add "t")
  have hother : Untouched p 1 other := by
    refine untouched_cons.2 ⟨?_, untouched_cons.2 ⟨?_, untouched_nil⟩⟩
    · intro t ht he
      cases ht
      exact absurd (show (2 : Int) = 1 from he) (by decide)
    · rintro t ht ⟨q, hq, hid, htitle⟩
      cases ht
      obtain rfl | rfl := List.mem_pair.1 hq
      · exact absurd (show "t" = "u" from htitle) (by decide)
      · exact absurd (show (2 : Int) = 1 from hid) (by decide)
  refine ⟨hother, ?_, ?_⟩
  · exact (detailAcross_run hreachable rfl rfl 1 [add "u"] [deletePost "u"]).2 hother [add "u"]
      [deletePost "u"] rfl
  · obtain ⟨hblocks, -⟩ := detailAcross_run hreachable rfl rfl 1 [deleteBlock 1] [deletePost "t"]
    obtain ⟨post, u, w, hu, -, -, -, -, hall⟩ := hblocks _ rfl
    refine ⟨_, u, rfl, hu, ?_, ?_⟩
    · rw [← Except.ok.inj hu]
      rfl
    · intro v hv
      obtain ⟨b, ⟨-, hb, hpost, -⟩, ⟨-, -, hsequence⟩, -⟩ := hall v hv
      exact ⟨b, hb, hpost, hsequence⟩

end Operation

end Inkpress.Store
