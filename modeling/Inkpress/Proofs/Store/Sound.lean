import Inkpress.Store.NewPost
import Mathlib.Data.List.Pairwise
import Mathlib.Data.Option.Basic

namespace Inkpress.Store

theorem ok_of_bind {ε α β : Type} {x : Except ε α} {f : α → Except ε β} {b : β}
    (h : x >>= f = .ok b) : ∃ a, x = .ok a ∧ f a = .ok b := by
  cases x with
  | error e => cases h
  | ok a => exact ⟨a, rfl, h⟩

theorem ok_of_mapError {ε ε' α : Type} {x : Except ε α} {f : ε → ε'} {a : α}
    (h : x.mapError f = .ok a) : x = .ok a := by
  cases x with
  | error e => cases h
  | ok a => cases h; rfl

theorem ok_of_map {ε α β : Type} {x : Except ε α} {f : α → β} {b : β} (h : x.map f = .ok b) :
    ∃ a, x = .ok a ∧ f a = b := by
  cases x with
  | error e => cases h
  | ok a => cases h; exact ⟨a, rfl, rfl⟩

theorem filter_of_pairwise {α : Type} {f : α → Int} {l : List α}
    (h : l.Pairwise fun a b => f a < f b) {a : α} (ha : a ∈ l) :
    l.filter (fun b => f b = f a) = [a] := by
  obtain ⟨before, after, rfl⟩ := List.append_of_mem ha
  obtain ⟨-, hafter, hbefore⟩ := List.pairwise_append.1 h
  have hbefore : before.filter (fun b => f b = f a) = [] := by
    simp only [List.filter_eq_nil_iff, decide_eq_true_eq]
    exact fun b hb => Int.ne_of_lt (hbefore b hb a List.mem_cons_self)
  have hafter : after.filter (fun b => f b = f a) = [] := by
    simp only [List.filter_eq_nil_iff, decide_eq_true_eq]
    exact fun b hb => Int.ne_of_gt ((List.pairwise_cons.1 hafter).1 b hb)
  rw [List.filter_append, List.filter_cons_of_pos (by simp), hbefore, hafter]
  rfl

structure Ascending (ids : List Int) (last : Int) : Prop where
  sorted : ids.Pairwise (· < ·)
  le_last : ∀ id ∈ ids, id ≤ last

instance (ids : List Int) (last : Int) : Decidable (Ascending ids last) :=
  decidable_of_iff (ids.Pairwise (· < ·) ∧ ∀ id ∈ ids, id ≤ last)
    ⟨fun h => ⟨h.1, h.2⟩, fun h => ⟨h.sorted, h.le_last⟩⟩

namespace Ascending

variable {ids ids' : List Int} {last : Int}

theorem nil (last : Int) : Ascending [] last := ⟨.nil, by simp⟩

theorem snoc (h : Ascending ids last) : Ascending (ids ++ [last + 1]) (last + 1) := by
  refine ⟨?_, ?_⟩
  · rw [List.pairwise_append]
    refine ⟨h.sorted, List.pairwise_singleton _ _, ?_⟩
    intro a ha b hb
    obtain rfl := List.mem_singleton.1 hb
    have := h.le_last a ha
    omega
  · intro id hid
    rcases List.mem_append.1 hid with hid | hid
    · have := h.le_last id hid
      omega
    · exact Int.le_of_eq (List.mem_singleton.1 hid)

theorem sublist (h : Ascending ids last) (hs : ids'.Sublist ids) : Ascending ids' last :=
  ⟨h.sorted.sublist hs, fun id hid => h.le_last id (hs.subset hid)⟩

theorem filter {α : Type} {f : α → Int} {l : List α} (h : Ascending (l.map f) last)
    (p : α → Bool) : Ascending ((l.filter p).map f) last :=
  h.sublist (List.filter_sublist.map f)

end Ascending

namespace Tables

variable {t u : Tables}

theorem post?_isSome {id : Int} : (t.post? id).isSome = true ↔ ∃ p ∈ t.posts, p.id = id := by
  simp [post?]

theorem postTitled?_isSome {title : String} :
    (t.postTitled? title).isSome = true ↔ ∃ p ∈ t.posts, p.title = title := by
  simp [postTitled?]

theorem mem_of_post? {id : Int} {p : Post} (h : t.post? id = some p) : p ∈ t.posts ∧ p.id = id :=
  ⟨List.mem_of_find?_eq_some h, by simpa using List.find?_some h⟩

theorem hasBlock_iff {id : Int} : t.hasBlock id = true ↔ ∃ b ∈ t.blocks, b.id = id := by
  simp [hasBlock]

/-- The constraints of the three tables. -/
structure Sound (t : Tables) : Prop where
  post_ids : Ascending (t.posts.map (·.id)) t.lastPost
  titles : t.posts.Pairwise fun p q => p.title ≠ q.title
  block_ids : Ascending (t.blocks.map (·.id)) t.lastBlock
  places : t.blocks.Pairwise fun a b => ¬(a.post = b.post ∧ a.sequence = b.sequence)
  block_post : ∀ b ∈ t.blocks, ∃ p ∈ t.posts, p.id = b.post
  image_ids : Ascending (t.images.map (·.id)) t.lastImage
  image_post : ∀ i ∈ t.images, ∃ p ∈ t.posts, p.id = i.post
  image_block : ∀ i ∈ t.images, ∀ id, i.block = some id → ∃ b ∈ t.blocks, b.id = id

theorem sound_iff : t.Sound ↔
    Ascending (t.posts.map (·.id)) t.lastPost ∧ t.posts.Pairwise (fun p q => p.title ≠ q.title) ∧
    Ascending (t.blocks.map (·.id)) t.lastBlock ∧
    t.blocks.Pairwise (fun a b => ¬(a.post = b.post ∧ a.sequence = b.sequence)) ∧
    (∀ b ∈ t.blocks, ∃ p ∈ t.posts, p.id = b.post) ∧
    Ascending (t.images.map (·.id)) t.lastImage ∧ (∀ i ∈ t.images, ∃ p ∈ t.posts, p.id = i.post) ∧
    ∀ i ∈ t.images, i.block.all t.hasBlock := by
  simp only [Option.all_eq_true, hasBlock_iff]
  constructor
  · rintro ⟨hposts, htitles, hblocks, hplaces, hblockPost, himages, himagePost, himageBlock⟩
    exact ⟨hposts, htitles, hblocks, hplaces, hblockPost, himages, himagePost, himageBlock⟩
  · rintro ⟨hposts, htitles, hblocks, hplaces, hblockPost, himages, himagePost, himageBlock⟩
    exact ⟨hposts, htitles, hblocks, hplaces, hblockPost, himages, himagePost, himageBlock⟩

instance (t : Tables) : Decidable t.Sound :=
  decidable_of_iff _ sound_iff.symm

theorem sound_empty : Sound .empty where
  post_ids := .nil _
  titles := .nil
  block_ids := .nil _
  places := .nil
  block_post := by simp [empty]
  image_ids := .nil _
  image_post := by simp [empty]
  image_block := by simp [empty]

theorem Sound.insertPost (h : t.Sound) {title : String} {author : Option String}
    {published modified : Moment} {p : Post}
    (hi : t.insertPost title author published modified = .ok (p, u)) : u.Sound := by
  simp only [Tables.insertPost] at hi
  split at hi
  · cases hi
  · next hfree =>
      cases hi
      rw [postTitled?_isSome] at hfree
      exact {
        post_ids := by simpa using h.post_ids.snoc
        titles := by
          rw [List.pairwise_append]
          refine ⟨h.titles, List.pairwise_singleton _ _, ?_⟩
          intro p hp q hq he
          obtain rfl := List.mem_singleton.1 hq
          exact hfree ⟨p, hp, he⟩
        block_ids := h.block_ids
        places := h.places
        block_post := by
          intro b hb
          obtain ⟨p, hp, he⟩ := h.block_post b hb
          exact ⟨p, List.mem_append_left _ hp, he⟩
        image_ids := h.image_ids
        image_post := by
          intro i hi
          obtain ⟨p, hp, he⟩ := h.image_post i hi
          exact ⟨p, List.mem_append_left _ hp, he⟩
        image_block := h.image_block }

theorem Sound.insertBlock (h : t.Sound) {post : Int} {kindName : String} {content : Option String}
    {sequence : Int} {b : Block}
    (hi : t.insertBlock post kindName content sequence = .ok (b, u)) : u.Sound := by
  simp only [Tables.insertBlock] at hi
  split at hi
  · cases hi
  · next hpost =>
      split at hi
      · cases hi
      · next hfree =>
          cases hi
          rw [Option.isNone_iff_eq_none, ← ne_eq, Option.ne_none_iff_isSome, post?_isSome] at hpost
          simp only [List.any_eq_true, Bool.and_eq_true, decide_eq_true_eq] at hfree
          exact {
            post_ids := h.post_ids
            titles := h.titles
            block_ids := by simpa using h.block_ids.snoc
            places := by
              rw [List.pairwise_append]
              refine ⟨h.places, List.pairwise_singleton _ _, ?_⟩
              intro a ha b hb he
              obtain rfl := List.mem_singleton.1 hb
              exact hfree ⟨a, ha, he⟩
            block_post := by
              intro b hb
              rcases List.mem_append.1 hb with hb | hb
              · exact h.block_post b hb
              · obtain rfl := List.mem_singleton.1 hb
                exact hpost
            image_ids := h.image_ids
            image_post := h.image_post
            image_block := by
              intro i hi id hid
              obtain ⟨b, hb, he⟩ := h.image_block i hi id hid
              exact ⟨b, List.mem_append_left _ hb, he⟩ }

theorem Sound.insertImage (h : t.Sound) {new : NewImage} {i : Image}
    (hi : t.insertImage new = .ok (i, u)) : u.Sound := by
  simp only [Tables.insertImage] at hi
  split at hi
  · cases hi
  · next hpost =>
      split at hi
      · cases hi
      · next hblock =>
          cases hi
          rw [Option.isNone_iff_eq_none, ← ne_eq, Option.ne_none_iff_isSome, post?_isSome] at hpost
          exact {
            post_ids := h.post_ids
            titles := h.titles
            block_ids := h.block_ids
            places := h.places
            block_post := h.block_post
            image_ids := by simpa using h.image_ids.snoc
            image_post := by
              intro i hi
              rcases List.mem_append.1 hi with hi | hi
              · exact h.image_post i hi
              · obtain rfl := List.mem_singleton.1 hi
                exact hpost
            image_block := by
              intro i hi id hid
              rcases List.mem_append.1 hi with hi | hi
              · exact h.image_block i hi id hid
              · obtain rfl := List.mem_singleton.1 hi
                simp only at hid
                simpa [hid, hasBlock_iff] using hblock }

theorem Sound.replacePost (h : t.Sound) {q : Post}
    (hfree : ∀ r ∈ t.posts, r.id ≠ q.id → r.title ≠ q.title) :
    Sound { t with posts := t.posts.map fun r => if r.id = q.id then q else r } := by
  have hid (r : Post) : (if r.id = q.id then q else r).id = r.id := by
    split
    · next he => exact he.symm
    · rfl
  have hkept {id : Int} (hp : ∃ p ∈ t.posts, p.id = id) :
      ∃ p ∈ t.posts.map fun r => if r.id = q.id then q else r, p.id = id := by
    obtain ⟨r, hr, rfl⟩ := hp
    exact ⟨_, List.mem_map_of_mem hr, hid r⟩
  exact {
    post_ids := by simpa only [List.map_map, Function.comp_def, hid] using h.post_ids
    titles := by
      have hne := (List.pairwise_map.1 h.post_ids.sorted).and h.titles
      rw [List.pairwise_map]
      refine hne.imp_of_mem ?_
      intro r s hr hs ⟨hlt, hrs⟩
      have := hfree r hr
      have := hfree s hs
      grind
    block_ids := h.block_ids
    places := h.places
    block_post := fun b hb => hkept (h.block_post b hb)
    image_ids := h.image_ids
    image_post := fun i hi => hkept (h.image_post i hi)
    image_block := h.image_block }

theorem Sound.updatePost (h : t.Sound) {id : Int} {title : Option String}
    {author : Option (Option String)} {modified : Moment} {p : Post}
    (hu : t.updatePost id title author modified = .ok (p, u)) : u.Sound := by
  simp only [Tables.updatePost] at hu
  split at hu
  · cases hu
  · next old hold =>
      split at hu
      · cases hu
      · next hfree =>
          cases hu
          obtain ⟨-, rfl⟩ := mem_of_post? hold
          simp only [List.any_eq_true, Bool.and_eq_true, decide_eq_true_eq, not_exists,
            not_and] at hfree
          exact h.replacePost (q := { old with
            title := title.getD old.title, author := author.getD old.author, modified }) hfree

theorem map_id_unlinkImages (blocks : List Block) (images : List Image) :
    (unlinkImages blocks images).map (·.id) = images.map (·.id) := by
  rw [unlinkImages, List.map_map]
  refine List.map_congr_left ?_
  intro i _
  simp only [Function.comp_apply]
  split <;> rfl

theorem mem_unlinkImages {blocks : List Block} {images : List Image} {i : Image}
    (hi : i ∈ unlinkImages blocks images) : (∃ j ∈ images, j.post = i.post) ∧
      ∀ id, i.block = some id → ∃ b ∈ blocks, b.id = id := by
  obtain ⟨j, hj, rfl⟩ := List.mem_map.1 hi
  refine ⟨⟨j, hj, by split <;> rfl⟩, ?_⟩
  intro id hid
  split at hid
  · cases hid
  · next hlinked => simpa [hid] using hlinked

theorem Sound.deletePost (h : t.Sound) (title : String) : (t.deletePost title).2.Sound := by
  simp only [Tables.deletePost]
  split
  · exact h
  · next p hp =>
      have hkept {q : Int} (hq : ∃ r ∈ t.posts, r.id = q) (hne : q ≠ p.id) :
          ∃ r ∈ t.posts.filter (·.id ≠ p.id), r.id = q := by
        obtain ⟨r, hr, rfl⟩ := hq
        exact ⟨r, by simp [hr, hne], rfl⟩
      exact {
        post_ids := h.post_ids.filter _
        titles := h.titles.filter _
        block_ids := h.block_ids.filter _
        places := h.places.filter _
        block_post := by
          intro b hb
          obtain ⟨hb, hne⟩ := List.mem_filter.1 hb
          exact hkept (h.block_post b hb) (by simpa using hne)
        image_ids := by simpa only [map_id_unlinkImages] using h.image_ids.filter _
        image_post := by
          intro i hi
          obtain ⟨⟨j, hj, he⟩, -⟩ := mem_unlinkImages hi
          obtain ⟨hj, hne⟩ := List.mem_filter.1 hj
          rw [← he]
          exact hkept (h.image_post j hj) (by simpa using hne)
        image_block := fun i hi => (mem_unlinkImages hi).2 }

theorem Sound.deleteBlock (h : t.Sound) (id : Int) : (t.deleteBlock id).2.Sound := by
  simp only [Tables.deleteBlock]
  split
  · exact {
      post_ids := h.post_ids
      titles := h.titles
      block_ids := h.block_ids.filter _
      places := h.places.filter _
      block_post := fun b hb => h.block_post b (List.mem_filter.1 hb).1
      image_ids := by simpa only [map_id_unlinkImages] using h.image_ids
      image_post := by
        intro i hi
        obtain ⟨⟨j, hj, he⟩, -⟩ := mem_unlinkImages hi
        rw [← he]
        exact h.image_post j hj
      image_block := fun i hi => (mem_unlinkImages hi).2 }
  · exact h

theorem Sound.deleteImage (h : t.Sound) (id : Int) : (t.deleteImage id).2.Sound := by
  simp only [Tables.deleteImage]
  split
  · exact {
      post_ids := h.post_ids
      titles := h.titles
      block_ids := h.block_ids
      places := h.places
      block_post := h.block_post
      image_ids := h.image_ids.filter _
      image_post := fun i hi => h.image_post i (List.mem_filter.1 hi).1
      image_block := fun i hi => h.image_block i (List.mem_filter.1 hi).1 }
  · exact h

/-- What each block and each image that is inserted leaves as it is. -/
structure KeptByParts (P : Tables → Prop) : Prop where
  block : ∀ {t u : Tables} {post kindName content sequence b}, P t →
    t.insertBlock post kindName content sequence = .ok (b, u) → P u
  image : ∀ {t u : Tables} {new i}, P t → t.insertImage new = .ok (i, u) → P u

section

variable {P : Tables → Prop} (hP : KeptByParts P) {readFile : String → Option ByteArray}
  {images : Document.ImageMap} {post : Int} {total : Nat} {done done' : Stored}

include hP

theorem KeptByParts.storeImage (h : P t) {block : Int} {s : Document.StagedImage}
    (hs : storeImage readFile t post block s = .ok u) : P u := by
  simp only [Store.storeImage] at hs
  split at hs
  · cases hs
  · split at hs
    · cases hs
    · next hi =>
        cases hs
        exact hP.image h hi

theorem KeptByParts.storePart (h : P t) {part : Document.Part × Nat}
    (hs : storePart readFile images post total (t, done) part = .ok (u, done')) : P u := by
  obtain ⟨part, index⟩ := part
  simp only [Store.storePart] at hs
  split at hs
  · cases hs
  · cases part with
    | paragraph text =>
        obtain ⟨⟨b, t'⟩, hb, hs⟩ := ok_of_bind hs
        cases hs
        exact hP.block h (ok_of_mapError hb)
    | image id =>
        obtain ⟨⟨b, t'⟩, hb, hs⟩ := ok_of_bind hs
        have ht' := hP.block h (ok_of_mapError hb)
        simp only at hs
        split at hs
        · obtain ⟨t'', hi, hs⟩ := ok_of_bind hs
          cases hs
          exact hP.storeImage ht' hi
        · cases hs
          exact ht'

theorem KeptByParts.storeParts {parts : List (Document.Part × Nat)} (h : P t)
    (hs : parts.foldlM (Store.storePart readFile images post total) (t, done) = .ok (u, done')) :
    P u := by
  induction parts generalizing t done with
  | nil => cases hs; exact h
  | cons part parts ih =>
      rw [List.foldlM_cons] at hs
      obtain ⟨⟨t', done''⟩, hp, hs⟩ := ok_of_bind hs
      exact ih (hP.storePart h hp) hs

end

theorem keptByParts_sound : KeptByParts Sound where
  block h hi := h.insertBlock hi
  image h hi := h.insertImage hi

theorem Sound.storePost (h : t.Sound) {readFile : String → Option ByteArray} {now : Moment}
    {p : NewPost} {parts : List Document.Part} {images : Document.ImageMap} {s : Stored}
    (hs : storePost readFile now p parts images t = .ok (s, u)) : u.Sound := by
  obtain ⟨⟨row, t'⟩, hp, hs⟩ := ok_of_bind hs
  obtain ⟨⟨t'', done⟩, hparts, hs⟩ := ok_of_bind hs
  cases hs
  exact keptByParts_sound.storeParts (h.insertPost (ok_of_mapError hp)) hparts

end Tables

end Inkpress.Store
