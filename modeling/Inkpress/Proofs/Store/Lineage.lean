import Inkpress.Proofs.Store.Reading
import Mathlib.Data.List.Nodup

namespace Inkpress.Store

open Document (Part ImageMap)

/-- The same image at an earlier time, when it may still have had its block. -/
def Image.Was (i j : Image) : Prop :=
  i = j ∨ i = { j with block := none }

namespace Image.Was

variable {i j k : Image}

theorem refl (i : Image) : i.Was i := .inl rfl

theorem trans (h : i.Was j) (h' : j.Was k) : i.Was k := by
  rcases h with rfl | rfl
  · exact h'
  · rcases h' with rfl | rfl
    · exact .inr rfl
    · exact .inr rfl

theorem id_eq (h : i.Was j) : i.id = j.id := by
  rcases h with rfl | rfl <;> rfl

theorem post_eq (h : i.Was j) : i.post = j.post := by
  rcases h with rfl | rfl <;> rfl

theorem eq_of_block (h : i.Was j) {id : Int} (hid : i.block = some id) : i = j := by
  rcases h with rfl | rfl
  · rfl
  · cases hid

end Image.Was

theorem Ascending.inj {α : Type} {f : α → Int} {l : List α} {last : Int}
    (h : Ascending (l.map f) last) {x y : α} (hx : x ∈ l) (hy : y ∈ l) (he : f x = f y) : x = y :=
  List.inj_on_of_nodup_map (h.sorted.imp Int.ne_of_lt) hx hy he

theorem find?_of_unique {α : Type} {l : List α} {f : α → Bool} {a : α} (ha : a ∈ l) (hf : f a)
    (hunique : ∀ b ∈ l, f b → b = a) : l.find? f = some a := by
  cases hfind : l.find? f with
  | none => exact absurd hf (List.find?_eq_none.1 hfind a ha)
  | some b => rw [hunique b (List.mem_of_find?_eq_some hfind) (List.find?_some hfind)]

theorem mem_of_mem_snoc {α : Type} {f : α → Int} {l : List α} {x y : α} {last : Int}
    (hy : y ∈ l ++ [x]) (hle : f y ≤ last) (hx : last < f x) : y ∈ l := by
  rcases List.mem_append.1 hy with hy | hy
  · exact hy
  · obtain rfl := List.mem_singleton.1 hy
    omega

namespace Tables

variable {t u w : Tables}

theorem Sound.post?_of_mem (h : t.Sound) {p : Post} (hp : p ∈ t.posts) :
    t.post? p.id = some p := by
  apply find?_of_unique hp (by simp)
  intro q hq hid
  exact h.post_ids.inj hq hp (of_decide_eq_true hid)

theorem Sound.image?_of_mem (h : t.Sound) {i : Image} (hi : i ∈ t.images) :
    t.image? i.id = some i := by
  apply find?_of_unique hi (by simp)
  intro j hj hid
  exact h.image_ids.inj hj hi (of_decide_eq_true hid)

/-- What tables may become: rows come with ids past the last ones, the others are what they were but
for the fields of posts that may be changed and for the links of images. -/
structure Becomes (t u : Tables) : Prop where
  lastPost : t.lastPost ≤ u.lastPost
  lastBlock : t.lastBlock ≤ u.lastBlock
  lastImage : t.lastImage ≤ u.lastImage
  posts : ∀ q ∈ u.posts, q.id ≤ t.lastPost →
    ∃ p ∈ t.posts, p.id = q.id ∧ p.published = q.published
  blocks : ∀ b ∈ u.blocks, b.id ≤ t.lastBlock → b ∈ t.blocks
  images : ∀ i ∈ u.images, i.id ≤ t.lastImage → ∃ j ∈ t.images, i.Was j

namespace Becomes

theorem refl (t : Tables) : t.Becomes t where
  lastPost := Int.le_refl _
  lastBlock := Int.le_refl _
  lastImage := Int.le_refl _
  posts q hq _ := ⟨q, hq, rfl, rfl⟩
  blocks _ hb _ := hb
  images i hi _ := ⟨i, hi, .refl i⟩

theorem trans (h : t.Becomes u) (h' : u.Becomes w) : t.Becomes w where
  lastPost := Int.le_trans h.lastPost h'.lastPost
  lastBlock := Int.le_trans h.lastBlock h'.lastBlock
  lastImage := Int.le_trans h.lastImage h'.lastImage
  posts := by
    intro r hr hle
    obtain ⟨q, hq, hqr, hq'⟩ := h'.posts r hr (Int.le_trans hle h.lastPost)
    obtain ⟨p, hp, hpq, hp'⟩ := h.posts q hq (hqr ▸ hle)
    exact ⟨p, hp, hpq.trans hqr, hp'.trans hq'⟩
  blocks := by
    intro b hb hle
    exact h.blocks b (h'.blocks b hb (Int.le_trans hle h.lastBlock)) hle
  images := by
    intro k hk hle
    obtain ⟨j, hj, hkj⟩ := h'.images k hk (Int.le_trans hle h.lastImage)
    obtain ⟨i, hi, hji⟩ := h.images j hj (hkj.id_eq ▸ hle)
    exact ⟨i, hi, hkj.trans hji⟩

theorem post_pos (h : Tables.empty.Becomes t) {p : Post} (hp : p ∈ t.posts) : 0 < p.id := by
  by_contra hle
  obtain ⟨q, hq, -⟩ := h.posts p hp (Int.not_lt.1 hle)
  cases hq

theorem image_pos (h : Tables.empty.Becomes t) {i : Image} (hi : i ∈ t.images) : 0 < i.id := by
  by_contra hle
  obtain ⟨j, hj, -⟩ := h.images i hi (Int.not_lt.1 hle)
  cases hj

end Becomes

/-- Three times of a run, one after the other: a row that is there at the first and at the last is
one row, and it is there in between. -/
structure OneRowPerId (t u w : Tables) : Prop where
  posts : ∀ p ∈ t.posts, ∀ r ∈ w.posts, p.id = r.id →
    p.published = r.published ∧ ∃ q ∈ u.posts, q.id = p.id
  blocks : ∀ a ∈ t.blocks, ∀ c ∈ w.blocks, a.id = c.id → a = c ∧ c ∈ u.blocks
  images : ∀ i ∈ t.images, ∀ k ∈ w.images, i.id = k.id → k.Was i ∧ ∃ j ∈ u.images, k.Was j

theorem Becomes.oneRowPerId (ht : t.Sound) (h : t.Becomes u) (h' : u.Becomes w) :
    OneRowPerId t u w where
  posts := by
    intro p hp r hr he
    have hle : r.id ≤ t.lastPost := he ▸ ht.post_ids.le_last _ (List.mem_map_of_mem hp)
    obtain ⟨q, hq, hqr, -⟩ := h'.posts r hr (Int.le_trans hle h.lastPost)
    obtain ⟨p', hp', hid, hpublished⟩ := (h.trans h').posts r hr hle
    obtain rfl := ht.post_ids.inj hp hp' (he.trans hid.symm)
    exact ⟨hpublished, q, hq, hqr.trans he.symm⟩
  blocks := by
    intro a ha c hc he
    have hle : c.id ≤ t.lastBlock := he ▸ ht.block_ids.le_last _ (List.mem_map_of_mem ha)
    have hu := h'.blocks c hc (Int.le_trans hle h.lastBlock)
    exact ⟨ht.block_ids.inj ha (h.blocks c hu hle) he, hu⟩
  images := by
    intro i hi k hk he
    have hle : k.id ≤ t.lastImage := he ▸ ht.image_ids.le_last _ (List.mem_map_of_mem hi)
    obtain ⟨j, hj, hkj⟩ := h'.images k hk (Int.le_trans hle h.lastImage)
    obtain ⟨i', hi', hki⟩ := (h.trans h').images k hk hle
    obtain rfl := ht.image_ids.inj hi hi' (he.trans hki.id_eq)
    exact ⟨hki, j, hj, hkj⟩

namespace Becomes

theorem insertPost {title : String} {author : Option String} {published modified : Moment}
    {p : Post} (hi : t.insertPost title author published modified = .ok (p, u)) : t.Becomes u := by
  simp only [Tables.insertPost] at hi
  split at hi
  · cases hi
  · cases hi
    exact {
      refl t with
      lastPost := by simp only; omega
      posts := fun q hq hle => ⟨q, mem_of_mem_snoc hq hle (by simp only; omega), rfl, rfl⟩ }

theorem insertBlock {post : Int} {kindName : String} {content : Option String} {sequence : Int}
    {b : Block} (hi : t.insertBlock post kindName content sequence = .ok (b, u)) :
    t.Becomes u := by
  simp only [Tables.insertBlock] at hi
  split at hi
  · cases hi
  · split at hi
    · cases hi
    · cases hi
      exact {
        refl t with
        lastBlock := by simp only; omega
        blocks := fun b hb hle => mem_of_mem_snoc hb hle (by simp only; omega) }

theorem insertImage {new : NewImage} {i : Image} (hi : t.insertImage new = .ok (i, u)) :
    t.Becomes u := by
  simp only [Tables.insertImage] at hi
  split at hi
  · cases hi
  · split at hi
    · cases hi
    · cases hi
      exact {
        refl t with
        lastImage := by simp only; omega
        images := fun j hj hle => ⟨j, mem_of_mem_snoc hj hle (by simp only; omega), .refl j⟩ }

theorem updatePost {id : Int} {title : Option String} {author : Option (Option String)}
    {modified : Moment} {p : Post} (hu : t.updatePost id title author modified = .ok (p, u)) :
    t.Becomes u := by
  simp only [Tables.updatePost] at hu
  split at hu
  · cases hu
  · next old hold =>
      split at hu
      · cases hu
      · cases hu
        obtain ⟨hmem, hid⟩ := mem_of_post? hold
        refine { refl t with posts := ?_ }
        intro q hq _
        obtain ⟨r, hr, rfl⟩ := List.mem_map.1 hq
        split
        · exact ⟨old, hmem, rfl, rfl⟩
        · exact ⟨r, hr, rfl, rfl⟩

end Becomes

structure Shrinks (t u : Tables) : Prop where
  last : u.lastPost = t.lastPost ∧ u.lastBlock = t.lastBlock ∧ u.lastImage = t.lastImage
  posts : ∀ p ∈ u.posts, p ∈ t.posts
  blocks : ∀ b ∈ u.blocks, b ∈ t.blocks
  images : ∀ i ∈ u.images, ∃ j ∈ t.images, i.Was j

theorem Shrinks.refl (t : Tables) : t.Shrinks t where
  last := ⟨rfl, rfl, rfl⟩
  posts _ hp := hp
  blocks _ hb := hb
  images i hi := ⟨i, hi, .refl i⟩

theorem exists_was_of_mem_unlinkImages {blocks : List Block} {images : List Image} {i : Image}
    (hi : i ∈ unlinkImages blocks images) : ∃ j ∈ images, i.Was j := by
  obtain ⟨j, hj, rfl⟩ := List.mem_map.1 hi
  refine ⟨j, hj, ?_⟩
  split
  · exact .inr rfl
  · exact .inl rfl

theorem shrinks_deletePost (t : Tables) (title : String) : t.Shrinks (t.deletePost title).2 := by
  simp only [deletePost]
  split
  · exact .refl t
  · refine ⟨⟨rfl, rfl, rfl⟩, ?_, ?_, ?_⟩
    · intro p hp
      exact (List.mem_filter.1 hp).1
    · intro b hb
      exact (List.mem_filter.1 hb).1
    · intro i hi
      obtain ⟨j, hj, hij⟩ := exists_was_of_mem_unlinkImages hi
      exact ⟨j, (List.mem_filter.1 hj).1, hij⟩

theorem shrinks_deleteBlock (t : Tables) (id : Int) : t.Shrinks (t.deleteBlock id).2 := by
  simp only [deleteBlock]
  split
  · refine ⟨⟨rfl, rfl, rfl⟩, fun _ hp => hp, ?_, ?_⟩
    · intro b hb
      exact (List.mem_filter.1 hb).1
    · intro i hi
      exact exists_was_of_mem_unlinkImages hi
  · exact .refl t

theorem shrinks_deleteImage (t : Tables) (id : Int) : t.Shrinks (t.deleteImage id).2 := by
  simp only [deleteImage]
  split
  · refine ⟨⟨rfl, rfl, rfl⟩, fun _ hp => hp, fun _ hb => hb, ?_⟩
    intro i hi
    exact ⟨i, (List.mem_filter.1 hi).1, .refl i⟩
  · exact .refl t

theorem Shrinks.becomes (h : t.Shrinks u) : t.Becomes u where
  lastPost := Int.le_of_eq h.last.1.symm
  lastBlock := Int.le_of_eq h.last.2.1.symm
  lastImage := Int.le_of_eq h.last.2.2.symm
  posts q hq _ := ⟨q, h.posts q hq, rfl, rfl⟩
  blocks b hb _ := h.blocks b hb
  images i hi _ := h.images i hi

/-- The document comes after all that the tables have given ids to. -/
structure Precedes (t : Tables) (v : Volume) : Prop where
  post : t.lastPost < v.id
  blocks : ∀ p ∈ v.places, p.post = v.id ∧ t.lastBlock < p.block
  images : ∀ p ∈ v.places, ∀ q ∈ p.picture, t.lastImage < q.id

theorem precedes_ofParts (t : Tables) (readFile : String → Option ByteArray) (now : Moment)
    (p : NewPost) (parts : List Part) (images : ImageMap) :
    t.Precedes (.ofParts readFile now p parts images t.lastPost t.lastBlock t.lastImage) := by
  refine ⟨Int.lt_succ _, ?_, ?_⟩
  · intro q hq
    obtain ⟨hpost, -, hblock, -⟩ := placesFrom_bounds hq
    exact ⟨hpost, by omega⟩
  · intro q hq r hr
    obtain ⟨-, -, -, himage⟩ := placesFrom_bounds hq
    have := himage r hr
    omega

theorem mem_blocks_addVolume {v : Volume} {b : Block} :
    b ∈ (t.addVolume v).blocks ↔ b ∈ t.blocks ∨ ∃ p ∈ v.places, p.row = b := by
  simp only [addVolume, placeAll, List.mem_append, List.mem_map]

theorem mem_images_addVolume {v : Volume} {i : Image} :
    i ∈ (t.addVolume v).images ↔
      i ∈ t.images ∨ ∃ p ∈ v.places, ∃ q ∈ p.picture, q.row p.post (some p.block) = i := by
  simp only [addVolume, placeAll, List.mem_append, List.mem_filterMap, Place.image?,
    Option.map_eq_some_iff, Option.mem_def]

theorem Precedes.becomes {v : Volume} (h : t.Precedes v) : t.Becomes (t.addVolume v) where
  lastPost := Int.le_of_lt h.post
  lastBlock := by
    simp only [addVolume, placeAll]
    omega
  lastImage := by
    simp only [addVolume, placeAll]
    omega
  posts q hq hle := ⟨q, mem_of_mem_snoc hq hle h.post, rfl, rfl⟩
  blocks := by
    intro b hb hle
    rcases mem_blocks_addVolume.1 hb with hb | ⟨p, hp, rfl⟩
    · exact hb
    · exact absurd hle (Int.not_le.2 (h.blocks p hp).2)
  images := by
    intro i hi hle
    rcases mem_images_addVolume.1 hi with hi | ⟨p, hp, q, hq, rfl⟩
    · exact ⟨i, hi, .refl i⟩
    · exact absurd hle (Int.not_le.2 (h.images p hp q hq))

end Tables

namespace Operation

/-- What an operation can do to tables, if it does anything. -/
inductive Does (t : Tables) : Operation → Tables → Prop
  | nothing (op : Operation) : Does t op t
  | store (readFile : String → Option ByteArray) (now : Moment) (post : NewPost)
      (parts : List Part) (images : ImageMap) :
      Does t (.store readFile now post parts images) (t.addVolume
        (.ofParts readFile now post parts images t.lastPost t.lastBlock t.lastImage))
  | deletePost (title : String) : Does t (.deletePost title) (t.deletePost title).2
  | deleteBlock (id : Int) : Does t (.deleteBlock id) (t.deleteBlock id).2
  | deleteImage (id : Int) : Does t (.deleteImage id) (t.deleteImage id).2

variable {p : Pool} {t u : Tables}

theorem pool_eq_of_reach (ht : p.primary.reach = .ok t) :
    p = { p with primary.tables := some t } := by
  rw [← (Database.tables_of_reach ht).1]

theorem run_does (h : t.Sound) (ht : p.primary.reach = .ok t) (op : Operation) :
    ∃ u, op.Does t u ∧ (op.run p).2 = { p with primary.tables := some u } := by
  cases op with
  | store readFile now post parts images =>
      simp only [run, Pool.store_eq h ht]
      split
      · split
        · exact ⟨t, .nothing _, pool_eq_of_reach ht⟩
        · split
          · exact ⟨t, .nothing _, pool_eq_of_reach ht⟩
          · exact ⟨_, .store readFile now post parts images, rfl⟩
      · exact ⟨t, .nothing _, pool_eq_of_reach ht⟩
  | deletePost title =>
      refine ⟨_, .deletePost title, ?_⟩
      simp only [run, Pool.deletePost, Pool.change, Pool.write, Database.change_of_reach ht]
  | deleteBlock id =>
      refine ⟨_, .deleteBlock id, ?_⟩
      simp only [run, Pool.deleteBlock, Pool.change, Pool.write, Database.change_of_reach ht]
  | deleteImage id =>
      refine ⟨_, .deleteImage id, ?_⟩
      simp only [run, Pool.deleteImage, Pool.change, Pool.write, Database.change_of_reach ht]
  | createAll =>
      refine ⟨t, .nothing _, ?_⟩
      obtain ⟨htables, hopen⟩ := Database.tables_of_reach ht
      simp only [run, Pool.write, Database.createAll, hopen, htables, Bool.false_eq_true, if_false,
        Option.getD_some]

theorem run_tables (h : t.Sound) (ht : p.primary.reach = .ok t) (op : Operation) :
    ∃ u, op.Does t u ∧ u.Sound ∧ (op.run p).2.primary.reach = .ok u ∧
      (op.run p).2.replica = p.replica := by
  obtain ⟨u, hu, hrun⟩ := run_does h ht op
  have hsound : p.primary.Sound := by
    intro t' ht'
    rw [(Database.tables_of_reach ht).1] at ht'
    exact Option.some.inj ht' ▸ h
  have hsound := op.run_sound hsound
  rw [hrun] at hsound ⊢
  exact ⟨u, hu, hsound u rfl, Database.reach_write ht u, rfl⟩

theorem Does.becomes {op : Operation} (h : op.Does t u) : t.Becomes u := by
  cases h with
  | nothing => exact .refl t
  | store readFile now post parts images =>
      exact (t.precedes_ofParts readFile now post parts images).becomes
  | deletePost title => exact (t.shrinks_deletePost title).becomes
  | deleteBlock id => exact (t.shrinks_deleteBlock id).becomes
  | deleteImage id => exact (t.shrinks_deleteImage id).becomes

end Operation

theorem RowChange.apply_becomes {t u : Tables} (c : RowChange) (hu : c.apply t = .ok ((), u)) :
    t.Becomes u := by
  cases c with
  | insertPost title author published modified =>
      obtain ⟨⟨p, t'⟩, hp, hu⟩ := ok_of_map hu
      cases hu
      exact .insertPost hp
  | updatePost id title author modified =>
      obtain ⟨⟨p, t'⟩, hp, hu⟩ := ok_of_map hu
      cases hu
      exact .updatePost hp
  | insertBlock post kindName content sequence =>
      obtain ⟨⟨p, t'⟩, hp, hu⟩ := ok_of_map hu
      cases hu
      exact .insertBlock hp
  | insertImage image =>
      obtain ⟨⟨p, t'⟩, hp, hu⟩ := ok_of_map hu
      cases hu
      exact .insertImage hp

end Inkpress.Store
