import Inkpress.Proofs.Store.Operation
import Inkpress.Proofs.Store.Reading
import Mathlib.Data.List.Basic
import Mathlib.Data.List.Nodup

namespace Inkpress.Store

open Document (Part ImageMap)

structure Shelf where
  volumes : List Volume
  gone : Gone
  lastPost : Int
  lastBlock : Int
  lastImage : Int

namespace Shelf

def empty : Shelf := ⟨[], .nothing, 0, 0, 0⟩

def places (s : Shelf) : List Place :=
  s.volumes.flatMap (·.places)

def hasTitle (s : Shelf) (title : String) : Bool :=
  s.volumes.any (·.title = title)

def hasBlock (s : Shelf) (id : Int) : Bool :=
  s.places.any fun p => p.isKept s.gone && p.block = id

def hasImage (s : Shelf) (id : Int) : Bool :=
  s.places.any fun p => (p.picture? s.gone).any (·.id = id)

def add (s : Shelf) (v : Volume) : Shelf :=
  { s with
    volumes := s.volumes ++ [v]
    lastPost := v.id
    lastBlock := s.lastBlock + v.places.length
    lastImage := s.lastImage + v.places.countP (·.picture.isSome) }

/-- The document that a post would be stored as. -/
def next (s : Shelf) (readFile : String → Option ByteArray) (now : Moment) (post : NewPost)
    (parts : List Part) (images : ImageMap) : Volume :=
  .ofParts readFile now post parts images s.lastPost s.lastBlock s.lastImage

def removePost (s : Shelf) (title : String) : Shelf :=
  { s with volumes := s.volumes.filter (·.title ≠ title) }

def removeBlock (s : Shelf) (id : Int) : Shelf :=
  if s.hasBlock id then { s with gone := s.gone.block id } else s

def removeImage (s : Shelf) (id : Int) : Shelf :=
  if s.hasImage id then { s with gone := s.gone.image id } else s

/-- What an operation answers, and what it leaves. -/
def step (s : Shelf) : Operation → Except Error Answer × Shelf
  | .store readFile now post parts images =>
    if post.invalidFields = [] then
      if s.hasTitle post.title then (.error (.duplicateTitle post.title), s)
      else match partsFault readFile images parts with
        | some e => (.error e, s)
        | none => (.ok (.stored (countOf images (s.lastPost + 1) parts)),
            s.add (s.next readFile now post parts images))
    else (.error (Pool.invalid post.invalidFields), s)
  | .deletePost title => (.ok (.found (s.hasTitle title)), s.removePost title)
  | .deleteBlock id => (.ok (.found (s.hasBlock id)), s.removeBlock id)
  | .deleteImage id => (.ok (.found (s.hasImage id)), s.removeImage id)
  | .createAll => (.ok .done, s)

def runAll (s : Shelf) (ops : List Operation) : Shelf :=
  ops.foldl (fun s op => (s.step op).2) s

def list (s : Shelf) : List Summary :=
  s.volumes.map (·.summary)

def detail (s : Shelf) (id : Int) : Except Error Detail :=
  match s.volumes.find? (·.id = id) with
  | some v => .ok (v.detail s.gone)
  | none => .error (.postNotFound id)

def tables (s : Shelf) : Tables where
  posts := s.volumes.map Volume.post
  blocks := (s.places.filter (·.isKept s.gone)).map Place.row
  images := s.places.filterMap (·.imageRow? s.gone)
  lastPost := s.lastPost
  lastBlock := s.lastBlock
  lastImage := s.lastImage

/-- The rows keep the constraints of the tables, documents are as they were stored, and no id is
gone that was not given. -/
structure Sound (s : Shelf) : Prop where
  tables : s.tables.Sound
  volumes : ∀ v ∈ s.volumes, v.Sound
  gone_blocks : ∀ id ∈ s.gone.blocks, id ≤ s.lastBlock
  gone_images : ∀ id ∈ s.gone.images, id ≤ s.lastImage

variable {s : Shelf}

theorem sound_empty : empty.Sound where
  tables := Tables.sound_empty
  volumes := by simp [empty]
  gone_blocks := by simp [empty, Gone.nothing]
  gone_images := by simp [empty, Gone.nothing]

theorem hasTitle_eq (s : Shelf) (title : String) :
    s.tables.posts.any (·.title = title) = s.hasTitle title := by
  simp only [tables, hasTitle, List.any_map]
  rfl

theorem hasBlock_eq (s : Shelf) (id : Int) : s.tables.hasBlock id = s.hasBlock id := by
  simp only [tables, hasBlock, Tables.hasBlock, List.any_map, List.any_filter]
  rfl

theorem hasImage_eq (s : Shelf) (id : Int) : (s.tables.image? id).isSome = s.hasImage id := by
  rw [Bool.eq_iff_iff]
  simp only [Shelf.tables, hasImage, Tables.image?, List.find?_isSome, List.any_eq_true,
    Place.imageRow?, List.mem_filterMap, decide_eq_true_eq, Option.any_eq_true,
    Option.map_eq_some_iff]
  constructor
  · rintro ⟨i, ⟨p, hp, q, hq, rfl⟩, hid⟩
    exact ⟨p, hp, q, hq, hid⟩
  · rintro ⟨p, hp, q, hq, hid⟩
    exact ⟨_, ⟨p, hp, q, hq, rfl⟩, hid⟩

theorem Sound.ids (h : s.Sound) : s.volumes.Pairwise fun v w => v.id < w.id := by
  have hids := h.tables.post_ids.sorted
  rw [Shelf.tables, List.map_map] at hids
  exact List.pairwise_map.1 hids

theorem Sound.eq_of_id (h : s.Sound) {v w : Volume} (hv : v ∈ s.volumes) (hw : w ∈ s.volumes)
    (he : v.id = w.id) : v = w :=
  List.inj_on_of_nodup_map (List.pairwise_map.2 (h.ids.imp Int.ne_of_lt)) hv hw he

theorem Sound.eq_of_title (h : s.Sound) {v w : Volume} (hv : v ∈ s.volumes) (hw : w ∈ s.volumes)
    (he : v.title = w.title) : v = w := by
  have htitles := h.tables.titles
  rw [Shelf.tables, List.pairwise_map] at htitles
  exact List.inj_on_of_nodup_map (List.pairwise_map.2 htitles) hv hw he

theorem tables_add {v : Volume} (hnew : ∀ p ∈ v.places,
    p.block ∉ s.gone.blocks ∧ ∀ q ∈ p.picture, q.id ∉ s.gone.images) :
    (s.add v).tables = s.tables.addVolume v := by
  have hkept {p : Place} (hp : p ∈ v.places) : p.isKept s.gone := by
    simpa [Place.isKept] using (hnew p hp).1
  have hpicture {p : Place} (hp : p ∈ v.places) : p.picture? s.gone = p.picture := by
    cases hq : p.picture with
    | none => simp [Place.picture?, hq]
    | some q => simp [Place.picture?, hq, Option.filter, (hnew p hp).2 q hq]
  have hblocks : v.places.filter (·.isKept s.gone) = v.places :=
    List.filter_eq_self.2 fun p hp => hkept hp
  have himages : v.places.filterMap (·.imageRow? s.gone) = v.places.filterMap Place.image? := by
    refine List.filterMap_congr ?_
    intro p hp
    simp only [Place.imageRow?, Place.image?, hpicture hp, hkept hp, if_true]
  simp [tables, add, places, Tables.addVolume, Tables.placeAll, hblocks, himages]

/-- What is stored next has ids that were not given, so nothing of it is gone. -/
theorem Sound.not_gone_of_next (h : s.Sound) {readFile : String → Option ByteArray} {now : Moment}
    {post : NewPost} {parts : List Part} {images : ImageMap} :
    ∀ p ∈ (s.next readFile now post parts images).places,
      p.block ∉ s.gone.blocks ∧ ∀ q ∈ p.picture, q.id ∉ s.gone.images := by
  intro p hp
  obtain ⟨-, -, hblock, himage⟩ := placesFrom_bounds hp
  refine ⟨?_, ?_⟩
  · intro hgone
    have := h.gone_blocks _ hgone
    omega
  · intro q hq hgone
    have := h.gone_images _ hgone
    have := himage q hq
    omega

theorem Sound.tables_next (h : s.Sound) (readFile : String → Option ByteArray) (now : Moment)
    (post : NewPost) (parts : List Part) (images : ImageMap) :
    (s.add (s.next readFile now post parts images)).tables = s.tables.addVolume
      (.ofParts readFile now post parts images s.lastPost s.lastBlock s.lastImage) :=
  tables_add h.not_gone_of_next

theorem filter_places {vs : List Volume} (h : ∀ v ∈ vs, v.Sound) (f : Int → Bool) :
    (vs.flatMap (·.places)).filter (fun p => f p.post) =
      (vs.filter fun v => f v.id).flatMap (·.places) := by
  induction vs with
  | nil => rfl
  | cons v vs ih =>
      obtain ⟨hv, h⟩ := List.forall_mem_cons.1 h
      have hpost : v.places.filter (fun p => f p.post) = v.places.filter fun _ => f v.id :=
        List.filter_congr fun p hp => by rw [hv.post p hp]
      rw [List.flatMap_cons, List.filter_append, ih h, hpost, List.filter_cons]
      cases f v.id <;> simp

theorem filter_rows (g : Gone) (f : Int → Bool) (ps : List Place) :
    ((ps.filter (·.isKept g)).map Place.row).filter (fun b => f b.post) =
      ((ps.filter fun p => f p.post).filter (·.isKept g)).map Place.row := by
  rw [List.filter_map, List.filter_filter, List.filter_filter]
  simp only [Function.comp_def, Place.row, Bool.and_comm]

theorem filter_imageRows (g : Gone) (f : Int → Bool) (ps : List Place) :
    (ps.filterMap (·.imageRow? g)).filter (fun i => f i.post) =
      (ps.filter fun p => f p.post).filterMap (·.imageRow? g) := by
  rw [List.filter_filterMap, List.filterMap_filter]
  refine List.filterMap_congr ?_
  intro p _
  cases hi : p.imageRow? g with
  | none => simp
  | some i => simp [Option.filter, Place.post_of_imageRow? hi]

theorem unlinkImages_imageRow (g g' : Gone) (hmono : ∀ id ∈ g.blocks, id ∈ g'.blocks)
    (hsame : g'.images = g.images) (ps : List Place) :
    Tables.unlinkImages ((ps.filter (·.isKept g')).map Place.row)
      (ps.filterMap (·.imageRow? g)) = ps.filterMap (·.imageRow? g') := by
  rw [Tables.unlinkImages, List.map_filterMap]
  refine List.filterMap_congr ?_
  intro p hp
  have hpicture : p.picture? g' = p.picture? g := by simp only [Place.picture?, hsame]
  have hlost : ((ps.filter (·.isKept g')).map Place.row).all (·.id ≠ p.block) = !p.isKept g' := by
    rw [Bool.eq_iff_iff]
    simp only [List.all_map, List.all_eq_true, List.mem_filter, Function.comp_apply,
      Bool.not_eq_true', decide_eq_true_eq]
    constructor
    · intro hall
      rw [← Bool.not_eq_true]
      exact fun hkept => hall p ⟨hp, hkept⟩ rfl
    · intro hgone r hr he
      have he : r.block = p.block := he
      simp only [Place.isKept, he] at hr hgone
      simp [hgone] at hr
  simp only [Place.imageRow?, Option.map_map, hpicture]
  refine Option.map_congr ?_
  intro q _
  cases hkept' : p.isKept g' with
  | true =>
      have hkept : p.isKept g := by
        simp only [Place.isKept, decide_eq_true_eq] at hkept' ⊢
        exact fun hgone => hkept' (hmono _ hgone)
      simp only [Function.comp_apply, Picture.row, hkept, if_true, Option.any_some, hlost, hkept']
      rfl
  | false =>
      cases hkept : p.isKept g with
      | true =>
          simp only [Function.comp_apply, Picture.row, if_true, Option.any_some, hlost, hkept']
          rfl
      | false => rfl

theorem Sound.tables_removePost (h : s.Sound) (title : String) :
    s.tables.deletePost title = (s.hasTitle title, (s.removePost title).tables) := by
  have hfind : s.tables.postTitled? title =
      (s.volumes.find? (·.title = title)).map Volume.post := by
    simp only [Tables.postTitled?, Shelf.tables, List.find?_map]
    rfl
  simp only [Tables.deletePost, hfind, hasTitle]
  cases hv : s.volumes.find? (·.title = title) with
  | none =>
      have hnone := List.find?_eq_none.1 hv
      have hany : s.volumes.any (·.title = title) = false := by simpa using hnone
      have hsame : s.volumes.filter (·.title ≠ title) = s.volumes := by simpa using hnone
      simp only [Option.map_none, hany, removePost, hsame]
  | some v =>
      have hmem : v ∈ s.volumes := List.mem_of_find?_eq_some hv
      have htitle : v.title = title := by simpa using List.find?_some hv
      have hany : s.volumes.any (·.title = title) = true := by simpa using ⟨v, hmem, htitle⟩
      have hid : s.volumes.filter (·.title ≠ title) = s.volumes.filter fun w => w.id ≠ v.id := by
        refine List.filter_congr ?_
        intro w hw
        have : w.title = title ↔ w.id = v.id :=
          ⟨fun he => by rw [h.eq_of_title hw hmem (he.trans htitle.symm)],
            fun he => by rw [h.eq_of_id hw hmem he, htitle]⟩
        simp only [ne_eq, this]
      have hplaces := filter_places h.volumes fun id => id ≠ v.id
      have hblocks := filter_rows s.gone (fun id => id ≠ v.id) s.places
      have himages := filter_imageRows s.gone (fun id => id ≠ v.id) s.places
      rw [places, hplaces] at hblocks himages
      have hposts : (s.volumes.map Volume.post).filter (·.id ≠ v.id) =
          (s.volumes.filter fun w => w.id ≠ v.id).map Volume.post := by
        rw [List.filter_map]
        rfl
      simp only [Option.map_some, hany, Shelf.tables, removePost, places, hid, Volume.post] at *
      simp only [hblocks, himages, hposts, unlinkImages_imageRow _ _ (fun _ h => h) rfl]

theorem tables_removeBlock (s : Shelf) (id : Int) :
    s.tables.deleteBlock id = (s.hasBlock id, (s.removeBlock id).tables) := by
  simp only [Tables.deleteBlock, hasBlock_eq, removeBlock]
  by_cases hthere : s.hasBlock id
  · have hblocks : ((s.places.filter (·.isKept s.gone)).map Place.row).filter (·.id ≠ id) =
        (s.places.filter (·.isKept (s.gone.block id))).map Place.row := by
      rw [List.filter_map, List.filter_filter]
      simp only [Place.isKept_block]
      rfl
    have himages := unlinkImages_imageRow s.gone (s.gone.block id)
      (fun _ hid => List.mem_cons_of_mem _ hid) rfl s.places
    simp only [hthere, if_true, Shelf.tables, hblocks, himages]
    rfl
  · simp only [hthere, Bool.false_eq_true, if_false]

theorem tables_removeImage (s : Shelf) (id : Int) :
    s.tables.deleteImage id = (s.hasImage id, (s.removeImage id).tables) := by
  simp only [Tables.deleteImage, hasImage_eq, removeImage]
  by_cases hthere : s.hasImage id
  · have himages : (s.places.filterMap (·.imageRow? s.gone)).filter (·.id ≠ id) =
        s.places.filterMap (·.imageRow? (s.gone.image id)) := by
      simp only [List.filter_filterMap, Place.imageRow?_image]
    simp only [hthere, if_true, Shelf.tables, himages]
    rfl
  · simp only [hthere, Bool.false_eq_true, if_false]

end Shelf

end Inkpress.Store
