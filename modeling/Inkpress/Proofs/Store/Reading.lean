import Inkpress.Proofs.Store.Operation
import Inkpress.Proofs.Store.Volume

namespace Inkpress.Store

open Document (Part ImageMap StagedImage)

/-- The ids of deleted blocks and images. -/
structure Gone where
  blocks : List Int
  images : List Int

namespace Gone

def nothing : Gone := ⟨[], []⟩

def block (g : Gone) (id : Int) : Gone :=
  { g with blocks := id :: g.blocks }

def image (g : Gone) (id : Int) : Gone :=
  { g with images := id :: g.images }

end Gone

def payloadOf (s : StagedImage) (data : ByteArray) : Payload :=
  ⟨s.fileName, some s.contentType, dimension s.width, dimension s.height,
    inlineData s.contentType data⟩

def Picture.payload (q : Picture) : Payload :=
  payloadOf q.staged q.data

namespace Place

def isKept (g : Gone) (p : Place) : Bool :=
  p.block ∉ g.blocks

def picture? (g : Gone) (p : Place) : Option Picture :=
  p.picture.filter (·.id ∉ g.images)

def imageRow? (g : Gone) (p : Place) : Option Image :=
  (p.picture? g).map fun q => q.row p.post (if p.isKept g then some p.block else none)

def view (g : Gone) (p : Place) : BlockView :=
  ⟨(kindOf p.part).name, some (contentOf p.part), p.index, (p.picture? g).map Picture.payload⟩

variable {g : Gone} {p : Place}

theorem picture?_nothing : p.picture? .nothing = p.picture := by
  cases h : p.picture <;> simp [picture?, Gone.nothing, h, Option.filter]

theorem imageRow?_nothing : p.imageRow? .nothing = p.image? := by
  rw [imageRow?, image?, picture?_nothing]
  simp [isKept, Gone.nothing]

theorem isKept_block (id : Int) : p.isKept (g.block id) = (decide (p.block ≠ id) && p.isKept g) := by
  simp [isKept, Gone.block]

theorem imageRow?_image (id : Int) :
    p.imageRow? (g.image id) = (p.imageRow? g).filter (·.id ≠ id) := by
  have hfilter : p.picture? (g.image id) = (p.picture? g).filter (·.id ≠ id) := by
    simp [picture?, Gone.image, Option.filter_filter, Bool.and_comm]
  rw [imageRow?, imageRow?, hfilter, Option.filter_map]
  rfl

theorem post_of_imageRow? {i : Image} (h : p.imageRow? g = some i) : i.post = p.post := by
  obtain ⟨q, -, rfl⟩ := Option.map_eq_some_iff.1 h
  rfl

theorem block_of_imageRow? {i : Image} (h : p.imageRow? g = some i) :
    i.block = if p.isKept g then some p.block else none := by
  obtain ⟨q, -, rfl⟩ := Option.map_eq_some_iff.1 h
  rfl

theorem view_eq (hkept : p.isKept g) : BlockView.of p.row (p.imageRow? g) = p.view g := by
  simp only [BlockView.of, view, row, imageRow?, Option.map_map, hkept, if_true]
  rfl

end Place

namespace Volume

def summary (v : Volume) : Summary :=
  ⟨v.id, v.title, v.author, v.stored.text, v.stored.text⟩

def detail (g : Gone) (v : Volume) : Detail :=
  ⟨v.summary, (v.places.filter (·.isKept g)).map (·.view g)⟩

/-- The document is what a post and its parts say, with what the pictures' files held. -/
structure Keeps (v : Volume) (readFile : String → Option ByteArray) (now : Moment) (p : NewPost)
    (parts : List Part) (images : ImageMap) : Prop where
  title : v.title = p.title
  author : v.author = p.author
  stored : v.stored = now
  parts : v.places.map (fun p => (p.part, p.index)) = parts.zipIdx
  staged : ∀ p ∈ v.places, p.picture.map (·.staged) = stagedOf images p.part
  data : ∀ p ∈ v.places, ∀ q ∈ p.picture, readFile q.staged.path = some q.data

/-- The places belong to the document and stand in order, and only images have pictures. -/
structure Sound (v : Volume) : Prop where
  post : ∀ p ∈ v.places, p.post = v.id
  order : v.places.Pairwise fun p q => p.index < q.index
  blocks : v.places.Pairwise fun p q => p.block < q.block
  pictured : ∀ p ∈ v.places, p.picture.isSome → kindOf p.part = .image

end Volume

section

variable {readFile : String → Option ByteArray} {images : ImageMap} {post block image : Int}
  {parts : List Part} {index : Nat}

theorem placesFrom_bounds {p : Place}
    (hp : p ∈ placesFrom readFile images post block image parts index) :
    p.post = post ∧ index ≤ p.index ∧ block ≤ p.block ∧ ∀ q ∈ p.picture, image ≤ q.id := by
  induction parts generalizing block image index with
  | nil => cases hp
  | cons part parts ih =>
      rcases List.mem_cons.1 hp with rfl | hp
      · refine ⟨rfl, Nat.le_refl _, Int.le_refl _, ?_⟩
        intro q hq
        simp only [placeOf, Option.mem_def, Option.bind_eq_bind, Option.bind_eq_some_iff,
          Option.map_eq_some_iff] at hq
        obtain ⟨s, -, data, -, rfl⟩ := hq
        exact Int.le_refl _
      · obtain ⟨hpost, hindex, hblock, himage⟩ := ih hp
        refine ⟨hpost, by omega, by omega, ?_⟩
        intro q hq
        have := himage q hq
        split at this <;> omega

theorem placesFrom_order : (placesFrom readFile images post block image parts index).Pairwise
    fun p q => p.index < q.index ∧ p.block < q.block := by
  induction parts generalizing block image index with
  | nil => exact .nil
  | cons part parts ih =>
      refine .cons ?_ ih
      intro q hq
      obtain ⟨-, hindex, hblock, -⟩ := placesFrom_bounds hq
      exact ⟨by simp only [placeOf]; omega, by simp only [placeOf]; omega⟩

theorem placesFrom_parts : (placesFrom readFile images post block image parts index).map
    (fun p => (p.part, p.index)) = parts.zipIdx index := by
  induction parts generalizing block image index with
  | nil => rfl
  | cons part parts ih => simp only [placesFrom, List.map_cons, List.zipIdx_cons, ih, placeOf]

theorem placesFrom_picture {p : Place}
    (hp : p ∈ placesFrom readFile images post block image parts index) :
    p.picture.map (fun q => (q.staged, q.data)) =
      (stagedOf images p.part).bind fun s => (readFile s.path).map fun data => (s, data) := by
  induction parts generalizing block image index with
  | nil => cases hp
  | cons part parts ih =>
      rcases List.mem_cons.1 hp with rfl | hp
      · simp only [placeOf, Option.bind_eq_bind, Option.map_bind, Function.comp_def, Option.map_map]
      · exact ih hp

theorem placesFrom_pictured {p : Place}
    (hp : p ∈ placesFrom readFile images post block image parts index) (hsome : p.picture.isSome) :
    kindOf p.part = .image := by
  have h := placesFrom_picture hp
  cases hpart : p.part with
  | paragraph text =>
      rw [hpart, stagedOf, Option.bind_none, Option.map_eq_none_iff] at h
      simp [h] at hsome
  | image id => rfl

theorem Volume.ofParts_sound {now : Moment} {p : NewPost} {lastPost lastBlock lastImage : Int} :
    (Volume.ofParts readFile now p parts images lastPost lastBlock lastImage).Sound where
  post _ hp := (placesFrom_bounds hp).1
  order := placesFrom_order.imp And.left
  blocks := placesFrom_order.imp And.right
  pictured _ hp := placesFrom_pictured hp

theorem exists_data_of_partsFault (hfault : partsFault readFile images parts = none) {part : Part}
    (hpart : part ∈ parts) {s : StagedImage} (hs : stagedOf images part = some s) :
    ∃ data, readFile s.path = some data := by
  obtain ⟨index, hindex⟩ := List.mem_iff_getElem?.1 hpart
  have hnone := List.findSome?_eq_none_iff.1 hfault (part, index)
    (List.mem_zipIdx_iff_getElem?.2 hindex)
  simp only [partFault, hs] at hnone
  split at hnone
  · cases hnone
  · cases hr : readFile s.path with
    | none => simp [hr] at hnone
    | some data => exact ⟨data, rfl⟩

theorem Volume.ofParts_keeps (hfault : partsFault readFile images parts = none) (now : Moment)
    (p : NewPost) (lastPost lastBlock lastImage : Int) :
    (Volume.ofParts readFile now p parts images lastPost lastBlock lastImage).Keeps readFile now p
      parts images := by
  have hplaces : (Volume.ofParts readFile now p parts images lastPost lastBlock lastImage).places.map
      (fun p => (p.part, p.index)) = parts.zipIdx := placesFrom_parts
  have hpart {q : Place} (hq : q ∈ (Volume.ofParts readFile now p parts images lastPost lastBlock
      lastImage).places) : q.part ∈ parts := by
    have hmem := List.mem_map_of_mem (f := fun p => (p.part, p.index)) hq
    rw [hplaces] at hmem
    exact List.fst_mem_of_mem_zipIdx hmem
  refine ⟨rfl, rfl, rfl, hplaces, ?_, ?_⟩
  · intro q hq
    have h := placesFrom_picture hq
    cases hs : stagedOf images q.part with
    | none =>
        rw [hs, Option.bind_none, Option.map_eq_none_iff] at h
        rw [h, Option.map_none]
    | some s =>
        obtain ⟨data, hdata⟩ := exists_data_of_partsFault hfault (hpart hq) hs
        rw [hs, Option.bind_some, hdata, Option.map_some, Option.map_eq_some_iff] at h
        obtain ⟨r, hr, he⟩ := h
        cases he
        rw [hr, Option.map_some]
  · intro q hq r hr
    have h := placesFrom_picture hq
    rw [Option.mem_def.1 hr, Option.map_some] at h
    obtain ⟨s, -, h⟩ := Option.bind_eq_some_iff.1 h.symm
    obtain ⟨data, hdata, he⟩ := Option.map_eq_some_iff.1 h
    cases he
    exact hdata

end

theorem find?_imageRow {g : Gone} {ps : List Place} (h : ps.Pairwise fun p q => p.block < q.block)
    {p : Place} (hp : p ∈ ps) (hkept : p.isKept g) :
    (ps.filterMap (·.imageRow? g)).find? (·.block = some p.block) = p.imageRow? g := by
  have hlink {q : Place} {i : Image} (hi : q.imageRow? g = some i) :
      i.block = some p.block → q.block = p.block := by
    rw [Place.block_of_imageRow? hi]
    split <;> simp
  induction ps with
  | nil => cases hp
  | cons q ps ih =>
      obtain ⟨hq, h⟩ := List.pairwise_cons.1 h
      have hrest : (ps.filterMap (·.imageRow? g)).find? (·.block = some q.block) = none := by
        simp only [List.find?_eq_none, List.mem_filterMap, decide_eq_true_eq]
        rintro i ⟨r, hr, hi⟩ he
        have := hq r hr
        rw [Place.block_of_imageRow? hi] at he
        split at he
        · have := Option.some.inj he
          omega
        · cases he
      rw [List.filterMap_cons]
      rcases List.mem_cons.1 hp with rfl | hp
      · cases hi : p.imageRow? g with
        | none => exact hrest
        | some i => simp [Place.block_of_imageRow? hi, hkept]
      · have hne := hq p hp
        cases hi : q.imageRow? g with
        | none => exact ih h hp
        | some i =>
            have : i.block ≠ some p.block := fun he => by
              have := hlink hi he
              omega
            simpa [this] using ih h hp

namespace Volume

variable {v : Volume} {g : Gone}

theorem Sound.shown? (h : v.Sound) {p : Place} (hp : p ∈ v.places) (hkept : p.isKept g) :
    Tables.shown? (v.places.filterMap (·.imageRow? g)) p.row = p.imageRow? g := by
  have hkind : p.row.kind = kindOf p.part := BlockKind.ofName_name _
  rw [Tables.shown?, hkind]
  split
  · exact find?_imageRow h.blocks hp hkept
  · next hne =>
      have hnone : p.picture = none := by
        rw [← Option.not_isSome_iff_eq_none]
        exact fun hsome => hne (h.pictured p hp hsome)
      simp [Place.imageRow?, Place.picture?, hnone, Option.filter]

theorem Sound.sorted (h : v.Sound) (f : Place → Bool) :
    ((v.places.filter f).map Place.row).mergeSort (fun a b => a.sequence ≤ b.sequence) =
      (v.places.filter f).map Place.row := by
  refine List.mergeSort_of_pairwise ?_
  rw [List.pairwise_map]
  refine (h.order.filter f).imp ?_
  intro p q hlt
  simpa [Place.row] using Nat.le_of_lt hlt

theorem Sound.assemble (h : v.Sound) :
    Tables.assemble v.post ((v.places.filter (·.isKept g)).map Place.row)
      (v.places.filterMap (·.imageRow? g)) = v.detail g := by
  simp only [Tables.assemble, detail, List.map_map, Detail.mk.injEq]
  refine ⟨rfl, List.map_congr_left ?_⟩
  intro p hp
  obtain ⟨hp, hkept⟩ := List.mem_filter.1 hp
  rw [Function.comp_apply, h.shown? hp hkept, Place.view_eq hkept]

end Volume

namespace Tables

variable {t : Tables} {v : Volume}

end Tables

theorem Pool.detail_of_reader {p : Pool} {t : Tables} (ht : p.reader.reach = .ok t) (id : Int) :
    p.detail id = match t.detail? id with
      | some d => .ok d
      | none => .error (.postNotFound id) := by
  simp only [detail, find, blocksOf, imagesOf, read, Database.read, ht, Except.map, bind, Except.bind,
    Tables.detail?]
  cases t.post? id <;> rfl

theorem Pool.detail_eq {p : Pool} {t : Tables} (hreplica : p.replica = none)
    (ht : p.primary.reach = .ok t) (id : Int) :
    p.detail id = match t.detail? id with
      | some d => .ok d
      | none => .error (.postNotFound id) := by
  have hreader : p.reader = p.primary := by rw [reader, hreplica, Option.getD_none]
  exact detail_of_reader (by rw [hreader, ht]) id

end Inkpress.Store
