import Inkpress.Proofs.Store.Sound
import Inkpress.Store.Database

namespace Inkpress.Store

open Document (Part ImageMap StagedImage)

structure Picture where
  id : Int
  staged : StagedImage
  data : ByteArray

def Picture.row (q : Picture) (post : Int) (block : Option Int) : Image :=
  ⟨q.id, post, block, q.staged.fileName, q.data, some q.staged.contentType,
    dimension q.staged.width, dimension q.staged.height⟩

def kindOf : Part → BlockKind
  | .paragraph _ => .paragraph
  | .image _ => .image

def contentOf : Part → String
  | .paragraph text => text
  | .image id => id

def stagedOf (images : ImageMap) : Part → Option StagedImage
  | .paragraph _ => none
  | .image id => images.staged? id

/-- A part as it is stored: its post, its index among the parts, and the ids of its rows. -/
structure Place where
  post : Int
  index : Nat
  part : Part
  block : Int
  picture : Option Picture

namespace Place

def row (p : Place) : Block :=
  ⟨p.block, p.post, (kindOf p.part).name, some (contentOf p.part), p.index⟩

def image? (p : Place) : Option Image :=
  p.picture.map fun q => q.row p.post (some p.block)

end Place

def Tables.placeAll (t : Tables) (ps : List Place) : Tables :=
  { t with
    blocks := t.blocks ++ ps.map Place.row
    images := t.images ++ ps.filterMap Place.image?
    lastBlock := t.lastBlock + ps.length
    lastImage := t.lastImage + ps.countP (·.picture.isSome) }

section

variable (readFile : String → Option ByteArray) (images : ImageMap) (post : Int)

/-- What keeps a part from being stored at an index, if anything does. -/
def partFault (total : Nat) (part : Part × Nat) : Option Error :=
  if maxBlocks ≤ part.2 then
    some (.invalidFormat ("Too many content blocks: " ++ toString total))
  else match stagedOf images part.1 with
    | some s => if (readFile s.path).isNone then some (unreadableImage s.path) else none
    | none => none

def placeOf (block image : Int) (part : Part) (index : Nat) : Place :=
  ⟨post, index, part, block,
    stagedOf images part >>= fun s => (readFile s.path).map fun data => ⟨image, s, data⟩⟩

def placesFrom : Int → Int → List Part → Nat → List Place
  | _, _, [], _ => []
  | block, image, part :: parts, index =>
    let p := placeOf readFile images post block image part index
    p :: placesFrom (block + 1) (if p.picture.isSome then image + 1 else image) parts (index + 1)

def countOf (parts : List Part) : Stored :=
  ⟨post, parts.length, parts.countP fun p => (stagedOf images p).isSome,
    parts.countP fun p => p.imageId?.isSome && (stagedOf images p).isNone⟩

end

def Stored.add (a b : Stored) : Stored :=
  ⟨a.post, a.blocks + b.blocks, a.images + b.images, a.degraded + b.degraded⟩

theorem Stored.add_countOf (done : Stored) (images : ImageMap) (post : Int) (part : Part)
    (parts : List Part) : (done.add (countOf images post [part])).add (countOf images post parts) =
      done.add (countOf images post (part :: parts)) := by
  simp only [Stored.add, countOf, List.countP_cons, List.countP_nil, List.length_cons,
    List.length_nil, Stored.mk.injEq, true_and]
  refine ⟨?_, ?_, ?_⟩ <;> omega

namespace Tables

variable {t : Tables} {post : Int}

theorem placeAll_placeAll (t : Tables) (ps qs : List Place) :
    (t.placeAll ps).placeAll qs = t.placeAll (ps ++ qs) := by
  simp [placeAll, Int.add_assoc]

theorem insertBlock_eq (part : Part) {index : Nat} (hpost : (t.post? post).isSome)
    (hfree : ∀ b ∈ t.blocks, b.post = post → b.sequence < index) {p : Place}
    (hp : p = ⟨post, index, part, t.lastBlock + 1, none⟩) :
    t.insertBlock post (kindOf part).name (some (contentOf part)) index =
      .ok (p.row, t.placeAll [p]) := by
  have hpost' : (t.post? post).isNone = false := by simpa [Option.isSome_iff_ne_none] using hpost
  have hfree' : (t.blocks.any fun b => b.post = post && b.sequence = (index : Int)) = false := by
    simp only [List.any_eq_false, Bool.and_eq_true, decide_eq_true_eq, not_and]
    intro b hb he
    exact Int.ne_of_lt (hfree b hb he)
  subst hp
  simp [insertBlock, hpost', hfree', placeAll, Place.row, Place.image?, List.filterMap_cons]

theorem storeImage_eq (readFile : String → Option ByteArray) {block : Int} (s : StagedImage)
    (hpost : (t.post? post).isSome) (hblock : t.hasBlock block) :
    storeImage readFile t post block s =
      match readFile s.path with
      | none => .error (unreadableImage s.path)
      | some data => .ok { t with
          images := t.images ++ [(Picture.mk (t.lastImage + 1) s data).row post (some block)]
          lastImage := t.lastImage + 1 } := by
  have hpost' : (t.post? post).isNone = false := by simpa [Option.isSome_iff_ne_none] using hpost
  cases hr : readFile s.path with
  | none => simp [storeImage, hr]
  | some data => simp [storeImage, hr, insertImage, hpost', hblock, Picture.row]

theorem storePart_eq (readFile : String → Option ByteArray) (images : ImageMap) (total : Nat)
    (done : Stored) (part : Part) (index : Nat) (hpost : (t.post? post).isSome)
    (hfree : ∀ b ∈ t.blocks, b.post = post → b.sequence < index) :
    storePart readFile images post total (t, done) (part, index) =
      match partFault readFile images total (part, index) with
      | some e => .error e
      | none => .ok
          (t.placeAll [placeOf readFile images post (t.lastBlock + 1) (t.lastImage + 1) part index],
            done.add (countOf images post [part])) := by
  by_cases hmax : maxBlocks ≤ index
  · simp [storePart, partFault, hmax]
  · have hb := insertBlock_eq part hpost hfree rfl
    cases part with
    | paragraph text =>
        simp only [kindOf, contentOf] at hb
        simp [storePart, partFault, hmax, hb, stagedOf, placeOf, countOf, Stored.add,
          Document.Part.imageId?, Except.mapError, bind, Except.bind]
    | image id =>
        simp only [kindOf, contentOf] at hb
        cases hs : images.staged? id with
        | none =>
            simp [storePart, partFault, hmax, hb, hs, stagedOf, placeOf, countOf, Stored.add,
              Document.Part.imageId?, Except.mapError, bind, Except.bind]
        | some s =>
            have hi := storeImage_eq readFile s
              (t := t.placeAll [⟨post, index, .image id, t.lastBlock + 1, none⟩]) hpost
              (show hasBlock _ (t.lastBlock + 1) by simp [hasBlock, placeAll, Place.row])
            cases hr : readFile s.path with
            | none =>
                simp [storePart, partFault, hmax, hb, hs, stagedOf, Place.row, hi, hr,
                  Except.mapError, bind, Except.bind]
            | some data =>
                simp [storePart, partFault, hmax, hb, hs, stagedOf, placeOf, countOf, Stored.add,
                  Document.Part.imageId?, Except.mapError, bind, Except.bind, Place.row, hi, hr]
                simp [placeAll, Place.row, Place.image?, kindOf, contentOf]

theorem lastImage_placeAll (p : Place) : (t.placeAll [p]).lastImage + 1 =
    if p.picture.isSome then t.lastImage + 1 + 1 else t.lastImage + 1 := by
  by_cases hp : p.picture.isSome <;> simp [placeAll, hp]

theorem foldlM_storePart (readFile : String → Option ByteArray) (images : ImageMap) (post : Int)
    (total : Nat) (parts : List Part) (index : Nat) (t : Tables) (done : Stored)
    (hpost : (t.post? post).isSome)
    (hfree : ∀ b ∈ t.blocks, b.post = post → b.sequence < index) :
    (parts.zipIdx index).foldlM (storePart readFile images post total) (t, done) =
      match (parts.zipIdx index).findSome? (partFault readFile images total) with
      | some e => .error e
      | none => .ok
          (t.placeAll (placesFrom readFile images post (t.lastBlock + 1) (t.lastImage + 1) parts
            index),
            done.add (countOf images post parts)) := by
  induction parts generalizing index t done with
  | nil => simp [placesFrom, placeAll, countOf, Stored.add, pure, Except.pure]
  | cons part parts ih =>
      rw [List.zipIdx_cons, List.foldlM_cons, storePart_eq readFile images total done part index
        hpost hfree, List.findSome?_cons]
      cases hf : partFault readFile images total (part, index) with
      | some e => rfl
      | none =>
          have hrest := ih (index + 1) (t.placeAll [placeOf readFile images post (t.lastBlock + 1)
            (t.lastImage + 1) part index]) (done.add (countOf images post [part])) hpost (by
              intro b hb he
              rcases List.mem_append.1 hb with hb | hb
              · have := hfree b hb he
                omega
              · obtain rfl := List.mem_singleton.1 hb
                simp only [Place.row, placeOf]
                omega)
          rw [lastImage_placeAll, placeAll_placeAll, Stored.add_countOf] at hrest
          exact hrest

end Tables

def partsFault (readFile : String → Option ByteArray) (images : ImageMap) (parts : List Part) :
    Option Error :=
  parts.zipIdx.findSome? (partFault readFile images parts.length)

theorem partsFault_eq (readFile : String → Option ByteArray) (images : ImageMap)
    {parts : List Part} (hlen : parts.length ≤ maxBlocks) :
    partsFault readFile images parts =
      ((parts.filterMap (stagedOf images)).find? fun s => (readFile s.path).isNone).map
        fun s => unreadableImage s.path := by
  suffices ∀ total index, index + parts.length ≤ maxBlocks →
      (parts.zipIdx index).findSome? (partFault readFile images total) =
        ((parts.filterMap (stagedOf images)).find? fun s => (readFile s.path).isNone).map
          fun s => unreadableImage s.path from this _ 0 (by omega)
  clear hlen
  intro total index hlen
  induction parts generalizing index with
  | nil => rfl
  | cons part parts ih =>
      rw [List.length_cons] at hlen
      have hindex : ¬maxBlocks ≤ index := by omega
      have ih := ih (index + 1) (by omega)
      rw [List.zipIdx_cons, List.findSome?_cons, List.filterMap_cons]
      cases hs : stagedOf images part with
      | none => simpa [partFault, hindex, hs] using ih
      | some s =>
          cases hr : readFile s.path with
          | none => simp [partFault, hindex, hs, hr]
          | some data => simpa [partFault, hindex, hs, hr] using ih

/-- A document as it is stored. -/
structure Volume where
  id : Int
  title : String
  author : Option String
  stored : Moment
  places : List Place

def Volume.post (v : Volume) : Post :=
  ⟨v.id, v.title, v.author, v.stored, v.stored⟩

def Volume.ofParts (readFile : String → Option ByteArray) (now : Moment) (p : NewPost)
    (parts : List Part) (images : ImageMap) (lastPost lastBlock lastImage : Int) : Volume :=
  ⟨lastPost + 1, p.title, p.author, now,
    placesFrom readFile images (lastPost + 1) (lastBlock + 1) (lastImage + 1) parts 0⟩

def Tables.addVolume (t : Tables) (v : Volume) : Tables :=
  { t with posts := t.posts ++ [v.post], lastPost := v.id }.placeAll v.places

theorem storePost_eq (readFile : String → Option ByteArray) (now : Moment) (p : NewPost)
    (parts : List Part) (images : ImageMap) {t : Tables} (h : t.Sound) :
    storePost readFile now p parts images t =
      if t.posts.any (·.title = p.title) then .error (.duplicateTitle p.title)
      else match partsFault readFile images parts with
        | some e => .error e
        | none => .ok (countOf images (t.lastPost + 1) parts,
            t.addVolume (.ofParts readFile now p parts images t.lastPost t.lastBlock t.lastImage)) := by
  have hnew : ∀ b ∈ t.blocks, b.post ≠ t.lastPost + 1 := by
    intro b hb he
    obtain ⟨q, hq, hid⟩ := h.block_post b hb
    have := h.post_ids.le_last q.id (List.mem_map_of_mem hq)
    omega
  by_cases htaken : t.posts.any (·.title = p.title)
  · have hsome : (t.postTitled? p.title).isSome := by simpa [Tables.postTitled?_isSome] using htaken
    simp [storePost, Tables.insertPost, hsome, htaken, Except.mapError, bind, Except.bind]
  · have hnone : t.postTitled? p.title = none := by simpa [Tables.postTitled?] using htaken
    have hparts := Tables.foldlM_storePart readFile images (t.lastPost + 1) parts.length parts 0 { t with
        posts := t.posts ++ [⟨t.lastPost + 1, p.title, p.author, now, now⟩]
        lastPost := t.lastPost + 1 } ⟨t.lastPost + 1, 0, 0, 0⟩ (by simp [Tables.post?_isSome])
      (fun b hb he => absurd he (hnew b hb))
    simp only [storePost, Tables.insertPost, hnone, htaken, Option.isSome_none, Bool.false_eq_true,
      if_false, Except.mapError, bind, Except.bind, hparts, partsFault]
    cases parts.zipIdx.findSome? (partFault readFile images parts.length) with
    | some e => rfl
    | none => simp [Stored.add, countOf, Tables.addVolume, Volume.ofParts, Volume.post]

theorem Database.change_of_reach {d : Database} {t : Tables} (ht : d.reach = .ok t) {α : Type}
    (f : Tables → Except Error (α × Tables)) :
    d.change f =
      match f t with
      | .error e => (.error e, d)
      | .ok (a, u) => (.ok a, { d with tables := some u }) := by
  cases hf : f t with
  | error e => simp only [change, ht, hf]
  | ok r => simp only [change, ht, hf]

/-- A store whose tables can be reached takes a sound post or stays as it is. -/
theorem Pool.store_eq {p : Pool} {t : Tables} (h : t.Sound) (ht : p.primary.reach = .ok t)
    (readFile : String → Option ByteArray) (now : Moment) (post : NewPost) (parts : List Part)
    (images : ImageMap) :
    p.store readFile now post parts images =
      if post.invalidFields = [] then
        if t.posts.any (·.title = post.title) then (.error (.duplicateTitle post.title), p)
        else match partsFault readFile images parts with
          | some e => (.error e, p)
          | none => (.ok (countOf images (t.lastPost + 1) parts),
              { p with primary.tables := some (t.addVolume
                (.ofParts readFile now post parts images t.lastPost t.lastBlock t.lastImage)) })
      else (.error (invalid post.invalidFields), p) := by
  by_cases hvalid : post.invalidFields = []
  · simp only [store, hvalid, change, write, Database.change_of_reach ht,
      storePost_eq readFile now post parts images h, if_true]
    by_cases htaken : t.posts.any (·.title = post.title)
    · simp only [htaken, if_true]
    · simp only [htaken, Bool.false_eq_true, if_false]
      cases partsFault readFile images parts <;> rfl
  · simp only [hvalid, if_false]
    cases hf : post.invalidFields with
    | nil => exact absurd hf hvalid
    | cons field fields => simp only [store, hf]

end Inkpress.Store
