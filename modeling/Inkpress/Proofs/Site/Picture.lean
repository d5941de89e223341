import Inkpress.Proofs.Site.Segment
import Inkpress.Proofs.Store.Integrity
import Inkpress.Proofs.Store.Interleaving

namespace Inkpress

open Document (ImageMap)

namespace Store

namespace Tables

variable {t : Tables}

theorem Linked.inj (h : t.Linked) {i j : Image} (hi : i ∈ t.images) (hj : j ∈ t.images) {id : Int}
    (hid : i.block = some id) (hjd : j.block = some id) : i = j := by
  have : Std.Symm fun i j : Image => ∀ id, i.block = some id → j.block ≠ some id :=
    ⟨fun _ _ hij id hjd hid => hij id hid hjd⟩
  by_contra hne
  exact h.apart.forall hi hj hne id hid hjd

theorem Linked.shown? (h : t.Linked) {i : Image} (hi : i ∈ t.images) {b : Block}
    (hkind : b.kindName = "image") (hlink : i.block = some b.id) :
    shown? (t.imagesOf i.post) b = some i := by
  have himage : b.kind = .image := by rw [Block.kind, hkind]; rfl
  rw [Tables.shown?, if_pos himage]
  apply find?_of_unique (mem_imagesOf.2 ⟨hi, rfl⟩) (by simp [hlink])
  intro j hj hjb
  exact h.inj (mem_imagesOf.1 hj).1 hi (of_decide_eq_true hjb) hlink

/-- Of the blocks in a detail, just one has the place of a linked image's block, and it shows the
image. -/
theorem Linked.detail? (h : t.Linked) (ht : t.Sound) {i : Image} (hi : i ∈ t.images) {id : Int}
    (hid : i.block = some id) :
    ∃ b ∈ t.blocks, b.id = id ∧ b.post = i.post ∧ ∃ d, t.detail? i.post = some d ∧
      d.blocks.filter (·.sequence = b.sequence) = [.of b (some i)] := by
  obtain ⟨b, hb, rfl, hpost, hkind⟩ := h.own i hi id hid
  obtain ⟨p, hp, hpid⟩ := ht.image_post i hi
  refine ⟨b, hb, rfl, hpost, assemble p (t.blocksOf i.post) (t.imagesOf i.post), ?_, ?_⟩
  · rw [Tables.detail?, ← hpid, ht.post?_of_mem hp, Option.map_some]
  · have hplace := filter_of_pairwise (ht.blocksOf_increasing i.post)
      (mem_blocksOf.2 ⟨hb, hpost⟩)
    calc (assemble p (t.blocksOf i.post) (t.imagesOf i.post)).blocks.filter
          (·.sequence = b.sequence)
        = ((t.blocksOf i.post).filter (·.sequence = b.sequence)).map fun c =>
            .of c (Tables.shown? (t.imagesOf i.post) c) := List.filter_map
      _ = [.of b (some i)] := by
          rw [hplace, List.map_singleton, h.shown? hi hkind hid]

end Tables

end Store

namespace Site

open Text (Base64.encode Base64.decode?)

def Request.get (path : List Char) (query : Option (List Char))
    (headers : List (String × String)) : Request :=
  ⟨"GET", ⟨path, query⟩, headers⟩

def Response.contentTypes (r : Response) : List String :=
  (r.headers.filter (·.1 = "content-type")).map (·.2)

/-- An answer with further headers, none of which is a content type. -/
structure Response.Extends (answer plain : Response) : Prop where
  status : answer.status = plain.status
  body : answer.body = plain.body
  contentTypes : answer.contentTypes = plain.contentTypes

variable {b : Blog} {path : List Char}

theorem counted_fst (route : Route) (method : String) (answer : Response × Blog) :
    (counted route method answer).1 = answer.1 := by
  rw [counted]
  split <;> rfl

theorem Response.contentTypes_header (r : Response) {name : String} (value : String)
    (hname : name ≠ "content-type") : (r.header (name, value)).contentTypes = r.contentTypes := by
  simp [contentTypes, header, hname]

theorem handle_get (b : Blog) (origin newId : String) {route : Route}
    (hroute : Route.ofPath? path = some route) (query : Option (List Char))
    (headers : List (String × String)) :
    (handle b origin newId (.get path query headers)).1.Extends
      (routeResponse b ⟨path, query⟩ route).1 := by
  have hrespond : (respond b (.get path query headers)).1 =
      (routeResponse b ⟨path, query⟩ route).1 := by
    have hmethod : ¬"GET" = "OPTIONS" := by decide
    simp only [respond, Request.get, hmethod, if_false, hroute, counted_fst, routed, if_true]
  simp only [handle, hrespond]
  refine ⟨rfl, rfl, ?_⟩
  rw [Response.contentTypes_header _ _ (by decide), Response.contentTypes_header _ _ (by decide),
    Response.contentTypes_header _ _ (by decide)]

theorem handle_image {i : Store.Image} (hid : IsId i.id) (hi : b.pool.image i.id = .ok i)
    (origin newId : String) (query : Option (List Char)) (headers : List (String × String)) :
    (handle b origin newId (.get (Route.imagePath i.id) query headers)).1.Extends
      (imageBytes i) := by
  have hresponse : (imageResponse b (toString i.id).toList).1 = imageBytes i := by
    simp only [imageResponse, idOf?_toString hid, hi]
  exact hresponse ▸ handle_get b origin newId (Route.ofPath?_imagePath i.id) query headers

theorem handle_post {id : Int} (hid : IsId id) {d : Store.Detail} (hd : b.pool.detail id = .ok d)
    (origin newId : String) (query : Option (List Char)) (headers : List (String × String)) :
    (handle b origin newId (.get (Route.postPath id) query headers)).1.Extends
      (.json 200 d.toJson) := by
  have hresponse : postResponse b (toString id).toList = .json 200 d.toJson := by
    simp only [postResponse, idOf?_toString hid, hd]
  exact hresponse ▸ handle_get b origin newId (Route.ofPath?_postPath id) query headers

theorem member?_imageData (c : Store.Block) (i : Store.Image) :
    (Store.BlockView.of c (some i)).toJson.member? "image_data" =
      some (.text ("data:" ++ i.shownContentType ++ ";base64," ++ Base64.encode i.data)) := by
  simp [Store.BlockView.of, Store.BlockView.toJson, Store.Payload.members, Json.member?,
    Store.Payload.ofImage, Store.inlineData]

theorem imageBytes_cases (i : Store.Image) :
    if i.shownContentType.toList.all Response.isHeaderChar then
      (imageBytes i).status = 200 ∧ (imageBytes i).body = i.data ∧
        (imageBytes i).contentTypes = [i.shownContentType]
    else (imageBytes i).status = 500 ∧
      (imageBytes i).body = "failed to parse header value".toUTF8 := by
  rw [imageBytes]
  split
  · exact ⟨rfl, rfl, rfl⟩
  · exact ⟨rfl, rfl⟩

/-- A linked picture by itself is its bytes under its content type where that can stand in a header,
and else an error. In its post it is the same bytes under the same content type in either case. -/
theorem handle_picture {ops : List Store.Operation}
    (hb : b.pool = Store.Operation.runAll ⟨.fresh, none⟩ ops) {t : Store.Tables}
    (ht : b.pool.primary.reach = .ok t) {i : Store.Image} (hi : i ∈ t.images) {block : Int}
    (hblock : i.block = some block) (hid : i.id < 2147483648) (hpost : i.post < 2147483648)
    (origin newId : String) (query : Option (List Char)) (headers : List (String × String)) :
    let answer (path : List Char) := (handle b origin newId (.get path query headers)).1
    let alone := answer (Route.imagePath i.id)
    let inPost := answer (Route.postPath i.post)
    (if i.shownContentType.toList.all Response.isHeaderChar then
      alone.status = 200 ∧ alone.body = i.data ∧ alone.contentTypes = [i.shownContentType]
    else alone.status = 500 ∧ alone.body = "failed to parse header value".toUTF8) ∧
    ∃ c ∈ t.blocks, c.id = block ∧ c.post = i.post ∧ ∃ d v, b.pool.detail i.post = .ok d ∧
      inPost.status = 200 ∧ inPost.body = d.toJson.render.toUTF8 ∧
      d.blocks.filter (·.sequence = c.sequence) = [v] ∧
      v.toJson.member? "image_data" =
        some (.text ("data:" ++ i.shownContentType ++ ";base64," ++ Base64.encode i.data)) ∧
      Base64.decode? (Base64.encode i.data) = some i.data := by
  intro answer alone inPost
  obtain ⟨u, hu, hreplica, hsound, hlater, -⟩ := Store.Operation.runAll_tables
    Store.Tables.sound_empty (p := ⟨.fresh, none⟩) rfl ops
  rw [← hb] at hu hreplica
  obtain rfl : u = t := Except.ok.inj (hu.symm.trans ht)
  have hlinked : u.Linked := Store.Operation.runAll_linked (hb ▸ ht)
  obtain ⟨p, hp, hpid⟩ := hsound.image_post i hi
  refine ⟨?_, ?_⟩
  · have himage : b.pool.image i.id = .ok i := by
      simp only [Store.Pool.image, Store.Pool.read, Store.Pool.reader, hreplica, Option.getD_none,
        Store.Database.read, ht, Except.map, bind, Except.bind, hsound.image?_of_mem hi]
    have hpos := hlater.image_pos hi
    have hextends := handle_image ⟨by omega, hid⟩ himage origin newId query headers
    simp only [alone, answer, hextends.status, hextends.body, hextends.contentTypes]
    exact imageBytes_cases i
  · obtain ⟨c, hc, hcid, hcpost, d, hd, hplace⟩ := hlinked.detail? hsound hi hblock
    have hdetail : b.pool.detail i.post = .ok d := by
      rw [Store.Pool.detail_eq hreplica ht, hd]
    have hpos := hlater.post_pos hp
    have hextends := handle_post ⟨by omega, hpost⟩ hdetail origin newId query headers
    refine ⟨c, hc, hcid, hcpost, d, .of c (some i), hdetail, hextends.status, hextends.body, hplace,
      member?_imageData c i, Text.Base64.decode?_encode i.data⟩

theorem handle_picture_png :
    let now : Moment := ⟨2025, 1, 1, 0, 0, 0, 0⟩
    let images : ImageMap := ⟨[("a", ⟨1, some ⟨"dir/pic.png", "pic.png", "image/png", 640, 480⟩⟩)]⟩
    let store : Store.Operation :=
      .store (fun _ => some "body".toUTF8) now ⟨"t", none⟩ [.image "a"] images
    let b : Blog := ⟨Store.Operation.runAll ⟨.fresh, none⟩ [store], .empty⟩
    let answer (path : String) := (handle b "*" "id" (.get path.toList none [])).1
    let alone := answer "/api/blog/image/1"
    let inPost := answer "/api/blog/1"
    alone.status = 200 ∧ alone.body = "body".toUTF8 ∧ alone.contentTypes = ["image/png"] ∧
      ∃ (d : Store.Detail) (v : Store.BlockView), inPost.status = 200 ∧
        inPost.body = d.toJson.render.toUTF8 ∧ v ∈ d.blocks ∧ v.toJson.member? "image_data" =
          some (.text ("data:image/png;base64," ++ Base64.encode "body".toUTF8)) := by
  intro now images store b answer alone inPost
  have hb : b.pool = Store.Operation.runAll ⟨.fresh, none⟩ [store] := rfl
  obtain ⟨halone, c, -, -, -, d, v, -, hstatus, hbody, hplace, hdata, -⟩ :=
    handle_picture hb rfl (i := ⟨1, 1, some 1, "pic.png", "body".toUTF8, some "image/png",
      some 640, some 480⟩) List.mem_cons_self rfl (by decide) (by decide) "*" "id" none []
  rw [if_pos (by decide)] at halone
  have hv : v ∈ d.blocks := List.mem_of_mem_filter (hplace ▸ List.mem_cons_self)
  exact ⟨halone.1, halone.2.1, halone.2.2, d, v, hstatus, hbody, hv, hdata⟩

/-- A picture whose content type has a character that no header takes. -/
theorem handle_picture_line_break :
    let now : Moment := ⟨2025, 1, 1, 0, 0, 0, 0⟩
    let images : ImageMap := ⟨[("a", ⟨1, some ⟨"dir/pic.png", "pic.png", "bad\nvalue", 640, 480⟩⟩)]⟩
    let store : Store.Operation :=
      .store (fun _ => some "body".toUTF8) now ⟨"t", none⟩ [.image "a"] images
    let b : Blog := ⟨Store.Operation.runAll ⟨.fresh, none⟩ [store], .empty⟩
    let answer (path : String) := (handle b "*" "id" (.get path.toList none [])).1
    ∃ t i, b.pool.primary.reach = .ok t ∧ t.images = [i] ∧ i.block = some 1 ∧ i.id = 1 ∧
      i.post = 1 ∧ i.data = "body".toUTF8 ∧ i.shownContentType = "bad\nvalue" ∧
      (answer "/api/blog/image/1").status = 500 ∧ (answer "/api/blog/1").status = 200 := by
  intro now images store b answer
  have hid : IsId 1 := ⟨by decide, by decide⟩
  have himage := handle_image (b := b) (i := ⟨1, 1, some 1, "pic.png", "body".toUTF8,
    some "bad\nvalue", some 640, some 480⟩) hid rfl "*" "id" none []
  have hpost := handle_post (b := b) hid rfl "*" "id" none []
  exact ⟨_, _, rfl, rfl, rfl, rfl, rfl, rfl, rfl, himage.status, hpost.status⟩

end Site

end Inkpress
