import Inkpress.Proofs.Metrics
import Inkpress.Proofs.Separation
import Inkpress.Proofs.Store.Reading

namespace Inkpress

open Document (Part ImageMap)
open Store

namespace Store

def Tables.lacksImage (t : Tables) (b : Block) : Bool :=
  b.kind = .image && t.images.all (·.block ≠ some b.id)

def Tables.unlinked (t : Tables) : Nat :=
  t.blocks.countP t.lacksImage

section

variable {readFile : String → Option ByteArray} {images : ImageMap} {parts : List Part}

theorem Volume.block_of_image? {now : Moment} {post : NewPost} {lastPost lastBlock lastImage : Int}
    {i : Image} (hi : i ∈ (Volume.ofParts readFile now post parts images lastPost lastBlock
      lastImage).places.filterMap Place.image?) : ∃ id, i.block = some id ∧ lastBlock < id := by
  obtain ⟨p, hp, hi⟩ := List.mem_filterMap.1 hi
  obtain ⟨q, -, rfl⟩ := Option.map_eq_some_iff.1 hi
  obtain ⟨-, -, hblock, -⟩ := placesFrom_bounds hp
  exact ⟨p.block, rfl, by omega⟩

theorem lacksImage_addVolume {t : Tables} (h : t.Sound) (now : Moment) (post : NewPost) {b : Block}
    (hb : b ∈ t.blocks) :
    (t.addVolume (.ofParts readFile now post parts images t.lastPost t.lastBlock
      t.lastImage)).lacksImage b = t.lacksImage b := by
  have hnew : ((Volume.ofParts readFile now post parts images t.lastPost t.lastBlock
      t.lastImage).places.filterMap Place.image?).all (·.block ≠ some b.id) = true := by
    rw [List.all_eq_true]
    intro i hi
    obtain ⟨id, hid, hlt⟩ := Volume.block_of_image? hi
    have hle := h.block_ids.le_last b.id (List.mem_map_of_mem hb)
    rw [decide_eq_true_eq, hid]
    intro he
    have := Option.some.inj he
    omega
  rw [Tables.lacksImage, Tables.lacksImage]
  congr 1
  exact (List.all_append.trans (by rw [hnew, Bool.and_true]))

theorem lacksImage_row {t : Tables} (h : t.Sound) (hfault : partsFault readFile images parts = none)
    (now : Moment) (post : NewPost) {p : Place}
    (hp : p ∈ (Volume.ofParts readFile now post parts images t.lastPost t.lastBlock
      t.lastImage).places) :
    (t.addVolume (.ofParts readFile now post parts images t.lastPost t.lastBlock
      t.lastImage)).lacksImage p.row =
        (p.part.imageId?.isSome && (stagedOf images p.part).isNone) := by
  have hold : t.images.all (·.block ≠ some p.block) = true := by
    rw [List.all_eq_true]
    intro i hi
    obtain ⟨-, -, hlt, -⟩ := placesFrom_bounds hp
    rw [decide_eq_true_eq]
    intro hid
    obtain ⟨b, hb, he⟩ := h.image_block i hi p.block hid
    have hle := h.block_ids.le_last b.id (List.mem_map_of_mem hb)
    omega
  have hnew := find?_imageRow (g := .nothing) Volume.ofParts_sound.blocks hp
    (by simp only [Place.isKept, Gone.nothing, List.not_mem_nil, not_false_eq_true, decide_true])
  simp only [Place.imageRow?_nothing] at hnew
  have hpicture : p.picture.isNone = (stagedOf images p.part).isNone := by
    rw [← (Volume.ofParts_keeps hfault now post t.lastPost t.lastBlock t.lastImage).staged p hp,
      Option.isNone_map]
  have hkind : p.row.kind = kindOf p.part := BlockKind.ofName_name _
  have hpart : decide (kindOf p.part = .image) = p.part.imageId?.isSome := by
    cases p.part <;> rfl
  have himages : ((t.addVolume (.ofParts readFile now post parts images t.lastPost t.lastBlock
      t.lastImage)).images.all (·.block ≠ some p.block)) = p.picture.isNone := by
    refine List.all_append.trans ?_
    rw [hold, Bool.true_and, Bool.eq_iff_iff, List.all_eq_true, Option.isNone_iff_eq_none,
      ← Option.map_eq_none_iff (f := fun q : Picture => q.row p.post (some p.block)), ← Place.image?,
      ← hnew, List.find?_eq_none]
    simp only [decide_eq_true_eq, ne_eq]
  rw [Tables.lacksImage, hkind, hpart, ← hpicture, ← himages]
  rfl

theorem countP_places {now : Moment} {p : NewPost} {lastPost lastBlock lastImage : Int}
    {f : Place → Bool} {g : Part → Bool}
    (hfg : ∀ q ∈ (Volume.ofParts readFile now p parts images lastPost lastBlock lastImage).places,
      f q = g q.part) :
    (Volume.ofParts readFile now p parts images lastPost lastBlock lastImage).places.countP f =
      parts.countP g := by
  have hplaces : (Volume.ofParts readFile now p parts images lastPost lastBlock lastImage).places.map
      (fun p => (p.part, p.index)) = parts.zipIdx := placesFrom_parts
  have hparts := congrArg (List.map Prod.fst) hplaces
  rw [List.map_map, List.zipIdx_map_fst] at hparts
  calc (Volume.ofParts readFile now p parts images lastPost lastBlock lastImage).places.countP f
      = (Volume.ofParts readFile now p parts images lastPost lastBlock lastImage).places.countP
          fun q => g q.part := List.countP_congr fun q hq => by rw [hfg q hq]
    _ = (List.map _ _).countP g := List.countP_map.symm
    _ = parts.countP g := congrArg (List.countP g) hparts

/-- The rows that a stored document adds are as many as are counted of it. -/
theorem rows_addVolume {t : Tables} (h : t.Sound) (hfault : partsFault readFile images parts = none)
    (now : Moment) (post : NewPost) :
    let v : Volume := .ofParts readFile now post parts images t.lastPost t.lastBlock t.lastImage
    let count := countOf images (t.lastPost + 1) parts
    (t.addVolume v).posts.length = t.posts.length + 1 ∧
    (t.addVolume v).blocks.length = t.blocks.length + count.blocks ∧
    (t.addVolume v).images.length = t.images.length + count.images ∧
    (t.addVolume v).unlinked = t.unlinked + count.degraded := by
  intro v count
  have hstaged : ∀ p ∈ v.places, p.image?.isSome = (stagedOf images p.part).isSome := by
    intro p hp
    rw [← (Volume.ofParts_keeps hfault now post t.lastPost t.lastBlock t.lastImage).staged p hp,
      Place.image?, Option.isSome_map, Option.isSome_map]
  have hlacks : ∀ p ∈ v.places, ((t.addVolume v).lacksImage ∘ Place.row) p =
      (p.part.imageId?.isSome && (stagedOf images p.part).isNone) :=
    fun p hp => lacksImage_row h hfault now post hp
  refine ⟨List.length_append, ?_, ?_, ?_⟩
  · have hlength : v.places.length = parts.length := by
      have hall : v.places.countP (fun _ => true) = parts.countP fun _ => true :=
        countP_places fun _ _ => rfl
      simpa only [List.countP_true] using hall
    exact List.length_append.trans (by rw [List.length_map, hlength]; rfl)
  · refine List.length_append.trans ?_
    rw [List.length_filterMap_eq_countP,
      countP_places (g := fun part => (stagedOf images part).isSome) hstaged]
    rfl
  · calc (t.addVolume v).unlinked
        = t.blocks.countP (t.addVolume v).lacksImage +
            (v.places.map Place.row).countP (t.addVolume v).lacksImage := List.countP_append
      _ = t.unlinked + count.degraded := by
          rw [List.countP_map, Tables.unlinked,
            List.countP_congr fun b hb => by rw [lacksImage_addVolume h now post hb],
            countP_places (g := fun part => part.imageId?.isSome && (stagedOf images part).isNone)
              hlacks]
          rfl

end

end Store

namespace Metrics

/-- What was recorded of stored posts. -/
structure Stores (m : Metrics) (posts blocks images degraded : Nat) : Prop where
  posts : m.total (.counter 0) ⟨postsIngested, []⟩ = .counter posts
  blocks : m.total (.counter 0) ⟨blocksCreated, []⟩ = .counter blocks
  images : m.total (.counter 0) ⟨imagesStored, []⟩ = .counter images
  degraded : m.total (.counter 0) ⟨imagesDegraded, []⟩ = .counter degraded

structure Ingests (m : Metrics) (successes errors : Nat) : Prop where
  successes : m.total (.samples 0) ⟨ingestionDuration, [("status", "success")]⟩ = .samples successes
  errors : m.total (.samples 0) ⟨ingestionDuration, [("status", "error")]⟩ = .samples errors

variable {m : Metrics} {posts blocks images degraded successes errors : Nat}

theorem Stores.recordStored (h : m.Stores posts blocks images degraded) (b i d : Nat) :
    (m.recordStored b i d).Stores (posts + 1) (blocks + b) (images + i) (degraded + d) := by
  obtain ⟨hposts, hblocks, himages, hdegraded⟩ := h
  simp only [postsIngested, blocksCreated, imagesStored, imagesDegraded] at *
  by_cases hd : 0 < d
  · constructor <;> simp [Metrics.recordStored, hd, total_count, addTo, postsIngested, blocksCreated,
      imagesStored, imagesDegraded, hposts, hblocks, himages, hdegraded]
  · obtain rfl : d = 0 := by omega
    constructor <;> simp [Metrics.recordStored, total_count, addTo, postsIngested, blocksCreated,
      imagesStored, imagesDegraded, hposts, hblocks, himages, hdegraded]

theorem Stores.recordIngestion (h : m.Stores posts blocks images degraded) (success : Bool) :
    (m.recordIngestion success).Stores posts blocks images degraded := by
  constructor
  · simpa [Metrics.recordIngestion, total_sample, postsIngested, ingestionDuration] using h.posts
  · simpa [Metrics.recordIngestion, total_sample, blocksCreated, ingestionDuration] using h.blocks
  · simpa [Metrics.recordIngestion, total_sample, imagesStored, ingestionDuration] using h.images
  · simpa [Metrics.recordIngestion, total_sample, imagesDegraded, ingestionDuration] using h.degraded

theorem Ingests.recordStored (h : m.Ingests successes errors) (b i d : Nat) :
    (m.recordStored b i d).Ingests successes errors := by
  obtain ⟨hsuccesses, herrors⟩ := h
  by_cases hd : 0 < d
  · constructor <;> simpa [Metrics.recordStored, hd, total_count, postsIngested, blocksCreated,
      imagesStored, imagesDegraded, ingestionDuration]
  · constructor <;> simpa [Metrics.recordStored, hd, total_count, postsIngested, blocksCreated,
      imagesStored, ingestionDuration]

theorem Ingests.recordIngestion (h : m.Ingests successes errors) (success : Bool) :
    (m.recordIngestion success).Ingests (successes + success.toNat) (errors + (!success).toNat) := by
  obtain ⟨hsuccesses, herrors⟩ := h
  cases success
  · constructor <;> simp [Metrics.recordIngestion, total_sample, addTo, hsuccesses, herrors]
  · constructor <;> simp [Metrics.recordIngestion, total_sample, addTo, hsuccesses, herrors]

end Metrics

inductive Upload
  | store (readFile : String → Option ByteArray) (now : Moment) (post : NewPost)
      (parts : List Part) (images : ImageMap)
  | ingest (request : Blog.Request) (now : Moment) (staging : Document.Staging)
      (draws : Document.Draws)

def Upload.action : Upload → Action
  | store readFile now post parts images => .store readFile now post parts images
  | ingest request now staging draws => .ingest request now staging draws

/-- An upload, and whether the database is closed to it. -/
structure Turn where
  upload : Upload
  closed : Bool

def Turn.run [Image.Library] (b : Blog) (turn : Turn) : Reply × Blog :=
  turn.upload.action.run { b with pool.primary.closed := turn.closed }

def Reply.ingested? : Reply → Option Bool
  | .ingested result _ => some result.isOk
  | .stored _ | .deleted _ => none

namespace Blog

def afterTurns [Image.Library] (b : Blog) (turns : List Turn) : Blog :=
  turns.foldl (fun b turn => (turn.run b).2) b

def repliesTo [Image.Library] : Blog → List Turn → List Reply
  | _, [] => []
  | b, turn :: turns => (turn.run b).1 :: (turn.run b).2.repliesTo turns

/-- The counts are those of the rows that are there and of the ingestions that there were. -/
structure Counted (b : Blog) (t : Tables) (replies : List Reply) : Prop where
  tables : b.pool.primary.tables = some t
  sound : t.Sound
  stores : b.metrics.Stores t.posts.length t.blocks.length t.images.length t.unlinked
  ingests : b.metrics.Ingests ((replies.filterMap Reply.ingested?).count true)
    ((replies.filterMap Reply.ingested?).count false)

variable {b : Blog} {t : Tables} {replies : List Reply}

theorem Counted.store (h : b.Counted t replies) (readFile : String → Option ByteArray) (now : Moment)
    (post : NewPost) (parts : List Part) (images : ImageMap) :
    ∃ u, (b.store readFile now post parts images).2.Counted u replies := by
  have hsound : b.pool.primary.Sound := by
    intro u hu
    obtain rfl := Option.some.inj (h.tables.symm.trans hu)
    exact h.sound
  rcases Pool.store_cases hsound readFile now post parts images with
    ⟨e, hstore⟩ | ⟨u, hu, hfault, hstore⟩
  · refine ⟨t, ?_⟩
    rw [Blog.store, hstore]
    exact ⟨h.tables, h.sound, h.stores, h.ingests⟩
  · obtain rfl := Option.some.inj (h.tables.symm.trans hu)
    obtain ⟨hposts, hblocks, himages, hunlinked⟩ := rows_addVolume h.sound hfault now post
    have hsound := (Operation.store readFile now post parts images).run_sound hsound
    simp only [Operation.run, hstore] at hsound
    refine ⟨t.addVolume (.ofParts readFile now post parts images t.lastPost t.lastBlock t.lastImage), ?_⟩
    rw [Blog.store, hstore]
    refine ⟨rfl, hsound _ rfl, ?_, h.ingests.recordStored _ _ _⟩
    rw [hposts, hblocks, himages, hunlinked]
    exact h.stores.recordStored _ _ _

theorem Counted.ingested (h : b.Counted t replies) (result : Except IngestFault Stored)
    (staging : Document.Staging) :
    Counted { b with metrics := b.metrics.recordIngestion result.isOk } t
      (replies ++ [Reply.ingested result staging]) := by
  refine ⟨h.tables, h.sound, h.stores.recordIngestion _, ?_⟩
  have hcount := h.ingests.recordIngestion result.isOk
  rw [List.filterMap_append, List.count_append, List.count_append]
  cases hok : result.isOk with
  | true => simpa [Reply.ingested?, hok] using hcount
  | false => simpa [Reply.ingested?, hok] using hcount

theorem Counted.ingest [Image.Library] (h : b.Counted t replies) (request : Request) (now : Moment)
    (staging : Document.Staging) (draws : Document.Draws) :
    ∃ u, (b.ingest request now staging draws).blog.Counted u (replies ++
      [.ingested (b.ingest request now staging draws).result
        (b.ingest request now staging draws).staging]) := by
  have huncounted : ∃ u, (b.ingestUncounted request now staging draws).blog.Counted u replies := by
    rw [ingestUncounted]
    cases Document.extractFile request.path request.source staging draws with
    | mk result staging' =>
        cases result with
        | error fault => exact ⟨t, h⟩
        | ok s =>
            obtain ⟨u, hu⟩ := h.store s.folder.readPath? now
              ⟨request.title.getD (Document.defaultTitle request.path), request.author⟩ s.done.parts
              s.done.images
            refine ⟨u, ?_⟩
            simp only
            cases hstore : b.store s.folder.readPath? now
                ⟨request.title.getD (Document.defaultTitle request.path), request.author⟩ s.done.parts
                s.done.images with
            | mk stored blog =>
                rw [hstore] at hu
                cases stored with
                | ok stored => exact hu
                | error e => exact hu
  obtain ⟨u, hu⟩ := huncounted
  exact ⟨u, hu.ingested _ _⟩

theorem Counted.turn [Image.Library] (h : b.Counted t replies) (turn : Turn) :
    ∃ u, (turn.run b).2.Counted u (replies ++ [(turn.run b).1]) := by
  obtain ⟨upload, closed⟩ := turn
  have h : Counted { b with pool.primary.closed := closed } t replies :=
    ⟨h.tables, h.sound, h.stores, h.ingests⟩
  cases upload with
  | store readFile now post parts images =>
      obtain ⟨u, hu⟩ := h.store readFile now post parts images
      refine ⟨u, hu.tables, hu.sound, hu.stores, ?_⟩
      rw [List.filterMap_append]
      exact (List.append_nil _).symm ▸ hu.ingests
  | ingest request now staging draws => exact h.ingest request now staging draws

theorem Counted.turns [Image.Library] (h : b.Counted t replies) (turns : List Turn) :
    ∃ u, (b.afterTurns turns).Counted u (replies ++ b.repliesTo turns) := by
  induction turns generalizing b t replies with
  | nil => exact ⟨t, (List.append_nil replies).symm ▸ h⟩
  | cons turn turns ih =>
      obtain ⟨u, hu⟩ := h.turn turn
      obtain ⟨v, hv⟩ := ih hu
      rw [List.append_assoc] at hv
      exact ⟨v, hv⟩

theorem counted_fresh (replica : Option Database) : Counted ⟨⟨.fresh, replica⟩, .empty⟩ .empty [] where
  tables := rfl
  sound := Tables.sound_empty
  stores := ⟨rfl, rfl, rfl, rfl⟩
  ingests := ⟨rfl, rfl⟩

/-- However a run of uploads into tables that were just made goes, with the database reached or not: the
counters are the numbers of posts, of blocks, of images, and of image blocks that no image is linked
to; and of the ingestions that there were, each gave one sample, by whether it succeeded. -/
theorem counters_agree [Image.Library] (replica : Option Database) (turns : List Turn) :
    let start : Blog := ⟨⟨.fresh, replica⟩, .empty⟩
    let m := (start.afterTurns turns).metrics
    let ingested := (start.repliesTo turns).filterMap Reply.ingested?
    ∃ t, (start.afterTurns turns).pool.primary.tables = some t ∧
      m.counter Metrics.postsIngested [] = t.posts.length ∧
      m.counter Metrics.blocksCreated [] = t.blocks.length ∧
      m.counter Metrics.imagesStored [] = t.images.length ∧
      m.counter Metrics.imagesDegraded [] = t.blocks.countP (fun b =>
        b.kind = .image ∧ ∀ i ∈ t.images, i.block ≠ some b.id) ∧
      m.samples Metrics.ingestionDuration [("status", "success")] = ingested.count true ∧
      m.samples Metrics.ingestionDuration [("status", "error")] = ingested.count false := by
  intro start m ingested
  obtain ⟨t, ht⟩ := (counted_fresh replica).turns turns
  have hunlinked : t.unlinked = t.blocks.countP (fun b =>
      b.kind = .image ∧ ∀ i ∈ t.images, i.block ≠ some b.id) := by
    rw [Tables.unlinked]
    refine List.countP_congr ?_
    intro b hb
    simp only [Tables.lacksImage, Bool.and_eq_true, decide_eq_true_eq, List.all_eq_true]
  refine ⟨t, ht.tables, ?_, ?_, ?_, ?_, ?_, ?_⟩
  · exact Metrics.counter_of_total ht.stores.posts
  · exact Metrics.counter_of_total ht.stores.blocks
  · exact Metrics.counter_of_total ht.stores.images
  · rw [← hunlinked]
    exact Metrics.counter_of_total ht.stores.degraded
  · exact Metrics.samples_of_total ht.ingests.successes
  · exact Metrics.samples_of_total ht.ingests.errors

end Blog

end Inkpress
