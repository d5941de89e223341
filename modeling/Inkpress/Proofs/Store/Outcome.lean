import Inkpress.Blog
import Inkpress.Proofs.Store.Operation
import Inkpress.Proofs.Store.Volume

namespace Inkpress

open Store
open Document (Part ImageMap)

namespace Store

theorem NewPost.invalidFields_eq_nil {p : NewPost} :
    p.invalidFields = [] ↔ (1 ≤ p.title.length ∧ p.title.length ≤ 255) ∧
      ∀ a ∈ p.author, a.length ≤ 100 := by
  cases p with
  | mk title author => cases author <;> simp [invalidFields, titleFits, authorFits, and_comm]

/-- A post is refused and the store stays as it is, or the post goes in as a whole. -/
theorem Pool.store_cases {p : Pool} (h : p.primary.Sound) (readFile : String → Option ByteArray)
    (now : Moment) (post : NewPost) (parts : List Part) (images : ImageMap) :
    (∃ e, p.store readFile now post parts images = (.error e, p)) ∨
    ∃ t, p.primary.tables = some t ∧ partsFault readFile images parts = none ∧
      p.store readFile now post parts images = (.ok (countOf images (t.lastPost + 1) parts),
        { p with primary.tables := some (t.addVolume
          (.ofParts readFile now post parts images t.lastPost t.lastBlock t.lastImage)) }) := by
  cases ht : p.primary.reach with
  | error e =>
      left
      cases hfields : post.invalidFields with
      | nil =>
          refine ⟨e, ?_⟩
          simp only [store, hfields, change, write, Database.change, ht]
      | cons field fields =>
          refine ⟨invalid (field :: fields), ?_⟩
          simp only [store, hfields]
  | ok t =>
      have htables := (Database.tables_of_reach ht).1
      rw [store_eq (h t htables) ht]
      split
      · split
        · exact .inl ⟨_, rfl⟩
        · cases hfault : partsFault readFile images parts with
          | some e => exact .inl ⟨e, rfl⟩
          | none => exact .inr ⟨t, htables, rfl, rfl⟩
      · exact .inl ⟨_, rfl⟩

end Store

namespace Blog

theorem store_eq (b : Blog) (readFile : String → Option ByteArray) (now : Moment) (post : NewPost)
    (parts : List Part) (images : ImageMap) :
    (b.store readFile now post parts images).1 = (b.pool.store readFile now post parts images).1 ∧
    (b.store readFile now post parts images).2.pool =
      (b.pool.store readFile now post parts images).2 := by
  rw [store]
  split
  · next hstored => exact ⟨congrArg Prod.fst hstored.symm, congrArg Prod.snd hstored.symm⟩
  · next hstored => exact ⟨congrArg Prod.fst hstored.symm, congrArg Prod.snd hstored.symm⟩

def Request.post (r : Request) : NewPost :=
  ⟨r.title.getD (Document.defaultTitle r.path), r.author⟩

section

variable [Image.Library] (b : Blog) {r : Request} (now : Moment)
  {staging staging' : Document.Staging} {draws : Document.Draws}

theorem ingest_of_fault {fault : Document.FileFault}
    (h : Document.extractFile r.path r.source staging draws = (.error fault, staging')) :
    (b.ingest r now staging draws).result = .error (.document fault) ∧
    (b.ingest r now staging draws).blog.pool = b.pool ∧
    (b.ingest r now staging draws).staging = staging' := by
  simp only [ingest, ingestUncounted, h, and_self]

/-- An extracted document is stored; its files stay where they are, whatever becomes of it. -/
theorem ingest_of_extracted {s : Document.Progress}
    (h : Document.extractFile r.path r.source staging draws = (.ok s, staging')) :
    let stored := b.pool.store s.folder.readPath? now r.post s.done.parts s.done.images
    (b.ingest r now staging draws).result = stored.1.mapError .store ∧
    (b.ingest r now staging draws).blog.pool = stored.2 ∧
    (b.ingest r now staging draws).staging = staging' := by
  intro stored
  obtain ⟨hresult, hpool⟩ := b.store_eq s.folder.readPath? now r.post s.done.parts s.done.images
  simp only [Request.post] at hresult hpool
  simp only [ingest, ingestUncounted, h]
  cases hstore : b.store s.folder.readPath? now
      ⟨r.title.getD (Document.defaultTitle r.path), r.author⟩ s.done.parts s.done.images with
  | mk result blog =>
      rw [hstore] at hresult hpool
      cases result with
      | ok stored => exact ⟨congrArg (Except.mapError IngestFault.store) hresult, hpool, rfl⟩
      | error e => exact ⟨congrArg (Except.mapError IngestFault.store) hresult, hpool, rfl⟩

end

/-- A post that does not fit is refused before all else, then one whose title is taken, then one
with a picture that cannot be read, of which the first is named. Nothing is left of a refused post:
neither rows nor ids nor counts. -/
theorem store_outcome (b : Blog) {t : Tables} (h : Reachable b.pool) (ht : b.pool.primary.reach = .ok t)
    (readFile : String → Option ByteArray) (now : Moment) (post : NewPost) (parts : List Part)
    (images : ImageMap) (hlen : parts.length ≤ maxBlocks) :
    b.store readFile now post parts images =
      if (1 ≤ post.title.length ∧ post.title.length ≤ 255) ∧ ∀ a ∈ post.author, a.length ≤ 100 then
        if ∃ p ∈ t.posts, p.title = post.title then (.error (.duplicateTitle post.title), b)
        else match (parts.filterMap (stagedOf images)).find? fun s => (readFile s.path).isNone with
          | some s => (.error (.internal ("Failed to read staged image " ++ s.path)), b)
          | none =>
            let stored : Stored := {
              post := t.lastPost + 1
              blocks := parts.length
              images := parts.countP fun p => (stagedOf images p).isSome
              degraded := parts.countP fun p => p.imageId?.isSome && (stagedOf images p).isNone }
            (.ok stored, {
              pool := { b.pool with primary.tables := some (t.addVolume
                (.ofParts readFile now post parts images t.lastPost t.lastBlock t.lastImage)) }
              metrics := b.metrics.recordStored stored.blocks stored.images stored.degraded })
      else (.error (Pool.invalid post.invalidFields), b) := by
  have hsound := h.sound t (Database.tables_of_reach ht).1
  by_cases hfits : post.invalidFields = []
  · simp only [store, Pool.store_eq hsound ht, hfits, ← NewPost.invalidFields_eq_nil, if_true,
      partsFault_eq readFile images hlen]
    by_cases htaken : ∃ p ∈ t.posts, p.title = post.title
    · simp [htaken]
    · have hfree : t.posts.any (·.title = post.title) = false := by simpa using htaken
      simp only [htaken, hfree, Bool.false_eq_true, if_false]
      cases (parts.filterMap (stagedOf images)).find? fun s => (readFile s.path).isNone <;> rfl
  · simp only [store, Pool.store_eq hsound ht, hfits, ← NewPost.invalidFields_eq_nil, if_false]

/-- The second of two pictures cannot be read, after the post and two blocks went in. -/
theorem store_outcome_unreadable :
    let now : Moment := ⟨2025, 1, 1, 0, 0, 0, 0⟩
    let b : Blog := ⟨⟨.fresh, none⟩, .empty⟩
    let images : ImageMap := ⟨[("a", ⟨1, some ⟨"dir/a.png", "a.png", "image/png", 2, 3⟩⟩),
      ("b", ⟨2, some ⟨"dir/b.png", "b.png", "image/png", 2, 3⟩⟩)]⟩
    let parts : List Part := [.paragraph "x", .image "a", .image "b"]
    Reachable b.pool ∧ b.pool.primary.reach = .ok .empty ∧ parts.length ≤ maxBlocks ∧
      b.store (fun path => if path = "dir/a.png" then some .empty else none) now ⟨"t", none⟩ parts
        images = (.error (.internal "Failed to read staged image dir/b.png"), b) := by
  refine ⟨.fresh, rfl, by decide, ?_⟩
  rw [store_outcome _ .fresh rfl _ _ _ _ _ (by decide)]
  rfl

end Blog

end Inkpress
