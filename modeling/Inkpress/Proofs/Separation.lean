import Inkpress.Image.Header
import Inkpress.Proofs.Site.Picture
import Inkpress.Proofs.Store.Integrity
import Inkpress.Proofs.Store.Outcome

namespace Inkpress

open Document (Part ImageMap)
open Store

namespace Store

/-- What an operation answers and makes of tables. -/
def Operation.apply (t : Tables) : Operation → Except Error (Answer × Tables)
  | store readFile now post parts images =>
    match post.invalidFields with
    | [] => (storePost readFile now post parts images t).map fun (s, t) => (.stored s, t)
    | fields => .error (Pool.invalid fields)
  | deletePost title => .ok (.found (t.deletePost title).1, (t.deletePost title).2)
  | deleteBlock id => .ok (.found (t.deleteBlock id).1, (t.deleteBlock id).2)
  | deleteImage id => .ok (.found (t.deleteImage id).1, (t.deleteImage id).2)
  | createAll => .ok (.done, t)

def Tables.commit (t : Tables) (op : Operation) : Tables :=
  match op.apply t with
  | .ok (_, u) => u
  | .error _ => t

theorem Operation.run_of_reach {p : Pool} {t : Tables} (ht : p.primary.reach = .ok t)
    (op : Operation) :
    (op.run p).1 = (op.apply t).map (·.1) ∧ (op.run p).2.primary.reach = .ok (t.commit op) := by
  cases op with
  | store readFile now post parts images =>
      simp only [run, Pool.store, apply, Tables.commit]
      cases post.invalidFields with
      | cons field fields => exact ⟨rfl, ht⟩
      | nil =>
          simp only [Pool.change, Pool.write, Database.change_of_reach ht]
          cases storePost readFile now post parts images t with
          | error e => exact ⟨rfl, ht⟩
          | ok r => exact ⟨rfl, Database.reach_write ht _⟩
  | deletePost title =>
      simp only [run, Pool.deletePost, Pool.change, Pool.write, Database.change_of_reach ht]
      exact ⟨rfl, Database.reach_write ht _⟩
  | deleteBlock id =>
      simp only [run, Pool.deleteBlock, Pool.change, Pool.write, Database.change_of_reach ht]
      exact ⟨rfl, Database.reach_write ht _⟩
  | deleteImage id =>
      simp only [run, Pool.deleteImage, Pool.change, Pool.write, Database.change_of_reach ht]
      exact ⟨rfl, Database.reach_write ht _⟩
  | createAll =>
      obtain ⟨htables, hopen⟩ := Database.tables_of_reach ht
      simp only [run, Pool.write, Database.createAll, htables, hopen, Bool.false_eq_true, if_false]
      exact ⟨rfl, rfl⟩

theorem Operation.run_of_unreached {p : Pool} {e : Error} (he : p.primary.reach = .error e)
    {op : Operation} (hop : op ≠ .createAll) : (op.run p).2 = p := by
  cases op with
  | store readFile now post parts images =>
      simp only [run, Pool.store, Pool.change, Pool.write, Database.change, he]
      cases post.invalidFields <;> rfl
  | deletePost title => simp only [run, Pool.deletePost, Pool.change, Pool.write, Database.change, he]
  | deleteBlock id => simp only [run, Pool.deleteBlock, Pool.change, Pool.write, Database.change, he]
  | deleteImage id => simp only [run, Pool.deleteImage, Pool.change, Pool.write, Database.change, he]
  | createAll => exact absurd rfl hop

/-- What is there after some operations is what they committed, one after the other. -/
theorem Operation.reach_runAll (p : Pool) {ops : List Operation} (hops : ∀ op ∈ ops, op ≠ .createAll) :
    (runAll p ops).primary.reach = p.primary.reach.map fun t => ops.foldl Tables.commit t := by
  induction ops generalizing p with
  | nil =>
      simp only [runAll, List.foldl_nil]
      cases p.primary.reach <;> rfl
  | cons op ops ih =>
      obtain ⟨hop, hops⟩ := List.forall_mem_cons.1 hops
      rw [runAll, List.foldl_cons, ← runAll, ih _ hops]
      cases hreach : p.primary.reach with
      | error e => rw [run_of_unreached hreach hop, hreach]; rfl
      | ok t => rw [(op.run_of_reach hreach).2]; rfl

structure Readings where
  list : Except Error (List Summary)
  detail : Int → Except Error Detail
  find : Int → Except Error (Option Post)
  findTitled : String → Except Error (Option Post)
  count : Except Error Nat
  image : Int → Except Error Image
  blocksOf : Int → Except Error (List Block)
  imagesOf : Int → Except Error (List Image)

def Pool.readings (p : Pool) : Readings where
  list := p.list
  detail := p.detail
  find := p.find
  findTitled := p.findTitled
  count := p.postCount
  image := p.image
  blocksOf := p.blocksOf
  imagesOf := p.imagesOf

def Readings.of (tables : Except Error Tables) : Readings where
  list := tables.map (·.summaries)
  detail id := tables.bind fun t => (t.detail? id).elim (.error (.postNotFound id)) .ok
  find id := tables.map (·.post? id)
  findTitled title := tables.map (·.postTitled? title)
  count := tables.map (·.posts.length)
  image id := tables.bind fun t => (t.image? id).elim (.error (.imageNotFound id)) .ok
  blocksOf post := tables.map (·.blocksOf post)
  imagesOf post := tables.map (·.imagesOf post)

theorem Pool.readings_eq (p : Pool) : p.readings = .of p.reader.reach := by
  have hdetail (id : Int) : p.detail id =
      p.reader.reach.bind fun t => (t.detail? id).elim (.error (.postNotFound id)) .ok := by
    simp only [detail, find, blocksOf, imagesOf, read, Database.read, Tables.detail?]
    cases p.reader.reach with
    | error e => rfl
    | ok t => cases h : t.post? id <;> simp [Except.map, bind, Except.bind, h]
  have himage (id : Int) : p.image id =
      p.reader.reach.bind fun t => (t.image? id).elim (.error (.imageNotFound id)) .ok := by
    simp only [image, read, Database.read]
    cases p.reader.reach with
    | error e => rfl
    | ok t => cases h : t.image? id <;> simp [Except.map, bind, Except.bind, h]
  rw [readings, Readings.of, Readings.mk.injEq]
  exact ⟨rfl, funext hdetail, rfl, rfl, rfl, funext himage, rfl, rfl⟩

end Store

/-- What may write. -/
inductive Action
  | store (readFile : String → Option ByteArray) (now : Moment) (post : NewPost)
      (parts : List Part) (images : ImageMap)
  | ingest (request : Blog.Request) (now : Moment) (staging : Document.Staging)
      (draws : Document.Draws)
  | deletePost (title : String)
  | deleteBlock (id : Int)
  | deleteImage (id : Int)

inductive Reply
  | stored (result : Except Error Stored)
  | ingested (result : Except IngestFault Stored) (staging : Document.Staging)
  | deleted (result : Except Error Bool)

namespace Action

variable [Image.Library]

def run (b : Blog) : Action → Reply × Blog
  | store readFile now post parts images =>
    let (r, b) := b.store readFile now post parts images
    (.stored r, b)
  | ingest request now staging draws =>
    let i := b.ingest request now staging draws
    (.ingested i.result i.staging, i.blog)
  | deletePost title =>
    let (r, pool) := b.pool.deletePost title
    (.deleted r, { b with pool })
  | deleteBlock id =>
    let (r, pool) := b.pool.deleteBlock id
    (.deleted r, { b with pool })
  | deleteImage id =>
    let (r, pool) := b.pool.deleteImage id
    (.deleted r, { b with pool })

def operations : Action → List Operation
  | store readFile now post parts images => [.store readFile now post parts images]
  | ingest request now staging draws =>
    match (Document.extractFile request.path request.source staging draws).1 with
    | .ok s => [.store s.folder.readPath? now request.post s.done.parts s.done.images]
    | .error _ => []
  | deletePost title => [.deletePost title]
  | deleteBlock id => [.deleteBlock id]
  | deleteImage id => [.deleteImage id]

theorem pool_run (b : Blog) (a : Action) : (a.run b).2.pool = Operation.runAll b.pool a.operations := by
  cases a with
  | store readFile now post parts images => exact (b.store_eq readFile now post parts images).2
  | ingest request now staging draws =>
      simp only [run, operations]
      cases hextract : Document.extractFile request.path request.source staging draws with
      | mk result staging' =>
          cases result with
          | error fault => exact (b.ingest_of_fault now hextract).2.1
          | ok s => exact (b.ingest_of_extracted now hextract).2.1
  | deletePost title => rfl
  | deleteBlock id => rfl
  | deleteImage id => rfl

theorem ne_createAll_of_mem_operations (a : Action) : ∀ op ∈ a.operations, op ≠ .createAll := by
  intro op hop
  cases a with
  | ingest request now staging draws =>
      simp only [operations] at hop
      split at hop
      · obtain rfl := List.mem_singleton.1 hop
        exact Operation.noConfusion
      · cases hop
  | _ =>
      obtain rfl := List.mem_singleton.1 hop
      exact Operation.noConfusion

theorem reply_congr {b c : Blog} (h : b.pool.primary = c.pool.primary) (a : Action) :
    (a.run b).1 = (a.run c).1 := by
  have hstore (readFile : String → Option ByteArray) (now : Moment) (post : NewPost)
      (parts : List Part) (images : ImageMap) : (b.pool.store readFile now post parts images).1 =
        (c.pool.store readFile now post parts images).1 := by
    have hreplica := congrArg Prod.fst
      (b.pool.store_replica c.pool.replica readFile now post parts images)
    rw [h] at hreplica
    exact hreplica.symm
  cases a with
  | store readFile now post parts images =>
      simp only [run, (b.store_eq readFile now post parts images).1,
        (c.store_eq readFile now post parts images).1, hstore]
  | ingest request now staging draws =>
      simp only [run]
      cases hextract : Document.extractFile request.path request.source staging draws with
      | mk result staging' =>
          cases result with
          | error fault =>
              obtain ⟨hb, -, hbs⟩ := b.ingest_of_fault now hextract
              obtain ⟨hc, -, hcs⟩ := c.ingest_of_fault now hextract
              rw [hb, hc, hbs, hcs]
          | ok s =>
              obtain ⟨hb, -, hbs⟩ := b.ingest_of_extracted now hextract
              obtain ⟨hc, -, hcs⟩ := c.ingest_of_extracted now hextract
              rw [hb, hc, hbs, hcs, hstore]
  | deletePost title => simp only [run, Pool.deletePost, Pool.change, Pool.write, h]
  | deleteBlock id => simp only [run, Pool.deleteBlock, Pool.change, Pool.write, h]
  | deleteImage id => simp only [run, Pool.deleteImage, Pool.change, Pool.write, h]

end Action

namespace Blog

variable [Image.Library]

def after (b : Blog) (actions : List Action) : Blog :=
  actions.foldl (fun b a => (a.run b).2) b

def replies : Blog → List Action → List Reply
  | _, [] => []
  | b, a :: actions => (a.run b).1 :: (a.run b).2.replies actions

theorem pool_after (b : Blog) (actions : List Action) :
    (b.after actions).pool = Operation.runAll b.pool (actions.flatMap Action.operations) := by
  induction actions generalizing b with
  | nil => rfl
  | cons a actions ih =>
      rw [after, List.foldl_cons, ← after, ih, a.pool_run, List.flatMap_cons,
        Operation.runAll_append]

theorem replies_congr {b c : Blog} (h : b.pool.primary = c.pool.primary) (actions : List Action) :
    b.replies actions = c.replies actions := by
  induction actions generalizing b c with
  | nil => rfl
  | cons a actions ih =>
      have hnext : (a.run b).2.pool.primary = (a.run c).2.pool.primary := by
        rw [a.pool_run, a.pool_run, Operation.primary_runAll h]
      rw [replies, replies, a.reply_congr h, ih hnext]

end Blog

namespace Site

/-- An answer is made of what can be read, except for whether the databases can be reached. -/
theorem handle_congr {b c : Blog} (h : b.pool.readings = c.pool.readings) {r : Request}
    (hroute : Route.ofPath? r.address.path ≠ some .ready) (origin newId : String) :
    (handle b origin newId r).1 = (handle c origin newId r).1 := by
  have hlist : b.pool.list = c.pool.list := congrArg Readings.list h
  have hdetail : b.pool.detail = c.pool.detail := congrArg Readings.detail h
  have himage : b.pool.image = c.pool.image := congrArg Readings.image h
  have hresponse {route : Route} (hne : route ≠ .ready) (a : Address) :
      (routeResponse b a route).1 = (routeResponse c a route).1 := by
    cases route with
    | ready => exact absurd rfl hne
    | posts => simp only [routeResponse, postsResponse, hlist]
    | post segment => simp only [routeResponse, postResponse, hdetail]
    | image segment =>
        -- Serving an image counts it, but the count does not get into the answer.
        simp only [routeResponse, imageResponse, himage]
        cases idOf? segment with
        | none => rfl
        | some id =>
            simp only
            cases c.pool.image id with
            | ok i => rfl
            | error e => cases e <;> rfl
    | _ => rfl
  have hrespond : (respond b r).1 = (respond c r).1 := by
    simp only [respond]
    split
    · rfl
    · cases hr : Route.ofPath? r.address.path with
      | none => rfl
      | some route =>
          have hne : route ≠ .ready := fun he => hroute (hr.trans (congrArg some he))
          simp only [counted_fst, routed]
          split
          · exact hresponse hne _
          · split
            · exact congrArg Response.withoutBody (hresponse hne _)
            · rfl
  simp only [handle, hrespond]

end Site

namespace Blog

/-- What is written, and what the writers are told, is a matter of the primary alone; a replica stays
as it is. What is read, and what the site answers from it, is a matter of the replica alone. Without a
replica a reader sees all that was committed so far. -/
theorem reads_writes_separate [Image.Library] (b c : Blog) :
    (b.pool.primary = c.pool.primary → ∀ actions,
      b.replies actions = c.replies actions ∧
      (b.after actions).pool.primary = (c.after actions).pool.primary ∧
      (b.after actions).pool.replica = b.pool.replica ∧
      (c.after actions).pool.replica = c.pool.replica) ∧
    (∀ replica, b.pool.replica = some replica → c.pool.replica = some replica →
      ∀ actions actions', (b.after actions).pool.readings = (c.after actions').pool.readings ∧
        ∀ r origin newId, Site.Route.ofPath? r.address.path ≠ some .ready →
          (Site.handle (b.after actions) origin newId r).1 =
            (Site.handle (c.after actions') origin newId r).1) ∧
    (b.pool.replica = none → ∀ actions, (b.after actions).pool.readings =
      .of (b.pool.primary.reach.map fun t =>
        (actions.flatMap Action.operations).foldl Tables.commit t)) := by
  have hkept (b : Blog) (actions : List Action) : (b.after actions).pool.replica = b.pool.replica := by
    rw [pool_after, Operation.replica_runAll]
  refine ⟨?_, ?_, ?_⟩
  · intro h actions
    refine ⟨replies_congr h actions, ?_, hkept b actions, hkept c actions⟩
    rw [pool_after, pool_after, Operation.primary_runAll h]
  · intro replica hb hc actions actions'
    have hreader {b : Blog} (hb : b.pool.replica = some replica) (actions : List Action) :
        (b.after actions).pool.reader = replica := by
      rw [Pool.reader, hkept, hb, Option.getD_some]
    have hreadings : (b.after actions).pool.readings = (c.after actions').pool.readings := by
      rw [Pool.readings_eq, Pool.readings_eq, hreader hb, hreader hc]
    refine ⟨hreadings, ?_⟩
    intro r origin newId hroute
    exact Site.handle_congr hreadings hroute origin newId
  · intro hnone actions
    have hops : ∀ op ∈ actions.flatMap Action.operations, op ≠ .createAll := by
      intro op hop
      obtain ⟨a, -, hop⟩ := List.mem_flatMap.1 hop
      exact a.ne_createAll_of_mem_operations op hop
    rw [Pool.readings_eq, Pool.reader, hkept, hnone, Option.getD_none, pool_after,
      Operation.reach_runAll _ hops]

/-- Two blogs that are written alike, two that are read alike, and one that is read where it is
written. -/
theorem reads_writes_separate_stored :
    let write (title : String) : Action :=
      .store (fun _ => none) ⟨2025, 1, 1, 0, 0, 0, 0⟩ ⟨title, none⟩ [.paragraph "x"] .empty
    let alone : Blog := ⟨⟨.fresh, none⟩, .empty⟩
    let full : Database := (alone.after [write "old"]).pool.primary
    let b : Blog := ⟨⟨.fresh, some .fresh⟩, .empty⟩
    let c : Blog := ⟨⟨.fresh, some full⟩, .empty⟩
    let d : Blog := ⟨⟨full, some .fresh⟩, .empty⟩
    b.replies [write "old", .deleteBlock 1] = c.replies [write "old", .deleteBlock 1] ∧
      (b.after [write "old"]).pool.readings = (d.after [write "new"]).pool.readings ∧
      (d.after [write "new"]).pool.readings.count = .ok 0 ∧
      (alone.after [write "old", write "new"]).pool.readings.count = .ok 2 := by
  intro write alone full b c d
  have halone := (reads_writes_separate alone alone).2.2 rfl [write "old", write "new"]
  refine ⟨((reads_writes_separate b c).1 rfl _).1,
    ((reads_writes_separate b d).2.1 .fresh rfl rfl _ _).1, rfl, ?_⟩
  rw [halone]
  rfl

end Blog

end Inkpress
