import Inkpress.Proofs.Store.History
import Inkpress.Proofs.Store.Lineage

namespace Inkpress.Store

open Document (Part ImageMap)

inductive Change
  | operation (op : Operation)
  | row (c : RowChange)

namespace Change

def run (p : Pool) : Change → Except Error Unit × Pool
  | operation op =>
    let (r, p) := op.run p
    (r.map fun _ => (), p)
  | row c => c.run p

def runAll (p : Pool) (cs : List Change) : Pool :=
  cs.foldl (fun p c => (c.run p).2) p

theorem runAll_append (p : Pool) (cs cs' : List Change) :
    runAll p (cs ++ cs') = runAll (runAll p cs) cs' := List.foldl_append

theorem runAll_operations (p : Pool) (ops : List Operation) :
    runAll p (ops.map .operation) = Operation.runAll p ops := by
  rw [runAll, List.foldl_map]
  rfl

variable {p : Pool} {t : Tables}

theorem run_tables (h : t.Sound) (ht : p.primary.reach = .ok t) (c : Change) :
    ∃ u, (c.run p).2.primary.reach = .ok u ∧ u.Sound ∧ t.Becomes u := by
  cases c with
  | operation op =>
      obtain ⟨u, hu, hsound, hreach, -⟩ := op.run_tables h ht
      exact ⟨u, hreach, hsound, hu.becomes⟩
  | row c =>
      cases hc : c.apply t with
      | error v =>
          refine ⟨t, ?_, h, .refl t⟩
          simp only [run, RowChange.run, Pool.change, Pool.write, Database.change_of_reach ht, hc,
            Except.mapError, ht]
      | ok r =>
          obtain ⟨⟨⟩, u⟩ := r
          refine ⟨u, ?_, c.apply_sound h hc, c.apply_becomes hc⟩
          simp only [run, RowChange.run, Pool.change, Pool.write, Database.change_of_reach ht, hc,
            Except.mapError]
          exact Database.reach_write ht u

theorem runAll_tables (h : t.Sound) (ht : p.primary.reach = .ok t) (cs : List Change) :
    ∃ u, (runAll p cs).primary.reach = .ok u ∧ u.Sound ∧ t.Becomes u := by
  induction cs generalizing p t with
  | nil => exact ⟨t, ht, h, .refl t⟩
  | cons c cs ih =>
      obtain ⟨u, hu, hsound, htu⟩ := run_tables h ht c
      obtain ⟨w, hw, hsound, huw⟩ := ih hsound hu
      exact ⟨w, hw, hsound, htu.trans huw⟩

end Change

theorem Database.change_error {d : Database} {α : Type} {f : Tables → Except Error (α × Tables)}
    {e : Error} (he : (d.change f).1 = .error e) : (d.change f).2 = d := by
  simp only [change] at he ⊢
  split
  · rfl
  · next t ht =>
      simp only [ht] at he
      split
      · rfl
      · next hf =>
          simp only [hf] at he
          cases he

theorem Database.createAll_error {d : Database} {e : Error} (he : d.createAll.1 = .error e) :
    d.createAll.2 = d := by
  by_cases hclosed : d.closed
  · simp only [createAll, hclosed, if_true]
  · simp [createAll, hclosed] at he

theorem Pool.change_error {p : Pool} {α : Type} {f : Tables → Except Error (α × Tables)}
    {e : Error} (he : (p.change f).1 = .error e) : (p.change f).2 = p := by
  have hd : (p.primary.change f).2 = p.primary := Database.change_error he
  simp only [change, write, hd]

theorem error_of_map {ε α β : Type} {x : Except ε α} {f : α → β} {e : ε} (h : x.map f = .error e) :
    x = .error e := by
  cases x with
  | error e' => exact congrArg _ (Except.error.inj h)
  | ok a => cases h

theorem Operation.run_error {p : Pool} {op : Operation} {e : Error}
    (he : (op.run p).1 = .error e) : (op.run p).2 = p := by
  cases op with
  | store readFile now post parts images =>
      have he : (p.store readFile now post parts images).1 = .error e := error_of_map he
      simp only [run]
      rw [Pool.store] at he ⊢
      split at he
      · next hvalid =>
          exact Pool.change_error he
      · rfl
  | deletePost title =>
      have he : (p.deletePost title).1 = .error e := error_of_map he
      exact Pool.change_error he
  | deleteBlock id =>
      have he : (p.deleteBlock id).1 = .error e := error_of_map he
      exact Pool.change_error he
  | deleteImage id =>
      have he : (p.deleteImage id).1 = .error e := error_of_map he
      exact Pool.change_error he
  | createAll =>
      have he : p.primary.createAll.1 = .error e := error_of_map he
      simp only [run, Pool.write, Database.createAll_error he]

theorem Change.run_error {p : Pool} {c : Change} {e : Error} (he : (c.run p).1 = .error e) :
    (c.run p).2 = p := by
  cases c with
  | operation op => exact op.run_error (error_of_map he)
  | row c => exact Pool.change_error he

/-- An image that has a block has an image block of its own post, and no other image has it. -/
structure Tables.Linked (t : Tables) : Prop where
  own : ∀ i ∈ t.images, ∀ id, i.block = some id →
    ∃ b ∈ t.blocks, b.id = id ∧ b.post = i.post ∧ b.kindName = "image"
  apart : t.images.Pairwise fun i j => ∀ id, i.block = some id → j.block ≠ some id

theorem Place.linked_of_imageRow? {g : Gone} {p : Place} {i : Image} {id : Int}
    (hi : p.imageRow? g = some i) (hid : i.block = some id) : p.isKept g ∧ p.block = id := by
  rw [Place.block_of_imageRow? hi] at hid
  split at hid
  · next hkept => exact ⟨hkept, Option.some.inj hid⟩
  · cases hid

theorem Shelf.Sound.linked {s : Shelf} (h : s.Sound) : s.tables.Linked := by
  refine ⟨?_, ?_⟩
  · intro i hi id hid
    obtain ⟨p, hp, hi⟩ := List.mem_filterMap.1 hi
    obtain ⟨hkept, rfl⟩ := Place.linked_of_imageRow? hi hid
    refine ⟨p.row, List.mem_map_of_mem (List.mem_filter.2 ⟨hp, hkept⟩), rfl,
      (Place.post_of_imageRow? hi).symm, ?_⟩
    obtain ⟨v, hv, hpv⟩ := List.mem_flatMap.1 hp
    obtain ⟨q, hq, -⟩ := Option.map_eq_some_iff.1 hi
    have hsome : p.picture.isSome := Option.isSome_of_mem (Option.mem_filter_iff.1 hq).1
    have hkind := (h.volumes v hv).pictured p hpv hsome
    simp only [Place.row, hkind, BlockKind.name]
  · have hblocks := h.tables.block_ids.sorted
    simp only [Shelf.tables, List.map_map] at hblocks
    have hblocks := List.pairwise_filter.1 (List.pairwise_map.1 hblocks)
    refine List.pairwise_filterMap.2 (hblocks.imp ?_)
    intro p q hlt i hi j hj id hid hjd
    obtain ⟨hp, rfl⟩ := Place.linked_of_imageRow? hi hid
    obtain ⟨hq, he⟩ := Place.linked_of_imageRow? hj hjd
    exact Int.ne_of_lt (hlt hp hq) he.symm

theorem Pool.store_replica (p : Pool) (replica : Option Database)
    (readFile : String → Option ByteArray) (now : Moment) (post : NewPost) (parts : List Part)
    (images : ImageMap) : ({ p with replica } : Pool).store readFile now post parts images =
      ((p.store readFile now post parts images).1,
        { (p.store readFile now post parts images).2 with replica }) := by
  simp only [store]
  split <;> rfl

theorem Operation.run_replica (p : Pool) (replica : Option Database) (op : Operation) :
    op.run { p with replica } = ((op.run p).1, { (op.run p).2 with replica }) := by
  cases op with
  | store readFile now post parts images => simp only [run, Pool.store_replica]
  | deletePost title => rfl
  | deleteBlock id => rfl
  | deleteImage id => rfl
  | createAll => rfl

theorem Operation.runAll_replica (p : Pool) (replica : Option Database) (ops : List Operation) :
    runAll { p with replica } ops = { runAll p ops with replica } := by
  induction ops generalizing p with
  | nil => rfl
  | cons op ops ih =>
      have hop : (op.run { p with replica }).2 = { (op.run p).2 with replica } := by
        rw [run_replica]
      simp only [runAll, List.foldl_cons, hop]
      exact ih _

theorem Operation.primary_runAll {p q : Pool} (h : p.primary = q.primary) (ops : List Operation) :
    (runAll p ops).primary = (runAll q ops).primary := by
  have hreplica := congrArg Pool.primary (runAll_replica p q.replica ops)
  rw [h] at hreplica
  exact hreplica.symm

theorem Operation.replica_runAll (p : Pool) (ops : List Operation) :
    (runAll p ops).replica = p.replica := by
  have hreplica : runAll p ops = { runAll p ops with replica := p.replica } :=
    runAll_replica p p.replica ops
  rw [hreplica]

theorem Operation.runAll_linked {replica : Option Database} {ops : List Operation} {t : Tables}
    (ht : (runAll ⟨.fresh, replica⟩ ops).primary.reach = .ok t) : t.Linked := by
  obtain ⟨hrun, hshelf⟩ := Shelf.sound_empty.runAll_eq ops
  have hp : runAll ⟨.fresh, replica⟩ ops = { (Shelf.empty.runAll ops).pool with replica } :=
    (runAll_replica ⟨.fresh, none⟩ replica ops).trans (by rw [← Shelf.pool_empty, hrun])
  rw [hp] at ht
  obtain rfl : (Shelf.empty.runAll ops).tables = t := Except.ok.inj ht
  exact hshelf.linked

namespace Change

/-- Whatever is done to tables that were just made, with success or without: the constraints hold, no
id is given twice, and what is refused changes nothing. Where rows are never changed one by one, an
image is linked to an image block of its own post, which no other image has. -/
theorem runAll_integrity (replica : Option Database) (cs : List Change) :
    let p := runAll ⟨.fresh, replica⟩
    (∃ t, (p cs).primary.reach = .ok t ∧ t.Sound) ∧
    (∀ cs' cs'' t u w, (p cs).primary.reach = .ok t → (p (cs ++ cs')).primary.reach = .ok u →
      (p (cs ++ cs' ++ cs'')).primary.reach = .ok w → Tables.OneRowPerId t u w) ∧
    (∀ c e, (run (p cs) c).1 = .error e → (run (p cs) c).2 = p cs) ∧
    (∀ ops : List Operation, cs = ops.map .operation →
      ∀ t, (p cs).primary.reach = .ok t → t.Linked) := by
  intro p
  obtain ⟨t, ht, hsound, -⟩ := runAll_tables Tables.sound_empty (p := ⟨.fresh, replica⟩) rfl cs
  refine ⟨⟨t, ht, hsound⟩, ?_, fun c e he => run_error he, ?_⟩
  · intro cs' cs'' t' u w ht' hu hw
    obtain rfl : t = t' := Except.ok.inj (ht.symm.trans ht')
    obtain ⟨u', hu', husound, htu⟩ := runAll_tables hsound ht cs'
    rw [← runAll_append] at hu'
    obtain rfl : u = u' := Except.ok.inj (hu.symm.trans hu')
    obtain ⟨w', hw', -, huw⟩ := runAll_tables husound hu cs''
    rw [← runAll_append] at hw'
    obtain rfl : w = w' := Except.ok.inj (hw.symm.trans hw')
    exact htu.oneRowPerId hsound huw
  · intro ops hcs t' ht'
    simp only [p, hcs, runAll_operations] at ht'
    exact Operation.runAll_linked ht'

/-- A document is deleted, a change of its post is refused, and it is stored again. -/
theorem runAll_integrity_again :
    let now : Moment := ⟨2025, 1, 1, 0, 0, 0, 0⟩
    let images : ImageMap := ⟨[("a", ⟨1, some ⟨"dir/a.png", "a.png", "image/png", 2, 3⟩⟩)]⟩
    let store : Operation := .store (fun _ => some .empty) now ⟨"t", none⟩ [.image "a"] images
    let update : Change := .row (.updatePost 1 none none now)
    let p := runAll ⟨.fresh, none⟩
    let cs := [.operation store, .operation (.deletePost "t"), update, .operation store]
    ∃ t u w, (p (cs.take 1)).primary.reach = .ok t ∧ (p (cs.take 2)).primary.reach = .ok u ∧
      (p cs).primary.reach = .ok w ∧ Tables.OneRowPerId t u w ∧ w.Sound ∧ t.Linked ∧
      t.images.map (·.id) = [1] ∧ u.posts = [] ∧ w.images.map (·.id) = [2] ∧
      (run (p (cs.take 2)) update).2 = p (cs.take 2) := by
  intro now images store update p cs
  obtain ⟨-, hrows, -, hlinked⟩ := runAll_integrity none (cs.take 1)
  obtain ⟨-, -, herror, -⟩ := runAll_integrity none (cs.take 2)
  obtain ⟨⟨w, hw, hsound⟩, -⟩ := runAll_integrity none cs
  refine ⟨_, _, w, rfl, rfl, hw, hrows [cs[1]] [cs[2], cs[3]] _ _ _ rfl rfl hw, hsound,
    hlinked [store] rfl _ rfl, rfl, rfl, ?_, herror update _ rfl⟩
  cases hw
  rfl

end Change

end Inkpress.Store
