import Inkpress.Proofs.Store.Shelf
import Mathlib.Data.List.Induction

namespace Inkpress.Store

open Document (Part ImageMap)

namespace Operation

end Operation

namespace Shelf

variable {s : Shelf}

def pool (s : Shelf) : Pool :=
  ⟨⟨some s.tables, false⟩, none⟩

theorem reach_pool (s : Shelf) : s.pool.primary.reach = .ok s.tables := rfl

theorem pool_empty : empty.pool = ⟨.fresh, none⟩ := rfl

theorem step_store_cases (s : Shelf) (readFile : String → Option ByteArray) (now : Moment)
    (post : NewPost) (parts : List Part) (images : ImageMap) :
    (∃ e, s.step (.store readFile now post parts images) = (.error e, s)) ∨
    (partsFault readFile images parts = none ∧
      s.step (.store readFile now post parts images) =
        (.ok (.stored (countOf images (s.lastPost + 1) parts)),
          s.add (s.next readFile now post parts images))) := by
  simp only [step]
  by_cases hfits : post.invalidFields = []
  · simp only [hfits, if_true]
    by_cases htaken : s.hasTitle post.title
    · simp only [htaken, if_true]
      exact .inl ⟨_, rfl⟩
    · simp only [htaken, Bool.false_eq_true, if_false]
      cases hfault : partsFault readFile images parts with
      | some e => exact .inl ⟨e, rfl⟩
      | none => exact .inr ⟨rfl, rfl⟩
  · simp only [hfits, if_false]
    exact .inl ⟨_, rfl⟩

theorem Sound.run_eq (h : s.Sound) (op : Operation) :
    op.run s.pool = ((s.step op).1, (s.step op).2.pool) := by
  cases op with
  | store readFile now post parts images =>
      simp only [Operation.run, step, Pool.store_eq h.tables s.reach_pool]
      by_cases hfits : post.invalidFields = []
      · simp only [hfits, if_true, hasTitle_eq]
        cases s.hasTitle post.title with
        | true => rfl
        | false =>
            cases partsFault readFile images parts with
            | some e => rfl
            | none =>
                simp only [Bool.false_eq_true, if_false, pool, h.tables_next]
                rfl
      · simp only [hfits, if_false]
        rfl
  | deletePost title =>
      simp only [Operation.run, step, Pool.deletePost, Pool.change, Pool.write,
        Database.change_of_reach s.reach_pool, h.tables_removePost]
      rfl
  | deleteBlock id =>
      simp only [Operation.run, step, Pool.deleteBlock, Pool.change, Pool.write,
        Database.change_of_reach s.reach_pool, tables_removeBlock]
      rfl
  | deleteImage id =>
      simp only [Operation.run, step, Pool.deleteImage, Pool.change, Pool.write,
        Database.change_of_reach s.reach_pool, tables_removeImage]
      rfl
  | createAll => rfl

theorem le_lastBlock_of_hasBlock (h : s.Sound) {id : Int} (hid : s.hasBlock id) :
    id ≤ s.lastBlock := by
  rw [← hasBlock_eq, Tables.hasBlock_iff] at hid
  obtain ⟨b, hb, rfl⟩ := hid
  exact h.tables.block_ids.le_last _ (List.mem_map_of_mem hb)

theorem le_lastImage_of_hasImage (h : s.Sound) {id : Int} (hid : s.hasImage id) :
    id ≤ s.lastImage := by
  rw [← hasImage_eq, Tables.image?, List.find?_isSome] at hid
  obtain ⟨i, hi, he⟩ := hid
  obtain rfl : i.id = id := by simpa using he
  exact h.tables.image_ids.le_last _ (List.mem_map_of_mem hi)

theorem Sound.step (h : s.Sound) (op : Operation) : (s.step op).2.Sound := by
  have htables : (s.step op).2.tables.Sound := by
    have hpool : s.pool.primary.Sound := fun t ht => by
      cases ht
      exact h.tables
    have hrun := op.run_sound hpool
    rw [h.run_eq op] at hrun
    exact hrun _ rfl
  cases op with
  | store readFile now post parts images =>
      rcases s.step_store_cases readFile now post parts images with ⟨e, hs⟩ | ⟨-, hs⟩
      · rw [hs]
        exact h
      · rw [hs] at htables ⊢
        refine ⟨htables, ?_, ?_, ?_⟩
        · intro v hv
          rcases List.mem_append.1 hv with hv | hv
          · exact h.volumes v hv
          · obtain rfl := List.mem_singleton.1 hv
            exact Volume.ofParts_sound
        · intro id hid
          have := h.gone_blocks id hid
          simp only [add]
          omega
        · intro id hid
          have := h.gone_images id hid
          simp only [add]
          omega
  | deletePost title =>
      exact ⟨htables, fun v hv => h.volumes v (List.mem_filter.1 hv).1, h.gone_blocks,
        h.gone_images⟩
  | deleteBlock id =>
      simp only [Shelf.step, removeBlock] at htables ⊢
      by_cases hthere : s.hasBlock id
      · simp only [hthere, if_true] at htables ⊢
        refine ⟨htables, h.volumes, ?_, h.gone_images⟩
        intro i hi
        rcases List.mem_cons.1 hi with rfl | hi
        · exact le_lastBlock_of_hasBlock h hthere
        · exact h.gone_blocks i hi
      · simpa only [hthere, Bool.false_eq_true, if_false] using h
  | deleteImage id =>
      simp only [Shelf.step, removeImage] at htables ⊢
      by_cases hthere : s.hasImage id
      · simp only [hthere, if_true] at htables ⊢
        refine ⟨htables, h.volumes, h.gone_blocks, ?_⟩
        intro i hi
        rcases List.mem_cons.1 hi with rfl | hi
        · exact le_lastImage_of_hasImage h hthere
        · exact h.gone_images i hi
      · simpa only [hthere, Bool.false_eq_true, if_false] using h
  | createAll => exact h

theorem Sound.runAll_eq (h : s.Sound) (ops : List Operation) :
    Operation.runAll s.pool ops = (s.runAll ops).pool ∧ (s.runAll ops).Sound := by
  induction ops generalizing s with
  | nil => exact ⟨rfl, h⟩
  | cons op ops ih =>
      simp only [Operation.runAll, Shelf.runAll, List.foldl_cons, h.run_eq]
      exact ih (h.step op)

theorem runAll_append (s : Shelf) (ops ops' : List Operation) :
    s.runAll (ops ++ ops') = (s.runAll ops).runAll ops' := List.foldl_append

end Shelf

namespace Operation

end Operation

end Inkpress.Store
