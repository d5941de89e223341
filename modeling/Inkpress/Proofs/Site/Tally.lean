import Inkpress.Proofs.Metrics
import Inkpress.Proofs.Site.Lookup
import Inkpress.Proofs.Site.Template

namespace Inkpress

namespace Store

variable {α : Type} {p : Pool} {e : Error}

theorem Pool.status_read {f : Tables → α} (h : p.read f = .error e) : e.status = 500 := by
  simp only [read, Database.read, Database.reach] at h
  split at h
  · cases h
    rfl
  · split at h <;> cases h
    rfl

theorem Pool.status_detail {id : Int} (h : p.detail id = .error e) : e.status = 404 ∨ e.status = 500 := by
  cases ht : p.reader.reach with
  | ok t =>
      rw [detail_of_reader ht] at h
      split at h <;> cases h
      exact .inl rfl
  | error f =>
      have hfind : p.find id = .error f := by
        simp only [find, read, Database.read, ht, Except.map]
      rw [detail, hfind] at h
      cases h
      exact .inr (status_read hfind)

end Store

namespace Site

open Template (Fits)

/-- A request, and what the site is when it comes in. -/
structure Visit where
  pool : Store.Pool
  origin : String
  newId : String
  request : Request

/-- The answer to a visit, and what is counted then. -/
def Visit.answer (v : Visit) (m : Metrics) : Response × Metrics :=
  let answer := handle ⟨v.pool, m⟩ v.origin v.newId v.request
  (answer.1, answer.2.metrics)

structure Answered where
  visit : Visit
  response : Response

/-- The answers to visits one after the other, and what is counted after all of them. -/
def Visit.answerAll (m : Metrics) : List Visit → List Answered × Metrics
  | [] => ([], m)
  | v :: vs =>
    let rest := answerAll (v.answer m).2 vs
    (⟨v, (v.answer m).1⟩ :: rest.1, rest.2)

namespace Answered

def method (a : Answered) : String :=
  a.visit.request.method

def template? (a : Answered) : Option String :=
  templates.find? fun e => Fits a.visit.request.address.path e

/-- What an answered request counts under, if it counts. -/
def labels? (a : Answered) : Option (List (String × String)) :=
  if a.method = "OPTIONS" then none
  else a.template?.map fun e =>
    [("endpoint", e), ("method", a.method), ("status", toString a.response.status)]

/-- Whether a request asks for what is at one of the counted routes. -/
def isRead (a : Answered) : Bool :=
  (a.method = "GET" || a.method = "HEAD") && a.template?.isSome

variable {a : Answered}

theorem labels?_of_template {e : String} (he : a.template? = some e) (hmethod : a.method ≠ "OPTIONS") :
    a.labels? = some (Metrics.requestLabels a.method e a.response.status) := by
  rw [labels?, if_neg hmethod, he, Option.map_some, Metrics.requestLabels]

end Answered

theorem routeResponse_snd (b : Blog) (a : Address) (route : Route) :
    (routeResponse b a route).2 = b ∨ route.endpoint?.isSome ∧
      ∃ n, (routeResponse b a route).2.metrics = b.metrics.recordImageServed n := by
  cases route with
  | image segment =>
      rw [routeResponse, imageResponse]
      split
      · exact .inl rfl
      · split
        · exact .inr ⟨rfl, _, rfl⟩
        · exact .inl rfl
        · exact .inl rfl
  | health | ready | posts | post | home | echo => exact .inl rfl

theorem routed_snd (b : Blog) (r : Request) (route : Route) :
    (routed b r route).2 = b ∨ route.endpoint?.isSome ∧
      ∃ n, (routed b r route).2.metrics = b.metrics.recordImageServed n := by
  rw [routed]
  split
  · exact routeResponse_snd b r.address route
  · split
    · exact routeResponse_snd b r.address route
    · exact .inl rfl

namespace Visit

/-- What one visit adds: nothing, or one request, perhaps after the bytes of an image. -/
theorem answer_cases (v : Visit) (m : Metrics) :
    let a : Answered := ⟨v, (v.answer m).1⟩
    a.labels? = none ∧ (v.answer m).2 = m ∨
      ∃ e m', a.template? = some e ∧ a.method ≠ "OPTIONS" ∧
        (m' = m ∨ ∃ n, m' = m.recordImageServed n) ∧
        (v.answer m).2 = m'.recordRequest a.method e a.response.status := by
  intro a
  have hanswer : (v.answer m).2 = (respond ⟨v.pool, m⟩ v.request).2.metrics := rfl
  have hstatus : a.response.status = (respond ⟨v.pool, m⟩ v.request).1.status := rfl
  have htemplate : a.template? = (Route.ofPath? v.request.address.path).bind Route.endpoint? :=
    Template.find?_templates _
  by_cases hmethod : v.request.method = "OPTIONS"
  · -- A preflight is answered before any route is tried.
    refine .inl ⟨if_pos hmethod, ?_⟩
    simp only [hanswer, respond, if_pos hmethod]
  · cases hroute : Route.ofPath? v.request.address.path with
    | none =>
        rw [hroute, Option.bind_none] at htemplate
        refine .inl ⟨?_, ?_⟩
        · rw [Answered.labels?, htemplate, Option.map_none, ite_self]
        · simp only [hanswer, respond, if_neg hmethod, hroute]
    | some route =>
        rw [hroute, Option.bind_some] at htemplate
        have hrespond : respond ⟨v.pool, m⟩ v.request =
            counted route v.request.method (routed ⟨v.pool, m⟩ v.request route) := by
          simp only [respond, if_neg hmethod, hroute]
        rw [hanswer, hstatus, hrespond, counted]
        cases he : route.endpoint? with
        | none =>
            -- The two probes: there is no endpoint, and no image either that could be recorded.
            refine .inl ⟨?_, ?_⟩
            · rw [Answered.labels?, htemplate, he, Option.map_none, ite_self]
            · rcases routed_snd ⟨v.pool, m⟩ v.request route with h | ⟨hsome, -⟩
              · simp only [h]
              · rw [he] at hsome
                cases hsome
        | some e =>
            refine .inr ⟨e, (routed ⟨v.pool, m⟩ v.request route).2.metrics, htemplate.trans he, hmethod,
              ?_, rfl⟩
            rcases routed_snd ⟨v.pool, m⟩ v.request route with h | ⟨-, h⟩
            · exact .inl (congrArg Blog.metrics h)
            · exact .inr h

section

variable {v : Visit} {m : Metrics}

theorem total_answer {labels : List (String × String)} {n : Nat}
    (h : m.total (.counter 0) ⟨Metrics.requestsTotal, labels⟩ = .counter n) :
    (v.answer m).2.total (.counter 0) ⟨Metrics.requestsTotal, labels⟩ =
      .counter (n + if Answered.labels? ⟨v, (v.answer m).1⟩ = some labels then 1 else 0) := by
  rcases v.answer_cases m with ⟨hlabels, hanswer⟩ | ⟨e, m', he, hmethod, hm', hanswer⟩
  · rw [hanswer, hlabels, if_neg (Option.some_ne_none labels).symm, h, Nat.add_zero]
  · have htotal : m'.total (.counter 0) ⟨Metrics.requestsTotal, labels⟩ = .counter n := by
      rcases hm' with rfl | ⟨bytes, rfl⟩
      · exact h
      · rw [Metrics.total_recordImageServed m bytes rfl, h]
    rw [hanswer, Metrics.total_recordRequest m' _ _ _ rfl, htotal, Answered.labels?_of_template he hmethod]
    simp only [MetricKey.mk.injEq, true_and, Option.some.injEq, eq_comm (a := labels)]
    split <;> rfl

theorem sumOf_answer {f : MetricKey → Bool} (hf : ∀ k, f k → k.name = Metrics.requestsTotal) :
    (v.answer m).2.sumOf f = m.sumOf f +
      if (Answered.labels? ⟨v, (v.answer m).1⟩).any fun l => f ⟨Metrics.requestsTotal, l⟩ then 1
      else 0 := by
  rcases v.answer_cases m with ⟨hlabels, hanswer⟩ | ⟨e, m', he, hmethod, hm', hanswer⟩
  · rw [hanswer, hlabels, Option.any_none, if_neg Bool.false_ne_true, Nat.add_zero]
  · have hsum : m'.sumOf f = m.sumOf f := by
      rcases hm' with rfl | ⟨bytes, rfl⟩
      · rfl
      · exact Metrics.sumOf_recordImageServed m bytes hf
    rw [hanswer, Metrics.sumOf_recordRequest m' _ _ _ hf, hsum, Answered.labels?_of_template he hmethod,
      Option.any_some]

def HasTemplates (m : Metrics) : Prop :=
  ∀ k ∈ m.keys, ∀ e, ("endpoint", e) ∈ k.labels → e ∈ templates

theorem hasTemplates_answer (h : HasTemplates m) : HasTemplates (v.answer m).2 := by
  rcases v.answer_cases m with ⟨-, hanswer⟩ | ⟨e, m', he, -, hm', hanswer⟩
  · rwa [hanswer]
  · have htemplates : HasTemplates m' := by
      rcases hm' with rfl | ⟨bytes, rfl⟩
      · exact h
      · intro k hk
        rcases Metrics.mem_keys_recordImageServed hk with rfl | hk
        · exact fun _ he => absurd he List.not_mem_nil
        · exact h k hk
    rw [hanswer]
    intro k hk e' he'
    rcases Metrics.endpoint_of_mem_recordRequest hk he' with rfl | hk
    · exact List.mem_of_find?_eq_some he
    · exact htemplates k hk e' he'

end

section

variable {m : Metrics} (vs : List Visit)

theorem visits_answerAll : (answerAll m vs).1.map Answered.visit = vs := by
  induction vs generalizing m with
  | nil => rfl
  | cons v vs ih => rw [answerAll, List.map_cons, ih]

theorem total_answerAll {labels : List (String × String)} {n : Nat}
    (h : m.total (.counter 0) ⟨Metrics.requestsTotal, labels⟩ = .counter n) :
    (answerAll m vs).2.total (.counter 0) ⟨Metrics.requestsTotal, labels⟩ =
      .counter (n + (answerAll m vs).1.countP fun a => a.labels? = some labels) := by
  induction vs generalizing m n with
  | nil => exact h
  | cons v vs ih =>
      rw [answerAll, ih (total_answer h), List.countP_cons, Nat.add_assoc]
      simp only [decide_eq_true_eq, Nat.add_comm]

theorem sumOf_answerAll {f : MetricKey → Bool} (hf : ∀ k, f k → k.name = Metrics.requestsTotal) :
    (answerAll m vs).2.sumOf f = m.sumOf f +
      (answerAll m vs).1.countP fun a => a.labels?.any fun l => f ⟨Metrics.requestsTotal, l⟩ := by
  induction vs generalizing m with
  | nil => rfl
  | cons v vs ih =>
      rw [answerAll, ih, sumOf_answer hf, List.countP_cons, Nat.add_assoc]
      simp only [Nat.add_comm]

theorem hasTemplates_answerAll (h : HasTemplates m) : HasTemplates (answerAll m vs).2 := by
  induction vs generalizing m with
  | nil => exact h
  | cons v vs ih => exact ih (hasTemplates_answer h)

end

def readStatuses : List Nat := [200, 400, 404, 500]

theorem mem_readStatuses :
    200 ∈ readStatuses ∧ 400 ∈ readStatuses ∧ 404 ∈ readStatuses ∧ 500 ∈ readStatuses := by
  decide

theorem status_postsResponse (b : Blog) : (postsResponse b).status ∈ readStatuses := by
  obtain ⟨h200, -, -, h500⟩ := mem_readStatuses
  rw [postsResponse]
  split
  · exact h200
  · next e he =>
      have hstatus : (Response.ofError e).status = 500 := Store.Pool.status_read he
      rwa [hstatus]

theorem status_postResponse (b : Blog) (segment : List Char) :
    (postResponse b segment).status ∈ readStatuses := by
  obtain ⟨h200, -, h404, h500⟩ := mem_readStatuses
  rw [postResponse]
  split
  · exact h404
  · split
    · exact h200
    · next e he =>
        have hstatus : (Response.ofError e).status = 404 ∨ (Response.ofError e).status = 500 :=
          Store.Pool.status_detail he
        rcases hstatus with hstatus | hstatus <;> rwa [hstatus]

theorem status_imageResponse (b : Blog) (segment : List Char) :
    (imageResponse b segment).1.status ∈ readStatuses := by
  obtain ⟨h200, -, h404, h500⟩ := mem_readStatuses
  rw [imageResponse]
  split
  · exact h404
  · split
    · rw [imageBytes]
      split
      · exact h200
      · exact h500
    · exact h404
    · exact h500

theorem status_routeResponse (b : Blog) (a : Address) {route : Route} (h : route.endpoint?.isSome) :
    (routeResponse b a route).1.status ∈ readStatuses := by
  obtain ⟨h200, h400, -, -⟩ := mem_readStatuses
  cases route with
  | health | ready => cases h
  | posts => exact status_postsResponse b
  | post segment => exact status_postResponse b segment
  | image segment => exact status_imageResponse b segment
  | home segment =>
      rw [routeResponse, homeResponse]
      split
      · exact h200
      · exact h400
  | echo => exact h200

theorem status_answer {v : Visit} {m : Metrics} (h : Answered.isRead ⟨v, (v.answer m).1⟩) :
    (v.answer m).1.status ∈ readStatuses := by
  rw [Answered.isRead, Bool.and_eq_true, Answered.template?, Template.find?_templates] at h
  obtain ⟨hread, hsome⟩ := h
  have hmethod : v.request.method = "GET" ∨ v.request.method = "HEAD" :=
    (Bool.or_eq_true_iff.1 hread).imp of_decide_eq_true of_decide_eq_true
  obtain ⟨e, he⟩ := Option.isSome_iff_exists.1 hsome
  obtain ⟨route, hroute, hendpoint⟩ := Option.bind_eq_some_iff.1 he
  have hoptions : v.request.method ≠ "OPTIONS" := by
    rcases hmethod with hmethod | hmethod <;> rw [hmethod] <;> decide
  have hresponse : (respond ⟨v.pool, m⟩ v.request).1 = (routed ⟨v.pool, m⟩ v.request route).1 := by
    simp only [respond, if_neg hoptions, hroute, counted_fst]
  have hstatus : (routeResponse ⟨v.pool, m⟩ v.request.address route).1.status ∈ readStatuses :=
    status_routeResponse _ _ (Option.isSome_of_eq_some hendpoint)
  have hanswer : (v.answer m).1.status = (respond ⟨v.pool, m⟩ v.request).1.status := rfl
  rw [hanswer, hresponse, routed]
  rcases hmethod with hmethod | hmethod
  · rwa [if_pos hmethod]
  · rwa [if_neg (by rw [hmethod]; decide), if_pos hmethod]

theorem exists_answer_of_mem {m : Metrics} {vs : List Visit} {a : Answered}
    (h : a ∈ (answerAll m vs).1) : ∃ v m', a = ⟨v, (v.answer m').1⟩ := by
  induction vs generalizing m with
  | nil => cases h
  | cons v vs ih =>
      rcases List.mem_cons.1 h with rfl | h
      · exact ⟨v, m, rfl⟩
      · exact ih h

end Visit

/-- Whether a key belongs to requests with one of the methods that ask for what is at a route. -/
def countsReads (k : MetricKey) : Bool :=
  k.name = Metrics.requestsTotal &&
    (k.labels.contains ("method", "GET") || k.labels.contains ("method", "HEAD"))

theorem Answered.any_countsReads (a : Answered) :
    (a.labels?.any fun l => countsReads ⟨Metrics.requestsTotal, l⟩) = a.isRead := by
  rw [isRead, labels?]
  by_cases hmethod : a.method = "OPTIONS"
  · rw [if_pos hmethod, hmethod]
    rfl
  · rw [if_neg hmethod]
    cases a.template? with
    | none => simp
    | some e => simp [countsReads, eq_comm]

/-- Every answered request to a counted route counts once, under the template that its path fits, its
method and the status of its answer; nothing else counts. So there are never other endpoints than the
templates, and the counts of requests that ask for what is at a route add up to the number of these. -/
theorem requests_counted (vs : List Visit) :
    let log := (Visit.answerAll .empty vs).1
    let m := (Visit.answerAll .empty vs).2
    log.map Answered.visit = vs ∧
    (∀ labels, m.counter Metrics.requestsTotal labels = log.countP fun a => a.labels? = some labels) ∧
    (∀ v m, Answered.labels? ⟨v, (v.answer m).1⟩ = none → (v.answer m).2 = m) ∧
    (∀ k ∈ m.keys, ∀ e, ("endpoint", e) ∈ k.labels → e ∈ templates) ∧
    (∀ a ∈ log, a.isRead → a.response.status ∈ [200, 400, 404, 500]) ∧
    m.sumOf countsReads = log.countP Answered.isRead := by
  intro log m
  refine ⟨Visit.visits_answerAll vs, ?_, ?_, ?_, ?_, ?_⟩
  · intro labels
    apply Metrics.counter_of_total
    rw [Visit.total_answerAll vs rfl, Nat.zero_add]
  · intro v m h
    rcases v.answer_cases m with ⟨-, hm⟩ | ⟨e, m', he, hmethod, -, -⟩
    · exact hm
    · rw [Answered.labels?_of_template he hmethod] at h
      cases h
  · exact Visit.hasTemplates_answerAll vs fun k hk => absurd hk List.not_mem_nil
  · intro a ha hread
    obtain ⟨v, m', rfl⟩ := Visit.exists_answer_of_mem ha
    exact Visit.status_answer hread
  · have hname : ∀ k, countsReads k → k.name = Metrics.requestsTotal := by
      intro k hk
      rw [countsReads, Bool.and_eq_true] at hk
      exact of_decide_eq_true hk.1
    rw [Visit.sumOf_answerAll vs hname]
    simp only [Answered.any_countsReads]
    exact Nat.zero_add _

end Site

end Inkpress
