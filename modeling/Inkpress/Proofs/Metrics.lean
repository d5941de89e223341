import Inkpress.Metrics
import Inkpress.Proofs.Table
import Mathlib.Data.Option.Basic

namespace Inkpress.Metrics

def total (m : Metrics) (start : MetricValue) (key : MetricKey) : MetricValue :=
  (m.value? key).getD start

theorem total_update (m : Metrics) (start start' : MetricValue) (f : MetricValue → MetricValue)
    (key k : MetricKey) :
    total { m with entries := update start' f key m.entries } start k =
      if k = key then f (m.total start' k) else m.total start k := by
  rw [total, value?, update, Assoc.find?_alter]
  split
  · next hk => rw [hk]; rfl
  · rfl

theorem total_count (m : Metrics) (start : MetricValue) (name : String)
    (labels : List (String × String)) (n : Nat) (k : MetricKey) :
    (m.count name labels n).total start k =
      if k = ⟨name, labels⟩ then addTo n (m.total (.counter 0) k) else m.total start k :=
  m.total_update start (.counter 0) (addTo n) ⟨name, labels⟩ k

theorem total_sample (m : Metrics) (start : MetricValue) (name : String)
    (labels : List (String × String)) (k : MetricKey) :
    (m.sample name labels).total start k =
      if k = ⟨name, labels⟩ then addTo 1 (m.total (.samples 0) k) else m.total start k :=
  m.total_update start (.samples 0) (addTo 1) ⟨name, labels⟩ k

def samples (m : Metrics) (name : String) (labels : List (String × String)) : Nat :=
  match m.value? ⟨name, labels⟩ with
  | some (.samples n) => n
  | _ => 0

variable {m : Metrics} {name : String} {labels : List (String × String)} {n : Nat}

theorem counter_of_total (h : m.total (.counter 0) ⟨name, labels⟩ = .counter n) :
    m.counter name labels = n := by
  rw [total] at h
  rw [counter]
  cases hv : m.value? ⟨name, labels⟩ with
  | none =>
      rw [hv] at h
      exact MetricValue.counter.inj h
  | some v =>
      rw [hv, Option.getD_some] at h
      rw [h]

theorem samples_of_total (h : m.total (.samples 0) ⟨name, labels⟩ = .samples n) :
    m.samples name labels = n := by
  rw [total] at h
  rw [samples]
  cases hv : m.value? ⟨name, labels⟩ with
  | none =>
      rw [hv] at h
      exact MetricValue.samples.inj h
  | some v =>
      rw [hv, Option.getD_some] at h
      rw [h]

section

variable {m : Metrics} {f : MetricKey → Bool} {k : MetricKey}

def amount : MetricValue → Nat
  | .counter n => n
  | .samples n => n

def sumOf (m : Metrics) (f : MetricKey → Bool) : Nat :=
  m.entries.foldr (fun e n => if f e.1 then amount e.2 + n else n) 0

theorem amount_addTo (n : Nat) (v : MetricValue) : amount (addTo n v) = amount v + n := by
  cases v <;> rfl

theorem sumOf_update (m : Metrics) (start : MetricValue) (hstart : amount start = 0) (n : Nat) :
    sumOf { m with entries := update start (addTo n) k m.entries } f =
      m.sumOf f + if f k then n else 0 := by
  simp only [sumOf, update]
  induction m.entries with
  | nil => by_cases hk : f k <;> simp [Assoc.alter, hk, amount_addTo, hstart]
  | cons e es ih =>
      by_cases he : e.1 = k
      · by_cases hk : f k
        · simp [Assoc.alter, he, hk, amount_addTo, Nat.add_right_comm]
        · simp [Assoc.alter, he, hk]
      · by_cases hf : f e.1
        · simp [Assoc.alter, he, hf, ih, Nat.add_assoc]
        · simpa [Assoc.alter, he, hf] using ih

def keys (m : Metrics) : List MetricKey :=
  m.entries.map (·.1)

theorem mem_keys_update {start : MetricValue} {g : MetricValue → MetricValue} {key : MetricKey}
    (h : k ∈ keys { m with entries := update start g key m.entries }) : k = key ∨ k ∈ m.keys :=
  Assoc.mem_keys_alter.1 h

theorem requestDuration_ne : requestDuration ≠ requestsTotal := by decide

def requestLabels (method endpoint : String) (status : Nat) : List (String × String) :=
  [("endpoint", endpoint), ("method", method), ("status", toString status)]

theorem total_recordRequest (m : Metrics) (method endpoint : String) (status : Nat)
    (hk : k.name = requestsTotal) :
    (m.recordRequest method endpoint status).total (.counter 0) k =
      if k = ⟨requestsTotal, requestLabels method endpoint status⟩ then
        addTo 1 (m.total (.counter 0) k)
      else m.total (.counter 0) k := by
  have hne : k ≠ ⟨requestDuration, [("endpoint", endpoint), ("method", method)]⟩ := by
    rintro rfl
    exact absurd hk requestDuration_ne
  rw [recordRequest, total_sample, if_neg hne, total_count]
  rfl

theorem total_recordImageServed (m : Metrics) (n : Nat) (hk : k.name = requestsTotal) :
    (m.recordImageServed n).total (.counter 0) k = m.total (.counter 0) k := by
  have hne : k ≠ ⟨imageBytesServed, []⟩ := by
    rintro rfl
    exact absurd hk (by decide)
  rw [recordImageServed, total_count, if_neg hne]

theorem sumOf_recordRequest (m : Metrics) (method endpoint : String) (status : Nat)
    (hf : ∀ k, f k → k.name = requestsTotal) :
    (m.recordRequest method endpoint status).sumOf f =
      m.sumOf f + if f ⟨requestsTotal, requestLabels method endpoint status⟩ then 1 else 0 := by
  have hne : ¬f ⟨requestDuration, [("endpoint", endpoint), ("method", method)]⟩ :=
    fun h => absurd (hf _ h) requestDuration_ne
  rw [recordRequest, sample, sumOf_update _ _ rfl, if_neg hne, count, sumOf_update _ _ rfl]
  rfl

theorem sumOf_recordImageServed (m : Metrics) (n : Nat) (hf : ∀ k, f k → k.name = requestsTotal) :
    (m.recordImageServed n).sumOf f = m.sumOf f := by
  have hne : ¬f ⟨imageBytesServed, []⟩ := fun h => absurd (hf _ h) (by decide)
  rw [recordImageServed, count, sumOf_update _ _ rfl, if_neg hne, Nat.add_zero]

theorem endpoint_of_mem_recordRequest {method endpoint e : String} {status : Nat}
    (h : k ∈ (m.recordRequest method endpoint status).keys) (he : ("endpoint", e) ∈ k.labels) :
    e = endpoint ∨ k ∈ m.keys := by
  rcases mem_keys_update h with rfl | h
  · exact .inl (by simpa using he)
  · rcases mem_keys_update h with rfl | h
    · exact .inl (by simpa using he)
    · exact .inr h

theorem mem_keys_recordImageServed {n : Nat} (h : k ∈ (m.recordImageServed n).keys) :
    k = ⟨imageBytesServed, []⟩ ∨ k ∈ m.keys := by
  rcases mem_keys_update h with rfl | h
  · exact .inl rfl
  · exact .inr h

end

end Inkpress.Metrics
