import Inkpress.Json.Basic
import Inkpress.Table

namespace Inkpress

structure MetricKey where
  name : String
  labels : List (String × String)
  deriving Repr, DecidableEq

inductive MetricValue
  | counter (n : Nat)
  | samples (n : Nat)
  deriving Repr, DecidableEq

structure Metrics where
  entries : List (MetricKey × MetricValue)
  described : Bool
  deriving Repr

namespace Metrics

def empty : Metrics := ⟨[], false⟩

def update (start : MetricValue) (f : MetricValue → MetricValue) (key : MetricKey) :
    List (MetricKey × MetricValue) → List (MetricKey × MetricValue) :=
  Assoc.alter key fun o => f (o.getD start)

def addTo (n : Nat) : MetricValue → MetricValue
  | .counter m => .counter (m + n)
  | .samples m => .samples (m + n)

def count (m : Metrics) (name : String) (labels : List (String × String)) (n : Nat) : Metrics :=
  { m with entries := update (.counter 0) (addTo n) ⟨name, labels⟩ m.entries }

def sample (m : Metrics) (name : String) (labels : List (String × String)) : Metrics :=
  { m with entries := update (.samples 0) (addTo 1) ⟨name, labels⟩ m.entries }

def value? (m : Metrics) (key : MetricKey) : Option MetricValue :=
  (m.entries.find? (·.1 = key)).map (·.2)

def counter (m : Metrics) (name : String) (labels : List (String × String)) : Nat :=
  match m.value? ⟨name, labels⟩ with
  | some (.counter n) => n
  | _ => 0

def postsIngested : String := "blogforge_posts_ingested_total"
def blocksCreated : String := "blogforge_content_blocks_created_total"
def imagesStored : String := "blogforge_images_stored_total"
def imagesDegraded : String := "blogforge_images_degraded_total"
def imageBytesServed : String := "blogforge_image_bytes_served_total"
def requestsTotal : String := "blogforge_requests_total"
def requestDuration : String := "blogforge_request_duration_seconds"
def ingestionDuration : String := "blogforge_ingestion_duration_seconds"

def descriptions : List (String × String × String) :=
  [(requestsTotal, "count", "Total number of HTTP requests"),
    (requestDuration, "seconds", "HTTP request latency in seconds"),
    (postsIngested, "count", "Total blog posts stored"),
    (blocksCreated, "count", "Total content blocks created"),
    (imagesStored, "count", "Total image payloads stored"),
    (imagesDegraded, "count", "Image blocks stored without a payload"),
    (ingestionDuration, "seconds", "Document ingestion latency in seconds"),
    (imageBytesServed, "bytes", "Raw image bytes served")]

def description? (m : Metrics) (name : String) : Option (String × String) :=
  if m.described then (descriptions.find? (·.1 = name)).map (·.2) else none

/-- A post was stored. Degraded images are only counted when there are some. -/
def recordStored (m : Metrics) (blocks images degraded : Nat) : Metrics :=
  let m := ((m.count postsIngested [] 1).count blocksCreated [] blocks).count imagesStored [] images
  if 0 < degraded then m.count imagesDegraded [] degraded else m

def recordIngestion (m : Metrics) (success : Bool) : Metrics :=
  m.sample ingestionDuration [("status", if success then "success" else "error")]

def recordImageServed (m : Metrics) (bytes : Nat) : Metrics :=
  m.count imageBytesServed [] bytes

def recordRequest (m : Metrics) (method endpoint : String) (status : Nat) : Metrics :=
  let m := m.count requestsTotal
    [("endpoint", endpoint), ("method", method), ("status", toString status)] 1
  m.sample requestDuration [("endpoint", endpoint), ("method", method)]

def labelsJson (k : MetricKey) : Json :=
  .object (k.labels.map fun (name, value) => (name, .text value))

def sorted (m : Metrics) : List (MetricKey × MetricValue) :=
  m.entries.mergeSort fun a b =>
    a.1.name < b.1.name
      || (a.1.name = b.1.name && (labelsJson a.1).render ≤ (labelsJson b.1).render)

def drained : MetricValue → MetricValue
  | .counter n => .counter n
  | .samples _ => .samples 0

/-- What a look at the metrics leaves behind: counters stay, samples are gone. -/
def drain (m : Metrics) : Metrics :=
  { m with entries := m.entries.map fun (k, v) => (k, drained v) }

end Metrics

end Inkpress
