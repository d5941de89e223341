import Inkpress.Document.Source
import Inkpress.Metrics
import Inkpress.Store.Database

namespace Inkpress

structure Blog where
  pool : Store.Pool
  metrics : Metrics

inductive IngestFault
  | document (fault : Document.FileFault)
  | store (error : Error)
  deriving Repr, DecidableEq

def IngestFault.message : IngestFault → String
  | document fault => fault.message
  | store error => "Store error: " ++ error.message

namespace Blog

def store (b : Blog) (readFile : String → Option ByteArray) (now : Moment) (post : Store.NewPost)
    (parts : List Document.Part) (images : Document.ImageMap) :
    Except Error Store.Stored × Blog :=
  match b.pool.store readFile now post parts images with
  | (.ok s, pool) => (.ok s, ⟨pool, b.metrics.recordStored s.blocks s.images s.degraded⟩)
  | (.error e, pool) => (.error e, ⟨pool, b.metrics⟩)

structure Request where
  path : String
  source : Document.Source
  title : Option String
  author : Option String

/-- What an ingestion leaves: its result, the blog, the directory with pictures, and the draws. -/
structure Ingested where
  result : Except IngestFault Store.Stored
  blog : Blog
  staging : Document.Staging
  draws : Document.Draws

def ingestUncounted [Image.Library] (b : Blog) (r : Request) (now : Moment) (staging : Document.Staging)
    (draws : Document.Draws) : Ingested :=
  let title := r.title.getD (Document.defaultTitle r.path)
  match Document.extractFile r.path r.source staging draws with
  | (.error fault, staging) => ⟨.error (.document fault), b, staging, draws⟩
  | (.ok s, staging) =>
    match b.store s.folder.readPath? now ⟨title, r.author⟩ s.done.parts s.done.images with
    | (.ok stored, b) => ⟨.ok stored, b, staging, s.draws⟩
    | (.error e, b) => ⟨.error (.store e), b, staging, s.draws⟩

/-- Ingests a document; every attempt counts, as a success or an error. -/
def ingest [Image.Library] (b : Blog) (r : Request) (now : Moment) (staging : Document.Staging)
    (draws : Document.Draws) : Ingested :=
  let i := b.ingestUncounted r now staging draws
  { i with blog := { i.blog with metrics := i.blog.metrics.recordIngestion i.result.isOk } }

end Blog

end Inkpress
