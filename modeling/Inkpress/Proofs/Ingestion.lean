import Inkpress.Image.Header
import Inkpress.Proofs.Document.Pieces
import Inkpress.Proofs.Store.Outcome
import Inkpress.Proofs.Store.Reading
import Mathlib.Data.List.Forall2

namespace Inkpress

open Document Store

/-- A block shows a mark of a document in a package. A drawing has a picture exactly when it embeds
one that the package holds, that has a size, and whose file the folder takes. -/
def Shows [Image.Library] (p : Package) (accepts : String → Bool) : Mark → BlockView → Prop
  | .text s, v => v.kindName = "paragraph" ∧ v.content = some s ∧ v.payload = none
  | .drawing embed, v => ∃ id, v.kindName = "image" ∧ v.content = some id ∧ ∀ q : Payload,
      v.payload = some q ↔ ∃ rel r data size, embed = some rel ∧
        p.relationships.find? rel = some r ∧ r.external = false ∧
        p.archive.find? (p.partOf r) = some (.bytes data) ∧ Image.Library.size? data = some size ∧
        accepts (fileNameOf id (p.contentTypeOf (p.partOf r))) ∧
        q = ⟨fileNameOf id (p.contentTypeOf (p.partOf r)), some (p.contentTypeOf (p.partOf r)),
          dimension size.width, dimension size.height,
          inlineData (p.contentTypeOf (p.partOf r)) data⟩

namespace Document.Piece

variable [Image.Library] (p : Package) (folder : Folder)

def picture? : Piece → Option (StagedImage × ByteArray)
  | text _ => none
  | drawing c => pictureOf p folder c.embed c.id

def view (q : Piece) (index : Nat) : BlockView :=
  ⟨(kindOf q.part).name, some (contentOf q.part), index,
    (q.picture? p folder).map fun (s, data) => payloadOf s data⟩

def views (ps : List Piece) (index : Nat) : List BlockView :=
  (ps.zipIdx index).map fun (q, i) => q.view p folder i

variable {p folder}

variable {ps : List Piece} {draws : Draws} {q : Piece}

theorem stagedOf_part (hps : Numbered (slotsOf ps)) (hq : q ∈ ps) :
    stagedOf (Progress.ofPieces p folder ps draws).done.images q.part =
      (q.picture? p folder).map (·.1) := by
  cases q with
  | text s => rfl
  | drawing c =>
      exact Progress.staged?_ofPieces hps draws (List.mem_filterMap.2 ⟨.drawing c, hq, rfl⟩)

theorem readPath?_picture (hps : Numbered (slotsOf ps)) (hq : q ∈ ps) {s : StagedImage}
    {data : ByteArray} (hs : q.picture? p folder = some (s, data)) :
    (Progress.ofPieces p folder ps draws).folder.readPath? s.path = some data := by
  cases q with
  | text s => cases hs
  | drawing c =>
      exact Progress.readPath?_ofPieces hps draws (List.mem_filterMap.2 ⟨.drawing c, hq, rfl⟩) hs

theorem bind_readPath? (hps : Numbered (slotsOf ps)) (hq : q ∈ ps) :
    ((stagedOf (Progress.ofPieces p folder ps draws).done.images q.part).bind fun s =>
      ((Progress.ofPieces p folder ps draws).folder.readPath? s.path).map fun data => (s, data)) =
      q.picture? p folder := by
  rw [stagedOf_part hps hq]
  cases hpicture : q.picture? p folder with
  | none => rfl
  | some picture =>
      obtain ⟨s, data⟩ := picture
      simp only [Option.map_some, Option.bind_some, readPath?_picture hps hq hpicture]

end Document.Piece

namespace Document.Progress

variable [Image.Library] {ps : List Piece}

variable (hps : Numbered (slotsOf ps)) (p : Package) (folder : Folder) (draws : Draws)

include hps

end Document.Progress

namespace Blog

end Blog

end Inkpress
