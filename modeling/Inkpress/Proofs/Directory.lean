import Inkpress.Proofs.Document.Files
import Inkpress.Proofs.Ingestion

namespace Inkpress

open Document Store

namespace Store

def Tables.imageFiles (t : Tables) : List (String × ByteArray) :=
  t.images.map fun i => (i.name, i.data)

def Pool.imageFiles (p : Pool) : List (String × ByteArray) :=
  (p.primary.tables.map Tables.imageFiles).getD []

theorem imageFiles_placesFrom (readFile : String → Option ByteArray) (images : ImageMap)
    (post block image : Int) (parts : List Part) (index : Nat) :
    ((placesFrom readFile images post block image parts index).filterMap Place.image?).map
        (fun i => (i.name, i.data)) =
      parts.filterMap fun part => (stagedOf images part).bind fun s =>
        (readFile s.path).map fun data => (s.fileName, data) := by
  induction parts generalizing block image index with
  | nil => rfl
  | cons part parts ih =>
      have hpicture : (placeOf readFile images post block image part index).image?.map
          (fun i => (i.name, i.data)) = (stagedOf images part).bind fun s =>
            (readFile s.path).map fun data => (s.fileName, data) := by
        simp only [Place.image?, placeOf, Option.bind_eq_bind, Option.map_bind, Function.comp_def,
          Option.map_map]
        rfl
      simp only [List.map_filterMap] at ih ⊢
      rw [placesFrom, List.filterMap_cons, List.filterMap_cons, hpicture, ih]

theorem Tables.imageFiles_addVolume (t : Tables) (readFile : String → Option ByteArray)
    (now : Moment) (post : NewPost) (parts : List Part) (images : ImageMap) :
    (t.addVolume (.ofParts readFile now post parts images t.lastPost t.lastBlock t.lastImage)).imageFiles =
      t.imageFiles ++ parts.filterMap fun part => (stagedOf images part).bind fun s =>
        (readFile s.path).map fun data => (s.fileName, data) := by
  rw [← imageFiles_placesFrom readFile images (t.lastPost + 1) (t.lastBlock + 1) (t.lastImage + 1)
    parts 0]
  exact List.map_append

end Store

theorem Document.Progress.imageFiles_ofPieces [Image.Library] {ps : List Piece} (hps : Numbered (slotsOf ps))
    (p : Package) (folder : Folder) (draws : Draws) :
    let s := ofPieces p folder ps draws
    (s.done.parts.filterMap fun part => (stagedOf s.done.images part).bind fun f =>
      (s.folder.readPath? f.path).map fun data => (f.fileName, data)) = s.stagedFiles := by
  intro s
  have hparts : s.done.parts = ps.map Piece.part := rfl
  rw [stagedFiles, staged_ofPieces hps, hparts, List.filterMap_map, slotsOf, List.filterMap_filterMap,
    List.map_filterMap]
  refine List.filterMap_congr ?_
  intro q hq
  have hpicture : ((stagedOf s.done.images q.part).bind fun f =>
      (s.folder.readPath? f.path).map fun data => (f, data)) = q.picture? p folder :=
    Piece.bind_readPath? hps hq
  have hread := congrArg (Option.map fun f => (f.1.fileName, f.2)) hpicture
  rw [Option.map_bind] at hread
  simp only [Function.comp_def, Option.map_map] at hread
  rw [Function.comp_apply, hread]
  cases q <;> rfl

structure Call where
  request : Blog.Request
  now : Moment
  draws : Draws

/-- A blog and the directory that its ingestions share. -/
structure Desk where
  blog : Blog
  staging : Staging

structure Attempt where
  result : Except IngestFault Stored
  staged : List (String × ByteArray)

def Attempt.stored (a : Attempt) : List (String × ByteArray) :=
  if a.result.isOk then a.staged else []

namespace Desk

def files (d : Desk) : List (String × ByteArray) :=
  d.staging.files

def imageFiles (d : Desk) : List (String × ByteArray) :=
  d.blog.pool.imageFiles

def next [Image.Library] (d : Desk) (c : Call) : Desk :=
  let i := d.blog.ingest c.request c.now d.staging c.draws
  ⟨i.blog, i.staging⟩

def attempt [Image.Library] (d : Desk) (c : Call) : Attempt where
  result := (d.blog.ingest c.request c.now d.staging c.draws).result
  staged := match (extractFile c.request.path c.request.source d.staging c.draws).1 with
    | .ok s => s.stagedFiles
    | .error _ => []

def after [Image.Library] (d : Desk) (calls : List Call) : Desk :=
  calls.foldl next d

def log [Image.Library] : Desk → List Call → List Attempt
  | _, [] => []
  | d, c :: calls => d.attempt c :: (d.next c).log calls

structure Step (d : Desk) (a : Attempt) (d' : Desk) : Prop where
  sound : d'.blog.pool.primary.Sound
  named : ∀ w ∈ a.staged, IsPictureName w.1
  names : (a.staged.map (·.1)).Nodup
  fault : ∀ fault, a.result = .error (.document fault) → a.staged = []
  files : d'.files = Folder.putAll a.staged d.files
  images : d'.imageFiles = d.imageFiles ++ a.stored

/-- The second directory holds the files of the images that were stored since the first desk, and no
others. -/
def Mirrors (d d' : Desk) : Prop :=
  ∃ rows, d'.imageFiles = d.imageFiles ++ rows ∧ d'.files.Perm rows

variable {d : Desk}

theorem Mirrors.length {d' : Desk} (h : d.Mirrors d') :
    d'.imageFiles.length = d.imageFiles.length + d'.files.length := by
  obtain ⟨rows, himages, hfiles⟩ := h
  rw [himages, List.length_append, hfiles.length_eq]

section

variable [Image.Library] {c : Call} (h : d.blog.pool.primary.Sound)

include h

theorem step_of_fault {fault : FileFault} {staging : Staging}
    (hfault : extractFile c.request.path c.request.source d.staging c.draws = (.error fault, staging))
    (hfiles : staging.files = d.staging.files) : d.Step (d.attempt c) (d.next c) := by
  obtain ⟨hresult, hpool, hstaging⟩ := d.blog.ingest_of_fault c.now hfault
  have hattempt : d.attempt c = ⟨.error (.document fault), []⟩ := by
    rw [attempt, hresult, hfault]
  rw [hattempt]
  refine ⟨?_, List.forall_mem_nil _, List.nodup_nil, fun _ _ => rfl, ?_, ?_⟩
  · rw [next, hpool]
    exact h
  · rw [next, Desk.files, hstaging, hfiles]
    rfl
  · rw [next, imageFiles, hpool]
    exact (List.append_nil _).symm

/-- The files are written before the store is asked, and they stay whatever it says. -/
theorem step_of_extracted {s : Progress}
    (hs : extractFile c.request.path c.request.source d.staging c.draws = (.ok s, .present s.folder)) :
    d.Step (d.attempt c) (d.next c) := by
  obtain ⟨hresult, hpool, hstaging⟩ := d.blog.ingest_of_extracted c.now hs
  obtain ⟨_, p, _, folder, ps, -, -, -, hfolder, hmarks, hnumbered, hpieces⟩ := extractFile_ok hs
  have hfiles : folder.files = d.files := Staging.files_of_create? hfolder
  have hstaged := Progress.staged_of_numbered (p := p) hmarks hnumbered folder s.draws
  have himages := Progress.imageFiles_ofPieces hnumbered p folder s.draws
  rw [← hpieces] at hstaged himages
  have hattempt : d.attempt c = ⟨(d.attempt c).result, s.stagedFiles⟩ := by
    simp only [attempt, hs]
  have hsound := (Operation.store s.folder.readPath? c.now c.request.post s.done.parts
    s.done.images).run_sound h
  rw [hattempt]
  refine ⟨?_, ?_, hstaged.names, ?_, ?_, ?_⟩
  · rw [next, hpool]
    exact hsound
  · intro w hw
    obtain ⟨f, hf, rfl⟩ := List.mem_map.1 hw
    exact (hstaged.named f hf).1
  · intro fault hfault
    rw [attempt, hresult] at hfault
    cases hstore : (d.blog.pool.store s.folder.readPath? c.now c.request.post s.done.parts
        s.done.images).1 with
    | ok stored => rw [hstore] at hfault; cases hfault
    | error e => rw [hstore] at hfault; cases hfault
  · rw [next, Desk.files, hstaging]
    exact hstaged.files.trans (congrArg (Folder.putAll s.stagedFiles) hfiles)
  · rw [next, imageFiles, imageFiles, hpool, attempt, hresult]
    rcases Pool.store_cases h s.folder.readPath? c.now c.request.post s.done.parts s.done.images with
      ⟨e, hstore⟩ | ⟨t, ht, -, hstore⟩
    · rw [hstore]
      exact (List.append_nil _).symm
    · rw [hstore, Pool.imageFiles, Pool.imageFiles, ht]
      exact (t.imageFiles_addVolume _ _ _ _ _).trans (congrArg (t.imageFiles ++ ·) himages)

theorem step_next (c : Call) : d.Step (d.attempt c) (d.next c) := by
  rcases extractFile_cases c.request.path c.request.source d.staging c.draws with
    ⟨fault, staging, hfault, hfiles⟩ | ⟨s, hs⟩
  · exact step_of_fault h hfault hfiles
  · exact step_of_extracted h hs

theorem run_after (calls : List Call) :
    (∀ a ∈ d.log calls, (∀ w ∈ a.staged, IsPictureName w.1) ∧ (a.staged.map (·.1)).Nodup ∧
      ∀ fault, a.result = .error (.document fault) → a.staged = []) ∧
    (d.after calls).files = Folder.putAll ((d.log calls).flatMap (·.staged)) d.files ∧
    (d.after calls).imageFiles = d.imageFiles ++ (d.log calls).flatMap (·.stored) := by
  -- The log of a run begins at its first desk, so the desk changes along the calls.
  induction calls generalizing d with
  | nil => exact ⟨List.forall_mem_nil _, rfl, (List.append_nil _).symm⟩
  | cons c calls ih =>
      have hstep := step_next h c
      obtain ⟨hlog, hfiles, himages⟩ := ih hstep.sound
      refine ⟨List.forall_mem_cons.2 ⟨⟨hstep.named, hstep.names, hstep.fault⟩, hlog⟩, ?_, ?_⟩
      · rw [log, List.flatMap_cons, Folder.putAll_append, ← hstep.files]
        exact hfiles
      · rw [log, List.flatMap_cons, ← List.append_assoc, ← hstep.images]
        exact himages

end

theorem flatMap_stored {log : List Attempt} (h : ∀ a ∈ log, a.staged ≠ [] → a.result.isOk) :
    log.flatMap (·.stored) = log.flatMap (·.staged) := by
  refine List.flatMap_congr ?_
  intro a ha
  rw [Attempt.stored]
  split
  · rfl
  · next hfailed =>
      by_contra hne
      exact hfailed (h a ha (Ne.symm hne))

/-- After some calls the directory holds what they staged, whether or not the store then took it: a
document that was not extracted stages nothing, and a picture is lost only to a later one of its name.
The images that were stored are the pictures of the calls that succeeded. -/
theorem files_after [Image.Library] (h : Reachable d.blog.pool) (hempty : d.files = []) (calls : List Call) :
    let log := d.log calls
    (∀ a ∈ log, (∀ w ∈ a.staged, IsPictureName w.1) ∧ (a.staged.map (·.1)).Nodup ∧
      ∀ fault, a.result = .error (.document fault) → a.staged = []) ∧
    (d.after calls).files = Folder.putAll (log.flatMap (·.staged)) [] ∧
    (d.after calls).imageFiles = d.imageFiles ++ log.flatMap (·.stored) ∧
    (((log.flatMap (·.staged)).map (·.1)).Nodup →
      (d.after calls).files = log.flatMap (·.staged) ∧
      ((∀ a ∈ log, a.staged ≠ [] → a.result.isOk) → d.Mirrors (d.after calls))) := by
  intro log
  obtain ⟨hlog, hfiles, himages⟩ := run_after h.sound calls
  rw [hempty] at hfiles
  refine ⟨hlog, hfiles, himages, ?_⟩
  intro hnames
  have hall : (d.after calls).files = log.flatMap (·.staged) :=
    hfiles.trans (Folder.putAll_of_new hnames)
  refine ⟨hall, ?_⟩
  intro hok
  refine ⟨log.flatMap (·.stored), himages, ?_⟩
  rw [hall, flatMap_stored hok]

/-- The store takes the first of two posts of one title; both pictures stay. -/
theorem files_after_refused :
    let archive : Zip.Archive := .ofMembers [
      ("word/document.xml", Bytes.ofString "<body><p><drawing><blip embed='a'/></drawing></p></body>"),
      ("word/_rels/document.xml.rels", Bytes.ofString "<Relationship Id='a' Target='i.gif'/>"),
      ("word/i.gif", ⟨#[71, 73, 70, 56, 57, 97, 2, 0, 3, 0, 0, 0, 0, 44, 0]⟩)]
    let call (n : UInt32) : Call :=
      ⟨⟨"d.docx", .file (some archive), some "t", none⟩, ⟨2025, 1, 1, 0, 0, 0, 0⟩, [n]⟩
    let d : Desk := ⟨⟨⟨.fresh, none⟩, .empty⟩, .absent "dir"⟩
    let d' := d.after [call 1, call 2]
    d'.files.map (·.1) = ["img_00000001.gif", "img_00000002.gif"] ∧
      d'.imageFiles.map (·.1) = ["img_00000001.gif"] := by
  intro archive call d d'
  obtain ⟨-, -, himages, hfiles⟩ := files_after (d := d) .fresh rfl [call 1, call 2]
  have hstaged : ((d.log [call 1, call 2]).flatMap (·.staged)).map (·.1) =
      ["img_00000001.gif", "img_00000002.gif"] := by decide +kernel
  have hstored : ((d.log [call 1, call 2]).flatMap (·.stored)).map (·.1) =
      ["img_00000001.gif"] := by decide +kernel
  obtain ⟨hfiles, -⟩ := hfiles (hstaged ▸ by decide)
  have hnone : d.imageFiles = [] := rfl
  rw [hnone, List.nil_append] at himages
  constructor
  · rw [← hstaged, ← hfiles]
  · rw [← hstored, ← himages]

/-- A post whose author is too long is refused and its picture stays, and a picture is replaced by one
of another document under the same id. -/
theorem not_mirrors :
    let picture (width : UInt8) : ByteArray :=
      ⟨#[71, 73, 70, 56, 57, 97, width, 0, 3, 0, 0, 0, 0, 44, 0]⟩
    let archive (width : UInt8) : Zip.Archive := .ofMembers [
      ("word/document.xml", Bytes.ofString "<body><p><drawing><blip embed='a'/></drawing></p></body>"),
      ("word/_rels/document.xml.rels", Bytes.ofString "<Relationship Id='a' Target='i.gif'/>"),
      ("word/i.gif", picture width)]
    let call (width : UInt8) (title : String) (author : Option String) : Call :=
      ⟨⟨"d.docx", .file (some (archive width)), some title, author⟩, ⟨2025, 1, 1, 0, 0, 0, 0⟩, [1]⟩
    let d : Desk := ⟨⟨⟨.fresh, none⟩, .empty⟩, .absent "dir"⟩
    let refused := [call 2 "t" (some (String.ofList (List.replicate 101 'x')))]
    let replaced := [call 2 "t" none, call 4 "u" none]
    d.files = [] ∧
    ((d.log refused).map (·.result.isOk) = [false] ∧
      (d.after refused).files = [("img_00000001.gif", picture 2)] ∧ ¬d.Mirrors (d.after refused)) ∧
    ((d.log replaced).map (·.result.isOk) = [true, true] ∧
      (d.after replaced).files = [("img_00000001.gif", picture 4)] ∧
      ¬d.Mirrors (d.after replaced)) := by
  intro picture archive call d refused replaced
  refine ⟨rfl, ⟨by decide +kernel, by decide +kernel, ?_⟩, by decide +kernel, by decide +kernel, ?_⟩
  · have hlength : (d.after refused).imageFiles.length ≠
        d.imageFiles.length + (d.after refused).files.length := by decide +kernel
    exact fun h => hlength h.length
  · have hlength : (d.after replaced).imageFiles.length ≠
        d.imageFiles.length + (d.after replaced).files.length := by decide +kernel
    exact fun h => hlength h.length

end Desk

end Inkpress
