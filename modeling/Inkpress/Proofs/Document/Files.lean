import Inkpress.Proofs.Document.Draws
import Inkpress.Proofs.Document.Numbering

namespace Inkpress.Document

def isHexChar (c : Char) : Bool :=
  c.isDigit || ('a' ≤ c && c ≤ 'f')

def isNameChar (c : Char) : Bool :=
  c.isLower || c.isDigit || c = '-' || c = '.'

/-- A mark and eight hexadecimal digits, a dot, and an extension that is not empty. -/
def IsPictureName (name : String) : Prop :=
  ∃ digits ext : List Char, name.toList = "img_".toList ++ digits ++ '.' :: ext ∧
    digits.length = 8 ∧ (∀ c ∈ digits, isHexChar c) ∧ ext ≠ [] ∧ ∀ c ∈ ext, isNameChar c

theorem isHexChar_hexDigit : ∀ d : Fin 16, isHexChar (Json.hexDigit d) := by decide

theorem isHexChar_of_mem_hexDigits {n x : Nat} {c : Char} (h : c ∈ ImageId.hexDigits n x) :
    isHexChar c := by
  induction n generalizing x with
  | zero => cases h
  | succ n ih =>
      rcases List.mem_append.1 h with h | h
      · exact ih h
      · obtain rfl := List.mem_singleton.1 h
        exact isHexChar_hexDigit ⟨x % 16, Nat.mod_lt x (by decide)⟩

theorem toNat_lt_of_isExtensionChar {c : Char} (h : isExtensionChar c) : c.toNat < 128 := by
  simp only [isExtensionChar, Bool.or_eq_true, decide_eq_true_eq] at h
  rcases h with (h | rfl) | rfl
  · have hlt {bound : UInt32} (hc : c.val ≤ bound) (hbound : bound.toNat < 128) : c.toNat < 128 :=
      Nat.lt_of_le_of_lt (UInt32.le_iff_toNat_le.1 hc) hbound
    rcases Bool.or_eq_true_iff.1 h with halpha | hdigit
    · rcases Bool.or_eq_true_iff.1 halpha with hupper | hlower
      · exact hlt (of_decide_eq_true hupper).2 (by decide)
      · exact hlt (of_decide_eq_true (Bool.and_eq_true_iff.1 hlower).2) (by decide)
    · exact hlt (of_decide_eq_true (Bool.and_eq_true_iff.1 hdigit).2) (by decide)
  · decide
  · decide

theorem isNameChar_toLower {c : Char} (h : isExtensionChar c) : isNameChar c.toLower := by
  -- Only ASCII characters are kept, so all of them can be tried.
  have hascii : ∀ n : Fin 128, isExtensionChar (Char.ofNat n) → isNameChar (Char.ofNat n).toLower := by
    decide
  have hc := hascii ⟨c.toNat, toNat_lt_of_isExtensionChar h⟩
  rw [Char.ofNat_toNat] at hc
  exact hc h

theorem fileExtension_cases (contentType : String) : fileExtension contentType = "bin" ∨
    ∃ ext : List Char, ext ≠ [] ∧ (∀ c ∈ ext, isExtensionChar c) ∧
      (fileExtension contentType).toList = ext.map Char.toLower := by
  obtain ⟨ext, he, hext⟩ : ∃ ext : List Char, fileExtension contentType =
      (if ext.isEmpty then "bin" else Text.lowerAscii (String.ofList ext)) ∧
        ∀ c ∈ ext, isExtensionChar c := by
    simp only [fileExtension]
    exact ⟨_, rfl, fun c hc => (List.mem_filter.1 hc).2⟩
  cases ext with
  | nil => exact .inl he
  | cons c cs =>
      right
      refine ⟨c :: cs, List.cons_ne_nil c cs, hext, ?_⟩
      rw [he, List.isEmpty_cons, if_neg Bool.false_ne_true, Text.lowerAscii, String.toList_map,
        String.toList_ofList]

theorem fileExtension_ne_nil (contentType : String) : (fileExtension contentType).toList ≠ [] := by
  rcases fileExtension_cases contentType with h | ⟨ext, hne, -, h⟩
  · rw [h]
    decide
  · rw [h]
    exact fun hnil => hne (List.map_eq_nil_iff.1 hnil)

theorem isNameChar_of_mem_fileExtension {contentType : String} {c : Char}
    (hc : c ∈ (fileExtension contentType).toList) : isNameChar c := by
  rcases fileExtension_cases contentType with h | ⟨ext, -, hext, h⟩
  · have hbin : "bin".toList.all isNameChar := by decide
    exact List.all_eq_true.1 hbin c (h ▸ hc)
  · rw [h] at hc
    obtain ⟨d, hd, rfl⟩ := List.mem_map.1 hc
    exact isNameChar_toLower (hext d hd)

theorem isPictureName_fileNameOf (n : UInt32) (contentType : String) :
    IsPictureName (fileNameOf (ImageId.ofDraw n) contentType) := by
  refine ⟨ImageId.hexDigits 8 n.toNat, (fileExtension contentType).toList, ?_,
    ImageId.length_hexDigits 8 _, fun c hc => isHexChar_of_mem_hexDigits hc,
    fileExtension_ne_nil contentType, fun c hc => isNameChar_of_mem_fileExtension hc⟩
  rw [fileNameOf, String.toList_append, String.toList_append, ImageId.toList_ofDraw,
    List.append_assoc]
  rfl

namespace Folder

/-- Writes some files, one after the other. -/
def putAll (writes files : List (String × ByteArray)) : List (String × ByteArray) :=
  writes.foldl (fun files w => Assoc.put w.1 w.2 files) files

theorem putAll_append (ws ws' files : List (String × ByteArray)) :
    putAll (ws ++ ws') files = putAll ws' (putAll ws files) := List.foldl_append

theorem putAll_of_new {ws files : List (String × ByteArray)}
    (h : ((files ++ ws).map (·.1)).Nodup) : putAll ws files = files ++ ws := by
  induction ws generalizing files with
  | nil => rw [List.append_nil]; rfl
  | cons w ws ih =>
      rw [List.append_cons] at h ⊢
      have hnew : w.1 ∉ files.map (·.1) := by
        rw [List.map_append, List.map_append, List.append_assoc] at h
        intro hmem
        exact (List.nodup_append.1 h).2.2 _ hmem _ (List.mem_cons_self ..) rfl
      have hput : Assoc.put w.1 w.2 files = files ++ [w] := Assoc.alter_of_notMem hnew
      rw [putAll, List.foldl_cons, hput]
      exact ih h

theorem find?_putAll_of_not_mem {ws : List (String × ByteArray)} {name : String}
    (h : name ∉ ws.map (·.1)) (files : List (String × ByteArray)) :
    (Table.mk (putAll ws files)).find? name = (Table.mk files).find? name := by
  induction ws generalizing files with
  | nil => rfl
  | cons w ws ih =>
      rw [List.map_cons, List.mem_cons, not_or] at h
      rw [putAll, List.foldl_cons, ← putAll, ih h.2]
      exact (Table.find?_insert ⟨files⟩ w.1 w.2 name).trans (if_neg h.1)

end Folder

theorem Staging.files_of_create? {staging : Staging} {folder : Folder}
    (h : staging.create? = some folder) : folder.files = staging.files := by
  cases staging with
  | present f => rw [← Option.some.inj h]; rfl
  | absent path => rw [← Option.some.inj h]; rfl
  | blocked => cases h

theorem path_of_pictureOf [Image.Library] {p : Package} {folder : Folder} {embed : Option String} {id : String}
    {s : StagedImage} {data : ByteArray} (h : pictureOf p folder embed id = some (s, data)) :
    s.path = folder.pathOf s.fileName := by
  obtain ⟨_, _, _, _, _, _, _, _, rfl⟩ := pictureOf_eq_some.1 h
  rfl

namespace Progress

/-- The records of the staged pictures in the order of the document, each with what its file holds.
-/
def staged (s : Progress) : List (StagedImage × ByteArray) :=
  (s.done.images.values.filterMap (·.staged)).filterMap fun f =>
    (s.folder.read? f.fileName).map fun data => (f, data)

def stagedFiles (s : Progress) : List (String × ByteArray) :=
  s.staged.map fun f => (f.1.fileName, f.2)

variable [Image.Library] {p : Package} {folder : Folder} {ps : List Piece} (h : Numbered (slotsOf ps))
  (draws : Draws)

theorem foldl_write (slots : List Slot) (files : List (String × ByteArray)) :
    slots.foldl (Slot.write p folder) files = Folder.putAll
      ((slots.filterMap fun c => pictureOf p folder c.embed c.id).map fun f => (f.1.fileName, f.2))
      files := by
  induction slots generalizing files with
  | nil => rfl
  | cons c slots ih =>
      rw [List.foldl_cons, ih, List.filterMap_cons, Slot.write]
      cases pictureOf p folder c.embed c.id <;> rfl

include h

theorem staged_ofPieces : (ofPieces p folder ps draws).staged =
    (slotsOf ps).filterMap fun c => pictureOf p folder c.embed c.id := by
  rw [staged, values_ofPieces, List.filterMap_map, List.filterMap_filterMap]
  refine List.filterMap_congr ?_
  intro c hc
  rw [Function.comp_apply, Slot.entry]
  cases hpicture : pictureOf p folder c.embed c.id with
  | none => rfl
  | some picture =>
      obtain ⟨f, data⟩ := picture
      have hread := readPath?_ofPieces h draws hc hpicture
      rw [path_of_pictureOf hpicture] at hread
      have hread : (ofPieces p folder ps draws).folder.read? f.fileName = some data :=
        (Folder.readPath?_pathOf _ _).symm.trans hread
      simp only [Option.map_some, Option.bind_some, hread]

theorem files_ofPieces : (ofPieces p folder ps draws).folder.files =
    Folder.putAll (ofPieces p folder ps draws).stagedFiles folder.files := by
  rw [stagedFiles, staged_ofPieces h draws, ofPieces]
  exact foldl_write (slotsOf ps) folder.files

theorem mem_staged_ofPieces {f : StagedImage × ByteArray}
    (hf : f ∈ (ofPieces p folder ps draws).staged) :
    ∃ c ∈ slotsOf ps, pictureOf p folder c.embed c.id = some f := by
  rw [staged_ofPieces h draws] at hf
  exact List.mem_filterMap.1 hf

theorem records_ofPieces : (ofPieces p folder ps draws).staged.map (·.1) =
    (ofPieces p folder ps draws).done.images.values.filterMap (·.staged) := by
  rw [staged_ofPieces h draws, values_ofPieces, List.filterMap_map, List.map_filterMap]
  rfl

theorem nodup_names_ofPieces :
    ((ofPieces p folder ps draws).stagedFiles.map (·.1)).Nodup := by
  rw [stagedFiles, staged_ofPieces h draws, List.map_map]
  -- Names of different ids are different, whatever their extensions are.
  refine List.pairwise_map.2 (List.pairwise_filterMap.2 (h.ids.imp_of_mem ?_))
  intro c d hc hd hne f hf f' hf'
  exact fileName_ne (h.drawn c hc) (h.drawn d hd) hne hf hf'

theorem find?_ofPieces_of_not_mem {name : String}
    (hname : name ∉ (ofPieces p folder ps draws).stagedFiles.map (·.1)) :
    (ofPieces p folder ps draws).folder.read? name = folder.read? name := by
  have hfind := Folder.find?_putAll_of_not_mem hname folder.files
  rw [← files_ofPieces h draws] at hfind
  exact hfind

end Progress

def Mark.embed? : Mark → Option (Option String)
  | text _ => none
  | drawing embed => some embed

theorem embeds_marksOf (q : Body.Paragraph) : (marksOf q).filterMap Mark.embed? = q.drawings := by
  rw [marksOf, List.filterMap_append, List.filterMap_map]
  cases q.isBlank <;> exact List.filterMap_some

theorem Piece.embeds_slotsOf {ps : List Piece} {paragraphs : List Body.Paragraph}
    (h : ps.map mark = paragraphs.flatMap marksOf) :
    (slotsOf ps).map (·.embed) = paragraphs.flatMap (·.drawings) := by
  have hmarks : (slotsOf ps).map (·.embed) = (ps.map mark).filterMap Mark.embed? := by
    rw [slotsOf, List.map_filterMap, List.filterMap_map]
    refine List.filterMap_congr ?_
    intro q _
    cases q <;> rfl
  rw [hmarks, h, List.filterMap_flatMap]
  simp only [embeds_marksOf]

/-- What an extraction of paragraphs does to the files of a folder. -/
structure Staged (p : Package) (paragraphs : List Body.Paragraph) (folder : Folder) (s : Progress) :
    Prop where
  files : s.folder.files = Folder.putAll s.stagedFiles folder.files
  records : s.staged.map (·.1) = s.done.images.values.filterMap (·.staged)
  names : (s.stagedFiles.map (·.1)).Nodup
  named : ∀ f ∈ s.staged, IsPictureName f.1.fileName ∧
    f.1.path = folder.path ++ "/" ++ f.1.fileName
  holds : ∀ f ∈ s.staged, s.folder.read? f.1.fileName = some f.2
  own : ∀ id e f, s.done.images.find? id = some e → e.staged = some f → ∃ rel r data,
    (paragraphs.flatMap (·.drawings))[e.sourceIndex - 1]? = some (some rel) ∧
    p.relationships.find? rel = some r ∧ r.external = false ∧
    p.archive.find? (p.partOf r) = some (.bytes data) ∧ (f, data) ∈ s.staged
  others : ∀ name, name ∉ s.stagedFiles.map (·.1) → s.folder.read? name = folder.read? name
  unresolved : ∀ id e, s.done.images.find? id = some e → e.staged = none →
    ∀ ext, s.folder.read? (id ++ "." ++ ext) = folder.read? (id ++ "." ++ ext)

theorem Progress.staged_of_numbered [Image.Library] {p : Package} {paragraphs : List Body.Paragraph} {ps : List Piece}
    (hmarks : ps.map Piece.mark = paragraphs.flatMap marksOf) (h : Numbered (slotsOf ps))
    (folder : Folder) (draws : Draws) : Staged p paragraphs folder (ofPieces p folder ps draws) where
  files := files_ofPieces h draws
  records := records_ofPieces h draws
  names := nodup_names_ofPieces h draws
  named := by
    intro f hf
    obtain ⟨c, hc, hpicture⟩ := mem_staged_ofPieces h draws hf
    refine ⟨?_, path_of_pictureOf hpicture⟩
    obtain ⟨n, hn⟩ := h.drawn c hc
    obtain ⟨_, _, _, _, _, _, _, _, hf⟩ := pictureOf_eq_some.1 hpicture
    rw [hf, hn]
    exact isPictureName_fileNameOf n _
  holds := by
    intro f hf
    obtain ⟨g, -, hg⟩ := List.mem_filterMap.1 hf
    obtain ⟨data, hdata, rfl⟩ := Option.map_eq_some_iff.1 hg
    exact hdata
  own := by
    intro id e f he hstaged
    obtain ⟨k, c, hc, -, rfl⟩ := exists_slot_ofPieces p folder draws he
    obtain ⟨⟨f, data⟩, hpicture, rfl⟩ := Option.map_eq_some_iff.1 hstaged
    obtain ⟨rel, picture, size, hembed, hpart, -, -, rfl, -⟩ := pictureOf_eq_some.1 hpicture
    obtain ⟨r, data, hr, hinternal, hdata, rfl⟩ := Package.picture_eq_ok.1 hpart
    refine ⟨rel, r, data, ?_, hr, hinternal, hdata, ?_⟩
    · have hnumber : (c.entry p folder).sourceIndex - 1 = k := by
        rw [Slot.entry, h.number_eq hc, Nat.add_sub_cancel]
      rw [hnumber, ← Piece.embeds_slotsOf hmarks, List.getElem?_map, hc, Option.map_some, hembed]
    · rw [staged_ofPieces h draws]
      exact List.mem_filterMap.2 ⟨c, List.mem_of_getElem? hc, hpicture⟩
  others := by
    intro name hname
    exact find?_ofPieces_of_not_mem h draws hname
  unresolved := by
    intro id e he hstaged ext
    obtain ⟨k, c, hc, rfl, rfl⟩ := exists_slot_ofPieces p folder draws he
    have hc := List.mem_of_getElem? hc
    -- A file under this id would be that of a drawing with the id, and so of this one.
    refine find?_ofPieces_of_not_mem h draws ?_
    intro hname
    obtain ⟨f, hf, hname⟩ := List.mem_map.1 hname
    obtain ⟨g, hg, rfl⟩ := List.mem_map.1 hf
    obtain ⟨d, hd, hpicture⟩ := mem_staged_ofPieces h draws hg
    obtain ⟨m, hm⟩ := h.drawn c hc
    obtain ⟨n, hn⟩ := h.drawn d hd
    obtain ⟨_, _, _, _, _, _, _, _, hg⟩ := pictureOf_eq_some.1 hpicture
    rw [hg, hm, hn, fileNameOf, String.append_assoc, String.append_assoc] at hname
    have hid : d.id = c.id := hn.trans ((ImageId.ofDraw_eq_of_append hname).trans hm.symm)
    obtain rfl : d = c := List.inj_on_of_nodup_map h.nodup hd hc hid
    rw [Slot.entry, hpicture] at hstaged
    cases hstaged

/-- An extraction fails and leaves the files alone, or it leaves the folder of its result. -/
theorem extractFile_cases [Image.Library] (path : String) (source : Source) (staging : Staging) (draws : Draws) :
    (∃ fault staging', extractFile path source staging draws = (.error fault, staging') ∧
      staging'.files = staging.files) ∨
    ∃ s, extractFile path source staging draws = (.ok s, .present s.folder) := by
  cases source with
  | missing => exact .inl ⟨_, _, rfl, rfl⟩
  | file archive =>
      cases hfolder : staging.create? with
      | none =>
          refine .inl ⟨.noDirectory, staging, ?_, rfl⟩
          simp only [extractFile, hfolder]
      | some folder =>
          have hfiles : folder.files = staging.files := Staging.files_of_create? hfolder
          simp only [extractFile, hfolder]
          cases extract archive folder draws with
          | ok s => exact .inr ⟨s, rfl⟩
          | fault fault => exact .inl ⟨_, _, rfl, hfiles⟩
          | exhausted => exact .inl ⟨_, _, rfl, hfiles⟩

/-- An extraction that fails has written nothing, wherever it fails. One that does not has written
the files of its staged records, whatever the package says of them: in the directory, under names that
no other drawing's file has, and each with the bytes of its own part. -/
theorem extractFile_files [Image.Library] (path : String) (source : Source) (staging : Staging) (draws : Draws) :
    let r := extractFile path source staging draws
    (∀ fault, r.1 = .error fault → r.2.files = staging.files) ∧
    ∀ s, r.1 = .ok s → ∃ archive p paragraphs folder,
      source = .file archive ∧ Package.ofFile archive = .ok p ∧ paragraphsOf p = .ok paragraphs ∧
      staging.create? = some folder ∧ folder.files = staging.files ∧
      r.2 = .present s.folder ∧ s.folder.path = folder.path ∧ Staged p paragraphs folder s := by
  intro r
  rcases extractFile_cases path source staging draws with ⟨fault, staging', hr, hfiles⟩ | ⟨s, hr⟩
  · refine ⟨?_, ?_⟩
    · intro _ _
      simp only [r, hr, hfiles]
    · intro s hs
      simp only [r, hr] at hs
      cases hs
  · refine ⟨?_, ?_⟩
    · intro fault hfault
      simp only [r, hr] at hfault
      cases hfault
    · intro u hu
      simp only [r, hr] at hu ⊢
      obtain rfl : s = u := Except.ok.inj hu
      obtain ⟨archive, p, paragraphs, folder, ps, hsource, hp, hparagraphs, hfolder, hmarks, hnumbered,
        hs⟩ := extractFile_ok hr
      refine ⟨archive, p, paragraphs, folder, hsource, hp, hparagraphs, hfolder,
        Staging.files_of_create? hfolder, rfl, ?_, ?_⟩
      · rw [hs]
        rfl
      · rw [hs]
        exact Progress.staged_of_numbered hmarks hnumbered folder s.draws

/-- The content type of a picture tries to lead out of the directory, where a file of the first id
is; the other drawing has no picture. -/
theorem extractFile_files_hostile :
    let archive : Zip.Archive := .ofMembers [
      ("word/document.xml", Bytes.ofString
        "<body><p><drawing/><drawing><blip embed='a'/></drawing></p></body>"),
      ("word/_rels/document.xml.rels", Bytes.ofString "<Relationship Id='a' Target='/../i.gif'/>"),
      ("[Content_Types].xml", Bytes.ofString
        "<Override PartName='/i.gif' ContentType='image/../../Etc/%P;q'/>"),
      ("i.gif", ⟨#[71, 73, 70, 56, 57, 97, 2, 0, 3, 0, 0, 0, 0, 44, 0]⟩)]
    let staging : Staging :=
      .present ⟨"dir", [("img_00000001.....etcp", .empty)], fun _ => true⟩
    let r := extractFile "d.docx" (.file (some archive)) staging [1, 1, 255]
    ∃ s, r.1 = .ok s ∧ r.2 = .present s.folder ∧
      s.stagedFiles.map (·.1) = ["img_000000ff.....etcp"] ∧
      (∀ f ∈ s.staged, IsPictureName f.1.fileName) ∧
      s.folder.read? "img_00000001.....etcp" = some .empty := by
  intro archive staging r
  have hnames : r.1.toOption.map (fun s => s.stagedFiles.map (·.1)) =
      some ["img_000000ff.....etcp"] := by decide +kernel
  obtain ⟨s, hs, hname⟩ := Option.map_eq_some_iff.1 hnames
  have hs : r.1 = .ok s := ok_of_toOption hs
  obtain ⟨_, p, _, folder, -, -, -, hfolder, -, hr, -, hstaged⟩ :=
    (extractFile_files "d.docx" (.file (some archive)) staging [1, 1, 255]).2 s hs
  obtain rfl := Option.some.inj hfolder
  have hother : "img_00000001.....etcp" ∉ s.stagedFiles.map (·.1) := by
    rw [hname]
    decide
  refine ⟨s, hs, hr, hname, fun f hf => (hstaged.named f hf).1, ?_⟩
  exact hstaged.others _ hother

end Inkpress.Document
