import Inkpress.Document.Source
import Mathlib.Data.List.Nodup
import Mathlib.Data.Option.Basic

namespace Inkpress

theorem Package.picture_eq_ok [Image.Library] {p : Package} {rel : String} {picture : Package.Picture} :
    p.picture rel = .ok picture ↔ ∃ r data, p.relationships.find? rel = some r ∧
      r.external = false ∧ p.archive.find? (p.partOf r) = some (.bytes data) ∧
      picture = ⟨p.contentTypeOf (p.partOf r), data⟩ := by
  rw [Package.picture]
  constructor
  · intro h
    split at h
    · cases h
    · next r hr =>
        split at h
        · cases h
        · next hinternal =>
            split at h
            · cases h
            · cases h
            · cases h
            · next data hdata =>
                exact ⟨r, data, hr, by simpa using hinternal, hdata, (Except.ok.inj h).symm⟩
  · rintro ⟨r, data, hr, hinternal, hdata, rfl⟩
    simp only [hr, hinternal, Bool.false_eq_true, if_false, hdata]

namespace Document

theorem ok_of_toOption {ε α : Type} {x : Except ε α} {a : α} (h : x.toOption = some a) : x = .ok a := by
  cases x with
  | error e => cases h
  | ok b => exact congrArg Except.ok (Option.some.inj h)

namespace Folder

theorem pathOf_inj {f : Folder} {a b : String} : f.pathOf a = f.pathOf b ↔ a = b :=
  String.append_right_inj _

theorem readPath?_pathOf (f : Folder) (name : String) :
    f.readPath? (f.pathOf name) = (Table.mk f.files).find? name := by
  simp only [readPath?, Table.find?, pathOf_inj]

end Folder

namespace ImageId

theorem length_hexDigits (n x : Nat) : (hexDigits n x).length = n := by
  induction n generalizing x with
  | zero => rfl
  | succ n ih => rw [hexDigits, List.length_append, ih, List.length_singleton]

theorem toList_ofDraw (n : UInt32) :
    (ofDraw n).toList = "img_".toList ++ hexDigits 8 n.toNat :=
  String.toList_ofList

theorem length_ofDraw (n : UInt32) : (ofDraw n).toList.length = 12 := by
  rw [toList_ofDraw, List.length_append, length_hexDigits]
  rfl

theorem ofDraw_eq_of_append {m n : UInt32} {s t : String} (h : ofDraw m ++ s = ofDraw n ++ t) :
    ofDraw m = ofDraw n := by
  have hlist := congrArg String.toList h
  rw [String.toList_append, String.toList_append] at hlist
  refine String.toList_inj.1 (List.append_inj_left hlist ?_)
  rw [length_ofDraw, length_ofDraw]

theorem exists_draw_of_fresh? {taken : String → Bool} {draws rest : Draws} {id : String}
    (h : fresh? taken draws = some (id, rest)) : ∃ n, id = ofDraw n := by
  induction draws with
  | nil => cases h
  | cons n draws ih =>
      rw [fresh?] at h
      split at h
      · exact ih h
      · exact ⟨n, (Prod.mk.inj (Option.some.inj h)).1.symm⟩

end ImageId

def fileNameOf (id contentType : String) : String :=
  id ++ "." ++ fileExtension contentType

theorem id_eq_of_fileNameOf {m n : UInt32} {type type' : String}
    (h : fileNameOf (ImageId.ofDraw m) type = fileNameOf (ImageId.ofDraw n) type') :
    ImageId.ofDraw m = ImageId.ofDraw n := by
  rw [fileNameOf, fileNameOf, String.append_assoc, String.append_assoc] at h
  exact ImageId.ofDraw_eq_of_append h

section

variable [Image.Library]

/-- The record and the bytes of a drawing's picture, if one can be had and written. -/
def pictureOf (p : Package) (folder : Folder) (embed : Option String) (id : String) :
    Option (StagedImage × ByteArray) := do
  let rel ← embed
  let picture ← (p.picture rel).toOption
  let size ← Image.Library.size? picture.data
  let name := fileNameOf id picture.contentType
  if folder.accepts name then
    some (⟨folder.pathOf name, name, picture.contentType, size.width, size.height⟩, picture.data)
  else none

theorem stage_eq (p : Package) (embed : Option String) (id : String) (folder : Folder) :
    (stage p embed id folder).toOption = (pictureOf p folder embed id).map fun (s, data) =>
      (s, { folder with files := Assoc.put s.fileName data folder.files }) := by
  cases embed with
  | none => rfl
  | some rel =>
      simp only [stage, pictureOf, Option.bind_eq_bind, Option.bind_some]
      cases p.picture rel with
      | error fault => rfl
      | ok picture =>
          simp only [Except.toOption, Option.bind_some]
          cases Image.Library.size? picture.data with
          | none => rfl
          | some size =>
              simp only [Option.bind_some, Folder.write?, fileNameOf]
              by_cases haccepts : folder.accepts (id ++ "." ++ fileExtension picture.contentType)
              · simp only [haccepts, if_true]
                rfl
              · simp only [haccepts, Bool.false_eq_true, if_false]
                rfl

theorem pictureOf_eq_some {p : Package} {folder : Folder} {embed : Option String} {id : String}
    {s : StagedImage} {data : ByteArray} :
    pictureOf p folder embed id = some (s, data) ↔
      ∃ rel picture size, embed = some rel ∧ p.picture rel = .ok picture ∧
        Image.Library.size? picture.data = some size ∧
        folder.accepts (fileNameOf id picture.contentType) ∧ data = picture.data ∧
        s = ⟨folder.pathOf (fileNameOf id picture.contentType), fileNameOf id picture.contentType,
          picture.contentType, size.width, size.height⟩ := by
  simp only [pictureOf, Option.bind_eq_bind, Option.bind_eq_some_iff]
  constructor
  · rintro ⟨rel, rfl, picture, hpicture, size, hsize, h⟩
    split at h
    · next haccepts =>
        obtain ⟨rfl, rfl⟩ := Prod.mk.inj (Option.some.inj h)
        refine ⟨rel, picture, size, rfl, ?_, hsize, haccepts, rfl, rfl⟩
        cases hp : p.picture rel with
        | error fault => simp [hp, Except.toOption] at hpicture
        | ok q => simpa [hp, Except.toOption] using hpicture
    · cases h
  · rintro ⟨rel, picture, size, rfl, hpicture, hsize, haccepts, rfl, rfl⟩
    refine ⟨rel, rfl, picture, ?_, size, hsize, if_pos haccepts⟩
    rw [hpicture]
    rfl

end

end Document

end Inkpress
