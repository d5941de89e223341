import Inkpress.Command.Run
import Inkpress.Proofs.Settings.Verbatim
import Inkpress.Proofs.Store.Outcome
import Inkpress.Zip.Writer

namespace Inkpress

namespace Store

variable {t t' : Tables} {readFile : String → Option ByteArray} {now : Moment} {p : NewPost}
  {parts : List Document.Part} {images : Document.ImageMap}

theorem Tables.keptByParts_posts (posts : List Post) : KeptByParts fun t => t.posts = posts where
  block h hi := by
    unfold insertBlock at hi
    split at hi
    · cases hi
    · split at hi
      · cases hi
      · cases hi
        exact h
  image h hi := by
    unfold insertImage at hi
    split at hi
    · cases hi
    · split at hi
      · cases hi
      · cases hi
        exact h

theorem posts_storePost {done : Stored} (h : storePost readFile now p parts images t = .ok (done, t')) :
    ∃ post, t'.posts = t.posts ++ [post] ∧ post.author = p.author := by
  obtain ⟨⟨row, u⟩, hrow, h⟩ := ok_of_bind h
  obtain ⟨⟨u', done'⟩, hparts, h⟩ := ok_of_bind h
  cases h
  have hinsert := ok_of_mapError hrow
  unfold Tables.insertPost at hinsert
  split at hinsert
  · cases hinsert
  · cases hinsert
    exact ⟨_, (Tables.keptByParts_posts _).storeParts rfl hparts, rfl⟩

def AddsPostBy (author : Option String) (d d' : Database) : Prop :=
  ∃ t t' post, d.tables = some t ∧ d'.tables = some t' ∧ t'.posts = t.posts ++ [post] ∧
    post.author = author

theorem Pool.addsPostBy_store {pool : Pool} {stored : Stored}
    (h : (pool.store readFile now p parts images).1 = .ok stored) :
    AddsPostBy p.author pool.primary (pool.store readFile now p parts images).2.primary := by
  unfold store at h ⊢
  split at h
  · next hfields =>
      simp only [change, write, Database.change] at h ⊢
      cases hreach : pool.primary.reach with
      | error e => rw [hreach] at h; cases h
      | ok t =>
          rw [hreach] at h
          simp only at h ⊢
          cases hstore : storePost readFile now p parts images t with
          | error e => rw [hstore] at h; cases h
          | ok r =>
              obtain ⟨done, t'⟩ := r
              obtain ⟨post, hposts, hauthor⟩ := posts_storePost hstore
              exact ⟨t, t', post, (Database.tables_of_reach hreach).1, rfl, hposts, hauthor⟩
  · cases h

end Store

namespace Blog

variable [Image.Library] {b : Blog} {r : Request} {now : Moment} {staging : Document.Staging} {draws : Document.Draws}

theorem addsPostBy_ingest {stored : Store.Stored} (h : (b.ingest r now staging draws).result = .ok stored) :
    Store.AddsPostBy r.author b.pool.primary (b.ingest r now staging draws).blog.pool.primary := by
  cases hextract : Document.extractFile r.path r.source staging draws with
  | mk result staging' =>
      cases result with
      | error fault =>
          obtain ⟨hresult, -, -⟩ := b.ingest_of_fault now hextract
          rw [hresult] at h
          cases h
      | ok s =>
          obtain ⟨hresult, hpool, -⟩ := b.ingest_of_extracted now hextract
          rw [hresult] at h
          rw [hpool]
          exact Store.Pool.addsPostBy_store (Store.ok_of_mapError h)

end Blog

namespace Command

open Settings (Key TakenAs)

theorem defaultAuthor_of_takes {s : Settings} {t : String} {x : Except Settings.Fault Settings}
    (h : Settings.Takes .defaultAuthor t x x) (hx : x = .ok s) : s.ingestion.defaultAuthor = t := by
  obtain ⟨s', hs', hget, -⟩ := h s hx
  obtain rfl := Except.ok.inj (hx.symm.trans hs')
  exact Settings.Scalar.text.inj (Option.some.inj hget)

section

variable [Image.Library] {s : Settings} {world : World} {path : String} {title author dir : Option String}

theorem addsPostBy_perform {pool : Store.Pool} {output : String}
    (h : (perform s world pool (.ingest path title author dir)).result = .ok output) :
    Store.AddsPostBy (some (author.getD s.ingestion.defaultAuthor)) pool.primary
      (perform s world pool (.ingest path title author dir)).pool.primary := by
  obtain ⟨stored, hstored, -⟩ := Store.ok_of_map (Store.ok_of_mapError h)
  exact Blog.addsPostBy_ingest hstored

/-- A command that is done has opened the databases and saves what it made of the first of them. -/
theorem execute_done {c : Command} (h : (execute s world c).1.code = 0) :
    ∃ opened w d output, Startup.connect world.workspace s.database = (.ok opened, w) ∧
      d = perform s { world with workspace := w } opened.pool c ∧ d.result = .ok output ∧
      (execute s world c).2.workspace = Startup.save d.workspace opened.primary d.pool.primary := by
  unfold execute at h ⊢
  split at h
  · cases h
  · next opened w hconnect =>
      dsimp only at h ⊢
      split at h
      · cases h
      · next hallowed =>
          rw [if_neg hallowed]
          split at h
          · next output hdone =>
              exact ⟨opened, w, _, output, hconnect, rfl, hdone, rfl⟩
          · cases h

theorem execute_ingest (s : Settings) (world : World) (path : String) (title dir : Option String) :
    execute s world (.ingest path title none dir) =
      execute s world (.ingest path title (some s.ingestion.defaultAuthor) dir) := rfl

/-- Whether a run ingests a document by an author: when it is done, it has saved a database with one more
post, which is by that author. -/
structure IngestsBy (world : World) (args : List String) (s : Settings) (path : String)
    (title dir : Option String) (author : String) : Prop where
  run_eq : run world args = execute s world (.ingest path title (some author) dir)
  recorded : (run world args).1.code = 0 → ∃ opened w kept d,
    Startup.connect world.workspace s.database = (.ok opened, w) ∧
      (run world args).2.workspace = Startup.save kept opened.primary d ∧
      Store.AddsPostBy (some author) opened.primary.database d

theorem ingestsBy_run {args : List String} {config : Option String}
    (hread : read ((Startup.environment world.workspace world.environment).find? "BLOGFORGE_CONFIG") args =
      .invoke ⟨config, .ingest path title none dir⟩)
    (hload : Startup.settings world.workspace (Startup.environment world.workspace world.environment) config =
      .ok s) : IngestsBy world args s path title dir s.ingestion.defaultAuthor := by
  have hrun : run world args = execute s world (.ingest path title (some s.ingestion.defaultAuthor) dir) := by
    simp only [run, hread, hload, execute_ingest]
  refine ⟨hrun, ?_⟩
  intro hcode
  rw [hrun] at hcode ⊢
  obtain ⟨opened, w, d, output, hconnect, rfl, hdone, hsaved⟩ := execute_done hcode
  exact ⟨opened, w, _, _, hconnect, hsaved, addsPostBy_perform hdone⟩

end

/-- A text that a variable sets is what the variable's text is taken as, in settings from the directory and
in those of one file, and no other setting depends on it. So is the author of a post for which the
command line gives none. It is the very text of the variable for some texts only. -/
theorem textual_variable_taken [Image.Library] {k : Key} (hk : k.kind = .text) {name : String}
    (hname : Settings.keyOfVariable? name = some k.name) {before after : Settings.Environment}
    (hafter : Settings.Passes k (Settings.ofEnvironment after)) (s : String) :
    ∃ t, (∀ u, TakenAs s u ↔ u = t) ∧ (t = s ↔ Settings.IsKept s) ∧
      (t = s ∨ t ∈ ["true", "false", "NaN", "inf", "-inf"] ∨ ∀ c ∈ t.toList, Settings.isPlain c) ∧
      (∀ files s', Settings.Takes k t (Settings.load files (before ++ (name, s') :: after))
        (Settings.load files (before ++ (name, s) :: after))) ∧
      (∀ files s' path, Settings.Takes k t (Settings.loadFile files (before ++ (name, s') :: after) path)
        (Settings.loadFile files (before ++ (name, s) :: after) path)) ∧
      (k = .defaultAuthor → ∀ world args config path title dir r,
        let e := Startup.environment world.workspace world.environment
        e = before ++ (name, s) :: after →
        read (e.find? "BLOGFORGE_CONFIG") args = .invoke ⟨config, .ingest path title none dir⟩ →
        Startup.settings world.workspace e config = .ok r → IngestsBy world args r path title dir t) := by
  obtain ⟨t, ht, hunique⟩ := Settings.existsUnique_takenAs s
  refine ⟨t, ?_, ?_, ht.eq_or, fun files s' => Settings.takes_load hk hname hafter ht s',
    fun files s' path => Settings.takes_loadFile hk hname hafter ht s' path, ?_⟩
  · intro u
    refine ⟨hunique u, ?_⟩
    rintro rfl
    exact ht
  · constructor
    · rintro rfl
      exact ht.isKept rfl
    · intro h
      exact (hunique s h.takenAs).symm
  · rintro rfl world args config path title dir r e he hread hload
    have hauthor : r.ingestion.defaultAuthor = t := by
      have hsettings := Store.ok_of_mapError hload
      rw [he] at hsettings
      cases config with
      | none => exact defaultAuthor_of_takes (Settings.takes_load hk hname hafter ht s) hsettings
      | some path =>
          exact defaultAuthor_of_takes (Settings.takes_loadFile hk hname hafter ht s path) hsettings
    exact hauthor ▸ ingestsBy_run hread hload

/-- A post by an author whose name reads as a number. -/
theorem textual_variable_taken_run :
    let w : Workspace := .ofFiles ["home"] [
      ("config/default.toml", "[database]\nurl = \"sqlite://blog.db\"\n".toUTF8),
      ("blog.db", Store.Database.fresh.toFile),
      ("d.docx", Zip.write [("word/document.xml", "<body><p><r><t>x</t></r></p></body>".toUTF8)])]
    let e : Settings.Environment :=
      [("APP__INGESTION__DEFAULT_AUTHOR", "1e3"), ("APP__DATABASE__READ_URL", "sqlite::memory:")]
    let world : World := ⟨w, e, ⟨2025, 1, 1, 0, 0, 0, 0⟩, []⟩
    ∃ opened kept d, (run world ["ingest", "d.docx"]).2.workspace = Startup.save kept opened d ∧
      Store.AddsPostBy (some "1000") opened.database d := by
  intro w e world
  have htaken : TakenAs "1e3" "1000" := Settings.takenAs_iff.2 (by decide +kernel)
  have hafter : Settings.Passes .defaultAuthor
      (Settings.ofEnvironment [("APP__DATABASE__READ_URL", "sqlite::memory:")]) := by
    rw [Settings.ofEnvironment_cons (k := .readUrl) (by decide +kernel)]
    exact List.forall_mem_singleton.2 (Key.isPassedBy_name (by decide))
  obtain ⟨s, hload⟩ : ∃ s, Startup.settings w e none = .ok s := by
    have hok : (Startup.settings w e none).isOk = true := by decide +kernel
    cases hload : Startup.settings w e none with
    | ok s => exact ⟨s, rfl⟩
    | error fault => rw [hload] at hok; cases hok
  obtain ⟨t, ht, -, -, -, -, hauthor⟩ := @textual_variable_taken _ .defaultAuthor rfl
    "APP__INGESTION__DEFAULT_AUTHOR" (by decide +kernel) [] _ hafter "1e3"
  obtain rfl := (ht "1000").1 htaken
  have hingests := hauthor rfl world ["ingest", "d.docx"] none "d.docx" none none s rfl rfl hload
  obtain ⟨opened, -, kept, d, -, hsaved, hadded⟩ := hingests.recorded (by decide +kernel)
  exact ⟨opened.primary, kept, d, hsaved, hadded⟩

/-- An author whose name is a number with a zero in front: the zeros are lost. -/
theorem load_numeral_author :
    let files : Settings.Files := fun name =>
      if name = "config/default.toml" then some "[database]\nurl = \"sqlite://blog.db\"\n".toUTF8 else none
    let e : Settings.Environment := [("APP__INGESTION__DEFAULT_AUTHOR", "007")]
    (Settings.ofEnvironment e).map (·.1) = [Key.defaultAuthor.name] ∧
      ∃ s, Settings.load files e = .ok s ∧ s.get? .defaultAuthor = some (.text "7") := by
  intro files e
  refine ⟨by decide +kernel,
    ⟨{}, { url := "sqlite://blog.db" }, { defaultAuthor := "7" }, {}⟩, ?_, rfl⟩
  decide +kernel

end Command

end Inkpress
