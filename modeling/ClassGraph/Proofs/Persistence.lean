import ClassGraph.Proofs.Document
import ClassGraph.Proofs.Files
import ClassGraph.Proofs.Ledger

/-! # An archive and its state file

An archive whose state is a map of entries, and whose file can be kept, refuses
nothing but a graph without a tree. Each change is in the file before it is
answered. Where the map can be read back, the file that was written last is
opened as the archive that wrote it, but for the version.
-/

namespace ClassGraph.Archive

open Files (Path)
open Json (setMember)

variable {a : Archive} {entries : List (Text × Json)} {name source : Text} {entry : Json}

/-! ## Entries -/

/-- An entry is an object, and its entities, if it names any, are a list. -/
def Listed (entry : Json) : Prop := ∃ members, entry = .obj members ∧
  ∀ value, members.lookup ("entities" : Text) = some value → ∃ items, value = .arr items

/-- The number of the entities of an entry. -/
def entityCount (entry : Json) : Nat :=
  match entry.get? "entities" with
  | some (.arr items) => items.length
  | _ => 0

/-- How an entry is listed. -/
def summaryOf (name : Text) (entry : Json) : Json :=
  .obj [("name", .str name), ("entity_count", .int (entityCount entry)),
    ("updated_at", (entry.get? "updated_at").getD .null)]

theorem summarize_of_listed (h : Listed entry) (name : Text) :
    summarize name entry = .ok (summaryOf name entry) := by
  obtain ⟨members, rfl, list⟩ := h
  have count : countEntities members = .ok (entityCount (.obj members)) := by
    simp only [countEntities, entityCount, Json.get?]
    cases found : members.lookup ("entities" : Text) with
    | none => rfl
    | some value =>
      obtain ⟨items, rfl⟩ := list value found
      rfl
  simp only [summarize, count, summaryOf, Json.get?]

theorem summarizeAll_of_listed (h : ∀ m ∈ entries, Listed m.2) :
    summarizeAll entries = .ok (entries.map fun m => summaryOf m.1 m.2) := by
  induction entries with
  | nil => rfl
  | cons m rest ih =>
    obtain ⟨first, others⟩ := List.forall_mem_cons.mp h
    rw [summarizeAll, summarize_of_listed first, ih others]
    rfl

theorem listed_entry (name source : Text) (tree : List Record) (time : String) :
    Listed (Archive.entry name source tree time) :=
  ⟨_, rfl, fun _ found => ⟨tree.map Record.toJson, (Option.some.inj found).symm⟩⟩

theorem textual_entry {P : Text → Prop} (hereditary : Text.Hereditary P) {tree : List Record}
    (named : P name) (told : P source) (textual : (treeToJson tree).Textual P) (time : String) :
    (Archive.entry name source tree time).Textual P := by
  have keys : [("name" : Text), "source", "entities", "updated_at"].Nodup := by decide
  refine .obj keys ?_ ?_
  · simp only [List.forall_mem_cons]
    exact ⟨hereditary.string _, hereditary.string _, hereditary.string _, hereditary.string _,
      nofun⟩
  · simp only [List.forall_mem_cons]
    exact ⟨.str named, .str told, textual, .str (hereditary.string _), nofun⟩

/-- Entries under distinct names that can be listed. -/
structure Orderly (entries : List (Text × Json)) : Prop where
  distinct : (entries.map Prod.fst).Nodup
  listed : ∀ m ∈ entries, Listed m.2

theorem Orderly.setMember (h : Orderly entries) (name : Text) (listed : Listed entry) :
    Orderly (setMember name entry entries) where
  distinct := Json.nodup_setMember h.distinct entry
  listed m hm := by
    rcases Json.mem_setMember hm with rfl | hm
    · exact listed
    · exact h.listed m hm

theorem Orderly.filter (h : Orderly entries) (keep : Text × Json → Bool) :
    Orderly (entries.filter keep) where
  distinct := h.distinct.sublist (List.filter_sublist.map Prod.fst)
  listed m hm := h.listed m (List.mem_filter.mp hm).1

theorem restorable_setMember (h : (Json.obj entries).Restorable) (joined : name.Joined)
    (restorable : entry.Restorable) : (Json.obj (setMember name entry entries)).Restorable := by
  cases h with
  | obj distinct keys values =>
    refine .obj (Json.nodup_setMember distinct entry) (fun m hm => ?_) fun m hm => ?_
    · rcases Json.mem_setMember hm with rfl | hm
      · exact joined
      · exact keys m hm
    · rcases Json.mem_setMember hm with rfl | hm
      · exact restorable
      · exact values m hm

theorem restorable_filter (h : (Json.obj entries).Restorable) (keep : Text × Json → Bool) :
    (Json.obj (entries.filter keep)).Restorable := by
  cases h with
  | obj distinct keys values =>
    exact .obj (distinct.sublist (List.filter_sublist.map Prod.fst))
      (fun m hm => keys m (List.mem_filter.mp hm).1) fun m hm => values m (List.mem_filter.mp hm).1

/-! ## A running archive -/

/-- A graph without a tree is not put, and nothing is changed. -/
theorem put_of_error {g : Graph} {e : DiagramError} (h : g.toTree = .error e)
    (name source : Text) : a.put name source g = (.error (.diagram e), a) := by
  simp only [put, h]

/-- An archive that holds entries under distinct names, and whose file can be kept. -/
structure Held (a : Archive) (entries : List (Text × Json)) : Prop where
  memory : a.diagrams = .obj entries
  distinct : (entries.map Prod.fst).Nodup
  keeps : a.files.Keeps a.path

/-- An archive that holds entries which can be listed, and whose file can be kept. -/
structure Running (a : Archive) (entries : List (Text × Json)) : Prop where
  memory : a.diagrams = .obj entries
  orderly : Orderly entries
  keeps : a.files.Keeps a.path

theorem Running.held (h : a.Running entries) : a.Held entries :=
  ⟨h.memory, h.orderly.distinct, h.keeps⟩

theorem Held.running (h : a.Held entries) (listed : ∀ m ∈ entries, Listed m.2) :
    a.Running entries := ⟨h.memory, ⟨h.distinct, listed⟩, h.keeps⟩

/-- The map that an archive holds. -/
def ledger (a : Archive) : Ledger :=
  match a.diagrams with
  | .obj entries => .ofMembers entries
  | _ => .ofMembers []

theorem ledger_of_memory (h : a.diagrams = .obj entries) : a.ledger = .ofMembers entries := by
  simp only [ledger, h]

theorem Running.list (h : a.Running entries) :
    a.list = .ok (entries.map fun m => summaryOf m.1 m.2) := by
  simp only [Archive.list, h.memory, summarizeAll_of_listed h.orderly.listed]

namespace Held

theorem get? (h : a.Held entries) (name : Text) : a.get? name = .ok (entries.lookup name) := by
  simp only [Archive.get?, h.memory]

/-- Saving puts the entries into the file, and changes nothing else. -/
theorem save (h : a.Held entries) : ∃ files, a.save = (.ok (), { a with files }) ∧
    files.Stores a.path (Json.obj entries).pretty.toUTF8 := by
  obtain ⟨files, saved, stores⟩ := h.keeps.save (Json.obj entries).pretty.toUTF8
  exact ⟨files, by simp only [Archive.save, h.memory, saved], stores⟩

theorem commit (h : a.Held entries) (changed : List (Text × Json)) :
    ∃ files, a.commit (.obj changed) =
        (.ok (), { a with files, diagrams := .obj changed, version := a.version + 1 }) ∧
      files.Stores a.path (Json.obj changed).pretty.toUTF8 := by
  obtain ⟨files, saved, stores⟩ := h.keeps.save (Json.obj changed).pretty.toUTF8
  exact ⟨files, by simp only [Archive.commit, Archive.save, saved], stores⟩

theorem put (h : a.Held entries) {g : Graph} {tree : List Record} (ht : g.toTree = .ok tree)
    (name source : Text) :
    let added := Archive.entry name source tree (timestamp (a.ticks + 1))
    let changed := setMember name added entries
    ∃ files, a.put name source g = (.ok added, { a with
        files, ticks := a.ticks + 1, diagrams := .obj changed, version := a.version + 1 }) ∧
      files.Stores a.path (Json.obj changed).pretty.toUTF8 := by
  have ticked : ({ a with ticks := a.ticks + 1 } : Archive).Held entries := { h with }
  obtain ⟨files, committed, stores⟩ := ticked.commit
    (setMember name (Archive.entry name source tree (timestamp (a.ticks + 1))) entries)
  simp only [h.memory] at committed
  exact ⟨files, by simp only [Archive.put, ht, h.memory, committed], stores⟩

theorem remove (h : a.Held entries) (found : (entries.lookup name).isSome = true) :
    let changed := entries.filter fun m => m.1 != name
    ∃ files, a.remove name = (.ok true, { a with
        files, diagrams := .obj changed, version := a.version + 1 }) ∧
      files.Stores a.path (Json.obj changed).pretty.toUTF8 := by
  obtain ⟨files, committed, stores⟩ := h.commit (entries.filter fun m => m.1 != name)
  exact ⟨files, by simp only [Archive.remove, h.memory, found, if_true, committed], stores⟩

theorem remove_of_absent (h : a.Held entries) (absent : (entries.lookup name).isSome = false) :
    a.remove name = (.ok false, a) := by
  simp only [Archive.remove, h.memory, absent, Bool.false_eq_true, if_false]

end Held

/-- An archive whose file held another value than a map. -/
def Unmapped (a : Archive) : Prop := ∀ entries, a.diagrams ≠ .obj entries

theorem Unmapped.put (h : a.Unmapped) {g : Graph} {tree : List Record} (ht : g.toTree = .ok tree)
    (name source : Text) :
    a.put name source g = (.error .notMutable, { a with ticks := a.ticks + 1 }) := by
  unfold Archive.put
  rw [ht]
  dsimp only
  split
  · rename_i found
    exact absurd found (h _)
  · rfl

theorem Unmapped.remove (h : a.Unmapped) (name : Text) : (a.remove name).2 = a := by
  unfold Archive.remove
  split
  · rename_i found
    exact absurd found (h _)
  · split <;> rfl

/-! ## The state file -/

/-- A file that is read as a value. -/
def Holds (files : FileTree) (path : Path) (state : Json) : Prop :=
  ∃ content text, files.read path = .ok content ∧ decodeText content = some text ∧
    Json.read text = .ok state

/-- A path from which entries are loaded: there is a file that holds them, or there is no file and
no entry. -/
def Loads (files : FileTree) (path : Path) (entries : List (Text × Json)) : Prop :=
  (files.exists? path = .ok false ∧ entries = []) ∨ Holds files path (.obj entries)

theorem holds_of_stores {files : FileTree} {path : Path} {state : Json}
    (stores : files.Stores path state.pretty.toUTF8) (restorable : state.Restorable) :
    Holds files path state :=
  ⟨_, _, stores.read, Json.decodeText_pretty state,
    Json.read_write Json.loose_indented restorable⟩

theorem isEncodable_of_decodeText {content : ByteArray} {text : Text}
    (h : decodeText content = some text) : text.isEncodable = true := by
  obtain ⟨characters, string, rfl⟩ := Option.map_eq_some_iff.mp h
  obtain ⟨s, _, ⟨⟩⟩ := Option.bind_eq_some_iff.mp string
  exact Text.isEncodable_unifyLineEnds (Text.isEncodable_ofString s)

/-- What is read from a file is tidy, for a file holds characters. -/
theorem tidy_of_holds {files : FileTree} {path : Path} {state : Json}
    (h : Holds files path state) : state.Tidy := by
  obtain ⟨content, text, _, decoded, read⟩ := h
  exact Json.tidy_of_read (isEncodable_of_decodeText decoded) read

theorem tidy_of_loads {files : FileTree} {path : Path} (h : Loads files path entries) :
    (Json.obj entries).Tidy := by
  rcases h with ⟨_, rfl⟩ | holds
  · exact .obj .nil nofun nofun
  · exact tidy_of_holds holds

theorem distinct_of_loads {files : FileTree} {path : Path} (h : Loads files path entries) :
    (entries.map Prod.fst).Nodup := by
  cases tidy_of_loads h with
  | obj distinct _ _ => exact distinct

theorem orderly_of_loads {files : FileTree} {path : Path} (h : Loads files path entries)
    (listed : ∀ m ∈ entries, Listed m.2) : Orderly entries :=
  ⟨distinct_of_loads h, listed⟩

/-! ## What is opened -/

variable {host : Host} {files : FileTree} {path : Path} {e : ArchiveError}

/-- There is nothing to be read, or what is read is no JSON value. -/
inductive CountsAsEmpty (files : FileTree) (path : Path) : Prop
  | missing (absent : files.exists? path = .ok false)
  | directory (there : files.isDirectory path = true)
  | malformed {content : ByteArray} {text : Text} (bytes : files.read path = .ok content)
      (decoded : decodeText content = some text) (fault : Json.read text = .error .malformed)

/-- What keeps an archive from being opened. -/
inductive Bars (files : FileTree) (path : Path) : ArchiveError → Prop
  | name {e : FileError} (fault : files.exists? path = .error e) : Bars files path (.file e)
  | bytes {content : ByteArray} (bytes : files.read path = .ok content)
      (invalid : ¬ content.IsValidUTF8) : Bars files path .undecodable
  | digits {content : ByteArray} {text : Text} (bytes : files.read path = .ok content)
      (decoded : decodeText content = some text) (fault : Json.read text = .error .numberTooLong) :
      Bars files path .numberTooLong

theorem decodeText_eq_none_iff {content : ByteArray} :
    decodeText content = none ↔ ¬ content.IsValidUTF8 := by
  rw [decodeText, Option.map_eq_none_iff, String.fromUTF8?]
  split <;> simp [*]

/-- What is there and cannot be read is a directory. -/
theorem isDirectory_of_unreadable {f : FileError} (present : files.exists? path = .ok true)
    (unreadable : files.read path = .error f) : files.isDirectory path = true := by
  unfold FileTree.exists? at present
  unfold FileTree.read at unreadable
  rw [FileTree.isDirectory_iff]
  cases located : files.locate path with
  | error f =>
    rw [located] at present
    cases f <;> cases present
  | ok l =>
    simp only [located] at present unreadable
    cases node : files.node? l with
    | none =>
      rw [node] at present
      cases present
    | some node' =>
      rw [node] at unreadable
      cases node' with
      | directory => exact ⟨l, rfl, node⟩
      | file content => cases unreadable
      | nullDevice => cases unreadable

/-- Each state file is of one of three kinds. -/
theorem countsAsEmpty_or_holds_or_bars (files : FileTree) (path : Path) :
    CountsAsEmpty files path ∨ (∃ state, Holds files path state) ∨ ∃ e, Bars files path e := by
  cases present : files.exists? path with
  | error f => exact .inr (.inr ⟨_, .name present⟩)
  | ok there =>
    cases there with
    | false => exact .inl (.missing present)
    | true =>
      cases bytes : files.read path with
      | error f => exact .inl (.directory (isDirectory_of_unreadable present bytes))
      | ok content =>
        cases decoded : decodeText content with
        | none => exact .inr (.inr ⟨_, .bytes bytes (decodeText_eq_none_iff.mp decoded)⟩)
        | some text =>
          cases read : Json.read text with
          | ok state => exact .inr (.inl ⟨state, content, text, bytes, decoded, read⟩)
          | error fault =>
            cases fault with
            | malformed => exact .inl (.malformed bytes decoded read)
            | numberTooLong => exact .inr (.inr ⟨_, .digits bytes decoded read⟩)

/-- A value that is read is kept, whatever it is. -/
theorem openAt_of_holds {state : Json} (h : Holds host.files path state) :
    openAt host path = .ok { host with path, diagrams := state, version := 0 } := by
  obtain ⟨content, text, bytes, decoded, read⟩ := h
  have present : host.files.exists? path = .ok true := FileTree.exists?_of_read bytes
  simp only [openAt, loadState, present, bytes, decoded, read]

theorem openAt_of_loads (h : Loads host.files path entries) :
    openAt host path = .ok { host with path, diagrams := .obj entries, version := 0 } := by
  rcases h with ⟨missing, rfl⟩ | holds
  · simp only [openAt, loadState, missing]
  · exact openAt_of_holds holds

theorem openAt_of_countsAsEmpty (h : CountsAsEmpty host.files path) : ∃ log,
    openAt host path = .ok { host with log, path, diagrams := .obj [], version := 0 } := by
  cases h with
  | missing absent => exact ⟨host.log, by simp only [openAt, loadState, absent]⟩
  | directory there =>
    obtain ⟨l, located, node⟩ := FileTree.isDirectory_iff.mp there
    have present : host.files.exists? path = .ok true := by
      simp only [FileTree.exists?, located, node, Option.isSome_some]
    have unreadable : host.files.read path = .error .isDirectory := by
      simp only [FileTree.read, located, node]
    exact ⟨_, by simp only [openAt, loadState, present, unreadable]; rfl⟩
  | malformed bytes decoded fault =>
    have present := FileTree.exists?_of_read bytes
    exact ⟨_, by simp only [openAt, loadState, present, bytes, decoded, fault]; rfl⟩

theorem openAt_of_bars (h : Bars host.files path e) : openAt host path = .error e := by
  cases h with
  | name fault => simp only [openAt, loadState, fault]
  | bytes bytes invalid =>
    have present := FileTree.exists?_of_read bytes
    simp only [openAt, loadState, present, bytes, decodeText_eq_none_iff.mpr invalid]
  | digits bytes decoded fault =>
    have present := FileTree.exists?_of_read bytes
    simp only [openAt, loadState, present, bytes, decoded, fault]

theorem openAt_eq_error_iff : openAt host path = .error e ↔ Bars host.files path e := by
  refine ⟨fun failed => ?_, openAt_of_bars⟩
  rcases countsAsEmpty_or_holds_or_bars host.files path with empty | ⟨state, holds⟩ | ⟨e', bars⟩
  · obtain ⟨log, opened⟩ := openAt_of_countsAsEmpty empty
    rw [opened] at failed
    cases failed
  · rw [openAt_of_holds holds] at failed
    cases failed
  · rw [openAt_of_bars bars] at failed
    cases failed
    exact bars

/-- An archive holds the map that it is opened with. A file that could not be read counts as an
empty map. -/
theorem held_of_openAt (writable : host.files.Keeps path)
    (opened : openAt host path = .ok a) (memory : a.diagrams = .obj entries) : a.Held entries := by
  rcases countsAsEmpty_or_holds_or_bars host.files path with empty | ⟨state, holds⟩ | ⟨e, bars⟩
  · obtain ⟨log, empty⟩ := openAt_of_countsAsEmpty empty
    cases empty.symm.trans opened
    cases memory
    exact ⟨rfl, .nil, writable⟩
  · cases (openAt_of_holds holds).symm.trans opened
    cases memory
    exact ⟨rfl, distinct_of_loads (.inr holds), writable⟩
  · cases (openAt_of_bars bars).symm.trans opened

/-- A running archive whose entries can be read back, and are what its file is read as. -/
structure Settled (a : Archive) (entries : List (Text × Json)) : Prop
    extends Running a entries where
  restorable : (Json.obj entries).Restorable
  loads : Loads a.files a.path entries

/-- Entries that were just saved are settled. -/
theorem settled_of_stores (memory : a.diagrams = .obj entries) (orderly : Orderly entries)
    (restorable : (Json.obj entries).Restorable)
    (stores : a.files.Stores a.path (Json.obj entries).pretty.toUTF8) :
    a.Settled entries ∧ Holds a.files a.path a.diagrams := by
  have holds := holds_of_stores stores restorable
  exact ⟨⟨⟨memory, orderly, stores.keeps⟩, restorable, .inr holds⟩, memory ▸ holds⟩

/-- An archive is opened again as it was, but for the version. -/
theorem Settled.reload (h : a.Settled entries) : a.reload = .ok { a with version := 0 } := by
  rw [Archive.reload, openAt_of_loads h.loads, ← h.memory]

end ClassGraph.Archive
