import ClassGraph.Proofs.Json.Overlong
import ClassGraph.Proofs.Persistence

/-! # What an archive makes of its state file

A file that is missing, a directory, and a text that is no JSON value count as an
empty map. A value that is read is kept, whatever it is: the archive can be asked
about names only if it is a map, and can be listed only if each entry has a number
of entities. Bytes that are no text, whole numbers that are too long and names that
are too long keep the archive from being opened at all.
-/

namespace ClassGraph.Archive

open Files (Path)

variable {host : Host} {files : FileTree} {path : Path} {state entry : Json}
  {entries : List (Text × Json)}

/-! ## Entries -/

/-- A value that has a length: a list, an object or a text. -/
def Sized (value : Json) : Prop :=
  (∃ items, value = .arr items) ∨ (∃ parts, value = .obj parts) ∨ ∃ t, value = .str t

/-- An object whose entities, if it names any, can be counted. -/
def HasCount (entry : Json) : Prop := ∃ members, entry = .obj members ∧
  ∀ value, members.lookup ("entities" : Text) = some value → Sized value

theorem exists_countEntities_iff (members : List (Text × Json)) :
    (∃ count, countEntities members = .ok count) ↔
      ∀ value, members.lookup ("entities" : Text) = some value → Sized value := by
  unfold countEntities
  cases members.lookup ("entities" : Text) with
  | none => simp
  | some value => cases value <;> simp [Sized]

theorem exists_summarize_iff (name : Text) :
    (∃ summary, summarize name entry = .ok summary) ↔ HasCount entry := by
  cases entry with
  | obj members =>
    have counted := exists_countEntities_iff members
    simp only [HasCount, Json.obj.injEq, exists_eq_left', ← counted, summarize]
    cases countEntities members <;> simp
  | _ => simp [summarize, HasCount]

/-- Entries are listed if each can be. -/
theorem exists_summarizeAll_iff :
    (∃ summaries, summarizeAll entries = .ok summaries) ↔ ∀ m ∈ entries, HasCount m.2 := by
  induction entries with
  | nil => simp [summarizeAll]
  | cons m rest ih =>
    rw [List.forall_mem_cons, ← ih, ← exists_summarize_iff m.1, summarizeAll]
    cases summarize m.1 m.2 with
    | error e => simp
    | ok summary => cases summarizeAll rest <;> simp

/-! ## State files and questions -/

/-- A mark of the byte order at the front is no part of a value. -/
theorem countsAsEmpty_of_mark {content : ByteArray} {rest : Text}
    (bytes : files.read path = .ok content)
    (decoded : decodeText content = some (.scalar '\ufeff' :: rest)) :
    CountsAsEmpty files path := by
  refine .malformed bytes decoded ?_
  have named : Json.readName? (.scalar '\ufeff' :: rest) = none := by
    simp [Json.readName?, Json.names, Text.ofString, Text.stripWord?]
  simp [Json.read, Json.skipGap, Json.isGap, Json.readValue, Json.readScalar, named,
    Json.readMagnitude, Json.readWhole, Json.spanDigits, List.span_eq_takeWhile_dropWhile,
    CodePoint.satisfies]

/-- An archive is opened that can be listed and asked about every name. -/
def Responds (host : Host) (path : Path) : Prop := ∃ a, openAt host path = .ok a ∧
  (∃ summaries, a.list = .ok summaries) ∧ ∀ name, ∃ found, a.get? name = .ok found

theorem responds_iff_of_holds (h : Holds host.files path state) : Responds host path ↔
    ∃ entries, state = .obj entries ∧ ∀ m ∈ entries, HasCount m.2 := by
  simp only [Responds, openAt_of_holds h, Except.ok.injEq, exists_eq_left']
  cases state with
  | obj entries =>
    simp only [Archive.list, Archive.get?, exists_summarizeAll_iff, Json.obj.injEq,
      exists_eq_left']
    exact and_iff_left fun name => ⟨_, rfl⟩
  | _ => simp [Archive.list]

theorem holds_array :
    Holds ⟨[(⟨.working 0, ["s"]⟩, .file "[]".toUTF8)]⟩ (.ofText "s") (.arr []) := by
  refine ⟨_, "[]", rfl, ?_, rfl⟩
  rw [decodeText, Json.fromUTF8?_toUTF8]
  rfl

/-- An archive answers exactly if there is nothing to be read, no value is read, or what is read is
a map of entries whose entities can be counted. In the first two cases it is empty. A value is kept
as it was read: a map is asked about names, another value about nothing. The archive is not opened
where the bytes are no text, where the path has too long a name, and where a whole number is too
long. The last takes that many digits side by side, and a file with nothing but such a number has
them. A mark of the byte order in front of a value makes it no value. -/
theorem responds_iff_empty_or_map (host : Host) (path : Path) :
    (Responds host path ↔ CountsAsEmpty host.files path ∨
      ∃ entries, Holds host.files path (.obj entries) ∧ ∀ m ∈ entries, HasCount m.2) ∧
    (CountsAsEmpty host.files path → ∃ a, openAt host path = .ok a ∧ a.files = host.files ∧
      a.list = .ok [] ∧ ∀ name, a.get? name = .ok none) ∧
    (∀ state, Holds host.files path state →
      ∃ a, openAt host path = .ok a ∧ a.toHost = host ∧ a.diagrams = state ∧
        (∀ entries, state = .obj entries → ∀ name, a.get? name = .ok (entries.lookup name)) ∧
        ((∀ entries, state ≠ .obj entries) →
          a.list = .error .notMap ∧ ∀ name, a.get? name = .error .notMap)) ∧
    (∀ e, openAt host path = .error e ↔ Bars host.files path e) ∧
    (Bars host.files path .numberTooLong → ∃ content text, host.files.read path = .ok content ∧
      decodeText content = some text ∧ Json.Overlong text) ∧
    (∀ content n, host.files.read path = .ok content → decodeText content = some (Json.decimal n) →
      Json.maxDigits < (Json.decimal n).length → Bars host.files path .numberTooLong) ∧
    (∀ content rest, host.files.read path = .ok content →
      decodeText content = some (.scalar '\ufeff' :: rest) → CountsAsEmpty host.files path) := by
  refine ⟨⟨fun answers => ?_, ?_⟩, fun empty => ?_, fun state holds => ?_,
    fun e => openAt_eq_error_iff, fun bars => ?_, fun content n bytes decoded long =>
      .digits bytes decoded (Json.read_decimal_of_long long),
    fun content rest => countsAsEmpty_of_mark⟩
  · rcases countsAsEmpty_or_holds_or_bars host.files path with empty | ⟨state, holds⟩ | ⟨e, bars⟩
    · exact .inl empty
    · obtain ⟨entries, rfl, counted⟩ := (responds_iff_of_holds holds).mp answers
      exact .inr ⟨entries, holds, counted⟩
    · obtain ⟨a, opened, _⟩ := answers
      rw [openAt_of_bars bars] at opened
      cases opened
  · rintro (empty | ⟨entries, holds, counted⟩)
    · obtain ⟨log, opened⟩ := openAt_of_countsAsEmpty empty
      exact ⟨_, opened, ⟨[], rfl⟩, fun name => ⟨none, rfl⟩⟩
    · exact (responds_iff_of_holds holds).mpr ⟨entries, rfl, counted⟩
  · obtain ⟨log, opened⟩ := openAt_of_countsAsEmpty empty
    exact ⟨_, opened, rfl, rfl, fun name => rfl⟩
  · refine ⟨_, openAt_of_holds holds, rfl, rfl, ?_, fun other => ?_⟩
    · rintro entries rfl name
      rfl
    · cases state with
      | obj entries => exact absurd rfl (other entries)
      | _ => exact ⟨rfl, fun name => rfl⟩
  · cases bars with
    | digits bytes decoded fault =>
      exact ⟨_, _, bytes, decoded, Json.overlong_of_read (isEncodable_of_decodeText decoded) fault⟩

/-- Over a directory an archive answers, and over an array of nothing it does not. -/
theorem responds_iff_empty_or_map_over_directory :
    Responds ⟨⟨[(⟨.working 0, ["d"]⟩, .directory)]⟩, 0, ""⟩ (.ofText "d") ∧
    ¬ Responds ⟨⟨[(⟨.working 0, ["s"]⟩, .file "[]".toUTF8)]⟩, 0, ""⟩ (.ofText "s") := by
  have there : FileTree.isDirectory ⟨[(⟨.working 0, ["d"]⟩, .directory)]⟩ (.ofText "d") = true := by
    decide +kernel
  refine ⟨(responds_iff_empty_or_map _ _).1.mpr (.inl (.directory there)), fun answers => ?_⟩
  obtain ⟨a, opened, ⟨summaries, listed⟩, _⟩ := answers
  obtain ⟨b, opened', _, _, _, refused⟩ := (responds_iff_empty_or_map
    ⟨⟨[(⟨.working 0, ["s"]⟩, .file "[]".toUTF8)]⟩, 0, ""⟩ (.ofText "s")).2.2.1 _ holds_array
  rw [opened] at opened'
  cases opened'
  rw [(refused nofun).1] at listed
  cases listed

/-- Bytes that are no text keep an archive from being opened. An array is kept, though it can be
neither listed nor asked. -/
theorem byte_bars_archive_and_array_answers_nothing :
    openAt ⟨⟨[(⟨.working 0, ["s"]⟩, .file ⟨#[0xff]⟩)]⟩, 0, ""⟩ (.ofText "s") =
      .error .undecodable ∧
    ∃ a, openAt ⟨⟨[(⟨.working 0, ["s"]⟩, .file "[]".toUTF8)]⟩, 0, ""⟩ (.ofText "s") = .ok a ∧
      a.list = .error .notMap ∧ ∀ name, a.get? name = .error .notMap := by
  have invalid : ¬ ByteArray.IsValidUTF8 ⟨#[0xff]⟩ := by
    rw [← decodeText_eq_none_iff]
    rfl
  exact ⟨openAt_of_bars (.bytes rfl invalid), _, openAt_of_holds holds_array, rfl,
    fun name => rfl⟩

end ClassGraph.Archive
