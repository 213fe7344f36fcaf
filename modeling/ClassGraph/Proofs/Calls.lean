import ClassGraph.Proofs.Persistence
import Mathlib.Data.List.DropRight

/-! # An archive answers as a map in memory

Whatever calls an archive gets, it answers as a map from names to entries that is
kept in memory alone. The file is written in between and may be read again at any
time, but neither shows in an answer: only the version begins anew.
-/

namespace ClassGraph.Archive

open Files (Path)

/-! ## Calls and replies -/

inductive Call where
  | put (name source : Text) (g : Graph)
  | get (name : Text)
  | remove (name : Text)
  | list
  | save
  /-- The archive is opened again at its path. -/
  | reload

/-- What is put is named by texts that can be written and read again, and its graph was parsed from
one. -/
def Call.Made : Call → Prop
  | put name source g => name.Joined ∧ source.Joined ∧ ∃ t : Text, t.Joined ∧ parse t = .ok g
  | _ => True

def Call.reloads : Call → Bool
  | reload => true
  | _ => false

inductive Reply where
  | stored (entry : Json)
  /-- A graph without a tree is not put. -/
  | refused (e : DiagramError)
  | found (entry : Option Json)
  | removed (present : Bool)
  | listed (summaries : List Json)
  | saved
  | reopened

namespace Reply

def changes : Reply → Bool
  | stored _ => true
  | removed present => present
  | _ => false

/-- Whether the file is written before the reply. -/
def writes : Reply → Bool
  | saved => true
  | reply => reply.changes

def reopens : Reply → Bool
  | reopened => true
  | _ => false

end Reply

def call (a : Archive) : Call → Except ArchiveError Reply × Archive
  | .put name source g =>
    match a.put name source g with
    | (.ok entry, a) => (.ok (.stored entry), a)
    | (.error (.diagram e), a) => (.ok (.refused e), a)
    | (.error e, a) => (.error e, a)
  | .get name => (a.get? name |>.map .found, a)
  | .remove name =>
    match a.remove name with
    | (.ok present, a) => (.ok (.removed present), a)
    | (.error e, a) => (.error e, a)
  | .list => (a.list.map .listed, a)
  | .save =>
    match a.save with
    | (.ok (), a) => (.ok .saved, a)
    | (.error e, a) => (.error e, a)
  | .reload =>
    match a.reload with
    | .ok a => (.ok .reopened, a)
    | .error e => (.error e, a)

/-- The outcomes of calls one after another, and the archive behind them. -/
def run (a : Archive) : List Call → List (Except ArchiveError Reply) × Archive
  | [] => ([], a)
  | c :: rest =>
    let (outcome, a) := a.call c
    let (outcomes, a) := run a rest
    (outcome :: outcomes, a)

/-- A map in memory, and the clock that its entries are stamped with. -/
structure Book extends Ledger where
  ticks : Nat

namespace Book

def call (b : Book) : Call → Reply × Book
  | .put name source g =>
    match g.toTree with
    | .error e => (.refused e, b)
    | .ok tree =>
      let entry := Archive.entry name source tree (timestamp (b.ticks + 1))
      (.stored entry, ⟨b.toLedger.put name entry, b.ticks + 1⟩)
  | .get name => (.found (b.find? name), b)
  | .remove name => (.removed (b.find? name).isSome, ⟨b.toLedger.remove name, b.ticks⟩)
  | .list =>
    (.listed (b.names.map fun name => summaryOf name ((b.find? name).getD .null)), b)
  | .save => (.saved, b)
  | .reload => (.reopened, b)

def run (b : Book) : List Call → List Reply × Book
  | [] => ([], b)
  | c :: rest =>
    let (reply, b) := b.call c
    let (replies, b) := run b rest
    (reply :: replies, b)

end Book

/-! ## One call -/

/-- The map in memory that an archive stands for. -/
def Records (a : Archive) (book : Book) : Prop :=
  ∃ entries, a.Settled entries ∧ book = ⟨.ofMembers entries, a.ticks⟩

/-- The version behind a reply. -/
def versionAfter (version : Nat) (reply : Reply) : Nat :=
  if reply.reopens then 0 else if reply.changes then version + 1 else version

/-- One call from archive `a` to archive `b`, as the map in memory answers it. -/
structure Answers (a : Archive) (book : Book) (c : Call) (b : Archive) : Prop where
  outcome : a.call c = (.ok (book.call c).1, b)
  records : b.Records (book.call c).2
  path : b.path = a.path
  version : b.version = versionAfter a.version (book.call c).1
  holds : (book.call c).1.writes = true ∨ Holds a.files a.path a.diagrams →
    Holds b.files b.path b.diagrams

variable {a b : Archive} {book : Book} {entries : List (Text × Json)} {name source : Text}
  {g : Graph}

theorem call_of_put {entry : Json} (h : a.put name source g = (.ok entry, b)) :
    a.call (.put name source g) = (.ok (.stored entry), b) := by
  simp only [call, h]

theorem call_of_remove {present : Bool} (h : a.remove name = (.ok present, b)) :
    a.call (.remove name) = (.ok (.removed present), b) := by
  simp only [call, h]

theorem call_of_save (h : a.save = (.ok (), b)) : a.call .save = (.ok .saved, b) := by
  simp only [call, h]

theorem call_of_reload (h : a.reload = .ok b) : a.call .reload = (.ok .reopened, b) := by
  simp only [call, h]

/-- A call that is answered from memory. -/
theorem answers_of_memory (h : a.Settled entries) {c : Call} {reply : Reply}
    (outcome : a.call c = (.ok reply, a))
    (answer : Book.call ⟨.ofMembers entries, a.ticks⟩ c = (reply, ⟨.ofMembers entries, a.ticks⟩))
    (silent : reply.changes = false ∧ reply.writes = false ∧ reply.reopens = false) :
    Answers a ⟨.ofMembers entries, a.ticks⟩ c a := by
  obtain ⟨unchanged, unwritten, open_⟩ := silent
  refine ⟨?_, ?_, rfl, ?_, ?_⟩ <;> rw [answer]
  · exact outcome
  · exact ⟨entries, h, rfl⟩
  · simp [versionAfter, unchanged, open_]
  · rintro (written | holds)
    · rw [unwritten] at written; cases written
    · exact holds

/-- A call that is answered when the file is written. -/
theorem answers_of_stores {c : Call} {reply : Reply}
    {changed : List (Text × Json)} (outcome : a.call c = (.ok reply, b))
    (answer : book.call c = (reply, ⟨.ofMembers changed, b.ticks⟩))
    (memory : b.diagrams = .obj changed) (orderly : Orderly changed)
    (restorable : (Json.obj changed).Restorable)
    (stores : b.files.Stores b.path (Json.obj changed).pretty.toUTF8) (path : b.path = a.path)
    (version : b.version = versionAfter a.version reply) : Answers a book c b := by
  obtain ⟨settled, holds⟩ := settled_of_stores memory orderly restorable stores
  refine ⟨?_, ?_, path, ?_, fun _ => holds⟩ <;> rw [answer]
  · exact outcome
  · exact ⟨changed, settled, rfl⟩
  · exact version

theorem answers_put (h : a.Settled entries) (made : (Call.put name source g).Made) :
    ∃ b, Answers a ⟨.ofMembers entries, a.ticks⟩ (.put name source g) b := by
  obtain ⟨named, told, t, joined, parsed⟩ := made
  have running := h.toRunning
  cases tree : g.toTree with
  | error e =>
    have outcome : a.call (.put name source g) = (.ok (.refused e), a) := by
      simp only [call, put_of_error tree]
    exact ⟨a, answers_of_memory h outcome (by simp only [Book.call, tree]) ⟨rfl, rfl, rfl⟩⟩
  | ok records =>
    have textual := textual_entry Text.hereditary_joined named told
      (textual_of_parse Text.hereditary_joined joined parsed tree) (timestamp (a.ticks + 1))
    obtain ⟨files, put, stores⟩ := running.held.put tree name source
    refine ⟨_, answers_of_stores (call_of_put put) ?_ rfl
      (running.orderly.setMember name (listed_entry _ _ _ _))
      (restorable_setMember h.restorable named textual.restorable) stores rfl rfl⟩
    simp only [Book.call, tree, Ledger.ofMembers_setMember]

theorem answers_remove (h : a.Settled entries) (name : Text) :
    ∃ b, Answers a ⟨.ofMembers entries, a.ticks⟩ (.remove name) b := by
  have running := h.toRunning
  have answer : Book.call ⟨.ofMembers entries, a.ticks⟩ (.remove name) =
      (.removed (entries.lookup name).isSome, ⟨(Ledger.ofMembers entries).remove name, a.ticks⟩) :=
    rfl
  cases found : entries.lookup name with
  | some entry =>
    have present : (entries.lookup name).isSome = true := by rw [found]; rfl
    obtain ⟨files, removed, stores⟩ := running.held.remove present
    rw [present, ← Ledger.ofMembers_filter] at answer
    exact ⟨_, answers_of_stores (call_of_remove removed) answer rfl (running.orderly.filter _)
      (restorable_filter h.restorable _) stores rfl rfl⟩
  | none =>
    have absent : (entries.lookup name).isSome = false := by rw [found]; rfl
    rw [absent, Ledger.remove_of_absent found] at answer
    exact ⟨a, answers_of_memory h (call_of_remove (running.held.remove_of_absent absent)) answer
      ⟨rfl, rfl, rfl⟩⟩

theorem exists_answers (h : a.Records book) {c : Call} (made : c.Made) :
    ∃ b, Answers a book c b := by
  obtain ⟨entries, settled, rfl⟩ := h
  have running := settled.toRunning
  cases c with
  | put name source g => exact answers_put settled made
  | get name =>
    have outcome : a.call (.get name) = (.ok (.found (entries.lookup name)), a) := by
      rw [call, running.held.get?]; rfl
    exact ⟨a, answers_of_memory settled outcome rfl ⟨rfl, rfl, rfl⟩⟩
  | remove name => exact answers_remove settled name
  | list =>
    have outcome : a.call .list =
        (.ok (.listed (entries.map fun m => summaryOf m.1 m.2)), a) := by
      rw [call, running.list]; rfl
    refine ⟨a, answers_of_memory settled outcome ?_ ⟨rfl, rfl, rfl⟩⟩
    rw [Book.call, ← Ledger.map_names running.orderly.distinct]
  | save =>
    obtain ⟨files, saved, stores⟩ := running.held.save
    exact ⟨_, answers_of_stores (call_of_save saved) rfl running.memory running.orderly
      settled.restorable stores rfl rfl⟩
  | reload =>
    have reset : ({ a with version := 0 } : Archive).Settled entries := { settled with }
    refine ⟨_, call_of_reload settled.reload, ⟨entries, reset, rfl⟩, rfl, rfl, ?_⟩
    rintro (written | holds)
    · cases written
    · exact holds

/-! ## Calls one after another -/

theorem run_concat (a : Archive) (calls : List Call) (c : Call) :
    a.run (calls ++ [c]) = ((a.run calls).1 ++ [((a.run calls).2.call c).1],
      ((a.run calls).2.call c).2) := by
  induction calls generalizing a with
  | nil => rfl
  | cons first calls ih => simp only [List.cons_append, run, ih]

theorem Book.run_concat (b : Book) (calls : List Call) (c : Call) :
    b.run (calls ++ [c]) = ((b.run calls).1 ++ [((b.run calls).2.call c).1],
      ((b.run calls).2.call c).2) := by
  induction calls generalizing b with
  | nil => rfl
  | cons first calls ih => simp only [List.cons_append, run, ih]

/-- The number of changes since the archive was opened last. -/
def changesSince (replies : List Reply) : Nat :=
  (replies.rtakeWhile fun reply => !reply.reopens).countP Reply.changes

theorem changesSince_concat (replies : List Reply) (reply : Reply) :
    changesSince (replies ++ [reply]) = versionAfter (changesSince replies) reply := by
  unfold changesSince versionAfter
  rw [List.rtakeWhile_concat]
  cases reply.reopens with
  | true => rfl
  | false => cases h : reply.changes <;> simp [h]

/-- Calls from archive `a` on, as the map in memory answers them. -/
structure Keeps (a : Archive) (book : Book) (calls : List Call) : Prop where
  outcomes : (a.run calls).1 = (book.run calls).1.map .ok
  records : (a.run calls).2.Records (book.run calls).2
  path : (a.run calls).2.path = a.path
  version : (a.run calls).2.version = changesSince (book.run calls).1
  holds : (∃ reply ∈ (book.run calls).1, reply.writes = true) →
    Holds (a.run calls).2.files (a.run calls).2.path (a.run calls).2.diagrams

theorem keeps_run (h : a.Records book) (new : a.version = 0) {calls : List Call}
    (made : ∀ c ∈ calls, c.Made) : Keeps a book calls := by
  induction calls using List.reverseRecOn with
  | nil => exact ⟨rfl, h, rfl, new, fun ⟨_, mem, _⟩ => nomatch mem⟩
  | append_singleton calls c ih =>
    have before := ih fun d hd => made d (List.mem_append_left _ hd)
    obtain ⟨b, answers⟩ := exists_answers before.records (made c (by simp))
    have outcome := answers.outcome
    constructor <;> simp only [run_concat, Book.run_concat, outcome]
    · rw [before.outcomes, List.map_append, List.map_singleton]
    · exact answers.records
    · exact answers.path.trans before.path
    · rw [answers.version, before.version, changesSince_concat]
    · rintro ⟨reply, mem, written⟩
      refine answers.holds ?_
      rcases List.mem_append.mp mem with mem | mem
      · exact .inr (before.holds ⟨reply, mem, written⟩)
      · rw [List.mem_singleton] at mem
        exact .inl (mem ▸ written)

theorem Book.reopens_call (b : Book) (c : Call) : (b.call c).1.reopens = c.reloads := by
  cases c with
  | put name source g =>
    rw [Book.call]
    split <;> rfl
  | _ => rfl

/-- A map in memory does not notice that an archive is opened again. -/
theorem Book.run_filter (b : Book) (calls : List Call) :
    b.run (calls.filter fun c => !c.reloads) =
      ((b.run calls).1.filter fun reply => !reply.reopens, (b.run calls).2) := by
  induction calls generalizing b with
  | nil => rfl
  | cons c calls ih =>
    have reopens := b.reopens_call c
    cases reloads : c.reloads with
    | true =>
      have same : (b.call c).2 = b := by
        cases c <;> first | rfl | cases reloads
      rw [reloads] at reopens
      simp only [List.filter_cons, reloads, run, reopens, same, Bool.not_true, Bool.false_eq_true,
        if_false, ih]
    | false =>
      rw [reloads] at reopens
      simp only [List.filter_cons, reloads, run, reopens, Bool.not_false, if_true, ih]

/-- An archive answers all calls as a map in memory answers them, and refuses nothing but graphs
without trees. Its map is the one in memory, in the same order; its version counts the changes since
it was opened last; and from the first change on, or from the first time that it is saved, its file
is read as its map. Opening it again at any time therefore changes no answer. A graph with a cycle
is refused, and leaves everything as it was. -/
theorem archive_keeps_ledger {host : Host} {path : Path}
    {entries : List (Text × Json)} (writable : host.files.Keeps path)
    (loads : Loads host.files path entries) (listed : ∀ m ∈ entries, Listed m.2)
    (exact : (Json.obj entries).Exact) {calls : List Call} (made : ∀ c ∈ calls, c.Made) :
    ∃ a, openAt host path = .ok a ∧
      let book : Book := ⟨.ofMembers entries, host.ticks⟩
      let replies := (book.run calls).1
      let b := (a.run calls).2
      (a.run calls).1 = replies.map .ok ∧
      (∃ after, b.diagrams = .obj after ∧ (after.map Prod.fst).Nodup ∧
        Ledger.ofMembers after = (book.run calls).2.toLedger) ∧
      b.version = changesSince replies ∧
      ((∃ reply ∈ replies, reply.writes = true) → Holds b.files path b.diagrams) ∧
      (a.run (calls.filter fun c => !c.reloads)).1 =
        (replies.filter fun reply => !reply.reopens).map .ok ∧
      (a.run (calls.filter fun c => !c.reloads)).2.diagrams = b.diagrams ∧
      ∀ name source g e, g.toTree = .error e →
        (∃ through, e = .cycle through) ∧ b.put name source g = (.error (.diagram e), b) := by
  let a : Archive := { host with path, diagrams := .obj entries, version := 0 }
  have records : a.Records ⟨.ofMembers entries, host.ticks⟩ :=
    ⟨entries, ⟨⟨rfl, orderly_of_loads loads listed, writable⟩,
      (tidy_of_loads loads).restorable exact, loads⟩, rfl⟩
  have all := keeps_run records rfl made
  have kept : Keeps a ⟨.ofMembers entries, host.ticks⟩ (calls.filter fun c => !c.reloads) :=
    keeps_run records rfl fun c hc => made c (List.mem_filter.mp hc).1
  obtain ⟨after, settled, shown⟩ := all.records
  obtain ⟨after', settled', shown'⟩ := kept.records
  rw [Book.run_filter, shown] at shown'
  have same : after = after' := Ledger.ofMembers_inj settled.orderly.distinct
    (congrArg Book.toLedger shown')
  refine ⟨a, openAt_of_loads loads, all.outcomes, ⟨after, settled.memory, settled.orderly.distinct,
    (congrArg Book.toLedger shown).symm⟩, all.version, fun written => ?_, ?_, ?_, ?_⟩
  · rw [← show (a.run calls).2.path = path from all.path]
    exact all.holds written
  · rw [kept.outcomes, Book.run_filter]
  · rw [settled'.memory, settled.memory, same]
  · exact fun name source g e cycle =>
      ⟨Graph.cycle_of_records cycle, put_of_error cycle name source⟩

/-- A file with one entry is opened, the entry is replaced, another comes and goes, and the archive
is opened again between the calls. -/
theorem archive_keeps_ledger_over_reloads : ∃ (host : Host) (g : Graph) (a : Archive),
    let entries : List (Text × Json) := [("old", .obj [("entities", .arr [])])]
    let path : Path := .ofText "s.json"
    let calls : List Call := [.put "n" "class A" g, .reload, .put "old" "class A" g, .remove "n",
      .list, .reload, .get "old", .save]
    let book : Book := ⟨.ofMembers entries, host.ticks⟩
    let replies := (book.run calls).1
    parse ("class A" : String) = .ok g ∧ Loads host.files path entries ∧ openAt host path = .ok a ∧
      (a.run calls).1 = replies.map .ok ∧ (a.run calls).2.version = changesSince replies ∧
      ((∃ reply ∈ replies, reply.writes = true) →
        Holds (a.run calls).2.files path (a.run calls).2.diagrams) ∧
      (a.run (calls.filter fun c => !c.reloads)).2.diagrams = (a.run calls).2.diagrams := by
  let entries : List (Text × Json) := [("old", .obj [("entities", .arr [])])]
  let place : Files.Location := ⟨.working 0, ["s.json"]⟩
  let host : Host := ⟨⟨[(place, .file (Json.obj entries).pretty.toUTF8)]⟩, 0, ""⟩
  obtain ⟨g, hg⟩ : ∃ g, parse ("class A" : String) = .ok g := exists_ok_of_isOk (by decide +kernel)
  have old : Listed (.obj [("entities", .arr [])]) :=
    ⟨_, rfl, fun _ found => ⟨[], (Option.some.inj found).symm⟩⟩
  have textual : (Json.obj entries).Textual Text.Joined := by
    refine .obj (by decide) (by decide) (List.forall_mem_singleton.mpr ?_)
    exact .obj (by decide) (by decide) (List.forall_mem_singleton.mpr (.arr nofun))
  have stores : host.files.Stores (.ofText "s.json") (Json.obj entries).pretty.toUTF8 :=
    ⟨place, ⟨by decide +kernel, rfl, .inr ⟨_, rfl⟩⟩, rfl⟩
  have loads : Loads host.files (.ofText "s.json") entries :=
    .inr (holds_of_stores stores textual.restorable)
  have text : Text.Joined ("class A" : String) := by decide
  have made : ∀ c ∈ [Call.put "n" "class A" g, .reload, .put "old" "class A" g, .remove "n", .list,
      .reload, .get "old", .save], c.Made := by
    simp only [List.forall_mem_cons]
    exact ⟨⟨by decide, text, _, text, hg⟩, trivial, ⟨by decide, text, _, text, hg⟩, trivial,
      trivial, trivial, trivial, trivial, nofun⟩
  obtain ⟨a, opened, outcomes, _, version, holds, _, same, _⟩ := archive_keeps_ledger stores.keeps
    loads (List.forall_mem_singleton.mpr old) textual.exact made
  exact ⟨host, g, a, hg, loads, opened, outcomes, version, holds, same⟩

end ClassGraph.Archive
