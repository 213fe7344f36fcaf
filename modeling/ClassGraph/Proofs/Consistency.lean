import ClassGraph.Proofs.Json.Numeral
import ClassGraph.Proofs.Requests

/-! # Every entry tells what its own text means

Whatever requests the service gets, however often it is stopped and its archive
opened again, each entry holds the tree of the diagram that its text is. An entry
can be stored again from its own name and text, which changes nothing but its
time. The answer to that is sent where both can be encoded, and only there: half
a surrogate pair in a comment is stored, but cannot be answered.
-/

namespace ClassGraph

open Files (Path)
open Json (setMember)

/-! ## Names -/

theorem Decimal.Scientific.write_ne_nil (style : Style) (s : Scientific) : s.write style ≠ [] := by
  simp only [write]
  split
  · unfold positional
    split
    · exact List.cons_ne_nil _ _
    · simp
  · unfold exponential
    cases Nat.toDigits 10 s.digits with
    | nil => simp
    | cons d rest => cases rest <;> simp

theorem Decimal.write64_ne_empty (x : Float) : write64 plainStyle x ≠ "" := by
  unfold write64
  split
  · decide
  · split <;> decide
  · rename_i negative magnitude _
    have digits := Scientific.write_ne_nil plainStyle magnitude.shortest
    simp only [ne_eq, String.ofList_eq_empty_iff]
    split
    · exact List.cons_ne_nil _ _
    · exact digits

theorem Json.literal_ne_empty {v : Json} (h : ∀ t, v ≠ .str t) : v.literal ≠ "" := by
  cases v with
  | null => decide
  | bool b => cases b <;> decide
  | int i =>
    cases i with
    | ofNat n => exact Nat.repr_ne_empty
    | negSucc n =>
      change "-" ++ Nat.repr (n + 1) ≠ ""
      simp
  | real x => exact Decimal.write64_ne_empty x
  | str t => exact absurd rfl (h t)
  | arr items => cases items <;> simp [literal]
  | obj members => cases members <;> simp [literal]

/-- A value that is not blank is shown by some characters. -/
theorem Json.display_ne_nil {v : Json} (h : v.isBlankValue = false) : v.display ≠ [] := by
  unfold display
  split
  · exact List.isEmpty_eq_false_iff.mp h
  · rename_i other
    simpa [Text.ofString] using literal_ne_empty other

namespace Service

/-! ## Events -/

inductive Event where
  | request (r : Request)
  /-- The service is started and shut down. -/
  | stop
  /-- The archive is opened again at its path. -/
  | reload

def Event.apply (a : Archive) : Event → Archive
  | request r => (handle a r).2
  | stop => (startAndStop a).2
  | reload =>
    match a.reload with
    | .ok a => a
    | .error _ => a

/-- A request whose texts can be written and read again. -/
def Request.IsJoined (r : Request) : Prop :=
  ∀ members ∈ bodyMembers r.body, ∀ m ∈ members, ∀ t ∈ m.2.text?, t.Joined

instance (r : Request) : Decidable r.IsJoined := by
  unfold Request.IsJoined; infer_instance

/-! ## Consistent entries -/

/-- An entry that is made of its name, a text, the tree of that text and a time. -/
structure Tells (m : Text × Json) (source : Text) (g : Graph) (tree : List Record)
    (time : String) : Prop where
  entry : m.2 = Archive.entry m.1 source tree time
  named : m.1 ≠ []
  blank : Text.isBlankText source = false
  parsed : parse source = .ok g
  tree : g.toTree = .ok tree

def Consistent (m : Text × Json) : Prop := ∃ source g tree time, Tells m source g tree time

theorem Storable.consistent {members : List (Text × Json)} {source : Text} {g : Graph}
    {tree : List Record} (h : Storable members source g tree) (time : String) :
    Consistent ((nameOf members).display,
      Archive.entry (nameOf members).display source tree time) :=
  ⟨source, g, tree, time, rfl, Json.display_ne_nil h.name, h.blank, h.parsed, h.tree⟩

/-- An archive all of whose entries are consistent. -/
def Faithful (a : Archive) : Prop := ∃ entries, a.Settled entries ∧ ∀ m ∈ entries, Consistent m

variable {a b c : Archive} {entries members : List (Text × Json)} {r : Request}
  {response : Response} {source : Text} {g : Graph} {tree : List Record}

theorem joined_of_lookup {key t : Text} (joined : r.IsJoined)
    (body : bodyMembers r.body = some members) (found : members.lookup key = some (.str t)) :
    t.Joined :=
  joined members body _ (Json.mem_of_lookup_eq_some found) t rfl

theorem joined_nameOf (joined : r.IsJoined) (body : bodyMembers r.body = some members) :
    (nameOf members).display.Joined := by
  refine Json.display_of_str Text.hereditary_joined fun t named => ?_
  unfold nameOf at named
  cases found : members.lookup ("name" : Text) with
  | none => rw [found] at named; cases named
  | some v =>
    rw [found] at named
    cases named
    exact joined_of_lookup joined body found

theorem Handles.faithful (settled : a.Settled entries) (consistent : ∀ m ∈ entries, Consistent m)
    (joined : r.IsJoined) (h : Handles a entries r response c) : Faithful c := by
  cases h with
  | @stored members source g tree c method route body storable commits =>
    have named := joined_nameOf joined body
    have textual := storable.textual Text.hereditary_joined named
      (joined_of_lookup joined body storable.told)
    obtain ⟨settled', _⟩ := Archive.settled_of_stores commits.memory
      (settled.orderly.setMember _ (Archive.listed_entry _ _ _ _))
      (Archive.restorable_setMember settled.restorable named (textual _).restorable) commits.stores
    refine ⟨_, settled', fun m hm => ?_⟩
    rcases Json.mem_setMember hm with rfl | hm
    · exact storable.consistent _
    · exact consistent m hm
  | removed method route present commits =>
    obtain ⟨settled', _⟩ := Archive.settled_of_stores commits.memory (settled.orderly.filter _)
      (Archive.restorable_filter settled.restorable _) commits.stores
    exact ⟨_, settled', fun m hm => consistent m (List.mem_filter.mp hm).1⟩
  | unchanged => exact ⟨entries, settled, consistent⟩

/-- Stopping the service saves what its archive holds. -/
theorem settled_startAndStop (h : a.Settled entries) : (startAndStop a).2.Settled entries := by
  obtain ⟨host, begun⟩ : ∃ host, host = (a.toHost.note
    ("[app] Diagram store at " ++ a.path.text)).note "[app] Shutting down…" := ⟨_, rfl⟩
  have noted : ({ a with toHost := host } : Archive).Running entries := by
    subst begun
    exact { h.toRunning with }
  obtain ⟨files, saved, stores⟩ := noted.held.save
  simp only [startAndStop, ← begun, saved]
  exact And.left (Archive.settled_of_stores h.memory h.orderly h.restorable stores)

theorem faithful_apply (h : Faithful a) (event : Event)
    (joined : ∀ r, event = .request r → r.IsJoined) : Faithful (event.apply a) := by
  obtain ⟨entries, settled, consistent⟩ := h
  cases event with
  | request r =>
    obtain ⟨response, c, handled, handles, _⟩ := handle_handles settled.toRunning r
    rw [Event.apply, handled]
    exact handles.faithful settled consistent (joined r rfl)
  | stop => exact ⟨entries, settled_startAndStop settled, consistent⟩
  | reload =>
    rw [Event.apply, settled.reload]
    exact ⟨entries, { settled with }, consistent⟩

theorem faithful_events (h : Faithful a) {events : List Event}
    (joined : ∀ r, .request r ∈ events → r.IsJoined) : Faithful (events.foldl Event.apply a) := by
  induction events generalizing a with
  | nil => exact h
  | cons event events ih =>
    have first := faithful_apply h event fun r same => joined r (same ▸ List.mem_cons_self)
    exact ih first fun r hr => joined r (List.mem_cons_of_mem _ hr)

/-- Where there is no file, an archive without entries is opened. -/
theorem settled_of_absent {host : Host} {path : Path} (writable : host.files.Keeps path)
    (absent : host.files.exists? path = .ok false) :
    ∃ a, Archive.openAt host path = .ok a ∧ a.Settled [] := by
  have loads : Archive.Loads host.files path [] := .inl ⟨absent, rfl⟩
  exact ⟨_, Archive.openAt_of_loads loads, ⟨rfl, ⟨.nil, nofun⟩, writable⟩, .obj .nil nofun nofun,
    loads⟩

/-! ## Listing and storing again -/

theorem Tells.summary {m : Text × Json} {time : String} (h : Tells m source g tree time) :
    Archive.summaryOf m.1 m.2 =
      .obj [("name", .str m.1), ("entity_count", .int g.size), ("updated_at", .str time)] := by
  have length : g.size = (tree.map Record.toJson).length := by
    rw [List.length_map]
    exact (Graph.toTree_unfolds h.tree).length_eq
  rw [h.entry, length]
  rfl

/-- The text that a body holds under a key. -/
def textAt (body : ByteArray) (key : Text) : Option Text :=
  (bodyMembers body).bind fun members => (members.lookup key).bind Json.text?

/-- A request that stores a text under a name. -/
structure Request.Posts (r : Request) (name source : Text) : Prop where
  method : r.method = "POST"
  route : route? r.path.toList = some .diagrams
  name : textAt r.body "name" = some name
  source : textAt r.body "source" = some source

instance (r : Request) (name source : Text) : Decidable (r.Posts name source) :=
  decidable_of_iff (r.method = "POST" ∧ route? r.path.toList = some .diagrams ∧
      textAt r.body "name" = some name ∧ textAt r.body "source" = some source)
    ⟨fun h => ⟨h.1, h.2.1, h.2.2.1, h.2.2.2⟩, fun h => ⟨h.method, h.route, h.name, h.source⟩⟩

theorem lookup_of_textAt {body : ByteArray} {key t : Text} (h : textAt body key = some t) :
    ∃ members, bodyMembers body = some members ∧ members.lookup key = some (.str t) := by
  obtain ⟨members, found, h⟩ := Option.bind_eq_some_iff.mp h
  obtain ⟨v, value, text⟩ := Option.bind_eq_some_iff.mp h
  cases v <;> cases text
  exact ⟨members, found, value⟩

/-- An entry can be sent if and only if its name and its text can be encoded. -/
theorem send_entry (parsed : parse source = .ok g) (ht : g.toTree = .ok tree) (name : Text)
    (time : String) (status : Nat) : send (answer status (Archive.entry name source tree time)) =
      sentIf (name.isEncodable && source.isEncodable)
        (answer status (Archive.entry name source tree time)) := by
  have textual {P : Text → Prop} (hereditary : Text.Hereditary P) (hn : P name) (hs : P source) :=
    Archive.textual_entry hereditary hn hs (textual_of_parse hereditary hs parsed ht) time
  have digits : (Archive.entry name source tree time).hasDigitlessNumber = false :=
    (textual Text.hereditary_true trivial trivial).hasDigitlessNumber
  have encodable : (Archive.entry name source tree time).isEncodable =
      (name.isEncodable && source.isEncodable) := by
    rw [Bool.eq_iff_iff, Bool.and_eq_true]
    constructor
    · intro all
      have members := Json.isEncodable_obj.mp all
      simp only [List.forall_mem_cons] at members
      exact ⟨members.1.2, members.2.1.2⟩
    · intro both
      exact (textual Text.hereditary_isEncodable both.1 both.2).sendable.2
  rw [send_answer digits, encodable]

theorem commits_of_posts {m : Text × Json} {time : String} (running : a.Running entries)
    (h : Tells m source g tree time) (posts : r.Posts m.1 source) :
    let again := Archive.entry m.1 source tree (Archive.timestamp (a.ticks + 1))
    ∃ c, handle a r = (send (answer 201 again), c) ∧ Commits a c (setMember m.1 again entries) := by
  obtain ⟨members, body, name⟩ := lookup_of_textAt posts.name
  obtain ⟨_, same, told⟩ := lookup_of_textAt posts.source
  cases body.symm.trans same
  have named : nameOf members = .str m.1 := by rw [nameOf, name, Option.getD_some]
  have full : (nameOf members).isBlankValue = false := by
    rw [named]
    exact List.isEmpty_eq_false_iff.mpr h.named
  obtain ⟨c, handled, commits⟩ := handle_of_storable running.held posts.method posts.route body
    ⟨full, told, h.blank, h.parsed, h.tree⟩
  rw [named] at handled commits
  exact ⟨c, handled, commits⟩

/-- A stored name and text can be stored again. Nothing is changed by it but the time. -/
theorem handle_of_posts {m : Text × Json} {time : String} (running : a.Running entries)
    (h : Tells m source g tree time) (posts : r.Posts m.1 source) :
    let again := Archive.entry m.1 source tree (Archive.timestamp (a.ticks + 1))
    ∃ c, handle a r = (if m.1.isEncodable && source.isEncodable then .ok (answer 201 again)
        else .error .unencodable, c) ∧ Changes a c fun l => l.put m.1 again := by
  obtain ⟨c, handled, commits⟩ := commits_of_posts running h posts
  refine ⟨c, ?_, commits.put running.held⟩
  rw [handled, send_entry h.parsed h.tree]
  rfl

/-- Behind any requests, stops and openings each entry holds its name, a text, and the tree of the
diagram that the text is; it is listed with the number of the diagram's declarations; and storing it
again from its name and text changes its time alone. The answer is then 201 if name and text can be
encoded, and is not sent otherwise. -/
theorem entries_tell_their_sources {host : Host} {path : Path} (writable : host.files.Keeps path)
    (absent : host.files.exists? path = .ok false) {events : List Event}
    (joined : ∀ r, .request r ∈ events → r.IsJoined) :
    ∃ a entries, Archive.openAt host path = .ok a ∧
      let b := events.foldl Event.apply a
      b.diagrams = .obj entries ∧ (entries.map Prod.fst).Nodup ∧
      b.list = .ok (entries.map fun m => Archive.summaryOf m.1 m.2) ∧
      ∀ m ∈ entries, ∃ source g tree time, m.2 = Archive.entry m.1 source tree time ∧
        parse source = .ok g ∧ g.toTree = .ok tree ∧
        Archive.summaryOf m.1 m.2 = .obj [("name", .str m.1), ("entity_count", .int g.size),
          ("updated_at", .str time)] ∧
        ∀ r : Request, r.Posts m.1 source →
          let again := Archive.entry m.1 source tree (Archive.timestamp (b.ticks + 1))
          ∃ c, handle b r = (if m.1.isEncodable && source.isEncodable then .ok (answer 201 again)
              else .error .unencodable, c) ∧ Changes b c fun l => l.put m.1 again := by
  obtain ⟨a, opened, empty⟩ := settled_of_absent writable absent
  obtain ⟨entries, settled, consistent⟩ := faithful_events ⟨[], empty, nofun⟩ joined
  refine ⟨a, entries, opened, settled.memory, settled.orderly.distinct,
    settled.toRunning.list, fun m hm => ?_⟩
  obtain ⟨source, g, tree, time, tells⟩ := consistent m hm
  exact ⟨source, g, tree, time, tells.entry, tells.parsed, tells.tree, tells.summary,
    fun r posts => handle_of_posts settled.toRunning tells posts⟩

/-- A diagram is stored, the service is stopped, its archive is opened again, and a diagram with
half a surrogate pair in a comment is stored. -/
theorem entries_tell_their_sources_over_stop : ∃ (a : Archive) (entries : List (Text × Json)),
    let events : List Event := [
      .request ⟨"POST", "/api/diagrams", "\x7b\"name\": 7, \"source\": \"class A\"\x7d".toUTF8⟩,
      .stop, .reload, .request ⟨"POST", "/api/diagrams",
        "\x7b\"name\": \"n\", \"source\": \"class A ' \\ud800\"\x7d".toUTF8⟩]
    let b := events.foldl Event.apply a
    Archive.openAt ⟨.empty, 0, ""⟩ (.ofText "d.json") = .ok a ∧ b.diagrams = .obj entries ∧
      ∀ m ∈ entries, ∃ source g tree time, m.2 = Archive.entry m.1 source tree time ∧
        parse source = .ok g ∧ g.toTree = .ok tree := by
  let host : Host := ⟨.empty, 0, ""⟩
  let named : Request :=
    ⟨"POST", "/api/diagrams", "\x7b\"name\": 7, \"source\": \"class A\"\x7d".toUTF8⟩
  let halved : Request := ⟨"POST", "/api/diagrams",
    "\x7b\"name\": \"n\", \"source\": \"class A ' \\ud800\"\x7d".toUTF8⟩
  have joined : ∀ r ∈ [named, halved], r.IsJoined := by decide +kernel
  have all : ∀ r, Event.request r ∈ [.request named, .stop, .reload, .request halved] →
      r.IsJoined := by
    intro r hr
    refine joined r ?_
    simpa using hr
  obtain ⟨a, entries, opened, memory, _, _, tells⟩ :=
    entries_tell_their_sources (show host.files.Keeps _ from keeps_empty) rfl all
  refine ⟨a, entries, opened, memory, fun m hm => ?_⟩
  obtain ⟨source, g, tree, time, entry, parsed, tree', _⟩ := tells m hm
  exact ⟨source, g, tree, time, entry, parsed, tree'⟩

/-- Half a surrogate pair in a comment: the entry is stored from it, but the answer is not sent,
neither the first time nor when the entry is stored again. -/
theorem stored_but_not_answered : ∃ (a : Archive) (r : Request) (source : Text),
    r = ⟨"POST", "/api/diagrams",
      "\x7b\"name\": \"n\", \"source\": \"class A ' \\ud800\"\x7d".toUTF8⟩ ∧
    Archive.openAt ⟨.empty, 0, ""⟩ (.ofText "d.json") = .ok a ∧ r.Posts "n" source ∧
    let b := (handle a r).2
    (b.ledger.find? "n").bind (·.get? "source") = some (.str source) ∧
      (handle a r).1 = .error .unencodable ∧ (handle b r).1 = .error .unencodable := by
  let host : Host := ⟨.empty, 0, ""⟩
  let r : Request := ⟨"POST", "/api/diagrams",
    "\x7b\"name\": \"n\", \"source\": \"class A ' \\ud800\"\x7d".toUTF8⟩
  let source : Text := Text.ofString "class A ' " ++ [.surrogate 0]
  have posts : r.Posts "n" source :=
    ⟨rfl, by decide +kernel, by decide +kernel, by decide +kernel⟩
  obtain ⟨g, parsed⟩ : ∃ g, parse source = .ok g := exists_ok_of_isOk (by decide +kernel)
  obtain ⟨tree, ht⟩ := exists_tree_of_backward parsed (by decide +kernel)
  have tells : Tells ("n", Archive.entry "n" source tree "") source g tree "" :=
    ⟨rfl, List.cons_ne_nil _ _, by decide, parsed, ht⟩
  obtain ⟨a, opened, settled⟩ := settled_of_absent (show host.files.Keeps _ from keeps_empty) rfl
  obtain ⟨c, handled, changes⟩ := handle_of_posts settled.toRunning tells posts
  have joined : r.IsJoined := by decide +kernel
  obtain ⟨entries, settled', _⟩ : Faithful (handle a r).2 :=
    faithful_apply ⟨[], settled, nofun⟩ (.request r) fun _ same => Event.request.inj same ▸ joined
  obtain ⟨c', handled', _⟩ := handle_of_posts settled'.toRunning tells posts
  refine ⟨a, r, source, rfl, opened, posts, ?_, ?_, ?_⟩
  · rw [handled, changes.ledger]
    exact congrArg (·.bind (·.get? "source")) (Ledger.find?_put _ _ _)
  · rw [handled]; rfl
  · rw [handled']; rfl

end Service

end ClassGraph
