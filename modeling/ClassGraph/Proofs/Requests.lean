import ClassGraph.Proofs.Handling

/-! # Requests one after another

Over a file that can be kept, and with texts that can be encoded, every request is
answered, and the archive behind it differs from the one before it only where a
diagram was stored or an entry was removed.
-/

namespace ClassGraph.Service

open Files (Path)
open Json (setMember)

/-- The archive behind some requests. -/
def afterRequests (a : Archive) (requests : List Request) : Archive :=
  requests.foldl (fun a r => (handle a r).2) a

/-- A request whose body, if it is an object, can be encoded. -/
def Request.IsEncodable (r : Request) : Prop :=
  ∀ members, bodyMembers r.body = some members → (Json.obj members).isEncodable = true

instance (r : Request) : Decidable r.IsEncodable :=
  decidable_of_iff ((bodyMembers r.body).all fun members => (Json.obj members).isEncodable)
    (Option.all_eq_true _ _)

/-- An archive whose map is changed once, which is saved. -/
structure Changes (b c : Archive) (change : Ledger → Ledger) : Prop where
  ledger : c.ledger = change b.ledger
  object : ∃ after, c.diagrams = .obj after ∧ (after.map Prod.fst).Nodup
  version : c.version = b.version + 1
  path : c.path = b.path
  file : c.files.read c.path = .ok c.diagrams.pretty.toUTF8

variable {a b c : Archive} {entries changed : List (Text × Json)} {r : Request}
  {response : Response}

theorem Commits.running (h : Commits b c changed) (orderly : Archive.Orderly changed) :
    c.Running changed := ⟨h.memory, orderly, h.stores.keeps⟩

theorem Commits.changes_of_distinct (h : Commits b c changed)
    (distinct : (changed.map Prod.fst).Nodup) {change : Ledger → Ledger}
    (ledger : Ledger.ofMembers changed = change b.ledger) : Changes b c change where
  ledger := (Archive.ledger_of_memory h.memory).trans ledger
  object := ⟨changed, h.memory, distinct⟩
  version := h.version
  path := h.path
  file := h.memory ▸ h.stores.read

theorem Commits.changes (h : Commits b c changed) (orderly : Archive.Orderly changed)
    {change : Ledger → Ledger} (ledger : Ledger.ofMembers changed = change b.ledger) :
    Changes b c change := h.changes_of_distinct orderly.distinct ledger

theorem Commits.put {name : Text} {entry : Json} (h : Commits b c (setMember name entry entries))
    (held : b.Held entries) : Changes b c fun l => l.put name entry := by
  refine h.changes_of_distinct (Json.nodup_setMember held.distinct _) ?_
  rw [Archive.ledger_of_memory held.memory]
  exact Ledger.ofMembers_setMember _ _ _

theorem Commits.remove {name : Text} (h : Commits b c (entries.filter fun m => m.1 != name))
    (held : b.Held entries) : Changes b c fun l => l.remove name := by
  refine h.changes_of_distinct (held.distinct.sublist (List.filter_sublist.map Prod.fst)) ?_
  rw [Archive.ledger_of_memory held.memory]
  exact Ledger.ofMembers_filter _ _

/-! ## What holds of all entries -/

/-- An archive that runs, with entries of a kind. -/
def RunsWith (P : Text × Json → Prop) (b : Archive) : Prop :=
  ∃ entries, b.Running entries ∧ ∀ m ∈ entries, P m

/-- Whatever a request stores is of a kind. -/
def Request.Adds (r : Request) (P : Text × Json → Prop) : Prop :=
  ∀ members source g tree time, bodyMembers r.body = some members →
    Storable members source g tree →
    P ((nameOf members).display, Archive.entry (nameOf members).display source tree time)

variable {P : Text × Json → Prop} {requests : List Request}

theorem Handles.runsWith (running : b.Running entries) (all : ∀ m ∈ entries, P m)
    (adds : r.Adds P) (h : Handles b entries r response c) : RunsWith P c := by
  cases h with
  | @stored members source g tree c method route body storable commits =>
    refine ⟨_, commits.running (running.orderly.setMember _ (Archive.listed_entry _ _ _ _)), ?_⟩
    intro m hm
    rcases Json.mem_setMember hm with rfl | hm
    · exact adds members source g tree _ body storable
    · exact all m hm
  | removed method route present commits =>
    exact ⟨_, commits.running (running.orderly.filter _),
      fun m hm => all m (List.mem_filter.mp hm).1⟩
  | unchanged => exact ⟨entries, running, all⟩

theorem RunsWith.handle (h : RunsWith P b) (adds : r.Adds P) : RunsWith P (handle b r).2 := by
  obtain ⟨entries, running, all⟩ := h
  obtain ⟨response, c, handled, handles, _⟩ := handle_handles running r
  rw [handled]
  exact handles.runsWith running all adds

theorem RunsWith.afterRequests (h : RunsWith P a) (adds : ∀ r ∈ requests, r.Adds P) :
    RunsWith P (afterRequests a requests) := by
  induction requests generalizing a with
  | nil => exact h
  | cons r requests ih =>
    obtain ⟨first, others⟩ := List.forall_mem_cons.mp adds
    exact ih (h.handle first) others

/-! ## Maps and other values -/

/-- What was opened as a map is a map behind all requests. -/
theorem held_afterRequests (h : a.Held entries) (requests : List Request) :
    ∃ changed, (afterRequests a requests).Held changed := by
  induction requests generalizing a entries with
  | nil => exact ⟨entries, h⟩
  | cons r requests ih =>
    obtain ⟨changed, first⟩ := held_handle h r
    exact ih first

/-- What was opened as another value stays another value. -/
theorem unmapped_afterRequests (h : a.Unmapped) (requests : List Request) :
    (afterRequests a requests).Unmapped := by
  induction requests generalizing a with
  | nil => exact h
  | cons r requests ih => exact ih (unmapped_handle h r)

/-! ## What can be sent -/

/-- An archive that runs, with entries that can be sent. -/
def Serving (b : Archive) : Prop := ∃ entries, b.Running entries ∧ (Json.obj entries).Sendable

theorem serving_iff :
    Serving b ↔ RunsWith (fun m => m.1.isEncodable = true ∧ m.2.Sendable) b :=
  exists_congr fun _ => and_congr_right fun _ => Json.sendable_obj

theorem serving_afterRequests (h : Serving a) (encodable : ∀ r ∈ requests, r.IsEncodable) :
    Serving (afterRequests a requests) := by
  refine serving_iff.mpr ((serving_iff.mp h).afterRequests fun r hr => ?_)
  intro members source g tree time body storable
  have clean := encodable r hr members body
  exact ⟨isEncodable_nameOf clean, storable.sendable clean time⟩

/-- A request is answered with one of six statuses. Only where a diagram is stored, or an entry is
removed, is the archive another one behind it, and then its map has changed in one place, its
version is one more, and its file is written. -/
theorem failures_leave_no_trace {host : Host} {path : Path}
    {entries : List (Text × Json)} (writable : host.files.Keeps path)
    (loads : Archive.Loads host.files path entries)
    (listed : ∀ m ∈ entries, Archive.Listed m.2) (sendable : (Json.obj entries).Sendable)
    {requests : List Request} (encodable : ∀ r ∈ requests, r.IsEncodable) {r : Request}
    (encodable' : r.IsEncodable) :
    ∃ a, Archive.openAt host path = .ok a ∧ ∃ response c,
      let b := afterRequests a requests
      handle b r = (.ok response, c) ∧ response.status ∈ [200, 201, 307, 400, 404, 405] ∧
      (response.status = 201 → r.method = "POST" ∧ route? r.path.toList = some .diagrams ∧
        ∃ members source g tree, bodyMembers r.body = some members ∧
          Storable members source g tree ∧
          let name := (nameOf members).display
          let entry := Archive.entry name source tree (Archive.timestamp (b.ticks + 1))
          response = answer 201 entry ∧ Changes b c fun l => l.put name entry) ∧
      (r.method = "DELETE" → response.status = 200 → ∃ name : String,
        route? r.path.toList = some (.diagram name) ∧ (b.ledger.find? name).isSome = true ∧
          Changes b c fun l => l.remove name) ∧
      (response.status ≠ 201 → ¬ (r.method = "DELETE" ∧ response.status = 200) → c = b) := by
  have orderly := Archive.orderly_of_loads loads listed
  have serving : Serving { host with path, diagrams := .obj entries, version := 0 } :=
    ⟨entries, ⟨rfl, orderly, writable⟩, sendable⟩
  obtain ⟨before, running, sendable'⟩ := serving_afterRequests serving encodable
  obtain ⟨response, c, handled, handles, sent⟩ := handle_handles running r
  have ledger := Archive.ledger_of_memory running.memory
  refine ⟨_, Archive.openAt_of_loads loads, response, c, ?_⟩
  simp only
  rw [handled, send_of_sendable (sent ⟨sendable', encodable'⟩)]
  refine ⟨rfl, ?_⟩
  cases handles with
  | @stored members source g tree c method route body storable commits =>
    have changes : Changes _ c fun l => l.put (nameOf members).display _ := commits.changes
      (running.orderly.setMember _ (Archive.listed_entry _ _ _ _))
      (by rw [ledger]; exact Ledger.ofMembers_setMember _ _ _)
    refine ⟨by simp [answer], fun _ => ⟨method, route, members, source, g, tree, body, storable,
      rfl, changes⟩, fun delete => ?_, fun stored => absurd rfl stored⟩
    exact absurd (method.symm.trans delete) (by decide)
  | @removed name c method route present commits =>
    have changes : Changes _ c fun l => l.remove name := commits.changes (running.orderly.filter _)
      (by rw [ledger]; exact Ledger.ofMembers_filter _ _)
    refine ⟨by simp [answer], fun stored => ?_, fun _ _ => ⟨name, route, ?_, changes⟩,
      fun _ kept => absurd ⟨method, rfl⟩ kept⟩
    · cases stored
    · rw [ledger]
      exact present
  | unchanged status kept =>
    refine ⟨?_, fun stored => ?_, fun delete ok => absurd ⟨delete, ok⟩ kept, fun _ _ => rfl⟩
    · simp only [List.mem_cons] at status ⊢
      tauto
    · rw [stored] at status
      exact absurd status (by decide)

/-- A file can be kept where there is nothing else. -/
theorem keeps_empty : FileTree.empty.Keeps (.ofText "d.json") :=
  FileTree.Room.keeps (l := ⟨.working 0, ["d.json"]⟩)
    ⟨by decide +kernel, rfl, .inl (by decide +kernel)⟩

/-- A diagram is stored, a body that is no object is refused, and the entry is removed. -/
theorem failures_leave_no_trace_of_refusal : ∃ (a b c : Archive) (response : Response),
    let requests : List Request :=
      [⟨"POST", "/api/diagrams", "\x7b\"name\": \"n\", \"source\": \"class A\"\x7d".toUTF8⟩,
        ⟨"POST", "/api/parse", "[]".toUTF8⟩]
    let r : Request := ⟨"DELETE", "/api/diagrams/n", .empty⟩
    Archive.openAt ⟨.empty, 0, ""⟩ (.ofText "d.json") = .ok a ∧ b = afterRequests a requests ∧
      handle b r = (.ok response, c) ∧ response.status ∈ [200, 201, 307, 400, 404, 405] ∧
      (response.status = 200 → ∃ name : String, Changes b c fun l => l.remove name) ∧
      (response.status ≠ 201 → response.status ≠ 200 → c = b) := by
  let host : Host := ⟨.empty, 0, ""⟩
  let post : Request :=
    ⟨"POST", "/api/diagrams", "\x7b\"name\": \"n\", \"source\": \"class A\"\x7d".toUTF8⟩
  let bad : Request := ⟨"POST", "/api/parse", "[]".toUTF8⟩
  let delete : Request := ⟨"DELETE", "/api/diagrams/n", .empty⟩
  have loads : Archive.Loads host.files (.ofText "d.json") [] := .inl ⟨rfl, rfl⟩
  have encodable : ∀ r ∈ [post, bad], r.IsEncodable := by decide +kernel
  have encodable' : delete.IsEncodable := by decide +kernel
  obtain ⟨a, opened, response, c, handled, status, _, removed, same⟩ :=
    failures_leave_no_trace keeps_empty loads nofun ⟨rfl, rfl⟩ encodable encodable'
  refine ⟨a, _, c, response, opened, rfl, handled, status, fun ok => ?_, fun created ok => ?_⟩
  · obtain ⟨name, _, _, changes⟩ := removed rfl ok
    exact ⟨name, changes⟩
  · exact same created fun kept => ok kept.2

end ClassGraph.Service
