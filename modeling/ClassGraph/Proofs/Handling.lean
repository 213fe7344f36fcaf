import ClassGraph.Proofs.Persistence
import ClassGraph.Service

/-! # What one request does

Only two handlers change the archive: the one that stores a diagram, which answers
201, and the one that removes an entry, which answers 200. Both have their change
in the file before they answer. Every other answer, whatever it refuses, leaves
the archive as it was. An answer whose texts can be encoded is sent.
-/

namespace ClassGraph

open Json (setMember Sendable)

theorem Json.display_of_str {P : Text → Prop} (hereditary : Text.Hereditary P) {v : Json}
    (h : ∀ t, v = .str t → P t) : P v.display := by
  cases v with
  | str t => exact h t rfl
  | _ => exact hereditary.string _

namespace Service

variable {a b c : Archive} {entries : List (Text × Json)} {r : Request} {body : ByteArray}
  {members : List (Text × Json)}

/-! ## Effects -/

/-- The entries of an archive become others, which are saved. -/
structure Commits (b c : Archive) (changed : List (Text × Json)) : Prop where
  memory : c.diagrams = .obj changed
  version : c.version = b.version + 1
  path : c.path = b.path
  stores : c.files.Stores c.path (Json.obj changed).pretty.toUTF8

/-- The name under which a body is stored. -/
def nameOf (members : List (Text × Json)) : Json := (members.lookup ("name" : Text)).getD .null

/-- What can be stored: a name that is not blank, and a text that is not blank and is a diagram with
a tree. -/
structure Storable (members : List (Text × Json)) (source : Text) (g : Graph)
    (tree : List Record) : Prop where
  name : (nameOf members).isBlankValue = false
  told : members.lookup ("source" : Text) = some (.str source)
  blank : Text.isBlankText source = false
  parsed : parse source = .ok g
  tree : g.toTree = .ok tree

/-- What a request does to an archive with these entries, and the answer to it. -/
inductive Handles (b : Archive) (entries : List (Text × Json)) (r : Request) :
    Response → Archive → Prop
  | stored {members : List (Text × Json)} {source : Text} {g : Graph} {tree : List Record}
      {c : Archive} (method : r.method = "POST") (route : route? r.path.toList = some .diagrams)
      (body : bodyMembers r.body = some members) (storable : Storable members source g tree)
      (commits : Commits b c (setMember (nameOf members).display
        (Archive.entry (nameOf members).display source tree (Archive.timestamp (b.ticks + 1)))
        entries)) :
      Handles b entries r (answer 201
        (Archive.entry (nameOf members).display source tree (Archive.timestamp (b.ticks + 1)))) c
  | removed {name : String} {c : Archive} (method : r.method = "DELETE")
      (route : route? r.path.toList = some (.diagram name))
      (present : (entries.lookup (name : Text)).isSome = true)
      (commits : Commits b c (entries.filter fun m => m.1 != name)) :
      Handles b entries r (answer 200 (.obj [("removed", .str name)])) c
  | unchanged {response : Response} (status : response.status ∈ [200, 307, 400, 404, 405])
      (kept : ¬ (r.method = "DELETE" ∧ response.status = 200)) : Handles b entries r response b

/-- An answer that can be sent. -/
def Response.Sendable (response : Response) : Prop := ∀ v ∈ response.body, v.Sendable

theorem send_of_sendable {response : Response} (h : response.Sendable) :
    send response = .ok response := by
  obtain ⟨status, body⟩ := response
  cases body with
  | none => rfl
  | some v =>
    obtain ⟨digits, encodable⟩ := h v rfl
    simp only [send, digits, encodable, Bool.false_eq_true, if_false, if_true]

/-- An answer is sent if its texts can be encoded. -/
def sentIf (encodable : Bool) (response : Response) : Except Failure Response :=
  if encodable then .ok response else .error .unencodable

theorem send_answer {v : Json} (digits : v.hasDigitlessNumber = false) (status : Nat) :
    send (answer status v) = sentIf v.isEncodable (answer status v) := by
  simp only [send, answer, sentIf, digits, Bool.false_eq_true, if_false]

/-- The entries and the body hold nothing that cannot be sent. -/
structure Clean (entries : List (Text × Json)) (body : ByteArray) : Prop where
  entries : (Json.obj entries).Sendable
  body : ∀ members, bodyMembers body = some members → (Json.obj members).isEncodable = true

/-- A handler answers, and has an effect; what it answers can be sent where all is clean. -/
def Serves (b : Archive) (entries : List (Text × Json)) (r : Request)
    (outcome : Except Failure Response × Archive) : Prop :=
  ∃ response c, outcome = (.ok response, c) ∧ Handles b entries r response c ∧
    (Clean entries r.body → response.Sendable)

theorem serves_unchanged {response : Response}
    (status : response.status ∈ [200, 307, 400, 404, 405])
    (kept : ¬ (r.method = "DELETE" ∧ response.status = 200))
    (sendable : Clean entries r.body → response.Sendable) :
    Serves b entries r (.ok response, b) :=
  ⟨response, b, rfl, .unchanged status kept, sendable⟩

/-! ## Answers without an effect -/

/-- An object with one member under a fixed key. -/
theorem sendable_member (key : String) {v : Json} (h : v.Sendable) :
    (Json.obj [((key : Text), v)]).Sendable :=
  Json.sendable_obj.mpr (List.forall_mem_singleton.mpr ⟨Text.isEncodable_ofString key, h⟩)

theorem sendable_answer {v : Json} (h : v.Sendable) (status : Nat) :
    (answer status v).Sendable := by
  intro body same
  cases same
  exact h

theorem sendable_refusal {status : Nat} {detail : Json} (h : detail.Sendable) :
    (refusal status detail).Sendable := sendable_answer (sendable_member "detail" h) status

theorem sendable_removed (name : String) :
    (answer 200 (.obj [("removed", .str name)])).Sendable :=
  sendable_answer (sendable_member "removed"
    (Json.sendable_str.mpr (Text.isEncodable_ofString name))) 200

theorem sendable_refusal_str (status : Nat) (detail : String) :
    (refusal status (.str detail)).Sendable :=
  sendable_refusal (Json.sendable_str.mpr (Text.isEncodable_ofString detail))

theorem sendable_badDiagram {e : DiagramError} (h : e.Traces fun t => t.isEncodable = true) :
    (badDiagram e).Sendable := by
  refine sendable_refusal (Json.sendable_obj.mpr ?_)
  simp only [List.forall_mem_cons]
  exact ⟨⟨Text.isEncodable_ofString _, Json.sendable_str.mpr (Text.isEncodable_ofString _)⟩,
    ⟨Text.isEncodable_ofString _, Json.sendable_str.mpr (DiagramError.isEncodable_message h)⟩,
    nofun⟩

theorem sendable_summaryOf {name : Text} {entry : Json} (named : name.isEncodable = true)
    (sendable : entry.Sendable) : (Archive.summaryOf name entry).Sendable := by
  have stamped : ((entry.get? "updated_at").getD .null).Sendable := by
    cases found : entry.get? "updated_at" with
    | none => exact ⟨rfl, rfl⟩
    | some time =>
      cases entry with
      | obj members => exact (Json.sendable_obj.mp sendable _ (Json.mem_of_lookup_eq_some found)).2
      | _ => cases found
  refine Json.sendable_obj.mpr ?_
  simp only [List.forall_mem_cons]
  exact ⟨⟨Text.isEncodable_ofString _, Json.sendable_str.mpr named⟩,
    ⟨Text.isEncodable_ofString _, Json.sendable_int _⟩, ⟨Text.isEncodable_ofString _, stamped⟩,
    nofun⟩

/-! ## Bodies -/

/-- A refusal of what a body holds, which can be sent where the body can be. -/
structure Refuses (members : List (Text × Json)) (response : Response) : Prop where
  status : response.status = 400
  sendable : (Json.obj members).isEncodable = true → response.Sendable

theorem isEncodable_of_lookup {key t : Text} (clean : (Json.obj members).isEncodable = true)
    (found : members.lookup key = some (.str t)) : t.isEncodable = true :=
  (Json.isEncodable_obj.mp clean _ (Json.mem_of_lookup_eq_some found)).2

theorem isEncodable_nameOf (clean : (Json.obj members).isEncodable = true) :
    (nameOf members).display.isEncodable = true := by
  refine Json.display_of_str Text.hereditary_isEncodable fun t named => ?_
  unfold nameOf at named
  cases found : members.lookup ("name" : Text) with
  | none => rw [found] at named; cases named
  | some v =>
    rw [found] at named
    cases named
    exact isEncodable_of_lookup clean found

theorem Storable.textual {P : Text → Prop} (hereditary : Text.Hereditary P) {source : Text}
    {g : Graph} {tree : List Record} (h : Storable members source g tree)
    (named : P (nameOf members).display) (told : P source) (time : String) :
    (Archive.entry (nameOf members).display source tree time).Textual P :=
  Archive.textual_entry hereditary named told (textual_of_parse hereditary told h.parsed h.tree)
    time

theorem Storable.sendable {source : Text} {g : Graph} {tree : List Record}
    (h : Storable members source g tree) (clean : (Json.obj members).isEncodable = true)
    (time : String) : (Archive.entry (nameOf members).display source tree time).Sendable :=
  (h.textual Text.hereditary_isEncodable (isEncodable_nameOf clean)
    (isEncodable_of_lookup clean h.told) time).sendable

theorem refuses_badDiagram {source : Text} {e : DiagramError}
    (told : members.lookup ("source" : Text) = some (.str source))
    (traces : ∀ {P : Text → Prop}, Text.Hereditary P → P source → e.Traces P) :
    Refuses members (badDiagram e) :=
  ⟨rfl, fun clean => sendable_badDiagram
    (traces Text.hereditary_isEncodable (isEncodable_of_lookup clean told))⟩

/-- A body tells a diagram, or is refused. -/
theorem readSource_cases (members : List (Text × Json)) :
    (∃ response, readSource members = .error response ∧ Refuses members response) ∨
      ∃ source g, readSource members = .ok (source, g) ∧
        members.lookup ("source" : Text) = some (.str source) ∧
        Text.isBlankText source = false ∧ parse source = .ok g := by
  have missing : Refuses members (refusal 400 (.str "source is required")) :=
    ⟨rfl, fun _ => sendable_refusal_str _ _⟩
  unfold readSource
  split
  · rename_i source told
    cases blank : Text.isBlankText source with
    | true => exact .inl ⟨_, rfl, missing⟩
    | false =>
      simp only [Bool.false_eq_true, if_false]
      cases parsed : parse source with
      | error e =>
        exact .inl ⟨_, rfl, refuses_badDiagram told fun hereditary hs =>
          (traces_parse hereditary hs).2 e parsed⟩
      | ok g => exact .inr ⟨source, g, rfl, told, blank, parsed⟩
  · exact .inl ⟨_, rfl, missing⟩

theorem refuses_cycle {source : Text} {g : Graph} {e : DiagramError}
    (told : members.lookup ("source" : Text) = some (.str source)) (parsed : parse source = .ok g)
    (tree : g.toTree = .error e) : Refuses members (badDiagram e) :=
  refuses_badDiagram told fun hereditary hs =>
    Graph.traces_of_toTree hereditary ((traces_parse hereditary hs).1 g parsed) tree

theorem serves_badBody : Serves b entries r (.ok badBody, b) :=
  serves_unchanged (by decide) (fun kept => nomatch kept.2) fun _ => sendable_refusal_str _ _

theorem serves_refused {response : Response} (body : bodyMembers r.body = some members)
    (refuses : Refuses members response) : Serves b entries r (.ok response, b) := by
  refine serves_unchanged ?_ (fun kept => ?_) fun clean => refuses.sendable (clean.body _ body)
  · rw [refuses.status]; decide
  · rw [refuses.status] at kept
    cases kept.2

/-! ## Handlers -/

theorem serves_parse (post : r.method = "POST") :
    Serves b entries r (.ok (parseDiagram r.body), b) := by
  unfold parseDiagram
  split
  · exact serves_badBody
  · rename_i members body
    obtain ⟨response, read, refuses⟩ | ⟨source, g, read, told, blank, parsed⟩ :=
      readSource_cases members
    · rw [read]
      exact serves_refused body refuses
    · rw [read]
      cases tree : g.toTree with
      | error e =>
        simp only [Graph.treeJson, tree, Except.map]
        exact serves_refused body (refuses_cycle told parsed tree)
      | ok records =>
        simp only [Graph.treeJson, tree, Except.map]
        refine serves_unchanged List.mem_cons_self (by rw [post]; nofun) fun clean => ?_
        have encodable := isEncodable_of_lookup (clean.body _ body) told
        exact sendable_answer (sendable_member "entities"
          (textual_of_parse Text.hereditary_isEncodable encodable parsed tree).sendable) 200

/-- What is to be stored is refused, or can be stored. -/
theorem addDiagram_cases (b : Archive) (body : ByteArray) :
    addDiagram b body = (.ok badBody, b) ∨
    (∃ members response, bodyMembers body = some members ∧ Refuses members response ∧
      addDiagram b body = (.ok response, b)) ∨
    ∃ members source g tree, bodyMembers body = some members ∧
      Storable members source g tree := by
  cases found : bodyMembers body with
  | none => exact .inl (by rw [addDiagram, found])
  | some members =>
    refine .inr ?_
    cases named : (nameOf members).isBlankValue with
    | true =>
      refine .inl ⟨members, _, rfl, ⟨rfl, fun _ => sendable_refusal_str 400 "name is required"⟩, ?_⟩
      simp only [addDiagram, found, ← nameOf.eq_def, named, if_true]
    | false =>
      obtain ⟨response, read, refuses⟩ | ⟨source, g, read, told, blank, parsed⟩ :=
        readSource_cases members
      · refine .inl ⟨members, response, rfl, refuses, ?_⟩
        simp only [addDiagram, found, ← nameOf.eq_def, named, read, Bool.false_eq_true, if_false]
      · cases tree : g.toTree with
        | error e =>
          refine .inl ⟨members, _, rfl, refuses_cycle told parsed tree, ?_⟩
          simp only [addDiagram, found, ← nameOf.eq_def, named, read, Archive.put_of_error tree,
            Bool.false_eq_true, if_false]
        | ok records =>
          exact .inr ⟨members, source, g, records, rfl, named, told, blank, parsed, tree⟩

theorem readSource_of_storable {source : Text} {g : Graph} {tree : List Record}
    (storable : Storable members source g tree) : readSource members = .ok (source, g) := by
  simp only [readSource, storable.told, storable.blank, storable.parsed, Bool.false_eq_true,
    if_false]

/-- A request changes an archive by storing or by removing, or not at all. -/
theorem handle_changes (b : Archive) (r : Request) :
    (handle b r).2 = b ∨ (handle b r).2 = (addDiagram b r.body).2 ∨
      ∃ name, (handle b r).2 = (removeDiagram b name).2 := by
  cases found : route? r.path.toList with
  | none =>
    refine .inl ?_
    simp only [handle, found]
    split <;> rfl
  | some route =>
    have served : (handle b r).2 = (serve b r route).2 := by simp only [handle, found]
    rw [served]
    unfold serve
    split
    · exact .inl rfl
    · exact .inl rfl
    · exact .inl rfl
    · exact .inr (.inl rfl)
    · exact .inl rfl
    · exact .inr (.inr ⟨_, rfl⟩)
    · exact .inl rfl

theorem removeDiagram_snd (b : Archive) (name : Text) :
    (removeDiagram b name).2 = (b.remove name).2 := by
  unfold removeDiagram
  split <;> rename_i removed <;> rw [removed]

section Unmapped

variable (unmapped : b.Unmapped)

include unmapped

/-- What can be stored cannot be put into another value than a map. Only the clock goes on. -/
theorem addDiagram_of_unmapped {source : Text} {g : Graph} {tree : List Record}
    (found : bodyMembers body = some members) (storable : Storable members source g tree) :
    addDiagram b body = (.error (.archive .notMutable), { b with ticks := b.ticks + 1 }) := by
  simp only [addDiagram, found, ← nameOf.eq_def, storable.name, readSource_of_storable storable,
    unmapped.put storable.tree, Bool.false_eq_true, if_false]

theorem unmapped_handle (r : Request) : (handle b r).2.Unmapped := by
  obtain same | stored | ⟨name, removed⟩ := handle_changes b r
  · rw [same]
    exact unmapped
  · rw [stored]
    obtain refused | ⟨members, response, _, _, refused⟩ |
      ⟨members, source, g, tree, body, storable⟩ := addDiagram_cases b r.body
    · rw [refused]
      exact unmapped
    · rw [refused]
      exact unmapped
    · rw [addDiagram_of_unmapped unmapped body storable]
      exact unmapped
  · rw [removed, removeDiagram_snd, unmapped.remove]
    exact unmapped

end Unmapped

section Held

variable (held : b.Held entries)

include held

theorem serves_get (get : r.method = "GET") (name : Text) :
    Serves b entries r (getDiagram b name, b) := by
  have missing : Serves b entries r (.ok notStored, b) :=
    serves_unchanged (by decide) (by rw [get]; nofun) fun _ => sendable_refusal_str _ _
  rw [getDiagram, held.get?]
  split
  · exact missing
  · exact missing
  · rename_i entry _ found
    refine serves_unchanged List.mem_cons_self (by rw [get]; nofun) fun clean => ?_
    have member := Json.mem_of_lookup_eq_some (Except.ok.inj found)
    exact sendable_answer (Json.sendable_obj.mp clean.entries _ member).2 200
  · rename_i failed
    cases failed

theorem removeDiagram_of_present {name : Text} (present : (entries.lookup name).isSome = true) :
    ∃ c, removeDiagram b name = (.ok (answer 200 (.obj [("removed", .str name)])), c) ∧
      Commits b c (entries.filter fun m => m.1 != name) := by
  obtain ⟨files, removed, stores⟩ := held.remove present
  rw [removeDiagram, removed]
  exact ⟨_, rfl, rfl, rfl, rfl, stores⟩

theorem removeDiagram_of_absent {name : Text} (absent : (entries.lookup name).isSome = false) :
    removeDiagram b name = (.ok notStored, b) := by
  rw [removeDiagram, held.remove_of_absent absent]

theorem serves_remove {name : String} (method : r.method = "DELETE")
    (route : route? r.path.toList = some (.diagram name)) :
    Serves b entries r (removeDiagram b name) := by
  cases present : (entries.lookup (name : Text)).isSome with
  | true =>
    obtain ⟨c, removed, commits⟩ := removeDiagram_of_present held present
    exact ⟨_, c, removed, .removed method route present commits, fun _ => sendable_removed name⟩
  | false =>
    rw [removeDiagram_of_absent held present]
    exact serves_unchanged (by decide) (fun kept => nomatch kept.2) fun _ =>
      sendable_refusal_str _ _

theorem addDiagram_of_storable {source : Text} {g : Graph} {tree : List Record}
    (found : bodyMembers body = some members) (storable : Storable members source g tree) :
    let name := (nameOf members).display
    let entry := Archive.entry name source tree (Archive.timestamp (b.ticks + 1))
    ∃ c, addDiagram b body = (.ok (answer 201 entry), c) ∧
      Commits b c (setMember name entry entries) := by
  have stored {entry : Json} {c : Archive}
      (put : b.put (nameOf members).display source g = (.ok entry, c)) : ∃ host, addDiagram b body =
        (.ok (answer 201 entry), { c with toHost := host }) ∧ host.files = c.files := by
    refine ⟨c.toHost.note ("[app] Stored diagram '" ++ (nameOf members).display ++ "' (" ++
      toString g.size ++ " entities)"), ?_, rfl⟩
    simp only [addDiagram, found, ← nameOf.eq_def, storable.name, readSource_of_storable storable,
      put, Bool.false_eq_true, if_false]
  obtain ⟨files, put, stores⟩ := held.put storable.tree (nameOf members).display source
  obtain ⟨host, added, same⟩ := stored put
  refine ⟨_, added, rfl, rfl, rfl, ?_⟩
  change host.files.Stores b.path _
  rw [same]
  exact stores

theorem serves_add (method : r.method = "POST") (route : route? r.path.toList = some .diagrams) :
    Serves b entries r (addDiagram b r.body) := by
  obtain refused | ⟨members, response, body, refuses, refused⟩ |
    ⟨members, source, g, tree, body, storable⟩ := addDiagram_cases b r.body
  · rw [refused]
    exact serves_badBody
  · rw [refused]
    exact serves_refused body refuses
  · obtain ⟨c, added, commits⟩ := addDiagram_of_storable held body storable
    refine ⟨_, c, added, .stored method route body storable commits, fun clean => ?_⟩
    exact sendable_answer (storable.sendable (clean.body _ body) _) 201

/-- What can be stored is stored, also where the answer cannot be sent. -/
theorem handle_of_storable {source : Text} {g : Graph} {tree : List Record}
    (method : r.method = "POST") (route : route? r.path.toList = some .diagrams)
    (found : bodyMembers r.body = some members) (storable : Storable members source g tree) :
    let name := (nameOf members).display
    let entry := Archive.entry name source tree (Archive.timestamp (b.ticks + 1))
    ∃ c, handle b r = (send (answer 201 entry), c) ∧
      Commits b c (setMember name entry entries) := by
  obtain ⟨c, added, commits⟩ := addDiagram_of_storable held found storable
  refine ⟨c, ?_, commits⟩
  simp only [handle, route, serve, method, added]
  rfl

/-- A request leaves a map, whatever its entries are. -/
theorem held_handle (r : Request) : ∃ changed, (handle b r).2.Held changed := by
  obtain same | stored | ⟨name, removed⟩ := handle_changes b r
  · rw [same]
    exact ⟨entries, held⟩
  · rw [stored]
    obtain refused | ⟨members, response, _, _, refused⟩ |
      ⟨members, source, g, tree, body, storable⟩ := addDiagram_cases b r.body
    · rw [refused]
      exact ⟨entries, held⟩
    · rw [refused]
      exact ⟨entries, held⟩
    · obtain ⟨c, added, commits⟩ := addDiagram_of_storable held body storable
      rw [added]
      exact ⟨_, commits.memory, Json.nodup_setMember held.distinct _, commits.stores.keeps⟩
  · rw [removed]
    cases present : (entries.lookup name).isSome with
    | true =>
      obtain ⟨c, removed, commits⟩ := removeDiagram_of_present held present
      rw [removed]
      exact ⟨_, commits.memory, held.distinct.sublist (List.filter_sublist.map Prod.fst),
        commits.stores.keeps⟩
    | false =>
      rw [removeDiagram_of_absent held present]
      exact ⟨entries, held⟩

end Held

variable (h : b.Running entries)

include h

theorem serves_list (get : r.method = "GET") : Serves b entries r (listDiagrams b, b) := by
  rw [listDiagrams, h.list]
  refine serves_unchanged List.mem_cons_self (by rw [get]; nofun) fun clean => ?_
  refine sendable_answer (Json.sendable_arr.mpr (List.forall_mem_map.mpr fun m hm => ?_)) 200
  obtain ⟨named, sendable⟩ := Json.sendable_obj.mp clean.entries m hm
  exact sendable_summaryOf named sendable

theorem serves_serve {route : Route} (found : route? r.path.toList = some route) :
    Serves b entries r (serve b r route) := by
  unfold serve
  split
  · rename_i get
    refine serves_unchanged (by decide) (by rw [get]; nofun) fun _ => ?_
    exact sendable_answer (sendable_member "status"
      (Json.sendable_str.mpr (Text.isEncodable_ofString _))) 200
  · rename_i post
    exact serves_parse post
  · rename_i get
    exact serves_list h get
  · rename_i post
    exact serves_add h.held post found
  · rename_i name get
    exact serves_get h.held get name
  · rename_i name delete
    exact serves_remove h.held delete found
  · exact serves_unchanged (by decide) (fun kept => nomatch kept.2) fun _ =>
      sendable_refusal_str _ _

/-- Every request has an effect of a known kind, and its answer is sent if it can be. -/
theorem handle_handles (r : Request) : ∃ response c, handle b r = (send response, c) ∧
    Handles b entries r response c ∧ (Clean entries r.body → response.Sendable) := by
  cases found : route? r.path.toList with
  | some route =>
    obtain ⟨response, c, served, handles, sendable⟩ := serves_serve h found
    refine ⟨response, c, ?_, handles, sendable⟩
    simp only [handle, found, served]
    rfl
  | none =>
    cases redirected : isRedirected r.path.toList with
    | true =>
      refine ⟨⟨307, none⟩, b, ?_, .unchanged (by decide) (fun kept => nomatch kept.2),
        fun _ v hv => nomatch hv⟩
      simp only [handle, found, redirected, if_true]
      rfl
    | false =>
      have sendable : (refusal 404 (.str "Not Found")).Sendable := sendable_refusal_str _ _
      refine ⟨refusal 404 (.str "Not Found"), b, ?_,
        .unchanged (by decide) (fun kept => nomatch kept.2), fun _ => sendable⟩
      simp only [handle, found, redirected, Bool.false_eq_true, if_false, send_of_sendable sendable]

end Service

end ClassGraph
