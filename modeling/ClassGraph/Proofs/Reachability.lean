import ClassGraph.Proofs.Consistency

/-! # Listed diagrams and the paths to them

A diagram can be stored and listed under any name that is not blank, but the path to
it has room for one segment. A name without a slash leads to its entry, which can be
fetched and removed by it. With a slash in the name the path leads nowhere: the entry
is listed, and stays.
-/

namespace ClassGraph

theorem Text.ofString_injective : Function.Injective ofString := by
  intro s t same
  have shown := congrArg toString? same
  rwa [toString?_ofString, toString?_ofString, Option.some.injEq] at shown

/-- A text that can be encoded is a string. -/
theorem Text.exists_string {t : Text} (h : t.isEncodable = true) : ∃ s : String, t = s := by
  have exists_chars : ∃ cs : List Char, t = cs.map .scalar := by
    induction t with
    | nil => exact ⟨[], rfl⟩
    | cons c t ih =>
      obtain ⟨first, others⟩ := List.forall_mem_cons.mp (isEncodable_iff.mp h)
      obtain ⟨cs, rfl⟩ := ih (isEncodable_iff.mpr others)
      cases c with
      | scalar c => exact ⟨c :: cs, rfl⟩
      | surrogate => cases first
  obtain ⟨cs, rfl⟩ := exists_chars
  exact ⟨String.ofList cs, by rw [ofString, String.toList_ofList]⟩

namespace Service

open Files (Path)

variable {b : Archive} {entries : List (Text × Json)} {m : Text × Json} {entry : Json}
  {r : Request} {source : Text} {g : Graph} {tree : List Record} {time name : String}

/-! ## Paths -/

/-- The path to a diagram. -/
def pathTo (name : String) : String := "/api/diagrams/" ++ name

theorem isPath_append {path : String} {word : List Char}
    (h : ¬ word <+: path.toList ++ ['\n']) (cs : List Char) : isPath path (word ++ cs) = false := by
  have ne (ending : List Char) (short : ending <+: ['\n']) :
      word ++ cs ≠ path.toList ++ ending := by
    intro same
    exact h ((List.prefix_append word cs).trans (same ▸ (List.prefix_append_right_inj _).mpr short))
  rw [isPath, Bool.or_eq_false_iff, beq_eq_false_iff_ne, beq_eq_false_iff_ne]
  exact ⟨by simpa using ne [] List.nil_prefix, ne _ List.prefix_rfl⟩

/-- The path to a diagram has a route if and only if the name is one segment. -/
theorem route?_pathTo (name : String) : route? (pathTo name).toList =
    if name.toList.isEmpty || name.toList.contains '/' then none else some (.diagram name) := by
  have other {path : String} (h : ¬ "/api/diagrams/".toList <+: path.toList ++ ['\n']) :
      isPath path (pathTo name).toList = false := by
    rw [pathTo, String.toList_append]
    exact isPath_append h _
  have health := @other "/api/health" (by decide)
  have parse := @other "/api/parse" (by decide)
  have diagrams := @other "/api/diagrams" (by decide)
  have stripped : Text.stripWord? "/api/diagrams/".toList (pathTo name).toList =
      some name.toList := by
    rw [pathTo, String.toList_append]
    exact Text.stripWord?_eq_some_iff.mpr rfl
  simp only [route?, health, parse, diagrams, stripped, String.ofList_toList, Bool.false_eq_true,
    if_false]

theorem route?_pathTo_of_segment (full : name.toList ≠ []) (single : '/' ∉ name.toList) :
    route? (pathTo name).toList = some (.diagram name) := by
  have empty : name.toList.isEmpty = false := List.isEmpty_eq_false_iff.mpr full
  have slashed : name.toList.contains '/' = false := by simpa using single
  rw [route?_pathTo, empty, slashed]
  rfl

/-- A path with a slash in the name is answered without a look at the archive: it is not found, or
led on to where it would be without the slashes at its end. -/
theorem handle_of_slash (path : r.path = pathTo name) (slash : '/' ∈ name.toList) (b : Archive) :
    ∃ response, handle b r = (.ok response, b) ∧ (response = refusal 404 (.str "Not Found") ∨
      response = ⟨307, none⟩ ∧ name.toList.getLast? = some '/') := by
  have unrouted : route? (pathTo name).toList = none := by
    have slashed : name.toList.contains '/' = true := by simpa using slash
    rw [route?_pathTo, slashed, Bool.or_true, if_pos rfl]
  simp only [handle, path, unrouted]
  cases redirected : isRedirected (pathTo name).toList with
  | false => exact ⟨_, rfl, .inl rfl⟩
  | true =>
    refine ⟨_, rfl, .inr ⟨rfl, ?_⟩⟩
    simp only [isRedirected, Bool.and_eq_true, beq_iff_eq] at redirected
    have last := redirected.1.1
    rw [pathTo, String.toList_append,
      List.getLast?_append_of_ne_nil _ (List.ne_nil_of_mem slash)] at last
    exact last

/-! ## Listing, fetching and removing -/

/-- What a consistent entry is listed as can be sent if and only if its name can be encoded. -/
theorem Tells.sendable_summary (h : Tells m source g tree time) :
    (Archive.summaryOf m.1 m.2).hasDigitlessNumber = false ∧
      ((Archive.summaryOf m.1 m.2).isEncodable = true ↔ m.1.isEncodable = true) := by
  rw [h.summary]
  refine ⟨rfl, ?_⟩
  simp only [Json.isEncodable, Json.areEncodableMembers, Text.isEncodable_ofString, Bool.true_and,
    Bool.and_true]

theorem handle_list (running : b.Running entries) (consistent : ∀ m ∈ entries, Consistent m)
    (get : r.method = "GET") (path : r.path = "/api/diagrams") :
    handle b r = (sentIf (entries.all fun m => m.1.isEncodable)
      (answer 200 (.arr (entries.map fun m => Archive.summaryOf m.1 m.2))), b) := by
  have summaries : ∀ m ∈ entries, (Archive.summaryOf m.1 m.2).hasDigitlessNumber = false ∧
      ((Archive.summaryOf m.1 m.2).isEncodable = true ↔ m.1.isEncodable = true) := by
    intro m hm
    obtain ⟨source, g, tree, time, tells⟩ := consistent m hm
    exact tells.sendable_summary
  have digits := Json.hasDigitlessNumber_arr.mpr
    (List.forall_mem_map.mpr fun m hm => (summaries m hm).1)
  have encodable : (Json.arr (entries.map fun m => Archive.summaryOf m.1 m.2)).isEncodable =
      entries.all fun m => m.1.isEncodable := by
    rw [Bool.eq_iff_iff, Json.isEncodable_arr, List.forall_mem_map, List.all_eq_true]
    exact forall₂_congr fun m hm => (summaries m hm).2
  have route : route? r.path.toList = some .diagrams := by
    rw [path]
    decide +kernel
  simp only [handle, route, serve, get, listDiagrams, running.list, Except.bind]
  rw [send_answer digits, encodable]

theorem Tells.route (h : Tells (name, entry) source g tree time) (single : '/' ∉ name.toList)
    (path : r.path = pathTo name) : route? r.path.toList = some (.diagram name) := by
  have full : name.toList ≠ [] := mt List.map_eq_nil_iff.mpr h.named
  rw [path]
  exact route?_pathTo_of_segment full single

theorem handle_get (held : b.Held entries) (found : entries.lookup (name : Text) = some entry)
    (tells : Tells (name, entry) source g tree time) (single : '/' ∉ name.toList)
    (get : r.method = "GET") (path : r.path = pathTo name) :
    handle b r = (sentIf source.isEncodable (answer 200 entry), b) := by
  have made : entry = Archive.entry name source tree time := tells.entry
  have fetched : getDiagram b name = .ok (answer 200 entry) := by
    rw [getDiagram, held.get?, found, made]
    rfl
  have sent : send (answer 200 entry) = sentIf source.isEncodable (answer 200 entry) := by
    rw [made, send_entry tells.parsed tells.tree, Text.isEncodable_ofString, Bool.true_and]
  simp only [handle, tells.route single path, serve, get, fetched]
  exact congrArg (·, b) sent

theorem handle_delete (held : b.Held entries)
    (found : entries.lookup (name : Text) = some entry)
    (tells : Tells (name, entry) source g tree time) (single : '/' ∉ name.toList)
    (delete : r.method = "DELETE") (path : r.path = pathTo name) :
    ∃ c, handle b r = (.ok (answer 200 (.obj [("removed", .str name)])), c) ∧
      Changes b c fun l => l.remove name := by
  obtain ⟨c, removed, commits⟩ := removeDiagram_of_present held (Option.isSome_of_mem found)
  refine ⟨c, ?_, commits.remove held⟩
  simp only [handle, tells.route single path, serve, delete, removed]
  exact congrArg (·, c) (send_of_sendable (sendable_removed name))

/-- Behind any requests to an archive that was opened empty, all entries are listed if their names
can be encoded. A listed name leads to its entry if it has no slash in it: the entry is answered,
where its text can be encoded, and it can be removed. The path to a name with a slash is not found,
and both the name and its entry stay. -/
theorem listed_names_lead_to_entries {host : Host} {path : Path} {a : Archive}
    (writable : host.files.Keeps path) (opened : Archive.openAt host path = .ok a)
    (empty : a.diagrams = .obj []) (requests : List Request) :
    let b := afterRequests a requests
    ∃ entries, b.diagrams = .obj entries ∧
      (∀ r : Request, r.method = "GET" → r.path = "/api/diagrams" →
        handle b r = (sentIf (entries.all fun m => m.1.isEncodable)
          (answer 200 (.arr (entries.map fun m => Archive.summaryOf m.1 m.2))), b)) ∧
      ∀ m ∈ entries, m.1.isEncodable = true → ∃ (name : String) (source : Text) (g : Graph)
          (tree : List Record) (time : String), m.1 = name ∧
        Archive.summaryOf m.1 m.2 = .obj [("name", .str name), ("entity_count", .int g.size),
          ("updated_at", .str time)] ∧
        m.2 = Archive.entry name source tree time ∧ parse source = .ok g ∧ g.toTree = .ok tree ∧
        b.ledger.find? name = some m.2 ∧
        ∀ r : Request, r.path = pathTo name →
          ('/' ∉ name.toList →
            (r.method = "GET" → handle b r = (sentIf source.isEncodable (answer 200 m.2), b)) ∧
            (r.method = "DELETE" → ∃ c,
              handle b r = (.ok (answer 200 (.obj [("removed", .str name)])), c) ∧
                Changes b c fun l => l.remove name)) ∧
          ('/' ∈ name.toList → ∃ response, handle b r = (.ok response, b) ∧
            (response = refusal 404 (.str "Not Found") ∨
              response = ⟨307, none⟩ ∧ name.toList.getLast? = some '/')) := by
  have begun : RunsWith Consistent a :=
    ⟨[], (Archive.held_of_openAt writable opened empty).running nofun, nofun⟩
  obtain ⟨entries, running, consistent⟩ : RunsWith Consistent (afterRequests a requests) :=
    begun.afterRequests fun _ _ _ _ _ _ time _ storable => storable.consistent time
  refine ⟨entries, running.memory, fun r get path => handle_list running consistent get path, ?_⟩
  intro m member encodable
  obtain ⟨source, g, tree, time, tells⟩ := consistent m member
  have found := Json.lookup_of_mem running.orderly.distinct member
  obtain ⟨key, entry⟩ := m
  obtain ⟨name, rfl⟩ := Text.exists_string encodable
  refine ⟨name, source, g, tree, time, rfl, tells.summary, tells.entry, tells.parsed, tells.tree,
    ?_, fun r path => ⟨fun single => ⟨fun get => ?_, fun delete => ?_⟩, fun slash => ?_⟩⟩
  · rw [Archive.ledger_of_memory running.memory]
    exact found
  · exact handle_get running.held found tells single get path
  · exact handle_delete running.held found tells single delete path
  · exact handle_of_slash path slash _

/-- A class that is stored in an archive without entries is its only entry. -/
theorem running_of_posted_class {a : Archive} (running : a.Running [])
    (posts : r.Posts name ("class A" : String)) (full : name.toList ≠ []) :
    ∃ entry g tree time, (handle a r).2.Running [((name : Text), entry)] ∧
      Tells ((name : Text), entry) ("class A" : String) g tree time := by
  obtain ⟨g, parsed⟩ : ∃ g, parse ("class A" : String) = .ok g :=
    exists_ok_of_isOk (by decide +kernel)
  obtain ⟨tree, treed⟩ := exists_tree_of_backward parsed (by decide +kernel)
  have tells (time : String) :
      Tells ((name : Text), Archive.entry name ("class A" : String) tree time)
        ("class A" : String) g tree time :=
    ⟨rfl, mt List.map_eq_nil_iff.mp full, by decide, parsed, treed⟩
  obtain ⟨c, handled, commits⟩ := commits_of_posts running (tells "") posts
  refine ⟨_, g, tree, _, ?_, tells (Archive.timestamp (a.ticks + 1))⟩
  rw [handled]
  exact commits.running (running.orderly.setMember _ (Archive.listed_entry _ _ _ _))

/-- A diagram whose name is two words is listed, fetched and removed. -/
theorem listed_names_lead_to_entries_of_two_words : ∃ (a c : Archive) (summary entry : Json),
    let b := afterRequests a [⟨"POST", "/api/diagrams",
      "\x7b\"name\": \"a b\", \"source\": \"class A\"\x7d".toUTF8⟩]
    Archive.openAt ⟨.empty, 0, ""⟩ (.ofText "d.json") = .ok a ∧
      handle b ⟨"GET", "/api/diagrams", .empty⟩ = (.ok (answer 200 (.arr [summary])), b) ∧
      summary.get? "name" = some (.str "a b") ∧
      handle b ⟨"GET", "/api/diagrams/a b", .empty⟩ = (.ok (answer 200 entry), b) ∧
      handle b ⟨"DELETE", "/api/diagrams/a b", .empty⟩ =
        (.ok (answer 200 (.obj [("removed", .str "a b")])), c) ∧
      Changes b c fun l => l.remove "a b" := by
  let host : Host := ⟨.empty, 0, ""⟩
  have writable : host.files.Keeps (.ofText "d.json") := keeps_empty
  let post : Request := ⟨"POST", "/api/diagrams",
    "\x7b\"name\": \"a b\", \"source\": \"class A\"\x7d".toUTF8⟩
  have posts : post.Posts ("a b" : String) ("class A" : String) := by decide +kernel
  obtain ⟨a, opened, settled⟩ := settled_of_absent writable rfl
  obtain ⟨entry, _, _, _, running, tells⟩ :=
    running_of_posted_class settled.toRunning posts (by decide)
  obtain ⟨entries, memory, listing, leads⟩ :=
    listed_names_lead_to_entries writable opened settled.memory [post]
  cases running.memory.symm.trans memory
  obtain ⟨name, source, g, tree, time, named, summary, made, _, _, _, reached⟩ :=
    leads _ List.mem_cons_self (Text.isEncodable_ofString _)
  obtain rfl : "a b" = name := Text.ofString_injective named
  have told : Json.str source = .str ("class A" : String) :=
    Option.some.inj (congrArg (·.get? "source") (made.symm.trans tells.entry))
  cases told
  have names : [(("a b" : Text), entry)].all (fun m => m.1.isEncodable) = true := by
    simp [Text.isEncodable_ofString]
  have listed := listing ⟨"GET", "/api/diagrams", .empty⟩ rfl rfl
  rw [names] at listed
  obtain ⟨fetches, _⟩ := (reached ⟨"GET", "/api/diagrams/a b", .empty⟩ rfl).1 (by decide)
  obtain ⟨_, removes⟩ := (reached ⟨"DELETE", "/api/diagrams/a b", .empty⟩ rfl).1 (by decide)
  obtain ⟨c, removed, changes⟩ := removes rfl
  exact ⟨a, c, _, entry, opened, listed, rfl, fetches rfl, removed, changes⟩

/-- A diagram whose name has a slash in it is listed, but it is neither found nor removed. -/
theorem listed_but_not_found : ∃ (a b : Archive) (summary : Json),
    Archive.openAt ⟨.empty, 0, ""⟩ (.ofText "d.json") = .ok a ∧
    b = afterRequests a [⟨"POST", "/api/diagrams",
      "\x7b\"name\": \"a/b\", \"source\": \"class A\"\x7d".toUTF8⟩] ∧
    handle b ⟨"GET", "/api/diagrams", .empty⟩ = (.ok (answer 200 (.arr [summary])), b) ∧
    summary.get? "name" = some (.str "a/b") ∧
    handle b ⟨"GET", "/api/diagrams/a/b", .empty⟩ = (.ok (refusal 404 (.str "Not Found")), b) ∧
    handle b ⟨"DELETE", "/api/diagrams/a/b", .empty⟩ =
      (.ok (refusal 404 (.str "Not Found")), b) := by
  let host : Host := ⟨.empty, 0, ""⟩
  let post : Request := ⟨"POST", "/api/diagrams",
    "\x7b\"name\": \"a/b\", \"source\": \"class A\"\x7d".toUTF8⟩
  have posts : post.Posts ("a/b" : String) ("class A" : String) := by decide +kernel
  obtain ⟨a, opened, settled⟩ := settled_of_absent (show host.files.Keeps _ from keeps_empty) rfl
  obtain ⟨entry, g, tree, time, running, tells⟩ :=
    running_of_posted_class settled.toRunning posts (by decide)
  have consistent : ∀ m ∈ [(("a/b" : Text), entry)], Consistent m :=
    List.forall_mem_singleton.mpr ⟨_, g, tree, time, tells⟩
  have listing := handle_list running consistent
    (show (Request.mk "GET" "/api/diagrams" .empty).method = "GET" from rfl) rfl
  have missing {r : Request} (path : r.path = pathTo "a/b") :
      handle (handle a post).2 r = (.ok (refusal 404 (.str "Not Found")), (handle a post).2) := by
    obtain ⟨response, handled, rfl | ⟨_, last⟩⟩ :=
      handle_of_slash path (by decide) (handle a post).2
    · exact handled
    · cases last
  exact ⟨a, _, _, opened, rfl, listing, rfl, missing rfl, missing rfl⟩

end Service

end ClassGraph
