import ClassGraph.Archive
import ClassGraph.Builder
import ClassGraph.Text.Blank
import ClassGraph.Text.Encoding

/-!
The web service: diagrams are parsed on request, and stored, listed, fetched and removed by name.
Paths come in decoded.
-/

namespace ClassGraph.Service

structure Request where
  method : String
  path : String
  body : ByteArray

/-- An answer; a redirection has no body. -/
structure Response where
  status : Nat
  body : Option Json

/-- Why a request has no answer. -/
inductive Failure where
  | archive (e : ArchiveError)
  | digitlessNumber
  | unencodable

/-! ## Routes -/

inductive Route where
  | health
  | parse
  | diagrams
  | diagram (name : String)
deriving DecidableEq, Repr

/-- Whether a path is a given one. A line feed at its end does not count. -/
def isPath (path : String) (cs : List Char) : Bool :=
  cs == path.toList || cs == path.toList ++ ['\n']

/-- The route of a path. The name of a diagram is one segment and not empty. -/
def route? (cs : List Char) : Option Route :=
  if isPath "/api/health" cs then some .health
  else if isPath "/api/parse" cs then some .parse
  else if isPath "/api/diagrams" cs then some .diagrams
  else
    match Text.stripWord? "/api/diagrams/".toList cs with
    | some name =>
      if name.isEmpty || name.contains '/' then none else some (.diagram (String.ofList name))
    | none => none

def dropSlashes (cs : List Char) : List Char := (cs.reverse.dropWhile (· == '/')).reverse

/-- Whether a path would lead somewhere without the slashes at its end. -/
def isRedirected (cs : List Char) : Bool :=
  cs.getLast? == some '/' && cs != ['/'] && (route? (dropSlashes cs)).isSome

/-! ## Answers -/

def answer (status : Nat) (body : Json) : Response := ⟨status, some body⟩

def refusal (status : Nat) (detail : Json) : Response := answer status (.obj [("detail", detail)])

def notStored : Response := refusal 404 (.str "Diagram not found")

def badDiagram (e : DiagramError) : Response :=
  refusal 400 (.obj [("error", .str e.label), ("message", .str e.message)])

/-- An answer is sent only if its body can be written as JSON and encoded. -/
def send (r : Response) : Except Failure Response :=
  match r.body with
  | some body =>
    if body.hasDigitlessNumber then .error .digitlessNumber
    else if body.isEncodable then .ok r
    else .error .unencodable
  | none => .ok r

/-! ## Bodies -/

def bodyMembers (body : ByteArray) : Option (List (Text × Json)) :=
  match Text.decode? body.data.toList with
  | none => none
  | some text =>
    match Json.read text with
    | .ok (.obj members) => some members
    | _ => none

/-- The text of a diagram among the members of a body, and its graph. -/
def readSource (members : List (Text × Json)) : Except Response (Text × Graph) :=
  match members.lookup ("source" : Text) with
  | some (.str source) =>
    if Text.isBlankText source then .error (refusal 400 (.str "source is required"))
    else
      match ClassGraph.parse source with
      | .ok g => .ok (source, g)
      | .error e => .error (badDiagram e)
  | _ => .error (refusal 400 (.str "source is required"))

def badBody : Response := refusal 400 (.str "request body must be a JSON object")

/-! ## Handlers -/

def parseDiagram (body : ByteArray) : Response :=
  match bodyMembers body with
  | none => badBody
  | some members =>
    match readSource members with
    | .error refusal => refusal
    | .ok (_, g) =>
      match g.treeJson with
      | .error e => badDiagram e
      | .ok tree => answer 200 (.obj [("entities", tree)])

/-- Stores a diagram. A name may be any value that is not blank; its display form is the name. -/
def addDiagram (a : Archive) (body : ByteArray) : Except Failure Response × Archive :=
  match bodyMembers body with
  | none => (.ok badBody, a)
  | some members =>
    let name := (members.lookup ("name" : Text)).getD .null
    if name.isBlankValue then (.ok (refusal 400 (.str "name is required")), a)
    else
      match readSource members with
      | .error refusal => (.ok refusal, a)
      | .ok (source, g) =>
        match a.put name.display source g with
        | (.error (.diagram e), a) => (.ok (badDiagram e), a)
        | (.error e, a) => (.error (.archive e), a)
        | (.ok entry, a) =>
          let line := "[app] Stored diagram '" ++ name.display ++ "' (" ++ toString g.size ++
            " entities)"
          (.ok (answer 201 entry), { a with toHost := a.toHost.note line })

def listDiagrams (a : Archive) : Except Failure Response :=
  match a.list with
  | .ok summaries => .ok (answer 200 (.arr summaries))
  | .error e => .error (.archive e)

def getDiagram (a : Archive) (name : Text) : Except Failure Response :=
  match a.get? name with
  | .ok none => .ok notStored
  | .ok (some .null) => .ok notStored
  | .ok (some entry) => .ok (answer 200 entry)
  | .error e => .error (.archive e)

def removeDiagram (a : Archive) (name : Text) : Except Failure Response × Archive :=
  match a.remove name with
  | (.ok true, a) => (.ok (answer 200 (.obj [("removed", .str name)])), a)
  | (.ok false, a) => (.ok notStored, a)
  | (.error e, a) => (.error (.archive e), a)

def serve (a : Archive) (request : Request) (route : Route) :
    Except Failure Response × Archive :=
  match route, request.method with
  | .health, "GET" => (.ok (answer 200 (.obj [("status", .str "ok")])), a)
  | .parse, "POST" => (.ok (parseDiagram request.body), a)
  | .diagrams, "GET" => (listDiagrams a, a)
  | .diagrams, "POST" => addDiagram a request.body
  | .diagram name, "GET" => (getDiagram a name, a)
  | .diagram name, "DELETE" => removeDiagram a name
  | _, _ => (.ok (refusal 405 (.str "Method Not Allowed")), a)

def handle (a : Archive) (request : Request) : Except Failure Response × Archive :=
  let cs := request.path.toList
  match route? cs with
  | some route =>
    let (outcome, a) := serve a request route
    (outcome.bind send, a)
  | none =>
    if isRedirected cs then (.ok ⟨307, none⟩, a)
    else (.ok (refusal 404 (.str "Not Found")), a)

/-- Starts the service and shuts it down again, which saves the archive. -/
def startAndStop (a : Archive) : Except ArchiveError Unit × Archive :=
  let a := { a with toHost :=
    (a.toHost.note ("[app] Diagram store at " ++ a.path.text)).note "[app] Shutting down…" }
  match a.save with
  | (.ok (), a) => (.ok (), { a with toHost := a.toHost.note "[app] Shutdown complete" })
  | (.error e, a) => (.error e, a)

end ClassGraph.Service
