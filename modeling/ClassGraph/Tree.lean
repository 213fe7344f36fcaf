import ClassGraph.Json.Basic
import ClassGraph.Kind

/-!
Trees of records: the nested form of a class graph, in which every parent and interface is written
out in full wherever it is referred to.
-/

namespace ClassGraph

inductive Record where
  | node (kind : EntityKind) (name : Text) (package : Json) (parents interfaces : List Record)
deriving Inhabited

namespace Record

mutual

/-- A record is an object with one member: its tag, and under it its properties. -/
def toJson : Record → Json
  | node kind name package parents interfaces =>
    .obj [(kind.tag, .obj [("Name", .str name), ("Package", package),
      ("Parents", .arr (listToJson parents)), ("Interfaces", .arr (listToJson interfaces))])]

def listToJson : List Record → List Json
  | [] => []
  | record :: records => toJson record :: listToJson records

end

theorem listToJson_eq_map (records : List Record) : listToJson records = records.map toJson := by
  induction records with
  | nil => rfl
  | cons record records ih => simp [listToJson, ih]

end Record

def treeToJson (records : List Record) : Json := .arr (records.map Record.toJson)

def documentVersion : String := "1.0.0"

def documentOf (records : List Record) : Json :=
  .obj [("schema_version", .str documentVersion), ("entities", treeToJson records)]

end ClassGraph
