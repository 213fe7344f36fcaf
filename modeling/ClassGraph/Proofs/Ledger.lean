import ClassGraph.Archive
import ClassGraph.Proofs.Json.Rereading
import Mathlib.Logic.Function.Basic

/-! # A map that remembers the order of its names

The members of an object stand for the list of their keys and the value of each
key. Setting and removing members keep to this: a name that is set again keeps
its place, and one that is removed and set again comes last.
-/

namespace ClassGraph

open Json (setMember)

/-- A map from names to entries, with the names in the order in which they came. -/
structure Ledger where
  names : List Text
  find? : Text → Option Json

namespace Ledger

/-- The entry of a name is set. Only a new name changes the order. -/
def put (l : Ledger) (name : Text) (entry : Json) : Ledger where
  names := if name ∈ l.names then l.names else l.names ++ [name]
  find? := Function.update l.find? name (some entry)

def remove (l : Ledger) (name : Text) : Ledger where
  names := l.names.filter (· != name)
  find? := Function.update l.find? name none

theorem find?_put (l : Ledger) (name : Text) (entry : Json) :
    (l.put name entry).find? name = some entry := Function.update_self name _ _

/-- The map that the members of an object stand for. -/
def ofMembers (members : List (Text × Json)) : Ledger where
  names := members.map Prod.fst
  find? name := members.lookup name

variable {members members' : List (Text × Json)}

theorem ofMembers_setMember (name : Text) (entry : Json) (members : List (Text × Json)) :
    ofMembers (setMember name entry members) = (ofMembers members).put name entry := by
  unfold ofMembers put
  rw [Json.keys_setMember]
  congr 1
  funext other
  by_cases same : other = name
  · rw [same, Json.lookup_setMember_self, Function.update_self]
  · rw [Json.lookup_setMember_of_ne same, Function.update_of_ne same]

theorem lookup_filter (name other : Text) (members : List (Text × Json)) :
    (members.filter fun m => m.1 != name).lookup other =
      if other = name then none else members.lookup other := by
  induction members with
  | nil => simp
  | cons m members ih =>
    obtain ⟨key, value⟩ := m
    by_cases hk : key = name
    · have dropped : (key != name) = false := by simpa using hk
      simp only [List.filter_cons, dropped, Bool.false_eq_true, if_false, ih]
      split
      · rfl
      · rename_i different
        have : (other == key) = false := by simpa [hk] using different
        rw [List.lookup_cons, this]
    · have kept : (key != name) = true := by simpa using hk
      simp only [List.filter_cons, kept, if_true, List.lookup_cons, ih]
      split
      · rename_i found
        rw [if_neg (beq_iff_eq.mp found ▸ hk)]
      · rfl

theorem ofMembers_filter (name : Text) (members : List (Text × Json)) :
    ofMembers (members.filter fun m => m.1 != name) = (ofMembers members).remove name := by
  unfold ofMembers remove
  congr 1
  · rw [List.filter_map]; rfl
  · funext other
    rw [lookup_filter]
    by_cases same : other = name
    · rw [if_pos same, same, Function.update_self]
    · rw [if_neg same, Function.update_of_ne same]

/-- Removing a name that is not there changes nothing. -/
theorem remove_of_absent {name : Text} (h : members.lookup name = none) :
    (ofMembers members).remove name = ofMembers members := by
  unfold ofMembers remove
  congr 1
  · refine List.filter_eq_self.mpr (List.forall_mem_map.mpr fun m hm => ?_)
    exact bne_iff_ne.mpr (bne_iff_ne.mp (List.lookup_eq_none_iff.mp h m hm)).symm
  · funext other
    by_cases same : other = name
    · rw [same, Function.update_self, h]
    · rw [Function.update_of_ne same]

/-- What is made of each name and its entry, in order. -/
theorem map_names {α : Type} (distinct : (members.map Prod.fst).Nodup)
    (f : Text → Json → α) : (ofMembers members).names.map
      (fun name => f name (((ofMembers members).find? name).getD .null)) =
        members.map fun m => f m.1 m.2 := by
  change (members.map Prod.fst).map _ = _
  rw [List.map_map]
  refine List.map_congr_left fun m hm => ?_
  change f m.1 ((members.lookup m.1).getD .null) = _
  rw [Json.lookup_of_mem distinct hm, Option.getD_some]

/-- Members with distinct keys are determined by the map that they stand for, and so is their
order. -/
theorem ofMembers_inj (distinct : (members.map Prod.fst).Nodup)
    (h : ofMembers members = ofMembers members') : members = members' := by
  have names : members.map Prod.fst = members'.map Prod.fst := congrArg Ledger.names h
  have pairs := map_names distinct fun name entry => (name, entry)
  have pairs' := map_names (names ▸ distinct) fun name entry => (name, entry)
  rw [← h, pairs] at pairs'
  simpa using pairs'

end Ledger

end ClassGraph
