import ClassGraph.Decimal.Binary64
import ClassGraph.Text.CodePoint

/-!
JSON values. Whole numbers of any size and binary floating point numbers are kept apart, and the
members of an object keep their order.
-/

namespace ClassGraph

inductive Json where
  | null
  | bool (b : Bool)
  | int (i : Int)
  | real (x : Float)
  | str (t : Text)
  | arr (items : List Json)
  | obj (members : List (Text × Json))
deriving Inhabited, BEq

namespace Json

/-- The value of a member of an object; nothing for another key or for a value that is no object. -/
def get? (key : Text) : Json → Option Json
  | obj members => members.lookup key
  | _ => none

def text? : Json → Option Text
  | str s => some s
  | _ => none

/-- Sets a member of an object: a present key keeps its place, a new one is put last. -/
def setMember (key : Text) (value : Json) : List (Text × Json) → List (Text × Json)
  | [] => [(key, value)]
  | (k, v) :: rest => if k = key then (k, value) :: rest else (k, v) :: setMember key value rest

/-- The members of an object in writing order, the last value winning for a repeated key. -/
def mergeMembers (written : List (Text × Json)) : List (Text × Json) :=
  written.foldl (fun members m => setMember m.1 m.2 members) []

theorem lookup_setMember_self (key : Text) (value : Json) (members : List (Text × Json)) :
    (setMember key value members).lookup key = some value := by
  induction members with
  | nil => simp [setMember]
  | cons m rest ih =>
    obtain ⟨k, v⟩ := m
    by_cases h : k = key
    · simp [setMember, h]
    · have : (key == k) = false := by simpa using fun e => h e.symm
      simp [setMember, h, List.lookup_cons, this, ih]

theorem lookup_setMember_of_ne {key other : Text} (h : other ≠ key) (value : Json)
    (members : List (Text × Json)) :
    (setMember key value members).lookup other = members.lookup other := by
  induction members with
  | nil =>
    have : (other == key) = false := by simpa using h
    simp [setMember, List.lookup_cons, this]
  | cons m rest ih =>
    obtain ⟨k, v⟩ := m
    by_cases hk : k = key
    · have : (other == k) = false := by simpa [hk] using h
      simp [setMember, hk, List.lookup_cons, hk ▸ this]
    · simp only [setMember, hk, if_false, List.lookup_cons, ih]

theorem mem_of_lookup_eq_some {members : List (Text × Json)} {key : Text} {value : Json}
    (h : members.lookup key = some value) : (key, value) ∈ members := by
  obtain ⟨front, behind, rfl, _⟩ := List.lookup_eq_some_iff.mp h
  simp

theorem lookup_of_mem {members : List (Text × Json)} (distinct : (members.map Prod.fst).Nodup)
    {m : Text × Json} (hm : m ∈ members) : members.lookup m.1 = some m.2 := by
  obtain ⟨front, behind, rfl⟩ := List.append_of_mem hm
  refine List.lookup_eq_some_iff.mpr ⟨front, behind, rfl, fun p hp => bne_iff_ne.mpr ?_⟩
  rw [List.map_append, List.nodup_append] at distinct
  exact (distinct.2.2 _ (List.mem_map_of_mem hp) _
    (List.mem_map_of_mem List.mem_cons_self)).symm

/-- Whether a value counts as absent: null, false, a zero, or something empty. -/
def isBlankValue : Json → Bool
  | null => true
  | bool b => !b
  | int i => i == 0
  | real x => (Decimal.reading64 x).isZero
  | str s => s.isEmpty
  | arr items => items.isEmpty
  | obj members => members.isEmpty

/-- Two numbers are the same when they denote the same real or the same infinity. -/
def sameReal (x y : Float) : Bool :=
  match Decimal.reading64 x, Decimal.reading64 y with
  | .notANumber, _ => false
  | _, .notANumber => false
  | r, s => r == s || (r.isZero && s.isZero)

mutual

/-- Equality of values by meaning: `true` and `1` and `1.0` are one number, and the order of the
members of an object does not count. -/
def same : Json → Json → Bool
  | null, null => true
  | bool a, bool b => a == b
  | bool a, int j => a.toInt == j
  | int i, bool b => i == b.toInt
  | int i, int j => i == j
  | bool a, real y => (Decimal.reading64 y).isInt a.toInt
  | real x, bool b => (Decimal.reading64 x).isInt b.toInt
  | int i, real y => (Decimal.reading64 y).isInt i
  | real x, int j => (Decimal.reading64 x).isInt j
  | real x, real y => sameReal x y
  | str s, str t => s == t
  | arr xs, arr ys => sameItems xs ys
  | obj xs, obj ys => xs.length == ys.length && sameMembers xs ys
  | _, _ => false

/-- A result that is not a number differs from itself, yet inside an array or an object it counts
as equal to another. -/
def sameInside : Json → Json → Bool
  | real x, real y =>
    sameReal x y || (Decimal.reading64 x == .notANumber && Decimal.reading64 y == .notANumber)
  | x, y => same x y

def sameItems : List Json → List Json → Bool
  | [], [] => true
  | x :: xs, y :: ys => sameInside x y && sameItems xs ys
  | _, _ => false

def sameMembers : List (Text × Json) → List (Text × Json) → Bool
  | [], _ => true
  | (key, x) :: xs, ys =>
    (match ys.lookup key with
      | some y => sameInside x y
      | none => false) && sameMembers xs ys

end

end Json

end ClassGraph
