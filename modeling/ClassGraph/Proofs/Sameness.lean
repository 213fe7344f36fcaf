import ClassGraph.Json.Basic
import Mathlib.Algebra.Order.Field.Basic
import Mathlib.Data.List.Forall2
import Mathlib.Data.Rat.Cast.Order
import Mathlib.Tactic.Linarith
import Mathlib.Tactic.NormNum

/-! # Equality by meaning is an equality

Truth values, whole numbers and floating point numbers are compared as numbers:
two of them are the same when they denote the same quantity. A floating point
number has one reading only, up to the sign of zero, so that comparing readings
compares quantities. From this, equality by meaning is transitive on all values.
It is reflexive where every number is one and no object names a member twice.
-/

namespace ClassGraph

namespace Decimal

/-- What a number denotes. -/
inductive Quantity where
  | rational (q : ℚ)
  | infinite (negative : Bool)

def Dyadic.value (d : Dyadic) : ℚ := d.mantissa * 2 ^ d.exponent

def Reading64.quantity? : Reading64 → Option Quantity
  | finite negative magnitude =>
    some (.rational (if negative then -magnitude.value else magnitude.value))
  | infinite negative => some (.infinite negative)
  | notANumber => none

theorem Dyadic.value_nonneg (d : Dyadic) : 0 ≤ d.value :=
  mul_nonneg (Nat.cast_nonneg _) (zpow_nonneg (by norm_num) _)

theorem Dyadic.ratio_pos (d : Dyadic) : 0 < d.ratio.2 := by
  unfold ratio
  rw [Nat.one_shiftLeft]
  exact Nat.two_pow_pos _

theorem Dyadic.value_mul (d : Dyadic) : d.value * d.ratio.2 = d.ratio.1 := by
  unfold value ratio
  rw [Nat.one_shiftLeft, Nat.shiftLeft_eq]
  push_cast
  rw [← zpow_natCast, ← zpow_natCast, mul_assoc, ← zpow_add₀ (by norm_num)]
  congr 2
  omega

/-- A number is an integer when it denotes it. -/
theorem Reading64.isInt_iff {r : Reading64} {i : Int} :
    r.isInt i = true ↔ r.quantity? = some (.rational i) := by
  cases r with
  | infinite _ => simp [isInt, quantity?]
  | notANumber => simp [isInt, quantity?]
  | finite negative magnitude =>
    have pos : (0 : ℚ) < magnitude.ratio.2 := Nat.cast_pos.mpr magnitude.ratio_pos
    have ratio : magnitude.ratio.1 = i.natAbs * magnitude.ratio.2 ↔
        magnitude.value = |(i : ℚ)| := by
      rw [← Nat.cast_inj (R := ℚ), ← magnitude.value_mul, Nat.cast_mul, Nat.cast_natAbs,
        Int.cast_abs, mul_left_inj' pos.ne']
    have nonneg := magnitude.value_nonneg
    simp only [isInt, quantity?, Bool.and_eq_true, Bool.or_eq_true, beq_iff_eq, ratio,
      Option.some.injEq, Quantity.rational.injEq]
    constructor
    · rintro ⟨size, zero | sign⟩
      · rw [size, zero]
        simp
      · rw [size]
        by_cases below : i < 0
        · have below' : (i : ℚ) < 0 := Int.cast_lt_zero.mpr below
          rw [sign, decide_eq_true below, if_pos rfl, abs_of_neg below', neg_neg]
        · have above : (0 : ℚ) ≤ i := Int.cast_nonneg (Int.not_lt.mp below)
          rw [sign, decide_eq_false below, if_neg Bool.false_ne_true, abs_of_nonneg above]
    · intro size
      cases negative with
      | false =>
        rw [if_neg Bool.false_ne_true] at size
        have above : (0 : ℚ) ≤ i := size ▸ nonneg
        refine ⟨by rw [abs_of_nonneg above, size], .inr ?_⟩
        exact (decide_eq_false (Int.not_lt.mpr (Int.cast_nonneg_iff.mp above))).symm
      | true =>
        rw [if_pos rfl] at size
        have below : (i : ℚ) ≤ 0 := by rw [← size]; exact neg_nonpos.mpr nonneg
        refine ⟨by rw [abs_of_nonpos below, ← size, neg_neg], ?_⟩
        rcases below.lt_or_eq with below | zero
        · exact .inr (decide_eq_true (Int.cast_lt_zero.mp below)).symm
        · exact .inl (Int.cast_eq_zero.mp zero)

/-! ## One reading for each quantity -/

/-- The magnitudes that floating point numbers have: the mantissa has a leading
bit, except where the exponent is the least one. -/
structure Dyadic.Normal (d : Dyadic) : Prop where
  lt : d.mantissa < 2 ^ 53
  least : -1074 ≤ d.exponent
  leading : d.exponent ≠ -1074 → 2 ^ 52 ≤ d.mantissa

theorem Dyadic.Normal.eq_of_le {a b : Dyadic} (ha : a.Normal) (hb : b.Normal)
    (h : a.value = b.value) (le : a.exponent ≤ b.exponent) : a = b := by
  obtain ⟨n, hn⟩ := Int.le.dest le
  have mantissa : a.mantissa = b.mantissa * 2 ^ n := by
    unfold value at h
    rw [← hn, zpow_add₀ (by norm_num), zpow_natCast, mul_comm ((2 : ℚ) ^ a.exponent),
      ← mul_assoc] at h
    exact_mod_cast mul_right_cancel₀ (zpow_ne_zero a.exponent (by norm_num)) h
  cases n with
  | zero =>
    obtain ⟨m, e⟩ := a
    obtain ⟨m', e'⟩ := b
    simp only [Nat.pow_zero, Nat.mul_one] at mantissa
    simp only [Nat.cast_zero, Int.add_zero] at hn
    rw [mantissa, hn]
  | succ n =>
    -- a higher exponent comes with a leading bit, so the other mantissa would be too long
    have leading := hb.leading (by have := ha.least; omega)
    have doubled : 2 * 2 ^ 52 ≤ a.mantissa := by
      have power : 2 ≤ 2 ^ (n + 1) := by
        rw [Nat.pow_succ]
        have := Nat.two_pow_pos n
        omega
      rw [mantissa, Nat.mul_comm 2]
      exact Nat.mul_le_mul leading power
    have := ha.lt
    omega

theorem Dyadic.Normal.eq_of_value {a b : Dyadic} (ha : a.Normal) (hb : b.Normal)
    (h : a.value = b.value) : a = b := by
  rcases Int.le_total a.exponent b.exponent with le | le
  · exact ha.eq_of_le hb h le
  · exact (hb.eq_of_le ha h.symm le).symm

theorem normal_reading64 {x : Float} {negative : Bool} {magnitude : Dyadic}
    (h : reading64 x = .finite negative magnitude) : magnitude.Normal := by
  unfold reading64 at h
  simp only [fractionBits, Nat.one_shiftLeft] at h
  have fraction : x.toBits.toNat % 2 ^ 52 < 2 ^ 52 := Nat.mod_lt _ (by norm_num)
  split at h
  · split at h <;> cases h
  · split at h <;> cases h
    · exact ⟨Nat.lt_trans fraction (by norm_num), Int.le_refl _, fun hne => absurd rfl hne⟩
    · exact ⟨by show _ + _ < _; omega, by show -1074 ≤ _ - 1075; omega,
        fun _ => Nat.le_add_left _ _⟩

theorem Reading64.isZero_finite_iff {negative : Bool} {d : Dyadic} :
    (finite negative d).isZero = true ↔ d.value = 0 := by
  unfold isZero
  rw [isInt_iff]
  cases negative <;> simp [quantity?]

/-- Two numbers of different signs denote one quantity where both are zero. -/
theorem Dyadic.eq_zero_of_eq_neg {a b : Dyadic} (h : a.value = -b.value) :
    a.value = 0 ∧ b.value = 0 := by
  have ha := a.value_nonneg
  have hb := b.value_nonneg
  constructor <;> linarith

theorem eq_or_isZero_of_finite {x y : Float} {negative negative' : Bool} {a b : Dyadic}
    (hx : reading64 x = .finite negative a) (hy : reading64 y = .finite negative' b)
    (h : (Reading64.finite negative a).quantity? = (Reading64.finite negative' b).quantity?) :
    Reading64.finite negative a = .finite negative' b ∨
      (Reading64.finite negative a).isZero = true ∧
        (Reading64.finite negative' b).isZero = true := by
  simp only [Reading64.isZero_finite_iff]
  have normal := (normal_reading64 hx).eq_of_value (normal_reading64 hy)
  have value := Quantity.rational.inj (Option.some.inj h)
  cases negative <;> cases negative'
  · rw [normal value]
    exact .inl rfl
  · exact .inr (Dyadic.eq_zero_of_eq_neg value)
  · exact .inr (Dyadic.eq_zero_of_eq_neg value.symm).symm
  · rw [normal (neg_inj.mp value)]
    exact .inl rfl

/-- Comparing readings compares quantities. Only zero has two readings. -/
theorem eq_or_isZero_iff {x y : Float} :
    (reading64 x ≠ .notANumber ∧ (reading64 x = reading64 y ∨
      (reading64 x).isZero = true ∧ (reading64 y).isZero = true)) ↔
    ∃ q, (reading64 x).quantity? = some q ∧ (reading64 y).quantity? = some q := by
  constructor
  · rintro ⟨number, same | ⟨zero, zero'⟩⟩
    · rw [← same]
      cases h : reading64 x with
      | notANumber => exact absurd h number
      | finite negative magnitude => exact ⟨_, rfl, rfl⟩
      | infinite negative => exact ⟨_, rfl, rfl⟩
    · exact ⟨_, Reading64.isInt_iff.mp zero, Reading64.isInt_iff.mp zero'⟩
  · rintro ⟨q, hx, hy⟩
    have both := hx.trans hy.symm
    cases hrx : reading64 x with
    | notANumber => rw [hrx] at hx; cases hx
    | infinite negative =>
      refine ⟨nofun, ?_⟩
      cases hry : reading64 y <;> rw [hrx, hry] at both <;> cases both
      exact .inl rfl
    | finite negative a =>
      refine ⟨nofun, ?_⟩
      cases hry : reading64 y with
      | finite negative' b =>
        rw [hrx, hry] at both
        exact eq_or_isZero_of_finite hrx hry both
      | infinite _ => rw [hrx, hry] at both; cases both
      | notANumber => rw [hrx, hry] at both; cases both

end Decimal

namespace Json

open Decimal

/-- What a value denotes as a number; truth values are numbers as well. -/
def quantity? : Json → Option Quantity
  | bool b => some (.rational b.toInt)
  | int i => some (.rational i)
  | real x => (reading64 x).quantity?
  | _ => none

def isNumber : Json → Bool
  | bool _ => true
  | int _ => true
  | real _ => true
  | _ => false

/-- A result that is not a number. -/
def isNaN : Json → Bool
  | real x => reading64 x == .notANumber
  | _ => false

theorem sameReal_iff {x y : Float} : sameReal x y = true ↔
    ∃ q, (reading64 x).quantity? = some q ∧ (reading64 y).quantity? = some q := by
  rw [← eq_or_isZero_iff]
  unfold sameReal
  cases reading64 x <;> cases reading64 y <;> simp [Reading64.isZero, Reading64.isInt]

/-! ## Equality, case by case -/

theorem same_number_iff {x y : Json} (hx : x.isNumber = true) :
    x.same y = true ↔ ∃ q, x.quantity? = some q ∧ y.quantity? = some q := by
  have truth : ∀ a b : Bool, a = b ↔ b.toInt = a.toInt := by decide
  cases x <;> cases hx <;> cases y <;>
    simp [same, quantity?, sameReal_iff, Reading64.isInt_iff] <;>
    first | exact truth _ _ | exact eq_comm

theorem same_null_iff {y : Json} : null.same y = true ↔ y = null := by
  cases y <;> simp [same]

theorem same_str_iff {s : Text} {y : Json} : (str s).same y = true ↔ y = str s := by
  cases y with
  | str t => simpa [same] using eq_comm
  | _ => simp [same]

theorem sameItems_iff {xs ys : List Json} :
    sameItems xs ys = true ↔ List.Forall₂ (fun x y => sameInside x y = true) xs ys := by
  induction xs generalizing ys with
  | nil => cases ys <;> simp [sameItems]
  | cons x xs ih => cases ys <;> simp [sameItems, ih]

theorem same_arr_iff {xs : List Json} {y : Json} : (arr xs).same y = true ↔
    ∃ ys, y = arr ys ∧ List.Forall₂ (fun x y => sameInside x y = true) xs ys := by
  cases y <;> simp [same, sameItems_iff]

theorem sameMembers_iff {xs ys : List (Text × Json)} : sameMembers xs ys = true ↔
    ∀ m ∈ xs, ∃ y, ys.lookup m.1 = some y ∧ sameInside m.2 y = true := by
  induction xs with
  | nil => simp [sameMembers]
  | cons m xs ih =>
    obtain ⟨key, x⟩ := m
    cases h : ys.lookup key <;> simp [sameMembers, h, ih]

theorem same_obj_iff {xs : List (Text × Json)} {y : Json} : (obj xs).same y = true ↔
    ∃ ys, y = obj ys ∧ xs.length = ys.length ∧
      ∀ m ∈ xs, ∃ y, ys.lookup m.1 = some y ∧ sameInside m.2 y = true := by
  cases y <;> simp [same, sameMembers_iff]

theorem sameInside_iff {x y : Json} :
    sameInside x y = true ↔ x.same y = true ∨ x.isNaN = true ∧ y.isNaN = true := by
  cases x <;> cases y <;> simp [sameInside, same, isNaN]

/-! ## Transitivity -/

theorem isNumber_of_quantity? {x : Json} {q : Quantity} (h : x.quantity? = some q) :
    x.isNumber = true := by
  cases x <;> first | rfl | cases h

theorem isNaN_eq_false {x : Json} {q : Quantity} (h : x.quantity? = some q) :
    x.isNaN = false := by
  cases x with
  | real x =>
    cases hx : reading64 x with
    | notANumber => rw [quantity?, hx] at h; cases h
    | finite _ _ => simp [isNaN, hx]
    | infinite _ => simp [isNaN, hx]
  | _ => rfl

/-- What is the same as something is a number, or no number was compared. -/
theorem isNaN_of_same {x y : Json} (h : x.same y = true) : x.isNaN = y.isNaN := by
  by_cases hx : x.isNumber = true
  · obtain ⟨q, hq, hq'⟩ := (same_number_iff hx).mp h
    rw [isNaN_eq_false hq, isNaN_eq_false hq']
  · cases x <;> cases y <;> first | rfl | exact absurd rfl hx | simp [same] at h

/-- Inside, a result that is not a number is equal to such results only. -/
theorem sameInside_trans_of {x y z : Json}
    (trans : x.same y = true → y.same z = true → x.same z = true)
    (h : sameInside x y = true) (h' : sameInside y z = true) : sameInside x z = true := by
  rw [sameInside_iff] at h h' ⊢
  rcases h with same | ⟨hx, hy⟩
  · rcases h' with same' | ⟨hy, hz⟩
    · exact .inl (trans same same')
    · exact .inr ⟨(isNaN_of_same same).trans hy, hz⟩
  · rcases h' with same' | ⟨_, hz⟩
    · exact .inr ⟨hx, (isNaN_of_same same').symm.trans hy⟩
    · exact .inr ⟨hx, hz⟩

theorem forall₂_trans_of {xs ys zs : List Json}
    (trans : ∀ x ∈ xs, ∀ y z, sameInside x y = true → sameInside y z = true →
      sameInside x z = true)
    (h : List.Forall₂ (fun x y => sameInside x y = true) xs ys)
    (h' : List.Forall₂ (fun x y => sameInside x y = true) ys zs) :
    List.Forall₂ (fun x y => sameInside x y = true) xs zs := by
  induction h generalizing zs with
  | nil => exact h'
  | cons head _ ih =>
    cases h' with
    | cons head' tail' =>
      exact .cons (trans _ List.mem_cons_self _ _ head head')
        (ih (fun x hx => trans x (List.mem_cons_of_mem _ hx)) tail')

theorem same_trans {x y z : Json} (h : x.same y = true) (h' : y.same z = true) :
    x.same z = true := by
  induction hn : sizeOf x using Nat.strongRecOn generalizing x y z with
  | ind n ih =>
    have inside {x : Json} (smaller : sizeOf x < n) (y z : Json) (h : sameInside x y = true)
        (h' : sameInside y z = true) : sameInside x z = true :=
      sameInside_trans_of (fun h h' => ih _ smaller h h' rfl) h h'
    by_cases hx : x.isNumber = true
    · obtain ⟨q, hq, hq'⟩ := (same_number_iff hx).mp h
      obtain ⟨r, hr, hr'⟩ := (same_number_iff (isNumber_of_quantity? hq')).mp h'
      cases hq'.symm.trans hr
      exact (same_number_iff hx).mpr ⟨q, hq, hr'⟩
    cases x with
    | bool _ => exact absurd rfl hx
    | int _ => exact absurd rfl hx
    | real _ => exact absurd rfl hx
    | null =>
      rw [same_null_iff.mp h] at h'
      exact h'
    | str s =>
      rw [same_str_iff.mp h] at h'
      exact h'
    | arr xs =>
      obtain ⟨ys, rfl, items⟩ := same_arr_iff.mp h
      obtain ⟨zs, rfl, items'⟩ := same_arr_iff.mp h'
      refine same_arr_iff.mpr ⟨zs, rfl, forall₂_trans_of (fun x hx => inside ?_) items items'⟩
      have := List.sizeOf_lt_of_mem hx
      rw [← hn, arr.sizeOf_spec]
      omega
    | obj xs =>
      obtain ⟨ys, rfl, length, members⟩ := same_obj_iff.mp h
      obtain ⟨zs, rfl, length', members'⟩ := same_obj_iff.mp h'
      refine same_obj_iff.mpr ⟨zs, rfl, length.trans length', fun m hm => ?_⟩
      obtain ⟨y, hy, same⟩ := members m hm
      obtain ⟨z, hz, same'⟩ := members' _ (mem_of_lookup_eq_some hy)
      refine ⟨z, hz, inside ?_ y z same same'⟩
      have := List.sizeOf_lt_of_mem hm
      have : sizeOf m = 1 + sizeOf m.1 + sizeOf m.2 := by cases m; rfl
      rw [← hn, obj.sizeOf_spec]
      omega

/-! ## Reflexivity -/

/-- A value in which every number is one, and no object names a member twice. -/
inductive Proper : Json → Prop where
  | null : Proper null
  | bool (b : Bool) : Proper (bool b)
  | int (i : Int) : Proper (int i)
  | real {x : Float} (number : reading64 x ≠ .notANumber) : Proper (real x)
  | str (s : Text) : Proper (str s)
  | arr {items : List Json} (proper : ∀ x ∈ items, Proper x) : Proper (arr items)
  | obj {members : List (Text × Json)} (distinct : (members.map Prod.fst).Nodup)
      (proper : ∀ m ∈ members, Proper m.2) : Proper (obj members)

attribute [simp] Proper.null Proper.bool Proper.int Proper.str

@[simp]
theorem proper_real_iff {x : Float} : (real x).Proper ↔ reading64 x ≠ .notANumber :=
  ⟨fun h => by cases h; assumption, .real⟩

@[simp]
theorem proper_arr_iff {items : List Json} : (arr items).Proper ↔ ∀ x ∈ items, x.Proper :=
  ⟨fun h => by cases h; assumption, .arr⟩

@[simp]
theorem proper_obj_iff {members : List (Text × Json)} : (obj members).Proper ↔
    (members.map Prod.fst).Nodup ∧ ∀ m ∈ members, m.2.Proper :=
  ⟨fun h => by cases h; exact ⟨‹_›, ‹_›⟩, fun h => .obj h.1 h.2⟩

theorem Proper.same_self {x : Json} (h : x.Proper) : x.same x = true := by
  induction h with
  | null => exact same_null_iff.mpr rfl
  | bool _ => exact (same_number_iff rfl).mpr ⟨_, rfl, rfl⟩
  | int _ => exact (same_number_iff rfl).mpr ⟨_, rfl, rfl⟩
  | @real x number =>
    obtain ⟨q, hq, _⟩ := eq_or_isZero_iff.mp ⟨number, .inl rfl⟩
    exact (same_number_iff rfl).mpr ⟨q, hq, hq⟩
  | str _ => exact same_str_iff.mpr rfl
  | arr _ ih =>
    exact same_arr_iff.mpr ⟨_, rfl, List.forall₂_same.mpr fun x hx =>
      sameInside_iff.mpr (.inl (ih x hx))⟩
  | obj distinct _ ih =>
    exact same_obj_iff.mpr ⟨_, rfl, rfl, fun m hm =>
      ⟨m.2, lookup_of_mem distinct hm, sameInside_iff.mpr (.inl (ih m hm))⟩⟩

end Json

end ClassGraph
