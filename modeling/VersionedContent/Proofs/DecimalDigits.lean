import Mathlib.Data.List.Basic
import Mathlib.Tactic.SplitIfs
import VersionedContent.Json.Number

/-!
# Decimal digits

The digits that a number is written with stand for the number, and the first of several is not zero.
-/

set_option autoImplicit false

namespace VersionedContent

namespace Decimal

/-- The number that digits stand for when they follow the digits of a number. -/
def valueFrom (n : Nat) (ds : List Nat) : Nat := ds.foldl (fun n d ↦ n * 10 + d) n

/-- The digits that a number is written with. -/
def digits (n : Nat) : List Nat := (Nat.toDigits 10 n).map fun c ↦ c.toNat - '0'.toNat

variable {n d : Nat} {ds es : List Nat}

theorem valueFrom_append : valueFrom n (ds ++ es) = valueFrom (valueFrom n ds) es :=
  List.foldl_append

theorem le_valueFrom (n : Nat) (ds : List Nat) : n ≤ valueFrom n ds := by
  induction ds generalizing n with
  | nil => exact Nat.le_refl n
  | cons d ds ih => exact Nat.le_trans (by omega) (ih (n * 10 + d))

theorem digits_of_lt (h : n < 10) : digits n = [n] := by
  have hvalue : n.digitChar.toNat - '0'.toNat = n := by
    rw [Nat.toNat_digitChar_of_lt_ten h]
    exact Nat.add_sub_cancel_left 48 n
  rw [digits, Nat.toDigits_of_lt_base h, List.map_singleton, hvalue]

theorem digits_of_le (h : 10 ≤ n) : digits n = digits (n / 10) ++ [n % 10] := by
  have hlast : digits (n % 10) = [n % 10] := digits_of_lt (Nat.mod_lt n (by decide))
  have htext : Nat.toDigits 10 n = Nat.toDigits 10 (n / 10) ++ Nat.toDigits 10 (n % 10) := by
    rw [Nat.toDigits_append_toDigits (by decide) (by omega) (by omega), Nat.div_add_mod]
  rw [← hlast, digits, htext, List.map_append]
  rfl

/-- What holds of single digits and is kept when a digit is added at the end holds of the digits of
every number. -/
theorem digits_induction {P : Nat → List Nat → Prop} (hone : ∀ d < 10, P d [d])
    (hmore : ∀ n ds, 0 < n → P n ds → ∀ d < 10, P (10 * n + d) (ds ++ [d])) (n : Nat) :
    P n (digits n) := by
  induction n using Nat.strongRecOn with
  | _ n ih =>
    rcases Nat.lt_or_ge n 10 with hlt | hge
    · rw [digits_of_lt hlt]
      exact hone n hlt
    · have hrest := hmore (n / 10) _ (by omega) (ih (n / 10) (by omega)) (n % 10) (by omega)
      rwa [Nat.div_add_mod, ← digits_of_le hge] at hrest

theorem lt_of_mem_digits : ∀ d ∈ digits n, d < 10 := by
  refine digits_induction (P := fun _ ds ↦ ∀ d ∈ ds, d < 10) ?_ ?_ n
  · simp
  · intro n ds _ hds d hd e he
    rcases List.mem_append.mp he with hold | hnew
    · exact hds e hold
    · exact List.mem_singleton.mp hnew ▸ hd

@[simp] theorem valueFrom_digits (n : Nat) : valueFrom 0 (digits n) = n := by
  refine digits_induction (P := fun n ds ↦ valueFrom 0 ds = n) ?_ ?_ n
  · intro d _
    simp [valueFrom]
  · intro n ds _ hds d _
    rw [valueFrom_append, hds]
    simp [valueFrom, Nat.mul_comm]

/-- A number of several digits does not begin with a zero. -/
theorem digits_ne_zero_cons (n d : Nat) (ds : List Nat) : digits n ≠ 0 :: d :: ds := by
  have hfirst : ∃ e es, digits n = e :: es ∧ (e = 0 → es = []) ∧ (0 < n → 0 < e) := by
    refine digits_induction
      (P := fun n ds ↦ ∃ e es, ds = e :: es ∧ (e = 0 → es = []) ∧ (0 < n → 0 < e)) ?_ ?_ n
    · exact fun d _ ↦ ⟨d, [], rfl, fun _ ↦ rfl, id⟩
    · rintro n _ hpos ⟨e, es, rfl, -, hhead⟩ d _
      exact ⟨e, es ++ [d], rfl, fun hzero ↦ absurd (hhead hpos) (by omega), fun _ ↦ hhead hpos⟩
  obtain ⟨e, es, heq, hzero, -⟩ := hfirst
  rw [heq]
  rintro ⟨⟩
  exact List.cons_ne_nil d ds (hzero rfl)

theorem digits_ne_nil (n : Nat) : digits n ≠ [] :=
  digits_induction (P := fun _ ds ↦ ds ≠ []) (by simp) (by simp) n

theorem toDigits_eq (n : Nat) : Nat.toDigits 10 n = (digits n).map Nat.digitChar := by
  induction n using Nat.strongRecOn with
  | _ n ih =>
    rw [Nat.toDigits_eq_if (by decide)]
    split_ifs with hlt
    · rw [digits_of_lt hlt]
      rfl
    · rw [ih (n / 10) (by omega), digits_of_le (Nat.le_of_not_lt hlt), List.map_append]
      rfl

end Decimal

namespace Json.Number

open Decimal

theorem takeDigits_eq {n : Nat} {ds : List Nat} (h : valueFrom n ds < UInt64.size) :
    takeDigits n ds = (valueFrom n ds, []) := by
  induction ds generalizing n with
  | nil => rfl
  | cons d ds ih =>
    have hfits : n * 10 + d < UInt64.size := Nat.lt_of_le_of_lt (le_valueFrom _ ds) h
    rw [takeDigits, if_pos hfits]
    exact ih h

/-- Digits are taken up to the end exactly if the number that they stand for fits 64 bits. -/
theorem takeDigits_eq_iff {n m : Nat} {ds : List Nat} (h : n < UInt64.size) :
    takeDigits n ds = (m, []) ↔ valueFrom n ds = m ∧ m < UInt64.size := by
  refine ⟨fun htake ↦ ?_, fun ⟨hvalue, hm⟩ ↦ hvalue ▸ takeDigits_eq (hvalue ▸ hm)⟩
  induction ds generalizing n with
  | nil =>
    cases htake
    exact ⟨rfl, h⟩
  | cons d ds ih =>
    rw [takeDigits] at htake
    split_ifs at htake with hfits
    · exact ih hfits htake
    · exact absurd (congrArg Prod.snd htake) (List.cons_ne_nil d ds)

end Json.Number

end VersionedContent
