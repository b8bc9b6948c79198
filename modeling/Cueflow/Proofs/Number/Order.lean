import Mathlib
/-!
# The order of numbers

Every number that is defined has a `place` in a linear order, and comparing two numbers is
comparing their places.

> `le_eq_true_iff`, `lt_eq_true_iff`: the model of binary floating point compares numbers by
> their places.
-/

namespace Cueflow.Number

open Float.Model (UnpackedFloat)
open Float.Model.UnpackedFloat

/-- Where a number stands: negative before zero before positive, then by exponent and
mantissa, both counted down for negative numbers. -/
def place : UnpackedFloat → Option (Int ×ₗ Int ×ₗ Int)
  | .notANumber => none
  | .infinity .negative => some (toLex (-2, toLex (0, 0)))
  | .finite .negative m e _ => some (toLex (-1, toLex (-e, -m)))
  | .zero _ => some (toLex (0, toLex (0, 0)))
  | .finite .positive m e _ => some (toLex (1, toLex (e, m)))
  | .infinity .positive => some (toLex (2, toLex (0, 0)))

theorem compare_then_compare (e e' : Int) (m m' : Nat) :
    (compare e e').then (compare m m') =
      if e < e' ∨ e = e' ∧ m < m' then .lt else if e = e' ∧ m = m' then .eq else .gt := by
  rcases Int.lt_trichotomy e e' with h | rfl | h
  · simp [compare_lt_iff_lt.2 h, h]
  · rcases Nat.lt_trichotomy m m' with h | rfl | h
    · simp [compare_lt_iff_lt.2 h, h]
    · simp
    · have hlt : ¬ m < m' := by omega
      have hne : m ≠ m' := by omega
      simp [compare_gt_iff_gt.2 h, hlt, hne]
  · have hlt : ¬ e < e' := by omega
    have hne : e ≠ e' := by omega
    simp [compare_gt_iff_gt.2 h, hlt, hne]

/-- Numbers compare as their places do, and what has no place compares with nothing. -/
theorem compare_eq (x y : UnpackedFloat) :
    x.compare y = (place x).bind fun a => (place y).map fun b =>
      if a < b then .lt else if a = b then .eq else .gt := by
  rcases x with ⟨_ | _⟩ | _ | _ | ⟨_ | _, m, e, hm⟩ <;>
    rcases y with ⟨_ | _⟩ | _ | _ | ⟨_ | _, m', e', hm'⟩ <;>
    simp [place, UnpackedFloat.compare, compare_then_compare, Prod.Lex.toLex_lt_toLex]
  -- what is left are two zeros of either sign, and two numbers of one sign
  all_goals first
    | rfl
    | split_ifs <;> first | rfl | omega

/-- Both are defined, and the first comes no later. -/
def Precedes (x y : UnpackedFloat) : Prop :=
  ∃ a b, place x = some a ∧ place y = some b ∧ a ≤ b

theorem Precedes.refl {x y : UnpackedFloat} (h : Precedes x y) : Precedes y y := by
  obtain ⟨-, b, -, hb, -⟩ := h
  exact ⟨b, b, hb, hb, le_rfl⟩

/-- Nothing comes after the positive infinity. -/
theorem Precedes.infinity {x y : UnpackedFloat} (h : Precedes x y) :
    Precedes y (.infinity .positive) := by
  obtain ⟨-, b, -, hb, -⟩ := h
  refine ⟨b, _, hb, rfl, ?_⟩
  rcases y with ⟨_ | _⟩ | _ | _ | ⟨_ | _, m, e, hm⟩ <;> cases hb <;>
    simp [Prod.Lex.toLex_le_toLex]

/-- Comparing unpacked numbers is comparing places. -/
theorem le_eq_true_iff (x y : UnpackedFloat) : x.le y = true ↔ Precedes x y := by
  rw [UnpackedFloat.le, compare_eq]
  unfold Precedes
  cases place x with
  | none => simp
  | some a =>
    cases place y with
    | none => simp
    | some b =>
      rcases lt_trichotomy a b with h | rfl | h
      · simp [h, h.le]
      · simp
      · simp [not_lt_of_gt h, ne_of_gt h, not_le_of_gt h]

theorem lt_eq_true_iff (x y : UnpackedFloat) :
    x.lt y = true ↔ ∃ a b, place x = some a ∧ place y = some b ∧ a < b := by
  rw [UnpackedFloat.lt, compare_eq]
  cases place x with
  | none => simp
  | some a =>
    cases place y with
    | none => simp
    | some b =>
      rcases lt_trichotomy a b with h | rfl | h
      · simp [h]
      · simp
      · simp [not_lt_of_gt h, ne_of_gt h]

/-- A number that is not below 0 is infinite, zero or positive. -/
theorem nonneg_cases {x : UnpackedFloat} (h : Precedes (.zero .positive) x) :
    x = .infinity .positive ∨ (∃ s, x = .zero s) ∨ ∃ m e hm, x = .finite .positive m e hm := by
  obtain ⟨a, b, ha, hb, hab⟩ := h
  cases ha
  rcases x with ⟨_ | _⟩ | _ | s | ⟨_ | _, m, e, hm⟩
  · cases hb
    simp [Prod.Lex.toLex_le_toLex] at hab
  · exact Or.inl rfl
  · exact nomatch hb
  · exact Or.inr (Or.inl ⟨s, rfl⟩)
  · cases hb
    simp [Prod.Lex.toLex_le_toLex] at hab
  · exact Or.inr (Or.inr ⟨m, e, hm, rfl⟩)

/-- What comes no earlier than a positive number is positive, and infinite or larger by exponent
and mantissa. -/
theorem precedes_finite {m : Nat} {e : Int} {hm : 0 < m} {x : UnpackedFloat} :
    Precedes (.finite .positive m e hm) x ↔
      x = .infinity .positive ∨
        ∃ m' e' hm', x = .finite .positive m' e' hm' ∧ (e < e' ∨ e = e' ∧ m ≤ m') := by
  constructor
  · rintro ⟨a, b, ha, hb, hab⟩
    cases ha
    rcases x with ⟨_ | _⟩ | _ | _ | ⟨_ | _, m', e', hm'⟩ <;> cases hb <;>
      simp_all [Prod.Lex.toLex_le_toLex]
  · rintro (rfl | ⟨m', e', hm', rfl, hle⟩)
    · exact ⟨_, _, rfl, rfl, by simp [Prod.Lex.toLex_le_toLex]⟩
    · exact ⟨_, _, rfl, rfl, by simpa [Prod.Lex.toLex_le_toLex] using hle⟩

/-- A positive number is the only one in its place. -/
theorem eq_of_precedes {m : Nat} {e : Int} {hm : 0 < m} {x : UnpackedFloat}
    (h : Precedes (.finite .positive m e hm) x) (h' : Precedes x (.finite .positive m e hm)) :
    x = .finite .positive m e hm := by
  rcases precedes_finite.1 h with rfl | ⟨m', e', hm', rfl, hle⟩
  · obtain ⟨_, _, ha, hb, hab⟩ := h'
    cases ha
    cases hb
    simp [Prod.Lex.toLex_le_toLex] at hab
  · rcases precedes_finite.1 h' with h' | ⟨_, _, _, h', hle'⟩ <;> cases h'
    obtain ⟨rfl, rfl⟩ : e' = e ∧ m' = m := by omega
    rfl

end Cueflow.Number
