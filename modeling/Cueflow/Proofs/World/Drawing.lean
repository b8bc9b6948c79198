import Mathlib
import Cueflow.Proofs.Flow.Bookkeeping
import Cueflow.Proofs.Number.Scaling
import Cueflow.Proofs.Number.Single
import Cueflow.World.Basic
/-!
# Drawing the time to wait

> `Chance.scaleWord_mem`: what a word stands for lies in the range, for every word and every range
> of finite numbers that are not below 0 and in order.

> `Wait.accepted_is_drawn`: a wait that was accepted can be drawn in every world. The time lies
> between its bounds, and one word is used for it, or none where the bounds are the same.

> `Director.unbroken_after`: flows in which all waits were accepted never break the world, whatever
> a director is told to do with them.

A word stands for a fraction below 1, by as much as the last place of 1. That is what a share needs
to stay within the bounds (`Single.share_mem`).
-/

namespace Cueflow

open Float.Model (Format UnpackedFloat)
open Float.Model.UnpackedFloat
open Number Number.BinaryFormat Binary

/-! ## Words -/

namespace Chance

theorem fraction_lt (word : UInt32) : (word >>> 9).toNat < 2 ^ 23 := by
  have hword := word.toNat_lt
  rw [UInt32.toNat_shiftRight, Nat.shiftRight_eq_div_pow]
  exact Nat.div_lt_of_lt_mul hword

/-- Behind a 1, the upper bits of a word stand for a number from 1 to 2. -/
theorem value_ofBits_or (word : UInt32) :
    (Float32.ofBits ((0x3f800000 : UInt32) ||| (word >>> 9))).isFinite = true ∧
      value (read (Float32.ofBits ((0x3f800000 : UInt32) ||| (word >>> 9)))) =
        (1 : ℚ) + (word >>> 9).toNat / 2 ^ 23 := by
  have hfraction := fraction_lt word
  have hbits : ((0x3f800000 : UInt32) ||| (word >>> 9)).toNat =
      2 ^ 23 * 127 + (word >>> 9).toNat := by
    rw [Nat.two_pow_add_eq_or_of_lt hfraction]
    exact UInt32.toNat_or _ _
  have hfits : binary32.Fits ((word >>> 9).toNat + 2 ^ 23) (-23) :=
    ⟨by show _ < 2 * 2 ^ 23; omega, by decide, Or.inr (Nat.le_add_left _ _)⟩
  have hlayout : binary32.layout ((word >>> 9).toNat + 2 ^ 23) (-23) =
      ((0x3f800000 : UInt32) ||| (word >>> 9)).toNat := by
    rw [hbits]
    show _ + 2 ^ 23 + 126 * 2 ^ 23 = _
    omega
  have hdecode := decode_layout hfits
  rw [hlayout] at hdecode
  obtain ⟨hfinite, hvalue⟩ := Single.value_ofBits (by rw [hbits]; show _ < 255 * 2 ^ 23; omega) hdecode
  refine ⟨hfinite, hvalue.trans ?_⟩
  push_cast
  field_simp
  norm_num
  ring

/-- The 1 is taken away again, and nothing is rounded. -/
theorem value_unitFraction (word : UInt32) :
    (unitFraction word).isFinite = true ∧
      value (read (unitFraction word)) = (word >>> 9).toNat / 2 ^ 23 := by
  obtain ⟨hfinite, hvalue⟩ := value_ofBits_or word
  have hfraction := fraction_lt word
  have hone : (1 : Float32).isFinite = true := isFinite_one (T := Float32)
  have hle : (1 : Float32) ≤ Float32.ofBits ((0x3f800000 : UInt32) ||| (word >>> 9)) := by
    rw [le_iff_value hone hfinite, value_read_one, hvalue]
    exact le_add_of_nonneg_right (by positivity)
  have hdelivers : Delivers _ _ (read (unitFraction word)) := delivers_read_sub hone hfinite hle
  rw [hvalue, value_read_one, add_sub_cancel_left] at hdelivers
  -- there are no more bits left than a mantissa has
  have hself : (ofFormat (format Float32)).Rounds ((word >>> 9).toNat * 2 ^ (-23 : ℤ)) _ :=
    rounds_self (by show _ ≤ 2 * 2 ^ 23; omega) (by decide)
  rw [zpow_neg, zpow_ofNat, ← div_eq_mul_inv] at hself
  refine hdelivers.exact (by positivity) hself ?_
  calc ((word >>> 9).toNat : ℚ) / 2 ^ 23 < 1 := by
        rw [div_lt_one (by positivity)]
        exact_mod_cast hfraction
    _ ≤ (ofFormat (format Float32)).limit := one_le_zpow₀ one_le_two (by decide)

/-- Whatever word is drawn, the number lies in the range, and the range is not too wide. -/
theorem scaleWord_mem {low high : Float32} (hlow : low.isFinite = true)
    (hhigh : high.isFinite = true) (h0 : 0 ≤ low) (hle : low ≤ high) (word : UInt32) :
    drawable low high = true ∧ low ≤ scaleWord low high word ∧ scaleWord low high word ≤ high := by
  obtain ⟨hfinite, hvalue⟩ := value_unitFraction word
  have hfraction := fraction_lt word
  have hupper : value (read (unitFraction word)) ≤ 1 - 1 / 2 ^ 23 := by
    have : ((word >>> 9).toNat : ℚ) + 1 ≤ 2 ^ 23 := by exact_mod_cast hfraction
    rw [hvalue]
    linarith
  obtain ⟨hwidth, hmem⟩ := Single.share_mem hlow hhigh h0 hle hfinite
    (by rw [hvalue]; positivity) hupper
  refine ⟨?_, hmem⟩
  rw [drawable, Bool.and_eq_true, decide_eq_true_iff]
  exact ⟨hle, hwidth⟩

/-- The generator after so many words. -/
def Generator.skip (n : ℕ) (g : Generator) : Generator := { g with position := g.position + n }

@[simp] theorem Generator.word_skip (n : ℕ) (g : Generator) : (g.skip n).word = g.word := rfl

@[simp] theorem Generator.position_skip (n : ℕ) (g : Generator) :
    (g.skip n).position = g.position + n := rfl

theorem Generator.skip_skip (m n : ℕ) (g : Generator) : (g.skip m).skip n = g.skip (m + n) :=
  congrArg (Generator.mk g.word) (Nat.add_assoc _ _ _)

end Chance

/-! ## Ranges -/

namespace Wait

/-- What the times of a wait are drawn from. -/
structure Range {T : Type} [Scalar T] (min max : T) : Prop where
  finite_min : Scalar.isFinite min = true
  finite_max : Scalar.isFinite max = true
  nonneg : 0 ≤ min
  le : min ≤ max

instance {T : Type} [Scalar T] (min max : T) : Decidable (Range min max) :=
  decidable_of_iff
    (Scalar.isFinite min = true ∧ Scalar.isFinite max = true ∧ 0 ≤ min ∧ min ≤ max)
    ⟨fun ⟨hmin, hmax, h0, hle⟩ => ⟨hmin, hmax, h0, hle⟩,
      fun ⟨hmin, hmax, h0, hle⟩ => ⟨hmin, hmax, h0, hle⟩⟩

/-- The ranges that are accepted. -/
theorem between_eq_ok_iff {T : Type} [Scalar T] [ClockLaws T] {min max : T} {w : Wait T} :
    between min max = .ok w ↔ Range min max ∧ w = ⟨min, max, min⟩ := by
  unfold between
  constructor
  · intro h
    split at h
    · cases h
    next hchecks =>
      simp only [Bool.or_eq_true, Bool.not_eq_true', decide_eq_true_iff, not_or,
        Bool.not_eq_false] at hchecks
      obtain ⟨⟨⟨hmin, hmax⟩, hneg⟩, hrev⟩ := hchecks
      have hself := ClockLaws.le_self_of_isFinite hmin
      refine ⟨⟨hmin, hmax, ClockLaws.le_of_not_lt hself ClockLaws.zero_le_zero hneg, ?_⟩, ?_⟩
      · exact ClockLaws.le_of_not_lt (ClockLaws.le_self_of_isFinite hmax) hself hrev
      · exact (Except.ok.inj h).symm
  · rintro ⟨⟨hmin, hmax, h0, hle⟩, rfl⟩
    have hneg : ¬ min < 0 := ClockLaws.not_lt_of_le h0
    have hrev : ¬ max < min := ClockLaws.not_lt_of_le hle
    rw [if_neg]
    simp [hmin, hmax, hneg, hrev]

end Wait

/-! ## Worlds -/

namespace World

/-- How many words a draw from this range takes. -/
def wordsFor (min max : Float32) : ℕ := if min < max then 1 else 0

/-- The number in this range that a word stands for. -/
def numberFor (min max : Float32) (word : UInt32) : Float32 :=
  if min < max then Chance.scaleWord min max word else min

theorem numberFor_mem {min max : Float32} (hrange : Wait.Range min max) (word : UInt32) :
    min ≤ numberFor min max word ∧ numberFor min max word ≤ max := by
  unfold numberFor
  split
  · exact (Chance.scaleWord_mem hrange.finite_min hrange.finite_max hrange.nonneg hrange.le word).2
  · exact ⟨ClockLaws.le_self_of_isFinite hrange.finite_min, hrange.le⟩

/-- In the range of a wait there is always a number. -/
theorem draw?_eq_some {min max : Float32} (hrange : Wait.Range min max) (u : World) :
    u.draw? min max = some (numberFor min max (u.generator.word u.generator.position),
      { u with generator := u.generator.skip (wordsFor min max) }) := by
  have hmin := ClockLaws.le_self_of_isFinite hrange.finite_min
  have hmax := ClockLaws.le_self_of_isFinite hrange.finite_max
  unfold draw? numberFor wordsFor
  by_cases hlt : min < max
  · have hdrawable := (Chance.scaleWord_mem hrange.finite_min hrange.finite_max hrange.nonneg
      hrange.le (u.generator.word u.generator.position)).1
    rw [if_neg (ClockLaws.not_le_of_lt hlt), if_pos hlt, if_pos hlt,
      Chance.Generator.draw?_of_drawable _ hdrawable]
    rfl
  · rw [if_pos (ClockLaws.le_of_not_lt hmin hmax hlt), if_neg hlt, if_neg hlt]
    rfl

theorem draw_eq {min max : Float32} (hrange : Wait.Range min max) (u : World) :
    u.draw min max = (numberFor min max (u.generator.word u.generator.position),
      { u with generator := u.generator.skip (wordsFor min max) }) := by
  unfold draw
  rw [draw?_eq_some hrange]
  rfl

end World

namespace Wait

/-- A session of an accepted wait starts with a number from its range. -/
theorem start_of_range {w : Wait Float32} (hrange : Range w.min w.max) (u : World) :
    w.start u =
      (⟨w.min, w.max, World.numberFor w.min w.max (u.generator.word u.generator.position)⟩,
        { u with generator := u.generator.skip (World.wordsFor w.min w.max) }) := by
  have hdraw : Host.draw w.min w.max u = _ := World.draw_eq hrange u
  unfold start
  rw [hdraw]

/-- Once a wait was accepted, every session of it starts with a time from its range, whatever is
left of an earlier session and wherever the generator stands. Nothing about the world changes but
that one word has been used, or none if the bounds are the same; in particular the world is not
broken. -/
theorem accepted_is_drawn {min max : Float32} {w : Wait Float32} (hw : between min max = .ok w)
    (left : Float32) (u : World) :
    let started := { w with remaining := left }.start u
    (u.draw? min max).isSome = true ∧
    started.1.min = min ∧ started.1.max = max ∧
    min ≤ started.1.remaining ∧ started.1.remaining ≤ max ∧
    started.2 = { u with generator := u.generator.skip (if min < max then 1 else 0) } := by
  obtain ⟨hrange, rfl⟩ := between_eq_ok_iff.1 hw
  intro started
  have hstart : started = _ := start_of_range (w := ⟨min, max, left⟩) hrange u
  obtain ⟨hge, hle⟩ := World.numberFor_mem hrange (u.generator.word u.generator.position)
  refine ⟨?_, ?_, ?_, ?_, ?_, ?_⟩
  · rw [u.draw?_eq_some hrange]
    rfl
  all_goals rw [hstart]
  · exact hge
  · exact hle
  · rfl

/-- From 0 up to the largest number there is, a time is drawn with the first word of a seed. -/
theorem accepted_is_drawn_of_widest :
    let largest := Float32.ofBits 0x7f7fffff
    let u := World.ofSeed (some 7)
    let started := (⟨0, largest, 5⟩ : Wait Float32).start u
    between 0 largest = .ok ⟨0, largest, 0⟩ ∧ 0 ≤ started.1.remaining ∧
    started.1.remaining ≤ largest ∧ started.2.generator.position = 1 ∧ started.2.broken = false := by
  intro largest u started
  have hrange : Range 0 largest := by decide +kernel
  have hw : between 0 largest = .ok ⟨0, largest, 0⟩ := between_eq_ok_iff.2 ⟨hrange, rfl⟩
  obtain ⟨-, -, -, hge, hle, hworld⟩ := accepted_is_drawn hw 5 u
  refine ⟨hw, hge, hle, ?_, ?_⟩
  · have hlt : (0 : Float32) < largest := by decide +kernel
    rw [hworld]
    exact congrArg (0 + ·) (if_pos hlt)
  · exact congrArg World.broken hworld

end Wait

/-! ## Runs -/

/-- Nobody asks the world for a number that cannot be drawn. -/
def Conduct.unbroken : Conduct World where
  rel u u' := u'.broken = u.broken
  refl _ := rfl
  trans h₁ h₂ := h₂.trans h₁

/-- An accepted wait never breaks the world. -/
theorem Condition.respects_unbroken {min max : Float32} {w : Wait Float32}
    (hw : Wait.between min max = .ok w) (left : Float32) :
    (Condition.wait { w with remaining := left }).Respects .unbroken := by
  obtain ⟨hrange, rfl⟩ := Wait.between_eq_ok_iff.1 hw
  refine .wait fun u => ?_
  exact congrArg (fun drawn => drawn.2.broken) (World.draw_eq hrange u)

/-- Where all flows that a director is given have accepted waits only, and nothing else breaks the
world, the world is as reliable after any commands as it was. -/
theorem Director.unbroken_after {K : Type} [Builder K World (Flow Float32 World K)]
    (hbuild : Conduct.unbroken.AllowsBuilding K (Flow Float32 World K))
    (hbuilds : Builds K World fun c : Flow Float32 World K => c.Respects .unbroken) (name : String)
    (u : World) {commands : List (Command (Flow Float32 World K) World)}
    (hcommands : ∀ command ∈ commands, Allowed (Flow.Respects .unbroken) .unbroken command) :
    (after commands (idle name u)).2.broken = u.broken := by
  have hidle : ∀ c : Flow Float32 World K, (idle name u).1.current = some c →
      c.Respects .unbroken := fun c hc => nomatch hc
  exact Discreet.rel_after (discreet_flows hbuild hbuilds) (fun _ _ _ => rfl) hidle hcommands

end Cueflow
