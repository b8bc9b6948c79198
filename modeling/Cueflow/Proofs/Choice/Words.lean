import Mathlib
import Cueflow.Proofs.Choice.Flattening
import Cueflow.Proofs.World.Drawing
/-!
# Which wait gets which word

> `draws_in_declaration_order`: the first step of a junction takes one word of the generator for
> each wait that has a time to draw, in the order in which they stand: branch by branch, and from
> left to right within a condition. So the times that are drawn do not depend on anything else that
> stands between these waits.

What stands between them are waits of a fixed time, tests, dependencies and conditions that always
hold, in conjunctions of any depth. Starting them leaves the generator where it is
(`Plain.start_leaf`), so that only the waits with a time to draw need to be counted.
-/

namespace Cueflow

variable {K C : Type}

namespace Condition

/-- Made of accepted waits, tests, dependencies and conditions that always hold. -/
inductive Plain : Condition Float32 World → Prop where
  | wait {min max : Float32} {w : Wait Float32} (left : Float32) :
      Wait.between min max = .ok w → Plain (.wait { w with remaining := left })
  | predicate (label : String) (test : World → Bool × World) : Plain (.predicate label test)
  | dependency (d : Dependency) : Plain (.dependency d)
  | always : Plain .always
  | all {parts : List (Condition Float32 World)} : (∀ c ∈ parts, Plain c) → Plain (.all parts)

/-- Whether there is a time to draw: a wait whose bounds are apart. -/
def draws : Condition Float32 World → Bool
  | .wait w => w.min < w.max
  | _ => false

/-- The same wait with the time that a word stands for. -/
def given (word : UInt32) : Condition Float32 World → Condition Float32 World
  | .wait w => .wait { w with remaining := Chance.scaleWord w.min w.max word }
  | c => c

variable {c : Condition Float32 World}

theorem plain_of_mem_leavesAll {parts : List (Condition Float32 World)}
    (hparts : ∀ c ∈ parts, ∀ leaf ∈ c.leaves, leaf.Plain) : ∀ leaf ∈ leavesAll parts, leaf.Plain := by
  induction parts with
  | nil => exact fun leaf hleaf => absurd hleaf List.not_mem_nil
  | cons c rest ih =>
    obtain ⟨hc, hrest⟩ := List.forall_mem_cons.1 hparts
    exact List.forall_mem_append.2 ⟨hc, ih hrest⟩

theorem Plain.leaves (hc : c.Plain) : ∀ leaf ∈ c.leaves, leaf.Plain := by
  induction hc with
  | wait left hw => exact List.forall_mem_singleton.2 (.wait left hw)
  | predicate label test => exact List.forall_mem_singleton.2 (.predicate label test)
  | dependency d => exact List.forall_mem_singleton.2 (.dependency d)
  | always => exact List.forall_mem_singleton.2 .always
  | all _ ih => exact plain_of_mem_leavesAll ih

/-- Starting a leaf takes a word if there is a time to draw, and gives the leaf what the word stands
for. Nothing else about the generator changes. -/
theorem Plain.start_leaf (hc : c.Plain) (hleaf : ∀ parts, c ≠ .all parts) (u : World) :
    (c.start u).2.generator = u.generator.skip (if c.draws then 1 else 0) ∧
    (c.start u).1.draws = c.draws ∧
    (c.draws = true → (c.start u).1 = c.given (u.generator.word u.generator.position)) := by
  cases hc with
  | @wait min max w left hw =>
    obtain ⟨hrange, rfl⟩ := Wait.between_eq_ok_iff.1 hw
    have hstart : (Condition.wait ⟨min, max, left⟩ : Condition Float32 World).start u =
        (.wait ⟨min, max, World.numberFor min max (u.generator.word u.generator.position)⟩,
          { u with generator := u.generator.skip (World.wordsFor min max) }) := by
      rw [start, Wait.start_of_range hrange]
    rw [hstart]
    refine ⟨?_, rfl, fun hdraws => ?_⟩
    · simp only [draws, decide_eq_true_eq]
      rfl
    · rw [World.numberFor, if_pos (of_decide_eq_true hdraws)]
      rfl
  | predicate label test => exact ⟨rfl, rfl, nofun⟩
  | dependency d => exact ⟨rfl, rfl, nofun⟩
  | always => exact ⟨rfl, rfl, nofun⟩
  | all hparts => exact absurd rfl (hleaf _)

end Condition

/-- The generator stays where it is. -/
def Conduct.sameGenerator : Conduct World where
  rel u u' := u'.generator = u.generator
  refl _ := rfl
  trans h₁ h₂ := h₂.trans h₁

namespace Junction

open Condition

/-- The leaves of all conditions, branch by branch. -/
def leavesOf (branches : List (Branch Float32 World K C)) : List (Condition Float32 World) :=
  branches.flatMap fun b => b.condition.leaves

/-- Opening the sessions starts the leaves. -/
theorem inTurn_startBranches (branches : List (Branch Float32 World K C)) (u : World) :
    inTurn Condition.start (leavesOf branches) u =
      (leavesOf (startBranches branches u).1, (startBranches branches u).2) := by
  induction branches generalizing u with
  | nil => rfl
  | cons b rest ih =>
    show inTurn Condition.start (b.condition.leaves ++ leavesOf rest) u = _
    rw [inTurn_append, Condition.inTurn_start, ih]
    rfl

/-- Words are taken by the leaves that have a time to draw, one after the other. -/
theorem inTurn_start_plain {leaves : List (Condition Float32 World)}
    (hplain : ∀ leaf ∈ leaves, leaf.Plain) (hleaf : ∀ leaf ∈ leaves, ∀ parts, leaf ≠ .all parts)
    (u : World) :
    let started := inTurn Condition.start leaves u
    started.2.generator = u.generator.skip (leaves.filter draws).length ∧
    started.1.filter draws = (leaves.filter draws).mapIdx fun k leaf =>
      leaf.given (u.generator.word (u.generator.position + k)) := by
  induction leaves generalizing u with
  | nil => exact ⟨rfl, rfl⟩
  | cons leaf rest ih =>
    obtain ⟨hc, hrest⟩ := List.forall_mem_cons.1 hplain
    obtain ⟨hc', hrest'⟩ := List.forall_mem_cons.1 hleaf
    obtain ⟨hgenerator, hdraws, hgiven⟩ := hc.start_leaf hc' u
    obtain ⟨hend, htimes⟩ := ih hrest hrest' (leaf.start u).2
    rw [hgenerator, Chance.Generator.skip_skip] at hend
    rw [hgenerator] at htimes
    intro started
    have hstarted : started = ((leaf.start u).1 :: (inTurn Condition.start rest (leaf.start u).2).1,
        (inTurn Condition.start rest (leaf.start u).2).2) := rfl
    rw [hstarted, List.filter_cons, List.filter_cons, hdraws]
    cases hd : leaf.draws with
    | false =>
      rw [hd] at hend htimes
      rw [if_neg Bool.false_ne_true, Nat.zero_add] at hend
      exact ⟨hend, htimes⟩
    | true =>
      rw [hd] at hend htimes
      simp only [if_true, Chance.Generator.word_skip, Chance.Generator.position_skip] at hend htimes
      rw [hgiven hd, htimes, if_pos rfl, if_pos rfl, List.length_cons, List.mapIdx_cons]
      refine ⟨hend.trans (congrArg (u.generator.skip ·) (Nat.add_comm _ _)), ?_⟩
      -- the first of the others is the second of all
      refine congrArg (_ :: List.mapIdx · _) (funext fun k => funext fun next => ?_)
      rw [Nat.add_assoc, Nat.add_comm 1 k]

/-- Starting a junction starts the leaves, and then the logic, which takes no words. -/
theorem start_plain (name : String) {logic : List (Background World)}
    {branches : List (Branch Float32 World K C)} (hplain : ∀ b ∈ branches, b.condition.Plain)
    (hlogic : ∀ l ∈ logic, ∀ u : World, (l.start u).generator = u.generator) (u : World) :
    let started := (ofBranches name logic branches).start u
    let drawing := (leavesOf branches).filter draws
    started.2.generator = u.generator.skip drawing.length ∧
    (leavesOf started.1.branches).filter draws = drawing.mapIdx fun k leaf =>
      leaf.given (u.generator.word (u.generator.position + k)) := by
  have hleaves : ∀ leaf ∈ leavesOf branches, leaf.Plain := fun leaf hleaf =>
    let ⟨b, hb, hleaf⟩ := List.mem_flatMap.1 hleaf
    (hplain b hb).leaves leaf hleaf
  have hnot : ∀ leaf ∈ leavesOf branches, ∀ parts, leaf ≠ .all parts := fun leaf hleaf =>
    let ⟨b, _, hleaf⟩ := List.mem_flatMap.1 hleaf
    ne_all_of_mem_leaves b.condition leaf hleaf
  obtain ⟨hgenerator, htimes⟩ := inTurn_start_plain hleaves hnot u
  rw [inTurn_startBranches] at hgenerator htimes
  have hstart : (runLogic Background.start logic (startBranches branches u).2).generator =
      (startBranches branches u).2.generator := rel_runLogic (k := .sameGenerator) hlogic _
  exact ⟨hstart.trans hgenerator, htimes⟩

/-- The words that the first step of a junction takes while it starts are as many as there are waits
with a time to draw, and each of these gets the time of its own word, in the order in which they
stand. So another junction that has the same such waits in the same order draws the same times for
them from the same generator and leaves it in the same state, whatever else stands between them, in
however many branches and conjunctions. -/
theorem draws_in_declaration_order [Builder K World C] (name : String)
    {logic : List (Background World)} {branches : List (Branch Float32 World K C)}
    (hplain : ∀ b ∈ branches, b.condition.Plain)
    (hlogic : ∀ l ∈ logic, ∀ u : World, (l.start u).generator = u.generator) (u : World) :
    let made := ofBranches name logic branches
    let started := made.start u
    let drawing := (leavesOf branches).filter draws
    made.step u = started.1.choose started.2 ∧
    started.2.generator = u.generator.skip drawing.length ∧
    (leavesOf started.1.branches).filter draws = (drawing.mapIdx fun k leaf =>
      leaf.given (u.generator.word (u.generator.position + k))) ∧
    ∀ (name' : String) {logic' : List (Background World)}
      {branches' : List (Branch Float32 World K C)}, (∀ b ∈ branches', b.condition.Plain) →
      (∀ l ∈ logic', ∀ u : World, (l.start u).generator = u.generator) →
      (leavesOf branches').filter draws = drawing →
      ∀ u' : World, u'.generator = u.generator →
        let started' := (ofBranches name' logic' branches').start u'
        (leavesOf started'.1.branches).filter draws = (leavesOf started.1.branches).filter draws ∧
        started'.2.generator = started.2.generator := by
  obtain ⟨hgenerator, htimes⟩ := start_plain name hplain hlogic u
  refine ⟨rfl, hgenerator, htimes, ?_⟩
  intro name' logic' branches' hplain' hlogic' hsame u' hu'
  obtain ⟨hgenerator', htimes'⟩ := start_plain name' hplain' hlogic' u'
  rw [hsame, hu'] at hgenerator' htimes'
  exact ⟨htimes'.trans htimes.symm, hgenerator'.trans hgenerator.symm⟩

/-- Two waits with a time to draw, in two branches. In the second junction a branch is added between
them, a test and a fixed wait are gone, and the conjunctions around them too. -/
theorem draws_in_declaration_order_of_rearranged :
    let u := World.ofSeed (some 7)
    let quiet : Condition Float32 World := .bound "quiet" fun _ => true
    let first : Condition Float32 World := .wait ⟨0.5, 1, 0.5⟩
    let second : Condition Float32 World := .wait ⟨0, 3, 0⟩
    let branches : List (Branch Float32 World Empty Unit) :=
      [.when (.all [quiet, first, .all []]) .stop,
        .whenNot (.all [.wait ⟨2, 2, 2⟩, .all [second]]) .stop]
    let branches' : List (Branch Float32 World Empty Unit) :=
      [.when first .stop, .when .always .stop,
        .when (.all [second, .dependency (.on "guard")]) .stop]
    let started := (ofBranches "before" [.ofUpdate id] branches).start u
    let started' := (ofBranches "after" [] branches').start u
    started.2.generator = u.generator.skip 2 ∧
    (leavesOf started.1.branches).filter draws =
      [first.given (u.generator.word 0), second.given (u.generator.word 1)] ∧
    (leavesOf started'.1.branches).filter draws = (leavesOf started.1.branches).filter draws ∧
    started'.2.generator = started.2.generator := by
  intro u quiet first second branches branches' started started'
  have hfirst : first.Plain :=
    .wait 0.5 (Wait.between_eq_ok_iff.2 ⟨(by decide +kernel : Wait.Range (0.5 : Float32) 1), rfl⟩)
  have hsecond : second.Plain :=
    .wait 0 (Wait.between_eq_ok_iff.2 ⟨(by decide +kernel : Wait.Range (0 : Float32) 3), rfl⟩)
  have hfixed : (Condition.wait ⟨2, 2, 2⟩).Plain :=
    .wait 2 (Wait.between_eq_ok_iff.2 ⟨(by decide +kernel : Wait.Range (2 : Float32) 2), rfl⟩)
  have hplain : ∀ b ∈ branches, b.condition.Plain := by
    have hguarded : (Condition.all [quiet, first, .all []]).Plain := .all (by
      simp [quiet, Condition.bound, hfirst, Plain.predicate, Plain.all])
    have hnested : (Condition.all [.wait ⟨2, 2, 2⟩, .all [second]]).Plain := .all (by
      simp [hfixed, hsecond, Plain.all])
    simp [branches, Branch.when, Branch.whenNot, hguarded, hnested]
  have hplain' : ∀ b ∈ branches', b.condition.Plain := by
    have hpair : (Condition.all [second, .dependency (.on "guard")]).Plain := .all (by
      simp [hsecond, Plain.dependency])
    simp [branches', Branch.when, hfirst, hpair, Plain.always]
  have hdraws : first.draws = true := by decide +kernel
  have hdraws' : second.draws = true := by decide +kernel
  have hfixed' : (Condition.wait ⟨2, 2, 2⟩).draws = false := by decide +kernel
  have hquiet : quiet.draws = false := rfl
  have hdrawing : (leavesOf branches).filter draws = [first, second] := by
    show [quiet, first, .wait ⟨2, 2, 2⟩, second].filter draws = _
    simp [hquiet, hdraws, hfixed', hdraws']
  have hdrawing' : (leavesOf branches').filter draws = [first, second] := by
    show [first, .always, second, .dependency (.on "guard")].filter draws = _
    have hdependency : (Condition.dependency (.on "guard")).draws = false := rfl
    have halways : Condition.always.draws = false := rfl
    simp [hdraws, halways, hdraws', hdependency]
  have hlogic : ∀ l ∈ [Background.ofUpdate id], ∀ u : World, (l.start u).generator = u.generator :=
    List.forall_mem_singleton.2 fun _ => rfl
  have hlogic' : ∀ l ∈ ([] : List (Background World)), ∀ u : World,
      (l.start u).generator = u.generator := fun l hl => nomatch hl
  obtain ⟨-, hgenerator, htimes, hsame⟩ := draws_in_declaration_order "before" hplain hlogic u
  rw [hdrawing] at hgenerator htimes hsame
  obtain ⟨htimes', hgenerator'⟩ := hsame "after" hplain' hlogic' hdrawing' u rfl
  exact ⟨hgenerator, htimes, htimes', hgenerator'⟩

end Junction

end Cueflow
