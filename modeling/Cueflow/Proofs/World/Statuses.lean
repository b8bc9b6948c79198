import Cueflow.Proofs.Choice.Conduct
import Cueflow.World.Basic
/-!
# Posted statuses

Statuses are posted on the host, so a statement about one of them has to say who writes there.

> `Conduct.undisturbed`: what everybody is held to but the director whose status it is.
> `LawfulBoard`: a new status can be read back, is not running at first, and stays readable
> whatever is posted under other handles.

The world is such a board: its statuses are cells of an array that only grows.
-/

namespace Cueflow

variable {T H : Type}

/-- What is posted under this handle is read back. -/
def Holds [Host H T] [StatusBoard H] (handle : Handle) (h : H) : Prop :=
  ∀ running, Host.isRunning (T := T) handle (StatusBoard.post handle running h) = running

/-- A board on which every new handle has a status of its own, not running at first, and on
which posting keeps every status readable. -/
class LawfulBoard (H : Type) {T : Type} [Host H T] [StatusBoard H] : Prop where
  holds_newStatus : ∀ h : H, Holds (StatusBoard.newStatus h).1 (StatusBoard.newStatus h).2
  isRunning_newStatus : ∀ h : H,
    Host.isRunning (StatusBoard.newStatus h).1 (StatusBoard.newStatus h).2 = false
  holds_post : ∀ {handle : Handle} {h : H}, Holds handle h →
    ∀ other running, Holds handle (StatusBoard.post other running h)

/-- What is posted under this handle stays as it is. -/
def Conduct.undisturbed [Host H T] [StatusBoard H] (handle : Handle) : Conduct H where
  rel h h' := (Holds handle h → Holds handle h') ∧
    Host.isRunning handle h' = Host.isRunning handle h
  refl _ := ⟨id, rfl⟩
  trans h₁ h₂ := ⟨h₂.1 ∘ h₁.1, h₂.2.trans h₁.2⟩

namespace World

/-- The world reads back what it has a cell for. -/
theorem holds_iff {handle : Handle} {w : World} :
    Holds handle w ↔ handle.index < w.statuses.size := by
  constructor
  · intro hholds
    by_contra hge
    have hposted : (w.post handle true).isRunning handle = true := hholds true
    simp [World.post, World.isRunning, hge] at hposted
  · exact fun hlt running => isRunning_post_self hlt running

/-- Whatever leaves the cells alone leaves every status alone. -/
theorem undisturbed_of_statuses {w w' : World} (hstatuses : w'.statuses = w.statuses)
    (handle : Handle) : (Conduct.undisturbed handle).rel w w' := by
  refine ⟨fun hholds => holds_iff.2 ?_, ?_⟩
  · rw [hstatuses]
    exact holds_iff.1 hholds
  · show w'.statuses.getD handle.index false = w.statuses.getD handle.index false
    rw [hstatuses]

/-- Drawing a number moves the generator, and no status. -/
theorem statuses_draw (lo hi : Float32) (w : World) : (w.draw lo hi).2.statuses = w.statuses := by
  unfold draw draw?
  split
  · rfl
  · cases w.generator.draw? lo hi <;> rfl

theorem size_post (handle : Handle) (running : Bool) (w : World) :
    (w.post handle running).statuses.size = w.statuses.size := by
  simp [World.post]

/-- A new status that is not running is as good as none for all others. -/
theorem undisturbed_newStatus (handle : Handle) (w : World) :
    (Conduct.undisturbed handle).rel w (w.newStatus false).2 := by
  refine ⟨fun hholds => holds_iff.2 ?_, ?_⟩
  · show handle.index < (w.statuses.push false).size
    have hlt := holds_iff.1 hholds
    rw [Array.size_push]
    omega
  · show (w.statuses.push false).getD handle.index false = w.statuses.getD handle.index false
    rw [Array.getD_eq_getD_getElem?, Array.getD_eq_getD_getElem?, Array.getElem?_push]
    split
    · next hlast =>
      rw [hlast, Array.getElem?_eq_none (Nat.le_refl _)]
      rfl
    · rfl

/-- Posting under another handle leaves a status alone. -/
theorem undisturbed_post {handle other : Handle} (hne : handle ≠ other) (running : Bool)
    (w : World) : (Conduct.undisturbed handle).rel w (w.post other running) := by
  refine ⟨fun hholds => holds_iff.2 ?_, isRunning_post_of_ne hne w running⟩
  rw [size_post]
  exact holds_iff.1 hholds

end World

instance : LawfulBoard World where
  holds_newStatus w := by
    refine World.holds_iff.2 ?_
    show w.statuses.size < (w.statuses.push false).size
    simp
  isRunning_newStatus w := w.isRunning_newStatus false
  holds_post := by
    intro handle w hholds other running
    refine World.holds_iff.2 ?_
    show handle.index < (w.post other running).statuses.size
    rw [World.size_post]
    exact World.holds_iff.1 hholds

end Cueflow
