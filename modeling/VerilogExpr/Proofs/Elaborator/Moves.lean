import VerilogExpr.Proofs.Arena.Reachable
import VerilogExpr.Proofs.Elaborator.Protocol
import VerilogExpr.Workspace

/-!
# What requests do to an arena

A step of the elaborator checks, evaluates and reports, but it changes the arena by a single action
at most, and so does every other request.  A run of requests therefore only leads to arenas that
actions lead to, and whatever actions preserve, it preserves.
-/

namespace VerilogExpr

def Arena.Moves (a b : Arena) : Prop := b = a ∨ ∃ action, a.act action = .ok b

theorem Arena.Moves.evolves {a b : Arena} (h : a.Moves b) : a.Evolves b := by
  rcases h with rfl | ⟨action, hact⟩
  · exact .refl _
  · exact evolves_of_act hact

theorem Arena.Reachable.of_moves {a b : Arena} (h : a.Reachable) (hmoves : a.Moves b) :
    b.Reachable := by
  rcases hmoves with rfl | ⟨action, hact⟩
  · exact h
  · exact h.of_act hact

namespace Elaborator

open Elaboration

variable {e : Elaborator}

theorem Effect.moves {before : Arena} {purpose : Purpose} {answer : Answer × Arena}
    (h : Effect before purpose answer) : before.Moves answer.2 := by
  cases purpose with
  | building =>
      obtain ⟨-, expr, hadd⟩ := h
      exact Or.inr ⟨.add expr, hadd⟩
  | sizing =>
      obtain ⟨-, id, required, himpose⟩ := h
      exact Or.inr ⟨.impose id required, himpose⟩
  | evaluating => exact Or.inl h

/-- A step changes the arena by one action at most. -/
theorem yields_step (step : Step) :
    (e.step step).Yields fun answer => e.arena.Moves answer.2 :=
  fun answer h => ((guarded_step step).ok answer h).2.moves

end Elaborator

namespace Workspace

open Elaboration

variable {w w' : Workspace}

theorem yields_answer (w : Workspace) (request : Request) :
    (w.answer request).Yields fun answer => w.arena.Moves answer.2 := by
  have hsame : w.arena.Moves w.arena := Or.inl rfl
  cases request with
  | elaborate step => exact Elaborator.yields_step step
  | act action =>
      refine (yields_monadLift (w.arena.act action)).bind fun arena hact => ?_
      exact .of_last fun _ => .pure (Or.inr ⟨action, hact⟩)
  | evaluate id => exact .of_last fun _ => .pure hsame
  | takeDiagnostics => exact .pure hsame

theorem moves_after (w : Workspace) (request : Request) :
    w.arena.Moves (w.after request).arena := by
  unfold after absorb
  cases houtcome : (w.answer request).outcome with
  | error stop => exact Or.inl rfl
  | ok answer => exact yields_answer w request answer houtcome

/-- A property of arenas that actions preserve is preserved by every run of requests. -/
theorem arena_run {P : Arena → Prop} (hmoves : ∀ {a b}, a.Moves b → P a → P b)
    (requests : List Request) (h : P w.arena) : P (w.run requests).2.arena := by
  induction requests generalizing w with
  | nil => exact h
  | cons request requests ih =>
      have hafter := hmoves (moves_after w request) h
      unfold run
      split
      · exact hafter
      · exact ih hafter
      · exact ih hafter

def RunsTo (w : Workspace) (requests : List Request) (w' : Workspace) : Prop :=
  (∀ v, .error (.violation v) ∉ (w.run requests).1) ∧ (w.run requests).2 = w'

def Reachable (w : Workspace) : Prop := ∃ options requests, (fresh options).RunsTo requests w

theorem RunsTo.evolves {requests : List Request} (h : w.RunsTo requests w') :
    w.arena.Evolves w'.arena := by
  obtain ⟨-, rfl⟩ := h
  exact arena_run (P := w.arena.Evolves) (fun hmoves h => h.trans hmoves.evolves) requests
    (.refl _)

theorem RunsTo.reachable {requests : List Request} (h : w.RunsTo requests w')
    (harena : w.arena.Reachable) : w'.arena.Reachable := by
  obtain ⟨-, rfl⟩ := h
  exact arena_run (fun hmoves h => h.of_moves hmoves) requests harena

theorem Reachable.arena (h : w.Reachable) : w.arena.Reachable := by
  obtain ⟨options, requests, hruns⟩ := h
  exact hruns.reachable ⟨[], rfl⟩

end Workspace

end VerilogExpr
