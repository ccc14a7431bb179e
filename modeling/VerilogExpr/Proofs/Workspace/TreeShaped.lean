import VerilogExpr.Proofs.Elaborator.TreeShaped

/-!
# Tree-shaped sessions

A session is tree-shaped if its steps only name expressions that exist, and use an expression only
if no successful step has used it before.  Such a session runs to its end: a step may reject what
the user wrote, but none is a violation.
-/

namespace VerilogExpr.Workspace

open Elaborator Elaboration

variable {w : Workspace} {used : List ExprId} {steps : List Step}

/-- The expressions that are used after a step.  A rejected step uses none. -/
def usedAfter (w : Workspace) (used : List ExprId) (step : Step) : List ExprId :=
  match (w.answer (.elaborate step)).outcome with
  | .ok _ => step.uses ++ used
  | .error _ => used

/-- The steps of the session name expressions that exist, and use each of them once. -/
def TreeShaped (w : Workspace) (used : List ExprId) : List Step → Prop
  | [] => True
  | step :: steps =>
    (∀ id ∈ step.uses ++ step.evaluates, id < w.arena.size) ∧ step.uses.Nodup ∧
      (∀ id ∈ step.uses, id ∉ used) ∧
      (w.after (.elaborate step)).TreeShaped (w.usedAfter used step) steps

instance decidableTreeShaped : ∀ (w : Workspace) (used : List ExprId) (steps : List Step),
    Decidable (w.TreeShaped used steps)
  | _, _, [] => inferInstanceAs (Decidable True)
  | w, used, step :: steps =>
    have := decidableTreeShaped (w.after (.elaborate step)) (w.usedAfter used step) steps
    inferInstanceAs (Decidable (_ ∧ _ ∧ _ ∧ _))

theorem usable_of_treeShaped {step : Step} (h : w.TreeShaped used (step :: steps))
    (hunshared : w.arena.Unshared used) : w.arena.Usable used step.uses := by
  obtain ⟨hexist, hnodup, hunused, -⟩ := h
  exact ⟨hunshared, fun id hmem => hexist id (List.mem_append_left _ hmem), hunused, hnodup⟩

/-- A tree-shaped session has an outcome for each of its steps, and no outcome is a violation. -/
theorem outcomes_of_treeShaped (h : w.TreeShaped used steps) (harena : w.arena.Reachable)
    (hunshared : w.arena.Unshared used) :
    (w.run (steps.map .elaborate)).1.length = steps.length ∧
      ∀ outcome ∈ (w.run (steps.map .elaborate)).1,
        (∃ answer, outcome = .ok answer) ∨ outcome = .error .rejected := by
  induction steps generalizing w used with
  | nil => exact ⟨rfl, by simp [run]⟩
  | cons step steps ih =>
      have husable := usable_of_treeShaped h hunshared
      obtain ⟨hexist, -, -, hrest⟩ := h
      have hstep : (w.answer (.elaborate step)).Ensures fun answer =>
          answer.2.Unshared (step.uses ++ used) :=
        ensures_step harena.sound step husable
          fun id hmem => hexist id (List.mem_append_right _ hmem)
      have hreachable := harena.of_moves (moves_after w (.elaborate step))
      cases houtcome : (w.answer (.elaborate step)).outcome with
      | ok answer =>
          have hafter : (w.after (.elaborate step)).arena = answer.2 := by
            simp only [after, absorb, houtcome]
          have hused : w.usedAfter used step = step.uses ++ used := by
            simp only [usedAfter, houtcome]
          rw [hused] at hrest
          obtain ⟨hlength, houtcomes⟩ :=
            ih hrest hreachable (hafter ▸ hstep.of_eq_ok houtcome)
          simp only [List.map_cons, run, houtcome, List.length_cons, hlength, true_and]
          exact List.forall_mem_cons.mpr ⟨Or.inl ⟨answer.1, rfl⟩, houtcomes⟩
      | error stop =>
          have hafter : (w.after (.elaborate step)).arena = w.arena := by
            simp only [after, absorb, houtcome]
          have hused : w.usedAfter used step = used := by
            simp only [usedAfter, houtcome]
          cases stop with
          | violation v => exact absurd houtcome (hstep.ne_violation v)
          | rejected =>
              rw [hused] at hrest
              obtain ⟨hlength, houtcomes⟩ := ih hrest hreachable (hafter ▸ hunshared)
              simp only [List.map_cons, run, houtcome, List.length_cons, hlength, true_and]
              exact List.forall_mem_cons.mpr ⟨Or.inr rfl, houtcomes⟩

/-- **Tree-shaped sessions have no violations.** Whatever the options, the declarations and the
steps: if every expression is used once at most, each step of the session succeeds or rejects its
input.  In particular no context is imposed twice, and construction never gets to see an operand
that it would object to. -/
theorem no_violation_of_treeShaped (options : Options) (steps : List Step)
    (h : (fresh options).TreeShaped [] steps) :
    ((fresh options).run (steps.map .elaborate)).1.length = steps.length ∧
      ∀ outcome ∈ ((fresh options).run (steps.map .elaborate)).1,
        (∃ answer, outcome = .ok answer) ∨ outcome = .error .rejected :=
  outcomes_of_treeShaped h ⟨[], rfl⟩ Arena.unshared_empty

theorem no_violation_of_treeShaped_sum :
    let steps : List Step :=
      [.basedLiteral .unsigned (some 4) 15, .basedLiteral .unsigned (some 4) 1,
        .binary (.arith .add) 0 1, .assign (.sizedVector .unsigned 8) 2, .evaluate 2]
    (fresh .standard).TreeShaped [] steps ∧
      ((fresh .standard).run (steps.map .elaborate)).1.length = 5 := by
  intro steps
  have hshaped : (fresh .standard).TreeShaped [] steps := by decide +kernel
  exact ⟨hshaped, (no_violation_of_treeShaped .standard steps hshaped).1⟩

end VerilogExpr.Workspace
