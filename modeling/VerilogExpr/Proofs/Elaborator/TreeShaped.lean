import VerilogExpr.Proofs.Elaborator.Checks
import VerilogExpr.Proofs.Elaborator.Moves

/-!
# Tree-shaped use

A user who writes source text uses every expression once: as the operand of another one, or as the
target of a context.  A session of that shape has no violations.  The contexts that a step imposes
find what they reach free, because nothing else has used it, and the checks of the elaborator
reject everything that construction would object to.
-/

namespace VerilogExpr

namespace Elaborator

open Elaboration

/-- The expressions that a step uses: the operands of what it builds, or the target of a context. -/
def Step.uses : Step → List ExprId
  | unary _ operand => [operand]
  | binary _ left right => [left, right]
  | ternary _ first second third => [first, second, third]
  | concat operands => operands
  | replicate _ operands => operands
  | bitSelect _ index => [index]
  | indexedSelect _ base _ _ => [base]
  | element _ indices => indices
  | assign _ id => [id]
  | connect id _ => [id]
  | settle id => [id]
  | impose id _ => [id]
  | _ => []

/-- The expressions that a step evaluates, so that they may be used elsewhere. -/
def Step.evaluates : Step → List ExprId
  | replicate count _ => [count]
  | partSelect _ left right => [left, right]
  | indexedSelect _ _ _ width => [width]
  | evaluate id => [id]
  | evaluateIndex id => [id]
  | _ => []

variable {e : Elaborator} {d : Declaration} {id : ExprId} {used operands : List ExprId}

theorem ensures_replicate (h : e.arena.Sound) {count : ExprId} (hcount : count < e.arena.size)
    (husable : e.arena.Usable used operands) :
    (e.replicate count operands).Ensures fun b => b.Unshared (operands ++ used) := by
  refine (ensures_constantIndex h hcount _).bind fun n _ => ?_
  split
  · exact ensures_rejectExpr h.ordered hcount _
  · rename_i hpositive
    refine (ensures_demandPieces h.ordered husable.exist).bind fun _ hpieces => ?_
    have hnonzero : n.toNat ≠ 0 := by omega
    exact ensures_build h husable ⟨hnonzero, hpieces⟩

theorem ensures_bitSelect (h : e.arena.Sound) {index : ExprId}
    (husable : e.arena.Usable used [index]) :
    (e.bitSelect d index).Ensures fun b => b.Unshared ([index] ++ used) := by
  have hindex := husable.exist index (by simp)
  refine (ensures_demandSelectable d).bind fun _ hd => ?_
  refine (ensures_demandIntegral h.ordered hindex _).bind fun _ _ => ?_
  refine (ensures_constantIndex? h hindex).bind fun i _ => ?_
  cases i with
  | none => exact ensures_build h husable hd
  | some i =>
      refine (ensures_warnSelect d [i]).bind fun _ _ => ?_
      exact ensures_build_leaf h husable.unshared rfl hd

theorem ensures_partSelect (h : e.arena.Sound) {left right : ExprId}
    (hleft : left < e.arena.size) (hright : right < e.arena.size)
    (hunshared : e.arena.Unshared used) :
    (e.partSelect d left right).Ensures fun b => b.Unshared ([] ++ used) := by
  refine (ensures_demandSelectable d).bind fun _ hd => ?_
  refine (ensures_both (ensures_constantIndex h hleft _) (ensures_constantIndex h hright _)).bind
    fun bounds _ => ?_
  dsimp only
  split
  · refine (ensures_warnSelect d _).bind fun _ _ => ?_
    exact ensures_build_leaf h hunshared rfl ⟨hd, Nat.succ_ne_zero _⟩
  · exact ensures_reject _

theorem ensures_indexedSelect (h : e.arena.Sound) {base width : ExprId}
    (direction : SelectDirection) (hwidth : width < e.arena.size)
    (husable : e.arena.Usable used [base]) :
    (e.indexedSelect d base direction width).Ensures fun b => b.Unshared ([base] ++ used) := by
  have hbase := husable.exist base (by simp)
  refine (ensures_demandSelectable d).bind fun _ hd => ?_
  refine (ensures_demandIntegral h.ordered hbase _).bind fun _ _ => ?_
  refine (ensures_constantIndex h hwidth _).bind fun w _ => ?_
  split
  · exact ensures_rejectExpr h.ordered hwidth _
  · rename_i hpositive
    have hnonzero : w.toNat ≠ 0 := by omega
    refine (ensures_constantIndex? h hbase).bind fun index _ => ?_
    cases index with
    | none => exact ensures_build h husable ⟨hd, hnonzero⟩
    | some i =>
        have hbounds : ∃ bounds, d.bitRange.indexedBounds i w.toNat direction = .ok bounds := by
          simp [BitRange.indexedBounds, hnonzero]
        obtain ⟨bounds, hbounds⟩ := hbounds
        refine .bind_of_ok hbounds ((ensures_warnSelect d _).bind fun _ _ => ?_)
        exact ensures_build_leaf h husable.unshared rfl ⟨hd, Nat.succ_ne_zero _⟩

theorem ensures_element (h : e.arena.Sound) (husable : e.arena.Usable used operands) :
    (e.element d operands).Ensures fun b => b.Unshared (operands ++ used) := by
  unfold element
  cases hdimensions : d.dimensions with
  | none => exact ensures_reject _
  | some dimensions =>
      by_cases hcount : operands.length = dimensions.count
      · simp only [hcount, ne_eq, not_true, if_false]
        have hintegral := ensures_checkAll fun id hmem =>
          ensures_demandIntegral h.ordered (husable.exist id hmem) .arrayIndex
        refine hintegral.bind fun _ hreal => ?_
        have hplaces : ∀ place ∈ dimensions.ranges.zip operands,
            (e.warnElement d dimensions place).Ensures fun _ => True := by
          intro place hmem
          obtain ⟨range, id⟩ := place
          exact ensures_warnElement h (husable.exist id (List.of_mem_zip hmem).2) dimensions range
        refine (ensures_forM hplaces).bind fun _ _ => ?_
        exact ensures_build h husable ⟨⟨dimensions, hdimensions, hcount⟩, hreal⟩
      · simp only [ne_eq, hcount, not_false_eq_true, if_true]
        exact ensures_reject _

theorem ensures_answerExpr {x : Elaboration Arena} {uses : List ExprId}
    (h : x.Ensures fun b => b.Unshared (uses ++ used)) :
    (e.answerExpr x).Ensures fun answer => answer.2.Unshared (uses ++ used) :=
  h.bind fun _ hb => .pure hb

theorem ensures_answerDone {x : Elaboration Arena} {uses : List ExprId}
    (h : x.Ensures fun b => b.Unshared (uses ++ used)) :
    (answerDone x).Ensures fun answer => answer.2.Unshared (uses ++ used) :=
  h.bind fun _ hb => .pure hb

theorem ensures_integerLiteral (h : e.arena.Sound) (hunshared : e.arena.Unshared used) (n : Int) :
    (e.integerLiteral n).Ensures fun b => b.Unshared ([] ++ used) :=
  ensures_build_leaf h hunshared rfl trivial

theorem ensures_basedLiteral (h : e.arena.Sound) (hunshared : e.arena.Unshared used)
    (sign : Sign) (size : Option Nat) (n : Int) :
    (e.basedLiteral sign size n).Ensures fun b => b.Unshared ([] ++ used) := by
  unfold basedLiteral
  split
  · exact ensures_reject _
  · exact ensures_build_leaf h hunshared rfl trivial
  · exact ensures_build_leaf h hunshared rfl trivial

theorem ensures_settle (h : e.arena.Sound) (husable : e.arena.Usable used [id]) :
    (e.settle id).Ensures fun b => b.Unshared ([id] ++ used) := by
  have htype : e.arena.type id = .ok (e.arena.typeAt id) :=
    Arena.type_eq_ok_iff.mpr ⟨husable.exist id (by simp), rfl⟩
  exact .bind_of_ok htype (ensures_impose h husable _)

/-- **One step.** A step that uses expressions which are not used yet, and evaluates expressions
that exist, is no violation.  Afterwards the remaining expressions are still unshared. -/
theorem ensures_step (h : e.arena.Sound) (step : Step)
    (husable : e.arena.Usable used step.uses)
    (hevaluates : ∀ id ∈ step.evaluates, id < e.arena.size) :
    (e.step step).Ensures fun answer => answer.2.Unshared (step.uses ++ used) := by
  have hunshared := husable.unshared
  have hordered := h.ordered
  cases step with
  | integerLiteral n => exact ensures_answerExpr (ensures_integerLiteral h hunshared n)
  | basedLiteral sign size n =>
      exact ensures_answerExpr (ensures_basedLiteral h hunshared sign size n)
  | realLiteral x => exact ensures_answerExpr (ensures_build_leaf h hunshared rfl trivial)
  | reference d => exact ensures_answerExpr (ensures_build_leaf h hunshared rfl trivial)
  | unary op x =>
      refine ensures_answerExpr ?_
      refine (ensures_demandUnary hordered (husable.exist x (by simp [Step.uses])) op).bind ?_
      exact fun _ hadmissible => ensures_build h husable hadmissible
  | binary op x y =>
      refine ensures_answerExpr ((ensures_demandBinary hordered husable.exist op).bind ?_)
      exact fun _ hadmissible => ensures_build h husable hadmissible
  | ternary op x y z => exact ensures_answerExpr (ensures_build h husable trivial)
  | concat operands =>
      refine ensures_answerExpr ((ensures_demandPieces hordered husable.exist).bind ?_)
      exact fun _ hadmissible => ensures_build h husable hadmissible
  | replicate count operands =>
      exact ensures_answerExpr (ensures_replicate h (hevaluates count (by simp [Step.evaluates]))
        husable)
  | bitSelect d index => exact ensures_answerExpr (ensures_bitSelect h husable)
  | partSelect d left right =>
      exact ensures_answerExpr (ensures_partSelect h
        (hevaluates left (by simp [Step.evaluates])) (hevaluates right (by simp [Step.evaluates]))
        hunshared)
  | indexedSelect d base direction width =>
      exact ensures_answerExpr (ensures_indexedSelect h direction
        (hevaluates width (by simp [Step.evaluates])) husable)
  | element d indices => exact ensures_answerExpr (ensures_element h husable)
  | assign target id => exact ensures_answerDone (ensures_impose h husable target)
  | connect id width => exact ensures_answerDone (ensures_impose h husable _)
  | settle id => exact ensures_answerDone (ensures_settle h husable)
  | impose id required => exact ensures_answerDone (ensures_impose h husable required)
  | evaluate id =>
      have hid := hevaluates id (by simp [Step.evaluates])
      exact (ensures_evaluate h hid).bind fun _ _ => .pure hunshared
  | evaluateIndex id =>
      have hid := hevaluates id (by simp [Step.evaluates])
      exact (ensures_evaluateIndex h hid).bind fun _ _ => .pure hunshared

end Elaborator

end VerilogExpr
