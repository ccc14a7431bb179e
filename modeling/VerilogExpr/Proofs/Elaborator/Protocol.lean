import VerilogExpr.Elaborator.Step
import VerilogExpr.Proofs.Elaborator.Reports

/-!
# Steps keep the protocol of errors

The functions of the elaborator check what the user wrote, evaluate some of it, and then change the
arena by one action.  All errors come from the checks and the evaluations.  So when a step rejects
its input, nothing has been built and no context imposed, and when it does not, it has done the one
thing that it is for.
-/

namespace VerilogExpr.Elaborator

open Elaboration

variable {e : Elaborator} {id : ExprId}

inductive Purpose where
  | building
  | sizing
  | evaluating
deriving DecidableEq

def Step.purpose : Step → Purpose
  | assign _ _ => .sizing
  | connect _ _ => .sizing
  | settle _ => .sizing
  | impose _ _ => .sizing
  | evaluate _ => .evaluating
  | evaluateIndex _ => .evaluating
  | _ => .building

/-- What a step that ends well has done: it has built one expression and answers with its handle, or
has imposed one context, or has left the arena alone. -/
def Effect (before : Arena) (purpose : Purpose) (answer : Answer × Arena) : Prop :=
  match purpose with
  | .building => answer.1 = .expr before.size ∧ ∃ expr, before.add expr = .ok answer.2
  | .sizing => answer.1 = .done ∧ ∃ id required, before.impose id required = .ok answer.2
  | .evaluating => answer.2 = before

/-! ### Rejections -/

theorem checks_rejectExpr {α : Type} (id : ExprId) (reason : String → Rejection) :
    (e.rejectExpr id reason : Elaboration α).Checks :=
  (checks_monadLift _).bind fun _ => checks_reject _

theorem guarded_rejectExpr {α : Type} {P : α → Prop} (id : ExprId)
    (reason : String → Rejection) : (e.rejectExpr id reason).Guarded P :=
  (checks_monadLift _).guards fun _ _ => guarded_reject _

theorem yields_rejectExpr {α : Type} {P : α → Prop} (reason : String → Rejection) :
    (e.rejectExpr id reason).Yields P :=
  .of_last fun _ => yields_reject _

/-! ### Checks -/

theorem checks_isConstant (id : ExprId) : (e.isConstant id).Checks := checks_monadLift _

theorem checks_demandIntegral (role : OperandRole) (id : ExprId) :
    (e.demandIntegral role id).Checks := by
  refine (checks_monadLift _).bind fun type => ?_
  split
  · exact checks_rejectExpr id _
  · exact checks_pure ()

theorem checks_demandSelectable (d : Declaration) : (demandSelectable d).Checks := by
  unfold demandSelectable
  split
  · exact checks_reject _
  · exact checks_pure ()

theorem checks_demandUnary (op : UnaryOp) (operand : ExprId) :
    (e.demandUnary op operand).Checks := by
  unfold demandUnary
  split
  · exact checks_demandIntegral _ operand
  · exact checks_pure ()

theorem checks_demandBinary (op : BinaryOp) (left right : ExprId) :
    (e.demandBinary op left right).Checks := by
  unfold demandBinary
  split
  · exact checks_checkAll (checks_demandIntegral _) [left, right]
  · exact checks_pure ()

theorem checks_demandPieces (operands : List ExprId) : (e.demandPieces operands).Checks := by
  unfold demandPieces
  split
  · exact checks_reject _
  · exact checks_checkAll (checks_demandIntegral _) operands

theorem checks_warnOutside (d : Declaration) (index : Int) (shape : String) :
    (e.warnOutside d index shape).Checks :=
  checks_reportIf _ rfl

theorem checks_warnSelect (d : Declaration) (indices : List Int) :
    (e.warnSelect d indices).Checks := by
  unfold warnSelect
  split
  · exact checks_warnOutside d _ _
  · exact checks_pure ()

/-! ### Values -/

theorem checks_evaluate (id : ExprId) : (e.evaluate id).Checks :=
  (checks_ofEvaluation _).bind fun v => (checks_reportValue id v).bind fun _ => checks_pure v

theorem checks_evaluateIndex (id : ExprId) : (e.evaluateIndex id).Checks := by
  refine (checks_evaluate id).bind fun v => ?_
  split
  · exact checks_pure _
  · exact checks_rejectExpr id _

theorem checks_constantIndex (role : OperandRole) (id : ExprId) :
    (e.constantIndex role id).Checks := by
  refine (checks_isConstant id).bind fun constant => ?_
  split
  · exact checks_evaluateIndex id
  · exact checks_rejectExpr id _

theorem checks_constantIndex? (id : ExprId) : (e.constantIndex? id).Checks := by
  refine (checks_isConstant id).bind fun constant => ?_
  split
  · exact (checks_evaluateIndex id).bind fun _ => checks_pure _
  · exact checks_pure _

theorem checks_warnElement (d : Declaration) (dimensions : Dimensions)
    (place : BitRange × ExprId) : (e.warnElement d dimensions place).Checks := by
  refine (checks_constantIndex? place.2).bind fun index? => ?_
  cases index? with
  | none => exact checks_pure ()
  | some i =>
      dsimp only
      split
      · exact checks_pure ()
      · exact checks_warnOutside d i _

theorem length_reported_evaluate (id : ExprId) :
    ((e.evaluate id).reported .error).length ≤ 1 := by
  refine (checks_ofEvaluation _).length_bind_le_one (length_reported_ofEvaluation _) fun v => ?_
  have hsilent := (silent_reportValue (e := e) id v).bind fun _ => silent_pure v
  rw [hsilent.reported_eq_nil]
  exact Nat.zero_le 1

theorem length_reported_evaluateIndex (id : ExprId) :
    ((e.evaluateIndex id).reported .error).length ≤ 1 := by
  refine (checks_evaluate id).length_bind_le_one (length_reported_evaluate id) fun v => ?_
  split
  · exact Nat.zero_le 1
  · exact (checks_monadLift _).length_bind_le_one (Nat.zero_le 1) fun _ =>
      length_reported_reject _

/-! ### Building -/

theorem yields_add (expr : Expr) : (e.build expr).Yields fun c => e.arena.add expr = .ok c := by
  refine (yields_monadLift (e.arena.add expr)).bind fun c hadd => ?_
  exact .of_last fun _ => .of_last fun _ => .pure hadd

/-- Building comes last in a step, and rejects nothing. -/
theorem guarded_build (expr : Expr) :
    (e.build expr).Guarded fun c => ∃ expr, e.arena.add expr = .ok c := by
  have hsilent : (e.build expr).Silent :=
    (silent_monadLift _).bind fun c => (silent_log _).bind fun _ =>
      (silent_reportType c e.arena.size).bind fun _ => silent_pure c
  exact hsilent.guarded fun c hc => ⟨expr, yields_add expr c hc⟩

theorem guarded_basedLiteral (sign : Sign) (size : Option Nat) (n : Int) :
    (e.basedLiteral sign size n).Guarded fun c => ∃ expr, e.arena.add expr = .ok c := by
  unfold basedLiteral
  split
  · exact guarded_reject _
  · exact guarded_build _
  · exact guarded_build _

theorem guarded_replicate (count : ExprId) (operands : List ExprId) :
    (e.replicate count operands).Guarded fun c => ∃ expr, e.arena.add expr = .ok c := by
  refine (checks_constantIndex _ count).guards fun n _ => ?_
  split
  · exact guarded_rejectExpr count _
  · exact (checks_demandPieces operands).guards fun _ _ => guarded_build _

theorem guarded_bitSelect (d : Declaration) (index : ExprId) :
    (e.bitSelect d index).Guarded fun c => ∃ expr, e.arena.add expr = .ok c := by
  refine (checks_demandSelectable d).guards fun _ _ => ?_
  refine (checks_demandIntegral _ index).guards fun _ _ => ?_
  refine (checks_constantIndex? index).guards fun index? _ => ?_
  cases index? with
  | none => exact guarded_build _
  | some i => exact (checks_warnSelect d [i]).guards fun _ _ => guarded_build _

theorem guarded_partSelect (d : Declaration) (left right : ExprId) :
    (e.partSelect d left right).Guarded fun c => ∃ expr, e.arena.add expr = .ok c := by
  refine (checks_demandSelectable d).guards fun _ _ => ?_
  refine (checks_both (checks_constantIndex _ left) (checks_constantIndex _ right)).guards
    fun bounds _ => ?_
  dsimp only
  split
  · exact (checks_warnSelect d _).guards fun _ _ => guarded_build _
  · exact guarded_reject _

theorem guarded_indexedSelect (d : Declaration) (base : ExprId) (direction : SelectDirection)
    (width : ExprId) : (e.indexedSelect d base direction width).Guarded fun c =>
      ∃ expr, e.arena.add expr = .ok c := by
  refine (checks_demandSelectable d).guards fun _ _ => ?_
  refine (checks_demandIntegral _ base).guards fun _ _ => ?_
  refine (checks_constantIndex _ width).guards fun w _ => ?_
  split
  · exact guarded_rejectExpr width _
  · refine (checks_constantIndex? base).guards fun base? _ => ?_
    cases base? with
    | none => exact guarded_build _
    | some b =>
        refine (checks_monadLift _).guards fun bounds _ => ?_
        exact (checks_warnSelect d _).guards fun _ _ => guarded_build _

theorem guarded_element (d : Declaration) (indices : List ExprId) :
    (e.element d indices).Guarded fun c => ∃ expr, e.arena.add expr = .ok c := by
  unfold element
  split
  · exact guarded_reject _
  · split
    · exact guarded_reject _
    · refine (checks_checkAll (checks_demandIntegral _) indices).guards fun _ _ => ?_
      exact (checks_forM (checks_warnElement d _) _).guards fun _ _ => guarded_build _

/-! ### Contexts -/

theorem guarded_impose (id : ExprId) (required : DataType) :
    (e.impose id required).Guarded fun c => ∃ id required, e.arena.impose id required = .ok c := by
  have hsilent : (e.impose id required).Silent :=
    (silent_reportContext id required).bind fun _ => (silent_monadLift _).bind fun c =>
      (silent_log _).bind fun _ => silent_pure c
  refine hsilent.guarded (.of_last fun _ => ?_)
  refine (yields_monadLift (e.arena.impose id required)).bind fun c himpose => ?_
  exact .of_last fun _ => .pure ⟨id, required, himpose⟩

/-! ### Steps -/

theorem guarded_answerExpr {x : Elaboration Arena}
    (h : x.Guarded fun c => ∃ expr, e.arena.add expr = .ok c) :
    (e.answerExpr x).Guarded (Effect e.arena .building) :=
  h.map fun _ hadd => ⟨rfl, hadd⟩

theorem guarded_answerDone {x : Elaboration Arena}
    (h : x.Guarded fun c => ∃ id required, e.arena.impose id required = .ok c) :
    (answerDone x).Guarded (Effect e.arena .sizing) :=
  h.map fun _ himpose => ⟨rfl, himpose⟩

/-- Every step is guarded, and one that ends well has done what it is for. -/
theorem guarded_step (step : Step) : (e.step step).Guarded (Effect e.arena step.purpose) := by
  cases step with
  | integerLiteral n => exact guarded_answerExpr (guarded_build _)
  | basedLiteral sign size n => exact guarded_answerExpr (guarded_basedLiteral sign size n)
  | realLiteral x => exact guarded_answerExpr (guarded_build _)
  | reference d => exact guarded_answerExpr (guarded_build _)
  | unary op x =>
      exact guarded_answerExpr ((checks_demandUnary op x).guards fun _ _ => guarded_build _)
  | binary op x y =>
      exact guarded_answerExpr ((checks_demandBinary op x y).guards fun _ _ => guarded_build _)
  | ternary op x y z => exact guarded_answerExpr (guarded_build _)
  | concat operands =>
      exact guarded_answerExpr ((checks_demandPieces operands).guards fun _ _ => guarded_build _)
  | replicate count operands => exact guarded_answerExpr (guarded_replicate count operands)
  | bitSelect d index => exact guarded_answerExpr (guarded_bitSelect d index)
  | partSelect d left right => exact guarded_answerExpr (guarded_partSelect d left right)
  | indexedSelect d base direction width =>
      exact guarded_answerExpr (guarded_indexedSelect d base direction width)
  | element d indices => exact guarded_answerExpr (guarded_element d indices)
  | assign target id => exact guarded_answerDone (guarded_impose id target)
  | connect id width => exact guarded_answerDone (guarded_impose id _)
  | settle id =>
      exact guarded_answerDone ((checks_monadLift _).guards fun _ _ => guarded_impose id _)
  | impose id required => exact guarded_answerDone (guarded_impose id required)
  | evaluate id => exact (checks_evaluate id).guards fun v _ => guarded_pure rfl
  | evaluateIndex id => exact (checks_evaluateIndex id).guards fun i _ => guarded_pure rfl

end VerilogExpr.Elaborator
