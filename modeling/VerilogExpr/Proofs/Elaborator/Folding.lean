import VerilogExpr.Proofs.Elaborator.Checks
import VerilogExpr.Proofs.Elaborator.Moves
import VerilogExpr.Proofs.Evaluation.OwnWidth

/-!
# Constant indices

The elaborator evaluates a constant index, bound, width or replication count as it builds the
expression around it, and makes the integer part of that expression.  An operand that is no constant
is kept instead, and gets its own width before it is evaluated.  The elaborator does not wait for
that: it evaluates the operand with the widths that its operators were built with.  So the two agree
if the operators are as wide as the operand, and may differ in value and in outcome if not.
-/

namespace VerilogExpr

def Expr.indices : Expr → List ExprId
  | bitSelect _ index => index.operands
  | partSelect _ bounds => bounds.operands
  | element _ indices => indices
  | _ => []

namespace Elaborator

open Elaboration

variable {e : Elaborator} {id : ExprId} {b : Arena} {n : Node}

/-! ### Outcomes of constant operands -/

theorem outcome_constantIndex (h : e.arena.Sound) (hid : id < e.arena.size)
    (hconstant : e.arena.isConstant id = .ok true) (role : OperandRole) :
    (e.constantIndex role id).outcome = orRejected (e.arena.index? id) := by
  unfold constantIndex isConstant
  rw [outcome_bind, outcome_monadLift, hconstant]
  exact outcome_evaluateIndex h hid

theorem outcome_constantIndex? (h : e.arena.Sound) (hid : id < e.arena.size)
    (hconstant : e.arena.isConstant id = .ok true) :
    (e.constantIndex? id).outcome = orRejected ((e.arena.index? id).map some) := by
  have hindex : (e.evaluateIndex id).outcome = orRejected (e.arena.index? id) :=
    outcome_evaluateIndex h hid
  unfold constantIndex? isConstant
  rw [outcome_bind, outcome_monadLift, hconstant]
  change (e.evaluateIndex id >>= fun index => pure (some index)).outcome = _
  rw [outcome_bind, hindex]
  cases e.arena.index? id with
  | none => rfl
  | some i => rfl

/-! ### What is built from them -/

/-- The elaborator takes the given integer for a constant operand, wherever that is an index, a
bound, a width or a count, and rejects its input if there is no integer. -/
structure FoldsTo (e : Elaborator) (id : ExprId) (index? : Option Int) : Prop where
  constant : ∀ role, (e.constantIndex role id).outcome = orRejected index?
  optional : (e.constantIndex? id).outcome = orRejected (index?.map some)
  bitSelect : ∀ d, (e.bitSelect d id).Yields fun c => ∃ i, index? = some i ∧
    e.arena.add (.bitSelect d (.fixed i)) = .ok c
  bounds : ∀ d left right, (e.partSelect d left right).Yields fun c => ∃ l r,
    (left = id → index? = some l) ∧ (right = id → index? = some r) ∧
      e.arena.add (.partSelect d (.fixed l r)) = .ok c
  base : ∀ d direction width, (e.indexedSelect d id direction width).Yields fun c =>
    ∃ i w bounds, index? = some i ∧ d.bitRange.indexedBounds i w direction = .ok bounds ∧
      e.arena.add (.partSelect d (.fixed bounds.left bounds.right)) = .ok c
  width : ∀ d base direction, (e.indexedSelect d base direction id).Yields fun c =>
    ∃ w, index? = some w ∧ 0 < w ∧
      (e.arena.add (.partSelect d (.indexed base direction w.toNat)) = .ok c ∨
        ∃ i bounds, d.bitRange.indexedBounds i w.toNat direction = .ok bounds ∧
          e.arena.add (.partSelect d (.fixed bounds.left bounds.right)) = .ok c)
  /-- An index outside its dimension is warned of, if that is wanted. -/
  dimension : ∀ d dimensions range, (e.warnElement d dimensions (range, id)).diagnostics =
    (e.constantIndex? id).diagnostics ++ index?.elim [] fun i =>
      if range.contains i then [] else (e.warnOutside d i dimensions.text).diagnostics
  count : ∀ operands, (e.replicate id operands).Yields fun c => ∃ n, index? = some n ∧ 0 < n ∧
    e.arena.add (.replicate n.toNat operands) = .ok c

theorem FoldsTo.of_outcomes {index? : Option Int}
    (hconstant : ∀ role, (e.constantIndex role id).outcome = orRejected index?)
    (hoptional : (e.constantIndex? id).outcome = orRejected (index?.map some)) :
    e.FoldsTo id index? where
  constant := hconstant
  optional := hoptional
  bitSelect d := by
    refine .of_last fun _ => .of_last fun _ => (yields_of_outcome hoptional).bind fun i? hi => ?_
    obtain ⟨i, hindex, rfl⟩ := Option.map_eq_some_iff.mp hi
    refine .of_last fun _ => ?_
    exact fun c hc => ⟨i, hindex, yields_add _ c hc⟩
  bounds d left right := by
    refine .of_last fun _ => yields_both.bind fun results hresults => ?_
    have hindex := yields_of_outcome (hconstant .partSelectBound)
    have hleft : left = id → index? = some results.1 := by
      rintro rfl
      exact hindex _ hresults.1
    have hright : right = id → index? = some results.2 := by
      rintro rfl
      exact hindex _ hresults.2
    dsimp only
    split
    · refine .of_last fun _ => ?_
      exact fun c hc => ⟨_, _, hleft, hright, yields_add _ c hc⟩
    · exact yields_reject _
  base d direction width := by
    refine .of_last fun _ => .of_last fun _ => .of_last fun w => ?_
    split
    · exact yields_rejectExpr _
    · refine (yields_of_outcome hoptional).bind fun i? hi => ?_
      obtain ⟨i, hindex, rfl⟩ := Option.map_eq_some_iff.mp hi
      refine (yields_monadLift _).bind fun bounds hbounds => .of_last fun _ => ?_
      exact fun c hc => ⟨i, w.toNat, bounds, hindex, hbounds, yields_add _ c hc⟩
  width d base direction := by
    refine .of_last fun _ => .of_last fun _ => ?_
    refine (yields_of_outcome (hconstant .partSelectWidth)).bind fun w hw => ?_
    split
    · exact yields_rejectExpr _
    · rename_i hpositive
      refine .of_last fun i? => ?_
      cases i? with
      | none =>
          exact fun c hc => ⟨w, hw, Int.not_le.mp hpositive, Or.inl (yields_add _ c hc)⟩
      | some i =>
          refine (yields_monadLift _).bind fun bounds hbounds => .of_last fun _ => ?_
          exact fun c hc =>
            ⟨w, hw, Int.not_le.mp hpositive, Or.inr ⟨i, bounds, hbounds, yields_add _ c hc⟩⟩
  dimension d dimensions range := by
    unfold warnElement
    rw [diagnostics_bind, hoptional]
    cases index? with
    | none => rfl
    | some i =>
        simp only [Option.map_some, orRejected, Option.elim, Except.toOption]
        split <;> rfl
  count operands := by
    refine (yields_of_outcome (hconstant .replicationCount)).bind fun n hn => ?_
    split
    · exact yields_rejectExpr _
    · rename_i hpositive
      refine .of_last fun _ => ?_
      exact fun c hc => ⟨n, hn, Int.not_le.mp hpositive, yields_add _ c hc⟩

end Elaborator

namespace Arena

variable {a b c : Arena} {id : ExprId} {n : Node} {x : Expr}

theorem index?_eq_of_eval_eq (h : b.eval id = a.eval id) : b.index? id = a.index? id := by
  rw [index?, index?, value?, value?, h]

/-- An expression gets its own width where it is an index. -/
theorem Adds.requiredAt_index (h : Adds a x b) (hmem : id ∈ x.indices) :
    b.requiredAt id = some (a.typeAt id) := by
  obtain ⟨-, -, c, hrun, rfl⟩ := h
  have hsettled : id ∈ x.settled ∧ x.settledType a.typeAt id = a.typeAt id := by
    cases x with
    | bitSelect d index => exact ⟨hmem, rfl⟩
    | partSelect d bounds => exact ⟨hmem, rfl⟩
    | element d indices => exact ⟨hmem, rfl⟩
    | _ => exact absurd hmem List.not_mem_nil
  refine (evolves_push c x _).requiredAt_of_some ?_
  rw [hrun.requiredAt_settled hsettled.1, hsettled.2]

theorem requiredAt_of_settle (h : a.settle id = .ok b) :
    b.requiredAt id = some (a.typeAt id) :=
  (imposes_singleton_iff.mpr (settle_eq_ok_iff.mp h)).requiredAt_eq_some _ List.mem_cons_self

end Arena

namespace Elaborator

variable {e : Elaborator} {id : ExprId} {b : Arena} {n : Node}

/-- **Folding agrees with sizing** where it meets no narrower operator.  Let an integral constant be
as wide as the operators in its context.  Wherever the elaborator folds it, the integer is the one
that it has once it is sized, and there is none if that fails; and it is the one that an expression
would use which keeps it as an operand. -/
theorem foldsTo_of_uniformWidth (h : e.arena.Reachable) (hn : e.arena.nodes[id]? = some n)
    (hreal : n.type.isReal = false) (hconstant : e.arena.isConstant id = .ok true)
    (huniform : e.arena.UniformWidth id) (hsettle : e.arena.settle id = .ok b) :
    e.FoldsTo id (b.index? id) ∧
      ∀ x c, id ∈ x.indices → e.arena.add x = .ok c → c.index? id = b.index? id := by
  have ha := h.sound
  have hid := Arena.lt_size_of_node hn
  -- whatever gives the constant its own width leaves its evaluation as it is
  have hsame : ∀ {c : Arena}, c.Sound → e.arena.Evolves c →
      c.requiredAt id = some (e.arena.typeAt id) → c.index? id = e.arena.index? id := by
    intro c hc hevolves hrequired
    rw [Arena.typeAt_of_node hn] at hrequired
    exact Arena.index?_eq_of_eval_eq
      (ha.eval_eq_of_uniformWidth hc hevolves hn hreal huniform hrequired)
  have hrun := Arena.imposes_singleton_iff.mpr (Arena.settle_eq_ok_iff.mp hsettle)
  have hb := hsame (ha.of_imposes hrun) hrun.evolves (Arena.requiredAt_of_settle hsettle)
  rw [hb]
  constructor
  · exact .of_outcomes (outcome_constantIndex ha hid hconstant)
      (outcome_constantIndex? ha hid hconstant)
  · intro x c hmem hadd
    have hadds := Arena.add_eq_ok_iff.mp hadd
    exact hsame (ha.of_adds hadds) hadds.evolves (hadds.requiredAt_index hmem)

/-- An elaborator that has built `(4'hf + 4'h1) + 8'h0` and `8'h9 / (4'hf + 4'h1)`. -/
def narrowSums : Elaborator where
  options := .standard
  arena :=
    let four := DataType.sizedVector .unsigned 4
    let eight := DataType.sizedVector .unsigned 8
    ⟨#[⟨.literal (.truncated four 15), four, none⟩, ⟨.literal (.truncated four 1), four, none⟩,
      ⟨.binary (.arith .add) 0 1, four, none⟩, ⟨.literal (.truncated eight 0), eight, none⟩,
      ⟨.binary (.arith .add) 2 3, eight, none⟩, ⟨.literal (.truncated four 15), four, none⟩,
      ⟨.literal (.truncated four 1), four, none⟩, ⟨.binary (.arith .add) 5 6, four, none⟩,
      ⟨.literal (.truncated eight 9), eight, none⟩, ⟨.binary (.arith .div) 8 7, eight, none⟩]⟩

theorem reachable_narrowSums : narrowSums.arena.Reachable := by
  refine ⟨narrowSums.arena.nodes.toList.map fun n => .add n.expr, ?_⟩
  decide +kernel

theorem exists_settle_narrowSums {id : ExprId} {i : Int}
    (h : (narrowSums.arena.settle id).toOption.bind (fun b => b.index? id) = some i) :
    ∃ b, narrowSums.arena.settle id = .ok b ∧ b.index? id = some i := by
  obtain ⟨b, hb, hindex⟩ := Option.bind_eq_some_iff.mp h
  exact ⟨b, toOption_eq_some_iff.mp hb, hindex⟩

/-- The sum folds to zero, and is sixteen once it is sized.  So the quotient is rejected as a
division by zero, and is zero once it is sized. -/
theorem folding_ne_narrowSums :
    narrowSums.arena.Reachable ∧
      (narrowSums.constantIndex? 4).outcome = .ok (some 0) ∧
      (∃ b, narrowSums.arena.settle 4 = .ok b ∧ b.index? 4 = some 16) ∧
      (narrowSums.constantIndex? 9).outcome = .error .rejected ∧
      ∃ b, narrowSums.arena.settle 9 = .ok b ∧ b.index? 9 = some 0 :=
  ⟨reachable_narrowSums, by decide +kernel, exists_settle_narrowSums (by decide +kernel),
    by decide +kernel, exists_settle_narrowSums (by decide +kernel)⟩

theorem foldsTo_narrowSums :
    narrowSums.FoldsTo 2 (some 0) ∧ (narrowSums.constantIndex? 2).outcome = .ok (some 0) := by
  obtain ⟨b, hsettle, hindex⟩ : ∃ b, narrowSums.arena.settle 2 = .ok b ∧ b.index? 2 = some 0 :=
    exists_settle_narrowSums (by decide +kernel)
  have huniform : narrowSums.arena.UniformWidth 2 := by
    refine Arena.uniformWidth_of_leaves rfl fun operand hmem => ?_
    rcases List.mem_pair.mp hmem with rfl | rfl
    · exact ⟨_, rfl, rfl⟩
    · exact ⟨_, rfl, rfl⟩
  have hconstant : narrowSums.arena.isConstant 2 = .ok true := by decide +kernel
  obtain ⟨hfolds, -⟩ :=
    foldsTo_of_uniformWidth reachable_narrowSums rfl rfl hconstant huniform hsettle
  rw [hindex] at hfolds
  exact ⟨hfolds, hfolds.optional⟩

end Elaborator

end VerilogExpr
