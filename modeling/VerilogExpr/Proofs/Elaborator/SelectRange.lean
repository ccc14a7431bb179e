import VerilogExpr.Proofs.Elaboration.Warnings
import VerilogExpr.Proofs.Elaborator.Moves
import VerilogExpr.Proofs.Evaluation.Selects

/-!
# Selects outside the declared range

A select with constant bounds is compared with the declared range twice.  The elaborator looks for a
bound outside the range as it builds the select, and warns of the first one it finds.  Evaluation
asks whether both bounds lie in the range, after it has looked at the value.  The two can only
differ if the bounds that are built are not those that are warned of, or if evaluation fails for
another reason.  Neither happens for a constant whose value has bits.
-/

namespace VerilogExpr

/-- The warnings of a select with the given bounds: one of the first bound outside the range. -/
def Declaration.rangeWarnings (d : Declaration) (bounds : BitRange) : List Diagnostic :=
  ([bounds.left, bounds.right].find? fun i => !d.bitRange.contains i).toList.map fun i =>
    outsideWarning d i d.bitRange.text

namespace Declaration

variable {d : Declaration} {bounds : BitRange} {v : Value}

/-- A select is warned of once, or it stays inside the range. -/
theorem rangeWarnings_cases (d : Declaration) (bounds : BitRange) :
    d.rangeWarnings bounds = [] ∧ d.bitRange.contains bounds.left = true ∧
        d.bitRange.contains bounds.right = true ∨
      ∃ i, d.rangeWarnings bounds = [outsideWarning d i d.bitRange.text] ∧
        bounds.contains i = true ∧ d.bitRange.contains i = false := by
  cases hleft : d.bitRange.contains bounds.left with
  | false => exact .inr ⟨bounds.left, by simp [rangeWarnings, hleft], bounds.left_mem, hleft⟩
  | true =>
      cases hright : d.bitRange.contains bounds.right with
      | false =>
          exact .inr ⟨bounds.right, by simp [rangeWarnings, hleft, hright], bounds.right_mem,
            hright⟩
      | true => exact .inl ⟨by simp [rangeWarnings, hleft, hright], rfl, rfl⟩

/-- A select of a constant that leaves the range fails for that reason. -/
theorem select_eq_outside {i : Int} (hconstant : d.constantValue? = some v)
    (hi : bounds.contains i = true) (hout : d.bitRange.contains i = false) :
    d.select (some bounds) = .error (.failure (.selectOutside d)) := by
  have hboth : (d.bitRange.contains bounds.left && d.bitRange.contains bounds.right) = false := by
    by_contra hnot
    have hall := BitRange.bounds_mem_iff.mp (Bool.eq_true_of_not_eq_false hnot)
    exact absurd ((hall i hi).symm.trans hout) (by simp)
  simp only [select, hconstant, hboth, Bool.false_eq_true, if_false]

end Declaration

namespace Arena

variable {a b : Arena} {id : ExprId} {d : Declaration} {bounds : BitRange}

def SelectsFixed (a : Arena) (id : ExprId) (d : Declaration) (bounds : BitRange) : Prop :=
  (∃ i, a.HasExpr id (.bitSelect d (.fixed i)) ∧ bounds = ⟨i, i⟩) ∨
    a.HasExpr id (.partSelect d (.fixed bounds.left bounds.right))

theorem SelectsFixed.of_evolves (h : a.SelectsFixed id d bounds) (hevolves : a.Evolves b) :
    b.SelectsFixed id d bounds := by
  rcases h with ⟨i, hexpr, hbounds⟩ | hexpr
  · exact .inl ⟨i, hevolves.hasExpr hexpr, hbounds⟩
  · exact .inr (hevolves.hasExpr hexpr)

/-- Evaluation of a select asks the declaration for the bits between the bounds, and can fail in no
other way. -/
theorem Reachable.outcome_of_selectsFixed (h : a.Reachable)
    (hselects : a.SelectsFixed id d bounds) :
    ∃ value : Nat × Nat → Value, (a.eval id).outcome = (d.select (some bounds)).map value := by
  rcases hselects with ⟨i, hexpr, rfl⟩ | hexpr
  · exact ⟨_, h.outcome_of_selectsBit ⟨_, hexpr, rfl⟩⟩
  · exact ⟨_, h.outcome_of_selectsPart (.of_fixed hexpr)⟩

theorem SelectsFixed.lt_size (h : a.SelectsFixed id d bounds) : id < a.size := by
  rcases h with ⟨i, ⟨n, hn, -⟩, -⟩ | ⟨n, hn, -⟩
  · exact lt_size_of_node hn
  · exact lt_size_of_node hn

end Arena

namespace Elaborator

open Elaboration

variable {e : Elaborator} {id index base : ExprId} {d : Declaration} {bounds : BitRange}

/-! ### Steps that warn of nothing -/

theorem unwarned_rejectExpr {α : Type} (id : ExprId) (reason : String → Rejection) :
    (e.rejectExpr id reason : Elaboration α).Unwarned :=
  (unwarned_monadLift _).bind fun _ => unwarned_reject _

theorem unwarned_demandIntegral (role : OperandRole) (id : ExprId) :
    (e.demandIntegral role id).Unwarned := by
  refine (unwarned_monadLift _).bind fun type => ?_
  split
  · exact unwarned_rejectExpr id _
  · exact unwarned_pure ()

theorem unwarned_demandSelectable (d : Declaration) : (demandSelectable d).Unwarned := by
  unfold demandSelectable
  split
  · exact unwarned_reject _
  · exact unwarned_pure ()

theorem unwarned_reportValue (id : ExprId) (v : Value) : (e.reportValue id v).Unwarned := by
  unfold reportValue
  split
  · exact (unwarned_monadLift _).bind fun _ => unwarned_report (by simp [valueNote])
  · exact unwarned_pure ()

theorem unwarned_reportType (arena : Arena) (id : ExprId) : (e.reportType arena id).Unwarned := by
  unfold reportType
  split
  · exact (unwarned_monadLift _).bind fun _ => (unwarned_monadLift _).bind fun _ =>
      unwarned_report (by simp [typeNote])
  · exact unwarned_pure ()

theorem unwarned_evaluateIndex (id : ExprId) : (e.evaluateIndex id).Unwarned := by
  have hevaluate : (e.evaluate id).Unwarned :=
    (unwarned_ofEvaluation _).bind fun v => (unwarned_reportValue id v).bind fun _ =>
      unwarned_pure v
  refine hevaluate.bind fun v => ?_
  split
  · exact unwarned_pure _
  · exact unwarned_rejectExpr id _

theorem unwarned_constantIndex (role : OperandRole) (id : ExprId) :
    (e.constantIndex role id).Unwarned := by
  refine Unwarned.bind (unwarned_monadLift _) fun constant => ?_
  split
  · exact unwarned_evaluateIndex id
  · exact unwarned_rejectExpr id _

theorem unwarned_constantIndex? (id : ExprId) : (e.constantIndex? id).Unwarned := by
  refine Unwarned.bind (unwarned_monadLift _) fun constant => ?_
  split
  · exact (unwarned_evaluateIndex id).bind fun _ => unwarned_pure _
  · exact unwarned_pure _

theorem unwarned_build (expr : Expr) : (e.build expr).Unwarned :=
  (unwarned_monadLift _).bind fun arena => (unwarned_log _).bind fun _ =>
    (unwarned_reportType arena _).bind fun _ => unwarned_pure arena

/-! ### Selects and their warnings -/

theorem warnings_warnSelect (h : e.options.warnSelectRange = true) (d : Declaration)
    (indices : List Int) :
    (e.warnSelect d indices).warnings =
      (indices.find? fun i => !d.bitRange.contains i).toList.map fun i =>
        outsideWarning d i d.bitRange.text := by
  unfold warnSelect
  cases indices.find? fun i => !d.bitRange.contains i with
  | none => rfl
  | some i =>
      simp only [warnOutside, reportIf, h, if_true]
      rfl

def SelectsAndWarns (e : Elaborator) (d : Declaration) (c : Arena) (warned : List Diagnostic) :
    Prop :=
  ∃ bounds, c.SelectsFixed e.arena.size d bounds ∧ warned = d.rangeWarnings bounds

theorem warns_fixedBit (h : e.options.warnSelectRange = true) (d : Declaration) (i : Int) :
    (do e.warnSelect d [i]; e.build (.bitSelect d (.fixed i))).Warns (e.SelectsAndWarns d) := by
  intro c hc
  obtain ⟨hadd, hwarned⟩ := warns_of_bind (unwarned_build _) (yields_add _) c hc
  refine ⟨⟨i, i⟩, .inl ⟨i, (Arena.add_eq_ok_iff.mp hadd).hasExpr, rfl⟩, ?_⟩
  rw [hwarned, warnings_warnSelect h, Declaration.rangeWarnings]
  cases hcontains : d.bitRange.contains i <;> simp [hcontains]

theorem warns_fixedPart (h : e.options.warnSelectRange = true) (d : Declaration) (l r : Int) :
    (do e.warnSelect d [l, r]; e.build (.partSelect d (.fixed l r))).Warns
      (e.SelectsAndWarns d) := by
  intro c hc
  obtain ⟨hadd, hwarned⟩ := warns_of_bind (unwarned_build _) (yields_add _) c hc
  refine ⟨⟨l, r⟩, .inr (Arena.add_eq_ok_iff.mp hadd).hasExpr, ?_⟩
  rw [hwarned, warnings_warnSelect h, Declaration.rangeWarnings]

/-- A constant index has a value, or the step stops. -/
theorem yields_constantIndex? (hconstant : e.arena.isConstant index = .ok true) :
    (e.constantIndex? index).Yields fun i? => ∃ i, i? = some i := by
  refine (yields_monadLift _).bind fun constant h => ?_
  obtain rfl : true = constant := Except.ok.inj (hconstant.symm.trans h)
  exact .of_last fun i => .pure ⟨i, rfl⟩

theorem warns_rejectExpr {α : Type} (Q : α → List Diagnostic → Prop) (id : ExprId)
    (reason : String → Rejection) : (e.rejectExpr id reason).Warns Q :=
  (unwarned_monadLift _).warns_bind fun _ _ => warns_reject Q _

theorem warns_bitSelect (h : e.options.warnSelectRange = true) (d : Declaration)
    (hconstant : e.arena.isConstant index = .ok true) :
    (e.bitSelect d index).Warns (e.SelectsAndWarns d) := by
  refine (unwarned_demandSelectable d).warns_bind fun _ _ => ?_
  refine (unwarned_demandIntegral _ index).warns_bind fun _ _ => ?_
  refine (unwarned_constantIndex? index).warns_bind fun i? hi => ?_
  obtain ⟨i, rfl⟩ := yields_constantIndex? hconstant i? hi
  exact warns_fixedBit h d i

theorem warns_partSelect (h : e.options.warnSelectRange = true) (d : Declaration)
    (left right : ExprId) : (e.partSelect d left right).Warns (e.SelectsAndWarns d) := by
  refine (unwarned_demandSelectable d).warns_bind fun _ _ => ?_
  have hbounds := unwarned_both (unwarned_constantIndex (e := e) .partSelectBound left)
    (unwarned_constantIndex (e := e) .partSelectBound right)
  refine hbounds.warns_bind fun (l, r) _ => ?_
  dsimp only
  split
  · exact warns_fixedPart h d l r
  · exact warns_reject _ _

theorem warns_indexedSelect (h : e.options.warnSelectRange = true) (d : Declaration)
    (hconstant : e.arena.isConstant base = .ok true) (direction : SelectDirection)
    (width : ExprId) :
    (e.indexedSelect d base direction width).Warns (e.SelectsAndWarns d) := by
  refine (unwarned_demandSelectable d).warns_bind fun _ _ => ?_
  refine (unwarned_demandIntegral _ base).warns_bind fun _ _ => ?_
  refine (unwarned_constantIndex _ width).warns_bind fun w _ => ?_
  split
  · exact warns_rejectExpr _ width _
  · refine (unwarned_constantIndex? base).warns_bind fun b? hb => ?_
    obtain ⟨b, rfl⟩ := yields_constantIndex? hconstant b? hb
    exact (unwarned_monadLift _).warns_bind fun bounds _ =>
      warns_fixedPart h d bounds.left bounds.right

/-- The step selects bits of the declaration, at places that are all constant. -/
def Step.SelectsByConstants (a : Arena) (d : Declaration) : Step → Prop
  | bitSelect d' index => d' = d ∧ a.isConstant index = .ok true
  | partSelect d' _ _ => d' = d
  | indexedSelect d' base _ _ => d' = d ∧ a.isConstant base = .ok true
  | _ => False

theorem warns_answerExpr {x : Elaboration Arena} {Q : Arena → List Diagnostic → Prop}
    (hx : x.Warns Q) : (e.answerExpr x).Warns fun answer warned =>
      answer.1 = .expr e.arena.size ∧ Q answer.2 warned :=
  Warns.bind_pure fun c hc => ⟨rfl, hx c hc⟩

theorem outcome_answerExpr {x : Elaboration Arena} {c : Arena} (h : x.outcome = .ok c) :
    (e.answerExpr x).outcome = .ok (.expr e.arena.size, c) := by
  unfold answerExpr
  rw [outcome_bind, h]
  rfl

theorem warns_step {step : Step} (h : e.options.warnSelectRange = true)
    (hselects : step.SelectsByConstants e.arena d) :
    (e.step step).Warns fun answer warned =>
      answer.1 = .expr e.arena.size ∧ e.SelectsAndWarns d answer.2 warned := by
  cases step with
  | bitSelect d' index =>
      obtain ⟨rfl, hconstant⟩ := hselects
      exact warns_answerExpr (warns_bitSelect h d' hconstant)
  | partSelect d' left right =>
      obtain rfl : d' = d := hselects
      exact warns_answerExpr (warns_partSelect h d' left right)
  | indexedSelect d' base direction width =>
      obtain ⟨rfl, hconstant⟩ := hselects
      exact warns_answerExpr (warns_indexedSelect h d' hconstant direction width)
  | _ => exact hselects.elim

/-- **The warning predicts the failure.** Take a constant whose value is an integer or a finite
real, and let the elaborator build a select of it at constant places, with warnings of selects
turned on.  It warns at most once, of a bound outside the range.  Whatever is done to the arena from
then on, evaluation of the select fails because the select leaves the range exactly if there was a
warning, and otherwise finds a value of the type that the select has. -/
theorem selectOutside_iff_warned {step : Step} {v : Value} {c : Arena}
    (h : e.arena.Reachable) (hwarn : e.options.warnSelectRange = true)
    (hconstant : d.isConstant = true) (hvalue : d.value = some v) (hfinite : v.IsFinite)
    (hselects : step.SelectsByConstants e.arena d)
    (hstep : (e.step step).outcome = .ok (.expr id, c)) :
    ((e.step step).warnings = [] ∨ ∃ i, d.bitRange.contains i = false ∧
      (e.step step).warnings = [outsideWarning d i d.bitRange.text]) ∧
    ∀ actions b, c.run actions = .ok b →
      ((b.eval id).outcome = .error (.failure (.selectOutside d)) ↔
        (e.step step).warnings ≠ []) ∧
      ((e.step step).warnings = [] → ∃ u, (b.eval id).outcome = .ok u ∧
        b.type id = .ok u.type ∧ u.type.Holds u.number) := by
  obtain ⟨hid, bounds, hfixed, hwarned⟩ := warns_step hwarn hselects _ hstep
  obtain rfl : id = e.arena.size := Answer.expr.inj hid
  have hc : c.Reachable := h.of_moves (yields_step step _ hstep)
  have hread := Declaration.constantValue?_eq_some hconstant hvalue
  obtain ⟨n, hint⟩ := hfinite.exists_toInt?
  have hlater : ∀ {actions b}, c.run actions = .ok b → b.Reachable ∧
      b.SelectsFixed e.arena.size d bounds :=
    fun hrun => ⟨hc.of_run hrun, hfixed.of_evolves (Arena.evolves_of_run hrun)⟩
  rw [hwarned]
  rcases d.rangeWarnings_cases bounds with ⟨hnone, hleft, hright⟩ | ⟨i, hsome, hi, hout⟩
  · refine ⟨.inl hnone, fun actions b hrun => ?_⟩
    obtain ⟨hb, hbits⟩ := hlater hrun
    obtain ⟨offset, hoffset⟩ := BitRange.exists_lsbOffset? hright
    obtain ⟨value, houtcome⟩ := hb.outcome_of_selectsFixed hbits
    rw [Declaration.select_eq_ok hread hint hleft hoffset] at houtcome
    refine ⟨?_, fun _ => ⟨_, houtcome, (hb.eval_sound hbits.lt_size).2 _ houtcome⟩⟩
    rw [houtcome, hnone]
    exact iff_of_false (fun herror => by cases herror) fun hne => hne rfl
  · refine ⟨.inr ⟨i, hout, hsome⟩, fun actions b hrun => ?_⟩
    obtain ⟨hb, hbits⟩ := hlater hrun
    obtain ⟨value, houtcome⟩ := hb.outcome_of_selectsFixed hbits
    rw [Declaration.select_eq_outside hread hi hout] at houtcome
    have hne : d.rangeWarnings bounds ≠ [] := by simp [hsome]
    exact ⟨iff_of_true houtcome hne, fun hnil => absurd hnil hne⟩

/-- An elaborator that has built `5` and `4` for selects of `parameter [0:7] p = 178`. -/
def ascendingBounds : Elaborator where
  options := .standard
  arena := ⟨#[⟨.literal (.truncated .integer 5), .integer, none⟩,
    ⟨.literal (.truncated .integer 4), .integer, none⟩]⟩

theorem reachable_ascendingBounds : ascendingBounds.arena.Reachable := by
  refine ⟨ascendingBounds.arena.nodes.toList.map fun n => .add n.expr, ?_⟩
  decide +kernel

def ascendingPart (left right : Int) : Arena :=
  ascendingBounds.arena.push (.partSelect Arena.ascending (.fixed left right))
    (.sizedVector .unsigned 4)

/-- `p[5 +: 4]` reaches up to 8 and is warned of; `p[5 -: 4]` is not. -/
theorem selectOutside_iff_warned_ascending :
    ((ascendingPart 5 8).eval 2).outcome = .error (.failure (.selectOutside Arena.ascending)) ∧
      ∃ u, ((ascendingPart 2 5).eval 2).outcome = .ok u ∧
        (ascendingPart 2 5).type 2 = .ok u.type := by
  have hreachable := reachable_ascendingBounds
  have hfinite : Value.IsFinite ⟨.sizedVector .unsigned 8, .integer 178⟩ := by
    intro x hx
    cases hx
  have hselects : ∀ direction, (Step.indexedSelect Arena.ascending 0 direction 1).SelectsByConstants
      ascendingBounds.arena Arena.ascending := fun _ => ⟨rfl, by decide +kernel⟩
  have hbuilt : ∀ direction left right,
      (ascendingBounds.indexedSelect Arena.ascending 0 direction 1).outcome =
        .ok (ascendingPart left right) →
      (ascendingBounds.step (.indexedSelect Arena.ascending 0 direction 1)).outcome =
        .ok (.expr 2, ascendingPart left right) := fun _ _ _ h => outcome_answerExpr h
  constructor
  · have hup := hbuilt .upward 5 8 (by decide +kernel)
    obtain ⟨-, hlater⟩ :=
      selectOutside_iff_warned hreachable rfl rfl rfl hfinite (hselects .upward) hup
    exact (hlater [] _ rfl).1.mpr (by decide +kernel)
  · have hdown := hbuilt .downward 2 5 (by decide +kernel)
    obtain ⟨-, hlater⟩ :=
      selectOutside_iff_warned hreachable rfl rfl rfl hfinite (hselects .downward) hdown
    obtain ⟨u, hu, htype, -⟩ := (hlater [] _ rfl).2 (by decide +kernel)
    exact ⟨u, hu, htype⟩

end Elaborator

end VerilogExpr
