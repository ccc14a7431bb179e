import VerilogExpr.Elaborator.Step
import VerilogExpr.Proofs.Arena.SharedWidth
import VerilogExpr.Proofs.Elaboration.Outcomes
import VerilogExpr.Proofs.Evaluation.Locality

/-!
# What a context acts through

The type that a context requires has a sign, a mark and a name, and may be real.  None of it goes
further than the record on the expression itself: the operands are handed the type of the
expression, and that depends on the width of the context alone.  So two runs that impose different
types of one width onto an expression go through the same calls, on arenas that differ in one record
which no call reads, and neither does evaluation.
-/

namespace VerilogExpr

namespace DataType

variable {own required required' : DataType}

/-- A type in a context is the type itself, or itself at the width of the context. -/
theorem widened_eq_of_contextWidth (own required : DataType) :
    own.widened required =
      if own.isReal ∨ own.contextWidth required = own.width then own
      else own.resized (own.contextWidth required) := by
  unfold widened contextWidth
  cases own.isReal with
  | true => simp
  | false =>
      cases required.isReal with
      | true => simp
      | false =>
          by_cases hle : required.width ≤ own.width
          · simp [hle]
          · have hmax : max own.width required.width = required.width :=
              Nat.max_eq_right (Nat.le_of_not_le hle)
            have hne : required.width ≠ own.width := fun heq => hle (Nat.le_of_eq heq)
            simp [hle, hmax, hne]

theorem widened_eq_of_contextWidth_eq
    (h : own.contextWidth required = own.contextWidth required') :
    own.widened required = own.widened required' := by
  rw [widened_eq_of_contextWidth, widened_eq_of_contextWidth, h]

theorem contextWidth_eq_width (h : required.isReal = true ∨ required.width ≤ own.width) :
    own.contextWidth required = own.width := by
  unfold contextWidth
  rcases h with hreal | hle
  · rw [if_pos hreal]
  · rw [Nat.max_eq_left hle, ite_self]

end DataType

theorem Node.type_inContext_eq {n : Node} {required required' : DataType}
    (h : n.type.contextWidth required = n.type.contextWidth required') :
    (n.inContext required).type = (n.inContext required').type := by
  cases hforward : n.expr.isForwarding with
  | true =>
      rw [type_inContext_of_forwarding hforward, type_inContext_of_forwarding hforward,
        DataType.widened_eq_of_contextWidth_eq h]
  | false =>
      rw [type_inContext_of_not_forwarding hforward, type_inContext_of_not_forwarding hforward]

namespace Arena

variable {a b c : Arena} {root id : ExprId} {n : Node} {required required' t : DataType}

/-! ### Another record of a context -/

/-- The arena with another type on record as that which the context of `root` requires. -/
def withContext (a : Arena) (root : ExprId) (required : DataType) : Arena :=
  ⟨a.nodes.modify root fun n => { n with required := some required }⟩

theorem nodes_withContext (a : Arena) (root id : ExprId) (required : DataType) :
    (a.withContext root required).nodes[id]? = (a.nodes[id]?).map fun n =>
      if id = root then { n with required := some required } else n := by
  by_cases heq : id = root
  · simp [withContext, Array.getElem?_modify, heq]
  · simp [withContext, Array.getElem?_modify, heq, Ne.symm heq]

theorem nodes_withContext_of_ne (h : id ≠ root) (required : DataType) :
    (a.withContext root required).nodes[id]? = a.nodes[id]? := by
  rw [nodes_withContext]
  simp [h]

theorem type_withContext (a : Arena) (root id : ExprId) (required : DataType) :
    (a.withContext root required).type id = a.type id := by
  unfold type node
  rw [nodes_withContext]
  cases a.nodes[id]? with
  | none => rfl
  | some n =>
      by_cases heq : id = root
      · simp [heq, bind, Except.bind]
      · simp [heq]

theorem replace_withContext_of_ne (h : id ≠ root) (n : Node) (required : DataType) :
    (a.withContext root required).replace id n = (a.replace id n).withContext root required := by
  have hnodes : ∀ other : ExprId, ((a.withContext root required).replace id n).nodes[other]? =
      ((a.replace id n).withContext root required).nodes[other]? := by
    intro other
    simp only [replace, withContext, Array.getElem?_setIfInBounds, Array.getElem?_modify,
      Array.size_modify]
    by_cases hid : id = other
    · subst hid
      simp [h.symm]
    · simp [hid]
  exact congrArg Arena.mk (Array.ext_getElem? hnodes)

/-- Imposing a context onto an older expression does not look at the record. -/
theorem impose_withContext (h : id < root) :
    (a.withContext root required).impose id t =
      (a.impose id t).map fun b => b.withContext root required := by
  -- the operands are older still, so the induction is on the handle, for all arenas at once
  induction id using Nat.strongRecOn generalizing a t with
  | ind id ih =>
      rw [impose]
      conv => rhs; rw [impose]
      rw [nodes_withContext_of_ne (Nat.ne_of_lt h)]
      cases a.nodes[id]? with
      | none => rfl
      | some n =>
          cases hrequired : n.required with
          | some present => simp only [hrequired, Except.map]
          | none =>
              simp only [hrequired]
              rw [replace_withContext_of_ne (Nat.ne_of_lt h)]
              refine foldlM_map_of_commutes (fun b : Arena => b.withContext root required)
                (fun operand _ b => ?_) _
              split
              · rename_i hlt
                exact ih operand hlt (Nat.lt_trans hlt h)
              · rfl

theorem eval_withContext (a : Arena) (root id : ExprId) (required : DataType) :
    (a.withContext root required).eval id = a.eval id := by
  induction id using Nat.strongRecOn with
  | ind id ih =>
      unfold eval
      rw [fold]
      conv => rhs; rw [fold]
      rw [nodes_withContext]
      cases a.nodes[id]? with
      | none => rfl
      | some n =>
          simp only [Option.map_some]
          congr 1
          have hoperands : ∀ operand : ExprId,
              (if operand < id then (a.withContext root required).eval operand
                else Evaluation.stop (.violation (.youngerOperand id operand))) =
              if operand < id then a.eval operand
                else Evaluation.stop (.violation (.youngerOperand id operand)) := by
            intro operand
            split
            · rename_i hlt
              exact ih operand hlt
            · rfl
          refine Eq.trans ?_ (Evaluation.node_eq_of_eq (fun operand _ => hoperands operand)
            fun operand _ => type_withContext a root operand required)
          split <;> rfl

/-! ### Two runs -/

/-- The second arena is the first one but for the type that the context of `root` requires, which
shows in no type and no value. -/
structure SameBut (root : ExprId) (b c : Arena) : Prop where
  nodes_eq : ∀ id, id ≠ root → c.nodes[id]? = b.nodes[id]?
  type_eq : ∀ id, c.type id = b.type id
  eval_eq : ∀ id, c.eval id = b.eval id

theorem sameBut_withContext (b : Arena) (root : ExprId) (required : DataType) :
    SameBut root b (b.withContext root required) where
  nodes_eq _ hne := nodes_withContext_of_ne hne required
  type_eq id := type_withContext b root id required
  eval_eq id := eval_withContext b root id required

/-- Two runs are the same violation, or lead to arenas that are the same but for the context of
`root`. -/
inductive SameRuns {ε : Type} (root : ExprId) : Except ε Arena → Except ε Arena → Prop where
  | violation (e : ε) : SameRuns root (.error e) (.error e)
  | done {b c : Arena} (h : SameBut root b c) : SameRuns root (.ok b) (.ok c)

theorem SameRuns.mapError {ε δ : Type} {x y : Except ε Arena} (h : SameRuns root x y)
    (f : ε → δ) : SameRuns root (x.mapError f) (y.mapError f) := by
  cases h with
  | violation e => exact .violation (f e)
  | done h => exact .done h

theorem impose_eq_map_withContext (hn : a.nodes[root]? = some n) (hnone : n.required = none)
    (hwidth : n.type.contextWidth required = n.type.contextWidth required') :
    a.impose root required' =
      (a.impose root required).map fun b => b.withContext root required' := by
  have htype := Node.type_inContext_eq hwidth
  have hstart : a.replace root (n.inContext required') =
      (a.replace root (n.inContext required)).withContext root required' := by
    have hnodes : ∀ other : ExprId, (a.replace root (n.inContext required')).nodes[other]? =
        ((a.replace root (n.inContext required)).withContext root required').nodes[other]? := by
      intro other
      by_cases heq : other = root
      · subst heq
        rw [nodes_withContext, nodes_replace_self (lt_size_of_node hn),
          nodes_replace_self (lt_size_of_node hn), Option.map_some, if_pos rfl, htype]
        rfl
      · rw [nodes_withContext_of_ne heq, nodes_replace_of_ne heq, nodes_replace_of_ne heq]
    exact congrArg Arena.mk (Array.ext_getElem? hnodes)
  rw [impose]
  conv => rhs; rw [impose]
  simp only [hn, hnone]
  rw [hstart, ← htype]
  refine foldlM_map_of_commutes (fun b : Arena => b.withContext root required')
    (fun operand _ b => ?_) _
  split
  · rename_i hlt
    exact impose_withContext hlt
  · rfl

theorem sameRuns_impose (hn : a.nodes[root]? = some n) (hnone : n.required = none)
    (hwidth : n.type.contextWidth required = n.type.contextWidth required') :
    SameRuns root (a.impose root required) (a.impose root required') := by
  rw [impose_eq_map_withContext hn hnone hwidth]
  cases a.impose root required with
  | error v => exact .violation v
  | ok b => exact .done (sameBut_withContext b root required')

theorem type_of_node (hn : a.nodes[id]? = some n) : a.type id = .ok n.type :=
  type_eq_ok_iff.mpr ⟨lt_size_of_node hn, typeAt_of_node hn⟩

theorem settle_of_node (hn : a.nodes[id]? = some n) : a.settle id = a.impose id n.type := by
  unfold settle
  rw [type_of_node hn]
  rfl

end Arena

/-! ### Steps -/

namespace Elaborator

variable {e : Elaborator} {root : ExprId} {n : Node} {required required' : DataType}

def arenaAfter (e : Elaborator) (step : Step) : Except Stop Arena :=
  (e.step step).outcome.map Prod.snd

def Step.context? : Step → Option (ExprId × DataType)
  | assign target id => some (id, target)
  | connect id width => some (id, .sizedVector .unsigned width)
  | impose id required => some (id, required)
  | _ => none

/-- The report of a context shows the required type, but can fail only over the expression. -/
theorem outcome_reportContext (e : Elaborator) (root : ExprId) (required : DataType) :
    (e.reportContext root required).outcome =
      if e.options.reportContexts then (e.text root).outcome.map fun _ => () else .ok () := by
  unfold reportContext
  split
  · rw [Elaboration.outcome_bind]
    cases (e.text root).outcome <;> rfl
  · rfl

theorem outcome_impose (e : Elaborator) (root : ExprId) (required : DataType) :
    (e.impose root required).outcome = (e.reportContext root required).outcome >>= fun _ =>
      (e.arena.impose root required).mapError .violation := by
  simp only [impose, Elaboration.outcome_bind, Elaboration.outcome_monadLift]
  congr 1
  funext _
  cases e.arena.impose root required <;> rfl

theorem map_outcome_answerDone (x : Elaboration Arena) :
    (answerDone x).outcome.map Prod.snd = x.outcome := by
  rw [answerDone, Elaboration.outcome_bind]
  cases x.outcome <;> rfl

theorem arenaAfter_of_context {step : Step} (h : step.context? = some (root, required)) :
    e.arenaAfter step = (e.impose root required).outcome := by
  cases step with
  | assign target id =>
      obtain ⟨rfl, rfl⟩ := Prod.mk.inj (Option.some.inj h)
      exact map_outcome_answerDone _
  | connect id width =>
      obtain ⟨rfl, rfl⟩ := Prod.mk.inj (Option.some.inj h)
      exact map_outcome_answerDone _
  | impose id required =>
      obtain ⟨rfl, rfl⟩ := Prod.mk.inj (Option.some.inj h)
      exact map_outcome_answerDone _
  | _ => simp [Step.context?] at h

theorem arenaAfter_settle (hn : e.arena.nodes[root]? = some n) :
    e.arenaAfter (.settle root) = (e.impose root n.type).outcome := by
  have hsettle : e.settle root = e.impose root n.type := by
    unfold settle
    rw [Arena.type_of_node hn]
    rfl
  rw [← hsettle]
  exact map_outcome_answerDone _

theorem sameRuns_impose (hn : e.arena.nodes[root]? = some n) (hnone : n.required = none)
    (hwidth : n.type.contextWidth required = n.type.contextWidth required') :
    Arena.SameRuns root (e.impose root required).outcome (e.impose root required').outcome := by
  have himposed := (Arena.sameRuns_impose hn hnone hwidth).mapError Stop.violation
  rw [outcome_impose, outcome_impose, outcome_reportContext, outcome_reportContext]
  generalize (if e.options.reportContexts then (e.text root).outcome.map fun _ => ()
    else Except.ok ()) = report
  cases report with
  | error stop => exact .violation stop
  | ok _ => exact himposed

end Elaborator

namespace Arena

variable {a : Arena} {root : ExprId} {n : Node}

/-- **A context acts through its width.** Let two types be required of an expression that has no
context yet, and let them lead to the same width, where a real type has none to offer.  Then the two
runs are the same violation, or they end in arenas where all types, all values and all contexts but
that of the expression itself are the same.  A context that is no wider than the expression does the
same as settling it.  So it is with the steps of the elaborator too, for instance with the targets
of assignments. -/
theorem sameRuns_of_contextWidth_eq (hn : a.nodes[root]? = some n)
    (hstate : n.state = .constructed) :
    (∀ required required', n.type.contextWidth required = n.type.contextWidth required' →
      SameRuns root (a.impose root required) (a.impose root required')) ∧
    (∀ required : DataType, required.isReal = true ∨ required.width ≤ n.type.width →
      SameRuns root (a.settle root) (a.impose root required)) ∧
    ∀ (e : Elaborator) (step : Elaborator.Step) (required : DataType), e.arena = a →
      step.context? = some (root, required) →
      (∀ (step' : Elaborator.Step) (required' : DataType),
        step'.context? = some (root, required') →
        n.type.contextWidth required = n.type.contextWidth required' →
          SameRuns root (e.arenaAfter step) (e.arenaAfter step')) ∧
      (required.isReal = true ∨ required.width ≤ n.type.width →
        SameRuns root (e.arenaAfter (.settle root)) (e.arenaAfter step)) := by
  have hnone : n.required = none := by
    cases hrequired : n.required with
    | none => rfl
    | some required => simp [Node.state, hrequired] at hstate
  have hown : ∀ {required : DataType}, required.isReal = true ∨ required.width ≤ n.type.width →
      n.type.contextWidth n.type = n.type.contextWidth required := by
    intro required hnarrow
    rw [DataType.contextWidth_eq_width hnarrow,
      DataType.contextWidth_eq_width (Or.inr (Nat.le_refl _))]
  refine ⟨fun required required' hwidth => sameRuns_impose hn hnone hwidth, ?settled, ?steps⟩
  case settled =>
    intro required hnarrow
    rw [settle_of_node hn]
    exact sameRuns_impose hn hnone (hown hnarrow)
  case steps =>
    rintro e step required rfl hstep
    rw [Elaborator.arenaAfter_of_context hstep]
    constructor
    · intro step' required' hstep' hwidth
      rw [Elaborator.arenaAfter_of_context hstep']
      exact Elaborator.sameRuns_impose hn hnone hwidth
    · intro hnarrow
      rw [Elaborator.arenaAfter_settle hn]
      exact Elaborator.sameRuns_impose hn hnone (hown hnarrow)

/-- The type and the value of `(4'hf + 4'h1) + 8'h0` do not depend on the sign of a target. -/
theorem sameRuns_mixedSum :
    ∃ b c, mixedSum.impose 4 (.sizedVector .unsigned 16) = .ok b ∧
      mixedSum.impose 4 (.sizedVector .signed 16) = .ok c ∧ SameBut 4 b c := by
  have hnode : mixedSum.nodes[4]? =
      some ⟨.binary (.arith .add) 2 3, .sizedVector .unsigned 8, none⟩ := rfl
  obtain ⟨⟨b, hb⟩, -⟩ := exists_impose_mixedSum
  have hruns := (sameRuns_of_contextWidth_eq hnode rfl).1 (.sizedVector .unsigned 16)
    (.sizedVector .signed 16) rfl
  rw [hb] at hruns
  generalize mixedSum.impose 4 (.sizedVector .signed 16) = other at hruns ⊢
  cases hruns with
  | done h => exact ⟨b, _, hb, rfl, h⟩

end Arena

end VerilogExpr
