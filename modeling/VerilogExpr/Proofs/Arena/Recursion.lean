import VerilogExpr.Proofs.Arena.Reach
import VerilogExpr.Proofs.Arena.Text
import VerilogExpr.Proofs.Evaluation.Locality

/-!
# Recursions over an arena

Evaluation, constancy, text, dumps and contexts all go from an expression to its operands.  Their
definitions compare handles on the way, so they end in any arena.  An ordered arena has no need of
that.  `Arena.unroll` and `Arena.imposeWithin` follow operands wherever these lead, as many levels
down as they are told; what they answer below the last level, and for a handle that names nothing,
is left open.  With more levels than the handle counts it does not matter what that answer is: no
recursion gets that deep, and none comes to a handle that names nothing.
-/

namespace VerilogExpr

/-- The text of an expression depends on the text of its operands only. -/
theorem Expr.text_eq_of_eq {e : Expr}
    {plain wrapped plain' wrapped' : ExprId → Except Violation String}
    (hplain : ∀ operand ∈ e.operands, plain operand = plain' operand)
    (hwrapped : ∀ operand ∈ e.operands, wrapped operand = wrapped' operand) :
    e.text plain wrapped = e.text plain' wrapped' := by
  cases e with
  | literal value => rfl
  | reference d => rfl
  | bitSelect d index =>
      cases index with
      | fixed index => rfl
      | computed index =>
          have hindex := hplain index (by simp [operands, BitIndex.operands])
          simp only [text, BitIndex.text, hindex]
  | partSelect d bounds =>
      cases bounds with
      | fixed left right => rfl
      | indexed base direction width =>
          have hbase := hplain base (by simp [operands, PartBounds.operands])
          simp only [text, PartBounds.text, hbase]
  | element d indices =>
      have hindices : indices.mapM plain = indices.mapM plain' := mapM_eq_of_eq hplain
      simp only [text, hindices]
  | unary op x => simp only [text, hwrapped x (by simp [operands])]
  | binary op x y =>
      simp only [text, hwrapped x (by simp [operands]), hwrapped y (by simp [operands])]
  | ternary op x y z =>
      simp only [text, hwrapped x (by simp [operands]), hwrapped y (by simp [operands]),
        hwrapped z (by simp [operands])]
  | concat operands =>
      have htexts : operands.mapM plain = operands.mapM plain' := mapM_eq_of_eq hplain
      simp only [text, htexts]
  | replicate count operands =>
      have htexts : operands.mapM plain = operands.mapM plain' := mapM_eq_of_eq hplain
      simp only [text, htexts]

namespace Arena

variable {a b : Arena} {id operand : ExprId} {n : Node} {depth : Nat} {β : Type}

/-! ### Recursions that compute a result -/

/-- The recursion of `Arena.fold` without the comparison of handles, cut off below a depth. -/
def unroll (a : Arena) (cut : ExprId → β) (visit : ExprId → Node → (ExprId → β) → β) :
    Nat → ExprId → β
  | 0, id => cut id
  | depth + 1, id =>
    match a.nodes[id]? with
    | none => cut id
    | some n => visit id n (a.unroll cut visit depth)

def AsksOperands (visit : ExprId → Node → (ExprId → β) → β) : Prop :=
  ∀ id n f g, (∀ operand ∈ n.expr.operands, f operand = g operand) → visit id n f = visit id n g

/-- In an ordered arena the comparison of handles is idle, and a depth beyond the handle is never
used up. -/
theorem Ordered.unroll_eq_fold (h : a.Ordered) {visit : ExprId → Node → (ExprId → β) → β}
    (hasks : AsksOperands visit) (cut : ExprId → β) (violation : Violation → β)
    (hid : id < a.size) (hdepth : id < depth) :
    a.unroll cut visit depth id = a.fold violation visit id := by
  induction id using Nat.strongRecOn generalizing depth with
  | ind id ih =>
      obtain ⟨n, hn⟩ := exists_node hid
      cases depth with
      | zero => exact absurd hdepth (Nat.not_lt_zero id)
      | succ depth =>
          rw [unroll, fold]
          simp only [hn]
          refine hasks id n _ _ fun operand hmem => ?_
          have holder : operand < id := h id n hn operand hmem
          rw [if_pos holder]
          exact ih operand holder (Nat.lt_trans holder hid)
            (Nat.lt_of_lt_of_le holder (Nat.le_of_lt_succ hdepth))

def evalWithin (a : Arena) (cut : ExprId → Evaluation Value) : Nat → ExprId → Evaluation Value :=
  a.unroll cut fun id n operand => do
    let value ← Evaluation.node a operand n
    Evaluation.record id value
    return value

def isConstantWithin (a : Arena) (cut : ExprId → Except Violation Bool) :
    Nat → ExprId → Except Violation Bool :=
  a.unroll cut fun _ n operandIsConstant =>
    if (n.expr.declaration?.map Declaration.isConstant).getD true then
      n.expr.operands.allM operandIsConstant
    else .ok false

def textWithin (a : Arena) (cut : ExprId → Except Violation String) :
    Nat → ExprId → Except Violation String :=
  a.unroll cut fun _ n textOf => n.expr.text textOf (a.wrap textOf)

def listWithin (a : Arena) (cut : ExprId → List ExprId → Except Violation (List ExprId)) :
    Nat → ExprId → List ExprId → Except Violation (List ExprId) :=
  a.unroll cut fun id n list listed =>
    if id ∈ listed then .ok listed
    else do
      let listed ← n.expr.operands.foldlM (fun listed operand => list operand listed) listed
      return listed ++ [id]

def dumpWithin (a : Arena) (cut : ExprId → List ExprId → Except Violation (List ExprId))
    (depth : Nat) (id : ExprId) : Except Violation String := do
  let ids ← a.listWithin cut depth id []
  let lines ← ids.mapM a.dumpLine
  return String.join lines

theorem Ordered.evalWithin_eq (h : a.Ordered) (cut : ExprId → Evaluation Value)
    (hid : id < a.size) (hdepth : id < depth) : a.evalWithin cut depth id = a.eval id := by
  refine h.unroll_eq_fold (fun id n f g hoperands => ?_) cut _ hid hdepth
  have hnode : Evaluation.node a f n = Evaluation.node a g n :=
    Evaluation.node_eq_of_eq hoperands fun _ _ => rfl
  simp only [hnode]

theorem Ordered.isConstantWithin_eq (h : a.Ordered) (cut : ExprId → Except Violation Bool)
    (hid : id < a.size) (hdepth : id < depth) :
    a.isConstantWithin cut depth id = a.isConstant id := by
  refine h.unroll_eq_fold (fun id n f g hoperands => ?_) cut _ hid hdepth
  simp only [allM_eq_of_eq hoperands]

theorem Ordered.textWithin_eq (h : a.Ordered) (cut : ExprId → Except Violation String)
    (hid : id < a.size) (hdepth : id < depth) : a.textWithin cut depth id = a.text id := by
  refine h.unroll_eq_fold (fun id n f g hoperands => ?_) cut _ hid hdepth
  refine Expr.text_eq_of_eq hoperands fun operand hmem => ?_
  simp only [wrap, hoperands operand hmem]

theorem Ordered.listWithin_eq (h : a.Ordered)
    (cut : ExprId → List ExprId → Except Violation (List ExprId)) (hid : id < a.size)
    (hdepth : id < depth) : a.listWithin cut depth id = a.listAfter id := by
  refine h.unroll_eq_fold (fun id n f g hoperands => ?_) cut _ hid hdepth
  funext listed
  have hlisted : n.expr.operands.foldlM (fun listed operand => f operand listed) listed =
      n.expr.operands.foldlM (fun listed operand => g operand listed) listed :=
    foldlM_eq_of_eq (fun operand hmem listed => by rw [hoperands operand hmem]) listed
  simp only [hlisted]

theorem Ordered.dumpWithin_eq (h : a.Ordered)
    (cut : ExprId → List ExprId → Except Violation (List ExprId)) (hid : id < a.size)
    (hdepth : id < depth) : a.dumpWithin cut depth id = a.dump id := by
  simp only [dumpWithin, h.listWithin_eq cut hid hdepth]
  rfl

/-! ### Contexts -/

def imposeWithin (cut : ExprId → Except Violation Arena) :
    Nat → Arena → ExprId → DataType → Except Violation Arena
  | 0, _, id, _ => cut id
  | depth + 1, a, id, required =>
    match a.nodes[id]? with
    | none => cut id
    | some n =>
      match n.required with
      | some present => .error (.secondContext required id present)
      | none =>
        n.expr.forwarded.foldlM
          (fun b operand => imposeWithin cut depth b operand (n.inContext required).type)
          (a.replace id (n.inContext required))

theorem Ordered.of_impose {required : DataType} (h : a.Ordered)
    (himpose : a.impose id required = .ok b) : b.Ordered ∧ b.size = a.size := by
  have hrun := imposes_singleton_iff.mpr himpose
  exact ⟨h.of_evolves hrun.evolves hrun.size_eq, hrun.size_eq⟩

theorem Ordered.imposeWithin_eq (h : a.Ordered) (cut : ExprId → Except Violation Arena)
    (hid : id < a.size) (hdepth : id < depth) (required : DataType) :
    imposeWithin cut depth a id required = a.impose id required := by
  induction id using Nat.strongRecOn generalizing a depth required with
  | ind id ih =>
      obtain ⟨n, hn⟩ := exists_node hid
      cases depth with
      | zero => exact absurd hdepth (Nat.not_lt_zero id)
      | succ depth =>
          rw [imposeWithin, impose]
          simp only [hn]
          cases hrequired : n.required with
          | some present => rfl
          | none =>
              simp only
              have hgrown := evolves_replace hn hrequired required
              -- the arena changes from operand to operand, but stays ordered and keeps its size
              refine foldlM_eq_of_invariant (P := fun b => b.Ordered ∧ b.size = a.size)
                (fun operand hmem b hb => ?_) (fun operand hmem b c hb himpose => ?_)
                ⟨h.of_evolves hgrown (size_replace _ _ _), size_replace _ _ _⟩
              · have hlt := h.forwarded_lt hn hmem
                rw [if_pos hlt]
                exact ih operand hlt hb.1 (hb.2 ▸ Nat.lt_trans hlt hid)
                  (Nat.lt_of_lt_of_le hlt (Nat.le_of_lt_succ hdepth)) _
              · rw [if_pos (h.forwarded_lt hn hmem)] at himpose
                obtain ⟨hc, hsize⟩ := hb.1.of_impose himpose
                exact ⟨hc, hsize.trans hb.2⟩

/-- The only violation that a context can end in is that one of the expressions it reaches has a
context already. -/
theorem Ordered.impose_eq_error {required : DataType} {v : Violation} (h : a.Ordered)
    (hid : id < a.size) (herror : a.impose id required = .error v) :
    ∃ t other present, v = .secondContext t other present ∧ other ∈ a.reach id := by
  induction id using Nat.strongRecOn generalizing a required with
  | ind id ih =>
      obtain ⟨n, hn⟩ := exists_node hid
      rw [h.reach_eq hn]
      rw [impose] at herror
      simp only [hn] at herror
      cases hrequired : n.required with
      | some present =>
          simp only [hrequired] at herror
          exact ⟨required, id, present, (Except.error.inj herror).symm, List.mem_cons_self⟩
      | none =>
          simp only [hrequired] at herror
          have hgrown := evolves_replace hn hrequired required
          have hsize := size_replace a id (n.inContext required)
          have hkept : ∀ operand ∈ n.expr.forwarded, ∀ b c : Arena,
              b.Ordered ∧ a.Evolves b ∧ b.size = a.size →
              (if operand < id then b.impose operand (n.inContext required).type
                else .error (.youngerOperand id operand)) = .ok c →
              c.Ordered ∧ a.Evolves c ∧ c.size = a.size := by
            intro operand hmem b c ⟨hb, hevolves, hbsize⟩ himpose
            rw [if_pos (h.forwarded_lt hn hmem)] at himpose
            obtain ⟨hc, hcsize⟩ := hb.of_impose himpose
            exact ⟨hc, hevolves.trans (imposes_singleton_iff.mpr himpose).evolves,
              hcsize.trans hbsize⟩
          obtain ⟨operand, hmem, b, ⟨hb, hevolves, hbsize⟩, hfails⟩ :=
            exists_of_foldlM_eq_error hkept ⟨h.of_evolves hgrown hsize, hgrown, hsize⟩ herror
          have hlt := h.forwarded_lt hn hmem
          have hoperand := Nat.lt_trans hlt hid
          rw [if_pos hlt] at hfails
          obtain ⟨t, other, present, hv, hreached⟩ := ih operand hlt hb (hbsize ▸ hoperand) hfails
          rw [hevolves.reach_eq h hb hoperand] at hreached
          exact ⟨t, other, present, hv,
            List.mem_cons_of_mem _ (List.mem_flatMap.mpr ⟨operand, hmem, hreached⟩)⟩

end Arena

end VerilogExpr
