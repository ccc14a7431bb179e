import Mathlib.Tactic.Common
import VerilogExpr.Proofs.Arena.Evolution

/-!
# Imposing contexts, one expression at a time

`Arena.impose` recurses into the operands of an expression, and its recursion hides the order in
which expressions are reached.  `Arena.Imposes` is the same run with the contexts that are still to
be imposed written out as a list: a step takes the first one, and the contexts of the operands go
in front of the others.  An invariant of such a run is an invariant of a single step.
-/

namespace VerilogExpr

def Node.handedOn (n : Node) : List (ExprId × DataType) :=
  n.expr.forwarded.map fun operand => (operand, n.type)

namespace Arena

variable {a b c : Arena} {id : ExprId} {n : Node} {t required : DataType}
  {contexts rest : List (ExprId × DataType)}

def imposeAll (a : Arena) (contexts : List (ExprId × DataType)) : Except Violation Arena :=
  contexts.foldlM (fun b context => b.impose context.1 context.2) a

/-- Imposing the listed contexts, in order, leads from the first arena to the second. -/
inductive Imposes : Arena → List (ExprId × DataType) → Arena → Prop where
  | done (a : Arena) : Imposes a [] a
  | step {a b : Arena} {id : ExprId} {n : Node} {required : DataType}
      {rest : List (ExprId × DataType)} (hn : a.nodes[id]? = some n)
      (hrequired : n.required = none) (holder : ∀ operand ∈ n.expr.forwarded, operand < id)
      (hrest : Imposes (a.replace id (n.inContext required))
        ((n.inContext required).handedOn ++ rest) b) :
      Imposes a ((id, required) :: rest) b

theorem imposeAll_cons_eq_ok_iff :
    a.imposeAll ((id, required) :: rest) = .ok c ↔
      ∃ b, a.impose id required = .ok b ∧ b.imposeAll rest = .ok c := by
  simp only [imposeAll, List.foldlM_cons, bind_eq_ok_iff]

theorem imposeAll_append_eq_ok_iff :
    a.imposeAll (contexts ++ rest) = .ok c ↔
      ∃ b, a.imposeAll contexts = .ok b ∧ b.imposeAll rest = .ok c := by
  simp only [imposeAll, List.foldlM_append, bind_eq_ok_iff]

/-- The loop of `impose` over the operands, without the check that they are older. -/
theorem imposeAll_map_eq_foldlM {operands : List ExprId}
    (holder : ∀ operand ∈ operands, operand < id) :
    a.imposeAll (operands.map fun operand => (operand, t)) =
      operands.foldlM (fun b operand =>
        if operand < id then b.impose operand t else .error (.youngerOperand id operand)) a := by
  induction operands generalizing a with
  | nil => rfl
  | cons operand operands ih =>
      have hlt : operand < id := holder operand List.mem_cons_self
      simp only [imposeAll, List.map_cons, List.foldlM_cons, if_pos hlt]
      congr 1
      funext b
      exact ih fun other hother => holder other (List.mem_cons_of_mem _ hother)

theorem older_of_foldlM_eq_ok {operands : List ExprId}
    (h : operands.foldlM (fun b operand =>
      if operand < id then b.impose operand t else .error (.youngerOperand id operand)) a =
        .ok b) : ∀ operand ∈ operands, operand < id := by
  induction operands generalizing a with
  | nil => simp
  | cons operand operands ih =>
      obtain ⟨middle, hfirst, hrest⟩ := bind_eq_ok_iff.mp h
      have hlt : operand < id := by
        by_contra hnot
        simp [hnot] at hfirst
      intro other hother
      rcases List.mem_cons.mp hother with rfl | hmem
      · exact hlt
      · exact ih hrest other hmem

/-- One call of `impose`: the expression itself first, then its operands. -/
theorem impose_eq_ok_iff :
    a.impose id required = .ok b ↔
      ∃ n, a.nodes[id]? = some n ∧ n.required = none ∧
        (∀ operand ∈ n.expr.forwarded, operand < id) ∧
        (a.replace id (n.inContext required)).imposeAll (n.inContext required).handedOn =
          .ok b := by
  rw [impose]
  cases hn : a.nodes[id]? with
  | none => simp
  | some n =>
      cases hrequired : n.required with
      | some present => simp [hrequired]
      | none =>
          simp only [Option.some.injEq, exists_eq_left', hrequired, true_and]
          constructor
          · intro h
            have holder := older_of_foldlM_eq_ok h
            exact ⟨holder, (imposeAll_map_eq_foldlM holder).trans h⟩
          · rintro ⟨holder, h⟩
            exact (imposeAll_map_eq_foldlM holder).symm.trans h

theorem Imposes.imposeAll_eq_ok (h : Imposes a contexts b) : a.imposeAll contexts = .ok b := by
  induction h with
  | done a => rfl
  | step hn hrequired holder _ ih =>
      obtain ⟨middle, hoperands, hrest⟩ := imposeAll_append_eq_ok_iff.mp ih
      exact imposeAll_cons_eq_ok_iff.mpr
        ⟨middle, impose_eq_ok_iff.mpr ⟨_, hn, hrequired, holder, hoperands⟩, hrest⟩

/-- A call of `impose` in front of a run.  The recursion is on the handle, and for each handle on
the list of its operands. -/
theorem Imposes.cons_of_impose (h : a.impose id required = .ok b) (hrest : Imposes b rest c) :
    Imposes a ((id, required) :: rest) c := by
  induction id using Nat.strongRecOn generalizing a b c required rest with
  | ind id ih =>
      obtain ⟨n, hn, hrequired, holder, hoperands⟩ := impose_eq_ok_iff.mp h
      refine .step hn hrequired holder ?_
      have hall : ∀ (operands : List ExprId) (t : DataType) (a : Arena),
          (∀ operand ∈ operands, operand < id) →
          a.imposeAll (operands.map fun operand => (operand, t)) = .ok b →
          Imposes a (operands.map (fun operand => (operand, t)) ++ rest) c := by
        intro operands t
        induction operands with
        | nil =>
            intro a _ hdone
            obtain rfl : a = b := pure_eq_ok_iff.mp hdone
            exact hrest
        | cons operand operands ihoperands =>
            intro a hlt hdone
            obtain ⟨middle, hfirst, hothers⟩ := imposeAll_cons_eq_ok_iff.mp hdone
            exact ih operand (hlt operand List.mem_cons_self) hfirst
              (ihoperands middle (fun other hother => hlt other (List.mem_cons_of_mem _ hother))
                hothers)
      exact hall n.expr.forwarded _ _ holder hoperands

/-- The two views of a run agree. -/
theorem imposes_iff : Imposes a contexts b ↔ a.imposeAll contexts = .ok b := by
  constructor
  · exact Imposes.imposeAll_eq_ok
  · intro h
    induction contexts generalizing a with
    | nil =>
        obtain rfl : a = b := pure_eq_ok_iff.mp h
        exact .done a
    | cons context contexts ih =>
        obtain ⟨middle, hfirst, hrest⟩ := imposeAll_cons_eq_ok_iff.mp h
        exact .cons_of_impose hfirst (ih hrest)

theorem imposes_singleton_iff : Imposes a [(id, required)] b ↔ a.impose id required = .ok b := by
  rw [imposes_iff, imposeAll_cons_eq_ok_iff]
  simp [imposeAll, pure_eq_ok_iff]

/-- An expression that is settled gets its own type as context. -/
theorem settle_eq_ok_iff : a.settle id = .ok b ↔ a.impose id (a.typeAt id) = .ok b := by
  simp only [settle, bind_eq_ok_iff, type_eq_ok_iff]
  constructor
  · rintro ⟨t, ⟨-, rfl⟩, h⟩
    exact h
  · intro h
    obtain ⟨n, hn, -⟩ := impose_eq_ok_iff.mp h
    exact ⟨_, ⟨lt_size_of_node hn, rfl⟩, h⟩

/-! ### What a run does to the nodes -/

theorem Imposes.evolves (h : Imposes a contexts b) : a.Evolves b := by
  induction h with
  | done a => exact .refl a
  | step hn hrequired _ _ ih => exact (evolves_replace hn hrequired _).trans ih

theorem Imposes.size_eq (h : Imposes a contexts b) : b.size = a.size := by
  induction h with
  | done a => rfl
  | step _ _ _ _ ih => rw [ih, size_replace]

theorem Imposes.requiredAt_eq_none (h : Imposes a contexts b) :
    ∀ context ∈ contexts, context.1 < a.size ∧ a.requiredAt context.1 = none := by
  induction h with
  | done a => simp
  | step hn hrequired _ _ ih =>
      intro context hmem
      rcases List.mem_cons.mp hmem with rfl | hrest
      · exact ⟨lt_size_of_node hn, (requiredAt_of_node hn).trans hrequired⟩
      · obtain ⟨hlt, hnone⟩ := ih context (List.mem_append_right _ hrest)
        rw [size_replace] at hlt
        exact ⟨hlt, (evolves_replace hn hrequired _).requiredAt_of_none hlt hnone⟩

theorem Imposes.requiredAt_eq_some (h : Imposes a contexts b) :
    ∀ context ∈ contexts, b.requiredAt context.1 = some context.2 := by
  induction h with
  | done a => simp
  | step hn hrequired _ hrun ih =>
      intro context hmem
      rcases List.mem_cons.mp hmem with rfl | hrest
      · apply hrun.evolves.requiredAt_of_some
        rw [requiredAt_of_node (nodes_replace_self (lt_size_of_node hn) _)]
        rfl
      · exact ih context (List.mem_append_right _ hrest)

end Arena

end VerilogExpr
