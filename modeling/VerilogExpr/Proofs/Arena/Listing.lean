import VerilogExpr.Proofs.Arena.Recursion
import VerilogExpr.Proofs.Evaluation.Stability

/-!
# The order of listings

A listing goes from an expression down to its operands and writes the expression behind them, unless
it is there already.  What comes out holds each expression that the first one depends on once, with
its operands before it (`Arena.Ordered.continues_listAfter`).

In an ordered arena it makes no difference whether an expression counts as listed when it is written
or already on the way down.  In between, the expressions that are marked and not yet written are
those whose operands are being listed, and all of these are younger than the expression that is
looked at (`Arena.Tracks`).  A cycle would break this: its expressions would be skipped before they
are written.
-/

namespace VerilogExpr.Arena

variable {a : Arena} {id operand other : ExprId} {n : Node} {listed ids : List ExprId}

/-! ### Listings -/

structure IsListing (a : Arena) (ids : List ExprId) : Prop where
  nodup : ids.Nodup
  operandsFirst : ∀ before id after, ids = before ++ id :: after →
    ∀ operand, a.HasOperand id operand → operand ∈ before

theorem isListing_nil (a : Arena) : a.IsListing [] where
  nodup := List.nodup_nil
  operandsFirst before id after h := by simp at h

/-- An expression can be written once all its operands are. -/
theorem IsListing.snoc (h : a.IsListing ids) (hmem : id ∉ ids)
    (hoperands : ∀ operand, a.HasOperand id operand → operand ∈ ids) :
    a.IsListing (ids ++ [id]) where
  nodup := by
    rw [List.nodup_append_comm]
    exact List.nodup_cons.mpr ⟨hmem, h.nodup⟩
  operandsFirst := by
    intro before other after heq operand hoperand
    rcases List.eq_nil_or_concat after with rfl | ⟨middle, last, rfl⟩
    · obtain ⟨rfl, hlast⟩ := List.append_inj' heq rfl
      obtain rfl : id = other := List.singleton_inj.mp hlast
      exact hoperands operand hoperand
    · have hsplit : ids ++ [id] = (before ++ other :: middle) ++ [last] := by simpa using heq
      obtain ⟨hids, -⟩ := List.append_inj' hsplit rfl
      exact h.operandsFirst before other middle hids operand hoperand

theorem IsListing.mem_of_dependsOn (h : a.IsListing ids) (hid : id ∈ ids)
    (hdepends : a.DependsOn id other) : other ∈ ids := by
  induction hdepends with
  | refl => exact hid
  | tail _ hlast ih =>
      obtain ⟨before, after, heq⟩ := List.append_of_mem ih
      have hbefore := h.operandsFirst before _ after heq _ hlast
      rw [heq]
      exact List.mem_append_left _ hbefore

/-- The second list is a listing, of what is in the first one and of the new expressions. -/
structure Continues (a : Arena) (listed : List ExprId) (new : ExprId → Prop)
    (ids : List ExprId) : Prop where
  listing : a.IsListing ids
  mem_iff : ∀ other, other ∈ ids ↔ other ∈ listed ∨ new other

/-- Listing the operands of an expression one after the other. -/
theorem continues_foldlM {list : ExprId → List ExprId → Except Violation (List ExprId)}
    {operands : List ExprId}
    (hlist : ∀ operand ∈ operands, ∀ listed, a.IsListing listed →
      ∃ ids, list operand listed = .ok ids ∧ a.Continues listed (a.DependsOn operand) ids)
    (hlisted : a.IsListing listed) :
    ∃ ids, operands.foldlM (fun listed operand => list operand listed) listed = .ok ids ∧
      a.Continues listed (fun other => ∃ operand ∈ operands, a.DependsOn operand other) ids := by
  induction operands generalizing listed with
  | nil => exact ⟨listed, rfl, hlisted, by simp⟩
  | cons operand operands ih =>
      obtain ⟨next, hnext, hfirst⟩ := hlist operand List.mem_cons_self listed hlisted
      obtain ⟨ids, hids, hrest⟩ :=
        ih (fun x hx => hlist x (List.mem_cons_of_mem _ hx)) hfirst.listing
      refine ⟨ids, ?_, hrest.listing, fun other => ?_⟩
      · rw [List.foldlM_cons, bind_eq_ok_iff]
        exact ⟨next, hnext, hids⟩
      · rw [hrest.mem_iff, hfirst.mem_iff, List.exists_mem_cons_iff, or_assoc]

theorem Ordered.listAfter_eq (h : a.Ordered) (hn : a.nodes[id]? = some n)
    (listed : List ExprId) :
    a.listAfter id listed =
      if id ∈ listed then .ok listed
      else do
        let listed ← n.expr.operands.foldlM (fun listed operand => a.listAfter operand listed) listed
        return listed ++ [id] := by
  conv => lhs; unfold listAfter
  rw [fold]
  simp only [hn]
  refine if_congr Iff.rfl rfl (congrArg (· >>= _) ?_)
  exact foldlM_eq_of_eq (fun operand hmem listed => by rw [if_pos (h id n hn operand hmem)]; rfl)
    listed

/-- To list an expression behind a listing adds what it depends on, the expression itself last. -/
theorem Ordered.continues_listAfter (h : a.Ordered) (hid : id < a.size)
    (hlisted : a.IsListing listed) :
    ∃ ids, a.listAfter id listed = .ok ids ∧ a.Continues listed (a.DependsOn id) ids ∧
      (id ∉ listed → ids.getLast? = some id) := by
  induction id using Nat.strongRecOn generalizing listed with
  | ind id ih =>
      obtain ⟨n, hn⟩ := exists_node hid
      rw [h.listAfter_eq hn]
      by_cases hmem : id ∈ listed
      · rw [if_pos hmem]
        refine ⟨listed, rfl, ⟨hlisted, fun other => ?_⟩, absurd hmem⟩
        exact (or_iff_left_of_imp (hlisted.mem_of_dependsOn hmem)).symm
      · rw [if_neg hmem]
        have hstep : ∀ operand ∈ n.expr.operands, ∀ listed, a.IsListing listed →
            ∃ ids, a.listAfter operand listed = .ok ids ∧
              a.Continues listed (a.DependsOn operand) ids := by
          intro operand hoperand listed hlisted
          obtain ⟨ids, hids, hcontinues, -⟩ :=
            ih operand (h id n hn operand hoperand) (h.lt_size hn hoperand) hlisted
          exact ⟨ids, hids, hcontinues⟩
        obtain ⟨ids, hids, hlisting, hknown⟩ := continues_foldlM hstep hlisted
        -- nothing that is older than the expression depends on it
        have hnew : id ∉ ids := by
          rw [hknown]
          rintro (hold | ⟨operand, hoperand, hdepends⟩)
          · exact hmem hold
          · exact Nat.not_lt.mpr (h.le_of_dependsOn hdepends) (h id n hn operand hoperand)
        have hoperands : ∀ operand, a.HasOperand id operand → operand ∈ ids := by
          rintro operand ⟨n', hn', hoperand⟩
          obtain rfl := Option.some.inj (hn.symm.trans hn')
          exact (hknown operand).mpr (Or.inr ⟨operand, hoperand, .refl⟩)
        refine ⟨ids ++ [id], by rw [hids]; rfl, ⟨hlisting.snoc hnew hoperands, fun other => ?_⟩,
          fun _ => by simp⟩
        rw [List.mem_append, List.mem_singleton, hknown, dependsOn_iff hn, or_right_comm, or_assoc]

/-- The listing of an expression holds exactly what it depends on, the expression itself last. -/
theorem Ordered.exists_listing (h : a.Ordered) (hid : id < a.size) :
    ∃ ids, a.listing id = .ok ids ∧ a.IsListing ids ∧ (∀ other, other ∈ ids ↔ a.DependsOn id other) ∧
      ids.getLast? = some id := by
  obtain ⟨ids, hids, hcontinues, hlast⟩ := h.continues_listAfter hid (isListing_nil a)
  refine ⟨ids, hids, hcontinues.listing, fun other => ?_, hlast List.not_mem_nil⟩
  rw [hcontinues.mem_iff, or_iff_right List.not_mem_nil]

theorem exists_dumpLine (hid : id < a.size) : ∃ line, a.dumpLine id = .ok line := by
  obtain ⟨n, hn⟩ := exists_node hid
  simp only [dumpLine, bind_eq_ok_iff, node_eq_ok_iff]
  exact ⟨_, n, hn, rfl⟩

theorem Ordered.exists_dump (h : a.Ordered) (hid : id < a.size) : ∃ s, a.dump id = .ok s := by
  obtain ⟨ids, hids, -, hmem, -⟩ := h.exists_listing hid
  obtain ⟨lines, hlines⟩ : ∃ lines, ids.mapM a.dumpLine = .ok lines :=
    exists_mapM_eq_ok fun other hother =>
      exists_dumpLine (Nat.lt_of_le_of_lt (h.le_of_dependsOn ((hmem other).mp hother)) hid)
  simp only [dump, bind_eq_ok_iff]
  exact ⟨_, ids, hids, lines, hlines, rfl⟩

/-! ### Marks on the way down -/

end VerilogExpr.Arena
