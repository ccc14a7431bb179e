import VerilogExpr.Proofs.Arena.OwnType
import VerilogExpr.Proofs.BitRange.IndexedSelects
import VerilogExpr.Proofs.Bits.Modular
import VerilogExpr.Proofs.Evaluation.Unbounded

/-!
# Selects

A select reads the value of a constant at the width of its range.  The offset of the right bound
says how many bits lie below the selected ones, and the type of the select cuts off those above.  So
what a select evaluates to depends on its bounds alone, wherever these come from, and a part select
puts the bits at consecutive offsets side by side.
-/

namespace VerilogExpr

def Value.IsFinite (v : Value) : Prop := ∀ x, v.number = .real x → (Real.binary? x).isSome

theorem Value.IsFinite.exists_toInt? {v : Value} (h : v.IsFinite) : ∃ n, v.toInt? = some n := by
  unfold toInt?
  cases hnumber : v.number with
  | integer n => exact ⟨n, rfl⟩
  | real x =>
      obtain ⟨b, hb⟩ := Option.isSome_iff_exists.mp (h x hnumber)
      simp only [Real.toInt?, hb]
      exact ⟨_, rfl⟩

/-! ### Selected bits -/

namespace Bits

theorem truth_testBit (bits offset : Nat) :
    Value.truth (bits.testBit offset) = ((bits >>> offset % 2 : Nat) : Int) := by
  rw [Nat.shiftRight_eq_div_pow, ← Nat.toNat_testBit]
  cases bits.testBit offset <;> rfl

end Bits

theorem Value.truncated_truth (b : Bool) :
    truncated .bit (truth b) = ⟨.bit, .integer (truth b)⟩ := by
  cases b <;> decide

/-- A number at an unsigned type. -/
theorem Value.truncated_natCast (width x : Nat) :
    truncated (.sizedVector .unsigned width) (x : Int) =
      ⟨.sizedVector .unsigned width, .integer (x % 2 ^ width : Nat)⟩ := by
  have hcut : Bits.truncate (x : Int) width false = (x % 2 ^ width : Nat) := by
    rw [Bits.truncate_unsigned]
    push_cast
    rfl
  exact congrArg (fun n => mk (.sizedVector .unsigned width) (.integer n)) hcut

namespace Declaration

variable {d : Declaration} {v : Value} {bounds : BitRange} {n : Int} {offset : Nat}

theorem constantValue?_eq_some (hconstant : d.isConstant = true) (hvalue : d.value = some v) :
    d.constantValue? = some v := by
  simp [constantValue?, hconstant, hvalue]

/-- A select inside the range reads the value at the width of the range. -/
theorem select_eq_ok (hconstant : d.constantValue? = some v) (hint : v.toInt? = some n)
    (hleft : d.bitRange.contains bounds.left = true)
    (hright : d.bitRange.lsbOffset? bounds.right = some offset) :
    d.select (some bounds) = .ok (Bits.mask n d.bitRange.size, offset) := by
  obtain ⟨upper, hupper⟩ := BitRange.exists_lsbOffset? hleft
  have hcontains := BitRange.contains_of_lsbOffset? hright
  simp only [select, hconstant, hleft, hcontains, Bool.and_self, if_true, hupper, hright,
    Value.demandInt, hint]
  rfl

/-- A select fails exactly if it leaves the range. -/
theorem select_eq_error_iff (hconstant : d.constantValue? = some v) (hint : v.toInt? = some n) :
    (∃ fault, d.select (some bounds) = .error fault) ↔
      ∃ i, bounds.contains i = true ∧ d.bitRange.contains i = false := by
  have hinside : (d.bitRange.contains bounds.left && d.bitRange.contains bounds.right) = true ↔
      ∀ i, bounds.contains i = true → d.bitRange.contains i = true := BitRange.bounds_mem_iff
  cases hboth : d.bitRange.contains bounds.left && d.bitRange.contains bounds.right with
  | true =>
      obtain ⟨hleft, hright⟩ := Bool.and_eq_true_iff.mp hboth
      obtain ⟨offset, hoffset⟩ := BitRange.exists_lsbOffset? hright
      rw [select_eq_ok hconstant hint hleft hoffset]
      refine iff_of_false (by simp) ?_
      rintro ⟨i, hi, hout⟩
      exact absurd ((hinside.mp hboth i hi).symm.trans hout) (by simp)
  | false =>
      have houtside : ∃ i, bounds.contains i = true ∧ d.bitRange.contains i = false := by
        by_contra hnone
        refine absurd (hinside.mpr fun i hi => ?_) (by simp [hboth])
        by_contra hout
        exact hnone ⟨i, hi, by simpa using hout⟩
      refine iff_of_true ⟨.failure (.selectOutside d), ?_⟩ houtside
      simp only [select, hconstant, hboth]
      rfl

end Declaration

namespace Arena

variable {a later : Arena} {id other bit base : ExprId} {x : Expr} {d : Declaration} {v : Value}
  {bounds : BitRange} {index n b : Int} {offset width : Nat} {direction : SelectDirection}

def HasExpr (a : Arena) (id : ExprId) (e : Expr) : Prop := ∃ n, a.nodes[id]? = some n ∧ n.expr = e

theorem Adds.hasExpr (h : Adds a x later) : later.HasExpr a.size x := by
  obtain ⟨-, -, c, hrun, rfl⟩ := h
  rw [← hrun.size_eq]
  exact ⟨_, nodes_push_size c x _, rfl⟩

theorem Evolves.hasExpr (h : a.Evolves later) (hexpr : a.HasExpr id x) : later.HasExpr id x := by
  obtain ⟨n, hn, rfl⟩ := hexpr
  obtain ⟨m, hm, hnm⟩ := h id n hn
  exact ⟨m, hm, hnm.expr_eq⟩

/-- An expression that does not forward its context keeps its type and its value. -/
theorem Reachable.kept_of_run (h : a.Reachable) (hexpr : a.HasExpr id x)
    (hleaf : x.isForwarding = false) {actions : List Action} (hrun : a.run actions = .ok later) :
    later.eval id = a.eval id ∧ later.type id = a.type id := by
  obtain ⟨n, hn, rfl⟩ := hexpr
  have hevolves := evolves_of_run hrun
  obtain ⟨m, hm, hnm⟩ := hevolves id n hn
  refine ⟨h.sound.eval_eq_of_evolves (h.sound.of_run hrun).ordered hevolves hn (Or.inr hleaf), ?_⟩
  have htype : later.typeAt id = a.typeAt id := by
    rw [typeAt_of_node hm, typeAt_of_node hn, hnm.type_eq hleaf]
  rw [type_eq_ok_iff.mpr ⟨lt_size_of_node hn, rfl⟩]
  exact type_eq_ok_iff.mpr ⟨lt_size_of_node hm, htype⟩

def bitIndex? (a : Arena) : BitIndex → Option Int
  | .fixed index => some index
  | .computed operand => a.index? operand

def partBounds? (a : Arena) (range : BitRange) : PartBounds → Option BitRange
  | .fixed left right => some ⟨left, right⟩
  | .indexed base direction width =>
    (a.index? base).bind fun b => (range.indexedBounds b width direction).toOption

def SelectsBit (a : Arena) (id : ExprId) (d : Declaration) (index : Int) : Prop :=
  ∃ i, a.HasExpr id (.bitSelect d i) ∧ a.bitIndex? i = some index

def SelectsPart (a : Arena) (id : ExprId) (d : Declaration) (bounds : BitRange) : Prop :=
  ∃ p, a.HasExpr id (.partSelect d p) ∧ a.partBounds? d.bitRange p = some bounds ∧
    p.width = bounds.size

theorem SelectsPart.of_fixed {left right : Int}
    (h : a.HasExpr id (.partSelect d (.fixed left right))) : a.SelectsPart id d ⟨left, right⟩ :=
  ⟨_, h, rfl, rfl⟩

theorem outcome_operandIndex (h : a.index? id = some index) :
    (Evaluation.operandIndex a.eval id).outcome = .ok (some index) := by
  obtain ⟨v, hv, hindex⟩ := Option.bind_eq_some_iff.mp h
  rw [value?_eq_some_iff] at hv
  simp only [Evaluation.operandIndex, Evaluation.outcome_bind, hv, Evaluation.outcome_pure]
  exact congrArg _ hindex

theorem outcome_bitBounds {i : BitIndex} (h : a.bitIndex? i = some index) :
    (Evaluation.bitBounds a.eval i).outcome = .ok (some ⟨index, index⟩) := by
  cases i with
  | fixed i =>
      obtain rfl : i = index := Option.some.inj h
      rfl
  | computed operand =>
      simp only [Evaluation.bitBounds, Evaluation.outcome_bind, outcome_operandIndex h,
        Evaluation.outcome_pure]
      rfl

theorem outcome_partBounds {range : BitRange} {p : PartBounds}
    (h : a.partBounds? range p = some bounds) :
    (Evaluation.partBounds a.eval range p).outcome = .ok (some bounds) := by
  cases p with
  | fixed left right =>
      obtain rfl : BitRange.mk left right = bounds := Option.some.inj h
      rfl
  | indexed base direction width =>
      obtain ⟨b, hbase, hbounds⟩ := Option.bind_eq_some_iff.mp h
      rw [toOption_eq_some_iff] at hbounds
      simp only [Evaluation.partBounds, Evaluation.outcome_bind, outcome_operandIndex hbase]
      simp only [bind, Except.bind, hbounds]
      rfl

/-- A bit select reads the bit at the offset of its index. -/
theorem Reachable.outcome_of_selectsBit (h : a.Reachable) (hselects : a.SelectsBit id d index) :
    (a.eval id).outcome = (d.select (some ⟨index, index⟩)).map fun (bits, offset) =>
      ⟨.bit, .integer (Value.truth (bits.testBit offset))⟩ := by
  obtain ⟨i, ⟨n, hn, hexpr⟩, hindex⟩ := hselects
  have htype : n.type = .bit := h.ownTyped.type_eq hn hexpr rfl
  rw [h.sound.ordered.outcome_eval hn]
  simp only [Evaluation.node, hexpr, htype, Evaluation.bitSelect, Evaluation.outcome_bind,
    outcome_bitBounds hindex, Evaluation.outcome_monadLift, Value.result_eq_ok DataType.isReal_bit,
    ← Bits.truth_testBit, Value.truncated_truth]
  change (d.select (some ⟨index, index⟩) >>= _) = _
  cases d.select (some ⟨index, index⟩) <;> rfl

/-- A part select reads the bits from the offset of its right bound upwards. -/
theorem Reachable.outcome_of_selectsPart (h : a.Reachable) (hselects : a.SelectsPart id d bounds) :
    (a.eval id).outcome = (d.select (some bounds)).map fun (bits, offset) =>
      ⟨.sizedVector .unsigned bounds.size,
        .integer ((bits >>> offset) % 2 ^ bounds.size : Nat)⟩ := by
  obtain ⟨p, ⟨n, hn, hexpr⟩, hbounds, hwidth⟩ := hselects
  have htype : n.type = .sizedVector .unsigned bounds.size := by
    rw [← hwidth]
    exact h.ownTyped.type_eq hn hexpr rfl
  rw [h.sound.ordered.outcome_eval hn]
  simp only [Evaluation.node, hexpr, htype, Evaluation.partSelect, Evaluation.outcome_bind,
    outcome_partBounds hbounds, Evaluation.outcome_monadLift,
    Value.result_eq_ok (DataType.isReal_sizedVector _ _), Value.truncated_natCast]
  change (d.select (some bounds) >>= _) = _
  cases d.select (some bounds) <;> rfl

/-- A bit select inside the range reads the bit at the offset of its index. -/
theorem Reachable.outcome_of_bit (h : a.Reachable) (hconstant : d.constantValue? = some v)
    (hint : v.toInt? = some n) (hselects : a.SelectsBit id d index)
    (hoffset : d.bitRange.lsbOffset? index = some offset) :
    (a.eval id).outcome =
      .ok ⟨.bit, .integer (Value.truth ((Bits.mask n d.bitRange.size).testBit offset))⟩ := by
  have hcontains := BitRange.contains_of_lsbOffset? hoffset
  have hselect : d.select (some ⟨index, index⟩) = .ok (Bits.mask n d.bitRange.size, offset) :=
    Declaration.select_eq_ok hconstant hint hcontains hoffset
  rw [h.outcome_of_selectsBit hselects, hselect]
  rfl

/-- A part select inside the range reads as many bits as it has indices. -/
theorem Reachable.outcome_of_part (h : a.Reachable) (hconstant : d.constantValue? = some v)
    (hint : v.toInt? = some n) (hselects : a.SelectsPart id d bounds)
    (hleft : d.bitRange.contains bounds.left = true)
    (hright : d.bitRange.lsbOffset? bounds.right = some offset) :
    (a.eval id).outcome = .ok ⟨.sizedVector .unsigned bounds.size,
      .integer ((Bits.mask n d.bitRange.size >>> offset) % 2 ^ bounds.size : Nat)⟩ := by
  rw [h.outcome_of_selectsPart hselects, Declaration.select_eq_ok hconstant hint hleft hright]
  rfl

/-! ### Parts and their bits -/

def ascending : Declaration :=
  { Declaration.plain "p" .parameter with
    range := some ⟨0, 7⟩
    value := some ⟨.sizedVector .unsigned 8, .integer 178⟩ }

def widest : Declaration :=
  { Declaration.plain "p" .parameter with
    range := some ⟨9223372036854775807, -9223372036854775808⟩
    value := some ⟨.sizedVector .unsigned 8, .integer 5⟩ }

end Arena

end VerilogExpr
