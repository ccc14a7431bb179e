import Mathlib.Tactic.Ring
import VerilogExpr.Proofs.Evaluation.Modular
import VerilogExpr.Proofs.Evaluation.Selects
import VerilogExpr.Proofs.Evaluation.Stability

/-!
# Concatenation

A concatenation puts the bits of its operands side by side, each at the width of the operand.  The
operands are settled when it is built, so nothing that happens later changes their widths or their
values, and its own width has room for all of them.  A replication is built in the same way, and the
width of one copy is what is left when its width is divided by the number of copies.
-/

namespace VerilogExpr

/-- The bits of a value at its own width; zero for a real that is no integer. -/
def Value.bits (v : Value) : Nat := v.bits?.getD 0

theorem Value.bits_lt (v : Value) : v.bits < 2 ^ v.type.width := by
  unfold bits bits?
  cases v.toInt? with
  | none => exact Nat.two_pow_pos _
  | some n => exact Bits.mask_lt n v.type.width

theorem Value.bits_of_integer {v : Value} {n : Int} (h : v.number = .integer n) :
    v.bits = Bits.mask n v.type.width := by
  simp [bits, bits?, toInt?, h]

theorem Value.demandBits_of_integer {v : Value} {n : Int} (h : v.number = .integer n) :
    v.demandBits = .ok v.bits := by
  rw [bits_of_integer h]
  simp only [demandBits, demandInt, toInt?, h]
  rfl

/-! ### Values side by side -/

namespace Pieces

variable {us vs : List Value} {v : Value}

def width (vs : List Value) : Nat := (vs.map fun v => v.type.width).sum

/-- The bits of the values side by side, the last one lowest: each is moved up by the widths of
those after it. -/
def joined : List Value → Nat
  | [] => 0
  | v :: vs => v.bits * 2 ^ width vs + joined vs

def value (vs : List Value) : Value := ⟨.sizedVector .unsigned (width vs), .integer (joined vs)⟩

@[simp]
theorem width_cons (v : Value) (vs : List Value) : width (v :: vs) = v.type.width + width vs :=
  List.sum_cons

/-- The bits of the values fill their widths and no more. -/
theorem joined_lt (vs : List Value) : joined vs < 2 ^ width vs := by
  induction vs with
  | nil => exact Nat.one_pos
  | cons v vs ih =>
      rw [joined, width_cons, Nat.pow_add]
      calc
        v.bits * 2 ^ width vs + joined vs < (v.bits + 1) * 2 ^ width vs := by
          rw [Nat.add_one_mul]
          exact Nat.add_lt_add_left ih _
        _ ≤ 2 ^ v.type.width * 2 ^ width vs := Nat.mul_le_mul_right _ v.bits_lt

theorem bits_value (vs : List Value) : (value vs).bits = joined vs := by
  have hcast : (Bits.mask (joined vs : Int) (width vs) : Int) = (joined vs : Int) := by
    rw [Bits.mask_eq, Int.emod_eq_of_lt (Int.natCast_nonneg _)]
    exact_mod_cast joined_lt vs
  exact_mod_cast hcast

end Pieces

namespace Arena

variable {a b c : Arena} {id other operand : ExprId} {n : Node} {operands : List ExprId}
  {v : Value} {us vs : List Value} {count : Nat}

/-! ### Operands side by side -/

structure Reads (a : Arena) (operand : ExprId) (v : Value) : Prop where
  outcome_eq : (a.eval operand).outcome = .ok v
  type_eq : v.type = a.typeAt operand
  exists_integer : ∃ n, v.number = .integer n

theorem Sound.reads (h : a.Sound) (hid : operand < a.size)
    (hreal : (a.typeAt operand).isReal = false) (hv : (a.eval operand).outcome = .ok v) :
    a.Reads operand v := by
  have htype : v.HasType (a.typeAt operand) := (h.ensures_eval hid).of_eq_ok hv
  obtain ⟨x, rfl, -⟩ := htype.exists_integer hreal
  exact ⟨hv, rfl, x, rfl⟩

theorem exists_reads_of_mem (h : List.Forall₂ a.Reads operands vs) (hmem : v ∈ vs) :
    ∃ operand, a.Reads operand v := by
  induction h with
  | nil => cases hmem
  | @cons operand first operands rest hfirst _ ih =>
      rcases List.mem_cons.mp hmem with rfl | hrest
      · exact ⟨operand, hfirst⟩
      · exact ih hrest

/-- The bits of an operand are no more than its width, so they take only places that are free. -/
theorem Reads.outcome_appendBits (h : a.Reads operand v) (acc : Nat) :
    (Evaluation.appendBits a.eval acc operand).outcome =
      .ok (acc * 2 ^ v.type.width + v.bits) := by
  obtain ⟨n, hnumber⟩ := h.exists_integer
  rw [← Nat.shiftLeft_eq, Nat.shiftLeft_add_eq_or_of_lt v.bits_lt]
  simp only [Evaluation.appendBits, Evaluation.outcome_bind, h.outcome_eq,
    Evaluation.outcome_monadLift]
  simp only [bind, Except.bind, Value.demandBits_of_integer hnumber]
  rfl

theorem totalWidth_of_reads (h : List.Forall₂ a.Reads operands vs) :
    Expr.totalWidth a.typeAt operands = Pieces.width vs := by
  induction h with
  | nil => rfl
  | cons hfirst _ ih => rw [Expr.totalWidth, Pieces.width_cons, ih, hfirst.type_eq]

/-- The induction is over the operands, with what has been joined before them. -/
theorem outcome_foldlM_appendBits (h : List.Forall₂ a.Reads operands vs) (acc : Nat) :
    (operands.foldlM (Evaluation.appendBits a.eval) acc).outcome =
      .ok (acc * 2 ^ Pieces.width vs + Pieces.joined vs) := by
  induction h generalizing acc with
  | nil => simp [Pieces.width, Pieces.joined]
  | @cons operand v operands vs hfirst _ ih =>
      rw [List.foldlM_cons, Evaluation.outcome_bind, hfirst.outcome_appendBits]
      change (operands.foldlM (Evaluation.appendBits a.eval) _).outcome = _
      rw [ih, Pieces.joined, Pieces.width_cons, Nat.pow_add]
      congr 1
      ring

theorem outcome_concatBits (h : List.Forall₂ a.Reads operands vs) :
    (Evaluation.concatBits a.eval operands).outcome = .ok (Pieces.joined vs) := by
  rw [Evaluation.concatBits, outcome_foldlM_appendBits h, Nat.zero_mul, Nat.zero_add]

def HaveValues (a : Arena) (operands : List ExprId) (vs : List Value) : Prop :=
  List.Forall₂ (fun operand v => (a.eval operand).outcome = .ok v) operands vs

def Concats (a : Arena) (id : ExprId) (vs : List Value) : Prop :=
  ∃ operands, a.HasExpr id (.concat operands) ∧ a.HaveValues operands vs

structure Joins (a : Arena) (id : ExprId) (vs : List Value) : Prop where
  type_eq : a.type id = .ok (.sizedVector .unsigned (Pieces.width vs))
  outcome_eq : (a.eval id).outcome = .ok (Pieces.value vs)

/-- The operands of a concatenation are integral, so their values have bits. -/
theorem Sound.forall₂_reads (h : a.Sound) (hn : a.nodes[id]? = some n)
    (hpieces : n.expr.pieces = operands) (hvalues : a.HaveValues operands vs) :
    List.Forall₂ a.Reads operands vs := by
  have hadmissible := (h.typed id n hn).1
  have hpiece : ∀ operand ∈ operands,
      operand < a.size ∧ (a.typeAt operand).isReal = false := by
    intro operand hmem
    rw [← hpieces] at hmem
    have hmem' := Expr.mem_operands_of_settled (Expr.mem_settled_of_pieces hmem)
    refine ⟨h.ordered.lt_size hn hmem', ?_⟩
    cases hexpr : n.expr with
    | concat pieces =>
        rw [hexpr] at hadmissible hmem
        exact hadmissible.2 operand hmem
    | replicate count pieces =>
        rw [hexpr] at hadmissible hmem
        exact hadmissible.2.2 operand hmem
    | _ =>
        rw [hexpr] at hmem
        cases hmem
  refine ((List.forall₂_and_left _ _).mpr ⟨hpiece, hvalues⟩).imp fun operand v hboth => ?_
  obtain ⟨⟨hid, hreal⟩, hv⟩ := hboth
  exact h.reads hid hreal hv

/-- A number that fits is the result at an unsigned type as it is. -/
theorem result_joined (vs : List Value) :
    Value.result (.sizedVector .unsigned (Pieces.width vs)) (Pieces.joined vs : Nat) =
      .ok (Pieces.value vs) := by
  rw [Value.result_eq_ok (DataType.isReal_sizedVector _ _), Value.truncated_natCast,
    Nat.mod_eq_of_lt (Pieces.joined_lt vs)]
  rfl

theorem Sound.joins_of_outcome (h : a.Sound) (hn : a.nodes[id]? = some n)
    (htype : n.type = .sizedVector .unsigned (Pieces.width vs))
    (hnode : (Evaluation.node a a.eval n).outcome = Value.result n.type (Pieces.joined vs : Nat)) :
    a.Joins id vs := by
  rw [htype, result_joined] at hnode
  refine ⟨?_, (h.ordered.outcome_eval hn).trans hnode⟩
  rw [← htype]
  exact type_eq_ok_iff.mpr ⟨lt_size_of_node hn, typeAt_of_node hn⟩

theorem Reachable.joins_of_concats (h : a.Reachable) (hconcats : a.Concats id vs) :
    a.Joins id vs := by
  obtain ⟨operands, ⟨n, hn, hexpr⟩, hvalues⟩ := hconcats
  have hreads := h.sound.forall₂_reads hn (by rw [hexpr]; rfl) hvalues
  have htype : n.type = .sizedVector .unsigned (Pieces.width vs) := by
    rw [← totalWidth_of_reads hreads]
    exact h.ownTyped.type_eq hn hexpr rfl
  refine h.sound.joins_of_outcome hn htype ?_
  simp only [Evaluation.node, hexpr, Evaluation.outcome_bind, outcome_concatBits hreads,
    Evaluation.outcome_monadLift]
  rfl

/-- The operands of a concatenation are settled, so they keep their values. -/
theorem Concats.of_evolves (h : a.Concats id vs) (ha : a.Sound) (hc : c.Ordered)
    (hevolves : a.Evolves c) : c.Concats id vs := by
  obtain ⟨operands, hexpr, hvalues⟩ := h
  obtain ⟨n, hn, hnexpr⟩ := hexpr
  refine ⟨operands, hevolves.hasExpr ⟨n, hn, hnexpr⟩, ?_⟩
  have hsettled : ∀ operand ∈ operands, c.eval operand = a.eval operand := by
    intro operand hmem
    refine ha.eval_eq_of_settled hc hevolves hn ?_
    rw [hnexpr]
    exact hmem
  refine ((List.forall₂_and_left _ _).mpr ⟨hsettled, hvalues⟩).imp fun operand v hboth => ?_
  rw [hboth.1]
  exact hboth.2

theorem Joins.eq (h : a.Joins id vs) (hother : b.Joins other us)
    (hvalue : Pieces.value us = Pieces.value vs) :
    b.type other = a.type id ∧ (b.eval other).outcome = (a.eval id).outcome := by
  have hwidth : Pieces.width us = Pieces.width vs :=
    congrArg (fun v : Value => v.type.width) hvalue
  rw [h.type_eq, h.outcome_eq, hother.type_eq, hother.outcome_eq, hwidth, hvalue]
  exact ⟨rfl, rfl⟩

end Arena

end VerilogExpr
