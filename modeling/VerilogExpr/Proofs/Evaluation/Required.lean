import VerilogExpr.Proofs.Arena.Recorded
import VerilogExpr.Proofs.Evaluation.Soundness
import VerilogExpr.Proofs.Evaluation.Stability

/-!
# Evaluation at the required types

Sizing and evaluation each know the type at which an operand is used.  Sizing records it on the
operand; evaluation finds it anew at every operator: the type of the operator itself, the common
type of a comparison, the type of an operand that stands by itself.  `Arena.evalAsRequired` is an
evaluation that goes by the record instead, and converts each operand to what is recorded on it.
The two agree on every final expression, in their outcome and in the values found on the way.
-/

namespace VerilogExpr

namespace Evaluation

/-! ### Sequences of evaluations -/

instance : LawfulMonad Evaluation :=
  LawfulMonad.mk' Evaluation
    (by
      rintro α ⟨outcome, found⟩
      change andThen _ (fun result => lift (.ok result)) = _
      cases outcome <;> simp [andThen, lift])
    (by
      intro α β result next
      change andThen (lift (.ok result)) next = next result
      simp [andThen, lift])
    (by
      rintro α β γ ⟨outcome, found⟩ next last
      change andThen (andThen _ next) last = andThen _ fun result => andThen (next result) last
      cases outcome with
      | error fault => rfl
      | ok result =>
          cases hnext : (next result).outcome <;> simp [andThen, hnext, List.append_assoc])

theorem bind_eq_self {α : Type} {x : Evaluation α} {next : α → Evaluation α}
    (h : ∀ result, x.outcome = .ok result → next result = pure result) : x >>= next = x := by
  obtain ⟨outcome, found⟩ := x
  change andThen _ next = _
  cases outcome with
  | error fault => rfl
  | ok result => simp [andThen, h result rfl, pure, lift]

theorem bind_of_ok {α β : Type} {demand : Except Violation α} {result : α}
    (h : demand = .ok result) (next : α → Evaluation β) :
    (do let x ← (demand : Except Fault α); next x) = next result := by
  subst h
  exact pure_bind result next

end Evaluation

/-! ### The evaluation by the record -/

namespace Arena

def atRequired (a : Arena) (id : ExprId) (x : Evaluation Value) : Evaluation Value := do
  let v ← x
  match a.requiredAt id with
  | some required => v.convertTo required
  | none => return v

end Arena

namespace Evaluation

variable (a : Arena) (used : ExprId → Evaluation Value)

def binaryOnUsed (t : DataType) : BinaryOp → ExprId → ExprId → Evaluation Value
  | .bitwise op, left, right => do
    let v ← used left
    let w ← used right
    let x ← v.demandInt
    let y ← w.demandInt
    Value.result t (op.apply t.width x y)
  | .arith op, left, right => do
    let v ← used left
    let w ← used right
    if t.isReal then op.onReals v.toReal w.toReal
    else do
      let x ← v.demandInt
      let y ← w.demandInt
      op.onIntegers t x y
  | .power, left, right => do
    let v ← used left
    if t.isReal then do
      let w ← used right
      return .ofReal (v.toReal.pow w.toReal)
    else do
      let base ← v.demandInt
      let exponent ← operandBits used right
      Value.result t (Bits.powMod (Bits.mask base t.width) exponent (Bits.modulus t.width))
  | .shift op, left, right => do
    let v ← used left
    let x ← v.demandInt
    let amount ← operandBits used right
    Value.result t (op.apply t.isSigned t.width x amount)
  | .compare op, left, right => do
    let v ← used left
    let x ← v.demandInt
    let w ← used right
    let y ← w.demandInt
    Value.result t (Value.truth (op.apply x y))
  | .logic op, left, right => logic used t op left right

/-- The value of an expression on operands that have the types they are used at.  Selects, elements
and concatenations never convert an operand. -/
def nodeOnUsed (n : Node) : Evaluation Value :=
  match n.expr with
  | .unary op operand => do
    let v ← used operand
    if op.isSink then op.sinkValue n.type v else op.forwardingValue n.type v
  | .binary op left right => binaryOnUsed used n.type op left right
  | .ternary .conditional first second third => do
    let condition ← used first
    used (if condition.isTrue then second else third)
  | .ternary .minTypMax _ second _ => used second
  | _ => node a used n

end Evaluation

/-- The constant value of an expression, every operand converted to the type recorded on it. -/
def Arena.evalAsRequired (a : Arena) (id : ExprId) : Evaluation Value :=
  a.fold (fun v => Evaluation.stop (.violation v))
    (fun id n operand => do
      let value ← Evaluation.nodeOnUsed a (fun x => a.atRequired x (operand x)) n
      Evaluation.record id value
      return value) id

/-! ### Conversions that change nothing -/

theorem Value.converted?_of_hasType {v : Value} {t : DataType} (h : v.HasType t) :
    v.converted? t = some v := by
  obtain ⟨u, number⟩ := v
  obtain ⟨rfl, hholds⟩ := h
  cases number with
  | real x =>
      obtain rfl := DataType.isReal_iff.mp hholds
      rfl
  | integer n =>
      obtain ⟨hreal, hfits⟩ := hholds
      simp [converted?, hreal, truncated, Bits.truncate_of_fits hfits]

theorem Value.convertTo_of_hasType {v : Value} {t : DataType} (h : v.HasType t) :
    v.convertTo t = .ok v := by
  unfold convertTo
  rw [converted?_of_hasType h]

namespace Evaluation

variable {a : Arena} {eval used : ExprId → Evaluation Value} {n : Node} {t : DataType}
  {id : ExprId}

theorem operandAs_of_hasType (h : ∀ v, (eval id).outcome = .ok v → v.HasType t) :
    operandAs eval id t = eval id := by
  refine bind_eq_self fun v hv => ?_
  rw [Value.convertTo_of_hasType (h v hv)]
  rfl

/-- A real operator only looks at its operand as a real. -/
theorem operandAs_real_bind {α : Type} (next : Float → Evaluation α) :
    (operandAs eval id .real >>= fun v => next v.toReal) = eval id >>= fun v => next v.toReal := by
  rw [operandAs, bind_assoc]
  rfl

structure UsedAsRecorded (a : Arena) (eval used : ExprId → Evaluation Value) (n : Node) :
    Prop where
  forwarded : ∀ operand ∈ n.expr.forwarded, used operand = operandAs eval operand n.type
  settled : ∀ operand ∈ n.expr.settled,
    used operand = operandAs eval operand (n.expr.settledType a.typeAt operand)
  typed : ∀ operand ∈ n.expr.operands, ∀ v, (eval operand).outcome = .ok v →
    v.HasType (a.typeAt operand)

theorem UsedAsRecorded.eq_of_settled (h : UsedAsRecorded a eval used n)
    (hown : ∀ operand, n.expr.settledType a.typeAt operand = a.typeAt operand) :
    ∀ operand ∈ n.expr.settled, used operand = eval operand := by
  intro operand hmem
  rw [h.settled operand hmem, hown]
  exact operandAs_of_hasType (h.typed operand (Expr.mem_operands_of_settled hmem))

/-- The type on record is the one that the operator converts its operand to. -/
theorem binaryOnUsed_eq {op : BinaryOp} {left right : ExprId} {required : Option DataType}
    (h : UsedAsRecorded a eval used ⟨.binary op left right, t, required⟩)
    (hleft : left < a.size) (hright : right < a.size)
    (hadmits : op.Admits (a.typeAt left) (a.typeAt right))
    (htype : t.isReal = (op.resultType (a.typeAt left) (a.typeAt right)).isReal) :
    binaryOnUsed used t op left right = binary a eval t op left right := by
  have hforwarded := h.forwarded
  cases op with
  | bitwise f =>
      have hreal : t.isReal = false := htype
      have hl : used left = operandAs eval left t := hforwarded left (by simp [Expr.forwarded])
      have hr : used right = operandAs eval right t := hforwarded right (by simp [Expr.forwarded])
      simp only [binaryOnUsed, binary, bitwise, hl, hr, hreal, Bool.false_eq_true, if_false]
  | arith f =>
      have hl : used left = operandAs eval left t := hforwarded left (by simp [Expr.forwarded])
      have hr : used right = operandAs eval right t := hforwarded right (by simp [Expr.forwarded])
      simp only [binaryOnUsed, binary, arith, hl, hr]
  | power =>
      have hl : used left = operandAs eval left t := hforwarded left (by simp [Expr.forwarded])
      have hr : used right = eval right :=
        h.eq_of_settled (fun _ => rfl) right (by simp [Expr.settled])
      cases hreal : t.isReal with
      | true =>
          obtain rfl := DataType.isReal_iff.mp hreal
          simp only [binaryOnUsed, binary, power, hl, hr, hreal, if_true]
          exact operandAs_real_bind fun x => do
            let w ← eval right
            return Value.ofReal (x.pow w.toReal)
      | false =>
          simp only [binaryOnUsed, binary, power, operandInt, operandBits, hl, hr, hreal,
            Bool.false_eq_true, if_false, bind_assoc]
  | shift f =>
      have hl : used left = operandAs eval left t := hforwarded left (by simp [Expr.forwarded])
      have hr : used right = eval right :=
        h.eq_of_settled (fun _ => rfl) right (by simp [Expr.settled])
      simp only [binaryOnUsed, binary, shift, operandInt, operandBits, hl, hr, bind_assoc]
  | compare f =>
      have hltype : a.type left = .ok (a.typeAt left) := Arena.type_eq_ok_iff.mpr ⟨hleft, rfl⟩
      have hrtype : a.type right = .ok (a.typeAt right) := Arena.type_eq_ok_iff.mpr ⟨hright, rfl⟩
      have hcommon := DataType.common_eq_ok_iff.mpr ⟨hadmits.1, hadmits.2, rfl⟩
      have hl : used left = operandAs eval left (.commonVector (a.typeAt left) (a.typeAt right)) :=
        h.settled left (by simp [Expr.settled])
      have hr :
          used right = operandAs eval right (.commonVector (a.typeAt left) (a.typeAt right)) :=
        h.settled right (by simp [Expr.settled])
      simp only [binaryOnUsed, binary, compare, operandInt, hl, hr, bind_assoc]
      rw [bind_of_ok hltype, bind_of_ok hrtype, bind_of_ok hcommon]
  | logic f =>
      have hl : used left = eval left :=
        h.eq_of_settled (fun _ => rfl) left (by simp [Expr.settled])
      have hr : used right = eval right :=
        h.eq_of_settled (fun _ => rfl) right (by simp [Expr.settled])
      simp only [binaryOnUsed, binary, logic, hl, hr]

/-- An expression whose operands are used as recorded has the value that evaluation gives it. -/
theorem nodeOnUsed_eq (h : UsedAsRecorded a eval used n)
    (hlt : ∀ operand ∈ n.expr.operands, operand < a.size)
    (hadmissible : n.expr.Admissible a.typeAt)
    (htype : n.type.isReal = (n.expr.selfType a.typeAt).isReal) :
    nodeOnUsed a used n = node a eval n := by
  -- expressions that forward nothing and are no comparison use their operands as they are
  have hplain : n.expr.forwarded = [] →
      (∀ operand, n.expr.settledType a.typeAt operand = a.typeAt operand) →
      node a used n = node a eval n := by
    intro hnone hown
    refine node_eq_of_eq (fun operand hmem => ?_) fun _ _ => rfl
    refine h.eq_of_settled hown operand ?_
    rw [Expr.mem_operands_iff, hnone] at hmem
    exact hmem.resolve_left List.not_mem_nil
  obtain ⟨e, t, required⟩ := n
  cases e with
  | unary op x =>
      cases hsink : op.isSink with
      | true =>
          have hx : used x = eval x :=
            h.eq_of_settled (fun _ => rfl) x (by simp [Expr.settled, hsink])
          simp only [nodeOnUsed, node, unary, hsink, if_true, hx]
      | false =>
          have hx : used x = operandAs eval x t :=
            h.forwarded x (by simp [Expr.forwarded, hsink])
          simp only [nodeOnUsed, node, unary, hsink, Bool.false_eq_true, if_false, hx]
  | binary op x y =>
      exact binaryOnUsed_eq h (hlt x (by simp [Expr.operands])) (hlt y (by simp [Expr.operands]))
        hadmissible htype
  | ternary op x y z =>
      cases op with
      | conditional =>
          have hx : used x = eval x := h.eq_of_settled (fun _ => rfl) x (by simp [Expr.settled])
          have hy : used y = operandAs eval y t := h.forwarded y (by simp [Expr.forwarded])
          have hz : used z = operandAs eval z t := h.forwarded z (by simp [Expr.forwarded])
          simp only [nodeOnUsed, node, ternary, hx]
          congr 1
          funext condition
          cases condition.isTrue with
          | true => exact hy
          | false => exact hz
      | minTypMax => exact h.forwarded y (by simp [Expr.forwarded])
  | _ => exact hplain rfl fun _ => rfl

end Evaluation

namespace Arena

variable {a : Arena} {id operand : ExprId} {n : Node} {required : DataType}

theorem atRequired_eq (h : a.requiredAt id = some required) :
    a.atRequired id (a.eval id) = Evaluation.operandAs a.eval id required := by
  simp only [atRequired, h, Evaluation.operandAs]

/-- On final operands the record says what evaluation finds. -/
theorem Sound.usedAsRecorded (h : a.Sound) (hrecorded : a.Recorded) (hn : a.nodes[id]? = some n)
    (hrequired : n.required ≠ none) {used : ExprId → Evaluation Value}
    (hused : ∀ operand ∈ n.expr.operands, used operand = a.atRequired operand (a.eval operand)) :
    Evaluation.UsedAsRecorded a a.eval used n where
  forwarded := by
    intro operand hmem
    rw [hused operand (Expr.mem_operands_of_forwarded hmem)]
    exact atRequired_eq (h.closed id n hn hrequired operand hmem)
  settled := by
    intro operand hmem
    rw [hused operand (Expr.mem_operands_of_settled hmem)]
    exact atRequired_eq (hrecorded id n hn operand hmem)
  typed := by
    intro operand hmem v hv
    exact (h.ensures_eval (h.ordered.lt_size hn hmem)).of_eq_ok hv

/-- A final expression has the same evaluation by the record.  The recursion is on the handle: the
operands of a final expression are final. -/
theorem Sound.evalAsRequired_eq_eval (h : a.Sound) (hrecorded : a.Recorded)
    (hid : a.Finalized id) : a.evalAsRequired id = a.eval id := by
  induction id using Nat.strongRecOn with
  | ind id ih =>
      obtain ⟨n, hn, hstate⟩ := hid
      have hrequired := Node.state_eq_finalized_iff.mp hstate
      obtain ⟨hadmissible, hsimilar⟩ := h.typed id n hn
      have hlt : ∀ operand ∈ n.expr.operands, operand < a.size :=
        fun operand hmem => h.ordered.lt_size hn hmem
      rw [h.ordered.eval_eq hn, evalAsRequired, fold]
      simp only [hn]
      congr 1
      refine Evaluation.nodeOnUsed_eq (h.usedAsRecorded hrecorded hn hrequired ?_) hlt hadmissible
        hsimilar.real
      intro operand hmem
      have hfinal := h.finalized_operand hn (Or.inl hrequired) hmem
      have holder := h.ordered id n hn operand hmem
      rw [if_pos holder, ← ih operand holder hfinal]
      rfl

/-- **Sizing and evaluation agree on types.** In a reachable arena a final expression has the same
evaluation, result or fault and the values on the way, if each operand is converted to the type
that sizing has recorded on it.  What is recorded on the operands of a comparison is the common
type of the types that they have now, whatever has widened them. -/
theorem Reachable.evalAsRequired_eq (h : a.Reachable) :
    (∀ id, a.Finalized id → a.evalAsRequired id = a.eval id) ∧
    ∀ (id : ExprId) (n : Node) (op : CompareOp) (left right : ExprId), a.nodes[id]? = some n →
      n.expr = .binary (.compare op) left right →
      ∃ leftType rightType common, a.type left = .ok leftType ∧ a.type right = .ok rightType ∧
        leftType.common rightType = .ok common ∧ a.requiredAt left = some common ∧
        a.requiredAt right = some common := by
  have hsound := h.sound
  refine ⟨fun id hid => hsound.evalAsRequired_eq_eval h.recorded hid, ?_⟩
  intro id n op left right hn hexpr
  obtain ⟨hadmissible, -⟩ := hsound.typed id n hn
  have hrecorded := h.recorded id n hn
  have hlt : ∀ operand ∈ n.expr.operands, operand < a.size :=
    fun operand hmem => hsound.ordered.lt_size hn hmem
  rw [hexpr] at hadmissible hrecorded hlt
  exact ⟨_, _, _, type_eq_ok_iff.mpr ⟨hlt left (by simp [Expr.operands]), rfl⟩,
    type_eq_ok_iff.mpr ⟨hlt right (by simp [Expr.operands]), rfl⟩,
    DataType.common_eq_ok_iff.mpr ⟨hadmissible.1, hadmissible.2, rfl⟩,
    hrecorded left (by simp [Expr.settled]), hrecorded right (by simp [Expr.settled])⟩

/-- The arena of `4'hf + 4'h1 == 8'sd16`, where the comparison has widened the sum. -/
def comparison : Arena where
  nodes := #[
    ⟨.literal ⟨.sizedVector .unsigned 4, .integer 15⟩, .sizedVector .unsigned 4,
      some (.sizedVector .unsigned 8)⟩,
    ⟨.literal ⟨.sizedVector .unsigned 4, .integer 1⟩, .sizedVector .unsigned 4,
      some (.sizedVector .unsigned 8)⟩,
    ⟨.binary (.arith .add) 0 1, .sizedVector .unsigned 8, some (.sizedVector .unsigned 8)⟩,
    ⟨.literal ⟨.sizedVector .signed 8, .integer 16⟩, .sizedVector .signed 8,
      some (.sizedVector .unsigned 8)⟩,
    ⟨.binary (.compare .eq) 2 3, .bit, some .bit⟩]

theorem reachable_comparison : comparison.Reachable := by
  let four := DataType.sizedVector .unsigned 4
  refine ⟨[.add (.literal (.truncated four 15)), .add (.literal (.truncated four 1)),
    .add (.binary (.arith .add) 0 1), .add (.literal (.truncated (.sizedVector .signed 8) 16)),
    .add (.binary (.compare .eq) 2 3), .settle 4], ?_⟩
  decide +kernel

theorem evalAsRequired_eq_comparison :
    comparison.Reachable ∧ comparison.Finalized 4 ∧
      (comparison.eval 4).outcome = .ok ⟨.bit, .integer 1⟩ ∧
      comparison.evalAsRequired 4 = comparison.eval 4 ∧
      comparison.requiredAt 2 = some (.commonVector (.sizedVector .unsigned 8)
        (.sizedVector .signed 8)) := by
  have hfinal : comparison.Finalized 4 := ⟨_, rfl, rfl⟩
  have hvalue : (comparison.eval 4).outcome = .ok ⟨.bit, .integer 1⟩ := by decide +kernel
  obtain ⟨hevals, hcompares⟩ := reachable_comparison.evalAsRequired_eq
  obtain ⟨left, right, common, hleft, hright, hcommon, hrequired, -⟩ :=
    hcompares 4 _ .eq 2 3 rfl rfl
  cases hleft
  cases hright
  cases hcommon
  exact ⟨reachable_comparison, hfinal, hvalue, hevals 4 hfinal, hrequired⟩

end Arena

end VerilogExpr
