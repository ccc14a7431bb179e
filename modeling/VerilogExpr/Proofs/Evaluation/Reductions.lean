import VerilogExpr.Proofs.Bits.Reductions
import VerilogExpr.Proofs.Evaluation.Concatenation

/-!
# Reductions

A reduction folds an operator over the bits of its operand, at the width of the operand, and the
negation of a truth value is the reduction `~|`.  The operand is settled when the expression is
built, so no context reaches its bits.  The bits of a concatenation are those of its operands, so a
reduction of it is the fold of the reductions of its operands.
-/

namespace VerilogExpr

/-- The reduction that an operator with a one-bit result computes.  Negating a truth value is to ask
whether no bit is set. -/
def UnaryOp.reduction? : UnaryOp → Option Reduction
  | reduce reduction => some reduction
  | logicNot => some .nor
  | _ => none

def Value.bitList (v : Value) : List Bool := Bits.toList v.bits v.type.width

/-- An integer of the range is zero if its bits are. -/
theorem Bits.mask_eq_zero_iff {n : Int} {width : Nat} {signed : Bool} (h : Fits n width signed) :
    mask n width = 0 ↔ n = 0 := by
  constructor
  · intro hzero
    have hmod := mask_modEq n width
    rw [hzero] at hmod
    exact eq_of_fits_of_modEq h (fits_zero width signed) hmod.symm
  · rintro rfl
    simp [mask]

theorem UnaryOp.isSink_of_reduction? {op : UnaryOp} {reduction : Reduction}
    (h : op.reduction? = some reduction) : op.isSink = true := by
  cases op with
  | reduce reduction => rfl
  | logicNot => rfl
  | _ => cases h

/-- A reduction applied to the value of its operand. -/
theorem UnaryOp.sinkValue_eq_ok {op : UnaryOp} {reduction : Reduction} {v : Value} {n : Int}
    (h : op.reduction? = some reduction) (hnumber : v.number = .integer n)
    (hfits : Bits.Fits n v.type.width v.type.isSigned) :
    op.sinkValue .bit v =
      .ok ⟨.bit, .integer (Value.truth (reduction.ofBits v.bitList))⟩ := by
  cases op with
  | reduce reduction =>
      obtain rfl := Option.some.inj h
      simp only [sinkValue, Value.demandBits_of_integer hnumber]
      simp only [bind, Except.bind, Value.result_eq_ok DataType.isReal_bit, Value.truncated_truth,
        Reduction.apply_onesCount v.bits_lt]
      rfl
  | logicNot =>
      obtain rfl := Option.some.inj h
      have hbits : v.bits = 0 ↔ n = 0 := by
        rw [Value.bits_of_integer hnumber]
        exact Bits.mask_eq_zero_iff hfits
      have hones : Bits.onesCount v.bits = 0 ↔ n = 0 := by
        rw [Bits.onesCount_eq v.bits_lt, Bits.count_toList_eq_zero_iff v.bits_lt, hbits]
      have hnot : (!v.isTrue) = Reduction.nor.ofBits v.bitList := by
        rw [Value.bitList, ← Reduction.apply_onesCount v.bits_lt, Bool.eq_iff_iff]
        simp [Value.isTrue, hnumber, Reduction.apply, hones]
      simp only [sinkValue, Value.result_eq_ok DataType.isReal_bit, Value.truncated_truth, hnot]
  | _ => cases h

theorem Pieces.toList_joined (vs : List Value) :
    Bits.toList (joined vs) (width vs) = (vs.map Value.bitList).flatten := by
  induction vs with
  | nil => rfl
  | cons v vs ih =>
      rw [joined, width_cons, Bits.toList_append (joined_lt vs), ih]
      rfl

/-- The bits of a concatenation are those of its operands. -/
theorem Pieces.bitList_value (vs : List Value) :
    (value vs).bitList = (vs.map Value.bitList).flatten := by
  rw [Value.bitList, bits_value]
  exact toList_joined vs

theorem Value.truth_injective {x y : Bool} (h : truth x = truth y) : x = y := by
  revert h
  cases x <;> cases y <;> decide

namespace Arena

variable {a : Arena} {id operand : ExprId} {op : UnaryOp} {reduction : Reduction} {u v : Value}
  {n : Int} {x : Bool} {vs : List Value} {parts : List Bool}

def Answers (a : Arena) (id : ExprId) (x : Bool) : Prop :=
  (a.eval id).outcome = .ok ⟨.bit, .integer (Value.truth x)⟩

def ReducesTo (reduction : Reduction) (v : Value) (x : Bool) : Prop :=
  ∃ (c : Arena) (id operand : ExprId), c.Reachable ∧
    c.HasExpr id (.unary (.reduce reduction) operand) ∧ (c.eval operand).outcome = .ok v ∧
    c.Answers id x

theorem Answers.eq {y : Bool} (h : a.Answers id x) (hother : a.Answers id y) : x = y := by
  have hvalue := Except.ok.inj (h.symm.trans hother)
  exact Value.truth_injective (Number.integer.inj (congrArg Value.number hvalue))

/-- The reductions of an arena, and the negations of truth values in it. -/
theorem Reachable.answers (h : a.Reachable) (hexpr : a.HasExpr id (.unary op operand))
    (hop : op.reduction? = some reduction) (hv : (a.eval operand).outcome = .ok v)
    (hnumber : v.number = .integer n) : a.Answers id (reduction.ofBits v.bitList) := by
  obtain ⟨m, hm, hmexpr⟩ := hexpr
  have hsink := UnaryOp.isSink_of_reduction? hop
  have htype : m.type = .bit := by
    have hown := h.ownTyped.type_eq hm hmexpr (by simp [Expr.isForwarding, hsink])
    simpa [Expr.selfType, hsink] using hown
  have hlt : operand < a.size := h.sound.ordered.lt_size hm (by simp [hmexpr, Expr.operands])
  obtain ⟨hown, hholds⟩ := (h.sound.ensures_eval hlt).of_eq_ok hv
  rw [hnumber, ← hown] at hholds
  rw [Answers, h.sound.ordered.outcome_eval hm]
  simp only [Evaluation.node, hmexpr, htype, Evaluation.unary, hsink, if_true,
    Evaluation.outcome_bind, hv, Evaluation.outcome_monadLift]
  exact UnaryOp.sinkValue_eq_ok hop hnumber hholds.2

/-- The reductions of operands are the folds of their bits. -/
theorem fold_bitList_of_reducesTo (hplain : reduction.isComplement = false)
    (hintegers : ∀ u ∈ vs, ∃ n, u.number = .integer n)
    (hparts : List.Forall₂ (ReducesTo reduction) vs parts) :
    vs.map (fun u => reduction.fold u.bitList) = parts := by
  induction hparts with
  | nil => rfl
  | @cons u x vs parts hfirst _ ih =>
      obtain ⟨c, id, operand, hc, hexpr, hu, hx⟩ := hfirst
      obtain ⟨n, hnumber⟩ := hintegers u List.mem_cons_self
      have hfold := hc.answers hexpr rfl hu hnumber
      rw [Reduction.ofBits, hplain] at hfold
      rw [List.map_cons, ih fun w hw => hintegers w (List.mem_cons_of_mem u hw), hx.eq hfold]
      rfl

theorem Reachable.exists_integer_of_concats (h : a.Reachable) (hconcats : a.Concats id vs)
    (hu : u ∈ vs) : ∃ n, u.number = .integer n := by
  obtain ⟨operands, ⟨m, hm, hmexpr⟩, hvalues⟩ := hconcats
  have hreads := h.sound.forall₂_reads hm (by rw [hmexpr]; rfl) hvalues
  obtain ⟨operand, hread⟩ := exists_reads_of_mem hreads hu
  exact hread.exists_integer

/-- A fold over a concatenation is the fold over the answers for its pieces. -/
theorem Reachable.answers_of_concats (h : a.Reachable)
    (hexpr : a.HasExpr id (.unary op operand)) (hop : op.reduction? = some reduction)
    (hplain : reduction.isComplement = false) (hconcats : a.Concats operand vs)
    (hparts : List.Forall₂ (ReducesTo reduction) vs parts) :
    a.Answers id (reduction.fold parts) := by
  have hanswer := h.answers hexpr hop (h.joins_of_concats hconcats).outcome_eq rfl
  have hfolds := fold_bitList_of_reducesTo hplain
    (fun u hu => h.exists_integer_of_concats hconcats hu) hparts
  have hfold : reduction.ofBits (Pieces.value vs).bitList = reduction.fold parts := by
    calc
      reduction.ofBits (Pieces.value vs).bitList
          = reduction.fold (vs.map Value.bitList).flatten := by
            rw [Reduction.ofBits, hplain, Pieces.bitList_value]
            rfl
      _ = reduction.fold (vs.map fun u => reduction.fold u.bitList) := by
            rw [Reduction.fold_flatten, List.map_map]
            rfl
      _ = reduction.fold parts := by rw [hfolds]
  rwa [hfold] at hanswer

/-- **Reductions fold the bits of their operands.** Take a reduction or the negation of a truth
value in a reachable arena, and let the operand evaluate to an integer, possibly a negative one.
The answer is the fold of the operator over the bits of the integer at the width of the operand, or
the complement of the fold; counting ones a byte at a time finds all of them, whatever the width.
If the operand is a concatenation, a reduction that is no complement gives the fold of the
reductions of its operands, wherever these stand.  Whatever is done to the arena, the answer stays
and is a single bit. -/
theorem Reachable.reduction_folds (h : a.Reachable) (hexpr : a.HasExpr id (.unary op operand))
    (hop : op.reduction? = some reduction) (hv : (a.eval operand).outcome = .ok v)
    (hnumber : v.number = .integer n) :
    a.Answers id (reduction.ofBits (Bits.toList (Bits.mask n v.type.width) v.type.width)) ∧
    (∀ number width, number < 2 ^ width →
      Bits.onesCount number = (Bits.toList number width).count true) ∧
    (reduction.isComplement = false → ∀ vs parts, a.Concats operand vs →
      List.Forall₂ (ReducesTo reduction) vs parts → a.Answers id (reduction.fold parts)) ∧
    ∀ actions c, a.run actions = .ok c → c.eval id = a.eval id ∧ c.type id = .ok .bit := by
  have hanswer := h.answers hexpr hop hv hnumber
  refine ⟨?_, fun _ _ => Bits.onesCount_eq, ?_, ?_⟩
  · rwa [Value.bitList, Value.bits_of_integer hnumber] at hanswer
  · intro hplain vs parts hconcats hparts
    exact h.answers_of_concats hexpr hop hplain hconcats hparts
  · intro actions c hrun
    have hsink := UnaryOp.isSink_of_reduction? hop
    obtain ⟨hkept, htype⟩ := h.kept_of_run hexpr (by simp [Expr.isForwarding, hsink]) hrun
    obtain ⟨m, hm, -⟩ := hexpr
    have hbit := ((h.sound.ensures_eval (lt_size_of_node hm)).of_eq_ok hanswer).1
    exact ⟨hkept, htype.trans (type_eq_ok_iff.mpr ⟨lt_size_of_node hm, hbit.symm⟩)⟩

/-- The arena of `^{4'sd-1, 3'd1}`, `^4'sd-1` and `^3'd1`. -/
def parities : Arena where
  nodes :=
    let four := DataType.sizedVector .signed 4
    let three := DataType.sizedVector .unsigned 3
    let seven := DataType.sizedVector .unsigned 7
    let minusOne : Node := ⟨.literal ⟨four, .integer (-1)⟩, four, some four⟩
    let one : Node := ⟨.literal ⟨three, .integer 1⟩, three, some three⟩
    #[minusOne, one, ⟨.concat [0, 1], seven, some seven⟩, ⟨.unary (.reduce .xor) 2, .bit, none⟩,
      minusOne, ⟨.unary (.reduce .xor) 4, .bit, none⟩,
      one, ⟨.unary (.reduce .xor) 6, .bit, none⟩]

theorem reachable_parities : parities.Reachable := by
  refine ⟨parities.nodes.toList.map fun n => .add n.expr, ?_⟩
  decide +kernel

/-- Four ones and one more: the parities of the operands are even and odd. -/
theorem reduction_folds_parities :
    parities.Answers 3 (Reduction.xor.ofBits [true, true, true, true, false, false, true]) ∧
      parities.Answers 3 (Reduction.xor.fold [false, true]) ∧
      ∃ b, parities.impose 3 (.sizedVector .unsigned 16) = .ok b ∧ b.eval 3 = parities.eval 3 := by
  let minusOne : Value := ⟨.sizedVector .signed 4, .integer (-1)⟩
  let one : Value := ⟨.sizedVector .unsigned 3, .integer 1⟩
  have hreachable := reachable_parities
  have hexpr : parities.HasExpr 3 (.unary (.reduce .xor) 2) := ⟨_, rfl, rfl⟩
  have hminus : ∀ id ∈ [0, 4], (parities.eval id).outcome = .ok minusOne := by decide +kernel
  have hone : ∀ id ∈ [1, 6], (parities.eval id).outcome = .ok one := by decide +kernel
  have hvalue : (parities.eval 2).outcome = .ok ⟨.sizedVector .unsigned 7, .integer 121⟩ := by
    decide +kernel
  have hconcats : parities.Concats 2 [minusOne, one] :=
    ⟨_, ⟨_, rfl, rfl⟩, .cons (hminus 0 (by simp)) (.cons (hone 1 (by simp)) .nil)⟩
  have heven : ReducesTo .xor minusOne false :=
    ⟨parities, 5, 4, hreachable, ⟨_, rfl, rfl⟩, hminus 4 (by simp), by
      unfold Answers; decide +kernel⟩
  have hodd : ReducesTo .xor one true :=
    ⟨parities, 7, 6, hreachable, ⟨_, rfl, rfl⟩, hone 6 (by simp), by
      unfold Answers; decide +kernel⟩
  have himposed : (parities.impose 3 (.sizedVector .unsigned 16)).toOption.isSome = true := by
    decide +kernel
  obtain ⟨b, hb⟩ := exists_eq_ok_of_isSome himposed
  obtain ⟨hfold, -, hparts, hcontexts⟩ :=
    hreachable.reduction_folds hexpr rfl hvalue rfl
  exact ⟨hfold, hparts rfl _ _ hconcats (.cons heven (.cons hodd .nil)), b, hb,
    (hcontexts _ b (run_impose hb)).1⟩

end Arena

end VerilogExpr
