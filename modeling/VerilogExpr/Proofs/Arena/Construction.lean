import VerilogExpr.Arena.Construction
import VerilogExpr.Proofs.Arena.Imposition

/-!
# What building an expression does

Each kind of expression has a constructor of its own, with its own checks in its own order.  They
all follow one scheme, which is stated here without that order: the operands exist, the expression
is admissible for the types of its operands, the settled operands get their contexts, and a node
with the type that follows from the operands is added (`Arena.add_eq_ok_iff`).
-/

namespace VerilogExpr

def BinaryOp.Admits (op : BinaryOp) (left right : DataType) : Prop :=
  match op with
  | .bitwise _ => left.isReal = false ∧ right.isReal = false
  | .arith f =>
    (BinaryOp.arith f).rejectsReal = true → left.isReal = false ∧ right.isReal = false
  | .power => True
  | .shift _ => left.isReal = false
  | .compare _ => left.isReal = false ∧ right.isReal = false
  | .logic _ => True

def BinaryOp.resultType (op : BinaryOp) (left right : DataType) : DataType :=
  match op with
  | .bitwise _ => .commonVector left right
  | .arith _ => .mixed left right
  | .power => .power left right
  | .shift _ => left
  | .compare _ => .bit
  | .logic _ => .bit

def PartBounds.width : PartBounds → Nat
  | fixed left right => (BitRange.mk left right).size
  | indexed _ _ width => width

namespace Expr

/-- What an expression demands of the types of its operands and of its other parts. -/
def Admissible (types : ExprId → DataType) : Expr → Prop
  | literal _ => True
  | reference _ => True
  | bitSelect d _ => d.isReal = false
  | partSelect d bounds => d.isReal = false ∧ bounds.width ≠ 0
  | element d indices =>
    (∃ dimensions, d.dimensions = some dimensions ∧ indices.length = dimensions.count) ∧
      ∀ index ∈ indices, (types index).isReal = false
  | unary op operand => op.rejectsReal = true → (types operand).isReal = false
  | binary op left right => op.Admits (types left) (types right)
  | ternary _ _ _ _ => True
  | concat operands => operands ≠ [] ∧ ∀ operand ∈ operands, (types operand).isReal = false
  | replicate count operands =>
    count ≠ 0 ∧ operands ≠ [] ∧ ∀ operand ∈ operands, (types operand).isReal = false

def totalWidth (types : ExprId → DataType) : List ExprId → Nat
  | [] => 0
  | operand :: operands => (types operand).width + totalWidth types operands

/-- The type that follows from the types of the operands. -/
def selfType (types : ExprId → DataType) : Expr → DataType
  | literal value => value.type
  | reference d => d.type
  | bitSelect _ _ => .bit
  | partSelect _ bounds => .sizedVector .unsigned bounds.width
  | element d _ => d.type
  | unary op operand => if op.isSink then .bit else types operand
  | binary op left right => op.resultType (types left) (types right)
  | ternary .conditional _ second third => .mixed (types second) (types third)
  | ternary .minTypMax _ second _ => types second
  | concat operands => .sizedVector .unsigned (totalWidth types operands)
  | replicate count operands => .sizedVector .unsigned (totalWidth types operands * count)

/-- The context that construction imposes onto a settled operand. -/
def settledType (types : ExprId → DataType) : Expr → ExprId → DataType
  | binary (.compare _) left right, _ => .commonVector (types left) (types right)
  | _, operand => types operand

def settledContexts (types : ExprId → DataType) (e : Expr) : List (ExprId × DataType) :=
  e.settled.map fun operand => (operand, e.settledType types operand)

/-- Whether the types of operands are looked at after the settled operands have their contexts. -/
def isChoice : Expr → Bool
  | ternary .conditional _ _ _ => true
  | _ => false

theorem totalWidth_eq_of_eq {types types' : ExprId → DataType} {operands : List ExprId}
    (h : ∀ operand ∈ operands, types operand = types' operand) :
    totalWidth types operands = totalWidth types' operands := by
  induction operands with
  | nil => rfl
  | cons operand operands ih =>
      have hrest := ih fun other hmem => h other (List.mem_cons_of_mem operand hmem)
      simp only [totalWidth, h operand List.mem_cons_self, hrest]

end Expr

namespace Arena

variable {a b c : Arena} {id : ExprId} {t : DataType} {operands : List ExprId}

theorem demandOperand_eq_ok_iff : a.demandOperand id = .ok () ↔ id < a.size := by
  simp [demandOperand]

theorem operandType_eq_ok_iff : a.operandType id = .ok t ↔ id < a.size ∧ a.typeAt id = t := by
  simp only [operandType, bind_eq_ok_iff, type_eq_ok_iff]
  constructor
  · rintro ⟨_, _, h⟩
    exact h
  · intro h
    exact ⟨(), demandOperand_eq_ok_iff.mpr h.1, h⟩

theorem settleOperand_eq_ok_iff :
    a.settleOperand id = .ok b ↔ id < a.size ∧ a.impose id (a.typeAt id) = .ok b := by
  simp only [settleOperand, bind_eq_ok_iff, settle_eq_ok_iff]
  constructor
  · rintro ⟨_, hlt, h⟩
    exact ⟨demandOperand_eq_ok_iff.mp hlt, h⟩
  · rintro ⟨hlt, h⟩
    exact ⟨(), demandOperand_eq_ok_iff.mpr hlt, h⟩

/-! ### Lists of settled operands -/

def Settles (a : Arena) (operands : List ExprId) (b : Arena) : Prop :=
  (∀ operand ∈ operands, operand < a.size ∧ (a.typeAt operand).isReal = false) ∧
    Imposes a (operands.map fun operand => (operand, a.typeAt operand)) b

theorem Imposes.cons_iff {rest : List (ExprId × DataType)} :
    Imposes a ((id, t) :: rest) c ↔ ∃ b, a.impose id t = .ok b ∧ Imposes b rest c := by
  simp only [imposes_iff, imposeAll_cons_eq_ok_iff]

/-- Contexts imposed before a run do not change the types that the run starts from. -/
theorem Imposes.typeAt_eq {contexts : List (ExprId × DataType)} (hevolves : a.Evolves b)
    (h : Imposes b contexts c) {context : ExprId × DataType} (hmem : context ∈ contexts)
    (hlt : context.1 < a.size) : b.typeAt context.1 = a.typeAt context.1 :=
  hevolves.typeAt_of_constructed hlt (h.requiredAt_eq_none context hmem).2

theorem settles_nil_iff : Settles a [] b ↔ a = b := by
  simp only [Settles, List.not_mem_nil, false_implies, implies_true, List.map_nil, true_and,
    imposes_iff]
  exact pure_eq_ok_iff

theorem Settles.typeAt_eq (hfirst : a.impose id t = .ok b) (h : Settles b operands c) :
    ∀ operand ∈ operands, b.typeAt operand = a.typeAt operand := by
  intro operand hmem
  have hrun := imposes_singleton_iff.mpr hfirst
  have hlt := (h.1 operand hmem).1
  rw [hrun.size_eq] at hlt
  exact h.2.typeAt_eq hrun.evolves
    (List.mem_map_of_mem (f := fun operand => (operand, b.typeAt operand)) hmem) hlt

/-- To settle an operand leaves the types of those after it as they are: they would otherwise have a
context already. -/
theorem settles_cons_iff :
    Settles a (id :: operands) c ↔
      id < a.size ∧ (a.typeAt id).isReal = false ∧
        ∃ b, a.impose id (a.typeAt id) = .ok b ∧ Settles b operands c := by
  constructor
  · rintro ⟨hoperands, hrun⟩
    rw [List.map_cons, Imposes.cons_iff] at hrun
    obtain ⟨b, hfirst, hrest⟩ := hrun
    have hevolves := (imposes_singleton_iff.mpr hfirst).evolves
    have htypes : ∀ operand ∈ operands, b.typeAt operand = a.typeAt operand := by
      intro operand hmem
      exact hrest.typeAt_eq hevolves
        (List.mem_map_of_mem (f := fun operand => (operand, a.typeAt operand)) hmem)
        (hoperands operand (List.mem_cons_of_mem _ hmem)).1
    refine ⟨(hoperands id List.mem_cons_self).1, (hoperands id List.mem_cons_self).2, b, hfirst,
      ?_, ?_⟩
    · intro operand hmem
      obtain ⟨hlt, hreal⟩ := hoperands operand (List.mem_cons_of_mem _ hmem)
      rw [htypes operand hmem]
      exact ⟨hevolves.lt_size hlt, hreal⟩
    · rw [List.map_congr_left fun operand hmem => by rw [htypes operand hmem]]
      exact hrest
  · rintro ⟨hlt, hreal, b, hfirst, hrest⟩
    have hsize := (imposes_singleton_iff.mpr hfirst).size_eq
    have htypes := hrest.typeAt_eq hfirst
    refine ⟨?_, Imposes.cons_iff.mpr ⟨b, hfirst, ?_⟩⟩
    · intro operand hmem
      rcases List.mem_cons.mp hmem with rfl | hmem
      · exact ⟨hlt, hreal⟩
      · rw [← htypes operand hmem, ← hsize]
        exact hrest.1 operand hmem
    · have hrun := hrest.2
      rw [List.map_congr_left fun operand hmem => by rw [htypes operand hmem]] at hrun
      exact hrun

theorem settleIndex_eq_ok_iff {d : Declaration} :
    settleIndex d a id = .ok b ↔
      id < a.size ∧ (a.typeAt id).isReal = false ∧ a.impose id (a.typeAt id) = .ok b := by
  simp only [settleIndex, bind_eq_ok_iff, operandType_eq_ok_iff]
  constructor
  · rintro ⟨_, ⟨hlt, rfl⟩, h⟩
    cases hreal : (a.typeAt id).isReal <;> simp_all [settle_eq_ok_iff]
  · rintro ⟨hlt, hreal, h⟩
    exact ⟨_, ⟨hlt, rfl⟩, by simpa [hreal, settle_eq_ok_iff] using h⟩

theorem foldlM_settleIndex_eq_ok_iff {d : Declaration} :
    operands.foldlM (settleIndex d) a = .ok b ↔ Settles a operands b := by
  induction operands generalizing a with
  | nil => rw [settles_nil_iff, List.foldlM_nil, pure_eq_ok_iff]
  | cons operand operands ih =>
      simp only [List.foldlM_cons, bind_eq_ok_iff, settleIndex_eq_ok_iff, ih]
      rw [settles_cons_iff]
      constructor
      · rintro ⟨middle, ⟨hlt, hreal, hfirst⟩, hrest⟩
        exact ⟨hlt, hreal, middle, hfirst, hrest⟩
      · rintro ⟨hlt, hreal, middle, hfirst, hrest⟩
        exact ⟨middle, ⟨hlt, hreal, hfirst⟩, hrest⟩

theorem settlePiece_eq_ok_iff {before after : Nat} :
    settlePiece (a, before) id = .ok (b, after) ↔
      id < a.size ∧ (a.typeAt id).isReal = false ∧ a.impose id (a.typeAt id) = .ok b ∧
        after = before + (a.typeAt id).width := by
  simp only [settlePiece, bind_eq_ok_iff, operandType_eq_ok_iff]
  constructor
  · rintro ⟨_, ⟨hlt, rfl⟩, h⟩
    cases hreal : (a.typeAt id).isReal with
    | true => simp [hreal] at h
    | false =>
        simp only [hreal, Bool.false_eq_true, if_false, bind_eq_ok_iff, settle_eq_ok_iff,
          pure_eq_ok_iff, Prod.mk.injEq] at h
        obtain ⟨_, himpose, rfl, rfl⟩ := h
        exact ⟨hlt, rfl, himpose, rfl⟩
  · rintro ⟨hlt, hreal, himpose, rfl⟩
    refine ⟨_, ⟨hlt, rfl⟩, ?_⟩
    simp only [hreal, Bool.false_eq_true, if_false, bind_eq_ok_iff, settle_eq_ok_iff]
    exact ⟨b, himpose, rfl⟩

theorem foldlM_settlePiece_eq_ok_iff {before after : Nat} :
    operands.foldlM settlePiece (a, before) = .ok (b, after) ↔
      Settles a operands b ∧
        after = before + Expr.totalWidth a.typeAt operands := by
  induction operands generalizing a before with
  | nil =>
      rw [settles_nil_iff, List.foldlM_nil, pure_eq_ok_iff]
      simp [Expr.totalWidth, eq_comm]
  | cons operand operands ih =>
      simp only [List.foldlM_cons, bind_eq_ok_iff, Prod.exists, settlePiece_eq_ok_iff, ih]
      rw [settles_cons_iff, Expr.totalWidth]
      constructor
      · rintro ⟨middle, _, ⟨hlt, hreal, hfirst, rfl⟩, hrest, rfl⟩
        refine ⟨⟨hlt, hreal, middle, hfirst, hrest⟩, ?_⟩
        rw [Expr.totalWidth_eq_of_eq (hrest.typeAt_eq hfirst), Nat.add_assoc]
      · rintro ⟨⟨hlt, hreal, middle, hfirst, hrest⟩, rfl⟩
        refine ⟨middle, _, ⟨hlt, hreal, hfirst, rfl⟩, hrest, ?_⟩
        rw [Expr.totalWidth_eq_of_eq (hrest.typeAt_eq hfirst), Nat.add_assoc]

theorem settlePieces_eq_ok_iff {width : Nat} :
    a.settlePieces operands = .ok (b, width) ↔
      operands ≠ [] ∧ Settles a operands b ∧
        width = Expr.totalWidth a.typeAt operands := by
  cases operands with
  | nil => simp [settlePieces]
  | cons operand operands =>
      simp only [settlePieces, List.isEmpty_cons, Bool.false_eq_true, if_false,
        foldlM_settlePiece_eq_ok_iff, Nat.zero_add]
      simp

/-! ### The kinds of expressions -/

def Adds (a : Arena) (e : Expr) (b : Arena) : Prop :=
  (∀ operand ∈ e.operands, operand < a.size) ∧ e.Admissible a.typeAt ∧
    ∃ c, Imposes a (e.settledContexts a.typeAt) c ∧
      b = c.push e (e.selfType (if e.isChoice then c.typeAt else a.typeAt))

/-- Construction gives every settled operand its context. -/
theorem Imposes.requiredAt_settled {e : Expr} {operand : ExprId}
    (hrun : Imposes a (e.settledContexts a.typeAt) b) (hmem : operand ∈ e.settled) :
    b.requiredAt operand = some (e.settledType a.typeAt operand) := by
  have hcontext : (operand, e.settledType a.typeAt operand) ∈ e.settledContexts a.typeAt :=
    List.mem_map_of_mem (f := fun operand => (operand, e.settledType a.typeAt operand)) hmem
  exact hrun.requiredAt_eq_some _ hcontext

theorem imposes_nil_iff : Imposes a [] b ↔ a = b := by
  rw [imposes_iff]
  exact pure_eq_ok_iff

theorem adds_iff_of_settled_nil {e : Expr} (h : e.settled = []) :
    Adds a e b ↔
      (∀ operand ∈ e.operands, operand < a.size) ∧ e.Admissible a.typeAt ∧
        b = a.push e (e.selfType a.typeAt) := by
  simp only [Adds, Expr.settledContexts, h, List.map_nil, imposes_nil_iff, exists_eq_left',
    ite_self]

theorem adds_iff_of_settled_singleton {e : Expr} {operand : ExprId} (h : e.settled = [operand])
    (htype : e.settledType a.typeAt operand = a.typeAt operand) (hchoice : e.isChoice = false) :
    Adds a e b ↔
      (∀ operand ∈ e.operands, operand < a.size) ∧ e.Admissible a.typeAt ∧
        ∃ c, a.impose operand (a.typeAt operand) = .ok c ∧ b = c.push e (e.selfType a.typeAt) := by
  simp only [Adds, Expr.settledContexts, h, List.map_cons, List.map_nil, htype,
    imposes_singleton_iff, hchoice, Bool.false_eq_true, if_false]

theorem imposes_pair_iff {other : ExprId} {u : DataType} :
    Imposes a [(id, t), (other, u)] c ↔
      ∃ b, a.impose id t = .ok b ∧ b.impose other u = .ok c := by
  simp only [Imposes.cons_iff, imposes_nil_iff, exists_eq_right]

/-- A second operand still has the type that it had before the first one was settled. -/
theorem settle_settle_iff {other : ExprId} (hlt : other < a.size) :
    (∃ b, a.settle id = .ok b ∧ b.settle other = .ok c) ↔
      Imposes a [(id, a.typeAt id), (other, a.typeAt other)] c := by
  simp only [imposes_pair_iff, settle_eq_ok_iff]
  refine exists_congr fun b => and_congr_right fun hfirst => ?_
  have hevolves := (imposes_singleton_iff.mpr hfirst).evolves
  have htype : ∀ {u : DataType}, b.impose other u = .ok c → b.typeAt other = a.typeAt other :=
    fun h => (imposes_singleton_iff.mpr h).typeAt_eq hevolves List.mem_cons_self hlt
  constructor
  · intro h
    rwa [htype h] at h
  · intro h
    rwa [htype h]

theorem addBitSelect_eq_ok_iff {d : Declaration} {index : BitIndex} :
    a.addBitSelect d index = .ok b ↔ Adds a (.bitSelect d index) b := by
  unfold addBitSelect
  cases hreal : d.isReal with
  | true => simp [Adds, Expr.Admissible, hreal]
  | false =>
      cases index with
      | fixed index =>
          rw [adds_iff_of_settled_nil rfl]
          simp [Expr.operands, BitIndex.operands, Expr.Admissible, hreal, Expr.selfType,
            bind, Except.bind, pure, Except.pure, eq_comm]
      | computed index =>
          rw [adds_iff_of_settled_singleton rfl rfl rfl]
          simp only [Bool.false_eq_true, if_false, bind_eq_ok_iff, BitIndex.operands,
            List.foldlM_cons, List.foldlM_nil, pure_eq_ok_iff, exists_eq_right,
            settleOperand_eq_ok_iff, Expr.operands, List.mem_singleton, forall_eq,
            Expr.Admissible, hreal, true_and, Expr.selfType, and_assoc, exists_and_left,
            @eq_comm _ b]

theorem addPartSelect_eq_ok_iff {d : Declaration} {bounds : PartBounds} :
    a.addPartSelect d bounds = .ok b ↔ Adds a (.partSelect d bounds) b := by
  unfold addPartSelect
  cases hreal : d.isReal with
  | true => simp [Adds, Expr.Admissible, hreal]
  | false =>
      cases bounds with
      | fixed left right =>
          rw [adds_iff_of_settled_nil rfl]
          simp [Expr.operands, PartBounds.operands, Expr.Admissible, hreal, Expr.selfType,
            PartBounds.width, BitRange.size, eq_comm]
      | indexed base direction width =>
          by_cases hwidth : width = 0
          · simp [Adds, Expr.Admissible, PartBounds.width, hwidth]
          · rw [adds_iff_of_settled_singleton rfl rfl rfl]
            simp only [Bool.false_eq_true, if_false, hwidth, bind_eq_ok_iff, pure_eq_ok_iff,
              settleOperand_eq_ok_iff, Expr.operands, PartBounds.operands, List.mem_singleton,
              forall_eq, Expr.Admissible, hreal, PartBounds.width, ne_eq, not_false_eq_true,
              and_self, true_and, Expr.selfType, and_assoc, exists_and_left, @eq_comm _ b]

theorem addElement_eq_ok_iff {d : Declaration} {indices : List ExprId} :
    a.addElement d indices = .ok b ↔ Adds a (.element d indices) b := by
  unfold addElement Adds
  cases hdimensions : d.dimensions with
  | none => simp [Expr.Admissible, hdimensions]
  | some dimensions =>
      by_cases hcount : indices.length = dimensions.count
      · simp only [hcount, ne_eq, not_true, if_false, bind_eq_ok_iff,
          foldlM_settleIndex_eq_ok_iff, pure_eq_ok_iff, Settles]
        constructor
        · rintro ⟨c, ⟨hindices, hrun⟩, rfl⟩
          exact ⟨fun index hmem => (hindices index hmem).1,
            ⟨⟨dimensions, hdimensions, hcount⟩, fun index hmem => (hindices index hmem).2⟩,
            c, hrun, rfl⟩
        · rintro ⟨hlt, ⟨-, hreal⟩, c, hrun, rfl⟩
          exact ⟨c, ⟨fun index hmem => ⟨hlt index hmem, hreal index hmem⟩, hrun⟩, rfl⟩
      · simp [Expr.Admissible, hdimensions, hcount]

theorem addUnary_eq_ok_iff {op : UnaryOp} :
    a.addUnary op id = .ok b ↔ Adds a (.unary op id) b := by
  have hoperands : (∀ operand ∈ (Expr.unary op id).operands, operand < a.size) ↔ id < a.size := by
    simp [Expr.operands]
  simp only [addUnary, bind_eq_ok_iff, operandType_eq_ok_iff]
  cases hreject : (op.rejectsReal && (a.typeAt id).isReal) with
  | true =>
      have hboth := Bool.and_eq_true_iff.mp hreject
      have hnot : ¬(Expr.unary op id).Admissible a.typeAt := by
        simp [Expr.Admissible, hboth]
      constructor
      · rintro ⟨_, ⟨_, rfl⟩, h⟩
        simp [hreject] at h
      · rintro ⟨-, hadmissible, -⟩
        exact absurd hadmissible hnot
  | false =>
      have hadmissible : (Expr.unary op id).Admissible a.typeAt := by
        intro hop
        simpa [hop] using hreject
      cases hsink : op.isSink with
      | true =>
          have hsettled : (Expr.unary op id).settled = [id] := by simp [Expr.settled, hsink]
          rw [adds_iff_of_settled_singleton hsettled rfl rfl, hoperands]
          simp only [Expr.selfType, hsink, if_true]
          constructor
          · rintro ⟨_, ⟨hlt, rfl⟩, h⟩
            simp only [hreject, Bool.false_eq_true, if_false, bind_eq_ok_iff, settle_eq_ok_iff,
              pure_eq_ok_iff] at h
            obtain ⟨c, hsettle, rfl⟩ := h
            exact ⟨hlt, hadmissible, c, hsettle, rfl⟩
          · rintro ⟨hlt, -, c, hsettle, rfl⟩
            refine ⟨_, ⟨hlt, rfl⟩, ?_⟩
            simp only [hreject, Bool.false_eq_true, if_false, bind_eq_ok_iff, settle_eq_ok_iff]
            exact ⟨c, hsettle, rfl⟩
      | false =>
          rw [adds_iff_of_settled_nil (by simp [Expr.settled, hsink]), hoperands]
          simp only [Expr.selfType, hsink]
          constructor
          · rintro ⟨_, ⟨hlt, rfl⟩, h⟩
            simp only [hreject, Bool.false_eq_true, if_false, Except.ok.injEq] at h
            exact ⟨hlt, hadmissible, h.symm⟩
          · rintro ⟨hlt, -, rfl⟩
            refine ⟨_, ⟨hlt, rfl⟩, ?_⟩
            simp [hreject]

theorem arithType_eq_ok_iff {op : ArithOp} {left right : DataType} :
    arithType op left right = .ok t ↔
      (BinaryOp.arith op).Admits left right ∧ t = .mixed left right := by
  simp only [arithType, BinaryOp.Admits, DataType.mixed]
  cases hreal : left.isReal || right.isReal with
  | true =>
      have hnot : ¬(left.isReal = false ∧ right.isReal = false) := by
        rintro ⟨hleft, hright⟩
        simp [hleft, hright] at hreal
      cases hreject : (BinaryOp.arith op).rejectsReal <;> simp [hnot, @eq_comm _ t]
  | false =>
      have hboth := Bool.or_eq_false_iff.mp hreal
      simp [DataType.common_eq_ok_iff, hboth]

theorem addBinary_eq_ok_iff {op : BinaryOp} {left right : ExprId} :
    a.addBinary op left right = .ok b ↔ Adds a (.binary op left right) b := by
  have hoperands :
      (∀ operand ∈ (Expr.binary op left right).operands, operand < a.size) ↔
        left < a.size ∧ right < a.size := by
    simp [Expr.operands]
  have hdemand : ∀ {id : ExprId} {x : Unit}, a.demandOperand id = .ok x ↔ id < a.size :=
    demandOperand_eq_ok_iff
  have hbefore : ∀ {P : DataType → DataType → Prop},
      (∃ _ : Unit, left < a.size ∧ ∃ _ : Unit, right < a.size ∧
        ∃ t, (left < a.size ∧ a.typeAt left = t) ∧
          ∃ u, (right < a.size ∧ a.typeAt right = u) ∧ P t u) ↔
        (left < a.size ∧ right < a.size) ∧ P (a.typeAt left) (a.typeAt right) := by
    intro P
    constructor
    · rintro ⟨_, hleft, _, hright, _, ⟨-, rfl⟩, _, ⟨-, rfl⟩, h⟩
      exact ⟨⟨hleft, hright⟩, h⟩
    · rintro ⟨⟨hleft, hright⟩, h⟩
      exact ⟨(), hleft, (), hright, _, ⟨hleft, rfl⟩, _, ⟨hright, rfl⟩, h⟩
  simp only [addBinary, bind_eq_ok_iff, hdemand, type_eq_ok_iff]
  rw [hbefore]
  cases op with
  | bitwise f =>
      rw [adds_iff_of_settled_nil rfl, hoperands]
      simp only [bind_eq_ok_iff, DataType.common_eq_ok_iff, pure_eq_ok_iff, Expr.Admissible,
        BinaryOp.Admits, Expr.selfType, BinaryOp.resultType, and_assoc, exists_and_left,
        exists_eq_left, @eq_comm _ b]
  | arith f =>
      rw [adds_iff_of_settled_nil rfl, hoperands]
      simp only [bind_eq_ok_iff, arithType_eq_ok_iff, pure_eq_ok_iff, Expr.Admissible,
        Expr.selfType, BinaryOp.resultType, and_assoc, exists_and_left, exists_eq_left,
        @eq_comm _ b]
  | power =>
      rw [adds_iff_of_settled_singleton rfl rfl rfl, hoperands]
      simp only [bind_eq_ok_iff, settle_eq_ok_iff, pure_eq_ok_iff, Expr.Admissible,
        BinaryOp.Admits, true_and, Expr.selfType, BinaryOp.resultType, @eq_comm _ b]
  | shift f =>
      rw [adds_iff_of_settled_singleton rfl rfl rfl, hoperands]
      cases hreal : (a.typeAt left).isReal with
      | true => simp [Expr.Admissible, BinaryOp.Admits, hreal]
      | false =>
          simp only [Bool.false_eq_true, if_false, bind_eq_ok_iff, settle_eq_ok_iff,
            pure_eq_ok_iff, Expr.Admissible, BinaryOp.Admits, hreal, true_and, Expr.selfType,
            BinaryOp.resultType, @eq_comm _ b]
  | compare f =>
      unfold Adds
      rw [hoperands]
      simp only [bind_eq_ok_iff, DataType.common_eq_ok_iff, pure_eq_ok_iff, Expr.Admissible,
        BinaryOp.Admits, Expr.selfType, BinaryOp.resultType, Expr.settledContexts, Expr.settled,
        Expr.settledType, List.map_cons, List.map_nil, imposes_pair_iff]
      refine and_congr_right fun _ => ?_
      constructor
      · rintro ⟨_, ⟨hleft, hright, rfl⟩, c, hfirst, d, hsecond, rfl⟩
        exact ⟨⟨hleft, hright⟩, d, ⟨c, hfirst, hsecond⟩, rfl⟩
      · rintro ⟨⟨hleft, hright⟩, d, ⟨c, hfirst, hsecond⟩, rfl⟩
        exact ⟨_, ⟨hleft, hright, rfl⟩, c, hfirst, d, hsecond, rfl⟩
  | logic f =>
      unfold Adds
      rw [hoperands]
      simp only [bind_eq_ok_iff, pure_eq_ok_iff, Expr.Admissible, BinaryOp.Admits, true_and,
        Expr.selfType, BinaryOp.resultType, Expr.settledContexts, Expr.settled,
        Expr.settledType, List.map_cons, List.map_nil]
      refine and_congr_right fun hlt => ?_
      constructor
      · rintro ⟨c, hfirst, d, hsecond, rfl⟩
        exact ⟨d, (settle_settle_iff hlt.2).mp ⟨c, hfirst, hsecond⟩, rfl⟩
      · rintro ⟨d, hrun, rfl⟩
        obtain ⟨c, hfirst, hsecond⟩ := (settle_settle_iff hlt.2).mpr hrun
        exact ⟨c, hfirst, d, hsecond, rfl⟩

theorem choiceType_eq_ok_iff {left right : DataType} :
    choiceType left right = .ok t ↔ t = .mixed left right := by
  simp only [choiceType, DataType.mixed]
  cases hreal : left.isReal || right.isReal with
  | true => simp [@eq_comm _ t]
  | false =>
      have hboth := Bool.or_eq_false_iff.mp hreal
      simp [DataType.common_eq_ok_iff, hboth]

theorem addTernary_eq_ok_iff {op : TernaryOp} {first second third : ExprId} :
    a.addTernary op first second third = .ok b ↔ Adds a (.ternary op first second third) b := by
  have hoperands :
      (∀ operand ∈ (Expr.ternary op first second third).operands, operand < a.size) ↔
        first < a.size ∧ second < a.size ∧ third < a.size := by
    simp [Expr.operands]
  have hdemand : ∀ {id : ExprId} {x : Unit}, a.demandOperand id = .ok x ↔ id < a.size :=
    demandOperand_eq_ok_iff
  simp only [addTernary, bind_eq_ok_iff, hdemand, exists_const]
  rw [← and_assoc, ← and_assoc, and_assoc (a := first < a.size)]
  cases op with
  | conditional =>
      unfold Adds
      rw [hoperands]
      simp only [bind_eq_ok_iff, pure_eq_ok_iff, type_eq_ok_iff, settle_eq_ok_iff,
        choiceType_eq_ok_iff, Expr.Admissible, true_and, Expr.settledContexts, Expr.settled,
        Expr.settledType, List.map_cons, List.map_nil, imposes_singleton_iff, Expr.selfType,
        Expr.isChoice]
      refine and_congr_right fun hlt => exists_congr fun c => and_congr_right fun hsettle => ?_
      have hsize := (imposes_singleton_iff.mpr hsettle).size_eq
      constructor
      · rintro ⟨_, ⟨-, rfl⟩, _, ⟨-, rfl⟩, _, rfl, rfl⟩
        rfl
      · rintro rfl
        exact ⟨_, ⟨hsize ▸ hlt.2.1, rfl⟩, _, ⟨hsize ▸ hlt.2.2, rfl⟩, _, rfl, rfl⟩
  | minTypMax =>
      rw [adds_iff_of_settled_nil rfl, hoperands]
      simp only [bind_eq_ok_iff, pure_eq_ok_iff, type_eq_ok_iff, Expr.Admissible, true_and,
        Expr.selfType]
      refine and_congr_right fun hlt => ?_
      constructor
      · rintro ⟨_, ⟨-, rfl⟩, rfl⟩
        rfl
      · rintro rfl
        exact ⟨_, ⟨hlt.2.1, rfl⟩, rfl⟩

theorem addConcat_eq_ok_iff : a.addConcat operands = .ok b ↔ Adds a (.concat operands) b := by
  simp only [addConcat, bind_eq_ok_iff, Prod.exists, settlePieces_eq_ok_iff, pure_eq_ok_iff]
  constructor
  · rintro ⟨c, _, ⟨hne, ⟨hoperands, hrun⟩, rfl⟩, rfl⟩
    exact ⟨fun operand hmem => (hoperands operand hmem).1,
      ⟨hne, fun operand hmem => (hoperands operand hmem).2⟩, c, hrun, rfl⟩
  · rintro ⟨hlt, ⟨hne, hreal⟩, c, hrun, rfl⟩
    exact ⟨c, _, ⟨hne, ⟨fun operand hmem => ⟨hlt operand hmem, hreal operand hmem⟩, hrun⟩, rfl⟩,
      rfl⟩

theorem addReplicate_eq_ok_iff {count : Nat} :
    a.addReplicate count operands = .ok b ↔ Adds a (.replicate count operands) b := by
  unfold addReplicate
  by_cases hcount : count = 0
  · simp [Adds, Expr.Admissible, hcount]
  · simp only [hcount, if_false, bind_eq_ok_iff, Prod.exists, settlePieces_eq_ok_iff,
      pure_eq_ok_iff]
    constructor
    · rintro ⟨c, _, ⟨hne, ⟨hoperands, hrun⟩, rfl⟩, rfl⟩
      exact ⟨fun operand hmem => (hoperands operand hmem).1,
        ⟨hcount, hne, fun operand hmem => (hoperands operand hmem).2⟩, c, hrun, rfl⟩
    · rintro ⟨hlt, ⟨-, hne, hreal⟩, c, hrun, rfl⟩
      exact ⟨c, _, ⟨hne, ⟨fun operand hmem => ⟨hlt operand hmem, hreal operand hmem⟩, hrun⟩,
        rfl⟩, rfl⟩

/-- **One scheme for all constructors.** An expression is added exactly if its operands exist, it is
admissible for their types, and its settled operands can be given their contexts. -/
theorem add_eq_ok_iff {e : Expr} : a.add e = .ok b ↔ Adds a e b := by
  cases e with
  | literal value =>
      rw [adds_iff_of_settled_nil rfl]
      simp [add, Expr.operands, Expr.Admissible, Expr.selfType, @eq_comm _ b]
  | reference d =>
      rw [adds_iff_of_settled_nil rfl]
      simp [add, Expr.operands, Expr.Admissible, Expr.selfType, @eq_comm _ b]
  | bitSelect d index => exact addBitSelect_eq_ok_iff
  | partSelect d bounds => exact addPartSelect_eq_ok_iff
  | element d indices => exact addElement_eq_ok_iff
  | unary op operand => exact addUnary_eq_ok_iff
  | binary op left right => exact addBinary_eq_ok_iff
  | ternary op first second third => exact addTernary_eq_ok_iff
  | concat operands => exact addConcat_eq_ok_iff
  | replicate count operands => exact addReplicate_eq_ok_iff

end Arena

end VerilogExpr
