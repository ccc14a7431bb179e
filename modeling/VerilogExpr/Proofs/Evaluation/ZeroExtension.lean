import VerilogExpr.Proofs.Arena.SharedWidth
import VerilogExpr.Proofs.Evaluation.Modular

/-!
# Unsigned contexts

An operator extends its operands by its own sign, and that sign follows from its own operands.  So
an unsigned expression reads a signed operand as unsigned where the operand stands directly below an
unsigned operator.  Below a signed operator, however far down, a narrower negative operand is
extended by its sign, although the whole is unsigned: `(4'sb1111 + 4'sd0) + 8'd0` is 255, and
`4'sb1111 + (4'sd0 + 8'd0)` is 15.  If there is no such operand, the value is the one that
`Arena.zeroExtended?` computes, and a sum has the same value however it is parenthesized.
-/

namespace VerilogExpr

/-! ### Operations on low bits -/

def LowBitsAgree (width : Nat) (x y : Option Int) : Prop :=
  ∀ r, x = some r → ∃ s, y = some s ∧ s ≡ r [ZMOD 2 ^ width]

section LowBits

variable {width : Nat} {x y x' y' : Option Int} {e : Expr} {value? : ExprId → Option Value}
  {inner? inner?' : ExprId → Option Int}

theorem LowBitsAgree.refl (x : Option Int) : LowBitsAgree width x x :=
  fun r hr => ⟨r, hr, rfl⟩

theorem lowBitsAgree_none : LowBitsAgree width none y := by
  intro r hr
  cases hr

theorem LowBitsAgree.map {f : Int → Int} (h : LowBitsAgree width x x')
    (hf : ∀ r s, s ≡ r [ZMOD 2 ^ width] → f s ≡ f r [ZMOD 2 ^ width]) :
    LowBitsAgree width (do return f (← x)) (do return f (← x')) := by
  intro r hr
  obtain ⟨i, hi, hr⟩ := Option.bind_eq_some_iff.mp hr
  obtain rfl := Option.some.inj hr
  obtain ⟨j, rfl, hmod⟩ := h i hi
  exact ⟨f j, rfl, hf i j hmod⟩

theorem LowBitsAgree.map₂ {f : Int → Int → Int} (hx : LowBitsAgree width x x')
    (hy : LowBitsAgree width y y')
    (hf : ∀ r s i j, s ≡ r [ZMOD 2 ^ width] → j ≡ i [ZMOD 2 ^ width] →
      f s j ≡ f r i [ZMOD 2 ^ width]) :
    LowBitsAgree width (do return f (← x) (← y)) (do return f (← x') (← y')) := by
  intro r hr
  obtain ⟨i, hi, hr⟩ := Option.bind_eq_some_iff.mp hr
  obtain ⟨k, hk, hr⟩ := Option.bind_eq_some_iff.mp hr
  obtain rfl := Option.some.inj hr
  obtain ⟨j, rfl, hij⟩ := hx i hi
  obtain ⟨l, rfl, hkl⟩ := hy k hk
  exact ⟨f j l, rfl, hf i j k l hij hkl⟩

/-- The second operand of a power or a shift is the same number on both sides. -/
theorem LowBitsAgree.map_bits {f : Int → Nat → Int} {v? : Option Value}
    (h : LowBitsAgree width x x')
    (hf : ∀ r s k, s ≡ r [ZMOD 2 ^ width] → f s k ≡ f r k [ZMOD 2 ^ width]) :
    LowBitsAgree width (do let v ← v?; return f (← x) (← v.bits?))
      (do let v ← v?; return f (← x') (← v.bits?)) := by
  intro r hr
  obtain ⟨v, hv, hr⟩ := Option.bind_eq_some_iff.mp hr
  obtain ⟨i, hi, hr⟩ := Option.bind_eq_some_iff.mp hr
  obtain ⟨k, hk, hr⟩ := Option.bind_eq_some_iff.mp hr
  obtain rfl := Option.some.inj hr
  obtain ⟨j, rfl, hmod⟩ := h i hi
  exact ⟨f j k, by simp [hv, hk], hf i j k hmod⟩

/-- The low bits of an operation follow from those of the operands in its context. -/
theorem Expr.unbounded?_agree
    (h : ∀ operand ∈ e.covered, LowBitsAgree width (inner? operand) (inner?' operand)) :
    LowBitsAgree width (e.unbounded? value? inner?) (e.unbounded? value? inner?') := by
  cases e with
  | unary op x =>
      cases op with
      | reduce reduction => exact lowBitsAgree_none
      | logicNot => exact lowBitsAgree_none
      | plus => exact h x (by simp [covered, forwarded, UnaryOp.isSink])
      | minus =>
          have hx := h x (by simp [covered, forwarded, UnaryOp.isSink])
          exact hx.map fun r s hmod => hmod.neg
      | bitNot =>
          have hx := h x (by simp [covered, forwarded, UnaryOp.isSink])
          refine hx.map fun r s hmod => ?_
          rw [lnot_eq, lnot_eq]
          exact hmod.neg.sub_right 1
  | binary op x y =>
      cases op with
      | bitwise op =>
          have hx := h x (by simp [covered, forwarded])
          have hy := h y (by simp [covered, forwarded])
          exact hx.map₂ hy fun _ _ _ _ => op.onIntegers_modEq
      | arith op =>
          have hx := h x (by simp [covered, forwarded])
          have hy := h y (by simp [covered, forwarded])
          cases op with
          | add => exact hx.map₂ hy fun _ _ _ _ hmod hmod' => hmod.add hmod'
          | sub => exact hx.map₂ hy fun _ _ _ _ hmod hmod' => hmod.sub hmod'
          | mul => exact hx.map₂ hy fun _ _ _ _ hmod hmod' => hmod.mul hmod'
          | div => exact lowBitsAgree_none
          | mod => exact lowBitsAgree_none
      | power =>
          have hx := h x (by simp [covered, forwarded])
          exact hx.map_bits fun r s k hmod => hmod.pow k
      | shift op =>
          have hx := h x (by simp [covered, forwarded])
          cases op with
          | logicalLeft => exact hx.map_bits fun r s k hmod => hmod.mul_right (2 ^ k)
          | arithLeft => exact hx.map_bits fun r s k hmod => hmod.mul_right (2 ^ k)
          | logicalRight => exact lowBitsAgree_none
          | arithRight => exact lowBitsAgree_none
      | compare op => exact lowBitsAgree_none
      | logic op => exact lowBitsAgree_none
  | ternary op x y z =>
      cases op with
      | conditional =>
          have hy := h y (by simp [covered, forwarded])
          have hz := h z (by simp [covered, forwarded])
          simp only [unbounded?]
          cases value? x with
          | none => exact lowBitsAgree_none
          | some v =>
              cases htrue : v.isTrue with
              | true => simpa [htrue] using hy
              | false => simpa [htrue] using hz
      | minTypMax => exact h y (by simp [covered])
  | _ => exact lowBitsAgree_none

end LowBits

/-! ### The value that reads all leaves as unsigned -/

namespace Arena

variable {a b : Arena} {id root : ExprId} {n : Node} {width : Nat} {v : Value}
  {leaves : List ExprId}

/-- The value of an expression on integers of any size, every leaf read without a sign. -/
def zeroExtended? (a : Arena) (id : ExprId) : Option Int :=
  a.fold (fun _ => none)
    (fun id n inner? =>
      if n.expr.isForwarding then n.expr.unbounded? a.value? inner? else a.leaf? id false) id

def SignFree (a : Arena) (id : ExprId) (width : Nat) : Prop :=
  ∀ n, a.nodes[id]? = some n → n.expr.isForwarding = false →
    n.type.width = width ∨ ∀ r, a.leaf? id true = some r → 0 ≤ r

/-- No signed operator in the context of the expression extends a negative leaf. -/
def ExtendsWithZeros (a : Arena) (root : ExprId) : Prop :=
  ∀ id n, a.InContextOf root id → a.nodes[id]? = some n → n.type.isSigned = true →
    ∀ operand ∈ n.expr.covered, a.SignFree operand n.type.width

/-- The expression adds up the listed leaves, in this order and with any parentheses. -/
inductive SumOf (a : Arena) : ExprId → List ExprId → Prop where
  | leaf {id : ExprId} {n : Node} (hn : a.nodes[id]? = some n)
      (hleaf : n.expr.isForwarding = false) : SumOf a id [id]
  | add {id x y : ExprId} {n : Node} {xs ys : List ExprId} (hn : a.nodes[id]? = some n)
      (hadd : n.expr = .binary (.arith .add) x y) (hx : SumOf a x xs) (hy : SumOf a y ys) :
      SumOf a id (xs ++ ys)

structure UnsignedResult (a : Arena) (root : ExprId) (width : Nat) (v : Value) : Prop where
  reachable : a.Reachable
  node : ∃ n, a.nodes[root]? = some n ∧ n.state = .finalized ∧ n.type.isReal = false ∧
    n.type.isSigned = false ∧ n.type.width = width
  value : (a.eval root).outcome = .ok v

theorem Ordered.zeroExtended?_eq (h : a.Ordered) (hn : a.nodes[id]? = some n) :
    a.zeroExtended? id =
      if n.expr.isForwarding then n.expr.unbounded? a.value? a.zeroExtended?
      else a.leaf? id false := by
  conv => lhs; unfold zeroExtended?
  rw [fold]
  simp only [hn]
  split
  · refine Expr.unbounded?_eq_of_eq (fun _ _ => rfl) fun operand hmem => ?_
    rw [if_pos (h.forwarded_lt hn (Expr.mem_forwarded_of_covered hmem))]
    rfl
  · rfl

/-- The sign of a leaf shows beyond its own width only, and only if the leaf is negative. -/
theorem Sound.leaf?_agree (h : a.Sound) (hn : a.nodes[id]? = some n)
    (hleaf : n.expr.isForwarding = false) {signed : Bool}
    (hfree : signed = true → a.SignFree id width) :
    LowBitsAgree width (a.leaf? id signed) (a.leaf? id false) := by
  cases signed with
  | false => exact .refl _
  | true =>
      intro r hr
      obtain ⟨w, hw, hread⟩ := Option.bind_eq_some_iff.mp hr
      obtain ⟨i, hi, hread⟩ := Option.bind_eq_some_iff.mp hread
      obtain rfl := Option.some.inj hread
      have hunsigned : a.leaf? id false = some (Bits.truncate i w.type.width false) := by
        simp [leaf?, hw, hi]
      refine ⟨_, hunsigned, ?_⟩
      rcases hfree rfl n hn hleaf with hwidth | hnonneg
      · -- as wide as its context: both readings are the bits themselves
        obtain ⟨htype, -⟩ := (h.ensures_eval (lt_size_of_node hn)).of_eq_ok
          (value?_eq_some_iff.mp hw)
        rw [typeAt_of_node hn] at htype
        rw [htype, hwidth]
        calc
          Bits.truncate i width false ≡ i [ZMOD 2 ^ width] := Bits.truncate_modEq i width false
          _ ≡ Bits.truncate i width true [ZMOD 2 ^ width] :=
            (Bits.truncate_modEq i width true).symm
      · rw [Bits.truncate_unsigned_of_nonneg (hnonneg _ hr)]

/-- In a context that extends with zeros the signs of the operators make no difference to the low
bits.  The induction is on the handle, and goes down from the root of the context. -/
theorem Sound.zeroExtended?_agree (h : a.Sound) (hextends : a.ExtendsWithZeros root)
    (hcontext : a.InContextOf root id) (hn : a.nodes[id]? = some n) (hrequired : n.required ≠ none)
    (hreal : n.type.isReal = false) (hwidth : n.expr.isForwarding = true → n.type.width = width)
    {signed : Bool} (hfree : signed = true → a.SignFree id width) :
    LowBitsAgree width (a.unbounded? id signed) (a.zeroExtended? id) := by
  induction id using Nat.strongRecOn generalizing n signed with
  | ind id ih =>
      rw [h.ordered.unbounded?_eq hn, h.ordered.zeroExtended?_eq hn]
      cases hforward : n.expr.isForwarding with
      | false => exact h.leaf?_agree hn hforward hfree
      | true =>
          simp only [if_true]
          refine Expr.unbounded?_agree fun operand hmem => ?_
          have hforwarded := Expr.mem_forwarded_of_covered hmem
          obtain ⟨m, hm⟩ := h.ordered.exists_covered hn hmem
          obtain ⟨hfinal, hintegral, hsame⟩ := h.width_eq_of_covered hn hrequired hreal hmem hm
          refine ih operand (h.ordered.forwarded_lt hn hforwarded) (hcontext.tail ⟨n, hn, hmem⟩) hm
            hfinal hintegral (fun hop => (hsame hop).trans (hwidth hforward)) fun hsigned => ?_
          rw [← hwidth hforward]
          exact hextends id n hcontext hn hsigned operand hmem

/-- An unsigned result is what its operators make of the leaves, read without a sign, and cut to its
width. -/
theorem UnsignedResult.eq_zeroExtended (h : a.UnsignedResult root width v)
    (hmodular : a.Modular root) (hextends : a.ExtendsWithZeros root) :
    ∃ r, a.zeroExtended? root = some r ∧ v.number = .integer (r % 2 ^ width) := by
  obtain ⟨n, hn, hstate, hreal, hunsigned, rfl⟩ := h.node
  have hrequired := Node.state_eq_finalized_iff.mp hstate
  have hsound := h.reachable.sound
  obtain ⟨r, hr, rfl⟩ := hsound.eval_eq_truncated hmodular hn hrequired hreal h.value
  rw [hunsigned] at hr
  obtain ⟨s, hs, hmod⟩ := hsound.zeroExtended?_agree hextends .refl hn hrequired hreal
    (fun _ => rfl) (fun hsigned => absurd hsigned Bool.false_ne_true) r hr
  refine ⟨s, hs, ?_⟩
  rw [Value.truncated, hunsigned, Bits.truncate_unsigned, ← hmod]

/-! ### Sums -/

theorem SumOf.modular (h : a.SumOf root leaves) : a.Modular root := by
  induction h with
  | leaf hn hleaf => exact .leaf hn hleaf
  | add hn hadd hx hy ihx ihy =>
      refine .operator hn (by simp [hadd, Expr.isModular]) fun operand hmem => ?_
      rw [hadd] at hmem
      rcases List.mem_pair.mp hmem with rfl | rfl
      · exact ihx
      · exact ihy

/-- Wherever the parentheses stand, a sum is the sum of its leaves. -/
theorem SumOf.zeroExtended?_eq (h : a.SumOf root leaves) (hordered : a.Ordered) {r : Int}
    (hr : a.zeroExtended? root = some r) :
    ∃ readings : List Int, leaves.map (fun leaf => a.leaf? leaf false) = readings.map some ∧
      r = readings.sum := by
  induction h generalizing r with
  | leaf hn hleaf =>
      rw [hordered.zeroExtended?_eq hn, hleaf] at hr
      exact ⟨[r], by simpa using hr, by simp⟩
  | add hn hadd hx hy ihx ihy =>
      rw [hordered.zeroExtended?_eq hn, hadd] at hr
      obtain ⟨s, hs, hr⟩ := Option.bind_eq_some_iff.mp hr
      obtain ⟨t, ht, hr⟩ := Option.bind_eq_some_iff.mp hr
      obtain rfl := Option.some.inj hr
      obtain ⟨left, hleft, rfl⟩ := ihx hs
      obtain ⟨right, hright, rfl⟩ := ihy ht
      exact ⟨left ++ right, by simp [hleft, hright], by simp⟩

/-- Sums of the same leaves are equal, in any order and with any parentheses. -/
theorem UnsignedResult.number_eq_of_perm {w : Value} {root' : ExprId} {leaves' : List ExprId}
    (hv : a.UnsignedResult root width v) (hw : b.UnsignedResult root' width w)
    (hsum : a.SumOf root leaves) (hsum' : b.SumOf root' leaves')
    (hextends : a.ExtendsWithZeros root) (hextends' : b.ExtendsWithZeros root')
    (hperm : (leaves.map fun leaf => a.leaf? leaf false).Perm
      (leaves'.map fun leaf => b.leaf? leaf false)) : v.number = w.number := by
  obtain ⟨r, hr, hnumber⟩ := hv.eq_zeroExtended hsum.modular hextends
  obtain ⟨s, hs, hnumber'⟩ := hw.eq_zeroExtended hsum'.modular hextends'
  obtain ⟨left, hleft, rfl⟩ := hsum.zeroExtended?_eq hv.reachable.sound.ordered hr
  obtain ⟨right, hright, rfl⟩ := hsum'.zeroExtended?_eq hw.reachable.sound.ordered hs
  rw [hleft, hright] at hperm
  have hreadings : left.Perm right := (List.map_perm_map_iff (Option.some_injective Int)).mp hperm
  rw [hnumber, hnumber', hreadings.sum_eq]

/-- **Unsigned contexts extend with zeros** unless a signed operator in them extends a negative
leaf.  Then the value of a final unsigned expression is the one on integers of any size that reads
all leaves without a sign, cut to the width; and sums over the same leaves have the same value
however they are parenthesized. -/
theorem UnsignedResult.zeroExtends (h : a.UnsignedResult root width v) (hmodular : a.Modular root)
    (hextends : a.ExtendsWithZeros root) :
    (∃ r, a.zeroExtended? root = some r ∧ v.number = .integer (r % 2 ^ width)) ∧
    ∀ leaves, a.SumOf root leaves → ∀ (b : Arena) (root' : ExprId) (leaves' : List ExprId)
      (w : Value), b.UnsignedResult root' width w → b.SumOf root' leaves' →
      b.ExtendsWithZeros root' →
      (leaves.map fun leaf => a.leaf? leaf false).Perm
        (leaves'.map fun leaf => b.leaf? leaf false) →
      v.number = w.number := by
  constructor
  · exact h.eq_zeroExtended hmodular hextends
  · intro leaves hsum b root' leaves' w hw hsum' hextends' hperm
    exact h.number_eq_of_perm hw hsum hsum' hextends hextends' hperm

/-- Where no operator is signed, no leaf is extended by its sign. -/
theorem extendsWithZeros_of_unsigned
    (h : ∀ n ∈ a.nodes, n.expr.isForwarding = true → n.type.isSigned = false) :
    a.ExtendsWithZeros root := by
  intro id n _ hn hsigned operand hmem
  have hforward := Expr.isForwarding_of_mem_forwarded (Expr.mem_forwarded_of_covered hmem)
  have hunsigned := h n (Array.mem_of_getElem? hn) hforward
  exact absurd (hsigned.symm.trans hunsigned) (by simp)

/-- The sum of `4'sb1111`, `4'sd0` and `8'd0` at its own width.  Two of them, or their sum and the
third one, are given as the operands of each addition. -/
def sumOfThree (inner : Sign) (x y left right : ExprId) : Arena where
  nodes :=
    let four := DataType.sizedVector .signed 4
    let eight := DataType.sizedVector .unsigned 8
    let inner := DataType.sizedVector inner 8
    #[⟨.literal (.truncated four (-1)), four, some inner⟩,
      ⟨.literal (.truncated four 0), four, some inner⟩,
      ⟨.literal (.truncated eight 0), eight, some eight⟩,
      ⟨.binary (.arith .add) x y, inner, some eight⟩,
      ⟨.binary (.arith .add) left right, eight, some eight⟩]

def sumActions (x y left right : ExprId) : List Action :=
  [.add (.literal (.truncated (.sizedVector .signed 4) (-1))),
    .add (.literal (.truncated (.sizedVector .signed 4) 0)),
    .add (.literal (.truncated (.sizedVector .unsigned 8) 0)),
    .add (.binary (.arith .add) x y), .add (.binary (.arith .add) left right), .settle 4]

theorem unsignedResult_sumOfThree :
    (sumOfThree .signed 0 1 3 2).UnsignedResult 4 8 ⟨.sizedVector .unsigned 8, .integer 255⟩ ∧
    (sumOfThree .unsigned 1 2 0 3).UnsignedResult 4 8 ⟨.sizedVector .unsigned 8, .integer 15⟩ ∧
    (sumOfThree .unsigned 0 2 3 1).UnsignedResult 4 8 ⟨.sizedVector .unsigned 8, .integer 15⟩ := by
  refine ⟨⟨⟨sumActions 0 1 3 2, ?_⟩, ⟨_, rfl, rfl, rfl, rfl, rfl⟩, ?_⟩,
    ⟨⟨sumActions 1 2 0 3, ?_⟩, ⟨_, rfl, rfl, rfl, rfl, rfl⟩, ?_⟩,
    ⟨⟨sumActions 0 2 3 1, ?_⟩, ⟨_, rfl, rfl, rfl, rfl, rfl⟩, ?_⟩⟩
  all_goals decide +kernel

/-- With the signed operands together the sum is 255, although they read as 15 and 0. -/
theorem signExtends_sumOfThree :
    (sumOfThree .signed 0 1 3 2).UnsignedResult 4 8 ⟨.sizedVector .unsigned 8, .integer 255⟩ ∧
      (sumOfThree .signed 0 1 3 2).Modular 4 ∧
      (sumOfThree .signed 0 1 3 2).SumOf 4 [0, 1, 2] ∧
      (sumOfThree .signed 0 1 3 2).zeroExtended? 4 = some 15 ∧ (255 : Int) ≠ 15 % 2 ^ 8 ∧
      (sumOfThree .unsigned 1 2 0 3).UnsignedResult 4 8 ⟨.sizedVector .unsigned 8, .integer 15⟩ ∧
      (sumOfThree .unsigned 1 2 0 3).SumOf 4 [0, 1, 2] ∧
      [0, 1, 2].map (fun leaf => (sumOfThree .signed 0 1 3 2).leaf? leaf false) =
        [0, 1, 2].map fun leaf => (sumOfThree .unsigned 1 2 0 3).leaf? leaf false := by
  have hsum : (sumOfThree .signed 0 1 3 2).SumOf 4 [0, 1, 2] :=
    .add rfl rfl (.add rfl rfl (.leaf rfl rfl) (.leaf rfl rfl)) (.leaf rfl rfl)
  have hregrouped : (sumOfThree .unsigned 1 2 0 3).SumOf 4 [0, 1, 2] :=
    .add rfl rfl (.leaf rfl rfl) (.add rfl rfl (.leaf rfl rfl) (.leaf rfl rfl))
  obtain ⟨hsigned, hunsigned, -⟩ := unsignedResult_sumOfThree
  exact ⟨hsigned, hsum.modular, hsum, by decide +kernel, by decide, hunsigned, hregrouped,
    by decide +kernel⟩

theorem zeroExtends_sumOfThree :
    (∃ r, (sumOfThree .unsigned 1 2 0 3).zeroExtended? 4 = some r ∧
      Number.integer 15 = .integer (r % 2 ^ 8)) ∧
    ∃ v w, (sumOfThree .unsigned 1 2 0 3).UnsignedResult 4 8 v ∧
      (sumOfThree .unsigned 0 2 3 1).UnsignedResult 4 8 w ∧ v.number = w.number := by
  have hextends : (sumOfThree .unsigned 1 2 0 3).ExtendsWithZeros 4 :=
    extendsWithZeros_of_unsigned (by decide +kernel)
  have hextends' : (sumOfThree .unsigned 0 2 3 1).ExtendsWithZeros 4 :=
    extendsWithZeros_of_unsigned (by decide +kernel)
  have hsum : (sumOfThree .unsigned 1 2 0 3).SumOf 4 [0, 1, 2] :=
    .add rfl rfl (.leaf rfl rfl) (.add rfl rfl (.leaf rfl rfl) (.leaf rfl rfl))
  have hsum' : (sumOfThree .unsigned 0 2 3 1).SumOf 4 [0, 2, 1] :=
    .add rfl rfl (.add rfl rfl (.leaf rfl rfl) (.leaf rfl rfl)) (.leaf rfl rfl)
  obtain ⟨-, hresult, hresult'⟩ := unsignedResult_sumOfThree
  obtain ⟨hvalue, hsums⟩ := hresult.zeroExtends hsum.modular hextends
  have hequal := hsums _ hsum _ 4 [0, 2, 1] _ hresult' hsum' hextends' (by decide +kernel)
  exact ⟨hvalue, _, _, hresult, hresult', hequal⟩

end Arena

end VerilogExpr
