import VerilogExpr.Proofs.Text.Structure

/-!
# Texts have one reading

Two expressions with the same text have the same structure (`Arena.Reachable.text_unambiguous`), as
long as they consist of operators, concatenations and replications over named declarations and
integers that are not negative.

The text is divided from left to right.  The text of an operand determines the operand and its own
end, since what follows cannot belong to it (`Arena.OperandUnique`); the text of a whole expression
determines the expression if it stands at the end or before a closing character
(`Arena.PlainUnique`).  Operands determine the operations made of them, and an operation between
parentheses is an operand again, so both hold at every depth.
-/

namespace VerilogExpr

/-! ### First characters -/

def Expr.lead : Expr → Lead
  | literal _ => .digit
  | unary _ _ => .parenthesis
  | binary _ _ _ => .parenthesis
  | ternary _ _ _ _ => .parenthesis
  | concat _ => .brace
  | replicate _ _ => .brace
  | _ => .letter

theorem Expr.lead_eq_parenthesis_iff {e : Expr} : e.lead = .parenthesis ↔ e.isOperation = true := by
  cases e <;> simp [lead, isOperation]

theorem UnaryOp.lead?_symbol (op : UnaryOp) (rest : List Char) :
    lead? (op.symbol.toList ++ rest) = none := by
  obtain ⟨c, symbol, hsymbol, hchar⟩ := op.exists_symbol_eq
  rw [hsymbol]
  exact lead?_of_isSymbolChar hchar _

namespace Arena

variable {a b : Arena} {x y z : ExprId} {e e' : Expr} {s t rest rest' more : List Char}
  {xs ys : List ExprId}

theorem Legible.hasExpr (h : a.Legible x) : ∃ e, a.HasExpr x e := by
  cases h <;> exact ⟨_, ‹a.HasExpr x _›⟩

/-- The first character of an operand tells what kind of expression it is. -/
theorem Legible.lead?_eq (h : a.Legible x) (ha : a.Ordered) (hx : a.HasExpr x e) :
    lead? (a.operandSpelling x) = some e.lead := by
  cases hoperation : e.isOperation with
  | true =>
      rw [ha.operandSpelling_of_operation hx hoperation,
        Expr.lead_eq_parenthesis_iff.mpr hoperation]
      rfl
  | false =>
      rw [ha.operandSpelling_of_atom hx hoperation]
      cases h with
      | literal hx' hn =>
          rw [hx.unique hx', ha.spelling_literal hx']
          exact (Value.isNumeral_text hn).lead?_eq
      | reference hx' hname =>
          rw [hx.unique hx', ha.spelling_reference hx']
          exact hname.lead?_eq
      | concat hx' =>
          rw [hx.unique hx', ha.spelling_concat hx']
          rfl
      | replicate hx' =>
          rw [hx.unique hx', ha.spelling_replicate hx']
          rfl
      | unary hx' => cases hx.unique hx' ▸ hoperation
      | binary hx' => cases hx.unique hx' ▸ hoperation
      | ternary hx' => cases hx.unique hx' ▸ hoperation

/-- Operands whose texts agree from the start are of the same class. -/
theorem lead_eq_of_spelling (ha : a.Ordered) (hb : b.Ordered) (hx : a.Legible x)
    (hy : b.Legible y) (hex : a.HasExpr x e) (hey : b.HasExpr y e')
    (h : a.operandSpelling x ++ rest = b.operandSpelling y ++ rest') : e.lead = e'.lead := by
  have hleft := lead?_append (hx.lead?_eq ha hex) rest
  rw [h, lead?_append (hy.lead?_eq hb hey) rest'] at hleft
  exact (Option.some.inj hleft).symm

/-- No operand starts with an operator. -/
theorem Legible.symbol_ne (hx : a.Legible x) (ha : a.Ordered) (op : UnaryOp) :
    op.symbol.toList ++ s ≠ a.operandSpelling x ++ t := by
  intro h
  obtain ⟨e, he⟩ := hx.hasExpr
  have hlead := lead?_append (hx.lead?_eq ha he) t
  rw [← h, op.lead?_symbol] at hlead
  cases hlead

/-! ### Operands and whole expressions -/

def isClosing (c : Char) : Bool := c = ')' || c = ',' || c = '\x7d'

def Ends (rest : List Char) : Prop := ∀ c, rest.head? = some c → isClosing c = true

theorem ends_nil : Ends [] := by
  intro c hc
  cases hc

theorem ends_cons {c : Char} (h : isClosing c = true) (rest : List Char) : Ends (c :: rest) := by
  intro d hd
  exact Option.some.inj hd ▸ h

theorem Ends.stops (h : Ends rest) : Stops isWordChar rest := by
  intro c hc
  have hclosing := h c hc
  simp only [isClosing, Bool.or_eq_true, decide_eq_true_eq] at hclosing
  obtain (rfl | rfl) | rfl := hclosing <;> decide

theorem Ends.ne_cons {c : Char} (h : Ends rest) (hc : isClosing c = false) : rest ≠ c :: more := by
  rintro rfl
  exact Bool.false_ne_true (hc.symm.trans (h c rfl))

/-- The text of the operand belongs to no other operand, wherever it stands. -/
def OperandUnique (a b : Arena) (x : ExprId) : Prop :=
  ∀ y rest rest', b.Legible y → Stops isWordChar rest → Stops isWordChar rest' →
    a.operandSpelling x ++ rest = b.operandSpelling y ++ rest' →
      a.SameStructure b x y ∧ rest = rest'

/-- The text of the expression belongs to no other expression, wherever it stands as a whole. -/
def PlainUnique (a b : Arena) (x : ExprId) : Prop :=
  ∀ y rest rest', b.Legible y → Ends rest → Ends rest' →
    a.spelling x ++ rest = b.spelling y ++ rest' → a.SameStructure b x y ∧ rest = rest'

section Unique

variable (ha : a.Ordered) (hb : b.Ordered)
include ha hb

/-- Parentheses make an operand of an operation. -/
theorem unique_of_operation (hx : a.Legible x) (hex : a.HasExpr x e) (he : e.isOperation = true)
    (hplain : PlainUnique a b x) : OperandUnique a b x ∧ PlainUnique a b x := by
  refine ⟨?_, hplain⟩
  intro y rest rest' hy _ _ h
  obtain ⟨e', hey⟩ := hy.hasExpr
  have hlead := lead_eq_of_spelling ha hb hx hy hex hey h
  have he' : e'.isOperation = true := by
    rwa [← Expr.lead_eq_parenthesis_iff, ← hlead, Expr.lead_eq_parenthesis_iff]
  rw [ha.operandSpelling_of_operation hex he, hb.operandSpelling_of_operation hey he'] at h
  simp only [List.cons_append, List.append_assoc, List.cons.injEq, true_and,
    List.nil_append] at h
  obtain ⟨hsame, hrest⟩ := hplain y _ _ hy (ends_cons rfl _) (ends_cons rfl _) h
  exact ⟨hsame, (List.cons.inj hrest).2⟩

/-- An expression that is no operation is spelled in the same way everywhere, so it cannot be the
left end of an operation. -/
theorem unique_of_atom (hx : a.Legible x) (hex : a.HasExpr x e) (he : e.isOperation = false)
    (hunique : OperandUnique a b x) : OperandUnique a b x ∧ PlainUnique a b x := by
  refine ⟨hunique, ?_⟩
  intro y rest rest' hy hrest hrest' h
  have hspace : isClosing ' ' = false := rfl
  have hoperand := hunique y rest rest' hy hrest.stops hrest'.stops
  rw [← ha.operandSpelling_of_atom hex he] at h
  cases hy with
  | unary hey hp =>
      rw [hb.spelling_unary hey, List.append_assoc] at h
      exact absurd h.symm (hx.symbol_ne ha _)
  | binary hey hp hq =>
      rw [hb.spelling_binary hey, List.append_assoc, List.cons_append] at h
      have hend := (hunique _ _ _ hp hrest.stops (stops_cons (by decide) _) h).2
      exact absurd hend (hrest.ne_cons hspace)
  | ternary hey hp hq hr =>
      rw [hb.spelling_ternary hey, List.append_assoc, List.cons_append] at h
      have hend := (hunique _ _ _ hp hrest.stops (stops_cons (by decide) _) h).2
      exact absurd hend (hrest.ne_cons hspace)
  | _ =>
      rw [← hb.operandSpelling_of_atom ‹b.HasExpr y _› rfl] at h
      exact hoperand h

theorem plainUnique_of_unary {op : UnaryOp} (hex : a.HasExpr x (.unary op z)) (hz : a.Legible z)
    (hunique : OperandUnique a b z) : PlainUnique a b x := by
  intro y rest rest' hy hrest hrest' h
  have hlegible := hy
  rw [ha.spelling_unary hex, List.append_assoc] at h
  cases hy with
  | unary hey hp =>
      rw [hb.spelling_unary hey, List.append_assoc] at h
      obtain ⟨e, he⟩ := hz.hasExpr
      obtain ⟨e', he'⟩ := hp.hasExpr
      obtain ⟨hsymbol, hoperand⟩ := run_unique (fun _ => UnaryOp.isSymbolChar_of_mem)
        (fun _ => UnaryOp.isSymbolChar_of_mem)
        (stops_of_lead? (lead?_append (hz.lead?_eq ha he) rest))
        (stops_of_lead? (lead?_append (hp.lead?_eq hb he') rest')) h
      obtain rfl := UnaryOp.symbol_injective hsymbol
      obtain ⟨hsame, hend⟩ := hunique _ _ _ hp hrest.stops hrest'.stops hoperand
      exact ⟨.unary hex hey hsame, hend⟩
  | binary hey hp hq =>
      rw [hb.spelling_binary hey, List.append_assoc] at h
      exact absurd h (hp.symbol_ne hb op)
  | ternary hey hp hq hr =>
      rw [hb.spelling_ternary hey, List.append_assoc] at h
      exact absurd h (hp.symbol_ne hb op)
  | _ =>
      rw [← hb.operandSpelling_of_atom ‹b.HasExpr y _› rfl] at h
      exact absurd h (hlegible.symbol_ne hb op)

/-- An operation with its operator behind the first operand is none with the operator in front, and
no operand by itself. -/
theorem exists_infix_of_unique (hunique : OperandUnique a b z) (hz : a.Legible z)
    (hy : b.Legible y) (hrest' : Ends rest')
    (h : a.operandSpelling z ++ ' ' :: more = b.spelling y ++ rest') :
    (∃ op p q, b.HasExpr y (.binary op p q) ∧ b.Legible p ∧ b.Legible q ∧
      a.SameStructure b z p ∧
      more = op.symbol.toList ++ ' ' :: (b.operandSpelling q ++ rest')) ∨
    ∃ op p q r, b.HasExpr y (.ternary op p q r) ∧ b.Legible p ∧ b.Legible q ∧ b.Legible r ∧
      a.SameStructure b z p ∧
      more = op.symbol.toList ++ ' ' :: (b.operandSpelling q ++
        ' ' :: ':' :: ' ' :: (b.operandSpelling r ++ rest')) := by
  have hlegible := hy
  have hspace : Stops isWordChar (' ' :: more) := stops_cons (by decide) _
  cases hy with
  | unary hey hp =>
      rw [hb.spelling_unary hey, List.append_assoc] at h
      exact absurd h.symm (hz.symbol_ne ha _)
  | @binary _ p q op hey hp hq =>
      rw [hb.spelling_binary hey] at h
      simp only [List.append_assoc, List.cons_append] at h
      obtain ⟨hsame, hmore⟩ := hunique _ _ _ hp hspace (stops_cons (by decide) _) h
      exact .inl ⟨op, p, q, hey, hp, hq, hsame, (List.cons.inj hmore).2⟩
  | @ternary _ p q r op hey hp hq hr =>
      rw [hb.spelling_ternary hey] at h
      simp only [List.append_assoc, List.cons_append] at h
      obtain ⟨hsame, hmore⟩ := hunique _ _ _ hp hspace (stops_cons (by decide) _) h
      exact .inr ⟨op, p, q, r, hey, hp, hq, hr, hsame, (List.cons.inj hmore).2⟩
  | _ =>
      rw [← hb.operandSpelling_of_atom ‹b.HasExpr y _› rfl] at h
      have hend := (hunique _ _ _ hlegible hspace hrest'.stops h).2
      exact absurd hend.symm (hrest'.ne_cons rfl)

theorem plainUnique_of_binary {p q : ExprId} {op : BinaryOp} (hex : a.HasExpr x (.binary op p q))
    (hp : a.Legible p) (hpUnique : OperandUnique a b p) (hqUnique : OperandUnique a b q) :
    PlainUnique a b x := by
  intro y rest rest' hy hrest hrest' h
  rw [ha.spelling_binary hex] at h
  simp only [List.append_assoc, List.cons_append] at h
  rcases exists_infix_of_unique ha hb hpUnique hp hy hrest' h with
    ⟨op', p', q', hey, -, hq', hsame, hmore⟩ | ⟨op', p', q', r', hey, -, -, -, -, hmore⟩
  · obtain ⟨hsymbol, hoperand⟩ := symbols_unique (fun _ => BinaryOp.isSymbolChar_of_mem)
      (fun _ => BinaryOp.isSymbolChar_of_mem) hmore
    obtain rfl := BinaryOp.symbol_injective hsymbol
    obtain ⟨hright, hend⟩ := hqUnique _ _ _ hq' hrest.stops hrest'.stops hoperand
    exact ⟨.binary hex hey hsame hright, hend⟩
  · have hsymbol := (symbols_unique (fun _ => BinaryOp.isSymbolChar_of_mem)
      (fun _ => TernaryOp.isSymbolChar_of_mem) hmore).1
    exact absurd hsymbol (op.symbol_ne_ternary op')

theorem plainUnique_of_ternary {p q r : ExprId} {op : TernaryOp}
    (hex : a.HasExpr x (.ternary op p q r)) (hp : a.Legible p) (hpUnique : OperandUnique a b p)
    (hqUnique : OperandUnique a b q) (hrUnique : OperandUnique a b r) : PlainUnique a b x := by
  intro y rest rest' hy hrest hrest' h
  rw [ha.spelling_ternary hex] at h
  simp only [List.append_assoc, List.cons_append] at h
  rcases exists_infix_of_unique ha hb hpUnique hp hy hrest' h with
    ⟨op', p', q', hey, -, -, -, hmore⟩ | ⟨op', p', q', r', hey, -, hq', hr', hsame, hmore⟩
  · have hsymbol := (symbols_unique (fun _ => TernaryOp.isSymbolChar_of_mem)
      (fun _ => BinaryOp.isSymbolChar_of_mem) hmore).1
    exact absurd hsymbol.symm (op'.symbol_ne_ternary op)
  · obtain ⟨hsymbol, hoperands⟩ := symbols_unique (fun _ => TernaryOp.isSymbolChar_of_mem)
      (fun _ => TernaryOp.isSymbolChar_of_mem) hmore
    obtain rfl := TernaryOp.symbol_injective hsymbol
    obtain ⟨hsecond, hcolon⟩ := hqUnique _ _ _ hq' (stops_cons (by decide) _)
      (stops_cons (by decide) _) hoperands
    simp only [List.cons.injEq, true_and] at hcolon
    obtain ⟨hthird, hend⟩ := hrUnique _ _ _ hr' hrest.stops hrest'.stops hcolon
    exact ⟨.ternary hex hey hsame hsecond hthird, hend⟩

/-! ### Words and lists -/

theorem operandUnique_of_literal {v : Value} {n : Nat} (hex : a.HasExpr x (.literal v))
    (hn : v.number = .integer n) : OperandUnique a b x := by
  intro y rest rest' hy hrest hrest' h
  have hlead : ∀ e', b.HasExpr y e' → Lead.digit = e'.lead := fun e' hey =>
    lead_eq_of_spelling ha hb (.literal hex hn) hy hex hey h
  cases hy with
  | literal hey hm =>
      rw [ha.operandSpelling_of_atom hex rfl, ha.spelling_literal hex,
        hb.operandSpelling_of_atom hey rfl, hb.spelling_literal hey] at h
      obtain ⟨htext, hend⟩ := run_unique (Value.isNumeral_text hn).chars
        (Value.isNumeral_text hm).chars hrest hrest' h
      exact ⟨.literal hex hey (String.toList_injective htext), hend⟩
  | _ => cases hlead _ ‹b.HasExpr y _›

theorem operandUnique_of_reference {d : Declaration} (hex : a.HasExpr x (.reference d))
    (hname : IsIdentifier d.name) : OperandUnique a b x := by
  intro y rest rest' hy hrest hrest' h
  have hlead : ∀ e', b.HasExpr y e' → Lead.letter = e'.lead := fun e' hey =>
    lead_eq_of_spelling ha hb (.reference hex hname) hy hex hey h
  cases hy with
  | reference hey hname' =>
      rw [ha.operandSpelling_of_atom hex rfl, ha.spelling_reference hex,
        hb.operandSpelling_of_atom hey rfl, hb.spelling_reference hey] at h
      obtain ⟨hsame, hend⟩ := run_unique
        (fun c hc => isWordChar_of_isNameChar (hname.chars c hc))
        (fun c hc => isWordChar_of_isNameChar (hname'.chars c hc)) hrest hrest' h
      exact ⟨.reference hex hey (String.toList_injective hsame), hend⟩
  | _ => cases hlead _ ‹b.HasExpr y _›

omit hb in
/-- A number before an opening brace is a count, not the start of an operand. -/
theorem Legible.numeral_ne_operand (hx : a.Legible x) (hs : IsNumeral s)
    (hrest : Stops isWordChar rest) (hbrace : rest.head? ≠ some '\x7b') :
    a.operandSpelling x ++ rest ≠ s ++ '\x7b' :: more := by
  intro h
  have hlead : ∀ e, a.HasExpr x e → e.lead = .digit := by
    intro e he
    have hleft := lead?_append (hx.lead?_eq ha he) rest
    rw [h, lead?_append hs.lead?_eq] at hleft
    exact (Option.some.inj hleft).symm
  cases hx with
  | literal hex hn =>
      rw [ha.operandSpelling_of_atom hex rfl, ha.spelling_literal hex] at h
      obtain ⟨-, rfl⟩ := run_unique (Value.isNumeral_text hn).chars hs.chars hrest
        (stops_cons (by decide) _) h
      exact hbrace rfl
  | _ => cases hlead _ ‹a.HasExpr x _›

omit hb in
/-- No expression is a number with a brace behind it, which is how the count of a replication is
written. -/
theorem Legible.numeral_ne (hx : a.Legible x) (hs : IsNumeral s) (hrest : Ends rest) :
    a.spelling x ++ rest ≠ s ++ '\x7b' :: more := by
  intro h
  have hlegible := hx
  have hbrace : rest.head? ≠ some '\x7b' := fun hhead => absurd (hrest _ hhead) (by decide)
  have hspace : ∀ t : List Char, (' ' :: t).head? ≠ some '\x7b' := by simp
  cases hx with
  | @unary _ p op hex hp =>
      rw [ha.spelling_unary hex, List.append_assoc] at h
      have hlead := lead?_append hs.lead?_eq ('\x7b' :: more)
      rw [← h, op.lead?_symbol] at hlead
      cases hlead
  | binary hex hp hq =>
      rw [ha.spelling_binary hex, List.append_assoc, List.cons_append] at h
      exact hp.numeral_ne_operand ha hs (stops_cons (by decide) _) (hspace _) h
  | ternary hex hp hq hr =>
      rw [ha.spelling_ternary hex, List.append_assoc, List.cons_append] at h
      exact hp.numeral_ne_operand ha hs (stops_cons (by decide) _) (hspace _) h
  | _ =>
      rw [← ha.operandSpelling_of_atom ‹a.HasExpr x _› rfl] at h
      exact hlegible.numeral_ne_operand ha hs hrest.stops hbrace h

omit hb in
theorem Legible.closing_ne (hx : a.Legible x) : a.spelling x ++ rest ≠ '\x7d' :: more := by
  intro h
  have hnone : lead? ('\x7d' :: more) = none := by rfl
  have hoperand : ∀ z t, a.Legible z → a.operandSpelling z ++ t ≠ '\x7d' :: more := by
    intro z t hz heq
    obtain ⟨e, he⟩ := hz.hasExpr
    have hlead := lead?_append (hz.lead?_eq ha he) t
    rw [heq, hnone] at hlead
    cases hlead
  have hlegible := hx
  cases hx with
  | @unary _ p op hex hp =>
      rw [ha.spelling_unary hex, List.append_assoc] at h
      obtain ⟨c, symbol, hsymbol, hchar⟩ := op.exists_symbol_eq
      rw [hsymbol, List.cons_append] at h
      rw [(List.cons.inj h).1] at hchar
      exact absurd hchar (by decide)
  | binary hex hp hq =>
      rw [ha.spelling_binary hex, List.append_assoc] at h
      exact hoperand _ _ hp h
  | ternary hex hp hq hr =>
      rw [ha.spelling_ternary hex, List.append_assoc] at h
      exact hoperand _ _ hp h
  | _ =>
      rw [← ha.operandSpelling_of_atom ‹a.HasExpr x _› rfl] at h
      exact hoperand _ _ hlegible h

omit ha hb in
theorem ends_restSpelling (operands : List ExprId) :
    Ends (a.restSpelling operands ++ '\x7d' :: rest) := by
  cases operands with
  | nil => exact ends_cons rfl _
  | cons x operands => exact ends_cons rfl _

omit ha hb in
/-- Each operand ends at a comma or at the closing brace, so the lists are gone through together. -/
theorem restSpelling_unique (hxs : ∀ x ∈ xs, PlainUnique a b x) (hys : ∀ y ∈ ys, b.Legible y)
    (h : a.restSpelling xs ++ '\x7d' :: rest = b.restSpelling ys ++ '\x7d' :: rest') :
    List.Forall₂ (a.SameStructure b) xs ys ∧ rest = rest' := by
  induction xs generalizing ys with
  | nil =>
      cases ys with
      | nil => exact ⟨.nil, (List.cons.inj h).2⟩
      | cons y ys => exact absurd (List.cons.inj h).1 (by decide)
  | cons x xs ih =>
      cases ys with
      | nil => exact absurd (List.cons.inj h).1 (by decide)
      | cons y ys =>
          simp only [restSpelling, List.flatMap_cons, List.cons_append, List.append_assoc,
            List.cons.injEq, true_and] at h
          obtain ⟨hsame, hrest⟩ := hxs x List.mem_cons_self y _ _ (hys y List.mem_cons_self)
            (ends_restSpelling xs) (ends_restSpelling ys) h
          obtain ⟨hall, hend⟩ := ih (fun z hz => hxs z (List.mem_cons_of_mem x hz))
            (fun z hz => hys z (List.mem_cons_of_mem y hz)) hrest
          exact ⟨.cons hsame hall, hend⟩

/-- The operands between braces are determined one after the other. -/
theorem listSpelling_unique (hlegible : ∀ x ∈ xs, a.Legible x)
    (hxs : ∀ x ∈ xs, PlainUnique a b x) (hys : ∀ y ∈ ys, b.Legible y)
    (h : a.listSpelling xs ++ '\x7d' :: rest = b.listSpelling ys ++ '\x7d' :: rest') :
    List.Forall₂ (a.SameStructure b) xs ys ∧ rest = rest' := by
  cases xs with
  | nil =>
      cases ys with
      | nil => exact ⟨.nil, (List.cons.inj h).2⟩
      | cons y ys =>
          rw [listSpelling_cons, List.append_assoc] at h
          exact absurd h.symm ((hys y List.mem_cons_self).closing_ne hb)
  | cons x xs =>
      rw [listSpelling_cons, List.append_assoc] at h
      cases ys with
      | nil => exact absurd h ((hlegible x List.mem_cons_self).closing_ne ha)
      | cons y ys =>
          rw [listSpelling_cons, List.append_assoc] at h
          obtain ⟨hsame, hrest⟩ := hxs x List.mem_cons_self y _ _ (hys y List.mem_cons_self)
            (ends_restSpelling xs) (ends_restSpelling ys) h
          obtain ⟨hall, hend⟩ := restSpelling_unique
            (fun z hz => hxs z (List.mem_cons_of_mem x hz))
            (fun z hz => hys z (List.mem_cons_of_mem y hz)) hrest
          exact ⟨.cons hsame hall, hend⟩

omit hb in
/-- What stands between the braces of a concatenation does not start as a replication does. -/
theorem listSpelling_ne_count (hlegible : ∀ x ∈ xs, a.Legible x) (count : Nat) :
    a.listSpelling xs ++ '\x7d' :: rest ≠ count.repr.toList ++ '\x7b' :: more := by
  intro h
  cases xs with
  | nil =>
      have hlead := lead?_append (isNumeral_repr count).lead?_eq ('\x7b' :: more)
      rw [← h] at hlead
      cases hlead
  | cons x xs =>
      rw [listSpelling_cons, List.append_assoc] at h
      exact (hlegible x List.mem_cons_self).numeral_ne ha (isNumeral_repr count)
        (ends_restSpelling xs) h

theorem operandUnique_of_concat (hex : a.HasExpr x (.concat xs))
    (hlegible : ∀ z ∈ xs, a.Legible z) (hxs : ∀ z ∈ xs, PlainUnique a b z) :
    OperandUnique a b x := by
  intro y rest rest' hy hrest hrest' h
  have hlead : ∀ e', b.HasExpr y e' → Lead.brace = e'.lead := fun e' hey =>
    lead_eq_of_spelling ha hb (.concat hex hlegible) hy hex hey h
  rw [ha.operandSpelling_of_atom hex rfl, ha.spelling_concat hex] at h
  cases hy with
  | concat hey hys =>
      rw [hb.operandSpelling_of_atom hey rfl, hb.spelling_concat hey] at h
      simp only [List.cons_append, List.append_assoc, List.nil_append, List.cons.injEq,
        true_and] at h
      obtain ⟨hall, hend⟩ := listSpelling_unique ha hb hlegible hxs hys h
      exact ⟨.concat hex hey hall, hend⟩
  | replicate hey hys =>
      rw [hb.operandSpelling_of_atom hey rfl, hb.spelling_replicate hey] at h
      simp only [List.cons_append, List.append_assoc, List.nil_append, List.cons.injEq,
        true_and] at h
      exact absurd h (listSpelling_ne_count ha hlegible _)
  | _ => cases hlead _ ‹b.HasExpr y _›

theorem operandUnique_of_replicate {count : Nat} (hex : a.HasExpr x (.replicate count xs))
    (hlegible : ∀ z ∈ xs, a.Legible z) (hxs : ∀ z ∈ xs, PlainUnique a b z) :
    OperandUnique a b x := by
  intro y rest rest' hy hrest hrest' h
  have hlead : ∀ e', b.HasExpr y e' → Lead.brace = e'.lead := fun e' hey =>
    lead_eq_of_spelling ha hb (.replicate hex hlegible) hy hex hey h
  rw [ha.operandSpelling_of_atom hex rfl, ha.spelling_replicate hex] at h
  cases hy with
  | concat hey hys =>
      rw [hb.operandSpelling_of_atom hey rfl, hb.spelling_concat hey] at h
      simp only [List.cons_append, List.append_assoc, List.nil_append, List.cons.injEq,
        true_and] at h
      exact absurd h.symm (listSpelling_ne_count hb hys _)
  | replicate hey hys =>
      rw [hb.operandSpelling_of_atom hey rfl, hb.spelling_replicate hey] at h
      simp only [List.cons_append, List.append_assoc, List.nil_append, List.cons.injEq,
        true_and] at h
      obtain ⟨hcount, hlist⟩ := run_unique (isNumeral_repr _).chars (isNumeral_repr _).chars
        (stops_cons (by decide) _) (stops_cons (by decide) _) h
      obtain rfl := eq_of_repr_toList_eq hcount
      obtain ⟨hall, hend⟩ := listSpelling_unique ha hb hlegible hxs hys (List.cons.inj hlist).2
      exact ⟨.replicate hex hey hall, (List.cons.inj hend).2⟩
  | _ => cases hlead _ ‹b.HasExpr y _›

/-! ### All expressions -/

/-- Text determines structure, of an operand and of a whole expression. -/
theorem Legible.unique (hx : a.Legible x) : OperandUnique a b x ∧ PlainUnique a b x := by
  induction hx with
  | literal hx hn =>
      exact unique_of_atom ha hb (.literal hx hn) hx rfl (operandUnique_of_literal ha hb hx hn)
  | reference hx hname =>
      exact unique_of_atom ha hb (.reference hx hname) hx rfl
        (operandUnique_of_reference ha hb hx hname)
  | unary hx hp ihp =>
      exact unique_of_operation ha hb (.unary hx hp) hx rfl (plainUnique_of_unary ha hb hx hp ihp.1)
  | binary hx hp hq ihp ihq =>
      exact unique_of_operation ha hb (.binary hx hp hq) hx rfl
        (plainUnique_of_binary ha hb hx hp ihp.1 ihq.1)
  | ternary hx hp hq hr ihp ihq ihr =>
      exact unique_of_operation ha hb (.ternary hx hp hq hr) hx rfl
        (plainUnique_of_ternary ha hb hx hp ihp.1 ihq.1 ihr.1)
  | concat hx hps ihs =>
      exact unique_of_atom ha hb (.concat hx hps) hx rfl
        (operandUnique_of_concat ha hb hx hps fun p hp => (ihs p hp).2)
  | replicate hx hps ihs =>
      exact unique_of_atom ha hb (.replicate hx hps) hx rfl
        (operandUnique_of_replicate ha hb hx hps fun p hp => (ihs p hp).2)

end Unique

/-! ### The texts of two expressions -/

/-- **Texts have one reading.** Take two expressions, of any depth and in any two arenas, that are
made of operators, concatenations and replications over declarations named by identifiers and
integers that are not negative.  They have the same text exactly if they have the same structure:
the same kinds, operators and replication counts at all places, the same names, and literals with
the same text. -/
theorem Reachable.text_unambiguous (ha : a.Reachable) (hb : b.Reachable) (hx : a.Legible x)
    (hy : b.Legible y) :
    (∃ s, a.text x = .ok s ∧ b.text y = .ok s) ↔ a.SameStructure b x y := by
  have haOrdered := ha.sound.ordered
  have hbOrdered := hb.sound.ordered
  obtain ⟨e, hex⟩ := hx.hasExpr
  obtain ⟨e', hey⟩ := hy.hasExpr
  rw [haOrdered.text_eq_iff hbOrdered hex.lt_size hey.lt_size]
  refine ⟨fun htext => ?_, fun h => h.spelling_eq haOrdered hbOrdered⟩
  have hplain := (hx.unique haOrdered hbOrdered).2
  exact (hplain y [] [] hy ends_nil ends_nil (by rw [htext])).1

def byteNet : Declaration := { Declaration.plain "net_8" .net with range := some ⟨7, 0⟩ }

theorem isIdentifier_byteNet : IsIdentifier byteNet.name where
  ne_empty := by decide
  chars := List.all_eq_true.mp (by decide)
  start := by
    intro c hc
    obtain rfl : 'n' = c := Option.some.inj hc
    decide

/-- The arena of `net_8 & (&net_8)` with one reference to the net. -/
def sharedReference : Arena where
  nodes :=
    let byte := DataType.sizedVector .unsigned 8
    #[⟨.reference byteNet, byte, some byte⟩, ⟨.unary (.reduce .and) 0, .bit, none⟩,
      ⟨.binary (.bitwise .and) 0 1, byte, none⟩]

/-- The arena of `net_8 & (&net_8)` with two references to the net. -/
def separateReferences : Arena where
  nodes :=
    let byte := DataType.sizedVector .unsigned 8
    #[⟨.reference byteNet, byte, none⟩, ⟨.reference byteNet, byte, some byte⟩,
      ⟨.unary (.reduce .and) 1, .bit, none⟩, ⟨.binary (.bitwise .and) 0 2, byte, none⟩]

theorem reachable_sharedReference : sharedReference.Reachable := by
  refine ⟨sharedReference.nodes.toList.map fun n => .add n.expr, ?_⟩
  decide +kernel

theorem reachable_separateReferences : separateReferences.Reachable := by
  refine ⟨separateReferences.nodes.toList.map fun n => .add n.expr, ?_⟩
  decide +kernel

/-- The conjunction and the reduction have the same symbol. -/
theorem text_unambiguous_byteNet :
    sharedReference.Legible 2 ∧ separateReferences.Legible 3 ∧
      sharedReference.SameStructure separateReferences 2 3 := by
  have hshared : sharedReference.Legible 2 := by
    have hnet : sharedReference.Legible 0 := .reference ⟨_, rfl, rfl⟩ isIdentifier_byteNet
    exact .binary ⟨_, rfl, rfl⟩ hnet (.unary ⟨_, rfl, rfl⟩ hnet)
  have hseparate : separateReferences.Legible 3 :=
    .binary ⟨_, rfl, rfl⟩ (.reference ⟨_, rfl, rfl⟩ isIdentifier_byteNet)
      (.unary ⟨_, rfl, rfl⟩ (.reference ⟨_, rfl, rfl⟩ isIdentifier_byteNet))
  have hleft : sharedReference.text 2 = .ok "net_8 & (&net_8)" := by decide +kernel
  have hright : separateReferences.text 3 = .ok "net_8 & (&net_8)" := by decide +kernel
  refine ⟨hshared, hseparate, ?_⟩
  exact (reachable_sharedReference.text_unambiguous reachable_separateReferences hshared
    hseparate).mp ⟨_, hleft, hright⟩

end Arena

end VerilogExpr
