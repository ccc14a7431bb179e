import VerilogExpr.Arena.Text

/-!
# Characters in the text of expressions

The text of an expression is made of words, which are names and numbers, of operator symbols, and of
punctuation.  The characters of words and of symbols are different, and neither are punctuation, so
a text can be divided in one way only: a run of characters of one class ends where the next
character is of another (`run_unique`).
-/

namespace VerilogExpr

/-! ### Runs -/

def Stops (p : Char → Bool) (rest : List Char) : Prop := ∀ c, rest.head? = some c → p c = false

theorem stops_cons {p : Char → Bool} {c : Char} (h : p c = false) (rest : List Char) :
    Stops p (c :: rest) := by
  intro d hd
  obtain rfl : c = d := Option.some.inj hd
  exact h

/-- A text determines the run of characters of a class that it starts with. -/
theorem run_unique {p : Char → Bool} {s t rest rest' : List Char} (hs : ∀ c ∈ s, p c = true)
    (ht : ∀ c ∈ t, p c = true) (hrest : Stops p rest) (hrest' : Stops p rest')
    (h : s ++ rest = t ++ rest') : s = t ∧ rest = rest' := by
  induction s generalizing t with
  | nil =>
      cases t with
      | nil => exact ⟨rfl, h⟩
      | cons d t =>
          obtain rfl : rest = d :: (t ++ rest') := h
          exact absurd ((hrest d rfl).symm.trans (ht d List.mem_cons_self)) Bool.false_ne_true
  | cons c s ih =>
      cases t with
      | nil =>
          obtain rfl : c :: (s ++ rest) = rest' := h
          exact absurd ((hrest' c rfl).symm.trans (hs c List.mem_cons_self)) Bool.false_ne_true
      | cons d t =>
          obtain ⟨rfl, htail⟩ := List.cons.inj h
          obtain ⟨rfl, hsame⟩ := ih (fun x hx => hs x (List.mem_cons_of_mem _ hx))
            (fun x hx => ht x (List.mem_cons_of_mem _ hx)) htail
          exact ⟨rfl, hsame⟩

/-! ### Words -/

/-- A letter, a digit or an underscore.  All characters beyond ASCII count as letters. -/
def isNameChar (c : Char) : Bool := c.isAlphanum || c = '_' || 128 ≤ c.toNat

/-- A character of a name or of a number: the latter may have an apostrophe before its base. -/
def isWordChar (c : Char) : Bool := isNameChar c || "'".toList.contains c

theorem isNameChar_of_isDigit {c : Char} (h : c.isDigit = true) : isNameChar c = true := by
  simp [isNameChar, Char.isAlphanum, h]

theorem isWordChar_of_isNameChar {c : Char} (h : isNameChar c = true) : isWordChar c = true := by
  simp [isWordChar, h]

structure IsIdentifier (name : String) : Prop where
  ne_empty : name ≠ ""
  chars : ∀ c ∈ name.toList, isNameChar c = true
  start : ∀ c, name.toList.head? = some c → c.isDigit = false

structure IsNumeral (s : List Char) : Prop where
  start : ∃ c, s.head? = some c ∧ c.isDigit = true
  chars : ∀ c ∈ s, isWordChar c = true

theorem isNumeral_repr (n : Nat) : IsNumeral n.repr.toList := by
  rw [Nat.toList_repr]
  have hdigits : ∀ c ∈ Nat.toDigits 10 n, c.isDigit = true := fun c =>
    Nat.isDigit_of_mem_toDigits (by decide) (by decide)
  obtain ⟨c, rest, hcons⟩ := List.exists_cons_of_ne_nil (Nat.toDigits_ne_nil (n := n) (b := 10))
  refine ⟨⟨c, by rw [hcons]; rfl, hdigits c (by rw [hcons]; exact List.mem_cons_self)⟩, ?_⟩
  exact fun d hd => isWordChar_of_isNameChar (isNameChar_of_isDigit (hdigits d hd))

theorem eq_of_repr_toList_eq {m n : Nat} (h : m.repr.toList = n.repr.toList) : m = n := by
  have hread : ∀ k : Nat, Nat.ofDigitChars 10 k.repr.toList 0 = k := by
    intro k
    rw [Nat.toList_repr]
    exact Nat.ofDigitChars_toDigits (by decide) (by decide)
  rw [← hread m, h, hread n]

theorem IsNumeral.append {s t : List Char} (h : IsNumeral s) (ht : ∀ c ∈ t, isWordChar c = true) :
    IsNumeral (s ++ t) := by
  obtain ⟨c, hc, hdigit⟩ := h.start
  refine ⟨⟨c, by simp [List.head?_append, hc], hdigit⟩, fun d hd => ?_⟩
  rcases List.mem_append.mp hd with hs | ht'
  · exact h.chars d hs
  · exact ht d ht'

/-- The text of an integer that is not negative is a numeral, with a width and a base or without. -/
theorem Value.isNumeral_text {v : Value} {n : Nat} (h : v.number = .integer n) :
    IsNumeral v.text.toList := by
  have hnegative : ¬((n : Int) < 0) := Int.not_lt.mpr (Int.natCast_nonneg n)
  have hquote : "'".toList.all isWordChar = true := by decide
  have hsign : (if v.type.isSigned then "s" else "").toList.all isWordChar = true := by
    split <;> decide
  have hd : "d".toList.all isWordChar = true := by decide
  have hbase : ∀ c ∈ ("'" ++ (if v.type.isSigned then "s" else "") ++ "d" ++ n.repr).toList,
      isWordChar c = true := by
    intro c hc
    simp only [String.toList_append, List.mem_append] at hc
    obtain ((hc | hc) | hc) | hc := hc
    · exact List.all_eq_true.mp hquote c hc
    · exact List.all_eq_true.mp hsign c hc
    · exact List.all_eq_true.mp hd c hc
    · exact (isNumeral_repr n).chars c hc
  cases hsized : v.type.isSized with
  | true =>
      have htext : v.text.toList = v.type.width.repr.toList ++
          ("'" ++ (if v.type.isSigned then "s" else "") ++ "d" ++ n.repr).toList := by
        simp [text, h, hsized, hnegative, String.toList_append]
      rw [htext]
      exact (isNumeral_repr _).append hbase
  | false =>
      have htext : v.text = n.repr := by
        simp [text, h, hsized]
        rfl
      rw [htext]
      exact isNumeral_repr n

/-! ### Operator symbols -/

def isSymbolChar (c : Char) : Bool := "+-*/%!~&|^<>=?:".toList.contains c

theorem UnaryOp.isSymbolChar_of_mem {op : UnaryOp} {c : Char} (h : c ∈ op.symbol.toList) :
    isSymbolChar c = true := by
  have hall : op.symbol.toList.all isSymbolChar = true := by
    cases op with
    | reduce reduction => cases reduction <;> decide
    | _ => decide
  exact List.all_eq_true.mp hall c h

theorem UnaryOp.exists_symbol_eq (op : UnaryOp) :
    ∃ c symbol, op.symbol.toList = c :: symbol ∧ isSymbolChar c = true := by
  cases h : op.symbol.toList with
  | nil =>
      cases op with
      | reduce reduction => cases reduction <;> exact absurd h (by decide)
      | _ => exact absurd h (by decide)
  | cons c symbol => exact ⟨c, symbol, rfl, isSymbolChar_of_mem (h ▸ List.mem_cons_self)⟩

theorem BinaryOp.isSymbolChar_of_mem {op : BinaryOp} {c : Char} (h : c ∈ op.symbol.toList) :
    isSymbolChar c = true := by
  have hall : op.symbol.toList.all isSymbolChar = true := by
    cases op with
    | bitwise f => cases f <;> decide
    | arith f => cases f <;> decide
    | power => decide
    | shift f => cases f <;> decide
    | compare f => cases f <;> decide
    | logic f => cases f <;> decide
  exact List.all_eq_true.mp hall c h

theorem TernaryOp.isSymbolChar_of_mem {op : TernaryOp} {c : Char} (h : c ∈ op.symbol.toList) :
    isSymbolChar c = true := by
  have hall : op.symbol.toList.all isSymbolChar = true := by cases op <;> decide
  exact List.all_eq_true.mp hall c h

/-- A symbol ends at the space behind it. -/
theorem symbols_unique {s t more more' : List Char} (hs : ∀ c ∈ s, isSymbolChar c = true)
    (ht : ∀ c ∈ t, isSymbolChar c = true) (h : s ++ ' ' :: more = t ++ ' ' :: more') :
    s = t ∧ more = more' := by
  obtain ⟨hsame, hmore⟩ := run_unique hs ht (stops_cons (by decide) more)
    (stops_cons (by decide) more') h
  exact ⟨hsame, (List.cons.inj hmore).2⟩

def UnaryOp.ofSymbol? : List Char → Option UnaryOp
  | ['+'] => some plus
  | ['-'] => some minus
  | ['~'] => some bitNot
  | ['!'] => some logicNot
  | ['&'] => some (reduce .and)
  | ['~', '&'] => some (reduce .nand)
  | ['|'] => some (reduce .or)
  | ['~', '|'] => some (reduce .nor)
  | ['^'] => some (reduce .xor)
  | ['~', '^'] => some (reduce .xnor)
  | _ => none

theorem UnaryOp.ofSymbol?_symbol (op : UnaryOp) : ofSymbol? op.symbol.toList = some op := by
  cases op with
  | reduce reduction => cases reduction <;> decide
  | _ => decide

theorem UnaryOp.symbol_injective {op op' : UnaryOp} (h : op.symbol.toList = op'.symbol.toList) :
    op = op' := by
  have hsame := ofSymbol?_symbol op
  rw [h, ofSymbol?_symbol] at hsame
  exact (Option.some.inj hsame).symm

def infixOfSymbol? : List Char → Option (BinaryOp ⊕ TernaryOp)
  | ['&'] => some (.inl (.bitwise .and))
  | ['|'] => some (.inl (.bitwise .or))
  | ['^'] => some (.inl (.bitwise .xor))
  | ['~', '^'] => some (.inl (.bitwise .xnor))
  | ['+'] => some (.inl (.arith .add))
  | ['-'] => some (.inl (.arith .sub))
  | ['*'] => some (.inl (.arith .mul))
  | ['/'] => some (.inl (.arith .div))
  | ['%'] => some (.inl (.arith .mod))
  | ['*', '*'] => some (.inl .power)
  | ['<', '<'] => some (.inl (.shift .logicalLeft))
  | ['>', '>'] => some (.inl (.shift .logicalRight))
  | ['<', '<', '<'] => some (.inl (.shift .arithLeft))
  | ['>', '>', '>'] => some (.inl (.shift .arithRight))
  | ['=', '='] => some (.inl (.compare .eq))
  | ['!', '='] => some (.inl (.compare .ne))
  | ['<'] => some (.inl (.compare .lt))
  | ['<', '='] => some (.inl (.compare .le))
  | ['>'] => some (.inl (.compare .gt))
  | ['>', '='] => some (.inl (.compare .ge))
  | ['=', '=', '='] => some (.inl (.compare .caseEq))
  | ['!', '=', '='] => some (.inl (.compare .caseNe))
  | ['&', '&'] => some (.inl (.logic .and))
  | ['|', '|'] => some (.inl (.logic .or))
  | ['?'] => some (.inr .conditional)
  | [':'] => some (.inr .minTypMax)
  | _ => none

theorem BinaryOp.infixOfSymbol?_symbol (op : BinaryOp) :
    infixOfSymbol? op.symbol.toList = some (.inl op) := by
  cases op with
  | bitwise f => cases f <;> decide
  | arith f => cases f <;> decide
  | power => decide
  | shift f => cases f <;> decide
  | compare f => cases f <;> decide
  | logic f => cases f <;> decide

theorem TernaryOp.infixOfSymbol?_symbol (op : TernaryOp) :
    infixOfSymbol? op.symbol.toList = some (.inr op) := by
  cases op <;> decide

theorem BinaryOp.symbol_injective {op op' : BinaryOp}
    (h : op.symbol.toList = op'.symbol.toList) : op = op' := by
  have hsame := op.infixOfSymbol?_symbol
  rw [h, op'.infixOfSymbol?_symbol] at hsame
  exact (Sum.inl.inj (Option.some.inj hsame)).symm

theorem TernaryOp.symbol_injective {op op' : TernaryOp}
    (h : op.symbol.toList = op'.symbol.toList) : op = op' := by
  have hsame := op.infixOfSymbol?_symbol
  rw [h, op'.infixOfSymbol?_symbol] at hsame
  exact (Sum.inr.inj (Option.some.inj hsame)).symm

theorem BinaryOp.symbol_ne_ternary (op : BinaryOp) (op' : TernaryOp) :
    op.symbol.toList ≠ op'.symbol.toList := by
  intro h
  have hsame := op.infixOfSymbol?_symbol
  rw [h, op'.infixOfSymbol?_symbol] at hsame
  cases hsame

/-! ### First characters -/

inductive Lead where
  | digit
  | letter
  | brace
  | parenthesis

def Lead.ofChar? (c : Char) : Option Lead :=
  if c.isDigit then some digit
  else if isNameChar c then some letter
  else if c = '\x7b' then some brace
  else if c = '(' then some parenthesis
  else none

def lead? (s : List Char) : Option Lead := s.head?.bind Lead.ofChar?

theorem lead?_append {s : List Char} {l : Lead} (h : lead? s = some l) (rest : List Char) :
    lead? (s ++ rest) = some l := by
  cases s with
  | nil => cases h
  | cons c s => exact h

theorem lead?_of_isSymbolChar {c : Char} (h : isSymbolChar c = true) (rest : List Char) :
    lead? (c :: rest) = none := by
  have hall : "+-*/%!~&|^<>=?:".toList.all (fun d => (Lead.ofChar? d).isNone) = true := by decide
  exact Option.isNone_iff_eq_none.mp (List.all_eq_true.mp hall c (List.contains_iff_mem.mp h))

/-- An operand does not go on with the symbol before it. -/
theorem stops_of_lead? {s : List Char} {l : Lead} (h : lead? s = some l) :
    Stops isSymbolChar s := by
  cases s with
  | nil => cases h
  | cons c rest =>
      refine stops_cons (Bool.eq_false_iff.mpr fun hsymbol => ?_) rest
      exact absurd (h.symm.trans (lead?_of_isSymbolChar hsymbol rest)) nofun

theorem IsNumeral.lead?_eq {s : List Char} (h : IsNumeral s) : lead? s = some .digit := by
  obtain ⟨c, hc, hdigit⟩ := h.start
  simp [lead?, hc, Lead.ofChar?, hdigit]

theorem IsIdentifier.lead?_eq {name : String} (h : IsIdentifier name) :
    lead? name.toList = some .letter := by
  cases hname : name.toList with
  | nil => exact absurd (String.toList_eq_nil_iff.mp hname) h.ne_empty
  | cons c rest =>
      have hdigit := h.start c (by rw [hname]; rfl)
      have hchar := h.chars c (by rw [hname]; exact List.mem_cons_self)
      simp [lead?, Lead.ofChar?, hdigit, hchar]

end VerilogExpr
