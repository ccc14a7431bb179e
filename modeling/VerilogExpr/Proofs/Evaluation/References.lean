import VerilogExpr.Proofs.Bits.Positions
import VerilogExpr.Proofs.Evaluation.Selects

/-!
# References and selects

A reference converts the value of a parameter to the declared type: the bits of the value are read
with the declared sign, and extended to the declared width.  A select extends the value with its own
sign instead.  So the two see the same bits as far as the width of the value goes.  Beyond it they
do only if the declared sign does not change what the value reads as.
-/

namespace VerilogExpr

namespace Declaration

variable {d : Declaration} {range : BitRange}

def IsParameter (d : Declaration) : Prop := d.kind = .parameter ∨ d.kind = .localparam

theorem IsParameter.isConstant (h : d.IsParameter) : d.isConstant = true := by
  rcases h with h | h <;> simp [Declaration.isConstant, h, DeclarationKind.isConstant]

theorem IsParameter.type_eq (h : d.IsParameter) (hrange : d.range = some range) :
    d.type = .sizedVector d.sign range.size := by
  have hvector : d.parameterType = d.vectorType := by simp [parameterType, hrange]
  rcases h with h | h <;> simp [type, h, hvector, vectorType, hrange]

end Declaration

namespace Arena

variable {a : Arena} {ref : ExprId} {d : Declaration} {v : Value} {range : BitRange} {n : Int}

/-- A reference converts the value to the type of the declaration. -/
theorem Reachable.outcome_of_reference (h : a.Reachable) (href : a.HasExpr ref (.reference d))
    (hconstant : d.isConstant = true) (hvalue : d.value = some v) :
    (a.eval ref).outcome = v.convertTo d.type := by
  obtain ⟨m, hm, hexpr⟩ := href
  have htype : m.type = d.type := h.ownTyped.type_eq hm hexpr rfl
  rw [h.sound.ordered.outcome_eval hm]
  simp only [Evaluation.node, hexpr, htype, Evaluation.outcome_lift, Declaration.referenceValue,
    hconstant, if_true, hvalue]

/-- **What selects see of a parameter.** Take a parameter with a packed range and an integral value.
A reference to it has a value of the declared type.  The bit select of an index evaluates to the bit
at the offset of the index in that value exactly if the offset lies below the width of the stored
value, or the stored value reads the same with the declared sign, or the offset lies beyond the size
of the range, as only one of a range with too many indices does.  Likewise, the part select over
the whole range equals the bits of that value exactly if the range is no wider than the stored
value, or the stored value reads the same with the declared sign. -/
theorem Reachable.selects_eq_reference_iff (h : a.Reachable)
    (href : a.HasExpr ref (.reference d)) (hparameter : d.IsParameter)
    (hrange : d.range = some range) (hvalue : d.value = some v) (hnumber : v.number = .integer n)
    (hfits : Bits.Fits n v.type.width v.type.isSigned) :
    ∃ u : Int, (a.eval ref).outcome = .ok ⟨.sizedVector d.sign range.size, .integer u⟩ ∧
      (∀ (c : Arena) bit index offset, c.Reachable → c.SelectsBit bit d index →
        range.lsbOffset? index = some offset →
        ∃ x, (c.eval bit).outcome = .ok ⟨.bit, .integer (Value.truth x)⟩ ∧
          (x = (Bits.mask u range.size).testBit offset ↔
            offset < v.type.width ∨ Bits.Fits n v.type.width d.type.isSigned ∨
              range.size ≤ offset)) ∧
      ∀ (c : Arena) part, c.Reachable →
        c.HasExpr part (.partSelect d (.fixed range.left range.right)) →
        ∃ x : Nat, (c.eval part).outcome = .ok ⟨.sizedVector .unsigned range.size, .integer x⟩ ∧
          (x = Bits.mask u range.size ↔
            range.size ≤ v.type.width ∨ Bits.Fits n v.type.width d.type.isSigned) := by
  have hconstant := hparameter.isConstant
  have htype := hparameter.type_eq hrange
  have hread := Declaration.constantValue?_eq_some hconstant hvalue
  have hint : v.toInt? = some n := by simp [Value.toInt?, hnumber]
  have hbits : d.bitRange = range := by simp [Declaration.bitRange, hrange]
  -- the reference has the bits of the value as it reads with the declared sign
  let reread := Bits.truncate n v.type.width d.type.isSigned
  have hmask : Bits.mask (Bits.truncate reread range.size d.type.isSigned) range.size =
      Bits.mask reread range.size := Bits.mask_eq_of_modEq (Bits.truncate_modEq _ _ _)
  refine ⟨Bits.truncate reread range.size d.type.isSigned, ?_, ?_, ?_⟩
  · have hreal : d.type.isReal = false := by rw [htype, DataType.isReal_sizedVector]
    have hwidth : d.type.width = range.size := by rw [htype, DataType.width_sizedVector]
    rw [h.outcome_of_reference href hconstant hvalue, Value.convertTo_of_integer hreal hnumber,
      Value.truncated, hwidth, ← htype]
  · intro c bit index offset hc hselects hoffset
    have hbit := hc.outcome_of_bit hread hint hselects (hbits.symm ▸ hoffset)
    rw [hbits] at hbit
    refine ⟨_, hbit, ?_⟩
    rw [hmask, eq_comm]
    exact Bits.testBit_mask_truncate_iff hfits
  · intro c part hc hexpr
    have hselects : c.SelectsPart part d range := .of_fixed hexpr
    have hleft : d.bitRange.contains range.left = true := by
      rw [hbits]
      exact range.left_mem
    have hright : d.bitRange.lsbOffset? range.right = some 0 := by
      rw [hbits]
      exact range.lsbOffset?_right
    have hpart := hc.outcome_of_part hread hint hselects hleft hright
    have hcut := Nat.mod_eq_of_lt (Bits.mask_lt n range.size)
    rw [hbits, Nat.shiftRight_zero, hcut] at hpart
    refine ⟨_, hpart, ?_⟩
    rw [hmask, eq_comm]
    exact Bits.mask_truncate_iff hfits

/-- The parameter `p` of `parameter [7:0] p = 4'sd-1`. -/
def shortParameter : Declaration :=
  { Declaration.plain "p" .parameter with
    range := some ⟨7, 0⟩
    value := some ⟨.sizedVector .signed 4, .integer (-1)⟩ }

/-- The arena of `p`, `p[7]` and `p[7:0]`. -/
def shortSelects : Arena where
  nodes :=
    let eight := DataType.sizedVector .unsigned 8
    #[⟨.reference shortParameter, eight, none⟩,
      ⟨.bitSelect shortParameter (.fixed 7), .bit, none⟩,
      ⟨.partSelect shortParameter (.fixed 7 0), eight, none⟩]

theorem reachable_shortSelects : shortSelects.Reachable := by
  refine ⟨shortSelects.nodes.toList.map fun n => .add n.expr, ?_⟩
  decide +kernel

/-- The reference reads `4'sd-1` without its sign, as 15.  The selects extend it with its sign. -/
theorem selects_ne_reference_short :
    shortSelects.Reachable ∧
      (shortSelects.eval 0).outcome = .ok ⟨.sizedVector .unsigned 8, .integer 15⟩ ∧
      shortParameter.bitRange.lsbOffset? 7 = some 7 ∧
      (shortSelects.eval 1).outcome = .ok ⟨.bit, .integer (Value.truth true)⟩ ∧
      (Bits.mask 15 8).testBit 7 = false ∧
      (shortSelects.eval 2).outcome = .ok ⟨.sizedVector .unsigned 8, .integer 255⟩ ∧
      Bits.mask 15 8 = 15 := by
  refine ⟨reachable_shortSelects, ?_, ?_, ?_, ?_, ?_, ?_⟩ <;> decide +kernel

theorem selects_eq_reference_iff_short :
    ∃ u : Int, (shortSelects.eval 0).outcome = .ok ⟨.sizedVector .unsigned 8, .integer u⟩ ∧
      (∃ x, (shortSelects.eval 1).outcome = .ok ⟨.bit, .integer (Value.truth x)⟩ ∧
        x ≠ (Bits.mask u 8).testBit 7) ∧
      ∃ x : Nat, (shortSelects.eval 2).outcome = .ok ⟨.sizedVector .unsigned 8, .integer x⟩ ∧
        x ≠ Bits.mask u 8 := by
  have hreachable := reachable_shortSelects
  have href : shortSelects.HasExpr 0 (.reference shortParameter) := ⟨_, rfl, rfl⟩
  have hvalue : shortParameter.value = some ⟨.sizedVector .signed 4, .integer (-1)⟩ := rfl
  have hfits : Bits.Fits (-1) 4 true := by simp [Bits.Fits]
  have hreread : ¬ Bits.Fits (-1) 4 false := by simp [Bits.Fits]
  have hoffset : (BitRange.mk 7 0).lsbOffset? 7 = some 7 := by decide
  obtain ⟨u, hu, hbits, hparts⟩ :=
    hreachable.selects_eq_reference_iff href (Or.inl rfl) rfl hvalue rfl hfits
  obtain ⟨x, hx, hxiff⟩ :=
    hbits shortSelects 1 7 7 hreachable ⟨.fixed 7, ⟨_, rfl, rfl⟩, rfl⟩ hoffset
  obtain ⟨y, hy, hyiff⟩ := hparts shortSelects 2 hreachable ⟨_, rfl, rfl⟩
  refine ⟨u, hu, ⟨x, hx, fun heq => ?_⟩, y, hy, fun heq => ?_⟩
  · exact (hxiff.mp heq).elim (by decide) (Or.rec hreread (by decide))
  · exact (hyiff.mp heq).elim (by decide) hreread

end Arena

end VerilogExpr
