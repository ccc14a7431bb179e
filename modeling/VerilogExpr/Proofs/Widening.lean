import VerilogExpr.Typing

/-!
# Widening

A context changes nothing about a type but its width, and that only upwards.  So what construction
learns of the sign, the mark or the realness of an operand stays true however often the operand is
looked at again, and the width it saw is a lower bound from then on.
-/

namespace VerilogExpr.DataType

variable {s t u : DataType}

/-- Types that differ in nothing but their width, and in whether that width has a name. -/
structure Similar (t u : DataType) : Prop where
  sign : t.sign = u.sign
  sized : t.isSized = u.isSized
  real : t.isReal = u.isReal

theorem Similar.refl (t : DataType) : t.Similar t := ⟨rfl, rfl, rfl⟩

theorem Similar.symm (h : t.Similar u) : u.Similar t :=
  ⟨h.sign.symm, h.sized.symm, h.real.symm⟩

theorem Similar.trans (h₁ : s.Similar t) (h₂ : t.Similar u) : s.Similar u :=
  ⟨h₁.sign.trans h₂.sign, h₁.sized.trans h₂.sized, h₁.real.trans h₂.real⟩

theorem Similar.signed (h : t.Similar u) : t.isSigned = u.isSigned := by
  unfold isSigned
  rw [h.sign]

@[simp]
theorem isReal_resized (t : DataType) (width : Nat) : (t.resized width).isReal = false := rfl

@[simp]
theorem width_resized (t : DataType) (width : Nat) : (t.resized width).width = width := rfl

theorem similar_resized (h : t.isReal = false) (width : Nat) : t.Similar (t.resized width) :=
  ⟨rfl, rfl, h⟩

theorem isReal_iff : t.isReal = true ↔ t = .real := by
  simp [isReal]

theorem widened_of_le (h : u.width ≤ t.width) : t.widened u = t := by
  simp [widened, h]

theorem widened_of_lt (ht : t.isReal = false) (hu : u.isReal = false) (h : t.width < u.width) :
    t.widened u = t.resized u.width := by
  have hle : ¬u.width ≤ t.width := Nat.not_le_of_lt h
  simp [widened, ht, hu, hle]

/-- A context leaves the sign, the mark and the realness of a type alone. -/
theorem similar_widened (t u : DataType) : t.Similar (t.widened u) := by
  unfold widened
  split
  · exact Similar.refl t
  · rename_i hreal
    split
    · exact Similar.refl t
    · exact similar_resized (by simp_all) u.width

/-- A context widens an integral type just enough to hold what it requires. -/
theorem width_widened (ht : t.isReal = false) (hu : u.isReal = false) :
    (t.widened u).width = max t.width u.width := by
  by_cases h : u.width ≤ t.width
  · rw [widened_of_le h, Nat.max_eq_left h]
  · have hlt : t.width < u.width := Nat.lt_of_not_le h
    rw [widened_of_lt ht hu hlt, width_resized, Nat.max_eq_right (Nat.le_of_lt hlt)]

theorem width_le_width_widened (t u : DataType) : t.width ≤ (t.widened u).width := by
  unfold widened
  split
  · exact Nat.le_refl _
  · split
    · exact Nat.le_refl _
    · rw [width_resized]
      omega

/-! ### Types of operations -/

@[simp]
theorem isReal_sizedVector (sign : Sign) (width : Nat) :
    (sizedVector sign width).isReal = false := rfl

@[simp]
theorem width_sizedVector (sign : Sign) (width : Nat) :
    (sizedVector sign width).width = width := rfl

@[simp]
theorem isReal_real : real.isReal = true := rfl

@[simp]
theorem isReal_bit : bit.isReal = false := rfl

@[simp]
theorem isReal_commonVector (t u : DataType) : (commonVector t u).isReal = false := rfl

@[simp]
theorem width_commonVector (t u : DataType) :
    (commonVector t u).width = max t.width u.width := rfl

theorem common_eq_ok_iff {c : DataType} :
    t.common u = .ok c ↔ t.isReal = false ∧ u.isReal = false ∧ c = commonVector t u := by
  unfold common
  cases ht : t.isReal <;> cases hu : u.isReal <;> simp [eq_comm]

theorem similar_commonVector {t' u' : DataType} (ht : t.Similar t') (hu : u.Similar u') :
    (commonVector t u).Similar (commonVector t' u') := by
  refine ⟨?_, rfl, rfl⟩
  change commonSign t u = commonSign t' u'
  rw [commonSign, commonSign, ht.signed, hu.signed]

def mixed (t u : DataType) : DataType :=
  if t.isReal || u.isReal then .real else .commonVector t u

theorem similar_mixed {t' u' : DataType} (ht : t.Similar t') (hu : u.Similar u') :
    (mixed t u).Similar (mixed t' u') := by
  unfold mixed
  rw [ht.real, hu.real]
  split
  · exact .refl _
  · exact similar_commonVector ht hu

theorem isReal_mixed_eq_false_iff :
    (mixed t u).isReal = false ↔ t.isReal = false ∧ u.isReal = false := by
  unfold mixed
  cases ht : t.isReal <;> cases hu : u.isReal <;> simp

theorem mixed_of_integral (h : (mixed t u).isReal = false) : mixed t u = commonVector t u := by
  obtain ⟨ht, hu⟩ := isReal_mixed_eq_false_iff.mp h
  simp [mixed, ht, hu]

theorem keepsPowerBits_eq (h : t.Similar u) : t.keepsPowerBits = u.keepsPowerBits := by
  unfold keepsPowerBits
  rw [h.sized, h.signed]

theorem similar_power {t' u' : DataType} (ht : t.Similar t') (hu : u.Similar u') :
    (power t u).Similar (power t' u') := by
  unfold power
  rw [keepsPowerBits_eq ht, keepsPowerBits_eq hu]
  split
  · exact ⟨rfl, rfl, rfl⟩
  · exact Similar.refl real

/-- What keeps its bits in a power is not real. -/
theorem isReal_of_keepsPowerBits (h : t.keepsPowerBits = true) : t.isReal = false := by
  cases t <;> simp_all [keepsPowerBits, isSized, isReal]

theorem isReal_power_eq_false_iff :
    (power t u).isReal = false ↔ t.keepsPowerBits = true ∧ u.keepsPowerBits = true := by
  unfold power
  split
  · simp_all
  · simp_all [isReal]

theorem width_power (h : (power t u).isReal = false) :
    (power t u).width = max t.width u.width := by
  obtain ⟨ht, hu⟩ := isReal_power_eq_false_iff.mp h
  simp [power, ht, hu]

end VerilogExpr.DataType
