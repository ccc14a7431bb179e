import VerilogExpr.Proofs.Evaluation.Lossless

/-!
# Conversions between integral types

`Bits.truncate` picks the one integer of a range that has given low bits.  A conversion does so
twice: it reads the bits of a value with the sign of the new type, and then extends them or cuts
them to its width.  Both steps have the same sign, so together they read the low bits that the two
types have in common (`Bits.truncate_truncate`).  From this it follows when a type on the way does
no harm: it has to hand on every bit that is asked for in the end, and where it is wider than the
value it has to extend the value the way the last type does.
-/

namespace VerilogExpr

namespace Bits

variable {width target : Nat}

/-- The low bits stay what they are when more of them are read first, with whatever sign. -/
theorem truncate_truncate_of_le (hle : target ≤ width) (n : Int) (inner outer : Bool) :
    truncate (truncate n width inner) target outer = truncate n target outer := by
  have hlow : truncate n width inner ≡ n [ZMOD 2 ^ target] :=
    (truncate_modEq n width inner).of_dvd (pow_dvd_pow 2 hle)
  exact truncate_eq_of_modEq hlow outer

/-- Low bits that are read with a sign are the same number at every larger width of that sign. -/
theorem truncate_truncate_of_ge (hle : width ≤ target) (n : Int) (signed : Bool) :
    truncate (truncate n width signed) target signed = truncate n width signed :=
  truncate_of_fits ((fits_truncate n width signed).mono hle)

/-- Of two widths in a row the smaller one counts. -/
theorem truncate_truncate (n : Int) (width target : Nat) (signed : Bool) :
    truncate (truncate n width signed) target signed = truncate n (min width target) signed := by
  rcases Nat.le_total width target with hle | hle
  · rw [Nat.min_eq_left hle, truncate_truncate_of_ge hle]
  · rw [Nat.min_eq_right hle, truncate_truncate_of_le hle]

end Bits

namespace DataType

theorem isSigned_eq_of_sign_eq {t u : DataType} (h : t.sign = u.sign) : t.isSigned = u.isSigned := by
  unfold isSigned
  rw [h]

end DataType

namespace Value

variable {own t u : DataType}

/-- A conversion reads the low bits that both types have, with the sign of the new one. -/
theorem converted?_of_integer (ht : t.isReal = false) (own : DataType) (n : Int) :
    (Value.mk own (.integer n)).converted? t =
      some ⟨t, .integer (Bits.truncate n (min own.width t.width) t.isSigned)⟩ := by
  simp only [converted?, ht, Bool.false_eq_true, if_false, truncated, Bits.truncate_truncate]

/-- The intermediate type hands on the bits of a value of the given width, extended if need be as
the last type extends them. -/
def HandsOn (width : Nat) (t u : DataType) : Prop :=
  t.width = width ∨ t.sign = u.sign ∧ min width u.width ≤ t.width

theorem truncate_of_handsOn {width : Nat} (h : HandsOn width t u) (n : Int) :
    Bits.truncate (Bits.truncate n (min width t.width) t.isSigned) (min t.width u.width) u.isSigned =
      Bits.truncate n (min width u.width) u.isSigned := by
  rcases h with rfl | ⟨hsign, hwidth⟩
  · rw [Nat.min_self]
    exact Bits.truncate_truncate_of_le (Nat.min_le_left _ _) n _ _
  · have hmin : min (min width t.width) (min t.width u.width) = min width u.width := by omega
    rw [DataType.isSigned_eq_of_sign_eq hsign, Bits.truncate_truncate, hmin]

structure ConvertsCanonically (x : Value) (k : Int) : Prop where
  same : x.converted? x.type = some x
  lowBits : ∀ t, t.isReal = false →
    ∃ m, x.converted? t = some ⟨t, .integer m⟩ ∧ Bits.Fits m t.width t.isSigned ∧
      m ≡ k [ZMOD 2 ^ min x.type.width t.width]
  composes : ∀ t u, t.isReal = false → u.isReal = false → HandsOn x.type.width t u →
    ∃ y z, x.converted? t = some y ∧ y.converted? u = some z ∧ x.converted? u = some z
  widens : ∀ t u, t.isReal = false → u.isReal = false → t.sign = u.sign →
    x.type.width ≤ t.width → t.width ≤ u.width →
    ∃ y z, x.converted? t = some y ∧ y.converted? u = some z ∧ x.converted? u = some z

theorem exists_converted?_of_handsOn (ht : t.isReal = false) (hu : u.isReal = false)
    (h : HandsOn own.width t u) (n : Int) :
    ∃ y z, (Value.mk own (.integer n)).converted? t = some y ∧ y.converted? u = some z ∧
      (Value.mk own (.integer n)).converted? u = some z := by
  refine ⟨_, _, converted?_of_integer ht own n, converted?_of_integer hu t _, ?_⟩
  rw [converted?_of_integer hu own n, truncate_of_handsOn h n]

/-- **Conversions are canonical and compose.** Truncation to a width and a sign yields the only
integer of that width and sign that is congruent to the given one modulo the power of two; at width
zero that is zero.  A value made from an integer converts to its own type unchanged, and to any integral
type so that the low bits that both types have are kept.  A conversion in two steps is the same as
one if the first type has the width of the value, or if both types have the same sign and the first
one is wide enough for the bits that the value and the last type have in common; in particular
widening in two steps is widening in one. -/
theorem converts_canonically :
    (∀ (n : Int) (width : Nat) (signed : Bool),
      Bits.Fits (Bits.truncate n width signed) width signed ∧
      Bits.truncate n width signed ≡ n [ZMOD 2 ^ width] ∧
      ∀ m, Bits.Fits m width signed → m ≡ n [ZMOD 2 ^ width] →
        m = Bits.truncate n width signed) ∧
    ∀ (own : DataType) (n : Int) (x : Value), ofInt own n = .ok x →
      x.type = own ∧ ∃ k, x.number = .integer k ∧ x.ConvertsCanonically k := by
  constructor
  · intro n width signed
    have hfits := Bits.fits_truncate n width signed
    have hmod := Bits.truncate_modEq n width signed
    exact ⟨hfits, hmod, fun m hm h => Bits.eq_of_fits_of_modEq hm hfits (h.trans hmod.symm)⟩
  · intro own n x hx
    have hreal : own.isReal = false := by
      cases h : own.isReal with
      | false => rfl
      | true => simp [ofInt, h] at hx
    obtain rfl : truncated own n = x := by simpa [ofInt, hreal] using hx
    refine ⟨rfl, _, rfl, ?same, ?lowBits, ?composes, ?widens⟩
    case same => exact converted?_of_hasType (hasType_truncated hreal n)
    case lowBits =>
      intro t ht
      have hconverted := converted?_of_integer ht own (Bits.truncate n own.width own.isSigned)
      refine ⟨_, hconverted, ?_, Bits.truncate_modEq _ _ _⟩
      exact (Bits.fits_truncate _ _ _).mono (Nat.min_le_right _ _)
    case composes =>
      intro t u ht hu hhands
      exact exists_converted?_of_handsOn ht hu hhands _
    case widens =>
      intro t u ht hu hsign hown _
      exact exists_converted?_of_handsOn ht hu
        (Or.inr ⟨hsign, Nat.le_trans (Nat.min_le_left _ _) hown⟩) _

/-- The value -1 of four signed bits converts to 15 of four unsigned bits and to -1 of eight signed
bits.  So 15 of four unsigned bits converts to -1 of eight signed bits: nothing is left of the
sign that it has on the way. -/
theorem converts_canonically_minusOne :
    ofInt (.sizedVector .signed 4) 15 = .ok ⟨.sizedVector .signed 4, .integer (-1)⟩ ∧
      HandsOn 4 (.sizedVector .unsigned 4) (.sizedVector .signed 8) ∧
      (Value.mk (.sizedVector .unsigned 4) (.integer 15)).converted? (.sizedVector .signed 8) =
        some ⟨.sizedVector .signed 8, .integer (-1)⟩ := by
  have hmade : ofInt (.sizedVector .signed 4) 15 =
      .ok ⟨.sizedVector .signed 4, .integer (-1)⟩ := by decide +kernel
  have hhands : HandsOn 4 (.sizedVector .unsigned 4) (.sizedVector .signed 8) := Or.inl rfl
  refine ⟨hmade, hhands, ?_⟩
  obtain ⟨-, k, -, hconverts⟩ := converts_canonically.2 _ _ _ hmade
  obtain ⟨y, z, hy, hz, hdirect⟩ := hconverts.composes _ _ rfl rfl hhands
  cases hy
  cases hdirect
  exact hz

/-- By way of eight signed bits the same value comes to sixteen unsigned bits as 255, and not as the
15 that it is without a detour. -/
example :
    ((Value.mk (.sizedVector .signed 4) (.integer (-1))).converted? (.sizedVector .signed 8)).bind
        (·.converted? (.sizedVector .unsigned 16)) =
      some ⟨.sizedVector .unsigned 16, .integer 255⟩ := by
  decide +kernel

end Value

end VerilogExpr
