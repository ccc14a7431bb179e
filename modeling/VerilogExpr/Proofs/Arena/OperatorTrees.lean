import Mathlib.Data.List.Perm.Basic
import VerilogExpr.Proofs.Arena.Reachable

/-!
# Trees of operators

Bitwise operators and arithmetic take the common type of their operands.  That type loses what it
was combined from: a named domain or an unsized literal becomes a plain vector at its first
operator, and one real operand makes everything above it real.  So the operands of a whole tree
decide its type, whatever their order and however they are put in parentheses.
-/

namespace VerilogExpr

/-! ### The joint type of several operands -/

namespace DataType

variable {t u : DataType} {types types' : List DataType}

def widest (types : List DataType) : Nat := (types.map width).foldr max 0

/-- The type of operators over operands of these types: `real` if one of them is, and else a vector
that holds them all, signed if all of them are. -/
def joint (types : List DataType) : DataType :=
  if types.any isReal then .real
  else .sizedVector (if types.all isSigned then .signed else .unsigned) (widest types)

theorem widest_append (types types' : List DataType) :
    widest (types ++ types') = max (widest types) (widest types') := by
  induction types with
  | nil => exact (Nat.zero_max _).symm
  | cons t types ih =>
      change max t.width (widest (types ++ types')) = max (max t.width (widest types)) _
      rw [ih, Nat.max_assoc]

/-- The order of the operands does not matter. -/
theorem joint_perm (h : types.Perm types') : joint types = joint types' := by
  have hwidest : widest types = widest types' :=
    (h.map width).foldr_eq' (fun x _ y _ z => Nat.max_left_comm y x z) 0
  have hreal : types.any isReal = types'.any isReal := h.any_eq
  have hsigned : types.all isSigned = types'.all isSigned := h.all_eq
  unfold joint
  rw [hwidest, hreal, hsigned]

/-- What an operator sees of its operand: whether it is real, and if not, its sign and its width.
In these a type stands for several types taken together. -/
structure StandsFor (t : DataType) (types : List DataType) : Prop where
  real : t.isReal = types.any isReal
  signed : t.isReal = false → t.isSigned = types.all isSigned
  width : t.isReal = false → t.width = widest types

theorem standsFor_singleton (t : DataType) : t.StandsFor [t] where
  real := by simp
  signed := by simp
  width _ := (Nat.max_zero _).symm

theorem standsFor_joint (types : List DataType) : (joint types).StandsFor types := by
  unfold joint
  cases hreal : types.any isReal with
  | true => exact ⟨hreal.symm, nofun, nofun⟩
  | false =>
      refine ⟨hreal.symm, fun _ => ?_, fun _ => rfl⟩
      cases types.all isSigned <;> rfl

/-- An operator over two parts of the operands has the joint type of all of them. -/
theorem StandsFor.mixed_eq_joint (ht : t.StandsFor types) (hu : u.StandsFor types') :
    mixed t u = joint (types ++ types') := by
  unfold joint
  rw [List.any_append, ← ht.real, ← hu.real]
  unfold mixed
  cases htreal : t.isReal with
  | true => rfl
  | false =>
      cases hureal : u.isReal with
      | true => rfl
      | false =>
          simp only [Bool.or_self, Bool.false_eq_true, if_false, commonVector, commonSign]
          rw [List.all_append, ht.signed htreal, hu.signed hureal, ht.width htreal,
            hu.width hureal, widest_append]

end DataType

/-! ### Trees -/

def BinaryOp.mixesOperands : BinaryOp → Bool
  | bitwise _ => true
  | arith _ => true
  | _ => false

inductive OperatorTree where
  | operand (id : ExprId)
  | node (op : BinaryOp) (left right : OperatorTree)

namespace OperatorTree

def operands : OperatorTree → List ExprId
  | operand id => [id]
  | node _ left right => left.operands ++ right.operands

def operators : OperatorTree → List BinaryOp
  | operand _ => []
  | node op left right => op :: (left.operators ++ right.operators)

def build (a : Arena) : OperatorTree → Except Violation (Arena × ExprId)
  | operand id => .ok (a, id)
  | node op left right => do
    let (b, x) ← left.build a
    let (c, y) ← right.build b
    let d ← c.addBinary op x y
    return (d, c.size)

/-- The operands exist, and every operator is a bitwise or an arithmetic one.  If some operand is
real, only the operators are used that work on reals, which are `+`, `-`, `*` and `/`. -/
structure Fits (t : OperatorTree) (a : Arena) : Prop where
  exist : ∀ id ∈ t.operands, id < a.size
  mix : ∀ op ∈ t.operators, op.mixesOperands = true
  real : (∃ id ∈ t.operands, (a.typeAt id).isReal = true) →
    ∀ op ∈ t.operators, op.rejectsReal = false

end OperatorTree

namespace Arena

variable {a b c : Arena} {id : ExprId}

def Grows (a b : Arena) : Prop := ∀ id < a.size, b.nodes[id]? = a.nodes[id]?

theorem Grows.refl (a : Arena) : a.Grows a := fun _ _ => rfl

theorem Grows.size_le (h : a.Grows b) : a.size ≤ b.size := by
  by_contra hlt
  obtain ⟨n, hn⟩ := exists_node (Nat.lt_of_not_le hlt)
  exact Nat.lt_irrefl _ (lt_size_of_node ((h _ (lt_size_of_node hn)).trans hn))

theorem Grows.lt_size (h : a.Grows b) (hid : id < a.size) : id < b.size :=
  Nat.lt_of_lt_of_le hid h.size_le

theorem Grows.trans (h : a.Grows b) (h' : b.Grows c) : a.Grows c :=
  fun id hid => (h' id (h.lt_size hid)).trans (h id hid)

theorem grows_push (a : Arena) (e : Expr) (type : DataType) : a.Grows (a.push e type) :=
  fun _ hid => nodes_push_of_lt a e type hid

theorem Grows.typeAt_eq (h : a.Grows b) (hid : id < a.size) : b.typeAt id = a.typeAt id := by
  unfold typeAt
  rw [h id hid]

theorem Grows.type_eq (h : a.Grows b) (hid : id < a.size) : b.type id = a.type id := by
  unfold type node
  rw [h id hid]

theorem Grows.requiredAt_eq (h : a.Grows b) (hid : id < a.size) :
    b.requiredAt id = a.requiredAt id := by
  unfold requiredAt
  rw [h id hid]

theorem Grows.map_typeAt (h : a.Grows b) {ids : List ExprId} (hids : ∀ id ∈ ids, id < a.size) :
    ids.map b.typeAt = ids.map a.typeAt :=
  List.map_congr_left fun id hmem => h.typeAt_eq (hids id hmem)

/-- An operator that mixes its operands is added without touching them. -/
theorem addBinary_of_mixes {op : BinaryOp} {x y : ExprId} (hmixes : op.mixesOperands = true)
    (hx : x < a.size) (hy : y < a.size)
    (hreal : op.rejectsReal = true → (a.typeAt x).isReal = false ∧ (a.typeAt y).isReal = false) :
    a.addBinary op x y = .ok (a.push (.binary op x y) (.mixed (a.typeAt x) (a.typeAt y))) := by
  have hoperands : ∀ operand ∈ (Expr.binary op x y).operands, operand < a.size := by
    simp [Expr.operands, hx, hy]
  rw [addBinary_eq_ok_iff]
  cases op with
  | bitwise f =>
      obtain ⟨hxreal, hyreal⟩ := hreal rfl
      refine (adds_iff_of_settled_nil rfl).mpr ⟨hoperands, ⟨hxreal, hyreal⟩, ?_⟩
      rw [DataType.mixed_of_integral (DataType.isReal_mixed_eq_false_iff.mpr ⟨hxreal, hyreal⟩)]
      rfl
  | arith f => exact (adds_iff_of_settled_nil rfl).mpr ⟨hoperands, hreal, rfl⟩
  | _ => cases hmixes

end Arena

namespace OperatorTree

variable {a b : Arena} {t u l r : OperatorTree} {op : BinaryOp}

theorem Fits.left (h : (node op l r).Fits a) : l.Fits a where
  exist id hmem := h.exist id (List.mem_append_left _ hmem)
  mix f hmem := h.mix f (List.mem_cons_of_mem _ (List.mem_append_left _ hmem))
  real := by
    rintro ⟨id, hmem, hreal⟩ f hf
    exact h.real ⟨id, List.mem_append_left _ hmem, hreal⟩ f
      (List.mem_cons_of_mem _ (List.mem_append_left _ hf))

theorem Fits.right (h : (node op l r).Fits a) : r.Fits a where
  exist id hmem := h.exist id (List.mem_append_right _ hmem)
  mix f hmem := h.mix f (List.mem_cons_of_mem _ (List.mem_append_right _ hmem))
  real := by
    rintro ⟨id, hmem, hreal⟩ f hf
    exact h.real ⟨id, List.mem_append_right _ hmem, hreal⟩ f
      (List.mem_cons_of_mem _ (List.mem_append_right _ hf))

theorem Fits.of_grows (h : t.Fits a) (hgrows : a.Grows b) : t.Fits b where
  exist id hmem := hgrows.lt_size (h.exist id hmem)
  mix := h.mix
  real := by
    rintro ⟨id, hmem, hreal⟩
    rw [hgrows.typeAt_eq (h.exist id hmem)] at hreal
    exact h.real ⟨id, hmem, hreal⟩

/-- An operator that rejects reals has none below it. -/
theorem Fits.any_isReal (h : (node op l r).Fits a) (hop : op.rejectsReal = true) :
    ((node op l r).operands.map a.typeAt).any DataType.isReal = false := by
  by_contra hany
  obtain ⟨t, hmem, hreal⟩ := List.any_eq_true.mp ((Bool.not_eq_false _).mp hany)
  obtain ⟨id, hid, rfl⟩ := List.mem_map.mp hmem
  have haccepts := h.real ⟨id, hid, hreal⟩ op List.mem_cons_self
  exact Bool.false_ne_true (haccepts.symm.trans hop)

/-- A tree can be built over operands that it fits, and building it touches none of them.  The
induction carries what the operators above see of a branch, since an operand alone does not have
the joint type. -/
theorem Fits.exists_build (h : t.Fits a) :
    ∃ b root, t.build a = .ok (b, root) ∧ a.Grows b ∧ root < b.size ∧
      (b.typeAt root).StandsFor (t.operands.map a.typeAt) ∧
      (2 ≤ t.operands.length → b.requiredAt root = none ∧
        b.typeAt root = .joint (t.operands.map a.typeAt)) := by
  induction t generalizing a with
  | operand id =>
      have hid := h.exist id List.mem_cons_self
      refine ⟨a, id, rfl, .refl a, hid, DataType.standsFor_singleton _, ?_⟩
      intro hlength
      exact absurd hlength (by simp [operands])
  | node op l r ihl ihr =>
      obtain ⟨b, x, hb, hab, hx, hxstands, -⟩ := ihl h.left
      obtain ⟨c, y, hc, hbc, hy, hystands, -⟩ := ihr (h.right.of_grows hab)
      have hxtype : c.typeAt x = b.typeAt x := hbc.typeAt_eq hx
      rw [hab.map_typeAt h.right.exist] at hystands
      rw [← hxtype] at hxstands
      have hjoint := hxstands.mixed_eq_joint hystands
      rw [← List.map_append] at hjoint
      have hreal : op.rejectsReal = true →
          (c.typeAt x).isReal = false ∧ (c.typeAt y).isReal = false := by
        intro hop
        have hnone := h.any_isReal hop
        rw [operands, List.map_append, List.any_append, ← hxstands.real, ← hystands.real] at hnone
        exact Bool.or_eq_false_iff.mp hnone
      have hadd := Arena.addBinary_of_mixes (h.mix op List.mem_cons_self) (hbc.lt_size hx) hy hreal
      rw [hjoint] at hadd
      have hcd := Arena.grows_push c (.binary op x y)
        (.joint ((node op l r).operands.map a.typeAt))
      have hroot := Arena.nodes_push_size c (.binary op x y)
        (.joint ((node op l r).operands.map a.typeAt))
      refine ⟨_, c.size, ?_, hab.trans (hbc.trans hcd), ?_, ?_, fun _ => ?_⟩
      · simp only [build, hb, bind, Except.bind, hc, hadd]
        rfl
      · rw [Arena.size_push]
        exact Nat.lt_succ_self _
      · rw [Arena.typeAt_of_node hroot]
        exact DataType.standsFor_joint _
      · exact ⟨Arena.requiredAt_of_node hroot, Arena.typeAt_of_node hroot⟩

/-- **The operands decide the type of a tree.** Take two trees of bitwise and arithmetic operators
over the same operands, two or more, in any order and in any parentheses; if an operand is real,
let the operators be those that work on reals.  Both trees can be built, one after the other, and
nothing that was there before changes, neither its type nor its context.  Both roots get the same
type, which is the joint type of the operands, and no context yet. -/
theorem build_joint (hperm : t.operands.Perm u.operands) (hlength : 2 ≤ t.operands.length)
    (ht : t.Fits a) (hu : u.Fits a) :
    ∃ b x c y, t.build a = .ok (b, x) ∧ u.build b = .ok (c, y) ∧ a.Grows b ∧ b.Grows c ∧
      c.type x = .ok (.joint (t.operands.map a.typeAt)) ∧
      c.type y = .ok (.joint (t.operands.map a.typeAt)) ∧
      c.requiredAt x = none ∧ c.requiredAt y = none := by
  obtain ⟨b, x, hb, hab, hx, -, hfirst⟩ := ht.exists_build
  obtain ⟨c, y, hc, hbc, hy, -, hsecond⟩ := (hu.of_grows hab).exists_build
  obtain ⟨hxrequired, hxtype⟩ := hfirst hlength
  obtain ⟨hyrequired, hytype⟩ := hsecond (hperm.length_eq ▸ hlength)
  have hjoint : DataType.joint (u.operands.map a.typeAt) = .joint (t.operands.map a.typeAt) :=
    DataType.joint_perm (hperm.symm.map a.typeAt)
  rw [hab.map_typeAt hu.exist, hjoint] at hytype
  refine ⟨b, x, c, y, hb, hc, hab, hbc, ?_, ?_, ?_, hyrequired⟩
  · rw [hbc.type_eq hx]
    exact Arena.type_eq_ok_iff.mpr ⟨hx, hxtype⟩
  · exact Arena.type_eq_ok_iff.mpr ⟨hy, hytype⟩
  · rw [hbc.requiredAt_eq hx]
    exact hxrequired

def threeKinds : Arena where
  nodes :=
    let forty := DataType.sizedVector .signed 40
    let unsized := DataType.unsizedVector .unsigned
    #[⟨.literal ⟨.integer, .integer (-1)⟩, .integer, none⟩,
      ⟨.literal ⟨forty, .integer 7⟩, forty, none⟩,
      ⟨.literal ⟨unsized, .integer 3⟩, unsized, none⟩]

/-- The operands of `(x + y) & z` and `z % (y - x)` meet in an unsigned vector of 40 bits, though
`x + y` is signed and `z` by itself is narrower. -/
theorem build_joint_threeKinds :
    ∃ b x c y,
      (node (.bitwise .and) (node (.arith .add) (operand 0) (operand 1)) (operand 2)).build
        threeKinds = .ok (b, x) ∧
      (node (.arith .mod) (operand 2) (node (.arith .sub) (operand 1) (operand 0))).build b =
        .ok (c, y) ∧
      c.type x = .ok (.sizedVector .unsigned 40) ∧
      c.type y = .ok (.sizedVector .unsigned 40) := by
  let t := node (.bitwise .and) (node (.arith .add) (operand 0) (operand 1)) (operand 2)
  let u := node (.arith .mod) (operand 2) (node (.arith .sub) (operand 1) (operand 0))
  have ht : t.Fits threeKinds := ⟨by decide, by decide, by decide⟩
  have hu : u.Fits threeKinds := ⟨by decide, by decide, by decide⟩
  have hperm : t.operands.Perm u.operands := by decide
  obtain ⟨b, x, c, y, hb, hc, -, -, hx, hy, -⟩ := build_joint hperm (by decide) ht hu
  exact ⟨b, x, c, y, hb, hc, hx, hy⟩

end OperatorTree

end VerilogExpr
