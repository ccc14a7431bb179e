import VerilogExpr.Proofs.Arena.Listing
import VerilogExpr.Proofs.Elaborator.Moves
import VerilogExpr.Proofs.Evaluation.Soundness

/-!
# Expressions in the order of their construction

A handle is the position of an expression in the order in which expressions were built.  Whatever
handles a user passes, an expression is only added if its operands are there, so they are older than
it is, and no request changes what an expression is.  Hence no recursion over the expressions runs
forever, and none comes to a handle that names nothing.
-/

namespace VerilogExpr

/-- Every recursion from an expression ends: it goes down no further than the handle counts, and
only to handles of expressions. -/
structure Arena.RecursionsEnd (a : Arena) (id : ExprId) : Prop where
  evalWithin : ∀ cut depth, id < depth → a.evalWithin cut depth id = a.eval id
  isConstantWithin : ∀ cut depth, id < depth → a.isConstantWithin cut depth id = a.isConstant id
  textWithin : ∀ cut depth, id < depth → a.textWithin cut depth id = a.text id
  dumpWithin : ∀ cut depth, id < depth → a.dumpWithin cut depth id = a.dump id
  imposeWithin : ∀ cut depth required, id < depth →
    Arena.imposeWithin cut depth a id required = a.impose id required
  eval : ∀ v, (a.eval id).outcome ≠ .error (.violation v)
  isConstant : ∃ result, a.isConstant id = .ok result
  text : ∃ s, a.text id = .ok s
  dump : ∃ s, a.dump id = .ok s
  impose : ∀ required v, a.impose id required = .error v →
    ∃ t other present, v = .secondContext t other present ∧ other < a.size

theorem Arena.Sound.recursionsEnd {a : Arena} {id : ExprId} (h : a.Sound) (hid : id < a.size) :
    a.RecursionsEnd id where
  evalWithin cut depth hdepth := h.ordered.evalWithin_eq cut hid hdepth
  isConstantWithin cut depth hdepth := h.ordered.isConstantWithin_eq cut hid hdepth
  textWithin cut depth hdepth := h.ordered.textWithin_eq cut hid hdepth
  dumpWithin cut depth hdepth := h.ordered.dumpWithin_eq cut hid hdepth
  imposeWithin cut depth required hdepth := h.ordered.imposeWithin_eq cut hid hdepth required
  eval := (h.ensures_eval hid).ne_violation
  isConstant := h.ordered.exists_isConstant hid
  text := h.ordered.exists_text hid
  dump := h.ordered.exists_dump hid
  impose required v herror := by
    obtain ⟨t, other, present, hv, hreached⟩ := h.ordered.impose_eq_error hid herror
    exact ⟨t, other, present, hv, (h.ordered.le_of_mem_reach hreached).2⟩

def Arena.KeepsExprs (a b : Arena) : Prop :=
  ∀ (id : ExprId) (n : Node), a.nodes[id]? = some n →
    ∃ m, b.nodes[id]? = some m ∧ m.expr = n.expr

theorem Arena.Evolves.keepsExprs {a b : Arena} (h : a.Evolves b) : a.KeepsExprs b := by
  intro id n hn
  obtain ⟨m, hm, hnm⟩ := h id n hn
  exact ⟨m, hm, hnm.expr_eq⟩

namespace Workspace

open Elaborator Elaboration

variable {answer : Answer} {later : Arena}

/-- From the first arena to the second every handle has kept its expression, and there is one more
expression at most.  The answer is then the handle of the new one. -/
structure Grows (before : Arena) (answer : Answer) (later : Arena) : Prop where
  kept : before.KeepsExprs later
  added : later.size = before.size ∨ later.size = before.size + 1 ∧ answer = .expr before.size ∧
    ∃ m, later.nodes[before.size]? = some m ∧ before.add m.expr = .ok later

theorem grows_of_size_eq {before : Arena} (hevolves : before.Evolves later)
    (hsize : later.size = before.size) : Grows before answer later :=
  ⟨hevolves.keepsExprs, Or.inl hsize⟩

theorem grows_of_add {before : Arena} {e : Expr} (hadd : before.add e = .ok later) :
    Grows before (.expr before.size) later := by
  have hadds := Arena.add_eq_ok_iff.mp hadd
  refine ⟨hadds.evolves.keepsExprs, Or.inr ⟨hadds.size_eq, rfl, ?_⟩⟩
  obtain ⟨-, -, c, hrun, rfl⟩ := hadds
  rw [← hrun.size_eq]
  exact ⟨_, Arena.nodes_push_size c e _, hadd⟩

theorem grows_of_impose {before : Arena} {id : ExprId} {required : DataType}
    (himpose : before.impose id required = .ok later) : Grows before answer later :=
  have hrun := Arena.imposes_singleton_iff.mpr himpose
  grows_of_size_eq hrun.evolves hrun.size_eq

/-- A request adds one expression at most, and changes none. -/
theorem yields_grows (w : Workspace) (request : Request) :
    (w.answer request).Yields fun answer => Grows w.arena answer.1 answer.2 := by
  have hsame : ∀ answer, Grows w.arena answer w.arena := fun _ => grows_of_size_eq (.refl _) rfl
  cases request with
  | elaborate step =>
      intro answer h
      obtain ⟨reply, later⟩ := answer
      obtain ⟨-, heffect⟩ := (guarded_step (e := ⟨w.options, w.arena⟩) step).ok _ h
      unfold Effect at heffect
      split at heffect
      · obtain ⟨rfl, e, hadd⟩ := heffect
        exact grows_of_add hadd
      · obtain ⟨-, id, required, himpose⟩ := heffect
        exact grows_of_impose himpose
      · obtain rfl : later = w.arena := heffect
        exact hsame reply
  | act action =>
      refine (yields_monadLift (w.arena.act action)).bind fun later hact => .of_last fun _ => ?_
      refine .pure ?_
      cases action with
      | add e => exact grows_of_add hact
      | impose id required => exact grows_of_impose hact
      | settle id => exact grows_of_impose (Arena.settle_eq_ok_iff.mp hact)
  | evaluate id => exact .of_last fun _ => .pure (hsame _)
  | takeDiagnostics => exact .pure (hsame _)

/-- **Expressions only have older operands.** After any requests, whatever handles they name: the
operands of every expression have smaller handles than it has; every recursion from an expression
ends, and comes to no handle that names nothing; an expression that is added is found at the handle
of the answer; and no later requests change what a handle names. -/
theorem ordered_of_run (options : Options) (requests : List Request) :
    let w := ((fresh options).run requests).2
    w.arena.Ordered ∧ (∀ id, id < w.arena.size → w.arena.RecursionsEnd id) ∧
      (∀ request answer later, (w.answer request).outcome = .ok (answer, later) →
        Grows w.arena answer later) ∧
      ∀ others, w.arena.KeepsExprs (w.run others).2.arena := by
  intro w
  have hreachable : w.arena.Reachable :=
    arena_run (fun hmoves h => h.of_moves hmoves) requests ⟨[], rfl⟩
  have hsound := hreachable.sound
  refine ⟨hsound.ordered, fun id hid => hsound.recursionsEnd hid,
    fun request answer later h => yields_grows w request _ h, fun others => ?_⟩
  have hevolves : w.arena.Evolves (w.run others).2.arena :=
    arena_run (fun hmoves h => h.trans hmoves.evolves) others (.refl _)
  exact hevolves.keepsExprs

/-- After a rejected operand the sum of `4'hf` and `4'h1` is evaluated three levels deep, whatever
lies below these. -/
theorem ordered_of_run_sum :
    let requests : List Request :=
      [.elaborate (.basedLiteral .unsigned (some 4) 15),
        .elaborate (.basedLiteral .unsigned (some 4) 1),
        .elaborate (.basedLiteral .unsigned (some 0) 1),
        .elaborate (.binary (.arith .add) 0 1)]
    let w := ((fresh .standard).run requests).2
    2 < w.arena.size ∧ ∀ cut, (w.arena.evalWithin cut 3 2).outcome =
      .ok ⟨.sizedVector .unsigned 4, .integer 0⟩ := by
  intro requests w
  have hlt : 2 < w.arena.size := by decide +kernel
  have hvalue : (w.arena.eval 2).outcome = .ok ⟨.sizedVector .unsigned 4, .integer 0⟩ := by
    decide +kernel
  have hends := (ordered_of_run .standard requests).2.1 2 hlt
  refine ⟨hlt, fun cut => ?_⟩
  rw [hends.evalWithin cut 3 (by decide), hvalue]

end Workspace

end VerilogExpr
