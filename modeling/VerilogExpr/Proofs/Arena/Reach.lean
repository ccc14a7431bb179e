import Mathlib.Data.List.Nodup
import VerilogExpr.Proofs.Arena.Invariants

/-!
# What a context reaches

A context reaches an expression, the operands that it forwards to, the operands of these, and so
on.  It can be imposed if all of them are free of contexts and none is met twice on the way, and it
leaves everything else alone.  So expressions that are used only once never get in each other's
way: what one of them reaches is disjoint from what the others reach.
-/

namespace VerilogExpr.Arena

variable {a b : Arena} {id other : ExprId} {n : Node} {e : Expr} {t : DataType}
  {contexts : List (ExprId × DataType)} {ids used used' : List ExprId}

/-- An expression and everything that its context reaches, in the order in which it does. -/
def reach (a : Arena) (id : ExprId) : List ExprId :=
  a.fold (fun _ => []) (fun id n ofOperand => id :: n.expr.forwarded.flatMap ofOperand) id

theorem Ordered.reach_eq (h : a.Ordered) (hn : a.nodes[id]? = some n) :
    a.reach id = id :: n.expr.forwarded.flatMap a.reach := by
  conv => lhs; unfold reach
  rw [fold]
  simp only [hn]
  congr 1
  refine List.flatMap_congr fun operand hmem => ?_
  rw [if_pos (h id n hn operand (Expr.mem_operands_of_forwarded hmem))]
  rfl

theorem reach_eq_nil (h : a.nodes[id]? = none) : a.reach id = [] := by
  rw [reach, fold]
  simp only [h]

theorem reach_eq_nil_of_le (h : a.size ≤ id) : a.reach id = [] :=
  reach_eq_nil (Array.getElem?_eq_none h)

/-- A context reaches older expressions only. -/
theorem Ordered.le_of_mem_reach (h : a.Ordered) (hmem : other ∈ a.reach id) :
    other ≤ id ∧ other < a.size := by
  induction id using Nat.strongRecOn with
  | ind id ih =>
      cases hn : a.nodes[id]? with
      | none => simp [reach_eq_nil hn] at hmem
      | some n =>
          rw [h.reach_eq hn] at hmem
          rcases List.mem_cons.mp hmem with rfl | hbelow
          · exact ⟨Nat.le_refl _, lt_size_of_node hn⟩
          · obtain ⟨operand, hoperand, hreach⟩ := List.mem_flatMap.mp hbelow
            have hlt := h.forwarded_lt hn hoperand
            obtain ⟨hle, hsize⟩ := ih operand hlt hreach
            exact ⟨Nat.le_of_lt (Nat.lt_of_le_of_lt hle hlt), hsize⟩

/-- What a context reaches is settled when an expression is built. -/
theorem Evolves.reach_eq (hevolves : a.Evolves b) (ha : a.Ordered) (hb : b.Ordered)
    (hid : id < a.size) : b.reach id = a.reach id := by
  induction id using Nat.strongRecOn with
  | ind id ih =>
      obtain ⟨n, hn⟩ := exists_node hid
      obtain ⟨m, hm, hnm⟩ := hevolves id n hn
      rw [hb.reach_eq hm, ha.reach_eq hn, hnm.expr_eq]
      congr 1
      refine List.flatMap_congr fun operand hmem => ?_
      have hlt := ha.forwarded_lt hn hmem
      exact ih operand hlt (Nat.lt_trans hlt hid)

theorem reach_replace (h : a.Ordered) (hn : a.nodes[id]? = some n) (hrequired : n.required = none)
    (required : DataType) (hother : other < a.size) :
    (a.replace id (n.inContext required)).reach other = a.reach other := by
  have hgrown := evolves_replace hn hrequired required
  exact hgrown.reach_eq h (h.of_evolves hgrown (size_replace _ _ _)) hother

/-! ### When contexts can be imposed -/

structure Free (a : Arena) (ids : List ExprId) : Prop where
  nodup : ids.Nodup
  constructed : ∀ id ∈ ids, a.requiredAt id = none

def reachAll (a : Arena) (contexts : List (ExprId × DataType)) : List ExprId :=
  contexts.flatMap fun context => a.reach context.1

theorem reachAll_eq (a : Arena) (contexts : List (ExprId × DataType)) :
    a.reachAll contexts = (contexts.map Prod.fst).flatMap a.reach := by
  rw [reachAll, List.flatMap_map]

theorem reachAll_append (a : Arena) (contexts rest : List (ExprId × DataType)) :
    a.reachAll (contexts ++ rest) = a.reachAll contexts ++ a.reachAll rest := by
  simp only [reachAll, List.flatMap_append]

theorem reachAll_handedOn (n : Node) :
    a.reachAll n.handedOn = n.expr.forwarded.flatMap a.reach := by
  simp only [reachAll, Node.handedOn, List.flatMap_map]

/-- A step of a run takes the first expression off those that are still to be reached. -/
theorem reachAll_step {required : DataType} {rest : List (ExprId × DataType)} (h : a.Ordered)
    (hn : a.nodes[id]? = some n) (hrequired : n.required = none)
    (hrest : ∀ context ∈ rest, context.1 < a.size) :
    a.reachAll ((id, required) :: rest) =
      id :: (a.replace id (n.inContext required)).reachAll
        ((n.inContext required).handedOn ++ rest) := by
  have hsame : ∀ {other : ExprId}, other < a.size →
      (a.replace id (n.inContext required)).reach other = a.reach other :=
    fun hother => reach_replace h hn hrequired required hother
  have hoperands : ∀ operand ∈ n.expr.forwarded,
      (a.replace id (n.inContext required)).reach operand = a.reach operand :=
    fun operand hmem => hsame (Nat.lt_trans (h.forwarded_lt hn hmem) (lt_size_of_node hn))
  calc a.reachAll ((id, required) :: rest)
      = id :: (n.expr.forwarded.flatMap a.reach ++ a.reachAll rest) := by
        simp only [reachAll, List.flatMap_cons, h.reach_eq hn, List.cons_append]
    _ = id :: (a.replace id (n.inContext required)).reachAll
          ((n.inContext required).handedOn ++ rest) := by
        rw [reachAll_append, reachAll_handedOn]
        congr 2
        · exact (List.flatMap_congr hoperands).symm
        · exact (List.flatMap_congr fun context hmem => hsame (hrest context hmem)).symm

/-- Contexts can be imposed if what they reach is free.  The induction is on what is still to be
reached. -/
theorem exists_imposes (h : a.Ordered) (hlt : ∀ context ∈ contexts, context.1 < a.size)
    (hfree : a.Free (a.reachAll contexts)) : ∃ b, Imposes a contexts b := by
  generalize hreached : a.reachAll contexts = reached at hfree
  induction reached generalizing a contexts with
  | nil =>
      cases contexts with
      | nil => exact ⟨a, .done a⟩
      | cons context rest =>
          obtain ⟨n, hn⟩ := exists_node (hlt context List.mem_cons_self)
          simp [reachAll, h.reach_eq hn] at hreached
  | cons first reached ih =>
      cases contexts with
      | nil => simp [reachAll] at hreached
      | cons context rest =>
          obtain ⟨id, required⟩ := context
          obtain ⟨n, hn⟩ := exists_node (hlt (id, required) List.mem_cons_self)
          have hrest : ∀ context ∈ rest, context.1 < a.size :=
            fun context hmem => hlt context (List.mem_cons_of_mem _ hmem)
          have hconstructed : n.required = none := by
            rw [← requiredAt_of_node hn]
            apply hfree.constructed
            rw [← hreached, reachAll, List.flatMap_cons, h.reach_eq hn]
            simp
          rw [reachAll_step h hn hconstructed hrest] at hreached
          obtain ⟨rfl, htail⟩ := List.cons.inj hreached
          obtain ⟨hnotin, hnodup⟩ := List.nodup_cons.mp hfree.nodup
          have holder : ∀ operand ∈ n.expr.forwarded, operand < id :=
            fun operand hmem => h.forwarded_lt hn hmem
          have hgrown := evolves_replace hn hconstructed required
          have hlater : ∀ context ∈ (n.inContext required).handedOn ++ rest,
              context.1 < (a.replace id (n.inContext required)).size := by
            intro context hmem
            rw [size_replace]
            rcases List.mem_append.mp hmem with hoperand | hmem
            · obtain ⟨operand, hforwarded, rfl⟩ := List.mem_map.mp hoperand
              exact Nat.lt_trans (holder operand hforwarded) (lt_size_of_node hn)
            · exact hrest context hmem
          have hstillfree : (a.replace id (n.inContext required)).Free reached := by
            refine ⟨hnodup, fun other hmem => ?_⟩
            have hne : other ≠ id := fun heq => hnotin (heq ▸ hmem)
            rw [requiredAt_replace_of_ne hne]
            exact hfree.constructed other (List.mem_cons_of_mem _ hmem)
          obtain ⟨b, hb⟩ :=
            ih (h.of_evolves hgrown (size_replace _ _ _)) hlater htail hstillfree
          exact ⟨b, .step hn hconstructed holder hb⟩

/-- `reachAll_step`, for a step that is part of a run. -/
theorem Imposes.reachAll_eq {required : DataType} {rest : List (ExprId × DataType)}
    (hrest : Imposes (a.replace id (n.inContext required))
      ((n.inContext required).handedOn ++ rest) b) (h : a.Ordered) (hn : a.nodes[id]? = some n)
    (hrequired : n.required = none) :
    a.reachAll ((id, required) :: rest) =
      id :: (a.replace id (n.inContext required)).reachAll
        ((n.inContext required).handedOn ++ rest) := by
  refine reachAll_step h hn hrequired fun context hmem => ?_
  have hlt := (hrest.requiredAt_eq_none context (List.mem_append_right _ hmem)).1
  rwa [size_replace] at hlt

/-- What the contexts do not reach stays as it is. -/
theorem Imposes.nodes_eq (hrun : Imposes a contexts b) (h : a.Ordered)
    (hother : other ∉ a.reachAll contexts) : b.nodes[other]? = a.nodes[other]? := by
  induction hrun with
  | done a => rfl
  | step hn hrequired holder hrest ih =>
      rename_i id n required rest
      rw [hrest.reachAll_eq h hn hrequired, List.mem_cons, not_or] at hother
      have hgrown := evolves_replace hn hrequired required
      rw [ih (h.of_evolves hgrown (size_replace _ _ _)) hother.2, nodes_replace_of_ne hother.1]

/-! ### Expressions that are used once -/

/-- The expressions that are not used yet are free, and share nothing with each other. -/
structure Unshared (a : Arena) (used : List ExprId) : Prop where
  free : ∀ id, id ∉ used → a.Free (a.reach id)
  disjoint : ∀ id other, id ∉ used → other ∉ used → id ≠ other →
    (a.reach id).Disjoint (a.reach other)

theorem unshared_empty : empty.Unshared [] := by
  have hreach : ∀ id, empty.reach id = [] := fun id => reach_eq_nil (by simp [empty])
  constructor
  · intro id _
    rw [hreach]
    exact ⟨List.nodup_nil, by simp⟩
  · intro id other _ _ _
    rw [hreach]
    exact List.disjoint_nil_left _

theorem Unshared.mono (h : a.Unshared used) (hsubset : used ⊆ used') : a.Unshared used' where
  free id hid := h.free id fun hmem => hid (hsubset hmem)
  disjoint id other hid hother hne :=
    h.disjoint id other (fun hmem => hid (hsubset hmem)) (fun hmem => hother (hsubset hmem)) hne

/-- Several expressions that are not used yet are free together. -/
theorem Unshared.free_flatMap (h : a.Unshared used) (hnodup : ids.Nodup)
    (hunused : ∀ id ∈ ids, id ∉ used) : a.Free (ids.flatMap a.reach) := by
  constructor
  · refine List.nodup_flatMap.mpr ⟨fun id hmem => (h.free id (hunused id hmem)).nodup, ?_⟩
    refine hnodup.imp_of_mem fun hid hother hne => ?_
    exact h.disjoint _ _ (hunused _ hid) (hunused _ hother) hne
  · intro other hmem
    obtain ⟨id, hid, hreach⟩ := List.mem_flatMap.mp hmem
    exact (h.free id (hunused id hid)).constructed other hreach

/-- What several expressions reach is disjoint from what another one reaches. -/
theorem Unshared.disjoint_flatMap (h : a.Unshared used) (hunused : ∀ id ∈ ids, id ∉ used)
    (hother : other ∉ ids ++ used) : (ids.flatMap a.reach).Disjoint (a.reach other) := by
  intro x hx hxother
  obtain ⟨id, hmem, hreach⟩ := List.mem_flatMap.mp hx
  have hnotused : other ∉ used := fun hused => hother (List.mem_append_right _ hused)
  have hne : id ≠ other := fun heq => hother (List.mem_append_left _ (heq ▸ hmem))
  exact h.disjoint id other (hunused id hmem) hnotused hne hreach hxother

theorem Unshared.exists_imposes (h : a.Unshared used) (hordered : a.Ordered)
    (hnodup : (contexts.map Prod.fst).Nodup)
    (hunused : ∀ context ∈ contexts, context.1 ∉ used ∧ context.1 < a.size) :
    ∃ b, Imposes a contexts b := by
  refine Arena.exists_imposes hordered (fun context hmem => (hunused context hmem).2) ?_
  rw [reachAll_eq]
  refine h.free_flatMap hnodup fun id hmem => ?_
  obtain ⟨context, hcontext, rfl⟩ := List.mem_map.mp hmem
  exact (hunused context hcontext).1

/-- Contexts use the expressions that they are imposed onto, and disturb no others. -/
theorem Unshared.of_imposes (h : a.Unshared used) (hordered : a.Ordered)
    (hunused : ∀ context ∈ contexts, context.1 ∉ used) (hrun : Imposes a contexts b) :
    b.Unshared (contexts.map Prod.fst ++ used) := by
  have hreach : ∀ id, b.reach id = a.reach id := by
    intro id
    by_cases hid : id < a.size
    · exact hrun.evolves.reach_eq hordered (hordered.of_evolves hrun.evolves hrun.size_eq) hid
    · have hle : a.size ≤ id := Nat.le_of_not_lt hid
      have hle' : b.size ≤ id := by
        rw [hrun.size_eq]
        exact hle
      rw [reach_eq_nil_of_le hle, reach_eq_nil_of_le hle']
  have hids : ∀ id ∈ contexts.map Prod.fst, id ∉ used := by
    intro id hmem
    obtain ⟨context, hcontext, rfl⟩ := List.mem_map.mp hmem
    exact hunused context hcontext
  have hrest := h.mono (List.subset_append_right (contexts.map Prod.fst) used)
  constructor
  · intro id hid
    rw [hreach]
    refine ⟨(hrest.free id hid).nodup, fun other hmem => ?_⟩
    have hnotreached : other ∉ a.reachAll contexts := by
      rw [reachAll_eq]
      exact fun hreached => h.disjoint_flatMap hids hid hreached hmem
    unfold requiredAt
    rw [hrun.nodes_eq hordered hnotreached]
    exact (hrest.free id hid).constructed other hmem
  · intro id other hid hother hne
    rw [hreach, hreach]
    exact hrest.disjoint id other hid hother hne

/-- What an expression reaches stays the same when another one is added. -/
theorem reach_push_of_ne (hordered : a.Ordered) (hpushed : (a.push e t).Ordered)
    (hne : id ≠ a.size) : (a.push e t).reach id = a.reach id := by
  by_cases hid : id < a.size
  · exact (evolves_push a e t).reach_eq hordered hpushed hid
  · have hlt : a.size < id := Nat.lt_of_le_of_ne (Nat.le_of_not_lt hid) (Ne.symm hne)
    have hle : (a.push e t).size ≤ id := by
      rw [size_push]
      exact hlt
    rw [reach_eq_nil_of_le hle, reach_eq_nil_of_le (Nat.le_of_lt hlt)]

/-- A new expression reaches itself and what its operands reach. -/
theorem reach_push_size (hordered : a.Ordered) (hpushed : (a.push e t).Ordered)
    (hoperands : ∀ operand ∈ e.forwarded, operand < a.size) :
    (a.push e t).reach a.size = a.size :: e.forwarded.flatMap a.reach := by
  rw [hpushed.reach_eq (nodes_push_size a e t)]
  congr 1
  refine List.flatMap_congr fun operand hmem => ?_
  exact reach_push_of_ne hordered hpushed (Nat.ne_of_lt (hoperands operand hmem))

/-- Adding an expression gives no context to what is reached already. -/
theorem Free.of_push (h : a.Free ids) (hlt : ∀ id ∈ ids, id < a.size) :
    (a.push e t).Free ids := by
  refine ⟨h.nodup, fun id hmem => ?_⟩
  have hnone := h.constructed id hmem
  unfold requiredAt at hnone ⊢
  rwa [nodes_push_of_lt a e t (hlt id hmem)]

/-- A new expression uses the operands that it forwards its context to. -/
theorem Unshared.of_push (h : a.Unshared used) (hordered : a.Ordered)
    (hoperands : ∀ operand ∈ e.operands, operand < a.size) (hnodup : e.forwarded.Nodup)
    (hunused : ∀ operand ∈ e.forwarded, operand ∉ used) :
    (a.push e t).Unshared (e.forwarded ++ used) := by
  have hpushed : (a.push e t).Ordered := hordered.of_push hoperands
  have hold : ∀ {id : ExprId}, id ≠ a.size → (a.push e t).reach id = a.reach id :=
    reach_push_of_ne hordered hpushed
  have hnew := reach_push_size hordered hpushed fun operand hmem =>
    hoperands operand (Expr.mem_operands_of_forwarded hmem)
  have hsize : ∀ id, a.size ∉ a.reach id := by
    intro id hmem
    exact Nat.lt_irrefl _ (hordered.le_of_mem_reach hmem).2
  have hrest := h.mono (List.subset_append_right e.forwarded used)
  have hapart : ∀ other, other ∉ e.forwarded ++ used →
      (a.size :: e.forwarded.flatMap a.reach).Disjoint (a.reach other) := by
    intro other hother
    exact List.disjoint_cons_left.mpr ⟨hsize other, h.disjoint_flatMap hunused hother⟩
  constructor
  · intro id hid
    by_cases heq : id = a.size
    · subst heq
      rw [hnew]
      have hbelow : (a.push e t).Free (e.forwarded.flatMap a.reach) := by
        refine (h.free_flatMap hnodup hunused).of_push fun other hmem => ?_
        obtain ⟨operand, -, hreach⟩ := List.mem_flatMap.mp hmem
        exact (hordered.le_of_mem_reach hreach).2
      have hnotin : a.size ∉ e.forwarded.flatMap a.reach := by
        intro hmem
        obtain ⟨operand, -, hreach⟩ := List.mem_flatMap.mp hmem
        exact hsize operand hreach
      refine ⟨List.nodup_cons.mpr ⟨hnotin, hbelow.nodup⟩, List.forall_mem_cons.mpr ⟨?_, ?_⟩⟩
      · exact requiredAt_of_node (nodes_push_size a e t)
      · exact hbelow.constructed
    · rw [hold heq]
      exact (hrest.free id hid).of_push fun other hmem => (hordered.le_of_mem_reach hmem).2
  · intro id other hid hother hne
    by_cases hfirst : id = a.size
    · subst hfirst
      rw [hnew, hold (Ne.symm hne)]
      exact hapart other hother
    · by_cases hsecond : other = a.size
      · subst hsecond
        rw [hnew, hold hfirst]
        exact fun x hx hxother => hapart id hid hxother hx
      · rw [hold hfirst, hold hsecond]
        exact hrest.disjoint id other hid hother hne

/-! ### Building from unused operands -/

theorem map_fst_settledContexts (e : Expr) (types : ExprId → DataType) :
    (e.settledContexts types).map Prod.fst = e.settled := by
  simp [Expr.settledContexts, Function.comp_def]

theorem mem_settledContexts {types : ExprId → DataType} {context : ExprId × DataType}
    (hmem : context ∈ e.settledContexts types) : context.1 ∈ e.settled := by
  rw [← map_fst_settledContexts e types]
  exact List.mem_map_of_mem hmem

/-- The operands of an expression are settled or in its context, and no operand is listed as
both. -/
theorem perm_operands (e : Expr) : e.operands.Perm (e.settled ++ e.forwarded) := by
  cases e with
  | unary op x =>
      cases hsink : op.isSink <;> simp [Expr.operands, Expr.settled, Expr.forwarded, hsink]
  | binary op x y =>
      cases op with
      | power => exact .swap _ _ _
      | shift f => exact .swap _ _ _
      | _ => exact .refl _
  | ternary op x y z => cases op <;> exact .refl _
  | _ => simp [Expr.operands, Expr.settled, Expr.forwarded]

/-- An admissible expression can be built from operands that are not used yet, and building it uses
them. -/
theorem Unshared.exists_adds (h : a.Unshared used) (hordered : a.Ordered)
    (hoperands : ∀ operand ∈ e.operands, operand < a.size ∧ operand ∉ used)
    (hnodup : e.operands.Nodup) (hadmissible : e.Admissible a.typeAt) :
    ∃ b, Adds a e b ∧ b.Unshared (e.operands ++ used) := by
  have hperm := perm_operands e
  obtain ⟨hsettled, hforwarded, hapart⟩ := List.nodup_append.mp (hperm.nodup_iff.mp hnodup)
  have hlt : ∀ operand ∈ e.operands, operand < a.size :=
    fun operand hmem => (hoperands operand hmem).1
  have hunused : ∀ context ∈ e.settledContexts a.typeAt, context.1 ∉ used ∧ context.1 < a.size := by
    intro context hmem
    obtain ⟨hlt, hnot⟩ := hoperands _ (Expr.mem_operands_of_settled (mem_settledContexts hmem))
    exact ⟨hnot, hlt⟩
  obtain ⟨c, hrun⟩ := h.exists_imposes hordered
    (by rw [map_fst_settledContexts]; exact hsettled) hunused
  refine ⟨_, ⟨hlt, hadmissible, c, hrun, rfl⟩, ?_⟩
  have hc := h.of_imposes hordered (fun context hmem => (hunused context hmem).1) hrun
  rw [map_fst_settledContexts] at hc
  have hordered' := hordered.of_evolves hrun.evolves hrun.size_eq
  have hpushed := hc.of_push (t := e.selfType (if e.isChoice then c.typeAt else a.typeAt))
    hordered' (fun operand hmem => hrun.evolves.lt_size (hlt operand hmem)) hforwarded ?_
  · refine hpushed.mono fun id hmem => ?_
    rw [List.mem_append, hperm.mem_iff, List.mem_append]
    rw [List.mem_append, List.mem_append] at hmem
    tauto
  · intro operand hmem hused
    rcases List.mem_append.mp hused with hsettled | hbefore
    · exact hapart operand hsettled operand hmem rfl
    · exact (hoperands operand (Expr.mem_operands_of_forwarded hmem)).2 hbefore

end VerilogExpr.Arena
