import VerilogExpr.Proofs.Arena.Recursion
import VerilogExpr.Proofs.Arena.SharedWidth

/-!
# What a context changes

A context is imposed by a traversal that changes one expression after the other, parents before
their operands, and stops at an expression that has a context already.  Seen from outside it
changes what forwarding paths lead to, and nothing else.  As each expression takes one context only,
the traversal goes through exactly if none of these expressions has a context and no two paths lead
to the same one.
-/

namespace VerilogExpr

theorem disjoint_of_pairwise {α β : Type} {f : α → List β} {members : List α} {i j : Nat} {x y : α}
    (h : members.Pairwise fun x y => (f x).Disjoint (f y)) (hi : members[i]? = some x)
    (hj : members[j]? = some y) (hne : i ≠ j) : (f x).Disjoint (f y) := by
  obtain ⟨hilt, rfl⟩ := List.getElem?_eq_some_iff.mp hi
  obtain ⟨hjlt, rfl⟩ := List.getElem?_eq_some_iff.mp hj
  rcases Nat.lt_or_gt_of_ne hne with hlt | hgt
  · exact List.pairwise_iff_getElem.mp h i j hilt hjlt hlt
  · exact fun z hz hz' => List.pairwise_iff_getElem.mp h j i hjlt hilt hgt hz' hz

namespace Node

variable {n m : Node}

/-- What became of an expression that a context has reached: it had none before, and its type is
widened to the required one if it forwards contexts. -/
structure ContextStep (n m : Node) : Prop where
  constructed : n.required = none
  expr_eq : m.expr = n.expr
  type_eq : ∃ required, m.required = some required ∧
    m.type = if n.expr.isForwarding then n.type.widened required else n.type
  similar : n.type.Similar m.type

theorem Evolves.contextStep (h : n.Evolves m) (hn : n.required = none)
    (hm : m.required ≠ none) : ContextStep n m := by
  refine ⟨hn, h.expr_eq, ?_, h.similar⟩
  rcases h with rfl | ⟨-, required, rfl⟩
  · exact absurd hn hm
  · exact ⟨required, rfl, rfl⟩

end Node

namespace Arena

variable {a b : Arena} {root id operand other : ExprId} {n m : Node} {required : DataType}
  {path path' : List Nat} {contexts : List (ExprId × DataType)}

/-! ### Paths -/

/-- The way down from an expression that takes, on each level, the operand at the listed position
among those that the context is forwarded to. -/
inductive ForwardPath (a : Arena) : ExprId → List Nat → ExprId → Prop where
  | here {id : ExprId} {n : Node} (hn : a.nodes[id]? = some n) : ForwardPath a id [] id
  | down {id operand other : ExprId} {n : Node} {position : Nat} {path : List Nat}
      (hn : a.nodes[id]? = some n) (hoperand : n.expr.forwarded[position]? = some operand)
      (hrest : ForwardPath a operand path other) : ForwardPath a id (position :: path) other

/-- What a context reaches is what paths lead to. -/
theorem Ordered.mem_reach_iff (h : a.Ordered) :
    other ∈ a.reach id ↔ ∃ path, a.ForwardPath id path other := by
  induction id using Nat.strongRecOn with
  | ind id ih =>
      constructor
      · intro hmem
        cases hn : a.nodes[id]? with
        | none => simp [reach_eq_nil hn] at hmem
        | some n =>
            rw [h.reach_eq hn] at hmem
            rcases List.mem_cons.mp hmem with rfl | hbelow
            · exact ⟨[], .here hn⟩
            · obtain ⟨operand, hoperand, hreach⟩ := List.mem_flatMap.mp hbelow
              obtain ⟨path, hpath⟩ := (ih operand (h.forwarded_lt hn hoperand)).mp hreach
              obtain ⟨position, hposition⟩ := List.mem_iff_getElem?.mp hoperand
              exact ⟨position :: path, .down hn hposition hpath⟩
      · rintro ⟨path, hpath⟩
        cases hpath with
        | here hn =>
            rw [h.reach_eq hn]
            exact List.mem_cons_self
        | down hn hposition hrest =>
            have hoperand := List.mem_of_getElem? hposition
            have hreach := (ih _ (h.forwarded_lt hn hoperand)).mpr ⟨_, hrest⟩
            rw [h.reach_eq hn]
            exact List.mem_cons_of_mem _ (List.mem_flatMap.mpr ⟨_, hoperand, hreach⟩)

/-- A path leads to an older expression, unless it is empty. -/
theorem ForwardPath.lt_of_down {position : Nat} (hordered : a.Ordered)
    (h : a.ForwardPath id (position :: path) other) : other < id := by
  cases h with
  | down hn hposition hrest =>
      have hle := (hordered.le_of_mem_reach (hordered.mem_reach_iff.mpr ⟨_, hrest⟩)).1
      exact Nat.lt_of_le_of_lt hle (hordered.forwarded_lt hn (List.mem_of_getElem? hposition))

theorem ForwardPath.eq_nil (hordered : a.Ordered) (h : a.ForwardPath id path id) : path = [] := by
  cases path with
  | nil => rfl
  | cons position path => exact absurd (h.lt_of_down hordered) (Nat.lt_irrefl id)

theorem ForwardPath.of_cons {position : Nat} (h : a.ForwardPath id (position :: path) other)
    (hn : a.nodes[id]? = some n) :
    ∃ operand, n.expr.forwarded[position]? = some operand ∧ a.ForwardPath operand path other := by
  cases h with
  | down hn' hposition hrest =>
      obtain rfl := Option.some.inj (hn.symm.trans hn')
      exact ⟨_, hposition, hrest⟩

/-- Two paths that part lead to what different operands reach. -/
theorem Ordered.unique_of_nodup (h : a.Ordered) (hnodup : (a.reach id).Nodup)
    (hpath : a.ForwardPath id path other) (hpath' : a.ForwardPath id path' other) :
    path' = path := by
  induction hpath generalizing path' with
  | here hn => exact hpath'.eq_nil h
  | @down id operand other n position path hn hposition hrest ih =>
      rw [h.reach_eq hn, List.nodup_cons, List.nodup_flatMap] at hnodup
      obtain ⟨-, hnodup, hdisjoint⟩ := hnodup
      cases path' with
      | nil =>
          cases hpath'
          exact ((ForwardPath.down hn hposition hrest).eq_nil h).symm
      | cons position' path' =>
          obtain ⟨operand', hposition', hrest'⟩ := hpath'.of_cons hn
          by_cases heq : position' = position
          · subst heq
            obtain rfl := Option.some.inj (hposition.symm.trans hposition')
            rw [ih (hnodup _ (List.mem_of_getElem? hposition)) hrest']
          · have hapart := disjoint_of_pairwise hdisjoint hposition' hposition heq
            exact absurd (h.mem_reach_iff.mpr ⟨_, hrest⟩)
              (hapart (h.mem_reach_iff.mpr ⟨_, hrest'⟩))

theorem Ordered.nodup_of_unique (h : a.Ordered)
    (hunique : ∀ other path path', a.ForwardPath id path other → a.ForwardPath id path' other →
      path' = path) : (a.reach id).Nodup := by
  induction id using Nat.strongRecOn with
  | ind id ih =>
      cases hn : a.nodes[id]? with
      | none =>
          rw [reach_eq_nil hn]
          exact List.nodup_nil
      | some n =>
          rw [h.reach_eq hn, List.nodup_cons, List.nodup_flatMap]
          refine ⟨fun hmem => ?_, fun operand hoperand => ?_, ?_⟩
          · obtain ⟨operand, hoperand, hreach⟩ := List.mem_flatMap.mp hmem
            have hle := (h.le_of_mem_reach hreach).1
            exact absurd (Nat.lt_of_le_of_lt hle (h.forwarded_lt hn hoperand)) (Nat.lt_irrefl id)
          · obtain ⟨position, hposition⟩ := List.mem_iff_getElem?.mp hoperand
            refine ih operand (h.forwarded_lt hn hoperand) fun other path path' hpath hpath' => ?_
            exact (List.cons.inj (hunique other _ _ (.down hn hposition hpath)
              (.down hn hposition hpath'))).2
          · refine List.pairwise_iff_getElem.mpr fun i j hi hj hij other hfirst hsecond => ?_
            obtain ⟨path, hpath⟩ := h.mem_reach_iff.mp hfirst
            obtain ⟨path', hpath'⟩ := h.mem_reach_iff.mp hsecond
            have hsame := hunique other _ _ (.down hn (List.getElem?_eq_getElem hi) hpath)
              (.down hn (List.getElem?_eq_getElem hj) hpath')
            exact absurd (List.cons.inj hsame).1 (Nat.ne_of_gt hij)

/-! ### When a context can be imposed -/

/-- Contexts that have been imposed met nothing that had one, and nothing twice. -/
theorem Imposes.free (hrun : Imposes a contexts b) (h : a.Ordered) :
    a.Free (a.reachAll contexts) := by
  induction hrun with
  | done a => exact ⟨List.nodup_nil, by simp [reachAll]⟩
  | step hn hrequired holder hrest ih =>
      rename_i a _ id n required rest
      have hgrown := evolves_replace hn hrequired required
      have hlater := ih (h.of_evolves hgrown (size_replace _ _ _))
      -- the expression has a context from here on, so nothing that follows can be it
      have hnotin : id ∉ (a.replace id (n.inContext required)).reachAll
          ((n.inContext required).handedOn ++ rest) := by
        intro hmem
        have hnone := hlater.constructed id hmem
        rw [requiredAt_of_node (nodes_replace_self (lt_size_of_node hn) _)] at hnone
        simp at hnone
      rw [hrest.reachAll_eq h hn hrequired]
      refine ⟨List.nodup_cons.mpr ⟨hnotin, hlater.nodup⟩, fun other hmem => ?_⟩
      rcases List.mem_cons.mp hmem with rfl | hrestmem
      · rw [requiredAt_of_node hn, hrequired]
      · have hne : other ≠ id := fun heq => hnotin (heq ▸ hrestmem)
        rw [← requiredAt_replace_of_ne hne (n.inContext required)]
        exact hlater.constructed other hrestmem

theorem reachAll_singleton (a : Arena) (root : ExprId) (required : DataType) :
    a.reachAll [(root, required)] = a.reach root := by
  simp [reachAll]

theorem Ordered.exists_impose_iff (h : a.Ordered) :
    (∃ b, a.impose root required = .ok b) ↔ root < a.size ∧ a.Free (a.reach root) := by
  simp only [← imposes_singleton_iff]
  constructor
  · rintro ⟨b, hrun⟩
    have hfree := hrun.free h
    rw [reachAll_singleton] at hfree
    exact ⟨(hrun.requiredAt_eq_none _ List.mem_cons_self).1, hfree⟩
  · rintro ⟨hlt, hfree⟩
    refine exists_imposes h (fun context hmem => ?_) ?_
    · rw [List.mem_singleton.mp hmem]
      exact hlt
    · rwa [reachAll_singleton]

/-- Every path from the expression leads to something that no context has reached, and no other
path leads there. -/
structure OpenTo (a : Arena) (root : ExprId) : Prop where
  known : root < a.size
  constructed : ∀ path other, a.ForwardPath root path other → a.requiredAt other = none
  unique : ∀ other path path', a.ForwardPath root path other → a.ForwardPath root path' other →
    path' = path

theorem Ordered.exists_impose_iff_openTo (h : a.Ordered) :
    (∃ b, a.impose root required = .ok b) ↔ a.OpenTo root := by
  rw [h.exists_impose_iff]
  constructor
  · rintro ⟨hlt, hfree⟩
    exact ⟨hlt, fun path other hpath => hfree.constructed _ (h.mem_reach_iff.mpr ⟨path, hpath⟩),
      fun other path path' => h.unique_of_nodup hfree.nodup⟩
  · rintro ⟨hlt, hconstructed, hunique⟩
    refine ⟨hlt, h.nodup_of_unique hunique, fun other hmem => ?_⟩
    obtain ⟨path, hpath⟩ := h.mem_reach_iff.mp hmem
    exact hconstructed path other hpath

/-! ### What it changes -/

/-- Everything that a context reaches gets one. -/
theorem Imposes.requiredAt_ne_none (hrun : Imposes a contexts b) (h : a.Ordered)
    (hmem : other ∈ a.reachAll contexts) : b.requiredAt other ≠ none := by
  induction hrun with
  | done a => simp [reachAll] at hmem
  | step hn hrequired holder hrest ih =>
      rename_i required rest
      have hgrown := evolves_replace hn hrequired required
      rw [hrest.reachAll_eq h hn hrequired] at hmem
      rcases List.mem_cons.mp hmem with rfl | hrestmem
      · rw [(Imposes.step hn hrequired holder hrest).requiredAt_eq_some _ List.mem_cons_self]
        simp
      · exact ih (h.of_evolves hgrown (size_replace _ _ _)) hrestmem

/-- From the first arena to the second, a required type has been imposed onto an expression. -/
structure ContextEffect (a b : Arena) (root : ExprId) (required : DataType) : Prop where
  /-- Exactly what paths lead to has changed its type or its required type. -/
  changed_iff : ∀ other, (b.typeAt other ≠ a.typeAt other ∨
    b.requiredAt other ≠ a.requiredAt other) ↔ ∃ path, a.ForwardPath root path other
  untouched : ∀ other, (∀ path, ¬ a.ForwardPath root path other) →
    b.nodes[other]? = a.nodes[other]?
  unique : ∀ other path path', a.ForwardPath root path other → a.ForwardPath root path' other →
    path' = path
  reached : ∀ path other, a.ForwardPath root path other →
    ∃ n m, a.nodes[other]? = some n ∧ b.nodes[other]? = some m ∧ n.ContextStep m
  root_required : b.requiredAt root = some required
  /-- Below the root, the required type is the final type of the expression that forwards it. -/
  operand_required : ∀ path id n, a.ForwardPath root path id → a.nodes[id]? = some n →
    ∀ operand ∈ n.expr.forwarded, b.requiredAt operand = some (b.typeAt id)

/-- A context that is no violation has come to every place by the one path that leads there, and to
no place twice. -/
theorem Sound.contextEffect (h : a.Sound) (himpose : a.impose root required = .ok b) :
    a.ContextEffect b root required := by
  have hrun := imposes_singleton_iff.mpr himpose
  have hopen := h.ordered.exists_impose_iff_openTo.mp ⟨b, himpose⟩
  have hreached : ∀ {path other}, a.ForwardPath root path other →
      ∃ n m, a.nodes[other]? = some n ∧ b.nodes[other]? = some m ∧ n.ContextStep m := by
    intro path other hpath
    have hmem := h.ordered.mem_reach_iff.mpr ⟨path, hpath⟩
    obtain ⟨n, hn⟩ := exists_node (h.ordered.le_of_mem_reach hmem).2
    obtain ⟨m, hm, hnm⟩ := hrun.evolves other n hn
    rw [← reachAll_singleton a root required] at hmem
    have hfinal := hrun.requiredAt_ne_none h.ordered hmem
    have hconstructed := hopen.constructed path other hpath
    rw [requiredAt_of_node hm] at hfinal
    rw [requiredAt_of_node hn] at hconstructed
    exact ⟨n, m, hn, hm, hnm.contextStep hconstructed hfinal⟩
  have huntouched : ∀ other, (∀ path, ¬ a.ForwardPath root path other) →
      b.nodes[other]? = a.nodes[other]? := by
    intro other hnone
    refine hrun.nodes_eq h.ordered fun hmem => ?_
    rw [reachAll_singleton] at hmem
    obtain ⟨path, hpath⟩ := h.ordered.mem_reach_iff.mp hmem
    exact hnone path hpath
  refine ⟨fun other => ⟨fun hchanged => ?_, ?_⟩, huntouched, hopen.unique,
    fun path other => hreached, hrun.requiredAt_eq_some _ List.mem_cons_self, ?_⟩
  · by_contra hnone
    have hsame := huntouched other (not_exists.mp hnone)
    rcases hchanged with htype | hrequired
    · exact htype (by rw [typeAt, typeAt, hsame])
    · exact hrequired (by rw [requiredAt, requiredAt, hsame])
  · rintro ⟨path, hpath⟩
    obtain ⟨n, m, hn, hm, hstep⟩ := hreached hpath
    obtain ⟨t, ht, -⟩ := hstep.type_eq
    right
    rw [requiredAt_of_node hn, requiredAt_of_node hm, hstep.constructed, ht]
    simp
  · intro path id n hpath hn operand hmem
    obtain ⟨n', m, hn', hm, hstep⟩ := hreached hpath
    obtain rfl := Option.some.inj (hn.symm.trans hn')
    obtain ⟨t, ht, -⟩ := hstep.type_eq
    rw [typeAt_of_node hm]
    refine (h.of_imposes hrun).closed id m hm (by simp [ht]) operand ?_
    rwa [hstep.expr_eq]

theorem impose_unknown (h : ¬ root < a.size) :
    a.impose root required = .error (.unknownExpr root) := by
  have hnone : a.nodes[root]? = none := Array.getElem?_eq_none (Nat.le_of_not_lt h)
  rw [impose]
  simp only [hnone]

/-- **The exact effect of a context.** In a reachable arena, imposing a type onto an expression
changes what the forwarding paths from it lead to and nothing else.  Each of these expressions had
no context and has one path that leads to it.  The first one gets the given type as its required
one and the others the final type of the expression above them, to which those that forward
contexts are widened.  The context goes through exactly if the expression is in the arena, nothing
on the paths has a context and no two paths meet; otherwise it ends in a violation, which names an
expression on a path unless the given one is unknown. -/
theorem Reachable.impose_effect (h : a.Reachable) (root : ExprId) (required : DataType) :
    (∀ b, a.impose root required = .ok b → a.ContextEffect b root required) ∧
    ((∃ b, a.impose root required = .ok b) ↔ a.OpenTo root) ∧
    (¬ a.OpenTo root → ∃ v, a.impose root required = .error v ∧
      (v = .unknownExpr root ∧ ¬ root < a.size ∨
        ∃ path other t present, a.ForwardPath root path other ∧
          v = .secondContext t other present)) := by
  have hordered := h.sound.ordered
  have hopen : (∃ b, a.impose root required = .ok b) ↔ a.OpenTo root :=
    hordered.exists_impose_iff_openTo
  refine ⟨fun b => h.sound.contextEffect, hopen, fun hclosed => ?_⟩
  by_cases hlt : root < a.size
  · cases himpose : a.impose root required with
    | ok b => exact absurd (hopen.mp ⟨b, himpose⟩) hclosed
    | error v =>
        obtain ⟨t, other, present, hv, hmem⟩ := hordered.impose_eq_error hlt himpose
        obtain ⟨path, hpath⟩ := hordered.mem_reach_iff.mp hmem
        exact ⟨v, rfl, Or.inr ⟨path, other, t, present, hpath, hv⟩⟩
  · exact ⟨_, impose_unknown hlt, Or.inl ⟨rfl, hlt⟩⟩

/-- The arena of `4'h1 + 4'h1` with one literal for both operands. -/
def doubled : Arena where
  nodes :=
    let four := DataType.sizedVector .unsigned 4
    #[⟨.literal (.truncated four 1), four, none⟩, ⟨.binary (.arith .add) 0 0, four, none⟩]

theorem reachable_doubled : doubled.Reachable := by
  refine ⟨doubled.nodes.toList.map fun n => .add n.expr, ?_⟩
  decide +kernel

/-- Both positions of the sum lead to the literal. -/
theorem not_openTo_doubled : ¬ doubled.OpenTo 1 := by
  intro h
  have hliteral : doubled.ForwardPath 0 [] 0 := .here rfl
  have hleft : doubled.ForwardPath 1 [0] 0 := .down rfl rfl hliteral
  have hright : doubled.ForwardPath 1 [1] 0 := .down rfl rfl hliteral
  exact absurd (h.unique 0 [0] [1] hleft hright) (by decide)

theorem impose_effect_mixedSum_doubled :
    (∃ b, mixedSum.impose 4 (.sizedVector .unsigned 16) = .ok b ∧
      mixedSum.ContextEffect b 4 (.sizedVector .unsigned 16)) ∧
    ∃ v, doubled.impose 1 (.sizedVector .unsigned 4) = .error v := by
  obtain ⟨⟨b, hb⟩, -⟩ := exists_impose_mixedSum
  obtain ⟨heffect, -⟩ := reachable_mixedSum.impose_effect 4 (.sizedVector .unsigned 16)
  obtain ⟨-, -, hfails⟩ := reachable_doubled.impose_effect 1 (.sizedVector .unsigned 4)
  obtain ⟨v, hv, -⟩ := hfails not_openTo_doubled
  exact ⟨⟨b, hb, heffect b hb⟩, v, hv⟩

end Arena

end VerilogExpr
