import Mathlib.Data.List.Defs

/-!
# Computations that may stop

Facts about outcomes that hold whatever is computed, and whatever the reasons to stop are.
`Concludes` says what can be relied on of a result and of a reason to stop.  It has one rule for
sequences and one for each kind of loop, and what is said of evaluation and of elaboration, which
stop for different reasons, are instances of it.  The rest compares loops with each other.
-/

namespace VerilogExpr

variable {ε α β : Type} {x : Except ε α} {members : List α}

/-! ### Results -/

theorem bind_eq_ok_iff {next : α → Except ε β} {result : β} :
    x >>= next = .ok result ↔ ∃ middle, x = .ok middle ∧ next middle = .ok result := by
  cases x with
  | error e => simp [bind, Except.bind]
  | ok middle => simp [bind, Except.bind]

theorem pure_eq_ok_iff {y z : α} : (pure y : Except ε α) = .ok z ↔ y = z := by
  simp [pure, Except.pure]

theorem toOption_eq_some_iff {y : α} : x.toOption = some y ↔ x = .ok y := by
  cases x <;> simp [Except.toOption]

theorem exists_eq_ok_of_isSome (h : x.toOption.isSome = true) : ∃ y, x = .ok y := by
  obtain ⟨y, hy⟩ := Option.isSome_iff_exists.mp h
  exact ⟨y, toOption_eq_some_iff.mp hy⟩

/-! ### Results and reasons to stop -/

/-- A result with the one property, or a reason to stop with the other. -/
def Concludes (P : α → Prop) (R : ε → Prop) : Except ε α → Prop
  | .ok result => P result
  | .error e => R e

section Concludes

variable {P Q : α → Prop} {R : ε → Prop}

theorem Concludes.bind {Q : β → Prop} {next : α → Except ε β} (hx : Concludes P R x)
    (hnext : ∀ result, P result → Concludes Q R (next result)) :
    Concludes Q R (x >>= next) := by
  cases x with
  | ok result => exact hnext result hx
  | error e => exact hx

theorem Concludes.mono (hx : Concludes P R x) (h : ∀ result, P result → Q result) :
    Concludes Q R x := by
  cases x with
  | ok result => exact h result hx
  | error e => exact hx

theorem Concludes.of_eq_ok {result : α} (hx : Concludes P R x) (h : x = .ok result) :
    P result := by
  rwa [h] at hx

theorem Concludes.of_eq_error {e : ε} (hx : Concludes P R x) (h : x = .error e) : R e := by
  rwa [h] at hx

/-- Whatever follows may rely on it that the result is the one of this computation. -/
theorem Concludes.with_eq (hx : Concludes P R x) :
    Concludes (fun result => x = .ok result ∧ P result) R x := by
  cases x with
  | ok result => exact ⟨rfl, hx⟩
  | error e => exact hx

theorem concludes_iff_exists_eq_ok :
    Concludes (fun _ => True) (fun _ => False) x ↔ ∃ y, x = .ok y := by
  cases x with
  | ok result => exact iff_of_true trivial ⟨result, rfl⟩
  | error e => exact iff_of_false id nofun

/-- A loop keeps what each of its steps keeps, and stops as one of them does. -/
theorem concludes_foldlM {P : β → Prop} {step : β → α → Except ε β}
    (h : ∀ x ∈ members, ∀ acc, P acc → Concludes P R (step acc x)) {init : β} (hinit : P init) :
    Concludes P R (members.foldlM step init) := by
  induction members generalizing init with
  | nil => exact hinit
  | cons x members ih =>
      rw [List.foldlM_cons]
      exact (h x List.mem_cons_self init hinit).bind fun next hnext =>
        ih (fun y hy => h y (List.mem_cons_of_mem x hy)) hnext

theorem concludes_mapM {f : α → Except ε β}
    (h : ∀ x ∈ members, Concludes (fun _ => True) R (f x)) :
    Concludes (fun _ => True) R (members.mapM f) := by
  induction members with
  | nil => trivial
  | cons x members ih =>
      rw [List.mapM_cons]
      exact (h x List.mem_cons_self).bind fun _ _ =>
        (ih fun y hy => h y (List.mem_cons_of_mem x hy)).bind fun _ _ => trivial

end Concludes

/-- A loop that stops does so in one of its steps. -/
theorem exists_of_foldlM_eq_error {step : β → α → Except ε β} {P : β → Prop} {e : ε}
    (hkept : ∀ x ∈ members, ∀ acc next, P acc → step acc x = .ok next → P next) {init : β}
    (hinit : P init) (h : members.foldlM step init = .error e) :
    ∃ x ∈ members, ∃ acc, P acc ∧ step acc x = .error e := by
  have hsteps : ∀ x ∈ members, ∀ acc, P acc →
      Concludes P (fun e => ∃ x ∈ members, ∃ acc, P acc ∧ step acc x = .error e) (step acc x) := by
    intro x hx acc hacc
    cases hnext : step acc x with
    | ok next => exact hkept x hx acc next hacc hnext
    | error e => exact ⟨x, hx, acc, hacc, hnext⟩
  exact (concludes_foldlM hsteps hinit).of_eq_error h

theorem exists_mapM_eq_ok {f : α → Except ε β} (h : ∀ x ∈ members, ∃ y, f x = .ok y) :
    ∃ results, members.mapM f = .ok results :=
  concludes_iff_exists_eq_ok.mp
    (concludes_mapM fun x hx => concludes_iff_exists_eq_ok.mpr (h x hx))

theorem exists_allM_eq_ok {f : α → Except ε Bool} (h : ∀ x ∈ members, ∃ y, f x = .ok y) :
    ∃ result, members.allM f = .ok result := by
  induction members with
  | nil => exact ⟨true, rfl⟩
  | cons x members ih =>
      obtain ⟨y, hy⟩ := h x List.mem_cons_self
      obtain ⟨result, hresult⟩ := ih fun z hz => h z (List.mem_cons_of_mem x hz)
      rw [List.allM_cons, hy]
      cases y with
      | false => exact ⟨false, rfl⟩
      | true => exact ⟨result, hresult⟩

theorem allM_eq_true_iff {f : α → Except ε Bool} :
    members.allM f = .ok true ↔ ∀ x ∈ members, f x = .ok true := by
  induction members with
  | nil => exact iff_of_true rfl (by simp)
  | cons x members ih =>
      rw [List.forall_mem_cons, ← ih]
      cases hx : f x with
      | error e => simp [List.allM, hx, bind, Except.bind]
      | ok result => cases result <;> simp [List.allM, hx, bind, Except.bind, pure, Except.pure]

/-! ### Loops with the same steps -/

section Congruence

variable {m : Type → Type} [Monad m]

theorem mapM_eq_of_eq {f g : α → m β} (h : ∀ x ∈ members, f x = g x) :
    members.mapM f = members.mapM g := by
  have hloop : ∀ acc, List.mapM.loop f members acc = List.mapM.loop g members acc := by
    induction members with
    | nil => exact fun _ => rfl
    | cons x members ih =>
        intro acc
        have hrest := ih fun y hy => h y (List.mem_cons_of_mem x hy)
        simp only [List.mapM.loop, h x List.mem_cons_self, hrest]
  exact hloop []

theorem foldlM_eq_of_eq {f g : β → α → m β} (h : ∀ x ∈ members, ∀ acc, f acc x = g acc x)
    (init : β) : members.foldlM f init = members.foldlM g init := by
  induction members generalizing init with
  | nil => rfl
  | cons x members ih =>
      have hrest := ih fun y hy => h y (List.mem_cons_of_mem x hy)
      simp only [List.foldlM_cons, h x List.mem_cons_self, hrest]

theorem allM_eq_of_eq {f g : α → m Bool} (h : ∀ x ∈ members, f x = g x) :
    members.allM f = members.allM g := by
  induction members with
  | nil => rfl
  | cons x members ih =>
      have hrest := ih fun y hy => h y (List.mem_cons_of_mem x hy)
      simp only [List.allM, h x List.mem_cons_self, hrest]

end Congruence

/-- Two loops are the same if their steps are, from any state that keeps an invariant. -/
theorem foldlM_eq_of_invariant {f g : β → α → Except ε β} {P : β → Prop}
    (heq : ∀ x ∈ members, ∀ acc, P acc → f acc x = g acc x)
    (hkept : ∀ x ∈ members, ∀ acc next, P acc → g acc x = .ok next → P next) {init : β}
    (hinit : P init) : members.foldlM f init = members.foldlM g init := by
  induction members generalizing init with
  | nil => rfl
  | cons x members ih =>
      simp only [List.foldlM_cons, heq x List.mem_cons_self init hinit]
      cases hnext : g init x with
      | error e => rfl
      | ok next =>
          exact ih (fun y hy => heq y (List.mem_cons_of_mem x hy))
            (fun y hy => hkept y (List.mem_cons_of_mem x hy))
            (hkept x List.mem_cons_self init next hinit hnext)

/-- A map that commutes with the steps of a loop commutes with the loop. -/
theorem foldlM_map_of_commutes {step : β → α → Except ε β} (view : β → β)
    (h : ∀ x ∈ members, ∀ b, step (view b) x = (step b x).map view) (init : β) :
    members.foldlM step (view init) = (members.foldlM step init).map view := by
  induction members generalizing init with
  | nil => rfl
  | cons x members ih =>
      rw [List.foldlM_cons, List.foldlM_cons, h x List.mem_cons_self]
      cases step init x with
      | error e => rfl
      | ok b => exact ih (fun y hy => h y (List.mem_cons_of_mem x hy)) b

end VerilogExpr
