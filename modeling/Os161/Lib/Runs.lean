/-! # Runs of a partial step function -/
namespace Os161.Runs

variable {S A : Type} {step : S → A → Option S} {P G : S → Prop} {C : S → A → Prop}

/-- The state after a run. -/
def run (step : S → A → Option S) : S → List A → Option S
  | s, [] => some s
  | s, a :: as => (step s a).bind fun s' => run step s' as

theorem run_concat (s : S) (as : List A) (a : A) :
    run step s (as ++ [a]) = (run step s as).bind fun u => step u a := by
  induction as generalizing s with
  | nil => exact Option.bind_fun_some (step s a)
  | cons b as ih =>
    show ((step s b).bind fun u => run step u (as ++ [a])) = ((step s b).bind _).bind _
    rw [Option.bind_assoc]
    exact congrArg _ (funext ih)

theorem run_inv (hstep : ∀ s a s', G s → step s a = some s' → G s') {s s' : S} {as : List A}
    (hs : G s) (hrun : run step s as = some s') : G s' := by
  induction as generalizing s with
  | nil => exact Option.some.inj hrun ▸ hs
  | cons a as ih =>
    obtain ⟨u, hu, hrest⟩ := Option.bind_eq_some_iff.mp hrun
    exact ih (hstep s a u hs hu) hrest

/-- `P` holds in every state of the run, which ends at the first step that is not taken. -/
def Throughout (step : S → A → Option S) (P : S → Prop) : S → List A → Prop
  | s, [] => P s
  | s, a :: as => P s ∧ ∀ s', step s a = some s' → Throughout step P s' as

/-- `C` holds of every step that is taken. -/
def EachStep (step : S → A → Option S) (C : S → A → Prop) : S → List A → Prop
  | _, [] => True
  | s, a :: as => ∀ s', step s a = some s' → C s a ∧ EachStep step C s' as

theorem EachStep.and {D : S → A → Prop} {s : S} {as : List A} (hC : EachStep step C s as)
    (hD : EachStep step D s as) : EachStep step (fun s a => C s a ∧ D s a) s as := by
  induction as generalizing s with
  | nil => trivial
  | cons a as ih =>
    intro s' hs'
    obtain ⟨hC₁, hC⟩ := hC s' hs'
    obtain ⟨hD₁, hD⟩ := hD s' hs'
    exact ⟨⟨hC₁, hD₁⟩, ih hC hD⟩

theorem EachStep.at {s₀ s s' : S} {as bs : List A} {a : A} (h : EachStep step C s₀ (as ++ a :: bs))
    (hrun : run step s₀ as = some s) (hs : step s a = some s') : C s a := by
  induction as generalizing s₀ with
  | nil =>
    cases hrun
    exact (h s' hs).1
  | cons b as ih =>
    obtain ⟨u, hu, hrest⟩ := Option.bind_eq_some_iff.mp hrun
    exact ih (h u hu).2 hrest

instance decidableEachStep [∀ s a, Decidable (C s a)] :
    ∀ (s : S) (as : List A), Decidable (EachStep step C s as)
  | _, [] => isTrue trivial
  | s, a :: as =>
    match h : step s a with
    | none => isTrue fun _ hs' => nomatch h.symm.trans hs'
    | some u =>
      haveI := decidableEachStep u as
      decidable_of_iff (C s a ∧ EachStep step C u as)
        ⟨fun hu _ hs' => Option.some.inj (h.symm.trans hs') ▸ hu, fun hs => hs u h⟩

theorem Throughout.head {s : S} {as : List A} (h : Throughout step P s as) : P s := by
  cases as with
  | nil => exact h
  | cons a as => exact h.1

theorem Throughout.last {s s' : S} {as : List A} (h : Throughout step P s as)
    (hrun : run step s as = some s') : P s' := by
  induction as generalizing s with
  | nil => exact Option.some.inj hrun ▸ h
  | cons a as ih =>
    obtain ⟨u, hu, hrest⟩ := Option.bind_eq_some_iff.mp hrun
    exact ih (h.2 u hu) hrest

/-- If `C` says which steps keep `P`, then it says which runs do. -/
theorem throughout_iff (hgood : ∀ s a s', G s → step s a = some s' → G s')
    (hstep : ∀ s a s', G s → P s → step s a = some s' → (P s' ↔ C s a)) {s : S} (hs : G s)
    (hP : P s) (as : List A) : Throughout step P s as ↔ EachStep step C s as := by
  induction as generalizing s with
  | nil => exact iff_of_true hP trivial
  | cons a as ih =>
    constructor
    · intro hx s' hs'
      obtain ⟨-, h⟩ := hx
      have hrest := h s' hs'
      have hP' := hrest.head
      exact ⟨(hstep s a s' hs hP hs').mp hP', (ih (hgood s a s' hs hs') hP').mp hrest⟩
    · intro h
      refine ⟨hP, fun s' hs' => ?_⟩
      obtain ⟨hC, hrest⟩ := h s' hs'
      exact (ih (hgood s a s' hs hs') ((hstep s a s' hs hP hs').mpr hC)).mpr hrest

/-- An invariant that implies `P`, and that the steps with `C` keep. -/
theorem throughout_of_eachStep (hP : ∀ s, G s → P s)
    (hstep : ∀ s a s', G s → C s a → step s a = some s' → G s') {s : S} (hs : G s)
    {as : List A} (h : EachStep step C s as) : Throughout step P s as := by
  induction as generalizing s with
  | nil => exact hP s hs
  | cons a as ih =>
    refine ⟨hP s hs, fun s' hs' => ?_⟩
    obtain ⟨hC, hrest⟩ := h s' hs'
    exact ih (hstep s a s' hs hC hs') hrest

theorem throughout_of_inv (hP : ∀ s, G s → P s)
    (hstep : ∀ s a s', G s → step s a = some s' → G s') {s : S} (hs : G s) (as : List A) :
    Throughout step P s as := by
  induction as generalizing s with
  | nil => exact hP s hs
  | cons a as ih => exact ⟨hP s hs, fun s' hs' => ih (hstep s a s' hs hs')⟩

/-- Some run of allowed steps gets to `Q`. -/
def Leads (step : S → A → Option S) (allowed : A → Prop) (Q : S → Prop) (s : S) : Prop :=
  ∃ as s', (∀ a ∈ as, allowed a) ∧ run step s as = some s' ∧ Q s'

section Leads

variable {Q : S → Prop} {allowed : A → Prop} {s u : S} {a : A}

theorem Leads.here (hQ : Q s) : Leads step allowed Q s :=
  ⟨[], s, fun _ ha => absurd ha List.not_mem_nil, rfl, hQ⟩

theorem Leads.cons (ha : allowed a) (hu : step s a = some u) (h : Leads step allowed Q u) :
    Leads step allowed Q s := by
  obtain ⟨as, s', has, hrun, hQ⟩ := h
  refine ⟨a :: as, s', List.forall_mem_cons.mpr ⟨ha, has⟩, ?_, hQ⟩
  exact Option.bind_eq_some_iff.mpr ⟨u, hu, hrun⟩

theorem Leads.trans (h : Leads step allowed P s) (hP : ∀ u, P u → Leads step allowed Q u) :
    Leads step allowed Q s := by
  obtain ⟨as, u, has, hrun, hu⟩ := h
  induction as generalizing s with
  | nil =>
    cases hrun
    exact hP _ hu
  | cons a as ih =>
    obtain ⟨v, hv, hrest⟩ := Option.bind_eq_some_iff.mp hrun
    obtain ⟨ha, has⟩ := List.forall_mem_cons.mp has
    exact .cons ha hv (ih has hrest)

/-- While `Q` does not hold some allowed step brings a measure down. -/
theorem leads_of_measure (m : S → Nat)
    (hstep : ∀ s, G s → ¬ Q s → ∃ a s', allowed a ∧ step s a = some s' ∧ G s' ∧ m s' < m s)
    (hs : G s) : Leads step allowed (fun s => G s ∧ Q s) s := by
  induction hn : m s using Nat.strongRecOn generalizing s with
  | ind n ih =>
    by_cases hQ : Q s
    · exact .here ⟨hs, hQ⟩
    · obtain ⟨a, u, ha, hu, hG, hlt⟩ := hstep s hs hQ
      exact .cons ha hu (ih (m u) (hn ▸ hlt) hG rfl)

end Leads

end Os161.Runs
