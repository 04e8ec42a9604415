import Mathlib.Logic.Relation
import Mathlib.Tactic.Common

/-!
# Runs of a partial step function

A system is a step function `step : σ → ε → Option σ`: the event names who moves
and what the environment chose, and `none` means that this event cannot happen
now. `run` executes a list of events. An interleaving of several parties is a list
of events, so a theorem about every list is a theorem about every interleaving.

`Along step G s es` says that every event of the run is taken in a state in which
the guard `G` allows it; results about runs that respect a condition take it as a
hypothesis.

## Main definitions

* `run step s es`: the state after the events `es`, if all of them can happen.
* `Along step G s es`: each step of the run meets `G`.
* `Throughout step P s es`: every state the run comes through satisfies `P`.
* `run_induction`: an invariant of the guarded steps holds after the run.
* `along_iff_throughout`: a guard that is exactly what keeps a property.
* `run_simulates`: a run is followed by an abstract relation.
* `CanReach`, `canReach_of_decreasing`: a goal that some steps come nearer to.
* `outputs step out s es`: what the steps of the run let out, in order.
* `run_outputs`: an invariant of the state and of what was let out before.
* `run_abstracts`: a run is a run of the system that the outputs are the events of.
-/

namespace Lib

variable {σ τ ε : Type*} (step : σ → ε → Option σ)

/-- The state after the events, or `none` when one of them could not happen. -/
def run : σ → List ε → Option σ
  | s, [] => some s
  | s, e :: es => (step s e).bind fun s' => run s' es

/-- Each event of the run is taken where the guard allows it. -/
def Along (G : σ → ε → Prop) : σ → List ε → Prop
  | _, [] => True
  | s, e :: es => G s e ∧ ∀ s', step s e = some s' → Along G s' es

/-- Every state of the run satisfies `P`. -/
def Throughout (P : σ → Prop) (s : σ) (es : List ε) : Prop :=
  ∀ before after t, es = before ++ after → run step s before = some t → P t

variable {step}

/-- Whether a run respects a guard can be computed. -/
instance decidableAlong (G : σ → ε → Prop) [∀ s e, Decidable (G s e)] :
    ∀ (s : σ) (es : List ε), Decidable (Along step G s es)
  | _, [] => isTrue trivial
  | s, e :: es =>
    match h : step s e with
    | none => decidable_of_iff (G s e) ⟨fun hG => ⟨hG, by simp [h]⟩, fun hA => hA.1⟩
    | some s' =>
      have := decidableAlong G s' es
      decidable_of_iff (G s e ∧ Along step G s' es)
        ⟨fun hG => ⟨hG.1, by simpa [h] using hG.2⟩, fun hA => ⟨hA.1, hA.2 s' h⟩⟩

@[simp] theorem run_nil (s : σ) : run step s [] = some s := rfl

theorem run_cons (s : σ) (e : ε) (es : List ε) :
    run step s (e :: es) = (step s e).bind fun s' => run step s' es := rfl

theorem run_cons_eq_some {s t : σ} {e : ε} {es : List ε} :
    run step s (e :: es) = some t ↔ ∃ s', step s e = some s' ∧ run step s' es = some t := by
  rw [run_cons, Option.bind_eq_some_iff]

/-- A run that is computed to the end gives the state with what was computed of it. -/
theorem exists_of_run {P : σ → Prop} [DecidablePred P] {s : σ} {es : List ε}
    (h : (run step s es).any (fun t => decide (P t)) = true) :
    ∃ t, run step s es = some t ∧ P t := by
  obtain ⟨t, ht, hP⟩ := (Option.any_eq_true _ _).mp h
  exact ⟨t, ht, of_decide_eq_true hP⟩

/-- A guard that always holds restricts nothing. -/
theorem along_of_forall {G : σ → ε → Prop} (h : ∀ s e, G s e) (s : σ) (es : List ε) :
    Along step G s es := by
  induction es generalizing s with
  | nil => trivial
  | cons e es ih => exact ⟨h s e, fun s' _ => ih s'⟩

/-- A guard on the events alone. -/
theorem along_of_forall_mem {G : ε → Prop} {s : σ} {es : List ε} (h : ∀ e ∈ es, G e) :
    Along step (fun _ e => G e) s es := by
  induction es generalizing s with
  | nil => trivial
  | cons e es ih =>
      exact ⟨h e List.mem_cons_self, fun s' _ => ih fun e' he' => h e' (List.mem_cons_of_mem e he')⟩

/-- In a run to its end the guard has been asked of every event. -/
theorem Along.forall_mem {G : ε → Prop} {s t : σ} {es : List ε}
    (h : Along step (fun _ e => G e) s es) (hrun : run step s es = some t) : ∀ e ∈ es, G e := by
  induction es generalizing s with
  | nil => simp
  | cons e es ih =>
      obtain ⟨s', hs', hrun'⟩ := run_cons_eq_some.mp hrun
      exact List.forall_mem_cons.mpr ⟨h.1, ih (h.2 s' hs') hrun'⟩

theorem Along.mono {G G' : σ → ε → Prop} (h : ∀ s e, G s e → G' s e) {s : σ} {es : List ε}
    (hG : Along step G s es) : Along step G' s es := by
  induction es generalizing s with
  | nil => trivial
  | cons e es ih => exact ⟨h s e hG.1, fun s' hs => ih (hG.2 s' hs)⟩

/-- The first part of a run that respects a guard respects it too. -/
theorem Along.of_append {G : σ → ε → Prop} {s : σ} {es fs : List ε}
    (h : Along step G s (es ++ fs)) : Along step G s es := by
  induction es generalizing s with
  | nil => trivial
  | cons e es ih => exact ⟨h.1, fun s' hs => ih (h.2 s' hs)⟩

/-- **Invariants.** What every allowed step preserves holds after every run whose
steps are all allowed. -/
theorem run_induction {G : σ → ε → Prop} {I : σ → Prop}
    (hstep : ∀ s e s', I s → G s e → step s e = some s' → I s') {s t : σ} {es : List ε}
    (hs : I s) (hG : Along step G s es) (hrun : run step s es = some t) : I t := by
  induction es generalizing s with
  | nil =>
      rw [run_nil, Option.some.injEq] at hrun
      rwa [← hrun]
  | cons e es ih =>
      obtain ⟨s', hs', hrun'⟩ := run_cons_eq_some.mp hrun
      exact ih (hstep s e s' hs hG.1 hs') (hG.2 s' hs') hrun'

/-- What every allowed step preserves may be used wherever a step is taken. -/
theorem Along.with_invariant {G : σ → ε → Prop} {I : σ → Prop}
    (hstep : ∀ s e s', I s → G s e → step s e = some s' → I s') {s : σ} {es : List ε}
    (hs : I s) (hG : Along step G s es) : Along step (fun s e => I s ∧ G s e) s es := by
  induction es generalizing s with
  | nil => trivial
  | cons e es ih =>
      exact ⟨⟨hs, hG.1⟩, fun s' hs' => ih (hstep s e s' hs hG.1 hs') (hG.2 s' hs')⟩

/-- Invariants of every step, allowed or not. -/
theorem run_induction_all {I : σ → Prop} (hstep : ∀ s e s', I s → step s e = some s' → I s')
    {s t : σ} {es : List ε} (hs : I s) (hrun : run step s es = some t) : I t :=
  run_induction (G := fun _ _ => True) (fun s e s' h _ => hstep s e s' h) hs
    (along_of_forall (fun _ _ => trivial) s es) hrun

/-- **Exact guards.** If allowed steps preserve an invariant that implies `P`, and every
step that is not allowed leads out of `P`, then a run stays in `P` throughout if and only if
all its steps are allowed. -/
theorem along_iff_throughout {G : σ → ε → Prop} {I P : σ → Prop}
    (hstep : ∀ s e s', I s → G s e → step s e = some s' → I s') (hP : ∀ s, I s → P s)
    (hbad : ∀ s e s', I s → ¬ G s e → step s e = some s' → ¬ P s') {s t : σ} {es : List ε}
    (hs : I s) (hrun : run step s es = some t) :
    Along step G s es ↔ Throughout step P s es := by
  constructor
  · rintro hG before after u rfl hu
    exact hP u (run_induction hstep hs hG.of_append hu)
  · intro hsafe
    induction es generalizing s with
    | nil => trivial
    | cons e es ih =>
        obtain ⟨s', hs', hrun'⟩ := run_cons_eq_some.mp hrun
        have hG : G s e := by
          by_contra hG
          exact hbad s e s' hs hG hs' (hsafe [e] es s' rfl (by simp [run_cons, hs']))
        refine ⟨hG, fun s'' hs'' => ?_⟩
        obtain rfl : s' = s'' := Option.some_inj.mp (hs'.symm.trans hs'')
        refine ih (hstep s e s' hs hG hs') hrun' ?_
        intro before after u heq hu
        exact hsafe (e :: before) after u (by rw [heq]; rfl) (by rw [run_cons, hs']; exact hu)

/-- **Refinement.** When every allowed step is matched by steps of an abstract
relation, the abstract system can follow the whole run. -/
theorem run_simulates {G : σ → ε → Prop} {A : τ → τ → Prop} {R : σ → τ → Prop}
    (hstep : ∀ s e s' a, R s a → G s e → step s e = some s' →
      ∃ a', Relation.ReflTransGen A a a' ∧ R s' a')
    {s t : σ} {a : τ} {es : List ε} (hR : R s a) (hG : Along step G s es)
    (hrun : run step s es = some t) : ∃ a', Relation.ReflTransGen A a a' ∧ R t a' := by
  refine run_induction (I := fun u => ∃ a', Relation.ReflTransGen A a a' ∧ R u a') ?_
    ⟨a, .refl, hR⟩ hG hrun
  rintro u e u' ⟨b, hab, hRb⟩ hGe hu
  obtain ⟨b', hbb', hRb'⟩ := hstep u e u' b hRb hGe hu
  exact ⟨b', hab.trans hbb', hRb'⟩

/-! ## Where a run can go -/

theorem run_append {s s' : σ} {es : List ε} (hs : run step s es = some s') (fs : List ε) :
    run step s (es ++ fs) = run step s' fs := by
  induction es generalizing s with
  | nil =>
      rw [run_nil, Option.some.injEq] at hs
      rw [List.nil_append, hs]
  | cons e es ih =>
      obtain ⟨s₁, hs₁, hrest⟩ := run_cons_eq_some.mp hs
      rw [List.cons_append, run_cons, hs₁, Option.bind_some, ih hrest]

/-- A guard along two runs, one after the other. -/
theorem Along.append {G : σ → ε → Prop} {s s' : σ} {es fs : List ε} (hes : Along step G s es)
    (hs : run step s es = some s') (hfs : Along step G s' fs) : Along step G s (es ++ fs) := by
  induction es generalizing s with
  | nil =>
      rw [run_nil, Option.some.injEq] at hs
      rwa [List.nil_append, hs]
  | cons e es ih =>
      obtain ⟨s₁, hs₁, hrest⟩ := run_cons_eq_some.mp hs
      refine ⟨hes.1, fun s₂ hs₂ => ?_⟩
      obtain rfl : s₁ = s₂ := Option.some_inj.mp (hs₁.symm.trans hs₂)
      exact ih (hes.2 s₁ hs₁) hrest

variable (step) in
/-- Events that the guard allows can lead from `s` to a state with `Q`. What of an event is not
for the one who goes on to choose, the guard takes from the state. -/
def CanReach (G : σ → ε → Prop) (Q : σ → Prop) (s : σ) : Prop :=
  ∃ es t, Along step G s es ∧ run step s es = some t ∧ Q t

section CanReach
variable {G : σ → ε → Prop} {Q R : σ → Prop} {s s' : σ}

theorem CanReach.here (hQ : Q s) : CanReach step G Q s := ⟨[], s, trivial, rfl, hQ⟩

theorem CanReach.cons {e : ε} (he : G s e) (hs : step s e = some s') (h : CanReach step G Q s') :
    CanReach step G Q s := by
  obtain ⟨es, t, hes, ht, hQ⟩ := h
  refine ⟨e :: es, t, ⟨he, ?_⟩, run_cons_eq_some.mpr ⟨s', hs, ht⟩, hQ⟩
  intro s'' hs''
  obtain rfl : s' = s'' := Option.some_inj.mp (hs.symm.trans hs'')
  exact hes

theorem CanReach.trans (h : CanReach step G Q s) (hR : ∀ t, Q t → CanReach step G R t) :
    CanReach step G R s := by
  obtain ⟨es, t, hes, ht, hQ⟩ := h
  obtain ⟨fs, u, hfs, hu, hRu⟩ := hR t hQ
  exact ⟨es ++ fs, u, hes.append ht hfs, by rw [run_append ht, hu], hRu⟩

/-- **Progress.** Where allowed events can lower a measure until the goal is met, they can lead to
the goal. -/
theorem canReach_of_decreasing {I : σ → Prop} (μ : σ → ℕ)
    (hstep : ∀ s, I s → ¬ Q s → CanReach step G (fun t => I t ∧ μ t < μ s) s) (hs : I s) :
    CanReach step G (fun t => I t ∧ Q t) s := by
  induction hn : μ s using Nat.strongRecOn generalizing s with
  | ind n ih =>
      by_cases hQ : Q s
      · exact .here ⟨hs, hQ⟩
      · apply (hstep s hs hQ).trans
        intro t ⟨ht, hlt⟩
        exact ih (μ t) (hn ▸ hlt) ht rfl

end CanReach

/-! ## What a run lets out -/

variable {α : Type*}

variable (step) in
/-- What the steps of a run let out: nothing from the first event on that cannot happen. -/
def outputs (out : σ → ε → List α) : σ → List ε → List α
  | _, [] => []
  | s, e :: es =>
    match step s e with
    | none => []
    | some s' => out s e ++ outputs out s' es

@[simp] theorem outputs_nil (out : σ → ε → List α) (s : σ) : outputs step out s [] = [] := rfl

theorem outputs_cons {out : σ → ε → List α} {s s' : σ} {e : ε} (hs : step s e = some s')
    (es : List ε) : outputs step out s (e :: es) = out s e ++ outputs step out s' es := by
  rw [outputs, hs]

/-- **Invariants with a history.** What every allowed step preserves, with its output behind
the history, holds of the end of the run and of all that the run has let out. -/
theorem run_outputs {G : σ → ε → Prop} {out : σ → ε → List α} {I : σ → List α → Prop}
    (hstep : ∀ s h e s', I s h → G s e → step s e = some s' → I s' (h ++ out s e))
    {s t : σ} {h : List α} {es : List ε} (hs : I s h) (hG : Along step G s es)
    (hrun : run step s es = some t) : I t (h ++ outputs step out s es) := by
  induction es generalizing s h with
  | nil =>
      rw [run_nil, Option.some.injEq] at hrun
      rwa [← hrun, outputs_nil, List.append_nil]
  | cons e es ih =>
      obtain ⟨s', hs', hrun'⟩ := run_cons_eq_some.mp hrun
      rw [outputs_cons hs', ← List.append_assoc]
      exact ih (hstep s h e s' hs hG.1 hs') (hG.2 s' hs') hrun'

variable {ε' : Type*} {step' : τ → ε' → Option τ}

/-- **Abstraction.** Where each step is a run of another system over what it lets out, so is
each run; and what guards the steps guards that run. -/
theorem run_abstracts {G : σ → ε → Prop} {G' : τ → ε' → Prop} {out : σ → ε → List ε'} {abs : σ → τ}
    (hstep : ∀ s e s', step s e = some s' → run step' (abs s) (out s e) = some (abs s'))
    (hguard : ∀ s e, G s e → Along step' G' (abs s) (out s e))
    {s t : σ} {es : List ε} (hG : Along step G s es) (hrun : run step s es = some t) :
    run step' (abs s) (outputs step out s es) = some (abs t) ∧
      Along step' G' (abs s) (outputs step out s es) := by
  induction es generalizing s with
  | nil =>
      rw [run_nil, Option.some.injEq] at hrun
      rw [hrun]
      exact ⟨rfl, trivial⟩
  | cons e es ih =>
      obtain ⟨s', hs', hrun'⟩ := run_cons_eq_some.mp hrun
      obtain ⟨habs, hrest⟩ := ih (hG.2 s' hs') hrun'
      rw [outputs_cons hs', run_append (hstep s e s' hs')]
      exact ⟨habs, (hguard s e hG.1).append (hstep s e s' hs') hrest⟩

end Lib
