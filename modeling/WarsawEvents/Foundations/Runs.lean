import Mathlib.Data.List.Induction

/-! # Runs of a labelled step relation, with the labels seen so far

A step relation here is a `Step : List ε → σ → ε → σ → Prop`: from the labels of the past and the
state, one label leads to a next state. Keeping the past in the relation lets a condition on a step
speak about what happened before, without a ghost field in the state.

* `Run Step past s es t`: after the labels `past`, the state `s` is taken to `t` by the labels `es`.
* `Run.invariant` is the induction every safety property uses.
* `guarded G step` restricts a partial step function to the steps whose condition `G` holds, and
  `anyStep` holds of all of them; `replay` computes such a run from its inputs.
-/

namespace Runs
set_option autoImplicit false

variable {σ ε ι ω : Type*}

/-- `Run Step past s es t`: the labels `es`, in order, take `s` to `t` when `past` came before. -/
inductive Run (Step : List ε → σ → ε → σ → Prop) (past : List ε) (s : σ) : List ε → σ → Prop
  | refl : Run Step past s [] s
  | snoc {es : List ε} {t u : σ} {e : ε} :
      Run Step past s es t → Step (past ++ es) t e u → Run Step past s (es ++ [e]) u

variable {Step : List ε → σ → ε → σ → Prop} {past es es' : List ε} {s t u : σ}

theorem Run.single {e : ε} (h : Step past s e t) : Run Step past s [e] t := by
  have hs : Step (past ++ []) s e t := by simpa using h
  exact Run.snoc Run.refl hs

theorem Run.trans (h1 : Run Step past s es t) (h2 : Run Step (past ++ es) t es' u) :
    Run Step past s (es ++ es') u := by
  induction h2 with
  | refl => simpa using h1
  | snoc _ hs ih =>
    rw [← List.append_assoc]
    exact Run.snoc ih (by simpa using hs)

theorem Run.mono {Step' : List ε → σ → ε → σ → Prop}
    (hsub : ∀ past s e t, Step past s e t → Step' past s e t) (h : Run Step past s es t) :
    Run Step' past s es t := by
  induction h with
  | refl => exact Run.refl
  | snoc _ hst ih => exact Run.snoc ih (hsub _ _ _ _ hst)

/-- An invariant of the past and the state that every step keeps holds at the end of a run. -/
theorem Run.invariant (I : List ε → σ → Prop)
    (hstep : ∀ past s e t, I past s → Step past s e t → I (past ++ [e]) t)
    (h : Run Step past s es t) (hs : I past s) : I (past ++ es) t := by
  induction h with
  | refl => simpa using hs
  | snoc _ hst ih =>
    rw [← List.append_assoc]
    exact hstep _ _ _ _ ih hst

/-- The same for a whole run, from the empty past. -/
theorem Run.invariant_of_init (I : List ε → σ → Prop)
    (hstep : ∀ past s e t, I past s → Step past s e t → I (past ++ [e]) t)
    (h : Run Step [] s es t) (hs : I [] s) : I es t := by
  simpa using h.invariant I hstep hs

/-- A view of the state that every step changes as its label says is changed by a run as its labels
say. -/
theorem Run.foldl_view {α : Type*} (I : List ε → σ → Prop) (view : σ → α) (next : α → ε → α)
    (hinv : ∀ past s e t, I past s → Step past s e t → I (past ++ [e]) t)
    (hview : ∀ past s e t, I past s → Step past s e t → view t = next (view s) e)
    (h : Run Step past s es t) (hs : I past s) : view t = es.foldl next (view s) := by
  induction h with
  | refl => rfl
  | snoc hrun hst ih =>
    rw [List.foldl_append, List.foldl_cons, List.foldl_nil, ← ih]
    exact hview _ _ _ _ (hrun.invariant I hinv hs) hst

theorem Run.snoc_inv {e : ε} (h : Run Step past s (es ++ [e]) u) :
    ∃ t, Run Step past s es t ∧ Step (past ++ es) t e u := by
  generalize hall : es ++ [e] = all at h
  cases h with
  | refl => exact absurd hall (by simp)
  | snoc hrun hst =>
    obtain ⟨rfl, hlast⟩ := List.append_inj' hall rfl
    obtain rfl := List.singleton_inj.mp hlast
    exact ⟨_, hrun, hst⟩

/-- A run, taken apart at one of its labels. -/
theorem Run.split {e : ε} (h : Run Step past s (es ++ e :: es') u) :
    ∃ t t', Run Step past s es t ∧ Step (past ++ es) t e t' ∧ Run Step (past ++ (es ++ [e])) t' es' u := by
  induction es' using List.reverseRecOn generalizing u with
  | nil =>
    obtain ⟨t, hrun, hst⟩ := h.snoc_inv
    exact ⟨t, u, hrun, hst, Run.refl⟩
  | append_singleton es' e' ih =>
    have hassoc : es ++ e :: (es' ++ [e']) = (es ++ e :: es') ++ [e'] := by simp
    rw [hassoc] at h
    obtain ⟨v, hrun, hlast⟩ := h.snoc_inv
    obtain ⟨t, t', hbefore, hst, hafter⟩ := ih hrun
    refine ⟨t, t', hbefore, hst, Run.snoc hafter ?_⟩
    have hpast : past ++ (es ++ [e]) ++ es' = past ++ (es ++ e :: es') := by simp
    rw [hpast]
    exact hlast

/-- What holds stays, as long as no step ends it. -/
theorem Run.persists (I : List ε → σ → Prop) (P : σ → Prop) (ends : ε → Prop)
    (hinv : ∀ past s e t, I past s → Step past s e t → I (past ++ [e]) t)
    (hstep : ∀ past s e t, I past s → Step past s e t → ¬ ends e → P s → P t)
    (h : Run Step past s es t) (hI : I past s) (hes : ∀ e ∈ es, ¬ ends e) (hs : P s) : P t := by
  induction h with
  | refl => exact hs
  | snoc hrun hst ih =>
    refine hstep _ _ _ _ (hrun.invariant I hinv hI) hst (hes _ (by simp)) (ih fun e he => ?_)
    exact hes e (List.mem_append_left _ he)

/-! ## Partial step functions -/

/-- The steps of a partial function whose condition `G` holds of the past, the state and the
input. A label is the input with the output it drew. -/
def guarded (G : List (ι × ω) → σ → ι → Prop) (step : σ → ι → Option (σ × ω)) :
    List (ι × ω) → σ → ι × ω → σ → Prop :=
  fun past s e t => G past s e.1 ∧ step s e.1 = some (t, e.2)

/-- No condition on the steps. -/
def anyStep : List (ι × ω) → σ → ι → Prop := fun _ _ _ => True

instance (past : List (ι × ω)) (s : σ) (i : ι) : Decidable (anyStep past s i) := instDecidableTrue

/-- Feeds a list of inputs to a partial step function, checking the condition at every step: the
labels drawn and the last state. -/
def replay (G : List (ι × ω) → σ → ι → Prop) [∀ past s i, Decidable (G past s i)]
    (step : σ → ι → Option (σ × ω)) :
    List (ι × ω) → σ → List ι → Option (List (ι × ω) × σ)
  | _, s, [] => some ([], s)
  | past, s, i :: is =>
    if G past s i then
      match step s i with
      | none => none
      | some (t, o) => (replay G step (past ++ [(i, o)]) t is).map fun r => ((i, o) :: r.1, r.2)
    else none

theorem replay_run {G : List (ι × ω) → σ → ι → Prop} [∀ past s i, Decidable (G past s i)]
    {step : σ → ι → Option (σ × ω)} :
    ∀ {is : List ι} {s : σ} {past : List (ι × ω)} {r : List (ι × ω) × σ},
      replay G step past s is = some r → Run (guarded G step) past s r.1 r.2
  | [], s, past, r, h => by
      simp only [replay, Option.some.injEq] at h
      subst h
      exact Run.refl
  | i :: is, s, past, r, h => by
      simp only [replay] at h
      split at h
      · rename_i hg
        split at h
        · cases h
        · rename_i t o hst
          obtain ⟨r', hr', rfl⟩ := Option.map_eq_some_iff.mp h
          have h1 : Run (guarded G step) past s [(i, o)] t := Run.single ⟨hg, hst⟩
          exact h1.trans (replay_run hr')
      · cases h

theorem replay_getD_run (G : List (ι × ω) → σ → ι → Prop) [∀ past s i, Decidable (G past s i)]
    (step : σ → ι → Option (σ × ω)) (past : List (ι × ω)) (s : σ) (is : List ι)
    (r : List (ι × ω) × σ) (h : (replay G step past s is).isSome = true) :
    Run (guarded G step) past s ((replay G step past s is).getD r).1
      ((replay G step past s is).getD r).2 := by
  obtain ⟨r', hr'⟩ := Option.isSome_iff_exists.mp h
  rw [hr', Option.getD_some]
  exact replay_run hr'

end Runs
