import Mathlib.Data.Option.Basic

/-! # Relating two runs of programs with state and exceptions

`Couples pre m n post fail`: started in states that `pre` relates, `m` and `n` both return the same
value in states that `post` relates, or both raise the same exception in states that `fail` relates.
The rules follow the program: `pure`, `throw`, `bind`, branches, and a primitive by its own lemma. -/

namespace Coupling
set_option autoImplicit false

/-- A program over a state `σ` that may raise an `ε`; an exception keeps the state it left. -/
abbrev Prog (σ ε α : Type) := ExceptT ε (StateM σ) α

variable {σ τ ε α β : Type}

def exec (m : Prog σ ε α) (s : σ) : Except ε α × σ := StateT.run (ExceptT.run m) s

@[simp] theorem exec_pure (a : α) (s : σ) : exec (pure a : Prog σ ε α) s = (.ok a, s) := rfl

@[simp] theorem exec_throw (e : ε) (s : σ) : exec (throw e : Prog σ ε α) s = (.error e, s) := rfl

theorem exec_bind_ok {m : Prog σ ε α} {f : α → Prog σ ε β} {s s' : σ} {a : α}
    (h : exec m s = (.ok a, s')) : exec (m >>= f) s = exec (f a) s' := by
  unfold exec at h ⊢
  rw [ExceptT.run_bind, StateT.run_bind, h]
  rfl

theorem exec_bind_error {m : Prog σ ε α} {f : α → Prog σ ε β} {s s' : σ} {e : ε}
    (h : exec m s = (.error e, s')) : exec (m >>= f) s = (.error e, s') := by
  unfold exec at h ⊢
  rw [ExceptT.run_bind, StateT.run_bind, h]
  rfl

/-- A run that returns has gone through both parts. -/
theorem exec_bind_inv {m : Prog σ ε α} {f : α → Prog σ ε β} {s s' : σ} {b : β}
    (h : exec (m >>= f) s = (.ok b, s')) :
    ∃ a t, exec m s = (.ok a, t) ∧ exec (f a) t = (.ok b, s') := by
  cases hrun : exec m s with
  | mk result t =>
    cases result with
    | error e =>
      rw [exec_bind_error hrun] at h
      cases h
    | ok a => exact ⟨a, t, rfl, (exec_bind_ok hrun).symm.trans h⟩

/-- Two runs end alike. -/
inductive Alike (post : α → σ → τ → Prop) (fail : σ → τ → Prop) :
    Except ε α × σ → Except ε α × τ → Prop
  | ok {a : α} {s : σ} {t : τ} : post a s t → Alike post fail (.ok a, s) (.ok a, t)
  | error {e : ε} {s : σ} {t : τ} : fail s t → Alike post fail (.error e, s) (.error e, t)

def Couples (pre : σ → τ → Prop) (m : Prog σ ε α) (n : Prog τ ε α) (post : α → σ → τ → Prop)
    (fail : σ → τ → Prop) : Prop :=
  ∀ s t, pre s t → Alike post fail (exec m s) (exec n t)

variable {pre : σ → τ → Prop} {m : Prog σ ε α} {n : Prog τ ε α} {post mid : α → σ → τ → Prop}
  {fail : σ → τ → Prop}

theorem Couples.pure {a : α} (h : ∀ s t, pre s t → post a s t) :
    Couples pre (Pure.pure a : Prog σ ε α) (Pure.pure a : Prog τ ε α) post fail :=
  fun s t hpre => Alike.ok (h s t hpre)

theorem Couples.throw {e : ε} (h : ∀ s t, pre s t → fail s t) :
    Couples pre (MonadExcept.throw e : Prog σ ε α) (MonadExcept.throw e : Prog τ ε α) post fail :=
  fun s t hpre => Alike.error (h s t hpre)

theorem Couples.bind {f : α → Prog σ ε β} {g : α → Prog τ ε β} {post : β → σ → τ → Prop}
    (h : Couples pre m n mid fail) (hk : ∀ a, Couples (mid a) (f a) (g a) post fail) :
    Couples pre (m >>= f) (n >>= g) post fail := by
  intro s t hpre
  have h1 := h s t hpre
  generalize hm : exec m s = r1 at h1
  generalize hn : exec n t = r2 at h1
  cases h1 with
  | ok hmid =>
    rw [exec_bind_ok hm, exec_bind_ok hn]
    exact hk _ _ _ hmid
  | error hfail =>
    rw [exec_bind_error hm, exec_bind_error hn]
    exact Alike.error hfail

theorem Couples.conseq {pre' : σ → τ → Prop} {post' : α → σ → τ → Prop}
    (h : Couples pre m n post fail) (hpre : ∀ s t, pre' s t → pre s t)
    (hpost : ∀ a s t, post a s t → post' a s t) : Couples pre' m n post' fail := by
  intro s t hst
  have h1 := h s t (hpre s t hst)
  generalize exec m s = r1 at h1 ⊢
  generalize exec n t = r2 at h1 ⊢
  cases h1 with
  | ok hp => exact Alike.ok (hpost _ _ _ hp)
  | error hf => exact Alike.error hf

/-- A condition on the related states may be used as a fact. -/
theorem Couples.assume {p : Prop} (hp : ∀ s t, pre s t → p) (h : p → Couples pre m n post fail) :
    Couples pre m n post fail :=
  fun s t hpre => h (hp s t hpre) s t hpre

theorem Couples.ite {c : Prop} [Decidable c] {m' : Prog σ ε α} {n' : Prog τ ε α}
    (h1 : c → Couples pre m n post fail) (h2 : ¬ c → Couples pre m' n' post fail) :
    Couples pre (if c then m else m') (if c then n else n') post fail := by
  by_cases hc : c
  · rw [if_pos hc, if_pos hc]
    exact h1 hc
  · rw [if_neg hc, if_neg hc]
    exact h2 hc

end Coupling
