import Mathlib.Logic.Basic

/- Labelled transition systems given by a step function, and the states they
   reach when every step meets a side condition. `Reach step ok init s`: from a
   state in `init`, `s` is reached by steps each of which meets `ok` in the state
   it starts from. An invariant is proved once per step and holds of every
   reachable state; a proved invariant may be used in proving the next one; and a
   run under a stronger condition is a run under a weaker one. -/
namespace Transition

variable {σ α : Type*}

/-- Reachable by steps that each meet `ok`. -/
inductive Reach (step : σ → α → Option σ) (ok : σ → α → Prop) (init : σ → Prop) : σ → Prop where
  | start {s : σ} (h : init s) : Reach step ok init s
  | next {s s' : σ} {a : α} (h : Reach step ok init s) (hok : ok s a)
      (hs : step s a = some s') : Reach step ok init s'

/-- The state after a list of actions, if each is enabled in turn. -/
def runActions (step : σ → α → Option σ) : σ → List α → Option σ
  | s, [] => some s
  | s, a :: rest => (step s a).bind fun s' => runActions step s' rest

/-- The state a list of actions ends in, where each is enabled in turn. -/
def final (step : σ → α → Option σ) (s : σ) (as : List α) : σ := (runActions step s as).getD s

/-- The step function with a check on the actions it takes. -/
def checked (check : σ → α → Bool) (step : σ → α → Option σ) (s : σ) (a : α) : Option σ :=
  if check s a = true then step s a else none

/-- How many actions of a run meet `p` in the state they are taken in. -/
def counted (step : σ → α → Option σ) (p : σ → α → Bool) : σ → List α → Nat
  | _, [] => 0
  | s, a :: rest => (if p s a then 1 else 0) + (step s a).elim 0 fun s' => counted step p s' rest

variable {step : σ → α → Option σ} {ok ok' : σ → α → Prop} {init : σ → Prop}

theorem Reach.invariant {I : σ → Prop} (h0 : ∀ s, init s → I s)
    (hstep : ∀ s a s', I s → ok s a → step s a = some s' → I s') {s : σ}
    (h : Reach step ok init s) : I s := by
  induction h with
  | start h => exact h0 _ h
  | next _ hok hs ih => exact hstep _ _ _ ih hok hs

theorem Reach.invariant_using {I J : σ → Prop} (hJ : ∀ s, Reach step ok init s → J s)
    (h0 : ∀ s, init s → I s)
    (hstep : ∀ s a s', J s → I s → ok s a → step s a = some s' → J s' → I s') {s : σ}
    (h : Reach step ok init s) : I s := by
  induction h with
  | start h => exact h0 _ h
  | next hr hok hs ih =>
    exact hstep _ _ _ (hJ _ hr) ih hok hs (hJ _ (.next hr hok hs))

theorem Reach.mono_using (hok : ∀ s a, Reach step ok init s → ok s a → ok' s a) {s : σ}
    (h : Reach step ok init s) : Reach step ok' init s := by
  induction h with
  | start h => exact .start h
  | next hr ha hs ih => exact .next ih (hok _ _ hr ha) hs

/-- An invariant between the state and what has been counted on the way to it. -/
theorem runActions_counted {κ : Type*} {p : κ → σ → α → Bool} {I : σ → (κ → Nat) → Prop}
    (hstep : ∀ s a s' count, I s count → step s a = some s' →
      I s' fun k => count k + if p k s a then 1 else 0)
    (as : List α) {s s' : σ} {count : κ → Nat} (h : I s count) (hrun : runActions step s as = some s') :
    I s' fun k => count k + counted step (p k) s as := by
  induction as generalizing s count with
  | nil =>
    obtain rfl := Option.some.inj hrun
    exact h
  | cons a rest ih =>
    obtain ⟨t, ht, hrest⟩ := Option.bind_eq_some_iff.mp hrun
    have htail := ih (hstep s a t count h ht) hrest
    have hcount : (fun k => count k + counted step (p k) s (a :: rest)) =
        fun k => (count k + if p k s a then 1 else 0) + counted step (p k) t rest := by
      funext k
      rw [counted, ht]
      exact (Nat.add_assoc _ _ _).symm
    rw [hcount]
    exact htail

/-- A run whose steps pass a check that is enough for `ok`. -/
theorem reach_runActions {check : σ → α → Bool} (hcheck : ∀ s a, check s a = true → ok s a)
    {s s' : σ} (as : List α) (h : Reach step ok init s)
    (hrun : runActions (checked check step) s as = some s') :
    Reach step ok init s' ∧ runActions step s as = some s' := by
  induction as generalizing s with
  | nil =>
    simp only [runActions, Option.some.injEq] at hrun
    subst hrun
    exact ⟨h, rfl⟩
  | cons a rest ih =>
    obtain ⟨t, ht, hrest⟩ := Option.bind_eq_some_iff.mp hrun
    unfold checked at ht
    split at ht
    · next hc =>
      obtain ⟨hreach, htail⟩ := ih (.next h (hcheck s a hc) ht) hrest
      refine ⟨hreach, ?_⟩
      rw [runActions, ht]
      exact htail
    · cases ht

theorem reach_final {check : σ → α → Bool} (hcheck : ∀ s a, check s a = true → ok s a) {s : σ}
    (as : List α) (h : init s) (hrun : (runActions (checked check step) s as).isSome = true) :
    Reach step ok init (final step s as) := by
  obtain ⟨s', hs'⟩ := Option.isSome_iff_exists.mp hrun
  obtain ⟨hreach, hfinal⟩ := reach_runActions hcheck as (.start h) hs'
  unfold final
  rw [hfinal]
  exact hreach

end Transition
