import AppBackup.Lib.Transition

/- Potentials of a transition system: a number that no action raises and that every action of a
   kind lowers bounds how many actions of that kind a run has, and where some action of the kind
   can be taken until a goal is met, a run of them meets it. -/
namespace Transition

variable {σ α : Type*} {step : σ → α → Option σ} {I : σ → Prop} {φ : σ → Nat}

theorem runActions_final {as : List α} {s : σ} (h : (runActions step s as).isSome = true) :
    runActions step s as = some (final step s as) := by
  obtain ⟨s', hs'⟩ := Option.isSome_iff_exists.mp h
  unfold final
  rw [hs']
  rfl

/-- A run has no more actions that pay than there is potential at its start. -/
theorem counted_le {p : σ → α → Bool} {ok : α → Prop}
    (hstep : ∀ s a s', I s → ok a → step s a = some s' → I s' ∧ φ s' + (if p s a then 1 else 0) ≤ φ s)
    (as : List α) {s s' : σ} (h : I s) (hok : ∀ a ∈ as, ok a) (hrun : runActions step s as = some s') :
    counted step p s as ≤ φ s := by
  induction as generalizing s with
  | nil => exact Nat.zero_le _
  | cons a rest ih =>
    obtain ⟨t, ht, hrest⟩ := Option.bind_eq_some_iff.mp hrun
    obtain ⟨hI, hpay⟩ := hstep s a t h (hok a (List.mem_cons_self ..)) ht
    have htail := ih hI (fun b hb => hok b (List.mem_cons_of_mem _ hb)) hrest
    simp only [counted, ht, Option.elim_some]
    omega

/-- A goal that some action always leads towards is met by a run of such actions. -/
theorem exists_run {goal : σ → Prop} {pick : α → Prop}
    (hstep : ∀ s, I s → ¬goal s → ∃ a s', pick a ∧ step s a = some s' ∧ I s' ∧ φ s' < φ s) {s : σ}
      (h : I s) :
    ∃ as s', (∀ a ∈ as, pick a) ∧ runActions step s as = some s' ∧ I s' ∧ goal s' := by
  induction hn : φ s using Nat.strongRecOn generalizing s with
  | ind n ih =>
    by_cases hgoal : goal s
    · exact ⟨[], s, fun a ha => absurd ha List.not_mem_nil, rfl, h, hgoal⟩
    · obtain ⟨a, t, hpick, ht, hI, hless⟩ := hstep s h hgoal
      obtain ⟨as, s', hall, hrun, hI', hmet⟩ := ih (φ t) (hn ▸ hless) hI rfl
      refine ⟨a :: as, s', List.forall_mem_cons.mpr ⟨hpick, hall⟩, ?_, hI', hmet⟩
      rw [runActions, ht]
      exact hrun

end Transition
