import Mathlib.Logic.Basic

/- Programs that run over a state, may fail with an error, and may stop dead at any step.
   A program that fails hands its error to its caller, which may catch it or clean up; one
   that crashes does neither. `Triple P c Q F C` says of a program run from a state in `P`
   what holds when it is done, when it has failed and when it has crashed; there is one
   rule for each way to build a program. -/
namespace Program

inductive Outcome (σ ε α : Type) where
  | done (a : α) (s : σ)
  | failed (e : ε) (s : σ)
  | crashed (s : σ)

/-- The state a program leaves. -/
def Outcome.state {σ ε α : Type} : Outcome σ ε α → σ
  | done _ s => s
  | failed _ s => s
  | crashed s => s

def Outcome.isDone {σ ε α : Type} : Outcome σ ε α → Bool
  | done _ _ => true
  | failed _ _ => false
  | crashed _ => false

theorem Outcome.isDone_iff {σ ε α : Type} {o : Outcome σ ε α} : o.isDone = true ↔ ∃ a s, o = .done a s := by
  cases o with
  | done a s => exact ⟨fun _ => ⟨a, s, rfl⟩, fun _ => rfl⟩
  | failed e s => simp [isDone]
  | crashed s => simp [isDone]

/-- A program over states `σ` with errors `ε`. -/
def Prog (σ ε α : Type) := σ → Outcome σ ε α

variable {σ ε ε' α β ι : Type}

namespace Prog

def pure (a : α) : Prog σ ε α := fun s => .done a s

def bind (c : Prog σ ε α) (k : α → Prog σ ε β) : Prog σ ε β := fun s =>
  match c s with
  | .done a s => k a s
  | .failed e s => .failed e s
  | .crashed s => .crashed s

instance {σ ε : Type} : Monad (Prog σ ε) where
  pure := Prog.pure
  bind := Prog.bind

def fail (e : ε) : Prog σ ε α := fun s => .failed e s

/-- The error of the program as a value. -/
def attempt (c : Prog σ ε α) : Prog σ ε' (Except ε α) := fun s =>
  match c s with
  | .done a s => .done (.ok a) s
  | .failed e s => .done (.error e) s
  | .crashed s => .crashed s

def mapError (f : ε → ε') (c : Prog σ ε α) : Prog σ ε' α := fun s =>
  match c s with
  | .done a s => .done a s
  | .failed e s => .failed (f e) s
  | .crashed s => .crashed s

/-- `defer`: the clean-up runs whether the program is done or has failed, and its own error is
dropped. -/
def deferred (cleanup : Prog σ ε' Unit) (c : Prog σ ε α) : Prog σ ε α := fun s =>
  match c s with
  | .done a s =>
    match cleanup s with
    | .done _ s => .done a s
    | .failed _ s => .done a s
    | .crashed s => .crashed s
  | .failed e s =>
    match cleanup s with
    | .done _ s => .failed e s
    | .failed _ s => .failed e s
    | .crashed s => .crashed s
  | .crashed s => .crashed s

/-- A clean-up that only a failure runs. -/
def onFailure (cleanup : Prog σ ε' Unit) (c : Prog σ ε α) : Prog σ ε α := fun s =>
  match c s with
  | .done a s => .done a s
  | .failed e s =>
    match cleanup s with
    | .done _ s => .failed e s
    | .failed _ s => .failed e s
    | .crashed s => .crashed s
  | .crashed s => .crashed s

def get : Prog σ ε σ := fun s => .done s s

/-- A loop over a list. -/
def each (l : List ι) (body : ι → Prog σ ε Unit) : Prog σ ε Unit :=
  match l with
  | [] => pure ()
  | i :: rest => bind (body i) fun _ => each rest body

end Prog

/-! ## Triples -/

/-- Run from a state in `P`, the program is done in `Q`, fails in `F` or crashes in `C`. -/
def Triple (P : σ → Prop) (c : Prog σ ε α) (Q : α → σ → Prop) (F : ε → σ → Prop)
    (C : σ → Prop) : Prop :=
  ∀ s, P s → match c s with
    | .done a s' => Q a s'
    | .failed e s' => F e s'
    | .crashed s' => C s'

variable {P P' : σ → Prop} {Q Q' : α → σ → Prop} {F F' : ε → σ → Prop} {C C' : σ → Prop}
  {c : Prog σ ε α}

theorem Triple.weaken (h : Triple P c Q F C) (hP : ∀ s, P' s → P s) (hQ : ∀ a s, Q a s → Q' a s)
    (hF : ∀ e s, F e s → F' e s) (hC : ∀ s, C s → C' s) : Triple P' c Q' F' C' := by
  intro s hs
  have hrun := h s (hP s hs)
  cases hc : c s with
  | done a s' => rw [hc] at hrun; exact hQ a s' hrun
  | failed e s' => rw [hc] at hrun; exact hF e s' hrun
  | crashed s' => rw [hc] at hrun; exact hC s' hrun

theorem Triple.pre (h : Triple P c Q F C) (hP : ∀ s, P' s → P s) : Triple P' c Q F C :=
  h.weaken hP (fun _ _ hq => hq) (fun _ _ hf => hf) fun _ hc => hc

theorem Triple.pure {a : α} (h : ∀ s, P s → Q a s) : Triple P (Pure.pure a : Prog σ ε α) Q F C := h

theorem Triple.fail {e : ε} (h : ∀ s, P s → F e s) : Triple P (Prog.fail e : Prog σ ε α) Q F C := h

theorem Triple.bind {k : α → Prog σ ε β} {R : α → σ → Prop} {Q : β → σ → Prop}
    (hc : Triple P c R F C) (hk : ∀ a, Triple (R a) (k a) Q F C) : Triple P (c >>= k) Q F C := by
  intro s hs
  have hrun := hc s hs
  show match Prog.bind c k s with
    | .done a s' => Q a s'
    | .failed e s' => F e s'
    | .crashed s' => C s'
  unfold Prog.bind
  cases hr : c s with
  | done a s' => rw [hr] at hrun; exact hk a s' hrun
  | failed e s' => rw [hr] at hrun; exact hrun
  | crashed s' => rw [hr] at hrun; exact hrun

theorem Triple.attempt {R : Except ε α → σ → Prop} {F : ε' → σ → Prop}
    (h : Triple P c (fun a => R (.ok a)) (fun e => R (.error e)) C) :
    Triple P (c.attempt : Prog σ ε' (Except ε α)) R F C := by
  intro s hs
  have hrun := h s hs
  unfold Prog.attempt
  cases hr : c s with
  | done a s' => rw [hr] at hrun; exact hrun
  | failed e s' => rw [hr] at hrun; exact hrun
  | crashed s' => rw [hr] at hrun; exact hrun

theorem Triple.mapError {f : ε → ε'} {F : ε' → σ → Prop} (h : Triple P c Q (fun e => F (f e)) C) :
    Triple P (c.mapError f) Q F C := by
  intro s hs
  have hrun := h s hs
  unfold Prog.mapError
  cases hr : c s with
  | done a s' => rw [hr] at hrun; exact hrun
  | failed e s' => rw [hr] at hrun; exact hrun
  | crashed s' => rw [hr] at hrun; exact hrun

/-- A clean-up leads what the program is done with to `Q`, and what it failed with to `F`. -/
theorem Triple.deferred {cleanup : Prog σ ε' Unit} {R : α → σ → Prop} {G : ε → σ → Prop}
    (h : Triple P c R G C) (hdone : ∀ a, Triple (R a) cleanup (fun _ => Q a) (fun _ => Q a) C)
    (hfailed : ∀ e, Triple (G e) cleanup (fun _ => F e) (fun _ => F e) C) :
    Triple P (Prog.deferred cleanup c) Q F C := by
  intro s hs
  have hrun := h s hs
  unfold Prog.deferred
  cases hr : c s with
  | done a s₁ =>
    rw [hr] at hrun
    have hclean := hdone a s₁ hrun
    simp only
    cases hl : cleanup s₁ with
    | done u s₂ => rw [hl] at hclean; exact hclean
    | failed e s₂ => rw [hl] at hclean; exact hclean
    | crashed s₂ => rw [hl] at hclean; exact hclean
  | failed e s₁ =>
    rw [hr] at hrun
    have hclean := hfailed e s₁ hrun
    simp only
    cases hl : cleanup s₁ with
    | done u s₂ => rw [hl] at hclean; exact hclean
    | failed e' s₂ => rw [hl] at hclean; exact hclean
    | crashed s₂ => rw [hl] at hclean; exact hclean
  | crashed s₁ => rw [hr] at hrun; exact hrun

theorem Triple.onFailure {cleanup : Prog σ ε' Unit} {G : ε → σ → Prop} (h : Triple P c Q G C)
    (hfailed : ∀ e, Triple (G e) cleanup (fun _ => F e) (fun _ => F e) C) :
    Triple P (Prog.onFailure cleanup c) Q F C := by
  intro s hs
  have hrun := h s hs
  unfold Prog.onFailure
  cases hr : c s with
  | done a s₁ => rw [hr] at hrun; exact hrun
  | failed e s₁ =>
    rw [hr] at hrun
    have hclean := hfailed e s₁ hrun
    simp only
    cases hl : cleanup s₁ with
    | done u s₂ => rw [hl] at hclean; exact hclean
    | failed e' s₂ => rw [hl] at hclean; exact hclean
    | crashed s₂ => rw [hl] at hclean; exact hclean
  | crashed s₁ => rw [hr] at hrun; exact hrun

theorem Triple.get {Q : σ → σ → Prop} (h : ∀ s, P s → Q s s) : Triple P (Prog.get : Prog σ ε σ) Q F C := h

theorem Triple.ite {b : Prop} [Decidable b] {c₁ c₂ : Prog σ ε α} (h₁ : b → Triple P c₁ Q F C)
    (h₂ : ¬b → Triple P c₂ Q F C) : Triple P (if b then c₁ else c₂) Q F C := by
  by_cases hb : b
  · rw [if_pos hb]
    exact h₁ hb
  · rw [if_neg hb]
    exact h₂ hb

theorem Triple.and (h : Triple P c Q F C) (h' : Triple P c Q' F' C') :
    Triple P c (fun a s => Q a s ∧ Q' a s) (fun e s => F e s ∧ F' e s) fun s => C s ∧ C' s := by
  intro s hs
  have hrun := h s hs
  have hrun' := h' s hs
  cases hr : c s with
  | done a s' => rw [hr] at hrun hrun'; exact ⟨hrun, hrun'⟩
  | failed e s' => rw [hr] at hrun hrun'; exact ⟨hrun, hrun'⟩
  | crashed s' => rw [hr] at hrun hrun'; exact ⟨hrun, hrun'⟩

theorem Triple.each {body : ι → Prog σ ε Unit} {I : List ι → σ → Prop} {F : ε → σ → Prop} (l : List ι)
    (h : ∀ i rest, Triple (I (i :: rest)) (body i) (fun _ => I rest) F C) :
    Triple (I l) (Prog.each l body) (fun _ => I []) F C := by
  induction l with
  | nil =>
    intro s hs
    exact hs
  | cons i rest ih =>
    show Triple (I (i :: rest)) (body i >>= fun _ => Prog.each rest body) _ F C
    exact (h i rest).bind fun _ => ih

/-! ## What a program keeps, whatever becomes of it -/

def Keeps (I : σ → Prop) (c : Prog σ ε α) : Prop := ∀ s, I s → I (c s).state

section Keeps
variable {I : σ → Prop}

theorem Keeps.pure (a : α) : Keeps I (Pure.pure a : Prog σ ε α) := fun _ h => h

theorem Keeps.fail (e : ε) : Keeps I (Prog.fail e : Prog σ ε α) := fun _ h => h

theorem Keeps.bind {k : α → Prog σ ε β} (hc : Keeps I c) (hk : ∀ a, Keeps I (k a)) :
    Keeps I (c >>= k) := by
  intro s hs
  have hrun := hc s hs
  show I (Prog.bind c k s).state
  unfold Prog.bind
  cases hr : c s with
  | done a s' => rw [hr] at hrun; exact hk a s' hrun
  | failed e s' => rw [hr] at hrun; exact hrun
  | crashed s' => rw [hr] at hrun; exact hrun

theorem Keeps.attempt (h : Keeps I c) : Keeps I (c.attempt : Prog σ ε' (Except ε α)) := by
  intro s hs
  have hrun := h s hs
  unfold Prog.attempt
  cases hr : c s with
  | done a s' => rw [hr] at hrun; exact hrun
  | failed e s' => rw [hr] at hrun; exact hrun
  | crashed s' => rw [hr] at hrun; exact hrun

theorem Keeps.mapError {f : ε → ε'} (h : Keeps I c) : Keeps I (c.mapError f) := by
  intro s hs
  have hrun := h s hs
  unfold Prog.mapError
  cases hr : c s with
  | done a s' => rw [hr] at hrun; exact hrun
  | failed e s' => rw [hr] at hrun; exact hrun
  | crashed s' => rw [hr] at hrun; exact hrun

theorem Keeps.deferred {cleanup : Prog σ ε' Unit} (h : Keeps I c) (hclean : Keeps I cleanup) :
    Keeps I (Prog.deferred cleanup c) := by
  intro s hs
  have hrun := h s hs
  unfold Prog.deferred
  cases hr : c s with
  | done a s₁ =>
    rw [hr] at hrun
    have hstate := hclean s₁ hrun
    simp only
    cases hl : cleanup s₁ <;> rw [hl] at hstate <;> exact hstate
  | failed e s₁ =>
    rw [hr] at hrun
    have hstate := hclean s₁ hrun
    simp only
    cases hl : cleanup s₁ <;> rw [hl] at hstate <;> exact hstate
  | crashed s₁ => rw [hr] at hrun; exact hrun

theorem Keeps.onFailure {cleanup : Prog σ ε' Unit} (h : Keeps I c) (hclean : Keeps I cleanup) :
    Keeps I (Prog.onFailure cleanup c) := by
  intro s hs
  have hrun := h s hs
  unfold Prog.onFailure
  cases hr : c s with
  | done a s₁ => rw [hr] at hrun; exact hrun
  | failed e s₁ =>
    rw [hr] at hrun
    have hstate := hclean s₁ hrun
    simp only
    cases hl : cleanup s₁ <;> rw [hl] at hstate <;> exact hstate
  | crashed s₁ => rw [hr] at hrun; exact hrun

theorem Keeps.ite {b : Prop} [Decidable b] {c₁ c₂ : Prog σ ε α} (h₁ : b → Keeps I c₁)
    (h₂ : ¬b → Keeps I c₂) : Keeps I (if b then c₁ else c₂) := by
  by_cases hb : b
  · rw [if_pos hb]
    exact h₁ hb
  · rw [if_neg hb]
    exact h₂ hb

theorem Keeps.each {body : ι → Prog σ ε Unit} (l : List ι) (h : ∀ i ∈ l, Keeps I (body i)) :
    Keeps I (Prog.each l body) := by
  induction l with
  | nil => exact Keeps.pure ()
  | cons i rest ih =>
    refine Keeps.bind (h i (List.mem_cons_self ..)) fun _ => ih fun j hj => ?_
    exact h j (List.mem_cons_of_mem i hj)

end Keeps

end Program
