import Mathlib.Logic.Function.Basic
import AppBackup.Lib.Transition

/- Programs that run next to each other on one state. A `Thread` makes calls, one at
   a time, and `exec` says what a call does to the state and what it answers. A
   `Pool` is the state and its threads; its steps start a program, make the next
   call of one thread, let something outside act on the state, or lose every
   thread.

   `Every P` says that each call a program can make, whatever it is answered, meets
   `P`. `Leads` is a proof outline: it follows the part of the state a thread
   depends on (its `view`) from call to call, while the others leave that part
   alone. -/
namespace Threads

variable {C : Type} {R : C → Type} {α β ε : Type}

/-- A program that makes calls in `C`, and goes on with what each answers. -/
inductive Thread (C : Type) (R : C → Type) (α : Type) where
  | done (a : α)
  | call (c : C) (k : R c → Thread C R α)

namespace Thread

def bind : Thread C R α → (α → Thread C R β) → Thread C R β
  | done a, f => f a
  | call c k, f => call c fun r => (k r).bind f

instance : Monad (Thread C R) where
  pure := done
  bind := bind

/-- One call, whose answer is the result. -/
def ask (c : C) : Thread C R (R c) := call c done

/-- Nothing is left to do. -/
def ended : Thread C R α → Bool
  | done _ => true
  | call _ _ => false

theorem bind_done (a : α) (f : α → Thread C R β) : (done a : Thread C R α) >>= f = f a := rfl

theorem pure_bind (a : α) (f : α → Thread C R β) : (pure a : Thread C R α) >>= f = f a := rfl

/-! Programs that can fail. -/

/-- A call whose answer is the result. -/
def query (c : C) : ExceptT ε (Thread C R) (R c) := ExceptT.lift (ask c)

/-- A result that needs no call. -/
def result (x : Except ε α) : ExceptT ε (Thread C R) α := ExceptT.mk (done x)

/-- The outcome of a program, as a value. -/
def attempt (t : ExceptT ε (Thread C R) α) : ExceptT ε (Thread C R) (Except ε α) := ExceptT.lift t

/-- Every element in turn, until one of them fails. -/
def each (f : α → ExceptT ε (Thread C R) Unit) : List α → ExceptT ε (Thread C R) Unit
  | [] => pure ()
  | a :: rest => do f a; each f rest

/-! ## What a thread does alone -/

section Alone
variable {σ : Type} (exec : (c : C) → σ → R c × σ)

/-- The result and the state where no other thread runs. -/
def run : Thread C R α → σ → α × σ
  | done a, s => (a, s)
  | call c k, s => (k (exec c s).1).run (exec c s).2

theorem run_pure (a : α) (s : σ) : (pure a : Thread C R α).run exec s = (a, s) := rfl

theorem run_bind (t : Thread C R α) (f : α → Thread C R β) (s : σ) :
    (t >>= f).run exec s = (f (t.run exec s).1).run exec (t.run exec s).2 := by
  induction t generalizing s with
  | done a => rfl
  | call c k ih => exact ih (exec c s).1 (exec c s).2

theorem run_bindE (t : ExceptT ε (Thread C R) α) (f : α → ExceptT ε (Thread C R) β) (s : σ) :
    run exec (t >>= f : ExceptT ε (Thread C R) β) s =
      match run exec t s with
      | (.error e, s') => (.error e, s')
      | (.ok a, s') => run exec (f a) s' := by
  refine (run_bind exec t _ s).trans ?_
  rcases run exec t s with ⟨r, s'⟩
  cases r with
  | error e => rfl
  | ok a => rfl

theorem run_query (c : C) (f : R c → ExceptT ε (Thread C R) β) (s : σ) :
    run exec (query c >>= f : ExceptT ε (Thread C R) β) s =
      run exec (f (exec c s).1) (exec c s).2 := rfl

theorem run_result (x : Except ε α) (f : α → ExceptT ε (Thread C R) β) (s : σ) :
    run exec (result x >>= f : ExceptT ε (Thread C R) β) s =
      match x with
      | .error e => (.error e, s)
      | .ok a => run exec (f a) s := by
  cases x with
  | error e => rfl
  | ok a => rfl

theorem run_attempt (t : ExceptT ε (Thread C R) α)
    (f : Except ε α → ExceptT ε (Thread C R) β) (s : σ) :
    run exec (attempt t >>= f : ExceptT ε (Thread C R) β) s =
      run exec (f (run exec t s).1) (run exec t s).2 := by
  have h : run exec (attempt t) s = (.ok (run exec t s).1, (run exec t s).2) :=
    run_bind exec t _ s
  rw [run_bindE, h]

theorem run_each_cons (f : α → ExceptT ε (Thread C R) Unit) (x : α) (xs : List α) (s : σ) :
    run exec (each f (x :: xs)) s =
      match run exec (f x) s with
      | (.error e, s') => (.error e, s')
      | (.ok _, s') => run exec (each f xs) s' := by
  rw [each, run_bindE]
  generalize run exec (f x) s = outcome
  obtain ⟨r, s'⟩ := outcome
  cases r with
  | error e => rfl
  | ok u => rfl

theorem run_each_append (f : α → ExceptT ε (Thread C R) Unit) (xs ys : List α) (s : σ) :
    run exec (each f (xs ++ ys)) s =
      match run exec (each f xs) s with
      | (.error e, s') => (.error e, s')
      | (.ok _, s') => run exec (each f ys) s' := by
  induction xs generalizing s with
  | nil => rfl
  | cons x rest ih =>
    rw [List.cons_append, run_each_cons, run_each_cons]
    generalize run exec (f x) s = outcome
    obtain ⟨r, s₁⟩ := outcome
    cases r with
    | error e => rfl
    | ok u => exact ih s₁

end Alone

/-! ## The calls a program can make -/

/-- Each call it can make meets `P`, whatever the ones before it were answered. -/
def Every (P : C → Prop) : Thread C R α → Prop
  | done _ => True
  | call c k => P c ∧ ∀ r, (k r).Every P

section Every
variable {P : C → Prop}

theorem every_done (a : α) : (done a : Thread C R α).Every P := trivial

theorem every_call {c : C} {k : R c → Thread C R α} :
    (call c k).Every P ↔ P c ∧ ∀ r, (k r).Every P := Iff.rfl

theorem every_pure (a : α) : (pure a : Thread C R α).Every P := trivial

theorem every_ask {c : C} (h : P c) : (ask c : Thread C R (R c)).Every P :=
  ⟨h, fun _ => trivial⟩

theorem every_bind {t : Thread C R α} {f : α → Thread C R β} (ht : t.Every P)
    (hf : ∀ a, (f a).Every P) : (t >>= f).Every P := by
  induction t with
  | done a => exact hf a
  | call c k ih => exact ⟨ht.1, fun r => ih r (ht.2 r)⟩

theorem every_bindE {t : ExceptT ε (Thread C R) α} {f : α → ExceptT ε (Thread C R) β}
    (ht : Every P t) (hf : ∀ a, Every P (f a)) :
    Every P (t >>= f : ExceptT ε (Thread C R) β) := by
  refine every_bind ht fun r => ?_
  cases r with
  | error e => exact every_pure _
  | ok a => exact hf a

theorem every_query {c : C} (h : P c) : Every P (query c : ExceptT ε (Thread C R) (R c)) :=
  every_bind (every_ask h) fun _ => every_pure _

theorem every_result (x : Except ε α) : Every P (result x : ExceptT ε (Thread C R) α) :=
  every_pure _

theorem every_resultBind {x : Except ε α} {f : α → ExceptT ε (Thread C R) β}
    (h : ∀ a, x = .ok a → Every P (f a)) :
    Every P (result x >>= f : ExceptT ε (Thread C R) β) := by
  cases x with
  | error e => exact every_pure _
  | ok a => exact h a rfl

theorem every_attempt {t : ExceptT ε (Thread C R) α} (ht : Every P t) : Every P (attempt t) :=
  every_bind ht fun _ => every_pure _

theorem every_each {f : α → ExceptT ε (Thread C R) Unit} (xs : List α)
    (hf : ∀ a ∈ xs, Every P (f a)) : Every P (each f xs) := by
  induction xs with
  | nil => exact every_pure _
  | cons a rest ih =>
    refine every_bindE (hf a (List.mem_cons_self ..)) fun _ => ih ?_
    intro a' ha'
    exact hf a' (List.mem_cons_of_mem a ha')

theorem Every.mono {P' : C → Prop} {t : Thread C R α} (h : ∀ c, P c → P' c) (ht : t.Every P) :
    t.Every P' := by
  induction t with
  | done a => trivial
  | call c k ih => exact ⟨h c ht.1, fun r => ih r (ht.2 r)⟩

end Every

/-! ## Proof outlines -/

section Outline
variable {σ V : Type} (exec : (c : C) → σ → R c × σ) (view : σ → V) (ok : σ → C → Prop)

/-- From the view `v`, each call that meets `ok` keeps `I` of the view, and the result
meets `Q` in the view it is returned in. -/
def Leads (I : V → Prop) (Q : α → V → Prop) : Thread C R α → V → Prop
  | done a, v => Q a v
  | call c k, v => ∀ s, view s = v → ok s c →
      I (view (exec c s).2) ∧ (k (exec c s).1).Leads I Q (view (exec c s).2)

variable {exec view ok} {I : V → Prop}

theorem leads_done {Q : α → V → Prop} {a : α} {v : V} :
    (done a : Thread C R α).Leads exec view ok I Q v ↔ Q a v := Iff.rfl

theorem leads_call {Q : α → V → Prop} {c : C} {k : R c → Thread C R α} {v : V} :
    (call c k).Leads exec view ok I Q v ↔ ∀ s, view s = v → ok s c →
      I (view (exec c s).2) ∧ (k (exec c s).1).Leads exec view ok I Q (view (exec c s).2) := Iff.rfl

theorem leads_bind {Q : α → V → Prop} {Q' : β → V → Prop} {t : Thread C R α}
    {f : α → Thread C R β} {v : V} (ht : t.Leads exec view ok I Q v)
    (hf : ∀ a v', Q a v' → (f a).Leads exec view ok I Q' v') :
    (t >>= f).Leads exec view ok I Q' v := by
  induction t generalizing v with
  | done a => exact hf a v ht
  | call c k ih =>
    intro s hs hok
    exact ⟨(ht s hs hok).1, ih _ (ht s hs hok).2⟩

/-- What a failing program leads to: `E` of its error, `Q` of its result. -/
def Or (E : ε → V → Prop) (Q : α → V → Prop) : Except ε α → V → Prop
  | .error e => E e
  | .ok a => Q a

theorem leads_bindE {E : ε → V → Prop} {Q : α → V → Prop} {Q' : β → V → Prop}
    {t : ExceptT ε (Thread C R) α} {f : α → ExceptT ε (Thread C R) β} {v : V}
    (ht : Leads exec view ok I (Or E Q) t v)
    (hf : ∀ a v', Q a v' → Leads exec view ok I (Or E Q') (f a) v') :
    Leads exec view ok I (Or E Q') (t >>= f : ExceptT ε (Thread C R) β) v := by
  refine leads_bind ht fun r v' hr => ?_
  cases r with
  | error e => exact hr
  | ok a => exact hf a v' hr

theorem leads_query {c : C} {E : ε → V → Prop} {Q : R c → V → Prop} {v : V}
    (h : ∀ s, view s = v → ok s c →
      I (view (exec c s).2) ∧ Q (exec c s).1 (view (exec c s).2)) :
    Leads exec view ok I (Or E Q) (query c : ExceptT ε (Thread C R) (R c)) v := h

theorem leads_result {E : ε → V → Prop} {Q : α → V → Prop} {x : Except ε α} {v : V}
    (h : Or E Q x v) : Leads exec view ok I (Or E Q) (result x : ExceptT ε (Thread C R) α) v := h

theorem leads_return {E : ε → V → Prop} {Q : α → V → Prop} {a : α} {v : V} (h : Q a v) :
    Leads exec view ok I (Or E Q) (pure a : ExceptT ε (Thread C R) α) v := h

theorem leads_throw {E : ε → V → Prop} {Q : α → V → Prop} {e : ε} {v : V} (h : E e v) :
    Leads exec view ok I (Or E Q) (throw e : ExceptT ε (Thread C R) α) v := h

theorem leads_resultBind {E : ε → V → Prop} {Q : β → V → Prop} {x : Except ε α}
    {f : α → ExceptT ε (Thread C R) β} {v : V} (he : ∀ e, x = .error e → E e v)
    (h : ∀ a, x = .ok a → Leads exec view ok I (Or E Q) (f a) v) :
    Leads exec view ok I (Or E Q) (result x >>= f : ExceptT ε (Thread C R) β) v := by
  cases x with
  | error e => exact he e rfl
  | ok a => exact h a rfl

theorem leads_attempt {E E' : ε → V → Prop} {Q : α → V → Prop} {t : ExceptT ε (Thread C R) α}
    {v : V} (ht : Leads exec view ok I (Or E Q) t v) :
    Leads exec view ok I (Or E' (Or E Q)) (attempt t) v :=
  leads_bind ht fun _ _ h => h

theorem Leads.mono {Q Q' : α → V → Prop} {t : Thread C R α} {v : V}
    (ht : t.Leads exec view ok I Q v) (h : ∀ a v', Q a v' → Q' a v') :
    t.Leads exec view ok I Q' v := by
  induction t generalizing v with
  | done a => exact h a v ht
  | call c k ih =>
    intro s hs hok
    exact ⟨(ht s hs hok).1, ih _ (ht s hs hok).2⟩

theorem leads_frame {P : C → Prop} {t : Thread C R α} {v : V} (hI : I v) (ht : t.Every P)
    (hP : ∀ c s, P c → view s = v → ok s c → view (exec c s).2 = v) :
    t.Leads exec view ok I (fun _ v' => v' = v) v := by
  induction t with
  | done a => rfl
  | call c k ih =>
    intro s hs hok
    rw [hP c s ht.1 hs hok]
    exact ⟨hI, ih _ (ht.2 _)⟩

theorem leads_keep {P : C → Prop} {J : V → Prop} {t : Thread C R α} {v : V} (hJ : ∀ v, J v → I v)
    (hv : J v) (ht : t.Every P) (hP : ∀ c s, P c → J (view s) → ok s c → J (view (exec c s).2)) :
    t.Leads exec view ok I (fun _ => J) v := by
  induction t generalizing v with
  | done a => exact hv
  | call c k ih =>
    intro s hs hok
    have hnext := hP c s ht.1 (hs ▸ hv) hok
    exact ⟨hJ _ hnext, ih _ hnext (ht.2 _)⟩

theorem Leads.alone {Q : α → V → Prop} {t : Thread C R α} {s : σ}
    (h : t.Leads exec view (fun _ _ => True) I Q (view s)) : Q (t.run exec s).1 (view (t.run exec s).2) := by
  induction t generalizing s with
  | done a => exact h
  | call c k ih => exact ih _ (h s rfl trivial).2

end Outline

/-! ## Runs alone: assertions, pairs of states and frames -/

section Runs
variable {σ V : Type} {exec : (c : C) → σ → R c × σ} {P : C → Prop}

theorem run_keep {J : σ → Prop} (hJ : ∀ c s, P c → J s → J (exec c s).2) {t : Thread C R α}
    (ht : t.Every P) {s : σ} (h : J s) : J (t.run exec s).2 := by
  induction t generalizing s with
  | done a => exact h
  | call c k ih => exact ih _ (ht.2 _) (hJ c s ht.1 h)

/-- Two states that each call answers alike and leaves related are answered alike by a run, and
left related. -/
theorem run_related {S : σ → σ → Prop}
    (hS : ∀ c s s', P c → S s s' → (exec c s).1 = (exec c s').1 ∧ S (exec c s).2 (exec c s').2)
    {t : Thread C R α} (ht : t.Every P) {s s' : σ} (h : S s s') :
    (t.run exec s).1 = (t.run exec s').1 ∧ S (t.run exec s).2 (t.run exec s').2 := by
  induction t generalizing s s' with
  | done a => exact ⟨rfl, h⟩
  | call c k ih =>
    obtain ⟨hanswer, hnext⟩ := hS c s s' ht.1 h
    show ((k (exec c s).1).run exec _).1 = ((k (exec c s').1).run exec _).1 ∧
      S ((k (exec c s).1).run exec _).2 ((k (exec c s').1).run exec _).2
    rw [hanswer]
    exact ih _ (ht.2 _) hnext

variable (exec) in
/-- A run ends with the view it started with. -/
def Leaves (view : σ → V) (t : Thread C R α) : Prop := ∀ s, view (t.run exec s).2 = view s

variable {view : σ → V}

theorem leaves_pure (a : α) : (pure a : Thread C R α).Leaves exec view := fun _ => rfl

theorem leaves_bindE {t : ExceptT ε (Thread C R) α} {f : α → ExceptT ε (Thread C R) β}
    (ht : Leaves exec view t) (hf : ∀ a, Leaves exec view (f a)) :
    Leaves exec view (t >>= f : ExceptT ε (Thread C R) β) := by
  intro s
  have hs : view (run exec t s).2 = view s := ht s
  rw [run_bindE]
  generalize run exec t s = outcome at hs ⊢
  obtain ⟨r, s'⟩ := outcome
  cases r with
  | error e => exact hs
  | ok a => exact (hf a s').trans hs

theorem leaves_attempt {t : ExceptT ε (Thread C R) α} (ht : Leaves exec view t) :
    Leaves exec view (attempt t) := by
  intro s
  have hs : run exec (attempt t) s = (.ok (run exec t s).1, (run exec t s).2) := run_bind exec t _ s
  rw [hs]
  exact ht s

theorem leaves_each {f : α → ExceptT ε (Thread C R) Unit} (xs : List α)
    (hf : ∀ a ∈ xs, Leaves exec view (f a)) : Leaves exec view (each f xs) := by
  induction xs with
  | nil => exact leaves_pure _
  | cons a rest ih =>
    refine leaves_bindE (hf a (List.mem_cons_self ..)) fun _ => ih ?_
    intro a' ha'
    exact hf a' (List.mem_cons_of_mem a ha')

end Runs

-- the rules above are all that is used of them
attribute [irreducible] Every Leads

end Thread

/-! ## Threads on one state -/

/-- A state and the threads that run on it. -/
structure Pool (σ C : Type) (R : C → Type) (α : Type) where
  state : σ
  threads : Nat → Thread C R α

/-- The steps of a pool: a free thread starts the program of a request, a thread makes
its next call, something outside acts on the state, or every thread is lost. -/
inductive Move (Q E : Type) where
  | start (i : Nat) (q : Q)
  | next (i : Nat)
  | outside (e : E)
  | crash

namespace Pool
open Thread

variable {σ Q E : Type} (exec : (c : C) → σ → R c × σ) (program : Q → Thread C R (Except ε Unit))
  (outside : σ → E → σ)

/-- No thread runs. -/
def quiet (s : σ) : Pool σ C R (Except ε Unit) := ⟨s, fun _ => .done (.ok ())⟩

def step (p : Pool σ C R (Except ε Unit)) : Move Q E → Option (Pool σ C R (Except ε Unit))
  | .start i q =>
    if (p.threads i).ended then some { p with threads := Function.update p.threads i (program q) }
    else none
  | .next i =>
    match p.threads i with
    | .done _ => none
    | .call c k =>
      some ⟨(exec c p.state).2, Function.update p.threads i (k (exec c p.state).1)⟩
  | .outside e => some { p with state := outside p.state e }
  | .crash => some (quiet p.state)

/-- The call a move makes. -/
def called (p : Pool σ C R (Except ε Unit)) : Move Q E → Option C
  | .next i =>
    match p.threads i with
    | .done _ => none
    | .call c _ => some c
  | _ => none

variable {exec program outside}

/-- What a step may leave of the state: what a call the threads may make leaves, what
something outside does, or all of it. -/
theorem step_state {p p' : Pool σ C R (Except ε Unit)} {m : Move Q E}
    (h : p.step exec program outside m = some p') :
    p'.state = p.state ∨ (∃ i c k, m = .next i ∧ p.threads i = .call c k ∧
      p'.state = (exec c p.state).2) ∨ ∃ e, m = .outside e ∧ p'.state = outside p.state e := by
  cases m with
  | start i q =>
    simp only [step] at h
    split at h
    · cases h; exact .inl rfl
    · cases h
  | next i =>
    simp only [step] at h
    split at h
    · cases h
    · next c k hc => cases h; exact .inr (.inl ⟨i, c, k, rfl, hc, rfl⟩)
  | outside e => cases h; exact .inr (.inr ⟨e, rfl, rfl⟩)
  | crash => cases h; exact .inl rfl

/-- Where every program makes calls in `P` only, so do the threads of every pool. -/
theorem every_step {P : C → Prop} {p p' : Pool σ C R (Except ε Unit)} {m : Move Q E}
    (hprog : ∀ q, (program q).Every P) (hp : ∀ i, (p.threads i).Every P)
    (h : p.step exec program outside m = some p') (i : Nat) : (p'.threads i).Every P := by
  cases m with
  | start j q =>
    simp only [step] at h
    split at h
    · cases h
      by_cases hij : i = j
      · subst hij; simpa using hprog q
      · simpa [Function.update_of_ne hij] using hp i
    · cases h
  | next j =>
    simp only [step] at h
    split at h
    · cases h
    · next c k hc =>
      cases h
      by_cases hij : i = j
      · subst hij
        have hk := hp i
        rw [hc] at hk
        simpa using (every_call.mp hk).2 _
      · simpa [Function.update_of_ne hij] using hp i
  | outside e => cases h; exact hp i
  | crash => cases h; exact every_done _

end Pool

end Threads
