import AppBackup.Lib.Thread

/- Calls that keep a journal. A `Logged` is a call that was made: its request, what it has
   noted so far of the answers it was given, and what is left of its program, if it was not
   stopped. A `Journal` is a state with every session there ever was, next to each other on it.

   A step makes a new call, lets one session make its next statement, stops one where it
   stands (it was lost with the process, or a statement failed it), or lets something outside
   act on the state. A stopped session does nothing more, and stays in the journal with its notes.

   What is proved: where each program makes only statements that meet `P`, so does what is left
   of each session (`sessions_every`); and where each program has an outline over its notes
   alone, whatever state a statement finds, the notes of every session meet the outline's
   invariant and those of one that returned its postcondition (`sessions_outlined`). Both are by
   one step lemma over `step_cases`. -/
namespace Threads
open Thread Transition

variable {σ Q E C : Type} {R : C → Type} {α N : Type}

/-- A call that was made. -/
structure Logged (Q C : Type) (R : C → Type) (α N : Type) where
  request : Q
  notes : List N
  rest : Option (Thread C R α)

structure Journal (σ Q C : Type) (R : C → Type) (α N : Type) where
  state : σ
  sessions : List (Logged Q C R α N)

namespace Logged

/-- What the call returned, once it has. -/
def result (r : Logged Q C R α N) : Option α :=
  match r.rest with
  | some (.done a) => some a
  | _ => none

end Logged

namespace Journal

/-- The steps of a journal. -/
inductive Move (Q E : Type) where
  | start (q : Q)
  | next (i : Nat)
  | stop (i : Nat)
  | outside (e : E)

variable (exec : (c : C) → σ → R c × σ) (note : (c : C) → R c → List N) (program : Q → Thread C R α)
  (outside : σ → E → σ)

/-- The session after its next statement, and the state that leaves. -/
def advance (s : σ) (r : Logged Q C R α N) : Option (σ × Logged Q C R α N) :=
  match r.rest with
  | some (.call c k) =>
    some ((exec c s).2, ⟨r.request, r.notes ++ note c (exec c s).1, some (k (exec c s).1)⟩)
  | _ => none

def step (d : Journal σ Q C R α N) : Move Q E → Option (Journal σ Q C R α N)
  | .start q => some ⟨d.state, d.sessions ++ [⟨q, [], some (program q)⟩]⟩
  | .next i =>
    match d.sessions[i]? with
    | none => none
    | some r => (advance exec note d.state r).map fun (s, r') => ⟨s, d.sessions.set i r'⟩
  | .stop i =>
    match d.sessions[i]? with
    | none => none
    | some r => if r.result.isSome then none else some ⟨d.state, d.sessions.set i { r with rest := none }⟩
  | .outside e => some ⟨outside d.state e, d.sessions⟩

variable {exec note program outside}

theorem advance_some {s s' : σ} {r r' : Logged Q C R α N} (h : advance exec note s r = some (s', r')) :
    ∃ c k, r.rest = some (.call c k) ∧ s' = (exec c s).2 ∧
      r' = ⟨r.request, r.notes ++ note c (exec c s).1, some (k (exec c s).1)⟩ := by
  unfold advance at h
  split at h
  next c k hrest =>
    cases h
    exact ⟨c, k, hrest, rfl, rfl⟩
  next => cases h

theorem set_around {β : Type} {l : List β} {i : Nat} {a : β} (h : l[i]? = some a) (b : β) :
    ∃ before after, l = before ++ a :: after ∧ l.set i b = before ++ b :: after := by
  obtain ⟨hi, rfl⟩ := List.getElem?_eq_some_iff.mp h
  refine ⟨l.take i, l.drop (i + 1), ?_, ?_⟩
  · rw [← List.drop_eq_getElem_cons hi, List.take_append_drop]
  · rw [List.set_eq_take_append_cons_drop, if_pos hi]

/-- What a step does: one session more, one statement of a session, one session stopped, or
what something outside does. -/
theorem step_cases {d d' : Journal σ Q C R α N} {m : Move Q E} (h : d.step exec note program outside m = some d') :
    (∃ q, m = .start q ∧ d' = ⟨d.state, d.sessions ++ [⟨q, [], some (program q)⟩]⟩) ∨
    (∃ i before after q notes c k, m = .next i ∧
      d.sessions = before ++ ⟨q, notes, some (.call c k)⟩ :: after ∧
      d' = ⟨(exec c d.state).2, before ++
        ⟨q, notes ++ note c (exec c d.state).1, some (k (exec c d.state).1)⟩ :: after⟩) ∨
    (∃ i before after q notes rest, m = .stop i ∧ d.sessions = before ++ ⟨q, notes, rest⟩ :: after ∧
      d' = ⟨d.state, before ++ ⟨q, notes, none⟩ :: after⟩) ∨
    ∃ e, m = .outside e ∧ d' = ⟨outside d.state e, d.sessions⟩ := by
  cases m with
  | start q =>
    cases h
    exact .inl ⟨q, rfl, rfl⟩
  | next i =>
    simp only [step] at h
    split at h
    · cases h
    · next r hr =>
      obtain ⟨⟨s', r'⟩, hadvance, he⟩ := Option.map_eq_some_iff.mp h
      obtain ⟨c, k, hrest, hs', hr'⟩ := advance_some hadvance
      obtain ⟨before, after, hsessions, hset⟩ := set_around hr r'
      obtain ⟨q, notes, rest⟩ := r
      obtain rfl : rest = some (.call c k) := hrest
      refine .inr (.inl ⟨i, before, after, q, notes, c, k, rfl, hsessions, ?_⟩)
      rw [← he, hset, hs', hr']
  | stop i =>
    simp only [step] at h
    split at h
    · cases h
    · next r hr =>
      split at h
      · cases h
      · obtain ⟨before, after, hsessions, hset⟩ := set_around hr { r with rest := none }
        obtain ⟨q, notes, rest⟩ := r
        refine .inr (.inr (.inl ⟨i, before, after, q, notes, rest, rfl, hsessions, ?_⟩))
        rw [← Option.some.inj h, hset]
  | outside e =>
    cases h
    exact .inr (.inr (.inr ⟨e, rfl, rfl⟩))

/-! ## What holds of every session -/

/-- A property of sessions that a fresh one has, and that a statement and a stop keep, is one
of them all. -/
theorem sessions_step {J : Logged Q C R α N → Prop} (hstart : ∀ q, J ⟨q, [], some (program q)⟩)
    (hnext : ∀ q notes c k s, J ⟨q, notes, some (.call c k)⟩ →
      J ⟨q, notes ++ note c (exec c s).1, some (k (exec c s).1)⟩)
    (hstop : ∀ q notes rest, J ⟨q, notes, rest⟩ → J ⟨q, notes, none⟩)
    {d d' : Journal σ Q C R α N} {m : Move Q E} (h : d.step exec note program outside m = some d')
    (hd : ∀ r ∈ d.sessions, J r) : ∀ r ∈ d'.sessions, J r := by
  have hset : ∀ {before after : List (Logged Q C R α N)} {r r' : Logged Q C R α N},
      d.sessions = before ++ r :: after → J r' → ∀ r'' ∈ before ++ r' :: after, J r'' := by
    intro before after r r' hsessions hr' r'' hr''
    obtain hr'' | hr'' := List.mem_append.mp hr''
    · exact hd r'' (hsessions ▸ List.mem_append_left _ hr'')
    · obtain rfl | hr'' := List.mem_cons.mp hr''
      · exact hr'
      · exact hd r'' (hsessions ▸ List.mem_append_right _ (List.mem_cons_of_mem _ hr''))
  obtain ⟨q, -, rfl⟩ | ⟨i, before, after, q, notes, c, k, -, hsessions, rfl⟩ |
    ⟨i, before, after, q, notes, rest, -, hsessions, rfl⟩ | ⟨e, -, rfl⟩ := step_cases h
  · intro r hr
    obtain hr | hr := List.mem_append.mp hr
    · exact hd r hr
    · obtain rfl := List.mem_singleton.mp hr
      exact hstart q
  · refine hset hsessions (hnext q notes c k d.state (hd _ ?_))
    simp [hsessions]
  · refine hset hsessions (hstop q notes rest (hd _ ?_))
    simp [hsessions]
  · exact hd

/-- What is left of a session makes the statements its program may make. -/
def KeepsTo (P : Q → C → Prop) (r : Logged Q C R α N) : Prop := ∀ t, r.rest = some t → t.Every (P r.request)

theorem sessions_every {P : Q → C → Prop} (hprogram : ∀ q, (program q).Every (P q))
    {d d' : Journal σ Q C R α N} {m : Move Q E} (h : d.step exec note program outside m = some d')
    (hd : ∀ r ∈ d.sessions, KeepsTo P r) : ∀ r ∈ d'.sessions, KeepsTo P r := by
  refine sessions_step ?_ ?_ ?_ h hd
  · rintro q t ht
    obtain rfl := Option.some.inj ht
    exact hprogram q
  · rintro q notes c k s hr t ht
    obtain rfl := Option.some.inj ht
    exact (every_call.mp (hr _ rfl)).2 _
  · rintro q notes rest - t ht
    cases ht

/-! ## Outlines over the notes -/

variable (exec note) in
/-- A statement of a session: it changes the state, and adds to the notes. -/
def noted (c : C) (s : σ × List N) : R c × σ × List N :=
  ((exec c s.1).1, (exec c s.1).2, s.2 ++ note c (exec c s.1).1)

variable (exec note) in
/-- From these notes the program keeps `I` of its notes, and returns with `G`, whatever the
state is at each of its statements. -/
abbrev Notes (I : List N → Prop) (G : α → List N → Prop) (t : Thread C R α) (notes : List N) : Prop :=
  t.Leads (noted exec note) Prod.snd (fun _ _ => True) I G notes

/-- The notes of a session meet the invariant of its request, and those of one that has
returned the postcondition. -/
structure Outlined (exec : (c : C) → σ → R c × σ) (note : (c : C) → R c → List N) (I : Q → List N → Prop)
    (G : Q → α → List N → Prop) (r : Logged Q C R α N) : Prop where
  keeps : I r.request r.notes
  leads : ∀ t, r.rest = some t → Notes exec note (I r.request) (G r.request) t r.notes

variable {I : Q → List N → Prop} {G : Q → α → List N → Prop}

theorem Outlined.returned {r : Logged Q C R α N} (h : Outlined exec note I G r) {a : α} (ha : r.result = some a) :
    G r.request a r.notes := by
  unfold Logged.result at ha
  split at ha
  next a' hrest =>
    cases ha
    exact leads_done.mp (h.leads _ hrest)
  next => cases ha

theorem notes_query {ε : Type} {I : List N → Prop} {F : ε → List N → Prop} {c : C} {G : R c → List N → Prop}
    {notes : List N}
    (h : ∀ s, I (notes ++ note c (exec c s).1) ∧ G (exec c s).1 (notes ++ note c (exec c s).1)) :
    Notes exec note I (Or F G) (query c : ExceptT ε (Thread C R) (R c)) notes := by
  apply leads_query
  rintro ⟨s, l⟩ rfl -
  exact h s

theorem sessions_outlined (hstart : ∀ q, I q []) (hprogram : ∀ q, Notes exec note (I q) (G q) (program q) [])
    {d d' : Journal σ Q C R α N} {m : Move Q E} (h : d.step exec note program outside m = some d')
    (hd : ∀ r ∈ d.sessions, Outlined exec note I G r) : ∀ r ∈ d'.sessions, Outlined exec note I G r := by
  refine sessions_step ?_ ?_ ?_ h hd
  · intro q
    refine ⟨hstart q, ?_⟩
    rintro t ht
    obtain rfl := Option.some.inj ht
    exact hprogram q
  · rintro q notes c k s ⟨-, hleads⟩
    obtain ⟨hkeeps, hrest⟩ := leads_call.mp (hleads _ rfl) (s, notes) rfl trivial
    refine ⟨hkeeps, ?_⟩
    rintro t ht
    obtain rfl := Option.some.inj ht
    exact hrest
  · rintro q notes rest ⟨hkeeps, -⟩
    exact ⟨hkeeps, fun t ht => nomatch ht⟩

end Journal

end Threads
