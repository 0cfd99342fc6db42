import AppBackup.Lib.Directories

/- Programs that do not die in a calm process. What a triple says of the process that dies is
   then of no account, so that a specification with a calm process decides between success
   and failure. `DoneIff κ b H φ P c Q` is such a specification: `φ`, a fact about the values
   of the program, is what its success comes down to where nothing else goes wrong, as `H`
   says. -/
namespace Disk
open Program

variable {δ ε α : Type} {κ : Fates} {b : Bool}

/-- The program ends, with a value or an error. -/
def Lives (κ : Fates) (b : Bool) (c : Prog (Machine δ) ε α) : Prop :=
  Does κ b (fun _ _ => True) c (fun _ _ _ => True) (fun _ _ _ => True) fun _ _ => False

section
variable {P : Tree → δ → Prop} {Q : α → Tree → δ → Prop} {F : ε → Tree → δ → Prop}
    {C : Tree → δ → Prop}
  {c : Prog (Machine δ) ε α}

theorem Does.lives (h : Does κ b P c Q F C) (hlives : Lives κ b c) : Does κ b P c Q F fun _ _ => False := by
  unfold Lives at hlives
  unfold Does at h hlives ⊢
  refine (h.and (hlives.pre fun m hm => ⟨hm.1, hm.2.1, trivial⟩)).weaken (fun _ hm => hm) ?_ ?_ ?_
  · exact fun _ _ hm => hm.1
  · exact fun _ _ hm => hm.1
  · exact fun _ hm => hm.2

theorem Lives.pure (a : α) : Lives κ b (Pure.pure a : Prog (Machine δ) ε α) := Does.pure fun _ _ h => h

theorem Lives.fail (e : ε) : Lives κ b (Prog.fail e : Prog (Machine δ) ε α) := Does.fail fun _ _ h => h

theorem Lives.bind {β : Type} {k : α → Prog (Machine δ) ε β} (hc : Lives κ b c) (hk : ∀ a, Lives κ b (k a)) :
    Lives κ b (c >>= k) := Does.bind hc hk

theorem Lives.attempt {ε' : Type} (h : Lives κ b c) : Lives κ b (c.attempt : Prog (Machine δ) ε' (Except ε α)) :=
  Does.attempt (R := fun _ _ _ => True) h

theorem Lives.mapError {ε' : Type} {f : ε → ε'} (h : Lives κ b c) : Lives κ b (c.mapError f) := Does.mapError h

theorem Lives.ite {p : Prop} [Decidable p] {c₁ c₂ : Prog (Machine δ) ε α} (h₁ : Lives κ b c₁)
    (h₂ : Lives κ b c₂) :
    Lives κ b (if p then c₁ else c₂) := Does.ite (fun _ => h₁) fun _ => h₂

end

theorem lives_call (hcalm : Calm κ b) (act : Tree → Except IoError (α × Tree))
    (part : Nat → (List String → Bool) → Tree → Tree) :
      Lives κ b (call act part : Prog (Machine δ) IoError α) := by
  refine call_does (fun t d _ => ?_) fun hnot => absurd hcalm hnot
  cases act t with
  | ok r => exact trivial
  | error e => exact trivial

theorem lives_look (hcalm : Calm κ b) (ask : Tree → Except IoError α) :
    Lives κ b (look ask : Prog (Machine δ) IoError α) := lives_call hcalm _ _

theorem lives_change (hcalm : Calm κ b) (act : Tree → Except IoError Tree)
    (part : Nat → (List String → Bool) → Tree → Tree) :
      Lives κ b (change act part : Prog (Machine δ) IoError Unit) :=
  lives_call hcalm _ _

theorem lives_mkdirFrom (hcalm : Calm κ b) (root names : List String) :
    Lives κ b (mkdirFrom root names : Prog (Machine δ) IoError Unit) := by
  induction names generalizing root with
  | nil => exact Lives.pure ()
  | cons name rest ih => exact Lives.bind (lives_change hcalm _ _) fun _ => ih _

theorem lives_mkdirAll (hcalm : Calm κ b) (p : List String) :
    Lives κ b (mkdirAll p : Prog (Machine δ) IoError Unit) := lives_mkdirFrom hcalm [] p

/-! ## What success comes down to -/

/-- No step at all fails for a reason of its own. -/
def Quiet (κ : Fates) : Prop := ∀ b, Calm κ b

/-- The program is done only where `φ` holds, in `Q`; under `H` it is done wherever that holds. -/
def DoneIff (κ : Fates) (b : Bool) (H φ : Prop) (P : Tree → δ → Prop) (c : Prog (Machine δ) ε α)
    (Q : α → Tree → δ → Prop) : Prop :=
  Does κ b P c (fun a t d => φ ∧ Q a t d) (fun _ _ _ => H → ¬φ) fun _ _ => ¬H

section
variable {H φ ψ : Prop} {P P' : Tree → δ → Prop} {Q Q' : α → Tree → δ → Prop}
    {F : ε → Tree → δ → Prop}
  {C : Tree → δ → Prop} {c : Prog (Machine δ) ε α}

theorem Does.quiet (hH : H → Quiet κ) (h : Does κ b P c Q F C) (hlives : Calm κ b → Lives κ b c) :
    Does κ b P c Q F fun _ _ => ¬H := by
  by_cases hquiet : H
  · exact (h.lives (hlives (hH hquiet b))).post (fun _ _ _ hq => hq) (fun _ _ _ hf => hf) fun _ _ hf => hf.elim
  · exact h.post (fun _ _ _ hq => hq) (fun _ _ _ hf => hf) fun _ _ _ => hquiet

theorem DoneIff.weaken (h : DoneIff κ b H φ P c Q) (hP : ∀ t d, P' t d → P t d) (hφ : φ ↔ ψ)
    (hQ : ∀ a t d, Q a t d → Q' a t d) : DoneIff κ b H ψ P' c Q' := by
  refine Does.weaken h hP ?_ ?_ fun _ _ hc => hc
  · exact fun a t d hq => ⟨hφ.mp hq.1, hQ a t d hq.2⟩
  · exact fun _ _ _ hf hquiet hψ => hf hquiet (hφ.mpr hψ)

theorem DoneIff.pure {a : α} (h : ∀ t d, P t d → Q a t d) :
    DoneIff κ b H True P (Pure.pure a : Prog (Machine δ) ε α) Q := Does.pure fun t d ht => ⟨trivial, h t d ht⟩

theorem DoneIff.fail {e : ε} : DoneIff κ b H False P (Prog.fail e : Prog (Machine δ) ε α) Q :=
  Does.fail fun _ _ _ _ hf => hf

theorem DoneIff.bind {β : Type} {k : α → Prog (Machine δ) ε β} {R : β → Tree → δ → Prop}
    (hc : DoneIff κ b H φ P c Q) (hk : ∀ a, DoneIff κ b H ψ (Q a) (k a) R) :
      DoneIff κ b H (φ ∧ ψ) P (c >>= k) R := by
  refine Does.bind (R := fun a t d => φ ∧ Q a t d) ?_ fun a => ?_
  · exact Does.post hc (fun _ _ _ hq => hq) (fun _ _ _ hf hquiet h => hf hquiet h.1) fun _ _ hc => hc
  · refine Does.start (fun _ _ h => h.1) fun hφ => ?_
    refine Does.weaken (hk a) (fun _ _ h => h.2) ?_ ?_ fun _ _ hc => hc
    · exact fun _ _ _ h => ⟨⟨hφ, h.1⟩, h.2⟩
    · exact fun _ _ _ hf hquiet h => hf hquiet h.2

theorem DoneIff.mapError {ε' : Type} {f : ε → ε'}
    (h : DoneIff κ b H φ P c Q) : DoneIff κ b H φ P (c.mapError f) Q :=
  Does.mapError h

theorem DoneIff.start {p : Prop} (hP : ∀ t d, P t d → p)
    (h : p → DoneIff κ b H φ P c Q) : DoneIff κ b H φ P c Q :=
  Does.start hP h

theorem doneIff_look (hH : H → Quiet κ) {ask : Tree → Except IoError α}
    (h : ∀ t d, P t d → ∃ a, ask t = .ok a ∧ Q a t d) :
    DoneIff κ b H True P (look ask : Prog (Machine δ) IoError α) Q := by
  refine call_does (fun t d ht => ?_) fun hnot t d _ _ _ => ?_
  · obtain ⟨a, hask, hq⟩ := h t d ht
    rw [hask]
    exact ⟨trivial, hq⟩
  · exact ⟨fun hh => absurd (hH hh b) hnot, fun hh => hnot (hH hh b)⟩

theorem doneIff_change (hH : H → Quiet κ) {act : Tree → Except IoError Tree}
    {part : Nat → (List String → Bool) → Tree → Tree} {Q : Tree → δ → Prop}
    (h : ∀ t d, P t d → ∀ t', act t = .ok t' → Q t' d) (hok : H → ∀ t d, P t d → ∃ t', act t = .ok t') :
    DoneIff κ b H True P (change act part : Prog (Machine δ) IoError Unit) fun _ => Q := by
  refine call_does (fun t d ht => ?_) fun hnot t d _ _ _ => ?_
  · cases hact : act t with
    | ok t' => exact ⟨trivial, h t d ht t' hact⟩
    | error e =>
      intro hh
      obtain ⟨t', ht'⟩ := hok hh t d ht
      rw [hact] at ht'
      cases ht'
  · exact ⟨fun hh => absurd (hH hh b) hnot, fun hh => hnot (hH hh b)⟩

/-- A deferred removal leaves success what it is. -/
theorem DoneIff.removing (hH : H → Quiet κ) {p : List String} (h : DoneIff κ b H φ P c Q)
    (hremove : ∀ a t d, Q a t d → Q' a t d ∧ ∀ t', t.remove p = .ok t' → Q' a t' d) :
    DoneIff κ b H φ P (Prog.deferred (cleaningUp (remove p)) c) Q' := by
  have hclean : ∀ {I J : Tree → δ → Prop}, (∀ t d, I t d → J t d ∧ ∀ t', t.remove p = .ok t' →
      J t' d) →
      Does κ true I (remove p) (fun _ => J) (fun _ => J) fun _ _ => ¬H := by
    intro I J hIJ
    refine Does.quiet hH (change_atOnce.post ?_ (fun _ t d ht => (hIJ t d ht.1).1) fun _ _ ht => ht)
      fun hcalm => lives_change hcalm _ _
    intro _ t d ht
    obtain ⟨t', ht', hact⟩ := ht
    exact (hIJ t' d ht').2 t hact
  refine Does.deferred h (fun a => ?_) fun _ => ?_
  · refine hclean fun t d ht => ⟨⟨ht.1, (hremove a t d ht.2).1⟩, fun t' ht' => ⟨ht.1, ?_⟩⟩
    exact (hremove a t d ht.2).2 t' ht'
  · exact hclean fun t d ht => ⟨ht, fun _ _ => ht⟩

/-- Under `H` a process comes through just if `φ` holds. -/
theorem DoneIff.run (h : DoneIff κ b H φ P c Q) (hh : H) {m : Machine δ} (hm : At κ b P m) :
    φ ↔ ∃ a m', c m = .done a m' := by
  have hrun := Does.run h hm
  cases hc : c m with
  | done a m' =>
    rw [hc] at hrun
    exact iff_of_true hrun.2.2.1 ⟨a, m', rfl⟩
  | failed e m' =>
    rw [hc] at hrun
    exact iff_of_false (hrun.2.2 hh) fun ⟨_, _, h⟩ => nomatch h
  | crashed m' =>
    rw [hc] at hrun
    exact absurd hh hrun.2.2

end

/-! ## Work on one file -/

/-- The assertion says nothing of what is at `p`, but that it is no directory. -/
def Unseen (p : List String) (K : Tree → Prop) : Prop :=
  ∀ t t' : Tree, K t → t.obj p ≠ some .directory → t'.obj p ≠ some .directory →
    (∀ q, q ≠ p → t'.obj q = t.obj q) → K t'

section
variable {H : Prop} {p q : List String} {K L : Tree → Prop} {C : Tree → δ → Prop} {bytes : List Byte}

theorem unseen_obj {o : Option Object} (h : q ≠ p) : Unseen p fun t => t.obj q = o :=
  fun _ _ ht _ _ hsame => (hsame q h).trans ht

theorem unseen_directory : Unseen p fun t => t.obj q = some .directory := by
  intro t t' ht hp _ hsame
  have hne : q ≠ p := fun he => hp (he ▸ ht)
  exact (hsame q hne).trans ht

theorem Unseen.and (hK : Unseen p K) (hL : Unseen p L) : Unseen p fun t => K t ∧ L t :=
  fun t t' ht hp hp' hsame => ⟨hK t t' ht.1 hp hp' hsame, hL t t' ht.2 hp hp' hsame⟩

theorem Unseen.imp {H : Prop} (hK : Unseen p K) : Unseen p fun t => H → K t :=
  fun t t' ht hp hp' hsame hh => hK t t' (ht hh) hp hp' hsame

theorem Unseen.update {t t' : Tree} {o : Option Object} (hK : Unseen p K) (ht : K t) (hp : t.obj p ≠ some .directory)
    (ho : o ≠ some .directory) (hobj : t'.obj = Function.update t.obj p o) : t'.obj p = o ∧ K t' := by
  have hnew : t'.obj p = o := by rw [hobj, Function.update_self]
  refine ⟨hnew, hK t t' ht hp (by rw [hnew]; exact ho) fun q hq => ?_⟩
  rw [hobj, Function.update_of_ne hq]

theorem doneIff_write (hH : H → Quiet κ) (hK : Unseen p K) (new : List Byte) :
    DoneIff κ b H True (fun t (_ : δ) => t.obj p = some (.file bytes) ∧ K t) (write p new)
      (fun _ t _ => t.obj p = some (.file (bytes ++ new)) ∧ K t) := by
  refine doneIff_change hH (fun t d ht t' hact => ?_) fun _ t d ht => ?_
  · obtain ⟨old, hold, hobj⟩ := Tree.append_ok hact
    rw [ht.1] at hold
    obtain rfl := Object.file.inj (Option.some.inj hold)
    exact hK.update ht.2 (by rw [ht.1]; exact nofun) nofun hobj
  · obtain ⟨t', hact, -⟩ := @Tree.append_eq _ _ new _ ht.1
    exact ⟨t', hact⟩

theorem doneIff_createExclusive (hH : H → Quiet κ) (hK : Unseen p K) :
    DoneIff κ b H True
      (fun t (_ : δ) => (H → t.obj p = none ∧ t.obj p.dropLast = some .directory) ∧ K t) (createExclusive p)
      (fun _ t _ => t.obj p = some (.file []) ∧ t.obj p.dropLast = some .directory ∧ K t) := by
  refine doneIff_change hH (fun t d ht t' hact => ?_) fun hh t d ht => ?_
  · obtain ⟨hnone, hobj⟩ := Tree.create_ok hact
    obtain ⟨hfile, hkept⟩ := hK.update (o := some (.file [])) ht.2 (by rw [hnone]; exact nofun) nofun hobj
    refine ⟨hfile, t'.parent_directory hfile ?_, hkept⟩
    intro he
    rw [he, t'.root] at hfile
    cases hfile
  · obtain ⟨t', hact, -⟩ := Tree.create_eq (o := .file []) (ht.1 hh).1 (ht.1 hh).2
    exact ⟨t', hact⟩

theorem doneIff_lstat (hH : H → Quiet κ) {o : Object} :
    DoneIff κ b H True (fun t (_ : δ) => t.obj p = some o ∧ K t) (lstat p)
      (fun _ t _ => t.obj p = some o ∧ K t) :=
  doneIff_look hH fun _ _ ht => ⟨o, Tree.lookup_iff.mpr ht.1, ht⟩

theorem doneIff_readFile (hH : H → Quiet κ) :
    DoneIff κ b H True (fun t (_ : δ) => t.obj p = some (.file bytes) ∧ K t) (readFile p)
      (fun a t _ => a = bytes ∧ t.obj p = some (.file bytes) ∧ K t) :=
  doneIff_look hH fun _ _ ht => ⟨bytes, Tree.read_iff.mpr ht.1, rfl, ht⟩

theorem Tree.remove_error {t : Tree} {e : IoError} (h : t.remove p = .error e) :
    (t.obj p = some .directory ∧ e = .isDirectory) ∨ (t.obj p = none ∧ e = t.missing p) := by
  unfold Tree.remove at h
  split at h
  · next hdir => exact .inl ⟨hdir, (Except.error.inj h).symm⟩
  · cases h
  · cases h
  · next hnone => exact .inr ⟨hnone, (Except.error.inj h).symm⟩

theorem Tree.missing_below {t : Tree} (hnone : t.obj p = none) (hparent : t.obj p.dropLast = some .directory) :
    t.missing p = .notExist := by
  refine Tree.missing_notExist fun q hq => ?_
  by_cases hqp : q = p
  · rw [hqp]
    exact .inl hnone
  · by_cases hne : p = []
    · rw [hne] at hq hqp
      exact absurd (List.prefix_nil.mp hq) hqp
    · rw [← List.dropLast_append_getLast hne] at hq hqp
      exact .inr (Tree.prefix_of_directory hparent ((List.prefix_concat_iff.mp hq).resolve_left hqp))

/-- Under `H` the removal of what is no directory fails only where there is nothing. -/
theorem remove_does (hH : H → Quiet κ) (hK : Unseen p K) :
    Does κ b (fun t (_ : δ) => (H → t.obj p ≠ some .directory ∧ t.obj p.dropLast = some .directory) ∧ K t)
      (remove p)
      (fun _ t _ => t.obj p = none ∧ K t)
      (fun e t _ => (e = .notExist ∧ t.obj p = none ∧ K t) ∨ (e ≠ .notExist ∧ ¬H)) fun _ _ => ¬H := by
  unfold remove change
  refine call_does (fun t d ht => ?_) fun hnot t d _ _ ht => ?_
  · dsimp only
    cases hact : t.remove p with
    | ok t' =>
      obtain ⟨-, hdir, hobj⟩ := Tree.remove_ok hact
      exact hK.update (o := none) ht.2 hdir nofun hobj
    | error e =>
      obtain ⟨hdir, rfl⟩ | ⟨hnone, rfl⟩ := Tree.remove_error hact
      · exact .inr ⟨by decide, fun hh => (ht.1 hh).1 hdir⟩
      · by_cases hmissing : t.missing p = .notExist
        · exact .inl ⟨hmissing, hnone, ht.2⟩
        · exact .inr ⟨hmissing, fun hh => hmissing (Tree.missing_below hnone (ht.1 hh).2)⟩
  · exact ⟨.inr ⟨by decide, fun hh => hnot (hH hh b)⟩, fun hh => hnot (hH hh b)⟩

theorem upholds_change_unseen (hK : Unseen p K) {act : Tree → Except IoError Tree} {o : Tree → Option Object}
    (hC : ∀ t d, K t → C t d) (hact : ∀ t t', act t = .ok t' → t.obj p ≠ some .directory ∧
      o t ≠ some .directory ∧ t'.obj = Function.update t.obj p (o t)) :
    Upholds κ b (fun t (_ : δ) => K t) C (change act atOnce) := by
  refine change_atOnce.post ?_ (fun _ _ _ ht => ht.1) fun t d ht => hC t d ht
  intro _ t d ht
  obtain ⟨t', ht', hok⟩ := ht
  obtain ⟨hold, hnew, hobj⟩ := hact t' t hok
  exact (hK.update ht' hold hnew hobj).2

theorem upholds_remove (hK : Unseen p K) (hC : ∀ t d, K t → C t d) :
    Upholds κ b (fun t (_ : δ) => K t) C (remove p) := by
  refine upholds_change_unseen (o := fun _ => none) hK hC fun t t' hok => ?_
  obtain ⟨-, hdir, hobj⟩ := Tree.remove_ok hok
  exact ⟨hdir, nofun, hobj⟩

theorem upholds_createExclusive (hK : Unseen p K) (hC : ∀ t d, K t → C t d) :
    Upholds κ b (fun t (_ : δ) => K t) C (createExclusive p) := by
  refine upholds_change_unseen (o := fun _ => some (.file [])) hK hC fun t t' hok => ?_
  obtain ⟨hnone, hobj⟩ := Tree.create_ok hok
  exact ⟨by rw [hnone]; exact nofun, nofun, hobj⟩

theorem upholds_write (hK : Unseen p K) (hC : ∀ t d, K t → C t d) (bytes : List Byte) :
    Upholds κ b (fun t (_ : δ) => K t) C (write p bytes) := by
  have happend : ∀ {t t' : Tree} {bytes : List Byte}, K t → t.append p bytes = .ok t' → K t' := by
    intro t t' bytes ht hok
    obtain ⟨old, hold, hobj⟩ := Tree.append_ok hok
    exact (hK.update (o := some (.file (old ++ bytes))) ht (by rw [hold]; exact nofun) nofun hobj).2
  have hpart : ∀ {t' t : Tree} {written : Nat} {left : List String → Bool}, K t' →
      t = partWritten p bytes written left t' → K t := by
    intro t' t written left ht he
    unfold partWritten at he
    split at he
    · next t'' hok =>
      rw [he]
      exact happend ht hok
    · rw [he]
      exact ht
  refine change_does.post ?_ ?_ ?_
  · intro _ t d ht
    obtain ⟨t', ht', hok⟩ := ht
    exact happend ht' hok
  · intro _ t d ht
    obtain ⟨ht, -⟩ | ⟨-, t', written, left, ht', he⟩ := ht
    · exact ht
    · exact hpart ht' he
  · intro t d ht
    obtain ⟨t', written, left, ht', he⟩ := ht
    exact hC t d (hpart ht' he)

end

/-! ## What a program that is done has done -/

/-- Only of success is anything said. -/
abbrev Yields (κ : Fates) (b : Bool) (P : Tree → δ → Prop) (c : Prog (Machine δ) ε α)
    (Q : α → Tree → δ → Prop) :
    Prop := Does κ b P c Q (fun _ _ _ => True) fun _ _ => True

section
variable {P I : Tree → δ → Prop} {Q R : α → Tree → δ → Prop} {F : ε → Tree → δ → Prop}
    {C : Tree → δ → Prop}
  {c : Prog (Machine δ) ε α}

theorem Does.yields (h : Does κ b P c Q F C) : Yields κ b P c Q :=
  h.post (fun _ _ _ hq => hq) (fun _ _ _ _ => trivial) fun _ _ _ => trivial

theorem DoneIff.yields {H φ : Prop} (h : DoneIff κ b H φ P c Q) : Yields κ b P c fun a t d => φ ∧ Q a t d :=
    Does.yields h

theorem Does.and {P' : Tree → δ → Prop} {Q' : α → Tree → δ → Prop} {F' : ε → Tree → δ → Prop}
    {C' : Tree → δ → Prop}
    (h : Does κ b P c Q F C) (h' : Does κ b P' c Q' F' C') :
    Does κ b (fun t d => P t d ∧ P' t d) c (fun a t d => Q a t d ∧ Q' a t d) (fun e t d => F e t d ∧ F' e t d)
      fun t d => C t d ∧ C' t d := by
  unfold Does at h h' ⊢
  refine ((h.pre fun m hm => ⟨hm.1, hm.2.1, hm.2.2.1⟩).and
    (h'.pre fun m hm => ⟨hm.1, hm.2.1, hm.2.2.2⟩)).weaken (fun _ hm => hm) ?_ ?_ ?_
  · exact fun _ _ hm => ⟨hm.1.1, hm.1.2.1, hm.1.2.2, hm.2.2.2⟩
  · exact fun _ _ hm => ⟨hm.1.1, hm.1.2.1, hm.1.2.2, hm.2.2.2⟩
  · exact fun _ hm => ⟨hm.1.1, hm.1.2.1, hm.1.2.2, hm.2.2.2⟩

theorem Yields.beside (h : Yields κ b P c Q) (hkeep : Always κ b I c) :
    Yields κ b (fun t d => P t d ∧ I t d) c fun a t d => Q a t d ∧ I t d := (Does.and h hkeep).yields

theorem Yields.deferred {ε' : Type} {cleanup : Prog (Machine δ) ε' Unit} (h : Yields κ b P c R)
    (hclean : ∀ a, Does κ true (R a) cleanup (fun _ => Q a) (fun _ => Q a) C)
    (hruns : Always κ true (fun _ _ => True) cleanup) :
    Yields κ b P (Prog.deferred (Disk.cleaningUp cleanup) c) Q :=
  Does.deferred h (fun a => (hclean a).post (fun _ _ _ hq => hq) (fun _ _ _ hf => hf) fun _ _ _ => trivial)
    fun _ => hruns

theorem Yields.run {m m' : Machine δ} {a : α} (h : Yields m.fate m.cleaning P c Q) (hm : P m.tree m.data)
    (hdone : c m = .done a m') : Q a m'.tree m'.data := by
  have hrun := Does.run h ⟨rfl, rfl, hm⟩
  rw [hdone] at hrun
  exact hrun.2.2

end

end Disk
