import AppBackup.Backup.Container
import AppBackup.Backup.Upheld
import AppBackup.Backup.Writer

/- The retry of `writeWithRetry`. Each run of the writer has a clean-up of its own: what the
   first one leaves of its copies and its index is gone when it has failed, and the archive
   is discarded before the second.

   What is proved:
     1. `writeArchive_traces` -- a run of the writer that meets a changed source leaves an
        archive and nothing else of its own; `discardArchive_traces` takes that away;
     2. `Restored.free` -- so the second run finds what the first one found;
     3. `writeWithRetry_last` -- what is done is one run with the sources of the last, and
        `writeArchive_writes` says what such a run has written;
     4. `retry_leaves_no_trace` puts these together. -/
namespace AppBackup.Backup
open Program Disk Path Text Probe Storage

variable {δ : Type}

/-! ## The traces of a run -/

/-- What a run of the writer has changed, but for the archive and the index: the directory of
the copies may be new, and copies that were there may be gone. The copies at `busy` are in use. -/
structure Trace (p : Places) (busy : List String → Prop) (t₀ t : Tree) : Prop where
  others : ∀ q, q ≠ p.archive → q ≠ p.index → q ≠ p.copies → (∀ n, q ≠ p.temporary n) →
    t.obj q = t₀.obj q
  copies : t.obj p.copies = t₀.obj p.copies ∨ (t₀.obj p.copies = none ∧ t.obj p.copies = some .directory)
  temporary : ∀ n, t.obj (p.temporary n) = t₀.obj (p.temporary n) ∨
    (t₀.obj (p.temporary n) ≠ some .directory ∧
    t.obj (p.temporary n) ≠ some .directory ∧ (¬busy (p.temporary n) → t.obj (p.temporary n) = none))

/-- What the writer counts on while it writes: its traces, its cache, and an index it can remove. -/
def Writing (p : Places) (busy : List String → Prop) (t₀ t : Tree) : Prop :=
  Trace p busy t₀ t ∧ t.obj p.cache = some .directory ∧ t.obj p.index ≠ some .directory

section
variable {κ : Fates} {b : Bool} {p : Places} {busy : List String → Prop} {t₀ t t' : Tree}

/-- Another object at the archive, the index or a copy in use is no other trace. -/
theorem unseen_trace {q : List String} (hq : q ≠ p.copies)
    (h : ((q = p.archive ∨ q = p.index) ∧ ∀ n, p.temporary n ≠ q) ∨ (busy q ∧ ∃ k, q = p.temporary k)) :
    Unseen q (Trace p busy t₀) := by
  intro t t' ht hold hnew hsame
  refine ⟨fun r harchive hindex hcopies hn => ?_, ?_, fun n => ?_⟩
  · have hr : r ≠ q := by
      intro he
      obtain ⟨hq, -⟩ | ⟨-, k, hq⟩ := h
      · obtain hq | hq := hq
        · exact harchive (he.trans hq)
        · exact hindex (he.trans hq)
      · exact hn k (he.trans hq)
    rw [hsame r hr]
    exact ht.others r harchive hindex hcopies hn
  · rw [hsame _ hq.symm]
    exact ht.copies
  · by_cases hn : p.temporary n = q
    · obtain ⟨-, hfree⟩ | ⟨hbusy, -⟩ := h
      · exact absurd hn (hfree n)
      · refine .inr ⟨?_, by rw [hn]; exact hnew, fun hnot => absurd (hn ▸ hbusy) hnot⟩
        obtain hsame | ⟨hdir, -⟩ := ht.temporary n
        · rw [← hsame, hn]
          exact hold
        · exact hdir
    · rw [hsame _ hn]
      exact ht.temporary n

theorem unseen_writing {q : List String} (hq : q ≠ p.copies)
    (h : ((q = p.archive ∨ q = p.index) ∧ ∀ n, p.temporary n ≠ q) ∨ (busy q ∧ ∃ k, q = p.temporary k)) :
    Unseen q (Writing p busy t₀) := by
  refine (unseen_trace hq h).and (unseen_directory.and ?_)
  intro t t' ht _ hnew hsame
  by_cases hindex : p.index = q
  · rw [hindex]
    exact hnew
  · rw [hsame _ hindex]
    exact ht

theorem unseen_writing_archive (hp : p.Apart) : Unseen p.archive (Writing p busy t₀) :=
  unseen_writing hp.copies (.inl ⟨.inl rfl, fun n => (hp.temporary n).symm⟩)

theorem unseen_writing_index : Unseen p.index (Writing p busy t₀) :=
  unseen_writing p.index_ne_copies (.inl ⟨.inr rfl, p.temporary_ne_index⟩)

/-! ## The databases -/

theorem Trace.mono {busy' : List String → Prop} (h : Trace p busy t₀ t) (hbusy : ∀ q, busy q → busy' q) :
    Trace p busy' t₀ t := by
  refine ⟨h.others, h.copies, fun n => ?_⟩
  obtain hsame | ⟨hold, hnew, hnone⟩ := h.temporary n
  · exact .inl hsame
  · exact .inr ⟨hold, hnew, fun hnot => hnone fun hb => hnot (hbusy _ hb)⟩

/-- The directory of the copies is made below the cache, or is there. -/
theorem Writing.laid {q : List String} (h : Writing p busy t₀ t) (hq : q <+: p.copies) (hlaid : Tree.Laid t q t')
    (hpass : Tree.Passable t q) : Writing p busy t₀ t' := by
  obtain ⟨htrace, hcache, hindex⟩ := h
  -- on the way there is the cache, which is there, and the directory of the copies
  have hsame : ∀ r, r ≠ p.copies → t'.obj r = t.obj r := by
    intro r hr
    rw [hlaid]
    by_cases hrq : r <+: q
    · obtain hr' | hr' := List.prefix_concat_iff.mp (hrq.trans hq)
      · exact absurd hr' hr
      · simp only [if_pos hrq]
        exact (Tree.prefix_of_directory hcache hr').symm
    · exact if_neg hrq
  have hcopies : t'.obj p.copies = t.obj p.copies ∨
      (t.obj p.copies = none ∧ t'.obj p.copies = some .directory) := by
    rw [hlaid]
    by_cases hin : p.copies <+: q
    · simp only [if_pos hin]
      obtain hnone | hdir := hpass _ hin
      · exact .inr ⟨hnone, trivial⟩
      · exact .inl hdir.symm
    · simp only [if_neg hin]
      exact .inl trivial
  refine ⟨⟨fun r harchive hindex hr hn => ?_, ?_, fun n => ?_⟩, ?_, ?_⟩
  · rw [hsame r hr]
    exact htrace.others r harchive hindex hr hn
  · obtain hkept | ⟨hnone, hdir⟩ := hcopies
    · rw [hkept]
      exact htrace.copies
    · obtain hold | ⟨-, hold⟩ := htrace.copies
      · exact .inr ⟨hold.symm.trans hnone, hdir⟩
      · rw [hnone] at hold
        cases hold
  · rw [hsame _ (p.temporary_ne_copies n)]
    exact htrace.temporary n
  · have hne : p.cache ≠ p.copies := by
      intro he
      have hlength := congrArg List.length he
      simp [Places.copies] at hlength
    rw [hsame _ hne]
    exact hcache
  · rw [hsame _ p.index_ne_copies]
    exact hindex

/-- The copy of a database is gone when `writeSQLite` is over. -/
theorem writeSQLite_traces (hclean : Calm κ true) (hp : p.Apart) {h : Host} (o : Online) (entry : Entry)
    (number : Nat) :
    Upholds κ b (fun t (_ : δ) => Writing p (fun _ => False) t₀ t) (fun _ _ => True)
      (writeSQLite h p o entry (p.temporary number)) := by
  let busy : List String → Prop := fun q => q = p.temporary number
  have hbusy : Unseen (p.temporary number) (Writing p busy t₀) :=
    unseen_writing (p.temporary_ne_copies number) (.inr ⟨rfl, number, rfl⟩)
  have hupheld : Upheld κ b (fun t (_ : δ) => Writing p busy t₀ t) (fun _ _ => True) p :=
    ⟨fun _ _ _ => trivial, upholds_write (unseen_writing_archive hp) fun _ _ _ => trivial,
      upholds_write unseen_writing_index fun _ _ _ => trivial⟩
  -- the deferred removal finds a copy that is in use, or none
  have hremoved : ∀ t, Writing p busy t₀ t → t.obj (p.temporary number) = none ∨
      t.obj (p.temporary number) = t₀.obj (p.temporary number) → Writing p (fun _ => False) t₀ t := by
    intro t ht hgone
    refine ⟨⟨ht.1.others, ht.1.copies, fun n => ?_⟩, ht.2⟩
    obtain hsame | ⟨hold, hnew, hnone⟩ := ht.1.temporary n
    · exact .inl hsame
    · by_cases hn : p.temporary n = p.temporary number
      · obtain hgone | hsame := hgone
        · exact .inr ⟨hold, hnew, fun _ => hn ▸ hgone⟩
        · exact .inl (hn ▸ hsame)
      · exact .inr ⟨hold, hnew, fun _ => hnone hn⟩
  have hclear : Does κ true (fun t (_ : δ) => Writing p busy t₀ t) (remove (p.temporary number))
      (fun _ t _ => Writing p (fun _ => False) t₀ t) (fun _ t _ => Writing p (fun _ => False) t₀ t)
      fun _ _ => True := by
    refine change_atOnce.post ?_ ?_ fun _ _ _ => trivial
    · intro _ t d ht
      obtain ⟨t', ht', hact⟩ := ht
      obtain ⟨-, hdir, hobj⟩ := Tree.remove_ok hact
      obtain ⟨hnone, hkept⟩ := hbusy.update (o := none) ht' hdir nofun hobj
      exact hremoved t hkept (.inl hnone)
    · intro e t d ht
      refine hremoved t ht.1 ?_
      obtain ⟨hdir, -⟩ | ⟨hnone, -⟩ := Tree.remove_error (ht.2 hclean)
      · obtain hsame | ⟨-, hnew, -⟩ := ht.1.1.temporary number
        · exact .inr hsame
        · exact absurd hdir hnew
      · exact .inl hnone
  unfold writeSQLite
  rw [p.temporary_dropLast]
  refine Does.bind (R := fun _ t _ => Writing p busy t₀ t)
    (Does.mapError (Does.mapError (mkdirAll_does.post ?_ ?_ ?_)))
    fun _ => ?_
  · intro _ t d ht
    obtain ⟨t', ht', hlaid, hpass⟩ := ht
    have hkept := ht'.laid (List.prefix_refl _) hlaid hpass
    exact ⟨hkept.1.mono fun _ hf => hf.elim, hkept.2⟩
  · intro _ t d ht
    obtain ⟨t', q, ⟨ht', -⟩, hq, hlaid, hpass⟩ := ht
    exact ht'.laid hq hlaid hpass
  · exact fun _ _ _ => trivial
  · refine Does.deferred (R := fun _ t _ => Writing p busy t₀ t) (G := fun _ t _ => Writing p busy t₀ t) ?_
      (fun _ => hclear) fun _ => hclear
    refine Does.bind (Does.mapError (upholds_onlineBackup (upholds_remove hbusy fun _ _ _ => trivial)
      (upholds_createExclusive hbusy fun _ _ _ => trivial) (upholds_write hbusy fun _ _ _ => trivial) _ _)) fun _ => ?_
    exact hupheld.archiveCopy _ _ _

/-! ## A run that meets a changed source -/

variable {h : Host} {base cache : List String} {part : Partial} {P : Tree → δ → Prop} {C : Tree → δ → Prop}

theorem coded_fails {α : Type} {c : Action δ α} {Q : α → Tree → δ → Prop} {code : String}
    (hcode : code ≠ "SOURCE_FILE_CHANGED") (hc : Does κ b P c Q (fun _ _ _ => True) C) :
    Does κ b P (coded code c : Work δ α) Q (fun e _ _ => e.code ≠ "SOURCE_FILE_CHANGED") C :=
  Does.mapError (hc.post (fun _ _ _ hq => hq) (fun _ _ _ _ => hcode) fun _ _ hc => hc)

theorem codedIo_fails {α : Type} {c : Prog (Machine δ) IoError α} {Q : α → Tree → δ → Prop} {code : String}
    (hcode : code ≠ "SOURCE_FILE_CHANGED") (hc : Does κ b P c Q (fun _ => P) C) :
    Does κ b P (codedIo code c : Work δ α) Q (fun e _ _ => e.code ≠ "SOURCE_FILE_CHANGED") C :=
  coded_fails hcode (Does.mapError (hc.post (fun _ _ _ hq => hq) (fun _ _ _ _ => trivial) fun _ _ hc => hc))

/-- The directories have no source that changes. -/
theorem writeDirectories_unchanged {K : Tree → Prop} (hK : Unseen p.archive K) (entries : List Entry)
    (done : List Written) : Does κ b (fun t (_ : δ) => K t) (writeDirectories h p entries done) (fun _ t _ => K t)
      (fun e _ _ => e.code ≠ "SOURCE_FILE_CHANGED") fun _ _ => True := by
  have hwrite : ∀ bytes, Does κ b (fun t (_ : δ) => K t) (codedIo "ARCHIVE_WRITE_FAILED" (write p.archive bytes))
      (fun _ t _ => K t) (fun e _ _ => e.code ≠ "SOURCE_FILE_CHANGED") fun _ _ => True :=
    fun bytes => codedIo_fails (by decide) (upholds_write hK (fun _ _ _ => trivial) bytes)
  induction entries generalizing done with
  | nil => exact Does.pure fun _ _ ht => ht
  | cons entry rest ih =>
    refine Does.bind (R := fun _ t _ => K t) ?_ fun _ => ih _
    unfold writeDirectory
    split
    · next e he =>
      unfold zipName at he
      split at he
      · cases he
      · cases he
        exact Does.fail fun _ _ _ => show "ARCHIVE_PATH_UNSAFE" ≠ "SOURCE_FILE_CHANGED" by decide
    · exact Does.bind (hwrite _) fun _ => Does.bind (hwrite _) fun _ => Does.pure fun _ _ ht => ht

/-- Where a run has met a changed source, it began without an archive and an index, the index
is gone again, and so are the copies. -/
def Stopped (p : Places) (t₀ t : Tree) : Prop :=
  (t₀.obj p.archive = none ∧ t₀.obj p.index = none) ∧ t.obj p.index = none ∧ Trace p (fun _ => False) t₀ t

theorem writeContents_traces (hclean : Calm κ true) (hp : p.Apart) (s : Sources) (plan : Plan)
    (manifest : Except GoError (List Byte)) (done : List Written) :
    Does κ b (fun t (_ : δ) => t₀.obj p.archive = none ∧ ∀ q, q ≠ p.archive → t.obj q = t₀.obj q)
      (writeContents h s p plan manifest done) (fun _ _ _ => True)
      (fun e t _ => e.code = "SOURCE_FILE_CHANGED" →
        (t₀.obj p.archive = none ∧ t₀.obj p.index = none) ∧ Writing p (fun _ => False) t₀ t) fun _ _ =>
        True := by
  have hupheld : Upheld κ b (fun t (_ : δ) => (t₀.obj p.archive = none ∧ t₀.obj p.index = none) ∧
      Writing p (fun _ => False) t₀ t) (fun _ _ => True) p :=
    ⟨fun _ _ _ => trivial,
      upholds_write (Unseen.and (fun _ _ ht _ _ _ => ht) (unseen_writing_archive hp)) fun _ _ _ => trivial,
      upholds_write (Unseen.and (fun _ _ ht _ _ _ => ht) unseen_writing_index) fun _ _ _ => trivial⟩
  refine Does.bind (R := fun _ t _ => (t₀.obj p.archive = none ∧ t₀.obj p.index = none) ∧
    Writing p (fun _ => False) t₀ t) ?_ fun _ => ?_
  · refine (codedIo_fails (by decide) (change_atOnce.post ?_ (fun _ _ _ ht => ht.1) fun _ _ _ => trivial)).post
      (fun _ _ _ hq => hq) (fun e t d hne he => absurd he hne) fun _ _ hc => hc
    intro _ t d ht
    obtain ⟨t', ⟨harchive, hsame⟩, hact⟩ := ht
    obtain ⟨hnone, hobj⟩ := Tree.create_ok hact
    have hfile : t.obj p.index = some (.file []) := by rw [hobj, Function.update_self]
    have hold : ∀ q, q ≠ p.archive → q ≠ p.index → t.obj q = t₀.obj q := by
      intro q hq hindex
      rw [hobj, Function.update_of_ne hindex]
      exact hsame q hq
    refine ⟨⟨harchive, (hsame _ hp.index.symm).symm.trans hnone⟩, ⟨?_, ?_, ?_⟩, ?_, ?_⟩
    · exact fun q hq hindex _ _ => hold q hq hindex
    · exact .inl (hold _ hp.copies.symm p.index_ne_copies.symm)
    · exact fun n => .inl (hold _ (hp.temporary n).symm (p.temporary_ne_index n))
    · exact t.parents p.cache _ _ hfile
    · rw [hfile]
      exact nofun
  · refine (hupheld.fill (fun entry number => ?_) plan manifest done).post (fun _ _ _ _ => trivial)
      (fun _ _ _ ht _ => ht) fun _ _ hc => hc
    have hdatabase : Upholds κ b (fun t (_ : δ) => Writing p (fun _ => False) t₀ t) (fun _ _ => True)
        (writeSQLite h p (s.online entry) entry (p.temporary number)) := writeSQLite_traces hclean hp _ entry number
    refine Does.start (fun _ _ ht => ht.1) fun hold => hdatabase.weaken ?_ ?_ ?_ ?_
    · exact fun _ _ ht => ht.2
    · exact fun _ _ _ ht => ⟨hold, ht⟩
    · exact fun _ _ _ ht => ⟨hold, ht⟩
    · exact fun _ _ hc => hc

theorem writeArchive_traces (hclean : Calm κ true) (hp : Places.Apart ⟨part.archive, cache⟩) (s : Sources)
    (plan : Plan)
    (manifest : Except GoError (List Byte)) :
    Does κ b (fun t (_ : δ) => t = t₀) (writeArchive h s base part cache plan manifest) (fun _ _ _ => True)
      (fun e t _ => e.code = "SOURCE_FILE_CHANGED" → Stopped ⟨part.archive, cache⟩ t₀ t) fun _ _ => True := by
  let p : Places := ⟨part.archive, cache⟩
  let K : Tree → Prop := fun t => t₀.obj p.archive = none ∧ ∀ q, q ≠ p.archive → t.obj q = t₀.obj q
  have hK : Unseen p.archive K := by
    intro t t' ht _ _ hsame
    exact ⟨ht.1, fun q hq => (hsame q hq).trans (ht.2 q hq)⟩
  have hfail : ∀ {e : GoError} {t : Tree}, e.code ≠ "SOURCE_FILE_CHANGED" → e.code = "SOURCE_FILE_CHANGED" →
      Stopped p t₀ t := fun hne he => absurd he hne
  refine Does.bind (R := fun _ t _ => K t) ((coded_fails (by decide) ?_).post (fun _ _ _ ht => ht)
    (fun _ _ _ hne => hfail hne) fun _ _ hc => hc) fun _ => ?_
  · refine Does.bind (always_ensureWithin.post (fun _ _ _ ht => ht) (fun _ _ _ _ => trivial) fun _ _ _ => trivial)
      fun _ => ?_
    refine Does.mapError (change_atOnce.post ?_ (fun _ _ _ _ => trivial) fun _ _ _ => trivial)
    intro _ t d ht
    obtain ⟨t', rfl, hact⟩ := ht
    obtain ⟨hnone, hobj⟩ := Tree.create_ok hact
    exact ⟨hnone, fun q hq => by rw [hobj, Function.update_of_ne hq]⟩
  refine Does.bind ((writeDirectories_unchanged hK plan.directories []).post (fun _ _ _ ht => ht)
    (fun _ _ _ hne => hfail hne) fun _ _ hc => hc) fun done => ?_
  have hnothing : Lasting (fun _ => True) fun (_ : Tree) (_ : δ) => True := fun _ _ _ _ _ => trivial
  refine Does.deferred (writeContents_traces hclean hp s plan manifest done) (fun _ => always_remove hnothing _)
    fun e => ?_
  refine change_atOnce.post ?_ ?_ fun _ _ _ => trivial
  · intro _ t d ht he
    obtain ⟨t', ht', hact⟩ := ht
    obtain ⟨hold, hwriting⟩ := ht' he
    obtain ⟨-, hdir, hobj⟩ := Tree.remove_ok hact
    obtain ⟨hnone, hkept⟩ := unseen_writing_index.update (o := none) hwriting hdir nofun hobj
    exact ⟨hold, hnone, hkept.1⟩
  · intro _ t d ht he
    obtain ⟨hold, hwriting⟩ := ht.1 he
    obtain ⟨hdir, -⟩ | ⟨hnone, -⟩ := Tree.remove_error (ht.2 hclean)
    · exact absurd hdir hwriting.2.2
    · exact ⟨hold, hnone, hwriting.1⟩

theorem discardArchive_traces (hp : Places.Apart ⟨part.archive, cache⟩) :
    Does κ b (fun t (_ : δ) => Stopped ⟨part.archive, cache⟩ t₀ t) (discardArchive base part)
      (fun _ t _ => t.obj part.archive = none ∧ Stopped ⟨part.archive, cache⟩ t₀ t) (fun _ _ _ => True)
      fun _ _ => True := by
  have hK : Unseen part.archive (Stopped ⟨part.archive, cache⟩ t₀) :=
    Unseen.and (fun _ _ ht _ _ _ => ht) ((unseen_obj hp.index.symm).and
      (unseen_trace hp.copies (.inl ⟨.inl rfl, fun n => (hp.temporary n).symm⟩)))
  refine Does.bind (always_ensureWithin.post (fun _ _ _ ht => ht) (fun _ _ _ _ => trivial) fun _ _ _ => trivial)
    fun _ => ?_
  have hremove := remove_does (δ := δ) (κ := κ) (b := b) (H := False) False.elim hK
  refine Does.bind (R := fun r t _ => (∀ u, r = .ok u →
    t.obj part.archive = none ∧ Stopped ⟨part.archive, cache⟩ t₀ t) ∧
      (r = .error .notExist → t.obj part.archive = none ∧ Stopped ⟨part.archive, cache⟩ t₀ t))
    (Does.attempt (hremove.weaken (fun _ _ ht => ⟨False.elim, ht⟩) ?_ ?_ fun _ _ _ => trivial)) fun r => ?_
  · exact fun _ _ _ ht => ⟨fun _ _ => ht, nofun⟩
  · intro e t d ht
    refine ⟨nofun, fun he => ?_⟩
    cases he
    obtain ⟨-, ht⟩ | ⟨hne, -⟩ := ht
    · exact ht
    · exact absurd rfl hne
  · split
    · exact Does.pure fun _ _ ht => ht.1 _ rfl
    · exact Does.pure fun _ _ ht => ht.2 rfl
    · exact Does.fail fun _ _ _ => trivial

/-! ## The second run -/

/-- As before the first run: no archive and no index, the copies that were there or fewer, and
all else the same, but for the directory of the copies. -/
structure Restored (p : Places) (t₀ t : Tree) : Prop where
  archive : t₀.obj p.archive = none ∧ t.obj p.archive = none
  index : t₀.obj p.index = none ∧ t.obj p.index = none
  temporary : ∀ n, t.obj (p.temporary n) = t₀.obj (p.temporary n) ∨
    (t₀.obj (p.temporary n) ≠ some .directory ∧ t.obj (p.temporary n) = none)
  copies : t.obj p.copies = t₀.obj p.copies ∨ (t₀.obj p.copies = none ∧ t.obj p.copies = some .directory)
  others : ∀ q, q ≠ p.archive → q ≠ p.index → q ≠ p.copies → (∀ n, q ≠ p.temporary n) →
    t.obj q = t₀.obj q

theorem Stopped.restored (h : Stopped p t₀ t) (harchive : t.obj p.archive = none) : Restored p t₀ t := by
  obtain ⟨⟨hold, holdIndex⟩, hindex, htrace⟩ := h
  refine ⟨⟨hold, harchive⟩, ⟨holdIndex, hindex⟩, fun n => ?_, htrace.copies, htrace.others⟩
  obtain hsame | ⟨hdir, -, hnone⟩ := htrace.temporary n
  · exact .inl hsame
  · exact .inr ⟨hdir, hnone id⟩

theorem Restored.directory {q : List String} (h : Restored p t₀ t) (hq : t₀.obj q = some .directory) :
    t.obj q = some .directory := by
  by_cases harchive : q = p.archive
  · rw [harchive, h.archive.1] at hq
    cases hq
  · by_cases hindex : q = p.index
    · rw [hindex, h.index.1] at hq
      cases hq
    · by_cases hcopies : q = p.copies
      · rw [hcopies] at hq ⊢
        obtain hsame | ⟨-, hdir⟩ := h.copies
        · rw [hsame]
          exact hq
        · exact hdir
      · by_cases htemporary : ∃ n, q = p.temporary n
        · obtain ⟨n, hn⟩ := htemporary
          rw [hn] at hq ⊢
          obtain hsame | ⟨hold, -⟩ := h.temporary n
          · rw [hsame]
            exact hq
          · exact absurd hq hold
        · rw [h.others q harchive hindex hcopies fun n hn => htemporary ⟨n, hn⟩]
          exact hq

/-- The second run finds what the first one found. -/
theorem Restored.free (h : Restored p t₀ t) (hfree : Free base p t₀) : Free base p t := by
  refine ⟨hfree.within, h.directory hfree.parent, h.archive.2, h.index.2, ?_, fun _ => ?_, fun _ n => ?_⟩
  · exact h.directory hfree.vacant.2.cache
  · obtain hsame | ⟨-, hdir⟩ := h.copies
    · rw [hsame]
      exact hfree.vacant.2.copies trivial
    · exact .inr hdir
  · obtain hsame | ⟨-, hnone⟩ := h.temporary n
    · rw [hsame]
      exact hfree.vacant.2.temporary trivial n
    · rw [hnone]
      exact nofun

end

/-- The archive is none of the files of the cache, which are called otherwise. -/
theorem apart_of_partial {base cache : List String} {id : String} {part : Partial}
    (hpart : part.archive = partialPath base id ++ ["snapshot.zip"]) : Places.Apart ⟨part.archive, cache⟩ := by
  have hlast : ∀ {l : List String} {name : String}, part.archive = l ++ [name] → "snapshot.zip" = name := by
    intro l name he
    rw [hpart] at he
    have hends := congrArg List.getLast? he
    simpa using hends
  refine ⟨fun he => ?_, fun he => ?_, fun n he => ?_⟩
  · exact absurd (hlast he) (by decide +kernel)
  · exact absurd (hlast he) (by decide +kernel)
  · rw [Places.temporary_eq] at he
    have hchar := congrArg (fun name : String => name.toList.getLast?) (hlast he)
    simp [List.getLast?_append] at hchar

section
variable {h : Host} {base cache : List String} {part : Partial} {id : String} {s : Sources} {plan : Plan}
  {manifest : Except GoError (List Byte)}

/-- A run that is done has written the archive of its sources, wherever it began. -/
theorem writeArchive_writes (hp : Places.Apart ⟨part.archive, cache⟩) {m m' : Machine δ}
    (hdone : writeArchive h s base part cache plan manifest m = .done () m') :
    Complete h s plan manifest ∧
      m'.tree.obj part.archive = some (.file (archiveOf h.zip (records h s plan manifest))) := by
  have hspec : DoneIff m.fate m.cleaning False (Complete h s plan manifest)
      (fun t (_ : δ) => False → Free base ⟨part.archive, cache⟩ t)
        (writeArchive h s base part cache plan manifest)
      (fun _ t _ => t.obj part.archive = some (.file (archiveOf h.zip (records h s plan manifest)))) :=
    writeArchive_done False.elim hp s plan manifest
  have hrun := Does.run hspec (m := m) ⟨rfl, rfl, False.elim⟩
  rw [hdone] at hrun
  exact hrun.2.2

/-- Where nothing else fails, a run from a free place is done just if the sources are complete. -/
theorem writeArchive_calm (hp : Places.Apart ⟨part.archive, cache⟩) {t : Tree}
    (hfree : Free base ⟨part.archive, cache⟩ t)
    (d : δ) : Complete h s plan manifest ↔
      ∃ m', writeArchive h s base part cache plan manifest (Machine.calm t d) = .done () m' := by
  have hquiet : Quiet fun _ _ => .goes := fun _ _ => rfl
  have hspec : DoneIff (fun _ _ => .goes) false True (Complete h s plan manifest)
      (fun t (_ : δ) => True → Free base ⟨part.archive, cache⟩ t)
        (writeArchive h s base part cache plan manifest)
      (fun _ t _ => t.obj part.archive = some (.file (archiveOf h.zip (records h s plan manifest)))) :=
    writeArchive_done (fun _ => hquiet) hp s plan manifest
  have hiff := DoneIff.run hspec trivial (m := Machine.calm t d) ⟨rfl, rfl, fun _ => hfree⟩
  exact hiff.trans ⟨fun ⟨_, m', hm'⟩ => ⟨m', hm'⟩, fun ⟨m', hm'⟩ => ⟨(), m', hm'⟩⟩

/-- The sources of the run that is the last. -/
def lastSources (h : Host) (first second : Sources) (base : List String) (part : Partial) (cache : List String)
    (plan : Plan) (manifest : Except GoError (List Byte)) (m : Machine δ) : Sources :=
  match writeArchive h first base part cache plan manifest m with
  | .done _ _ => first
  | _ => second

/-- `writeWithRetry` is done with its first run, or with the second after the archive of the
first is discarded. -/
theorem writeWithRetry_last {first second : Sources} {m m' : Machine δ}
    (hdone : writeWithRetry h first second base part cache plan manifest m = .done () m') :
    ∃ m₀, writeArchive h (lastSources h first second base part cache plan manifest m) base part cache
      plan manifest m₀ =
      .done () m' := by
  unfold lastSources
  have hbind : Prog.bind (Prog.attempt (writeArchive h first base part cache plan manifest)) _ m = .done () m' := hdone
  unfold Prog.bind Prog.attempt at hbind
  cases hfirst : writeArchive h first base part cache plan manifest m with
  | done u m₁ =>
    rw [hfirst] at hbind
    have hsame : Outcome.done () m₁ = Outcome.done () m' := hbind
    cases hsame
    exact ⟨m, hfirst⟩
  | failed e m₁ =>
    rw [hfirst] at hbind
    simp only at hbind
    by_cases hcode : e.code ≠ "SOURCE_FILE_CHANGED"
    · rw [if_pos hcode] at hbind
      cases hbind
    · rw [if_neg hcode] at hbind
      have hrest : Prog.bind (coded "STORAGE_WRITE_FAILED" (discardArchive base part)) _ m₁ = .done () m' := hbind
      unfold Prog.bind at hrest
      cases hdiscard : (coded "STORAGE_WRITE_FAILED" (discardArchive base part) : Work δ Unit) m₁ with
      | done u m₂ =>
        rw [hdiscard] at hrest
        exact ⟨m₂, hrest⟩
      | failed e m₂ =>
        rw [hdiscard] at hrest
        cases hrest
      | crashed m₂ =>
        rw [hdiscard] at hrest
        cases hrest
  | crashed m₁ =>
    rw [hfirst] at hbind
    cases hbind

/-- What a first run leaves that met a changed source, once its archive is discarded. -/
theorem stopped_restored (hp : Places.Apart ⟨part.archive, cache⟩) {m m₁ m₂ : Machine δ}
    (hclean : Calm m.fate true)
    {e : GoError} (hrun : writeArchive h s base part cache plan manifest m = .failed e m₁)
    (hcode : e.code = "SOURCE_FILE_CHANGED") (hdiscard : discardArchive base part m₁ = .done () m₂) :
    Restored ⟨part.archive, cache⟩ m.tree m₂.tree := by
  have htraces : Does m.fate m.cleaning (fun t (_ : δ) => t = m.tree)
      (writeArchive h s base part cache plan manifest) (fun _ _ _ => True)
      (fun e t _ => e.code = "SOURCE_FILE_CHANGED" → Stopped ⟨part.archive, cache⟩ m.tree t) fun _ _ => True :=
    writeArchive_traces hclean hp s plan manifest
  have hfirst := htraces.run (m := m) ⟨rfl, rfl, rfl⟩
  rw [hrun] at hfirst
  have hgone : Does m₁.fate m₁.cleaning (fun t (_ : δ) => Stopped ⟨part.archive, cache⟩ m.tree t)
      (discardArchive base part) (fun _ t _ => t.obj part.archive = none ∧ Stopped ⟨part.archive, cache⟩ m.tree t)
      (fun _ _ _ => True) fun _ _ => True := discardArchive_traces hp
  have hsecond := hgone.run (m := m₁) ⟨rfl, rfl, hfirst.2.2 hcode⟩
  rw [hdiscard] at hsecond
  exact hsecond.2.2.2.restored hsecond.2.2.1

end

/-- Removals succeeding, the second run starts where the first one did, and where nothing else
fails it is done just if a run from there is. When `writeWithRetry` is done, a run of the
writer from empty directories with the sources of the last run would be, and each that is
writes the same archive. -/
theorem retry_leaves_no_trace (h : Host) (first second : Sources) (base : List String) {id : String} (part : Partial)
    (hpart : part.archive = partialPath base id ++ ["snapshot.zip"]) (cache : List String) (plan : Plan)
    (manifest : Except GoError (List Byte)) {m : Machine δ} (hclean : Calm m.fate true) :
    (∀ e m₁ m₂, writeArchive h first base part cache plan manifest m = .failed e m₁ →
      e.code = "SOURCE_FILE_CHANGED" → discardArchive base part m₁ = .done () m₂ →
        Restored ⟨part.archive, cache⟩ m.tree m₂.tree ∧
        (Free base ⟨part.archive, cache⟩ m.tree → ∀ d : δ,
          ((∃ m', writeArchive h second base part cache plan manifest (Machine.calm m₂.tree d) = .done () m') ↔
            ∃ m', writeArchive h second base part cache plan manifest (Machine.calm m.tree d) = .done () m'))) ∧
    ∀ m', writeWithRetry h first second base part cache plan manifest m = .done () m' →
      (∀ t (d : δ), Free base ⟨part.archive, cache⟩ t → ∃ m₀,
        writeArchive h (lastSources h first second base part cache plan manifest m) base part cache plan manifest
          (Machine.calm t d) = .done () m₀) ∧
      ∃ bytes, m'.tree.obj part.archive = some (.file bytes) ∧ ∀ m₀ m₀' : Machine δ,
        writeArchive h (lastSources h first second base part cache plan manifest m) base part cache plan manifest m₀ =
          .done () m₀' → m₀'.tree.obj part.archive = some (.file bytes) := by
  have hp : Places.Apart ⟨part.archive, cache⟩ := apart_of_partial hpart
  refine ⟨?_, ?_⟩
  · intro e m₁ m₂ hrun hcode hdiscard
    have hrestored := stopped_restored hp hclean hrun hcode hdiscard
    refine ⟨hrestored, fun hfree d => ?_⟩
    exact (writeArchive_calm hp (hrestored.free hfree) d).symm.trans (writeArchive_calm hp hfree d)
  · intro m' hdone
    obtain ⟨m₀, hlast⟩ := writeWithRetry_last hdone
    obtain ⟨hcomplete, hbytes⟩ := writeArchive_writes hp hlast
    refine ⟨fun t d hfree => (writeArchive_calm hp hfree d).mp hcomplete, _, hbytes, ?_⟩
    exact fun m₁ m₁' hrun => (writeArchive_writes hp hrun).2

/-! ### A file that changes while it is read -/

def quietHost : Host := ⟨Container.format, fun _ => .ok [1], fun _ => .ok [2]⟩

def noteEntry : Entry := ⟨["data", "notes"], "notes", 1⟩

def ledgerEntry : Entry := ⟨["data", "ledger.db"], "ledger.db", 2⟩

def notesPlan : Plan := ⟨⟨.backupable, 3, 2, 1, 0, []⟩, [], [noteEntry], [ledgerEntry], []⟩

/-- The sources of a run, with the size that the notes have when they are read. -/
def notesRead (size : Nat) : Sources where
  modified := fun _ => 0
  reading := fun _ => ⟨.ok (), .ok ⟨true, 1, 0, 7⟩, [5], none, .ok ⟨true, size, 0, 7⟩⟩
  online := fun _ => ⟨[⟨[8, 9], none, false, none⟩], none, none⟩
  indexBroken := none

def notesTree : Tree :=
  Tree.bare.withObjects [(["docs"], .directory), (["docs", "_partial"], .directory),
    (["docs", "_partial", "j"], .directory), (["cache"], .directory), (["cache", "j"], .directory)]

def notesPart : Partial := ⟨"_partial/j", ["docs", "_partial", "j", "snapshot.zip"]⟩

/-- The notes change while the first run reads them, and no more after that. -/
def notesRun : Work Unit Unit :=
  writeWithRetry quietHost (notesRead 2) (notesRead 1) ["docs"] notesPart ["cache", "j"] notesPlan (.ok [3])

theorem retry_leaves_no_trace_notes : ∃ m' bytes, notesRun (Machine.calm notesTree ()) = .done () m' ∧
    m'.tree.obj notesPart.archive = some (.file bytes) ∧ ∀ m₀ m₀' : Machine Unit,
      writeArchive quietHost (notesRead 1) ["docs"] notesPart ["cache", "j"] notesPlan (.ok [3]) m₀ =
          .done () m₀' →
        m₀'.tree.obj notesPart.archive = some (.file bytes) := by
  have hends : (match notesRun (Machine.calm notesTree ()) with
      | .done _ _ => true
      | _ => false) = true := by decide +kernel
  have hchanged : (match writeArchive quietHost (notesRead 2) ["docs"] notesPart ["cache", "j"] notesPlan (.ok [3])
        (Machine.calm notesTree ()) with
      | .done _ _ => false
      | _ => true) = true := by decide +kernel
  have hpart : notesPart.archive = partialPath ["docs"] "j" ++ ["snapshot.zip"] := rfl
  have hlaw := retry_leaves_no_trace quietHost (notesRead 2) (notesRead 1) ["docs"] notesPart hpart ["cache", "j"]
    notesPlan (.ok [3]) (m := Machine.calm notesTree ()) fun _ => rfl
  have hlast : lastSources quietHost (notesRead 2) (notesRead 1) ["docs"] notesPart ["cache", "j"] notesPlan (.ok [3])
      (Machine.calm notesTree ()) = notesRead 1 := by
    unfold lastSources
    split
    · next u m₁ hrun =>
      rw [hrun] at hchanged
      cases hchanged
    · rfl
  cases hrun : notesRun (Machine.calm notesTree ()) with
  | done u m' =>
    obtain ⟨-, bytes, hbytes, hsame⟩ := hlaw.2 m' hrun
    rw [hlast] at hsame
    exact ⟨m', bytes, rfl, hbytes, hsame⟩
  | failed e m' =>
    rw [hrun] at hends
    cases hends
  | crashed m' =>
    rw [hrun] at hends
    cases hends

end AppBackup.Backup
