import AppBackup.Snapshots.Runs

/- How long does a deleted snapshot stay in the trash? `Cleanup` removes a directory from the
   trash by the time at which it was last modified, which a rename keeps, and a row by the time
   at which it was trashed. The two agree only where these times lie on the same side of the
   grace period: a snapshot that was older than that when it was deleted goes with the next
   clean-up, and its row stays.

   What is proved:
     1. `cleanup_does` -- what a clean-up takes, by the directory's time and by the row's;
     2. `Tidied.young`, `purge_row` -- what either of the two leaves;
     3. `trash_grace` -- hence the grace period is kept, and a row goes with its directory,
        exactly where the two are due together.

   `cleanup_ignores_trashed_at` is the snapshot that goes with the next clean-up. -/
namespace AppBackup.Snapshots.Service
open Program Disk Path Storage Persistence Backup Table Transition

/-! ## The rows that go -/

/-- The rows `DeleteTrashedBefore` deletes: up to the first statement that fails. -/
def purgeable (s : Store) (tenant : String) (before : Time) (fails : Statement → Bool) : List Snapshot :=
  if fails .trashedBefore then []
  else (s.trashedBefore tenant before).takeWhile fun item => !fails (.deleteTrashed item.id)

def purge (tenant : String) (items : List Snapshot) (s : Store) : Store :=
  items.foldl (fun s item => s.deleteTrashed tenant item.id) s

theorem mem_deleteTrashed {s : Store} {tenant id : String} {r : SnapshotRow} :
    r ∈ (s.deleteTrashed tenant id).snapshots ↔
      r ∈ s.snapshots ∧ ¬(r.tenantUid = tenant ∧ r.id = id ∧ r.retentionStatus = .trashed) := by
  show r ∈ s.snapshots.filter _ ↔ _
  rw [List.mem_filter, Bool.not_eq_true', ← Bool.not_eq_true, Bool.and_eq_true, Store.snapshotIn_iff, beq_iff_eq,
    and_assoc]

theorem mem_purge {tenant : String} {items : List Snapshot} {s : Store} {r : SnapshotRow} :
    r ∈ (purge tenant items s).snapshots ↔ r ∈ s.snapshots ∧
      ∀ item ∈ items, ¬(r.tenantUid = tenant ∧ r.id = item.id ∧ r.retentionStatus = .trashed) := by
  induction items generalizing s with
  | nil => simp [purge]
  | cons item rest ih =>
    show r ∈ (purge tenant rest (s.deleteTrashed tenant item.id)).snapshots ↔ _
    rw [ih, mem_deleteTrashed, List.forall_mem_cons, and_assoc]

/-- A row that goes is one of the tenant's that was trashed by then. -/
theorem purgeable_expired {s : Store} {tenant : String} {before : Time} {fails : Statement → Bool} {item : Snapshot}
    (h : item ∈ purgeable s tenant before fails) : ∃ r ∈ s.snapshots, r.id = item.id ∧ r.tenantUid = tenant ∧
      ∃ seconds, r.trashedAt = some seconds ∧ seconds ≤ unix before := by
  unfold purgeable at h
  split at h
  · cases h
  · obtain ⟨r, hr, rfl⟩ := List.mem_map.mp (List.takeWhile_sublist _ |>.mem h)
    obtain ⟨hmem, hby⟩ := List.mem_filter.mp hr
    unfold trashedBy at hby
    simp only [Bool.and_eq_true, beq_iff_eq] at hby
    obtain ⟨⟨hten, -⟩, hat⟩ := hby
    obtain ⟨seconds, hsome, hle⟩ := (Option.any_eq_true _ _).mp hat
    exact ⟨r, hmem, rfl, hten, seconds, hsome, of_decide_eq_true hle⟩

section
variable {κ : Fates} {b : Bool} {tenant : String} {t₁ : Tree} {fails : Statement → Bool}
  {modified : List String → Time}

/-- The rows go one by one until a statement fails. -/
theorem deleteEach_does (hcalm : Calm κ b) (items : List Snapshot) (s : Store) :
    Does κ b (fun t d => t = t₁ ∧ d = ⟨s, fails, modified⟩)
      (Prog.each items fun item => writing (.deleteTrashed item.id) fun s => .ok (s.deleteTrashed tenant item.id))
      (fun _ t d => t = t₁ ∧ d.store = purge tenant (items.takeWhile fun item => !fails (.deleteTrashed item.id)) s)
      (fun _ t d => t = t₁ ∧ d.store = purge tenant (items.takeWhile fun item => !fails (.deleteTrashed item.id)) s)
      (fun t _ => t = t₁) := by
  induction items generalizing s with
  | nil =>
    refine Does.pure fun t d h => ⟨h.1, ?_⟩
    rw [h.2]
    rfl
  | cons item rest ih =>
    refine Does.bind (R := fun _ t d => (t = t₁ ∧ d = ⟨s.deleteTrashed tenant item.id, fails, modified⟩) ∧
      fails (.deleteTrashed item.id) = false) (writing_does.post ?_ ?_ fun _ _ h => h.1) fun _ =>
        Does.start (fun _ _ h => h.2) fun hgoes => ?_
    · intro _ t d h
      obtain ⟨s', ⟨ht, hd⟩, hcall, hact⟩ := h
      have hstore := Except.ok.inj hact
      have hs : s' = s := congrArg Control.store hd
      have hfails : d.fails = fails := congrArg Control.fails hd
      have hmodified : d.modified = modified := congrArg Control.modified hd
      refine ⟨⟨ht, ?_⟩, hfails ▸ hcall⟩
      cases d with
      | mk store f m =>
        subst hfails
        subst hmodified
        rw [hs] at hstore
        exact congrArg (fun s => (⟨s, f, m⟩ : Control)) hstore.symm
    · intro _ t d h
      obtain ⟨⟨ht, rfl⟩, hstop⟩ := h
      obtain hfails | ⟨e, he⟩ := hstop hcalm
      · have hfails : fails (.deleteTrashed item.id) = true := hfails
        refine ⟨ht, ?_⟩
        rw [List.takeWhile_cons_of_neg (by simp [hfails])]
        rfl
      · cases he
    · rw [List.takeWhile_cons_of_pos (by simp [hgoes])]
      exact (ih (s.deleteTrashed tenant item.id)).pre fun _ _ h => h.1

theorem deleteTrashedBefore_store (hcalm : Calm κ b) {before : Time} (s : Store) :
    Does κ b (fun t d => t = t₁ ∧ d = ⟨s, fails, modified⟩) (deleteTrashedBefore tenant before)
      (fun _ t d => t = t₁ ∧ d.store = purge tenant (purgeable s tenant before fails) s)
      (fun _ t d => t = t₁ ∧ d.store = purge tenant (purgeable s tenant before fails) s) (fun t _ => t = t₁) := by
  refine Does.bind
    (R := fun items t d => ((t = t₁ ∧ d = ⟨s, fails, modified⟩) ∧ fails .trashedBefore = false) ∧
    items = s.trashedBefore tenant before) (reading_does.post ?_ ?_ fun _ _ h => h.1) fun items =>
      Does.start (fun _ _ h => h.2) fun hitems => Does.start (fun _ _ h => h.1.2) fun hgoes => ?_
  · intro items t d h
    obtain ⟨⟨ht, rfl⟩, hcall, hask⟩ := h
    exact ⟨⟨⟨ht, rfl⟩, hcall⟩, (Except.ok.inj hask).symm⟩
  · intro _ t d h
    obtain ⟨⟨ht, rfl⟩, hstop⟩ := h
    obtain hfails | ⟨e, he⟩ := hstop hcalm
    · refine ⟨ht, ?_⟩
      unfold purgeable
      rw [if_pos hfails]
      rfl
    · cases he
  · subst hitems
    have hrows : purgeable s tenant before fails =
        (s.trashedBefore tenant before).takeWhile fun item => !fails (.deleteTrashed item.id) := by
      unfold purgeable
      rw [if_neg (by rw [hgoes]; exact Bool.false_ne_true)]
    rw [hrows]
    exact Does.bind ((deleteEach_does hcalm _ s).pre fun _ _ h => h.1.1) fun _ => Does.pure fun _ _ h => h

end

/-! ## What a clean-up does -/

/-- Nothing is changed but old children of `_partial` and of `_trash`. -/
def Tidied (base : List String) (now : Time) (l : Library) (t : Tree) : Prop :=
  ∃ t₁, Trimmed l.modified (base ++ ["_partial"]) (now - 24 * hour) l.tree t₁ ∧
    Trimmed l.modified (base ++ ["_trash"]) (now - grace) t₁ t

theorem trash_apart {base : List String} (child id : String) :
    ¬base ++ ["_partial"] ++ [child] <+: base ++ ["_trash", id] := by
  intro hprefix
  rw [List.append_assoc] at hprefix
  have heq := ((List.prefix_append_right_inj base).mp hprefix).eq_of_length rfl
  simp at heq

theorem Tidied.young {base : List String} {now : Time} {l : Library} {t : Tree} (h : Tidied base now l t) {id : String}
    (hyoung : now - grace < l.modified (trashPath base id)) :
      t.obj (trashPath base id) = l.tree.obj (trashPath base id) := by
  obtain ⟨t₁, hpart, htrash⟩ := h
  have hpath : trashPath base id = base ++ ["_trash"] ++ [id] := by simp [trashPath]
  calc t.obj (trashPath base id) = t₁.obj (trashPath base id) := by
        rw [hpath] at hyoung ⊢
        exact htrash.young hyoung
    _ = l.tree.obj (trashPath base id) := hpart.elsewhere fun child => trash_apart child id

theorem Tidied.absent {base : List String} {now : Time} {l : Library} {t : Tree} (h : Tidied base now l t)
    {p : List String} (habsent : l.tree.obj p ≠ some .directory) : t.obj p ≠ some .directory := by
  obtain ⟨t₁, hpart, htrash⟩ := h
  obtain hsame | ⟨hnone, -⟩ := htrash p
  · obtain hsame' | ⟨hnone, -⟩ := hpart p
    · rw [hsame, hsame']
      exact habsent
    · rw [hsame, hnone]
      exact fun h => Option.some_ne_none _ h.symm
  · rw [hnone]
    exact fun h => Option.some_ne_none _ h.symm

theorem cleanup_does {κ : Fates} {b : Bool} (hcalm : Calm κ b) {base : List String} {names : String → List String}
    {tenant : String} {now : Time} {l : Library} {fails : Statement → Bool} :
    Does κ b (fun t d => t = l.tree ∧ d = ⟨l.store, fails, l.modified⟩) (cleanup base names tenant now)
      (fun _ t d => (Tidied base now l t ∧ ∀ name ∈ names "_trash", Proper name →
          l.tree.obj (trashPath base name) = some .directory → l.modified (trashPath base name) ≤ now - grace →
            t.obj (trashPath base name) = none) ∧
        d.store = purge tenant (purgeable l.store tenant (now - grace) fails) l.store)
      (fun _ t _ => Tidied base now l t) (fun t _ => Tidied base now l t) := by
  have hfirst : ∀ {t : Tree}, Trimmed l.modified (base ++ ["_partial"]) (now - 24 * hour) l.tree t →
      Tidied base now l t := fun h => ⟨_, h, Trimmed.refl _⟩
  refine Does.bind (Does.mapError ((removeExpiredChildren_does (.inl rfl)).post (fun _ _ _ h => h.1)
    (fun _ _ _ h => hfirst h.2) fun _ _ h => hfirst h.2)) fun partialRemoved => ?_
  refine Does.each_start fun t₁ d₁ h₁ => ?_
  obtain ⟨rfl, hpart⟩ := h₁
  have htrash : ∀ {t : Tree}, Trimmed l.modified (base ++ ["_trash"]) (now - grace) t₁ t → Tidied base now l t :=
    fun h => ⟨t₁, hpart, h⟩
  refine Does.bind (Does.mapError ((removeExpiredChildren_does (.inr rfl)).post (fun _ _ _ h => h)
    (fun _ _ _ h => htrash h.2) fun _ _ h => htrash h.2)) fun trashRemoved => ?_
  refine Does.each_start fun t₂ d₂ h₂ => ?_
  obtain ⟨⟨rfl, htrimmed⟩, hgone⟩ := h₂
  refine Does.bind (R := fun _ t d => t = t₂ ∧
      d.store = purge tenant (purgeable l.store tenant (now - grace) fails) l.store)
    (Does.attempt ((deleteTrashedBefore_store hcalm l.store).post (fun _ _ _ h => h) (fun _ _ _ h => h) ?_))
    fun _ => Does.pure ?_
  · intro t d h
    rw [h]
    exact htrash htrimmed
  · intro t d h
    rw [h.1]
    refine ⟨⟨htrash htrimmed, fun name hin hname hdir hage => hgone name hin hname ?_ hage⟩, h.2⟩
    rw [hpart.elsewhere fun child => trash_apart child name]
    exact hdir

/-! ## The grace period -/

/-- The listing of the trash has the directories of trashed snapshots. -/
def Listed (base : List String) (names : String → List String) (l : Library) : Prop :=
  ∀ r ∈ l.store.snapshots, r.retentionStatus = .trashed →
  l.tree.obj (base ++ split r.storagePath) = some .directory →
    r.id ∈ names "_trash"

/-- The directory of a row is not in the trash, or it was last modified before the grace
period. -/
def DirectoryDue (base : List String) (l : Library) (now : Time) (r : SnapshotRow) : Prop :=
  l.tree.obj (base ++ split r.storagePath) ≠ some .directory ∨
  l.modified (base ++ split r.storagePath) ≤ now - grace

/-- The row is one that `DeleteTrashedBefore` deletes. -/
def RowDue (l : Library) (tenant : String) (now : Time) (fails : Statement → Bool) (r : SnapshotRow) : Prop :=
  r.id ∈ (purgeable l.store tenant (now - grace) fails).map (·.id)

/-- Directories and rows of the trash are due together. -/
def DueTogether (base : List String) (l : Library) (tenant : String) (now : Time) (fails : Statement → Bool) : Prop :=
  ∀ r ∈ l.store.snapshots, r.retentionStatus = .trashed →
    (DirectoryDue base l now r ↔ RowDue l tenant now fails r)

/-- A row that is due was trashed before the grace period. -/
theorem RowDue.grace_over {l : Library} {tenant : String} {now : Time} {fails : Statement → Bool} {r : SnapshotRow}
    (hr : r ∈ l.store.snapshots) (h : RowDue l tenant now fails r) :
    r.tenantUid = tenant ∧ ∃ seconds, r.trashedAt = some seconds ∧ ofUnix seconds + grace ≤ now := by
  obtain ⟨item, hitem, hid⟩ := List.mem_map.mp h
  obtain ⟨r', hr', hid', hten, seconds, hat, hle⟩ := purgeable_expired hitem
  obtain rfl := eq_of_key l.store.snapshots_pk hr' hr (hid'.trans hid)
  refine ⟨hten, seconds, hat, ?_⟩
  have hsecond : seconds * second ≤ now - grace := by
    have hmul : (now - grace) / second * second ≤ now - grace := Int.ediv_mul_le _ (by decide)
    have hscale : seconds * second ≤ unix (now - grace) * second := Int.mul_le_mul_of_nonneg_right hle (by decide)
    exact Int.le_trans hscale hmul
  exact Int.add_le_of_le_sub_right hsecond

/-- The row of a trashed snapshot is there after the purge unless it was due. -/
theorem purge_row {l : Library} {tenant : String} {now : Time} {fails : Statement → Bool} {r : SnapshotRow}
    (hr : r ∈ l.store.snapshots) (hstatus : r.retentionStatus = .trashed) :
    (∃ r' ∈ (purge tenant (purgeable l.store tenant (now - grace) fails) l.store).snapshots, r'.id = r.id) ↔
      ¬RowDue l tenant now fails r := by
  refine ⟨fun h hdue => ?_, fun h => ⟨r, mem_purge.mpr ⟨hr, fun item hitem hrow => h ?_⟩, rfl⟩⟩
  · obtain ⟨r', hr', hid⟩ := h
    obtain ⟨hmem, hstays⟩ := mem_purge.mp hr'
    obtain rfl := eq_of_key l.store.snapshots_pk hmem hr hid
    obtain ⟨item, hitem, hsame⟩ := List.mem_map.mp hdue
    exact hstays item hitem ⟨(hdue.grace_over hr).1, hsame.symm, hstatus⟩
  · exact List.mem_map.mpr ⟨item, hitem, hrow.2.1.symm⟩

/-- In every run, a clean-up that finds directories and rows due together takes no directory of
a trashed snapshot before the grace period is over; and one that succeeds leaves each trashed
snapshot with both its row and its directory or with neither, exactly when it finds them so. -/
theorem trash_grace (v : Service) {l : Library} (h : Reach (next v) (fun _ _ => True) Vacant l)
    (names : String → List String) (tenant : String) (now : Time) (fails : Statement → Bool)
    (hlisted : Listed v.base names l) :
    (DueTogether v.base l tenant now fails → ∀ r ∈ l.store.snapshots, r.retentionStatus = .trashed →
      l.tree.obj (v.base ++ split r.storagePath) = some .directory →
      (cleanup v.base names tenant now (l.start fails)).state.tree.obj (v.base ++ split r.storagePath) ≠
        some .directory →
      ∃ seconds, r.trashedAt = some seconds ∧ ofUnix seconds + grace ≤ now) ∧
    ∀ result m, cleanup v.base names tenant now (l.start fails) = .done result m →
      ((∀ r ∈ l.store.snapshots, r.retentionStatus = .trashed →
        ((∃ r' ∈ m.data.store.snapshots, r'.id = r.id) ↔
          m.tree.obj (v.base ++ split r.storagePath) = some .directory)) ↔
        DueTogether v.base l tenant now fails) := by
  have hplaced := reach_placed h
  have hpath : ∀ r ∈ l.store.snapshots, r.retentionStatus = .trashed →
      v.base ++ split r.storagePath = trashPath v.base r.id := by
    intro r hr hstatus
    obtain ⟨hid, hstorage, -⟩ := hplaced r hr hstatus
    rw [hstorage, split_pair proper_trash hid]
    rfl
  have hdoes : Does (l.start fails).fate false (fun t d => t = l.tree ∧ d = ⟨l.store, fails, l.modified⟩)
      (cleanup v.base names tenant now) _ _ _ := cleanup_does (calm_start l fails false)
  have hout := hdoes.run (m := l.start fails) ⟨rfl, rfl, rfl, rfl⟩
  refine ⟨fun hdue r hr hstatus hdir hgone => ?_, fun result m hrun => ?_⟩
  · have htidied : Tidied v.base now l (cleanup v.base names tenant now (l.start fails)).state.tree := by
      cases hrun : cleanup v.base names tenant now (l.start fails) with
      | done a m => rw [hrun] at hout; exact hout.2.2.1.1
      | failed e m => rw [hrun] at hout; exact hout.2.2
      | crashed m => rw [hrun] at hout; exact hout.2.2
    have hold : l.modified (v.base ++ split r.storagePath) ≤ now - grace := by
      by_contra hyoung
      rw [hpath r hr hstatus] at hyoung hdir hgone
      exact hgone ((htidied.young (not_le.mp hyoung)).trans hdir)
    exact (((hdue r hr hstatus).mp (.inr hold)).grace_over hr).2
  · rw [hrun] at hout
    obtain ⟨⟨htidied, hgone⟩, hstore⟩ := hout.2.2
    -- a directory stays unless it is due
    have hdirectory : ∀ r ∈ l.store.snapshots, r.retentionStatus = .trashed →
        (m.tree.obj (v.base ++ split r.storagePath) = some .directory ↔ ¬DirectoryDue v.base l now r) := by
      intro r hr hstatus
      have hlist := hlisted r hr hstatus
      unfold DirectoryDue
      rw [hpath r hr hstatus] at hlist ⊢
      refine ⟨fun hdir hdue => ?_, fun hdue => ?_⟩
      · by_cases hbefore : l.tree.obj (trashPath v.base r.id) = some .directory
        · have hold := hdue.resolve_left fun hne => hne hbefore
          rw [hgone r.id (hlist hbefore) (hplaced r hr hstatus).1 hbefore hold] at hdir
          cases hdir
        · exact htidied.absent hbefore hdir
      · rw [not_or, not_not, not_le] at hdue
        exact (htidied.young hdue.2).trans hdue.1
    rw [hstore]
    refine forall_congr' fun r => forall_congr' fun hr => forall_congr' fun hstatus => ?_
    rw [purge_row hr hstatus, hdirectory r hr hstatus, not_iff_not]
    exact Iff.comm

/-! ## A snapshot that is trashed eight days after it was made -/

theorem taken_row {base : List String} {l : Library} (h : taken base l = true) :
    (∃ r ∈ l.store.snapshots, place r = ("snapshot-1", "u", "_trash/snapshot-1", .trashed,
      some (unix (8 * 24 * hour)))) ∧
      l.tree.obj (trashPath base "snapshot-1") = some .directory ∧
      (cleanup base (fun _ => ["snapshot-1"]) "u" (8 * 24 * hour) (l.start fun _ => false)).state.tree.obj
        (trashPath base "snapshot-1") = none := by
  unfold taken at h
  simp only [Bool.and_eq_true, decide_eq_true_eq, beq_iff_eq] at h
  obtain ⟨⟨hplaces, hdir⟩, hgone⟩ := h
  refine ⟨List.mem_map.mp ?_, hdir, hgone⟩
  rw [hplaces]
  exact List.mem_singleton_self _

theorem mail_listed {base : List String} {l : Library} (h : taken base l = true) :
    Listed base (fun _ => ["snapshot-1"]) l := by
  intro r hr _ _
  unfold taken at h
  simp only [Bool.and_eq_true, decide_eq_true_eq] at h
  have hplace : place r ∈ l.store.snapshots.map place := List.mem_map_of_mem hr
  rw [h.1.1, List.mem_singleton] at hplace
  simp only [place, Prod.mk.injEq] at hplace
  rw [hplace.1]
  exact List.mem_singleton_self _

/-- The snapshot eight days after it was trashed. -/
theorem trash_grace_mail : ∃ l : Library,
    (∃ r ∈ l.store.snapshots, r.id = "snapshot-1" ∧ r.retentionStatus = .trashed) ∧
    ∀ result m, cleanup mailService.base (fun _ => ["snapshot-1"]) "u" (16 * 24 * hour) (l.start fun _ => false) =
      .done result m →
      ((∀ r ∈ l.store.snapshots, r.retentionStatus = .trashed →
        ((∃ r' ∈ m.data.store.snapshots, r'.id = r.id) ↔
          m.tree.obj (mailService.base ++ split r.storagePath) = some .directory)) ↔
        DueTogether mailService.base l "u" (16 * 24 * hour) fun _ => false) := by
  obtain ⟨stored, hbackup, -, -, -, trashed, htrash, htaken⟩ := mail_run
  have hreach : Reach (next mailService) (fun _ _ => True) Vacant trashed :=
    .next (.next (.start mailLibrary_vacant) trivial hbackup) trivial htrash
  obtain ⟨⟨r, hr, hplace⟩, -, -⟩ := taken_row htaken
  simp only [place, Prod.mk.injEq] at hplace
  exact ⟨trashed, ⟨r, hr, hplace.1, hplace.2.2.2.1⟩,
    (trash_grace mailService hreach _ "u" (16 * 24 * hour) (fun _ => false) (mail_listed htaken)).2⟩

/-- Nothing fails, and a clean-up takes the directory of a snapshot that was trashed just now. -/
theorem cleanup_ignores_trashed_at : ¬∀ (v : Service) (l : Library),
    Reach (next v) (fun _ a => ∀ c, a.fails c = false) Vacant l → ∀ names tenant now, Listed v.base names l →
      ∀ r ∈ l.store.snapshots, r.retentionStatus = .trashed →
        l.tree.obj (v.base ++ split r.storagePath) = some .directory →
        (cleanup v.base names tenant now (l.start fun _ => false)).state.tree.obj (v.base ++ split r.storagePath) ≠
          some .directory →
        ∃ seconds, r.trashedAt = some seconds ∧ ofUnix seconds + grace ≤ now := by
  intro h
  obtain ⟨stored, hbackup, -, -, -, trashed, htrash, htaken⟩ := mail_run
  have hreach : Reach (next mailService) (fun _ a => ∀ c, a.fails c = false) Vacant trashed :=
    .next (.next (.start mailLibrary_vacant) (fun _ => rfl) hbackup) (fun _ => rfl) htrash
  obtain ⟨⟨r, hr, hplace⟩, hdir, hgone⟩ := taken_row htaken
  simp only [place, Prod.mk.injEq] at hplace
  obtain ⟨hid, -, hstorage, hstatus, hat⟩ := hplace
  have hpath : mailService.base ++ split r.storagePath = trashPath mailService.base "snapshot-1" := by
    obtain ⟨hproper, hjoined, -⟩ := reach_placed hreach r hr hstatus
    rw [hjoined, split_pair proper_trash hproper, hid]
    rfl
  have hgone' : (cleanup mailService.base (fun _ => ["snapshot-1"]) "u" (8 * 24 * hour)
      (trashed.start fun _ => false)).state.tree.obj (mailService.base ++ split r.storagePath) ≠ some .directory := by
    rw [hpath, hgone]
    exact (Option.some_ne_none _).symm
  obtain ⟨seconds, hsome, hlate⟩ := h mailService trashed hreach _ "u" _ (mail_listed htaken) r hr hstatus
    (hpath ▸ hdir) hgone'
  rw [hat] at hsome
  obtain rfl := Option.some.inj hsome
  exact absurd hlate (by decide)

end AppBackup.Snapshots.Service
