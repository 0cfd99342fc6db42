import AppBackup.Lib.Transition
import Mathlib.Data.List.Basic
import Mathlib.Data.List.Find
import Mathlib.Logic.Function.Basic

/- The paged lists of the web client (`web/src/ui/live.ts`): `setFilter`, `movePage` and
   `refresh`, whose page requests may be out together and are answered in any order. `answer n`
   is the answer to the `n`-th request; that request, what `requestPage` and the caller then
   write, is one step. A component that is mounted and requests that succeed.

   What is proved, of any order in which filters, moves, refreshes and answers come:
     1. `Consistent.step` -- while answers come in order, the latest request has the filters in
        force, and what is shown answers the last one that is answered;
     2. `Walked.step` -- while moves are made from pages of the filters in force, too, each
        request asks for a position of its own filters;
     3. `shows_last` -- so with no request out the list shows the answer to the last.

   `swapped_shows_first` is the run in which two answers come the other way round. -/
namespace AppBackup.Web
open Transition

inductive PageKey where
  | applications
  | backups
  | batches
  | tasks
  | alerts
  | audit
  deriving DecidableEq

/-- `URLSearchParams`. -/
abbrev Params := List (String × String)

/-- `params.set`. -/
def setParam (name value : String) : Params → Params
  | [] => [(name, value)]
  | p :: rest => if p.1 = name then (name, value) :: rest.filter (·.1 != name) else p :: setParam name value rest

/-- `params.delete`. -/
def deleteParam (name : String) (params : Params) : Params := params.filter (·.1 != name)

/-- A cursor that is there and not empty. -/
def truthy (cursor : Option String) : Bool := cursor.any (· != "")

/-- What the server answers to a page request; `running` is the state of `sync`. -/
structure Page (α : Type) where
  items : List α
  nextCursor : Option String
  running : Bool

structure PageState (α : Type) where
  items : List α
  nextCursor : Option String
  history : List String
  cursor : Option String

def emptyPage {α : Type} : PageState α := ⟨[], none, [], none⟩

inductive Direction where
  | previous
  | next

/-- Who asks for a page: `movePage` with the page its closure has. -/
inductive Caller (α : Type) where
  | refresh
  | setFilter
  | movePage (direction : Direction) (current : PageState α)

/-- `target` of `movePage`. -/
def moveTarget {α : Type} (current : PageState α) : Direction → Option String
  | .next => current.nextCursor
  | .previous => current.history.getLast?

/-- The history that `movePage` writes. -/
def moveHistory {α : Type} (current : PageState α) : Direction → List String
  | .next => current.history ++ [current.cursor.getD ""]
  | .previous => current.history.dropLast

/-- A page request, with its place among all requests and the filters it is made with. -/
structure Request (α : Type) where
  id : Nat
  key : PageKey
  filters : Params
  caller : Caller α

/-- The argument `cursor` of `requestPage`. -/
def Caller.cursor {α : Type} : Caller α → Option String
  | .refresh => none
  | .setFilter => none
  | .movePage direction current => moveTarget current direction

/-- What is asked for. -/
def Request.params {α : Type} (r : Request α) : Params :=
  if truthy r.caller.cursor then setParam "cursor"
    (r.caller.cursor.getD "") r.filters else deleteParam "cursor" r.filters

/-- What `refresh` loads, one after the other. -/
inductive Load where
  | session
  | settings
  | overview
  | plans
  | storage
  | page (key : PageKey)
  deriving DecidableEq

def refreshLoads : List Load :=
  [.session, .settings, .page .applications, .overview, .plans, .page .tasks, .page .backups, .page .alerts,
    .page .batches, .storage, .page .audit]

/-- The lists and the filters, with the requests made, newest first, those not answered yet, and
what a refresh has still to load. -/
structure LiveData (α : Type) where
  pages : PageKey → PageState α
  filters : PageKey → Params
  requests : List (Request α)
  outstanding : List Nat
  refreshing : Option (List Load)

def LiveData.start {α : Type} : LiveData α := ⟨fun _ => emptyPage, fun _ => [("limit", "15")], [], [], none⟩

inductive LiveEvent where
  | refresh
  | setFilter (key : PageKey) (entries : List (String × Option String))
  | movePage (key : PageKey) (direction : Direction)
  | loaded
  | answered (n : Nat)

section
variable {α : Type}

/-- `requestPage`, up to the answer. -/
def requestPage (s : LiveData α) (key : PageKey) (caller : Caller α) : LiveData α :=
  { s with
    requests := ⟨s.requests.length, key, s.filters key, caller⟩ :: s.requests
    outstanding := s.requests.length :: s.outstanding }

/-- The refresh goes on with these loads. -/
def loadNext (s : LiveData α) : List Load → LiveData α
  | [] => { s with refreshing := none }
  | .page key :: rest => requestPage { s with refreshing := some (.page key :: rest) } key .refresh
  | load :: rest => { s with refreshing := some (load :: rest) }

/-- `setFilter`. -/
def applyFilter (params : Params) (entries : List (String × Option String)) : Params :=
  deleteParam "cursor" (entries.foldl (fun params entry =>
    if truthy entry.2 then setParam entry.1 (entry.2.getD "") params else deleteParam entry.1 params) params)

/-- The list after the answer to a request, by `requestPage` and its caller, or by `refresh`. -/
def commit (r : Request α) (page : Page α) (current : PageState α) : PageState α :=
  match r.caller with
  | .refresh => ⟨page.items, page.nextCursor, [], none⟩
  | .setFilter => ⟨page.items, page.nextCursor, [], none⟩
  | .movePage direction before =>
    let target := moveTarget before direction
    let latest : PageState α :=
      ⟨page.items, page.nextCursor, if truthy target then current.history else [], target⟩
    { latest with history := moveHistory before direction }

variable (answer : Nat → Page α)

def liveStep (s : LiveData α) : LiveEvent → Option (LiveData α)
  | .refresh => some (if s.refreshing.isSome then s else loadNext s refreshLoads)
  | .setFilter key entries =>
    some (requestPage { s with filters := Function.update s.filters key (applyFilter (s.filters key) entries) }
      key .setFilter)
  | .movePage key direction =>
    let current := s.pages key
    match direction with
    | .next => some (if truthy current.nextCursor then requestPage s key (.movePage .next current) else s)
    | .previous => some (requestPage s key (.movePage .previous current))
  | .loaded =>
    match s.refreshing with
    | some (.page _ :: _) => none
    | some (_ :: rest) => some (loadNext s rest)
    | _ => none
  | .answered n =>
    if n ∈ s.outstanding then
      (s.requests.find? (·.id == n)).map fun r =>
        let s := { s with
          outstanding := s.outstanding.filter (· != n)
          pages := Function.update s.pages r.key (commit r (answer n) (s.pages r.key)) }
        match r.caller with
        | .refresh =>
          -- the rest waits for the poller while applications are being discovered
          if r.key = .applications ∧ (answer n).running then { s with refreshing := none }
          else loadNext s (s.refreshing.getD []).tail
        | _ => s
    else none

/-! ## Which request a list shows -/

/-- The history of the position a request asks for. -/
def Caller.history : Caller α → List String
  | .refresh => []
  | .setFilter => []
  | .movePage direction current => moveHistory current direction

/-- The list that shows the answer to a request, at the position that was asked for. -/
def shown (r : Request α) : PageState α :=
  ⟨(answer r.id).items, (answer r.id).nextCursor, r.caller.history, r.caller.cursor⟩

theorem commit_eq (r : Request α) (current : PageState α) : commit r (answer r.id) current = shown answer r := by
  unfold commit shown
  cases r.caller with
  | refresh => rfl
  | setFilter => rfl
  | movePage direction before => rfl

/-- The request made last for a list. -/
def lastAsked (s : LiveData α) (key : PageKey) : Option (Request α) := s.requests.find? (·.key == key)

/-- The newest request for a list that has been answered. -/
def latest (s : LiveData α) (key : PageKey) : Option (Request α) :=
  s.requests.find? fun r => r.key == key && !s.outstanding.contains r.id

/-- The position of a request is walked to from a first page, page by page, with its own filters. -/
inductive Positioned (requests : List (Request α)) : Request α → Prop where
  | first {r : Request α} (h : r.caller = .refresh ∨ r.caller = .setFilter ∨
      r.caller = .movePage .previous emptyPage) :
      Positioned requests r
  | moved {r m : Request α} (hm : m ∈ requests) (hkey : m.key = r.key) (hfilters : m.filters = r.filters)
      (direction : Direction) (hcaller : r.caller = .movePage direction (shown answer m)) (h : Positioned requests m) :
      Positioned requests r

/-- The list shows the answer to the request made last for it, at the position that was asked for. -/
def Displays (s : LiveData α) (key : PageKey) : Prop :=
  match lastAsked s key with
  | none => s.pages key = emptyPage
  | some r => s.pages key = shown answer r ∧ r.filters = s.filters key

/-- The list shows the request made last for it: its answer, its filters and its position. -/
def ShowsLast (s : LiveData α) (key : PageKey) : Prop :=
  match lastAsked s key with
  | none => s.pages key = emptyPage
  | some r => s.pages key = shown answer r ∧ r.filters = s.filters key ∧ Positioned answer s.requests r

/-- An answer is not that of a request older than one already answered for its list. -/
def AnswersInOrder (s : LiveData α) : LiveEvent → Prop
  | .answered n => ∀ r ∈ s.requests.find? (·.id == n), ∀ l ∈ latest s r.key, l.id < n
  | _ => True

/-- A move that asks for a page is made from a page of the filters in force. -/
def MovesInForce (s : LiveData α) : LiveEvent → Prop
  | .movePage key .next => truthy (s.pages key).nextCursor = true → ∀ l ∈ latest s key, l.filters = s.filters key
  | .movePage key .previous => ∀ l ∈ latest s key, l.filters = s.filters key
  | _ => True

def InOrder (s : LiveData α) (event : LiveEvent) : Prop := AnswersInOrder s event ∧ MovesInForce s event

instance (s : LiveData α) : ∀ event, Decidable (AnswersInOrder s event)
  | .answered n =>
      inferInstanceAs (Decidable (∀ r ∈ s.requests.find? (·.id == n), ∀ l ∈ latest s r.key, l.id < n))
  | .refresh | .setFilter _ _ | .movePage _ _ | .loaded => inferInstanceAs (Decidable True)

instance (s : LiveData α) : ∀ event, Decidable (MovesInForce s event)
  | .movePage key .next => inferInstanceAs
    (Decidable (truthy (s.pages key).nextCursor = true → ∀ l ∈ latest s key, l.filters = s.filters key))
  | .movePage key .previous => inferInstanceAs (Decidable (∀ l ∈ latest s key, l.filters = s.filters key))
  | .refresh | .setFilter _ _ | .loaded | .answered _ => inferInstanceAs (Decidable True)

instance (s : LiveData α) (event : LiveEvent) : Decidable (InOrder s event) :=
  inferInstanceAs (Decidable (_ ∧ _))

/-- In a list ordered by decreasing keys the first hit is the one with the greatest key. -/
theorem find?_of_decreasing {β : Type} {key : β → Nat} {p : β → Bool} {rows : List β}
    (h : rows.Pairwise fun a b => key b < key a) {r : β} :
    rows.find? p = some r ↔ r ∈ rows ∧ p r = true ∧ ∀ r' ∈ rows, p r' = true → key r' ≤ key r := by
  induction rows with
  | nil => simp
  | cons a rows ih =>
    obtain ⟨hfirst, htail⟩ := List.pairwise_cons.mp h
    by_cases ha : p a = true
    · rw [List.find?_cons_of_pos ha]
      refine ⟨?_, ?_⟩
      · intro he
        obtain rfl := Option.some.inj he
        refine ⟨List.mem_cons_self .., ha, fun r' hr' _ => ?_⟩
        obtain rfl | hr' := List.mem_cons.mp hr'
        · exact Nat.le_refl _
        · exact Nat.le_of_lt (hfirst r' hr')
      · intro ⟨hr, _, hmax⟩
        obtain rfl | hr := List.mem_cons.mp hr
        · rfl
        · have hlt := hfirst r hr
          have hle := hmax a (List.mem_cons_self ..) ha
          omega
    · rw [List.find?_cons_of_neg ha, ih htail]
      refine ⟨?_, ?_⟩
      · intro ⟨hr, hp, hmax⟩
        refine ⟨List.mem_cons_of_mem _ hr, hp, fun r' hr' hp' => ?_⟩
        obtain rfl | hr' := List.mem_cons.mp hr'
        · exact absurd hp' ha
        · exact hmax r' hr' hp'
      · intro ⟨hr, hp, hmax⟩
        obtain rfl | hr := List.mem_cons.mp hr
        · exact absurd hp ha
        · exact ⟨hr, hp, fun r' hr' hp' => hmax r' (List.mem_cons_of_mem _ hr') hp'⟩

/-! ## The invariant -/

/-- The requests are numbered, the newest one for a list is made with the filters in force, and
each list shows the newest one answered. -/
structure Consistent (s : LiveData α) : Prop where
  order : s.requests.Pairwise fun a b => b.id < a.id
  below : ∀ r ∈ s.requests, r.id < s.requests.length
  filters : ∀ key, ∀ r ∈ lastAsked s key, r.filters = s.filters key
  pages : ∀ key, s.pages key = (latest s key).elim emptyPage (shown answer)

/-- Each request asks for a position of its own filters. -/
def Walked (s : LiveData α) : Prop := ∀ r ∈ s.requests, Positioned answer s.requests r

theorem consistent_start : Consistent answer (.start : LiveData α) := by
  refine ⟨List.Pairwise.nil, ?_, ?_, fun key => rfl⟩
  · intro r hr
    exact absurd hr List.not_mem_nil
  · intro key r hr
    exact absurd hr (by simp [lastAsked, LiveData.start])

variable {answer} {s s' : LiveData α} {r : Request α}

theorem Positioned.mono {requests requests' : List (Request α)} (h : Positioned answer requests r)
    (hsub : ∀ m ∈ requests, m ∈ requests') : Positioned answer requests' r := by
  induction h with
  | first h => exact .first h
  | moved hm hkey hfilters direction hcaller _ ih => exact .moved (hsub _ hm) hkey hfilters direction hcaller ih

theorem latest_requestPage (hbelow : ∀ r ∈ s.requests, r.id < s.requests.length) (key : PageKey)
    (caller : Caller α)
    (key' : PageKey) : latest (requestPage s key caller) key' = latest s key' := by
  unfold latest requestPage
  rw [List.find?_cons_of_neg (by simp)]
  refine List.find?_congr fun r hr => ?_
  have hlt := hbelow r hr
  simp [Nat.ne_of_lt hlt]

/-- A request with filters that come into force with it. -/
theorem Consistent.requestPage (h : Consistent answer s) (key : PageKey) (params : Params) (caller : Caller α) :
    Consistent answer (requestPage { s with filters := Function.update s.filters key params } key caller) := by
  refine ⟨?_, ?_, ?_, ?_⟩
  · exact List.pairwise_cons.mpr ⟨fun r hr => h.below r hr, h.order⟩
  · intro r hr
    show r.id < s.requests.length + 1
    obtain rfl | hr := List.mem_cons.mp hr
    · exact Nat.lt_succ_self _
    · exact Nat.lt_succ_of_lt (h.below r hr)
  · intro key' r hr
    show r.filters = Function.update s.filters key params key'
    change (_ :: s.requests).find? _ = some r at hr
    by_cases hkey : key' = key
    · subst hkey
      rw [List.find?_cons_of_pos (by simp)] at hr
      rw [← Option.some.inj hr]
    · rw [List.find?_cons_of_neg (by simpa using Ne.symm hkey)] at hr
      rw [Function.update_of_ne hkey]
      exact h.filters key' r hr
  · intro key'
    have hsame : latest (Web.requestPage { s with filters := Function.update s.filters key params } key caller) key' =
        latest s key' :=
      latest_requestPage (s := { s with filters := Function.update s.filters key params }) h.below key caller key'
    rw [hsame]
    exact h.pages key'

theorem Consistent.refreshing (h : Consistent answer s) (loads : Option (List Load)) :
    Consistent answer { s with refreshing := loads } :=
  ⟨h.order, h.below, h.filters, h.pages⟩

theorem Consistent.requestSame (h : Consistent answer s) (key : PageKey) (caller : Caller α) :
    Consistent answer (Web.requestPage s key caller) := by
  have hsame := h.requestPage key (s.filters key) caller
  rw [Function.update_eq_self] at hsame
  exact hsame

theorem Consistent.loadNext (h : Consistent answer s) (loads : List Load) : Consistent answer (loadNext s loads) := by
  unfold Web.loadNext
  split
  · exact h.refreshing none
  · exact (h.refreshing _).requestSame _ .refresh
  · exact h.refreshing _

theorem Walked.of_requests (h : Walked answer s) (hsame : s'.requests = s.requests) : Walked answer s' := by
  intro r hr
  rw [hsame] at hr ⊢
  exact h r hr

theorem Walked.requestPage (h : Walked answer s) {key : PageKey} {params : Params} {caller : Caller α}
    (hposition : Positioned answer s.requests ⟨s.requests.length, key, params, caller⟩) :
    Walked answer (requestPage { s with filters := Function.update s.filters key params } key caller) := by
  intro r hr
  obtain rfl | hr := List.mem_cons.mp hr
  · show Positioned answer _ ⟨s.requests.length, key, Function.update s.filters key params key, caller⟩
    rw [Function.update_self]
    exact hposition.mono fun m hm => List.mem_cons_of_mem _ hm
  · exact (h r hr).mono fun m hm => List.mem_cons_of_mem _ hm

theorem Walked.requestSame (h : Walked answer s) {key : PageKey} {caller : Caller α}
    (hposition : Positioned answer s.requests ⟨s.requests.length, key, s.filters key, caller⟩) :
    Walked answer (Web.requestPage s key caller) := by
  have hsame := h.requestPage hposition
  rw [Function.update_eq_self] at hsame
  exact hsame

theorem Walked.loadNext (h : Walked answer s) (loads : List Load) : Walked answer (loadNext s loads) := by
  unfold Web.loadNext
  split
  · exact h
  · exact (h.of_requests rfl).requestSame (.first (.inl rfl))
  · exact h

theorem Walked.position (hw : Walked answer s) (h : Consistent answer s) {key : PageKey}
    (hok : ∀ l ∈ latest s key, l.filters = s.filters key)
    {direction : Direction} (hdirection : direction = .next → truthy (s.pages key).nextCursor = true) :
    Positioned answer s.requests ⟨s.requests.length, key, s.filters key, .movePage direction (s.pages key)⟩ := by
  have hpage := h.pages key
  cases hlatest : latest s key with
  | none =>
    rw [hlatest] at hpage
    change s.pages key = emptyPage at hpage
    cases direction with
    | previous =>
      refine .first (.inr (.inr ?_))
      rw [hpage]
    | next =>
      rw [hpage] at hdirection
      exact absurd (hdirection rfl) Bool.false_ne_true
  | some l =>
    rw [hlatest] at hpage
    have hl := List.mem_of_find?_eq_some hlatest
    have hkey := List.find?_some hlatest
    rw [Bool.and_eq_true, beq_iff_eq] at hkey
    refine .moved hl hkey.1 (hok l hlatest) direction ?_ (hw l hl)
    rw [hpage]
    rfl

/-- An answer newer than those before it. -/
theorem Consistent.commit (h : Consistent answer s) {n : Nat} (hr : s.requests.find? (·.id == n) = some r)
    (hok : ∀ l ∈ latest s r.key, l.id < n) :
    Consistent answer { s with
      outstanding := s.outstanding.filter (· != n)
      pages := Function.update s.pages r.key (Web.commit r (answer n) (s.pages r.key)) } := by
  obtain rfl : r.id = n := by simpa using List.find?_some hr
  have hin := List.mem_of_find?_eq_some hr
  -- requests have distinct numbers
  have hsame : ∀ a ∈ s.requests, a.id = r.id → a = r := by
    intro a ha hid
    have hlast : s.requests.find? (·.id == r.id) = some a := (find?_of_decreasing h.order).mpr
      ⟨ha, by simpa using hid, fun b _ hb => by
        have hb : b.id = r.id := by simpa using hb
        omega⟩
    exact Option.some.inj (hlast.symm.trans hr)
  refine ⟨h.order, h.below, h.filters, ?_⟩
  intro key
  by_cases hkey : key = r.key
  · subst hkey
    have hlatest : latest { s with
        outstanding := s.outstanding.filter (· != r.id)
        pages := Function.update s.pages r.key (Web.commit r (answer r.id) (s.pages r.key)) } r.key = some r := by
      refine (find?_of_decreasing h.order).mpr ⟨hin, by simp, ?_⟩
      intro a ha hanswered
      by_contra hlt
      have hne : a.id ≠ r.id := by omega
      have hbefore : (a.key == r.key && !s.outstanding.contains a.id) = true := by
        simpa [hne] using hanswered
      obtain ⟨l, hl⟩ : ∃ l, latest s r.key = some l :=
        Option.isSome_iff_exists.mp (List.find?_isSome.mpr ⟨a, ha, hbefore⟩)
      have hmax := ((find?_of_decreasing h.order).mp hl).2.2 a ha hbefore
      have hlow := hok l hl
      omega
    rw [hlatest]
    show Function.update s.pages r.key _ r.key = shown answer r
    rw [Function.update_self, commit_eq]
  · show Function.update s.pages r.key _ key = _
    rw [Function.update_of_ne hkey, h.pages key]
    congr 1
    refine List.find?_congr fun a ha => ?_
    by_cases hid : a.id = r.id
    · have hother : (a.key == key) = false := by
        rw [hsame a ha hid]
        simpa using Ne.symm hkey
      rw [hother, Bool.false_and, Bool.false_and]
    · simp [hid]

theorem Consistent.step (h : Consistent answer s) {event : LiveEvent} (hok : AnswersInOrder s event)
    (hs : liveStep answer s event = some s') : Consistent answer s' := by
  cases event with
  | refresh =>
    obtain rfl := Option.some.inj hs
    split
    · exact h
    · exact h.loadNext _
  | setFilter key entries =>
    obtain rfl := Option.some.inj hs
    exact h.requestPage key _ .setFilter
  | movePage key direction =>
    cases direction with
    | next =>
      obtain rfl := Option.some.inj hs
      split
      · exact h.requestSame key _
      · exact h
    | previous =>
      obtain rfl := Option.some.inj hs
      exact h.requestSame key _
  | loaded =>
    simp only [liveStep] at hs
    split at hs
    · cases hs
    · obtain rfl := Option.some.inj hs
      exact h.loadNext _
    · cases hs
  | answered n =>
    simp only [liveStep] at hs
    split at hs
    · obtain ⟨r, hr, rfl⟩ := Option.map_eq_some_iff.mp hs
      have hanswer := h.commit hr (hok r hr)
      split
      · split
        · exact hanswer.refreshing none
        · exact hanswer.loadNext _
      · exact hanswer
    · cases hs

theorem Walked.step (hw : Walked answer s) (h : Consistent answer s) {event : LiveEvent} (hok : MovesInForce s event)
    (hs : liveStep answer s event = some s') : Walked answer s' := by
  cases event with
  | refresh =>
    obtain rfl := Option.some.inj hs
    split
    · exact hw
    · exact hw.loadNext _
  | setFilter key entries =>
    obtain rfl := Option.some.inj hs
    exact hw.requestPage (.first (.inr (.inl rfl)))
  | movePage key direction =>
    cases direction with
    | next =>
      obtain rfl := Option.some.inj hs
      split
      · next hnext => exact hw.requestSame (hw.position h (hok hnext) fun _ => hnext)
      · exact hw
    | previous =>
      obtain rfl := Option.some.inj hs
      exact hw.requestSame (hw.position h hok fun he => by cases he)
  | loaded =>
    simp only [liveStep] at hs
    split at hs
    · cases hs
    · obtain rfl := Option.some.inj hs
      exact hw.loadNext _
    · cases hs
  | answered n =>
    -- an answer asks for no page but the next one of a refresh
    simp only [liveStep] at hs
    split at hs
    · obtain ⟨r, hr, rfl⟩ := Option.map_eq_some_iff.mp hs
      split
      · split
        · exact hw
        · refine Walked.loadNext ?_ _
          exact hw.of_requests rfl
      · exact hw
    · cases hs

/-! ## What is shown when the answers are in -/

/-- Where answers come in order, a list with no request out shows the answer to the one made last
for it, which has the filters in force; where moves are made from pages of the filters in force,
too, this request asks for a position of its own filters. -/
theorem shows_last (answer : Nat → Page α) {s : LiveData α}
    (h : Reach (liveStep answer) AnswersInOrder (· = .start) s) {key : PageKey}
    (hquiet : ∀ r ∈ s.requests, r.key = key → r.id ∉ s.outstanding) :
    Displays answer s key ∧ (Reach (liveStep answer) InOrder (· = .start) s → ShowsLast answer s key) := by
  have hI : ∀ {s : LiveData α}, Reach (liveStep answer) AnswersInOrder (· = .start) s → Consistent answer s :=
    fun h => h.invariant
      (fun s hs => by
        rw [hs]
        exact consistent_start answer)
      fun s event s' hI hok hs => hI.step hok hs
  have hlatest : latest s key = lastAsked s key := by
    refine List.find?_congr fun r hr => ?_
    by_cases hkey : r.key = key
    · simp [hkey, hquiet r hr hkey]
    · simp [hkey]
  have hpage := (hI h).pages key
  rw [hlatest] at hpage
  have hshown : Displays answer s key := by
    unfold Displays
    cases hlast : lastAsked s key with
    | none =>
      rw [hlast] at hpage
      exact hpage
    | some r =>
      rw [hlast] at hpage
      exact ⟨hpage, (hI h).filters key r hlast⟩
  refine ⟨hshown, fun horder => ?_⟩
  have hwalked : Consistent answer s ∧ Walked answer s := by
    refine horder.invariant (I := fun s => Consistent answer s ∧ Walked answer s) (fun s hs => ?_)
      fun s event s' hI hok hs => ⟨hI.1.step hok.1 hs, hI.2.step hI.1 hok.2 hs⟩
    rw [hs]
    exact ⟨consistent_start answer, fun r hr => absurd hr List.not_mem_nil⟩
  unfold ShowsLast
  unfold Displays at hshown
  cases hlast : lastAsked s key with
  | none =>
    rw [hlast] at hshown
    exact hshown
  | some r =>
    rw [hlast] at hshown
    exact ⟨hshown.1, hshown.2, hwalked.2 r (List.mem_of_find?_eq_some hlast)⟩

end

/-- Each answer has the number of its request as its only item. -/
def numbered (n : Nat) : Page Nat := ⟨[n], some "c", false⟩

/-- A filter, its answer, a move to the next page and its answer. -/
def filterThenMove : List LiveEvent :=
  [.setFilter .tasks [("status", some "FAILED")], .answered 0, .movePage .tasks .next, .answered 1]

theorem shows_last_filterThenMove :
    ShowsLast numbered (final (liveStep numbered) .start filterThenMove) .tasks ∧
      (final (liveStep numbered) .start filterThenMove).pages .tasks = ⟨[1], some "c", [""], some "c"⟩ := by
  have hquiet : ∀ r ∈ (final (liveStep numbered) .start filterThenMove).requests, r.key = .tasks →
      r.id ∉ (final (liveStep numbered) .start filterThenMove).outstanding :=
    fun r _ _ hout => List.not_mem_nil hout
  have hanswers : Reach (liveStep numbered) AnswersInOrder (· = .start)
      (final (liveStep numbered) .start filterThenMove) :=
    reach_final (fun s event (h : decide (AnswersInOrder s event) = true) => of_decide_eq_true h) filterThenMove rfl
      (by decide)
  refine ⟨(shows_last numbered hanswers hquiet).2 ?_, rfl⟩
  exact reach_final (fun s event (h : decide (InOrder s event) = true) => of_decide_eq_true h) filterThenMove rfl
    (by decide)

/-- Two filters whose answers come the other way round. -/
def answersSwapped : List LiveEvent :=
  [.setFilter .tasks [("status", some "FAILED")], .setFilter .tasks [("status", some "RUNNING")], .answered 1,
   .answered 0]

/-- The list shows the answer to the first filter, while the second one is in force. -/
theorem swapped_shows_first :
    ∃ s, runActions (liveStep numbered) .start answersSwapped = some s ∧ s.outstanding = [] ∧
      (s.pages .tasks).items = [0] ∧ s.filters .tasks = [("limit", "15"), ("status", "RUNNING")] ∧
      ¬ShowsLast numbered s .tasks := by
  refine ⟨final (liveStep numbered) .start answersSwapped, rfl, rfl, rfl, rfl, ?_⟩
  intro h
  have hitems : [0] = [1] := congrArg PageState.items h.1
  exact absurd hitems (by decide)

end AppBackup.Web
