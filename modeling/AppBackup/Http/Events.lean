import AppBackup.Lib.Decimal
import AppBackup.Lib.Transition
import AppBackup.Persistence.Operations

/- The event stream (`httpapi/phase5.go`, `events`). A connection starts at a cursor and
   polls the event log: it reads at most a hundred events above the last one it wrote,
   writes them one by one, and reads again. It may end at any point. A client connects
   anew with the id of the last event it was sent, or with the id it started from as long
   as it was sent none.

   The world is the log and the clients; appends, polls and single writes of any of them
   come in any order.

   What is proved:
     1. `openConnection_carries` -- a connection starts after the last event that was sent;
     2. `Following.step` -- a client stands in its tenant's events where its last one ended, and
        what it has polled comes next, whatever any client or the log does;
     3. `events_gapless` -- so none is missed and none is sent twice. -/
namespace AppBackup.Http
open Persistence Base64

/-- What the handler reads of a request: the `Last-Event-ID` header and the `after` parameter. -/
structure EventsRequest where
  lastEventID : List Byte
  after : List Byte

/-- `INVALID_EVENT_CURSOR`. -/
inductive CursorError where
  | invalidEventCursor
  deriving DecidableEq

/-- A parsed cursor is no negative number. -/
def parseCursor (raw : List Byte) : Option Int := (Decimal.parseInt raw).filter fun n => 0 ≤ n

/-- The cursor of a request; a header that is no cursor counts as none. -/
def eventCursor (request : EventsRequest) : Except CursorError (Option Int) :=
  if request.lastEventID ≠ [] then .ok (parseCursor request.lastEventID)
  else if request.after ≠ [] then
    match parseCursor request.after with
    | some n => .ok (some n)
    | none => .error .invalidEventCursor
  else .ok none

/-- A running handler: the last id it wrote, and the events of the last poll it has not yet
written. -/
structure Connection where
  after : Int
  pending : List Event

/-- A client: the tenant of its session, the id it started from, what it was sent on all its
connections, and the connection it has. -/
structure Client where
  tenant : String
  start : Int
  sent : List Event
  connection : Option Connection

/-- The last id the client was sent. -/
def Client.last (c : Client) : Int := (c.sent.getLast?.map (·.id)).getD c.start

/-- The request carries the id, in the header or else in the query. -/
def EventsRequest.carries (request : EventsRequest) (id : Int) : Bool :=
  request.lastEventID == Decimal.formatInt id ||
    (request.lastEventID == [] && request.after == Decimal.formatInt id)

structure World where
  operations : Operations
  clients : String → Option Client

def World.set (w : World) (name : String) (c : Client) : World :=
  { w with clients := fun other => if other = name then some c else w.clients other }

inductive Action where
  | append (tenant type data : String) (now : Time) (gap : Nat)
  | connect (name tenant : String) (request : EventsRequest)
  | reconnect (name : String) (request : EventsRequest)
  | poll (name : String)
  | write (name : String)
  | close (name : String)

/-- The handler before its loop. -/
def openConnection (operations : Operations) (tenant : String) (request : EventsRequest) :
    Except CursorError Connection :=
  match eventCursor request with
  | .error e => .error e
  | .ok none => .ok ⟨operations.latestEventID tenant, []⟩
  | .ok (some after) => .ok ⟨after, []⟩

/-- What an action makes of the client it is about. -/
def Client.step (operations : Operations) (c : Client) : Action → Option Client
  | .reconnect _ request =>
    if c.connection.isNone = true ∧ request.carries c.last = true then
      (openConnection operations c.tenant request).toOption.map fun opened =>
        { c with connection := some opened }
    else none
  | .poll _ =>
    match c.connection with
    | some ⟨after, []⟩ =>
      some { c with connection := some ⟨after, operations.eventsAfter c.tenant after 100⟩ }
    | _ => none
  | .write _ =>
    match c.connection with
    | some ⟨_, item :: rest⟩ =>
      some { c with sent := c.sent ++ [item], connection := some ⟨item.id, rest⟩ }
    | _ => none
  | .close _ => some { c with connection := none }
  | _ => none

def step (w : World) : Action → Option World
  | .append tenant type data now gap =>
    (w.operations.appendEvent tenant type data now gap).toOption.map fun operations =>
      { w with operations := operations }
  | .connect name tenant request =>
    if (w.clients name).isNone = true then
      (openConnection w.operations tenant request).toOption.map fun opened =>
        w.set name ⟨tenant, opened.after, [], some opened⟩
    else none
  | .reconnect name request => (w.clients name).bind fun c =>
      (c.step w.operations (.reconnect name request)).map (w.set name)
  | .poll name => (w.clients name).bind fun c =>
      (c.step w.operations (.poll name)).map (w.set name)
  | .write name => (w.clients name).bind fun c =>
      (c.step w.operations (.write name)).map (w.set name)
  | .close name => (w.clients name).bind fun c =>
      (c.step w.operations (.close name)).map (w.set name)

/-- No client has connected yet. -/
def initial (w : World) : Prop := ∀ name, w.clients name = none

def Reachable : World → Prop := Transition.Reach step (fun _ _ => True) initial

/-! ## The invariant -/

/-- The events of a tenant above an id. -/
def eventsAbove (operations : Operations) (tenant : String) (id : Int) : List Event :=
  (operations.events.filter fun e => e.tenantUid == tenant && decide (id < e.id)).map scanEvent

/-- What a client was sent and what its connection is about to write are the first events of
its tenant above the id it started from. -/
structure Following (operations : Operations) (c : Client) : Prop where
  start_fits : 0 ≤ c.start ∧ c.start < 2 ^ 63
  sent : c.sent <+: eventsAbove operations c.tenant c.start
  connection : ∀ conn, c.connection = some conn →
    conn.after = c.last ∧ c.sent ++ conn.pending <+: eventsAbove operations c.tenant c.start

theorem eventsAbove_sorted (operations : Operations) (tenant : String) (id : Int) :
    (eventsAbove operations tenant id).Pairwise fun e e' => e.id < e'.id := by
  unfold eventsAbove
  rw [List.pairwise_map]
  exact (List.pairwise_map.mp operations.events_pk).sublist List.filter_sublist

theorem mem_eventsAbove {operations : Operations} {tenant : String} {id : Int} {e : Event}
    (h : e ∈ eventsAbove operations tenant id) : id < e.id ∧ 0 < e.id ∧ e.id < 2 ^ 63 := by
  obtain ⟨r, hr, rfl⟩ := List.mem_map.mp h
  obtain ⟨hr, hguard⟩ := List.mem_filter.mp hr
  rw [Bool.and_eq_true, decide_eq_true_iff] at hguard
  have hle := operations.events_sequence r hr
  have hrange := operations.sequence_range
  refine ⟨hguard.2, operations.events_positive r hr, ?_⟩
  show r.id < 2 ^ 63
  omega

theorem eventsAbove_append {operations operations' : Operations} {tenant type data : String} {now : Time}
    {gap : Nat} (h : operations.appendEvent tenant type data now gap = .ok operations')
    (tenant' : String) (id : Int) :
    eventsAbove operations tenant' id <+: eventsAbove operations' tenant' id := by
  unfold eventsAbove
  rw [Operations.appendEvent_ok h, List.filter_append, List.map_append]
  exact List.prefix_append _ _

section
variable {operations : Operations} {c : Client}

theorem Client.last_snoc (c : Client) (item : Event) (conn : Option Connection) :
    ({ c with sent := c.sent ++ [item], connection := conn } : Client).last = item.id := by
  simp [last]

theorem Following.last_fits (h : Following operations c) : 0 ≤ c.last ∧ c.last < 2 ^ 63 := by
  unfold Client.last
  cases hlast : c.sent.getLast? with
  | none => exact h.start_fits
  | some e =>
    have hmem := mem_eventsAbove (h.sent.subset (List.mem_of_getLast? hlast))
    show 0 ≤ e.id ∧ e.id < 2 ^ 63
    omega

/-- What was sent lies above the start and up to the last id, the rest above the last id. -/
theorem Client.split {rest : List Event}
    (hrest : c.sent ++ rest = eventsAbove operations c.tenant c.start) :
    (∀ e ∈ c.sent, e.id ≤ c.last) ∧ ∀ e ∈ rest, c.last < e.id := by
  have hsorted := eventsAbove_sorted operations c.tenant c.start
  rw [← hrest] at hsorted
  obtain ⟨hsent, -, hbetween⟩ := List.pairwise_append.mp hsorted
  unfold Client.last
  cases hlast : c.sent.getLast? with
  | none =>
    rw [List.getLast?_eq_none_iff] at hlast
    refine ⟨by simp [hlast], ?_⟩
    intro e he
    have hmem : e ∈ eventsAbove operations c.tenant c.start := by
      rw [← hrest]
      exact List.mem_append_right _ he
    exact (mem_eventsAbove hmem).1
  | some item =>
    obtain ⟨before, hbefore⟩ := List.getLast?_eq_some_iff.mp hlast
    refine ⟨?_, ?_⟩
    · intro e he
      show e.id ≤ item.id
      rw [hbefore] at hsent he
      obtain he | he := List.mem_append.mp he
      · have hlt := (List.pairwise_append.mp hsent).2.2 e he item (List.mem_singleton_self _)
        omega
      · rw [List.mem_singleton.mp he]
    · intro e he
      exact hbetween item (List.mem_of_getLast? hlast) e he

/-- Above the last id is what has not been sent. -/
theorem Following.eventsAbove_last (h : Following operations c) {rest : List Event}
    (hrest : c.sent ++ rest = eventsAbove operations c.tenant c.start) :
    eventsAbove operations c.tenant c.last = rest := by
  obtain ⟨hsent, hafter⟩ := Client.split hrest
  have hle : c.start ≤ c.last := by
    unfold Client.last
    cases hlast : c.sent.getLast? with
    | none => exact Int.le_refl _
    | some e =>
      have hmem := (mem_eventsAbove (h.sent.subset (List.mem_of_getLast? hlast))).1
      show c.start ≤ e.id
      omega
  have hfilter : eventsAbove operations c.tenant c.last =
      (eventsAbove operations c.tenant c.start).filter fun e => decide (c.last < e.id) := by
    unfold eventsAbove
    rw [List.filter_map, List.filter_filter]
    congr 1
    apply List.filter_congr
    intro e _
    show _ = (decide (c.last < e.id) && _)
    by_cases hlt : c.last < e.id
    · have hstart : c.start < e.id := by omega
      simp [hlt, hstart]
    · simp [hlt]
  have hnone : c.sent.filter (fun e => decide (c.last < e.id)) = [] := by
    apply List.filter_eq_nil_iff.mpr
    intro e he
    have hle' := hsent e he
    simpa using hle'
  have hall : rest.filter (fun e => decide (c.last < e.id)) = rest := by
    apply List.filter_eq_self.mpr
    intro e he
    simpa using hafter e he
  rw [hfilter, ← hrest, List.filter_append, hnone, hall, List.nil_append]

end

/-! ## Steps -/

theorem ok_of_toOption {ε α : Type} {x : Except ε α} {a : α} (h : x.toOption = some a) : x = .ok a := by
  cases x with
  | error e => cases h
  | ok b => exact congrArg _ (Option.some.inj h)

theorem parseCursor_formatInt {id : Int} (h : 0 ≤ id ∧ id < 2 ^ 63) :
    parseCursor (Decimal.formatInt id) = some id := by
  have hfits : Decimal.Fits id := by
    unfold Decimal.Fits
    omega
  unfold parseCursor
  rw [Decimal.parseInt_formatInt hfits]
  simp [Option.filter, h.1]

theorem parseCursor_range {raw : List Byte} {id : Int} (h : parseCursor raw = some id) :
    0 ≤ id ∧ id < 2 ^ 63 := by
  unfold parseCursor at h
  obtain ⟨hparse, hpos⟩ := Option.filter_eq_some_iff.mp h
  exact ⟨of_decide_eq_true hpos, (Decimal.parseInt_fits hparse).2⟩

theorem eventCursor_range {request : EventsRequest} {id : Int} (h : eventCursor request = .ok (some id)) :
    0 ≤ id ∧ id < 2 ^ 63 := by
  unfold eventCursor at h
  by_cases hheader : request.lastEventID ≠ []
  · rw [if_pos hheader] at h
    exact parseCursor_range (Except.ok.inj h)
  · rw [if_neg hheader] at h
    by_cases hquery : request.after ≠ []
    · rw [if_pos hquery] at h
      cases hparse : parseCursor request.after with
      | none =>
        rw [hparse] at h
        cases h
      | some n =>
        rw [hparse] at h
        obtain rfl := Option.some.inj (Except.ok.inj h)
        exact parseCursor_range hparse
    · rw [if_neg hquery] at h
      cases h

/-- A connection starts at an id a 64-bit integer holds, with nothing to write. -/
theorem openConnection_range {operations : Operations} {tenant : String} {request : EventsRequest}
    {opened : Connection} (h : openConnection operations tenant request = .ok opened) :
    (0 ≤ opened.after ∧ opened.after < 2 ^ 63) ∧ opened.pending = [] := by
  unfold openConnection at h
  cases hcursor : eventCursor request with
  | error e =>
    rw [hcursor] at h
    cases h
  | ok cursor =>
    rw [hcursor] at h
    cases cursor with
    | none =>
      obtain rfl := Except.ok.inj h
      have hlatest := operations.latestEventID_range tenant
      have hrange := operations.sequence_range
      refine ⟨?_, rfl⟩
      show 0 ≤ operations.latestEventID tenant ∧ operations.latestEventID tenant < 2 ^ 63
      omega
    | some id =>
      obtain rfl := Except.ok.inj h
      exact ⟨eventCursor_range hcursor, rfl⟩

/-- A request that carries an id opens a connection there. -/
theorem openConnection_carries (operations : Operations) (tenant : String) {request : EventsRequest}
    {id : Int} (hid : 0 ≤ id ∧ id < 2 ^ 63) (h : request.carries id = true) :
    openConnection operations tenant request = .ok ⟨id, []⟩ := by
  have hne : Decimal.formatInt id ≠ [] := by
    intro hnil
    have hparse := parseCursor_formatInt hid
    rw [hnil] at hparse
    cases hparse
  have hcursor : eventCursor request = .ok (some id) := by
    unfold EventsRequest.carries at h
    simp only [Bool.or_eq_true, Bool.and_eq_true, beq_iff_eq] at h
    unfold eventCursor
    obtain hheader | ⟨hheader, hquery⟩ := h
    · rw [hheader, if_pos hne, parseCursor_formatInt hid]
    · rw [if_neg (not_not_intro hheader), hquery, if_pos hne, parseCursor_formatInt hid]
  unfold openConnection
  rw [hcursor]

theorem Following.append {operations operations' : Operations} {c : Client} {tenant type data : String}
    {now : Time} {gap : Nat} (h : Following operations c)
    (happend : operations.appendEvent tenant type data now gap = .ok operations') :
    Following operations' c where
  start_fits := h.start_fits
  sent := h.sent.trans (eventsAbove_append happend _ _)
  connection := by
    intro conn hconn
    obtain ⟨hafter, hpending⟩ := h.connection conn hconn
    exact ⟨hafter, hpending.trans (eventsAbove_append happend _ _)⟩

theorem Following.start {operations : Operations} {tenant : String} {request : EventsRequest}
    {opened : Connection} (h : openConnection operations tenant request = .ok opened) :
    Following operations ⟨tenant, opened.after, [], some opened⟩ where
  start_fits := (openConnection_range h).1
  sent := List.nil_prefix
  connection := by
    intro conn hconn
    obtain rfl := Option.some.inj hconn
    refine ⟨rfl, ?_⟩
    rw [(openConnection_range h).2]
    exact List.nil_prefix

theorem Following.poll {operations : Operations} {c : Client} (h : Following operations c) (limit : Int) :
    c.sent ++ operations.eventsAfter c.tenant c.last limit <+: eventsAbove operations c.tenant c.start := by
  obtain ⟨rest, hrest⟩ := h.sent
  have hread : ∃ n, operations.eventsAfter c.tenant c.last limit = rest.take n := by
    refine ⟨if limit ≤ 0 ∨ 100 < limit then 100 else limit.toNat, ?_⟩
    rw [← h.eventsAbove_last hrest]
    exact List.map_take
  obtain ⟨n, hn⟩ := hread
  rw [hn, ← hrest, List.prefix_append_right_inj]
  exact List.take_prefix n rest

/-- Every action of a client leaves it where it is in its tenant's events, or further. -/
theorem Following.step {operations : Operations} {c c' : Client} {a : Action}
    (h : Following operations c) (hs : c.step operations a = some c') : Following operations c' := by
  cases a with
  | append => cases hs
  | connect => cases hs
  | reconnect name request =>
    unfold Client.step at hs
    simp only at hs
    by_cases hguard : c.connection.isNone = true ∧ request.carries c.last = true
    · rw [if_pos hguard, openConnection_carries _ _ h.last_fits hguard.2] at hs
      obtain rfl := Option.some.inj hs
      refine ⟨h.start_fits, h.sent, ?_⟩
      intro conn hconn
      obtain rfl := Option.some.inj hconn
      refine ⟨rfl, ?_⟩
      rw [List.append_nil]
      exact h.sent
    · rw [if_neg hguard] at hs
      cases hs
  | poll name =>
    unfold Client.step at hs
    simp only at hs
    split at hs
    next after hconn =>
      obtain rfl := Option.some.inj hs
      obtain ⟨hafter, -⟩ := h.connection _ hconn
      refine ⟨h.start_fits, h.sent, ?_⟩
      intro conn hconn'
      obtain rfl := Option.some.inj hconn'
      refine ⟨hafter, ?_⟩
      show c.sent ++ operations.eventsAfter c.tenant after 100 <+: _
      rw [show after = c.last from hafter]
      exact h.poll 100
    next => cases hs
  | write name =>
    unfold Client.step at hs
    simp only at hs
    split at hs
    next after item rest hconn =>
      obtain rfl := Option.some.inj hs
      obtain ⟨-, hpending⟩ := h.connection _ hconn
      have hsplit : c.sent ++ item :: rest = (c.sent ++ [item]) ++ rest := by simp
      rw [show (⟨after, item :: rest⟩ : Connection).pending = item :: rest from rfl, hsplit] at hpending
      refine ⟨h.start_fits, (List.prefix_append _ _).trans hpending, ?_⟩
      intro conn hconn'
      obtain rfl := Option.some.inj hconn'
      exact ⟨(c.last_snoc item _).symm, hpending⟩
    next => cases hs
  | close name =>
    obtain rfl := Option.some.inj hs
    exact ⟨h.start_fits, h.sent, fun conn hconn => by cases hconn⟩

/-- Every client follows the events of its tenant. -/
def AllFollow (w : World) : Prop := ∀ name c, w.clients name = some c → Following w.operations c

theorem AllFollow.set {w : World} (h : AllFollow w) {name : String} {c : Client}
    (hc : Following w.operations c) : AllFollow (w.set name c) := by
  intro other c' hc'
  unfold World.set at hc'
  by_cases hname : other = name
  · simp only [if_pos hname] at hc'
    exact Option.some.inj hc' ▸ hc
  · simp only [if_neg hname] at hc'
    exact h other c' hc'

theorem AllFollow.client {w w' : World} (h : AllFollow w) {name : String} {a : Action}
    (hs : ((w.clients name).bind fun c => (c.step w.operations a).map (w.set name)) = some w') :
    AllFollow w' := by
  obtain ⟨c, hc, hs⟩ := Option.bind_eq_some_iff.mp hs
  obtain ⟨c', hstep, rfl⟩ := Option.map_eq_some_iff.mp hs
  exact h.set ((h name c hc).step hstep)

theorem AllFollow.step {w w' : World} {a : Action} (h : AllFollow w) (hs : step w a = some w') :
    AllFollow w' := by
  cases a with
  | append tenant type data now gap =>
    obtain ⟨operations, happend, rfl⟩ := Option.map_eq_some_iff.mp hs
    intro name c hc
    exact (h name c hc).append (ok_of_toOption happend)
  | connect name tenant request =>
    unfold Http.step at hs
    simp only at hs
    by_cases hnew : (w.clients name).isNone = true
    · rw [if_pos hnew] at hs
      obtain ⟨opened, hopened, rfl⟩ := Option.map_eq_some_iff.mp hs
      exact h.set (.start (ok_of_toOption hopened))
    · rw [if_neg hnew] at hs
      cases hs
  | reconnect name request => exact h.client hs
  | poll name => exact h.client hs
  | write name => exact h.client hs
  | close name => exact h.client hs

theorem Reachable.follow {w : World} (h : Reachable w) : AllFollow w := by
  refine Transition.Reach.invariant ?_ ?_ h
  · intro w hinit name c hc
    rw [hinit name] at hc
    cases hc
  · intro w a w' hw _ hs
    exact hw.step hs

/-! ## A gapless stream -/

/-- What a client was sent on all its connections: in the order of strictly increasing ids,
exactly the events of its tenant above the id it started from and up to the last it was sent. A
poll that finds nothing more to read means that it was sent all of them. -/
structure Gapless (operations : Operations) (c : Client) : Prop where
  increasing : (c.sent.map (·.id)).Pairwise (· < ·)
  exact : c.sent = (operations.events.filter fun e =>
    e.tenantUid == c.tenant && decide (c.start < e.id) && decide (e.id ≤ c.last)).map scanEvent
  complete : operations.eventsAfter c.tenant c.last 100 = [] →
    c.sent = eventsAbove operations c.tenant c.start

theorem Following.gapless {operations : Operations} {c : Client} (h : Following operations c) :
    Gapless operations c := by
  obtain ⟨rest, hrest⟩ := h.sent
  obtain ⟨hsent, hafter⟩ := Client.split hrest
  have hsorted := eventsAbove_sorted operations c.tenant c.start
  refine ⟨?_, ?_, ?_⟩
  · rw [← hrest] at hsorted
    rw [List.pairwise_map]
    exact (List.pairwise_append.mp hsorted).1
  · have hfilter : (operations.events.filter fun e =>
        e.tenantUid == c.tenant && decide (c.start < e.id) && decide (e.id ≤ c.last)).map scanEvent =
          (eventsAbove operations c.tenant c.start).filter fun e => decide (e.id ≤ c.last) := by
      unfold eventsAbove
      rw [List.filter_map, List.filter_filter]
      congr 1
      apply List.filter_congr
      intro e _
      exact Bool.and_comm _ _
    have hall : c.sent.filter (fun e => decide (e.id ≤ c.last)) = c.sent := by
      apply List.filter_eq_self.mpr
      intro e he
      simpa using hsent e he
    have hnone : rest.filter (fun e => decide (e.id ≤ c.last)) = [] := by
      apply List.filter_eq_nil_iff.mpr
      intro e he
      have hlt := hafter e he
      simpa using hlt
    rw [hfilter, ← hrest, List.filter_append, hall, hnone, List.append_nil]
  · intro hempty
    have hnone : (eventsAbove operations c.tenant c.last).take 100 = [] := by
      rw [← hempty]
      exact List.map_take.symm
    rw [h.eventsAbove_last hrest, List.take_eq_nil_iff] at hnone
    have hrestnil : rest = [] := hnone.resolve_left (by decide)
    rw [hrestnil, List.append_nil] at hrest
    exact hrest

/-- Whatever is appended, polled, written and closed in whatever order, no client misses an
event of its tenant, and none is sent twice. -/
theorem events_gapless {w : World} (h : Reachable w) {name : String} {c : Client}
    (hc : w.clients name = some c) : Gapless w.operations c :=
  (h.follow name c hc).gapless

/-- A browser that loses its connection between two events of its tenant. -/
def browserRun : List Action :=
  [.append "tenant-a" "task.updated" "{}" 0 0, .append "tenant-b" "task.updated" "{}" 0 0,
    .connect "browser" "tenant-a" ⟨[], utf8 "0"⟩, .poll "browser", .write "browser",
    .append "tenant-a" "alert.created" "{}" 0 0, .close "browser",
    .reconnect "browser" ⟨utf8 "1", utf8 "0"⟩, .poll "browser", .write "browser"]

def noClients : World := ⟨Operations.empty, fun _ => none⟩

theorem events_gapless_browser :
    ∃ c, (Transition.final step noClients browserRun).clients "browser" = some c ∧
      c.sent.map (·.id) = [1, 3] ∧
      Gapless (Transition.final step noClients browserRun).operations c := by
  have hreach : Reachable (Transition.final step noClients browserRun) :=
    @Transition.reach_final _ _ step _ initial (fun _ _ => true) (fun _ _ _ => trivial) _ browserRun
      (fun _ => rfl) (by decide +kernel)
  have hsome : (((Transition.final step noClients browserRun).clients "browser").map fun c =>
      c.sent.map (·.id)) = some [1, 3] := by decide +kernel
  obtain ⟨c, hc, hsent⟩ := Option.map_eq_some_iff.mp hsome
  exact ⟨c, hc, hsent, events_gapless hreach hc⟩

end AppBackup.Http
