import AppBackup.Auth.Login
import AppBackup.Lib.Potential

/- The tenant of a process (`tenant/scope.go`), as `main.go` wires it: the middleware
   `requireAPI` and the login callback bind the one shared scope to the gateway user of a
   session, and the services, the queue's workers and the scheduler read it back
   (`ForTenant`, `currentTenant`).

   A world is the login manager with its sessions, the scope, the requests in flight and the
   workers; a step is one of them going on. `calls` is for the reader only: the tenants of the
   calls to the store that this process has made for requests and background work. That
   `last_seen_at` is set with each lookup of a session is left out; nothing reads it.

   `tenant_bound` is the result: a scope that is bound stays so while the process lives, only
   the requests of its user are served, and every call of the process is for this user. -/
namespace AppBackup.Tenant
open Persistence Auth Transition

inductive BindError where
  | uidRequired | conflict
  deriving DecidableEq

/-- `Scope.Bind`: the scope that is left, or why it is not bound. -/
def bind (scope uid : String) : Except BindError String :=
  if Text.trimSpace uid = "" then .error .uidRequired
  else if scope ≠ "" ∧ scope ≠ Text.trimSpace uid then .error .conflict
  else .ok (Text.trimSpace uid)

/-- `ForTenant` binds the scope and drops the error. -/
def forTenant (scope uid : String) : String :=
  match bind scope uid with
  | .ok scope' => scope'
  | .error _ => scope

/-- `currentTenant` of a service whose own `tenantUID` is `own`. -/
def currentTenant (scope own : String) : String := if scope ≠ "" then scope else Text.trimSpace own

/-- `identity.Verify`. -/
def verify (values : List String) : Bool :=
  match values with
  | [] => false
  | first :: rest => first != "" && rest.all fun value => value != "" && value == first

/-- How a handler reaches a service: the shared one, which was made while the scope was empty
(plans, queue, backups, snapshots), a view through `ForTenant` (`snapshotsFor`), or a view that
is given the session's user (`catalogFor`, `operationsFor`). -/
inductive View where
  | shared | rebound | given

/-- The scope after a call of a handler, and the tenant of the call. -/
def handlerCall (scope : String) (session : Session) : View → String × String
  | .shared => (scope, currentTenant scope "")
  | .rebound => (forTenant scope session.gatewayUid,
      currentTenant (forTenant scope session.gatewayUid) session.gatewayUid)
  | .given => (scope, session.gatewayUid)

/-- `TaskUpdated` and `BatchUpdated` of the operations, made for the deployment. -/
def updatedTenant (deployment owner : String) : String :=
  if Text.trimSpace owner ≠ "" ∧ Text.trimSpace owner ≠ deployment then Text.trimSpace owner else deployment

/-- The callback `OnScopeInvalid` of `main.go`. -/
def scopeInvalidTenant (deployment scope : String) : String := if scope ≠ "" then scope else deployment

/-- A request past the lookup of its session, before and after the bind. -/
inductive Request where
  | authenticated (session : Session)
  | serving (session : Session)

structure World where
  auth : Auth.World
  scope : String
  welcoming : Nat → Option Session
  requests : Nat → Option Request
  workers : Nat → Option String
  calls : List String

/-- `Manager.Session`: the session of a cookie whose user is the one of the request, or whether
the cookie is given up. -/
def sessionOf (platform : Platform) (accounts : Accounts) (cookie header : String) (now : Time) :
    Except Bool Session :=
  if cookie = "" then .error false
  else
    match accounts.session (platform.hash cookie) now with
    | .error _ => .error false
    | .ok (session, _) => if verify [session.gatewayUid, header] then .ok session else .error true

inductive Action where
  | login (a : Auth.Action)
  | welcome (k : Nat)
  | arrive (k : Nat) (cookie header : String) (now : Time)
  | bindScope (k : Nat)
  | call (k : Nat) (view : View)
  | leave (k : Nat)
  | claim (j : Nat)
  | updated (j : Nat)
  | scopeInvalid (j : Nat)
  | done (j : Nat)
  | runDue

def Action.isRestart : Action → Bool
  | login (.restart _) => true
  | _ => false

namespace World

/-- The session a step of the login manager has made. -/
def made (w : World) (auth : Auth.World) : Option Session :=
  if w.auth.made.length < auth.made.length then auth.made.head?.map (·.session) else none

/-- A step of the login manager. A restart is one of the whole process; the session of a login
that completes is bound next. -/
def login (w : World) (auth : Auth.World) : Auth.Action → World
  | .restart _ => ⟨auth, Text.trimSpace "", fun _ => none, fun _ => none, fun _ => none, []⟩
  | .finish k _ _ _ => { w with auth := auth, welcoming := Function.update w.welcoming k (w.made auth) }
  | _ => { w with auth := auth }

/-- The end of the login callback: a session that cannot be bound is not handed out. -/
def welcome (w : World) (k : Nat) (session : Session) : World :=
  { w with scope := forTenant w.scope session.gatewayUid, welcoming := Function.update w.welcoming k none }

theorem welcome_auth (w : World) (k : Nat) (session : Session) : (w.welcome k session).auth = w.auth := by
  unfold welcome
  rfl

theorem welcome_scope (w : World) (k : Nat) (session : Session) :
    (w.welcome k session).scope = forTenant w.scope session.gatewayUid := by
  unfold welcome
  rfl

/-- `requireAPI` before the bind. -/
def arrive (platform : Platform) (w : World) (k : Nat) (cookie header : String) (now : Time) : World :=
  match sessionOf platform w.auth.accounts cookie header now with
  | .ok session => { w with requests := Function.update w.requests k (some (.authenticated session)) }
  | .error true => { w with auth := { w.auth with accounts := w.auth.accounts.deleteSession (platform.hash cookie) } }
  | .error false => w

/-- `requireAPI` from the bind on. -/
def bindScope (w : World) (k : Nat) (session : Session) : World :=
  match bind w.scope session.gatewayUid with
  | .ok scope => { w with scope := scope, requests := Function.update w.requests k (some (.serving session)) }
  | .error _ => { w with requests := Function.update w.requests k none }

def handle (w : World) (session : Session) (view : View) : World :=
  { w with scope := (handlerCall w.scope session view).1, calls := (handlerCall w.scope session view).2 :: w.calls }

theorem handle_scope (w : World) (session : Session) (view : View) :
    (w.handle session view).scope = (handlerCall w.scope session view).1 := by
  unfold handle
  rfl

/-- The tenant of a worker or of the scheduler, which do nothing while the scope is not bound. -/
def backgroundTenant (w : World) : Option String :=
  if currentTenant w.scope "" = "" then none else some (currentTenant w.scope "")

end World

def step (platform : Platform) (ttl : Time) (w : World) : Action → Option World
  | .login a => (Auth.step platform ttl w.auth a).map fun auth => w.login auth a
  | .welcome k => (w.welcoming k).map (w.welcome k)
  | .arrive k cookie header now => if (w.requests k).isNone then some (w.arrive platform k cookie header now) else none
  | .bindScope k =>
    match w.requests k with
    | some (.authenticated session) => some (w.bindScope k session)
    | _ => none
  | .call k view =>
    match w.requests k with
    | some (.serving session) => some (w.handle session view)
    | _ => none
  | .leave k => some { w with requests := Function.update w.requests k none }
  | .claim j =>
    if (w.workers j).isNone then
      w.backgroundTenant.map fun tenant =>
        { w with workers := Function.update w.workers j (some tenant), calls := tenant :: w.calls }
    else none
  | .updated j => (w.workers j).map fun owner => { w with calls := updatedTenant w.auth.scope owner :: w.calls }
  | .scopeInvalid j => (w.workers j).map fun _ => { w with calls := scopeInvalidTenant w.auth.scope w.scope :: w.calls }
  | .done j => some { w with workers := Function.update w.workers j none }
  | .runDue => w.backgroundTenant.map fun tenant => { w with calls := tenant :: w.calls }

/-- A process that has just started on an empty database. -/
def initial (w : World) : Prop :=
  Auth.initial w.auth ∧ w.scope = "" ∧ w.welcoming = (fun _ => none) ∧ w.requests = (fun _ => none) ∧
    w.workers = (fun _ => none) ∧ w.calls = []

def Reachable (platform : Platform) (ttl : Time) : World → Prop :=
  Reach (step platform ttl) (fun _ _ => True) initial

/-! ## Binding -/

theorem trimSpace_trimSpace (text : String) : Text.trimSpace (Text.trimSpace text) = Text.trimSpace text := by
  unfold Text.trimSpace Text.trim
  rw [String.toList_ofList, Text.trimChars_trimChars]

/-- The name of a gateway user as a login takes it over. -/
def Gateway (uid : String) : Prop := uid ≠ "" ∧ Text.trimSpace uid = uid

theorem bind_ok {scope uid scope' : String} (huid : Gateway uid) (h : bind scope uid = .ok scope') :
    scope' = uid ∧ (scope ≠ "" → scope = uid) := by
  unfold bind at h
  rw [huid.2, if_neg huid.1] at h
  by_cases hconflict : scope ≠ "" ∧ scope ≠ uid
  · rw [if_pos hconflict] at h
    cases h
  · rw [if_neg hconflict] at h
    refine ⟨(Except.ok.inj h).symm, fun hbound => ?_⟩
    by_contra hne
    exact hconflict ⟨hbound, hne⟩

theorem forTenant_cases (scope : String) {uid : String} (huid : Gateway uid) :
    forTenant scope uid = scope ∨ scope = "" ∧ forTenant scope uid = uid := by
  unfold forTenant
  cases hbind : bind scope uid with
  | error e => exact .inl rfl
  | ok scope' =>
    obtain ⟨rfl, hkept⟩ := bind_ok huid hbind
    by_cases hscope : scope = ""
    · exact .inr ⟨hscope, rfl⟩
    · exact .inl (hkept hscope).symm

theorem handlerCall_bound {session : Session} (huid : Gateway session.gatewayUid) (view : View) :
    handlerCall session.gatewayUid session view = (session.gatewayUid, session.gatewayUid) := by
  have hsame : forTenant session.gatewayUid session.gatewayUid = session.gatewayUid := by
    obtain hkept | ⟨hempty, -⟩ := forTenant_cases session.gatewayUid huid
    · exact hkept
    · exact absurd hempty huid.1
  cases view with
  | shared => simp [handlerCall, currentTenant, huid.1]
  | rebound => simp [handlerCall, hsame, currentTenant, huid.1]
  | given => rfl

/-! ## The invariant -/

theorem made_gateway {platform : Platform} {ttl : Time} {w : Auth.World} (h : Auth.Reachable platform ttl w) {m : Made}
    (hm : m ∈ w.made) : Gateway m.session.gatewayUid := by
  obtain ⟨htrim, -, hne⟩ := h.sound.singleUse.gateway m hm
  refine ⟨hne, ?_⟩
  rw [htrim, trimSpace_trimSpace]

/-- What holds of a process: the sessions it works with are of gateway users, and whatever it
serves, holds or has called is of the user its scope is bound to. -/
structure Bound (w : World) : Prop where
  scope : w.scope ≠ "" → Gateway w.scope
  welcoming : ∀ k session, w.welcoming k = some session → Gateway session.gatewayUid
  authenticated : ∀ k session, w.requests k = some (.authenticated session) → Gateway session.gatewayUid
  serving : ∀ k session, w.requests k = some (.serving session) → w.scope ≠ "" ∧ session.gatewayUid = w.scope
  workers : ∀ j tenant, w.workers j = some tenant → w.scope ≠ "" ∧ tenant = w.scope
  calls : ∀ tenant ∈ w.calls, w.scope ≠ "" ∧ tenant = w.scope

section
variable {platform : Platform} {ttl : Time} {w : World}

theorem Bound.rescope (h : Bound w) {uid : String} (huid : Gateway uid) :
    Bound { w with scope := forTenant w.scope uid } := by
  obtain hkept | ⟨hempty, hnew⟩ := forTenant_cases w.scope huid
  · rw [hkept]
    exact h
  · rw [hnew]
    refine ⟨fun _ => huid, h.welcoming, h.authenticated, ?_, ?_, ?_⟩
    · exact fun k session hk => absurd hempty (h.serving k session hk).1
    · exact fun j tenant hj => absurd hempty (h.workers j tenant hj).1
    · exact fun tenant ht => absurd hempty (h.calls tenant ht).1

/-- The session a lookup finds was made by a login. -/
theorem sessionOf_gateway {auth : Auth.World} (h : Auth.Reachable platform ttl auth) {cookie header : String}
    {now : Time}
    {session : Session} (hs : sessionOf platform auth.accounts cookie header now = .ok session) :
    Gateway session.gatewayUid := by
  unfold sessionOf at hs
  by_cases hcookie : cookie = ""
  · rw [if_pos hcookie] at hs
    cases hs
  · rw [if_neg hcookie] at hs
    cases hfind : auth.accounts.sessions.find?
        fun r => r.sessionHash == platform.hash cookie && decide (unix now < r.expiresAt) with
    | none => simp [Accounts.session, hfind] at hs
    | some r =>
      simp only [Accounts.session, hfind] at hs
      split at hs
      · obtain rfl := Except.ok.inj hs
        obtain ⟨m, hm, hr⟩ := h.sound.sessions r (List.mem_of_find?_eq_some hfind)
        have hsame : (scanSession r).gatewayUid = m.session.gatewayUid := by
          rw [hr]
          rfl
        rw [hsame]
        exact made_gateway h hm
      · cases hs

theorem Bound.login (h : Bound w) {a : Auth.Action} {auth : Auth.World} (hreach : Auth.Reachable platform ttl auth) :
    Bound (w.login auth a) := by
  cases a with
  | restart scope =>
    refine ⟨fun hscope => absurd rfl hscope, ?_, ?_, ?_, ?_, ?_⟩ <;> simp [World.login]
  | finish k answers now rawID =>
    refine ⟨h.scope, fun k' session hk => ?_, h.authenticated, h.serving, h.workers, h.calls⟩
    by_cases hkk : k' = k
    · subst hkk
      simp only [World.login, Function.update_self, World.made] at hk
      split at hk
      · obtain ⟨m, hm, rfl⟩ := Option.map_eq_some_iff.mp hk
        exact made_gateway hreach (List.mem_of_head? hm)
      · cases hk
    · simp only [World.login, Function.update_of_ne hkk] at hk
      exact h.welcoming k' session hk
  | login k request draw now => exact ⟨h.scope, h.welcoming, h.authenticated, h.serving, h.workers, h.calls⟩
  | create k now => exact ⟨h.scope, h.welcoming, h.authenticated, h.serving, h.workers, h.calls⟩
  | callback k request => exact ⟨h.scope, h.welcoming, h.authenticated, h.serving, h.workers, h.calls⟩
  | consume k now => exact ⟨h.scope, h.welcoming, h.authenticated, h.serving, h.workers, h.calls⟩
  | fail k => exact ⟨h.scope, h.welcoming, h.authenticated, h.serving, h.workers, h.calls⟩
  | logout rawID => exact ⟨h.scope, h.welcoming, h.authenticated, h.serving, h.workers, h.calls⟩

theorem Bound.welcome (h : Bound w) {k : Nat} {session : Session} (hk : w.welcoming k = some session) :
    Bound (w.welcome k session) := by
  have hbound := h.rescope (h.welcoming k session hk)
  refine ⟨hbound.scope, fun k' session' hk' => ?_, hbound.authenticated, hbound.serving, hbound.workers,
    hbound.calls⟩
  by_cases hkk : k' = k
  · subst hkk
    simp [World.welcome] at hk'
  · simp only [World.welcome, Function.update_of_ne hkk] at hk'
    exact h.welcoming k' session' hk'

/-- A request is changed to one of a gateway user, served only in a scope bound to this user. -/
theorem Bound.request (h : Bound w) (k : Nat) (x : Option Request)
    (hauth : ∀ session, x = some (.authenticated session) → Gateway session.gatewayUid)
    (hserve : ∀ session, x = some (.serving session) → w.scope ≠ "" ∧ session.gatewayUid = w.scope) :
    Bound { w with requests := Function.update w.requests k x } := by
  refine ⟨h.scope, h.welcoming, fun k' session hk' => ?_, fun k' session hk' => ?_, h.workers, h.calls⟩
  · by_cases hkk : k' = k
    · subst hkk
      exact hauth session (by simpa using hk')
    · simp only [Function.update_of_ne hkk] at hk'
      exact h.authenticated k' session hk'
  · by_cases hkk : k' = k
    · subst hkk
      exact hserve session (by simpa using hk')
    · simp only [Function.update_of_ne hkk] at hk'
      exact h.serving k' session hk'

theorem Bound.arrive (h : Bound w) (hreach : Auth.Reachable platform ttl w.auth) (k : Nat) (cookie header : String)
    (now : Time) : Bound (w.arrive platform k cookie header now) := by
  unfold World.arrive
  cases hs : sessionOf platform w.auth.accounts cookie header now with
  | ok session =>
    apply h.request
    · intro session' he
      obtain rfl := Request.authenticated.inj (Option.some.inj he)
      exact sessionOf_gateway hreach hs
    · intro session' he
      cases Option.some.inj he
  | error gone =>
    cases gone with
    | true => exact ⟨h.scope, h.welcoming, h.authenticated, h.serving, h.workers, h.calls⟩
    | false => exact h

theorem Bound.bindScope (h : Bound w) {k : Nat} {session : Session}
    (hk : w.requests k = some (.authenticated session)) :
    Bound (w.bindScope k session) := by
  have huid := h.authenticated k session hk
  unfold World.bindScope
  cases hbind : bind w.scope session.gatewayUid with
  | error e => exact h.request k none (fun _ he => by cases he) fun _ he => by cases he
  | ok scope =>
    obtain ⟨rfl, -⟩ := bind_ok huid hbind
    have hscope : forTenant w.scope session.gatewayUid = session.gatewayUid := by
      unfold forTenant
      rw [hbind]
    have hbound := h.rescope huid
    rw [hscope] at hbound
    apply hbound.request
    · intro session' he
      cases Option.some.inj he
    · intro session' he
      obtain rfl := Request.serving.inj (Option.some.inj he)
      exact ⟨huid.1, rfl⟩

theorem Bound.called (h : Bound w) {tenant : String} (hbound : w.scope ≠ "") (ht : tenant = w.scope) :
    Bound { w with calls := tenant :: w.calls } := by
  refine ⟨h.scope, h.welcoming, h.authenticated, h.serving, h.workers, fun tenant' hmem => ?_⟩
  obtain rfl | hold := List.mem_cons.mp hmem
  · exact ⟨hbound, ht⟩
  · exact h.calls tenant' hold

theorem Bound.handle (h : Bound w) {k : Nat} {session : Session} (hk : w.requests k = some (.serving session))
    (view : View) : Bound (w.handle session view) := by
  obtain ⟨hbound, huser⟩ := h.serving k session hk
  have hcall : handlerCall w.scope session view = (w.scope, w.scope) := by
    have huid : Gateway session.gatewayUid := huser ▸ h.scope hbound
    rw [← huser]
    exact handlerCall_bound huid view
  unfold World.handle
  rw [hcall]
  exact h.called hbound rfl

/-- What runs in the background runs for the user of the scope. -/
theorem backgroundTenant_eq {tenant : String} (hb : w.backgroundTenant = some tenant) :
    w.scope ≠ "" ∧ tenant = w.scope := by
  unfold World.backgroundTenant at hb
  by_cases hscope : w.scope = ""
  · have hnone : currentTenant w.scope "" = "" := by
      rw [hscope]
      rfl
    rw [if_pos hnone] at hb
    cases hb
  · have hsome : currentTenant w.scope "" = w.scope := by simp [currentTenant, hscope]
    rw [hsome, if_neg hscope] at hb
    exact ⟨hscope, (Option.some.inj hb).symm⟩

theorem updatedTenant_of_gateway {uid : String} (huid : Gateway uid) (deployment : String) :
    updatedTenant deployment uid = uid := by
  unfold updatedTenant
  rw [huid.2]
  split
  · rfl
  · next h =>
    by_contra hne
    exact h ⟨huid.1, Ne.symm hne⟩

/-- The login manager under a step of the process. -/
theorem step_auth {a : Action} {w' : World} (hs : step platform ttl w a = some w')
    (h : Auth.Reachable platform ttl w.auth) : Auth.Reachable platform ttl w'.auth := by
  cases a with
  | login a =>
    obtain ⟨auth, hauth, rfl⟩ := Option.map_eq_some_iff.mp hs
    have hsame : (w.login auth a).auth = auth := by cases a <;> rfl
    rw [hsame]
    exact .next h trivial hauth
  | welcome k =>
    obtain ⟨session, -, rfl⟩ := Option.map_eq_some_iff.mp hs
    rw [World.welcome_auth]
    exact h
  | arrive k cookie header now =>
    simp only [Tenant.step] at hs
    split at hs
    · obtain rfl := Option.some.inj hs
      unfold World.arrive
      split
      · exact h
      · -- the cookie is given up as by a logout
        have hlogout : Auth.step platform ttl w.auth (.logout cookie) =
            some { w.auth with accounts := w.auth.accounts.deleteSession (platform.hash cookie) } := rfl
        exact .next h trivial hlogout
      · exact h
    · cases hs
  | bindScope k =>
    simp only [Tenant.step] at hs
    split at hs
    · obtain rfl := Option.some.inj hs
      unfold World.bindScope
      split <;> exact h
    · cases hs
  | call k view =>
    simp only [Tenant.step] at hs
    split at hs
    · obtain rfl := Option.some.inj hs
      exact h
    · cases hs
  | leave k =>
    obtain rfl := Option.some.inj hs
    exact h
  | claim j =>
    simp only [Tenant.step] at hs
    split at hs
    · obtain ⟨tenant, -, rfl⟩ := Option.map_eq_some_iff.mp hs
      exact h
    · cases hs
  | updated j =>
    obtain ⟨owner, -, rfl⟩ := Option.map_eq_some_iff.mp hs
    exact h
  | scopeInvalid j =>
    obtain ⟨owner, -, rfl⟩ := Option.map_eq_some_iff.mp hs
    exact h
  | done j =>
    obtain rfl := Option.some.inj hs
    exact h
  | runDue =>
    obtain ⟨tenant, -, rfl⟩ := Option.map_eq_some_iff.mp hs
    exact h

theorem Bound.step {a : Action} {w' : World} (h : Bound w) (hreach : Auth.Reachable platform ttl w.auth)
    (hs : step platform ttl w a = some w') : Bound w' := by
  cases a with
  | login a =>
    obtain ⟨auth, hauth, rfl⟩ := Option.map_eq_some_iff.mp hs
    exact h.login (.next hreach trivial hauth)
  | welcome k =>
    obtain ⟨session, hk, rfl⟩ := Option.map_eq_some_iff.mp hs
    exact h.welcome hk
  | arrive k cookie header now =>
    simp only [Tenant.step] at hs
    split at hs
    · obtain rfl := Option.some.inj hs
      exact h.arrive hreach k cookie header now
    · cases hs
  | bindScope k =>
    simp only [Tenant.step] at hs
    split at hs
    · next session hk =>
      obtain rfl := Option.some.inj hs
      exact h.bindScope hk
    · cases hs
  | call k view =>
    simp only [Tenant.step] at hs
    split at hs
    · next session hk =>
      obtain rfl := Option.some.inj hs
      exact h.handle hk view
    · cases hs
  | leave k =>
    obtain rfl := Option.some.inj hs
    exact h.request k none (fun _ he => by cases he) fun _ he => by cases he
  -- a worker is bound to the scope it found when it claimed
  | claim j =>
    simp only [Tenant.step] at hs
    split at hs
    · obtain ⟨tenant, htenant, rfl⟩ := Option.map_eq_some_iff.mp hs
      obtain ⟨hbound, rfl⟩ := backgroundTenant_eq htenant
      have hcalled := h.called hbound rfl
      refine ⟨h.scope, h.welcoming, h.authenticated, h.serving, fun j' tenant hj => ?_, hcalled.calls⟩
      by_cases hjj : j' = j
      · subst hjj
        simp only [Function.update_self] at hj
        exact ⟨hbound, (Option.some.inj hj).symm⟩
      · simp only [Function.update_of_ne hjj] at hj
        exact h.workers j' tenant hj
    · cases hs
  | updated j =>
    obtain ⟨owner, hj, rfl⟩ := Option.map_eq_some_iff.mp hs
    obtain ⟨hbound, rfl⟩ := h.workers j owner hj
    exact h.called hbound (updatedTenant_of_gateway (h.scope hbound) _)
  | scopeInvalid j =>
    obtain ⟨owner, hj, rfl⟩ := Option.map_eq_some_iff.mp hs
    obtain ⟨hbound, -⟩ := h.workers j owner hj
    exact h.called hbound (if_pos hbound)
  | done j =>
    obtain rfl := Option.some.inj hs
    refine ⟨h.scope, h.welcoming, h.authenticated, h.serving, fun j' tenant hj => ?_, h.calls⟩
    by_cases hjj : j' = j
    · subst hjj
      simp at hj
    · simp only [Function.update_of_ne hjj] at hj
      exact h.workers j' tenant hj
  | runDue =>
    obtain ⟨tenant, htenant, rfl⟩ := Option.map_eq_some_iff.mp hs
    obtain ⟨hbound, he⟩ := backgroundTenant_eq htenant
    exact h.called hbound he

/-- A step that is no restart leaves a bound scope alone. -/
theorem step_scope {a : Action} {w' : World} (h : Bound w) (hlive : a.isRestart = false)
    (hs : step platform ttl w a = some w') (hbound : w.scope ≠ "") : w'.scope = w.scope := by
  -- `ForTenant` with a gateway user returns a bound scope unchanged
  have hkept : ∀ uid, Gateway uid → forTenant w.scope uid = w.scope := by
    intro uid huid
    obtain hkept | ⟨hempty, -⟩ := forTenant_cases w.scope huid
    · exact hkept
    · exact absurd hempty hbound
  cases a with
  | login a =>
    obtain ⟨auth, -, rfl⟩ := Option.map_eq_some_iff.mp hs
    cases a with
    | restart scope => cases hlive
    | _ => rfl
  | welcome k =>
    obtain ⟨session, hk, rfl⟩ := Option.map_eq_some_iff.mp hs
    rw [World.welcome_scope]
    exact hkept session.gatewayUid (h.welcoming k session hk)
  | arrive k cookie header now =>
    simp only [Tenant.step] at hs
    split at hs
    · obtain rfl := Option.some.inj hs
      unfold World.arrive
      split <;> rfl
    · cases hs
  | bindScope k =>
    simp only [Tenant.step] at hs
    split at hs
    · next session hk =>
      obtain rfl := Option.some.inj hs
      unfold World.bindScope
      cases hbind : bind w.scope session.gatewayUid with
      | error e => rfl
      | ok scope =>
        obtain ⟨rfl, hsame⟩ := bind_ok (h.authenticated k session hk) hbind
        exact (hsame hbound).symm
    · cases hs
  | call k view =>
    simp only [Tenant.step] at hs
    split at hs
    · next session hk =>
      obtain rfl := Option.some.inj hs
      obtain ⟨-, huser⟩ := h.serving k session hk
      have huid : Gateway session.gatewayUid := huser ▸ h.scope hbound
      rw [World.handle_scope, ← huser, handlerCall_bound huid]
    · cases hs
  | leave k =>
    obtain rfl := Option.some.inj hs
    rfl
  | claim j =>
    simp only [Tenant.step] at hs
    split at hs
    · obtain ⟨tenant, -, rfl⟩ := Option.map_eq_some_iff.mp hs
      rfl
    · cases hs
  | updated j =>
    obtain ⟨owner, -, rfl⟩ := Option.map_eq_some_iff.mp hs
    rfl
  | scopeInvalid j =>
    obtain ⟨owner, -, rfl⟩ := Option.map_eq_some_iff.mp hs
    rfl
  | done j =>
    obtain rfl := Option.some.inj hs
    rfl
  | runDue =>
    obtain ⟨tenant, -, rfl⟩ := Option.map_eq_some_iff.mp hs
    rfl

end

theorem Reachable.bound {platform : Platform} {ttl : Time} {w : World} (h : Reachable platform ttl w) :
    Auth.Reachable platform ttl w.auth ∧ Bound w := by
  refine Reach.invariant (I := fun w => Auth.Reachable platform ttl w.auth ∧ Bound w) (fun w hw => ?_)
    (fun _ _ _ hw _ hs => ⟨step_auth hs hw.1, hw.2.step hw.1 hs⟩) h
  obtain ⟨hauth, hscope, hwelcoming, hrequests, hworkers, hcalls⟩ := hw
  refine ⟨.start hauth, ?_, ?_, ?_, ?_, ?_, ?_⟩ <;> simp [*]

theorem Reachable.run {platform : Platform} {ttl : Time} {w w' : World} (h : Reachable platform ttl w)
    {as : List Action}
    (hrun : runActions (step platform ttl) w as = some w') : Reachable platform ttl w' := by
  induction as generalizing w with
  | nil =>
    obtain rfl := Option.some.inj hrun
    exact h
  | cons a rest ih =>
    obtain ⟨t, ht, hrest⟩ := Option.bind_eq_some_iff.mp hrun
    exact ih (.next h trivial ht) hrest

/-- Requests of any users, logins, workers and the scheduler in any order: once the scope is bound
it stays as it is until the process ends, every call that was made is for the user of the scope,
only this user's requests are served, and a request of another user is turned away. -/
theorem tenant_bound {platform : Platform} {ttl : Time} {w w' : World} (h : Reachable platform ttl w) (as : List Action)
    (hlive : ∀ a ∈ as, a.isRestart = false) (hrun : runActions (step platform ttl) w as = some w') :
    (w.scope ≠ "" → w'.scope = w.scope) ∧
    (∀ tenant ∈ w'.calls, tenant = w'.scope ∧ tenant ≠ "") ∧
    (∀ k session, w'.requests k = some (.serving session) → session.gatewayUid = w'.scope ∧ w'.scope ≠ "") ∧
    (∀ k session, w'.requests k = some (.authenticated session) → w'.scope ≠ "" →
      session.gatewayUid ≠ w'.scope →
      w'.bindScope k session = { w' with requests := Function.update w'.requests k none }) := by
  have hbound := (h.run hrun).bound.2
  refine ⟨?_, ?_, ?_, ?_⟩
  · clear hbound
    induction as generalizing w with
    | nil =>
      obtain rfl := Option.some.inj hrun
      exact fun _ => rfl
    | cons a rest ih =>
      obtain ⟨t, ht, hrest⟩ := Option.bind_eq_some_iff.mp hrun
      intro hscope
      have hone := step_scope h.bound.2 (hlive a (List.mem_cons_self ..)) ht hscope
      have htail := ih (.next h trivial ht) (fun b hb => hlive b (List.mem_cons_of_mem _ hb)) hrest
      rw [← hone]
      exact htail (hone ▸ hscope)
  · intro tenant ht
    obtain ⟨hscope, rfl⟩ := hbound.calls tenant ht
    exact ⟨rfl, hscope⟩
  · intro k session hk
    obtain ⟨hscope, huser⟩ := hbound.serving k session hk
    exact ⟨huser, hscope⟩
  · intro k session hk hscope hother
    unfold World.bindScope
    cases hbind : bind w'.scope session.gatewayUid with
    | error e => rfl
    | ok scope => exact absurd ((bind_ok (hbound.authenticated k session hk) hbind).2 hscope).symm hother

/-! ### Two users -/

def newServer : World := ⟨managerA, "", fun _ => none, fun _ => none, fun _ => none, []⟩

/-- The login of a user, up to its session. -/
def loginOf (k : Nat) (user state cookie : String) : List Action :=
  [.login (.login k ⟨user, "https://backup.example/auth/oidc/callback", "/"⟩
   ⟨state, "nonce-1", "verifier-1"⟩ 0),
   .login (.create k 0), .login (.callback k ⟨user, state, "code-1"⟩), .login (.consume k second),
   .login (.finish k answersA second cookie), .welcome k]

/-- The first user is served, the second one logs in and is turned away, a worker runs. -/
def twoUsers : List Action :=
  let ann : List Action := [.arrive 0 "session-1" "ann" second, .bindScope 0, .call 0 .shared]
  let bob : List Action := [.arrive 1 "session-2" "bob" second, .claim 0, .bindScope 1]
  let background : List Action := [.updated 0, .call 0 .given, .call 0 .rebound, .runDue]
  loginOf 0 "ann" "state-1" "session-1" ++ ann ++ loginOf 1 "bob" "state-2" "session-2" ++ bob ++ background

theorem tenant_bound_users :
    (final (step platformA (8 * 3600 * second)) newServer twoUsers).calls.length = 6 ∧
      ∀ tenant ∈ (final (step platformA (8 * 3600 * second)) newServer twoUsers).calls,
        tenant = (final (step platformA (8 * 3600 * second)) newServer twoUsers).scope ∧ tenant ≠ "" :=
  ⟨by decide +kernel, (tenant_bound (.start ⟨⟨"deploy-a", by decide, rfl⟩, rfl, rfl, rfl, rfl, rfl⟩) twoUsers
    (by decide +kernel) (runActions_final (by decide +kernel))).2.1⟩

end AppBackup.Tenant
