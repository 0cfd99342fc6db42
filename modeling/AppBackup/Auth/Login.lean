import AppBackup.Lib.Text
import AppBackup.Lib.Transition
import AppBackup.Persistence.Sessions

/- The OIDC login (`auth/manager.go`). A login start stores a transaction under the hash of
   a random state; the callback takes it out in one statement, asks the provider about the
   authorization code, and stores a session for the gateway user of its own request.

   The manager is a process: starts and callbacks of any users run next to each other,
   statement by statement, and a restart ends them all and may change the deployment. What
   the provider answers is part of the step; `url.Parse` and the hash are parameters. The
   lists `started`, `consumed` and `made` are no data of the program: they record which
   transaction a session came from, a transaction being the number of its start.

   What is proved:
     1. each statement of a login keeps `Sound` (`Sound.createStep`, `Sound.consumeStep`,
        `Sound.finishStep`): a transaction is consumed once, and what a callback holds is the
        transaction it took out;
     2. so do restarts and requests that come in between, whatever is running (`Sound.step`);
     3. `login_single_use` -- in every state reached, no transaction has given two sessions, and
        a session is one of the user in whose request it was made. -/
namespace AppBackup.Auth
open Persistence

/-- What is outside of the program: SHA-256 in hexadecimal, and whether `url.Parse` reads a text
as a URL that is not absolute. -/
structure Platform where
  hash : String → String
  relative : String → Bool

inductive AuthError where
  | codeRequired
  | gatewayIdentityRequired
  | store (err : StoreError)
  | exchangeCode
  | omittedIDToken
  | verifyIDToken
  | nonceMismatch
  | loadUserInfo
  | incompleteUserInfo
  | random
  deriving DecidableEq

def safeReturnTo (platform : Platform) (value : String) : String :=
  if value = "" ∨ Text.hasPrefix value "/" = false ∨ Text.hasPrefix value "//" = true then "/"
  else if platform.relative value = false then "/" else value

/-- The claims of a verified ID token the manager reads. -/
structure IDToken where
  nonce : String
  subject : String
  expiry : Option Time

structure UserInfo where
  subject : String
  uid : String
  name : String
  email : String
  groups : List String

/-- What the provider answers to the exchange of a code (a token with the ID token it came
with), the verification of that, and the request for the user. -/
structure Answers where
  exchange : Option (Option String)
  verify : String → Option IDToken
  userInfo : Option UserInfo

def roleFor (groups : List String) : Role := if groups.contains "ADMIN" then .admin else .normal

/-- The ID token and the user of an authorization code, once the token is verified and carries
the nonce of the transaction. A user without a subject takes that of the token. -/
def identify (transaction : LoginTransaction) (answers : Answers) : Except AuthError (IDToken × UserInfo) :=
  match answers.exchange with
  | none => .error .exchangeCode
  | some rawIDToken =>
    if rawIDToken.getD "" = "" then .error .omittedIDToken
    else
      match answers.verify (rawIDToken.getD "") with
      | none => .error .verifyIDToken
      | some idToken =>
        if idToken.nonce ≠ transaction.nonce then .error .nonceMismatch
        else
          match answers.userInfo with
          | none => .error .loadUserInfo
          | some user =>
            let subject := if user.subject = "" then idToken.subject else user.subject
            if subject = "" ∨ user.uid = "" then .error .incompleteUserInfo
            else .ok (idToken, { user with subject := subject })

/-- A session ends with its time to live, or with the ID token if that is earlier. -/
def sessionExpiry (ttl now : Time) : Option Time → Time
  | some expiry => if expiry < now + ttl then expiry else now + ttl
  | none => now + ttl

/-- `CompleteLogin` between the statement that consumes the transaction and the one that creates
the session. -/
def newSession (ttl : Time) (transaction : LoginTransaction) (gatewayUid : String) (answers : Answers)
    (now : Time) : Except AuthError Session :=
  match identify transaction answers with
  | .error e => .error e
  | .ok (idToken, user) =>
    .ok {
      subject := user.subject
      uid := user.uid
      gatewayUid := gatewayUid
      name := user.name
      email := user.email
      groups := user.groups
      role := roleFor user.groups
      tenantUid := gatewayUid
      createdAt := now
      expiresAt := sessionExpiry ttl now idToken.expiry }

/-- The request of a callback: the header `X-HC-User-ID` and the query. -/
structure CallbackRequest where
  header : String
  state : String
  code : String

/-- The gateway user of a callback, where the request is complete. -/
def callbackUser (request : CallbackRequest) : Except AuthError String :=
  if request.code = "" then .error .codeRequired
  else if Text.trimSpace request.header = "" then .error .gatewayIdentityRequired
  else .ok (Text.trimSpace request.header)

/-- The request of a login start. Its gateway user is read and not used. -/
structure LoginRequest where
  header : String
  redirectUri : String
  returnTo : String

/-- The random values of a login start. -/
structure LoginDraw where
  state : String
  nonce : String
  verifier : String

/-- `startLogin` after its purge: what it is about to store. -/
structure Starting where
  request : LoginRequest
  draw : LoginDraw

/-- A transaction as it was stored, with the number of its start. -/
structure Started where
  number : Nat
  user : String
  row : LoginRow

/-- A callback with the transaction it has taken. -/
structure Granted where
  number : Nat
  request : CallbackRequest
  gatewayUid : String
  consumedAt : Time
  row : LoginRow

inductive Callback where
  | idle
  | consuming (request : CallbackRequest) (gatewayUid : String)
  | exchanging (granted : Granted)

/-- A session with the callback it came from. -/
structure Made where
  granted : Granted
  scope : String
  session : Session

/-- The tables, the deployment the process runs as, and what it is doing. -/
structure World where
  accounts : Accounts
  scope : String
  starts : Nat → Option Starting
  callbacks : Nat → Callback
  started : List Started
  consumed : List Nat
  made : List Made

inductive Action where
  | restart (scope : String)
  | login (k : Nat) (request : LoginRequest) (draw : LoginDraw) (now : Time)
  | create (k : Nat) (now : Time)
  | callback (k : Nat) (request : CallbackRequest)
  | consume (k : Nat) (now : Time)
  | finish (k : Nat) (answers : Answers) (now : Time) (rawID : String)
  | fail (k : Nat)
  | logout (rawID : String)

def tenMinutes : Time := 10 * 60 * second

/-- The transaction a login start stores. -/
def Starting.transaction (platform : Platform) (scope : String) (x : Starting) (now : Time) :
    LoginTransaction where
  tenantUid := scope
  entranceUid := ""
  entranceRole := ""
  nonce := x.draw.nonce
  verifier := x.draw.verifier
  returnTo := safeReturnTo platform x.request.returnTo
  redirectUri := x.request.redirectUri
  expiresAt := now + tenMinutes

namespace World

def setStart (w : World) (k : Nat) (x : Option Starting) : World :=
  { w with starts := Function.update w.starts k x }

def setCallback (w : World) (k : Nat) (c : Callback) : World :=
  { w with callbacks := Function.update w.callbacks k c }

/-- The number of the start that last stored a row under a hash. -/
def numberOf (w : World) (stateHash : String) : Nat :=
  match w.started.find? fun e => e.row.stateHash == stateHash with
  | some e => e.number
  | none => w.started.length

/-- `CreateLoginTransaction`; when it is refused the start ends. -/
def createStep (platform : Platform) (w : World) (k : Nat) (x : Starting) (now : Time) : World :=
  let value := x.transaction platform w.scope now
  match w.accounts.createLoginTransaction (platform.hash x.draw.state) value with
  | .error _ => w.setStart k none
  | .ok accounts =>
    { w with
      accounts := accounts
      starts := Function.update w.starts k none
      started := ⟨w.started.length, x.request.header, loginRow (platform.hash x.draw.state) value⟩ ::
        w.started }

/-- `ConsumeLoginTransaction`. -/
def consumeStep (platform : Platform) (w : World) (k : Nat) (request : CallbackRequest)
    (gatewayUid : String) (now : Time) : World :=
  match w.accounts.consumeLoginTransaction (platform.hash request.state) w.scope now with
  | .error _ => w.setCallback k .idle
  | .ok (row, accounts) =>
    { w with
      accounts := accounts
      callbacks := Function.update w.callbacks k
        (.exchanging ⟨w.numberOf row.stateHash, request, gatewayUid, now, row⟩)
      consumed := w.numberOf row.stateHash :: w.consumed }

/-- The rest of `CompleteLogin`. -/
def finishStep (platform : Platform) (ttl : Time) (w : World) (k : Nat) (granted : Granted)
    (answers : Answers) (now : Time) (rawID : String) : World :=
  match newSession ttl (scanLogin granted.row) granted.gatewayUid answers now with
  | .error _ => w.setCallback k .idle
  | .ok session =>
    match w.accounts.createSession (platform.hash rawID) session with
    | .error _ => w.setCallback k .idle
    | .ok accounts =>
      { w with
        accounts := accounts
        callbacks := Function.update w.callbacks k .idle
        made := ⟨granted, w.scope, session⟩ :: w.made }

end World

def step (platform : Platform) (ttl : Time) (w : World) : Action → Option World
  | .restart scope =>
    if scope = "" then none
    else some { w with scope := scope, starts := fun _ => none, callbacks := fun _ => .idle }
  | .login k request draw now =>
    match w.starts k with
    | some _ => none
    | none => some ({ w with accounts := w.accounts.purgeExpiredLoginTransactions now }.setStart k
        (some ⟨request, draw⟩))
  | .create k now =>
    match w.starts k with
    | none => none
    | some x => some (w.createStep platform k x now)
  | .callback k request =>
    match w.callbacks k, callbackUser request with
    | .idle, .ok gatewayUid => some (w.setCallback k (.consuming request gatewayUid))
    | _, _ => none
  | .consume k now =>
    match w.callbacks k with
    | .consuming request gatewayUid => some (w.consumeStep platform k request gatewayUid now)
    | _ => none
  | .finish k answers now rawID =>
    match w.callbacks k with
    | .exchanging granted => some (w.finishStep platform ttl k granted answers now rawID)
    | _ => none
  | .fail k => some ((w.setStart k none).setCallback k .idle)
  | .logout rawID => some { w with accounts := w.accounts.deleteSession (platform.hash rawID) }

/-- A manager that has just started on an empty database. -/
def initial (w : World) : Prop :=
  ∃ scope, scope ≠ "" ∧ w = ⟨Accounts.empty, scope, fun _ => none, fun _ => .idle, [], [], []⟩

def Reachable (platform : Platform) (ttl : Time) : World → Prop :=
  Transition.Reach (step platform ttl) (fun _ _ => True) initial

/-! ## The invariant -/

/-- What a callback holds is a transaction that was started, of this deployment, taken before
its time was up, and the gateway user of the callback's own request. -/
def Grants (started : List Started) (scope : String) (granted : Granted) : Prop :=
  (∃ e ∈ started, e.number = granted.number ∧ e.row = granted.row) ∧ granted.row.tenantUid = scope ∧
    unix granted.consumedAt < granted.row.expiresAt ∧
    callbackUser granted.request = .ok granted.gatewayUid

/-- Each row of the table is one of a start that has not been consumed, each callback holds a
transaction of its own, and no session was made from one of these. -/
structure Sound (w : World) : Prop where
  numbers : (w.started.map (·.number)).Nodup
  numbers_lt : ∀ e ∈ w.started, e.number < w.started.length
  consumed_lt : ∀ n ∈ w.consumed, n < w.started.length
  consumed_once : w.consumed.Nodup
  rows : ∀ r ∈ w.accounts.transactions, ∃ e ∈ w.started,
    w.started.find? (fun e => e.row.stateHash == r.stateHash) = some e ∧ e.row = r ∧ e.number ∉ w.consumed
  consuming : ∀ k request uid, w.callbacks k = .consuming request uid → callbackUser request = .ok uid
  granted : ∀ k g, w.callbacks k = .exchanging g → Grants w.started w.scope g ∧ g.number ∈ w.consumed ∧
    ∀ m ∈ w.made, m.granted.number ≠ g.number
  apart : ∀ k k' g g', w.callbacks k = .exchanging g → w.callbacks k' = .exchanging g' →
    g.number = g'.number → k = k'
  made : ∀ m ∈ w.made, Grants w.started m.scope m.granted ∧ m.granted.number ∈ w.consumed ∧
    m.session.gatewayUid = m.granted.gatewayUid ∧ m.session.tenantUid = m.granted.gatewayUid
  once : (w.made.map (·.granted.number)).Nodup
  sessions : ∀ r ∈ w.accounts.sessions, ∃ m ∈ w.made, r = sessionRow r.sessionHash m.session

section
variable {platform : Platform} {ttl : Time} {w : World}

theorem Grants.mono {started : List Started} {scope : String} {g : Granted} (h : Grants started scope g)
    (e : Started) : Grants (e :: started) scope g := by
  obtain ⟨⟨e', he', hnumber⟩, hrest⟩ := h
  exact ⟨⟨e', List.mem_cons_of_mem _ he', hnumber⟩, hrest⟩

theorem newSession_ok {transaction : LoginTransaction} {uid : String} {answers : Answers} {now : Time}
    {session : Session} (h : newSession ttl transaction uid answers now = .ok session) :
    session.gatewayUid = uid ∧ session.tenantUid = uid := by
  unfold newSession at h
  cases hidentify : identify transaction answers with
  | error e =>
    rw [hidentify] at h
    cases h
  | ok found =>
    rw [hidentify] at h
    obtain rfl := Except.ok.inj h
    exact ⟨rfl, rfl⟩

theorem callback_of_set {k k' : Nat} {c c' : Callback} (h : Function.update w.callbacks k c k' = c')
    (hne : c' ≠ c) : k' ≠ k ∧ w.callbacks k' = c' := by
  by_cases hk : k' = k
  · rw [hk, Function.update_self] at h
    exact absurd h.symm hne
  · rw [Function.update_of_ne hk] at h
    exact ⟨hk, h⟩

/-- Rows may go, and slots may fall idle. -/
theorem Sound.less (h : Sound w) {accounts : Accounts} {starts : Nat → Option Starting}
    {callbacks : Nat → Callback} (hrows : accounts.transactions.Sublist w.accounts.transactions)
    (hsessions : accounts.sessions.Sublist w.accounts.sessions)
    (hcallbacks : ∀ k, callbacks k = w.callbacks k ∨ callbacks k = .idle) :
    Sound { w with accounts := accounts, starts := starts, callbacks := callbacks } := by
  have hkeep : ∀ k c, callbacks k = c → c ≠ .idle → w.callbacks k = c := by
    intro k c hc hne
    obtain hk | hk := hcallbacks k
    · rw [← hk, hc]
    · exact absurd (hc.symm.trans hk) hne
  exact { h with
    rows := fun r hr => h.rows r (hrows.subset hr)
    sessions := fun r hr => h.sessions r (hsessions.subset hr)
    consuming := fun k request uid hk => h.consuming k request uid (hkeep k _ hk (by simp))
    granted := fun k g hk => h.granted k g (hkeep k _ hk (by simp))
    apart := fun k k' g g' hk hk' => h.apart k k' g g' (hkeep k _ hk (by simp)) (hkeep k' _ hk' (by simp)) }

theorem Sound.idle (h : Sound w) (k : Nat) : Sound (w.setCallback k .idle) := by
  refine h.less (List.Sublist.refl _) (List.Sublist.refl _) ?_
  intro k'
  by_cases hk : k' = k
  · rw [hk, Function.update_self]
    exact .inr rfl
  · rw [Function.update_of_ne hk]
    exact .inl rfl

theorem Sound.createStep (h : Sound w) (k : Nat) (x : Starting) (now : Time) :
    Sound (w.createStep platform k x now) := by
  unfold World.createStep
  simp only
  cases hcreate : w.accounts.createLoginTransaction (platform.hash x.draw.state)
      (x.transaction platform w.scope now) with
  | error e => exact h.less (List.Sublist.refl _) (List.Sublist.refl _) fun k => .inl rfl
  | ok accounts =>
    obtain ⟨hfree, hrows, hsessions⟩ := Accounts.createLoginTransaction_ok hcreate
    simp only
    refine { h with
      numbers := ?_, numbers_lt := ?_, consumed_lt := ?_, rows := ?_, granted := ?_, made := ?_,
      sessions := fun r hr => h.sessions r (hsessions ▸ hr) }
    · refine List.nodup_cons.mpr ⟨?_, h.numbers⟩
      intro hmem
      obtain ⟨e, he, hnumber⟩ := List.mem_map.mp hmem
      have hlt := h.numbers_lt e he
      have heq : e.number = w.started.length := hnumber
      omega
    · intro e he
      show e.number < w.started.length + 1
      obtain rfl | he := List.mem_cons.mp he
      · exact Nat.lt_succ_self _
      · exact Nat.lt_succ_of_lt (h.numbers_lt e he)
    · intro n hn
      exact Nat.lt_succ_of_lt (h.consumed_lt n hn)
    · intro r hr
      rw [hrows] at hr
      obtain hr | hr := List.mem_append.mp hr
      · obtain ⟨e, he, hfind, hrow, hfresh⟩ := h.rows r hr
        refine ⟨e, List.mem_cons_of_mem _ he, ?_, hrow, hfresh⟩
        have hne : (platform.hash x.draw.state == r.stateHash) = false := by
          rw [beq_eq_false_iff_ne]
          intro heq
          exact hfree (heq ▸ List.mem_map_of_mem hr)
        rw [List.find?_cons_of_neg]
        · exact hfind
        · exact Bool.eq_false_iff.mp hne
      · obtain rfl := List.mem_singleton.mp hr
        refine ⟨_, List.mem_cons_self .., ?_, rfl, ?_⟩
        · rw [List.find?_cons_of_pos]
          exact beq_self_eq_true _
        · intro hmem
          exact absurd (h.consumed_lt _ hmem) (Nat.lt_irrefl _)
    · intro k' g hk'
      obtain ⟨hgrants, hrest⟩ := h.granted k' g hk'
      exact ⟨hgrants.mono _, hrest⟩
    · intro m hm
      obtain ⟨hgrants, hrest⟩ := h.made m hm
      exact ⟨hgrants.mono _, hrest⟩

theorem Sound.number_of_row (h : Sound w) {r : LoginRow} (hr : r ∈ w.accounts.transactions) :
    ∃ e ∈ w.started, e.number = w.numberOf r.stateHash ∧ e.row = r ∧ w.numberOf r.stateHash ∉ w.consumed := by
  obtain ⟨e, he, hfind, hrow, hfresh⟩ := h.rows r hr
  have hnumber : w.numberOf r.stateHash = e.number := by
    unfold World.numberOf
    rw [hfind]
  rw [hnumber]
  exact ⟨e, he, rfl, hrow, hfresh⟩

theorem Sound.consumeStep (h : Sound w) {k : Nat} {request : CallbackRequest} {uid : String}
    (hk : w.callbacks k = .consuming request uid) (now : Time) :
    Sound (w.consumeStep platform k request uid now) := by
  unfold World.consumeStep
  cases hconsume : w.accounts.consumeLoginTransaction (platform.hash request.state) w.scope now with
  | error e => exact h.idle k
  | ok answer =>
    obtain ⟨row, accounts⟩ := answer
    obtain ⟨hmem, -, htenant, hexpiry, hsub, hgone, hsessions⟩ := Accounts.consumeLoginTransaction_ok hconsume
    obtain ⟨e, he, hnumber, hrow, hfresh⟩ := h.number_of_row hmem
    -- no other callback holds this transaction: it was not consumed before
    have hnew : ∀ k' g, w.callbacks k' = .exchanging g → g.number ≠ w.numberOf row.stateHash := by
      intro k' g hk' heq
      exact hfresh (heq ▸ (h.granted k' g hk').2.1)
    simp only
    refine { h with
      consumed_lt := ?_, consumed_once := List.nodup_cons.mpr ⟨hfresh, h.consumed_once⟩, rows := ?_,
      consuming := ?_, granted := ?_, apart := ?_, made := ?_,
      sessions := fun r hr => h.sessions r (hsessions ▸ hr) }
    · intro n hn
      obtain rfl | hn := List.mem_cons.mp hn
      · rw [← hnumber]
        exact h.numbers_lt e he
      · exact h.consumed_lt n hn
    · intro r hr
      obtain ⟨e', he', hfind, hrow', hfresh'⟩ := h.rows r (hsub.subset hr)
      refine ⟨e', he', hfind, hrow', ?_⟩
      intro hcons
      obtain heq | hcons := List.mem_cons.mp hcons
      · -- one start has one row
        have hee : e' = e := Table.eq_of_key h.numbers he' he (heq.trans hnumber.symm)
        rw [hee, hrow] at hrow'
        exact hgone (hrow' ▸ List.mem_map_of_mem hr)
      · exact hfresh' hcons
    · intro k' request' uid' hk'
      obtain ⟨-, hk'⟩ := callback_of_set hk' (by simp)
      exact h.consuming k' request' uid' hk'
    · intro k' g hk'
      by_cases hkk : k' = k
      · rw [hkk] at hk'
        obtain rfl := Callback.exchanging.inj ((Function.update_self ..).symm.trans hk').symm
        refine ⟨⟨⟨e, he, hnumber, hrow⟩, htenant, hexpiry, h.consuming k request uid hk⟩,
          List.mem_cons_self .., ?_⟩
        intro m hm heq
        have hnumber' : m.granted.number = w.numberOf row.stateHash := heq
        exact hfresh (hnumber' ▸ (h.made m hm).2.1)
      · obtain ⟨hgrants, hcons, hmade⟩ := h.granted k' g ((Function.update_of_ne hkk ..).symm.trans hk')
        exact ⟨hgrants, List.mem_cons_of_mem _ hcons, hmade⟩
    · intro k₁ k₂ g₁ g₂ hk₁ hk₂ heq
      -- two callbacks with one transaction: neither can be the new one alone
      by_cases h₁ : k₁ = k
      · by_cases h₂ : k₂ = k
        · rw [h₁, h₂]
        · have hk₂' := (Function.update_of_ne h₂ ..).symm.trans hk₂
          rw [h₁] at hk₁
          obtain rfl := Callback.exchanging.inj ((Function.update_self ..).symm.trans hk₁).symm
          exact absurd heq.symm (hnew k₂ g₂ hk₂')
      · have hk₁' := (Function.update_of_ne h₁ ..).symm.trans hk₁
        by_cases h₂ : k₂ = k
        · rw [h₂] at hk₂
          obtain rfl := Callback.exchanging.inj ((Function.update_self ..).symm.trans hk₂).symm
          exact absurd heq (hnew k₁ g₁ hk₁')
        · exact h.apart k₁ k₂ g₁ g₂ hk₁' ((Function.update_of_ne h₂ ..).symm.trans hk₂) heq
    · intro m hm
      obtain ⟨hgrants, hcons, hsession⟩ := h.made m hm
      exact ⟨hgrants, List.mem_cons_of_mem _ hcons, hsession⟩

theorem Sound.finishStep (h : Sound w) {k : Nat} {granted : Granted}
    (hk : w.callbacks k = .exchanging granted) (answers : Answers) (now : Time) (rawID : String) :
    Sound (w.finishStep platform ttl k granted answers now rawID) := by
  unfold World.finishStep
  cases hsession : newSession ttl (scanLogin granted.row) granted.gatewayUid answers now with
  | error e => exact h.idle k
  | ok session =>
    simp only
    cases hcreate : w.accounts.createSession (platform.hash rawID) session with
    | error e => exact h.idle k
    | ok accounts =>
      obtain ⟨hgrants, hcons, hmade⟩ := h.granted k granted hk
      obtain ⟨hrows, hsessions⟩ := Accounts.createSession_ok hcreate
      have hidle := h.idle k
      simp only
      refine { hidle with rows := ?_, granted := ?_, made := ?_, once := ?_, sessions := ?_ }
      · intro r hr
        rw [hrows] at hr
        exact h.rows r hr
      · intro k' g hk'
        obtain ⟨hkk, hk''⟩ := callback_of_set hk' (by simp)
        obtain ⟨hgrants', hcons', hmade'⟩ := h.granted k' g hk''
        refine ⟨hgrants', hcons', ?_⟩
        intro m hm heq
        obtain rfl | hm := List.mem_cons.mp hm
        · exact hkk (h.apart k' k g granted hk'' hk heq.symm)
        · exact hmade' m hm heq
      · intro m hm
        obtain rfl | hm := List.mem_cons.mp hm
        · exact ⟨hgrants, hcons, newSession_ok hsession⟩
        · exact h.made m hm
      · refine List.nodup_cons.mpr ⟨?_, h.once⟩
        intro hmem
        obtain ⟨m, hm, heq⟩ := List.mem_map.mp hmem
        exact hmade m hm heq
      · intro r hr
        rw [hsessions] at hr
        obtain hr | hr := List.mem_append.mp hr
        · obtain ⟨m, hm, hrow⟩ := h.sessions r hr
          exact ⟨m, List.mem_cons_of_mem _ hm, hrow⟩
        · obtain rfl := List.mem_singleton.mp hr
          exact ⟨_, List.mem_cons_self .., rfl⟩

theorem Sound.step {w' : World} {a : Action} (h : Sound w) (hs : step platform ttl w a = some w') :
    Sound w' := by
  cases a with
  -- a restart ends the calls and keeps the tables
  | restart scope =>
    unfold Auth.step at hs
    simp only at hs
    split at hs
    · cases hs
    · obtain rfl := Option.some.inj hs
      exact { h with
        consuming := fun k request uid hk => by cases hk
        granted := fun k g hk => by cases hk
        apart := fun k k' g g' hk => by cases hk }
  -- a start first drops expired transactions, which takes rows away only
  | login k request draw now =>
    unfold Auth.step at hs
    simp only at hs
    split at hs
    · cases hs
    · obtain rfl := Option.some.inj hs
      exact h.less List.filter_sublist (List.Sublist.refl _) fun k => .inl rfl
  | create k now =>
    unfold Auth.step at hs
    simp only at hs
    split at hs
    · cases hs
    · obtain rfl := Option.some.inj hs
      exact h.createStep _ _ _
  | callback k request =>
    unfold Auth.step at hs
    simp only at hs
    split at hs
    next uid hidle huid =>
      obtain rfl := Option.some.inj hs
      have hother : ∀ k' c, Function.update w.callbacks k (.consuming request uid) k' = c →
          (∀ request uid, c ≠ .consuming request uid) → w.callbacks k' = c := by
        intro k' c hk' hne
        exact (callback_of_set hk' (hne request uid)).2
      exact { h with
        consuming := by
          intro k' request' uid' hk'
          by_cases hkk : k' = k
          · rw [hkk] at hk'
            obtain ⟨rfl, rfl⟩ := Callback.consuming.inj ((Function.update_self ..).symm.trans hk')
            exact huid
          · exact h.consuming k' request' uid' ((Function.update_of_ne hkk ..).symm.trans hk')
        granted := fun k' g hk' => h.granted k' g (hother k' _ hk' (by simp))
        apart := fun k₁ k₂ g₁ g₂ hk₁ hk₂ =>
          h.apart k₁ k₂ g₁ g₂ (hother k₁ _ hk₁ (by simp)) (hother k₂ _ hk₂ (by simp)) }
    next => cases hs
  | consume k now =>
    unfold Auth.step at hs
    simp only at hs
    split at hs
    next hk =>
      obtain rfl := Option.some.inj hs
      exact h.consumeStep hk now
    next => cases hs
  | finish k answers now rawID =>
    unfold Auth.step at hs
    simp only at hs
    split at hs
    next hk =>
      obtain rfl := Option.some.inj hs
      exact h.finishStep hk answers now rawID
    next => cases hs
  | fail k =>
    obtain rfl := Option.some.inj hs
    exact Sound.idle (h.less (List.Sublist.refl _) (List.Sublist.refl _) fun k => .inl rfl) k
  | logout rawID =>
    obtain rfl := Option.some.inj hs
    exact h.less (List.Sublist.refl _) List.filter_sublist fun k => .inl rfl

theorem Reachable.sound (h : Reachable platform ttl w) : Sound w := by
  refine Transition.Reach.invariant ?_ ?_ h
  · intro w hinit
    obtain ⟨scope, -, rfl⟩ := hinit
    refine ⟨List.nodup_nil, ?_, ?_, List.nodup_nil, ?_, ?_, ?_, ?_, ?_, List.nodup_nil, ?_⟩
    · exact fun e he => by cases he
    · exact fun n hn => by cases hn
    · exact fun r hr => by cases hr
    · exact fun k request uid hk => by cases hk
    · exact fun k g hk => by cases hk
    · exact fun k k' g g' hk => by cases hk
    · exact fun m hm => by cases hm
    · exact fun r hr => by cases hr
  · intro w a w' hw _ hs
    exact hw.step hs

end

/-! ## Single use -/

/-- Every session that was ever stored came from a transaction of its own, one that had been
started by then as the deployment the callback found, was not expired when it was consumed, and
was consumed once; it is a session of the gateway user of the callback's own request. -/
structure SingleUse (w : World) : Prop where
  stored : ∀ r ∈ w.accounts.sessions, ∃ m ∈ w.made, r = sessionRow r.sessionHash m.session
  once : (w.made.map (·.granted.number)).Nodup
  starts : (w.started.map (·.number)).Nodup
  started : ∀ m ∈ w.made, ∃ e ∈ w.started, e.number = m.granted.number ∧ e.row.tenantUid = m.scope ∧
    unix m.granted.consumedAt < e.row.expiresAt ∧ w.consumed.count m.granted.number = 1
  gateway : ∀ m ∈ w.made, m.session.gatewayUid = Text.trimSpace m.granted.request.header ∧
    m.session.tenantUid = m.session.gatewayUid ∧ m.session.gatewayUid ≠ ""

theorem callbackUser_ok {request : CallbackRequest} {uid : String} (h : callbackUser request = .ok uid) :
    uid = Text.trimSpace request.header ∧ uid ≠ "" := by
  unfold callbackUser at h
  by_cases hcode : request.code = ""
  · rw [if_pos hcode] at h
    cases h
  · rw [if_neg hcode] at h
    by_cases huser : Text.trimSpace request.header = ""
    · rw [if_pos huser] at h
      cases h
    · rw [if_neg huser] at h
      obtain rfl := Except.ok.inj h
      exact ⟨rfl, huser⟩

theorem Sound.singleUse {w : World} (h : Sound w) : SingleUse w where
  stored := h.sessions
  once := h.once
  starts := h.numbers
  started := by
    intro m hm
    obtain ⟨⟨⟨e, he, hnumber, hrow⟩, htenant, hexpiry, -⟩, hcons, -⟩ := h.made m hm
    rw [← hrow] at htenant hexpiry
    exact ⟨e, he, hnumber, htenant, hexpiry, List.count_eq_one_of_mem h.consumed_once hcons⟩
  gateway := by
    intro m hm
    obtain ⟨⟨-, -, -, huser⟩, -, hgateway, htenant⟩ := h.made m hm
    obtain ⟨htrim, hne⟩ := callbackUser_ok huser
    rw [hgateway, htenant]
    exact ⟨htrim, rfl, hne⟩

/-- Whatever starts and callbacks of whatever users run next to each other, login transactions
are single-use, and a session is one of the gateway user of the callback that consumed its
transaction. -/
theorem login_single_use {platform : Platform} {ttl : Time} {w : World} (h : Reachable platform ttl w) :
    SingleUse w :=
  h.sound.singleUse

/-! ### A callback in another browser -/

def platformA : Platform := ⟨id, fun _ => true⟩

/-- The provider knows the code. -/
def answersA : Answers where
  exchange := some (some "id-token")
  verify := fun _ => some ⟨"nonce-1", "subject-b", none⟩
  userInfo := some ⟨"subject-b", "b", "B", "", []⟩

def managerA : World := ⟨Accounts.empty, "deploy-a", fun _ => none, fun _ => .idle, [], [], []⟩

/-- The first user starts a login; the second one's browser comes back with its state. -/
def crossedRun : List Action :=
  [.login 0 ⟨"user-a", "https://backup.example/auth/oidc/callback", "/"⟩
      ⟨"state-1", "nonce-1", "verifier-1"⟩ 0,
    .create 0 0, .callback 0 ⟨"user-b", "state-1", "code-1"⟩, .consume 0 second,
    .finish 0 answersA second "session-1"]

theorem crossed_reachable :
    Reachable platformA (8 * 3600 * second) (Transition.final
      (step platformA (8 * 3600 * second)) managerA crossedRun) :=
  @Transition.reach_final _ _ _ _ initial (fun _ _ => true) (fun _ _ _ => trivial) _ crossedRun
    ⟨"deploy-a", by decide, rfl⟩ (by decide +kernel)

theorem login_single_use_crossed :
    (Transition.final (step platformA (8 * 3600 * second)) managerA crossedRun).made.length = 1 ∧
      SingleUse (Transition.final (step platformA (8 * 3600 * second)) managerA crossedRun) :=
  ⟨by decide +kernel, login_single_use crossed_reachable⟩

/-- The session of a transaction need not be of the user who started it. -/
theorem session_of_other_user :
    ¬∀ (platform : Platform) (ttl : Time) (w : World), Reachable platform ttl w → ∀ m ∈ w.made,
      ∃ e ∈ w.started, e.number = m.granted.number ∧
        m.session.gatewayUid = Text.trimSpace e.user := by
  intro h
  have hall := h _ _ _ crossed_reachable
  have hcheck : (Transition.final (step platformA (8 * 3600 * second)) managerA crossedRun).made.all
      (fun m => (Transition.final (step platformA (8 * 3600 * second)) managerA crossedRun).started.any
        fun e => e.number == m.granted.number && m.session.gatewayUid == Text.trimSpace e.user) =
      true := by
    rw [List.all_eq_true]
    intro m hm
    obtain ⟨e, he, hnumber, huser⟩ := hall m hm
    rw [List.any_eq_true]
    exact ⟨e, he, by simp [hnumber, huser]⟩
  exact absurd hcheck (by decide +kernel)

end AppBackup.Auth
