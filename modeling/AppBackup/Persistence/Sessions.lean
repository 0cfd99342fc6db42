import AppBackup.Domain.Types
import AppBackup.Lib.Table
import AppBackup.Persistence.Schema

/- Login transactions and sessions (`persistence/store.go`). Both tables are keyed by the
   hash of a random value, SHA-256 in hexadecimal, which is the parameter `hash`. -/
namespace AppBackup

structure LoginTransaction where
  tenantUid : String
  entranceUid : String
  entranceRole : String
  nonce : String
  verifier : String
  returnTo : String
  redirectUri : String
  expiresAt : Time

structure Session where
  subject : String
  uid : String
  gatewayUid : String
  name : String
  email : String
  groups : List String
  role : Role
  tenantUid : String
  createdAt : Time
  expiresAt : Time

namespace Persistence
open Table

structure LoginRow where
  stateHash : String
  nonce : String
  verifier : String
  returnTo : String
  redirectUri : String
  expiresAt : Int
  tenantUid : String
  entranceUid : String
  entranceRole : String
  deriving DecidableEq

structure SessionRow where
  sessionHash : String
  subject : String
  uid : String
  gatewayUid : String
  name : String
  email : String
  groupsCsv : String
  role : Role
  tenantUid : String
  createdAt : Int
  expiresAt : Int
  lastSeenAt : Int

/-- The tables `oidc_transactions` and `sessions`. -/
structure Accounts where
  transactions : List LoginRow
  sessions : List SessionRow
  transactions_pk : (transactions.map (·.stateHash)).Nodup
  sessions_pk : (sessions.map (·.sessionHash)).Nodup

/-- The row `CreateLoginTransaction` inserts: without an entrance it takes the tenant, without
a role `NORMAL`. -/
def loginRow (stateHash : String) (value : LoginTransaction) : LoginRow where
  stateHash := stateHash
  nonce := value.nonce
  verifier := value.verifier
  returnTo := value.returnTo
  redirectUri := value.redirectUri
  expiresAt := unix value.expiresAt
  tenantUid := value.tenantUid
  entranceUid := if value.entranceUid = "" then value.tenantUid else value.entranceUid
  entranceRole := if value.entranceRole = "" then "NORMAL" else value.entranceRole

/-- What `ConsumeLoginTransaction` returns of the row. -/
def scanLogin (r : LoginRow) : LoginTransaction where
  tenantUid := r.tenantUid
  entranceUid := r.entranceUid
  entranceRole := r.entranceRole
  nonce := r.nonce
  verifier := r.verifier
  returnTo := r.returnTo
  redirectUri := r.redirectUri
  expiresAt := ofUnix r.expiresAt

def sessionRow (sessionHash : String) (session : Session) : SessionRow where
  sessionHash := sessionHash
  subject := session.subject
  uid := session.uid
  gatewayUid := session.gatewayUid
  name := session.name
  email := session.email
  groupsCsv := ",".intercalate session.groups
  role := session.role
  tenantUid := session.tenantUid
  createdAt := unix session.createdAt
  expiresAt := unix session.expiresAt
  lastSeenAt := unix session.createdAt

def scanSession (r : SessionRow) : Session where
  subject := r.subject
  uid := r.uid
  gatewayUid := r.gatewayUid
  name := r.name
  email := r.email
  groups := if r.groupsCsv = "" then [] else r.groupsCsv.splitOn ","
  role := r.role
  tenantUid := r.tenantUid
  createdAt := ofUnix r.createdAt
  expiresAt := ofUnix r.expiresAt

namespace Accounts

def empty : Accounts := ⟨[], [], List.nodup_nil, List.nodup_nil⟩

/-! ## Login transactions -/

def createLoginTransaction (a : Accounts) (stateHash : String) (value : LoginTransaction) :
    Except StoreError Accounts :=
  if value.tenantUid = "" then .error (.invalid "login transaction tenant is required")
  else if h : stateHash ∉ a.transactions.map (·.stateHash) then
    .ok { a with
      transactions := a.transactions ++ [loginRow stateHash value]
      transactions_pk := by
        rw [List.map_append]
        exact nodup_snoc a.transactions_pk h }
  else .error (.unique "oidc_transactions")

/-- `WHERE state_hash = ? AND tenant_uid = ? AND expires_at > ?`. -/
def consumable (stateHash tenant : String) (now : Time) (r : LoginRow) : Bool :=
  r.stateHash == stateHash && r.tenantUid == tenant && decide (unix now < r.expiresAt)

/-- `DELETE FROM oidc_transactions WHERE p`. -/
def deleteTransactions (a : Accounts) (p : LoginRow → Bool) : Accounts :=
  { a with
    transactions := a.transactions.filter fun r => !p r
    transactions_pk := a.transactions_pk.sublist (List.filter_sublist.map _) }

/-- One statement, `DELETE … RETURNING`: it takes the row out and gives it back. -/
def consumeLoginTransaction (a : Accounts) (stateHash tenant : String) (now : Time) :
    Except StoreError (LoginRow × Accounts) :=
  if tenant = "" then .error (.invalid "login transaction tenant is required")
  else
    match a.transactions.find? (consumable stateHash tenant now) with
    | none => .error .notFound
    | some r => .ok (r, a.deleteTransactions (consumable stateHash tenant now))

def purgeExpiredLoginTransactions (a : Accounts) (now : Time) : Accounts :=
  a.deleteTransactions fun r => decide (r.expiresAt ≤ unix now)

/-! ## Sessions -/

def createSession (a : Accounts) (sessionHash : String) (session : Session) :
    Except StoreError Accounts :=
  if h : sessionHash ∉ a.sessions.map (·.sessionHash) then
    .ok { a with
      sessions := a.sessions ++ [sessionRow sessionHash session]
      sessions_pk := by
        rw [List.map_append]
        exact nodup_snoc a.sessions_pk h }
  else .error (.unique "sessions")

/-- The session of a cookie; `last_seen_at` is set on the way. -/
def session (a : Accounts) (sessionHash : String) (now : Time) : Except StoreError (Session × Accounts) :=
  match a.sessions.find? fun r => r.sessionHash == sessionHash && decide (unix now < r.expiresAt) with
  | none => .error .notFound
  | some r => .ok (scanSession r, { a with
      sessions := updateWhere (·.sessionHash == sessionHash) (fun r => { r with lastSeenAt := unix now })
        a.sessions
      sessions_pk := by
        rw [map_updateWhere]
        · exact a.sessions_pk
        · intro r
          rfl })

def deleteSession (a : Accounts) (sessionHash : String) : Accounts :=
  { a with
    sessions := a.sessions.filter fun r => !(r.sessionHash == sessionHash)
    sessions_pk := a.sessions_pk.sublist (List.filter_sublist.map _) }

/-! ## What they leave -/

theorem createLoginTransaction_ok {a a' : Accounts} {stateHash : String} {value : LoginTransaction}
    (h : a.createLoginTransaction stateHash value = .ok a') :
    stateHash ∉ a.transactions.map (·.stateHash) ∧
      a'.transactions = a.transactions ++ [loginRow stateHash value] ∧ a'.sessions = a.sessions := by
  unfold createLoginTransaction at h
  by_cases htenant : value.tenantUid = ""
  · rw [if_pos htenant] at h
    cases h
  · rw [if_neg htenant] at h
    by_cases hfree : stateHash ∉ a.transactions.map (·.stateHash)
    · rw [dif_pos hfree] at h
      obtain rfl := Except.ok.inj h
      exact ⟨hfree, rfl, rfl⟩
    · rw [dif_neg hfree] at h
      cases h

theorem consumable_iff {stateHash tenant : String} {now : Time} {r : LoginRow} :
    consumable stateHash tenant now r = true ↔
      r.stateHash = stateHash ∧ r.tenantUid = tenant ∧ unix now < r.expiresAt := by
  simp [consumable, and_assoc]

/-- The row consumed was in the table, of this tenant and not expired; no row of its hash is
left. -/
theorem consumeLoginTransaction_ok {a a' : Accounts} {stateHash tenant : String} {now : Time} {r : LoginRow}
    (h : a.consumeLoginTransaction stateHash tenant now = .ok (r, a')) :
    r ∈ a.transactions ∧ r.stateHash = stateHash ∧ r.tenantUid = tenant ∧ unix now < r.expiresAt ∧
      a'.transactions.Sublist a.transactions ∧ r.stateHash ∉ a'.transactions.map (·.stateHash) ∧
      a'.sessions = a.sessions := by
  unfold consumeLoginTransaction at h
  by_cases htenant : tenant = ""
  · rw [if_pos htenant] at h
    cases h
  · rw [if_neg htenant] at h
    cases hfind : a.transactions.find? (consumable stateHash tenant now) with
    | none =>
      rw [hfind] at h
      cases h
    | some r' =>
      rw [hfind] at h
      obtain ⟨rfl, rfl⟩ := Prod.ext_iff.mp (Except.ok.inj h)
      have hmem := List.mem_of_find?_eq_some hfind
      have hguard := List.find?_some hfind
      obtain ⟨hhash, hten, hexpiry⟩ := consumable_iff.mp hguard
      refine ⟨hmem, hhash, hten, hexpiry, List.filter_sublist, ?_, rfl⟩
      intro hleft
      obtain ⟨r'', hr'', hhash'⟩ := List.mem_map.mp hleft
      obtain ⟨hr'', hkept⟩ := List.mem_filter.mp hr''
      obtain rfl := eq_of_key a.transactions_pk hr'' hmem hhash'
      rw [hguard] at hkept
      cases hkept

theorem createSession_ok {a a' : Accounts} {sessionHash : String} {s : Session}
    (h : a.createSession sessionHash s = .ok a') :
    a'.transactions = a.transactions ∧ a'.sessions = a.sessions ++ [sessionRow sessionHash s] := by
  unfold createSession at h
  split at h
  · obtain rfl := Except.ok.inj h
    exact ⟨rfl, rfl⟩
  · cases h

end Accounts

end Persistence

end AppBackup
