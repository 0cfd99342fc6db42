import AppBackup.Persistence.Schema

/- Errors as the services see them (`backup/service.go`, `source/resolver.go`): an
   error and what it wraps. `errors.Is` and `errors.As` walk the chain from the
   outside in; `Code` names a failure for the task and `retryable` decides what the
   queue does with it. -/
namespace AppBackup

inductive GoError where
  | store (e : Persistence.StoreError)
  | canceled
  | deadlineExceeded
  | scopeValidation (path expected : String)
  | backup (code : String) (err : GoError)
  | source (code : String) (err : GoError)
  | wrapped (err : GoError)
  | plain (message : String)
  deriving DecidableEq

namespace GoError

/-- The error and everything it unwraps to. -/
def chain : GoError → List GoError
  | backup code err => backup code err :: err.chain
  | source code err => source code err :: err.chain
  | wrapped err => wrapped err :: err.chain
  | err => [err]

/-- `errors.Is(err, target)` for a target that is a value. -/
def is (err target : GoError) : Bool := err.chain.contains target

/-- `errors.Is(err, domain.ErrConflict)`. -/
def isConflict (err : GoError) : Bool := err.is (store .conflict)

def backupCode : GoError → Option String
  | backup code _ => some code
  | _ => none

def sourceCode : GoError → Option String
  | source code _ => some code
  | _ => none

/-- `Code`. -/
def code (err : GoError) : String :=
  match err.chain.findSome? backupCode with
  | some code => code
  | none =>
    match err.chain.findSome? sourceCode with
    | some code => code
    | none =>
      if err.is deadlineExceeded then "BACKUP_TIMED_OUT"
      else if err.is canceled then "BACKUP_CANCELLED"
      else "BACKUP_FAILED"

/-- `ScopeValidation`: the path and what was expected there. -/
def scopeFailure (err : GoError) : Option (String × String) :=
  err.chain.findSome? fun
    | scopeValidation path expected => some (path, expected)
    | _ => none

end GoError

/-- `retryable`. -/
def retryable (code : String) : Bool :=
  !(["BACKUP_CANCELLED", "NO_APPLICATION_DATA", "UNSUPPORTED_DATABASE", "INSTANCE_NOT_BACKUPABLE",
    "SHARED_INSTANCE_CONFIRMATION_REQUIRED", "SOURCE_OWNER_MISMATCH", "SOURCE_INSTANCE_NOT_FOUND",
    "BACKUP_SCOPE_PATH_MISSING"].contains code)

end AppBackup
