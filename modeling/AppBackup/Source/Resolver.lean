import AppBackup.Lib.Links

/- Where the data of an application is read from (`source/resolver.go`). A source is a
   directory directly below the projection of the platform, named by the application id; the
   tree does not change while a source is resolved. The root is an absolute path, which only a
   process with DEV_MODE could set otherwise.

   What is proved: `resolve_exact` says which request resolves to what, and with it that no
   application reads another one's data. -/
namespace AppBackup.Source
open Path Links

def runtimeAppvarRoot : String := "/lzcapp/run/data/app/var"

inductive Code where
  | ownerMismatch | instanceNotFound | projectionNotVisible | permissionDenied | projectionUnavailable | notReady
  deriving DecidableEq

def Code.text : Code → String
  | ownerMismatch => "SOURCE_OWNER_MISMATCH"
  | instanceNotFound => "SOURCE_INSTANCE_NOT_FOUND"
  | projectionNotVisible => "RUNTIME_APPVAR_PROJECTION_NOT_VISIBLE"
  | permissionDenied => "SOURCE_PERMISSION_DENIED"
  | projectionUnavailable => "SOURCE_PROJECTION_UNAVAILABLE"
  | notReady => "SOURCE_NOT_READY"

structure Request where
  tenantUid : String
  appId : String
  deployId : String
  ownerUid : String
  allowSharedApp : Bool
  adminScope : Bool

structure Resolved where
  root : List String
  readOnlyMode : String
  deriving DecidableEq

structure Resolver where
  root : String
  allowNonstandardRoot : Bool

def Resolver.path (r : Resolver) : String := if r.root = "" then runtimeAppvarRoot else r.root

/-- `validateID` finds nothing wrong. -/
def validID (value : String) : Bool :=
  !(value == "" || value == "." || value == ".." || value.toList.any fun c => c == '/' || c == '\\')

/-- `filepath.Join` of an absolute path and a text. -/
def joined (root : List String) (name : String) : List String :=
    ((split name).foldl (pushName true) root.reverse).reverse

/-- `filepath.Rel` of two absolute paths in normal form. -/
def relative (root path : List String) : List String :=
  let shared := (root.zip path).takeWhile fun p => p.1 == p.2
  List.replicate (root.length - shared.length) ".." ++ path.drop shared.length

def projectionError : LinkError → Code
  | .notExist => .projectionUnavailable
  | .permission => .permissionDenied
  | _ => .notReady

/-- `Resolve` from the root on. -/
def resolveIn (t : Tree) (root : List String) (appId : String) : Except Code Resolved :=
  match t.lstat (joined root appId) with
  | .error e => .error (projectionError e)
  | .ok (.link _) => .error .permissionDenied
  | .ok _ =>
    match walk t 255 [] (joined root appId) with
    | .error e => .error (projectionError e)
    | .ok resolved =>
      if (relative root resolved).head? = some ".." then .error .permissionDenied
      else
        match stat t resolved with
        | .error e => .error (projectionError e)
        | .ok .directory => .ok ⟨resolved, "service-enforced"⟩
        | .ok _ => .error .instanceNotFound

/-- `Resolve` after the checks of the request. -/
def Resolver.search (r : Resolver) (t : Tree) (appId : String) : Except Code Resolved :=
  match evalSymlinks t r.path with
  | .error _ => .error .projectionNotVisible
  | .ok root =>
    match stat t root with
    | .ok .directory => resolveIn t root appId
    | _ => .error .projectionNotVisible

def Resolver.resolve (r : Resolver) (t : Tree) (request : Request) : Except Code Resolved :=
  if request.tenantUid = "" ∨ request.ownerUid = "" ∨
      (request.allowSharedApp = false ∧ request.adminScope = false ∧ request.ownerUid ≠ request.tenantUid) then
    .error .ownerMismatch
  else if validID request.appId = false ∨ validID request.deployId = false then .error .instanceNotFound
  else if r.allowNonstandardRoot = false ∧ clean r.path ≠ runtimeAppvarRoot then .error .projectionNotVisible
  else r.search t request.appId

/-! ## The parts of a path -/

theorem validID_proper {value : String} (h : validID value = true) : Proper value := by
  simp only [validID, Bool.not_eq_true', Bool.or_eq_false_iff, beq_eq_false_iff_ne, List.any_eq_false] at h
  obtain ⟨⟨⟨hempty, hdot⟩, hdots⟩, hslash⟩ := h
  refine ⟨hempty, hdot, hdots, fun hmem => ?_⟩
  have := hslash '/' hmem
  simp at this

theorem joined_eq (root : List String) {name : String} (h : Proper name) : joined root name = root ++ [name] := by
  obtain ⟨hempty, hdot, hdots, hslash⟩ := h
  have hsplit : split name = [name] := by
    have hnames : ∀ n ∈ [name], '/' ∉ n.toList := List.forall_mem_singleton.mpr hslash
    have := split_join (List.cons_ne_nil name []) hnames
    rwa [join_singleton] at this
  simp [joined, hsplit, pushName, hempty, hdot, hdots]

theorem relative_append (root more : List String) : relative root (root ++ more) = more := by
  have hshared : ((root.zip (root ++ more)).takeWhile fun p => p.1 == p.2).length = root.length := by
    induction root with
    | nil => rfl
    | cons name rest ih => simpa using ih
  simp [relative, hshared]

theorem stat_real {t : Tree} {path : List String} (h : Real t path) : stat t path = t.lstat path := by
  unfold stat
  rw [walk_self h]
  rfl

/-! ## What a request resolves to -/

/-- The checks of a request before the tree is looked at. -/
structure Resolver.Admits (r : Resolver) (request : Request) : Prop where
  tenant : request.tenantUid ≠ ""
  owner : request.ownerUid ≠ ""
  allowed : request.allowSharedApp = true ∨ request.adminScope = true ∨ request.ownerUid = request.tenantUid
  app : validID request.appId = true
  deploy : validID request.deployId = true
  root : r.allowNonstandardRoot = true ∨ clean r.path = runtimeAppvarRoot

theorem resolve_admitted {r : Resolver} {t : Tree} {request : Request} {resolved : Resolved}
    (h : r.resolve t request = .ok resolved) : r.Admits request := by
  unfold Resolver.resolve at h
  split_ifs at h with howner hid hroot
  simp only [not_or, not_and, Bool.not_eq_false] at howner hid hroot
  obtain ⟨htenant, hown, hallowed⟩ := howner
  refine ⟨htenant, hown, ?_, hid.1, hid.2, ?_⟩
  · by_contra hno
    simp only [not_or, Bool.not_eq_true] at hno
    exact hno.2.2 (not_not.mp (hallowed hno.1 hno.2.1))
  · by_contra hno
    simp only [not_or, Bool.not_eq_true] at hno
    exact hno.2 (not_not.mp (hroot hno.1))

theorem resolve_of_admitted {r : Resolver} {request : Request} (h : r.Admits request) (t : Tree) :
    r.resolve t request = r.search t request.appId := by
  have howner : ¬(request.tenantUid = "" ∨ request.ownerUid = "" ∨
      (request.allowSharedApp = false ∧ request.adminScope = false ∧ request.ownerUid ≠ request.tenantUid)) := by
    rintro (htenant | hown | ⟨hshared, hadmin, hother⟩)
    · exact h.tenant htenant
    · exact h.owner hown
    · simpa [hshared, hadmin, hother] using h.allowed
  have hid : ¬(validID request.appId = false ∨ validID request.deployId = false) := by simp [h.app, h.deploy]
  have hroot : ¬(r.allowNonstandardRoot = false ∧ clean r.path ≠ runtimeAppvarRoot) := by
    obtain hfree | hstandard := h.root
    · simp [hfree]
    · simp [hstandard]
  unfold Resolver.resolve
  rw [if_neg howner, if_neg hid, if_neg hroot]

/-- Below a real root the checks against links and against leaving the root find nothing more: a
source is the directory of that name or there is none. -/
theorem resolveIn_ok {t : Tree} {root : List String} {appId : String} {resolved : Resolved} (hroot : Real t root)
    (happ : Proper appId) : resolveIn t root appId = .ok resolved ↔
      resolved = ⟨root ++ [appId], "service-enforced"⟩ ∧ t.lstat (root ++ [appId]) = .ok .directory := by
  unfold resolveIn
  rw [joined_eq root happ]
  cases hn : t.lstat (root ++ [appId]) with
  | error e => simp
  | ok n =>
    cases n with
    | link target => simp
    | directory =>
      have hproper : ∀ name ∈ root ++ [appId], Proper name := by
        simpa [or_imp, forall_and] using ⟨hroot.1, happ⟩
      have hreal : Real t (root ++ [appId]) := ⟨hproper, .inl hn⟩
      have hinside : ¬(relative root (root ++ [appId])).head? = some ".." := by
        rw [relative_append]
        simpa using happ.2.2.1
      simp only [walk_self hreal, if_neg hinside, stat_real hreal, hn]
      simp [eq_comm]
    | object =>
      have hproper : ∀ name ∈ root ++ [appId], Proper name := by
        simpa [or_imp, forall_and] using ⟨hroot.1, happ⟩
      have hreal : Real t (root ++ [appId]) := ⟨hproper, .inr hn⟩
      have hinside : ¬(relative root (root ++ [appId])).head? = some ".." := by
        rw [relative_append]
        simpa using happ.2.2.1
      simp only [walk_self hreal, if_neg hinside, stat_real hreal, hn]
      simp

/-- Whatever links the tree has, a request that is admitted resolves to the directory of its
application id directly below the resolved root, reached by no link, and to nothing else; and it
does whenever that directory is there. -/
theorem resolve_exact (r : Resolver) (t : Tree) (request : Request) (resolved : Resolved) :
    r.resolve t request = .ok resolved ↔ r.Admits request ∧ ∃ root, evalSymlinks t r.path = .ok root ∧
      t.lstat root = .ok .directory ∧ t.lstat (root ++ [request.appId]) = .ok .directory ∧
      resolved = ⟨root ++ [request.appId], "service-enforced"⟩ := by
  have hsearch : r.Admits request → (r.search t request.appId = .ok resolved ↔ ∃ root,
      evalSymlinks t r.path = .ok root ∧ t.lstat root = .ok .directory ∧
      t.lstat (root ++ [request.appId]) = .ok .directory ∧
      resolved = ⟨root ++ [request.appId], "service-enforced"⟩) := by
    intro hadmits
    unfold Resolver.search
    cases heval : evalSymlinks t r.path with
    | error e => simp
    | ok root =>
      have hreal := evalSymlinks_real heval
      have hin : resolveIn t root request.appId = .ok resolved ↔ _ :=
        resolveIn_ok hreal (validID_proper hadmits.app)
      simp only [stat_real hreal, Except.ok.injEq, exists_eq_left']
      cases hroot : t.lstat root with
      | error e => simp
      | ok n =>
        cases n with
        | directory => simp only [hin, true_and, and_comm]
        | object => simp
        | link target => simp
  refine ⟨fun h => ?_, fun ⟨hadmits, hfound⟩ => ?_⟩
  · have hadmits := resolve_admitted h
    rw [resolve_of_admitted hadmits] at h
    exact ⟨hadmits, (hsearch hadmits).mp h⟩
  · rw [resolve_of_admitted hadmits]
    exact (hsearch hadmits).mpr hfound

end AppBackup.Source
