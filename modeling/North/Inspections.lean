import North.RepositoryCache

/-! One inspection: a checkout of a commit of the cached repository under a name of its own, the
runtime in it, and the end, where the checkout is compared with what was prepared and removed. -/
namespace North
namespace Inspection

open Prog FileTree
open North.Runtime (InspectionError InspectionPhase RepositorySource BoundedGitOutput)
open PathNames (InspectionRequest)

structure RunAuthorization where
  sessionId : String
  repositories : List RepositorySource
  deriving DecidableEq, Repr

structure PreparedWorkspace where
  sessionId : String
  repositoryId : String
  repositoryUrl : String
  commitSha : String
  workspaces : OwnedRoot
  workspaceIdentity : WorkspaceIdentity
  gitConfig : List UInt8
  path : FsPath
  deriving DecidableEq, Repr

structure InspectionResult where
  repositoryId : String
  commitSha : String
  deriving DecidableEq, Repr

def cleanupFailed (e : InspectionError) : Bool := e.cleanupFailure.isSome || e.phase == .cleanup

/-- How the callback of an inspection fails. -/
inductive RuntimeFailure
  | returned (reason : String)
  | panicked
  deriving DecidableEq, Repr

def validateRequest (request : InspectionRequest) : Except InspectionError Unit :=
  if Text.blank request.sessionId || Text.blank request.taskId then
    .error (.unauthorized "session and task IDs are required")
  else request.repository.validate

section

variable (E : Surroundings) (I : RepositoryInspector)

def validateAuthorizedSource (sessionId : String) (source : RepositorySource)
    (authorization : RunAuthorization) : Except InspectionError Unit :=
  if sessionId ≠ authorization.sessionId then
    .error (.unauthorized "inspection session does not match run authorization")
  else match authorization.repositories.find? fun repository => repository.repositoryId == source.repositoryId with
    | none =>
      .error (.unauthorized ("repository " ++ E.debug source.repositoryId ++ " is not authorized for this run"))
    | some repository =>
      if repository.url ≠ source.url then
        .error (.unauthorized "repository URL does not match run authorization")
      else .ok ()

def validateRepositorySelection (request : InspectionRequest) (authorization : RunAuthorization) :
    Except InspectionError Unit :=
  validateAuthorizedSource E request.sessionId request.repository authorization

/-! ### The checkout -/

/-- `enter_operation_with_cancellation`, which waits while the gate is found closed. -/
def enterOperation : List CleanupGate.CleanupGateState → Inspecting Unit
  | [] => do
    let flag ← isCancelled E
    match (CleanupGate.enterTurn {} flag).2 with
    | .cancelled e => fail e
    | _ => pure ()
  | state::states => do
    let flag ← isCancelled E
    match (CleanupGate.enterTurn state flag).2 with
    | .cancelled e => fail e
    | .entered => pure ()
    | .waits => enterOperation states

/-- `lock_repository`, which finds the lock taken so often. -/
def lockRepository : ℕ → Inspecting Unit
  | 0 => ensureNotCancelled E "inspection cancelled while waiting for repository"
  | turns+1 => do
    ensureNotCancelled E "inspection cancelled while waiting for repository"
    lockRepository turns

def validateWorkspaceRoot : Inspecting Unit :=
  inPhase .workspace (validateRootIdentity E.calls I.workspaceRoot I.workspaceRootIdentity)

def RepositoryInspector.workspacePath (request : InspectionRequest) (processId sequence : ℕ) : FsPath :=
  I.workspaceRoot ++ [.text (PathNames.workspaceName request processId sequence)]

/-- The loop of `allocate_workspace`; out of turns it is still at work. -/
def allocateLoop (request : InspectionRequest) : ℕ → Inspecting FsPath
  | 0 => fun _ => none
  | turns+1 => do
    let sequence ← drawSequence workspaceSequence
    let path := I.workspacePath request E.processId sequence
    match ← attempt (Call.symlinkMetadata E.calls path) with
    | .ok _ => allocateLoop request turns
    | .error .notFound => pure path
    | .error error =>
      fail (inspectionError .workspace ("inspect workspace destination " ++ display path ++ ": " ++ error.text))

def allocateWorkspace (request : InspectionRequest) : Inspecting FsPath := do
  validateWorkspaceRoot E I
  -- a turn finds an entry of the tree that no other has found
  let turns ← look fun d => d.tree.entries.length+1
  allocateLoop E I request turns

def validateWorkspaceDestination (path : FsPath) : Op Unit := do
  validateRootIdentity E.calls I.workspaceRoot I.workspaceRootIdentity
  if parent? path ≠ some I.workspaceRoot || !path.getLast?.any (hasStart PathNames.workspacePrefix) then
    fail "workspace destination is outside the dedicated root"
  else
    whenPresent E.calls path (pure ()) fun _ => fail "workspace destination already exists"

def writeWorkspaceIdentity (workspace : FsPath) (identity : String) : Op Unit :=
  whenPresent E.calls (markerPath workspace)
    (io (Call.write E.calls E.created E.kept (markerPath workspace) (Text.asBytes identity)))
    fun _ => fail "workspace identity marker already exists"

def validateOwnWorkspacePath (workspace : FsPath) : Inspecting Unit :=
  inPhase .workspace (validateWorkspacePath E.calls I.workspaceRoot I.workspaceRootIdentity workspace)

/-- `create_checkout` until the identity of the checkout is captured. -/
def cloneCheckout (cache workspace : FsPath) : Inspecting WorkspaceIdentity := do
  ensureNotCancelled E "inspection cancelled before checkout creation"
  inPhase .cache (validateCachePath E I.cacheRoot I.cacheRootIdentity cache)
  inPhase .workspace (validateWorkspaceDestination E I workspace)
  let _ ← gitOutputForPhase E cache.dropLast I.cache none (some I.workspaces)
    [.text "clone",.text "--no-local",.text "--no-checkout",.text "--",.path cache,.path workspace] .workspace true
  ensureNotCancelled E "inspection cancelled after checkout clone"
  validateOwnWorkspacePath E I workspace
  mapError (fun error : IoError => inspectionError .workspace error.text) (restrictRootPermissions E workspace)
  sanitizeLocalGitConfig E workspace I.workspaces none .workspace
  ensureNotCancelled E "inspection cancelled after checkout sanitization"
  validateOwnWorkspacePath E I workspace
  inPhase .workspace (writeWorkspaceIdentity E workspace
    ((workspace.getLast?.bind OsName.toStr).getD PathNames.workspacePrefix))
  inPhase .workspace (captureWorkspaceIdentity E.calls workspace)

/-- `create_checkout` from there. -/
def checkoutRevision (workspace : FsPath) (identity : WorkspaceIdentity) (commitSha : String) :
    Inspecting Unit := do
  validateOwnWorkspacePath E I workspace
  let _ ← gitOutputForPhase E workspace I.workspaces (some identity) none
    [.text "checkout",.text "--detach",.text "--force",.text commitSha] .revision true
  ensureNotCancelled E "inspection cancelled after checkout revision"
  validateOwnWorkspacePath E I workspace
  let actual ← resolveCommit E workspace I.workspaces (some identity) true
  if actual ≠ commitSha then
    fail (inspectionError .revision
      ("detached checkout resolved to " ++ E.debug actual ++ ", expected " ++ E.debug commitSha))
  else pure ()

/-- An error comes with the identity of the checkout, once that is captured. -/
def createCheckout (cache workspace : FsPath) (commitSha : String) :
    Prog FsDisk (InspectionError × Option WorkspaceIdentity) (Option WorkspaceIdentity) := do
  let identity ← mapError (fun error => (error,none)) (cloneCheckout E I cache workspace)
  mapError (fun error => (error,some identity)) (checkoutRevision E I workspace identity commitSha)
  pure (some identity)

def cleanupWorkspaceAfterError {α : Type} (path : FsPath) (identity : Option WorkspaceIdentity)
    (error : InspectionError) : Inspecting α :=
  match identity with
  | some identity =>
    failAfter (removeOwnedWorkspacePath E.calls I.workspaceRoot path I.workspaceRootIdentity identity) error
  | none => fail { error with
      cleanupFailure := some "workspace ownership was not established; path retained for startup cleanup" }

def configPath (workspace : FsPath) : FsPath := gitDirectory workspace ++ [.text "config"]

def readGitConfig (workspace : FsPath) : Op (List UInt8) := do
  let _ ← ownedEntry E.calls (gitDirectory workspace) Entry.isDir
    "checkout Git directory is not an owned directory"
  let _ ← ownedEntry E.calls (configPath workspace) Entry.isFile "checkout Git config is not an owned file"
  io (Call.read E.calls (configPath workspace))

/-- `prepare_unchecked` from the place for the checkout. -/
def prepareCheckout (request : InspectionRequest) (cache path : FsPath) (commitSha : String) :
    Inspecting PreparedWorkspace := do
  let checkoutIdentity ← handling (createCheckout E I cache path commitSha) fun failed =>
    cleanupWorkspaceAfterError E I path failed.2 failed.1
  handling (ensureNotCancelled E "inspection cancelled after checkout")
    (cleanupWorkspaceAfterError E I path checkoutIdentity)
  match checkoutIdentity with
  | none =>
    cleanupWorkspaceAfterError E I path none (inspectionError .workspace "checkout identity was not captured")
  | some identity => do
    handling (ensureNotCancelled E "inspection cancelled before checkout config capture")
      (cleanupWorkspaceAfterError E I path (some identity))
    let gitConfig ← handling (readGitConfig E path) fun reason =>
      cleanupWorkspaceAfterError E I path (some identity) (inspectionError .workspace reason)
    handling (ensureNotCancelled E "inspection cancelled after checkout config capture")
      (cleanupWorkspaceAfterError E I path (some identity))
    pure {
      sessionId := request.sessionId
      repositoryId := request.repository.repositoryId
      repositoryUrl := request.repository.url
      commitSha := commitSha
      workspaces := I.workspaces
      workspaceIdentity := identity
      gitConfig := gitConfig
      path := path }

def prepareUnchecked (request : InspectionRequest) : Inspecting PreparedWorkspace := do
  orFail (validateRequest request)
  ensureNotCancelled E "inspection cancelled before repository preparation"
  enterOperation E E.gate
  validateCacheRoot E I
  validateWorkspaceRoot E I
  lockRepository E E.lockTurns
  let cache ← ensureCache E I request.repository
  ensureNotCancelled E "inspection cancelled before revision resolution"
  validateCacheRoot E I
  inPhase .cache (validateCachePath E I.cacheRoot I.cacheRootIdentity cache)
  let commitSha ← resolveCommit E cache I.cache none true
  ensureNotCancelled E "inspection cancelled before checkout allocation"
  let path ← allocateWorkspace E I request
  prepareCheckout E I request cache path commitSha

def prepareAuthorizedWithCancellation (request : InspectionRequest) (authorization : RunAuthorization) :
    Inspecting PreparedWorkspace := do
  ensureNotCancelled E "inspection cancelled before repository authorization"
  orFail (validateRepositorySelection E request authorization)
  ensureNotCancelled E "inspection cancelled after repository authorization"
  prepareUnchecked E I request

/-! ### The end -/

def validateGitConfig (w : PreparedWorkspace) : Op Unit := do
  validateWorkspaceIdentityAt E.calls w.path w.workspaceIdentity
  let current ← readGitConfig E w.path
  if current ≠ w.gitConfig then fail "checkout Git config changed after preparation" else pure ()

def dirtyDetailsForWorkspace (w : PreparedWorkspace) : Op (Option String) := do
  validateWorkspacePath E.calls w.workspaces.path w.workspaces.identity w.path
  validateGitConfig E w
  dirtyDetails E w.path w.workspaces w.workspaceIdentity

/-- What is wrong with the commit that the checkout is found at. -/
def revisionFailure (w : PreparedWorkspace) : Except InspectionError String → Option InspectionError
  | .ok commit =>
    if commit = w.commitSha then none
    else some (inspectionError .revision "checkout revision changed after inspection")
  | .error error => some error

def recordRevisionFailure (failure : Option InspectionError) (w : PreparedWorkspace) :
    Inspecting (Option InspectionError) := do
  let resolved ← attempt (resolveCommit E w.path w.workspaces (some w.workspaceIdentity) false)
  match revisionFailure w resolved, failure with
  | none, failure => pure failure
  | some revisionError, none => pure (some revisionError)
  | some revisionError, some error =>
    pure (some { error with reason := error.reason ++ "; " ++ revisionError.reason })

def recordDirtyFailure (failure : Option InspectionError) (w : PreparedWorkspace) :
    Inspecting (Option InspectionError) := do
  match ← attempt (dirtyDetailsForWorkspace E w), failure with
  | .ok none, failure => pure failure
  | .ok (some details), some error => pure (some { error with contamination := some details })
  | .ok (some details), none =>
    pure (some ⟨.dirtyTree,"unexpected changes detected in disposable checkout",some details,none⟩)
  | .error reason, some error =>
    pure (some { error with contamination := some ("workspace integrity check failed: " ++ reason) })
  | .error reason, none =>
    pure (some (inspectionError .dirtyTree ("workspace integrity check failed: " ++ reason)))

def removeWorkspace (w : PreparedWorkspace) : Op Unit :=
  removeOwnedWorkspacePath E.calls w.workspaces.path w.path w.workspaces.identity w.workspaceIdentity

def finish (w : PreparedWorkspace) (primaryFailure : Option InspectionError) : Inspecting InspectionResult := do
  let failure ← recordRevisionFailure E primaryFailure w
  let failure ← recordDirtyFailure E failure w
  match ← attempt (removeWorkspace E w), failure with
  | .ok (), none => pure ⟨w.repositoryId,w.commitSha⟩
  | .ok (), some error => fail error
  | .error reason, some error => fail { error with cleanupFailure := some reason }
  | .error reason, none => fail (inspectionError .cleanup ("remove " ++ display w.path ++ ": " ++ reason))

def dispose (w : PreparedWorkspace) : Inspecting Unit :=
  mapError (fun reason => inspectionError .cleanup ("remove " ++ display w.path ++ ": " ++ reason))
    (removeWorkspace E w)

def nonEmptyReason (reason fallback : String) : String := if Text.blank reason then fallback else reason

/-- What the callback of an inspection does in its checkout. It hands out a value when it returns. -/
abbrev Callback (α : Type) := PreparedWorkspace → Prog FsDisk RuntimeFailure α

variable {α : Type}

def primaryFailure (w : PreparedWorkspace) (runtime : Callback α) :
    Inspecting (Option InspectionError × Option α) := do
  if ← isCancelled E then
    pure (some (inspectionError .cancellation "inspection cancelled before runtime dispatch"),none)
  else
    match ← attempt (runtime w) with
    | .ok out =>
      if ← isCancelled E then pure (some (inspectionError .cancellation "inspection cancelled"),some out)
      else pure (none,some out)
    | .error (.returned reason) =>
      if ← isCancelled E then
        pure (some (inspectionError .cancellation (nonEmptyReason reason "inspection cancelled")),none)
      else pure (some (inspectionError .runtime (nonEmptyReason reason "runtime inspection failed")),none)
    | .error .panicked => pure (some (inspectionError .runtime "runtime inspection panicked"),none)

def inspectPreparedWithCancellation (w : PreparedWorkspace) (runtime : Callback α) :
    Inspecting (InspectionResult × Option α) := do
  let (failure,out) ← primaryFailure E w runtime
  let result ← finish E w failure
  pure (result,out)

def readOnlyGitCommands : List String :=
  ["cat-file","describe","diff","log","ls-files","rev-parse","show","status"]

/-- An argument that would let a reading command run or write something else. -/
def refusedArgument (argument : String) : Bool :=
  startsWith argument "-c" || argument == "--config" || startsWith argument "--config=" ||
    argument == "--config-env" || startsWith argument "--config-env=" || startsWith argument "-C" ||
    startsWith argument "--git-dir" || startsWith argument "--work-tree" ||
    startsWith argument "--super-prefix" || startsWith argument "--exec-path" ||
    startsWith argument "--upload-pack" || argument == "--ext-diff" || argument == "--textconv" ||
    argument == "--no-index" || startsWith argument "--output" || argument == "-o" || startsWith argument "-o"

def readGitAllowed (args : List String) : Bool :=
  match args with
  | [] => false
  | command::rest => readOnlyGitCommands.contains command && !rest.any refusedArgument

/-- `read_git_bounded_with_cancellation`. -/
def readGitBounded (w : PreparedWorkspace) (authorization : RunAuthorization) (args : List String)
    (maxOutputBytes : ℕ) : Inspecting BoundedGitOutput := do
  orFail (validateAuthorizedSource E w.sessionId ⟨w.repositoryId,w.repositoryUrl⟩ authorization)
  inPhase .workspace (validateWorkspacePath E.calls w.workspaces.path w.workspaces.identity w.path)
  inPhase .runtime (validateGitConfig E w)
  if !readGitAllowed args then
    fail (inspectionError .runtime "Git command is outside the read-only allowlist")
  else
    mapError (inspectionErrorFromGit .runtime) (gitOutputManaged E w.path w.workspaces
      (some w.workspaceIdentity) none (args.map .text) true (some maxOutputBytes) true)

end

/-! ### What an inspection may leave -/

section

variable {E : Surroundings} {I : RepositoryInspector} {t t₁ t₂ : FsTree} {request : InspectionRequest}
  {path : FsPath}

/-- Nothing is under a place for a staging directory or for a checkout that nothing has. -/
structure Settled (I : RepositoryInspector) (t : FsTree) : Prop where
  hollow : ∀ component, Hollow (I.cacheRoot ++ [component]) t
  vacant : ∀ name q, t.lookup (I.workspaceRoot ++ [name]) = none → I.workspaceRoot ++ [name] <+: q →
    t.lookup q = none

theorem settled_of_closed (h : t.Closed) : Settled I t :=
  ⟨fun _ _ _ _ hfree hle => h.free (by simp) hfree hle,fun _ _ hfree hle => h.free (by simp) hfree hle⟩

theorem tidy_of_workspaceRoot (source : RepositorySource) {p : FsPath} (h : I.workspaceRoot <+: p) :
    Tidy (I.repositoryRoot source) p := by
  have hroot : I.cacheRoot <+: I.repositoryRoot source := List.prefix_append _ _
  refine ⟨?_,fun hle => apart_roots ((hroot.trans (List.prefix_append _ _)).trans hle) h⟩
  rintro rfl
  exact apart_roots hroot h

/-- What an inspection may have done to the tree: changed the namespace of its repository and made
one checkout where nothing was. Where its cleanups are `clean`, only the entry of the namespace and
the cache in it have changed. -/
structure InspectionLeft (E : Surroundings) (I : RepositoryInspector) (request : InspectionRequest) (t : FsTree)
    (clean : Prop) (t' : FsTree) : Prop where
  footprint : ∃ n, t.Agree (fun p => Without (I.repositoryRoot request.repository) p ∧
    (t.lookup (I.workspacePath request E.processId n) = none →
      Without (I.workspacePath request E.processId n) p)) t'
  tidy : clean → Settled I t → t.Agree (Tidy (I.repositoryRoot request.repository)) t'

theorem InspectionLeft.mono {clean clean' : Prop} (h : InspectionLeft E I request t clean t₁)
    (hclean : clean' → clean) : InspectionLeft E I request t clean' t₁ :=
  ⟨h.footprint,fun hc => h.tidy (hclean hc)⟩

def leftByInspection (E : Surroundings) (I : RepositoryInspector) (request : InspectionRequest) (t : FsTree) :
    Leftover :=
  ⟨InspectionLeft E I request t,fun hclean h => h.mono hclean⟩

theorem CacheLeft.inspection {clean : Prop} (h : CacheLeft (I.repositoryRoot request.repository) t clean t₁) :
    InspectionLeft E I request t clean t₁ :=
  ⟨⟨0,h.footprint.mono fun _ hp => hp.1⟩,fun hclean hsettled => h.tidy hclean (hsettled.hollow _)⟩

/-- The checkout of an inspection stands or is on its way: nothing was there before it. Beside it
the entry of the namespace may have changed and the cache in it. -/
structure Standing (E : Surroundings) (I : RepositoryInspector) (request : InspectionRequest) (t : FsTree)
    (path : FsPath) (t₁ : FsTree) : Prop where
  named : ∃ n, path = I.workspacePath request E.processId n
  free : t.lookup path = none
  agree : t.Agree (fun p => Tidy (I.repositoryRoot request.repository) p ∧ Without path p) t₁

theorem Standing.change (h : Standing E I request t path t₁) (hagree : t₁.Agree (Without path) t₂) :
    Standing E I request t path t₂ :=
  ⟨h.named,h.free,h.agree.trans (hagree.mono fun _ hp => hp.2)⟩

theorem Standing.left (h : Standing E I request t path t₁) : InspectionLeft E I request t False t₁ := by
  obtain ⟨⟨n,rfl⟩,hfree,hagree⟩ := h
  exact ⟨⟨n,hagree.mono fun p hp => ⟨hp.1.tidy,hp.2 hfree⟩⟩,False.elim⟩

theorem Standing.removed (h : Standing E I request t path t₁) (hpruned : t₁.Pruned [path] t₂) :
    InspectionLeft E I request t True t₂ := by
  have hagree : t₁.Agree (Without path) t₂ := agree_of_differs hpruned.differs fun p hp place hmem =>
    List.mem_singleton.mp hmem ▸ hp
  refine ⟨(h.change hagree).left.footprint,fun _ hsettled p hp => ?_⟩
  by_cases hunder : path <+: p
  · rw [hpruned.bare p ⟨path,by simp,hunder⟩]
    obtain ⟨⟨n,rfl⟩,hfree,-⟩ := h
    exact (hsettled.vacant _ _ hfree hunder).symm
  · exact (h.change hagree).agree p ⟨hp,hunder⟩

theorem cleans_removeWorkspace (root : FsPath) (rootIdentity : FsIdentity) (identity : WorkspaceIdentity) :
    Cleans (leftByInspection E I request t) (Standing E I request t path)
      (removeOwnedWorkspacePath E.calls root path rootIdentity identity) := by
  intro t₁ hstanding
  refine (triple_removeOwnedWorkspacePath _ _ _ _).post (fun _ _ hd => hstanding.removed hd.2.2) ?_
  rintro _ d (rfl | ⟨-,-,hd⟩)
  · exact hstanding.left
  · refine (hstanding.change (agree_of_differs hd fun p hp place hmem => ?_)).left
    exact List.mem_singleton.mp hmem ▸ hp

theorem Prepares.weaken {α : Type} {L L' : Leftover} {m : Inspecting α} {Q : α → FsTree → Prop}
    (h : Prepares L t₁ m Q) (hL : ∀ clean t', L.after clean t' → L'.after clean t') : Prepares L' t₁ m Q :=
  Triple.post h (fun _ _ hd => hd) fun _ _ hd => hL _ _ hd

/-! ### The checkout -/

theorem seen_enterOperation (states : List CleanupGate.CleanupGateState) :
    Seen t (enterOperation E states) fun _ => True := by
  induction states with
  | nil =>
    refine seen_bind seen_isCancelled fun flag _ => ?_
    cases (CleanupGate.enterTurn {} flag).2 with
    | cancelled e => exact seen_fail _
    | entered => exact seen_pure trivial
    | waits => exact seen_pure trivial
  | cons state states ih =>
    refine seen_bind seen_isCancelled fun flag _ => ?_
    cases (CleanupGate.enterTurn state flag).2 with
    | cancelled e => exact seen_fail _
    | entered => exact seen_pure trivial
    | waits => exact ih

theorem seen_lockRepository (turns : ℕ) : Seen t (lockRepository E turns) fun _ => True := by
  induction turns with
  | zero => exact seen_ensureNotCancelled _
  | succ turns ih => exact seen_bind (seen_ensureNotCancelled _) fun _ _ => ih

theorem seen_allocateLoop (hroot : t.Dirs I.workspaceRoot) (turns : ℕ) :
    Seen t (allocateLoop E I request turns) fun path =>
      (∃ n, path = I.workspacePath request E.processId n) ∧ t.lookup path = none := by
  induction turns with
  | zero =>
    intro d _ r d' hexec
    simp [exec,allocateLoop] at hexec
  | succ turns ih =>
    refine seen_bind (seen_drawSequence _) fun n _ => seen_bind (seen_reading _) fun result hresult => ?_
    cases result with
    | ok entry => exact ih
    | error error =>
      cases error with
      | notFound =>
        refine seen_pure ⟨⟨n,rfl⟩,(symlinkMetadata_notFound ?_).mp (hresult.2 rfl)⟩
        rw [RepositoryInspector.workspacePath,List.dropLast_concat]
        exact hroot
      | _ => exact seen_fail _

theorem seen_allocateWorkspace :
    Seen t (allocateWorkspace E I request) fun path =>
      (∃ n, path = I.workspacePath request E.processId n) ∧ t.lookup path = none :=
  seen_bind (seen_mapError _ (seen_validateRootIdentity _ _)) fun _ hroot =>
    seen_bind (triple_look fun _ hd => ⟨hd,trivial⟩) fun _ (_ : True) => seen_allocateLoop hroot.1 _

theorem seen_validateWorkspaceDestination :
    Seen t (validateWorkspaceDestination E I path) fun _ => t.Dirs I.workspaceRoot := by
  refine seen_bind (seen_validateRootIdentity _ _) fun _ hroot => ?_
  split_ifs
  · exact seen_fail _
  · exact triple_whenPresent (fun _ _ hd => hd) (fun _ => seen_pure hroot.1) fun _ _ => seen_fail _

theorem seen_validateOwnWorkspacePath :
    Seen t (validateOwnWorkspacePath E I path) fun _ => t.Dirs path :=
  seen_mapError _ ((seen_validateWorkspacePath _ _ _).mono fun _ ⟨_,howned⟩ => howned.real.1)

/-- The Git directory of a checkout is no link. -/
def GitUnlinked (path : FsPath) (t : FsTree) : Prop :=
  ∀ entry, t.lookup (gitDirectory path) = some entry → entry.isSymlink = false

theorem GitUnlinked.after (h : GitUnlinked path t) (hunlinked : Unlinked t t₁) : GitUnlinked path t₁ := by
  intro entry hentry
  by_contra hlink
  have hlink : entry.isSymlink = true := by simpa using hlink
  rw [h entry (hunlinked path entry hentry hlink)] at hlink
  cases hlink

theorem keeps_writeWorkspaceIdentity (hdirs : t.Dirs path) (hgit : GitUnlinked path t) (identity : String) :
    Keeps (Without path) t (writeWorkspaceIdentity E path identity) (fun _ _ => True) fun _ _ => True := by
  have hstay : ∀ d : FsDisk, d.tree = t → t.Agree (Without path) d.tree ∧ True := fun d hd =>
    same_tree (X := fun _ => True) hd trivial
  refine triple_whenPresent (fun _ d hd => hstay d hd) (fun habsent => ?_) fun _ _ =>
    triple_fail fun d hd => hstay d hd
  cases hlookup : t.lookup (gitDirectory path) with
  | none =>
    exact triple_io ((triple_write_missing hdirs hlookup).post (fun _ _ hd => hd.elim) fun _ d hd => hstay d hd)
  | some entry =>
    have hmarker : ∀ p, Without path p → p ≠ markerPath path := by
      rintro _ hp rfl
      exact hp ((List.prefix_append _ _).trans (List.prefix_append _ _))
    cases entry with
    | dir gitIdentity writable =>
      have hgitDirs : t.Dirs (markerPath path).dropLast := by
        rw [markerPath,List.dropLast_concat]
        exact dirs_concat hdirs hlookup
      have hfree := (symlinkMetadata_notFound hgitDirs).mp habsent
      exact triple_io ((triple_write hgitDirs (by simp [markerPath]) hfree).post
        (fun _ _ hd => ⟨hd.mono hmarker,trivial⟩) fun _ _ hd => ⟨hd.mono hmarker,trivial⟩)
    | file gitIdentity content =>
      have hphysical : t.Physical (gitDirectory path) :=
        ⟨by rwa [gitDirectory,List.dropLast_concat],fun _ => ⟨_,hlookup,rfl⟩⟩
      have hholds : t.holds (gitDirectory path) = false := by
        simp only [Tree.holds,hlookup,Option.any_some,Entry.isDir,Bool.or_false]
        simp [gitDirectory]
      simp [Tree.symlinkMetadata,Tree.place,markerPath,canonicalize_of_physical hphysical,hholds,bind,
        Except.bind] at habsent
    | symlink gitIdentity absolute target => cases hgit _ hlookup

theorem keeps_restrictCheckout (hdirs : t.Dirs path) (hne : path ≠ []) (hgit : GitUnlinked path t) :
    Keeps (Without path) t (restrictRootPermissions E path) (fun _ t' => t'.Dirs path ∧ GitUnlinked path t')
      fun _ _ => True := by
  have hkeeps : Keeps (· ≠ path) t (restrictRootPermissions E path)
      (fun _ t' => t'.Dirs path ∧ GitUnlinked path t') fun _ _ => True := by
    refine (keeps_restrictRootPermissions hdirs hne).post (fun _ t' hagree hdirs' => ?_) fun _ _ _ _ => trivial
    refine ⟨hdirs',fun entry hentry => hgit entry ?_⟩
    rwa [hagree _ (by simp [gitDirectory])] at hentry
  exact hkeeps.mono fun p hp heq => hp (heq ▸ List.prefix_refl _)

theorem looks_captureWorkspaceIdentity : Seen t (captureWorkspaceIdentity E.calls path) fun _ => True := by
  unfold captureWorkspaceIdentity
  cases path.getLast?.bind OsName.toStr with
  | none => exact seen_fail _
  | some name =>
    refine seen_bind (seen_ownedEntry _ _ _) fun _ _ => seen_bind (seen_ownedEntry _ _ _) fun _ _ => ?_
    refine seen_bind (seen_ownedEntry _ _ _) fun _ _ => seen_bind seen_io fun _ _ => ?_
    split_ifs
    · exact seen_fail _
    · exact seen_pure trivial

theorem keeps_cloneCheckout (cache : FsPath) (htext : Textual path)
    (hroot : path.dropLast = I.workspaceRoot) (hgit : GitUnlinked path t) :
    Keeps (Without path) t (cloneCheckout E I cache path) (fun _ _ => True) fun _ _ => True := by
  refine keeps_after (seen_ensureNotCancelled _) (fun _ => trivial) fun _ _ => ?_
  refine keeps_after (seen_mapError _ (looks_validateCachePath _ _ _)) (fun _ => trivial) fun _ _ => ?_
  refine keeps_after (seen_mapError _ seen_validateWorkspaceDestination) (fun _ => trivial) fun _ hparent => ?_
  have hclone : Keeps (Without path) t (gitOutputForPhase E cache.dropLast I.cache none (some I.workspaces)
      [.text "clone",.text "--no-local",.text "--no-checkout",.text "--",.path cache,.path path] .workspace true)
      (fun _ t' => Unlinked t t') fun _ _ => True := by
    have hagree : ∀ t', Commanded E cache.dropLast
        [.text "clone",.text "--no-local",.text "--no-checkout",.text "--",.path cache,.path path] t t' →
        t.Agree (Without path) t' := fun t' =>
      agree_of_cloning [.text "--no-local",.text "--no-checkout",.text "--",.path cache] htext
        (hroot ▸ hparent)
    exact (triple_gitOutputForPhase (looks_validateSpawn _ _ _ _) _ _ _).post
      (fun _ d hd => ⟨hagree _ hd.2.1,hd.2.1.unlinked⟩) fun _ d hd => ⟨hagree _ (hd.elim .inl And.right),trivial⟩
  refine keeps_bind hclone fun _ t₁ _ hunlinked => ?_
  have hgit₁ := hgit.after hunlinked
  refine keeps_after (seen_ensureNotCancelled _) (fun _ => trivial) fun _ _ => ?_
  refine keeps_after seen_validateOwnWorkspacePath (fun _ => trivial) fun _ hdirs₁ => ?_
  have hne : path ≠ [] := by
    rintro rfl
    have hnil : I.workspaceRoot = [] := hroot.symm
    exact apart_roots (I := I) (p := I.cacheRoot) (List.prefix_refl _) (hnil ▸ List.nil_prefix)
  refine keeps_bind (keeps_mapError (keeps_restrictCheckout hdirs₁ hne hgit₁)) fun _ t₂ _ h₂ => ?_
  refine keeps_bind ((keeps_sanitizeLocalGitConfig _ _ _ h₂.1).mono fun _ hp => hp.beside) fun _ t₃ _ hunlinked₃ => ?_
  have hgit₃ := h₂.2.after hunlinked₃
  refine keeps_after (seen_ensureNotCancelled _) (fun _ => trivial) fun _ _ => ?_
  refine keeps_after seen_validateOwnWorkspacePath (fun _ => trivial) fun _ hdirs₃ => ?_
  refine keeps_bind (keeps_mapError (keeps_writeWorkspaceIdentity hdirs₃ hgit₃ _)) fun _ t₄ _ _ => ?_
  exact keeps_of_seen (seen_mapError _ looks_captureWorkspaceIdentity) (fun _ _ => trivial) fun _ => trivial

theorem keeps_checkoutRevision {name : OsName} (identity : WorkspaceIdentity) (commitSha : String) :
    Keeps (Beside (I.workspaceRoot ++ [name])) t
      (checkoutRevision E I (I.workspaceRoot ++ [name]) identity commitSha)
      (fun _ t' => HeadAt E (I.workspaceRoot ++ [name]) t' commitSha) fun _ _ => True := by
  refine keeps_after seen_validateOwnWorkspacePath (fun _ => trivial) fun _ _ => ?_
  refine keeps_bind (keeps_gitInWorkspace I.workspaces .revision true (by decide)) fun _ t₁ _ _ => ?_
  refine keeps_after (seen_ensureNotCancelled _) (fun _ => trivial) fun _ _ => ?_
  refine keeps_after seen_validateOwnWorkspacePath (fun _ => trivial) fun _ _ => ?_
  refine keeps_after (seen_resolveCommit _ _ _ _) (fun _ => trivial) fun actual hactual => ?_
  split_ifs with hsame
  · exact keeps_fail trivial
  · exact keeps_pure (not_not.mp hsame ▸ hactual)

theorem keeps_createCheckout (cache : FsPath) {name : OsName} (htext : Textual (I.workspaceRoot ++ [name]))
    (hgit : GitUnlinked (I.workspaceRoot ++ [name]) t) (commitSha : String) :
    Keeps (Without (I.workspaceRoot ++ [name])) t (createCheckout E I cache (I.workspaceRoot ++ [name]) commitSha)
      (fun identity t' => (∃ captured, identity = some captured) ∧
        HeadAt E (I.workspaceRoot ++ [name]) t' commitSha) fun _ _ => True := by
  refine keeps_bind (keeps_mapError (keeps_cloneCheckout cache htext ( List.dropLast_concat) hgit))
    fun identity t₁ _ _ => ?_
  refine keeps_bind (keeps_mapError ((keeps_checkoutRevision identity commitSha).mono fun _ hp => hp.beside))
    fun _ t₂ _ hhead => ?_
  exact keeps_pure ⟨⟨identity,rfl⟩,hhead⟩

theorem seen_readGitConfig : Seen t (readGitConfig E path) fun content => t.read (configPath path) = .ok content :=
  seen_bind (seen_ownedEntry _ _ _) fun _ _ => seen_bind (seen_ownedEntry _ _ _) fun _ _ => seen_io

/-- The checkout of a prepared inspection, at the commit that the cache has resolved. -/
structure Prepared (E : Surroundings) (I : RepositoryInspector) (request : InspectionRequest) (t : FsTree)
    (w : PreparedWorkspace) (t' : FsTree) : Prop where
  standing : Standing E I request t w.path t'
  workspaces : w.workspaces = I.workspaces
  sessionId : w.sessionId = request.sessionId
  repositoryId : w.repositoryId = request.repository.repositoryId
  repositoryUrl : w.repositoryUrl = request.repository.url
  head : HeadAt E w.path t' w.commitSha
  config : t'.read (configPath w.path) = .ok w.gitConfig

theorem prepares_cleanupWorkspace {α : Type} (identity : WorkspaceIdentity)
    (hstanding : Standing E I request t path t₁) (error : InspectionError) :
    Prepares (leftByInspection E I request t) t₁
      (cleanupWorkspaceAfterError E I path (some identity) error : Inspecting α) fun _ _ => False :=
  prepares_failAfter (cleans_removeWorkspace _ _ _ _ hstanding) error

/-- A look at the tree beside the removal of the checkout. -/
theorem prepares_guarded {α ε : Type} {m : Prog FsDisk ε α} {P : α → Prop} {error : ε → InspectionError}
    (identity : WorkspaceIdentity) (hstanding : Standing E I request t path t₁) (hm : Seen t₁ m P) :
    Prepares (leftByInspection E I request t) t₁
      (handling m fun e => cleanupWorkspaceAfterError E I path (some identity) (error e))
      fun a t' => t₁ = t' ∧ P a :=
  prepares_look (cleans_removeWorkspace _ _ _) hstanding hm

theorem prepares_prepareCheckout (cache : FsPath) (commitSha : String) (htext : Textual I.workspaceRoot)
    (hsettled : Settled I t) (hcache : t.Agree (Tidy (I.repositoryRoot request.repository)) t₁)
    (hnamed : ∃ n, path = I.workspacePath request E.processId n) (hfree : t.lookup path = none) :
    Prepares (leftByInspection E I request t) t₁ (prepareCheckout E I request cache path commitSha)
      fun w t' => Prepared E I request t w t' := by
  have hstanding : Standing E I request t path t₁ := ⟨hnamed,hfree,hcache.mono fun _ hp => hp.1⟩
  obtain ⟨n,rfl⟩ := hnamed
  have hgit : GitUnlinked (I.workspacePath request E.processId n) t₁ := by
    intro entry hentry
    have hnone := hsettled.vacant _ (gitDirectory (I.workspacePath request E.processId n)) hfree
      (List.prefix_append _ _)
    have hsame := hcache (gitDirectory (I.workspacePath request E.processId n))
      (tidy_of_workspaceRoot _ ((List.prefix_append _ _).trans (List.prefix_append _ _)))
    rw [hsame,hnone] at hentry
    cases hentry
  have hcreate : Keeps (Without (I.workspacePath request E.processId n)) t₁
      (createCheckout E I cache (I.workspacePath request E.processId n) commitSha)
      (fun identity t' => (∃ captured, identity = some captured) ∧
        HeadAt E (I.workspacePath request E.processId n) t' commitSha) fun _ _ => True :=
    keeps_createCheckout cache (htext.concat ⟨_,rfl⟩) hgit commitSha
  refine prepares_bind (Q := fun identity t' => (∃ captured, identity = some captured) ∧
      Standing E I request t (I.workspacePath request E.processId n) t' ∧
      HeadAt E (I.workspacePath request E.processId n) t' commitSha)
    (triple_handling (R := fun _ d => Standing E I request t (I.workspacePath request E.processId n) d.tree)
      (Triple.post hcreate (fun _ _ hd => ⟨hd.2.1,hstanding.change hd.1,hd.2.2⟩)
        fun _ _ hd => hstanding.change hd.1) ?_) ?_
  · rintro ⟨error,identity⟩
    cases identity with
    | none => exact triple_fail fun d hd => InspectionLeft.mono hd.left fun hnone => by cases hnone
    | some identity =>
      exact triple_each fun t₂ h₂ => Triple.post (prepares_cleanupWorkspace identity h₂ error)
        (fun _ _ hd => hd.elim) fun _ _ hd => hd
  rintro _ t₂ ⟨⟨identity,rfl⟩,hstanding₂,hhead⟩
  refine prepares_bind (prepares_guarded identity hstanding₂ (seen_ensureNotCancelled _)) ?_
  rintro _ _ ⟨rfl,-⟩
  refine prepares_bind (prepares_guarded identity hstanding₂ (seen_ensureNotCancelled _)) ?_
  rintro _ _ ⟨rfl,-⟩
  refine prepares_bind (prepares_guarded identity hstanding₂ seen_readGitConfig) ?_
  rintro gitConfig _ ⟨rfl,hconfig⟩
  refine prepares_bind (prepares_guarded identity hstanding₂ (seen_ensureNotCancelled _)) ?_
  rintro _ _ ⟨rfl,-⟩
  exact triple_pure fun d hd => hd ▸ ⟨hstanding₂,rfl,rfl,rfl,rfl,hhead,hconfig⟩

theorem prepares_prepareUnchecked (hcacheText : Textual I.cacheRoot) (htext : Textual I.workspaceRoot)
    (hsettled : Settled I t) :
    Prepares (leftByInspection E I request t) t (prepareUnchecked E I request)
      fun w t' => Prepared E I request t w t' := by
  have hstart : (leftByInspection E I request t).after True t :=
    CacheLeft.inspection (cacheLeft_of_agree (.refl t))
  refine prepares_after hstart (seen_orFail (Q := fun _ => True) fun _ _ => trivial) fun _ _ => ?_
  refine prepares_after hstart (seen_ensureNotCancelled _) fun _ _ => ?_
  refine prepares_after hstart (seen_enterOperation _) fun _ _ => ?_
  refine prepares_after hstart (seen_mapError _ (seen_validateRootIdentity _ _)) fun _ _ => ?_
  refine prepares_after hstart (seen_mapError _ (seen_validateRootIdentity _ _)) fun _ _ => ?_
  refine prepares_after hstart (seen_lockRepository _) fun _ _ => ?_
  refine prepares_bind ((prepares_ensureCache hcacheText).weaken fun _ _ h => h.inspection) ?_
  rintro cache t₁ ⟨hcache,-⟩
  have hleft : (leftByInspection E I request t).after True t₁ := hcache.inspection
  have hagree := hcache.tidy trivial (hsettled.hollow _)
  refine prepares_after hleft (seen_ensureNotCancelled _) fun _ _ => ?_
  refine prepares_after hleft (seen_mapError _ (seen_validateRootIdentity _ _)) fun _ _ => ?_
  refine prepares_after hleft (seen_mapError _ (looks_validateCachePath _ _ _)) fun _ _ => ?_
  refine prepares_after hleft (seen_resolveCommit _ _ _ _) fun commitSha _ => ?_
  refine prepares_after hleft (seen_ensureNotCancelled _) fun _ _ => ?_
  refine prepares_after hleft seen_allocateWorkspace ?_
  rintro _ ⟨⟨n,rfl⟩,hfree⟩
  refine prepares_prepareCheckout cache commitSha htext hsettled hagree ⟨n,rfl⟩ ?_
  rw [← hfree]
  exact (hagree _ (tidy_of_workspaceRoot _ (List.prefix_append _ _))).symm

/-! ### The end -/

variable {w : PreparedWorkspace}

/-- A checkout as an inspection has to find it at its end. -/
structure Intact (E : Surroundings) (w : PreparedWorkspace) (t : FsTree) : Prop where
  head : HeadAt E w.path t w.commitSha
  marked : MarkedWorkspace t w.path w.workspaceIdentity
  config : t.read (configPath w.path) = .ok w.gitConfig
  clean : CleanAt E w.path t

theorem triple_recordRevisionFailure (failure : Option InspectionError) :
    Triple (fun d => d.tree = t) (recordRevisionFailure E failure w) (fun recorded d => d.tree = t ∧
      (recorded = none → failure = none ∧ HeadAt E w.path t w.commitSha)) fun _ _ => False := by
  refine triple_of_attempt (seen_resolveCommit _ _ _ _) fun result hresult => ?_
  have hrevision : revisionFailure w result = none → HeadAt E w.path t w.commitSha := by
    intro hnone
    cases result with
    | ok commit =>
      simp only [revisionFailure] at hnone
      split_ifs at hnone with hsame
      exact hsame ▸ hresult commit rfl
    | error error => cases hnone
  cases hfailure : revisionFailure w result with
  | none => exact triple_pure fun _ hd => ⟨hd,fun hnone => ⟨hnone,hrevision hfailure⟩⟩
  | some revisionError =>
    cases failure with
    | none => exact triple_pure fun _ hd => ⟨hd,fun hnone => by cases hnone⟩
    | some error => exact triple_pure fun _ hd => ⟨hd,fun hnone => by cases hnone⟩

theorem seen_validateGitConfig (hparent : t.Dirs w.path.dropLast) :
    Seen t (validateGitConfig E w) fun _ =>
      MarkedWorkspace t w.path w.workspaceIdentity ∧ t.read (configPath w.path) = .ok w.gitConfig := by
  refine seen_bind (seen_validateWorkspaceIdentityAt _ hparent) fun _ hmarked => ?_
  refine seen_bind seen_readGitConfig fun current hcurrent => ?_
  split_ifs with hsame
  · exact seen_fail _
  · exact seen_pure ⟨hmarked,not_not.mp hsame ▸ hcurrent⟩

theorem keeps_dirtyDetailsForWorkspace :
    Keeps (Beside w.path) t (dirtyDetailsForWorkspace E w) (fun details _ => details = none →
      MarkedWorkspace t w.path w.workspaceIdentity ∧ t.read (configPath w.path) = .ok w.gitConfig ∧
        CleanAt E w.path t) fun _ _ => True := by
  refine keeps_after (seen_validateWorkspacePath _ _ _) (fun _ => trivial) ?_
  rintro _ ⟨_,howned⟩
  have hparent := howned.real.1.initial ( List.dropLast_prefix w.path)
  refine keeps_after (seen_validateGitConfig hparent) (fun _ => trivial) fun _ hconfig => ?_
  obtain ⟨name,hname,-⟩ := howned.child
  have hdetails := keeps_dirtyDetails (E := E) (t := t) w.workspaces name w.workspaceIdentity
  rw [← hname] at hdetails
  exact hdetails.post (fun _ _ _ hclean hnone => ⟨hconfig.1,hconfig.2,hclean hnone⟩) fun _ _ _ h => h

theorem keeps_recordDirtyFailure (failure : Option InspectionError) :
    Keeps (Beside w.path) t (recordDirtyFailure E failure w) (fun recorded _ => recorded = none → failure = none ∧
      MarkedWorkspace t w.path w.workspaceIdentity ∧ t.read (configPath w.path) = .ok w.gitConfig ∧
        CleanAt E w.path t) fun _ _ => False := by
  refine keeps_bind (keeps_attempt keeps_dirtyDetailsForWorkspace) fun result t' _ hresult => ?_
  cases result with
  | ok details =>
    cases details with
    | none => exact keeps_pure fun hnone => ⟨hnone,hresult.1 _ rfl rfl⟩
    | some details =>
      cases failure with
      | none => exact keeps_pure fun hnone => by cases hnone
      | some error => exact keeps_pure fun hnone => by cases hnone
  | error reason =>
    cases failure with
    | none => exact keeps_pure fun hnone => by cases hnone
    | some error => exact keeps_pure fun hnone => by cases hnone

/-- The end removes the checkout, or its error says that it did not. It accepts an intact checkout
of an inspection without a failure. -/
theorem triple_finish (hstanding : Standing E I request t w.path t₁)
    (failure : Option InspectionError) :
    Triple (fun d => d.tree = t₁) (finish E w failure)
      (fun result d => InspectionLeft E I request t True d.tree ∧ failure = none ∧ Intact E w t₁ ∧
        result = ⟨w.repositoryId,w.commitSha⟩)
      fun e d => InspectionLeft E I request t (cleanupFailed e = false) d.tree := by
  refine triple_bind ((triple_recordRevisionFailure failure).post (fun _ _ hd => hd) fun _ _ hd => hd.elim)
    fun recorded => triple_assume (fun _ hd => hd.2) fun hrevision => Triple.pre ?_ fun _ hd => hd.1
  refine triple_bind (Triple.post (keeps_recordDirtyFailure recorded) (fun _ _ hd => hd)
    fun _ _ hd => hd.2.elim) fun recorded' => ?_
  refine triple_assume (fun _ hd => hd.2) fun hclean => ?_
  refine Triple.pre (triple_each (P := Standing E I request t w.path) fun t₂ hstanding₂ => ?_)
    fun _ hd => hstanding.change (hd.1.mono fun _ hp => hp.beside)
  refine triple_bind (Q := fun removed d =>
      (removed = .ok () → InspectionLeft E I request t True d.tree) ∧ InspectionLeft E I request t False d.tree)
    ?_ fun removed => ?_
  · exact triple_attempt (cleans_removeWorkspace _ _ _ t₂ hstanding₂)
      (fun _ _ hd => ⟨fun _ => hd,InspectionLeft.mono hd fun h => h.elim⟩)
      fun _ _ hd => ⟨fun hok => (by cases hok),hd⟩
  cases removed with
  | ok _ =>
    cases recorded' with
    | none =>
      obtain ⟨rfl,hmarked,hconfig,hstatus⟩ := hclean rfl
      obtain ⟨rfl,hhead⟩ := hrevision rfl
      exact triple_pure fun d hd => ⟨hd.1 rfl,rfl,⟨hhead,hmarked,hconfig,hstatus⟩,rfl⟩
    | some error => exact triple_fail fun d hd => (hd.1 rfl).mono fun _ => trivial
  | error reason =>
    cases recorded' with
    | none => exact triple_fail fun d hd => hd.2.mono fun hcleanup => by cases hcleanup
    | some error =>
      refine triple_fail fun d hd => hd.2.mono fun hcleanup => ?_
      simp [cleanupFailed] at hcleanup

/-- A callback that always returns, and changes nothing beside its checkout. -/
structure Courteous {α : Type} (runtime : Callback α) : Prop where
  returns : ∀ w, Total (runtime w)
  confined : ∀ w t, Keeps (Without w.path) t (runtime w) (fun _ _ => True) fun _ _ => True

section

variable {α : Type} {runtime : Callback α}

theorem triple_primaryFailure (hruntime : Courteous runtime) :
    Triple (fun d => d.tree = t) (primaryFailure E w runtime) (fun result d => t.Agree (Without w.path) d.tree ∧
      (result.1 = none → ∃ out d₁ d₂, result.2 = some out ∧ d₁.tree = t ∧
        (runtime w).exec d₁ = some (.ok out,d₂) ∧ d₂.tree = d.tree)) fun _ _ => False := by
  have hsome : ∀ {error : InspectionError} {out : Option α} {d : FsDisk}, t.Agree (Without w.path) d.tree →
      t.Agree (Without w.path) d.tree ∧ ((some error,out).1 = none → ∃ out' d₁ d₂, (some error,out).2 = some out' ∧
        d₁.tree = t ∧ (runtime w).exec d₁ = some (.ok out',d₂) ∧ d₂.tree = d.tree) :=
    fun hagree => ⟨hagree,fun hnone => by cases hnone⟩
  refine triple_bind triple_isCancelled fun cancelled => ?_
  split_ifs
  · exact triple_pure fun d hd => hsome (hd ▸ .refl _)
  refine triple_bind (Q := fun result d => t.Agree (Without w.path) d.tree ∧ ∀ out, result = .ok out →
      ∃ d₁ d₂, d₁.tree = t ∧ (runtime w).exec d₁ = some (.ok out,d₂) ∧ d₂.tree = d.tree)
    (triple_attempt triple_exact ?_ ?_) fun result => ?_
  · rintro out d ⟨d₁,hd₁,hexec⟩
    refine ⟨((hruntime.confined w t).ok hd₁ hexec).1,?_⟩
    rintro _ ⟨⟩
    exact ⟨d₁,d,hd₁,hexec,rfl⟩
  · rintro e d ⟨d₁,hd₁,hexec⟩
    exact ⟨((hruntime.confined w t).error hd₁ hexec).1,fun _ hout => by cases hout⟩
  refine triple_each (P := fun t' => t.Agree (Without w.path) t' ∧ ∀ out, result = .ok out →
    ∃ d₁ d₂, d₁.tree = t ∧ (runtime w).exec d₁ = some (.ok out,d₂) ∧ d₂.tree = t') fun t' ⟨hagree,hran⟩ => ?_
  have hagree' : ∀ d : FsDisk, d.tree = t' → t.Agree (Without w.path) d.tree := fun d hd => hd ▸ hagree
  cases result with
  | ok out =>
    refine triple_bind triple_isCancelled fun cancelled => ?_
    split_ifs
    · exact triple_pure fun d hd => hsome (hagree' d hd)
    · refine triple_pure fun d hd => ⟨hagree' d hd,fun _ => ?_⟩
      obtain ⟨d₁,d₂,hd₁,hexec,hd₂⟩ := hran out rfl
      exact ⟨out,d₁,d₂,rfl,hd₁,hexec,hd₂.trans hd.symm⟩
  | error failure =>
    cases failure with
    | returned reason =>
      refine triple_bind triple_isCancelled fun cancelled => ?_
      split_ifs
      · exact triple_pure fun d hd => hsome (hagree' d hd)
      · exact triple_pure fun d hd => hsome (hagree' d hd)
    | panicked => exact triple_pure fun d hd => hsome (hagree' d hd)

/-- What an accepted inspection stands for: the callback has run in a checkout of the authorised
commit, and has left it intact. -/
def Vouched (E : Surroundings) (I : RepositoryInspector) (request : InspectionRequest) (runtime : Callback α)
    (t : FsTree) (result : InspectionResult × Option α) : Prop :=
  ∃ w d₁ d₂ out, Prepared E I request t w d₁.tree ∧ (runtime w).exec d₁ = some (.ok out,d₂) ∧
    Intact E w d₂.tree ∧ result = (⟨w.repositoryId,w.commitSha⟩,some out)

theorem triple_inspectPrepared (hruntime : Courteous runtime) (hprepared : Prepared E I request t w t₁) :
    Triple (fun d => d.tree = t₁) (inspectPreparedWithCancellation E w runtime)
      (fun result d => InspectionLeft E I request t True d.tree ∧ Vouched E I request runtime t result)
      fun e d => InspectionLeft E I request t (cleanupFailed e = false) d.tree := by
  refine triple_bind ((triple_primaryFailure hruntime).post (fun _ _ hd => hd) fun _ _ hd => hd.elim) ?_
  rintro ⟨failure,out⟩
  refine triple_each (P := fun t₂ => t₁.Agree (Without w.path) t₂ ∧ (failure = none → ∃ out' d₁ d₂,
    out = some out' ∧ d₁.tree = t₁ ∧ (runtime w).exec d₁ = some (.ok out',d₂) ∧ d₂.tree = t₂))
    fun t₂ ⟨hagree,hran⟩ => ?_
  refine triple_bind (triple_finish (hprepared.standing.change hagree) failure) fun result => triple_pure fun d hd => ?_
  obtain ⟨hleft,hnone,hintact,rfl⟩ := hd
  obtain ⟨out,d₁,d₂,rfl,rfl,hexec,rfl⟩ := hran hnone
  exact ⟨hleft,w,d₁,d₂,out,hprepared,hexec,hintact,rfl⟩

def Authorized (authorization : RunAuthorization) (sessionId : String) (source : RepositorySource) : Prop :=
  sessionId = authorization.sessionId ∧ source ∈ authorization.repositories

theorem authorized_of_validated {authorization : RunAuthorization} {sessionId : String} {source : RepositorySource}
    (h : validateAuthorizedSource E sessionId source authorization = .ok ()) :
    Authorized authorization sessionId source := by
  unfold validateAuthorizedSource at h
  split_ifs at h with hsession
  cases hfind : authorization.repositories.find? fun repository => repository.repositoryId == source.repositoryId with
  | none => simp [hfind] at h
  | some repository =>
    simp only [hfind] at h
    split_ifs at h with hurl
    have hid : repository.repositoryId = source.repositoryId := by simpa using List.find?_some hfind
    obtain ⟨repositoryId,url⟩ := source
    obtain rfl : repository.repositoryId = repositoryId := hid
    obtain rfl : repository.url = url := not_not.mp hurl
    exact ⟨not_not.mp hsession,List.mem_of_find?_eq_some hfind⟩

theorem prepares_prepareAuthorized (hcacheText : Textual I.cacheRoot) (htext : Textual I.workspaceRoot)
    (hsettled : Settled I t) (authorization : RunAuthorization) :
    Prepares (leftByInspection E I request t) t (prepareAuthorizedWithCancellation E I request authorization)
      fun w t' => Authorized authorization request.sessionId request.repository ∧ Prepared E I request t w t' := by
  have hstart : (leftByInspection E I request t).after True t :=
    CacheLeft.inspection (cacheLeft_of_agree (.refl t))
  refine prepares_after hstart (seen_ensureNotCancelled _) fun _ _ => ?_
  refine prepares_after hstart (seen_orFail (Q := fun _ => Authorized authorization request.sessionId
    request.repository) fun _ hok => authorized_of_validated hok) fun _ hauthorized => ?_
  refine prepares_after hstart (seen_ensureNotCancelled _) fun _ _ => ?_
  exact Triple.post (prepares_prepareUnchecked hcacheText htext hsettled) (fun _ _ hd => ⟨hauthorized,hd⟩)
    fun _ _ hd => hd

end

end

end Inspection
end North
