import North.CleanupGate
import North.EvidenceBudget
import North.OwnedPaths
import North.Lib.FileWrites
import North.Lib.Utf8

/-! Git as a child process of an inspection: the checks before it is started, what it may be
told, and what becomes of its output. What Git does is given from outside; it writes inside the
directory it runs in, or at the destination of a clone. -/
namespace North
namespace Inspection

open Prog FileTree
open North.Runtime (InspectionError InspectionPhase BoundedGitOutput)

def maxGitCommandOutputBytes : ℕ := 1024*1024

inductive GitArg
  | text (text : String)
  /-- `path.to_string_lossy()`. -/
  | path (path : FsPath)
  deriving DecidableEq, Repr

structure GitCommand where
  /-- The directory it is started in; without one, the daemon's own. -/
  currentDir : Option FsPath
  args : List GitArg
  /-- The configuration in its environment, where that of the host is shut off. -/
  config : Option (List (String × String))
  deriving DecidableEq, Repr

/-- What a path becomes that is given as text. -/
def lossyPath (path : FsPath) : FsPath := path.map fun name => .text name.shown

/-- Where a clone goes. -/
def GitCommand.destination (command : GitCommand) : Option FsPath :=
  match command.args with
  | .text first::rest =>
    if first = "clone" then
      match rest.getLast? with
      | some (.path path) => some (lossyPath path)
      | _ => none
    else none
  | _ => none

/-- Where Git may write: a clone at its destination, any other command inside the directory it
runs in. -/
def GitCommand.writes (command : GitCommand) (t : FsTree) (p : FsPath) : Prop :=
  match command.destination, command.currentDir with
  | some destination, _ => ∀ q, t.place destination = .ok q → q <+: p
  | none, some directory => ∀ q, t.canonicalize directory = .ok q → q <+: p ∧ p ≠ q
  | none, none => False

/-- How a child ends. -/
inductive GitEnd
  | exited (code : Option ℤ) (status : String)
  | timedOut
  /-- Stopped when it had written more than it may. -/
  | overflowed
  | spawnFailed (error : String)
  | noPipe
  | waitFailed (error : String)
  | readFailed (error : String)
  | readPanicked
  deriving DecidableEq, Repr

structure GitAnswer where
  output : List UInt8
  ended : GitEnd
  deriving DecidableEq, Repr

def revParseArgs (revision : String) : List GitArg :=
  [.text "rev-parse",.text "--verify",.text "--end-of-options",.text revision]

structure Git where
  run : ℕ → GitCommand → FsTree → FsTree × GitAnswer
  confined : ∀ n command t p, (run n command t).1.lookup p ≠ t.lookup p → command.writes t p
  /-- A look at the configuration of the host leaves the tree. -/
  looks : ∀ n command t, command.destination = none → command.currentDir = none → (run n command t).1 = t
  /-- The commit of a revision is only looked up. -/
  reads : ∀ n directory revision config t, (run n ⟨directory,revParseArgs revision,config⟩ t).1 = t
  /-- It makes no link of the name that it gives to its own directory. -/
  unlinked : ∀ n command t p entry, (run n command t).1.lookup (gitDirectory p) = some entry →
    entry.isSymlink = true → t.lookup (gitDirectory p) = some entry

/-- What the programs of an inspection meet. -/
structure Surroundings where
  calls : Outcomes OsName
  /-- No call finds a name taken that is free. -/
  untaken : ∀ n, calls.fault n ≠ some .alreadyExists
  git : Git
  /-- Whether the look at this tick sees the flag of the cancellation. -/
  cancelled : ℕ → Bool
  /-- The identity of an entry that is made at this tick. -/
  created : ℕ → FsIdentity
  /-- How much a write has written that fails at this tick. -/
  kept : ℕ → Option ℕ
  processId : ℕ
  /-- The order in which a set of keys is gone through. -/
  keyOrder : List String → List String
  keyOrder_perm : ∀ keys, (keyOrder keys).Perm keys
  /-- How the gate of the cleanup is found until it is open. -/
  gate : List CleanupGate.CleanupGateState
  /-- How often the lock of the repository is found taken. -/
  lockTurns : ℕ
  /-- A text as `{:?}` shows it. -/
  debug : String → String

inductive GitCommandError
  | cancelled
  | timedOut (operation : String)
  | outputExceeded (operation : String) (max : ℕ)
  | exited (operation : String) (code : Option ℤ) (status : String)
  | failed (reason : String)
  deriving DecidableEq, Repr

def GitCommandError.text : GitCommandError → String
  | .cancelled => "Git operation cancelled"
  | .timedOut operation => "git " ++ operation ++ " timed out"
  | .outputExceeded operation max =>
    "git " ++ operation ++ " output exceeded bounded size of " ++ PathNames.decimal max ++ " bytes"
  | .exited operation _ status => "git " ++ operation ++ " failed with " ++ status
  | .failed reason => reason

abbrev Inspecting (α : Type) := Prog FsDisk InspectionError α

abbrev Running (α : Type) := Prog FsDisk GitCommandError α

def inspectionError (phase : InspectionPhase) (reason : String) : InspectionError := ⟨phase,reason,none,none⟩

def inPhase {α : Type} (phase : InspectionPhase) (m : Op α) : Inspecting α :=
  mapError (inspectionError phase) m

section

variable (E : Surroundings)

def isCancelled {ε : Type} : Prog FsDisk ε Bool := fun d =>
  some (.ok (E.cancelled d.tick),{ d with tick := d.tick+1 })

def ensureNotCancelled (reason : String) : Inspecting Unit := do
  if ← isCancelled E then fail (inspectionError .cancellation reason) else pure ()

/-! ### The child -/

def sourceName : OsName := .text "source.git"

def validateCachePath (root : FsPath) (expectedRootIdentity : FsIdentity) (cache : FsPath) : Op Unit := do
  validateRootIdentity E.calls root expectedRootIdentity
  let root ← io (Call.canonicalize E.calls root)
  match parent? cache with
  | none => fail "cache path has no repository namespace"
  | some repositoryRoot => do
    let cacheMetadata ← io (Call.symlinkMetadata E.calls cache)
    let repositoryMetadata ← io (Call.symlinkMetadata E.calls repositoryRoot)
    if cacheMetadata.isSymlink || repositoryMetadata.isSymlink || !cacheMetadata.isDir ||
        !repositoryMetadata.isDir then
      fail "cache path is not a real owned directory"
    else do
      let canonicalRepository ← io (Call.canonicalize E.calls repositoryRoot)
      let canonicalCache ← io (Call.canonicalize E.calls cache)
      if parent? canonicalRepository ≠ some root || parent? canonicalCache ≠ some canonicalRepository ||
          cache.getLast? ≠ some sourceName then
        fail "cache path is outside its daemon-owned namespace"
      else pure ()

/-- The cache is checked as one where Git runs in it. -/
def validateSource (currentDir root : FsPath) (expectedRootIdentity : FsIdentity) : Op Unit :=
  if currentDir.getLast? = some sourceName then validateCachePath E root expectedRootIdentity currentDir
  else pure ()

def validateGitSpawnScope (currentDir root : FsPath) (expectedRootIdentity : FsIdentity)
    (workspaceIdentity : Option WorkspaceIdentity) : Op Unit := do
  validateRootIdentity E.calls root expectedRootIdentity
  let canonicalRoot ← io (Call.canonicalize E.calls root)
  let canonicalCurrent ← io (Call.canonicalize E.calls currentDir)
  if !canonicalRoot.isPrefixOf canonicalCurrent then
    fail "Git current directory resolves outside daemon-owned root"
  else do
    validateSource E currentDir root expectedRootIdentity
    match workspaceIdentity with
    | none => pure ()
    | some identity => validateWorkspaceIdentityAt E.calls currentDir identity

def awaitGit {ε : Type} (command : GitCommand) : Prog FsDisk ε GitAnswer := fun d =>
  some (.ok (E.git.run d.tick command d.tree).2,
    { d with tree := (E.git.run d.tick command d.tree).1, tick := d.tick+1 })

def checkFlag (cancellable : Bool) : Running Unit := do
  if cancellable then
    if ← isCancelled E then fail .cancelled else pure ()
  else pure ()

/-- What is kept of an output. -/
def boundedOutput (max : Option ℕ) (output : List UInt8) : BoundedGitOutput :=
  match max with
  | none => ⟨output,false⟩
  | some max => ⟨output.take max,decide (max < output.length)⟩

def runGitChild (command : GitCommand) (operation : String) (cancellable : Bool) (maxOutputBytes : Option ℕ)
    (allowTruncation : Bool) : Running BoundedGitOutput := do
  checkFlag E cancellable
  let answer ← awaitGit E command
  match answer.ended with
  | .spawnFailed error => fail (.failed ("run git " ++ operation ++ ": " ++ error))
  | .noPipe => fail (.failed ("run git " ++ operation ++ ": stdout pipe was unavailable"))
  | .waitFailed error => fail (.failed ("wait for git " ++ operation ++ ": " ++ error))
  | .readFailed error => fail (.failed ("read git " ++ operation ++ " output: " ++ error))
  | .readPanicked => fail (.failed ("read git " ++ operation ++ " panicked"))
  | .timedOut => fail (.timedOut operation)
  | .overflowed =>
    if !allowTruncation then fail (.outputExceeded operation (maxOutputBytes.getD 0))
    else do
      checkFlag E cancellable
      pure { boundedOutput maxOutputBytes answer.output with truncated := true }
  | .exited code status => do
    checkFlag E cancellable
    let output := boundedOutput maxOutputBytes answer.output
    if output.truncated && !allowTruncation then fail (.outputExceeded operation (maxOutputBytes.getD 0))
    else if code ≠ some 0 then fail (.exited operation code status)
    else pure output

def lines (text : List Char) : List (List Char) :=
  let pieces := text.splitOn '\n'
  let ended := pieces.dropLast.map fun line =>
    if line.getLast? = some '\r' then line.dropLast else line
  ended ++ match pieces.getLast? with
    | some last => if last.isEmpty then [] else [last]
    | none => []

def splitOnceWhitespace (line : List Char) : Option (String × String) :=
  match line.dropWhile (fun c => !Text.isWhitespace c) with
  | [] => none
  | _::value => some (String.ofList (line.takeWhile fun c => !Text.isWhitespace c),String.ofList value)

/-- The keys and values that a `--get-regexp` prints. -/
def configLines (output : BoundedGitOutput) : List (String × String) :=
  (lines (Utf8.lossy output.bytes).toList).filterMap splitOnceWhitespace

def restoredKey (key : String) : Bool :=
  key == "core.sshcommand" || key == "ssh.variant" || key == "credential.helper" ||
    key == "credential.usehttppath" || (Text.stripSuffix key ".helper").isSome

def hostConfigCommand (scope : String) : GitCommand where
  currentDir := none
  args := [.text "config",.text scope,.text "--get-regexp",
    .text "^(credential\\..*|core\\.sshcommand|ssh\\.variant)$"]
  config := none

/-- The loop of `git_host_config_overrides`. -/
def hostConfigLoop (cancellable : Bool) :
    List String → List (String × String) → Running (List (String × String))
  | [], overrides => pure overrides
  | scope::scopes, overrides => do
    match ← attempt (runGitChild E (hostConfigCommand scope) ("config " ++ scope) cancellable
        (some maxGitCommandOutputBytes) false) with
    | .error .cancelled => fail .cancelled
    | .error _ => hostConfigLoop cancellable scopes overrides
    | .ok output =>
      hostConfigLoop cancellable scopes
        (overrides ++ (configLines output).filter fun pair => restoredKey pair.1)

def gitHostConfigOverrides (cancellable : Bool) : Running (List (String × String)) :=
  hostConfigLoop E cancellable ["--system","--global"] []

/-- A root that a command works on beside its own. -/
structure OwnedRoot where
  path : FsPath
  identity : FsIdentity
  deriving DecidableEq, Repr

/-- The checks before a child is started. -/
def validateSpawn (currentDir : FsPath) (root : OwnedRoot) (workspaceIdentity : Option WorkspaceIdentity)
    (additionalRoot : Option OwnedRoot) : Running Unit := do
  mapError .failed (validateGitSpawnScope E currentDir root.path root.identity workspaceIdentity)
  match additionalRoot with
  | none => pure ()
  | some other => mapError .failed (validateRootIdentity E.calls other.path other.identity)

def firstText : List GitArg → String
  | .text first::_ => first
  | .path path::_ => display path
  | [] => "command"

def gitOutputManaged (currentDir : FsPath) (root : OwnedRoot) (workspaceIdentity : Option WorkspaceIdentity)
    (additionalRoot : Option OwnedRoot) (args : List GitArg) (cancellable : Bool) (maxOutputBytes : Option ℕ)
    (allowTruncation : Bool) : Running BoundedGitOutput := do
  validateSpawn E currentDir root workspaceIdentity additionalRoot
  let overrides ← gitHostConfigOverrides E cancellable
  validateSpawn E currentDir root workspaceIdentity additionalRoot
  runGitChild E ⟨some currentDir,args,some overrides⟩ (firstText args) cancellable maxOutputBytes allowTruncation

def inspectionErrorFromGit (phase : InspectionPhase) : GitCommandError → InspectionError
  | .cancelled => inspectionError .cancellation "inspection cancelled during Git operation"
  | other => inspectionError phase other.text

def gitOutputForPhase (currentDir : FsPath) (root : OwnedRoot) (workspaceIdentity : Option WorkspaceIdentity)
    (additionalRoot : Option OwnedRoot) (args : List GitArg) (phase : InspectionPhase) (cancellable : Bool) :
    Inspecting String := do
  let output ← mapError (inspectionErrorFromGit phase) (gitOutputManaged E currentDir root workspaceIdentity
    additionalRoot args cancellable (some maxGitCommandOutputBytes) false)
  pure (Utf8.lossy output.bytes)

def gitOutput (currentDir : FsPath) (root : OwnedRoot) (workspaceIdentity : Option WorkspaceIdentity)
    (additionalRoot : Option OwnedRoot) (args : List GitArg) : Op String := do
  let output ← mapError GitCommandError.text (gitOutputManaged E currentDir root workspaceIdentity
    additionalRoot args false none false)
  pure (Utf8.lossy output.bytes)

/-! ### The local configuration -/

def localGitConfigBlocklist : List String := [
  "^url\\..*\\.insteadof$",
  "^url\\..*\\.pushinsteadof$",
  "^protocol\\.allow$",
  "^protocol\\..*\\.allow$",
  "^protocol\\..*\\.version$",
  "^include.*\\.path$",
  "^credential\\..*$",
  "^remote\\..*\\.uploadpack$",
  "^remote\\..*\\.receivepack$",
  "^remote\\..*\\.vcs$",
  "^remote\\..*\\.proxy$",
  "^http\\.proxy$",
  "^http\\..*\\.proxy$",
  "^https\\.proxy$",
  "^https\\..*\\.proxy$",
  "^core\\.gitdir$",
  "^core\\.worktree$",
  "^core\\.sshcommand$",
  "^ssh\\.variant$",
  "^core\\.gitproxy$",
  "^core\\.hookspath$",
  "^core\\.fsmonitor$",
  "^core\\.fsmonitorhookpath$",
  "^filter\\..*\\.process$",
  "^filter\\..*\\.clean$",
  "^filter\\..*\\.smudge$",
  "^diff\\..*\\.external$"]

section

variable (repository : FsPath) (root : OwnedRoot) (workspaceIdentity : Option WorkspaceIdentity)
  (phase : InspectionPhase)

def localConfigCommand (option value : String) : GitCommand where
  currentDir := some repository
  args := [.text "config",.text "--local",.text "--no-includes",.text option,.text value]
  config := none

/-- The loop of `sanitize_local_git_config` over the keys that a pattern has matched. -/
def unsetKeys : List String → Inspecting Unit
  | [] => pure ()
  | key::keys => do
    ensureNotCancelled E "inspection cancelled before local Git config cleanup"
    inPhase phase (validateGitSpawnScope E repository root.path root.identity workspaceIdentity)
    match ← attempt (runGitChild E (localConfigCommand repository "--unset-all" key)
        ("config --local --unset-all " ++ key) true (some maxGitCommandOutputBytes) false) with
    | .ok _ => unsetKeys keys
    | .error .cancelled =>
      fail (inspectionError .cancellation "inspection cancelled during local Git config cleanup")
    | .error error =>
      fail (inspectionError phase ("remove local Git config " ++ key ++ ": " ++ error.text))

/-- The loop of `sanitize_local_git_config` over the patterns. -/
def unsetPatterns : List String → Inspecting Unit
  | [] => pure ()
  | pattern::patterns => do
    inPhase phase (validateGitSpawnScope E repository root.path root.identity workspaceIdentity)
    match ← attempt (runGitChild E (localConfigCommand repository "--get-regexp" pattern)
        ("config --local --get-regexp " ++ pattern) true (some maxGitCommandOutputBytes) false) with
    | .ok output => do
      unsetKeys E repository root workspaceIdentity phase
        (E.keyOrder ((configLines output).map Prod.fst).dedup)
      unsetPatterns patterns
    | .error .cancelled =>
      fail (inspectionError .cancellation "inspection cancelled during local Git config inspection")
    | .error (.exited operation code status) =>
      if code = some 1 ∨ code = some 5 then unsetPatterns patterns
      else fail (inspectionError phase
        ("inspect local Git config: " ++ (GitCommandError.exited operation code status).text))
    | .error error => fail (inspectionError phase ("inspect local Git config: " ++ error.text))

def sanitizeLocalGitConfig : Inspecting Unit := do
  ensureNotCancelled E "inspection cancelled before local Git config inspection"
  unsetPatterns E repository root workspaceIdentity phase localGitConfigBlocklist
  ensureNotCancelled E "inspection cancelled after local Git config cleanup"

end

/-! ### Commits and changes -/

/-- `complete_commit_sha`: 40 or 64 hexadecimal digits. -/
def completeCommitSha (value : String) : Bool :=
  (value.utf8ByteSize == 40 || value.utf8ByteSize == 64) &&
    (Text.asBytes value).all PathNames.isAsciiHexdigit

def revParse (repository : FsPath) (root : OwnedRoot) (workspaceIdentity : Option WorkspaceIdentity)
    (revision : String) (cancellable : Bool) : Inspecting String := do
  let output ← gitOutputForPhase E repository root workspaceIdentity none
    (revParseArgs revision) .revision cancellable
  pure (Text.trim output)

def resolveCommit (repository : FsPath) (root : OwnedRoot) (workspaceIdentity : Option WorkspaceIdentity)
    (cancellable : Bool) : Inspecting String := do
  let sha ← revParse E repository root workspaceIdentity "HEAD^{commit}" cancellable
  if !completeCommitSha sha then
    fail (inspectionError .revision "Git returned an invalid full commit object ID")
  else do
    let canonical ← revParse E repository root workspaceIdentity (sha ++ "^{commit}") cancellable
    if canonical ≠ sha || !(Text.asBytes canonical).all PathNames.isAsciiHexdigit then
      fail (inspectionError .revision "Git did not return a complete canonical commit object ID")
    else pure canonical

def dirtyDetails (workspace : FsPath) (root : OwnedRoot) (identity : WorkspaceIdentity) :
    Op (Option String) := do
  let output ← gitOutput E workspace root (some identity) none
    [.text "status",.text "--porcelain=v1",.text "--untracked-files=all",.text "--ignored=matching"]
  let output := Text.trim output
  pure (if output.isEmpty then none else some output)

end

/-! ### What the checks see -/

section

variable {E : Surroundings} {t t' t'' : FsTree} {α ε : Type}

theorem triple_isCancelled :
    Triple (fun d => d.tree = t) (isCancelled E : Prog FsDisk ε Bool) (fun _ d => d.tree = t) fun _ _ => False := by
  rintro d rfl r d' hexec
  simp only [exec,isCancelled,Option.some.injEq,Prod.mk.injEq] at hexec
  obtain ⟨rfl,rfl⟩ := hexec
  rfl

theorem seen_isCancelled : Seen t (isCancelled E : Prog FsDisk ε Bool) fun _ => True :=
  triple_isCancelled.post (fun _ _ hd => ⟨hd,trivial⟩) fun _ _ hd => hd.elim

theorem seen_ensureNotCancelled (reason : String) : Seen t (ensureNotCancelled E reason) fun _ => True := by
  refine seen_bind seen_isCancelled fun cancelled _ => ?_
  split_ifs
  · exact seen_fail _
  · exact seen_pure trivial

theorem seen_checkFlag (cancellable : Bool) : Seen t (checkFlag E cancellable) fun _ => True := by
  unfold checkFlag
  split_ifs
  · refine seen_bind seen_isCancelled fun cancelled _ => ?_
    split_ifs
    · exact seen_fail _
    · exact seen_pure trivial
  · exact seen_pure trivial

theorem seen_mapError {ε' : Type} {m : Prog FsDisk ε α} {Q : α → Prop} (f : ε → ε') (h : Seen t m Q) :
    Seen t (mapError f m) Q :=
  triple_mapError h

/-- The cache of a repository, in its namespace. -/
structure OwnedCache (t : FsTree) (root : OwnedRoot) (namespaceName : OsName) : Prop where
  owned : t.Real root.path root.identity
  repository : t.Dirs (root.path ++ [namespaceName])
  cache : t.Dirs (root.path ++ [namespaceName] ++ [sourceName])

theorem seen_validateCachePath (root : OwnedRoot) (namespaceName file : OsName) :
    Seen t (validateCachePath E root.path root.identity (root.path ++ [namespaceName] ++ [file])) fun _ =>
      file = sourceName ∧ OwnedCache t root namespaceName := by
  have hparent : parent? (root.path ++ [namespaceName] ++ [file]) = some (root.path ++ [namespaceName]) :=
    parent?_eq_some.mpr ⟨file,rfl⟩
  refine seen_bind (seen_validateRootIdentity _ _) fun _ hroot => ?_
  refine seen_bind seen_io fun canonicalRoot _ => ?_
  simp only [hparent]
  refine seen_bind seen_io fun cacheMetadata hcache => ?_
  refine seen_bind seen_io fun repositoryMetadata hrepository => ?_
  split_ifs with hkind
  · exact seen_fail _
  refine seen_bind seen_io fun _ _ => seen_bind seen_io fun _ _ => ?_
  split_ifs with hname
  · exact seen_fail _
  simp only [Bool.or_eq_true,Bool.not_eq_true',not_or,Bool.not_eq_false,decide_eq_true_eq,not_not] at hkind hname
  have hfile : file = sourceName := by simpa using hname.2
  have hreal := real_of_metadata (by rw [List.dropLast_concat]; exact hroot.1) hrepository hkind.2
  refine seen_pure ⟨hfile,hroot,hreal.1,?_⟩
  exact hfile ▸ (real_of_metadata (by rw [List.dropLast_concat]; exact hreal.1) hcache hkind.1.2).1

theorem looks_validateCachePath (root : FsPath) (expected : FsIdentity) (cache : FsPath) :
    Seen t (validateCachePath E root expected cache) fun _ => True := by
  refine seen_bind (seen_validateRootIdentity _ _) fun _ _ => seen_bind seen_io fun _ _ => ?_
  cases parent? cache with
  | none => exact seen_fail _
  | some repositoryRoot =>
    refine seen_bind seen_io fun _ _ => seen_bind seen_io fun _ _ => ?_
    split_ifs
    · exact seen_fail _
    refine seen_bind seen_io fun _ _ => seen_bind seen_io fun _ _ => ?_
    split_ifs
    · exact seen_fail _
    · exact seen_pure trivial

theorem looks_validateWorkspaceIdentityAt (path : FsPath) (identity : WorkspaceIdentity) :
    Seen t (validateWorkspaceIdentityAt E.calls path identity) fun _ => True := by
  unfold validateWorkspaceIdentityAt
  cases path.getLast?.bind OsName.toStr with
  | none => exact seen_fail _
  | some name =>
    simp only
    split_ifs
    · exact seen_fail _
    refine seen_bind (seen_ownedEntry _ _ _) fun workspace _ => ?_
    split_ifs
    · exact seen_fail _
    refine seen_bind (seen_ownedEntry _ _ _) fun git _ => ?_
    split_ifs
    · exact seen_fail _
    refine seen_bind (seen_ownedEntry _ _ _) fun marker _ => ?_
    split_ifs
    · exact seen_fail _
    refine seen_bind seen_io fun value _ => ?_
    split_ifs
    · exact seen_fail _
    · exact seen_pure trivial

theorem looks_validateSource (currentDir root : FsPath) (expected : FsIdentity) :
    Seen t (validateSource E currentDir root expected) fun _ => True := by
  unfold validateSource
  split_ifs
  · exact looks_validateCachePath _ _ _
  · exact seen_pure trivial

theorem looks_validateGitSpawnScope (currentDir root : FsPath) (expected : FsIdentity)
    (workspaceIdentity : Option WorkspaceIdentity) :
    Seen t (validateGitSpawnScope E currentDir root expected workspaceIdentity) fun _ => True := by
  refine seen_bind (seen_validateRootIdentity _ _) fun _ _ => ?_
  refine seen_bind seen_io fun _ _ => seen_bind seen_io fun _ _ => ?_
  split_ifs with hscope
  · exact seen_fail _
  refine seen_bind (looks_validateSource _ _ _) fun _ _ => ?_
  cases workspaceIdentity with
  | none => exact seen_pure trivial
  | some identity => exact looks_validateWorkspaceIdentityAt _ _

theorem looks_validateSpawn (currentDir : FsPath) (root : OwnedRoot)
    (workspaceIdentity : Option WorkspaceIdentity) (additionalRoot : Option OwnedRoot) :
    Seen t (validateSpawn E currentDir root workspaceIdentity additionalRoot) fun _ => True := by
  refine seen_bind (seen_mapError _ (looks_validateGitSpawnScope _ _ _ _)) fun _ _ => ?_
  cases additionalRoot with
  | none => exact seen_pure trivial
  | some other => exact (seen_mapError _ (seen_validateRootIdentity _ _)).mono fun _ _ => trivial

/-! ### What Git does -/

/-- The command has been run on the tree, or has not been started. -/
def Ran (E : Surroundings) (command : GitCommand) (t t' : FsTree) : Prop :=
  t' = t ∨ ∃ n, t' = (E.git.run n command t).1

/-- The command has succeeded with this output. -/
def Succeeded (E : Surroundings) (command : GitCommand) (t : FsTree) (output : List UInt8) (t' : FsTree) : Prop :=
  ∃ n status, E.git.run n command t = (t',⟨output,.exited (some 0) status⟩)

theorem boundedOutput_whole {max : Option ℕ} {output : List UInt8}
    (h : (boundedOutput max output).truncated = false) : (boundedOutput max output).bytes = output := by
  cases max with
  | none => rfl
  | some max =>
    have hle : output.length ≤ max := by simpa [boundedOutput] using h
    exact List.take_of_length_le hle

/-- However the child ends, the command has been run or was not started; and an output that is not
cut is the whole output of a command that has succeeded. -/
theorem triple_runGitChild (command : GitCommand) (operation : String) (cancellable : Bool) (max : Option ℕ)
    (allowTruncation : Bool) :
    Triple (fun d => d.tree = t) (runGitChild E command operation cancellable max allowTruncation)
      (fun output d => Ran E command t d.tree ∧
        (output.truncated = false → Succeeded E command t output.bytes d.tree) ∧
        (allowTruncation = false → output.truncated = false))
      fun _ d => Ran E command t d.tree := by
  refine triple_of_seen (seen_checkFlag _) (fun _ _ hd => .inl hd) fun _ _ => ?_
  refine triple_bind (Q := fun answer d => ∃ n, E.git.run n command t = (d.tree,answer)) ?_ fun answer => ?_
  · rintro d rfl r d' hexec
    simp only [exec,awaitGit,Option.some.injEq,Prod.mk.injEq] at hexec
    obtain ⟨rfl,rfl⟩ := hexec
    exact ⟨d.tick,rfl⟩
  refine triple_each (P := fun t' => ∃ n, E.git.run n command t = (t',answer)) ?_
  rintro t' ⟨n,hrun⟩
  have hran : ∀ d : FsDisk, d.tree = t' → Ran E command t d.tree := fun d hd => .inr ⟨n,by rw [hrun,hd]⟩
  have hchecked : Seen t' (checkFlag E cancellable) fun _ => True := seen_checkFlag _
  obtain ⟨output,ended⟩ := answer
  cases ended with
  | exited code status =>
    refine triple_of_seen hchecked (fun _ d hd => hran d hd) fun _ _ => ?_
    simp only
    split_ifs with hcut hcode
    · exact triple_fail hran
    · exact triple_fail hran
    refine triple_pure fun d hd => ⟨hran d hd,fun hwhole => ?_,?_⟩
    · obtain rfl := not_not.mp hcode
      rw [boundedOutput_whole hwhole]
      exact ⟨n,status,hd ▸ hrun⟩
    · rintro rfl
      simpa using hcut
  | overflowed =>
    simp only
    split_ifs with hallow
    · exact triple_fail hran
    · refine triple_of_seen hchecked (fun _ d hd => hran d hd) fun _ _ => triple_pure fun d hd => ⟨hran d hd,?_,?_⟩
      · exact fun hwhole => by cases hwhole
      · rintro rfl
        simp at hallow
  | timedOut => exact triple_fail hran
  | spawnFailed error => exact triple_fail hran
  | noPipe => exact triple_fail hran
  | waitFailed error => exact triple_fail hran
  | readFailed error => exact triple_fail hran
  | readPanicked => exact triple_fail hran

theorem looks_hostConfigLoop (cancellable : Bool) (scopes : List String) (overrides : List (String × String)) :
    Seen t (hostConfigLoop E cancellable scopes overrides) fun _ => True := by
  induction scopes generalizing overrides with
  | nil => exact seen_pure trivial
  | cons scope scopes ih =>
    have hlooks : ∀ t', Ran E (hostConfigCommand scope) t t' → t' = t := by
      rintro t' (rfl | ⟨n,rfl⟩)
      · rfl
      · exact E.git.looks n _ t rfl rfl
    have hchild : Seen t (runGitChild E (hostConfigCommand scope) ("config " ++ scope) cancellable
        (some maxGitCommandOutputBytes) false) fun _ => True :=
      (triple_runGitChild _ _ _ _ _).post (fun _ d hd => ⟨hlooks _ hd.1,trivial⟩) fun _ d hd => hlooks _ hd
    refine seen_bind (seen_attempt hchild) fun result _ => ?_
    cases result with
    | ok output => exact ih _
    | error error =>
      cases error with
      | cancelled => exact seen_fail _
      | _ => exact ih _

/-- A command of this daemon, with whatever configuration of the host it has restored. -/
def Commanded (E : Surroundings) (currentDir : FsPath) (args : List GitArg) (t t' : FsTree) : Prop :=
  t' = t ∨ ∃ overrides, Ran E ⟨some currentDir,args,some overrides⟩ t t'

def Printed (E : Surroundings) (currentDir : FsPath) (args : List GitArg) (t : FsTree) (output : List UInt8)
    (t' : FsTree) : Prop :=
  ∃ overrides, Succeeded E ⟨some currentDir,args,some overrides⟩ t output t'

variable {P : Prop}

theorem triple_gitOutputManaged {currentDir : FsPath} {root : OwnedRoot}
    {workspaceIdentity : Option WorkspaceIdentity} {additionalRoot : Option OwnedRoot}
    (hspawn : Seen t (validateSpawn E currentDir root workspaceIdentity additionalRoot) fun _ => P)
    (args : List GitArg) (cancellable : Bool) (max : Option ℕ) (allowTruncation : Bool) :
    Triple (fun d => d.tree = t) (gitOutputManaged E currentDir root workspaceIdentity additionalRoot args
        cancellable max allowTruncation)
      (fun output d => P ∧ Commanded E currentDir args t d.tree ∧
        (output.truncated = false → Printed E currentDir args t output.bytes d.tree) ∧
        (allowTruncation = false → output.truncated = false))
      fun _ d => d.tree = t ∨ P ∧ Commanded E currentDir args t d.tree := by
  refine triple_of_seen hspawn (fun _ _ hd => .inl hd) fun _ _ => ?_
  refine triple_of_seen (looks_hostConfigLoop _ _ _) (fun _ _ hd => .inl hd) fun overrides _ => ?_
  refine triple_of_seen hspawn (fun _ _ hd => .inl hd) fun _ hp => ?_
  exact (triple_runGitChild _ _ _ _ _).post
    (fun _ d hd => ⟨hp,.inr ⟨overrides,hd.1⟩,fun hwhole => ⟨overrides,hd.2.1 hwhole⟩,hd.2.2⟩)
    fun _ d hd => .inr ⟨hp,.inr ⟨overrides,hd⟩⟩

theorem triple_gitOutputForPhase {currentDir : FsPath} {root : OwnedRoot}
    {workspaceIdentity : Option WorkspaceIdentity} {additionalRoot : Option OwnedRoot}
    (hspawn : Seen t (validateSpawn E currentDir root workspaceIdentity additionalRoot) fun _ => P)
    (args : List GitArg) (phase : InspectionPhase) (cancellable : Bool) :
    Triple (fun d => d.tree = t) (gitOutputForPhase E currentDir root workspaceIdentity additionalRoot args phase
        cancellable)
      (fun text d => P ∧ Commanded E currentDir args t d.tree ∧
        ∃ output, Printed E currentDir args t output d.tree ∧ text = Utf8.lossy output)
      fun _ d => d.tree = t ∨ P ∧ Commanded E currentDir args t d.tree :=
  triple_bind (triple_mapError (triple_gitOutputManaged hspawn _ _ _ _)) fun output =>
    triple_pure fun _ hd => ⟨hd.1,hd.2.1,output.bytes,hd.2.2.1 (hd.2.2.2 rfl),rfl⟩

theorem triple_gitOutput {currentDir : FsPath} {root : OwnedRoot}
    {workspaceIdentity : Option WorkspaceIdentity} {additionalRoot : Option OwnedRoot}
    (hspawn : Seen t (validateSpawn E currentDir root workspaceIdentity additionalRoot) fun _ => P)
    (args : List GitArg) :
    Triple (fun d => d.tree = t) (gitOutput E currentDir root workspaceIdentity additionalRoot args)
      (fun text d => P ∧ Commanded E currentDir args t d.tree ∧
        ∃ output, Printed E currentDir args t output d.tree ∧ text = Utf8.lossy output)
      fun _ d => d.tree = t ∨ P ∧ Commanded E currentDir args t d.tree :=
  triple_bind (triple_mapError (triple_gitOutputManaged hspawn _ _ _ _)) fun output =>
    triple_pure fun _ hd => ⟨hd.1,hd.2.1,output.bytes,hd.2.2.1 (hd.2.2.2 rfl),rfl⟩

/-! ### The head of a repository -/

/-- Git has named this commit for the revision. -/
def Named (E : Surroundings) (directory : FsPath) (revision : String) (t : FsTree) (sha : String) : Prop :=
  ∃ output, Printed E directory (revParseArgs revision) t output t ∧ Text.trim (Utf8.lossy output) = sha

theorem Commanded.revParse {directory : FsPath} {revision : String}
    (h : Commanded E directory (revParseArgs revision) t t') : t' = t := by
  rcases h with rfl | ⟨overrides,rfl | ⟨n,rfl⟩⟩
  · rfl
  · rfl
  · exact E.git.reads n _ revision _ t

theorem seen_revParse (directory : FsPath) (root : OwnedRoot) (workspaceIdentity : Option WorkspaceIdentity)
    (revision : String) (cancellable : Bool) :
    Seen t (revParse E directory root workspaceIdentity revision cancellable) (Named E directory revision t) := by
  refine triple_bind ((triple_gitOutputForPhase (looks_validateSpawn _ _ _ _) _ _ _).post (fun _ _ hd => hd.2)
    ?_) fun text => triple_pure fun d hd => ?_
  · rintro _ d (hd | ⟨-,hd⟩)
    · exact hd
    · exact hd.revParse
  · obtain ⟨hran,output,hprinted,rfl⟩ := hd
    have hsame := hran.revParse
    exact ⟨hsame,output,hsame ▸ hprinted,rfl⟩

/-- The head of the repository is this commit, with its complete object id. -/
def HeadAt (E : Surroundings) (directory : FsPath) (t : FsTree) (sha : String) : Prop :=
  Named E directory "HEAD^{commit}" t sha ∧ completeCommitSha sha = true

theorem seen_resolveCommit (directory : FsPath) (root : OwnedRoot) (workspaceIdentity : Option WorkspaceIdentity)
    (cancellable : Bool) :
    Seen t (resolveCommit E directory root workspaceIdentity cancellable) (HeadAt E directory t) := by
  refine seen_bind (seen_revParse _ _ _ _ _) fun sha hsha => ?_
  split_ifs with hcomplete
  · exact seen_fail _
  refine seen_bind (seen_revParse _ _ _ _ _) fun canonical _ => ?_
  split_ifs with hcanonical
  · exact seen_fail _
  simp only [Bool.or_eq_true,decide_eq_true_eq,not_or,not_not] at hcanonical
  exact seen_pure (hcanonical.1 ▸ ⟨hsha,by simpa using hcomplete⟩)

/-! ### Where Git writes -/

/-- A path that is not inside a directory. The directory itself is one. -/
def Beside (directory : FsPath) (p : FsPath) : Prop := ¬ (directory <+: p ∧ p ≠ directory)

/-- A path that is neither this one nor under it. -/
def Without (place : FsPath) (p : FsPath) : Prop := ¬ place <+: p

theorem beside_of_initial {directory p : FsPath} (h : p <+: directory) : Beside directory p := by
  rintro ⟨hle,hne⟩
  exact hne (h.eq_of_length (le_antisymm h.length_le hle.length_le))

theorem Without.beside {place p : FsPath} (h : Without place p) : Beside place p := fun hp => h hp.1

theorem agree_of_ran {command : GitCommand} {directory : FsPath} (hdestination : command.destination = none)
    (hcurrent : command.currentDir = some directory) (hdirs : t.Dirs directory) (h : Ran E command t t') :
    t.Agree (Beside directory) t' := by
  rcases h with rfl | ⟨n,rfl⟩
  · exact .refl _
  · intro p hp
    by_contra hne
    have hwrites := E.git.confined n command t p hne
    simp only [GitCommand.writes,hdestination,hcurrent] at hwrites
    exact hp (hwrites directory (canonicalize_of_dirs hdirs))

theorem agree_of_clone {command : GitCommand} {destination : FsPath}
    (hdestination : command.destination = some destination) (hdirs : t.Dirs destination.dropLast)
    (h : Ran E command t t') : t.Agree (Without destination) t' := by
  rcases h with rfl | ⟨n,rfl⟩
  · exact .refl _
  · intro p hp
    by_contra hne
    have hwrites := E.git.confined n command t p hne
    simp only [GitCommand.writes,hdestination] at hwrites
    exact hp (hwrites destination (place_of_dirs hdirs))

theorem Commanded.agree {directory : FsPath} {first : String} {args : List GitArg} (hfirst : first ≠ "clone")
    (hdirs : t.Dirs directory) (h : Commanded E directory (.text first::args) t t') :
    t.Agree (Beside directory) t' := by
  rcases h with rfl | ⟨overrides,h⟩
  · exact .refl _
  · exact agree_of_ran (by simp [GitCommand.destination,hfirst]) rfl hdirs h

theorem dirs_of_beside {directory : FsPath} (hdirs : t.Dirs directory) (h : t.Agree (Beside directory) t') :
    t'.Dirs directory :=
  h.dirs hdirs fun _ hq => beside_of_initial hq

/-- No Git directory has become a link. -/
def Unlinked (t t' : FsTree) : Prop :=
  ∀ p entry, t'.lookup (gitDirectory p) = some entry → entry.isSymlink = true →
    t.lookup (gitDirectory p) = some entry

theorem Unlinked.trans (h : Unlinked t t') (h' : Unlinked t' t'') : Unlinked t t'' :=
  fun p entry hentry hlink => h p entry (h' p entry hentry hlink) hlink

theorem Ran.unlinked {command : GitCommand} (h : Ran E command t t') : Unlinked t t' := by
  rcases h with rfl | ⟨n,rfl⟩
  · exact fun _ _ hentry _ => hentry
  · exact E.git.unlinked n command t

theorem Commanded.unlinked {directory : FsPath} {args : List GitArg} (h : Commanded E directory args t t') :
    Unlinked t t' := by
  rcases h with rfl | ⟨overrides,h⟩
  · exact fun _ _ hentry _ => hentry
  · exact h.unlinked

section

variable {directory : FsPath} (root : OwnedRoot) (workspaceIdentity : Option WorkspaceIdentity)
  (phase : InspectionPhase)

theorem keeps_localConfig (option value operation : String) (hdirs : t.Dirs directory) :
    Keeps (Beside directory) t (runGitChild E (localConfigCommand directory option value) operation true
      (some maxGitCommandOutputBytes) false) (fun _ t' => Unlinked t t') fun _ _ => True :=
  (triple_runGitChild _ _ _ _ _).post (fun _ _ hd => ⟨agree_of_ran rfl rfl hdirs hd.1,hd.1.unlinked⟩)
    fun _ _ hd => ⟨agree_of_ran rfl rfl hdirs hd,trivial⟩

theorem keeps_unsetKeys (keys : List String) (hdirs : t.Dirs directory) :
    Keeps (Beside directory) t (unsetKeys E directory root workspaceIdentity phase keys)
      (fun _ t' => Unlinked t t') fun _ _ => True := by
  induction keys generalizing t with
  | nil => exact keeps_pure fun _ _ hentry _ => hentry
  | cons key keys ih =>
    refine keeps_after (seen_ensureNotCancelled _) (fun _ => trivial) fun _ _ => ?_
    refine keeps_after (seen_mapError _ (looks_validateGitSpawnScope _ _ _ _)) (fun _ => trivial) fun _ _ => ?_
    refine keeps_bind (keeps_attempt (keeps_localConfig _ _ _ hdirs)) fun result t' ht' hresult => ?_
    cases result with
    | ok output =>
      exact (ih (dirs_of_beside hdirs ht')).post (fun _ _ _ hlater => (hresult.1 _ rfl).trans hlater)
        fun _ _ _ _ => trivial
    | error error =>
      cases error with
      | cancelled => exact keeps_fail trivial
      | _ => exact keeps_fail trivial

theorem keeps_unsetPatterns (patterns : List String) (hdirs : t.Dirs directory) :
    Keeps (Beside directory) t (unsetPatterns E directory root workspaceIdentity phase patterns)
      (fun _ t' => Unlinked t t') fun _ _ => True := by
  induction patterns generalizing t with
  | nil => exact keeps_pure fun _ _ hentry _ => hentry
  | cons pattern patterns ih =>
    refine keeps_after (seen_mapError _ (looks_validateGitSpawnScope _ _ _ _)) (fun _ => trivial) fun _ _ => ?_
    -- where no key has matched, Git has ended with an error
    refine keeps_bind (keeps_attempt (Q := fun _ t' => Unlinked t t') (R := fun _ t' => Unlinked t t')
      ((triple_runGitChild _ _ _ _ _).post
        (fun _ _ hd => ⟨agree_of_ran rfl rfl hdirs hd.1,hd.1.unlinked⟩)
        fun _ _ hd => ⟨agree_of_ran rfl rfl hdirs hd,hd.unlinked⟩)) fun result t' ht' hresult => ?_
    have hdirs' := dirs_of_beside hdirs ht'
    cases result with
    | ok output =>
      refine keeps_bind (keeps_unsetKeys root workspaceIdentity phase _ hdirs') fun _ t'' ht'' hkeys => ?_
      exact (ih (dirs_of_beside hdirs' ht'')).post
        (fun _ _ _ hlater => ((hresult.1 _ rfl).trans hkeys).trans hlater) fun _ _ _ _ => trivial
    | error error =>
      cases error with
      | exited operation code status =>
        simp only
        split_ifs
        · exact (ih hdirs').post (fun _ _ _ hlater => (hresult.2 _ rfl).trans hlater) fun _ _ _ _ => trivial
        · exact keeps_fail trivial
      | _ => exact keeps_fail trivial

theorem keeps_sanitizeLocalGitConfig (hdirs : t.Dirs directory) :
    Keeps (Beside directory) t (sanitizeLocalGitConfig E directory root workspaceIdentity phase)
      (fun _ t' => Unlinked t t') fun _ _ => True := by
  refine keeps_after (seen_ensureNotCancelled _) (fun _ => trivial) fun _ _ => ?_
  refine keeps_bind (keeps_unsetPatterns root workspaceIdentity phase _ hdirs) fun _ t' _ hpatterns => ?_
  exact keeps_of_seen (seen_ensureNotCancelled _) (fun _ _ => hpatterns) fun _ => trivial

end

/-! ### Git in a checkout -/

section

variable {root : OwnedRoot} {name : OsName} {identity : WorkspaceIdentity}

/-- The checks before a child in a checkout see that it is the one with this identity. -/
theorem seen_validateSpawn_workspace :
    Seen t (validateSpawn E (root.path ++ [name]) root (some identity) none) fun _ =>
      MarkedWorkspace t (root.path ++ [name]) identity := by
  refine seen_bind (Q := fun _ => MarkedWorkspace t (root.path ++ [name]) identity) (seen_mapError _ ?_)
    fun _ hmarked => seen_pure hmarked
  refine seen_bind (seen_validateRootIdentity _ _) fun _ hroot => ?_
  refine seen_bind seen_io fun _ _ => seen_bind seen_io fun _ _ => ?_
  split_ifs
  · exact seen_fail _
  refine seen_bind (looks_validateSource _ _ _) fun _ _ => ?_
  exact seen_validateWorkspaceIdentityAt identity (by rw [List.dropLast_concat]; exact hroot.1)

theorem keeps_gitInWorkspace (root : OwnedRoot) {first : String} {args : List GitArg} (phase : InspectionPhase) (cancellable : Bool)
    (hfirst : first ≠ "clone") :
    Keeps (Beside (root.path ++ [name])) t (gitOutputForPhase E (root.path ++ [name]) root (some identity) none
      (.text first::args) phase cancellable) (fun _ _ => True) fun _ _ => True := by
  refine (triple_gitOutputForPhase seen_validateSpawn_workspace _ _ _).post ?_ ?_
  · exact fun _ _ hd => ⟨hd.2.1.agree hfirst hd.1.real.1,trivial⟩
  · rintro _ d (rfl | hd)
    · exact ⟨.refl _,trivial⟩
    · exact ⟨hd.2.agree hfirst hd.1.real.1,trivial⟩

/-- Git has shown no change and no file that it does not know. -/
def CleanAt (E : Surroundings) (directory : FsPath) (t : FsTree) : Prop :=
  ∃ output t', Printed E directory
    [.text "status",.text "--porcelain=v1",.text "--untracked-files=all",.text "--ignored=matching"] t output t' ∧
    Text.trim (Utf8.lossy output) = ""

theorem keeps_dirtyDetails (root : OwnedRoot) (name : OsName) (identity : WorkspaceIdentity) :
    Keeps (Beside (root.path ++ [name])) t (dirtyDetails E (root.path ++ [name]) root identity)
      (fun details _ => details = none → CleanAt E (root.path ++ [name]) t) fun _ _ => True := by
  refine triple_bind ((triple_gitOutput seen_validateSpawn_workspace _).post (fun _ _ hd => hd) ?_)
    fun text => triple_pure fun d hd => ?_
  · rintro _ d (rfl | hd)
    · exact ⟨.refl _,trivial⟩
    · exact ⟨hd.2.agree (by decide) hd.1.real.1,trivial⟩
  · obtain ⟨hmarked,hran,output,hprinted,rfl⟩ := hd
    refine ⟨hran.agree (by decide) hmarked.real.1,fun hnone => ⟨output,d.tree,hprinted,?_⟩⟩
    split_ifs at hnone with hempty
    simpa using hempty

end

end

/-! ### The commands return -/

section

variable {E : Surroundings} {ε : Type}

theorem total_isCancelled : Total (isCancelled E : Prog FsDisk ε Bool) := by
  intro d
  simp [exec,isCancelled]

theorem total_checkFlag (cancellable : Bool) : Total (checkFlag E cancellable) :=
  total_ite (total_bind total_isCancelled fun _ => total_refuse (total_pure _)) (total_pure _)

theorem total_validateCachePath (root : FsPath) (expected : FsIdentity) (cache : FsPath) :
    Total (validateCachePath E root expected cache) := by
  refine total_bind (total_validateRootIdentity _ _) fun _ => total_see fun _ => ?_
  cases parent? cache with
  | none => exact total_fail _
  | some repositoryRoot =>
    refine total_see fun _ => total_see fun _ => total_refuse (total_see fun _ => total_see fun _ => ?_)
    exact total_refuse (total_pure _)

theorem total_validateGitSpawnScope (currentDir root : FsPath) (expected : FsIdentity)
    (workspaceIdentity : Option WorkspaceIdentity) :
    Total (validateGitSpawnScope E currentDir root expected workspaceIdentity) := by
  refine total_bind (total_validateRootIdentity _ _) fun _ => total_see fun _ => total_see fun _ => total_refuse ?_
  refine total_bind (total_ite (total_validateCachePath _ _ _) (total_pure _)) fun _ => ?_
  cases workspaceIdentity with
  | none => exact total_pure _
  | some identity => exact total_validateWorkspaceIdentityAt _ _

theorem total_validateSpawn (currentDir : FsPath) (root : OwnedRoot)
    (workspaceIdentity : Option WorkspaceIdentity) (additionalRoot : Option OwnedRoot) :
    Total (validateSpawn E currentDir root workspaceIdentity additionalRoot) := by
  refine total_bind (total_mapError _ (total_validateGitSpawnScope _ _ _ _)) fun _ => ?_
  cases additionalRoot with
  | none => exact total_pure _
  | some other => exact total_mapError _ (total_validateRootIdentity _ _)

theorem total_runGitChild (command : GitCommand) (operation : String) (cancellable : Bool) (max : Option ℕ)
    (allowTruncation : Bool) : Total (runGitChild E command operation cancellable max allowTruncation) := by
  refine total_bind (total_checkFlag _) fun _ => total_bind (fun d => by simp [exec,awaitGit]) fun answer => ?_
  cases answer.ended with
  | exited code status =>
    exact total_bind (total_checkFlag _) fun _ => total_refuse (total_refuse (total_pure _))
  | overflowed => exact total_refuse (total_bind (total_checkFlag _) fun _ => total_pure _)
  | _ => exact total_fail _

theorem total_hostConfigLoop (cancellable : Bool) (scopes : List String) (overrides : List (String × String)) :
    Total (hostConfigLoop E cancellable scopes overrides) := by
  induction scopes generalizing overrides with
  | nil => exact total_pure _
  | cons scope scopes ih =>
    refine total_bind (total_attempt (total_runGitChild _ _ _ _ _)) fun result => ?_
    cases result with
    | ok output => exact ih _
    | error error =>
      cases error with
      | cancelled => exact total_fail _
      | _ => exact ih _

theorem total_gitOutputManaged (currentDir : FsPath) (root : OwnedRoot)
    (workspaceIdentity : Option WorkspaceIdentity) (additionalRoot : Option OwnedRoot) (args : List GitArg)
    (cancellable : Bool) (max : Option ℕ) (allowTruncation : Bool) :
    Total (gitOutputManaged E currentDir root workspaceIdentity additionalRoot args cancellable max
      allowTruncation) :=
  total_bind (total_validateSpawn _ _ _ _) fun _ => total_bind (total_hostConfigLoop _ _ _) fun _ =>
    total_bind (total_validateSpawn _ _ _ _) fun _ => total_runGitChild _ _ _ _ _

variable (directory : FsPath) (root : OwnedRoot) (workspaceIdentity : Option WorkspaceIdentity)
  (phase : InspectionPhase)

end

end Inspection
end North
