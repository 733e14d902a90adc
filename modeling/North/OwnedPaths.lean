import North.Lib.FileTree
import North.PathNames

/-! The daemon's own directories: the checks of `repository_inspection.rs` before it removes
one, and the removal. A check looks at the entry itself, at its identity and at where the
path leads; the removal goes by way of a quarantine for the cache. -/
namespace North
namespace Inspection

open Prog FileTree

/-- A file name: text, or bytes that are no text and how they are shown. -/
inductive OsName
  | text (name : String)
  | bytes (bytes : List UInt8) (shown : String)
  deriving DecidableEq, Repr

def OsName.toStr : OsName → Option String
  | .text name => some name
  | .bytes _ _ => none

def OsName.shown : OsName → String
  | .text name => name
  | .bytes _ shown => shown

structure FsIdentity where
  first : ℕ
  second : ℕ
  deriving DecidableEq, Repr

structure WorkspaceIdentity where
  name : String
  workspace : FsIdentity
  gitDirectory : FsIdentity
  marker : FsIdentity
  deriving DecidableEq, Repr

structure CacheStagingIdentity where
  cacheNamespace : FsIdentity
  staging : FsIdentity
  deriving DecidableEq, Repr

abbrev FsPath := FileTree.Path OsName

abbrev FsTree := FileTree.Tree OsName FsIdentity

abbrev FsDisk := FileTree.Disk OsName FsIdentity

def display (p : FsPath) : String := "/" ++ "/".intercalate (p.map OsName.shown)

def startsWith (name pre : String) : Bool := (Text.stripPrefix name pre).isSome

def cacheStagingPrefix : String := ".source-"

def workspaceMarker : String := "north-workspace-identity"

def isCacheStagingName (name : OsName) : Bool := name.toStr.any (startsWith · cacheStagingPrefix)

def isCacheNamespaceName (name : OsName) : Bool := PathNames.isCacheNamespaceName name.toStr

/-- `name.to_str().is_some_and(|name| name.starts_with(prefix))`. -/
def hasStart (pre : String) (name : OsName) : Bool := name.toStr.any (startsWith · pre)

abbrev Op (α : Type) := Prog FsDisk String α

section

variable {α : Type}

/-- A call whose error is given on as a text. -/
def io (call : Prog FsDisk IoError α) : Op α := mapError IoError.text call

variable (O : Outcomes OsName) (processId : ℕ)

def validateRootIdentity (root : FsPath) (expected : FsIdentity) : Op Unit := do
  let metadata ← io (Call.symlinkMetadata O root)
  if metadata.isSymlink || !metadata.isDir then
    fail "configured root was replaced by a non-directory or symlink"
  else if metadata.identity ≠ expected then fail "configured root was replaced"
  else do
    let canonical ← io (Call.canonicalize O root)
    if canonical ≠ root then fail "configured root was redirected" else pure ()

def parent? (path : FsPath) : Option FsPath := if path.isEmpty then none else some path.dropLast

def validateCacheNamespace (root : FsPath) (expectedRootIdentity : FsIdentity) (repositoryRoot : FsPath) :
    Op FsIdentity := do
  validateRootIdentity O root expectedRootIdentity
  let root ← io (Call.canonicalize O root)
  if parent? repositoryRoot ≠ some root then
    fail "repository cache namespace is not a direct child of daemon-owned root"
  else do
    let metadata ← io (Call.symlinkMetadata O repositoryRoot)
    if metadata.isSymlink || !metadata.isDir then
      fail "repository cache namespace is not a real directory"
    else do
      let canonical ← io (Call.canonicalize O repositoryRoot)
      if parent? canonical ≠ some root then
        fail "repository cache namespace is outside daemon-owned root"
      else pure metadata.identity

/-- `match fs::symlink_metadata(path)`, where a path that is not there is a case of its own. -/
def whenPresent (path : FsPath) (absent : Op α) (present : Entry OsName FsIdentity → Op α) : Op α := do
  match ← attempt (Call.symlinkMetadata O path) with
  | .ok metadata => present metadata
  | .error .notFound => absent
  | .error error => fail error.text

def ensurePathAbsent (path : FsPath) : Op Unit :=
  whenPresent O path (pure ()) fun _ => fail "Git destination already exists"

def validateCacheStagingPath (cacheRoot : FsPath) (expectedRootIdentity : FsIdentity)
    (repositoryRoot staging : FsPath) : Op CacheStagingIdentity := do
  let cacheNamespace ← validateCacheNamespace O cacheRoot expectedRootIdentity repositoryRoot
  let metadata ← io (Call.symlinkMetadata O staging)
  if metadata.isSymlink || !metadata.isDir then
    fail "temporary repository cache is not an owned directory"
  else if parent? staging ≠ some repositoryRoot then
    fail "temporary repository cache is not a direct child of its namespace"
  else do
    let canonicalRoot ← io (Call.canonicalize O repositoryRoot)
    let canonical ← io (Call.canonicalize O staging)
    if parent? canonical ≠ some canonicalRoot then
      fail "temporary repository cache resolves outside daemon-owned root"
    else match canonical.getLast? with
      | none => fail "temporary repository cache has no name"
      | some name =>
        if !isCacheStagingName name then
          fail "temporary repository cache resolves outside daemon-owned root"
        else pure ⟨cacheNamespace,metadata.identity⟩

def removeOwnedChildPath (root path : FsPath) (expectedRootIdentity expectedIdentity : FsIdentity)
    (pre : String) : Op Unit := do
  validateRootIdentity O root expectedRootIdentity
  whenPresent O path (pure ()) fun metadata => do
    if parent? path ≠ some root || !path.getLast?.any (hasStart pre) then
      fail "refusing cleanup outside daemon-owned direct child"
    else if metadata.identity ≠ expectedIdentity then fail "owned cleanup child identity changed"
    else if metadata.isSymlink || !metadata.isDir then fail "owned cleanup child is not a real directory"
    else do
      let canonicalRoot ← io (Call.canonicalize O root)
      let canonical ← io (Call.canonicalize O path)
      if parent? canonical ≠ some canonicalRoot then
        fail "refusing cleanup outside daemon-owned root"
      else do
        let mode ← io (Call.metadata O root)
        if !mode.ownerWritable then fail "daemon-owned root is not writable for cleanup"
        else do
          validateRootIdentity O root expectedRootIdentity
          whenPresent O path (pure ()) fun finalMetadata => do
            if finalMetadata.isSymlink || !finalMetadata.isDir ||
                decide (finalMetadata.identity ≠ expectedIdentity) then
              fail "owned cleanup child identity changed before removal"
            else do
              let finalRoot ← io (Call.canonicalize O root)
              let finalPath ← io (Call.canonicalize O path)
              if parent? finalPath ≠ some finalRoot then
                fail "refusing cleanup outside daemon-owned root"
              else io (Call.removeDirAll O path)

def cacheCleanupSequence : ℕ := 0

def cleanupName (processId sequence : ℕ) : OsName :=
  .text (cacheStagingPrefix ++ "cleanup-" ++ PathNames.decimal processId ++ "-" ++ PathNames.decimal sequence)

/-- A call whose error comes after an explanation. -/
def explained (explanation : String) (m : Op α) : Op α := mapError (explanation ++ ·) m

def removeOwnedCachePath (cacheRoot : FsPath) (expectedRootIdentity : FsIdentity)
    (repositoryRoot path : FsPath) (expectedIdentity : CacheStagingIdentity) : Op Unit :=
  whenPresent O path (pure ()) fun _ => do
    let currentIdentity ← validateCacheStagingPath O cacheRoot expectedRootIdentity repositoryRoot path
    if currentIdentity ≠ expectedIdentity then fail "temporary repository cache identity changed"
    else do
      let sequence ← drawSequence cacheCleanupSequence
      let quarantine := repositoryRoot ++ [cleanupName processId sequence]
      ensurePathAbsent O quarantine
      explained ("move temporary repository cache " ++ display path ++ " into cleanup quarantine: ")
        (io (Call.rename O path quarantine))
      let quarantinedIdentity ←
        validateCacheStagingPath O cacheRoot expectedRootIdentity repositoryRoot quarantine
      if quarantinedIdentity ≠ expectedIdentity then
        fail ("temporary repository cache quarantine " ++ display quarantine ++
          " identity changed during cleanup")
      else
        explained ("cleanup quarantine " ++ display quarantine ++ ": ")
          (removeOwnedChildPath O repositoryRoot quarantine expectedIdentity.cacheNamespace
            expectedIdentity.staging cacheStagingPrefix)

def removeOwnedCacheStagingPath (cacheRoot : FsPath) (expectedRootIdentity : FsIdentity)
    (repositoryRoot path : FsPath) (expectedIdentity : CacheStagingIdentity) : Op Unit := do
  validateRootIdentity O cacheRoot expectedRootIdentity
  whenPresent O path (pure ()) fun _ => do
    let currentIdentity ← validateCacheStagingPath O cacheRoot expectedRootIdentity repositoryRoot path
    if currentIdentity ≠ expectedIdentity then fail "temporary repository cache identity changed"
    else removeOwnedCachePath O processId cacheRoot expectedRootIdentity repositoryRoot path expectedIdentity

/-! ### Workspaces -/

/-- The checks of a file of the checkout, for its metadata. -/
def ownedEntry (path : FsPath) (isKind : Entry OsName FsIdentity → Bool) (reason : String) :
    Op (Entry OsName FsIdentity) := do
  let metadata ← io (Call.symlinkMetadata O path)
  if metadata.isSymlink || !isKind metadata then fail reason else pure metadata

def gitDirectory (path : FsPath) : FsPath := path ++ [.text ".git"]

def markerPath (path : FsPath) : FsPath := gitDirectory path ++ [.text workspaceMarker]

def captureWorkspaceIdentity (path : FsPath) : Op WorkspaceIdentity := do
  match path.getLast?.bind OsName.toStr with
  | none => fail "workspace has no valid identity name"
  | some name => do
    let workspace ← ownedEntry O path Entry.isDir "workspace is not an owned directory"
    let git ← ownedEntry O (gitDirectory path) Entry.isDir "checkout Git directory is not an owned directory"
    let marker ← ownedEntry O (markerPath path) Entry.isFile
      "workspace identity marker is not an owned file"
    let value ← io (Call.read O (markerPath path))
    if value ≠ Text.asBytes name then fail "workspace identity marker has unexpected value"
    else pure ⟨name,workspace.identity,git.identity,marker.identity⟩

def validateWorkspaceIdentityAt (path : FsPath) (identity : WorkspaceIdentity) : Op Unit := do
  match path.getLast?.bind OsName.toStr with
  | none => fail "workspace has no valid identity name"
  | some name =>
    if name ≠ identity.name then fail "workspace identity name changed"
    else do
      let workspace ← ownedEntry O path Entry.isDir "workspace is not an owned directory"
      if workspace.identity ≠ identity.workspace then fail "workspace filesystem identity changed"
      else do
        let git ← ownedEntry O (gitDirectory path) Entry.isDir
          "checkout Git directory is not an owned directory"
        if git.identity ≠ identity.gitDirectory then fail "checkout Git directory identity changed"
        else do
          let marker ← ownedEntry O (markerPath path) Entry.isFile
            "workspace identity marker is not an owned file"
          if marker.identity ≠ identity.marker then fail "workspace identity marker identity changed"
          else do
            let value ← io (Call.read O (markerPath path))
            if value ≠ Text.asBytes identity.name then fail "workspace identity marker changed"
            else pure ()

def validateWorkspacePath (root : FsPath) (expectedRootIdentity : FsIdentity) (path : FsPath) : Op Unit := do
  validateRootIdentity O root expectedRootIdentity
  let metadata ← io (Call.symlinkMetadata O path)
  if metadata.isSymlink || !metadata.isDir then fail "workspace path is not an owned directory"
  else if parent? path ≠ some root then
    fail "workspace path is not a direct child of the dedicated root"
  else do
    let canonical ← io (Call.canonicalize O path)
    if parent? canonical ≠ some root || !canonical.getLast?.any (hasStart PathNames.workspacePrefix) then
      fail "workspace path resolves outside the dedicated root"
    else pure ()

def removeOwnedWorkspacePath (root path : FsPath) (expectedRootIdentity : FsIdentity)
    (expectedIdentity : WorkspaceIdentity) : Op Unit := do
  validateRootIdentity O root expectedRootIdentity
  validateWorkspacePath O root expectedRootIdentity path
  validateWorkspaceIdentityAt O path expectedIdentity
  removeOwnedChildPath O root path expectedRootIdentity expectedIdentity.workspace PathNames.workspacePrefix

end

/-! ### What the checks see -/

section

variable {α : Type} {O : Outcomes OsName} {t : FsTree}

theorem parent?_eq_some {path root : FsPath} : parent? path = some root ↔ ∃ name, path = root ++ [name] := by
  rcases List.eq_nil_or_concat' path with rfl | ⟨parent,name,rfl⟩
  · simp [parent?]
  · simp [parent?]

theorem isDir_of_kind {entry : Entry OsName FsIdentity}
    (h : ¬ (entry.isSymlink || !entry.isDir) = true) : entry.isDir = true := by
  simp only [Bool.or_eq_true,Bool.not_eq_true',not_or,Bool.not_eq_false] at h
  exact h.2

theorem seen_io {f : FsTree → Except IoError α} : Seen t (io (reading O f)) fun a => f t = .ok a :=
  triple_mapError (seen_call f)

theorem triple_io {call : Prog FsDisk IoError α} {P : FsDisk → Prop} {Q : α → FsDisk → Prop}
    {R : FsDisk → Prop} (h : Triple P call Q fun _ d => R d) : Triple P (io call) Q fun _ d => R d :=
  triple_mapError h

theorem seen_validateRootIdentity (root : FsPath) (expected : FsIdentity) :
    Seen t (validateRootIdentity O root expected) fun _ => t.Real root expected := by
  refine seen_bind seen_io fun metadata hmetadata => ?_
  split_ifs with hkind hidentity
  · exact seen_fail _
  · exact seen_fail _
  refine seen_bind seen_io fun canonical hcanonical => ?_
  split_ifs with hroot
  · exact seen_fail _
  refine seen_pure ?_
  obtain rfl := not_not.mp hroot
  obtain rfl := not_not.mp hidentity
  exact real_of_canonical hcanonical hmetadata (isDir_of_kind hkind)

/-- The namespace of a repository in the cache, under the cache root. -/
structure OwnedNamespace (t : FsTree) (cacheRoot : FsPath) (rootIdentity : FsIdentity)
    (repositoryRoot : FsPath) (identity : FsIdentity) : Prop where
  owned : t.Real cacheRoot rootIdentity
  child : ∃ name, repositoryRoot = cacheRoot ++ [name]
  repository : t.Real repositoryRoot identity

theorem seen_validateCacheNamespace (root : FsPath) (expected : FsIdentity) (repositoryRoot : FsPath) :
    Seen t (validateCacheNamespace O root expected repositoryRoot)
      (OwnedNamespace t root expected repositoryRoot) := by
  refine seen_bind (seen_validateRootIdentity root expected) fun _ hroot => ?_
  refine seen_bind seen_io fun canonicalRoot hcanonicalRoot => ?_
  obtain rfl : root = canonicalRoot := by simpa [canonicalize_of_dirs hroot.1] using hcanonicalRoot
  split_ifs with hparent
  · exact seen_fail _
  obtain ⟨name,rfl⟩ := parent?_eq_some.mp (not_not.mp hparent)
  refine seen_bind seen_io fun metadata hmetadata => ?_
  split_ifs with hkind
  · exact seen_fail _
  refine seen_bind seen_io fun canonical hcanonical => ?_
  split_ifs
  · exact seen_fail _
  refine seen_pure ⟨hroot,⟨name,rfl⟩,real_of_metadata ?_ hmetadata (isDir_of_kind hkind)⟩
  rw [List.dropLast_concat]
  exact hroot.1

/-- A staging directory of the cache, in the namespace of its repository. -/
structure OwnedStaging (t : FsTree) (cacheRoot : FsPath) (rootIdentity : FsIdentity)
    (repositoryRoot path : FsPath) (identity : CacheStagingIdentity) : Prop where
  namespaced : OwnedNamespace t cacheRoot rootIdentity repositoryRoot identity.cacheNamespace
  child : ∃ name, path = repositoryRoot ++ [name] ∧ isCacheStagingName name = true
  staging : t.Real path identity.staging

theorem seen_validateCacheStagingPath (cacheRoot : FsPath) (expected : FsIdentity)
    (repositoryRoot path : FsPath) :
    Seen t (validateCacheStagingPath O cacheRoot expected repositoryRoot path)
      (OwnedStaging t cacheRoot expected repositoryRoot path) := by
  refine seen_bind (seen_validateCacheNamespace _ _ _) fun identity hnamespace => ?_
  refine seen_bind seen_io fun metadata hmetadata => ?_
  split_ifs with hkind hparent
  · exact seen_fail _
  · exact seen_fail _
  obtain ⟨name,rfl⟩ := parent?_eq_some.mp (not_not.mp hparent)
  have hreal := real_of_metadata (by rw [List.dropLast_concat]; exact hnamespace.repository.1) hmetadata
    (isDir_of_kind hkind)
  refine seen_bind seen_io fun canonicalRoot _ => ?_
  refine seen_bind seen_io fun canonical hcanonical => ?_
  obtain rfl : repositoryRoot ++ [name] = canonical := by
    simpa [canonicalize_of_dirs hreal.1] using hcanonical
  split_ifs
  · exact seen_fail _
  rw [List.getLast?_concat]
  simp only
  split_ifs with hname
  · exact seen_fail _
  · exact seen_pure ⟨hnamespace,⟨name,rfl,by simpa using hname⟩,hreal⟩

theorem triple_whenPresent {path : FsPath} {absent : Op α} {present : Entry OsName FsIdentity → Op α}
    {Q : α → FsDisk → Prop} {R : String → FsDisk → Prop} (hR : ∀ e d, d.tree = t → R e d)
    (habsent : t.symlinkMetadata path = .error .notFound → Triple (fun d => d.tree = t) absent Q R)
    (hpresent : ∀ metadata, t.symlinkMetadata path = .ok metadata →
      Triple (fun d => d.tree = t) (present metadata) Q R) :
    Triple (fun d => d.tree = t) (whenPresent O path absent present) Q R := by
  refine triple_of_seen (seen_reading fun t => t.symlinkMetadata path) hR fun r hr => ?_
  cases r with
  | ok metadata => exact hpresent metadata (hr.1 metadata rfl)
  | error error =>
    cases error with
    | notFound => exact habsent (hr.2 rfl)
    | _ => exact triple_fail fun d hd => hR _ d hd

theorem seen_ensurePathAbsent (path : FsPath) :
    Seen t (ensurePathAbsent O path) fun _ => t.symlinkMetadata path = .error .notFound :=
  triple_whenPresent (fun _ _ hd => hd) (fun h => seen_pure h) fun _ _ => seen_fail _

/-- A direct child of an owned root under a name with this start. -/
structure OwnedChild (t : FsTree) (root path : FsPath) (rootIdentity identity : FsIdentity)
    (pre : String) : Prop where
  owned : t.Real root rootIdentity
  child : ∃ name, path = root ++ [name] ∧ hasStart pre name = true
  real : t.Real path identity

theorem triple_removeOwnedChildPath (root path : FsPath) (rootIdentity identity : FsIdentity) (pre : String) :
    Triple (fun d => d.tree = t) (removeOwnedChildPath O root path rootIdentity identity pre)
      (fun _ d => t.symlinkMetadata path = .error .notFound ∧ d.tree = t ∨
        OwnedChild t root path rootIdentity identity pre ∧ t.Pruned [path] d.tree)
      fun _ d => d.tree = t ∨
        OwnedChild t root path rootIdentity identity pre ∧ t.DiffersUnder [path] d.tree := by
  refine triple_of_seen (seen_validateRootIdentity _ _) (fun _ _ hd => .inl hd) fun _ hroot => ?_
  refine triple_whenPresent (fun _ _ hd => .inl hd)
    (fun habsent => triple_pure fun _ hd => .inl ⟨habsent,hd⟩) fun metadata hmetadata => ?_
  split_ifs with hchild hidentity hkind
  · exact triple_fail fun _ hd => .inl hd
  · exact triple_fail fun _ hd => .inl hd
  · exact triple_fail fun _ hd => .inl hd
  simp only [Bool.or_eq_true,decide_eq_true_eq,not_or,not_not,Bool.not_eq_true',
    Bool.not_eq_false] at hchild
  obtain ⟨name,rfl⟩ := parent?_eq_some.mp hchild.1
  have howned : OwnedChild t root (root ++ [name]) rootIdentity identity pre := by
    refine ⟨hroot,⟨name,rfl,by simpa using hchild.2⟩,?_⟩
    obtain rfl := not_not.mp hidentity
    exact real_of_metadata (by rw [List.dropLast_concat]; exact hroot.1) hmetadata (isDir_of_kind hkind)
  refine triple_of_seen seen_io (fun _ _ hd => .inl hd) fun canonicalRoot _ => ?_
  refine triple_of_seen seen_io (fun _ _ hd => .inl hd) fun canonical _ => ?_
  split_ifs
  · exact triple_fail fun _ hd => .inl hd
  refine triple_of_seen seen_io (fun _ _ hd => .inl hd) fun mode _ => ?_
  split_ifs
  · exact triple_fail fun _ hd => .inl hd
  refine triple_of_seen (seen_validateRootIdentity _ _) (fun _ _ hd => .inl hd) fun _ _ => ?_
  refine triple_whenPresent (fun _ _ hd => .inl hd)
    (fun habsent => triple_pure fun _ hd => .inl ⟨habsent,hd⟩) fun finalMetadata _ => ?_
  split_ifs
  · exact triple_fail fun _ hd => .inl hd
  refine triple_of_seen seen_io (fun _ _ hd => .inl hd) fun finalRoot _ => ?_
  refine triple_of_seen seen_io (fun _ _ hd => .inl hd) fun finalPath _ => ?_
  split_ifs
  · exact triple_fail fun _ hd => .inl hd
  exact triple_io ((triple_removeDirAll howned.real).post (fun _ _ hd => .inr ⟨howned,hd⟩)
    fun _ _ hd => .inr ⟨howned,hd⟩)

theorem triple_explained {m : Op α} {P : FsDisk → Prop} {Q : α → FsDisk → Prop} {R : FsDisk → Prop}
    (explanation : String) (h : Triple P m Q fun _ d => R d) :
    Triple P (explained explanation m) Q fun _ d => R d :=
  triple_mapError h

/-- The name that a staging directory gets before its removal; nothing has it yet. -/
structure Quarantine (t : FsTree) (repositoryRoot : FsPath) (name : OsName) : Prop where
  staging : isCacheStagingName name = true
  free : t.lookup (repositoryRoot ++ [name]) = none

theorem isCacheStagingName_cleanupName (processId n : ℕ) :
    isCacheStagingName (cleanupName processId n) = true := by
  have h : cleanupName processId n = .text (cacheStagingPrefix ++
      ("cleanup-" ++ PathNames.decimal processId ++ "-" ++ PathNames.decimal n)) := by
    simp only [cleanupName,String.append_assoc]
  rw [h]
  simp [isCacheStagingName,OsName.toStr,startsWith,Text.stripPrefix_append]

/-- What an attempt to remove a staging directory may do to the tree. -/
def StagingTouched (t : FsTree) (cacheRoot : FsPath) (expected : FsIdentity) (repositoryRoot path : FsPath)
    (identity : CacheStagingIdentity) (t' : FsTree) : Prop :=
  t' = t ∨ OwnedStaging t cacheRoot expected repositoryRoot path identity ∧ ∃ name,
    Quarantine t repositoryRoot name ∧ t.DiffersUnder [path,repositoryRoot ++ [name]] t'

/-- What the removal of a staging directory does. -/
def StagingRemoved (t : FsTree) (cacheRoot : FsPath) (expected : FsIdentity) (repositoryRoot path : FsPath)
    (identity : CacheStagingIdentity) (t' : FsTree) : Prop :=
  OwnedStaging t cacheRoot expected repositoryRoot path identity ∧ ∃ name,
    Quarantine t repositoryRoot name ∧ t.Pruned [path,repositoryRoot ++ [name]] t'

variable (processId : ℕ)

/-- A staging directory that is removed goes by way of its quarantine: under both names there is
nothing left, or what a failure left, and elsewhere nothing changes. -/
theorem triple_removeOwnedCachePath (cacheRoot : FsPath) (expected : FsIdentity)
    (repositoryRoot path : FsPath) (identity : CacheStagingIdentity) :
    Triple (fun d => d.tree = t) (removeOwnedCachePath O processId cacheRoot expected repositoryRoot path identity)
      (fun _ d => t.symlinkMetadata path = .error .notFound ∧ d.tree = t ∨
        StagingRemoved t cacheRoot expected repositoryRoot path identity d.tree)
      fun _ d => StagingTouched t cacheRoot expected repositoryRoot path identity d.tree := by
  refine triple_whenPresent (fun _ _ hd => .inl hd)
    (fun habsent => triple_pure fun _ hd => .inl ⟨habsent,hd⟩) fun _ _ => ?_
  refine triple_of_seen (seen_validateCacheStagingPath _ _ _ _) (fun _ _ hd => .inl hd) fun current howned => ?_
  split_ifs with hcurrent
  · exact triple_fail fun _ hd => .inl hd
  obtain rfl := not_not.mp hcurrent
  refine triple_of_seen (seen_drawSequence _) (fun _ _ hd => .inl hd) fun sequence _ => ?_
  refine triple_of_seen (seen_ensurePathAbsent _) (fun _ _ hd => .inl hd) fun _ habsent => ?_
  have hrepository := howned.namespaced.repository.1
  have hquarantine : Quarantine t repositoryRoot (cleanupName processId sequence) := by
    refine ⟨isCacheStagingName_cleanupName processId sequence,?_⟩
    exact (symlinkMetadata_notFound (by rwa [List.dropLast_concat])).mp habsent
  generalize cleanupName processId sequence = quarantine at hquarantine ⊢
  obtain ⟨⟨name,rfl,hname⟩,hreal⟩ := And.intro howned.child howned.staging
  have hapart : name ≠ quarantine := by
    rintro rfl
    obtain ⟨_,_,hsome⟩ := hreal
    simp [hquarantine.free] at hsome
  refine triple_bind ((triple_explained _ (triple_io (triple_rename hreal (by rwa [List.dropLast_concat]) (by simp)
    hquarantine.free (not_prefix_sibling hapart)))).post (fun _ _ hd => hd) fun _ _ hd => .inl hd) fun _ => ?_
  -- the rest works on the tree after the move
  refine triple_each (P := fun t' => t.DiffersUnder [repositoryRoot ++ [name],repositoryRoot ++ [quarantine]] t' ∧
    t'.Bare [repositoryRoot ++ [name]]) fun t' hmoved => ?_
  have hdiffers : ∀ {t'' : FsTree}, t'.DiffersUnder [repositoryRoot ++ [quarantine]] t'' →
      t.DiffersUnder [repositoryRoot ++ [name],repositoryRoot ++ [quarantine]] t'' :=
    fun h => hmoved.1.trans h (by simp) (by simp)
  have hstay := hdiffers (Tree.DiffersUnder.refl _)
  refine triple_of_seen (seen_validateCacheStagingPath _ _ _ _) ?_ fun moved hmovedOwned => ?_
  · rintro _ d rfl
    exact .inr ⟨howned,quarantine,hquarantine,hstay⟩
  split_ifs with hidentity
  · refine triple_fail ?_
    rintro d rfl
    exact .inr ⟨howned,quarantine,hquarantine,hstay⟩
  refine (triple_explained _ ((triple_removeOwnedChildPath _ _ _ _ _).post (fun _ _ hd => hd) ?_)).post ?_
    fun _ _ hd => hd
  · rintro _ d (rfl | ⟨-,hd⟩)
    · exact .inr ⟨howned,quarantine,hquarantine,hstay⟩
    · exact .inr ⟨howned,quarantine,hquarantine,hdiffers hd⟩
  · rintro _ d (⟨habsent,rfl⟩ | ⟨-,hd⟩)
    · obtain ⟨hdirs,writable,hlookup⟩ := hmovedOwned.staging
      rw [symlinkMetadata_notFound (hdirs.initial ( List.dropLast_prefix _)),hlookup] at habsent
      cases habsent
    · exact .inr ⟨howned,quarantine,hquarantine,hdiffers hd.differs,hmoved.2.and hd⟩

theorem triple_removeOwnedCacheStagingPath (cacheRoot : FsPath) (expected : FsIdentity)
    (repositoryRoot path : FsPath) (identity : CacheStagingIdentity) :
    Triple (fun d => d.tree = t)
      (removeOwnedCacheStagingPath O processId cacheRoot expected repositoryRoot path identity)
      (fun _ d => t.symlinkMetadata path = .error .notFound ∧ d.tree = t ∨
        StagingRemoved t cacheRoot expected repositoryRoot path identity d.tree)
      fun _ d => StagingTouched t cacheRoot expected repositoryRoot path identity d.tree := by
  refine triple_of_seen (seen_validateRootIdentity _ _) (fun _ _ hd => .inl hd) fun _ _ => ?_
  refine triple_whenPresent (fun _ _ hd => .inl hd)
    (fun habsent => triple_pure fun _ hd => .inl ⟨habsent,hd⟩) fun _ _ => ?_
  refine triple_of_seen (seen_validateCacheStagingPath _ _ _ _) (fun _ _ hd => .inl hd) fun current _ => ?_
  split_ifs
  · exact triple_fail fun _ hd => .inl hd
  · exact triple_removeOwnedCachePath processId _ _ _ _ _

/-! ### Workspaces -/

theorem seen_ownedEntry (path : FsPath) (isKind : Entry OsName FsIdentity → Bool) (reason : String) :
    Seen t (ownedEntry O path isKind reason) fun metadata =>
      t.symlinkMetadata path = .ok metadata ∧ isKind metadata = true := by
  refine seen_bind seen_io fun metadata hmetadata => ?_
  split_ifs with hkind
  · exact seen_fail _
  · simp only [Bool.or_eq_true,Bool.not_eq_true',not_or,Bool.not_eq_false] at hkind
    exact seen_pure ⟨hmetadata,hkind.2⟩

theorem file_of_metadata {path : FsPath} {metadata : Entry OsName FsIdentity} (hparent : t.Dirs path.dropLast)
    (hmetadata : t.symlinkMetadata path = .ok metadata) (hfile : metadata.isFile = true) :
    ∃ content, t.lookup path = some (.file metadata.identity content) := by
  have hlookup := (symlinkMetadata_of_dirs hparent).mp hmetadata
  cases metadata with
  | file identity content => exact ⟨content,hlookup⟩
  | dir identity writable => cases hfile
  | symlink identity absolute target => cases hfile

/-- A checkout of the daemon: its Git directory has a marker with the name of the checkout. -/
structure MarkedWorkspace (t : FsTree) (path : FsPath) (identity : WorkspaceIdentity) : Prop where
  name : path.getLast?.bind OsName.toStr = some identity.name
  real : t.Real path identity.workspace
  git : t.Real (gitDirectory path) identity.gitDirectory
  marker : t.lookup (markerPath path) = some (.file identity.marker (Text.asBytes identity.name))

theorem seen_validateWorkspaceIdentityAt {path : FsPath} (identity : WorkspaceIdentity)
    (hparent : t.Dirs path.dropLast) :
    Seen t (validateWorkspaceIdentityAt O path identity) fun _ => MarkedWorkspace t path identity := by
  unfold validateWorkspaceIdentityAt
  cases hname : path.getLast?.bind OsName.toStr with
  | none => exact seen_fail _
  | some name =>
    simp only
    split_ifs with hsame
    · exact seen_fail _
    refine seen_bind (seen_ownedEntry _ _ _) fun workspace hworkspace => ?_
    split_ifs with hworkspaceIdentity
    · exact seen_fail _
    have hreal := real_of_metadata hparent hworkspace.1 hworkspace.2
    refine seen_bind (seen_ownedEntry _ _ _) fun git hgit => ?_
    split_ifs with hgitIdentity
    · exact seen_fail _
    have hgitReal := real_of_metadata (p := gitDirectory path)
      (by rw [gitDirectory,List.dropLast_concat]; exact hreal.1) hgit.1 hgit.2
    refine seen_bind (seen_ownedEntry _ _ _) fun marker hmarker => ?_
    split_ifs with hmarkerIdentity
    · exact seen_fail _
    have hmarkerParent : t.Dirs (markerPath path).dropLast := by
      rw [markerPath,List.dropLast_concat]
      exact hgitReal.1
    obtain ⟨content,hcontent⟩ := file_of_metadata hmarkerParent hmarker.1 hmarker.2
    refine seen_bind seen_io fun value hvalue => ?_
    obtain rfl := (read_of_file hmarkerParent hcontent).mp hvalue
    split_ifs with hsameValue
    · exact seen_fail _
    obtain rfl := not_not.mp hsame
    refine seen_pure ⟨hname,?_,?_,?_⟩
    · exact not_not.mp hworkspaceIdentity ▸ hreal
    · exact not_not.mp hgitIdentity ▸ hgitReal
    · rw [hcontent,not_not.mp hmarkerIdentity,not_not.mp hsameValue]

theorem seen_validateWorkspacePath (root : FsPath) (expected : FsIdentity) (path : FsPath) :
    Seen t (validateWorkspacePath O root expected path) fun _ =>
      ∃ identity, OwnedChild t root path expected identity PathNames.workspacePrefix := by
  refine seen_bind (seen_validateRootIdentity _ _) fun _ hroot => ?_
  refine seen_bind seen_io fun metadata hmetadata => ?_
  split_ifs with hkind hparent
  · exact seen_fail _
  · exact seen_fail _
  obtain ⟨name,rfl⟩ := parent?_eq_some.mp (not_not.mp hparent)
  have hreal := real_of_metadata (by rw [List.dropLast_concat]; exact hroot.1) hmetadata (isDir_of_kind hkind)
  refine seen_bind seen_io fun canonical hcanonical => ?_
  obtain rfl : root ++ [name] = canonical := by
    simpa [canonicalize_of_dirs hreal.1] using hcanonical
  split_ifs with hname
  · exact seen_fail _
  · simp only [Bool.or_eq_true,decide_eq_true_eq,not_or,not_not,Bool.not_eq_true',
      Bool.not_eq_false] at hname
    exact seen_pure ⟨_,hroot,⟨name,rfl,by simpa using hname.2⟩,hreal⟩

theorem triple_removeOwnedWorkspacePath (root path : FsPath) (expected : FsIdentity)
    (identity : WorkspaceIdentity) :
    Triple (fun d => d.tree = t) (removeOwnedWorkspacePath O root path expected identity)
      (fun _ d => OwnedChild t root path expected identity.workspace PathNames.workspacePrefix ∧
        MarkedWorkspace t path identity ∧ t.Pruned [path] d.tree)
      fun _ d => d.tree = t ∨ OwnedChild t root path expected identity.workspace PathNames.workspacePrefix ∧
        MarkedWorkspace t path identity ∧ t.DiffersUnder [path] d.tree := by
  refine triple_of_seen (seen_validateRootIdentity _ _) (fun _ _ hd => .inl hd) fun _ _ => ?_
  refine triple_of_seen (seen_validateWorkspacePath _ _ _) (fun _ _ hd => .inl hd) ?_
  rintro _ ⟨seenIdentity,howned⟩
  obtain ⟨hdirs,writable,hlookup⟩ := howned.real
  have hparent := hdirs.initial ( List.dropLast_prefix path)
  refine triple_of_seen (seen_validateWorkspaceIdentityAt identity hparent) (fun _ _ hd => .inl hd)
    fun _ hmarked => ?_
  refine (triple_removeOwnedChildPath _ _ _ _ _).post ?_ ?_
  · rintro _ d (⟨habsent,-⟩ | ⟨hchild,hd⟩)
    · rw [symlinkMetadata_notFound hparent,hlookup] at habsent
      cases habsent
    · exact ⟨hchild,hmarked,hd⟩
  · rintro _ d (hd | ⟨hchild,hd⟩)
    · exact .inl hd
    · exact .inr ⟨hchild,hmarked,hd⟩

end

/-! ### The calls return -/

section

variable {α ε : Type} {O : Outcomes OsName}

theorem total_io {call : Prog FsDisk IoError α} (h : Total call) : Total (io call) := total_mapError _ h

theorem total_ite {c : Prop} [Decidable c] {m m' : Prog FsDisk ε α} (h : Total m) (h' : Total m') :
    Total (if c then m else m') := by
  split_ifs
  · exact h
  · exact h'

theorem total_refuse {c : Prop} [Decidable c] {e : ε} {m : Prog FsDisk ε α} (h : Total m) :
    Total (if c then fail e else m) :=
  total_ite (total_fail _) h

theorem total_see {f : FsTree → Except IoError α} {β : Type} {m : α → Op β} (h : ∀ a, Total (m a)) :
    Total (io (reading O f) >>= m) :=
  total_bind (total_io (total_reading f)) h

theorem total_whenPresent {path : FsPath} {absent : Op α} {present : Entry OsName FsIdentity → Op α}
    (h : Total absent) (h' : ∀ metadata, Total (present metadata)) : Total (whenPresent O path absent present) := by
  refine total_bind (total_attempt (total_reading _)) fun result => ?_
  cases result with
  | ok metadata => exact h' metadata
  | error error =>
    cases error with
    | notFound => exact h
    | _ => exact total_fail _

theorem total_validateRootIdentity (root : FsPath) (expected : FsIdentity) :
    Total (validateRootIdentity O root expected) :=
  total_see fun _ => total_refuse (total_refuse (total_see fun _ => total_refuse (total_pure _)))

theorem total_validateCacheNamespace (root : FsPath) (expected : FsIdentity) (repositoryRoot : FsPath) :
    Total (validateCacheNamespace O root expected repositoryRoot) :=
  total_bind (total_validateRootIdentity _ _) fun _ => total_see fun _ => total_refuse
    (total_see fun _ => total_refuse (total_see fun _ => total_refuse (total_pure _)))

theorem total_validateCacheStagingPath (cacheRoot : FsPath) (expected : FsIdentity)
    (repositoryRoot path : FsPath) : Total (validateCacheStagingPath O cacheRoot expected repositoryRoot path) := by
  refine total_bind (total_validateCacheNamespace _ _ _) fun _ => total_see fun _ => total_refuse (total_refuse
    (total_see fun _ => total_see fun canonical => total_refuse ?_))
  split
  · exact total_fail _
  · exact total_refuse (total_pure _)

theorem total_removeOwnedChildPath (root path : FsPath) (rootIdentity identity : FsIdentity) (pre : String) :
    Total (removeOwnedChildPath O root path rootIdentity identity pre) := by
  refine total_bind (total_validateRootIdentity _ _) fun _ => total_whenPresent (total_pure _) fun _ => ?_
  refine total_refuse (total_refuse (total_refuse (total_see fun _ => total_see fun _ => ?_)))
  refine total_refuse (total_see fun _ => total_refuse (total_bind (total_validateRootIdentity _ _) fun _ => ?_))
  refine total_whenPresent (total_pure _) fun _ => total_refuse (total_see fun _ => total_see fun _ => ?_)
  exact total_refuse (total_io (total_changing _ _))

theorem total_explained (explanation : String) {m : Op α} (h : Total m) : Total (explained explanation m) :=
  total_mapError _ h

theorem total_removeOwnedCachePath (processId : ℕ) (cacheRoot : FsPath) (expected : FsIdentity)
    (repositoryRoot path : FsPath) (identity : CacheStagingIdentity) :
    Total (removeOwnedCachePath O processId cacheRoot expected repositoryRoot path identity) := by
  refine total_whenPresent (total_pure _) fun _ => ?_
  refine total_bind (total_validateCacheStagingPath _ _ _ _) fun _ => total_refuse ?_
  refine total_bind (total_drawSequence _) fun _ => ?_
  refine total_bind (total_whenPresent (total_pure _) fun _ => total_fail _) fun _ => ?_
  refine total_bind (total_explained _ (total_io (total_changing _ _))) fun _ => ?_
  refine total_bind (total_validateCacheStagingPath _ _ _ _) fun _ => total_refuse ?_
  exact total_explained _ (total_removeOwnedChildPath _ _ _ _ _)

theorem total_removeOwnedCacheStagingPath (processId : ℕ) (cacheRoot : FsPath) (expected : FsIdentity)
    (repositoryRoot path : FsPath) (identity : CacheStagingIdentity) :
    Total (removeOwnedCacheStagingPath O processId cacheRoot expected repositoryRoot path identity) :=
  total_bind (total_validateRootIdentity _ _) fun _ => total_whenPresent (total_pure _) fun _ =>
    total_bind (total_validateCacheStagingPath _ _ _ _) fun _ => total_refuse
      (total_removeOwnedCachePath _ _ _ _ _ _)

theorem total_ownedEntry (path : FsPath) (isKind : Entry OsName FsIdentity → Bool) (reason : String) :
    Total (ownedEntry O path isKind reason) :=
  total_see fun _ => total_refuse (total_pure _)

theorem total_captureWorkspaceIdentity (path : FsPath) : Total (captureWorkspaceIdentity O path) := by
  unfold captureWorkspaceIdentity
  split
  · exact total_fail _
  · refine total_bind (total_ownedEntry _ _ _) fun _ => total_bind (total_ownedEntry _ _ _) fun _ => ?_
    exact total_bind (total_ownedEntry _ _ _) fun _ => total_see fun _ => total_refuse (total_pure _)

theorem total_validateWorkspaceIdentityAt (path : FsPath) (identity : WorkspaceIdentity) :
    Total (validateWorkspaceIdentityAt O path identity) := by
  unfold validateWorkspaceIdentityAt
  split
  · exact total_fail _
  · refine total_refuse (total_bind (total_ownedEntry _ _ _) fun _ => total_refuse ?_)
    refine total_bind (total_ownedEntry _ _ _) fun _ => total_refuse ?_
    refine total_bind (total_ownedEntry _ _ _) fun _ => total_refuse ?_
    exact total_see fun _ => total_refuse (total_pure _)

theorem total_validateWorkspacePath (root : FsPath) (expected : FsIdentity) (path : FsPath) :
    Total (validateWorkspacePath O root expected path) :=
  total_bind (total_validateRootIdentity _ _) fun _ => total_see fun _ => total_refuse (total_refuse
    (total_see fun _ => total_refuse (total_pure _)))

theorem total_removeOwnedWorkspacePath (root path : FsPath) (expected : FsIdentity)
    (identity : WorkspaceIdentity) : Total (removeOwnedWorkspacePath O root path expected identity) :=
  total_bind (total_validateRootIdentity _ _) fun _ => total_bind (total_validateWorkspacePath _ _ _) fun _ =>
    total_bind (total_validateWorkspaceIdentityAt _ _) fun _ => total_removeOwnedChildPath _ _ _ _ _

end

end Inspection
end North
