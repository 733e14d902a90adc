import North.GitChild
import North.StartupCleanup

/-! The cache of a repository: a mirror in the daemon's own namespace for it, cloned beside its
place and moved there when it is whole, or brought up to date where it is. What a failure leaves
behind is removed, or the error says that it was not. -/
namespace North
namespace Inspection

open Prog FileTree
open North.Runtime (InspectionError InspectionPhase RepositorySource)

section

variable (E : Surroundings)

def restrictRootPermissions (path : FsPath) : Prog FsDisk IoError Unit := do
  let _ ← Call.metadata E.calls path
  Call.setOwnerOnly E.calls path

/-- The loop of `create_owned_child`; out of turns it is still at work. -/
def createOwnedLoop (path : FsPath) (phase : InspectionPhase) : ℕ → Inspecting Unit
  | 0 => fun _ => none
  | turns+1 => do
    match ← attempt (Call.symlinkMetadata E.calls path) with
    | .ok metadata =>
      if metadata.isSymlink then
        fail (inspectionError phase ("refusing symlinked directory component " ++ display path))
      else if !metadata.isDir then
        fail (inspectionError phase ("directory component " ++ display path ++ " is not a directory"))
      else pure ()
    | .error .notFound =>
      match ← attempt (Call.createDir E.calls E.created path) with
      | .ok () => pure ()
      | .error .alreadyExists => createOwnedLoop path phase turns
      | .error error =>
        fail (inspectionError phase ("create directory " ++ display path ++ ": " ++ error.text))
    | .error error =>
      fail (inspectionError phase ("inspect directory " ++ display path ++ ": " ++ error.text))

def createOwnedChild (root : FsPath) (expectedRootIdentity : FsIdentity) (component : OsName)
    (phase : InspectionPhase) : Inspecting FsPath := do
  inPhase phase (validateRootIdentity E.calls root expectedRootIdentity)
  let path := root ++ [component]
  -- a name that is taken is found at the next turn
  createOwnedLoop E path phase 2
  inPhase phase (validateRootIdentity E.calls root expectedRootIdentity)
  let canonical ← mapError (fun error : IoError => inspectionError phase
    ("resolve directory " ++ display path ++ ": " ++ error.text)) (Call.canonicalize E.calls path)
  if parent? canonical ≠ some root then
    fail (inspectionError phase ("directory " ++ display path ++ " resolves outside configured root"))
  else do
    mapError (fun error : IoError => inspectionError phase
      ("restrict directory " ++ display path ++ ": " ++ error.text)) (restrictRootPermissions E path)
    pure path

def validateExpectedCacheNamespace (root : FsPath) (expectedRootIdentity : FsIdentity)
    (repositoryRoot : FsPath) (expectedNamespaceIdentity : FsIdentity) : Op Unit := do
  let identity ← validateCacheNamespace E.calls root expectedRootIdentity repositoryRoot
  if identity ≠ expectedNamespaceIdentity then fail "repository cache namespace identity changed"
  else pure ()

/-- Fail, after a cleanup whose own failure goes into the error. -/
def failAfter {α : Type} (cleanup : Op Unit) (error : InspectionError) : Inspecting α := do
  match ← attempt cleanup with
  | .ok () => fail error
  | .error reason => fail { error with cleanupFailure := some reason }

/-! ### Staging -/

def cleanupAbandonedCacheStagingPath (cacheRoot : FsPath) (expectedRootIdentity : FsIdentity)
    (repositoryRoot : FsPath) (expectedNamespaceIdentity expectedStagingIdentity : FsIdentity)
    (path : FsPath) : Op Unit := do
  validateRootIdentity E.calls cacheRoot expectedRootIdentity
  let currentNamespaceIdentity ← validateCacheNamespace E.calls cacheRoot expectedRootIdentity repositoryRoot
  if currentNamespaceIdentity ≠ expectedNamespaceIdentity then
    fail "repository cache namespace identity changed"
  else
    whenPresent E.calls path (pure ()) fun _ => do
      let stagingIdentity ← validateCacheStagingPath E.calls cacheRoot expectedRootIdentity repositoryRoot path
      if stagingIdentity ≠ ⟨expectedNamespaceIdentity,expectedStagingIdentity⟩ then
        fail "temporary repository cache identity changed"
      else
        removeOwnedCacheStagingPath E.calls E.processId cacheRoot expectedRootIdentity repositoryRoot path
          ⟨expectedNamespaceIdentity,expectedStagingIdentity⟩

def validateCacheStagingRequest (cacheRoot : FsPath) (expectedRootIdentity : FsIdentity)
    (repositoryRoot staging : FsPath) (expectedNamespaceIdentity : FsIdentity) : Inspecting Unit := do
  if parent? staging ≠ some repositoryRoot || !staging.getLast?.any isCacheStagingName then
    fail (inspectionError .cache "temporary repository cache is not a direct child of its namespace")
  else do
    let namespaceIdentity ← inPhase .cache
      (validateCacheNamespace E.calls cacheRoot expectedRootIdentity repositoryRoot)
    if namespaceIdentity ≠ expectedNamespaceIdentity then
      fail (inspectionError .cache "repository cache namespace identity changed")
    else pure ()

def createCacheStagingDirectory (staging : FsPath) : Inspecting FsIdentity := do
  inPhase .cache (ensurePathAbsent E.calls staging)
  mapError (fun error : IoError => inspectionError .cache
    ("create temporary repository cache " ++ display staging ++ ": " ++ error.text))
    (Call.createDir E.calls E.created staging)
  match ← attempt (Call.symlinkMetadata E.calls staging) with
  | .ok metadata => pure metadata.identity
  | .error error =>
    fail { inspectionError .cache ("temporary repository cache " ++ display staging ++
        " ownership could not be verified; path retained: " ++ error.text) with
      cleanupFailure := some "temporary repository cache ownership was not established; path retained" }

def createOwnedCacheStagingPath (cacheRoot : FsPath) (expectedRootIdentity : FsIdentity)
    (repositoryRoot staging : FsPath) (expectedNamespaceIdentity : FsIdentity) :
    Inspecting CacheStagingIdentity := do
  validateCacheStagingRequest E cacheRoot expectedRootIdentity repositoryRoot staging expectedNamespaceIdentity
  let createdStagingIdentity ← createCacheStagingDirectory E staging
  -- `cleanup_created_cache_staging`
  let cleanup := cleanupAbandonedCacheStagingPath E cacheRoot expectedRootIdentity repositoryRoot
    expectedNamespaceIdentity createdStagingIdentity staging
  handling (restrictRootPermissions E staging) fun error => failAfter cleanup (inspectionError .cache
    ("restrict temporary repository cache " ++ display staging ++ ": " ++ error.text))
  let identity ← handling (validateCacheStagingPath E.calls cacheRoot expectedRootIdentity repositoryRoot staging)
    fun reason => failAfter cleanup (inspectionError .cache reason)
  if identity.cacheNamespace ≠ expectedNamespaceIdentity then
    failAfter cleanup (inspectionError .cache "repository cache namespace identity changed")
  else pure identity

def validateStagedCachePath (stagingRoot : FsPath) (expectedStagingIdentity : FsIdentity) (cache : FsPath) :
    Op FsIdentity := do
  let stagingMetadata ← io (Call.symlinkMetadata E.calls stagingRoot)
  if stagingMetadata.isSymlink || !stagingMetadata.isDir then
    fail "temporary repository cache is not an owned directory"
  else if stagingMetadata.identity ≠ expectedStagingIdentity then
    fail "temporary repository cache identity changed"
  else if parent? cache ≠ some stagingRoot || cache.getLast? ≠ some sourceName then
    fail "staged repository cache has an invalid destination"
  else do
    let metadata ← io (Call.symlinkMetadata E.calls cache)
    if metadata.isSymlink || !metadata.isDir then fail "staged repository cache is not a real directory"
    else do
      let canonicalRoot ← io (Call.canonicalize E.calls stagingRoot)
      let canonical ← io (Call.canonicalize E.calls cache)
      if parent? canonical ≠ some canonicalRoot || canonical.getLast? ≠ some sourceName then
        fail "staged repository cache resolves outside staging"
      else pure metadata.identity

/-! ### The cache -/

variable (I : RepositoryInspector)

def RepositoryInspector.cache : OwnedRoot := ⟨I.cacheRoot,I.cacheRootIdentity⟩

def RepositoryInspector.workspaces : OwnedRoot := ⟨I.workspaceRoot,I.workspaceRootIdentity⟩

def workspaceSequence : ℕ := 1

def stagingName (processId sequence : ℕ) : OsName :=
  .text (cacheStagingPrefix ++ PathNames.decimal processId ++ "-" ++ PathNames.decimal sequence)

def pathExists {ε : Type} (path : FsPath) : Prog FsDisk ε Bool := do
  match ← attempt (Call.metadata E.calls path) with
  | .ok _ => pure true
  | .error _ => pure false

/-- `ensure_cache` where the cache is there. -/
def refreshCache (source : RepositorySource) (repositoryRoot : FsPath) (namespaceIdentity : FsIdentity) :
    Inspecting FsPath := do
  let cache := repositoryRoot ++ [sourceName]
  inPhase .cache (validateExpectedCacheNamespace E I.cacheRoot I.cacheRootIdentity repositoryRoot namespaceIdentity)
  inPhase .cache (validateCachePath E I.cacheRoot I.cacheRootIdentity cache)
  ensureNotCancelled E "inspection cancelled before cache validation"
  sanitizeLocalGitConfig E cache I.cache none .cache
  let remote ← gitOutputForPhase E cache I.cache none none
    [.text "remote",.text "get-url",.text "origin"] .cache true
  if Text.trim remote ≠ Text.trim source.url then
    fail (inspectionError .cache "repository cache origin does not match configured source")
  else do
    inPhase .cache (validateCachePath E I.cacheRoot I.cacheRootIdentity cache)
    let _ ← gitOutputForPhase E cache I.cache none none
      [.text "remote",.text "update",.text "--prune"] .cache true
    ensureNotCancelled E "inspection cancelled after cache update"
    pure cache

/-- `ensure_cache` from the staging directory to the staged cache in it. -/
def cloneStaged (source : RepositorySource) (repositoryRoot temporary : FsPath)
    (namespaceIdentity : FsIdentity) (stagingIdentity : CacheStagingIdentity) : Inspecting FsIdentity := do
  let stagedCache := temporary ++ [sourceName]
  let abandon := cleanupAbandonedCacheStagingPath E I.cacheRoot I.cacheRootIdentity repositoryRoot
    namespaceIdentity stagingIdentity.staging temporary
  handling (ensurePathAbsent E.calls stagedCache) fun reason => failAfter abandon (inspectionError .cache reason)
  handling (ensureNotCancelled E "inspection cancelled before repository clone") (failAfter abandon)
  let _ ← handling (gitOutputForPhase E I.cacheRoot I.cache none (some I.workspaces)
    [.text "clone",.text "--mirror",.text "--",.text source.url,.path stagedCache] .cache true) (failAfter abandon)
  handling (ensureNotCancelled E "inspection cancelled after repository clone") (failAfter abandon)
  let currentStagingIdentity ← handling
    (validateCacheStagingPath E.calls I.cacheRoot I.cacheRootIdentity repositoryRoot temporary)
    fun reason => failAfter abandon (inspectionError .cache reason)
  if currentStagingIdentity ≠ stagingIdentity then
    failAfter abandon (inspectionError .cache "temporary repository cache identity changed during clone")
  else
    handling (validateStagedCachePath E temporary stagingIdentity.staging stagedCache)
      fun reason => failAfter abandon (inspectionError .cache reason)

/-- `ensure_cache` from the staged cache to the cache in its place. -/
def installStaged (repositoryRoot temporary : FsPath) (namespaceIdentity : FsIdentity)
    (stagingIdentity : CacheStagingIdentity) (stagedCacheIdentity : FsIdentity) : Inspecting Unit := do
  let cache := repositoryRoot ++ [sourceName]
  let remove := removeOwnedCacheStagingPath E.calls E.processId I.cacheRoot I.cacheRootIdentity repositoryRoot
    temporary stagingIdentity
  handling (do
    validateExpectedCacheNamespace E I.cacheRoot I.cacheRootIdentity repositoryRoot namespaceIdentity
    ensurePathAbsent E.calls cache) fun reason => failAfter remove (inspectionError .cache reason)
  handling (Call.rename E.calls (temporary ++ [sourceName]) cache) fun error => failAfter remove
    (inspectionError .cache ("install repository cache " ++ display cache ++ ": " ++ error.text))
  handling (do
    validateExpectedCacheNamespace E I.cacheRoot I.cacheRootIdentity repositoryRoot namespaceIdentity
    validateCachePath E I.cacheRoot I.cacheRootIdentity cache)
    fun reason => failAfter remove (inspectionError .cache reason)
  let installed ← handling (io (Call.symlinkMetadata E.calls cache))
    fun reason => failAfter remove (inspectionError .cache reason)
  if installed.identity ≠ stagedCacheIdentity then
    failAfter remove (inspectionError .cache "installed repository cache identity changed")
  else
    mapError (fun reason => { inspectionError .cache "temporary repository cache cleanup failed" with
      cleanupFailure := some reason }) remove

/-- `ensure_cache` where the cache is not there. -/
def cloneCache (source : RepositorySource) (repositoryRoot : FsPath) (namespaceIdentity : FsIdentity) :
    Inspecting FsPath := do
  let cache := repositoryRoot ++ [sourceName]
  let sequence ← drawSequence workspaceSequence
  let temporary := repositoryRoot ++ [stagingName E.processId sequence]
  let stagingIdentity ← createOwnedCacheStagingPath E I.cacheRoot I.cacheRootIdentity repositoryRoot temporary
    namespaceIdentity
  let stagedCacheIdentity ← cloneStaged E I source repositoryRoot temporary namespaceIdentity stagingIdentity
  installStaged E I repositoryRoot temporary namespaceIdentity stagingIdentity stagedCacheIdentity
  ensureNotCancelled E "inspection cancelled before cache completion"
  sanitizeLocalGitConfig E cache I.cache none .cache
  ensureNotCancelled E "inspection cancelled after cache preparation"
  pure cache

def validateCacheRoot : Inspecting Unit :=
  inPhase .cache (validateRootIdentity E.calls I.cacheRoot I.cacheRootIdentity)

def ensureCache (source : RepositorySource) : Inspecting FsPath := do
  ensureNotCancelled E "inspection cancelled before cache preparation"
  validateCacheRoot E I
  let repositoryRoot ← createOwnedChild E I.cacheRoot I.cacheRootIdentity
    (.text (PathNames.pathComponent source.repositoryId)) .cache
  let namespaceIdentity ← inPhase .cache
    (validateCacheNamespace E.calls I.cacheRoot I.cacheRootIdentity repositoryRoot)
  let cache := repositoryRoot ++ [sourceName]
  let metadata ← attempt (Call.symlinkMetadata E.calls cache)
  if metadata.toOption.any fun metadata => metadata.isSymlink || !metadata.isDir then
    fail (inspectionError .cache ("repository cache " ++ display cache ++ " is not a directory"))
  else if ← pathExists E cache then refreshCache E I source repositoryRoot namespaceIdentity
  else cloneCache E I source repositoryRoot namespaceIdentity

end

/-! ### The namespace -/

section

variable {E : Surroundings} {t t' t₁ : FsTree} {root path repositoryRoot : FsPath} {component : OsName}

theorem keeps_createOwnedLoop (phase : InspectionPhase) (turns : ℕ) (hroot : t.Dirs root) :
    Keeps (· ≠ root ++ [component]) t (createOwnedLoop E (root ++ [component]) phase turns)
      (fun _ t' => t'.Dirs (root ++ [component])) fun _ _ => True := by
  have hparent : t.Dirs (root ++ [component]).dropLast := by rwa [List.dropLast_concat]
  induction turns with
  | zero =>
    intro d _ r d' hexec
    simp [exec,createOwnedLoop] at hexec
  | succ turns ih =>
    refine keeps_after (seen_attempt (seen_call _)) (fun _ => trivial) fun result hresult => ?_
    cases result with
    | ok metadata =>
      simp only
      split_ifs with hlink hdir
      · exact keeps_fail trivial
      · exact keeps_fail trivial
      · exact keeps_pure (real_of_metadata hparent (hresult metadata rfl) (by simpa using hdir)).1
    | error error =>
      cases error with
      | notFound =>
        refine keeps_bind (keeps_attempt (Q := fun _ t' => t'.Dirs (root ++ [component]))
          (R := fun _ t' => t' = t) ?_) fun result t' ht' hresult => ?_
        · refine (triple_createDir hparent).post ?_ fun _ _ hd => same_tree (X := (· = t)) hd rfl
          rintro _ d ⟨-,-,⟨identity,hmade⟩,hagree⟩
          exact ⟨hagree,dirs_concat (hagree.dirs hroot fun q hq heq => by simpa [heq] using hq.length_le) hmade⟩
        · cases result with
          | ok _ => exact keeps_pure (hresult.1 _ rfl)
          | error error =>
            obtain rfl := hresult.2 _ rfl
            cases error with
            | alreadyExists => exact ih
            | _ => exact keeps_fail trivial
      | _ => exact keeps_fail trivial

theorem real_of_dirs {p : FsPath} (h : t.Dirs p) (hne : p ≠ []) : ∃ identity, t.Real p identity := by
  obtain ⟨identity,writable,hlookup⟩ := h p hne (List.prefix_refl p)
  exact ⟨identity,h,writable,hlookup⟩

theorem keeps_restrictRootPermissions {p : FsPath} (hdirs : t.Dirs p) (hne : p ≠ []) :
    Keeps (· ≠ p) t (restrictRootPermissions E p) (fun _ t' => t'.Dirs p) fun _ t' => t' = t := by
  obtain ⟨identity,hreal⟩ := real_of_dirs hdirs hne
  refine keeps_after (seen_call _) (fun _ => rfl) fun _ _ => ?_
  exact (triple_setOwnerOnly hreal).post (fun _ _ hd => ⟨hd.1,hd.2.1⟩) fun _ _ hd => same_tree (X := (· = t)) hd rfl

theorem keeps_createOwnedChild (rootIdentity : FsIdentity) (phase : InspectionPhase) :
    Keeps (· ≠ root ++ [component]) t (createOwnedChild E root rootIdentity component phase)
      (fun path t' => path = root ++ [component] ∧ t'.Dirs (root ++ [component])) fun _ _ => True := by
  refine keeps_after (seen_mapError _ (seen_validateRootIdentity _ _)) (fun _ => trivial) fun _ hroot => ?_
  refine keeps_bind (keeps_createOwnedLoop phase 2 hroot.1) fun _ t' _ hdirs => ?_
  refine keeps_after (seen_mapError _ (seen_validateRootIdentity _ _)) (fun _ => trivial) fun _ _ => ?_
  refine keeps_after (seen_mapError _ (seen_call _)) (fun _ => trivial) fun canonical _ => ?_
  split_ifs
  · exact keeps_fail trivial
  refine keeps_bind (keeps_mapError ((keeps_restrictRootPermissions hdirs (by simp)).post
    (fun _ _ _ h => h) fun _ _ _ _ => trivial)) fun _ t'' _ hdirs' => ?_
  exact keeps_pure ⟨rfl,hdirs'⟩

theorem seen_validateExpectedCacheNamespace (rootIdentity : FsIdentity) (identity : FsIdentity) :
    Seen t (validateExpectedCacheNamespace E root rootIdentity repositoryRoot identity)
      fun _ => OwnedNamespace t root rootIdentity repositoryRoot identity := by
  refine seen_bind (seen_validateCacheNamespace _ _ _) fun found hfound => ?_
  split_ifs with hsame
  · exact seen_fail _
  · exact seen_pure (not_not.mp hsame ▸ hfound)

/-! ### What is left of a preparation -/

/-- The paths that a preparation of the cache leaves where all goes well. -/
def Tidy (repositoryRoot p : FsPath) : Prop := p ≠ repositoryRoot ∧ ¬ repositoryRoot ++ [sourceName] <+: p

/-- Nothing is under a staging name in the namespace that nothing has. -/
def Hollow (repositoryRoot : FsPath) (t : FsTree) : Prop :=
  ∀ name q, isCacheStagingName name = true → t.lookup (repositoryRoot ++ [name]) = none →
    repositoryRoot ++ [name] <+: q → t.lookup q = none

/-- What a part of the preparation may have done to the tree: changed the namespace, and only its
entry and the cache in it where its cleanups are `clean`. -/
structure CacheLeft (repositoryRoot : FsPath) (t : FsTree) (clean : Prop) (t' : FsTree) : Prop where
  footprint : t.Agree (Without repositoryRoot) t'
  tidy : clean → Hollow repositoryRoot t → t.Agree (Tidy repositoryRoot) t'

theorem Without.tidy {p : FsPath} (h : Without repositoryRoot p) : Tidy repositoryRoot p :=
  ⟨fun heq => h (heq ▸ List.prefix_refl _),fun hle => h ((List.prefix_append _ _).trans hle)⟩

theorem cacheLeft_of_agree {clean : Prop}
    (h : t.Agree (fun p => p ≠ repositoryRoot ∧ Beside (repositoryRoot ++ [sourceName]) p) t') :
    CacheLeft repositoryRoot t clean t' where
  footprint := h.mono fun _ hp => ⟨hp.tidy.1,fun hle => hp.tidy.2 hle.1⟩
  tidy _ _ := h.mono fun _ hp => ⟨hp.1,fun hle => hp.2 hle.1⟩

theorem CacheLeft.mono {clean clean' : Prop} (h : CacheLeft repositoryRoot t clean t') (hclean : clean' → clean) :
    CacheLeft repositoryRoot t clean' t' :=
  ⟨h.footprint,fun hc => h.tidy (hclean hc)⟩

/-- What holds of the tree after an error, and more of it where no cleanup has failed. -/
structure Leftover where
  after : (clean : Prop) → FsTree → Prop
  mono : ∀ {clean clean' : Prop} {t : FsTree}, (clean' → clean) → after clean t → after clean' t

def leftInCache (repositoryRoot : FsPath) (t : FsTree) : Leftover :=
  ⟨CacheLeft repositoryRoot t,fun hclean h => h.mono hclean⟩

/-- A part of an inspection; an error of it says whether a cleanup has failed. -/
def Prepares {α : Type} (L : Leftover) (t₁ : FsTree) (m : Inspecting α) (Q : α → FsTree → Prop) : Prop :=
  Triple (fun d => d.tree = t₁) m (fun a d => Q a d.tree) fun e d => L.after (e.cleanupFailure = none) d.tree

/-- The cleanup takes all away that the inspection owes to remove, or it fails. -/
def Undoes (L : Leftover) (t₁ : FsTree) (cleanup : Op Unit) : Prop :=
  Triple (fun d => d.tree = t₁) cleanup (fun _ d => L.after True d.tree) fun _ d => L.after False d.tree

/-- The cleanup does so from every such tree. -/
def Cleans (L : Leftover) (S : FsTree → Prop) (cleanup : Op Unit) : Prop := ∀ t₁, S t₁ → Undoes L t₁ cleanup

section

variable {α β ε : Type} {cleanup : Op Unit} {L : Leftover} {S : FsTree → Prop} {error : ε → InspectionError}
  {m : Prog FsDisk ε α}

theorem prepares_failAfter {Q : α → FsTree → Prop} (h : Undoes L t₁ cleanup) (e : InspectionError) :
    Prepares L t₁ (failAfter cleanup e) Q := by
  refine triple_bind (Q := fun r d => (∀ a, r = .ok a → L.after True d.tree) ∧
    ∀ reason, r = .error reason → L.after False d.tree) (triple_attempt h ?_ ?_) fun r => ?_
  · exact fun _ d hd => ⟨fun _ _ => hd,fun _ he => by cases he⟩
  · exact fun _ d hd => ⟨fun _ ha => (by cases ha),fun _ _ => hd⟩
  · cases r with
    | ok _ => exact triple_fail fun d hd => L.mono (fun _ => trivial) (hd.1 _ rfl)
    | error reason => exact triple_fail fun d hd => L.mono (fun hnone => by cases hnone) (hd.2 _ rfl)

theorem prepares_bind {m : Inspecting α} {f : α → Inspecting β} {Q : α → FsTree → Prop} {Q' : β → FsTree → Prop}
    (hm : Prepares L t₁ m Q) (hf : ∀ a t₂, Q a t₂ → Prepares L t₂ (f a) Q') : Prepares L t₁ (m >>= f) Q' :=
  triple_bind hm fun a => triple_each (hf a)

theorem prepares_after {m : Inspecting α} {f : α → Inspecting β} {P : α → Prop} {Q : β → FsTree → Prop}
    (hleft : L.after True t₁) (hm : Seen t₁ m P) (hf : ∀ a, P a → Prepares L t₁ (f a) Q) :
    Prepares L t₁ (m >>= f) Q :=
  triple_of_seen hm (fun _ _ hd => hd ▸ L.mono (fun _ => trivial) hleft) hf

theorem prepares_attempt {f : Except ε α → Inspecting β} {P : α → Prop} {Q : β → FsTree → Prop}
    (hm : Seen t₁ m P) (hf : ∀ r, (∀ a, r = .ok a → P a) → Prepares L t₁ (f r) Q) :
    Prepares L t₁ (attempt m >>= f) Q :=
  triple_of_attempt hm hf

theorem prepares_step {Q : α → FsTree → Prop} (hcleans : Cleans L S cleanup)
    (hm : Triple (fun d => d.tree = t₁) m (fun a d => S d.tree ∧ Q a d.tree) fun _ d => S d.tree) :
    Prepares L t₁ (handling m fun e => failAfter cleanup (error e)) fun a t' => S t' ∧ Q a t' :=
  triple_handling hm fun e => triple_each (P := S) fun t₂ hS =>
    prepares_failAfter (Q := fun a t' => S t' ∧ Q a t') (hcleans t₂ hS) (error e)

theorem prepares_look {P : α → Prop} (hcleans : Cleans L S cleanup) (hS : S t₁) (hm : Seen t₁ m P) :
    Prepares L t₁ (handling m fun e => failAfter cleanup (error e)) fun a t' => t₁ = t' ∧ P a :=
  triple_handling (hm.post (fun _ _ hd => ⟨hd.1.symm,hd.2⟩) fun _ _ hd => hd) fun e =>
    prepares_failAfter (Q := fun a t' => t₁ = t' ∧ P a) (hcleans t₁ hS) (error e)

end

end

/-! ### Staging -/

section

variable {E : Surroundings} {I : RepositoryInspector} {t t₁ t₂ : FsTree} {repositoryRoot : FsPath} {name : OsName}
  {rootIdentity : FsIdentity} {root : FsPath} {identity : CacheStagingIdentity}

/-- A staging directory of this preparation: nothing was there before it. Beside it the namespace
may have changed and the cache in it. -/
structure Staged (repositoryRoot : FsPath) (name : OsName) (t t₁ : FsTree) : Prop where
  staging : isCacheStagingName name = true
  free : t.lookup (repositoryRoot ++ [name]) = none
  dirs : t₁.Dirs (repositoryRoot ++ [name])
  agree : t.Agree (fun p => Tidy repositoryRoot p ∧ Without (repositoryRoot ++ [name]) p) t₁

theorem ne_sourceName (h : isCacheStagingName name = true) : name ≠ sourceName := by
  rintro rfl
  exact absurd h (by decide)

theorem tidy_sibling (h : isCacheStagingName name = true) : Tidy repositoryRoot (repositoryRoot ++ [name]) :=
  ⟨by simp,not_prefix_sibling (ne_sourceName h).symm⟩

theorem Without.sibling {p : FsPath} (h : Without repositoryRoot p) (other : OsName) :
    Without (repositoryRoot ++ [other]) p :=
  fun hle => h ((List.prefix_append _ _).trans hle)

theorem Staged.footprint (h : Staged repositoryRoot name t t₁) : t.Agree (Without repositoryRoot) t₁ :=
  h.agree.mono fun _ hp => ⟨hp.tidy,hp.sibling name⟩

theorem Staged.change (h : Staged repositoryRoot name t t₁)
    (hagree : t₁.Agree (fun p => Tidy repositoryRoot p ∧ Without (repositoryRoot ++ [name]) p) t₂)
    (hdirs : t₂.Dirs (repositoryRoot ++ [name])) : Staged repositoryRoot name t t₂ :=
  ⟨h.staging,h.free,hdirs,h.agree.trans hagree⟩

/-- A staging directory that is removed leaves nothing, neither where it was nor in quarantine. -/
theorem Staged.removed (h : Staged repositoryRoot name t t₁)
    (hremoved : StagingRemoved t₁ root rootIdentity repositoryRoot (repositoryRoot ++ [name]) identity t₂) :
    CacheLeft repositoryRoot t True t₂ := by
  obtain ⟨-,quarantine,hquarantine,hpruned⟩ := hremoved
  have hapart : quarantine ≠ name := by
    rintro rfl
    obtain ⟨_,_,hsome⟩ := h.dirs _ (by simp) (List.prefix_refl _)
    simp [hquarantine.free] at hsome
  have hfree : t.lookup (repositoryRoot ++ [quarantine]) = none := by
    rw [← hquarantine.free]
    exact (h.agree _ ⟨tidy_sibling hquarantine.staging,not_prefix_sibling hapart.symm⟩).symm
  refine ⟨h.footprint.trans (agree_of_differs hpruned.differs fun p hp place hmem => ?_),fun _ hhollow p hp => ?_⟩
  · simp only [List.mem_cons,List.not_mem_nil,or_false] at hmem
    rcases hmem with rfl | rfl
    · exact hp.sibling name
    · exact hp.sibling quarantine
  · by_cases hunder : ∃ place ∈ [repositoryRoot ++ [name],repositoryRoot ++ [quarantine]], place <+: p
    · rw [hpruned.bare p hunder]
      obtain ⟨place,hmem,hle⟩ := hunder
      simp only [List.mem_cons,List.not_mem_nil,or_false] at hmem
      rcases hmem with rfl | rfl
      · exact (hhollow name p h.staging h.free hle).symm
      · exact (hhollow quarantine p hquarantine.staging hfree hle).symm
    · rw [hpruned.differs p fun place hmem hle => hunder ⟨place,hmem,hle⟩]
      exact h.agree p ⟨hp,fun hle => hunder ⟨_,by simp,hle⟩⟩

theorem Staged.touched (h : Staged repositoryRoot name t t₁)
    (htouched : StagingTouched t₁ root rootIdentity repositoryRoot (repositoryRoot ++ [name]) identity t₂) :
    CacheLeft repositoryRoot t False t₂ := by
  refine ⟨h.footprint.trans ?_,False.elim⟩
  rcases htouched with rfl | ⟨-,quarantine,-,hdiffers⟩
  · exact .refl _
  · refine agree_of_differs hdiffers fun p hp place hmem => ?_
    simp only [List.mem_cons,List.not_mem_nil,or_false] at hmem
    rcases hmem with rfl | rfl
    · exact hp.sibling name
    · exact hp.sibling quarantine

theorem undoes_remove (h : Staged repositoryRoot name t t₁) :
    Undoes (leftInCache repositoryRoot t) t₁ (removeOwnedCacheStagingPath E.calls E.processId root rootIdentity repositoryRoot
      (repositoryRoot ++ [name]) identity) := by
  refine (triple_removeOwnedCacheStagingPath _ _ _ _ _ _).post ?_ fun _ d hd => h.touched hd
  rintro _ d (⟨habsent,-⟩ | hd)
  · obtain ⟨_,_,hsome⟩ := h.dirs _ (by simp) (List.prefix_refl _)
    rw [symlinkMetadata_notFound (h.dirs.initial ( List.dropLast_prefix _)),hsome] at habsent
    cases habsent
  · exact h.removed hd

theorem undoes_abandon (h : Staged repositoryRoot name t t₁) (namespaceIdentity stagingIdentity : FsIdentity) :
    Undoes (leftInCache repositoryRoot t) t₁ (cleanupAbandonedCacheStagingPath E root rootIdentity repositoryRoot
      namespaceIdentity stagingIdentity (repositoryRoot ++ [name])) := by
  have hstay : ∀ d : FsDisk, d.tree = t₁ → CacheLeft repositoryRoot t False d.tree := fun d hd =>
    ⟨hd ▸ h.footprint,False.elim⟩
  refine triple_of_seen (seen_validateRootIdentity _ _) (fun _ d hd => hstay d hd) fun _ _ => ?_
  refine triple_of_seen (seen_validateCacheNamespace _ _ _) (fun _ d hd => hstay d hd) fun current _ => ?_
  split_ifs
  · exact triple_fail hstay
  refine triple_whenPresent (fun _ d hd => hstay d hd) (fun habsent => ?_) fun _ _ => ?_
  · obtain ⟨_,_,hsome⟩ := h.dirs _ (by simp) (List.prefix_refl _)
    rw [symlinkMetadata_notFound (h.dirs.initial ( List.dropLast_prefix _)),hsome] at habsent
    cases habsent
  refine triple_of_seen (seen_validateCacheStagingPath _ _ _ _) (fun _ d hd => hstay d hd) fun found _ => ?_
  split_ifs
  · exact triple_fail hstay
  · exact undoes_remove h

theorem seen_validateCacheStagingRequest (staging : FsPath) (expected : FsIdentity) :
    Seen t (validateCacheStagingRequest E root rootIdentity repositoryRoot staging expected) fun _ =>
      (∃ name, staging = repositoryRoot ++ [name] ∧ isCacheStagingName name = true) ∧ t.Dirs repositoryRoot := by
  unfold validateCacheStagingRequest
  split_ifs with hname
  · exact seen_fail _
  simp only [Bool.or_eq_true,decide_eq_true_eq,not_or,not_not,Bool.not_eq_true',Bool.not_eq_false] at hname
  obtain ⟨name,rfl⟩ := parent?_eq_some.mp hname.1
  refine seen_bind (seen_mapError _ (seen_validateCacheNamespace _ _ _)) fun found hfound => ?_
  split_ifs
  · exact seen_fail _
  · exact seen_pure ⟨⟨name,rfl,by simpa using hname.2⟩,hfound.repository.1⟩

theorem prepares_createCacheStagingDirectory (hbase : t.Agree (· ≠ repositoryRoot) t₁)
    (hname : isCacheStagingName name = true) (hdirs : t₁.Dirs repositoryRoot) :
    Prepares (leftInCache repositoryRoot t) t₁ (createCacheStagingDirectory E (repositoryRoot ++ [name]))
      fun _ t' => Staged repositoryRoot name t t' := by
  have hstay : ∀ d : FsDisk, d.tree = t₁ → ∀ clean, CacheLeft repositoryRoot t clean d.tree := fun d hd clean =>
    cacheLeft_of_agree (hd ▸ hbase.mono fun _ hp => hp.1)
  have hparent : t₁.Dirs (repositoryRoot ++ [name]).dropLast := by rwa [List.dropLast_concat]
  refine triple_of_seen (seen_mapError _ (seen_ensurePathAbsent _)) (fun _ d hd => hstay d hd _) fun _ habsent => ?_
  have hfree := (symlinkMetadata_notFound hparent).mp habsent
  refine triple_bind (Q := fun _ d => Staged repositoryRoot name t d.tree)
    (triple_mapError ((triple_createDir hparent).post ?_ fun _ d hd => hstay d hd _)) fun _ => ?_
  · rintro _ d ⟨-,-,⟨identity,hmade⟩,hagree⟩
    refine ⟨hname,(hbase _ (by simp)).symm.trans hfree,?_,fun p hp => ?_⟩
    · refine dirs_concat (hagree.dirs hdirs fun q hq heq => ?_) hmade
      simpa [heq] using hq.length_le
    · rw [hagree p fun heq => hp.2 (heq ▸ List.prefix_refl _)]
      exact hbase p hp.1.1
  · refine triple_each (P := Staged repositoryRoot name t) fun t₂ hstaged => ?_
    refine triple_of_attempt (seen_call _) fun result _ => ?_
    cases result with
    | ok metadata => exact triple_pure fun d hd => hd ▸ hstaged
    | error error => exact triple_fail fun d hd => ⟨hd ▸ hstaged.footprint,fun hnone => by cases hnone⟩

theorem cleans_abandon (namespaceIdentity stagingIdentity : FsIdentity) :
    Cleans (leftInCache repositoryRoot t) (Staged repositoryRoot name t) (cleanupAbandonedCacheStagingPath E root rootIdentity repositoryRoot
      namespaceIdentity stagingIdentity (repositoryRoot ++ [name])) :=
  fun _ h => undoes_abandon h namespaceIdentity stagingIdentity

theorem prepares_createOwnedCacheStagingPath (hbase : t.Agree (· ≠ repositoryRoot) t₁)
    (namespaceIdentity : FsIdentity) :
    Prepares (leftInCache repositoryRoot t) t₁ (createOwnedCacheStagingPath E root rootIdentity repositoryRoot
      (repositoryRoot ++ [name]) namespaceIdentity) fun _ t' => Staged repositoryRoot name t t' := by
  refine triple_of_seen (seen_validateCacheStagingRequest _ _)
    (fun _ d hd => cacheLeft_of_agree (hd ▸ hbase.mono fun _ hp => hp.1)) fun _ hrequest => ?_
  obtain ⟨⟨name',hname',hstaging⟩,hdirs⟩ := hrequest
  obtain rfl : name = name' := by simpa using hname'
  refine prepares_bind (prepares_createCacheStagingDirectory hbase hstaging hdirs) fun created t₂ hstaged => ?_
  have hcleans : Cleans (leftInCache repositoryRoot t) (Staged repositoryRoot name t) (cleanupAbandonedCacheStagingPath E root rootIdentity repositoryRoot
    namespaceIdentity created (repositoryRoot ++ [name])) := cleans_abandon _ _
  refine prepares_bind (prepares_step (Q := fun _ _ => True) hcleans
    (Triple.post (keeps_restrictRootPermissions hstaged.dirs (by simp)) (fun _ d hd => ⟨hstaged.change
      (hd.1.mono fun p hp heq => hp.2 (heq ▸ List.prefix_refl _)) hd.2,trivial⟩)
      fun _ d hd => hd.2 ▸ hstaged)) fun _ t₃ hstaged₃ => ?_
  refine prepares_bind (prepares_look hcleans hstaged₃.1 (seen_validateCacheStagingPath _ _ _ _)) ?_
  rintro identity t₃' ⟨rfl,-⟩
  split_ifs
  · exact prepares_failAfter (hcleans _ hstaged₃.1) _
  · exact triple_pure fun d hd => hd ▸ hstaged₃.1

theorem seen_validateStagedCachePath {stagingRoot : FsPath} (hdirs : t.Dirs stagingRoot) (expected : FsIdentity)
    (file : OsName) :
    Seen t (validateStagedCachePath E stagingRoot expected (stagingRoot ++ [file])) fun identity =>
      t.Real (stagingRoot ++ [file]) identity := by
  refine seen_bind seen_io fun stagingMetadata _ => ?_
  split_ifs
  · exact seen_fail _
  · exact seen_fail _
  · exact seen_fail _
  refine seen_bind seen_io fun metadata hmetadata => ?_
  split_ifs with hkind
  · exact seen_fail _
  refine seen_bind seen_io fun _ _ => seen_bind seen_io fun _ _ => ?_
  split_ifs
  · exact seen_fail _
  · exact seen_pure (real_of_metadata (by rwa [List.dropLast_concat]) hmetadata (isDir_of_kind hkind))

/-- Every component of the path is text, so that the path is itself when it is given as text. -/
def Textual (p : FsPath) : Prop := ∀ name ∈ p, ∃ text, name = .text text

theorem lossyPath_of_textual {p : FsPath} (h : Textual p) : lossyPath p = p := by
  unfold lossyPath
  refine (List.map_congr_left fun name hname => ?_).trans (List.map_id p)
  obtain ⟨text,rfl⟩ := h name hname
  rfl

theorem agree_of_cloning {directory destination : FsPath} (args : List GitArg) (htext : Textual destination)
    (hdirs : t.Dirs destination.dropLast)
    (h : Commanded E directory (.text "clone"::args ++ [.path destination]) t t₁) :
    t.Agree (Without destination) t₁ := by
  rcases h with rfl | ⟨overrides,h⟩
  · exact .refl _
  · refine agree_of_clone ?_ hdirs h
    simp [GitCommand.destination,lossyPath_of_textual htext]

theorem prepares_cloneStaged {source : RepositorySource} (htext : Textual (repositoryRoot ++ [name]))
    (hstaged : Staged repositoryRoot name t t₁) (namespaceIdentity : FsIdentity) :
    Prepares (leftInCache repositoryRoot t) t₁ (cloneStaged E I source repositoryRoot (repositoryRoot ++ [name])
      namespaceIdentity identity) fun stagedIdentity t' => Staged repositoryRoot name t t' ∧
        t'.Real (repositoryRoot ++ [name] ++ [sourceName]) stagedIdentity := by
  have hcleans : Cleans (leftInCache repositoryRoot t) (Staged repositoryRoot name t) (cleanupAbandonedCacheStagingPath E I.cacheRoot I.cacheRootIdentity
    repositoryRoot namespaceIdentity identity.staging (repositoryRoot ++ [name])) := cleans_abandon _ _
  refine prepares_bind (prepares_look hcleans hstaged (seen_ensurePathAbsent _)) ?_
  rintro _ _ ⟨rfl,-⟩
  refine prepares_bind (prepares_look hcleans hstaged (seen_ensureNotCancelled _)) ?_
  rintro _ _ ⟨rfl,-⟩
  have hclone : ∀ t₂, Commanded E I.cacheRoot [.text "clone",.text "--mirror",.text "--",.text source.url,
      .path (repositoryRoot ++ [name] ++ [sourceName])] t₁ t₂ → Staged repositoryRoot name t t₂ := by
    intro t₂ hran
    have hagree := agree_of_cloning [.text "--mirror",.text "--",.text source.url] ?_
      (by rw [List.dropLast_concat]; exact hstaged.dirs) hran
    · refine hstaged.change (hagree.mono fun p hp hle => hp.2 ((List.prefix_append _ _).trans hle)) ?_
      exact hagree.dirs hstaged.dirs fun q hq hle => by simpa using (hle.trans hq).length_le
    · intro component hmem
      rcases List.mem_append.mp hmem with hmem | hmem
      · exact htext component hmem
      · exact ⟨_,List.mem_singleton.mp hmem⟩
  refine prepares_bind (prepares_step (Q := fun _ _ => True) hcleans
    ((triple_gitOutputForPhase (looks_validateSpawn _ _ _ _) _ _ _).post
      (fun _ d hd => ⟨hclone _ hd.2.1,trivial⟩) fun _ d hd => hclone _ (hd.elim .inl And.right))) fun _ t₂ hstaged₂ => ?_
  refine prepares_bind (prepares_look hcleans hstaged₂.1 (seen_ensureNotCancelled _)) ?_
  rintro _ _ ⟨rfl,-⟩
  refine prepares_bind (prepares_look hcleans hstaged₂.1 (seen_validateCacheStagingPath _ _ _ _)) ?_
  rintro current _ ⟨rfl,-⟩
  split_ifs
  · exact prepares_failAfter (hcleans _ hstaged₂.1) _
  refine (prepares_look hcleans hstaged₂.1 (seen_validateStagedCachePath hstaged₂.1.dirs _ _)).post ?_
    fun _ _ hd => hd
  rintro stagedIdentity d ⟨hd,hreal⟩
  exact hd ▸ ⟨hstaged₂.1,hreal⟩

end

/-! ### The cache in its place -/

section

variable {E : Surroundings} {I : RepositoryInspector} {t t₁ t₂ : FsTree} {namespaceName name : OsName}
  {source : RepositorySource} {identity : CacheStagingIdentity}

theorem cleans_remove {root repositoryRoot : FsPath} {rootIdentity : FsIdentity} :
    Cleans (leftInCache repositoryRoot t) (Staged repositoryRoot name t) (removeOwnedCacheStagingPath E.calls E.processId root rootIdentity repositoryRoot
      (repositoryRoot ++ [name]) identity) :=
  fun _ h => undoes_remove h

theorem triple_rename_staged {repositoryRoot : FsPath} {stagedIdentity : FsIdentity}
    (hstaged : Staged repositoryRoot name t t₁)
    (hreal : t₁.Real (repositoryRoot ++ [name] ++ [sourceName]) stagedIdentity) (hdirs : t₁.Dirs repositoryRoot)
    (hfree : t₁.lookup (repositoryRoot ++ [sourceName]) = none) :
    Triple (fun d => d.tree = t₁)
      (Call.rename E.calls (repositoryRoot ++ [name] ++ [sourceName]) (repositoryRoot ++ [sourceName]))
      (fun _ d => Staged repositoryRoot name t d.tree) fun _ d => d.tree = t₁ := by
  have hapart : ¬ repositoryRoot ++ [name] ++ [sourceName] <+: repositoryRoot ++ [sourceName] := fun hle => by
    simpa using hle.length_le
  refine (triple_rename hreal (by rwa [List.dropLast_concat]) (by simp) hfree hapart).post ?_ fun _ _ hd => hd
  rintro _ d ⟨hdiffers,-⟩
  refine hstaged.change (agree_of_differs hdiffers fun p hp place hmem hle => ?_)
    (hstaged.dirs.congr fun q hq => hdiffers q fun place hmem hle => ?_)
  · simp only [List.mem_cons,List.not_mem_nil,or_false] at hmem
    rcases hmem with rfl | rfl
    · exact hp.2 ((List.prefix_append _ _).trans hle)
    · exact hp.1.2 hle
  · simp only [List.mem_cons,List.not_mem_nil,or_false] at hmem
    rcases hmem with rfl | rfl
    · simpa using (hle.trans hq).length_le
    · exact not_prefix_sibling (ne_sourceName hstaged.staging).symm (hle.trans hq)

theorem triple_remove_beside_cache {root repositoryRoot : FsPath} {rootIdentity : FsIdentity}
    (hstaged : Staged repositoryRoot name t t₁) (hcache : t₁.Dirs (repositoryRoot ++ [sourceName])) :
    Triple (fun d => d.tree = t₁) (removeOwnedCacheStagingPath E.calls E.processId root rootIdentity repositoryRoot
        (repositoryRoot ++ [name]) identity)
      (fun _ d => CacheLeft repositoryRoot t True d.tree ∧ d.tree.Dirs (repositoryRoot ++ [sourceName]))
      fun _ d => CacheLeft repositoryRoot t False d.tree := by
  refine (triple_removeOwnedCacheStagingPath _ _ _ _ _ _).post ?_ fun _ d hd => hstaged.touched hd
  rintro _ d (⟨habsent,-⟩ | hd)
  · obtain ⟨_,_,hsome⟩ := hstaged.dirs _ (by simp) (List.prefix_refl _)
    rw [symlinkMetadata_notFound (hstaged.dirs.initial ( List.dropLast_prefix _)),hsome] at habsent
    cases habsent
  · refine ⟨hstaged.removed hd,?_⟩
    obtain ⟨-,quarantine,hquarantine,hpruned⟩ := hd
    have hother : ∀ other, isCacheStagingName other = true → ∀ q, q <+: repositoryRoot ++ [sourceName] →
        ¬ repositoryRoot ++ [other] <+: q := fun other hother q hq hle =>
      not_prefix_sibling (ne_sourceName hother) (hle.trans hq)
    refine hcache.congr fun q hq => hpruned.differs q fun place hmem => ?_
    simp only [List.mem_cons,List.not_mem_nil,or_false] at hmem
    rcases hmem with rfl | rfl
    · exact hother name hstaged.staging q hq
    · exact hother quarantine hquarantine.staging q hq

theorem prepares_installStaged (hstaged : Staged (I.cacheRoot ++ [namespaceName]) name t t₁)
    {stagedIdentity : FsIdentity}
    (hreal : t₁.Real (I.cacheRoot ++ [namespaceName] ++ [name] ++ [sourceName]) stagedIdentity)
    (namespaceIdentity : FsIdentity) :
    Prepares (leftInCache (I.cacheRoot ++ [namespaceName]) t) t₁ (installStaged E I (I.cacheRoot ++ [namespaceName])
      (I.cacheRoot ++ [namespaceName] ++ [name]) namespaceIdentity identity stagedIdentity) fun _ t' =>
        CacheLeft (I.cacheRoot ++ [namespaceName]) t True t' ∧
          t'.Dirs (I.cacheRoot ++ [namespaceName] ++ [sourceName]) := by
  have hcleans : Cleans (leftInCache (I.cacheRoot ++ [namespaceName]) t) (Staged (I.cacheRoot ++ [namespaceName]) name t) (removeOwnedCacheStagingPath E.calls E.processId
    I.cacheRoot I.cacheRootIdentity (I.cacheRoot ++ [namespaceName]) (I.cacheRoot ++ [namespaceName] ++ [name])
    identity) := cleans_remove
  refine prepares_bind (prepares_look (P := fun _ => t₁.Dirs (I.cacheRoot ++ [namespaceName]) ∧
    t₁.lookup (I.cacheRoot ++ [namespaceName] ++ [sourceName]) = none) hcleans hstaged ?_) ?_
  · refine seen_bind (seen_validateExpectedCacheNamespace _ _) fun _ howned => ?_
    refine (seen_ensurePathAbsent _).mono fun _ habsent => ⟨howned.repository.1,?_⟩
    exact (symlinkMetadata_notFound (by rw [List.dropLast_concat]; exact howned.repository.1)).mp habsent
  rintro _ _ ⟨rfl,hdirs,hfree⟩
  refine prepares_bind (prepares_step (Q := fun _ _ => True) hcleans ((triple_rename_staged hstaged hreal hdirs
    hfree).post (fun _ _ hd => ⟨hd,trivial⟩) fun _ d hd => hd ▸ hstaged)) fun _ t₂ hstaged₂ => ?_
  refine prepares_bind (prepares_look (P := fun _ => t₂.Dirs (I.cacheRoot ++ [namespaceName] ++ [sourceName]))
    hcleans hstaged₂.1 ?_) ?_
  · refine seen_bind (seen_validateExpectedCacheNamespace _ _) fun _ _ => ?_
    exact (seen_validateCachePath I.cache _ _).mono fun _ hcache => hcache.2.cache
  rintro _ _ ⟨rfl,hcache⟩
  refine prepares_bind (prepares_look hcleans hstaged₂.1 seen_io) ?_
  rintro installed _ ⟨rfl,-⟩
  split_ifs
  · exact prepares_failAfter (hcleans _ hstaged₂.1) _
  · exact triple_mapError ((triple_remove_beside_cache hstaged₂.1 hcache).post (fun _ _ hd => hd)
      fun _ _ hd => hd.mono fun hnone => by cases hnone)

theorem CacheLeft.after {repositoryRoot : FsPath} {clean : Prop} (h : CacheLeft repositoryRoot t clean t₁)
    (hagree : t₁.Agree (Beside (repositoryRoot ++ [sourceName])) t₂) : CacheLeft repositoryRoot t clean t₂ where
  footprint := h.footprint.trans (hagree.mono fun _ hp hle => hp.tidy.2 hle.1)
  tidy hclean hhollow := (h.tidy hclean hhollow).trans (hagree.mono fun _ hp hle => hp.2 hle.1)

/-- What works inside the cache leaves the rest as the preparation has left it. -/
theorem prepares_keeps {repositoryRoot : FsPath} {α : Type} {m : Inspecting α} {Q : α → FsTree → Prop}
    {R : InspectionError → FsTree → Prop} (h : CacheLeft repositoryRoot t True t₁)
    (hm : Keeps (Beside (repositoryRoot ++ [sourceName])) t₁ m Q R) :
    Prepares (leftInCache repositoryRoot t) t₁ m fun a t' => CacheLeft repositoryRoot t True t' ∧ Q a t' :=
  Triple.post hm (fun _ _ hd => ⟨h.after hd.1,hd.2⟩) fun _ _ hd => (h.after hd.1).mono fun _ => trivial

theorem keeps_gitInside {directory : FsPath} {root : OwnedRoot} {workspaceIdentity : Option WorkspaceIdentity}
    {additionalRoot : Option OwnedRoot} {first : String} {args : List GitArg} {phase : InspectionPhase}
    {cancellable : Bool} (hfirst : first ≠ "clone") (hdirs : t.Dirs directory) :
    Keeps (Beside directory) t (gitOutputForPhase E directory root workspaceIdentity additionalRoot
      (.text first::args) phase cancellable) (fun _ _ => True) fun _ _ => True :=
  (triple_gitOutputForPhase (looks_validateSpawn _ _ _ _) _ _ _).post
    (fun _ _ hd => ⟨hd.2.1.agree hfirst hdirs,trivial⟩)
    fun _ _ hd => ⟨(hd.elim .inl And.right : Commanded E directory _ t _).agree hfirst hdirs,trivial⟩

theorem keeps_refreshCache (namespaceIdentity : FsIdentity) :
    Keeps (Beside (I.cacheRoot ++ [namespaceName] ++ [sourceName])) t
      (refreshCache E I source (I.cacheRoot ++ [namespaceName]) namespaceIdentity)
      (fun path _ => path = I.cacheRoot ++ [namespaceName] ++ [sourceName]) fun _ _ => True := by
  refine keeps_after (seen_mapError _ (seen_validateExpectedCacheNamespace _ _)) (fun _ => trivial) fun _ _ => ?_
  refine keeps_after (seen_mapError _ (seen_validateCachePath I.cache _ _)) (fun _ => trivial) fun _ hcache => ?_
  have hdirs := hcache.2.cache
  refine keeps_after (seen_ensureNotCancelled _) (fun _ => trivial) fun _ _ => ?_
  refine keeps_bind (keeps_sanitizeLocalGitConfig _ _ _ hdirs) fun _ t₁ ht₁ _ => ?_
  have hdirs₁ := dirs_of_beside hdirs ht₁
  refine keeps_bind (keeps_gitInside (by decide) hdirs₁) fun remote t₂ ht₂ _ => ?_
  split_ifs
  · exact keeps_fail trivial
  refine keeps_after (seen_mapError _ (looks_validateCachePath _ _ _)) (fun _ => trivial) fun _ _ => ?_
  refine keeps_bind (keeps_gitInside (by decide) (dirs_of_beside hdirs₁ ht₂)) fun _ t₃ _ _ => ?_
  refine keeps_after (seen_ensureNotCancelled _) (fun _ => trivial) fun _ _ => keeps_pure rfl

theorem textual_stagingName (processId sequence : ℕ) : ∃ text, stagingName processId sequence = .text text :=
  ⟨_,rfl⟩

theorem Textual.concat {p : FsPath} (h : Textual p) (hname : ∃ text, name = .text text) : Textual (p ++ [name]) := by
  intro component hmem
  rcases List.mem_append.mp hmem with hmem | hmem
  · exact h component hmem
  · exact List.mem_singleton.mp hmem ▸ hname

theorem prepares_cloneCache (htext : Textual (I.cacheRoot ++ [namespaceName]))
    (hbase : t.Agree (· ≠ I.cacheRoot ++ [namespaceName]) t₁) (namespaceIdentity : FsIdentity) :
    Prepares (leftInCache (I.cacheRoot ++ [namespaceName]) t) t₁
      (cloneCache E I source (I.cacheRoot ++ [namespaceName]) namespaceIdentity) fun path t' =>
        CacheLeft (I.cacheRoot ++ [namespaceName]) t True t' ∧
          path = I.cacheRoot ++ [namespaceName] ++ [sourceName] := by
  refine prepares_after (cacheLeft_of_agree (hbase.mono fun _ hp => hp.1)) (seen_drawSequence _) fun sequence _ => ?_
  refine prepares_bind (prepares_createOwnedCacheStagingPath hbase namespaceIdentity) fun identity t₂ hstaged => ?_
  refine prepares_bind (prepares_cloneStaged (htext.concat (textual_stagingName _ _)) hstaged namespaceIdentity)
    fun stagedIdentity t₃ hstaged₃ => ?_
  refine prepares_bind (prepares_installStaged hstaged₃.1 hstaged₃.2 namespaceIdentity) fun _ t₄ hcache => ?_
  refine prepares_keeps (Q := fun path _ => path = I.cacheRoot ++ [namespaceName] ++ [sourceName])
    (R := fun _ _ => True) hcache.1 ?_
  refine keeps_after (seen_ensureNotCancelled _) (fun _ => trivial) fun _ _ => ?_
  refine keeps_bind (keeps_sanitizeLocalGitConfig _ _ _ hcache.2) fun _ t₅ _ _ => ?_
  exact keeps_after (seen_ensureNotCancelled _) (fun _ => trivial) fun _ _ => keeps_pure rfl

/-- The namespace of a repository in the cache. -/
def RepositoryInspector.repositoryRoot (I : RepositoryInspector) (source : RepositorySource) : FsPath :=
  I.cacheRoot ++ [.text (PathNames.pathComponent source.repositoryId)]

theorem prepares_ensureCache (htext : Textual I.cacheRoot) :
    Prepares (leftInCache (I.repositoryRoot source) t) t (ensureCache E I source) fun path t' =>
      CacheLeft (I.repositoryRoot source) t True t' ∧ path = I.repositoryRoot source ++ [sourceName] := by
  have hstart : CacheLeft (I.repositoryRoot source) t True t := cacheLeft_of_agree (.refl t)
  refine prepares_after hstart (seen_ensureNotCancelled _) fun _ _ => ?_
  refine prepares_after hstart (seen_mapError _ (seen_validateRootIdentity _ _)) fun _ _ => ?_
  have hchild : Keeps (· ≠ I.repositoryRoot source) t (createOwnedChild E I.cacheRoot I.cacheRootIdentity
      (.text (PathNames.pathComponent source.repositoryId)) .cache)
      (fun path _ => path = I.repositoryRoot source) fun _ _ => True :=
    (keeps_createOwnedChild _ _).post (fun _ _ _ hd => hd.1) fun _ _ _ _ => trivial
  refine prepares_bind (Q := fun path t' => path = I.repositoryRoot source ∧
      t.Agree (· ≠ I.repositoryRoot source) t')
    (Triple.post hchild (fun _ _ hd => ⟨hd.2,hd.1⟩)
      fun _ _ hd => cacheLeft_of_agree (hd.1.mono fun _ hp => hp.1)) ?_
  rintro path t₁ ⟨rfl,hbase⟩
  have hleft : CacheLeft (I.repositoryRoot source) t True t₁ := cacheLeft_of_agree (hbase.mono fun _ hp => hp.1)
  refine prepares_after hleft (seen_mapError _ (seen_validateCacheNamespace _ _ _)) fun namespaceIdentity _ => ?_
  refine prepares_attempt (seen_call _) fun metadata _ => ?_
  split_ifs
  · exact triple_fail fun d hd => hd ▸ hleft.mono fun _ => trivial
  refine prepares_after hleft (P := fun _ => True) ?_ fun present _ => ?_
  · refine triple_of_attempt (seen_call _) fun result _ => ?_
    cases result with
    | ok _ => exact seen_pure trivial
    | error _ => exact seen_pure trivial
  · split_ifs
    · exact prepares_keeps hleft (keeps_refreshCache namespaceIdentity)
    · exact prepares_cloneCache (htext.concat ⟨_,rfl⟩) hbase namespaceIdentity

end

/-! ### The preparation returns -/

section

variable {E : Surroundings} {I : RepositoryInspector} {root path repositoryRoot temporary : FsPath}
  {component : OsName} {phase : InspectionPhase}

end

end Inspection
end North
