import North.CleanupGate
import North.OwnedPaths

/-! The cleanup at the start of the daemon: what a run before left in the cache and among the
checkouts. Whatever fails on the way, nothing is touched outside the directories that the daemon
made for itself; and when the report has no failure, these are gone and all else is as it was. -/
namespace North
namespace Inspection

open Prog FileTree

structure CleanupFailure where
  path : FsPath
  reason : String
  deriving DecidableEq, Repr

structure CleanupReport where
  removed : List FsPath := []
  failures : List CleanupFailure := []
  deriving DecidableEq, Repr

namespace CleanupReport

def append (r other : CleanupReport) : CleanupReport :=
  ⟨r.removed ++ other.removed,r.failures ++ other.failures⟩

/-- `report.failures.push(CleanupFailure { path, reason })`. -/
def failed (r : CleanupReport) (path : FsPath) (reason : String) : CleanupReport :=
  { r with failures := r.failures ++ [⟨path,reason⟩] }

/-- `report.removed.push(path)`. -/
def cleaned (r : CleanupReport) (path : FsPath) : CleanupReport :=
  { r with removed := r.removed ++ [path] }

end CleanupReport

def rootsOverlap (left right : FsPath) : Bool :=
  decide (left = right) || right.isPrefixOf left || left.isPrefixOf right

/-- The roots of an inspector, which its constructor has compared. -/
structure RepositoryInspector where
  cacheRoot : FsPath
  cacheRootIdentity : FsIdentity
  workspaceRoot : FsPath
  workspaceRootIdentity : FsIdentity
  apart : rootsOverlap cacheRoot workspaceRoot = false

/-- A pass reports what fails in it and goes on. -/
abbrev Pass (α : Type) := Prog FsDisk Empty α

section

variable (O : Outcomes OsName) (processId : ℕ)

/-- A loop over the entries of a directory, with a check before each. -/
def visitEntries (root : FsPath) (check : Op Unit) (directory : FsPath)
    (visit : OsName → CleanupReport → Pass CleanupReport) :
    List (Except IoError OsName) → CleanupReport → Pass CleanupReport
  | [], report => pure report
  | entry::entries, report => do
    match ← attempt check with
    | .error reason => pure (report.failed root reason)
    | .ok () =>
      match entry with
      | .error error =>
        visitEntries root check directory visit entries (report.failed directory error.text)
      | .ok name => do
        let report ← visit name report
        visitEntries root check directory visit entries report

/-- The body of the loop of `visit_cache_namespace`. -/
def visitStaging (root : FsPath) (expectedRootIdentity : FsIdentity) (repositoryRoot : FsPath)
    (expectedNamespaceIdentity : FsIdentity) (name : OsName) (report : CleanupReport) :
    Pass CleanupReport := do
  if !isCacheStagingName name then pure report
  else
    let path := repositoryRoot ++ [name]
    match ← attempt (validateCacheStagingPath O root expectedRootIdentity repositoryRoot path) with
    | .error reason => pure (report.failed path reason)
    | .ok stagingIdentity =>
      match ← attempt (removeOwnedCacheStagingPath O processId root expectedRootIdentity repositoryRoot path
          ⟨expectedNamespaceIdentity,stagingIdentity.staging⟩) with
      | .ok () => pure (report.cleaned path)
      | .error reason => pure (report.failed path reason)

def visitCacheNamespace (root : FsPath) (expectedRootIdentity : FsIdentity) (repositoryRoot : FsPath)
    (expectedNamespaceIdentity : FsIdentity) (report : CleanupReport) : Pass CleanupReport := do
  match ← attempt (validateCacheNamespace O root expectedRootIdentity repositoryRoot) with
  | .error reason => pure (report.failed repositoryRoot reason)
  | .ok identity =>
    if identity ≠ expectedNamespaceIdentity then
      pure (report.failed repositoryRoot "repository cache namespace identity changed")
    else
      match ← attempt (Call.readDir O repositoryRoot) with
      | .error error => pure (report.failed repositoryRoot error.text)
      | .ok entries =>
        visitEntries root (validateRootIdentity O root expectedRootIdentity) repositoryRoot
          (visitStaging O processId root expectedRootIdentity repositoryRoot expectedNamespaceIdentity)
          entries report

/-- The body of the loop of `cleanup_stale_cache_staging`. -/
def visitNamespace (root : FsPath) (expectedRootIdentity : FsIdentity) (name : OsName)
    (report : CleanupReport) : Pass CleanupReport := do
  if !isCacheNamespaceName name then pure report
  else
    let repositoryRoot := root ++ [name]
    match ← attempt (Call.symlinkMetadata O repositoryRoot) with
    | .error error => pure (report.failed repositoryRoot error.text)
    | .ok metadata =>
      if metadata.isSymlink || !metadata.isDir then
        pure (report.failed repositoryRoot "repository cache namespace is not a real directory")
      else
        match ← attempt (validateCacheNamespace O root expectedRootIdentity repositoryRoot) with
        | .error reason => pure (report.failed repositoryRoot reason)
        | .ok identity =>
          if identity ≠ metadata.identity then
            pure (report.failed repositoryRoot "repository cache namespace identity changed")
          else visitCacheNamespace O processId root expectedRootIdentity repositoryRoot identity report

def cleanupStaleCacheStaging (root : FsPath) (expectedRootIdentity : FsIdentity) : Pass CleanupReport := do
  let report : CleanupReport := {}
  match ← attempt (validateRootIdentity O root expectedRootIdentity) with
  | .error reason => pure (report.failed root reason)
  | .ok () =>
    match ← attempt (Call.readDir O root) with
    | .error error => pure (report.failed root error.text)
    | .ok entries =>
      visitEntries root (validateRootIdentity O root expectedRootIdentity) root
        (visitNamespace O processId root expectedRootIdentity) entries report

/-- The body of the loop of `visit_workspace_root`. -/
def visitWorkspace (root : FsPath) (expectedRootIdentity : FsIdentity) (directory : FsPath) (name : OsName)
    (report : CleanupReport) : Pass CleanupReport := do
  let path := directory ++ [name]
  match ← attempt (Call.symlinkMetadata O path) with
  | .error error => pure (report.failed path error.text)
  | .ok metadata =>
    if metadata.isSymlink || !metadata.isDir then pure report
    else if !hasStart PathNames.workspacePrefix name then pure report
    else
      match ← attempt (Call.canonicalize O path) with
      | .error error => pure (report.failed path error.text)
      | .ok canonical =>
        if parent? canonical ≠ some directory then
          pure (report.failed path "workspace resolves outside dedicated root")
        else
          match ← attempt (captureWorkspaceIdentity O path) with
          | .error reason => pure (report.failed path reason)
          | .ok identity =>
            match ← attempt (removeOwnedWorkspacePath O root path expectedRootIdentity identity) with
            | .ok () => pure (report.cleaned path)
            | .error error => pure (report.failed path error)

def visitWorkspaceRoot (root : FsPath) (expectedRootIdentity : FsIdentity) (directory : FsPath)
    (report : CleanupReport) : Pass CleanupReport := do
  match ← attempt (validateRootIdentity O root expectedRootIdentity) with
  | .error reason => pure (report.failed root reason)
  | .ok () =>
    match ← attempt (Call.readDir O directory) with
    | .error error => pure (report.failed directory error.text)
    | .ok entries =>
      visitEntries root (pure ()) directory (visitWorkspace O root expectedRootIdentity directory)
        entries report

def cleanupStaleWorkspaces (root : FsPath) (expectedRootIdentity : FsIdentity) : Pass CleanupReport := do
  let report : CleanupReport := {}
  match ← attempt (validateRootIdentity O root expectedRootIdentity) with
  | .error reason => pure (report.failed root reason)
  | .ok () => visitWorkspaceRoot O root expectedRootIdentity root report

/-- `RepositoryInspector::startup_cleanup`, at a state of the cleanup gate. -/
def startupCleanup (I : RepositoryInspector) (gate : CleanupGate.CleanupGateState) : Pass CleanupReport := do
  match CleanupGate.beginCleanup gate with
  | .error reason => pure { failures := [⟨I.cacheRoot,reason⟩] }
  | .ok _ =>
    let report ← cleanupStaleCacheStaging O processId I.cacheRoot I.cacheRootIdentity
    let workspaces ← cleanupStaleWorkspaces O I.workspaceRoot I.workspaceRootIdentity
    pure (report.append workspaces)

end

/-! ### What a cleanup may touch -/

/-- A name for a staging directory in the cache: a stale directory has it, or nothing yet. -/
structure StagingPlace (I : RepositoryInspector) (t : FsTree) (place : FsPath) : Prop where
  names : ∃ namespaceName name, place = I.cacheRoot ++ [namespaceName,name] ∧
    isCacheNamespaceName namespaceName = true ∧ isCacheStagingName name = true
  root : t.Real I.cacheRoot I.cacheRootIdentity
  parent : t.Dirs place.dropLast
  kind : t.Dirs place ∨ t.lookup place = none

/-- A checkout that a run before has left and that carries its marker. -/
structure WorkspacePlace (I : RepositoryInspector) (t : FsTree) (place : FsPath) : Prop where
  names : ∃ name, place = I.workspaceRoot ++ [name] ∧ hasStart PathNames.workspacePrefix name = true
  root : t.Real I.workspaceRoot I.workspaceRootIdentity
  marked : ∃ identity, MarkedWorkspace t place identity

/-- A path at such a place or under it. -/
def Slated (I : RepositoryInspector) (t : FsTree) (p : FsPath) : Prop :=
  ∃ place, place <+: p ∧ (StagingPlace I t place ∨ WorkspacePlace I t place)

/-- The trees differ at slated paths only. -/
def Trimmed (I : RepositoryInspector) (t t' : FsTree) : Prop :=
  ∀ p, t'.lookup p ≠ t.lookup p → Slated I t p

section

variable {I : RepositoryInspector} {t t' : FsTree} {p q : FsPath}

theorem Slated.under (h : Slated I t p) (hpq : p <+: q) : Slated I t q := by
  obtain ⟨place,hplace,h⟩ := h
  exact ⟨place,hplace.trans hpq,h⟩

theorem apart_roots (hcache : I.cacheRoot <+: p) (hworkspace : I.workspaceRoot <+: p) : False := by
  have hapart : ¬ rootsOverlap I.cacheRoot I.workspaceRoot = true := by simp [I.apart]
  simp only [rootsOverlap,Bool.or_eq_true,List.isPrefixOf_iff_prefix,not_or] at hapart
  rcases List.prefix_or_prefix_of_prefix hcache hworkspace with hle | hle
  · exact hapart.2 hle
  · exact hapart.1.2 hle

theorem StagingPlace.under_root {place : FsPath} (h : StagingPlace I t place) : I.cacheRoot <+: place := by
  obtain ⟨namespaceName,name,rfl,-⟩ := h.names
  exact List.prefix_append _ _

theorem StagingPlace.length {place : FsPath} (h : StagingPlace I t place) :
    place.length = I.cacheRoot.length+2 := by
  obtain ⟨namespaceName,name,rfl,-⟩ := h.names
  simp

theorem WorkspacePlace.under_root {place : FsPath} (h : WorkspacePlace I t place) :
    I.workspaceRoot <+: place := by
  obtain ⟨name,rfl,-⟩ := h.names
  exact List.prefix_append _ _

theorem WorkspacePlace.length {place : FsPath} (h : WorkspacePlace I t place) :
    place.length = I.workspaceRoot.length+1 := by
  obtain ⟨name,rfl,-⟩ := h.names
  simp

/-- The cache root and the namespaces in it are not slated. -/
theorem not_slated_of_short (hroot : I.cacheRoot <+: p) (hlen : p.length ≤ I.cacheRoot.length+1)
    (hq : q <+: p) : ¬ Slated I t q := by
  rintro ⟨place,hplace,h | h⟩
  · have := (hplace.trans hq).length_le
    have := h.length
    omega
  · exact apart_roots hroot (h.under_root.trans (hplace.trans hq))

theorem Trimmed.same (h : Trimmed I t t') (hp : ¬ Slated I t p) : t.lookup p = t'.lookup p :=
  (not_not.mp (mt (h p) hp)).symm

theorem Trimmed.staging (h : Trimmed I t t') {place : FsPath} (hplace : StagingPlace I t' place) :
    Slated I t place := by
  by_cases hsame : t'.lookup place = t.lookup place
  · obtain ⟨namespaceName,name,hnames,hnamespace,hname⟩ := hplace.names
    have hparent : place.dropLast = I.cacheRoot ++ [namespaceName] := by
      rw [hnames,List.dropLast_append_of_ne_nil (by simp)]
      rfl
    have hbelow : ∀ q, q <+: place.dropLast → t.lookup q = t'.lookup q := fun q hq =>
      h.same (not_slated_of_short (by rw [hparent]; exact List.prefix_append _ _) (by rw [hparent]; simp) hq)
    have hroot : I.cacheRoot <+: place.dropLast := by
      rw [hparent]
      exact List.prefix_append _ _
    refine ⟨place,List.prefix_refl _,.inl ⟨hplace.names,?_,?_,?_⟩⟩
    · exact hplace.root.congr fun q hq => hbelow q (hq.trans hroot)
    · exact hplace.parent.congr hbelow
    · rcases hplace.kind with hdirs | hnone
      · refine .inl (hdirs.congr fun q hq => ?_)
        have hconcat : place = place.dropLast ++ [name] := by
          rw [hparent,hnames]
          simp
        rw [hconcat] at hq
        rcases List.prefix_concat_iff.mp hq with rfl | hq
        · rw [← hconcat,hsame]
        · exact hbelow q hq
      · exact .inr (hsame ▸ hnone)
  · exact h place hsame

theorem MarkedWorkspace.congr {place : FsPath} {identity : WorkspaceIdentity} (h : MarkedWorkspace t place identity)
    (hsame : ∀ q, q <+: markerPath place → t'.lookup q = t.lookup q) : MarkedWorkspace t' place identity := by
  have hgit : gitDirectory place <+: markerPath place := List.prefix_append _ _
  have hplace : place <+: gitDirectory place := List.prefix_append _ _
  refine ⟨h.name,h.real.congr fun q hq => hsame q (hq.trans (hplace.trans hgit)),
    h.git.congr fun q hq => hsame q (hq.trans hgit),?_⟩
  rw [hsame _ (List.prefix_refl _)]
  exact h.marker

theorem Trimmed.workspace (h : Trimmed I t t') {place : FsPath} (hplace : WorkspacePlace I t' place) :
    Slated I t place := by
  have hmarker : place <+: markerPath place := (List.prefix_append _ _).trans (List.prefix_append _ _)
  by_cases hsame : ∀ q, q <+: markerPath place → t.lookup q = t'.lookup q
  · obtain ⟨identity,hmarked⟩ := hplace.marked
    refine ⟨place,List.prefix_refl _,.inr ⟨hplace.names,?_,identity,hmarked.congr hsame⟩⟩
    exact hplace.root.congr fun q hq => hsame q (hq.trans (hplace.under_root.trans hmarker))
  · -- then something on the way to the marker was slated, and this can only be the checkout
    obtain ⟨q,hq⟩ := not_forall.mp hsame
    obtain ⟨hq,hdiffers⟩ := Classical.not_imp.mp hq
    obtain ⟨place',hplace',hkind⟩ := h q fun heq => hdiffers heq.symm
    have hinit := hplace'.trans hq
    rcases hkind with hkind | hkind
    · exact (apart_roots (hkind.under_root.trans hinit) (hplace.under_root.trans hmarker)).elim
    · have hlen : place'.length ≤ place.length := by rw [hkind.length,hplace.length]
      exact ⟨place',List.prefix_of_prefix_length_le hinit hmarker hlen,.inr hkind⟩

theorem Trimmed.slated (h : Trimmed I t t') (hp : Slated I t' p) : Slated I t p := by
  obtain ⟨place,hplace,hkind | hkind⟩ := hp
  · exact (h.staging hkind).under hplace
  · exact (h.workspace hkind).under hplace

instance : Std.Refl (Trimmed I) := ⟨fun _ _ h => absurd rfl h⟩

instance : IsTrans FsTree (Trimmed I) where
  trans t t' t'' h h' p hp := by
    by_cases hsame : t'.lookup p = t.lookup p
    · exact h.slated (h' p (hsame ▸ hp))
    · exact h p hsame

theorem trimmed_of_differs {places : List FsPath} (h : t.DiffersUnder places t')
    (hplaces : ∀ place ∈ places, Slated I t place) : Trimmed I t t' := by
  intro p hp
  by_contra hnot
  refine hp (h p fun place hmem hplace => hnot ?_)
  exact (hplaces place hmem).under hplace

end

/-! ### What a pass does -/

section

variable {I : RepositoryInspector} {O : Outcomes OsName} {t t' t₁ : FsTree} {r r' r₁ : CleanupReport}
  {P P' P₁ P₂ : FsPath → Prop} {K : Entry OsName FsIdentity → Bool} {path : FsPath}

/-- What is to be removed: at these places, the entries of this kind. -/
def Stale (P : FsPath → Prop) (K : Entry OsName FsIdentity → Bool) (t : FsTree) (place : FsPath) : Prop :=
  P place ∧ (t.lookup place).any K = true

/-- What a pass does to the tree and to the report. When no failure is reported, what is gone is
exactly what was to be removed, and it is reported. -/
structure Swept (I : RepositoryInspector) (P : FsPath → Prop) (K : Entry OsName FsIdentity → Bool)
    (t : FsTree) (r r' : CleanupReport) (t' : FsTree) : Prop where
  trimmed : Trimmed I t t'
  failures : r'.failures = [] → r.failures = []
  gone : t.Closed → r'.failures = [] → ∃ gone, r'.removed = r.removed ++ gone ∧ t.Pruned gone t' ∧
    ∀ place, place ∈ gone ↔ Stale P K t place

theorem swept_failed (h : Trimmed I t t') (reason : String) : Swept I P K t r (r.failed path reason) t' :=
  ⟨h,fun hfailures => by simp [CleanupReport.failed] at hfailures,
    fun _ hfailures => by simp [CleanupReport.failed] at hfailures⟩

theorem swept_idle (h : t.Closed → ∀ place, ¬ Stale P K t place) : Swept I P K t r r t :=
  ⟨Std.Refl.refl t,id,fun hclosed _ => ⟨[],by simp,.refl t,fun place => by simp [h hclosed place]⟩⟩

theorem swept_cleaned (h : Trimmed I t t') (hpruned : t.Closed → t.Pruned [path] t')
    (hstale : ∀ place, Stale P K t place ↔ place = path) : Swept I P K t r (r.cleaned path) t' :=
  ⟨h,id,fun hclosed _ => ⟨[path],rfl,hpruned hclosed,fun place => by simp [hstale place]⟩⟩

theorem Swept.congr (h : Swept I P K t r r' t')
    (hstale : t.Closed → r'.failures = [] → ∀ place, Stale P K t place ↔ Stale P' K t place) :
    Swept I P' K t r r' t' := by
  refine ⟨h.trimmed,h.failures,fun hclosed hfailures => ?_⟩
  obtain ⟨gone,hremoved,hpruned,hgone⟩ := h.gone hclosed hfailures
  exact ⟨gone,hremoved,hpruned,fun place => (hgone place).trans (hstale hclosed hfailures place)⟩

theorem Swept.trans (h : Swept I P₁ K t r r₁ t₁) (h' : Swept I P₂ K t₁ r₁ r' t')
    (hanti : ∀ p q, P₁ p → P₂ q → p <+: q → p = q) :
    Swept I (fun place => P₁ place ∨ P₂ place) K t r r' t' := by
  refine ⟨IsTrans.trans _ _ _ h.trimmed h'.trimmed,fun hf => h.failures (h'.failures hf),fun hclosed hf => ?_⟩
  obtain ⟨gone,hremoved,hpruned,hgone⟩ := h.gone hclosed (h'.failures hf)
  obtain ⟨gone',hremoved',hpruned',hgone'⟩ := h'.gone (hpruned.closed hclosed) hf
  refine ⟨gone ++ gone',by rw [hremoved',hremoved,List.append_assoc],hpruned.trans hpruned',fun place => ?_⟩
  rw [List.mem_append,hgone,hgone']
  constructor
  · rintro (hplace | ⟨hplace,hkind⟩)
    · exact ⟨.inl hplace.1,hplace.2⟩
    · rw [(hpruned.left (fun hnone => by simp [hnone] at hkind)).2] at hkind
      exact ⟨.inr hplace,hkind⟩
  · rintro ⟨hplace | hplace,hkind⟩
    · exact .inl ⟨hplace,hkind⟩
    · by_cases hbelow : ∃ q ∈ gone, q <+: place
      · obtain ⟨q,hq,hle⟩ := hbelow
        have hqstale := (hgone q).mp hq
        obtain rfl := hanti q place hqstale.1 hplace hle
        exact .inl hqstale
      · refine .inr ⟨hplace,?_⟩
        rwa [hpruned.differs place fun q hq hle => hbelow ⟨q,hq,hle⟩]

/-- Whatever its report is, the pass does this from this tree. -/
def Sweeps (I : RepositoryInspector) (P : FsPath → Prop) (K : Entry OsName FsIdentity → Bool) (t : FsTree)
    (r : CleanupReport) (m : Pass CleanupReport) : Prop :=
  Triple (fun d => d.tree = t) m (fun r' d => Swept I P K t r r' d.tree) fun _ _ => False

theorem sweeps_pure {r' : CleanupReport} (h : Swept I P K t r r' t) : Sweeps I P K t r (pure r') := by
  refine triple_pure ?_
  rintro d rfl
  exact h

theorem sweeps_failed (reason : String) : Sweeps I P K t r (pure (r.failed path reason)) :=
  sweeps_pure (swept_failed (Std.Refl.refl t) reason)

/-- A look at the tree that may fail, and what comes after it. -/
theorem sweeps_of_seen {α ε : Type} {m : Prog FsDisk ε α} {Q : α → Prop}
    {f : Except ε α → Pass CleanupReport} (hm : Seen t m Q) (herror : ∀ e, Sweeps I P K t r (f (.error e)))
    (hok : ∀ a, Q a → Sweeps I P K t r (f (.ok a))) : Sweeps I P K t r (attempt m >>= f) := by
  refine triple_of_seen (seen_attempt hm) (fun e => e.elim) fun result hresult => ?_
  cases result with
  | error e => exact herror e
  | ok a => exact hok a (hresult a rfl)

/-- A loop sweeps what its turns sweep, and no error of its listing is left out of the report. -/
theorem triple_visitEntries {P : OsName → FsPath → Prop} {check : Op Unit}
    {visit : OsName → CleanupReport → Pass CleanupReport} (root directory : FsPath)
    (hcheck : ∀ t, Seen t check fun _ => True) (hvisit : ∀ name t r, Sweeps I (P name) K t r (visit name r))
    (hanti : ∀ a b p q, P a p → P b q → p <+: q → p = q) (entries : List (Except IoError OsName)) :
    Triple (fun d => d.tree = t) (visitEntries root check directory visit entries r)
      (fun r' d => Swept I (fun place => ∃ name, .ok name ∈ entries ∧ P name place) K t r r' d.tree ∧
        (r'.failures = [] → ∀ e, .error e ∉ entries)) fun _ _ => False := by
  induction entries generalizing t r with
  | nil =>
    refine triple_pure ?_
    rintro d rfl
    exact ⟨swept_idle fun _ place hplace => by simp [Stale] at hplace,by simp⟩
  | cons entry entries ih =>
    refine triple_of_seen (seen_attempt (hcheck t)) (fun e => e.elim) fun result _ => ?_
    cases result with
    | error reason =>
      refine triple_pure ?_
      rintro d rfl
      exact ⟨swept_failed (Std.Refl.refl _) reason,fun hf => by simp [CleanupReport.failed] at hf⟩
    | ok _ =>
      cases entry with
      | error error =>
        refine (ih (r := r.failed directory error.text)).post (fun r' d hd => ?_) fun _ _ hd => hd
        have hnever : r'.failures ≠ [] := fun hf => by
          simpa [CleanupReport.failed] using hd.1.failures hf
        exact ⟨⟨hd.1.trimmed,fun hf => absurd hf hnever,fun _ hf => absurd hf hnever⟩,
          fun hf => absurd hf hnever⟩
      | ok name =>
        refine triple_bind (hvisit name t r) fun r₁ => ?_
        refine triple_each (P := fun t₁ => Swept I (P name) K t r r₁ t₁) fun t₁ hfirst => ?_
        refine ih.post (fun r' d hd => ⟨?_,fun hf e => by simpa using hd.2 hf e⟩) fun _ _ hd => hd
        refine (hfirst.trans hd.1 fun p q hp ⟨b,_,hq⟩ => hanti name b p q hp hq).congr fun _ _ place => ?_
        have hplaces : (∃ b, .ok b ∈ .ok name::entries ∧ P b place) ↔
            (P name place ∨ ∃ b, .ok b ∈ entries ∧ P b place) := by simp [or_and_right,exists_or]
        exact and_congr_left fun _ => hplaces.symm

variable (processId : ℕ)

def StagingOf (repositoryRoot : FsPath) (name : OsName) (place : FsPath) : Prop :=
  place = repositoryRoot ++ [name] ∧ isCacheStagingName name = true

theorem slated_staging {namespaceName : OsName} {identity : CacheStagingIdentity} {path : FsPath}
    (hname : isCacheNamespaceName namespaceName = true)
    (h : OwnedStaging t I.cacheRoot I.cacheRootIdentity (I.cacheRoot ++ [namespaceName]) path identity)
    {name : OsName} (hstaging : isCacheStagingName name = true)
    (hkind : t.Dirs (I.cacheRoot ++ [namespaceName,name]) ∨
      t.lookup (I.cacheRoot ++ [namespaceName,name]) = none) :
    Slated I t (I.cacheRoot ++ [namespaceName] ++ [name]) := by
  refine ⟨I.cacheRoot ++ [namespaceName,name],by simp,
    .inl ⟨⟨namespaceName,name,rfl,hname,hstaging⟩,?_,?_,hkind⟩⟩
  · exact h.namespaced.owned
  · rw [List.dropLast_append_of_ne_nil (by simp)]
    exact h.namespaced.repository.1

/-- A removal touches the staging directory and its quarantine, which is a place for one too. -/
theorem trimmed_of_staging {namespaceName name : OsName} {identity : CacheStagingIdentity}
    (hname : isCacheNamespaceName namespaceName = true)
    (h : OwnedStaging t I.cacheRoot I.cacheRootIdentity (I.cacheRoot ++ [namespaceName])
      (I.cacheRoot ++ [namespaceName] ++ [name]) identity) {quarantine : OsName}
    (hquarantine : Quarantine t (I.cacheRoot ++ [namespaceName]) quarantine)
    (hdiffers : t.DiffersUnder [I.cacheRoot ++ [namespaceName] ++ [name],
      I.cacheRoot ++ [namespaceName] ++ [quarantine]] t') : Trimmed I t t' := by
  refine trimmed_of_differs hdiffers fun place hmem => ?_
  rcases List.mem_pair.mp hmem with rfl | rfl
  · obtain ⟨name',hconcat,hstaging⟩ := h.child
    obtain rfl : name = name' := by simpa using hconcat
    exact slated_staging hname h hstaging (.inl (by simpa using h.staging.1))
  · exact slated_staging hname h hquarantine.staging (.inr (by simpa using hquarantine.free))

theorem trimmed_of_touched {namespaceName name : OsName} {identity : CacheStagingIdentity}
    (hname : isCacheNamespaceName namespaceName = true)
    (h : StagingTouched t I.cacheRoot I.cacheRootIdentity (I.cacheRoot ++ [namespaceName])
      (I.cacheRoot ++ [namespaceName] ++ [name]) identity t') : Trimmed I t t' := by
  rcases h with rfl | ⟨howned,quarantine,hquarantine,hdiffers⟩
  · exact Std.Refl.refl _
  · exact trimmed_of_staging hname howned hquarantine hdiffers

theorem sweeps_visitStaging {namespaceName : OsName} (hname : isCacheNamespaceName namespaceName = true)
    (identity : FsIdentity) (name : OsName) :
    Sweeps I (StagingOf (I.cacheRoot ++ [namespaceName]) name) (fun _ => true) t r
      (visitStaging O processId I.cacheRoot I.cacheRootIdentity (I.cacheRoot ++ [namespaceName]) identity
        name r) := by
  unfold visitStaging
  split_ifs with hstaging
  · exact sweeps_pure (swept_idle fun _ place hplace => by simp [hplace.1.2] at hstaging)
  refine sweeps_of_seen (seen_validateCacheStagingPath _ _ _ _) (fun _ => sweeps_failed _) fun seen howned => ?_
  have hlookup : t.lookup (I.cacheRoot ++ [namespaceName] ++ [name]) ≠ none := by
    obtain ⟨-,writable,hlookup⟩ := howned.staging
    rw [hlookup]
    exact Option.some_ne_none _
  refine triple_bind (Q := fun result d => match result with
      | .ok () => StagingRemoved t I.cacheRoot I.cacheRootIdentity (I.cacheRoot ++ [namespaceName])
          (I.cacheRoot ++ [namespaceName] ++ [name]) ⟨identity,seen.staging⟩ d.tree
      | .error _ => StagingTouched t I.cacheRoot I.cacheRootIdentity (I.cacheRoot ++ [namespaceName])
          (I.cacheRoot ++ [namespaceName] ++ [name]) ⟨identity,seen.staging⟩ d.tree)
    (triple_attempt (triple_removeOwnedCacheStagingPath processId _ _ _ _ _) ?_ ?_) fun result => ?_
  · rintro _ d (⟨habsent,-⟩ | hd)
    · rw [symlinkMetadata_notFound (howned.staging.1.initial ( List.dropLast_prefix _))] at habsent
      exact absurd habsent hlookup
    · exact hd
  · exact fun _ _ hd => hd
  · cases result with
    | error reason => exact triple_pure fun d hd => swept_failed (trimmed_of_touched hname hd) reason
    | ok _ =>
      refine triple_pure fun d hd => ?_
      obtain ⟨howned,quarantine,hquarantine,hpruned⟩ := hd
      refine swept_cleaned (trimmed_of_staging hname howned hquarantine hpruned.differs) (fun hclosed => ?_)
        fun place => ⟨fun hplace => hplace.1.1,?_⟩
      · exact Tree.Pruned.of_free (show t.Pruned ([_] ++ [_]) d.tree from hpruned) hclosed (by simp)
          hquarantine.free
      · rintro rfl
        refine ⟨⟨rfl,by simpa using hstaging⟩,?_⟩
        obtain ⟨entry,hentry⟩ := Option.ne_none_iff_exists'.mp hlookup
        rw [hentry]
        rfl

/-- A listing that reports no error has all names, so that what is stale is in it. -/
theorem mem_listing {directory : FsPath} (hdirs : t.Dirs directory) {entries : List (Except IoError OsName)}
    (hread : ∃ names n, t.readDir directory = .ok names ∧ entries = O.listing n names)
    (herror : ∀ e, .error e ∉ entries) {name : OsName} (hname : t.lookup (directory ++ [name]) ≠ none) :
    .ok name ∈ entries := by
  obtain ⟨names,n,hread,rfl⟩ := hread
  obtain rfl : t.names directory = names := by simpa [readDir_of_dirs hdirs] using hread
  rcases O.complete n (t.names directory) with ⟨e,he⟩ | hall
  · exact absurd he (herror e)
  · exact hall name (mem_names.mpr hname)

theorem lookup_ne_none_of_stale {place : FsPath} (h : Stale P K t place) : t.lookup place ≠ none := by
  intro hnone
  have hkind := h.2
  simp [hnone] at hkind

theorem sweeps_visitCacheNamespace {namespaceName : OsName} (hname : isCacheNamespaceName namespaceName = true)
    (identity : FsIdentity) :
    Sweeps I (fun place => ∃ name, StagingOf (I.cacheRoot ++ [namespaceName]) name place) (fun _ => true) t r
      (visitCacheNamespace O processId I.cacheRoot I.cacheRootIdentity (I.cacheRoot ++ [namespaceName])
        identity r) := by
  refine sweeps_of_seen (seen_validateCacheNamespace _ _ _) (fun _ => sweeps_failed _) fun seen howned => ?_
  simp only
  split_ifs
  · exact sweeps_failed _
  refine sweeps_of_seen (seen_readDir _) (fun _ => sweeps_failed _) fun entries hread => ?_
  refine (triple_visitEntries _ _ (fun t => (seen_validateRootIdentity _ _).mono fun _ _ => trivial)
    (fun name t r => sweeps_visitStaging processId hname identity name) ?_ entries).post ?_ fun _ _ hd => hd
  · rintro a b p q ⟨rfl,-⟩ ⟨rfl,-⟩ hle
    exact hle.eq_of_length (by simp)
  · refine fun r' d hd => hd.1.congr fun _ hf place => ⟨fun ⟨⟨name,_,hplace⟩,hkind⟩ => ⟨⟨name,hplace⟩,hkind⟩,?_⟩
    rintro ⟨⟨name,rfl,hstaging⟩,hkind⟩
    have hlookup := lookup_ne_none_of_stale (P := fun _ => True) ⟨trivial,hkind⟩
    exact ⟨⟨name,mem_listing howned.repository.1 hread (hd.2 hf) hlookup,rfl,hstaging⟩,hkind⟩

def StagingIn (I : RepositoryInspector) (namespaceName : OsName) (place : FsPath) : Prop :=
  isCacheNamespaceName namespaceName = true ∧ ∃ name, StagingOf (I.cacheRoot ++ [namespaceName]) name place

theorem sweeps_visitNamespace (name : OsName) :
    Sweeps I (StagingIn I name) (fun _ => true) t r
      (visitNamespace O processId I.cacheRoot I.cacheRootIdentity name r) := by
  unfold visitNamespace
  split_ifs with hname
  · exact sweeps_pure (swept_idle fun _ place hplace => by simp [hplace.1.1] at hname)
  have hname : isCacheNamespaceName name = true := by simpa using hname
  refine sweeps_of_seen (seen_call _) (fun _ => sweeps_failed _) fun metadata _ => ?_
  simp only
  split_ifs
  · exact sweeps_failed _
  refine sweeps_of_seen (seen_validateCacheNamespace _ _ _) (fun _ => sweeps_failed _) fun identity _ => ?_
  simp only
  split_ifs
  · exact sweeps_failed _
  refine (sweeps_visitCacheNamespace processId hname identity).post (fun _ d hd => ?_) fun _ _ hd => hd
  refine hd.congr fun _ _ place => and_congr_left fun _ => ?_
  exact ⟨fun hplace => ⟨hname,hplace⟩,fun hplace => hplace.2⟩

theorem sweeps_cleanupStaleCacheStaging :
    Sweeps I (fun place => ∃ name, StagingIn I name place) (fun _ => true) t {}
      (cleanupStaleCacheStaging O processId I.cacheRoot I.cacheRootIdentity) := by
  refine sweeps_of_seen (seen_validateRootIdentity _ _) (fun _ => sweeps_failed _) fun _ hroot => ?_
  refine sweeps_of_seen (seen_readDir _) (fun _ => sweeps_failed _) fun entries hread => ?_
  refine (triple_visitEntries _ _ (fun t => (seen_validateRootIdentity _ _).mono fun _ _ => trivial)
    (fun name t r => sweeps_visitNamespace processId name) ?_ entries).post ?_ fun _ _ hd => hd
  · rintro a b p q ⟨-,name,rfl,-⟩ ⟨-,name',rfl,-⟩ hle
    exact hle.eq_of_length (by simp)
  · refine fun r' d hd => hd.1.congr fun hclosed hf place => ?_
    refine ⟨fun ⟨⟨name,_,hplace⟩,hkind⟩ => ⟨⟨name,hplace⟩,hkind⟩,?_⟩
    rintro ⟨⟨name,hname,child,rfl,hchild⟩,hkind⟩
    -- what is in a namespace makes the namespace a directory of the cache
    have hdirs := hclosed _ (lookup_ne_none_of_stale (P := fun _ => True) ⟨trivial,hkind⟩)
    rw [List.dropLast_concat] at hdirs
    obtain ⟨identity,writable,hlookup⟩ := hdirs (I.cacheRoot ++ [name]) (by simp) (List.prefix_refl _)
    have hmem := mem_listing hroot.1 hread (hd.2 hf) (hlookup ▸ Option.some_ne_none _)
    exact ⟨⟨name,hmem,hname,child,rfl,hchild⟩,hkind⟩

/-! ### Workspaces -/

def WorkspaceAt (I : RepositoryInspector) (name : OsName) (place : FsPath) : Prop :=
  place = I.workspaceRoot ++ [name] ∧ hasStart PathNames.workspacePrefix name = true

theorem seen_captureWorkspaceIdentity (path : FsPath) :
    Seen t (captureWorkspaceIdentity O path) fun _ => True := by
  unfold captureWorkspaceIdentity
  split
  · exact seen_fail _
  refine seen_bind (seen_ownedEntry _ _ _) fun workspace _ => ?_
  refine seen_bind (seen_ownedEntry _ _ _) fun git _ => ?_
  refine seen_bind (seen_ownedEntry _ _ _) fun marker _ => ?_
  refine seen_bind seen_io fun value _ => ?_
  split_ifs
  · exact seen_fail _
  · exact seen_pure trivial

theorem trimmed_of_workspace {place : FsPath} {identity : WorkspaceIdentity}
    (howned : OwnedChild t I.workspaceRoot place I.workspaceRootIdentity identity.workspace
      PathNames.workspacePrefix)
    (hmarked : MarkedWorkspace t place identity) (hdiffers : t.DiffersUnder [place] t') : Trimmed I t t' := by
  refine trimmed_of_differs hdiffers fun p hmem => ?_
  obtain rfl := List.mem_singleton.mp hmem
  exact ⟨p,List.prefix_refl p,.inr ⟨howned.child,howned.owned,identity,hmarked⟩⟩

theorem sweeps_visitWorkspace (name : OsName) :
    Sweeps I (WorkspaceAt I name) Entry.isDir t r
      (visitWorkspace O I.workspaceRoot I.workspaceRootIdentity I.workspaceRoot name r) := by
  refine sweeps_of_seen (seen_call _) (fun _ => sweeps_failed _) fun metadata hmetadata => ?_
  simp only
  split_ifs with hkind hname
  · -- something else is under this name
    refine sweeps_pure (swept_idle ?_)
    rintro hclosed place hplace
    obtain ⟨rfl,-⟩ := hplace.1
    have hparent := hclosed _ (lookup_ne_none_of_stale hplace)
    have hdir := hplace.2
    rw [(symlinkMetadata_of_dirs hparent).mp hmetadata] at hdir
    cases metadata with
    | dir identity writable => simp [Entry.isSymlink,Entry.isDir] at hkind
    | file identity content => simp [Entry.isDir] at hdir
    | symlink identity absolute target => simp [Entry.isDir] at hdir
  · exact sweeps_pure (swept_idle fun _ place hplace => by simp [hplace.1.2] at hname)
  refine sweeps_of_seen (seen_call _) (fun _ => sweeps_failed _) fun canonical _ => ?_
  simp only
  split_ifs
  · exact sweeps_failed _
  refine sweeps_of_seen (seen_captureWorkspaceIdentity _) (fun _ => sweeps_failed _) fun identity _ => ?_
  refine triple_bind (Q := fun result d => match result with
      | .ok () => OwnedChild t I.workspaceRoot (I.workspaceRoot ++ [name]) I.workspaceRootIdentity
          identity.workspace PathNames.workspacePrefix ∧
        MarkedWorkspace t (I.workspaceRoot ++ [name]) identity ∧ t.Pruned [I.workspaceRoot ++ [name]] d.tree
      | .error _ => Trimmed I t d.tree)
    (triple_attempt (triple_removeOwnedWorkspacePath _ _ _ _) ?_ ?_) fun result => ?_
  · exact fun _ _ hd => hd
  · rintro _ d (hd | ⟨howned,hmarked,hdiffers⟩)
    · show Trimmed I t d.tree
      rw [hd]
      exact Std.Refl.refl t
    · exact trimmed_of_workspace howned hmarked hdiffers
  · cases result with
    | error reason => exact triple_pure fun d hd => swept_failed hd reason
    | ok _ =>
      refine triple_pure ?_
      rintro d ⟨howned,hmarked,hpruned⟩
      refine swept_cleaned (trimmed_of_workspace howned hmarked hpruned.differs) (fun _ => hpruned)
        fun place => ⟨fun hplace => hplace.1.1,?_⟩
      rintro rfl
      obtain ⟨-,writable,hlookup⟩ := howned.real
      exact ⟨⟨rfl,by simpa using hname⟩,by simp [hlookup,Entry.isDir]⟩

theorem sweeps_cleanupStaleWorkspaces :
    Sweeps I (fun place => ∃ name, WorkspaceAt I name place) Entry.isDir t {}
      (cleanupStaleWorkspaces O I.workspaceRoot I.workspaceRootIdentity) := by
  refine sweeps_of_seen (seen_validateRootIdentity _ _) (fun _ => sweeps_failed _) fun _ _ => ?_
  refine sweeps_of_seen (seen_validateRootIdentity _ _) (fun _ => sweeps_failed _) fun _ hroot => ?_
  refine sweeps_of_seen (seen_readDir _) (fun _ => sweeps_failed _) fun entries hread => ?_
  refine (triple_visitEntries _ _ (fun t => seen_pure trivial)
    (fun name t r => sweeps_visitWorkspace name) ?_ entries).post ?_ fun _ _ hd => hd
  · rintro a b p q ⟨rfl,-⟩ ⟨rfl,-⟩ hle
    exact hle.eq_of_length (by simp)
  · refine fun r' d hd => hd.1.congr fun _ hf place => ?_
    refine ⟨fun ⟨⟨name,_,hplace⟩,hkind⟩ => ⟨⟨name,hplace⟩,hkind⟩,?_⟩
    rintro ⟨⟨name,rfl,hname⟩,hkind⟩
    have hlookup := lookup_ne_none_of_stale (P := fun _ => True) ⟨trivial,hkind⟩
    exact ⟨⟨name,mem_listing hroot.1 hread (hd.2 hf) hlookup,rfl,hname⟩,hkind⟩

/-! ### The passes return -/

theorem total_visitEntries {check : Op Unit} {visit : OsName → CleanupReport → Pass CleanupReport}
    (hcheck : Total check) (hvisit : ∀ name r, Total (visit name r)) (root directory : FsPath)
    (entries : List (Except IoError OsName)) (r : CleanupReport) :
    Total (visitEntries root check directory visit entries r) := by
  induction entries generalizing r with
  | nil => exact total_pure _
  | cons entry entries ih =>
    refine total_bind (total_attempt hcheck) fun result => ?_
    cases result with
    | error reason => exact total_pure _
    | ok _ =>
      cases entry with
      | error error => exact ih _
      | ok name => exact total_bind (hvisit name r) fun _ => ih _

theorem total_step {α ε : Type} {m : Prog FsDisk ε α} {f : Except ε α → Pass CleanupReport} (hm : Total m)
    (herror : ∀ e, ∃ r, f (.error e) = pure r) (hok : ∀ a, Total (f (.ok a))) : Total (attempt m >>= f) := by
  refine total_bind (total_attempt hm) fun result => ?_
  cases result with
  | error e =>
    obtain ⟨r,hr⟩ := herror e
    rw [hr]
    exact total_pure r
  | ok a => exact hok a

theorem total_visitStaging (root : FsPath) (rootIdentity : FsIdentity) (repositoryRoot : FsPath)
    (identity : FsIdentity) (name : OsName) (r : CleanupReport) :
    Total (visitStaging O processId root rootIdentity repositoryRoot identity name r) := by
  unfold visitStaging
  split_ifs
  · exact total_pure _
  · exact total_step (total_validateCacheStagingPath _ _ _ _) (fun _ => ⟨_,rfl⟩) fun _ =>
      total_step (total_removeOwnedCacheStagingPath _ _ _ _ _ _) (fun _ => ⟨_,rfl⟩) fun _ => total_pure _

theorem total_visitCacheNamespace (root : FsPath) (rootIdentity : FsIdentity) (repositoryRoot : FsPath)
    (identity : FsIdentity) (r : CleanupReport) :
    Total (visitCacheNamespace O processId root rootIdentity repositoryRoot identity r) := by
  refine total_step (total_validateCacheNamespace _ _ _) (fun _ => ⟨_,rfl⟩) fun _ => ?_
  simp only
  split_ifs
  · exact total_pure _
  · exact total_step (total_readDir _) (fun _ => ⟨_,rfl⟩) fun _ =>
      total_visitEntries (total_validateRootIdentity _ _) (fun _ _ => total_visitStaging _ _ _ _ _ _ _) _ _ _ _

theorem total_visitNamespace (root : FsPath) (rootIdentity : FsIdentity) (name : OsName) (r : CleanupReport) :
    Total (visitNamespace O processId root rootIdentity name r) := by
  unfold visitNamespace
  split_ifs
  · exact total_pure _
  refine total_step (total_reading _) (fun _ => ⟨_,rfl⟩) fun _ => ?_
  simp only
  split_ifs
  · exact total_pure _
  refine total_step (total_validateCacheNamespace _ _ _) (fun _ => ⟨_,rfl⟩) fun _ => ?_
  simp only
  split_ifs
  · exact total_pure _
  · exact total_visitCacheNamespace _ _ _ _ _ _

theorem total_visitWorkspace (root : FsPath) (rootIdentity : FsIdentity) (directory : FsPath) (name : OsName)
    (r : CleanupReport) : Total (visitWorkspace O root rootIdentity directory name r) := by
  refine total_step (total_reading _) (fun _ => ⟨_,rfl⟩) fun _ => ?_
  simp only
  split_ifs
  · exact total_pure _
  · exact total_pure _
  refine total_step (total_reading _) (fun _ => ⟨_,rfl⟩) fun _ => ?_
  simp only
  split_ifs
  · exact total_pure _
  · exact total_step (total_captureWorkspaceIdentity _) (fun _ => ⟨_,rfl⟩) fun _ =>
      total_step (total_removeOwnedWorkspacePath _ _ _ _) (fun _ => ⟨_,rfl⟩) fun _ => total_pure _

theorem total_cleanupStaleCacheStaging (root : FsPath) (rootIdentity : FsIdentity) :
    Total (cleanupStaleCacheStaging O processId root rootIdentity) :=
  total_step (total_validateRootIdentity _ _) (fun _ => ⟨_,rfl⟩) fun _ =>
    total_step (total_readDir _) (fun _ => ⟨_,rfl⟩) fun _ =>
      total_visitEntries (total_validateRootIdentity _ _) (fun _ _ => total_visitNamespace _ _ _ _ _) _ _ _ _

theorem total_cleanupStaleWorkspaces (root : FsPath) (rootIdentity : FsIdentity) :
    Total (cleanupStaleWorkspaces O root rootIdentity) :=
  total_step (total_validateRootIdentity _ _) (fun _ => ⟨_,rfl⟩) fun _ =>
    total_step (total_validateRootIdentity _ _) (fun _ => ⟨_,rfl⟩) fun _ =>
      total_step (total_readDir _) (fun _ => ⟨_,rfl⟩) fun _ =>
        total_visitEntries (total_pure _) (fun _ _ => total_visitWorkspace _ _ _ _ _) _ _ _ _

theorem total_startupCleanup (gate : CleanupGate.CleanupGateState) :
    Total (startupCleanup O processId I gate) := by
  unfold startupCleanup
  cases CleanupGate.beginCleanup gate with
  | error reason => exact total_pure _
  | ok _ =>
    exact total_bind (total_cleanupStaleCacheStaging _ _ _) fun _ =>
      total_bind (total_cleanupStaleWorkspaces _ _) fun _ => total_pure _

/-! ### The whole cleanup -/

/-- What a run before has left: the staging directories in the namespaces of the cache, and the
checkouts. -/
def LeftBehind (I : RepositoryInspector) (t : FsTree) (place : FsPath) : Prop :=
  Stale (fun place => ∃ name, StagingIn I name place) (fun _ => true) t place ∨
    Stale (fun place => ∃ name, WorkspaceAt I name place) Entry.isDir t place

theorem triple_startupCleanup (gate : CleanupGate.CleanupGateState) :
    Triple (fun d => d.tree = t) (startupCleanup O processId I gate)
      (fun r d => Trimmed I t d.tree ∧ (t.Closed → r.failures = [] →
        t.Pruned r.removed d.tree ∧ ∀ place, place ∈ r.removed ↔ LeftBehind I t place)) fun _ _ => False := by
  unfold startupCleanup
  cases CleanupGate.beginCleanup gate with
  | error reason =>
    refine triple_pure ?_
    rintro d rfl
    exact ⟨Std.Refl.refl _,fun _ hf => by simp at hf⟩
  | ok _ =>
    refine triple_bind (sweeps_cleanupStaleCacheStaging processId) fun cache => ?_
    refine triple_each fun t₁ hcache => ?_
    refine triple_bind sweeps_cleanupStaleWorkspaces fun workspaces => triple_pure fun d hworkspaces => ?_
    refine ⟨IsTrans.trans _ _ _ hcache.trimmed hworkspaces.trimmed,fun hclosed hf => ?_⟩
    obtain ⟨hcacheClean,hworkspacesClean⟩ := List.append_eq_nil_iff.mp hf
    obtain ⟨gone,hgone,hpruned,hstale⟩ := hcache.gone hclosed hcacheClean
    obtain ⟨gone',hgone',hpruned',hstale'⟩ := hworkspaces.gone (hpruned.closed hclosed) hworkspacesClean
    have hremoved : (cache.append workspaces).removed = gone ++ gone' := by
      simp only [CleanupReport.append,hgone,hgone',List.nil_append]
    rw [hremoved]
    refine ⟨hpruned.trans hpruned',fun place => ?_⟩
    rw [List.mem_append,hstale,hstale',LeftBehind]
    refine or_congr_right (and_congr_right fun ⟨name,hplace,_⟩ => ?_)
    -- the first pass has taken nothing from under the workspace root
    rw [hpruned.differs place fun q hq hle => ?_]
    obtain ⟨namespaceName,-,child,rfl,-⟩ := ((hstale q).mp hq).1
    refine apart_roots (I := I) (p := place) ?_ (hplace ▸ List.prefix_append _ _)
    exact ((List.prefix_append _ _).trans (List.prefix_append _ _)).trans hle

/-- Whatever fails in it, the cleanup returns its report, and it has touched nothing but the
staging directories in the cache and the marked checkouts in the workspace root. -/
theorem startupCleanup_touches_slated (I : RepositoryInspector) (O : Outcomes OsName) (processId : ℕ)
    (gate : CleanupGate.CleanupGateState) (d : FsDisk) :
    ∃ report d', (startupCleanup O processId I gate).exec d = some (.ok report,d') ∧
      ∀ p, d'.tree.lookup p ≠ d.tree.lookup p → Slated I d.tree p := by
  obtain ⟨⟨result,d'⟩,hrun⟩ := Option.ne_none_iff_exists'.mp (total_startupCleanup processId (O := O) (I := I) gate d)
  cases result with
  | error e => exact e.elim
  | ok report => exact ⟨report,d',hrun,((triple_startupCleanup processId gate).ok rfl hrun).1⟩

/-- After a report without a failure, what runs before have left is gone and reported, and the
rest of the tree is as it was. -/
theorem clean_startupCleanup_exact {gate : CleanupGate.CleanupGateState} {d d' : FsDisk} {report : CleanupReport}
    (hclosed : d.tree.Closed) (hrun : (startupCleanup O processId I gate).exec d = some (.ok report,d'))
    (hclean : report.failures = []) : d.tree.Pruned report.removed d'.tree ∧
      ∀ place, place ∈ report.removed ↔ LeftBehind I d.tree place :=
  ((triple_startupCleanup processId gate).ok rfl hrun).2 hclosed hclean

end

namespace Sample

def cacheChild (names : List String) : FsPath := .text "cache"::names.map .text

def workspaceChild (names : List String) : FsPath := .text "workspaces"::names.map .text

/-- A cache with a staging directory, and a checkout beside a file that is none. -/
def tree : FsTree where
  entries := [
    (cacheChild [],.dir ⟨1,1⟩ true),
    (cacheChild ["id-61"],.dir ⟨1,2⟩ true),
    (cacheChild ["id-61","source.git"],.dir ⟨1,3⟩ true),
    (cacheChild ["id-61",".source-7-0"],.dir ⟨1,4⟩ true),
    (cacheChild ["id-61",".source-7-0","HEAD"],.file ⟨1,5⟩ [114]),
    (workspaceChild [],.dir ⟨1,6⟩ true),
    (workspaceChild ["workspace-a"],.dir ⟨1,7⟩ true),
    (workspaceChild ["workspace-a",".git"],.dir ⟨1,8⟩ true),
    (workspaceChild ["workspace-a",".git",workspaceMarker],.file ⟨1,9⟩ (Text.asBytes "workspace-a")),
    (workspaceChild ["notes"],.file ⟨1,10⟩ [110])]

def inspector : RepositoryInspector where
  cacheRoot := cacheChild []
  cacheRootIdentity := ⟨1,1⟩
  workspaceRoot := workspaceChild []
  workspaceRootIdentity := ⟨1,6⟩
  apart := by decide

def outcomes : Outcomes OsName where
  fault _ := none
  truthful := by simp
  listing _ names := names.map .ok
  complete := by simp
  left _ _ := false

def disk : FsDisk := { tree := tree }

def removed : List FsPath := [cacheChild ["id-61",".source-7-0"],workspaceChild ["workspace-a"]]

theorem tree_closed : tree.Closed := closed_of_entries (by decide +kernel)

end Sample

theorem sample_startupCleanup_exact :
    ∃ d' : FsDisk, Sample.disk.tree.Pruned Sample.removed d'.tree ∧
      ∀ place, place ∈ Sample.removed ↔ LeftBehind Sample.inspector Sample.disk.tree place := by
  obtain ⟨report,d',hrun,-⟩ := startupCleanup_touches_slated Sample.inspector Sample.outcomes 9 {} Sample.disk
  have hreport : report = ⟨Sample.removed,[]⟩ := by
    have hmap : ((startupCleanup Sample.outcomes 9 Sample.inspector {}).exec Sample.disk).map Prod.fst =
        some (.ok ⟨Sample.removed,[]⟩) := by decide +kernel
    simpa [hrun] using hmap
  subst hreport
  exact ⟨d',clean_startupCleanup_exact 9 Sample.tree_closed hrun rfl⟩

end Inspection
end North
