import North.InspectionRuns

/-! The review of the authorised repositories at the start of a session. Each is inspected in turn,
and the agent gets to see what Git shows of files at the commit that was inspected. -/
namespace North
namespace Inspection

open Prog FileTree
open North.Runtime (InspectionError InspectionPhase RepositorySource BoundedGitOutput EvidenceBudget
  SourceFileEvidence RepositoryEvidence RuntimeOperationError)
open North.AssessmentHandoff (RepositoryReview)
open PathNames (InspectionRequest)

abbrev Extracting (α : Type) := Prog FsDisk String α

abbrev Reviewing (α : Type) := Prog FsDisk RuntimeOperationError α

section

variable (E : Surroundings) (I : RepositoryInspector)

/-! ### The extraction -/

/-- A look at the flag of the operation, which the inspection shares. -/
def ensureNotRequested : Extracting Unit := do
  if ← isCancelled E then fail "inspection cancelled" else pure ()

def readBounded (w : PreparedWorkspace) (authorization : RunAuthorization) (args : List String)
    (maxOutputBytes : ℕ) : Extracting BoundedGitOutput :=
  mapError InspectionError.text (readGitBounded E w authorization args maxOutputBytes)

def showArgs (w : PreparedWorkspace) (path : String) : List String :=
  ["show","--format=","--no-ext-diff",w.commitSha ++ ":" ++ path]

/-- The loop of `extract_repository_evidence` over the candidates. -/
def extractLoop (w : PreparedWorkspace) (authorization : RunAuthorization) (budget : EvidenceBudget) :
    List (List UInt8) → (files : List SourceFileEvidence) → (evidenceBytes : ℕ) →
      Extracting (List SourceFileEvidence)
  | [], files, _ => pure files
  | pathBytes::paths, files, evidenceBytes =>
    if budget.maxFiles ≤ files.length ∨ budget.maxBytes ≤ evidenceBytes then pure files
    else do
      ensureNotRequested E
      match Runtime.fromUtf8 pathBytes with
      | none => extractLoop w authorization budget paths files evidenceBytes
      | some path =>
        if path.toUTF8.data.contains 0 then fail "repository file path contains NUL"
        else do
          let contentLimit := min (budget.maxBytes-evidenceBytes) Runtime.maxEvidenceFileBytes
          if contentLimit = 0 then pure files
          else do
            let content ← readBounded E w authorization (showArgs w path) contentLimit
            match Runtime.candidateContent content with
            | none => extractLoop w authorization budget paths files evidenceBytes
            | some content =>
              let entryBytes := path.utf8ByteSize+content.utf8ByteSize
              if budget.maxBytes < evidenceBytes+entryBytes then
                extractLoop w authorization budget paths files evidenceBytes
              else
                extractLoop w authorization budget paths (files ++ [⟨path,content⟩]) (evidenceBytes+entryBytes)

def extractRepositoryEvidence (w : PreparedWorkspace) (authorization : RunAuthorization)
    (budget : EvidenceBudget) : Extracting RepositoryEvidence := do
  ensureNotRequested E
  let listing ← readBounded E w authorization ["ls-files","--cached","-z"] Runtime.maxEvidenceListBytes
  let paths := Runtime.listedPaths listing
  let files ← extractLoop E w authorization budget.bounded (paths.take budget.bounded.maxCandidates) []
    (w.repositoryId.utf8ByteSize+w.commitSha.utf8ByteSize)
  if paths.isEmpty then fail "repository contains no tracked source files"
  else if files.isEmpty then
    fail "no usable repository source evidence found within bounded candidate scan"
  else do
    ensureNotRequested E
    pure ⟨w.repositoryId,w.commitSha,files⟩

/-- The callback of `inspect_repository`. -/
def evidenceCallback (authorization : RunAuthorization) (budget : EvidenceBudget) : Callback RepositoryEvidence :=
  fun w => mapError .returned do
    ensureNotRequested E
    let bundle ← extractRepositoryEvidence E w authorization budget
    ensureNotRequested E
    pure bundle

/-! ### The review -/

def checkCancellation : Reviewing Unit := do
  if ← isCancelled E then fail .cancelled else pure ()

/-- `.map_err(|error| classify_inspection_error(control, error))`. -/
def classified {α : Type} (m : Inspecting α) : Reviewing α :=
  handling m fun error => do
    if ← isCancelled E then fail .cancelled
    else if error.phase = .cancellation then fail .cancelled
    else fail (.failed error.text)

/-- A run that reviews repositories. -/
structure ReviewInput where
  sessionId : String
  operationId : String
  authorization : RunAuthorization
  deriving DecidableEq, Repr

def ReviewInput.request (input : ReviewInput) (source : RepositorySource) : InspectionRequest :=
  ⟨input.sessionId,input.operationId,source⟩

def inspectRepository (input : ReviewInput) (source : RepositorySource) (budget : EvidenceBudget) :
    Reviewing (RepositoryReview × RepositoryEvidence) := do
  checkCancellation E
  let w ← classified E (prepareAuthorizedWithCancellation E I (input.request source) input.authorization)
  -- a flag that is seen here is the one of the inspection already
  let _ ← isCancelled E
  let (inspection,evidence) ← classified E
    (inspectPreparedWithCancellation E w (evidenceCallback E input.authorization budget))
  match evidence with
  | none => fail (.failed "repository source inspection produced no evidence")
  | some evidence =>
    if evidence.repositoryId ≠ inspection.repositoryId ∨ evidence.commitSha ≠ inspection.commitSha then
      fail (.failed "repository evidence identity did not match inspected revision")
    else pure (⟨inspection.repositoryId,inspection.commitSha⟩,evidence)

def reviewRepositories (input : ReviewInput) : List RepositorySource →
    (remainingBytes remainingFiles remainingRepositories : ℕ) →
      Reviewing (List (RepositoryReview × RepositoryEvidence))
  | [], _, _, _ => pure []
  | source::sources, remainingBytes, remainingFiles, remainingRepositories => do
    checkCancellation E
    let budget ← orFail
      (Runtime.allocateRepositoryEvidenceBudget remainingBytes remainingFiles remainingRepositories)
    let inspected ← inspectRepository E I input source budget
    let (bundleBytes,bundleFiles) := Runtime.evidenceSize inspected.2
    if budget.maxBytes < bundleBytes ∨ budget.maxFiles < bundleFiles then
      fail (.failed "internal clarification repository evidence budget invariant violated")
    else if remainingBytes < bundleBytes then
      fail (.failed "internal clarification repository evidence byte accounting underflow")
    else if remainingFiles < bundleFiles then
      fail (.failed "internal clarification repository evidence file accounting underflow")
    else do
      let rest ← reviewRepositories input sources (remainingBytes-bundleBytes) (remainingFiles-bundleFiles)
        (remainingRepositories-1)
      pure (inspected::rest)

/-- The part of `start` between the two writes of the context. -/
def review (sessionId operationId : String) (repositories : List Runtime.AuthorizedRepository) :
    Reviewing (List (RepositoryReview × RepositoryEvidence)) := do
  let sources ← orFail (repositories.mapM Runtime.sourceForRepository)
  orFail (Runtime.inspectionFailed (Runtime.authorizeRun sessionId sources))
  let reviewed ← reviewRepositories E I ⟨sessionId,operationId,⟨sessionId,sources⟩⟩ sources
    Runtime.maxTotalEvidenceBytes Runtime.maxTotalEvidenceFiles sources.length
  checkCancellation E
  pure reviewed

end

/-! ### Reading a checkout -/

section

variable {E : Surroundings} {I : RepositoryInspector} {t t' : FsTree} {w : PreparedWorkspace}
  {authorization : RunAuthorization} {budget : EvidenceBudget}

theorem allowed_command {args : List String} (h : readGitAllowed args = true) :
    ∃ command rest, args = command::rest ∧ command ≠ "clone" := by
  cases args with
  | nil => cases h
  | cons command rest =>
    refine ⟨command,rest,rfl,?_⟩
    rintro rfl
    simp [readGitAllowed,readOnlyGitCommands] at h

/-- Git has printed this in the checkout, with the identity and the configuration that it was
prepared with. -/
structure ReadAt (E : Surroundings) (w : PreparedWorkspace) (args : List String) (output : List UInt8)
    (t : FsTree) : Prop where
  marked : MarkedWorkspace t w.path w.workspaceIdentity
  config : t.read (configPath w.path) = .ok w.gitConfig
  printed : ∃ t', Printed E w.path (args.map .text) t output t'

theorem keeps_readGitBounded (args : List String) (max : ℕ) :
    Keeps (Without w.path) t (readGitBounded E w authorization args max)
      (fun output _ => output.truncated = false → ReadAt E w args output.bytes t) fun _ _ => True := by
  refine keeps_after (seen_orFail (Q := fun _ => True) fun _ _ => trivial) (fun _ => trivial) fun _ _ => ?_
  refine keeps_after (seen_mapError _ (seen_validateWorkspacePath _ _ _)) (fun _ => trivial) ?_
  rintro _ ⟨_,howned⟩
  have hparent := howned.real.1.initial ( List.dropLast_prefix w.path)
  refine keeps_after (seen_mapError _ (seen_validateGitConfig hparent)) (fun _ => trivial) fun _ hconfig => ?_
  split_ifs with hallowed
  · exact keeps_fail trivial
  obtain ⟨command,rest,rfl,hcommand⟩ := allowed_command (by simpa using hallowed)
  obtain ⟨name,hname,-⟩ := howned.child
  have hspawn : Seen t (validateSpawn E (w.workspaces.path ++ [name]) w.workspaces (some w.workspaceIdentity) none)
      fun _ => MarkedWorkspace t (w.workspaces.path ++ [name]) w.workspaceIdentity := seen_validateSpawn_workspace
  rw [← hname] at hspawn
  have hagree : ∀ t', Commanded E w.path ((command::rest).map .text) t t' → t.Agree (Without w.path) t' :=
    fun _ hran => (hran.agree hcommand howned.real.1).mono fun _ hp => hp.beside
  refine triple_mapError ((triple_gitOutputManaged hspawn _ _ _ _).post ?_ ?_)
  · rintro output d ⟨-,hran,hwhole,-⟩
    exact ⟨hagree _ hran,fun hfull => ⟨hconfig.1,hconfig.2,d.tree,hwhole hfull⟩⟩
  · rintro _ d (rfl | ⟨-,hran⟩)
    · exact ⟨.refl _,trivial⟩
    · exact ⟨hagree _ hran,trivial⟩

theorem keeps_readBounded (args : List String) (max : ℕ) :
    Keeps (Without w.path) t (readBounded E w authorization args max) (fun _ _ => True) fun _ _ => True :=
  keeps_mapError ((keeps_readGitBounded args max).post (fun _ _ _ _ => trivial) fun _ _ _ _ => trivial)

theorem yields_readBounded (args : List String) (max : ℕ) :
    Yields (fun output => output.truncated = false → ∃ t, ReadAt E w args output.bytes t)
      (readBounded E w authorization args max) :=
  yields_mapError _ fun d _ _ hexec hwhole => ⟨d.tree,((keeps_readGitBounded args max).ok rfl hexec).2 hwhole⟩

theorem seen_ensureNotRequested : Seen t (ensureNotRequested E) fun _ => True := by
  refine seen_bind seen_isCancelled fun cancelled _ => ?_
  split_ifs
  · exact seen_fail _
  · exact seen_pure trivial

/-! ### The extraction -/

theorem keeps_extractLoop (paths : List (List UInt8)) (files : List SourceFileEvidence) (evidenceBytes : ℕ) :
    Keeps (Without w.path) t (extractLoop E w authorization budget paths files evidenceBytes) (fun _ _ => True)
      fun _ _ => True := by
  induction paths generalizing t files evidenceBytes with
  | nil => exact keeps_pure trivial
  | cons pathBytes paths ih =>
    unfold extractLoop
    split_ifs
    · exact keeps_pure trivial
    refine keeps_after seen_ensureNotRequested (fun _ => trivial) fun _ _ => ?_
    cases Runtime.fromUtf8 pathBytes with
    | none => exact ih _ _
    | some path =>
      dsimp only
      split_ifs
      · exact keeps_fail trivial
      · exact keeps_pure trivial
      refine keeps_bind (keeps_readBounded _ _) fun content t' _ _ => ?_
      cases Runtime.candidateContent content with
      | none => exact ih _ _
      | some content =>
        dsimp only
        split_ifs
        · exact ih _ _
        · exact ih _ _

/-- A file of the evidence is what Git shows of its path at the commit of the checkout. -/
def Shown (E : Surroundings) (w : PreparedWorkspace) (file : SourceFileEvidence) : Prop :=
  ∃ t bytes, ReadAt E w (showArgs w file.path) bytes t ∧ Runtime.fromUtf8 bytes = some file.content

theorem candidateContent_eq_some {content : BoundedGitOutput} {text : String}
    (h : Runtime.candidateContent content = some text) :
    content.truncated = false ∧ Runtime.fromUtf8 content.bytes = some text := by
  unfold Runtime.candidateContent at h
  split_ifs at h with hskip
  simp only [Bool.or_eq_true,not_or,Bool.not_eq_true] at hskip
  exact ⟨hskip.1,h⟩

theorem yields_extractLoop (paths : List (List UInt8)) {files : List SourceFileEvidence} (evidenceBytes : ℕ)
    (hfiles : ∀ file ∈ files, Shown E w file) :
    Yields (fun files => ∀ file ∈ files, Shown E w file)
      (extractLoop E w authorization budget paths files evidenceBytes) := by
  induction paths generalizing files evidenceBytes with
  | nil => exact yields_pure hfiles
  | cons pathBytes paths ih =>
    unfold extractLoop
    split_ifs
    · exact yields_pure hfiles
    refine yields_of_rest fun _ => ?_
    cases Runtime.fromUtf8 pathBytes with
    | none => exact ih _ hfiles
    | some path =>
      dsimp only
      split_ifs
      · exact yields_fail _
      · exact yields_pure hfiles
      refine yields_bind (yields_readBounded _ _) fun content hcontent => ?_
      cases hcandidate : Runtime.candidateContent content with
      | none => exact ih _ hfiles
      | some text =>
        dsimp only
        split_ifs
        · exact ih _ hfiles
        refine ih _ fun file hmem => ?_
        rcases List.mem_append.mp hmem with hmem | hmem
        · exact hfiles file hmem
        · obtain rfl := List.mem_singleton.mp hmem
          obtain ⟨hwhole,htext⟩ := candidateContent_eq_some hcandidate
          obtain ⟨t,hread⟩ := hcontent hwhole
          exact ⟨t,content.bytes,hread,htext⟩

/-- Evidence of the checkout. -/
structure EvidenceOf (E : Surroundings) (w : PreparedWorkspace) (bundle : RepositoryEvidence) : Prop where
  repositoryId : bundle.repositoryId = w.repositoryId
  commitSha : bundle.commitSha = w.commitSha
  nonempty : bundle.files ≠ []
  shown : ∀ file ∈ bundle.files, Shown E w file

theorem yields_evidenceCallback :
    Yields (EvidenceOf E w) (evidenceCallback E authorization budget w) := by
  have hbundle : Yields (EvidenceOf E w) (extractRepositoryEvidence E w authorization budget) := by
    refine yields_of_rest fun _ => yields_of_rest fun listing => ?_
    refine yields_bind (yields_extractLoop _ _ (by simp)) fun files hfiles => ?_
    split_ifs with hpaths hempty
    · exact yields_fail _
    · exact yields_fail _
    · exact yields_of_rest fun _ => yields_pure ⟨rfl,rfl,by simpa using hempty,hfiles⟩
  exact yields_mapError _ (yields_of_rest fun _ => yields_bind hbundle fun bundle hof =>
    yields_of_rest fun _ => yields_pure hof)

theorem total_readBounded (args : List String) (max : ℕ) : Total (readBounded E w authorization args max) := by
  refine total_mapError _ (total_bind (total_orFail _) fun _ => ?_)
  refine total_bind (total_mapError _ (total_validateWorkspacePath _ _ _)) fun _ => ?_
  refine total_bind (total_mapError _ (total_bind (total_validateWorkspaceIdentityAt _ _) fun _ =>
    total_bind total_readGitConfig fun _ => total_refuse (total_pure _))) fun _ => ?_
  exact total_refuse (total_mapError _ (total_gitOutputManaged _ _ _ _ _ _ _ _))

theorem total_ensureNotRequested : Total (ensureNotRequested E) :=
  total_bind total_isCancelled fun _ => total_refuse (total_pure _)

theorem total_extractLoop (paths : List (List UInt8)) (files : List SourceFileEvidence) (evidenceBytes : ℕ) :
    Total (extractLoop E w authorization budget paths files evidenceBytes) := by
  induction paths generalizing files evidenceBytes with
  | nil => exact total_pure _
  | cons pathBytes paths ih =>
    refine total_ite (total_pure _) (total_bind total_ensureNotRequested fun _ => ?_)
    cases Runtime.fromUtf8 pathBytes with
    | none => exact ih _ _
    | some path =>
      refine total_refuse (total_ite (total_pure _) (total_bind (total_readBounded _ _) fun content => ?_))
      cases Runtime.candidateContent content with
      | none => exact ih _ _
      | some content => exact total_ite (ih _ _) (ih _ _)

theorem courteous_evidenceCallback : Courteous (evidenceCallback E authorization budget) where
  returns w := by
    refine total_mapError _ (total_bind total_ensureNotRequested fun _ => total_bind ?_ fun _ =>
      total_bind total_ensureNotRequested fun _ => total_pure _)
    refine total_bind total_ensureNotRequested fun _ => total_bind (total_readBounded _ _) fun _ => ?_
    refine total_bind (total_extractLoop _ _ _) fun _ => total_refuse (total_refuse ?_)
    exact total_bind total_ensureNotRequested fun _ => total_pure _
  confined w t := by
    refine keeps_mapError (keeps_after seen_ensureNotRequested (fun _ => trivial) fun _ _ => ?_)
    refine keeps_bind (Q := fun _ _ => True) (R := fun _ _ => True) ?_ fun _ t' _ _ =>
      keeps_after seen_ensureNotRequested (fun _ => trivial) fun _ _ => keeps_pure trivial
    refine keeps_after seen_ensureNotRequested (fun _ => trivial) fun _ _ => ?_
    refine keeps_bind (keeps_readBounded _ _) fun listing t' _ _ => ?_
    refine keeps_bind (keeps_extractLoop _ _ _) fun files t'' _ _ => ?_
    split_ifs
    · exact keeps_fail trivial
    · exact keeps_fail trivial
    · exact keeps_after seen_ensureNotRequested (fun _ => trivial) fun _ _ => keeps_pure trivial

end

/-! ### The review -/

section

variable {E : Surroundings} {I : RepositoryInspector} {t t' : FsTree} {input : ReviewInput}
  {source : RepositorySource} {sources : List RepositorySource}

theorem tidy_of_staging {component component' name : OsName} {q : FsPath} (hname : isCacheStagingName name = true)
    (hle : I.cacheRoot ++ [component'] ++ [name] <+: q) : Tidy (I.cacheRoot ++ [component]) q := by
  constructor
  · rintro rfl
    simpa using hle.length_le
  · intro hcache
    have hsame : I.cacheRoot ++ [component] ++ [sourceName] = I.cacheRoot ++ [component'] ++ [name] :=
      (List.prefix_of_prefix_length_le hcache hle (by simp)).eq_of_length (by simp)
    exact ne_sourceName hname (by simpa using (List.append_inj_right' hsame rfl).symm)

theorem Settled.change (h : Settled I t) (hagree : t.Agree (Tidy (I.repositoryRoot source)) t') : Settled I t' where
  hollow component name q hname hfree hle := by
    rw [hagree _ (tidy_of_staging hname (List.prefix_refl _))] at hfree
    rw [hagree q (tidy_of_staging hname hle)]
    exact h.hollow component name q hname hfree hle
  vacant name q hfree hle := by
    rw [hagree _ (tidy_of_workspaceRoot source (List.prefix_append _ _))] at hfree
    rw [hagree q (tidy_of_workspaceRoot source ((List.prefix_append _ _).trans hle))]
    exact h.vacant name q hfree hle

/-- What the review of a repository stands for: the run may inspect it, the evidence was read in a
checkout of the reviewed commit, and the checkout was intact after that. -/
structure Authentic (E : Surroundings) (I : RepositoryInspector) (input : ReviewInput) (source : RepositorySource)
    (t : FsTree) (inspected : RepositoryReview × RepositoryEvidence) : Prop where
  authorized : Authorized input.authorization input.sessionId source
  reviewed : inspected.1.repositoryId = source.repositoryId
  checkout : ∃ w d₁ d₂ budget, Prepared E I (input.request source) t w d₁.tree ∧
    (evidenceCallback E input.authorization budget w).exec d₁ = some (.ok inspected.2,d₂) ∧
    EvidenceOf E w inspected.2 ∧ Intact E w d₂.tree ∧ w.commitSha = inspected.1.commitSha

theorem seen_checkCancellation : Seen t (checkCancellation E) fun _ => True := by
  refine seen_bind seen_isCancelled fun cancelled _ => ?_
  split_ifs
  · exact seen_fail _
  · exact seen_pure trivial

theorem triple_classified {α : Type} {m : Inspecting α} {P : FsDisk → Prop} {Q : α → FsDisk → Prop}
    {R : InspectionError → FsDisk → Prop} (hm : Triple P m Q R) :
    Triple P (classified E m) Q fun _ _ => True := by
  refine triple_handling hm fun error => triple_each (P := fun _ => True) ?_ |>.pre fun _ _ => trivial
  intro t _
  refine triple_of_seen seen_isCancelled (fun _ _ _ => trivial) fun cancelled _ => ?_
  split_ifs
  · exact triple_fail fun _ _ => trivial
  · exact triple_fail fun _ _ => trivial
  · exact triple_fail fun _ _ => trivial

theorem triple_inspectRepository (hcacheText : Textual I.cacheRoot) (htext : Textual I.workspaceRoot)
    (hsettled : Settled I t) (budget : EvidenceBudget) :
    Triple (fun d => d.tree = t) (inspectRepository E I input source budget)
      (fun inspected d => t.Agree (Tidy (I.repositoryRoot source)) d.tree ∧ Authentic E I input source t inspected)
      fun _ _ => True := by
  refine triple_of_seen seen_checkCancellation (fun _ _ _ => trivial) fun _ _ => ?_
  refine triple_bind (triple_classified (prepares_prepareAuthorized hcacheText htext hsettled _)) fun w => ?_
  refine triple_each (P := fun t₁ => Authorized input.authorization (input.request source).sessionId
    (input.request source).repository ∧ Prepared E I (input.request source) t w t₁) fun t₁ ⟨hauthorized,hprepared⟩ => ?_
  refine triple_of_seen seen_isCancelled (fun _ _ _ => trivial) fun _ _ => ?_
  refine triple_bind (triple_classified (triple_inspectPrepared courteous_evidenceCallback hprepared)) ?_
  rintro ⟨inspection,evidence⟩
  cases evidence with
  | none => exact triple_fail fun _ _ => trivial
  | some evidence =>
    dsimp only
    split_ifs with hother
    · exact triple_fail fun _ _ => trivial
    refine triple_pure fun d hd => ?_
    obtain ⟨hleft,w',d₁,d₂,out,hprepared',hexec,hintact,hresult⟩ := hd
    obtain ⟨rfl,rfl⟩ : inspection = ⟨w'.repositoryId,w'.commitSha⟩ ∧ evidence = out := by simpa using hresult
    refine ⟨hleft.tidy trivial hsettled,hauthorized,hprepared'.repositoryId,w',d₁,d₂,budget,hprepared',hexec,?_,hintact,rfl⟩
    exact yields_evidenceCallback _ _ _ hexec

/-- A review that succeeds has inspected the repositories one after the other, and has changed only
their caches. -/
theorem triple_reviewRepositories (hcacheText : Textual I.cacheRoot) (htext : Textual I.workspaceRoot)
    (hsettled : Settled I t) (remainingBytes remainingFiles remainingRepositories : ℕ) :
    Triple (fun d => d.tree = t) (reviewRepositories E I input sources remainingBytes remainingFiles
        remainingRepositories)
      (fun reviewed d => t.Agree (fun p => ∀ source ∈ sources, Tidy (I.repositoryRoot source) p) d.tree ∧
        List.Forall₂ (fun source inspected => ∃ t', Authentic E I input source t' inspected) sources reviewed)
      fun _ _ => True := by
  induction sources generalizing t remainingBytes remainingFiles remainingRepositories with
  | nil => exact triple_pure fun d hd => ⟨hd ▸ .refl _,.nil⟩
  | cons source sources ih =>
    refine triple_of_seen seen_checkCancellation (fun _ _ _ => trivial) fun _ _ => ?_
    refine triple_of_seen (seen_orFail (Q := fun _ => True) fun _ _ => trivial) (fun _ _ _ => trivial) fun budget _ => ?_
    refine triple_bind (triple_inspectRepository hcacheText htext hsettled budget) fun inspected => ?_
    refine triple_each (P := fun t₁ => t.Agree (Tidy (I.repositoryRoot source)) t₁ ∧
      Authentic E I input source t inspected) fun t₁ ⟨hagree,hauthentic⟩ => ?_
    generalize Runtime.evidenceSize inspected.2 = size
    obtain ⟨bundleBytes,bundleFiles⟩ := size
    dsimp only
    split_ifs
    · exact triple_fail fun _ _ => trivial
    · exact triple_fail fun _ _ => trivial
    · exact triple_fail fun _ _ => trivial
    refine triple_bind (ih (hsettled.change hagree) _ _ _) fun rest => triple_pure fun d hd => ?_
    refine ⟨(hagree.mono fun p hp => hp source (by simp)).trans (hd.1.mono fun p hp other hother => ?_),
      .cons ⟨t,hauthentic⟩ hd.2⟩
    exact hp other (by simp [hother])

/-- The evidence of a review that succeeds is what Git has shown of files at the reviewed commits, in
checkouts of authorised repositories that were intact after it; and the review has left nothing in
the tree but the caches. -/
theorem review_authentic (hcacheText : Textual I.cacheRoot) (htext : Textual I.workspaceRoot)
    {remainingBytes remainingFiles remainingRepositories : ℕ}
    {reviewed : List (RepositoryReview × RepositoryEvidence)} {d d' : FsDisk} (hclosed : d.tree.Closed)
    (hrun : (reviewRepositories E I input sources remainingBytes remainingFiles remainingRepositories).exec d =
      some (.ok reviewed,d')) :
    List.Forall₂ (fun source inspected => ∃ t, Authentic E I input source t inspected) sources reviewed ∧
      ∀ p, d'.tree.lookup p ≠ d.tree.lookup p → ∃ source ∈ sources,
        p = I.repositoryRoot source ∨ I.repositoryRoot source ++ [sourceName] <+: p := by
  have hreview := (triple_reviewRepositories hcacheText htext (settled_of_closed hclosed) _ _ _).ok rfl hrun
  refine ⟨hreview.2,fun p hp => ?_⟩
  by_contra hnot
  refine hp (hreview.1 p fun source hsource => ?_)
  simp only [not_exists,not_and,not_or] at hnot
  exact hnot source hsource

end

namespace Sample

def input : ReviewInput := ⟨"s","t",authorization⟩

def evidence : RepositoryReview × RepositoryEvidence := (⟨"b",commit⟩,⟨"b",commit,[⟨"README","text"⟩]⟩)

end Sample

theorem sample_authentic : ∃ t d', Authentic Sample.surroundings Sample.inspector Sample.input Sample.source t
      Sample.evidence ∧
    (reviewRepositories Sample.surroundings Sample.inspector Sample.input [Sample.source] 4096 4 1).exec Sample.disk =
      some (.ok [Sample.evidence],d') := by
  have hmap : ((reviewRepositories Sample.surroundings Sample.inspector Sample.input [Sample.source] 4096 4 1).exec
      Sample.disk).map Prod.fst = some (.ok [Sample.evidence]) := by decide +kernel
  obtain ⟨⟨_,d'⟩,hrun,rfl⟩ := Option.map_eq_some_iff.mp hmap
  obtain ⟨hreview,-⟩ := review_authentic Sample.textual_cacheRoot Sample.textual_workspaceRoot Sample.tree_closed hrun
  obtain ⟨⟨t,hauthentic⟩,-⟩ := List.forall₂_cons.mp hreview
  exact ⟨t,d',hauthentic,hrun⟩

end Inspection
end North
