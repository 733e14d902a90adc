import North.StartSizes
import Mathlib.Data.List.Sort

/-! The evidence that a run takes from its checkouts. Each of them gets a share of what is left of
two budgets, and the shares never run out before the checkouts do. -/
namespace North
namespace Runtime

open AssessmentHandoff (RepositoryReview)

def maxReasonablePathBytes : ℕ := 4096
def maxEvidenceListBytes : ℕ := maxEvidenceCandidates*(maxReasonablePathBytes+1)
def maxEvidenceFileBytes : ℕ := 8*1024

def EvidenceBudget.bounded (budget : EvidenceBudget) : EvidenceBudget where
  maxCandidates := min budget.maxCandidates maxEvidenceCandidates
  maxFiles := min budget.maxFiles maxEvidenceFiles
  maxBytes := min budget.maxBytes maxEvidenceBytes

structure BoundedGitOutput where
  bytes : List UInt8
  truncated : Bool
  deriving DecidableEq, Repr

/-- A checkout as the extraction meets it. Git answers a command that may write so many bytes, and
`cancelled` tells whether the flag is seen at the look of this number. -/
structure PreparedWorkspace where
  repositoryId : String
  commitSha : String
  lsFiles : (maxOutputBytes : ℕ) → Except String BoundedGitOutput
  gitShow : (object : String) → (maxOutputBytes : ℕ) → Except String BoundedGitOutput
  cancelled : ℕ → Bool

/-- `String::from_utf8` -/
def fromUtf8 (bytes : List UInt8) : Option String := String.fromUTF8? ⟨bytes.toArray⟩

/-- The complete paths of a listing in the order of their bytes. -/
def listedPaths (listing : BoundedGitOutput) : List (List UInt8) :=
  let records := listing.bytes.splitOn 0
  let records := if listing.truncated then records.dropLast else records
  (records.filter fun path => !path.isEmpty).insertionSort (· ≤ ·)

/-- What is kept of one candidate: its text, if that is source text and within the limits. -/
def candidateContent (content : BoundedGitOutput) : Option String :=
  if content.truncated || content.bytes.contains 0 then none else fromUtf8 content.bytes

/-- The loop over the candidates. Lengths of texts are far from the width of `usize`, so that the
saturating sums are sums. -/
def extractFiles (w : PreparedWorkspace) (budget : EvidenceBudget) :
    (k : ℕ) → List (List UInt8) → (files : List SourceFileEvidence) → (evidenceBytes : ℕ) →
      Except String (List SourceFileEvidence)
  | _, [], files, _ => .ok files
  | k, pathBytes::paths, files, evidenceBytes =>
    if budget.maxFiles ≤ files.length ∨ budget.maxBytes ≤ evidenceBytes then .ok files
    else if w.cancelled (k+1) then .error "inspection cancelled"
    else match fromUtf8 pathBytes with
      | none => extractFiles w budget (k+1) paths files evidenceBytes
      | some path =>
        if path.toUTF8.data.contains 0 then .error "repository file path contains NUL"
        else
          let contentLimit := min (budget.maxBytes-evidenceBytes) maxEvidenceFileBytes
          if contentLimit = 0 then .ok files
          else match w.gitShow (w.commitSha ++ ":" ++ path) contentLimit with
            | .error error => .error error
            | .ok content =>
              match candidateContent content with
              | none => extractFiles w budget (k+1) paths files evidenceBytes
              | some content =>
                let entryBytes := path.utf8ByteSize+content.utf8ByteSize
                if budget.maxBytes < evidenceBytes+entryBytes then
                  extractFiles w budget (k+1) paths files evidenceBytes
                else
                  extractFiles w budget (k+1) paths (files ++ [⟨path,content⟩]) (evidenceBytes+entryBytes)

def extractRepositoryEvidence (w : PreparedWorkspace) (budget : EvidenceBudget) :
    Except String RepositoryEvidence :=
  if w.cancelled 0 then .error "inspection cancelled"
  else do
    let budget := budget.bounded
    let listing ← w.lsFiles maxEvidenceListBytes
    let paths := listedPaths listing
    let files ← extractFiles w budget 0 (paths.take budget.maxCandidates) []
      (w.repositoryId.utf8ByteSize+w.commitSha.utf8ByteSize)
    if paths.isEmpty then .error "repository contains no tracked source files"
    else if files.isEmpty then
      .error "no usable repository source evidence found within bounded candidate scan"
    else if w.cancelled (maxEvidenceCandidates+1) then .error "inspection cancelled"
    else .ok ⟨w.repositoryId,w.commitSha,files⟩

/-! ### One checkout -/

def filesBytes (files : List SourceFileEvidence) : ℕ :=
  (files.map fun file => file.path.utf8ByteSize+file.content.utf8ByteSize).sum

@[simp] theorem filesBytes_append (files : List SourceFileEvidence) (file : SourceFileEvidence) :
    filesBytes (files ++ [file]) = filesBytes files+(file.path.utf8ByteSize+file.content.utf8ByteSize) := by
  simp [filesBytes]

/-- The files are within the budget; the count is theirs once there is one, since the identity of the
checkout alone may be too long. -/
structure Kept (budget : EvidenceBudget) (base : ℕ) (files : List SourceFileEvidence) : Prop where
  count : files.length ≤ budget.maxFiles
  bytes : files ≠ [] → base+filesBytes files ≤ budget.maxBytes

theorem extractFiles_kept {w : PreparedWorkspace} {budget : EvidenceBudget} {base k evidenceBytes : ℕ}
    {paths : List (List UInt8)} {files result : List SourceFileEvidence} (hkept : Kept budget base files)
    (hcount : evidenceBytes = base+filesBytes files)
    (h : extractFiles w budget k paths files evidenceBytes = .ok result) : Kept budget base result := by
  fun_induction extractFiles w budget k paths files evidenceBytes with
  | case1 | case2 | case6 =>
    obtain rfl := Except.ok.inj h
    exact hkept
  | case3 | case5 | case7 => cases h
  | case4 _ _ _ _ _ _ _ _ ih => exact ih hkept hcount h
  | case8 _ _ _ _ _ _ _ _ _ _ _ _ _ _ _ ih => exact ih hkept hcount h
  | case9 _ _ _ _ _ _ _ _ _ _ _ _ _ _ _ _ _ _ ih => exact ih hkept hcount h
  | case10 k pathBytes paths files evidenceBytes hroom hcancel path hpath hnul limit hlimit content hshow text htext
      entryBytes hfits ih =>
    refine ih ⟨?_,fun _ => ?_⟩ ?_ h
    · rw [List.length_append,List.length_singleton]
      omega
    · rw [filesBytes_append]
      change ¬budget.maxBytes < evidenceBytes+(path.utf8ByteSize+text.utf8ByteSize) at hfits
      change base+(filesBytes files+(path.utf8ByteSize+text.utf8ByteSize)) ≤ budget.maxBytes
      omega
    · rw [filesBytes_append,hcount,Nat.add_assoc]

theorem extractRepositoryEvidence_ok {w : PreparedWorkspace} {budget : EvidenceBudget} {bundle : RepositoryEvidence}
    (h : extractRepositoryEvidence w budget = .ok bundle) :
    (evidenceSize bundle).1 ≤ budget.bounded.maxBytes ∧ (evidenceSize bundle).2 ≤ budget.bounded.maxFiles ∧
      bundle.files ≠ [] := by
  rw [extractRepositoryEvidence] at h
  by_cases hcancelled : w.cancelled 0 = true
  · rw [if_pos hcancelled] at h
    cases h
  rw [if_neg hcancelled] at h
  obtain ⟨listing,-,h⟩ := bind_eq_ok.mp h
  obtain ⟨files,hfiles,h⟩ := bind_eq_ok.mp h
  split_ifs at h with hpaths hempty
  obtain rfl := Except.ok.inj h
  have hkept : Kept budget.bounded (w.repositoryId.utf8ByteSize+w.commitSha.utf8ByteSize) files :=
    extractFiles_kept ⟨Nat.zero_le _,fun hne => absurd rfl hne⟩ rfl hfiles
  have hne : files ≠ [] := by simpa using hempty
  exact ⟨hkept.bytes hne,hkept.count,hne⟩

/-! ### Shares -/

/-- There is a byte and a file left for each checkout. -/
structure Covers (bytes files repositories : ℕ) : Prop where
  bytes : repositories ≤ bytes
  files : repositories ≤ files

theorem allocate_ok {bytes files repositories : ℕ} {budget : EvidenceBudget} :
    allocateRepositoryEvidenceBudget bytes files repositories = .ok budget ↔
      repositories ≠ 0 ∧ Covers bytes files repositories ∧
        budget = ⟨maxEvidenceCandidates,min (files/repositories) maxEvidenceFiles,
          min (bytes/repositories) maxEvidenceBytes⟩ := by
  simp only [allocateRepositoryEvidenceBudget]
  constructor
  · intro h
    split_ifs at h with hshort
    obtain rfl := Except.ok.inj h
    exact ⟨by omega,⟨by omega,by omega⟩,rfl⟩
  · rintro ⟨hne,hcovers,rfl⟩
    have hbytes : 0 < bytes/repositories := Nat.div_pos hcovers.bytes (Nat.pos_of_ne_zero hne)
    have hfiles : 0 < files/repositories := Nat.div_pos hcovers.files (Nat.pos_of_ne_zero hne)
    have hbytes := hcovers.bytes
    have hfiles := hcovers.files
    rw [if_neg (by omega),if_neg (by simp [maxEvidenceBytes,maxEvidenceFiles]; omega)]

/-- Who takes no more than an even share leaves enough for the others. -/
theorem share_left {total spent n : ℕ} (hn : n ≠ 0) (htotal : n ≤ total) (hspent : spent ≤ total/n) :
    n-1 ≤ total-spent := by
  have hshare : 1 ≤ total/n := Nat.div_pos htotal (Nat.pos_of_ne_zero hn)
  have hdiv : total/n*n ≤ total := Nat.div_mul_le_self total n
  obtain ⟨m,rfl⟩ := Nat.exists_eq_succ_of_ne_zero hn
  have hothers : m ≤ total/(m+1)*m := Nat.le_mul_of_pos_left m hshare
  have hsplit : total/(m+1)*(m+1) = total/(m+1)*m+total/(m+1) := Nat.mul_succ _ _
  rw [Nat.succ_eq_add_one] at hdiv hspent ⊢
  omega

/-- Sizes within a share, of a checkout that is one of those left. -/
structure FitsShare (budget : EvidenceBudget) (bundle : RepositoryEvidence) : Prop where
  bytes : (evidenceSize bundle).1 ≤ budget.maxBytes
  files : (evidenceSize bundle).2 ≤ budget.maxFiles

theorem extracted_fits {w : PreparedWorkspace} {budget : EvidenceBudget} {bundle : RepositoryEvidence}
    (h : extractRepositoryEvidence w budget = .ok bundle) : FitsShare budget bundle := by
  obtain ⟨hbytes,hfiles,-⟩ := extractRepositoryEvidence_ok h
  exact ⟨hbytes.trans (min_le_left _ _),hfiles.trans (min_le_left _ _)⟩

theorem allocated_fits {bytes files repositories : ℕ} {budget : EvidenceBudget}
    (hbudget : allocateRepositoryEvidenceBudget bytes files repositories = .ok budget)
    {bundle : RepositoryEvidence} (hfits : FitsShare budget bundle) :
    (evidenceSize bundle).1 ≤ min bytes maxEvidenceBytes ∧ (evidenceSize bundle).2 ≤ min files maxEvidenceFiles ∧
      Covers (bytes-(evidenceSize bundle).1) (files-(evidenceSize bundle).2) (repositories-1) := by
  obtain ⟨hne,hcovers,rfl⟩ := allocate_ok.mp hbudget
  obtain ⟨hbytes,hfiles⟩ := hfits
  simp only [le_min_iff] at hbytes hfiles ⊢
  exact ⟨⟨hbytes.1.trans (Nat.div_le_self _ _),hbytes.2⟩,⟨hfiles.1.trans (Nat.div_le_self _ _),hfiles.2⟩,
    share_left hne hcovers.bytes hbytes.1,share_left hne hcovers.files hfiles.1⟩

/-! ### The loop -/

/-- The bundles of a run so far, and what they left of the budgets and of the checkouts. -/
inductive Bundles (repositories : ℕ) : List RepositoryEvidence → (bytes files left : ℕ) → Prop
  | start : Bundles repositories [] maxTotalEvidenceBytes maxTotalEvidenceFiles repositories
  | next {bundles : List RepositoryEvidence} {bytes files left : ℕ} (h : Bundles repositories bundles bytes files left)
    {budget : EvidenceBudget} (hbudget : allocateRepositoryEvidenceBudget bytes files left = .ok budget)
    (w : PreparedWorkspace) {bundle : RepositoryEvidence} (hbundle : extractRepositoryEvidence w budget = .ok bundle) :
    Bundles repositories (bundles ++ [bundle]) (bytes-(evidenceSize bundle).1) (files-(evidenceSize bundle).2) (left-1)

/-- What the bundles of a run keep to. -/
structure Accounted (bundles : List RepositoryEvidence) (bytes files left : ℕ) : Prop where
  covers : Covers bytes files left
  bytes : (bundles.map fun b => (evidenceSize b).1).sum+bytes = maxTotalEvidenceBytes
  files : (bundles.map fun b => (evidenceSize b).2).sum+files = maxTotalEvidenceFiles
  each : ∀ b ∈ bundles, (evidenceSize b).1 ≤ maxEvidenceBytes ∧ (evidenceSize b).2 ≤ maxEvidenceFiles

theorem Bundles.accounted {repositories bytes files left : ℕ} {bundles : List RepositoryEvidence}
    (h : Bundles repositories bundles bytes files left)
    (hcovers : Covers maxTotalEvidenceBytes maxTotalEvidenceFiles repositories) :
    Accounted bundles bytes files left := by
  induction h with
  | start => exact ⟨hcovers,by simp,by simp,nofun⟩
  | next h hbudget w hbundle ih =>
    obtain ⟨hbytes,hfiles,hleft⟩ := allocated_fits hbudget (extracted_fits hbundle)
    rw [le_min_iff] at hbytes hfiles
    refine ⟨hleft,?_,?_,?_⟩
    · have hsum := ih.bytes
      rw [List.map_append,List.sum_append,List.map_singleton,List.sum_singleton]
      omega
    · have hsum := ih.files
      rw [List.map_append,List.sum_append,List.map_singleton,List.sum_singleton]
      omega
    · intro b hb
      rcases List.mem_append.mp hb with hb | hb
      · exact ih.each b hb
      · rw [List.mem_singleton.mp hb]
        exact ⟨hbytes.2,hfiles.2⟩

theorem Accounted.allocates {bundles : List RepositoryEvidence} {bytes files left : ℕ}
    (h : Accounted bundles bytes files left) (hleft : left ≠ 0) :
    ∃ budget, allocateRepositoryEvidenceBudget bytes files left = .ok budget :=
  ⟨_,allocate_ok.mpr ⟨hleft,h.covers,rfl⟩⟩

/-- A checkout and how its inspection ends, with a reason if the extraction fails. -/
structure Checkout where
  workspace : PreparedWorkspace
  failed : String → InspectionError
  finished : Except InspectionError RepositoryReview

/-- `inspect_prepared_with_cancellation` with the extraction as its callback. -/
def inspectPrepared (c : Checkout) (budget : EvidenceBudget) :
    Except InspectionError (RepositoryReview × Option RepositoryEvidence) :=
  match extractRepositoryEvidence c.workspace budget with
  | .error reason => .error (c.failed reason)
  | .ok bundle => c.finished.map fun review => (review,some bundle)

def Environment.extracting (E : Environment) (checkout : RepositorySource → EvidenceBudget → Checkout) :
    Environment :=
  { E with inspect := fun source budget => inspectPrepared (checkout source budget) budget }

/-- Why the loop ends early: what stops it from outside, and the errors of its own accounting. -/
inductive EvidenceFailure
  | stopped (error : RuntimeOperationError)
  | budget
  | invariant
  | byteUnderflow
  | fileUnderflow
  deriving DecidableEq, Repr

def EvidenceFailure.error : EvidenceFailure → RuntimeOperationError
  | .stopped error => error
  | .budget => budgetTooSmall
  | .invariant => .failed "internal clarification repository evidence budget invariant violated"
  | .byteUnderflow => .failed "internal clarification repository evidence byte accounting underflow"
  | .fileUnderflow => .failed "internal clarification repository evidence file accounting underflow"

/-- The loop of `inspectRepositories` with its errors kept apart. -/
def evidenceLoop (E : Environment) : (i : ℕ) → List RepositorySource →
    (remainingBytes remainingFiles remainingRepositories : ℕ) →
    Except EvidenceFailure (List (RepositoryReview × RepositoryEvidence))
  | _, [], _, _, _ => .ok []
  | i, source::sources, remainingBytes, remainingFiles, remainingRepositories =>
    match checkCancellation E ⟨2,4*i⟩ with
    | .error error => .error (.stopped error)
    | .ok () =>
      match allocateRepositoryEvidenceBudget remainingBytes remainingFiles remainingRepositories with
      | .error _ => .error .budget
      | .ok budget =>
        match inspectRepository E i source budget with
        | .error error => .error (.stopped error)
        | .ok inspected =>
          let (bundleBytes,bundleFiles) := evidenceSize inspected.2
          if budget.maxBytes < bundleBytes ∨ budget.maxFiles < bundleFiles then .error .invariant
          else if remainingBytes < bundleBytes then .error .byteUnderflow
          else if remainingFiles < bundleFiles then .error .fileUnderflow
          else (evidenceLoop E (i+1) sources (remainingBytes-bundleBytes) (remainingFiles-bundleFiles)
            (remainingRepositories-1)).map (inspected::·)

theorem allocate_error {bytes files repositories : ℕ} {error : RuntimeOperationError}
    (h : allocateRepositoryEvidenceBudget bytes files repositories = .error error) : error = budgetTooSmall := by
  simp only [allocateRepositoryEvidenceBudget] at h
  split_ifs at h
  · exact (Except.error.inj h).symm
  · exact (Except.error.inj h).symm

theorem inspectRepositories_eq (E : Environment) (i : ℕ) (sources : List RepositorySource)
    (bytes files repositories : ℕ) :
    inspectRepositories E i sources bytes files repositories =
      (evidenceLoop E i sources bytes files repositories).mapError EvidenceFailure.error := by
  induction sources generalizing i bytes files repositories with
  | nil => rfl
  | cons source sources ih =>
    rw [inspectRepositories,evidenceLoop]
    cases checkCancellation E ⟨2,4*i⟩ with
    | error error => rfl
    | ok _ =>
      cases hbudget : allocateRepositoryEvidenceBudget bytes files repositories with
      | error error =>
        rw [allocate_error hbudget]
        rfl
      | ok budget =>
        simp only [bind,Except.bind]
        cases inspectRepository E i source budget with
        | error error => rfl
        | ok inspected =>
          simp only [ih]
          by_cases hinvariant : budget.maxBytes < (evidenceSize inspected.2).1 ∨
              budget.maxFiles < (evidenceSize inspected.2).2
          · simp only [if_pos hinvariant]
            rfl
          by_cases hbytes : bytes < (evidenceSize inspected.2).1
          · simp only [if_neg hinvariant,if_pos hbytes]
            rfl
          by_cases hfiles : files < (evidenceSize inspected.2).2
          · simp only [if_neg hinvariant,if_neg hbytes,if_pos hfiles]
            rfl
          simp only [if_neg hinvariant,if_neg hbytes,if_neg hfiles]
          cases evidenceLoop E (i+1) sources (bytes-(evidenceSize inspected.2).1)
            (files-(evidenceSize inspected.2).2) (repositories-1) <;> rfl

theorem inspectRepository_extracts {E : Environment} {checkout : RepositorySource → EvidenceBudget → Checkout}
    {i : ℕ} {source : RepositorySource} {budget : EvidenceBudget} {inspected : RepositoryReview × RepositoryEvidence}
    (h : inspectRepository (E.extracting checkout) i source budget = .ok inspected) :
    extractRepositoryEvidence (checkout source budget).workspace budget = .ok inspected.2 := by
  rw [inspectRepository] at h
  obtain ⟨_,-,h⟩ := bind_eq_ok.mp h
  split at h
  · cases h
  · split at h
    · cases h
    · cases h
    · rename_i inspection evidence hinspect
      change inspectPrepared (checkout source budget) budget = _ at hinspect
      have hevidence : inspected.2 = evidence := by
        split_ifs at h
        · cases h
        · rw [← Except.ok.inj h]
      rw [inspectPrepared] at hinspect
      cases hextract : extractRepositoryEvidence (checkout source budget).workspace budget with
      | error reason => simp [hextract] at hinspect
      | ok bundle =>
        rw [hextract] at hinspect
        cases hfinished : (checkout source budget).finished with
        | error e => simp [hfinished,Except.map] at hinspect
        | ok review =>
          simp only [hfinished,Except.map,Except.ok.injEq,Prod.mk.injEq,Option.some.injEq] at hinspect
          rw [hevidence,hinspect.2]

/-- The loop over checkouts is stopped from outside only, and its bundles are those of a run. -/
theorem evidenceLoop_runs (E : Environment) (checkout : RepositorySource → EvidenceBudget → Checkout) (i : ℕ)
    {sources : List RepositorySource} {repositories bytes files : ℕ} {bundles : List RepositoryEvidence}
    (hrun : Bundles repositories bundles bytes files sources.length)
    (hcovers : Covers maxTotalEvidenceBytes maxTotalEvidenceFiles repositories) :
    (∀ failure, evidenceLoop (E.extracting checkout) i sources bytes files sources.length = .error failure →
      ∃ e, failure = .stopped e) ∧
    ∀ inspected, evidenceLoop (E.extracting checkout) i sources bytes files sources.length = .ok inspected →
      ∃ bytes files, Bundles repositories (bundles ++ inspected.map Prod.snd) bytes files 0 := by
  induction sources generalizing i bytes files bundles with
  | nil =>
    refine ⟨nofun,fun inspected h => ⟨bytes,files,?_⟩⟩
    obtain rfl := Except.ok.inj h
    simpa using hrun
  | cons source sources ih =>
    obtain ⟨budget,hbudget⟩ := (hrun.accounted hcovers).allocates (Nat.succ_ne_zero _)
    rw [evidenceLoop,hbudget]
    cases checkCancellation (E.extracting checkout) ⟨2,4*i⟩ with
    | error error => exact ⟨fun failure h => ⟨error,(Except.error.inj h).symm⟩,nofun⟩
    | ok _ =>
      cases hinspected : inspectRepository (E.extracting checkout) i source budget with
      | error error =>
        simp only [hinspected]
        exact ⟨fun failure h => ⟨error,(Except.error.inj h).symm⟩,nofun⟩
      | ok inspected =>
        have hextract := inspectRepository_extracts hinspected
        have hfits := extracted_fits hextract
        obtain ⟨hbytes,hfiles,-⟩ := allocated_fits hbudget hfits
        rw [le_min_iff] at hbytes hfiles
        have hinvariant : ¬(budget.maxBytes < (evidenceSize inspected.2).1 ∨
            budget.maxFiles < (evidenceSize inspected.2).2) :=
          not_or.mpr ⟨Nat.not_lt_of_le hfits.bytes,Nat.not_lt_of_le hfits.files⟩
        simp only [hinspected,if_neg hinvariant,if_neg (Nat.not_lt_of_le hbytes.1),
          if_neg (Nat.not_lt_of_le hfiles.1)]
        obtain ⟨hstopped,hdone⟩ := ih (i+1) (hrun.next hbudget _ hextract)
        rw [List.length_cons,Nat.add_sub_cancel]
        cases hrest : evidenceLoop (E.extracting checkout) (i+1) sources (bytes-(evidenceSize inspected.2).1)
            (files-(evidenceSize inspected.2).2) sources.length with
        | error failure =>
          refine ⟨fun failure' h => ?_,nofun⟩
          rw [← Except.error.inj h]
          exact hstopped failure hrest
        | ok rest =>
          refine ⟨nofun,fun inspected' h => ?_⟩
          obtain ⟨bytes',files',hbundles⟩ := hdone rest hrest
          rw [← Except.ok.inj h]
          exact ⟨bytes',files',by simpa using hbundles⟩

/-- The evidence budget of a run. If its first share is allocated, so is each later one; what a
checkout gives stays within its share and what is left, so that the loop never meets an error of its
own accounting; and the evidence stays within the limits of a run and of a checkout. -/
theorem evidence_budget_kept {repositories : ℕ} {first : EvidenceBudget}
    (hfirst : allocateRepositoryEvidenceBudget maxTotalEvidenceBytes maxTotalEvidenceFiles repositories = .ok first) :
    (∀ bundles bytes files left, Bundles repositories bundles bytes files left →
      (left ≠ 0 → ∃ budget, allocateRepositoryEvidenceBudget bytes files left = .ok budget) ∧
      (∀ budget w bundle, allocateRepositoryEvidenceBudget bytes files left = .ok budget →
        extractRepositoryEvidence w budget = .ok bundle →
        (evidenceSize bundle).1 ≤ budget.maxBytes ∧ (evidenceSize bundle).2 ≤ budget.maxFiles ∧
          (evidenceSize bundle).1 ≤ bytes ∧ (evidenceSize bundle).2 ≤ files) ∧
      (bundles.map fun b => (evidenceSize b).1).sum ≤ maxTotalEvidenceBytes ∧
      (bundles.map fun b => (evidenceSize b).2).sum ≤ maxTotalEvidenceFiles ∧
      ∀ b ∈ bundles, (evidenceSize b).1 ≤ maxEvidenceBytes ∧ (evidenceSize b).2 ≤ maxEvidenceFiles) ∧
    ∀ (E : Environment) (checkout : RepositorySource → EvidenceBudget → Checkout) (sources : List RepositorySource),
      sources.length = repositories →
      inspectRepositories (E.extracting checkout) 0 sources maxTotalEvidenceBytes maxTotalEvidenceFiles repositories =
        (evidenceLoop (E.extracting checkout) 0 sources maxTotalEvidenceBytes maxTotalEvidenceFiles
          repositories).mapError EvidenceFailure.error ∧
      (∀ failure, evidenceLoop (E.extracting checkout) 0 sources maxTotalEvidenceBytes maxTotalEvidenceFiles
        repositories = .error failure → ∃ e, failure = .stopped e) ∧
      ∀ inspected, evidenceLoop (E.extracting checkout) 0 sources maxTotalEvidenceBytes maxTotalEvidenceFiles
        repositories = .ok inspected → ∃ bytes files, Bundles repositories (inspected.map Prod.snd) bytes files 0 := by
  obtain ⟨-,hcovers,-⟩ := allocate_ok.mp hfirst
  constructor
  · intro bundles bytes files left hrun
    have haccounted := hrun.accounted hcovers
    refine ⟨haccounted.allocates,?_,?_,?_,haccounted.each⟩
    · intro budget w bundle hbudget hbundle
      have hfits := extracted_fits hbundle
      obtain ⟨hbytes,hfiles,-⟩ := allocated_fits hbudget hfits
      exact ⟨hfits.bytes,hfits.files,hbytes.trans (min_le_left _ _),hfiles.trans (min_le_left _ _)⟩
    · have hsum := haccounted.bytes
      omega
    · have hsum := haccounted.files
      omega
  · rintro E checkout sources rfl
    obtain ⟨hstopped,hdone⟩ := evidenceLoop_runs E checkout 0 .start hcovers
    exact ⟨inspectRepositories_eq _ 0 sources _ _ _,hstopped,fun inspected h => by simpa using hdone inspected h⟩

def sampleWorkspace : PreparedWorkspace where
  repositoryId := "repository"
  commitSha := "c0"
  lsFiles _ := .ok ⟨"src/b\x00src/a\x00".toUTF8.data.toList,false⟩
  gitShow _ _ := .ok ⟨"text".toUTF8.data.toList,false⟩
  cancelled _ := false

theorem sample_evidence_budget_kept :
    ∃ budget, allocateRepositoryEvidenceBudget (maxTotalEvidenceBytes-30) (maxTotalEvidenceFiles-2) 1 = .ok budget := by
  have hextract : extractRepositoryEvidence sampleWorkspace ⟨maxEvidenceCandidates,32,32*1024⟩ =
      .ok ⟨"repository","c0",[⟨"src/a","text"⟩,⟨"src/b","text"⟩]⟩ := by decide +kernel
  have hfirst : allocateRepositoryEvidenceBudget maxTotalEvidenceBytes maxTotalEvidenceFiles 2 =
      .ok ⟨maxEvidenceCandidates,32,32*1024⟩ := rfl
  exact ((evidence_budget_kept hfirst).1 _ _ _ _ (.next .start hfirst sampleWorkspace hextract)).1 (by decide)

end Runtime
end North
