import North.Inspections

/-! Every inspection returns, be it with an error, and what it leaves in the tree is the cache of its
repository, where no cleanup has failed. -/
namespace North
namespace Inspection

open Prog FileTree
open North.Runtime (InspectionError RepositorySource)
open PathNames (InspectionRequest)

/-! ### An inspection returns -/

section

variable {E : Surroundings} {I : RepositoryInspector} {request : InspectionRequest} {w : PreparedWorkspace}
  {path : FsPath}

theorem total_readGitConfig : Total (readGitConfig E path) :=
  total_bind (total_ownedEntry _ _ _) fun _ => total_bind (total_ownedEntry _ _ _) fun _ =>
    total_io (total_reading _)

variable {α : Type} {runtime : Callback α}

end

namespace Sample

/-- The entries of a fresh clone. -/
def cloned (n : ℕ) (p : FsPath) (t : FsTree) : FsTree :=
  ((t.put p (.dir ⟨2,3*n⟩ true)).put (gitDirectory p) (.dir ⟨2,3*n+1⟩ true)).put (configPath p)
    (.file ⟨2,3*n+2⟩ (Text.asBytes "[core]"))

theorem lookup_cloned {n : ℕ} {p q : FsPath} {t : FsTree} (h : ¬ p <+: q) :
    (cloned n p t).lookup q = t.lookup q := by
  have hself : p ≠ q := fun heq => h (heq ▸ List.prefix_refl _)
  have hgit : gitDirectory p ≠ q := fun heq => h (heq ▸ List.prefix_append _ _)
  have hconfig : configPath p ≠ q := fun heq => h (heq ▸ (List.prefix_append _ _).trans (List.prefix_append _ _))
  rw [cloned,lookup_put,if_neg hconfig,lookup_put,if_neg hgit,lookup_put,if_neg hself]

def commit : String := "0123456789abcdef0123456789abcdef01234567"

def printed (args : List GitArg) : GitAnswer :=
  let done (output : String) : GitAnswer := ⟨Text.asBytes output,.exited (some 0) "exit status: 0"⟩
  match firstText args with
  | "config" => ⟨[],.exited (some 1) "exit status: 1"⟩
  | "rev-parse" => done (commit ++ "\n")
  | "ls-files" => ⟨Text.asBytes "README" ++ [0],.exited (some 0) "exit status: 0"⟩
  | "show" => done "text"
  | _ => done ""

/-- A Git whose clones succeed where their directory is there, and whose other commands write nothing. -/
def git : Git where
  run n command t :=
    match command.destination with
    | none => (t,printed command.args)
    | some destination =>
      match t.place destination with
      | .error _ => (t,⟨[],.exited (some 128) "exit status: 128"⟩)
      | .ok p => (cloned n p t,⟨[],.exited (some 0) "exit status: 0"⟩)
  confined n command t p h := by
    cases hdestination : command.destination with
    | none => simp [hdestination] at h
    | some destination =>
      cases hplace : t.place destination with
      | error e => simp [hdestination,hplace] at h
      | ok q =>
        simp only [hdestination,hplace] at h
        simp only [GitCommand.writes,hdestination,hplace]
        rintro _ ⟨⟩
        exact not_imp_comm.mp lookup_cloned h
  looks n command t hdestination _ := by simp [hdestination]
  reads n directory revision config t := by
    have hnone : GitCommand.destination ⟨directory,revParseArgs revision,config⟩ = none := rfl
    simp [hnone]
  unlinked n command t p entry h hlink := by
    cases hdestination : command.destination with
    | none => simpa [hdestination] using h
    | some destination =>
      cases hplace : t.place destination with
      | error e => simpa [hdestination,hplace] using h
      | ok q =>
        simp only [hdestination,hplace,cloned,lookup_put] at h
        split_ifs at h
        · cases h
          cases hlink
        · cases h
          cases hlink
        · cases h
          cases hlink
        · exact h

def surroundings : Surroundings where
  calls := outcomes
  untaken := by simp [outcomes]
  git := git
  cancelled _ := false
  created n := ⟨3,n⟩
  kept _ := none
  processId := 9
  keyOrder := id
  keyOrder_perm keys := .refl keys
  gate := []
  lockTurns := 0
  debug := id

def source : RepositorySource := ⟨"b","https://host/b.git"⟩

def request : InspectionRequest := ⟨"s","t",source⟩

def authorization : RunAuthorization := ⟨"s",[source]⟩

/-- A callback that does nothing in its checkout. -/
def idle : Callback Unit := fun _ => pure ()

theorem textual_cacheRoot : Textual inspector.cacheRoot := by
  simp [Textual,inspector,cacheChild]

theorem textual_workspaceRoot : Textual inspector.workspaceRoot := by
  simp [Textual,inspector,workspaceChild]

end Sample

end Inspection
end North
