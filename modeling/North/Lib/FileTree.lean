import North.Lib.Prog
import Mathlib.Data.List.Dedup
import Mathlib.Data.List.Infix
import Mathlib.Data.List.Find
import Mathlib.Data.List.Perm.Subperm

/-! A file tree with symbolic links, and the calls that a program makes on it. Entries are
kept by their physical path; a call gets there by walking a path from the root and following
the links on it. Any call may fail instead, and a removal may then leave a part behind. -/
namespace North
namespace FileTree

variable {ν ι : Type}

/-- The components from the root to an entry. -/
abbrev Path (ν : Type) := List ν

inductive Component (ν : Type)
  | down (name : ν)
  | up
  deriving DecidableEq, Repr

inductive Entry (ν ι : Type)
  /-- A directory, and whether its owner may write to it. -/
  | dir (identity : ι) (writable : Bool)
  | file (identity : ι) (content : List UInt8)
  | symlink (identity : ι) (absolute : Bool) (target : List (Component ν))
  deriving DecidableEq, Repr

namespace Entry

def isDir : Entry ν ι → Bool
  | .dir _ _ => true
  | _ => false

def isFile : Entry ν ι → Bool
  | .file _ _ => true
  | _ => false

def isSymlink : Entry ν ι → Bool
  | .symlink _ _ _ => true
  | _ => false

/-- `permissions().mode() & 0o200`, as far as directories have it. -/
def ownerWritable : Entry ν ι → Bool
  | .dir _ writable => writable
  | _ => true

def identity : Entry ν ι → ι
  | .dir identity _ => identity
  | .file identity _ => identity
  | .symlink identity _ _ => identity

end Entry

inductive IoError
  | notFound
  | alreadyExists
  | notADirectory
  | filesystemLoop
  | directoryNotEmpty
  | isADirectory
  | other (text : String)
  deriving DecidableEq, Repr

def IoError.text : IoError → String
  | .notFound => "No such file or directory (os error 2)"
  | .alreadyExists => "File exists (os error 17)"
  | .notADirectory => "Not a directory (os error 20)"
  | .filesystemLoop => "Too many levels of symbolic links (os error 40)"
  | .directoryNotEmpty => "Directory not empty (os error 39)"
  | .isADirectory => "Is a directory (os error 21)"
  | .other text => text

structure Tree (ν ι : Type) where
  entries : List (Path ν × Entry ν ι)
  deriving DecidableEq, Repr

def maxLinks : ℕ := 40

namespace Tree

variable [DecidableEq ν] (t : Tree ν ι)

def lookup (p : Path ν) : Option (Entry ν ι) :=
  (t.entries.find? fun entry => decide (entry.1 = p)).map Prod.snd

/-- Walk the components from a directory. `follow` goes on behind a link. -/
def walkFrom (follow : Path ν → List (Component ν) → Except IoError (Path ν)) :
    Path ν → List (Component ν) → Except IoError (Path ν)
  | at_, [] => .ok at_
  | at_, .up::rest => walkFrom follow at_.dropLast rest
  | at_, .down name::rest =>
    match t.lookup (at_ ++ [name]) with
    | none => .error .notFound
    | some (.dir _ _) => walkFrom follow (at_ ++ [name]) rest
    | some (.file _ _) => if rest.isEmpty then .ok (at_ ++ [name]) else .error .notADirectory
    | some (.symlink _ absolute target) => follow (if absolute then [] else at_) (target ++ rest)

def walk : ℕ → Path ν → List (Component ν) → Except IoError (Path ν)
  | 0 => t.walkFrom fun _ _ => .error .filesystemLoop
  | links+1 => t.walkFrom (walk links)

def canonicalize (p : Path ν) : Except IoError (Path ν) := t.walk maxLinks [] (p.map .down)

/-- There is a directory at this physical path; the root is one. -/
def holds (p : Path ν) : Bool := p.isEmpty || (t.lookup p).any Entry.isDir

/-- The physical path of a path whose last component is not followed. -/
def place (p : Path ν) : Except IoError (Path ν) :=
  match p.getLast? with
  | none => .ok []
  | some name => do
    let parent ← t.canonicalize p.dropLast
    if t.holds parent then .ok (parent ++ [name]) else .error .notADirectory

def symlinkMetadata (p : Path ν) : Except IoError (Entry ν ι) := do
  let p ← t.place p
  match t.lookup p with
  | none => .error .notFound
  | some entry => .ok entry

def metadata (p : Path ν) : Except IoError (Entry ν ι) := do
  let p ← t.canonicalize p
  match t.lookup p with
  | none => .error .notFound
  | some entry => .ok entry

def read (p : Path ν) : Except IoError (List UInt8) := do
  match ← t.metadata p with
  | .file _ content => .ok content
  | _ => .error .isADirectory

def names (p : Path ν) : List ν :=
  (t.entries.filterMap fun entry => if entry.1.dropLast = p then entry.1.getLast? else none).dedup

def readDir (p : Path ν) : Except IoError (List ν) := do
  let p ← t.canonicalize p
  if t.holds p then .ok (t.names p) else .error .notADirectory

/-- Drop what a condition does not keep. -/
def keep (kept : Path ν → Bool) : Tree ν ι := ⟨t.entries.filter fun entry => kept entry.1⟩

/-- Drop a path and what is under it. -/
def remove (p : Path ν) : Tree ν ι := t.keep fun q => !decide (p <+: q)

/-- Move a path, and what is under it, to a path with nothing under it. -/
def move (source target : Path ν) : Tree ν ι where
  entries := (t.remove target).entries.map fun entry =>
    (if source <+: entry.1 then target ++ entry.1.drop source.length else entry.1,entry.2)

/-- `fs::rename` of a directory. -/
def rename (source target : Path ν) : Except IoError (Tree ν ι) := do
  let source ← t.place source
  let target ← t.place target
  match t.lookup source,t.lookup target with
  | none, _ => .error .notFound
  | some _, none => .ok (t.move source target)
  | some _, some (.dir _ _) =>
    if (t.names target).isEmpty then .ok (t.move source target) else .error .directoryNotEmpty
  | some _, some _ => .error .notADirectory

end Tree

/-! ### Lookup -/

section

variable [DecidableEq ν] {t : Tree ν ι} {p q : Path ν}

theorem lookup_keep (kept : Path ν → Bool) :
    (t.keep kept).lookup q = if kept q then t.lookup q else none := by
  have hboth : (fun entry : Path ν × Entry ν ι => decide (kept entry.1 = true ∧ decide (entry.1 = q) = true)) =
      fun entry => kept q && decide (entry.1 = q) := by
    funext entry
    by_cases hq : entry.1 = q <;> simp [hq]
  have hfind : (t.keep kept).lookup q =
      (t.entries.find? fun entry => kept q && decide (entry.1 = q)).map Prod.snd :=
    congrArg (Option.map Prod.snd) (List.find?_filter.trans (congrArg (List.find? · _) hboth))
  rw [hfind]
  cases kept q with
  | true => simp [Tree.lookup]
  | false => simp

theorem lookup_remove : (t.remove p).lookup q = if p <+: q then none else t.lookup q := by
  unfold Tree.remove
  rw [lookup_keep]
  by_cases h : p <+: q <;> simp [h]

/-- After a move, the target has what the source had, and the source has nothing. -/
theorem lookup_move {source target : Path ν} (hsource : ¬ source <+: target)
    (htarget : ¬ target <+: source) : (t.move source target).lookup q =
      if target <+: q then t.lookup (source ++ q.drop target.length)
      else if source <+: q then none else t.lookup q := by
  have hback : ∀ entry ∈ (t.remove target).entries,
      ((if source <+: entry.1 then target ++ entry.1.drop source.length else entry.1) = q ↔
        if target <+: q then entry.1 = source ++ q.drop target.length
        else ¬ source <+: q ∧ entry.1 = q) := by
    intro entry hmem
    have hentry : ¬ target <+: entry.1 := by simpa using (List.mem_filter.mp hmem).2
    by_cases hs : source <+: entry.1
    · obtain ⟨rest,hrest⟩ := hs
      have hinit : source <+: entry.1 := ⟨rest,hrest⟩
      rw [if_pos hinit,← hrest,List.drop_left]
      by_cases ht : target <+: q
      · obtain ⟨rest',rfl⟩ := ht
        simp
      · rw [if_neg ht]
        constructor
        · rintro rfl
          exact absurd (List.prefix_append _ _) ht
        · rintro ⟨hs',hq⟩
          exact absurd (hq ▸ List.prefix_append _ _) hs'
    · rw [if_neg hs]
      by_cases ht : target <+: q
      · rw [if_pos ht]
        constructor
        · rintro rfl
          exact absurd ht hentry
        · intro heq
          exact absurd (heq ▸ List.prefix_append _ _) hs
      · rw [if_neg ht]
        constructor
        · rintro rfl
          exact ⟨hs,rfl⟩
        · exact fun h => h.2
  have hfind : (t.move source target).lookup q = ((t.remove target).entries.find? fun entry =>
      decide (if target <+: q then entry.1 = source ++ q.drop target.length
        else ¬ source <+: q ∧ entry.1 = q)).map Prod.snd := by
    simp only [Tree.lookup,Tree.move,List.find?_map,Option.map_map]
    exact congrArg _ (List.find?_congr fun entry hentry => decide_eq_decide.mpr (hback entry hentry))
  rw [hfind]
  split_ifs with ht hs
  · have hapart : ¬ target <+: source ++ q.drop target.length := fun h =>
      (List.prefix_or_prefix_of_prefix h (List.prefix_append _ _)).elim htarget hsource
    have hlookup := lookup_remove (t := t) (p := target) (q := source ++ q.drop target.length)
    rw [if_neg hapart] at hlookup
    exact hlookup
  · simp [hs]
  · have hlookup := lookup_remove (t := t) (p := target) (q := q)
    rw [if_neg ht] at hlookup
    simpa [Tree.lookup,hs] using hlookup

/-! ### Walks -/

/-- The path and all its ancestors are directories. -/
def Tree.Dirs (t : Tree ν ι) (p : Path ν) : Prop :=
  ∀ q, q ≠ [] → q <+: p → ∃ identity writable, t.lookup q = some (.dir identity writable)

theorem Tree.Dirs.initial (h : t.Dirs p) (hq : q <+: p) : t.Dirs q :=
  fun r hr hrq => h r hr (hrq.trans hq)

theorem dirs_nil : t.Dirs [] := fun _ hq hinit => absurd (List.prefix_nil.mp hinit) hq

theorem dirs_concat {name : ν} (h : t.Dirs p) {identity : ι} {writable : Bool}
    (hname : t.lookup (p ++ [name]) = some (.dir identity writable)) : t.Dirs (p ++ [name]) := by
  intro q hq hinit
  rcases List.prefix_concat_iff.mp hinit with rfl | hinit
  · exact ⟨identity,writable,hname⟩
  · exact h q hq hinit

theorem Tree.Dirs.congr {t' : Tree ν ι} (h : t.Dirs p) (hsame : ∀ q, q <+: p → t'.lookup q = t.lookup q) :
    t'.Dirs p := by
  intro q hq hinit
  rw [hsame q hinit]
  exact h q hq hinit

/-- Where a walk ends: below directories only, and at no link. -/
def Tree.Physical (t : Tree ν ι) (p : Path ν) : Prop :=
  t.Dirs p.dropLast ∧ (p ≠ [] → ∃ entry, t.lookup p = some entry ∧ entry.isSymlink = false)

theorem Tree.Dirs.physical (h : t.Dirs p) : t.Physical p := by
  refine ⟨h.initial ( List.dropLast_prefix p),fun hp => ?_⟩
  obtain ⟨identity,writable,hlookup⟩ := h p hp (List.prefix_refl p)
  exact ⟨_,hlookup,rfl⟩

theorem walkFrom_physical {follow : Path ν → List (Component ν) → Except IoError (Path ν)}
    (hfollow : ∀ at_ rest p, t.Dirs at_ → follow at_ rest = .ok p → t.Physical p)
    {rest : List (Component ν)} {at_ : Path ν} (hat : t.Dirs at_)
    (h : t.walkFrom follow at_ rest = .ok p) : t.Physical p := by
  induction rest generalizing at_ with
  | nil =>
    cases h
    exact hat.physical
  | cons component rest ih =>
    cases component with
    | up => exact ih (hat.initial ( List.dropLast_prefix at_)) h
    | down name =>
      simp only [Tree.walkFrom] at h
      cases hlookup : t.lookup (at_ ++ [name]) with
      | none => simp [hlookup] at h
      | some entry =>
        cases entry with
        | dir identity writable =>
          simp only [hlookup] at h
          exact ih (dirs_concat hat hlookup) h
        | file identity content =>
          simp only [hlookup] at h
          split_ifs at h
          cases h
          refine ⟨by rwa [List.dropLast_concat],fun _ => ⟨_,hlookup,rfl⟩⟩
        | symlink identity absolute target =>
          simp only [hlookup] at h
          refine hfollow _ _ _ ?_ h
          cases absolute with
          | true => exact dirs_nil
          | false => exact hat

theorem walk_physical {links : ℕ} {at_ : Path ν} {rest : List (Component ν)} (hat : t.Dirs at_)
    (h : t.walk links at_ rest = .ok p) : t.Physical p := by
  induction links generalizing at_ rest p with
  | zero => exact walkFrom_physical (fun _ _ _ _ h => by cases h) hat h
  | succ links ih => exact walkFrom_physical (fun _ _ _ hat h => ih hat h) hat h

theorem canonicalize_physical (h : t.canonicalize p = .ok q) : t.Physical q := walk_physical dirs_nil h

theorem walkFrom_of_physical {follow : Path ν → List (Component ν) → Except IoError (Path ν)}
    {at_ : Path ν} {names : List ν} (hat : t.Dirs at_) (h : t.Physical (at_ ++ names)) :
    t.walkFrom follow at_ (names.map .down) = .ok (at_ ++ names) := by
  induction names generalizing at_ with
  | nil => simp [Tree.walkFrom]
  | cons name names ih =>
    have hcons : at_ ++ name::names = at_ ++ [name] ++ names := by simp
    rw [hcons] at h ⊢
    cases names with
    | nil =>
      obtain ⟨entry,hlookup,hlink⟩ := h.2 (by simp)
      rw [List.append_nil] at hlookup
      cases entry with
      | dir identity writable => simp [Tree.walkFrom,hlookup]
      | file identity content => simp [Tree.walkFrom,hlookup]
      | symlink identity absolute target => cases hlink
    | cons name' names =>
      have hparent : at_ ++ [name] <+: (at_ ++ [name] ++ name'::names).dropLast := by
        rw [List.dropLast_append_of_ne_nil (by simp)]
        exact List.prefix_append _ _
      obtain ⟨identity,writable,hlookup⟩ := h.1 _ (by simp) hparent
      have hnext := ih (dirs_concat hat hlookup) h
      simp only [List.map_cons,Tree.walkFrom,hlookup] at hnext ⊢
      exact hnext

theorem canonicalize_of_physical (h : t.Physical p) : t.canonicalize p = .ok p :=
  walkFrom_of_physical dirs_nil (show t.Physical ([] ++ p) from h)

theorem canonicalize_of_dirs (h : t.Dirs p) : t.canonicalize p = .ok p :=
  canonicalize_of_physical h.physical

theorem Tree.Dirs.holds (h : t.Dirs p) : t.holds p = true := by
  unfold Tree.holds
  cases p with
  | nil => rfl
  | cons name p =>
    obtain ⟨identity,writable,hlookup⟩ := h _ (by simp) (List.prefix_refl _)
    simp [hlookup,Entry.isDir]

theorem place_of_dirs (h : t.Dirs p.dropLast) : t.place p = .ok p := by
  unfold Tree.place
  rcases List.eq_nil_or_concat' p with rfl | ⟨parent,name,rfl⟩
  · rfl
  · rw [List.dropLast_concat] at h
    simp [canonicalize_of_dirs h,h.holds,bind,Except.bind]

theorem readDir_of_dirs (h : t.Dirs p) : t.readDir p = .ok (t.names p) := by
  simp [Tree.readDir,canonicalize_of_dirs h,h.holds,bind,Except.bind]

theorem symlinkMetadata_of_dirs (h : t.Dirs p.dropLast) {entry : Entry ν ι} :
    t.symlinkMetadata p = .ok entry ↔ t.lookup p = some entry := by
  simp only [Tree.symlinkMetadata,place_of_dirs h,bind,Except.bind]
  cases t.lookup p <;> simp

/-- The path is the physical path of the directory with this identity. -/
def Tree.Real (t : Tree ν ι) (p : Path ν) (identity : ι) : Prop :=
  t.Dirs p ∧ ∃ writable, t.lookup p = some (.dir identity writable)

theorem Tree.Real.congr {identity : ι} {t' : Tree ν ι} (h : t.Real p identity)
    (hsame : ∀ q, q <+: p → t'.lookup q = t.lookup q) : t'.Real p identity :=
  ⟨h.1.congr hsame,(hsame p (List.prefix_refl p)).symm ▸ h.2⟩

theorem real_of_metadata {entry : Entry ν ι} (hparent : t.Dirs p.dropLast)
    (hmetadata : t.symlinkMetadata p = .ok entry) (hdir : entry.isDir = true) :
    t.Real p entry.identity := by
  have hlookup := (symlinkMetadata_of_dirs hparent).mp hmetadata
  cases entry with
  | dir identity writable =>
    refine ⟨?_,writable,hlookup⟩
    rcases List.eq_nil_or_concat' p with rfl | ⟨parent,name,rfl⟩
    · exact dirs_nil
    · exact dirs_concat (by rwa [List.dropLast_concat] at hparent) hlookup
  | file identity content => cases hdir
  | symlink identity absolute target => cases hdir

theorem symlinkMetadata_notFound (h : t.Dirs p.dropLast) :
    t.symlinkMetadata p = .error .notFound ↔ t.lookup p = none := by
  simp only [Tree.symlinkMetadata,place_of_dirs h,bind,Except.bind]
  cases t.lookup p <;> simp

/-- A path that resolves to itself and is no link is the physical path of a directory. -/
theorem real_of_canonical {entry : Entry ν ι} (hcanonical : t.canonicalize p = .ok p)
    (hmetadata : t.symlinkMetadata p = .ok entry) (hdir : entry.isDir = true) :
    t.Real p entry.identity :=
  real_of_metadata (canonicalize_physical hcanonical).1 hmetadata hdir

theorem read_of_file {identity : ι} {content value : List UInt8} (hparent : t.Dirs p.dropLast)
    (hlookup : t.lookup p = some (.file identity content)) :
    t.read p = .ok value ↔ content = value := by
  have hphysical : t.Physical p := ⟨hparent,fun _ => ⟨_,hlookup,rfl⟩⟩
  simp [Tree.read,Tree.metadata,canonicalize_of_physical hphysical,hlookup,bind,Except.bind]

theorem mem_names {name : ν} : name ∈ t.names p ↔ t.lookup (p ++ [name]) ≠ none := by
  have hname : ∀ entry : Path ν × Entry ν ι,
      (if entry.1.dropLast = p then entry.1.getLast? else none) = some name ↔ entry.1 = p ++ [name] := by
    intro entry
    rcases List.eq_nil_or_concat' entry.1 with h | ⟨parent,last,h⟩
    · simp [h]
    · rw [h,List.dropLast_concat]
      simp
  unfold Tree.names
  rw [List.mem_dedup,List.mem_filterMap]
  simp only [hname]
  simp [Tree.lookup]

/-- What is in the tree is in a directory of the tree. This is asked of a tree that a program
starts from, and no field of every tree: a removal that stops on its way may leave any part
of what it was to remove, also an entry whose directory is gone. -/
def Tree.Closed (t : Tree ν ι) : Prop := ∀ p, t.lookup p ≠ none → t.Dirs p.dropLast

theorem closed_of_entries (h : ∀ entry ∈ t.entries, ∀ q ∈ entry.1.dropLast.inits,
    q = [] ∨ (t.lookup q).any Entry.isDir = true) : t.Closed := by
  intro p hp q hq hinit
  obtain ⟨entry,hentry,rfl⟩ : ∃ entry ∈ t.entries, entry.1 = p := by
    simpa [Tree.lookup] using hp
  rcases h entry hentry q ((List.mem_inits _ _).mpr hinit) with hnil | hdir
  · exact absurd hnil hq
  · cases hlookup : t.lookup q with
    | none => simp [hlookup] at hdir
    | some found =>
      rw [hlookup] at hdir
      cases found with
      | dir identity writable => exact ⟨identity,writable,rfl⟩
      | file identity content => cases hdir
      | symlink identity absolute target => cases hdir

end

/-! ### Calls -/

/-- The tree and the counters of the process that works on it. -/
structure Disk (ν ι : Type) where
  tree : Tree ν ι
  /-- The number of the next call. -/
  tick : ℕ := 0
  /-- The next number of each sequence that the process draws from. -/
  sequences : ℕ → ℕ := fun _ => 0

/-- How the calls turn out. -/
structure Outcomes (ν : Type) where
  /-- The error that a call fails with where the tree would let it pass. -/
  fault : ℕ → Option IoError
  /-- Such an error never says that nothing is there. -/
  truthful : ∀ n, fault n ≠ some .notFound
  /-- What a listing shows of the names in its directory. -/
  listing : ℕ → List ν → List (Except IoError ν)
  /-- A listing leaves no name out unless it reports an error. -/
  complete : ∀ n names, (∃ error, .error error ∈ listing n names) ∨
    ∀ name ∈ names, .ok name ∈ listing n names
  /-- What a removal that fails leaves of the paths it was to remove. -/
  left : ℕ → Path ν → Bool

abbrev Call (ν ι α : Type) := Prog (Disk ν ι) IoError α

section

variable [DecidableEq ν] {α : Type} (O : Outcomes ν)

/-- A call that reads the tree. -/
def reading (f : Tree ν ι → Except IoError α) : Call ν ι α := fun d =>
  some (match O.fault d.tick with
    | some error => .error error
    | none => f d.tree,{ d with tick := d.tick+1 })

namespace Call

def symlinkMetadata (p : Path ν) : Call ν ι (Entry ν ι) := reading O fun t => t.symlinkMetadata p

def metadata (p : Path ν) : Call ν ι (Entry ν ι) := reading O fun t => t.metadata p

def canonicalize (p : Path ν) : Call ν ι (Path ν) := reading O fun t => t.canonicalize p

def read (p : Path ν) : Call ν ι (List UInt8) := reading O fun t => t.read p

def readDir (p : Path ν) : Call ν ι (List (Except IoError ν)) := fun d =>
  some (match O.fault d.tick with
    | some error => .error error
    | none => (d.tree.readDir p).map (O.listing d.tick),{ d with tick := d.tick+1 })

/-- A call that changes the tree, and what it leaves when it fails. -/
def changing (f : Tree ν ι → Except IoError (Tree ν ι)) (broken : ℕ → Tree ν ι → Tree ν ι) :
    Call ν ι Unit :=
  fun d =>
    match f d.tree with
    | .error error => some (.error error,{ d with tick := d.tick+1 })
    | .ok t =>
      match O.fault d.tick with
      | some error => some (.error error,{ d with tree := broken d.tick d.tree, tick := d.tick+1 })
      | none => some (.ok (),{ d with tree := t, tick := d.tick+1 })

def rename (source target : Path ν) : Call ν ι Unit :=
  changing O (fun t => t.rename source target) fun _ t => t

end Call

/-- `fs::remove_dir_all`, of a link only the link. -/
def Tree.removeDirAll (t : Tree ν ι) (p : Path ν) : Except IoError (Tree ν ι) := do
  let p ← t.place p
  match t.lookup p with
  | none => .error .notFound
  | some (.file _ _) => .error .notADirectory
  | some _ => .ok (t.remove p)

/-- What a removal leaves that stops on its way. -/
def Tree.partly (t : Tree ν ι) (p : Path ν) (left : Path ν → Bool) : Tree ν ι :=
  match t.place p with
  | .error _ => t
  | .ok p => t.keep fun q => !decide (p <+: q) || left q

def Call.removeDirAll (p : Path ν) : Call ν ι Unit :=
  Call.changing O (fun t => t.removeDirAll p) fun tick t => t.partly p (O.left tick)

/-- `counter.fetch_add(1)`. -/
def drawSequence {ε : Type} (k : ℕ) : Prog (Disk ν ι) ε ℕ := do
  let n ← Prog.look fun d => d.sequences k
  Prog.modifyState fun d => { d with sequences := fun i => if i = k then n+1 else d.sequences i }
  pure n

end

/-! ### What a program sees and what it removes -/

section

open Prog

variable {α β ε ε' : Type} {t : Tree ν ι}

/-- From this tree the program leaves the tree as it is, and `Q` holds of what it returns. -/
def Seen (t : Tree ν ι) (m : Prog (Disk ν ι) ε α) (Q : α → Prop) : Prop :=
  Triple (fun d => d.tree = t) m (fun a d => d.tree = t ∧ Q a) fun _ d => d.tree = t

theorem seen_pure {Q : α → Prop} {a : α} (h : Q a) : Seen t (pure a : Prog (Disk ν ι) ε α) Q :=
  triple_pure fun _ hd => ⟨hd,h⟩

theorem seen_fail {Q : α → Prop} (e : ε) : Seen t (fail e : Prog (Disk ν ι) ε α) Q :=
  triple_fail fun _ hd => hd

theorem seen_orFail {Q : α → Prop} {r : Except ε α} (h : ∀ a, r = .ok a → Q a) :
    Seen t (orFail r : Prog (Disk ν ι) ε α) Q :=
  triple_orFail (fun _ a hd hr => ⟨hd,h a hr⟩) fun _ _ hd _ => hd

/-- After a look at the tree, what is seen may be used of the same tree. -/
theorem triple_of_seen {m : Prog (Disk ν ι) ε α} {f : α → Prog (Disk ν ι) ε β} {Q : α → Prop}
    {Q' : β → Disk ν ι → Prop} {R : ε → Disk ν ι → Prop} (hm : Seen t m Q)
    (hR : ∀ e d, d.tree = t → R e d) (hf : ∀ a, Q a → Triple (fun d => d.tree = t) (f a) Q' R) :
    Triple (fun d => d.tree = t) (m >>= f) Q' R :=
  triple_bind (hm.post (fun _ _ h => h) hR) fun a =>
    triple_assume (fun _ h => h.2) fun ha => (hf a ha).pre fun _ h => h.1

theorem seen_bind {m : Prog (Disk ν ι) ε α} {f : α → Prog (Disk ν ι) ε β} {Q : α → Prop}
    {Q' : β → Prop} (hm : Seen t m Q) (hf : ∀ a, Q a → Seen t (f a) Q') : Seen t (m >>= f) Q' :=
  triple_of_seen hm (fun _ _ hd => hd) hf

theorem seen_drawSequence (k : ℕ) : Seen t (drawSequence k : Prog (Disk ν ι) ε ℕ) fun _ => True :=
  triple_bind (triple_look fun _ hd => hd) fun _ =>
    triple_bind (triple_modify fun _ hd => hd) fun _ => triple_pure fun _ hd => ⟨hd,trivial⟩

theorem Seen.mono {m : Prog (Disk ν ι) ε α} {Q Q' : α → Prop} (hm : Seen t m Q) (h : ∀ a, Q a → Q' a) :
    Seen t m Q' :=
  hm.post (fun a _ hd => ⟨hd.1,h a hd.2⟩) fun _ _ hd => hd

theorem seen_attempt {m : Prog (Disk ν ι) ε α} {Q : α → Prop} (hm : Seen t m Q) :
    Seen t (attempt m : Prog (Disk ν ι) ε' (Except ε α)) fun r => ∀ a, r = .ok a → Q a := by
  refine triple_attempt hm (fun a d hd => ⟨hd.1,?_⟩) fun e d hd => ⟨hd,?_⟩
  · rintro b ⟨⟩
    exact hd.2
  · rintro b ⟨⟩

theorem triple_of_attempt {m : Prog (Disk ν ι) ε α} {f : Except ε α → Prog (Disk ν ι) ε' β} {Q : α → Prop}
    {Q' : β → Disk ν ι → Prop} {R : ε' → Disk ν ι → Prop} (hm : Seen t m Q)
    (hf : ∀ r, (∀ a, r = .ok a → Q a) → Triple (fun d => d.tree = t) (f r) Q' R) :
    Triple (fun d => d.tree = t) (attempt m >>= f) Q' R := by
  refine triple_bind (Q := fun r d => d.tree = t ∧ ∀ a, r = .ok a → Q a)
    (triple_attempt hm (fun a d hd => ⟨hd.1,?_⟩) fun e d hd => ⟨hd,?_⟩) fun r =>
      triple_assume (fun _ h => h.2) fun hr => (hf r hr).pre fun _ h => h.1
  · rintro b ⟨⟩
    exact hd.2
  · rintro b ⟨⟩

/-- What follows a change is shown for each tree that the change may leave. -/
theorem triple_each {P : Tree ν ι → Prop} {m : Prog (Disk ν ι) ε α} {Q : α → Disk ν ι → Prop}
    {R : ε → Disk ν ι → Prop} (h : ∀ t, P t → Triple (fun d => d.tree = t) m Q R) :
    Triple (fun d => P d.tree) m Q R :=
  fun d hd => h d.tree hd d rfl

variable {O : Outcomes ν}

/-- A call that reads shows the tree as it is, or an error other than that nothing is there. -/
theorem seen_reading (f : Tree ν ι → Except IoError α) :
    Seen t (attempt (reading O f) : Prog (Disk ν ι) ε (Except IoError α)) fun r =>
      (∀ a, r = .ok a → f t = .ok a) ∧ (r = .error .notFound → f t = .error .notFound) := by
  rintro d rfl r d' hexec
  cases r with
  | error e => exact absurd hexec attempt_never_fails
  | ok r =>
    have hrun := attempt_returns.mp hexec
    simp only [exec,reading,Option.some.injEq,Prod.mk.injEq] at hrun
    obtain ⟨rfl,rfl⟩ := hrun
    refine ⟨rfl,?_⟩
    cases hfault : O.fault d.tick with
    | none => exact ⟨fun a ha => ha,fun he => he⟩
    | some error =>
      refine ⟨fun a ha => (by cases ha),fun he => ?_⟩
      exact absurd (Except.error.inj he ▸ hfault) (O.truthful d.tick)

theorem seen_call (f : Tree ν ι → Except IoError α) : Seen t (reading O f) fun a => f t = .ok a := by
  rintro d rfl r d' hexec
  have hseen := seen_reading (O := O) (ε := Empty) f d rfl (.ok r) d' (attempt_returns.mpr hexec)
  cases r with
  | ok a => exact ⟨hseen.1,hseen.2.1 a rfl⟩
  | error e => exact hseen.1

theorem total_reading (f : Tree ν ι → Except IoError α) : Total (reading O f) := by
  intro d
  simp [exec,reading]

theorem total_changing (f : Tree ν ι → Except IoError (Tree ν ι)) (broken : ℕ → Tree ν ι → Tree ν ι) :
    Total (Call.changing O f broken) := by
  intro d
  simp only [exec,Call.changing]
  cases f d.tree with
  | error e => simp
  | ok t' => cases O.fault d.tick <;> simp

theorem total_drawSequence (k : ℕ) : Total (drawSequence k : Prog (Disk ν ι) ε ℕ) :=
  total_bind (total_look _) fun _ => total_bind (total_modify _) fun _ => total_pure _

/-- A call that changes the tree changes it as a whole, or what it leaves is broken. -/
theorem triple_changing (f : Tree ν ι → Except IoError (Tree ν ι)) (broken : ℕ → Tree ν ι → Tree ν ι) :
    Triple (fun d => d.tree = t) (Call.changing O f broken) (fun _ d => f t = .ok d.tree)
      fun _ d => d.tree = t ∨ ∃ n, d.tree = broken n t := by
  rintro d rfl r d' hexec
  simp only [exec,Call.changing] at hexec
  cases hf : f d.tree with
  | error e =>
    simp only [hf,Option.some.injEq,Prod.mk.injEq] at hexec
    obtain ⟨rfl,rfl⟩ := hexec
    exact .inl rfl
  | ok t' =>
    cases hfault : O.fault d.tick with
    | some error =>
      simp only [hf,hfault,Option.some.injEq,Prod.mk.injEq] at hexec
      obtain ⟨rfl,rfl⟩ := hexec
      exact .inr ⟨d.tick,rfl⟩
    | none =>
      simp only [hf,hfault,Option.some.injEq,Prod.mk.injEq] at hexec
      obtain ⟨rfl,rfl⟩ := hexec
      rfl

theorem not_prefix_sibling {parent : Path ν} {a b : ν} (h : a ≠ b) :
    ¬ parent ++ [a] <+: parent ++ [b] := by
  rw [List.prefix_append_right_inj]
  simpa using h

variable [DecidableEq ν]

theorem seen_readDir (p : Path ν) :
    Seen t (Call.readDir O p) fun entries =>
      ∃ names n, t.readDir p = .ok names ∧ entries = O.listing n names := by
  rintro d rfl r d' hexec
  simp only [exec,Call.readDir,Option.some.injEq,Prod.mk.injEq] at hexec
  obtain ⟨rfl,rfl⟩ := hexec
  cases O.fault d.tick with
  | some error => rfl
  | none =>
    cases hread : d.tree.readDir p with
    | error e => rfl
    | ok names => exact ⟨rfl,names,d.tick,rfl,rfl⟩

theorem total_readDir (p : Path ν) : Total (Call.readDir O p : Call ν ι (List (Except IoError ν))) := by
  intro d
  simp [exec,Call.readDir]

/-- The trees differ under these paths only. -/
def Tree.DiffersUnder (places : List (Path ν)) (t t' : Tree ν ι) : Prop :=
  ∀ p, (∀ place ∈ places, ¬ place <+: p) → t'.lookup p = t.lookup p

/-- The tree has nothing under these paths. -/
def Tree.Bare (places : List (Path ν)) (t : Tree ν ι) : Prop :=
  ∀ p, (∃ place ∈ places, place <+: p) → t.lookup p = none

theorem Tree.DiffersUnder.refl {places : List (Path ν)} (t : Tree ν ι) : t.DiffersUnder places t :=
  fun _ _ => rfl

theorem Tree.DiffersUnder.trans {places₁ places₂ places : List (Path ν)} {t t' t'' : Tree ν ι}
    (h₁ : t.DiffersUnder places₁ t') (h₂ : t'.DiffersUnder places₂ t'') (hsub₁ : places₁ ⊆ places)
    (hsub₂ : places₂ ⊆ places) : t.DiffersUnder places t'' := fun p hp =>
  (h₂ p fun place hmem => hp place (hsub₂ hmem)).trans (h₁ p fun place hmem => hp place (hsub₁ hmem))

/-- The one tree is the other without these paths and what is under them. -/
structure Tree.Pruned (places : List (Path ν)) (t t' : Tree ν ι) : Prop where
  differs : t.DiffersUnder places t'
  bare : t'.Bare places

/-- What was bare stays so when the rest is emptied as well. -/
theorem Tree.Bare.and {places places' : List (Path ν)} {t t' : Tree ν ι} (h : t.Bare places)
    (hpruned : t.Pruned places' t') : t'.Bare (places ++ places') := by
  rintro p ⟨place,hmem,hp⟩
  by_cases hother : ∃ place ∈ places', place <+: p
  · exact hpruned.bare p hother
  · rw [hpruned.differs p fun place' hmem' hp' => hother ⟨place',hmem',hp'⟩]
    rcases List.mem_append.mp hmem with hmem | hmem
    · exact h p ⟨place,hmem,hp⟩
    · exact absurd ⟨place,hmem,hp⟩ hother

theorem Tree.Pruned.refl (t : Tree ν ι) : t.Pruned [] t :=
  ⟨.refl t,fun _ h => by simp at h⟩

theorem Tree.Pruned.trans {places places' : List (Path ν)} {t t' t'' : Tree ν ι} (h : t.Pruned places t')
    (h' : t'.Pruned places' t'') : t.Pruned (places ++ places') t'' :=
  ⟨h.differs.trans h'.differs (by simp) (by simp),h.bare.and h'⟩

theorem Tree.Pruned.left {places : List (Path ν)} {t t' : Tree ν ι} (h : t.Pruned places t') {p : Path ν}
    (hp : t'.lookup p ≠ none) : (∀ place ∈ places, ¬ place <+: p) ∧ t'.lookup p = t.lookup p := by
  have hnot : ∀ place ∈ places, ¬ place <+: p := fun place hmem hplace => hp (h.bare p ⟨place,hmem,hplace⟩)
  exact ⟨hnot,h.differs p hnot⟩

theorem Tree.Pruned.closed {places : List (Path ν)} {t t' : Tree ν ι} (h : t.Pruned places t')
    (hclosed : t.Closed) : t'.Closed := by
  intro p hp
  obtain ⟨hnot,hlookup⟩ := h.left hp
  refine (hclosed p (hlookup ▸ hp)).congr fun q hq => h.differs q fun place hmem hplace => ?_
  exact hnot place hmem (hplace.trans (hq.trans ( List.dropLast_prefix p)))

theorem Tree.Pruned.of_free {places : List (Path ν)} {free : Path ν} {t t' : Tree ν ι}
    (h : t.Pruned (places ++ [free]) t') (hclosed : t.Closed) (hne : free ≠ []) (hfree : t.lookup free = none) :
    t.Pruned places t' := by
  refine ⟨fun p hp => ?_,fun p ⟨place,hmem,hplace⟩ => h.bare p ⟨place,by simp [hmem],hplace⟩⟩
  by_cases hunder : free <+: p
  · rw [h.bare p ⟨free,by simp,hunder⟩]
    by_contra hsome
    rcases List.eq_nil_or_concat' p with rfl | ⟨parent,name,rfl⟩
    · exact hne (List.prefix_nil.mp hunder)
    · rcases List.prefix_concat_iff.mp hunder with rfl | hbelow
      · exact hsome hfree.symm
      · have hdirs := hclosed _ (Ne.symm hsome)
        rw [List.dropLast_concat] at hdirs
        obtain ⟨identity,writable,hlookup⟩ := hdirs free hne hbelow
        simp [hfree] at hlookup
  · refine h.differs p fun place hmem => ?_
    rcases List.mem_append.mp hmem with hmem | hmem
    · exact hp place hmem
    · obtain rfl := List.mem_singleton.mp hmem
      exact hunder

theorem triple_removeDirAll {p : Path ν} {identity : ι} (h : t.Real p identity) :
    Triple (fun d => d.tree = t) (Call.removeDirAll O p)
      (fun _ d => t.Pruned [p] d.tree) fun _ d => t.DiffersUnder [p] d.tree := by
  obtain ⟨hdirs,writable,hlookup⟩ := h
  have hplace := place_of_dirs (hdirs.initial ( List.dropLast_prefix p))
  refine (triple_changing _ _).post ?_ ?_
  · intro _ d hd
    have htree : d.tree = t.remove p := by
      simpa [Tree.removeDirAll,hplace,hlookup,bind,Except.bind,eq_comm] using hd
    rw [htree]
    constructor
    · intro q hq
      rw [lookup_remove,if_neg (hq p (by simp))]
    · rintro q ⟨place,hmem,hq⟩
      obtain rfl := List.mem_singleton.mp hmem
      rw [lookup_remove,if_pos hq]
  · rintro _ d (hd | ⟨n,hd⟩) q hq
    · rw [hd]
    · rw [hd,Tree.partly,hplace]
      simp only
      rw [lookup_keep,if_pos]
      simp [hq p (by simp)]

theorem triple_rename {source target : Path ν} {identity : ι} (h : t.Real source identity)
    (hparent : t.Dirs target.dropLast) (hne : target ≠ []) (hfree : t.lookup target = none)
    (hinside : ¬ source <+: target) :
    Triple (fun d => d.tree = t) (Call.rename O source target)
      (fun _ d => t.DiffersUnder [source,target] d.tree ∧ d.tree.Bare [source]) fun _ d => d.tree = t := by
  obtain ⟨hdirs,writable,hlookup⟩ := h
  have hbelow : ¬ target <+: source := fun hle => by
    obtain ⟨_,_,hsome⟩ := hdirs target hne hle
    simp [hfree] at hsome
  have hsource := place_of_dirs (hdirs.initial ( List.dropLast_prefix source))
  have htarget := place_of_dirs hparent
  have hmove (q : Path ν) := lookup_move (t := t) (q := q) hinside hbelow
  refine (triple_changing _ _).post ?_ ?_
  · intro _ d hd
    have htree : d.tree = t.move source target := by
      simpa [Tree.rename,hsource,htarget,hlookup,hfree,bind,Except.bind,eq_comm] using hd
    rw [htree]
    constructor
    · intro q hq
      rw [hmove,if_neg (hq _ (by simp)),if_neg (hq _ (by simp))]
    · rintro q ⟨place,hmem,hq⟩
      obtain rfl := List.mem_singleton.mp hmem
      have hother : ¬ target <+: q := fun ht =>
        (List.prefix_or_prefix_of_prefix hq ht).elim hinside hbelow
      rw [hmove,if_neg hother,if_pos hq]
  · rintro _ d (hd | ⟨n,hd⟩)
    · exact hd
    · exact hd

end

end FileTree
end North
