import North.Lib.FileTree

/-! The calls that add to a file tree: a directory is made, a file is written, a directory is
given to its owner alone. What a call leaves alone, trees agree on. -/
namespace North
namespace FileTree

variable {ν ι : Type}

namespace Tree

variable [DecidableEq ν] (t : Tree ν ι)

/-- Put an entry at a path, in place of the one there. -/
def put (p : Path ν) (entry : Entry ν ι) : Tree ν ι where
  entries := (p,entry)::t.entries.filter fun other => !decide (other.1 = p)

/-- Walk to where an entry is or may be made. `follow` goes on behind a link. -/
def reachFrom (follow : Path ν → List (Component ν) → Except IoError (Path ν)) :
    Path ν → List (Component ν) → Except IoError (Path ν)
  | at_, [] => .ok at_
  | at_, .up::rest => reachFrom follow at_.dropLast rest
  | at_, .down name::rest =>
    match t.lookup (at_ ++ [name]) with
    | none => if rest.isEmpty then .ok (at_ ++ [name]) else .error .notFound
    | some (.dir _ _) => reachFrom follow (at_ ++ [name]) rest
    | some (.file _ _) => if rest.isEmpty then .ok (at_ ++ [name]) else .error .notADirectory
    | some (.symlink _ absolute target) => follow (if absolute then [] else at_) (target ++ rest)

def reach : ℕ → Path ν → List (Component ν) → Except IoError (Path ν)
  | 0 => t.reachFrom fun _ _ => .error .filesystemLoop
  | links+1 => t.reachFrom (reach links)

def createDir (identity : ι) (p : Path ν) : Except IoError (Tree ν ι) := do
  let p ← t.place p
  if p.isEmpty || (t.lookup p).isSome then .error .alreadyExists else .ok (t.put p (.dir identity true))

def write (identity : ι) (p : Path ν) (content : List UInt8) : Except IoError (Tree ν ι) := do
  let p ← t.reach maxLinks [] (p.map .down)
  if t.holds p then .error .isADirectory
  else match t.lookup p with
    | some (.file identity _) => .ok (t.put p (.file identity content))
    | _ => .ok (t.put p (.file identity content))

/-- `fs::set_permissions` with mode `0o700`, as far as directories have it. -/
def setOwnerOnly (p : Path ν) : Except IoError (Tree ν ι) := do
  let p ← t.canonicalize p
  match t.lookup p with
  | some (.dir identity _) => .ok (t.put p (.dir identity true))
  | _ => .ok t

/-- The trees have the same entries at such paths. -/
def Agree (P : Path ν → Prop) (t t' : Tree ν ι) : Prop := ∀ p, P p → t'.lookup p = t.lookup p

end Tree

section

variable [DecidableEq ν] {t t' t'' : Tree ν ι} {p q : Path ν} {entry : Entry ν ι}

theorem lookup_put : (t.put p entry).lookup q = if p = q then some entry else t.lookup q := by
  by_cases h : p = q
  · simp [Tree.lookup,Tree.put,h]
  · rw [if_neg h]
    have hkeep := lookup_keep (t := t) (q := q) fun r => !decide (r = p)
    rw [if_pos (by simpa using Ne.symm h)] at hkeep
    rw [← hkeep]
    simp [Tree.lookup,Tree.put,Tree.keep,h]

/-! ### Agreement -/

variable {P Q : Path ν → Prop}

theorem Tree.Agree.refl (t : Tree ν ι) : t.Agree P t := fun _ _ => rfl

theorem Tree.Agree.trans (h : t.Agree P t') (h' : t'.Agree P t'') : t.Agree P t'' :=
  fun p hp => (h' p hp).trans (h p hp)

theorem Tree.Agree.mono (h : t.Agree P t') (hQ : ∀ p, Q p → P p) : t.Agree Q t' := fun p hp => h p (hQ p hp)

theorem Tree.Agree.dirs (h : t.Agree P t') (hp : t.Dirs p) (hbelow : ∀ q, q <+: p → P q) : t'.Dirs p :=
  hp.congr fun q hq => h q (hbelow q hq)

theorem Tree.Agree.real {identity : ι} (h : t.Agree P t') (hp : t.Real p identity)
    (hbelow : ∀ q, q <+: p → P q) : t'.Real p identity :=
  hp.congr fun q hq => h q (hbelow q hq)

theorem agree_of_differs {places : List (Path ν)} (h : t.DiffersUnder places t')
    (hP : ∀ p, P p → ∀ place ∈ places, ¬ place <+: p) : t.Agree P t' := fun p hp => h p (hP p hp)

/-- Nothing is under a path with no entry. -/
theorem Tree.Closed.free (hclosed : t.Closed) (hne : p ≠ []) (hfree : t.lookup p = none) (hpq : p <+: q) :
    t.lookup q = none := by
  by_contra hsome
  rcases List.eq_nil_or_concat' q with rfl | ⟨parent,name,rfl⟩
  · exact hne (List.prefix_nil.mp hpq)
  · rcases List.prefix_concat_iff.mp hpq with rfl | hbelow
    · exact hsome hfree
    · have hdirs := hclosed _ hsome
      rw [List.dropLast_concat] at hdirs
      obtain ⟨identity,writable,hlookup⟩ := hdirs p hne hbelow
      simp [hfree] at hlookup

/-! ### The calls -/

theorem reachFrom_dirs {follow : Path ν → List (Component ν) → Except IoError (Path ν)} (at_ : Path ν)
    {names : List ν} (h : t.Dirs (at_ ++ names)) (rest : List (Component ν)) :
    t.reachFrom follow at_ (names.map .down ++ rest) = t.reachFrom follow (at_ ++ names) rest := by
  induction names generalizing at_ with
  | nil => simp
  | cons name names ih =>
    have hcons : at_ ++ name::names = at_ ++ [name] ++ names := by simp
    rw [hcons] at h ⊢
    obtain ⟨identity,writable,hlookup⟩ := h (at_ ++ [name]) (by simp) (List.prefix_append _ _)
    have hnext := ih _ h
    simp only [List.map_cons,List.cons_append,Tree.reachFrom,hlookup] at hnext ⊢
    exact hnext

/-- A walk along directories reaches a name with nothing at it. -/
theorem reach_free (links : ℕ) (h : t.Dirs p.dropLast) (hne : p ≠ []) (hfree : t.lookup p = none) :
    t.reach links [] (p.map .down) = .ok p := by
  obtain ⟨parent,name,rfl⟩ := (List.eq_nil_or_concat' p).resolve_left hne
  rw [List.dropLast_concat] at h
  have hreach : ∀ follow : Path ν → List (Component ν) → Except IoError (Path ν),
      t.reachFrom follow [] ((parent ++ [name]).map .down) = .ok (parent ++ [name]) := by
    intro follow
    rw [List.map_append,reachFrom_dirs [] h]
    simp [Tree.reachFrom,hfree]
  cases links with
  | zero => exact hreach _
  | succ links => exact hreach _

theorem reach_missing {name file : ν} (links : ℕ) (h : t.Dirs p) (hmissing : t.lookup (p ++ [name]) = none) :
    t.reach links [] ((p ++ [name] ++ [file]).map .down) = .error .notFound := by
  have hreach : ∀ follow : Path ν → List (Component ν) → Except IoError (Path ν),
      t.reachFrom follow [] ((p ++ [name] ++ [file]).map .down) = .error .notFound := by
    intro follow
    rw [List.append_assoc,List.map_append,reachFrom_dirs [] h]
    simp [Tree.reachFrom,hmissing]
  cases links with
  | zero => exact hreach _
  | succ links => exact hreach _

end

/-! ### Programs -/

section

open Prog

variable {α β ε ε' : Type} (O : Outcomes ν)

namespace Call

/-- A call that changes the tree, where what it makes depends on the moment. -/
def making (f : ℕ → Tree ν ι → Except IoError (Tree ν ι)) (broken : ℕ → Tree ν ι → Tree ν ι) :
    Call ν ι Unit :=
  fun d => changing O (f d.tick) broken d

variable [DecidableEq ν]

def createDir (created : ℕ → ι) (p : Path ν) : Call ν ι Unit :=
  making O (fun n t => t.createDir (created n) p) fun _ t => t

/-- A write that fails may have written a part, or not have opened its file. -/
def write (created : ℕ → ι) (kept : ℕ → Option ℕ) (p : Path ν) (content : List UInt8) : Call ν ι Unit :=
  making O (fun n t => t.write (created n) p content) fun n t =>
    match kept n with
    | none => t
    | some k => ((t.write (created n) p (content.take k)).toOption).getD t

def setOwnerOnly (p : Path ν) : Call ν ι Unit :=
  making O (fun _ t => t.setOwnerOnly p) fun _ t => t

end Call

variable {O} {t : Tree ν ι}

theorem triple_making (f : ℕ → Tree ν ι → Except IoError (Tree ν ι)) (broken : ℕ → Tree ν ι → Tree ν ι) :
    Triple (fun d => d.tree = t) (Call.making O f broken) (fun _ d => ∃ n, f n t = .ok d.tree)
      fun _ d => d.tree = t ∨ ∃ n, d.tree = broken n t := by
  intro d hd r d' hexec
  have htriple := triple_changing (O := O) (t := t) (f d.tick) broken d hd r d' hexec
  cases r with
  | ok _ => exact ⟨d.tick,htriple⟩
  | error _ => exact htriple

variable [DecidableEq ν] {p : Path ν} {created : ℕ → ι}

theorem triple_createDir (hparent : t.Dirs p.dropLast) :
    Triple (fun d => d.tree = t) (Call.createDir O created p)
      (fun _ d => p ≠ [] ∧ t.lookup p = none ∧ (∃ identity, d.tree.lookup p = some (.dir identity true)) ∧
        t.Agree (· ≠ p) d.tree) fun _ d => d.tree = t := by
  refine (triple_making _ _).post ?_ ?_
  · rintro _ d ⟨n,hd⟩
    simp only [Tree.createDir,place_of_dirs hparent,bind,Except.bind] at hd
    split_ifs at hd with h
    have hp : p ≠ [] ∧ t.lookup p = none := by simpa using h
    rw [← Except.ok.inj hd]
    refine ⟨hp.1,hp.2,⟨created n,?_⟩,fun q hq => ?_⟩
    · rw [lookup_put,if_pos rfl]
    · rw [lookup_put,if_neg (Ne.symm hq)]
  · rintro _ d (hd | ⟨n,hd⟩)
    · exact hd
    · exact hd

theorem agree_write {n : ℕ} {content : List UInt8} {t' : Tree ν ι} (hparent : t.Dirs p.dropLast) (hne : p ≠ [])
    (hfree : t.lookup p = none) (h : t.write (created n) p content = .ok t') : t.Agree (· ≠ p) t' := by
  have hholds : t.holds p = false := by
    simp [Tree.holds,hfree,hne]
  simp only [Tree.write,reach_free _ hparent hne hfree,bind,Except.bind,hholds,hfree] at h
  obtain rfl : t.put p (.file (created n) content) = t' := by simpa using h
  intro q hq
  rw [lookup_put,if_neg (Ne.symm hq)]

theorem triple_write {kept : ℕ → Option ℕ} {content : List UInt8} (hparent : t.Dirs p.dropLast) (hne : p ≠ [])
    (hfree : t.lookup p = none) :
    Triple (fun d => d.tree = t) (Call.write O created kept p content) (fun _ d => t.Agree (· ≠ p) d.tree)
      fun _ d => t.Agree (· ≠ p) d.tree := by
  refine (triple_making _ _).post ?_ ?_
  · rintro _ d ⟨n,hd⟩
    exact agree_write hparent hne hfree hd
  · rintro _ d (hd | ⟨n,hd⟩)
    · rw [hd]
      exact .refl t
    · cases hkept : kept n with
      | none =>
        simp only [hkept] at hd
        rw [hd]
        exact .refl t
      | some k =>
        simp only [hkept] at hd
        cases hwrite : t.write (created n) p (content.take k) with
        | error e =>
          simp only [hwrite,Except.toOption,Option.getD_none] at hd
          rw [hd]
          exact .refl t
        | ok t' =>
          simp only [hwrite,Except.toOption,Option.getD_some] at hd
          rw [hd]
          exact agree_write hparent hne hfree hwrite

theorem triple_write_missing {kept : ℕ → Option ℕ} {content : List UInt8} {name file : ν} (hdirs : t.Dirs p)
    (hmissing : t.lookup (p ++ [name]) = none) :
    Triple (fun d => d.tree = t) (Call.write O created kept (p ++ [name] ++ [file]) content) (fun _ _ => False)
      fun _ d => d.tree = t := by
  have hwrite : ∀ n content, t.write (created n) (p ++ [name] ++ [file]) content = .error .notFound := by
    intro n content
    simp only [Tree.write,reach_missing _ hdirs hmissing,bind,Except.bind]
  refine (triple_making _ _).post ?_ ?_
  · rintro _ d ⟨n,hd⟩
    rw [hwrite] at hd
    cases hd
  · rintro _ d (hd | ⟨n,hd⟩)
    · exact hd
    · simp only [hwrite] at hd
      cases hkept : kept n with
      | none => simpa [hkept] using hd
      | some k => simpa [hkept,Except.toOption] using hd

/-- A directory that is given to its owner stays the directory that it was. -/
theorem triple_setOwnerOnly {identity : ι} (h : t.Real p identity) :
    Triple (fun d => d.tree = t) (Call.setOwnerOnly O p)
      (fun _ d => t.Agree (· ≠ p) d.tree ∧ d.tree.Real p identity) fun _ d => d.tree = t := by
  obtain ⟨hdirs,writable,hlookup⟩ := h
  refine (triple_making _ _).post ?_ ?_
  · rintro _ d ⟨n,hd⟩
    simp only [Tree.setOwnerOnly,canonicalize_of_dirs hdirs,bind,Except.bind,hlookup] at hd
    rw [← Except.ok.inj hd]
    have hsame : t.Agree (· ≠ p) (t.put p (.dir identity true)) := fun q hq => by
      rw [lookup_put,if_neg (Ne.symm hq)]
    have hself : (t.put p (.dir identity true)).lookup p = some (.dir identity true) := by
      rw [lookup_put,if_pos rfl]
    refine ⟨hsame,fun q hq hinit => ?_,true,hself⟩
    by_cases heq : q = p
    · exact ⟨identity,true,heq ▸ hself⟩
    · rw [hsame q heq]
      exact hdirs q hq hinit
  · rintro _ d (hd | ⟨n,hd⟩)
    · exact hd
    · exact hd

end

/-! ### What a program leaves alone -/

section

open Prog

variable [DecidableEq ν] {α β ε ε' : Type} {t : Tree ν ι} {P P' : Path ν → Prop} {m : Prog (Disk ν ι) ε α}
  {Q Q' : α → Tree ν ι → Prop} {R R' : ε → Tree ν ι → Prop}

/-- From this tree the program leaves the entries at such paths, and `Q` holds where it returns,
`R` where it fails. -/
def Keeps (P : Path ν → Prop) (t : Tree ν ι) (m : Prog (Disk ν ι) ε α) (Q : α → Tree ν ι → Prop)
    (R : ε → Tree ν ι → Prop) : Prop :=
  Triple (fun d => d.tree = t) m (fun a d => t.Agree P d.tree ∧ Q a d.tree) fun e d => t.Agree P d.tree ∧ R e d.tree

theorem same_tree {X : Tree ν ι → Prop} {t' : Tree ν ι} (h : t' = t) (hX : X t) : t.Agree P t' ∧ X t' :=
  h ▸ ⟨.refl t',h ▸ hX⟩

theorem keeps_pure {a : α} (h : Q a t) : Keeps P t (pure a : Prog (Disk ν ι) ε α) Q R :=
  triple_pure fun _ hd => same_tree hd h

theorem keeps_fail {e : ε} (h : R e t) : Keeps P t (fail e : Prog (Disk ν ι) ε α) Q R :=
  triple_fail fun _ hd => same_tree hd h

theorem Keeps.post (h : Keeps P t m Q R) (hQ : ∀ a t', t.Agree P t' → Q a t' → Q' a t')
    (hR : ∀ e t', t.Agree P t' → R e t' → R' e t') : Keeps P t m Q' R' :=
  Triple.post h (fun a d hd => ⟨hd.1,hQ a d.tree hd.1 hd.2⟩) fun e d hd => ⟨hd.1,hR e d.tree hd.1 hd.2⟩

theorem Keeps.mono (h : Keeps P t m Q R) (hP : ∀ p, P' p → P p) : Keeps P' t m Q R :=
  Triple.post h (fun _ _ hd => ⟨hd.1.mono hP,hd.2⟩) fun _ _ hd => ⟨hd.1.mono hP,hd.2⟩

theorem keeps_of_seen {S : α → Prop} (h : Seen t m S) (hQ : ∀ a, S a → Q a t) (hR : ∀ e, R e t) :
    Keeps P t m Q R :=
  Triple.post h (fun a _ hd => same_tree hd.1 (hQ a hd.2)) fun e _ hd => same_tree hd (hR e)

variable {f : α → Prog (Disk ν ι) ε β} {Q₂ : β → Tree ν ι → Prop}

theorem keeps_bind (hm : Keeps P t m Q R)
    (hf : ∀ a t', t.Agree P t' → Q a t' → Keeps P t' (f a) Q₂ R) : Keeps P t (m >>= f) Q₂ R := by
  refine triple_bind hm fun a => triple_each (P := fun t' => t.Agree P t' ∧ Q a t') fun t' ht' => ?_
  exact Triple.post (hf a t' ht'.1 ht'.2) (fun _ _ hd => ⟨ht'.1.trans hd.1,hd.2⟩)
    fun _ _ hd => ⟨ht'.1.trans hd.1,hd.2⟩

theorem keeps_after {S : α → Prop} (hm : Seen t m S) (hR : ∀ e, R e t)
    (hf : ∀ a, S a → Keeps P t (f a) Q₂ R) : Keeps P t (m >>= f) Q₂ R :=
  triple_of_seen hm (fun e _ hd => same_tree hd (hR e)) hf

theorem keeps_mapError {g : ε → ε'} {R₂ : ε' → Tree ν ι → Prop}
    (hm : Keeps P t m Q fun e t' => R₂ (g e) t') : Keeps P t (mapError g m) Q R₂ :=
  triple_mapError hm

theorem keeps_attempt {R₂ : ε' → Tree ν ι → Prop} (hm : Keeps P t m Q R) :
    Keeps P t (attempt m : Prog (Disk ν ι) ε' (Except ε α))
      (fun r t' => (∀ a, r = .ok a → Q a t') ∧ ∀ e, r = .error e → R e t') R₂ := by
  refine triple_attempt hm (fun a d hd => ⟨hd.1,?_,?_⟩) fun e d hd => ⟨hd.1,?_,?_⟩
  · rintro _ ⟨⟩
    exact hd.2
  · rintro _ ⟨⟩
  · rintro _ ⟨⟩
  · rintro _ ⟨⟩
    exact hd.2

end

end FileTree
end North
