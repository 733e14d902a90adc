import North.RoleBlindness

/-! Runs of the server's access control. Every privilege that somebody has or uses is traced
back through the record: to the session of a sign-in, to the change of a role by somebody who
might change it, and at the end to the first user that ever signed in. -/
namespace North

namespace EmailAuth

section

variable {A : Auth} {w w' : World} {o x y : Txn}

/-- The sign-in finds its user, or is about to insert one. -/
inductive Finds (w : World) (o : Txn) (userId : String) : User → Bool → Prop
  | found {user : User} (hmem : user ∈ w.users) (hemail : user.email = o.email) : Finds w o userId user false
  | fresh (hemails : ∀ v ∈ w.users, v.email ≠ o.email) (hids : ∀ v ∈ w.users, v.id ≠ userId) :
      Finds w o userId ⟨userId,o.email,.requester⟩ true

/-- How a step changes what the open transactions know of users. -/
inductive UserStep (w : World) (o : Txn) (userId : String) (phase : Phase) : Prop
  | none (h : ({ o with phase } : Txn).user? = .none)
  | found {row : CodeRow} {user : User} {fresh : Bool} (hphase : phase = .signedIn row user fresh)
      (hfree : w.userLocked o o.email userId = false) (hfinds : Finds w o userId user fresh)
  | asked {row : CodeRow} {user : User} {fresh : Bool} (hfrom : o.phase = .signedIn row user fresh)
      (hphase : phase = .ownerAsked row user fresh w.ownerUserId.isNone)

/-- The sign-in finds its user or is to insert one; where another one has taken the id, it fails. -/
theorem signIn_opens {userId : String} {row : CodeRow} (hstep : w.signIn o row userId = some w') :
    w'.opens = w.others o ∨ ∃ phase, w'.opens = { o with phase }::w.others o ∧ UserStep w o userId phase := by
  unfold World.signIn at hstep
  by_cases hlocked : w.userLocked o o.email userId = true
  · simp [hlocked] at hstep
  have hfree : w.userLocked o o.email userId = false := by simpa using hlocked
  rw [if_neg hlocked] at hstep
  cases hfind : w.users.find? fun u => decide (u.email = o.email) with
  | some user =>
    simp only [hfind,Option.some.injEq] at hstep
    subst hstep
    have hemail := List.find?_some hfind
    exact .inr ⟨_,rfl,.found rfl hfree (.found (List.mem_of_find?_eq_some hfind) (by simpa using hemail))⟩
  | none =>
    simp only [hfind] at hstep
    split_ifs at hstep with htaken
    · obtain rfl := Option.some.inj hstep
      exact .inl rfl
    · obtain rfl := Option.some.inj hstep
      refine .inr ⟨_,rfl,.found rfl hfree (.fresh ?_ ?_)⟩
      · simpa using hfind
      · simpa using htaken

theorem advance_opens {userId : String} (hstep : w.advance A o userId = some w') :
    w'.opens = w.others o ∨ ∃ phase, w'.opens = { o with phase }::w.others o ∧ UserStep w o userId phase := by
  have hput {phase : Phase} {w'' : World} (hw : w''.opens = (w.put o phase).opens)
      (h : ({ o with phase } : Txn).user? = .none) :
      w''.opens = w.others o ∨ ∃ phase, w''.opens = { o with phase }::w.others o ∧ UserStep w o userId phase :=
    .inr ⟨phase,hw,.none h⟩
  unfold World.advance at hstep
  cases hphase : o.phase with
  | issueBegun =>
    simp only [hphase] at hstep
    split_ifs at hstep
    obtain rfl := Option.some.inj hstep
    exact hput rfl rfl
  | issueLocked =>
    simp only [hphase,Option.some.injEq] at hstep
    subst hstep
    split_ifs
    · exact .inl rfl
    · exact hput rfl rfl
  | issueChecked =>
    simp only [hphase,Option.some.injEq] at hstep
    subst hstep
    exact hput rfl rfl
  | superseding todo held =>
    cases todo with
    | nil =>
      simp only [hphase,Option.some.injEq] at hstep
      subst hstep
      split_ifs
      · exact .inl rfl
      · exact hput rfl rfl
    | cons id todo =>
      simp only [hphase] at hstep
      split at hstep
      · simp at hstep
      · obtain rfl := Option.some.inj hstep
        exact hput rfl rfl
  | inserted held row =>
    simp only [hphase,Option.some.injEq] at hstep
    exact .inl (hstep ▸ rfl)
  | verifyBegun =>
    simp only [hphase,Option.some.injEq] at hstep
    subst hstep
    exact hput rfl rfl
  | choosing todo =>
    cases todo with
    | nil =>
      simp only [hphase,Option.some.injEq] at hstep
      exact .inl (hstep ▸ rfl)
    | cons id todo =>
      simp only [hphase] at hstep
      split at hstep
      · simp at hstep
      · split at hstep
        · obtain rfl := Option.some.inj hstep
          exact hput rfl rfl
        · split_ifs at hstep <;> obtain rfl := Option.some.inj hstep <;> exact hput rfl rfl
  | mismatched row =>
    simp only [hphase,Option.some.injEq] at hstep
    exact .inl (hstep ▸ rfl)
  | matched row =>
    simp only [hphase,Option.some.injEq] at hstep
    subst hstep
    split_ifs
    · exact hput rfl rfl
    · exact .inl rfl
  | consumed row =>
    simp only [hphase] at hstep
    exact signIn_opens hstep
  | signedIn row user fresh =>
    simp only [hphase] at hstep
    split_ifs at hstep
    obtain rfl := Option.some.inj hstep
    exact .inr ⟨_,rfl,.asked hphase rfl⟩
  | ownerAsked row user fresh claimed =>
    simp only [hphase,Option.some.injEq] at hstep
    exact .inl (hstep ▸ rfl)

/-! ### Users and the sign-ins that are under way -/

/-- An open sign-in has the user of its email, or is the only one to insert it. -/
structure Txn.Placed (w : World) (x : Txn) : Prop where
  email : ∀ u ∈ x.user?, u.email = x.email
  inserts : ∀ u ∈ x.newUser?, u.role = .requester ∧ ∀ v ∈ w.users, v.id ≠ u.id ∧ v.email ≠ u.email
  finds : x.newUser? = none → ∀ u ∈ x.user?, ∃ v ∈ w.users, v.id = u.id ∧ v.email = u.email
  asked : ∀ row user fresh, x.phase = .ownerAsked row user fresh false → w.ownerUserId ≠ none

structure Keyed (w : World) : Prop where
  ids : (w.users.map (·.id)).Nodup
  emails : (w.users.map (·.email)).Nodup
  placed : ∀ x ∈ w.opens, x.Placed w
  apart : ∀ x ∈ w.opens, ∀ y ∈ w.opens, x.id ≠ y.id → ∀ u ∈ x.user?, ∀ v ∈ y.user?,
    u.id ≠ v.id ∧ u.email ≠ v.email

theorem eq_of_userId (h : Keyed w) {u v : User} (hu : u ∈ w.users) (hv : v ∈ w.users) (hid : u.id = v.id) :
    u = v :=
  List.inj_on_of_nodup_map h.ids hu hv hid

def World.identities (w : World) : List (String × String) := w.users.map fun u => (u.id,u.email)

theorem exists_of_identities (h : w'.identities = w.identities) {v : User} (hv : v ∈ w'.users) :
    ∃ u ∈ w.users, u.id = v.id ∧ u.email = v.email := by
  have hmem : (v.id,v.email) ∈ w.identities := h ▸ List.mem_map_of_mem (f := fun u : User => (u.id,u.email)) hv
  obtain ⟨u,hu,heq⟩ := List.mem_map.mp hmem
  exact ⟨u,hu,(Prod.mk.inj heq).1,(Prod.mk.inj heq).2⟩

theorem Txn.Placed.identities (h : x.Placed w) (hids : w'.identities = w.identities)
    (howner : w.ownerUserId ≠ none → w'.ownerUserId ≠ none) : x.Placed w' where
  email := h.email
  inserts u hu := by
    refine ⟨(h.inserts u hu).1,fun v hv => ?_⟩
    obtain ⟨v₀,hv₀,hid,hemail⟩ := exists_of_identities hids hv
    rw [← hid,← hemail]
    exact (h.inserts u hu).2 v₀ hv₀
  finds hnew u hu := by
    obtain ⟨v,hv,hid,hemail⟩ := h.finds hnew u hu
    obtain ⟨v',hv',hid',hemail'⟩ := exists_of_identities hids.symm hv
    exact ⟨v',hv',hid'.trans hid,hemail'.trans hemail⟩
  asked row user fresh hphase := howner (h.asked row user fresh hphase)

theorem Keyed.identities (h : Keyed w) (hids : w'.identities = w.identities)
    (howner : w.ownerUserId ≠ none → w'.ownerUserId ≠ none) (hopens : w'.opens ⊆ w.opens) : Keyed w' where
  ids := by
    have hmap := congrArg (List.map Prod.fst) hids
    simp only [World.identities,List.map_map,Function.comp_def] at hmap
    exact hmap ▸ h.ids
  emails := by
    have hmap := congrArg (List.map Prod.snd) hids
    simp only [World.identities,List.map_map,Function.comp_def] at hmap
    exact hmap ▸ h.emails
  placed x hx := (h.placed x (hopens hx)).identities hids howner
  apart x hx y hy := h.apart x (hopens hx) y (hopens hy)

theorem user?_of_newUser? {u : User} (h : x.newUser? = some u) : x.user? = some u := by
  unfold Txn.newUser? at h
  unfold Txn.user?
  split at h <;> simp_all

theorem Keyed.placed_put (h : Keyed w) (ho : o ∈ w.opens) {userId : String} {phase : Phase}
    (hstep : UserStep w o userId phase) : ({ o with phase } : Txn).Placed w := by
  cases hstep with
  | none hnone =>
    have hnew : ({ o with phase } : Txn).newUser? = none := by
      cases hcase : ({ o with phase } : Txn).newUser? with
      | none => rfl
      | some u => rw [user?_of_newUser? hcase] at hnone; cases hnone
    refine ⟨by simp [hnone],by simp [hnew],by simp [hnone],fun row user fresh hphase => ?_⟩
    rw [show phase = _ from hphase] at hnone
    cases hnone
  | found hphase hfree hfinds =>
    subst hphase
    cases hfinds with
    | found hmem hemail =>
      refine ⟨?_,by simp [Txn.newUser?],?_,by simp⟩
      · simpa [Txn.user?] using hemail
      · intro _ u hu
        obtain rfl : _ = u := by simpa [Txn.user?] using hu
        exact ⟨_,hmem,rfl,rfl⟩
    | fresh hemails hnew =>
      refine ⟨by simp [Txn.user?],?_,by simp [Txn.newUser?],by simp⟩
      intro u hu
      obtain rfl : _ = u := by simpa [Txn.newUser?] using hu
      exact ⟨rfl,fun v hv => ⟨hnew v hv,hemails v hv⟩⟩
  | asked hfrom hphase =>
    rename_i row user fresh
    subst hphase
    have hold := h.placed o ho
    have huser : ({ o with phase := .ownerAsked row user fresh w.ownerUserId.isNone } : Txn).user? = o.user? := by
      simp [Txn.user?,hfrom]
    refine ⟨fun u hu => hold.email u (huser ▸ hu),?_,?_,?_⟩
    · intro u hu
      refine hold.inserts u ?_
      cases fresh <;> simp_all [Txn.newUser?]
    · intro hnew u hu
      refine hold.finds ?_ u (huser ▸ hu)
      cases fresh <;> simp_all [Txn.newUser?]
    · intro row' user' fresh' hphase
      simp only [Phase.ownerAsked.injEq] at hphase
      intro hnone
      simp [hnone] at hphase

/-- The user of the step is not the user of another open sign-in: its email and id are locked. -/
theorem Keyed.apart_put (h : Keyed w) (ho : o ∈ w.opens) {userId : String} {phase : Phase}
    (hstep : UserStep w o userId phase) (hx : x ∈ w.others o) {u v : User}
    (hu : u ∈ ({ o with phase } : Txn).user?) (hv : v ∈ x.user?) : u.id ≠ v.id ∧ u.email ≠ v.email := by
  have hxo := mem_others.mp hx
  cases hstep with
  | none hnone => simp [hnone] at hu
  | found hphase hfree hfinds =>
    subst hphase
    have hlocked : ¬ (v.email == o.email || v.id == userId) = true := by
      simp only [World.userLocked,List.any_eq_false] at hfree
      have := hfree x hx
      rw [hv] at this
      simpa using this
    simp only [Bool.or_eq_true,beq_iff_eq,not_or] at hlocked
    cases hfinds with
    | found hmem hemail =>
      obtain rfl : _ = u := by simpa [Txn.user?] using hu
      refine ⟨fun hid => ?_,fun heq => hlocked.1 (heq.symm.trans hemail)⟩
      cases hnew : x.newUser? with
      | some v' =>
        obtain rfl : v' = v := Option.some.inj ((user?_of_newUser? hnew).symm.trans hv)
        exact (((h.placed x hxo.1).inserts v' hnew).2 _ hmem).1 hid
      | none =>
        obtain ⟨v₀,hv₀,hid₀,hemail₀⟩ := (h.placed x hxo.1).finds hnew v hv
        obtain rfl := eq_of_userId h hv₀ hmem (hid₀.trans hid.symm)
        exact hlocked.1 (hemail₀.symm.trans hemail)
    | fresh hemails hnew =>
      obtain rfl : _ = u := by simpa [Txn.user?] using hu
      exact ⟨fun hid => hlocked.2 hid.symm,fun heq => hlocked.1 heq.symm⟩
  | asked hfrom hphase =>
    subst hphase
    refine h.apart o ho x hxo.1 (Ne.symm hxo.2) u ?_ v hv
    simpa [Txn.user?,hfrom] using hu

theorem Keyed.put (h : Keyed w) (ho : o ∈ w.opens) {userId : String} {phase : Phase}
    (hstep : UserStep w o userId phase) (hids : w'.identities = w.identities)
    (howner : w'.ownerUserId = w.ownerUserId) (hopens : w'.opens = { o with phase }::w.others o) : Keyed w' := by
  have hbase : Keyed { w' with opens := w.others o } :=
    h.identities hids (fun hne => howner ▸ hne) fun x hx => (mem_others.mp hx).1
  refine ⟨hbase.ids,hbase.emails,fun x hx => ?_,fun x hx y hy hne u hu v hv => ?_⟩
  · rw [hopens] at hx
    rcases List.mem_cons.mp hx with rfl | hx
    · exact (h.placed_put ho hstep).identities hids fun hne => howner ▸ hne
    · exact ((hbase.placed x hx).identities rfl id)
  · rw [hopens] at hx hy
    rcases List.mem_cons.mp hx with rfl | hx <;> rcases List.mem_cons.mp hy with rfl | hy
    · exact absurd rfl hne
    · exact h.apart_put ho hstep hy hu hv
    · obtain ⟨hid,hemail⟩ := h.apart_put ho hstep hx hv hu
      exact ⟨hid.symm,hemail.symm⟩
    · exact hbase.apart x hx y hy hne u hu v hv

theorem commitSuccess_users (w : World) (o : Txn) (row : CodeRow) (user : User) (fresh claimed : Bool) :
    (w.commitSuccess o row user fresh claimed).users =
      (if fresh then w.users ++ [user] else w.users).map fun u =>
        if claimed = true ∧ u.id = user.id then { u with role := .owner } else u := by
  cases claimed <;> simp [World.commitSuccess]

theorem identities_commitSuccess (w : World) (o : Txn) (row : CodeRow) (user : User) (fresh claimed : Bool) :
    (w.commitSuccess o row user fresh claimed).identities =
      w.identities ++ if fresh then [(user.id,user.email)] else [] := by
  unfold World.identities
  rw [commitSuccess_users,List.map_map]
  have hf : (fun u : User => (u.id,u.email)) ∘
      (fun u : User => if claimed = true ∧ u.id = user.id then { u with role := .owner } else u) =
      fun u => (u.id,u.email) := by
    funext u
    simp only [Function.comp_apply]
    split_ifs <;> rfl
  rw [hf]
  cases fresh <;> simp

theorem Keyed.commitSuccess (h : Keyed w) (ho : o ∈ w.opens) {row : CodeRow} {user : User} {fresh claimed : Bool}
    (hphase : o.phase = .ownerAsked row user fresh claimed) : Keyed (w.commitSuccess o row user fresh claimed) := by
  have huser : o.user? = some user := by simp [Txn.user?,hphase]
  have howner : w.ownerUserId ≠ none →
      (w.commitSuccess o row user fresh claimed).ownerUserId ≠ none := fun hne => by
    simp only [World.commitSuccess]
    split_ifs
    · simp
    · exact hne
  have hclosed : Keyed { w.close o with ownerUserId := (w.commitSuccess o row user fresh claimed).ownerUserId } :=
    h.identities rfl howner fun x hx => (mem_others.mp hx).1
  cases fresh with
  | false => exact hclosed.identities (by rw [identities_commitSuccess]; simp; rfl) id fun x hx => hx
  | true =>
    have hnew := ((h.placed o ho).inserts user (by simp [Txn.newUser?,hphase])).2
    have hids := identities_commitSuccess w o row user true claimed
    refine ⟨?_,?_,fun x hx => ?_,fun x hx y hy => hclosed.apart x hx y hy⟩
    · have hmap := congrArg (List.map Prod.fst) hids
      simp only [World.identities,List.map_map,Function.comp_def,List.map_append,if_true,List.map_cons,
        List.map_nil] at hmap
      rw [hmap]
      refine List.nodup_append.mpr ⟨h.ids,by simp,fun a ha b hb heq => ?_⟩
      obtain ⟨v,hv,rfl⟩ := List.mem_map.mp ha
      exact (hnew v hv).1 (heq.trans (List.mem_singleton.mp hb))
    · have hmap := congrArg (List.map Prod.snd) hids
      simp only [World.identities,List.map_map,Function.comp_def,List.map_append,if_true,List.map_cons,
        List.map_nil] at hmap
      rw [hmap]
      refine List.nodup_append.mpr ⟨h.emails,by simp,fun a ha b hb heq => ?_⟩
      obtain ⟨v,hv,rfl⟩ := List.mem_map.mp ha
      exact (hnew v hv).2 (heq.trans (List.mem_singleton.mp hb))
    · have hold := hclosed.placed x hx
      have hxo := mem_others.mp hx
      -- who is there now was there before, or is the user of the commit
      have hmem : ∀ v ∈ (w.commitSuccess o row user true claimed).users, (∃ v₀ ∈ w.users, v₀.id = v.id ∧
          v₀.email = v.email) ∨ v.id = user.id ∧ v.email = user.email := by
        intro v hv
        have hin : (v.id,v.email) ∈ w.identities ++ [(user.id,user.email)] :=
          hids ▸ List.mem_map_of_mem (f := fun u : User => (u.id,u.email)) hv
        rcases List.mem_append.mp hin with hin | hin
        · obtain ⟨v₀,hv₀,heq⟩ := List.mem_map.mp hin
          exact .inl ⟨v₀,hv₀,(Prod.mk.inj heq).1,(Prod.mk.inj heq).2⟩
        · exact .inr (Prod.mk.inj (List.mem_singleton.mp hin))
      refine ⟨hold.email,fun u hu => ⟨(hold.inserts u hu).1,fun v hv => ?_⟩,fun hnone u hu => ?_,hold.asked⟩
      · rcases hmem v hv with ⟨v₀,hv₀,hid,hemail⟩ | ⟨hid,hemail⟩
        · rw [← hid,← hemail]
          exact (hold.inserts u hu).2 v₀ hv₀
        · have hne := h.apart o ho x hxo.1 (Ne.symm hxo.2) user huser u (user?_of_newUser? hu)
          rw [hid,hemail]
          exact hne
      · obtain ⟨v,hv,hid,hemail⟩ := hold.finds hnone u hu
        have hin : (v.id,v.email) ∈ (w.commitSuccess o row user true claimed).identities :=
          hids ▸ List.mem_append_left _ (List.mem_map_of_mem (f := fun u : User => (u.id,u.email)) hv)
        obtain ⟨v',hv',heq⟩ := List.mem_map.mp hin
        obtain ⟨hid',hemail'⟩ := Prod.mk.inj heq
        exact ⟨v',hv',hid'.trans hid,hemail'.trans hemail⟩

theorem keyed_step (h : Keyed w) {act : Act} (hstep : w.step A act = some w') : Keyed w' := by
  have hstart : ∀ x : Txn, x.user? = none → x.newUser? = none → (∀ row user fresh claimed,
      x.phase ≠ .ownerAsked row user fresh claimed) → w.start x = some w' → Keyed w' := by
    intro x huser hnew hphase hx
    unfold World.start at hx
    split_ifs at hx
    obtain rfl := Option.some.inj hx
    refine ⟨h.ids,h.emails,fun y hy => ?_,fun y hy z hz hne u hu v hv => ?_⟩
    · rcases List.mem_cons.mp hy with rfl | hy
      · exact ⟨by simp [huser],by simp [hnew],by simp [huser],fun row user fresh hasked =>
          absurd hasked (hphase _ _ _ _)⟩
      · exact (h.placed y hy).identities rfl id
    · rcases List.mem_cons.mp hy with rfl | hy
      · simp [huser] at hu
      · rcases List.mem_cons.mp hz with rfl | hz
        · simp [huser] at hv
        · exact h.apart y hy z hz hne u hu v hv
  cases act with
  | issueCode txn now email code => exact hstart _ rfl rfl (fun _ _ _ _ => by simp) hstep
  | verifyCode txn now email code => exact hstart _ rfl rfl (fun _ _ _ _ => by simp) hstep
  | rollback txn =>
    obtain ⟨o,-,rfl⟩ := Option.map_eq_some_iff.mp hstep
    exact h.identities rfl id fun x hx => (mem_others.mp hx).1
  | advance txn userId =>
    obtain ⟨o,hfind,hadvance⟩ := Option.bind_eq_some_iff.mp hstep
    have ho := (txn?_mem hfind).1
    obtain hstill | ⟨held,row,-,rfl⟩ | ⟨row,-,rfl⟩ | ⟨row,user,fresh,claimed,hphase,rfl⟩ := advance_cases hadvance
    · have hids : w'.identities = w.identities := by rw [World.identities,hstill.users]; rfl
      rcases advance_opens hadvance with hopens | ⟨phase,hopens,huser⟩
      · exact h.identities hids (fun hne => hstill.ownerUserId ▸ hne) fun x hx => (mem_others.mp (hopens ▸ hx)).1
      · exact h.put ho huser hids hstill.ownerUserId hopens
    · exact h.identities rfl id fun x hx => (mem_others.mp hx).1
    · exact h.identities rfl id fun x hx => (mem_others.mp hx).1
    · exact h.commitSuccess ho hphase

theorem run_concat {acts : List Act} {act : Act} {w₁ : World} (hrun : w.run A acts = some w₁)
    (hstep : w₁.step A act = some w') : w.run A (acts ++ [act]) = some w' := by
  induction acts generalizing w with
  | nil =>
    obtain rfl := Option.some.inj hrun
    simp [World.run,hstep]
  | cons act' acts ih =>
    obtain ⟨w₂,hfirst,hrest⟩ := Option.bind_eq_some_iff.mp hrun
    simp only [List.cons_append,World.run,hfirst,Option.bind_some]
    exact ih hrest

/-- Only the commit of a successful sign-in changes users and sessions. -/
structure Quiet (w w' : World) : Prop where
  users : w'.users = w.users
  sessions : w'.sessions = w.sessions
  ownerUserId : w'.ownerUserId = w.ownerUserId
  successes : w'.successes = w.successes

theorem step_cases {act : Act} (hstep : w.step A act = some w') : Quiet w w' ∨
    ∃ o row user fresh claimed, o ∈ w.opens ∧ o.phase = .ownerAsked row user fresh claimed ∧
      w' = w.commitSuccess o row user fresh claimed := by
  have hstart : ∀ x : Txn, w.start x = some w' → Quiet w w' := by
    intro x hx
    unfold World.start at hx
    split_ifs at hx
    obtain rfl := Option.some.inj hx
    exact ⟨rfl,rfl,rfl,rfl⟩
  cases act with
  | issueCode txn now email code => exact .inl (hstart _ hstep)
  | verifyCode txn now email code => exact .inl (hstart _ hstep)
  | rollback txn =>
    obtain ⟨o,-,rfl⟩ := Option.map_eq_some_iff.mp hstep
    exact .inl ⟨rfl,rfl,rfl,rfl⟩
  | advance txn userId =>
    obtain ⟨o,hfind,hadvance⟩ := Option.bind_eq_some_iff.mp hstep
    obtain hstill | ⟨held,row,-,rfl⟩ | ⟨row,-,rfl⟩ | ⟨row,user,fresh,claimed,hphase,rfl⟩ := advance_cases hadvance
    · exact .inl ⟨hstill.users,hstill.sessions,hstill.ownerUserId,hstill.successes⟩
    · exact .inl ⟨rfl,rfl,rfl,rfl⟩
    · exact .inl ⟨rfl,rfl,rfl,rfl⟩
    · exact .inr ⟨o,row,user,fresh,claimed,(txn?_mem hfind).1,hphase,rfl⟩

end

end EmailAuth

namespace Access

open EmailAuth

/-! ### The record -/

/-- The role that the record gives a user. -/
def roleIn : List Event → String → Role
  | [], _ => .requester
  | .signedIn userId _ _ founder::past, id => if founder = true ∧ userId = id then .owner else roleIn past id
  | .assigned _ targetId role::past, id => if targetId = id then role else roleIn past id
  | .loggedOut _::past, id => roleIn past id
  | .admitted _ _::past, id => roleIn past id

/-- At some earlier time the caller had a session under its token, which had not expired and had
not been ended, and the role that the request was judged by. -/
def Vouched (past : List Event) (c : Caller) : Prop :=
  ∃ then_, then_ <:+ past ∧ (∃ expiresAt founder, .signedIn c.user.id c.tokenHash expiresAt founder ∈ then_ ∧
    c.now < expiresAt) ∧ .loggedOut c.tokenHash ∉ then_ ∧ roleIn then_ c.user.id = c.user.role

/-- The event was in order when it happened. -/
def InOrder (past : List Event) : Event → Prop
  | .signedIn _ _ _ founder => founder = true ↔ ∀ userId tokenHash expiresAt founder',
      .signedIn userId tokenHash expiresAt founder' ∉ past
  | .loggedOut tokenHash => ∃ userId expiresAt founder, .signedIn userId tokenHash expiresAt founder ∈ past
  | .admitted guard caller => Vouched past caller ∧ guard.check caller.user = .ok ()
  | .assigned caller targetId role => Vouched past caller ∧ MayAssign caller.user targetId role

/-- Every event of the record was in order when it happened. -/
def Justified (log : List Event) : Prop := ∀ event past, event::past <:+ log → InOrder past event

/-- The chain of those that have made each other owners, from the founder on. -/
inductive Enthroned (log : List Event) : String → Prop
  | founder {userId : String} {tokenHash : List UInt8} {expiresAt : Time}
      (h : .signedIn userId tokenHash expiresAt true ∈ log) : Enthroned log userId
  | appointed {caller : Caller} {targetId : String} (h : .assigned caller targetId .owner ∈ log)
      (hcaller : Enthroned log caller.user.id) : Enthroned log targetId

section

variable {log past : List Event} {event : Event} {c : Caller} {id : String}

theorem Vouched.later (h : Vouched past c) (hlog : past <:+ log) : Vouched log c := by
  obtain ⟨then_,hthen,hrest⟩ := h
  exact ⟨then_,hthen.trans hlog,hrest⟩

theorem Justified.cons (h : Justified log) (hevent : InOrder log event) : Justified (event::log) := by
  intro event' past hpast
  rcases List.suffix_cons_iff.mp hpast with heq | hpast
  · obtain ⟨rfl,rfl⟩ := List.cons.inj heq
    exact hevent
  · exact h event' past hpast

theorem Enthroned.later (h : Enthroned past id) (hlog : past ⊆ log) : Enthroned log id := by
  induction h with
  | founder h => exact .founder (hlog h)
  | appointed h _ ih => exact .appointed (hlog h) ih

/-- Who is an owner at some time has been made one by an owner, or is the founder. -/
theorem enthroned_of_owner (h : Justified log) (howner : roleIn log id = .owner) : Enthroned log id := by
  -- the grant to this user came from an earlier part of the record
  induction hn : log.length using Nat.strong_induction_on generalizing log id with
  | _ n ih =>
    subst hn
    cases log with
    | nil => cases howner
    | cons event past =>
      have hpast : Justified past := fun e p hp => h e p (hp.trans (List.suffix_cons event past))
      have hrest (hid : roleIn past id = .owner) : Enthroned (event::past) id :=
        (ih past.length (by simp) hpast hid rfl).later (List.subset_cons_self _ _)
      cases event with
      | loggedOut tokenHash => exact hrest howner
      | admitted guard caller => exact hrest howner
      | signedIn userId tokenHash expiresAt founder =>
        simp only [roleIn] at howner
        split_ifs at howner with hfounder
        · obtain ⟨rfl,rfl⟩ := hfounder
          exact .founder List.mem_cons_self
        · exact hrest howner
      | assigned caller targetId role =>
        simp only [roleIn] at howner
        split_ifs at howner with htarget
        · subst htarget howner
          obtain ⟨⟨then_,hthen,-,-,hrole⟩,hmay⟩ := h _ _ (List.suffix_refl _)
          have hcaller := ih then_.length (by have := hthen.length_le; simp; omega)
            (fun e p hp => hpast e p (hp.trans hthen)) (hrole.trans (hmay.owner rfl)) rfl
          exact .appointed List.mem_cons_self (hcaller.later fun e he =>
            List.mem_cons_of_mem _ (hthen.subset he))
        · exact hrest howner

end

/-! ### What holds of the server -/

def Event.names : Event → List String
  | .signedIn userId _ _ _ => [userId]
  | .assigned _ targetId _ => [targetId]
  | _ => []

def signIns (log : List Event) : Prop :=
  ∃ userId tokenHash expiresAt founder, .signedIn userId tokenHash expiresAt founder ∈ log

/-- The tables agree with the record. -/
structure Good (K : Secrets) (s : Server) : Prop where
  /-- But for the roles, the sign-ins are what they are without any change of a role. -/
  signsIn : ∃ acts w, World.run K.auth {} acts = some w ∧ w.plain = s.auth.plain
  keyed : Keyed s.auth
  rows : s.tokens.length = s.auth.sessions.length
  hashes : (s.tokens.map (·.tokenHash)).Nodup
  roles : ∀ u ∈ s.auth.users, u.role = roleIn s.log u.id
  named : ∀ event ∈ s.log, ∀ id ∈ event.names, ∃ u ∈ s.auth.users, u.id = id
  sessions : ∀ row ∈ s.sessionRows, ∃ founder,
    .signedIn row.1.userId row.2.tokenHash row.1.expiresAt founder ∈ s.log
  tokens : ∀ userId tokenHash expiresAt founder, .signedIn userId tokenHash expiresAt founder ∈ s.log →
    tokenHash ∈ s.tokens.map (·.tokenHash)
  ended : ∀ tokenHash, .loggedOut tokenHash ∈ s.log →
    ∃ t ∈ s.tokens, t.tokenHash = tokenHash ∧ t.invalidatedAt ≠ none
  verified : ∀ userId tokenHash expiresAt founder, .signedIn userId tokenHash expiresAt founder ∈ s.log →
    ∃ u ∈ s.auth.users, u.id = userId ∧ ∃ success ∈ s.auth.successes,
      success.email = u.email ∧ expiresAt = success.now+sessionTtl
  founded : s.auth.ownerUserId ≠ none ↔ signIns s.log
  justified : Justified s.log
  callers : ∀ p ∈ s.pending, Vouched s.log p.caller
  entitled : ∀ p ∈ s.pending, ∀ targetId role located, p.work = .assign targetId role located →
    MayAssign p.caller.user targetId role

section

variable {K : Secrets} {s s' : Server} {A : Auth} {w w' : World}

theorem good_fresh (K : Secrets) : Good K {} where
  signsIn := ⟨[],{},rfl,rfl⟩
  keyed := ⟨List.nodup_nil,List.nodup_nil,by simp,by simp⟩
  rows := rfl
  hashes := List.nodup_nil
  roles := by simp
  named := by simp
  sessions := by simp [Server.sessionRows]
  tokens := by simp
  ended := by simp
  verified := by simp
  founded := by simp [signIns]
  justified event past h := by simp at h
  callers := by simp
  entitled := by simp

/-- Whom the middleware lets in has a session that is good now, and its role of now. -/
theorem Good.accepted (h : Good K s) {token : String} {now : Time} {c : Caller}
    (hc : s.caller? K token now = some c) : c.user ∈ s.auth.users ∧ c.tokenHash = K.hashSecret token ∧
      c.now = now ∧ .loggedOut (K.hashSecret token) ∉ s.log ∧ ∃ expiresAt founder,
        .signedIn c.user.id (K.hashSecret token) expiresAt founder ∈ s.log ∧ now < expiresAt := by
  obtain ⟨user,huser,rfl⟩ := Option.map_eq_some_iff.mp hc
  obtain ⟨row,hrow,hfind⟩ := Option.bind_eq_some_iff.mp huser
  have hmem := List.mem_of_find?_eq_some hrow
  have hcond := List.find?_some hrow
  simp only [Bool.and_eq_true,decide_eq_true_eq,Option.isNone_iff_eq_none] at hcond
  obtain ⟨⟨hhash,hvalid⟩,hnow⟩ := hcond
  have huserMem := List.mem_of_find?_eq_some hfind
  have hid : user.id = row.1.userId := by simpa using List.find?_some hfind
  obtain ⟨founder,hsigned⟩ := h.sessions row hmem
  refine ⟨huserMem,rfl,rfl,fun hended => ?_,row.1.expiresAt,founder,?_,hnow⟩
  · -- the hash is that of one session only, and this one is valid
    obtain ⟨t,ht,hthash,hinvalid⟩ := h.ended _ hended
    have hsame : t = row.2 :=
      List.inj_on_of_nodup_map h.hashes ht (List.of_mem_zip hmem).2 (hthash.trans hhash.symm)
    exact hinvalid (hsame ▸ hvalid)
  · rw [hid,← hhash]
    exact hsigned

theorem Good.caller (h : Good K s) {token : String} {now : Time} {c : Caller}
    (hc : s.caller? K token now = some c) : Vouched s.log c := by
  obtain ⟨hmem,hhash,hnow,hended,expiresAt,founder,hsigned,hbefore⟩ := h.accepted hc
  rw [← hhash] at hended hsigned
  exact ⟨s.log,List.suffix_refl _,⟨expiresAt,founder,hsigned,hnow ▸ hbefore⟩,hended,(h.roles c.user hmem).symm⟩

theorem Good.pending (h : Good K s) {pending : List Pending} (hcallers : ∀ p ∈ pending, Vouched s.log p.caller)
    (hentitled : ∀ p ∈ pending, ∀ targetId role located, p.work = .assign targetId role located →
      MayAssign p.caller.user targetId role) : Good K { s with pending } :=
  ⟨h.signsIn,h.keyed,h.rows,h.hashes,h.roles,h.named,h.sessions,h.tokens,h.ended,h.verified,h.founded,h.justified,
    hcallers,hentitled⟩

theorem Good.answered (h : Good K s) (p : Pending) : Good K (s.answered p) :=
  h.pending (fun q hq => h.callers q (List.mem_filter.mp hq).1)
    fun q hq => h.entitled q (List.mem_filter.mp hq).1

theorem Good.enqueue (h : Good K s) {p : Pending} (hcaller : Vouched s.log p.caller)
    (hentitled : ∀ targetId role located, p.work = .assign targetId role located →
      MayAssign p.caller.user targetId role) (hstep : s.enqueue p = some s') : Good K s' := by
  unfold Server.enqueue at hstep
  split_ifs at hstep
  obtain rfl := Option.some.inj hstep
  refine h.pending (fun q hq => ?_) fun q hq => ?_
  · rcases List.mem_cons.mp hq with rfl | hq
    · exact hcaller
    · exact h.callers q hq
  · rcases List.mem_cons.mp hq with rfl | hq
    · exact hentitled
    · exact h.entitled q hq

theorem Good.quiet (h : Good K s) {act : Act} {auth : World} (hstep : s.auth.step K.auth act = some auth)
    (hquiet : Quiet s.auth auth) : Good K { s with auth } where
  signsIn := by
    obtain ⟨acts,w,hrun,hplain⟩ := h.signsIn
    obtain ⟨w',hw,hplain'⟩ := step_alike hplain hstep
    exact ⟨acts ++ [act],w',run_concat hrun hw,hplain'⟩
  keyed := keyed_step h.keyed hstep
  rows := by simpa [hquiet.sessions] using h.rows
  hashes := h.hashes
  roles := by simpa [hquiet.users] using h.roles
  named := by simpa [hquiet.users] using h.named
  sessions := by simpa [Server.sessionRows,hquiet.sessions] using h.sessions
  tokens := h.tokens
  ended := h.ended
  verified := by simpa [hquiet.users,hquiet.successes] using h.verified
  founded := by simpa [hquiet.ownerUserId] using h.founded
  justified := h.justified
  callers := h.callers
  entitled := h.entitled

theorem roleIn_unnamed {log : List Event} {id : String} (h : ∀ event ∈ log, id ∉ event.names) :
    roleIn log id = .requester := by
  induction log with
  | nil => rfl
  | cons event past ih =>
    have hpast := ih fun e he => h e (List.mem_cons_of_mem _ he)
    have hevent := h event List.mem_cons_self
    cases event with
    | signedIn userId tokenHash expiresAt founder =>
      simp only [Event.names,List.mem_singleton] at hevent
      simp [roleIn,Ne.symm hevent,hpast]
    | assigned caller targetId role =>
      simp only [Event.names,List.mem_singleton] at hevent
      simp [roleIn,Ne.symm hevent,hpast]
    | loggedOut tokenHash => exact hpast
    | admitted guard caller => exact hpast

theorem mem_identities {w : World} {p : String × String} :
    p ∈ w.identities ↔ ∃ u ∈ w.users, u.id = p.1 ∧ u.email = p.2 := by
  unfold World.identities
  rw [List.mem_map]
  exact exists_congr fun u => and_congr_right fun _ => Prod.ext_iff

/-- A sign-in claims the ownership of the instance exactly when nobody has. -/
theorem Good.claims (h : Good K s) {o : Txn} (ho : o ∈ s.auth.opens) {row : CodeRow} {user : User}
    {fresh claimed : Bool} (hphase : o.phase = .ownerAsked row user fresh claimed) :
    claimed = true ↔ s.auth.ownerUserId = none := by
  constructor
  · rintro rfl
    obtain ⟨acts,w,hrun,hplain⟩ := h.signsIn
    have hinv := run_kept inv_fresh hrun
    have hmem : o.plain ∈ w.plain.opens := hplain ▸ List.mem_map_of_mem ho
    obtain ⟨x,hx,hxo⟩ := List.mem_map.mp hmem
    have hclaimed : x.ownerClaimed = true := by
      rw [← Txn.plain_ownerClaimed,hxo,Txn.plain_ownerClaimed]
      simp [Txn.ownerClaimed,hphase]
    have howner : w.plain.ownerUserId = s.auth.plain.ownerUserId := congrArg World.ownerUserId hplain
    exact howner.symm.trans ((hinv.ok x hx).owner hclaimed)
  · intro hnone
    cases claimed with
    | true => rfl
    | false => exact absurd hnone ((h.keyed.placed o ho).asked row user fresh hphase)

/-- After the commit of a sign-in the roles are those of the record. -/
theorem Good.success_roles (h : Good K s) {o : Txn} (ho : o ∈ s.auth.opens) {row : CodeRow} {user : User}
    {fresh claimed : Bool} (hphase : o.phase = .ownerAsked row user fresh claimed) (tokenHash : List UInt8)
    (expiresAt : Time) {u : User} (hu : u ∈ (s.auth.commitSuccess o row user fresh claimed).users) :
    u.role = roleIn (.signedIn user.id tokenHash expiresAt claimed::s.log) u.id := by
  rw [commitSuccess_users] at hu
  obtain ⟨u₀,hu₀,rfl⟩ := List.mem_map.mp hu
  have hrole : u₀.role = roleIn s.log u₀.id := by
    cases fresh with
    | false => exact h.roles u₀ hu₀
    | true =>
      rcases List.mem_append.mp hu₀ with hu₀ | hu₀
      · exact h.roles u₀ hu₀
      · obtain rfl := List.mem_singleton.mp hu₀
        obtain ⟨hrequester,hfree⟩ := (h.keyed.placed o ho).inserts u₀ (by simp [Txn.newUser?,hphase])
        rw [hrequester,roleIn_unnamed]
        intro event hevent hname
        obtain ⟨v,hv,hid⟩ := h.named event hevent _ hname
        exact (hfree v hv).1 hid
  by_cases hown : claimed = true ∧ u₀.id = user.id
  · simp [roleIn,hown]
  · rw [if_neg hown,hrole]
    simp only [roleIn]
    rw [if_neg fun heq => hown ⟨heq.1,heq.2.symm⟩]

theorem Good.success (h : Good K s) {act : Act} {o : Txn} (ho : o ∈ s.auth.opens) {row : CodeRow} {user : User}
    {fresh claimed : Bool} (hphase : o.phase = .ownerAsked row user fresh claimed)
    (hstep : s.auth.step K.auth act = some (s.auth.commitSuccess o row user fresh claimed))
    {tokenHash : List UInt8} (hnew : tokenHash ∉ s.tokens.map (·.tokenHash)) :
    Good K { s with
      auth := s.auth.commitSuccess o row user fresh claimed
      tokens := s.tokens ++ [⟨tokenHash,none⟩]
      log := .signedIn user.id tokenHash (o.now+sessionTtl) claimed::s.log } := by
  have hids := identities_commitSuccess s.auth o row user fresh claimed
  have hplaced := h.keyed.placed o ho
  have huser : o.user? = some user := by simp [Txn.user?,hphase]
  have hstays {u : User} (hu : u ∈ s.auth.users) : (u.id,u.email) ∈
      (s.auth.commitSuccess o row user fresh claimed).identities :=
    hids ▸ List.mem_append_left _ (mem_identities.mpr ⟨u,hu,rfl,rfl⟩)
  have hthere : (user.id,user.email) ∈ (s.auth.commitSuccess o row user fresh claimed).identities := by
    cases fresh with
    | true => exact hids ▸ List.mem_append_right _ (by simp)
    | false =>
      obtain ⟨v,hv,hid,hemail⟩ := hplaced.finds (by simp [Txn.newUser?,hphase]) user huser
      exact hid ▸ hemail ▸ hstays hv
  have hclaims := h.claims ho hphase
  refine ⟨?_,keyed_step h.keyed hstep,?_,?_,fun u hu => ?_,fun event hevent id hid => ?_,fun r hr => ?_,
    fun userId hash expiresAt founder hsigned => ?_,fun t ht => ?_,
    fun userId hash expiresAt founder hsigned => ?_,?_,h.justified.cons ?_,
    fun p hp => (h.callers p hp).later (List.suffix_cons _ _),h.entitled⟩
  · obtain ⟨acts,w,hrun,hplain⟩ := h.signsIn
    obtain ⟨w',hw,hplain'⟩ := step_alike hplain hstep
    exact ⟨acts ++ [act],w',run_concat hrun hw,hplain'⟩
  · simp [World.commitSuccess,h.rows]
  · simp only [List.map_append,List.map_cons,List.map_nil]
    exact List.nodup_append.mpr ⟨h.hashes,by simp,fun a ha b hb heq =>
      hnew (List.mem_singleton.mp hb ▸ heq ▸ ha)⟩
  · exact h.success_roles ho hphase tokenHash _ hu
  · rcases List.mem_cons.mp hevent with rfl | hevent
    · obtain rfl := List.mem_singleton.mp hid
      obtain ⟨u,hu,hu'⟩ := mem_identities.mp hthere
      exact ⟨u,hu,hu'.1⟩
    · obtain ⟨v,hv,rfl⟩ := h.named event hevent id hid
      obtain ⟨u,hu,hu'⟩ := mem_identities.mp (hstays hv)
      exact ⟨u,hu,hu'.1⟩
  · have hzip : (s.auth.sessions ++ [Session.mk user.id (o.now+sessionTtl)]).zip
        (s.tokens ++ [Token.mk tokenHash none]) =
          s.sessionRows ++ [(⟨user.id,o.now+sessionTtl⟩,⟨tokenHash,none⟩)] := List.zip_append h.rows.symm
    change r ∈ (s.auth.sessions ++ [Session.mk user.id (o.now+sessionTtl)]).zip
      (s.tokens ++ [Token.mk tokenHash none]) at hr
    rw [hzip] at hr
    rcases List.mem_append.mp hr with hr | hr
    · obtain ⟨founder,hsigned⟩ := h.sessions r hr
      exact ⟨founder,List.mem_cons_of_mem _ hsigned⟩
    · obtain rfl := List.mem_singleton.mp hr
      exact ⟨claimed,List.mem_cons_self⟩
  · rw [List.map_append]
    rcases List.mem_cons.mp hsigned with heq | hsigned
    · obtain ⟨-,rfl,-⟩ := Event.signedIn.inj heq
      exact List.mem_append_right _ (by simp)
    · exact List.mem_append_left _ (h.tokens _ _ _ _ hsigned)
  · obtain ⟨token,htoken,hrest⟩ := h.ended t (by simpa using ht)
    exact ⟨token,List.mem_append_left _ htoken,hrest⟩
  · rcases List.mem_cons.mp hsigned with heq | hsigned
    · obtain ⟨rfl,-,rfl,-⟩ := Event.signedIn.inj heq
      obtain ⟨u,hu,hid,hemail⟩ := mem_identities.mp hthere
      refine ⟨u,hu,hid,_,List.mem_cons_self,?_,rfl⟩
      exact (hplaced.email user huser).symm.trans hemail.symm
    · obtain ⟨v,hv,rfl,success,hsuccess,hemail,hexpires⟩ := h.verified _ _ _ _ hsigned
      obtain ⟨u,hu,hid,hemail'⟩ := mem_identities.mp (hstays hv)
      exact ⟨u,hu,hid,success,List.mem_cons_of_mem _ hsuccess,hemail.trans hemail'.symm,hexpires⟩
  · refine ⟨fun _ => ⟨_,_,_,_,List.mem_cons_self⟩,fun _ => ?_⟩
    cases claimed with
    | true => simp [World.commitSuccess]
    | false =>
      have hne : s.auth.ownerUserId ≠ none := fun hnone => by simpa using hclaims.mpr hnone
      simpa [World.commitSuccess] using hne
  · show claimed = true ↔ _
    rw [hclaims,← not_iff_not,← ne_eq,h.founded,signIns]
    push Not
    rfl

theorem Good.signIn (h : Good K s) {act : Act} {token : String} (hstep : s.signIn K act token = some s') :
    Good K s' := by
  obtain ⟨auth,hauth,hrest⟩ := Option.bind_eq_some_iff.mp hstep
  rcases step_cases hauth with hquiet | ⟨o,row,user,fresh,claimed,ho,hphase,rfl⟩
  · have hdrop : auth.sessions.drop s.auth.sessions.length = [] := by simp [hquiet.sessions]
    simp only [hdrop,Option.some.injEq] at hrest
    subst hrest
    exact h.quiet hauth hquiet
  · have hdrop : (s.auth.commitSuccess o row user fresh claimed).sessions.drop s.auth.sessions.length =
        [⟨user.id,o.now+sessionTtl⟩] := by
      simp [World.commitSuccess]
    simp only [hdrop] at hrest
    split_ifs at hrest with htaken
    · obtain ⟨auth',hauth',rfl⟩ := Option.map_eq_some_iff.mp hrest
      rcases step_cases hauth' with hquiet | ⟨o',row',user',fresh',claimed',-,-,rfl⟩
      · exact h.quiet hauth' hquiet
      · obtain ⟨x,-,hclose⟩ := Option.map_eq_some_iff.mp hauth'
        have hsessions := congrArg (List.length ∘ World.sessions) hclose
        simp [World.close,World.commitSuccess] at hsessions
    · obtain rfl := Option.some.inj hrest
      have hflag : (s.auth.ownerUserId.isNone &&
          (s.auth.commitSuccess o row user fresh claimed).ownerUserId.isSome) = claimed := by
        have hclaims := h.claims ho hphase
        cases claimed with
        | true => simp [World.commitSuccess,hclaims.mp rfl]
        | false =>
          have hne : s.auth.ownerUserId ≠ none := fun hnone => by simpa using hclaims.mpr hnone
          simp [hne]
      rw [hflag]
      refine h.success ho hphase hauth ?_
      simpa using htaken

/-! ### Requests -/

theorem Good.enter (h : Good K s) {guard : Guard} {caller : Caller} (hcaller : Vouched s.log caller)
    (hguard : guard.check caller.user = .ok ()) : Good K { s with log := .admitted guard caller::s.log } where
  signsIn := h.signsIn
  keyed := h.keyed
  rows := h.rows
  hashes := h.hashes
  roles := h.roles
  named event hevent := by
    rcases List.mem_cons.mp hevent with rfl | hevent
    · simp [Event.names]
    · exact h.named event hevent
  sessions row hrow := (h.sessions row hrow).imp fun _ hsigned => List.mem_cons_of_mem _ hsigned
  tokens userId tokenHash expiresAt founder hsigned := h.tokens _ _ _ founder (by simpa using hsigned)
  ended t ht := h.ended t (by simpa using ht)
  verified userId tokenHash expiresAt founder hsigned := h.verified _ _ _ founder (by simpa using hsigned)
  founded := by simpa [signIns] using h.founded
  justified := h.justified.cons ⟨hcaller,hguard⟩
  callers p hp := (h.callers p hp).later (List.suffix_cons _ _)
  entitled := h.entitled

theorem Good.assign (h : Good K s) {caller : Caller} {targetId : String} {role : Role}
    (hcaller : Vouched s.log caller) (hmay : MayAssign caller.user targetId role)
    (htarget : ∃ u ∈ s.auth.users, u.id = targetId) : Good K { s with
      auth := s.updateUserRole targetId role
      log := .assigned caller targetId role::s.log } where
  signsIn := by
    obtain ⟨acts,w,hrun,hplain⟩ := h.signsIn
    refine ⟨acts,w,hrun,hplain.trans (plain_ext rfl ?_ rfl rfl rfl rfl rfl rfl rfl rfl)⟩
    exact (map_bare_role s.auth.users (fun u => u.id = targetId) role).symm
  keyed := by
    refine h.keyed.identities ?_ id fun x hx => hx
    unfold World.identities Server.updateUserRole
    rw [List.map_map]
    refine List.map_congr_left fun u _ => ?_
    simp only [Function.comp_apply]
    split_ifs <;> rfl
  rows := h.rows
  hashes := h.hashes
  roles u hu := by
    obtain ⟨u₀,hu₀,rfl⟩ := List.mem_map.mp hu
    have hrole := h.roles u₀ hu₀
    simp only [roleIn]
    by_cases heq : u₀.id = targetId
    · rw [if_pos heq,if_pos heq.symm]
    · rw [if_neg heq,if_neg (Ne.symm heq),hrole]
  named event hevent id hid := by
    have hold : ∃ u ∈ s.auth.users, u.id = id := by
      rcases List.mem_cons.mp hevent with rfl | hevent
      · obtain rfl := List.mem_singleton.mp hid
        exact htarget
      · exact h.named event hevent id hid
    obtain ⟨u,hu,rfl⟩ := hold
    exact ⟨_,List.mem_map_of_mem hu,by split_ifs <;> rfl⟩
  sessions row hrow := (h.sessions row hrow).imp fun _ hsigned => List.mem_cons_of_mem _ hsigned
  tokens userId tokenHash expiresAt founder hsigned := h.tokens _ _ _ founder (by simpa using hsigned)
  ended t ht := h.ended t (by simpa using ht)
  verified userId tokenHash expiresAt founder hsigned := by
    obtain ⟨u,hu,hid,success,hsuccess,hemail,hexpires⟩ := h.verified _ _ _ founder (by simpa using hsigned)
    refine ⟨_,List.mem_map_of_mem hu,?_,success,hsuccess,?_,hexpires⟩
    · split_ifs <;> exact hid
    · split_ifs <;> exact hemail
  founded := by simpa [signIns,Server.updateUserRole] using h.founded
  justified := h.justified.cons ⟨hcaller,hmay⟩
  callers p hp := (h.callers p hp).later (List.suffix_cons _ _)
  entitled := h.entitled

theorem map_invalidateSession (s : Server) (tokenHash : List UInt8) (now : Time) :
    (s.invalidateSession tokenHash now).map (·.tokenHash) = s.tokens.map (·.tokenHash) := by
  unfold Server.invalidateSession
  rw [List.map_map]
  refine List.map_congr_left fun t _ => ?_
  simp only [Function.comp_apply]
  split_ifs <;> rfl

theorem Good.logout (h : Good K s) {caller : Caller} (hcaller : Vouched s.log caller) (now : Time) :
    Good K { s with
      tokens := s.invalidateSession caller.tokenHash now
      log := .loggedOut caller.tokenHash::s.log } where
  signsIn := h.signsIn
  keyed := h.keyed
  rows := by simpa [Server.invalidateSession] using h.rows
  hashes := (map_invalidateSession s caller.tokenHash now).symm ▸ h.hashes
  roles := h.roles
  named event hevent := by
    rcases List.mem_cons.mp hevent with rfl | hevent
    · simp [Event.names]
    · exact h.named event hevent
  sessions row hrow := by
    simp only [Server.sessionRows,Server.invalidateSession,List.zip_map_right,List.mem_map] at hrow
    obtain ⟨old,hold,rfl⟩ := hrow
    obtain ⟨founder,hsigned⟩ := h.sessions old hold
    refine ⟨founder,List.mem_cons_of_mem _ ?_⟩
    simp only [Prod.map_fst,Prod.map_snd,id_eq]
    split_ifs <;> exact hsigned
  tokens userId tokenHash expiresAt founder hsigned := by
    rw [map_invalidateSession]
    exact h.tokens _ _ _ founder (by simpa using hsigned)
  ended t ht := by
    have hkept : ∀ token ∈ s.tokens, token.invalidatedAt ≠ none →
        token ∈ s.invalidateSession caller.tokenHash now := fun token htoken hinvalid =>
      List.mem_map.mpr ⟨token,htoken,by simp [hinvalid]⟩
    rcases List.mem_cons.mp ht with heq | ht
    · obtain rfl := Event.loggedOut.inj heq
      obtain ⟨then_,hthen,⟨expiresAt,founder,hsigned,-⟩,-⟩ := hcaller
      obtain ⟨token,htoken,hhash⟩ := List.mem_map.mp (h.tokens _ _ _ _ (hthen.subset hsigned))
      cases hinvalid : token.invalidatedAt with
      | none =>
        refine ⟨{ token with invalidatedAt := some now },List.mem_map.mpr ⟨token,htoken,?_⟩,hhash,by simp⟩
        rw [if_pos ⟨hhash,hinvalid⟩]
      | some at_ => exact ⟨token,hkept token htoken (by simp [hinvalid]),hhash,by simp [hinvalid]⟩
    · obtain ⟨token,htoken,hhash,hinvalid⟩ := h.ended t ht
      exact ⟨token,hkept token htoken hinvalid,hhash,hinvalid⟩
  verified userId tokenHash expiresAt founder hsigned := h.verified _ _ _ founder (by simpa using hsigned)
  founded := by simpa [signIns] using h.founded
  justified := by
    refine h.justified.cons ?_
    obtain ⟨then_,hthen,⟨expiresAt,founder,hsigned,-⟩,-⟩ := hcaller
    exact ⟨_,expiresAt,founder,hthen.subset hsigned⟩
  callers p hp := (h.callers p hp).later (List.suffix_cons _ _)
  entitled := h.entitled

theorem Good.proceed (h : Good K s) {p : Pending} (hp : p ∈ s.pending) {now : Time}
    (hstep : s.proceed p now = some s') : Good K s' := by
  have hcaller := h.callers p hp
  have hfound {targetId : String} {u : User} (hu : s.userById targetId = some u) :
      ∃ u ∈ s.auth.users, u.id = targetId :=
    ⟨u,List.mem_of_find?_eq_some hu,by simpa using List.find?_some hu⟩
  unfold Server.proceed at hstep
  cases hwork : p.work with
  | logout =>
    simp only [hwork,Option.some.injEq] at hstep
    subst hstep
    exact (h.answered p).logout hcaller now
  | assign targetId role located =>
    have hmay := h.entitled p hp targetId role located hwork
    cases located with
    | false =>
      simp only [hwork] at hstep
      cases htarget : s.userById targetId with
      | none =>
        simp only [htarget,Option.some.injEq] at hstep
        exact hstep ▸ h.answered p
      | some u =>
        simp only [htarget,Option.some.injEq] at hstep
        subst hstep
        refine h.pending (fun q hq => ?_) fun q hq => ?_
        · rcases List.mem_cons.mp hq with rfl | hq
          · exact hcaller
          · exact h.callers q (List.mem_filter.mp hq).1
        · rcases List.mem_cons.mp hq with rfl | hq
          · rintro _ _ _ ⟨⟩
            exact hmay
          · exact h.entitled q (List.mem_filter.mp hq).1
    | true =>
      simp only [hwork] at hstep
      split_ifs at hstep
      cases htarget : s.userById targetId with
      | none =>
        simp only [htarget,Option.some.injEq] at hstep
        exact hstep ▸ h.answered p
      | some u =>
        simp only [htarget,Option.some.injEq] at hstep
        subst hstep
        exact (h.answered p).assign hcaller hmay (hfound htarget)

theorem Good.step (h : Good K s) {move : Move} (hstep : s.step K move = some s') : Good K s' := by
  cases move with
  | signIn act token => exact h.signIn hstep
  | enter guard token now =>
    simp only [Server.step] at hstep
    cases hcaller : s.caller? K token now with
    | none => exact Option.some.inj (by simpa [hcaller] using hstep) ▸ h
    | some caller =>
      simp only [hcaller] at hstep
      cases hguard : guard.check caller.user with
      | error e =>
        simp only [hguard,Option.some.injEq] at hstep
        exact hstep ▸ h
      | ok _ =>
        simp only [hguard,Option.some.injEq] at hstep
        subst hstep
        exact h.enter (h.caller hcaller) hguard
  | assign id token now targetId role =>
    simp only [Server.step] at hstep
    cases hcaller : s.caller? K token now with
    | none =>
      simp only [hcaller,Option.some.injEq] at hstep
      exact hstep ▸ h
    | some caller =>
      simp only [hcaller] at hstep
      cases hcheck : checkAssignment caller.user targetId role with
      | error e =>
        simp only [hcheck,Option.some.injEq] at hstep
        exact hstep ▸ h
      | ok newRole =>
        simp only [hcheck] at hstep
        refine h.enqueue (h.caller hcaller) ?_ hstep
        rintro _ _ _ ⟨⟩
        exact (checkAssignment_eq_ok.mp hcheck).2
  | logout id token now =>
    simp only [Server.step] at hstep
    cases hcaller : s.caller? K token now with
    | none =>
      simp only [hcaller,Option.some.injEq] at hstep
      exact hstep ▸ h
    | some caller =>
      simp only [hcaller] at hstep
      exact h.enqueue (h.caller hcaller) (fun _ _ _ hwork => by cases hwork) hstep
  | advance id now =>
    obtain ⟨p,hp,hproceed⟩ := Option.bind_eq_some_iff.mp hstep
    exact h.proceed (List.mem_of_find?_eq_some hp) hproceed
  | abandon id =>
    obtain ⟨p,-,rfl⟩ := Option.map_eq_some_iff.mp hstep
    exact h.answered p

theorem Good.run {moves : List Move} (h : Good K s) (hrun : Server.run K s moves = some s') : Good K s' := by
  induction moves generalizing s with
  | nil =>
    obtain rfl := Option.some.inj hrun
    exact h
  | cons move moves ih =>
    obtain ⟨s₁,hstep,hrest⟩ := Option.bind_eq_some_iff.mp hrun
    exact ih (h.step hstep) hrest

end

/-- Privileges over whole runs, with sign-ins, requests and changes of roles in any order and
with any of them lost on the way. The roles in the table are those of the record, and every
event of the record was in order when it happened: a guarded request, and a change of a role,
was made under a session that had not expired or been ended when the request came in, by a user
whose role at that time allowed it, and never for the user itself; and the first to sign in, and
nobody else, became the owner by that. So every owner there ever was is linked to the founder
by owners that made each other. A token that is accepted is one of a sign-in that has not expired
and has not been ended, and the code of a sign-in has the digest of one that was issued for the email
of the user. -/
theorem privileges_traced (K : Secrets) (moves : List Move) (s : Server)
    (hrun : Server.run K {} moves = some s) :
    (∀ u ∈ s.auth.users, u.role = roleIn s.log u.id) ∧
    Justified s.log ∧
    (∀ past id, past <:+ s.log → roleIn past id = .owner → Enthroned s.log id) ∧
    (∀ token now c, s.caller? K token now = some c → c.user ∈ s.auth.users ∧
      .loggedOut (K.hashSecret token) ∉ s.log ∧ ∃ expiresAt founder,
        .signedIn c.user.id (K.hashSecret token) expiresAt founder ∈ s.log ∧ now < expiresAt) ∧
    (∀ userId tokenHash expiresAt founder, .signedIn userId tokenHash expiresAt founder ∈ s.log →
      ∃ u ∈ s.auth.users, u.id = userId ∧ ∃ i ∈ s.auth.issued, ∃ success ∈ s.auth.successes,
        i.rowId = success.rowId ∧ i.email = u.email ∧ success.email = u.email ∧
        otpDigest K.auth u.email i.rowId success.code = otpDigest K.auth u.email i.rowId i.code ∧
        success.now < i.now+verificationCodeTtl ∧ expiresAt = success.now+sessionTtl) := by
  have h := (good_fresh K).run hrun
  refine ⟨h.roles,h.justified,fun past id hpast howner => ?_,fun token now c hc => ?_,
    fun userId tokenHash expiresAt founder hsigned => ?_⟩
  · have hjustified : Justified past := fun e p hp => h.justified e p (hp.trans hpast)
    exact (enthroned_of_owner hjustified howner).later hpast.subset
  · obtain ⟨hmem,-,-,hended,hsigned⟩ := h.accepted hc
    exact ⟨hmem,hended,hsigned⟩
  · obtain ⟨u,hu,hid,success,hsuccess,hemail,hexpires⟩ := h.verified _ _ _ _ hsigned
    obtain ⟨acts,w,hwrun,hplain⟩ := h.signsIn
    have hinv := run_kept inv_fresh hwrun
    -- the codes are those of a run of the sign-ins alone
    have hsuccesses : w.plain.successes = s.auth.plain.successes := congrArg World.successes hplain
    have hissued : w.plain.issued = s.auth.plain.issued := congrArg World.issued hplain
    change w.successes = s.auth.successes at hsuccesses
    change w.issued = s.auth.issued at hissued
    obtain ⟨r,hr,hrid,hremail,-,hbefore,hdigest,-⟩ := hinv.tables.successes success (hsuccesses ▸ hsuccess)
    obtain ⟨i,hi,hiid,hiemail,hidigest,hiexpires⟩ := hinv.tables.issued r hr
    have heq : r.email = u.email := hremail.trans hemail
    refine ⟨u,hu,hid,i,hissued ▸ hi,success,hsuccess,hiid.trans hrid,hiemail.trans heq,hemail,?_,
      hiexpires ▸ hbefore,hexpires⟩
    rw [← heq,hiid]
    exact hdigest.symm.trans hidigest

namespace Sample

def secrets : Secrets := ⟨plainAuth,id⟩

/-- A code is sent to the email and brought back. -/
def signIn (txn : ℕ) (email code userId token : String) : List Move :=
  .signIn (.issueCode txn 0 email code) ""::List.replicate 5 (.signIn (.advance txn userId) "") ++
    .signIn (.verifyCode (txn+1) second email code) ""::
      List.replicate 6 (.signIn (.advance (txn+1) userId) token)

/-- The founder makes the second user an administrator and logs out. -/
def moves : List Move :=
  signIn 1 "a@north" "111111" "user-1" "first" ++ signIn 3 "b@north" "222222" "user-2" "second" ++
    [.assign 1 "first" (2*second) "user-2" "Admin",.logout 2 "first" (2*second),.advance 1 (3*second),
      .advance 2 (3*second),.enter .administer "second" (4*second),.advance 1 (5*second),
      .enter .administer "first" (6*second),.enter .administer "second" (6*second)]

end Sample

theorem sample_traced : ∃ s, Server.run Sample.secrets {} Sample.moves = some s ∧
    roleIn s.log "user-1" = .owner ∧ roleIn s.log "user-2" = .admin ∧ Enthroned s.log "user-1" ∧
    Justified s.log ∧ s.caller? Sample.secrets "first" (7*second) = none := by
  have hfacts : (Server.run Sample.secrets {} Sample.moves).any (fun s =>
      decide (roleIn s.log "user-1" = .owner) && decide (roleIn s.log "user-2" = .admin) &&
        (s.caller? Sample.secrets "first" (7*second)).isNone && decide (s.log.length = 5)) = true := by
    decide +kernel
  obtain ⟨s,hrun,hs⟩ := (Option.any_eq_true _ _).mp hfacts
  simp only [Bool.and_eq_true,decide_eq_true_eq,Option.isNone_iff_eq_none] at hs
  obtain ⟨⟨⟨hfirst,hsecond⟩,hgone⟩,-⟩ := hs
  obtain ⟨-,hjustified,howners,-⟩ := privileges_traced Sample.secrets Sample.moves s hrun
  exact ⟨s,hrun,hfirst,hsecond,howners s.log "user-1" (List.suffix_refl _) hfirst,hjustified,hgone⟩

end Access

end North
