import North.EmailAuth
import North.Lib.Text
import Mathlib.Data.List.Pairwise

/-! Runs of interleaved sign-ins. Every row that a transaction goes on to write is one it
has locked and that nobody else can change, so the tables keep what the statements of one
transaction at a time would keep. -/
namespace North
namespace EmailAuth

open Machine

/-- The code row that `verify_code` has chosen and locked. -/
def Txn.row? (x : Txn) : Option CodeRow :=
  match x.phase with
  | .mismatched row => some row
  | .matched row => some row
  | .consumed row => some row
  | .signedIn row _ _ => some row
  | .ownerAsked row _ _ _ => some row
  | _ => none

def Txn.mismatch (x : Txn) : Bool :=
  match x.phase with
  | .mismatched _ => true
  | _ => false

def Txn.newUser? (x : Txn) : Option User :=
  match x.phase with
  | .signedIn _ user true => some user
  | .ownerAsked _ user true _ => some user
  | _ => none

/-- What a new row has in common with its transaction. -/
structure IssuedBy (A : Auth) (x : Txn) (row : CodeRow) : Prop where
  email : row.email = x.email
  codeHash : row.codeHash = otpDigest A row.email row.id x.code
  expiresAt : row.expiresAt = x.now+verificationCodeTtl
  usedAt : row.usedAt = none
  failedAttempts : row.failedAttempts = 0

/-- What an open transaction has read is still there. -/
structure Txn.Ok (A : Auth) (w : World) (x : Txn) : Prop where
  row : ∀ r ∈ x.row?, r ∈ w.codes ∧ x.selects r = true ∧
    (x.mismatch = false ↔ r.codeHash = otpDigest A r.email r.id x.code)
  inserted : ∀ held row, x.phase = .inserted held row → IssuedBy A x row ∧
    (∀ r ∈ w.codes, r.email = x.email → r.usedAt = none → r.id ∈ held) ∧
    row.id < w.nextId ∧ ∀ r ∈ w.codes, r.id ≠ row.id
  owner : x.ownerClaimed = true → w.ownerUserId = none
  newUser : ∀ u ∈ x.newUser?, u.role ≠ .owner

/-- Two transactions hold no lock in common. -/
structure Txn.Apart (A : Auth) (x y : Txn) : Prop where
  rows : ∀ i ∈ x.rows, i ∉ y.rows
  advisory : x.advisory = true → y.advisory = true → A.hashtext x.email ≠ A.hashtext y.email
  owner : ¬ (x.ownerClaimed = true ∧ y.ownerClaimed = true)
  inserted : ∀ held row held' row', x.phase = .inserted held row → y.phase = .inserted held' row' →
    row.id ≠ row'.id

def refusalsOf (w : World) (id : ℕ) : ℕ := w.refusals.countP fun t => decide (t.rowId = id)

/-- The committed rows against the answers that were given. -/
structure Tables (A : Auth) (w : World) : Prop where
  ids : (w.codes.map (·.id)).Nodup
  bound : ∀ r ∈ w.codes, r.id < w.nextId
  superseded : w.codes.Pairwise fun old new => old.email = new.email → old.usedAt ≠ none
  attempts : ∀ r ∈ w.codes, r.failedAttempts = refusalsOf w r.id
  fresh : ∀ r ∈ w.codes, r.usedAt = none → r.failedAttempts < verificationCodeMaxAttempts
  refusals : ∀ t ∈ w.refusals, ∃ r ∈ w.codes, r.id = t.rowId ∧
    r.codeHash ≠ otpDigest A r.email r.id t.code
  successes : ∀ s ∈ w.successes, ∃ r ∈ w.codes, r.id = s.rowId ∧ r.email = s.email ∧
    r.usedAt ≠ none ∧ s.now < r.expiresAt ∧ r.codeHash = otpDigest A r.email r.id s.code ∧
    r.failedAttempts < verificationCodeMaxAttempts
  once : (w.successes.map (·.rowId)).Nodup
  issued : ∀ r ∈ w.codes, ∃ i ∈ w.issued, i.rowId = r.id ∧ i.email = r.email ∧
    r.codeHash = otpDigest A r.email r.id i.code ∧ r.expiresAt = i.now+verificationCodeTtl
  order : w.codes.map (·.id) = (w.issued.map (·.rowId)).reverse
  owners : w.owners = w.ownerUserId.toList
  roles : ∀ u ∈ w.users, u.role = .owner → u.id ∈ w.owners

structure Inv (A : Auth) (w : World) : Prop where
  keyed : ∀ x ∈ w.opens, ∀ y ∈ w.opens, x.id = y.id → x = y
  ok : ∀ x ∈ w.opens, x.Ok A w
  apart : ∀ x ∈ w.opens, ∀ y ∈ w.opens, x.id ≠ y.id → x.Apart A y
  tables : Tables A w

/-- What a commit may do to a code row: those it has locked are written, and a row that is
used up stays as it is. -/
structure Rewrite (ids : List ℕ) (f : CodeRow → CodeRow) : Prop where
  id : ∀ r, (f r).id = r.id
  email : ∀ r, (f r).email = r.email
  codeHash : ∀ r, (f r).codeHash = r.codeHash
  expiresAt : ∀ r, (f r).expiresAt = r.expiresAt
  used : ∀ r, r.usedAt ≠ none → (f r).usedAt ≠ none ∧ (f r).failedAttempts = r.failedAttempts
  out : ∀ r, r.id ∉ ids → f r = r

section

variable {A : Auth} {w w' : World} {o x y : Txn}

theorem Txn.Apart.symm (h : x.Apart A y) : y.Apart A x where
  rows i hy hx := h.rows i hx hy
  advisory hy hx heq := h.advisory hx hy heq.symm
  owner hboth := h.owner ⟨hboth.2,hboth.1⟩
  inserted held row held' row' hy hx heq := h.inserted held' row' held row hx hy heq.symm

theorem mem_others : x ∈ w.others o ↔ x ∈ w.opens ∧ x.id ≠ o.id := by
  simp [World.others]

theorem row?_mem_rows {r : CodeRow} (h : x.row? = some r) : r.id ∈ x.rows := by
  unfold Txn.row? at h
  unfold Txn.rows
  split at h <;> simp_all

theorem selects_iff {r : CodeRow} : x.selects r = true ↔
    r.email = x.email ∧ r.usedAt = none ∧ x.now < r.expiresAt := by
  simp [Txn.selects,and_assoc]

/-! ### The rest of the world during a step -/

theorem Inv.close (h : Inv A w) (o : Txn) : Inv A (w.close o) where
  keyed x hx y hy := h.keyed x (mem_others.mp hx).1 y (mem_others.mp hy).1
  ok x hx :=
    have hold := h.ok x (mem_others.mp hx).1
    ⟨hold.row,hold.inserted,hold.owner,hold.newUser⟩
  apart x hx y hy := h.apart x (mem_others.mp hx).1 y (mem_others.mp hy).1
  tables := ⟨h.tables.ids,h.tables.bound,h.tables.superseded,h.tables.attempts,h.tables.fresh,
    h.tables.refusals,h.tables.successes,h.tables.once,h.tables.issued,h.tables.order,
    h.tables.owners,h.tables.roles⟩

/-- A transaction goes on when its new phase is sound and takes no lock of another. -/
theorem Inv.put (h : Inv A w) {phase : Phase} (hok : ({ o with phase } : Txn).Ok A w)
    (hapart : ∀ x ∈ w.others o, ({ o with phase } : Txn).Apart A x) : Inv A (w.put o phase) := by
  refine ⟨fun x hx y hy hid => ?_,fun x hx => ?_,fun x hx y hy hid => ?_,?_⟩
  · rcases List.mem_cons.mp hx with rfl | hx <;> rcases List.mem_cons.mp hy with rfl | hy
    · rfl
    · exact absurd hid.symm (mem_others.mp hy).2
    · exact absurd hid (mem_others.mp hx).2
    · exact h.keyed x (mem_others.mp hx).1 y (mem_others.mp hy).1 hid
  · rcases List.mem_cons.mp hx with rfl | hx
    · exact ⟨hok.row,hok.inserted,hok.owner,hok.newUser⟩
    · have hold := h.ok x (mem_others.mp hx).1
      exact ⟨hold.row,hold.inserted,hold.owner,hold.newUser⟩
  · rcases List.mem_cons.mp hx with rfl | hx <;> rcases List.mem_cons.mp hy with rfl | hy
    · exact absurd rfl hid
    · exact hapart y hy
    · exact (hapart x hx).symm
    · exact h.apart x (mem_others.mp hx).1 y (mem_others.mp hy).1 hid
  · exact ⟨h.tables.ids,h.tables.bound,h.tables.superseded,h.tables.attempts,h.tables.fresh,
      h.tables.refusals,h.tables.successes,h.tables.once,h.tables.issued,h.tables.order,
    h.tables.owners,h.tables.roles⟩

theorem Inv.draw (h : Inv A w) : Inv A { w with nextId := w.nextId+1 } where
  keyed := h.keyed
  ok x hx := by
    have hold := h.ok x hx
    refine ⟨hold.row,fun held row hphase => ?_,hold.owner,hold.newUser⟩
    obtain ⟨hby,hheld,hlt,hne⟩ := hold.inserted held row hphase
    exact ⟨hby,hheld,Nat.lt_succ_of_lt hlt,hne⟩
  apart := h.apart
  tables := ⟨h.tables.ids,fun r hr => Nat.lt_succ_of_lt (h.tables.bound r hr),h.tables.superseded,
    h.tables.attempts,h.tables.fresh,h.tables.refusals,h.tables.successes,h.tables.once,h.tables.issued,
    h.tables.order,h.tables.owners,h.tables.roles⟩

theorem Txn.Apart.fewer (h : o.Apart A x) {phase : Phase}
    (hrows : ({ o with phase } : Txn).rows ⊆ o.rows)
    (hadvisory : ({ o with phase } : Txn).advisory = true → o.advisory = true)
    (howner : ({ o with phase } : Txn).ownerClaimed = true → o.ownerClaimed = true)
    (hinserted : ∀ held row, phase ≠ .inserted held row) : ({ o with phase } : Txn).Apart A x where
  rows i hi := h.rows i (hrows hi)
  advisory ha := h.advisory (hadvisory ha)
  owner hboth := h.owner ⟨howner hboth.1,hboth.2⟩
  inserted held row _ _ hphase := absurd hphase (hinserted held row)

theorem Txn.Ok.blank {phase : Phase} (hrow : ({ o with phase } : Txn).row? = none)
    (hinserted : ∀ held row, phase ≠ .inserted held row)
    (howner : ({ o with phase } : Txn).ownerClaimed = false)
    (hnew : ({ o with phase } : Txn).newUser? = none) : ({ o with phase } : Txn).Ok A w where
  row r hr := by simp [hrow] at hr
  inserted held row hphase := absurd hphase (hinserted held row)
  owner hclaimed := by simp [howner] at hclaimed
  newUser u hu := by simp [hnew] at hu

/-! ### Commits -/

theorem Rewrite.unused {ids : List ℕ} {f : CodeRow → CodeRow} (hf : Rewrite ids f) {r : CodeRow}
    (h : (f r).usedAt = none) : r.usedAt = none := by
  by_contra hused
  exact (hf.used r hused).1 h

theorem Inv.commit (h : Inv A w) (ho : o ∈ w.opens) (hopens : w'.opens = w.others o)
    (hnext : w'.nextId = w.nextId) {f : CodeRow → CodeRow} (hf : Rewrite o.rows f) (new : List CodeRow)
    (hcodes : w'.codes = w.codes.map f ++ new)
    (hnew : ∀ r ∈ new, ∀ x ∈ w.others o, ∀ held row, x.phase = .inserted held row →
      r.email ≠ x.email ∧ r.id ≠ row.id)
    (howner : w'.ownerUserId = w.ownerUserId ∨ o.ownerClaimed = true) (htables : Tables A w') : Inv A w' := by
  refine ⟨fun x hx y hy => ?_,fun x hx => ?_,fun x hx y hy => ?_,htables⟩
  · rw [hopens] at hx hy
    exact h.keyed x (mem_others.mp hx).1 y (mem_others.mp hy).1
  · rw [hopens] at hx
    obtain ⟨hopen,hne⟩ := mem_others.mp hx
    have hold := h.ok x hopen
    have hapart := h.apart x hopen o ho hne
    refine ⟨fun r hr => ?_,fun held row hphase => ?_,fun hclaimed => ?_,hold.newUser⟩
    · obtain ⟨hmem,hread⟩ := hold.row r hr
      refine ⟨?_,hread⟩
      rw [hcodes]
      refine List.mem_append_left _ (List.mem_map.mpr ⟨r,hmem,hf.out r (hapart.rows _ ?_)⟩)
      exact row?_mem_rows hr
    · obtain ⟨hby,hheld,hlt,hfresh⟩ := hold.inserted held row hphase
      refine ⟨hby,fun r hr hemail hunused => ?_,hnext ▸ hlt,fun r hr => ?_⟩
      · rw [hcodes] at hr
        rcases List.mem_append.mp hr with hr | hr
        · obtain ⟨r₀,hr₀,rfl⟩ := List.mem_map.mp hr
          rw [hf.id]
          exact hheld r₀ hr₀ ((hf.email r₀).symm.trans hemail) (hf.unused hunused)
        · exact absurd hemail (hnew r hr x hx held row hphase).1
      · rw [hcodes] at hr
        rcases List.mem_append.mp hr with hr | hr
        · obtain ⟨r₀,hr₀,rfl⟩ := List.mem_map.mp hr
          rw [hf.id]
          exact hfresh r₀ hr₀
        · exact (hnew r hr x hx held row hphase).2
    · rcases howner with howner | howner
      · rw [howner]
        exact hold.owner hclaimed
      · exact absurd ⟨hclaimed,howner⟩ hapart.owner
  · rw [hopens] at hx hy
    exact h.apart x (mem_others.mp hx).1 y (mem_others.mp hy).1

theorem eq_of_id (h : Tables A w) {r r' : CodeRow} (hr : r ∈ w.codes) (hr' : r' ∈ w.codes)
    (hid : r.id = r'.id) : r = r' :=
  List.inj_on_of_nodup_map h.ids hr hr' hid

theorem Tables.rewrite (h : Tables A w) {ids : List ℕ} {f : CodeRow → CodeRow} (hf : Rewrite ids f)
    {refusals : List Refusal}
    (hattempts : ∀ r ∈ w.codes, (f r).failedAttempts = refusals.countP fun t => decide (t.rowId = r.id))
    (hfresh : ∀ r ∈ w.codes, (f r).usedAt = none → (f r).failedAttempts < verificationCodeMaxAttempts)
    (hrefusals : ∀ t ∈ refusals, ∃ r ∈ w.codes, r.id = t.rowId ∧
      r.codeHash ≠ otpDigest A r.email r.id t.code) :
    Tables A { w with codes := w.codes.map f, refusals := refusals } where
  ids := by
    have hsame : (w.codes.map f).map (·.id) = w.codes.map (·.id) := by
      rw [List.map_map]
      exact List.map_congr_left fun r _ => hf.id r
    rw [hsame]
    exact h.ids
  bound r hr := by
    obtain ⟨r₀,hr₀,rfl⟩ := List.mem_map.mp hr
    rw [hf.id]
    exact h.bound r₀ hr₀
  superseded := by
    refine List.pairwise_map.mpr (h.superseded.imp fun {old new} hold => ?_)
    rw [hf.email,hf.email]
    exact fun hemail => (hf.used old (hold hemail)).1
  attempts r hr := by
    obtain ⟨r₀,hr₀,rfl⟩ := List.mem_map.mp hr
    rw [hf.id]
    exact hattempts r₀ hr₀
  fresh r hr := by
    obtain ⟨r₀,hr₀,rfl⟩ := List.mem_map.mp hr
    exact hfresh r₀ hr₀
  refusals t ht := by
    obtain ⟨r,hr,hid,hne⟩ := hrefusals t ht
    refine ⟨f r,List.mem_map_of_mem hr,(hf.id r).trans hid,?_⟩
    rw [hf.codeHash,hf.email,hf.id]
    exact hne
  successes s hs := by
    obtain ⟨r,hr,hid,hemail,hused,hnow,hhash,hlt⟩ := h.successes s hs
    refine ⟨f r,List.mem_map_of_mem hr,(hf.id r).trans hid,(hf.email r).trans hemail,(hf.used r hused).1,?_⟩
    rw [hf.expiresAt,hf.codeHash,hf.email,hf.id,(hf.used r hused).2]
    exact ⟨hnow,hhash,hlt⟩
  once := h.once
  issued r hr := by
    obtain ⟨r₀,hr₀,rfl⟩ := List.mem_map.mp hr
    rw [hf.id,hf.email,hf.codeHash,hf.expiresAt]
    exact h.issued r₀ hr₀
  order := by
    have hsame : (w.codes.map f).map (·.id) = w.codes.map (·.id) := by
      rw [List.map_map]
      exact List.map_congr_left fun r _ => hf.id r
    rw [hsame]
    exact h.order
  owners := h.owners
  roles := h.roles

theorem rewrite_markUsed (now : Time) (held : List ℕ) :
    Rewrite held fun r => if held.contains r.id then { r with usedAt := some now } else r where
  id r := by split_ifs <;> rfl
  email r := by split_ifs <;> rfl
  codeHash r := by split_ifs <;> rfl
  expiresAt r := by split_ifs <;> rfl
  used r hused := by
    split_ifs
    · exact ⟨by simp,rfl⟩
    · exact ⟨hused,rfl⟩
  out r hout := by
    rw [if_neg]
    simpa using hout

theorem rewrite_refused (o : Txn) (row : CodeRow) : Rewrite [row.id] (World.refused o row) where
  id r := by unfold World.refused; dsimp only; split_ifs <;> rfl
  email r := by unfold World.refused; dsimp only; split_ifs <;> rfl
  codeHash r := by unfold World.refused; dsimp only; split_ifs <;> rfl
  expiresAt r := by unfold World.refused; dsimp only; split_ifs <;> rfl
  used r hused := by
    unfold World.refused
    dsimp only
    rw [if_neg fun h => hused h.2]
    exact ⟨hused,rfl⟩
  out r hout := by
    unfold World.refused
    dsimp only
    rw [if_neg fun h => hout (List.mem_singleton.mpr h.1)]

theorem Tables.markUsed (h : Tables A w) (now : Time) (held : List ℕ) :
    Tables A { w with codes := w.markUsed now held } := by
  have hf := rewrite_markUsed now held
  refine h.rewrite hf (fun r hr => ?_) (fun r hr hunused => ?_) h.refusals
  · refine Eq.trans ?_ (h.attempts r hr)
    split_ifs <;> rfl
  · have hlt := h.fresh r hr (hf.unused hunused)
    split_ifs <;> exact hlt

/-- A refused attempt is one more on the row it was made on. -/
theorem Inv.refuse (h : Inv A w) (ho : o ∈ w.opens) {row : CodeRow} (hphase : o.phase = .mismatched row) :
    Inv A (w.commitRefusal o row) := by
  have hrow : o.row? = some row := by simp [Txn.row?,hphase]
  obtain ⟨hmem,hselects,hdigest⟩ := (h.ok o ho).row row hrow
  obtain ⟨-,hunused,-⟩ := selects_iff.mp hselects
  have hlt := h.tables.fresh row hmem hunused
  have hsucc : saturatingSucc i32Max row.failedAttempts = row.failedAttempts+1 := by
    apply saturatingSucc_of_lt
    have hmax : verificationCodeMaxAttempts < i32Max := by decide
    omega
  have hf := rewrite_refused o row
  refine h.commit ho rfl rfl (f := World.refused o row) (by simpa [Txn.rows,hphase] using hf) []
    (by simp [World.commitRefusal]) (by simp) (.inl rfl) ?_
  refine (h.close o).tables.rewrite hf (fun r hr => ?_) (fun r hr hopen => ?_) (fun t ht => ?_)
  · rw [List.countP_cons]
    have hcount := h.tables.attempts r hr
    unfold refusalsOf at hcount
    by_cases hid : r.id = row.id
    · obtain rfl := eq_of_id h.tables hr hmem hid
      simp only [World.refused,hunused,and_self,if_true,hsucc,decide_true,← hcount]
    · have hne : ¬ row.id = r.id := fun heq => hid heq.symm
      simp [World.refused,hid,hne,hcount]
  · by_cases hid : r.id = row.id
    · obtain rfl := eq_of_id h.tables hr hmem hid
      simp only [World.refused,hunused,and_self,if_true,hsucc] at hopen ⊢
      by_contra hge
      rw [if_pos (not_lt.mp hge)] at hopen
      simp at hopen
    · have hsame : World.refused o row r = r := hf.out r (by simpa using hid)
      rw [hsame] at hopen ⊢
      exact h.tables.fresh r hr hopen
  · rcases List.mem_cons.mp ht with rfl | ht
    · refine ⟨row,hmem,rfl,fun heq => ?_⟩
      have hmatch := hdigest.mpr heq
      simp [Txn.mismatch,hphase] at hmatch
    · exact h.tables.refusals t ht

/-- A new code supersedes those of its email: they were marked in the same transaction. -/
theorem Inv.issue (h : Inv A w) (ho : o ∈ w.opens) {held : List ℕ} {row : CodeRow}
    (hphase : o.phase = .inserted held row) : Inv A (w.commitIssue o held row) := by
  obtain ⟨hby,hheld,hlt,hfresh⟩ := (h.ok o ho).inserted held row hphase
  have hf := rewrite_markUsed o.now held
  have hmarked : Tables A { w.close o with codes := w.markUsed o.now held } :=
    (h.close o).tables.markUsed o.now held
  refine h.commit ho rfl rfl (by simpa [Txn.rows,hphase] using hf) [row] rfl
    (fun r hr x hx held' row' hphase' => ?_) (.inl rfl) ?_
  · rw [List.mem_singleton.mp hr]
    obtain ⟨hopen,hne⟩ := mem_others.mp hx
    have hapart := h.apart o ho x hopen hne.symm
    refine ⟨fun hemail => ?_,hapart.inserted held row held' row' hphase hphase'⟩
    -- both would hold the advisory lock of the email
    refine hapart.advisory (by simp [Txn.advisory,hphase]) (by simp [Txn.advisory,hphase']) ?_
    rw [← hby.email,hemail]
  · have hmem : ∀ r ∈ (w.commitIssue o held row).codes, r ∈ w.markUsed o.now held ∨ r = row := by
      intro r hr
      rcases List.mem_append.mp hr with hr | hr
      · exact .inl hr
      · exact .inr (List.mem_singleton.mp hr)
    have hids : ∀ r ∈ w.markUsed o.now held, r.id ≠ row.id := by
      intro r hr
      obtain ⟨r₀,hr₀,rfl⟩ := List.mem_map.mp hr
      rw [hf.id]
      exact hfresh r₀ hr₀
    have hzero : refusalsOf w row.id = 0 := by
      refine List.countP_eq_zero.mpr fun t ht => ?_
      obtain ⟨r,hr,hid,-⟩ := h.tables.refusals t ht
      simpa [← hid] using hfresh r hr
    refine ⟨?_,fun r hr => ?_,?_,fun r hr => ?_,fun r hr hunused => ?_,fun t ht => ?_,fun s hs => ?_,
      hmarked.once,fun r hr => ?_,?_,hmarked.owners,hmarked.roles⟩
    · rw [World.commitIssue,List.map_append,List.nodup_append]
      refine ⟨hmarked.ids,by simp,fun a ha b hb => ?_⟩
      obtain ⟨r,hr,rfl⟩ := List.mem_map.mp ha
      rw [List.map_singleton,List.mem_singleton] at hb
      rw [hb]
      exact hids r hr
    · rcases hmem r hr with hr | rfl
      · exact hmarked.bound r hr
      · exact hlt
    · refine List.pairwise_append.mpr ⟨hmarked.superseded,by simp,fun r hr r' hr' => ?_⟩
      rw [List.mem_singleton.mp hr']
      intro hemail
      obtain ⟨r₀,hr₀,rfl⟩ := List.mem_map.mp hr
      rw [hf.email,hby.email] at hemail
      by_cases hunused : r₀.usedAt = none
      · have hin : held.contains r₀.id = true := by simpa using hheld r₀ hr₀ hemail hunused
        rw [if_pos hin]
        simp
      · exact (hf.used r₀ hunused).1
    · rcases hmem r hr with hr | rfl
      · exact hmarked.attempts r hr
      · exact hby.failedAttempts.trans hzero.symm
    · rcases hmem r hr with hr | rfl
      · exact hmarked.fresh r hr hunused
      · rw [hby.failedAttempts]
        decide
    · obtain ⟨r,hr,hrest⟩ := hmarked.refusals t ht
      exact ⟨r,List.mem_append_left _ hr,hrest⟩
    · obtain ⟨r,hr,hrest⟩ := hmarked.successes s hs
      exact ⟨r,List.mem_append_left _ hr,hrest⟩
    · rcases hmem r hr with hr | rfl
      · obtain ⟨i,hi,hrest⟩ := hmarked.issued r hr
        exact ⟨i,List.mem_cons_of_mem _ hi,hrest⟩
      · exact ⟨_,List.mem_cons_self,rfl,hby.email.symm,hby.codeHash,hby.expiresAt⟩
    · have horder : (w.markUsed o.now held).map (·.id) = (w.issued.map (·.rowId)).reverse := hmarked.order
      simp [World.commitIssue,horder]

/-- A successful attempt uses its code up and may make its user the owner. -/
theorem Inv.succeed (h : Inv A w) (ho : o ∈ w.opens) {row : CodeRow} {user : User} {fresh claimed : Bool}
    (hphase : o.phase = .ownerAsked row user fresh claimed) :
    Inv A (w.commitSuccess o row user fresh claimed) := by
  have hrow : o.row? = some row := by simp [Txn.row?,hphase]
  obtain ⟨hmem,hselects,hdigest⟩ := (h.ok o ho).row row hrow
  obtain ⟨hemail,hunused,hnow⟩ := selects_iff.mp hselects
  have hmatch := hdigest.mp (by simp [Txn.mismatch,hphase])
  have hlt := h.tables.fresh row hmem hunused
  have hrole : fresh = true → user.role ≠ .owner := by
    rintro rfl
    exact (h.ok o ho).newUser user (by simp [Txn.newUser?,hphase])
  have hclaimed : o.ownerClaimed = claimed := by simp [Txn.ownerClaimed,hphase]
  have hf := rewrite_markUsed o.now [row.id]
  have hmarked : Tables A { w.close o with codes := w.markUsed o.now [row.id] } :=
    (h.close o).tables.markUsed o.now [row.id]
  have howner : claimed = true → w.ownerUserId = none := fun hc => (h.ok o ho).owner (hclaimed.trans hc)
  refine h.commit ho rfl rfl (by simpa [Txn.rows,hphase] using hf) []
    (List.append_nil _).symm (by simp) ?_ ?_
  · cases claimed with
    | true => exact .inr hclaimed
    | false => exact .inl rfl
  · refine ⟨hmarked.ids,hmarked.bound,hmarked.superseded,hmarked.attempts,hmarked.fresh,hmarked.refusals,
      fun s hs => ?_,?_,hmarked.issued,hmarked.order,?_,?_⟩
    · rcases List.mem_cons.mp hs with rfl | hs
      · refine ⟨_,List.mem_map_of_mem hmem,hf.id row,(hf.email row).trans hemail,?_⟩
        simp only [List.contains_cons,beq_self_eq_true,Bool.true_or,if_true]
        exact ⟨by simp,hnow,hmatch,hlt⟩
      · exact hmarked.successes s hs
    · refine List.nodup_cons.mpr ⟨fun hin => ?_,h.tables.once⟩
      obtain ⟨s,hs,hid⟩ := List.mem_map.mp hin
      obtain ⟨r,hr,hrid,-,hused,-⟩ := h.tables.successes s hs
      obtain rfl := eq_of_id h.tables hr hmem (hrid.trans hid)
      exact hused hunused
    · cases claimed with
      | true =>
        have hnone := h.tables.owners
        rw [howner rfl] at hnone
        simp [World.commitSuccess,hnone]
      | false => exact h.tables.owners
    · have hroles : ∀ u ∈ if fresh then w.users ++ [user] else w.users, u.role = .owner → u.id ∈ w.owners := by
        intro u hu
        cases hfresh : fresh with
        | false => exact h.tables.roles u (by simpa [hfresh] using hu)
        | true =>
          rw [hfresh,if_pos rfl] at hu
          rcases List.mem_append.mp hu with hu | hu
          · exact h.tables.roles u hu
          · rw [List.mem_singleton.mp hu]
            exact fun heq => absurd heq (hrole hfresh)
      intro u hu
      cases claimed with
      | false => exact hroles u hu
      | true =>
        obtain ⟨u₀,hu₀,rfl⟩ := List.mem_map.mp hu
        change _ → _ ∈ user.id::w.owners
        by_cases hid : u₀.id = user.id
        · rw [if_pos hid]
          exact fun _ => List.mem_cons.mpr (.inl hid)
        · rw [if_neg hid]
          exact fun howns => List.mem_cons_of_mem _ (hroles u₀ hu₀ howns)

/-! ### One statement -/

theorem apart_of_others (h : Inv A w) (ho : o ∈ w.opens) {x : Txn} (hx : x ∈ w.others o) : o.Apart A x :=
  h.apart o ho x (mem_others.mp hx).1 (mem_others.mp hx).2.symm

theorem apart_of_unlocked {id : ℕ} (h : ¬ w.rowLocked o id = true) (hx : x ∈ w.others o) : id ∉ x.rows := by
  intro hmem
  exact h (List.any_eq_true.mpr ⟨x,hx,by simpa using hmem⟩)

theorem Txn.Ok.onward (hok : o.Ok A w) {phase : Phase} {row : CodeRow} (hrow : o.row? = some row)
    (hmatch : o.mismatch = false) (hrow' : ({ o with phase } : Txn).row? = some row)
    (hmatch' : ({ o with phase } : Txn).mismatch = false)
    (hinserted : ∀ held row, phase ≠ .inserted held row)
    (howner : ({ o with phase } : Txn).ownerClaimed = true → w.ownerUserId = none)
    (hnew : ∀ u ∈ ({ o with phase } : Txn).newUser?, u.role ≠ .owner) : ({ o with phase } : Txn).Ok A w where
  row r hr := by
    obtain rfl : row = r := Option.some.inj (hrow'.symm.trans hr)
    obtain ⟨hmem,hselects,hdigest⟩ := hok.row row hrow
    exact ⟨hmem,hselects,by rw [hmatch']; exact ⟨fun _ => hdigest.mp hmatch,fun _ => rfl⟩⟩
  inserted held row hphase := absurd hphase (hinserted held row)
  owner := howner
  newUser := hnew

theorem active_false {held : List ℕ} (h : ¬ w.activeConflict o held = true) :
    ∀ r ∈ w.codes, r.email = o.email → r.usedAt = none → r.id ∈ held := by
  intro r hr hemail hunused
  by_contra hout
  refine h (List.any_eq_true.mpr ⟨r,hr,?_⟩)
  simp [hemail,hunused,hout]

theorem signIn_kept (h : Inv A w) (ho : o ∈ w.opens) {row : CodeRow} (hphase : o.phase = .consumed row)
    {userId : String} (hstep : w.signIn o row userId = some w') : Inv A w' := by
  have hok := h.ok o ho
  have hrow : o.row? = some row := by simp [Txn.row?,hphase]
  have hmatch : o.mismatch = false := by simp [Txn.mismatch,hphase]
  have hput : ∀ user fresh, (fresh = true → user.role ≠ .owner) →
      Inv A (w.put o (.signedIn row user fresh)) := by
    intro user fresh hrole
    refine h.put (hok.onward hrow hmatch rfl rfl (by simp) (by simp [Txn.ownerClaimed]) fun u hu => ?_)
      fun x hx => (apart_of_others h ho hx).fewer
        (by simp [Txn.rows,hphase]) (by simp [Txn.advisory]) (by simp [Txn.ownerClaimed]) (by simp)
    cases fresh with
    | false => simp [Txn.newUser?] at hu
    | true =>
      obtain rfl : user = u := by simpa [Txn.newUser?] using hu
      exact hrole rfl
  unfold World.signIn at hstep
  by_cases hlocked : w.userLocked o o.email userId = true
  · simp [hlocked] at hstep
  rw [if_neg hlocked] at hstep
  split at hstep
  · obtain rfl := Option.some.inj hstep
    exact hput _ false (by simp)
  · split_ifs at hstep with htaken
    · obtain rfl := Option.some.inj hstep
      exact h.close o
    · obtain rfl := Option.some.inj hstep
      exact hput _ true (by simp)

/-! One lemma for each statement of a transaction, named after the phase before it. -/

theorem issueBegun_kept (h : Inv A w) {userId : String} (hphase : o.phase = .issueBegun)
    (hstep : w.advance A o userId = some w') : Inv A w' := by
  simp only [World.advance,hphase] at hstep
  split_ifs at hstep with hlocked
  obtain rfl := Option.some.inj hstep
  refine h.put (.blank rfl (by simp) rfl rfl) fun x hx => ⟨by simp [Txn.rows],fun _ hadvisory heq => ?_,
    by simp [Txn.ownerClaimed],by simp⟩
  exact hlocked (List.any_eq_true.mpr ⟨x,hx,by simp [hadvisory,heq]⟩)

theorem issueLocked_kept (h : Inv A w) (ho : o ∈ w.opens) {userId : String} (hphase : o.phase = .issueLocked)
    (hstep : w.advance A o userId = some w') : Inv A w' := by
  simp only [World.advance,hphase] at hstep
  obtain rfl := Option.some.inj hstep
  split_ifs
  · exact h.close o
  · exact h.put (.blank rfl (by simp) rfl rfl) fun x hx => (apart_of_others h ho hx).fewer (by simp [Txn.rows])
      (by simp [Txn.advisory,hphase]) (by simp [Txn.ownerClaimed]) (by simp)

theorem issueChecked_kept (h : Inv A w) (ho : o ∈ w.opens) {userId : String} (hphase : o.phase = .issueChecked)
    (hstep : w.advance A o userId = some w') : Inv A w' := by
  simp only [World.advance,hphase] at hstep
  obtain rfl := Option.some.inj hstep
  exact h.put (.blank rfl (by simp) rfl rfl) fun x hx => (apart_of_others h ho hx).fewer (by simp [Txn.rows])
    (by simp [Txn.advisory,hphase]) (by simp [Txn.ownerClaimed]) (by simp)

/-- One more older code is superseded. -/
theorem superseding_kept (h : Inv A w) (ho : o ∈ w.opens) {userId : String} {id : ℕ} {todo held : List ℕ}
    (hphase : o.phase = .superseding (id::todo) held) (hstep : w.advance A o userId = some w') : Inv A w' := by
  simp only [World.advance,hphase] at hstep
  by_cases hlocked : w.rowLocked o id = true
  · simp [hlocked] at hstep
  rw [if_neg hlocked] at hstep
  obtain rfl := Option.some.inj hstep
  have hmarks : ∀ i ∈ (if w.active id then id::held else held), i = id ∨ i ∈ o.rows := by
    intro i hi
    simp only [Txn.rows,hphase]
    split_ifs at hi
    · exact List.mem_cons.mp hi
    · exact .inr hi
  refine h.put (.blank rfl (by simp) rfl rfl) fun x hx => ⟨fun i hi => ?_,?_,by simp [Txn.ownerClaimed],by simp⟩
  · rcases hmarks i hi with rfl | hmem
    · exact apart_of_unlocked hlocked hx
    · exact (apart_of_others h ho hx).rows i hmem
  · exact fun _ => (apart_of_others h ho hx).advisory (by simp [Txn.advisory,hphase])

/-- The older codes are superseded, and the new one is inserted. -/
theorem superseded_kept (h : Inv A w) (ho : o ∈ w.opens) {userId : String} {held : List ℕ}
    (hphase : o.phase = .superseding [] held) (hstep : w.advance A o userId = some w') : Inv A w' := by
  simp only [World.advance,hphase] at hstep
  obtain rfl := Option.some.inj hstep
  split_ifs with hconflict
  · exact h.draw.close o
  · refine h.draw.put ⟨by simp [Txn.row?],fun held' row hphase' => ?_,by simp [Txn.ownerClaimed],
      by simp [Txn.newUser?]⟩ fun x hx => ⟨?_,?_,by simp [Txn.ownerClaimed],fun held₁ row₁ held₂ row₂ h₁ h₂ => ?_⟩
    · obtain ⟨rfl,rfl⟩ : held = held' ∧ w.newRow A o = row := by simpa using hphase'
      exact ⟨⟨rfl,rfl,rfl,rfl,rfl⟩,active_false hconflict,Nat.lt_succ_self _,
        fun r hr => Nat.ne_of_lt (h.tables.bound r hr)⟩
    · simpa [Txn.rows,hphase] using (apart_of_others h ho hx).rows
    · exact fun _ => (apart_of_others h ho hx).advisory (by simp [Txn.advisory,hphase])
    · obtain ⟨-,rfl⟩ : held = held₁ ∧ w.newRow A o = row₁ := by simpa using h₁
      have hlt := ((h.ok x (mem_others.mp hx).1).inserted held₂ row₂ h₂).2.2.1
      exact Nat.ne_of_gt hlt

theorem verifyBegun_kept (h : Inv A w) (ho : o ∈ w.opens) {userId : String} (hphase : o.phase = .verifyBegun)
    (hstep : w.advance A o userId = some w') : Inv A w' := by
  simp only [World.advance,hphase] at hstep
  obtain rfl := Option.some.inj hstep
  exact h.put (.blank rfl (by simp) rfl rfl) fun x hx => (apart_of_others h ho hx).fewer (by simp [Txn.rows])
    (by simp [Txn.advisory]) (by simp [Txn.ownerClaimed]) (by simp)

/-- The next candidate is locked and read again. -/
theorem choosing_kept (h : Inv A w) (ho : o ∈ w.opens) {userId : String} {id : ℕ} {todo : List ℕ}
    (hphase : o.phase = .choosing (id::todo)) (hstep : w.advance A o userId = some w') : Inv A w' := by
  simp only [World.advance,hphase] at hstep
  by_cases hlocked : w.rowLocked o id = true
  · simp [hlocked] at hstep
  rw [if_neg hlocked] at hstep
  split at hstep
  · obtain rfl := Option.some.inj hstep
    exact h.put (.blank rfl (by simp) rfl rfl) fun x hx => (apart_of_others h ho hx).fewer (by simp [Txn.rows])
      (by simp [Txn.advisory]) (by simp [Txn.ownerClaimed]) (by simp)
  · rename_i row hfind
    have hmem := List.mem_of_find?_eq_some hfind
    have hsel := List.find?_some hfind
    simp only [Bool.and_eq_true,decide_eq_true_eq] at hsel
    obtain ⟨rfl,hselects⟩ := hsel
    -- the row is nobody else's, and its committed version still qualifies
    split_ifs at hstep with hdigest <;> obtain rfl := Option.some.inj hstep
    · refine h.put ⟨fun r hr => ?_,by simp,by simp [Txn.ownerClaimed],by simp [Txn.newUser?]⟩
        fun x hx => ⟨?_,by simp [Txn.advisory],by simp [Txn.ownerClaimed],by simp⟩
      · obtain rfl : row = r := by simpa [Txn.row?] using hr
        exact ⟨hmem,hselects,by simp [Txn.mismatch,hdigest]⟩
      · simpa [Txn.rows] using apart_of_unlocked hlocked hx
    · refine h.put ⟨fun r hr => ?_,by simp,by simp [Txn.ownerClaimed],by simp [Txn.newUser?]⟩
        fun x hx => ⟨?_,by simp [Txn.advisory],by simp [Txn.ownerClaimed],by simp⟩
      · obtain rfl : row = r := by simpa [Txn.row?] using hr
        exact ⟨hmem,hselects,by simp [Txn.mismatch,hdigest]⟩
      · simpa [Txn.rows] using apart_of_unlocked hlocked hx

theorem matched_kept (h : Inv A w) (ho : o ∈ w.opens) {userId : String} {row : CodeRow}
    (hphase : o.phase = .matched row) (hstep : w.advance A o userId = some w') : Inv A w' := by
  simp only [World.advance,hphase] at hstep
  obtain rfl := Option.some.inj hstep
  split_ifs
  · exact h.put ((h.ok o ho).onward (by simp [Txn.row?,hphase]) (by simp [Txn.mismatch,hphase]) rfl rfl (by simp)
      (by simp [Txn.ownerClaimed]) (by simp [Txn.newUser?])) fun x hx => (apart_of_others h ho hx).fewer
        (by simp [Txn.rows,hphase]) (by simp [Txn.advisory]) (by simp [Txn.ownerClaimed]) (by simp)
  · exact h.close o

theorem signedIn_kept (h : Inv A w) (ho : o ∈ w.opens) {userId : String} {row : CodeRow} {user : User} {fresh : Bool}
    (hphase : o.phase = .signedIn row user fresh) (hstep : w.advance A o userId = some w') : Inv A w' := by
  have hok := h.ok o ho
  simp only [World.advance,hphase] at hstep
  split_ifs at hstep with hlocked
  obtain rfl := Option.some.inj hstep
  refine h.put (hok.onward (by simp [Txn.row?,hphase]) (by simp [Txn.mismatch,hphase]) rfl rfl (by simp)
    (fun hclaimed => ?_) fun u hu => hok.newUser u ?_) fun x hx => ⟨?_,by simp [Txn.advisory],
      fun hboth => ?_,by simp⟩
  · simpa [Txn.ownerClaimed] using hclaimed
  · cases fresh with
    | false => simp [Txn.newUser?] at hu
    | true => simpa [Txn.newUser?,hphase] using hu
  · simpa [Txn.rows,hphase] using (apart_of_others h ho hx).rows
  · exact hlocked (List.any_eq_true.mpr ⟨x,hx,hboth.2⟩)

theorem advance_kept (h : Inv A w) (ho : o ∈ w.opens) {userId : String}
    (hstep : w.advance A o userId = some w') : Inv A w' := by
  cases hphase : o.phase with
  | issueBegun => exact issueBegun_kept h hphase hstep
  | issueLocked => exact issueLocked_kept h ho hphase hstep
  | issueChecked => exact issueChecked_kept h ho hphase hstep
  | superseding todo held =>
    cases todo with
    | cons id todo => exact superseding_kept h ho hphase hstep
    | nil => exact superseded_kept h ho hphase hstep
  | inserted held row =>
    simp only [World.advance,hphase] at hstep
    obtain rfl := Option.some.inj hstep
    exact h.issue ho hphase
  | verifyBegun => exact verifyBegun_kept h ho hphase hstep
  | choosing todo =>
    cases todo with
    | nil =>
      simp only [World.advance,hphase] at hstep
      obtain rfl := Option.some.inj hstep
      exact h.close o
    | cons id todo => exact choosing_kept h ho hphase hstep
  | mismatched row =>
    simp only [World.advance,hphase] at hstep
    obtain rfl := Option.some.inj hstep
    exact h.refuse ho hphase
  | matched row => exact matched_kept h ho hphase hstep
  | consumed row =>
    simp only [World.advance,hphase] at hstep
    exact signIn_kept h ho hphase hstep
  | signedIn row user fresh => exact signedIn_kept h ho hphase hstep
  | ownerAsked row user fresh claimed =>
    simp only [World.advance,hphase] at hstep
    obtain rfl := Option.some.inj hstep
    exact h.succeed ho hphase

theorem txn?_mem {txn : ℕ} (h : w.txn? txn = some o) : o ∈ w.opens ∧ o.id = txn :=
  ⟨List.mem_of_find?_eq_some h,by simpa using List.find?_some h⟩

theorem start_kept (h : Inv A w) {id : ℕ} {now : Time} {email code : String} {phase : Phase}
    (hphase : phase = .issueBegun ∨ phase = .verifyBegun)
    (hstep : w.start ⟨id,now,email,code,phase⟩ = some w') : Inv A w' := by
  unfold World.start at hstep
  split_ifs at hstep with hknown
  obtain rfl := Option.some.inj hstep
  have hfree : ∀ x ∈ w.opens, x.id ≠ id := by
    intro x hx heq
    exact hknown (List.find?_isSome.mpr ⟨x,hx,by simpa using heq⟩)
  have hnone : w.others ⟨id,now,email,code,phase⟩ = w.opens :=
    List.filter_eq_self.mpr fun x hx => by simpa using hfree x hx
  have hput : Inv A (w.put ⟨id,now,email,code,phase⟩ phase) := h.put
    (by rcases hphase with rfl | rfl <;> exact .blank rfl (by simp) rfl rfl)
    fun x _ => by rcases hphase with rfl | rfl <;> exact ⟨by simp [Txn.rows],by simp [Txn.advisory],
      by simp [Txn.ownerClaimed],by simp⟩
  rw [World.put,hnone] at hput
  exact hput

theorem step_kept (h : Inv A w) {act : Act} (hstep : w.step A act = some w') : Inv A w' := by
  cases act with
  | issueCode txn now email code => exact start_kept h (.inl rfl) hstep
  | verifyCode txn now email code => exact start_kept h (.inr rfl) hstep
  | advance txn userId =>
    obtain ⟨o,ho,hadvance⟩ := Option.bind_eq_some_iff.mp hstep
    exact advance_kept h (txn?_mem ho).1 hadvance
  | rollback txn =>
    obtain ⟨o,-,rfl⟩ := Option.map_eq_some_iff.mp hstep
    exact h.close o

theorem inv_fresh : Inv A {} where
  keyed := by simp
  ok := by simp
  apart := by simp
  tables := ⟨by simp,by simp,by simp,by simp,by simp,by simp,by simp,by simp,by simp,by simp,by simp,
    by simp⟩

theorem run_kept {acts : List Act} (h : Inv A w) (hrun : w.run A acts = some w') : Inv A w' := by
  induction acts generalizing w with
  | nil =>
    obtain rfl := Option.some.inj hrun
    exact h
  | cons act acts ih =>
    obtain ⟨w₁,hstep,hrest⟩ := Option.bind_eq_some_iff.mp hrun
    exact ih (step_kept h hstep) hrest

/-! ### What a step changes -/

/-- The tables and the answers are as before. -/
structure Still (w w' : World) : Prop where
  codes : w'.codes = w.codes
  users : w'.users = w.users
  sessions : w'.sessions = w.sessions
  ownerUserId : w'.ownerUserId = w.ownerUserId
  issued : w'.issued = w.issued
  successes : w'.successes = w.successes

/-- A transaction that goes on without an effect. -/
structure GoesOn (w : World) (o : Txn) (w' : World) : Prop extends Still w w' where
  opens : ∀ x ∈ w'.opens, x.code = o.code ∨ x ∈ w.opens

theorem others_subset : w.others o ⊆ w.opens := List.filter_subset_self _

theorem goesOn_put (phase : Phase) : GoesOn w o (w.put o phase) := by
  refine ⟨⟨rfl,rfl,rfl,rfl,rfl,rfl⟩,fun x hx => ?_⟩
  rcases List.mem_cons.mp hx with rfl | hx
  · exact .inl rfl
  · exact .inr (others_subset hx)

theorem goesOn_close : GoesOn w o (w.close o) :=
  ⟨⟨rfl,rfl,rfl,rfl,rfl,rfl⟩,fun _ hx => .inr (others_subset hx)⟩

/-- Only three statements commit something. -/
theorem advance_cases {userId : String} (hstep : w.advance A o userId = some w') :
    GoesOn w o w' ∨ (∃ held row, o.phase = .inserted held row ∧ w' = w.commitIssue o held row) ∨
      (∃ row, o.phase = .mismatched row ∧ w' = w.commitRefusal o row) ∨
      ∃ row user fresh claimed, o.phase = .ownerAsked row user fresh claimed ∧
        w' = w.commitSuccess o row user fresh claimed := by
  have hput : ∀ phase, GoesOn w o (w.put o phase) := goesOn_put
  have hclose : GoesOn w o (w.close o) := goesOn_close
  unfold World.advance at hstep
  cases hphase : o.phase with
  | inserted held row =>
    simp only [hphase,Option.some.injEq] at hstep
    exact .inr (.inl ⟨held,row,rfl,hstep.symm⟩)
  | mismatched row =>
    simp only [hphase,Option.some.injEq] at hstep
    exact .inr (.inr (.inl ⟨row,rfl,hstep.symm⟩))
  | ownerAsked row user fresh claimed =>
    simp only [hphase,Option.some.injEq] at hstep
    exact .inr (.inr (.inr ⟨row,user,fresh,claimed,rfl,hstep.symm⟩))
  | consumed row =>
    simp only [hphase,World.signIn] at hstep
    refine .inl ?_
    split at hstep
    · simp at hstep
    · split at hstep
      · obtain rfl := Option.some.inj hstep
        exact hput _
      · split_ifs at hstep <;> obtain rfl := Option.some.inj hstep
        · exact hclose
        · exact hput _
  | superseding todo held =>
    refine .inl ?_
    cases todo with
    | nil =>
      simp only [hphase,Option.some.injEq] at hstep
      subst hstep
      split_ifs
      · exact ⟨⟨rfl,rfl,rfl,rfl,rfl,rfl⟩,hclose.opens⟩
      · exact ⟨⟨rfl,rfl,rfl,rfl,rfl,rfl⟩,(hput _).opens⟩
    | cons id todo =>
      simp only [hphase] at hstep
      split at hstep
      · simp at hstep
      · obtain rfl := Option.some.inj hstep
        exact hput _
  | choosing todo =>
    refine .inl ?_
    cases todo with
    | nil =>
      simp only [hphase,Option.some.injEq] at hstep
      exact hstep ▸ hclose
    | cons id todo =>
      simp only [hphase] at hstep
      split at hstep
      · simp at hstep
      · split at hstep
        · obtain rfl := Option.some.inj hstep
          exact hput _
        · split_ifs at hstep <;> obtain rfl := Option.some.inj hstep <;> exact hput _
  | issueBegun =>
    simp only [hphase] at hstep
    split_ifs at hstep
    exact .inl (Option.some.inj hstep ▸ hput _)
  | issueLocked =>
    simp only [hphase,Option.some.injEq] at hstep
    subst hstep
    split_ifs
    · exact .inl hclose
    · exact .inl (hput _)
  | issueChecked =>
    simp only [hphase,Option.some.injEq] at hstep
    exact .inl (hstep ▸ hput _)
  | verifyBegun =>
    simp only [hphase,Option.some.injEq] at hstep
    exact .inl (hstep ▸ hput _)
  | matched row =>
    simp only [hphase,Option.some.injEq] at hstep
    subst hstep
    split_ifs
    · exact .inl (hput _)
    · exact .inl hclose
  | signedIn row user fresh =>
    simp only [hphase] at hstep
    split_ifs at hstep
    exact .inl (Option.some.inj hstep ▸ hput _)

/-- The code row has been used up. -/
def Spent (w : World) (id : ℕ) : Prop := ∃ r ∈ w.codes, r.id = id ∧ r.usedAt ≠ none

/-- A code that is used up stays so, and no success is added for it. -/
structure Effect (w w' : World) : Prop where
  spent : ∀ id, Spent w id → Spent w' id
  success : ∀ id, Spent w id → id ∈ w'.successes.map (·.rowId) → id ∈ w.successes.map (·.rowId)

theorem Still.effect (h : Still w w') : Effect w w' where
  spent id hid := by
    obtain ⟨r,hr,hrest⟩ := hid
    exact ⟨r,by rwa [h.codes],hrest⟩
  success id _ hin := by rwa [h.successes] at hin

theorem Rewrite.spent {ids : List ℕ} {f : CodeRow → CodeRow} (hf : Rewrite ids f) {new : List CodeRow}
    (hcodes : w'.codes = w.codes.map f ++ new) {id : ℕ} (h : Spent w id) : Spent w' id := by
  obtain ⟨r,hr,hid,hused⟩ := h
  refine ⟨f r,?_,(hf.id r).trans hid,(hf.used r hused).1⟩
  rw [hcodes]
  exact List.mem_append_left _ (List.mem_map_of_mem hr)

theorem advance_effect (h : Inv A w) (ho : o ∈ w.opens) {userId : String}
    (hstep : w.advance A o userId = some w') : Effect w w' := by
  obtain hstill | ⟨held,row,-,rfl⟩ | ⟨row,-,rfl⟩ | ⟨row,user,fresh,claimed,hphase,rfl⟩ := advance_cases hstep
  · exact hstill.toStill.effect
  · exact ⟨fun id => (rewrite_markUsed o.now held).spent rfl,fun _ _ hin => hin⟩
  · exact ⟨fun id => (rewrite_refused o row).spent (List.append_nil _).symm,fun _ _ hin => hin⟩
  · refine ⟨fun id => (rewrite_markUsed o.now [row.id]).spent (List.append_nil _).symm,fun id hspent hin => ?_⟩
    rcases List.mem_cons.mp hin with rfl | hin
    · -- the row was locked, so it cannot have been used up meanwhile
      obtain ⟨r,hr,hid,hused⟩ := hspent
      obtain ⟨hmem,hselects,-⟩ := (h.ok o ho).row row (by simp [Txn.row?,hphase])
      obtain rfl := eq_of_id h.tables hr hmem hid
      exact absurd (selects_iff.mp hselects).2.1 hused
    · exact hin

theorem step_effect (h : Inv A w) {act : Act} (hstep : w.step A act = some w') : Effect w w' := by
  have hstart : ∀ x, w.start x = some w' → Effect w w' := by
    intro x hx
    unfold World.start at hx
    split_ifs at hx
    obtain rfl := Option.some.inj hx
    exact Still.effect ⟨rfl,rfl,rfl,rfl,rfl,rfl⟩
  cases act with
  | issueCode txn now email code => exact hstart _ hstep
  | verifyCode txn now email code => exact hstart _ hstep
  | advance txn userId =>
    obtain ⟨o,ho,hadvance⟩ := Option.bind_eq_some_iff.mp hstep
    exact advance_effect h (txn?_mem ho).1 hadvance
  | rollback txn =>
    obtain ⟨o,-,rfl⟩ := Option.map_eq_some_iff.mp hstep
    exact Still.effect ⟨rfl,rfl,rfl,rfl,rfl,rfl⟩

theorem run_effect {acts : List Act} (h : Inv A w) (hrun : w.run A acts = some w') : Effect w w' := by
  induction acts generalizing w with
  | nil =>
    obtain rfl := Option.some.inj hrun
    exact ⟨fun _ hid => hid,fun _ _ hin => hin⟩
  | cons act acts ih =>
    obtain ⟨w₁,hstep,hrest⟩ := Option.bind_eq_some_iff.mp hrun
    have hone := step_effect h hstep
    have hmore := ih (step_kept h hstep) hrest
    exact ⟨fun id hid => hmore.spent id (hone.spent id hid),fun id hid hin =>
      hone.success id hid (hmore.success id (hone.spent id hid) hin)⟩

/-- Some way to go on from here ends with a success of the code that is not there yet. -/
def CanStillSucceed (A : Auth) (w : World) (id : ℕ) : Prop :=
  ∃ acts w', w.run A acts = some w' ∧ id ∈ w'.successes.map (·.rowId) ∧ id ∉ w.successes.map (·.rowId)

theorem not_canStillSucceed (h : Inv A w) {id : ℕ} (hspent : Spent w id) : ¬ CanStillSucceed A w id := by
  rintro ⟨acts,w',hrun,hin,hout⟩
  exact hout ((run_effect h hrun).success id hspent hin)

/-- What a step of `verify_code` that is no success leaves alone. -/
structure Leaves (email : String) (w w' : World) : Prop where
  codes : w'.codes.filter (fun r => r.email != email) = w.codes.filter fun r => r.email != email
  users : w'.users = w.users
  sessions : w'.sessions = w.sessions
  ownerUserId : w'.ownerUserId = w.ownerUserId
  issued : w'.issued = w.issued

theorem Still.leaves (h : Still w w') (email : String) : Leaves email w w' :=
  ⟨by rw [h.codes],h.users,h.sessions,h.ownerUserId,h.issued⟩

theorem advance_leaves (h : Inv A w) (ho : o ∈ w.opens) (hverifies : o.verifies = true) {userId : String}
    (hstep : w.advance A o userId = some w') (hfailed : w'.successes = w.successes) :
    Leaves o.email w w' := by
  obtain hstill | ⟨held,row,hphase,-⟩ | ⟨row,hphase,rfl⟩ | ⟨row,user,fresh,claimed,-,rfl⟩ := advance_cases hstep
  · exact hstill.toStill.leaves _
  · simp [Txn.verifies,hphase] at hverifies
  · obtain ⟨hmem,hselects,-⟩ := (h.ok o ho).row row (by simp [Txn.row?,hphase])
    have hemail := (selects_iff.mp hselects).1
    have hf := rewrite_refused o row
    refine ⟨?_,rfl,rfl,rfl,rfl⟩
    change (w.codes.map (World.refused o row)).filter _ = _
    rw [List.filter_map]
    have hsame : w.codes.filter ((fun r => r.email != o.email) ∘ World.refused o row) =
        w.codes.filter fun r => r.email != o.email :=
      List.filter_congr fun r _ => by rw [Function.comp_apply,hf.email]
    rw [hsame]
    conv_rhs => rw [← List.map_id (w.codes.filter fun r => r.email != o.email)]
    refine List.map_congr_left fun r hr => hf.out r ?_
    obtain ⟨hin,hne⟩ := List.mem_filter.mp hr
    rw [List.mem_singleton]
    intro hid
    rw [eq_of_id h.tables hin hmem hid,hemail] at hne
    simp at hne
  · simp [World.commitSuccess] at hfailed

/-! ### The codes of a run -/

/-- The code that an act hands in. -/
def Act.code? : Act → Option String
  | .issueCode _ _ _ code | .verifyCode _ _ _ code => some code
  | .advance _ _ | .rollback _ => none

/-- All codes in the world come from a set. -/
structure Coded (codes : Set String) (w : World) : Prop where
  opens : ∀ x ∈ w.opens, x.code ∈ codes
  issued : ∀ i ∈ w.issued, i.code ∈ codes
  successes : ∀ s ∈ w.successes, s.code ∈ codes

variable {codes : Set String}

theorem Coded.advance (h : Coded codes w) (ho : o ∈ w.opens) {userId : String}
    (hstep : w.advance A o userId = some w') : Coded codes w' := by
  obtain hon | ⟨held,row,-,rfl⟩ | ⟨row,-,rfl⟩ | ⟨row,user,fresh,claimed,-,rfl⟩ := advance_cases hstep
  · refine ⟨fun x hx => ?_,hon.issued ▸ h.issued,hon.successes ▸ h.successes⟩
    rcases hon.opens x hx with hcode | hx
    · exact hcode ▸ h.opens o ho
    · exact h.opens x hx
  · refine ⟨fun x hx => h.opens x (others_subset hx),fun i hi => ?_,h.successes⟩
    rcases List.mem_cons.mp hi with rfl | hi
    · exact h.opens o ho
    · exact h.issued i hi
  · exact ⟨fun x hx => h.opens x (others_subset hx),h.issued,h.successes⟩
  · refine ⟨fun x hx => h.opens x (others_subset hx),h.issued,fun s hs => ?_⟩
    rcases List.mem_cons.mp hs with rfl | hs
    · exact h.opens o ho
    · exact h.successes s hs

theorem Coded.start (h : Coded codes w) {x : Txn} (hx : x.code ∈ codes) (hstep : w.start x = some w') :
    Coded codes w' := by
  unfold World.start at hstep
  split_ifs at hstep
  obtain rfl := Option.some.inj hstep
  exact ⟨List.forall_mem_cons.mpr ⟨hx,h.opens⟩,h.issued,h.successes⟩

theorem Coded.step (h : Coded codes w) {act : Act} (hact : ∀ code, act.code? = some code → code ∈ codes)
    (hstep : w.step A act = some w') : Coded codes w' := by
  cases act with
  | issueCode txn now email code => exact h.start (hact code rfl) hstep
  | verifyCode txn now email code => exact h.start (hact code rfl) hstep
  | advance txn userId =>
    obtain ⟨o,ho,hadvance⟩ := Option.bind_eq_some_iff.mp hstep
    exact h.advance (txn?_mem ho).1 hadvance
  | rollback txn =>
    obtain ⟨o,-,rfl⟩ := Option.map_eq_some_iff.mp hstep
    exact ⟨fun x hx => h.opens x (others_subset hx),h.issued,h.successes⟩

theorem Coded.run {acts : List Act} (h : Coded codes w)
    (hacts : ∀ act ∈ acts, ∀ code, act.code? = some code → code ∈ codes) (hrun : w.run A acts = some w') :
    Coded codes w' := by
  induction acts generalizing w with
  | nil =>
    obtain rfl := Option.some.inj hrun
    exact h
  | cons act acts ih =>
    obtain ⟨w₁,hstep,hrest⟩ := Option.bind_eq_some_iff.mp hrun
    exact ih (h.step (hacts act List.mem_cons_self) hstep)
      (fun other hother => hacts other (List.mem_cons_of_mem _ hother)) hrest

end

/-- Sign-in by emailed code over whole runs: of an email's codes at most one can still
succeed; a code succeeds once at most, before it expires, and for the right code where the
MAC tells the codes of the run apart; one that
was superseded, or tried wrongly five times, never does; a failed attempt leaves what is
not its email's alone; and at most one user is made the owner. -/
theorem email_codes (A : Auth) (acts : List Act) (w : World) (hrun : World.run A {} acts = some w) :
    (∀ r ∈ w.codes, ∀ r' ∈ w.codes, r.email = r'.email → CanStillSucceed A w r.id →
      CanStillSucceed A w r'.id → r = r') ∧
    (w.codes.map (·.id) = (w.issued.map (·.rowId)).reverse ∧ (w.issued.map (·.rowId)).Nodup) ∧
    (w.successes.map (·.rowId)).Nodup ∧
    (∀ s ∈ w.successes, ∃ i ∈ w.issued, i.rowId = s.rowId ∧ i.email = s.email ∧
      s.now < i.now+verificationCodeTtl ∧
      (Set.InjOn (otpDigest A s.email s.rowId) {code | ∃ act ∈ acts, act.code? = some code} → i.code = s.code)) ∧
    (∀ old new, [old,new].Sublist w.codes → old.email = new.email → ¬ CanStillSucceed A w old.id) ∧
    (∀ t ∈ w.refusals, ∃ i ∈ w.issued, i.rowId = t.rowId ∧ i.code ≠ t.code) ∧
    (∀ r ∈ w.codes, verificationCodeMaxAttempts ≤ refusalsOf w r.id →
      r.id ∉ w.successes.map (·.rowId) ∧ ¬ CanStillSucceed A w r.id) ∧
    (∀ o ∈ w.opens, o.verifies = true → ∀ act w', (∃ userId, act = .advance o.id userId) ∨
      act = .rollback o.id → w.step A act = some w' → w'.successes = w.successes → Leaves o.email w w') ∧
    w.owners.length ≤ 1 ∧ ∀ u ∈ w.users, u.role = .owner → u.id ∈ w.owners := by
  have h := run_kept inv_fresh hrun
  have hcoded : Coded {code | ∃ act ∈ acts, act.code? = some code} w :=
    Coded.run ⟨by simp,by simp,by simp⟩ (fun act hact code hcode => ⟨act,hact,hcode⟩) hrun
  refine ⟨fun r hr r' hr' hemail hcan hcan' => ?_,⟨h.tables.order,?_⟩,h.tables.once,fun s hs => ?_,
    fun old new hsub hemail => ?_,fun t ht => ?_,fun r hr hfive => ?_,
    fun o ho hverifies act w' hact hstep hfailed => ?_,?_,h.tables.roles⟩
  · by_contra hne
    have hunused : ∀ r ∈ w.codes, CanStillSucceed A w r.id → r.usedAt = none := by
      intro r hr hcan
      by_contra hused
      exact not_canStillSucceed h ⟨r,hr,rfl,hused⟩ hcan
    have hpairs : w.codes.Pairwise fun a b => a.email = b.email → a.usedAt ≠ none ∨ b.usedAt ≠ none :=
      h.tables.superseded.imp fun hold hsame => .inl (hold hsame)
    have hsymm : Std.Symm fun a b : CodeRow => a.email = b.email → a.usedAt ≠ none ∨ b.usedAt ≠ none :=
      ⟨fun _ _ hab hsame => (hab hsame.symm).symm⟩
    rcases hpairs.forall hr hr' hne hemail with hused | hused
    · exact hused (hunused r hr hcan)
    · exact hused (hunused r' hr' hcan')
  · have hnodup := h.tables.ids
    rw [h.tables.order] at hnodup
    exact List.nodup_reverse.mp hnodup
  · obtain ⟨r,hr,hid,hemail,-,hnow,hhash,-⟩ := h.tables.successes s hs
    obtain ⟨i,hi,hiid,hiemail,hissued,hexpires⟩ := h.tables.issued r hr
    refine ⟨i,hi,hiid.trans hid,hiemail.trans hemail,hexpires ▸ hnow,fun hexact => ?_⟩
    refine hexact (hcoded.issued i hi) (hcoded.successes s hs) ?_
    rw [← hemail,← hid,← hissued,hhash]
  · have hused := List.pairwise_iff_forall_sublist.mp h.tables.superseded hsub hemail
    exact not_canStillSucceed h ⟨old,hsub.subset (by simp),rfl,hused⟩
  · obtain ⟨r,hr,hid,hne⟩ := h.tables.refusals t ht
    obtain ⟨i,hi,hiid,-,hissued,-⟩ := h.tables.issued r hr
    exact ⟨i,hi,hiid.trans hid,fun heq => hne (heq ▸ hissued)⟩
  · have hattempts := h.tables.attempts r hr
    have hused : r.usedAt ≠ none := fun hunused => by
      have hlt := h.tables.fresh r hr hunused
      omega
    refine ⟨fun hin => ?_,not_canStillSucceed h ⟨r,hr,rfl,hused⟩⟩
    obtain ⟨s,hs,hid⟩ := List.mem_map.mp hin
    obtain ⟨r₁,hr₁,hrid,-,-,-,-,hlt⟩ := h.tables.successes s hs
    obtain rfl := eq_of_id h.tables hr₁ hr (hrid.trans hid)
    omega
  · rcases hact with ⟨userId,rfl⟩ | rfl
    · obtain ⟨x,hx,hadvance⟩ := Option.bind_eq_some_iff.mp hstep
      obtain ⟨hmem,hid⟩ := txn?_mem hx
      obtain rfl := h.keyed x hmem o ho hid
      exact advance_leaves h ho hverifies hadvance hfailed
    · obtain ⟨x,-,rfl⟩ := Option.map_eq_some_iff.mp hstep
      exact (⟨rfl,rfl,rfl,rfl,rfl,rfl⟩ : Still w (w.close x)).leaves _
  · rw [h.tables.owners]
    cases w.ownerUserId <;> simp

theorem length_toBeBytes (n value : ℕ) : (toBeBytes n value).length = n := by simp [toBeBytes]

/-- Under an exact MAC the digest of an issue tells its code. -/
theorem otpDigest_injective {A : Auth} (h : Function.Injective A.hmac) (email : String) (id : ℕ) :
    Function.Injective (otpDigest A email id) := by
  intro code code' heq
  have hmessage := h heq
  unfold appendLenPrefixed at hmessage
  have hbytes : utf8 code = utf8 code' := by
    refine (List.append_inj hmessage ?_).2
    simp only [List.length_append,length_toBeBytes]
  exact Text.asBytes_injective hbytes

def plainAuth : Auth := ⟨id,fun _ => 0⟩

def statements (txn n : ℕ) : List Act := List.replicate n (.advance txn "user-1")

/-- A code is issued and tried wrongly, a second one supersedes it and succeeds. -/
def secondCode : List Act :=
  .issueCode 1 0 "a@north" "111111"::statements 1 5 ++
    .verifyCode 2 second "a@north" "000000"::statements 2 3 ++
    .issueCode 3 (61*second) "a@north" "222222"::statements 3 6 ++
    .verifyCode 4 (62*second) "a@north" "222222"::statements 4 6

theorem secondCode_succeeds : ∃ w, World.run plainAuth {} secondCode = some w ∧
    w.successes.map (·.rowId) = [2] ∧ w.owners = ["user-1"] ∧
    (∀ s ∈ w.successes, ∃ i ∈ w.issued, i.rowId = s.rowId ∧ i.code = s.code) ∧
    ∀ old new, [old,new].Sublist w.codes → old.email = new.email → ¬ CanStillSucceed plainAuth w old.id := by
  have hfacts : (World.run plainAuth {} secondCode).any (fun w =>
      decide (w.successes.map (·.rowId) = [2]) && decide (w.owners = ["user-1"])) = true := by
    decide +kernel
  obtain ⟨w,hrun,hw⟩ := (Option.any_eq_true _ _).mp hfacts
  simp only [Bool.and_eq_true,decide_eq_true_eq] at hw
  obtain ⟨-,-,-,hsuccesses,hsuperseded,-⟩ := email_codes plainAuth secondCode w hrun
  refine ⟨w,hrun,hw.1,hw.2,fun s hs => ?_,hsuperseded⟩
  obtain ⟨i,hi,hid,-,-,hcode⟩ := hsuccesses s hs
  exact ⟨i,hi,hid,hcode (otpDigest_injective Function.injective_id _ _).injOn⟩

end EmailAuth
end North
