import North.JournalOrder
import North.JournalResults

/-! How the journal classifies a command envelope that arrives. Records and tombstones
together stand for the accepted envelopes, each once, and no two of these share an id, a
place in their session or a message; so a shared identity means a resend or a conflict,
and compaction does not change which. -/
namespace North
namespace Journal

open Machine Protocol Prog

/-- What a record keeps of the identity of its command, and its tombstone after it. -/
structure CommandIdentity where
  daemonId : String
  commandId : String
  sessionId : String
  serverCommandSeq : ℕ
  payloadDigest : String
  messageId : Option String
  deriving DecidableEq, Repr

def CommandRecord.identity (r : CommandRecord) : CommandIdentity :=
  ⟨r.daemonId,r.commandId,r.sessionId,r.serverCommandSeq,r.payloadDigest,r.messageId⟩

def CommandTombstone.identity (t : CommandTombstone) : CommandIdentity :=
  ⟨t.daemonId,t.commandId,t.sessionId,t.serverCommandSeq,t.payloadDigest,t.messageId⟩

def identityOf (J : Handle) (e : CommandEnvelope) : CommandIdentity :=
  ⟨J.daemonId,e.commandId,e.sessionId,e.serverCommandSeq,J.commandDigest e,messageIdOf e.command⟩

/-- The envelopes have their id, their place or their message in common. -/
def SharesIdentity (e e' : CommandEnvelope) : Prop :=
  e.commandId = e'.commandId ∨
    (e.sessionId = e'.sessionId ∧ e.serverCommandSeq = e'.serverCommandSeq) ∨
    (e.sessionId = e'.sessionId ∧ (messageIdOf e.command).isSome = true ∧
      messageIdOf e.command = messageIdOf e'.command)

instance (e e' : CommandEnvelope) : Decidable (SharesIdentity e e') :=
  inferInstanceAs (Decidable (_ ∨ _ ∨ _))

def CommandView.envelopes (v : CommandView) : Set CommandEnvelope :=
  {e | ∃ r ∈ v.commands, recordToEnvelope r = e}

/-- The envelopes that had a record in one of these states. -/
def acceptedIn (states : List JournalFile) : Set CommandEnvelope :=
  {e | ∃ s ∈ states, e ∈ s.view.envelopes}

def Host.Accepted {σ : Type} (h : Host σ) (e : CommandEnvelope) : Prop := e ∈ acceptedIn h.history

namespace CommandView

def identities (v : CommandView) : List CommandIdentity :=
  v.commands.map (·.identity) ++ v.tombstones.map (·.identity)

variable {v v' : CommandView}

theorem mem_identities {i : CommandIdentity} : i ∈ v.identities ↔
    (∃ r ∈ v.commands, r.identity = i) ∨ ∃ t ∈ v.tombstones, t.identity = i := by
  simp [identities]

theorem identities_update (commandId : String) {f : CommandRecord → CommandRecord}
    (hf : ∀ r, (f r).identity = r.identity) : (v.update commandId f).identities = v.identities := by
  simp only [identities,update,Table.map_updateFirst _ f _ hf]

theorem identities_bury (q : CommandRecord → Bool) :
    ({ v with
      commands := v.commands.filter fun r => !q r
      tombstones := v.tombstones ++ (v.commands.filter q).map commandTombstone } :
        CommandView).identities.Perm v.identities := by
  have hsplit : ((v.commands.filter fun r => !q r) ++ v.commands.filter q).Perm v.commands :=
    List.perm_append_comm.trans (List.filter_append_perm q v.commands)
  have hmap : ((v.commands.filter q).map commandTombstone).map (·.identity) =
      (v.commands.filter q).map (·.identity) := by
    rw [List.map_map]
    exact List.map_congr_left fun _ _ => rfl
  unfold identities
  rw [List.map_append,hmap]
  refine List.Perm.trans ?_ ((hsplit.map (·.identity)).append_right _)
  rw [List.map_append,List.append_assoc]
  exact List.perm_append_comm.append_left _

end CommandView

section

variable {J : Handle} {E A : Set CommandEnvelope} {v v' : CommandView} {e e' : CommandEnvelope}

theorem recordConflicts_of {r : CommandRecord} {i : CommandEnvelope} (hi : r.identity = identityOf J i)
    (hshare : SharesIdentity e i) (hdigest : J.commandDigest i ≠ J.commandDigest e) :
    recordConflicts J.daemonId e (J.commandDigest e) (messageIdOf e.command) r = true := by
  obtain ⟨hdaemon,hid,hsession,hseq,hdig,hmessage⟩ := CommandIdentity.mk.inj hi
  simp only [recordConflicts,hdaemon,hid,hsession,hseq,hdig,hmessage,beq_self_eq_true,Bool.true_and,
    Bool.and_eq_true,Bool.or_eq_true,beq_iff_eq,bne_iff_ne]
  refine ⟨?_,.inl (.inr hdigest)⟩
  rcases hshare with h | h | h
  · exact .inl (.inl h.symm)
  · exact .inl (.inr ⟨h.1.symm,h.2.symm⟩)
  · exact .inr ⟨⟨h.2.1,h.2.2.symm⟩,h.1.symm⟩

theorem tombstoneConflicts_of {t : CommandTombstone} {i : CommandEnvelope}
    (hi : t.identity = identityOf J i) (hshare : SharesIdentity e i)
    (hdigest : J.commandDigest i ≠ J.commandDigest e) :
    tombstoneConflicts J.daemonId e (J.commandDigest e) (messageIdOf e.command) t = true := by
  obtain ⟨hdaemon,hid,hsession,hseq,hdig,hmessage⟩ := CommandIdentity.mk.inj hi
  simp only [tombstoneConflicts,hdaemon,hid,hsession,hseq,hdig,hmessage,beq_self_eq_true,Bool.true_and,
    Bool.and_eq_true,Bool.or_eq_true,beq_iff_eq,bne_iff_ne]
  refine ⟨?_,.inl (.inr hdigest)⟩
  rcases hshare with h | h | h
  · exact .inl (.inl h.symm)
  · exact .inl (.inr ⟨h.1.symm,h.2.symm⟩)
  · exact .inr ⟨⟨h.2.1,h.2.2.symm⟩,h.1.symm⟩

theorem recordConflicts_apart {r : CommandRecord} {i : CommandEnvelope}
    (hi : r.identity = identityOf J i) (happart : ¬ SharesIdentity e i) :
    recordConflicts J.daemonId e (J.commandDigest e) (messageIdOf e.command) r = false := by
  obtain ⟨-,hid,hsession,hseq,-,hmessage⟩ := CommandIdentity.mk.inj hi
  by_contra hconflict
  simp only [recordConflicts,hid,hsession,hseq,hmessage,Bool.not_eq_false,Bool.and_eq_true,
    Bool.or_eq_true,beq_iff_eq] at hconflict
  refine happart ?_
  rcases hconflict.1.2 with (h | h) | h
  · exact .inl h.symm
  · exact .inr (.inl ⟨h.1.symm,h.2.symm⟩)
  · exact .inr (.inr ⟨h.2.symm,h.1.1,h.1.2.symm⟩)

theorem tombstoneConflicts_apart {t : CommandTombstone} {i : CommandEnvelope}
    (hi : t.identity = identityOf J i) (happart : ¬ SharesIdentity e i) :
    tombstoneConflicts J.daemonId e (J.commandDigest e) (messageIdOf e.command) t = false := by
  obtain ⟨-,hid,hsession,hseq,-,hmessage⟩ := CommandIdentity.mk.inj hi
  by_contra hconflict
  simp only [tombstoneConflicts,hid,hsession,hseq,hmessage,Bool.not_eq_false,Bool.and_eq_true,
    Bool.or_eq_true,beq_iff_eq] at hconflict
  refine happart ?_
  rcases hconflict.1.2 with (h | h) | h
  · exact .inl h.symm
  · exact .inr (.inl ⟨h.1.symm,h.2.symm⟩)
  · exact .inr (.inr ⟨h.2.symm,h.1.1,h.1.2.symm⟩)

/-- Records and tombstones stand for the envelopes of `A`, which share no identity. -/
structure Filed (J : Handle) (E A : Set CommandEnvelope) (v : CommandView) : Prop where
  known : A ⊆ E
  live : ∀ r ∈ v.commands, r.identity = identityOf J (recordToEnvelope r) ∧ recordToEnvelope r ∈ A
  buried : ∀ t ∈ v.tombstones, ∃ e ∈ A, t.identity = identityOf J e
  kept : ∀ e ∈ A, identityOf J e ∈ v.identities
  apart : ∀ e ∈ A, ∀ e' ∈ A, SharesIdentity e e' → e = e'

theorem Filed.fresh : Filed J E (acceptedIn [{}]) {} where
  known := by simp [acceptedIn,CommandView.envelopes,JournalFile.view]
  live := by simp
  buried := by simp
  kept := by simp [acceptedIn,CommandView.envelopes,JournalFile.view]
  apart := by simp [acceptedIn,CommandView.envelopes,JournalFile.view]

theorem SharesIdentity.symm (h : SharesIdentity e e') : SharesIdentity e' e := by
  rcases h with h | h | h
  · exact .inl h.symm
  · exact .inr (.inl ⟨h.1.symm,h.2.symm⟩)
  · exact .inr (.inr ⟨h.1.symm,h.2.2 ▸ h.2.1,h.2.2.symm⟩)

theorem SharesIdentity.refl (e : CommandEnvelope) : SharesIdentity e e := .inl rfl

theorem Filed.carry (h : Filed J E A v) (hperm : v'.identities.Perm v.identities)
    (hlive : ∀ r ∈ v'.commands, ∃ x ∈ v.commands, r.identity = x.identity ∧
      recordToEnvelope r = recordToEnvelope x)
    (hburied : ∀ t ∈ v'.tombstones, t ∈ v.tombstones ∨ ∃ r ∈ v.commands, t.identity = r.identity) :
    Filed J E (A ∪ v'.envelopes) v' := by
  have hlive' : ∀ r ∈ v'.commands, r.identity = identityOf J (recordToEnvelope r) ∧
      recordToEnvelope r ∈ A := by
    intro r hr
    obtain ⟨x,hx,hidentity,henvelope⟩ := hlive r hr
    rw [hidentity,henvelope]
    exact h.live x hx
  have hsame : A ∪ v'.envelopes = A := by
    refine Set.union_eq_self_of_subset_right ?_
    rintro e ⟨r,hr,rfl⟩
    exact (hlive' r hr).2
  rw [hsame]
  refine ⟨h.known,hlive',fun t ht => ?_,fun e he => hperm.mem_iff.mpr (h.kept e he),h.apart⟩
  rcases hburied t ht with hold | ⟨r,hr,hidentity⟩
  · exact h.buried t hold
  · exact ⟨_,(h.live r hr).2,hidentity.trans (h.live r hr).1⟩

theorem Filed.update (h : Filed J E A v) (commandId : String) {f : CommandRecord → CommandRecord}
    (hf : ∀ r, (f r).identity = r.identity ∧ recordToEnvelope (f r) = recordToEnvelope r)
    (hcommands : v'.commands = (v.update commandId f).commands) (htombs : v'.tombstones = v.tombstones) :
    Filed J E (A ∪ v'.envelopes) v' := by
  have hidentities : v'.identities = v.identities := by
    refine Eq.trans ?_ (CommandView.identities_update (v := v) commandId fun r => (hf r).1)
    simp only [CommandView.identities,hcommands,htombs,CommandView.update]
  refine h.carry (List.Perm.of_eq hidentities) (fun r hr => ?_) fun t ht => .inl (htombs ▸ ht)
  rw [hcommands] at hr
  rcases Table.mem_updateFirst hr with hold | ⟨x,hx,rfl⟩
  · exact ⟨r,hold,rfl,rfl⟩
  · exact ⟨x,List.mem_of_find?_eq_some hx,hf x⟩

theorem recordToEnvelope_received {m : Option String} {digest : String} {now : Clock}
    (hvalid : e.validate = .ok ()) : recordToEnvelope (receivedRecord J e digest m now) = e := by
  obtain ⟨hschema,-⟩ := CommandEnvelope.validate_ok hvalid
  cases e
  simp_all [recordToEnvelope,receivedRecord]

/-- A received envelope shares no identity with an accepted one. -/
theorem Filed.receive_apart (hdigest : Set.InjOn J.commandDigest E) (h : Filed J E A v) (he : e ∈ E)
    (hfree : ∀ r ∈ v.commands,
      recordConflicts J.daemonId e (J.commandDigest e) (messageIdOf e.command) r = false)
    (hburied : ∀ t ∈ v.tombstones,
      tombstoneConflicts J.daemonId e (J.commandDigest e) (messageIdOf e.command) t = false)
    (hnew : ∀ r ∈ v.commands, r.commandId ≠ e.commandId)
    (hnew' : ∀ t ∈ v.tombstones, t.commandId ≠ e.commandId) (he' : e' ∈ A) : ¬ SharesIdentity e e' := by
  intro hshare
  -- an equal digest would make it the accepted envelope itself, whose id is taken
  have hother : J.commandDigest e' ≠ J.commandDigest e := by
    intro heq
    obtain rfl : e' = e := hdigest (h.known he') he heq
    rcases CommandView.mem_identities.mp (h.kept e' he') with ⟨r,hr,hidentity⟩ | ⟨t,ht,hidentity⟩
    · exact hnew r hr (congrArg CommandIdentity.commandId hidentity)
    · exact hnew' t ht (congrArg CommandIdentity.commandId hidentity)
  rcases CommandView.mem_identities.mp (h.kept e' he') with ⟨r,hr,hidentity⟩ | ⟨t,ht,hidentity⟩
  · simpa [recordConflicts_of hidentity hshare hother] using hfree r hr
  · simpa [tombstoneConflicts_of hidentity hshare hother] using hburied t ht

theorem Filed.receive (h : Filed J E A v) (he : e ∈ E) (hvalid : e.validate = .ok ())
    (happart : ∀ e' ∈ A, ¬ SharesIdentity e e') (now : Clock)
    (hcommands : v'.commands = v.commands ++
      [receivedRecord J e (J.commandDigest e) (messageIdOf e.command) now])
    (htombs : v'.tombstones = v.tombstones) : Filed J E (A ∪ v'.envelopes) v' := by
  have hback : recordToEnvelope (receivedRecord J e (J.commandDigest e) (messageIdOf e.command) now) = e :=
    recordToEnvelope_received hvalid
  have hset : A ∪ v'.envelopes = insert e A := by
    ext x
    simp only [CommandView.envelopes,hcommands,Set.mem_union,Set.mem_ofPred_eq,List.mem_append,
      List.mem_singleton,Set.mem_insert_iff]
    constructor
    · rintro (hx | ⟨r,hr | rfl,rfl⟩)
      · exact .inr hx
      · exact .inr (h.live r hr).2
      · exact .inl hback
    · rintro (rfl | hx)
      · exact .inr ⟨_,.inr rfl,hback⟩
      · exact .inl hx
  rw [hset]
  refine ⟨Set.insert_subset he h.known,fun r hr => ?_,fun t ht => ?_,fun x hx => ?_,?_⟩
  · rw [hcommands] at hr
    rcases List.mem_append.mp hr with hr | hr
    · exact ⟨(h.live r hr).1,.inr (h.live r hr).2⟩
    · rw [List.mem_singleton.mp hr,hback]
      exact ⟨rfl,.inl rfl⟩
  · obtain ⟨x,hx,hidentity⟩ := h.buried t (htombs ▸ ht)
    exact ⟨x,.inr hx,hidentity⟩
  · rw [CommandView.mem_identities,hcommands,htombs]
    rcases hx with rfl | hx
    · exact .inl ⟨_,List.mem_append_right _ (List.mem_singleton_self _),rfl⟩
    · rcases CommandView.mem_identities.mp (h.kept x hx) with ⟨r,hr,hidentity⟩ | hbury
      · exact .inl ⟨r,List.mem_append_left _ hr,hidentity⟩
      · exact .inr hbury
  · rintro x (rfl | hx) y (rfl | hy) hshare
    · rfl
    · exact absurd hshare (happart y hy)
    · exact absurd hshare.symm (happart x hx)
    · exact h.apart x hx y hy hshare

/-- Every move keeps the file of accepted envelopes, and adds the one it receives. -/
theorem Moves.filed (hdigest : Set.InjOn J.commandDigest E) (hmove : Moves J E v v')
    (h : Filed J E A v) : Filed J E (A ∪ v'.envelopes) v' := by
  cases hmove with
  | still => exact h.carry (List.Perm.refl _) (fun r hr => ⟨r,hr,rfl,rfl⟩) fun t ht => .inl ht
  | @receive e now he hvalid hfree hburied hnew hnew' hseq hroom =>
    exact h.receive he hvalid (fun _ => h.receive_apart hdigest he hfree hburied hnew hnew') now rfl rfl
  | @start r now hr hstate hmay =>
    exact h.update r.commandId (f := startRecord now) (fun _ => ⟨rfl,rfl⟩) rfl rfl
  | @finish r outcome now fuel cursor hr hadvance =>
    exact h.update r.commandId (f := terminate outcome now) (fun _ => ⟨rfl,rfl⟩) rfl rfl
  | compact sessionId =>
    refine h.carry (CommandView.identities_bury _) (fun r hr => ⟨r,List.mem_of_mem_filter hr,rfl,rfl⟩)
      fun t ht => ?_
    rcases List.mem_append.mp ht with ht | ht
    · exact .inl ht
    · obtain ⟨r,hr,rfl⟩ := List.mem_map.mp ht
      exact .inr ⟨r,List.mem_of_mem_filter hr,rfl⟩

theorem Trail.filed (hdigest : Set.InjOn J.commandDigest E) {s : JournalFile} {past : List JournalFile}
    (h : Trail J E s past) : Filed J E (acceptedIn (s::past)) s.view := by
  induction h with
  | fresh => exact .fresh
  | @step s s' past h hmove ih =>
    have hset : acceptedIn (s'::s::past) = acceptedIn (s::past) ∪ s'.view.envelopes := by
      ext e
      simp only [acceptedIn,Set.mem_ofPred_eq,Set.mem_union]
      rw [List.exists_mem_cons_iff]
      exact or_comm
    rw [hset]
    exact hmove.filed hdigest ih

/-! ### The gap buffer -/

theorem waiting_countP (v : CommandView) (id : String) : v.waiting id = v.commands.countP fun r =>
    r.sessionId == id && decide (v.expected id < r.serverCommandSeq) && r.state != .terminal :=
  List.countP_eq_length_filter.symm

theorem waiting_map_le {id : String} {f : CommandRecord → CommandRecord}
    (hf : ∀ r ∈ v.commands, (f r).sessionId = r.sessionId ∧
      (f r).serverCommandSeq = r.serverCommandSeq ∧ (r.state = .terminal → (f r).state = .terminal))
    (hcommands : v'.commands = v.commands.map f) (hprocessed : v.processed id ≤ v'.processed id) :
    v'.waiting id ≤ v.waiting id := by
  rw [waiting_countP,waiting_countP,hcommands,List.countP_map]
  refine List.countP_mono_left fun r hmem hr => ?_
  obtain ⟨hsession,hseq,hend⟩ := hf r hmem
  have hexpected : v.expected id ≤ v'.expected id := by
    simp only [CommandView.expected,saturatingSucc]
    omega
  simp only [Function.comp_apply,hsession,hseq,Bool.and_eq_true,beq_iff_eq,decide_eq_true_eq,
    bne_iff_ne] at hr ⊢
  exact ⟨⟨hr.1.1,hexpected.trans_lt hr.1.2⟩,fun hterm => hr.2 (hend hterm)⟩

theorem waiting_append (v : CommandView) {r : CommandRecord} (hstate : r.state = .received) (id : String) :
    ({ v with commands := v.commands ++ [r] } : CommandView).waiting id = v.waiting id +
      if r.sessionId = id ∧ v.expected r.sessionId < r.serverCommandSeq then 1 else 0 := by
  rw [waiting_countP,waiting_countP,List.countP_append]
  congr 1
  rw [List.countP_singleton]
  refine if_congr ?_ rfl rfl
  simp only [hstate,Bool.and_eq_true,beq_iff_eq,decide_eq_true_eq,bne_iff_ne]
  constructor
  · rintro ⟨⟨rfl,hlt⟩,-⟩
    exact ⟨rfl,hlt⟩
  · rintro ⟨rfl,hlt⟩
    exact ⟨⟨rfl,hlt⟩,by decide⟩

/-- No move fills the gap buffer beyond its limit. -/
theorem Moves.waiting_le (hmove : Moves J E v v') (hids : v.DistinctIds) (hv : v.InOrder)
    (h : ∀ id, v.waiting id ≤ J.config.maxGapBufferEntriesPerSession) (id : String) :
    v'.waiting id ≤ J.config.maxGapBufferEntriesPerSession := by
  cases hmove with
  | still => exact h id
  | @receive e now he hvalid hfree hburied hnew hnew' hseq hroom =>
    rw [waiting_append v rfl id]
    split_ifs with hgap
    · obtain ⟨rfl,hlt⟩ := hgap
      exact hroom hlt
    · exact h id
  | @start r now hr hstate hmay =>
    have hmap := CommandView.update_eq_map hids r.commandId (startRecord now)
    refine (waiting_map_le (fun x hx => ?_) hmap le_rfl).trans (h id)
    split_ifs with hid
    · obtain rfl := List.inj_on_of_nodup_map hids.commands hx (List.mem_of_find?_eq_some hr) hid
      exact ⟨rfl,rfl,fun hterm => by simp [hstate] at hterm⟩
    · exact ⟨rfl,rfl,fun hterm => hterm⟩
  | @finish r outcome now fuel cursor hr hadvance =>
    have hrise := (Watermark.advance_spec (hv.bound r.sessionId) hadvance).1
    have hmap := CommandView.update_eq_map hids r.commandId (terminate outcome now)
    suffices hle : CommandView.waiting { v.update r.commandId (terminate outcome now) with
        processed := Function.update v.processed r.sessionId cursor } id ≤ v.waiting id from hle.trans (h id)
    refine waiting_map_le (fun x hx => ?_) hmap ?_
    · split_ifs
      · exact ⟨rfl,rfl,fun _ => rfl⟩
      · exact ⟨rfl,rfl,fun hterm => hterm⟩
    · simp only [Function.update_apply]
      split_ifs with hid
      · rwa [hid]
      · exact le_rfl
  | compact sessionId =>
    refine le_trans ?_ (h id)
    rw [waiting_countP,waiting_countP]
    exact List.Sublist.countP_le List.filter_sublist

theorem Trail.waiting_le (hdigest : Set.InjOn J.commandDigest E) {s : JournalFile} {past : List JournalFile}
    (h : Trail J E s past) : ∀ x ∈ s::past, ∀ id,
      x.view.waiting id ≤ J.config.maxGapBufferEntriesPerSession := by
  have hall := h.invariant (P := fun v => (v.DistinctIds ∧ (∀ r ∈ v.commands, Genuine J E r) ∧ v.InOrder) ∧
      ∀ id, v.waiting id ≤ J.config.maxGapBufferEntriesPerSession)
    ⟨⟨by simp [CommandView.DistinctIds],by simp,inOrder_fresh⟩,by simp [CommandView.waiting]⟩
    fun _ _ hv hmove => ⟨⟨hmove.distinctIds hv.1.1,hmove.genuine hv.1.2.1,
      hmove.inOrder hdigest hv.1.1 hv.1.2.1 hv.1.2.2⟩,hmove.waiting_le hv.1.1 hv.1.2.2 hv.2⟩
  exact fun x hx => (hall x hx).2

/-! ### The answers of `prepare_command` -/

variable {s : JournalFile}

theorem recordConflicts_same {r : CommandRecord} (hi : r.identity = identityOf J e)
    (hcommand : r.command = e.command) :
    recordConflicts J.daemonId e (J.commandDigest e) (messageIdOf e.command) r = false := by
  obtain ⟨-,-,hsession,hseq,hdigest,-⟩ := CommandIdentity.mk.inj hi
  simp [recordConflicts,hsession,hseq,hdigest,hcommand]

theorem tombstoneConflicts_same {t : CommandTombstone} (hi : t.identity = identityOf J e) :
    tombstoneConflicts J.daemonId e (J.commandDigest e) (messageIdOf e.command) t = false := by
  obtain ⟨-,hid,hsession,hseq,hdigest,-⟩ := CommandIdentity.mk.inj hi
  simp [tombstoneConflicts,hid,hsession,hseq,hdigest]

/-- An envelope passes the identity test when those it shares an identity with are itself. -/
theorem Filed.passes (h : Filed J E A s.view)
    (happart : ∀ e' ∈ A, SharesIdentity e e' → e = e') :
    validateCommandIdentity s J.daemonId e (J.commandDigest e) (messageIdOf e.command) = .ok () := by
  have hlive : s.commands.any
      (recordConflicts J.daemonId e (J.commandDigest e) (messageIdOf e.command)) = false := by
    rw [List.any_eq_false]
    intro r hr
    obtain ⟨hidentity,hmem⟩ := h.live r hr
    by_cases hshare : SharesIdentity e (recordToEnvelope r)
    · have hsame := happart _ hmem hshare
      rw [recordConflicts_same (hsame ▸ hidentity) (congrArg CommandEnvelope.command hsame.symm)]
      decide
    · rw [recordConflicts_apart hidentity hshare]
      decide
  have hburied : s.commandTombstones.any
      (tombstoneConflicts J.daemonId e (J.commandDigest e) (messageIdOf e.command)) = false := by
    rw [List.any_eq_false]
    intro t ht
    obtain ⟨x,hx,hidentity⟩ := h.buried t ht
    by_cases hshare : SharesIdentity e x
    · rw [tombstoneConflicts_same (happart x hx hshare ▸ hidentity)]
      decide
    · rw [tombstoneConflicts_apart hidentity hshare]
      decide
  simp only [validateCommandIdentity,hlive,hburied,Bool.false_eq_true,if_false]

/-- A resend is found among the records or the tombstones, and nothing changes. -/
theorem prepareCommand_known (h : Filed J E A s.view) (he : e ∈ A) (now : Clock) :
    ∃ p, prepareCommand J e (J.commandDigest e) (messageIdOf e.command) now s = .ok (p,s) ∧
      p.duplicate = true ∧
      commandAck p.record = ⟨e.commandId,e.sessionId,e.serverCommandSeq,schemaVersion⟩ ∧
      (p.record.state = .received →
        s.commands.find? (fun r => decide (r.commandId = p.record.commandId)) = some p.record) := by
  have hpasses := h.passes (e := e) fun x hx hshare => h.apart e he x hx hshare
  unfold prepareCommand
  simp only [hpasses,bind,Except.bind,pure,Except.pure]
  cases hfind : s.commands.find? (fun r => decide (r.commandId = e.commandId)) with
  | some r =>
    obtain ⟨hmem,hid⟩ := Table.find?_key hfind
    have hsame := h.apart e he _ (h.live r hmem).2 (.inl hid.symm)
    refine ⟨_,rfl,rfl,?_,fun _ => by rw [hid]; exact hfind⟩
    rw [hsame]
    rfl
  | none =>
    have hbury : ∃ t ∈ s.commandTombstones, t.commandId = e.commandId := by
      rcases CommandView.mem_identities.mp (h.kept e he) with ⟨r,hr,hidentity⟩ | ⟨t,ht,hidentity⟩
      · exact absurd (congrArg CommandIdentity.commandId hidentity) (Table.find?_key_none.mp hfind r hr)
      · exact ⟨t,ht,congrArg CommandIdentity.commandId hidentity⟩
    cases hfind' : s.commandTombstones.find? (fun t => decide (t.commandId = e.commandId)) with
    | none =>
      obtain ⟨t,ht,hid⟩ := hbury
      exact absurd hid (Table.find?_key_none.mp hfind' t ht)
    | some t =>
      obtain ⟨hmem,hid⟩ := Table.find?_key hfind'
      obtain ⟨x,hx,hidentity⟩ := h.buried t hmem
      obtain ⟨-,hid',hsession,hseq,-,-⟩ := CommandIdentity.mk.inj hidentity
      obtain rfl := h.apart e he x hx (.inl (hid.symm.trans hid'))
      refine ⟨_,rfl,rfl,?_,fun hreceived => by simp [tombstoneRecord] at hreceived⟩
      simp only [commandAck,tombstoneRecord,hid,hsession,hseq]

theorem prepareCommand_conflict (hdigest : Set.InjOn J.commandDigest E) (h : Filed J E A s.view)
    (he : e ∈ E) (he' : e' ∈ A) (hshare : SharesIdentity e e') (hne : e ≠ e') (now : Clock) :
    ∃ reason, prepareCommand J e (J.commandDigest e) (messageIdOf e.command) now s =
      .error (.identityConflict reason) := by
  have hother : J.commandDigest e' ≠ J.commandDigest e := fun heq =>
    hne (hdigest (h.known he') he heq).symm
  have hrefused : ∃ reason, validateCommandIdentity s J.daemonId e (J.commandDigest e)
      (messageIdOf e.command) = .error (.identityConflict reason) := by
    unfold validateCommandIdentity
    split_ifs with hlive hburied
    · exact ⟨_,rfl⟩
    · exact ⟨_,rfl⟩
    · rcases CommandView.mem_identities.mp (h.kept e' he') with ⟨r,hr,hidentity⟩ | ⟨t,ht,hidentity⟩
      · exact absurd (List.any_eq_true.mpr ⟨r,hr,recordConflicts_of hidentity hshare hother⟩) hlive
      · exact absurd (List.any_eq_true.mpr ⟨t,ht,tombstoneConflicts_of hidentity hshare hother⟩) hburied
  obtain ⟨reason,hreason⟩ := hrefused
  exact ⟨reason,by simp only [prepareCommand,hreason,bind,Except.bind]⟩

theorem prepareCommand_overflow (h : Filed J E A s.view) (hnew : ∀ e' ∈ A, ¬ SharesIdentity e e')
    (hgap : s.view.expected e.sessionId < e.serverCommandSeq)
    (hfull : J.config.maxGapBufferEntriesPerSession ≤ s.view.waiting e.sessionId) (now : Clock) :
    prepareCommand J e (J.commandDigest e) (messageIdOf e.command) now s =
      .error (.gapOverflow e.sessionId J.config.maxGapBufferEntriesPerSession) := by
  have hpasses := h.passes (e := e) fun x hx hshare => absurd hshare (hnew x hx)
  have hlive : s.commands.find? (fun r => decide (r.commandId = e.commandId)) = none :=
    Table.find?_key_none.mpr fun r hr hid => hnew _ (h.live r hr).2 (.inl hid.symm)
  have hburied : s.commandTombstones.find? (fun t => decide (t.commandId = e.commandId)) = none := by
    refine Table.find?_key_none.mpr fun t ht hid => ?_
    obtain ⟨x,hx,hidentity⟩ := h.buried t ht
    exact hnew x hx (.inl (hid.symm.trans (congrArg CommandIdentity.commandId hidentity)))
  have hwaiting : gapEntries s e.sessionId (s.view.expected e.sessionId) = s.view.waiting e.sessionId :=
    rfl
  simp only [prepareCommand,hpasses,hlive,hburied,bind,Except.bind,
    JournalFile.expectedCommandSequence_eq,hwaiting,hgap,hfull,and_self,if_true]
  rfl

end

/-! ### The answers of the journal -/

section

variable {σ α : Type} {W : World σ} {E : Set CommandEnvelope} {h : Host σ} {e e' : CommandEnvelope}

/-- The persists of this section and of the one after it succeed. -/
def Host.Persists (W : World σ) (h : Host σ) : Prop :=
  (W.weather h.tick).1 = .done ∧ (W.weather (h.tick+1)).1 = .done

theorem update_refused {section_ : Clock → Section α} {error : JournalError}
    (hsection : section_ (W.weather h.tick).2 h.state = some (.error error)) :
    (update W section_).exec h = some (.error error,h.settle h.state h.file) := by
  simp only [exec,update,hsection]

/-- A section that succeeds is persisted, or the disk failed. -/
theorem update_succeeds (section_ : Clock → Section α) {a : α} {s : JournalFile}
    (hsection : section_ (W.weather h.tick).2 h.state = some (.ok (a,s))) :
    (update W section_).exec h = some (.ok a,h.settle s s) ∨
      (W.weather h.tick).1 ≠ .done ∧
        ∃ reason h', (update W section_).exec h = some (.error (.io reason),h') := by
  simp only [exec,update,hsection]
  cases (W.weather h.tick).1 with
  | done => exact .inl rfl
  | lost reason readable => exact .inr ⟨by simp,reason,_,rfl⟩
  | late reason readable => exact .inr ⟨by simp,reason,_,rfl⟩

theorem exec_checked (hvalid : e.validate = .ok ()) :
    (orFail (protocolChecked e.validate) : Op σ Unit).exec h = some (.ok (),h) := by
  rw [exec_orFail,hvalid]
  rfl

theorem acceptCommandWithControl_refused (hvalid : e.validate = .ok ()) {error : JournalError}
    (hrefused : prepareCommand W.handle e (W.handle.commandDigest e) (messageIdOf e.command)
      (W.weather h.tick).2 h.state = .error error) (allow : Bool) :
    (acceptCommandWithControl W e allow).exec h = some (.error error,h.settle h.state h.file) := by
  unfold acceptCommandWithControl
  rw [exec_bind,exec_checked hvalid]
  simp only
  rw [exec_bind,update_refused (congrArg some hrefused)]

/-- The records of the journal are the same commands, and so are its tombstones. -/
def SameRecords (s s' : JournalFile) : Prop :=
  s'.commands.map (·.identity) = s.commands.map (·.identity) ∧
    s'.commandTombstones = s.commandTombstones

theorem acceptCommandWithControl_known {A : Set CommandEnvelope} (hfiled : Filed W.handle E A h.state.view)
    (hvalid : e.validate = .ok ()) (he : e ∈ A) (allow : Bool) :
    ∃ r h', (acceptCommandWithControl W e allow).exec h = some (r,h') ∧
      ((∃ a, r = .ok a ∧
          a.result.acknowledgement = ⟨e.commandId,e.sessionId,e.serverCommandSeq,schemaVersion⟩ ∧
          a.result.duplicate = true ∧ SameRecords h.state h'.state) ∨
        ∃ reason, r = .error (.io reason) ∧ ¬ h.Persists W) := by
  obtain ⟨p,hprepare,hduplicate,hack,hlive⟩ := prepareCommand_known hfiled he (W.weather h.tick).2
  unfold acceptCommandWithControl
  rw [exec_bind,exec_checked hvalid]
  simp only
  rw [exec_bind]
  obtain hdone | ⟨hdisk,reason,h',hfailed⟩ := update_succeeds (W := W)
    (fun now s => some (prepareCommand W.handle e (W.handle.commandDigest e)
      (messageIdOf e.command) now s)) (congrArg some hprepare)
  · rw [hdone]
    simp only [exec_bind,exec_look]
    split_ifs with hwait
    · exact ⟨_,_,exec_pure _ _,.inl ⟨_,rfl,hack,hduplicate,rfl,rfl⟩⟩
    · have hreceived : p.record.state = .received := by_contra fun hne => hwait (.inl hne)
      have hmark : markDispatchStarted p.record.commandId (W.weather (h.tick+1)).2 h.state =
          .ok (true,h.state.updateCommand p.record.commandId fun r =>
            { r with state := .dispatchStarted, updatedAt := (W.weather (h.tick+1)).2 0 }) := by
        simp only [markDispatchStarted,hlive hreceived,hreceived,ne_eq,not_true_eq_false,if_false]
      obtain hdone' | ⟨hdisk,reason,h',hfailed⟩ := update_succeeds (W := W)
        (h := h.settle h.state h.state)
        (fun now s => some (markDispatchStarted p.record.commandId now s)) (congrArg some hmark)
      · rw [exec_bind,hdone']
        refine ⟨_,_,exec_pure _ _,.inl ⟨_,rfl,hack,hduplicate,?_,rfl⟩⟩
        exact Table.map_updateFirst _ (startRecord _) (·.identity) (fun _ => rfl) h.state.commands
      · rw [exec_bind,hfailed]
        exact ⟨_,_,rfl,.inr ⟨reason,rfl,fun hpersists => hdisk hpersists.2⟩⟩
  · rw [hfailed]
    exact ⟨_,_,rfl,.inr ⟨reason,rfl,fun hpersists => hdisk hpersists.1⟩⟩

theorem Sound.filed (hdigest : Set.InjOn W.handle.commandDigest E) (hs : Sound W E h) :
    Filed W.handle E {x | h.Accepted x} h.state.view := by
  obtain ⟨past,hpast,htrail⟩ := hs.trail
  have hfiled := htrail.filed hdigest
  rw [← hpast] at hfiled
  exact hfiled

theorem acceptCommandWithControl_conflict (hdigest : Set.InjOn W.handle.commandDigest E) (hs : Sound W E h)
    (hvalid : e.validate = .ok ()) (he : e ∈ E) (he' : h.Accepted e') (hshare : SharesIdentity e e')
    (hne : e ≠ e') (allow : Bool) : ∃ reason, (acceptCommandWithControl W e allow).exec h =
      some (.error (.identityConflict reason),h.settle h.state h.file) := by
  obtain ⟨reason,hrefused⟩ := prepareCommand_conflict hdigest (hs.filed hdigest) he he' hshare hne
    (W.weather h.tick).2
  exact ⟨reason,acceptCommandWithControl_refused hvalid hrefused allow⟩

theorem accepted_compact {sessionId : String} {h' : Host σ}
    (hrun : runCalls W [.compactSession sessionId] h = some h') (he : h.Accepted e) : h'.Accepted e := by
  simp only [runCalls,Call.run] at hrun
  split at hrun
  · simp at hrun
  · rename_i r h₁ hexec
    obtain rfl := Option.some.inj hrun
    obtain ⟨s,hs,henvelope⟩ := he
    exact ⟨s,(quiet_update _ h r h₁ hexec).2.subset hs,henvelope⟩

def JournalFile.recording (J : Handle) (e : CommandEnvelope) (now : Clock) (s : JournalFile) : JournalFile :=
  { s with commands := s.commands ++
    [receivedRecord J e (J.commandDigest e) (messageIdOf e.command) now] }

/-- In every state that a run reaches, with digests that tell its envelopes apart: a resend
is answered with the acknowledgement of its command and adds no record, unless the disk
fails; a reused identity is refused and changes nothing, before a compaction as after it;
an envelope that would overfill the gap buffer is refused and changes nothing; and no
state of the run has an overfull gap buffer. -/
theorem command_intake (W : World σ) (runtime : σ) (calls : List Call) (h : Host σ)
    (hrun : runCalls W calls { runtime } = some h) (e : CommandEnvelope) (hvalid : e.validate = .ok ())
    (hdigest : Set.InjOn W.handle.commandDigest (insert e {x | ∃ call ∈ calls, x ∈ call.envelopes}))
    (allow : Bool) :
    (h.Accepted e → ∃ r h', (acceptCommandWithControl W e allow).exec h = some (r,h') ∧
      ((∃ a, r = .ok a ∧
          a.result.acknowledgement = ⟨e.commandId,e.sessionId,e.serverCommandSeq,schemaVersion⟩ ∧
          a.result.duplicate = true ∧ SameRecords h.state h'.state) ∨
        ∃ reason, r = .error (.io reason) ∧ ¬ h.Persists W)) ∧
    (∀ e', h.Accepted e' → SharesIdentity e e' → e ≠ e' →
      (∃ reason, (acceptCommandWithControl W e allow).exec h =
        some (.error (.identityConflict reason),h.settle h.state h.file)) ∧
      ∀ sessionId h', runCalls W [.compactSession sessionId] h = some h' →
        ∃ reason, (acceptCommandWithControl W e allow).exec h' =
          some (.error (.identityConflict reason),h'.settle h'.state h'.file)) ∧
    ((∀ e', h.Accepted e' → ¬ SharesIdentity e e') →
      W.handle.config.maxGapBufferEntriesPerSession <
        (h.state.recording W.handle e (W.weather h.tick).2).view.waiting e.sessionId →
      (acceptCommandWithControl W e allow).exec h =
        some (.error (.gapOverflow e.sessionId W.handle.config.maxGapBufferEntriesPerSession),
          h.settle h.state h.file)) ∧
    ∀ s ∈ h.history, ∀ id, s.view.waiting id ≤ W.handle.config.maxGapBufferEntriesPerSession := by
  have hs := runCalls_sound (E := insert e {x | ∃ call ∈ calls, x ∈ call.envelopes})
    (fun call hcall x hx => .inr ⟨call,hcall,hx⟩) (Sound.init runtime) hrun
  have hfiled := hs.filed hdigest
  obtain ⟨past,hpast,htrail⟩ := hs.trail
  have hbound := htrail.waiting_le hdigest
  refine ⟨fun he => acceptCommandWithControl_known hfiled hvalid he allow,
    fun e' he' hshare hne => ⟨?_,fun sessionId h' hcompact => ?_⟩,fun hnew hfull => ?_,?_⟩
  · exact acceptCommandWithControl_conflict hdigest hs hvalid (.inl rfl) he' hshare hne allow
  · have hs' := runCalls_sound (by simp [Call.envelopes]) hs hcompact
    exact acceptCommandWithControl_conflict hdigest hs' hvalid (.inl rfl) (accepted_compact hcompact he')
      hshare hne allow
  · -- the limit is kept so far, so the new record is the one too many
    have hkept := hbound h.state (by simp) e.sessionId
    have hadd := waiting_append h.state.view (r := receivedRecord W.handle e (W.handle.commandDigest e)
      (messageIdOf e.command) (W.weather h.tick).2) rfl e.sessionId
    have hrecording : (h.state.recording W.handle e (W.weather h.tick).2).view.waiting e.sessionId = _ := hadd
    rw [hrecording] at hfull
    split_ifs at hfull with hgap
    · refine acceptCommandWithControl_refused hvalid (prepareCommand_overflow hfiled hnew hgap.2 ?_ _) allow
      omega
    · omega
  · rw [hpast]
    exact hbound

end

/-- A journal with room for one command above a gap. -/
def narrowWorld : World Unit :=
  { calmWorld with handle := { plainHandle with config := ⟨1⟩ } }

/-- A command is done and buried, and another waits above a gap. -/
def intakeRun : List Call :=
  [.acceptCommand (resumeEnvelope 1 "a"),.completeCommand "a" .dispatchSucceeded [],
    .acceptCommand (resumeEnvelope 3 "c")]

/-- The buried command sent again, its place reused, and a second one above the gap. -/
theorem intakeRun_answers : ∃ h : Host Unit, runCalls narrowWorld intakeRun { runtime := () } = some h ∧
    (∃ r h', (acceptCommand narrowWorld (resumeEnvelope 1 "a")).exec h = some (r,h') ∧
      ((∃ a, r = .ok a ∧ a.result.acknowledgement = ⟨"a","session-1",1,schemaVersion⟩ ∧
        a.result.duplicate = true ∧ SameRecords h.state h'.state) ∨
        ∃ reason, r = .error (.io reason) ∧ ¬ h.Persists narrowWorld)) ∧
    (∃ reason, (acceptCommand narrowWorld (resumeEnvelope 1 "b")).exec h =
      some (.error (.identityConflict reason),h.settle h.state h.file)) ∧
    (acceptCommand narrowWorld (resumeEnvelope 4 "d")).exec h =
      some (.error (.gapOverflow "session-1" 1),h.settle h.state h.file) := by
  have hfinal : (runCalls narrowWorld intakeRun { runtime := () }).any (fun h =>
      h.history.any (fun s => s.commands.any fun r => decide (recordToEnvelope r = resumeEnvelope 1 "a")) &&
        h.history.all (fun s => s.commands.all fun r =>
          decide (¬ SharesIdentity (resumeEnvelope 4 "d") (recordToEnvelope r))) &&
        decide (1 < (h.state.recording plainHandle (resumeEnvelope 4 "d") fun _ => "1").view.waiting
          "session-1")) = true := by decide +kernel
  obtain ⟨h,hrun,hh⟩ := (Option.any_eq_true _ _).mp hfinal
  simp only [Bool.and_eq_true,List.any_eq_true,List.all_eq_true,decide_eq_true_eq] at hh
  obtain ⟨⟨haccepted,hapart⟩,hfull⟩ := hh
  let pool := [resumeEnvelope 1 "a",resumeEnvelope 3 "c",resumeEnvelope 1 "b",resumeEnvelope 4 "d"]
  have hdistinct : ∀ e ∈ pool, ∀ e' ∈ pool,
      narrowWorld.handle.commandDigest e = narrowWorld.handle.commandDigest e' → e = e' := by decide +kernel
  have hdigest : ∀ e ∈ pool, Set.InjOn narrowWorld.handle.commandDigest
      (insert e {x | ∃ call ∈ intakeRun, x ∈ call.envelopes}) := by
    have hmem : ∀ e ∈ pool, ∀ x ∈ insert e {x | ∃ call ∈ intakeRun, x ∈ call.envelopes}, x ∈ pool := by
      rintro e he x (rfl | hx)
      · exact he
      · have hcalls : ∀ x ∈ intakeRun.flatMap Call.envelopes, x ∈ pool := by decide
        exact hcalls x (List.mem_flatMap.mpr hx)
    exact fun e he x hx y hy => hdistinct x (hmem e he x hx) y (hmem e he y hy)
  have haccepted' : h.Accepted (resumeEnvelope 1 "a") := haccepted
  refine ⟨h,hrun,?_,?_,?_⟩
  · exact (command_intake narrowWorld () intakeRun h hrun (resumeEnvelope 1 "a") rfl
      (hdigest _ (by simp [pool])) false).1 haccepted'
  · exact ((command_intake narrowWorld () intakeRun h hrun (resumeEnvelope 1 "b") rfl
      (hdigest _ (by simp [pool])) false).2.1 _ haccepted' (by decide) (by decide)).1
  · refine (command_intake narrowWorld () intakeRun h hrun (resumeEnvelope 4 "d") rfl
      (hdigest _ (by simp [pool])) false).2.2.1 ?_ hfull
    rintro e' ⟨s,hs,r,hr,rfl⟩
    exact hapart s hs r hr

end Journal
end North
