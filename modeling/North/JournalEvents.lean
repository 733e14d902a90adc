import North.JournalAcks

/-! The events of a journal against the events a server has committed. What the journal
shows as handled must be committed, and what it holds it goes on holding; every section
keeps both. -/
namespace North
namespace Journal

open Machine Protocol

def EventTombstone.ref (t : EventTombstone) : EventRef := ⟨t.eventId,t.sessionId,t.daemonEventSeq⟩

namespace JournalFile

variable (s : JournalFile)

/-- All events the journal knows of, live or buried. -/
def refs : List EventRef := s.events.map (·.envelope.ref) ++ s.eventTombstones.map (·.ref)

/-- The event is there as it was recorded, or it has its tombstone. -/
def Holds (e : EventEnvelope) : Prop :=
  (∃ r ∈ s.events, r.envelope = e) ∨ ∃ t ∈ s.eventTombstones, t.ref = e.ref

theorem mem_refs {x : EventRef} : x ∈ s.refs ↔
    (∃ r ∈ s.events, r.envelope.ref = x) ∨ ∃ t ∈ s.eventTombstones, t.ref = x := by
  simp [refs]

theorem Holds.mem_refs {s : JournalFile} {e : EventEnvelope} (h : s.Holds e) : e.ref ∈ s.refs := by
  rw [JournalFile.mem_refs]
  rcases h with ⟨r,hr,rfl⟩ | ht
  · exact .inl ⟨r,hr,rfl⟩
  · exact .inr ht

end JournalFile

/-- The journal is sound for a set of committed events: it shows nothing else as handled,
it knows all of them, and below the largest integer a sequence has one event. -/
structure EventsSound (J : Handle) (C : Set EventRef) (s : JournalFile) : Prop where
  ownedLive : ∀ r ∈ s.events, r.daemonId = J.daemonId
  ownedBuried : ∀ t ∈ s.eventTombstones, t.daemonId = J.daemonId
  positive : ∀ x ∈ s.refs, 0 < x.daemonEventSeq
  unique : ∀ x ∈ s.refs, ∀ y ∈ s.refs, x.sessionId = y.sessionId →
    x.daemonEventSeq = y.daemonEventSeq → x.daemonEventSeq < u64Max → x = y
  acknowledged : ∀ r ∈ s.events, r.acknowledged = true → r.envelope.ref ∈ C
  buried : ∀ t ∈ s.eventTombstones, t.ref ∈ C
  covered : ∀ id m, 0 < m → (s.session id).covers m = true →
    ∃ c ∈ C, c.sessionId = id ∧ c.daemonEventSeq = m
  known : ∀ c ∈ C, c ∈ s.refs
  bounded : ∀ c ∈ C, c.daemonEventSeq < u64Max

def Retains (s s' : JournalFile) : Prop := ∀ e, s.Holds e → s'.Holds e

/-- What a section may do to the events it finds: acknowledge committed ones, and bury
acknowledged ones. -/
structure EventStep (C : Set EventRef) (s s' : JournalFile) : Prop where
  live : ∀ r' ∈ s'.events, ∃ r ∈ s.events, r'.envelope = r.envelope ∧ r'.daemonId = r.daemonId ∧
    (r'.acknowledged = true → r.acknowledged = true ∨ r.envelope.ref ∈ C)
  buried : ∀ t' ∈ s'.eventTombstones,
    (∃ t ∈ s.eventTombstones, t'.ref = t.ref ∧ t'.daemonId = t.daemonId) ∨
    ∃ r ∈ s.events, r.acknowledged = true ∧ t'.ref = r.envelope.ref ∧ t'.daemonId = r.daemonId
  keptLive : ∀ r ∈ s.events, (∃ r' ∈ s'.events, r'.envelope = r.envelope) ∨
    ∃ t' ∈ s'.eventTombstones, t'.ref = r.envelope.ref
  keptBuried : ∀ t ∈ s.eventTombstones, ∃ t' ∈ s'.eventTombstones, t'.ref = t.ref
  cursor : ∀ id m, 0 < m → (s'.session id).covers m = true →
    (s.session id).covers m = true ∨ ∃ c ∈ C, c.sessionId = id ∧ c.daemonEventSeq = m

section

variable {J : Handle} {C : Set EventRef} {s s' s'' : JournalFile}

theorem Retains.refl (s : JournalFile) : Retains s s := fun _ h => h

theorem Retains.trans (h : Retains s s') (h' : Retains s' s'') : Retains s s'' :=
  fun e he => h' e (h e he)

theorem EventsSound.empty (J : Handle) : EventsSound J ∅ {} where
  ownedLive := by simp
  ownedBuried := by simp
  positive := by simp [JournalFile.refs]
  unique := by simp [JournalFile.refs]
  acknowledged := by simp
  buried := by simp
  covered id m hm hcov := by
    rcases (covers_iff _ _).mp hcov with hle | hmem
    · change m ≤ 0 at hle
      omega
    · cases hmem
  known := by simp
  bounded := by simp

/-- The committed event at the sequence of a known event is that event. -/
theorem EventsSound.committed_eq (h : EventsSound J C s) {x : EventRef} (hx : x ∈ s.refs)
    (hc : ∃ c ∈ C, c.sessionId = x.sessionId ∧ c.daemonEventSeq = x.daemonEventSeq) : x ∈ C := by
  obtain ⟨c,hc,hsession,hseq⟩ := hc
  have heq := h.unique c (h.known c hc) x hx hsession hseq (h.bounded c hc)
  exact heq ▸ hc

/-- One more event that the journal holds is committed. -/
theorem EventsSound.commit (h : EventsSound J C s) {x : EventRef} (hx : x ∈ s.refs)
    (hlt : x.daemonEventSeq < u64Max) : EventsSound J (insert x C) s := by
  refine ⟨h.ownedLive,h.ownedBuried,h.positive,h.unique,fun r hr ha => .inr (h.acknowledged r hr ha),
    fun t ht => .inr (h.buried t ht),fun id m hm hcov => ?_,fun c hc => ?_,fun c hc => ?_⟩
  · obtain ⟨c,hc,hid⟩ := h.covered id m hm hcov
    exact ⟨c,.inr hc,hid⟩
  · rcases hc with rfl | hc
    · exact hx
    · exact h.known c hc
  · rcases hc with rfl | hc
    · exact hlt
    · exact h.bounded c hc

namespace EventStep

theorem refl (s : JournalFile) : EventStep C s s where
  live r hr := ⟨r,hr,rfl,rfl,.inl⟩
  buried t ht := .inl ⟨t,ht,rfl,rfl⟩
  keptLive r hr := .inl ⟨r,hr,rfl⟩
  keptBuried t ht := ⟨t,ht,rfl⟩
  cursor _ _ _ h := .inl h

theorem same (hevents : s'.events = s.events) (htombs : s'.eventTombstones = s.eventTombstones)
    (hcursor : ∀ id, (s'.session id).eventAckThroughSeq = (s.session id).eventAckThroughSeq ∧
      (s'.session id).eventAckSparse = (s.session id).eventAckSparse) : EventStep C s s' := by
  refine ⟨fun r hr => ?_,fun t ht => ?_,fun r hr => ?_,fun t ht => ?_,fun id m _ hcov => .inl ?_⟩
  · rw [hevents] at hr
    exact ⟨r,hr,rfl,rfl,.inl⟩
  · rw [htombs] at ht
    exact .inl ⟨t,ht,rfl,rfl⟩
  · rw [← hevents] at hr
    exact .inl ⟨r,hr,rfl⟩
  · rw [← htombs] at ht
    exact ⟨t,ht,rfl⟩
  · rw [covers_iff] at hcov ⊢
    rwa [(hcursor id).1,(hcursor id).2] at hcov

theorem retains (h : EventStep C s s') : Retains s s' := by
  intro e he
  rcases he with ⟨r,hr,rfl⟩ | ⟨t,ht,href⟩
  · exact h.keptLive r hr
  · obtain ⟨t',ht',hsame⟩ := h.keptBuried t ht
    exact .inr ⟨t',ht',hsame.trans href⟩

theorem mem_refs (h : EventStep C s s') {x : EventRef} : x ∈ s'.refs ↔ x ∈ s.refs := by
  rw [JournalFile.mem_refs,JournalFile.mem_refs]
  constructor
  · rintro (⟨r',hr',rfl⟩ | ⟨t',ht',rfl⟩)
    · obtain ⟨r,hr,heq,-⟩ := h.live r' hr'
      exact .inl ⟨r,hr,by rw [heq]⟩
    · rcases h.buried t' ht' with ⟨t,ht,heq,-⟩ | ⟨r,hr,-,heq,-⟩
      · exact .inr ⟨t,ht,heq.symm⟩
      · exact .inl ⟨r,hr,heq.symm⟩
  · rintro (⟨r,hr,rfl⟩ | ⟨t,ht,rfl⟩)
    · rcases h.keptLive r hr with ⟨r',hr',heq⟩ | ht
      · exact .inl ⟨r',hr',by rw [heq]⟩
      · exact .inr ht
    · exact .inr (h.keptBuried t ht)

theorem sound (h : EventStep C s s') (hs : EventsSound J C s) : EventsSound J C s' where
  ownedLive r' hr' := by
    obtain ⟨r,hr,-,howner,-⟩ := h.live r' hr'
    exact howner.trans (hs.ownedLive r hr)
  ownedBuried t' ht' := by
    rcases h.buried t' ht' with ⟨t,ht,-,howner⟩ | ⟨r,hr,-,-,howner⟩
    · exact howner.trans (hs.ownedBuried t ht)
    · exact howner.trans (hs.ownedLive r hr)
  positive x hx := hs.positive x (h.mem_refs.mp hx)
  unique x hx y hy := hs.unique x (h.mem_refs.mp hx) y (h.mem_refs.mp hy)
  acknowledged r' hr' ha := by
    obtain ⟨r,hr,heq,-,hack⟩ := h.live r' hr'
    rw [heq]
    rcases hack ha with ha | hc
    · exact hs.acknowledged r hr ha
    · exact hc
  buried t' ht' := by
    rcases h.buried t' ht' with ⟨t,ht,heq,-⟩ | ⟨r,hr,ha,heq,-⟩
    · exact heq ▸ hs.buried t ht
    · exact heq ▸ hs.acknowledged r hr ha
  covered id m hm hcov := by
    rcases h.cursor id m hm hcov with hcov | hc
    · exact hs.covered id m hm hcov
    · exact hc
  known c hc := h.mem_refs.mpr (hs.known c hc)
  bounded := hs.bounded

end EventStep

/-! ### New events -/

theorem retains_push (J : Handle) (s : JournalFile) (e : EventEnvelope) : Retains s (pushEvent J s e) := by
  intro x hx
  rcases hx with ⟨r,hr,rfl⟩ | ht
  · exact .inl ⟨r,List.mem_append_left _ hr,rfl⟩
  · exact .inr ht

theorem holds_push (J : Handle) (s : JournalFile) (e : EventEnvelope) : (pushEvent J s e).Holds e :=
  .inl ⟨eventRecord J e,by simp [pushEvent],rfl⟩

theorem mem_refs_push {e : EventEnvelope} {x : EventRef} :
    x ∈ (pushEvent J s e).refs ↔ x ∈ s.refs ∨ x = e.ref := by
  simp only [JournalFile.refs,pushEvent,List.map_append,List.mem_append,List.map_cons,List.map_nil,
    List.mem_singleton,eventRecord]
  rw [or_right_comm]

/-- The next sequence of a session lies above all of its events, unless it saturates. -/
theorem nextEventSequence_above {x : EventRef} (hx : x ∈ s.refs)
    (hlt : s.nextEventSequence x.sessionId < u64Max) :
    x.daemonEventSeq < s.nextEventSequence x.sessionId := by
  have hmem : x.daemonEventSeq ∈ ((s.events.filter fun r => r.envelope.sessionId == x.sessionId).map
      (·.envelope.daemonEventSeq)) ++ ((s.eventTombstones.filter fun r =>
        r.sessionId == x.sessionId).map (·.daemonEventSeq)) := by
    rcases s.mem_refs.mp hx with ⟨r,hr,rfl⟩ | ⟨t,ht,rfl⟩
    · refine List.mem_append_left _ (List.mem_map.mpr ⟨r,List.mem_filter.mpr ⟨hr,?_⟩,rfl⟩)
      simp [EventEnvelope.ref]
    · refine List.mem_append_right _ (List.mem_map.mpr ⟨t,List.mem_filter.mpr ⟨ht,?_⟩,rfl⟩)
      simp [EventTombstone.ref]
  unfold JournalFile.nextEventSequence at hlt ⊢
  obtain ⟨top,htop⟩ := Option.isSome_iff_exists.mp (List.isSome_max?_of_mem hmem)
  have hle : x.daemonEventSeq ≤ top := (List.max?_eq_some_iff.mp htop).2 _ hmem
  simp only [htop,Option.getD_some,saturatingSucc] at hlt ⊢
  omega

theorem nextEventSequence_pos (s : JournalFile) (id : String) : 0 < s.nextEventSequence id := by
  have hmax : 0 < u64Max := by decide
  unfold JournalFile.nextEventSequence saturatingSucc
  exact Nat.lt_min.mpr ⟨Nat.succ_pos _,hmax⟩

theorem EventsSound.push (hs : EventsSound J C s) {e : EventEnvelope}
    (hseq : e.daemonEventSeq = s.nextEventSequence e.sessionId) : EventsSound J C (pushEvent J s e) := by
  have hnew : ∀ x ∈ s.refs, x.sessionId = e.sessionId → x.daemonEventSeq = e.daemonEventSeq →
      ¬ x.daemonEventSeq < u64Max := by
    intro x hx hsession heq hlt
    rw [heq,hseq,← hsession] at hlt
    have habove := nextEventSequence_above hx hlt
    rw [hsession] at habove
    omega
  refine ⟨fun r hr => ?_,hs.ownedBuried,fun x hx => ?_,fun x hx y hy hsession heq hlt => ?_,fun r hr ha => ?_,
    hs.buried,hs.covered,fun c hc => mem_refs_push.mpr (.inl (hs.known c hc)),hs.bounded⟩
  · rcases List.mem_append.mp hr with hr | hr
    · exact hs.ownedLive r hr
    · rw [List.mem_singleton.mp hr]
      rfl
  · rcases mem_refs_push.mp hx with hx | rfl
    · exact hs.positive x hx
    · change 0 < e.daemonEventSeq
      rw [hseq]
      exact nextEventSequence_pos s _
  · rcases mem_refs_push.mp hx with hx | rfl <;> rcases mem_refs_push.mp hy with hy | rfl
    · exact hs.unique x hx y hy hsession heq hlt
    · exact absurd hlt (hnew x hx hsession heq)
    · rw [heq] at hlt
      exact absurd hlt (hnew y hy hsession.symm heq.symm)
    · rfl
  · rcases List.mem_append.mp hr with hr | hr
    · exact hs.acknowledged r hr ha
    · rw [List.mem_singleton.mp hr] at ha
      cases ha

/-! ### The sections -/

/-- What a section with these envelopes in its result does. -/
structure Carries (J : Handle) (C : Set EventRef) (s s' : JournalFile) (out : List EventEnvelope) :
    Prop where
  sound : EventsSound J C s'
  retains : Retains s s'
  emitted : ∀ e ∈ out, s'.Holds e

theorem EventStep.carries (h : EventStep C s s') (hs : EventsSound J C s) : Carries J C s s' [] :=
  ⟨h.sound hs,h.retains,by simp⟩

theorem Carries.step {out : List EventEnvelope} (h : Carries J C s s' out) (hstep : EventStep C s' s'') :
    Carries J C s s'' out :=
  ⟨hstep.sound h.sound,h.retains.trans hstep.retains,fun e he => hstep.retains e (h.emitted e he)⟩

theorem EventsSound.carries_push (hs : EventsSound J C s) {e : EventEnvelope}
    (hseq : e.daemonEventSeq = s.nextEventSequence e.sessionId) : Carries J C s (pushEvent J s e) [e] :=
  ⟨hs.push hseq,retains_push J s e,by simpa using holds_push J s e⟩

theorem compactSession_step (J : Handle) (C : Set EventRef) (sessionId : String) (s : JournalFile) :
    EventStep C s (compactSession J sessionId s) where
  live r hr := ⟨r,List.mem_of_mem_filter hr,rfl,rfl,.inl⟩
  buried t ht := by
    rcases List.mem_append.mp ht with ht | ht
    · exact .inl ⟨t,ht,rfl,rfl⟩
    · obtain ⟨r,hr,rfl⟩ := List.mem_map.mp ht
      obtain ⟨hmem,hc⟩ := List.mem_filter.mp hr
      simp only [compactableEvent,Bool.and_eq_true] at hc
      exact .inr ⟨r,hmem,hc.1.2,rfl,rfl⟩
  keptLive r hr := by
    simp only [compactSession]
    cases hc : compactableEvent sessionId (s.session sessionId).eventAckThroughSeq
        (s.session sessionId).eventAckSparse r with
    | false => exact .inl ⟨r,List.mem_filter.mpr ⟨hr,by simp [hc]⟩,rfl⟩
    | true =>
      refine .inr ⟨eventTombstone J r,List.mem_append_right _ (List.mem_map.mpr ⟨r,?_,rfl⟩),rfl⟩
      exact List.mem_filter.mpr ⟨hr,hc⟩
  keptBuried t ht := ⟨t,List.mem_append_left _ ht,rfl⟩
  cursor _ _ _ hcov := .inl hcov

theorem updateEvent_step {eventId : String} {f : EventRecord → EventRecord}
    (henvelope : ∀ r, (f r).envelope = r.envelope) (howner : ∀ r, (f r).daemonId = r.daemonId)
    (hack : ∀ r, s.events.find? (fun r => decide (r.envelope.eventId = eventId)) = some r →
      (f r).acknowledged = true → r.acknowledged = true ∨ r.envelope.ref ∈ C) :
    EventStep C s (s.updateEvent eventId f) where
  live r hr := by
    rcases Table.mem_updateFirst hr with hr | ⟨x,hx,rfl⟩
    · exact ⟨r,hr,rfl,rfl,.inl⟩
    · exact ⟨x,List.mem_of_find?_eq_some hx,henvelope x,howner x,hack x hx⟩
  buried t ht := .inl ⟨t,ht,rfl,rfl⟩
  keptLive r hr := by
    have hkept : ∃ x ∈ s.events, x.envelope = r.envelope := ⟨r,hr,rfl⟩
    exact .inl (Table.exists_updateFirst (f := f) (fun x hx => (henvelope x).trans hx) hkept)
  keptBuried t ht := ⟨t,ht,rfl⟩
  cursor _ _ _ hcov := .inl hcov

theorem fillTombstone_step (C : Set EventRef) (s : JournalFile) (eventId : String)
    (status : EventAckStatus) :
    EventStep C s (s.updateEventTombstone eventId (fillTombstoneStatus status)) where
  live r hr := ⟨r,hr,rfl,rfl,.inl⟩
  buried t ht := by
    rcases Table.mem_updateFirst ht with ht | ⟨x,hx,rfl⟩
    · exact .inl ⟨t,ht,rfl,rfl⟩
    · exact .inl ⟨x,List.mem_of_find?_eq_some hx,rfl,rfl⟩
  keptLive r hr := .inl ⟨r,hr,rfl⟩
  keptBuried t ht := by
    have hkept : ∃ x ∈ s.eventTombstones, x.ref = t.ref := ⟨t,ht,rfl⟩
    exact Table.exists_updateFirst (f := fillTombstoneStatus status) (fun _ hx => hx) hkept
  cursor _ _ _ hcov := .inl hcov

theorem modifySession_step {id : String} {f : SessionJournal → SessionJournal}
    (hf : ∀ m, 0 < m → (f (s.session id)).covers m = true → (s.session id).covers m = true ∨
      ∃ c ∈ C, c.sessionId = id ∧ c.daemonEventSeq = m) :
    EventStep C s { s with sessions := s.sessions.modify id {} f } where
  live r hr := ⟨r,hr,rfl,rfl,.inl⟩
  buried t ht := .inl ⟨t,ht,rfl,rfl⟩
  keptLive r hr := .inl ⟨r,hr,rfl⟩
  keptBuried t ht := ⟨t,ht,rfl⟩
  cursor id' m hm hcov := by
    rw [s.session_modify] at hcov
    split_ifs at hcov with hid
    · rw [hid]
      exact hf m hm hcov
    · exact .inl hcov

/-- The watermark advances over acknowledged records, which are committed. -/
theorem advanceEventAck_step (hs : EventsSound J C s) {sessionId : String}
    (h : advanceEventAck s sessionId = some s') : EventStep C s s' := by
  obtain ⟨cursor,hadvance,rfl⟩ := advanceEventAck_cases h
  refine modifySession_step fun m hm hcov => ?_
  have hthrough : (s.session sessionId).eventAckThroughSeq < u64Max := by
    rcases Nat.eq_zero_or_pos (s.session sessionId).eventAckThroughSeq with hz | hpos
    · rw [hz]
      decide
    · obtain ⟨c,hc,-,hseq⟩ := hs.covered sessionId _ hpos ((covers_iff _ _).mpr (.inl le_rfl))
      exact hseq ▸ hs.bounded c hc
  obtain ⟨-,-,hmarked,-⟩ := Watermark.advance_spec hthrough hadvance
  rw [covers_iff] at hcov ⊢
  unfold SessionJournal.raiseEventAck at hcov
  split_ifs at hcov with hlt
  · rcases hcov with hle | hmem
    · by_cases hold : m ≤ (s.session sessionId).eventAckThroughSeq
      · exact .inl (.inl hold)
      · obtain ⟨r,hr,ha,hsession,hseq⟩ := (acknowledgedAt_iff _ _ _).mp (hmarked m (by omega) hle)
        exact .inr ⟨r.envelope.ref,hs.acknowledged r hr ha,hsession,hseq⟩
    · exact .inl (.inr (List.mem_of_mem_filter hmem))
  · exact .inl hcov

theorem acknowledgeEvent_carries (hs : EventsSound J C s) {ack : EventAck} {u : Unit}
    (hack : ack.ref ∈ C) (h : acknowledgeEvent ack s = some (.ok (u,s'))) : Carries J C s s' [] := by
  obtain ⟨t,-,-,-,-,rfl⟩ | ⟨r,hfind,hsession,hseq,⟨ha,rfl⟩ | ⟨-,hadvance⟩⟩ := acknowledgeEvent_cases h
  · exact (fillTombstone_step C s _ _).carries hs
  · exact (updateEvent_step (f := fillStatus ack.status) (fun _ => rfl) (fun _ => rfl)
      fun _ _ h => .inl h).carries hs
  · have hid : r.envelope.eventId = ack.eventId := (Table.find?_key hfind).2
    have href : r.envelope.ref = ack.ref := by
      simp [EventEnvelope.ref,EventAck.ref,hid,hsession,hseq]
    have hmark : EventStep C s (s.updateEvent ack.eventId (acknowledge ack.status)) := by
      refine updateEvent_step (fun _ => rfl) (fun _ => rfl) fun x hx _ => .inr ?_
      rw [hfind,Option.some.injEq] at hx
      rw [← hx,href]
      exact hack
    have hnote : EventStep C (s.updateEvent ack.eventId (acknowledge ack.status))
        (markAcknowledged s ack) := by
      refine @modifySession_step C (s.updateEvent ack.eventId (acknowledge ack.status)) _ _
        fun m hm hcov => ?_
      rw [covers_iff,noteAcknowledged_through,noteAcknowledged_mem] at hcov
      rw [covers_iff]
      rcases hcov with hle | hmem | ⟨rfl,-⟩
      · exact .inl (.inl hle)
      · exact .inl (.inr hmem)
      · exact .inr ⟨ack.ref,hack,rfl,rfl⟩
    have hmarked := (hmark.carries hs).step hnote
    exact hmarked.step (advanceEventAck_step hmarked.sound hadvance)

/-- What a snapshot says of a session is committed. -/
def Backed (C : Set EventRef) (remote : SessionReconcileState) : Prop :=
  ∀ m, 0 < m → m ≤ remote.eventAckThroughSeq ∨ m ∈ remote.eventAckSparse →
    ∃ c ∈ C, c.sessionId = remote.sessionId ∧ c.daemonEventSeq = m

theorem reconcileSession_step (hs : EventsSound J C s) {remote : SessionReconcileState}
    (hremote : Backed C remote) : EventStep C s (reconcileSession s remote) := by
  have hmerged : ∀ m, 0 < m → (mergeWatermarks remote (s.session remote.sessionId)).covers m = true →
      (s.session remote.sessionId).covers m = true ∨
        ∃ c ∈ C, c.sessionId = remote.sessionId ∧ c.daemonEventSeq = m := by
    intro m hm hcov
    rw [covers_iff,mem_mergeWatermarks_sparse,List.mem_append] at hcov
    rw [covers_iff]
    rcases hcov with hle | ⟨hmem | hmem,-⟩
    · have hone : m ≤ (s.session remote.sessionId).eventAckThroughSeq ∨ m ≤ remote.eventAckThroughSeq := by
        change m ≤ max _ _ at hle
        omega
      rcases hone with hle | hle
      · exact .inl (.inl hle)
      · exact .inr (hremote m hm (.inl hle))
    · exact .inl (.inr hmem)
    · exact .inr (hremote m hm (.inr hmem))
  refine ⟨fun r' hr' => ?_,fun t ht => .inl ⟨t,ht,rfl,rfl⟩,fun r hr => .inl ?_,fun t ht => ⟨t,ht,rfl⟩,
    fun id m hm hcov => ?_⟩
  · obtain ⟨r,hr,rfl⟩ := List.mem_map.mp hr'
    split_ifs with hcov
    · refine ⟨r,hr,rfl,rfl,fun _ => .inr ?_⟩
      have hknown : r.envelope.ref ∈ s.refs := s.mem_refs.mpr (.inl ⟨r,hr,rfl⟩)
      have hpos := hs.positive _ hknown
      refine hs.committed_eq hknown ?_
      change ∃ c ∈ C, c.sessionId = r.envelope.sessionId ∧ c.daemonEventSeq = r.envelope.daemonEventSeq
      rw [hcov.1]
      rcases hmerged _ hpos hcov.2 with hcov' | hc
      · exact hs.covered _ _ hpos hcov'
      · exact hc
    · exact ⟨r,hr,rfl,rfl,.inl⟩
  · refine ⟨_,List.mem_map_of_mem hr,?_⟩
    split_ifs <;> rfl
  · rw [reconcile_session] at hcov
    split_ifs at hcov with hid
    · rw [hid] at hcov ⊢
      exact hmerged m hm hcov
    · exact .inl hcov

theorem applyReconciliation_carries (hs : EventsSound J C s) {snapshot : ReconcileSnapshot}
    (hsnapshot : ∀ remote ∈ snapshot.sessions, Backed C remote) :
    Carries J C s (applyReconciliation snapshot s) [] := by
  unfold applyReconciliation
  generalize snapshot.sessions = sessions at hsnapshot
  induction sessions generalizing s with
  | nil => exact (EventStep.refl s).carries hs
  | cons remote rest ih =>
    have hstep := reconcileSession_step hs (hsnapshot remote (by simp))
    have hrest := ih (hstep.sound hs) fun x hx => hsnapshot x (by simp [hx])
    exact ⟨hrest.sound,hstep.retains.trans hrest.retains,hrest.emitted⟩

/-- A replay leaves out only committed events. -/
theorem replayEvents_leaves (hs : EventsSound J C s) {remote : SessionReconcileState}
    (hremote : Backed C remote) {r : EventRecord} (hr : r ∈ s.events)
    (hsession : r.envelope.sessionId = remote.sessionId)
    (hout : r.envelope ∉ replayEvents s remote.sessionId remote) : r.envelope.ref ∈ C := by
  have hknown : r.envelope.ref ∈ s.refs := s.mem_refs.mpr (.inl ⟨r,hr,rfl⟩)
  by_contra hc
  apply hout
  unfold replayEvents
  rw [List.mem_insertionSort]
  refine List.mem_map.mpr ⟨r,List.mem_filter.mpr ⟨hr,?_⟩,rfl⟩
  have hfree : ¬ (r.envelope.daemonEventSeq ≤ remote.eventAckThroughSeq ∨
      r.envelope.daemonEventSeq ∈ remote.eventAckSparse) := by
    intro hcov
    have hbacked := hremote _ (hs.positive _ hknown) hcov
    rw [← hsession] at hbacked
    exact hc (hs.committed_eq hknown hbacked)
  have hopen : r.acknowledged = false := by
    by_contra ha
    exact hc (hs.acknowledged r hr (by simpa using ha))
  push Not at hfree
  simp [hsession,hfree.1,hfree.2,hopen]

theorem replayEvents_holds (s : JournalFile) (sessionId : String) (remote : SessionReconcileState) :
    ∀ e ∈ replayEvents s sessionId remote, s.Holds e := by
  intro e he
  unfold replayEvents at he
  rw [List.mem_insertionSort] at he
  obtain ⟨r,hr,rfl⟩ := List.mem_map.mp he
  exact .inl ⟨r,List.mem_of_mem_filter hr,rfl⟩

theorem Carries.refl (hs : EventsSound J C s) : Carries J C s s [] := (EventStep.refl s).carries hs

theorem Carries.held (hs : EventsSound J C s) {e : EventEnvelope} (he : s.Holds e) : Carries J C s s [e] :=
  ⟨hs,.refl s,by simpa using he⟩

theorem Carries.append {out more : List EventEnvelope} (h : Carries J C s s' out)
    (h' : Carries J C s' s'' more) : Carries J C s s'' (out ++ more) := by
  refine ⟨h'.sound,h.retains.trans h'.retains,fun e he => ?_⟩
  rcases List.mem_append.mp he with he | he
  · exact h'.retains e (h.emitted e he)
  · exact h'.emitted e he

theorem appendEvent_carries (hs : EventsSound J C s) {eventId sessionId : String} {event : Event}
    {now : Clock} {a : AppendedEvent} (h : appendEvent J eventId sessionId event now s = .ok (a,s')) :
    Carries J C s s' [a.envelope] := by
  unfold appendEvent at h
  split at h
  · rename_i existing hfind
    split_ifs at h
    obtain ⟨rfl,rfl⟩ : _ = a ∧ s = s' := by simpa using h
    exact .held hs (.inl ⟨existing,List.mem_of_find?_eq_some hfind,rfl⟩)
  · split at h
    · rename_i t hfind
      dsimp only at h
      split_ifs at h with hsession hdigest
      obtain ⟨rfl,rfl⟩ : _ = a ∧ s = s' := by simpa using h
      have hid := List.find?_some hfind
      simp only [Bool.and_eq_true,beq_iff_eq] at hid
      refine .held hs (.inr ⟨t,List.mem_of_find?_eq_some hfind,?_⟩)
      simp [EventTombstone.ref,EventEnvelope.ref,hid.2,not_ne_iff.mp hsession]
    · simp only [bind_eq_ok] at h
      obtain ⟨_,-,_,-,h⟩ := h
      obtain ⟨rfl,rfl⟩ : _ = a ∧ _ = s' := by simpa [pure,Except.pure] using h
      exact hs.carries_push rfl

theorem validateEventIdentity_ok {daemonId digest : String} {e : EventEnvelope}
    (h : validateEventIdentity s daemonId e digest = .ok ()) :
    (∀ r ∈ s.events, eventConflicts daemonId e digest r = false) ∧
      ∀ t ∈ s.eventTombstones, eventTombstoneConflicts daemonId e digest t = false := by
  unfold validateEventIdentity at h
  split_ifs at h with h₁ h₂
  simpa using And.intro h₁ h₂

theorem appendEventEnvelope_carries (hs : EventsSound J C s) {envelope : EventEnvelope} {duplicate : Bool}
    {a : AppendedEvent} (h : appendEventEnvelope J envelope duplicate s = .ok (a,s')) :
    Carries J C s s' [a.envelope] := by
  simp only [appendEventEnvelope,bind_eq_ok] at h
  obtain ⟨_,hid,h⟩ := h
  split at h
  · rename_i existing hfind
    obtain ⟨rfl,rfl⟩ : _ = a ∧ s = s' := by simpa [pure,Except.pure] using h
    exact .held hs (.inl ⟨existing,List.mem_of_find?_eq_some hfind,rfl⟩)
  · split_ifs at h with hburied hnext
    · obtain ⟨rfl,rfl⟩ : _ = a ∧ s = s' := by simpa [pure,Except.pure] using h
      obtain ⟨t,ht,hsame⟩ := List.any_eq_true.mp hburied
      have hfree := (validateEventIdentity_ok hid).2 t ht
      simp only [eventTombstoneConflicts,hs.ownedBuried t ht,hsame,beq_self_eq_true,Bool.true_or,
        Bool.true_and,Bool.or_eq_false_iff,bne_eq_false_iff_eq] at hfree
      refine .held hs (.inr ⟨t,ht,?_⟩)
      simp [EventTombstone.ref,EventEnvelope.ref,beq_iff_eq.mp hsame,hfree.1.1,hfree.1.2]
    · obtain ⟨rfl,rfl⟩ : _ = a ∧ _ = s' := by simpa [pure,Except.pure] using h
      exact hs.carries_push (not_ne_iff.mp hnext)

theorem pushRuntimeEvents_carries (commandId sessionId : String) (now : Clock) (events : List Event)
    (index : ℕ) (hs : EventsSound J C s) :
    Carries J C s (pushRuntimeEvents J commandId sessionId now index events s).2
      (pushRuntimeEvents J commandId sessionId now index events s).1 := by
  induction events generalizing index s with
  | nil => exact .refl hs
  | cons event rest ih =>
    have hpush := hs.carries_push (e := ⟨"runtime-" ++ commandId ++ "-" ++ toString (index+1),sessionId,
      s.nextEventSequence sessionId,now (index+1),Protocol.schemaVersion,event⟩) rfl
    exact hpush.append (ih (index+1) hpush.sound)

theorem pushUnknownEvent_carries (commandId sessionId operationId now : String)
    (outcome : DispatchOutcome) (hs : EventsSound J C s) :
    Carries J C s (pushUnknownEvent J commandId sessionId operationId outcome now s).2
      (pushUnknownEvent J commandId sessionId operationId outcome now s).1 := by
  cases outcome with
  | dispatchSucceeded => exact .refl hs
  | dispatchFailed reason => exact .refl hs
  | unknown reason => exact hs.carries_push rfl

/-- A finished command moves no event cursor and emits what it pushes. -/
theorem finishCommand_carries (hs : EventsSound J C s) {commandId : String} {outcome : DispatchOutcome}
    {events : List Event} {now : Clock} {emitted : List EventEnvelope}
    (h : finishCommand J commandId outcome events now s = some (.ok (emitted,s'))) :
    Carries J C s s' emitted := by
  unfold finishCommand at h
  split at h
  · simp at h
  · rename_i r hfind
    simp only [advanceProcessed,bind,Option.bind_eq_some_iff] at h
    obtain ⟨s₁,⟨cursor,-,hs₁⟩,h⟩ := h
    simp only [pure,Option.some.injEq,Except.ok.injEq,Prod.mk.injEq] at h hs₁
    obtain ⟨rfl,rfl⟩ := h
    have hstep : EventStep C s s₁ := by
      rw [← hs₁]
      refine .same rfl rfl fun id => ?_
      rw [JournalFile.session_modify]
      split_ifs with hid
      · rw [hid]
        exact ⟨rfl,rfl⟩
      · exact ⟨rfl,rfl⟩
    have hruntime := pushRuntimeEvents_carries commandId r.sessionId now events 0 (hstep.sound hs)
    exact ((hstep.carries hs).append hruntime).append
      (pushUnknownEvent_carries commandId r.sessionId r.runtimeOperationId _ outcome hruntime.sound)

theorem prepareCommand_step (C : Set EventRef) {e : CommandEnvelope} {digest : String}
    {m : Option String} {now : Clock} {p : Prepared} (h : prepareCommand J e digest m now s = .ok (p,s')) :
    EventStep C s s' := by
  obtain ⟨-,⟨-,rfl,-⟩ | ⟨rfl,-⟩ | ⟨-,-,-,-,-,rfl⟩⟩ := prepareCommand_cases h
  · exact .refl _
  · exact .refl _
  · exact .same rfl rfl fun _ => ⟨rfl,rfl⟩

theorem markDispatchStarted_step (C : Set EventRef) {commandId : String} {now : Clock} {started : Bool}
    (h : markDispatchStarted commandId now s = .ok (started,s')) : EventStep C s s' := by
  unfold markDispatchStarted at h
  split at h
  · cases h
  · split_ifs at h
    · cases h
      exact .refl _
    · cases h
      exact .same rfl rfl fun _ => ⟨rfl,rfl⟩

end

end Journal
end North
