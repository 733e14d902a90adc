import North.JournalEvents
import North.JournalRuns
import Std.Data.String.ToNat

/-! The identity of the events of a journal. Live events and tombstones together carry
each sequence of a session once, and a new event lies above all that was ever assigned or
acknowledged. Each event id is carried once as long as no finished command derives an id
that the journal has already. -/
namespace North
namespace Journal

open Machine Protocol Prog

namespace JournalFile

variable (s : JournalFile)

def eventIds : List String := s.refs.map (·.eventId)

/-- All sequences in use are below the largest integer. -/
def Below : Prop := ∀ x ∈ s.refs, x.daemonEventSeq < u64Max

instance : Decidable s.Below := inferInstanceAs (Decidable (∀ x ∈ _, _))

/-- The sequence lies above all that the session has assigned or acknowledged. -/
structure Passed (sessionId : String) (seq : ℕ) : Prop where
  assigned : ∀ x ∈ s.refs, x.sessionId = sessionId → x.daemonEventSeq < seq
  acknowledged : ∀ m, (s.session sessionId).covers m = true → m < seq

def OwnedBy (daemonId : String) : Prop :=
  (∀ r ∈ s.events, r.daemonId = daemonId) ∧ ∀ t ∈ s.eventTombstones, t.daemonId = daemonId

/-- The numbered pairs of session and sequence in use. -/
def numbers : List (String × ℕ) := s.refs.map fun x => (x.sessionId,x.daemonEventSeq)

/-- In file order, the live events of a session are numbered upwards. -/
def Ascending : Prop := (s.events.map (·.envelope)).Pairwise fun a b =>
  a.sessionId = b.sessionId → a.daemonEventSeq < b.daemonEventSeq

end JournalFile

/-- The events and tombstones of the journal have identities of their own. -/
structure Identified (J : Handle) (s : JournalFile) : Prop where
  owned : s.OwnedBy J.daemonId
  ids : s.eventIds.Nodup
  numbers : s.Below → s.numbers.Nodup
  ascending : s.Below → s.Ascending

/-- A later state of the journal: nothing is forgotten, and what is new lies above it. -/
structure Beyond (older newer : JournalFile) : Prop where
  kept : ∀ x ∈ older.refs, x ∈ newer.refs
  covers : ∀ id m, (older.session id).covers m = true → (newer.session id).covers m = true
  above : newer.Below → ∀ x ∈ newer.refs, x ∉ older.refs → older.Passed x.sessionId x.daemonEventSeq

/-- A step that creates no event: records may be flagged and buried, cursors may rise. -/
structure Carried (s s' : JournalFile) : Prop where
  refs : s'.refs.Perm s.refs
  order : (s'.events.map (·.envelope)).Sublist (s.events.map (·.envelope))
  covers : ∀ id m, (s.session id).covers m = true → (s'.session id).covers m = true
  owned : ∀ daemonId, s.OwnedBy daemonId → s'.OwnedBy daemonId

/-- A step that creates these events, each under the next sequence of its session. -/
inductive Adds (J : Handle) : JournalFile → List EventEnvelope → JournalFile → Prop
  | carried {s s' : JournalFile} : Carried s s' → Adds J s [] s'
  | push {s s' : JournalFile} {es : List EventEnvelope} {e : EventEnvelope} :
    Adds J s es s' → e.daemonEventSeq = s'.nextEventSequence e.sessionId →
      Adds J s (es ++ [e]) (pushEvent J s' e)

section

variable {J : Handle} {s s' s'' : JournalFile} {e : EventEnvelope} {es : List EventEnvelope}

theorem refs_push_perm (J : Handle) (s : JournalFile) (e : EventEnvelope) :
    (pushEvent J s e).refs.Perm (e.ref::s.refs) := by
  simp only [JournalFile.refs,pushEvent,List.map_append,List.map_cons,List.map_nil,eventRecord,
    List.append_assoc,List.singleton_append]
  exact List.perm_middle

/-- The next sequence of a session passes all it has, unless it saturates. -/
theorem passed_next {id : String} (hlt : s.nextEventSequence id < u64Max) :
    s.Passed id (s.nextEventSequence id) where
  assigned x hx hid := by
    subst hid
    exact nextEventSequence_above hx hlt
  acknowledged m hm := by
    have hsucc : ∀ cursor current, m ≤ cursor → saturatingSucc u64Max (max cursor current) < u64Max →
        m < saturatingSucc u64Max (max cursor current) := by
      intro cursor current
      simp only [saturatingSucc]
      omega
    rw [covers_iff] at hm
    unfold JournalFile.session at hm
    refine hsucc _ _ ?_ hlt
    cases hget : s.sessions.get id with
    | none =>
      simp only [hget,Option.getD_none,List.not_mem_nil,or_false] at hm
      exact hm
    | some x =>
      simp only [hget,Option.getD_some] at hm
      rcases hm with hle | hmem
      · exact hle.trans (Nat.le_max_left _ _)
      · obtain ⟨top,htop⟩ := Option.isSome_iff_exists.mp (List.isSome_max?_of_mem hmem)
        have hle : m ≤ top := (List.max?_eq_some_iff.mp htop).2 _ hmem
        simp only [htop,Option.getD_some]
        exact hle.trans (Nat.le_max_right _ _)

namespace Beyond

theorem refl (s : JournalFile) : Beyond s s :=
  ⟨fun _ h => h,fun _ _ h => h,fun _ _ hx hnot => absurd hx hnot⟩

theorem below (h : Beyond s s') (hbelow : s'.Below) : s.Below := fun x hx => hbelow x (h.kept x hx)

theorem passed (h : Beyond s s') {id : String} {seq : ℕ} (hpassed : s'.Passed id seq) :
    s.Passed id seq :=
  ⟨fun x hx => hpassed.assigned x (h.kept x hx),fun m hm => hpassed.acknowledged m (h.covers id m hm)⟩

theorem trans (h : Beyond s s') (h' : Beyond s' s'') : Beyond s s'' where
  kept x hx := h'.kept x (h.kept x hx)
  covers id m hm := h'.covers id m (h.covers id m hm)
  above hbelow x hx hnot := by
    by_cases hmid : x ∈ s'.refs
    · exact h.above (h'.below hbelow) x hmid hnot
    · exact h.passed (h'.above hbelow x hx hmid)

end Beyond

theorem Carried.beyond (h : Carried s s') : Beyond s s' where
  kept _ hx := h.refs.mem_iff.mpr hx
  covers := h.covers
  above _ _ hx hnot := absurd (h.refs.mem_iff.mp hx) hnot

theorem Carried.identified (h : Carried s s') (hs : Identified J s) : Identified J s' where
  owned := h.owned _ hs.owned
  ids := (h.refs.map _).nodup_iff.mpr hs.ids
  numbers hbelow := (h.refs.map _).nodup_iff.mpr (hs.numbers (h.beyond.below hbelow))
  ascending hbelow := (hs.ascending (h.beyond.below hbelow)).sublist h.order

theorem beyond_push (hseq : e.daemonEventSeq = s.nextEventSequence e.sessionId) :
    Beyond s (pushEvent J s e) where
  kept x hx := mem_refs_push.mpr (.inl hx)
  covers _ _ hm := hm
  above hbelow x hx hnot := by
    obtain rfl : x = e.ref := (mem_refs_push.mp hx).resolve_left hnot
    have hlt : e.daemonEventSeq < u64Max := hbelow _ hx
    have hpassed := passed_next (hseq ▸ hlt)
    rw [← hseq] at hpassed
    exact hpassed

theorem Identified.push (hs : Identified J s) (hseq : e.daemonEventSeq = s.nextEventSequence e.sessionId)
    (hfresh : e.eventId ∉ s.eventIds) : Identified J (pushEvent J s e) := by
  have hperm := refs_push_perm J s e
  have hbeyond : Beyond s (pushEvent J s e) := beyond_push hseq
  have hpassed : (pushEvent J s e).Below → s.Passed e.sessionId e.daemonEventSeq := by
    intro hbelow
    have hlt : e.daemonEventSeq < u64Max := hbelow e.ref (hperm.mem_iff.mpr (by simp))
    rw [hseq] at hlt ⊢
    exact passed_next hlt
  refine ⟨⟨fun r hr => ?_,hs.owned.2⟩,?_,fun hbelow => ?_,fun hbelow => ?_⟩
  · rcases List.mem_append.mp hr with hr | hr
    · exact hs.owned.1 r hr
    · rw [List.mem_singleton.mp hr]
      rfl
  · exact (hperm.map _).nodup_iff.mpr (List.nodup_cons.mpr ⟨hfresh,hs.ids⟩)
  · refine (hperm.map _).nodup_iff.mpr (List.nodup_cons.mpr ⟨fun hmem => ?_,
      hs.numbers (hbeyond.below hbelow)⟩)
    obtain ⟨x,hx,heq⟩ := List.mem_map.mp hmem
    obtain ⟨hsession,hsame⟩ := Prod.mk.inj heq
    have hlt := (hpassed hbelow).assigned x hx hsession
    exact absurd hsame (Nat.ne_of_lt hlt)
  · unfold JournalFile.Ascending
    simp only [pushEvent,List.map_append,List.map_cons,List.map_nil]
    refine List.pairwise_append.mpr ⟨hs.ascending (hbeyond.below hbelow),by simp,fun a ha b hb => ?_⟩
    rw [List.mem_singleton.mp hb]
    intro hsession
    obtain ⟨r,hr,rfl⟩ := List.mem_map.mp ha
    exact (hpassed hbelow).assigned r.envelope.ref (s.mem_refs.mpr (.inl ⟨r,hr,rfl⟩)) hsession

/-- Creating events under fresh and distinct ids keeps identities apart. -/
theorem Adds.identified (h : Adds J s es s') (hs : Identified J s)
    (hnodup : (es.map (·.eventId)).Nodup) (hfresh : ∀ e ∈ es, e.eventId ∉ s.eventIds) :
    Identified J s' ∧ Beyond s s' ∧
      ∀ id ∈ s'.eventIds, id ∈ s.eventIds ∨ id ∈ es.map (·.eventId) := by
  induction h with
  | carried hcarried =>
    refine ⟨hcarried.identified hs,hcarried.beyond,fun id hid => .inl ?_⟩
    exact (hcarried.refs.map _).mem_iff.mp hid
  | @push s' es e hadds hseq ih =>
    rw [List.map_append,List.map_cons,List.map_nil] at hnodup
    have hsplit := List.nodup_append.mp hnodup
    obtain ⟨hident,hbeyond,hids⟩ := ih hsplit.1 fun x hx => hfresh x (by simp [hx])
    have hnew : e.eventId ∉ s'.eventIds := by
      intro hmem
      rcases hids _ hmem with hold | hadded
      · exact hfresh e (by simp) hold
      · exact hsplit.2.2 _ hadded _ (by simp) rfl
    refine ⟨hident.push hseq hnew,hbeyond.trans (beyond_push hseq),fun id hid => ?_⟩
    have hmem : id ∈ (e.ref::s'.refs).map (·.eventId) := ((refs_push_perm J s' e).map _).mem_iff.mp hid
    rcases List.mem_cons.mp hmem with rfl | hmem
    · exact .inr (by simp [EventEnvelope.ref])
    · rcases hids id hmem with hold | hadded
      · exact .inl hold
      · exact .inr (by rw [List.map_append]; exact List.mem_append_left _ hadded)

/-! ### Sections that create nothing -/

theorem Carried.of_maps
    (hevents : s'.events.map (fun r => (r.envelope,r.daemonId)) =
      s.events.map fun r => (r.envelope,r.daemonId))
    (htombs : s'.eventTombstones.map (fun t => (t.ref,t.daemonId)) =
      s.eventTombstones.map fun t => (t.ref,t.daemonId))
    (hcovers : ∀ id m, (s.session id).covers m = true → (s'.session id).covers m = true) :
    Carried s s' := by
  have henvelopes : s'.events.map (·.envelope) = s.events.map (·.envelope) := by
    simpa only [List.map_map,Function.comp_def] using congrArg (List.map Prod.fst) hevents
  have hrefs : s'.refs = s.refs := by
    have hlive : s'.events.map (·.envelope.ref) = s.events.map (·.envelope.ref) := by
      simpa only [List.map_map,Function.comp_def] using congrArg (List.map EventEnvelope.ref) henvelopes
    have hburied : s'.eventTombstones.map (·.ref) = s.eventTombstones.map (·.ref) := by
      simpa only [List.map_map,Function.comp_def] using congrArg (List.map Prod.fst) htombs
    rw [JournalFile.refs,JournalFile.refs,hlive,hburied]
  refine ⟨by rw [hrefs],by rw [henvelopes],hcovers,fun daemonId howned => ⟨fun r hr => ?_,fun t ht => ?_⟩⟩
  · have hmem := List.mem_map_of_mem (f := fun r : EventRecord => (r.envelope,r.daemonId)) hr
    rw [hevents] at hmem
    obtain ⟨x,hx,heq⟩ := List.mem_map.mp hmem
    rw [← (Prod.mk.inj heq).2]
    exact howned.1 x hx
  · have hmem := List.mem_map_of_mem (f := fun t : EventTombstone => (t.ref,t.daemonId)) ht
    rw [htombs] at hmem
    obtain ⟨x,hx,heq⟩ := List.mem_map.mp hmem
    rw [← (Prod.mk.inj heq).2]
    exact howned.2 x hx

theorem Carried.refl (s : JournalFile) : Carried s s := .of_maps rfl rfl fun _ _ h => h

theorem Carried.trans (h : Carried s s') (h' : Carried s' s'') : Carried s s'' where
  refs := h'.refs.trans h.refs
  order := h'.order.trans h.order
  covers id m hm := h'.covers id m (h.covers id m hm)
  owned daemonId howned := h'.owned daemonId (h.owned daemonId howned)

theorem covers_modify {id : String} {f : SessionJournal → SessionJournal}
    (hf : ∀ x m, x.covers m = true → (f x).covers m = true) (s : JournalFile) (id' : String) (m : ℕ)
    (hm : (s.session id').covers m = true) :
    (({ s with sessions := s.sessions.modify id {} f } : JournalFile).session id').covers m = true := by
  rw [JournalFile.session_modify]
  split_ifs with hid
  · rw [hid] at hm
    exact hf _ m hm
  · exact hm

theorem covers_raiseEventAck (cursor : ℕ) (x : SessionJournal) (m : ℕ) (hm : x.covers m = true) :
    (x.raiseEventAck cursor).covers m = true := by
  unfold SessionJournal.raiseEventAck
  split_ifs with hlt
  · rw [covers_iff] at hm ⊢
    simp only [List.mem_filter,decide_eq_true_eq]
    rcases hm with hle | hmem
    · exact .inl (hle.trans hlt.le)
    · rcases Nat.lt_or_ge cursor m with hgt | hge
      · exact .inr ⟨hmem,hgt⟩
      · exact .inl hge
  · exact hm

theorem covers_noteAcknowledged (ack : EventAck) (x : SessionJournal) (m : ℕ) (hm : x.covers m = true) :
    (noteAcknowledged ack x).covers m = true := by
  unfold noteAcknowledged
  split_ifs
  · rw [covers_iff] at hm ⊢
    simp only [mem_sortDedup,List.mem_append]
    exact hm.imp_right .inl
  · exact hm

theorem updateEvent_carried (s : JournalFile) (eventId : String) {f : EventRecord → EventRecord}
    (hf : ∀ r, (f r).envelope = r.envelope ∧ (f r).daemonId = r.daemonId) :
    Carried s (s.updateEvent eventId f) :=
  .of_maps (Table.map_updateFirst _ _ _ (fun r => by rw [(hf r).1,(hf r).2]) _) rfl fun _ _ h => h

theorem updateCommand_carried (s : JournalFile) (commandId : String) (f : CommandRecord → CommandRecord) :
    Carried s (s.updateCommand commandId f) :=
  .of_maps rfl rfl fun _ _ h => h

theorem advanceProcessed_carried {sessionId : String} (h : advanceProcessed s sessionId = some s') :
    Carried s s' := by
  simp only [advanceProcessed,bind,Option.bind_eq_some_iff] at h
  obtain ⟨cursor,-,hs⟩ := h
  obtain rfl := Option.some.inj hs
  exact .of_maps rfl rfl (covers_modify
    (f := fun session => { session with processedThroughSeq := cursor }) (fun _ _ hm => hm) s)

theorem acknowledgeEvent_carried {ack : EventAck} {u : Unit}
    (h : acknowledgeEvent ack s = some (.ok (u,s'))) : Carried s s' := by
  obtain ⟨t,-,-,-,-,rfl⟩ | ⟨r,-,-,-,⟨-,rfl⟩ | ⟨-,hadvance⟩⟩ := acknowledgeEvent_cases h
  · exact .of_maps rfl (Table.map_updateFirst _ (fillTombstoneStatus ack.status) _ (fun _ => rfl) _)
      fun _ _ hm => hm
  · exact updateEvent_carried s _ fun _ => ⟨rfl,rfl⟩
  · obtain ⟨cursor,-,rfl⟩ := advanceEventAck_cases hadvance
    have hmarked : Carried s (markAcknowledged s ack) := by
      refine (updateEvent_carried s ack.eventId (f := acknowledge ack.status) fun _ => ⟨rfl,rfl⟩).trans ?_
      exact .of_maps rfl rfl (covers_modify (covers_noteAcknowledged ack) _)
    exact hmarked.trans (.of_maps rfl rfl (covers_modify (covers_raiseEventAck cursor) _))

theorem reconcileSession_carried (s : JournalFile) (remote : SessionReconcileState) :
    Carried s (reconcileSession s remote) := by
  refine .of_maps ?_ rfl (fun id m hm => ?_)
  · simp only [reconcileSession,List.map_map]
    apply List.map_congr_left
    intro r _
    simp only [Function.comp_apply]
    split_ifs <;> rfl
  · rw [reconcile_session]
    split_ifs with hid
    · rw [covers_iff,mem_mergeWatermarks_sparse,List.mem_append]
      rw [covers_iff] at hm
      change m ≤ max (s.session id).eventAckThroughSeq remote.eventAckThroughSeq ∨ _
      by_cases hle : m ≤ max (s.session id).eventAckThroughSeq remote.eventAckThroughSeq
      · exact .inl hle
      · refine .inr ⟨.inl (hm.resolve_left fun h => hle (by omega)),by omega⟩
    · exact hm

theorem applyReconciliation_carried (s : JournalFile) (snapshot : ReconcileSnapshot) :
    Carried s (applyReconciliation snapshot s) := by
  unfold applyReconciliation
  induction snapshot.sessions generalizing s with
  | nil => exact .refl s
  | cons remote rest ih => exact (reconcileSession_carried s remote).trans (ih _)

theorem compactSession_carried (J : Handle) (sessionId : String) (s : JournalFile) :
    Carried s (compactSession J sessionId s) := by
  refine ⟨?_,List.filter_sublist.map _,fun _ _ hm => hm,fun daemonId howned => ⟨fun r hr => ?_,fun t ht => ?_⟩⟩
  · let buried := compactableEvent sessionId (s.session sessionId).eventAckThroughSeq
      (s.session sessionId).eventAckSparse
    have hsplit := ((List.filter_append_perm buried s.events).map (·.envelope.ref)).append_right
      (s.eventTombstones.map (·.ref))
    refine List.Perm.trans ?_ hsplit
    simp only [JournalFile.refs,compactSession,List.map_append,List.map_map]
    -- the buried records change places with the old tombstones
    have hplaces : ∀ live old new : List EventRef, (live ++ (old ++ new)).Perm (new ++ live ++ old) := by
      intro live old new
      rw [← List.append_assoc,List.append_assoc new]
      exact List.perm_append_comm
    exact hplaces _ _ _
  · exact howned.1 r (List.mem_of_mem_filter hr)
  · rcases List.mem_append.mp ht with ht | ht
    · exact howned.2 t ht
    · obtain ⟨r,hr,rfl⟩ := List.mem_map.mp ht
      exact howned.1 r (List.mem_of_mem_filter hr)

/-! ### Sections that create events -/

theorem not_mem_eventIds {id : String} : id ∉ s.eventIds ↔
    (∀ r ∈ s.events, r.envelope.eventId ≠ id) ∧ ∀ t ∈ s.eventTombstones, t.eventId ≠ id := by
  simp only [JournalFile.eventIds,JournalFile.refs,List.map_append,List.map_map,List.mem_append,
    List.mem_map,not_or,not_exists,not_and,Function.comp_apply]
  exact Iff.rfl

theorem appendEvent_adds (hs : Identified J s) {eventId sessionId : String} {event : Event}
    {now : Clock} {a : AppendedEvent} (h : appendEvent J eventId sessionId event now s = .ok (a,s')) :
    s' = s ∨ ∃ e, Adds J s [e] s' ∧ e.eventId ∉ s.eventIds := by
  obtain rfl | ⟨hlive,hburied,henvelope,rfl⟩ := appendEvent_cases h
  · exact .inl rfl
  · refine .inr ⟨a.envelope,.push (.carried (.refl s)) ?_,?_⟩
    · rw [henvelope]
    · rw [henvelope,not_mem_eventIds]
      exact ⟨fun r hr => hlive r hr (hs.owned.1 r hr),fun t ht => hburied t ht (hs.owned.2 t ht)⟩

theorem appendEventEnvelope_adds {envelope : EventEnvelope} {duplicate : Bool} {a : AppendedEvent}
    (h : appendEventEnvelope J envelope duplicate s = .ok (a,s')) :
    s' = s ∨ ∃ e, Adds J s [e] s' ∧ e.eventId ∉ s.eventIds := by
  simp only [appendEventEnvelope,bind_eq_ok] at h
  obtain ⟨_,-,h⟩ := h
  split at h
  · obtain ⟨-,rfl⟩ : _ ∧ s = s' := by simpa [pure,Except.pure] using h
    exact .inl rfl
  · rename_i hnone
    split_ifs at h with hburied hnext
    · obtain ⟨-,rfl⟩ : _ ∧ s = s' := by simpa [pure,Except.pure] using h
      exact .inl rfl
    · obtain ⟨-,rfl⟩ : _ ∧ _ = s' := by simpa [pure,Except.pure] using h
      refine .inr ⟨envelope,.push (.carried (.refl s)) (not_ne_iff.mp hnext),not_mem_eventIds.mpr ⟨?_,?_⟩⟩
      · simpa using hnone
      · simpa using hburied

def runtimeEventId (commandId : String) (index : ℕ) : String :=
  "runtime-" ++ commandId ++ "-" ++ toString (index+1)

def unknownEventId (commandId : String) : String := "execution-unknown-" ++ commandId

/-- The ids that `finish_command` derives from the command for the events it writes. -/
def derivedIds (commandId : String) (outcome : DispatchOutcome) (count : ℕ) : List String :=
  (List.range count).map (runtimeEventId commandId) ++
    match outcome with
    | .unknown _ => [unknownEventId commandId]
    | _ => []

theorem runtimeEventId_injective (commandId : String) : Function.Injective (runtimeEventId commandId) := by
  intro i j h
  have hindex : toString (i+1) = toString (j+1) := (String.append_right_inj _).mp h
  have hsucc : i+1 = j+1 := Nat.repr_injective hindex
  omega

theorem unknownEventId_ne (commandId : String) (index : ℕ) :
    runtimeEventId commandId index ≠ unknownEventId commandId := by
  unfold runtimeEventId unknownEventId
  intro h
  have hchars : ("runtime-" ++ commandId ++ "-" ++ toString (index+1)).toList =
      ("execution-unknown-" ++ commandId).toList := by rw [h]
  simp at hchars

theorem derivedIds_nodup (commandId : String) (outcome : DispatchOutcome) (count : ℕ) :
    (derivedIds commandId outcome count).Nodup := by
  have hruntime := (List.nodup_range (n := count)).map (runtimeEventId_injective commandId)
  unfold derivedIds
  cases outcome with
  | dispatchSucceeded => simpa using hruntime
  | dispatchFailed reason => simpa using hruntime
  | unknown reason =>
    refine List.nodup_append.mpr ⟨hruntime,by simp,fun a ha b hb => ?_⟩
    obtain ⟨i,-,rfl⟩ := List.mem_map.mp ha
    rw [List.mem_singleton.mp hb]
    exact unknownEventId_ne commandId i

theorem pushRuntimeEvents_adds {s₀ : JournalFile} (commandId sessionId : String) (now : Clock)
    (events : List Event) (index : ℕ) (h : Adds J s₀ es s) :
    Adds J s₀ (es ++ (pushRuntimeEvents J commandId sessionId now index events s).1)
      (pushRuntimeEvents J commandId sessionId now index events s).2 := by
  induction events generalizing index s es with
  | nil => simpa [pushRuntimeEvents] using h
  | cons event rest ih =>
    have hpush := Adds.push h (e := ⟨runtimeEventId commandId index,sessionId,
      s.nextEventSequence sessionId,now (index+1),Protocol.schemaVersion,event⟩) rfl
    have hrest := ih (index+1) hpush
    rw [List.append_assoc] at hrest
    exact hrest

theorem pushRuntimeEvents_ids (commandId sessionId : String) (now : Clock) (events : List Event)
    (index : ℕ) (s : JournalFile) :
    (pushRuntimeEvents J commandId sessionId now index events s).1.map (·.eventId) =
      (List.range' index events.length).map (runtimeEventId commandId) := by
  induction events generalizing index s with
  | nil => rfl
  | cons event rest ih =>
    rw [List.length_cons,List.range'_succ,List.map_cons,pushRuntimeEvents,List.map_cons,ih]
    rfl

theorem pushUnknownEvent_adds {s₀ : JournalFile} (commandId sessionId operationId now : String)
    (outcome : DispatchOutcome) (h : Adds J s₀ es s) :
    Adds J s₀ (es ++ (pushUnknownEvent J commandId sessionId operationId outcome now s).1)
      (pushUnknownEvent J commandId sessionId operationId outcome now s).2 := by
  cases outcome with
  | dispatchSucceeded => simpa [pushUnknownEvent] using h
  | dispatchFailed reason => simpa [pushUnknownEvent] using h
  | unknown reason => exact h.push rfl

/-- A finished command creates what it emits, under the ids derived from it. -/
theorem finishCommand_adds {commandId : String} {outcome : DispatchOutcome} {events : List Event}
    {now : Clock} {emitted : List EventEnvelope}
    (h : finishCommand J commandId outcome events now s = some (.ok (emitted,s'))) :
    Adds J s emitted s' ∧ emitted.map (·.eventId) = derivedIds commandId outcome events.length ∧
      s.commands.any (fun r => r.commandId == commandId) = true := by
  unfold finishCommand at h
  split at h
  · simp at h
  · rename_i r hfind
    simp only [bind,Option.bind_eq_some_iff] at h
    obtain ⟨s₁,hadvance,h⟩ := h
    simp only [pure,Option.some.injEq,Except.ok.injEq,Prod.mk.injEq] at h
    obtain ⟨rfl,rfl⟩ := h
    have hcarried : Carried s s₁ := (updateCommand_carried s commandId _).trans
      (advanceProcessed_carried hadvance)
    have hruntime := pushRuntimeEvents_adds commandId r.sessionId now events 0 (Adds.carried (J := J) hcarried)
    rw [List.nil_append] at hruntime
    refine ⟨pushUnknownEvent_adds commandId r.sessionId r.runtimeOperationId _ outcome hruntime,?_,?_⟩
    · rw [List.map_append,pushRuntimeEvents_ids]
      unfold derivedIds
      rw [List.range_eq_range']
      cases outcome <;> rfl
    · rw [List.any_eq_true]
      exact ⟨r,List.mem_of_find?_eq_some hfind,by simpa using List.find?_some hfind⟩

theorem Adds.ids_perm (h : Adds J s es s') : s'.eventIds.Perm (es.map (·.eventId) ++ s.eventIds) := by
  induction h with
  | carried hcarried => exact hcarried.refs.map _
  | @push s' es e _ _ ih =>
    have hpush := (refs_push_perm J s' e).map (·.eventId)
    rw [List.map_append,List.append_assoc]
    exact hpush.trans ((ih.cons _).trans List.perm_middle.symm)

/-- The condition cannot be spared: a derived id that the journal has is then there twice. -/
theorem finishCommand_clash {commandId : String} {outcome : DispatchOutcome} {events : List Event}
    {now : Clock} {emitted : List EventEnvelope}
    (h : finishCommand J commandId outcome events now s = some (.ok (emitted,s'))) {id : String}
    (hderived : id ∈ derivedIds commandId outcome events.length) (hid : id ∈ s.eventIds) :
    ¬ s'.eventIds.Nodup := by
  obtain ⟨hadds,hids,-⟩ := finishCommand_adds h
  rw [hadds.ids_perm.nodup_iff,hids]
  intro hnodup
  exact (List.nodup_append.mp hnodup).2.2 id hderived id hid rfl

end

/-! ### Calls -/

/-- A call that bears on events, or that takes a command in for one to finish. -/
inductive JournalCall
  | acceptCommand (envelope : CommandEnvelope)
  | acceptControlCommand (envelope : CommandEnvelope)
  | acceptNextReadyCommand (sessionId : String)
  | finishCommand (commandId : String) (outcome : DispatchOutcome) (events : List Event)
  | completeCommand (commandId : String) (outcome : DispatchOutcome) (events : List Event)
  | compactSession (sessionId : String)
  | appendEvent (eventId sessionId : String) (event : Event)
  | appendEventEnvelope (envelope : EventEnvelope) (digest : String) (duplicate : Bool)
  | acknowledgeEvent (ack : EventAck)
  | applyReconciliation (snapshot : ReconcileSnapshot)
  | reopen
  deriving DecidableEq, Repr

namespace JournalCall

def run {σ : Type} (W : World σ) : JournalCall → Op σ Unit
  | .acceptCommand e => discard (Journal.acceptCommand W e)
  | .acceptControlCommand e => discard (Journal.acceptControlCommand W e)
  | .acceptNextReadyCommand id => discard (Journal.acceptNextReadyCommand W id)
  | .finishCommand id outcome events => discard (finishCommandOp W id outcome events)
  | .completeCommand id outcome events => discard (Journal.completeCommand W id outcome events)
  | .compactSession id => compactSessionOp W id
  | .appendEvent id sessionId event => discard (appendEventOp W id sessionId event)
  | .appendEventEnvelope e digest duplicate => discard (appendEventEnvelopeOp W e digest duplicate)
  | .acknowledgeEvent ack => acknowledgeEventOp W ack
  | .applyReconciliation snapshot => applyReconciliationOp W snapshot
  | .reopen => Journal.reopen W

/-- The journal has the command, and none of the ids that its end would derive. -/
def FreshEnd (s : JournalFile) (commandId : String) (outcome : DispatchOutcome) (count : ℕ) : Prop :=
  s.commands.any (fun r => r.commandId == commandId) = true →
    ∀ id ∈ derivedIds commandId outcome count, id ∉ s.eventIds

instance (s : JournalFile) (commandId : String) (outcome : DispatchOutcome) (count : ℕ) :
    Decidable (FreshEnd s commandId outcome count) := inferInstanceAs (Decidable (_ → ∀ id ∈ _, _))

/-- The condition on a call and the journal before it. -/
def Safe (s : JournalFile) : JournalCall → Prop
  | .finishCommand id outcome events => FreshEnd s id outcome events.length
  | .completeCommand id outcome events => FreshEnd s id outcome events.length
  | _ => True

instance (s : JournalFile) (call : JournalCall) : Decidable (call.Safe s) := by
  cases call <;> unfold Safe <;> infer_instance

end JournalCall

section

variable {σ α : Type} {W : World σ}

def runJournalCalls (W : World σ) : List JournalCall → Host σ → Option (Host σ)
  | [], h => some h
  | call::calls, h =>
    match (call.run W).exec h with
    | none => none
    | some (_,h') => runJournalCalls W calls h'

/-- Every call of the run meets its condition in the journal it finds. -/
def SafeEventRun (W : World σ) : List JournalCall → Host σ → Prop
  | [], _ => True
  | call::calls, h => call.Safe h.state ∧ ∀ p ∈ (call.run W).exec h, SafeEventRun W calls p.2

instance : (calls : List JournalCall) → (h : Host σ) → Decidable (SafeEventRun W calls h)
  | [], _ => inferInstanceAs (Decidable True)
  | call::calls, h =>
    have (p : Except JournalError Unit × Host σ) : Decidable (SafeEventRun W calls p.2) :=
      instDecidableSafeEventRun calls p.2
    inferInstanceAs (Decidable (_ ∧ ∀ p ∈ (call.run W).exec h, _))

structure HostIdentified (W : World σ) (h : Host σ) : Prop where
  current : ∃ past, h.history = h.state::past
  later : h.history.Pairwise fun newer older => Beyond older newer
  states : ∀ s ∈ h.history, Identified W.handle s
  file : Identified W.handle h.file
  ahead : Beyond h.state h.file

namespace HostIdentified

variable {h : Host σ}

theorem state (hs : HostIdentified W h) : Identified W.handle h.state := by
  obtain ⟨past,hpast⟩ := hs.current
  exact hs.states _ (by simp [hpast])

theorem empty_identified (J : Handle) : Identified J {} where
  owned := ⟨by simp,by simp⟩
  ids := by simp [JournalFile.eventIds,JournalFile.refs]
  numbers _ := by simp [JournalFile.numbers,JournalFile.refs]
  ascending _ := by simp [JournalFile.Ascending]

theorem init (runtime : σ) : HostIdentified W { runtime } where
  current := ⟨[],rfl⟩
  later := List.pairwise_singleton _ _
  states s hs := by
    rw [List.mem_singleton.mp hs]
    exact empty_identified _
  file := empty_identified _
  ahead := .refl _

theorem settle (hs : HostIdentified W h) {state file : JournalFile}
    (hstate : Identified W.handle state) (hfile : Identified W.handle file)
    (hbeyond : Beyond h.state state) (hahead : Beyond state file) : HostIdentified W (h.settle state file) := by
  obtain ⟨past,hpast⟩ := hs.current
  refine ⟨⟨h.history,rfl⟩,List.pairwise_cons.mpr ⟨fun old hold => ?_,hs.later⟩,fun s hmem => ?_,hfile,hahead⟩
  · rw [hpast] at hold
    rcases List.mem_cons.mp hold with rfl | hold
    · exact hbeyond
    · have hlater := hs.later
      rw [hpast] at hlater
      exact ((List.pairwise_cons.mp hlater).1 old hold).trans hbeyond
  · rcases List.mem_cons.mp hmem with rfl | hmem
    · exact hstate
    · exact hs.states s hmem

end HostIdentified

/-- The program keeps identities apart when it starts in a journal that meets `P`. -/
def KeepsIdentity (W : World σ) (P : JournalFile → Prop) (m : Op σ α) : Prop :=
  Triple (fun h => HostIdentified W h ∧ P h.state) m (fun _ => HostIdentified W) fun _ => HostIdentified W

variable {P : JournalFile → Prop}

theorem KeepsIdentity.bind {β : Type} {m : Op σ α} {f : α → Op σ β} (hm : KeepsIdentity W P m)
    (hf : ∀ a, KeepsIdentity W (fun _ => True) (f a)) : KeepsIdentity W P (m >>= f) :=
  triple_bind hm fun a => (hf a).pre fun _ hs => ⟨hs,trivial⟩

theorem KeepsIdentity.map {β : Type} {f : α → β} {m : Op σ α} (hm : KeepsIdentity W P m) :
    KeepsIdentity W P (f <$> m) :=
  triple_map hm fun _ _ hs => hs

theorem KeepsIdentity.discard {m : Op σ α} (hm : KeepsIdentity W P m) :
    KeepsIdentity W P (discard m : Op σ Unit) :=
  triple_map hm fun _ _ hs => hs

theorem keepsIdentity_pure (a : α) : KeepsIdentity W P (pure a) := triple_pure fun _ hs => hs.1

theorem keepsIdentity_fail (e : JournalError) : KeepsIdentity W P (fail e : Op σ α) :=
  triple_fail fun _ hs => hs.1

theorem keepsIdentity_orFail (r : Except JournalError α) : KeepsIdentity W P (orFail r) :=
  triple_orFail (fun _ _ hs _ => hs.1) fun _ _ hs _ => hs.1

theorem keepsIdentity_look (f : Host σ → α) : KeepsIdentity W P (look f) := triple_look fun _ hs => hs.1

/-- A section that keeps identities apart keeps them so whatever the persist does. -/
theorem keepsIdentity_update {section_ : Clock → Section α}
    (hsection : ∀ s now a s', Identified W.handle s → P s → section_ now s = some (.ok (a,s')) →
      Identified W.handle s' ∧ Beyond s s') : KeepsIdentity W P (update W section_) := by
  rintro h ⟨hs,hp⟩ r h' he
  simp only [exec,update] at he
  split at he
  · simp at he
  · obtain ⟨rfl,rfl⟩ : _ = r ∧ _ = h' := by simpa using he
    exact hs.settle hs.state hs.file (.refl _) hs.ahead
  · rename_i a s hsec
    obtain ⟨hident,hbeyond⟩ := hsection h.state _ a s hs.state hp hsec
    cases hw : (W.weather h.tick).1 with
    | done =>
      obtain ⟨rfl,rfl⟩ : _ = r ∧ _ = h' := by simpa [hw] using he
      exact hs.settle hident hident hbeyond (.refl _)
    | lost reason readable =>
      obtain ⟨rfl,rfl⟩ : _ = r ∧ _ = h' := by simpa only [hw,Option.some.injEq,Prod.mk.injEq] using he
      cases readable with
      | true => exact hs.settle hs.file hs.file hs.ahead (.refl _)
      | false => exact hs.settle hs.state hs.file (.refl _) hs.ahead
    | late reason readable =>
      obtain ⟨rfl,rfl⟩ : _ = r ∧ _ = h' := by simpa only [hw,Option.some.injEq,Prod.mk.injEq] using he
      cases readable with
      | true => exact hs.settle hident hident hbeyond (.refl _)
      | false => exact hs.settle hs.state hident (.refl _) hbeyond

theorem keepsIdentity_carried {section_ : Clock → Section α}
    (hsection : ∀ s now a s', section_ now s = some (.ok (a,s')) → Carried s s') :
    KeepsIdentity W P (update W section_) :=
  keepsIdentity_update fun s now a s' hs _ h =>
    ⟨(hsection s now a s' h).identified hs,(hsection s now a s' h).beyond⟩

theorem keepsIdentity_append {section_ : Clock → Section α}
    (hsection : ∀ s now a s', Identified W.handle s → section_ now s = some (.ok (a,s')) →
      s' = s ∨ ∃ e, Adds W.handle s [e] s' ∧ e.eventId ∉ s.eventIds) :
    KeepsIdentity W P (update W section_) := by
  refine keepsIdentity_update fun s now a s' hs _ h => ?_
  obtain rfl | ⟨e,hadds,hfresh⟩ := hsection s now a s' hs h
  · exact ⟨hs,.refl _⟩
  · obtain ⟨hident,hbeyond,-⟩ := hadds.identified hs (by simp) (by simpa using hfresh)
    exact ⟨hident,hbeyond⟩

theorem keepsIdentity_commandRecord (commandId : String) : KeepsIdentity W P (commandRecord commandId) := by
  refine (keepsIdentity_look _).bind fun found => ?_
  cases found with
  | some record => exact keepsIdentity_pure _
  | none => exact keepsIdentity_fail _

theorem keepsIdentity_accept (e : CommandEnvelope) (allow : Bool) :
    KeepsIdentity W P (acceptCommandWithControl W e allow) := by
  refine (keepsIdentity_orFail _).bind fun _ => ?_
  refine KeepsIdentity.bind (keepsIdentity_carried fun s now p s' h => ?_) fun p => ?_
  · obtain ⟨-,⟨-,rfl,-⟩ | ⟨rfl,-⟩ | ⟨-,-,-,-,-,rfl⟩⟩ := prepareCommand_cases (Option.some.inj h)
    · exact .refl _
    · exact .refl _
    · exact .of_maps rfl rfl fun _ _ hm => hm
  · refine (keepsIdentity_look _).bind fun prior => ?_
    dsimp only
    split_ifs
    · exact keepsIdentity_pure _
    · refine KeepsIdentity.bind (keepsIdentity_carried fun s now started s' h => ?_) fun started => ?_
      · have hmark := Option.some.inj h
        unfold markDispatchStarted at hmark
        split at hmark
        · simp at hmark
        · split_ifs at hmark
          · obtain ⟨-,rfl⟩ : _ ∧ s = s' := by simpa using hmark
            exact .refl _
          · obtain ⟨-,rfl⟩ : _ ∧ _ = s' := by simpa using hmark
            exact updateCommand_carried s _ _
      · split_ifs
        · exact keepsIdentity_pure _
        · exact (keepsIdentity_commandRecord _).bind fun _ => keepsIdentity_pure _

theorem keepsIdentity_compact (sessionId : String) : KeepsIdentity W P (compactSessionOp W sessionId) := by
  refine keepsIdentity_carried fun s _ _ s' h => ?_
  obtain rfl : _ = s' := by simpa using h
  exact compactSession_carried _ sessionId s

theorem keepsIdentity_finish (commandId : String) (outcome : DispatchOutcome) (events : List Event) :
    KeepsIdentity W (fun s => JournalCall.FreshEnd s commandId outcome events.length)
      (finishCommandOp W commandId outcome events) := by
  refine keepsIdentity_update fun s now emitted s' hs hfresh h => ?_
  obtain ⟨hadds,hids,hknown⟩ := finishCommand_adds h
  obtain ⟨hident,hbeyond,-⟩ := hadds.identified hs (hids ▸ derivedIds_nodup _ _ _) fun e he =>
    hfresh hknown e.eventId (hids ▸ List.mem_map_of_mem he)
  exact ⟨hident,hbeyond⟩

theorem keepsIdentity_complete (commandId : String) (outcome : DispatchOutcome) (events : List Event) :
    KeepsIdentity W (fun s => JournalCall.FreshEnd s commandId outcome events.length)
      (completeCommand W commandId outcome events) := by
  -- looking the command up leaves the journal as the condition found it
  have hlookup : Triple (fun h => HostIdentified W h ∧ JournalCall.FreshEnd h.state commandId outcome events.length)
      (commandRecord commandId)
      (fun _ h => HostIdentified W h ∧ JournalCall.FreshEnd h.state commandId outcome events.length)
      (fun _ => HostIdentified W) := by
    refine triple_bind (Q := fun _ h => HostIdentified W h ∧
      JournalCall.FreshEnd h.state commandId outcome events.length) (triple_look fun _ hs => hs) fun found => ?_
    cases found with
    | some record => exact triple_pure fun _ hs => hs
    | none => exact triple_fail fun _ hs => hs.1
  exact triple_bind hlookup fun record => (keepsIdentity_finish _ _ _).bind fun emitted =>
    (keepsIdentity_compact _).bind fun _ => keepsIdentity_pure _

theorem keepsIdentity_run (call : JournalCall) : KeepsIdentity W (fun s => call.Safe s) (call.run W) := by
  cases call with
  | acceptCommand e => exact (keepsIdentity_accept e false).discard
  | acceptControlCommand e => exact (keepsIdentity_accept e true).discard
  | acceptNextReadyCommand id =>
    refine KeepsIdentity.discard ((keepsIdentity_look _).bind fun next => ?_)
    cases next with
    | none => exact keepsIdentity_pure _
    | some command => exact KeepsIdentity.map (keepsIdentity_accept command false)
  | finishCommand id outcome events => exact (keepsIdentity_finish id outcome events).discard
  | completeCommand id outcome events => exact (keepsIdentity_complete id outcome events).discard
  | compactSession id => exact keepsIdentity_compact id
  | appendEvent id sessionId event =>
    exact (keepsIdentity_append fun _ _ _ _ hs h => appendEvent_adds hs (Option.some.inj h)).discard
  | appendEventEnvelope e digest duplicate =>
    refine KeepsIdentity.discard ((keepsIdentity_orFail _).bind fun _ => ?_)
    split_ifs
    · exact keepsIdentity_fail _
    · exact keepsIdentity_append fun _ _ _ _ _ h => appendEventEnvelope_adds (Option.some.inj h)
  | acknowledgeEvent ack =>
    exact (keepsIdentity_orFail _).bind fun _ => keepsIdentity_carried fun _ _ _ _ h =>
      acknowledgeEvent_carried h
  | applyReconciliation snapshot =>
    refine (keepsIdentity_orFail _).bind fun _ => keepsIdentity_carried fun s _ _ s' h => ?_
    obtain rfl : _ = s' := by simpa using h
    exact applyReconciliation_carried s snapshot
  | reopen =>
    refine triple_bind (Q := fun opened h => HostIdentified W h ∧
      opened = openWithConfig W.handle.daemonId h.file) (triple_look fun h hs => ⟨hs.1,rfl⟩)
      fun opened => ?_
    refine triple_bind (Q := fun s h => HostIdentified W h ∧ s = h.file)
      (triple_orFail (fun h s hs ho => ⟨hs.1,openWithConfig_ok (hs.2.symm.trans ho)⟩)
        fun h e hs _ => hs.1) fun s => ?_
    refine triple_modify fun h hs => ?_
    obtain ⟨hs,rfl⟩ := hs
    exact hs.settle hs.file hs.file hs.ahead (.refl _)

theorem runJournalCalls_identified {calls : List JournalCall} {h h' : Host σ} (hs : HostIdentified W h)
    (hsafe : SafeEventRun W calls h) (hrun : runJournalCalls W calls h = some h') : HostIdentified W h' := by
  induction calls generalizing h with
  | nil =>
    obtain rfl := Option.some.inj hrun
    exact hs
  | cons call calls ih =>
    simp only [runJournalCalls] at hrun
    split at hrun
    · simp at hrun
    · rename_i r h₁ hexec
      refine ih ?_ (hsafe.2 (r,h₁) hexec) hrun
      cases r with
      | ok a => exact (keepsIdentity_run call).ok ⟨hs,hsafe.1⟩ hexec
      | error e => exact (keepsIdentity_run call).error ⟨hs,hsafe.1⟩ hexec

/-- In a run whose finished commands derive fresh ids, with sequences below the largest
integer: every state has each event id and each sequence of a session once, and whatever
it has that an earlier state had not lies above all the earlier one had assigned or knew
as acknowledged. -/
theorem event_identity (W : World σ) (runtime : σ) (calls : List JournalCall)
    (hsafe : SafeEventRun W calls { runtime }) (h : Host σ)
    (hrun : runJournalCalls W calls { runtime } = some h) (hbelow : h.state.Below) :
    (∀ s ∈ h.history, s.eventIds.Nodup ∧ s.numbers.Nodup ∧ s.Ascending) ∧
    h.history.Pairwise fun newer older => ∀ x ∈ newer.refs, x ∉ older.refs →
      older.Passed x.sessionId x.daemonEventSeq := by
  have hs := runJournalCalls_identified (.init runtime) hsafe hrun
  have hall : ∀ s ∈ h.history, s.Below := by
    obtain ⟨past,hpast⟩ := hs.current
    have hlater := hs.later
    rw [hpast] at hlater ⊢
    intro s hmem
    rcases List.mem_cons.mp hmem with rfl | hmem
    · exact hbelow
    · exact ((List.pairwise_cons.mp hlater).1 s hmem).below hbelow
  refine ⟨fun s hmem => ?_,?_⟩
  · have hident := hs.states s hmem
    exact ⟨hident.ids,hident.numbers (hall s hmem),hident.ascending (hall s hmem)⟩
  · exact hs.later.imp_of_mem fun hnewer _ hbeyond => hbeyond.above (hall _ hnewer)

end

/-- Two commands end, one of them without a known outcome, between an acknowledgement, a
compaction and a restart. -/
def orderlyEvents : List JournalCall :=
  [.appendEvent "e1" "session-1" (.agentActivity "working"),
    .acceptCommand (resumeEnvelope 1 "a"),.completeCommand "a" .dispatchSucceeded [.agentActivity "done"],
    .acknowledgeEvent (acceptedAck "e1" 1),.compactSession "session-1",.reopen,
    .acceptCommand (resumeEnvelope 2 "b"),.completeCommand "b" (.unknown "lost") []]

theorem orderlyEvents_identified : ∃ h : Host Unit,
    runJournalCalls calmWorld orderlyEvents { runtime := () } = some h ∧
    h.state.eventIds = ["runtime-a-1","execution-unknown-b","e1"] ∧
    (∀ s ∈ h.history, s.eventIds.Nodup ∧ s.numbers.Nodup ∧ s.Ascending) ∧
    h.history.Pairwise fun newer older => ∀ x ∈ newer.refs, x ∉ older.refs →
      older.Passed x.sessionId x.daemonEventSeq := by
  have hrun : (runJournalCalls calmWorld orderlyEvents { runtime := () }).any (fun h =>
      decide (h.state.eventIds = ["runtime-a-1","execution-unknown-b","e1"]) &&
        decide h.state.Below) = true := by decide +kernel
  obtain ⟨h,hrun,hh⟩ := (Option.any_eq_true _ _).mp hrun
  simp only [Bool.and_eq_true,decide_eq_true_eq] at hh
  exact ⟨h,hrun,hh.1,event_identity calmWorld () orderlyEvents (by decide +kernel) h hrun hh.2⟩

/-- A command that waits for an earlier one is completed, and completed again. -/
def twiceCompleted : List JournalCall :=
  [.acceptCommand (resumeEnvelope 2 "b"),.completeCommand "b" .dispatchSucceeded [.agentActivity "done"],
    .completeCommand "b" .dispatchSucceeded [.agentActivity "done again"]]

/-- The journal then has two different events under one id. -/
theorem twiceCompleted_repeats_id : ∃ h : Host Unit,
    runJournalCalls calmWorld twiceCompleted { runtime := () } = some h ∧ h.state.Below ∧
    h.state.eventIds = ["runtime-b-1","runtime-b-1"] ∧ ¬ h.state.eventIds.Nodup := by
  have hrun : (runJournalCalls calmWorld twiceCompleted { runtime := () }).any (fun h =>
      decide (h.state.eventIds = ["runtime-b-1","runtime-b-1"]) && decide h.state.Below) = true := by
    decide +kernel
  obtain ⟨h,hrun,hh⟩ := (Option.any_eq_true _ _).mp hrun
  simp only [Bool.and_eq_true,decide_eq_true_eq] at hh
  exact ⟨h,hrun,hh.2,hh.1,by simp [hh.1]⟩

end Journal
end North
