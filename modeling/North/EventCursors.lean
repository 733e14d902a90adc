import North.EventHandler

/-! The event watermark of a session: three ingestion paths, each with its own
`advance_event_watermark`. The copies agree where the sparse list leaves a gap after the
watermark; only the one of `delivery.rs` and `readiness.rs` absorbs entries that follow the
watermark directly. -/
namespace North
namespace Store

open Machine Protocol

inductive IngestPath
  | delivery | readiness | clarification
  deriving DecidableEq, Repr

def advanceEventWatermark : IngestPath → ℕ → List ℕ → ℕ → ℕ × List ℕ
  | .delivery | .readiness => advanceCursor
  | .clarification => advanceProjectionCursor

/-- The sequences that a watermark with its sparse list acknowledges. -/
def Acknowledges (through : ℕ) (sparse : List ℕ) (m : ℕ) : Prop := m ≤ through ∨ m ∈ sparse

/-- The sparse lists that `SessionReconcileState::validate` accepts. -/
structure ValidSparse (through : ℕ) (sparse : List ℕ) : Prop where
  above : ∀ m ∈ sparse, through < m
  ascending : sparse.Pairwise (· < ·)

theorem sparseAscending_ok {through previous : ℕ} {sparse : List ℕ} (hle : through ≤ previous) :
    sparseAscending through previous sparse = .ok () ↔
      (∀ m ∈ sparse, previous < m) ∧ sparse.Pairwise (· < ·) := by
  induction sparse generalizing previous with
  | nil => simp [sparseAscending]
  | cons q qs ih =>
    unfold sparseAscending
    split_ifs with hthrough hprevious
    · simp only [false_iff,not_and]
      intro h
      have hq := h q (by simp)
      omega
    · simp only [false_iff,not_and]
      intro h
      have hq := h q (by simp)
      omega
    · have hlt : previous < q := not_le.mp hprevious
      rw [ih (by omega : through ≤ q),List.pairwise_cons]
      constructor
      · rintro ⟨habove,hpairwise⟩
        refine ⟨fun m hm => ?_,habove,hpairwise⟩
        rcases List.mem_cons.mp hm with rfl | hm
        · exact hlt
        · exact hlt.trans (habove m hm)
      · rintro ⟨-,habove,hpairwise⟩
        exact ⟨habove,hpairwise⟩

theorem nonEmpty_ok {field value : String} :
    nonEmpty field value = .ok () ↔ Text.blank value = false := by
  unfold nonEmpty
  cases Text.blank value <;> simp

theorem SessionReconcileState.validate_iff {s : SessionReconcileState} :
    s.validate = .ok () ↔
      Text.blank s.sessionId = false ∧ ValidSparse s.eventAckThroughSeq s.eventAckSparse := by
  simp only [SessionReconcileState.validate,bind_eq_ok,sparseAscending_ok (le_refl _)]
  constructor
  · rintro ⟨_,hid,habove,hascending⟩
    exact ⟨nonEmpty_ok.mp hid,habove,hascending⟩
  · rintro ⟨hid,habove,hascending⟩
    exact ⟨(),nonEmpty_ok.mpr hid,habove,hascending⟩

/-! ### The loop -/

theorem ValidSparse.absorb {through : ℕ} {sparse : List ℕ} (h : ValidSparse through sparse) :
    ValidSparse (through+1) (sparse.erase (through+1)) := by
  have hnodup : sparse.Nodup := h.ascending.imp (fun hlt => ne_of_lt hlt)
  refine ⟨fun m hm => ?_,h.ascending.sublist List.erase_sublist⟩
  obtain ⟨hne,hmem⟩ := (hnodup.mem_erase_iff).mp hm
  have hlt := h.above m hmem
  omega

/-- The loop keeps the acknowledged sequences and leaves a gap after the watermark. -/
theorem closeGap_spec {through fuel : ℕ} {sparse : List ℕ} (h : ValidSparse through sparse)
    (hfuel : sparse.length ≤ fuel) :
    ValidSparse (closeGap (· + 1) fuel through sparse).1 (closeGap (· + 1) fuel through sparse).2 ∧
      ∀ m, Acknowledges (closeGap (· + 1) fuel through sparse).1
        (closeGap (· + 1) fuel through sparse).2 m ↔ Acknowledges through sparse m := by
  induction fuel generalizing through sparse with
  | zero => exact ⟨h,fun m => Iff.rfl⟩
  | succ fuel ih =>
    unfold closeGap
    simp only [List.contains_eq_mem,decide_eq_true_eq]
    split_ifs with hnext
    · have hlength : (sparse.erase (through+1)).length ≤ fuel := by
        rw [List.length_erase_of_mem hnext]
        omega
      obtain ⟨hvalid,hcovers⟩ := ih h.absorb hlength
      refine ⟨hvalid,fun m => (hcovers m).trans ?_⟩
      have hnodup : sparse.Nodup := h.ascending.imp (fun hlt => ne_of_lt hlt)
      simp only [Acknowledges,hnodup.mem_erase_iff]
      constructor
      · rintro (hm | ⟨-,hm⟩)
        · rcases Nat.lt_or_ge through m with hlt | hle
          · obtain rfl : m = through+1 := by omega
            exact .inr hnext
          · exact .inl hle
        · exact .inr hm
      · rintro (hm | hm)
        · exact .inl (by omega)
        · by_cases hm' : m = through+1
          · exact .inl (by omega)
          · exact .inr ⟨hm',hm⟩
    · exact ⟨h,fun m => Iff.rfl⟩

/-- On entries of a `BIGINT` column the saturating successor finds the same entries. -/
theorem closeGap_saturating {through fuel : ℕ} {sparse : List ℕ} (h : ValidSparse through sparse)
    (hthrough : through ≤ i64Max) (hrange : ∀ m ∈ sparse, m ≤ i64Max) :
    closeGap (saturatingSucc i64Max) fuel through sparse = closeGap (· + 1) fuel through sparse := by
  induction fuel generalizing through sparse with
  | zero => rfl
  | succ fuel ih =>
    unfold closeGap
    by_cases hmax : through < i64Max
    · simp only [saturatingSucc_of_lt hmax,List.contains_eq_mem,decide_eq_true_eq]
      split_ifs with hnext
      · exact ih h.absorb (by omega) (fun m hm => hrange m (List.mem_of_mem_erase hm))
      · rfl
    · have hempty : sparse = [] := by
        refine List.eq_nil_iff_forall_not_mem.mpr fun m hm => ?_
        have hlt := h.above m hm
        have hle := hrange m hm
        omega
      simp [hempty]

theorem mem_closeGap (fuel : ℕ) {through m : ℕ} {sparse : List ℕ} (hm : m ∈ sparse) (hle : m ≤ through) :
    m ∈ (closeGap (· + 1) fuel through sparse).2 ∧ through ≤ (closeGap (· + 1) fuel through sparse).1 := by
  induction fuel generalizing through sparse with
  | zero => exact ⟨hm,le_rfl⟩
  | succ fuel ih =>
    unfold closeGap
    simp only [List.contains_eq_mem,decide_eq_true_eq]
    split_ifs with hnext
    · have hne : m ≠ through+1 := by omega
      obtain ⟨hkept,hmoved⟩ := ih ((List.mem_erase_of_ne hne).mpr hm) (by omega : m ≤ through+1)
      exact ⟨hkept,by omega⟩
    · exact ⟨hm,le_rfl⟩

theorem le_advanceCursor (through sequence : ℕ) (sparse : List ℕ) (hthrough : through ≤ i64Max)
    (hsequence : sequence ≤ i64Max) : sequence ≤ (advanceCursor through sparse sequence).1 := by
  have hmoves : ∀ (fuel t : ℕ) (rows : List ℕ), t ≤ i64Max →
      t ≤ (closeGap (saturatingSucc i64Max) fuel t rows).1 := by
    intro fuel
    induction fuel with
    | zero => exact fun t rows _ => le_rfl
    | succ fuel ih =>
      intro t rows ht
      unfold closeGap
      simp only
      split_ifs
      · have hle : t ≤ saturatingSucc i64Max t := by simp only [saturatingSucc]; omega
        exact hle.trans (ih _ _ (by simp only [saturatingSucc]; omega))
      · exact le_rfl
  have hstart := hmoves sparse.length (max through sequence) sparse (by omega)
  simp only [advanceCursor]
  omega

/-! ### The copies -/

/-- The gap check that the three paths share: above the watermark, and at most the first
sequence that neither the watermark nor the sparse list acknowledges. -/
def GapAdmits (s : Session) (sequence : ℕ) : Prop :=
  s.eventAckThroughSeq < sequence ∧ ∃ expected, expectedSequence s = some expected ∧ sequence ≤ expected

/-- All paths store the same cursor, which acknowledges the new sequence besides the old ones
and is valid again, alone and in the snapshot of its daemon. -/
structure CopiesAgree (s : Session) (sequence : ℕ) : Prop where
  same : ∀ p q, setCursor (advanceEventWatermark p) sequence s =
    setCursor (advanceEventWatermark q) sequence s
  exact : ∀ p m, Acknowledges (setCursor (advanceEventWatermark p) sequence s).eventAckThroughSeq
      (setCursor (advanceEventWatermark p) sequence s).eventAckSparse m ↔
    Acknowledges s.eventAckThroughSeq s.eventAckSparse m ∨ m = sequence
  valid : ∀ p, (sessionReconcileState (setCursor (advanceEventWatermark p) sequence s)).validate = .ok ()
  snapshot : ∀ (db : Db) daemonId p, db.Keyed → s ∈ db.sessions →
    (∀ t ∈ db.sessions, (sessionReconcileState t).validate = .ok ()) →
    (reconcileSnapshot (db.updateSession s.id (setCursor (advanceEventWatermark p) sequence))
      daemonId).validate = .ok ()

theorem sessionsDistinct_of {seen : List String} {sessions : List SessionReconcileState}
    (hvalid : ∀ s ∈ sessions, s.validate = .ok ()) (hnodup : (sessions.map (·.sessionId)).Nodup)
    (hfresh : ∀ s ∈ sessions, s.sessionId ∉ seen) : sessionsDistinct seen sessions = .ok () := by
  induction sessions generalizing seen with
  | nil => rfl
  | cons s rest ih =>
    rw [List.map_cons,List.nodup_cons] at hnodup
    have hout : seen.contains s.sessionId = false := by simpa using hfresh s (by simp)
    have hrest : sessionsDistinct (s.sessionId::seen) rest = .ok () := by
      refine ih (fun t ht => hvalid t (by simp [ht])) hnodup.2 fun t ht hin => ?_
      rcases List.mem_cons.mp hin with hid | hin
      · exact hnodup.1 (List.mem_map.mpr ⟨t,ht,hid⟩)
      · exact hfresh t (by simp [ht]) hin
    simp only [sessionsDistinct,hvalid s (by simp),hout,hrest]
    rfl

theorem reconcileSnapshot_valid {db : Db} (hk : db.Keyed) (daemonId : String)
    (hvalid : ∀ t ∈ db.sessions, (sessionReconcileState t).validate = .ok ()) :
    (reconcileSnapshot db daemonId).validate = .ok () := by
  have hids : ((reconciliationForDaemon db daemonId).map (·.sessionId)).Nodup := by
    have hmap : (reconciliationForDaemon db daemonId).map (·.sessionId) =
        ((db.sessions.filter fun s => decide (s.daemonId = some daemonId)).insertionSort
          fun a b => a.id ≤ b.id).map (·.id) := by
      simp [reconciliationForDaemon,sessionReconcileState,Function.comp_def]
    rw [hmap,((List.perm_insertionSort _ _).map _).nodup_iff]
    exact hk.sublist (List.filter_sublist.map _)
  have hsessions : sessionsDistinct [] (reconciliationForDaemon db daemonId) = .ok () := by
    refine sessionsDistinct_of (fun r hr => ?_) hids (by simp)
    obtain ⟨t,ht,-,rfl⟩ := mem_reconciliation.mp hr
    exact hvalid t ht
  simp only [reconcileSnapshot,ReconcileSnapshot.validate,schema,ne_eq,not_true_eq_false,if_false,
    hsessions]
  rfl

/-- The next sequence on a list that leaves a gap there is the only one the check admits. -/
theorem GapAdmits.next {s : Session} {sequence : ℕ} (h : GapAdmits s sequence)
    (hgap : s.eventAckThroughSeq+1 ∉ s.eventAckSparse) : sequence = s.eventAckThroughSeq+1 := by
  obtain ⟨habove,expected,hexpected,hle⟩ := h
  obtain ⟨next,hnext,hskip⟩ := Option.bind_eq_some_iff.mp hexpected
  obtain ⟨-,rfl⟩ := checkedSucc_eq_some.mp hnext
  have hstop : skipSparse s.eventAckSparse s.eventAckSparse.length (s.eventAckThroughSeq+1) =
      some (s.eventAckThroughSeq+1) := by
    cases s.eventAckSparse.length with
    | zero => rfl
    | succ fuel =>
      have hout : s.eventAckSparse.contains (s.eventAckThroughSeq+1) = false := by simpa using hgap
      simp only [skipSparse,hout,Bool.false_eq_true,if_false]
  rw [hstop,Option.some.injEq] at hskip
  omega

theorem GapAdmits.bounded {s : Session} {sequence : ℕ} (h : GapAdmits s sequence) :
    s.eventAckThroughSeq < i64Max ∧ sequence ≤ i64Max := by
  obtain ⟨-,expected,hexpected,hle⟩ := h
  obtain ⟨next,hnext,hskip⟩ := Option.bind_eq_some_iff.mp hexpected
  obtain ⟨hlt,rfl⟩ := checkedSucc_eq_some.mp hnext
  exact ⟨hlt,hle.trans (skipSparse_le hlt hskip)⟩

/-- With a gap after the watermark every copy moves to the next sequence and closes the gap. -/
theorem advance_next {through : ℕ} {sparse : List ℕ} (h : ValidSparse through sparse)
    (hgap : through+1 ∉ sparse) (hthrough : through < i64Max) (hrange : ∀ m ∈ sparse, m ≤ i64Max)
    (p : IngestPath) : advanceEventWatermark p through sparse (through+1) =
      closeGap (· + 1) sparse.length (through+1) sparse := by
  have hvalid : ValidSparse (through+1) sparse := by
    refine ⟨fun m hm => ?_,h.ascending⟩
    have hlt := h.above m hm
    have hne : m ≠ through+1 := fun heq => hgap (heq ▸ hm)
    omega
  have hcursor : advanceCursor through sparse (through+1) =
      closeGap (· + 1) sparse.length (through+1) sparse := by
    have hmax : max through (through+1) = through+1 := by omega
    obtain ⟨hafter,-⟩ := closeGap_spec hvalid (le_refl sparse.length)
    simp only [advanceCursor,hmax,closeGap_saturating hvalid (by omega : through+1 ≤ i64Max) hrange]
    refine Prod.ext rfl (List.filter_eq_self.mpr fun m hm => ?_)
    exact decide_eq_true (hafter.above m hm)
  cases p with
  | delivery => exact hcursor
  | readiness => exact hcursor
  | clarification => simp [advanceEventWatermark,advanceProjectionCursor]

theorem CopiesAgree.of_gap {s : Session} {sequence : ℕ}
    (valid : (sessionReconcileState s).validate = .ok ())
    (column : ∀ m ∈ s.eventAckSparse, m ≤ i64Max) (admitted : GapAdmits s sequence)
    (hgap : s.eventAckThroughSeq+1 ∉ s.eventAckSparse) : CopiesAgree s sequence := by
  obtain ⟨hid,hsparse⟩ := SessionReconcileState.validate_iff.mp valid
  change ValidSparse s.eventAckThroughSeq s.eventAckSparse at hsparse
  obtain rfl := admitted.next hgap
  have hnext : ValidSparse (s.eventAckThroughSeq+1) s.eventAckSparse := by
    refine ⟨fun m hm => ?_,hsparse.ascending⟩
    have hlt := hsparse.above m hm
    have hne : m ≠ s.eventAckThroughSeq+1 := fun heq => hgap (heq ▸ hm)
    omega
  have hadvance := advance_next hsparse hgap admitted.bounded.1 column
  obtain ⟨hafter,hcovers⟩ := closeGap_spec hnext (le_refl s.eventAckSparse.length)
  have hvalid : ∀ p, (sessionReconcileState
      (setCursor (advanceEventWatermark p) (s.eventAckThroughSeq+1) s)).validate = .ok () := by
    intro p
    refine SessionReconcileState.validate_iff.mpr ⟨hid,?_⟩
    simp only [sessionReconcileState,setCursor,hadvance p]
    exact hafter
  refine ⟨fun p q => ?_,fun p m => ?_,hvalid,fun db daemonId p hk hs hall => ?_⟩
  · simp only [setCursor,hadvance]
  · simp only [setCursor,hadvance p]
    rw [hcovers]
    by_cases hm : m ∈ s.eventAckSparse
    · simp [Acknowledges,hm]
    · simp only [Acknowledges,hm,or_false]
      omega
  · have hkeyed := keyed_updateSession hk s.id
      (setCursor (advanceEventWatermark p) (s.eventAckThroughSeq+1)) fun _ => rfl
    refine reconcileSnapshot_valid hkeyed daemonId ?_
    intro t ht
    rcases Table.mem_updateFirst ht with ht | ⟨t',hfound,rfl⟩
    · exact hall t ht
    · have hsame : t' = s := by
        have hfind : db.session? s.id = some t' := hfound
        rw [session?_of_mem hk hs] at hfind
        exact (Option.some.inj hfind).symm
      rw [hsame]
      exact hvalid p

/-- The three copies agree, on a valid cursor that acknowledges the new sequence besides the old
ones, exactly when the sparse list leaves a gap after the watermark. -/
theorem watermark_copies_agree (s : Session) (sequence : ℕ)
    (valid : (sessionReconcileState s).validate = .ok ())
    (column : ∀ m ∈ s.eventAckSparse, m ≤ i64Max) (admitted : GapAdmits s sequence) :
    CopiesAgree s sequence ↔ s.eventAckThroughSeq+1 ∉ s.eventAckSparse := by
  refine ⟨fun h hmem => ?_,CopiesAgree.of_gap valid column admitted⟩
  by_cases hnext : sequence = s.eventAckThroughSeq+1
  · -- the clarification copy moves onto the entry and keeps it
    have hvalid := h.valid .clarification
    obtain ⟨-,hsparse⟩ := SessionReconcileState.validate_iff.mp hvalid
    have habove := hsparse.above sequence
    simp only [sessionReconcileState,setCursor,advanceEventWatermark,advanceProjectionCursor,hnext,
      if_true,Nat.not_succ_le_self,if_false] at habove
    obtain ⟨hkept,hmoved⟩ := mem_closeGap s.eventAckSparse.length hmem
      (le_refl (s.eventAckThroughSeq+1))
    have hlt := habove hkept
    omega
  · -- the clarification copy stays below the sequence that the other copies move to
    have hsame := congrArg Session.eventAckThroughSeq (h.same .delivery .clarification)
    have hmoved := le_advanceCursor s.eventAckThroughSeq sequence s.eventAckSparse
      (le_of_lt admitted.bounded.1) admitted.bounded.2
    have hstays : (advanceProjectionCursor s.eventAckThroughSeq s.eventAckSparse sequence).1 =
        s.eventAckThroughSeq := by
      unfold advanceProjectionCursor
      rw [if_neg (not_le.mpr admitted.1),if_neg hnext]
      split_ifs <;> rfl
    change (advanceCursor _ _ _).1 = (advanceProjectionCursor _ _ _).1 at hsame
    have habove := admitted.1
    omega

/-- A row with a gap after the watermark: the next sequence closes it. -/
def gappedSession : Session := { id := "run", eventAckThroughSeq := 4, eventAckSparse := [6,7,9] }

theorem gappedSession_agrees : CopiesAgree gappedSession 5 ∧
    advanceEventWatermark .clarification 4 [6,7,9] 5 = (7,[9]) :=
  ⟨(watermark_copies_agree gappedSession 5 (by decide) (by decide)
    ⟨by decide,5,by decide,by decide⟩).mpr (by decide),by decide⟩

/-- A valid row whose sparse list goes on right after the watermark: the copies part, and the
clarification copy stores a list that the daemon refuses. -/
def adjoiningSession : Session := { id := "run", eventAckThroughSeq := 4, eventAckSparse := [5,6,9] }

theorem adjoiningSession_parts :
    (sessionReconcileState adjoiningSession).validate = .ok () ∧
      expectedSequence adjoiningSession = some 7 ∧
      advanceEventWatermark .delivery 4 [5,6,9] 7 = (7,[9]) ∧
      advanceEventWatermark .clarification 4 [5,6,9] 7 = (4,[5,6,7,9]) ∧
      advanceEventWatermark .clarification 4 [5,6,9] 5 = (6,[5,9]) ∧
      (sessionReconcileState (setCursor (advanceEventWatermark .clarification) 5
        adjoiningSession)).validate ≠ .ok () := by
  decide

end Store
end North
