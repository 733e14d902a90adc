import North.JournalMoves

/-! The stage of a command: where its id stands among the records and the tombstones.
Every move keeps the ids apart and lets no command fall back. -/
namespace North
namespace Journal

open Machine Protocol

inductive Stage
  | absent | received | dispatchStarted | terminal | tombstone
  deriving DecidableEq, Repr

namespace Stage

def rank : Stage → ℕ
  | .absent => 0
  | .received => 1
  | .dispatchStarted => 2
  | .terminal => 3
  | .tombstone => 4

def ofState : CommandJournalState → Stage
  | .received => .received
  | .dispatchStarted => .dispatchStarted
  | .terminal => .terminal

/-- A tombstone says more than a record. -/
def of : Bool → Option CommandRecord → Stage
  | true, _ => .tombstone
  | false, none => .absent
  | false, some r => .ofState r.state

theorem rank_le_tombstone (x : Stage) : x.rank ≤ rank .tombstone := by
  cases x <;> decide

theorem rank_ofState_le (x : CommandJournalState) : (ofState x).rank ≤ rank .terminal := by
  cases x <;> decide

end Stage

namespace CommandView

def stage (v : CommandView) (commandId : String) : Stage :=
  .of (v.tombstones.any fun t => t.commandId == commandId)
    (v.commands.find? fun r => decide (r.commandId = commandId))

/-- Each command id names one record or one tombstone. -/
def DistinctIds (v : CommandView) : Prop :=
  (v.commands.map (·.commandId) ++ v.tombstones.map (·.commandId)).Nodup

variable {v : CommandView}

theorem DistinctIds.commands (h : v.DistinctIds) : (v.commands.map (·.commandId)).Nodup :=
  (List.nodup_append'.mp h).1

theorem stage_of_tombstone {t : CommandTombstone} (ht : t ∈ v.tombstones) :
    v.stage t.commandId = .tombstone := by
  have hany : v.tombstones.any (fun x => x.commandId == t.commandId) = true :=
    List.any_eq_true.mpr ⟨t,ht,by simp⟩
  simp only [stage,hany,Stage.of]

theorem stage_of_mem (h : v.DistinctIds) {r : CommandRecord} (hr : r ∈ v.commands) :
    v.stage r.commandId = .ofState r.state := by
  have hnone : v.tombstones.any (fun t => t.commandId == r.commandId) = false := by
    rw [List.any_eq_false]
    intro t ht hid
    have hdisj := (List.nodup_append'.mp h).2.2
    exact hdisj (List.mem_map_of_mem hr) (List.mem_map.mpr ⟨t,ht,by simpa using hid⟩)
  simp only [stage,hnone,Table.find?_key_of_mem h.commands hr,Stage.of]

theorem update_ids (commandId : String) {f : CommandRecord → CommandRecord}
    (hf : ∀ r, (f r).commandId = r.commandId) (h : v.DistinctIds) :
    (v.update commandId f).DistinctIds := by
  simpa only [DistinctIds,update,Table.map_updateFirst _ f _ hf] using h

theorem find?_update (commandId id : String) {f : CommandRecord → CommandRecord}
    (hf : ∀ r, (f r).commandId = r.commandId) :
    (v.update commandId f).commands.find? (fun r => decide (r.commandId = id)) =
      if id = commandId then
        (v.commands.find? fun r => decide (r.commandId = commandId)).map f
      else v.commands.find? fun r => decide (r.commandId = id) :=
  Table.find?_updateFirst (·.commandId) commandId id f hf v.commands

theorem stage_update (commandId : String) {f : CommandRecord → CommandRecord}
    (hf : ∀ r, (f r).commandId = r.commandId)
    (hup : ∀ r, v.commands.find? (fun x => decide (x.commandId = commandId)) = some r →
      (Stage.ofState r.state).rank ≤ (Stage.ofState (f r).state).rank) (id : String) :
    (v.stage id).rank ≤ ((v.update commandId f).stage id).rank := by
  simp only [stage,find?_update commandId id hf]
  simp only [update]
  cases v.tombstones.any fun t => t.commandId == id with
  | true => exact le_rfl
  | false =>
    by_cases hid : id = commandId
    · subst hid
      cases hfind : v.commands.find? fun x => decide (x.commandId = id) with
      | none => simp [Stage.of]
      | some r => simpa [Stage.of] using hup r hfind
    · simp [hid]

end CommandView

section

variable {J : Handle} {E : Set CommandEnvelope} {v v' : CommandView}

theorem Moves.distinctIds (hmove : Moves J E v v') (h : v.DistinctIds) : v'.DistinctIds := by
  cases hmove with
  | still => exact h
  | @receive e now he hvalid hfree hburied hnew hnew' hseq hroom =>
    have hfresh : e.commandId ∉ v.commands.map (·.commandId) ++ v.tombstones.map (·.commandId) := by
      simp only [List.mem_append,List.mem_map,not_or,not_exists,not_and]
      exact ⟨hnew,hnew'⟩
    have hperm : ((v.commands.map (·.commandId) ++ [e.commandId]) ++
        v.tombstones.map (·.commandId)).Perm (e.commandId::(v.commands.map (·.commandId) ++
          v.tombstones.map (·.commandId))) := by
      rw [List.append_assoc]
      exact List.perm_middle
    simp only [CommandView.DistinctIds,List.map_append,List.map_cons,List.map_nil]
    exact hperm.nodup_iff.mpr (List.nodup_cons.mpr ⟨hfresh,h⟩)
  | start hr hstate hmay => exact CommandView.update_ids _ (fun r => rfl) h
  | finish hr hadvance => exact CommandView.update_ids _ (fun r => rfl) h
  | compact sessionId =>
    -- compaction moves ids from the records to the tombstones
    let q := compactableCommand sessionId (v.processed sessionId)
    have hsplit : ((v.commands.filter fun r => !q r) ++ v.commands.filter q).Perm v.commands :=
      (List.perm_append_comm).trans (List.filter_append_perm q v.commands)
    have hids := hsplit.map (·.commandId)
    simp only [CommandView.DistinctIds,List.map_append,List.map_map]
    refine List.Perm.nodup_iff ?_ |>.mp h
    have hmap : (v.commands.filter q).map ((·.commandId) ∘ commandTombstone) =
        (v.commands.filter q).map (·.commandId) := List.map_congr_left fun r _ => rfl
    rw [hmap]
    refine (hids.symm.append_right _).trans ?_
    rw [List.map_append,List.append_assoc]
    exact List.perm_append_comm.append_left _

theorem Moves.stage_le (hmove : Moves J E v v') (h : v.DistinctIds) (id : String) :
    (v.stage id).rank ≤ (v'.stage id).rank := by
  cases hmove with
  | still => rfl
  | @receive e now he hvalid hfree hburied hnew hnew' hseq hroom =>
    simp only [CommandView.stage]
    cases v.tombstones.any fun t => t.commandId == id with
    | true => exact le_rfl
    | false =>
      cases hx : v.commands.find? fun r => decide (r.commandId = id) with
      | none => exact Nat.zero_le _
      | some r => simp [List.find?_append,hx]
  | @start r now hr hstate hmay =>
    refine CommandView.stage_update r.commandId (f := startRecord now) (fun r => rfl)
      (fun x hfind => ?_) id
    obtain rfl : r = x := Option.some.inj (hr.symm.trans hfind)
    rw [hstate]
    exact Nat.le_succ 1
  | @finish r outcome now fuel cursor hr hadvance =>
    exact CommandView.stage_update r.commandId (f := terminate outcome now) (fun r => rfl)
      (fun x _ => Stage.rank_ofState_le x.state) id
  | compact sessionId =>
    cases hx : v.commands.find? fun r => decide (r.commandId = id) with
    | none =>
      simp only [CommandView.stage,hx,List.any_append]
      cases v.tombstones.any fun t => t.commandId == id with
      | true => exact le_rfl
      | false => exact Nat.zero_le _
    | some r =>
      obtain ⟨hr,rfl⟩ := Table.find?_key hx
      by_cases hc : compactableCommand sessionId (v.processed sessionId) r = true
      · have ht : commandTombstone r ∈ v.tombstones ++ (v.commands.filter
            (compactableCommand sessionId (v.processed sessionId))).map commandTombstone :=
          List.mem_append_right _ (List.mem_map_of_mem (List.mem_filter.mpr ⟨hr,hc⟩))
        have hstage := CommandView.stage_of_tombstone (v := ⟨v.commands.filter fun r =>
          !compactableCommand sessionId (v.processed sessionId) r,_,v.processed⟩) ht
        rw [show r.commandId = (commandTombstone r).commandId from rfl,hstage]
        exact Stage.rank_le_tombstone _
      · rw [CommandView.stage_of_mem h hr,CommandView.stage_of_mem
          (Moves.distinctIds (Moves.compact (J := J) (E := E) sessionId) h)
          (List.mem_filter.mpr ⟨hr,by simpa using hc⟩)]

end

end Journal
end North
