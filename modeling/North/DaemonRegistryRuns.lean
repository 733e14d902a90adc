import North.DaemonRegistry
import Mathlib.Data.List.Nodup
import Mathlib.Data.List.Range

/-! Runs of interleaved setups, connections and revocations. A commit relies only on what
its transaction has locked, so each setup request gives one daemon at most, a network's
quota holds, and a revoked daemon stays without a connection. -/
namespace North
namespace DaemonRegistry

def SetupRow.fixed (r : SetupRow) : SetupRow :=
  { r with createdBy := none, approvedAt := none, claimedAt := none, daemonId := none }

/-- The row is pending for its network, for a clock that has reached its creation. -/
def SetupRow.pendingSince (key : String) (now : Time) (r : SetupRow) : Bool :=
  r.pending key now && decide (r.createdAt ≤ now)

namespace Tables

/-- The setup requests are what cleanups left of those inserted, and each network has its quota. -/
structure Stocked (t : Tables) : Prop where
  serials : t.created.map (·.serial) = List.range t.created.length
  stock : (t.requests.map (·.fixed)).Sublist t.created
  ids : (t.requests.map (·.id)).Nodup
  hashes : (t.requests.map (·.requestTokenHash)).Nodup
  quota : ∀ key now, t.requests.countP (·.pendingSince key now) ≤ daemonSetupPendingLimit

/-- An approved request was approved once, in time, by the user it names. -/
structure Approved (t : Tables) : Prop where
  named : ∀ r ∈ t.requests, ∀ a, r.approvedAt = some a →
    ∃ u, r.createdBy = some u ∧ (⟨r.serial,u,a⟩ : Approval) ∈ t.approvals
  unnamed : ∀ r ∈ t.requests, r.approvedAt = none → ∀ a ∈ t.approvals, a.serial ≠ r.serial
  inTime : ∀ a ∈ t.approvals, ∃ c ∈ t.created, c.serial = a.serial ∧ a.approvedAt < c.expiresAt
  once : (t.approvals.map (·.serial)).Nodup

/-- A daemon comes from one setup request, approved by its owner and claimed in time. -/
structure Registered (t : Tables) : Prop where
  unclaimed : ∀ r ∈ t.requests, r.claimedAt = none → ∀ g ∈ t.registrations, g.request ≠ r.serial
  once : (t.registrations.map (·.request)).Nodup
  origin : ∀ g ∈ t.registrations, ∃ c ∈ t.created, c.serial = g.request ∧ g.createdAt < c.expiresAt ∧
    ∃ a ∈ t.approvals, a.serial = g.request ∧ a.userId = g.createdBy
  daemons : (t.registrations.map (·.daemonId)).Nodup
  revoked : ∀ g ∈ t.registrations, g.revokedAt ≠ none → g.connectionId = none

structure Lineage (t : Tables) : Prop where
  stocked : t.Stocked
  approved : t.Approved
  registered : t.Registered

variable {S : Secrets} {t t' : Tables}

theorem Stocked.created_of_mem (h : t.Stocked) {r : SetupRow} (hr : r ∈ t.requests) :
    ∃ c ∈ t.created, c.serial = r.serial ∧ c.expiresAt = r.expiresAt :=
  ⟨r.fixed,h.stock.subset (List.mem_map_of_mem hr),rfl,rfl⟩

theorem Stocked.serial_lt (h : t.Stocked) {c : SetupRow} (hc : c ∈ t.created) :
    c.serial < t.created.length := by
  have hmem : c.serial ∈ t.created.map (·.serial) := List.mem_map_of_mem hc
  rw [h.serials] at hmem
  exact List.mem_range.mp hmem

theorem Stocked.serial_inj (h : t.Stocked) {r r' : SetupRow} (hr : r ∈ t.requests) (hr' : r' ∈ t.requests)
    (hserial : r.serial = r'.serial) : r = r' := by
  have hnodup : (t.requests.map (·.serial)).Nodup := by
    have hsub : (t.requests.map (·.serial)).Sublist (t.created.map (·.serial)) := by
      have hmap := h.stock.map (·.serial)
      rw [List.map_map] at hmap
      exact hmap
    exact (h.serials ▸ List.nodup_range).sublist hsub
  exact List.inj_on_of_nodup_map hnodup hr hr' hserial

/-- Requests that are deleted or rewritten in their open columns only. -/
structure Reworked (t t' : Tables) : Prop where
  rows : ∃ (p : SetupRow → Bool) (f : SetupRow → SetupRow), t'.requests = (t.requests.filter p).map f ∧
    (∀ r, (f r).fixed = r.fixed) ∧ ∀ r, (f r).claimedAt = none → r.claimedAt = none
  created : t'.created = t.created

theorem fixed_inj {r r' : SetupRow} (h : r.fixed = r'.fixed) : r.serial = r'.serial ∧ r.id = r'.id ∧
    r.requestTokenHash = r'.requestTokenHash ∧ r.clientNetworkKey = r'.clientNetworkKey ∧
    r.createdAt = r'.createdAt ∧ r.expiresAt = r'.expiresAt := by
  simp only [SetupRow.fixed,SetupRow.mk.injEq] at h
  exact ⟨h.1,h.2.1,h.2.2.1,h.2.2.2.2.1,h.2.2.2.2.2.1,h.2.2.2.2.2.2.1⟩

theorem pending_iff {key : String} {now : Time} {r : SetupRow} : r.pending key now = true ↔
    r.clientNetworkKey = key ∧ r.claimedAt = none ∧ now < r.expiresAt := by
  simp [SetupRow.pending,and_assoc]

theorem pendingSince_iff {key : String} {now : Time} {r : SetupRow} : r.pendingSince key now = true ↔
    r.pending key now = true ∧ r.createdAt ≤ now := by
  simp [SetupRow.pendingSince]

theorem Reworked.pending_le (h : Reworked t t') (key : String) (now : Time) :
    t'.requests.countP (·.pending key now) ≤ t.requests.countP (·.pending key now) ∧
    t'.requests.countP (·.pendingSince key now) ≤ t.requests.countP (·.pendingSince key now) := by
  obtain ⟨p,f,hrows,hfixed,hclaimed⟩ := h.rows
  have hpending : ∀ r, (f r).pending key now = true → r.pending key now = true := by
    intro r hr
    rw [pending_iff] at hr ⊢
    obtain ⟨-,-,-,hkey,-,hexpires⟩ := fixed_inj (hfixed r)
    exact ⟨hkey ▸ hr.1,hclaimed r hr.2.1,hexpires ▸ hr.2.2⟩
  rw [hrows,List.countP_map,List.countP_map]
  constructor
  · refine (List.countP_mono_left fun r _ hr => ?_).trans (List.filter_sublist.countP_le)
    exact hpending r hr
  · refine (List.countP_mono_left fun r _ hr => ?_).trans (List.filter_sublist.countP_le)
    have hr' := pendingSince_iff.mp hr
    obtain ⟨-,-,-,-,hcreated,-⟩ := fixed_inj (hfixed r)
    exact pendingSince_iff.mpr ⟨hpending r hr'.1,hcreated ▸ hr'.2⟩

theorem Reworked.stocked (h : Reworked t t') (ht : t.Stocked) : t'.Stocked := by
  obtain ⟨p,f,hrows,hfixed,hclaimed⟩ := h.rows
  have hsub : (t.requests.filter p).Sublist t.requests := List.filter_sublist
  have hmap : ∀ {α : Type} (g : SetupRow → α), (∀ r, g (f r) = g r) →
      (t'.requests.map g).Sublist (t.requests.map g) := by
    intro α g hg
    rw [hrows,List.map_map,show g ∘ f = g from funext hg]
    exact hsub.map g
  refine ⟨h.created ▸ ht.serials,?_,ht.ids.sublist (hmap _ fun r => (fixed_inj (hfixed r)).2.1),
    ht.hashes.sublist (hmap _ fun r => (fixed_inj (hfixed r)).2.2.1),
    fun key now => (h.pending_le key now).2.trans (ht.quota key now)⟩
  rw [h.created]
  exact (hmap _ hfixed).trans ht.stock

/-- Registrations that are rewritten in their columns on the connection and revocation. -/
structure Rewritten (t t' : Tables) (f : Registration → Registration) : Prop where
  rows : t'.registrations = t.registrations.map f
  daemonId : ∀ g, (f g).daemonId = g.daemonId
  request : ∀ g, (f g).request = g.request
  createdBy : ∀ g, (f g).createdBy = g.createdBy
  createdAt : ∀ g, (f g).createdAt = g.createdAt
  revoked : ∀ g ∈ t.registrations, (g.revokedAt ≠ none → g.connectionId = none) →
    (f g).revokedAt ≠ none → (f g).connectionId = none
  requests : t'.requests = t.requests
  created : t'.created = t.created
  approvals : t'.approvals = t.approvals

theorem Rewritten.image {f : Registration → Registration} (h : Rewritten t t' f) {g : Registration}
    (hg : g ∈ t.registrations) : f g ∈ t'.registrations := by
  rw [h.rows]
  exact List.mem_map_of_mem hg

theorem Rewritten.reworked {f : Registration → Registration} (h : Rewritten t t' f) : Reworked t t' where
  rows := ⟨fun _ => true,id,by simp [h.requests],fun _ => rfl,fun _ hr => hr⟩
  created := h.created

theorem Rewritten.registered {f : Registration → Registration} (h : Rewritten t t' f)
    (ht : t.Registered) : t'.Registered := by
  have hmap : ∀ {α : Type} (g : Registration → α), (∀ x, g (f x) = g x) →
      t'.registrations.map g = t.registrations.map g := by
    intro α g hg
    rw [h.rows,List.map_map,show g ∘ f = g from funext hg]
  refine ⟨fun r hr hclaimed g hg => ?_,by rw [hmap _ h.request]; exact ht.once,fun g hg => ?_,
    by rw [hmap _ h.daemonId]; exact ht.daemons,fun g hg => ?_⟩
  · rw [h.rows] at hg
    obtain ⟨x,hx,rfl⟩ := List.mem_map.mp hg
    rw [h.request]
    exact ht.unclaimed r (h.requests ▸ hr) hclaimed x hx
  · rw [h.rows] at hg
    obtain ⟨x,hx,rfl⟩ := List.mem_map.mp hg
    rw [h.request,h.createdBy,h.createdAt,h.created,h.approvals]
    exact ht.origin x hx
  · rw [h.rows] at hg
    obtain ⟨x,hx,rfl⟩ := List.mem_map.mp hg
    exact h.revoked x hx (ht.revoked x hx)

theorem Rewritten.lineage {f : Registration → Registration} (h : Rewritten t t' f) (ht : t.Lineage) :
    t'.Lineage where
  stocked := h.reworked.stocked ht.stocked
  approved :=
    ⟨by rw [h.requests,h.approvals]; exact ht.approved.named,
      by rw [h.requests,h.approvals]; exact ht.approved.unnamed,
      by rw [h.created,h.approvals]; exact ht.approved.inTime,by rw [h.approvals]; exact ht.approved.once⟩
  registered := h.registered ht.registered

/-! ### What a commit does to the tables -/

theorem delete_lineage (ids : List String) (ht : t.Lineage) : (t.delete ids).Lineage := by
  have hreworked : Reworked t (t.delete ids) :=
    ⟨⟨fun r => !ids.contains r.id,id,by simp [delete],fun _ => rfl,fun _ hr => hr⟩,rfl⟩
  have hmem : ∀ r ∈ (t.delete ids).requests, r ∈ t.requests := fun r hr => List.mem_of_mem_filter hr
  exact ⟨hreworked.stocked ht.stocked,
    ⟨fun r hr => ht.approved.named r (hmem r hr),fun r hr => ht.approved.unnamed r (hmem r hr),
      ht.approved.inTime,ht.approved.once⟩,
    ⟨fun r hr => ht.registered.unclaimed r (hmem r hr),ht.registered.once,ht.registered.origin,
      ht.registered.daemons,ht.registered.revoked⟩⟩

theorem admitsRequest_iff {row : SetupRow} (h : t.admitsRequest row = true) :
    ∀ r ∈ t.requests, r.id ≠ row.id ∧ r.requestTokenHash ≠ row.requestTokenHash := by
  simp only [admitsRequest,Bool.and_eq_true,List.all_eq_true,bne_iff_ne] at h
  exact h.2

/-- A new request keeps the quota when its count found room, whatever the clocks are. -/
theorem insert_quota (ht : t.Stocked) (label key : String) (now : Time) (draw : Draw)
    (hroom : t.requests.countP (·.pending key now) < daemonSetupPendingLimit) (key' : String) (now' : Time) :
    (t.insertRequest (t.newRequest S label key now draw)).requests.countP (·.pendingSince key' now') ≤
      daemonSetupPendingLimit := by
  simp only [insertRequest,List.countP_append,List.countP_singleton]
  split_ifs with hnew
  · obtain ⟨hpending,hle⟩ := pendingSince_iff.mp hnew
    obtain ⟨rfl,-,-⟩ := pending_iff.mp hpending
    -- all that are pending at the later time were pending when they were counted
    have hmono : t.requests.countP (·.pendingSince key now') ≤ t.requests.countP (·.pending key now) := by
      refine List.countP_mono_left fun r _ hr => ?_
      obtain ⟨hkey,hclaimed,hexpires⟩ := pending_iff.mp (pendingSince_iff.mp hr).1
      exact pending_iff.mpr ⟨hkey,hclaimed,Int.lt_of_le_of_lt hle hexpires⟩
    exact Nat.succ_le_of_lt (Nat.lt_of_le_of_lt hmono hroom)
  · exact ht.quota key' now'

theorem insert_lineage (ht : t.Lineage) (label key : String) (now : Time) (draw : Draw)
    (hadmits : t.admitsRequest (t.newRequest S label key now draw) = true)
    (hroom : t.requests.countP (·.pending key now) < daemonSetupPendingLimit) :
    (t.insertRequest (t.newRequest S label key now draw)).Lineage := by
  have hfresh := admitsRequest_iff hadmits
  have hserial : ∀ c ∈ t.created, c.serial ≠ t.created.length := fun c hc =>
    Nat.ne_of_lt (ht.stocked.serial_lt hc)
  refine ⟨⟨?_,?_,?_,?_,insert_quota ht.stocked label key now draw hroom⟩,⟨?_,?_,?_,ht.approved.once⟩,
    ⟨?_,ht.registered.once,?_,ht.registered.daemons,ht.registered.revoked⟩⟩
  · simp only [insertRequest,List.map_append,List.map_cons,List.map_nil,List.length_append,
      List.length_singleton,List.range_succ,ht.stocked.serials,newRequest]
  · simp only [insertRequest,List.map_append,List.map_cons,List.map_nil]
    exact ht.stocked.stock.append (List.Sublist.refl _)
  · simp only [insertRequest,List.map_append,List.map_cons,List.map_nil]
    refine List.nodup_append.mpr ⟨ht.stocked.ids,by simp,fun a ha b hb => ?_⟩
    obtain ⟨r,hr,rfl⟩ := List.mem_map.mp ha
    rw [List.mem_singleton.mp hb]
    exact (hfresh r hr).1
  · simp only [insertRequest,List.map_append,List.map_cons,List.map_nil]
    refine List.nodup_append.mpr ⟨ht.stocked.hashes,by simp,fun a ha b hb => ?_⟩
    obtain ⟨r,hr,rfl⟩ := List.mem_map.mp ha
    rw [List.mem_singleton.mp hb]
    exact (hfresh r hr).2
  · intro r hr a ha
    rcases List.mem_append.mp hr with hr | hr
    · exact ht.approved.named r hr a ha
    · rw [List.mem_singleton.mp hr] at ha
      simp [newRequest] at ha
  · intro r hr hnone a ha
    rcases List.mem_append.mp hr with hr | hr
    · exact ht.approved.unnamed r hr hnone a ha
    · rw [List.mem_singleton.mp hr]
      obtain ⟨c,hc,hsame,-⟩ := ht.approved.inTime a ha
      exact hsame ▸ hserial c hc
  · intro a ha
    obtain ⟨c,hc,hsame,htime⟩ := ht.approved.inTime a ha
    exact ⟨c,List.mem_append_left _ hc,hsame,htime⟩
  · intro r hr hnone g hg
    rcases List.mem_append.mp hr with hr | hr
    · exact ht.registered.unclaimed r hr hnone g hg
    · rw [List.mem_singleton.mp hr]
      obtain ⟨c,hc,hsame,-⟩ := ht.registered.origin g hg
      exact hsame ▸ hserial c hc
  · intro g hg
    obtain ⟨c,hc,hrest⟩ := ht.registered.origin g hg
    exact ⟨c,List.mem_append_left _ hc,hrest⟩

theorem approve_reworked (t : Tables) (row : SetupRow) (userId : String) (now : Time) :
    Reworked t (t.approve row userId now) := by
  refine ⟨⟨fun _ => true,_,by simp only [approve,List.filter_true]; rfl,fun r => ?_,fun r hr => ?_⟩,rfl⟩
  · split_ifs <;> rfl
  · split_ifs at hr <;> exact hr

theorem approve_lineage (ht : t.Lineage) {row : SetupRow} (hrow : row ∈ t.requests) {now : Time}
    (htime : now < row.expiresAt) (hnone : row.approvedAt = none) (userId : String) :
    (t.approve row userId now).Lineage := by
  have honly : ∀ r ∈ t.requests, r.id = row.id → r = row :=
    fun r hr hid => List.inj_on_of_nodup_map ht.stocked.ids hr hrow hid
  refine ⟨(approve_reworked t row userId now).stocked ht.stocked,⟨?_,?_,?_,?_⟩,
    ⟨?_,ht.registered.once,?_,ht.registered.daemons,ht.registered.revoked⟩⟩
  · intro r' hr' a ha
    obtain ⟨r,hr,rfl⟩ := List.mem_map.mp hr'
    split_ifs at ha ⊢ with hid
    · obtain rfl := honly r hr hid
      obtain rfl : now = a := Option.some.inj ha
      exact ⟨userId,rfl,List.mem_cons_self⟩
    · obtain ⟨u,hu,hmem⟩ := ht.approved.named r hr a ha
      exact ⟨u,hu,List.mem_cons_of_mem _ hmem⟩
  · intro r' hr' hopen a ha
    obtain ⟨r,hr,rfl⟩ := List.mem_map.mp hr'
    split_ifs at hopen ⊢ with hid
    rcases List.mem_cons.mp ha with rfl | ha
    · exact fun hserial => hid (congrArg SetupRow.id (ht.stocked.serial_inj hr hrow hserial.symm))
    · exact ht.approved.unnamed r hr hopen a ha
  · intro a ha
    rcases List.mem_cons.mp ha with rfl | ha
    · obtain ⟨c,hc,hserial,hexpires⟩ := ht.stocked.created_of_mem hrow
      exact ⟨c,hc,hserial,hexpires ▸ htime⟩
    · exact ht.approved.inTime a ha
  · refine List.nodup_cons.mpr ⟨fun hmem => ?_,ht.approved.once⟩
    obtain ⟨a,ha,hserial⟩ := List.mem_map.mp hmem
    exact ht.approved.unnamed row hrow hnone a ha hserial
  · intro r' hr' hopen g hg
    obtain ⟨r,hr,rfl⟩ := List.mem_map.mp hr'
    have hsame : ∀ b : SetupRow, b = r ∨ (b.claimedAt = r.claimedAt ∧ b.serial = r.serial) →
        b.claimedAt = none → g.request ≠ b.serial := by
      rintro b (rfl | ⟨hclaimed,hserial⟩) hb
      · exact ht.registered.unclaimed b hr hb g hg
      · rw [hserial]
        exact ht.registered.unclaimed r hr (hclaimed ▸ hb) g hg
    refine hsame _ ?_ hopen
    split_ifs
    · exact .inr ⟨rfl,rfl⟩
    · exact .inl rfl
  · intro g hg
    obtain ⟨c,hc,hserial,hcreated,a,ha,hrest⟩ := ht.registered.origin g hg
    exact ⟨c,hc,hserial,hcreated,a,List.mem_cons_of_mem _ ha,hrest⟩

theorem admitsRegistration_iff {g : Registration} (h : t.admitsRegistration g = true) :
    ∀ x ∈ t.registrations, x.daemonId ≠ g.daemonId := by
  simp only [admitsRegistration,Bool.and_eq_true,List.all_eq_true,bne_iff_ne] at h
  exact fun x hx => (h.2 x hx).1

theorem claim_reworked (t : Tables) (row : SetupRow) (g : Registration) : Reworked t (t.claim row g) := by
  refine ⟨⟨fun _ => true,_,by simp only [claim,List.filter_true]; rfl,fun r => ?_,fun r hr => ?_⟩,rfl⟩
  · split_ifs <;> rfl
  · split_ifs at hr
    exact hr

/-- The row of an open claim is approved, unclaimed and in time. -/
structure Claimable (t : Tables) (now : Time) (row : SetupRow) (createdBy : String) : Prop where
  mem : row ∈ t.requests
  unclaimed : row.claimedAt = none
  approved : row.approvedAt ≠ none
  named : row.createdBy = some createdBy
  inTime : now < row.expiresAt

theorem claim_lineage (ht : t.Lineage) {row : SetupRow} {createdBy : String} {now : Time}
    (hrow : t.Claimable now row createdBy) (draw : Draw)
    (hadmits : t.admitsRegistration (newRegistration S row createdBy now draw) = true) :
    (t.claim row (newRegistration S row createdBy now draw)).Lineage := by
  have hfresh := admitsRegistration_iff hadmits
  have honly : ∀ r ∈ t.requests, r.requestTokenHash = row.requestTokenHash → r = row :=
    fun r hr hhash => List.inj_on_of_nodup_map ht.stocked.hashes hr hrow.mem hhash
  have hnew : ∀ x ∈ t.registrations, x.request ≠ row.serial :=
    ht.registered.unclaimed row hrow.mem hrow.unclaimed
  refine ⟨(claim_reworked t row _).stocked ht.stocked,⟨?_,?_,ht.approved.inTime,ht.approved.once⟩,
    ⟨?_,?_,?_,?_,?_⟩⟩
  · intro r' hr' a ha
    obtain ⟨r,hr,rfl⟩ := List.mem_map.mp hr'
    split_ifs at ha ⊢ <;> exact ht.approved.named r hr a ha
  · intro r' hr' hnone a ha
    obtain ⟨r,hr,rfl⟩ := List.mem_map.mp hr'
    split_ifs at hnone ⊢ <;> exact ht.approved.unnamed r hr hnone a ha
  · intro r' hr' hnone g hg
    obtain ⟨r,hr,rfl⟩ := List.mem_map.mp hr'
    split_ifs at hnone ⊢ with hhash
    rcases List.mem_append.mp hg with hg | hg
    · exact ht.registered.unclaimed r hr hnone g hg
    · rw [List.mem_singleton.mp hg]
      intro hserial
      exact hhash (congrArg SetupRow.requestTokenHash (ht.stocked.serial_inj hr hrow.mem hserial.symm))
  · simp only [claim,List.map_append,List.map_cons,List.map_nil]
    refine List.nodup_append.mpr ⟨ht.registered.once,by simp,fun a ha b hb => ?_⟩
    obtain ⟨x,hx,rfl⟩ := List.mem_map.mp ha
    rw [List.mem_singleton.mp hb]
    exact hnew x hx
  · intro g hg
    rcases List.mem_append.mp hg with hg | hg
    · exact ht.registered.origin g hg
    · rw [List.mem_singleton.mp hg]
      obtain ⟨c,hc,hserial,hexpires⟩ := ht.stocked.created_of_mem hrow.mem
      obtain ⟨a,ha⟩ := Option.ne_none_iff_exists'.mp hrow.approved
      obtain ⟨u,hu,hmem⟩ := ht.approved.named row hrow.mem a ha
      obtain rfl : createdBy = u := Option.some.inj (hrow.named.symm.trans hu)
      exact ⟨c,hc,hserial,hexpires ▸ hrow.inTime,_,hmem,rfl,rfl⟩
  · simp only [claim,List.map_append,List.map_cons,List.map_nil]
    refine List.nodup_append.mpr ⟨ht.registered.daemons,by simp,fun a ha b hb => ?_⟩
    obtain ⟨x,hx,rfl⟩ := List.mem_map.mp ha
    rw [List.mem_singleton.mp hb]
    exact hfresh x hx
  · intro g hg hrevoked
    rcases List.mem_append.mp hg with hg | hg
    · exact ht.registered.revoked g hg hrevoked
    · rw [List.mem_singleton.mp hg] at hrevoked
      exact absurd rfl hrevoked

theorem updateDaemon_rewritten (t : Tables) {p : Registration → Bool} {f : Registration → Registration}
    (hf : ∀ g, (f g).daemonId = g.daemonId ∧ (f g).request = g.request ∧ (f g).createdBy = g.createdBy ∧
      (f g).createdAt = g.createdAt)
    (hrevoked : ∀ g ∈ t.registrations, p g = true → (g.revokedAt ≠ none → g.connectionId = none) →
      (f g).revokedAt ≠ none → (f g).connectionId = none) :
    Rewritten t (t.updateDaemon p f) fun g => if p g then f g else g where
  rows := rfl
  daemonId g := by split_ifs; exacts [(hf g).1,rfl]
  request g := by split_ifs; exacts [(hf g).2.1,rfl]
  createdBy g := by split_ifs; exacts [(hf g).2.2.1,rfl]
  createdAt g := by split_ifs; exacts [(hf g).2.2.2,rfl]
  revoked g hg hold := by
    split_ifs with hp
    · exact hrevoked g hg hp hold
    · exact hold
  requests := rfl
  created := rfl
  approvals := rfl

theorem Rewritten.answers {f : Registration → Registration} (h : Rewritten t t' f) (answers : List Answer) :
    Rewritten t { t' with answers } f :=
  ⟨h.rows,h.daemonId,h.request,h.createdBy,h.createdAt,h.revoked,h.requests,h.created,h.approvals⟩

theorem connect_rewritten (t : Tables) (hello : Hello) (connectionId : String) (now : Time) :
    Rewritten t (t.connect hello connectionId now) fun g =>
      if g.daemonId == hello.daemonId && g.revokedAt.isNone then lease hello connectionId now g else g := by
  refine (updateDaemon_rewritten t (f := lease hello connectionId now) (fun _ => ⟨rfl,rfl,rfl,rfl⟩)
    fun g _ hp _ hrevoked => ?_).answers _
  simp only [Bool.and_eq_true,Option.isNone_iff_eq_none] at hp
  exact absurd hp.2 hrevoked

theorem touch_rewritten (t : Tables) (daemonId connectionId : String) (now : Time) :
    Rewritten t (t.touch daemonId connectionId now) fun g =>
      if leased daemonId connectionId g && g.revokedAt.isNone then { g with lastSeenAt := some now } else g := by
  have hupdated := updateDaemon_rewritten t (p := fun g => leased daemonId connectionId g && g.revokedAt.isNone)
    (f := fun g => { g with lastSeenAt := some now }) (fun _ => ⟨rfl,rfl,rfl,rfl⟩) fun _ _ _ hold => hold
  unfold touch
  dsimp only
  split_ifs
  · exact hupdated.answers _
  · exact hupdated

theorem disconnect_rewritten (t : Tables) (daemonId connectionId : String) :
    Rewritten t (t.disconnect daemonId connectionId) fun g =>
      if leased daemonId connectionId g then release g else g :=
  updateDaemon_rewritten t (f := release) (fun _ => ⟨rfl,rfl,rfl,rfl⟩) fun _ _ _ _ _ => rfl

theorem revoke_rewritten (t : Tables) (daemonId : String) (now : Time) :
    Rewritten t (t.revoke daemonId now) fun g => if g.daemonId == daemonId then withdraw now g else g :=
  updateDaemon_rewritten t (f := withdraw now) (fun _ => ⟨rfl,rfl,rfl,rfl⟩) fun _ _ _ _ _ => rfl

end Tables

/-! ### Open transactions -/

/-- What an open transaction has tested still holds. -/
def Txn.Ok (t : Tables) (x : Txn) : Prop :=
  match x.phase with
  | .createCounted _ key => t.requests.countP (·.pending key x.now) < daemonSetupPendingLimit
  | .claimLocked row createdBy => t.Claimable x.now row createdBy
  | .connectLocked hello => ∀ g ∈ t.registrations, g.daemonId = hello.daemonId → g.revokedAt = none
  | _ => True

/-- Two transactions hold no lock in common. -/
structure Txn.Apart (S : Secrets) (x y : Txn) : Prop where
  setup : ∀ id, x.setup? = some id → y.setup? ≠ some id
  daemon : ∀ id, x.daemon? = some id → y.daemon? ≠ some id
  key : ∀ k k', x.key? = some k → y.key? = some k' → S.hashtextextended k ≠ S.hashtextextended k'

structure Inv (S : Secrets) (w : World) : Prop where
  keyed : ∀ x ∈ w.opens, ∀ y ∈ w.opens, x.id = y.id → x = y
  ok : ∀ x ∈ w.opens, x.Ok w.tables
  apart : ∀ x ∈ w.opens, ∀ y ∈ w.opens, x.id ≠ y.id → x.Apart S y
  lineage : w.tables.Lineage

section

variable {S : Secrets} {w w' : World} {t t' : Tables} {o x y : Txn}

theorem Txn.Apart.symm (h : x.Apart S y) : y.Apart S x where
  setup id hy hx := h.setup id hx hy
  daemon id hy hx := h.daemon id hx hy
  key k k' hy hx heq := h.key k' k hx hy heq.symm

theorem mem_others : x ∈ w.others o ↔ x ∈ w.opens ∧ x.id ≠ o.id := by
  simp [World.others]

theorem Txn.Apart.of_free (hsetup : x.setup? = none) (hdaemon : x.daemon? = none) (hkey : x.key? = none)
    (y : Txn) : x.Apart S y where
  setup id h := by simp [hsetup] at h
  daemon id h := by simp [hdaemon] at h
  key k k' h := by simp [hkey] at h

theorem Inv.finish (h : Inv S w) (o : Txn) (ht : t.Lineage) (hok : ∀ x ∈ w.others o, x.Ok t) :
    Inv S (w.finish o t) where
  keyed x hx y hy := h.keyed x (mem_others.mp hx).1 y (mem_others.mp hy).1
  ok := hok
  apart x hx y hy := h.apart x (mem_others.mp hx).1 y (mem_others.mp hy).1
  lineage := ht

theorem Inv.close (h : Inv S w) (o : Txn) : Inv S (w.close o) :=
  h.finish o h.lineage fun x hx => h.ok x (mem_others.mp hx).1

/-- A transaction goes on when it has tested what it relies on and takes no lock of another. -/
theorem Inv.put (h : Inv S w) (hok : o.Ok w.tables) (hapart : ∀ x ∈ w.others o, o.Apart S x) :
    Inv S (w.put o) := by
  refine ⟨fun x hx y hy hid => ?_,fun x hx => ?_,fun x hx y hy hid => ?_,h.lineage⟩
  · rcases List.mem_cons.mp hx with rfl | hx <;> rcases List.mem_cons.mp hy with rfl | hy
    · rfl
    · exact absurd hid.symm (mem_others.mp hy).2
    · exact absurd hid (mem_others.mp hx).2
    · exact h.keyed x (mem_others.mp hx).1 y (mem_others.mp hy).1 hid
  · rcases List.mem_cons.mp hx with rfl | hx
    · exact hok
    · exact h.ok x (mem_others.mp hx).1
  · rcases List.mem_cons.mp hx with rfl | hx <;> rcases List.mem_cons.mp hy with rfl | hy
    · exact absurd rfl hid
    · exact hapart y hy
    · exact (hapart x hx).symm
    · exact h.apart x (mem_others.mp hx).1 y (mem_others.mp hy).1 hid

theorem Inv.start (h : Inv S w) (hfree : ∀ t, o.Ok t) (hsetup : o.setup? = none) (hdaemon : o.daemon? = none)
    (hkey : o.key? = none) (hstart : w.start o = some w') : Inv S w' := by
  unfold World.start at hstart
  split_ifs at hstart with hknown
  obtain rfl := Option.some.inj hstart
  have hnew : ∀ x ∈ w.opens, x.id ≠ o.id := by
    intro x hx hid
    refine hknown (Option.isSome_iff_exists.mpr ?_)
    cases hfind : w.txn? o.id with
    | some y => exact ⟨y,rfl⟩
    | none =>
      have hall := List.find?_eq_none.mp hfind x hx
      simp [hid] at hall
  have hothers : w.others o = w.opens := List.filter_eq_self.mpr fun x hx => by simpa using hnew x hx
  have hput := h.put (hfree w.tables) fun x _ => Txn.Apart.of_free hsetup hdaemon hkey x
  rw [World.put,hothers] at hput
  exact hput

/-- A rewrite of the registrations leaves what another transaction relies on, unless it
revokes the daemon that the other has locked. -/
theorem Txn.Ok.rewritten {f : Registration → Registration} (hx : x.Ok t) (h : Tables.Rewritten t t' f)
    (hlive : ∀ hello, x.phase = .connectLocked hello → ∀ g ∈ t.registrations,
      g.daemonId = hello.daemonId → g.revokedAt = none → (f g).revokedAt = none) : x.Ok t' := by
  unfold Txn.Ok at hx ⊢
  split
  · rename_i hphase
    simp only [hphase,h.requests] at hx ⊢
    exact hx
  · rename_i hphase
    simp only [hphase] at hx
    exact ⟨h.requests ▸ hx.mem,hx.unclaimed,hx.approved,hx.named,hx.inTime⟩
  · rename_i hello hphase
    simp only [hphase] at hx
    intro g hg hid
    rw [h.rows] at hg
    obtain ⟨g',hg',rfl⟩ := List.mem_map.mp hg
    rw [h.daemonId] at hid
    exact hlive hello hphase g' hg' hid (hx g' hg' hid)
  · trivial

/-- A rework of the requests leaves what another transaction relies on, unless it touches
the row that the other has locked. -/
theorem Txn.Ok.reworked (hx : x.Ok t) (h : Tables.Reworked t t')
    (hrow : ∀ row createdBy, x.phase = .claimLocked row createdBy → row ∈ t.requests → row ∈ t'.requests)
    (hnew : ∀ g ∈ t'.registrations, g ∈ t.registrations ∨ g.revokedAt = none) : x.Ok t' := by
  unfold Txn.Ok at hx ⊢
  split
  · rename_i key hphase
    simp only [hphase] at hx
    exact Nat.lt_of_le_of_lt (h.pending_le key x.now).1 hx
  · rename_i row createdBy hphase
    simp only [hphase] at hx
    exact ⟨hrow row createdBy hphase hx.mem,hx.unclaimed,hx.approved,hx.named,hx.inTime⟩
  · rename_i hello hphase
    simp only [hphase] at hx
    intro g hg hid
    exact (hnew g hg).elim (fun hold => hx g hold hid) fun hnone => hnone
  · trivial

/-- A new request leaves what another transaction relies on, unless it has counted the
requests of the same network. -/
theorem Txn.Ok.insert (hx : x.Ok t) (row : SetupRow) (hkey : x.key? ≠ some row.clientNetworkKey) :
    x.Ok (t.insertRequest row) := by
  unfold Txn.Ok at hx ⊢
  split
  · rename_i label key hphase
    simp only [hphase] at hx
    have hother : row.clientNetworkKey ≠ key := fun heq => hkey (by rw [heq]; simp [Txn.key?,hphase])
    have hout : row.pending key x.now = false := by
      rw [← Bool.not_eq_true,Tables.pending_iff]
      exact fun hpending => hother hpending.1
    simpa [Tables.insertRequest,hout] using hx
  · rename_i hphase
    simp only [hphase] at hx
    exact ⟨List.mem_append_left _ hx.mem,hx.unclaimed,hx.approved,hx.named,hx.inTime⟩
  · rename_i hphase
    simp only [hphase] at hx
    exact hx
  · trivial

/-! ### Steps -/

theorem Inv.tables (h : Inv S w) (ht : t.Lineage) (hok : ∀ x ∈ w.opens, x.Ok t) :
    Inv S { w with tables := t } :=
  ⟨h.keyed,hok,h.apart,ht⟩

theorem mem_opens (ho : o ∈ w.opens) (h : Inv S w) (hx : x ∈ w.opens) : x = o ∨ x ∈ w.others o := by
  by_cases hid : x.id = o.id
  · exact .inl (h.keyed x hx o ho hid)
  · exact .inr (mem_others.mpr ⟨hx,hid⟩)

theorem setupLocked_iff {id : String} : w.setupLocked o id = true ↔
    ∃ x ∈ w.others o, x.setup? = some id := by
  simp [World.setupLocked]

theorem daemonLocked_iff {id : String} : w.daemonLocked o id = true ↔
    ∃ x ∈ w.others o, x.daemon? = some id := by
  simp [World.daemonLocked]

theorem setup?_claimLocked {row : SetupRow} {createdBy : String}
    (hphase : x.phase = .claimLocked row createdBy) : x.setup? = some row.id := by
  simp [Txn.setup?,hphase]

theorem daemon?_connectLocked {hello : Hello} (hphase : x.phase = .connectLocked hello) :
    x.daemon? = some hello.daemonId := by
  simp [Txn.daemon?,hphase]

theorem begun_free {next : Job} {phase : Phase} (hbegun : next.begun = some phase) (id : ℕ) (now : Time)
    (t : Tables) : (⟨id,now,phase⟩ : Txn).Ok t ∧ (⟨id,now,phase⟩ : Txn).setup? = none ∧
      (⟨id,now,phase⟩ : Txn).daemon? = none ∧ (⟨id,now,phase⟩ : Txn).key? = none := by
  cases next with
  | cleanup => simp [Job.begun] at hbegun
  | create label key =>
    obtain rfl := Option.some.inj hbegun
    exact ⟨trivial,rfl,rfl,rfl⟩
  | claim token =>
    obtain rfl := Option.some.inj hbegun
    exact ⟨trivial,rfl,rfl,rfl⟩

theorem Inv.cleaned (h : Inv S w) (ho : o ∈ w.opens) {ids : List String} {next : Job} {now : Time}
    (hphase : o.phase = .cleaning ids next) (hstep : w.cleaned o ids next now = some w') : Inv S w' := by
  unfold World.cleaned at hstep
  split_ifs at hstep with hlocked
  have hdeleted : Inv S ⟨w.tables.delete ids,w.opens⟩ := by
    refine h.tables (Tables.delete_lineage ids h.lineage) fun x hx => ?_
    refine (h.ok x hx).reworked ⟨⟨fun r => !ids.contains r.id,id,by simp [Tables.delete],fun _ => rfl,
      fun _ hr => hr⟩,rfl⟩ (fun row createdBy hclaim hrow => ?_) fun g hg => .inl hg
    -- a row that is locked is waited for, so it was not among those deleted
    rcases mem_opens ho h hx with rfl | hother
    · simp [hphase] at hclaim
    · refine List.mem_filter.mpr ⟨hrow,?_⟩
      by_contra hkept
      refine hlocked (List.any_eq_true.mpr ⟨row,hrow,?_⟩)
      simp only [Bool.not_eq_true,Bool.not_eq_false'] at hkept
      rw [hkept,setupLocked_iff.mpr ⟨x,hother,setup?_claimLocked hclaim⟩]
      rfl
  cases hbegun : next.begun with
  | none =>
    obtain rfl : _ = w' := by simpa [hbegun] using hstep
    exact hdeleted.close o
  | some phase =>
    obtain rfl : _ = w' := by simpa [hbegun] using hstep
    obtain ⟨hok,hsetup,hdaemon,hkey⟩ := begun_free hbegun o.id now w.tables
    have hput := hdeleted.put (o := ⟨o.id,now,phase⟩) (begun_free hbegun o.id now _).1
      fun x _ => Txn.Apart.of_free hsetup hdaemon hkey x
    exact hput

/-- The count is taken under the advisory lock of the network, and holds while that is kept. -/
theorem Inv.countPending (h : Inv S w) (ho : o ∈ w.opens) {label key : String}
    (hphase : o.phase = .createLocked label key) : Inv S (w.countPending o label key) := by
  unfold World.countPending
  split_ifs with hfull
  · exact h.close o
  · refine h.put (Nat.not_le.mp hfull) fun x hx => ?_
    have hapart := h.apart o ho x (mem_others.mp hx).1 (mem_others.mp hx).2.symm
    exact ⟨by simp [Txn.setup?],by simp [Txn.daemon?],fun k k' hk hk' =>
      hapart.key k k' (by simpa [Txn.key?,hphase] using hk) hk'⟩

theorem Inv.commitCreate (h : Inv S w) (ho : o ∈ w.opens) {label key : String} (draw : Draw)
    (hphase : o.phase = .createCounted label key) : Inv S (w.commitCreate S o label key draw) := by
  unfold World.commitCreate
  dsimp only
  split_ifs with hadmits
  · have hroom := h.ok o ho
    simp only [Txn.Ok,hphase] at hroom
    refine h.finish o (Tables.insert_lineage h.lineage label key o.now draw hadmits hroom) fun x hx => ?_
    refine (h.ok x (mem_others.mp hx).1).insert _ fun hkey => ?_
    have hapart := h.apart o ho x (mem_others.mp hx).1 (mem_others.mp hx).2.symm
    exact hapart.key key key (by simp [Txn.key?,hphase]) hkey rfl
  · exact h.close o

theorem Inv.lockRequest (h : Inv S w) {token : String}
    (hstep : w.lockRequest S o token = some w') : Inv S w' := by
  unfold World.lockRequest at hstep
  split at hstep
  · obtain rfl := Option.some.inj hstep
    exact h.close o
  · rename_i row hfind
    split_ifs at hstep with hlocked hclaimed hexpired happroved
    · obtain rfl := Option.some.inj hstep
      exact h.close o
    · obtain rfl := Option.some.inj hstep
      exact h.close o
    · obtain rfl := Option.some.inj hstep
      exact h.close o
    · split at hstep
      · obtain rfl := Option.some.inj hstep
        exact h.close o
      · rename_i createdBy hcreatedBy
        obtain rfl := Option.some.inj hstep
        refine h.put ⟨List.mem_of_find?_eq_some hfind,by simpa using hclaimed,by simpa using happroved,
          hcreatedBy,Int.not_le.mp hexpired⟩ fun x hx => ?_
        refine ⟨fun id hid hx' => ?_,by simp [Txn.daemon?],by simp [Txn.key?]⟩
        obtain rfl : row.id = id := by simpa [Txn.setup?] using hid
        exact hlocked (setupLocked_iff.mpr ⟨x,hx,hx'⟩)

theorem Inv.commitClaim (h : Inv S w) (ho : o ∈ w.opens) {row : SetupRow} {createdBy : String} (draw : Draw)
    (hphase : o.phase = .claimLocked row createdBy) : Inv S (w.commitClaim S o row createdBy draw) := by
  unfold World.commitClaim
  dsimp only
  split_ifs with hadmits
  · have hclaimable := h.ok o ho
    simp only [Txn.Ok,hphase] at hclaimable
    refine h.finish o (Tables.claim_lineage h.lineage hclaimable draw hadmits) fun x hx => ?_
    refine (h.ok x (mem_others.mp hx).1).reworked (Tables.claim_reworked _ _ _)
      (fun row' createdBy' hclaim hrow => ?_) fun g hg => ?_
    · -- the row of another claim is another row
      have hapart := h.apart o ho x (mem_others.mp hx).1 (mem_others.mp hx).2.symm
      have hother : row'.requestTokenHash ≠ row.requestTokenHash := by
        intro hhash
        obtain rfl := List.inj_on_of_nodup_map h.lineage.stocked.hashes hrow hclaimable.mem hhash
        exact hapart.setup row'.id (setup?_claimLocked hphase) (setup?_claimLocked hclaim)
      exact List.mem_map.mpr ⟨row',hrow,if_neg hother⟩
    · rcases List.mem_append.mp hg with hg | hg
      · exact .inl hg
      · rw [List.mem_singleton.mp hg]
        exact .inr rfl
  · exact h.close o

theorem Inv.lockDaemon (h : Inv S w) {daemonId : String} {test : Registration → Bool} {phase : Phase}
    (hok : ∀ g ∈ w.tables.registrations, g.daemonId = daemonId → test g = true →
      ({ o with phase } : Txn).Ok w.tables)
    (hsetup : ({ o with phase } : Txn).setup? = none) (hkey : ({ o with phase } : Txn).key? = none)
    (hdaemon : ({ o with phase } : Txn).daemon? = some daemonId)
    (hstep : w.lockDaemon o daemonId test phase = some w') : Inv S w' := by
  unfold World.lockDaemon at hstep
  split at hstep
  · obtain rfl := Option.some.inj hstep
    exact h.close o
  · rename_i g hfind
    split_ifs at hstep with hlocked htest
    · obtain rfl := Option.some.inj hstep
      have hid : g.daemonId = daemonId := by simpa using List.find?_some hfind
      refine h.put (hok g (List.mem_of_find?_eq_some hfind) hid htest) fun x hx => ?_
      refine ⟨by simp [hsetup],fun id hid' hx' => ?_,by simp [hkey]⟩
      obtain rfl : daemonId = id := Option.some.inj (hdaemon.symm.trans hid')
      exact hlocked (daemonLocked_iff.mpr ⟨x,hx,hx'⟩)
    · obtain rfl := Option.some.inj hstep
      exact h.close o

theorem Inv.commitConnect (h : Inv S w) {hello : Hello} (connectionId : String) :
    Inv S (w.commitConnect o hello connectionId) := by
  unfold World.commitConnect
  split_ifs
  · have hrewritten := Tables.connect_rewritten w.tables hello connectionId o.now
    refine h.finish o (hrewritten.lineage h.lineage) fun x hx => ?_
    refine (h.ok x (mem_others.mp hx).1).rewritten hrewritten fun _ _ g _ _ hnone => ?_
    split_ifs <;> exact hnone
  · exact h.close o

theorem Inv.commitRevoke (h : Inv S w) (ho : o ∈ w.opens) {daemonId : String}
    (hphase : o.phase = .revokeLocked daemonId) :
    Inv S (w.finish o (w.tables.revoke daemonId o.now)) := by
  have hrewritten := Tables.revoke_rewritten w.tables daemonId o.now
  refine h.finish o (hrewritten.lineage h.lineage) fun x hx => ?_
  refine (h.ok x (mem_others.mp hx).1).rewritten hrewritten fun hello hconnect g _ hid hnone => ?_
  have hapart := h.apart o ho x (mem_others.mp hx).1 (mem_others.mp hx).2.symm
  have hother : g.daemonId ≠ daemonId := by
    intro hsame
    refine hapart.daemon daemonId (by simp [Txn.daemon?,hphase]) ?_
    rw [daemon?_connectLocked hconnect,← hid,hsame]
  simpa [hother] using hnone

theorem Inv.advance (h : Inv S w) (ho : o ∈ w.opens) {now : Time} {draw : Draw}
    (hstep : w.advance S o now draw = some w') : Inv S w' := by
  unfold World.advance at hstep
  split at hstep
  · rename_i ids next hphase
    exact h.cleaned ho hphase hstep
  · rename_i label key hphase
    split_ifs at hstep with hlocked
    obtain rfl := Option.some.inj hstep
    refine h.put trivial fun x hx => ⟨by simp [Txn.setup?],by simp [Txn.daemon?],fun k k' hk hk' heq => ?_⟩
    obtain rfl : key = k := by simpa [Txn.key?] using hk
    refine hlocked (List.any_eq_true.mpr ⟨x,hx,?_⟩)
    rw [hk']
    simpa using heq.symm
  · rename_i label key hphase
    obtain rfl := Option.some.inj hstep
    exact h.countPending ho hphase
  · rename_i label key hphase
    obtain rfl := Option.some.inj hstep
    exact h.commitCreate ho draw hphase
  · exact h.lockRequest hstep
  · rename_i row createdBy hphase
    obtain rfl := Option.some.inj hstep
    exact h.commitClaim ho draw hphase
  · rename_i hello hphase
    refine h.lockDaemon (fun g hg hid htest => ?_) rfl rfl rfl hstep
    -- the daemon's own row is the only one with its id
    intro g' hg' hid'
    obtain rfl := List.inj_on_of_nodup_map h.lineage.registered.daemons hg hg' (hid.trans hid'.symm)
    simp only [Bool.and_eq_true,Option.isNone_iff_eq_none] at htest
    exact htest.1
  · rename_i hello hphase
    obtain rfl := Option.some.inj hstep
    exact h.commitConnect draw.id
  · rename_i daemonId hphase
    have hok : ({ o with phase := .revokeLocked daemonId } : Txn).Ok w.tables := trivial
    exact h.lockDaemon (fun _ _ _ _ => hok) rfl rfl rfl hstep
  · rename_i daemonId hphase
    obtain rfl := Option.some.inj hstep
    exact h.commitRevoke ho hphase

theorem Inv.approve (h : Inv S w) {token userId : String} {now : Time}
    (hstep : w.approve S token userId now = some w') : Inv S w' := by
  unfold World.approve at hstep
  split at hstep
  · obtain rfl := Option.some.inj hstep
    exact h
  · rename_i row hfind
    split_ifs at hstep with hlocked huser
    · obtain rfl := Option.some.inj hstep
      have hmem := List.mem_of_find?_eq_some hfind
      have hrow := List.find?_some hfind
      simp only [Bool.and_eq_true,beq_iff_eq,decide_eq_true_eq,Option.isNone_iff_eq_none] at hrow
      obtain ⟨⟨⟨-,htime⟩,hnone⟩,-⟩ := hrow
      refine h.tables (Tables.approve_lineage h.lineage hmem htime hnone userId) fun x hx => ?_
      refine (h.ok x hx).reworked (Tables.approve_reworked _ _ _ _) (fun row' createdBy' hclaim hrow' => ?_)
        fun g hg => .inl hg
      have hother : row'.id ≠ row.id := by
        intro hid
        refine hlocked (List.any_eq_true.mpr ⟨x,hx,?_⟩)
        rw [setup?_claimLocked hclaim,hid]
        exact beq_self_eq_true _
      exact List.mem_map.mpr ⟨row',hrow',if_neg hother⟩
    · obtain rfl := Option.some.inj hstep
      exact h

theorem Inv.step (h : Inv S w) {act : Act} (hstep : w.step S act = some w') : Inv S w' := by
  cases act with
  | start txn now job =>
    have hfree : ∀ ids next, w.start ⟨txn,now,.cleaning ids next⟩ = some w' → Inv S w' := by
      intro ids next hstart
      have hok : ∀ t, (⟨txn,now,.cleaning ids next⟩ : Txn).Ok t := fun _ => trivial
      exact h.start hok rfl rfl rfl hstart
    simp only [World.step,World.startJob] at hstep
    split at hstep
    · split_ifs at hstep
      exact hfree _ _ hstep
    · exact hfree _ _ hstep
  | connect txn now hello =>
    have hok : ∀ t, (⟨txn,now,.connectBegun hello⟩ : Txn).Ok t := fun _ => trivial
    exact h.start hok rfl rfl rfl hstep
  | revoke txn now daemonId =>
    have hok : ∀ t, (⟨txn,now,.revokeBegun daemonId⟩ : Txn).Ok t := fun _ => trivial
    exact h.start hok rfl rfl rfl hstep
  | advance txn now draw =>
    obtain ⟨o,hfind,hadvance⟩ := Option.bind_eq_some_iff.mp hstep
    exact h.advance (List.mem_of_find?_eq_some hfind) hadvance
  | rollback txn =>
    obtain ⟨o,hfind,rfl⟩ := Option.map_eq_some_iff.mp hstep
    exact h.close o
  | approve token userId now => exact h.approve hstep
  | touch daemonId connectionId now =>
    simp only [World.step] at hstep
    split_ifs at hstep
    obtain rfl := Option.some.inj hstep
    have hrewritten := Tables.touch_rewritten w.tables daemonId connectionId now
    refine h.tables (hrewritten.lineage h.lineage) fun x hx => ?_
    refine (h.ok x hx).rewritten hrewritten fun _ _ g _ _ hnone => ?_
    split_ifs <;> exact hnone
  | disconnect daemonId connectionId =>
    simp only [World.step] at hstep
    split_ifs at hstep
    obtain rfl := Option.some.inj hstep
    have hrewritten := Tables.disconnect_rewritten w.tables daemonId connectionId
    refine h.tables (hrewritten.lineage h.lineage) fun x hx => ?_
    refine (h.ok x hx).rewritten hrewritten fun _ _ g _ _ hnone => ?_
    split_ifs <;> exact hnone

/-! ### Connections -/

def World.Commits (w : World) (act : Act) (draw : Draw) (o : Txn) : Prop :=
  ∃ txn now, act = .advance txn now draw ∧ w.txn? txn = some o

/-- What a step does to the registrations and to the answers given. -/
inductive Turn (w : World) (act : Act) (t : Tables) : Prop
  | same (hrows : t.registrations = w.tables.registrations) (hanswers : t.answers = w.tables.answers)
  | registered (g : Registration) (hrows : t.registrations = w.tables.registrations ++ [g])
      (hanswers : t.answers = w.tables.answers)
  | connected (hello : Hello) (draw : Draw) (o : Txn) (hcommits : w.Commits act draw o)
      (hphase : o.phase = .connectLocked hello)
      (hlive : ∀ g ∈ w.tables.registrations, g.daemonId = hello.daemonId → g.revokedAt = none)
      (heq : t = w.tables.connect hello draw.id o.now)
  | touched (daemonId connectionId : String) (now : Time) (heq : t = w.tables.touch daemonId connectionId now)
  | disconnected (daemonId connectionId : String) (hact : act = .disconnect daemonId connectionId)
      (heq : t = w.tables.disconnect daemonId connectionId)
  | revoked (daemonId : String) (draw : Draw) (o : Txn) (hcommits : w.Commits act draw o)
      (hphase : o.phase = .revokeLocked daemonId) (heq : t = w.tables.revoke daemonId o.now)

theorem turn_close {act : Act} (o : Txn) : Turn w act (w.close o).tables := .same rfl rfl

theorem turn_start {act : Act} (hstart : w.start o = some w') : Turn w act w'.tables := by
  unfold World.start at hstart
  split_ifs at hstart
  obtain rfl := Option.some.inj hstart
  exact .same rfl rfl

theorem turn_lockDaemon {act : Act} {daemonId : String} {test : Registration → Bool} {phase : Phase}
    (hstep : w.lockDaemon o daemonId test phase = some w') : Turn w act w'.tables := by
  unfold World.lockDaemon at hstep
  split at hstep
  · obtain rfl := Option.some.inj hstep
    exact turn_close o
  · split_ifs at hstep
    · obtain rfl := Option.some.inj hstep
      exact .same rfl rfl
    · obtain rfl := Option.some.inj hstep
      exact turn_close o

theorem turn_lockRequest {act : Act} {token : String} (hstep : w.lockRequest S o token = some w') :
    Turn w act w'.tables := by
  have hclose : some (w.close o) = some w' → Turn w act w'.tables := by
    rintro hclosed
    obtain rfl := Option.some.inj hclosed
    exact turn_close o
  unfold World.lockRequest at hstep
  split at hstep
  · exact hclose hstep
  · split_ifs at hstep
    · exact hclose hstep
    · exact hclose hstep
    · exact hclose hstep
    · split at hstep
      · exact hclose hstep
      · obtain rfl := Option.some.inj hstep
        exact .same rfl rfl

theorem turn_cleaned {act : Act} {ids : List String} {next : Job} {now : Time}
    (hstep : w.cleaned o ids next now = some w') : Turn w act w'.tables := by
  unfold World.cleaned at hstep
  split_ifs at hstep
  cases hbegun : next.begun with
  | none =>
    obtain rfl : _ = w' := by simpa [hbegun] using hstep
    exact .same rfl rfl
  | some phase =>
    obtain rfl : _ = w' := by simpa [hbegun] using hstep
    exact .same rfl rfl

theorem turn_advance (h : Inv S w) (ho : o ∈ w.opens) {act : Act} {now : Time} {draw : Draw}
    (hcommits : w.Commits act draw o) (hstep : w.advance S o now draw = some w') : Turn w act w'.tables := by
  unfold World.advance at hstep
  split at hstep
  · exact turn_cleaned hstep
  · split_ifs at hstep
    obtain rfl := Option.some.inj hstep
    exact .same rfl rfl
  · obtain rfl := Option.some.inj hstep
    unfold World.countPending
    split_ifs <;> exact .same rfl rfl
  · obtain rfl := Option.some.inj hstep
    unfold World.commitCreate
    dsimp only
    split_ifs <;> exact .same rfl rfl
  · exact turn_lockRequest hstep
  · obtain rfl := Option.some.inj hstep
    unfold World.commitClaim
    dsimp only
    split_ifs
    · exact .registered _ rfl rfl
    · exact turn_close o
  · exact turn_lockDaemon hstep
  · rename_i hello hphase
    obtain rfl := Option.some.inj hstep
    have hlive := h.ok o ho
    simp only [Txn.Ok,hphase] at hlive
    unfold World.commitConnect
    split_ifs
    · exact .connected hello draw o hcommits hphase hlive rfl
    · exact turn_close o
  · exact turn_lockDaemon hstep
  · rename_i daemonId hphase
    obtain rfl := Option.some.inj hstep
    exact .revoked daemonId draw o hcommits hphase rfl

theorem turn_step (h : Inv S w) {act : Act} (hstep : w.step S act = some w') : Turn w act w'.tables := by
  cases act with
  | start txn now job =>
    simp only [World.step,World.startJob] at hstep
    split at hstep
    · split_ifs at hstep
      exact turn_start hstep
    · exact turn_start hstep
  | connect txn now hello => exact turn_start hstep
  | revoke txn now daemonId => exact turn_start hstep
  | advance txn now draw =>
    obtain ⟨o,hfind,hadvance⟩ := Option.bind_eq_some_iff.mp hstep
    exact turn_advance h (List.mem_of_find?_eq_some hfind) ⟨txn,now,rfl,hfind⟩ hadvance
  | rollback txn =>
    obtain ⟨o,hfind,rfl⟩ := Option.map_eq_some_iff.mp hstep
    exact turn_close o
  | approve token userId now =>
    simp only [World.step,World.approve] at hstep
    split at hstep
    · obtain rfl := Option.some.inj hstep
      exact .same rfl rfl
    · split_ifs at hstep <;> obtain rfl := Option.some.inj hstep <;> exact .same rfl rfl
  | touch daemonId connectionId now =>
    simp only [World.step] at hstep
    split_ifs at hstep
    obtain rfl := Option.some.inj hstep
    exact .touched daemonId connectionId now rfl
  | disconnect daemonId connectionId =>
    simp only [World.step] at hstep
    split_ifs at hstep
    obtain rfl := Option.some.inj hstep
    exact .disconnected daemonId connectionId rfl rfl

/-- Why a daemon no longer holds a connection after a step. -/
inductive Clears (w w' : World) (act : Act) (daemonId connectionId : String) : Prop
  | disconnected (hact : act = .disconnect daemonId connectionId)
  | superseded (hello : Hello) (draw : Draw) (o : Txn) (hcommits : w.Commits act draw o)
      (hphase : o.phase = .connectLocked hello) (hdaemon : hello.daemonId = daemonId)
      (hheld : ∃ g ∈ w'.tables.registrations, g.daemonId = daemonId ∧ g.connectionId = some draw.id)
  | revoked (draw : Draw) (o : Txn) (hcommits : w.Commits act draw o)
      (hphase : o.phase = .revokeLocked daemonId)
      (hrevoked : ∃ g ∈ w'.tables.registrations, g.daemonId = daemonId ∧ g.revokedAt ≠ none)

theorem Turn.keeps {act : Act} (hturn : Turn w act w'.tables) {g : Registration}
    (hg : g ∈ w.tables.registrations) {connectionId : String} (hheld : g.connectionId = some connectionId) :
    (∃ g' ∈ w'.tables.registrations, g'.daemonId = g.daemonId ∧ g'.connectionId = some connectionId) ∨
      Clears w w' act g.daemonId connectionId := by
  cases hturn with
  | same hrows => exact .inl ⟨g,hrows ▸ hg,rfl,hheld⟩
  | registered g' hrows => exact .inl ⟨g,hrows ▸ List.mem_append_left _ hg,rfl,hheld⟩
  | connected hello draw o hcommits hphase hlive heq =>
    have hmem := (Tables.connect_rewritten w.tables hello draw.id o.now).image hg
    rw [← heq] at hmem
    by_cases hid : g.daemonId = hello.daemonId
    · refine .inr (.superseded hello draw o hcommits hphase hid.symm ⟨_,hmem,?_⟩)
      simp [hid,hlive g hg hid,Tables.lease]
    · refine .inl ⟨_,hmem,?_⟩
      simp [hid,hheld]
  | touched daemonId connectionId' now heq =>
    have hmem := (Tables.touch_rewritten w.tables daemonId connectionId' now).image hg
    rw [← heq] at hmem
    refine .inl ⟨_,hmem,?_⟩
    split_ifs <;> exact ⟨rfl,hheld⟩
  | disconnected daemonId connectionId' hact heq =>
    by_cases hleased : Tables.leased daemonId connectionId' g = true
    · simp only [Tables.leased,Bool.and_eq_true,beq_iff_eq,hheld,Option.some.injEq] at hleased
      obtain ⟨rfl,rfl⟩ := hleased
      exact .inr (.disconnected hact)
    · have hmem := (Tables.disconnect_rewritten w.tables daemonId connectionId').image hg
      rw [← heq] at hmem
      refine .inl ⟨_,hmem,?_⟩
      simp [hleased,hheld]
  | revoked daemonId draw o hcommits hphase heq =>
    have hmem := (Tables.revoke_rewritten w.tables daemonId o.now).image hg
    rw [← heq] at hmem
    by_cases hid : g.daemonId = daemonId
    · subst hid
      refine .inr (.revoked draw o hcommits hphase ⟨_,hmem,?_⟩)
      simp [Tables.withdraw,Tables.release]
    · refine .inl ⟨_,hmem,?_⟩
      simp [hid,hheld]

/-- The daemon was revoked at this time, and these are its answers so far. -/
structure Revoked (daemonId : String) (revokedAt : Time) (answers : List Answer) (t : Tables) : Prop where
  row : ∃ g ∈ t.registrations, g.daemonId = daemonId ∧ g.revokedAt = some revokedAt
  silent : t.answers.filter (fun a => decide (a.daemonId = daemonId)) = answers

/-- A revoked daemon stays revoked, and gets no answer any more. -/
theorem Revoked.turn (h : Inv S w) {daemonId : String} {revokedAt : Time} {answers : List Answer}
    (hrevoked : Revoked daemonId revokedAt answers w.tables) {act : Act} (hturn : Turn w act w'.tables) :
    Revoked daemonId revokedAt answers w'.tables := by
  obtain ⟨⟨g,hg,hid,hat⟩,hsilent⟩ := hrevoked
  cases hturn with
  | same hrows hanswers => exact ⟨⟨g,hrows ▸ hg,hid,hat⟩,hanswers ▸ hsilent⟩
  | registered g' hrows hanswers =>
    exact ⟨⟨g,hrows ▸ List.mem_append_left _ hg,hid,hat⟩,hanswers ▸ hsilent⟩
  | connected hello draw o hcommits hphase hlive heq =>
    have hother : hello.daemonId ≠ daemonId := by
      intro hsame
      simp [hlive g hg (hid.trans hsame.symm)] at hat
    have hmem := (Tables.connect_rewritten w.tables hello draw.id o.now).image hg
    rw [← heq] at hmem
    refine ⟨⟨_,hmem,?_⟩,?_⟩
    · simp [hat,hid]
    · rw [heq]
      simpa [Tables.connect,Tables.updateDaemon,Answer.daemonId,hother] using hsilent
  | touched daemonId' connectionId now heq =>
    have hmem := (Tables.touch_rewritten w.tables daemonId' connectionId now).image hg
    rw [← heq] at hmem
    refine ⟨⟨_,hmem,by simp [hat,hid]⟩,?_⟩
    rw [heq]
    unfold Tables.touch
    dsimp only
    split_ifs with hcount
    · -- the row that was touched is live, so it is not the one of this daemon
      have hother : daemonId' ≠ daemonId := by
        rintro rfl
        obtain ⟨x,hx,hp⟩ := List.countP_pos_iff.mp (hcount ▸ Nat.one_pos)
        simp only [Tables.leased,Bool.and_eq_true,beq_iff_eq,Option.isNone_iff_eq_none] at hp
        obtain rfl := List.inj_on_of_nodup_map h.lineage.registered.daemons hx hg (hp.1.1.trans hid.symm)
        simp [hp.2] at hat
      simpa [Tables.updateDaemon,Answer.daemonId,hother] using hsilent
    · exact hsilent
  | disconnected daemonId' connectionId hact heq =>
    have hmem := (Tables.disconnect_rewritten w.tables daemonId' connectionId).image hg
    rw [← heq] at hmem
    refine ⟨⟨_,hmem,?_⟩,heq ▸ hsilent⟩
    split_ifs <;> exact ⟨hid,hat⟩
  | revoked daemonId' draw o hcommits hphase heq =>
    have hmem := (Tables.revoke_rewritten w.tables daemonId' o.now).image hg
    rw [← heq] at hmem
    refine ⟨⟨_,hmem,?_⟩,heq ▸ hsilent⟩
    split_ifs
    · exact ⟨hid,by simp [Tables.withdraw,hat]⟩
    · exact ⟨hid,hat⟩

theorem inv_init (S : Secrets) (users : List String) : Inv S { tables := { users } } where
  keyed := by simp
  ok := by simp
  apart := by simp
  lineage :=
    ⟨⟨by simp,by simp,by simp,by simp,by simp⟩,⟨by simp,by simp,by simp,by simp⟩,
      ⟨by simp,by simp,by simp,by simp,by simp⟩⟩

theorem run_inv (h : Inv S w) {acts : List Act} (hrun : w.run S acts = some w') : Inv S w' :=
  Steps.run_invariant (fun _ _ _ hs hstep => hs.step hstep) h hrun

theorem Revoked.run (h : Inv S w) {daemonId : String} {revokedAt : Time} {answers : List Answer}
    (hrevoked : Revoked daemonId revokedAt answers w.tables) {acts : List Act}
    (hrun : w.run S acts = some w') : Revoked daemonId revokedAt answers w'.tables := by
  have hboth : Inv S w' ∧ Revoked daemonId revokedAt answers w'.tables :=
    Steps.run_invariant (P := fun w => Inv S w ∧ Revoked daemonId revokedAt answers w.tables)
      (fun _ _ _ hs hstep => ⟨hs.1.step hstep,hs.2.turn hs.1 (turn_step hs.1 hstep)⟩) ⟨h,hrevoked⟩ hrun
  exact hboth.2

theorem Tables.Lineage.approval (ht : t.Lineage) {g : Registration} (hg : g ∈ t.registrations) :
    ∃ r ∈ t.created, r.serial = g.request ∧ g.createdAt < r.expiresAt ∧
      ∃ a ∈ t.approvals, a.serial = g.request ∧ a.userId = g.createdBy ∧ a.approvedAt < r.expiresAt ∧
        ∀ a' ∈ t.approvals, a'.serial = g.request → a' = a := by
  obtain ⟨r,hr,hserial,hcreated,a,ha,hrequest,huser⟩ := ht.registered.origin g hg
  obtain ⟨c,hc,hserial',htime⟩ := ht.approved.inTime a ha
  have hserials : (t.created.map (·.serial)).Nodup := ht.stocked.serials ▸ List.nodup_range
  obtain rfl := List.inj_on_of_nodup_map hserials hr hc (by rw [hserial,hserial',hrequest])
  refine ⟨r,hr,hserial,hcreated,a,ha,hrequest,huser,htime,fun a' ha' hsame => ?_⟩
  exact List.inj_on_of_nodup_map ht.approved.once ha' ha (hsame.trans hrequest.symm)

/-- After any interleaving of setups, connections, touches, disconnects and revocations,
with any clock readings: a setup request has given one registration at most, to the user
who alone approved it, and was approved and claimed before it expired; at any time each
network has at most three unclaimed and unexpired requests among those created by then;
a next step clears a connection only by its own disconnect, a newer connect or a
revocation; and a revoked daemon holds no connection in any later state, nor is any later
connect or touch of it answered with success. -/
theorem daemon_registration_lifecycle (S : Secrets) (users : List String) (acts : List Act) (w : World)
    (hrun : World.run S { tables := { users } } acts = some w) :
    ((w.tables.created.map (·.serial)).Nodup ∧ (w.tables.registrations.map (·.request)).Nodup ∧
      ∀ g ∈ w.tables.registrations, ∃ r ∈ w.tables.created, r.serial = g.request ∧
        g.createdAt < r.expiresAt ∧ ∃ a ∈ w.tables.approvals, a.serial = g.request ∧
          a.userId = g.createdBy ∧ a.approvedAt < r.expiresAt ∧
          ∀ a' ∈ w.tables.approvals, a'.serial = g.request → a' = a) ∧
    (∀ key now, w.tables.requests.countP (fun r => r.pending key now && decide (r.createdAt ≤ now)) ≤
      daemonSetupPendingLimit) ∧
    (∀ act w', w.step S act = some w' → ∀ g ∈ w.tables.registrations, ∀ connectionId,
      g.connectionId = some connectionId →
        (∃ g' ∈ w'.tables.registrations, g'.daemonId = g.daemonId ∧
          g'.connectionId = some connectionId) ∨
        Clears w w' act g.daemonId connectionId) ∧
    ∀ g ∈ w.tables.registrations, g.revokedAt ≠ none → ∀ more w', w.run S more = some w' →
      (∀ g' ∈ w'.tables.registrations, g'.daemonId = g.daemonId → g'.connectionId = none) ∧
      w'.tables.answers.filter (fun a => decide (a.daemonId = g.daemonId)) =
        w.tables.answers.filter fun a => decide (a.daemonId = g.daemonId) := by
  have h := run_inv (inv_init S users) hrun
  refine ⟨⟨h.lineage.stocked.serials ▸ List.nodup_range,h.lineage.registered.once,
    fun g hg => h.lineage.approval hg⟩,h.lineage.stocked.quota,fun act w' hstep g hg id hheld =>
      (turn_step h hstep).keeps hg hheld,fun g hg hrevoked more w' hmore => ?_⟩
  obtain ⟨revokedAt,hat⟩ := Option.ne_none_iff_exists'.mp hrevoked
  have h' := run_inv h hmore
  have hlater := Revoked.run h ⟨⟨g,hg,rfl,hat⟩,rfl⟩ hmore
  obtain ⟨x,hx,hid,hxat⟩ := hlater.row
  refine ⟨fun g' hg' hid' => ?_,hlater.silent⟩
  obtain rfl := List.inj_on_of_nodup_map h'.lineage.registered.daemons hg' hx (hid'.trans hid.symm)
  exact h'.lineage.registered.revoked g' hg' (by rw [hxat]; simp)

end

def plainSecrets : Secrets := ⟨id,fun _ => 0⟩

def requestSetup (txn : ℕ) (now : Time) (name : String) : List Act :=
  .start txn now (.create "laptop" "10.0.0.0/24")::List.replicate 4 (.advance txn now ⟨name,name⟩)

/-- A daemon is set up, connects twice while an old connection is torn down, and is revoked. -/
def revokedDaemon : List Act :=
  requestSetup 1 0 "a" ++ [.approve "a" "user-1" second,.start 2 second (.claim "a")] ++
    List.replicate 3 (.advance 2 second ⟨"daemon-1","credential"⟩) ++
    [.connect 3 second ⟨"daemon-1","credential","0.1",[]⟩,.advance 3 second ⟨"",""⟩,
      .advance 3 second ⟨"first",""⟩,.connect 4 second ⟨"daemon-1","credential","0.1",[]⟩,
      .advance 4 second ⟨"",""⟩,.advance 4 second ⟨"second",""⟩,.disconnect "daemon-1" "first",
      .revoke 5 second "daemon-1",.advance 5 second ⟨"",""⟩,.advance 5 second ⟨"",""⟩]

theorem revokedDaemon_stays : ∃ w, World.run plainSecrets { tables := { users := ["user-1"] } }
      revokedDaemon = some w ∧
    (∃ g ∈ w.tables.registrations, g.daemonId = "daemon-1" ∧ g.createdBy = "user-1" ∧
      ∀ more w', w.run plainSecrets more = some w' →
        (∀ g' ∈ w'.tables.registrations, g'.daemonId = "daemon-1" → g'.connectionId = none) ∧
        w'.tables.answers.filter (fun a => decide (a.daemonId = "daemon-1")) =
          [.connected "daemon-1" "second",.connected "daemon-1" "first"]) := by
  have hfinal : (World.run plainSecrets { tables := { users := ["user-1"] } } revokedDaemon).any (fun w =>
      w.tables.registrations.any (fun g => decide (g.daemonId = "daemon-1" ∧ g.createdBy = "user-1" ∧
        g.revokedAt ≠ none)) && decide (w.tables.answers.filter
          (fun a => decide (a.daemonId = "daemon-1")) =
            [.connected "daemon-1" "second",.connected "daemon-1" "first"])) = true := by decide +kernel
  obtain ⟨w,hrun,hw⟩ := (Option.any_eq_true _ _).mp hfinal
  simp only [Bool.and_eq_true,List.any_eq_true,decide_eq_true_eq] at hw
  obtain ⟨⟨g,hg,hid,huser,hrevoked⟩,hanswers⟩ := hw
  refine ⟨w,hrun,g,hg,hid,huser,fun more w' hmore => ?_⟩
  have hlife := daemon_registration_lifecycle plainSecrets ["user-1"] revokedDaemon w hrun
  have hstays := hlife.2.2.2 g hg hrevoked more w' hmore
  rw [hid,hanswers] at hstays
  exact hstays

/-- Three requests, three more when they have expired, and then the clock is set back. -/
def clockSetBack : List Act :=
  requestSetup 1 0 "a" ++ requestSetup 2 0 "b" ++ requestSetup 3 0 "c" ++
    requestSetup 4 (700*second) "d" ++ requestSetup 5 (700*second) "e" ++
    requestSetup 6 (700*second) "f" ++ [.start 7 (500*second) (.create "laptop" "10.0.0.0/24")]

/-- The next transaction then reads a clock at which six requests are pending. -/
theorem clockSetBack_overfills : ∃ w, World.run plainSecrets {} clockSetBack = some w ∧
    ∃ o ∈ w.opens, daemonSetupPendingLimit <
      w.tables.requests.countP (·.pending "10.0.0.0/24" o.now) := by
  have hfinal : (World.run plainSecrets {} clockSetBack).any (fun w => w.opens.any fun o =>
      decide (daemonSetupPendingLimit < w.tables.requests.countP (·.pending "10.0.0.0/24" o.now))) =
        true := by decide +kernel
  obtain ⟨w,hrun,hw⟩ := (Option.any_eq_true _ _).mp hfinal
  simp only [List.any_eq_true,decide_eq_true_eq] at hw
  exact ⟨w,hrun,hw⟩

end DaemonRegistry
end North
