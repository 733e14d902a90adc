import North.Lib.Paging
import North.ActivityRetention

/-! The two paged reads of a requirement, its conversation and its activity history, between
the writes of other transactions. -/
namespace North
namespace PagedReads

open Machine Ranked Paging ActivityRetention

inductive MessageKind
  | requester | agent | system
  deriving DecidableEq, Repr

inductive ConversationError
  | requirementNotFound
  | invalidKind (kind : String)
  | invalidPage
  deriving DecidableEq, Repr

def MessageKind.asStr : MessageKind → String
  | .requester => "requester"
  | .agent => "agent"
  | .system => "system"

def MessageKind.fromPersisted (value : String) : Except ConversationError MessageKind :=
  if value = "requester" then .ok .requester
  else if value = "agent" then .ok .agent
  else if value = "system" then .ok .system
  else .error (.invalidKind value)

structure ConversationRow where
  id : String
  requirementId : String
  createdAt : String
  deriving DecidableEq, Repr

/-- A row of `messages`. Texts are compared by the collation of the database, so ids, and what
the query orders by as `created_at`, are of types with an order of their own. -/
structure MessageRow (τ ι : Type) where
  id : ι
  conversationId : String
  authorUserId : Option String
  kind : String
  body : String
  createdAt : τ
  deriving DecidableEq, Repr

structure MessageRecord (τ ι : Type) where
  id : ι
  conversationId : String
  authorUserId : Option String
  kind : MessageKind
  body : String
  createdAt : τ
  deriving DecidableEq, Repr

structure ConversationPage (τ ι : Type) where
  conversation : ConversationRow
  messages : List (MessageRecord τ ι)
  nextOffset : Option ℕ
  deriving DecidableEq, Repr

variable {τ ι : Type}

def MessageRow.intoRecord (row : MessageRow τ ι) : Except ConversationError (MessageRecord τ ι) :=
  (MessageKind.fromPersisted row.kind).map fun kind =>
    ⟨row.id,row.conversationId,row.authorUserId,kind,row.body,row.createdAt⟩

def MessageRecord.row (m : MessageRecord τ ι) : MessageRow τ ι :=
  ⟨m.id,m.conversationId,m.authorUserId,m.kind.asStr,m.body,m.createdAt⟩

def messageKinds : List String := ["requester","agent","system"]

/-- The tables `conversations` and `messages` with their constraints: the primary key and the
kinds of a message, and no more rows than a count can say. -/
structure ConversationTables (τ ι : Type) where
  conversations : List ConversationRow
  messages : List (MessageRow τ ι)
  ids_nodup : (messages.map MessageRow.id).Nodup
  kinds : ∀ m ∈ messages, m.kind ∈ messageKinds
  count_fits : messages.length ≤ i64Max

def ConversationTables.conversationRow (t : ConversationTables τ ι) (requirementId : String) :
    Option ConversationRow :=
  t.conversations.find? fun c => decide (c.requirementId = requirementId)

theorem fromPersisted_eq_ok {value : String} {kind : MessageKind} :
    MessageKind.fromPersisted value = .ok kind ↔ kind.asStr = value := by
  unfold MessageKind.fromPersisted
  constructor
  · intro h
    split_ifs at h with h₁ h₂ h₃
    · cases h
      exact h₁.symm
    · cases h
      exact h₂.symm
    · cases h
      exact h₃.symm
  · rintro rfl
    cases kind <;> rfl

theorem intoRecord_eq_ok {row : MessageRow τ ι} {m : MessageRecord τ ι} :
    row.intoRecord = .ok m ↔ m.row = row := by
  unfold MessageRow.intoRecord
  constructor
  · intro h
    cases hkind : MessageKind.fromPersisted row.kind with
    | error e => simp [hkind,Except.map] at h
    | ok kind =>
      rw [hkind] at h
      cases h
      simp [MessageRecord.row,fromPersisted_eq_ok.mp hkind]
  · rintro rfl
    simp [MessageRecord.row,fromPersisted_eq_ok.mpr rfl,Except.map]

theorem intoRecord_ok {row : MessageRow τ ι} (h : row.kind ∈ messageKinds) :
    ∃ m, row.intoRecord = .ok m := by
  obtain ⟨kind,hkind⟩ : ∃ kind : MessageKind, kind.asStr = row.kind := by
    rcases (by simpa [messageKinds] using h :
      row.kind = "requester" ∨ row.kind = "agent" ∨ row.kind = "system") with hk | hk | hk
    · exact ⟨.requester,hk.symm⟩
    · exact ⟨.agent,hk.symm⟩
    · exact ⟨.system,hk.symm⟩
  refine ⟨⟨row.id,row.conversationId,row.authorUserId,kind,row.body,row.createdAt⟩,?_⟩
  rw [intoRecord_eq_ok,MessageRecord.row,hkind]

theorem mapM_intoRecord {rows : List (MessageRow τ ι)} (h : ∀ m ∈ rows, m.kind ∈ messageKinds) :
    ∃ records, rows.mapM MessageRow.intoRecord = .ok records ∧ records.map MessageRecord.row = rows := by
  induction rows with
  | nil => exact ⟨[],rfl,rfl⟩
  | cons row rows ih =>
    obtain ⟨records,hrecords,hrows⟩ := ih fun m hm => h m (List.mem_cons_of_mem row hm)
    obtain ⟨m,hm⟩ := intoRecord_ok (h row List.mem_cons_self)
    refine ⟨m::records,?_,?_⟩
    · rw [List.mapM_cons,hm,hrecords]
      rfl
    · rw [List.map_cons,hrows,intoRecord_eq_ok.mp hm]

/-- What the query orders by: `created_at`, then `id`. -/
def MessageRow.order (m : MessageRow τ ι) : τ ×ₗ ι := toLex (m.createdAt,m.id)

/-- The tables of a store in which the requirement has its conversation. -/
structure Thread (τ ι : Type) (requirementId : String) where
  tables : ConversationTables τ ι
  conversation : ConversationRow
  found : tables.conversationRow requirementId = some conversation

theorem Thread.orders_nodup {requirementId : String} (t : Thread τ ι requirementId) :
    ((t.tables.messages.filter fun m => decide (m.conversationId = t.conversation.id)).map
      MessageRow.order).Nodup := by
  refine List.Nodup.of_map (fun k => (ofLex k).2) ?_
  have hids := t.tables.ids_nodup.sublist
    ((List.filter_sublist (p := fun m => decide (m.conversationId = t.conversation.id))).map MessageRow.id)
  simpa [MessageRow.order,Function.comp_def] using hids

section Conversation

variable [LinearOrder τ] [LinearOrder ι]

def conversationPage (t : ConversationTables τ ι) (requirementId : String) (offset limit : ℕ) :
    Except ConversationError (ConversationPage τ ι) :=
  if limit = 0 ∨ 100 < limit ∨ i64Max < offset then .error .invalidPage
  else match t.conversationRow requirementId with
    | none => .error .requirementNotFound
    | some conversation => do
      let rows := ((ranked MessageRow.order
        (t.messages.filter fun m => decide (m.conversationId = conversation.id))).drop offset).take (limit+1)
      let hasMore := decide (limit < rows.length)
      let messages ← (rows.take limit).mapM MessageRow.intoRecord
      let nextOffset ←
        if hasMore then
          if offset+limit ≤ u64Max then .ok (some (offset+limit)) else .error .invalidPage
        else .ok none
      .ok ⟨conversation,messages,nextOffset⟩

namespace Thread

variable {requirementId : String}

/-- The messages of the conversation in the order of its pages. -/
def listing (t : Thread τ ι requirementId) : List (MessageRow τ ι) :=
  ranked MessageRow.order
    (t.tables.messages.filter fun m => decide (m.conversationId = t.conversation.id))

/-- A message may come into the tables behind those of its conversation. -/
def Accepts (t : Thread τ ι requirementId) (row : MessageRow τ ι) : Prop :=
  row.id ∉ t.tables.messages.map MessageRow.id ∧ row.kind ∈ messageKinds ∧
    t.tables.messages.length+1 ≤ i64Max ∧
    ∀ m ∈ t.tables.messages, m.conversationId = row.conversationId → m.order < row.order

instance (t : Thread τ ι requirementId) (row : MessageRow τ ι) : Decidable (t.Accepts row) :=
  inferInstanceAs (Decidable (_ ∧ _ ∧ _ ∧ _))

def post (t : Thread τ ι requirementId) (row : MessageRow τ ι) : Option (Thread τ ι requirementId) :=
  if h : t.Accepts row then
    some { t with
      tables := {
        conversations := t.tables.conversations
        messages := t.tables.messages ++ [row]
        ids_nodup := by
          rw [List.map_append,List.nodup_append]
          refine ⟨t.tables.ids_nodup,by simp,fun x hx y hy heq => h.1 ?_⟩
          rwa [← List.mem_singleton.mp hy,← heq]
        kinds := by
          intro m hm
          rcases List.mem_append.mp hm with hold | hnew
          · exact t.tables.kinds m hold
          · rw [List.mem_singleton.mp hnew]
            exact h.2.1
        count_fits := by simpa using h.2.2.1 } }
  else none

/-- What a page at the offset shows: its messages, and where the next page is. -/
def read (limit : ℕ) (t : Thread τ ι requirementId) (offset : ℕ) :
    Option (List (MessageRow τ ι) × Option ℕ) :=
  (conversationPage t.tables requirementId offset limit).toOption.map fun page =>
    (page.messages.map MessageRecord.row,page.nextOffset)

@[simp] theorem mem_listing {t : Thread τ ι requirementId} {m : MessageRow τ ι} :
    m ∈ t.listing ↔ m ∈ t.tables.messages ∧ m.conversationId = t.conversation.id := by
  simp [listing]

theorem read_eq {limit : ℕ} (hpos : 1 ≤ limit) (hle : limit ≤ 100) (t : Thread τ ι requirementId)
    {offset : ℕ} (hoffset : offset ≤ i64Max) :
    t.read limit offset = some (page t.listing offset limit) := by
  have hvalid : ¬(limit = 0 ∨ 100 < limit ∨ i64Max < offset) := by omega
  have hfits : offset+limit ≤ u64Max := by
    have : i64Max+100 ≤ u64Max := by decide
    omega
  have hkinds : ∀ m ∈ ((t.listing.drop offset).take (limit+1)).take limit, m.kind ∈ messageKinds := by
    intro m hm
    have hlisted := List.mem_of_mem_drop (List.mem_of_mem_take (List.mem_of_mem_take hm))
    exact t.tables.kinds m (mem_listing.mp hlisted).1
  obtain ⟨records,hrecords,hrows⟩ := mapM_intoRecord hkinds
  have hpage : conversationPage t.tables requirementId offset limit =
      .ok ⟨t.conversation,records,(page t.listing offset limit).2⟩ := by
    rw [listing] at hrecords
    simp only [conversationPage,if_neg hvalid,t.found,hrecords,page,listing,bind,Except.bind]
    rw [if_pos hfits]
    simp only [decide_eq_true_eq]
    split_ifs with hmore
    · simp only [hmore,if_true]
    · simp only [hmore,if_false]
  rw [read,hpage]
  simp [Except.toOption,hrows,page]

theorem listing_ascending (t : Thread τ ι requirementId) :
    t.listing.Pairwise fun a b => a.order < b.order :=
  ranked_strict t.orders_nodup

theorem post_eq {t t' : Thread τ ι requirementId} {row : MessageRow τ ι} (h : t.post row = some t') :
    t.Accepts row ∧ t'.tables.messages = t.tables.messages ++ [row] ∧ t'.conversation = t.conversation := by
  unfold post at h
  split_ifs at h with haccepts
  cases h
  exact ⟨haccepts,rfl,rfl⟩

/-- A message of the conversation is listed last; another one is not listed. -/
theorem post_listing {t t' : Thread τ ι requirementId} {row : MessageRow τ ι}
    (h : t.post row = some t') :
    (t'.listing = t.listing ++ [row] ∧ (∀ m ∈ t.listing, m.order < row.order) ∧ row ∉ t.listing) ∨
      t'.listing = t.listing := by
  obtain ⟨⟨hid,-,-,hlast⟩,hmessages,hconversation⟩ := post_eq h
  rw [listing,listing,hmessages,hconversation,List.filter_append]
  by_cases hmine : row.conversationId = t.conversation.id
  · have habove : ∀ m ∈ t.listing, m.order < row.order := fun m hm =>
      hlast m (mem_listing.mp hm).1 ((mem_listing.mp hm).2.trans hmine.symm)
    have hnew : row ∉ t.listing := fun hm => hid (List.mem_map_of_mem (mem_listing.mp hm).1)
    refine .inl ⟨?_,habove,hnew⟩
    rw [List.filter_cons_of_pos (by simpa using hmine),List.filter_nil]
    exact ranked_append t.orders_nodup fun m hm => habove m (mem_ranked.mpr hm)
  · rw [List.filter_cons_of_neg (by simpa using hmine),List.filter_nil,List.append_nil]
    exact .inr rfl

theorem source {limit : ℕ} (hpos : 1 ≤ limit) (hle : limit ≤ 100) :
    Source (fun t : Thread τ ι requirementId => Thread.read limit t) post listing
      (fun a b => a.order < b.order) (fun t m => m ∈ t.listing) (fun _ => true) (fun _ _ => [])
      limit i64Max where
  irrefl _ := lt_irrefl _
  ascending := listing_ascending
  small t := by
    rw [listing,length_ranked]
    exact (List.length_filter_le _ _).trans t.tables.count_fits
  fetches t _ hoffset := t.read_eq hpos hle hoffset
  listed _ _ hx := hx
  remembers t row t' h m hm := by
    rcases post_listing h with ⟨hlisting,-,-⟩ | hlisting
    · rw [hlisting]
      exact List.mem_append_left [row] hm
    · rwa [hlisting]
  writes t row t' h := by
    rcases post_listing h with ⟨hlisting,habove,hnew⟩ | hlisting
    · exact .inl ⟨row,rfl,hlisting,habove,hnew⟩
    · right
      rw [hlisting]
      simp

end Thread
end Conversation

inductive ClarificationError
  | invalidContext
  deriving DecidableEq, Repr

structure ClarificationActivity (τ : Type) where
  id : ℕ
  eventId : String
  sessionId : String
  activity : String
  createdAt : τ
  deriving DecidableEq, Repr

/-- A row of `execution_sessions`. -/
structure SessionRow where
  id : String
  requirementId : String
  deriving DecidableEq, Repr

/-- The tables `execution_sessions` and `clarification_activities`: every activity has its
session, and the sequence of the ids is ahead of the rows. -/
structure ActivityStore (τ : Type) where
  sessions : List SessionRow
  table : ActivityTable τ
  nextId : ℕ
  nextId_pos : 0 < nextId
  sessions_known : ∀ a ∈ table.rows, a.sessionId ∈ sessions.map SessionRow.id
  ids_below : ∀ a ∈ table.rows, a.id < nextId

def activityRecord (a : ActivityRow τ) : ClarificationActivity τ :=
  ⟨a.id,a.eventId,a.sessionId,a.activity,a.createdAt⟩

def activityOrder (a : ActivityRow τ) : τ ×ₗ ℕ := toLex (a.createdAt,a.id)

/-- What the query orders by: `created_at`, then `id`. -/
def ClarificationActivity.order (a : ClarificationActivity τ) : τ ×ₗ ℕ := toLex (a.createdAt,a.id)

/-- The requirement of a session, by its primary key. -/
def requirementOf (sessions : List SessionRow) (sessionId : String) : Option String :=
  (sessions.find? fun x => decide (x.id = sessionId)).map SessionRow.requirementId

namespace ActivityStore

/-- The rows that the join with the sessions of the requirement finds. -/
def joined (s : ActivityStore τ) (requirementId : String) : List (ActivityRow τ) :=
  s.table.rows.filter fun a => decide (requirementOf s.sessions a.sessionId = some requirementId)

theorem orders_nodup (s : ActivityStore τ) (requirementId : String) :
    ((s.joined requirementId).map activityOrder).Nodup := by
  refine List.Nodup.of_map (fun k => (ofLex k).2) ?_
  have hids := s.table.ids_nodup.sublist ((List.filter_sublist (p := fun a =>
    decide (requirementOf s.sessions a.sessionId = some requirementId))).map ActivityRow.id)
  simpa [activityOrder,Function.comp_def,joined] using hids

@[simp] theorem mem_joined {requirementId : String} {s : ActivityStore τ} {a : ActivityRow τ} :
    a ∈ s.joined requirementId ↔
      a ∈ s.table.rows ∧ requirementOf s.sessions a.sessionId = some requirementId := by
  simp [joined]

variable [LinearOrder τ]

def clarificationActivities (s : ActivityStore τ) (requirementId : String) (offset limit : ℕ) :
    Except ClarificationError (List (ClarificationActivity τ) × Option ℕ) :=
  if limit = 0 ∨ 100 < limit ∨ i64Max < offset then .error .invalidContext
  else
    let rows := ((ranked activityOrder (s.joined requirementId)).drop offset).take (limit+1)
    -- no overflow: the offset is at most `i64::MAX`
    let nextOffset := if limit < rows.length then some (offset+limit) else none
    .ok ((rows.take limit).map activityRecord,nextOffset)

/-- The activity history of the requirement in the order of its pages. -/
def listing (requirementId : String) (s : ActivityStore τ) : List (ClarificationActivity τ) :=
  (ranked activityOrder (s.joined requirementId)).map activityRecord

/-- An activity row may come into the table behind those of its requirement. -/
def Accepts (s : ActivityStore τ) (a : ActivityRow τ) : Prop :=
  s.nextId ≤ a.id ∧ a.id ≤ i64Max ∧ a.sessionId ∈ s.sessions.map SessionRow.id ∧
    ∀ x ∈ s.table.rows, requirementOf s.sessions x.sessionId = requirementOf s.sessions a.sessionId →
      activityOrder x < activityOrder a

instance (s : ActivityStore τ) (a : ActivityRow τ) : Decidable (s.Accepts a) :=
  inferInstanceAs (Decidable (_ ∧ _ ∧ _ ∧ _))

def record (s : ActivityStore τ) (a : ActivityRow τ) (h : s.Accepts a) : ActivityStore τ where
  sessions := s.sessions
  table := {
    rows := s.table.rows ++ [a]
    ids_nodup := by
      rw [List.map_append,List.nodup_append]
      refine ⟨s.table.ids_nodup,by simp,fun x hx y hy heq => ?_⟩
      obtain ⟨r,hr,rfl⟩ := List.mem_map.mp hx
      have hid : r.id = a.id := heq.trans (List.mem_singleton.mp hy)
      exact absurd (s.ids_below r hr) (by rw [hid]; exact not_lt_of_ge h.1)
    ids_fit := by
      intro r hr
      rcases List.mem_append.mp hr with hold | hnew
      · exact s.table.ids_fit r hold
      · rw [List.mem_singleton.mp hnew]
        exact ⟨(Nat.succ_le_iff.mpr s.nextId_pos).trans h.1,h.2.1⟩ }
  nextId := a.id+1
  nextId_pos := Nat.succ_pos a.id
  sessions_known := by
    intro r hr
    rcases List.mem_append.mp hr with hold | hnew
    · exact s.sessions_known r hold
    · rw [List.mem_singleton.mp hnew]
      exact h.2.2.1
  ids_below := by
    intro r hr
    rcases List.mem_append.mp hr with hold | hnew
    · exact (s.ids_below r hold).trans_le (h.1.trans (Nat.le_succ a.id))
    · rw [List.mem_singleton.mp hnew]
      exact Nat.lt_succ_self a.id

def withSession (s : ActivityStore τ) (row : SessionRow) : ActivityStore τ where
  sessions := s.sessions ++ [row]
  table := s.table
  nextId := s.nextId
  nextId_pos := s.nextId_pos
  sessions_known a ha := by
    rw [List.map_append]
    exact List.mem_append_left _ (s.sessions_known a ha)
  ids_below := s.ids_below

def withTable (s : ActivityStore τ) (t : ActivityTable τ) (h : ∀ a ∈ t.rows, a ∈ s.table.rows) :
    ActivityStore τ :=
  ⟨s.sessions,t,s.nextId,s.nextId_pos,fun a ha => s.sessions_known a (h a ha),fun a ha => s.ids_below a (h a ha)⟩

/-- The rows that a sweep at the time `now` deletes. -/
def doomed (s : ActivityStore τ) (cfg : RetentionConfig) (now : τ) : List (ActivityRow τ) :=
  (s.table.expired now).take cfg.batchSize.toNat

theorem purge_rows {s : ActivityStore τ} {cfg : RetentionConfig} {now : τ} {n : ℕ} {swept : Sweeping τ}
    (h : purgeExpiredClarificationActivities cfg now ⟨s.table,[]⟩ = .ok (n,swept)) :
    swept.table = s.table.delete (s.doomed cfg now) := by
  unfold purgeExpiredClarificationActivities at h
  split_ifs at h
  cases h
  rfl

/-- A sweep that fails leaves the store as it is. -/
def purge (s : ActivityStore τ) (cfg : RetentionConfig) (now : τ) : ActivityStore τ :=
  match h : purgeExpiredClarificationActivities cfg now ⟨s.table,[]⟩ with
  | .error _ => s
  | .ok (_,swept) => s.withTable swept.table fun _ ha =>
      ActivityTable.mem_of_delete (purge_rows h ▸ ha)

end ActivityStore

inductive ActivityWrite (τ : Type)
  | session (row : SessionRow)
  | record (a : ActivityRow τ)
  | purge (cfg : RetentionConfig) (now : τ)

def ActivityWrite.records : ActivityWrite τ → Bool
  | .record _ => true
  | _ => false

namespace ActivityStore

variable [LinearOrder τ]

def write (s : ActivityStore τ) : ActivityWrite τ → Option (ActivityStore τ)
  | .session row => if row.id ∈ s.sessions.map SessionRow.id then none else some (s.withSession row)
  | .record a => if h : s.Accepts a then some (s.record a h) else none
  | .purge cfg now => some (s.purge cfg now)

/-- The activities that a write deletes. -/
def deletes (s : ActivityStore τ) : ActivityWrite τ → List (ClarificationActivity τ)
  | .session _ => []
  | .record _ => []
  | .purge cfg now => (s.doomed cfg now).map activityRecord

/-- What a page at the offset shows, and where the next page is. -/
def read (requirementId : String) (limit : ℕ) (s : ActivityStore τ) (offset : ℕ) :
    Option (List (ClarificationActivity τ) × Option ℕ) :=
  (s.clarificationActivities requirementId offset limit).toOption

theorem read_eq {requirementId : String} {limit : ℕ} (hpos : 1 ≤ limit) (hle : limit ≤ 100)
    (s : ActivityStore τ) {offset : ℕ} (hoffset : offset ≤ i64Max) :
    s.read requirementId limit offset = some (page (s.listing requirementId) offset limit) := by
  have hvalid : ¬(limit = 0 ∨ 100 < limit ∨ i64Max < offset) := by omega
  rw [read,clarificationActivities,if_neg hvalid]
  simp only [Except.toOption,page,listing,← List.map_drop,← List.map_take,List.length_map]

theorem purge_table (s : ActivityStore τ) (cfg : RetentionConfig) (now : τ) :
    (s.purge cfg now).sessions = s.sessions ∧ (s.purge cfg now).nextId = s.nextId ∧
      (s.purge cfg now).table.rows = (s.table.delete (s.doomed cfg now)).rows := by
  unfold purge
  split
  · rename_i e he
    refine ⟨rfl,rfl,?_⟩
    have hneg : cfg.batchSize < 0 := by
      by_contra hpos
      simp [purgeExpiredClarificationActivities,hpos] at he
    have hzero : cfg.batchSize.toNat = 0 := by omega
    simp [ActivityTable.delete,doomed,hzero]
  · rename_i n swept hok
    exact ⟨rfl,rfl,congrArg ActivityTable.rows (purge_rows hok)⟩

theorem mem_listing {requirementId : String} {s : ActivityStore τ} {x : ClarificationActivity τ} :
    x ∈ s.listing requirementId ↔ ∃ a ∈ s.joined requirementId, activityRecord a = x := by
  simp [listing]

theorem listing_ascending (requirementId : String) (s : ActivityStore τ) :
    (s.listing requirementId).Pairwise fun a b => a.order < b.order :=
  List.pairwise_map.mpr (ranked_strict (s.orders_nodup requirementId))

theorem listed_below {requirementId : String} {s : ActivityStore τ} {x : ClarificationActivity τ}
    (h : x ∈ s.listing requirementId) : x.id < s.nextId := by
  obtain ⟨a,ha,rfl⟩ := mem_listing.mp h
  exact s.ids_below a (mem_joined.mp ha).1

theorem withSession_listing (requirementId : String) (s : ActivityStore τ) (row : SessionRow) :
    (s.withSession row).listing requirementId = s.listing requirementId := by
  have hjoined : (s.withSession row).joined requirementId = s.joined requirementId := by
    refine List.filter_congr fun a ha => ?_
    obtain ⟨x,hx,hid⟩ := List.mem_map.mp (s.sessions_known a ha)
    have hfound : (s.sessions.find? fun x => decide (x.id = a.sessionId)).isSome := by
      rw [List.find?_isSome]
      exact ⟨x,hx,by simpa using hid⟩
    obtain ⟨y,hy⟩ := Option.isSome_iff_exists.mp hfound
    simp [requirementOf,withSession,List.find?_append,hy]
  rw [listing,listing,hjoined]

theorem record_listing (requirementId : String) {s : ActivityStore τ} {a : ActivityRow τ}
    (h : s.Accepts a) :
    ((s.record a h).listing requirementId = s.listing requirementId ++ [activityRecord a] ∧
      ∀ x ∈ s.listing requirementId, x.order < (activityRecord a).order) ∨
    (s.record a h).listing requirementId = s.listing requirementId := by
  have hjoined : (s.record a h).joined requirementId = s.joined requirementId ++
      [a].filter fun a => decide (requirementOf s.sessions a.sessionId = some requirementId) :=
    List.filter_append _ _
  rw [listing,listing,hjoined]
  by_cases hmine : requirementOf s.sessions a.sessionId = some requirementId
  · have habove : ∀ x ∈ s.joined requirementId, activityOrder x < activityOrder a := fun x hx =>
      h.2.2.2 x (mem_joined.mp hx).1 ((mem_joined.mp hx).2.trans hmine.symm)
    refine .inl ⟨?_,?_⟩
    · rw [List.filter_cons_of_pos (by simpa using hmine),List.filter_nil,
        ranked_append (s.orders_nodup requirementId) habove,List.map_append]
      rfl
    · intro x hx
      obtain ⟨y,hy,rfl⟩ := List.mem_map.mp hx
      exact habove y (mem_ranked.mp hy)
  · rw [List.filter_cons_of_neg (by simpa using hmine),List.filter_nil,List.append_nil]
    exact .inr rfl

theorem purge_listing (requirementId : String) (s : ActivityStore τ) (cfg : RetentionConfig) (now : τ) :
    (s.purge cfg now).listing requirementId = (s.listing requirementId).filter
      fun x => decide (x ∉ (s.doomed cfg now).map activityRecord) := by
  obtain ⟨hsessions,-,hrows⟩ := s.purge_table cfg now
  have hjoined : (s.purge cfg now).joined requirementId = (s.joined requirementId).filter
      fun a => decide (a.id ∉ (s.doomed cfg now).map ActivityRow.id) := by
    rw [joined,hsessions,hrows,ActivityTable.delete,joined,List.filter_filter,List.filter_filter]
    exact List.filter_congr fun a _ => Bool.and_comm _ _
  rw [listing,hjoined,ranked_filter (s.orders_nodup requirementId),listing,List.filter_map]
  refine congrArg (List.map activityRecord) (List.filter_congr fun a ha => ?_)
  have hrow : a ∈ s.table.rows := (mem_joined.mp (mem_ranked.mp ha)).1
  have hdoomed : ∀ r ∈ s.doomed cfg now, r ∈ s.table.rows := fun r hr =>
    (ActivityTable.mem_expired.mp (List.mem_of_mem_take hr)).1
  -- rows of the table with one record have one id
  have hiff : a.id ∈ (s.doomed cfg now).map ActivityRow.id ↔
      activityRecord a ∈ (s.doomed cfg now).map activityRecord := by
    rw [ActivityTable.mem_ids hdoomed hrow]
    constructor
    · exact List.mem_map_of_mem
    · intro hrec
      obtain ⟨r,hr,heq⟩ := List.mem_map.mp hrec
      have hid : r.id = a.id := congrArg ClarificationActivity.id heq
      exact (ActivityTable.mem_ids hdoomed hrow).mp (List.mem_map.mpr ⟨r,hr,hid⟩)
  simp [hiff]

theorem source {requirementId : String} {limit : ℕ} (hpos : 1 ≤ limit) (hle : limit ≤ 100) :
    Source (read (τ := τ) requirementId limit) write (listing requirementId)
      (fun a b => a.order < b.order) (fun s x => x.id < s.nextId) ActivityWrite.records deletes
      limit i64Max where
  irrefl _ := lt_irrefl _
  ascending := listing_ascending requirementId
  small s := by
    rw [listing,List.length_map,length_ranked]
    exact (List.length_filter_le _ _).trans s.table.rows_length_le
  fetches s _ hoffset := s.read_eq hpos hle hoffset
  listed _ _ hx := listed_below hx
  remembers s w s' h x hx := by
    cases w with
    | session row =>
      simp only [write] at h
      split_ifs at h
      cases h
      exact hx
    | record a =>
      simp only [write] at h
      split_ifs at h with haccepts
      cases h
      exact hx.trans (Nat.lt_succ_of_le haccepts.1)
    | purge cfg now =>
      cases h
      rw [(s.purge_table cfg now).2.1]
      exact hx
  writes s w s' h := by
    cases w with
    | session row =>
      simp only [write] at h
      split_ifs at h
      cases h
      right
      rw [withSession_listing]
      simp [deletes]
    | record a =>
      simp only [write] at h
      split_ifs at h with haccepts
      cases h
      rcases record_listing requirementId haccepts with ⟨hlisting,habove⟩ | hlisting
      · exact .inl ⟨activityRecord a,rfl,hlisting,habove,not_lt_of_ge haccepts.1⟩
      · right
        rw [hlisting]
        simp [deletes]
    | purge cfg now =>
      cases h
      exact .inr (s.purge_listing requirementId cfg now)

end ActivityStore

section Reads

variable [LinearOrder τ] [LinearOrder ι]

/-- One client pages through a conversation while messages are posted. -/
def threadStep (requirementId : String) (limit : ℕ) :
    World (Thread τ ι requirementId) (MessageRow τ ι) → Act (MessageRow τ ι) →
      Option (World (Thread τ ι requirementId) (MessageRow τ ι)) :=
  World.step (Thread.read limit) Thread.post

/-- One client pages through an activity history while sessions start, activities are recorded
and sweeps delete expired ones. -/
def activityStep (requirementId : String) (limit : ℕ) :
    World (ActivityStore τ) (ClarificationActivity τ) → Act (ActivityWrite τ) →
      Option (World (ActivityStore τ) (ClarificationActivity τ)) :=
  World.step (ActivityStore.read requirementId limit) ActivityStore.write

theorem thread_complete {requirementId : String} {limit : ℕ} (hpos : 1 ≤ limit) (hle : limit ≤ 100)
    {t : Thread τ ι requirementId} {before : List (Act (MessageRow τ ι))}
    {w : World (Thread τ ι requirementId) (MessageRow τ ι)}
    (hrun : Steps.run (threadStep requirementId limit) ⟨t,{}⟩ (before ++ [.read]) = some w)
    (hlast : w.reader.next = none) :
    w.reader.collected = w.store.listing ∧ ∀ m ∈ t.listing, w.reader.collected.count m = 1 := by
  have hspares : Steps.Along (threadStep requirementId limit) (Source.Spares fun _ _ => [])
      (⟨t,{}⟩ : World (Thread τ ι requirementId) (MessageRow τ ι)) before := by
    refine Steps.along_of_forall (fun act _ w => ?_) _
    cases act with
    | read => trivial
    | write m => exact fun _ hx => absurd hx List.not_mem_nil
  have hall := (Thread.source hpos hle).run_complete hrun hspares hlast
  refine ⟨hall,fun m hm => ?_⟩
  have hkept : m ∈ w.store.listing := (Thread.source hpos hle).run_remembers hrun hm
  have hnodup := ((Thread.source hpos hle).run_tracks hrun).reading.once
  exact List.count_eq_one_of_mem hnodup (by rwa [hall])

theorem activity_complete {requirementId : String} {limit : ℕ} (hpos : 1 ≤ limit) (hle : limit ≤ 100)
    {s : ActivityStore τ} {before : List (Act (ActivityWrite τ))}
    {w : World (ActivityStore τ) (ClarificationActivity τ)}
    (hrun : Steps.run (activityStep requirementId limit) ⟨s,{}⟩ (before ++ [.read]) = some w)
    (hspares : Steps.Along (activityStep requirementId limit) (Source.Spares ActivityStore.deletes)
      ⟨s,{}⟩ before) (hlast : w.reader.next = none) :
    w.reader.collected = w.store.listing requirementId ∧
      ∀ x ∈ w.store.listing requirementId, w.reader.collected.count x = 1 := by
  have hall := (ActivityStore.source hpos hle).run_complete hrun hspares hlast
  have hnodup := ((ActivityStore.source hpos hle).run_tracks hrun).reading.once
  refine ⟨hall,fun x hx => List.count_eq_one_of_mem hnodup ?_⟩
  rwa [hall]

/-- Following the offsets, every page can be read, and they come to an end as soon as no more
rows arrive. A conversation is read whole, each message once and in order. An activity history
gives no row twice and those still stored in order; it is read whole too, unless a sweep
deletes a row that a page has already shown. -/
theorem pages_lose_no_spared_row (requirementId : String) {limit : ℕ} (hpos : 1 ≤ limit)
    (hle : limit ≤ 100) :
    (∀ (t : Thread τ ι requirementId) acts w,
      Steps.run (threadStep requirementId limit) ⟨t,{}⟩ acts = some w →
      (w.reader.next ≠ none → ∃ w', threadStep requirementId limit w .read = some w') ∧
      w.reader.reads ≤ (t.listing.length+arrivals (fun _ => true) acts)/limit+1 ∧
      (∀ before, acts = before ++ [.read] → w.reader.next = none →
        w.reader.collected = w.store.listing ∧
        w.reader.collected.Pairwise (fun a b => a.order < b.order) ∧
        ∀ m ∈ t.listing, w.reader.collected.count m = 1)) ∧
    (∀ (s : ActivityStore τ) acts w,
      Steps.run (activityStep requirementId limit) ⟨s,{}⟩ acts = some w →
      (w.reader.next ≠ none → ∃ w', activityStep requirementId limit w .read = some w') ∧
      w.reader.reads ≤
        ((s.listing requirementId).length+arrivals ActivityWrite.records acts)/limit+1 ∧
      w.reader.collected.Nodup ∧
      (w.reader.collected.filter fun x => decide (x ∈ w.store.listing requirementId)).Pairwise
        (fun a b => a.order < b.order) ∧
      (∀ before, acts = before ++ [.read] → w.reader.next = none →
        Steps.Along (activityStep requirementId limit) (Source.Spares ActivityStore.deletes)
          ⟨s,{}⟩ before →
        w.reader.collected = w.store.listing requirementId ∧
        w.reader.collected.Pairwise (fun a b => a.order < b.order) ∧
        ∀ x ∈ s.listing requirementId, x ∈ w.store.listing requirementId →
          w.reader.collected.count x = 1)) := by
  refine ⟨fun t acts w hrun => ?_,fun s acts w hrun => ?_⟩
  · have hsrc := @Thread.source τ ι _ _ requirementId limit hpos hle
    refine ⟨hsrc.run_reads hrun,hsrc.run_reads_le hpos hrun,?_⟩
    rintro before rfl hlast
    obtain ⟨hall,honce⟩ := thread_complete hpos hle hrun hlast
    exact ⟨hall,hall ▸ w.store.listing_ascending,honce⟩
  · have hsrc := @ActivityStore.source τ _ requirementId limit hpos hle
    have htracks := hsrc.run_tracks hrun
    refine ⟨hsrc.run_reads hrun,hsrc.run_reads_le hpos hrun,htracks.reading.once,
      htracks.reading.ordered,?_⟩
    rintro before rfl hlast hspares
    obtain ⟨hall,honce⟩ := activity_complete hpos hle hrun hspares hlast
    exact ⟨hall,hall ▸ ActivityStore.listing_ascending requirementId w.store,fun x _ hx => honce x hx⟩

end Reads

def sampleSettings : RetentionConfig := ⟨604800,60,1,20,by decide⟩

/-- Three activities of one requirement; the first is expired from time 5 on. -/
def sampleHistory : ActivityStore ℕ where
  sessions := [⟨"session-1","requirement-1"⟩]
  table := ⟨[⟨1,"event-1","session-1","reading",1,5⟩,⟨2,"event-2","session-1","asking",2,9⟩,
    ⟨3,"event-3","session-1","writing",3,9⟩],by decide,by decide⟩
  nextId := 4
  nextId_pos := by decide
  sessions_known := by decide
  ids_below := by decide

/-- Between two pages of one row the row of the first page is swept: the second row moves before
the offset and is never read, though it stays stored. -/
theorem sweep_between_pages_loses_row :
    ∃ acts w, Steps.run (activityStep "requirement-1" 1) ⟨sampleHistory,{}⟩ acts = some w ∧
      w.reader.next = none ∧
      ∃ x ∈ sampleHistory.listing "requirement-1", x ∈ w.store.listing "requirement-1" ∧
        x ∉ w.reader.collected := by
  refine ⟨[.read,.write (.purge sampleSettings 5),.read],_,rfl,rfl,
    ⟨2,"event-2","session-1","asking",2⟩,?_⟩
  decide

def sampleThread : Thread ℕ ℕ "requirement-1" where
  tables := {
    conversations := [⟨"conversation-1","requirement-1","2026-01-01"⟩]
    messages := [⟨7,"conversation-1",none,"system","created",1⟩,
      ⟨4,"conversation-1",some "user-1","requester","please",2⟩]
    ids_nodup := by decide
    kinds := by decide
    count_fits := by decide }
  conversation := ⟨"conversation-1","requirement-1","2026-01-01"⟩
  found := rfl

def samplePosts : List (Act (MessageRow ℕ ℕ)) :=
  [.read,.write ⟨9,"conversation-1",none,"agent","which one?",3⟩,.read]

/-- A sweep before the first page, and a row that arrives after it. -/
def sampleSweep : List (Act (ActivityWrite ℕ)) :=
  [.write (.purge sampleSettings 5),.read,.write (.record ⟨4,"event-4","session-1","done",3,9⟩),
    .read]

theorem sample_pages_lose_no_row :
    (∃ w, Steps.run (threadStep "requirement-1" 1) ⟨sampleThread,{}⟩ (samplePosts ++ [.read]) = some w ∧
      w.reader.next = none ∧ w.reader.collected = w.store.listing ∧ w.reader.reads ≤ 4) ∧
    ∃ w, Steps.run (activityStep "requirement-1" 1) ⟨sampleHistory,{}⟩ (sampleSweep ++ [.read]) = some w ∧
      w.reader.next = none ∧ w.reader.collected = w.store.listing "requirement-1" ∧
      w.reader.collected.map ClarificationActivity.id = [2,3,4] := by
  have hone : 1 ≤ 1 := by decide
  have hhundred : 1 ≤ 100 := by decide
  constructor
  · refine ⟨_,rfl,rfl,?_⟩
    obtain ⟨-,hreads,hcomplete⟩ := (pages_lose_no_spared_row (τ := ℕ) (ι := ℕ) "requirement-1" hone hhundred).1
      sampleThread (samplePosts ++ [.read]) _ rfl
    exact ⟨(hcomplete samplePosts rfl rfl).1,hreads⟩
  · refine ⟨_,rfl,rfl,?_⟩
    obtain ⟨-,-,-,-,hcomplete⟩ := (pages_lose_no_spared_row (τ := ℕ) (ι := ℕ) "requirement-1" hone hhundred).2
      sampleHistory (sampleSweep ++ [.read]) _ rfl
    refine ⟨(hcomplete sampleSweep rfl rfl ?_).1,by decide⟩
    -- the sweep comes before the first page
    refine ⟨fun _ _ => List.not_mem_nil,fun w₁ hsweep => ⟨trivial,fun w₂ _ => ⟨?_,fun w₃ _ => ?_⟩⟩⟩
    · exact fun _ hx => absurd hx List.not_mem_nil
    · exact ⟨trivial,fun _ _ => trivial⟩

end PagedReads
end North
