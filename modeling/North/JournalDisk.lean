import North.JournalOps
import Mathlib

/-! The journal file on disk. `Journal::update` changes the state in place, writes it to a
temporary file and renames that over the journal; each step of this may fail. -/
namespace North
namespace JournalDisk

open Machine Protocol Journal Prog

abbrev Bytes := ByteArray

structure Codec where
  toVec : JournalFile → Except String Bytes
  fromSlice : Bytes → Except String JournalFile

/-- What was serialized parses back to the same journal. -/
def Codec.RoundTrips (c : Codec) : Prop :=
  ∀ state bytes, c.toVec state = .ok bytes → c.fromSlice bytes = .ok state

/-- The calls of `persist_locked` to the file system, in their order. -/
inductive PersistStep
  | createDirAll | create | writeAll | syncAll | rename | setPermissions | openParent | syncParent
  deriving DecidableEq, Repr

/-- The file system during one call: which steps fail, what a failed write leaves in the
temporary file, and whether the journal can be read. -/
structure Weather where
  fails : PersistStep → Option String := fun _ => none
  torn : Bytes := ByteArray.empty
  read : Option String := none

structure Disk where
  journal : Option Bytes := none
  temporary : Option Bytes := none
  ownerOnly : Bool := false
  deriving DecidableEq

/-- One call to the file system, with what it leaves behind when it fails and when not. -/
def fsCall (w : Weather) (step : PersistStep) (failed done : Disk → Disk) : Prog Disk JournalError Unit :=
  fun d =>
    match w.fails step with
    | some reason => some (.error (.io reason),failed d)
    | none => some (.ok (),done d)

def setPrivatePermissions (w : Weather) : Prog Disk JournalError Unit :=
  fsCall w .setPermissions id fun d => { d with ownerOnly := true }

def syncParentDirectory (w : Weather) : Prog Disk JournalError Unit := do
  fsCall w .openParent id id
  fsCall w .syncParent id id

variable (c : Codec)

def persistLocked (w : Weather) (state : JournalFile) : Prog Disk JournalError Unit := do
  fsCall w .createDirAll id id
  let bytes ← orFail ((c.toVec state).mapError .format)
  fsCall w .create id fun d => { d with temporary := some ByteArray.empty }
  fsCall w .writeAll (fun d => { d with temporary := some w.torn })
    fun d => { d with temporary := some bytes }
  fsCall w .syncAll id id
  fsCall w .rename id fun d => { journal := d.temporary, temporary := none, ownerOnly := false }
  setPrivatePermissions w
  syncParentDirectory w

def readJournal (w : Weather) (d : Disk) : Except JournalError Bytes :=
  match w.read, d.journal with
  | some reason, _ => .error (.io reason)
  | none, none => .error (.io "entity not found")
  | none, some bytes => .ok bytes

def parseJournal (bytes : Bytes) : Except JournalError JournalFile :=
  (c.fromSlice bytes).mapError .format

structure Host where
  state : JournalFile
  disk : Disk

/-- What memory takes over after a failed persist: the file as it is now, if it can be read. -/
def committed (w : Weather) (d : Disk) (before : JournalFile) : JournalFile :=
  match readJournal w d with
  | .error _ => before
  | .ok bytes =>
    match parseJournal c bytes with
    | .error _ => before
    | .ok state => state

/-- A closure of `update`: it works on the state in place, also when it fails half way.
`none` is a loop that never ends. -/
abbrev Operation (α : Type) := JournalFile → Option (Except JournalError α × JournalFile)

variable {α : Type}

def update (operation : Operation α) (w : Weather) : Prog Host JournalError α := fun h =>
  match operation h.state with
  | none => none
  | some (.error e,_) => some (.error e,{ h with state := h.state })
  | some (.ok value,state) =>
    match (persistLocked c w state).exec h.disk with
    | none => none
    | some (.ok (),disk) => some (.ok value,⟨state,disk⟩)
    | some (.error e,disk) => some (.error e,⟨committed c w disk h.state,disk⟩)

def openJournal (w : Weather) (daemonId : String) : Prog Disk JournalError JournalFile := do
  let journal ← look (·.journal)
  let state ← match journal with
    | some _ => do
      let bytes ← look (readJournal w)
      let bytes ← orFail bytes
      orFail (parseJournal c bytes)
    | none => pure {}
  let state ← orFail (openWithConfig daemonId state)
  match journal with
  | some _ => setPrivatePermissions w
  | none => persistLocked c w state
  pure state

/-! ### What a failure leaves -/

/-- The steps up to the rename, which is the one that changes the journal. -/
def beforeRename : List PersistStep := [.createDirAll,.create,.writeAll,.syncAll,.rename]

/-- The bytes that this persist puts in the place of the journal, if it comes that far. -/
def replacement (w : Weather) (state : JournalFile) : Option Bytes :=
  if ∀ step ∈ beforeRename, w.fails step = none then (c.toVec state).toOption else none

theorem fsCall_bind {β : Type} (w : Weather) (step : PersistStep) (failed done : Disk → Disk)
    (next : Unit → Prog Disk JournalError β) (d : Disk) :
    (fsCall w step failed done >>= next).exec d = match w.fails step with
      | some reason => some (.error (.io reason),failed d)
      | none => (next ()).exec (done d) := by
  rw [exec_bind]
  unfold fsCall exec
  cases w.fails step <;> rfl

theorem replacement_of_fails {w : Weather} {step : PersistStep} {reason : String} (state : JournalFile)
    (hmem : step ∈ beforeRename) (hfails : w.fails step = some reason) : replacement c w state = none := by
  rw [replacement,if_neg]
  intro hall
  rw [hall step hmem] at hfails
  cases hfails

theorem setPrivatePermissions_journal {w : Weather} {d d' : Disk} {r : Except JournalError Unit}
    (h : (setPrivatePermissions w).exec d = some (r,d')) : d'.journal = d.journal := by
  unfold setPrivatePermissions fsCall exec at h
  cases hpermissions : w.fails .setPermissions with
  | some reason =>
    simp only [hpermissions] at h
    cases h
    rfl
  | none =>
    simp only [hpermissions] at h
    cases h
    rfl

theorem afterRename_journal {w : Weather} {d d' : Disk} {r : Except JournalError Unit}
    (h : (setPrivatePermissions w >>= fun _ => syncParentDirectory w).exec d = some (r,d')) :
    d'.journal = d.journal := by
  unfold setPrivatePermissions syncParentDirectory at h
  rw [fsCall_bind] at h
  cases hpermissions : w.fails .setPermissions with
  | some reason =>
    rw [hpermissions] at h
    cases h
    rfl
  | none =>
    simp only [hpermissions,fsCall_bind] at h
    cases hopen : w.fails .openParent with
    | some reason =>
      rw [hopen] at h
      cases h
      rfl
    | none =>
      simp only [hopen,exec,fsCall] at h
      cases hsync : w.fails .syncParent with
      | some reason =>
        rw [hsync] at h
        cases h
        rfl
      | none =>
        rw [hsync] at h
        cases h
        rfl

/-- A persist puts the new bytes in place or leaves the journal as it was, and then it fails. -/
def Persisted (w : Weather) (state : JournalFile) (d d' : Disk) (r : Except JournalError Unit) : Prop :=
  match replacement c w state with
  | some bytes => d'.journal = some bytes ∧ c.toVec state = .ok bytes
  | none => d'.journal = d.journal ∧ r ≠ .ok ()

theorem persistLocked_persisted {w : Weather} {state : JournalFile} {d d' : Disk}
    {r : Except JournalError Unit} (h : (persistLocked c w state).exec d = some (r,d')) :
    Persisted c w state d d' r := by
  have hfailed : ∀ {step : PersistStep} {reason : String}, step ∈ beforeRename →
      w.fails step = some reason → r ≠ .ok () → d'.journal = d.journal → Persisted c w state d d' r := by
    intro step reason hmem hfails hr hd
    rw [Persisted,replacement_of_fails c state hmem hfails]
    exact ⟨hd,hr⟩
  unfold persistLocked at h
  rw [fsCall_bind] at h
  cases hdir : w.fails .createDirAll with
  | some reason =>
    rw [hdir] at h
    cases h
    exact hfailed (by decide) hdir nofun rfl
  | none =>
  simp only [hdir,exec_bind (orFail _),exec_orFail] at h
  cases hbytes : c.toVec state with
  | error reason =>
    rw [hbytes] at h
    cases h
    have hnone : replacement c w state = none := by simp [replacement,hbytes,Except.toOption]
    rw [Persisted,hnone]
    exact ⟨rfl,nofun⟩
  | ok bytes =>
  rw [hbytes] at h
  simp only [Except.mapError,fsCall_bind] at h
  cases hcreate : w.fails .create with
  | some reason =>
    rw [hcreate] at h
    cases h
    exact hfailed (by decide) hcreate nofun rfl
  | none =>
  cases hwrite : w.fails .writeAll with
  | some reason =>
    simp only [hcreate,hwrite,Option.some.injEq,Prod.mk.injEq] at h
    obtain ⟨rfl,rfl⟩ := h
    exact hfailed (by decide) hwrite nofun rfl
  | none =>
  cases hsync : w.fails .syncAll with
  | some reason =>
    simp only [hcreate,hwrite,hsync,Option.some.injEq,Prod.mk.injEq] at h
    obtain ⟨rfl,rfl⟩ := h
    exact hfailed (by decide) hsync nofun rfl
  | none =>
  cases hrename : w.fails .rename with
  | some reason =>
    simp only [hcreate,hwrite,hsync,hrename,Option.some.injEq,Prod.mk.injEq] at h
    obtain ⟨rfl,rfl⟩ := h
    exact hfailed (by decide) hrename nofun rfl
  | none =>
    simp only [hcreate,hwrite,hsync,hrename] at h
    have hreplaced : replacement c w state = some bytes := by
      rw [replacement,if_pos (by simp [beforeRename,hdir,hcreate,hwrite,hsync,hrename]),hbytes]
      rfl
    rw [Persisted,hreplaced]
    exact ⟨afterRename_journal h,hbytes⟩

/-! ### Memory and file -/

/-- The file holds exactly this journal. -/
def Holds (d : Disk) (state : JournalFile) : Prop :=
  ∃ bytes, d.journal = some bytes ∧ c.fromSlice bytes = .ok state

variable {c}

theorem Holds.committed {w : Weather} {d : Disk} {state : JournalFile} (h : Holds c d state)
    (hread : w.read = none) (before : JournalFile) : committed c w d before = state := by
  obtain ⟨bytes,hbytes,hparse⟩ := h
  simp [JournalDisk.committed,readJournal,parseJournal,hread,hbytes,hparse,Except.mapError]

/-- A persist of the new state that got through the rename, or a persist that left the file. -/
theorem Persisted.holds (hc : c.RoundTrips) {w : Weather} {state before : JournalFile} {d d' : Disk}
    {r : Except JournalError Unit} (h : Persisted c w state d d' r) (hbefore : Holds c d before) :
    if replacement c w state = none then Holds c d' before ∧ d'.journal = d.journal ∧ r ≠ .ok ()
    else Holds c d' state := by
  unfold Persisted at h
  cases hreplaced : replacement c w state with
  | none =>
    rw [hreplaced] at h
    obtain ⟨bytes,hbytes,hparse⟩ := hbefore
    exact ⟨⟨bytes,h.1.trans hbytes,hparse⟩,h⟩
  | some bytes =>
    rw [hreplaced] at h
    exact ⟨bytes,h.1,hc state bytes h.2⟩

/-- What one `update` leaves of memory and file, and what a reopen makes of them. -/
structure Atomic (c : Codec) (operation : Operation α) (w : Weather) (h : Host)
    (r : Except JournalError α) (h' : Host) : Prop where
  stored : Holds c h'.disk h'.state
  accepted : ∀ value, r = .ok value → operation h.state = some (.ok value,h'.state)
  /-- Refused, or failed before the rename: nothing has changed. -/
  kept : ∀ e, r = .error e → (∀ value state, operation h.state = some (.ok value,state) →
    replacement c w state = none) → h'.state = h.state ∧ h'.disk.journal = h.disk.journal
  /-- Once the rename is done the new state stands, whatever the call returns. -/
  replaced : ∀ value state, operation h.state = some (.ok value,state) →
    replacement c w state ≠ none → h'.state = state
  reopens : ∀ daemonId w', (∀ step, w'.fails step = none) → w'.read = none →
    ∃ d, (openJournal c w' daemonId).exec h'.disk = some (openWithConfig daemonId h'.state,d)

theorem Holds.reopens {d : Disk} {state : JournalFile} (h : Holds c d state) (daemonId : String)
    {w : Weather} (hcalm : ∀ step, w.fails step = none) (hread : w.read = none) :
    ∃ d', (openJournal c w daemonId).exec d = some (openWithConfig daemonId state,d') := by
  obtain ⟨bytes,hbytes,hparse⟩ := h
  simp only [openJournal,exec_bind,exec_look,hbytes,exec_orFail,readJournal,hread,parseJournal,hparse,
    Except.mapError]
  cases hopened : openWithConfig daemonId state with
  | error e => exact ⟨_,rfl⟩
  | ok opened => simp [setPrivatePermissions,fsCall,exec,hcalm,pure,ExceptT.pure,ExceptT.mk,StateT.pure]

theorem update_exec (operation : Operation α) (w : Weather) (h : Host) :
    (update c operation w).exec h = match operation h.state with
      | none => none
      | some (.error e,_) => some (.error e,h)
      | some (.ok value,state) =>
        match (persistLocked c w state).exec h.disk with
        | none => none
        | some (.ok (),disk) => some (.ok value,⟨state,disk⟩)
        | some (.error e,disk) => some (.error e,⟨committed c w disk h.state,disk⟩) := rfl

theorem update_atomic (hc : c.RoundTrips) {operation : Operation α} {w : Weather} (hread : w.read = none)
    {h h' : Host} (hsync : Holds c h.disk h.state) {r : Except JournalError α}
    (hrun : (update c operation w).exec h = some (r,h')) : Atomic c operation w h r h' := by
  rw [update_exec] at hrun
  cases hoperation : operation h.state with
  | none =>
    rw [hoperation] at hrun
    cases hrun
  | some result =>
  obtain ⟨result,state⟩ := result
  rw [hoperation] at hrun
  cases result with
  | error e =>
    cases hrun
    refine ⟨hsync,nofun,fun _ _ _ => ⟨rfl,rfl⟩,fun value state hvalue => ?_,fun _ _ => hsync.reopens _⟩
    rw [hoperation] at hvalue
    cases hvalue
  | ok value =>
  have honly : ∀ value' state', operation h.state = some (.ok value',state') → state' = state := by
    intro value' state' h'
    rw [hoperation] at h'
    cases h'
    rfl
  cases hpersist : (persistLocked c w state).exec h.disk with
  | none =>
    simp only [hpersist] at hrun
    cases hrun
  | some persisted =>
  obtain ⟨rp,disk⟩ := persisted
  simp only [hpersist] at hrun
  have hholds := (persistLocked_persisted c hpersist).holds hc hsync
  split_ifs at hholds with hreplaced
  · -- the rename was not reached, so the persist failed and memory goes back
    obtain ⟨hbefore,hjournal,hfailed⟩ := hholds
    cases rp with
    | ok u => exact absurd rfl hfailed
    | error e =>
      cases hrun
      have hback := hbefore.committed hread h.state
      refine ⟨hback.symm ▸ hbefore,nofun,fun _ _ _ => ⟨hback,hjournal⟩,fun value' state' h' hne => ?_,
        fun _ _ => (hback.symm ▸ hbefore).reopens _⟩
      rw [honly value' state' h'] at hne
      exact absurd hreplaced hne
  · cases rp with
    | ok u =>
      cases hrun
      refine ⟨hholds,fun value' hvalue => ?_,nofun,fun value' state' h' _ => (honly value' state' h').symm,
        fun _ _ => hholds.reopens _⟩
      cases hvalue
      exact hoperation
    | error e =>
      cases hrun
      have hback := hholds.committed hread h.state
      refine ⟨hback.symm ▸ hholds,nofun,fun _ _ hnone => ?_,
        fun value' state' h' _ => hback.trans (honly value' state' h').symm,
        fun _ _ => (hback.symm ▸ hholds).reopens _⟩
      exact absurd (hnone value state hoperation) hreplaced

/-! ### Runs of updates -/

/-- One call of `update`, with the file system it meets. -/
structure Call (α : Type) where
  operation : Operation α
  weather : Weather

/-- The host after some calls, whether each of them succeeds or not. -/
def runCalls (c : Codec) : List (Call α) → Host → Option Host
  | [], h => some h
  | call::calls, h =>
    match (update c call.operation call.weather).exec h with
    | none => none
    | some (_,h') => runCalls c calls h'

theorem openJournal_holds (hc : c.RoundTrips) {w : Weather} {daemonId : String} {d d' : Disk}
    {state : JournalFile} (h : (openJournal c w daemonId).exec d = some (.ok state,d')) :
    Holds c d' state := by
  unfold openJournal at h
  obtain ⟨journal,d₁,hlook,h⟩ := bind_returns.mp h
  obtain ⟨rfl,rfl⟩ : d.journal = journal ∧ d = d₁ := by simpa [exec_look] using hlook
  cases hjournal : d.journal with
  | some bytes =>
    simp only [hjournal,bind_returns,exec_look,exec_orFail,exec_pure,Option.some.injEq,Prod.mk.injEq,
      Except.ok.injEq] at h
    obtain ⟨_,_,⟨rfl,rfl⟩,bytes',_,⟨hbytes,rfl⟩,parsed,_,⟨hparse,rfl⟩,opened,_,⟨hopened,rfl⟩,_,d₁,
      hpermissions,rfl,rfl⟩ := h
    obtain rfl : parsed = opened := by
      unfold openWithConfig at hopened
      split_ifs at hopened
      exact Except.ok.inj hopened
    have hbytes' : bytes' = bytes := by
      unfold readJournal at hbytes
      cases hw : w.read with
      | some reason =>
        rw [hw] at hbytes
        cases hbytes
      | none =>
        rw [hw,hjournal] at hbytes
        exact (Except.ok.inj hbytes).symm
    subst hbytes'
    refine ⟨bytes',(setPrivatePermissions_journal hpermissions).trans hjournal,?_⟩
    unfold parseJournal at hparse
    cases hslice : c.fromSlice bytes' with
    | error reason =>
      rw [hslice] at hparse
      cases hparse
    | ok state =>
      rw [hslice] at hparse
      cases hparse
      rfl
  | none =>
    simp only [hjournal,bind_returns,exec_orFail,exec_pure,Option.some.injEq,Prod.mk.injEq,
      Except.ok.injEq] at h
    obtain ⟨_,_,⟨rfl,rfl⟩,opened,_,⟨-,rfl⟩,_,d₁,hpersist,rfl,rfl⟩ := h
    have hpersisted := persistLocked_persisted c hpersist
    unfold Persisted at hpersisted
    cases hreplaced : replacement c w opened with
    | none =>
      rw [hreplaced] at hpersisted
      exact absurd rfl hpersisted.2
    | some bytes =>
      rw [hreplaced] at hpersisted
      exact ⟨bytes,hpersisted.1,hc opened bytes hpersisted.2⟩

theorem runCalls_holds (hc : c.RoundTrips) {calls : List (Call α)}
    (hread : ∀ call ∈ calls, call.weather.read = none) {h h' : Host} (hsync : Holds c h.disk h.state)
    (hrun : runCalls c calls h = some h') : Holds c h'.disk h'.state := by
  induction calls generalizing h with
  | nil =>
    cases hrun
    exact hsync
  | cons call calls ih =>
    unfold runCalls at hrun
    split at hrun
    · cases hrun
    · rename_i r h₁ hexec
      exact ih (fun call' hmem => hread call' (by simp [hmem]))
        (update_atomic hc (hread call (by simp)) hsync hexec).stored hrun

/-- Update atomicity: from an opened journal on, whatever was called before and wherever those
calls failed, an `update` leaves memory and file with the same journal, the old one or the
new one as a whole, and a reopen gives it back. -/
theorem journal_update_atomic (c : Codec) (hc : c.RoundTrips) (daemonId : String) (w : Weather) (d d' : Disk)
    (opened : JournalFile) (hopen : (openJournal c w daemonId).exec d = some (.ok opened,d'))
    (calls : List (Call α)) (hread : ∀ call ∈ calls, call.weather.read = none) (h : Host)
    (hrun : runCalls c calls ⟨opened,d'⟩ = some h) (call : Call α) (hcall : call.weather.read = none)
    (r : Except JournalError α) (h' : Host)
    (hexec : (update c call.operation call.weather).exec h = some (r,h')) :
    Atomic c call.operation call.weather h r h' :=
  update_atomic hc hcall (runCalls_holds hc hread (openJournal_holds hc hopen) hrun) hexec

namespace Sample

/-- The journal with one session in it. -/
def oneSession : JournalFile := { sessions := ⟨[("s",{})]⟩ }

def emptyText : String :=
  "\x7b\n  \"format_version\": 1,\n  \"sessions\": \x7b\x7d,\n  \"commands\": [],\n  \"command_tombstones\": [],\n  \"events\": [],\n  \"event_tombstones\": []\n\x7d"

def oneSessionText : String :=
  "\x7b\n  \"format_version\": 1,\n  \"sessions\": \x7b\n    \"s\": \x7b\n      \"processed_through_seq\": 0,\n      \"event_ack_through_seq\": 0,\n      \"event_ack_sparse\": [],\n      \"server_command_ack_through_seq\": 0\n    \x7d\n  \x7d,\n  \"commands\": [],\n  \"command_tombstones\": [],\n  \"events\": [],\n  \"event_tombstones\": []\n\x7d"

/-- The codec on two journals with these texts. -/
def codecOf (empty one : Bytes) : Codec where
  toVec state :=
    if state = {} then .ok empty else if state = oneSession then .ok one else .error "not one of the two"
  fromSlice bytes :=
    if bytes = empty then .ok {} else if bytes = one then .ok oneSession else .error "expected value"

theorem codecOf_roundTrips {empty one : Bytes} (hne : one ≠ empty) : (codecOf empty one).RoundTrips := by
  intro state bytes h
  simp only [codecOf] at h ⊢
  split_ifs at h with h₁ h₂
  · rw [if_pos (Except.ok.inj h).symm,h₁]
  · rw [← Except.ok.inj h,if_neg hne,if_pos rfl,h₂]

def codec : Codec := codecOf emptyText.toUTF8 oneSessionText.toUTF8

theorem codec_roundTrips : codec.RoundTrips :=
  codecOf_roundTrips fun h => absurd (String.toByteArray_inj.mp h) (by decide +kernel)

def openSession : Operation Unit := fun _ => some (.ok (),oneSession)

/-- The rename is done when the permissions cannot be set. -/
def late : Weather := { fails := fun step => if step = .setPermissions then some "denied" else none }

theorem codecOf_opens (empty one : Bytes) :
    (openJournal (codecOf empty one) {} "daemon-1").exec {} = some (.ok {},⟨some empty,none,true⟩) := rfl

theorem codecOf_late (empty one : Bytes) :
    (update (codecOf empty one) openSession late).exec ⟨{},some empty,none,true⟩ =
      some (.error (.io "denied"),⟨committed (codecOf empty one) late ⟨some one,none,false⟩ {},
        some one,none,false⟩) := rfl

theorem codecOf_replaces (empty one : Bytes) : replacement (codecOf empty one) late oneSession ≠ none := by
  rw [replacement,if_pos (by decide)]
  exact Option.some_ne_none one

end Sample

theorem lateUpdate_atomic : ∃ (d : Disk) (h' : Host),
    (openJournal Sample.codec {} "daemon-1").exec {} = some (.ok {},d) ∧
    (update Sample.codec Sample.openSession Sample.late).exec ⟨{},d⟩ = some (.error (.io "denied"),h') ∧
    h'.state = Sample.oneSession ∧
    Atomic Sample.codec Sample.openSession Sample.late ⟨{},d⟩ (.error (.io "denied")) h' := by
  have hopened := Sample.codecOf_opens Sample.emptyText.toUTF8 Sample.oneSessionText.toUTF8
  have hexec := Sample.codecOf_late Sample.emptyText.toUTF8 Sample.oneSessionText.toUTF8
  have hatomic := journal_update_atomic Sample.codec Sample.codec_roundTrips "daemon-1" {} {} _ {} hopened []
    (by simp) _ rfl ⟨Sample.openSession,Sample.late⟩ rfl _ _ hexec
  exact ⟨_,_,hopened,hexec,hatomic.replaced () _ rfl (Sample.codecOf_replaces _ _),hatomic⟩

/-! ### The update of the journal operations -/

/-- The cause that a failed persist names. -/
def causeOf : JournalError → String
  | .io reason => reason
  | .format reason => reason
  | _ => ""

/-- How this persist ends, as the journal operations see it. -/
def persistOf (c : Codec) (w : Weather) (d : Disk) (state : JournalFile) : Persist :=
  match (persistLocked c w state).exec d with
  | some (.error e,_) =>
    if replacement c w state = none then .lost (causeOf e) true else .late (causeOf e) true
  | _ => .done

/-- A section as an operation in place: what it leaves when it fails is up to `torn`. -/
def operationOf (section_ : JournalFile → Option (Except JournalError (α × JournalFile)))
    (torn : JournalFile → JournalFile) : Operation α := fun s =>
  (section_ s).map fun
    | .ok (a,s') => (.ok a,s')
    | .error e => (.error e,torn s)

/-- The `update` of the journal operations is this one, seen through what the file holds. -/
theorem update_refines {σ : Type} {W : World σ} {A : Journal.Host σ} {section_ : Clock → Section α}
    {torn : JournalFile → JournalFile} (hc : c.RoundTrips) {w : Weather} (hread : w.read = none)
    {h h' : Host} (hstate : A.state = h.state) (hfile : Holds c h.disk A.file) (hsync : A.file = A.state)
    (hweather : ∀ a s, section_ (W.weather A.tick).2 h.state = some (.ok (a,s)) →
      (W.weather A.tick).1 = persistOf c w h.disk s) {r : Except JournalError α}
    (hrun : (update c (operationOf (section_ (W.weather A.tick).2) torn) w).exec h = some (r,h')) :
    ∃ r' A', (Journal.update W section_).exec A = some (r',A') ∧ A'.state = h'.state ∧
      Holds c h'.disk A'.file ∧ r'.toOption = r.toOption := by
  have hsame : Holds c h.disk h.state := hstate ▸ hsync ▸ hfile
  rw [update_exec] at hrun
  simp only [Journal.update,exec,hstate]
  cases hsection : section_ (W.weather A.tick).2 h.state with
  | none =>
    simp only [operationOf,hsection,Option.map_none] at hrun
    cases hrun
  | some result =>
  cases result with
  | error e =>
    simp only [operationOf,hsection,Option.map_some,Option.some.injEq,Prod.mk.injEq] at hrun
    obtain ⟨rfl,rfl⟩ := hrun
    exact ⟨_,_,rfl,rfl,hfile,rfl⟩
  | ok value =>
  obtain ⟨a,s⟩ := value
  simp only [operationOf,hsection,Option.map_some] at hrun
  have hpersistOf := hweather a s hsection
  unfold persistOf at hpersistOf
  cases hpersist : (persistLocked c w s).exec h.disk with
  | none =>
    simp only [hpersist] at hrun
    cases hrun
  | some persisted =>
  obtain ⟨rp,disk⟩ := persisted
  simp only [hpersist] at hrun hpersistOf
  have hholds := (persistLocked_persisted c hpersist).holds hc hsame
  cases rp with
  | ok u =>
    cases hrun
    rw [if_neg (fun hnone => by rw [if_pos hnone] at hholds; exact hholds.2.2 rfl)] at hholds
    simp only [hpersistOf]
    exact ⟨_,_,rfl,rfl,hholds,rfl⟩
  | error e =>
    cases hrun
    split_ifs at hholds hpersistOf with hreplaced
    · obtain ⟨hbefore,-,-⟩ := hholds
      simp only [hpersistOf,if_true]
      refine ⟨_,_,rfl,?_,?_,rfl⟩
      · rw [hbefore.committed hread]
        exact hsync.trans hstate
      · show Holds c disk A.file
        rw [hsync,hstate]
        exact hbefore
    · simp only [hpersistOf,if_true]
      refine ⟨_,_,rfl,?_,hholds,rfl⟩
      rw [hholds.committed hread]
      rfl

end JournalDisk
end North
