import North.Lib.JsonValue
import Mathlib.Logic.Function.Basic

/-! Whether a retried command is the one that was stored: by the digest of its JSON value without
the time it was sent at, or in older rows by the digest of its whole text, and after compaction by
what the tombstone kept. -/
namespace North
namespace CommandIdentity

/-- The reader, the writer and the equality of numbers of the JSON library. -/
structure SerdeJson (ν : Type) where
  fromStr : String → Option (JsonValue ν)
  toVec : JsonValue ν → String
  numberEq : ν → ν → Bool

/-- Values are read up to a depth, with sorted objects, and written apart; what is written is read
back where its numbers are exact, that is, where they are read back and equal only to
themselves. -/
structure SerdeJson.Faithful {ν : Type} (S : SerdeJson ν) (exact : ν → Prop) (depth : ℕ) : Prop where
  read_kept (text : String) (v : JsonValue ν) : S.fromStr text = some v → v.Kept (fun _ => True) depth
  write_injective (v w : JsonValue ν) : v.Kept (fun _ => True) depth → w.Kept (fun _ => True) depth →
    S.toVec v = S.toVec w → v = w
  read_write (v : JsonValue ν) : v.Kept exact depth → S.fromStr (S.toVec v) = some v
  number (m n : ν) : exact m → exact n → (S.numberEq m n = true ↔ m = n)

section Digests

variable {ν : Type} (S : SerdeJson ν) (md5 : String → String)

def payloadDigest (payload : String) : String := md5 payload

/-- The value of a command without `payload.sent_at`. -/
def withoutSentAt (v : JsonValue ν) : JsonValue ν := v.update "payload" (·.remove "sent_at")

def commandIdentityDigest (payload : String) : String :=
  md5 (S.toVec (withoutSentAt ((S.fromStr payload).getD (.string payload))))

def commandIdentityDigestValid (payload stored : String) : Bool :=
  commandIdentityDigest S md5 payload == stored || payloadDigest md5 payload == stored

def commandIdentityMatches (existing candidate stored : String) : Bool :=
  if commandIdentityDigest S md5 candidate = stored then true
  else if payloadDigest md5 existing ≠ stored then false
  else match S.fromStr existing, S.fromStr candidate with
    | some existing, some candidate => (withoutSentAt existing).eq S.numberEq (withoutSentAt candidate)
    | _, _ => false

/-- A row of the outbox or of the tombstones. -/
structure ExistingCommand where
  payload : Option String
  payloadDigest : String
  commandIdentityDigest : String
  deriving DecidableEq, Repr

/-- The decision on a command id that is bound already. -/
def identityMatches (existing : ExistingCommand) (candidate : String) : Bool :=
  match existing.payload with
  | some payload => commandIdentityMatches S md5 payload candidate existing.commandIdentityDigest
  | none => commandIdentityDigest S md5 candidate == existing.commandIdentityDigest

/-- The tombstone keeps the payload of a row with the old digest only. -/
def compact (row : ExistingCommand) : ExistingCommand :=
  { row with payload := if row.commandIdentityDigest = row.payloadDigest then row.payload else none }

end Digests

/-! ### Values -/

theorem kept_withoutSentAt {ν : Type} {exact : ν → Prop} {depth : ℕ} {v : JsonValue ν} (h : v.Kept exact depth) :
    (withoutSentAt v).Kept exact depth :=
  h.update "payload" fun _ _ h => h.remove "sent_at"

theorem withoutSentAt_idem {ν : Type} (v : JsonValue ν) : withoutSentAt (withoutSentAt v) = withoutSentAt v := by
  have hremove : ∀ v : JsonValue ν, (v.remove "sent_at").remove "sent_at" = v.remove "sent_at" := by
    intro v
    cases v <;> simp [JsonValue.remove]
  cases v with
  | object fields =>
    simp only [withoutSentAt,JsonValue.update,List.map_map,JsonValue.object.injEq]
    refine List.map_congr_left fun e _ => ?_
    by_cases he : e.1 = "payload" <;> simp [he,hremove]
  | _ => rfl

section Identity

variable {ν : Type} {S : SerdeJson ν} {md5 : String → String} {exact : ν → Prop} {depth : ℕ}

theorem commandIdentityDigest_eq {payload : String} {v : JsonValue ν} (h : S.fromStr payload = some v) :
    commandIdentityDigest S md5 payload = md5 (S.toVec (withoutSentAt v)) := by
  rw [commandIdentityDigest,h,Option.getD_some]

theorem digest_eq_iff (hS : S.Faithful exact depth) (hmd5 : Function.Injective md5) {existing candidate : String}
    {v w : JsonValue ν} (hv : S.fromStr existing = some v) (hw : S.fromStr candidate = some w) :
    commandIdentityDigest S md5 candidate = commandIdentityDigest S md5 existing ↔
      withoutSentAt v = withoutSentAt w := by
  rw [commandIdentityDigest_eq hv,commandIdentityDigest_eq hw]
  constructor
  · intro h
    exact (hS.write_injective _ _ (kept_withoutSentAt (hS.read_kept _ _ hw))
      (kept_withoutSentAt (hS.read_kept _ _ hv)) (hmd5 h)).symm
  · intro h
    rw [h]

theorem legacy_of_digest (hS : S.Faithful exact depth) (hmd5 : Function.Injective md5) {existing candidate : String}
    {v w : JsonValue ν} (hv : S.fromStr existing = some v) (hw : S.fromStr candidate = some w)
    (hexact : (withoutSentAt w).Kept exact depth)
    (h : commandIdentityDigest S md5 candidate = payloadDigest md5 existing) :
    withoutSentAt v = withoutSentAt w := by
  rw [commandIdentityDigest_eq hw] at h
  have htext : S.toVec (withoutSentAt w) = existing := hmd5 h
  have hread := hS.read_write _ hexact
  rw [htext,hv,Option.some.injEq] at hread
  rw [hread,withoutSentAt_idem]

theorem commandIdentityMatches_iff (hS : S.Faithful exact depth) (hmd5 : Function.Injective md5)
    {existing candidate stored : String} {v w : JsonValue ν} (hv : S.fromStr existing = some v)
    (hw : S.fromStr candidate = some w) (hvexact : (withoutSentAt v).Kept exact depth)
    (hwexact : (withoutSentAt w).Kept exact depth)
    (hstored : commandIdentityDigestValid S md5 existing stored = true) :
    commandIdentityMatches S md5 existing candidate stored = true ↔ withoutSentAt v = withoutSentAt w := by
  rw [commandIdentityDigestValid,Bool.or_eq_true,beq_iff_eq,beq_iff_eq] at hstored
  rw [commandIdentityMatches]
  by_cases hdigest : commandIdentityDigest S md5 candidate = stored
  · rw [if_pos hdigest]
    refine ⟨fun _ => ?_,fun _ => rfl⟩
    cases hstored with
    | inl hidentity => exact (digest_eq_iff hS hmd5 hv hw).mp (hdigest.trans hidentity.symm)
    | inr hlegacy => exact legacy_of_digest hS hmd5 hv hw hwexact (hdigest.trans hlegacy.symm)
  · rw [if_neg hdigest]
    by_cases hlegacy : payloadDigest md5 existing = stored
    · rw [if_neg (not_not.mpr hlegacy),hv,hw]
      exact JsonValue.eq_iff hS.number hvexact hwexact
    · rw [if_pos hlegacy]
      refine ⟨nofun,fun heq => absurd ?_ hdigest⟩
      rw [← hstored.resolve_right hlegacy]
      exact (digest_eq_iff hS hmd5 hv hw).mpr heq

/-- Compaction drops the payload only where the digest alone decides. -/
theorem identityMatches_compact (existing candidate stored : String) :
    identityMatches S md5 (compact ⟨some existing,payloadDigest md5 existing,stored⟩) candidate =
      identityMatches S md5 ⟨some existing,payloadDigest md5 existing,stored⟩ candidate := by
  by_cases hlegacy : stored = payloadDigest md5 existing
  · rw [compact,if_pos hlegacy]
  · rw [compact,if_neg hlegacy]
    change (commandIdentityDigest S md5 candidate == stored) = commandIdentityMatches S md5 existing candidate stored
    unfold commandIdentityMatches
    rw [if_pos (Ne.symm hlegacy)]
    by_cases hdigest : commandIdentityDigest S md5 candidate = stored
    · rw [if_pos hdigest]
      exact beq_iff_eq.mpr hdigest
    · rw [if_neg hdigest]
      exact beq_eq_false_iff_ne.mpr hdigest

/-- Whether a command is the stored one depends on its value without the time only, where its
numbers are exact: not on which of the two digests is stored, and not on what compaction kept. -/
theorem command_identity (hS : S.Faithful exact depth) (hmd5 : Function.Injective md5) :
    (∀ existing candidate stored fields fields',
      S.fromStr existing = some (.object fields) → S.fromStr candidate = some (.object fields') →
      (withoutSentAt (.object fields)).Kept exact depth → (withoutSentAt (.object fields')).Kept exact depth →
      commandIdentityDigestValid S md5 existing stored = true →
      (commandIdentityMatches S md5 existing candidate stored = true ↔
        withoutSentAt (.object fields) = withoutSentAt (.object fields'))) ∧
    ∀ existing candidate stored,
      identityMatches S md5 (compact ⟨some existing,payloadDigest md5 existing,stored⟩) candidate =
        commandIdentityMatches S md5 existing candidate stored :=
  ⟨fun _ _ _ _ _ hv hw hvexact hwexact hstored =>
      commandIdentityMatches_iff hS hmd5 hv hw hvexact hwexact hstored,
    fun existing candidate stored => identityMatches_compact existing candidate stored⟩

end Identity

/-! ### Numbers -/

/-- The naturals of a command, read and written as such. -/
def naturals (depth : ℕ) : SerdeJson ℕ where
  fromStr text := ((Json.parse text).map JsonValue.ofJson).filter fun v =>
    decide (v.Kept (fun _ => True) depth)
  toVec v := Json.compact v.toJson
  numberEq m n := m == n

theorem naturals_faithful (depth : ℕ) : (naturals depth).Faithful (fun _ => True) depth where
  read_kept text v h := by
    obtain ⟨-,hkept⟩ := Option.filter_eq_some_iff.mp h
    exact of_decide_eq_true hkept
  write_injective v w _ _ h := by
    have hjson := congrArg Json.parse h
    simp only [naturals,Json.parse_compact,Option.some.injEq] at hjson
    rw [← JsonValue.ofJson_toJson v,hjson,JsonValue.ofJson_toJson]
  read_write v h := by
    simp [naturals,Json.parse_compact,h]
  number m n _ _ := beq_iff_eq

theorem naturals_read {depth : ℕ} {v : JsonValue ℕ} (h : v.Kept (fun _ => True) depth) :
    (naturals depth).fromStr (Json.compact v.toJson) = some v := (naturals_faithful depth).read_write v h

def sampleFields (sentAt : String) : List (String × JsonValue ℕ) :=
  [("payload",.object [("command_id",.string "c"),("sent_at",.string sentAt),("seq",.number 1)])]

/-- The command of an old row is known again under another time. -/
theorem sample_command_identity :
    commandIdentityMatches (naturals 127) id (Json.compact (JsonValue.object (sampleFields "old")).toJson)
      (Json.compact (JsonValue.object (sampleFields "new")).toJson)
      (payloadDigest id (Json.compact (JsonValue.object (sampleFields "old")).toJson)) = true := by
  have hkept : ∀ sentAt, (JsonValue.object (sampleFields sentAt)).Kept (fun _ => True) 127 := by
    intro sentAt
    have hkeys : ["command_id","sent_at","seq"].Pairwise (· < ·) := by decide
    refine ⟨List.pairwise_singleton _ _,fun e he => ?_⟩
    rw [List.mem_singleton.mp he]
    refine ⟨List.pairwise_map.mp hkeys,fun e he => ?_⟩
    simp only [List.mem_cons,List.not_mem_nil,or_false] at he
    rcases he with rfl | rfl | rfl <;> exact trivial
  have hvalid : ∀ text, commandIdentityDigestValid (naturals 127) id text (payloadDigest id text) = true := by
    intro text
    rw [commandIdentityDigestValid,beq_self_eq_true,Bool.or_true]
  have hsame : withoutSentAt (JsonValue.object (sampleFields "old")) =
      withoutSentAt (.object (sampleFields "new")) := by
    rfl
  exact ((command_identity (naturals_faithful 127) Function.injective_id).1 _ _ _ _ _ (naturals_read (hkept "old"))
    (naturals_read (hkept "new")) (kept_withoutSentAt (hkept "old")) (kept_withoutSentAt (hkept "new"))
    (hvalid _)).mpr hsame

inductive FloatZero
  | positive | negative
  deriving DecidableEq, Repr

def FloatZero.text : FloatZero → String
  | .positive => "0.0"
  | .negative => "-0.0"

def zeroPayload (zero : FloatZero) : String :=
  "\x7b\"payload\":\x7b\"sent_at\":\"t\",\"x\":" ++ zero.text ++ "\x7d\x7d"

/-- Both zeros as the library treats them in one kind of payload: written apart, and equal. -/
def zeros : SerdeJson FloatZero where
  fromStr text :=
    ([FloatZero.positive,.negative].find? fun zero => decide (text = zeroPayload zero)).map fun zero =>
      .object [("payload",.object [("sent_at",.string "t"),("x",.number zero)])]
  toVec
    | .object [(_,.object [(_,.number zero)])] => "\x7b\"payload\":\x7b\"x\":" ++ zero.text ++ "\x7d\x7d"
    | _ => ""
  numberEq _ _ := true

/-- Two commands with zeros of different signs are one under the old digest, and two under the
new. -/
theorem zero_identity_depends_on_digest :
    commandIdentityMatches zeros id (zeroPayload .positive) (zeroPayload .negative)
      (payloadDigest id (zeroPayload .positive)) = true ∧
    commandIdentityMatches zeros id (zeroPayload .positive) (zeroPayload .negative)
      (commandIdentityDigest zeros id (zeroPayload .positive)) = false := by
  decide

end CommandIdentity
end North
