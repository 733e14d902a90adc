import North.EmailAuthRuns
import North.Lib.Framing
import North.Lib.Text

/-! The message that `otp_digest` authenticates. It is told by the email, the row and the code,
each of which is told by the message, so that a code that verifies where it was not issued shows
two messages with one MAC. -/
namespace North
namespace EmailAuth

open Machine

/-- `append_len_prefixed` with its `expect`, which fails on a length of more than 32 bits. -/
def checkedAppendLenPrefixed (output value : List UInt8) : Option (List UInt8) :=
  if value.length < 2^32 then some (appendLenPrefixed output value) else none

/-- `u64::try_from(id)` on an `i64`. -/
def toU64 (id : ℤ) : Option ℕ := if 0 ≤ id then some id.toNat else none

/-- The message that `otp_digest` gives to the MAC; `none` where an `expect` of it fails. -/
def otpMessage (canonicalEmail : String) (id : ℤ) (code : String) : Option (List UInt8) := do
  let id ← toU64 id
  let message ← checkedAppendLenPrefixed (utf8 "north/otp/verification-code/v1\x00") (utf8 canonicalEmail)
  checkedAppendLenPrefixed (message ++ toBeBytes 8 id) (utf8 code)

theorem toBeBytes_succ (n value : ℕ) :
    toBeBytes (n+1) value = UInt8.ofNat (value/256^n)::toBeBytes n value := by
  simp only [toBeBytes,List.range_succ_eq_map,List.map_cons,List.map_map,Nat.add_sub_cancel,Nat.sub_zero]
  congr 1
  apply List.map_congr_left
  intro i hi
  have hexp : n-(i+1) = n-1-i := by omega
  simp only [Function.comp_apply,Nat.succ_eq_add_one,hexp]

theorem toBeBytes_mod {n value value' : ℕ} (h : toBeBytes n value = toBeBytes n value') :
    value%256^n = value'%256^n := by
  induction n with
  | zero => simp [Nat.mod_one]
  | succ n ih =>
    rw [toBeBytes_succ,toBeBytes_succ,List.cons.injEq] at h
    have hbyte : value/256^n%256 = value'/256^n%256 := by
      simpa using congrArg UInt8.toNat h.1
    rw [Nat.mod_pow_succ,Nat.mod_pow_succ,ih h.2,hbyte]

theorem framed_toBeBytes (n : ℕ) : Framed {value | value < 256^n} (toBeBytes n) := by
  refine Framed.of_width (fun value _ => length_toBeBytes n value) fun value hvalue value' hvalue' h => ?_
  have hmod := toBeBytes_mod h
  rwa [Nat.mod_eq_of_lt hvalue,Nat.mod_eq_of_lt hvalue'] at hmod

/-- A text with its length in front, as `append_len_prefixed` adds it. -/
def lengthField (value : String) : List UInt8 := toBeBytes 4 (utf8 value).length ++ utf8 value

def Sized (value : String) : Prop := (utf8 value).length < 2^32

theorem framed_lengthField : Framed {value | Sized value} lengthField := by
  have hlength : Framed {xs : List UInt8 | xs.length < 256^4} fun xs => toBeBytes 4 xs.length ++ xs :=
    Framed.of_length (framed_toBeBytes 4)
  exact hlength.comp Text.asBytes_injective.injOn fun value hvalue => hvalue

/-- The bytes under the MAC when no length and no id is too large for its field. -/
def otpBytes (canonicalEmail : String) (id : ℕ) (code : String) : List UInt8 :=
  utf8 "north/otp/verification-code/v1\x00" ++
    (lengthField canonicalEmail ++ (toBeBytes 8 id ++ lengthField code))

theorem otpDigest_eq (A : Auth) (canonicalEmail : String) (id : ℕ) (code : String) :
    otpDigest A canonicalEmail id code = A.hmac (otpBytes canonicalEmail id code) := by
  simp only [otpDigest,otpBytes,appendLenPrefixed,lengthField,List.append_assoc]

theorem otpMessage_eq_some {canonicalEmail code : String} {id : ℤ} {message : List UInt8} :
    otpMessage canonicalEmail id code = some message ↔ 0 ≤ id ∧ Sized canonicalEmail ∧ Sized code ∧
      otpBytes canonicalEmail id.toNat code = message := by
  have hbytes : appendLenPrefixed (appendLenPrefixed (utf8 "north/otp/verification-code/v1\x00")
      (utf8 canonicalEmail) ++ toBeBytes 8 id.toNat) (utf8 code) =
      otpBytes canonicalEmail id.toNat code := by
    simp only [otpBytes,appendLenPrefixed,lengthField,List.append_assoc]
  simp only [otpMessage,toU64,checkedAppendLenPrefixed,bind,Option.bind_eq_some_iff,
    Option.ite_none_right_eq_some,Option.some.injEq]
  constructor
  · rintro ⟨_,⟨hid,rfl⟩,_,⟨hemail,rfl⟩,hcode,rfl⟩
    exact ⟨hid,hemail,hcode,hbytes.symm⟩
  · rintro ⟨hid,hemail,hcode,rfl⟩
    exact ⟨_,⟨hid,rfl⟩,_,⟨hemail,rfl⟩,hcode,hbytes⟩

/-- Within the ranges the message tells the email, the row and the code. -/
theorem otpBytes_determines {email email' code code' : String} {id id' : ℕ} (hemail : Sized email)
    (hemail' : Sized email') (hid : id < 2^64) (hid' : id' < 2^64) (hcode : Sized code)
    (hcode' : Sized code') (h : otpBytes email id code = otpBytes email' id' code') :
    email = email' ∧ id = id' ∧ code = code' := by
  have hwidth : (256 : ℕ)^8 = 2^64 := rfl
  have hframed := (framed_lengthField.append ((framed_toBeBytes 8).append framed_lengthField)).injOn
  have hfields : (email,id,code) ∈ {value | Sized value} ×ˢ {value | value < 256^8} ×ˢ {value | Sized value} :=
    ⟨hemail,hwidth ▸ hid,hcode⟩
  have hfields' : (email',id',code') ∈
      {value | Sized value} ×ˢ {value | value < 256^8} ×ˢ {value | Sized value} :=
    ⟨hemail',hwidth ▸ hid',hcode'⟩
  have hsame := hframed hfields hfields' (List.append_cancel_left h)
  simpa using hsame

/-- Two messages with one MAC. -/
def Collides (A : Auth) (message message' : List UInt8) : Prop :=
  message ≠ message' ∧ A.hmac message = A.hmac message'

theorem otpBytes_injective (email : String) (id : ℕ) : Function.Injective (otpBytes email id) := by
  intro code code' h
  apply otpDigest_injective (A := plainAuth) Function.injective_id email id
  rw [otpDigest_eq,otpDigest_eq,h]

theorem collides_of_digest {A : Auth} {email email' code code' : String} {id id' : ℕ}
    (hdigest : otpDigest A email id code = otpDigest A email' id' code')
    (hne : otpBytes email id code ≠ otpBytes email' id' code') :
    Collides A (otpBytes email id code) (otpBytes email' id' code') := by
  rw [otpDigest_eq,otpDigest_eq] at hdigest
  exact ⟨hne,hdigest⟩

/-- What a run accepted for a row was issued for this row, or shows a collision. -/
theorem success_issued {A : Auth} {acts : List Act} {w : World} (hrun : World.run A {} acts = some w)
    {s : Success} (hs : s ∈ w.successes) :
    ∃ i ∈ w.issued, i.rowId = s.rowId ∧ i.email = s.email ∧ (i.code = s.code ∨
      Collides A (otpBytes i.email i.rowId i.code) (otpBytes s.email s.rowId s.code)) := by
  have h := run_kept inv_fresh hrun
  obtain ⟨r,hr,hid,hemail,-,-,hhash,-⟩ := h.tables.successes s hs
  obtain ⟨i,hi,hiid,hiemail,hissued,-⟩ := h.tables.issued r hr
  refine ⟨i,hi,hiid.trans hid,hiemail.trans hemail,?_⟩
  by_cases hcode : i.code = s.code
  · exact .inl hcode
  · rw [hiemail,hiid,← hemail,← hid]
    exact .inr (collides_of_digest (hissued.symm.trans hhash)
      fun hbytes => hcode (otpBytes_injective _ _ hbytes))

/-- The message under the MAC is an injective encoding of the email, the row and the code, so
that a code verifies where it was not issued by a collision of the MAC alone. -/
theorem otp_message_injective (A : Auth) :
    (∀ email code (id : ℤ), 0 ≤ id → Sized email → Sized code → ∃ message,
      otpMessage email id code = some message ∧ otpDigest A email id.toNat code = A.hmac message) ∧
    (∀ email email' code code' message, ∀ id id' : ℤ, id ≤ i64Max → id' ≤ i64Max →
      otpMessage email id code = some message → otpMessage email' id' code' = some message →
        email = email' ∧ id = id' ∧ code = code') ∧
    (∀ email email' code code' message message', ∀ id id' : ℤ, id ≤ i64Max → id' ≤ i64Max →
      otpMessage email id code = some message → otpMessage email' id' code' = some message' →
      otpDigest A email id.toNat code = otpDigest A email' id'.toNat code' →
        (email = email' ∧ id = id' ∧ code = code') ∨ Collides A message message') ∧
    (∀ acts w, World.run A {} acts = some w → ∀ s ∈ w.successes,
      ∃ i ∈ w.issued, i.rowId = s.rowId ∧ i.email = s.email ∧ (i.code = s.code ∨
        Collides A (otpBytes i.email i.rowId i.code) (otpBytes s.email s.rowId s.code))) := by
  have hinjective : ∀ email email' code code' message, ∀ id id' : ℤ, id ≤ i64Max → id' ≤ i64Max →
      otpMessage email id code = some message → otpMessage email' id' code' = some message →
        email = email' ∧ id = id' ∧ code = code' := by
    intro email email' code code' message id id' hmax hmax' h h'
    obtain ⟨hid,hemail,hcode,hmessage⟩ := otpMessage_eq_some.mp h
    obtain ⟨hid',hemail',hcode',hmessage'⟩ := otpMessage_eq_some.mp h'
    have hlarge : i64Max < 2^64 := by decide
    obtain ⟨hsame,hrow,hsecret⟩ := otpBytes_determines hemail hemail' (by omega) (by omega) hcode hcode'
      (hmessage.trans hmessage'.symm)
    exact ⟨hsame,by omega,hsecret⟩
  refine ⟨?_,hinjective,?_,fun acts w hrun s hs => success_issued hrun hs⟩
  · intro email code id hid hemail hcode
    exact ⟨_,otpMessage_eq_some.mpr ⟨hid,hemail,hcode,rfl⟩,otpDigest_eq A email id.toNat code⟩
  · intro email email' code code' message message' id id' hmax hmax' h h' hdigest
    by_cases hsame : message = message'
    · exact .inl (hinjective email email' code code' message id id' hmax hmax' h (hsame ▸ h'))
    · obtain ⟨-,-,-,rfl⟩ := otpMessage_eq_some.mp h
      obtain ⟨-,-,-,rfl⟩ := otpMessage_eq_some.mp h'
      exact .inr (collides_of_digest hdigest hsame)

/-- Two rows of one email with one code have different messages and, under an exact MAC, digests. -/
theorem sample_messages_differ : otpMessage "a@north" 1 "111111" ≠ otpMessage "a@north" 2 "111111" ∧
    otpDigest plainAuth "a@north" 1 "111111" ≠ otpDigest plainAuth "a@north" 2 "111111" := by
  obtain ⟨hsome,hinjective,hdigest,-⟩ := otp_message_injective plainAuth
  have hemail : Sized "a@north" := by unfold Sized; decide
  have hcode : Sized "111111" := by unfold Sized; decide
  obtain ⟨m,hm,-⟩ := hsome "a@north" "111111" 1 (by decide) hemail hcode
  obtain ⟨m',hm',-⟩ := hsome "a@north" "111111" 2 (by decide) hemail hcode
  constructor
  · intro heq
    exact absurd (hinjective _ _ _ _ m 1 2 (by decide) (by decide) hm (heq ▸ hm)).2.1 (by decide)
  · intro heq
    rcases hdigest _ _ _ _ m m' 1 2 (by decide) (by decide) hm hm' heq with hsame | hcollides
    · exact absurd hsame.2.1 (by decide)
    · exact hcollides.1 hcollides.2

end EmailAuth
end North
