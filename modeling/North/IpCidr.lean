import North.Lib.Ip

/-! The networks of `public_abuse`: which proxies are trusted, and by what clients are counted.
Arithmetic of the fixed-width types that overflows is `none`. -/
namespace North
namespace PublicAbuse

open Ip

structure CidrParseError where
  deriving DecidableEq, Repr

def checkedSub (m n : ℕ) : Option ℕ := if n ≤ m then some (m-n) else none

def checkedShl {w : ℕ} (x : BitVec w) (n : ℕ) : Option (BitVec w) := if n < w then some (x <<< n) else none

/-- The bits under the mask of the prefix, which is `MAX << (w - prefix_len)`. -/
def maskBits {w : ℕ} (bits : BitVec w) (prefixLen : ℕ) : Option (BitVec w) := do
  let mask ←
    if prefixLen = 0 then some 0#w
    else (checkedSub w prefixLen).bind (checkedShl (BitVec.allOnes w))
  some (bits &&& mask)

def maskIp (address : IpAddr) (prefixLen : ℕ) : Option IpAddr :=
  match address with
  | .v4 address => (maskBits address prefixLen).map .v4
  | .v6 address => (maskBits address prefixLen).map .v6

/-- `to_ipv4` keeps the last 32 bits. -/
def mappedIpv4 (address : Ipv6Addr) : Option Ipv4Addr :=
  let segments := segments address
  if segments.take 5 = [0,0,0,0,0] ∧ segments[5]? = some 0xffff then some (address.setWidth 32) else none

def normalizeIp (address : IpAddr) : IpAddr :=
  match address with
  | .v4 address => .v4 address
  | .v6 address => ((mappedIpv4 address).map .v4).getD (.v6 address)

def maxPrefix : IpAddr → ℕ
  | .v4 _ => 32
  | .v6 _ => 128

/-! ### Bits -/

section Bits

variable {w : ℕ}

/-- The mask of the first bits. -/
def firstBits (w prefixLen : ℕ) : BitVec w :=
  if prefixLen = 0 then 0#w else BitVec.allOnes w <<< (w-prefixLen)

theorem maskBits_eq {prefixLen : ℕ} (h : prefixLen ≤ w) (bits : BitVec w) :
    maskBits bits prefixLen = some (bits &&& firstBits w prefixLen) := by
  unfold maskBits firstBits
  by_cases hzero : prefixLen = 0
  · simp [hzero]
  · have hlt : w-prefixLen < w := by omega
    simp [hzero,checkedSub,h,checkedShl,hlt]

@[simp] theorem getMsbD_firstBits {prefixLen : ℕ} (h : prefixLen ≤ w) (i : ℕ) :
    (firstBits w prefixLen).getMsbD i = decide (i < prefixLen) := by
  unfold firstBits
  split_ifs with hzero
  · simp [hzero]
  · rw [BitVec.getMsbD_shiftLeft,BitVec.getMsbD_allOnes,decide_eq_decide]
    omega

/-- The first bits of two addresses are the same. -/
def SameFirst (n : ℕ) (x y : BitVec w) : Prop := ∀ i < n, x.getMsbD i = y.getMsbD i

instance (n : ℕ) (x y : BitVec w) : Decidable (SameFirst n x y) := Nat.decidableBallLT n _

theorem masked_bits {prefixLen : ℕ} (h : prefixLen ≤ w) {x : BitVec w}
    (hx : x &&& firstBits w prefixLen = x) {i : ℕ} (hi : prefixLen ≤ i) : x.getMsbD i = false := by
  rw [← hx,BitVec.getMsbD_and,getMsbD_firstBits h]
  simp [Nat.not_lt_of_le hi]

theorem mask_eq_iff {prefixLen : ℕ} (h : prefixLen ≤ w) {network : BitVec w}
    (hnetwork : network &&& firstBits w prefixLen = network) (x : BitVec w) :
    x &&& firstBits w prefixLen = network ↔ SameFirst prefixLen network x := by
  constructor
  · rintro rfl i hi
    rw [BitVec.getMsbD_and,getMsbD_firstBits h]
    simp [hi]
  · intro hsame
    refine BitVec.eq_of_getMsbD_eq fun i _ => ?_
    rw [BitVec.getMsbD_and,getMsbD_firstBits h]
    by_cases hi : i < prefixLen
    · simp [hi,hsame i hi]
    · simp [hi,masked_bits h hnetwork (Nat.le_of_not_lt hi)]

/-- The address with one bit changed. -/
def flip (x : BitVec w) (i : ℕ) : BitVec w := x ^^^ BitVec.twoPow w (w-1-i)

theorem getMsbD_flip {x : BitVec w} {i j : ℕ} (hi : i < w) :
    (flip x i).getMsbD j = (x.getMsbD j ^^ decide (j = i)) := by
  rw [flip,BitVec.getMsbD_xor,BitVec.getMsbD_twoPow]
  congr 1
  rw [← Bool.decide_and,decide_eq_decide]
  omega

theorem sameFirst_flip {x : BitVec w} {i n : ℕ} (hi : i < w) (hn : n ≤ i) : SameFirst n x (flip x i) := by
  intro j hj
  rw [getMsbD_flip hi,decide_eq_false (by omega : j ≠ i),Bool.xor_false]

theorem not_sameFirst_flip {x y : BitVec w} {i n : ℕ} (hi : i < w) (hn : i < n) (h : SameFirst n y x) :
    ¬SameFirst n y (flip x i) := by
  intro hflip
  have hbit := hflip i hn
  rw [h i hn,getMsbD_flip hi] at hbit
  simp at hbit

theorem eq_of_sameFirst {prefixLen : ℕ} (h : prefixLen ≤ w) {x y : BitVec w}
    (hx : x &&& firstBits w prefixLen = x) (hy : y &&& firstBits w prefixLen = y)
    (hsame : SameFirst prefixLen x y) : x = y := by
  refine BitVec.eq_of_getMsbD_eq fun i _ => ?_
  by_cases hi : i < prefixLen
  · exact hsame i hi
  · rw [masked_bits h hx (Nat.le_of_not_lt hi),masked_bits h hy (Nat.le_of_not_lt hi)]

theorem mask_idem {prefixLen : ℕ} (x : BitVec w) :
    x &&& firstBits w prefixLen &&& firstBits w prefixLen = x &&& firstBits w prefixLen := by
  rw [BitVec.and_assoc,BitVec.and_self]

end Bits

theorem getLsbD_ffff (j : ℕ) : (0xffff#128).getLsbD j = decide (j < 16) := by
  have hvalue : 0xffff = 2^16-1 := rfl
  rw [BitVec.getLsbD_ofNat,hvalue,Nat.testBit_two_pow_sub_one]
  by_cases hj : j < 16
  · have hwide : j < 128 := by omega
    simp [hj,hwide]
  · simp [hj]

theorem mappedIpv4_isSome_iff_high (a : Ipv6Addr) :
    (mappedIpv4 a).isSome = true ↔ a >>> 32 = 0xffff#128 := by
  have hlt := a.isLt
  have hhigh : a >>> 32 = 0xffff#128 ↔ a.toNat/65536/65536 = 0xffff := by
    rw [← BitVec.toNat_inj,BitVec.toNat_ushiftRight,Nat.shiftRight_eq_div_pow,Nat.div_div_eq_div_mul]
    rfl
  rw [hhigh,mappedIpv4]
  simp only [segments,places,List.nil_append,List.cons_append,List.take_succ_cons,
    List.take_zero,List.cons.injEq,and_true,List.getElem?_cons_succ,List.getElem?_cons_zero,
    Option.some.injEq,Option.isSome_ite]
  omega

/-- The bits of a mapped address in front of the IPv4 address. -/
theorem mappedIpv4_isSome (a : Ipv6Addr) :
    (mappedIpv4 a).isSome = true ↔ ∀ i < 96, a.getMsbD i = decide (80 ≤ i) := by
  rw [mappedIpv4_isSome_iff_high]
  constructor
  · intro h i hi
    have hbit := congrArg (fun x => x.getLsbD (95-i)) h
    simp only [BitVec.getLsbD_ushiftRight,getLsbD_ffff] at hbit
    rw [BitVec.getMsbD_eq_getLsbD,decide_eq_true (by omega : i < 128),Bool.true_and,
      (by omega : 128-1-i = 32+(95-i)),hbit,decide_eq_decide]
    omega
  · intro h
    refine BitVec.eq_of_getLsbD_eq fun j _ => ?_
    rw [BitVec.getLsbD_ushiftRight,getLsbD_ffff]
    by_cases hj : j < 96
    · have hbit := h (95-j) (by omega)
      rw [BitVec.getMsbD_eq_getLsbD,decide_eq_true (by omega : 95-j < 128),Bool.true_and,
        (by omega : 128-1-(95-j) = 32+j)] at hbit
      rw [hbit,decide_eq_decide]
      omega
    · rw [BitVec.getLsbD_of_ge a (32+j) (by omega)]
      exact (decide_eq_false (by omega)).symm

/-! ### Networks -/

theorem normalizeIp_v6 {a : Ipv6Addr} : normalizeIp (.v6 a) = .v6 a ↔ mappedIpv4 a = none := by
  cases h : mappedIpv4 a <;> simp [normalizeIp,h]

@[simp] theorem normalizeIp_idem (address : IpAddr) : normalizeIp (normalizeIp address) = normalizeIp address := by
  cases address with
  | v4 a => rfl
  | v6 a =>
    cases h : mappedIpv4 a with
    | none => rw [normalizeIp_v6.mpr h,normalizeIp_v6.mpr h]
    | some v4 => simp [normalizeIp,h]

/-- Masking never makes a mapped address: its mark lies in the bits that are kept. -/
theorem mappedIpv4_masked {a : Ipv6Addr} (h : mappedIpv4 a = none) {prefixLen : ℕ} (hle : prefixLen ≤ 128) :
    mappedIpv4 (a &&& firstBits 128 prefixLen) = none := by
  by_contra hmapped
  have hbits := (mappedIpv4_isSome _).mp (Option.isSome_iff_ne_none.mpr hmapped)
  have hlong : 95 < prefixLen := by
    have hlast := hbits 95 (by decide)
    rw [BitVec.getMsbD_and,getMsbD_firstBits hle] at hlast
    simpa using And.right (by simpa using hlast)
  have hsame : (mappedIpv4 a).isSome = true := by
    refine (mappedIpv4_isSome a).mpr fun i hi => ?_
    have hbit := hbits i hi
    rw [BitVec.getMsbD_and,getMsbD_firstBits hle,decide_eq_true (by omega : i < prefixLen),
      Bool.and_true] at hbit
    exact hbit
  rw [h] at hsame
  cases hsame

theorem maskIp_v4 {prefixLen : ℕ} (h : prefixLen ≤ 32) (x : Ipv4Addr) :
    maskIp (.v4 x) prefixLen = some (.v4 (x &&& firstBits 32 prefixLen)) :=
  congrArg (Option.map IpAddr.v4) (maskBits_eq h x)

theorem maskIp_v6 {prefixLen : ℕ} (h : prefixLen ≤ 128) (x : Ipv6Addr) :
    maskIp (.v6 x) prefixLen = some (.v6 (x &&& firstBits 128 prefixLen)) :=
  congrArg (Option.map IpAddr.v6) (maskBits_eq h x)

theorem maskIp_spec {network : IpAddr} (hnormal : normalizeIp network = network) {prefixLen : ℕ}
    (hle : prefixLen ≤ maxPrefix network) :
    ∃ masked, maskIp network prefixLen = some masked ∧ normalizeIp masked = masked ∧
      maxPrefix masked = maxPrefix network ∧ maskIp masked prefixLen = some masked := by
  cases network with
  | v4 a => exact ⟨_,maskIp_v4 hle a,rfl,rfl,by rw [maskIp_v4 hle,mask_idem]⟩
  | v6 a =>
    exact ⟨_,maskIp_v6 hle a,normalizeIp_v6.mpr (mappedIpv4_masked (normalizeIp_v6.mp hnormal) hle),rfl,
      by rw [maskIp_v6 hle,mask_idem]⟩

/-- A network is normal and masked by its prefix. -/
structure IpCidr where
  network : IpAddr
  prefixLen : ℕ
  normal : normalizeIp network = network
  prefix_le : prefixLen ≤ maxPrefix network
  canonical : maskIp network prefixLen = some network
  deriving DecidableEq

theorem masked_network {network masked : IpAddr} {prefixLen : ℕ} (hle : prefixLen ≤ maxPrefix (normalizeIp network))
    (hmask : maskIp (normalizeIp network) prefixLen = some masked) :
    normalizeIp masked = masked ∧ prefixLen ≤ maxPrefix masked ∧ maskIp masked prefixLen = some masked := by
  obtain ⟨m,hm,hnormal,hmax,hcanonical⟩ := maskIp_spec (normalizeIp_idem network) hle
  obtain rfl : m = masked := Option.some.inj (hm.symm.trans hmask)
  exact ⟨hnormal,hmax ▸ hle,hcanonical⟩

namespace IpCidr

def new (network : IpAddr) (prefixLen : ℕ) : Option (Except CidrParseError IpCidr) :=
  if h : maxPrefix (normalizeIp network) < prefixLen then some (.error ⟨⟩)
  else match hmask : maskIp (normalizeIp network) prefixLen with
    | none => none
    | some masked =>
      have hvalid := masked_network (Nat.le_of_not_lt h) hmask
      some (.ok ⟨masked,prefixLen,hvalid.1,hvalid.2.1,hvalid.2.2⟩)

def contains (c : IpCidr) (address : IpAddr) : Option Bool :=
  match c.network, normalizeIp address with
  | .v4 network, .v4 address => (maskIp (.v4 address) c.prefixLen).map (· == .v4 network)
  | .v6 network, .v6 address => (maskIp (.v6 address) c.prefixLen).map (· == .v6 network)
  | _, _ => some false

/-- `none` also stands for the panic of its `expect`. -/
def primaryKey (address : IpAddr) : Option IpCidr :=
  let address := normalizeIp address
  let prefixLen := match address with
    | .v4 _ => 32
    | .v6 _ => 64
  match new address prefixLen with
  | some (.ok c) => some c
  | _ => none

def splitOnce (value : List Char) (sep : Char) : Option (List Char × List Char) :=
  match value.dropWhile (· != sep) with
  | [] => none
  | _::rest => some (value.takeWhile (· != sep),rest)

def fromStr (value : List Char) : Option (Except CidrParseError IpCidr) :=
  match splitOnce value '/' with
  | none => some (.error ⟨⟩)
  | some (address,pre) =>
    match parse address, Digits.parse 10 (2^8) pre with
    | some (.v6 address), some prefixLen =>
      match mappedIpv4 address with
      | some address =>
        if prefixLen < 96 then some (.error ⟨⟩)
        else (checkedSub prefixLen 96).bind (new (.v4 address))
      | none => new (.v6 address) prefixLen
    | some address, some prefixLen => new (normalizeIp address) prefixLen
    | _, _ => some (.error ⟨⟩)

def display (c : IpCidr) : List Char := Ip.display c.network ++ '/'::Digits.text 10 c.prefixLen

/-! ### What a network means -/

/-- Two addresses are of one family and have the same first bits. -/
def Agree (n : ℕ) : IpAddr → IpAddr → Prop
  | .v4 x, .v4 y => SameFirst n x y
  | .v6 x, .v6 y => SameFirst n x y
  | _, _ => False

instance (n : ℕ) : (x y : IpAddr) → Decidable (Agree n x y)
  | .v4 x, .v4 y => inferInstanceAs (Decidable (SameFirst n x y))
  | .v6 x, .v6 y => inferInstanceAs (Decidable (SameFirst n x y))
  | .v4 _, .v6 _ => inferInstanceAs (Decidable False)
  | .v6 _, .v4 _ => inferInstanceAs (Decidable False)

@[ext] theorem ext {c d : IpCidr} (hnetwork : c.network = d.network) (hlen : c.prefixLen = d.prefixLen) :
    c = d := by
  cases c
  cases d
  cases hnetwork
  cases hlen
  rfl

/-- A network of a family is its own first bits, and has no others. -/
theorem v4_masked {c : IpCidr} {network : Ipv4Addr} (h : c.network = .v4 network) :
    c.prefixLen ≤ 32 ∧ network &&& firstBits 32 c.prefixLen = network := by
  have hle := c.prefix_le
  have hcanonical := c.canonical
  rw [h] at hle hcanonical
  refine ⟨hle,?_⟩
  rw [maskIp_v4 hle] at hcanonical
  simpa using hcanonical

theorem v6_masked {c : IpCidr} {network : Ipv6Addr} (h : c.network = .v6 network) :
    c.prefixLen ≤ 128 ∧ network &&& firstBits 128 c.prefixLen = network ∧ mappedIpv4 network = none := by
  have hle := c.prefix_le
  have hcanonical := c.canonical
  have hnormal := c.normal
  rw [h] at hle hcanonical hnormal
  refine ⟨hle,?_,normalizeIp_v6.mp hnormal⟩
  rw [maskIp_v6 hle] at hcanonical
  simpa using hcanonical

theorem contains_eq (c : IpCidr) (address : IpAddr) :
    c.contains address = some (decide (Agree c.prefixLen c.network (normalizeIp address))) := by
  unfold contains
  cases hnetwork : c.network with
  | v4 network =>
    obtain ⟨hle,hmasked⟩ := v4_masked hnetwork
    cases hnormal : normalizeIp address with
    | v4 x =>
      simp only [maskIp_v4 hle,Option.map_some,Option.some.injEq]
      refine Bool.eq_iff_iff.mpr ?_
      rw [decide_eq_true_eq,beq_iff_eq,IpAddr.v4.injEq]
      exact mask_eq_iff hle hmasked x
    | v6 x => exact congrArg some (decide_eq_false id).symm
  | v6 network =>
    obtain ⟨hle,hmasked,-⟩ := v6_masked hnetwork
    cases hnormal : normalizeIp address with
    | v4 x => exact congrArg some (decide_eq_false id).symm
    | v6 x =>
      simp only [maskIp_v6 hle,Option.map_some,Option.some.injEq]
      refine Bool.eq_iff_iff.mpr ?_
      rw [decide_eq_true_eq,beq_iff_eq,IpAddr.v6.injEq]
      exact mask_eq_iff hle hmasked x

theorem contains_iff {c : IpCidr} {address : IpAddr} :
    c.contains address = some true ↔ Agree c.prefixLen c.network (normalizeIp address) := by
  rw [contains_eq,Option.some.injEq,decide_eq_true_eq]

theorem new_ok {network : IpAddr} {prefixLen : ℕ} (hle : prefixLen ≤ maxPrefix (normalizeIp network)) :
    ∃ c, new network prefixLen = some (.ok c) ∧ maskIp (normalizeIp network) prefixLen = some c.network ∧
      c.prefixLen = prefixLen := by
  obtain ⟨masked,hmask,-⟩ := maskIp_spec (normalizeIp_idem network) hle
  unfold new
  rw [dif_neg (Nat.not_lt_of_le hle)]
  split
  · rename_i hnone
    rw [hmask] at hnone
    cases hnone
  · rename_i masked' hmasked
    exact ⟨_,rfl,hmasked,rfl⟩

theorem new_isSome (network : IpAddr) (prefixLen : ℕ) : (new network prefixLen).isSome = true := by
  by_cases hlong : maxPrefix (normalizeIp network) < prefixLen
  · rw [new,dif_pos hlong]
    rfl
  · obtain ⟨c,hc,-⟩ := new_ok (Nat.le_of_not_lt hlong)
    rw [hc]
    rfl

theorem new_self (c : IpCidr) : new c.network c.prefixLen = some (.ok c) := by
  have hle : c.prefixLen ≤ maxPrefix (normalizeIp c.network) := by
    rw [c.normal]
    exact c.prefix_le
  obtain ⟨d,hd,hmask,hlen⟩ := new_ok hle
  rw [c.normal,c.canonical,Option.some.injEq] at hmask
  rw [hd,ext hmask hlen.symm]

theorem fromStr_isSome (value : List Char) : (fromStr value).isSome = true := by
  unfold fromStr
  split
  · rfl
  · split
    · split
      · split_ifs with hshort
        · rfl
        · rw [checkedSub,if_pos (Nat.le_of_not_lt hshort)]
          exact new_isSome _ _
      · exact new_isSome _ _
    · exact new_isSome _ _
    · rfl

theorem splitOnce_append {before : List Char} {sep : Char} (h : sep ∉ before) (rest : List Char) :
    splitOnce (before ++ sep::rest) sep = some (before,rest) := by
  have hbefore : ∀ c ∈ before, (c != sep) = true := by
    intro c hc
    have hne : c ≠ sep := fun heq => h (heq ▸ hc)
    simpa using hne
  have htake : (before ++ sep::rest).takeWhile (· != sep) = before := by
    rw [List.takeWhile_append_of_pos hbefore]
    simp
  have hdrop : (before ++ sep::rest).dropWhile (· != sep) = sep::rest := by
    rw [List.dropWhile_append_of_pos hbefore]
    simp
  rw [splitOnce,hdrop,htake]

theorem slash_not_mem {text : List Char} {address : IpAddr} (h : parse text = some address) : '/' ∉ text := by
  intro hmem
  have hchar := parse_chars h '/' hmem
  have hslash : ipChar '/' = false := by decide
  rw [hslash] at hchar
  cases hchar

theorem fromStr_eq {text pre : List Char} {address : IpAddr} {prefixLen : ℕ}
    (haddress : parse text = some address) (hlen : Digits.parse 10 (2^8) pre = some prefixLen) :
    fromStr (text ++ '/'::pre) =
      match address with
      | .v4 address => new (.v4 address) prefixLen
      | .v6 address =>
        match mappedIpv4 address with
        | some address =>
          if prefixLen < 96 then some (.error ⟨⟩) else (checkedSub prefixLen 96).bind (new (.v4 address))
        | none => new (.v6 address) prefixLen := by
  rw [fromStr,splitOnce_append (slash_not_mem haddress)]
  simp only [haddress,hlen]
  cases address with
  | v4 address => rfl
  | v6 address => rfl

theorem fromStr_display (c : IpCidr) : fromStr c.display = some (.ok c) := by
  have hsmall : c.prefixLen < 2^8 := by
    have hle := c.prefix_le
    have hmax : maxPrefix c.network ≤ 128 := by
      cases c.network with
      | v4 _ => exact (by decide : 32 ≤ 128)
      | v6 _ => exact Nat.le_refl 128
    omega
  rw [display,fromStr_eq (parse_display c.network) (Digits.parse_text (by decide) (by decide) hsmall)]
  have hself := new_self c
  cases hnetwork : c.network with
  | v4 network =>
    rw [hnetwork] at hself
    exact hself
  | v6 network =>
    rw [hnetwork] at hself
    simpa only [(v6_masked hnetwork).2.2] using hself

/-- A mapped text denotes what its IPv4 address denotes with a prefix shorter by 96. -/
theorem fromStr_mapped {text pre : List Char} {address : Ipv6Addr} {v4 : Ipv4Addr} {prefixLen : ℕ}
    (haddress : parse text = some (.v6 address)) (hmapped : mappedIpv4 address = some v4)
    (hlen : Digits.parse 10 (2^8) pre = some prefixLen) (hlong : 96 ≤ prefixLen) :
    fromStr (text ++ '/'::pre) = fromStr (displayIpv4 v4 ++ '/'::Digits.text 10 (prefixLen-96)) := by
  have hsmall : prefixLen < 2^8 := Digits.parse_lt hlen
  have hshort : Digits.parse 10 (2^8) (Digits.text 10 (prefixLen-96)) = some (prefixLen-96) :=
    Digits.parse_text (by decide) (by decide) (by omega)
  rw [fromStr_eq haddress hlen,fromStr_eq (parse_displayIpv4 v4) hshort]
  simp [hmapped,Nat.not_lt_of_le hlong,checkedSub,hlong]

/-! ### Networks with the same addresses -/

/-- The last address before the mapped ones with its low bits clear, `::fffe:0:0`. -/
def edge : Ipv6Addr := ofSegments [0,0,0,0,0,0xfffe,0,0]

theorem getMsbD_edge : ∀ i < 128, edge.getMsbD i = decide (80 ≤ i ∧ i < 95) := by decide +kernel

/-- The two networks at the edge: what the shorter prefix adds is mapped and counts as IPv4. -/
def AtEdge (c d : IpCidr) : Prop :=
  c.network = .v6 edge ∧ c.prefixLen = 95 ∧ d.network = .v6 edge ∧ d.prefixLen = 96

def SameAddresses (c d : IpCidr) : Prop := ∀ address, c.contains address = d.contains address

theorem SameAddresses.symm {c d : IpCidr} (h : SameAddresses c d) : SameAddresses d c := fun a => (h a).symm

theorem SameAddresses.agree {c d : IpCidr} (h : SameAddresses c d) {address : IpAddr}
    (hnormal : normalizeIp address = address) (hc : Agree c.prefixLen c.network address) :
    Agree d.prefixLen d.network address := by
  have hin : c.contains address = some true := contains_iff.mpr (hnormal.symm ▸ hc)
  rw [h address,contains_iff,hnormal] at hin
  exact hin

theorem agree_self (c : IpCidr) : Agree c.prefixLen c.network c.network := by
  cases c.network with
  | v4 _ => exact fun _ _ => rfl
  | v6 _ => exact fun _ _ => rfl

theorem agree_v4 {n : ℕ} {x : IpAddr} {y : Ipv4Addr} (h : Agree n x (.v4 y)) :
    ∃ z, x = .v4 z ∧ SameFirst n z y := by
  cases x with
  | v4 z => exact ⟨z,rfl,h⟩
  | v6 z => exact h.elim

theorem agree_v6 {n : ℕ} {x : IpAddr} {y : Ipv6Addr} (h : Agree n x (.v6 y)) :
    ∃ z, x = .v6 z ∧ SameFirst n z y := by
  cases x with
  | v4 z => exact h.elim
  | v6 z => exact ⟨z,rfl,h⟩

/-- The changed bit leaves an address unmapped, but for the one bit of the mark. -/
theorem flip_mapped {n : Ipv6Addr} {prefixLen i : ℕ} (hmasked : n &&& firstBits 128 prefixLen = n)
    (hnormal : mappedIpv4 n = none) (hi : prefixLen ≤ i) (hlt : i < 128)
    (hmapped : mappedIpv4 (flip n i) ≠ none) : i = 95 ∧ ∀ j < 95, n.getMsbD j = decide (80 ≤ j) := by
  have hle : prefixLen ≤ 128 := by omega
  have hbits := (mappedIpv4_isSome _).mp (Option.isSome_iff_ne_none.mpr hmapped)
  have hmark : n.getMsbD 95 = true → prefixLen > 95 := by
    intro htrue
    by_contra hshort
    rw [masked_bits hle hmasked (by omega)] at htrue
    cases htrue
  have hlast := hbits 95 (by decide)
  rw [getMsbD_flip hlt] at hlast
  by_cases hi95 : i = 95
  · refine ⟨hi95,fun j hj => ?_⟩
    have hbit := hbits j (by omega)
    rw [getMsbD_flip hlt,decide_eq_false (by omega : j ≠ i),Bool.xor_false] at hbit
    exact hbit
  · -- the mark was there before the change
    have hsome : (mappedIpv4 n).isSome = true := by
      refine (mappedIpv4_isSome n).mpr fun j hj => ?_
      have hkept : prefixLen > 95 := hmark (by simpa [Ne.symm hi95] using hlast)
      have hbit := hbits j hj
      rw [getMsbD_flip hlt,decide_eq_false (by omega : j ≠ i),Bool.xor_false] at hbit
      exact hbit
    rw [hnormal] at hsome
    cases hsome

theorem atEdge_of_lt {c d : IpCidr} (h : SameAddresses c d) (hlt : c.prefixLen < d.prefixLen) :
    AtEdge c d := by
  have hself := h.agree c.normal (agree_self c)
  cases hnetwork : c.network with
  | v4 n =>
    rw [hnetwork] at hself
    obtain ⟨m,hm,hsame⟩ := agree_v4 hself
    have hle := (v4_masked hm).1
    have hin : Agree c.prefixLen c.network (.v4 (flip n c.prefixLen)) := by
      rw [hnetwork]
      exact sameFirst_flip (by omega) (Nat.le_refl _)
    have hflip := h.agree rfl hin
    rw [hm] at hflip
    exact absurd hflip (not_sameFirst_flip (by omega) hlt hsame)
  | v6 n =>
    rw [hnetwork] at hself
    obtain ⟨m,hm,hsame⟩ := agree_v6 hself
    obtain ⟨hcle,hcmasked,hcnormal⟩ := v6_masked hnetwork
    obtain ⟨hdle,hdmasked,-⟩ := v6_masked hm
    -- a change behind the shorter prefix and inside the longer one makes a mapped address
    have hchange : ∀ i, c.prefixLen ≤ i → i < d.prefixLen → mappedIpv4 (flip n i) ≠ none := by
      intro i hi hid hnone
      have hin : Agree c.prefixLen c.network (.v6 (flip n i)) := by
        rw [hnetwork]
        exact sameFirst_flip (by omega) hi
      have hflip := h.agree (normalizeIp_v6.mpr hnone) hin
      rw [hm] at hflip
      exact not_sameFirst_flip (by omega) hid hsame hflip
    obtain ⟨hc95,hbits⟩ := flip_mapped hcmasked hcnormal (Nat.le_refl _) (by omega)
      (hchange c.prefixLen (Nat.le_refl _) hlt)
    have hd96 : d.prefixLen = 96 := by
      by_contra hne
      have hmore := (flip_mapped hcmasked hcnormal (by omega) (by omega) (hchange 96 (by omega) (by omega))).1
      cases hmore
    have hn : n = edge := by
      refine BitVec.eq_of_getMsbD_eq fun i hi => ?_
      rw [getMsbD_edge i hi]
      by_cases hlow : i < 95
      · rw [hbits i hlow,decide_eq_decide]
        omega
      · rw [masked_bits hcle hcmasked (by omega)]
        exact (decide_eq_false (by omega)).symm
    have hmn : m = n := by
      refine BitVec.eq_of_getMsbD_eq fun i _ => ?_
      by_cases hi : i < d.prefixLen
      · exact hsame i hi
      · rw [masked_bits hdle hdmasked (Nat.le_of_not_lt hi),masked_bits hcle hcmasked (by omega)]
    refine ⟨by rw [hnetwork,hn],hc95,by rw [hm,hmn,hn],hd96⟩

theorem AtEdge.sameAddresses {c d : IpCidr} (h : AtEdge c d) : SameAddresses c d := by
  obtain ⟨hcn,hcp,hdn,hdp⟩ := h
  intro address
  rw [contains_eq,contains_eq,hcn,hcp,hdn,hdp]
  refine congrArg some (decide_eq_decide.mpr ?_)
  cases hnormal : normalizeIp address with
  | v4 x => exact Iff.rfl
  | v6 x =>
    have hunmapped : mappedIpv4 x = none := by
      refine normalizeIp_v6.mp ?_
      rw [← hnormal,normalizeIp_idem]
    constructor
    · intro hsame i hi
      by_cases hlast : i = 95
      · -- with the last bit set the address would be mapped
        rw [hlast,getMsbD_edge 95 (by decide)]
        by_contra hset
        have hbit : x.getMsbD 95 = true := by simpa using hset
        have hsome : (mappedIpv4 x).isSome = true := by
          refine (mappedIpv4_isSome x).mpr fun j hj => ?_
          by_cases hj95 : j = 95
          · rw [hj95,hbit]
            rfl
          · rw [← hsame j (by omega),getMsbD_edge j (by omega),decide_eq_decide]
            omega
        rw [hunmapped] at hsome
        cases hsome
      · exact hsame i (by omega)
    · exact fun hsame i hi => hsame i (by omega)

theorem sameAddresses_iff {c d : IpCidr} : SameAddresses c d ↔ c = d ∨ AtEdge c d ∨ AtEdge d c := by
  constructor
  · intro h
    rcases Nat.lt_trichotomy c.prefixLen d.prefixLen with hlt | heq | hgt
    · exact .inr (.inl (atEdge_of_lt h hlt))
    · refine .inl (ext ?_ heq)
      have hself := h.agree c.normal (agree_self c)
      cases hnetwork : c.network with
      | v4 n =>
        rw [hnetwork] at hself
        obtain ⟨m,hm,hsame⟩ := agree_v4 hself
        obtain ⟨hle,hmasked⟩ := v4_masked hm
        rw [hm,eq_of_sameFirst hle hmasked (heq ▸ (v4_masked hnetwork).2) hsame]
      | v6 n =>
        rw [hnetwork] at hself
        obtain ⟨m,hm,hsame⟩ := agree_v6 hself
        obtain ⟨hle,hmasked,-⟩ := v6_masked hm
        rw [hm,eq_of_sameFirst hle hmasked (heq ▸ (v6_masked hnetwork).2.1) hsame]
    · exact .inr (.inr (atEdge_of_lt h.symm hgt))
  · rintro (rfl | h | h)
    · exact fun _ => rfl
    · exact h.sameAddresses
    · exact h.sameAddresses.symm

/-- The arithmetic of networks. No text and no prefix makes it overflow, a network is read back
from its text, holds just the addresses with its first bits, is masked already, and is told apart
from every other by its addresses, but for the two at the edge of the mapped ones; a mapped text
denotes the IPv4 network. -/
theorem cidr_arithmetic :
    (∀ value, (fromStr value).isSome = true) ∧
    (∀ network prefixLen, (new network prefixLen).isSome = true) ∧
    (∀ c : IpCidr, fromStr c.display = some (.ok c)) ∧
    (∀ (c : IpCidr) address,
      c.contains address = some (decide (Agree c.prefixLen c.network (normalizeIp address)))) ∧
    (∀ c : IpCidr, maskIp c.network c.prefixLen = some c.network) ∧
    (∀ c d : IpCidr, (∀ address, c.contains address = d.contains address) ↔
      c = d ∨ AtEdge c d ∨ AtEdge d c) ∧
    (∀ text pre address v4 prefixLen, parse text = some (.v6 address) → mappedIpv4 address = some v4 →
      Digits.parse 10 (2^8) pre = some prefixLen → 96 ≤ prefixLen →
      fromStr (text ++ '/'::pre) = fromStr (displayIpv4 v4 ++ '/'::Digits.text 10 (prefixLen-96))) :=
  ⟨fromStr_isSome,new_isSome,fromStr_display,contains_eq,canonical,fun _ _ => sameAddresses_iff,
    fun _ _ _ _ _ => fromStr_mapped⟩

theorem mapped_text_denotes_ipv4 :
    fromStr "::ffff:c000:207/120".toList = fromStr "192.0.2.7/24".toList := by
  have hmapped : mappedIpv4 (ofSegments [0,0,0,0,0,0xffff,0xc000,0x207]) = some (ofOctets [192,0,2,7]) := by
    decide +kernel
  have htext : "192.0.2.7/24".toList = displayIpv4 (ofOctets [192,0,2,7]) ++ '/'::Digits.text 10 (120-96) := by
    decide +kernel
  rw [htext]
  exact cidr_arithmetic.2.2.2.2.2.2 "::ffff:c000:207".toList "120".toList _ _ 120 (by decide +kernel) hmapped
    (by decide) (by decide)

/-- Two different networks that hold the same addresses. -/
theorem edge_networks_same_addresses :
    ∃ c d : IpCidr, fromStr "::fffe:0:0/95".toList = some (.ok c) ∧
      fromStr "::fffe:0:0/96".toList = some (.ok d) ∧ c ≠ d ∧
      ∀ address, c.contains address = d.contains address := by
  have hunmapped : mappedIpv4 edge = none := by decide +kernel
  have hmasked : ∀ n, 95 ≤ n → n ≤ 128 → edge &&& firstBits 128 n = edge := by
    intro n hlow hhigh
    refine BitVec.eq_of_getMsbD_eq fun i hi => ?_
    rw [BitVec.getMsbD_and,getMsbD_firstBits hhigh,getMsbD_edge i hi,← Bool.decide_and,decide_eq_decide]
    omega
  have hnew : ∀ n, 95 ≤ n → (hn : n ≤ 128) → ∃ c : IpCidr, c.network = .v6 edge ∧ c.prefixLen = n :=
    fun n hlow hn => ⟨⟨.v6 edge,n,normalizeIp_v6.mpr hunmapped,hn,
      (maskIp_v6 hn edge).trans (congrArg (some ∘ IpAddr.v6) (hmasked n hlow hn))⟩,rfl,rfl⟩
  obtain ⟨c,hc,hc95⟩ := hnew 95 (by decide) (by decide)
  obtain ⟨d,hd,hd96⟩ := hnew 96 (by decide) (by decide)
  have htext : ∀ (n : ℕ) (e : IpCidr), e.network = .v6 edge → e.prefixLen = n →
      e.display = "::fffe:0:0".toList ++ '/'::Digits.text 10 n := by
    rintro n e he rfl
    have hedge : Ip.display (.v6 edge) = "::fffe:0:0".toList := by decide +kernel
    rw [display,he,hedge]
  refine ⟨c,d,?_,?_,?_,AtEdge.sameAddresses ⟨hc,hc95,hd,hd96⟩⟩
  · rw [← fromStr_display c,htext 95 c hc hc95]
    decide +kernel
  · rw [← fromStr_display d,htext 96 d hd hd96]
    decide +kernel
  · rintro rfl
    rw [hc95] at hd96
    cases hd96

end IpCidr
end PublicAbuse
end North
