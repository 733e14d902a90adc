import North.IpCidr
import North.Lib.Text

/-! Who a public request comes from: the peer, or behind trusted proxies the last address of the
forwarded chain that is no proxy. -/
namespace North
namespace PublicAbuse

open Ip

/-- A value of a header, as its visible text if it is one. -/
structure HeaderValue where
  text : Option (List Char)
  deriving DecidableEq, Repr

/-- The headers of a request in the order of the wire, with names in lower case. -/
abbrev HeaderMap := List (String × HeaderValue)

def xForwardedFor : String := "x-forwarded-for"

def getAll (headers : HeaderMap) (name : String) : List HeaderValue :=
  (headers.filter fun h => decide (h.1 = name)).map Prod.snd

/-- One token of a value, without the blanks around it. -/
def parseToken (token : List Char) : Option IpAddr :=
  let token := Text.trimChars token
  if token.isEmpty then none else (parse token).map normalizeIp

def parseValue (value : HeaderValue) : Option (List IpAddr) :=
  value.text.bind fun text => (text.splitOn ',').mapM parseToken

def parseForwardedChain (headers : HeaderMap) : Option (List IpAddr) := do
  let values := getAll headers xForwardedFor
  let chains ← values.mapM parseValue
  let chain := chains.flatten
  if values.isEmpty then none
  else if chain.isEmpty then none
  else some chain

structure ClientIdentity where
  address : IpAddr
  primaryKey : List Char
  deriving DecidableEq, Repr

/-- `trusted_proxy_cidrs.iter().any(|network| network.contains(address))` -/
def anyContains (cidrs : List IpCidr) (address : IpAddr) : Option Bool :=
  cidrs.anyM fun network => network.contains address

/-- `none` stands for arithmetic that overflows. -/
def resolveClientIdentity (peer : IpAddr) (headers : HeaderMap) (trustedProxyCidrs : List IpCidr) :
    Option ClientIdentity := do
  let immediatePeer := normalizeIp peer
  let effectiveAddress ←
    if ← anyContains trustedProxyCidrs immediatePeer then
      match parseForwardedChain headers with
      | none => some immediatePeer
      | some chain => do
        let found ← chain.reverse.findM? fun address =>
          (anyContains trustedProxyCidrs address).map (!·)
        some (found.getD immediatePeer)
    else some immediatePeer
  let primaryKey ← IpCidr.primaryKey effectiveAddress
  some ⟨effectiveAddress,primaryKey.display⟩

/-! ### Trust -/

def Trusted (cidrs : List IpCidr) (address : IpAddr) : Prop :=
  ∃ c ∈ cidrs, c.contains address = some true

instance (cidrs : List IpCidr) (address : IpAddr) : Decidable (Trusted cidrs address) :=
  inferInstanceAs (Decidable (∃ c ∈ cidrs, c.contains address = some true))

theorem anyContains_eq (cidrs : List IpCidr) (address : IpAddr) :
    anyContains cidrs address = some (decide (Trusted cidrs address)) := by
  induction cidrs with
  | nil => rfl
  | cons c cidrs ih =>
    rw [anyContains] at ih ⊢
    rw [List.anyM_cons,IpCidr.contains_eq]
    by_cases hc : IpCidr.Agree c.prefixLen c.network (normalizeIp address)
    · have htrusted : Trusted (c::cidrs) address :=
        ⟨c,List.mem_cons_self,IpCidr.contains_iff.mpr hc⟩
      simp [hc,htrusted]
    · have hiff : Trusted (c::cidrs) address ↔ Trusted cidrs address := by
        simp [Trusted,IpCidr.contains_iff,hc]
      simp [hc,ih,hiff]

/-- The last address of the chain that no trusted network holds. -/
def lastUntrusted (cidrs : List IpCidr) (chain : List IpAddr) : Option IpAddr :=
  chain.reverse.find? fun address => !decide (Trusted cidrs address)

theorem findM_untrusted (cidrs : List IpCidr) (chain : List IpAddr) :
    (chain.reverse.findM? fun address => (anyContains cidrs address).map (!·)) =
      some (lastUntrusted cidrs chain) := by
  have hfun : (fun address => (anyContains cidrs address).map (!·)) =
      fun address => pure (!decide (Trusted cidrs address)) := by
    funext address
    rw [anyContains_eq]
    rfl
  rw [hfun,List.findM?_pure]
  rfl

theorem lastUntrusted_eq_some {cidrs : List IpCidr} {chain : List IpAddr} {address : IpAddr} :
    lastUntrusted cidrs chain = some address ↔
      ¬Trusted cidrs address ∧ ∃ before after, chain = before ++ address::after ∧ ∀ a ∈ after, Trusted cidrs a := by
  rw [lastUntrusted,List.find?_eq_some_iff_append]
  simp only [Bool.not_eq_true',decide_eq_false_iff_not,Bool.not_not,decide_eq_true_eq]
  refine and_congr_right fun _ => ⟨?_,?_⟩
  · rintro ⟨after,before,hchain,hafter⟩
    refine ⟨before.reverse,after.reverse,?_,fun a ha => hafter a (List.mem_reverse.mp ha)⟩
    rw [← List.reverse_reverse chain,hchain]
    simp
  · rintro ⟨before,after,rfl,hafter⟩
    exact ⟨after.reverse,before.reverse,by simp,fun a ha => hafter a (List.mem_reverse.mp ha)⟩

theorem lastUntrusted_eq_none {cidrs : List IpCidr} {chain : List IpAddr} :
    lastUntrusted cidrs chain = none ↔ ∀ a ∈ chain, Trusted cidrs a := by
  simp [lastUntrusted,List.find?_eq_none]

/-- What stands in front of an untrusted address is not looked at. -/
theorem lastUntrusted_append {cidrs : List IpCidr} {chain : List IpAddr} {address : IpAddr}
    (h : lastUntrusted cidrs chain = some address) (spoofed : List IpAddr) :
    lastUntrusted cidrs (spoofed ++ chain) = some address := by
  rw [lastUntrusted] at h ⊢
  rw [List.reverse_append,List.find?_append,h]
  rfl

/-! ### The chain -/

/-- The tokens of the values as they stand on the wire. -/
def forwardedTokens (values : List HeaderValue) : List (List Char) :=
  values.flatMap fun value => (value.text.getD []).splitOn ','

theorem mapM_eq_some {α β : Type} {f : α → Option β} {xs : List α} {ys : List β} :
    xs.mapM f = some ys ↔ xs.map f = ys.map some := by
  induction xs generalizing ys with
  | nil => cases ys <;> simp
  | cons x xs ih =>
    rw [List.mapM_cons]
    cases ys with
    | nil => simp [Option.bind_eq_some_iff]
    | cons y ys => simp [Option.bind_eq_some_iff,ih]

theorem parseValue_eq_some {value : HeaderValue} {chain : List IpAddr} :
    parseValue value = some chain ↔
      value.text.isSome = true ∧ ((value.text.getD []).splitOn ',').map parseToken = chain.map some := by
  rw [parseValue]
  cases value.text with
  | none => simp
  | some text => simp [mapM_eq_some]

theorem parseValues_eq_some {values : List HeaderValue} {chain : List IpAddr} :
    (∃ chains, values.mapM parseValue = some chains ∧ chains.flatten = chain) ↔
      (∀ value ∈ values, value.text.isSome = true) ∧
        (forwardedTokens values).map parseToken = chain.map some := by
  induction values generalizing chain with
  | nil => cases chain <;> simp [forwardedTokens]
  | cons value values ih =>
    have htokens : forwardedTokens (value::values) =
        (value.text.getD []).splitOn ',' ++ forwardedTokens values := rfl
    rw [htokens,List.map_append,List.forall_mem_cons]
    constructor
    · rintro ⟨chains,hchains,rfl⟩
      rw [mapM_eq_some] at hchains
      obtain ⟨first,chains,rfl,hfirst,hrest⟩ := List.map_eq_cons_iff.mp hchains.symm
      obtain ⟨htext,hmap⟩ := parseValue_eq_some.mp hfirst.symm
      obtain ⟨htexts,hmaps⟩ := ih.mp ⟨chains,mapM_eq_some.mpr hrest.symm,rfl⟩
      exact ⟨⟨htext,htexts⟩,by rw [hmap,hmaps,List.flatten_cons,List.map_append]⟩
    · rintro ⟨⟨htext,htexts⟩,hmap⟩
      obtain ⟨first,rest,rfl,hfirst,hrest⟩ := List.map_eq_append_iff.mp hmap.symm
      obtain ⟨chains,hchains,rfl⟩ := ih.mpr ⟨htexts,hrest.symm⟩
      have hvalue : parseValue value = some first := parseValue_eq_some.mpr ⟨htext,hfirst.symm⟩
      exact ⟨first::chains,by rw [List.mapM_cons,hvalue,hchains]; rfl,List.flatten_cons⟩

/-- There are values, all of them text, and their tokens are the addresses of the chain in the
order of the wire. -/
def Reads (values : List HeaderValue) (chain : List IpAddr) : Prop :=
  values ≠ [] ∧ (∀ value ∈ values, value.text.isSome = true) ∧
    (forwardedTokens values).map parseToken = chain.map some

theorem parseForwardedChain_eq_some {headers : HeaderMap} {chain : List IpAddr} :
    parseForwardedChain headers = some chain ↔ Reads (getAll headers xForwardedFor) chain := by
  rw [Reads,← parseValues_eq_some,parseForwardedChain]
  generalize getAll headers xForwardedFor = values
  cases values with
  | nil => simp
  | cons value values =>
    have hnonempty : ∀ chains, (value::values).mapM parseValue = some chains → chains.flatten ≠ [] := by
      intro chains hchains hflat
      rw [mapM_eq_some] at hchains
      obtain ⟨first,rest,rfl,hfirst,-⟩ := List.map_eq_cons_iff.mp hchains.symm
      have htokens := (parseValue_eq_some.mp hfirst.symm).2
      obtain rfl : first = [] := (List.append_eq_nil_iff.mp hflat).1
      exact List.splitOn_ne_nil _ _ (List.map_eq_nil_iff.mp htokens)
    rw [Option.bind_eq_bind,Option.bind_eq_some_iff]
    simp only [List.isEmpty_cons,Bool.false_eq_true,if_false,ne_eq,reduceCtorEq,not_false_eq_true,true_and,
      List.isEmpty_iff]
    refine exists_congr fun chains => and_congr_right fun hchains => ?_
    rw [if_neg (hnonempty chains hchains),Option.some.injEq]

theorem exists_map_some {α β : Type} {f : α → Option β} {xs : List α} :
    (∃ ys : List β, xs.map f = ys.map some) ↔ ∀ x ∈ xs, (f x).isSome = true := by
  induction xs with
  | nil => simp
  | cons x xs ih =>
    rw [List.forall_mem_cons,← ih,Option.isSome_iff_exists]
    constructor
    · rintro ⟨ys,hys⟩
      obtain ⟨y,ys,rfl,hy,htail⟩ := List.map_eq_cons_iff.mp hys.symm
      exact ⟨⟨y,hy.symm⟩,ys,htail.symm⟩
    · rintro ⟨⟨y,hy⟩,ys,hys⟩
      exact ⟨y::ys,by rw [List.map_cons,List.map_cons,hy,hys]⟩

theorem parseToken_eq_none {token : List Char} :
    parseToken token = none ↔ Text.trimChars token = [] ∨ parse (Text.trimChars token) = none := by
  rw [parseToken]
  cases Text.trimChars token <;> simp

theorem parseForwardedChain_eq_none {headers : HeaderMap} :
    parseForwardedChain headers = none ↔
      getAll headers xForwardedFor = [] ∨
      (∃ value ∈ getAll headers xForwardedFor, value.text = none) ∨
      ∃ token ∈ forwardedTokens (getAll headers xForwardedFor),
        Text.trimChars token = [] ∨ parse (Text.trimChars token) = none := by
  have hread : (∃ chain, parseForwardedChain headers = some chain) ↔
      getAll headers xForwardedFor ≠ [] ∧
      (∀ value ∈ getAll headers xForwardedFor, value.text.isSome = true) ∧
        ∀ token ∈ forwardedTokens (getAll headers xForwardedFor), (parseToken token).isSome = true := by
    simp only [parseForwardedChain_eq_some,Reads,exists_and_left,exists_map_some]
  simp only [← parseToken_eq_none]
  rw [Option.eq_none_iff_forall_ne_some,← not_exists,hread]
  simp only [Decidable.not_and_iff_or_not,not_not,not_forall,Option.isSome_iff_ne_none,exists_prop,ne_eq]

/-! ### Identity -/

def clientAddress (peer : IpAddr) (headers : HeaderMap) (cidrs : List IpCidr) : IpAddr :=
  if Trusted cidrs (normalizeIp peer) then
    ((parseForwardedChain headers).bind (lastUntrusted cidrs)).getD (normalizeIp peer)
  else normalizeIp peer

/-- The bits of an address by which its client is counted. -/
def keyBits : IpAddr → ℕ
  | .v4 _ => 32
  | .v6 _ => 64

theorem primaryKey_of_new {address : IpAddr} {c : IpCidr}
    (h : IpCidr.new (normalizeIp address) (keyBits (normalizeIp address)) = some (.ok c)) :
    IpCidr.primaryKey address = some c := by
  rw [IpCidr.primaryKey]
  cases hnormal : normalizeIp address <;>
  · rw [hnormal,keyBits] at h
    simp only [h]

theorem primaryKey_spec (address : IpAddr) :
    ∃ c, IpCidr.primaryKey address = some c ∧
      maskIp (normalizeIp address) (keyBits (normalizeIp address)) = some c.network ∧
      c.prefixLen = keyBits (normalizeIp address) := by
  have hle : keyBits (normalizeIp address) ≤ maxPrefix (normalizeIp (normalizeIp address)) := by
    rw [normalizeIp_idem]
    cases normalizeIp address <;> simp [keyBits,maxPrefix]
  obtain ⟨c,hc,hmask,hlen⟩ := IpCidr.new_ok hle
  rw [normalizeIp_idem] at hmask
  exact ⟨c,primaryKey_of_new hc,hmask,hlen⟩

/-- The clients that are counted as one: the same IPv4 address, or IPv6 addresses that share 64
bits. -/
def SameClient (a b : IpAddr) : Prop :=
  match normalizeIp a, normalizeIp b with
  | .v4 x, .v4 y => x = y
  | .v6 x, .v6 y => SameFirst 64 x y
  | _, _ => False

def keyText (address : IpAddr) : List Char := ((IpCidr.primaryKey address).map IpCidr.display).getD []

theorem resolveClientIdentity_eq (peer : IpAddr) (headers : HeaderMap) (cidrs : List IpCidr) :
    resolveClientIdentity peer headers cidrs =
      some ⟨clientAddress peer headers cidrs,keyText (clientAddress peer headers cidrs)⟩ := by
  have hkey : ∀ address, ((IpCidr.primaryKey address).bind fun key => some (ClientIdentity.mk address key.display)) =
      some ⟨address,keyText address⟩ := by
    intro address
    obtain ⟨c,hc,-⟩ := primaryKey_spec address
    rw [keyText,hc]
    rfl
  rw [resolveClientIdentity]
  simp only [findM_untrusted]
  simp only [anyContains_eq,Option.bind_eq_bind,Option.bind_some,decide_eq_true_eq]
  by_cases htrusted : Trusted cidrs (normalizeIp peer)
  · simp only [htrusted,if_true,clientAddress]
    cases parseForwardedChain headers with
    | none => exact hkey _
    | some chain => exact hkey _
  · simp only [htrusted,if_false,clientAddress]
    exact hkey _

theorem display_injective {c d : IpCidr} (h : c.display = d.display) : c = d := by
  have hread := IpCidr.fromStr_display c
  rw [h,IpCidr.fromStr_display] at hread
  simpa using hread.symm

theorem masked_inj {w n : ℕ} (hn : n ≤ w) (x y : BitVec w) :
    x &&& firstBits w n = y &&& firstBits w n ↔ SameFirst n x y := by
  rw [mask_eq_iff hn (mask_idem y)]
  refine ⟨fun h i hi => ?_,fun h i hi => ?_⟩
  · have hbit := h i hi
    rw [BitVec.getMsbD_and,getMsbD_firstBits hn,decide_eq_true hi,Bool.and_true] at hbit
    exact hbit.symm
  · rw [BitVec.getMsbD_and,getMsbD_firstBits hn,decide_eq_true hi,Bool.and_true]
    exact (h i hi).symm

/-- The key text of an address depends on its normal form only, and is that of another address
just if both are one client. -/
theorem keyText_eq_iff (a b : IpAddr) : keyText a = keyText b ↔ SameClient a b := by
  obtain ⟨c,hc,hcmask,hclen⟩ := primaryKey_spec a
  obtain ⟨d,hd,hdmask,hdlen⟩ := primaryKey_spec b
  have htext : keyText a = keyText b ↔ c.network = d.network ∧ c.prefixLen = d.prefixLen := by
    rw [keyText,keyText,hc,hd]
    refine ⟨fun h => ?_,fun h => ?_⟩
    · rw [display_injective h]
      exact ⟨rfl,rfl⟩
    · rw [IpCidr.ext h.1 h.2]
  have hall : ∀ x y : Ipv4Addr, SameFirst 32 x y ↔ x = y :=
    fun x y => ⟨fun h => BitVec.eq_of_getMsbD_eq h,fun h _ _ => h ▸ rfl⟩
  rw [htext,hclen,hdlen,SameClient]
  cases ha : normalizeIp a with
  | v4 x =>
    rw [ha,keyBits,maskIp_v4 (by decide),Option.some.injEq] at hcmask
    cases hb : normalizeIp b with
    | v4 y =>
      rw [hb,keyBits,maskIp_v4 (by decide),Option.some.injEq] at hdmask
      rw [← hcmask,← hdmask,IpAddr.v4.injEq,masked_inj (by decide),hall]
      exact and_iff_left rfl
    | v6 y => simp [keyBits]
  | v6 x =>
    rw [ha,keyBits,maskIp_v6 (by decide),Option.some.injEq] at hcmask
    cases hb : normalizeIp b with
    | v4 y => simp [keyBits]
    | v6 y =>
      rw [hb,keyBits,maskIp_v6 (by decide),Option.some.injEq] at hdmask
      rw [← hcmask,← hdmask,IpAddr.v6.injEq,masked_inj (by decide)]
      exact and_iff_left rfl

/-! ### Prepending -/

/-- What a client can put in front of the values that reach a proxy: well-formed tokens in front of
the first value, or well-formed values of its own. -/
inductive Prepended (values : List HeaderValue) : List HeaderValue → Prop
  | values (more : List HeaderValue) (h : ∀ value ∈ more, (parseValue value).isSome = true) :
    Prepended values (more ++ values)
  | tokens (text spoofed : List Char) (rest : List HeaderValue) (hvalues : values = ⟨some text⟩::rest)
    (h : ∀ token ∈ spoofed.splitOn ',', (parseToken token).isSome = true) :
    Prepended values (⟨some (spoofed ++ ','::text)⟩::rest)

theorem Prepended.reads {values values' : List HeaderValue} (h : Prepended values values')
    {chain : List IpAddr} (hchain : Reads values chain) :
    ∃ spoofed, Reads values' (spoofed ++ chain) := by
  obtain ⟨hvalues,htexts,hmap⟩ := hchain
  cases h with
  | values more h =>
    obtain ⟨chains,hchains⟩ := exists_map_some.mpr h
    obtain ⟨hmoretexts,hmoremap⟩ := parseValues_eq_some.mp ⟨chains,mapM_eq_some.mpr hchains,rfl⟩
    refine ⟨chains.flatten,by simp [hvalues],?_,?_⟩
    · intro value hvalue
      cases List.mem_append.mp hvalue with
      | inl hmore => exact hmoretexts value hmore
      | inr hold => exact htexts value hold
    · rw [forwardedTokens,List.flatMap_append,List.map_append,List.map_append]
      exact congrArg₂ (· ++ ·) hmoremap hmap
  | tokens text spoofed rest heq h =>
    obtain ⟨addresses,haddresses⟩ := exists_map_some.mpr h
    subst heq
    refine ⟨addresses,List.cons_ne_nil _ _,?_,?_⟩
    · intro value hvalue
      cases hvalue with
      | head => rfl
      | tail _ hrest => exact htexts value (List.mem_cons_of_mem _ hrest)
    · have htokens : forwardedTokens (⟨some (spoofed ++ ','::text)⟩::rest) =
          spoofed.splitOn ',' ++ forwardedTokens (⟨some text⟩::rest) := by
        simp only [forwardedTokens,List.flatMap_cons,Option.getD_some,List.splitOn_append_cons_self,
          List.append_assoc]
      rw [htokens,List.map_append,List.map_append,haddresses,hmap]

theorem reads_of_prepended {values values' : List HeaderValue}
    (h : Relation.ReflTransGen Prepended values values') {chain : List IpAddr} (hchain : Reads values chain) :
    ∃ spoofed, Reads values' (spoofed ++ chain) := by
  induction h with
  | refl => exact ⟨[],hchain⟩
  | tail _ hstep ih =>
    obtain ⟨spoofed,hread⟩ := ih
    obtain ⟨more,hmore⟩ := hstep.reads hread
    exact ⟨more ++ spoofed,by rw [List.append_assoc]; exact hmore⟩

/-! ### Spoofing -/

section Spoofing

variable {peer : IpAddr} {headers : HeaderMap} {cidrs : List IpCidr}

theorem clientAddress_untrusted (h : ¬Trusted cidrs (normalizeIp peer)) :
    clientAddress peer headers cidrs = normalizeIp peer := if_neg h

theorem clientAddress_chain (h : Trusted cidrs (normalizeIp peer)) {chain : List IpAddr}
    (hchain : parseForwardedChain headers = some chain) :
    clientAddress peer headers cidrs = (lastUntrusted cidrs chain).getD (normalizeIp peer) := by
  rw [clientAddress,if_pos h,hchain,Option.bind_some]

theorem clientAddress_noChain (hchain : parseForwardedChain headers = none) :
    clientAddress peer headers cidrs = normalizeIp peer := by
  rw [clientAddress,hchain]
  exact ite_self _

theorem clientAddress_prepended {headers' : HeaderMap}
    (hprepended : Relation.ReflTransGen Prepended (getAll headers xForwardedFor) (getAll headers' xForwardedFor))
    {chain : List IpAddr} (hchain : parseForwardedChain headers = some chain)
    (huntrusted : ∃ a ∈ chain, ¬Trusted cidrs a) :
    clientAddress peer headers' cidrs = clientAddress peer headers cidrs := by
  by_cases h : Trusted cidrs (normalizeIp peer)
  · obtain ⟨spoofed,hread⟩ := reads_of_prepended hprepended (parseForwardedChain_eq_some.mp hchain)
    have hsome : lastUntrusted cidrs chain ≠ none := by
      rw [Ne,lastUntrusted_eq_none]
      simpa using huntrusted
    obtain ⟨address,haddress⟩ := Option.ne_none_iff_exists'.mp hsome
    rw [clientAddress_chain h hchain,clientAddress_chain h (parseForwardedChain_eq_some.mpr hread),haddress,
      lastUntrusted_append haddress]
  · rw [clientAddress_untrusted h,clientAddress_untrusted h]

end Spoofing

/-- What a client writes into the header cannot make it another one. The peer is the client unless
it is trusted; behind a trusted peer the client is the last address of the chain outside the
trusted networks, whatever is put in front of it; without such an address it is the peer. Two
identities are counted as one just if they are one client. -/
theorem identity_not_spoofed (peer : IpAddr) (headers : HeaderMap) (cidrs : List IpCidr) :
    ∃ identity, resolveClientIdentity peer headers cidrs = some identity ∧
      (¬Trusted cidrs (normalizeIp peer) → identity.address = normalizeIp peer) ∧
      (Trusted cidrs (normalizeIp peer) → ∀ before address after,
        Reads (getAll headers xForwardedFor) (before ++ address::after) → ¬Trusted cidrs address →
        (∀ a ∈ after, Trusted cidrs a) → identity.address = address) ∧
      (∀ headers' chain,
        Relation.ReflTransGen Prepended (getAll headers xForwardedFor) (getAll headers' xForwardedFor) →
        Reads (getAll headers xForwardedFor) chain → (∃ a ∈ chain, ¬Trusted cidrs a) →
        resolveClientIdentity peer headers' cidrs = some identity) ∧
      ((∀ chain, Reads (getAll headers xForwardedFor) chain → ∀ a ∈ chain, Trusted cidrs a) →
        identity.address = normalizeIp peer) ∧
      ((∀ chain, ¬Reads (getAll headers xForwardedFor) chain) ↔
        getAll headers xForwardedFor = [] ∨
        (∃ value ∈ getAll headers xForwardedFor, value.text = none) ∨
        ∃ token ∈ forwardedTokens (getAll headers xForwardedFor),
          Text.trimChars token = [] ∨ parse (Text.trimChars token) = none) ∧
      ∀ peer' headers' cidrs' identity', resolveClientIdentity peer' headers' cidrs' = some identity' →
        (identity.primaryKey = identity'.primaryKey ↔ SameClient identity.address identity'.address) := by
  refine ⟨_,resolveClientIdentity_eq peer headers cidrs,clientAddress_untrusted,?_,?_,?_,?_,?_⟩
  · intro htrusted before address after hread huntrusted hafter
    rw [clientAddress_chain htrusted (parseForwardedChain_eq_some.mpr hread),
      lastUntrusted_eq_some.mpr ⟨huntrusted,before,after,rfl,hafter⟩]
    rfl
  · intro headers' chain hprepended hread huntrusted
    rw [resolveClientIdentity_eq,
      clientAddress_prepended hprepended (parseForwardedChain_eq_some.mpr hread) huntrusted]
  · intro hall
    by_cases htrusted : Trusted cidrs (normalizeIp peer)
    · cases hchain : parseForwardedChain headers with
      | none => exact clientAddress_noChain hchain
      | some chain =>
        have hnone := lastUntrusted_eq_none.mpr (hall chain (parseForwardedChain_eq_some.mp hchain))
        rw [clientAddress_chain htrusted hchain,hnone]
        rfl
    · exact clientAddress_untrusted htrusted
  · simp only [← parseForwardedChain_eq_some,← parseForwardedChain_eq_none]
    exact Option.eq_none_iff_forall_ne_some.symm
  · intro peer' headers' cidrs' identity' hidentity
    rw [resolveClientIdentity_eq,Option.some.injEq] at hidentity
    subst hidentity
    exact keyText_eq_iff _ _

def sampleProxies : IpCidr := ⟨.v4 (ofOctets [10,0,0,0]),8,rfl,by decide,by decide⟩

def sampleHeaders (text : String) : HeaderMap := [(xForwardedFor,⟨some text.toList⟩)]

theorem sample_identity_not_spoofed :
    (resolveClientIdentity (.v4 (ofOctets [10,3,3,3])) (sampleHeaders "1.2.3.4,198.51.100.7, 10.1.1.1")
      [sampleProxies]).map ClientIdentity.address = some (.v4 (ofOctets [198,51,100,7])) := by
  obtain ⟨identity,-,-,haddress,hprepended,-⟩ := identity_not_spoofed (.v4 (ofOctets [10,3,3,3]))
    (sampleHeaders "198.51.100.7, 10.1.1.1") [sampleProxies]
  have hread : Reads (getAll (sampleHeaders "198.51.100.7, 10.1.1.1") xForwardedFor)
      ([] ++ .v4 (ofOctets [198,51,100,7])::[.v4 (ofOctets [10,1,1,1])]) :=
    ⟨by decide +kernel,by decide +kernel,by decide +kernel⟩
  have huntrusted : ¬Trusted [sampleProxies] (.v4 (ofOctets [198,51,100,7])) := by decide +kernel
  have hclient : identity.address = .v4 (ofOctets [198,51,100,7]) :=
    haddress (by decide +kernel) [] _ _ hread huntrusted (by decide +kernel)
  have hspoofed : ∀ token ∈ "1.2.3.4".toList.splitOn ',', (parseToken token).isSome = true := by decide +kernel
  have hstep : Prepended (getAll (sampleHeaders "198.51.100.7, 10.1.1.1") xForwardedFor)
      (getAll (sampleHeaders "1.2.3.4,198.51.100.7, 10.1.1.1") xForwardedFor) :=
    .tokens "198.51.100.7, 10.1.1.1".toList "1.2.3.4".toList [] rfl hspoofed
  rw [hprepended _ _ (.single hstep) hread ⟨_,List.mem_cons_self,huntrusted⟩]
  exact congrArg some hclient

end PublicAbuse
end North
