import North.RepositoryMetadata
import North.Lib.Ip

/-! Which Git locations are let in: the grammar of the three shapes, and that the daemon turns none
of them away. -/
namespace North
namespace Domain

open Machine North.Runtime

/-! ### Splitting -/

theorem splitOnce_eq_some {cs before after : List Char} {c : Char} :
    splitOnce cs [c] = some (before,after) ↔ cs = before ++ c::after ∧ c ∉ before := by
  induction cs generalizing before with
  | nil => simp [splitOnce]
  | cons d cs ih =>
    by_cases hd : c = d
    · subst hd
      cases before with
      | nil => simp [splitOnce,eq_comm]
      | cons e before =>
        simp only [splitOnce,List.isPrefixOf,beq_self_eq_true,Bool.true_and,if_true]
        simp +contextual
    · cases before with
      | nil => simp [splitOnce,List.isPrefixOf,hd,Ne.symm hd]
      | cons e before => simp [splitOnce,List.isPrefixOf,hd,ih]; grind

theorem splitOnce_eq_none {cs : List Char} {c : Char} : splitOnce cs [c] = none ↔ c ∉ cs := by
  induction cs with
  | nil => simp [splitOnce]
  | cons d cs ih =>
    by_cases hd : c = d
    · simp [splitOnce,List.isPrefixOf,hd]
    · simp [splitOnce,List.isPrefixOf,hd,ih]

theorem splitOnce_isSome {cs sep : List Char} : (splitOnce cs sep).isSome = true ↔ sep <:+: cs := by
  induction cs with
  | nil => cases sep <;> simp [splitOnce]
  | cons c cs ih =>
    rw [splitOnce,List.infix_cons_iff]
    by_cases hpre : sep.isPrefixOf (c::cs) = true
    · simp [hpre,List.isPrefixOf_iff_prefix.mp hpre]
    · have hnot : ¬sep <+: c::cs := fun h => hpre (List.isPrefixOf_iff_prefix.mpr h)
      simp [hpre,hnot,ih]

theorem rsplitOnce_eq_some {cs before after : List Char} {c : Char} :
    rsplitOnce cs c = some (before,after) ↔ cs = before ++ c::after ∧ c ∉ after := by
  have hreverse : rsplitOnce cs c = some (before,after) ↔
      splitOnce cs.reverse [c] = some (after.reverse,before.reverse) := by
    rw [rsplitOnce,Option.map_eq_some_iff]
    constructor
    · rintro ⟨p,hp,heq⟩
      cases heq
      simpa using hp
    · intro h
      exact ⟨_,h,by simp⟩
  rw [hreverse,splitOnce_eq_some,List.mem_reverse,List.reverse_eq_iff]
  simp

theorem rsplitOnce_eq_none {cs : List Char} {c : Char} : rsplitOnce cs c = none ↔ c ∉ cs := by
  rw [rsplitOnce,Option.map_eq_none_iff,splitOnce_eq_none,List.mem_reverse]

/-! ### Hosts -/

def labelChar (c : Char) : Bool := c.isAlphanum || c == '-'

/-- Alphanumeric characters and hyphens, with no hyphen at an end. -/
structure Label (cs : List Char) : Prop where
  nonempty : cs ≠ []
  head : cs.head? ≠ some '-'
  last : cs.getLast? ≠ some '-'
  chars : ∀ c ∈ cs, labelChar c = true

/-- A dotted name or an IPv6 address in brackets. -/
inductive Host : List Char → Prop
  | name (labels : List (List Char)) (hlabels : labels ≠ []) (h : ∀ label ∈ labels, Label label) :
    Host (['.'].intercalate labels)
  | ipv6 (text : List Char) (a : Ip.Ipv6Addr) (h : Ip.readIpv6 text = some (a,[])) : Host ('['::text ++ [']'])

/-- The decimal digits of a number from 1 to 65535. -/
structure Port (cs : List Char) : Prop where
  nonempty : cs ≠ []
  digits : ∀ c ∈ cs, c.isDigit = true
  positive : 0 < decimal cs
  bound : decimal cs ≤ 65535

def portText : Option (List Char) → List Char
  | none => []
  | some port => ':'::port

theorem validPort_some {port : List Char} : validPort (some port) = true ↔ Port port := by
  simp only [validPort,Bool.and_eq_true,Bool.not_eq_true',List.isEmpty_eq_false_iff,List.all_eq_true,
    decide_eq_true_eq]
  constructor
  · rintro ⟨⟨⟨hne,hdigits⟩,hpos⟩,hbound⟩
    exact ⟨hne,hdigits,hpos,Nat.le_of_lt_succ hbound⟩
  · rintro ⟨hne,hdigits,hpos,hbound⟩
    exact ⟨⟨⟨hne,hdigits⟩,hpos⟩,Nat.lt_succ_of_le hbound⟩

theorem label_iff {cs : List Char} :
    (!cs.isEmpty && cs.head? != some '-' && cs.getLast? != some '-' &&
      cs.all fun c => c.isAlphanum || c == '-') = true ↔ Label cs := by
  simp only [Bool.and_eq_true,Bool.not_eq_true',List.isEmpty_eq_false_iff,List.all_eq_true,bne_iff_ne]
  constructor
  · rintro ⟨⟨⟨hne,hhead⟩,hlast⟩,hchars⟩
    exact ⟨hne,hhead,hlast,hchars⟩
  · rintro ⟨hne,hhead,hlast,hchars⟩
    exact ⟨⟨⟨hne,hhead⟩,hlast⟩,hchars⟩

theorem Label.no_dot {cs : List Char} (h : Label cs) : '.' ∉ cs := by
  intro hdot
  have hchar := h.chars '.' hdot
  revert hchar
  decide

theorem validHost_iff {host : List Char} :
    validHost host = true ↔
      ∃ labels, labels ≠ [] ∧ (∀ label ∈ labels, Label label) ∧ host = ['.'].intercalate labels := by
  have hvalid : validHost host = true ↔ host ≠ [] ∧ ∀ label ∈ host.splitOn '.', Label label := by
    rw [validHost,Bool.and_eq_true,List.all_eq_true]
    exact and_congr (by simp) (forall₂_congr fun label _ => label_iff)
  rw [hvalid]
  constructor
  · rintro ⟨-,hlabels⟩
    exact ⟨_,List.splitOn_ne_nil _ _,hlabels,(List.intercalate_splitOn '.').symm⟩
  · rintro ⟨labels,hne,hlabels,rfl⟩
    rw [List.splitOn_intercalate '.' (fun label hlabel => (hlabels label hlabel).no_dot) hne]
    refine ⟨?_,hlabels⟩
    cases labels with
    | nil => exact absurd rfl hne
    | cons label labels =>
      have hlabel := (hlabels label List.mem_cons_self).nonempty
      cases labels with
      | nil => simpa using hlabel
      | cons next labels => simp [List.intercalate_cons_cons]

/-! ### IPv6 -/

theorem isDigit_iff {c : Char} : c.isDigit = true ↔ 48 ≤ c.toNat ∧ c.toNat ≤ 57 := by
  simp only [Char.isDigit,Bool.and_eq_true,decide_eq_true_eq,ge_iff_le,UInt32.le_iff_toNat_le]
  rfl

theorem isHexDigit_iff {c : Char} :
    c.isHexDigit = true ↔ (c.isDigit = true ∨ 97 ≤ c.toNat ∧ c.toNat ≤ 102) ∨ 65 ≤ c.toNat ∧ c.toNat ≤ 70 := by
  simp only [Char.isHexDigit,Bool.or_eq_true,Bool.and_eq_true,decide_eq_true_eq,ge_iff_le,
    UInt32.le_iff_toNat_le]
  rfl

theorem isAlphanum_iff {c : Char} :
    c.isAlphanum = true ↔ (65 ≤ c.toNat ∧ c.toNat ≤ 90 ∨ 97 ≤ c.toNat ∧ c.toNat ≤ 122) ∨ c.isDigit = true := by
  have hranges : c.isAlphanum = (decide (65 ≤ c.val ∧ c.val ≤ 90) ||
      decide (97 ≤ c.val) && decide (c.val ≤ 122) || c.isDigit) := rfl
  simp only [hranges,Bool.or_eq_true,Bool.and_eq_true,decide_eq_true_eq,UInt32.le_iff_toNat_le]
  rfl

theorem isDigit_ten (c : Char) : Digits.isDigit 10 c = c.isDigit := by
  apply Bool.eq_iff_iff.mpr
  rw [isDigit_iff,Digits.isDigit,Digits.digitValue,decide_eq_true_eq]
  split_ifs <;> omega

theorem isDigit_sixteen (c : Char) : Digits.isDigit 16 c = c.isHexDigit := by
  apply Bool.eq_iff_iff.mpr
  rw [isHexDigit_iff,isDigit_iff,Digits.isDigit,Digits.digitValue,decide_eq_true_eq]
  split_ifs <;> omega

theorem value_lt {radix : ℕ} {cs : List Char} (h : ∀ c ∈ cs, Digits.isDigit radix c = true) :
    Digits.value radix cs < radix^cs.length := by
  induction cs using List.reverseRecOn with
  | nil => exact Nat.one_pos
  | append_singleton cs c ih =>
    have hlow := ih fun d hd => h d (List.mem_append_left _ hd)
    have hc : Digits.digitValue c < radix := by simpa [Digits.isDigit] using h c (by simp)
    have hvalue : Digits.value radix (cs ++ [c]) = Digits.value radix cs*radix+Digits.digitValue c := by
      simp [Digits.value]
    rw [hvalue,List.length_append,List.length_singleton,pow_succ]
    nlinarith

theorem drop_takeWhile (p : Char → Bool) (cs : List Char) : cs.drop (cs.takeWhile p).length = cs.dropWhile p := by
  induction cs with
  | nil => rfl
  | cons c cs ih => by_cases hc : p c = true <;> simp [hc,ih]

theorem readGroup_eq (cs : List Char) : readGroup cs = (Ip.readGroup cs).map Prod.snd := by
  have hdigits : Digits.isDigit 16 = Char.isHexDigit := funext isDigit_sixteen
  have hvalue : (cs.takeWhile Char.isHexDigit).length ≤ 4 →
      Digits.value 16 (cs.takeWhile Char.isHexDigit) < 65536 := by
    intro hlen
    have hall : ∀ c ∈ cs.takeWhile Char.isHexDigit, Digits.isDigit 16 c = true := fun c hc => by
      rw [hdigits]
      exact List.all_eq_true.mp List.all_takeWhile c hc
    have hlt := value_lt hall
    exact hlt.trans_le (Nat.pow_le_pow_right (by decide) hlen)
  simp only [readGroup,Ip.readGroup,Digits.read,hdigits,drop_takeWhile,true_or,true_and]
  split_ifs <;> simp_all

theorem readOctet_eq (cs : List Char) : readOctet cs = (Ip.readOctet cs).map Prod.snd := by
  have hdigits : Digits.isDigit 10 = Char.isDigit := funext isDigit_ten
  have hvalue : Digits.value 10 (cs.takeWhile Char.isDigit) = decimal (cs.takeWhile Char.isDigit) := by
    refine List.foldl_ext _ _ _ fun n c hc => ?_
    have hdigit : Digits.digitValue c < 10 := by
      rw [← decide_eq_true_eq (p := Digits.digitValue c < 10)]
      exact (isDigit_ten c).trans (List.all_eq_true.mp List.all_takeWhile c hc)
    have hchar : Digits.digitValue c = c.toNat-48 := by
      unfold Digits.digitValue at hdigit ⊢
      split_ifs at hdigit ⊢ <;> omega
    rw [hchar]
  simp only [readOctet,Ip.readOctet,Digits.read,hdigits,drop_takeWhile,hvalue,Bool.false_eq_true,false_or,
    imp_iff_not_or,ne_eq,Nat.reducePow]
  split_ifs <;> rfl

theorem readSeparator_eq {α : Type} (sep : Char) (index : ℕ) {read : List Char → Option (List Char)}
    {read' : List Char → Option (α × List Char)} (h : ∀ cs, read cs = (read' cs).map Prod.snd) (cs : List Char) :
    readSeparator sep index read cs = (Ip.readSeparator sep index read' cs).map Prod.snd := by
  unfold readSeparator Ip.readSeparator
  by_cases hzero : index = 0
  · simp only [hzero,if_true,h]
  · cases cs with
    | nil => simp [hzero]
    | cons c cs => by_cases hc : c = sep <;> simp [hzero,hc,h]

theorem readIpv4_eq (cs : List Char) : readIpv4 cs = (Ip.readIpv4 cs).map Prod.snd := by
  rw [readIpv4,Ip.readIpv4]
  simp only [readSeparator_eq '.' _ readOctet_eq,Option.bind_eq_bind,Option.map_eq_bind,Option.bind_assoc,
    Function.comp_apply,Option.bind_some]

theorem readGroups_eq (left index : ℕ) (cs : List Char) :
    readGroups left index cs =
      ⟨index+(Ip.readGroups left index cs).groups.length,(Ip.readGroups left index cs).ipv4,
        (Ip.readGroups left index cs).rest⟩ := by
  induction left generalizing index cs with
  | zero => rfl
  | succ left ih =>
    have hipv4 : (if 0 < left then readSeparator ':' index readIpv4 cs else none) =
        (if 0 < left then Ip.readSeparator ':' index Ip.readIpv4 cs else none).map Prod.snd := by
      rw [readSeparator_eq ':' index readIpv4_eq]
      split_ifs <;> rfl
    rw [readGroups,Ip.readGroups,hipv4,readSeparator_eq ':' index readGroup_eq]
    cases (if 0 < left then Ip.readSeparator ':' index Ip.readIpv4 cs else none) with
    | some p => rfl
    | none =>
      cases Ip.readSeparator ':' index Ip.readGroup cs with
      | none => rfl
      | some p =>
        simp only [Option.map_some,Option.map_none,ih,List.length_cons]
        congr 1
        omega

theorem validIpv6_iff {host : List Char} : validIpv6 host = true ↔ ∃ a, Ip.readIpv6 host = some (a,[]) := by
  simp only [validIpv6,Ip.readIpv6,readGroups_eq,Nat.zero_add]
  split_ifs with hfull hipv4 hcolons
  · simp
  · simp
  · obtain ⟨rest,hrest⟩ := List.isPrefixOf_iff_prefix.mp hcolons
    simp [← hrest]
  · have hother : ∀ rest, (Ip.readGroups 8 0 host).rest ≠ ':' :: ':' :: rest := by
      intro rest hrest
      exact hcolons (by rw [hrest]; rfl)
    split
    · rename_i rest hrest
      exact absurd hrest (hother rest)
    · simp

/-! ### Characters of hosts -/

/-- No host holds a character that ends one. -/
def hostChar (c : Char) : Bool := labelChar c || c == '.' || c == ':' || c == '[' || c == ']'

theorem intercalate_chars {p : Char → Prop} {sep : Char} (hsep : p sep) {labels : List (List Char)}
    (h : ∀ label ∈ labels, ∀ c ∈ label, p c) : ∀ c ∈ [sep].intercalate labels, p c := by
  induction labels with
  | nil => simp
  | cons label labels ih =>
    have hlabels := ih fun l hl => h l (List.mem_cons_of_mem _ hl)
    cases labels with
    | nil => simpa using h label List.mem_cons_self
    | cons next labels =>
      intro c hc
      rw [List.intercalate_cons_cons,List.mem_append,List.mem_append,List.mem_singleton] at hc
      rcases hc with (hc | rfl) | hc
      · exact h label List.mem_cons_self c hc
      · exact hsep
      · exact hlabels c hc

theorem ipChar_hostChar {c : Char} (h : Ip.ipChar c = true) : hostChar c = true ∧ c ≠ ']' := by
  rw [Ip.ipChar,isDigit_sixteen,Bool.or_eq_true,Bool.or_eq_true,beq_iff_eq,beq_iff_eq] at h
  rcases h with (h | rfl) | rfl
  · have halnum : c.isAlphanum = true := by
      rw [isHexDigit_iff,isDigit_iff] at h
      rw [isAlphanum_iff,isDigit_iff]
      omega
    refine ⟨by simp [hostChar,labelChar,halnum],?_⟩
    rintro rfl
    revert halnum
    decide
  · decide
  · decide

theorem readIpv6_chars {text : List Char} {a : Ip.Ipv6Addr} (h : Ip.readIpv6 text = some (a,[])) :
    ∀ c ∈ text, hostChar c = true ∧ c ≠ ']' := by
  obtain ⟨taken,rfl,htaken⟩ := Ip.behind_ipv6 h
  rw [List.append_nil]
  exact fun c hc => ipChar_hostChar (htaken c hc)

theorem name_chars {labels : List (List Char)} (h : ∀ label ∈ labels, Label label) :
    ∀ c ∈ ['.'].intercalate labels, (labelChar c || c == '.') = true := by
  refine intercalate_chars (by decide) fun label hlabel c hc => ?_
  rw [(h label hlabel).chars c hc]
  rfl

theorem Host.chars {host : List Char} (h : Host host) : ∀ c ∈ host, hostChar c = true := by
  cases h with
  | name labels hlabels h =>
    intro c hc
    have hchar := name_chars h c hc
    rw [hostChar,hchar]
    rfl
  | ipv6 text a h =>
    intro c hc
    rw [List.cons_append,List.mem_cons,List.mem_append,List.mem_singleton] at hc
    rcases hc with rfl | hc | rfl
    · decide
    · exact (readIpv6_chars h c hc).1
    · decide

theorem Port.no_colon {port : List Char} (h : Port port) : ':' ∉ port := by
  intro hcolon
  have hdigit := h.digits ':' hcolon
  revert hdigit
  decide

theorem portText_chars {port : Option (List Char)} (h : ∀ p ∈ port, Port p) : ∀ c ∈ portText port, hostChar c = true := by
  cases port with
  | none => exact nofun
  | some p =>
    intro c hc
    rcases List.mem_cons.mp hc with rfl | hc
    · decide
    · have hdigit := (h p rfl).digits c hc
      simp [hostChar,labelChar,Char.isAlphanum,hdigit]

/-- The authority is a host, and a port if there is a colon behind it. -/
theorem host_of_bracketed {value : List Char} (h : validHostPort ('['::value) = true) :
    ∃ host port, Host host ∧ (∀ p ∈ port, Port p) ∧ '['::value = host ++ portText port := by
  rw [validHostPort] at h
  cases hclose : bracketed value with
  | none => simp [hclose] at h
  | some p =>
    obtain ⟨host,suffix⟩ := p
    obtain ⟨rfl,-⟩ := splitOnce_eq_some.mp hclose
    rw [hclose] at h
    cases suffix with
    | nil =>
      obtain ⟨a,ha⟩ := validIpv6_iff.mp (Bool.and_eq_true_iff.mp h).1
      exact ⟨_,none,.ipv6 host a ha,nofun,by simp [portText]⟩
    | cons c port =>
      by_cases hc : c = ':'
      · subst hc
        simp only [Bool.and_eq_true,validIpv6_iff,validPort_some] at h
        obtain ⟨⟨-,a,ha⟩,hport⟩ := h
        exact ⟨_,some port,.ipv6 host a ha,by simpa using hport,by simp [portText]⟩
      · simp [hc] at h

theorem validHostPort_plain {authority : List Char} (hplain : authority.head? ≠ some '[') :
    validHostPort authority = match rsplitOnce authority ':' with
      | some (host,c::port) => validHost host && validPort (some (c::port))
      | _ => validHost authority && validPort none := by
  unfold validHostPort
  split
  · exact absurd rfl hplain
  · rfl

theorem host_of_plain {authority : List Char} (hplain : authority.head? ≠ some '[')
    (h : validHostPort authority = true) :
    ∃ host port, Host host ∧ (∀ p ∈ port, Port p) ∧ authority = host ++ portText port := by
  rw [validHostPort_plain hplain] at h
  split at h
  · rename_i host c port hsplit
    rw [Bool.and_eq_true,validHost_iff,validPort_some] at h
    obtain ⟨⟨labels,hne,hlabels,rfl⟩,hport⟩ := h
    obtain ⟨rfl,-⟩ := rsplitOnce_eq_some.mp hsplit
    exact ⟨_,some (c::port),.name labels hne hlabels,by simpa using hport,rfl⟩
  · rw [Bool.and_eq_true,validHost_iff] at h
    obtain ⟨⟨labels,hne,hlabels,rfl⟩,-⟩ := h
    exact ⟨_,none,.name labels hne hlabels,nofun,by simp [portText]⟩

theorem validHostPort_name {labels : List (List Char)} {port : Option (List Char)} (hne : labels ≠ [])
    (hlabels : ∀ l ∈ labels, Label l) (hport : ∀ p ∈ port, Port p) :
    validHostPort (['.'].intercalate labels ++ portText port) = true := by
  have hhost := validHost_iff.mpr ⟨labels,hne,hlabels,rfl⟩
  have hchars := name_chars hlabels
  generalize ['.'].intercalate labels = host at hhost hchars ⊢
  have hcolon : ':' ∉ host := fun hmem => absurd (hchars ':' hmem) (by decide)
  have hplain : (host ++ portText port).head? ≠ some '[' := by
    cases host with
    | nil => cases hhost
    | cons c host =>
      rintro ⟨⟩
      exact absurd (hchars '[' List.mem_cons_self) (by decide)
  rw [validHostPort_plain hplain]
  cases port with
  | none =>
    have hsplit : rsplitOnce host ':' = none := rsplitOnce_eq_none.mpr hcolon
    simpa [portText,hsplit,validPort] using hhost
  | some p =>
    have hp := hport p rfl
    have hsplit : rsplitOnce (host ++ ':'::p) ':' = some (host,p) := rsplitOnce_eq_some.mpr ⟨rfl,hp.no_colon⟩
    cases p with
    | nil => exact absurd rfl hp.nonempty
    | cons c p => simp [portText,hsplit,hhost,validPort_some.mpr hp]

theorem validHostPort_ipv6 {text : List Char} {a : BitVec 128} {port : Option (List Char)}
    (h : Ip.readIpv6 text = some (a,[])) (hport : ∀ p ∈ port, Port p) :
    validHostPort ('['::text ++ [']'] ++ portText port) = true := by
  have hhost : validIpv6 text = true := validIpv6_iff.mpr ⟨a,h⟩
  have hclose : bracketed (text ++ ']'::portText port) = some (text,portText port) :=
    splitOnce_eq_some.mpr ⟨rfl,fun hmem => (readIpv6_chars h ']' hmem).2 rfl⟩
  have happend : '['::text ++ [']'] ++ portText port = '['::(text ++ ']'::portText port) := by simp
  rw [happend,validHostPort,hclose]
  cases port with
  | none => simpa [portText,validPort] using hhost
  | some p =>
    have hp := hport p rfl
    simp [portText,hhost,validPort_some.mpr hp,hp.nonempty]

theorem validHostPort_iff {authority : List Char} :
    validHostPort authority = true ↔
      ∃ host port, Host host ∧ (∀ p ∈ port, Port p) ∧ authority = host ++ portText port := by
  constructor
  · intro h
    by_cases hplain : authority.head? = some '['
    · obtain ⟨value,rfl⟩ := List.head?_eq_some_iff.mp hplain
      exact host_of_bracketed h
    · exact host_of_plain hplain h
  · rintro ⟨host,port,hhost,hport,rfl⟩
    cases hhost with
    | name labels hlabels h => exact validHostPort_name hlabels h hport
    | ipv6 text a h => exact validHostPort_ipv6 h hport

/-! ### Locations -/

structure Path (cs : List Char) : Prop where
  nonempty : cs ≠ []
  head : cs.head? ≠ some '/'
  query : '?' ∉ cs
  fragment : '#' ∉ cs

/-- The three shapes of a location: `https://host[:port]/path`, `ssh://[git@]host[:port]/path` and
`git@host:path`. -/
inductive GitLocation : List Char → Prop
  | https (host path : List Char) (port : Option (List Char)) (hhost : Host host) (hport : ∀ p ∈ port, Port p)
    (hpath : Path path) : GitLocation ("https://".toList ++ (host ++ portText port ++ '/'::path))
  | ssh (user : Bool) (host path : List Char) (port : Option (List Char)) (hhost : Host host)
    (hport : ∀ p ∈ port, Port p) (hpath : Path path) :
    GitLocation ("ssh://".toList ++ ((if user then "git@".toList else []) ++ (host ++ portText port) ++ '/'::path))
  | scp (host path : List Char) (hhost : Host host) (hpath : Path path) (huser : '@' ∉ host ++ ':'::path)
    (hscheme : ¬"://".toList <:+: host ++ ':'::path) : GitLocation ("git@".toList ++ (host ++ ':'::path))

theorem authority_chars {host : List Char} {port : Option (List Char)} (hhost : Host host)
    (hport : ∀ p ∈ port, Port p) : ∀ c ∈ host ++ portText port, hostChar c = true := by
  intro c hc
  cases List.mem_append.mp hc with
  | inl hc => exact hhost.chars c hc
  | inr hc => exact portText_chars hport c hc

/-- No host starts with a hyphen or a colon. -/
theorem Host.cons {host : List Char} (h : Host host) : ∃ c rest, host = c::rest ∧ c ≠ '-' ∧ c ≠ ':' := by
  cases h with
  | name labels hlabels h =>
    cases labels with
    | nil => exact absurd rfl hlabels
    | cons label labels =>
      have hlabel := h label List.mem_cons_self
      have happend : ∃ more, ['.'].intercalate (label::labels) = label ++ more := by
        cases labels with
        | nil => exact ⟨[],by simp⟩
        | cons next labels => exact ⟨_,by rw [List.intercalate_cons_cons,List.append_assoc]⟩
      obtain ⟨more,hmore⟩ := happend
      cases label with
      | nil => exact absurd rfl hlabel.nonempty
      | cons c label =>
        refine ⟨c,_,hmore,?_,?_⟩
        · rintro rfl
          exact hlabel.head rfl
        · rintro rfl
          exact absurd (hlabel.chars ':' List.mem_cons_self) (by decide)
  | ipv6 text a h => exact ⟨'[',_,rfl,by decide,by decide⟩

theorem Host.nonempty {host : List Char} (h : Host host) : host ≠ [] := by
  obtain ⟨c,rest,rfl,-⟩ := h.cons
  exact List.cons_ne_nil c rest

theorem Host.head {host : List Char} (h : Host host) : host.head? ≠ some '-' := by
  obtain ⟨c,rest,rfl,hc,-⟩ := h.cons
  simpa using hc

theorem path_iff {path : List Char} :
    path.isEmpty = false ∧ path.head? ≠ some '/' ∧ plainPath path = true ↔ Path path := by
  simp only [plainPath,Bool.and_eq_true,Bool.not_eq_true',List.contains_eq_mem,decide_eq_false_iff_not,
    List.isEmpty_eq_false_iff]
  constructor
  · rintro ⟨hne,hhead,hquery,hfragment⟩
    exact ⟨hne,hhead,hquery,hfragment⟩
  · rintro ⟨hne,hhead,hquery,hfragment⟩
    exact ⟨hne,hhead,hquery,hfragment⟩

theorem httpsLocation_iff {rest : List Char} :
    httpsLocation rest = true ↔ ∃ host port path, Host host ∧ (∀ p ∈ port, Port p) ∧ Path path ∧
      rest = host ++ portText port ++ '/'::path := by
  constructor
  · intro h
    unfold httpsLocation at h
    split at h
    · cases h
    · rename_i authority path hsplit
      obtain ⟨rfl,-⟩ := splitOnce_eq_some.mp hsplit
      simp only [Bool.and_eq_true,Bool.not_eq_true',bne_iff_ne] at h
      obtain ⟨⟨⟨⟨⟨⟨-,hne⟩,hslash⟩,-⟩,-⟩,hplain⟩,hauthority⟩ := h
      obtain ⟨host,port,hhost,hport,rfl⟩ := validHostPort_iff.mp hauthority
      exact ⟨host,port,path,hhost,hport,path_iff.mp ⟨hne,hslash,hplain⟩,rfl⟩
  · rintro ⟨host,port,path,hhost,hport,hpath,rfl⟩
    have hchars := authority_chars hhost hport
    have hauthority : validHostPort (host ++ portText port) = true :=
      validHostPort_iff.mpr ⟨host,port,hhost,hport,rfl⟩
    have hne : (host ++ portText port) ≠ [] := by simp [hhost.nonempty]
    generalize host ++ portText port = authority at *
    have hsplit : splitOnce (authority ++ '/'::path) ['/'] = some (authority,path) :=
      splitOnce_eq_some.mpr ⟨rfl,fun hmem => absurd (hchars '/' hmem) (by decide)⟩
    obtain ⟨hnonempty,hslash,hplain⟩ := path_iff.mpr hpath
    have hquery : path.head? ≠ some '?' := fun h => hpath.query (List.mem_of_head? h)
    have hfragment : path.head? ≠ some '#' := fun h => hpath.fragment (List.mem_of_head? h)
    have hfree : ['@','?','#','%'].all (fun c => !authority.contains c) = true := by
      simp only [List.all_eq_true,Bool.not_eq_true',List.contains_eq_mem,decide_eq_false_iff_not]
      have hends : ['@','?','#','%'].all (fun c => !hostChar c) = true := by decide
      intro c hc hmem
      have hother := List.all_eq_true.mp hends c hc
      rw [hchars c hmem] at hother
      cases hother
    rw [httpsLocation,hsplit]
    simp only [hfree,hauthority,hnonempty,hplain,List.isEmpty_eq_false_iff.mpr hne,Bool.not_false,
      bne_iff_ne.mpr hslash,bne_iff_ne.mpr hquery,bne_iff_ne.mpr hfragment,Bool.and_true]

theorem sshLocation_iff {rest : List Char} :
    sshLocation rest = true ↔ ∃ (user : Bool) (host : List Char) (port : Option (List Char)) (path : List Char),
      Host host ∧ (∀ p ∈ port, Port p) ∧ Path path ∧
        rest = (if user then "git@".toList else []) ++ (host ++ portText port) ++ '/'::path := by
  constructor
  · intro h
    unfold sshLocation at h
    split at h
    · cases h
    · rename_i authority path hsplit
      obtain ⟨rfl,-⟩ := splitOnce_eq_some.mp hsplit
      split_ifs at h with hends
      simp only [Bool.or_eq_true,not_or,beq_iff_eq] at hends
      obtain ⟨⟨⟨-,hne⟩,hslash⟩,-⟩ := hends
      have hpath : plainPath path = true → Path path :=
        fun hplain => path_iff.mp ⟨by simpa using hne,hslash,hplain⟩
      cases huser : splitOnce authority ['@'] with
      | none =>
        simp only [huser,Bool.and_eq_true] at h
        obtain ⟨host,port,hhost,hport,rfl⟩ := validHostPort_iff.mp h.1
        exact ⟨false,host,port,path,hhost,hport,hpath h.2,rfl⟩
      | some p =>
        obtain ⟨user,host⟩ := p
        obtain ⟨rfl,-⟩ := splitOnce_eq_some.mp huser
        simp only [huser] at h
        split_ifs at h with hbad
        simp only [Bool.or_eq_true,not_or,bne_iff_ne,ne_eq,not_not] at hbad
        obtain ⟨⟨⟨rfl,-⟩,-⟩,-⟩ := hbad
        rw [Bool.and_eq_true] at h
        obtain ⟨host,port,hhost,hport,rfl⟩ := validHostPort_iff.mp h.1
        exact ⟨true,host,port,path,hhost,hport,hpath h.2,rfl⟩
  · rintro ⟨user,host,port,path,hhost,hport,hpath,rfl⟩
    have hchars := authority_chars hhost hport
    have hauthority : validHostPort (host ++ portText port) = true :=
      validHostPort_iff.mpr ⟨host,port,hhost,hport,rfl⟩
    have hne : (host ++ portText port) ≠ [] := by simp [hhost.nonempty]
    generalize host ++ portText port = authority at *
    obtain ⟨hnonempty,hslash,hplain⟩ := path_iff.mpr hpath
    have hquery : path.head? ≠ some '?' := fun h => hpath.query (List.mem_of_head? h)
    have hat : '@' ∉ authority := fun hmem => absurd (hchars '@' hmem) (by decide)
    have hnoslash : '/' ∉ authority := fun hmem => absurd (hchars '/' hmem) (by decide)
    cases user with
    | false =>
      have hsplit : splitOnce (authority ++ '/'::path) ['/'] = some (authority,path) :=
        splitOnce_eq_some.mpr ⟨rfl,hnoslash⟩
      have huser : splitOnce authority ['@'] = none := splitOnce_eq_none.mpr hat
      simp [sshLocation,hsplit,huser,hauthority,hne,hnonempty,hslash,hplain,hquery]
    | true =>
      have hsplit : splitOnce ("git@".toList ++ authority ++ '/'::path) ['/'] =
          some ("git@".toList ++ authority,path) :=
        splitOnce_eq_some.mpr ⟨rfl,by simpa using hnoslash⟩
      have huser : splitOnce ("git@".toList ++ authority) ['@'] = some ("git".toList,authority) :=
        splitOnce_eq_some.mpr ⟨rfl,by decide⟩
      have hfull : ("git@".toList ++ authority).isEmpty = false := rfl
      have hgit : "git".toList.contains ':' = false := by decide
      rw [if_pos rfl,sshLocation,hsplit]
      simp only [huser,hfull,hgit,hnonempty]
      simp [hauthority,hne,hslash,hplain,hquery,hat]

/-- What stands before and behind the colon of the short form, and whether the first is a host. -/
def scpParts (rest : List Char) : Option (Bool × List Char) :=
  match rest with
  | '['::value =>
    match bracketed value with
    | some (host,':'::path) => some (validIpv6 host,path)
    | _ => none
  | _ =>
    match splitOnce rest [':'] with
    | some (host,path) => some (validHost host,path)
    | none => none

theorem scpLocation_some {value user rest : List Char} (h : splitOnce value ['@'] = some (user,rest)) :
    scpLocation value =
      if user != "git".toList || rest.contains '@' || (splitOnce rest "://".toList).isSome then false
      else match scpParts rest with
        | none => false
        | some (hostValid,path) => hostValid && !path.isEmpty && path.head? != some '/' && plainPath path := by
  rw [scpLocation,h]
  rfl

theorem scpParts_iff {rest path : List Char} :
    scpParts rest = some (true,path) ↔ ∃ host, Host host ∧ rest = host ++ ':'::path := by
  constructor
  · intro h
    unfold scpParts at h
    split at h
    · rename_i value
      split at h
      · rename_i host path' hclose
        obtain ⟨hvalid,rfl⟩ := Prod.ext_iff.mp (Option.some.inj h)
        obtain ⟨rfl,-⟩ := splitOnce_eq_some.mp hclose
        obtain ⟨a,ha⟩ := validIpv6_iff.mp hvalid
        exact ⟨_,.ipv6 host a ha,by simp⟩
      · cases h
    · split at h
      · rename_i host path' hcolon
        obtain ⟨hvalid,rfl⟩ := Prod.ext_iff.mp (Option.some.inj h)
        obtain ⟨rfl,-⟩ := splitOnce_eq_some.mp hcolon
        obtain ⟨labels,hlabels,hlabel,rfl⟩ := validHost_iff.mp hvalid
        exact ⟨_,.name labels hlabels hlabel,rfl⟩
      · cases h
  · rintro ⟨host,hhost,rfl⟩
    cases hhost with
    | name labels hlabels h =>
      have hhost := validHost_iff.mpr ⟨labels,hlabels,h,rfl⟩
      have hchars := name_chars h
      generalize ['.'].intercalate labels = host at hhost hchars ⊢
      have hcolon : ':' ∉ host := fun hmem => absurd (hchars ':' hmem) (by decide)
      have hsplit : splitOnce (host ++ ':'::path) [':'] = some (host,path) := splitOnce_eq_some.mpr ⟨rfl,hcolon⟩
      unfold scpParts
      split
      · rename_i value heq
        cases host with
        | nil => cases hhost
        | cons c host =>
          obtain rfl : c = '[' := (List.cons.inj heq).1
          exact absurd (hchars '[' List.mem_cons_self) (by decide)
      · rw [hsplit]
        exact congrArg (fun b => some (b,path)) hhost
    | ipv6 text a h =>
      have hhost : validIpv6 text = true := validIpv6_iff.mpr ⟨a,h⟩
      have hclose : bracketed (text ++ ']' :: ':' :: path) = some (text,':'::path) :=
        splitOnce_eq_some.mpr ⟨rfl,fun hmem => (readIpv6_chars h ']' hmem).2 rfl⟩
      have happend : '['::text ++ [']'] ++ ':'::path = '['::(text ++ ']' :: ':' :: path) := by simp
      rw [happend,scpParts,hclose]
      exact congrArg (fun b => some (b,path)) hhost

theorem scpLocation_iff {value : List Char} :
    scpLocation value = true ↔ ∃ host path, Host host ∧ Path path ∧ '@' ∉ host ++ ':'::path ∧
      ¬"://".toList <:+: host ++ ':'::path ∧ value = "git@".toList ++ (host ++ ':'::path) := by
  constructor
  · intro h
    cases hsplit : splitOnce value ['@'] with
    | none => simp [scpLocation,hsplit] at h
    | some p =>
      obtain ⟨user,rest⟩ := p
      rw [scpLocation_some hsplit] at h
      obtain ⟨rfl,-⟩ := splitOnce_eq_some.mp hsplit
      split_ifs at h with hbad
      simp only [Bool.or_eq_true,not_or,bne_iff_ne,ne_eq,not_not,List.contains_eq_mem,decide_eq_true_eq,
        splitOnce_isSome] at hbad
      obtain ⟨⟨rfl,hat⟩,hscheme⟩ := hbad
      cases hparts : scpParts rest with
      | none => simp [hparts] at h
      | some p =>
        obtain ⟨hostValid,path⟩ := p
        simp only [hparts,Bool.and_eq_true,bne_iff_ne,Bool.not_eq_true'] at h
        obtain ⟨⟨⟨rfl,hne⟩,hslash⟩,hplain⟩ := h
        obtain ⟨host,hhost,rfl⟩ := scpParts_iff.mp hparts
        exact ⟨host,path,hhost,path_iff.mp ⟨hne,hslash,hplain⟩,hat,hscheme,rfl⟩
  · rintro ⟨host,path,hhost,hpath,hat,hscheme,rfl⟩
    obtain ⟨hnonempty,hslash,hplain⟩ := path_iff.mpr hpath
    have hsplit : splitOnce ("git@".toList ++ (host ++ ':'::path)) ['@'] =
        some ("git".toList,host ++ ':'::path) :=
      splitOnce_eq_some.mpr ⟨rfl,by decide⟩
    have hnone : (splitOnce (host ++ ':'::path) "://".toList).isSome = false :=
      Bool.eq_false_iff.mpr fun h => hscheme (splitOnce_isSome.mp h)
    have hcontains : (host ++ ':'::path).contains '@' = false := by
      rwa [List.contains_eq_mem,decide_eq_false_iff_not]
    rw [scpLocation_some hsplit,hnone,hcontains,scpParts_iff.mpr ⟨host,hhost,rfl⟩]
    simp [hnonempty,hslash,hplain]

theorem gitLocation_iff {cs : List Char} :
    GitLocation cs ↔ (∃ rest, cs = "https://".toList ++ rest ∧ httpsLocation rest = true) ∨
      (∃ rest, cs = "ssh://".toList ++ rest ∧ sshLocation rest = true) ∨ scpLocation cs = true := by
  constructor
  · intro h
    cases h with
    | https host path port hhost hport hpath =>
      exact .inl ⟨_,rfl,httpsLocation_iff.mpr ⟨host,port,path,hhost,hport,hpath,rfl⟩⟩
    | ssh user host path port hhost hport hpath =>
      exact .inr (.inl ⟨_,rfl,sshLocation_iff.mpr ⟨user,host,port,path,hhost,hport,hpath,rfl⟩⟩)
    | scp host path hhost hpath huser hscheme =>
      exact .inr (.inr (scpLocation_iff.mpr ⟨host,path,hhost,hpath,huser,hscheme,rfl⟩))
  · rintro (⟨rest,rfl,h⟩ | ⟨rest,rfl,h⟩ | h)
    · obtain ⟨host,port,path,hhost,hport,hpath,rfl⟩ := httpsLocation_iff.mp h
      exact .https host path port hhost hport hpath
    · obtain ⟨user,host,port,path,hhost,hport,hpath,rfl⟩ := sshLocation_iff.mp h
      exact .ssh user host path port hhost hport hpath
    · obtain ⟨host,path,hhost,hpath,huser,hscheme,rfl⟩ := scpLocation_iff.mp h
      exact .scp host path hhost hpath huser hscheme

theorem scpLocation_user {cs : List Char} (h : scpLocation cs = true) : cs.head? = some 'g' := by
  obtain ⟨host,path,-,-,-,-,rfl⟩ := scpLocation_iff.mp h
  rfl

theorem location_branch (value : String) :
    (match Text.stripPrefix value "https://" with
      | some rest => httpsLocation rest.toList
      | none =>
        match Text.stripPrefix value "ssh://" with
        | some rest => sshLocation rest.toList
        | none => scpLocation value.toList) = true ↔ GitLocation value.toList := by
  rw [gitLocation_iff]
  cases hhttps : Text.stripPrefix value "https://" with
  | some rest =>
    have hvalue := Text.stripPrefix_eq_some.mp hhttps
    constructor
    · exact fun h => .inl ⟨_,hvalue,h⟩
    · rintro (⟨rest',h,hrest⟩ | ⟨rest',h,-⟩ | h)
      · rw [hvalue,List.append_cancel_left_eq] at h
        subst h
        exact hrest
      · rw [hvalue] at h
        cases h
      · have hhead := scpLocation_user h
        rw [hvalue] at hhead
        cases hhead
  | none =>
    have hnone := Text.stripPrefix_eq_none.mp hhttps
    cases hssh : Text.stripPrefix value "ssh://" with
    | some rest =>
      have hvalue := Text.stripPrefix_eq_some.mp hssh
      constructor
      · exact fun h => .inr (.inl ⟨_,hvalue,h⟩)
      · rintro (⟨rest',h,-⟩ | ⟨rest',h,hrest⟩ | h)
        · exact absurd ⟨rest',h⟩ hnone
        · rw [hvalue,List.append_cancel_left_eq] at h
          subst h
          exact hrest
        · have hhead := scpLocation_user h
          rw [hvalue] at hhead
          cases hhead
    | none =>
      have hnone' := Text.stripPrefix_eq_none.mp hssh
      constructor
      · exact fun h => .inr (.inr h)
      · rintro (⟨rest',h,-⟩ | ⟨rest',h,-⟩ | h)
        · exact absurd ⟨rest',h⟩ hnone
        · exact absurd ⟨rest',h⟩ hnone'
        · exact h

/-- What is let in is one of the three shapes, without white space. -/
theorem supportedGitUrl_iff {value : String} :
    supportedGitUrl value = true ↔ (∀ c ∈ value.toList, Text.isWhitespace c = false) ∧ GitLocation value.toList := by
  rw [← location_branch,supportedGitUrl]
  by_cases hempty : value = ""
  · subst hempty
    exact ⟨fun h => absurd h (by decide),fun h => absurd h.2 (by decide)⟩
  · have hne : value.isEmpty = false := by simpa [String.isEmpty_iff] using hempty
    rw [hne,Bool.false_or]
    cases hspace : value.toList.any Text.isWhitespace with
    | true =>
      obtain ⟨c,hc,hwhite⟩ := List.any_eq_true.mp hspace
      refine ⟨nofun,fun h => ?_⟩
      rw [h.1 c hc] at hwhite
      cases hwhite
    | false =>
      have hsolid : ∀ c ∈ value.toList, Text.isWhitespace c = false := by simpa using hspace
      exact (and_iff_right hsolid).symm

/-! ### Credentials -/

/-- What stands between the scheme and the path, or before the colon of the short form. -/
def authorityOf (cs : List Char) : List Char :=
  match splitOnce cs "://".toList with
  | some (_,rest) => rest.takeWhile (· != '/')
  | none => cs.takeWhile (· != ':')

/-- The user, with the password behind a colon if there is one. -/
def userInfo (authority : List Char) : Option (List Char) := (rsplitOnce authority '@').map Prod.fst

def hostPart (authority : List Char) : List Char := ((rsplitOnce authority '@').map Prod.snd).getD authority

theorem takeWhile_authority {authority rest : List Char} {sep : Char} (h : sep ∉ authority) :
    (authority ++ sep::rest).takeWhile (· != sep) = authority := by
  rw [List.takeWhile_append_of_pos]
  · simp
  · intro c hc
    rw [bne_iff_ne]
    rintro rfl
    exact h hc

/-- No user but `git`, no password, and no host that looks like an option. -/
def CredentialFree (cs : List Char) : Prop :=
  (userInfo (authorityOf cs) = none ∨ userInfo (authorityOf cs) = some "git".toList) ∧
    (hostPart (authorityOf cs)).head? ≠ some '-'

theorem credentialFree_of_user {authority cs : List Char} (hcs : authorityOf cs = "git@".toList ++ authority)
    (hat : '@' ∉ authority) (hhead : authority.head? ≠ some '-') : CredentialFree cs := by
  have hsplit : rsplitOnce (authorityOf cs) '@' = some ("git".toList,authority) :=
    rsplitOnce_eq_some.mpr ⟨hcs,hat⟩
  refine ⟨.inr ?_,?_⟩
  · rw [userInfo,hsplit]
    rfl
  · rw [hostPart,hsplit]
    exact hhead

theorem credentialFree_of_host {authority cs : List Char} (hcs : authorityOf cs = authority)
    (hat : '@' ∉ authority) (hhead : authority.head? ≠ some '-') : CredentialFree cs := by
  have hsplit : rsplitOnce (authorityOf cs) '@' = none := rsplitOnce_eq_none.mpr (hcs ▸ hat)
  refine ⟨.inl ?_,?_⟩
  · rw [userInfo,hsplit]
    rfl
  · rw [hostPart,hsplit,hcs]
    exact hhead

theorem splitOnce_user {cs : List Char} (h : ¬"://".toList <:+: cs) :
    splitOnce ("git@".toList ++ cs) "://".toList = none := by
  have hnone : splitOnce cs "://".toList = none :=
    Option.not_isSome_iff_eq_none.mp fun hsome => h (splitOnce_isSome.mp hsome)
  have hsplit : splitOnce ("git@".toList ++ cs) "://".toList =
      ((((splitOnce cs "://".toList).map fun p => ('@'::p.1,p.2)).map fun p => ('t'::p.1,p.2)).map
        fun p => ('i'::p.1,p.2)).map fun p => ('g'::p.1,p.2) := rfl
  rw [hsplit,hnone]
  rfl

theorem GitLocation.credentialFree {cs : List Char} (h : GitLocation cs) : CredentialFree cs := by
  cases h with
  | https host path port hhost hport hpath =>
    have hchars := authority_chars hhost hport
    have hhead : (host ++ portText port).head? ≠ some '-' := by
      rw [List.head?_append_of_ne_nil _ hhost.nonempty]
      exact hhost.head
    generalize host ++ portText port = authority at *
    refine credentialFree_of_host ?_ (fun hmem => absurd (hchars '@' hmem) (by decide)) hhead
    exact takeWhile_authority fun hmem => absurd (hchars '/' hmem) (by decide)
  | ssh user host path port hhost hport hpath =>
    have hchars := authority_chars hhost hport
    have hhead : (host ++ portText port).head? ≠ some '-' := by
      rw [List.head?_append_of_ne_nil _ hhost.nonempty]
      exact hhost.head
    generalize host ++ portText port = authority at *
    have hat : '@' ∉ authority := fun hmem => absurd (hchars '@' hmem) (by decide)
    have hslash : '/' ∉ authority := fun hmem => absurd (hchars '/' hmem) (by decide)
    cases user with
    | false => exact credentialFree_of_host (takeWhile_authority hslash) hat hhead
    | true =>
      refine credentialFree_of_user (takeWhile_authority ?_) hat hhead
      simpa using hslash
  | scp host path hhost hpath huser hscheme =>
    have hhead := hhost.head
    have hne := hhost.nonempty
    have hauthority : authorityOf ("git@".toList ++ (host ++ ':'::path)) =
        "git@".toList ++ (host ++ ':'::path).takeWhile (· != ':') := by
      rw [authorityOf,splitOnce_user hscheme]
      rfl
    refine credentialFree_of_user hauthority ?_ ?_
    · exact fun hmem => huser ((List.takeWhile_prefix _).subset hmem)
    · cases host with
      | nil => exact absurd rfl hne
      | cons c host => by_cases hc : c = ':' <;> simp_all

/-! ### The daemon -/

theorem GitLocation.no_char {cs : List Char} (h : GitLocation cs) {c : Char} (hhost : hostChar c = false)
    (hc : c ∉ "https://ssh://git@".toList) (hpath : ∀ path, Path path → c ∉ path) : c ∉ cs := by
  have hauthority : ∀ {authority : List Char}, (∀ d ∈ authority, hostChar d = true) → c ∉ authority := by
    intro authority hchars hmem
    rw [hchars c hmem] at hhost
    cases hhost
  have htext : "https://ssh://git@".toList = "https://".toList ++ ("ssh://".toList ++ "git@".toList) := by decide
  rw [htext,List.mem_append,List.mem_append,not_or,not_or] at hc
  obtain ⟨hhttps,hssh,hgit⟩ := hc
  have hslash : c ≠ '/' := by
    rintro rfl
    exact hhttps (by decide)
  have hcolon : c ≠ ':' := by
    rintro rfl
    exact hhttps (by decide)
  cases h with
  | https host path port hh hport hp =>
    have hauth := hauthority (authority_chars hh hport)
    generalize host ++ portText port = authority at hauth ⊢
    rw [List.mem_append,List.mem_append,List.mem_cons]
    exact fun hmem => hmem.elim hhttps fun hmem => hmem.elim hauth fun hmem => hmem.elim hslash (hpath path hp)
  | ssh user host path port hh hport hp =>
    have hauth := hauthority (authority_chars hh hport)
    have huser : c ∉ if user then "git@".toList else [] := by
      cases user with
      | false => exact nofun
      | true => exact hgit
    generalize host ++ portText port = authority at hauth ⊢
    rw [List.mem_append,List.mem_append,List.mem_append,List.mem_cons]
    exact fun hmem => hmem.elim hssh fun hmem => hmem.elim (fun hmem => hmem.elim huser hauth)
      fun hmem => hmem.elim hslash (hpath path hp)
  | scp host path hh hp huser hscheme =>
    have hauth := hauthority hh.chars
    rw [List.mem_append,List.mem_append,List.mem_cons]
    exact fun hmem => hmem.elim hgit fun hmem => hmem.elim hauth fun hmem => hmem.elim hcolon (hpath path hp)

theorem gitUserOnly_host {authority : List Char} (h : '@' ∉ authority) : gitUserOnly authority = true := by
  rw [gitUserOnly,splitOnce_eq_none.mpr h]

theorem gitUserOnly_git {rest : List Char} (h : '@' ∉ rest) : gitUserOnly ("git@".toList ++ rest) = true := by
  have hsplit : splitOnce ("git@".toList ++ rest) ['@'] = some ("git".toList,rest) :=
    splitOnce_eq_some.mpr ⟨rfl,by decide⟩
  have hcontains : rest.contains '@' = false := by rwa [List.contains_eq_mem,decide_eq_false_iff_not]
  rw [gitUserOnly,hsplit]
  simp only [hcontains,Bool.not_false,Bool.and_true]
  rfl

theorem GitLocation.credentialFreeLocation {value : String} (h : GitLocation value.toList) :
    credentialFreeLocation value = true := by
  have hquery : value.toList.contains '?' = false := by
    rw [List.contains_eq_mem,decide_eq_false_iff_not]
    exact h.no_char (by decide) (by decide) fun path hpath => hpath.query
  have hfragment : value.toList.contains '#' = false := by
    rw [List.contains_eq_mem,decide_eq_false_iff_not]
    exact h.no_char (by decide) (by decide) fun path hpath => hpath.fragment
  rw [Runtime.credentialFreeLocation,hquery,hfragment]
  generalize value.toList = cs at h
  cases h with
  | https host path port hhost hport hpath =>
    have hchars := authority_chars hhost hport
    generalize host ++ portText port = authority at hchars
    have hsplit : splitOnce (authority ++ '/'::path) ['/'] = some (authority,path) :=
      splitOnce_eq_some.mpr ⟨rfl,fun hmem => absurd (hchars '/' hmem) (by decide)⟩
    have hat : authority.contains '@' = false := by
      rw [List.contains_eq_mem,decide_eq_false_iff_not]
      exact fun hmem => absurd (hchars '@' hmem) (by decide)
    have hscheme : splitOnce ("https://".toList ++ (authority ++ '/'::path)) "://".toList =
        some ("https".toList,authority ++ '/'::path) := rfl
    simp only [hscheme,hsplit,hat]
    rfl
  | ssh user host path port hhost hport hpath =>
    have hchars := authority_chars hhost hport
    generalize host ++ portText port = authority at hchars
    have hat : '@' ∉ authority := fun hmem => absurd (hchars '@' hmem) (by decide)
    have hslash : '/' ∉ authority := fun hmem => absurd (hchars '/' hmem) (by decide)
    have huser : '/' ∉ (if user then "git@".toList else []) ++ authority := by
      cases user with
      | false => exact hslash
      | true => simpa using hslash
    have hgit : gitUserOnly ((if user then "git@".toList else []) ++ authority) = true := by
      cases user with
      | false => exact gitUserOnly_host hat
      | true => exact gitUserOnly_git hat
    generalize (if user then "git@".toList else []) ++ authority = full at huser hgit
    have hsplit : splitOnce (full ++ '/'::path) ['/'] = some (full,path) := splitOnce_eq_some.mpr ⟨rfl,huser⟩
    have hscheme : splitOnce ("ssh://".toList ++ (full ++ '/'::path)) "://".toList =
        some ("ssh".toList,full ++ '/'::path) := rfl
    simp only [hscheme,hsplit,hgit]
    rfl
  | scp host path hhost hpath huser hscheme =>
    rw [splitOnce_user hscheme]
    exact gitUserOnly_git huser

theorem serverRepositoryLocation_scheme {value : String} {authority path : List Char}
    (hvalue : value.toList = "https://".toList ++ (authority ++ '/'::path) ∨
      value.toList = "ssh://".toList ++ (authority ++ '/'::path))
    (hslash : '/' ∉ authority) (hne : authority ≠ []) (hpath : path ≠ [])
    (hfree : Runtime.credentialFreeLocation value = true) : serverRepositoryLocation value = true := by
  have hsplit : splitOnce (authority ++ '/'::path) ['/'] = some (authority,path) :=
    splitOnce_eq_some.mpr ⟨rfl,hslash⟩
  have hstrip : (Text.stripPrefix value "https://").or (Text.stripPrefix value "ssh://") =
      some (String.ofList (authority ++ '/'::path)) := by
    cases hvalue with
    | inl hvalue =>
      have hsome : Text.stripPrefix value "https://" = some (String.ofList (authority ++ '/'::path)) :=
        Text.stripPrefix_append hvalue
      rw [hsome,Option.some_or]
    | inr hvalue =>
      have hnone : Text.stripPrefix value "https://" = none := by
        refine Text.stripPrefix_eq_none.mpr ?_
        rintro ⟨rest,hrest⟩
        rw [hvalue] at hrest
        cases hrest
      rw [hnone,Option.none_or]
      exact Text.stripPrefix_append hvalue
  rw [serverRepositoryLocation,hstrip]
  simp [hsplit,hne,hpath,hfree]

/-- The first colon of the short form is in its host or behind it. -/
theorem splitOnce_scp {host path : List Char} (hhost : Host host) (hpath : path ≠ []) :
    ∃ before after, splitOnce (host ++ ':'::path) [':'] = some (before,after) ∧ before ≠ [] ∧ after ≠ [] ∧
      ∀ c ∈ before, hostChar c = true := by
  cases hsplit : splitOnce host [':'] with
  | none =>
    exact ⟨host,path,splitOnce_eq_some.mpr ⟨rfl,splitOnce_eq_none.mp hsplit⟩,hhost.nonempty,hpath,hhost.chars⟩
  | some p =>
    obtain ⟨before,after⟩ := p
    obtain ⟨rfl,hcolon⟩ := splitOnce_eq_some.mp hsplit
    refine ⟨before,after ++ ':'::path,splitOnce_eq_some.mpr ⟨by simp,hcolon⟩,?_,by simp,?_⟩
    · rintro rfl
      obtain ⟨c,rest,hcons,-,hc⟩ := hhost.cons
      exact hc (List.cons.inj hcons).1.symm
    · exact fun c hc => hhost.chars c (List.mem_append_left _ hc)

theorem GitLocation.serverRepositoryLocation {value : String} (h : GitLocation value.toList) :
    serverRepositoryLocation value = true := by
  have hfree := h.credentialFreeLocation
  generalize hvalue : value.toList = cs at h
  cases h with
  | https host path port hhost hport hpath =>
    have hchars := authority_chars hhost hport
    exact serverRepositoryLocation_scheme (.inl hvalue) (fun hmem => absurd (hchars '/' hmem) (by decide))
      (by simp [hhost.nonempty]) hpath.nonempty hfree
  | ssh user host path port hhost hport hpath =>
    have hchars := authority_chars hhost hport
    have huser : '/' ∉ (if user then "git@".toList else []) ++ (host ++ portText port) := by
      have hslash : '/' ∉ host ++ portText port := fun hmem => absurd (hchars '/' hmem) (by decide)
      cases user with
      | false => exact hslash
      | true => simpa using hslash
    exact serverRepositoryLocation_scheme (.inr hvalue) huser (by simp [hhost.nonempty]) hpath.nonempty hfree
  | scp host path hhost hpath huser hscheme =>
    have hnone : ∀ text : String, text.toList.head? ≠ some 'g' → text.toList ≠ [] →
        Text.stripPrefix value text = none := by
      intro text htext hne
      refine Text.stripPrefix_eq_none.mpr ?_
      rintro ⟨rest,hrest⟩
      rw [← List.head?_append_of_ne_nil text.toList hne,← hrest,hvalue] at htext
      exact htext rfl
    have hgit : Text.stripPrefix value "git@" = some (String.ofList (host ++ ':'::path)) :=
      Text.stripPrefix_append hvalue
    obtain ⟨before,after,hsplit,hbefore,hafter,hchars⟩ := splitOnce_scp hhost hpath.nonempty
    have hslash : '/' ∉ before := fun hmem => absurd (hchars '/' hmem) (by decide)
    have hat : '@' ∉ before := fun hmem => absurd (hchars '@' hmem) (by decide)
    rw [Runtime.serverRepositoryLocation,hnone "https://" (by decide) (by decide),
      hnone "ssh://" (by decide) (by decide),hgit]
    simp [hsplit,hbefore,hafter,hslash,hat]

theorem fromContext_of_supported {context : Protocol.RepositoryContext} (h : supportedGitUrl context.url = true) :
    RepositorySource.fromContext context =
      if Text.blank context.repositoryId then .error (.unauthorized "repository ID is empty")
      else .ok ⟨context.repositoryId,context.url⟩ := by
  obtain ⟨hsolid,hlocation⟩ := supportedGitUrl_iff.mp h
  have hspace : context.url.toList.any Text.isWhitespace = false := by simpa using hsolid
  have hblank : Text.blank context.url = false := by
    refine Bool.eq_false_iff.mpr fun hblank => ?_
    have hnil : context.url.toList = [] := List.eq_nil_iff_forall_not_mem.mpr fun c hc => by
      have hwhite := (Text.blank_iff _).mp hblank c hc
      rw [hsolid c hc] at hwhite
      cases hwhite
    rw [String.toList_eq_nil_iff] at hnil
    rw [hnil] at h
    revert h
    decide
  rw [RepositorySource.fromContext,RepositorySource.validate,hblank,hspace,hlocation.credentialFreeLocation,
    hlocation.serverRepositoryLocation]
  cases Text.blank context.repositoryId with
  | true => rfl
  | false => rfl

/-- The policy of Git locations. Just the three shapes without white space are let in; none of them
carries a password or a user but `git`, or a host that looks like an option; and the daemon takes
each location that the server stored. -/
theorem git_url_policy (value : String) :
    (supportedGitUrl value = true ↔
      (∀ c ∈ value.toList, Text.isWhitespace c = false) ∧ GitLocation value.toList) ∧
    (supportedGitUrl value = true → CredentialFree value.toList) ∧
    ∀ name description metadata, validateMetadata name value description = .ok metadata →
      ∀ context : Protocol.RepositoryContext, context.url = metadata.url →
        RepositorySource.fromContext context =
          if Text.blank context.repositoryId then .error (.unauthorized "repository ID is empty")
          else .ok ⟨context.repositoryId,metadata.url⟩ := by
  refine ⟨supportedGitUrl_iff,fun h => (supportedGitUrl_iff.mp h).2.credentialFree,?_⟩
  intro name description metadata hmetadata context hurl
  have haccepted := (validateMetadata_ok hmetadata).location
  rw [← hurl] at haccepted ⊢
  exact fromContext_of_supported haccepted

theorem sample_git_url_policy :
    CredentialFree "ssh://git@[::1]:22/org/repo.git".toList :=
  (git_url_policy "ssh://git@[::1]:22/org/repo.git").2.1 (by decide)

end Domain
end North
