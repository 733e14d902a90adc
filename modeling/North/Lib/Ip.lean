import North.Lib.Digits
import Mathlib.Data.List.Basic

/-! Internet addresses as bit vectors, and their texts: dotted IPv4, and IPv6 groups with the
longest run of zero groups left out. The reader gives each address back from its text. -/
namespace North
namespace Ip

abbrev Ipv4Addr := BitVec 32

abbrev Ipv6Addr := BitVec 128

inductive IpAddr
  | v4 (address : Ipv4Addr)
  | v6 (address : Ipv6Addr)
  deriving DecidableEq, Repr

/-! ### Places of a number -/

/-- The last `k` places of a number in a base, the highest first. -/
def places (base : ℕ) : (k : ℕ) → ℕ → List ℕ
  | 0, _ => []
  | k+1, n => places base k (n/base) ++ [n%base]

def ofPlaces (base : ℕ) (ds : List ℕ) : ℕ := ds.foldl (fun n d => n*base+d) 0

@[simp] theorem length_places (base k n : ℕ) : (places base k n).length = k := by
  induction k generalizing n with
  | zero => rfl
  | succ k ih => simp [places,ih]

theorem mem_places {base k n d : ℕ} (hbase : 0 < base) (hd : d ∈ places base k n) : d < base := by
  induction k generalizing n with
  | zero => simp [places] at hd
  | succ k ih =>
    rcases List.mem_append.mp hd with h | h
    · exact ih h
    · rw [List.mem_singleton.mp h]
      exact Nat.mod_lt n hbase

@[simp] theorem ofPlaces_append (base : ℕ) (ds : List ℕ) (d : ℕ) :
    ofPlaces base (ds ++ [d]) = ofPlaces base ds*base+d := by
  simp [ofPlaces]

theorem ofPlaces_places {base k n : ℕ} (hn : n < base^k) : ofPlaces base (places base k n) = n := by
  induction k generalizing n with
  | zero =>
    rw [Nat.pow_zero] at hn
    simp [places,ofPlaces,Nat.lt_one_iff.mp hn]
  | succ k ih =>
    have hdiv : n/base < base^k := by
      refine Nat.div_lt_of_lt_mul ?_
      rwa [Nat.mul_comm,← Nat.pow_succ]
    rw [places,ofPlaces_append,ih hdiv,Nat.div_add_mod']

def octets (a : Ipv4Addr) : List ℕ := places 256 4 a.toNat

def ofOctets (ds : List ℕ) : Ipv4Addr := BitVec.ofNat 32 (ofPlaces 256 ds)

def segments (a : Ipv6Addr) : List ℕ := places 65536 8 a.toNat

def ofSegments (ds : List ℕ) : Ipv6Addr := BitVec.ofNat 128 (ofPlaces 65536 ds)

@[simp] theorem ofOctets_octets (a : Ipv4Addr) : ofOctets (octets a) = a := by
  rw [ofOctets,octets,ofPlaces_places (by simpa using a.isLt),BitVec.ofNat_toNat,BitVec.setWidth_eq]

@[simp] theorem ofSegments_segments (a : Ipv6Addr) : ofSegments (segments a) = a := by
  rw [ofSegments,segments,ofPlaces_places (by simpa using a.isLt),BitVec.ofNat_toNat,BitVec.setWidth_eq]

@[simp] theorem length_octets (a : Ipv4Addr) : (octets a).length = 4 := length_places 256 4 _

@[simp] theorem length_segments (a : Ipv6Addr) : (segments a).length = 8 := length_places 65536 8 _

theorem mem_octets {a : Ipv4Addr} {d : ℕ} (hd : d ∈ octets a) : d < 256 := mem_places (by decide) hd

theorem mem_segments {a : Ipv6Addr} {d : ℕ} (hd : d ∈ segments a) : d < 65536 :=
  mem_places (by decide) hd

/-! ### Texts -/

/-- Items behind the first, each with the separator before it. -/
def separated (sep : Char) (radix : ℕ) (items : List ℕ) : List Char :=
  items.flatMap fun n => sep :: Digits.text radix n

def joined (sep : Char) (radix : ℕ) : List ℕ → List Char
  | [] => []
  | first::tail => Digits.text radix first ++ separated sep radix tail

def displayIpv4 (a : Ipv4Addr) : List Char := joined '.' 10 (octets a)

structure Span where
  start : ℕ := 0
  len : ℕ := 0
  deriving DecidableEq, Repr

/-- The span with the zero at the index `i` behind it. -/
def Span.grow (span : Span) (i : ℕ) : Span := ⟨if span.len = 0 then i else span.start,span.len+1⟩

/-- The longest run of zeros so far, and the run that the segments before this one end with. -/
def spanStep (spans : Span × Span) (segment : ℕ × ℕ) : Span × Span :=
  if segment.1 = 0 then
    let current := spans.2.grow segment.2
    (if spans.1.len < current.len then current else spans.1,current)
  else (spans.1,{})

def zeroSpan (segments : List ℕ) : Span := (segments.zipIdx.foldl spanStep ({},{})).1

def toIpv4Mapped (a : Ipv6Addr) : Option Ipv4Addr :=
  match segments a with
  | [0,0,0,0,0,0xffff,high,low] => some (BitVec.ofNat 32 (high*65536+low))
  | _ => none

/-- The run of zeros is left out when it is longer than one group. -/
def displaySegments (segments : List ℕ) : List Char :=
  let zeroes := zeroSpan segments
  if 1 < zeroes.len then
    joined ':' 16 (segments.take zeroes.start) ++
      ':' :: ':' :: joined ':' 16 (segments.drop (zeroes.start+zeroes.len))
  else joined ':' 16 segments

def displayIpv6 (a : Ipv6Addr) : List Char :=
  match toIpv4Mapped a with
  | some v4 => "::ffff:".toList ++ displayIpv4 v4
  | none => displaySegments (segments a)

def display : IpAddr → List Char
  | .v4 a => displayIpv4 a
  | .v6 a => displayIpv6 a

/-! ### Readers -/

/-- The separator stands before every item but the first. -/
def readSeparator {α : Type} (sep : Char) (index : ℕ) (read : List Char → Option (α × List Char))
    (cs : List Char) : Option (α × List Char) :=
  if index = 0 then read cs
  else match cs with
    | [] => none
    | c::rest => if c = sep then read rest else none

def readOctet (cs : List Char) : Option (ℕ × List Char) := Digits.read 10 3 256 false cs

def readGroup (cs : List Char) : Option (ℕ × List Char) := Digits.read 16 4 65536 true cs

def readIpv4 (cs : List Char) : Option (Ipv4Addr × List Char) := do
  let (a,cs) ← readSeparator '.' 0 readOctet cs
  let (b,cs) ← readSeparator '.' 1 readOctet cs
  let (c,cs) ← readSeparator '.' 2 readOctet cs
  let (d,cs) ← readSeparator '.' 3 readOctet cs
  some (ofOctets [a,b,c,d],cs)

structure Groups where
  groups : List ℕ
  ipv4 : Bool
  rest : List Char
  deriving DecidableEq, Repr

/-- Up to `left` more groups; where two are left an IPv4 address may end them. -/
def readGroups : (left index : ℕ) → List Char → Groups
  | 0, _, cs => ⟨[],false,cs⟩
  | left+1, index, cs =>
    match if 0 < left then readSeparator ':' index readIpv4 cs else none with
    | some (v4,rest) => ⟨[v4.toNat/65536,v4.toNat%65536],true,rest⟩
    | none =>
      match readSeparator ':' index readGroup cs with
      | some (group,rest) =>
        let more := readGroups left (index+1) rest
        ⟨group::more.groups,more.ipv4,more.rest⟩
      | none => ⟨[],false,cs⟩

def readIpv6 (cs : List Char) : Option (Ipv6Addr × List Char) :=
  let head := readGroups 8 0 cs
  if head.groups.length = 8 then some (ofSegments head.groups,head.rest)
  else if head.ipv4 then none
  else match head.rest with
    | ':' :: ':' :: rest =>
      let tail := readGroups (8-(head.groups.length+1)) 0 rest
      let zeros := List.replicate (8-head.groups.length-tail.groups.length) 0
      some (ofSegments (head.groups ++ zeros ++ tail.groups),tail.rest)
    | _ => none

def readIp (cs : List Char) : Option (IpAddr × List Char) :=
  match readIpv4 cs with
  | some (a,rest) => some (.v4 a,rest)
  | none => (readIpv6 cs).map fun p => (.v6 p.1,p.2)

/-- `text.parse::<IpAddr>()`: the whole text is one address. -/
def parse (cs : List Char) : Option IpAddr :=
  match readIp cs with
  | some (a,[]) => some a
  | _ => none

example : (["192.0.2.7","::ffff:192.0.2.7","2001:db8::1:0:0:1","::","1::"].map fun s =>
    (parse s.toList).map display) =
    [some "192.0.2.7".toList,some "::ffff:192.0.2.7".toList,some "2001:db8::1:0:0:1".toList,
      some "::".toList,some "1::".toList] := by decide +kernel

example : (["192.0.2.07","1.2.3","1:2:3:4:5:6:7","::1::","1::2:3:4:5:6:7:8","::12345"].map fun s =>
    parse s.toList) = List.replicate 6 none := by decide +kernel

/-! ### An address is read back from its text -/

theorem noDigit_cons {radix : ℕ} {c : Char} {cs : List Char} (h : Digits.isDigit radix c = false) :
    Digits.NoDigit radix (c::cs) := by
  rintro x ⟨rfl⟩
  exact h

theorem noDigit_nil (radix : ℕ) : Digits.NoDigit radix [] := nofun

theorem noDigit_separated {sep : Char} {radix : ℕ} (hsep : Digits.isDigit radix sep = false)
    (items : List ℕ) {rest : List Char} (hrest : Digits.NoDigit radix rest) :
    Digits.NoDigit radix (separated sep radix items ++ rest) := by
  cases items with
  | nil => exact hrest
  | cons item items => exact noDigit_cons hsep

theorem readOctet_text {n : ℕ} (hn : n < 256) {rest : List Char} (hrest : Digits.NoDigit 10 rest) :
    readOctet (Digits.text 10 n ++ rest) = some (n,rest) :=
  Digits.read_text (by decide) (by decide) false (by decide) hn (hn.trans (by decide)) hrest

theorem readGroup_text {n : ℕ} (hn : n < 65536) {rest : List Char} (hrest : Digits.NoDigit 16 rest) :
    readGroup (Digits.text 16 n ++ rest) = some (n,rest) :=
  Digits.read_text (by decide) (by decide) true (by decide) hn hn hrest

theorem readIpv4_display (a : Ipv4Addr) {rest : List Char} (hrest : Digits.NoDigit 10 rest) :
    readIpv4 (displayIpv4 a ++ rest) = some (a,rest) := by
  have hdot : Digits.isDigit 10 '.' = false := by decide
  obtain ⟨w,x,y,z,hoctets⟩ : ∃ w x y z, octets a = [w,x,y,z] := ⟨_,_,_,_,rfl⟩
  have hlt : ∀ d ∈ [w,x,y,z], d < 256 := fun d hd => mem_octets (hoctets ▸ hd)
  have hback : ofOctets [w,x,y,z] = a := by rw [← hoctets,ofOctets_octets]
  have hw := readOctet_text (hlt w (by simp)) (noDigit_separated hdot [x,y,z] hrest)
  have hx := readOctet_text (hlt x (by simp)) (noDigit_separated hdot [y,z] hrest)
  have hy := readOctet_text (hlt y (by simp)) (noDigit_separated hdot [z] hrest)
  have hz := readOctet_text (hlt z (by simp)) hrest
  simp only [separated,List.flatMap_cons,List.flatMap_nil,List.append_nil,List.cons_append,
    List.append_assoc] at hw hx hy
  simp [readIpv4,displayIpv4,hoctets,joined,separated,readSeparator,hw,hx,hy,hz,hback]

theorem head_dropWhile_hex {xs follow : List Char} (hxs : ∀ c ∈ xs, Digits.isDigit 16 c = true)
    (hfollow : Digits.NoDigit 16 follow) (hdot : follow.head? ≠ some '.') :
    ((xs ++ follow).dropWhile (Digits.isDigit 10)).head? ≠ some '.' := by
  induction xs with
  | nil =>
    cases follow with
    | nil => nofun
    | cons c cs =>
      have hhex : Digits.isDigit 16 c = false := hfollow c rfl
      have hdec : Digits.isDigit 10 c = false := by
        simp only [Digits.isDigit,decide_eq_false_iff_not] at hhex ⊢
        omega
      simpa [hdec] using hdot
  | cons x xs ih =>
    rw [List.cons_append,List.dropWhile_cons]
    split_ifs
    · exact ih fun c hc => hxs c (List.mem_cons_of_mem x hc)
    · intro heq
      obtain rfl : x = '.' := by simpa using heq
      exact absurd (hxs '.' List.mem_cons_self) (by decide)

/-- A group of IPv6 is not the start of an IPv4 address. -/
theorem readIpv4_hex {xs follow : List Char} (hxs : ∀ c ∈ xs, Digits.isDigit 16 c = true)
    (hfollow : Digits.NoDigit 16 follow) (hdot : follow.head? ≠ some '.') :
    readIpv4 (xs ++ follow) = none := by
  unfold readIpv4
  cases hfirst : readOctet (xs ++ follow) with
  | none => simp [readSeparator,hfirst]
  | some p =>
    have hrest : p.2 = (xs ++ follow).dropWhile (Digits.isDigit 10) := (Digits.read_some hfirst).1
    have hhead := head_dropWhile_hex hxs hfollow hdot
    rw [← hrest] at hhead
    have hsecond : readSeparator '.' 1 readOctet p.2 = none := by
      cases hp : p.2 with
      | nil => rfl
      | cons c cs =>
        rw [hp] at hhead
        have hc : c ≠ '.' := by simpa using hhead
        simp [readSeparator,hc]
    have hzero : readSeparator '.' 0 readOctet (xs ++ follow) = some p := hfirst
    rw [hzero]
    simp [hsecond]

/-- The text of groups, the first of which has the number `index`. -/
def groupsText (index : ℕ) (groups : List ℕ) : List Char :=
  if index = 0 then joined ':' 16 groups else separated ':' 16 groups

/-- Where the reader of groups stops: at the end, or at a run of zeros that is left out. -/
def Stops (rest : List Char) : Prop := rest = [] ∨ ∃ more, rest = ':' :: ':' :: more

theorem Stops.noDigit {rest : List Char} (h : Stops rest) : Digits.NoDigit 16 rest := by
  rcases h with rfl | ⟨more,rfl⟩
  · exact noDigit_nil 16
  · exact noDigit_cons (by decide)

theorem readGroup_colon (cs : List Char) : readGroup (':'::cs) = none := rfl

theorem readIpv4_colon (cs : List Char) : readIpv4 (':'::cs) = none := rfl

theorem readGroups_stop {rest : List Char} (h : Stops rest) (left index : ℕ) :
    readGroups left index rest = ⟨[],false,rest⟩ := by
  cases left with
  | zero => rfl
  | succ left =>
    have hipv4 : readSeparator ':' index readIpv4 rest = none := by
      rcases h with rfl | ⟨more,rfl⟩
      · unfold readSeparator
        split_ifs <;> rfl
      · unfold readSeparator
        split_ifs
        · exact readIpv4_colon _
        · exact readIpv4_colon _
    have hgroup : readSeparator ':' index readGroup rest = none := by
      rcases h with rfl | ⟨more,rfl⟩
      · unfold readSeparator
        split_ifs <;> rfl
      · unfold readSeparator
        split_ifs
        · exact readGroup_colon _
        · exact readGroup_colon _
    simp [readGroups,hipv4,hgroup]

theorem groupsText_cons (index group : ℕ) (groups : List ℕ) (rest : List Char) :
    groupsText index (group::groups) ++ rest =
      (if index = 0 then [] else [':']) ++ (Digits.text 16 group ++ (groupsText (index+1) groups ++ rest)) := by
  cases index with
  | zero => simp [groupsText,joined]
  | succ index => simp [groupsText,separated]

theorem readSeparator_groupsText {α : Type} (index : ℕ) (read : List Char → Option (α × List Char))
    (cs : List Char) :
    readSeparator ':' index read ((if index = 0 then [] else [':']) ++ cs) = read cs := by
  unfold readSeparator
  split_ifs <;> simp

/-- Groups are read one by one up to where the text stops. -/
theorem readGroups_text {groups : List ℕ} (hgroups : ∀ g ∈ groups, g < 65536) {rest : List Char}
    (hrest : Stops rest) {left : ℕ} (hleft : groups.length ≤ left) (index : ℕ) :
    readGroups left index (groupsText index groups ++ rest) = ⟨groups,false,rest⟩ := by
  induction groups generalizing left index with
  | nil =>
    have hempty : groupsText index [] = [] := by
      unfold groupsText
      split_ifs <;> rfl
    rw [hempty]
    exact readGroups_stop hrest left index
  | cons group groups ih =>
    obtain ⟨left,rfl⟩ : ∃ k, left = k+1 := Nat.exists_eq_add_of_le' (Nat.one_le_of_lt hleft)
    have hcolon : Digits.isDigit 16 ':' = false := by decide
    have hfollow : Digits.NoDigit 16 (groupsText (index+1) groups ++ rest) :=
      noDigit_separated hcolon groups hrest.noDigit
    have hdot : (groupsText (index+1) groups ++ rest).head? ≠ some '.' := by
      cases groups with
      | nil => rcases hrest with rfl | ⟨more,rfl⟩ <;> simp [groupsText,separated]
      | cons g gs => simp [groupsText,separated]
    have hmore := ih (fun g hg => hgroups g (List.mem_cons_of_mem group hg))
      (Nat.le_of_succ_le_succ hleft) (index+1)
    have hread := readGroup_text (hgroups group List.mem_cons_self) hfollow
    have hipv4 : readIpv4 (Digits.text 16 group ++ (groupsText (index+1) groups ++ rest)) = none :=
      readIpv4_hex (fun c => Digits.mem_text (by decide) (by decide)) hfollow hdot
    rw [groupsText_cons,readGroups,readSeparator_groupsText,readSeparator_groupsText,hipv4,hread]
    simp [hmore]

/-- The span marks zeros of the list. -/
def Span.Zeros (span : Span) (segments : List ℕ) : Prop :=
  ∃ before behind, segments = before ++ List.replicate span.len 0 ++ behind ∧ before.length = span.start

/-- The span is the zeros that the list ends with, if it is any. -/
def Span.Ends (span : Span) (segments : List ℕ) : Prop :=
  span.len = 0 ∨ ∃ before, segments = before ++ List.replicate span.len 0 ∧ before.length = span.start

theorem Span.Ends.grow {span : Span} {segments : List ℕ} (h : span.Ends segments) :
    (span.grow segments.length).Ends (segments ++ [0]) := by
  right
  by_cases hnone : span.len = 0
  · exact ⟨segments,by simp [Span.grow,hnone],by simp [Span.grow,hnone]⟩
  · obtain ⟨before,heq,hlen⟩ := h.resolve_left hnone
    refine ⟨before,?_,by simpa [Span.grow,hnone] using hlen⟩
    rw [Span.grow,List.replicate_succ',← List.append_assoc,← heq]

theorem spanStep_zeros {spans : Span × Span} {segments : List ℕ} (hlongest : spans.1.Zeros segments)
    (hcurrent : spans.2.Ends segments) (x : ℕ) :
    (spanStep spans (x,segments.length)).1.Zeros (segments ++ [x]) ∧
      (spanStep spans (x,segments.length)).2.Ends (segments ++ [x]) := by
  have hkept : spans.1.Zeros (segments ++ [x]) := by
    obtain ⟨before,behind,heq,hlen⟩ := hlongest
    exact ⟨before,behind ++ [x],by rw [heq]; simp,hlen⟩
  by_cases hx : x = 0
  · have hnext := hcurrent.grow
    simp only [spanStep,hx,if_true] at hkept ⊢
    refine ⟨?_,hnext⟩
    split_ifs
    · obtain ⟨before,heq,hlen⟩ := hnext.resolve_left (Nat.succ_ne_zero _)
      exact ⟨before,[],by rw [List.append_nil]; exact heq,hlen⟩
    · exact hkept
  · simp only [spanStep,hx,if_false]
    exact ⟨hkept,.inl rfl⟩

theorem zeroSpan_zeros (segments : List ℕ) : (zeroSpan segments).Zeros segments := by
  suffices h : (segments.zipIdx.foldl spanStep ({},{})).1.Zeros segments ∧
      (segments.zipIdx.foldl spanStep ({},{})).2.Ends segments from h.1
  induction segments using List.reverseRecOn with
  | nil => exact ⟨⟨[],[],rfl,rfl⟩,.inl rfl⟩
  | append_singleton segments x ih =>
    have hstep := spanStep_zeros ih.1 ih.2 x
    rw [List.zipIdx_append,List.foldl_append]
    simpa using hstep

theorem readGroups_joined {groups : List ℕ} (hgroups : ∀ g ∈ groups, g < 65536) {rest : List Char}
    (hrest : Stops rest) {left : ℕ} (hleft : groups.length ≤ left) :
    readGroups left 0 (joined ':' 16 groups ++ rest) = ⟨groups,false,rest⟩ :=
  readGroups_text hgroups hrest hleft 0

theorem readIpv6_displaySegments {segments : List ℕ} (hlen : segments.length = 8)
    (hsegments : ∀ g ∈ segments, g < 65536) :
    readIpv6 (displaySegments segments) = some (ofSegments segments,[]) := by
  simp only [displaySegments]
  split_ifs with hrun
  · obtain ⟨before,behind,heq,hstart⟩ := zeroSpan_zeros segments
    generalize zeroSpan segments = span at hrun heq hstart ⊢
    have htake : segments.take span.start = before := by
      rw [heq,← hstart,List.append_assoc,List.take_left]
    have hdrop : segments.drop (span.start+span.len) = behind := by
      rw [heq]
      exact List.drop_left' (by simp [hstart])
    have hsum : before.length+(span.len+behind.length) = 8 := by
      rw [heq] at hlen
      simpa using hlen
    have hbefore : ∀ g ∈ before, g < 65536 := fun g hg => hsegments g (by rw [heq]; simp [hg])
    have hbehind : ∀ g ∈ behind, g < 65536 := fun g hg => hsegments g (by rw [heq]; simp [hg])
    have hhead := readGroups_joined hbefore (.inr ⟨joined ':' 16 behind,rfl⟩) (by omega : before.length ≤ 8)
    have htail := readGroups_joined hbehind (.inl rfl) (by omega : behind.length ≤ 8-(before.length+1))
    rw [List.append_nil] at htail
    have hne : before.length ≠ 8 := by omega
    have hzeros : 8-before.length-behind.length = span.len := by omega
    rw [htake,hdrop,readIpv6,hhead]
    simp only [hne,if_false,Bool.false_eq_true,htail,hzeros,← heq]
  · have hread := readGroups_joined hsegments (.inl rfl) (Nat.le_of_eq hlen)
    rw [List.append_nil] at hread
    rw [readIpv6,hread]
    simp [hlen]

theorem readIpv4_joined {rest : List Char} (hrest : Stops rest) (groups : List ℕ) :
    readIpv4 (joined ':' 16 groups ++ rest) = none := by
  cases groups with
  | nil =>
    rcases hrest with rfl | ⟨more,rfl⟩
    · rfl
    · exact readIpv4_colon _
  | cons group groups =>
    rw [joined,List.append_assoc]
    refine readIpv4_hex (fun c => Digits.mem_text (by decide) (by decide))
      (noDigit_separated (by decide) groups hrest.noDigit) ?_
    cases groups with
    | nil => rcases hrest with rfl | ⟨more,rfl⟩ <;> simp [separated]
    | cons g gs => simp [separated]

theorem readIpv4_displaySegments (segments : List ℕ) : readIpv4 (displaySegments segments) = none := by
  simp only [displaySegments]
  split_ifs
  · exact readIpv4_joined (.inr ⟨_,rfl⟩) _
  · rw [← List.append_nil (joined ':' 16 segments)]
    exact readIpv4_joined (.inl rfl) _

theorem parse_displayIpv4 (a : Ipv4Addr) : parse (displayIpv4 a) = some (.v4 a) := by
  have hread := readIpv4_display a (noDigit_nil 10)
  rw [List.append_nil] at hread
  simp [parse,readIp,hread]

theorem parse_displaySegments (a : Ipv6Addr) : parse (displaySegments (segments a)) = some (.v6 a) := by
  have hread := readIpv6_displaySegments (length_segments a) fun g => mem_segments
  rw [ofSegments_segments] at hread
  simp [parse,readIp,readIpv4_displaySegments,hread]

theorem toIpv4Mapped_some {a : Ipv6Addr} {v4 : Ipv4Addr} (h : toIpv4Mapped a = some v4) :
    segments a = [0,0,0,0,0,0xffff,v4.toNat/65536,v4.toNat%65536] := by
  unfold toIpv4Mapped at h
  split at h
  · rename_i high low hsegments
    cases h
    have hhigh : high < 65536 := mem_segments (hsegments ▸ by simp : high ∈ segments a)
    have hlow : low < 65536 := mem_segments (hsegments ▸ by simp : low ∈ segments a)
    have hvalue : (BitVec.ofNat 32 (high*65536+low)).toNat = high*65536+low := by
      rw [BitVec.toNat_ofNat,Nat.mod_eq_of_lt (by omega)]
    rw [hvalue,hsegments]
    have hdiv : (high*65536+low)/65536 = high := by omega
    have hmod : (high*65536+low)%65536 = low := by omega
    rw [hdiv,hmod]
  · cases h

theorem parse_display (a : IpAddr) : parse (display a) = some a := by
  cases a with
  | v4 a => exact parse_displayIpv4 a
  | v6 a =>
    cases hmapped : toIpv4Mapped a with
    | none =>
      rw [display,displayIpv6,hmapped]
      exact parse_displaySegments a
    | some v4 =>
      -- an embedded IPv4 address ends the groups
      have hv4 := readIpv4_display v4 (noDigit_nil 10)
      rw [List.append_nil] at hv4
      have hback := ofSegments_segments a
      rw [toIpv4Mapped_some hmapped] at hback
      have hfollow : Digits.NoDigit 16 (':'::displayIpv4 v4) := noDigit_cons (by decide)
      have hhead : readGroups 8 0 (':' :: ':' :: ("ffff".toList ++ ':'::displayIpv4 v4)) =
          ⟨[],false,':' :: ':' :: ("ffff".toList ++ ':'::displayIpv4 v4)⟩ := readGroups_stop (.inr ⟨_,rfl⟩) 8 0
      have hfirst : readIpv4 ("ffff".toList ++ ':'::displayIpv4 v4) = none :=
        readIpv4_hex (List.all_eq_true.mp (by decide)) hfollow (by simp)
      have hgroup : readGroup ("ffff".toList ++ ':'::displayIpv4 v4) = some (0xffff,':'::displayIpv4 v4) := by
        have htext : Digits.text 16 0xffff = "ffff".toList := by decide +kernel
        rw [← htext]
        exact readGroup_text (by decide) hfollow
      have hend : readGroups 6 1 (':'::displayIpv4 v4) = ⟨[v4.toNat/65536,v4.toNat%65536],true,[]⟩ := by
        have hsep : readSeparator ':' 1 readIpv4 (':'::displayIpv4 v4) = some (v4,[]) := hv4
        rw [readGroups,if_pos (by decide),hsep]
      have htail : readGroups 7 0 ("ffff".toList ++ ':'::displayIpv4 v4) =
          ⟨[0xffff,v4.toNat/65536,v4.toNat%65536],true,[]⟩ := by
        have hsep : readSeparator ':' 0 readIpv4 ("ffff".toList ++ ':'::displayIpv4 v4) = none := hfirst
        have hsepGroup : readSeparator ':' 0 readGroup ("ffff".toList ++ ':'::displayIpv4 v4) =
            some (0xffff,':'::displayIpv4 v4) := hgroup
        rw [readGroups,if_pos (by decide),hsep,hsepGroup]
        simp only [hend]
      have hread : readIpv6 (':' :: ':' :: ("ffff".toList ++ ':'::displayIpv4 v4)) = some (a,[]) := by
        rw [readIpv6,hhead]
        generalize "ffff".toList ++ ':'::displayIpv4 v4 = text at htail ⊢
        simp [htail,← hback,List.replicate]
      have htext : display (.v6 a) = ':' :: ':' :: ("ffff".toList ++ ':'::displayIpv4 v4) := by
        simp [display,displayIpv6,hmapped]
      rw [htext,parse,readIp,readIpv4_colon,hread]
      rfl

/-! ### The characters of an address -/

def ipChar (c : Char) : Bool := Digits.isDigit 16 c || c == ':' || c == '.'

/-- The rest is what is left behind characters of an address. -/
def Behind (rest cs : List Char) : Prop := ∃ taken, cs = taken ++ rest ∧ ∀ c ∈ taken, ipChar c = true

theorem Behind.refl (cs : List Char) : Behind cs cs := ⟨[],rfl,nofun⟩

theorem Behind.trans {rest middle cs : List Char} (h : Behind rest middle) (h' : Behind middle cs) :
    Behind rest cs := by
  obtain ⟨taken,rfl,htaken⟩ := h
  obtain ⟨first,rfl,hfirst⟩ := h'
  refine ⟨first ++ taken,by rw [List.append_assoc],fun c hc => ?_⟩
  rcases List.mem_append.mp hc with hc | hc
  · exact hfirst c hc
  · exact htaken c hc

theorem Behind.cons {rest cs : List Char} (h : Behind rest cs) {c : Char} (hc : ipChar c = true) :
    Behind rest (c::cs) := by
  refine h.trans ⟨[c],rfl,fun x hx => ?_⟩
  rwa [List.mem_singleton.mp hx]

theorem behind_read {radix maxDigits bound n : ℕ} (hradix : radix ≤ 16) {allowZeroPrefix : Bool}
    {cs rest : List Char} (h : Digits.read radix maxDigits bound allowZeroPrefix cs = some (n,rest)) :
    Behind rest cs := by
  obtain ⟨rfl,-⟩ := Digits.read_some h
  refine ⟨cs.takeWhile (Digits.isDigit radix),List.takeWhile_append_dropWhile.symm,fun c hc => ?_⟩
  have hdigit : Digits.isDigit radix c = true := List.all_eq_true.mp List.all_takeWhile c hc
  have hhex : Digits.isDigit 16 c = true := by
    simp only [Digits.isDigit,decide_eq_true_eq] at hdigit ⊢
    omega
  simp [ipChar,hhex]

theorem behind_separator {α : Type} {sep : Char} (hsep : ipChar sep = true) {index : ℕ}
    {read : List Char → Option (α × List Char)}
    (hread : ∀ cs v rest, read cs = some (v,rest) → Behind rest cs) {cs rest : List Char} {v : α}
    (h : readSeparator sep index read cs = some (v,rest)) : Behind rest cs := by
  unfold readSeparator at h
  split_ifs at h
  · exact hread cs v rest h
  · cases cs with
    | nil => cases h
    | cons c cs =>
      simp only at h
      split_ifs at h with hc
      exact (hread cs v rest h).cons (hc ▸ hsep)

theorem behind_octet (cs : List Char) (v : ℕ) (rest : List Char) (h : readOctet cs = some (v,rest)) :
    Behind rest cs :=
  behind_read (by decide) h

theorem behind_group (cs : List Char) (v : ℕ) (rest : List Char) (h : readGroup cs = some (v,rest)) :
    Behind rest cs :=
  behind_read (by decide) h

theorem behind_ipv4 (cs : List Char) (v : Ipv4Addr) (rest : List Char) (h : readIpv4 cs = some (v,rest)) :
    Behind rest cs := by
  have hdot : ipChar '.' = true := by decide
  simp only [readIpv4,bind,Option.bind_eq_some_iff] at h
  obtain ⟨⟨a,cs₁⟩,h₁,⟨b,cs₂⟩,h₂,⟨c,cs₃⟩,h₃,⟨d,cs₄⟩,h₄,hlast⟩ := h
  cases hlast
  exact (behind_separator hdot behind_octet h₄).trans ((behind_separator hdot behind_octet h₃).trans
    ((behind_separator hdot behind_octet h₂).trans (behind_separator hdot behind_octet h₁)))

theorem behind_groups (left index : ℕ) (cs : List Char) : Behind (readGroups left index cs).rest cs := by
  have hcolon : ipChar ':' = true := by decide
  induction left generalizing index cs with
  | zero => exact Behind.refl cs
  | succ left ih =>
    rw [readGroups]
    cases hipv4 : (if 0 < left then readSeparator ':' index readIpv4 cs else none) with
    | some p =>
      split_ifs at hipv4
      exact behind_separator hcolon behind_ipv4 hipv4
    | none =>
      cases hgroup : readSeparator ':' index readGroup cs with
      | none => exact Behind.refl cs
      | some p => exact (ih (index+1) p.2).trans (behind_separator hcolon behind_group hgroup)

theorem behind_ipv6 {cs rest : List Char} {v : Ipv6Addr} (h : readIpv6 cs = some (v,rest)) :
    Behind rest cs := by
  have hcolon : ipChar ':' = true := by decide
  have hhead := behind_groups 8 0 cs
  simp only [readIpv6] at h
  split_ifs at h
  · cases h
    exact hhead
  · split at h
    · rename_i tail htail
      cases h
      rw [htail] at hhead
      exact ((behind_groups _ 0 tail).cons hcolon |>.cons hcolon).trans hhead
    · cases h

/-- An address has no other characters than those of its groups and their separators. -/
theorem parse_chars {cs : List Char} {a : IpAddr} (h : parse cs = some a) : ∀ c ∈ cs, ipChar c = true := by
  have hbehind : Behind [] cs := by
    unfold parse readIp at h
    cases hipv4 : readIpv4 cs with
    | some p =>
      obtain ⟨v,rest⟩ := p
      rw [hipv4] at h
      cases rest with
      | nil => exact behind_ipv4 cs v [] hipv4
      | cons c rest => cases h
    | none =>
      rw [hipv4] at h
      cases hipv6 : readIpv6 cs with
      | none => simp [hipv6] at h
      | some p =>
        obtain ⟨v,rest⟩ := p
        cases rest with
        | nil => exact behind_ipv6 hipv6
        | cons c rest => simp [hipv6] at h
  obtain ⟨taken,rfl,htaken⟩ := hbehind
  simpa using htaken

end Ip
end North
