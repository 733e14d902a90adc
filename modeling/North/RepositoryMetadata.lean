import North.RuntimeContext

/-! The metadata of a repository: its limits, and the Git locations without credentials that
`north-domain` lets in. -/
namespace North
namespace Domain

open Machine North.Runtime

def maxNameBytes : ℕ := 100

def maxDescriptionBytes : ℕ := 10000

def maxUrlBytes : ℕ := 2048

structure RepositoryMetadata where
  name : String
  url : String
  description : String
  deriving DecidableEq, Repr

inductive RepositoryError
  | emptyName | nameTooLong | descriptionTooLong | emptyUrl | urlTooLong | invalidUrl
  deriving DecidableEq, Repr

/-! ### Hosts -/

/-- `text.rsplit_once(sep)`. -/
def rsplitOnce (cs : List Char) (sep : Char) : Option (List Char × List Char) :=
  (splitOnce cs.reverse [sep]).map fun p => (p.2.reverse,p.1.reverse)

def validHost (host : List Char) : Bool :=
  !host.isEmpty && (host.splitOn '.').all fun label =>
    !label.isEmpty && label.head? != some '-' && label.getLast? != some '-' &&
      label.all fun c => c.isAlphanum || c == '-'

/-- The value of decimal digits. -/
def decimal (cs : List Char) : ℕ := cs.foldl (fun n c => n*10+(c.toNat-48)) 0

def validPort : Option (List Char) → Bool
  | none => true
  | some port => !port.isEmpty && port.all Char.isDigit && 0 < decimal port && decimal port < 2^16

/-- A group of up to four hexadecimal digits; what is left behind it. -/
def readGroup (cs : List Char) : Option (List Char) :=
  let digits := cs.takeWhile Char.isHexDigit
  if 1 ≤ digits.length ∧ digits.length ≤ 4 then some (cs.drop digits.length) else none

def readOctet (cs : List Char) : Option (List Char) :=
  let digits := cs.takeWhile Char.isDigit
  if 1 ≤ digits.length ∧ digits.length ≤ 3 ∧ (digits.head? = some '0' → digits.length = 1) ∧
      decimal digits < 2^8 then some (cs.drop digits.length) else none

/-- The separator stands before every item but the first. -/
def readSeparator (sep : Char) (index : ℕ) (read : List Char → Option (List Char)) (cs : List Char) :
    Option (List Char) :=
  if index = 0 then read cs else if cs.head? = some sep then read cs.tail else none

def readIpv4 (cs : List Char) : Option (List Char) := do
  let cs ← readSeparator '.' 0 readOctet cs
  let cs ← readSeparator '.' 1 readOctet cs
  let cs ← readSeparator '.' 2 readOctet cs
  readSeparator '.' 3 readOctet cs

structure Groups where
  count : ℕ
  ipv4 : Bool
  rest : List Char

/-- Up to `left` more groups; where two are left an IPv4 address may end them. -/
def readGroups : (left index : ℕ) → List Char → Groups
  | 0, index, cs => ⟨index,false,cs⟩
  | left+1, index, cs =>
    match if 0 < left then readSeparator ':' index readIpv4 cs else none with
    | some rest => ⟨index+2,true,rest⟩
    | none =>
      match readSeparator ':' index readGroup cs with
      | some rest => readGroups left (index+1) rest
      | none => ⟨index,false,cs⟩

/-- `host.parse::<Ipv6Addr>().is_ok()`. -/
def validIpv6 (host : List Char) : Bool :=
  let head := readGroups 8 0 host
  if head.count = 8 then head.rest.isEmpty
  else if head.ipv4 then false
  else if [':',':'].isPrefixOf head.rest then
    (readGroups (8-(head.count+1)) 0 (head.rest.drop 2)).rest.isEmpty
  else false

/-- A host in brackets, with what follows them. -/
def bracketed (cs : List Char) : Option (List Char × List Char) := splitOnce cs [']']

def validHostPort (authority : List Char) : Bool :=
  match authority with
  | '['::value =>
    match bracketed value with
    | none => false
    | some (host,[]) => validIpv6 host && validPort none
    | some (host,':'::port) => !port.isEmpty && validIpv6 host && validPort (some port)
    | some _ => false
  | _ =>
    match rsplitOnce authority ':' with
    | some (host,c::port) => validHost host && validPort (some (c::port))
    | _ => validHost authority && validPort none

/-! ### Locations -/

/-- No query and no fragment. -/
def plainPath (path : List Char) : Bool := !path.contains '?' && !path.contains '#'

def httpsLocation (rest : List Char) : Bool :=
  match splitOnce rest ['/'] with
  | none => false
  | some (authority,path) =>
    !authority.isEmpty && ['@','?','#','%'].all (fun c => !authority.contains c) &&
      !path.isEmpty && path.head? != some '/' && path.head? != some '?' && path.head? != some '#' &&
      plainPath path && validHostPort authority

def sshLocation (rest : List Char) : Bool :=
  match splitOnce rest ['/'] with
  | none => false
  | some (authority,path) =>
    if authority.isEmpty || path.isEmpty || path.head? == some '/' || path.head? == some '?' then false
    else match splitOnce authority ['@'] with
      | none => validHostPort authority && plainPath path
      | some (user,host) =>
        if user != "git".toList || host.isEmpty || host.contains '@' || user.contains ':' then false
        else validHostPort host && plainPath path

def scpLocation (value : List Char) : Bool :=
  match splitOnce value ['@'] with
  | none => false
  | some (user,rest) =>
    if user != "git".toList || rest.contains '@' || (splitOnce rest "://".toList).isSome then false
    else
      let parts := match rest with
        | '['::value =>
          match bracketed value with
          | some (host,':'::path) => some (validIpv6 host,path)
          | _ => none
        | _ =>
          match splitOnce rest [':'] with
          | some (host,path) => some (validHost host,path)
          | none => none
      match parts with
      | none => false
      | some (hostValid,path) =>
        hostValid && !path.isEmpty && path.head? != some '/' && plainPath path

/-- The Git locations without credentials. -/
def supportedGitUrl (value : String) : Bool :=
  if value.isEmpty || value.toList.any Text.isWhitespace then false
  else match Text.stripPrefix value "https://" with
    | some rest => httpsLocation rest.toList
    | none =>
      match Text.stripPrefix value "ssh://" with
      | some rest => sshLocation rest.toList
      | none => scpLocation value.toList

example : ["https://[::1]/org/repo.git","ssh://git@[::1]:22/org/repo.git","git@[::1]:org/repo.git",
    "git@github.com:org/repo.git"].all supportedGitUrl = true := by decide

example : ["https://token@example.com/org/repo.git","ssh://git@[::1]junk/repo.git","https://example.com",
    "https://example..com/repo.git"].any supportedGitUrl = false := by decide

/-- Normalize and validate metadata before persistence. -/
def validateMetadata (name url description : String) : Except RepositoryError RepositoryMetadata :=
  let name := Text.trim name
  let description := Text.trim description
  let url := Text.trim url
  if name.isEmpty then .error .emptyName
  else if maxNameBytes < name.utf8ByteSize then .error .nameTooLong
  else if maxDescriptionBytes < description.utf8ByteSize then .error .descriptionTooLong
  else if url.isEmpty then .error .emptyUrl
  else if maxUrlBytes < url.utf8ByteSize then .error .urlTooLong
  else if !supportedGitUrl url then .error .invalidUrl
  else .ok ⟨name,url,description⟩

/-- What stored metadata keeps. -/
structure RepositoryMetadata.Accepted (m : RepositoryMetadata) : Prop where
  name : Text.blank m.name = false
  url : Text.blank m.url = false
  nameSize : m.name.utf8ByteSize ≤ maxNameBytes
  urlSize : m.url.utf8ByteSize ≤ maxUrlBytes
  descriptionSize : m.description.utf8ByteSize ≤ maxDescriptionBytes
  location : supportedGitUrl m.url = true

theorem validateMetadata_ok {name url description : String} {m : RepositoryMetadata}
    (h : validateMetadata name url description = .ok m) : m.Accepted := by
  simp only [validateMetadata] at h
  split_ifs at h with hname hnameSize hdescription hurl hurlSize hlocation
  obtain rfl := Except.ok.inj h
  refine ⟨?_,?_,Nat.le_of_not_lt hnameSize,Nat.le_of_not_lt hurlSize,Nat.le_of_not_lt hdescription,
    by simpa using hlocation⟩
  · rw [Text.blank_trim]
    simpa [Text.blank] using hname
  · rw [Text.blank_trim]
    simpa [Text.blank] using hurl

end Domain
end North
