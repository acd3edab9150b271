import ArchGuard.IdentityImport
import ArchGuard.SyncerColumns

/-! Rules about the address of a client: the addresses and blocks it is listed in, and the rate at
which it calls. -/
namespace ArchGuard.Rules
open GoStrconv GoText TransitionRun

def dot : UInt8 := 46

def slash : UInt8 := 47

def colon : UInt8 := 58

def comma : UInt8 := 44

def percent : UInt8 := 37

section Net

/-- A field of an IPv4 address: at most 255, without a leading zero. -/
def octet (field : GoString) : Option ℕ :=
  (readDigits field).bind fun n =>
    if (field.length = 1 ∨ field.head? ≠ some 48) ∧ n ≤ 255 then some n else none

def number (base : ℕ) (digits : List ℕ) : ℕ := digits.foldl (fun n d => base*n + d) 0

def parseIPv4 (s : GoString) : Option (BitVec 32) :=
  match (s.splitOn dot).mapM octet with
  | some [a, b, c, d] => some (BitVec.ofNat 32 (number 256 [a, b, c, d]))
  | _ => none

def hexDigit (b : UInt8) : Option ℕ :=
  if 48 ≤ b ∧ b ≤ 57 then some (b.toNat - 48)
  else if 97 ≤ b ∧ b ≤ 102 then some (b.toNat - 87)
  else if 65 ≤ b ∧ b ≤ 70 then some (b.toNat - 55)
  else none

/-- The groups of an IPv6 address, after those read so far, and where the ellipsis stands. -/
def readGroups : (room : ℕ) → (groups : List ℕ) → (ellipsis : Option ℕ) → GoString →
    Option (List ℕ × Option ℕ)
  | 0, groups, ellipsis, s => if s = [] then some (groups, ellipsis) else none
  | room+1, groups, ellipsis, s =>
    let digits := s.takeWhile fun b => (hexDigit b).isSome
    let read := groups ++ [number 16 (digits.filterMap hexDigit)]
    if digits = [] ∨ 4 < digits.length then none
    else match s.dropWhile fun b => (hexDigit b).isSome with
      | [] => some (read, ellipsis)
      | b :: rest =>
        if b = dot then
          -- The rest is an IPv4 address, which takes the room of two groups.
          if (ellipsis = none ∧ groups.length ≠ 6) ∨ 6 < groups.length then none
          else (parseIPv4 s).map fun a =>
            (groups ++ [a.toNat / 2^16, a.toNat % 2^16], ellipsis)
        else if b ≠ colon then none
        else match rest with
          | [] => none
          | c :: after =>
            if c = colon then
              if ellipsis.isSome then none
              else if after = [] then some (read, some read.length)
              else readGroups room read (some read.length) after
            else readGroups room read ellipsis (c :: after)

/-- Zeros in the place of the ellipsis, which stands for one group at least. -/
def expand : List ℕ × Option ℕ → Option (BitVec 128)
  | (groups, none) =>
    if groups.length = 8 then some (BitVec.ofNat 128 (number (2^16) groups)) else none
  | (groups, some k) =>
    if groups.length < 8 then
      some (BitVec.ofNat 128 (number (2^16)
        (groups.take k ++ List.replicate (8-groups.length) 0 ++ groups.drop k)))
    else none

def parseIPv6 (s : GoString) : Option (BitVec 128) :=
  match s with
  | a :: b :: rest =>
    if a = colon ∧ b = colon then
      if rest = [] then some 0 else (readGroups 8 [] (some 0) rest).bind expand
    else (readGroups 8 [] none s).bind expand
  | _ => (readGroups 8 [] none s).bind expand

/-- `netip.Addr`, of an address without a zone. -/
inductive Addr
  | v4 (a : BitVec 32)
  | v6 (a : BitVec 128)
  deriving DecidableEq, Repr

/-- `netip.ParseAddr`, where a zone is refused as `net` refuses it. -/
def parseAddr (s : GoString) : Option Addr :=
  match s.find? fun b => b = dot ∨ b = colon ∨ b = percent with
  | none => none
  | some b =>
    if b = dot then (parseIPv4 s).map .v4
    else if percent ∈ s then none
    else (parseIPv6 s).map .v6

/-- The prefix under which an IPv4 address stands among those of IPv6. -/
def mappedPrefix : BitVec 96 := 0xffff

def Addr.as16 : Addr → BitVec 128
  | .v4 a => mappedPrefix ++ a
  | .v6 a => a

def parseIP (s : GoString) : Option (BitVec 128) := (parseAddr s).map Addr.as16

def to4 (ip : BitVec 128) : Option (BitVec 32) :=
  if ip.extractLsb' 32 96 = mappedPrefix then some (ip.extractLsb' 0 32) else none

/-- `net.IPNet`: the network number and its mask. -/
inductive IPNet
  | v4 (ip mask : BitVec 32)
  | v6 (ip mask : BitVec 128)
  deriving DecidableEq, Repr

/-- `net.CIDRMask`. -/
def cidrMask (n bits : ℕ) : BitVec bits := BitVec.allOnes bits <<< (bits-n)

/-- `net.ParseCIDR`: the block, cut out by the mask. -/
def parseCIDR (s : GoString) : Option IPNet :=
  match s.dropWhile (· ≠ slash) with
  | [] => none
  | _ :: bits =>
    match parseAddr (s.takeWhile (· ≠ slash)), readDigits bits with
    | some (.v4 a), some n => if n ≤ 32 then some (.v4 (a &&& cidrMask n 32) (cidrMask n 32)) else none
    | some (.v6 a), some n =>
      if n ≤ 128 then some (.v6 (a &&& cidrMask n 128) (cidrMask n 128)) else none
    | _, _ => none

/-- `networkNumberAndMask`: a block of mapped addresses is one of IPv4 addresses. -/
def IPNet.numberAndMask : IPNet → IPNet
  | .v4 ip mask => .v4 ip mask
  | .v6 ip mask =>
    match to4 ip with
    | some ip4 => .v4 ip4 (mask.extractLsb' 0 32)
    | none => .v6 ip mask

def IPNet.contains (block : IPNet) (ip : BitVec 128) : Bool :=
  match block.numberAndMask, to4 ip with
  | .v4 number mask, some ip4 => number &&& mask = ip4 &&& mask
  | .v6 number mask, none => number &&& mask = ip &&& mask
  | _, _ => false

example : (parseCIDR (utf8 "10.0.0.0/8")).any
    (fun block => (parseIP (utf8 "::ffff:10.1.2.3")).any block.contains) = true := by
  decide +kernel

theorem mem_part_of_mem (sep : UInt8) {b : UInt8} {s : GoString} (hb : b ∈ s) :
    b = sep ∨ ∃ part ∈ s.splitOn sep, b ∈ part := by
  have hjoin : [sep].intercalate (s.splitOn sep) = s := List.intercalate_splitOn sep
  rw [← hjoin] at hb
  generalize s.splitOn sep = parts at hb
  induction parts with
  | nil => cases hb
  | cons part parts ih =>
    cases parts with
    | nil =>
      rw [List.intercalate_singleton] at hb
      exact .inr ⟨part, List.mem_cons_self, hb⟩
    | cons next parts =>
      rw [List.intercalate_cons_cons, List.mem_append, List.mem_append, List.mem_singleton] at hb
      rcases hb with (hb | hb) | hb
      · exact .inr ⟨part, List.mem_cons_self, hb⟩
      · exact .inl hb
      · refine (ih hb).imp id ?_
        rintro ⟨p, hp, hbp⟩
        exact ⟨p, List.mem_cons_of_mem part hp, hbp⟩

theorem isSome_of_mapM {α β : Type} {f : α → Option β} {l : List α} {bs : List β}
    (h : l.mapM f = some bs) : ∀ a ∈ l, (f a).isSome := by
  induction l generalizing bs with
  | nil => simp
  | cons a l ih =>
    rw [List.mapM_cons] at h
    obtain ⟨b, hb, hrest⟩ := Option.bind_eq_some_iff.mp h
    obtain ⟨bs', hbs, -⟩ := Option.bind_eq_some_iff.mp hrest
    exact List.forall_mem_cons.mpr ⟨by rw [hb]; rfl, ih hbs⟩

theorem slash_not_mem_octet {field : GoString} (h : (octet field).isSome) : slash ∉ field := by
  intro hslash
  rw [octet, readDigits] at h
  split at h
  · rename_i hdigits
    exact absurd (List.all_eq_true.mp hdigits.2 slash hslash) (by decide)
  · cases h

theorem slash_not_mem_v4 {s : GoString} (h : (parseIPv4 s).isSome) : slash ∉ s := by
  intro hslash
  rw [parseIPv4] at h
  split at h
  · rename_i hfields
    rcases mem_part_of_mem dot hslash with hdot | ⟨field, hfield, hmem⟩
    · exact absurd hdot (by decide)
    · exact slash_not_mem_octet (isSome_of_mapM hfields field hfield) hmem
  · cases h

theorem slash_not_mem_groups {room : ℕ} {groups : List ℕ} {ellipsis : Option ℕ} {s : GoString}
    (h : (readGroups room groups ellipsis s).isSome) : slash ∉ s := by
  induction room generalizing groups ellipsis s with
  | zero =>
    rw [readGroups] at h
    split at h
    · rename_i hnil
      simp [hnil]
    · cases h
  | succ room ih =>
    have hparts := List.takeWhile_append_dropWhile (p := fun b => (hexDigit b).isSome) (l := s)
    have hhex : slash ∉ s.takeWhile fun b => (hexDigit b).isSome := by
      intro hmem
      exact absurd (List.mem_takeWhile_imp hmem) (by decide)
    have hrest : slash ∉ s.dropWhile fun b => (hexDigit b).isSome := by
      simp only [readGroups] at h
      split at h
      · cases h
      · split at h
        · rename_i hnil
          simp [hnil]
        · rename_i b rest hcons
          rw [hcons]
          split at h
          · split at h
            · cases h
            · -- The IPv4 address has the digits with what follows them.
              rw [Option.isSome_map] at h
              intro hmem
              refine slash_not_mem_v4 h ?_
              rw [← hparts, hcons]
              exact List.mem_append_right _ hmem
          · split at h
            · cases h
            · rename_i hcolon
              have hb : b ≠ slash := by
                rw [not_not] at hcolon
                rw [hcolon]
                decide
              split at h
              · cases h
              · split at h
                · rename_i hc
                  split at h
                  · cases h
                  · split at h
                    · rename_i hafter
                      subst hafter hc
                      simp [hb.symm, show slash ≠ colon by decide]
                    · subst hc
                      simp [hb.symm, show slash ≠ colon by decide, ih h]
                · simp [hb.symm, ih h]
    rw [← hparts, List.mem_append]
    exact fun hmem => hmem.elim hhex hrest

theorem slash_not_mem_v6 {s : GoString} (h : (parseIPv6 s).isSome) : slash ∉ s := by
  have hbind {groups : List ℕ} {ellipsis : Option ℕ} {t : GoString}
      (h : ((readGroups 8 groups ellipsis t).bind expand).isSome) : slash ∉ t := by
    obtain ⟨v, hv⟩ := Option.isSome_iff_exists.mp h
    obtain ⟨r, hr, -⟩ := Option.bind_eq_some_iff.mp hv
    exact slash_not_mem_groups (by rw [hr]; rfl)
  unfold parseIPv6 at h
  split at h
  · split at h
    · rename_i hcolons
      obtain ⟨rfl, rfl⟩ := hcolons
      have hne : slash ≠ colon := by decide
      split at h
      · rename_i hnil
        simp [hnil, hne]
      · simp [hne, hbind h]
    · exact hbind h
  · exact hbind h

theorem marks_of_parseAddr {s : GoString} (h : (parseAddr s).isSome) :
    slash ∉ s ∧ (dot ∈ s ∨ colon ∈ s) := by
  rw [parseAddr] at h
  split at h
  · cases h
  · rename_i b hfind
    have hmem := List.mem_of_find?_eq_some hfind
    have hmark : b = dot ∨ b = colon ∨ b = percent := by simpa using List.find?_some hfind
    split at h
    · rename_i hdot
      rw [Option.isSome_map] at h
      exact ⟨slash_not_mem_v4 h, .inl (hdot ▸ hmem)⟩
    · rename_i hdot
      split at h
      · cases h
      · rename_i hpercent
        rw [Option.isSome_map] at h
        have hcolon : b = colon := by
          rcases hmark with hb | hb | rfl
          · exact absurd hb hdot
          · exact hb
          · exact absurd hmem hpercent
        exact ⟨slash_not_mem_v6 h, .inr (hcolon ▸ hmem)⟩

end Net

section IpRule

structure Request where
  forwardedFor : GoString
  realIp : GoString
  remoteAddr : GoString
  userAgent : GoString
  deriving DecidableEq, Repr

/-- `net.SplitHostPort`, as far as the host goes. -/
def splitHost (hostport : GoString) : Option GoString :=
  if colon ∉ hostport then none
  else
    let port := (hostport.reverse.takeWhile (· ≠ colon)).length
    let host := hostport.take (hostport.length-port-1)
    match hostport with
    | 91 :: rest =>
      -- In brackets: the last colon follows the first closing one.
      let inner := rest.takeWhile (· ≠ 93)
      if inner.length+2 = host.length ∧ 91 ∉ rest ∧ 93 ∉ hostport.drop (inner.length+2) then
        some inner
      else none
    | _ => if colon ∈ host ∨ 91 ∈ hostport ∨ 93 ∈ hostport then none else some host

def getClientIp (req : Request) : GoString :=
  if req.forwardedFor ≠ [] then
    IdentityImport.trimRight
      (IdentityImport.trimLeftFrom 0 (req.forwardedFor.takeWhile (· ≠ comma)))
  else if req.realIp ≠ [] then req.realIp
  else (splitHost req.remoteAddr).getD req.remoteAddr

structure Expression where
  name : GoString
  operator : GoString
  value : GoString
  deriving DecidableEq, Repr

structure RuleResult where
  action : GoString
  statusCode : ℤ
  reason : GoString
  deriving DecidableEq, Repr

inductive Failure
  | error (text : GoString)
  | panic
  deriving DecidableEq, Repr

def unknownFormat (ipStr : GoString) : Failure :=
  .error (utf8 "unknown IP or CIDR format: " ++ ipStr)

def matchedReason (subject : GoString) (e : Expression) : GoString :=
  utf8 "expression matched: \"" ++ subject ++ utf8 " " ++ e.operator ++ utf8 " " ++ e.value ++ utf8 "\""

def opIn : GoString := utf8 "is in"

def opNotIn : GoString := utf8 "is not in"

def opAbroad : GoString := utf8 "is abroad"

/-- An element of the list against the client: a block that contains it, or the same text. -/
def listed (clientIp : GoString) (netIp : BitVec 128) (ipStr : GoString) : Except Failure Bool :=
  if slash ∈ ipStr then
    match parseCIDR ipStr with
    | none => .error (.error (utf8 "invalid CIDR address: " ++ ipStr))
    | some block => .ok (block.contains netIp)
  else if dot ∈ ipStr ∨ colon ∈ ipStr then .ok (ipStr = clientIp)
  else .error (unknownFormat ipStr)

/-- Whether the operator hits on this element. -/
def decides (operator : GoString) (found : Bool) : Except Failure Bool :=
  if operator = opIn then .ok found
  else if operator = opNotIn then .ok (!found)
  else .error (.error (utf8 "unknown operator: " ++ operator))

/-- The loop over the elements, up to the first that hits. -/
def anyDecides (operator clientIp : GoString) (netIp : BitVec 128) :
    List GoString → Except Failure Bool
  | [] => .ok false
  | ipStr :: ips => do
    let found ← listed clientIp netIp ipStr
    if ← decides operator found then .ok true else anyDecides operator clientIp netIp ips

/-- The loop of `IpRule.checkRule` over the expressions. -/
def checkIpExpressions (isAbroadIp : GoString → Bool) (clientIp : GoString) (netIp : BitVec 128) :
    List Expression → Except Failure (Option RuleResult)
  | [] => .ok none
  | e :: es =>
    if e.operator = opAbroad then
      if isAbroadIp clientIp then .ok (some ⟨[], 0, matchedReason clientIp e⟩)
      else checkIpExpressions isAbroadIp clientIp netIp es
    else do
      if ← anyDecides e.operator clientIp netIp (e.value.splitOn comma) then
        .ok (some ⟨[], 0, matchedReason clientIp e⟩)
      else checkIpExpressions isAbroadIp clientIp netIp es

/-- `IpRule.checkRule`. -/
def checkIpRule (isAbroadIp : GoString → Bool) (expressions : List Expression) (req : Request) :
    Except Failure (Option RuleResult) :=
  match parseIP (getClientIp req) with
  | none => .error (unknownFormat (getClientIp req))
  | some netIp => checkIpExpressions isAbroadIp (getClientIp req) netIp expressions

/-- An address or a block, as `AddRule` and `UpdateRule` demand of every element. -/
def IsListable (ipStr : GoString) : Prop := (parseIP ipStr).isSome ∨ (parseCIDR ipStr).isSome

instance (ipStr : GoString) : Decidable (IsListable ipStr) := inferInstanceAs (Decidable (_ ∨ _))

/-- The client belongs to the element: it is that address, however written, or in that block. -/
def Belongs (netIp : BitVec 128) (ipStr : GoString) : Prop :=
  parseIP ipStr = some netIp ∨ (parseCIDR ipStr).any (·.contains netIp)

/-- The element is the client's own text, or a block with the client in it. -/
def Spells (clientIp : GoString) (netIp : BitVec 128) (ipStr : GoString) : Prop :=
  ipStr = clientIp ∨ (parseCIDR ipStr).any (·.contains netIp)

instance (clientIp : GoString) (netIp : BitVec 128) (ipStr : GoString) :
    Decidable (Spells clientIp netIp ipStr) := inferInstanceAs (Decidable (_ ∨ _))

variable {isAbroadIp : GoString → Bool} {clientIp ipStr operator : GoString} {netIp : BitVec 128}
  {ips : List GoString} {e : Expression} {req : Request}

theorem slash_mem_of_parseCIDR (h : (parseCIDR ipStr).isSome) : slash ∈ ipStr := by
  by_contra hslash
  have hnil : ipStr.dropWhile (· ≠ slash) = [] := by
    rw [List.dropWhile_eq_nil_iff]
    intro b hb
    simpa using fun hbs : b = slash => hslash (hbs ▸ hb)
  rw [parseCIDR, hnil] at h
  cases h

theorem Spells.belongs (hclient : parseIP clientIp = some netIp)
    (h : Spells clientIp netIp ipStr) : Belongs netIp ipStr := by
  rcases h with rfl | h
  · exact .inl hclient
  · exact .inr h

theorem listed_of_listable (hclient : parseIP clientIp = some netIp) (h : IsListable ipStr) :
    listed clientIp netIp ipStr = .ok (decide (Spells clientIp netIp ipStr)) := by
  have hmarks {s : GoString} (hs : (parseIP s).isSome) : slash ∉ s ∧ (dot ∈ s ∨ colon ∈ s) :=
    marks_of_parseAddr (by rwa [parseIP, Option.isSome_map] at hs)
  rw [listed]
  rcases h with haddr | hblock
  · obtain ⟨hslash, hmark⟩ := hmarks haddr
    have hnone : parseCIDR ipStr = none := by
      rw [← Option.not_isSome_iff_eq_none]
      exact fun h => hslash (slash_mem_of_parseCIDR h)
    rw [if_neg hslash, if_pos hmark]
    simp [Spells, hnone]
  · have hslash := slash_mem_of_parseCIDR hblock
    obtain ⟨block, hb⟩ := Option.isSome_iff_exists.mp hblock
    have hne : ipStr ≠ clientIp := by
      rintro rfl
      exact (hmarks (by rw [hclient]; rfl)).1 hslash
    rw [if_pos hslash, hb]
    simp [Spells, hb, hne]

theorem anyDecides_of_listable (hclient : parseIP clientIp = some netIp) {f : Bool → Bool}
    (hoperator : ∀ found, decides operator found = .ok (f found))
    (h : ∀ ipStr ∈ ips, IsListable ipStr) : anyDecides operator clientIp netIp ips =
      .ok (ips.any fun ipStr => f (decide (Spells clientIp netIp ipStr))) := by
  induction ips with
  | nil => rfl
  | cons ipStr ips ih =>
    obtain ⟨hhead, htail⟩ := List.forall_mem_cons.mp h
    rw [anyDecides, listed_of_listable hclient hhead, List.any_cons]
    simp only [bind, Except.bind, hoperator, ih htail]
    cases f (decide (Spells clientIp netIp ipStr)) <;> rfl

def Hits (isAbroadIp : GoString → Bool) (req : Request) (e : Expression) : Prop :=
  ∃ result, checkIpRule isAbroadIp [e] req = .ok (some result)

theorem hits_iff (hclient : parseIP (getClientIp req) = some netIp) {f : Bool → Bool}
    (hoperator : ∀ found, decides e.operator found = .ok (f found)) (hin : e.operator ≠ opAbroad)
    (h : ∀ ipStr ∈ e.value.splitOn comma, IsListable ipStr) : Hits isAbroadIp req e ↔
      ∃ ipStr ∈ e.value.splitOn comma, f (decide (Spells (getClientIp req) netIp ipStr)) := by
  rw [← List.any_eq_true, Hits, checkIpRule, hclient]
  simp only [checkIpExpressions, if_neg hin, anyDecides_of_listable hclient hoperator h, bind,
    Except.bind]
  split
  · rename_i hany
    exact iff_of_true ⟨_, rfl⟩ hany
  · rename_i hany
    exact iff_of_false (fun ⟨_, hr⟩ => by cases hr) hany

/-- "is in" is membership where a listed address that is the client's is also found, in the client's
spelling or in a block; "is not in" is its negation where the client belongs to nothing listed, or
where everything listed is found. -/
theorem ip_membership_iff (hclient : parseIP (getClientIp req) = some netIp)
    (h : ∀ ipStr ∈ e.value.splitOn comma, IsListable ipStr) :
    ((e.operator = opIn →
        (Hits isAbroadIp req e ↔ ∃ ipStr ∈ e.value.splitOn comma, Belongs netIp ipStr)) ∧
      (e.operator = opNotIn →
        (Hits isAbroadIp req e ↔ ∀ ipStr ∈ e.value.splitOn comma, ¬Belongs netIp ipStr))) ↔
    (e.operator = opIn → (∃ ipStr ∈ e.value.splitOn comma, parseIP ipStr = some netIp) →
        ∃ ipStr ∈ e.value.splitOn comma, Spells (getClientIp req) netIp ipStr) ∧
      (e.operator = opNotIn → (∀ ipStr ∈ e.value.splitOn comma, ¬Belongs netIp ipStr) ∨
        ∀ ipStr ∈ e.value.splitOn comma, Spells (getClientIp req) netIp ipStr) := by
  refine and_congr (imp_congr_right fun hop => ?_) (imp_congr_right fun hop => ?_)
  · have hhits : Hits isAbroadIp req e ↔ _ := hits_iff (f := id) hclient
      (fun found => by rw [hop]; rfl) (by rw [hop]; decide +kernel) h
    simp only [id, decide_eq_true_iff] at hhits
    rw [hhits]
    constructor
    · rintro hiff ⟨ipStr, hmem, hip⟩
      exact hiff.mpr ⟨ipStr, hmem, .inl hip⟩
    · intro hspelt
      constructor
      · rintro ⟨ipStr, hmem, hspells⟩
        exact ⟨ipStr, hmem, hspells.belongs hclient⟩
      · rintro ⟨ipStr, hmem, hip | hblock⟩
        · exact hspelt ⟨ipStr, hmem, hip⟩
        · exact ⟨ipStr, hmem, .inr hblock⟩
  · have hhits : Hits isAbroadIp req e ↔ _ := hits_iff (f := not) hclient
      (fun found => by rw [hop]; rfl) (by rw [hop]; decide +kernel) h
    simp only [Bool.not_eq_true', decide_eq_false_iff_not] at hhits
    rw [hhits]
    obtain ⟨first, hfirst⟩ := List.exists_mem_of_ne_nil _ (List.splitOn_ne_nil comma e.value)
    constructor
    · intro hiff
      by_cases hall : ∀ ipStr ∈ e.value.splitOn comma, Spells (getClientIp req) netIp ipStr
      · exact .inr hall
      · push Not at hall
        exact .inl (hiff.mp hall)
    · rintro (hnone | hall)
      · exact iff_of_true
          ⟨first, hfirst, fun hspells => hnone first hfirst (hspells.belongs hclient)⟩ hnone
      · refine iff_of_false ?_ fun hnone => hnone first hfirst ((hall first hfirst).belongs hclient)
        rintro ⟨ipStr, hmem, hspells⟩
        exact hspells (hall ipStr hmem)

namespace Sample

/-- The loopback address, told by a proxy. -/
def loopback : Request := ⟨[], utf8 "::1", [], []⟩

def notIn : Expression := ⟨[], opNotIn, utf8 "8::/16,::1"⟩

theorem loopback_found : parseIP (getClientIp loopback) = some 1 ∧
    getClientIp loopback = utf8 "::1" ∧
    notIn.value.splitOn comma = [utf8 "8::/16", utf8 "::1"] ∧ IsListable (utf8 "8::/16") ∧
    (parseCIDR (utf8 "8::/16")).any (·.contains 1) = false ∧ utf8 "8::/16" ≠ utf8 "::1" ∧
    parseIP (utf8 "::1") = some 1 := by
  decide

theorem notIn_listable : ∀ ipStr ∈ notIn.value.splitOn comma, IsListable ipStr := by
  obtain ⟨-, -, hsplit, hblock, -, -, haddr⟩ := loopback_found
  rw [hsplit]
  exact List.forall_mem_cons.mpr ⟨hblock, List.forall_mem_singleton.mpr (.inl (by rw [haddr]; rfl))⟩

/-- The same elements for "is in", and others for "is not in". -/
def inside : Expression := ⟨[], opIn, notIn.value⟩

def outside : Expression := ⟨[], opNotIn, utf8 "8::/16,9::1"⟩

theorem outside_found : outside.value.splitOn comma = [utf8 "8::/16", utf8 "9::1"] ∧
    IsListable (utf8 "9::1") ∧ parseIP (utf8 "8::/16") = none ∧ parseIP (utf8 "9::1") ≠ some 1 ∧
    (parseCIDR (utf8 "9::1")).any (·.contains 1) = false := by
  decide +kernel

end Sample

/-- The client is in a list that has its address, and not in one that has neither its address nor its
block. -/
theorem loopback_outside : Hits (fun _ => false) Sample.loopback Sample.inside ∧
    Hits (fun _ => false) Sample.loopback Sample.outside := by
  obtain ⟨hclient, hip, hsplit, hblock, hfalse, -, haddr⟩ := Sample.loopback_found
  obtain ⟨hothers, hother, hnoIp, hapart, hotherFalse⟩ := Sample.outside_found
  have hin : Sample.inside.operator ≠ opNotIn := by decide +kernel
  have hout : Sample.outside.operator ≠ opIn := by decide +kernel
  constructor
  · have hmem : utf8 "::1" ∈ Sample.inside.value.splitOn comma := by
      rw [Sample.inside, hsplit]
      exact List.mem_cons_of_mem _ List.mem_cons_self
    exact (((ip_membership_iff (e := Sample.inside) hclient Sample.notIn_listable).mpr
      ⟨fun _ _ => ⟨utf8 "::1", hmem, .inl hip.symm⟩, fun h => absurd h hin⟩).1 rfl).mpr
        ⟨utf8 "::1", hmem, .inl haddr⟩
  · have hlist : ∀ ipStr ∈ Sample.outside.value.splitOn comma, IsListable ipStr := by
      rw [hothers]
      exact List.forall_mem_cons.mpr ⟨hblock, List.forall_mem_singleton.mpr hother⟩
    have hnone : ∀ ipStr ∈ Sample.outside.value.splitOn comma, ¬Belongs 1 ipStr := by
      rw [hothers]
      refine List.forall_mem_cons.mpr ⟨?_, List.forall_mem_singleton.mpr ?_⟩
      · rintro (h | h)
        · cases h.symm.trans hnoIp
        · cases h.symm.trans hfalse
      · rintro (h | h)
        · exact hapart h
        · cases h.symm.trans hotherFalse
    exact (((ip_membership_iff hclient hlist).mpr
      ⟨fun h => absurd h hout, fun _ => .inl hnone⟩).2 rfl).mpr hnone

/-- The first element that does not list the client makes "is not in" hit, although the next one is
the client's address. -/
theorem listed_client_hit : ¬∀ (isAbroadIp : GoString → Bool) (req : Request) (e : Expression)
    (netIp : BitVec 128), parseIP (getClientIp req) = some netIp →
      (∀ ipStr ∈ e.value.splitOn comma, IsListable ipStr) →
      (e.operator = opIn →
        (Hits isAbroadIp req e ↔ ∃ ipStr ∈ e.value.splitOn comma, Belongs netIp ipStr)) ∧
      (e.operator = opNotIn →
        (Hits isAbroadIp req e ↔ ∀ ipStr ∈ e.value.splitOn comma, ¬Belongs netIp ipStr)) := by
  intro h
  obtain ⟨hclient, hip, hsplit, -, hfalse, hne, haddr⟩ := Sample.loopback_found
  have hhits : Hits (fun _ => false) Sample.loopback Sample.notIn := by
    refine (hits_iff (f := not) hclient (fun _ => rfl) (by decide +kernel)
      Sample.notIn_listable).mpr ?_
    rw [hsplit, hip]
    have hspells : ¬Spells (utf8 "::1") 1 (utf8 "8::/16") := by
      rintro (h | h)
      · exact hne h
      · cases h.symm.trans hfalse
    exact ⟨utf8 "8::/16", List.mem_cons_self, by rw [decide_eq_false hspells]; rfl⟩
  have hnone := ((h _ Sample.loopback Sample.notIn 1 hclient Sample.notIn_listable).2 rfl).mp hhits
  rw [hsplit] at hnone
  exact hnone (utf8 "::1") (by simp) (.inl haddr)

end IpRule

section IpRateRule

/-- `golang.org/x/time/rate`: limiters and what they say of a request at a time. -/
structure RateLimit (L R : Type) where
  limit : GoInt → R
  newLimiter : R → GoInt → L
  setLimit : R → GoInt → L → L
  allow : Time → L → Bool × L
  wait : Time → L → Option GoString × L

structure IpRateLimiter (L R : Type) where
  ips : GoString → Option L
  r : R
  b : GoInt

/-- The maps of all rules. -/
structure RateState (L R : Type) where
  blackList : GoString → GoString → Option Time
  ipRateLimiters : GoString → Option (IpRateLimiter L R)

/-- One request: its address, the clock when the blacklist is read, and when it is written. -/
structure Call where
  clientIp : GoString
  now : Time
  later : Time
  deriving DecidableEq, Repr

def second : ℤ := 10^9

/-- `time.Duration(blockTime)*time.Second`, in 64 bits. -/
def blockDuration (blockTime : GoInt) : ℤ := Int.bmod (blockTime.1*second) (2^64)

/-- `Time.Sub`, which stays within 64 bits. -/
def sub (t u : ℤ) : ℤ := max (-2^63) (min (2^63-1) (t-u))

def exceeded : RuleResult := ⟨utf8 "Block", 0, utf8 "Rate limit exceeded"⟩

variable {L R : Type} [DecidableEq R] (lib : RateLimit L R) (ruleName : GoString)

/-- The rest of `IpRateRule.checkRule`, for an address that is not blocked. -/
def checkLimit (operator : GoString) (c : Call) (s : RateState L R) :
    Except Failure (Option RuleResult) × RateState L R :=
  match Object.parseInt operator with
  | none => (.error .panic, s)
  | some n =>
    let ipRateLimiter := (s.ipRateLimiters ruleName).getD ⟨fun _ => none, lib.limit n, n⟩
    let limiter := (ipRateLimiter.ips c.clientIp).getD (lib.newLimiter ipRateLimiter.r ipRateLimiter.b)
    let stored (limiter : L) : RateState L R :=
      ⟨s.blackList, Function.update s.ipRateLimiters ruleName
        (some ⟨Function.update ipRateLimiter.ips c.clientIp (some limiter), lib.limit n,
          if ipRateLimiter.r = lib.limit n then ipRateLimiter.b else n⟩)⟩
    if ipRateLimiter.r ≠ lib.limit n then
      match lib.wait c.now (lib.setLimit (lib.limit n) n limiter) with
      | (some err, limiter') => (.error (.error err), stored limiter')
      | (none, limiter') => (.ok none, stored limiter')
    else
      match lib.allow c.now limiter with
      | (true, limiter') => (.ok none, stored limiter')
      -- The blacklist of the rule is made anew, with this address alone.
      | (false, limiter') =>
        let alone := Function.update (fun _ => none) c.clientIp (some c.later)
        (.ok (some exceeded),
          ⟨Function.update s.blackList ruleName alone, (stored limiter').ipRateLimiters⟩)

/-- `IpRateRule.checkRule`. -/
def checkIpRateRule (expressions : List Expression) (c : Call) (s : RateState L R) :
    Except Failure (Option RuleResult) × RateState L R :=
  match expressions with
  | [] => (.error .panic, s)
  | e :: _ =>
    match s.blackList ruleName c.clientIp with
    | none => checkLimit lib ruleName e.operator c s
    | some createAt =>
      match Object.parseInt e.value with
      | none => (.error .panic, s)
      | some blockTime =>
        if sub c.now createAt < blockDuration blockTime then (.ok (some exceeded), s)
        else
          let others := Function.update (s.blackList ruleName) c.clientIp none
          checkLimit lib ruleName e.operator c
            ⟨Function.update s.blackList ruleName others, s.ipRateLimiters⟩

/-- The limiter of the address is asked and says no. -/
def refuses (operator : GoString) (c : Call) (s : RateState L R) : Bool :=
  match Object.parseInt operator with
  | none => false
  | some n =>
    let ipRateLimiter := (s.ipRateLimiters ruleName).getD ⟨fun _ => none, lib.limit n, n⟩
    let limiter := (ipRateLimiter.ips c.clientIp).getD (lib.newLimiter ipRateLimiter.r ipRateLimiter.b)
    decide (ipRateLimiter.r = lib.limit n) && !(lib.allow c.now limiter).1

variable {lib ruleName} {operator : GoString} {c : Call} {s s' s'' : RateState L R}

/-- The blacklist is left alone, or the limiter says no and the rule's list is the address alone. -/
theorem checkLimit_cases (lib : RateLimit L R) (ruleName operator : GoString) (c : Call)
    (s : RateState L R) :
    ((checkLimit lib ruleName operator c s).1 ≠ .ok (some exceeded) ∧
      (checkLimit lib ruleName operator c s).2.blackList = s.blackList) ∨
    refuses lib ruleName operator c s = true ∧
      (checkLimit lib ruleName operator c s).2.blackList =
        Function.update s.blackList ruleName
          (Function.update (fun _ => none) c.clientIp (some c.later)) := by
  unfold checkLimit refuses
  cases Object.parseInt operator with
  | none => exact .inl ⟨by simp, rfl⟩
  | some n =>
    dsimp only
    split
    · left
      split <;> exact ⟨by simp, rfl⟩
    · rename_i hr
      rw [not_not] at hr
      split
      · exact .inl ⟨by simp, rfl⟩
      · rename_i hallow
        exact .inr ⟨by rw [hallow]; simpa using hr, rfl⟩

variable {e : Expression} {blockTime : GoInt}

def Running (ruleName : GoString) (blockTime : GoInt) (s : RateState L R) (clientIp : GoString)
    (at' : Time) : Prop :=
  ∃ t ∈ s.blackList ruleName clientIp, at' < t + blockTime.1*second

/-- The call is refused only while no other address is blocked. -/
def RefusedAlone (lib : RateLimit L R) (ruleName : GoString) (e : Expression) (blockTime : GoInt)
    (s : RateState L R) (c : Call) : Prop :=
  ¬Running ruleName blockTime s c.clientIp c.now → refuses lib ruleName e.operator c s →
    ∀ other, other ≠ c.clientIp → ¬Running ruleName blockTime s other c.later

theorem sub_lt_iff (hblock : InRange (blockTime.1*second)) (t u : ℤ) :
    sub t u < blockDuration blockTime ↔ t < u + blockTime.1*second := by
  obtain ⟨hlow, hhigh⟩ := hblock
  have hduration : blockDuration blockTime = blockTime.1*second :=
    Int.bmod_eq_of_le (by omega) (by omega)
  have hmultiple : blockTime.1*second ≠ -2^63 := by
    rw [second]
    omega
  rw [hduration, sub, max_lt_iff, min_lt_iff]
  generalize blockTime.1*second = d at *
  omega

theorem checkIpRateRule_running (hvalue : Object.parseInt e.value = some blockTime)
    (hblock : InRange (blockTime.1*second))
    (h : Running ruleName blockTime s c.clientIp c.now) :
    checkIpRateRule lib ruleName [e] c s = (.ok (some exceeded), s) := by
  obtain ⟨t, ht, hnow⟩ := h
  unfold checkIpRateRule
  simp only [Option.mem_def.mp ht, hvalue, (sub_lt_iff hblock c.now t).mpr hnow, if_true]

/-- The blacklist of the rule after a call by an address that is not blocked: another address stays
or, where the limiter says no, every other one goes. -/
theorem blackList_other (lib : RateLimit L R) (hvalue : Object.parseInt e.value = some blockTime)
    (hblock : InRange (blockTime.1*second))
    (h : ¬Running ruleName blockTime s c.clientIp c.now) {other : GoString}
    (hother : other ≠ c.clientIp) :
    (checkIpRateRule lib ruleName [e] c s).2.blackList ruleName other =
        s.blackList ruleName other ∨
      refuses lib ruleName e.operator c s = true := by
  unfold checkIpRateRule
  cases hentry : s.blackList ruleName c.clientIp with
  | none =>
    dsimp only
    rcases checkLimit_cases lib ruleName e.operator c s with ⟨-, hsame⟩ | ⟨hrefuses, -⟩
    · exact .inl (by rw [hsame])
    · exact .inr hrefuses
  | some t =>
    have hended : ¬sub c.now t < blockDuration blockTime := fun hlt =>
      h ⟨t, hentry, (sub_lt_iff hblock c.now t).mp hlt⟩
    simp only [hvalue, if_neg hended]
    rcases checkLimit_cases lib ruleName e.operator c ⟨Function.update s.blackList ruleName
        (Function.update (s.blackList ruleName) c.clientIp none), s.ipRateLimiters⟩
      with ⟨-, hsame⟩ | ⟨hrefuses, -⟩
    · left
      rw [hsame]
      simp [hother]
    · exact .inr hrefuses

theorem running_step (hvalue : Object.parseInt e.value = some blockTime)
    (hblock : InRange (blockTime.1*second)) (halone : RefusedAlone lib ruleName e blockTime s c)
    (hclock : c.now ≤ c.later) {clientIp : GoString} {t : Time}
    (ht : s.blackList ruleName clientIp = some t) (hlater : c.later < t + blockTime.1*second) :
    (checkIpRateRule lib ruleName [e] c s).2.blackList ruleName clientIp = some t := by
  by_cases hrunning : Running ruleName blockTime s c.clientIp c.now
  · rw [checkIpRateRule_running hvalue hblock hrunning, ht]
  · have hother : clientIp ≠ c.clientIp := by
      rintro rfl
      exact hrunning ⟨t, ht, lt_of_le_of_lt hclock hlater⟩
    rcases blackList_other lib hvalue hblock hrunning hother with hsame | hrefuses
    · rw [hsame, ht]
    · exact absurd ⟨t, ht, hlater⟩ (halone hrunning hrefuses clientIp hother)

def execCall (lib : RateLimit L R) (ruleName : GoString) (e : Expression) (s : RateState L R)
    (c : Call) : Option (RateState L R) :=
  some (checkIpRateRule lib ruleName [e] c s).2

def Ordered (calls : List Call) : Prop :=
  calls.Pairwise (fun c d => c.later ≤ d.now) ∧ ∀ c ∈ calls, c.now ≤ c.later

theorem running_run {calls : List Call} (hvalue : Object.parseInt e.value = some blockTime)
    (hblock : InRange (blockTime.1*second))
    (halong : Along (execCall lib ruleName e) (RefusedAlone lib ruleName e blockTime) s calls)
    (hrun : run (execCall lib ruleName e) s calls = some s') {clientIp : GoString} {t : Time}
    (hclock : ∀ c ∈ calls, c.now ≤ c.later ∧ c.later < t + blockTime.1*second)
    (ht : s.blackList ruleName clientIp = some t) : s'.blackList ruleName clientIp = some t := by
  induction calls generalizing s with
  | nil =>
    obtain rfl := Option.some.inj hrun
    exact ht
  | cons c calls ih =>
    obtain ⟨halone, hrest⟩ := halong
    obtain ⟨s1, hs1, hrun⟩ := run_cons_eq_some.mp hrun
    obtain ⟨⟨hnow, hlater⟩, hclock⟩ := List.forall_mem_cons.mp hclock
    have hstep := running_step hvalue hblock halone hnow ht hlater
    rw [Option.some.inj hs1] at hstep
    exact ih (hrest s1 hs1) hrun hclock hstep

/-- In a run in which an address is only refused while no other is blocked, a blocked address stays
blocked until its time is over. -/
theorem blocks_last (hvalue : Object.parseInt e.value = some blockTime)
    (hblock : InRange (blockTime.1*second)) {before between : List Call}
    (halong : Along (execCall lib ruleName e) (RefusedAlone lib ruleName e blockTime) s
      (before ++ between))
    (hordered : Ordered (before ++ between ++ [c]))
    (hbefore : run (execCall lib ruleName e) s before = some s')
    (hbetween : run (execCall lib ruleName e) s' between = some s'') {t : Time}
    (ht : s'.blackList ruleName c.clientIp = some t) (hnow : c.now < t + blockTime.1*second) :
    (checkIpRateRule lib ruleName [e] c s'').1 = .ok (some exceeded) := by
  obtain ⟨hpairs, hclocks⟩ := hordered
  have hends : ∀ d ∈ between, d.now ≤ d.later ∧ d.later < t + blockTime.1*second := by
    intro d hd
    have hle : d.later ≤ c.now :=
      (List.pairwise_append.mp hpairs).2.2 d (List.mem_append_right _ hd) c (by simp)
    exact ⟨hclocks d (by simp [hd]), lt_of_le_of_lt hle hnow⟩
  have hkept := running_run hvalue hblock ((along_append.mp halong).2 s' hbefore) hbetween hends ht
  rw [checkIpRateRule_running hvalue hblock ⟨t, hkept, hnow⟩]

namespace Sample

/-- One call in a second: the limiter holds the time of the last call that it allowed. -/
def oncePerSecond : RateLimit (Option Time) ℤ where
  limit n := n.1
  newLimiter _ _ := none
  setLimit _ _ limiter := limiter
  allow now last := if last.all fun t => t + second ≤ now then (true, some now) else (false, last)
  wait _ limiter := (none, limiter)

def perSecond : Expression := ⟨[], utf8 "1", utf8 "60"⟩

def idle : RateState (Option Time) ℤ := ⟨fun _ _ => none, fun _ => none⟩

def after (calls : List Call) : RateState (Option Time) ℤ :=
  calls.foldl (fun s c => (checkIpRateRule oncePerSecond [] [perSecond] c s).2) idle

def first : List Call := [⟨[1], 1, 1⟩, ⟨[1], 2, 2⟩]

/-- Another address calls, once and twice. -/
def once : List Call := [⟨[2], 3, 3⟩]

def twice : List Call := [⟨[2], 3, 3⟩, ⟨[2], 4, 4⟩]

theorem run_after (calls more : List Call) :
    run (execCall oncePerSecond [] perSecond) (after calls) more = some (after (calls ++ more)) := by
  induction more generalizing calls with
  | nil => simp [run]
  | cons c more ih =>
    have hstep : execCall oncePerSecond [] perSecond (after calls) c = some (after (calls ++ [c])) := by
      rw [execCall, after, after, List.foldl_append]
      rfl
    rw [run, hstep, Option.bind_some, ih, List.append_assoc]
    rfl

theorem perSecond_value : Object.parseInt perSecond.value = some ⟨60, by decide⟩ ∧
    InRange (60*second) := by
  decide

/-- The first address is blocked at its second call; so it is after one call of another address,
and after two it is not. -/
theorem first_blocked : (after first).blackList [] [1] = some 2 ∧
    refuses oncePerSecond [] perSecond.operator ⟨[2], 3, 3⟩ (after first) = false ∧
    (checkIpRateRule oncePerSecond [] [perSecond] ⟨[1], second+2, second+2⟩
      (after (first ++ twice))).1 ≠ .ok (some exceeded) := by
  decide

end Sample

/-- A blocked address is refused although another one has called. -/
theorem first_stays_blocked : (checkIpRateRule Sample.oncePerSecond [] [Sample.perSecond]
    ⟨[1], second+2, second+2⟩ (Sample.after (Sample.first ++ Sample.once))).1 =
      .ok (some exceeded) := by
  obtain ⟨hvalue, hblock⟩ := Sample.perSecond_value
  obtain ⟨hentry, hother, -⟩ := Sample.first_blocked
  have halong : Along (execCall Sample.oncePerSecond [] Sample.perSecond)
      (RefusedAlone Sample.oncePerSecond [] Sample.perSecond ⟨60, by decide⟩)
      (Sample.after Sample.first) ([] ++ Sample.once) :=
    ⟨fun _ hrefuses => absurd hrefuses (by rw [hother]; decide), fun _ _ => trivial⟩
  have hordered : Ordered ([] ++ Sample.once ++ [⟨[1], second+2, second+2⟩]) :=
    ⟨by decide, by decide⟩
  exact blocks_last hvalue hblock halong hordered rfl
    (Sample.run_after Sample.first Sample.once) hentry (by decide)

/-- An address that is refused releases every other one. -/
theorem other_refusal_releases : ¬∀ (lib : RateLimit (Option Time) ℤ) (ruleName : GoString)
    (e : Expression) (blockTime : GoInt) (s s' s'' : RateState (Option Time) ℤ)
    (before between : List Call) (c : Call) (t : Time),
      Object.parseInt e.value = some blockTime → InRange (blockTime.1*second) →
      Ordered (before ++ between ++ [c]) →
      run (execCall lib ruleName e) s before = some s' →
      run (execCall lib ruleName e) s' between = some s'' →
      s'.blackList ruleName c.clientIp = some t → c.now < t + blockTime.1*second →
      (checkIpRateRule lib ruleName [e] c s'').1 = .ok (some exceeded) := by
  intro h
  obtain ⟨hvalue, hblock⟩ := Sample.perSecond_value
  obtain ⟨hentry, -, hfree⟩ := Sample.first_blocked
  exact hfree (h Sample.oncePerSecond [] Sample.perSecond _ Sample.idle _ _ Sample.first
    Sample.twice ⟨[1], second+2, second+2⟩ 2 hvalue hblock ⟨by decide, by decide⟩
    (Sample.run_after [] Sample.first) (Sample.run_after Sample.first Sample.twice) hentry
    (by decide))

end IpRateRule

end ArchGuard.Rules
