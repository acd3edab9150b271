import ArchGuard.FloatInts
import ArchGuard.JsonText
import ArchGuard.TokenIssuer

/-! The claims of a token as JSON: what is signed for a claim set, and what is read back into one. -/
namespace GoJson
open FloatInts

mutual

def Value.mapNums (g : ℤ → ℤ) : Value → Value
  | .null => .null
  | .num n => .num (g n)
  | .str s => .str s
  | .arr items => .arr (mapNumsItems g items)
  | .obj fields => .obj (mapNumsFields g fields)

def mapNumsItems (g : ℤ → ℤ) : List Value → List Value
  | [] => []
  | item :: items => item.mapNums g :: mapNumsItems g items

def mapNumsFields (g : ℤ → ℤ) : List (String × Value) → List (String × Value)
  | [] => []
  | (key, value) :: fields => (key, value.mapNums g) :: mapNumsFields g fields

end

/-- `Unmarshal` into an `interface{}`: every number becomes a float64. -/
def Value.decoded (v : Value) : Value := v.mapNums (toFloat 53)

/-- `Marshal` of what was decoded so. -/
def Value.written (v : Value) : Value := v.mapNums (floatText 53)

mutual

theorem mapNums_mapNums (g h : ℤ → ℤ) :
    ∀ v : Value, (v.mapNums g).mapNums h = v.mapNums fun n => h (g n)
  | .null => rfl
  | .num _ => rfl
  | .str _ => rfl
  | .arr items => by rw [Value.mapNums, Value.mapNums, Value.mapNums, mapNumsItems_items g h items]
  | .obj fields => by
    rw [Value.mapNums, Value.mapNums, Value.mapNums, mapNumsFields_fields g h fields]

theorem mapNumsItems_items (g h : ℤ → ℤ) :
    ∀ items, mapNumsItems h (mapNumsItems g items) = mapNumsItems (fun n => h (g n)) items
  | [] => rfl
  | item :: items => by
    rw [mapNumsItems, mapNumsItems, mapNumsItems, mapNums_mapNums g h item,
      mapNumsItems_items g h items]

theorem mapNumsFields_fields (g h : ℤ → ℤ) :
    ∀ fields, mapNumsFields h (mapNumsFields g fields) = mapNumsFields (fun n => h (g n)) fields
  | [] => rfl
  | (key, value) :: fields => by
    rw [mapNumsFields, mapNumsFields, mapNumsFields, mapNums_mapNums g h value,
      mapNumsFields_fields g h fields]

end

mutual

theorem depth_mapNums (g : ℤ → ℤ) : ∀ v : Value, (v.mapNums g).depth = v.depth
  | .null => rfl
  | .num _ => rfl
  | .str _ => rfl
  | .arr items => by rw [Value.mapNums, Value.depth, Value.depth, depth_mapNumsItems g items]
  | .obj fields => by rw [Value.mapNums, Value.depth, Value.depth, depth_mapNumsFields g fields]

theorem depth_mapNumsItems (g : ℤ → ℤ) :
    ∀ items, depthItems (mapNumsItems g items) = depthItems items
  | [] => rfl
  | item :: items => by
    rw [mapNumsItems, depthItems, depthItems, depth_mapNums g item, depth_mapNumsItems g items]

theorem depth_mapNumsFields (g : ℤ → ℤ) :
    ∀ fields, depthFields (mapNumsFields g fields) = depthFields fields
  | [] => rfl
  | (key, value) :: fields => by
    rw [mapNumsFields, depthFields, depthFields, depth_mapNums g value,
      depth_mapNumsFields g fields]

end

theorem mapNumsFields_eq_map (g : ℤ → ℤ) (fields : List (String × Value)) :
    mapNumsFields g fields = fields.map fun f => (f.1, f.2.mapNums g) := by
  induction fields with
  | nil => rfl
  | cons f fields ih => rw [mapNumsFields, ih, List.map_cons]

theorem field_mapNums (g : ℤ → ℤ) (v : Value) (key : String) :
    (v.mapNums g).field key = (v.field key).mapNums g := by
  cases v with
  | obj fields =>
    rw [Value.mapNums, Value.field, Value.field, mapNumsFields_eq_map, JsonText.lookup_map]
    cases fields.lookup key <;> rfl
  | null => rfl
  | num n => rfl
  | str s => rfl
  | arr items => rfl

theorem decoded_written_decoded (v : Value) : v.decoded.written.decoded = v.decoded := by
  rw [Value.decoded, Value.written, Value.decoded, mapNums_mapNums, mapNums_mapNums]
  congr 1
  funext n
  exact toFloat_floatText_toFloat (by omega) n

theorem checkValid_mapNums (g : ℤ → ℤ) (v : Value) : checkValid (v.mapNums g) = checkValid v := by
  rw [checkValid, checkValid, depth_mapNums]

-- What the decoder puts into fields of type `string`, `[]string` and `int64`.

def readText : Value → Option String
  | .null => some ""
  | .str s => some s
  | _ => none

def readTexts : Value → Option (List String)
  | .null => some []
  | .arr items => items.mapM readText
  | _ => none

def readInt64 : Value → Option ℤ
  | .null => some 0
  | .num n => if -2^63 ≤ n ∧ n < 2^63 then some n else none
  | _ => none

@[simp] theorem readText_mapNums (g : ℤ → ℤ) (v : Value) :
    readText (v.mapNums g) = readText v := by
  cases v <;> rfl

@[simp] theorem readTexts_mapNums (g : ℤ → ℤ) (v : Value) :
    readTexts (v.mapNums g) = readTexts v := by
  cases v with
  | arr items =>
    show (mapNumsItems g items).mapM readText = items.mapM readText
    induction items with
    | nil => rfl
    | cons item items ih => rw [mapNumsItems, List.mapM_cons, List.mapM_cons, ih, readText_mapNums]
  | null => rfl
  | num n => rfl
  | str s => rfl
  | obj fields => rfl

def marshalTexts (ss : List String) : Value := .arr (ss.map Value.str)

theorem readTexts_marshalTexts (ss : List String) : readTexts (marshalTexts ss) = some ss := by
  show (ss.map Value.str).mapM readText = some ss
  induction ss with
  | nil => rfl
  | cons s ss ih =>
    rw [List.map_cons, List.mapM_cons, ih]
    rfl

/-- A field with `omitempty`. -/
def omitEmpty (key : String) (empty : Bool) (value : Value) : List (String × Value) :=
  if empty then [] else [(key, value)]

theorem lookup_omitEmpty_self (key : String) (empty : Bool) (value : Value) :
    (omitEmpty key empty value).lookup key = if empty then none else some value := by
  cases empty
  · simp [omitEmpty]
  · rfl

theorem lookup_omitEmpty_ne {key other : String} (h : other ≠ key) (empty : Bool) (value : Value) :
    (omitEmpty key empty value).lookup other = none := by
  cases empty
  · simp [omitEmpty, h]
  · rfl

end GoJson

namespace ArchGuard.Oidc
open GoJson FloatInts

/-- The actor of a delegation, and on whose behalf it acts in turn. -/
inductive ActClaim
  | last (sub : String)
  | behind (sub : String) (act : ActClaim)
  deriving DecidableEq, Repr

/-- All claims that the contract knows; those of `OIDCClaims` are in every token. -/
structure TokenClaims extends OIDCClaims where
  groups : List String
  roles : List String
  act : Option ActClaim
  pcid : String
  grantRef : String
  deriving DecidableEq, Repr

structure LogoutTokenClaims where
  iss : String
  aud : String
  iat : ℤ
  jti : String
  sid : String
  /-- The members of `events`, each with the members of its own. -/
  events : List (String × List (String × Value))
  version : String

def backchannelLogoutEvent : String := "http://schemas.openid.net/event/backchannel-logout"

def LogoutTokenClaims.wellFormed (c : LogoutTokenClaims) : Except OidcError Unit :=
  if c.iss = "" then .error (invalidClaims "iss ausente")
  else if c.aud = "" then .error (invalidClaims "aud ausente")
  else if c.sid = "" then .error (invalidClaims "sid ausente")
  else if c.jti = "" then .error (invalidClaims "jti ausente")
  else if c.iat ≤ 0 then .error (invalidClaims "iat ausente")
  else if c.events.lookup backchannelLogoutEvent = none then
    .error (invalidClaims "evento de back-channel logout ausente")
  else .ok ()

def ActClaim.marshal : ActClaim → Value
  | .last sub => .obj [("sub", .str sub)]
  | .behind sub act => .obj [("sub", .str sub), ("act", act.marshal)]

def marshalAct : Option ActClaim → Value
  | none => .null
  | some act => act.marshal

def TokenClaims.marshal (c : TokenClaims) : Value :=
  .obj ([("iss", .str c.iss), ("sub", .str c.sub), ("aud", .str c.aud), ("exp", .num c.exp),
    ("iat", .num c.iat), ("org", .str c.org), ("mid", .str c.mid), ("acr", .str c.acr),
    ("amr", marshalTexts c.amr), ("auth_time", .num c.authTime), ("sid", .str c.sid)] ++
    omitEmpty "groups" c.groups.isEmpty (marshalTexts c.groups) ++
    omitEmpty "roles" c.roles.isEmpty (marshalTexts c.roles) ++
    omitEmpty "act" c.act.isNone (marshalAct c.act) ++
    omitEmpty "pcid" (c.pcid = "") (.str c.pcid) ++
    omitEmpty "grant_ref" (c.grantRef = "") (.str c.grantRef) ++
    omitEmpty "email" (c.email = "") (.str c.email) ++
    [("archguard_claims_version", .str c.version)])

def LogoutTokenClaims.marshal (c : LogoutTokenClaims) : Value :=
  .obj [("iss", .str c.iss), ("aud", .str c.aud), ("iat", .num c.iat), ("jti", .str c.jti),
    ("sid", .str c.sid), ("events", .obj (c.events.map fun e => (e.1, .obj e.2))),
    ("archguard_claims_version", .str c.version)]

/-- The decoder into an `*ActClaim`; the scanner has bounded how deep it nests. -/
def readAct : (fuel : ℕ) → Value → Option (Option ActClaim)
  | _, .null => some none
  | fuel+1, .obj fields => do
    let sub ← readText ((Value.obj fields).field "sub")
    match ← readAct fuel ((Value.obj fields).field "act") with
    | none => some (some (.last sub))
    | some act => some (some (.behind sub act))
  | _, _ => none

/-- `Unmarshal` into the claim set. -/
def readClaims (v : Value) : Option TokenClaims := do
  guard (checkValid v)
  let iss ← readText (v.field "iss")
  let sub ← readText (v.field "sub")
  let aud ← readText (v.field "aud")
  let exp ← readInt64 (v.field "exp")
  let iat ← readInt64 (v.field "iat")
  let org ← readText (v.field "org")
  let mid ← readText (v.field "mid")
  let acr ← readText (v.field "acr")
  let amr ← readTexts (v.field "amr")
  let authTime ← readInt64 (v.field "auth_time")
  let sid ← readText (v.field "sid")
  let groups ← readTexts (v.field "groups")
  let roles ← readTexts (v.field "roles")
  let act ← readAct maxNestingDepth (v.field "act")
  let pcid ← readText (v.field "pcid")
  let grantRef ← readText (v.field "grant_ref")
  let email ← readText (v.field "email")
  let version ← readText (v.field "archguard_claims_version")
  return { iss, sub, aud, exp, iat, org, mid, acr, amr, authTime, sid, email, version, groups,
           roles, act, pcid, grantRef }

inductive Mint
  | access (c : TokenClaims)
  | logout (c : LogoutTokenClaims)

def Mint.marshal : Mint → Value
  | .access c => c.marshal
  | .logout c => c.marshal

/-- The instants of the claim set, in Unix seconds. -/
def Mint.instants : Mint → List ℤ
  | .access c => [c.exp, c.iat, c.authTime]
  | .logout c => [c.iat]

def TokenClaims.mapInstants (g : ℤ → ℤ) (c : TokenClaims) : TokenClaims :=
  { c with exp := g c.exp, iat := g c.iat, authTime := g c.authTime }

/-- The claim set as a reader of tokens names its members. -/
def Mint.claims : Mint → TokenClaims
  | .access c => c
  | .logout c =>
    { iss := c.iss, sub := "", aud := c.aud, exp := 0, iat := c.iat, org := "", mid := "", acr := "",
      amr := [], authTime := 0, sid := c.sid, email := "", version := c.version, groups := [],
      roles := [], act := none, pcid := "", grantRef := "" }

def ActClaim.length : ActClaim → ℕ
  | .last _ => 1
  | .behind _ act => act.length+1

theorem ActClaim.depth_marshal (act : ActClaim) : act.marshal.depth = act.length := by
  induction act with
  | last sub => rfl
  | behind sub act ih =>
    rw [marshal, Value.depth, depthFields, depthFields, depthFields, ih, length]
    simp [Value.depth]

theorem readAct_marshal (g : ℤ → ℤ) (act : ActClaim) {fuel : ℕ} (h : act.length ≤ fuel) :
    readAct fuel (act.marshal.mapNums g) = some (some act) := by
  induction act generalizing fuel with
  | last sub =>
    obtain ⟨fuel, rfl⟩ : ∃ n, fuel = n+1 := Nat.exists_eq_add_of_le' h
    cases fuel <;> rfl
  | behind sub act ih =>
    obtain ⟨fuel, rfl⟩ : ∃ n, fuel = n+1 := ⟨fuel-1, by rw [ActClaim.length] at h; omega⟩
    have hfuel : act.length ≤ fuel := by
      rw [ActClaim.length] at h
      omega
    have hact := ih hfuel
    rw [ActClaim.marshal, Value.mapNums, mapNumsFields, mapNumsFields, mapNumsFields, readAct]
    show (readAct fuel (act.marshal.mapNums g)).bind _ = _
    rw [hact]
    rfl

theorem readText_omitted (s : String) :
    readText ((if s = "" then none else some (Value.str s)).getD .null) = some s := by
  by_cases h : s = ""
  · rw [if_pos h, h]
    rfl
  · rw [if_neg h]
    rfl

theorem readTexts_omitted (ss : List String) :
    readTexts ((if ss.isEmpty then none else some (marshalTexts ss)).getD .null) = some ss := by
  cases ss with
  | nil => rfl
  | cons s ss => exact readTexts_marshalTexts (s :: ss)

theorem lookup_omitEmpty (key other : String) (empty : Bool) (value : Value) :
    (omitEmpty key empty value).lookup other =
      if other = key ∧ empty = false then some value else none := by
  by_cases h : other = key
  · subst h
    rw [lookup_omitEmpty_self]
    cases empty <;> simp
  · rw [lookup_omitEmpty_ne h, if_neg fun hkey => h hkey.1]

/-- An instant that its field can hold. -/
def InInt64 (n : ℤ) : Prop := -2^63 ≤ n ∧ n < 2^63

instance (n : ℤ) : Decidable (InInt64 n) := inferInstanceAs (Decidable (_ ∧ _))

theorem TokenClaims.texts_marshal (c : TokenClaims) :
    c.marshal.field "iss" = .str c.iss ∧ c.marshal.field "sub" = .str c.sub ∧
      c.marshal.field "aud" = .str c.aud ∧ c.marshal.field "org" = .str c.org ∧
      c.marshal.field "mid" = .str c.mid ∧ c.marshal.field "acr" = .str c.acr ∧
      c.marshal.field "sid" = .str c.sid ∧
      c.marshal.field "archguard_claims_version" = .str c.version := by
  simp [Value.field, marshal, List.lookup_append, List.lookup_cons, lookup_omitEmpty]

theorem TokenClaims.instants_marshal (c : TokenClaims) :
    c.marshal.field "exp" = .num c.exp ∧ c.marshal.field "iat" = .num c.iat ∧
      c.marshal.field "auth_time" = .num c.authTime := by
  simp [Value.field, marshal, List.lookup_cons]

theorem TokenClaims.optional_marshal (c : TokenClaims) :
    readText (c.marshal.field "pcid") = some c.pcid ∧
      readText (c.marshal.field "grant_ref") = some c.grantRef ∧
      readText (c.marshal.field "email") = some c.email := by
  rw [← readText_omitted c.pcid, ← readText_omitted c.grantRef, ← readText_omitted c.email]
  simp [Value.field, marshal, List.lookup_append, List.lookup_cons, lookup_omitEmpty]

theorem TokenClaims.lists_marshal (c : TokenClaims) :
    readTexts (c.marshal.field "amr") = some c.amr ∧
      readTexts (c.marshal.field "groups") = some c.groups ∧
      readTexts (c.marshal.field "roles") = some c.roles := by
  rw [← readTexts_marshalTexts c.amr, ← readTexts_omitted c.groups, ← readTexts_omitted c.roles]
  simp [Value.field, marshal, List.lookup_append, List.lookup_cons, lookup_omitEmpty]

theorem TokenClaims.act_marshal (c : TokenClaims) : c.marshal.field "act" = marshalAct c.act := by
  cases hact : c.act <;>
    simp [Value.field, marshal, List.lookup_append, List.lookup_cons, lookup_omitEmpty, hact,
      marshalAct]

theorem depth_lookup_le {fields : List (String × Value)} {key : String} {value : Value}
    (h : fields.lookup key = some value) : value.depth ≤ depthFields fields := by
  induction fields with
  | nil => cases h
  | cons f fields ih =>
    rw [List.lookup_cons] at h
    rw [depthFields]
    split at h
    · rw [Option.some.inj h]
      exact le_max_left _ _
    · exact (ih h).trans (le_max_right _ _)

theorem depth_field_le (v : Value) (key : String) : (v.field key).depth ≤ v.depth := by
  cases v with
  | obj fields =>
    rw [Value.field, Value.depth]
    cases h : fields.lookup key with
    | none => exact Nat.zero_le _
    | some value => exact (depth_lookup_le h).trans (Nat.le_succ _)
  | null => exact le_rfl
  | num n => exact le_rfl
  | str s => exact le_rfl
  | arr items => exact Nat.zero_le _

theorem TokenClaims.length_act_le {c : TokenClaims} (h : checkValid c.marshal = true)
    {act : ActClaim} (hact : c.act = some act) : act.length ≤ maxNestingDepth := by
  have hle : (c.marshal.field "act").depth ≤ maxNestingDepth :=
    (depth_field_le _ _).trans (of_decide_eq_true h)
  rwa [c.act_marshal, hact, marshalAct, act.depth_marshal] at hle

theorem readText_str (s : String) : readText (.str s) = some s := rfl

theorem readInt64_num (n : ℤ) : readInt64 (.num n) = if InInt64 n then some n else none := rfl

theorem readClaims_access {g : ℤ → ℤ} {c : TokenClaims} (h : checkValid c.marshal = true) :
    readClaims (c.marshal.mapNums g) =
      if InInt64 (g c.exp) ∧ InInt64 (g c.iat) ∧ InInt64 (g c.authTime) then
        some (c.mapInstants g) else none := by
  have hact : readAct maxNestingDepth ((c.marshal.field "act").mapNums g) = some c.act := by
    rw [c.act_marshal]
    cases hact : c.act with
    | none => rfl
    | some act => exact readAct_marshal g act (TokenClaims.length_act_le h hact)
  simp only [readClaims, checkValid_mapNums, h, field_mapNums, readText_mapNums,
    readTexts_mapNums, hact, c.texts_marshal, c.instants_marshal, c.optional_marshal,
    c.lists_marshal, Value.mapNums, readInt64_num, readText_str]
  by_cases hexp : InInt64 (g c.exp)
  · by_cases hiat : InInt64 (g c.iat)
    · by_cases hauth : InInt64 (g c.authTime)
      · simp only [hexp, hiat, hauth, if_true, and_self]
        rfl
      · simp only [hexp, hiat, hauth, if_true, if_false, and_false]
        rfl
    · simp only [hexp, hiat, if_true, if_false, false_and, and_false]
      rfl
  · simp only [hexp, if_false, false_and]
    rfl

theorem LogoutTokenClaims.texts_marshal (c : LogoutTokenClaims) :
    c.marshal.field "iss" = .str c.iss ∧ c.marshal.field "aud" = .str c.aud ∧
      c.marshal.field "iat" = .num c.iat ∧ c.marshal.field "sid" = .str c.sid ∧
      c.marshal.field "archguard_claims_version" = .str c.version := by
  simp [Value.field, marshal, List.lookup_cons]

theorem LogoutTokenClaims.absent_marshal (c : LogoutTokenClaims) :
    (c.marshal.field "sub" = .null ∧ c.marshal.field "exp" = .null ∧
      c.marshal.field "org" = .null ∧ c.marshal.field "mid" = .null ∧
      c.marshal.field "acr" = .null ∧ c.marshal.field "amr" = .null ∧
      c.marshal.field "auth_time" = .null) ∧
    c.marshal.field "groups" = .null ∧ c.marshal.field "roles" = .null ∧
      c.marshal.field "act" = .null ∧ c.marshal.field "pcid" = .null ∧
      c.marshal.field "grant_ref" = .null ∧ c.marshal.field "email" = .null := by
  simp [Value.field, marshal, List.lookup_cons]

theorem readAct_null (fuel : ℕ) : readAct fuel .null = some none := by
  cases fuel <;> rfl

theorem readClaims_logout {g : ℤ → ℤ} (hzero : g 0 = 0) {c : LogoutTokenClaims}
    (h : checkValid c.marshal = true) :
    readClaims (c.marshal.mapNums g) =
      if InInt64 (g c.iat) then some ((Mint.logout c).claims.mapInstants g) else none := by
  simp only [readClaims, checkValid_mapNums, h, field_mapNums, c.texts_marshal, c.absent_marshal,
    Value.mapNums, readInt64_num, readText_str, readAct_null]
  by_cases hiat : InInt64 (g c.iat)
  · simp only [hiat, if_true, Mint.claims, TokenClaims.mapInstants, hzero]
    rfl
  · simp only [hiat, if_false]
    rfl

theorem readClaims_marshal {g : ℤ → ℤ} (hzero : g 0 = 0) {m : Mint}
    (h : checkValid m.marshal = true) :
    readClaims (m.marshal.mapNums g) =
      if ∀ t ∈ m.instants, InInt64 (g t) then some (m.claims.mapInstants g) else none := by
  cases m with
  | access c =>
    refine (readClaims_access h).trans (if_congr ?_ rfl rfl)
    simp [Mint.instants]
  | logout c =>
    refine (readClaims_logout hzero h).trans (if_congr ?_ rfl rfl)
    simp [Mint.instants]

/-- An instant on its way through a token: signed as a float64, and read from its text. -/
def throughJson (n : ℤ) : ℤ := floatText 53 (toFloat 53 n)

theorem throughJson_zero : throughJson 0 = 0 := by decide

/-- The floats from `2^63-2^9` on are rounded up to `2^63`, which no `int64` holds. -/
theorem inInt64_throughJson_iff {n : ℤ} (hn : 0 < n) :
    InInt64 (throughJson n) ↔ n < 2^63-2^9 := by
  obtain ⟨k, rfl⟩ := Int.eq_ofNat_of_zero_le hn.le
  have hpow : 2^63 ≤ shortest 53 (2^63) := by decide
  have hthrough : throughJson k = (shortest 53 (nearest 53 k) : ℕ) := by
    rw [throughJson, toFloat_natCast, floatText_natCast]
  have htext : shortest 53 (nearest 53 k) < 2^63 ↔ nearest 53 k < 2^63 :=
    shortest_lt_pow_iff (by omega) (by omega) (isFloat_nearest (by omega)) hpow
  have hround : nearest 53 k < 2^63 ↔ k < 2^63-2^9 := nearest_lt_pow_iff (p := 53) (e := 9) (by omega)
  rw [InInt64, hthrough]
  omega

end ArchGuard.Oidc
