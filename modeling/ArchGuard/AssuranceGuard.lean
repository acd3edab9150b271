import ArchGuard.GrantMachine
import ArchGuard.OidcClaims

/-! The guard of operations: what a session has to prove, and how recently, before one runs. -/
namespace ArchGuard.Guard
open ArchGuard.Oidc

def freshnessL2Window : Duration := 12*60*60*10^9

def freshnessL3Window : Duration := 5*60*10^9

-- Levels of operations and of authenticators are texts; a level that is not defined asks for the
-- strongest proof, and an authenticator's that is not defined gives none.

def requiredAAL (level : String) : String :=
  if level = "L1" then "aal1" else if level = "L2" then "aal2" else "aal3"

def requiresPhishingResistant (level : String) : Bool := level ≠ "L1" ∧ level ≠ "L2"

def requiresFreshness (level : String) : Bool := level ≠ "L1"

def freshnessWindow (level : String) : Duration :=
  if level = "L1" then 0 else if level = "L2" then freshnessL2Window else freshnessL3Window

/-- `Sub`: the distance of two instants, within what a duration can hold. -/
def Time.sub (t u : Time) : Duration := max (-2^63) (min (2^63-1) (t-u))

def fresh (level : String) (authTime now : Time) : Bool :=
  if !requiresFreshness level then true
  else if authTime = Time.zero then false
  else
    let age := Time.sub now authTime
    if age < 0 then false else age ≤ freshnessWindow level

def satisfies (level provenAAL : String) (phishingResistant : Bool) : Bool :=
  if !Aal.textAtLeast provenAAL (requiredAAL level) then false
  else if requiresPhishingResistant level && !phishingResistant then false
  else true

structure Operation where
  id : String
  level : String
  allowedDuringEnrollment : Bool
  deriving DecidableEq, Repr

inductive CatalogError
  | emptyId
  | invalidLevel (level id : String)
  | duplicate (id : String)
  deriving DecidableEq, Repr

def CatalogError.text : CatalogError → String
  | .emptyId => "assurance: operação inválida: id vazio"
  | .invalidLevel level id =>
    "assurance: operação inválida: nível " ++ quoted level ++ " de " ++ quoted id
  | .duplicate id => "assurance: operação já classificada: " ++ quoted id

/-- Registration is the only way into the catalog. -/
structure OperationCatalog where
  ops : List Operation
  distinct : (ops.map Operation.id).Nodup
  classified : ∀ op ∈ ops, op.id ≠ "" ∧ validLevel op.level = true

def newOperationCatalog : OperationCatalog :=
  ⟨[], List.nodup_nil, fun _ h => (List.not_mem_nil h).elim⟩

def OperationCatalog.lookup (c : OperationCatalog) (id : String) : Option Operation :=
  c.ops.find? fun op => op.id = id

theorem OperationCatalog.lookup_eq_none {c : OperationCatalog} {id : String} :
    c.lookup id = none ↔ id ∉ c.ops.map Operation.id := by
  rw [lookup, List.find?_eq_none, List.mem_map]
  simp

def OperationCatalog.register (c : OperationCatalog) (op : Operation) :
    Except CatalogError OperationCatalog :=
  if hid : op.id = "" then .error .emptyId
  else if hlevel : validLevel op.level = true then
    if hnew : c.lookup op.id = none then
      .ok { ops := op :: c.ops
            distinct := List.nodup_cons.mpr ⟨lookup_eq_none.mp hnew, c.distinct⟩
            classified := List.forall_mem_cons.mpr ⟨⟨hid, hlevel⟩, c.classified⟩ }
    else .error (.duplicate op.id)
  else .error (.invalidLevel op.level op.id)

/-- What the guard and its middleware read of a session, as a row may hold it. -/
structure AuthSession where
  membershipID : Option Uuid
  organizationID : Option Uuid
  status : String
  provenAAL : String
  authTime : Time
  authMethods : List String
  enrollmentRequired : Bool
  deriving DecidableEq, Repr

def sessionActive : String := "active"

def factorWebAuthn : String := "webauthn"

def AuthSession.phishingResistant (s : AuthSession) : Bool :=
  s.authMethods.any fun m => m = factorWebAuthn

/-- `AAL.Level`, empty for a level that is not defined. -/
def aalLevel (aal : String) : String := ((Aal.parse aal).map Aal.level).getD ""

def AuthSession.acr (s : AuthSession) : String := aalLevel s.provenAAL

structure InsufficientAssuranceError where
  operation : String
  required : String
  requiredACR : String
  needsPhishingResistant : Bool
  provenACR : String
  stale : Bool
  deriving DecidableEq, Repr

def InsufficientAssuranceError.text (e : InsufficientAssuranceError) : String :=
  if e.stale then
    "assurance: reautenticação exigida para " ++ quoted e.operation ++ ": " ++ e.required ++
      " (acr " ++ e.requiredACR ++ ") requer autenticação recente"
  else
    "assurance: garantia insuficiente para " ++ quoted e.operation ++ ": exige " ++ e.required ++
      " (acr " ++ e.requiredACR ++ "), sessão tem acr " ++ quoted e.provenACR

inductive GuardError
  | notClassified (operationID : String)
  | enrollmentRequired (operationID : String)
  | insufficient (e : InsufficientAssuranceError)
  deriving DecidableEq, Repr

def GuardError.text : GuardError → String
  | .notClassified id =>
    "assurance: operação sem classificação de nível de garantia: " ++ quoted id
  | .enrollmentRequired id =>
    "assurance: enrolamento de fator forte obrigatório antes desta operação: operação " ++ quoted id
  | .insufficient e => e.text

/-- The more restrictive of the operation's level and the tenant's floor. -/
def effectiveAAL (level tenantFloor : String) : String :=
  if (Aal.parse tenantFloor).isNone then "aal3"
  else if Aal.textAtLeast tenantFloor (requiredAAL level) then tenantFloor
  else requiredAAL level

def authorize (catalog : OperationCatalog) (operationID : String) (session : Option AuthSession)
    (tenantFloor : String) (now : Time) : Except GuardError Unit :=
  match catalog.lookup operationID with
  | none => .error (.notClassified operationID)
  | some op =>
    let reqAAL := effectiveAAL op.level tenantFloor
    let reqPhishing : Bool := reqAAL = "aal3"
    let insufficient (provenACR : String) (stale : Bool) : Except GuardError Unit :=
      .error (.insufficient ⟨operationID, op.level, aalLevel reqAAL, reqPhishing, provenACR, stale⟩)
    match session with
    | none => insufficient "" false
    | some s =>
      if s.enrollmentRequired && !op.allowedDuringEnrollment then
        .error (.enrollmentRequired operationID)
      else if s.status ≠ sessionActive then insufficient "" false
      else if !Aal.textAtLeast s.provenAAL reqAAL || (reqPhishing && !s.phishingResistant) then
        insufficient s.acr false
      else if !fresh op.level s.authTime now then insufficient s.acr true
      else .ok ()

section Middleware

variable (catalog : OperationCatalog) (requiredAALOf : Uuid → Option String)

end Middleware

/-- What a session has to prove for an operation in a tenant with this floor. -/
structure Admits (op : Operation) (s : AuthSession) (tenantFloor : String) (now : Time) : Prop where
  enrolled : s.enrollmentRequired = true → op.allowedDuringEnrollment = true
  active : s.status = sessionActive
  level : Aal.textAtLeast s.provenAAL (effectiveAAL op.level tenantFloor) = true
  resistant : effectiveAAL op.level tenantFloor = "aal3" → factorWebAuthn ∈ s.authMethods
  recent : fresh op.level s.authTime now = true

section Laws

variable {catalog : OperationCatalog} {operationID : String} {op : Operation}
  {s s' : AuthSession} {session : Option AuthSession} {floor floor' : String} {now : Time}

theorem phishingResistant_iff : s.phishingResistant = true ↔ factorWebAuthn ∈ s.authMethods := by
  simp [AuthSession.phishingResistant]

theorem authorize_eq_ok : authorize catalog operationID session floor now = .ok () ↔
    ∃ op s, catalog.lookup operationID = some op ∧ session = some s ∧ Admits op s floor now := by
  rw [authorize]
  cases hop : catalog.lookup operationID with
  | none => simp
  | some op =>
    cases session with
    | none => simp
    | some s =>
      have hstep : (∃ op' s', some op = some op' ∧ some s = some s' ∧ Admits op' s' floor now) ↔
          Admits op s floor now := by simp
      rw [hstep]
      dsimp only
      rw [ite_error_eq_ok, ite_error_eq_ok, ite_error_eq_ok, ite_error_eq_ok]
      constructor
      · rintro ⟨henrolled, hactive, hlevel, hrecent, -⟩
        simp only [Bool.and_eq_true, Bool.not_eq_true', Bool.or_eq_true, not_or, not_and,
          Bool.not_eq_false, decide_eq_true_eq] at henrolled hlevel hrecent
        exact ⟨henrolled, not_not.mp hactive, hlevel.1,
          fun h => phishingResistant_iff.mp (hlevel.2 h), hrecent⟩
      · intro h
        simp only [Bool.and_eq_true, Bool.not_eq_true', Bool.or_eq_true, not_or, not_and,
          Bool.not_eq_false, decide_eq_true_eq]
        exact ⟨h.enrolled, not_not.mpr h.active,
          ⟨h.level, fun hreq => phishingResistant_iff.mpr (h.resistant hreq)⟩, h.recent, trivial⟩

/-- How strict a floor is: one that is not defined counts as the strictest. -/
def floorLevel (tenantFloor : String) : Aal := (Aal.parse tenantFloor).getD .aal3

def requiredLevel (level : String) : Aal :=
  if level = "L1" then .aal1 else if level = "L2" then .aal2 else .aal3

theorem requiredAAL_eq (level : String) : requiredAAL level = (requiredLevel level).text := by
  unfold requiredAAL requiredLevel
  split_ifs <;> rfl

theorem eq_text_of_parse {a : String} {r : Aal} (h : Aal.parse a = some r) : a = r.text := by
  unfold Aal.parse at h
  split_ifs at h with h1 h2 h3
  · rw [h1, ← Option.some.inj h]
    rfl
  · rw [h2, ← Option.some.inj h]
    rfl
  · rw [h3, ← Option.some.inj h]
    rfl

theorem textAtLeast_text (a : String) (r : Aal) :
    Aal.textAtLeast a r.text = true ↔ ∃ ra : Aal, a = ra.text ∧ r.rank ≤ ra.rank := by
  unfold Aal.textAtLeast
  rw [Aal.parse_text]
  cases ha : Aal.parse a with
  | none =>
    refine iff_of_false Bool.false_ne_true ?_
    rintro ⟨ra, rfl, -⟩
    rw [Aal.parse_text] at ha
    cases ha
  | some ra =>
    obtain rfl := eq_text_of_parse ha
    constructor
    · intro h
      exact ⟨ra, rfl, of_decide_eq_true h⟩
    · rintro ⟨ra', heq, hle⟩
      rw [heq, Aal.parse_text] at ha
      obtain rfl := Option.some.inj ha
      exact decide_eq_true hle

theorem effectiveAAL_eq (level floor : String) :
    ∃ e : Aal, effectiveAAL level floor = e.text ∧
      e.rank = max (requiredLevel level).rank (floorLevel floor).rank := by
  have hmax (a : Aal) : max a.rank Aal.aal3.rank = Aal.aal3.rank := by cases a <;> rfl
  cases hf : Aal.parse floor with
  | none =>
    refine ⟨.aal3, by simp [effectiveAAL, hf, Aal.text], ?_⟩
    rw [floorLevel, hf]
    exact (hmax _).symm
  | some f =>
    have hfloor : floor = f.text := eq_text_of_parse hf
    have hlevel : floorLevel floor = f := by
      rw [floorLevel, hf]
      rfl
    have hreq := textAtLeast_text floor (requiredLevel level)
    rw [effectiveAAL, hf, requiredAAL_eq, hlevel]
    by_cases hle : (requiredLevel level).rank ≤ f.rank
    · refine ⟨f, ?_, (max_eq_right hle).symm⟩
      rw [if_neg (by simp), if_pos (hreq.mpr ⟨f, hfloor, hle⟩)]
      exact hfloor
    · refine ⟨requiredLevel level, ?_, (max_eq_left (not_le.mp hle).le).symm⟩
      rw [if_neg (by simp), if_neg]
      rw [hreq]
      rintro ⟨f', hf', hle'⟩
      rw [hfloor] at hf'
      have hsame : Aal.parse f.text = Aal.parse f'.text := by rw [hf']
      rw [Aal.parse_text, Aal.parse_text] at hsame
      exact hle (Option.some.inj hsame ▸ hle')

theorem rank_eq_three {a : Aal} : a.text = "aal3" ↔ a.rank = 3 := by
  cases a <;> decide

theorem rank_le_three (a : Aal) : a.rank ≤ 3 := by
  cases a <;> decide

theorem Admits.of_floor_le (h : Admits op s floor' now)
    (hfloor : (floorLevel floor).rank ≤ (floorLevel floor').rank) : Admits op s floor now := by
  obtain ⟨e, he, hrank⟩ := effectiveAAL_eq op.level floor
  obtain ⟨e', he', hrank'⟩ := effectiveAAL_eq op.level floor'
  have hle : e.rank ≤ e'.rank := by
    rw [hrank, hrank']
    exact max_le_max le_rfl hfloor
  have hlevel := h.level
  have hresistant := h.resistant
  rw [he', textAtLeast_text] at hlevel
  rw [he'] at hresistant
  refine ⟨h.enrolled, h.active, ?_, ?_, h.recent⟩
  · obtain ⟨r, hr, hproven⟩ := hlevel
    rw [he, textAtLeast_text]
    exact ⟨r, hr, hle.trans hproven⟩
  · rw [he, rank_eq_three]
    intro hthree
    have hthree' : e'.rank = 3 := le_antisymm (rank_le_three e') (hthree ▸ hle)
    exact hresistant (rank_eq_three.mpr hthree')

/-- The assurance of a session goes up: its level, its methods, or the instant of its
authentication, which is neither in the future nor the zero instant of a session that has none. -/
structure Raises (s s' : AuthSession) (now : Time) : Prop where
  status : s'.status = s.status
  enrollmentRequired : s'.enrollmentRequired = s.enrollmentRequired
  provenAAL : s'.provenAAL = s.provenAAL ∨ Aal.textAtLeast s'.provenAAL s.provenAAL = true
  authMethods : s.authMethods ⊆ s'.authMethods
  authTime : s'.authTime = s.authTime ∨
    (s.authTime < s'.authTime ∧ s'.authTime ≤ now ∧ s'.authTime ≠ Time.zero)

theorem fresh_mono {level : String} {t t' : Time} (h : fresh level t now = true) (hlt : t < t')
    (hnow : t' ≤ now) (hzero : t' ≠ Time.zero) : fresh level t' now = true := by
  unfold fresh at h ⊢
  cases hreq : requiresFreshness level with
  | false => rfl
  | true =>
    simp only [hreq, Bool.not_true, Bool.false_eq_true, if_false, hzero] at h ⊢
    split_ifs at h with h₁ h₂
    have hage : Time.sub now t' ≤ Time.sub now t :=
      max_le_max le_rfl (min_le_min le_rfl (by lia))
    have hpos : 0 ≤ Time.sub now t' := le_max_of_le_right (le_min (by decide) (by lia))
    rw [if_neg hpos.not_gt]
    exact decide_eq_true (hage.trans (of_decide_eq_true h))

theorem Admits.of_raises (h : Admits op s floor now) (hraises : Raises s s' now) :
    Admits op s' floor now := by
  refine ⟨?_, hraises.status.trans h.active, ?_, ?_, ?_⟩
  · rw [hraises.enrollmentRequired]
    exact h.enrolled
  · rcases hraises.provenAAL with heq | hle
    · rw [heq]
      exact h.level
    · obtain ⟨e, he, -⟩ := effectiveAAL_eq op.level floor
      have hlevel := h.level
      rw [he, textAtLeast_text] at hlevel ⊢
      obtain ⟨r, hr, hproven⟩ := hlevel
      rw [hr, textAtLeast_text] at hle
      obtain ⟨r', hr', hhigher⟩ := hle
      exact ⟨r', hr', hproven.trans hhigher⟩
  · intro hreq
    exact hraises.authMethods (h.resistant hreq)
  · rcases hraises.authTime with heq | ⟨hlt, hnow, hzero⟩
    · rw [heq]
      exact h.recent
    · exact fresh_mono h.recent hlt hnow hzero

theorem fresh_l3 {t : Time} (h : fresh "L3" t now = true) :
    t ≠ Time.zero ∧ 0 ≤ Time.sub now t ∧ Time.sub now t ≤ freshnessL3Window := by
  have hlevel : requiresFreshness "L3" = true := by decide
  unfold fresh at h
  simp only [hlevel, Bool.not_true, Bool.false_eq_true, if_false] at h
  split_ifs at h with h₁ h₂
  exact ⟨h₁, not_lt.mp h₂, of_decide_eq_true h⟩

theorem Admits.l3 (h : Admits op s floor now) (hlevel : op.level = "L3") :
    s.status = sessionActive ∧ factorWebAuthn ∈ s.authMethods ∧ s.authTime ≠ Time.zero ∧
      0 ≤ Time.sub now s.authTime ∧ Time.sub now s.authTime ≤ freshnessL3Window := by
  obtain ⟨e, he, hrank⟩ := effectiveAAL_eq op.level floor
  have hthree : e.rank = 3 := by
    have hmax : (requiredLevel op.level).rank ≤ e.rank := hrank ▸ le_max_left _ _
    rw [hlevel] at hmax
    exact le_antisymm (rank_le_three e) hmax
  have hrecent := h.recent
  rw [hlevel] at hrecent
  exact ⟨h.active, h.resistant (he.trans (rank_eq_three.mpr hthree)), fresh_l3 hrecent⟩

end Laws

/-- What the guard allows it allows for good reason, and it goes on allowing it for a session of
higher assurance and in a tenant with a lower floor. -/
theorem guard_sound_monotone (catalog : OperationCatalog) (operationID : String) (floor : String)
    (now : Time) :
    (∀ session op, catalog.lookup operationID = some op → op.level = "L3" →
      authorize catalog operationID session floor now = .ok () →
        ∃ s, session = some s ∧ s.status = sessionActive ∧ factorWebAuthn ∈ s.authMethods ∧
          s.authTime ≠ Time.zero ∧ 0 ≤ Time.sub now s.authTime ∧
          Time.sub now s.authTime ≤ freshnessL3Window) ∧
    (∀ s s', Raises s s' now → authorize catalog operationID (some s) floor now = .ok () →
      authorize catalog operationID (some s') floor now = .ok ()) ∧
    ∀ session floor', (floorLevel floor).rank ≤ (floorLevel floor').rank →
      authorize catalog operationID session floor' now = .ok () →
        authorize catalog operationID session floor now = .ok () := by
  refine ⟨?_, ?_, ?_⟩
  · intro session op hop hlevel hok
    obtain ⟨op', s, hop', hs, hadmits⟩ := authorize_eq_ok.mp hok
    obtain rfl := Option.some.inj (hop.symm.trans hop')
    exact ⟨s, hs, hadmits.l3 hlevel⟩
  · intro s s' hraises hok
    obtain ⟨op, s₀, hop, hs, hadmits⟩ := authorize_eq_ok.mp hok
    obtain rfl := Option.some.inj hs
    exact authorize_eq_ok.mpr ⟨op, s', hop, rfl, hadmits.of_raises hraises⟩
  · intro session floor' hfloor hok
    obtain ⟨op, s, hop, hs, hadmits⟩ := authorize_eq_ok.mp hok
    exact authorize_eq_ok.mpr ⟨op, s, hop, hs, hadmits.of_floor_le hfloor⟩

/-- An operation of a sample catalog, and a session that authenticated a second before year 1. -/
def changeData : Operation := ⟨"data.change", "L2", false⟩

def sampleCatalog : OperationCatalog where
  ops := [changeData]
  distinct := List.nodup_singleton _
  classified := by
    intro op hop
    rw [List.mem_singleton.mp hop]
    decide

def secondBefore : AuthSession :=
  ⟨some 1, some 2, sessionActive, "aal2", Time.zero-10^9, ["password", "totp"], false⟩

/-- A later authentication at the very instant that stands for none is refused. -/
theorem zero_instant_denied :
    secondBefore.authTime < Time.zero ∧ Time.zero ≤ Time.zero+10^9 ∧
      authorize sampleCatalog "data.change" (some secondBefore) "aal1" (Time.zero+10^9) = .ok () ∧
      authorize sampleCatalog "data.change" (some { secondBefore with authTime := Time.zero })
        "aal1" (Time.zero+10^9) ≠ .ok () := by
  decide

end ArchGuard.Guard
