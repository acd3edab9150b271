import ArchGuard.ApiFilter
import ArchGuard.IpRules

/-! The runner of the rules, and compound rules, which call it for the rules that they refer to. -/
namespace ArchGuard.Rules
open GoStrconv GoText

structure Rule where
  owner : GoString
  name : GoString
  type : GoString
  expressions : List Expression
  action : GoString
  statusCode : ℤ
  reason : GoString
  isVerbose : Bool
  deriving DecidableEq, Repr

def Rule.getId (rule : Rule) : GoString := Object.getId rule.owner rule.name

inductive RuleType
  | userAgent | ip | waf | ipRateLimiting | compound
  deriving DecidableEq, Repr

def RuleType.text : RuleType → GoString
  | .userAgent => utf8 "User-Agent"
  | .ip => utf8 "IP"
  | .waf => utf8 "WAF"
  | .ipRateLimiting => utf8 "IP Rate Limiting"
  | .compound => utf8 "Compound"

def Rule.ruleType (rule : Rule) : Option RuleType :=
  [.userAgent, .ip, .waf, .ipRateLimiting, .compound].find? fun (t : RuleType) => t.text = rule.type

/-- What the rules call outside of the repository, and the clock. -/
structure Engines (L R : Type) where
  matchString : (pattern text : GoString) → Except GoString Bool
  isAbroadIp : GoString → Bool
  waf : (expressions : List Expression) → Request → Except Failure (Option RuleResult)
  rateLimit : RateLimit L R
  clock : ℕ → Time

/-- What the calls change: the limiters, and how often the clock has been read. -/
structure World (L R : Type) where
  rate : RateState L R
  ticks : ℕ

/-- What a call came to, and what it left. -/
abbrev Outcome (L R α : Type) := Except Failure α × World L R

section UserAgent

/-- Whether one expression of a User-Agent rule hits; an unknown operator never does. -/
def uaHits (matchString : GoString → GoString → Except GoString Bool) (userAgent : GoString)
    (e : Expression) : Except GoString Bool :=
  if e.operator = utf8 "contains" then .ok (LegacyApi.contains userAgent e.value)
  else if e.operator = utf8 "does not contain" then .ok (!LegacyApi.contains userAgent e.value)
  else if e.operator = utf8 "equals" then .ok (userAgent = e.value)
  else if e.operator = utf8 "does not equal" then .ok (userAgent ≠ e.value)
  else if e.operator = utf8 "match" then matchString e.value userAgent
  else .ok false

/-- `UaRule.checkRule`. -/
def checkUaRule (matchString : GoString → GoString → Except GoString Bool) (userAgent : GoString) :
    List Expression → Except Failure (Option RuleResult)
  | [] => .ok none
  | e :: es =>
    match uaHits matchString userAgent e with
    | .error err => .error (.error err)
    | .ok true => .ok (some ⟨[], 0, matchedReason userAgent e⟩)
    | .ok false => checkUaRule matchString userAgent es

end UserAgent

section Runner

variable {L R : Type} [DecidableEq R] (eng : Engines L R) (req : Request)

def checkLeaf (kind : RuleType) (rule : Rule) (w : World L R) : Outcome L R (Option RuleResult) :=
  match kind with
  | .userAgent => (checkUaRule eng.matchString req.userAgent rule.expressions, w)
  | .ip => (checkIpRule eng.isAbroadIp rule.expressions req, w)
  | .waf => (eng.waf rule.expressions req, w)
  | .ipRateLimiting =>
    let c : Call := ⟨getClientIp req, eng.clock w.ticks, eng.clock (w.ticks+1)⟩
    let out := checkIpRateRule eng.rateLimit rule.getId rule.expressions c w.rate
    (out.1, ⟨out.2, w.ticks+2⟩)
  | .compound => (.ok none, w)

def generateVerboseReason (ruleId expressionReason customReason : GoString) : GoString :=
  utf8 "Rule [" ++ ruleId ++ utf8 "] triggered" ++
    (if expressionReason ≠ [] then utf8 " - " ++ expressionReason else []) ++
    (if customReason ≠ [] then utf8 " - Custom reason: " ++ customReason else [])

def allow : GoString := utf8 "Allow"

/-- The status code of an action that has none of its own. -/
def defaultStatus (action : GoString) : Option ℤ :=
  if action = utf8 "Block" then some 403
  else if action = utf8 "Drop" then some 400
  else if action = allow then some 200
  else if action = utf8 "CAPTCHA" then some 302
  else none

/-- The action of a hit: the rule's own where the check has named none. -/
def actionOf (rule : Rule) (result : RuleResult) : GoString :=
  if result.action = [] then rule.action else result.action

def statusOf (rule : Rule) (result : RuleResult) : Option ℤ :=
  if result.statusCode ≠ 0 then some result.statusCode
  else if rule.statusCode ≠ 0 then some rule.statusCode
  else defaultStatus (actionOf rule result)

def reasonOf (ruleId : GoString) (rule : Rule) (result : RuleResult) : GoString :=
  if actionOf rule result = utf8 "Block" ∨ actionOf rule result = utf8 "Drop" then
    if rule.isVerbose then generateVerboseReason rule.getId result.reason rule.reason
    else if rule.reason ≠ [] then rule.reason
    else if result.reason ≠ [] then utf8 "hit rule " ++ ruleId ++ utf8 ": " ++ result.reason
    else result.reason
  else result.reason

/-- What `CheckRules` makes of a hit. -/
def verdict (ruleId : GoString) (rule : Rule) (result : RuleResult) : Except Failure RuleResult :=
  match statusOf rule result with
  | some status => .ok ⟨actionOf rule result, status, reasonOf ruleId rule result⟩
  | none => .error (.error (utf8 "unknown rule action: " ++ actionOf rule result ++
      utf8 " for rule: " ++ rule.getId))

def nothingMatched : RuleResult := ⟨allow, 200, []⟩

inductive Connective
  | and | or
  deriving DecidableEq, Repr

def connective (operator : GoString) : Option Connective :=
  if operator = utf8 "and" ∨ operator = utf8 "begin" then some .and
  else if operator = utf8 "or" then some .or
  else none

/-- One turn on the stack of a compound rule: "or" pushes what there was, which is popped again in
the same turn. -/
def turn (op : Connective) (operators : List Bool) (res isHit : Bool) : Bool :=
  match op with
  | .and => operators.foldl (fun res last => last || res) (res && isHit)
  | .or => (res :: operators).foldl (fun res last => last || res) isHit

/-- The loop of `CompoundRule.checkRule`; `check` is `CheckRules`, and `none` while it runs. -/
def checkCompound (check : List GoString → World L R → Option (Outcome L R RuleResult)) :
    List Expression → (res : Bool) → World L R → Option (Outcome L R (Option RuleResult))
  | [], res, w => some (.ok (if res then some ⟨[], 0, []⟩ else none), w)
  | e :: es, res, w =>
    match check [e.value] w with
    | none => none
    | some (.error failure, w') => some (.error failure, w')
    | some (.ok result, w') =>
      match connective e.operator with
      | none => some (.error (.error (utf8 "unknown operator: " ++ e.operator)), w')
      | some op => checkCompound check es (turn op [] res (result.action ≠ [])) w'

def checkRule (check : List GoString → World L R → Option (Outcome L R RuleResult)) (rule : Rule)
    (w : World L R) : Option (Outcome L R (Option RuleResult)) :=
  match rule.ruleType with
  | none => some (.error (.error (utf8 "unknown rule type: " ++ rule.type ++ utf8 " for rule: " ++
      rule.getId)), w)
  | some .compound => checkCompound check rule.expressions true w
  | some kind => some (checkLeaf eng req kind rule w)

/-- The loop of `CheckRules`: the first rule with a result decides. -/
def checkEach (check : List GoString → World L R → Option (Outcome L R RuleResult)) :
    List (GoString × Rule) → World L R → Option (Outcome L R RuleResult)
  | [], w => some (.ok nothingMatched, w)
  | (ruleId, rule) :: rules, w =>
    match checkRule eng req check rule w with
    | none => none
    | some (.error failure, w') => some (.error failure, w')
    | some (.ok none, w') => checkEach check rules w'
    | some (.ok (some result), w') => some (verdict ruleId rule result, w')

/-- `GetRulesByRuleIds`, each rule with its id. -/
def getRulesByRuleIds (ruleMap : GoString → Option Rule) (ids : List GoString) :
    Except Failure (List (GoString × Rule)) :=
  ids.mapM fun id =>
    match ruleMap id with
    | none => .error (.error (utf8 "rule: " ++ id ++ utf8 " not found"))
    | some rule => .ok (id, rule)

/-- `CheckRules`: `none` while the calls are nested deeper than `fuel`. -/
def checkRules (ruleMap : GoString → Option Rule) : (fuel : ℕ) → List GoString → World L R →
    Option (Outcome L R RuleResult)
  | 0, _, _ => none
  | fuel+1, ids, w =>
    match getRulesByRuleIds ruleMap ids with
    | .error failure => some (.error failure, w)
    | .ok rules => checkEach eng req (checkRules ruleMap fuel) rules w

end Runner

section Combination

variable {L R : Type} [DecidableEq R] {eng : Engines L R} {req : Request}
  {ruleMap : GoString → Option Rule} {rule : Rule} {kind : RuleType} {e : Expression}
  {es : List Expression} {w w' : World L R} {fuel : ℕ}

/-- A reference of a compound rule, with what the check of the rule came to. -/
structure Reference where
  op : Connective
  rule : Rule
  result : Option RuleResult
  deriving DecidableEq, Repr

/-- Every referenced rule is there, is not compound, and is checked without an error. -/
inductive LeafRun (eng : Engines L R) (req : Request) (ruleMap : GoString → Option Rule) :
    List Expression → World L R → List Reference → World L R → Prop
  | nil (w : World L R) : LeafRun eng req ruleMap [] w [] w
  | cons {e : Expression} {es : List Expression} {rule : Rule} {kind : RuleType} {op : Connective}
      {result : Option RuleResult} {w w' w'' : World L R} {refs : List Reference} :
      ruleMap e.value = some rule → rule.ruleType = some kind → kind ≠ .compound →
      connective e.operator = some op → checkLeaf eng req kind rule w = (.ok result, w') →
      LeafRun eng req ruleMap es w' refs w'' →
      LeafRun eng req ruleMap (e :: es) w (⟨op, rule, result⟩ :: refs) w''

def combination (holds : Reference → Bool) (refs : List Reference) (res : Bool) : Bool :=
  refs.foldl (fun res r => match r.op with | .and => res && holds r | .or => res || holds r) res

/-- The referenced rule matches the request. -/
def Reference.found (r : Reference) : Bool := r.result.isSome

/-- What the compound rule counts as a hit: no match is the action "Allow", and a match has an
action unless it ends without one. -/
def Reference.counted (r : Reference) : Bool := r.result.all fun result => actionOf r.rule result ≠ []

/-- The rule matches and ends in an action that has no status code. -/
def Reference.unfit (r : Reference) : Bool :=
  r.result.any fun result => (statusOf r.rule result).isNone

@[simp]
theorem turn_nil (op : Connective) (res isHit : Bool) : turn op [] res isHit =
    match op with | .and => res && isHit | .or => res || isHit := by
  cases op <;> rfl

/-- What `CheckRules` says of one rule. -/
def answer (ruleId : GoString) (rule : Rule) : Option RuleResult → Except Failure RuleResult
  | none => .ok nothingMatched
  | some result => verdict ruleId rule result

theorem checkRules_leaf {id : GoString} {result : Option RuleResult} (hmap : ruleMap id = some rule)
    (hkind : rule.ruleType = some kind) (hleaf : kind ≠ .compound)
    (hcheck : checkLeaf eng req kind rule w = (.ok result, w')) :
    checkRules eng req ruleMap (fuel+1) [id] w = some (answer id rule result, w') := by
  have hrules : getRulesByRuleIds ruleMap [id] = .ok [(id, rule)] := by
    simp [getRulesByRuleIds, hmap, pure, Except.pure, bind, Except.bind]
  have hrule (check : List GoString → World L R → Option (Outcome L R RuleResult)) :
      checkRule eng req check rule w = some (.ok result, w') := by
    rw [checkRule, hkind]
    cases kind with
    | compound => exact absurd rfl hleaf
    | userAgent => exact congrArg some hcheck
    | ip => exact congrArg some hcheck
    | waf => exact congrArg some hcheck
    | ipRateLimiting => exact congrArg some hcheck
  rw [checkRules, hrules]
  dsimp only
  rw [checkEach, hrule]
  cases result <;> rfl

theorem answer_cases (rule : Rule) (op : Connective) (id : GoString) (result : Option RuleResult) :
    ((Reference.mk op rule result).unfit → ∃ failure, answer id rule result = .error failure) ∧
      (¬(Reference.mk op rule result).unfit → ∃ said, answer id rule result = .ok said ∧
        decide (said.action ≠ []) = (Reference.mk op rule result).counted) := by
  cases result with
  | none =>
    have hallow : decide (nothingMatched.action ≠ []) = true := by decide
    exact ⟨fun h => Bool.noConfusion h, fun _ => ⟨_, rfl, hallow⟩⟩
  | some result =>
    simp only [Reference.unfit, Reference.counted, Option.any_some, Option.all_some, answer, verdict]
    cases statusOf rule result with
    | none => exact ⟨fun _ => ⟨_, rfl⟩, fun h => absurd rfl h⟩
    | some status => exact ⟨fun h => Bool.noConfusion h, fun _ => ⟨_, rfl, rfl⟩⟩

/-- One turn of the loop over a rule that is not compound: it fails, or goes on with what the
reference counts for. -/
theorem checkCompound_leaf (fuel : ℕ) (es : List Expression) (res : Bool) {op : Connective}
    {result : Option RuleResult} (hmap : ruleMap e.value = some rule) (hkind : rule.ruleType = some kind)
    (hleaf : kind ≠ .compound) (hop : connective e.operator = some op)
    (hcheck : checkLeaf eng req kind rule w = (.ok result, w')) :
    ((Reference.mk op rule result).unfit → ∃ failure,
        checkCompound (checkRules eng req ruleMap (fuel+1)) (e :: es) res w =
          some (.error failure, w')) ∧
      (¬(Reference.mk op rule result).unfit →
        checkCompound (checkRules eng req ruleMap (fuel+1)) (e :: es) res w =
          checkCompound (checkRules eng req ruleMap (fuel+1)) es
            (combination Reference.counted [⟨op, rule, result⟩] res) w') := by
  obtain ⟨hunfit, hfit⟩ := answer_cases rule op e.value result
  rw [checkCompound, checkRules_leaf hmap hkind hleaf hcheck]
  constructor
  · intro h
    obtain ⟨failure, hanswer⟩ := hunfit h
    exact ⟨failure, by rw [hanswer]⟩
  · intro h
    obtain ⟨said, hanswer, haction⟩ := hfit h
    rw [hanswer]
    dsimp only
    rw [hop]
    dsimp only
    rw [haction, turn_nil]
    rfl

theorem checkCompound_run (fuel : ℕ) {refs : List Reference}
    (hrun : LeafRun eng req ruleMap es w refs w') (res : Bool) :
    ((∃ r ∈ refs, r.unfit) → ∃ failure w'',
        checkCompound (checkRules eng req ruleMap (fuel+1)) es res w = some (.error failure, w'')) ∧
      ((∀ r ∈ refs, ¬r.unfit) →
        checkCompound (checkRules eng req ruleMap (fuel+1)) es res w =
          some (.ok (if combination Reference.counted refs res then some ⟨[], 0, []⟩ else none),
            w')) := by
  induction hrun generalizing res with
  | nil w => exact ⟨by simp, fun _ => rfl⟩
  | @cons e es rule kind op result w w1 w2 refs hmap hkind hleaf hop hcheck _ ih =>
    obtain ⟨hfail, hgo⟩ := checkCompound_leaf fuel es res hmap hkind hleaf hop hcheck
    rw [List.exists_mem_cons_iff, List.forall_mem_cons]
    by_cases hunfit : (Reference.mk op rule result).unfit
    · obtain ⟨failure, h⟩ := hfail hunfit
      exact ⟨fun _ => ⟨failure, w1, h⟩, fun h' => absurd hunfit h'.1⟩
    · obtain ⟨hfails, hgoes⟩ := ih (combination Reference.counted [⟨op, rule, result⟩] res)
      rw [hgo hunfit]
      exact ⟨fun h' => hfails (h'.resolve_left hunfit), fun h' => hgoes h'.2⟩

def CompoundHits (eng : Engines L R) (req : Request) (ruleMap : GoString → Option Rule) (fuel : ℕ)
    (es : List Expression) (w : World L R) : Prop :=
  ∃ result w', checkCompound (checkRules eng req ruleMap (fuel+1)) es true w =
    some (.ok (some result), w')

/-- A compound rule over rules that are not compound hits as the combination of their matches says,
exactly if that combination is the same with everything that is counted as a hit, and false where a
matching rule's action has no status code. -/
theorem compound_means_iff {refs : List Reference} (hrun : LeafRun eng req ruleMap es w refs w') :
    (CompoundHits eng req ruleMap fuel es w ↔ combination Reference.found refs true = true) ↔
      ((∃ r ∈ refs, r.unfit) → combination Reference.found refs true = false) ∧
        ((∀ r ∈ refs, ¬r.unfit) →
          combination Reference.found refs true = combination Reference.counted refs true) := by
  obtain ⟨hfail, hgo⟩ := checkCompound_run fuel hrun true
  by_cases hunfit : ∃ r ∈ refs, r.unfit
  · obtain ⟨failure, w'', h⟩ := hfail hunfit
    have hnot : ¬CompoundHits eng req ruleMap fuel es w := by
      rintro ⟨result, w1, hhits⟩
      cases h.symm.trans hhits
    rw [iff_false_left hnot]
    simp [hunfit]
  · have hall : ∀ r ∈ refs, ¬r.unfit := fun r hr hru => hunfit ⟨r, hr, hru⟩
    have hhits : CompoundHits eng req ruleMap fuel es w ↔
        combination Reference.counted refs true = true := by
      rw [CompoundHits, hgo hall]
      cases combination Reference.counted refs true <;> simp
    rw [hhits, Bool.coe_iff_coe]
    exact ⟨fun h => ⟨fun h' => absurd h' hunfit, fun _ => h.symm⟩, fun h => (h.2 hall).symm⟩

theorem combination_of_all {holds : Reference → Bool} {refs : List Reference}
    (h : ∀ r ∈ refs, holds r) : combination holds refs true = true := by
  induction refs with
  | nil => rfl
  | cons r refs ih =>
    obtain ⟨hr, hrefs⟩ := List.forall_mem_cons.mp h
    have hturn : combination holds (r :: refs) true = combination holds refs true := by
      rw [combination, List.foldl_cons, hr]
      cases r.op <;> rfl
    rw [hturn, ih hrefs]

theorem compound_hits_of_actions {refs : List Reference}
    (hrun : LeafRun eng req ruleMap es w refs w') (hfit : ∀ r ∈ refs, ¬r.unfit)
    (haction : ∀ r ∈ refs, r.rule.action ≠ []) : CompoundHits eng req ruleMap fuel es w := by
  have hcounted : ∀ r ∈ refs, r.counted := by
    intro r hr
    rw [Reference.counted, Option.all_eq_true]
    intro result _
    rw [actionOf]
    split
    · simpa using haction r hr
    · simpa using ‹_›
  refine ⟨⟨[], 0, []⟩, w', ?_⟩
  rw [(checkCompound_run fuel hrun true).2 hfit, combination_of_all hcounted, if_pos rfl]

end Combination

namespace Sample

def engines : Engines (Option Time) ℤ :=
  ⟨fun _ _ => .ok false, fun _ => false, fun _ _ => .ok none, oncePerSecond, fun n => n⟩

/-- A request that names an "x" in its user agent is blocked. -/
def agentRule : Rule :=
  ⟨[1], [2], RuleType.userAgent.text, [⟨[], utf8 "contains", [120]⟩], utf8 "Block", 0, [], false⟩

/-- The same for a "y". -/
def otherRule : Rule := { agentRule with expressions := [⟨[], utf8 "contains", [121]⟩] }

def ruleMap (id : GoString) : Option Rule :=
  if id = [9] then some agentRule else if id = [8] then some otherRule else none

/-- A compound rule over the first rule alone, and one that has the second as an alternative. -/
def references : List Expression := [⟨[], utf8 "begin", [9]⟩]

def alternatives : List Expression := [⟨[], utf8 "begin", [9]⟩, ⟨[], utf8 "or", [8]⟩]

def agent (userAgent : GoString) : Request := ⟨[], [], [], userAgent⟩

def start : World (Option Time) ℤ := ⟨idle, 0⟩

theorem agent_checked : agentRule.ruleType = some .userAgent ∧
    connective (utf8 "begin") = some .and ∧
    checkUaRule engines.matchString [120] agentRule.expressions =
      .ok (some ⟨[], 0, matchedReason [120] ⟨[], utf8 "contains", [120]⟩⟩) ∧
    checkUaRule engines.matchString [121] agentRule.expressions = .ok none ∧
    agentRule.action ≠ [] ∧ defaultStatus agentRule.action = some 403 := by
  decide

theorem other_checked : otherRule.ruleType = some .userAgent ∧
    connective (utf8 "or") = some .or ∧
    checkUaRule engines.matchString [120] otherRule.expressions = .ok none := by
  decide

theorem agent_run {userAgent : GoString} {result : Option RuleResult}
    (h : checkUaRule engines.matchString userAgent agentRule.expressions = .ok result) :
    LeafRun engines (agent userAgent) ruleMap references start [⟨.and, agentRule, result⟩] start := by
  obtain ⟨hkind, hop, -⟩ := agent_checked
  have hcheck : checkLeaf engines (agent userAgent) .userAgent agentRule start =
      (.ok result, start) := by
    rw [checkLeaf]
    exact congrArg (·, start) h
  exact .cons rfl hkind (by decide) hop hcheck (.nil start)

theorem alternatives_run {result : Option RuleResult}
    (h : checkUaRule engines.matchString [120] agentRule.expressions = .ok result) :
    LeafRun engines (agent [120]) ruleMap alternatives start
      [⟨.and, agentRule, result⟩, ⟨.or, otherRule, none⟩] start := by
  obtain ⟨hkind, hop, -⟩ := agent_checked
  obtain ⟨hotherKind, hor, hother⟩ := other_checked
  have hcheck : checkLeaf engines (agent [120]) .userAgent agentRule start = (.ok result, start) := by
    rw [checkLeaf]
    exact congrArg (·, start) h
  have hotherCheck : checkLeaf engines (agent [120]) .userAgent otherRule start =
      (.ok none, start) := by
    rw [checkLeaf]
    exact congrArg (·, start) hother
  exact .cons rfl hkind (by decide) hop hcheck
    (.cons rfl hotherKind (by decide) hor hotherCheck (.nil start))

end Sample

/-- The request that one of two alternatives matches hits. -/
theorem agent_hits :
    CompoundHits Sample.engines (Sample.agent [120]) Sample.ruleMap 0 Sample.alternatives
      Sample.start := by
  obtain ⟨-, -, hfound, -, haction, hstatus⟩ := Sample.agent_checked
  refine (compound_means_iff (Sample.alternatives_run hfound)).mpr ⟨?_, fun _ => ?_⟩ |>.mpr rfl
  · rintro ⟨r, hr, hunfit⟩
    rcases List.mem_pair.mp hr with rfl | rfl
    · simp [Reference.unfit, statusOf, actionOf, hstatus,
        show Sample.agentRule.statusCode = 0 from rfl] at hunfit
    · cases hunfit
  · simp [combination, Reference.found, Reference.counted, actionOf, haction]

/-- So does the one that no rule matches. -/
theorem unmatched_compound_hits : ¬∀ (eng : Engines (Option Time) ℤ) (req : Request)
    (ruleMap : GoString → Option Rule) (es : List Expression) (w w' : World (Option Time) ℤ)
    (refs : List Reference), LeafRun eng req ruleMap es w refs w' →
      (CompoundHits eng req ruleMap 0 es w ↔ combination Reference.found refs true = true) := by
  intro h
  obtain ⟨-, -, -, hnone, haction, -⟩ := Sample.agent_checked
  have hrun := Sample.agent_run hnone
  have hhits : CompoundHits Sample.engines (Sample.agent [121]) Sample.ruleMap 0 Sample.references
      Sample.start := by
    refine compound_hits_of_actions hrun (List.forall_mem_singleton.mpr Bool.false_ne_true) ?_
    exact List.forall_mem_singleton.mpr haction
  exact Bool.false_ne_true ((h _ _ _ _ _ _ _ hrun).mp hhits)

section Termination

variable {L R : Type} [DecidableEq R] {eng : Engines L R} {req : Request}
  {ruleMap : GoString → Option Rule} {rule rule' : Rule} {es pre post : List Expression}
  {w w' w'' : World L R} {fuel fuel' : ℕ}

/-- A runner that comes back wherever another one does, with the same outcome. -/
def Extends (check check' : List GoString → World L R → Option (Outcome L R RuleResult)) : Prop :=
  ∀ ids w out, check ids w = some out → check' ids w = some out

variable {check check' : List GoString → World L R → Option (Outcome L R RuleResult)}

omit [DecidableEq R] in
theorem Extends.checkCompound (h : Extends check check') {res : Bool}
    {out : Outcome L R (Option RuleResult)} (hout : checkCompound check es res w = some out) :
    checkCompound check' es res w = some out := by
  induction es generalizing res w with
  | nil => exact hout
  | cons e es ih =>
    rw [Rules.checkCompound] at hout ⊢
    cases hsaid : check [e.value] w with
    | none =>
      rw [hsaid] at hout
      cases hout
    | some said =>
      rw [h _ _ _ hsaid]
      rw [hsaid] at hout
      obtain ⟨said, w'⟩ := said
      cases said with
      | error failure => exact hout
      | ok result =>
        dsimp only at hout ⊢
        cases hop : connective e.operator with
        | none =>
          rw [hop] at hout
          exact hout
        | some op =>
          rw [hop] at hout
          exact ih hout

theorem Extends.checkRule (h : Extends check check') {out : Outcome L R (Option RuleResult)}
    (hout : checkRule eng req check rule w = some out) :
    checkRule eng req check' rule w = some out := by
  unfold Rules.checkRule at hout ⊢
  cases hkind : rule.ruleType with
  | none =>
    rw [hkind] at hout
    exact hout
  | some kind =>
    rw [hkind] at hout
    cases kind with
    | compound => exact h.checkCompound hout
    | userAgent => exact hout
    | ip => exact hout
    | waf => exact hout
    | ipRateLimiting => exact hout

theorem Extends.checkEach (h : Extends check check') {rules : List (GoString × Rule)}
    {out : Outcome L R RuleResult} (hout : checkEach eng req check rules w = some out) :
    checkEach eng req check' rules w = some out := by
  induction rules generalizing w with
  | nil => exact hout
  | cons r rules ih =>
    obtain ⟨id, rule⟩ := r
    rw [Rules.checkEach] at hout ⊢
    cases hsaid : Rules.checkRule eng req check rule w with
    | none =>
      rw [hsaid] at hout
      cases hout
    | some said =>
      rw [h.checkRule hsaid]
      rw [hsaid] at hout
      obtain ⟨said, w'⟩ := said
      cases said with
      | error failure => exact hout
      | ok result =>
        cases result with
        | none => exact ih hout
        | some result => exact hout

theorem checkRules_extends (hle : fuel ≤ fuel') :
    Extends (checkRules eng req ruleMap fuel) (checkRules eng req ruleMap fuel') := by
  induction fuel generalizing fuel' with
  | zero => exact fun ids w out h => by cases h
  | succ fuel ih =>
    obtain ⟨fuel', rfl⟩ := Nat.exists_eq_add_of_le' (Nat.lt_of_lt_of_le fuel.succ_pos hle)
    intro ids w out h
    rw [checkRules] at h ⊢
    split at h
    · exact h
    · exact (ih (Nat.le_of_succ_le_succ hle)).checkEach h

/-- The references are gone through, to a world. -/
def Passed (eng : Engines L R) (req : Request) (ruleMap : GoString → Option Rule)
    (pre : List Expression) (w : World L R) (r : Option RuleResult) (w' : World L R) : Prop :=
  ∃ fuel, checkCompound (checkRules eng req ruleMap fuel) pre true w = some (.ok r, w')

/-- The evaluation of one rule gets to another: a compound rule refers to it, after references that
are gone through. -/
def Follows (eng : Engines L R) (req : Request) (ruleMap : GoString → Option Rule)
    (next now : Rule × World L R) : Prop :=
  now.1.ruleType = some .compound ∧ ∃ pre e post r, now.1.expressions = pre ++ e :: post ∧
    Passed eng req ruleMap pre now.2 r next.2 ∧ ruleMap e.value = some next.1

/-- No chain of rules that the evaluation gets to, one from the other, goes on for ever. -/
def Grounded (eng : Engines L R) (req : Request) (ruleMap : GoString → Option Rule) (rule : Rule)
    (w : World L R) : Prop :=
  Acc (Follows eng req ruleMap) (rule, w)

def RuleTerminates (eng : Engines L R) (req : Request) (ruleMap : GoString → Option Rule)
    (rule : Rule) (w : World L R) : Prop :=
  ∃ fuel out, checkRule eng req (checkRules eng req ruleMap fuel) rule w = some out

omit [DecidableEq R] in
theorem checkCompound_append {res : Bool} {r : Option RuleResult}
    (h : checkCompound check pre res w = some (.ok r, w')) :
    checkCompound check (pre ++ post) res w = checkCompound check post r.isSome w' := by
  induction pre generalizing res w with
  | nil =>
    obtain ⟨hr, rfl⟩ := Prod.mk.inj (Option.some.inj h)
    obtain rfl := Except.ok.inj hr
    cases res <;> rfl
  | cons e pre ih =>
    rw [checkCompound] at h
    rw [List.cons_append, checkCompound]
    split at h
    · cases h
    · cases h
    · split at h
      · cases h
      · exact ih h

omit [DecidableEq R] in
theorem checkCompound_front {res : Bool} {out : Outcome L R (Option RuleResult)}
    (h : checkCompound check (pre ++ post) res w = some out) :
    ∃ out', checkCompound check pre res w = some out' := by
  induction pre generalizing res w with
  | nil => exact ⟨_, rfl⟩
  | cons e pre ih =>
    rw [List.cons_append, checkCompound] at h
    rw [checkCompound]
    split at h
    · cases h
    · exact ⟨_, rfl⟩
    · split at h
      · exact ⟨_, rfl⟩
      · exact ih h

theorem checkRules_one {id : GoString} (hmap : ruleMap id = some rule) :
    checkRules eng req ruleMap (fuel+1) [id] w =
      checkEach eng req (checkRules eng req ruleMap fuel) [(id, rule)] w := by
  have hrules : getRulesByRuleIds ruleMap [id] = .ok [(id, rule)] := by
    simp [getRulesByRuleIds, hmap, pure, Except.pure, bind, Except.bind]
  rw [checkRules, hrules]

theorem exists_checkEach_iff (id : GoString) :
    (∃ out, checkEach eng req check [(id, rule)] w = some out) ↔
      ∃ out, checkRule eng req check rule w = some out := by
  rw [checkEach]
  constructor
  · rintro ⟨out, h⟩
    split at h
    · cases h
    · exact ⟨_, ‹_›⟩
    · exact ⟨_, ‹_›⟩
    · exact ⟨_, ‹_›⟩
  · rintro ⟨⟨out, w'⟩, h⟩
    rw [h]
    cases out with
    | error failure => exact ⟨_, rfl⟩
    | ok result => cases result <;> exact ⟨_, rfl⟩

theorem terminates_of_follows {out : Outcome L R (Option RuleResult)} {next : Rule × World L R}
    (h : checkRule eng req (checkRules eng req ruleMap fuel) rule w = some out)
    (hnext : Follows eng req ruleMap next (rule, w)) :
    ∃ fuel', fuel = fuel'+1 ∧
      ∃ out', checkRule eng req (checkRules eng req ruleMap fuel') next.1 next.2 = some out' := by
  obtain ⟨hkind, pre, e, post, r, hes, ⟨fuel₁, hpre⟩, hmap⟩ := hnext
  dsimp only at hkind hes hpre
  rw [checkRule, hkind, hes] at h
  dsimp only at h
  obtain ⟨front, hfront⟩ := checkCompound_front h
  -- The front has one outcome, however many calls are nested.
  have hsame : front = (.ok r, next.2) := by
    have h₁ := (checkRules_extends (Nat.le_max_left fuel fuel₁)).checkCompound hfront
    have h₂ := (checkRules_extends (Nat.le_max_right fuel fuel₁)).checkCompound hpre
    exact Option.some.inj (h₁.symm.trans h₂)
  rw [hsame] at hfront
  rw [checkCompound_append hfront, checkCompound] at h
  cases fuel with
  | zero => cases h
  | succ fuel =>
    refine ⟨fuel, rfl, (exists_checkEach_iff e.value).mp ?_⟩
    rw [checkRules_one hmap] at h
    split at h
    · cases h
    · exact ⟨_, ‹_›⟩
    · exact ⟨_, ‹_›⟩

theorem grounded_of_terminates {out : Outcome L R (Option RuleResult)}
    (h : checkRule eng req (checkRules eng req ruleMap fuel) rule w = some out) :
    Grounded eng req ruleMap rule w := by
  induction fuel using Nat.strongRecOn generalizing rule w out with
  | ind fuel ih =>
    refine .intro _ fun next hnext => ?_
    obtain ⟨fuel', rfl, out', hout'⟩ := terminates_of_follows h hnext
    exact ih fuel' (Nat.lt_succ_self fuel') hout'

theorem exists_checkCompound {rule : Rule}
    (hkind : rule.ruleType = some .compound) (hes : rule.expressions = pre ++ post)
    {r : Option RuleResult} (hpre : Passed eng req ruleMap pre w r w')
    (hfollow : ∀ next, Follows eng req ruleMap next (rule, w) →
      RuleTerminates eng req ruleMap next.1 next.2) :
    ∃ fuel out, checkCompound (checkRules eng req ruleMap fuel) post r.isSome w' = some out := by
  induction post generalizing pre r w' with
  | nil => exact ⟨0, _, rfl⟩
  | cons e post ih =>
    have hsaid : ∃ fuel out, checkRules eng req ruleMap fuel [e.value] w' = some out := by
      cases hmap : ruleMap e.value with
      | none =>
        refine ⟨1, (.error (.error (utf8 "rule: " ++ e.value ++ utf8 " not found")), w'), ?_⟩
        rw [checkRules]
        simp only [getRulesByRuleIds, List.mapM_cons, hmap, bind, Except.bind]
      | some rule' =>
        obtain ⟨fuel, out, hout⟩ := hfollow (rule', w') ⟨hkind, pre, e, post, r, hes, hpre, hmap⟩
        obtain ⟨out', hout'⟩ := (exists_checkEach_iff e.value).mpr ⟨out, hout⟩
        exact ⟨fuel+1, out', by rw [checkRules_one hmap, hout']⟩
    obtain ⟨fuel, ⟨said, w''⟩, hsaid⟩ := hsaid
    cases said with
    | error failure => exact ⟨fuel, (.error failure, w''), by rw [checkCompound, hsaid]⟩
    | ok result =>
      cases hop : connective e.operator with
      | none =>
        refine ⟨fuel, (.error (.error (utf8 "unknown operator: " ++ e.operator)), w''), ?_⟩
        rw [checkCompound, hsaid]
        dsimp only
        rw [hop]
      | some op =>
        let hit := turn op [] r.isSome (result.action ≠ [])
        let r' : Option RuleResult := if hit then some ⟨[], 0, []⟩ else none
        have hr' : r'.isSome = hit := by cases hhit : hit <;> simp [r', hhit]
        have hturn {n : ℕ} (hle : fuel ≤ n) (post : List Expression) :
            checkCompound (checkRules eng req ruleMap n) (e :: post) r.isSome w' =
              checkCompound (checkRules eng req ruleMap n) post hit w'' := by
          rw [checkCompound, checkRules_extends hle _ _ _ hsaid]
          dsimp only
          rw [hop]
        have hpassed : Passed eng req ruleMap (pre ++ [e]) w r' w'' := by
          obtain ⟨fuel₁, hfront⟩ := hpre
          refine ⟨max fuel fuel₁, ?_⟩
          rw [checkCompound_append
            ((checkRules_extends (Nat.le_max_right fuel fuel₁)).checkCompound hfront),
            hturn (Nat.le_max_left fuel fuel₁)]
          rfl
        obtain ⟨fuel₂, out, hout⟩ := ih (by rw [hes, List.append_assoc]; rfl) hpassed
        refine ⟨max fuel fuel₂, out, ?_⟩
        rw [hturn (Nat.le_max_left fuel fuel₂), ← hr']
        exact (checkRules_extends (Nat.le_max_right fuel fuel₂)).checkCompound hout

theorem rule_terminates_iff :
    RuleTerminates eng req ruleMap rule w ↔ Grounded eng req ruleMap rule w := by
  constructor
  · rintro ⟨fuel, out, h⟩
    exact grounded_of_terminates h
  · intro h
    rw [Grounded] at h
    generalize hstart : (rule, w) = start at h
    induction h generalizing rule w with
    | intro start _ ih =>
      subst hstart
      rw [RuleTerminates]
      cases hkind : rule.ruleType with
      | none => exact ⟨0, _, by rw [checkRule, hkind]⟩
      | some kind =>
        cases kind with
        | compound =>
          obtain ⟨fuel, out, hout⟩ := exists_checkCompound (r := some ⟨[], 0, []⟩) hkind
            (List.nil_append _).symm ⟨0, rfl⟩ fun next hnext => ih next hnext rfl
          exact ⟨fuel, out, by rw [checkRule, hkind]; exact hout⟩
        | userAgent => exact ⟨0, _, by rw [checkRule, hkind]⟩
        | ip => exact ⟨0, _, by rw [checkRule, hkind]⟩
        | waf => exact ⟨0, _, by rw [checkRule, hkind]⟩
        | ipRateLimiting => exact ⟨0, _, by rw [checkRule, hkind]⟩

/-- Every rule that the list gets to is grounded: the first, and where it has no result the next. -/
def Completes (eng : Engines L R) (req : Request) (ruleMap : GoString → Option Rule) :
    List (GoString × Rule) → World L R → Prop
  | [], _ => True
  | (_, rule) :: rules, w => Grounded eng req ruleMap rule w ∧
      ∀ fuel w', checkRule eng req (checkRules eng req ruleMap fuel) rule w = some (.ok none, w') →
        Completes eng req ruleMap rules w'

theorem exists_checkEach {rules : List (GoString × Rule)} :
    (∃ fuel out, checkEach eng req (checkRules eng req ruleMap fuel) rules w = some out) ↔
      Completes eng req ruleMap rules w := by
  induction rules generalizing w with
  | nil => exact iff_of_true ⟨0, _, rfl⟩ trivial
  | cons r rules ih =>
    obtain ⟨id, rule⟩ := r
    rw [Completes, ← rule_terminates_iff]
    constructor
    · rintro ⟨fuel, out, h⟩
      rw [checkEach] at h
      refine ⟨?_, fun fuel₁ w₁ h₁ => ?_⟩
      · split at h
        · cases h
        · exact ⟨fuel, _, ‹_›⟩
        · exact ⟨fuel, _, ‹_›⟩
        · exact ⟨fuel, _, ‹_›⟩
      · have hwide := (checkRules_extends (Nat.le_max_right fuel fuel₁)).checkRule h₁
        have hsame {said : Outcome L R (Option RuleResult)}
            (hsaid : checkRule eng req (checkRules eng req ruleMap fuel) rule w = some said) :
            said = (.ok none, w₁) :=
          Option.some.inj (((checkRules_extends (Nat.le_max_left fuel fuel₁)).checkRule
            hsaid).symm.trans hwide)
        split at h
        · cases h
        · rename_i hsaid
          cases (Prod.mk.inj (hsame hsaid)).1
        · rename_i hsaid
          obtain rfl := (Prod.mk.inj (hsame hsaid)).2
          exact ih.mp ⟨fuel, out, h⟩
        · rename_i hsaid
          cases (Prod.mk.inj (hsame hsaid)).1
    · rintro ⟨⟨fuel, ⟨said, w₁⟩, hsaid⟩, hrest⟩
      cases said with
      | error failure => exact ⟨fuel, (.error failure, w₁), by rw [checkEach, hsaid]⟩
      | ok result =>
        cases result with
        | some result => exact ⟨fuel, (verdict id rule result, w₁), by rw [checkEach, hsaid]⟩
        | none =>
          obtain ⟨fuel₂, out, hout⟩ := ih.mpr (hrest fuel w₁ hsaid)
          refine ⟨max fuel fuel₂, out, ?_⟩
          rw [checkEach, (checkRules_extends (Nat.le_max_left fuel fuel₂)).checkRule hsaid]
          exact (checkRules_extends (Nat.le_max_right fuel fuel₂)).checkEach hout

theorem exists_checkRules {ids : List GoString} {rules : List (GoString × Rule)}
    (hrules : getRulesByRuleIds ruleMap ids = .ok rules) :
    (∃ fuel out, checkRules eng req ruleMap fuel ids w = some out) ↔
      Completes eng req ruleMap rules w := by
  rw [← exists_checkEach]
  constructor
  · rintro ⟨fuel, out, h⟩
    cases fuel with
    | zero => cases h
    | succ fuel =>
      rw [checkRules, hrules] at h
      exact ⟨fuel, out, h⟩
  · rintro ⟨fuel, out, h⟩
    exact ⟨fuel+1, out, by rw [checkRules, hrules]; exact h⟩

def Refers (ruleMap : GoString → Option Rule) (next id : GoString) : Prop :=
  ∃ rule ∈ ruleMap id, rule.ruleType = some .compound ∧ ∃ e ∈ rule.expressions, e.value = next

/-- Where the references have no cycle, every rule is grounded, on every request. -/
theorem grounded_of_acyclic {id : GoString} (h : Acc (Refers ruleMap) id)
    (hmap : ruleMap id = some rule) : Grounded eng req ruleMap rule w := by
  induction h generalizing rule w with
  | intro id _ ih =>
    refine .intro _ ?_
    rintro ⟨next, w'⟩ ⟨hkind, pre, e, post, r, hes, -, hnext⟩
    exact ih e.value ⟨rule, hmap, hkind, e, by rw [hes]; simp, rfl⟩ hnext

theorem mem_ruleMap {ids : List GoString} {rules : List (GoString × Rule)}
    (h : getRulesByRuleIds ruleMap ids = .ok rules) : ∀ r ∈ rules, ruleMap r.1 = some r.2 := by
  induction ids generalizing rules with
  | nil =>
    obtain rfl := Except.ok.inj h
    simp
  | cons id ids ih =>
    rw [getRulesByRuleIds, List.mapM_cons] at h
    cases hmap : ruleMap id with
    | none =>
      rw [hmap] at h
      cases h
    | some rule =>
      rw [hmap] at h
      change (getRulesByRuleIds ruleMap ids >>= fun rest => pure ((id, rule) :: rest)) = .ok rules at h
      cases hrest : getRulesByRuleIds ruleMap ids with
      | error failure =>
        rw [hrest] at h
        cases h
      | ok rest =>
        rw [hrest] at h
        obtain rfl := Except.ok.inj h
        intro r hr
        rcases List.mem_cons.mp hr with rfl | hr
        · exact hmap
        · exact ih hrest r hr

theorem completes_of_grounded {rules : List (GoString × Rule)}
    (h : ∀ r ∈ rules, ∀ w, Grounded eng req ruleMap r.2 w) : Completes eng req ruleMap rules w := by
  induction rules generalizing w with
  | nil => trivial
  | cons r rules ih =>
    obtain ⟨id, rule⟩ := r
    rw [Completes]
    exact ⟨h _ List.mem_cons_self w, fun _ _ _ => ih fun s hs => h s (List.mem_cons_of_mem _ hs)⟩

end Termination

section Store

/-- `checkExpressions`: what `AddRule` and `UpdateRule` demand of the expressions. -/
def checkExpressions (wafParses : GoString → Bool) (ruleMap : GoString → Option Rule) (rule : Rule) :
    Bool :=
  match rule.ruleType with
  | some .waf => rule.expressions.all fun e => wafParses e.value
  | some .ip => rule.expressions.all fun e => (e.value.splitOn comma).all fun s => IsListable s
  | some .ipRateLimiting =>
    match rule.expressions with
    | [e] => (atoi e.operator).isSome && (atoi e.value).isSome
    | _ => false
  | some .compound => rule.expressions.all fun e => (ruleMap e.value).isSome
  | _ => true

/-- `refreshRuleMap`, of the rules as they are read: the last of an id stays. -/
def ruleMapOf (rules : List Rule) (id : GoString) : Option Rule :=
  rules.reverse.find? fun rule => rule.getId = id

/-- `AddRule`: owner and name are the key of the table. -/
def addRule (wafParses : GoString → Bool) (rules : List Rule) (rule : Rule) : Option (List Rule) :=
  if checkExpressions wafParses (ruleMapOf rules) rule ∧
      ∀ old ∈ rules, (old.owner, old.name) ≠ (rule.owner, rule.name) then
    some (rules ++ [rule])
  else none

/-- `UpdateRule`, of the rule under a key. -/
def updateRule (wafParses : GoString → Bool) (rules : List Rule) (owner name : GoString)
    (rule : Rule) : Option (List Rule) :=
  if checkExpressions wafParses (ruleMapOf rules) rule ∧
      (∃ old ∈ rules, (old.owner, old.name) = (owner, name)) ∧
      ∀ old ∈ rules, (old.owner, old.name) = (rule.owner, rule.name) →
        (owner, name) = (rule.owner, rule.name) then
    some (rules.map fun old => if (old.owner, old.name) = (owner, name) then rule else old)
  else none

/-- The rules that `AddRule` and `UpdateRule` accept, in any order of calls. -/
inductive Stored (wafParses : GoString → Bool) : List Rule → Prop
  | empty : Stored wafParses []
  | add {rules rules' : List Rule} (rule : Rule) : Stored wafParses rules →
      addRule wafParses rules rule = some rules' → Stored wafParses rules'
  | update {rules rules' : List Rule} (owner name : GoString) (rule : Rule) :
      Stored wafParses rules → updateRule wafParses rules owner name rule = some rules' →
      Stored wafParses rules'

end Store

section Additions

variable {wafParses : GoString → Bool} {rules rules' : List Rule} {rule : Rule} {id : GoString}

/-- The rules that `AddRule` alone accepts, of owners without a slash. -/
inductive Added (wafParses : GoString → Bool) : List Rule → Prop
  | empty : Added wafParses []
  | add {rules rules' : List Rule} (rule : Rule) : Object.slash ∉ rule.owner →
      Added wafParses rules → addRule wafParses rules rule = some rules' → Added wafParses rules'

/-- What an addition keeps: every reference has its rule, and no chain of them is endless. -/
structure Layered (rules : List Rule) : Prop where
  owners : ∀ rule ∈ rules, Object.slash ∉ rule.owner
  refs : ∀ id, ∀ rule ∈ ruleMapOf rules id, rule.ruleType = some .compound →
    ∀ e ∈ rule.expressions, (ruleMapOf rules e.value).isSome = true
  acyclic : ∀ id, Acc (Refers (ruleMapOf rules)) id

theorem ruleMapOf_append : ruleMapOf (rules ++ [rule]) id =
    if rule.getId = id then some rule else ruleMapOf rules id := by
  rw [ruleMapOf, ruleMapOf, List.reverse_append, List.reverse_singleton, List.singleton_append,
    List.find?_cons]
  split_ifs with h
  · simp [h]
  · simp [h]

theorem addRule_eq_some (h : addRule wafParses rules rule = some rules') :
    (checkExpressions wafParses (ruleMapOf rules) rule = true ∧
      ∀ old ∈ rules, (old.owner, old.name) ≠ (rule.owner, rule.name)) ∧ rules' = rules ++ [rule] := by
  unfold addRule at h
  split_ifs at h with hok
  exact ⟨hok, (Option.some.inj h).symm⟩

/-- An added rule refers to rules that were there before it, and none of them refers to it. -/
theorem Layered.add (hl : Layered rules) (howner : Object.slash ∉ rule.owner)
    (h : addRule wafParses rules rule = some rules') : Layered rules' := by
  obtain ⟨⟨hcheck, hkeys⟩, rfl⟩ := addRule_eq_some h
  have hfresh : ruleMapOf rules rule.getId = none := by
    rw [ruleMapOf, List.find?_eq_none]
    intro old hold hid
    have hmem := List.mem_reverse.mp hold
    obtain ⟨ho, hn⟩ := Object.getId_inj (hl.owners old hmem) howner (of_decide_eq_true hid)
    exact hkeys old hmem (Prod.ext ho hn)
  have hne {next : GoString} (hnext : (ruleMapOf rules next).isSome = true) : rule.getId ≠ next := by
    rintro rfl
    rw [hfresh] at hnext
    cases hnext
  have hsame {next : GoString} (hnext : rule.getId ≠ next) :
      ruleMapOf (rules ++ [rule]) next = ruleMapOf rules next := by
    rw [ruleMapOf_append, if_neg hnext]
  have hexpressions (hkind : rule.ruleType = some .compound) :
      ∀ e ∈ rule.expressions, (ruleMapOf rules e.value).isSome = true := by
    rw [checkExpressions, hkind] at hcheck
    exact List.all_eq_true.mp hcheck
  have hcases {id : GoString} {r : Rule} (hr : r ∈ ruleMapOf (rules ++ [rule]) id)
      (hkind : r.ruleType = some .compound) :
      ∀ e ∈ r.expressions, (ruleMapOf rules e.value).isSome = true := by
    rw [ruleMapOf_append] at hr
    split_ifs at hr
    · obtain rfl := Option.mem_some_iff.mp hr
      exact hexpressions hkind
    · exact hl.refs id r hr hkind
  have hold (id : GoString) (hid : rule.getId ≠ id) : Acc (Refers (ruleMapOf (rules ++ [rule]))) id := by
    induction hl.acyclic id with
    | intro id _ ih =>
      refine .intro _ fun next hnext => ?_
      obtain ⟨r, hr, hkind, e, he, rfl⟩ := hnext
      have hnew := hne (hcases hr hkind e he)
      rw [hsame hid] at hr
      exact ih e.value ⟨r, hr, hkind, e, he, rfl⟩ hnew
  refine ⟨?_, ?_, ?_⟩
  · intro r hr
    rcases List.mem_append.mp hr with hr | hr
    · exact hl.owners r hr
    · obtain rfl := List.mem_singleton.mp hr
      exact howner
  · intro id r hr hkind e he
    have hsome := hcases hr hkind e he
    rw [hsame (hne hsome)]
    exact hsome
  · intro id
    refine .intro _ fun next hnext => ?_
    obtain ⟨r, hr, hkind, e, he, rfl⟩ := hnext
    exact hold e.value (hne (hcases hr hkind e he))

theorem Added.layered (h : Added wafParses rules) : Layered rules := by
  induction h with
  | empty =>
    refine ⟨by simp, ?_, fun id => .intro _ fun next hnext => ?_⟩
    · intro id rule hrule
      cases hrule
    · obtain ⟨r, hr, -⟩ := hnext
      cases hr
  | add rule howner _ hadd ih => exact ih.add howner hadd

/-- Rules that were only ever added, and not updated, are evaluated to an end, on every request. -/
theorem added_rules_terminate {L R : Type} [DecidableEq R] (eng : Engines L R) (req : Request)
    (h : Added wafParses rules) (ids : List GoString) (w : World L R) :
    ∃ fuel out, checkRules eng req (ruleMapOf rules) fuel ids w = some out := by
  cases hrules : getRulesByRuleIds (ruleMapOf rules) ids with
  | error failure => exact ⟨1, (.error failure, w), by rw [checkRules, hrules]⟩
  | ok found =>
    rw [exists_checkRules hrules]
    apply completes_of_grounded
    intro r hr w'
    exact grounded_of_acyclic (h.layered.acyclic r.1) (mem_ruleMap hrules r hr)

end Additions

namespace Sample

/-- A compound rule without references, and with one to itself. -/
def hollow : Rule := ⟨[1], [2], RuleType.compound.text, [], [], 0, [], false⟩

def selfish : Rule := ⟨[1], [2], RuleType.compound.text, [⟨[], utf8 "begin", [1, 47, 2]⟩], [], 0, [], false⟩

theorem selfish_accepted : addRule (fun _ => true) [] hollow = some [hollow] ∧
    updateRule (fun _ => true) [hollow] [1] [2] selfish = some [selfish] ∧
    addRule (fun _ => true) [] selfish = none ∧
    ruleMapOf [selfish] [1, 47, 2] = some selfish ∧ selfish.ruleType = some .compound := by
  decide

/-- A rule that refers to the one added before it. -/
def leaning : Rule := { selfish with name := [3] }

theorem leaning_added : Added (fun _ => true) [hollow, leaning] :=
  .add leaning (by decide) (.add hollow (by decide) .empty selfish_accepted.1) (by decide)

end Sample

theorem leaning_terminates :
    ∃ fuel out, checkRules Sample.engines (Sample.agent []) (ruleMapOf [Sample.hollow, Sample.leaning])
      fuel [[1, 47, 3]] Sample.start = some out :=
  added_rules_terminate Sample.engines (Sample.agent []) Sample.leaning_added _ _

end ArchGuard.Rules
