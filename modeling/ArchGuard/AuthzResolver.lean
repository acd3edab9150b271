import ArchGuard.AuthzModel

namespace ArchGuard.Authz

/-- A subject assigned to (object, relation): a concrete reference or a userset. -/
structure GraphSubject where
  ref : String
  window : Option ValidityWindow
  deriving DecidableEq, Repr

/-- `DirectSubjects`: the subjects of the tuples on (object, relation), in their order. -/
abbrev GraphReader := (object relation : String) → List GraphSubject

structure Decision where
  allowed : Bool
  justification : String
  deriving DecidableEq, Repr

def maxResolveDepth := 128

/-- Whether the relation holds, and why. -/
abbrev Answer := Except AuthzError (Bool × String)

section Rewrites

variable (g : GraphReader) (ctx : CheckContext) (user : String)
  (resolve : (object relation : String) → Answer) (object relation : String)

/-- The loop of `rwThis` over the direct subjects. -/
def directAnswer (condition : String) : List GraphSubject → Answer
  | [] => .ok (false, "")
  | sub :: subs =>
    -- a tuple outside its window grants nothing now
    if !evalCondition condition sub.window ctx then directAnswer condition subs
    else match splitUserset sub.ref with
      | some (obj, rel) =>
        match resolve obj rel with
        | .error e => .error e
        | .ok (true, _) => .ok (true, relation ++ " via " ++ sub.ref)
        | .ok (false, _) => directAnswer condition subs
      | none =>
        if sub.ref = user then .ok (true, relation ++ " direto")
        else directAnswer condition subs

/-- The loop of `rwTTU` over the subjects of the tupleset. -/
def ttuAnswer (tupleset rel : String) : List GraphSubject → Answer
  | [] => .ok (false, "")
  | sub :: subs =>
    match splitUserset sub.ref with
    -- the targets of a tupleset are objects, never usersets
    | some _ => ttuAnswer tupleset rel subs
    | none =>
      match resolve sub.ref rel with
      | .error e => .error e
      | .ok (true, _) => .ok (true, rel ++ " from " ++ tupleset ++ " " ++ sub.ref)
      | .ok (false, _) => ttuAnswer tupleset rel subs

mutual

def applyRewrite : Rewrite → Answer
  | .this condition => directAnswer ctx user resolve relation condition (g object relation)
  | .computed rel =>
    match resolve object rel with
    | .error e => .error e
    | .ok (false, _) => .ok (false, "")
    | .ok (true, why) => .ok (true, relation ++ " via " ++ why)
  | .ttu tupleset rel => ttuAnswer resolve tupleset rel (g object tupleset)
  | .union children => applyUnion children
  | .intersection children => applyIntersection children []

def applyUnion : List Rewrite → Answer
  | [] => .ok (false, "")
  | child :: children =>
    match applyRewrite child with
    | .error e => .error e
    | .ok (true, why) => .ok (true, why)
    | .ok (false, _) => applyUnion children

def applyIntersection : List Rewrite → List String → Answer
  | [], reasons => .ok (true, relation ++ " = " ++ " ∧ ".intercalate reasons)
  | child :: children, reasons =>
    match applyRewrite child with
    | .error e => .error e
    | .ok (false, _) => .ok (false, "")
    | .ok (true, why) => applyIntersection children (reasons ++ [why])

end

end Rewrites

def visitKey (object relation : String) : String := object ++ "#" ++ relation

/-- `resolve` with `fuel = maxResolveDepth - depth`; `visiting` is the current stack. -/
def resolve (g : GraphReader) (ctx : CheckContext) (user : String) :
    ℕ → List String → (object relation : String) → Answer
  | 0, _, _, _ => .error .resolveDepth
  | fuel+1, visiting, object, relation =>
    -- a cycle contributes nothing
    if visitKey object relation ∈ visiting then .ok (false, "")
    else match rewriteOf object relation with
      | none => .ok (false, "")
      | some rw => applyRewrite g ctx user (resolve g ctx user fuel
          (visitKey object relation :: visiting)) object relation rw

def evaluate (g : GraphReader) (object relation user : String) (ctx : CheckContext) :
    Except AuthzError Decision :=
  match resolve g ctx user maxResolveDepth [] object relation with
  | .error e => .error e
  | .ok (false, _) => .ok ⟨false, "sem relação"⟩
  | .ok (true, why) => .ok ⟨true, why⟩

/-- A tuple of an in-memory graph, with its window when it is conditioned. -/
structure GraphTuple where
  tuple : RelationTuple
  window : Option ValidityWindow

/-- The nul character keeps objects and relations apart. -/
def memKey (object relation : String) : String := object ++ "\x00" ++ relation

/-- `MemoryGraph`: the tuples in the order in which they were added. -/
def memoryGraph (tuples : List GraphTuple) : GraphReader := fun object relation =>
  (tuples.filter fun t => memKey t.tuple.object t.tuple.relation = memKey object relation).map
    fun t => ⟨t.tuple.user, t.window⟩

end ArchGuard.Authz
