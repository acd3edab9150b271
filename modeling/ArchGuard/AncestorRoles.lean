import ArchGuard.UserRoles

/-! Which roles `GetAncestorRoles` finds: a role that was first met below another one is left out. -/
namespace ArchGuard.Permissions
open GoText Object

section Reach

variable (allRoles : List Role) (roleIds : List GoString)

/-- A role has another one of the organization among its roles. -/
def Contains (r s : Role) : Prop := s ∈ allRoles ∧ s.getId ∈ r.roles

def Leads (r : Role) : Prop :=
  ∃ s, Relation.ReflTransGen (Contains allRoles) r s ∧ ∃ id ∈ roleIds, id ∈ s.roles

/-- An identifier that tells of a role below which it stands that it leads to the list. -/
def Telling (r : Role) (id : GoString) : Prop :=
  id ∈ roleIds ∨ ∃ s ∈ allRoles, s.getId = id ∧ s ≠ r ∧ Leads allRoles roleIds s

/-- The first identifier that tells of a role is one of the list, or of a role that was found
before. -/
def ToldInTime (before : List Role) (r : Role) : Prop :=
  r.getId ∉ roleIds → Leads allRoles roleIds r → ∀ front id back, r.roles = front ++ id :: back →
    (∀ id' ∈ front, ¬Telling allRoles roleIds r id') → Telling allRoles roleIds r id →
      id ∈ roleIds ∨ id ∈ before.map Role.getId

variable {allRoles roleIds} {r s : Role}

theorem leads_of_listed {id : GoString} (hid : id ∈ roleIds) (h : id ∈ r.roles) :
    Leads allRoles roleIds r := ⟨r, .refl, id, hid, h⟩

theorem leads_of_reaches (h : Relation.ReflTransGen (Contains allRoles) r s)
    (hs : Leads allRoles roleIds s) : Leads allRoles roleIds r := by
  obtain ⟨t, hreach, hlisted⟩ := hs
  exact ⟨t, h.trans hreach, hlisted⟩

/-- A role that leads to the list has an identifier that tells so. -/
theorem Leads.telling (h : Leads allRoles roleIds r) :
    ∃ id ∈ r.roles, Telling allRoles roleIds r id := by
  obtain ⟨s, hreach, id, hid, hmem⟩ := h
  induction hreach using Relation.ReflTransGen.head_induction_on with
  | refl => exact ⟨id, hmem, Or.inl hid⟩
  | @head a b hab hbs ih =>
    by_cases hba : b = a
    · rwa [hba] at ih
    · exact ⟨b.getId, hab.2, Or.inr ⟨b, hab.1, rfl, hba, s, hbs, id, hid, hmem⟩⟩

theorem exists_first {α : Type} {P : α → Prop} {l : List α} (h : ∃ a ∈ l, P a) :
    ∃ front a back, l = front ++ a :: back ∧ (∀ b ∈ front, ¬P b) ∧ P a := by
  induction l with
  | nil =>
    obtain ⟨a, ha, -⟩ := h
    exact absurd ha List.not_mem_nil
  | cons b l ih =>
    by_cases hb : P b
    · exact ⟨[], b, l, rfl, fun c hc => absurd hc List.not_mem_nil, hb⟩
    · have hrest : ∃ a ∈ l, P a := by
        obtain ⟨a, ha, hPa⟩ := h
        rcases List.mem_cons.mp ha with rfl | ha
        · exact absurd hPa hb
        · exact ⟨a, ha, hPa⟩
      obtain ⟨front, a, back, rfl, hfront, hPa⟩ := ih hrest
      exact ⟨b :: front, a, back, rfl, List.forall_mem_cons.mpr ⟨hb, hfront⟩, hPa⟩

end Reach

section Marks

/-- Of the identifiers that were not seen some are marked as not containing any of the list. -/
def Visited.Marks (visited visited' : Visited) (P : GoString → Prop) : Prop :=
  ∀ id, visited' id = visited id ∨ visited id = none ∧ visited' id = some false ∧ P id

variable {visited visited' visited'' : Visited} {P Q : GoString → Prop} {id : GoString}

theorem Visited.Marks.refl : visited.Marks visited P := fun _ => Or.inl rfl

theorem Visited.Marks.trans (h : visited.Marks visited' P) (h' : visited'.Marks visited'' P) :
    visited.Marks visited'' P := by
  intro id
  rcases h id with heq | ⟨hnone, hfalse, hP⟩
  · rw [← heq]
    exact h' id
  · rcases h' id with heq' | ⟨hnone', -, -⟩
    · exact Or.inr ⟨hnone, heq'.trans hfalse, hP⟩
    · rw [hfalse] at hnone'
      cases hnone'

theorem Visited.Marks.mono (h : visited.Marks visited' P) (himp : ∀ id, P id → Q id) :
    visited.Marks visited' Q := by
  intro id
  exact (h id).imp_right fun ⟨hnone, hfalse, hP⟩ => ⟨hnone, hfalse, himp id hP⟩

theorem Visited.marks_update (hnone : visited id = none) (hP : P id) :
    visited.Marks (Function.update visited id (some false)) P := by
  intro id'
  by_cases hid : id' = id
  · rw [hid, Function.update_self]
    exact Or.inr ⟨hnone, rfl, hP⟩
  · exact Or.inl (Function.update_of_ne hid _ _)

theorem Visited.Marks.seen (h : visited.Marks visited' P) {b : Bool} (hseen : visited id = some b) :
    visited' id = some b := by
  rcases h id with heq | ⟨hnone, -, -⟩
  · rw [heq, hseen]
  · rw [hseen] at hnone
    cases hnone

theorem Visited.Marks.of_true (h : visited.Marks visited' P) (htrue : visited' id = some true) :
    visited id = some true := by
  rcases h id with heq | ⟨-, hfalse, -⟩
  · rw [← heq, htrue]
  · rw [htrue] at hfalse
    cases hfalse

end Marks

section Search

variable {allRoles : List Role} {roleMap : GoString → Option Role} {roleIds : List GoString}

def Maps (allRoles : List Role) (roleMap : GoString → Option Role) : Prop :=
  ∀ id r, roleMap id = some r ↔ r ∈ allRoles ∧ r.getId = id

/-- What is marked as containing a role of the list does, or is in the list. -/
def Visited.Sound (visited : Visited) (allRoles : List Role) (roleIds : List GoString) : Prop :=
  ∀ s ∈ allRoles, visited s.getId = some true → s.getId ∈ roleIds ∨ Leads allRoles roleIds s

theorem Visited.Sound.marks {visited visited' : Visited} {P : GoString → Prop}
    (h : visited.Sound allRoles roleIds) (hmarks : visited.Marks visited' P) :
    visited'.Sound allRoles roleIds :=
  fun s hs htrue => h s hs (hmarks.of_true htrue)

def Below (allRoles : List Role) (r : Role) (id : GoString) : Prop :=
  ∃ s ∈ allRoles, s.getId = id ∧ Relation.ReflTransGen (Contains allRoles) r s

/-- What a search from a role has done: it has marked roles below it, and found nothing that is not
there. -/
structure Searched (allRoles : List Role) (roleIds : List GoString) (r : Role) (visited : Visited)
    (found : Bool) (visited' : Visited) : Prop where
  marks : visited.Marks visited' (Below allRoles r)
  sound : visited.Sound allRoles roleIds → found = true →
    r.getId ∈ roleIds ∨ Leads allRoles roleIds r

theorem containsIn_searched (hmap : Maps allRoles roleMap) {r : Role}
    {search : Visited → Role → Option (Bool × Visited)}
    (hsearch : ∀ visited s found visited', s ∈ allRoles → search visited s = some (found, visited') →
      Searched allRoles roleIds s visited found visited')
    {subRoles : List GoString} (hsub : ∀ id ∈ subRoles, id ∈ r.roles) {visited visited' : Visited}
    {found : Bool} (h : containsIn roleMap roleIds search subRoles visited = some (found, visited')) :
    visited.Marks visited' (Below allRoles r) ∧
      (visited.Sound allRoles roleIds → found = true → Leads allRoles roleIds r) := by
  induction subRoles generalizing visited with
  | nil =>
    obtain ⟨rfl, rfl⟩ := Prod.mk.inj (Option.some.inj h)
    exact ⟨.refl, fun _ hfound => Bool.noConfusion hfound⟩
  | cons id rest ih =>
    obtain ⟨hid, hrest⟩ := List.forall_mem_cons.mp hsub
    rw [containsIn] at h
    split_ifs at h with hlisted
    · obtain ⟨rfl, rfl⟩ := Prod.mk.inj (Option.some.inj h)
      exact ⟨.refl, fun _ _ => leads_of_listed hlisted hid⟩
    · cases hr : roleMap id with
      | none =>
        rw [hr] at h
        exact ih hrest h
      | some s =>
        obtain ⟨hs, rfl⟩ := (hmap id s).mp hr
        rw [hr] at h
        obtain ⟨⟨b, v⟩, hb, h⟩ := Option.bind_eq_some_iff.mp h
        obtain ⟨hmarks, hsound⟩ := hsearch visited s b v hs hb
        have hedge : Contains allRoles r s := ⟨hs, hid⟩
        have hmarks' : visited.Marks v (Below allRoles r) := by
          apply hmarks.mono
          rintro id' ⟨t, ht, hid', hreach⟩
          exact ⟨t, ht, hid', .head hedge hreach⟩
        dsimp only at h
        split_ifs at h with hfound
        · obtain ⟨rfl, rfl⟩ := Prod.mk.inj (Option.some.inj h)
          refine ⟨hmarks', fun hvisited _ => ?_⟩
          exact leads_of_reaches (.single hedge) ((hsound hvisited hfound).resolve_left hlisted)
        · obtain ⟨hmarks'', hsound'⟩ := ih hrest h
          exact ⟨hmarks'.trans hmarks'', fun hvisited => hsound' (hvisited.marks hmarks')⟩

theorem containsRole_searched (hmap : Maps allRoles roleMap) {depth : ℕ} :
    ∀ visited r found visited', r ∈ allRoles →
      containsRole roleMap roleIds depth visited r = some (found, visited') →
        Searched allRoles roleIds r visited found visited' := by
  induction depth with
  | zero =>
    intro visited r found visited' _ h
    cases h
  | succ depth ih =>
    intro visited r found visited' hr h
    rw [containsRole] at h
    cases hseen : visited r.getId with
    | some isContain =>
      rw [hseen] at h
      obtain ⟨rfl, rfl⟩ := Prod.mk.inj (Option.some.inj h)
      refine ⟨.refl, fun hvisited hfound => hvisited r hr ?_⟩
      rw [hseen, hfound]
    | none =>
      rw [hseen] at h
      have hself : visited.Marks (Function.update visited r.getId (some false)) (Below allRoles r) :=
        Visited.marks_update hseen ⟨r, hr, rfl, .refl⟩
      obtain ⟨hmarks, hsound⟩ := containsIn_searched hmap ih (fun _ hid => hid) h
      exact ⟨hself.trans hmarks, fun hvisited hfound =>
        Or.inr (hsound (hvisited.marks hself) hfound)⟩

theorem containsRole_marked (hmap : Maps allRoles roleMap) {depth : ℕ} {visited visited' : Visited}
    {r : Role} {found : Bool} (hnone : visited r.getId = none)
    (h : containsRole roleMap roleIds depth visited r = some (found, visited')) :
    visited' r.getId = some false := by
  cases depth with
  | zero => cases h
  | succ depth =>
    rw [containsRole, hnone] at h
    have hmarks := (containsIn_searched hmap (containsRole_searched hmap) (fun _ hid => hid) h).1
    exact hmarks.seen (Function.update_self ..)

def Astray (allRoles : List Role) (roleIds : List GoString) (id : GoString) : Prop :=
  ∃ s ∈ allRoles, s.getId = id ∧ ¬Leads allRoles roleIds s

/-- Below a role that does not lead to the list no role does. -/
theorem astray_of_below {r : Role} (hr : ¬Leads allRoles roleIds r) {id : GoString}
    (h : Below allRoles r id) : Astray allRoles roleIds id := by
  obtain ⟨s, hs, hid, hreach⟩ := h
  exact ⟨s, hs, hid, fun hleads => hr (leads_of_reaches hreach hleads)⟩

theorem containsIn_skip (hmap : Maps allRoles roleMap) {r : Role} {depth : ℕ}
    {front rest : List GoString} (hfront : ∀ id ∈ front, ¬Telling allRoles roleIds r id)
    {visited visited' : Visited} {found : Bool} (hr : visited r.getId = some false)
    (hsound : visited.Sound allRoles roleIds)
    (h : containsIn roleMap roleIds (containsRole roleMap roleIds depth) (front ++ rest) visited =
      some (found, visited')) :
    ∃ v, visited.Marks v (Astray allRoles roleIds) ∧
      containsIn roleMap roleIds (containsRole roleMap roleIds depth) rest v =
        some (found, visited') := by
  induction front generalizing visited with
  | nil => exact ⟨visited, .refl, h⟩
  | cons id front ih =>
    obtain ⟨hid, hrest⟩ := List.forall_mem_cons.mp hfront
    obtain ⟨hlisted, hno⟩ := not_or.mp hid
    rw [List.cons_append, containsIn, if_neg hlisted] at h
    cases hs : roleMap id with
    | none =>
      rw [hs] at h
      exact ih hrest hr hsound h
    | some s =>
      obtain ⟨hmem, rfl⟩ := (hmap id s).mp hs
      rw [hs] at h
      obtain ⟨⟨b, v⟩, hb, htail⟩ := Option.bind_eq_some_iff.mp h
      dsimp only at htail
      by_cases hsr : s = r
      · -- the role itself is marked, and the search goes no further
        subst hsr
        have hb' : (b, v) = (false, visited) := by
          cases depth with
          | zero => cases hb
          | succ depth =>
            rw [containsRole, hr] at hb
            exact (Option.some.inj hb).symm
        obtain ⟨rfl, rfl⟩ := Prod.mk.inj hb'
        rw [if_neg Bool.false_ne_true] at htail
        exact ih hrest hr hsound htail
      · have hastray : ¬Leads allRoles roleIds s := fun hleads => hno ⟨s, hmem, rfl, hsr, hleads⟩
        obtain ⟨hmarks, hfound⟩ := containsRole_searched hmap visited s b v hmem hb
        have hb' : b ≠ true := fun hb' => (hfound hsound hb').elim hlisted hastray
        rw [if_neg hb'] at htail
        have hmarks' := hmarks.mono fun id' => astray_of_below hastray
        obtain ⟨v', hmarks'', h'⟩ := ih hrest (hmarks'.seen hr) (hsound.marks hmarks') htail
        exact ⟨v', hmarks'.trans hmarks'', h'⟩

end Search

section Turns

variable {allRoles : List Role} {roleMap : GoString → Option Role} {roleIds : List GoString}
  {depth : ℕ} {visited visited' : Visited} {before : List Role} {r : Role} {found : Bool}

/-- One round of the loop of `GetAncestorRoles`. -/
inductive Turn (roleMap : GoString → Option Role) (roleIds : List GoString) (depth : ℕ)
    (visited : Visited) (r : Role) : (found : Bool) → Visited → Prop
  | known {found : Bool} (h : visited r.getId = some found) :
    Turn roleMap roleIds depth visited r found visited
  | searched {found : Bool} {visited' : Visited} (hnone : visited r.getId = none)
    (h : containsRole roleMap roleIds depth visited r = some (found, visited')) :
    Turn roleMap roleIds depth visited r found (Function.update visited' r.getId (some found))

theorem ancestorsIn_cons {rest res : List Role}
    (h : ancestorsIn roleMap roleIds depth (r :: rest) visited = some res) :
    ∃ found visited' res', Turn roleMap roleIds depth visited r found visited' ∧
      ancestorsIn roleMap roleIds depth rest visited' = some res' ∧
      res = if found then r :: res' else res' := by
  rw [ancestorsIn] at h
  split at h
  · rename_i hseen
    obtain ⟨res', hres', rfl⟩ := Option.map_eq_some_iff.mp h
    exact ⟨true, visited, res', .known hseen, hres', rfl⟩
  · rename_i hseen
    exact ⟨false, visited, res, .known hseen, h, rfl⟩
  · rename_i hseen
    obtain ⟨⟨found, v⟩, hsearch, h⟩ := Option.bind_eq_some_iff.mp h
    obtain ⟨res', hres', h⟩ := Option.bind_eq_some_iff.mp h
    exact ⟨found, _, res', .searched hseen hsearch, hres', (Option.some.inj h).symm⟩

/-- What is known when the roles before have had their turn: exactly those of them that lead to the
list, and the list itself, are marked as such, and no other role that leads to it is marked. -/
structure Settled (allRoles : List Role) (roleIds : List GoString) (before : List Role)
    (visited : Visited) : Prop where
  listed : ∀ id ∈ roleIds, visited id = some true
  marked : ∀ s ∈ allRoles, visited s.getId = some true ↔
    s.getId ∈ roleIds ∨ Leads allRoles roleIds s ∧ s ∈ before
  astray : ∀ s ∈ allRoles, visited s.getId = some false →
    s.getId ∉ roleIds ∧ ¬Leads allRoles roleIds s

theorem Settled.sound (h : Settled allRoles roleIds before visited) :
    visited.Sound allRoles roleIds :=
  fun s hs htrue => ((h.marked s hs).mp htrue).imp_right And.left

theorem Settled.unseen (h : Settled allRoles roleIds before visited) (hr : r ∈ allRoles)
    (hlisted : r.getId ∉ roleIds) (hleads : Leads allRoles roleIds r) (hbefore : r ∉ before) :
    visited r.getId = none := by
  cases hseen : visited r.getId with
  | none => rfl
  | some b =>
    cases b with
    | true => exact absurd ((h.marked r hr).mp hseen) (by simp [hlisted, hbefore])
    | false => exact absurd hleads (h.astray r hr hseen).2

theorem depth_of_containsRole {answer : Bool × Visited}
    (h : containsRole roleMap roleIds depth visited r = some answer) : ∃ d, depth = d+1 := by
  cases depth with
  | zero => cases h
  | succ d => exact ⟨d, rfl⟩

/-- The search from a role that leads to the list comes to the first identifier that tells so, with
nothing marked on the way that leads to the list, but for the role itself. -/
theorem Settled.first (h : Settled allRoles roleIds before visited)
    (hmap : Maps allRoles roleMap) (hnone : visited r.getId = none) {front back : List GoString}
    {id : GoString} (hroles : r.roles = front ++ id :: back)
    (hfront : ∀ id' ∈ front, ¬Telling allRoles roleIds r id')
    (hsearch : containsRole roleMap roleIds (depth+1) visited r = some (found, visited')) :
    ∃ v, Visited.Marks (Function.update visited r.getId (some false)) v (Astray allRoles roleIds) ∧
      containsIn roleMap roleIds (containsRole roleMap roleIds depth) (id :: back) v =
        some (found, visited') := by
  rw [containsRole, hnone, hroles] at hsearch
  have hself : visited.Marks (Function.update visited r.getId (some false)) (fun _ => True) :=
    Visited.marks_update hnone trivial
  exact containsIn_skip hmap hfront (Function.update_self ..) (h.sound.marks hself) hsearch

variable (hinj : ∀ s ∈ allRoles, ∀ t ∈ allRoles, s.getId = t.getId → s = t)

include hinj

theorem Settled.marks (h : Settled allRoles roleIds before visited)
    (hmarks : visited.Marks visited' (Astray allRoles roleIds)) :
    Settled allRoles roleIds before visited' := by
  refine ⟨fun id hid => hmarks.seen (h.listed id hid), fun s hs => ?_, fun s hs hfalse => ?_⟩
  · rw [← h.marked s hs]
    exact ⟨hmarks.of_true, hmarks.seen⟩
  · rcases hmarks s.getId with heq | ⟨hnone, -, t, ht, hid, hno⟩
    · exact h.astray s hs (heq ▸ hfalse)
    · obtain rfl := hinj t ht s hs hid
      refine ⟨fun hlisted => ?_, hno⟩
      rw [h.listed _ hlisted] at hnone
      cases hnone

theorem Settled.turn (h : Settled allRoles roleIds before visited) (hr : r ∈ allRoles)
    (hmap : Maps allRoles roleMap) (hno : r.getId ∈ roleIds ∨ ¬Leads allRoles roleIds r)
    (hturn : Turn roleMap roleIds depth visited r found visited') :
    (found = true ↔ r.getId ∈ roleIds ∨ Leads allRoles roleIds r) ∧
      Settled allRoles roleIds (before ++ [r]) visited' := by
  -- the turn of such a role adds nothing to what has to be marked
  have hmore {v : Visited} (hv : Settled allRoles roleIds before v) :
      Settled allRoles roleIds (before ++ [r]) v := by
    refine ⟨hv.listed, fun s hs => (hv.marked s hs).trans ?_, hv.astray⟩
    rw [List.mem_append, List.mem_singleton]
    constructor
    · exact Or.imp_right fun h => ⟨h.1, Or.inl h.2⟩
    · rintro (hlisted | ⟨hleads, hs | rfl⟩)
      · exact Or.inl hlisted
      · exact Or.inr ⟨hleads, hs⟩
      · exact Or.inl (hno.resolve_right fun h => h hleads)
  cases hturn with
  | known hseen =>
    refine ⟨?_, hmore h⟩
    cases found with
    | true => exact iff_of_true rfl (h.sound r hr hseen)
    | false =>
      obtain ⟨hlisted, hastray⟩ := h.astray r hr hseen
      exact iff_of_false Bool.false_ne_true fun h => h.elim hlisted hastray
  | @searched v hnone hsearch =>
    have hlisted : r.getId ∉ roleIds := by
      intro hlisted
      rw [h.listed _ hlisted] at hnone
      cases hnone
    have hastray : ¬Leads allRoles roleIds r := hno.resolve_left hlisted
    obtain ⟨hmarks, hfound⟩ := containsRole_searched hmap visited r found v hr hsearch
    have hfound' : found = false := by
      rw [← Bool.not_eq_true]
      exact fun hfound' => (hfound h.sound hfound').elim hlisted hastray
    subst hfound'
    have hself : Function.update v r.getId (some false) = v := by
      rw [← containsRole_marked hmap hnone hsearch]
      exact Function.update_eq_self ..
    rw [hself]
    refine ⟨iff_of_false Bool.false_ne_true fun h => h.elim hlisted hastray, hmore ?_⟩
    exact h.marks hinj (hmarks.mono fun id => astray_of_below hastray)

theorem Settled.told (h : Settled allRoles roleIds before visited) (hr : r ∈ allRoles)
    (hmap : Maps allRoles roleMap) (hbefore : ∀ s ∈ before, s ∈ allRoles) (hnew : r ∉ before)
    (hlisted : r.getId ∉ roleIds) (hleads : Leads allRoles roleIds r)
    (htold : ToldInTime allRoles roleIds before r)
    (hturn : Turn roleMap roleIds depth visited r found visited') :
    found = true ∧ Settled allRoles roleIds (before ++ [r]) visited' := by
  have hnone := h.unseen hr hlisted hleads hnew
  have hne {s : Role} (hs : s ∈ allRoles) (hsr : s ≠ r) : s.getId ≠ r.getId :=
    fun hid => hsr (hinj s hs r hr hid)
  cases hturn with
  | known hseen =>
    rw [hnone] at hseen
    cases hseen
  | @searched w _ hsearch =>
    obtain ⟨front, id, back, hroles, hfront, htelling⟩ := exists_first hleads.telling
    obtain ⟨d, rfl⟩ := depth_of_containsRole hsearch
    obtain ⟨v, hmarks, hin⟩ := h.first hmap hnone hroles hfront hsearch
    have hv {s : Role} (hs : s ∈ allRoles) (hsr : s ≠ r) :
        v s.getId = some true ↔ visited s.getId = some true := by
      rw [← Function.update_of_ne (hne hs hsr) (some false) visited]
      exact ⟨hmarks.of_true, hmarks.seen⟩
    -- the first identifier that tells is of the list, or marked
    have hfound : (found, w) = (true, v) := by
      rw [containsIn] at hin
      split_ifs at hin with hid
      · exact (Option.some.inj hin).symm
      · obtain ⟨s, hs, rfl, hsr, hsleads⟩ := htelling.resolve_left hid
        have hmem := (htold hlisted hleads front _ back hroles hfront htelling).resolve_left hid
        obtain ⟨t, ht, hts⟩ := List.mem_map.mp hmem
        obtain rfl := hinj t (hbefore t ht) s hs hts
        have hmarked : v t.getId = some true :=
          (hv hs hsr).mpr ((h.marked t hs).mpr (Or.inr ⟨hsleads, ht⟩))
        rw [(hmap t.getId t).mpr ⟨hs, rfl⟩] at hin
        obtain ⟨⟨b, v'⟩, hb, htail⟩ := Option.bind_eq_some_iff.mp hin
        cases d with
        | zero => cases hb
        | succ d =>
          rw [containsRole, hmarked] at hb
          obtain ⟨rfl, rfl⟩ := Prod.mk.inj (Option.some.inj hb)
          exact (Option.some.inj htail).symm
    obtain ⟨rfl, rfl⟩ := Prod.mk.inj hfound
    refine ⟨rfl, fun id' hid' => ?_, fun s hs => ?_, fun s hs hfalse => ?_⟩
    · by_cases hself : id' = r.getId
      · rw [hself, Function.update_self]
      · rw [Function.update_of_ne hself]
        apply hmarks.seen
        rw [Function.update_of_ne hself]
        exact h.listed id' hid'
    · by_cases hsr : s = r
      · rw [hsr, Function.update_self]
        exact iff_of_true rfl (Or.inr ⟨hleads, by simp⟩)
      · rw [Function.update_of_ne (hne hs hsr), hv hs hsr, h.marked s hs, List.mem_append,
          List.mem_singleton, or_iff_left hsr]
    · by_cases hsr : s = r
      · rw [hsr, Function.update_self] at hfalse
        cases hfalse
      · rw [Function.update_of_ne (hne hs hsr)] at hfalse
        rcases hmarks s.getId with heq | ⟨hnone', -, t, ht, hid', hno⟩
        · rw [heq, Function.update_of_ne (hne hs hsr)] at hfalse
          exact h.astray s hs hfalse
        · obtain rfl := hinj t ht s hs hid'
          rw [Function.update_of_ne (hne hs hsr)] at hnone'
          refine ⟨fun hlisted' => ?_, hno⟩
          rw [h.listed _ hlisted'] at hnone'
          cases hnone'

theorem Settled.untold (h : Settled allRoles roleIds before visited) (hr : r ∈ allRoles)
    (hmap : Maps allRoles roleMap) (hnew : r ∉ before)
    (huntold : ¬ToldInTime allRoles roleIds before r)
    (hturn : Turn roleMap roleIds depth visited r found visited') :
    ∃ s ∈ allRoles, s ∉ before ∧ s ≠ r ∧ Leads allRoles roleIds s ∧
      visited' s.getId = some false := by
  unfold ToldInTime at huntold
  push Not at huntold
  obtain ⟨hlisted, hleads, front, id, back, hroles, hfront, htelling, hid, hmem⟩ := huntold
  obtain ⟨s, hs, rfl, hsr, hsleads⟩ := htelling.resolve_left hid
  have hsnew : s ∉ before := fun hs' => hmem (List.mem_map_of_mem hs')
  have hne : s.getId ≠ r.getId := fun hid => hsr (hinj s hs r hr hid)
  have hnone := h.unseen hr hlisted hleads hnew
  refine ⟨s, hs, hsnew, hsr, hsleads, ?_⟩
  cases hturn with
  | known hseen =>
    rw [hnone] at hseen
    cases hseen
  | @searched w _ hsearch =>
    obtain ⟨d, rfl⟩ := depth_of_containsRole hsearch
    obtain ⟨v, hmarks, hin⟩ := h.first hmap hnone hroles hfront hsearch
    have hv : v s.getId = none := by
      rcases hmarks s.getId with heq | ⟨-, -, t, ht, hid', hno⟩
      · rw [heq, Function.update_of_ne hne]
        exact h.unseen hs hid hsleads hsnew
      · obtain rfl := hinj t ht s hs hid'
        exact absurd hsleads hno
    -- the search goes down into that role, and marks it
    rw [containsIn, if_neg hid, (hmap s.getId s).mpr ⟨hs, rfl⟩] at hin
    obtain ⟨⟨b, v'⟩, hb, htail⟩ := Option.bind_eq_some_iff.mp hin
    have hmarked : v' s.getId = some false := containsRole_marked hmap hv hb
    rw [Function.update_of_ne hne]
    dsimp only at htail
    split_ifs at htail
    · obtain ⟨-, rfl⟩ := Prod.mk.inj (Option.some.inj htail)
      exact hmarked
    · have hback : ∀ id' ∈ back, id' ∈ r.roles := by
        intro id' hid'
        rw [hroles]
        exact List.mem_append_right _ (List.mem_cons_of_mem _ hid')
      exact (containsIn_searched hmap (containsRole_searched hmap) hback htail).1.seen hmarked

theorem Settled.next (h : Settled allRoles roleIds before visited) (hr : r ∈ allRoles)
    (hmap : Maps allRoles roleMap) (hbefore : ∀ s ∈ before, s ∈ allRoles) (hnew : r ∉ before)
    (htold : ToldInTime allRoles roleIds before r)
    (hturn : Turn roleMap roleIds depth visited r found visited') :
    (found = true ↔ r.getId ∈ roleIds ∨ Leads allRoles roleIds r) ∧
      Settled allRoles roleIds (before ++ [r]) visited' := by
  by_cases hno : r.getId ∈ roleIds ∨ ¬Leads allRoles roleIds r
  · exact h.turn hinj hr hmap hno hturn
  · rw [not_or, not_not] at hno
    obtain ⟨hlisted, hleads⟩ := hno
    obtain ⟨rfl, hsettled⟩ := h.told hinj hr hmap hbefore hnew hlisted hleads htold hturn
    exact ⟨iff_of_true rfl (Or.inr hleads), hsettled⟩

end Turns

section Runs

variable {allRoles : List Role} {roleMap : GoString → Option Role} {roleIds : List GoString}
  {depth : ℕ}

theorem left_out (hmap : Maps allRoles roleMap) {visited : Visited} {s : Role}
    {rest res : List Role} (hrest : ∀ t ∈ rest, t ∈ allRoles)
    (hmarked : visited s.getId = some false)
    (h : ancestorsIn roleMap roleIds depth rest visited = some res) : s ∉ res := by
  induction rest generalizing visited res with
  | nil =>
    obtain rfl := Option.some.inj h
    exact List.not_mem_nil
  | cons r rest ih =>
    obtain ⟨hr, hrest⟩ := List.forall_mem_cons.mp hrest
    obtain ⟨found, v, res', hturn, hres', rfl⟩ := ancestorsIn_cons h
    have hstep : v s.getId = some false ∧ (found = true → s ≠ r) := by
      cases hturn with
      | known hseen =>
        refine ⟨hmarked, ?_⟩
        rintro rfl rfl
        rw [hmarked] at hseen
        cases hseen
      | searched hnone hsearch =>
        have hne : s.getId ≠ r.getId := by
          intro hid
          rw [hid, hnone] at hmarked
          cases hmarked
        rw [Function.update_of_ne hne]
        have hmarks := (containsRole_searched hmap _ _ _ _ hr hsearch).marks
        exact ⟨hmarks.seen hmarked, fun _ hsr => hne (congrArg Role.getId hsr)⟩
    have hno := ih hrest hstep.1 hres'
    split_ifs with hfound
    · rw [List.mem_cons, not_or]
      exact ⟨hstep.2 hfound, hno⟩
    · exact hno

theorem ancestorsIn_sublist {visited : Visited} {rest res : List Role}
    (h : ancestorsIn roleMap roleIds depth rest visited = some res) : res.Sublist rest := by
  induction rest generalizing visited res with
  | nil =>
    obtain rfl := Option.some.inj h
    exact .slnil
  | cons r rest ih =>
    obtain ⟨found, v, res', -, hres', rfl⟩ := ancestorsIn_cons h
    split_ifs
    · exact (ih hres').cons_cons r
    · exact (ih hres').cons r

theorem ancestorsIn_exact_iff (hinj : ∀ s ∈ allRoles, ∀ t ∈ allRoles, s.getId = t.getId → s = t)
    (hnodup : allRoles.Nodup) (hmap : Maps allRoles roleMap) {before rest res : List Role}
    {visited : Visited} (hsplit : before ++ rest = allRoles)
    (h : Settled allRoles roleIds before visited)
    (hrun : ancestorsIn roleMap roleIds depth rest visited = some res) :
    (∀ s, s ∈ res ↔ s ∈ rest ∧ (s.getId ∈ roleIds ∨ Leads allRoles roleIds s)) ↔
      ∀ mid r after, rest = mid ++ r :: after → ToldInTime allRoles roleIds (before ++ mid) r := by
  induction rest generalizing before visited res with
  | nil =>
    obtain rfl := Option.some.inj hrun
    refine iff_of_true (fun s => by simp) fun mid r after hrest => ?_
    exact absurd hrest.symm (List.append_ne_nil_of_right_ne_nil _ (List.cons_ne_nil _ _))
  | cons r rest ih =>
    obtain ⟨found, v, res', hturn, hres', rfl⟩ := ancestorsIn_cons hrun
    have hr : r ∈ allRoles := by
      rw [← hsplit]
      simp
    have hbefore : ∀ s ∈ before, s ∈ allRoles := fun s hs => hsplit ▸ List.mem_append_left _ hs
    have hrest : ∀ s ∈ rest, s ∈ allRoles := fun s hs =>
      hsplit ▸ List.mem_append_right _ (List.mem_cons_of_mem r hs)
    rw [← hsplit, List.nodup_append] at hnodup
    obtain ⟨-, hnodup', hdisjoint⟩ := hnodup
    obtain ⟨hr', -⟩ := List.nodup_cons.mp hnodup'
    have hnew : r ∉ before := fun hmem => hdisjoint r hmem r List.mem_cons_self rfl
    -- both sides say that this role is told of in time, and the rest of the rest
    have hnow : (∀ s, s ∈ (if found then r :: res' else res') ↔
        s ∈ r :: rest ∧ (s.getId ∈ roleIds ∨ Leads allRoles roleIds s)) →
        ToldInTime allRoles roleIds before r := by
      intro hexact
      by_contra huntold
      obtain ⟨s, hs, hsnew, hsr, hsleads, hmarked⟩ := h.untold hinj hr hmap hnew huntold hturn
      have hsrest : s ∈ r :: rest := by
        rw [← hsplit, List.mem_append] at hs
        exact hs.resolve_left hsnew
      have hres := (hexact s).mpr ⟨hsrest, Or.inr hsleads⟩
      have hout : s ∉ res' := left_out hmap hrest hmarked hres'
      split_ifs at hres
      · exact (List.mem_cons.mp hres).elim hsr hout
      · exact hout hres
    have hlater (htold : ToldInTime allRoles roleIds before r) :
        (∀ s, s ∈ (if found then r :: res' else res') ↔
          s ∈ r :: rest ∧ (s.getId ∈ roleIds ∨ Leads allRoles roleIds s)) ↔
        ∀ s, s ∈ res' ↔ s ∈ rest ∧ (s.getId ∈ roleIds ∨ Leads allRoles roleIds s) := by
      have hfound := (h.next hinj hr hmap hbefore hnew htold hturn).1
      have hout : r ∉ res' := fun hmem => hr' ((ancestorsIn_sublist hres').subset hmem)
      apply forall_congr'
      intro s
      by_cases hsr : s = r
      · subst hsr
        refine iff_of_true ?_ (iff_of_false hout fun h => hr' h.1)
        split_ifs with hf
        · exact iff_of_true List.mem_cons_self ⟨List.mem_cons_self, hfound.mp hf⟩
        · exact iff_of_false hout fun h => hf (hfound.mpr h.2)
      · rw [List.mem_cons, or_iff_right hsr]
        split_ifs
        · rw [List.mem_cons, or_iff_right hsr]
        · rfl
    have hrec (htold : ToldInTime allRoles roleIds before r) :=
      ih (by rw [List.append_assoc]; exact hsplit)
        (h.next hinj hr hmap hbefore hnew htold hturn).2 hres'
    constructor
    · intro hexact mid r' after hmid
      have htold := hnow hexact
      cases mid with
      | nil =>
        obtain ⟨rfl, -⟩ := List.cons.inj hmid
        rwa [List.append_nil]
      | cons m mid =>
        obtain ⟨rfl, hsuffix⟩ := List.cons.inj hmid
        have hall := (hrec htold).mp ((hlater htold).mp hexact) mid r' after hsuffix
        rwa [List.append_assoc] at hall
    · intro hall
      have htold : ToldInTime allRoles roleIds before r := by
        have hnil := hall [] r rest rfl
        rwa [List.append_nil] at hnil
      apply (hlater htold).mpr
      apply (hrec htold).mpr
      intro mid r' after hmid
      rw [List.append_assoc]
      exact hall (r :: mid) r' after (by rw [hmid]; rfl)

end Runs

section Exact

variable {db : Tables} {owner : GoString}

theorem mem_getRoles {r : Role} :
    r ∈ getRoles db owner ↔ r ∈ db.roles ∧ (owner = [] ∨ r.owner = owner) := by
  rw [getRoles, Migration.mem_sortBy, List.mem_filter, decide_eq_true_eq]

theorem nodup_getRoles (db : Tables) (owner : GoString) : (getRoles db owner).Nodup := by
  have hperm := List.perm_insertionSort
    (fun a b : Role => !Migration.bytesLess a.createdTime b.createdTime)
      (db.roles.filter fun r => owner = [] ∨ r.owner = owner)
  exact (hperm.nodup_iff).mpr ((List.Nodup.of_map _ db.nodup_roles).filter _)

theorem getRoles_inj (howner : owner ≠ []) : ∀ s ∈ getRoles db owner, ∀ t ∈ getRoles db owner,
    s.getId = t.getId → s = t := by
  intro s hs t ht hid
  obtain ⟨hs, hso⟩ := mem_getRoles.mp hs
  obtain ⟨ht, hto⟩ := mem_getRoles.mp ht
  have hso := hso.resolve_left howner
  have hto := hto.resolve_left howner
  rw [Role.getId, Role.getId, getId, getId, hso, hto] at hid
  have hname : s.name = t.name := (List.cons.inj (List.append_cancel_left hid)).2
  apply eq_of_key db.nodup_roles hs ht
  rw [Role.key, Role.key, hso, hto, hname]

theorem maps_getRoles (howner : owner ≠ []) :
    Maps (getRoles db owner) fun id => (getRoles db owner).reverse.find? (·.getId = id) := by
  intro id r
  constructor
  · intro h
    exact ⟨List.mem_reverse.mp (List.mem_of_find?_eq_some h), by simpa using List.find?_some h⟩
  · rintro ⟨hr, rfl⟩
    cases hfind : (getRoles db owner).reverse.find? (·.getId = r.getId) with
    | none =>
      have hno := List.find?_eq_none.mp hfind r (List.mem_reverse.mpr hr)
      exact absurd (decide_eq_true rfl) hno
    | some s =>
      have hs := List.mem_reverse.mp (List.mem_of_find?_eq_some hfind)
      have hid : s.getId = r.getId := by simpa using List.find?_some hfind
      exact hfind.trans (congrArg some (getRoles_inj howner s hs r hr hid))

/-- `GetAncestorRoles` answers with the roles of the organization that are in the list or lead to it,
each once. -/
def AncestorsExact (db : Tables) (owner : GoString) (roleIds : List GoString) : Prop :=
  ∃ res, getAncestorRoles db roleIds = some res ∧ res.Nodup ∧
    ∀ s, s ∈ res ↔ s ∈ getRoles db owner ∧
      (s.getId ∈ roleIds ∨ Leads (getRoles db owner) roleIds s)

/-- The answer is exact if and only if every role that leads to the list is told of in time. -/
theorem ancestorsExact_iff (howner : owner ≠ []) {first name : GoString} {rest : List GoString}
    (hfirst : getOwnerAndNameFromIdNoCheck first = some (owner, name)) :
    AncestorsExact db owner (first :: rest) ↔ ∀ before r after,
      getRoles db owner = before ++ r :: after →
        ToldInTime (getRoles db owner) (first :: rest) before r := by
  have hmap : Maps (getRoles db owner) fun id =>
      (getRoles db owner).reverse.find? (·.getId = id) := maps_getRoles howner
  have hrun : getAncestorRoles db (first :: rest) =
      ancestorsIn (fun id => (getRoles db owner).reverse.find? (·.getId = id)) (first :: rest)
        ((getRoles db owner).length+1) (getRoles db owner)
        fun id => if id ∈ first :: rest then some true else none := by
    rw [getAncestorRoles, hfirst, Option.bind_some]
  obtain ⟨res, hres⟩ : ∃ res, ancestorsIn
      (fun id => (getRoles db owner).reverse.find? (·.getId = id)) (first :: rest)
        ((getRoles db owner).length+1) (getRoles db owner)
        (fun id => if id ∈ first :: rest then some true else none) = some res :=
    Option.isSome_iff_exists.mp (ancestorsIn_isSome (fun id r hr => ((hmap id r).mp hr).1)
      (Nat.lt_succ_self _) (getRoles db owner) (fun r hr => hr) _)
  have hstart : Settled (getRoles db owner) (first :: rest) []
      fun id => if id ∈ first :: rest then some true else none := by
    refine ⟨fun id hid => if_pos hid, fun s hs => ?_, fun s hs hfalse => ?_⟩
    · rw [ite_eq_left_iff, or_iff_left fun h => List.not_mem_nil h.2]
      by_cases hlisted : s.getId ∈ first :: rest
      · exact iff_of_true (fun h => absurd hlisted h) hlisted
      · exact iff_of_false (fun h => by cases h hlisted) hlisted
    · split_ifs at hfalse
      exact absurd (Option.some.inj hfalse) Bool.noConfusion
  have hiff := ancestorsIn_exact_iff (getRoles_inj howner) (nodup_getRoles db owner) hmap
    (List.nil_append _) hstart hres
  have hexact : AncestorsExact db owner (first :: rest) ↔ ∀ s, s ∈ res ↔ s ∈ getRoles db owner ∧
      (s.getId ∈ first :: rest ∨ Leads (getRoles db owner) (first :: rest) s) := by
    rw [AncestorsExact, hrun, hres]
    constructor
    · rintro ⟨res', heq, -, hall⟩
      obtain rfl := Option.some.inj heq
      exact hall
    · exact fun hall => ⟨res, rfl, (ancestorsIn_sublist hres).nodup (nodup_getRoles db owner), hall⟩
  rw [hexact, hiff]
  simp only [List.nil_append]

end Exact

namespace Sample

def org : GoString := utf8 "acme"

/-- A role of the organization with some roles below it. -/
def role (name created : String) (roles : List GoString) : Role :=
  ⟨org, utf8 name, utf8 created, [], [], roles, [], true⟩

def bottom : GoString := utf8 "acme/bottom"

def middle : GoString := utf8 "acme/middle"

/-- Three roles in a chain, the bottom one created last. -/
def grown : Tables where
  users := []
  groups := []
  roles := [role "top" "2026" [middle], role "middle" "2027" [bottom], role "bottom" "2028" []]
  permissions := []
  nodup_users := List.nodup_nil
  nodup_groups := List.nodup_nil
  nodup_roles := by decide
  nodup_permissions := List.nodup_nil

/-- The same chain, the top one created last. -/
def topped : Tables where
  users := []
  groups := []
  roles := [role "top" "2028" [middle], role "middle" "2027" [bottom], role "bottom" "2026" []]
  permissions := []
  nodup_users := List.nodup_nil
  nodup_groups := List.nodup_nil
  nodup_roles := by decide
  nodup_permissions := List.nodup_nil

end Sample

/-- Listed from the bottom, the chain is found. -/
theorem ancestors_from_bottom : AncestorsExact Sample.grown Sample.org [Sample.bottom] := by
  have hfirst : getOwnerAndNameFromIdNoCheck Sample.bottom = some (Sample.org, utf8 "bottom") := by
    decide +kernel
  apply (ancestorsExact_iff (by decide +kernel) hfirst).mpr
  have hroles : getRoles Sample.grown Sample.org = [Sample.role "bottom" "2028" [],
      Sample.role "middle" "2027" [Sample.bottom], Sample.role "top" "2026" [Sample.middle]] := by
    decide +kernel
  intro before r after hsplit _ _ front id back hid _ _
  have hmem : id ∈ r.roles := by
    rw [hid]
    simp
  rw [hroles] at hsplit
  -- each role stands after the one below it
  rcases before with _ | ⟨s, _ | ⟨t, _ | ⟨u, before⟩⟩⟩
  · obtain ⟨rfl, -⟩ := List.cons.inj hsplit
    exact absurd hmem List.not_mem_nil
  · obtain ⟨rfl, hlast⟩ := List.cons.inj hsplit
    obtain ⟨rfl, -⟩ := List.cons.inj hlast
    exact Or.inl hmem
  · obtain ⟨rfl, htail⟩ := List.cons.inj hsplit
    obtain ⟨rfl, hlast⟩ := List.cons.inj htail
    obtain ⟨rfl, -⟩ := List.cons.inj hlast
    obtain rfl := List.mem_singleton.mp hmem
    exact Or.inr (by decide +kernel)
  · have hlen := congrArg List.length hsplit
    simp at hlen

/-- Listed from the top, the chain loses its middle. -/
theorem middle_left_out : ¬AncestorsExact Sample.topped Sample.org [Sample.bottom] := by
  rintro ⟨res, hres, -, hall⟩
  have hanswer : getAncestorRoles Sample.topped [Sample.bottom] =
      some [Sample.role "top" "2028" [Sample.middle], Sample.role "bottom" "2026" []] := by
    decide +kernel
  have hmiddle : Sample.role "middle" "2027" [Sample.bottom] ∈ getRoles Sample.topped Sample.org := by
    decide +kernel
  have hleads : Leads (getRoles Sample.topped Sample.org) [Sample.bottom]
      (Sample.role "middle" "2027" [Sample.bottom]) :=
    leads_of_listed List.mem_cons_self List.mem_cons_self
  have hfound := (hall _).mpr ⟨hmiddle, Or.inr hleads⟩
  obtain rfl := Option.some.inj (hanswer.symm.trans hres)
  revert hfound
  decide +kernel

end ArchGuard.Permissions
