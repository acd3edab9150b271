import ArchGuard.ObjectIds
import ArchGuard.ParentChains

/-! The groups of an organization: the tree that is shown of them, and the paths of a user's groups. -/
namespace ArchGuard.Groups
open GoStrconv GoText Object ParentChains

/-- The columns of a group that place it in the tree. -/
structure Group where
  owner : GoString
  name : GoString
  displayName : GoString
  type : GoString
  parentId : GoString
  isTopGroup : Bool
  deriving DecidableEq, Repr

/-- `checkGroupName`: what it refuses a name for. -/
def checkGroupName (isOrganization : GoString → Bool) (name : GoString) : Except GoString Unit :=
  if name = [] then .error (utf8 "group name can't be empty")
  else if slash ∈ name then .error (utf8 "group name can't contain \"/\"")
  else if isOrganization name then
    .error (utf8 "group name can't be same as the organization name")
  else .ok ()

/-- The fields of a group that the tree shows, with the groups below. -/
inductive GroupNode
  | mk (title key type owner : GoString) (children : List GroupNode)

/-- `ConvertToTreeData`: `none` while the calls are nested deeper than `fuel`. -/
def convertToTreeData (groups : List Group) : (fuel : ℕ) → (parentId : GoString) →
    Option (List GroupNode)
  | 0, _ => none
  | fuel+1, parentId => (groups.filter (·.parentId = parentId)).mapM fun group => do
      let children ← convertToTreeData groups fuel group.name
      some (.mk group.displayName group.name group.type group.owner children)

/-- A node of the tree, and below which key it stands. -/
structure Place where
  parent : GoString
  title : GoString
  key : GoString
  type : GoString
  owner : GoString
  deriving DecidableEq, Repr

mutual

def GroupNode.places (parent : GoString) : GroupNode → List Place
  | .mk title key type owner children => ⟨parent, title, key, type, owner⟩ :: places key children

def places (parent : GoString) : List GroupNode → List Place
  | [] => []
  | node :: nodes => node.places parent ++ places parent nodes

end

def Group.place (g : Group) : Place := ⟨g.parentId, g.displayName, g.name, g.type, g.owner⟩

/-- The parents below a root: a group of the root has none of its own. -/
def parentOf (groups : List Group) (root name : GoString) : Option (Option GoString) :=
  (groups.find? (·.name = name)).map fun g => if g.parentId = root then none else some g.parentId

section Tree

variable {groups : List Group} {root key : GoString} {g c : Group} {d fuel : ℕ}

theorem find?_name (hnodup : (groups.map (·.name)).Nodup) (hg : g ∈ groups) :
    groups.find? (·.name = g.name) = some g := by
  cases hfind : groups.find? (·.name = g.name) with
  | none => simpa using List.find?_eq_none.mp hfind g hg
  | some x =>
    have hx : x.name = g.name := by simpa using List.find?_some hfind
    rw [List.inj_on_of_nodup_map hnodup (List.mem_of_find?_eq_some hfind) hg hx]

theorem parentOf_name (hnodup : (groups.map (·.name)).Nodup) (hg : g ∈ groups) :
    parentOf groups root g.name = some (if g.parentId = root then none else some g.parentId) := by
  rw [parentOf, find?_name hnodup hg, Option.map_some]

theorem mem_names_of_parentOf {x : GoString} (h : (parentOf groups root x).isSome) :
    x ∈ groups.map (·.name) := by
  rw [parentOf, Option.isSome_map, List.find?_isSome] at h
  obtain ⟨g, hg, hname⟩ := h
  exact List.mem_map.mpr ⟨g, hg, by simpa using hname⟩

theorem places_map {ι : Type} (parent : GoString) (f : ι → GroupNode) (l : List ι) :
    places parent (l.map f) = l.flatMap fun i => (f i).places parent := by
  induction l with
  | nil => rfl
  | cons i l ih => rw [List.map_cons, places, ih, List.flatMap_cons]

theorem mapM_of_forall {α β : Type} {f : α → Option β} {g : α → β} {l : List α}
    (h : ∀ a ∈ l, f a = some (g a)) : l.mapM f = some (l.map g) := by
  induction l with
  | nil => rfl
  | cons a l ih =>
    rw [List.mapM_cons, h a List.mem_cons_self, ih fun b hb => h b (List.mem_cons_of_mem a hb)]
    rfl

theorem mapM_of_imp {α β : Type} {f f' : α → Option β} {l : List α} {bs : List β}
    (h : ∀ a b, f a = some b → f' a = some b) (hl : l.mapM f = some bs) : l.mapM f' = some bs := by
  induction l generalizing bs with
  | nil => exact hl
  | cons a l ih =>
    rw [List.mapM_cons] at hl ⊢
    obtain ⟨b, hb, hrest⟩ := Option.bind_eq_some_iff.mp hl
    obtain ⟨bs', hbs, hpure⟩ := Option.bind_eq_some_iff.mp hrest
    exact Option.bind_eq_some_iff.mpr
      ⟨b, h a b hb, Option.bind_eq_some_iff.mpr ⟨bs', ih hbs, hpure⟩⟩

theorem convertToTreeData_succ {tree : List GroupNode}
    (h : convertToTreeData groups fuel key = some tree) :
    convertToTreeData groups (fuel+1) key = some tree := by
  induction fuel generalizing key tree with
  | zero => cases h
  | succ fuel ih =>
    refine mapM_of_imp (fun c node hnode => ?_) h
    obtain ⟨children, hchildren, hpure⟩ := Option.bind_eq_some_iff.mp hnode
    exact Option.bind_eq_some_iff.mpr ⟨children, ih hchildren, hpure⟩

/-- What the tree below a key shows: the groups with an ancestor that has the key as its parent. -/
structure Shows (groups : List Group) (root key : GoString) (tree : List GroupNode) : Prop where
  nodup : ((places key tree).map (·.key)).Nodup
  mem_iff : ∀ p, p ∈ places key tree ↔ ∃ g ∈ groups, p = g.place ∧
    ∃ c ∈ groups, c.parentId = key ∧ ∃ m, ancestor (parentOf groups root) m g.name = some c.name

theorem parentOf_eq_some (hnodup : (groups.map (·.name)).Nodup) {x : GoString}
    (h : parentOf groups root x = some (some key)) :
    ∃ g ∈ groups, g.name = x ∧ g.parentId = key := by
  obtain ⟨g, hg, rfl⟩ := List.mem_map.mp
    (mem_names_of_parentOf (show (parentOf groups root x).isSome by rw [h]; rfl))
  rw [parentOf_name hnodup hg] at h
  split at h
  · cases Option.some.inj h
  · exact ⟨g, hg, rfl, Option.some.inj (Option.some.inj h)⟩

theorem Shows.block {tree : List GroupNode} (hnodup : (groups.map (·.name)).Nodup)
    (hroot : root ∉ groups.map (·.name)) (hc : c ∈ groups) (h : Shows groups root c.name tree)
    (p : Place) : p ∈ c.place :: places c.name tree ↔ ∃ g ∈ groups, p = g.place ∧
      ∃ m, ancestor (parentOf groups root) m g.name = some c.name := by
  rw [List.mem_cons, h.mem_iff]
  have hname : c.name ≠ root := fun hcr => hroot (hcr ▸ List.mem_map_of_mem hc)
  constructor
  · rintro (rfl | ⟨g, hg, rfl, c', hc', hpar, m, hm⟩)
    · exact ⟨c, hc, rfl, 0, rfl⟩
    · refine ⟨g, hg, rfl, m+1, ancestor_succ_eq_some.mpr ⟨c'.name, hm, ?_⟩⟩
      rw [parentOf_name hnodup hc', hpar, if_neg hname]
  · rintro ⟨g, hg, rfl, m, hm⟩
    cases m with
    | zero =>
      left
      rw [List.inj_on_of_nodup_map hnodup hg hc (Option.some.inj hm)]
    | succ m =>
      right
      obtain ⟨x, hx, hxc⟩ := ancestor_succ_eq_some.mp hm
      obtain ⟨c', hc', rfl, hpar⟩ := parentOf_eq_some hnodup hxc
      exact ⟨g, hg, rfl, c', hc', hpar, m, hx⟩

theorem exists_tree (hnodup : (groups.map (·.name)).Nodup) (hroot : root ∉ groups.map (·.name))
    (hlevel : ∀ g ∈ groups, g.parentId = key → RootAt (parentOf groups root) d g.name)
    (hd : d ≤ groups.length) (hfuel : groups.length < fuel+d) :
    ∃ tree, convertToTreeData groups fuel key = some tree ∧ Shows groups root key tree := by
  induction fuel generalizing key d with
  | zero => omega
  | succ fuel ih =>
    have hbelow : ∀ c, c ∈ groups ∧ c.parentId = key →
        ∃ tree, convertToTreeData groups fuel c.name = some tree ∧ Shows groups root c.name tree := by
      rintro c ⟨hc, hpar⟩
      have hcroot := hlevel c hc hpar
      have hlt : d < groups.length := by
        rw [← List.length_map (·.name)]
        exact hcroot.lt_length fun _ => mem_names_of_parentOf
      refine ih (d := d+1) (fun g hg hgc => ⟨c.name, ?_, hcroot⟩) hlt (by omega)
      rw [parentOf_name hnodup hg, hgc,
        if_neg fun hcr : c.name = root => hroot (hcr ▸ List.mem_map_of_mem hc)]
    choose! tree htree hshows using hbelow
    let level := groups.filter (·.parentId = key)
    let node (c : Group) : GroupNode := .mk c.displayName c.name c.type c.owner (tree c)
    have hmem {c : Group} : c ∈ level ↔ c ∈ groups ∧ c.parentId = key := by
      simp only [level, List.mem_filter, decide_eq_true_iff]
    have hnodes : convertToTreeData groups (fuel+1) key = some (level.map node) := by
      refine mapM_of_forall fun c hc => ?_
      rw [htree c (hmem.mp hc)]
      rfl
    have hplaces : places key (level.map node) =
        level.flatMap fun c => c.place :: places c.name (tree c) := by
      rw [places_map]
      refine List.flatMap_congr fun c hc => ?_
      rw [← (hmem.mp hc).2]
      rfl
    have hblock {c : Group} (hc : c ∈ level) :=
      (hshows c (hmem.mp hc)).block hnodup hroot (hmem.mp hc).1
    refine ⟨level.map node, hnodes, ?_, ?_⟩
    · have hkeys : ((places key (level.map node)).map (·.key)) =
          level.flatMap fun c => (c.place :: places c.name (tree c)).map (·.key) := by
        rw [hplaces, List.map_flatMap]
      -- A name in the block of a group stands a fixed number of steps below that group.
      have hunder {c : Group} (hc : c ∈ level) {x : GoString}
          (hx : x ∈ (c.place :: places c.name (tree c)).map (·.key)) :
          ∃ m, ancestor (parentOf groups root) m x = some c.name := by
        obtain ⟨p, hp, rfl⟩ := List.mem_map.mp hx
        obtain ⟨g, -, rfl, hup⟩ := (hblock hc p).mp hp
        exact hup
      rw [hkeys, List.nodup_flatMap]
      constructor
      · intro c hc
        obtain ⟨hcg, hpar⟩ := hmem.mp hc
        rw [List.map_cons, List.nodup_cons]
        refine ⟨fun hx => ?_, (hshows c ⟨hcg, hpar⟩).nodup⟩
        obtain ⟨p, hp, hpc⟩ := List.mem_map.mp hx
        obtain ⟨g, -, rfl, c', hc', hpar', m, hm⟩ := ((hshows c ⟨hcg, hpar⟩).mem_iff p).mp hp
        have hcycle : ancestor (parentOf groups root) (m+1) c.name = some c.name := by
          have hgc : g.name = c.name := hpc
          refine ancestor_succ_eq_some.mpr ⟨c'.name, hgc ▸ hm, ?_⟩
          rw [parentOf_name hnodup hc', hpar',
            if_neg fun hcr : c.name = root => hroot (hcr ▸ List.mem_map_of_mem hcg)]
        exact EndsAtRoot.ancestor_ne ⟨d, hlevel c hcg hpar⟩ m.succ_pos hcycle
      · have hdistinct : level.Pairwise fun c c' => c.name ≠ c'.name :=
          List.pairwise_map.mp (hnodup.sublist (List.filter_sublist.map _))
        refine hdistinct.imp_of_mem fun hc hc' hne x hx hx' => hne ?_
        obtain ⟨m, hm⟩ := hunder hc hx
        obtain ⟨m', hm'⟩ := hunder hc' hx'
        have hdepth := rootAt_of_ancestor hm (hlevel _ (hmem.mp hc).1 (hmem.mp hc).2)
        have hdepth' := rootAt_of_ancestor hm' (hlevel _ (hmem.mp hc').1 (hmem.mp hc').2)
        have hsteps : d+m = d+m' := rootAt_unique hdepth hdepth'
        obtain rfl : m = m' := by omega
        exact Option.some.inj (hm.symm.trans hm')
    · intro p
      rw [hplaces, List.mem_flatMap]
      constructor
      · rintro ⟨c, hc, hp⟩
        obtain ⟨g, hg, rfl, hup⟩ := (hblock hc p).mp hp
        exact ⟨g, hg, rfl, c, (hmem.mp hc).1, (hmem.mp hc).2, hup⟩
      · rintro ⟨g, hg, rfl, c, hc, hpar, hup⟩
        exact ⟨c, hmem.mpr ⟨hc, hpar⟩, (hblock (hmem.mpr ⟨hc, hpar⟩) _).mpr ⟨g, hg, rfl, hup⟩⟩

theorem Shows.root_mem_iff {tree : List GroupNode} (hnodup : (groups.map (·.name)).Nodup)
    (h : Shows groups root root tree) (p : Place) : p ∈ places root tree ↔
      ∃ g ∈ groups, p = g.place ∧ EndsAtRoot (parentOf groups root) g.name := by
  rw [h.mem_iff]
  refine exists_congr fun g => and_congr_right fun _ => and_congr_right fun _ => ?_
  constructor
  · rintro ⟨c, hc, hpar, m, hm⟩
    have hzero : RootAt (parentOf groups root) 0 c.name := by
      rw [RootAt, parentOf_name hnodup hc, if_pos hpar]
    exact ⟨0+m, rootAt_of_ancestor hm hzero⟩
  · rintro ⟨n, hn⟩
    obtain ⟨x, hx, htop⟩ := hn.exists_top
    obtain ⟨c, hc, rfl⟩ := List.mem_map.mp 
      (mem_names_of_parentOf (show (parentOf groups root x).isSome by rw [htop]; rfl))
    rw [parentOf_name hnodup hc] at htop
    split at htop
    · rename_i hpar
      exact ⟨c, hc, hpar, n, hx⟩
    · cases Option.some.inj htop

/-- `ConvertToTreeData` of an organization's groups ends with calls nested no deeper than there are
groups and one more. A group whose parents lead to the root occurs once, below its parent; no other
group occurs, and nothing that is not a group. -/
theorem convertToTreeData_complete (hnodup : (groups.map (·.name)).Nodup)
    (hroot : root ∉ groups.map (·.name)) :
    ∃ tree, (∀ fuel, groups.length < fuel → convertToTreeData groups fuel root = some tree) ∧
      (∀ g ∈ groups, EndsAtRoot (parentOf groups root) g.name →
        (places root tree).countP (·.key = g.name) = 1 ∧ g.place ∈ places root tree) ∧
      (∀ g ∈ groups, ¬EndsAtRoot (parentOf groups root) g.name →
        ∀ p ∈ places root tree, p.key ≠ g.name) ∧
      ∀ p ∈ places root tree, ∃ g ∈ groups, p = g.place := by
  have hlevel : ∀ g ∈ groups, g.parentId = root → RootAt (parentOf groups root) 0 g.name := by
    intro g hg hpar
    rw [RootAt, parentOf_name hnodup hg, if_pos hpar]
  obtain ⟨tree, htree, hshows⟩ : ∃ tree,
      convertToTreeData groups (groups.length+1) root = some tree ∧ Shows groups root root tree :=
    exists_tree hnodup hroot hlevel (Nat.zero_le _) (by omega)
  have hmem := hshows.root_mem_iff hnodup
  refine ⟨tree, fun fuel hfuel => ?_, fun g hg hends => ?_, fun g hg hends p hp hkey => ?_,
    fun p hp => ?_⟩
  · induction fuel, (show groups.length+1 ≤ fuel from hfuel) using Nat.le_induction with
    | base => exact htree
    | succ fuel hle ih => exact convertToTreeData_succ (ih hle)
  · have hplace : g.place ∈ places root tree := (hmem _).mpr ⟨g, hg, rfl, hends⟩
    refine ⟨?_, hplace⟩
    have hcount : ((places root tree).map (·.key)).count g.name = 1 :=
      List.count_eq_one_of_mem hshows.nodup (List.mem_map.mpr ⟨g.place, hplace, rfl⟩)
    rw [List.count, List.countP_map] at hcount
    rw [← hcount]
    refine List.countP_congr fun p _ => ?_
    simp
  · obtain ⟨g', hg', rfl, hends'⟩ := (hmem p).mp hp
    obtain rfl := List.inj_on_of_nodup_map hnodup hg' hg hkey
    exact hends hends'
  · obtain ⟨g, hg, hp, -⟩ := (hmem p).mp hp
    exact ⟨g, hg, hp⟩

end Tree

namespace Sample

def group (name parentId : String) : Group := ⟨"org", name, name, "", parentId, false⟩

/-- Two levels, a cycle, and a parent that is gone. -/
def groups : List Group :=
  [group "b" "a", group "a" "org", group "x" "y", group "y" "x", group "z" "gone"]

theorem groups_names : (groups.map (·.name)).Nodup ∧ (utf8 "org") ∉ groups.map (·.name) ∧
    parentOf groups (utf8 "org") (utf8 "b") = some (some (utf8 "a")) ∧
    parentOf groups (utf8 "org") (utf8 "a") = some none := by
  decide

end Sample

theorem groups_shown : ∃ tree, (∀ fuel, 5 < fuel →
    convertToTreeData Sample.groups fuel (utf8 "org") = some tree) ∧
      (places (utf8 "org") tree).countP (·.key = utf8 "b") = 1 ∧
      (Sample.group "b" "a").place ∈ places (utf8 "org") tree := by
  obtain ⟨hnodup, hroot, hb, ha⟩ := Sample.groups_names
  obtain ⟨tree, htree, honce, -⟩ := convertToTreeData_complete hnodup hroot
  exact ⟨tree, htree, honce (Sample.group "b" "a") List.mem_cons_self ⟨1, utf8 "a", hb, ha⟩⟩

section Paths

/-- A user, with references to groups. -/
structure User (Ref : Type) where
  owner : GoString
  groups : List Ref
  deriving DecidableEq, Repr

/-- How `GetUserFullGroupPath` fails: an identifier without a slash is indexed out of range. -/
inductive PathFailure
  | index
  | missing (parentId : GoString)
  deriving DecidableEq, Repr

def PathFailure.text : PathFailure → GoString
  | .index => utf8 "index out of range [1] with length 1"
  | .missing parentId => utf8 "The group: " ++ parentId ++ utf8 " does not exist"

def getGroups (table : List Group) (owner : GoString) : List Group :=
  table.filter (·.owner = owner)

/-- The map of the groups by their names, where the last of a name stays. -/
def groupNamed (groups : List Group) (name : GoString) : Option Group :=
  groups.reverse.find? (·.name = name)

/-- The loop from `curGroup` up: `none` while it takes more than `fuel` turns. -/
def climb (groups : List Group) : (fuel : ℕ) → (groupPath : GoString) → (curGroup : Group) →
    Option (Except PathFailure GoString)
  | 0, _, _ => none
  | fuel+1, groupPath, curGroup =>
    let path := getId curGroup.name groupPath
    if curGroup.isTopGroup then some (.ok (getId curGroup.owner path))
    else match groupNamed groups curGroup.parentId with
      -- The group that the message is about has been overwritten by then.
      | none => some (.error (.missing []))
      | some parent => climb groups fuel path parent

/-- The path of one identifier: an unknown group has none. -/
def pathOf (groups : List Group) (fuel : ℕ) (groupId : GoString) :
    Option (Except PathFailure (Option GoString)) :=
  match getOwnerAndNameFromIdNoCheck groupId with
  | none => some (.error .index)
  | some (_, groupName) =>
    match groupNamed groups groupName with
    | none => some (.ok none)
    | some group =>
      match groupNamed groups group.parentId with
      | none => some (.error (.missing group.parentId))
      | some curGroup => (climb groups fuel groupName curGroup).map (·.map some)

def pathsOf (groups : List Group) (fuel : ℕ) : List GoString →
    Option (Except PathFailure (List GoString))
  | [] => some (.ok [])
  | groupId :: groupIds =>
    match pathOf groups fuel groupId with
    | none => none
    | some (.error failure) => some (.error failure)
    | some (.ok path) => (pathsOf groups fuel groupIds).map (·.map (path.toList ++ ·))

def getUserFullGroupPath (table : List Group) (fuel : ℕ) (user : User GoString) :
    Option (Except PathFailure (List GoString)) :=
  if user.groups = [] then some (.ok [])
  else pathsOf (getGroups table user.owner) fuel user.groups

/-- The parents as the loop takes them: a top group has none. -/
def above (groups : List Group) (name : GoString) : Option (Option GoString) :=
  (groupNamed groups name).map fun g => if g.isTopGroup then none else some g.parentId

/-- The parents above a name come to an end, at a top group or at a name without a group. -/
def Ends (groups : List Group) (name : GoString) : Prop :=
  ∃ n, ancestor (above groups) n name = none

variable {groups : List Group} {fuel : ℕ} {path k : GoString} {g cur : Group}
  {out : Except PathFailure GoString}

theorem groupNamed_eq_some (h : groupNamed groups k = some g) : g ∈ groups ∧ g.name = k :=
  ⟨List.mem_reverse.mp (List.mem_of_find?_eq_some h), by simpa using List.find?_some h⟩

theorem groupNamed_name (hnodup : (groups.map (·.name)).Nodup) (hg : g ∈ groups) :
    groupNamed groups g.name = some g := by
  refine find?_name ?_ (List.mem_reverse.mpr hg)
  rw [List.map_reverse]
  exact List.nodup_reverse.mpr hnodup

theorem climb_cases (h : climb groups (fuel+1) path cur = some out) :
    (cur.isTopGroup ∧ out = .ok (getId cur.owner (getId cur.name path))) ∨
    (¬cur.isTopGroup ∧ groupNamed groups cur.parentId = none ∧ out = .error (.missing [])) ∨
    ¬cur.isTopGroup ∧ ∃ parent, groupNamed groups cur.parentId = some parent ∧
      climb groups fuel (getId cur.name path) parent = some out := by
  rw [climb] at h
  split at h
  · rename_i htop
    exact .inl ⟨htop, (Option.some.inj h).symm⟩
  · rename_i htop
    split at h
    · rename_i hparent
      exact .inr (.inl ⟨htop, hparent, (Option.some.inj h).symm⟩)
    · rename_i parent hparent
      exact .inr (.inr ⟨htop, parent, hparent, h⟩)

theorem above_named (hk : groupNamed groups k = some cur) :
    above groups k = some (if cur.isTopGroup then none else some cur.parentId) := by
  rw [above, hk, Option.map_some]

theorem above_parent (hk : groupNamed groups k = some cur) (htop : ¬cur.isTopGroup) :
    above groups k = some (some cur.parentId) := by
  rw [above_named hk, if_neg htop]

theorem ancestor_succ_named (hk : groupNamed groups k = some cur) (htop : ¬cur.isTopGroup) (n : ℕ) :
    ancestor (above groups) (n+1) k = ancestor (above groups) n cur.parentId := by
  rw [ancestor, above_parent hk htop]
  rfl

theorem ends_of_climb (hk : groupNamed groups k = some cur)
    (h : climb groups fuel path cur = some out) : Ends groups k := by
  induction fuel generalizing path cur k with
  | zero => cases h
  | succ fuel ih =>
    rcases climb_cases h with ⟨htop, -⟩ | ⟨htop, hparent, -⟩ | ⟨htop, parent, hparent, hrest⟩
    · refine ⟨1, ?_⟩
      rw [ancestor, above_named hk, if_pos htop]
      rfl
    · refine ⟨2, ?_⟩
      rw [ancestor_succ_named hk htop, ancestor, above, hparent]
      rfl
    · obtain ⟨n, hn⟩ := ih hparent hrest
      exact ⟨n+1, by rw [ancestor_succ_named hk htop, hn]⟩

theorem climb_of_ends (hk : groupNamed groups k = some cur) (h : Ends groups k) (path : GoString) :
    ∃ fuel out, climb groups fuel path cur = some out := by
  obtain ⟨n, hn⟩ := h
  induction n generalizing path cur k with
  | zero => cases hn
  | succ n ih =>
    by_cases htop : cur.isTopGroup
    · exact ⟨1, _, by rw [climb, if_pos htop]⟩
    · rw [ancestor_succ_named hk htop] at hn
      cases hparent : groupNamed groups cur.parentId with
      | none => exact ⟨1, .error (.missing []), by rw [climb, if_neg htop, hparent]⟩
      | some parent =>
        obtain ⟨fuel, out, hout⟩ := ih hparent (getId cur.name path) hn
        exact ⟨fuel+1, out, by rw [climb, if_neg htop, hparent]; exact hout⟩

theorem climb_succ (h : climb groups fuel path cur = some out) :
    climb groups (fuel+1) path cur = some out := by
  induction fuel generalizing path cur with
  | zero => cases h
  | succ fuel ih =>
    rw [climb]
    rcases climb_cases h with ⟨htop, rfl⟩ | ⟨htop, hparent, rfl⟩ | ⟨htop, parent, hparent, hrest⟩
    · rw [if_pos htop]
    · rw [if_neg htop, hparent]
    · rw [if_neg htop, hparent]
      exact ih hrest

theorem climb_ok_iff (hk : groupNamed groups k = some cur)
    (h : climb groups fuel path cur = some out) :
    (∃ p, out = .ok p) ↔ EndsAtRoot (above groups) k := by
  induction fuel generalizing path cur k with
  | zero => cases h
  | succ fuel ih =>
    rcases climb_cases h with ⟨htop, rfl⟩ | ⟨htop, hparent, rfl⟩ | ⟨htop, parent, hparent, hrest⟩
    · exact iff_of_true ⟨_, rfl⟩ ⟨0, by rw [RootAt, above_named hk, if_pos htop]⟩
    · refine iff_of_false (fun ⟨p, hp⟩ => by cases hp) ?_
      rw [endsAtRoot_iff_parent (above_parent hk htop)]
      exact not_endsAtRoot (by rw [above, hparent]; rfl)
    · rw [ih hparent hrest, endsAtRoot_iff_parent (above_parent hk htop)]

/-- The parents of the identifier's group come to an end, if it has a group. -/
def Finishes (groups : List Group) (groupId : GoString) : Prop :=
  ∀ k ∈ getOwnerAndNameFromIdNoCheck groupId, ∀ g ∈ groupNamed groups k.2, Ends groups g.parentId

/-- The identifier has a slash, and the parents of its group, if it has one, lead to a top group. -/
def Passes (groups : List Group) (groupId : GoString) : Prop :=
  ∃ k ∈ getOwnerAndNameFromIdNoCheck groupId,
    ∀ g ∈ groupNamed groups k.2, EndsAtRoot (above groups) g.parentId

/-- The parents come to an end for each identifier up to the first that does not pass. -/
def Completes (groups : List Group) : List GoString → Prop
  | [] => True
  | groupId :: groupIds =>
    Finishes groups groupId ∧ (Passes groups groupId → Completes groups groupIds)

variable {groupId : GoString} {groupIds : List GoString}

theorem exists_pathOf_iff :
    (∃ fuel out, pathOf groups fuel groupId = some out) ↔ Finishes groups groupId := by
  unfold pathOf Finishes
  cases hid : getOwnerAndNameFromIdNoCheck groupId with
  | none => simp
  | some k =>
    simp only [Option.mem_some_iff, forall_eq']
    cases hgroup : groupNamed groups k.2 with
    | none => simp
    | some g =>
      simp only [Option.mem_some_iff, forall_eq']
      cases hparent : groupNamed groups g.parentId with
      | none =>
        have hends : Ends groups g.parentId := ⟨1, by rw [ancestor, above, hparent]; rfl⟩
        exact iff_of_true ⟨0, _, rfl⟩ hends
      | some cur =>
        simp only [Option.map_eq_some_iff]
        constructor
        · rintro ⟨fuel, -, out, hout, -⟩
          exact ends_of_climb hparent hout
        · intro h
          obtain ⟨fuel, out, hout⟩ := climb_of_ends hparent h k.2
          exact ⟨fuel, _, out, hout, rfl⟩

theorem pathOf_ok_iff {out : Except PathFailure (Option GoString)}
    (h : pathOf groups fuel groupId = some out) :
    (∃ path, out = .ok path) ↔ Passes groups groupId := by
  unfold pathOf at h
  unfold Passes
  cases hid : getOwnerAndNameFromIdNoCheck groupId with
  | none =>
    rw [hid] at h
    obtain rfl := Option.some.inj h
    simp
  | some k =>
    simp only [Option.mem_some_iff, exists_eq_left']
    cases hgroup : groupNamed groups k.2 with
    | none =>
      simp only [hid, hgroup, Option.some.injEq] at h
      obtain rfl := h
      simp
    | some g =>
      simp only [Option.mem_some_iff, forall_eq']
      cases hparent : groupNamed groups g.parentId with
      | none =>
        simp only [hid, hgroup, hparent, Option.some.injEq] at h
        obtain rfl := h
        have hends : ¬EndsAtRoot (above groups) g.parentId :=
          not_endsAtRoot (by rw [above, hparent]; rfl)
        simpa using hends
      | some cur =>
        simp only [hid, hgroup, hparent, Option.map_eq_some_iff] at h
        obtain ⟨out, hout, rfl⟩ := h
        rw [← climb_ok_iff hparent hout]
        cases out <;> simp [Except.map]

theorem pathOf_succ {out : Except PathFailure (Option GoString)}
    (h : pathOf groups fuel groupId = some out) : pathOf groups (fuel+1) groupId = some out := by
  unfold pathOf at h ⊢
  split at h
  · exact h
  · split at h
    · exact h
    · split at h
      · exact h
      · obtain ⟨out, hout, rfl⟩ := Option.map_eq_some_iff.mp h
        rw [climb_succ hout]
        rfl

theorem pathsOf_cases {out : Except PathFailure (List GoString)}
    (h : pathsOf groups fuel (groupId :: groupIds) = some out) :
    (∃ failure, pathOf groups fuel groupId = some (.error failure) ∧ out = .error failure) ∨
    ∃ path rest, pathOf groups fuel groupId = some (.ok path) ∧
      pathsOf groups fuel groupIds = some rest ∧ out = rest.map (path.toList ++ ·) := by
  rw [pathsOf] at h
  split at h
  · cases h
  · rename_i failure hpath
    exact .inl ⟨failure, hpath, (Option.some.inj h).symm⟩
  · rename_i path hpath
    obtain ⟨rest, hrest, hout⟩ := Option.map_eq_some_iff.mp h
    exact .inr ⟨path, rest, hpath, hrest, hout.symm⟩

theorem pathOf_le {fuel' : ℕ} {out : Except PathFailure (Option GoString)} (hle : fuel ≤ fuel')
    (h : pathOf groups fuel groupId = some out) : pathOf groups fuel' groupId = some out := by
  induction fuel', hle using Nat.le_induction with
  | base => exact h
  | succ fuel' _ ih => exact pathOf_succ ih

theorem pathsOf_le {fuel' : ℕ} {out : Except PathFailure (List GoString)} (hle : fuel ≤ fuel')
    (h : pathsOf groups fuel groupIds = some out) : pathsOf groups fuel' groupIds = some out := by
  induction groupIds generalizing out with
  | nil => exact h
  | cons groupId groupIds ih =>
    rw [pathsOf]
    rcases pathsOf_cases h with ⟨failure, hpath, rfl⟩ | ⟨path, rest, hpath, hrest, rfl⟩
    · rw [pathOf_le hle hpath]
    · rw [pathOf_le hle hpath, ih hrest]
      rfl

theorem exists_pathsOf_iff :
    (∃ fuel out, pathsOf groups fuel groupIds = some out) ↔ Completes groups groupIds := by
  induction groupIds with
  | nil => exact iff_of_true ⟨0, _, rfl⟩ trivial
  | cons groupId groupIds ih =>
    rw [Completes, ← ih, ← exists_pathOf_iff]
    constructor
    · rintro ⟨fuel, out, h⟩
      rcases pathsOf_cases h with ⟨failure, hpath, rfl⟩ | ⟨path, rest, hpath, hrest, rfl⟩
      · refine ⟨⟨fuel, _, hpath⟩, fun hpasses => ?_⟩
        obtain ⟨path, hok⟩ := (pathOf_ok_iff hpath).mpr hpasses
        cases hok
      · exact ⟨⟨fuel, _, hpath⟩, fun _ => ⟨fuel, rest, hrest⟩⟩
    · rintro ⟨⟨fuel, out, hpath⟩, hrest⟩
      cases out with
      | error failure => exact ⟨fuel, .error failure, by rw [pathsOf, hpath]⟩
      | ok path =>
        obtain ⟨fuel', rest, hrest⟩ := hrest ((pathOf_ok_iff hpath).mp ⟨path, rfl⟩)
        refine ⟨max fuel fuel', rest.map (path.toList ++ ·), ?_⟩
        rw [pathsOf, pathOf_le (le_max_left _ _) hpath, pathsOf_le (le_max_right _ _) hrest]
        rfl

/-- A group in a forest below the organization, with the names from its top group down to it. -/
inductive Placed (groups : List Group) (organization : GoString) : Group → List GoString → Prop
  | top {g : Group} : g ∈ groups → g.isTopGroup → g.parentId = organization →
      Placed groups organization g [g.name]
  | under {g parent : Group} {segments : List GoString} : g ∈ groups → ¬g.isTopGroup →
      g.parentId = parent.name → Placed groups organization parent segments →
      Placed groups organization g (segments ++ [g.name])

variable {organization : GoString} {segments : List GoString}

theorem Placed.mem (h : Placed groups organization g segments) : g ∈ groups := by
  cases h with
  | top hg _ _ => exact hg
  | under hg _ _ _ => exact hg

theorem join_getId (names : List GoString) (name rest : GoString) :
    join slash (names ++ [getId name rest]) = join slash (names ++ [name, rest]) := by
  induction names with
  | nil => simp [join, getId]
  | cons x names ih =>
    rw [join, join] at ih ⊢
    rw [List.cons_append, List.cons_append, List.intercalate_cons_of_ne_nil (by simp),
      List.intercalate_cons_of_ne_nil (by simp), ih]

theorem climb_placed (hnodup : (groups.map (·.name)).Nodup)
    (howner : ∀ g ∈ groups, g.owner = organization) (h : Placed groups organization g segments)
    (path : GoString) : climb groups segments.length path g =
      some (.ok (join slash (organization :: segments ++ [path]))) := by
  induction h generalizing path with
  | top hg htop _ =>
    rw [List.length_singleton, climb, if_pos htop, howner _ hg]
    simp [join, getId]
  | under hg htop hparent hplaced ih =>
    rw [List.length_append, List.length_singleton, climb, if_neg htop, hparent,
      groupNamed_name hnodup hplaced.mem]
    simp only
    rw [ih, join_getId]
    simp

/-- The groups of the user, each with its place in the forest. -/
def InForest (groups : List Group) (user : User GoString) : Prop :=
  ∀ groupId ∈ user.groups, ∃ k ∈ getOwnerAndNameFromIdNoCheck groupId, ∃ g segments,
    g.name = k.2 ∧ Placed groups user.owner g segments

/-- The path of an identifier: the organization, then the names from the top group down. -/
def IsPath (groups : List Group) (organization groupId path : GoString) : Prop :=
  ∃ k ∈ getOwnerAndNameFromIdNoCheck groupId, ∃ g segments, g.name = k.2 ∧
    Placed groups organization g segments ∧ path = join slash (organization :: segments)

def IsTop (groups : List Group) (groupId : GoString) : Prop :=
  ∃ k ∈ getOwnerAndNameFromIdNoCheck groupId, ∃ g ∈ groupNamed groups k.2, g.isTopGroup

theorem pathOf_placed (hnodup : (groups.map (·.name)).Nodup)
    (howner : ∀ g ∈ groups, g.owner = organization) {id : GoString × GoString}
    (hid : id ∈ getOwnerAndNameFromIdNoCheck groupId) (hname : g.name = id.2)
    (h : Placed groups organization g segments) (htop : ¬g.isTopGroup) :
    pathOf groups segments.length groupId =
      some (.ok (some (join slash (organization :: segments)))) := by
  have hgroup : groupNamed groups id.2 = some g := by
    rw [← hname, groupNamed_name hnodup h.mem]
  cases h with
  | top _ htop' _ => exact absurd htop' htop
  | @under _ parent segments hg _ hparent hplaced =>
    unfold pathOf
    simp only [Option.mem_def.mp hid, hgroup]
    rw [hparent, groupNamed_name hnodup hplaced.mem, List.length_append, List.length_singleton]
    simp only
    rw [climb_succ (climb_placed hnodup howner hplaced id.2), hname]
    rfl

/-- Next to the organization there is no group above a top group. -/
theorem pathOf_top (horganization : organization ∉ groups.map (·.name)) {id : GoString × GoString}
    (hid : id ∈ getOwnerAndNameFromIdNoCheck groupId) (hgroup : groupNamed groups id.2 = some g)
    (h : Placed groups organization g segments) (htop : g.isTopGroup) :
    pathOf groups fuel groupId = some (.error (.missing organization)) := by
  have hparent : g.parentId = organization := by
    cases h with
    | top _ _ hparent => exact hparent
    | under _ hnot _ _ => exact absurd htop hnot
  have hnone : groupNamed groups organization = none := by
    cases hfind : groupNamed groups organization with
    | none => rfl
    | some x =>
      obtain ⟨hx, hxname⟩ := groupNamed_eq_some hfind
      exact absurd (hxname ▸ List.mem_map_of_mem hx) horganization
  unfold pathOf
  simp only [Option.mem_def.mp hid, hgroup, hparent, hnone]

theorem exists_paths_iff (hnodup : (groups.map (·.name)).Nodup)
    (howner : ∀ g ∈ groups, g.owner = organization)
    (horganization : organization ∉ groups.map (·.name))
    (hforest : ∀ id ∈ groupIds, ∃ k ∈ getOwnerAndNameFromIdNoCheck id, ∃ g segments,
      g.name = k.2 ∧ Placed groups organization g segments) :
    (∃ fuel paths, pathsOf groups fuel groupIds = some (.ok paths) ∧
      List.Forall₂ (IsPath groups organization) groupIds paths) ↔
    ∀ id ∈ groupIds, ¬IsTop groups id := by
  induction groupIds with
  | nil => exact iff_of_true ⟨0, [], rfl, .nil⟩ (by simp)
  | cons id groupIds ih =>
    obtain ⟨k, hk, g, segments, hname, hplaced⟩ := hforest id List.mem_cons_self
    have hgroup : groupNamed groups k.2 = some g := by
      rw [← hname, groupNamed_name hnodup hplaced.mem]
    have htop : IsTop groups id ↔ g.isTopGroup := by
      rw [IsTop, Option.mem_def.mp hk]
      simp [hgroup]
    rw [List.forall_mem_cons, htop, ← ih fun i hi => hforest i (List.mem_cons_of_mem id hi)]
    constructor
    · rintro ⟨fuel, paths, hpaths, hpath⟩
      rcases pathsOf_cases hpaths with ⟨failure, -, hfailure⟩ | ⟨path, rest, hhead, hrest, hout⟩
      · cases hfailure
      · have hnot : ¬g.isTopGroup := by
          intro htop
          rw [pathOf_top horganization hk hgroup hplaced htop] at hhead
          cases hhead
        have hsome := pathOf_le (le_max_left segments.length fuel)
          (pathOf_placed hnodup howner hk hname hplaced hnot)
        rw [pathOf_le (le_max_right segments.length fuel) hhead] at hsome
        obtain rfl := Except.ok.inj (Option.some.inj hsome)
        cases rest with
        | error failure => cases hout
        | ok ps =>
          obtain rfl := Except.ok.inj hout
          exact ⟨hnot, fuel, ps, hrest, (List.forall₂_cons.mp hpath).2⟩
    · rintro ⟨htop, fuel, paths, hpaths, hpath⟩
      refine ⟨max segments.length fuel, join slash (organization :: segments) :: paths, ?_,
        .cons ⟨k, hk, g, segments, hname, hplaced, rfl⟩ hpath⟩
      rw [pathsOf, pathOf_le (le_max_left _ _) (pathOf_placed hnodup howner hk hname hplaced htop),
        pathsOf_le (le_max_right _ _) hpaths]
      rfl

end Paths

section Store

inductive GroupError
  | name (text : GoString)
  | id
  | unauthorized
  | trigger
  | duplicate
  deriving DecidableEq, Repr

/-- `AddGroup`: the name is unique in the table. -/
def addGroup (isOrganization : GoString → Bool) (table : List Group) (group : Group) :
    List Group × Except GroupError Bool :=
  match checkGroupName isOrganization group.name with
  | .error text => (table, .error (.name text))
  | .ok () =>
    if group.name ∈ table.map (·.name) then (table, .error .duplicate)
    else (table ++ [group], .ok true)

def getGroup (table : List Group) (owner name : GoString) : Option Group :=
  if owner = [] ∨ name = [] then none
  else table.find? fun g => g.owner = owner ∧ g.name = name

/-- The part of `GroupChangeTrigger` that is about groups. -/
def groupChangeTrigger (table : List Group) (oldName newName : GoString) : List Group :=
  table.map fun g => if g.parentId = oldName then { g with parentId := newName } else g

/-- The table that the row is updated in: the trigger runs for a new name. -/
def afterTrigger (table : List Group) (name newName : GoString) : List Group :=
  if name = newName then table else groupChangeTrigger table name newName

structure UpdateRequest where
  id : GoString
  group : Group
  isGlobalAdmin : Bool
  /-- The trigger's transaction is committed. -/
  triggered : Bool
  deriving DecidableEq, Repr

/-- `UpdateGroup`: the trigger is committed before the row is updated. -/
def updateGroup (isOrganization : GoString → Bool) (table : List Group) (req : UpdateRequest) :
    List Group × Except GroupError Bool :=
  match getOwnerAndNameFromIdWithError req.id with
  | none => (table, .error .id)
  | some (owner, name) =>
    match getGroup table owner name with
    | none => (table, .ok false)
    | some oldGroup =>
      if ¬req.isGlobalAdmin ∧ oldGroup.owner ≠ req.group.owner then (table, .error .unauthorized)
      else match checkGroupName isOrganization req.group.name with
        | .error text => (table, .error (.name text))
        | .ok () =>
          if name ≠ req.group.name ∧ ¬req.triggered then (table, .error .trigger)
          else if name ≠ req.group.name ∧ req.group.name ∈ table.map (·.name) then
            (afterTrigger table name req.group.name, .error .duplicate)
          else ((afterTrigger table name req.group.name).map fun g =>
            if g.owner = owner ∧ g.name = name then req.group else g, .ok true)

/-- The tables that `AddGroup` and `UpdateGroup` leave, whatever they are called with. -/
inductive Stored (isOrganization : GoString → Bool) : List Group → Prop
  | empty : Stored isOrganization []
  | add {table : List Group} (group : Group) : Stored isOrganization table →
      Stored isOrganization (addGroup isOrganization table group).1
  | update {table : List Group} (req : UpdateRequest) : Stored isOrganization table →
      Stored isOrganization (updateGroup isOrganization table req).1

/-- Every name is unique and passes its check. -/
structure Accepted (isOrganization : GoString → Bool) (table : List Group) : Prop where
  nodup : (table.map (·.name)).Nodup
  checked : ∀ name ∈ table.map (·.name), checkGroupName isOrganization name = .ok ()

variable {isOrganization : GoString → Bool} {table : List Group}

theorem Accepted.addGroup (h : Accepted isOrganization table) (group : Group) :
    Accepted isOrganization (addGroup isOrganization table group).1 := by
  unfold Groups.addGroup
  split
  · exact h
  · rename_i hcheck
    split
    · exact h
    · rename_i hnew
      constructor
      · rw [List.map_append, List.map_singleton]
        exact h.nodup.append (by simp) (by simpa using hnew)
      · intro name hname
        rw [List.map_append, List.map_singleton, List.mem_append, List.mem_singleton] at hname
        rcases hname with hname | rfl
        · exact h.checked name hname
        · exact hcheck

theorem map_afterTrigger {α : Type} (name newName : GoString) (f : GoString → GoString → α) :
    (afterTrigger table name newName).map (fun g => f g.owner g.name) =
      table.map fun g => f g.owner g.name := by
  rw [afterTrigger]
  split
  · rfl
  · rw [groupChangeTrigger, List.map_map]
    refine List.map_congr_left fun g _ => ?_
    simp only [Function.comp_apply]
    split <;> rfl

theorem Accepted.rename (h : Accepted isOrganization table) {name newName : GoString}
    (hcheck : checkGroupName isOrganization newName = .ok ())
    (hnew : name ≠ newName → newName ∉ table.map (·.name)) :
    ((table.map (·.name)).map fun x => if x = name then newName else x).Nodup ∧
      ∀ x ∈ (table.map (·.name)).map fun x => if x = name then newName else x,
        checkGroupName isOrganization x = .ok () := by
  constructor
  · refine h.nodup.map_on fun x hx y hy hxy => ?_
    by_cases hname : name = newName
    · subst hname
      grind
    · have hfree := hnew hname
      grind
  · intro x hx
    obtain ⟨y, hy, rfl⟩ := List.mem_map.mp hx
    split
    · exact hcheck
    · exact h.checked y hy

theorem Accepted.of_names {table' : List Group} (h : Accepted isOrganization table)
    (hnames : table'.map (·.name) = table.map (·.name)) : Accepted isOrganization table' :=
  ⟨hnames ▸ h.nodup, hnames ▸ h.checked⟩

theorem map_name_replaced (hnodup : (table.map (·.name)).Nodup) {old : Group} (hold : old ∈ table)
    (group : Group) : (table.map fun g =>
      if g.owner = old.owner ∧ g.name = old.name then group.name else g.name) =
        (table.map (·.name)).map fun x => if x = old.name then group.name else x := by
  rw [List.map_map]
  refine List.map_congr_left fun g hg => ?_
  simp only [Function.comp_apply]
  by_cases hname : g.name = old.name
  · obtain rfl := List.inj_on_of_nodup_map hnodup hg hold hname
    simp
  · simp [hname]

theorem getGroup_eq_some {owner name : GoString} {g : Group}
    (h : getGroup table owner name = some g) : g ∈ table ∧ g.owner = owner ∧ g.name = name := by
  rw [getGroup] at h
  split at h
  · cases h
  · exact ⟨List.mem_of_find?_eq_some h, by simpa using List.find?_some h⟩

theorem Accepted.updateGroup (h : Accepted isOrganization table) (req : UpdateRequest) :
    Accepted isOrganization (updateGroup isOrganization table req).1 := by
  unfold Groups.updateGroup
  split
  · exact h
  rename_i owner name hid
  split
  · exact h
  rename_i old hold
  obtain ⟨hmem, rfl, rfl⟩ := getGroup_eq_some hold
  split
  · exact h
  split
  · exact h
  rename_i hcheck
  split
  · exact h
  split
  · exact h.of_names (map_afterTrigger old.name req.group.name fun _ name => name)
  · rename_i hfree
    have hnames := (map_afterTrigger old.name req.group.name fun owner name =>
      if owner = old.owner ∧ name = old.name then req.group.name else name).trans
        (map_name_replaced h.nodup hmem req.group)
    have hreplaced : ((afterTrigger table old.name req.group.name).map fun g =>
          if g.owner = old.owner ∧ g.name = old.name then req.group else g).map (·.name) =
        (table.map (·.name)).map fun x => if x = old.name then req.group.name else x := by
      rw [← hnames, List.map_map]
      refine List.map_congr_left fun g _ => ?_
      simp only [Function.comp_apply]
      split <;> rfl
    obtain ⟨hnodup, hchecked⟩ := h.rename hcheck fun hne hin => hfree ⟨hne, hin⟩
    rw [← hreplaced] at hnodup hchecked
    exact ⟨hnodup, hchecked⟩

theorem Stored.accepted (h : Stored isOrganization table) : Accepted isOrganization table := by
  induction h with
  | empty => exact ⟨List.nodup_nil, by simp⟩
  | add group _ ih => exact ih.addGroup group
  | update req _ ih => exact ih.updateGroup req

variable {user : User GoString}

theorem getUserFullGroupPath_eq (fuel : ℕ) : getUserFullGroupPath table fuel user =
    pathsOf (getGroups table user.owner) fuel user.groups := by
  rw [getUserFullGroupPath]
  split
  · rename_i hnil
    rw [hnil]
    rfl
  · rfl

/-- `GetUserFullGroupPath` comes back, and in a forest with every path, exactly if the parents of
the user's groups have no cycle, up to the first group whose parents leave the table, and no group
of a user in the forest is a top group. -/
theorem getUserFullGroupPath_iff (h : Stored isOrganization table)
    (horganization : isOrganization user.owner) :
    ((∃ fuel out, getUserFullGroupPath table fuel user = some out) ∧
      (InForest (getGroups table user.owner) user →
        ∃ fuel paths, getUserFullGroupPath table fuel user = some (.ok paths) ∧
          List.Forall₂ (IsPath (getGroups table user.owner) user.owner) user.groups paths)) ↔
    Completes (getGroups table user.owner) user.groups ∧
      (InForest (getGroups table user.owner) user →
        ∀ id ∈ user.groups, ¬IsTop (getGroups table user.owner) id) := by
  have hsub : (getGroups table user.owner).map (·.name) ⊆ table.map (·.name) :=
    List.map_subset _ (List.filter_subset_self _)
  have hnodup : ((getGroups table user.owner).map (·.name)).Nodup :=
    h.accepted.nodup.sublist (List.filter_sublist.map _)
  have howner : ∀ g ∈ getGroups table user.owner, g.owner = user.owner := by
    intro g hg
    simpa using (List.mem_filter.mp hg).2
  have hfree : user.owner ∉ (getGroups table user.owner).map (·.name) := by
    intro hmem
    have hcheck := h.accepted.checked user.owner (hsub hmem)
    rw [checkGroupName, if_pos horganization] at hcheck
    split_ifs at hcheck
  simp only [getUserFullGroupPath_eq]
  refine and_congr exists_pathsOf_iff ?_
  exact forall_congr' fun hforest => exists_paths_iff hnodup howner hfree hforest

end Store

namespace Sample

def isOrganization (name : GoString) : Bool := name = utf8 "o"

def top : Group := ⟨"o", "t", "", "", "o", true⟩

def inner : Group := ⟨"o", "g", "", "", "t", false⟩

def table : List Group :=
  (addGroup isOrganization (addGroup isOrganization [] top).1 inner).1

theorem table_stored : Stored isOrganization table := .add inner (.add top .empty)

def member (groupId : String) : User GoString := ⟨"o", [groupId]⟩

theorem table_found : isOrganization (utf8 "o") = true ∧ getGroups table (utf8 "o") = [top, inner] ∧
    getOwnerAndNameFromIdNoCheck (utf8 "o/t") = some (utf8 "o", utf8 "t") ∧
    getOwnerAndNameFromIdNoCheck (utf8 "o/g") = some (utf8 "o", utf8 "g") ∧
    groupNamed [top, inner] (utf8 "t") = some top ∧
    groupNamed [top, inner] (utf8 "g") = some inner := by
  decide

theorem inner_found : ancestor (above [top, inner]) 1 (utf8 "t") = none ∧
    (∀ k ∈ getOwnerAndNameFromIdNoCheck (utf8 "o/g"), k = (utf8 "o", utf8 "g")) ∧
    ∀ g ∈ groupNamed [top, inner] (utf8 "g"), g = inner := by
  obtain ⟨-, -, -, hid, -, hinner⟩ := table_found
  refine ⟨by decide, fun k hk => ?_, fun g hg => ?_⟩
  · exact (Option.some.inj (hid.symm.trans hk)).symm
  · exact (Option.some.inj (hinner.symm.trans hg)).symm

theorem top_placed : Placed [top, inner] (utf8 "o") top [utf8 "t"] :=
  .top List.mem_cons_self rfl rfl

end Sample

/-- The user of the group below the top group has the path of the group. -/
theorem member_has_path : ∃ fuel paths,
    getUserFullGroupPath Sample.table fuel (Sample.member "o/g") = some (.ok paths) ∧
      List.Forall₂ (IsPath (getGroups Sample.table (utf8 "o")) (utf8 "o")) [utf8 "o/g"] paths := by
  obtain ⟨horg, hgroups, -, hid, htop, hinner⟩ := Sample.table_found
  obtain ⟨hends, hk, hg⟩ := Sample.inner_found
  have hcomplete : Completes (getGroups Sample.table (utf8 "o")) [utf8 "o/g"] := by
    rw [hgroups]
    refine ⟨fun k hid g hgroup => ?_, fun _ => trivial⟩
    obtain rfl := hk k hid
    obtain rfl := hg g hgroup
    exact ⟨1, hends⟩
  have hinnerTop : ¬IsTop (getGroups Sample.table (utf8 "o")) (utf8 "o/g") := by
    rw [hgroups]
    rintro ⟨k, hid, g, hgroup, htop⟩
    obtain rfl := hk k hid
    obtain rfl := hg g hgroup
    cases htop
  have hforest : InForest (getGroups Sample.table (utf8 "o")) (Sample.member "o/g") := by
    rw [hgroups]
    intro id hmem
    obtain rfl := List.mem_singleton.mp hmem
    exact ⟨_, hid, Sample.inner, _, rfl,
      .under (by simp) Bool.false_ne_true rfl Sample.top_placed⟩
  exact ((@getUserFullGroupPath_iff Sample.isOrganization Sample.table (Sample.member "o/g")
    Sample.table_stored horg).mpr ⟨hcomplete, fun _ id hid => List.mem_singleton.mp hid ▸ hinnerTop⟩).2 hforest

/-- A user of a top group gets an error: the organization is looked for among the groups. -/
theorem top_group_has_no_path : ¬∀ (isOrganization : GoString → Bool) (table : List Group)
    (user : User GoString), Stored isOrganization table → isOrganization user.owner →
      (∃ fuel out, getUserFullGroupPath table fuel user = some out) ∧
        (InForest (getGroups table user.owner) user →
          ∃ fuel paths, getUserFullGroupPath table fuel user = some (.ok paths) ∧
            List.Forall₂ (IsPath (getGroups table user.owner) user.owner) user.groups paths) := by
  intro h
  obtain ⟨horg, hgroups, hid, -, htop, -⟩ := Sample.table_found
  have hforest : InForest (getGroups Sample.table (utf8 "o")) (Sample.member "o/t") := by
    rw [hgroups]
    intro id hmem
    obtain rfl := List.mem_singleton.mp hmem
    exact ⟨_, hid, Sample.top, _, rfl, Sample.top_placed⟩
  obtain ⟨fuel, paths, hpaths, -⟩ :=
    (h Sample.isOrganization Sample.table (Sample.member "o/t") Sample.table_stored horg).2 hforest
  have herror : pathsOf [Sample.top, Sample.inner] fuel [utf8 "o/t"] =
      some (.error (.missing (utf8 "o"))) := by
    have hfree : utf8 "o" ∉ [Sample.top, Sample.inner].map (·.name) := by decide +kernel
    rw [pathsOf, pathOf_top hfree hid htop Sample.top_placed rfl]
  rw [getUserFullGroupPath_eq, show (Sample.member "o/t").owner = utf8 "o" from rfl, hgroups,
    show (Sample.member "o/t").groups = [utf8 "o/t"] from rfl, herror] at hpaths
  cases hpaths

end ArchGuard.Groups
