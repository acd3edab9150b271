import ArchGuard.ScopeFilter

/-! A directory connector, how its mapping is revised and when it may be enabled. -/
namespace ArchGuard.Connector
open Ldap GoText

structure GroupMapping where
  directoryGroup : String
  targetGroup : String
  approved : Bool
  deriving DecidableEq, Repr

structure ConnectorMapping where
  version : Int64
  attributes : List AttributeMapping
  groups : List GroupMapping
  deriving DecidableEq

/-- The kind is a text here, which the constructor checks. -/
structure DirectoryConnector where
  id : Uuid
  organizationID : Uuid
  kind : String
  name : String
  scopeFilter : String
  credentialRef : String
  enabled : Bool
  mapping : ConnectorMapping
  deriving DecidableEq

inductive MappingError
  | version
  | emptyAttribute
  | repeatedDirectoryAttr (attr : String)
  | repeatedTargetAttr (attr : String)
  | emptyGroup
  | repeatedDirectoryGroup (group : String)
  deriving DecidableEq, Repr

inductive ConnectorError
  | organization
  | kind (k : String)
  | name
  | scope (err : ScopeError)
  | credentialRefRequired
  | mapping (err : MappingError)
  | uuid (err : String)
  | emailMappingRequired
  deriving DecidableEq, Repr

def MappingError.text : MappingError → String
  | .version => "directory_connector: mapeamento inválido: versão deve ser >= 1"
  | .emptyAttribute => "directory_connector: mapeamento inválido: atributo com lado vazio"
  | .repeatedDirectoryAttr attr => "directory_connector: mapeamento inválido: " ++
      "atributo de diretório " ++ quoted attr ++ " mapeado mais de uma vez"
  | .repeatedTargetAttr attr => "directory_connector: mapeamento inválido: " ++
      "atributo ArchGuard " ++ quoted attr ++ " recebe mais de um mapeamento"
  | .emptyGroup => "directory_connector: mapeamento inválido: grupo com lado vazio"
  | .repeatedDirectoryGroup group => "directory_connector: mapeamento inválido: " ++
      "grupo de diretório " ++ quoted group ++ " mapeado mais de uma vez"

def ConnectorError.text : ConnectorError → String
  | .organization => "directory_connector: dados obrigatórios ausentes: organização"
  | .kind k => "directory_connector: dados obrigatórios ausentes: tipo " ++ quoted k
  | .name => "directory_connector: dados obrigatórios ausentes: nome"
  | .scope err => err.text
  | .credentialRefRequired => "directory_connector: referência de credencial no cofre obrigatória"
  | .mapping err => err.text
  | .uuid err => "directory_connector: geração de UUIDv7 falhou: " ++ err
  | .emailMappingRequired => "directory_connector: mapeamento de e-mail obrigatório " ++
      "para sincronizar (chave de deduplicação)"

def kindValid (k : String) : Bool := k = "ldap" ∨ k = "ad"

/-- The loop over the attributes, with the names that either side has had so far. -/
def validateAttributes : (dirAttrs targetAttrs : List String) → List AttributeMapping →
    Except MappingError Unit
  | _, _, [] => .ok ()
  | dirAttrs, targetAttrs, a :: rest =>
    if a.directoryAttr = "" ∨ a.archGuardAttr = "" then .error .emptyAttribute
    else if a.directoryAttr ∈ dirAttrs then .error (.repeatedDirectoryAttr a.directoryAttr)
    else if a.archGuardAttr ∈ targetAttrs then .error (.repeatedTargetAttr a.archGuardAttr)
    else validateAttributes (a.directoryAttr :: dirAttrs) (a.archGuardAttr :: targetAttrs) rest

def validateGroups : (dirGroups : List String) → List GroupMapping → Except MappingError Unit
  | _, [] => .ok ()
  | dirGroups, g :: rest =>
    if g.directoryGroup = "" ∨ g.targetGroup = "" then .error .emptyGroup
    else if g.directoryGroup ∈ dirGroups then .error (.repeatedDirectoryGroup g.directoryGroup)
    else validateGroups (g.directoryGroup :: dirGroups) rest

def ConnectorMapping.validate (m : ConnectorMapping) : Except MappingError Unit :=
  if m.version < 1 then .error .version
  else match validateAttributes [] [] m.attributes with
    | .error err => .error err
    | .ok () => validateGroups [] m.groups

def ConnectorMapping.mapsEmail (m : ConnectorMapping) : Bool :=
  m.attributes.any fun a => a.archGuardAttr = "email"

/-- `newV7` is what the draw of the id gives. -/
def newDirectoryConnector (newV7 : Except String Uuid) (organizationID : Uuid)
    (kind name scopeFilter credentialRef : String) (attrs : List AttributeMapping)
    (groups : List GroupMapping) : Except ConnectorError DirectoryConnector :=
  if organizationID = Uuid.nil then .error .organization
  else if !kindValid kind then .error (.kind kind)
  else if name = "" then .error .name
  else match validateScopeFilter scopeFilter with
    | .error err => .error (.scope err)
    | .ok () =>
      if credentialRef = "" then .error .credentialRefRequired
      else
        let mapping : ConnectorMapping := ⟨1, attrs, groups⟩
        match mapping.validate with
        | .error err => .error (.mapping err)
        | .ok () =>
          match newV7 with
          | .error err => .error (.uuid err)
          | .ok id =>
            .ok ⟨id, organizationID, kind, name, scopeFilter, credentialRef, false, mapping⟩

namespace DirectoryConnector

/-- The mapping that a revision would put in place. -/
def next (c : DirectoryConnector) (attrs : List AttributeMapping) (groups : List GroupMapping) :
    ConnectorMapping := ⟨c.mapping.version+1, attrs, groups⟩

/-- What a mutator leaves in the connector, and the error that it returns. -/
def reviseMapping (c : DirectoryConnector) (attrs : List AttributeMapping)
    (groups : List GroupMapping) : DirectoryConnector × Option ConnectorError :=
  match (c.next attrs groups).validate with
  | .error err => (c, some (.mapping err))
  | .ok () => ({ c with mapping := c.next attrs groups }, none)

def validateForSync (c : DirectoryConnector) : Except ConnectorError Unit :=
  match c.mapping.validate with
  | .error err => .error (.mapping err)
  | .ok () => if !c.mapping.mapsEmail then .error .emailMappingRequired else .ok ()

def enable (c : DirectoryConnector) : DirectoryConnector × Option ConnectorError :=
  match c.validateForSync with
  | .error err => (c, some err)
  | .ok () => ({ c with enabled := true }, none)

def disable (c : DirectoryConnector) : DirectoryConnector := { c with enabled := false }

end DirectoryConnector

/-- The mutators of a connector, with any arguments. -/
inductive Call
  | enable
  | disable
  | reviseMapping (attrs : List AttributeMapping) (groups : List GroupMapping)
  deriving DecidableEq

def Call.perform (c : DirectoryConnector) : Call → DirectoryConnector × Option ConnectorError
  | .enable => c.enable
  | .disable => (c.disable, none)
  | .reviseMapping attrs groups => c.reviseMapping attrs groups

def after (c : DirectoryConnector) (calls : List Call) : DirectoryConnector :=
  calls.foldl (fun c call => (call.perform c).1) c

section Validated

/-- What a mapping has to be: no side is empty, and no name stands on its side twice. -/
structure ConnectorMapping.WellFormed (m : ConnectorMapping) : Prop where
  version : ¬ m.version < 1
  attributes : ∀ a ∈ m.attributes, a.directoryAttr ≠ "" ∧ a.archGuardAttr ≠ ""
  directoryAttrs : (m.attributes.map AttributeMapping.directoryAttr).Nodup
  targetAttrs : (m.attributes.map AttributeMapping.archGuardAttr).Nodup
  groups : ∀ g ∈ m.groups, g.directoryGroup ≠ "" ∧ g.targetGroup ≠ ""
  directoryGroups : (m.groups.map GroupMapping.directoryGroup).Nodup

theorem nodup_cons_fresh {seen names : List String} {n : String} :
    n ∉ seen ∧ (∀ x ∈ names, x ∉ n :: seen) ∧ names.Nodup ↔
      (∀ x ∈ n :: names, x ∉ seen) ∧ (n :: names).Nodup := by
  rw [List.forall_mem_cons, List.nodup_cons]
  simp only [List.mem_cons, not_or]
  constructor
  · rintro ⟨hn, hnames, hnodup⟩
    exact ⟨⟨hn, fun x hx => (hnames x hx).2⟩, fun hmem => (hnames n hmem).1 rfl, hnodup⟩
  · rintro ⟨⟨hn, hnames⟩, hfresh, hnodup⟩
    exact ⟨hn, fun x hx => ⟨fun he => hfresh (he ▸ hx), hnames x hx⟩, hnodup⟩

theorem validateAttributes_eq_ok {dirAttrs targetAttrs : List String}
    {attrs : List AttributeMapping} :
    validateAttributes dirAttrs targetAttrs attrs = .ok () ↔
      (∀ a ∈ attrs, a.directoryAttr ≠ "" ∧ a.archGuardAttr ≠ "") ∧
      ((∀ x ∈ attrs.map AttributeMapping.directoryAttr, x ∉ dirAttrs) ∧
        (attrs.map AttributeMapping.directoryAttr).Nodup) ∧
      ((∀ x ∈ attrs.map AttributeMapping.archGuardAttr, x ∉ targetAttrs) ∧
        (attrs.map AttributeMapping.archGuardAttr).Nodup) := by
  induction attrs generalizing dirAttrs targetAttrs with
  | nil => simp [validateAttributes]
  | cons a rest ih =>
    rw [validateAttributes, ite_error_eq_ok, ite_error_eq_ok, ite_error_eq_ok, ih, List.map_cons,
      List.map_cons, ← nodup_cons_fresh, ← nodup_cons_fresh, List.forall_mem_cons, not_or]
    tauto

theorem validateGroups_eq_ok {dirGroups : List String} {groups : List GroupMapping} :
    validateGroups dirGroups groups = .ok () ↔
      (∀ g ∈ groups, g.directoryGroup ≠ "" ∧ g.targetGroup ≠ "") ∧
      (∀ x ∈ groups.map GroupMapping.directoryGroup, x ∉ dirGroups) ∧
        (groups.map GroupMapping.directoryGroup).Nodup := by
  induction groups generalizing dirGroups with
  | nil => simp [validateGroups]
  | cons g rest ih =>
    rw [validateGroups, ite_error_eq_ok, ite_error_eq_ok, ih, List.map_cons, ← nodup_cons_fresh,
      List.forall_mem_cons, not_or]
    tauto

theorem validate_eq_ok {m : ConnectorMapping} : m.validate = .ok () ↔ m.WellFormed := by
  rw [ConnectorMapping.validate, ite_error_eq_ok]
  cases hattrs : validateAttributes [] [] m.attributes with
  | error err =>
    refine iff_of_false (fun h => by cases h.2) fun h => ?_
    rw [validateAttributes_eq_ok.mpr ⟨h.attributes, ⟨by simp, h.directoryAttrs⟩,
      by simp, h.targetAttrs⟩] at hattrs
    cases hattrs
  | ok _ =>
    obtain ⟨hsides, ⟨-, hdirs⟩, -, htargets⟩ := validateAttributes_eq_ok.mp hattrs
    dsimp only
    rw [validateGroups_eq_ok]
    constructor
    · intro h
      exact ⟨h.1, hsides, hdirs, htargets, h.2.1, h.2.2.2⟩
    · intro h
      exact ⟨h.version, h.groups, by simp, h.directoryGroups⟩

end Validated

section Email

variable {raw out : List (String × GoString)} {attrs : List AttributeMapping}

end Email

namespace DirectoryConnector

/-- What has to hold of a connector whose sync is on. -/
def Ready (c : DirectoryConnector) : Prop :=
  c.enabled = true → c.mapping.mapsEmail = true ∧ validateScopeFilter c.scopeFilter = .ok ()

end DirectoryConnector

/-- No revision that goes through takes the e-mail away from a connector whose sync is on. -/
def Call.KeepsEmail (c : DirectoryConnector) : Call → Prop
  | .reviseMapping attrs groups => c.enabled = true → (c.next attrs groups).validate = .ok () →
      (c.next attrs groups).mapsEmail = true
  | _ => True

section Steps

variable {c : DirectoryConnector}

theorem newDirectoryConnector_eq_ok {newV7 : Except String Uuid} {organizationID : Uuid}
    {kind name scopeFilter credentialRef : String} {attrs : List AttributeMapping}
    {groups : List GroupMapping}
    (h : newDirectoryConnector newV7 organizationID kind name scopeFilter credentialRef attrs groups
      = .ok c) :
    validateScopeFilter c.scopeFilter = .ok () ∧ c.enabled = false ∧ c.mapping.WellFormed := by
  rw [newDirectoryConnector, ite_error_eq_ok, ite_error_eq_ok, ite_error_eq_ok] at h
  obtain ⟨-, -, -, h⟩ := h
  cases hscope : validateScopeFilter scopeFilter with
  | error err =>
    rw [hscope] at h
    cases h
  | ok _ =>
    rw [hscope] at h
    dsimp only at h
    rw [ite_error_eq_ok] at h
    cases hmapping : ConnectorMapping.validate ⟨1, attrs, groups⟩ with
    | error err =>
      rw [hmapping] at h
      cases h.2
    | ok _ =>
      rw [hmapping] at h
      cases newV7 with
      | error err => cases h.2
      | ok id =>
        obtain rfl := Except.ok.inj h.2
        exact ⟨hscope, rfl, validate_eq_ok.mp hmapping⟩

theorem reviseMapping_cases (attrs : List AttributeMapping) (groups : List GroupMapping) :
    ((c.next attrs groups).validate = .ok () ∧
      c.reviseMapping attrs groups = ({ c with mapping := c.next attrs groups }, none)) ∨
    (∃ err, (c.next attrs groups).validate = .error err ∧
      c.reviseMapping attrs groups = (c, some (.mapping err))) := by
  rw [DirectoryConnector.reviseMapping]
  cases h : (c.next attrs groups).validate with
  | error err => exact Or.inr ⟨err, rfl, rfl⟩
  | ok _ => exact Or.inl ⟨rfl, rfl⟩

theorem enable_cases :
    (c.mapping.mapsEmail = true ∧ c.enable = ({ c with enabled := true }, none)) ∨
    (∃ err, c.enable = (c, some err)) := by
  rw [DirectoryConnector.enable, DirectoryConnector.validateForSync]
  cases c.mapping.validate with
  | error err => exact Or.inr ⟨_, rfl⟩
  | ok _ =>
    cases c.mapping.mapsEmail with
    | false => exact Or.inr ⟨_, rfl⟩
    | true => exact Or.inl ⟨rfl, rfl⟩

theorem perform_of_error {call : Call} (h : (call.perform c).2 ≠ none) :
    (call.perform c).1 = c := by
  cases call with
  | disable => exact absurd rfl h
  | enable =>
    rw [Call.perform] at h ⊢
    obtain ⟨-, henable⟩ | ⟨err, henable⟩ := enable_cases (c := c) <;> rw [henable] at h ⊢
    exact absurd rfl h
  | reviseMapping attrs groups =>
    rw [Call.perform] at h ⊢
    obtain ⟨-, hrevise⟩ | ⟨err, -, hrevise⟩ := reviseMapping_cases (c := c) attrs groups <;>
      rw [hrevise] at h ⊢
    exact absurd rfl h

theorem perform_scopeFilter (call : Call) : (call.perform c).1.scopeFilter = c.scopeFilter := by
  cases call with
  | disable => rfl
  | enable =>
    obtain ⟨-, henable⟩ | ⟨err, henable⟩ := enable_cases (c := c) <;>
      rw [Call.perform, henable]
  | reviseMapping attrs groups =>
    obtain ⟨-, hrevise⟩ | ⟨err, -, hrevise⟩ := reviseMapping_cases (c := c) attrs groups <;>
      rw [Call.perform, hrevise]

theorem perform_ready_iff {call : Call} (hscope : validateScopeFilter c.scopeFilter = .ok ())
    (hready : c.Ready) : (call.perform c).1.Ready ↔ call.KeepsEmail c := by
  cases call with
  | disable => exact iff_of_true (fun h => by cases h) trivial
  | enable =>
    refine iff_of_true ?_ trivial
    rw [Call.perform]
    obtain ⟨hmaps, henable⟩ | ⟨err, henable⟩ := enable_cases (c := c) <;> rw [henable]
    · exact fun _ => ⟨hmaps, hscope⟩
    · exact hready
  | reviseMapping attrs groups =>
    rw [Call.perform, Call.KeepsEmail]
    obtain ⟨hvalid, hrevise⟩ | ⟨err, hvalid, hrevise⟩ := reviseMapping_cases (c := c) attrs groups <;>
      rw [hrevise, hvalid]
    · exact ⟨fun h henabled _ => (h henabled).1, fun h henabled => ⟨h henabled rfl, hscope⟩⟩
    · exact iff_of_true hready fun _ h => by cases h

theorem after_snoc (calls : List Call) (call : Call) :
    after c (calls ++ [call]) = (call.perform (after c calls)).1 := by
  rw [after, after, List.foldl_append, List.foldl_cons, List.foldl_nil]

theorem after_scopeFilter (calls : List Call) : (after c calls).scopeFilter = c.scopeFilter := by
  induction calls using List.reverseRecOn with
  | nil => rfl
  | append_singleton calls call ih => rw [after_snoc, perform_scopeFilter, ih]

end Steps

/-- Over a run of calls on a new connector, whatever their arguments: it is ready in every state,
and a failing call changes nothing, exactly when no call takes the e-mail of a connector whose sync
is on. -/
theorem run_ready_iff {newV7 : Except String Uuid} {organizationID : Uuid}
    {kind name scopeFilter credentialRef : String} {attrs : List AttributeMapping}
    {groups : List GroupMapping} {c : DirectoryConnector}
    (h : newDirectoryConnector newV7 organizationID kind name scopeFilter credentialRef attrs groups
      = .ok c) (calls : List Call) :
    ((∀ run, run <+: calls → (after c run).Ready) ∧
      ∀ run call, run ++ [call] <+: calls → (call.perform (after c run)).2 ≠ none →
        (call.perform (after c run)).1 = after c run) ↔
      ∀ run call, run ++ [call] <+: calls → call.KeepsEmail (after c run) := by
  obtain ⟨hscope, hdisabled, -⟩ := newDirectoryConnector_eq_ok h
  have hfilter (run : List Call) : validateScopeFilter (after c run).scopeFilter = .ok () := by
    rw [after_scopeFilter, hscope]
  constructor
  · rintro ⟨hready, -⟩ run call hrun
    rw [← perform_ready_iff (hfilter run) (hready run ((List.prefix_append run [call]).trans hrun)),
      ← after_snoc]
    exact hready _ hrun
  · intro hkeeps
    refine ⟨fun run => ?_, fun run call _ => perform_of_error⟩
    induction run using List.reverseRecOn with
    | nil => exact fun _ henabled => absurd henabled (hdisabled ▸ Bool.false_ne_true)
    | append_singleton run call ih =>
      intro hrun
      rw [after_snoc, perform_ready_iff (hfilter run)
        (ih ((List.prefix_append run [call]).trans hrun))]
      exact hkeeps run call hrun

section Samples

def corporate : DirectoryConnector :=
  ⟨7, 1, "ad", "AD Corp", "(objectClass=user)", "vault://k", false, ⟨1, [⟨"mail", "email"⟩], []⟩⟩

theorem corporate_new : newDirectoryConnector (.ok 7) 1 "ad" "AD Corp" "(objectClass=user)"
    "vault://k" [⟨"mail", "email"⟩] [] = .ok corporate := by decide

/-- Enabled, revised with an e-mail to go by, and disabled. -/
def revised : List Call :=
  [.enable, .reviseMapping [⟨"mail", "email"⟩, ⟨"cn", "name"⟩] [], .disable]

theorem corporate_run : (after corporate (revised.take 2)).Ready ∧
    (after corporate revised).Ready := by
  have hready := ((run_ready_iff corporate_new revised).mpr fun run call hrun => by
    have hmem := hrun.subset (List.mem_append_right run (List.mem_singleton_self _))
    cases call with
    | enable => trivial
    | disable => trivial
    | reviseMapping attrs groups =>
      simp only [revised, List.mem_cons, reduceCtorEq, List.not_mem_nil, or_false, false_or,
        Call.reviseMapping.injEq] at hmem
      obtain ⟨rfl, rfl⟩ := hmem
      exact fun _ _ => rfl).1
  exact ⟨hready _ (List.take_prefix 2 revised), hready _ (List.prefix_refl _)⟩

/-- Sync is on and the revision goes through: it stays on, without an e-mail to go by. -/
theorem revision_drops_email :
    newDirectoryConnector (.ok 7) 1 "ad" "AD Corp" "(objectClass=user)" "vault://k"
      [⟨"mail", "email"⟩] [] = .ok corporate ∧
    ¬ (after corporate [.enable, .reviseMapping [⟨"cn", "name"⟩] []]).Ready := by
  refine ⟨corporate_new, fun h => ?_⟩
  have hdropped : (after corporate [.enable, .reviseMapping [⟨"cn", "name"⟩] []]).enabled = true ∧
      (after corporate [.enable, .reviseMapping [⟨"cn", "name"⟩] []]).mapping.mapsEmail = false := by
    decide +kernel
  exact Bool.false_ne_true (hdropped.2.symm.trans (h hdropped.1).1)

end Samples

end ArchGuard.Connector
