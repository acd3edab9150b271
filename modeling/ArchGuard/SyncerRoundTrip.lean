import ArchGuard.SyncerColumns

/-! Which fields of a user survive the columns of the other system. -/
namespace ArchGuard.Object
open GoStrconv GoText JsonRecords

variable (s : Syncer) {lib : Credentials}

def User.Agrees (user user' : User lib) : Field → Prop
  | .text f => user'.text f = user.text f
  | .bool f => user'.bool f = user.bool f
  | .int f => user'.int f = user.int f
  | .avatar => user'.avatar = user.avatar
  | .address => user'.address = user.address
  | .recoveryCodes => user'.recoveryCodes = user.recoveryCodes
  | .webauthnCredentials => user'.webauthnCredentials = user.webauthnCredentials
  | .managedAccounts => user'.managedAccounts = user.managedAccounts
  | .mfaAccounts => user'.mfaAccounts = user.mfaAccounts
  | .mfaItems => user'.mfaItems = user.mfaItems

/-- A field came back; an avatar may have lost the base URL. -/
def Restored (user user' : User lib) (f : Field) : Prop :=
  user.Agrees user' f ∨ (f = .avatar ∧ user.avatar = s.avatarBaseUrl ++ user'.avatar)

/-- A text, read into a field of a new user, gives the field of this one. -/
def ReadsAs (user : User lib) (f : Field) (value : GoString) : Prop :=
  ∃ user', User.fresh.set s value f = some user' ∧ Restored s user user' f

/-- What was encoded for a column, decoded, restores the field that the column is mapped to. -/
def RoundTrips (user : User lib) (column : TableColumn) : Prop :=
  ∀ f, fieldOf column.casdoorName = some f →
    ∃ user', setUserByKeyValue s User.fresh column.casdoorName
      (getMapFromOriginalUser s user column.name) = some user' ∧ Restored s user user' f

/-- What has to hold of a user for a field to survive: the encoder knows the field or there is
nothing to encode, an address has one line, there are recovery codes and none has a comma, and the
strings of accounts and items are valid UTF-8. -/
def Survives (user : User lib) : Field → Prop
  | .text f => (Field.text f).isEncoded = true ∨ user.text f = []
  | .bool f => (Field.bool f).isEncoded = true ∨ user.bool f = false
  | .address => user.address.length = 1
  | .recoveryCodes => user.recoveryCodes ≠ [] ∧ ∀ code ∈ user.recoveryCodes, comma ∉ code
  | .managedAccounts =>
    ∀ a ∈ user.managedAccounts, ∀ v ∈ managedAccountShape.values a, malformed v = 0
  | .mfaAccounts => ∀ a ∈ user.mfaAccounts, ∀ v ∈ mfaAccountShape.values a, malformed v = 0
  | .mfaItems => ∀ a ∈ user.mfaItems, ∀ v ∈ mfaItemShape.values a, malformed v = 0
  | _ => True

def IsTextOf (user : User lib) (value : GoString) : Field → Prop
  | .text f => value = user.text f
  | .bool f => parseBool value = some (user.bool f)
  | .int f => parseInt value = some (user.int f)
  | .avatar => getPartialAvatarUrl s value = user.avatar ∨
    user.avatar = s.avatarBaseUrl ++ getPartialAvatarUrl s value
  | .address => [value] = user.address
  | .recoveryCodes => value.splitOn comma = user.recoveryCodes
  | .webauthnCredentials => unmarshalJSON lib.unmarshal value [] = user.webauthnCredentials
  | .managedAccounts =>
    unmarshalJSON managedAccountShape.unmarshalAll value [] = user.managedAccounts
  | .mfaAccounts => unmarshalJSON mfaAccountShape.unmarshalAll value [] = user.mfaAccounts
  | .mfaItems => unmarshalJSON mfaItemShape.unmarshalAll value [] = user.mfaItems

/-- When the text of a column carries its field: the field survives, or, if a later column has the
name for another field, the text of that field happens to be one of this field too. -/
def Carries (user : User lib) (column : TableColumn) : Prop :=
  ∀ f, fieldOf column.casdoorName = some f →
    ∃ last, carrier s column.name = some last ∧
      if fieldOf last.casdoorName = some f then Survives user f
      else IsTextOf s user (encodedValue s user last.casdoorName) f

/-- The id that a user is read with: that of the user, if a column is mapped to it. -/
def readId (user : User lib) : GoString :=
  if s.tableColumns.any (fun column => fieldOf column.casdoorName = some (.text .id)) then
    user.text .id
  else []

/-- When what the reading of a Keycloak database takes from elsewhere is what the user has. -/
def KeycloakKeeps (k : Keycloak) (row : GoString → Option GoString) (user : User lib) :
    Field → Prop
  | .text .password => ∀ c ∈ k.credential (readId s user), c.1 = user.text .password
  | .text .passwordSalt => ∀ c ∈ k.credential (readId s user), c.2 = user.text .passwordSalt
  | .text .signupApplication =>
    ∀ name ∈ k.group (readId s user), name = user.text .signupApplication
  | .text .createdTime => ∀ ms ∈ atoi (user.text .createdTime),
      k.format (ms.1.tdiv 1000) = user.text .createdTime
  | .bool .isForbidden => keycloakEnabled row = some (!user.bool .isForbidden)
  | _ => True

section Fields

variable {s} {user acc : User lib} {f g : Field} {value : GoString}

theorem partial_full (avatar : GoString) :
    getPartialAvatarUrl s (getFullAvatarUrl s avatar) = avatar ∨
      avatar = s.avatarBaseUrl ++ getPartialAvatarUrl s (getFullAvatarUrl s avatar) := by
  -- what a base URL is cut off from starts with it
  have hpartial (a : GoString) : getPartialAvatarUrl s a = a ∨
      a = s.avatarBaseUrl ++ getPartialAvatarUrl s a := by
    rw [getPartialAvatarUrl]
    split_ifs with hprefix
    · obtain ⟨rest, rfl⟩ := List.isPrefixOf_iff_prefix.mp hprefix
      rw [List.drop_left]
      exact Or.inr rfl
    · exact Or.inl rfl
  rw [getFullAvatarUrl]
  split_ifs with hbase hhttp
  · exact hpartial avatar
  · exact hpartial avatar
  · have hprefix : s.avatarBaseUrl.isPrefixOf (s.avatarBaseUrl ++ avatar) = true :=
      List.isPrefixOf_iff_prefix.mpr (List.prefix_append ..)
    rw [getPartialAvatarUrl, if_pos hprefix, List.drop_left]
    exact Or.inl rfl

theorem parseBool_boolToString (b : Bool) : parseBool (boolToString b) = some b := by
  cases b <;> decide

theorem itoa_ne_nil (n : ℤ) : itoa n ≠ [] := by
  rw [itoa]
  split_ifs
  · exact List.cons_ne_nil _ _
  · simp [digits]

theorem parseInt_itoa (n : GoInt) : parseInt (itoa n.1) = some n := by
  rw [parseInt, if_neg (itoa_ne_nil n.1), atoi_itoa]

theorem unmarshalJSON_marshal_iff {α : Type} {marshal : List α → GoString}
    {unmarshal : GoString → Option (List α)} {as as' : List α} (hne : as ≠ [] → marshal as ≠ [])
    (hread : as ≠ [] → unmarshal (marshal as) = some as') (hempty : as = [] → as' = []) :
    unmarshalJSON unmarshal (marshalToJSONString marshal as) [] = as ↔ as' = as := by
  rw [unmarshalJSON, marshalToJSONString]
  by_cases has : as = []
  · rw [if_pos has, if_pos rfl, has, hempty has]
  · rw [if_neg has, if_neg (hne has), hread has, Option.getD_some]

theorem marshalAll_ne_nil {α : Type} (shape : Shape α) (as : List α) : shape.marshalAll as ≠ [] := by
  intro h
  have hread := shape.unmarshalAll_marshalAll as
  rw [h] at hread
  cases hread

theorem unmarshalJSON_shape_iff {α : Type} (shape : Shape α) (as : List α) :
    unmarshalJSON shape.unmarshalAll (marshalToJSONString shape.marshalAll as) [] = as ↔
      ∀ a ∈ as, ∀ v ∈ shape.values a, malformed v = 0 := by
  rw [unmarshalJSON_marshal_iff (fun _ => marshalAll_ne_nil shape as)
    (fun _ => shape.unmarshalAll_marshalAll as) (fun h => by rw [h, List.map_nil]),
    ← shape.unmarshalAll_marshalAll_iff as, shape.unmarshalAll_marshalAll as, Option.some.injEq]

theorem readsAs_iff : ReadsAs s user f value ↔ IsTextOf s user value f := by
  cases f with
  | bool f =>
    cases hparse : parseBool value <;>
      simp [ReadsAs, Restored, User.Agrees, User.set, IsTextOf, hparse]
  | int f =>
    cases hparse : parseInt value <;>
      simp [ReadsAs, Restored, User.Agrees, User.set, IsTextOf, hparse]
  | _ => simp [ReadsAs, Restored, User.Agrees, User.set, IsTextOf, User.fresh]

theorem isTextOf_encodeField_iff (hf : f.isEncoded = true) :
    IsTextOf s user (encodeField s user f) f ↔ Survives user f := by
  cases f with
  | text f => exact iff_of_true rfl (Or.inl hf)
  | bool f => exact iff_of_true (parseBool_boolToString _) (Or.inl hf)
  | int f => exact iff_of_true (parseInt_itoa _) trivial
  | avatar => exact iff_of_true (partial_full user.avatar) trivial
  | address =>
    constructor
    · intro h
      rw [Survives, ← show [join bar user.address] = user.address from h, List.length_singleton]
    · intro h
      obtain ⟨line, hline⟩ := List.length_eq_one_iff.mp h
      rw [IsTextOf, encodeField, hline, join, List.intercalate_singleton]
  | recoveryCodes => exact splitOn_join_iff
  | webauthnCredentials =>
    refine iff_of_true ?_ trivial
    exact (unmarshalJSON_marshal_iff (lib.marshal_ne_nil _) (lib.unmarshal_marshal _) id).mpr rfl
  | managedAccounts => exact unmarshalJSON_shape_iff managedAccountShape _
  | mfaAccounts => exact unmarshalJSON_shape_iff mfaAccountShape _
  | mfaItems => exact unmarshalJSON_shape_iff mfaItemShape _

theorem isTextOf_nil_iff (hf : f.isEncoded = false) :
    IsTextOf s user [] f ↔ Survives user f := by
  cases f with
  | text f => simp [IsTextOf, Survives, hf, eq_comm (a := [])]
  | bool f =>
    have hnil : parseBool [] = some false := by decide
    simp [IsTextOf, Survives, hf, hnil, eq_comm (a := false)]
  | _ => cases hf

theorem isTextOf_encodedValue_iff {key : GoString} (hf : fieldOf key = some f) :
    IsTextOf s user (encodedValue s user key) f ↔ Survives user f := by
  rw [encodedValue, hf]
  cases hknown : f.isEncoded with
  | true =>
    simp only [hknown, if_true]
    exact isTextOf_encodeField_iff hknown
  | false =>
    simp only [hknown, Bool.false_eq_true, if_false]
    exact isTextOf_nil_iff hknown

theorem set_frame {acc' : User lib} (hset : acc.set s value f = some acc') (hne : g ≠ f) :
    acc.Agrees acc' g := by
  cases f with
  | text f =>
    obtain rfl := Option.some.inj hset
    cases g with
    | text g => exact Function.update_of_ne (fun h => hne (congrArg Field.text h)) ..
    | _ => rfl
  | bool f =>
    obtain ⟨b, -, rfl⟩ := Option.map_eq_some_iff.mp hset
    cases g with
    | bool g => exact Function.update_of_ne (fun h => hne (congrArg Field.bool h)) ..
    | _ => rfl
  | int f =>
    obtain ⟨n, -, rfl⟩ := Option.map_eq_some_iff.mp hset
    cases g with
    | int g => exact Function.update_of_ne (fun h => hne (congrArg Field.int h)) ..
    | _ => rfl
  | _ =>
    obtain rfl := Option.some.inj hset
    cases g <;> first | rfl | exact absurd rfl hne

theorem unmarshalJSON_eq {α : Type} {unmarshal : GoString → Option (List α)} {as now : List α}
    (h : unmarshalJSON unmarshal value [] = as) (hnow : now = [] ∨ now = as) :
    unmarshalJSON unmarshal value now = as := by
  rw [unmarshalJSON] at h ⊢
  split_ifs at h ⊢ with hvalue
  · rcases hnow with rfl | rfl
    · exact h
    · rfl
  · cases hread : unmarshal value with
    | none =>
      rw [hread, Option.getD_none] at h
      rcases hnow with rfl | rfl
      · exact h
      · rfl
    | some read =>
      rw [hread, Option.getD_some] at h
      exact h

/-- A text that reads as a field does so too for a user who has nothing there yet, or the field. -/
theorem set_of_readsAs (hreads : ReadsAs s user f value)
    (hacc : (User.fresh.Agrees acc f) ∨ Restored s user acc f) :
    ∃ acc', acc.set s value f = some acc' ∧ Restored s user acc' f := by
  obtain ⟨read, hread, hrestored⟩ := hreads
  cases f with
  | text f =>
    obtain rfl := Option.some.inj hread
    refine ⟨_, rfl, ?_⟩
    simpa [Restored, User.Agrees] using hrestored
  | bool f =>
    obtain ⟨b, hb, rfl⟩ := Option.map_eq_some_iff.mp hread
    refine ⟨_, by rw [User.set, hb]; rfl, ?_⟩
    simpa [Restored, User.Agrees] using hrestored
  | int f =>
    obtain ⟨n, hn, rfl⟩ := Option.map_eq_some_iff.mp hread
    refine ⟨_, by rw [User.set, hn]; rfl, ?_⟩
    simpa [Restored, User.Agrees] using hrestored
  | avatar =>
    obtain rfl := Option.some.inj hread
    exact ⟨_, rfl, hrestored⟩
  | address =>
    obtain rfl := Option.some.inj hread
    refine ⟨_, rfl, ?_⟩
    simpa [Restored, User.Agrees] using hrestored
  | recoveryCodes =>
    obtain rfl := Option.some.inj hread
    refine ⟨_, rfl, ?_⟩
    simpa [Restored, User.Agrees] using hrestored
  | _ =>
    -- an empty or broken text leaves what was there
    obtain rfl := Option.some.inj hread
    refine ⟨_, rfl, ?_⟩
    simp only [Restored, User.Agrees, reduceCtorEq, false_and, or_false] at hrestored hacc ⊢
    exact unmarshalJSON_eq hrestored hacc

theorem User.Agrees.refl (u : User lib) (f : Field) : u.Agrees u f := by
  cases f <;> rfl

theorem User.Agrees.trans {u v w : User lib} (huv : u.Agrees v f) (hvw : v.Agrees w f) :
    u.Agrees w f := by
  cases f <;> exact hvw.trans huv

theorem Restored.trans {acc' : User lib} (hrestored : Restored s user acc f)
    (hsame : acc.Agrees acc' f) : Restored s user acc' f := by
  rcases hrestored with hagrees | ⟨rfl, havatar⟩
  · exact Or.inl (hagrees.trans hsame)
  · refine Or.inr ⟨rfl, ?_⟩
    rw [havatar, show acc'.avatar = acc.avatar from hsame]

end Fields

section Rows

variable {s} {user : User lib} {value : TableColumn → GoString}

theorem foldlM_frame {columns : List TableColumn} {acc acc' : User lib} {f : Field}
    (hfold : columns.foldlM (fun acc column => setUserByKeyValue s acc column.casdoorName
      (value column)) acc = some acc')
    (hf : ∀ column ∈ columns, fieldOf column.casdoorName ≠ some f) : acc.Agrees acc' f := by
  induction columns generalizing acc with
  | nil =>
    obtain rfl := Option.some.inj hfold
    exact User.Agrees.refl acc f
  | cons column columns ih =>
    rw [List.foldlM_cons] at hfold
    obtain ⟨next, hset, hrest⟩ := Option.bind_eq_some_iff.mp hfold
    obtain ⟨hcolumn, hcolumns⟩ := List.forall_mem_cons.mp hf
    refine User.Agrees.trans ?_ (ih hrest hcolumns)
    cases hfield : fieldOf column.casdoorName with
    | none =>
      rw [setUserByKeyValue, hfield] at hset
      obtain rfl := Option.some.inj hset
      exact User.Agrees.refl acc f
    | some g =>
      rw [setUserByKeyValue, hfield] at hset
      exact set_frame hset fun h => hcolumn (h ▸ hfield)

/-- A fold of columns whose texts read as the fields of a user restores these fields and keeps those
that were restored before. -/
theorem foldlM_restored {columns : List TableColumn}
    (hreads : ∀ column ∈ columns, ∀ f, fieldOf column.casdoorName = some f →
      ReadsAs s user f (value column)) {acc : User lib}
    (hacc : ∀ f, User.fresh.Agrees acc f ∨ Restored s user acc f) :
    ∃ acc', columns.foldlM (fun acc column => setUserByKeyValue s acc column.casdoorName
        (value column)) acc = some acc' ∧
      (∀ f, Restored s user acc f → Restored s user acc' f) ∧
      ∀ column ∈ columns, ∀ f, fieldOf column.casdoorName = some f → Restored s user acc' f := by
  induction columns generalizing acc with
  | nil => exact ⟨acc, rfl, fun _ h => h, fun _ h => absurd h List.not_mem_nil⟩
  | cons column columns ih =>
    -- one column restores its field and touches no other
    have hstep : ∃ next, setUserByKeyValue s acc column.casdoorName (value column) =
        some next ∧ (∀ f, User.fresh.Agrees next f ∨ Restored s user next f) ∧
        (∀ f, Restored s user acc f → Restored s user next f) ∧
        ∀ f, fieldOf column.casdoorName = some f → Restored s user next f := by
      cases hfield : fieldOf column.casdoorName with
      | none => exact ⟨acc, by rw [setUserByKeyValue, hfield], hacc, fun _ h => h, by simp⟩
      | some f =>
        obtain ⟨next, hset, hrestored⟩ :=
          set_of_readsAs (hreads column List.mem_cons_self f hfield) (hacc f)
        refine ⟨next, by rw [setUserByKeyValue, hfield]; exact hset, ?_, ?_, ?_⟩
        · intro g
          by_cases hg : g = f
          · exact Or.inr (hg ▸ hrestored)
          · have hframe := set_frame hset hg
            exact (hacc g).imp (fun h => h.trans hframe) fun h => h.trans hframe
        · intro g hold
          by_cases hg : g = f
          · exact hg ▸ hrestored
          · exact hold.trans (set_frame hset hg)
        · intro g hg
          obtain rfl := Option.some.inj hg
          exact hrestored
    obtain ⟨next, hset, hnext, hkeep, hnew⟩ := hstep
    obtain ⟨acc', hfold, hkeep', hnew'⟩ :=
      ih (fun c hc => hreads c (List.mem_cons_of_mem column hc)) hnext
    refine ⟨acc', ?_, fun f h => hkeep' f (hkeep f h), ?_⟩
    · rw [List.foldlM_cons, hset]
      exact hfold
    · intro c hc f hf
      rcases List.mem_cons.mp hc with rfl | hc
      · exact hkeep' f (hnew f hf)
      · exact hnew' c hc f hf

theorem readId_of_foldlM {acc : User lib}
    (hfold : s.tableColumns.foldlM (fun acc column => setUserByKeyValue s acc column.casdoorName
      (value column)) User.fresh = some acc)
    (hrestored : ∀ column ∈ s.tableColumns, ∀ f, fieldOf column.casdoorName = some f →
      Restored s user acc f) : acc.text .id = readId s user := by
  rw [readId]
  split_ifs with hmapped
  · obtain ⟨column, hcolumn, hid⟩ := List.any_eq_true.mp hmapped
    rcases hrestored column hcolumn _ (of_decide_eq_true hid) with hagrees | ⟨havatar, -⟩
    · exact hagrees
    · cases havatar
  · refine foldlM_frame (f := .text .id) hfold fun column hcolumn hid => hmapped ?_
    exact List.any_eq_true.mpr ⟨column, hcolumn, decide_eq_true hid⟩

/-- The texts of a user, with what a Keycloak database adds. -/
def keycloakText (k : Keycloak) (acc : User lib) : TextField → GoString
  | .password => ((k.credential (acc.text .id)).map Prod.fst).getD (acc.text .password)
  | .passwordSalt => ((k.credential (acc.text .id)).map Prod.snd).getD (acc.text .passwordSalt)
  | .signupApplication => (k.group (acc.text .id)).getD (acc.text .signupApplication)
  | .createdTime => ((atoi (acc.text .createdTime)).map fun ms =>
      k.format (ms.1.tdiv 1000)).getD (acc.text .createdTime)
  | f => acc.text f

theorem fromKeycloak_eq (k : Keycloak) (row : GoString → Option GoString) (acc : User lib) :
    fromKeycloak k row acc = (keycloakEnabled row).map fun enabled =>
      { acc with
        text := keycloakText k acc
        bool := Function.update acc.bool .isForbidden (!enabled) } := by
  rw [fromKeycloak]
  congr 1
  funext enabled
  cases hcredential : k.credential (acc.text .id) <;> cases hgroup : k.group (acc.text .id) <;>
    cases htime : atoi (acc.text .createdTime) <;>
    simp only [User.withText, ne_eq, reduceCtorEq, not_false_eq_true, Function.update_of_ne, htime,
      User.mk.injEq, and_true] <;>
    (funext f; cases f <;> simp [keycloakText, Function.update, hcredential, hgroup, htime])

/-- What Keycloak adds to a user that has a field restored keeps it so exactly if it is what the
user has. -/
theorem restored_fromKeycloak_iff {k : Keycloak} {row : GoString → Option GoString}
    {acc user' : User lib} {f : Field} (hread : fromKeycloak k row acc = some user')
    (hid : acc.text .id = readId s user) (hacc : Restored s user acc f) :
    Restored s user user' f ↔ KeycloakKeeps s k row user f := by
  rw [fromKeycloak_eq] at hread
  obtain ⟨enabled, henabled, rfl⟩ := Option.map_eq_some_iff.mp hread
  cases f with
  | text f =>
    have hf : acc.text f = user.text f := by simpa [Restored, User.Agrees] using hacc
    have htext : Restored s user { acc with
        text := keycloakText k acc
        bool := Function.update acc.bool .isForbidden (!enabled) } (.text f) ↔
        keycloakText k acc f = user.text f := by simp [Restored, User.Agrees]
    rw [htext]
    cases f with
    | password => cases h : k.credential (readId s user) <;> simp [keycloakText, KeycloakKeeps, *]
    | passwordSalt => cases h : k.credential (readId s user) <;> simp [keycloakText, KeycloakKeeps, *]
    | signupApplication => cases h : k.group (readId s user) <;> simp [keycloakText, KeycloakKeeps, *]
    | createdTime => cases h : atoi (user.text .createdTime) <;> simp [keycloakText, KeycloakKeeps, *]
    | _ => exact iff_of_true hf trivial
  | bool f =>
    have hf : acc.bool f = user.bool f := by simpa [Restored, User.Agrees] using hacc
    cases f with
    | isForbidden =>
      simp only [Restored, User.Agrees, Function.update_self, reduceCtorEq, false_and, or_false,
        KeycloakKeeps, henabled, Option.some.injEq]
      cases enabled <;> cases user.bool .isForbidden <;> simp
    | _ => exact iff_of_true (Or.inl hf) trivial
  | _ => exact iff_of_true hacc trivial

end Rows

section Columns

variable {s} {user : User lib} {column : TableColumn}

theorem roundTrips_iff_readsAs : RoundTrips s user column ↔
    ∀ f, fieldOf column.casdoorName = some f →
      ReadsAs s user f (getMapFromOriginalUser s user column.name) := by
  apply forall₂_congr
  intro f hf
  rw [setUserByKeyValue, hf]
  rfl

theorem exists_carrier (hcolumn : column ∈ s.tableColumns) :
    ∃ last, carrier s column.name = some last ∧ last ∈ s.tableColumns := by
  cases hlast : carrier s column.name with
  | none =>
    rw [carrier, List.find?_eq_none] at hlast
    exact absurd (decide_eq_true rfl) (hlast column (List.mem_reverse.mpr hcolumn))
  | some last =>
    exact ⟨last, rfl, List.mem_reverse.mp (List.mem_of_find?_eq_some hlast)⟩

theorem roundTrips_iff_carries (hcolumn : column ∈ s.tableColumns) :
    RoundTrips s user column ↔ Carries s user column := by
  obtain ⟨last, hlast, -⟩ := exists_carrier hcolumn
  rw [roundTrips_iff_readsAs]
  apply forall₂_congr
  intro f hf
  simp only [readsAs_iff, getMapFromOriginalUser, hlast, Option.some.injEq, exists_eq_left']
  split_ifs with hsame
  · exact isTextOf_encodedValue_iff hsame
  · rfl

/-- A field comes back from the column that a syncer maps it to exactly if the column carries it; and
a user whose columns all carry their fields is read back with every one of them, from a Keycloak
database exactly if the flag can be read and what is taken from elsewhere is what the user has. -/
theorem columns_round_trip_iff :
    (∀ column ∈ s.tableColumns, (RoundTrips s user column ↔ Carries s user column)) ∧
      ∀ (k : Keycloak) (row : GoString → Option GoString),
        (∀ column ∈ s.tableColumns, Carries s user column ∧ plus ∉ readName s k column ∧
          row (readName s k column) = some (getMapFromOriginalUser s user column.name)) →
        ((∃ user', getOriginalUserFromMap s k row = some user' ∧
          ∀ column ∈ s.tableColumns, ∀ f, fieldOf column.casdoorName = some f →
            Restored s user user' f) ↔
          (isKeycloak s = true → (keycloakEnabled row).isSome = true ∧
            ∀ column ∈ s.tableColumns, ∀ f, fieldOf column.casdoorName = some f →
              KeycloakKeeps s k row user f)) := by
  refine ⟨fun column => roundTrips_iff_carries, ?_⟩
  intro k row hall
  have hreads : ∀ column ∈ s.tableColumns, ∀ f, fieldOf column.casdoorName = some f →
      ReadsAs s user f (columnValue row (readName s k column)) := by
    intro column hcolumn f hf
    obtain ⟨hcarries, hplus, hrow⟩ := hall column hcolumn
    rw [columnValue, if_neg hplus, hrow]
    exact roundTrips_iff_readsAs.mp ((roundTrips_iff_carries hcolumn).mpr hcarries) f hf
  have hfresh : ∀ f, User.fresh.Agrees (User.fresh : User lib) f ∨ Restored s user User.fresh f :=
    fun f => Or.inl (User.Agrees.refl _ f)
  obtain ⟨acc, hfold, -, hrestored⟩ := foldlM_restored hreads hfresh
  have hid := readId_of_foldlM hfold hrestored
  have hread : getOriginalUserFromMap s k row =
      if isKeycloak s then fromKeycloak k row acc else some acc := by
    rw [getOriginalUserFromMap, hfold]
    rfl
  rw [hread]
  cases hkeycloak : isKeycloak s with
  | false =>
    refine iff_of_true ⟨acc, rfl, hrestored⟩ fun h => ?_
    cases h
  | true =>
    simp only [if_true, true_implies]
    constructor
    · rintro ⟨user', huser', hback⟩
      obtain ⟨enabled, henabled, -⟩ := Option.map_eq_some_iff.mp huser'
      refine ⟨by rw [henabled]; rfl, fun column hcolumn f hf => ?_⟩
      exact (restored_fromKeycloak_iff huser' hid (hrestored column hcolumn f hf)).mp
        (hback column hcolumn f hf)
    · rintro ⟨henabled, hkeeps⟩
      obtain ⟨enabled, henabled⟩ := Option.isSome_iff_exists.mp henabled
      refine ⟨_, Option.map_eq_some_iff.mpr ⟨enabled, henabled, rfl⟩, fun column hcolumn f hf => ?_⟩
      exact (restored_fromKeycloak_iff (Option.map_eq_some_iff.mpr ⟨enabled, henabled, rfl⟩) hid
        (hrestored column hcolumn f hf)).mpr (hkeeps column hcolumn f hf)

def noCredentials : Credentials where
  Credential := Empty
  marshal _ := []
  unmarshal _ := none
  marshal_ne_nil _ hcs := absurd (List.eq_nil_iff_forall_not_mem.mpr fun c => c.elim) hcs
  unmarshal_marshal _ hcs := absurd (List.eq_nil_iff_forall_not_mem.mpr fun c => c.elim) hcs

/-- A table of people in the other system. -/
def people : Syncer where
  organization := utf8 "acme"
  name := utf8 "people"
  type := utf8 "Database"
  databaseType := utf8 "mysql"
  tableColumns :=
    [⟨utf8 "login", utf8 "Name", true, false⟩, ⟨utf8 "codes", utf8 "RecoveryCodes", false, true⟩,
      ⟨utf8 "first_name", utf8 "FirstName", false, true⟩]
  avatarBaseUrl := []
  isReadOnly := false

def noKeycloak : Keycloak := ⟨id, fun _ => none, fun _ => none, fun _ => []⟩

def pushed (user : User noCredentials) (name : GoString) : Option GoString :=
  some (getMapFromOriginalUser people user name)

def person (name firstName : GoString) : User noCredentials :=
  { User.fresh with
    text := Function.update (Function.update (fun _ => []) .name name) .firstName firstName
    recoveryCodes := [utf8 "a1b2", utf8 "c3d4"] }

/-- Without a first name, everything comes back. -/
theorem columns_round_trip_nameless :
    ∃ user', getOriginalUserFromMap people noKeycloak (pushed (person (utf8 "ana") [])) = some user' ∧
      ∀ column ∈ people.tableColumns, ∀ f, fieldOf column.casdoorName = some f →
        Restored people (person (utf8 "ana") []) user' f := by
  refine (columns_round_trip_iff.2 noKeycloak (pushed (person (utf8 "ana") []))
    fun column hcolumn => ?_).mpr fun hkeycloak => absurd hkeycloak (by decide +kernel)
  have hcarrier : ∀ c ∈ people.tableColumns, carrier people c.name = some c ∧
      plus ∉ c.name ∧ readName people noKeycloak c = c.name := by
    decide +kernel
  obtain ⟨hlast, hplus, hname⟩ := hcarrier column hcolumn
  rw [hname]
  refine ⟨fun f hf => ⟨column, hlast, ?_⟩, hplus, rfl⟩
  rw [if_pos hf]
  have hmapped : ∀ c ∈ people.tableColumns, fieldOf c.casdoorName = some (.text .name) ∨
      fieldOf c.casdoorName = some .recoveryCodes ∨
      fieldOf c.casdoorName = some (.text .firstName) := by
    decide +kernel
  rcases hmapped column hcolumn with h | h | h <;> obtain rfl := Option.some.inj (hf.symm.trans h)
  · exact Or.inl rfl
  · exact ⟨List.cons_ne_nil _ _, by decide +kernel⟩
  · exact Or.inr rfl

/-- The first name is pushed as nothing, and read back as nothing. -/
theorem first_name_erased :
    (∃ column ∈ people.tableColumns,
      ¬ RoundTrips people (person (utf8 "ana") (utf8 "Ana")) column) ∧
      (getOriginalUserFromMap people noKeycloak (pushed (person (utf8 "ana") (utf8 "Ana")))).map
          (fun user' : User noCredentials => user'.text .firstName) = some [] := by
  constructor
  · refine ⟨⟨utf8 "first_name", utf8 "FirstName", false, true⟩, by decide +kernel, ?_⟩
    rw [roundTrips_iff_readsAs]
    intro h
    have htext : getMapFromOriginalUser people (person (utf8 "ana") (utf8 "Ana"))
        (utf8 "first_name") = utf8 "Ana" :=
      readsAs_iff.mp (h (.text .firstName) (by decide +kernel))
    revert htext
    decide +kernel
  · decide +kernel

end Columns

end ArchGuard.Object
