import ArchGuard.Credential
import ArchGuard.GoStrconv
import ArchGuard.JsonRecords

/-! The columns of a syncer: the fields of a user that they map, and their texts in the other
system. -/
namespace ArchGuard.Object
open GoStrconv GoText JsonRecords

/-- The fields of a user that are strings, as `setUserByKeyValue` knows them. -/
inductive TextField
  | name | createdTime | updatedTime | deletedTime | id | type | password | passwordSalt
  | displayName | firstName | lastName | permanentAvatar | email | phone | location | affiliation
  | title | idCardType | idCard | homepage | bio | tag | region | language | gender | birthday
  | education | createdIp | preferredMfaType | totpSecret | signupApplication | externalId
  | passwordType | avatarType | countryCode | realName | mfaRadiusUsername | mfaRadiusProvider
  | mfaPushReceiver | mfaPushProvider | invitation | invitationCode | ldap | lastSigninTime
  | lastSigninIp | lastChangePasswordTime | lastSigninWrongTime | ipWhitelist | mfaRememberDeadline
  deriving DecidableEq, Repr

inductive BoolField
  | emailVerified | isDefaultAvatar | isOnline | isAdmin | isForbidden | isDeleted
  | mfaPhoneEnabled | mfaEmailEnabled | isVerified | mfaRadiusEnabled | mfaPushEnabled
  | needUpdatePassword
  deriving DecidableEq, Repr

inductive IntField
  | score | ranking | signinWrongTimes
  deriving DecidableEq, Repr

inductive Field
  | text (f : TextField)
  | bool (f : BoolField)
  | int (f : IntField)
  | avatar
  | address
  | recoveryCodes
  | webauthnCredentials
  | managedAccounts
  | mfaAccounts
  | mfaItems
  deriving DecidableEq, Repr

structure ManagedAccount where
  application : GoString
  username : GoString
  password : GoString
  signinUrl : GoString
  deriving DecidableEq, Repr

structure MfaAccount where
  accountName : GoString
  issuer : GoString
  secretKey : GoString
  origin : GoString
  deriving DecidableEq, Repr

structure MfaItem where
  name : GoString
  rule : GoString
  deriving DecidableEq, Repr

/-- A list of four strings, with nothing for what is missing. -/
def quadruple {α : Type} (make : GoString → GoString → GoString → GoString → α)
    (vs : List GoString) : α :=
  make (vs.getD 0 []) (vs.getD 1 []) (vs.getD 2 []) (vs.getD 3 [])

def managedAccountShape : Shape ManagedAccount where
  names := ["application", "username", "password", "signinUrl"]
  values a := [a.application, a.username, a.password, a.signinUrl]
  ofValues := quadruple ManagedAccount.mk
  named := by decide
  nodup := by decide
  length_values _ := rfl
  ofValues_values _ := rfl
  values_ofValues vs h := by
    match vs, h with
    | [_, _, _, _], _ => rfl

def mfaAccountShape : Shape MfaAccount where
  names := ["accountName", "issuer", "secretKey", "origin"]
  values a := [a.accountName, a.issuer, a.secretKey, a.origin]
  ofValues := quadruple MfaAccount.mk
  named := by decide
  nodup := by decide
  length_values _ := rfl
  ofValues_values _ := rfl
  values_ofValues vs h := by
    match vs, h with
    | [_, _, _, _], _ => rfl

def mfaItemShape : Shape MfaItem where
  names := ["name", "rule"]
  values a := [a.name, a.rule]
  ofValues vs := ⟨vs.getD 0 [], vs.getD 1 []⟩
  named := by decide
  nodup := by decide
  length_values _ := rfl
  ofValues_values _ := rfl
  values_ofValues vs h := by
    match vs, h with
    | [_, _], _ => rfl

/-- The credentials of go-webauthn, with their JSON text, which the library reads back. -/
structure Credentials where
  Credential : Type
  marshal : List Credential → GoString
  unmarshal : GoString → Option (List Credential)
  marshal_ne_nil : ∀ cs, cs ≠ [] → marshal cs ≠ []
  unmarshal_marshal : ∀ cs, cs ≠ [] → unmarshal (marshal cs) = some cs

/-- The mapped fields of a user; an original user is one too. -/
structure User (lib : Credentials) where
  text : TextField → GoString
  bool : BoolField → Bool
  int : IntField → GoInt
  avatar : GoString
  address : List GoString
  recoveryCodes : List GoString
  webauthnCredentials : List lib.Credential
  managedAccounts : List ManagedAccount
  mfaAccounts : List MfaAccount
  mfaItems : List MfaItem

/-- The keys of `setUserByKeyValue`. -/
def fieldNames : List (String × Field) :=
  [("Name", .text .name), ("CreatedTime", .text .createdTime), ("UpdatedTime", .text .updatedTime),
    ("DeletedTime", .text .deletedTime), ("Id", .text .id), ("Type", .text .type),
    ("Password", .text .password), ("PasswordSalt", .text .passwordSalt),
    ("DisplayName", .text .displayName), ("FirstName", .text .firstName),
    ("LastName", .text .lastName), ("Avatar", .avatar), ("PermanentAvatar", .text .permanentAvatar),
    ("Email", .text .email), ("EmailVerified", .bool .emailVerified), ("Phone", .text .phone),
    ("Location", .text .location), ("Address", .address), ("Affiliation", .text .affiliation),
    ("Title", .text .title), ("IdCardType", .text .idCardType), ("IdCard", .text .idCard),
    ("Homepage", .text .homepage), ("Bio", .text .bio), ("Tag", .text .tag),
    ("Region", .text .region), ("Language", .text .language), ("Gender", .text .gender),
    ("Birthday", .text .birthday), ("Education", .text .education), ("Score", .int .score),
    ("Ranking", .int .ranking), ("IsDefaultAvatar", .bool .isDefaultAvatar),
    ("IsOnline", .bool .isOnline), ("IsAdmin", .bool .isAdmin), ("IsForbidden", .bool .isForbidden),
    ("IsDeleted", .bool .isDeleted), ("CreatedIp", .text .createdIp),
    ("PreferredMfaType", .text .preferredMfaType), ("TotpSecret", .text .totpSecret),
    ("SignupApplication", .text .signupApplication), ("MfaPhoneEnabled", .bool .mfaPhoneEnabled),
    ("MfaEmailEnabled", .bool .mfaEmailEnabled), ("RecoveryCodes", .recoveryCodes),
    ("ExternalId", .text .externalId), ("PasswordType", .text .passwordType),
    ("AvatarType", .text .avatarType), ("CountryCode", .text .countryCode),
    ("RealName", .text .realName), ("IsVerified", .bool .isVerified),
    ("MfaRadiusEnabled", .bool .mfaRadiusEnabled), ("MfaRadiusUsername", .text .mfaRadiusUsername),
    ("MfaRadiusProvider", .text .mfaRadiusProvider), ("MfaPushEnabled", .bool .mfaPushEnabled),
    ("MfaPushReceiver", .text .mfaPushReceiver), ("MfaPushProvider", .text .mfaPushProvider),
    ("Invitation", .text .invitation), ("InvitationCode", .text .invitationCode),
    ("Ldap", .text .ldap), ("LastSigninTime", .text .lastSigninTime),
    ("LastSigninIp", .text .lastSigninIp),
    ("LastChangePasswordTime", .text .lastChangePasswordTime),
    ("LastSigninWrongTime", .text .lastSigninWrongTime),
    ("SigninWrongTimes", .int .signinWrongTimes), ("NeedUpdatePassword", .bool .needUpdatePassword),
    ("IpWhitelist", .text .ipWhitelist), ("MfaRememberDeadline", .text .mfaRememberDeadline),
    ("WebauthnCredentials", .webauthnCredentials), ("ManagedAccounts", .managedAccounts),
    ("MfaAccounts", .mfaAccounts), ("MfaItems", .mfaItems)]

def fieldOf (key : GoString) : Option Field := (fieldNames.find? (utf8 ·.1 = key)).map (·.2)

/-- Whether the map of `getMapFromOriginalUser` has an entry of the field: three keys that
`setUserByKeyValue` knows have none. -/
def Field.isEncoded : Field → Bool
  | .text .firstName => false
  | .text .lastName => false
  | .bool .emailVerified => false
  | _ => true

structure TableColumn where
  name : GoString
  casdoorName : GoString
  isKey : Bool
  isHashed : Bool
  deriving DecidableEq, Repr

structure Syncer where
  organization : GoString
  name : GoString
  type : GoString
  databaseType : GoString
  tableColumns : List TableColumn
  avatarBaseUrl : GoString
  isReadOnly : Bool
  deriving DecidableEq, Repr

/-- `ParseInt`; nothing is returned where it panics. -/
def parseInt (s : GoString) : Option GoInt := if s = [] then some ⟨0, by decide⟩ else atoi s

def parseBool (s : GoString) : Option Bool :=
  if s = [1] ∨ s = utf8 "true" then some true
  else if s = utf8 "false" then some false
  else (parseInt s).map fun n => n.1 ≠ 0

def boolToString (b : Bool) : GoString := if b then utf8 "1" else utf8 "0"

/-- `marshalToJSONString` of a list: nothing for an empty one. -/
def marshalToJSONString {α : Type} (marshal : List α → GoString) (as : List α) : GoString :=
  if as = [] then [] else marshal as

/-- `unmarshalJSON` into a field: it stays for an empty text, and its callers ignore an error. -/
def unmarshalJSON {α : Type} (unmarshal : GoString → Option (List α)) (value : GoString)
    (field : List α) : List α :=
  if value = [] then field else (unmarshal value).getD field

def comma : UInt8 := 44

def bar : UInt8 := 124

section Codec

variable (s : Syncer) {lib : Credentials}

def getFullAvatarUrl (avatar : GoString) : GoString :=
  if s.avatarBaseUrl = [] then avatar
  else if (utf8 "http").isPrefixOf avatar then avatar
  else s.avatarBaseUrl ++ avatar

def getPartialAvatarUrl (avatar : GoString) : GoString :=
  if s.avatarBaseUrl.isPrefixOf avatar then avatar.drop s.avatarBaseUrl.length else avatar

def encodeField (user : User lib) : Field → GoString
  | .text f => user.text f
  | .bool f => boolToString (user.bool f)
  | .int f => itoa (user.int f).1
  | .avatar => getFullAvatarUrl s user.avatar
  | .address => join bar user.address
  | .recoveryCodes => join comma user.recoveryCodes
  | .webauthnCredentials => marshalToJSONString lib.marshal user.webauthnCredentials
  | .managedAccounts => marshalToJSONString managedAccountShape.marshalAll user.managedAccounts
  | .mfaAccounts => marshalToJSONString mfaAccountShape.marshalAll user.mfaAccounts
  | .mfaItems => marshalToJSONString mfaItemShape.marshalAll user.mfaItems

/-- The text under a key of the first map of `getMapFromOriginalUser`; a key without an entry has the
empty one. -/
def encodedValue (user : User lib) (key : GoString) : GoString :=
  match fieldOf key with
  | some f => if f.isEncoded then encodeField s user f else []
  | none => []

/-- The column that has the last word on a name of the other system's table. -/
def carrier (name : GoString) : Option TableColumn :=
  s.tableColumns.reverse.find? (·.name = name)

/-- `getMapFromOriginalUser`, at a name. -/
def getMapFromOriginalUser (user : User lib) (name : GoString) : GoString :=
  match carrier s name with
  | some column => encodedValue s user column.casdoorName
  | none => []

/-- The text of a column into its field; nothing is returned where `ParseInt` panics. -/
def User.set (user : User lib) (value : GoString) : Field → Option (User lib)
  | .text f => some { user with text := Function.update user.text f value }
  | .bool f => (parseBool value).map fun b => { user with bool := Function.update user.bool f b }
  | .int f => (parseInt value).map fun n => { user with int := Function.update user.int f n }
  | .avatar => some { user with avatar := getPartialAvatarUrl s value }
  | .address => some { user with address := [value] }
  | .recoveryCodes => some { user with recoveryCodes := value.splitOn comma }
  | .webauthnCredentials => some { user with
      webauthnCredentials := unmarshalJSON lib.unmarshal value user.webauthnCredentials }
  | .managedAccounts => some { user with
      managedAccounts := unmarshalJSON managedAccountShape.unmarshalAll value user.managedAccounts }
  | .mfaAccounts => some { user with
      mfaAccounts := unmarshalJSON mfaAccountShape.unmarshalAll value user.mfaAccounts }
  | .mfaItems => some { user with
      mfaItems := unmarshalJSON mfaItemShape.unmarshalAll value user.mfaItems }

def setUserByKeyValue (user : User lib) (key value : GoString) : Option (User lib) :=
  match fieldOf key with
  | some f => user.set s value f
  | none => some user

/-- The user that `getOriginalUsersFromMap` starts from. -/
def User.fresh : User lib where
  text _ := []
  bool _ := false
  int _ := ⟨0, by decide⟩
  avatar := []
  address := []
  recoveryCodes := []
  webauthnCredentials := []
  managedAccounts := []
  mfaAccounts := []
  mfaItems := []

def plus : UInt8 := 43

/-- `strings.Trim` of blanks. -/
def trimBlanks (t : GoString) : GoString :=
  ((t.dropWhile (· = 32)).reverse.dropWhile (· = 32)).reverse

/-- The text that a column finds in a row: a name with pluses stands for several columns. -/
def columnValue (row : GoString → Option GoString) (name : GoString) : GoString :=
  if plus ∈ name then
    join 32 ((name.splitOn plus).map fun part => (row (trimBlanks part)).getD [])
  else (row name).getD []

/-- What the reading of a Keycloak database rests on besides the row: by the id of a user, the value
and the salt of the password credential and the name of the group, as far as they are found; and
`unicode.ToLower` and the format of a Unix time in the zone of the server. -/
structure Keycloak where
  lower : Char → Char
  credential : GoString → Option (GoString × GoString)
  group : GoString → Option GoString
  format : ℤ → GoString

def isKeycloak : Bool := s.type = utf8 "Keycloak"

variable (k : Keycloak) (row : GoString → Option GoString)

/-- The name under which a column is looked up in a row. -/
def readName (column : TableColumn) : GoString :=
  if isKeycloak s && s.databaseType = utf8 "postgres" then toLower k.lower column.name
  else column.name

/-- The flag of a Keycloak user, in either spelling; nothing is returned where `ParseInt` panics. -/
def keycloakEnabled : Option Bool :=
  parseBool ((row (utf8 "ENABLED")).getD ((row (utf8 "enabled")).getD []))

def User.withText (user : User lib) (f : TextField) (value : GoString) : User lib :=
  { user with text := Function.update user.text f value }

/-- What a Keycloak database says of a user beyond the columns. -/
def fromKeycloak (user : User lib) : Option (User lib) :=
  let id := user.text .id
  let user := match k.credential id with
    | some (value, salt) => (user.withText .password value).withText .passwordSalt salt
    | none => user
  let user := match k.group id with
    | some name => user.withText .signupApplication name
    | none => user
  let user := match atoi (user.text .createdTime) with
    | some ms => user.withText .createdTime (k.format (ms.1.tdiv 1000))
    | none => user
  (keycloakEnabled row).map fun enabled =>
    { user with bool := Function.update user.bool .isForbidden (!enabled) }

/-- `getOriginalUsersFromMap` of a row; nothing is returned where a column panics. -/
def getOriginalUserFromMap : Option (User lib) :=
  (s.tableColumns.foldlM (fun user column =>
    setUserByKeyValue s user column.casdoorName (columnValue row (readName s k column)))
      User.fresh).bind fun user =>
    if isKeycloak s then fromKeycloak k row user else some user

end Codec

end ArchGuard.Object
