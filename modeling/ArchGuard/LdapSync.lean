import ArchGuard.GeneralizedTime
import ArchGuard.GoStrconv
import ArchGuard.Primitives

/-! One incremental pass over a directory: what is searched for, what is delivered, and the mark
from which the next pass goes on. -/
namespace ArchGuard.Ldap
open GoText GoStrconv GoTime

inductive DirectoryKind
  | ldap | ad
  deriving DecidableEq, Repr

structure AttributeMapping where
  directoryAttr : String
  archGuardAttr : String
  deriving DecidableEq, Repr

/-- What a pass reads of a connector. -/
structure DirectoryConnector where
  kind : DirectoryKind
  scopeFilter : String
  attributes : List AttributeMapping

/-- An entry as the directory returns it: attributes with their values, in the order sent. -/
structure Entry where
  dn : String
  attributes : List (String × List GoString)
  deriving DecidableEq, Repr

def Entry.getAttributeValues (e : Entry) (attr : String) : List GoString :=
  (e.attributes.lookup attr).getD []

def Entry.getAttributeValue (e : Entry) (attr : String) : GoString :=
  (e.getAttributeValues attr).headD []

structure SearchRequest where
  baseDN : String
  filter : String
  attributes : List String
  deriving DecidableEq, Repr

structure DirectorySyncRecord where
  externalID : GoString
  email : GoString
  attributes : List (String × GoString)
  groups : List GoString
  active : Bool
  deriving DecidableEq, Repr

structure SyncResult where
  records : List DirectorySyncRecord
  highWater : Time
  deriving DecidableEq, Repr

inductive SyncError
  | searchBaseRequired
  | scopeFilterRequired
  | search (err : String)
  deriving DecidableEq, Repr

def SyncError.text : SyncError → String
  | .searchBaseRequired => "ldapsync: base de busca obrigatória"
  | .scopeFilterRequired => "directory_connector: filtro de escopo obrigatório " ++
      "(sincronizar toda a árvore é proibido)"
  | .search err => "ldapsync: busca no diretório falhou: " ++ err

def groupAttr : String := "memberOf"

def modifyAttr : String := "modifyTimestamp"

def uacAttr : String := "userAccountControl"

def externalIDAttr : DirectoryKind → String
  | .ad => "objectGUID"
  | .ldap => "entryUUID"

def put (m : List (String × GoString)) (key : String) (value : GoString) :
    List (String × GoString) := (key, value) :: m.filter fun e => e.1 ≠ key

/-- The attributes that the search asks for, each once. -/
def requestedAttributes (c : DirectoryConnector) : List String :=
  (c.attributes.map AttributeMapping.directoryAttr ++ [groupAttr, modifyAttr, externalIDAttr c.kind] ++
    if c.kind = .ad then [uacAttr] else []).foldl
      (fun attrs a => if a ≠ "" ∧ a ∉ attrs then attrs ++ [a] else attrs) []

def rawAttributes (e : Entry) (c : DirectoryConnector) : List (String × GoString) :=
  c.attributes.foldl (fun raw m =>
    let v := e.getAttributeValue m.directoryAttr
    if v ≠ [] then put raw m.directoryAttr v else raw) []

def applyAttributeMapping (mapping : List AttributeMapping) (raw : List (String × GoString)) :
    List (String × GoString) :=
  mapping.foldl (fun out m =>
    match raw.lookup m.directoryAttr with
    | some v => if v ≠ [] then put out m.archGuardAttr v else out
    | none => out) []

def mappedEmail (attrs : List (String × GoString)) : GoString := (attrs.lookup "email").getD []

/-- On AD the bit 0x2 of the account's flags disables it; flags that are no number do not. -/
def activeFromEntry (kind : DirectoryKind) (uac : GoString) : Bool :=
  match kind with
  | .ad =>
    match atoi uac with
    | some n => n.1/2%2 = 0
    | none => true
  | .ldap => true

def firstNonEmpty (a b : GoString) : GoString := if a ≠ [] then a else b

def record (c : DirectoryConnector) (e : Entry) : DirectorySyncRecord :=
  let attrs := applyAttributeMapping c.attributes (rawAttributes e c)
  { externalID := firstNonEmpty (e.getAttributeValue (externalIDAttr c.kind)) (utf8 e.dn)
    email := mappedEmail attrs
    attributes := attrs
    groups := e.getAttributeValues groupAttr
    active := activeFromEntry c.kind (e.getAttributeValue uacAttr) }

/-- The change stamp of an entry; none when it is missing or cannot be read. -/
def changeStamp (e : Entry) : Option Time :=
  parseStamp ((e.getAttributeValue modifyAttr).map fun b => Char.ofNat b.toNat)

def raise (highWater : Time) (e : Entry) : Time :=
  match changeStamp e with
  | some ts => if highWater < ts then ts else highWater
  | none => highWater

/-- The filter of a pass: the scope, and from the second one on what changed since the mark. -/
def syncFilter (scopeFilter : String) (since : Time) : String :=
  if since = Time.zero then scopeFilter
  else "(&" ++ scopeFilter ++ "(" ++ modifyAttr ++ ">=" ++ String.ofList (stampText since) ++ "))"

def searchRequest (searchBase : String) (c : DirectoryConnector) (since : Time) : SearchRequest :=
  ⟨searchBase, syncFilter c.scopeFilter since, requestedAttributes c⟩

def sync (searcher : SearchRequest → Except String (List Entry)) (searchBase : String)
    (c : DirectoryConnector) (since : Time) : Except SyncError SyncResult :=
  if searchBase = "" then .error .searchBaseRequired
  else if c.scopeFilter = "" then .error .scopeFilterRequired
  else match searcher (searchRequest searchBase c since) with
    | .error err => .error (.search err)
    | .ok entries => .ok ⟨entries.map (record c), entries.foldl raise Time.zero⟩

section HighWater

variable {entries : List Entry} {e : Entry} {mark t : Time}

theorem le_raise_iff : t ≤ raise mark e ↔ t ≤ mark ∨ ∃ ts, changeStamp e = some ts ∧ t ≤ ts := by
  rw [raise]
  cases changeStamp e with
  | none => simp
  | some ts =>
    have hmax : (if mark < ts then ts else mark) = max mark ts := by
      rcases lt_or_ge mark ts with h | h
      · rw [if_pos h, max_eq_right h.le]
      · rw [if_neg h.not_gt, max_eq_left h]
    simp [hmax]

theorem le_foldl_raise_iff : t ≤ entries.foldl raise mark ↔
    t ≤ mark ∨ ∃ e ∈ entries, ∃ ts, changeStamp e = some ts ∧ t ≤ ts := by
  induction entries generalizing mark with
  | nil => simp
  | cons e entries ih =>
    rw [List.foldl_cons, ih, le_raise_iff, or_assoc]
    simp only [List.exists_mem_cons_iff]

end HighWater

/-- The mark goes neither back behind the one before nor behind what was delivered. -/
def Forward (since : Time) (entries : List Entry) (highWater : Time) : Prop :=
  since ≤ highWater ∧ ∀ e ∈ entries, ∀ ts, changeStamp e = some ts → ts ≤ highWater

/-- A pass that ends well has read its entries, and hands back the latest of their stamps. -/
theorem sync_eq_ok {searcher : SearchRequest → Except String (List Entry)} {searchBase : String}
    {c : DirectoryConnector} {since : Time} {res : SyncResult}
    (h : sync searcher searchBase c since = .ok res) :
    ∃ entries, searcher (searchRequest searchBase c since) = .ok entries ∧
      res = ⟨entries.map (record c), entries.foldl raise Time.zero⟩ := by
  rw [sync, ite_error_eq_ok, ite_error_eq_ok] at h
  obtain ⟨-, -, h⟩ := h
  cases hsearch : searcher (searchRequest searchBase c since) with
  | error err =>
    rw [hsearch] at h
    cases h
  | ok entries =>
    rw [hsearch] at h
    exact ⟨entries, rfl, (Except.ok.inj h).symm⟩

/-- A pass keeps its mark exactly when an entry bears a stamp that is as late: otherwise the mark
falls back, to the zero time when there is no stamp at all. -/
theorem sync_forward_iff {searcher : SearchRequest → Except String (List Entry)}
    {searchBase : String} {c : DirectoryConnector} {since : Time} {res : SyncResult}
    (h : sync searcher searchBase c since = .ok res) :
    ∃ entries, searcher (searchRequest searchBase c since) = .ok entries ∧
      res.records = entries.map (record c) ∧
      (Forward since entries res.highWater ↔
        since ≤ Time.zero ∨ ∃ e ∈ entries, ∃ ts, changeStamp e = some ts ∧ since ≤ ts) := by
  obtain ⟨entries, hsearch, rfl⟩ := sync_eq_ok h
  refine ⟨entries, hsearch, rfl, ?_⟩
  have hstamps : ∀ e ∈ entries, ∀ ts, changeStamp e = some ts →
      ts ≤ entries.foldl raise Time.zero :=
    fun e he ts hts => le_foldl_raise_iff.mpr (Or.inr ⟨e, he, ts, hts, le_rfl⟩)
  rw [← le_foldl_raise_iff]
  exact ⟨fun hforward => hforward.1, fun hle => ⟨hle, hstamps⟩⟩

section Samples

def corporate : DirectoryConnector := ⟨.ad, "(objectClass=user)", [⟨"mail", "email"⟩]⟩

def ana : Entry :=
  ⟨"CN=Ana,OU=Users,DC=cli,DC=com", [("mail", [utf8 "ana@cli.com"]), ("userAccountControl", [utf8 "512"]),
    ("modifyTimestamp", [utf8 "20260723120000Z"])]⟩

def bob : Entry :=
  ⟨"CN=Bob,OU=Users,DC=cli,DC=com", [("mail", [utf8 "bob@cli.com"])]⟩

/-- The instant of Ana's change. -/
def noon : Time := 1784808000*10^9

/-- One entry bears a stamp, the other has none. -/
theorem sync_ana_bob : ∃ res,
    sync (fun _ => .ok [bob, ana]) "DC=cli,DC=com" corporate (noon-1) = .ok res ∧
      Forward (noon-1) [bob, ana] res.highWater := by
  have hsync : sync (fun _ => .ok [bob, ana]) "DC=cli,DC=com" corporate (noon-1) =
      .ok ⟨[record corporate bob, record corporate ana], [bob, ana].foldl raise Time.zero⟩ := rfl
  obtain ⟨entries, hentries, -, hiff⟩ := sync_forward_iff hsync
  cases hentries
  have hmem : ana ∈ [bob, ana] := List.mem_cons_of_mem bob (List.mem_singleton_self ana)
  refine ⟨_, hsync, hiff.mpr (Or.inr ⟨ana, hmem, noon, ?_, by decide⟩)⟩
  decide +kernel

/-- A quiet pass hands back the zero time, and the pass after it is a full one. -/
theorem quiet_pass_falls_back :
    sync (fun _ => .ok []) "DC=cli,DC=com" corporate noon = .ok ⟨[], Time.zero⟩ ∧
      Time.zero < noon ∧ ¬ Forward noon [] Time.zero ∧
      syncFilter corporate.scopeFilter Time.zero = corporate.scopeFilter := by
  refine ⟨by decide, by decide, ?_, by decide⟩
  intro hforward
  exact absurd hforward.1 (by decide)

end Samples

end ArchGuard.Ldap
