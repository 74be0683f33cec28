import Mathlib.Data.List.Basic
import NeoServer.Machine
import NeoServer.Text

/-!
# Store.Roles — roles and who names them

API keys, claim mappings, sessions, policies and the access lists of resources name roles by their
ids. A write that assigns roles holds `roleMu` for reading from the check of the roles to its end;
a role is created and deleted with `roleMu` held for writing. The publication of an import takes no
lock and checks no roles.

- `Database` : the tables, and the writes that are under way,
- `machine` : every write in two steps, roles, time, imports,
- `Referential` : every role that is named in the database exists, and none that was deleted does,
- `referential_of_reachable` : so it is in every run whose imports name only roles that exist.
-/

namespace NeoServer.Store

open List

/-! ## Tables -/

structure Role where
  id : Str
  isSystem : Bool
deriving DecidableEq, Repr

/-- Instants are numbers. -/
structure APIKey where
  id : Str
  roleID : Str
  revoked : Bool
  expiresAt : Option Int
deriving DecidableEq, Repr

def APIKey.live (key : APIKey) (now : Int) : Bool := !key.revoked && key.expiresAt.all fun t => now < t

structure ClaimRoleMapping where
  id : Str
  roleID : Str
deriving DecidableEq, Repr

/-- A session and the values of its map of roles, the global one among them. -/
structure BrowserSession where
  id : Str
  roles : List Str
  revoked : Bool
  expiresAt : Int
  idleExpiresAt : Int
deriving DecidableEq, Repr

def BrowserSession.live (session : BrowserSession) (now : Int) : Bool :=
  !session.revoked && now < session.expiresAt && now < session.idleExpiresAt

/-- A rule, with its role as `v0`. -/
structure CasbinRule where
  ptype : Str
  v0 : Str
  values : List Str
deriving DecidableEq, Repr

inductive ResourceTable
  | layers | coverages | layerGroups
deriving DecidableEq, Repr

/-- A published resource with its access list. -/
structure ResourceRow where
  table : ResourceTable
  id : Str
  allowedRoles : List Str
deriving DecidableEq, Repr

/-- The writes that assign roles. -/
inductive Write
  | createAPIKey (key : APIKey)
  | createClaimMapping (mapping : ClaimRoleMapping)
  | createBrowserSession (session : BrowserSession)
  | saveCasbinPolicy (rule : CasbinRule)
  | replaceCasbinPolicies (rules : List CasbinRule)
  | createResource (row : ResourceRow)
  | updateResource (table : ResourceTable) (id : Str) (allowedRoles : List Str)
deriving DecidableEq, Repr

/-- The roles that a write assigns. -/
def Write.roles : Write → List Str
  | .createAPIKey key => [key.roleID]
  | .createClaimMapping mapping => [mapping.roleID]
  | .createBrowserSession session => session.roles
  | .saveCasbinPolicy rule => [rule.v0]
  | .replaceCasbinPolicies rules => rules.map CasbinRule.v0
  | .createResource row => row.allowedRoles
  | .updateResource _ _ allowedRoles => allowedRoles

/-- The tables at an instant. `pending` holds the writes that have checked their roles and hold
`roleMu`; `deleted` remembers the roles that were deleted. -/
structure Database where
  now : Int
  roles : List Role
  retiredRoles : List Str
  apiKeys : List APIKey
  claimMappings : List ClaimRoleMapping
  sessions : List BrowserSession
  policies : List CasbinRule
  resources : List ResourceRow
  pending : List Write
  deleted : List Str

namespace Database

variable (db : Database)

def hasRole (id : Str) : Bool := db.roles.any fun role => role.id = id

def checkRoleAssignments (roles : List Str) : Bool := roles.all db.hasRole

/-- Whether one of the counts of `roleDependencies` is positive. -/
def roleDependencies (id : Str) : Bool :=
  (db.apiKeys.any fun key => key.roleID = id && key.live db.now) ||
    (db.claimMappings.any fun mapping => mapping.roleID = id) ||
    (db.sessions.any fun session => session.live db.now && id ∈ session.roles) ||
    db.resources.any fun row => id ∈ row.allowedRoles

def apply : Write → Database
  | .createAPIKey key => { db with apiKeys := key :: db.apiKeys }
  | .createClaimMapping mapping => { db with claimMappings := mapping :: db.claimMappings }
  | .createBrowserSession session => { db with sessions := session :: db.sessions }
  | .saveCasbinPolicy rule => { db with policies := rule :: db.policies }
  | .replaceCasbinPolicies rules => { db with policies := rules }
  | .createResource row => { db with resources := row :: db.resources }
  | .updateResource table id allowedRoles =>
    { db with
      resources := db.resources.map fun row =>
        if row.table = table ∧ row.id = id then { row with allowedRoles := allowedRoles } else row }

def createRole (id : Str) : Database := { db with roles := ⟨id, false⟩ :: db.roles }

def deleteRole (id : Str) : Database :=
  { db with
    policies := db.policies.filter fun rule => rule.v0 ≠ id
    retiredRoles := id :: db.retiredRoles
    roles := db.roles.filter fun role => role.id ≠ id
    deleted := id :: db.deleted }

/-- The layers of an import, with the access lists of its plan. -/
def publishImport (layers : List (Str × List Str)) : Database :=
  { db with resources := (layers.map fun layer => ⟨.layers, layer.1, layer.2⟩) ++ db.resources }

end Database

/-! ## Steps -/

inductive Label
  | begin (write : Write)
  | beginUpdate (row : ResourceRow)
  | finish (write : Write)
  | abandon (write : Write)
  | createRole (id : Str)
  | deleteRole (id : Str)
  | publishImport (layers : List (Str × List Str))
  | tick
  | removeRows

inductive Step : Database → Label → Database → Prop
  | begin {db : Database} {write : Write} (hroles : db.checkRoleAssignments write.roles) :
      Step db (.begin write) { db with pending := write :: db.pending }
  /-- An update that assigns no roles reads the row and writes its list back. -/
  | beginUpdate {db : Database} {row : ResourceRow} (hrow : row ∈ db.resources) :
      Step db (.beginUpdate row)
        { db with pending := .updateResource row.table row.id row.allowedRoles :: db.pending }
  | finish {db : Database} {write} (hpending : write ∈ db.pending) :
      Step db (.finish write) { db.apply write with pending := db.pending.erase write }
  | abandon {db : Database} {write} (hpending : write ∈ db.pending) :
      Step db (.abandon write) { db with pending := db.pending.erase write }
  | createRole {db : Database} {id} (hlock : db.pending = []) (hretired : id ∉ db.retiredRoles)
      (hid : db.hasRole id = false) : Step db (.createRole id) (db.createRole id)
  | deleteRole {db : Database} {id} (hlock : db.pending = []) (hrole : ⟨id, false⟩ ∈ db.roles)
      (hdependencies : db.roleDependencies id = false) : Step db (.deleteRole id) (db.deleteRole id)
  | publishImport {db : Database} {layers} :
      Step db (.publishImport layers) (db.publishImport layers)
  | tick {db : Database} {now} (hnow : db.now ≤ now) : Step db .tick { db with now := now }
  /-- Calls that only take rows away: revocations, deletions, expired sessions. -/
  | removeRows {db : Database} {apiKeys : List APIKey} {claimMappings : List ClaimRoleMapping}
      {sessions : List BrowserSession} {policies : List CasbinRule} {resources : List ResourceRow}
      (hapiKeys : apiKeys.Sublist db.apiKeys) (hclaimMappings : claimMappings.Sublist db.claimMappings)
      (hsessions : sessions.Sublist db.sessions) (hpolicies : policies.Sublist db.policies)
      (hresources : resources.Sublist db.resources) :
      Step db .removeRows
        { db with apiKeys, claimMappings, sessions, policies, resources }

/-- A new catalog: system roles, and rules for them. -/
structure Database.Init (db : Database) : Prop where
  policies : ∀ rule ∈ db.policies, db.hasRole rule.v0
  retiredRoles : db.retiredRoles = []
  apiKeys : db.apiKeys = []
  claimMappings : db.claimMappings = []
  sessions : db.sessions = []
  resources : db.resources = []
  pending : db.pending = []
  deleted : db.deleted = []

def machine : Machine Database Label where
  init := Database.Init
  step := Step

/-! ## What is named exists -/

/-- The rows that count now. -/
structure Referential (db : Database) : Prop where
  apiKeys : ∀ key ∈ db.apiKeys, key.live db.now → db.hasRole key.roleID
  claimMappings : ∀ mapping ∈ db.claimMappings, db.hasRole mapping.roleID
  sessions : ∀ session ∈ db.sessions, session.live db.now → ∀ id ∈ session.roles, db.hasRole id
  policies : ∀ rule ∈ db.policies, db.hasRole rule.v0
  resources : ∀ row ∈ db.resources, ∀ id ∈ row.allowedRoles, db.hasRole id
  deleted : ∀ id ∈ db.deleted, db.hasRole id = false

/-- An import names roles that exist when it is published. -/
def KnownRoles (db : Database) : Label → Prop
  | .publishImport layers => ∀ layer ∈ layers, db.checkRoleAssignments layer.2
  | _ => True

/-- The writes under way name roles that exist, and deleted roles are retired. -/
structure Sound (db : Database) : Prop where
  referential : Referential db
  pending : ∀ write ∈ db.pending, ∀ id ∈ write.roles, db.hasRole id
  retired : ∀ id ∈ db.retiredRoles, db.hasRole id = false
  deleted : ∀ id ∈ db.deleted, id ∈ db.retiredRoles

lemma hasRole_createRole (db : Database) (id r : Str) :
    (db.createRole id).hasRole r = (decide (id = r) || db.hasRole r) := rfl

lemma hasRole_deleteRole (db : Database) (id r : Str) :
    (db.deleteRole id).hasRole r = (decide (r ≠ id) && db.hasRole r) := by
  rw [Bool.eq_iff_iff]
  simp only [Database.hasRole, Database.deleteRole, any_filter, any_eq_true, Bool.and_eq_true, decide_eq_true_eq]
  constructor
  · rintro ⟨role, hrole, hne, rfl⟩
    exact ⟨hne, role, hrole, rfl⟩
  · rintro ⟨hne, role, hrole, rfl⟩
    exact ⟨role, hrole, hne, rfl⟩

variable {db : Database} {id : Str}

lemma mem_checkRoleAssignments {roles}
    (h : db.checkRoleAssignments roles) (hid : id ∈ roles) : db.hasRole id :=
  all_eq_true.1 h id hid

/-- What is live later was live before. -/
lemma APIKey.live_of_le {key : APIKey} {now later : Int} (hle : now ≤ later) (h : key.live later) :
    key.live now := by
  simp only [live, Bool.and_eq_true, Option.all_eq_true, decide_eq_true_eq] at h ⊢
  refine ⟨h.1, fun t ht => ?_⟩
  have := h.2 t ht
  omega

lemma BrowserSession.live_of_le {session : BrowserSession} {now later : Int} (hle : now ≤ later)
    (h : session.live later) : session.live now := by
  simp only [live, Bool.and_eq_true, decide_eq_true_eq] at h ⊢
  exact ⟨⟨h.1.1, by omega⟩, by omega⟩

/-- No dependency: whatever counts names other roles. -/
lemma ne_of_roleDependencies (h : db.roleDependencies id = false) :
    (∀ key ∈ db.apiKeys, key.live db.now → key.roleID ≠ id) ∧
      (∀ mapping ∈ db.claimMappings, mapping.roleID ≠ id) ∧
      (∀ session ∈ db.sessions, session.live db.now → ∀ r ∈ session.roles, r ≠ id) ∧
      ∀ row ∈ db.resources, ∀ r ∈ row.allowedRoles, r ≠ id := by
  simp only [Database.roleDependencies, Bool.or_eq_false_iff, any_eq_false, Bool.and_eq_true,
    decide_eq_true_eq, not_and] at h
  obtain ⟨⟨⟨hkeys, hmappings⟩, hsessions⟩, hresources⟩ := h
  refine ⟨fun key hkey hlive hid => hkeys key hkey hid hlive, hmappings, ?_, ?_⟩
  · rintro session hsession hlive r hr rfl
    exact hsessions session hsession hlive hr
  · rintro row hrow r hr rfl
    exact hresources row hrow hr

/-! ## Each call keeps what is named -/

lemma Referential.withPending (h : Referential db) (pending : List Write) :
    Referential { db with pending } :=
  ⟨h.apiKeys, h.claimMappings, h.sessions, h.policies, h.resources, h.deleted⟩

/-- A write whose roles exist. -/
lemma Referential.apply (h : Referential db) {write : Write}
    (hroles : ∀ id ∈ write.roles, db.hasRole id) : Referential (db.apply write) := by
  cases write with
  | createAPIKey =>
    refine { h with apiKeys := ?_ }
    exact forall_mem_cons.mpr ⟨fun _ => hroles _ (mem_singleton.2 rfl), h.apiKeys⟩
  | createClaimMapping =>
    refine { h with claimMappings := ?_ }
    exact forall_mem_cons.mpr ⟨hroles _ (mem_singleton.2 rfl), h.claimMappings⟩
  | createBrowserSession =>
    refine { h with sessions := ?_ }
    exact forall_mem_cons.mpr ⟨fun _ => hroles, h.sessions⟩
  | saveCasbinPolicy =>
    refine { h with policies := ?_ }
    exact forall_mem_cons.mpr ⟨hroles _ (mem_singleton.2 rfl), h.policies⟩
  | replaceCasbinPolicies =>
    refine { h with policies := ?_ }
    intro rule hrule
    exact hroles _ (mem_map.2 ⟨rule, hrule, rfl⟩)
  | createResource =>
    refine { h with resources := ?_ }
    exact forall_mem_cons.mpr ⟨hroles, h.resources⟩
  | updateResource =>
    refine { h with resources := ?_ }
    intro other hother
    obtain ⟨row, hrow, rfl⟩ := mem_map.1 hother
    split
    · exact hroles
    · exact h.resources row hrow

/-- A write touches neither roles nor the record of deletions. -/
lemma Database.apply_roles (db : Database) (write : Write) :
    (db.apply write).roles = db.roles ∧ (db.apply write).retiredRoles = db.retiredRoles ∧
      (db.apply write).deleted = db.deleted := by
  cases write <;> exact ⟨rfl, rfl, rfl⟩

lemma Referential.publishImport (h : Referential db) {layers}
    (hlayers : ∀ layer ∈ layers, db.checkRoleAssignments layer.2) :
    Referential (db.publishImport layers) := by
  refine { h with resources := ?_ }
  intro row hrow id hid
  rcases mem_append.1 hrow with hrow | hrow
  · obtain ⟨layer, hlayer, rfl⟩ := mem_map.1 hrow
    exact mem_checkRoleAssignments (hlayers layer hlayer) hid
  · exact h.resources row hrow id hid

/-- A new role: all that existed still exists, and the id was not deleted before. -/
lemma Sound.createRole (h : Sound db) (hretired : id ∉ db.retiredRoles) :
    Sound (db.createRole id) := by
  have hmono : ∀ r, db.hasRole r → (db.createRole id).hasRole r := by
    intro r hr
    rw [hasRole_createRole, hr, Bool.or_true]
  have hstays : ∀ r ∈ db.retiredRoles, (db.createRole id).hasRole r = false := by
    intro r hr
    have hne : id ≠ r := fun heq => hretired (heq ▸ hr)
    rw [hasRole_createRole, h.retired r hr, decide_eq_false hne, Bool.or_false]
  exact {
    referential := {
      apiKeys := fun key hkey hlive => hmono _ (h.referential.apiKeys key hkey hlive)
      claimMappings := fun mapping hmapping => hmono _ (h.referential.claimMappings mapping hmapping)
      sessions := fun session hsession hlive r hr =>
        hmono _ (h.referential.sessions session hsession hlive r hr)
      policies := fun rule hrule => hmono _ (h.referential.policies rule hrule)
      resources := fun row hrow r hr => hmono _ (h.referential.resources row hrow r hr)
      deleted := fun r hr => hstays r (h.deleted r hr) }
    pending := fun write hwrite r hr => hmono _ (h.pending write hwrite r hr)
    retired := hstays
    deleted := h.deleted }

/-- A deleted role: nothing that counts depends on it, its policies go with it, and no write that
checked it is under way. -/
lemma Sound.deleteRole (h : Sound db) (hlock : db.pending = [])
    (hdependencies : db.roleDependencies id = false) : Sound (db.deleteRole id) := by
  obtain ⟨hkeys, hmappings, hsessions, hresources⟩ := ne_of_roleDependencies hdependencies
  have hother : ∀ r, r ≠ id → db.hasRole r → (db.deleteRole id).hasRole r := by
    intro r hne hr
    rw [hasRole_deleteRole, hr, decide_eq_true hne, Bool.and_true]
  have hgone : ∀ r ∈ id :: db.retiredRoles, (db.deleteRole id).hasRole r = false := by
    intro r hr
    rw [hasRole_deleteRole]
    rcases mem_cons.1 hr with rfl | hr
    · rw [decide_eq_false (fun hne => hne rfl), Bool.false_and]
    · rw [h.retired r hr, Bool.and_false]
  have hdeleted : ∀ r ∈ id :: db.deleted, r ∈ id :: db.retiredRoles := by
    exact forall_mem_cons.mpr ⟨mem_cons_self, fun r hr => mem_cons_of_mem _ (h.deleted r hr)⟩
  exact {
    referential := {
      apiKeys := fun key hkey hlive =>
        hother _ (hkeys key hkey hlive) (h.referential.apiKeys key hkey hlive)
      claimMappings := fun mapping hmapping =>
        hother _ (hmappings mapping hmapping) (h.referential.claimMappings mapping hmapping)
      sessions := fun session hsession hlive r hr =>
        hother _ (hsessions session hsession hlive r hr)
          (h.referential.sessions session hsession hlive r hr)
      policies := fun rule hrule => by
        obtain ⟨hrule, hne⟩ := mem_filter.1 hrule
        exact hother _ (of_decide_eq_true hne) (h.referential.policies rule hrule)
      resources := fun row hrow r hr =>
        hother _ (hresources row hrow r hr) (h.referential.resources row hrow r hr)
      deleted := fun r hr => hgone r (hdeleted r hr) }
    pending := fun write hwrite => by
      rw [show (db.deleteRole id).pending = [] from hlock] at hwrite
      cases hwrite
    retired := hgone
    deleted := hdeleted }

lemma Sound.step {db after : Database} {label : Label} (h : Sound db) (hstep : Step db label after)
    (hknown : KnownRoles db label) : Sound after := by
  cases hstep with
  | begin hroles =>
    refine { h with referential := h.referential.withPending _, pending := ?_ }
    exact forall_mem_cons.mpr ⟨fun _ hid => mem_checkRoleAssignments hroles hid, h.pending⟩
  | beginUpdate hrow =>
    refine { h with referential := h.referential.withPending _, pending := ?_ }
    exact forall_mem_cons.mpr ⟨fun id hid => h.referential.resources _ hrow id hid, h.pending⟩
  | @finish write hpending =>
    have happly := h.referential.apply (h.pending write hpending)
    obtain ⟨hroles, hretired, hdeleted⟩ := db.apply_roles write
    have hhas : ∀ r, (db.apply write).hasRole r = db.hasRole r := by
      intro r
      rw [Database.hasRole, hroles, Database.hasRole]
    exact {
      referential := happly.withPending _
      pending := fun other hother id hid =>
        (hhas id).trans (h.pending other (mem_of_mem_erase hother) id hid)
      retired := fun r hr => (hhas r).trans (h.retired r (hretired ▸ hr))
      deleted := fun r hr => by
        have hr : r ∈ (db.apply write).deleted := hr
        rw [hdeleted] at hr
        rw [hretired]
        exact h.deleted r hr }
  | abandon =>
    exact {
      h with
      referential := h.referential.withPending _
      pending := fun write hwrite => h.pending write (mem_of_mem_erase hwrite) }
  | createRole hlock hretired => exact h.createRole hretired
  | deleteRole hlock hrole hdependencies => exact h.deleteRole hlock hdependencies
  | publishImport => exact { h with referential := h.referential.publishImport hknown }
  | tick hnow =>
    refine { h with referential := { h.referential with apiKeys := ?_, sessions := ?_ } }
    · exact fun key hkey hlive => h.referential.apiKeys key hkey (APIKey.live_of_le hnow hlive)
    · exact fun session hsession hlive =>
        h.referential.sessions session hsession (BrowserSession.live_of_le hnow hlive)
  | removeRows hapiKeys hclaimMappings hsessions hpolicies hresources =>
    exact {
      h with
      referential := {
        apiKeys := fun key hkey => h.referential.apiKeys key (hapiKeys.subset hkey)
        claimMappings := fun mapping hmapping =>
          h.referential.claimMappings mapping (hclaimMappings.subset hmapping)
        sessions := fun session hsession =>
          h.referential.sessions session (hsessions.subset hsession)
        policies := fun rule hrule => h.referential.policies rule (hpolicies.subset hrule)
        resources := fun row hrow => h.referential.resources row (hresources.subset hrow)
        deleted := h.referential.deleted } }

lemma Sound.init (h : db.Init) : Sound db where
  referential := {
    apiKeys := by simp [h.apiKeys]
    claimMappings := by simp [h.claimMappings]
    sessions := by simp [h.sessions]
    policies := h.policies
    resources := by simp [h.resources]
    deleted := by simp [h.deleted] }
  pending := by simp [h.pending]
  retired := by simp [h.retiredRoles]
  deleted := by simp [h.deleted]

/-! ## Whole runs -/

/-- In every run whose imports name roles that exist when they are published, whatever is named
exists and nothing that was deleted comes back. -/
theorem referential_of_reachable {db : Database}
    (h : (machine.restrict fun db label _ => KnownRoles db label).Reachable db) : Referential db := by
  have hsound : Sound db := by
    refine Machine.Reachable.induct (I := Sound) ?_ ?_ h
    · exact fun db hdb => Sound.init hdb
    · exact fun db label after _ hdb hstep => hdb.step hstep.1 hstep.2
  exact hsound.referential

/-- A catalog with one system role. -/
def newCatalog : Database where
  now := 0
  roles := [⟨"viewer", true⟩]
  retiredRoles := []
  apiKeys := []
  claimMappings := []
  sessions := []
  policies := [⟨"p", "viewer", ["*"]⟩]
  resources := []
  pending := []
  deleted := []

lemma newCatalog_init : newCatalog.Init := by
  constructor <;> decide

/-- A run in which a role is made, named by an import and given to a key. -/
theorem referential_of_import :
    Referential { (newCatalog.createRole "editor").publishImport
        [("roads", ["editor"])] with
      apiKeys := [⟨"k", "editor", false, none⟩] } := by
  refine referential_of_reachable ?_
  have h0 : (machine.restrict fun db label _ => KnownRoles db label).Reachable newCatalog :=
    .init newCatalog_init
  have hcreate : Step newCatalog (.createRole "editor") _ :=
    .createRole rfl (by decide) (by decide)
  have hpublish : Step (newCatalog.createRole "editor")
      (.publishImport [("roads", ["editor"])]) _ := .publishImport
  have h2 := (h0.step ⟨hcreate, trivial⟩).step ⟨hpublish, by
    intro layer hlayer
    rw [mem_singleton.1 hlayer]
    decide⟩
  let key : Write := .createAPIKey ⟨"k", "editor", false, none⟩
  have h3 := h2.step ⟨Step.begin (show Database.checkRoleAssignments _ key.roles by decide), trivial⟩
  exact h3.step ⟨Step.finish (show key ∈ _ by decide), trivial⟩

/-- An import publishes a layer for a role that was deleted after its plan was made. -/
theorem import_names_deleted_role : ∃ db, machine.Reachable db ∧ ¬ Referential db := by
  have h0 : machine.Reachable newCatalog := .init newCatalog_init
  have hcreate : Step newCatalog (.createRole "editor") _ :=
    .createRole rfl (by decide) (by decide)
  have hdelete : Step (newCatalog.createRole "editor") (.deleteRole "editor") _ :=
    .deleteRole rfl (by decide) (by decide)
  have hpublish : Step ((newCatalog.createRole "editor").deleteRole "editor")
      (.publishImport [("roads", ["editor"])]) _ := .publishImport
  refine ⟨_, ((h0.step hcreate).step hdelete).step hpublish, fun h => ?_⟩
  have hnamed := h.resources ⟨.layers, "roads", ["editor"]⟩ (by decide) "editor" (by decide)
  exact absurd hnamed (by decide)

end NeoServer.Store
