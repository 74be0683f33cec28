import Mathlib
import NeoServer.Tally
import NeoServer.Tilecache.Identity

/-!
# Tilecache.Index — the metadata index of the tile cache

The index has a row for every tile, pending until its payload is stored, and a table of the
bytes and tiles that each resource, each workspace and the whole cache use. The usage is not
counted but kept: every transaction that makes a tile ready, or takes a ready one away, adjusts
the usage of its scopes by the size that the caller gives it.

- `getReady`, `markPending`, `markReady`, `restore`, `remove`, `usageOf`, `lru`, `updateAccess`,
  `nonReady`, `selectEntries`, `purgeLifecycleUsage` : the queries and transactions,
- `Index.Inv` : the usage is what the ready rows add up to,
- `Index.row` : the row of a key, but for the time of its last access,
- `inv_*` : what each transaction has to be given in order to keep the usage right.
-/

namespace NeoServer.Tilecache

open List Table Tally

/-- What the index knows about a tile. -/
structure Entry where
  identity : Identity
  cacheKey : Str
  objectKey : Str
  sizeBytes : Int
  etag : Str
  createdAt : Int
  lastAccessedAt : Int
deriving DecidableEq, Repr

inductive EntryState
  | pending | ready
deriving DecidableEq, Repr

/-- A row of `tile_entries`. -/
structure Row where
  entry : Entry
  state : EntryState
deriving DecidableEq, Repr

/-- A scope of `cache_usage`: its type, and its identifier. -/
inductive Scope
  | global
  | workspace (id : Str)
  | resource (id : Str)
deriving DecidableEq, Repr

/-- Bytes and tiles. -/
abbrev Usage := ℤ × ℤ

structure Index where
  entries : List Row
  usage : List (Scope × Usage)
deriving DecidableEq

def Row.key (r : Row) : Str := r.entry.cacheKey

/-- The identifier of a resource among the scopes. -/
def resourceScope (workspaceID resourceID : Str) : Scope :=
  .resource (workspaceID ++ ":" ++ resourceID)

def Entry.scopes (e : Entry) : List Scope :=
  [.global, .workspace e.identity.workspaceID,
    resourceScope e.identity.workspaceID e.identity.resourceID]

/-- `GREATEST(0, ...)` for both columns. -/
def adjustUsage (usage : List (Scope × Usage)) (e : Entry) (bytes count : Int) :
    List (Scope × Usage) :=
  e.scopes.foldl (adjust (bytes, count)) usage

/-- Which tiles to delete. An empty text stands for all. -/
structure Selector where
  workspaceID : Str := []
  resourceID : Str := []
  tileType : Str := []
  matrixSet : Str := []
  format : Str := []
  styleDigest : Str := []
  styleName : Str := []
  minZoom : Option Int := none
  maxZoom : Option Int := none
deriving DecidableEq, Repr

def Selector.Selects (selector : Selector) (i : Identity) : Prop :=
  (selector.workspaceID = [] ∨ i.workspaceID = selector.workspaceID) ∧
  (selector.resourceID = [] ∨ i.resourceID = selector.resourceID) ∧
  (selector.tileType = [] ∨ i.tileType = selector.tileType) ∧
  (selector.matrixSet = [] ∨ i.matrixSet = selector.matrixSet) ∧
  (selector.format = [] ∨ i.format = selector.format) ∧
  (selector.styleDigest = [] ∨ i.styleDigest = selector.styleDigest) ∧
  (selector.styleName = [] ∨ i.styleName = selector.styleName) ∧
  (∀ z ∈ selector.minZoom, z ≤ i.zoom) ∧ ∀ z ∈ selector.maxZoom, i.zoom ≤ z

instance (selector : Selector) (i : Identity) : Decidable (selector.Selects i) := by
  unfold Selector.Selects
  infer_instance

/-- Which scope `lru` looks at. -/
inductive ScopeType
  | resource | workspace | global
deriving DecidableEq, Repr

/-- The rows that `lru` chooses from. -/
def ScopeType.Covers (type : ScopeType) (workspaceID resourceID excludeKey : Str) (r : Row) :
    Prop :=
  r.state = .ready ∧ r.key ≠ excludeKey ∧
  match type with
  | .global => True
  | .workspace => r.entry.identity.workspaceID = workspaceID
  | .resource => r.entry.identity.workspaceID = workspaceID ∧
      r.entry.identity.resourceID = resourceID

/-- The order of eviction: by last access, then by creation. -/
def Entry.Before (a b : Entry) : Prop :=
  a.lastAccessedAt < b.lastAccessedAt ∨
    (a.lastAccessedAt = b.lastAccessedAt ∧ a.createdAt ≤ b.createdAt)

namespace Index

variable (idx : Index)

def getReady (key : Str) : Option Entry :=
  (idx.entries.find? fun r => r.key = key ∧ r.state = .ready).map Row.entry

def markPending (now : Int) (entry : Entry) (previous : Option Entry) : Index where
  entries :=
    put Row.key ⟨{ entry with createdAt := now, lastAccessedAt := now }, .pending⟩ idx.entries
  usage :=
    match previous with
    | none => idx.usage
    | some p => adjustUsage idx.usage p (-p.sizeBytes) (-1)

/-- No result if there is no pending row any more. -/
def markReady (entry : Entry) : Option Index :=
  match get Row.key entry.cacheKey idx.entries with
  | none => none
  | some r =>
    if r.state = .pending then
      let e := { r.entry with sizeBytes := entry.sizeBytes, etag := entry.etag }
      some { entries := put Row.key ⟨e, .ready⟩ idx.entries,
             usage := adjustUsage idx.usage entry entry.sizeBytes 1 }
    else none

def restore (previous : Option Entry) (pendingKey : Str) : Index :=
  let entries := delete Row.key pendingKey idx.entries
  match previous with
  | none => { idx with entries := entries }
  | some p => { entries := ⟨p, .ready⟩ :: entries, usage := adjustUsage idx.usage p p.sizeBytes 1 }

def remove (entry : Entry) : Index :=
  match get Row.key entry.cacheKey idx.entries with
  | none => idx
  | some r =>
    { entries := delete Row.key entry.cacheKey idx.entries,
      usage := if r.state = .ready then adjustUsage idx.usage entry (-entry.sizeBytes) (-1)
        else idx.usage }

def usageOf (scope : Scope) : Usage := recorded scope idx.usage

/-- The result of `lru`: which of several rows with the same times is up to the database. -/
def IsLru (type : ScopeType) (workspaceID resourceID excludeKey : Str) : Option Entry → Prop
  | none => ∀ r ∈ idx.entries, ¬ type.Covers workspaceID resourceID excludeKey r
  | some e => ∃ r ∈ idx.entries, r.entry = e ∧ type.Covers workspaceID resourceID excludeKey r ∧
      ∀ r' ∈ idx.entries, type.Covers workspaceID resourceID excludeKey r' → e.Before r'.entry

def updateAccess (values : List (Str × Int)) : Index :=
  values.foldl (fun idx value => { idx with entries := idx.entries.map fun r =>
    if r.key = value.1 ∧ r.state = .ready then
      { r with entry := { r.entry with lastAccessedAt := value.2 } }
    else r }) idx

def nonReady : List Entry := (idx.entries.filter fun r => r.state ≠ .ready).map Row.entry

def selectEntries (selector : Selector) (limit : Nat) : List Entry :=
  let selected := idx.entries.filter fun r => r.state = .ready ∧ selector.Selects r.entry.identity
  ((selected.map Row.entry).insertionSort fun a b => a.cacheKey ≤ b.cacheKey).take limit

/-- The scopes whose usage a purge deletes. -/
def Purges (workspaceID : Str) (resourceIDs : List Str) : Scope → Bool
  | .global => false
  | .workspace id => resourceIDs = [] ∧ id = workspaceID
  | .resource id =>
    if resourceIDs = [] then (workspaceID ++ ":").isPrefixOf id
    else id ∈ resourceIDs.map fun r => workspaceID ++ ":" ++ r

def purgeLifecycleUsage (workspaceID : Str) (resourceIDs : List Str) : Index :=
  { idx with usage := idx.usage.filter fun u => ! Purges workspaceID resourceIDs u.1 }

end Index

/-! ## The usage is right -/

/-- What a row adds to the usage of a scope. -/
def Row.weight (scope : Scope) (r : Row) : Usage :=
  if r.state = .ready ∧ scope ∈ r.entry.scopes then (r.entry.sizeBytes, 1) else 0

/-- Keys are unique, sizes are not negative, and the usage of every scope is what the ready
rows in it add up to. -/
structure Index.Inv (idx : Index) : Prop where
  keyed : Table.Keyed Row.key idx.entries
  size : ∀ r ∈ idx.entries, 0 ≤ r.entry.sizeBytes
  exact : ∀ scope, idx.usageOf scope = total (Row.weight scope) idx.entries

variable (e : Entry) (scope : Scope)

lemma Entry.scopes_nodup : e.scopes.Nodup := by
  simp [Entry.scopes, resourceScope]

lemma Row.weight_nonneg {r : Row} (h : 0 ≤ r.entry.sizeBytes) (scope : Scope) :
    0 ≤ r.weight scope := by
  unfold Row.weight
  split
  · exact ⟨h, Int.one_nonneg⟩
  · exact le_rfl

@[simp] lemma Row.weight_pending : Row.weight scope ⟨e, .pending⟩ = 0 := by
  simp [Row.weight]

lemma Row.weight_ready :
    Row.weight scope ⟨e, .ready⟩ = if scope ∈ e.scopes then (e.sizeBytes, 1) else 0 := by
  simp [Row.weight]

variable {idx idx' : Index}

/-- Rows and records that change by the same amount. -/
lemma Index.Inv.adjust (h : idx.Inv) {entries} {e : Entry}
    {bytes count : Int} (hkeyed : Table.Keyed Row.key entries)
    (hsize : ∀ r ∈ entries, 0 ≤ r.entry.sizeBytes)
    (htotal : ∀ scope, total (Row.weight scope) entries =
      total (Row.weight scope) idx.entries + if scope ∈ e.scopes then (bytes, count) else 0) :
    Index.Inv ⟨entries, adjustUsage idx.usage e bytes count⟩ := by
  refine ⟨hkeyed, hsize, ?_⟩
  intro scope
  have hrecorded : ∀ s, recorded s idx.usage = total (Row.weight s) idx.entries := h.exact
  have hnonneg : ∀ s ∈ e.scopes, 0 ≤ recorded s idx.usage + (bytes, count) := by
    intro s hs
    have htot := htotal s
    rw [if_pos hs] at htot
    rw [hrecorded, ← htot]
    exact total_nonneg fun r hr => Row.weight_nonneg (hsize r hr) s
  change Tally.recorded scope (e.scopes.foldl (Tally.adjust (bytes, count)) idx.usage) = _
  rw [recorded_foldl_adjust e.scopes_nodup hnonneg, hrecorded, htotal]

/-- Rows that add nothing are changed, and no record. -/
lemma Index.Inv.entries (h : idx.Inv) {entries}
    (hkeyed : Table.Keyed Row.key entries) (hsize : ∀ r ∈ entries, 0 ≤ r.entry.sizeBytes)
    (htotal : ∀ scope, total (Row.weight scope) entries =
      total (Row.weight scope) idx.entries) : Index.Inv { idx with entries := entries } :=
  ⟨hkeyed, hsize, fun scope => (h.exact scope).trans (htotal scope).symm⟩

/-! ## Rows -/

/-- An entry without the time of its last access, which changes at any time. -/
def Entry.static (e : Entry) : Entry := { e with lastAccessedAt := 0 }

def Row.static (r : Row) : Row := { r with entry := r.entry.static }

/-- The row of a key. -/
def Index.row (idx : Index) (key : Str) : Option Row :=
  (get Row.key key idx.entries).map Row.static

@[simp] lemma Row.static_key (r : Row) : r.static.key = r.key := rfl

/-- The rows are the same, but for the times of the last accesses. -/
def SameRows (idx idx' : Index) : Prop :=
  idx'.entries.map Row.static = idx.entries.map Row.static

lemma get_map_static (key : Str) (rows : List Row) :
    get Row.key key (rows.map Row.static) = (get Row.key key rows).map Row.static := by
  unfold Table.get
  rw [find?_map]
  rfl

lemma SameRows.row_eq (h : SameRows idx idx') : idx'.row = idx.row := by
  funext key
  have hget := congrArg (get Row.key key) h
  rw [get_map_static, get_map_static] at hget
  exact hget

lemma SameRows.refl (idx : Index) : SameRows idx idx := rfl

lemma SameRows.trans {idx'' : Index} (h : SameRows idx idx') (h' : SameRows idx' idx'') :
    SameRows idx idx'' := Eq.trans h' h

section

variable {idx : Index}

variable {r : Row} {key : Str} {e : Entry} {previous : Option Entry} {entry : Entry} {idx' : Index}

lemma row_of_mem (h : Table.Keyed Row.key idx.entries) (hr : r ∈ idx.entries) :
    idx.row r.key = some r.static := by
  unfold Index.row
  rw [get_of_mem h hr]
  rfl

lemma exists_of_row (h : idx.row key = some r) :
    ∃ r' ∈ idx.entries, r'.key = key ∧ r'.static = r := by
  rcases Option.map_eq_some_iff.mp h with ⟨r', hget, rfl⟩
  rcases mem_of_get hget with ⟨hmem, hkey⟩
  exact ⟨r', hmem, hkey, rfl⟩

/-- What the row of a key adds to a scope. -/
lemma elim_get_weight (key : Str) (scope : Scope) :
    (get Row.key key idx.entries).elim 0 (Row.weight scope) =
      (idx.row key).elim 0 (Row.weight scope) := by
  unfold Index.row
  cases get Row.key key idx.entries with
  | none | some => rfl

lemma total_delete_row (h : Table.Keyed Row.key idx.entries) (key : Str) (scope : Scope) :
    total (Row.weight scope) (delete Row.key key idx.entries) =
      total (Row.weight scope) idx.entries - (idx.row key).elim 0 (Row.weight scope) := by
  rw [← elim_get_weight, ← total_delete (w := Row.weight scope) h key, add_sub_cancel_right]

/-! ## Transactions -/

lemma getReady_eq_some (h : Table.Keyed Row.key idx.entries) :
    idx.getReady key = some e ↔ ∃ r ∈ idx.entries, r.key = key ∧ r.state = .ready ∧ r.entry = e := by
  unfold Index.getReady
  constructor
  · intro hfind
    rcases Option.map_eq_some_iff.mp hfind with ⟨r, hr, rfl⟩
    have hp := find?_some hr
    simp only [decide_eq_true_eq] at hp
    exact ⟨r, mem_of_find?_eq_some hr, hp.1, hp.2, rfl⟩
  · rintro ⟨r, hr, hkey, hstate, rfl⟩
    rw [Option.map_eq_some_iff]
    refine ⟨r, ?_, rfl⟩
    cases hfind : idx.entries.find? fun r => r.key = key ∧ r.state = .ready with
    | none =>
      have := find?_eq_none.mp hfind r hr
      simp [hkey, hstate] at this
    | some =>
      have hp := find?_some hfind
      simp only [decide_eq_true_eq] at hp
      rw [h.eq_of_key (mem_of_find?_eq_some hfind) hr (hp.1.trans hkey.symm)]

/-- What `getReady` finds, in terms of the row of the key. -/
lemma row_of_getReady (h : Table.Keyed Row.key idx.entries)
    (hget : idx.getReady key = some e) : idx.row key = some ⟨e.static, .ready⟩ := by
  rcases (getReady_eq_some h).mp hget with ⟨r, hr, rfl, hstate, rfl⟩
  rw [row_of_mem h hr]
  exact congrArg some (congrArg (Row.mk _) hstate)

lemma row_of_getReady_eq_none (h : Table.Keyed Row.key idx.entries)
    (hget : idx.getReady key = none) (r : Row) (hr : idx.row key = some r) : r.state = .pending := by
  rcases exists_of_row hr with ⟨r', hmem, hkey, rfl⟩
  cases hstate : r'.state with
  | pending => exact hstate
  | ready =>
    have := (getReady_eq_some h).mpr ⟨r', hmem, hkey, hstate, rfl⟩
    rw [hget] at this
    cases this

/-- `previous` is the ready entry of the key, if there is one. -/
def Known (rows : Str → Option Row) (key : Str) : Option Entry → Prop
  | none => ∀ r, rows key = some r → r.state = .pending
  | some p => rows key = some ⟨p.static, .ready⟩

lemma known_getReady (h : Table.Keyed Row.key idx.entries) (key : Str) :
    Known idx.row key (idx.getReady key) := by
  cases hget : idx.getReady key with
  | none => exact row_of_getReady_eq_none h hget
  | some => exact row_of_getReady h hget

variable {rows : Str → Option Row}

/-- What the row of a key adds to a scope, if its ready entry is known. -/
lemma Known.elim_weight (h : Known rows key previous) (scope : Scope) :
    (rows key).elim 0 (Row.weight scope) =
      previous.elim 0 fun p => if scope ∈ p.scopes then (p.sizeBytes, 1) else 0 := by
  cases previous with
  | none =>
    cases hrow : rows key with
    | none => rfl
    | some r =>
      have hstate := h r hrow
      simp [Row.weight, hstate]
  | some p =>
    rw [show rows key = some ⟨p.static, .ready⟩ from h]
    exact Row.weight_ready p.static scope

lemma size_of_mem_delete (h : idx.Inv) :
    ∀ r ∈ delete Row.key key idx.entries, 0 ≤ r.entry.sizeBytes := by
  intro r hr
  exact h.size r (mem_delete.mp hr).1

lemma Known.key_eq {p : Entry} (h : Known idx.row key (some p)) : p.cacheKey = key := by
  rcases exists_of_row h with ⟨r, -, hkey, hr⟩
  rw [← hkey, ← Row.static_key, hr]
  rfl

lemma inv_markPending (h : idx.Inv) (now : Int)
    (hsize : 0 ≤ entry.sizeBytes) (hknown : Known idx.row entry.cacheKey previous) :
    (idx.markPending now entry previous).Inv := by
  have hkeyed := h.keyed.put ⟨{ entry with createdAt := now, lastAccessedAt := now }, .pending⟩
  have hsizes : ∀ r ∈ (idx.markPending now entry previous).entries, 0 ≤ r.entry.sizeBytes := by
    intro r hr
    rcases mem_put.mp hr with rfl | hr
    · exact hsize
    · exact h.size r hr.1
  have htotal : ∀ scope, total (Row.weight scope) (idx.markPending now entry previous).entries =
      total (Row.weight scope) idx.entries -
        previous.elim 0 fun p => if scope ∈ p.scopes then (p.sizeBytes, 1) else 0 := by
    intro scope
    change total _ (put _ _ _) = _
    rw [total_put, Row.weight_pending, zero_add, ← hknown.elim_weight]
    exact total_delete_row h.keyed entry.cacheKey scope
  cases previous with
  | none =>
    refine h.entries hkeyed hsizes ?_
    intro scope
    exact (htotal scope).trans (sub_zero _)
  | some p =>
    refine h.adjust hkeyed hsizes ?_
    intro scope
    refine (htotal scope).trans ?_
    change _ - (if scope ∈ p.scopes then (p.sizeBytes, 1) else 0) = _
    rw [sub_eq_add_neg]
    congr 1
    split
    · rfl
    · exact neg_zero

/-- The pending row of the key has the identity that the entry has. -/
def PendingAt (rows : Str → Option Row) (entry : Entry) : Prop :=
  ∃ e, rows entry.cacheKey = some ⟨e, .pending⟩ ∧ e.identity = entry.identity

lemma inv_markReady (h : idx.Inv) (hsize : 0 ≤ entry.sizeBytes)
    (hpending : PendingAt idx.row entry) (hready : idx.markReady entry = some idx') : idx'.Inv := by
  rcases hpending with ⟨e, hrow, hid⟩
  rcases Option.map_eq_some_iff.mp hrow with ⟨r, hget, hr⟩
  have hstate : r.state = .pending := congrArg Row.state hr
  have hrid : r.entry.identity = entry.identity := by
    rw [← hid, ← congrArg (fun r => r.entry.identity) hr]
    rfl
  have hkey := (mem_of_get hget).2
  unfold Index.markReady at hready
  rw [hget] at hready
  simp only [hstate, if_true] at hready
  cases hready
  refine h.adjust (h.keyed.put _) ?_ ?_
  · intro x hx
    rcases mem_put.mp hx with rfl | hx
    · exact hsize
    · exact h.size x hx.1
  · intro scope
    have hscopes : ({ r.entry with sizeBytes := entry.sizeBytes, etag := entry.etag } : Entry).scopes =
        entry.scopes := by
      unfold Entry.scopes
      rw [hrid]
    have hdelete := total_delete_row h.keyed r.entry.cacheKey scope
    have hold : (idx.row r.entry.cacheKey).elim 0 (Row.weight scope) = 0 := by
      have : r.entry.cacheKey = entry.cacheKey := hkey
      rw [this, hrow]
      exact Row.weight_pending e scope
    rw [hold, sub_zero] at hdelete
    rw [total_put, Row.weight_ready, hscopes]
    change _ + total _ (delete Row.key r.entry.cacheKey idx.entries) = _
    rw [hdelete, add_comm]

/-- The row of the key is not ready. -/
def NotReady (rows : Str → Option Row) (key : Str) : Prop :=
  ∀ r, rows key = some r → r.state = .pending

lemma NotReady.elim_weight (h : NotReady rows key)
    (scope : Scope) : (rows key).elim 0 (Row.weight scope) = 0 := by
  have hknown : Known rows key none := h
  exact hknown.elim_weight scope

lemma inv_restore (h : idx.Inv)
    (hnot : NotReady idx.row key) (hprevious : ∀ p ∈ previous, p.cacheKey = key ∧ 0 ≤ p.sizeBytes) :
    (idx.restore previous key).Inv := by
  have hkeyed := h.keyed.filter fun r => r.key ≠ key
  have hdelete : ∀ scope, total (Row.weight scope) (delete Row.key key idx.entries) =
      total (Row.weight scope) idx.entries := by
    intro scope
    rw [total_delete_row h.keyed, hnot.elim_weight, sub_zero]
  cases previous with
  | none => exact h.entries hkeyed (size_of_mem_delete h) hdelete
  | some p =>
    rcases hprevious p rfl with ⟨hkey, hsize⟩
    refine h.adjust ?_ ?_ ?_
    · have hput := h.keyed.put ⟨p, .ready⟩
      unfold put at hput
      rw [show Row.key ⟨p, .ready⟩ = key from hkey] at hput
      exact hput
    · exact forall_mem_cons.mpr ⟨hsize, size_of_mem_delete h⟩
    · intro scope
      rw [total_cons, Row.weight_ready, hdelete, add_comm]

/-- The row of the entry's key is not ready, or counts for what the entry says. -/
def Removable (rows : Str → Option Row) (entry : Entry) : Prop :=
  ∀ r, rows entry.cacheKey = some r → r.state = .ready →
    r.entry.scopes = entry.scopes ∧ r.entry.sizeBytes = entry.sizeBytes

lemma inv_remove (h : idx.Inv) (hrem : Removable idx.row entry) : (idx.remove entry).Inv := by
  unfold Index.remove
  cases hget : get Row.key entry.cacheKey idx.entries with
  | none => exact h
  | some r =>
    have hrow : idx.row entry.cacheKey = some r.static := by
      unfold Index.row
      rw [hget]
      rfl
    have hkeyed := h.keyed.filter fun x => x.key ≠ entry.cacheKey
    have hdelete : ∀ scope, _ := fun scope => total_delete_row h.keyed entry.cacheKey scope
    cases hstate : r.state with
    | pending =>
      simp only [hstate, reduceCtorEq, if_false]
      refine h.entries hkeyed (size_of_mem_delete h) ?_
      intro scope
      have hnot : NotReady idx.row entry.cacheKey := by
        intro r' hr'
        rw [hrow] at hr'
        cases hr'
        exact hstate
      rw [hdelete, hnot.elim_weight, sub_zero]
    | ready =>
      rcases hrem r.static hrow hstate with ⟨hscopes, hbytes⟩
      simp only [hstate, if_true]
      refine h.adjust hkeyed (size_of_mem_delete h) ?_
      intro scope
      have hweight : (idx.row entry.cacheKey).elim 0 (Row.weight scope) =
          if scope ∈ entry.scopes then (entry.sizeBytes, 1) else 0 := by
        rw [hrow]
        change Row.weight scope r.static = _
        unfold Row.weight
        rw [hscopes, hbytes]
        simp [Row.static, hstate]
      rw [hdelete, hweight, sub_eq_add_neg]
      congr 1
      split
      · rfl
      · exact neg_zero

lemma row_markPending (now : Int) (entry : Entry) (previous : Option Entry) (key : Str) :
    (idx.markPending now entry previous).row key = if key = entry.cacheKey then
      some ⟨{ entry with createdAt := now, lastAccessedAt := 0 }, .pending⟩ else idx.row key := by
  by_cases hkey : key = entry.cacheKey
  · rw [if_pos hkey, hkey]
    exact congrArg (Option.map Row.static) get_put_self
  · rw [if_neg hkey]
    exact congrArg (Option.map Row.static) (get_put_of_ne hkey)

lemma entries_remove (idx : Index) (entry : Entry) :
    (idx.remove entry).entries = delete Row.key entry.cacheKey idx.entries := by
  unfold Index.remove
  cases hget : get Row.key entry.cacheKey idx.entries with
  | none => exact (filter_eq_self.mpr (by simpa using get_eq_none.mp hget)).symm
  | some => rfl

lemma row_remove (entry : Entry) (key : Str) :
    (idx.remove entry).row key = if key = entry.cacheKey then none else idx.row key := by
  unfold Index.row
  rw [entries_remove]
  by_cases hkey : key = entry.cacheKey
  · rw [if_pos hkey, hkey, get_delete_self]
    rfl
  · rw [if_neg hkey, get_delete_of_ne hkey]

/-- No row gets a new identity. -/
lemma mem_markReady (h : idx.markReady entry = some idx')
    (hr : r ∈ idx'.entries) : ∃ r' ∈ idx.entries, r'.entry.identity = r.entry.identity := by
  unfold Index.markReady at h
  cases hget : get Row.key entry.cacheKey idx.entries with
  | none =>
    rw [hget] at h
    cases h
  | some x =>
    rw [hget] at h
    dsimp only at h
    split at h
    · cases h
      rcases mem_put.mp hr with rfl | hr
      · exact ⟨x, (mem_of_get hget).1, rfl⟩
      · exact ⟨r, hr.1, rfl⟩
    · cases h

/-- The row is ready, with the size and the tag of the entry. -/
lemma row_markReady
    (hrow : idx.row entry.cacheKey = some ⟨e, .pending⟩) (h : idx.markReady entry = some idx') :
    idx'.row entry.cacheKey =
      some ⟨{ e with sizeBytes := entry.sizeBytes, etag := entry.etag }, .ready⟩ := by
  rcases Option.map_eq_some_iff.mp hrow with ⟨r, hget, hr⟩
  have hstate : r.state = .pending := congrArg Row.state hr
  have hentry : r.entry.static = e := congrArg Row.entry hr
  have hkey : r.entry.cacheKey = entry.cacheKey := (mem_of_get hget).2
  unfold Index.markReady at h
  rw [hget] at h
  simp only [hstate, if_true] at h
  cases h
  rw [← hkey, ← hentry]
  exact congrArg (Option.map Row.static) get_put_self

lemma sameRows_updateAccess (idx : Index) (values : List (Str × Int)) :
    SameRows idx (idx.updateAccess values) ∧ (idx.updateAccess values).usage = idx.usage := by
  induction values generalizing idx with
  | nil => exact ⟨rfl, rfl⟩
  | cons v values ih =>
    rcases ih _ with ⟨hrows, husage⟩
    refine ⟨SameRows.trans ?_ hrows, husage⟩
    change (map _ _).map Row.static = _
    rw [map_map]
    apply map_congr_left
    intro r _
    change Row.static (if _ then _ else _) = _
    split <;> rfl

/-- Times of access do not matter. -/
lemma Index.Inv.of_sameRows (h : idx.Inv) (hrows : SameRows idx idx')
    (husage : idx'.usage = idx.usage) : idx'.Inv := by
  have hkeys : idx'.entries.map Row.key = idx.entries.map Row.key := by
    have := congrArg (map Row.key) hrows
    rwa [map_map, map_map] at this
  refine ⟨?_, ?_, ?_⟩
  · unfold Table.Keyed
    rw [hkeys]
    exact h.keyed
  · intro r hr
    have hmem : r.static ∈ idx.entries.map Row.static := hrows ▸ mem_map_of_mem hr
    rcases mem_map.mp hmem with ⟨r', hr', heq⟩
    have hsize : r'.entry.sizeBytes = r.entry.sizeBytes := congrArg (fun r => r.entry.sizeBytes) heq
    rw [← hsize]
    exact h.size r' hr'
  · intro scope
    have hweights : ∀ rows : List Row, (rows.map Row.static).map (Row.weight scope) =
        rows.map (Row.weight scope) := by
      intro rows
      rw [map_map]
      rfl
    have htotal : total (Row.weight scope) idx'.entries =
        total (Row.weight scope) idx.entries := by
      unfold total
      rw [← hweights, ← hweights idx.entries, hrows]
    rw [htotal, ← h.exact]
    unfold Index.usageOf
    rw [husage]

/-- A purge forgets usage, so there must be none. -/
lemma inv_purgeLifecycleUsage (h : idx.Inv) {workspaceID : Str} {resourceIDs}
    (hnone : ∀ r ∈ idx.entries, r.state = .ready → ∀ scope ∈ r.entry.scopes,
      Index.Purges workspaceID resourceIDs scope = false) :
    (idx.purgeLifecycleUsage workspaceID resourceIDs).Inv := by
  refine ⟨h.keyed, h.size, ?_⟩
  intro scope
  change recorded scope (idx.usage.filter _) = _
  rw [recorded_filter fun s => ! Index.Purges workspaceID resourceIDs s]
  split
  · exact h.exact scope
  rename_i hpurged
  symm
  apply total_eq_zero
  intro r hr
  unfold Row.weight
  rw [if_neg]
  rintro ⟨hready, hscope⟩
  have := hnone r hr hready scope hscope
  simp [this] at hpurged

end

end NeoServer.Tilecache
