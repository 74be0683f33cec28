import Mathlib
import NeoServer.Tilecache.Manager

/-!
# Tilecache.Usage — the recorded usage under interleaving

The usage that the index records is adjusted by the sizes that the operations give it. Whoever
holds the mutex knows the rows, since nobody else changes them. `Get` and `Exists` do not: they
remove an entry that they have read before they took the mutex. And a purge deletes usage
without it.

- `Accurate` : the usage of every scope is the sum over its ready rows, and not negative,
- `rely`, `guar` : rows change only under the mutex,
- `sound_program` : every operation keeps the usage right,
- `usage_accurate_of_reachable` : so do all of them together, in every run in which an entry
  that `Get` or `Exists` remove still counts for what they have read, and in which usage is
  purged when nothing is used,
- `stale_orphan_removed` : the run in which it does not.
-/

namespace NeoServer.Tilecache

open Proc List

/-! ## What is to hold -/

/-- Bytes and number of the ready rows whose identity is in a scope. -/
def Index.readyUsage (idx : Index) (p : Identity → Prop) [DecidablePred p] : Usage :=
  let rows := idx.entries.filter fun r => r.state = .ready ∧ p r.entry.identity
  ((rows.map fun r => r.entry.sizeBytes).sum, (rows.length : ℤ))

/-- The recorded usage is that of the ready rows. Workspaces are told apart by identifiers
without a colon. -/
structure Index.Accurate (idx : Index) : Prop where
  global : idx.usageOf .global = idx.readyUsage fun _ => True
  workspace : ∀ workspaceID, idx.usageOf (.workspace workspaceID) =
    idx.readyUsage fun i => i.workspaceID = workspaceID
  resource : ∀ workspaceID resourceID, ':' ∉ workspaceID →
    idx.usageOf (resourceScope workspaceID resourceID) =
      idx.readyUsage fun i => i.workspaceID = workspaceID ∧ i.resourceID = resourceID
  nonneg : ∀ scope, 0 ≤ idx.usageOf scope

/-- The usage is right, and no workspace has a colon in its identifier. -/
structure Sound (w : World) : Prop where
  inv : w.index.Inv
  colon : ∀ r ∈ w.index.entries, ':' ∉ r.entry.identity.workspaceID

lemma total_weight_eq_readyUsage {idx : Index} {scope : Scope} {p : Identity → Prop}
    [DecidablePred p] (h : ∀ r ∈ idx.entries, scope ∈ r.entry.scopes ↔ p r.entry.identity) :
    Tally.total (Row.weight scope) idx.entries = idx.readyUsage p := by
  rcases idx with ⟨entries, usage⟩
  unfold Index.readyUsage
  induction entries with
  | nil => rfl
  | cons r entries ih =>
    have hr := h r mem_cons_self
    have hrest := ih fun x hx => h x (mem_cons_of_mem _ hx)
    rw [Tally.total_cons, hrest]
    by_cases hin : r.state = .ready ∧ p r.entry.identity
    · have hweight : r.weight scope = (r.entry.sizeBytes, 1) :=
        if_pos ⟨hin.1, hr.mpr hin.2⟩
      rw [hweight]
      simp [hin, add_comm]
    · have hweight : r.weight scope = 0 := if_neg fun h => hin ⟨h.1, hr.mp h.2⟩
      rw [hweight, zero_add]
      simp [hin]

lemma resourceScope_inj {w r w' r' : Str} (hw : ':' ∉ w) (hw' : ':' ∉ w')
    (h : resourceScope w r = resourceScope w' r') : w = w' ∧ r = r' := by
  have htext : join [':'] [w, r] = join [':'] [w', r'] := Scope.resource.inj h
  have hparts : [w] = [w'] ∧ r = r' ∧ ([] : List Str) = [] :=
    join_inj_of_not_mem (by simpa) (by simpa) rfl rfl htext
  exact ⟨head_eq_of_cons_eq hparts.1, hparts.2.1⟩

lemma Sound.accurate {w : World} (h : Sound w) : w.index.Accurate := by
  have hinv := h.inv
  refine ⟨?_, ?_, ?_, ?_⟩
  · rw [hinv.exact]
    apply total_weight_eq_readyUsage
    intro r _
    simp [Entry.scopes]
  · intro workspaceID
    rw [hinv.exact]
    apply total_weight_eq_readyUsage
    intro r _
    simp [Entry.scopes, resourceScope, eq_comm]
  · intro workspaceID resourceID hcolon
    rw [hinv.exact]
    apply total_weight_eq_readyUsage
    intro r hr
    constructor
    · intro hscope
      have hmem : resourceScope workspaceID resourceID =
          resourceScope r.entry.identity.workspaceID r.entry.identity.resourceID := by
        simpa [Entry.scopes, resourceScope] using hscope
      rcases resourceScope_inj hcolon (h.colon r hr) hmem with ⟨hw, hres⟩
      exact ⟨hw.symm, hres.symm⟩
    · rintro ⟨rfl, rfl⟩
      simp [Entry.scopes]
  · intro scope
    rw [hinv.exact]
    exact Tally.total_nonneg fun r hr => Row.weight_nonneg (hinv.size r hr) scope

/-! ## What operations may count on -/

/-- While an operation holds the mutex, the others leave it the mutex and the rows. -/
def rely (i : Nat) (w w' : World) : Prop :=
  w.owner = some i → w'.owner = some i ∧ SameRows w.index w'.index

/-- An operation leaves the mutex and the rows to the one that holds the mutex. -/
def guar (i : Nat) (w w' : World) : Prop := ∀ j, j ≠ i → rely j w w'

/-- No colon in the identifier of a workspace that tiles are put into. -/
def WithoutColon : Operation → Prop
  | .Put identity _ _ _ => ':' ∉ identity.workspaceID
  | _ => True

/-- The entry that `Get` or `Exists` remove, if it is still there, counts for what they have
read; and usage is purged when there is nothing ready that it is the usage of. -/
def Settled : Operation → World → Call → Prop
  | .Get _, w, .remove entry => Removable w.index.row entry
  | .Exists _, w, .remove entry => Removable w.index.row entry
  | .PurgeLifecycle _ _ _, w, .purgeLifecycleUsage workspaceID resourceIDs =>
    ∀ r ∈ w.index.entries, r.state = .ready → ∀ scope ∈ r.entry.scopes,
      Index.Purges workspaceID resourceIDs scope = false
  | _, _, _ => True

/-- The setting of an operation. -/
abbrev usageSetting (i : Nat) (op : Operation) : Proc.Setting World Call Answer :=
  Pool.setting Answers Settled Sound rely guar i op

/-- Nothing is to be shown of how an operation ends. -/
abbrev Ends {α : Type} : Except Failure α → World → Prop :=
  post (fun _ _ => True) fun _ _ => True

section Rules

variable {i : Nat} {op : Operation} {w : World}

lemma rely_refl (i : Nat) (w : World) : rely i w w := fun h => ⟨h, .refl _⟩

lemma rely_trans (i : Nat) (w w' w'' : World) (h : rely i w w') (h' : rely i w' w'') :
    rely i w w'' := by
  intro howner
  rcases h howner with ⟨howner', hrows⟩
  rcases h' howner' with ⟨howner'', hrows'⟩
  exact ⟨howner'', hrows.trans hrows'⟩

lemma guar_refl (i : Nat) (w : World) : guar i w w := fun j _ => rely_refl j w

/-- Nobody else counts on anything while the operation holds the mutex. -/
lemma guar_of_owner (h : w.owner = some i) (w' : World) : guar i w w' := by
  intro j hj howner
  rw [h] at howner
  exact absurd (Option.some.inj howner).symm hj

lemma guar_of_same {w' : World} (howner : w'.owner = w.owner) (hrows : SameRows w.index w'.index) :
    guar i w w' := fun _ _ h => ⟨howner.trans h, hrows⟩

variable {c : Call} {Q : Answer c → World → Prop} {α : Type}

lemma wp_ask (h : ∀ t, rely i w t → Sound t → ∀ a u, Answers i t c a u → Settled op t c →
      Sound u ∧ guar i t u ∧ Q a u) : (usageSetting i op).Wp (ask c) Q w := by
  intro t hrely hsound
  refine ⟨trivial, ?_⟩
  intro a u hanswer
  exact h t hrely hsound a u hanswer.1 hanswer.2

variable {S : Proc.Setting World Call Answer} {p : Proc Call Answer (Option α)} {failure : Failure}

lemma wp_attempt {E : Failure → World → Prop} {Q : α → World → Prop}
    (h : S.Wp p (fun a t => (∀ v, a = some v → Q v t) ∧ (a = none → E failure t)) w) :
    S.Wp (attempt failure p).run (post E Q) w := by
  refine wp_exceptSeq (wp_lift h) ?_
  intro a t ha
  cases a with
  | none => exact wp_throw (ha.2 rfl)
  | some v => exact wp_ok (ha.1 v rfl)

variable {β : Type} {E : Failure → World → Prop} {R : β → World → Prop}

/-- The same, with what comes after it. -/
lemma wp_attemptSeq {f : α → Op β} (h : S.Wp p (fun a t =>
      (∀ v, a = some v → S.Wp (f v).run (post E R) t) ∧ (a = none → E failure t)) w) :
    S.Wp (attempt failure p >>= f).run (post E R) w := wp_exceptBind (wp_attempt h)

lemma wp_callSeq {f : Answer c → Op β}
    (h : S.Wp (ask c) (fun a t => S.Wp (f a).run (post E R) t) w) :
    S.Wp (call c >>= f).run (post E R) w := wp_exceptBind (wp_lift h)

/-- A query that does not fail answers what there is. -/
lemma eq_of_answer {a} {x v : α} (h : a = none ∨ a = some x) (hv : a = some v) : v = x := by
  rcases h with rfl | rfl
  · cases hv
  · exact (Option.some.inj hv).symm

lemma wp_attempt_any (h : S.Wp p (fun _ _ => True) w) : S.Wp (attempt failure p).run Ends w :=
  wp_attempt (wp_mono h fun _ _ _ => ⟨fun _ _ => trivial, fun _ => trivial⟩)

/-- A call that only reads. -/
lemma wp_read (hread : ∀ t a u, Answers i t c a u → u = t)
    (hQ : ∀ t, rely i w t → Sound t → ∀ a, Answers i t c a t → Q a t) :
    (usageSetting i op).Wp (ask c) Q w := by
  refine wp_ask ?_
  intro t hrely hsound a u hanswer _
  have hu := hread t a u hanswer
  subst hu
  exact ⟨hsound, guar_refl i u, hQ u hrely hsound a hanswer⟩

/-- The operation holds the mutex, and knows something about the rows. -/
def Holds (i : Nat) (P : (Str → Option Row) → Prop) (w : World) : Prop :=
  w.owner = some i ∧ P w.index.row

variable {P : (Str → Option Row) → Prop}

theorem Holds.rely (h : Holds i P w) {t : World} (hrely : rely i w t) : Holds i P t := by
  rcases hrely h.1 with ⟨howner, hrows⟩
  refine ⟨howner, ?_⟩
  rw [hrows.row_eq]
  exact h.2

/-- A call on the blobs. -/
lemma Holds.blobs (h : Holds i P w)
    (hblobs : ∀ t a u, Answers i t c a u → u.index = t.index ∧ u.owner = t.owner)
    (hQ : ∀ t a, Holds i P t → Q a t) : (usageSetting i op).Wp (ask c) Q w := by
  refine wp_ask ?_
  intro t hrely hsound a u hanswer _
  rcases hblobs t a u hanswer with ⟨hindex, howner⟩
  have ht := h.rely hrely
  refine ⟨⟨hindex ▸ hsound.inv, hindex ▸ hsound.colon⟩, guar_of_owner ht.1 u, hQ u a ⟨?_, ?_⟩⟩
  · rw [howner]
    exact ht.1
  · rw [hindex]
    exact ht.2

/-- A transaction of the index. -/
lemma Holds.writes (h : Holds i P w)
    (hwrites : ∀ t, Holds i P t → Sound t → ∀ a u, Answers i t c a u → Sound u ∧ Q a u) :
    (usageSetting i op).Wp (ask c) Q w := by
  refine wp_ask ?_
  intro t hrely hsound a u hanswer _
  have ht := h.rely hrely
  rcases hwrites t ht hsound a u hanswer with ⟨hsound', hQ⟩
  exact ⟨hsound', guar_of_owner ht.1 u, hQ⟩

lemma ends (r : Except Failure α) (w : World) : Ends r w := by
  cases r with
  | ok | error => trivial

/-- The operation still holds the mutex. -/
abbrev Held (i : Nat) {α : Type} (_ : α) (w : World) : Prop := w.owner = some i

lemma wp_withLock {body : Op α}
    (h : ∀ t, t.owner = some i → (usageSetting i op).Wp body.run (post (Held i) (Held i)) t) :
    (usageSetting i op).Wp (withLock body).run Ends w := by
  refine wp_bind (wp_ask ?_)
  rintro t - hsound a u ⟨hfree, rfl⟩ -
  refine ⟨⟨hsound.inv, hsound.colon⟩, ?_, wp_seq (h _ rfl) ?_⟩
  · intro j _ howner
    rw [hfree] at howner
    cases howner
  intro result u hu
  have howner : u.owner = some i := by
    cases result with
    | ok | error => exact hu
  refine wp_bind (wp_ask ?_)
  rintro v hrely hsound a v' rfl -
  exact ⟨⟨hsound.inv, hsound.colon⟩, guar_of_owner (hrely howner).1 _, ends result { v with owner := none }⟩

end Rules

/-! ## Entries that may be removed -/

/-- The rows without that of a key. -/
def eraseRow (rows : Str → Option Row) (key : Str) : Str → Option Row :=
  fun k => if k = key then none else rows k

lemma row_remove_eq (idx : Index) (entry : Entry) :
    (idx.remove entry).row = eraseRow idx.row entry.cacheKey := by
  funext key
  exact row_remove entry key

variable {entry : Entry}

section Removable

variable {rows : Str → Option Row}

lemma removable_of_ready (h : rows entry.cacheKey = some ⟨entry.static, .ready⟩) :
    Removable rows entry := by
  intro r hr _
  rw [h] at hr
  cases hr
  exact ⟨rfl, rfl⟩

lemma removable_of_notReady (h : NotReady rows entry.cacheKey) : Removable rows entry := by
  intro r hr hready
  rw [h r hr] at hready
  cases hready

lemma Removable.eraseRow (h : Removable rows entry) (key : Str) :
    Removable (eraseRow rows key) entry := by
  intro r hr
  unfold Tilecache.eraseRow at hr
  split at hr
  · cases hr
  · exact h r hr

lemma Known.eraseRow {key key' : Str} {previous} (h : Known rows key previous)
    (hne : key ≠ key') : Known (eraseRow rows key') key previous := by
  have hsame : Tilecache.eraseRow rows key' key = rows key := if_neg hne
  cases previous with
  | none =>
    intro r hr
    rw [hsame] at hr
    exact h r hr
  | some => exact hsame.trans h

end Removable

lemma mem_of_mem_remove {idx : Index} {r : Row}
    (h : r ∈ (idx.remove entry).entries) : r ∈ idx.entries := by
  unfold Index.remove at h
  cases hget : Table.get Row.key entry.cacheKey idx.entries with
  | none =>
    rw [hget] at h
    exact h
  | some =>
    rw [hget] at h
    exact (Table.mem_delete.mp h).1

lemma Sound.remove {w : World} (h : Sound w) (hrem : Removable w.index.row entry) :
    Sound { w with index := w.index.remove entry } :=
  ⟨inv_remove h.inv hrem, fun r hr => h.colon r (mem_of_mem_remove hr)⟩

/-! ## The operations -/

section Operations

variable {i : Nat} {op : Operation} {w : World} {P P' : (Str → Option Row) → Prop}

/-- The holder of the mutex removes an entry. -/
lemma Holds.remove (h : Holds i P w)
    (hrem : ∀ rows, P rows → Removable rows entry)
    (hP' : ∀ rows, P rows → P' (eraseRow rows entry.cacheKey)) (failure : Failure) :
    (usageSetting i op).Wp (attempt failure (ask (.remove entry))).run
      (post (Held i) fun _ => Holds i P') w := by
  refine wp_attempt (h.writes ?_)
  intro t ht hsound a u hanswer
  rcases hanswer with rfl | ⟨rfl, rfl⟩
  · refine ⟨hsound.remove (hrem _ ht.2), ?_, fun _ => ht.1⟩
    intro _ _
    refine ⟨ht.1, ?_⟩
    rw [row_remove_eq]
    exact hP' _ ht.2
  · exact ⟨hsound, nofun, fun _ => ht.1⟩

/-- The same, where an error is ignored. -/
lemma Holds.removeAnyway (h : Holds i P w)
    (hrem : ∀ rows, P rows → Removable rows entry) :
    (usageSetting i op).Wp (ask (.remove entry)) (Held i) w := by
  refine h.writes ?_
  intro t ht hsound a u hanswer
  rcases hanswer with rfl | ⟨rfl, rfl⟩
  · exact ⟨hsound.remove (hrem _ ht.2), ht.1⟩
  · exact ⟨hsound, ht.1⟩

lemma Holds.getReady (h : Holds i P w) (key : Str) (failure : Failure) :
    (usageSetting i op).Wp (attempt failure (ask (.getReady key))).run
      (post (Held i) fun previous t => Holds i (fun rows => P rows ∧ Known rows key previous) t ∧
        Sound t) w := by
  refine wp_attempt (wp_read (fun t a u ha => ha.1) ?_)
  rintro t hrely hsound a ⟨-, ha⟩
  have ht := h.rely hrely
  refine ⟨?_, fun _ => ht.1⟩
  intro previous hprevious
  rw [eq_of_answer ha hprevious]
  exact ⟨⟨ht.1, ht.2, known_getReady hsound.inv.keyed key⟩, hsound⟩

lemma Holds.lru (h : Holds i P w) (type : ScopeType) (workspaceID resourceID excludeKey : Str)
    (failure : Failure) :
    (usageSetting i op).Wp (attempt failure (ask (.lru type workspaceID resourceID excludeKey))).run
      (post (Held i) fun candidate => Holds i fun rows => P rows ∧
        ∀ e ∈ candidate, rows e.cacheKey = some ⟨e.static, .ready⟩ ∧ e.cacheKey ≠ excludeKey) w := by
  refine wp_attempt (wp_read (fun t a u ha => ha.elim fun e he => he.2.1) ?_)
  rintro t hrely hsound a ⟨e, hlru, -, ha⟩
  have ht := h.rely hrely
  refine ⟨?_, fun _ => ht.1⟩
  intro candidate hcandidate
  rw [eq_of_answer ha hcandidate]
  refine ⟨ht.1, ht.2, ?_⟩
  rintro e rfl
  rcases hlru with ⟨r, hr, rfl, hcovers, -⟩
  refine ⟨?_, hcovers.2.1⟩
  have hrow := row_of_mem hsound.inv.keyed hr
  have hstatic : r.static = ⟨r.entry.static, .ready⟩ := congrArg (Row.mk _) hcovers.1
  rw [hstatic] at hrow
  exact hrow

lemma blobs_of_writes {t u : World} {a blobs}
    (h : Writes t { t with blobs := blobs } a u) : u.index = t.index ∧ u.owner = t.owner := by
  rcases h with rfl | ⟨rfl, -⟩
  · exact ⟨rfl, rfl⟩
  · exact ⟨rfl, rfl⟩

lemma Holds.blobDelete (h : Holds i P w) (key : Str) (failure : Failure) :
    (usageSetting i op).Wp (attempt failure (ask (.blobDelete key))).run
      (post (Held i) fun _ => Holds i P) w :=
  wp_attempt (h.blobs (fun _ _ _ => blobs_of_writes) fun _ _ ht => ⟨fun _ _ => ht, fun _ => ht.1⟩)

variable {previous : Option Entry}

/-- Making room keeps what the calls of an eviction keep. -/
lemma wp_makeRoom {S : Proc.Setting World Call Answer} {I : World → Prop}
    {E : Failure → World → Prop} {cfg : Config} {turns : Nat} {identity : Identity} {policy : Policy}
    {delta : Int} (hE : ∀ e t, I t → E e t)
    (husage : ∀ scope t, I t → S.Wp (ask (.usage scope)) (fun _ => I) t)
    (hlru : ∀ type t, I t → S.Wp (attempt .metadata
      (ask (.lru type identity.workspaceID identity.resourceID identity.CanonicalKey))).run
      (post E fun candidate u => I u ∧ ∀ e ∈ candidate,
        S.Wp (attempt .backend (ask (.blobDelete e.objectKey))).run
          (post E fun _ v => S.Wp (attempt .metadata (ask (.remove e))).run (post E fun _ => I) v) u) t)
    (h : I w) : S.Wp (makeRoom cfg turns identity policy delta).run (post E fun _ => I) w := by
  have hevict : ∀ type scope quota t, I t → S.Wp (evictUntil type scope identity
      identity.CanonicalKey delta quota turns).run (post E fun _ => I) t := by
    intro type scope quota
    induction turns with
    | zero => exact fun t ht => wp_throw (hE _ t ht)
    | succ turns ih =>
      intro t ht
      refine wp_attemptSeq (wp_mono (husage scope t ht) ?_)
      refine fun a u hu => ⟨fun usage _ => ?_, fun _ => hE _ u hu⟩
      split
      · exact wp_ok hu
      refine wp_exceptSeq (hlru type u hu) ?_
      rintro candidate v ⟨hv, hcandidate⟩
      cases candidate with
      | none => exact wp_throw (hE _ v hv)
      | some e =>
        exact wp_exceptSeq (hcandidate e rfl) fun _ x hx => wp_exceptSeq hx fun _ y hy => ih y hy
  have henforce : ∀ checks t, I t → S.Wp (enforce identity identity.CanonicalKey delta turns
      checks).run (post E fun _ => I) t := by
    intro checks
    induction checks with
    | nil => exact fun t ht => wp_ok ht
    | cons check rest ih =>
      intro t ht
      unfold enforce
      split
      · exact ih t ht
      · exact wp_exceptSeq (hevict _ _ _ t ht) fun _ u hu => ih u hu
  unfold makeRoom
  split
  · exact henforce _ w h
  · exact wp_ok h

/-- The row of the entry, while its payload is being stored. -/
def PendingRow (entry : Entry) (rows : Str → Option Row) : Prop :=
  ∃ now, rows entry.cacheKey =
    some ⟨{ entry with createdAt := now, lastAccessedAt := 0 }, .pending⟩

lemma PendingRow.notReady {rows : Str → Option Row} (h : PendingRow entry rows) :
    NotReady rows entry.cacheKey := by
  rcases h with ⟨now, hrow⟩
  intro r hr
  rw [hrow] at hr
  cases hr
  rfl

lemma Holds.markPending (hsize : 0 ≤ entry.sizeBytes)
    (hcolon : ':' ∉ entry.identity.workspaceID) (failure : Failure)
    (h : Holds i (fun rows => Known rows entry.cacheKey previous) w) :
    (usageSetting i op).Wp (attempt failure (ask (.markPending entry previous))).run
      (post (Held i) fun _ => Holds i (PendingRow entry)) w := by
  refine wp_attempt (h.writes ?_)
  rintro t ht hsound a u ⟨now, hwrites⟩
  rcases hwrites with rfl | ⟨rfl, rfl⟩
  · refine ⟨⟨inv_markPending hsound.inv now hsize ht.2, ?_⟩, ?_, fun _ => ht.1⟩
    · intro r hr
      rcases Table.mem_put.mp hr with rfl | hr
      · exact hcolon
      · exact hsound.colon r hr.1
    · intro _ _
      exact ⟨ht.1, now, (row_markPending now entry previous _).trans (if_pos rfl)⟩
  · exact ⟨hsound, nofun, fun _ => ht.1⟩

lemma Holds.restore (hprevious : ∀ p ∈ previous, p.cacheKey = entry.cacheKey ∧ 0 ≤ p.sizeBytes ∧
      ':' ∉ p.identity.workspaceID) (h : Holds i (PendingRow entry) w) :
    (usageSetting i op).Wp (ask (.restore previous entry.cacheKey)) (Held i) w := by
  refine h.writes ?_
  rintro t ⟨howner, hrow⟩ hsound a u hwrites
  rcases hwrites with rfl | ⟨rfl, -⟩
  · refine ⟨⟨inv_restore hsound.inv hrow.notReady ?_, ?_⟩, howner⟩
    · intro p hp
      exact ⟨(hprevious p hp).1, (hprevious p hp).2.1⟩
    · intro r hr
      cases previous with
      | none => exact hsound.colon r (Table.mem_delete.mp hr).1
      | some p =>
        rcases mem_cons.mp hr with rfl | hr
        · exact (hprevious p rfl).2.2
        · exact hsound.colon r (Table.mem_delete.mp hr).1
  · exact ⟨hsound, howner⟩

/-- Whether the row is ready then or still pending, it counts for what the entry says. -/
lemma Holds.markReady (hsize : 0 ≤ entry.sizeBytes) (h : Holds i (PendingRow entry) w) :
    (usageSetting i op).Wp (ask (.markReady entry))
      (fun _ => Holds i fun rows => Removable rows entry) w := by
  refine h.writes ?_
  rintro t ⟨howner, hrow⟩ hsound a u hanswer
  have hsame : Sound t ∧ Holds i (fun rows => Removable rows entry) t :=
    ⟨hsound, howner, removable_of_notReady hrow.notReady⟩
  simp only [Answers] at hanswer
  cases hmark : t.index.markReady entry with
  | none =>
    rw [hmark] at hanswer
    rcases hanswer with ⟨rfl, -⟩
    exact hsame
  | some idx =>
    rw [hmark] at hanswer
    rcases hanswer with rfl | ⟨rfl, -⟩
    · rcases hrow with ⟨now, hrow⟩
      have hinv := inv_markReady hsound.inv hsize ⟨_, hrow, rfl⟩ hmark
      refine ⟨⟨hinv, ?_⟩, howner, ?_⟩
      · intro r hr
        rcases mem_markReady hmark hr with ⟨r', hr', hid⟩
        rw [← hid]
        exact hsound.colon r' hr'
      · intro r hr _
        rw [row_markReady hrow hmark] at hr
        cases hr
        exact ⟨rfl, rfl⟩
    · exact hsame

/-- The part of `Put` that writes. -/
lemma wp_store (content : Content)
    (hsize : 0 ≤ entry.sizeBytes) (hcolon : ':' ∉ entry.identity.workspaceID)
    (hprevious : ∀ p ∈ previous, p.cacheKey = entry.cacheKey ∧ 0 ≤ p.sizeBytes ∧
      ':' ∉ p.identity.workspaceID)
    (h : Holds i (fun rows => Known rows entry.cacheKey previous) w) :
    (usageSetting i op).Wp (store entry content previous).run
      (post (Held i) (Held i)) w := by
  refine wp_exceptSeq (Holds.markPending hsize hcolon _ h) ?_
  intro _ t ht
  refine wp_callSeq (ht.blobs (fun _ _ _ => blobs_of_writes) fun t stored ht => ?_)
  cases stored with
  | none =>
    -- the previous entry is put back
    exact wp_exceptSeq (wp_lift (Holds.restore hprevious ht)) fun _ _ hu => wp_throw hu
  | some _ =>
    refine wp_exceptSeq (wp_lift (Holds.markReady hsize ht)) ?_
    intro ready t ht
    cases ready with
    | some => exact wp_ok ht.1
    | none =>
      refine wp_callSeq (ht.blobs (fun _ _ _ => blobs_of_writes) fun t _ ht => ?_)
      exact wp_exceptSeq (wp_lift (ht.removeAnyway fun _ hrows => hrows)) fun _ _ hu => wp_throw hu

lemma wp_admitted : (usageSetting i op).Wp (call .beginMutation).run Ends w := by
  refine wp_lift (wp_read ?_ fun _ _ _ _ _ => trivial)
  rintro t a u rfl
  rfl

lemma wp_beginMutation : (usageSetting i op).Wp beginMutation.run Ends w := by
  refine wp_exceptSeq wp_admitted ?_
  intro admitted t _
  split
  · exact wp_ok trivial
  · exact wp_throw trivial

variable (cfg : Config) (selector : Selector) (workspaceID : Str) (identity : Identity)
  (resourceIDs : List Str) (turns : Nat)

lemma wp_validate : (usageSetting i op).Wp (validate cfg identity).run Ends w := by
  unfold validate
  split
  · exact wp_ok trivial
  · exact wp_throw trivial

/-- What `Get` and `Exists` do when the payload of an entry is gone. -/
lemma wp_removeOrphan (hop : ∀ w, Settled op w (.remove entry) → Removable w.index.row entry) :
    (usageSetting i op).Wp (removeOrphan entry).run Ends w := by
  refine wp_exceptSeq wp_admitted ?_
  intro admitted t _
  split
  · refine wp_withLock fun t ht => wp_callSeq (wp_ask ?_)
    intro u hrely hsound a v hanswer hsettled
    have howner := (hrely ht).1
    rcases hanswer with rfl | ⟨rfl, -⟩
    · exact ⟨hsound.remove (hop u hsettled), guar_of_owner howner _, wp_ok howner⟩
    · exact ⟨hsound, guar_of_owner howner _, wp_ok howner⟩
  · exact wp_ok trivial

/-- The lookup that `Get` and `Exists` begin with. -/
lemma wp_lookup {β : Type} {absent gone : β} {found : Content → Entry → β}
    (hop : ∀ w entry, Settled op w (.remove entry) → Removable w.index.row entry) :
    (usageSetting i op).Wp (do
      validate cfg identity
      match ← attempt .metadata (ask (.getReady identity.CanonicalKey)) with
      | none => return absent
      | some entry =>
        match ← call (.blobGet entry.objectKey) with
        | .notFound =>
          removeOrphan entry
          return gone
        | .failed => throw .backend
        | .content data => return found data entry : Op β).run Ends w := by
  refine wp_exceptSeq (wp_validate cfg identity) ?_
  intro _ t _
  refine wp_exceptSeq (wp_attempt_any (wp_read (fun t a u ha => ha.1) fun _ _ _ _ _ => trivial)) ?_
  intro entry t _
  cases entry with
  | none => exact wp_ok trivial
  | some entry =>
    refine wp_callSeq (wp_read (fun t a u ha => ha.1) fun t _ _ blob _ => ?_)
    cases blob with
    | notFound =>
      exact wp_exceptSeq (wp_removeOrphan fun w => hop w entry) fun _ _ _ => wp_ok trivial
    | failed => exact wp_throw trivial
    | content => exact wp_ok trivial

lemma wp_Put {identity} (content : Content)
    (policy : Policy) (hcolon : ':' ∉ identity.workspaceID) :
    (usageSetting i op).Wp (Put cfg turns identity content policy).run Ends w := by
  refine wp_exceptSeq (wp_validate cfg identity) fun _ t _ => ?_
  refine wp_exceptSeq wp_beginMutation fun _ t _ => ?_
  split
  · exact wp_ok trivial
  refine wp_withLock ?_
  intro t ht
  have hheld : Holds i (fun _ => True) t := ⟨ht, trivial⟩
  refine wp_exceptSeq (hheld.getReady _ _) ?_
  rintro previous t ⟨⟨howner, -, hknown⟩, hsound⟩
  have hprevious : ∀ p ∈ previous, p.cacheKey = identity.CanonicalKey ∧ 0 ≤ p.sizeBytes ∧
      ':' ∉ p.identity.workspaceID := by
    rintro p rfl
    rcases exists_of_row hknown with ⟨r, hr, hkey, hstatic⟩
    have hentry : r.entry.static = p.static := congrArg Row.entry hstatic
    have hsize : r.entry.sizeBytes = p.sizeBytes := (congrArg Entry.sizeBytes hentry :)
    have hid : r.entry.identity = p.identity := (congrArg Entry.identity hentry :)
    exact ⟨hknown.key_eq, hsize ▸ hsound.inv.size r hr, hid ▸ hsound.colon r hr⟩
  -- what is known of the previous entry is not lost by evicting others
  have hroom : (usageSetting i op).Wp
      (makeRoom cfg turns identity policy (growth content previous)).run
      (post (Held i) fun _ => Holds i fun rows => Known rows identity.CanonicalKey previous)
      t := by
    refine wp_makeRoom (fun _ _ ht => ht.1) (fun scope t ht => ?_) (fun type t ht => ?_)
      ⟨howner, hknown⟩
    · exact wp_read (fun t a u ha => ha.1) fun t hrely _ _ _ => ht.rely hrely
    · refine wp_postMono (ht.lru type _ _ _ _) (fun _ _ h => h) ?_
      refine fun candidate u hu => ⟨⟨hu.1, hu.2.1⟩, fun e he => ?_⟩
      refine wp_postMono (hu.blobDelete _ _) (fun _ _ h => h) fun _ v hv => hv.remove ?_ ?_ _
      · exact fun rows hrows => removable_of_ready (hrows.2 e he).1
      · exact fun rows hrows => hrows.1.eraseRow (hrows.2 e he).2.symm
  refine wp_exceptSeq hroom ?_
  intro _ t ht
  exact wp_store content (Int.natCast_nonneg _) hcolon hprevious ht

lemma Holds.removeHead {e : Entry} {entries}
    (h : Holds i (fun rows => ∀ x ∈ e :: entries, Removable rows x) w) (failure : Failure) :
    (usageSetting i op).Wp (attempt failure (ask (.remove e))).run
      (post (Held i) fun _ => Holds i fun rows => ∀ x ∈ entries, Removable rows x) w := by
  refine h.remove ?_ ?_ failure
  · intro rows hrows
    exact hrows e mem_cons_self
  · intro rows hrows x hx
    exact (hrows x (mem_cons_of_mem _ hx)).eraseRow _

lemma wp_removeAll (failure : Failure) (entries : List Entry)
    (h : Holds i (fun rows => ∀ e ∈ entries, Removable rows e) w) :
    (usageSetting i op).Wp (removeAll failure entries).run
      (post (Held i) (Held i)) w := by
  induction entries generalizing w with
  | nil => exact wp_ok h.1
  | cons e entries ih =>
    exact wp_exceptSeq (h.removeHead failure) fun _ t ht => ih ht

lemma removable_of_mem (hinv : w.index.Inv) {r : Row} (hr : r ∈ w.index.entries) :
    Removable w.index.row r.entry := by
  intro r' hr' _
  have hrow := row_of_mem hinv.keyed hr
  change w.index.row r.entry.cacheKey = _ at hrow
  rw [hrow] at hr'
  cases hr'
  exact ⟨rfl, rfl⟩

/-- What a query for entries finds may be removed. -/
lemma removable_of_reads {t : World} (hsound : Sound t) {es : List Entry}
    (hes : ∀ e ∈ es, ∃ r ∈ t.index.entries, r.entry = e) {a : Option (List Entry)}
    (h : a = none ∨ a = some es) (howner : t.owner = some i) :
    (∀ v, a = some v → Holds i (fun rows => ∀ e ∈ v, Removable rows e) t) ∧
      (a = none → Held i Failure.metadata t) := by
  refine ⟨?_, fun _ => howner⟩
  intro v hv
  rw [eq_of_answer h hv]
  refine ⟨howner, ?_⟩
  intro e he
  rcases hes e he with ⟨r, hr, rfl⟩
  exact removable_of_mem hsound.inv hr

lemma wp_selectEntries (limit : Nat) (h : w.owner = some i) :
    (usageSetting i op).Wp (attempt .metadata (ask (.selectEntries selector limit))).run
      (post (Held i) fun es => Holds i fun rows => ∀ e ∈ es, Removable rows e) w := by
  refine wp_attempt (wp_read (fun t a u ha => ha.1) ?_)
  rintro t hrely hsound a ⟨-, ha⟩
  refine removable_of_reads hsound ?_ ha (hrely h).1
  intro e he
  have hsorted := (mem_insertionSort _).mp (mem_of_mem_take he)
  rcases mem_map.mp hsorted with ⟨r, hr, rfl⟩
  exact ⟨r, (mem_filter.mp hr).1, rfl⟩

lemma wp_nonReady (h : w.owner = some i) :
    (usageSetting i op).Wp (attempt .metadata (ask .nonReady)).run
      (post (Held i) fun es => Holds i fun rows => ∀ e ∈ es, Removable rows e) w := by
  refine wp_attempt (wp_read (fun t a u ha => ha.1) ?_)
  rintro t hrely hsound a ⟨-, ha⟩
  refine removable_of_reads hsound ?_ ha (hrely h).1
  intro e he
  rcases mem_map.mp he with ⟨r, hr, rfl⟩
  exact ⟨r, (mem_filter.mp hr).1, rfl⟩

lemma wp_deleteLoop (h : w.owner = some i) :
    (usageSetting i op).Wp (deleteLoop selector turns).run (post (Held i) (Held i)) w := by
  induction turns generalizing w with
  | zero => exact wp_throw h
  | succ turns ih =>
    refine wp_exceptSeq (wp_selectEntries selector 500 h) ?_
    intro entries t ht
    split
    · exact wp_ok ht.1
    refine wp_attemptSeq (ht.blobs ?_ fun t _ ht => ⟨fun _ _ => ?_, fun _ => ht.1⟩)
    · rintro t a u (rfl | ⟨-, done, -, rfl⟩)
      · exact ⟨rfl, rfl⟩
      · exact ⟨rfl, rfl⟩
    exact wp_exceptSeq (wp_removeAll _ entries ht) fun _ t ht => ih ht

lemma wp_deleteSelected : (usageSetting i op).Wp (deleteSelected selector turns).run Ends w :=
  wp_withLock fun _ ht => wp_deleteLoop selector turns ht

lemma wp_Delete : (usageSetting i op).Wp (Delete selector turns).run Ends w :=
  wp_exceptSeq wp_beginMutation fun _ _ _ => wp_deleteSelected selector turns

lemma wp_DeleteIdentity : (usageSetting i op).Wp (DeleteIdentity cfg identity).run Ends w := by
  refine wp_exceptSeq (wp_validate cfg identity) fun _ t _ => ?_
  refine wp_exceptSeq wp_beginMutation fun _ t _ => ?_
  refine wp_withLock ?_
  intro t ht
  have hheld : Holds i (fun _ => True) t := ⟨ht, trivial⟩
  refine wp_exceptSeq (hheld.getReady _ _) ?_
  rintro entry t ⟨hknown, -⟩
  cases entry with
  | none => exact wp_ok hknown.1
  | some entry =>
    refine wp_exceptSeq (hknown.blobDelete _ _) ?_
    intro _ t ht
    have hkey := Known.key_eq ht.2.2
    have hremove : (usageSetting i op).Wp (attempt .metadata (ask (.remove entry))).run
        (post (Held i) fun _ => Holds i fun _ => True) t := by
      refine ht.remove ?_ (fun _ _ => trivial) .metadata
      intro rows hrows
      apply removable_of_ready
      rw [hkey]
      exact hrows.2
    exact wp_postMono hremove (fun _ _ h => h) fun _ _ h => h.1

lemma wp_deleteResources (resourceIDs : List Str) :
    (usageSetting i op).Wp (deleteResources workspaceID turns resourceIDs).run Ends w := by
  induction resourceIDs generalizing w with
  | nil => exact wp_ok trivial
  | cons resourceID rest ih =>
    exact wp_exceptSeq (wp_deleteSelected _ turns) fun _ _ _ => ih

lemma purges_take {workspaceID : Str} {resourceIDs} {n : Nat} (hn : 0 < n)
    (hlen : n ≤ resourceIDs.length) {scope : Scope}
    (h : Index.Purges workspaceID resourceIDs scope = false) :
    Index.Purges workspaceID (resourceIDs.take n) scope = false := by
  have hne : resourceIDs ≠ [] := by
    rintro rfl
    exact absurd hlen (by simpa using Nat.ne_of_gt hn)
  have hne' : resourceIDs.take n ≠ [] := by
    simp only [ne_eq, take_eq_nil_iff, not_or]
    exact ⟨Nat.ne_of_gt hn, hne⟩
  cases scope with
  | global => rfl
  | workspace => simp [Index.Purges, hne']
  | resource =>
    simp only [Index.Purges, hne, hne', if_false, decide_eq_false_iff_not] at h ⊢
    intro hmem
    exact h (map_subset _ (take_subset n _) hmem)

lemma wp_deleteOwned :
    (usageSetting i op).Wp (deleteOwned workspaceID resourceIDs turns).run Ends w := by
  unfold deleteOwned
  split
  · exact wp_deleteSelected _ turns
  · exact wp_deleteResources workspaceID turns resourceIDs

/-- Usage is deleted without the mutex; the rows are left alone. -/
lemma wp_purgeLifecycleUsage
    (hop : ∀ w, Settled op w (.purgeLifecycleUsage workspaceID resourceIDs) →
      ∀ r ∈ w.index.entries, r.state = .ready → ∀ scope ∈ r.entry.scopes,
        Index.Purges workspaceID resourceIDs scope = false) :
    (usageSetting i op).Wp (attempt .metadata
      (ask (.purgeLifecycleUsage workspaceID resourceIDs))).run Ends w := by
  refine wp_attempt_any (wp_ask ?_)
  intro t _ hsound a u hanswer hsettled
  have hnone := hop t hsettled
  rcases hanswer with rfl | ⟨-, rfl | ⟨n, hn, hlen, rfl⟩⟩
  · exact ⟨⟨inv_purgeLifecycleUsage hsound.inv hnone, hsound.colon⟩, guar_of_same rfl rfl, trivial⟩
  · exact ⟨hsound, guar_refl i u, trivial⟩
  · refine ⟨⟨inv_purgeLifecycleUsage hsound.inv ?_, hsound.colon⟩, guar_of_same rfl rfl, trivial⟩
    intro r hr hready scope hscope
    exact purges_take hn hlen (hnone r hr hready scope hscope)

lemma wp_PurgeLifecycle :
    (usageSetting i (.PurgeLifecycle workspaceID resourceIDs turns)).Wp
      (PurgeLifecycle workspaceID resourceIDs turns).run Ends w := by
  refine wp_exceptSeq wp_beginMutation fun _ t _ => ?_
  refine wp_exceptSeq (wp_deleteOwned workspaceID resourceIDs turns) fun _ t _ => ?_
  refine wp_exceptSeq (wp_attempt_any (wp_read (fun t a u ha => ha) fun _ _ _ _ _ => trivial))
    fun _ t _ => ?_
  exact wp_purgeLifecycleUsage workspaceID resourceIDs fun w hsettled => hsettled

lemma wp_reconcileAll (entries : List Entry)
    (h : Holds i (fun rows => ∀ e ∈ entries, Removable rows e) w) :
    (usageSetting i op).Wp (reconcileAll entries).run (post (Held i) (Held i)) w := by
  induction entries generalizing w with
  | nil => exact wp_ok h.1
  | cons e entries ih =>
    refine wp_callSeq (h.blobs (fun _ _ _ => blobs_of_writes) fun t _ ht => ?_)
    exact wp_exceptSeq (ht.removeHead .metadata) fun _ t ht => ih ht

lemma wp_reconcile : (usageSetting i op).Wp reconcile.run Ends w := by
  refine wp_exceptSeq wp_beginMutation fun _ t _ => ?_
  refine wp_withLock ?_
  intro t ht
  exact wp_exceptSeq (wp_nonReady ht) fun entries t ht => wp_reconcileAll entries ht

lemma wp_flushAccess (values : List (Str × Int)) :
    (usageSetting i op).Wp (flushAccess values).run Ends w := by
  refine wp_exceptSeq wp_beginMutation fun _ t _ => ?_
  refine wp_callSeq (wp_ask ?_)
  intro t _ hsound a u hanswer _
  rcases hanswer with rfl | ⟨rfl, -⟩
  · rcases sameRows_updateAccess t.index values with ⟨hrows, husage⟩
    refine ⟨⟨hsound.inv.of_sameRows hrows husage, ?_⟩, guar_of_same rfl hrows, trivial⟩
    intro r hr
    have hmem : r.static ∈ t.index.entries.map Row.static := hrows ▸ mem_map_of_mem hr
    rcases mem_map.mp hmem with ⟨r', hr', heq⟩
    have hid : r'.entry.identity = r.entry.identity := (congrArg (fun r => r.entry.identity) heq :)
    rw [← hid]
    exact hsound.colon r' hr'
  · exact ⟨hsound, guar_refl i u, trivial⟩

/-- Every operation keeps the usage right, in runs that meet the conditions. -/
theorem sound_program (i : Nat) (op : Operation) (w : World) (hop : WithoutColon op) :
    (usageSetting i op).Wp (op.program cfg) (fun _ _ => True) w := by
  cases op with
  | Get identity | Exists identity =>
    exact wp_seq (wp_lookup cfg identity fun w entry h => h) fun _ _ _ => trivial
  | Put identity content policy turns =>
    exact wp_seq (wp_Put cfg turns content policy hop) fun _ _ _ => trivial
  | Delete selector turns =>
    exact wp_seq (wp_Delete selector turns) fun _ _ _ => trivial
  | DeleteIdentity identity =>
    exact wp_seq (wp_DeleteIdentity cfg identity) fun _ _ _ => trivial
  | PurgeLifecycle workspaceID resourceIDs turns =>
    exact wp_seq (wp_PurgeLifecycle workspaceID resourceIDs turns) fun _ _ _ => trivial
  | reconcile => exact wp_seq wp_reconcile fun _ _ _ => trivial
  | flushAccess values => exact wp_seq (wp_flushAccess values) fun _ _ _ => trivial

end Operations

lemma sound_empty : Sound World.empty :=
  ⟨⟨nodup_nil, nofun, fun _ => rfl⟩, nofun⟩

/-- In every run in which entries are removed as they were read, and usage is purged when there
is none, the recorded usage is right in every state, and not only when no operation is in
flight. -/
theorem usage_accurate_of_reachable (cfg : Config) (p : Pool World Call Answer Operation)
    (h : ((managerMachine cfg).restrict fun p l _ =>
      Pool.Meets WithoutColon Settled p l).Reachable p) : p.world.index.Accurate := by
  have hinit : ∀ w, w = World.empty → Sound w := by
    rintro w rfl
    exact sound_empty
  have hguar : ∀ i j s t, i ≠ j → guar i s t → rely j s t := by
    intro i j s t hne hguar
    exact hguar j (Ne.symm hne)
  have hsound : Sound p.world := Pool.inv_of_reachable hinit rely_refl rely_trans hguar
    (fun i op s hop _ => sound_program cfg i op s hop) h
  exact hsound.accurate

/-! ## Runs -/

/-- A configuration for runs. -/
def sampleConfig : Config where
  lower := Identity.asciiLower
  digest := id
  etag := id
  objectPrefix := []
  maxBytes := 100
  maxBytes_pos := by decide

def unlimited : Policy := ⟨0, 0⟩

/-- `Put` on its own: it is admitted, locks, looks for a previous entry and at the global
usage, marks the entry pending, stores the payload, marks the entry ready and unlocks. -/
def putTurns (i size : Nat) : List (Pool.Turn Operation) :=
  .start i (.Put Identity.plain (replicate size 'x') unlimited 1) ::
    replicate 8 (.call i) ++ [.finish i]

/-- `Delete` of everything, for two rounds. -/
def deleteTurns (i : Nat) : List (Pool.Turn Operation) :=
  .start i (.Delete {} 2) :: replicate 7 (.call i) ++ [.finish i]

/-- A pool with no operation in flight. -/
def World.idle (w : World) : Pool World Call Answer Operation := ⟨w, fun _ => none⟩

/-- The state after a schedule that answers every call without a failure. -/
def runFrom (w : World) (turns : List (Pool.Turn Operation)) :
    Option (Pool World Call Answer Operation) :=
  Pool.run (Operation.program sampleConfig) respond w.idle turns

lemma reachable_runFrom {started : Operation → Prop} {calls : Operation → World → Call → Prop}
    {turns} {p} (hfree : ∀ i op, .start i op ∈ turns → Pool.Free started calls op)
    (h : runFrom World.empty turns = some p) :
    ((managerMachine sampleConfig).restrict fun p l _ =>
      Pool.Meets started calls p l).Reachable p := by
  have hinit : ((managerMachine sampleConfig).restrict fun p l _ =>
      Pool.Meets started calls p l).Reachable World.empty.idle := .init ⟨rfl, fun _ => rfl⟩
  have hidle : Pool.AllFree started calls World.empty.idle := by
    rintro i op proc ⟨⟩
  exact Pool.reachable_run answers_respond hinit hidle hfree h

lemma free_putTurns {size i : Nat} {op} (h : .start i op ∈ putTurns 0 size) :
    Pool.Free WithoutColon Settled op := by
  simp only [putTurns, mem_cons, mem_append, mem_replicate, Pool.Turn.start.injEq,
    reduceCtorEq, and_false, not_mem_nil, or_false] at h
  rcases h with ⟨-, rfl⟩
  exact ⟨(by decide : ':' ∉ Identity.plain.workspaceID), fun _ _ => trivial⟩

theorem usage_accurate_after_put : ∃ p : Pool World Call Answer Operation,
    p.world.index.entries.length = 1 ∧ p.world.index.usageOf .global = (10, 1) ∧
      p.world.index.Accurate := by
  have hrun : ((runFrom World.empty (putTurns 0 10)).map fun p =>
      (p.world.index.entries.length, p.world.index.usageOf .global)) = some (1, (10, 1)) := by
    decide +kernel
  rcases Option.map_eq_some_iff.mp hrun with ⟨p, hp, hend⟩
  have hreach := reachable_runFrom (fun i op => free_putTurns) hp
  exact ⟨p, congrArg Prod.fst hend, congrArg Prod.snd hend,
    usage_accurate_of_reachable sampleConfig p hreach⟩

/-- A tile of 10 bytes is deleted and put again with 20 while `Get` has read its entry and not
found its payload. `Get` then removes the new row and takes off what the old one counted. -/
def staleTurns : List (Pool.Turn Operation) :=
  putTurns 0 10 ++ [.start 1 (.Get Identity.plain), .call 1] ++ deleteTurns 0 ++ [.call 1] ++
    putTurns 0 20 ++ replicate 4 (.call 1) ++ [.finish 1]

theorem stale_orphan_removed : ∃ p, (managerMachine sampleConfig).Reachable p ∧
    p.Idle ∧ p.world.index.entries = [] ∧ p.world.index.usageOf .global = (10, 0) ∧
      ¬ p.world.index.Accurate := by
  have hrun : ((runFrom World.empty staleTurns).map fun p => (p.world.index.entries,
      p.world.index.usageOf .global, (p.procs 0).isNone, (p.procs 1).isNone)) =
        some ([], (10, 0), true, true) := by
    decide +kernel
  rcases Option.map_eq_some_iff.mp hrun with ⟨p, hp, hend⟩
  simp only [Prod.mk.injEq, Option.isNone_iff_eq_none] at hend
  rcases hend with ⟨hentries, husage, h0, h1⟩
  have hreach : ((managerMachine sampleConfig).restrict fun p l _ =>
      Pool.Meets (fun _ => True) (fun _ _ _ => True) p l).Reachable p :=
    reachable_runFrom (fun _ _ _ => ⟨trivial, fun _ _ => trivial⟩) hp
  refine ⟨p, hreach.of_restrict, ?_, hentries, husage, ?_⟩
  · intro i
    match i with
    | 0 => exact h0
    | 1 => exact h1
    | i + 2 =>
      have hturns : ∀ t ∈ staleTurns, t.index < 2 := by decide +kernel
      exact Pool.procs_run hp fun t ht => by have := hturns t ht; omega
  · intro haccurate
    have hglobal := haccurate.global
    rw [husage] at hglobal
    simp [Index.readyUsage, hentries] at hglobal

end NeoServer.Tilecache
