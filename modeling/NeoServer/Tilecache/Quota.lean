import Mathlib
import NeoServer.Tilecache.Sequential

/-!
# Tilecache.Quota — making room for a tile

Before a larger tile is stored, `Put` evicts other tiles, first of the resource, then of the
workspace, then of the whole cache, until the tile fits into each quota. A tile that is not
larger than the one it replaces is stored as it is.

- `Evictions` : tiles that are evicted one after the other, each the least recently used one of
  a scope that does not have room,
- `own_Put` : what `Put` does when it runs alone,
- `sound_of_history` : the usage is right after every history,
- `put_outcome_iff` : after every history `Put` comes to an end, evicts as little as it may,
  and keeps within the quotas, if and only if a tile that is not larger than the one it
  replaces finds the quotas kept,
- `shrunk_over_quota` : a run in which it does not.
-/

namespace NeoServer.Tilecache

open Proc Table List

/-! ## Calls are answered -/

lemma Entry.before_iff (a b : Entry) :
    a.Before b ↔ toLex (a.lastAccessedAt, a.createdAt) ≤ toLex (b.lastAccessedAt, b.createdAt) := by
  rw [Prod.Lex.le_iff]
  rfl

lemma exists_isLru (idx : Index) (type : ScopeType) (workspaceID resourceID excludeKey : Str) :
    ∃ e, idx.IsLru type workspaceID resourceID excludeKey e := by
  classical
  let rows := (idx.entries.filter fun r =>
    type.Covers workspaceID resourceID excludeKey r).toFinset
  have hrows : ∀ r, r ∈ rows ↔ r ∈ idx.entries ∧ type.Covers workspaceID resourceID excludeKey r := by
    intro r
    simp [rows]
  by_cases hsome : rows.Nonempty
  · rcases Finset.exists_min_image rows
      (fun r => toLex (r.entry.lastAccessedAt, r.entry.createdAt)) hsome with ⟨r, hr, hmin⟩
    rcases (hrows r).mp hr with ⟨hmem, hcovers⟩
    refine ⟨some r.entry, r, hmem, rfl, hcovers, ?_⟩
    intro r' hr' hcovers'
    exact (Entry.before_iff _ _).mpr (hmin r' ((hrows r').mpr ⟨hr', hcovers'⟩))
  · refine ⟨none, ?_⟩
    intro r hr hcovers
    exact hsome ⟨r, (hrows r).mpr ⟨hr, hcovers⟩⟩

/-- Only the mutex makes an operation wait. -/
lemma exists_answer {op} {w : World} {c : Call} (h : May op w c) : ∃ a u, Answers 0 w c a u := by
  cases c with
  | beginMutation => exact ⟨true, w, rfl⟩
  | lock => exact ⟨(), _, h.2 rfl, rfl⟩
  | unlock => exact ⟨(), _, rfl⟩
  | lru type workspaceID resourceID excludeKey =>
    rcases exists_isLru w.index type workspaceID resourceID excludeKey with ⟨e, he⟩
    exact ⟨none, w, e, he, rfl, .inl rfl⟩
  | markPending => exact ⟨none, w, 0, .inr ⟨rfl, rfl⟩⟩
  | markReady entry =>
    simp only [Answers]
    cases w.index.markReady entry with
    | none => exact ⟨none, w, rfl, rfl⟩
    | some => exact ⟨none, w, .inr ⟨rfl, rfl⟩⟩
  | purgeLifecycleJobs => exact ⟨none, w, rfl⟩
  | purgeLifecycleUsage => exact ⟨none, w, .inr ⟨rfl, .inl rfl⟩⟩
  | blobGet => exact ⟨.failed, w, rfl, .inl rfl⟩
  | blobDeleteBatch => exact ⟨none, _, .inl rfl⟩
  | getReady | usage | selectEntries | nonReady => exact ⟨none, w, rfl, .inl rfl⟩
  | restore | remove | updateAccess | blobPut | blobDelete => exact ⟨none, w, .inr ⟨rfl, rfl⟩⟩

/-! ## Evictions -/

/-- Tiles that are evicted, in this order: each is ready, is not the one that room is made for,
and is the least recently used one in a scope whose quota leaves no room for `delta` bytes. -/
inductive Evictions (identity : Identity) (key : Str) (delta : Int) (checks : List Check) :
    Index → List Entry → Index → Prop
  | nil (idx : Index) : Evictions identity key delta checks idx [] idx
  | cons {idx idx' : Index} {e : Entry} {es : List Entry} {check : Check}
      (hcheck : check ∈ checks) (hpos : 0 < check.quota)
      (hexceeded : check.quota < (idx.usageOf check.scope).1 + delta)
      (hlru : idx.IsLru check.type identity.workspaceID identity.resourceID key (some e))
      (rest : Evictions identity key delta checks (idx.remove e) es idx') :
      Evictions identity key delta checks idx (e :: es) idx'

/-- The rows of the other keys are the same. -/
def Others (key : Str) (idx idx' : Index) : Prop :=
  ∀ r : Row, r.key ≠ key → (r ∈ idx'.entries ↔ r ∈ idx.entries)

lemma Others.refl (key : Str) (idx : Index) : Others key idx idx := fun _ _ => Iff.rfl

lemma Others.trans {key : Str} {idx idx' idx'' : Index} (h : Others key idx idx')
    (h' : Others key idx' idx'') : Others key idx idx'' :=
  fun r hr => (h' r hr).trans (h r hr)

variable {identity : Identity}

section Evictions

variable {idx idx' idx'' : Index} {e : Entry} {es es' : List Entry} {type : ScopeType}
  {workspaceID resourceID key : Str} {delta : Int} {checks : List Check}

lemma removable_of_isLru (h : idx.Inv)
    (hlru : idx.IsLru type workspaceID resourceID key (some e)) :
    Removable idx.row e ∧ e.cacheKey ≠ key ∧ ∃ r ∈ idx.entries, r.key = e.cacheKey := by
  rcases hlru with ⟨r, hr, rfl, hcovers, -⟩
  have hrow := row_of_mem h.keyed hr
  have hstatic : r.static = ⟨r.entry.static, .ready⟩ := congrArg (Row.mk _) hcovers.1
  rw [hstatic] at hrow
  exact ⟨removable_of_ready hrow, hcovers.2.1, r, hr, rfl⟩

lemma usageOf_remove_le (h : idx.Inv) (hrem : Removable idx.row e) (scope : Scope) :
    (idx.remove e).usageOf scope ≤ idx.usageOf scope := by
  have hnonneg : 0 ≤ (idx.row e.cacheKey).elim 0 (Row.weight scope) := by
    cases hrow : idx.row e.cacheKey with
    | none => exact le_rfl
    | some =>
      rcases exists_of_row hrow with ⟨r', hr', -, rfl⟩
      exact Row.weight_nonneg (h.size r' hr') scope
  rw [(inv_remove h hrem).exact, h.exact, entries_remove, total_delete_row h.keyed]
  exact sub_le_self _ hnonneg

/-- What evictions leave. The tile that room is made for stays. -/
structure Evicted (key : Str) (idx idx' : Index) : Prop where
  inv : idx'.Inv
  usageOf_le : ∀ scope, idx'.usageOf scope ≤ idx.usageOf scope
  length_le : idx'.entries.length ≤ idx.entries.length
  row_eq : idx'.row key = idx.row key

namespace Evictions

section

variable (h : Evictions identity key delta checks idx es idx')

include h

lemma evicted (hinv : idx.Inv) : Evicted key idx idx' := by
  induction h with
  | nil => exact ⟨hinv, fun _ => le_rfl, le_rfl, rfl⟩
  | cons _ _ _ hlru _ ih =>
    rcases removable_of_isLru hinv hlru with ⟨hrem, hne, hmem⟩
    have hrest := ih (inv_remove hinv hrem)
    refine ⟨hrest.inv, ?_, ?_, ?_⟩
    · exact fun scope => (hrest.usageOf_le scope).trans (usageOf_remove_le hinv hrem scope)
    · have hlength := hrest.length_le
      rw [entries_remove] at hlength
      exact hlength.trans (length_delete_lt hmem).le
    · rw [hrest.row_eq, row_remove, if_neg (Ne.symm hne)]

lemma append (h' : Evictions identity key delta checks idx' es' idx'') :
    Evictions identity key delta checks idx (es ++ es') idx'' := by
  induction h with
  | nil => exact h'
  | cons hcheck hpos hexceeded hlru _ ih => exact .cons hcheck hpos hexceeded hlru (ih h')

/-- Nothing is evicted if there is room. -/
lemma eq_nil
    (hroom : ∀ check ∈ checks, 0 < check.quota → (idx.usageOf check.scope).1 + delta ≤ check.quota) :
    es = [] ∧ idx' = idx := by
  cases h with
  | nil => exact ⟨rfl, rfl⟩
  | cons hcheck hpos hexceeded _ _ => exact absurd hexceeded (not_lt.mpr (hroom _ hcheck hpos))

end

end Evictions

end Evictions

variable {op : Operation} {w : World}

/-! ## Making room -/

section Room

variable {key : Str} {delta : Int} {checks : List Check}

/-- Some tiles have been evicted. -/
def Room (identity : Identity) (key : Str) (delta : Int) (checks : List Check) (idx idx' : Index) :
    Prop :=
  ∃ es, Evictions identity key delta checks idx es idx'

lemma Room.refl (idx : Index) : Room identity key delta checks idx idx := ⟨[], .nil idx⟩

lemma Room.trans {idx idx' idx'' : Index} (h : Room identity key delta checks idx idx')
    (h' : Room identity key delta checks idx' idx'') : Room identity key delta checks idx idx'' := by
  rcases h with ⟨es, hes⟩
  rcases h' with ⟨es', hes'⟩
  exact ⟨es ++ es', hes.append hes'⟩

variable {E : Failure → World → Prop}

lemma own_usage {scope : Scope} (hE : E .metadata w) :
    (ownSetting op).Wp (attempt .metadata (ask (.usage scope))).run
      (post E fun usage t => t = w ∧ Sound w ∧ usage = w.index.usageOf scope) w :=
  own_query hE (own_ask (may_of_isPlain w rfl) fun _ _ ha hsound _ => ⟨⟨ha.1, hsound⟩, ha.2⟩)

lemma own_lru {type} {workspaceID resourceID excludeKey : Str} (hE : E .metadata w) :
    (ownSetting op).Wp
      (attempt .metadata (ask (.lru type workspaceID resourceID excludeKey))).run
      (post E fun candidate t => t = w ∧
        w.index.IsLru type workspaceID resourceID excludeKey candidate) w := by
  refine wp_attempt (own_ask (may_of_isPlain w rfl) ?_)
  rintro a u ⟨e, he, rfl, ha⟩ - -
  refine ⟨?_, fun _ => hE⟩
  intro v hv
  rw [eq_of_answer ha hv]
  exact ⟨rfl, he⟩

lemma own_evictUntil (hop : Removes op) {check : Check}
    (hcheck : check ∈ checks) (hpos : 0 < check.quota) (turns : Nat) :
    (ownSetting op).Wp
      (evictUntil check.type check.scope identity key delta check.quota turns).run
      (post (fun e u => Room identity key delta checks w.index u.index ∧
          (e = .turns → turns ≤ w.index.entries.length))
        fun _ u => Room identity key delta checks w.index u.index ∧
          (u.index.usageOf check.scope).1 + delta ≤ check.quota) w := by
  induction turns generalizing w with
  | zero => exact wp_throw ⟨.refl _, fun _ => Nat.zero_le _⟩
  | succ turns ih =>
    refine wp_exceptSeq (own_usage ⟨.refl _, fun h => by cases h⟩) ?_
    rintro usage t ⟨rfl, hsound, rfl⟩
    split
    · rename_i hfits
      exact wp_ok ⟨.refl _, hfits⟩
    rename_i hexceeded
    refine wp_exceptSeq (own_lru ⟨.refl _, fun h => by cases h⟩) ?_
    rintro candidate u ⟨rfl, hlru⟩
    cases candidate with
    | none => exact wp_throw ⟨.refl _, fun h => by cases h⟩
    | some candidate =>
      refine wp_attemptSeq (own_ask (may_of_isPlain u rfl) ?_)
      intro a v hdelete _ _
      have hv := (blobs_of_writes hdelete).1
      have hkept : Room identity key delta checks u.index v.index := hv ▸ .refl _
      have hevicted : Room identity key delta checks u.index (v.index.remove candidate) := by
        rw [hv]
        exact ⟨[candidate], .cons hcheck hpos (not_le.mp hexceeded) hlru (.nil _)⟩
      refine ⟨fun _ _ => ?_, fun _ => ⟨hkept, fun h => by cases h⟩⟩
      refine wp_attemptSeq (own_ask (may_remove (hop v candidate)) ?_)
      rintro a x (rfl | ⟨rfl, rfl⟩) - -
      · refine ⟨fun _ _ => ?_, fun _ => ⟨hevicted, fun h => by cases h⟩⟩
        -- there is one row less to evict
        have hless : (v.index.remove candidate).entries.length < u.index.entries.length := by
          have hmem := (removable_of_isLru hsound.inv hlru).2.2
          rw [hv, entries_remove]
          exact length_delete_lt hmem
        refine wp_postMono ih ?_ ?_
        · exact fun e y hy => ⟨hevicted.trans hy.1, fun he => (hy.2 he).trans_lt hless⟩
        · exact fun _ y hy => ⟨hevicted.trans hy.1, hy.2⟩
      · exact ⟨fun v hv => (by cases hv), fun _ => ⟨hkept, fun h => by cases h⟩⟩

/-- There is room for `delta` more bytes in every scope that has a quota. -/
def Fits (delta : Int) (checks : List Check) (idx : Index) : Prop :=
  ∀ check ∈ checks, 0 < check.quota → (idx.usageOf check.scope).1 + delta ≤ check.quota

/-- The scopes that have room keep it while room is made in others. -/
lemma own_enforce (hop : Removes op) (turns : Nat) {rest}
    (hrest : ∀ check ∈ rest, check ∈ checks) (hinv : w.index.Inv) :
    (ownSetting op).Wp (enforce identity key delta turns rest).run
      (post (fun e u => Room identity key delta checks w.index u.index ∧
          (e = .turns → turns ≤ w.index.entries.length))
        fun _ u => Room identity key delta checks w.index u.index ∧ Fits delta rest u.index) w := by
  induction rest generalizing w with
  | nil => exact wp_ok ⟨.refl _, fun check hcheck => (by cases hcheck)⟩
  | cons check rest ih =>
    have htail : ∀ c ∈ rest, c ∈ checks := fun c hc => hrest c (mem_cons_of_mem _ hc)
    unfold enforce
    split
    · rename_i hnone
      refine wp_postMono (ih htail hinv) (fun _ _ h => h) fun _ u hu => ⟨hu.1, ?_⟩
      exact forall_mem_cons.mpr ⟨fun hpos => absurd hpos (not_lt.mpr hnone), hu.2⟩
    · rename_i hpos
      refine wp_exceptSeq (own_evictUntil hop (hrest check mem_cons_self) (not_le.mp hpos) turns) ?_
      rintro _ t ⟨hroom, hfits⟩
      have hevicted := hroom.choose_spec.evicted hinv
      refine wp_postMono (ih htail hevicted.inv) ?_ ?_
      · intro e u hu
        exact ⟨hroom.trans hu.1, fun he => (hu.2 he).trans hevicted.length_le⟩
      · rintro _ u ⟨hroom', hfits'⟩
        refine ⟨hroom.trans hroom', forall_mem_cons.mpr ⟨fun _ => ?_, hfits'⟩⟩
        have hle := ((hroom'.choose_spec.evicted hevicted.inv).usageOf_le check.scope).1
        exact (Int.add_le_add_right hle delta).trans hfits

lemma own_makeRoom (hop : Removes op) (cfg : Config) (turns : Nat)
    (identity : Identity) (policy : Policy) (delta : Int) (hinv : w.index.Inv) :
    (ownSetting op).Wp (makeRoom cfg turns identity policy delta).run
      (post
        (fun e u => Room identity identity.CanonicalKey delta (Tilecache.checks cfg identity policy)
          w.index u.index ∧ (e = .turns → turns ≤ w.index.entries.length))
        fun _ u => Room identity identity.CanonicalKey delta (Tilecache.checks cfg identity policy)
          w.index u.index ∧ (0 < delta → Fits delta (Tilecache.checks cfg identity policy) u.index) ∧
          (delta ≤ 0 → u.index = w.index)) w := by
  unfold makeRoom
  split
  · rename_i hpos
    refine wp_postMono (own_enforce hop turns (fun _ hc => hc) hinv) (fun _ _ h => h) ?_
    exact fun _ u hu => ⟨hu.1, fun _ => hu.2, fun hle => absurd hpos (not_lt.mpr hle)⟩
  · rename_i hle
    exact wp_ok ⟨.refl _, fun hpos => absurd hpos hle, fun _ => rfl⟩

end Room

variable {idx idx' : Index}

/-! ## Storing a tile -/

section Store

variable {entry : Entry} {previous : Option Entry} {now : Int}

lemma others_put {x : Row} {key : Str} (h : idx'.entries = put Row.key x idx.entries)
    (hkey : x.key = key) : Others key idx idx' := by
  intro r hr
  rw [← hkey] at hr
  rw [h]
  refine mem_put.trans ?_
  constructor
  · rintro (rfl | h)
    · exact absurd rfl hr
    · exact h.1
  · intro h
    exact .inr ⟨h, hr⟩

lemma others_markPending (idx : Index) (now : Int) (entry : Entry) (previous : Option Entry) :
    Others entry.cacheKey idx (idx.markPending now entry previous) := others_put rfl rfl

lemma others_markReady (h : idx.markReady entry = some idx') : Others entry.cacheKey idx idx' := by
  unfold Index.markReady at h
  cases hget : get Row.key entry.cacheKey idx.entries with
  | none =>
    rw [hget] at h
    cases h
  | some x =>
    rw [hget] at h
    simp only [] at h
    split at h
    · cases h
      exact others_put rfl (mem_of_get hget).2
    · cases h

lemma others_remove (idx : Index) (entry : Entry) :
    Others entry.cacheKey idx (idx.remove entry) := by
  intro r hr
  unfold Index.remove
  cases get Row.key entry.cacheKey idx.entries with
  | none => rfl
  | some =>
    refine mem_delete.trans ?_
    exact ⟨fun h => h.1, fun h => ⟨h, hr⟩⟩

lemma others_restore {key : Str} (h : ∀ p ∈ previous, p.cacheKey = key) :
    Others key idx (idx.restore previous key) := by
  intro r hr
  have hdelete : r ∈ delete Row.key key idx.entries ↔ r ∈ idx.entries :=
    mem_delete.trans ⟨fun h => h.1, fun h => ⟨h, hr⟩⟩
  cases previous with
  | none => exact hdelete
  | some p =>
    have hne : r ≠ ⟨p, .ready⟩ := by
      rintro rfl
      exact hr (h p rfl)
    refine mem_cons.trans ?_
    rw [or_iff_right hne]
    exact hdelete

/-- The tile is stored: pending first, then ready. -/
def Stored (now : Int) (entry : Entry) (previous : Option Entry) (idx idx' : Index) : Prop :=
  (idx.markPending now entry previous).markReady entry = some idx'

lemma own_store (hop : Removes op) (content : Content)
    (hprevious : ∀ p ∈ previous, p.cacheKey = entry.cacheKey) :
    (ownSetting op).Wp (store entry content previous).run
      (post (fun e u => e ≠ .turns ∧ Others entry.cacheKey w.index u.index)
        fun b u => b = true ∧ ∃ now, Stored now entry previous w.index u.index) w := by
  refine wp_attemptSeq (own_ask (may_of_isPlain w rfl) ?_)
  rintro a t ⟨now, hwrites⟩ - -
  rcases hwrites with rfl | ⟨rfl, rfl⟩
  swap
  · exact ⟨fun v hv => (by cases hv), fun _ => ⟨(by simp), .refl _ _⟩⟩
  have hothers := others_markPending w.index now entry previous
  refine ⟨fun _ _ => wp_callSeq (own_ask (may_of_isPlain _ rfl) ?_), fun _ => ⟨(by simp), hothers⟩⟩
  intro stored u hput _ _
  have hu : u.index = w.index.markPending now entry previous := (blobs_of_writes hput).1
  rw [← hu] at hothers
  cases stored with
  | none =>
    refine wp_callSeq (own_ask (may_of_isPlain u rfl) ?_)
    rintro a v (rfl | ⟨rfl, -⟩) - -
    · exact wp_throw ⟨(by simp), hothers.trans (others_restore hprevious)⟩
    · exact wp_throw ⟨(by simp), hothers⟩
  | some _ =>
    refine wp_callSeq (own_ask (may_of_isPlain u rfl) ?_)
    intro ready v hanswer _ _
    have hv : Others entry.cacheKey w.index v.index ∧
        (ready = some () → Stored now entry previous w.index v.index) := by
      simp only [Answers] at hanswer
      cases hmark : u.index.markReady entry with
      | none =>
        rw [hmark] at hanswer
        rcases hanswer with ⟨rfl, rfl⟩
        exact ⟨hothers, fun h => by cases h⟩
      | some =>
        rw [hmark] at hanswer
        rcases hanswer with rfl | ⟨rfl, rfl⟩
        · refine ⟨hothers.trans (others_markReady hmark), fun _ => ?_⟩
          rw [hu] at hmark
          exact hmark
        · exact ⟨hothers, fun h => by cases h⟩
    cases ready with
    | some => exact wp_ok ⟨rfl, now, hv.2 rfl⟩
    | none =>
      refine wp_callSeq (own_ask (may_of_isPlain v rfl) ?_)
      intro a x hdelete _ _
      have hx := (blobs_of_writes hdelete).1
      refine wp_callSeq (own_ask (may_remove (hop x entry)) ?_)
      rintro a y (rfl | ⟨rfl, -⟩) - -
      · exact wp_throw ⟨(by simp), hv.1.trans (hx ▸ others_remove _ _)⟩
      · exact wp_throw ⟨(by simp), hx ▸ hv.1⟩

/-- The entry as it is stored. -/
def Entry.at (entry : Entry) (now : Int) : Entry :=
  { entry with createdAt := now, lastAccessedAt := now }

lemma stored_iff : Stored now entry previous idx idx' ↔
    idx' = { entries := put Row.key ⟨entry.at now, .ready⟩
               (idx.markPending now entry previous).entries,
             usage := adjustUsage (idx.markPending now entry previous).usage entry
               entry.sizeBytes 1 } := by
  have hget : get Row.key (Row.key ⟨entry.at now, .pending⟩)
      (idx.markPending now entry previous).entries = some ⟨entry.at now, .pending⟩ :=
    get_put_self
  change get Row.key entry.cacheKey _ = _ at hget
  unfold Stored Index.markReady
  rw [hget]
  exact ⟨fun h => (Option.some.inj h).symm, fun h => congrArg some h.symm⟩

lemma exists_stored (idx : Index) (now : Int) (entry : Entry) (previous : Option Entry) :
    ∃ idx', Stored now entry previous idx idx' := ⟨_, stored_iff.mpr rfl⟩

lemma entries_of_stored (h : Stored now entry previous idx idx') :
    idx'.entries = ⟨entry.at now, .ready⟩ :: delete Row.key entry.cacheKey idx.entries := by
  rw [stored_iff.mp h]
  have hdelete : delete Row.key (Row.key ⟨entry.at now, .pending⟩)
      (put Row.key ⟨entry.at now, .pending⟩ idx.entries) =
        delete Row.key entry.cacheKey idx.entries := delete_put_self
  exact congrArg (cons _) hdelete

lemma getReady_of_stored (h : Stored now entry previous idx idx') :
    idx'.getReady entry.cacheKey = some (entry.at now) := by
  unfold Index.getReady
  rw [entries_of_stored h, find?_cons_of_pos]
  · rfl
  · simp [Row.key, Entry.at]

lemma inv_of_stored (h : idx.Inv) (hsize : 0 ≤ entry.sizeBytes)
    (hknown : Known idx.row entry.cacheKey previous) (hstored : Stored now entry previous idx idx') :
    idx'.Inv := by
  have hrow : (idx.markPending now entry previous).row entry.cacheKey = _ :=
    (row_markPending now entry previous entry.cacheKey).trans (if_pos rfl)
  exact inv_markReady (inv_markPending h now hsize hknown) hsize ⟨_, hrow, rfl⟩ hstored

/-- What the usage of a scope is then. -/
lemma usageOf_stored (h : idx.Inv) (hsize : 0 ≤ entry.sizeBytes)
    (hknown : Known idx.row entry.cacheKey previous) (hstored : Stored now entry previous idx idx')
    (scope : Scope) :
    idx'.usageOf scope = idx.usageOf scope
      - (previous.elim 0 fun p => if scope ∈ p.scopes then (p.sizeBytes, 1) else 0)
      + if scope ∈ entry.scopes then (entry.sizeBytes, 1) else 0 := by
  have hweight : Row.weight scope ⟨entry.at now, .ready⟩ =
      if scope ∈ entry.scopes then (entry.sizeBytes, 1) else 0 := Row.weight_ready _ scope
  rw [(inv_of_stored h hsize hknown hstored).exact, entries_of_stored hstored, Tally.total_cons,
    hweight, total_delete_row h.keyed, hknown.elim_weight, h.exact, add_comm]

end Store

/-! ## `Put` on its own -/

section Put

/-- What the usage grows by when the tile is put. -/
abbrev grows (identity : Identity) (content : Content) (idx : Index) : Int :=
  growth content (idx.getReady identity.CanonicalKey)

/-- The tiles that `Put` has evicted, none if there is room, and what it has left of the others. -/
def EvictsOnly (cfg : Config) (identity : Identity) (content : Content) (policy : Policy)
    (idx idx' : Index) : Prop :=
  ∃ es mid, Evictions identity identity.CanonicalKey (grows identity content idx)
    (checks cfg identity policy) idx es mid ∧ Others identity.CanonicalKey mid idx' ∧
    (Fits (grows identity content idx) (checks cfg identity policy) idx → es = [])

lemma Evictions.evictsOnly {cfg : Config} {identity} {content : Content} {policy : Policy}
    {idx mid idx' : Index} {es} (h : Evictions identity identity.CanonicalKey
      (grows identity content idx) (checks cfg identity policy) idx es mid)
    (hothers : Others identity.CanonicalKey mid idx') :
    EvictsOnly cfg identity content policy idx idx' :=
  ⟨es, mid, h, hothers, fun hfits => (h.eq_nil hfits).1⟩

lemma EvictsOnly.refl (cfg : Config) (identity : Identity) (content : Content) (policy : Policy)
    (idx : Index) : EvictsOnly cfg identity content policy idx idx :=
  (Evictions.nil idx).evictsOnly (.refl _ _)

/-- Room is made, and the tile stored. -/
def Replaces (cfg : Config) (identity : Identity) (content : Content) (policy : Policy)
    (idx idx' : Index) : Prop :=
  ∃ mid now, Room identity identity.CanonicalKey (grows identity content idx)
    (checks cfg identity policy) idx mid ∧
    (0 < grows identity content idx →
      Fits (grows identity content idx) (checks cfg identity policy) mid) ∧
    (grows identity content idx ≤ 0 → mid = idx) ∧
    Stored now (newEntry cfg identity content) (idx.getReady identity.CanonicalKey) mid idx'

lemma Stored.others {now : Int} {entry : Entry} {previous}
    (h : Stored now entry previous idx idx') : Others entry.cacheKey idx idx' :=
  (others_markPending idx now entry previous).trans (others_markReady h)

lemma Replaces.evictsOnly {cfg : Config} {identity} {content : Content} {policy : Policy} (h : Replaces cfg identity content policy idx idx') :
    EvictsOnly cfg identity content policy idx idx' := by
  rcases h with ⟨mid, now, ⟨es, hes⟩, -, -, hstored⟩
  exact hes.evictsOnly hstored.others

/-- What `Put` does with the mutex. -/
lemma own_replace (hop : Removes op) (cfg : Config) (turns : Nat)
    (identity : Identity) (content : Content) (policy : Policy) :
    (ownSetting op).Wp (do
      let previous ← attempt .metadata (ask (.getReady identity.CanonicalKey))
      makeRoom cfg turns identity policy (growth content previous)
      store (newEntry cfg identity content) content previous : Op Bool).run
      (post
        (fun e u => EvictsOnly cfg identity content policy w.index u.index ∧
          (e = .turns → turns ≤ w.index.entries.length))
        fun b u => b = true ∧ Replaces cfg identity content policy w.index u.index) w := by
  refine wp_exceptSeq (own_getReady ⟨.refl _ _ _ _ _, fun h => nomatch h⟩) ?_
  rintro previous t ⟨rfl, hsound, rfl⟩
  have hprevious : ∀ p ∈ t.index.getReady identity.CanonicalKey,
      p.cacheKey = (newEntry cfg identity content).cacheKey := by
    intro p hp
    have hrow : Known t.index.row identity.CanonicalKey (some p) :=
      row_of_getReady hsound.inv.keyed hp
    exact hrow.key_eq
  have hroom := own_makeRoom hop cfg turns identity policy (grows identity content t.index) hsound.inv
  refine wp_exceptSeq (wp_postMono hroom ?_ fun _ _ h => h) ?_
  · rintro e u ⟨⟨es, hes⟩, hturns⟩
    exact ⟨hes.evictsOnly (.refl _ _), hturns⟩
  · rintro _ u ⟨hmade, hfits, hsame⟩
    refine wp_postMono (own_store hop content hprevious) ?_ ?_
    · rintro e v ⟨hne, hothers⟩
      rcases hmade with ⟨es, hes⟩
      exact ⟨hes.evictsOnly hothers, fun he => absurd he hne⟩
    · rintro b v ⟨hb, now, hstored⟩
      exact ⟨hb, u.index, now, hmade, hfits, hsame, hstored⟩

/-- How `Put` ends. -/
abbrev PutEnds (cfg : Config) (turns : Nat) (identity : Identity) (content : Content) (policy : Policy)
    (w : World) : Except Failure Bool → World → Prop :=
  post
    (fun e u => u.owner = none ∧ EvictsOnly cfg identity content policy w.index u.index ∧
      (e = .turns → turns ≤ w.index.entries.length))
    fun b u => u.owner = none ∧ (b = false → u = w) ∧
      (b = true → identity.Validate cfg.lower = none ∧ ¬ oversized cfg policy content.length ∧
        Replaces cfg identity content policy w.index u.index)

theorem own_Put (cfg : Config) (turns : Nat) (identity : Identity) (content : Content)
    (policy : Policy) (hfree : w.owner = none) :
    (ownSetting (.Put identity content policy turns)).Wp (Put cfg turns identity content policy).run
      (PutEnds cfg turns identity content policy w) w := by
  refine own_validate (fun _ _ => ⟨hfree, .refl _ _ _ _ _, fun h => nomatch h⟩) fun hvalid => ?_
  refine own_beginMutation ⟨hfree, .refl _ _ _ _ _, fun h => nomatch h⟩ ?_
  split
  · exact wp_ok ⟨hfree, fun _ => rfl, fun h => nomatch h⟩
  rename_i hover
  have hremove : Removes (.Put identity content policy turns) := fun _ _ => trivial
  have hlocked := own_withLock
    (E := fun e idx => EvictsOnly cfg identity content policy w.index idx ∧
      (e = .turns → turns ≤ w.index.entries.length))
    (Q := fun b idx => b = true ∧ Replaces cfg identity content policy w.index idx) hfree
    (own_replace (w := { w with owner := some 0 }) hremove cfg turns identity content policy)
  refine wp_postMono hlocked (fun e u h => h) ?_
  rintro b u ⟨hfree', rfl, hreplaces⟩
  exact ⟨hfree', fun h => (by cases h), fun _ => ⟨hvalid, hover, hreplaces⟩⟩

end Put

/-! ## Histories -/

/-- Every operation, run on its own, makes the calls it may make and leaves the mutex free. -/
lemma own_program (cfg : Config) (hop : Plain op)
    (hfree : w.owner = none) : (ownSetting op).Wp (op.program cfg) Free w := by
  have hforget : ∀ {α : Type} {body : Op α},
      (ownSetting op).Wp body.run (post Free Free) w →
        (ownSetting op).Wp body.forget Free w := by
    intro α body h
    refine wp_seq h ?_
    intro r t hr
    cases r with
    | ok | error => exact hr
  cases op with
  | Get identity | Exists identity =>
    exact hforget (own_lookup cfg identity hfree fun w entry h => h)
  | Put identity content policy turns =>
    refine hforget (wp_postMono (own_Put cfg turns identity content policy hfree) ?_ ?_)
    · exact fun e u h => h.1
    · exact fun b u h => h.1
  | Delete selector turns =>
    have hremove : Removes (.Delete selector turns) := fun _ _ => trivial
    refine hforget (own_beginMutation hfree (wp_postMono
      (own_deleteSelected hremove hfree selector turns) ?_ ?_))
    · exact fun e u h => h
    · exact fun b u h => h.1
  | DeleteIdentity identity =>
    exact hforget (own_DeleteIdentity cfg hfree identity fun _ _ => trivial)
  | PurgeLifecycle workspaceID resourceIDs turns =>
    exact hforget (own_PurgeLifecycle hfree hop resourceIDs turns)
  | reconcile => exact hforget (own_reconcile (fun _ _ => trivial) hfree)
  | flushAccess values => exact hforget (own_flushAccess hfree values)

lemma answers_of_may (s : World) (c : Call) (a : Answer c) (t : World)
    (hmay : May op s c) (h : Answers 0 s c a t) : (usageSetting 0 op).answers s c a t := ⟨h, hmay.1⟩

/-- The usage is right after every history, and the mutex is free. -/
theorem sound_of_history {cfg : Config}
    (h : ((history cfg).restrict fun _ op _ => Plain op).Reachable w) :
    Sound w ∧ w.owner = none := by
  refine Machine.Reachable.induct (I := fun w => Sound w ∧ w.owner = none) ?_ ?_ h
  · rintro w rfl
    exact ⟨sound_empty, rfl⟩
  · rintro w op w' - ⟨hsound, hfree⟩ ⟨hexec, hop⟩
    have hwp := sound_program cfg 0 op w hop.withoutColon
    rcases Proc.Exec.of_wp (rely_refl 0) answers_of_may hsound hexec hwp
      (own_program cfg hop hfree) with ⟨hsound', -, hfree'⟩
    exact ⟨hsound', hfree'⟩

/-! ## Within the quotas -/

/-- No more is used than the quotas allow. -/
structure WithinQuotas (cfg : Config) (identity : Identity) (policy : Policy) (idx : Index) :
    Prop where
  resource : 0 < policy.resourceQuotaBytes →
    (idx.readyUsage fun i => i.workspaceID = identity.workspaceID ∧
      i.resourceID = identity.resourceID).1 ≤ policy.resourceQuotaBytes
  workspace : 0 < policy.workspaceQuotaBytes →
    (idx.readyUsage fun i => i.workspaceID = identity.workspaceID).1 ≤ policy.workspaceQuotaBytes
  global : (idx.readyUsage fun _ => True).1 ≤ cfg.maxBytes

/-- What is to hold when `Put` has ended. -/
structure PutOutcome (cfg : Config) (identity : Identity) (content : Content) (policy : Policy)
    (w : World) (r : Except Failure Bool) (u : World) : Prop where
  within : r = .ok true → WithinQuotas cfg identity policy u.index
  stored : r = .ok true → ∃ e, u.index.getReady identity.CanonicalKey = some e ∧
    e.identity = identity ∧ e.sizeBytes = content.length
  refused : r = .ok false → u = w
  evicts : ∃ es mid, Evictions identity identity.CanonicalKey
    (growth content (w.index.getReady identity.CanonicalKey)) (checks cfg identity policy)
      w.index es mid ∧ Others identity.CanonicalKey mid u.index ∧
    (Fits (growth content (w.index.getReady identity.CanonicalKey)) (checks cfg identity policy)
      w.index → es = [])

/-- Whatever the calls answer, `Put` comes to an end, with one turn of its loops for every tile
and one more, and then ends as it should. -/
def PutRight (cfg : Config) (identity : Identity) (content : Content) (policy : Policy) (w : World) :
    Prop :=
  ∀ turns, (Put cfg turns identity content policy).run.Total (Answers 0) w ∧
    ∀ r u, Proc.Exec (Answers 0) w (Put cfg turns identity content policy).run r u →
      (w.index.entries.length < turns → r ≠ .error .turns) ∧
      PutOutcome cfg identity content policy w r u

variable {content : Content} {policy : Policy} {cfg : Config} {w u : World}

section Within

/-- With the usage right, the quotas are those that are checked. -/
lemma withinQuotas_iff (h : Sound w) (hcolon : ':' ∉ identity.workspaceID) :
    WithinQuotas cfg identity policy w.index ↔ Fits 0 (checks cfg identity policy) w.index := by
  have haccurate := h.accurate
  have hresource := haccurate.resource identity.workspaceID identity.resourceID hcolon
  have hworkspace := haccurate.workspace identity.workspaceID
  unfold Fits
  simp only [checks, forall_mem_cons, add_zero, hresource, hworkspace, haccurate.global]
  constructor
  · intro hwithin
    exact ⟨hwithin.resource, hwithin.workspace, fun _ => hwithin.global, fun _ h => nomatch h⟩
  · rintro ⟨hr, hw, hg, -⟩
    exact ⟨hr, hw, hg cfg.maxBytes_pos⟩

lemma mem_scopes_of_mem_checks {check : Check} (h : check ∈ checks cfg identity policy) :
    check.scope ∈ (newEntry cfg identity content).scopes := by
  simp only [checks, mem_cons, not_mem_nil, or_false] at h
  rcases h with rfl | rfl | rfl
  · simp [Entry.scopes, newEntry]
  · simp [Entry.scopes, newEntry]
  · simp [Entry.scopes, newEntry]

/-- The tile that is replaced is one of the same resource. -/
def SameResource (identity : Identity) (idx : Index) : Prop :=
  ∀ p ∈ idx.getReady identity.CanonicalKey,
    p.identity.workspaceID = identity.workspaceID ∧ p.identity.resourceID = identity.resourceID

/-- The usage of a scope of the tile grows by `growth`. -/
lemma usageOf_replaced {idx mid idx' : Index} {now : Int} (hsame : SameResource identity idx)
    (hinv : mid.Inv)
    (hknown : Known mid.row identity.CanonicalKey (idx.getReady identity.CanonicalKey))
    (hstored : Stored now (newEntry cfg identity content) (idx.getReady identity.CanonicalKey) mid idx')
    {scope : Scope} (hscope : scope ∈ (newEntry cfg identity content).scopes) :
    (idx'.usageOf scope).1 = (mid.usageOf scope).1 + grows identity content idx := by
  have hsize : 0 ≤ (newEntry cfg identity content).sizeBytes := Int.natCast_nonneg _
  rw [usageOf_stored hinv hsize hknown hstored scope, if_pos hscope, grows]
  cases hprevious : idx.getReady identity.CanonicalKey with
  | none =>
    change (mid.usageOf scope).1 - 0 + (content.length : ℤ) = _ + ((content.length : ℤ) - 0)
    omega
  | some p =>
    rcases hsame p hprevious with ⟨hws, hres⟩
    have hp : scope ∈ p.scopes := by
      unfold Entry.scopes at hscope ⊢
      rw [hws, hres]
      exact hscope
    change ((mid.usageOf scope) - (if scope ∈ p.scopes then (p.sizeBytes, 1) else 0) +
      ((content.length : ℤ), 1)).1 = _ + ((content.length : ℤ) - p.sizeBytes)
    rw [if_pos hp]
    change (mid.usageOf scope).1 - p.sizeBytes + (content.length : ℤ) = _
    omega

/-- What is stored is within the quotas, if it was to be or if room was made. -/
lemma Replaces.fits (hinv : w.index.Inv) (hsame : SameResource identity w.index)
    (h : Replaces cfg identity content policy w.index u.index)
    (hroomy : grows identity content w.index ≤ 0 →
      Fits (grows identity content w.index) (checks cfg identity policy) w.index) :
    Fits 0 (checks cfg identity policy) u.index := by
  rcases h with ⟨mid, now, ⟨es, hes⟩, hmade, hkept, hstored⟩
  have hknown : Known mid.row identity.CanonicalKey (w.index.getReady identity.CanonicalKey) := by
    have hbefore := known_getReady hinv.keyed identity.CanonicalKey
    unfold Known at hbefore ⊢
    rw [(hes.evicted hinv).row_eq]
    exact hbefore
  have hfits : Fits (grows identity content w.index) (checks cfg identity policy) mid := by
    by_cases hpos : 0 < grows identity content w.index
    · exact hmade hpos
    · rw [hkept (not_lt.mp hpos)]
      exact hroomy (not_lt.mp hpos)
  intro check hcheck hpos
  rw [usageOf_replaced hsame (hes.evicted hinv).inv hknown hstored (mem_scopes_of_mem_checks hcheck), add_zero]
  exact hfits check hcheck hpos

end Within

/-! ## Nothing fails -/

section Exec

lemma exec_attempt {α : Type} {failure : Failure} {p} {a : α}
    (h : Proc.Exec (Answers 0) w p (some a) u) :
    Proc.Exec (Answers 0) w (attempt failure p).run (.ok a) u :=
  .exceptBind h.lift (.done u _)

lemma exec_withLock {α : Type} {body : Op α} {r} (hfree : w.owner = none)
    (h : Proc.Exec (Answers 0) { w with owner := some 0 } body.run r u) :
    Proc.Exec (Answers 0) w (withLock body).run r { u with owner := none } := by
  have hlock : Proc.Exec (Answers 0) w (ask .lock) () { w with owner := some 0 } :=
    .perform ⟨hfree, rfl⟩
  have hunlock : Proc.Exec (Answers 0) u (ask .unlock) () { u with owner := none } := .perform rfl
  exact hlock.bind (h.bind (hunlock.bind (.done _ r)))

lemma exec_store {entry : Entry} {previous} (now : Int) {idx : Index}
    (hstored : Stored now entry previous w.index idx) :
    ∃ u, Proc.Exec (Answers 0) w (store entry content previous).run (.ok true) u ∧ u.index = idx := by
  let pending : World := { w with index := w.index.markPending now entry previous }
  let written : World :=
    { pending with blobs := put Prod.fst (entry.objectKey, content) pending.blobs }
  have hpending : Proc.Exec (Answers 0) w (ask (.markPending entry previous)) (some ()) pending :=
    .perform ⟨now, .inl rfl⟩
  have hput : Proc.Exec (Answers 0) pending (ask (.blobPut entry.objectKey content)) (some ())
      written := .perform (.inl rfl)
  have hanswer : Answers 0 written (.markReady entry) (some ()) { written with index := idx } := by
    have hmark : written.index.markReady entry = some idx := hstored
    simp only [Answers]
    rw [hmark]
    exact .inl rfl
  have hready : Proc.Exec (Answers 0) written (ask (.markReady entry)) (some ())
      { written with index := idx } := .perform hanswer
  exact ⟨_, .exceptBind (exec_attempt hpending)
    (.exceptBind hput.lift (.exceptBind hready.lift (.done _ _))), rfl⟩

/-- A tile that is not larger than the one it replaces is stored at once. -/
lemma exec_Put (turns : Nat) (hfree : w.owner = none) (hvalid : identity.Validate cfg.lower = none)
    (hover : ¬ oversized cfg policy content.length)
    (hsmall : grows identity content w.index ≤ 0) :
    ∃ u now, Proc.Exec (Answers 0) w (Put cfg turns identity content policy).run (.ok true) u ∧
      Stored now (newEntry cfg identity content) (w.index.getReady identity.CanonicalKey) w.index
        u.index := by
  rcases exists_stored w.index 0 (newEntry cfg identity content)
    (w.index.getReady identity.CanonicalKey) with ⟨idx, hstored⟩
  rcases exec_store (w := { w with owner := some 0 }) 0 hstored with ⟨u, hstore, hu⟩
  refine ⟨{ u with owner := none }, 0, ?_, hu ▸ hstored⟩
  have hbegin : Proc.Exec (Answers 0) w beginMutation.run (.ok ()) w := by
    have hask : Proc.Exec (Answers 0) w (ask .beginMutation) true w := .perform rfl
    exact .exceptBind hask.lift (.done w _)
  have hget : Proc.Exec (Answers 0) { w with owner := some 0 }
      (ask (.getReady identity.CanonicalKey)) (some (w.index.getReady identity.CanonicalKey))
      { w with owner := some 0 } := .perform ⟨rfl, .inr rfl⟩
  unfold Put validate makeRoom
  rw [hvalid, if_neg hover]
  refine .exceptBind (.done w (Except.ok ())) (.exceptBind hbegin (exec_withLock hfree ?_))
  refine .exceptBind (exec_attempt hget) ?_
  rw [if_neg (not_lt.mpr hsmall)]
  exact .exceptBind (.done _ (Except.ok ())) hstore

end Exec

/-- What is known when `Put`, run on its own, has ended. -/
lemma put_exec {u : World} {turns : Nat} {r} (hsound : Sound w) (hfree : w.owner = none)
    (hcolon : ':' ∉ identity.workspaceID)
    (hexec : Proc.Exec (Answers 0) w (Put cfg turns identity content policy).run r u) :
    Sound u ∧ PutEnds cfg turns identity content policy w r u := by
  have hwp : (usageSetting 0 (.Put identity content policy turns)).Wp _ Ends w :=
    wp_Put cfg turns content policy hcolon
  have hown := own_Put cfg turns identity content policy hfree
  rcases Proc.Exec.of_wp (rely_refl 0) answers_of_may hsound hexec hwp hown with ⟨hsound', -, hpost⟩
  exact ⟨hsound', hpost⟩

lemma total_Put (hsound : Sound w)
    (hfree : w.owner = none) (hcolon : ':' ∉ identity.workspaceID) (turns : Nat) (content : Content)
    (policy : Policy) : (Put cfg turns identity content policy).run.Total (Answers 0) w :=
  Proc.Total.of_wp (rely_refl 0) answers_of_may (fun _ _ => exists_answer) hsound
    (wp_Put cfg turns content policy hcolon) (own_Put cfg turns identity content policy hfree)

/-- After every history of operations on workspaces without a colon in their identifier, and for
every tile that does not have the key of a tile of another resource, `Put` does what it should if
and only if a tile that is not larger than the one it replaces finds the quotas kept. -/
theorem put_outcome_iff (cfg : Config) (w : World)
    (h : ((history cfg).restrict fun _ op _ => Plain op).Reachable w) (identity : Identity)
    (content : Content) (policy : Policy) (hcolon : ':' ∉ identity.workspaceID)
    (hsame : SameResource identity w.index) :
    PutRight cfg identity content policy w ↔
      (identity.Validate cfg.lower = none → ¬ oversized cfg policy content.length →
        growth content (w.index.getReady identity.CanonicalKey) ≤ 0 →
          Fits (growth content (w.index.getReady identity.CanonicalKey))
            (checks cfg identity policy) w.index) := by
  rcases sound_of_history h with ⟨hsound, hfree⟩
  have hknown := known_getReady hsound.inv.keyed identity.CanonicalKey
  constructor
  · intro hright hvalid hover hsmall
    -- the tile is stored when no call fails, and then the quotas are kept
    rcases exec_Put 0 hfree hvalid hover hsmall with ⟨u, now, hexec, hstored⟩
    have hwithin := ((hright 0).2 _ u hexec).2.within rfl
    have hfits := (withinQuotas_iff (put_exec hsound hfree hcolon hexec).1 hcolon).mp hwithin
    intro check hcheck hpos
    have husage := usageOf_replaced hsame hsound.inv hknown hstored (mem_scopes_of_mem_checks hcheck)
    have hle := hfits check hcheck hpos
    rw [add_zero, husage] at hle
    exact hle
  · intro hroomy turns
    refine ⟨total_Put hsound hfree hcolon turns content policy, ?_⟩
    intro r u hexec
    rcases put_exec hsound hfree hcolon hexec with ⟨hsound', hpost⟩
    cases r with
    | error =>
      rcases hpost with ⟨-, hevicts, hturns⟩
      refine ⟨?_, nofun, nofun, nofun, hevicts⟩
      rintro hlt ⟨⟩
      exact absurd (hturns rfl) (not_le.mpr hlt)
    | ok b =>
      rcases hpost with ⟨-, hrefused, hreplaces⟩
      cases b with
      | false =>
        have hu := hrefused rfl
        subst hu
        exact ⟨nofun, nofun, nofun, fun _ => rfl, EvictsOnly.refl _ _ _ _ _⟩
      | true =>
        rcases hreplaces rfl with ⟨hvalid, hover, hreplaced⟩
        refine ⟨nofun, fun _ => ?_, fun _ => ?_, nofun, hreplaced.evictsOnly⟩
        · rw [withinQuotas_iff hsound' hcolon]
          exact hreplaced.fits hsound.inv hsame (hroomy hvalid hover)
        · rcases hreplaced with ⟨mid, now, -, -, -, hstored⟩
          exact ⟨_, getReady_of_stored hstored, rfl, rfl⟩

/-! ## Runs -/

/-- A payload. -/
def bytes (size : Nat) : Content := replicate size 'x'

/-- Another tile of the resource. -/
def neighbour : Identity := { Identity.plain with column := 2 }

/-- The world after an operation whose calls do not fail, or the same if it cannot go on. -/
def after (w : World) (op : Operation) : World :=
  (((op.program sampleConfig).eval (respond 0) w).map Prod.snd).getD w

lemma reachable_after {P : World → Operation → World → Prop} {op}
    (h : ((history sampleConfig).restrict P).Reachable w) (hP : P w op (after w op))
    (hsome : ((op.program sampleConfig).eval (respond 0) w).isSome = true) :
    ((history sampleConfig).restrict P).Reachable (after w op) := by
  rcases Option.isSome_iff_exists.mp hsome with ⟨⟨_, u⟩, hu⟩
  have hafter : after w op = u := by
    unfold after
    rw [hu]
    rfl
  refine h.step (l := op) ⟨?_, hP⟩
  rw [hafter]
  exact .of_eval (answers_respond 0) hu

/-- One tile of 10 bytes. -/
def oneTile : World := after .empty (.Put Identity.plain (bytes 10) unlimited 1)

theorem put_smaller_outcome : oneTile.index.entries.length = 1 ∧
    PutRight sampleConfig Identity.plain (bytes 5) unlimited oneTile := by
  have hreach : ((history sampleConfig).restrict fun _ op _ => Plain op).Reachable oneTile :=
    reachable_after (.init rfl) (by decide : ':' ∉ Identity.plain.workspaceID) (by decide +kernel)
  refine ⟨by decide +kernel, ?_⟩
  refine (put_outcome_iff sampleConfig oneTile hreach Identity.plain (bytes 5) unlimited
    (by decide) ?_).mpr fun _ _ _ => ?_
  · unfold SameResource
    decide +kernel
  · unfold Fits
    decide +kernel

/-- Two tiles of 10 bytes. -/
def twoTiles : World := after oneTile (.Put neighbour (bytes 10) unlimited 1)

/-- With a quota of 15 bytes for the resource, a tile of 10 bytes is replaced by one of the same
size: it is stored, and 20 bytes are used. -/
theorem shrunk_over_quota : (history sampleConfig).Reachable twoTiles ∧
    ∃ u, Proc.Exec (Answers 0) twoTiles (Put sampleConfig 3 Identity.plain (bytes 10) ⟨0, 15⟩).run
      (.ok true) u ∧ (u.index.readyUsage fun i => i.workspaceID = Identity.plain.workspaceID ∧
        i.resourceID = Identity.plain.resourceID).1 = 20 ∧
      ¬ PutOutcome sampleConfig Identity.plain (bytes 10) ⟨0, 15⟩ twoTiles (.ok true) u := by
  have hone : ((history sampleConfig).restrict fun _ _ _ => True).Reachable oneTile :=
    reachable_after (.init rfl) trivial (by decide +kernel)
  have htwo : ((history sampleConfig).restrict fun _ _ _ => True).Reachable twoTiles :=
    reachable_after hone trivial (by decide +kernel)
  have hrun : (((Put sampleConfig 3 Identity.plain (bytes 10) ⟨0, 15⟩).run.eval (respond 0)
      twoTiles).map fun r => (r.1.toOption, (r.2.index.readyUsage fun i =>
        i.workspaceID = Identity.plain.workspaceID ∧
          i.resourceID = Identity.plain.resourceID).1)) = some (some true, 20) := by
    decide +kernel
  rcases Option.map_eq_some_iff.mp hrun with ⟨⟨r, u⟩, heval, hend⟩
  simp only [Prod.mk.injEq] at hend
  rcases hend with ⟨hr, husage⟩
  have hok : r = .ok true := by
    cases r with
    | ok => exact congrArg Except.ok (Option.some.inj hr)
    | error => cases hr
  subst hok
  refine ⟨htwo.of_restrict, u, .of_eval (answers_respond 0) heval, husage, ?_⟩
  intro houtcome
  have hle := (houtcome.within rfl).resource (by decide)
  rw [husage] at hle
  exact absurd hle (by decide)

end NeoServer.Tilecache
