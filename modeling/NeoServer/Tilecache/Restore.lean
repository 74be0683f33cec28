import Mathlib
import NeoServer.Tilecache.Quota

/-!
# Tilecache.Restore — a payload that the backend rejects

Before the payload of a tile is stored, its row is marked pending, and the usage of the tile that
it replaces is taken off. When the backend rejects the payload, `restore` puts the old row back
and adds its usage again. Usage is never let below zero, so this is the same as before only if as
much was recorded.

- `Rejecting` : the calls, with a backend that rejects payloads,
- `Restored` : the tile and the usage are as before the pending mark,
- `restored_iff` : the states in which they are,
- `usage_not_restored` : a run that leads to a state in which they are not.
-/

namespace NeoServer.Tilecache

open Proc Table List

/-- What `Put` does with the mutex before `store`. -/
def prepare (cfg : Config) (turns : Nat) (identity : Identity) (content : Content) (policy : Policy) :
    Op (Option Entry) := do
  let previous ← attempt .metadata (ask (.getReady identity.CanonicalKey))
  makeRoom cfg turns identity policy (growth content previous)
  return previous

/-- The calls of an operation when the backend rejects payloads and `restore` succeeds. -/
def Rejecting (w : World) : (c : Call) → Answer c → World → Prop
  | .blobPut _ _, a, w' => a = none ∧ w' = w
  | .restore previous pendingKey, a, w' =>
    a = some () ∧ w' = { w with index := w.index.restore previous pendingKey }
  | c, a, w' => Answers 0 w c a w'

/-- What is to be as it was in `v`, just before the entry was marked as pending. -/
structure Restored (entry : Entry) (v u : World) : Prop where
  row : get Row.key entry.cacheKey u.index.entries = get Row.key entry.cacheKey v.index.entries
  usage : ∀ scope ∈ entry.scopes, u.index.usageOf scope = v.index.usageOf scope
  retrievable : u.index.getReady entry.cacheKey = v.index.getReady entry.cacheKey
  blobs : u.blobs = v.blobs

section Restore

variable {w u v : World} {key : Str} {entry : Entry} {previous : Option Entry}

abbrev rejecting : Proc.Setting World Call Answer := .alone Rejecting fun _ _ => True

lemma wp_rejecting {c : Call} {Q : Answer c → World → Prop}
    (h : ∀ a u, Rejecting w c a u → Q a u) : rejecting.Wp (ask c) Q w := by
  rintro t rfl -
  exact ⟨trivial, fun a u hanswer => ⟨trivial, trivial, h a u hanswer⟩⟩

lemma getReady_remove (idx : Index) (h : entry.cacheKey ≠ key) :
    (idx.remove entry).getReady key = idx.getReady key := by
  unfold Index.getReady
  rw [entries_remove, delete, find?_filter]
  congr 2
  funext r
  by_cases hr : r.key = key
  · simp [hr, Ne.symm h]
  · simp [hr]

variable {cfg : Config} {turns : Nat} {identity : Identity} {content : Content} {policy : Policy}

/-- Only other tiles are evicted, so the previous entry is still ready at the pending mark. -/
lemma previous_eq
    (h : Proc.Exec Rejecting w (prepare cfg turns identity content policy).run (.ok previous) v) :
    v.index.getReady identity.CanonicalKey = previous := by
  have hwp : rejecting.Wp (prepare cfg turns identity content policy).run (post (fun _ _ => True)
      fun previous v => v.index.getReady identity.CanonicalKey = previous) w := by
    refine wp_attemptSeq (wp_rejecting ?_)
    rintro a t ⟨rfl, ha⟩
    refine ⟨fun previous hprevious => ?_, fun _ => trivial⟩
    refine wp_exceptSeq (wp_makeRoom (fun _ _ _ => trivial) (fun scope t ht => ?_) (fun type t ht => ?_)
      (eq_of_answer ha hprevious).symm) fun _ _ hu => wp_ok hu
    · exact wp_rejecting fun _ _ ha => ha.1 ▸ ht
    · refine wp_attempt (wp_rejecting ?_)
      rintro a t ⟨e, hlru, rfl, ha⟩
      refine ⟨fun candidate hcandidate => ⟨ht, ?_⟩, fun _ => trivial⟩
      rintro e rfl
      obtain ⟨r, -, rfl, hcovers, -⟩ := eq_of_answer ha hcandidate ▸ hlru
      refine wp_attempt (wp_rejecting fun a u hdelete => ⟨fun _ _ => ?_, fun _ => trivial⟩)
      rw [← (blobs_of_writes hdelete).1] at ht
      refine wp_attempt (wp_rejecting ?_)
      rintro a x (rfl | ⟨rfl, rfl⟩)
      · exact ⟨fun _ _ => (getReady_remove _ hcovers.2.1).trans ht, fun _ => trivial⟩
      · exact ⟨fun _ h => (by cases h), fun _ => trivial⟩
  have hpost := Proc.Exec.of_alone h hwp
  exact hpost

/-! ## The mark is taken back -/

lemma restore_of_exec
    (h : Proc.Exec Rejecting v (store entry content previous).run (.error .backend) u) :
    ∃ now, u = { v with
      index := (v.index.markPending now entry previous).restore previous entry.cacheKey } := by
  have hwp : rejecting.Wp (store entry content previous).run (post (fun e u => e = .backend →
      ∃ now, u = { v with index :=
        (v.index.markPending now entry previous).restore previous entry.cacheKey })
      fun _ _ => True) v := by
    refine wp_attemptSeq (wp_rejecting ?_)
    rintro a t ⟨now, rfl | ⟨rfl, rfl⟩⟩
    · refine ⟨fun _ _ => wp_callSeq (wp_rejecting ?_), fun _ h => by cases h⟩
      rintro stored t ⟨rfl, rfl⟩
      refine wp_callSeq (wp_rejecting ?_)
      rintro a t ⟨rfl, rfl⟩
      exact wp_throw fun _ => ⟨now, rfl⟩
    · exact ⟨fun _ h => (by cases h), fun _ h => by cases h⟩
  exact Proc.Exec.of_alone h hwp rfl

/-- The pending row is dropped, and the one that was ready is back. -/
lemma rows_restore (hkeyed : Table.Keyed Row.key v.index.entries) (now : Int)
    (hprevious : v.index.getReady entry.cacheKey = previous) {idx : Index}
    (hidx : idx = (v.index.markPending now entry previous).restore previous entry.cacheKey) :
    idx.getReady entry.cacheKey = previous ∧ (get Row.key entry.cacheKey idx.entries =
      get Row.key entry.cacheKey v.index.entries ↔
        ∀ r, get Row.key entry.cacheKey v.index.entries = some r → r.state = .ready) := by
  cases previous with
  | none =>
    have hentries : idx.entries = delete Row.key entry.cacheKey _ := congrArg Index.entries hidx
    unfold Index.getReady
    rw [hentries, get_delete_self]
    refine ⟨?_, ?_, ?_⟩
    · simp [delete, find?_eq_none]
      tauto
    · intro h r hr
      rw [hr] at h
      cases h
    · intro h
      cases hget : get Row.key entry.cacheKey v.index.entries with
      | none => rfl
      | some r =>
        obtain ⟨hmem, hkey⟩ := mem_of_get hget
        have hready := (getReady_eq_some hkeyed).mpr ⟨r, hmem, hkey, h r hget, rfl⟩
        rw [hprevious] at hready
        cases hready
  | some p =>
    obtain ⟨r, hr, hkey, hstate, rfl⟩ := (getReady_eq_some hkeyed).mp hprevious
    have hget := get_of_mem hkeyed hr
    have hentries : idx.entries = ⟨r.entry, .ready⟩ :: _ := congrArg Index.entries hidx
    have hback : get Row.key entry.cacheKey idx.entries = some ⟨r.entry, .ready⟩ := by
      rw [hentries]
      exact find?_cons_of_pos (decide_eq_true hkey)
    have hready : idx.getReady entry.cacheKey = some r.entry := by
      unfold Index.getReady
      rw [hentries]
      exact congrArg (Option.map Row.entry) (find?_cons_of_pos (decide_eq_true ⟨hkey, rfl⟩))
    rw [hkey] at hget
    rw [hback, hget, ← hstate]
    exact ⟨hready, fun _ x hx => Option.some.inj hx ▸ rfl, fun _ => rfl⟩

lemma usage_restore (now : Int) (scope : Scope) :
    ((v.index.markPending now entry previous).restore previous entry.cacheKey).usageOf scope =
      v.index.usageOf scope ↔ ∀ p ∈ previous, scope ∈ p.scopes →
        ∀ m ∈ Tally.record scope v.index.usage, 0 ≤ m ∧ (p.sizeBytes, 1) ≤ m := by
  cases previous with
  | none => exact ⟨fun _ => nofun, fun _ => rfl⟩
  | some p =>
    refine (Tally.recorded_adjust_back (d := (p.sizeBytes, (1 : ℤ))) p.scopes_nodup scope).trans ?_
    exact ⟨fun h q hq => Option.some.inj hq ▸ h, fun h => h p rfl⟩

end Restore

/-- After `Put` has failed since the backend rejected the payload, the tile and the usage are as
before the pending mark if and only if there was no pending row of the tile, and at least as much
recorded for every scope as the tile that was there counts. -/
theorem restored_iff (cfg : Config) (turns : Nat) (identity : Identity) (content : Content)
    (policy : Policy) (w v u : World) (previous : Option Entry)
    (hkeyed : Table.Keyed Row.key v.index.entries)
    (hprepare : Proc.Exec Rejecting w (prepare cfg turns identity content policy).run
      (.ok previous) v)
    (hstore : Proc.Exec Rejecting v (store (newEntry cfg identity content) content previous).run
      (.error .backend) u) :
    Restored (newEntry cfg identity content) v u ↔
      (∀ r, get Row.key identity.CanonicalKey v.index.entries = some r → r.state = .ready) ∧
        ∀ scope ∈ (newEntry cfg identity content).scopes, ∀ p ∈ previous, scope ∈ p.scopes →
          ∀ m ∈ Tally.record scope v.index.usage, 0 ≤ m ∧ (p.sizeBytes, 1) ≤ m := by
  have hprevious := previous_eq hprepare
  obtain ⟨now, rfl⟩ := restore_of_exec hstore
  obtain ⟨hready, hrow⟩ : _ ∧ (get Row.key (newEntry cfg identity content).cacheKey _ = _ ↔ _) :=
    rows_restore hkeyed now hprevious rfl
  constructor
  · intro h
    exact ⟨hrow.mp h.row, fun scope hscope => (usage_restore now scope).mp (h.usage scope hscope)⟩
  · rintro ⟨hstate, husage⟩
    refine ⟨hrow.mpr hstate, ?_, hready.trans hprevious.symm, rfl⟩
    exact fun scope hscope => (usage_restore now scope).mpr (husage scope hscope)

/-! ## Runs -/

/-- Nothing fails but the backend, which rejects payloads. -/
def respondRejecting (w : World) : (c : Call) → Option (Answer c × World)
  | .blobPut _ _ => some (none, w)
  | c => respond 0 w c

lemma rejecting_respond (w : World) (c : Call) (r : Answer c × World)
    (h : respondRejecting w c = some r) : Rejecting w c r.1 r.2 := by
  cases c with
  | blobPut | restore =>
    cases h
    exact ⟨rfl, rfl⟩
  | _ => exact answers_respond 0 w _ r h

/-- A tile of 10 bytes, with its usage. -/
def cached : World where
  index := ⟨[⟨newEntry sampleConfig Identity.plain (bytes 10), .ready⟩],
    (newEntry sampleConfig Identity.plain (bytes 10)).scopes.map fun scope => (scope, (10, 1))⟩
  blobs := []
  owner := none

lemma restored_cached : ∃ u, Restored (newEntry sampleConfig Identity.plain []) cached u := by
  refine ⟨_, (restored_iff sampleConfig 0 Identity.plain [] unlimited cached cached _ _
    (nodup_singleton _) (.of_eval rejecting_respond rfl) (.of_eval rejecting_respond rfl)).mpr ⟨?_, ?_⟩⟩
  · decide +kernel
  · decide +kernel

/-- `Get` reads the entry of a tile of 30 bytes, which is deleted and put again with 10. Another
one of 10 bytes is put, and then `Get` removes the first, and takes off 30 bytes. -/
def lostTurns : List (Pool.Turn Operation) :=
  putTurns 0 30 ++ [.start 1 (.Get Identity.plain), .call 1] ++ deleteTurns 0 ++ [.call 1] ++
    putTurns 0 10 ++ .start 0 (.Put neighbour (bytes 10) unlimited 1) ::
      replicate 8 (.call 0) ++ .finish 0 :: replicate 4 (.call 1) ++ [.finish 1]

/-- Nothing is recorded for the tile that is left. When its replacement is rejected, 10 bytes
are. -/
theorem usage_not_restored : ∃ p previous v u, (managerMachine sampleConfig).Reachable p ∧
    Proc.Exec Rejecting p.world (prepare sampleConfig 1 neighbour (bytes 5) unlimited).run
      (.ok previous) v ∧
    Proc.Exec Rejecting v
      (store (newEntry sampleConfig neighbour (bytes 5)) (bytes 5) previous).run
      (.error .backend) u ∧
    ¬ Restored (newEntry sampleConfig neighbour (bytes 5)) v u := by
  have hrun : ((runFrom World.empty lostTurns).bind fun p =>
      ((prepare sampleConfig 1 neighbour (bytes 5) unlimited).run.eval respondRejecting p.world).bind
        fun r => r.1.toOption.bind fun previous => ((store (newEntry sampleConfig neighbour (bytes 5))
          (bytes 5) previous).run.eval respondRejecting r.2).map fun s =>
            (match s.1 with | .error e => some e | .ok _ => none,
              r.2.index.usageOf .global, s.2.index.usageOf .global)) =
      some (some .backend, (0, 1), (10, 1)) := by
    decide +kernel
  obtain ⟨p, hp, hrun⟩ := Option.bind_eq_some_iff.mp hrun
  obtain ⟨⟨r, v⟩, hv, hrun⟩ := Option.bind_eq_some_iff.mp hrun
  obtain ⟨previous, hr, hrun⟩ := Option.bind_eq_some_iff.mp hrun
  obtain ⟨⟨s, u⟩, hu, hend⟩ := Option.map_eq_some_iff.mp hrun
  simp only [Prod.mk.injEq] at hend
  obtain ⟨hs, hbefore, hafter⟩ := hend
  cases r with
  | error => cases hr
  | ok =>
    cases hr
    cases s with
    | ok => cases hs
    | error =>
      cases hs
      have hreach : ((managerMachine sampleConfig).restrict fun p l _ =>
          Pool.Meets (fun _ => True) (fun _ _ _ => True) p l).Reachable p :=
        reachable_runFrom (fun _ _ _ => ⟨trivial, fun _ _ => trivial⟩) hp
      refine ⟨p, previous, v, u, hreach.of_restrict, .of_eval rejecting_respond hv,
        .of_eval rejecting_respond hu, fun h => ?_⟩
      have husage := h.usage .global (by simp [Entry.scopes])
      rw [hbefore, hafter] at husage
      exact absurd husage (by decide)

end NeoServer.Tilecache
