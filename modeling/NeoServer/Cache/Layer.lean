import Mathlib.Data.List.Nodup
import NeoServer.Cache.Stale
import NeoServer.Tilecache.Identity

/-!
# Cache.Layer — what the change of a layer invalidates

The registry calls `InvalidateLayer` when a layer has been updated or deleted. It invalidates
capabilities, collections, features and tiles of the workspace. Counts are also kept by workspace,
and are left.

- `Value` : the values that depend on a layer, with the keys that the handlers build,
- `LayerSound` : what has been invalidated when `InvalidateLayer` has returned,
- `layer_invalidated_iff` : the values that are not served again are all but the counts (and, for
  tiles of the tile engine, those of workspaces whose identifier has no colon),
- `count_served_again` : a count that is.
-/

namespace NeoServer.Cache

open Function List State

/-! ## The keys of the handlers -/

structure FeaturesParams where
  collection : Str
  limit : Int
  offset : Int
  bbox : Str
  bboxCRS : Str
  filter : Str
  filterLang : Str
  filterCRS : Str
  dateTime : Str
  crs : Str
  sortBy : Str
  properties : Str
deriving DecidableEq, Repr

structure TileParams where
  layers : Str
  crs : Str
  bbox : Str
  width : Int
  height : Int
  format : Str
  styles : Str
  transparent : Str
  bgColor : Str
  time : Str
  elevation : Str
deriving DecidableEq, Repr

section Keys

variable (codec : Codec) (workspace : Str)

def CapabilitiesKey (service : Str) : Str :=
  scopedKey codec "capabilities" workspace [service]

def CollectionsKey : Str := scopedKey codec "collections" workspace []

def FeaturesKey (p : FeaturesParams) : Str :=
  scopedKey codec "features" workspace
    [p.collection, decimal p.limit, decimal p.offset, p.bbox, p.bboxCRS, p.filter, p.filterLang,
      p.filterCRS, p.dateTime, p.crs, p.sortBy, p.properties]

def SingleFeatureKey (collection featureID crs : Str) : Str :=
  scopedKey codec "feature" workspace [collection, featureID, crs]

def TileKey (p : TileParams) : Str :=
  scopedKey codec "tiles" workspace
    [p.layers, p.crs, p.bbox, decimal p.width, decimal p.height, p.format, p.styles, p.transparent,
      p.bgColor, p.time, p.elevation]

def MVTTileKey (collection tileMatrixSet : Str) (z x y : Int) : Str :=
  scopedKey codec "mvt" workspace [collection, tileMatrixSet, decimal z, decimal x, decimal y]

end Keys

def canonicalMemoryKey (identity : Tilecache.Identity) : Str :=
  let first := if identity.tileType = "vector".toList then "mvt".toList else "maptile".toList
  first ++ ":" ++ identity.workspaceID ++ ":" ++ identity.CanonicalKey

/-- The values in the cache that depend on a layer. The extents of the layers are in the
collections. -/
inductive Value
  -- of WMS, WFS or WCS, with what the handlers put after the key: role and version
  | capabilities (service more : Str)
  | collections (role : Str)
  | page (params : FeaturesParams)
  | feature (collection featureID crs : Str)
  | count (params : FeaturesParams)
  | map (params : TileParams)
  | vectorTile (collection tileMatrixSet : Str) (z x y : Int)
  -- of the tile engine
  | tile (identity : Tilecache.Identity)

namespace Value

def kind : Value → CacheType
  | .capabilities _ _ => .capabilities
  | .collections _ => .collections
  | .page _ | .feature _ _ _ => .features
  | .count _ => .counts
  | .map _ | .vectorTile _ _ _ _ _ | .tile _ => .tiles

def key (codec : Codec) (workspaceID : Str) : Value → Str
  | .capabilities service more => CapabilitiesKey codec workspaceID service ++ more
  | .collections role => CollectionsKey codec workspaceID ++ "|role=" ++ role
  | .page params => FeaturesKey codec workspaceID params
  | .feature collection featureID crs => SingleFeatureKey codec workspaceID collection featureID crs
  | .count params => FeaturesKey codec workspaceID params ++ ":count"
  | .map params => TileKey codec workspaceID params
  | .vectorTile collection tileMatrixSet z x y =>
    MVTTileKey codec workspaceID collection tileMatrixSet z x y
  | .tile identity => canonicalMemoryKey { identity with workspaceID := workspaceID }

/-- The scope of the key is the workspace. -/
def Scoped (workspaceID : Str) : Value → Prop
  | .tile _ => ':' ∉ workspaceID
  | _ => True

/-- The older keys have the workspace up to its first colon. -/
lemma cacheScope_canonicalMemoryKey (codec : Codec) (identity : Tilecache.Identity) :
    cacheScope codec (canonicalMemoryKey identity) = (splitChar ':' identity.workspaceID).headD [] := by
  have hsplit : ∀ first : Str, ':' ∉ first →
      splitChar ':' (first ++ ":" ++ identity.workspaceID ++ ":" ++ identity.CanonicalKey) =
        first :: (splitChar ':' identity.workspaceID ++ splitChar ':' identity.CanonicalKey) := by
    intro first hfirst
    have hkey : first ++ ":" ++ identity.workspaceID ++ ":" ++ identity.CanonicalKey =
        first ++ ':' :: (identity.workspaceID ++ ':' :: identity.CanonicalKey) := by
      simp
    rw [hkey, splitChar_append_cons, splitChar_append_cons, splitChar_of_not_mem hfirst]
    rfl
  unfold cacheScope canonicalMemoryKey
  cases hparts : splitChar ':' identity.workspaceID with
  | nil => exact absurd hparts (splitChar_ne_nil ':' identity.workspaceID)
  | cons =>
    by_cases hvector : identity.tileType = "vector"
    · simp only [hvector, if_true]
      rw [hsplit _ (by decide), hparts]
      simp [keyPrefixes]
    · simp only [hvector, if_false]
      rw [hsplit _ (by decide), hparts]
      simp [keyPrefixes]

lemma cacheScope_key_iff (codec : Codec) (workspaceID : Str) (v : Value) :
    cacheScope codec (v.key codec workspaceID) = workspaceID ↔ v.Scoped workspaceID := by
  have hscoped : ∀ kind fields more,
      cacheScope codec (scopedKey codec kind workspaceID fields ++ more) = workspaceID :=
    fun kind fields more => cacheScope_scopedKey codec kind workspaceID fields more
  have hplain : ∀ kind fields, cacheScope codec (scopedKey codec kind workspaceID fields) = workspaceID := by
    intro kind fields
    simpa using hscoped kind fields []
  cases v with
  | tile identity =>
    show cacheScope codec (canonicalMemoryKey { identity with workspaceID := workspaceID }) = _ ↔ _
    rw [cacheScope_canonicalMemoryKey]
    constructor
    · intro hhead hcolon
      have hhead : (splitChar ':' workspaceID).headD [] = workspaceID := hhead
      cases hparts : splitChar ':' workspaceID with
      | nil => exact absurd hparts (splitChar_ne_nil ':' workspaceID)
      | cons part =>
        rw [hparts] at hhead
        have hpart : part ∈ splitChar ':' workspaceID := by simp [hparts]
        have hclean := not_mem_of_mem_splitChar hpart
        rw [show part = workspaceID from hhead] at hclean
        exact hclean hcolon
    · intro hcolon
      rw [splitChar_of_not_mem hcolon]
      rfl
  | capabilities | count => exact iff_of_true (hscoped _ _ _) trivial
  | collections =>
    refine iff_of_true ?_ trivial
    show cacheScope codec (scopedKey _ _ _ _ ++ _ ++ _) = _
    rw [append_assoc]
    exact hscoped _ _ _
  | _ => exact iff_of_true (hplain _ _) trivial

end Value

/-! ## What has been invalidated -/

/-- The kinds that `InvalidateLayer` invalidates are done, or are still to do. -/
structure LayerTimes (invalidating : Nat → Option Invalidation) (clock : Nat)
    (last : CacheType → Str → Nat) (lastOfLayer : Str → Nat) : Prop where
  begun : ∀ n i, invalidating n = some i → i.begun ≤ clock
  todo : ∀ n i, invalidating n = some i → i.ofLayer = true → ∀ kind, kind ≠ .counts →
    kind ∈ i.todo ∨ i.begun + 1 ≤ last kind i.scope
  done : ∀ workspaceID kind, kind ≠ .counts → lastOfLayer workspaceID ≤ last kind workspaceID

structure LayerSound (codec : Codec) (s : State) : Prop
    extends LayerTimes s.invalidating s.clock s.last s.lastOfLayer where
  calls : ∀ c call, s.calls c = some call → call.kind ≠ .counts →
    call.since (cacheScope codec call.key) ≤ call.cutoff
  answers : ∀ a ∈ s.answers, a.kind ≠ .counts → a.since (cacheScope codec a.key) ≤ a.cutoff

variable {codec : Codec} {cfg : Config} {s t : State}

section LayerSound

/-- A call goes on as it began. -/
structure Call.Same (call old : Call) : Prop where
  kind : call.kind = old.kind
  key : call.key = old.key
  cutoff : call.cutoff = old.cutoff
  since : call.since = old.since

lemma Call.same_refl (call : Call) : call.Same call := ⟨rfl, rfl, rfl, rfl⟩

lemma Call.same_of_miss {call call' : Call} (h : call.miss = some call') : call'.Same call := by
  unfold Call.miss at h
  split at h
  · cases h
  cases h
  exact ⟨rfl, rfl, rfl, rfl⟩

variable {call : Call} {l : Label}

lemma calls_of_setCall {c' : Nat} {v} {call' : Call} (hc' : s.calls c' = some call')
    (hv : ∀ call, v = some call → call.Same call') {c : Nat}
    (hcall : (s.setCall c' v).calls c = some call) : ∃ old, s.calls c = some old ∧ call.Same old := by
  rcases update_eq_some_iff.1 hcall with ⟨rfl, hnew⟩ | ⟨_, hold⟩
  · exact ⟨call', hc', hv call hnew⟩
  · exact ⟨call, hold, call.same_refl⟩

/-- The calls after a step were there, or have begun. -/
lemma calls_step (h : Step codec cfg s l t) {c : Nat} (hcall : t.calls c = some call) :
    (∃ old, s.calls c = some old ∧ call.Same old) ∨
      (call.cutoff = s.last call.kind (cacheScope codec call.key) ∧ call.since = s.lastOfLayer) := by
  have hsame : s.calls c = some call → ∃ old, s.calls c = some old ∧ call.Same old :=
    fun hold => ⟨call, hold, call.same_refl⟩
  have hnew : ∀ (u : State) (c' : Nat) (new : Call), u.calls = s.calls →
      (u.setCall c' (some new)).calls c = some call →
      new.cutoff = s.last new.kind (cacheScope codec new.key) ∧ new.since = s.lastOfLayer →
      (∃ old, s.calls c = some old ∧ call.Same old) ∨
        (call.cutoff = s.last call.kind (cacheScope codec call.key) ∧ call.since = s.lastOfLayer) := by
    intro u c' new hu hset hbegun
    rcases update_eq_some_iff.1 hset with ⟨rfl, heq⟩ | ⟨_, hold⟩
    · cases heq
      exact .inr hbegun
    · exact .inl (hsame (hu ▸ hold))
  cases h with
  | beginFill =>
    rw [State.BeginFill_frame] at hcall
    exact .inl (hsame hcall)
  | set | fill =>
    rw [set_frame] at hcall
    exact .inl (hsame hcall)
  | get => exact hnew s _ _ rfl hcall ⟨rfl, rfl⟩
  | load =>
    refine hnew _ _ _ ?_ hcall ⟨rfl, rfl⟩
    rw [State.BeginFill_frame]
  | find hc | join hc =>
    refine .inl (calls_of_setCall hc ?_ hcall)
    rintro call' ⟨⟩
    exact ⟨rfl, rfl, rfl, rfl⟩
  | miss hc | ended hc => exact .inl (calls_of_setCall hc (fun _ hm => Call.same_of_miss hm) hcall)
  | hit hc | abandon hc | answer hc =>
    exact .inl (calls_of_setCall hc (fun _ hm => by cases hm) hcall)
  | failed => exact .inl (hsame (Option.filter_eq_some_iff.mp hcall).1)
  | complete =>
    rcases Option.map_eq_some_iff.mp hcall with ⟨old, hold, rfl⟩
    refine .inl ⟨old, hold, ?_⟩
    split
    · exact ⟨rfl, rfl, rfl, rfl⟩
    · exact old.same_refl
  | invalidate =>
    rw [State.Invalidate_frame] at hcall
    exact .inl (hsame hcall)
  | _ => exact .inl (hsame hcall)

lemma answers_step (h : Step codec cfg s l t) {a : Answer} (ha : a ∈ t.answers) :
    a ∈ s.answers ∨ ∃ c call result, s.calls c = some call ∧ a = call.answer result := by
  cases h with
  | beginFill | load =>
    rw [State.BeginFill_frame] at ha
    exact .inl ha
  | set | fill =>
    rw [set_frame] at ha
    exact .inl ha
  | hit hc | answer hc =>
    rcases mem_cons.mp ha with rfl | ha
    · exact .inr ⟨_, _, _, hc, rfl⟩
    · exact .inl ha
  | invalidate =>
    rw [State.Invalidate_frame] at ha
    exact .inl ha
  | _ => exact .inl ha

/-- No step changes what a call began with. -/
lemma LayerSound.step (h : LayerSound codec s) (hstep : Step codec cfg s l t)
    (htimes : LayerTimes t.invalidating t.clock t.last t.lastOfLayer) : LayerSound codec t where
  toLayerTimes := htimes
  calls := by
    intro c call hcall hkind
    rcases calls_step hstep hcall with ⟨old, hold, hsame⟩ | ⟨hcutoff, hsince⟩
    · rw [hsame.cutoff, hsame.since, hsame.key]
      exact h.calls c old hold (hsame.kind ▸ hkind)
    · rw [hcutoff, hsince]
      exact h.done _ _ hkind
  answers := by
    intro a ha hkind
    rcases answers_step hstep ha with hold | ⟨c, call, result, hcall, rfl⟩
    · exact h.answers a hold hkind
    · exact h.calls c call hcall hkind

variable {invalidating : Nat → Option Invalidation} {clock : Nat} {last : CacheType → Str → Nat}
  {lastOfLayer : Str → Nat}

/-- Invalidations: time goes on. -/
lemma LayerTimes.returned (h : LayerTimes invalidating clock last lastOfLayer)
    (hpast : ∀ kind scope, last kind scope ≤ clock) (p : CacheType → Str → Bool) :
    LayerTimes invalidating (clock + 1)
      (fun kind scope => if p kind scope then clock + 1 else last kind scope) lastOfLayer := by
  have hle : ∀ kind scope, last kind scope ≤ if p kind scope then clock + 1 else last kind scope := by
    intro kind scope
    split
    · exact le_trans (hpast kind scope) (Nat.le_succ _)
    · exact le_rfl
  refine ⟨fun n i hi => le_trans (h.begun n i hi) (Nat.le_succ _), ?_, ?_⟩
  · intro n i hi hof kind hkind
    exact (h.todo n i hi hof kind hkind).imp_right fun hdone => le_trans hdone (hle kind i.scope)
  · intro workspaceID kind hkind
    exact le_trans (h.done workspaceID kind hkind) (hle kind workspaceID)

/-- A call of `InvalidateLayer` or of another invalidation. -/
lemma LayerTimes.set (h : LayerTimes invalidating clock last lastOfLayer) (n : Nat)
    (v : Option Invalidation)
    (hv : ∀ i, v = some i → i.begun ≤ clock ∧ (i.ofLayer = true → ∀ kind, kind ≠ .counts →
      kind ∈ i.todo ∨ i.begun + 1 ≤ last kind i.scope)) :
    LayerTimes (update invalidating n v) clock last lastOfLayer := by
  have hcases : ∀ m i, update invalidating n v m = some i →
      i.begun ≤ clock ∧ (i.ofLayer = true → ∀ kind, kind ≠ .counts →
        kind ∈ i.todo ∨ i.begun + 1 ≤ last kind i.scope) := by
    intro m i hi
    rcases update_eq_some_iff.1 hi with ⟨rfl, hnew⟩ | ⟨_, hold⟩
    · exact hv i hnew
    · exact ⟨h.begun m i hold, h.todo m i hold⟩
  exact { h with begun := fun m i hi => (hcases m i hi).1, todo := fun m i hi => (hcases m i hi).2 }

lemma layer_step (h : LayerSound codec s) (hpast : ∀ kind scope, s.last kind scope ≤ s.clock)
    (hstep : Step codec cfg s l t) : LayerSound codec t := by
  refine h.step hstep ?_
  have h := h.toLayerTimes
  cases hstep with
  | beginFill | load =>
    rw [State.BeginFill_frame]
    exact h
  | set | fill =>
    rw [set_frame]
    exact h
  | invalidateOne | invalidateWorkspace =>
    refine h.set _ _ ?_
    rintro i ⟨⟩
    exact ⟨le_rfl, nofun⟩
  | invalidateLayer =>
    refine h.set _ _ ?_
    rintro i ⟨⟩
    refine ⟨le_rfl, fun _ kind hkind => .inl ?_⟩
    cases kind <;> simp_all [InvalidateLayer]
  | @invalidate n i kind rest hn htodo =>
    rw [State.Invalidate_frame]
    have hreturned := h.returned hpast fun k σ => k = kind ∧ σ = i.scope
    refine hreturned.set n _ ?_
    rintro i' ⟨⟩
    refine ⟨hreturned.begun n i hn, ?_⟩
    intro hof kind' hkind
    rcases hreturned.todo n i hn hof kind' hkind with hmem | hdone
    · rw [htodo] at hmem
      rcases mem_cons.mp hmem with rfl | hrest
      · -- this one has just been done
        have hbegun := h.begun n i hn
        right
        simp
        omega
      · exact .inl hrest
    · exact .inr hdone
  | @endInvalidation n i hn htodo =>
    have hended := h.set n none (by rintro i' ⟨⟩)
    refine { hended with done := ?_ }
    intro workspaceID kind hkind
    show (if i.ofLayer then
        update s.lastOfLayer i.scope (max (s.lastOfLayer i.scope) (i.begun + 1))
      else s.lastOfLayer) workspaceID ≤ s.last kind workspaceID
    split
    · rename_i hof
      have hlast : i.begun + 1 ≤ s.last kind i.scope := by
        rcases h.todo n i hn hof kind hkind with hmem | hdone
        · rw [htodo] at hmem
          exact absurd hmem not_mem_nil
        · exact hdone
      by_cases hscope : workspaceID = i.scope
      · subst hscope
        rw [update_self]
        exact max_le (h.done _ kind hkind) hlast
      · rw [update_of_ne hscope]
        exact h.done workspaceID kind hkind
    · exact h.done workspaceID kind hkind
  | clear p => exact h.returned hpast fun k _ => p k
  | _ => exact h

lemma layer_of_reachable (h : (machine codec cfg).Reachable s) : LayerSound codec s := by
  have hboth : (∀ kind scope, s.last kind scope ≤ s.clock) ∧ LayerSound codec s := by
    refine Machine.Reachable.induct
      (I := fun s => (∀ kind scope, s.last kind scope ≤ s.clock) ∧ LayerSound codec s) ?_ ?_ h
    · rintro s rfl
      refine ⟨fun _ _ => le_rfl, ⟨?_, ?_, fun _ _ _ => le_rfl⟩, ?_, ?_⟩
      · rintro n i ⟨⟩
      · rintro n i ⟨⟩
      · rintro c call ⟨⟩
      · intro a ha
        exact absurd ha not_mem_nil
    · rintro s l t _ ⟨hpast, hlayer⟩ hstep
      exact ⟨past_step hpast hstep, layer_step hlayer hpast hstep⟩
  exact hboth.2

end LayerSound

/-! ## A manager that is switched off -/

/-- Nothing of the cache. -/
def CallPhase.Cold : CallPhase → Prop
  | .holding _ => False
  | .delivered result => result.hit = false
  | _ => True

def FlightPhase.Cold : FlightPhase → Prop
  | .holding _ => False
  | .filled result => result.hit = false
  | _ => True

structure Cold (s : State) : Prop where
  cached : s.cached = []
  buffered : s.buffered = []
  calls : ∀ c call, s.calls c = some call → call.phase.Cold
  flights : ∀ k f, s.flights k = some f → f.phase.Cold
  answers : ∀ a ∈ s.answers, a.result.hit = false

section Cold

lemma Cold.setCall (h : Cold s) {c : Nat} {v}
    (hv : ∀ call, v = some call → call.phase.Cold) : Cold (s.setCall c v) := by
  refine { h with calls := ?_ }
  intro c' call hcall
  rcases update_eq_some_iff.1 hcall with ⟨rfl, hnew⟩ | ⟨_, hold⟩
  · exact hv call hnew
  · exact h.calls c' call hold

lemma Cold.setFlight (h : Cold s) {k} {v}
    (hv : ∀ f, v = some f → f.phase.Cold) : Cold (s.setFlight k v) := by
  refine { h with flights := ?_ }
  intro k' f hf
  rcases update_eq_some_iff.1 hf with ⟨rfl, hnew⟩ | ⟨_, hold⟩
  · exact hv f hnew
  · exact h.flights k' f hold

lemma Cold.dropCall (h : Cold s) (c : Nat) : Cold (s.setCall c none) := by
  refine h.setCall ?_
  intro call hcall
  cases hcall

lemma Cold.dropFlight (h : Cold s) (k : FlightKey) : Cold (s.setFlight k none) := by
  refine h.setFlight ?_
  intro f hf
  cases hf

lemma cold_of_miss {call call' : Call} (h : call.miss = some call') : call'.phase.Cold := by
  unfold Call.miss at h
  split at h
  · cases h
  cases h
  trivial

lemma set_of_disabled (hdisabled : cfg.enabled = false) (kind : CacheType) (key value : Str) (ttl : Int)
    (token : Option FillToken) (accepted : Bool) :
    s.set codec cfg kind key value ttl token accepted = s := by
  unfold State.set
  split
  · rfl
  · rw [if_pos]
    left
    simp [Config.serves, hdisabled]

lemma cold_step (hdisabled : cfg.enabled = false) {l : Label} (h : Cold s)
    (hstep : Step codec cfg s l t) : Cold t := by
  have hserves : ∀ kind, cfg.serves kind ≠ true := by
    intro kind
    simp [Config.serves, hdisabled]
  cases hstep with
  | beginFill =>
    rw [State.BeginFill_frame]
    exact { h with }
  | set =>
    rw [set_of_disabled hdisabled]
    exact h
  | settle he =>
    rw [h.buffered] at he
    exact absurd he not_mem_nil
  | exit => exact { h with cached := by simp [h.cached], buffered := by simp [h.buffered] }
  | get =>
    refine h.setCall ?_
    rintro call ⟨⟩
    trivial
  | load kind key =>
    rw [State.BeginFill_frame]
    have hbegun : Cold { s with epochs := (s.BeginFill kind (cacheScope codec key)).epochs,
                                generation := (s.BeginFill kind (cacheScope codec key)).generation,
                                tokens := (s.BeginFill kind (cacheScope codec key)).tokens } :=
      { h with }
    refine hbegun.setCall ?_
    rintro call ⟨⟩
    trivial
  | find hcall hphase hon | findFlight hf hphase hon => exact absurd hon (hserves _)
  | miss | ended => exact h.setCall fun _ hmiss => cold_of_miss hmiss
  | hit hcall hphase =>
    have hcold := h.calls _ _ hcall
    rw [hphase] at hcold
    exact hcold.elim
  | @join c call tok ttl =>
    let k := flightKey cfg c call.kind call.key tok
    let flight : Flight := ⟨call.kind, call.key, ttl, tok, .looking⟩
    have hset : Cold (s.setCall c (some { call with phase := CallPhase.waiting k })) := by
      refine h.setCall ?_
      rintro call' ⟨⟩
      trivial
    have hnew : Cold (s.setFlight k (some flight)) := by
      refine h.setFlight ?_
      rintro f' ⟨⟩
      trivial
    refine { hset with flights := ?_ }
    intro k' f hf
    have hf : joinFlight cfg s.flights k flight k' = some f := hf
    unfold joinFlight at hf
    split at hf
    · exact h.flights k' f hf
    · exact hnew.flights k' f hf
  | abandon => exact h.dropCall _
  | @answer c call result hcall hphase =>
    have hcold := h.calls _ _ hcall
    rw [hphase] at hcold
    have hset := h.dropCall c
    refine { hset with answers := ?_ }
    exact forall_mem_cons.mpr ⟨hcold, h.answers⟩
  | missFlight | endedFlight | loaded =>
    refine h.setFlight ?_
    rintro f ⟨⟩
    trivial
  | hitFlight hf hphase =>
    have hcold := h.flights _ _ hf
    rw [hphase] at hcold
    exact hcold.elim
  | @failed k =>
    have hset := h.dropFlight k
    exact { hset with calls := fun c call hcall => h.calls c call (Option.filter_eq_some_iff.mp hcall).1 }
  | fill =>
    rw [set_of_disabled hdisabled]
    refine h.setFlight ?_
    rintro f ⟨⟩
    rfl
  | @complete k f result hf hphase =>
    have hcold := h.flights _ _ hf
    rw [hphase] at hcold
    have hset := h.dropFlight k
    refine { hset with calls := ?_ }
    intro c call hcall
    rcases Option.map_eq_some_iff.mp hcall with ⟨old, hold, rfl⟩
    split
    · exact hcold
    · exact h.calls c old hold
  | @invalidate =>
    unfold State.Invalidate
    split
    · exact { h with }
    · exact { h with cached := by simp [returned, invalidateScope, h.cached] }
  | clear => exact { h with cached := by simp [returned, clear, h.cached] }
  | _ => exact { h with }

lemma cold_of_reachable (hdisabled : cfg.enabled = false) (h : (machine codec cfg).Reachable s) :
    Cold s := by
  refine Machine.Reachable.induct (I := Cold) ?_ ?_ h
  · rintro s rfl
    refine ⟨rfl, rfl, ?_, ?_, ?_⟩
    · rintro c call ⟨⟩
    · rintro k f ⟨⟩
    · intro a ha
      exact absurd ha not_mem_nil
  · intro s l t _ hcold hstep
    exact cold_step hdisabled hcold hstep

end Cold

/-! ## What is left -/

/-- The only entry there is. -/
structure Kept (e : CacheEntry) (s : State) : Prop where
  cached : e ∈ s.cached
  current : e.token.epoch ∉ s.invalidated
  epochs : ∀ row ∈ s.epochs, row.slot = (e.kind, e.scope)
  keys : ∀ k ∈ s.keys, k.kind = e.kind ∧ k.scope = e.scope

section Kept

variable {e : CacheEntry}

/-- Nothing of another kind or scope is there to be invalidated. -/
lemma Kept.invalidate {s : State} (h : Kept e s) {kind} {scope : Str}
    (hother : (kind, scope) ≠ (e.kind, e.scope)) : Kept e (s.Invalidate cfg kind scope) := by
  have hepochs : ∀ row ∈ s.epochs, ¬ (row.kind = kind ∧ row.scope = scope) := by
    rintro row hrow ⟨rfl, rfl⟩
    exact hother (h.epochs row hrow)
  have hkeys : ∀ k ∈ s.keys, ¬ (k.kind = kind ∧ k.scope = scope) := by
    rintro k hk ⟨rfl, rfl⟩
    exact hother (Prod.ext (h.keys k hk).1 (h.keys k hk).2)
  unfold State.Invalidate
  split
  · exact h
  refine ⟨?_, ?_, ?_, ?_⟩
  · refine mem_filter.mpr ⟨h.cached, ?_⟩
    simp only [decide_eq_true_eq]
    rintro ⟨_, k, hk, _⟩
    rcases mem_filter.mp hk with ⟨hk, hscope⟩
    exact hkeys k hk (by simpa using hscope)
  · intro hended
    rcases mem_append.mp hended with hnew | hold
    · rcases mem_map.mp hnew with ⟨row, hrow, _⟩
      rcases mem_filter.mp hrow with ⟨hrow, hscope⟩
      exact hepochs row hrow (by simpa using hscope)
    · exact h.current hold
  · intro row hrow
    exact h.epochs row (mem_filter.mp hrow).1
  · intro k hk
    exact h.keys k (mem_filter.mp hk).1

/-- The kinds of an invalidation, one after the other. -/
lemma reach_invalidated {n : Nat} (kinds : List CacheType) :
    ∀ {s : State} {i}, (machine codec cfg).Reachable s → s.invalidating n = some i →
      i.todo = kinds → (∀ kind ∈ kinds, (kind, i.scope) ≠ (e.kind, e.scope)) → Kept e s →
      ∃ t, (machine codec cfg).Reachable t ∧ t.invalidating n = some { i with todo := [] } ∧ Kept e t ∧
        t.calls = s.calls := by
  induction kinds with
  | nil =>
    intro s i hs hn htodo _ hkept
    refine ⟨s, hs, ?_, hkept, rfl⟩
    rw [hn, ← htodo]
  | cons kind rest ih =>
    intro s i hs hn htodo hother hkept
    have hnext := hs.step (Step.invalidate hn htodo)
    have hstill : Kept e (s.Invalidate cfg kind i.scope) :=
      hkept.invalidate (hother kind mem_cons_self)
    have hn' : update s.invalidating n (some { i with todo := rest }) n =
        some { i with todo := rest } := update_self ..
    rcases ih hnext hn' rfl (fun k hk => hother k (mem_cons_of_mem _ hk))
      { hstill with } with ⟨t, ht, hdone, hkept, hcalls⟩
    refine ⟨t, ht, hdone, hkept, ?_⟩
    rw [hcalls, State.Invalidate_frame]
    rfl

/-- Everything is cached. -/
def servesAll : Config where
  enabled := true
  fillCoalescingEnabled := true
  kinds _ := ⟨true, 60, 0⟩

/-- A value is stored. -/
lemma reach_kept (codec : Codec) (key : Str) (kind : CacheType) :
    ∃ s e, (machine codec servesAll).Reachable s ∧ Kept e s ∧ e.kind = kind ∧ e.key = key ∧
      e.scope = cacheScope codec key ∧ e.token.taken = 0 ∧
      s.calls = empty.calls ∧ s.invalidating = empty.invalidating := by
  let tok : FillToken := ⟨kind, cacheScope codec key, 1, 0, 0⟩
  let e : CacheEntry := ⟨kind, key, cacheScope codec key, [], tok, 2⟩
  let s1 := empty.BeginFill kind (cacheScope codec key)
  have h0 : (machine codec servesAll).Reachable empty := .init rfl
  have h1 : (machine codec servesAll).Reachable s1 := h0.step (Step.beginFill kind key)
  have htoken : ∀ t ∈ some tok, t ∈ s1.tokens := by
    rintro t ⟨⟩
    exact mem_cons_self
  have haccepts : ¬ s1.Refuses codec servesAll kind key [] 1 tok := by
    have httl : servesAll.entryTTL kind 1 = 1 ∨ servesAll.entryTTL kind 1 = 60 := by
      cases kind <;> simp [Config.entryTTL, servesAll]
    have hlimit : servesAll.entryLimit kind = 0 := by
      cases kind <;> simp [Config.entryLimit, servesAll]
    rintro (hserves | hshort | hlarge | hkind | hscope | hended)
    · exact absurd hserves (by simp [Config.serves, servesAll])
    · omega
    · omega
    · exact hkind rfl
    · exact hscope rfl
    · exact absurd hended not_mem_nil
  have hset : s1.set codec servesAll kind key [] 1 (some tok) true =
      { s1 with generation := 2, keys := track e [], buffered := [e] } := by
    simp only [State.set, haccepts, if_false, if_true]
    rfl
  have h2 := h1.step (Step.set kind key [] 1 true htoken)
  rw [hset] at h2
  have h3 := h2.step (Step.settle mem_cons_self)
  refine ⟨_, e, h3, ⟨mem_singleton.mpr rfl, not_mem_nil, ?_, ?_⟩, rfl, rfl, rfl, rfl, rfl, rfl⟩
  · intro row hrow
    cases mem_singleton.mp hrow
    rfl
  · intro k hk
    have hk : k ∈ track e [] := hk
    unfold track at hk
    split at hk
    · exact absurd hk not_mem_nil
    · cases mem_singleton.mp hk
      exact ⟨rfl, rfl⟩

/-- It is found after `InvalidateLayer`. -/
lemma served_again (codec : Codec) (workspaceID key : Str) (kind : CacheType)
    (hleft : kind = .counts ∨ cacheScope codec key ≠ workspaceID) :
    ∃ s, (machine codec servesAll).Reachable s ∧ ∃ a ∈ s.answers, a.kind = kind ∧ a.key = key ∧
      a.result.hit = true ∧ a.result.born < a.since workspaceID := by
  rcases reach_kept codec key kind with ⟨s, e, hs, hkept, rfl, rfl, hscope, htaken, hcalls, hidle⟩
  have hfree : s.invalidating 0 = none := by
    rw [hidle]
    rfl
  have h1 := hs.step (Step.invalidateLayer workspaceID [] hfree)
  have hother : ∀ kind ∈ (InvalidateLayer workspaceID [] s.clock).todo,
      (kind, workspaceID) ≠ (e.kind, e.scope) := by
    intro kind hkind heq
    have hkind' : kind = e.kind := congrArg Prod.fst heq
    have hscope' : workspaceID = e.scope := congrArg Prod.snd heq
    rcases hleft with hcounts | hscoped
    · rw [hkind', hcounts] at hkind
      simp [InvalidateLayer] at hkind
    · exact hscoped (hscope.symm.trans hscope'.symm)
  rcases reach_invalidated _ h1 (update_self ..) rfl hother { hkept with } with
    ⟨t, ht, hdone, hkept, hsame⟩
  have h2 := ht.step (Step.endInvalidation hdone rfl)
  have hnocall : t.calls 0 = none := by
    rw [hsame]
    exact congrFun hcalls 0
  have h3 := h2.step (Step.get e.kind e.key hnocall)
  have hserves : servesAll.serves e.kind = true := rfl
  have h4 := h3.step (Step.find (calls_setCall _ _ _) rfl hserves hkept.cached ⟨rfl, rfl⟩)
  have h5 := h4.step (Step.hit (calls_setCall _ _ _) rfl hkept.current)
  refine ⟨_, h5, _, mem_cons_self, rfl, rfl, rfl, ?_⟩
  show e.token.taken < update t.lastOfLayer workspaceID
    (max (t.lastOfLayer workspaceID) (s.clock + 1)) workspaceID
  rw [update_self, htaken]
  omega

end Kept

/-- No hit is older than the last `InvalidateLayer` of the workspace that had returned before the
call: so it is for all but counts, and but tiles of a workspace with a colon in its identifier. -/
theorem layer_invalidated_iff (codec : Codec) (workspaceID : Str) (v : Value) :
    (∀ cfg s, (machine codec cfg).Reachable s → ∀ a ∈ s.answers, a.kind = v.kind →
      a.key = v.key codec workspaceID → a.result.hit = true → a.since workspaceID ≤ a.result.born) ↔
    v.kind ≠ .counts ∧ v.Scoped workspaceID := by
  rw [← v.cacheScope_key_iff codec workspaceID]
  constructor
  · intro hall
    by_contra hnot
    have hleft : v.kind = .counts ∨ cacheScope codec (v.key codec workspaceID) ≠ workspaceID := by
      rcases not_and_or.mp hnot with hkind | hscope
      · exact .inl (not_not.mp hkind)
      · exact .inr hscope
    rcases served_again codec workspaceID (v.key codec workspaceID) v.kind hleft with
      ⟨s, hs, a, ha, hkind, hkey, hhit, hold⟩
    have hnew := hall servesAll s hs a ha hkind hkey hhit
    omega
  · rintro ⟨hcounts, hscope⟩ cfg s hs a ha hkind hkey hhit
    cases henabled : cfg.enabled with
    | true =>
      have hbefore := (layer_of_reachable hs).answers a ha (hkind ▸ hcounts)
      rw [hkey, hscope] at hbefore
      exact le_trans hbefore ((tracks_of_enabled henabled hs).2.answers a ha)
    | false =>
      have hcold := (cold_of_reachable henabled hs).answers a ha
      rw [hhit] at hcold
      cases hcold

/-- The number of features of a page, of a workspace. -/
def pageCount : Value :=
  .count ⟨"roads", 10, 0, [], [], [], [], [], [], [], [], []⟩

theorem count_served_again :
    ∃ s, (machine pairCodec servesAll).Reachable s ∧ ∃ a ∈ s.answers, a.kind = pageCount.kind ∧
      a.key = pageCount.key pairCodec "w" ∧ a.result.hit = true ∧
      a.result.born < a.since "w" :=
  served_again pairCodec "w" (pageCount.key pairCodec "w") pageCount.kind (.inl rfl)

end NeoServer.Cache
