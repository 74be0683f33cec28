import Mathlib.Logic.Function.Basic
import NeoServer.Cache.Keys
import NeoServer.Machine
import NeoServer.Table

/-!
# Cache.Manager — the in-memory cache

A fill token holds the epoch of its cache type and scope. Whoever wants to store a value takes a
token before it reads the data; invalidation ends the epoch, and a value whose token is of an epoch
that has ended is neither stored nor returned. Loads of one key that are under way are shared.

The caches themselves are a library that may drop an entry at any time and that shows an entry some
time after it was set, even if it was deleted in between.

- `State` : the manager, the calls and loads under way, and, for the proofs only, how many
  invalidations there have been when a token was taken,
- `BeginFill`, `set`, `invalidateEpochs`, `invalidateScope` : as in the source,
- `Step` : the steps of `Get`, `Set`, `Load` and of the invalidations, in any order,
- `Answer` : what `Get` and `Load` return.
-/

namespace NeoServer.Cache

open Function

structure KindConfig where
  enabled : Bool
  ttl : Int
  maxEntrySize : Int
deriving DecidableEq, Repr

structure Config where
  enabled : Bool
  fillCoalescingEnabled : Bool
  kinds : CacheType → KindConfig

namespace Config

/-- Whether `Get` and `Set` do anything. -/
def serves (cfg : Config) (kind : CacheType) : Bool := cfg.enabled && (cfg.kinds kind).enabled

/-- How long an entry is kept, if the caller asks for `ttl`. -/
def entryTTL (cfg : Config) (kind : CacheType) (ttl : Int) : Int :=
  match kind with
  | .capabilities | .collections => if 0 < ttl then ttl else (cfg.kinds kind).ttl
  | .features | .tiles => if ttl = 0 then (cfg.kinds kind).ttl else ttl
  | .counts => (cfg.kinds kind).ttl

def entryLimit (cfg : Config) (kind : CacheType) : Int :=
  if kind = .counts then 0 else (cfg.kinds kind).maxEntrySize

end Config

/-- An epoch, in the map of the epochs. -/
structure EpochRow where
  kind : CacheType
  scope : Str
  id : Nat
  -- the invalidations before it began
  birth : Nat
deriving DecidableEq, Repr

def EpochRow.slot (row : EpochRow) : CacheType × Str := (row.kind, row.scope)

structure FillToken where
  kind : CacheType
  scope : Str
  epoch : Nat
  birth : Nat
  -- the invalidations before it was taken
  taken : Nat
deriving DecidableEq, Repr

def FillToken.row (t : FillToken) : EpochRow := ⟨t.kind, t.scope, t.epoch, t.birth⟩

structure CacheEntry where
  kind : CacheType
  key : Str
  scope : Str
  value : Str
  token : FillToken
  generation : Nat
deriving DecidableEq, Repr

def CacheEntry.slot (e : CacheEntry) : CacheType × Str := (e.kind, e.key)

/-- A key in the index that invalidation uses. -/
structure TrackedKey where
  kind : CacheType
  scope : Str
  key : Str
  generation : Nat
deriving DecidableEq, Repr

def TrackedKey.slot (k : TrackedKey) : CacheType × Str × Str := (k.kind, k.scope, k.key)

def track (e : CacheEntry) (keys : List TrackedKey) : List TrackedKey :=
  if e.scope = [] then keys
  else Table.put TrackedKey.slot ⟨e.kind, e.scope, e.key, e.generation⟩ keys

def untrack (e : CacheEntry) (keys : List TrackedKey) : List TrackedKey :=
  if e.scope = [] then keys
  else keys.filter fun k => k ≠ ⟨e.kind, e.scope, e.key, e.generation⟩

/-- A load that others may share, or that of a single call. -/
inductive FlightKey
  | shared (key : Str)
  | own (call : Nat)
deriving DecidableEq, Repr

/-- A value on its way to a caller, with what was known when its fill began. -/
structure Loaded where
  value : Str
  born : Nat
  -- from the cache
  hit : Bool
deriving DecidableEq, Repr

inductive FlightPhase
  | looking
  | holding (entry : CacheEntry)
  | loading
  | loaded (value : Str)
  | filled (result : Loaded)
deriving DecidableEq, Repr

/-- The function `load` of a load, under way. -/
structure Flight where
  kind : CacheType
  key : Str
  ttl : Int
  token : FillToken
  phase : FlightPhase
deriving DecidableEq, Repr

inductive CallPhase
  | looking
  | holding (entry : CacheEntry)
  | missed
  | waiting (flight : FlightKey)
  | delivered (result : Loaded)
deriving DecidableEq, Repr

/-- A call of `Get`, or of `Load` with its token. -/
structure Call where
  kind : CacheType
  key : Str
  fill : Option (FillToken × Int)
  phase : CallPhase
  -- the last invalidation of its kind and scope, and of each workspace's layers, before it
  cutoff : Nat
  since : Str → Nat

structure Answer where
  kind : CacheType
  key : Str
  result : Loaded
  cutoff : Nat
  since : Str → Nat

/-- A call that invalidates several kinds, one after the other. -/
structure Invalidation where
  scope : Str
  todo : List CacheType
  ofLayer : Bool
  begun : Nat
deriving DecidableEq, Repr

structure State where
  epochs : List EpochRow
  invalidated : List Nat
  generation : Nat
  keys : List TrackedKey
  -- accepted by the caches, and shown by them
  buffered : List CacheEntry
  cached : List CacheEntry
  calls : Nat → Option Call
  flights : FlightKey → Option Flight
  invalidating : Nat → Option Invalidation
  -- all that have been taken
  tokens : List FillToken
  -- the invalidations so far, and which was the last of a kind and scope
  clock : Nat
  last : CacheType → Str → Nat
  lastOfLayer : Str → Nat
  answers : List Answer

def State.empty : State where
  epochs := []
  invalidated := []
  generation := 0
  keys := []
  buffered := []
  cached := []
  calls _ := none
  flights _ := none
  invalidating _ := none
  tokens := []
  clock := 0
  last _ _ := 0
  lastOfLayer _ := 0
  answers := []

namespace State

def setCall (s : State) (c : Nat) (call : Option Call) : State :=
  { s with calls := update s.calls c call }

def setFlight (s : State) (k : FlightKey) (flight : Option Flight) : State :=
  { s with flights := update s.flights k flight }

variable (s : State) (kind : CacheType) (scope : Str)

lemma calls_setCall (c : Nat) (call : Option Call) : (s.setCall c call).calls c = call := by
  simp [setCall]

lemma flights_setFlight (k : FlightKey) (flight : Option Flight) :
    (s.setFlight k flight).flights k = flight := by
  simp [setFlight]

/-! ## Fills -/

def epochRow (s : State) (kind : CacheType) (scope : Str) : EpochRow :=
  (Table.get EpochRow.slot (kind, scope) s.epochs).getD ⟨kind, scope, s.generation + 1, s.clock⟩

/-- The token that `BeginFill` returns. -/
def fillToken (s : State) (kind : CacheType) (scope : Str) : FillToken :=
  ⟨kind, scope, (s.epochRow kind scope).id, (s.epochRow kind scope).birth, s.clock⟩

/-- The epoch is that of the map, or a new one. -/
def BeginFill (s : State) (kind : CacheType) (scope : Str) : State :=
  match Table.get EpochRow.slot (kind, scope) s.epochs with
  | some _ => { s with tokens := s.fillToken kind scope :: s.tokens }
  | none =>
    { s with
      generation := s.generation + 1
      epochs := s.epochRow kind scope :: s.epochs
      tokens := s.fillToken kind scope :: s.tokens }

@[simp] lemma BeginFill_tokens :
    (s.BeginFill kind scope).tokens = s.fillToken kind scope :: s.tokens := by
  unfold BeginFill
  split <;> rfl

/-- What a fill leaves. -/
lemma BeginFill_frame :
    s.BeginFill kind scope =
      { s with epochs := (s.BeginFill kind scope).epochs,
               generation := (s.BeginFill kind scope).generation,
               tokens := (s.BeginFill kind scope).tokens } := by
  unfold BeginFill
  split <;> rfl

variable (codec : Codec) (cfg : Config)

/-- Why nothing is stored: the kind is off, the entry is too short-lived or too large, the token is
for something else, or its epoch has ended. -/
def Refuses (s : State) (kind : CacheType) (key value : Str) (ttl : Int) (t : FillToken) : Prop :=
  cfg.serves kind = false ∨ cfg.entryTTL kind ttl ≤ 0 ∨
    (0 < cfg.entryLimit kind ∧ cfg.entryLimit kind < value.length) ∨
    t.kind ≠ kind ∨ t.scope ≠ cacheScope codec key ∨ t.epoch ∈ s.invalidated

instance (s : State) (kind : CacheType) (key value : Str) (ttl : Int) (t : FillToken) :
    Decidable (s.Refuses codec cfg kind key value ttl t) := by
  unfold Refuses
  infer_instance

def newEntry (s : State) (kind : CacheType) (key value : Str) (t : FillToken) : CacheEntry :=
  ⟨kind, key, cacheScope codec key, value, t, s.generation + 1⟩

/-- Without a token of this manager nothing is stored. The cache may not accept the entry. -/
def set (s : State) (kind : CacheType) (key value : Str) (ttl : Int) (token : Option FillToken)
    (accepted : Bool) : State :=
  match token with
  | none => s
  | some t =>
    if s.Refuses codec cfg kind key value ttl t then s
    else
      let e := s.newEntry codec kind key value t
      { s with
        generation := s.generation + 1
        keys := if accepted then track e s.keys else untrack e (track e s.keys)
        buffered := if accepted then e :: s.buffered else s.buffered }

variable (s : State) (kind : CacheType) (key value : Str) (ttl : Int) (token : Option FillToken)
  (accepted : Bool)

/-- Storing leaves all but the counter and the caches. -/
lemma set_frame :
    s.set codec cfg kind key value ttl token accepted =
      { s with generation := (s.set codec cfg kind key value ttl token accepted).generation,
               keys := (s.set codec cfg kind key value ttl token accepted).keys,
               buffered := (s.set codec cfg kind key value ttl token accepted).buffered } := by
  unfold set
  split
  · rfl
  · split <;> rfl

lemma generation_le_set :
    s.generation ≤ (s.set codec cfg kind key value ttl token accepted).generation := by
  unfold set
  split
  · exact le_rfl
  · split
    · exact le_rfl
    · exact Nat.le_succ _

/-- What has been stored was not refused. -/
lemma mem_buffered_set {s : State} {kind} {key value : Str} {ttl : Int}
    {token} {accepted : Bool} {e}
    (h : e ∈ (s.set codec cfg kind key value ttl token accepted).buffered) :
    e ∈ s.buffered ∨ ∃ t, token = some t ∧ ¬ s.Refuses codec cfg kind key value ttl t ∧
      e = s.newEntry codec kind key value t := by
  unfold set at h
  split at h
  · exact .inl h
  rename_i t
  split at h
  · exact .inl h
  rename_i hok
  cases accepted with
  | false => exact .inl h
  | true =>
    rcases List.mem_cons.mp h with rfl | h
    · exact .inr ⟨t, rfl, hok, rfl⟩
    · exact .inl h

/-! ## Invalidation -/

/-- `invalidateEpoch` for the epochs that `p` selects. -/
def invalidateEpochs (s : State) (p : CacheType → Str → Bool) : State :=
  { s with
    epochs := s.epochs.filter fun row => !p row.kind row.scope
    invalidated := (s.epochs.filter fun row => p row.kind row.scope).map EpochRow.id ++ s.invalidated }

/-- The invalidation has returned. -/
def returned (s : State) (p : CacheType → Str → Bool) : State :=
  { s with
    clock := s.clock + 1
    last := fun kind scope => if p kind scope then s.clock + 1 else s.last kind scope }

/-- The keys of a scope are deleted from their cache. -/
def invalidateScope (s : State) (kind : CacheType) (scope : Str) : State :=
  let keys := s.keys.filter fun k => k.kind = kind ∧ k.scope = scope
  { s.invalidateEpochs fun k σ => k = kind ∧ σ = scope with
    keys := s.keys.filter fun k => ¬ (k.kind = kind ∧ k.scope = scope)
    cached := s.cached.filter fun e => ¬ (e.kind = kind ∧ ∃ k ∈ keys, k.key = e.key) }

/-- `InvalidateCapabilities` and the others do nothing if there is no cache. Counts are
invalidated by `InvalidateWorkspace` alone, in any case. -/
def Invalidate (s : State) (kind : CacheType) (scope : Str) : State :=
  if kind ≠ .counts ∧ cfg.enabled = false then s else s.invalidateScope kind scope

/-- What an invalidation leaves. -/
lemma Invalidate_frame (scope : Str) :
    s.Invalidate cfg kind scope =
      { s with epochs := (s.Invalidate cfg kind scope).epochs,
               invalidated := (s.Invalidate cfg kind scope).invalidated,
               keys := (s.Invalidate cfg kind scope).keys,
               cached := (s.Invalidate cfg kind scope).cached } := by
  unfold Invalidate
  split <;> rfl

/-- `ClearAll` and `ClearByType`. -/
def clear (s : State) (p : CacheType → Bool) : State :=
  { s.invalidateEpochs fun k _ => p k with
    keys := s.keys.filter fun k => !p k.kind
    cached := s.cached.filter fun e => !p e.kind }

end State

def InvalidateWorkspace (workspaceID : Str) (begun : Nat) : Invalidation :=
  ⟨workspaceID, [.capabilities, .collections, .features, .tiles, .counts], false, begun⟩

/-- The layer is not looked at. -/
def InvalidateLayer (workspaceID _layerID : Str) (begun : Nat) : Invalidation :=
  ⟨workspaceID, [.capabilities, .collections, .features, .tiles], true, begun⟩

/-! ## Calls -/

/-- The cache has nothing current: `Get` is over, `Load` goes on. -/
def Call.miss (call : Call) : Option Call :=
  match call.fill with
  | none => none
  | some _ => some { call with phase := .missed }

def Call.answer (call : Call) (result : Loaded) : Answer :=
  ⟨call.kind, call.key, result, call.cutoff, call.since⟩

/-- What an entry gives. -/
def CacheEntry.loaded (e : CacheEntry) : Loaded := ⟨e.value, e.token.taken, true⟩

def flightKey (cfg : Config) (c : Nat) (kind : CacheType) (key : Str) (t : FillToken) : FlightKey :=
  if cfg.fillCoalescingEnabled then .shared (coalescingKey kind key t.epoch) else .own c

/-- `DoChan`: a load under way is joined. Without coalescing every call loads for itself. -/
def joinFlight (cfg : Config) (flights : FlightKey → Option Flight) (k : FlightKey) (flight : Flight) :
    FlightKey → Option Flight :=
  if cfg.fillCoalescingEnabled = true ∧ (flights k).isSome then flights
  else update flights k (some flight)

variable {cfg : Config} {flights : FlightKey → Option Flight} {k : FlightKey}

lemma joinFlight_new
    (h : flights k = none) (flight : Flight) : joinFlight cfg flights k flight k = some flight := by
  simp [joinFlight, h]

lemma joinFlight_old (hshared : cfg.fillCoalescingEnabled = true) {f : Flight} (h : flights k = some f)
    (flight : Flight) : joinFlight cfg flights k flight k = some f := by
  simp [joinFlight, h, hshared]

/-- The result goes to all who wait. -/
def deliver (k : FlightKey) (result : Loaded) (calls : Nat → Option Call) (c : Nat) : Option Call :=
  (calls c).map fun call => if call.phase = .waiting k then { call with phase := .delivered result } else call

/-- So does an error. -/
def fail (k : FlightKey) (calls : Nat → Option Call) (c : Nat) : Option Call :=
  (calls c).filter fun call => call.phase ≠ .waiting k

inductive Label
  | beginFill | set | settle | exit
  | get | load | call | flight
  | startInvalidation | invalidate | endInvalidation | clear

inductive Step (codec : Codec) (cfg : Config) : State → Label → State → Prop
  | beginFill {s : State} (kind : CacheType) (key : Str) :
      Step codec cfg s .beginFill (s.BeginFill kind (cacheScope codec key))
  -- without tokens `set` takes one itself
  | set {s : State} (kind : CacheType) (key value : Str) (ttl : Int) {token}
      (accepted : Bool) (htoken : ∀ t ∈ token, t ∈ s.tokens) :
      Step codec cfg s .set (s.set codec cfg kind key value ttl token accepted)
  -- the caches
  | settle {s : State} {e} (he : e ∈ s.buffered) :
      Step codec cfg s .settle { s with buffered := s.buffered.erase e,
                                        cached := Table.put CacheEntry.slot e s.cached }
  | exit {s : State} (e : CacheEntry) :
      Step codec cfg s .exit { s with buffered := s.buffered.filter (· ≠ e),
                                      cached := s.cached.filter (· ≠ e),
                                      keys := untrack e s.keys }
  -- `Get` and `Load`
  | get {s : State} {c} (kind : CacheType) (key : Str) (hfree : s.calls c = none) :
      Step codec cfg s .get
        (s.setCall c (some ⟨kind, key, none, .looking, s.last kind (cacheScope codec key), s.lastOfLayer⟩))
  | load {s : State} {c} (kind : CacheType) (key : Str) (ttl : Int) (hfree : s.calls c = none) :
      Step codec cfg s .load
        ((s.BeginFill kind (cacheScope codec key)).setCall c
          (some ⟨kind, key, some (s.fillToken kind (cacheScope codec key), ttl), .looking,
            s.last kind (cacheScope codec key), s.lastOfLayer⟩))
  | find {s : State} {c} {call : Call} {e : CacheEntry} (hcall : s.calls c = some call)
      (hphase : call.phase = .looking) (hserves : cfg.serves call.kind = true) (he : e ∈ s.cached)
      (hslot : e.kind = call.kind ∧ e.key = call.key) :
      Step codec cfg s .call (s.setCall c (some { call with phase := .holding e }))
  | miss {s : State} {c} {call : Call} (hcall : s.calls c = some call)
      (hphase : call.phase = .looking) :
      Step codec cfg s .call (s.setCall c call.miss)
  | ended {s : State} {c} {call : Call} {e : CacheEntry} (hcall : s.calls c = some call)
      (hphase : call.phase = .holding e) (hended : e.token.epoch ∈ s.invalidated) :
      Step codec cfg s .call (s.setCall c call.miss)
  | hit {s : State} {c} {call : Call} {e : CacheEntry} (hcall : s.calls c = some call)
      (hphase : call.phase = .holding e) (hcurrent : e.token.epoch ∉ s.invalidated) :
      Step codec cfg s .call
        { s.setCall c none with answers := call.answer e.loaded :: s.answers }
  | join {s : State} {c} {call : Call} {t ttl} (hcall : s.calls c = some call)
      (hphase : call.phase = .missed) (hfill : call.fill = some (t, ttl)) :
      Step codec cfg s .call
        { s.setCall c (some { call with phase := .waiting (flightKey cfg c call.kind call.key t) }) with
          flights := joinFlight cfg s.flights (flightKey cfg c call.kind call.key t)
            ⟨call.kind, call.key, ttl, t, .looking⟩ }
  | abandon {s : State} {c} {call : Call} {k} (hcall : s.calls c = some call)
      (hphase : call.phase = .waiting (.shared k)) :
      Step codec cfg s .call (s.setCall c none)
  | answer {s : State} {c} {call : Call} {result} (hcall : s.calls c = some call)
      (hphase : call.phase = .delivered result) :
      Step codec cfg s .call { s.setCall c none with answers := call.answer result :: s.answers }
  -- `load`
  | findFlight {s : State} {k} {f : Flight} {e : CacheEntry} (hf : s.flights k = some f)
      (hphase : f.phase = .looking) (hserves : cfg.serves f.kind = true) (he : e ∈ s.cached)
      (hslot : e.kind = f.kind ∧ e.key = f.key) :
      Step codec cfg s .flight (s.setFlight k (some { f with phase := .holding e }))
  | missFlight {s : State} {k} {f : Flight} (hf : s.flights k = some f)
      (hphase : f.phase = .looking) :
      Step codec cfg s .flight (s.setFlight k (some { f with phase := .loading }))
  | endedFlight {s : State} {k} {f : Flight} {e : CacheEntry} (hf : s.flights k = some f)
      (hphase : f.phase = .holding e) (hended : e.token.epoch ∈ s.invalidated) :
      Step codec cfg s .flight (s.setFlight k (some { f with phase := .loading }))
  | hitFlight {s : State} {k} {f : Flight} {e : CacheEntry} (hf : s.flights k = some f)
      (hphase : f.phase = .holding e) (hcurrent : e.token.epoch ∉ s.invalidated) :
      Step codec cfg s .flight (s.setFlight k (some { f with phase := .filled e.loaded }))
  | loaded {s : State} {k} {f : Flight} (value : Str) (hf : s.flights k = some f)
      (hphase : f.phase = .loading) :
      Step codec cfg s .flight (s.setFlight k (some { f with phase := .loaded value }))
  | failed {s : State} {k} {f : Flight} (hf : s.flights k = some f) (hphase : f.phase = .loading) :
      Step codec cfg s .flight { s.setFlight k none with calls := fail k s.calls }
  | fill {s : State} {k} {f : Flight} {value} (accepted : Bool)
      (hf : s.flights k = some f) (hphase : f.phase = .loaded value) :
      Step codec cfg s .flight
        ((s.set codec cfg f.kind f.key value f.ttl (some f.token) accepted).setFlight k
          (some { f with phase := .filled ⟨value, f.token.taken, false⟩ }))
  | complete {s : State} {k} {f : Flight} {result} (hf : s.flights k = some f)
      (hphase : f.phase = .filled result) :
      Step codec cfg s .flight { s.setFlight k none with calls := deliver k result s.calls }
  -- invalidation
  | invalidateOne {s : State} {n} (kind : CacheType) (scope : Str)
      (hkind : kind ≠ .counts) (hfree : s.invalidating n = none) :
      Step codec cfg s .startInvalidation
        { s with invalidating := update s.invalidating n (some ⟨scope, [kind], false, s.clock⟩) }
  | invalidateWorkspace {s : State} {n} (workspaceID : Str) (hfree : s.invalidating n = none) :
      Step codec cfg s .startInvalidation
        { s with invalidating := update s.invalidating n
                   (some (InvalidateWorkspace workspaceID s.clock)) }
  | invalidateLayer {s : State} {n} (workspaceID layerID : Str) (hfree : s.invalidating n = none) :
      Step codec cfg s .startInvalidation
        { s with invalidating := update s.invalidating n
                   (some (InvalidateLayer workspaceID layerID s.clock)) }
  | invalidate {s : State} {n} {i : Invalidation} {kind rest}
      (hn : s.invalidating n = some i) (htodo : i.todo = kind :: rest) :
      Step codec cfg s .invalidate
        { (s.Invalidate cfg kind i.scope).returned fun k σ => k = kind ∧ σ = i.scope with
          invalidating := update s.invalidating n (some { i with todo := rest }) }
  | endInvalidation {s : State} {n} {i : Invalidation} (hn : s.invalidating n = some i)
      (htodo : i.todo = []) :
      Step codec cfg s .endInvalidation
        { s with
          invalidating := update s.invalidating n none
          lastOfLayer :=
            if i.ofLayer then
              update s.lastOfLayer i.scope (max (s.lastOfLayer i.scope) (i.begun + 1))
            else s.lastOfLayer }
  | clear {s : State} (p : CacheType → Bool) :
      Step codec cfg s .clear ((s.clear p).returned fun k _ => p k)

def machine (codec : Codec) (cfg : Config) : Machine State Label where
  init s := s = State.empty
  step := Step codec cfg

end NeoServer.Cache
