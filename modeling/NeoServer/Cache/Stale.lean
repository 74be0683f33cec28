import Mathlib.Data.List.Nodup
import NeoServer.Cache.Manager

/-!
# Cache.Stale — no stale answers

Time is the number of invalidations that have returned. An answer is stale if its fill token was
taken, or its load was started, before an invalidation of its kind and scope that had returned
when the call began.

- `Law` : what is needed of the tokens, for a bound `low` on what a load may return,
- `Tracks` : the invariant of the calls and the loads, from the law,
- `Core` : the epochs of a manager that is enabled, which give the law,
- `no_stale_answer_iff` : a manager gives no stale answers if it is enabled or loads are not
  shared, and only then.
-/

namespace NeoServer.Cache

open List State

variable {codec : Codec} {cfg : Config}

/-! ## Calls and loads -/

/-- An entry that is found under the key. -/
structure EntryFor (codec : Codec) (cfg : Config) (tokens : List FillToken) (kind : CacheType) (key : Str)
    (e : CacheEntry) : Prop where
  serves : cfg.serves kind = true
  token : e.token ∈ tokens
  kind : e.token.kind = kind
  scope : e.token.scope = cacheScope codec key

/-- What the tokens have to satisfy. No load with the token `t` returns what is older than `low t`. -/
structure Law (codec : Codec) (cfg : Config) (low : FillToken → Nat) (s : State) : Prop where
  past : ∀ kind scope, s.last kind scope ≤ s.clock
  taken : ∀ t ∈ s.tokens, low t ≤ t.taken
  begins : ∀ kind scope, s.last kind scope ≤ low (s.fillToken kind scope)
  shared : cfg.fillCoalescingEnabled = true →
    ∀ t ∈ s.tokens, ∀ t' ∈ s.tokens, t.epoch = t'.epoch → low t = low t'
  -- an entry whose epoch has not ended is newer than the last invalidation, and than every load
  current : ∀ kind key e, EntryFor codec cfg s.tokens kind key e → e.token.epoch ∉ s.invalidated →
    s.last kind (cacheScope codec key) ≤ e.token.taken ∧
    ∀ t ∈ s.tokens, t.kind = kind → t.scope = cacheScope codec key → low t ≤ e.token.taken

structure CallSound (codec : Codec) (cfg : Config) (low : FillToken → Nat) (s : State) (call : Call) :
    Prop where
  cutoff : call.cutoff ≤ s.last call.kind (cacheScope codec call.key)
  fill : ∀ t ttl, call.fill = some (t, ttl) → t ∈ s.tokens ∧ t.kind = call.kind ∧
    t.scope = cacheScope codec call.key ∧ call.cutoff ≤ low t
  holding : ∀ e, call.phase = .holding e → EntryFor codec cfg s.tokens call.kind call.key e
  waiting : ∀ k, call.phase = .waiting k → ∃ f, s.flights k = some f ∧ call.cutoff ≤ low f.token
  delivered : ∀ r, call.phase = .delivered r → call.cutoff ≤ r.born

structure FlightSound (codec : Codec) (cfg : Config) (low : FillToken → Nat) (tokens : List FillToken)
    (k : FlightKey) (f : Flight) : Prop where
  token : f.token ∈ tokens
  kind : f.token.kind = f.kind
  scope : f.token.scope = cacheScope codec f.key
  key : ∀ str, k = .shared str → str = coalescingKey f.kind f.key f.token.epoch
  holding : ∀ e, f.phase = .holding e → EntryFor codec cfg tokens f.kind f.key e
  filled : ∀ r, f.phase = .filled r → low f.token ≤ r.born

structure Tracks (codec : Codec) (cfg : Config) (low : FillToken → Nat) (s : State) : Prop where
  entries : ∀ e, e ∈ s.cached ∨ e ∈ s.buffered → EntryFor codec cfg s.tokens e.kind e.key e
  calls : ∀ c call, s.calls c = some call → CallSound codec cfg low s call
  flights : ∀ k f, s.flights k = some f → FlightSound codec cfg low s.tokens k f
  owns : ∀ c call c', s.calls c = some call → call.phase = .waiting (.own c') → c' = c
  answers : ∀ a ∈ s.answers, a.cutoff ≤ a.result.born

/-- Tokens are not forgotten, and invalidations are not undone. -/
structure Grows (s t : State) : Prop where
  tokens : s.tokens ⊆ t.tokens
  last : ∀ kind scope, s.last kind scope ≤ t.last kind scope

section Tracks

variable {low : FillToken → Nat} {s t : State}

lemma EntryFor.mono {kind} {key : Str} {e}
    (h : EntryFor codec cfg s.tokens kind key e) (hg : Grows s t) : EntryFor codec cfg t.tokens kind key e :=
  { h with token := hg.tokens h.token }

variable {call : Call} {k : FlightKey} {f : Flight}

lemma CallSound.mono (h : CallSound codec cfg low s call) (hg : Grows s t)
    (hflights : ∀ k, call.phase = .waiting k → ∀ f, s.flights k = some f →
      ∃ f', t.flights k = some f' ∧ f'.token = f.token) : CallSound codec cfg low t call where
  cutoff := le_trans h.cutoff (hg.last _ _)
  fill := by
    intro tok ttl hfill
    rcases h.fill tok ttl hfill with ⟨hmem, hkind, hscope, hlow⟩
    exact ⟨hg.tokens hmem, hkind, hscope, hlow⟩
  holding e he := (h.holding e he).mono hg
  waiting := by
    intro k hk
    rcases h.waiting k hk with ⟨f, hf, hlow⟩
    rcases hflights k hk f hf with ⟨f', hf', htoken⟩
    exact ⟨f', hf', htoken ▸ hlow⟩
  delivered := h.delivered

lemma FlightSound.mono (h : FlightSound codec cfg low s.tokens k f)
    (hg : Grows s t) : FlightSound codec cfg low t.tokens k f :=
  { h with token := hg.tokens h.token, holding := fun e he => (h.holding e he).mono hg }

variable (h : Tracks codec cfg low s)
include h

/-- A step that leaves the calls and the loads. -/
lemma Tracks.mono (hg : Grows s t) (hcalls : t.calls = s.calls)
    (hflights : t.flights = s.flights) (hanswers : t.answers = s.answers)
    (hentries : ∀ e, e ∈ t.cached ∨ e ∈ t.buffered →
      (e ∈ s.cached ∨ e ∈ s.buffered) ∨ EntryFor codec cfg t.tokens e.kind e.key e) :
    Tracks codec cfg low t where
  entries := by
    intro e he
    rcases hentries e he with hold | hnew
    · exact (h.entries e hold).mono hg
    · exact hnew
  calls := by
    intro c call hcall
    rw [hcalls] at hcall
    refine (h.calls c call hcall).mono hg ?_
    intro k _ f hf
    exact ⟨f, by rw [hflights]; exact hf, rfl⟩
  flights := by
    intro k f hf
    rw [hflights] at hf
    exact (h.flights k f hf).mono hg
  owns := by
    rw [hcalls]
    exact h.owns
  answers := by
    rw [hanswers]
    exact h.answers

lemma Tracks.setCall (c : Nat) (v : Option Call)
    (hv : ∀ call, v = some call → CallSound codec cfg low s call ∧
      ∀ c', call.phase = .waiting (.own c') → c' = c) : Tracks codec cfg low (s.setCall c v) := by
  have hcases : ∀ c' call, (s.setCall c v).calls c' = some call →
      CallSound codec cfg low s call ∧ ∀ c'', call.phase = .waiting (.own c'') → c'' = c' := by
    intro c' call hcall
    rcases update_eq_some_iff.1 hcall with ⟨rfl, hnew⟩ | ⟨_, hold⟩
    · exact hv call hnew
    · exact ⟨h.calls c' call hold, fun c'' => h.owns c' call c'' hold⟩
  exact
    { entries := h.entries
      calls := fun c' call hcall => { (hcases c' call hcall).1 with }
      flights := h.flights
      owns := fun c' call c'' hcall => (hcases c' call hcall).2 c''
      answers := h.answers }

/-- The call is over. -/
lemma Tracks.endCall (c : Nat) : Tracks codec cfg low (s.setCall c none) :=
  h.setCall c none nofun

/-- A load changes or is over, and calls change that do not wait for it afterwards. -/
lemma Tracks.setLoad {v : Option Flight} {calls : Nat → Option Call}
    (hv : ∀ f', v = some f' → FlightSound codec cfg low s.tokens k f')
    (hcalls : ∀ c call, calls c = some call →
      (s.calls c = some call ∧ (call.phase = .waiting k → ∀ f, s.flights k = some f →
        ∃ f', v = some f' ∧ f'.token = f.token)) ∨
      (CallSound codec cfg low s call ∧ ∀ k', call.phase ≠ .waiting k')) :
    Tracks codec cfg low { s.setFlight k v with calls := calls } where
  entries := h.entries
  calls := by
    intro c call hcall
    have hsame : Grows s { s.setFlight k v with calls := calls } :=
      ⟨List.Subset.refl _, fun _ _ => le_rfl⟩
    rcases hcalls c call hcall with ⟨hold, hwaits⟩ | ⟨hsound, hphase⟩
    · refine (h.calls c call hold).mono hsame ?_
      intro k' hk' g hg
      by_cases hk : k' = k
      · subst hk
        simpa [State.setFlight] using hwaits hk' g hg
      · exact ⟨g, by simpa [State.setFlight, hk] using hg, rfl⟩
    · exact hsound.mono hsame fun k' hk' => absurd hk' (hphase k')
  flights := by
    intro k' g hg
    rcases update_eq_some_iff.1 hg with ⟨rfl, hnew⟩ | ⟨_, hold⟩
    · exact hv g hnew
    · exact h.flights k' g hold
  owns := by
    intro c call c' hcall hphase
    rcases hcalls c call hcall with ⟨hold, _⟩ | ⟨_, hnot⟩
    · exact h.owns c call c' hold hphase
    · exact absurd hphase (hnot _)
  answers := h.answers

lemma Tracks.setFlight {f f' : Flight} (hf : s.flights k = some f) (htoken : f'.token = f.token)
    (hf' : FlightSound codec cfg low s.tokens k f') :
    Tracks codec cfg low (s.setFlight k (some f')) := by
  refine h.setLoad (by rintro _ ⟨⟩; exact hf') fun c call hcall => .inl ⟨hcall, fun _ g hg => ?_⟩
  rw [hf] at hg
  cases hg
  exact ⟨f', rfl, htoken⟩

lemma Tracks.addAnswer {a : Answer} (ha : a.cutoff ≤ a.result.born) :
    Tracks codec cfg low { s with answers := a :: s.answers } where
  entries := h.entries
  calls c call hcall := { h.calls c call hcall with }
  flights := h.flights
  owns := h.owns
  answers := by
    exact forall_mem_cons.mpr ⟨ha, h.answers⟩

omit h in
lemma CallSound.miss (h : CallSound codec cfg low s call) :
    ∀ call', call.miss = some call' → CallSound codec cfg low s call' ∧
      ∀ c', call'.phase = .waiting (.own c') → False := by
  intro call' hmiss
  unfold Call.miss at hmiss
  split at hmiss
  · cases hmiss
  cases hmiss
  exact ⟨{ h with holding := nofun, waiting := nofun, delivered := nofun }, nofun⟩

variable {c : Nat} {value : Str} {ttl : Int}

lemma Tracks.miss (hcall : s.calls c = some call) :
    Tracks codec cfg low (s.setCall c call.miss) := by
  refine h.setCall c call.miss fun call' hmiss => ?_
  rcases (h.calls c call hcall).miss call' hmiss with ⟨hsound, hnot⟩
  exact ⟨hsound, fun c' hphase => (hnot c' hphase).elim⟩

/-- Values that are stored come with a token of their kind and scope. -/
lemma Tracks.set {kind} {key : Str}
    {token} (accepted : Bool) (htoken : ∀ t ∈ token, t ∈ s.tokens) :
    Tracks codec cfg low (s.set codec cfg kind key value ttl token accepted) := by
  have hentries : ∀ e ∈ (s.set codec cfg kind key value ttl token accepted).buffered,
      e ∈ s.buffered ∨ EntryFor codec cfg s.tokens e.kind e.key e := by
    intro e he
    rcases mem_buffered_set codec cfg he with hold | ⟨t, rfl, hok, rfl⟩
    · exact .inl hold
    · simp only [State.Refuses, not_or, not_not] at hok
      rcases hok with ⟨hserves, _, _, hkind, hscope, _⟩
      exact .inr ⟨eq_true_of_ne_false hserves, htoken t rfl, hkind, hscope⟩
  rw [set_frame]
  refine h.mono ⟨List.Subset.refl _, fun _ _ => le_rfl⟩ rfl rfl rfl ?_
  intro e he
  rcases he with hcached | hbuffered
  · exact .inl (.inl hcached)
  · rcases hentries e hbuffered with hold | hnew
    · exact .inl (.inr hold)
    · exact .inr hnew

lemma Tracks.begin (kind : CacheType) (scope : Str) :
    Tracks codec cfg low (s.BeginFill kind scope) := by
  rw [State.BeginFill_frame]
  refine h.mono ⟨?_, fun _ _ => le_rfl⟩ rfl rfl rfl fun e he => .inl he
  rw [State.BeginFill_tokens]
  exact subset_cons_self _ _

lemma Tracks.returned (hpast : ∀ kind scope, s.last kind scope ≤ s.clock)
    (p : CacheType → Str → Bool) : Tracks codec cfg low (s.returned p) := by
  refine h.mono ⟨List.Subset.refl _, ?_⟩ rfl rfl rfl fun e he => .inl he
  intro kind scope
  show s.last kind scope ≤ if p kind scope then s.clock + 1 else s.last kind scope
  split
  · exact le_trans (hpast kind scope) (Nat.le_succ _)
  · exact le_rfl

/-- An invalidation only takes entries away. -/
lemma Tracks.invalidate (hpast : ∀ kind scope, s.last kind scope ≤ s.clock)
    (kind : CacheType) (scope : Str) (p : CacheType → Str → Bool) :
    Tracks codec cfg low ((s.Invalidate cfg kind scope).returned p) := by
  unfold State.Invalidate
  split
  · exact h.returned hpast p
  have hscope : Tracks codec cfg low (s.invalidateScope kind scope) := by
    refine h.mono ⟨List.Subset.refl _, fun _ _ => le_rfl⟩ rfl rfl rfl ?_
    rintro e (hcached | hbuffered)
    · exact .inl (.inl (mem_filter.mp hcached).1)
    · exact .inl (.inr hbuffered)
  exact hscope.returned hpast p

lemma Tracks.clear (hpast : ∀ kind scope, s.last kind scope ≤ s.clock)
    (p : CacheType → Bool) : Tracks codec cfg low ((s.clear p).returned fun k _ => p k) := by
  have hclear : Tracks codec cfg low (s.clear p) := by
    refine h.mono ⟨List.Subset.refl _, fun _ _ => le_rfl⟩ rfl rfl rfl ?_
    rintro e (hcached | hbuffered)
    · exact .inl (.inl (mem_filter.mp hcached).1)
    · exact .inl (.inr hbuffered)
  exact hclear.returned hpast _

/-- The value of a load is stored, and then on its way. -/
lemma tracks_fill (hlaw : Law codec cfg low s) (accepted : Bool) (hf : s.flights k = some f) :
    Tracks codec cfg low
      ((s.set codec cfg f.kind f.key value f.ttl (some f.token) accepted).setFlight k
        (some { f with phase := .filled ⟨value, f.token.taken, false⟩ })) := by
  have hflight := h.flights k f hf
  have hset : Tracks codec cfg low (s.set codec cfg f.kind f.key value f.ttl (some f.token) accepted) := by
    refine h.set accepted ?_
    rintro t ⟨⟩
    exact hflight.token
  rw [set_frame] at hset ⊢
  refine hset.setFlight hf rfl { hflight with holding := nofun, filled := ?_ }
  rintro r ⟨⟩
  exact hlaw.taken f.token hflight.token

lemma tracks_complete {result : Loaded}
    (hf : s.flights k = some f) (hphase : f.phase = .filled result) :
    Tracks codec cfg low { s.setFlight k none with calls := deliver k result s.calls } := by
  have hborn : low f.token ≤ result.born := (h.flights k f hf).filled result hphase
  refine h.setLoad nofun ?_
  intro c call' hcall'
  rcases Option.map_eq_some_iff.mp hcall' with ⟨call, hcall, heq⟩
  have hsound := h.calls c call hcall
  by_cases hwait : call.phase = .waiting k
  · rw [if_pos hwait] at heq
    subst heq
    rcases hsound.waiting k hwait with ⟨g, hg, hlow⟩
    rw [hf] at hg
    cases hg
    refine .inr ⟨{ hsound with holding := nofun, waiting := nofun, delivered := ?_ }, nofun⟩
    rintro r ⟨⟩
    exact le_trans hlow hborn
  · rw [if_neg hwait] at heq
    subst heq
    exact .inl ⟨hcall, fun hk => absurd hk hwait⟩

lemma tracks_join (hlaw : Law codec cfg low s)
    {tok} (hcall : s.calls c = some call) (hphase : call.phase = .missed)
    (hfill : call.fill = some (tok, ttl)) :
    Tracks codec cfg low
      { s.setCall c (some { call with phase := .waiting (flightKey cfg c call.kind call.key tok) }) with
        flights := joinFlight cfg s.flights (flightKey cfg c call.kind call.key tok)
          ⟨call.kind, call.key, ttl, tok, .looking⟩ } := by
  have hsound := h.calls c call hcall
  rcases hsound.fill tok ttl hfill with ⟨hmem, hkind, hscope, hlow⟩
  generalize hk : flightKey cfg c call.kind call.key tok = k
  unfold flightKey at hk
  -- the call waits for a load whose token is of the same epoch
  have hwaits : ∀ {u : State} {f : Flight}, Tracks codec cfg low u → u.tokens = s.tokens → u.last = s.last →
      u.flights k = some f → low f.token = low tok →
      Tracks codec cfg low (u.setCall c (some { call with phase := .waiting k })) := by
    intro u f hu htokens hlast hf hsame
    refine hu.setCall c _ ?_
    rintro call' ⟨⟩
    refine ⟨⟨?_, ?_, nofun, ?_, nofun⟩, ?_⟩
    · rw [hlast]
      exact hsound.cutoff
    · rw [htokens]
      exact hsound.fill
    · rintro k ⟨⟩
      exact ⟨f, hf, hsame ▸ hlow⟩
    · rintro c' ⟨⟩
      split at hk
      · cases hk
      cases hk
      rfl
  unfold joinFlight
  split
  · rename_i hjoin
    rcases Option.isSome_iff_exists.mp hjoin.2 with ⟨f, hf⟩
    have hflight := h.flights k f hf
    rw [if_pos hjoin.1] at hk
    have hepoch := epoch_of_coalescingKey (hflight.key _ hk.symm)
    exact hwaits h rfl rfl hf (hlaw.shared hjoin.1 f.token hflight.token tok hmem hepoch.symm)
  · rename_i hjoin
    have hnone : ∀ c' call', s.calls c' = some call' → call'.phase ≠ .waiting k := by
      intro c' call' hcall' hphase'
      by_cases hcoalesce : cfg.fillCoalescingEnabled = true
      · rcases (h.calls c' call' hcall').waiting _ hphase' with ⟨f, hf, _⟩
        exact hjoin ⟨hcoalesce, Option.isSome_iff_exists.mpr ⟨f, hf⟩⟩
      rw [if_neg hcoalesce] at hk
      rw [← hk] at hphase'
      have hc := h.owns c' call' c hcall' hphase'
      subst hc
      rw [hcall] at hcall'
      cases hcall'
      rw [hphase] at hphase'
      cases hphase'
    have hnew : FlightSound codec cfg low s.tokens k ⟨call.kind, call.key, ttl, tok, .looking⟩ := by
      refine ⟨hmem, hkind, hscope, ?_, nofun, nofun⟩
      rintro str rfl
      split at hk
      · exact (FlightKey.shared.inj hk).symm
      · cases hk
    have hload := h.setLoad (v := some _) (by rintro _ ⟨⟩; exact hnew)
      fun c' call' hcall' => .inl ⟨hcall', fun hk' => absurd hk' (hnone c' call' hcall')⟩
    exact hwaits hload rfl rfl (Function.update_self _ _ _) rfl

lemma tracks_step {l : Label} (hlaw : Law codec cfg low s)
    (hstep : Step codec cfg s l t) : Tracks codec cfg low t := by
  cases hstep with
  | beginFill kind => exact h.begin kind _
  | set kind key value ttl accepted htoken => exact h.set accepted htoken
  | settle he =>
    refine h.mono ⟨List.Subset.refl _, fun _ _ => le_rfl⟩ rfl rfl rfl ?_
    rintro e' (hcached | hbuffered)
    · rcases Table.mem_put.mp hcached with rfl | ⟨hold, _⟩
      · exact .inl (.inr he)
      · exact .inl (.inl hold)
    · exact .inl (.inr (mem_of_mem_erase hbuffered))
  | exit =>
    refine h.mono ⟨List.Subset.refl _, fun _ _ => le_rfl⟩ rfl rfl rfl ?_
    rintro e' (hcached | hbuffered)
    · exact .inl (.inl (mem_filter.mp hcached).1)
    · exact .inl (.inr (mem_filter.mp hbuffered).1)
  | get =>
    refine h.setCall _ _ ?_
    rintro call ⟨⟩
    exact ⟨⟨le_rfl, nofun, nofun, nofun, nofun⟩, nofun⟩
  | load kind =>
    refine (h.begin kind _).setCall _ _ ?_
    rintro call ⟨⟩
    refine ⟨⟨?_, ?_, nofun, nofun, nofun⟩, nofun⟩
    · rw [State.BeginFill_frame]
    · rintro tok ttl' ⟨⟩
      rw [State.BeginFill_tokens]
      exact ⟨mem_cons_self, rfl, rfl, hlaw.begins kind _⟩
  | @find c call e hcall hphase hserves he hslot =>
    refine h.setCall _ _ ?_
    rintro call' ⟨⟩
    have hentry := h.entries e (.inl he)
    rw [hslot.1, hslot.2] at hentry
    refine ⟨{ h.calls c call hcall with holding := ?_, waiting := nofun, delivered := nofun }, nofun⟩
    rintro e' ⟨⟩
    exact hentry
  | miss hcall | ended hcall => exact h.miss hcall
  | @hit c call e hcall hphase hcurrent =>
    have hsound := h.calls c call hcall
    have hnew := hlaw.current _ _ e (hsound.holding e hphase) hcurrent
    have hanswer : (call.answer e.loaded).cutoff ≤ (call.answer e.loaded).result.born :=
      le_trans hsound.cutoff hnew.1
    exact (h.endCall c).addAnswer hanswer
  | join hcall hphase hfill => exact tracks_join h hlaw hcall hphase hfill
  | abandon => exact h.endCall _
  | @answer c call result hcall hphase =>
    have hanswer : (call.answer result).cutoff ≤ (call.answer result).result.born :=
      (h.calls c call hcall).delivered result hphase
    exact (h.endCall c).addAnswer hanswer
  | @findFlight k f e hf hphase hserves he hslot =>
    have hentry := h.entries e (.inl he)
    rw [hslot.1, hslot.2] at hentry
    refine h.setFlight hf rfl { h.flights k f hf with holding := ?_, filled := nofun }
    rintro e' ⟨⟩
    exact hentry
  | @missFlight k f hf | @endedFlight k f e hf | @loaded k f value hf =>
    exact h.setFlight hf rfl { h.flights k f hf with holding := nofun, filled := nofun }
  | @hitFlight k f e hf hphase hcurrent =>
    have hflight := h.flights k f hf
    have hnew := hlaw.current _ _ e (hflight.holding e hphase) hcurrent
    refine h.setFlight hf rfl { hflight with holding := nofun, filled := ?_ }
    rintro r ⟨⟩
    exact hnew.2 f.token hflight.token hflight.kind hflight.scope
  | @failed =>
    refine h.setLoad nofun fun c call hcall => .inl ?_
    have hfilter := Option.filter_eq_some_iff.mp hcall
    exact ⟨hfilter.1, fun hk => absurd hk (by simpa using hfilter.2)⟩
  | fill accepted hf => exact tracks_fill h hlaw accepted hf
  | complete hf hphase => exact tracks_complete h hf hphase
  | @invalidate n i kind =>
    have hdone := h.invalidate hlaw.past kind i.scope fun k σ => k = kind ∧ σ = i.scope
    exact hdone.mono ⟨List.Subset.refl _, fun _ _ => le_rfl⟩ rfl rfl rfl fun e he => .inl he
  | clear p => exact h.clear hlaw.past p
  | _ => exact h.mono ⟨List.Subset.refl _, fun _ _ => le_rfl⟩ rfl rfl rfl fun e he => .inl he

end Tracks

/-! ## The epochs of a manager that is enabled -/

/-- The part of the state that is about epochs. -/
structure Epochs where
  generation : Nat
  epochs : List EpochRow
  invalidated : List Nat
  tokens : List FillToken
  clock : Nat
  last : CacheType → Str → Nat

def State.view (s : State) : Epochs :=
  ⟨s.generation, s.epochs, s.invalidated, s.tokens, s.clock, s.last⟩

structure TokenSound (s : Epochs) (t : FillToken) : Prop where
  known : t.epoch ≤ s.generation
  birth : t.birth ≤ t.taken
  taken : t.taken ≤ s.clock
  -- its epoch is in the map, or it has ended
  live : t.epoch ∉ s.invalidated → t.row ∈ s.epochs
  ended : t.epoch ∈ s.invalidated → t.birth ≤ s.last t.kind t.scope

structure Core (s : Epochs) : Prop where
  slots : Table.Keyed EpochRow.slot s.epochs
  ids : Table.Keyed EpochRow.id s.epochs
  known : ∀ row ∈ s.epochs, row.id ≤ s.generation
  live : ∀ row ∈ s.epochs, row.id ∉ s.invalidated
  late : ∀ row ∈ s.epochs, s.last row.kind row.scope ≤ row.birth
  born : ∀ row ∈ s.epochs, row.birth ≤ s.clock
  past : ∀ kind scope, s.last kind scope ≤ s.clock
  ended : ∀ e ∈ s.invalidated, e ≤ s.generation
  tokens : ∀ t ∈ s.tokens, TokenSound s t
  births : ∀ t ∈ s.tokens, ∀ t' ∈ s.tokens, t.epoch = t'.epoch → t.birth = t'.birth

section Core

variable {s t : State}

/-- The epoch of a fill is in the map, or it is new. -/
lemma epochRow_cases (s : State) (kind : CacheType) (scope : Str) :
    (s.epochRow kind scope ∈ s.epochs ∧ (s.epochRow kind scope).slot = (kind, scope) ∧
      s.BeginFill kind scope = { s with tokens := s.fillToken kind scope :: s.tokens }) ∨
    ((∀ row ∈ s.epochs, row.slot ≠ (kind, scope)) ∧
      s.epochRow kind scope = ⟨kind, scope, s.generation + 1, s.clock⟩ ∧
      s.BeginFill kind scope =
        { s with
          generation := s.generation + 1
          epochs := s.epochRow kind scope :: s.epochs
          tokens := s.fillToken kind scope :: s.tokens }) := by
  cases hget : Table.get EpochRow.slot (kind, scope) s.epochs with
  | some row =>
    have hrow : s.epochRow kind scope = row := by simp [epochRow, hget]
    have hmem := Table.mem_of_get hget
    left
    rw [hrow]
    exact ⟨hmem.1, hmem.2, by simp [State.BeginFill, hget]⟩
  | none =>
    right
    exact ⟨Table.get_eq_none.mp hget, by simp [epochRow, hget], by simp [State.BeginFill, hget]⟩

variable {kind : CacheType} {scope : Str} {tok : FillToken} {l : Label} {v : Epochs}

lemma fillToken_row (hslot : (s.epochRow kind scope).slot = (kind, scope)) :
    (s.fillToken kind scope).row = s.epochRow kind scope := by
  unfold fillToken FillToken.row
  generalize s.epochRow kind scope = row at hslot ⊢
  cases hslot
  rfl

/-- Tokens of the epoch that is in the map agree with it. -/
lemma Core.row_eq (h : Core v) (htok : tok ∈ v.tokens) {row}
    (hrow : row ∈ v.epochs) (hid : tok.epoch = row.id) : tok.row = row := by
  have hlive : tok.epoch ∉ v.invalidated := by
    rw [hid]
    exact h.live row hrow
  exact h.ids.eq_of_key ((h.tokens tok htok).live hlive) hrow hid

lemma Core.law (h : Core s.view) : Law codec cfg FillToken.birth s where
  past := h.past
  taken t ht := (h.tokens t ht).birth
  begins := by
    intro kind scope
    show s.last kind scope ≤ (s.epochRow kind scope).birth
    rcases epochRow_cases s kind scope with ⟨hmem, hslot, _⟩ | ⟨_, hnew, _⟩
    · have hlate := h.late _ hmem
      rw [show (s.epochRow kind scope).kind = kind from congrArg Prod.fst hslot,
        show (s.epochRow kind scope).scope = scope from congrArg Prod.snd hslot] at hlate
      exact hlate
    · rw [hnew]
      exact h.past kind scope
  shared _ t ht t' ht' hepoch := h.births t ht t' ht' hepoch
  current := by
    intro kind key e he hcurrent
    have hsound := h.tokens e.token he.token
    have hrow := hsound.live hcurrent
    have hlate : s.last kind (cacheScope codec key) ≤ e.token.birth := by
      rw [← he.kind, ← he.scope]
      exact h.late _ hrow
    refine ⟨le_trans hlate hsound.birth, ?_⟩
    intro tok htok hkind hscope
    -- the token is of the same epoch, or of one that has ended before the last invalidation
    by_cases hended : tok.epoch ∈ s.invalidated
    · have hbefore := (h.tokens tok htok).ended hended
      rw [hkind, hscope] at hbefore
      exact le_trans (le_trans hbefore hlate) hsound.birth
    · have htok' := (h.tokens tok htok).live hended
      have hslot : tok.row.slot = e.token.row.slot := by
        show (tok.kind, tok.scope) = (e.token.kind, e.token.scope)
        rw [hkind, hscope, he.kind, he.scope]
      have hbirth : tok.birth = e.token.birth :=
        congrArg EpochRow.birth (h.slots.eq_of_key htok' hrow hslot)
      rw [hbirth]
      exact hsound.birth

/-- Identifiers may be taken for other things. -/
lemma Core.raise (h : Core v) {n : Nat} (hle : v.generation ≤ n) : Core { v with generation := n } :=
  { h with
    known := fun row hrow => le_trans (h.known row hrow) hle
    ended := fun e he => le_trans (h.ended e he) hle
    tokens := fun t ht => { h.tokens t ht with known := le_trans (h.tokens t ht).known hle } }

/-- One more token of an epoch that is in the map. -/
lemma Core.addToken (h : Core v) (hrow : tok.row ∈ v.epochs)
    (htaken : tok.taken = v.clock) : Core { v with tokens := tok :: v.tokens } := by
  have hnew : TokenSound v tok :=
    { known := h.known _ hrow
      birth := htaken ▸ h.born _ hrow
      taken := htaken.le
      live := fun _ => hrow
      ended := fun hended => absurd hended (h.live _ hrow) }
  have hbirth : ∀ t ∈ v.tokens, t.epoch = tok.epoch → t.birth = tok.birth := by
    intro t ht hepoch
    exact congrArg EpochRow.birth (h.row_eq ht hrow hepoch)
  refine { h with tokens := ?_, births := ?_ }
  · exact forall_mem_cons.mpr ⟨{ hnew with }, fun t ht => { h.tokens t ht with }⟩
  · intro t ht t' ht' hepoch
    rcases mem_cons.mp ht with rfl | hold <;> rcases mem_cons.mp ht' with rfl | hold'
    · rfl
    · exact (hbirth t' hold' hepoch.symm).symm
    · exact hbirth t hold hepoch
    · exact h.births t hold t' hold' hepoch

/-- A new epoch, with an identifier of its own. -/
lemma Core.addEpoch (h : Core v) (hfree : ∀ row ∈ v.epochs, row.slot ≠ (kind, scope)) :
    Core { v with
      generation := v.generation + 1
      epochs := ⟨kind, scope, v.generation + 1, v.clock⟩ :: v.epochs } where
  slots := by
    refine nodup_cons.mpr ⟨?_, h.slots⟩
    intro hmem
    rcases mem_map.mp hmem with ⟨row, hrow, hslot⟩
    exact hfree row hrow hslot
  ids := by
    refine nodup_cons.mpr ⟨?_, h.ids⟩
    intro hmem
    rcases mem_map.mp hmem with ⟨row, hrow, hid⟩
    have hid : row.id = v.generation + 1 := hid
    have hknown := h.known row hrow
    omega
  known := by
    exact forall_mem_cons.mpr ⟨le_rfl, fun row hrow => le_trans (h.known row hrow) (Nat.le_succ _)⟩
  live := by
    intro row hrow
    rcases mem_cons.mp hrow with rfl | hrow
    · intro hended
      have hknown : v.generation + 1 ≤ v.generation := h.ended _ hended
      omega
    · exact h.live row hrow
  late := forall_mem_cons.mpr ⟨h.past kind scope, h.late⟩
  born := forall_mem_cons.mpr ⟨le_rfl, h.born⟩
  past := h.past
  ended e he := le_trans (h.ended e he) (Nat.le_succ _)
  tokens := by
    intro t ht
    have hsound := h.tokens t ht
    exact { hsound with
      known := le_trans hsound.known (Nat.le_succ _)
      live := fun hlive => mem_cons_of_mem _ (hsound.live hlive) }
  births := h.births

lemma Core.begin (h : Core s.view) (kind : CacheType) (scope : Str) :
    Core (s.BeginFill kind scope).view := by
  rcases epochRow_cases s kind scope with ⟨hmem, hslot, hbegin⟩ | ⟨hfree, hnew, hbegin⟩
  · rw [hbegin]
    refine h.addToken ?_ rfl
    rw [fillToken_row hslot]
    exact hmem
  · rw [hbegin]
    have hepoch : Core { s.view with
        generation := s.generation + 1, epochs := s.epochRow kind scope :: s.epochs } := by
      rw [hnew]
      exact h.addEpoch hfree
    refine hepoch.addToken ?_ rfl
    rw [fillToken_row (by rw [hnew]; rfl)]
    exact mem_cons_self

/-- The epochs that `p` selects end. -/
lemma Core.invalidateEpochs (h : Core s.view) (p : CacheType → Str → Bool) :
    Core ((s.invalidateEpochs p).returned p).view := by
  have hlast : ∀ kind scope, s.last kind scope ≤ ((s.invalidateEpochs p).returned p).last kind scope := by
    intro kind scope
    show s.last kind scope ≤ if p kind scope then s.clock + 1 else s.last kind scope
    split
    · exact le_trans (h.past kind scope) (Nat.le_succ _)
    · exact le_rfl
  refine ⟨h.slots.filter _, h.ids.filter _, ?_, ?_, ?_, ?_, ?_, ?_, ?_, h.births⟩
  · intro row hrow
    exact h.known row (mem_filter.mp hrow).1
  · intro row hrow hended
    rcases mem_filter.mp hrow with ⟨hrow, hkept⟩
    rcases mem_append.mp hended with hnew | hold
    · rcases mem_map.mp hnew with ⟨row', hrow', hid⟩
      rcases mem_filter.mp hrow' with ⟨hrow', hp⟩
      rw [h.ids.eq_of_key hrow' hrow hid] at hp
      simp [hp] at hkept
    · exact h.live row hrow hold
  · intro row hrow
    rcases mem_filter.mp hrow with ⟨hrow, hkept⟩
    have hp : p row.kind row.scope = false := by simpa using hkept
    show (if p row.kind row.scope then s.clock + 1 else s.last row.kind row.scope) ≤ row.birth
    rw [hp]
    exact h.late row hrow
  · intro row hrow
    exact le_trans (h.born row (mem_filter.mp hrow).1) (Nat.le_succ _)
  · intro kind scope
    show (if p kind scope then s.clock + 1 else s.last kind scope) ≤ s.clock + 1
    split
    · exact le_rfl
    · exact le_trans (h.past kind scope) (Nat.le_succ _)
  · intro e he
    rcases mem_append.mp he with hnew | hold
    · rcases mem_map.mp hnew with ⟨row, hrow, rfl⟩
      exact h.known row (mem_filter.mp hrow).1
    · exact h.ended e hold
  · intro t ht
    have hsound := h.tokens t ht
    refine ⟨hsound.known, hsound.birth, le_trans hsound.taken (Nat.le_succ _), ?_, ?_⟩
    · -- an epoch that has not ended has not been selected
      intro hlive
      have hbefore : t.epoch ∉ s.invalidated := fun hold => hlive (mem_append_right _ hold)
      have hrow := hsound.live hbefore
      refine mem_filter.mpr ⟨hrow, ?_⟩
      by_contra hp
      have hp : p t.row.kind t.row.scope = true := by simpa using hp
      exact hlive (mem_append_left _ (mem_map.mpr ⟨t.row, mem_filter.mpr ⟨hrow, hp⟩, rfl⟩))
    · intro hended
      rcases mem_append.mp hended with hnew | hold
      · rcases mem_map.mp hnew with ⟨row, hrow, hid⟩
        rcases mem_filter.mp hrow with ⟨hrow, hp⟩
        have heq : t.row = row := h.row_eq ht hrow hid.symm
        have hp : p t.kind t.scope = true := by
          rw [← heq] at hp
          exact hp
        show t.birth ≤ if p t.kind t.scope then s.clock + 1 else s.last t.kind t.scope
        rw [hp]
        exact le_trans (le_trans hsound.birth hsound.taken) (Nat.le_succ _)
      · exact le_trans (hsound.ended hold) (hlast _ _)

/-- No step of a manager that is enabled breaks the epochs. -/
lemma core_step (henabled : cfg.enabled = true) (h : Core s.view)
    (hstep : Step codec cfg s l t) : Core t.view := by
  cases hstep with
  | beginFill kind | load kind => exact h.begin kind _
  | @set kind key value ttl token accepted =>
    have hgeneration := generation_le_set codec cfg s kind key value ttl token accepted
    rw [set_frame]
    exact h.raise hgeneration
  | @fill k f value accepted =>
    have hgeneration :=
      generation_le_set codec cfg s f.kind f.key value f.ttl (some f.token) accepted
    rw [set_frame]
    exact h.raise hgeneration
  | @invalidate n i kind =>
    have hdone := h.invalidateEpochs fun k σ => k = kind ∧ σ = i.scope
    have henabled : s.Invalidate cfg kind i.scope = s.invalidateScope kind i.scope := by
      simp [State.Invalidate, henabled]
    rw [henabled]
    exact hdone
  | clear p => exact h.invalidateEpochs fun k _ => p k
  | _ => exact h

lemma past_step (h : ∀ kind scope, s.last kind scope ≤ s.clock)
    (hstep : Step codec cfg s l t) : ∀ kind scope, t.last kind scope ≤ t.clock := by
  have hreturned : ∀ (u : State) (p : CacheType → Str → Bool), u.last = s.last → u.clock = s.clock →
      ∀ kind scope, (u.returned p).last kind scope ≤ (u.returned p).clock := by
    intro u p hlast hclock kind scope
    show (if p kind scope then u.clock + 1 else u.last kind scope) ≤ u.clock + 1
    split
    · exact le_rfl
    · rw [hlast, hclock]
      exact le_trans (h kind scope) (Nat.le_succ _)
  cases hstep with
  | beginFill | load =>
    rw [State.BeginFill_frame]
    exact h
  | set | fill =>
    rw [set_frame]
    exact h
  | invalidate =>
    rw [State.Invalidate_frame]
    exact hreturned _ _ rfl rfl
  | clear p => exact hreturned (s.clear p) _ rfl rfl
  | _ => exact h

end Core

/-! ## When there are no stale answers -/

/-- The value that is returned is newer than every invalidation of its kind and scope that had
returned when the call began. -/
def NoStaleAnswer (s : State) : Prop := ∀ a ∈ s.answers, a.cutoff ≤ a.result.born

lemma tracks_empty (low : FillToken → Nat) : Tracks codec cfg low empty := by
  refine ⟨?_, ?_, ?_, ?_, ?_⟩
  · rintro e (he | he) <;> exact absurd he not_mem_nil
  · rintro c call ⟨⟩
  · rintro k f ⟨⟩
  · rintro c call c' ⟨⟩
  · intro a ha
    exact absurd ha not_mem_nil

lemma core_empty : Core empty.view := by
  refine ⟨nodup_nil, nodup_nil, ?_, ?_, ?_, ?_, fun _ _ => le_rfl, ?_, ?_, ?_⟩
  all_goals
    intro x hx
    exact absurd hx not_mem_nil

variable {s : State} {c : Nat}

/-- A manager that is enabled. -/
lemma tracks_of_enabled (henabled : cfg.enabled = true)
    (h : (machine codec cfg).Reachable s) : Core s.view ∧ Tracks codec cfg FillToken.birth s := by
  refine Machine.Reachable.induct (I := fun s => Core s.view ∧ Tracks codec cfg FillToken.birth s) ?_ ?_ h
  · rintro s rfl
    exact ⟨core_empty, tracks_empty _⟩
  · rintro s l t _ ⟨hcore, htracks⟩ hstep
    exact ⟨core_step henabled hcore hstep, tracks_step htracks hcore.law hstep⟩

/-- A manager that is not enabled stores nothing, and loads that are not shared are the caller's. -/
lemma tracks_of_unshared (hdisabled : cfg.enabled = false) (hown : cfg.fillCoalescingEnabled = false) (h : (machine codec cfg).Reachable s) :
    (∀ kind scope, s.last kind scope ≤ s.clock) ∧ Tracks codec cfg FillToken.taken s := by
  refine Machine.Reachable.induct
    (I := fun s => (∀ kind scope, s.last kind scope ≤ s.clock) ∧ Tracks codec cfg FillToken.taken s) ?_ ?_ h
  · rintro s rfl
    exact ⟨fun _ _ => le_rfl, tracks_empty _⟩
  · rintro s l t _ ⟨hpast, htracks⟩ hstep
    have hlaw : Law codec cfg FillToken.taken s :=
      { past := hpast
        taken := fun _ _ => le_rfl
        begins := hpast
        shared := by
          intro hshared
          rw [hown] at hshared
          cases hshared
        current := by
          intro kind key e he
          have hserves := he.serves
          rw [Config.serves, hdisabled] at hserves
          cases hserves }
    exact ⟨past_step hpast hstep, tracks_step htracks hlaw hstep⟩

/-- `Load` of a key that is not in the cache, up to the load that it shares or starts. -/
lemma reach_waiting (hshared : cfg.fillCoalescingEnabled = true)
    (h : (machine codec cfg).Reachable s) (hfree : s.calls c = none) (kind : CacheType)
    (key : Str) : let tok := s.fillToken kind (cacheScope codec key)
    let k := FlightKey.shared (coalescingKey kind key tok.epoch)
    let call : Call := ⟨kind, key, some (tok, 0), .waiting k, s.last kind (cacheScope codec key),
      s.lastOfLayer⟩
    (machine codec cfg).Reachable
      { (s.BeginFill kind (cacheScope codec key)).setCall c (some call) with
        flights := joinFlight cfg s.flights k ⟨kind, key, 0, tok, .looking⟩ } := by
  intro tok k call
  have hk : flightKey cfg c kind key tok = k := by simp [flightKey, hshared, k]
  have hset : ∀ (u : State) (call call' : Option Call), (u.setCall c call).setCall c call' = u.setCall c call' := by
    intro u call call'
    simp [setCall]
  have h1 := h.step (Step.load kind key 0 hfree)
  have h2 := h1.step (Step.miss (calls_setCall _ _ _) rfl)
  rw [hset] at h2
  have h3 := h2.step (Step.join (calls_setCall _ _ _) rfl rfl)
  rw [hset, hk] at h3
  have hflights : (s.BeginFill kind (cacheScope codec key)).flights = s.flights := by
    rw [State.BeginFill_frame]
  rw [← hflights]
  exact h3

/-- The load returns, and a call that waits for it has its value. -/
lemma reach_answer (h : (machine codec cfg).Reachable s) {k} {f : Flight}
    (hf : s.flights k = some f) (hphase : f.phase = .looking) {call : Call}
    (hcall : s.calls c = some call) (hwaits : call.phase = .waiting k) :
    ∃ t, (machine codec cfg).Reachable t ∧ call.answer ⟨[], f.token.taken, false⟩ ∈ t.answers := by
  have h1 := h.step (Step.missFlight hf hphase)
  have h2 := h1.step (Step.loaded [] (flights_setFlight _ _ _) rfl)
  have h3 := h2.step (Step.fill true (flights_setFlight _ _ _) rfl)
  have h4 := h3.step (Step.complete (flights_setFlight _ _ _) rfl)
  have hset : ∀ u : State, (u.set codec cfg f.kind f.key [] f.ttl (some f.token) true).calls = u.calls := by
    intro u
    rw [set_frame]
  let result : Loaded := ⟨[], f.token.taken, false⟩
  have hdelivered : ∀ u : State, u.calls = s.calls →
      deliver k result u.calls c = some { call with phase := .delivered result } := by
    intro u hu
    simp [deliver, hu, hcall, hwaits]
  have h5 := h4.step (Step.answer (hdelivered _ (hset _)) rfl)
  exact ⟨_, h5, mem_cons_self⟩

/-- A load is under way when its scope is invalidated, which does nothing. The next load joins it. -/
lemma stale_of_shared (hdisabled : cfg.enabled = false) (hshared : cfg.fillCoalescingEnabled = true) :
    ∃ s, (machine codec cfg).Reachable s ∧ ¬ NoStaleAnswer s := by
  have h0 : (machine codec cfg).Reachable empty := .init rfl
  have h1 := reach_waiting hshared h0 (c := 0) rfl .features []
  have h2 := h1.step (Step.invalidateOne (n := 0) .features [] (by decide) rfl)
  have h3 := h2.step (Step.invalidate (n := 0) rfl rfl)
  have hnothing : ∀ u : State, u.Invalidate cfg .features [] = u := by
    intro u
    simp [State.Invalidate, hdisabled]
  rw [hnothing] at h3
  have h4 := reach_waiting hshared h3 (c := 1) rfl .features []
  rcases reach_answer h4 (joinFlight_old hshared (joinFlight_new rfl _) _) rfl
    (calls_setCall _ _ _) rfl with ⟨s, hs, hmem⟩
  refine ⟨s, hs, fun hall => ?_⟩
  have hstale : 1 ≤ 0 := hall _ hmem
  omega

/-- A manager gives no stale answers if it is enabled, or if loads are not shared, and only then. -/
theorem no_stale_answer_iff (codec : Codec) (cfg : Config) :
    (∀ s, (machine codec cfg).Reachable s → NoStaleAnswer s) ↔
      cfg.enabled = true ∨ cfg.fillCoalescingEnabled = false := by
  constructor
  · intro hall
    by_contra hnot
    rcases not_or.mp hnot with ⟨hdisabled, hshared⟩
    have hrun : ∃ s, (machine codec cfg).Reachable s ∧ ¬ NoStaleAnswer s :=
      stale_of_shared (by simpa using hdisabled) (by simpa using hshared)
    rcases hrun with ⟨s, hs, hstale⟩
    exact hstale (hall s hs)
  · intro hcfg s hs
    cases henabled : cfg.enabled with
    | true => exact (tracks_of_enabled henabled hs).2.answers
    | false =>
      have hown : cfg.fillCoalescingEnabled = false := hcfg.resolve_left (by simp [henabled])
      exact (tracks_of_unshared henabled hown hs).2.answers

/-- The cache is switched off; loads are still shared, which is the default. -/
def switchedOff : Config where
  enabled := false
  fillCoalescingEnabled := true
  kinds _ := ⟨true, 60, 0⟩

theorem switchedOff_stale : ∃ s, (machine pairCodec switchedOff).Reachable s ∧ ¬ NoStaleAnswer s :=
  stale_of_shared rfl rfl

end NeoServer.Cache
