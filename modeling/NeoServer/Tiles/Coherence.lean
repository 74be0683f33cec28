import NeoServer.Tiles.Fetch

/-!
# Tiles.Coherence — the invariant of fetches and writes

The revision in memory goes back to that of the catalog when a write begins, so it does not
only grow; but it never falls below `State.low`, which does. The argument:

- a fetch that uses the caches saw the flag clear, so its revision is one that the catalog
  had reached (`FetchInv.checked`),
- a write that commits raised the catalog before, so tiles that it makes stale have a
  revision below `low`, which no later fetch reads (`TileInv.current`),
- fetches that go around the caches share what they render only with fetches that began
  after the last invalidation, or in the same revision (`LooseInv`).

`Inv` holds all of it together. Here it is kept by the steps of fetches (`Inv.moves`,
`Inv.identify`, `Inv.check`, `Inv.fill`); `Tiles.Freshness` has the steps of writes.
-/

namespace NeoServer.Tiles

open List

variable {enabled : Bool} {κ : Type} {persistent : List (Tile κ)} {s : State κ} {f : Fetch κ}
  {memory : List (Entry κ)}

/-! ## The invariant -/

section Invariant

/-- The revision of the identity was read. -/
def Fetch.Identified (f : Fetch κ) : Prop := f.pc ≠ .identity

/-- The flag was checked. -/
def Fetch.Checked (f : Fetch κ) : Prop := f.pc ≠ .identity ∧ f.pc ≠ .pending

/-- The fetch has its fill token. -/
def Fetch.Filled (f : Fetch κ) : Prop := f.pc ≠ .identity ∧ f.pc ≠ .pending ∧ f.pc ≠ .fill

/-- The tile that a fetch has in its hands. -/
def Pc.held : Pc → Option Nat
  | .hit v | .rehit _ v | .setMemory _ v | .put _ v | .complete _ (.data v) => some v
  | _ => none

/-- The call of the group that a fetch takes part in. -/
def Pc.call : Pc → Option Nat
  | .wait c | .recheck c | .repersistent c | .rehit c _ | .render c | .setMemory c _ | .put c _
  | .complete c _ => some c
  | _ => none

/-- Places that only fetches get to that use the caches. -/
def Pc.cached : Pc → Bool
  | .memory | .persistent | .hit _ | .recheck _ | .repersistent _ | .rehit _ _ | .setMemory _ _
  | .put _ _ => true
  | _ => false

lemma Fetch.Filled.identified (h : f.Filled) : f.Identified := h.1

lemma Fetch.Filled.checked (h : f.Filled) : f.Checked := ⟨h.1, h.2.1⟩

lemma filled_of_held {v : Nat} (h : f.pc.held = some v) : f.Filled := by
  refine ⟨?_, ?_, ?_⟩ <;> intro hpc <;> rw [hpc] at h <;> cases h

/-- No revision below this one is in memory again. -/
def State.low (s : State κ) : Nat := min s.revision s.catalog.revision

/-- The catalog has the mark of the write in progress. -/
def Writer.Marked : Writer → Prop
  | .marked _ | .loaded | .writing => True
  | _ => False

/-- What the write in progress will still add to the revision of the catalog, or has added
to it since revisions were ahead. -/
def State.added (enabled : Bool) (s : State κ) : Nat :=
  match s.writer with
  | .idle | .gated => if s.pending then 0 else ahead enabled
  | .flagged | .bumped | .failed => 0
  | .marked _ | .loaded | .writing => 1
  | .closed _ => 2
  | .stored | .cleared => ahead enabled

/-- How the revision in memory stands to that of the catalog. -/
def State.InStep (enabled : Bool) (s : State κ) : Prop :=
  match s.writer with
  | .idle | .gated => (s.pending = false → s.revision = s.catalog.revision) ∧
      s.revision ≤ s.catalog.revision + ahead enabled
  | .flagged | .bumped => s.pending = true ∧ s.revision ≤ s.catalog.revision + ahead enabled
  | .marked r => s.pending = true ∧ r = s.catalog.revision ∧
      s.revision + 1 ≤ s.catalog.revision + ahead enabled
  | .loaded | .writing | .stored => s.pending = true ∧ s.revision = s.catalog.revision
  | .closed r => s.pending = true ∧ r = s.catalog.revision ∧ s.revision + 1 = s.catalog.revision
  | .cleared => s.pending = false ∧ s.revision = s.catalog.revision
  | .failed => enabled = true ∧ s.pending = true ∧ s.revision ≤ s.catalog.revision

structure FetchInv (enabled : Bool) (s : State κ) (f : Fetch κ) : Prop where
  began : f.began ≤ s.finished
  identified : f.Identified → f.revision + s.added enabled ≤ s.catalog.revision + ahead enabled
  checked : f.Checked → f.useCache = true →
    f.revision ≤ s.catalog.revision ∧ (s.writer.Marked → f.revision < s.catalog.revision)
  filled : f.Filled → f.epoch ≤ s.epoch
  uses : f.pc.cached = true → f.useCache = true
  returned : ∀ v, f.pc = .done (.data v) → f.began ≤ v
  call : ∀ c, f.pc.call = some c →
    ∃ call, s.calls[c]? = some call ∧ call.revision = f.revision ∧ call.epoch = f.epoch
  waiting : ∀ c call v, f.pc = .wait c → s.calls[c]? = some call →
    call.result = some (.data v) → f.began ≤ v

/-- A tile that a fetch with that revision may find. -/
def Cached (s : State κ) (r v : Nat) : Prop :=
  (∃ e ∈ s.memory, e.tile.revision = r ∧ e.tile.version = v) ∨
  (∃ t ∈ s.persistent, t.revision = r ∧ t.version = v) ∨
  ∃ f ∈ s.fetches, f.useCache = true ∧ f.revision = r ∧ f.pc.held = some v

structure TileInv (s : State κ) (r v : Nat) : Prop where
  reached : r ≤ s.catalog.revision
  marked : s.writer.Marked → r < s.catalog.revision
  current : v < s.source → r < s.low

/-- A tile in the hands of a fetch that goes around the caches. -/
structure LooseInv (enabled : Bool) (s : State κ) (l : Fetch κ) (v : Nat) : Prop where
  epoch : enabled = true → l.epoch = s.epoch → s.finished ≤ v
  finished : enabled = false → v < s.finished → l.revision < s.low
  source : enabled = false → s.writer = .stored ∨ s.writer = .cleared → v < s.source →
    l.revision < s.low

/-- A fetch that may be coalesced with another, now or later. -/
def Coalesces (enabled : Bool) (l f : Fetch κ) : Prop :=
  f.Identified ∧ f.revision = l.revision ∧ (enabled = true → f.Filled ∧ f.epoch = l.epoch)

structure Inv (enabled : Bool) (s : State κ) : Prop where
  finished : s.finished ≤ s.source
  inStep : s.InStep enabled
  fetch : ∀ f ∈ s.fetches, FetchInv enabled s f
  tile : ∀ r v, Cached s r v → TileInv s r v
  seen : ∀ r v, Cached s r v → ∀ f ∈ s.fetches, f.Identified → f.revision = r → f.began ≤ v
  loose : ∀ l ∈ s.fetches, l.useCache = false → ∀ v, l.pc.held = some v → LooseInv enabled s l v
  looseSeen : ∀ l ∈ s.fetches, l.useCache = false → ∀ v, l.pc.held = some v →
    ∀ f ∈ s.fetches, Coalesces enabled l f → f.began ≤ v

lemma ahead_pos (enabled : Bool) : 0 < ahead enabled := by
  cases enabled <;> decide

lemma State.InStep.revision_added (h : s.InStep enabled) :
    s.revision + s.added enabled ≤ s.catalog.revision + ahead enabled := by
  have hpos := ahead_pos enabled
  unfold State.InStep at h
  unfold State.added
  cases hw : s.writer <;> rw [hw] at h <;> dsimp only at h ⊢
  case idle =>
    cases hp : s.pending with
    | true => simpa using h.2
    | false => simpa using Nat.le_of_eq (h.1 hp)
  case gated =>
    cases hp : s.pending with
    | true => simpa using h.2
    | false => simpa using Nat.le_of_eq (h.1 hp)
  all_goals omega

/-- While the flag is clear, no write has marked the catalog or is about to add to it. -/
lemma State.InStep.clear (h : s.InStep enabled)
    (hp : s.pending = false) : s.added enabled = ahead enabled ∧ ¬ s.writer.Marked := by
  unfold State.InStep at h
  unfold State.added
  cases hw : s.writer <;> rw [hw] at h <;> simp_all [Writer.Marked]

/-- A fetch that has a tile in its hands may return it. -/
lemma Inv.began_le_held (h : Inv enabled s) (hf : f ∈ s.fetches) {v : Nat}
    (hv : f.pc.held = some v) {g : Fetch κ} (hg : g ∈ s.fetches) (hco : Coalesces enabled f g) :
    g.began ≤ v := by
  cases huse : f.useCache with
  | true => exact h.seen f.revision v (.inr (.inr ⟨f, hf, huse, rfl, hv⟩)) g hg hco.1 hco.2.1
  | false => exact h.looseSeen f hf huse v hv g hg hco

lemma coalesces_self (hf : f.Filled) : Coalesces enabled f f :=
  ⟨hf.identified, rfl, fun _ => ⟨hf, rfl⟩⟩

variable {calls : List (Call κ)} {pc : Pc} {i : Nat}

/-- A step of a fetch that has its fill token, to these tiles and calls. -/
structure Moves (s : State κ) (f : Fetch κ) (memory : List (Entry κ)) (persistent : List (Tile κ))
    (calls : List (Call κ)) (pc : Pc) : Prop where
  filled : pc ≠ .identity ∧ pc ≠ .pending ∧ pc ≠ .fill
  uses : pc.cached = true → f.useCache = true
  memory : ∀ e ∈ memory, e ∈ s.memory ∨
    (f.useCache = true ∧ e.tile.revision = f.revision ∧ f.pc.held = some e.tile.version)
  persistent : ∀ t ∈ persistent, t ∈ s.persistent ∨
    (f.useCache = true ∧ t.revision = f.revision ∧ f.pc.held = some t.version)
  held : ∀ v, pc.held = some v → f.pc.held = some v ∨ v = s.source ∨
    (f.useCache = true ∧ Cached s f.revision v)
  returned : ∀ v, pc = .done (.data v) → f.pc.held = some v ∨ Cached s f.revision v ∨
    ∃ c call, f.pc = .wait c ∧ s.calls[c]? = some call ∧ call.result = some (.data v)
  call : ∀ c, pc.call = some c → f.pc.call = some c ∨
    ∃ call, calls[c]? = some call ∧ call.revision = f.revision ∧ call.epoch = f.epoch
  wait : ∀ c, pc = .wait c → calls = s.calls ∧ ∀ call, s.calls[c]? = some call → call.result = none
  kept : ∀ (c : Nat) (call : Call κ), s.calls[c]? = some call → ∃ call', calls[c]? = some call' ∧
    call'.revision = call.revision ∧ call'.epoch = call.epoch
  calls : ∀ (c : Nat) (call' : Call κ) v, calls[c]? = some call' → call'.result = some (.data v) →
    s.calls[c]? = some call' ∨ f.pc = .complete c (.data v)

inductive Advances (s : State κ) (f : Fetch κ) : State κ → Fetch κ → Prop
  | of {m : List (Entry κ)} {p : List (Tile κ)} {k : List (Call κ)} {q : Pc} (h : Moves s f m p k q) :
    Advances s f { s with memory := m, persistent := p, calls := k } { f with pc := q }

/-- The state after such a step. -/
def State.moved (s : State κ) (memory : List (Entry κ)) (persistent : List (Tile κ))
    (calls : List (Call κ)) (i : Nat) (f : Fetch κ) : State κ :=
  { s with memory, persistent, calls, fetches := s.fetches.set i f }

/-- A fetch takes a step: its tiles are those that it had, one that it found, or one that it
rendered now. -/
lemma Moves.cached (hm : Moves s f memory persistent calls pc) (hf : s.fetches[i]? = some f)
    {r v : Nat} (h : Cached (s.moved memory persistent calls i { f with pc := pc }) r v) :
    Cached s r v ∨ (f.useCache = true ∧ r = f.revision ∧ v = s.source) := by
  have hmem := mem_of_getElem? hf
  rcases h with ⟨e, he, rfl, rfl⟩ | ⟨t, ht, rfl, rfl⟩ | ⟨g, hg, huse, rfl, hv⟩
  · rcases hm.memory e he with he | ⟨huse, hr, hv⟩
    · exact .inl (.inl ⟨e, he, rfl, rfl⟩)
    · exact .inl (.inr (.inr ⟨f, hmem, huse, hr.symm, hv⟩))
  · rcases hm.persistent t ht with ht | ⟨huse, hr, hv⟩
    · exact .inl (.inr (.inl ⟨t, ht, rfl, rfl⟩))
    · exact .inl (.inr (.inr ⟨f, hmem, huse, hr.symm, hv⟩))
  · rcases mem_or_eq_of_mem_set hg with hg | rfl
    · exact .inl (.inr (.inr ⟨g, hg, huse, rfl, hv⟩))
    rcases hm.held v hv with hv | rfl | ⟨-, hcached⟩
    · exact .inl (.inr (.inr ⟨f, hmem, huse, rfl, hv⟩))
    · exact .inr ⟨huse, rfl, rfl⟩
    · exact .inl hcached

/-- A fetch that may still be coalesced with others does not notice a step of its own. -/
lemma coalesces_pc {l : Fetch κ} (hf : f.Filled)
    (h : Coalesces enabled l { f with pc := pc }) : Coalesces enabled l f :=
  ⟨hf.identified, h.2.1, fun he => ⟨hf, (h.2.2 he).2⟩⟩

lemma Moves.fetchInv_self (h : Inv enabled s) (hf : s.fetches[i]? = some f) (hfilled : f.Filled)
    (hm : Moves s f memory persistent calls pc) :
    FetchInv enabled (s.moved memory persistent calls i { f with pc := pc }) { f with pc := pc } := by
  have hmem := mem_of_getElem? hf
  have hinv := h.fetch f hmem
  refine ⟨hinv.began, fun _ => hinv.identified hfilled.identified,
    fun _ huse => hinv.checked hfilled.checked huse, fun _ => hinv.filled hfilled, hm.uses, ?_, ?_, ?_⟩
  · intro v hv
    change f.began ≤ v
    rcases hm.returned v hv with hheld | hcached | ⟨c, call, hwait, hcall, hresult⟩
    · exact h.began_le_held hmem hheld hmem (coalesces_self hfilled)
    · exact h.seen f.revision v hcached f hmem hfilled.identified rfl
    · exact hinv.waiting c call v hwait hcall hresult
  · intro c hc
    rcases hm.call c hc with hc | hnew
    · rcases hinv.call c hc with ⟨call, hcall, hrevision, hepoch⟩
      rcases hm.kept c call hcall with ⟨call', hcall', hrevision', hepoch'⟩
      exact ⟨call', hcall', hrevision'.trans hrevision, hepoch'.trans hepoch⟩
    · exact hnew
  · intro c call v hwait hcall hresult
    rcases hm.wait c hwait with ⟨hsame, hnone⟩
    rw [hsame] at hcall
    rw [hnone call hcall] at hresult
    cases hresult

/-- Another fetch gets its result from the call that the step completes, if it waits for it. -/
lemma Moves.fetchInv_other (h : Inv enabled s) (hf : s.fetches[i]? = some f)
    (hm : Moves s f memory persistent calls pc) {g : Fetch κ} (hg : g ∈ s.fetches) :
    FetchInv enabled (s.moved memory persistent calls i { f with pc := pc }) g := by
  have hmem := mem_of_getElem? hf
  have hinv := h.fetch g hg
  refine ⟨hinv.began, hinv.identified, hinv.checked, hinv.filled, hinv.uses, hinv.returned, ?_, ?_⟩
  · intro c hc
    rcases hinv.call c hc with ⟨call, hcall, hrevision, hepoch⟩
    rcases hm.kept c call hcall with ⟨call', hcall', hrevision', hepoch'⟩
    exact ⟨call', hcall', hrevision'.trans hrevision, hepoch'.trans hepoch⟩
  · intro c call v hwait hcall hresult
    rcases hm.calls c call v hcall hresult with hold | hcomplete
    · exact hinv.waiting c call v hwait hold hresult
    -- both have the key of the call
    have hgcall : g.pc.call = some c := by rw [hwait]; rfl
    have hfcall : f.pc.call = some c := by rw [hcomplete]; rfl
    have hheld : f.pc.held = some v := by rw [hcomplete]; rfl
    rcases hinv.call c hgcall with ⟨call₁, hcall₁, hrevision₁, hepoch₁⟩
    rcases (h.fetch f hmem).call c hfcall with ⟨call₂, hcall₂, hrevision₂, hepoch₂⟩
    have heq : call₁ = call₂ := Option.some.inj (hcall₁.symm.trans hcall₂)
    have hfilled : g.Filled := by
      refine ⟨?_, ?_, ?_⟩ <;> rw [hwait] <;> intro hpc <;> cases hpc
    apply h.began_le_held hmem hheld hg
    refine ⟨hfilled.identified, ?_, fun _ => ⟨hfilled, ?_⟩⟩
    · rw [← hrevision₁, heq, hrevision₂]
    · rw [← hepoch₁, heq, hepoch₂]

/-- A step of a fetch that has its token keeps the invariant. -/
theorem Inv.moves (h : Inv enabled s) (hf : s.fetches[i]? = some f) (hfilled : f.Filled)
    (hm : Moves s f memory persistent calls pc) :
    Inv enabled (s.moved memory persistent calls i { f with pc := pc }) := by
  have hmem := mem_of_getElem? hf
  have hinv := h.fetch f hmem
  have hcases : ∀ g ∈ s.fetches.set i { f with pc := pc },
      g = { f with pc := pc } ∨ g ∈ s.fetches := fun g hg => (mem_or_eq_of_mem_set hg).symm
  have htile : ∀ {r v}, TileInv s r v →
      TileInv (s.moved memory persistent calls i { f with pc := pc }) r v :=
    fun ht => ⟨ht.reached, ht.marked, ht.current⟩
  have hfresh : ∀ g ∈ s.fetches, g.began ≤ s.source := fun g hg =>
    Nat.le_trans (h.fetch g hg).began h.finished
  refine ⟨h.finished, h.inStep, ?_, ?_, ?_, ?_, ?_⟩
  · intro g hg
    rcases hcases g hg with rfl | hg
    · exact hm.fetchInv_self h hf hfilled
    · exact hm.fetchInv_other h hf hg
  · intro r v hcached
    rcases hm.cached hf hcached with hold | ⟨huse, rfl, rfl⟩
    · exact htile (h.tile r v hold)
    · rcases hinv.checked hfilled.checked huse with ⟨hreached, hmarked⟩
      exact htile ⟨hreached, hmarked, fun hlt => absurd hlt (Nat.lt_irrefl _)⟩
  · intro r v hcached g hg hid hr
    rcases hm.cached hf hcached with hold | ⟨huse, rfl, rfl⟩
    · rcases hcases g hg with rfl | hg
      · exact h.seen r v hold f hmem hfilled.identified hr
      · exact h.seen r v hold g hg hid hr
    · rcases hcases g hg with rfl | hg
      · exact hfresh f hmem
      · exact hfresh g hg
  · intro l hl huse v hv
    rcases hcases l hl with rfl | hl
    · rcases hm.held v hv with hheld | rfl | ⟨huse', -⟩
      · have hloose := h.loose f hmem huse v hheld
        exact ⟨hloose.epoch, hloose.finished, hloose.source⟩
      · have hle := h.finished
        refine ⟨fun _ _ => hle, fun _ hlt => ?_, fun _ _ hlt => absurd hlt (Nat.lt_irrefl _)⟩
        exact absurd hle (Nat.not_le.mpr hlt)
      · rw [huse'] at huse
        cases huse
    · have hloose := h.loose l hl huse v hv
      exact ⟨hloose.epoch, hloose.finished, hloose.source⟩
  · intro l hl huse v hv g hg hco
    have hco' : g ∈ s.fetches ∧ Coalesces enabled l g ∨ Coalesces enabled l f ∧ g.began = f.began := by
      rcases hcases g hg with rfl | hg
      · exact .inr ⟨coalesces_pc hfilled hco, rfl⟩
      · exact .inl ⟨hg, hco⟩
    have hbegan : ∀ w, (∀ g ∈ s.fetches, Coalesces enabled l g → g.began ≤ w) → g.began ≤ w := by
      intro w hw
      rcases hco' with ⟨hg, hco⟩ | ⟨hco, heq⟩
      · exact hw g hg hco
      · rw [heq]
        exact hw f hmem hco
    apply hbegan
    rcases hcases l hl with rfl | hl
    · rcases hm.held v hv with hheld | rfl | ⟨huse', -⟩
      · exact fun g hg hco => h.looseSeen f hmem huse v hheld g hg ⟨hco.1, hco.2.1, hco.2.2⟩
      · exact fun g hg _ => hfresh g hg
      · rw [huse'] at huse
        cases huse
    · exact h.looseSeen l hl huse v hv

end Invariant

/-! ## Steps of a fetch -/

section Fetches

variable {pc : Pc} {c v : Nat}

/-- A step that leaves the calls. -/
lemma Moves.keep (huses : pc.cached = true → f.useCache = true)
    (hheld : ∀ v, pc.held = some v → f.pc.held = some v ∨ v = s.source ∨
      (f.useCache = true ∧ Cached s f.revision v))
    (hreturned : ∀ v, pc = .done (.data v) → f.pc.held = some v ∨ Cached s f.revision v ∨
      ∃ c call, f.pc = .wait c ∧ s.calls[c]? = some call ∧ call.result = some (.data v))
    (hcall : ∀ c, pc.call = some c → f.pc.call = some c ∨
      ∃ call, s.calls[c]? = some call ∧ call.revision = f.revision ∧ call.epoch = f.epoch)
    (hwait : ∀ c, pc = .wait c → ∀ call, s.calls[c]? = some call → call.result = none)
    (hfilled : pc ≠ .identity ∧ pc ≠ .pending ∧ pc ≠ .fill := by exact ⟨nofun, nofun, nofun⟩)
    (hmemory : ∀ e ∈ memory, e ∈ s.memory ∨ (f.useCache = true ∧ e.tile.revision = f.revision ∧
      f.pc.held = some e.tile.version) := by exact fun _ => .inl)
    (hpersistent : ∀ t ∈ persistent, t ∈ s.persistent ∨ (f.useCache = true ∧
      t.revision = f.revision ∧ f.pc.held = some t.version) := by exact fun _ => .inl) :
    Moves s f memory persistent s.calls pc :=
  ⟨hfilled, huses, hmemory, hpersistent, hheld, hreturned, hcall, fun c hc => ⟨rfl, hwait c hc⟩,
    fun _ call hcall => ⟨call, hcall, rfl, rfl⟩, fun _ _ _ hcall _ => .inl hcall⟩

/-- The fetch is the first with its key. -/
lemma moves_lead
    (hlead : pc = .recheck s.calls.length ∧ f.useCache = true ∨ pc = .render s.calls.length) :
    Moves s f s.memory s.persistent (s.calls ++ [⟨f.request.tile, f.revision, f.epoch, none⟩]) pc := by
  have hnew : ∀ call : Call κ, (s.calls ++ [call])[s.calls.length]? = some call := by
    intro call
    rw [getElem?_append_right .refl, Nat.sub_self]
    rfl
  have hfilled : pc ≠ .identity ∧ pc ≠ .pending ∧ pc ≠ .fill := by
    rcases hlead with ⟨rfl, -⟩ | rfl <;> exact ⟨nofun, nofun, nofun⟩
  have huses : pc.cached = true → f.useCache = true := by
    rcases hlead with ⟨rfl, huse⟩ | rfl
    · exact fun _ => huse
    · exact nofun
  have hheld : ∀ v, pc.held ≠ some v := by
    rcases hlead with ⟨rfl, -⟩ | rfl <;> exact nofun
  have hcall : ∀ c, pc.call = some c → c = s.calls.length := by
    rcases hlead with ⟨rfl, -⟩ | rfl <;> exact fun c hc => (Option.some.inj hc).symm
  refine ⟨hfilled, huses, fun _ he => .inl he, fun _ ht => .inl ht, fun v hv => absurd hv (hheld v), ?_, ?_, ?_, ?_, ?_⟩
  · rintro v rfl
    rcases hlead with ⟨h, -⟩ | h <;> cases h
  · intro c hc
    rw [hcall c hc]
    exact .inr ⟨_, hnew _, rfl, rfl⟩
  · rintro c rfl
    rcases hlead with ⟨h, -⟩ | h <;> cases h
  · intro c call hcall
    have hlt : c < s.calls.length := (List.getElem?_eq_some_iff.mp hcall).1
    refine ⟨call, ?_, rfl, rfl⟩
    rw [getElem?_append_left hlt]
    exact hcall
  · intro c call' v hcall hresult
    rw [getElem?_append] at hcall
    split at hcall
    · exact .inl hcall
    · -- the new call has no result
      rcases mem_singleton.mp (mem_of_getElem? hcall) with rfl
      cases hresult

/-- The fetch gives its result to the call that it runs. -/
lemma moves_complete {result : Outcome} (hpc : f.pc = .complete c result) :
    Moves s f s.memory s.persistent (s.setCall c result).calls (.done result) := by
  have hget : ∀ i, (s.setCall c result).calls[i]? = s.calls[i]?.map fun call =>
      if c = i then { call with result := some result } else call := by
    intro i
    exact getElem?_modify _ c s.calls i
  refine ⟨⟨nofun, nofun, nofun⟩, nofun, fun _ he => .inl he, fun _ ht => .inl ht, nofun, ?_, nofun,
    nofun, ?_, ?_⟩
  · rintro v ⟨⟩
    rw [hpc]
    exact .inl rfl
  · intro i call hcall
    rw [hget, hcall]
    refine ⟨_, rfl, ?_, ?_⟩ <;> split <;> rfl
  · intro i call' v hcall hresult
    rw [hget] at hcall
    rcases Option.map_eq_some_iff.mp hcall with ⟨call, hold, rfl⟩
    split at hresult
    · rename_i hi
      cases hresult
      rw [hpc, hi]
      exact .inr rfl
    · rename_i hi
      rw [if_neg hi]
      exact .inl hold

variable [DecidableEq κ]

lemma getMemory_cached (h : s.getMemory enabled f = some v) : Cached s f.revision v := by
  unfold State.getMemory at h
  split at h
  · rcases Option.map_eq_some_iff.mp h with ⟨e, he, rfl⟩
    rcases Option.filter_eq_some_iff.mp he with ⟨hget, -⟩
    rcases Table.mem_of_get hget with ⟨hmem, hkey⟩
    exact .inl ⟨e, hmem, congrArg Prod.snd hkey, rfl⟩
  · cases h

lemma getPersistent_cached (h : s.getPersistent f = some v) : Cached s f.revision v := by
  rcases Option.map_eq_some_iff.mp h with ⟨t, hget, rfl⟩
  rcases Table.mem_of_get hget with ⟨hmem, hkey⟩
  exact .inr (.inl ⟨t, hmem, congrArg Prod.snd hkey, rfl⟩)

lemma getPersistent_ok_cached {ok : Bool}
    (h : (if ok then s.getPersistent f else none) = some v) : Cached s f.revision v := by
  cases ok with
  | true => exact getPersistent_cached h
  | false => cases h

lemma mem_setMemory {e : Entry κ} (h : e ∈ (s.setMemory enabled f v).memory) :
    e ∈ s.memory ∨ (e.tile.revision = f.revision ∧ e.tile.version = v) := by
  unfold State.setMemory at h
  split at h
  · rcases Table.mem_put.mp h with rfl | ⟨h, -⟩
    · exact .inr ⟨rfl, rfl⟩
    · exact .inl h
  · exact .inl h

lemma mem_putPersistent {t : Tile κ} (h : t ∈ (s.putPersistent f v).persistent) :
    t ∈ s.persistent ∨ (t.revision = f.revision ∧ t.version = v) := by
  rcases Table.mem_put.mp h with rfl | ⟨h, -⟩
  · exact .inr ⟨rfl, rfl⟩
  · exact .inl h

lemma setMemory_eq (s : State κ) (f : Fetch κ) (v : Nat) :
    s.setMemory enabled f v = { s with memory := (s.setMemory enabled f v).memory } := by
  unfold State.setMemory
  split <;> rfl

/-- A step that puts the tile in the hands of the fetch into memory. -/
lemma Moves.ofSetMemory {version : Nat} (huse : f.useCache = true)
    (hv : f.pc.held = some version) (hfilled : pc ≠ .identity ∧ pc ≠ .pending ∧ pc ≠ .fill)
    (hheld : ∀ v, pc.held = some v → v = version)
    (hreturned : ∀ v, pc = .done (.data v) → v = version)
    (hcall : ∀ c, pc.call = some c → f.pc.call = some c) (hwait : ∀ c, pc ≠ .wait c) :
    Moves s f (s.setMemory enabled f version).memory s.persistent s.calls pc := by
  refine .keep (fun _ => huse) (fun v hpc => .inl (hheld v hpc ▸ hv))
    (fun v hpc => .inl (hreturned v hpc ▸ hv)) (fun c hc => .inl (hcall c hc))
    (fun c hc => absurd hc (hwait c)) hfilled ?_
  intro e he
  rcases mem_setMemory he with he | ⟨hr, hversion⟩
  · exact .inl he
  · exact .inr ⟨huse, hr, hversion ▸ hv⟩

lemma findCall_spec (h : s.findCall f = some c) :
    ∃ call, s.calls[c]? = some call ∧ call.revision = f.revision ∧ call.epoch = f.epoch ∧
      call.result = none := by
  rcases findIdx?_eq_some_iff_getElem.mp h with ⟨hlt, hp, -⟩
  have hp := of_decide_eq_true hp
  exact ⟨s.calls[c], getElem?_eq_getElem hlt, hp.2.1, hp.2.2.1, hp.2.2.2⟩

lemma moves_put {c version : Nat} (huse : f.useCache = true) (hpc : f.pc = .put c version) :
    Moves s f s.memory (s.putPersistent f version).persistent s.calls
      (.complete c (.data version)) := by
  have hheld : f.pc.held = some version := by rw [hpc]; rfl
  refine .keep nofun ?_ nofun ?_ nofun (by exact ⟨nofun, nofun, nofun⟩) (fun _ => .inl) ?_
  · rintro v ⟨⟩
    exact .inl hheld
  · rintro d ⟨⟩
    rw [hpc]
    exact .inl rfl
  · intro t ht
    rcases mem_putPersistent ht with ht | ⟨hr, hversion⟩
    · exact .inl ht
    · exact .inr ⟨huse, hr, hversion ▸ hheld⟩

/-- What a fetch that has its token does. -/
lemma advance_moves (hinv : FetchInv enabled s f) (hfilled : f.Filled) {ok : Bool}
    {s' : State κ} {f' : Fetch κ} (h : s.advance enabled f ok = some (s', f')) :
    Advances s f s' f' := by
  have huses := hinv.uses
  unfold State.advance at h
  rcases f with ⟨request, began, pc, revision, useCache, force, epoch⟩
  cases pc with
  | identity => exact absurd rfl hfilled.1
  | pending => exact absurd rfl hfilled.2.1
  | fill => exact absurd rfl hfilled.2.2
  | memory =>
    have huse := huses rfl
    dsimp only at h
    split at h
    · rename_i version hget
      cases h
      refine .of (.keep nofun nofun ?_ nofun nofun)
      rintro v ⟨⟩
      exact .inr (.inl (getMemory_cached hget))
    · cases h
      exact .of (.keep (fun _ => huse) nofun nofun nofun nofun)
  | persistent =>
    have huse := huses rfl
    dsimp only at h
    split at h
    · rename_i version hget
      cases h
      refine .of (.keep (fun _ => huse) ?_ nofun nofun nofun)
      rintro v ⟨⟩
      exact .inr (.inr ⟨huse, getPersistent_ok_cached hget⟩)
    · cases h
      exact .of (.keep nofun nofun nofun nofun nofun)
  | hit =>
    cases h
    rw [setMemory_eq]
    refine .of (.ofSetMemory (huses rfl) rfl ⟨nofun, nofun, nofun⟩ nofun ?_ nofun nofun)
    rintro v ⟨⟩
    rfl
  | join =>
    dsimp only at h
    split at h
    · rename_i c hfind
      cases h
      rcases findCall_spec hfind with ⟨call, hcall, hrevision, hepoch, hresult⟩
      refine .of (.keep nofun nofun nofun ?_ ?_)
      · rintro d ⟨⟩
        exact .inr ⟨call, hcall, hrevision, hepoch⟩
      · intro d hd call' hcall'
        cases hd
        rw [Option.some.inj (hcall'.symm.trans hcall)]
        exact hresult
    · cases h
      refine .of (moves_lead ?_)
      cases hlooks : Fetch.looks _ with
      | true =>
        refine .inl ⟨rfl, ?_⟩
        exact (Bool.and_eq_true_iff.mp hlooks).1
      | false => exact .inr rfl
  | wait c =>
    dsimp only at h
    split at h
    · rename_i result hresult
      cases h
      rcases Option.bind_eq_some_iff.mp hresult with ⟨call, hcall, hresult⟩
      refine .of (.keep nofun nofun ?_ nofun nofun)
      rintro v ⟨⟩
      exact .inr (.inr ⟨c, call, rfl, hcall, hresult⟩)
    · cases h
  | recheck c =>
    have huse := huses rfl
    dsimp only at h
    split at h
    · rename_i version hget
      cases h
      refine .of (.keep nofun ?_ nofun (fun _ => .inl) nofun)
      rintro v ⟨⟩
      exact .inr (.inr ⟨huse, getMemory_cached hget⟩)
    · cases h
      exact .of (.keep (fun _ => huse) nofun nofun (fun _ => .inl) nofun)
  | repersistent c =>
    have huse := huses rfl
    dsimp only at h
    split at h
    · rename_i version hget
      cases h
      refine .of (.keep (fun _ => huse) ?_ nofun (fun _ => .inl) nofun)
      rintro v ⟨⟩
      exact .inr (.inr ⟨huse, getPersistent_ok_cached hget⟩)
    · cases h
      exact .of (.keep nofun nofun nofun (fun _ => .inl) nofun)
  | rehit | setMemory =>
    cases h
    rw [setMemory_eq]
    refine .of (.ofSetMemory (huses rfl) rfl ⟨nofun, nofun, nofun⟩ ?_ nofun ?_ nofun)
    · rintro v ⟨⟩
      rfl
    · exact fun _ hd => hd
  | render c =>
    dsimp only at h
    split at h
    · cases h
      exact .of (.keep nofun nofun nofun (fun _ => .inl) nofun)
    split at h
    · rename_i huse
      cases h
      refine .of (.keep (fun _ => huse) ?_ nofun (fun _ => .inl) nofun)
      rintro v ⟨⟩
      exact .inr (.inl rfl)
    · cases h
      refine .of (.keep nofun ?_ nofun (fun _ => .inl) nofun)
      rintro v ⟨⟩
      exact .inr (.inl rfl)
  | put =>
    cases ok with
    | true =>
      cases h
      exact .of (moves_put (huses rfl) rfl)
    | false =>
      cases h
      exact .of (.keep nofun (fun _ => .inl) nofun (fun _ => .inl) nofun)
  | complete =>
    cases h
    exact .of (moves_complete rfl)
  | done =>
    cases h

end Fetches

/-! ## The steps before the token -/

section Begins

/-- A fetch comes, or changes, without a tile in its hands. -/
lemma Inv.withFetch (h : Inv enabled s) (g : Fetch κ) {fetches}
    (hcases : ∀ e ∈ fetches, e = g ∨ e ∈ s.fetches) (hg : g.pc.held = none)
    (hinv : FetchInv enabled s g) (hseen : g.Identified → ∀ v, Cached s g.revision v → g.began ≤ v)
    (hloose : ∀ l ∈ s.fetches, l.useCache = false → ∀ v, l.pc.held = some v →
      Coalesces enabled l g → g.began ≤ v) : Inv enabled { s with fetches := fetches } := by
  have hcached : ∀ r v, Cached { s with fetches := fetches } r v → Cached s r v := by
    rintro r v (hm | hp | ⟨e, he, huse, hr, hv⟩)
    · exact .inl hm
    · exact .inr (.inl hp)
    · rcases hcases e he with rfl | he
      · rw [hg] at hv
        cases hv
      · exact .inr (.inr ⟨e, he, huse, hr, hv⟩)
  have hframe : ∀ e, FetchInv enabled s e →
      FetchInv enabled { s with fetches := fetches } e := fun e he =>
    ⟨he.began, he.identified, he.checked, he.filled, he.uses, he.returned, he.call, he.waiting⟩
  refine ⟨h.finished, h.inStep, ?_, ?_, ?_, ?_, ?_⟩
  · intro e he
    rcases hcases e he with rfl | he
    · exact hframe e hinv
    · exact hframe e (h.fetch e he)
  · intro r v hc
    have ht := h.tile r v (hcached r v hc)
    exact ⟨ht.reached, ht.marked, ht.current⟩
  · intro r v hc e he hid hr
    rcases hcases e he with rfl | he
    · exact hseen hid v (hr ▸ hcached r v hc)
    · exact h.seen r v (hcached r v hc) e he hid hr
  · intro l hl huse v hv
    rcases hcases l hl with rfl | hl
    · rw [hg] at hv
      cases hv
    · have hl := h.loose l hl huse v hv
      exact ⟨hl.epoch, hl.finished, hl.source⟩
  · intro l hl huse v hv e he hco
    rcases hcases l hl with rfl | hold
    · rw [hg] at hv
      cases hv
    · rcases hcases e he with rfl | he
      · exact hloose l hold huse v hv hco
      · exact h.looseSeen l hold huse v hv e he hco

/-- The identity is read: no tile with the revision in memory is stale. -/
theorem Inv.identify (h : Inv enabled s) {i : Nat} (hf : s.fetches[i]? = some f) :
    Inv enabled
      { s with fetches := s.fetches.set i { f with revision := s.revision, pc := .pending } } := by
  have hinv := h.fetch f (mem_of_getElem? hf)
  have hlow : s.low ≤ s.revision := Nat.min_le_left _ _
  refine h.withFetch _ (fun e he => (mem_or_eq_of_mem_set he).symm) ?_ ?_ ?_ ?_
  · rfl
  · exact ⟨hinv.began, fun _ => h.inStep.revision_added, fun hc => absurd rfl hc.2,
      fun hf => absurd rfl hf.2.1, nofun, nofun, nofun, nofun⟩
  · intro _ v hcached
    have hcurrent := (h.tile s.revision v hcached).current
    have hbegan := hinv.began
    have hle := h.finished
    dsimp only
    omega
  · intro l hl huse v hv hco
    have hloose := h.loose l hl huse v hv
    have hbegan := hinv.began
    cases henabled : enabled with
    | true => exact absurd rfl (hco.2.2 henabled).1.2.1
    | false =>
      have hfinished := hloose.finished henabled
      have heq : s.revision = l.revision := hco.2.1
      dsimp only
      omega

/-- The flag is checked: a fetch that goes on with the caches saw it clear. -/
theorem Inv.check (h : Inv enabled s) {i : Nat} (hf : s.fetches[i]? = some f)
    (hpc : f.pc = .pending) :
    Inv enabled { s with fetches := s.fetches.set i (f.check s.pending) } := by
  have hmem := mem_of_getElem? hf
  have hinv := h.fetch f hmem
  have hid : f.Identified := by
    unfold Fetch.Identified
    rw [hpc]
    exact nofun
  refine h.withFetch _ (fun e he => (mem_or_eq_of_mem_set he).symm) ?_ ?_ ?_ ?_
  · rfl
  · refine ⟨hinv.began, fun _ => hinv.identified hid, ?_, fun hf => absurd rfl hf.2.2, nofun, nofun,
      nofun, nofun⟩
    intro _ huse
    have hclear : s.pending = false := by
      cases hp : s.pending with
      | false => rfl
      | true =>
        rw [hp] at huse
        cases hu : f.request.useCache <;> simp [Fetch.check, hu] at huse
    rcases h.inStep.clear hclear with ⟨hadded, hmarked⟩
    have hbound := hinv.identified hid
    rw [hadded] at hbound
    exact ⟨Nat.le_of_add_le_add_right hbound, fun hm => absurd hm hmarked⟩
  · intro _ v hcached
    exact h.seen f.revision v hcached f hmem hid rfl
  · intro l hl huse v hv hco
    cases henabled : enabled with
    | true => exact absurd rfl (hco.2.2 henabled).1.2.2
    | false => exact h.looseSeen l hl huse v hv f hmem ⟨hid, hco.2.1, fun he => by simp_all⟩

/-- The fetch takes its token: what others render in this epoch is new enough for it. -/
theorem Inv.fill (h : Inv enabled s) {i : Nat} (hf : s.fetches[i]? = some f) (hpc : f.pc = .fill)
    {pc : Pc} (hto : pc = .memory ∧ f.useCache = true ∨ pc = .join) :
    Inv enabled { s with fetches := s.fetches.set i { f with epoch := s.epoch, pc := pc } } := by
  have hmem := mem_of_getElem? hf
  have hinv := h.fetch f hmem
  have hid : f.Identified := by
    unfold Fetch.Identified
    rw [hpc]
    exact nofun
  have hchecked : f.Checked := by
    refine ⟨hid, ?_⟩
    rw [hpc]
    exact nofun
  refine h.withFetch _ (fun e he => (mem_or_eq_of_mem_set he).symm) ?_ ?_ ?_ ?_
  · rcases hto with ⟨rfl, -⟩ | rfl <;> rfl
  · refine ⟨hinv.began, fun _ => hinv.identified hid, fun _ => hinv.checked hchecked,
      fun _ => .refl, ?_, ?_, ?_, ?_⟩
    · rcases hto with ⟨rfl, huse⟩ | rfl
      · exact fun _ => huse
      · exact nofun
    all_goals rcases hto with ⟨rfl, -⟩ | rfl <;> exact nofun
  · intro _ v hcached
    exact h.seen f.revision v hcached f hmem hid rfl
  · intro l hl huse v hv hco
    cases henabled : enabled with
    | true =>
      have heq : s.epoch = l.epoch := (hco.2.2 henabled).2
      exact Nat.le_trans hinv.began ((h.loose l hl huse v hv).epoch henabled heq.symm)
    | false => exact h.looseSeen l hl huse v hv f hmem ⟨hid, hco.2.1, fun he => by simp_all⟩

lemma Inv.start (h : Inv enabled s) (request : Request κ) :
    Inv enabled { s with fetches := s.fetches ++ [{ request := request, began := s.finished }] } := by
  refine h.withFetch { request := request, began := s.finished } ?_ rfl ?_ ?_ ?_
  · intro e he
    rcases mem_append.mp he with he | he
    · exact .inr he
    · exact .inl (mem_singleton.mp he)
  · exact ⟨.refl, fun hid => absurd rfl hid, fun hc => absurd rfl hc.1,
      fun hf => absurd rfl hf.1, nofun, nofun, nofun, nofun⟩
  · intro hid
    exact absurd rfl hid
  · intro l _ _ v _ hco
    exact absurd rfl hco.1

end Begins

end NeoServer.Tiles
