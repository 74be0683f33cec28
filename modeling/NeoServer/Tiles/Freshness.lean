import NeoServer.Tiles.Coherence

/-!
# Tiles.Freshness — fetches return fresh tiles

The steps of writes keep the invariant of `Tiles.Coherence`, as long as the revision in
memory is not too far ahead of the catalog.

- `Inv.write`, `Inv.commit`, `Inv.restart` : what a step of a write, a commit and a restart
  keep,
- `fresh_of_reachable` : so fetches return fresh tiles in every run,
- `stale_tile_served` : a run in which four writes in a row begin before the catalog is
  marked, three of them in vain, and a tile from before a write is served after it.
-/

namespace NeoServer.Tiles

/-! ## Steps of writes -/

section Writes

variable {κ : Type} {enabled : Bool} {s s' : State κ}

/-- What a step that is not one of a fetch changes. -/
abbrev State.wrote (s : State κ) (catalog : Catalog) (revision : Nat) (pending : Bool)
    (writer : Writer) (source finished epoch : Nat) : State κ :=
  { s with catalog, revision, pending, writer, source, finished, epoch }

variable {catalog : Catalog} {revision : Nat} {pending : Bool} {writer : Writer}
  {source finished epoch : Nat}

/-- Such a step keeps the invariant if it keeps the bounds of every fetch and tile. -/
lemma Inv.keeps (h : Inv enabled s)
    (hs' : s' = s.wrote catalog revision pending writer source finished epoch)
    (hfinished : finished ≤ source) (hstep : s'.InStep enabled) (hbegan : s.finished ≤ finished)
    (hepoch : s.epoch ≤ epoch)
    (hadded : ∀ r, r + s.added enabled ≤ s.catalog.revision + ahead enabled →
      r + s'.added enabled ≤ catalog.revision + ahead enabled)
    (htile : ∀ r v, TileInv s r v → TileInv s' r v)
    (hloose : ∀ l ∈ s.fetches, l.Filled → ∀ v, LooseInv enabled s l v → LooseInv enabled s' l v) :
    Inv enabled s' := by
  subst hs'
  refine ⟨hfinished, hstep, ?_, fun r v hc => htile r v (h.tile r v hc), h.seen, ?_, h.looseSeen⟩
  · intro f hf
    have hinv := h.fetch f hf
    refine ⟨Nat.le_trans hinv.began hbegan, fun hid => hadded _ (hinv.identified hid), ?_,
      fun hfill => Nat.le_trans (hinv.filled hfill) hepoch, hinv.uses, hinv.returned, hinv.call,
      hinv.waiting⟩
    -- the bound of a fetch that uses the caches is that of a tile as new as the source
    intro hc huse
    rcases hinv.checked hc huse with ⟨hreached, hmarked⟩
    have ht := htile f.revision s.source ⟨hreached, hmarked, fun hlt => absurd hlt (Nat.lt_irrefl _)⟩
    exact ⟨ht.reached, ht.marked⟩
  · intro l hl huse v hv
    exact hloose l hl (filled_of_held hv) v (h.loose l hl huse v hv)

lemma TileInv.mono {r v : Nat} (h : TileInv s r v)
    (hcatalog : s.catalog.revision ≤ s'.catalog.revision)
    (hmarked : s'.writer.Marked → s.writer.Marked ∨ s.catalog.revision < s'.catalog.revision)
    (hlow : s.low ≤ s'.low) (hsource : s'.source = s.source) : TileInv s' r v := by
  refine ⟨Nat.le_trans h.reached hcatalog, ?_, ?_⟩
  · intro hm
    rcases hmarked hm with hm | hlt
    · exact Nat.lt_of_lt_of_le (h.marked hm) hcatalog
    · exact Nat.lt_of_le_of_lt h.reached hlt
  · intro hlt
    rw [hsource] at hlt
    exact Nat.lt_of_lt_of_le (h.current hlt) hlow

/-- A step of a write before its end: it is at most the lower bound that moves. -/
lemma Inv.writes (h : Inv enabled s)
    (hs' : s' = s.wrote catalog revision pending writer s.source s.finished epoch)
    (hstep : s'.InStep enabled) (hcatalog : s.catalog.revision ≤ catalog.revision)
    (hmarked : writer.Marked → s.writer.Marked ∨ s.catalog.revision < catalog.revision)
    (hlow : s.low ≤ s'.low) (hepoch : s.epoch ≤ epoch)
    (hadded : ∀ r, r + s.added enabled ≤ s.catalog.revision + ahead enabled →
      r + s'.added enabled ≤ catalog.revision + ahead enabled)
    (hclosing : enabled = false → writer = .stored ∨ writer = .cleared →
      (s.writer = .stored ∨ s.writer = .cleared) ∨
      ∀ r, r + s.added enabled ≤ s.catalog.revision + ahead enabled → r < s'.low) :
    Inv enabled s' := by
  subst hs'
  refine h.keeps rfl h.finished hstep .refl hepoch hadded ?_ ?_
  · exact fun r v ht => ht.mono hcatalog hmarked hlow rfl
  · intro l hl hfilled v hloose
    refine ⟨?_, ?_, ?_⟩
    · intro henabled heq
      apply hloose.epoch henabled
      have hbound := (h.fetch l hl).filled hfilled
      have heq : l.epoch = epoch := heq
      omega
    · intro henabled hlt
      exact Nat.lt_of_lt_of_le (hloose.finished henabled hlt) hlow
    · intro henabled hphase hlt
      rcases hclosing henabled hphase with hold | hbound
      · exact Nat.lt_of_lt_of_le (hloose.source henabled hold hlt) hlow
      · exact hbound _ ((h.fetch l hl).identified hfilled.identified)

/-- The end of a write: in the next epoch no tile that was rendered before counts, and
without epochs no revision that was read before. -/
lemma Inv.ends (h : Inv enabled s) (hw : s.writer = .cleared ∨ s.writer = .failed) :
    Inv enabled
      { s.invalidateTiles enabled with finished := s.source, writer := .idle } := by
  have hstep := h.inStep
  unfold State.InStep at hstep
  cases henabled : enabled with
  | true =>
    rw [henabled] at h hstep
    change Inv true { s with epoch := s.epoch + 1, finished := s.source, writer := .idle }
    refine h.keeps rfl .refl ?_ h.finished (Nat.le_succ _) ?_ ?_ ?_
    · unfold State.InStep
      rcases hw with hw | hw <;> rw [hw] at hstep
      · exact ⟨fun _ => hstep.2, Nat.le_trans (Nat.le_of_eq hstep.2) (Nat.le_add_right _ _)⟩
      refine ⟨?_, Nat.le_trans hstep.2.2 (Nat.le_add_right _ _)⟩
      intro hp
      have hp' : s.pending = false := hp
      rw [hstep.2.1] at hp'
      cases hp'
    · intro r hr
      unfold State.added at hr ⊢
      rcases hw with hw | hw <;> rw [hw] at hstep hr
      · simpa [hstep.1] using hr
      · simpa [hstep.2.1] using hr
    · intro r v ht
      exact ⟨ht.reached, nofun, ht.current⟩
    · intro l hl hfilled v hloose
      refine ⟨?_, nofun, nofun⟩
      intro _ heq
      have hbound := (h.fetch l hl).filled hfilled
      have heq' : l.epoch = s.epoch + 1 := heq
      omega
  | false =>
    have hcleared : s.writer = .cleared := by
      rcases hw with hw | hw
      · exact hw
      · rw [hw, henabled] at hstep
        cases hstep.1
    rw [hcleared] at hstep
    rw [henabled] at h
    change Inv false { s with finished := s.source, writer := .idle }
    refine h.keeps rfl .refl ?_ h.finished .refl ?_ ?_ ?_
    · exact ⟨fun _ => hstep.2, Nat.le_trans (Nat.le_of_eq hstep.2) (Nat.le_add_right _ _)⟩
    · intro r hr
      unfold State.added at hr ⊢
      rw [hcleared] at hr
      simpa [hstep.1] using hr
    · intro r v ht
      exact ⟨ht.reached, nofun, ht.current⟩
    · intro l _ _ v hloose
      refine ⟨nofun, ?_, ?_⟩
      · intro _ hlt
        exact hloose.source rfl (.inr hcleared) hlt
      · intro _ hphase
        rcases hphase with hphase | hphase <;> cases hphase

theorem Inv.commit (h : Inv enabled s) (hc : s.commit = some s') : Inv enabled s' := by
  unfold State.commit at hc
  split at hc
  · rename_i hw
    cases hc
    have hstep := h.inStep
    unfold State.InStep at hstep
    rw [hw] at hstep
    have hlow : s.low = s.catalog.revision := by
      unfold State.low
      rw [hstep.2, Nat.min_self]
    refine h.keeps rfl (Nat.le_succ_of_le h.finished) h.inStep .refl
      .refl (fun _ hr => hr) ?_ ?_
    · intro r v ht
      refine ⟨ht.reached, ht.marked, fun _ => ?_⟩
      change r < s.low
      rw [hlow]
      apply ht.marked
      rw [hw]
      trivial
    · intro l _ _ v hl
      refine ⟨hl.epoch, hl.finished, ?_⟩
      intro _ hphase
      rw [hw] at hphase
      rcases hphase with hphase | hphase <;> cases hphase
  · cases hc

lemma not_pending {b : Bool} (hb : b = true) {p : Prop} (h : b = false) : p := by
  rw [hb] at h
  cases h

/-! In each phase of the writer the state is taken apart, so that the bounds of the phase compute. -/

section

variable (h : Inv enabled s)

include h

lemma Inv.write_idle (hw : s.writer = .idle) (m : Marker) : Inv enabled (s.write enabled m) := by
  cases s
  cases hw
  exact h.writes rfl h.inStep .refl nofun .refl .refl (fun _ hr => hr) nofun

lemma Inv.write_gated (hw : s.writer = .gated) (m : Marker) :
    Inv enabled (s.write enabled m) := by
  cases s
  cases hw
  refine h.writes rfl ⟨rfl, h.inStep.2⟩ .refl nofun .refl .refl ?_ nofun
  intro r hr
  exact Nat.le_trans (Nat.add_le_add_left (Nat.zero_le _) r) hr

lemma Inv.write_flagged (hw : s.writer = .flagged) (m : Marker)
    (hkept : s.revision + 1 ≤ s.catalog.revision + ahead enabled) :
    Inv enabled (s.write enabled m) := by
  cases s
  cases hw
  refine h.writes rfl ⟨h.inStep.1, hkept⟩ .refl nofun ?_ .refl (fun _ hr => hr) nofun
  dsimp only [State.low, State.write]
  omega

lemma Inv.write_bumped (hw : s.writer = .bumped) (m : Marker) :
    Inv enabled (s.write enabled m) := by
  cases s
  cases hw
  obtain ⟨hpending, hle⟩ := h.inStep
  dsimp only at hpending hle
  cases m with
  | ok =>
    refine h.writes rfl ⟨hpending, rfl, ?_⟩ (Nat.le_succ _)
      (fun _ => .inr (Nat.lt_succ_self _)) ?_ .refl ?_ nofun
    · dsimp only [State.write, Marker.apply, setDataWritePending]
      omega
    · dsimp only [State.low, State.write, Marker.apply, setDataWritePending]
      omega
    · intro r hr
      change r + 1 ≤ _ + 1 + ahead enabled
      omega
  | lost =>
    refine h.writes rfl ⟨not_pending hpending, hle⟩ .refl nofun .refl .refl ?_ nofun
    intro r hr
    simpa [State.added, State.write, Marker.apply, hpending] using hr
  | written =>
    refine h.writes rfl ⟨not_pending hpending, ?_⟩ (Nat.le_succ _) nofun ?_ .refl ?_ nofun
    · dsimp only [State.write, Marker.apply, setDataWritePending]
      omega
    · dsimp only [State.low, State.write, Marker.apply, setDataWritePending]
      omega
    · intro r hr
      dsimp only [State.added] at hr
      change r + (if _ then 0 else _) ≤ _ + 1 + ahead enabled
      simp only [State.write, hpending, if_true]
      omega

lemma Inv.write_marked (hw : s.writer = .marked revision) (m : Marker) :
    Inv enabled (s.write enabled m) := by
  cases s
  cases hw
  obtain ⟨hpending, hrevision, -⟩ := h.inStep
  refine h.writes rfl ⟨hpending, hrevision⟩ .refl (fun _ => .inl trivial) ?_ .refl
    (fun _ hr => hr) nofun
  dsimp only [State.low, State.write] at hrevision ⊢
  omega

lemma Inv.write_loaded (hw : s.writer = .loaded) (m : Marker) :
    Inv enabled (s.write enabled m) := by
  cases s
  cases hw
  cases enabled with
  | true =>
    exact h.writes rfl h.inStep .refl (fun _ => .inl trivial) .refl (Nat.le_succ _)
      (fun _ hr => hr) nofun
  | false =>
    exact h.writes rfl h.inStep .refl (fun _ => .inl trivial) .refl .refl (fun _ hr => hr) nofun

lemma Inv.write_writing (hw : s.writer = .writing) {m : Marker}
    (hkept : enabled = false → m = .ok) : Inv enabled (s.write enabled m) := by
  cases s
  cases hw
  obtain ⟨hpending, hrevision⟩ := h.inStep
  have henabled : m ≠ .ok → enabled = true := by
    intro hm
    cases enabled with
    | true => rfl
    | false => exact absurd (hkept rfl) hm
  cases m with
  | ok =>
    refine h.writes rfl ⟨hpending, rfl, congrArg (· + 1) hrevision⟩ (Nat.le_succ _) nofun ?_ .refl
      ?_ nofun
    · dsimp only [State.low, State.write, Marker.apply, setDataWritePending]
      omega
    · intro r hr
      change r + 1 ≤ _ at hr
      change r + 2 ≤ _ + 1 + ahead enabled
      omega
  | lost =>
    refine h.writes rfl ⟨henabled nofun, hpending, Nat.le_of_eq hrevision⟩
      .refl nofun .refl .refl ?_ nofun
    intro r hr
    exact Nat.le_trans (Nat.add_le_add_left (Nat.zero_le _) r) hr
  | written =>
    refine h.writes rfl ⟨henabled nofun, hpending, ?_⟩ (Nat.le_succ _) nofun ?_ .refl ?_ nofun
    · exact Nat.le_succ_of_le (Nat.le_of_eq hrevision)
    · dsimp only [State.low, State.write, Marker.apply, setDataWritePending]
      omega
    · intro r hr
      change r + 0 ≤ _ + 1 + ahead enabled
      omega

lemma Inv.write_closed (hw : s.writer = .closed revision) (m : Marker) :
    Inv enabled (s.write enabled m) := by
  cases s
  cases hw
  obtain ⟨hpending, hrevision, -⟩ := h.inStep
  dsimp only at hrevision
  refine h.writes rfl ⟨hpending, hrevision⟩ .refl nofun ?_ .refl ?_ ?_
  · dsimp only [State.low, State.write]
    omega
  · intro r hr
    dsimp only [State.added, State.write, ahead] at hr ⊢
    split at hr <;> omega
  · rintro rfl -
    refine .inr fun r hr => ?_
    dsimp only [State.added, State.low, State.write, ahead] at hr ⊢
    simp only [Bool.false_eq_true, if_false] at hr
    omega

lemma Inv.write_stored (hw : s.writer = .stored) (m : Marker) :
    Inv enabled (s.write enabled m) := by
  cases s
  cases hw
  exact h.writes rfl ⟨rfl, h.inStep.2⟩ .refl nofun .refl .refl (fun _ hr => hr)
    fun _ _ => .inl (.inl rfl)

/-- A step of a write keeps the invariant. -/
theorem Inv.write {m : Marker}
    (hkept : (s.writer = .flagged → s.revision + 1 ≤ s.catalog.revision + ahead enabled) ∧
      (s.writer = .writing → enabled = false → m = .ok)) : Inv enabled (s.write enabled m) := by
  cases hw : s.writer with
  | idle => exact h.write_idle hw m
  | gated => exact h.write_gated hw m
  | flagged => exact h.write_flagged hw m (hkept.1 hw)
  | bumped => exact h.write_bumped hw m
  | marked => exact h.write_marked hw m
  | loaded => exact h.write_loaded hw m
  | writing => exact h.write_writing hw (hkept.2 hw)
  | closed => exact h.write_closed hw m
  | stored => exact h.write_stored hw m
  | cleared =>
    unfold State.write
    rw [hw]
    exact h.ends (.inl hw)
  | failed =>
    unfold State.write
    rw [hw]
    exact h.ends (.inr hw)

end

end Writes

/-! ## Runs -/

section Runs

variable {κ : Type} [DecidableEq κ] {enabled : Bool} {s s' : State κ}

section

variable (h : Inv enabled s)

include h

omit [DecidableEq κ] in
lemma Inv.invalidate : Inv enabled (s.invalidateTiles enabled) := by
  unfold State.invalidateTiles
  split
  · refine h.writes rfl h.inStep .refl .inl .refl (Nat.le_succ _) (fun _ hr => hr)
      (fun _ hphase => .inl hphase)
  · exact h

omit [DecidableEq κ] in
/-- Tiles get lost. -/
lemma Inv.subset {memory} {persistent}
    (hmemory : ∀ e ∈ memory, e ∈ s.memory) (hpersistent : ∀ t ∈ persistent, t ∈ s.persistent) :
    Inv enabled { s with memory := memory, persistent := persistent } := by
  have hcached : ∀ r v,
      Cached { s with memory := memory, persistent := persistent } r v → Cached s r v := by
    rintro r v (⟨e, he, hr, hv⟩ | ⟨t, ht, hr, hv⟩ | hf)
    · exact .inl ⟨e, hmemory e he, hr, hv⟩
    · exact .inr (.inl ⟨t, hpersistent t ht, hr, hv⟩)
    · exact .inr (.inr hf)
  refine ⟨h.finished, h.inStep, ?_, ?_, fun r v hc => h.seen r v (hcached r v hc), ?_, h.looseSeen⟩
  · intro f hf
    have hf := h.fetch f hf
    exact ⟨hf.began, hf.identified, hf.checked, hf.filled, hf.uses, hf.returned, hf.call, hf.waiting⟩
  · intro r v hc
    have ht := h.tile r v (hcached r v hc)
    exact ⟨ht.reached, ht.marked, ht.current⟩
  · intro l hl huse v hv
    have hl := h.loose l hl huse v hv
    exact ⟨hl.epoch, hl.finished, hl.source⟩

omit [DecidableEq κ] in
/-- After a restart only the tiles of the persistent cache are left. -/
theorem Inv.restart : Inv enabled s.restart := by
  have hcatalog : s.catalog.revision ≤ (recoverDataWrites s.catalog).revision := by
    unfold recoverDataWrites
    split
    · exact Nat.le_succ _
    · exact .refl
  have hlow : s.low ≤ s.restart.low := by
    refine Nat.le_trans (Nat.min_le_right _ _) (Nat.le_trans hcatalog ?_)
    exact Nat.le_min.mpr ⟨.refl, .refl⟩
  have hnone : ∀ f, ¬ f ∈ ([] : List (Fetch κ)) := nofun
  refine ⟨.refl, ⟨fun _ => rfl, Nat.le_add_right _ _⟩, fun f hf => absurd hf (hnone f), ?_,
    fun _ _ _ f hf => absurd hf (hnone f), fun l hl => absurd hl (hnone l),
    fun l hl => absurd hl (hnone l)⟩
  rintro r v (⟨e, he, -⟩ | hp | ⟨f, hf, -⟩)
  · cases he
  · exact (h.tile r v (.inr (.inl hp))).mono hcatalog nofun hlow rfl
  · cases hf

lemma Inv.advance {i : Nat} {f f' : Fetch κ} {ok : Bool}
    (hf : s.fetches[i]? = some f) (hadv : s.advance enabled f ok = some (s', f')) :
    Inv enabled { s' with fetches := s'.fetches.set i f' } := by
  have hinv := h.fetch f (List.mem_of_getElem? hf)
  by_cases hidentity : f.pc = .identity
  · unfold State.advance at hadv
    rw [hidentity] at hadv
    cases hadv
    exact h.identify hf
  by_cases hpending : f.pc = .pending
  · unfold State.advance at hadv
    rw [hpending] at hadv
    cases hadv
    exact h.check hf hpending
  by_cases hfill : f.pc = .fill
  · unfold State.advance at hadv
    rw [hfill] at hadv
    cases hadv
    apply h.fill hf hfill
    cases hlooks : f.looks with
    | true =>
      exact .inl ⟨rfl, (Bool.and_eq_true_iff.mp hlooks).1⟩
    | false => exact .inr rfl
  · have hfilled : f.Filled := ⟨hidentity, hpending, hfill⟩
    rcases advance_moves hinv hfilled hadv with ⟨hm⟩
    exact h.moves hf hfilled hm

lemma Inv.next {a} (hstep : s.next enabled a = some s')
    (hkept : Kept enabled s a) : Inv enabled s' := by
  cases a with
  | start request =>
    cases hstep
    exact h.start request
  | advance i ok =>
    unfold State.next at hstep
    dsimp only at hstep
    split at hstep
    · cases hstep
    rename_i f hf
    rcases Option.map_eq_some_iff.mp hstep with ⟨⟨t, f'⟩, hadv, rfl⟩
    exact h.advance hf hadv
  | write m =>
    cases hstep
    exact h.write (hkept m rfl)
  | commit => exact h.commit hstep
  | invalidate =>
    cases hstep
    exact h.invalidate
  | evict =>
    cases hstep
    exact h.subset (fun e he => (Table.mem_delete.mp he).1) (fun t ht => ht)
  | delete =>
    cases hstep
    exact h.subset (fun e he => he) (fun t ht => (Table.mem_delete.mp ht).1)
  | restart =>
    cases hstep
    exact h.restart

end

omit [DecidableEq κ] in
lemma inv_init : Inv enabled ({} : State κ) := by
  have hnone : ∀ f, ¬ f ∈ ([] : List (Fetch κ)) := nofun
  refine ⟨.refl, ⟨fun _ => rfl, Nat.le_add_right _ _⟩, fun f hf => absurd hf (hnone f), ?_,
    fun _ _ _ f hf => absurd hf (hnone f), fun l hl => absurd hl (hnone l),
    fun l hl => absurd hl (hnone l)⟩
  rintro r v (⟨e, he, -⟩ | ⟨t, ht, -⟩ | ⟨f, hf, -⟩)
  · cases he
  · cases ht
  · cases hf

end Runs

/-- In every run in which writes begin only when the revision in memory is not too far ahead
of the catalog, fetches return fresh tiles. -/
theorem fresh_of_reachable {κ : Type} [DecidableEq κ] (enabled : Bool) (s : State κ)
    (h : ((fetchMachine κ enabled).restrict fun s a _ => Kept enabled s a).Reachable s) :
    Fresh s := by
  have hinv : Inv enabled s := by
    refine Machine.Reachable.induct ?_ ?_ h
    · rintro s rfl
      exact inv_init
    · rintro s a s' - hinv ⟨hstep, hkept⟩
      exact hinv.next hstep hkept
  intro f hf version hdone
  exact (hinv.fetch f hf).returned version hdone

/-! ### A revision that comes twice -/

instance {κ : Type} (enabled : Bool) (s : State κ) (a : Action κ) : Decidable (Kept enabled s a) :=
  match a with
  | .write m => decidable_of_iff
      ((s.writer = .flagged → s.revision + 1 ≤ s.catalog.revision + ahead enabled) ∧
        (s.writer = .writing → enabled = false → m = .ok))
      ⟨fun h m' hm => by cases hm; exact h, fun h => h m rfl⟩
  | .start _ | .advance _ _ | .commit | .invalidate | .evict _ _ | .delete _ _ | .restart =>
    .isTrue nofun

/-- A run through some actions, each of which has to meet a condition. -/
def State.run {κ : Type} [DecidableEq κ] (enabled : Bool) (P : State κ → Action κ → Prop)
    [∀ s a, Decidable (P s a)] (s : State κ) : List (Action κ) → Option (State κ)
  | [] => some s
  | a :: rest => if P s a then (s.next enabled a).bind fun t => t.run enabled P rest else none

lemma reachable_run {κ : Type} [DecidableEq κ] {enabled : Bool} {P : State κ → Action κ → Prop}
    [∀ s a, Decidable (P s a)] {actions} {s t : State κ}
    (hs : ((fetchMachine κ enabled).restrict fun s a _ => P s a).Reachable s)
    (h : s.run enabled P actions = some t) :
    ((fetchMachine κ enabled).restrict fun s a _ => P s a).Reachable t := by
  induction actions generalizing s with
  | nil =>
    cases h
    exact hs
  | cons a rest ih =>
    unfold State.run at h
    split at h
    · rename_i hP
      rcases Option.bind_eq_some_iff.mp h with ⟨u, hnext, hrest⟩
      exact ih (hs.step ⟨hnext, hP⟩) hrest
    · cases h

/-- A request for one tile. -/
def roadTile : Action Unit := .start ⟨(), true, false, true⟩

/-- Some steps of a fetch. -/
def steps (i n : Nat) : List (Action Unit) := List.replicate n (.advance i true)

/-- Some steps of a write. -/
def writeSteps (n : Nat) : List (Action Unit) := List.replicate n (.write .ok)

/-- A write from the gate to the end. -/
def wholeWrite : List (Action Unit) := writeSteps 6 ++ [.commit] ++ writeSteps 4

/-- A write that begins in vain. -/
def lostWrite : List (Action Unit) := writeSteps 3 ++ [.write .lost]

/-- A tile is rendered; a write; the tile is rendered again, and found after that. -/
def tileAfterWrite : Option (State Unit) :=
  State.run true (Kept true) {} ([roadTile] ++ steps 0 12 ++ wholeWrite ++ [roadTile] ++
    steps 1 12 ++ [roadTile] ++ steps 2 4)

theorem fresh_of_reachable_sample :
    ∃ s, tileAfterWrite = some s ∧
      s.fetches.map Fetch.pc = [.done (.data 0), .done (.data 1), .done (.data 1)] ∧ Fresh s := by
  have hrun : tileAfterWrite.map (fun s => s.fetches.map Fetch.pc) =
      some [.done (.data 0), .done (.data 1), .done (.data 1)] := by decide +kernel
  rcases Option.map_eq_some_iff.mp hrun with ⟨s, hs, hpc⟩
  refine ⟨s, hs, hpc, fresh_of_reachable true s ?_⟩
  apply reachable_run _ hs
  exact .init rfl

/-- Three writes begin in vain. A fetch reads the revision when the fourth has raised it in
memory, and checks the flag when the write is over. The next write ends with that revision. -/
def tileFromBefore : Option (State Unit) :=
  State.run true (fun _ _ => True) {} (lostWrite ++ lostWrite ++ lostWrite ++ writeSteps 3 ++
    [roadTile] ++ steps 0 1 ++ writeSteps 3 ++ [.commit] ++ writeSteps 4 ++ steps 0 11 ++
    wholeWrite ++ [roadTile] ++ steps 1 6)

/-- A tile that was rendered after one write is served after the next. -/
theorem stale_tile_served :
    ∃ s, (fetchMachine Unit true).Reachable s ∧
      s.fetches.map (fun f => (f.began, f.pc)) = [(0, .done (.data 1)), (2, .done (.data 1))] ∧
      ¬ Fresh s := by
  have hrun : tileFromBefore.map (fun s => s.fetches.map fun f => (f.began, f.pc)) =
      some [(0, .done (.data 1)), (2, .done (.data 1))] := by decide +kernel
  rcases Option.map_eq_some_iff.mp hrun with ⟨s, hs, hfetches⟩
  refine ⟨s, ?_, hfetches, ?_⟩
  · unfold tileFromBefore at hs
    apply Machine.Reachable.of_restrict
    apply reachable_run _ hs
    exact .init rfl
  intro hfresh
  have hmem : (2, Pc.done (.data 1)) ∈ s.fetches.map fun f => (f.began, f.pc) := by
    rw [hfetches]
    exact List.mem_cons_of_mem _ List.mem_cons_self
  rcases List.mem_map.mp hmem with ⟨f, hf, heq⟩
  rcases Prod.mk.inj heq with ⟨hbegan, hpc⟩
  have hle := hfresh f hf 1 hpc
  omega

end NeoServer.Tiles
