import NeoServer.Owned
import NeoServer.Registry.Sync

/-!
# Registry.Agree — when the registry agrees with the database

A step of a call concerns one workspace or one layer. If no other call is about it, all that the others
rely on stays, so the invariant is about one target at a time.

- `Names`, `Keys` : the indexes, `Owned` by the rows,
- `Call.Ok` : what a call may rely on between its steps,
- `Consistent` : the invariant; `Consistent.advance` reduces a step to its own target,
- `agreement_of_reachable` : in runs of careful steps the registry agrees whenever no call is under way.
-/

namespace NeoServer.Sync

open Function Option

variable {D : Type} {home : Nat → Nat}

/-! ## The invariant -/

structure Names (rows : Nat → Option WorkspaceData) (r : Registry D) : Prop where
  index : ∀ name id, r.workspaces name = some id ↔ ∃ ws, r.workspacesByID id = some ws ∧ ws.name = name
  owned : Owned rows WorkspaceData.name r.workspaces

/-- The registry has the workspace of the service. -/
def Registry.Loads (home : Nat → Nat) (r : Registry D) (service : Nat) : Prop :=
  (r.workspacesByID (home service)).isSome

def LayerRow.slot (row : LayerRow D) : Nat × Str := (row.service, row.data.publicID)

def Registry.holder (r : Registry D) (slot : Nat × Str) : Option Nat :=
  (r.layers slot.1 slot.2).map Layer.id

structure Keys (home : Nat → Nat) (rows : Nat → Option (LayerRow D)) (r : Registry D) : Prop where
  key : ∀ service key layer, r.layers service key = some layer → layer.data.publicID = key
  owned : Owned rows LayerRow.slot r.holder
  unloaded : ∀ service, ¬ r.Loads home service → ∀ key, r.layers service key = none

/-- The registry has the layer in one place only, and there if it has the service. -/
structure Placed (home : Nat → Nat) (r : Registry D) (id service : Nat) (key : Str)
    (P : LayerData D → Prop) : Prop where
  only : ∀ other key' layer, r.layers other key' = some layer → layer.id = id →
    other = service ∧ key' = key ∧ P layer.data
  held : r.Loads home service → ∃ layer, r.layers service key = some layer ∧ layer.id = id

/-- The registry has the layer nowhere. -/
def Registry.Absent (r : Registry D) (id : Nat) : Prop :=
  ∀ service key layer, r.layers service key = some layer → layer.id ≠ id

def WorkspaceOk (k : Catalog D) (r : Registry D) (id : Nat) : Prop :=
  ∀ ws, r.workspacesByID id = some ws → k.workspaces id = some ws

structure LayerOk (home : Nat → Nat) (k : Catalog D) (r : Registry D) (id : Nat) : Prop where
  present : ∀ row, k.layers id = some row →
    Placed home r id row.service row.data.publicID fun data => data = row.data
  absent : k.layers id = none → r.Absent id

def Target.Ok (home : Nat → Nat) (k : Catalog D) (r : Registry D) : Target → Prop
  | .workspace id => WorkspaceOk k r id
  | .layer id => LayerOk home k r id

/-- What a call relies on. -/
def Call.Ok (home : Nat → Nat) (k : Catalog D) (r : Registry D) : Call D → Prop
  | .createdWorkspace id data => k.workspaces id = some data ∧ r.workspacesByID id = none ∧
      ∀ service, home service ≠ id
  | .updatingWorkspace id read _ => k.workspaces id = some read ∧ WorkspaceOk k r id
  | .updatedWorkspace id data => k.workspaces id = some data
  | .deletedWorkspace _ | .creatingLayer _ _ => True
  | .createdLayer id service data => k.layers id = some ⟨service, data⟩ ∧ r.Absent id
  | .updatingLayer id service old _ | .checkedLayer id service old _ | .deletingLayer id service old =>
    k.layers id = some ⟨service, old⟩ ∧ LayerOk home k r id
  | .rereadLayer id service old read _ =>
    k.layers id = some ⟨service, old⟩ ∧ LayerOk home k r id ∧ read = old
  | .updatedLayer id service old data => k.layers id = some ⟨service, data⟩ ∧
      Placed home r id service old.publicID fun held =>
        held.sourceLayer = data.sourceLayer ∧ held.isSQLView = data.isSQLView
  | .deletedLayer id service old => k.layers id = none ∧
      Placed home r id service old.publicID fun _ => True

structure Consistent (home : Nat → Nat) (s : State D) : Prop where
  names : Names s.catalog.workspaces s.registry
  keys : Keys home s.catalog.layers s.registry
  targets : ∀ own, s.Free own → own.Ok home s.catalog s.registry
  calls : ∀ c call, s.calls c = some call → call.Ok home s.catalog s.registry
  distinct : ∀ c c' call call' target, s.calls c = some call → s.calls c' = some call' →
    call.target = some target → call'.target = some target → c = c'

/-! ## A step is about one target -/

/-- Everything that is not about the target stays. -/
structure Local (home : Nat → Nat) (k k' : Catalog D) (r r' : Registry D) (target : Option Target) :
    Prop where
  workspaces : ∀ id, target ≠ some (.workspace id) →
    k'.workspaces id = k.workspaces id ∧ r'.workspacesByID id = r.workspacesByID id
  layers : ∀ id, target ≠ some (.layer id) → k'.layers id = k.layers id
  loads : ∀ service, r'.Loads home service → r.Loads home service
  back : ∀ service key layer, target ≠ some (.layer layer.id) →
    r'.layers service key = some layer → r.layers service key = some layer
  held : ∀ service key layer, target ≠ some (.layer layer.id) → r'.Loads home service →
    r.layers service key = some layer → r'.layers service key = some layer

variable {r r' : Registry D} {s : State D}

section

variable {k k' : Catalog D} {target : Option Target} {id : Nat} {call : Call D}

section

variable (h : Local home k k' r r' target)

include h

lemma Local.workspaceOk (hid : target ≠ some (.workspace id))
    (hok : WorkspaceOk k r id) : WorkspaceOk k' r' id := by
  intro ws hws
  rw [(h.workspaces id hid).2] at hws
  rw [(h.workspaces id hid).1]
  exact hok ws hws

lemma Local.absent (hid : target ≠ some (.layer id)) (hok : r.Absent id) : r'.Absent id := by
  rintro service key layer hlayer rfl
  exact hok service key layer (h.back service key layer hid hlayer) rfl

lemma Local.placed {service : Nat} {key : Str} {P : LayerData D → Prop}
    (hid : target ≠ some (.layer id)) (hok : Placed home r id service key P) :
    Placed home r' id service key P where
  only := by
    rintro other key' layer hlayer rfl
    exact hok.only other key' layer (h.back other key' layer hid hlayer) rfl
  held := by
    intro hloads
    obtain ⟨layer, hlayer, rfl⟩ := hok.held (h.loads service hloads)
    exact ⟨layer, h.held service key layer hid hloads hlayer, rfl⟩

lemma Local.layerOk (hid : target ≠ some (.layer id))
    (hok : LayerOk home k r id) : LayerOk home k' r' id where
  present := by
    rw [h.layers id hid]
    exact fun row hrow => h.placed hid (hok.present row hrow)
  absent := by
    rw [h.layers id hid]
    exact fun hrow => h.absent hid (hok.absent hrow)

lemma Local.targetOk {own : Target} (hown : target ≠ some own) (hok : own.Ok home k r) :
    own.Ok home k' r' := by
  cases own with
  | workspace => exact h.workspaceOk hown hok
  | layer => exact h.layerOk hown hok

/-- What a call about something else relies on stays. -/
lemma Local.callOk (hne : ∀ own, call.target = some own → target ≠ some own)
    (hok : call.Ok home k r) : call.Ok home k' r' := by
  cases call with
  | createdWorkspace id =>
    obtain ⟨hrow, hnone, hservices⟩ := hok
    have hworkspace := h.workspaces id (hne _ rfl)
    exact ⟨hworkspace.1.trans hrow, hworkspace.2.trans hnone, hservices⟩
  | updatingWorkspace id =>
    exact ⟨(h.workspaces id (hne _ rfl)).1.trans hok.1, h.workspaceOk (hne _ rfl) hok.2⟩
  | updatedWorkspace id => exact (h.workspaces id (hne _ rfl)).1.trans hok
  | deletedWorkspace id | creatingLayer service data => trivial
  | createdLayer id =>
    exact ⟨(h.layers id (hne _ rfl)).trans hok.1, h.absent (hne _ rfl) hok.2⟩
  | updatingLayer id service old input | checkedLayer id service old input | deletingLayer id service old =>
    exact ⟨(h.layers id (hne _ rfl)).trans hok.1, h.layerOk (hne _ rfl) hok.2⟩
  | rereadLayer id =>
    exact ⟨(h.layers id (hne _ rfl)).trans hok.1, h.layerOk (hne _ rfl) hok.2.1, hok.2.2⟩
  | updatedLayer id service old data | deletedLayer id service old =>
    exact ⟨(h.layers id (hne _ rfl)).trans hok.1, h.placed (hne _ rfl) hok.2⟩

end

variable {c : Nat} {v : Option (Call D)}

section

variable (h : Consistent home s)

include h

/-- The step lemma: names, keys and the target of the step are left to show. -/
theorem Consistent.advance (hlocal : Local home s.catalog k s.registry r target)
    (hothers : ∀ c' call own, c' ≠ c → s.calls c' = some call → target = some own → call.target ≠ some own)
    (hown : ∀ call own, s.calls c = some call → call.target = some own → target = some own)
    (hafter : ∀ call, v = some call → call.target = target ∧ call.Ok home k r)
    (hnames : Names k.workspaces r) (hkeys : Keys home k.layers r)
    (hend : ∀ own, target = some own → v = none → own.Ok home k r) :
    Consistent home ⟨k, r, update s.calls c v⟩ := by
  constructor
  · exact hnames
  · exact hkeys
  · intro own hfree
    by_cases heq : target = some own
    · -- the call about it has ended
      refine hend own heq ?_
      cases hv : v with
      | none => rfl
      | some call =>
        exact absurd ((hafter call hv).1.trans heq) (hfree c call (by rw [← hv]; exact update_self ..))
    · refine hlocal.targetOk heq (h.targets own fun c' call hcall htarget => ?_)
      by_cases hc : c' = c
      · subst hc
        exact heq (hown call own hcall htarget)
      · exact hfree c' call ((update_of_ne hc ..).trans hcall) htarget
  · intro c' call hcall
    rcases update_eq_some_iff.1 hcall with ⟨rfl, hv⟩ | ⟨hc, hcall⟩
    · exact (hafter call hv).2
    · exact hlocal.callOk (fun own htarget heq => hothers c' call own hc hcall heq htarget)
        (h.calls c' call hcall)
  · intro c₁ c₂ call₁ call₂ own h₁ h₂ ht₁ ht₂
    rcases update_eq_some_iff.1 h₁ with ⟨rfl, hv₁⟩ | ⟨hc₁, hs₁⟩ <;>
      rcases update_eq_some_iff.1 h₂ with ⟨rfl, hv₂⟩ | ⟨hc₂, hs₂⟩
    · rfl
    · exact absurd ht₂ (hothers c₂ call₂ own hc₂ hs₂ ((hafter call₁ hv₁).1.symm.trans ht₁))
    · exact absurd ht₁ (hothers c₁ call₁ own hc₁ hs₁ ((hafter call₂ hv₂).1.symm.trans ht₂))
    · exact h.distinct c₁ c₂ call₁ call₂ own hs₁ hs₂ ht₁ ht₂

/-- A call becomes one about a target that is free. -/
lemma Consistent.begin {own : Target}
    (hfree : s.Free own) (hidle : ∀ old, s.calls c = some old → old.target = none)
    (hlocal : Local home s.catalog k s.registry r (some own))
    (htarget : call.target = some own) (hok : call.Ok home k r) (hnames : Names k.workspaces r)
    (hkeys : Keys home k.layers r) : Consistent home ⟨k, r, update s.calls c (some call)⟩ := by
  refine h.advance hlocal ?_ ?_ ?_ hnames hkeys (by rintro _ _ ⟨⟩)
  · rintro c' call' own' _ hcall' ⟨⟩
    exact hfree c' call' hcall'
  · intro old own' hold hown
    rw [hidle old hold] at hown
    cases hown
  · rintro call' ⟨⟩
    exact ⟨htarget, hok⟩

/-- A call goes on about its target, or ends. -/
lemma Consistent.continue (hcall : s.calls c = some call)
    (hlocal : Local home s.catalog k s.registry r call.target)
    (hafter : ∀ call', v = some call' → call'.target = call.target ∧ call'.Ok home k r)
    (hend : ∀ own, call.target = some own → v = none → own.Ok home k r) (hnames : Names k.workspaces r)
    (hkeys : Keys home k.layers r) : Consistent home ⟨k, r, update s.calls c v⟩ := by
  refine h.advance hlocal ?_ ?_ hafter hnames hkeys hend
  · -- nobody else is about its target
    exact fun c' call' own hne hcall' heq htarget => hne (h.distinct c' c call' call own hcall' hcall htarget heq)
  · intro old own hold hown
    cases hcall.symm.trans hold
    exact hown

lemma Consistent.next {call' : Call D} (hcall : s.calls c = some call)
    (hlocal : Local home s.catalog k s.registry r call.target) (htarget : call'.target = call.target)
    (hok : call'.Ok home k r) (hnames : Names k.workspaces r) (hkeys : Keys home k.layers r) :
    Consistent home ⟨k, r, update s.calls c (some call')⟩ :=
  h.continue hcall hlocal (by rintro _ ⟨⟩; exact ⟨htarget, hok⟩) (by rintro _ _ ⟨⟩) hnames hkeys

lemma Consistent.finish (hcall : s.calls c = some call)
    (hlocal : Local home s.catalog k s.registry r call.target)
    (hok : ∀ own, call.target = some own → own.Ok home k r) (hnames : Names k.workspaces r)
    (hkeys : Keys home k.layers r) : Consistent home ⟨k, r, update s.calls c none⟩ :=
  h.continue hcall hlocal (by rintro _ ⟨⟩) (fun own htarget _ => hok own htarget) hnames hkeys

end

lemma idle_of_eq (hidle : s.calls c = none) (old : Call D) (hold : s.calls c = some old) :
    old.target = none := by
  rw [hidle] at hold
  cases hold

/-- The rows of the target change. -/
lemma Local.stored
    (hworkspaces : ∀ id, target ≠ some (.workspace id) → k'.workspaces id = k.workspaces id)
    (hlayers : ∀ id, target ≠ some (.layer id) → k'.layers id = k.layers id) :
    Local home k k' r r target where
  workspaces := fun id hne => ⟨hworkspaces id hne, rfl⟩
  layers := hlayers
  loads := fun _ h => h
  back := fun _ _ _ _ h => h
  held := fun _ _ _ _ _ h => h

lemma Local.refl : Local home k k r r target := .stored (fun _ _ => rfl) fun _ _ => rfl

end

/-! ## Names of workspaces -/

section Workspaces

variable {rows : Nat → Option WorkspaceData} {id : Nat} {data : WorkspaceData}

lemma Names.store (h : Names rows r) {data}
    (hheld : ∀ d, data = some d → ∀ other, r.workspaces d.name = some other → other = id)
    (hname : ∀ d, data = some d → ∀ other row, other ≠ id → rows other = some row → row.name ≠ d.name) :
    Names (update rows id data) r :=
  ⟨h.index, h.owned.store hheld hname⟩

/-- One workspace of the registry changes, or goes, and the index of names with it. -/
lemma Names.register (h : Names rows r) (id : Nat) (data : Option WorkspaceData)
    (hbyID : r'.workspacesByID = update r.workspacesByID id data)
    (hbyName : ∀ name i, r'.workspaces name = some i ↔
      i = id ∧ (∃ d, data = some d ∧ d.name = name) ∨ i ≠ id ∧ r.workspaces name = some i)
    (hdata : ∀ d, data = some d → rows id = some d) : Names rows r' := by
  constructor
  · intro name i
    rw [hbyName, hbyID]
    by_cases heq : i = id
    · subst heq
      rw [update_self]
      exact ⟨fun hi => hi.elim (fun hi => hi.2) fun hi => absurd rfl hi.1, fun hi => Or.inl ⟨rfl, hi⟩⟩
    · rw [update_of_ne heq, ← h.index]
      exact ⟨fun hi => hi.elim (fun hi => absurd hi.1 heq) fun hi => hi.2, fun hi => Or.inr ⟨heq, hi⟩⟩
  · refine h.owned.hold fun name i hi => ?_
    rcases (hbyName name i).1 hi with ⟨rfl, d, hd, hname⟩ | ⟨_, hold⟩
    · exact Or.inr ⟨d, hdata d hd, hname⟩
    · exact Or.inl hold

/-- The index of names without one workspace. -/
def Registry.namesWithout (r : Registry D) (id : Nat) : Str → Option Nat :=
  match r.workspacesByID id with
  | none => r.workspaces
  | some ws => update r.workspaces ws.name none

lemma Names.without_iff (h : Names rows r) (id : Nat) (name : Str) (i : Nat) :
    r.namesWithout id name = some i ↔ i ≠ id ∧ r.workspaces name = some i := by
  unfold Registry.namesWithout
  cases hws : r.workspacesByID id with
  | none =>
    refine ⟨fun hi => ⟨?_, hi⟩, fun hi => hi.2⟩
    rintro rfl
    obtain ⟨ws, hws', _⟩ := (h.index _ _).1 hi
    rw [hws] at hws'
    cases hws'
  | some ws =>
    have hown : r.workspaces ws.name = some id := (h.index _ _).2 ⟨ws, hws, rfl⟩
    show update r.workspaces ws.name none name = some i ↔ _
    by_cases hname : name = ws.name
    · rw [hname, update_self, hown, some.injEq]
      exact iff_of_false nofun fun hi => hi.1 hi.2.symm
    rw [update_of_ne hname]
    refine ⟨fun hi => ⟨?_, hi⟩, fun hi => hi.2⟩
    rintro rfl
    obtain ⟨ws', hws', hname'⟩ := (h.index _ _).1 hi
    rw [hws, some.injEq] at hws'
    exact hname (hws' ▸ hname'.symm)

/-- The name under which it is stored is free for it. -/
lemma Names.with_iff (h : Names rows r) (hrow : rows id = some data) (name : Str) (i : Nat) :
    update (r.namesWithout id) data.name (some id) name = some i ↔
      i = id ∧ (∃ d, some data = some d ∧ d.name = name) ∨ i ≠ id ∧ r.workspaces name = some i := by
  by_cases hname : name = data.name
  · subst hname
    rw [update_self, some.injEq]
    constructor
    · rintro rfl
      exact Or.inl ⟨rfl, data, rfl, rfl⟩
    · rintro (⟨rfl, _⟩ | ⟨hne, hi⟩)
      · rfl
      · exact absurd (h.owned.own id data hrow i hi) hne
  · rw [update_of_ne hname, h.without_iff]
    refine ⟨Or.inr, ?_⟩
    rintro (⟨_, d, hd, heq⟩ | hi)
    · cases hd
      exact absurd heq.symm hname
    · exact hi

lemma Names.addWorkspace (h : Names rows r) (hrow : rows id = some data)
    (hnone : r.workspacesByID id = none) : Names rows (r.addWorkspace id data) := by
  have hnames : r.namesWithout id = r.workspaces := by
    rw [Registry.namesWithout, hnone]
  refine h.register id (some data) rfl ?_ (by rintro d ⟨⟩; exact hrow)
  intro name i
  rw [← h.with_iff hrow, hnames]
  rfl

lemma Names.updateWorkspace (h : Names rows r) (hrow : rows id = some data) :
    Names rows (r.updateWorkspace id data) := by
  unfold Registry.updateWorkspace
  cases hws : r.workspacesByID id with
  | none => exact h
  | some ws =>
    refine h.register id (some data) rfl ?_ (by rintro d ⟨⟩; exact hrow)
    intro name i
    rw [← h.with_iff hrow, Registry.namesWithout, hws]
    show (if ws.name ≠ data.name then _ else r.workspaces) name = _ ↔ _
    split
    · rfl
    -- the same name is taken out and put back
    rename_i hname
    have hown : r.workspaces ws.name = some id := (h.index _ _).2 ⟨ws, hws, rfl⟩
    rw [← not_ne_iff.1 hname, update_idem, update_eq_self_iff.2 hown.symm]

lemma Names.remove (h : Names rows r) : Names rows (r.remove home id) := by
  unfold Registry.remove
  cases hws : r.workspacesByID id with
  | none => exact h
  | some =>
    refine h.register id none rfl ?_ nofun
    intro name i
    have hiff := h.without_iff id name i
    rw [Registry.namesWithout, hws] at hiff
    refine hiff.trans ⟨Or.inr, ?_⟩
    rintro (⟨_, d, hd, _⟩ | hi)
    · cases hd
    · exact hi

end Workspaces

/-! ## Steps about a workspace -/

section WorkspaceSteps

lemma workspace_ne {id other : Nat} (hne : some (Target.workspace id) ≠ some (.workspace other)) : other ≠ id :=
  fun heq => hne (heq ▸ rfl)

variable {k : Catalog D} {id c service : Nat} {data ws : WorkspaceData}

lemma Local.storeWorkspace {data} :
    Local home k ⟨update k.workspaces id data, k.layers⟩ r r (some (.workspace id)) :=
  .stored (fun _ hne => update_of_ne (workspace_ne hne) ..) fun _ _ => rfl

/-- The registry holds no more layers than before. -/
lemma Keys.shrink {rows} (h : Keys home rows r)
    (hback : ∀ service key layer, r'.layers service key = some layer → r.layers service key = some layer)
    (hunloaded : ∀ service, ¬ r'.Loads home service → ∀ key, r'.layers service key = none) :
    Keys home rows r' where
  key := fun service key layer hlayer => h.key service key layer (hback service key layer hlayer)
  owned := by
    refine h.owned.hold fun slot i hi => Or.inl ?_
    obtain ⟨layer, hlayer, rfl⟩ := map_eq_some_iff.1 hi
    exact map_eq_some_iff.2 ⟨layer, hback _ _ layer hlayer, rfl⟩
  unloaded := hunloaded

lemma Consistent.createWorkspace (h : Consistent home s)
    (hidle : s.calls c = none) (hunknown : s.registry.workspacesByID id = none)
    (hfree : s.Free (.workspace id)) (hservices : ∀ service, home service ≠ id)
    (hname : ∀ other row, s.catalog.workspaces other = some row → row.name ≠ data.name)
    (hheld : ∀ other, s.registry.workspaces data.name = some other → other = id) :
    Consistent home ((s.storeWorkspace id (some data)).setCall c (some (.createdWorkspace id data))) :=
  h.begin hfree (idle_of_eq hidle) Local.storeWorkspace rfl
    ⟨update_self .., hunknown, hservices⟩
    (h.names.store (by rintro _ ⟨⟩; exact hheld) (by rintro _ ⟨⟩ other row _; exact hname other row))
    h.keys

lemma Consistent.writeWorkspace (h : Consistent home s) {read}
    {input} (hcall : s.calls c = some (.updatingWorkspace id read input))
    (hname : ∀ other row, other ≠ id → s.catalog.workspaces other = some row →
      row.name ≠ (input.apply read).name)
    (hheld : ∀ other, s.registry.workspaces (input.apply read).name = some other → other = id) :
    Consistent home ((s.storeWorkspace id (some (input.apply read))).setCall c
      (some (.updatedWorkspace id (input.apply read)))) :=
  h.next hcall Local.storeWorkspace rfl (update_self ..)
    (h.names.store (by rintro _ ⟨⟩; exact hheld) (by rintro _ ⟨⟩; exact hname)) h.keys

lemma Consistent.deleteWorkspace (h : Consistent home s) (hidle : s.calls c = none)
    (hfree : s.Free (.workspace id)) :
    Consistent home ((s.storeWorkspace id none).setCall c (some (.deletedWorkspace id))) :=
  h.begin hfree (idle_of_eq hidle) Local.storeWorkspace rfl trivial (h.names.store nofun nofun) h.keys

/-- A workspace of the registry changes and its services stay. -/
structure Registers (home : Nat → Nat) (r r' : Registry D) (id : Nat) (data : WorkspaceData) : Prop where
  byID : r'.workspacesByID = update r.workspacesByID id (some data)
  layers : r'.layers = r.layers
  home : (r.workspacesByID id).isSome ∨ ∀ service, home service ≠ id

section

variable (h : Registers home r r' id data)

include h

lemma Registers.loads : r'.Loads home service ↔ r.Loads home service := by
  rw [Registry.Loads, Registry.Loads, h.byID]
  by_cases heq : home service = id
  · rcases h.home with hsome | hnone
    · rw [heq, update_self]
      exact iff_of_true rfl hsome
    · exact absurd heq (hnone service)
  · rw [update_of_ne heq]

lemma Registers.local : Local home k k r r' (some (.workspace id)) where
  workspaces := by
    intro other hne
    rw [h.byID]
    exact ⟨rfl, update_of_ne (workspace_ne hne) ..⟩
  layers := fun _ _ => rfl
  loads := fun _ => h.loads.1
  back := by rw [h.layers]; exact fun _ _ _ _ h => h
  held := by rw [h.layers]; exact fun _ _ _ _ _ h => h

lemma Registers.keys {rows} (hkeys : Keys home rows r) : Keys home rows r' := by
  refine hkeys.shrink (fun _ _ _ hlayer => h.layers ▸ hlayer) fun service hnot => ?_
  rw [h.layers]
  exact hkeys.unloaded service fun hloads => hnot (h.loads.2 hloads)

/-- What the registry has is what was stored. -/
lemma Registers.workspaceOk (hrow : k.workspaces id = some data) : WorkspaceOk k r' id := by
  intro ws hws
  rw [h.byID, update_self] at hws
  exact hrow.trans hws

end

lemma Consistent.registered (h : Consistent home s) {call : Call D} (hcall : s.calls c = some call)
    (htarget : call.target = some (.workspace id)) (hr : Registers home s.registry r id data)
    (hrow : s.catalog.workspaces id = some data) (hnames : Names s.catalog.workspaces r) :
    Consistent home ⟨s.catalog, r, update s.calls c none⟩ := by
  refine h.finish hcall (htarget ▸ hr.local) ?_ hnames (hr.keys h.keys)
  intro own hown
  cases htarget.symm.trans hown
  exact hr.workspaceOk hrow

lemma Consistent.addWorkspace (h : Consistent home s)
    (hcall : s.calls c = some (.createdWorkspace id data)) :
    Consistent home { s.setCall c none with registry := s.registry.addWorkspace id data } := by
  obtain ⟨hrow, hnone, hservices⟩ := h.calls c _ hcall
  exact h.registered hcall rfl ⟨rfl, rfl, Or.inr hservices⟩ hrow (h.names.addWorkspace hrow hnone)

lemma Consistent.refreshWorkspace (h : Consistent home s)
    (hcall : s.calls c = some (.updatedWorkspace id data)) :
    Consistent home { s.setCall c none with registry := s.registry.updateWorkspace id data } := by
  have hrow : s.catalog.workspaces id = some data := h.calls c _ hcall
  have hnames := h.names.updateWorkspace hrow
  unfold Registry.updateWorkspace at hnames ⊢
  cases hws : s.registry.workspacesByID id with
  | none =>
    refine h.finish hcall Local.refl ?_ h.names h.keys
    rintro own ⟨⟩ ws hws'
    cases hws.symm.trans hws'
  | some =>
    rw [hws] at hnames
    exact h.registered hcall rfl ⟨rfl, rfl, Or.inl (by rw [hws]; rfl)⟩ hrow hnames

lemma remove_workspacesByID (r : Registry D) (id : Nat) :
    (r.remove home id).workspacesByID = update r.workspacesByID id none := by
  unfold Registry.remove
  cases hws : r.workspacesByID id with
  | none => exact (update_eq_self_iff.2 hws.symm).symm
  | some => rfl

lemma remove_layers (r : Registry D)
    (hws : r.workspacesByID id = some ws) (service : Nat) (key : Str) :
    (r.remove home id).layers service key = if home service = id then none else r.layers service key := by
  rw [Registry.remove, hws]
  show (if home service = id then fun _ => none else r.layers service) key = _
  split <;> rfl

lemma of_remove_layers {key : Str} {layer : Layer D} (hws : r.workspacesByID id = some ws)
    (h : (r.remove home id).layers service key = some layer) : r.layers service key = some layer := by
  rw [remove_layers r hws] at h
  split at h
  · cases h
  · exact h

/-- A workspace leaves the registry with its services. -/
lemma Local.remove : Local home k k r (r.remove home id) (some (.workspace id)) := by
  cases hws : r.workspacesByID id with
  | none =>
    rw [Registry.remove, hws]
    exact Local.refl
  | some =>
    have hloads : ∀ service, (r.remove home id).Loads home service →
        home service ≠ id ∧ r.Loads home service := by
      intro service hloads
      rw [Registry.Loads, remove_workspacesByID] at hloads
      by_cases heq : home service = id
      · rw [heq, update_self] at hloads
        cases hloads
      · rw [update_of_ne heq] at hloads
        exact ⟨heq, hloads⟩
    constructor
    · intro other hne
      rw [remove_workspacesByID]
      exact ⟨rfl, update_of_ne (workspace_ne hne) ..⟩
    · exact fun _ _ => rfl
    · exact fun service hloads' => (hloads service hloads').2
    · exact fun service key layer _ hlayer => of_remove_layers hws hlayer
    · intro service key layer _ hloads' hlayer
      rw [remove_layers _ hws, if_neg (hloads service hloads').1]
      exact hlayer

lemma Keys.remove {rows} (h : Keys home rows r) : Keys home rows (r.remove home id) := by
  cases hws : r.workspacesByID id with
  | none =>
    rw [Registry.remove, hws]
    exact h
  | some ws =>
    refine h.shrink (fun _ _ _ hlayer => of_remove_layers hws hlayer) ?_
    intro service hnot key
    rw [remove_layers _ hws]
    split
    · rfl
    · rename_i hne
      rw [Registry.Loads, remove_workspacesByID, update_of_ne hne] at hnot
      exact h.unloaded service hnot key

lemma workspaceOk_remove : WorkspaceOk k (r.remove home id) id := by
  intro ws hws
  rw [remove_workspacesByID, update_self] at hws
  cases hws

lemma Consistent.dropWorkspace (h : Consistent home s)
    (hcall : s.calls c = some (.deletedWorkspace id)) :
    Consistent home { s.setCall c none with registry := s.registry.remove home id } := by
  refine h.finish hcall Local.remove ?_ h.names.remove h.keys.remove
  rintro own ⟨⟩
  exact workspaceOk_remove

lemma Consistent.remove (h : Consistent home s) (hidle : s.calls c = none)
    (hfree : s.Free (.workspace id)) :
    Consistent home { s with registry := s.registry.remove home id } := by
  have hcalls : update s.calls c none = s.calls := update_eq_self_iff.2 hidle.symm
  rw [← hcalls]
  refine h.advance Local.remove ?_ ?_ (by rintro _ ⟨⟩) h.names.remove h.keys.remove ?_
  · rintro c' call own _ hcall ⟨⟩
    exact hfree c' call hcall
  · intro call own hcall
    cases hidle.symm.trans hcall
  · rintro own ⟨⟩ _
    exact workspaceOk_remove

end WorkspaceSteps

/-! ## Steps about a layer -/

section LayerSteps

variable {k : Catalog D} {rows : Nat → Option (LayerRow D)}

variable {id c service : Nat} {data old : LayerData D}

variable {row : Option (LayerRow D)} {layer : Layer D} {P : LayerData D → Prop} {key : Str}

lemma Local.storeLayer : Local home k ⟨k.workspaces, update k.layers id row⟩ r r (some (.layer id)) :=
  .stored (fun _ _ => rfl) fun other hne => by
    refine update_of_ne ?_ ..
    rintro rfl
    exact hne rfl

lemma Keys.store (h : Keys home rows r)
    (hheld : ∀ a, row = some a → ∀ layer, r.layers a.service a.data.publicID = some layer → layer.id = id)
    (hkey : ∀ a, row = some a → ∀ other b, other ≠ id → rows other = some b →
      b.service = a.service → b.data.publicID ≠ a.data.publicID) : Keys home (update rows id row) r where
  key := h.key
  owned := by
    refine h.owned.store (fun a ha j hj => ?_) fun a ha j b hne hb heq => ?_
    · obtain ⟨layer, hlayer, rfl⟩ := map_eq_some_iff.1 hj
      exact hheld a ha layer hlayer
    · exact hkey a ha j b hne hb (congrArg Prod.fst heq) (congrArg Prod.snd heq)
  unloaded := h.unloaded

/-- The place of a stored layer is nobody else's. -/
lemma Keys.stored (h : Keys home rows r) {row} (hrow : rows id = some row)
    (hlayer : r.layers row.service row.data.publicID = some layer) : layer.id = id :=
  h.owned.own id row hrow layer.id (map_eq_some_iff.2 ⟨layer, hlayer, rfl⟩)

/-- The registry takes one layer as it is stored, and leaves the others. -/
structure Refreshed (home : Nat → Nat) (rows : Nat → Option (LayerRow D)) (r r' : Registry D) (id : Nat) :
    Prop where
  workspaces : r'.workspaces = r.workspaces
  byID : r'.workspacesByID = r.workspacesByID
  back : ∀ other key layer, r'.layers other key = some layer →
    layer.id ≠ id ∧ r.layers other key = some layer ∨
      ∃ data, rows id = some ⟨other, data⟩ ∧ r.Loads home other ∧ key = data.publicID ∧ layer = ⟨id, data⟩
  held : ∀ other key layer, layer.id ≠ id → r.layers other key = some layer →
    r'.layers other key = some layer
  self : ∀ service data, rows id = some ⟨service, data⟩ → r.Loads home service →
    r'.layers service data.publicID = some ⟨id, data⟩

section

variable (h : Refreshed home k.layers r r' id)

include h

lemma Refreshed.loads (service : Nat) : r'.Loads home service ↔ r.Loads home service := by
  rw [Registry.Loads, Registry.Loads, h.byID]

lemma Refreshed.local : Local home k k r r' (some (.layer id)) where
  workspaces := by
    rw [h.byID]
    exact fun _ _ => ⟨rfl, rfl⟩
  layers := fun _ _ => rfl
  loads := fun service => (h.loads service).1
  back := by
    intro other key layer hne hlayer
    rcases h.back other key layer hlayer with ⟨_, hold⟩ | ⟨data, _, _, _, rfl⟩
    · exact hold
    · exact absurd rfl hne
  held := fun other key layer hne _ hlayer =>
    h.held other key layer (fun heq => hne (heq ▸ rfl)) hlayer

lemma Refreshed.keys (hkeys : Keys home k.layers r) : Keys home k.layers r' where
  key := by
    intro other key layer hlayer
    rcases h.back other key layer hlayer with ⟨_, hold⟩ | ⟨data, _, _, hkey, rfl⟩
    · exact hkeys.key other key layer hold
    · exact hkey.symm
  owned := by
    refine hkeys.owned.hold fun slot i hi => ?_
    obtain ⟨layer, hlayer, rfl⟩ := map_eq_some_iff.1 hi
    rcases h.back _ _ layer hlayer with ⟨_, hold⟩ | ⟨data, hdata, _, hkey, rfl⟩
    · exact Or.inl (map_eq_some_iff.2 ⟨layer, hold, rfl⟩)
    · exact Or.inr ⟨_, hdata, Prod.ext rfl hkey.symm⟩
  unloaded := by
    intro service hnot key
    rw [h.loads] at hnot
    by_contra hsome
    obtain ⟨layer, hlayer⟩ := ne_none_iff_exists'.1 hsome
    rcases h.back service key layer hlayer with ⟨_, hold⟩ | ⟨_, _, hloads, _⟩
    · rw [hkeys.unloaded service hnot key] at hold
      cases hold
    · exact hnot hloads

lemma Refreshed.layerOk : LayerOk home k r' id where
  present := by
    intro row hrow
    constructor
    · intro other key layer hlayer hid
      rcases h.back other key layer hlayer with ⟨hne, _⟩ | ⟨data, hdata, _, hkey, rfl⟩
      · exact absurd hid hne
      · cases hdata.symm.trans hrow
        exact ⟨rfl, hkey, rfl⟩
    · intro hloads
      exact ⟨_, h.self row.service row.data hrow ((h.loads _).1 hloads), rfl⟩
  absent := by
    intro hrow other key layer hlayer
    rcases h.back other key layer hlayer with ⟨hne, _⟩ | ⟨data, hdata, _⟩
    · exact hne
    · rw [hrow] at hdata
      cases hdata

lemma Refreshed.names (hnames : Names k.workspaces r) : Names k.workspaces r' := by
  constructor
  · rw [h.workspaces, h.byID]
    exact hnames.index
  · rw [h.workspaces]
    exact hnames.owned

end

/-- A call ends by bringing its layer to the registry. -/
lemma Consistent.refreshed (h : Consistent home s) {call : Call D}
    (hcall : s.calls c = some call) (htarget : call.target = some (.layer id))
    (href : Refreshed home s.catalog.layers s.registry r id) :
    Consistent home ⟨s.catalog, r, update s.calls c none⟩ := by
  refine h.finish hcall (htarget ▸ href.local) ?_ (href.names h.names) (href.keys h.keys)
  intro own hown
  cases htarget.symm.trans hown
  exact href.layerOk

/-- The service is not in the registry, nor is the layer. -/
lemma Refreshed.unloaded (habsent : r.Absent id)
    (hservice : ∀ row, rows id = some row → ¬ r.Loads home row.service) : Refreshed home rows r r id where
  workspaces := rfl
  byID := rfl
  back := fun other key layer hlayer => Or.inl ⟨habsent other key layer hlayer, hlayer⟩
  held := fun _ _ _ _ h => h
  self := fun _ _ hrow hloads => absurd hloads (hservice _ hrow)

lemma setLayer_layers (r : Registry D) (service : Nat) (key : Str) (layer : Option (Layer D))
    (other : Nat) (key' : Str) : (r.setLayer service key layer).layers other key' =
      if other = service ∧ key' = key then layer else r.layers other key' := by
  unfold Registry.setLayer
  by_cases hservice : other = service
  · subst hservice
    by_cases hkey : key' = key
    · subst hkey
      simp only [update_self, and_self, if_true]
    · simp only [update_self, update_of_ne hkey, hkey, and_false, if_false]
  · simp only [update_of_ne hservice, hservice, false_and, if_false]

/-- The old place of the layer is emptied and the place under its public id filled, if it is stored. -/
lemma Refreshed.put (old : Str) (filled : Option (LayerData D))
    (hrow : rows id = filled.map (⟨service, ·⟩)) (hloads : r.Loads home service)
    (hworkspaces : r'.workspaces = r.workspaces) (hbyID : r'.workspacesByID = r.workspacesByID)
    (hlayers : ∀ other key, r'.layers other key =
      if other = service ∧ filled.map LayerData.publicID = some key then filled.map (⟨id, ·⟩)
      else if other = service ∧ key = old then none else r.layers other key)
    (hplace : ∀ other key layer, r.layers other key = some layer → layer.id = id →
      other = service ∧ key = old)
    (hold : ∀ layer, r.layers service old = some layer → layer.id = id) (hkeys : Keys home rows r) :
    Refreshed home rows r r' id where
  workspaces := hworkspaces
  byID := hbyID
  back := by
    intro other key layer hlayer
    rw [hlayers] at hlayer
    split at hlayer
    · rename_i hslot
      obtain ⟨data, rfl, rfl⟩ := map_eq_some_iff.1 hlayer
      rw [map_some, some.injEq] at hslot
      exact Or.inr ⟨data, hslot.1 ▸ hrow, hslot.1 ▸ hloads, hslot.2.symm, rfl⟩
    · split at hlayer
      · cases hlayer
      rename_i hslot
      exact Or.inl ⟨fun hid => hslot (hplace other key layer hlayer hid), hlayer⟩
  held := by
    intro other key layer hne hlayer
    rw [hlayers]
    split
    · rename_i hslot
      obtain ⟨data, rfl, rfl⟩ := map_eq_some_iff.1 hslot.2
      exact absurd (hkeys.stored hrow (hslot.1 ▸ hlayer)) hne
    · split
      · rename_i hslot
        rw [hslot.1, hslot.2] at hlayer
        exact absurd (hold layer hlayer) hne
      · exact hlayer
  self := by
    intro service' data hrow' _
    obtain ⟨data', rfl, hdata⟩ := map_eq_some_iff.1 (hrow.symm.trans hrow')
    cases hdata
    rw [hlayers, if_pos ⟨rfl, rfl⟩]
    rfl

lemma Refreshed.addLayer (hkeys : Keys home rows r) (hrow : rows id = some ⟨service, data⟩)
    (habsent : r.Absent id) : Refreshed home rows r (r.addLayer home service id data) id := by
  unfold Registry.addLayer
  split
  · rename_i hloads
    refine Refreshed.put data.publicID (some data) hrow hloads rfl rfl ?_ ?_
      (fun layer => hkeys.stored hrow) hkeys
    · intro other key
      rw [setLayer_layers]
      by_cases hother : other = service <;> by_cases hkey : key = data.publicID <;> simp [hother, hkey, eq_comm]
    · exact fun other key layer hlayer hid => absurd hid (habsent other key layer hlayer)
  · rename_i hloads
    refine Refreshed.unloaded habsent fun row hrow' => ?_
    cases hrow.symm.trans hrow'
    exact hloads

/-- A layer that has one place in a service that the registry has not is nowhere. -/
lemma Placed.absent (hkeys : Keys home rows r)
    (h : Placed home r id service key P) (hloads : ¬ r.Loads home service) : r.Absent id := by
  intro other key' layer hlayer hid
  obtain ⟨rfl, rfl, _⟩ := h.only other key' layer hlayer hid
  rw [hkeys.unloaded _ hloads] at hlayer
  cases hlayer

/-- What is in its place is the layer. -/
lemma Placed.id_eq (h : Placed home r id service key P) (hloads : r.Loads home service)
    (hlayer : r.layers service key = some layer) : layer.id = id := by
  obtain ⟨held, hheld, rfl⟩ := h.held hloads
  cases hheld.symm.trans hlayer
  rfl

lemma Placed.slot (h : Placed home r id service key P) (other : Nat) (key' : Str) (layer : Layer D)
    (hlayer : r.layers other key' = some layer) (hid : layer.id = id) : other = service ∧ key' = key :=
  ⟨(h.only other key' layer hlayer hid).1, (h.only other key' layer hlayer hid).2.1⟩

lemma Refreshed.updateLayer (hkeys : Keys home rows r) (hrow : rows id = some ⟨service, data⟩)
    (hplaced : Placed home r id service old.publicID fun held =>
      held.sourceLayer = data.sourceLayer ∧ held.isSQLView = data.isSQLView) :
    Refreshed home rows r (r.updateLayer home service old data) id := by
  unfold Registry.updateLayer
  by_cases hloads : (r.workspacesByID (home service)).isSome
  · obtain ⟨layer, hlayer, rfl⟩ := hplaced.held hloads
    have hdata := (hplaced.only _ _ layer hlayer rfl).2.2
    have hrefresh : layer.refresh data = ⟨layer.id, data⟩ := by rw [Layer.refresh, hdata.1, hdata.2]
    rw [if_pos hloads, hlayer]
    dsimp only
    rw [hrefresh]
    refine Refreshed.put old.publicID (some data) hrow hloads ?_ ?_ ?_ hplaced.slot
      (fun held => hplaced.id_eq hloads) hkeys
    · split <;> rfl
    · split <;> rfl
    · -- the old place is emptied and the new one filled, also when they are the same
      intro other key
      split
      · rw [setLayer_layers, setLayer_layers]
        simp [eq_comm]
      · rename_i hsame
        rw [setLayer_layers, not_ne_iff.1 hsame]
        by_cases hother : other = service <;> by_cases hkey : key = data.publicID <;> simp [hother, hkey, eq_comm]
  · rw [if_neg hloads]
    refine Refreshed.unloaded (hplaced.absent hkeys hloads) fun row hrow' => ?_
    cases hrow.symm.trans hrow'
    exact hloads

lemma Refreshed.removeLayer (hkeys : Keys home rows r) (hrow : rows id = none)
    (hplaced : Placed home r id service old.publicID fun _ => True) :
    Refreshed home rows r (r.removeLayer home service old.publicID) id := by
  unfold Registry.removeLayer
  split
  · rename_i hloads
    refine Refreshed.put old.publicID none hrow hloads rfl rfl ?_ hplaced.slot
      (fun held => hplaced.id_eq hloads) hkeys
    intro other key
    rw [setLayer_layers]
    simp
  · rename_i hloads
    refine Refreshed.unloaded (hplaced.absent hkeys hloads) fun row hrow' => ?_
    rw [hrow] at hrow'
    cases hrow'

section

variable (h : Consistent home s)

include h

lemma Consistent.insertLayer (hcall : s.calls c = some (.creatingLayer service data))
    (hunknown : ∀ other key layer, s.registry.layers other key = some layer → layer.id ≠ id)
    (hfree : s.Free (.layer id))
    (hkey : ∀ other row, s.catalog.layers other = some row → row.service = service →
      row.data.publicID ≠ data.publicID)
    (hheld : ∀ layer, s.registry.layers service data.publicID = some layer → layer.id = id) :
    Consistent home ((s.storeLayer id (some ⟨service, data.created⟩)).setCall c
      (some (.createdLayer id service data.created))) := by
  have hidle : ∀ old, s.calls c = some old → old.target = none := by
    intro old hold
    cases hcall.symm.trans hold
    rfl
  exact h.begin hfree hidle Local.storeLayer rfl ⟨update_self .., hunknown⟩
    h.names (h.keys.store (by rintro _ ⟨⟩; exact hheld) (by rintro _ ⟨⟩ other row _; exact hkey other row))

lemma Consistent.writeLayer {old read}
    {input} (hcall : s.calls c = some (.rereadLayer id service old read input))
    (hkey : ∀ other row, other ≠ id → s.catalog.layers other = some row → row.service = service →
      row.data.publicID ≠ (input.apply read).publicID)
    (hheld : ∀ layer, s.registry.layers service (input.apply read).publicID = some layer → layer.id = id) :
    Consistent home ((s.storeLayer id (some ⟨service, input.apply read⟩)).setCall c
      (some (.updatedLayer id service old (input.apply read)))) := by
  obtain ⟨hrow, hok, rfl⟩ := h.calls c _ hcall
  have hplaced := hok.present _ hrow
  refine h.next hcall Local.storeLayer rfl ⟨update_self .., ?_, hplaced.held⟩
    h.names (h.keys.store (by rintro _ ⟨⟩; exact hheld) (by rintro _ ⟨⟩; exact hkey))
  intro other key layer hlayer hid
  obtain ⟨hservice, hkey', hdata⟩ := hplaced.only other key layer hlayer hid
  exact ⟨hservice, hkey', by rw [hdata]; exact ⟨rfl, rfl⟩⟩

lemma Consistent.deleteLayer (hcall : s.calls c = some (.deletingLayer id service old)) :
    Consistent home ((s.storeLayer id none).setCall c (some (.deletedLayer id service old))) := by
  obtain ⟨hrow, hok⟩ := h.calls c _ hcall
  have hplaced := hok.present _ hrow
  refine h.next hcall Local.storeLayer rfl ⟨update_self .., ?_, hplaced.held⟩
    h.names (h.keys.store nofun nofun)
  intro other key layer hlayer hid
  have hslot := hplaced.slot other key layer hlayer hid
  exact ⟨hslot.1, hslot.2, trivial⟩

lemma Consistent.addLayer (hcall : s.calls c = some (.createdLayer id service data)) :
    Consistent home { s.setCall c none with registry := s.registry.addLayer home service id data } := by
  obtain ⟨hrow, habsent⟩ := h.calls c _ hcall
  exact h.refreshed hcall rfl (Refreshed.addLayer h.keys hrow habsent)

lemma Consistent.refreshLayer (hcall : s.calls c = some (.updatedLayer id service old data)) :
    Consistent home { s.setCall c none with registry := s.registry.updateLayer home service old data } := by
  obtain ⟨hrow, hplaced⟩ := h.calls c _ hcall
  exact h.refreshed hcall rfl (Refreshed.updateLayer h.keys hrow hplaced)

lemma Consistent.dropLayer (hcall : s.calls c = some (.deletedLayer id service old)) :
    Consistent home
      { s.setCall c none with registry := s.registry.removeLayer home service old.publicID } := by
  obtain ⟨hrow, hplaced⟩ := h.calls c _ hcall
  exact h.refreshed hcall rfl (Refreshed.removeLayer h.keys hrow hplaced)

end

end LayerSteps

/-! ## Steps that only read -/

section Reads

variable {c : Nat} {own : Target} {call call' : Call D}

section

variable (h : Consistent home s)

include h

lemma Consistent.read (hidle : s.calls c = none) (hfree : s.Free own) (htarget : call.target = some own)
    (hok : call.Ok home s.catalog s.registry) : Consistent home (s.setCall c (some call)) :=
  h.begin hfree (idle_of_eq hidle) Local.refl htarget hok h.names h.keys

lemma Consistent.check (hcall : s.calls c = some call) (htarget : call'.target = call.target)
    (hok : call'.Ok home s.catalog s.registry) : Consistent home (s.setCall c (some call')) :=
  h.next hcall Local.refl htarget hok h.names h.keys

lemma Consistent.checkNewLayer {service : Nat} {data} (hidle : s.calls c = none) :
    Consistent home (s.setCall c (some (.creatingLayer service data))) := by
  have hlocal : Local home s.catalog s.catalog s.registry s.registry none := Local.refl
  refine h.advance hlocal (by rintro _ _ _ _ _ ⟨⟩) ?_ ?_ h.names h.keys (by rintro _ ⟨⟩)
  · intro call own hcall
    cases hidle.symm.trans hcall
  · rintro call ⟨⟩
    exact ⟨rfl, trivial⟩

end

/-- What a call that has changed nothing leaves. -/
lemma Call.Ok.target {k : Catalog D} {r : Registry D} (hok : call.Ok home k r)
    (hstored : call.stored = false) (htarget : call.target = some own) : own.Ok home k r := by
  cases call with
  | createdWorkspace | updatedWorkspace | deletedWorkspace | createdLayer | updatedLayer | deletedLayer =>
    cases hstored
  | creatingLayer => cases htarget
  | updatingWorkspace | updatingLayer | checkedLayer | deletingLayer =>
    cases htarget
    exact hok.2
  | rereadLayer =>
    cases htarget
    exact hok.2.1

lemma Consistent.endCall (h : Consistent home s) (hcall : s.calls c = some call)
    (hstored : call.stored = false) : Consistent home (s.setCall c none) :=
  h.finish hcall Local.refl (fun _ htarget => (h.calls c call hcall).target hstored htarget) h.names h.keys

end Reads

/-! ## Runs -/

lemma Consistent.step {s t : State D} {l : Label} (h : Consistent home s) (hstep : Step home s l t)
    (hcareful : Careful s l) : Consistent home t := by
  cases hstep with
  | createWorkspace hidle hnew hunknown hfree hservices hname =>
    exact h.createWorkspace hidle hunknown hfree hservices hname hcareful
  | addWorkspace hcall => exact h.addWorkspace hcall
  | readWorkspace hidle hread => exact h.read hidle hcareful rfl ⟨hread, h.targets _ hcareful⟩
  | writeWorkspace hcall hrow hname => exact h.writeWorkspace hcall hname hcareful
  | refreshWorkspace hcall => exact h.refreshWorkspace hcall
  | deleteWorkspace hidle => exact h.deleteWorkspace hidle hcareful
  | dropWorkspace hcall => exact h.dropWorkspace hcall
  | deleteFailed => exact hcareful.elim
  | remove hidle => exact h.remove hidle hcareful
  | checkNewLayer hidle => exact h.checkNewLayer hidle
  | insertLayer hcall hnew hunknown hfree hkey => exact h.insertLayer hcall hunknown hfree hkey hcareful
  | addLayer hcall => exact h.addLayer hcall
  | readLayer hidle hread | readDoomed hidle hread =>
    exact h.read hidle hcareful rfl ⟨hread, h.targets _ hcareful⟩
  | checkLayer hcall =>
    have hok := h.calls _ _ hcall
    exact h.check hcall rfl hok
  | rereadLayer hcall hread =>
    obtain ⟨hrow, hok⟩ := h.calls _ _ hcall
    cases hrow.symm.trans hread
    exact h.check hcall rfl ⟨hrow, hok, rfl⟩
  | writeLayer hcall hrow hkey => exact h.writeLayer hcall hkey hcareful
  | refreshLayer hcall => exact h.refreshLayer hcall
  | deleteLayer hcall => exact h.deleteLayer hcall
  | dropLayer hcall => exact h.dropLayer hcall
  | endCall hcall hstored => exact h.endCall hcall hstored

lemma layerOk_of_loaded (h : Loaded home s) (id : Nat) :
    LayerOk home s.catalog s.registry id := by
  constructor
  · intro row hrow
    constructor
    · rintro other key layer hlayer rfl
      obtain ⟨hkey, hstored⟩ := h.agreement.layers other key layer hlayer
      cases hstored.symm.trans hrow
      exact ⟨rfl, hkey.symm, rfl⟩
    · exact fun hloads => ⟨_, h.complete id row hrow hloads, rfl⟩
  · rintro hrow service key layer hlayer rfl
    rw [(h.agreement.layers service key layer hlayer).2] at hrow
    cases hrow

lemma Consistent.init (h : Loaded home s) : Consistent home s where
  names := by
    refine ⟨h.agreement.index, h.valid.names, ?_⟩
    intro id data hrow other hother
    obtain ⟨ws, hws, hname⟩ := (h.agreement.index _ _).1 hother
    exact h.valid.names other id ws data (h.agreement.workspaces other ws hws) hrow hname
  keys := by
    refine ⟨fun service key layer hlayer => (h.agreement.layers service key layer hlayer).1, ⟨?_, ?_⟩, ?_⟩
    · exact fun i j a b hi hj heq =>
        h.valid.keys i j a b hi hj (congrArg Prod.fst heq) (congrArg Prod.snd heq)
    · intro id row hrow other hother
      obtain ⟨layer, hlayer, rfl⟩ := map_eq_some_iff.1 hother
      obtain ⟨hkey, hstored⟩ := h.agreement.layers _ _ layer hlayer
      exact h.valid.keys _ _ _ _ hstored hrow rfl hkey
    · intro service hnot
      exact h.others service (not_isSome_iff_eq_none.1 hnot)
  targets := by
    rintro (id | id) _
    · exact h.agreement.workspaces id
    · exact layerOk_of_loaded h id
  calls := by
    intro c call hcall
    rw [h.idle c] at hcall
    cases hcall
  distinct := by
    intro c c' call call' own hcall
    rw [h.idle c] at hcall
    cases hcall

lemma Consistent.agreement (h : Consistent home s) (hidle : ∀ c, s.calls c = none) :
    Agreement s := by
  have hok : ∀ own : Target, own.Ok home s.catalog s.registry := by
    intro own
    refine h.targets own fun c call hcall => ?_
    rw [hidle c] at hcall
    cases hcall
  constructor
  · exact h.names.index
  · exact fun id => hok (.workspace id)
  · intro service key layer hlayer
    refine ⟨h.keys.key service key layer hlayer, ?_⟩
    have hlayerOk : LayerOk home s.catalog s.registry layer.id := hok (.layer layer.id)
    cases hrow : s.catalog.layers layer.id with
    | none => exact absurd rfl (hlayerOk.absent hrow service key layer hlayer)
    | some row =>
      obtain ⟨rfl, _, hdata⟩ := (hlayerOk.present row hrow).only service key layer hlayer rfl
      rw [hdata]

/-- In a run of careful steps the registry agrees with the database whenever no call is under way. -/
theorem agreement_of_reachable {s : State D}
    (h : ((machine D home).restrict fun s l _ => Careful s l).Reachable s) (hidle : ∀ c, s.calls c = none) :
    Agreement s := by
  have hconsistent : Consistent home s := by
    refine Machine.Reachable.induct (I := Consistent home) (fun _ hinit => Consistent.init hinit) ?_ h
    rintro s l t _ hconsistent ⟨hstep, hcareful⟩
    exact hconsistent.step hstep hcareful
  exact hconsistent.agreement hidle

/-- One workspace, without layers. -/
def served : State Unit where
  catalog :=
    { workspaces := update (fun _ => none) 0 (some ⟨['w'], []⟩)
      layers := fun _ => none }
  registry :=
    { workspaces := update (fun _ => none) ['w'] (some 0)
      workspacesByID := update (fun _ => none) 0 (some ⟨['w'], []⟩)
      layers := fun _ _ => none }
  calls := fun _ => none

lemma served_loaded : Loaded (fun _ => 0) served where
  valid := by
    refine ⟨?_, fun i j a b hi => by cases hi⟩
    intro i j a b hi hj _
    simp only [served, update_apply] at hi hj
    split at hi <;> split at hj <;> simp_all
  agreement := by
    refine ⟨?_, ?_, fun service key layer hlayer => by cases hlayer⟩
    · intro name id
      simp only [served, update_apply]
      split <;> split <;> simp_all [eq_comm]
    · exact fun id ws hws => hws
  complete := fun id row hrow => by cases hrow
  others := fun _ _ _ => rfl
  idle := fun _ => rfl

/-- An update that is written and brought to the registry before the next one begins. -/
theorem agreement_of_update : ∃ s : State Unit, Agreement s ∧
    s.registry.workspacesByID 0 = some ⟨['v'], []⟩ ∧ s.registry.workspaces ['v'] = some 0 := by
  have next {s l t} (h : ((machine Unit fun _ => 0).restrict fun s l _ => Careful s l).Reachable s)
      (hstep : Step (fun _ => 0) s l t) (hcareful : Careful s l) :
      ((machine Unit fun _ => 0).restrict fun s l _ => Careful s l).Reachable t :=
    h.step ⟨hstep, hcareful⟩
  have h₁ := next (.init served_loaded) (@Step.readWorkspace _ _ _ 0 0 _ ⟨some ['v'], none⟩ rfl rfl) fun _ _ => nofun
  have h₂ := next h₁ (.writeWorkspace (c := 0) rfl rfl fun other row hne hrow => by
    simp [served, State.setCall, hne] at hrow) fun other hother => by
    simp [served, State.setCall, UpdateWorkspaceInput.apply] at hother
  have h₃ := next h₂ (.refreshWorkspace (c := 0) rfl) trivial
  refine ⟨_, agreement_of_reachable h₃ ?_, rfl, rfl⟩
  intro c
  simp only [served, State.setCall, State.storeWorkspace, update_apply]
  split <;> rfl

/-- Two updates of one workspace: the second is written last and brought to the registry first. -/
theorem registry_stale : ∃ s : State Unit, (machine Unit fun _ => 0).Reachable s ∧ (∀ c, s.calls c = none) ∧
    s.catalog.workspaces 0 = some ⟨['w'], ['b']⟩ ∧ s.registry.workspacesByID 0 = some ⟨['w'], ['a']⟩ ∧
    ¬ Agreement s := by
  have next {s l t} (h : (machine Unit fun _ => 0).Reachable s) (hstep : Step (fun _ => 0) s l t) :
      (machine Unit fun _ => 0).Reachable t := h.step hstep
  have h₀ : (machine Unit fun _ => 0).Reachable served := .init served_loaded
  have h₁ := next h₀ (@Step.readWorkspace _ _ _ 0 0 _ ⟨none, some ['a']⟩ rfl rfl)
  have h₂ := next h₁ (.writeWorkspace (c := 0) rfl rfl fun other row hne hrow => by
    simp [served, State.setCall, hne] at hrow)
  have h₃ := next h₂ (@Step.readWorkspace _ _ _ 1 0 _ ⟨none, some ['b']⟩ rfl rfl)
  have h₄ := next h₃ (.writeWorkspace (c := 1) rfl rfl fun other row hne hrow => by
    simp [served, State.setCall, State.storeWorkspace, hne] at hrow)
  have h₅ := next h₄ (.refreshWorkspace (c := 1) rfl)
  have h₆ := next h₅ (.refreshWorkspace (c := 0) rfl)
  refine ⟨_, h₆, ?_, rfl, rfl, ?_⟩
  · intro c
    simp only [served, State.setCall, State.storeWorkspace, update_apply]
    split <;> simp_all
  · intro h
    have hsame := h.workspaces 0 _ rfl
    exact absurd hsame (by decide)

end NeoServer.Sync
