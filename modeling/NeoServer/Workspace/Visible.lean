import Mathlib.Logic.Relation
import NeoServer.Text

/-!
# Workspace.Visible — which layer groups a role sees

A group is shown to a role if its members are, down to the layers and coverages. The walk keeps the
groups it is in and stops at a depth, so that cyclic groups end it; they are not shown.

- `getResource` : what a public identifier stands for,
- `groupVisibleToRole` : the walk,
- `Reaches` : what a group shows, through any number of memberships,
- `groupVisibleToRole_correct` : a true answer covers all of it, and an acyclic group gets one.

The services stand in the order in which the map of them is ranged over.
-/

namespace NeoServer.Visible

/-- What layers, coverages and groups have in common. -/
structure Published where
  publicID : Str
  enabled : Bool
  isPublic : Bool
  allowedRoles : List Str

structure LayerGroup extends Published where
  members : List Str

structure Service where
  enabled : Bool
  layers : List Published
  coverages : List Published

structure Workspace where
  services : List Service
  groups : List LayerGroup

inductive PublishedResource
  | feature (layer : Published)
  | coverage (coverage : Published)
  | group (group : LayerGroup)

/-- The rule for roles, the same for the three kinds. A layer is found only if it is enabled. -/
def Published.visibleToRole (p : Published) (role : Str) : Bool :=
  p.isPublic || role == "super_admin" || p.allowedRoles.isEmpty || p.allowedRoles.contains role

namespace PublishedResource

def published : PublishedResource → Published
  | feature p | coverage p => p
  | group g => g.toPublished

/-- Enabled, and open to the role. -/
def Shown (role : Str) (r : PublishedResource) : Prop :=
  r.published.enabled = true ∧ r.published.visibleToRole role = true

end PublishedResource

open PublishedResource

/-- The enabled entry of a map under its identifier. -/
def find (entries : List Published) (publicID : Str) : Option Published :=
  (entries.find? fun p => p.publicID = publicID).filter fun p => p.enabled

namespace Workspace

variable (ws : Workspace)

def getLayer (publicID : Str) : Option Published :=
  ws.services.findSome? fun svc => if svc.enabled then find svc.layers publicID else none

def getCoverage (publicID : Str) : Option Published :=
  ws.services.findSome? fun svc => if svc.enabled then find svc.coverages publicID else none

def getResource (publicID : Str) : Option PublishedResource :=
  (ws.getLayer publicID).map feature <|> (ws.getCoverage publicID).map coverage <|>
    ((ws.groups.find? fun g => g.publicID = publicID).filter fun g => g.enabled).map group

/-- `depth > 32` refuses: the first group and 32 levels below it. -/
def levels : Nat := 33

/-- The walk. Of `depth` the levels that are left are counted. -/
def visit (role : Str) : Nat → List Str → LayerGroup → Bool
  | 0, _, _ => false
  | left + 1, visiting, g =>
    g.enabled && !visiting.contains g.publicID && g.visibleToRole role &&
      g.members.all fun member =>
        match ws.getResource member with
        | none => false
        | some (.feature layer) => layer.visibleToRole role
        | some (.coverage c) => c.enabled && c.visibleToRole role
        | some (.group below) => visit role left (g.publicID :: visiting) below

def groupVisibleToRole (g : LayerGroup) (role : Str) : Bool := ws.visit role levels [] g

/-! ## What a group shows -/

/-- `b` is what a member of the group `a` stands for. -/
def Member (a b : PublishedResource) : Prop :=
  ∃ g member, a = group g ∧ member ∈ g.members ∧ ws.getResource member = some b

def Reaches : PublishedResource → PublishedResource → Prop := Relation.ReflTransGen ws.Member

/-- No group below has a group of its own identifier below it. -/
def Acyclic (g : LayerGroup) : Prop :=
  ∀ a b, ws.Reaches (group g) (group a) → Relation.TransGen ws.Member (group a) (group b) →
    a.publicID ≠ b.publicID

/-- A chain of memberships between groups, from `g` down. -/
inductive Chain : LayerGroup → Nat → Prop
  | nil (g) : Chain g 0
  | cons {g below n} : ws.Member (group g) (group below) → Chain below n → Chain g (n + 1)

end Workspace

variable {ws : Workspace} {role : Str}

variable {id : Str} {p : Published}

lemma enabled_of_find {entries} (h : find entries id = some p) : p.enabled = true :=
  (Option.filter_eq_some_iff.mp h).2

lemma enabled_of_getLayer (h : ws.getLayer id = some p) : p.enabled = true := by
  obtain ⟨svc, -, hsvc⟩ := List.exists_of_findSome?_eq_some h
  exact enabled_of_find (Option.ite_none_right_eq_some.mp hsvc).2

/-- A layer is enabled where it is found, which its own check leaves out. -/
lemma enabled_of_getResource (h : ws.getResource id = some (feature p)) : p.enabled = true := by
  unfold Workspace.getResource at h
  cases hl : ws.getLayer id with
  | some =>
    rw [hl] at h
    cases h
    exact enabled_of_getLayer hl
  | none =>
    rw [hl] at h
    cases hc : ws.getCoverage id <;> simp [hc] at h

/-- Below a layer or a coverage there is nothing. -/
lemma eq_of_reaches {a b} (ha : ∀ g, a ≠ group g) (h : ws.Reaches a b) : b = a := by
  rcases Relation.ReflTransGen.cases_head h with rfl | ⟨_, ⟨g, _, hg, -⟩, -⟩
  · rfl
  · exact absurd hg (ha g)

lemma visit_sound : ∀ {left : Nat} {visiting} {g},
    ws.visit role left visiting g = true → ∀ r, ws.Reaches (group g) r → r.Shown role
  | 0, _, _, h => by cases h
  | left + 1, visiting, g, h => by
    simp only [Workspace.visit, Bool.and_eq_true, List.all_eq_true] at h
    obtain ⟨⟨⟨henabled, -⟩, hrole⟩, hmembers⟩ := h
    intro r hr
    rcases Relation.ReflTransGen.cases_head hr with rfl | ⟨b, ⟨g', member, hg, hmem, hget⟩, hrest⟩
    · exact ⟨henabled, hrole⟩
    cases hg
    have hvisit := hmembers member hmem
    rw [hget] at hvisit
    cases b with
    | feature =>
      obtain rfl := eq_of_reaches (fun _ h => by cases h) hrest
      exact ⟨enabled_of_getResource hget, hvisit⟩
    | coverage =>
      obtain rfl := eq_of_reaches (fun _ h => by cases h) hrest
      exact Bool.and_eq_true_iff.mp hvisit
    | group => exact visit_sound hvisit r hrest

lemma visit_complete : ∀ {left : Nat} {visiting} {g},
    (∀ a, ws.Reaches (group g) (group a) → a.publicID ∉ visiting) → ws.Acyclic g →
    (∀ n, ws.Chain g n → n < left) → (∀ r, ws.Reaches (group g) r → r.Shown role) →
    (∀ a, ws.Reaches (group g) (group a) → ∀ member ∈ a.members, (ws.getResource member).isSome) →
    ws.visit role left visiting g = true
  | 0, _, g, _, _, hchain, _, _ => absurd (hchain 0 (.nil g)) (Nat.not_lt_zero 0)
  | left + 1, visiting, g, hvisiting, hacyclic, hchain, hshown, hexists => by
    obtain ⟨henabled, hrole⟩ := hshown _ .refl
    have hfresh : g.publicID ∉ visiting := hvisiting g .refl
    simp only [Workspace.visit, Bool.and_eq_true, List.all_eq_true]
    refine ⟨⟨⟨henabled, by simpa using hfresh⟩, hrole⟩, fun member hmem => ?_⟩
    obtain ⟨b, hget⟩ := Option.isSome_iff_exists.mp (hexists g .refl member hmem)
    have hb : ws.Member (group g) b := ⟨g, member, rfl, hmem, hget⟩
    rw [hget]
    cases b with
    | feature => exact (hshown _ (.single hb)).2
    | coverage => exact Bool.and_eq_true_iff.mpr (hshown _ (.single hb))
    | group below =>
      refine visit_complete (fun a ha => ?_) (fun a c ha => hacyclic a c (ha.head hb))
        (fun n hn => ?_) (fun r hr => hshown r (hr.head hb)) (fun a ha => hexists a (ha.head hb))
      · -- `a` is below `g`, so it has another identifier
        rw [List.mem_cons, not_or]
        exact ⟨(hacyclic g a .refl (.head' hb ha)).symm, hvisiting a (ha.head hb)⟩
      · exact Nat.lt_of_succ_lt_succ (hchain (n + 1) (.cons hb hn))

/-- The walk ends for every workspace, as a function on the levels that are left. -/
theorem groupVisibleToRole_correct (ws : Workspace) (g : LayerGroup) (role : Str) :
    (ws.groupVisibleToRole g role = true → ∀ r, ws.Reaches (group g) r → r.Shown role) ∧
    (ws.Acyclic g → (∀ n, ws.Chain g n → n < Workspace.levels) →
      (∀ a, ws.Reaches (group g) (group a) → ∀ member ∈ a.members, (ws.getResource member).isSome) →
      (∀ r, ws.Reaches (group g) r → r.Shown role) → ws.groupVisibleToRole g role = true) :=
  ⟨visit_sound, fun hacyclic hchain hexists hshown =>
    visit_complete (fun _ _ => List.not_mem_nil) hacyclic hchain hshown hexists⟩

end NeoServer.Visible
