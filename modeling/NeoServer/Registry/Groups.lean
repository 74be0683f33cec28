import Mathlib
import NeoServer.Machine
import NeoServer.Text

/-!
# Registry.Groups — layer groups of a workspace

A layer group lists layers, coverages and other groups by their public identifiers. The calls on
groups hold the lock of the registry from the check to the end. Those on layers and coverages check
under the lock, write the catalog without it, and take it again to change the workspace.

- `validateLayerGroup` : the check of a group, with the walk over the groups below it,
- `machine` : calls on groups, and the two halves of the calls on layers and coverages,
- `WellFormed` : no cycles, chains within the bound, members that exist, identifiers of one resource,
- `wellFormed_of_reachable` : what the calls have to respect so that a workspace stays well-formed.

Groups are known by their public identifiers; the catalog and the workspace hold the same ones.
-/

namespace NeoServer.Registry

open List

/-! ## Data -/

/-- A member of a group. Opacities come from JSON and are finite. -/
structure LayerGroupMember where
  resource : Str
  opacity : Option ℚ := none
  composite : Str := []
  style : Str := []
deriving DecidableEq

structure LayerGroup where
  publicID : Str
  enabled : Bool
  members : List LayerGroupMember
deriving DecidableEq

inductive ResourceKind
  | layer | coverage
deriving DecidableEq, Repr

/-- A layer or a coverage of a service. It is enabled if its service is. -/
structure Resource where
  kind : ResourceKind
  service : Str
  publicID : Str
  enabled : Bool
deriving DecidableEq, Repr

structure Workspace where
  resources : List Resource
  groups : List LayerGroup
  styles : List Str

inductive GroupError
  | publicIDRequired
  | duplicateKey
  | referencedBy (group : Str)
  | membersEmpty
  | memberResourceRequired
  | opacityRange
  | unsupportedComposite (mode : Str)
  | memberMissing (resource : Str)
  | styleMissing (style : Str)
  | nestingExceeds (bound : Nat)
  | cycleIncludes (group : Str)
deriving DecidableEq

/-! ## Lookup -/

variable (groups : List LayerGroup)

/-- `groups[name]`. -/
def lookup (name : Str) : Option LayerGroup := groups.find? fun g => g.publicID = name

/-- `delete(groups, name)`. -/
def remove (name : Str) : List LayerGroup := groups.filter fun g => g.publicID ≠ name

/-- `groups[group.PublicID] = group`. -/
def insert (group : LayerGroup) : List LayerGroup :=
  group :: remove groups group.publicID

def LayerGroup.references (group : LayerGroup) (name : Str) : Bool :=
  group.members.any fun member => member.resource = name

namespace Workspace

def hasPublishedResourceID (ws : Workspace) (publicID : Str) : Bool :=
  (lookup ws.groups publicID).isSome || ws.resources.any fun r => r.publicID = publicID

/-- Whether `GetResource` finds something: an enabled layer, coverage or group. -/
def hasResource (ws : Workspace) (publicID : Str) : Bool :=
  (ws.resources.any fun r => r.publicID = publicID && r.enabled) ||
    (lookup ws.groups publicID).any fun group => group.enabled

def groupReferences (ws : Workspace) (publicID : Str) : List Str :=
  (ws.groups.filter fun group => group.references publicID).map LayerGroup.publicID

end Workspace

/-! ## The check of a group -/

def composites : List String := ["source-over", "multiply", "screen", "overlay", "darken", "lighten"]

/-- The checks of one member; the group that is replaced may be named. -/
def validateMember (ws : Workspace) (replacedPublicID : Str) (member : LayerGroupMember) : Option GroupError :=
  if member.resource = [] then some .memberResourceRequired
  else if member.opacity.any fun opacity => opacity < 0 ∨ 1 < opacity then some .opacityRange
  else if member.composite ≠ [] ∧ member.composite ∉ composites.map String.toList then
    some (.unsupportedComposite member.composite)
  else if member.resource ≠ replacedPublicID ∧ ws.hasResource member.resource = false then
    some (.memberMissing member.resource)
  else if member.style ≠ [] ∧ member.style ∉ ws.styles then some (.styleMissing member.style)
  else none

/-- The walk down from a group. `left` is how many levels there may still be. -/
def visit (groups : List LayerGroup) (maxDepth : Nat) : Nat → List Str → Str → Option GroupError
  | 0, _, _ => some (.nestingExceeds maxDepth)
  | left + 1, stack, name =>
    if name ∈ stack then some (.cycleIncludes name)
    else
      match lookup groups name with
      | none => none
      | some group =>
        group.members.findSome? fun member =>
          if (lookup groups member.resource).isSome then visit groups maxDepth left (name :: stack) member.resource
          else none

/-- The bound that is used: 8 if there is none. -/
def effectiveDepth (maxDepth : Int) : Nat := if maxDepth ≤ 0 then 8 else maxDepth.toNat

/-- The groups with the candidate in its place. The empty name replaces nothing. -/
def groupsWith (groups : List LayerGroup) (candidate : LayerGroup) (replacedPublicID : Str) : List LayerGroup :=
  insert (if replacedPublicID = [] then groups else remove groups replacedPublicID) candidate

def validateLayerGroup (ws : Workspace) (candidate : LayerGroup) (replacedPublicID : Str) (maxDepth : Int) :
    Option GroupError :=
  if candidate.publicID = [] then some .publicIDRequired
  else if ws.hasPublishedResourceID candidate.publicID ∧ candidate.publicID ≠ replacedPublicID then
    some .duplicateKey
  else
    match if replacedPublicID ≠ [] ∧ candidate.publicID ≠ replacedPublicID then
        (ws.groupReferences replacedPublicID).head? else none with
    | some group => some (.referencedBy group)
    | none =>
      if candidate.members = [] then some .membersEmpty
      else
        match candidate.members.findSome? (validateMember ws replacedPublicID) with
        | some err => some err
        | none =>
          visit (groupsWith ws.groups candidate replacedPublicID) (effectiveDepth maxDepth)
            (effectiveDepth maxDepth) [] candidate.publicID

/-! ## Calls -/

/-- A call on a layer or a coverage that has been checked and has not changed the workspace yet. -/
inductive Pending
  | creating (resource : Resource)
  | deleting (resource : Resource)
deriving DecidableEq

structure World where
  ws : Workspace
  pending : List Pending

inductive Label
  | createLayerGroup (candidate : LayerGroup)
  | updateLayerGroup (publicID : Str) (candidate : LayerGroup)
  | deleteLayerGroup (publicID : Str)
  | beginCreate (resource : Resource)
  | endCreate (resource : Resource)
  | beginDelete (resource : Resource)
  | endDelete (resource : Resource)
  | abandon (call : Pending)

/-- Two resources under one key of a service's map. -/
def Resource.sameKey (r r' : Resource) : Bool :=
  r.kind = r'.kind && r.service = r'.service && r.publicID = r'.publicID

def Workspace.addResource (ws : Workspace) (r : Resource) : Workspace :=
  { ws with resources := r :: ws.resources.filter fun r' => !r.sameKey r' }

def Workspace.removeResource (ws : Workspace) (r : Resource) : Workspace :=
  { ws with resources := ws.resources.filter fun r' => !r.sameKey r' }

/-- The steps, with one bound for all. A call that is refused changes nothing, and a write of the
catalog may fail. -/
inductive Step (maxDepth : Int) : World → Label → World → Prop
  | createLayerGroup {w : World} {candidate}
      (hvalid : validateLayerGroup w.ws candidate [] maxDepth = none) :
      Step maxDepth w (.createLayerGroup candidate)
        { w with ws := { w.ws with groups := insert w.ws.groups candidate } }
  | updateLayerGroup {w : World} {existing candidate : LayerGroup}
      (hexisting : existing ∈ w.ws.groups)
      (hvalid : validateLayerGroup w.ws candidate existing.publicID maxDepth = none) :
      Step maxDepth w (.updateLayerGroup existing.publicID candidate)
        { w with ws := { w.ws with groups := insert (remove w.ws.groups existing.publicID) candidate } }
  | deleteLayerGroup {w : World} {existing : LayerGroup} (hexisting : existing ∈ w.ws.groups)
      (hreferences : ∀ group ∈ w.ws.groups, group.publicID ≠ existing.publicID →
        group.references existing.publicID = false) :
      Step maxDepth w (.deleteLayerGroup existing.publicID)
        { w with ws := { w.ws with groups := remove w.ws.groups existing.publicID } }
  | beginCreate {w : World} {r : Resource} (hid : w.ws.hasPublishedResourceID r.publicID = false) :
      Step maxDepth w (.beginCreate r) { w with pending := .creating r :: w.pending }
  | endCreate {w : World} {r} (hpending : .creating r ∈ w.pending) :
      Step maxDepth w (.endCreate r) { ws := w.ws.addResource r, pending := w.pending.erase (.creating r) }
  | beginDelete {w : World} {r : Resource} (hr : r ∈ w.ws.resources)
      (hreferences : w.ws.groupReferences r.publicID = []) :
      Step maxDepth w (.beginDelete r) { w with pending := .deleting r :: w.pending }
  | endDelete {w : World} {r} (hpending : .deleting r ∈ w.pending) :
      Step maxDepth w (.endDelete r) { ws := w.ws.removeResource r, pending := w.pending.erase (.deleting r) }
  | abandon {w : World} {call} (hpending : call ∈ w.pending) :
      Step maxDepth w (.abandon call) { w with pending := w.pending.erase call }

/-- A workspace begins without groups. -/
structure World.Init (w : World) : Prop where
  groups : w.ws.groups = []
  pending : w.pending = []
  ids : (w.ws.resources.map Resource.publicID).Nodup

def machine (maxDepth : Int) : Machine World Label where
  init := World.Init
  step := Step maxDepth

/-! ## What a workspace should be -/

/-- A group lists another name. -/
def Contains (groups : List LayerGroup) (name member : Str) : Prop :=
  ∃ group, lookup groups name = some group ∧ group.references member

/-- Groups, each of which lists the next. -/
inductive Chain (groups : List LayerGroup) : List Str → Prop
  | single {name} (h : (lookup groups name).isSome) : Chain groups [name]
  | cons {name next rest} (h : Contains groups name next) (hrest : Chain groups (next :: rest)) :
      Chain groups (name :: next :: rest)

structure WellFormed (bound : Nat) (ws : Workspace) : Prop where
  acyclic : ∀ name, ¬ Relation.TransGen (Contains ws.groups) name name
  depth : ∀ chain, Chain ws.groups chain → chain.length ≤ bound
  members : ∀ group ∈ ws.groups, ∀ name, group.references name → ws.hasPublishedResourceID name
  ids : (ws.groups.map LayerGroup.publicID ++ ws.resources.map Resource.publicID).Nodup

/-- What the check does not see. The end of a call on a layer or a coverage finds what its check has
found; a group that gets another name does not list its old one; and the groups above a group and
those below its new members make no chain beyond the bound. -/
def Careful (maxDepth : Int) (w : World) : Label → Prop
  | .endCreate r => w.ws.hasPublishedResourceID r.publicID = false
  | .endDelete r => w.ws.groupReferences r.publicID = []
  | .updateLayerGroup publicID candidate =>
    (candidate.publicID ≠ publicID → candidate.references publicID = false) ∧
      ∀ above below, Chain w.ws.groups (above ++ [publicID]) →
        Chain (groupsWith w.ws.groups candidate publicID) (candidate.publicID :: below) →
          above.length + (below.length + 1) ≤ effectiveDepth maxDepth
  | _ => True

/-! ## Lookup after a change -/

variable {groups : List LayerGroup} {other : Str} {group : LayerGroup}

lemma lookup_remove {name : Str} :
    lookup (remove groups name) other = if other = name then none else lookup groups other := by
  unfold lookup remove
  rw [find?_filter]
  split
  · rename_i h
    subst h
    exact find?_eq_none.mpr (by simp)
  · rename_i h
    congr 1
    funext g
    by_cases hg : g.publicID = other
    · simp [hg, h]
    · simp [hg]

lemma lookup_insert :
    lookup (insert groups group) other = if other = group.publicID then some group else lookup groups other := by
  unfold insert
  have hcons : lookup (group :: remove groups group.publicID) other =
      if group.publicID = other then some group else lookup (remove groups group.publicID) other := by
    simp only [lookup, find?_cons]
    split <;> simp_all
  rw [hcons, lookup_remove]
  by_cases h : other = group.publicID
  · simp [h]
  · rw [if_neg (Ne.symm h), if_neg h, if_neg h]

lemma mem_of_lookup {name : Str}
    (h : lookup groups name = some group) : group ∈ groups ∧ group.publicID = name :=
  ⟨mem_of_find?_eq_some h, by simpa using find?_some h⟩

lemma isSome_lookup {name : Str} :
    (lookup groups name).isSome ↔ ∃ group ∈ groups, group.publicID = name := by
  simp [lookup]

/-! ## Chains -/

namespace Chain

variable {groups groups' : List LayerGroup}

variable {name : Str} {chain : List Str}

lemma head {rest} (h : Chain groups (name :: rest)) : (lookup groups name).isSome := by
  cases h with
  | single h => exact h
  | cons h _ =>
    obtain ⟨group, hgroup, _⟩ := h
    rw [hgroup]
    rfl

variable {above below : List Str}

lemma suffix (h : Chain groups (above ++ name :: below)) : Chain groups (name :: below) := by
  induction above with
  | nil => exact h
  | cons a above ih =>
    apply ih
    cases above with
    | nil | cons =>
      cases h with
      | cons _ hrest => exact hrest

/-- The part up to a group is also a chain of other groups that agree above it. -/
lemma upTo (h : Chain groups (above ++ name :: below))
    (hsame : ∀ a ∈ above, lookup groups' a = lookup groups a) (hname : (lookup groups' name).isSome) :
    Chain groups' (above ++ [name]) := by
  induction above with
  | nil => exact .single hname
  | cons a above ih =>
    have hcontains : ∀ {b}, Contains groups a b → Contains groups' a b := by
      rintro b ⟨group, hgroup, hlists⟩
      exact ⟨group, (hsame a mem_cons_self).trans hgroup, hlists⟩
    have hsame' : ∀ a ∈ above, lookup groups' a = lookup groups a :=
      fun a' ha' => hsame a' (mem_cons_of_mem _ ha')
    cases above with
    | nil =>
      cases h with
      | cons h => exact .cons (hcontains h) (.single hname)
    | cons =>
      cases h with
      | cons h hrest => exact .cons (hcontains h) (ih hrest hsame')

lemma exists_eq_append (h : Chain groups chain) : ∃ above last, chain = above ++ [last] := by
  induction h with
  | @single name => exact ⟨[], name, rfl⟩
  | @cons name next rest h hrest ih =>
    obtain ⟨above, last, hchain⟩ := ih
    exact ⟨name :: above, last, by rw [cons_append, ← hchain]⟩

lemma mem (h : Chain groups chain) (hname : name ∈ chain) : (lookup groups name).isSome := by
  obtain ⟨above, below, rfl⟩ := append_of_mem hname
  exact h.suffix.head

/-- Groups that are looked up the same make the same chains. -/
lemma congr (h : Chain groups chain)
    (hsame : ∀ a ∈ chain, lookup groups' a = lookup groups a) : Chain groups' chain := by
  obtain ⟨above, last, rfl⟩ := h.exists_eq_append
  have hlast : (lookup groups' last).isSome := by
    rw [hsame last (by simp)]
    exact h.mem (by simp)
  exact h.upTo (fun a ha => hsame a (mem_append_left _ ha)) hlast

end Chain

variable {bound : Nat} {name : Str} {ws : Workspace} {candidate : LayerGroup}

variable {maxDepth : Int} {replacedPublicID : Str} {r : Resource} {w : World}

/-- From a name that contains itself there are chains of every length. -/
lemma acyclic_of_depth (h : ∀ chain, Chain groups chain → chain.length ≤ bound) (name : Str) :
    ¬ Relation.TransGen (Contains groups) name name := by
  intro hcycle
  have hextend : ∀ {a b : Str}, Relation.TransGen (Contains groups) a b → ∀ rest, Chain groups (b :: rest) →
      ∃ rest', Chain groups (a :: rest') ∧ rest.length < rest'.length := by
    intro a b hab
    induction hab with
    | single hab =>
      intro rest hrest
      exact ⟨_, .cons hab hrest, Nat.lt_succ_self _⟩
    | tail _ hbc ih =>
      intro rest hrest
      obtain ⟨rest', hchain, hlt⟩ := ih _ (.cons hbc hrest)
      exact ⟨rest', hchain, (Nat.lt_succ_self _).trans hlt⟩
  have hlong : ∀ n, ∃ rest, Chain groups (name :: rest) ∧ n ≤ rest.length := by
    intro n
    induction n with
    | zero =>
      obtain ⟨next, hnext, _⟩ := Relation.TransGen.head'_iff.mp hcycle
      obtain ⟨group, hgroup, _⟩ := hnext
      exact ⟨[], .single (by rw [hgroup]; rfl), le_rfl⟩
    | succ n ih =>
      obtain ⟨rest, hchain, hle⟩ := ih
      obtain ⟨rest', hchain', hlt⟩ := hextend hcycle rest hchain
      exact ⟨rest', hchain', by omega⟩
  obtain ⟨rest, hchain, hle⟩ := hlong bound
  have hbound := h _ hchain
  rw [length_cons] at hbound
  omega

/-- The walk has seen every chain from its group. -/
lemma visit_bound {maxDepth left : Nat} {stack} {rest}
    (h : visit groups maxDepth left stack name = none) (hchain : Chain groups (name :: rest)) :
    rest.length + 1 ≤ left := by
  induction left generalizing stack name rest with
  | zero => cases h
  | succ left ih =>
    cases hchain with
    | single => simp
    | @cons _ next rest hnext hrest =>
      obtain ⟨group, hgroup, hlists⟩ := hnext
      simp only [visit, hgroup] at h
      split at h
      · cases h
      obtain ⟨member, hmember, hresource⟩ := any_eq_true.mp hlists
      have hvisit := findSome?_eq_none_iff.mp h member hmember
      rw [of_decide_eq_true hresource, if_pos hrest.head] at hvisit
      have hle := ih hvisit hrest
      rw [length_cons]
      omega

/-! ## What the check says -/

lemma published_iff :
    ws.hasPublishedResourceID name ↔
      (lookup ws.groups name).isSome ∨ name ∈ ws.resources.map Resource.publicID := by
  simp [Workspace.hasPublishedResourceID]

lemma not_published (h : ws.hasPublishedResourceID name = false) :
    ¬ ((lookup ws.groups name).isSome ∨ name ∈ ws.resources.map Resource.publicID) := by
  rw [← published_iff, h]
  exact Bool.false_ne_true

lemma published_of_hasResource (h : ws.hasResource name = true) :
    ws.hasPublishedResourceID name := by
  rw [published_iff]
  rcases Bool.or_eq_true_iff.mp h with h | h
  · right
    obtain ⟨r, hr, hid⟩ := any_eq_true.mp h
    exact mem_map.mpr ⟨r, hr, by simpa using (Bool.and_eq_true_iff.mp hid).1⟩
  · left
    cases hlookup : lookup ws.groups name with
    | none =>
      rw [hlookup] at h
      cases h
    | some => rfl

lemma validateMember_eq_none {member} (h : validateMember ws replacedPublicID member = none) :
    member.resource ≠ [] ∧ (member.resource = replacedPublicID ∨ ws.hasPublishedResourceID member.resource) := by
  unfold validateMember at h
  split at h
  · cases h
  rename_i hne
  split at h
  · cases h
  split at h
  · cases h
  split at h
  · cases h
  rename_i hmissing
  refine ⟨hne, ?_⟩
  by_cases hreplaced : member.resource = replacedPublicID
  · exact .inl hreplaced
  have hfound : ws.hasResource member.resource = true := by
    by_contra hno
    exact hmissing ⟨hreplaced, by simpa using hno⟩
  exact .inr (published_of_hasResource hfound)

lemma groupReferences_eq_nil :
    ws.groupReferences name = [] ↔ ∀ group ∈ ws.groups, group.references name = false := by
  simp [Workspace.groupReferences]

/-- A group that has passed. -/
structure Valid (ws : Workspace) (candidate : LayerGroup) (replacedPublicID : Str) (bound : Nat) : Prop where
  publicID : candidate.publicID ≠ []
  fresh : candidate.publicID = replacedPublicID ∨ ws.hasPublishedResourceID candidate.publicID = false
  unreferenced : replacedPublicID ≠ [] → candidate.publicID ≠ replacedPublicID →
    ∀ group ∈ ws.groups, group.references replacedPublicID = false
  members : ∀ name, candidate.references name →
    name ≠ [] ∧ (name = replacedPublicID ∨ ws.hasPublishedResourceID name)
  depth : ∀ below, Chain (groupsWith ws.groups candidate replacedPublicID) (candidate.publicID :: below) →
    below.length + 1 ≤ bound

lemma valid_of_validateLayerGroup
    (h : validateLayerGroup ws candidate replacedPublicID maxDepth = none) :
    Valid ws candidate replacedPublicID (effectiveDepth maxDepth) := by
  unfold validateLayerGroup at h
  split at h
  · cases h
  rename_i hne
  split at h
  · cases h
  rename_i hfresh
  split at h
  · cases h
  rename_i hunreferenced
  split at h
  · cases h
  split at h
  · cases h
  rename_i hmembers
  refine ⟨hne, ?_, ?_, ?_, fun below hchain => visit_bound h hchain⟩
  · by_cases hsame : candidate.publicID = replacedPublicID
    · exact .inl hsame
    · exact .inr (by simpa [hsame] using hfresh)
  · intro hreplaced hrename
    rw [if_pos ⟨hreplaced, hrename⟩, head?_eq_none_iff] at hunreferenced
    exact groupReferences_eq_nil.mp hunreferenced
  · intro name hlists
    obtain ⟨member, hmember, hresource⟩ := any_eq_true.mp hlists
    have hvalid := validateMember_eq_none (findSome?_eq_none_iff.mp hmembers member hmember)
    rwa [of_decide_eq_true hresource] at hvalid

/-! ## Keeping a workspace well-formed -/

/-- A workspace without chains beyond the bound has no cycles. -/
lemma wellFormed_of_depth (hdepth : ∀ chain, Chain ws.groups chain → chain.length ≤ bound)
    (hmembers : ∀ group ∈ ws.groups, ∀ name, group.references name → ws.hasPublishedResourceID name)
    (hids : (ws.groups.map LayerGroup.publicID ++ ws.resources.map Resource.publicID).Nodup) : WellFormed bound ws :=
  ⟨acyclic_of_depth hdepth, hdepth, hmembers, hids⟩

lemma lookup_of_mem (hids : (groups.map LayerGroup.publicID).Nodup) {group}
    (h : group ∈ groups) : lookup groups group.publicID = some group := by
  cases hlookup : lookup groups group.publicID with
  | none =>
    have hsome := isSome_lookup.mpr ⟨group, h, rfl⟩
    rw [hlookup] at hsome
    cases hsome
  | some =>
    obtain ⟨hother, hid⟩ := mem_of_lookup hlookup
    rw [inj_on_of_nodup_map hids hother h hid]

/-- A workspace with some of its groups and a new one. The names that these groups list are still
there, and a name of the new group that was there before is that of the group it replaces. -/
lemma WellFormed.insert (h : WellFormed bound ws) {kept} (hkept : kept.Sublist ws.groups)
    (hid : candidate.publicID ∉ ws.resources.map Resource.publicID)
    (hlists : ∀ name, candidate.references name → name = candidate.publicID ∨
      ws.hasPublishedResourceID name ∧ lookup kept name = lookup ws.groups name)
    (hothers : ∀ group ∈ kept, ∀ name, group.references name → name = candidate.publicID ∨
      lookup kept name = lookup ws.groups name)
    (hdepth : ∀ above below, (above = [] ∨ Chain ws.groups (above ++ [candidate.publicID])) →
      Chain (insert kept candidate) (candidate.publicID :: below) → above.length + (below.length + 1) ≤ bound) :
    WellFormed bound { ws with groups := insert kept candidate } := by
  have hgroups : (ws.groups.map LayerGroup.publicID).Nodup := (nodup_append.mp h.ids).1
  -- the kept groups are looked up as before
  have hsame : ∀ name, name ≠ candidate.publicID → (lookup (Registry.insert kept candidate) name).isSome →
      lookup ws.groups name = lookup (Registry.insert kept candidate) name := by
    intro name hname hsome
    rw [lookup_insert, if_neg hname] at hsome ⊢
    obtain ⟨group, hlookup⟩ := Option.isSome_iff_exists.mp hsome
    obtain ⟨hmem, rfl⟩ := mem_of_lookup hlookup
    rw [hlookup]
    exact lookup_of_mem hgroups (hkept.subset hmem)
  have hpublished : ∀ name, name = candidate.publicID ∨
      ws.hasPublishedResourceID name ∧ lookup kept name = lookup ws.groups name →
      Workspace.hasPublishedResourceID { ws with groups := Registry.insert kept candidate } name := by
    intro name hname
    rw [published_iff, lookup_insert]
    rcases hname with rfl | ⟨hname, hlookup⟩
    · simp
    rcases published_iff.mp hname with hgroup | hresource
    · left
      split
      · rfl
      · rwa [hlookup]
    · exact .inr hresource
  apply wellFormed_of_depth
  · intro chain hchain
    by_cases hmem : candidate.publicID ∈ chain
    · obtain ⟨above, below, rfl, habove⟩ := eq_append_cons_of_mem hmem
      have hbelow := hchain.suffix
      rw [length_append, length_cons]
      rcases eq_nil_or_concat above with rfl | ⟨above', last, habove'⟩
      · exact hdepth [] below (.inl rfl) hbelow
      -- the group before the new one lists a name that was there
      rw [concat_eq_append] at habove'
      subst habove'
      have hlast := hchain
      rw [append_assoc, singleton_append] at hlast
      have hold : (lookup ws.groups candidate.publicID).isSome := by
        cases hlast.suffix with
        | cons hcontains _ =>
          obtain ⟨group, hgroup, hreferences⟩ := hcontains
          have hne : last ≠ candidate.publicID := fun heq => habove (by simp [heq])
          have hmember := (mem_of_lookup ((hsame last hne (by simp [hgroup])).trans hgroup)).1
          exact (published_iff.mp (h.members group hmember _ hreferences)).resolve_right hid
      refine hdepth _ below (.inr (hchain.upTo ?_ hold)) hbelow
      exact fun name hname => hsame name (fun heq => habove (heq ▸ hname))
        (hchain.mem (mem_append_left _ hname))
    · apply h.depth
      apply hchain.congr
      exact fun name hname => hsame name (fun heq => hmem (heq ▸ hname)) (hchain.mem hname)
  · intro group hgroup name hname
    rcases mem_cons.mp hgroup with rfl | hgroup
    · exact hpublished name (hlists name hname)
    have hmem := (mem_filter.mp hgroup).1
    rcases hothers group hmem name hname with heq | hlookup
    · exact hpublished name (.inl heq)
    · exact hpublished name (.inr ⟨h.members group (hkept.subset hmem) name hname, hlookup⟩)
  · show (candidate.publicID :: (remove kept candidate.publicID).map LayerGroup.publicID ++
      ws.resources.map Resource.publicID).Nodup
    rw [cons_append, nodup_cons]
    constructor
    · intro hmem
      rcases mem_append.mp hmem with hmem | hmem
      · obtain ⟨group, hgroup, heq⟩ := mem_map.mp hmem
        have hne := (mem_filter.mp hgroup).2
        simp [heq] at hne
      · exact hid hmem
    · have hsub : (remove kept candidate.publicID).Sublist ws.groups := filter_sublist.trans hkept
      exact h.ids.sublist ((hsub.map _).append_right _)

/-- A workspace with some of its groups, none of which lists one that is gone. -/
lemma WellFormed.remove (h : WellFormed bound ws) {publicID : Str}
    (hreferences : ∀ group ∈ ws.groups, group.publicID ≠ publicID → group.references publicID = false) :
    WellFormed bound { ws with groups := remove ws.groups publicID } := by
  apply wellFormed_of_depth
  · intro chain hchain
    apply h.depth
    apply hchain.congr
    intro name hname
    have hsome := hchain.mem hname
    rw [lookup_remove] at hsome ⊢
    split at hsome
    · cases hsome
    rename_i hne
    rw [if_neg hne]
  · intro group hgroup name hname
    obtain ⟨hmem, hne⟩ := mem_filter.mp hgroup
    have hother : name ≠ publicID := by
      rintro rfl
      rw [hreferences group hmem (by simpa using hne)] at hname
      cases hname
    rw [published_iff, lookup_remove, if_neg hother]
    exact published_iff.mp (h.members group hmem name hname)
  · exact h.ids.sublist ((filter_sublist.map _).append_right _)

/-- A resource more, under a name of its own. -/
lemma WellFormed.addResource (h : WellFormed bound ws)
    (hid : ws.hasPublishedResourceID r.publicID = false) : WellFormed bound (ws.addResource r) := by
  have hfresh := not_published hid
  have hrest : (ws.resources.filter fun r' => !r.sameKey r') = ws.resources := by
    apply filter_eq_self.mpr
    intro r' hr'
    have hne : r.publicID ≠ r'.publicID := fun heq => hfresh (.inr (mem_map.mpr ⟨r', hr', heq.symm⟩))
    simp [Resource.sameKey, hne]
  refine wellFormed_of_depth h.depth ?_ ?_
  · intro group hgroup name hname
    rw [published_iff]
    rcases published_iff.mp (h.members group hgroup name hname) with hgroup | hresource
    · exact .inl hgroup
    right
    show name ∈ (r :: ws.resources.filter fun r' => !r.sameKey r').map Resource.publicID
    rw [hrest, map_cons]
    exact mem_cons_of_mem _ hresource
  · show (ws.groups.map LayerGroup.publicID ++
      (r :: ws.resources.filter fun r' => !r.sameKey r').map Resource.publicID).Nodup
    rw [hrest, map_cons, nodup_middle, nodup_cons]
    refine ⟨?_, h.ids⟩
    intro hmem
    rcases mem_append.mp hmem with hmem | hmem
    · obtain ⟨group, hgroup, heq⟩ := mem_map.mp hmem
      exact hfresh (.inl (isSome_lookup.mpr ⟨group, hgroup, heq⟩))
    · exact hfresh (.inr hmem)

/-- A resource less, that no group lists. -/
lemma WellFormed.removeResource (h : WellFormed bound ws)
    (hreferences : ws.groupReferences r.publicID = []) : WellFormed bound (ws.removeResource r) := by
  refine wellFormed_of_depth h.depth ?_ ?_
  · intro group hgroup name hname
    rw [published_iff]
    rcases published_iff.mp (h.members group hgroup name hname) with hgroup' | hresource
    · exact .inl hgroup'
    obtain ⟨r', hr', rfl⟩ := mem_map.mp hresource
    refine .inr (mem_map.mpr ⟨r', mem_filter.mpr ⟨hr', ?_⟩, rfl⟩)
    -- a resource with the name of the one that goes is not listed
    have hne : r.publicID ≠ r'.publicID := by
      intro heq
      rw [← heq, groupReferences_eq_nil.mp hreferences group hgroup] at hname
      cases hname
    simp [Resource.sameKey, hne]
  · exact h.ids.sublist ((filter_sublist.map _).append_left _)

/-! ## Runs -/

/-- A workspace whose groups have names. -/
structure Sound (bound : Nat) (ws : Workspace) : Prop where
  wellFormed : WellFormed bound ws
  named : ∀ group ∈ ws.groups, group.publicID ≠ []

lemma named_insert (hcandidate : candidate.publicID ≠ [])
    (h : ∀ group ∈ groups, group.publicID ≠ []) : ∀ group ∈ insert groups candidate, group.publicID ≠ [] := by
  exact forall_mem_cons.mpr ⟨hcandidate, fun group hgroup => h group (mem_filter.mp hgroup).1⟩

lemma sound_create (h : Sound bound ws)
    (hvalid : Valid ws candidate [] bound) : Sound bound { ws with groups := insert ws.groups candidate } := by
  have hnot := not_published (hvalid.fresh.resolve_left hvalid.publicID)
  refine ⟨h.wellFormed.insert (List.Sublist.refl _) (fun hmem => hnot (.inr hmem)) ?_ ?_ ?_,
    named_insert hvalid.publicID h.named⟩
  · intro name hname
    obtain ⟨hne, hpublished⟩ := hvalid.members name hname
    exact .inr ⟨hpublished.resolve_left hne, rfl⟩
  · exact fun _ _ _ _ => .inr rfl
  · intro above below habove hbelow
    rcases habove with rfl | habove
    · rw [length_nil, Nat.zero_add]
      exact hvalid.depth below hbelow
    · exact absurd (.inl (habove.mem (by simp))) hnot

lemma sound_update {existing candidate} (h : Sound bound ws)
    (hexisting : existing ∈ ws.groups) (hvalid : Valid ws candidate existing.publicID bound)
    (hself : candidate.publicID ≠ existing.publicID → candidate.references existing.publicID = false)
    (habove : ∀ above below, Chain ws.groups (above ++ [existing.publicID]) →
      Chain (groupsWith ws.groups candidate existing.publicID) (candidate.publicID :: below) →
        above.length + (below.length + 1) ≤ bound) :
    Sound bound { ws with groups := insert (remove ws.groups existing.publicID) candidate } := by
  have hgroups : groupsWith ws.groups candidate existing.publicID =
      insert (remove ws.groups existing.publicID) candidate := by
    rw [groupsWith, if_neg (h.named existing hexisting)]
  have hkeep : ∀ name, name ≠ existing.publicID →
      lookup (remove ws.groups existing.publicID) name = lookup ws.groups name := by
    intro name hname
    rw [lookup_remove, if_neg hname]
  -- a name that was there is the one that is replaced
  have hsame : (lookup ws.groups candidate.publicID).isSome ∨
      candidate.publicID ∈ ws.resources.map Resource.publicID → candidate.publicID = existing.publicID := by
    intro hold
    refine hvalid.fresh.resolve_right ?_
    rw [published_iff.mpr hold]
    exact Bool.noConfusion
  have hold : ∀ {group : LayerGroup} {name}, group.references name →
      (candidate.publicID ≠ existing.publicID → group.references existing.publicID = false) →
      name = candidate.publicID ∨ name ≠ existing.publicID := by
    intro group name hname hreferences
    by_cases hrename : candidate.publicID = existing.publicID
    · rw [hrename]
      exact em _
    right
    rintro rfl
    rw [hreferences hrename] at hname
    cases hname
  refine ⟨h.wellFormed.insert filter_sublist ?_ ?_ ?_ ?_, ?_⟩
  · intro hmem
    have hdisjoint := (nodup_append.mp h.wellFormed.ids).2.2
    exact hdisjoint _ (mem_map_of_mem hexisting) _ hmem (hsame (.inr hmem)).symm
  · intro name hname
    refine (hold hname hself).imp_right fun hne => ?_
    exact ⟨(hvalid.members name hname).2.resolve_left hne, hkeep name hne⟩
  · intro group hgroup name hname
    refine (hold hname fun hrename => ?_).imp_right (hkeep name)
    exact hvalid.unreferenced (h.named existing hexisting) hrename group (mem_filter.mp hgroup).1
  · intro above below hchain hbelow
    rw [← hgroups] at hbelow
    rcases hchain with rfl | hchain
    · rw [length_nil, Nat.zero_add]
      exact hvalid.depth below hbelow
    · rw [hsame (.inl (hchain.mem (by simp)))] at hchain
      exact habove above below hchain hbelow
  · exact named_insert hvalid.publicID fun group hgroup => h.named group (mem_filter.mp hgroup).1

lemma sound_step {w' : World} {l : Label} (h : Sound (effectiveDepth maxDepth) w.ws)
    (hstep : Step maxDepth w l w') (hcareful : Careful maxDepth w l) : Sound (effectiveDepth maxDepth) w'.ws := by
  cases hstep with
  | createLayerGroup hvalid => exact sound_create h (valid_of_validateLayerGroup hvalid)
  | updateLayerGroup hexisting hvalid =>
    exact sound_update h hexisting (valid_of_validateLayerGroup hvalid) hcareful.1 hcareful.2
  | deleteLayerGroup hexisting hreferences =>
    exact ⟨h.wellFormed.remove hreferences, fun group hgroup => h.named group (mem_filter.mp hgroup).1⟩
  | beginCreate | beginDelete | abandon => exact h
  | endCreate => exact ⟨h.wellFormed.addResource hcareful, h.named⟩
  | endDelete => exact ⟨h.wellFormed.removeResource hcareful, h.named⟩

lemma sound_init (h : w.Init) : Sound bound w.ws := by
  have hgroups := h.groups
  refine ⟨wellFormed_of_depth ?_ ?_ ?_, ?_⟩
  · intro chain hchain
    rw [hgroups] at hchain
    cases chain with
    | nil => exact Nat.zero_le _
    | cons => exact absurd hchain.head (by simp [lookup])
  · rw [hgroups]
    exact fun group hgroup => absurd hgroup not_mem_nil
  · rw [hgroups]
    exact h.ids
  · rw [hgroups]
    exact fun group hgroup => absurd hgroup not_mem_nil

/-- In a run of careful calls the workspace stays well-formed. -/
theorem wellFormed_of_reachable {maxDepth : Int} {w : World}
    (h : ((machine maxDepth).restrict fun w l _ => Careful maxDepth w l).Reachable w) :
    WellFormed (effectiveDepth maxDepth) w.ws := by
  have hsound : Sound (effectiveDepth maxDepth) w.ws := by
    refine Machine.Reachable.induct (I := fun w => Sound (effectiveDepth maxDepth) w.ws) ?_ ?_ h
    · intro w hinit
      exact sound_init hinit
    · intro w l w' _ hsound hstep
      exact sound_step hsound hstep.1 hstep.2
  exact hsound.wellFormed

/-! ## Calls that are not careful -/

def plainMember (resource : String) : LayerGroupMember := { resource := resource.toList }

def plainGroup (publicID : String) (members : List String) : LayerGroup :=
  ⟨publicID.toList, true, members.map plainMember⟩

def roads (service : String) : Resource := ⟨.layer, service.toList, "roads", true⟩

/-- A workspace with one layer and some groups. -/
def withGroups (groups : List LayerGroup) : World := ⟨⟨[roads "a"], groups, []⟩, []⟩

lemma withGroups_init : (withGroups []).Init := ⟨rfl, rfl, by decide⟩

/-- A group of a layer. -/
theorem wellFormed_of_create : ∃ w, ((machine 2).restrict fun w l _ => Careful 2 w l).Reachable w ∧
    w.ws.groups = [plainGroup "B" ["roads"]] ∧ WellFormed (effectiveDepth 2) w.ws := by
  have hstep : Step 2 (withGroups []) (.createLayerGroup (plainGroup "B" ["roads"]))
    (withGroups [plainGroup "B" ["roads"]]) := .createLayerGroup (by decide)
  have hreach : ((machine 2).restrict fun w l _ => Careful 2 w l).Reachable
    (withGroups [plainGroup "B" ["roads"]]) := (Machine.Reachable.init withGroups_init).step ⟨hstep, trivial⟩
  exact ⟨_, hreach, rfl, wellFormed_of_reachable hreach⟩

/-- With a bound of two, `A` contains `B` and then `B` gets `C`. A group gets another name and lists
its old one. Two layers get one name in two services. -/
theorem calls_not_wellFormed :
    (∃ w, (machine 2).Reachable w ∧ Chain w.ws.groups ["A", "B", "C"]) ∧
    (∃ w, (machine 2).Reachable w ∧ w.ws.groups = [plainGroup "A2" ["A"]] ∧
      w.ws.hasPublishedResourceID "A" = false) ∧
    ∃ w, (machine 2).Reachable w ∧ w.ws.resources = [roads "b", roads "a"] := by
  let M := machine 2
  have hinit : M.Reachable (withGroups []) := .init withGroups_init
  refine ⟨?_, ?_, ?_⟩
  · let b := plainGroup "B" ["roads"]
    let ab := plainGroup "A" ["B"]
    let c := plainGroup "C" ["roads"]
    have h1 : M.Reachable (withGroups [b]) :=
      hinit.step (Step.createLayerGroup (by decide))
    have h2 : M.Reachable (withGroups [ab, b]) :=
      h1.step (Step.createLayerGroup (by decide))
    have h3 : M.Reachable (withGroups [c, ab, b]) :=
      h2.step (Step.createLayerGroup (by decide))
    have hexisting : b ∈ (withGroups [c, ab, b]).ws.groups := by decide
    have h4 : M.Reachable (withGroups [plainGroup "B" ["C"], c, ab]) :=
      h3.step (Step.updateLayerGroup hexisting (by decide))
    exact ⟨_, h4, .cons ⟨_, rfl, rfl⟩ (.cons ⟨_, rfl, rfl⟩ (.single rfl))⟩
  · let a := plainGroup "A" ["roads"]
    have h1 : M.Reachable (withGroups [a]) := hinit.step (Step.createLayerGroup (by decide))
    have hexisting : a ∈ (withGroups [a]).ws.groups := by decide
    have h2 : M.Reachable (withGroups [plainGroup "A2" ["A"]]) :=
      h1.step (Step.updateLayerGroup hexisting (by decide))
    exact ⟨_, h2, rfl, by decide⟩
  · have h0 : M.Reachable ⟨⟨[], [], []⟩, []⟩ := .init ⟨rfl, rfl, nodup_nil⟩
    have h1 : M.Reachable ⟨⟨[], [], []⟩, [.creating (roads "a")]⟩ := h0.step (Step.beginCreate (by decide))
    have h2 : M.Reachable ⟨⟨[], [], []⟩, [.creating (roads "b"), .creating (roads "a")]⟩ :=
      h1.step (Step.beginCreate (by decide))
    -- both have passed the check
    have h3 : M.Reachable ⟨⟨[roads "a"], [], []⟩, [.creating (roads "b")]⟩ :=
      h2.step (Step.endCreate (by decide))
    have h4 : M.Reachable ⟨⟨[roads "b", roads "a"], [], []⟩, []⟩ := h3.step (Step.endCreate (by decide))
    exact ⟨_, h4, rfl⟩

end NeoServer.Registry
