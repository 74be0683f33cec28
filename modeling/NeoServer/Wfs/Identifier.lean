import NeoServer.Wfs.Access

/-!
# Wfs.Identifier — feature identifiers there and back

A feature is advertised under a `gml:id` made of the name of its element, a dot and its own id.
GetFeatureById and the filters on ResourceId take such an identifier apart again, by the longest
part before a dot that names a layer.

- `gmlFeatureID` : the identifier that is written,
- `resolveFeatureIdentifier_eq` : which of its dots is taken,
- `standsFor_iff` : the layer that a name without a colon stands for,
- `gmlFeatureID_resolves_iff` : when an identifier leads back to its feature.
-/

namespace NeoServer.Wfs

open List

/-! ## Writing -/

/-- The name of the element: the local part of the advertised name, or else the name of the layer
in its source. -/
def featureElementName (appPrefix publicID layerName : Str) : Str :=
  let localPart := (parseQName (publishedFeatureTypeName publicID appPrefix)).localPart
  sanitizeXMLName (if localPart = [] then layerName else localPart)

/-- The prefix of the element. -/
def effectivePrefix (appPrefix publicID : Str) : Str :=
  let pre := (parseQName (publishedFeatureTypeName publicID appPrefix)).pre
  if pre = [] then appPrefix else pre

/-- The `gml:id` of a feature. There is none if the element has no name in XML. -/
def gmlFeatureID (appPrefix publicID layerName id : Str) : Option Str :=
  if validASCIIXMLName (effectivePrefix appPrefix publicID) = false then none
  else if validASCIIXMLName (featureElementName appPrefix publicID layerName) = false then none
  else some (featureElementName appPrefix publicID layerName ++ "." ++ id)

lemma gmlFeatureID_eq_some {appPrefix publicID layerName id gid : Str}
    (h : gmlFeatureID appPrefix publicID layerName id = some gid) :
    validASCIIXMLName (featureElementName appPrefix publicID layerName) = true ∧
      gid = featureElementName appPrefix publicID layerName ++ '.' :: id := by
  unfold gmlFeatureID at h
  split at h
  · cases h
  split at h
  · cases h
  rename_i hvalid
  cases h
  exact ⟨by simpa using hvalid, by simp⟩

/-- An XML name is not empty and has no colon. -/
lemma validASCIIXMLName_spec {name : Str} (h : validASCIIXMLName name = true) : name ≠ [] ∧ ':' ∉ name := by
  cases name with
  | nil => cases h
  | cons c s =>
    obtain ⟨hc, hs⟩ := Bool.and_eq_true_iff.mp h
    refine ⟨cons_ne_nil c s, ?_⟩
    intro hmem
    rcases mem_cons.mp hmem with rfl | hmem
    · exact absurd hc (by decide)
    · exact absurd (all_eq_true.mp hs _ hmem) (by decide)

/-! ## Taking apart -/

section

variable {ws : Workspace} {appPrefix : Str}

variable {typeName id localID : Str}

/-- What the strip of a type finds behind that type. -/
lemma featureIDForType_append (h : typeName ≠ []) :
    Fes.featureIDForType (typeName ++ '.' :: id) typeName = some id := by
  simp [Fes.featureIDForType, h, afterPrefix]

/-- The parts around a dot, by its place. -/
lemma eq_append_dot_iff :
    id = typeName ++ '.' :: localID ↔
      id[typeName.length]? = some '.' ∧ id.take typeName.length = typeName ∧
        id.drop (typeName.length + 1) = localID := by
  constructor
  · rintro rfl
    simp
  · rintro ⟨hdot, htake, hdrop⟩
    have hlt : typeName.length < id.length := (List.getElem?_eq_some_iff.mp hdot).1
    have hget : id[typeName.length] = '.' := (List.getElem?_eq_some_iff.mp hdot).2
    calc id = id.take typeName.length ++ id.drop typeName.length := (take_append_drop _ _).symm
      _ = typeName ++ '.' :: localID := by rw [drop_eq_getElem_cons hlt, hget, htake, hdrop]

/-- The identifier has a dot between two parts, the first of which names a layer. -/
def NamesAt (ws : Workspace) (appPrefix id typeName localID : Str) : Prop :=
  id = typeName ++ '.' :: localID ∧ typeName ≠ [] ∧ localID ≠ [] ∧
    (resolveFeatureLayer ws appPrefix typeName).isSome

/-- The dot that is taken is the last one behind a name, of those up to `n`. -/
lemma resolveIdentifierAt_eq {n : Nat} :
    resolveIdentifierAt ws appPrefix id n = some (typeName, localID) ↔
      NamesAt ws appPrefix id typeName localID ∧ typeName.length ≤ n ∧
        ∀ typeName' localID', NamesAt ws appPrefix id typeName' localID' → typeName'.length ≤ n →
          typeName'.length ≤ typeName.length := by
  induction n with
  | zero =>
    unfold resolveIdentifierAt
    refine iff_of_false (by simp) ?_
    rintro ⟨⟨_, hne, _⟩, hle, _⟩
    exact hne (length_eq_zero_iff.mp (by omega))
  | succ n ih =>
    -- if there is no name before this place, the search goes on
    have hnext : (∀ typeName' localID', NamesAt ws appPrefix id typeName' localID' →
        typeName'.length ≠ n + 1) →
        (resolveIdentifierAt ws appPrefix id n = some (typeName, localID) ↔
          NamesAt ws appPrefix id typeName localID ∧ typeName.length ≤ n + 1 ∧
            ∀ typeName' localID', NamesAt ws appPrefix id typeName' localID' → typeName'.length ≤ n + 1 →
              typeName'.length ≤ typeName.length) := by
      intro hnone
      rw [ih]
      constructor
      · rintro ⟨hnames, hle, hlast⟩
        refine ⟨hnames, by omega, ?_⟩
        intro typeName' localID' hnames' hle'
        have hne := hnone _ _ hnames'
        exact hlast _ _ hnames' (by omega)
      · rintro ⟨hnames, hle, hlast⟩
        have hne := hnone _ _ hnames
        exact ⟨hnames, by omega, fun _ _ hnames' hle' => hlast _ _ hnames' (by omega)⟩
    unfold resolveIdentifierAt
    split
    · rename_i hdot
      have hlt : n + 1 < id.length := (List.getElem?_eq_some_iff.mp hdot.1).1
      have hlen : (id.take (n + 1)).length = n + 1 := by
        rw [length_take]
        omega
      have hsplit : id = id.take (n + 1) ++ '.' :: id.drop (n + 2) := by
        apply eq_append_dot_iff.mpr
        rw [hlen]
        exact ⟨hdot.1, rfl, rfl⟩
      have htake : id.take (n + 1) ≠ [] := by
        intro hnil
        rw [hnil] at hlen
        cases hlen
      have hdrop : id.drop (n + 2) ≠ [] := by
        intro hnil
        have := drop_eq_nil_iff.mp hnil
        omega
      split
      · rename_i q hq
        have hnames : NamesAt ws appPrefix id (id.take (n + 1)) (id.drop (n + 2)) :=
          ⟨hsplit, htake, hdrop, by rw [hq]; rfl⟩
        have hlocal : Fes.featureIDForType id (id.take (n + 1)) = some (id.drop (n + 2)) := by
          have hbehind : Fes.featureIDForType (id.take (n + 1) ++ '.' :: id.drop (n + 2)) (id.take (n + 1)) =
            some (id.drop (n + 2)) := featureIDForType_append htake
          rwa [← hsplit] at hbehind
        rw [hlocal, Option.getD_some, Option.some.injEq, Prod.mk.injEq]
        constructor
        · rintro ⟨rfl, rfl⟩
          exact ⟨hnames, by omega, fun _ _ _ hle' => by omega⟩
        · rintro ⟨hnames', hle', hlast⟩
          have heq : typeName.length = n + 1 := by
            have := hlast _ _ hnames (by omega)
            omega
          obtain ⟨_, htypeName, hlocalID⟩ := eq_append_dot_iff.mp hnames'.1
          rw [heq] at htypeName hlocalID
          exact ⟨htypeName, hlocalID⟩
      · rename_i hnone
        apply hnext
        rintro typeName' localID' ⟨hsplit', _, _, hsome⟩ heq
        rw [← (eq_append_dot_iff.mp hsplit').2.1, heq, hnone] at hsome
        cases hsome
    · rename_i hdot
      apply hnext
      rintro typeName' localID' ⟨hsplit', _, hne, _⟩ heq
      apply hdot
      rw [← heq]
      refine ⟨(eq_append_dot_iff.mp hsplit').1, ?_⟩
      have hpos := length_pos_iff.mpr hne
      rw [hsplit', length_append, length_cons]
      omega

theorem resolveFeatureIdentifier_eq :
    resolveFeatureIdentifier ws appPrefix id = some (typeName, localID) ↔
      NamesAt ws appPrefix id typeName localID ∧
        ∀ typeName' localID', NamesAt ws appPrefix id typeName' localID' → typeName'.length ≤ typeName.length := by
  have hle : ∀ typeName' localID', NamesAt ws appPrefix id typeName' localID' → typeName'.length ≤ id.length := by
    rintro typeName' localID' ⟨rfl, _⟩
    rw [length_append]
    omega
  unfold resolveFeatureIdentifier
  rw [resolveIdentifierAt_eq]
  constructor
  · rintro ⟨hnames, _, hlast⟩
    exact ⟨hnames, fun _ _ hnames' => hlast _ _ hnames' (hle _ _ hnames')⟩
  · rintro ⟨hnames, hlast⟩
    exact ⟨hnames, hle _ _ hnames, fun _ _ hnames' _ => hlast _ _ hnames'⟩

/-! ## The layer of a name -/

/-- The search keeps the identifier that it has found. -/
lemma publicID_of_matchLayers {typeName localName : Str} {layers} :
    ∀ {m layer : Layer}, matchLayers appPrefix typeName localName (some m) layers = some layer →
      layer.publicID = m.publicID := by
  induction layers with
  | nil =>
    rintro m layer ⟨⟩
    rfl
  | cons candidate rest ih =>
    intro m layer h
    unfold matchLayers at h
    split at h
    · dsimp only at h
      split at h
      · cases h
      rename_i hsame
      rw [ih h]
      simpa using (not_not.mp hsame).symm
    · exact ih h

/-- The search finds a layer if all that fit have one identifier. -/
lemma matchLayers_eq_some {typeName localName publicID : Str} {layers} :
    ∀ {matched}, (∀ m ∈ matched, m.publicID = publicID) →
      ((∃ layer, matchLayers appPrefix typeName localName matched layers = some layer ∧ layer.publicID = publicID) ↔
        (matched.isSome ∨ ∃ layer ∈ layers, nameMatches appPrefix typeName localName layer) ∧
          ∀ layer ∈ layers, nameMatches appPrefix typeName localName layer → layer.publicID = publicID) := by
  induction layers with
  | nil =>
    intro matched hmatched
    cases matched with
    | none => simp [matchLayers]
    | some => simpa [matchLayers] using hmatched
  | cons candidate rest ih =>
    intro matched hmatched
    unfold matchLayers
    by_cases hfits : nameMatches appPrefix typeName localName candidate = true
    · rw [if_pos hfits]
      by_cases hid : candidate.publicID = publicID
      · have hnext : ∀ m ∈ some candidate, m.publicID = publicID := by
          rintro m ⟨⟩
          exact hid
        have hgoal : (∃ layer, matchLayers appPrefix typeName localName (some candidate) rest = some layer ∧
            layer.publicID = publicID) ↔ _ := ih hnext
        cases matched with
        | none =>
          rw [hgoal]
          simp [hfits, hid]
        | some m =>
          have hm : m.publicID = candidate.publicID := by rw [hid]; exact hmatched m rfl
          dsimp only
          rw [if_neg (by simpa using hm), hgoal]
          simp [hfits, hid]
      · -- a second identifier ends the search, or is the one that is found
        refine iff_of_false ?_ fun h => hid (h.2 candidate mem_cons_self hfits)
        rintro ⟨layer, hfound, hlayer⟩
        cases matched with
        | none => exact hid (by rw [← hlayer, publicID_of_matchLayers hfound])
        | some m =>
          dsimp only at hfound
          rw [if_pos (by rw [hmatched m rfl]; exact fun h => hid h.symm)] at hfound
          cases hfound
    · rw [if_neg hfits, ih hmatched]
      simp [hfits]

/-- The layer with this identifier, or else the only one that is advertised under the name. -/
def StandsFor (ws : Workspace) (appPrefix name : Str) (p : Layer × Service) : Prop :=
  p.1.publicID = name ∨
    (∀ q ∈ ws.published, q.1.publicID ≠ name) ∧ nameMatches appPrefix name name p.1 ∧
      ∀ q ∈ ws.published, nameMatches appPrefix name name q.1 → q = p

lemma cutFirst_eq_none {c : Char} {s : Str} (h : c ∉ s) : cutFirst c s = none := by
  induction s with
  | nil => rfl
  | cons d s ih =>
    rw [mem_cons, not_or] at h
    simp [cutFirst, Ne.symm h.1, ih h.2]

lemma getLayer_eq_none_iff : ws.getLayer id = none ↔ ∀ q ∈ ws.published, q.1.publicID ≠ id := by
  simp [Workspace.getLayer]

theorem standsFor_iff {name : Str} {p} (hp : p ∈ ws.published) (hname : name ≠ [])
    (hcolon : ':' ∉ name) :
    resolveFeatureLayer ws appPrefix name = some p ↔ StandsFor ws appPrefix name p := by
  unfold resolveFeatureLayer StandsFor
  rw [if_neg hname, cutFirst_eq_none hcolon]
  cases hget : ws.getLayer name with
  | some q =>
    obtain ⟨hq, hid⟩ := Workspace.mem_of_getLayer hget
    rw [Option.some.injEq]
    constructor
    · rintro rfl
      exact .inl hid
    · rintro (hpid | ⟨hnone, _⟩)
      · exact Workspace.eq_of_publicID hq hp (hid.trans hpid.symm)
      · exact absurd hid (hnone q hq)
  | none =>
    have hnone := getLayer_eq_none_iff.mp hget
    have hall : ((ws.published.map Prod.fst).filter fun layer => layer.visibleToRole "super_admin") =
        ws.published.map Prod.fst := by
      apply filter_eq_self.mpr
      intro layer _
      simp [Layer.visibleToRole]
    have hspec : (∃ layer, matchLayers appPrefix name name none (ws.published.map Prod.fst) = some layer ∧
        layer.publicID = p.1.publicID) ↔ _ := matchLayers_eq_some nofun
    dsimp only
    rw [hall]
    constructor
    · intro h
      split at h
      · rename_i layer hlayer
        have hid := (Workspace.mem_of_getLayer h).2
        obtain ⟨hsome, hunique⟩ := hspec.mp ⟨layer, hlayer, hid.symm⟩
        have honly : ∀ q ∈ ws.published, nameMatches appPrefix name name q.1 → q = p := by
          intro q hq hfits
          exact Workspace.eq_of_publicID hq hp (hunique q.1 (mem_map_of_mem hq) hfits)
        refine .inr ⟨hnone, ?_, honly⟩
        obtain ⟨layer', hmem, hfits⟩ := hsome.resolve_left (by simp)
        obtain ⟨q, hq, rfl⟩ := mem_map.mp hmem
        rwa [← honly q hq hfits]
      · cases h
    · rintro (hid | ⟨_, hfits, honly⟩)
      · exact absurd hid (hnone p hp)
      · have hunique : ∀ layer ∈ ws.published.map Prod.fst, nameMatches appPrefix name name layer →
            layer.publicID = p.1.publicID := by
          intro layer hmem hfits'
          obtain ⟨q, hq, rfl⟩ := mem_map.mp hmem
          rw [honly q hq hfits']
        obtain ⟨layer, hlayer, hid⟩ := hspec.mpr ⟨.inr ⟨p.1, mem_map_of_mem hp, hfits⟩, hunique⟩
        rw [hlayer]
        dsimp only
        rw [hid]
        exact Workspace.getLayer_of_mem hp

/-! ## There and back -/

/-- The type of a query, as a filter on ResourceId compares it. -/
def collectionID (typeName : Str) : Str :=
  match cutFirst ':' typeName with
  | some (_, localName) => localName
  | none => typeName

/-- The identifier leads to this layer and this id, also in a filter on that type. -/
def Resolves (ws : Workspace) (appPrefix gid : Str) (p : Layer × Service) (id : Str) : Prop :=
  ∃ typeName, resolveFeatureIdentifier ws appPrefix gid = some (typeName, id) ∧
    resolveFeatureLayer ws appPrefix typeName = some p ∧
    Fes.featureIDForType gid (collectionID typeName) = some id

/-- An identifier leads back to its feature if the id is not empty, if the name of the element
stands for the layer, and if no layer is named by that name with a part of the id. -/
theorem gmlFeatureID_resolves_iff {p : Layer × Service} {layerName id gid : Str} (hp : p ∈ ws.published)
    (h : gmlFeatureID appPrefix p.1.publicID layerName id = some gid) :
    Resolves ws appPrefix gid p id ↔
      id ≠ [] ∧ StandsFor ws appPrefix (featureElementName appPrefix p.1.publicID layerName) p ∧
        ∀ before after, id = before ++ '.' :: after → after ≠ [] →
          resolveFeatureLayer ws appPrefix
            (featureElementName appPrefix p.1.publicID layerName ++ '.' :: before) = none := by
  obtain ⟨hvalid, hgid⟩ := gmlFeatureID_eq_some h
  generalize featureElementName appPrefix p.1.publicID layerName = element at hvalid hgid ⊢
  obtain ⟨hne, hcolon⟩ := validASCIIXMLName_spec hvalid
  rw [← standsFor_iff hp hne hcolon, Resolves]
  constructor
  · rintro ⟨typeName, hresolve, hlayer, _⟩
    obtain ⟨⟨hsplit, _, hid, _⟩, hlast⟩ := resolveFeatureIdentifier_eq.mp hresolve
    have htype : typeName = element := append_cancel_right (hsplit.symm.trans hgid)
    subst htype
    refine ⟨hid, hlayer, ?_⟩
    intro before after hdot hafter
    -- a longer name would have been taken
    by_contra hnone
    have hnames : NamesAt ws appPrefix gid (typeName ++ '.' :: before) after :=
      ⟨by rw [hgid, hdot]; simp, by simp, hafter, Option.isSome_iff_ne_none.mpr hnone⟩
    have hle := hlast _ _ hnames
    rw [length_append, length_cons] at hle
    omega
  · rintro ⟨hid, hlayer, hnone⟩
    have hstrip : collectionID element = element := by
      rw [collectionID, cutFirst_eq_none hcolon]
    refine ⟨element, resolveFeatureIdentifier_eq.mpr ⟨⟨hgid, hne, hid, by rw [hlayer]; rfl⟩, ?_⟩, hlayer, ?_⟩
    · rintro typeName' localID' ⟨hsplit', _, hid', hsome⟩
      by_contra hlt
      -- a longer name ends at a dot of the id
      rw [hgid] at hsplit'
      rcases append_eq_append_iff.mp hsplit' with ⟨rest, htype, hrest⟩ | ⟨rest, helement, hrest⟩
      · cases rest with
        | nil => simp [htype] at hlt
        | cons c before =>
          rw [cons_append, cons.injEq] at hrest
          obtain ⟨rfl, hdot⟩ := hrest
          rw [htype, hnone before localID' hdot hid'] at hsome
          cases hsome
      · rw [helement, length_append] at hlt
        omega
    · rw [hstrip, hgid]
      exact featureIDForType_append hne

end

/-! ## Workspaces with names that are near each other -/

def plainLayer (publicID : String) : Layer where
  sourceLayer := publicID.toList
  publicID := publicID.toList
  enabled := true
  isSQLView := false
  sqlViewReadOnly := false
  isPublic := true
  allowedRoles := []

def plainService (publicIDs : List String) : Service where
  id := "svc"
  enabled := true
  hasDataSource := true
  lockSource := none
  layers := publicIDs.map plainLayer

/-- Two layers, one under the other's name and a dot. -/
def dottedWorkspace : Workspace where
  id := "w"
  services := [plainService ["roads", "roads.main"]]
  publicIDs_nodup := by decide

/-- Two layers with one name in two namespaces. -/
def qualifiedWorkspace : Workspace where
  id := "w"
  services := [plainService ["cite:Autos", "Autos"]]
  publicIDs_nodup := by decide

/-- A road with a plain id. -/
theorem gmlFeatureID_resolves_plain :
    gmlFeatureID "app".toList "roads".toList [] "7".toList = some "roads.7".toList ∧
    (Resolves dottedWorkspace "app".toList "roads.7".toList
        (plainLayer "roads", plainService ["roads", "roads.main"]) "7".toList ↔
      "7".toList ≠ [] ∧
      StandsFor dottedWorkspace "app".toList (featureElementName "app".toList "roads".toList [])
        (plainLayer "roads", plainService ["roads", "roads.main"]) ∧
      ∀ before after, "7".toList = before ++ '.' :: after → after ≠ [] →
        resolveFeatureLayer dottedWorkspace "app".toList
          (featureElementName "app".toList "roads".toList [] ++ '.' :: before) = none) :=
  ⟨by decide, gmlFeatureID_resolves_iff mem_cons_self (by decide)⟩

/-- The feature `main.7` of `roads` is found as `7` of `roads.main`, and a feature of `cite:Autos`
as one of `Autos`. -/
theorem gmlFeatureID_misresolves :
    (gmlFeatureID "app".toList "roads".toList [] "main.7".toList = some "roads.main.7".toList ∧
      resolveFeatureIdentifier dottedWorkspace "app".toList "roads.main.7".toList =
        some ("roads.main".toList, "7".toList)) ∧
    gmlFeatureID "app".toList "cite:Autos".toList [] "7".toList = some "Autos.7".toList ∧
      (resolveFeatureIdentifier qualifiedWorkspace "app".toList "Autos.7".toList).map
          (fun r => resolveFeatureLayer qualifiedWorkspace "app".toList r.1) =
        some (some (plainLayer "Autos", plainService ["cite:Autos", "Autos"])) := by
  refine ⟨⟨by decide, by decide⟩, by decide, rfl⟩

end NeoServer.Wfs
