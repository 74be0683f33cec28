import NeoServer.Wfs.Fes.Models

/-!
# Wfs.Fes.Structure — what validation guarantees about the decoded filter

`Unmarshal` ignores an element it has no field for, and reads a second child of a
negation into the first. `parseFESFilter_valid` says that neither happens to a
document that `validateFilterStructure` accepts: every element that stands for a
predicate is decoded, in order, and the result is a valid filter.
-/

namespace NeoServer.Wfs.Fes

open List

/-! ## Every element is decoded -/

@[simp] lemma decodeLeaf_kind (k : LeafKind) (e : Content) : (decodeLeaf k e).kind = k := by
  cases k <;> rfl

mutual

/-- Every element that stands where a predicate is expected has a field. -/
def Supported : Xml → Prop
  | .element _ name _ children =>
    match Kind.ofName name with
    | some .and | some .or | some .not => SupportedAll children
    | some (.leaf _) | some .resourceId => True
    | none => False
  | _ => True

def SupportedAll : List Xml → Prop
  | [] => True
  | x :: xs => Supported x ∧ SupportedAll xs

end

variable {name space : Str} {attrs : List (Str × Str)} {children xs : List Xml} {f p p' : Container}
  {names : List Str} {rest : List Container} {r : Nat} {st' : Scan}

variable {k : Kind} {x : Xml} {resource : Bool}

/-- An element is decoded into the field of its name. -/
lemma decodeChild_kind (space : Str) (attrs : List (Str × Str))
    (children : List Xml) (h : Kind.ofName name = some k) :
    ∃ p, decodeChild (.element space name attrs children) = some p ∧ p.kind = k := by
  unfold decodeChild
  rw [h]
  rcases k with _ | _ | _ | k | _
  · exact ⟨_, rfl, rfl⟩
  · exact ⟨_, rfl, rfl⟩
  · exact ⟨_, rfl, rfl⟩
  · exact ⟨_, rfl, by simp [Predicate.kind]⟩
  · exact ⟨_, rfl, rfl⟩

lemma exists_ofName_of_supported (h : Supported (.element space name attrs children)) :
    ∃ k, Kind.ofName name = some k := by
  unfold Supported at h
  cases hk : Kind.ofName name with
  | none =>
    rw [hk] at h
    exact h.elim
  | some k => exact ⟨k, rfl⟩

/-- Supported children are decoded one by one, in order. -/
lemma map_kind_decodeChildren (h : SupportedAll xs) :
    (decodeChildren xs).map (fun p => p.kind.name) = Xml.names xs := by
  induction xs with
  | nil => rfl
  | cons x xs ih =>
    obtain ⟨hx, hxs⟩ := h
    cases x with
    | element space name attrs children =>
      obtain ⟨k, hk⟩ := exists_ofName_of_supported hx
      obtain ⟨p, hp, hpk⟩ := decodeChild_kind space attrs children hk
      simp [decodeChildren, hp, hpk, name_of_ofName hk, ih hxs]
    | text | directive | other => exact ih hxs

/-! ## What validation accepts -/

lemma scan_cons (st : Scan) (t : XmlToken) (ts : List XmlToken) :
    scan st (t :: ts) = (st.step t).bind fun st' => scan st' ts := rfl

lemma scan_append (st : Scan) (ts us : List XmlToken) :
    scan st (ts ++ us) = (scan st ts).bind fun st' => scan st' us :=
  foldlM_append

lemma bind_ok_iff {ε α β : Type} {x : Except ε α} {f : α → Except ε β} {b : β} :
    x.bind f = .ok b ↔ ∃ a, x = .ok a ∧ f a = .ok b := by
  cases x <;> simp [Except.bind]

/-- Record several children. -/
def Container.admitAll (parent : Container) : List Str → Except FilterError Container
  | [] => .ok parent
  | name :: names => (parent.admitChild name).bind fun p => p.admitAll names

lemma admitChild_ok (h : p.admitChild name = .ok p') :
    (∃ k, Kind.ofName name = some k) ∧ p.ambiguous (name = "ResourceId") = false ∧
      p' = ⟨p.name, p.children + 1, name = "ResourceId"⟩ := by
  unfold Container.admitChild at h
  dsimp only at h
  split at h
  case isTrue => cases h
  case isFalse hk =>
    split at h
    case isTrue => cases h
    case isFalse hamb =>
      cases h
      have hsome : Kind.ofName name ≠ none := fun hnone => hk (by rw [hnone]; rfl)
      exact ⟨Option.ne_none_iff_exists'.mp hsome, Bool.eq_false_iff.mpr hamb, rfl⟩

lemma ambiguous_not (hname : p.name = "Not")
    (h : p.ambiguous resource = false) : p.children = 0 := by
  have hne : ¬ p.name = "Filter" := by
    rw [hname]
    decide
  simpa [Container.ambiguous, hname, hne] using h

lemma ambiguous_filter (hname : p.name = "Filter") (hpos : 0 < p.children)
    (h : p.ambiguous resource = false) : resource = true ∧ p.resources = true := by
  have hne : ¬ p.name = "Not" := by
    rw [hname]
    decide
  simpa [Container.ambiguous, hname, hne, hpos] using h

lemma admitAll_ok (h : p.admitAll names = .ok p') :
    p'.name = p.name ∧ p'.children = p.children + names.length := by
  induction names generalizing p with
  | nil =>
    cases h
    exact ⟨rfl, rfl⟩
  | cons name names ih =>
    obtain ⟨q, hq, hrest⟩ := bind_ok_iff.mp h
    obtain ⟨-, -, rfl⟩ := admitChild_ok hq
    obtain ⟨hname, hchildren⟩ := ih hrest
    refine ⟨hname, ?_⟩
    simp only [hchildren, length_cons]
    omega

/-- A negation admits one child. -/
lemma admitAll_not (hname : p.name = "Not") (h : p.admitAll names = .ok p') :
    p.children + names.length ≤ 1 ∨ names = [] := by
  cases names with
  | nil => exact .inr rfl
  | cons name names =>
    left
    obtain ⟨q, hq, hrest⟩ := bind_ok_iff.mp h
    obtain ⟨-, hamb, rfl⟩ := admitChild_ok hq
    have hzero := ambiguous_not hname hamb
    cases names with
    | nil => simp [hzero]
    | cons =>
      obtain ⟨q', hq', -⟩ := bind_ok_iff.mp hrest
      obtain ⟨-, hamb', -⟩ := admitChild_ok hq'
      have hsucc := ambiguous_not (p := ⟨p.name, p.children + 1, _⟩) hname hamb'
      exact absurd hsucc (Nat.succ_ne_zero _)

/-- Once a filter holds a child, it admits only resource ids, and only if its
children so far are resource ids. -/
lemma admitAll_filter
    (hname : p.name = "Filter") (hpos : 0 < p.children) (h : p.admitAll names = .ok p') :
    names = [] ∨ (p.resources = true ∧ ∀ name ∈ names, name = "ResourceId") := by
  induction names generalizing p with
  | nil => exact .inl rfl
  | cons name names ih =>
    right
    obtain ⟨q, hq, hrest⟩ := bind_ok_iff.mp h
    obtain ⟨-, hamb, rfl⟩ := admitChild_ok hq
    have hres := ambiguous_filter hname hpos hamb
    refine ⟨hres.2, ?_⟩
    intro n hn
    rcases mem_cons.mp hn with rfl | hn
    · exact of_decide_eq_true hres.1
    have hih := ih (p := ⟨p.name, p.children + 1, _⟩) hname (Nat.succ_pos _) hrest
    rcases hih with rfl | ⟨-, hall⟩
    · cases hn
    · exact hall n hn

/-- What scanning the nodes `xs` inside the open element `p` has established when
it leaves the record `p'`. Only containers are looked at. -/
def Scanned (p p' : Container) (xs : List Xml) : Prop :=
  (isContainer p.name = false → p' = p) ∧
    (isContainer p.name = true →
      p.admitAll (Xml.names xs) = .ok p' ∧ SupportedAll xs ∧ ∀ c ∈ decodeChildren xs, c.Valid)

lemma Scanned.nil (p : Container) : Scanned p p [] :=
  ⟨fun _ => rfl, fun _ => ⟨rfl, trivial, nofun⟩⟩

/-- Nodes other than elements leave no trace. -/
lemma Scanned.skip (hname : x.name? = none) (h : Scanned p p' xs) : Scanned p p' (x :: xs) := by
  cases x with
  | element => cases hname
  | text | directive | other =>
    exact ⟨h.1, fun hp => ⟨(h.2 hp).1, ⟨trivial, (h.2 hp).2.1⟩, (h.2 hp).2.2⟩⟩

/-- The children of a container, counted, are its decoded predicates. -/
lemma length_decodeChildren
    (hadmitted : Container.admitAll ⟨name, 0, false⟩ (Xml.names xs) = .ok p')
    (hsupp : SupportedAll xs) : (decodeChildren xs).length = p'.children := by
  have hlen := congrArg length (map_kind_decodeChildren hsupp)
  rw [length_map] at hlen
  rw [hlen, (admitAll_ok hadmitted).2]
  exact (Nat.zero_add _).symm

/-- An element whose start is admitted, whose content was scanned and whose end
was accepted is a supported and valid predicate. -/
lemma valid_element (space : Str) (attrs : List (Str × Str)) (hk : Kind.ofName name = some k)
    (hscan : Scanned ⟨name, 0, false⟩ f children)
    (hend : isContainer name = true → f.children ≠ 0) :
    Supported (.element space name attrs children) ∧
      ∀ c, decodeChild (.element space name attrs children) = some c → c.Valid := by
  have hname := name_of_ofName hk
  -- Only the three connectives are containers, and each of them is one.
  have hcontainer : k = .and ∨ k = .or ∨ k = .not →
      SupportedAll children ∧ (∀ c ∈ decodeChildren children, c.Valid) ∧
        (decodeChildren children ≠ []) ∧
        (k = .not → (decodeChildren children).length ≤ 1) := by
    intro hcases
    have hc : isContainer name = true := by
      rw [← hname]
      rcases hcases with rfl | rfl | rfl <;> rfl
    obtain ⟨hadmitted, hsupp, hvalid⟩ := hscan.2 hc
    have hlen := length_decodeChildren hadmitted hsupp
    refine ⟨hsupp, hvalid, ?_, ?_⟩
    · intro hnil
      rw [hnil] at hlen
      exact hend hc hlen.symm
    · rintro rfl
      have hlen' := congrArg length (map_kind_decodeChildren hsupp)
      rw [length_map] at hlen'
      rw [hlen']
      rcases admitAll_not (p := ⟨name, 0, false⟩) hname.symm hadmitted with hle | hnil
      · simpa using hle
      · simp [hnil]
  unfold Supported decodeChild
  rw [hk]
  rcases k with _ | _ | _ | k | _
  · obtain ⟨hsupp, hvalid, hne, -⟩ := hcontainer (.inl rfl)
    refine ⟨hsupp, ?_⟩
    rintro c ⟨⟩
    exact .and hne hvalid
  · obtain ⟨hsupp, hvalid, hne, -⟩ := hcontainer (.inr (.inl rfl))
    refine ⟨hsupp, ?_⟩
    rintro c ⟨⟩
    exact .or hne hvalid
  · obtain ⟨hsupp, hvalid, hne, hone⟩ := hcontainer (.inr (.inr rfl))
    refine ⟨hsupp, ?_⟩
    rintro c ⟨⟩
    have hpos := length_pos_iff.mpr hne
    have hle := hone rfl
    obtain ⟨d, hd⟩ := length_eq_one_iff.mp (Nat.le_antisymm hle hpos)
    rw [hd]
    exact .not (hvalid d (by simp [hd]))
  · refine ⟨trivial, ?_⟩
    rintro c ⟨⟩
    exact .leaf _
  · refine ⟨trivial, ?_⟩
    rintro c ⟨⟩
    exact .resourceId _

/-- Closing the element on top of the stack. -/
lemma endElement_ok (h : Scan.endElement ⟨f :: rest, r⟩ = .ok st') :
    st' = ⟨rest, r⟩ ∧ (isContainer f.name = true → f.children ≠ 0) := by
  unfold Scan.endElement at h
  dsimp only at h
  split at h
  case isTrue => cases h
  case isFalse hend =>
    cases h
    refine ⟨rfl, ?_⟩
    intro hc hzero
    exact hend (by simp [hc, hzero])

/-- Opening an element inside another. -/
lemma startElement_ok (h : Scan.startElement ⟨p :: rest, r⟩ space name = .ok st') :
    ∃ p', st' = ⟨⟨name, 0, false⟩ :: p' :: rest, r⟩ ∧
      (isContainer p.name = false → p' = p) ∧
      (isContainer p.name = true → p.admitChild name = .ok p') := by
  unfold Scan.startElement at h
  dsimp only at h
  split at h
  case isTrue hc =>
    split at h
    case isTrue => cases h
    case isFalse =>
      cases hadmitted : p.admitChild name with
      | error =>
        rw [hadmitted] at h
        cases h
      | ok p' =>
        rw [hadmitted] at h
        cases h
        refine ⟨p', rfl, ?_, fun _ => rfl⟩
        intro hnc
        rw [hc] at hnc
        cases hnc
  case isFalse hc =>
    cases h
    exact ⟨p, rfl, fun _ => rfl, fun hc' => absurd hc' hc⟩

lemma Scanned.name_eq (h : Scanned p p' xs) : p'.name = p.name := by
  cases hc : isContainer p.name with
  | false => rw [h.1 hc]
  | true => exact (admitAll_ok (h.2 hc).1).1

/-- An element followed by more nodes. -/
lemma Scanned.cons {p q p' f} (hopen : isContainer p.name = false → q = p)
    (hadmitted : isContainer p.name = true → p.admitChild name = .ok q)
    (hin : Scanned ⟨name, 0, false⟩ f children) (hend : isContainer name = true → f.children ≠ 0)
    (hrest : Scanned q p' xs) : Scanned p p' (.element space name attrs children :: xs) := by
  constructor
  · intro hc
    obtain rfl := hopen hc
    exact hrest.1 hc
  · intro hc
    have hq := hadmitted hc
    obtain ⟨⟨k, hk⟩, -, hqeq⟩ := admitChild_ok hq
    have hcq : isContainer q.name = true := by rw [hqeq]; exact hc
    obtain ⟨hall, hsupp, hvalid⟩ := hrest.2 hcq
    obtain ⟨hsupp', hvalid'⟩ := valid_element space attrs hk hin hend
    refine ⟨?_, ⟨hsupp', hsupp⟩, ?_⟩
    · rw [Xml.names_cons_element, Container.admitAll, hq]
      exact hall
    · intro c hmem
      obtain ⟨d, hd, -⟩ := decodeChild_kind space attrs children hk
      rw [decodeChildren, hd] at hmem
      rcases mem_cons.mp hmem with rfl | hmem
      · exact hvalid' c hd
      · exact hvalid c hmem

/-- Scanning the nodes `xs` inside an open element returns to that element. -/
def ReadsBack (xs : List Xml) : Prop :=
  ∀ ⦃p : Container⦄ ⦃rest : List Container⦄ ⦃r : Nat⦄ ⦃st' : Scan⦄,
    scan ⟨p :: rest, r⟩ (Xml.tokensAll xs) = .ok st' →
      ∃ p', st' = ⟨p' :: rest, r⟩ ∧ Scanned p p' xs

/-- Scanning one element inside another. -/
lemma scan_element (hchildren : ReadsBack children)
    (h : scan ⟨p :: rest, r⟩ (Xml.element space name attrs children).tokens = .ok st') :
    ∃ q f, st' = ⟨q :: rest, r⟩ ∧ (isContainer p.name = false → q = p) ∧
      (isContainer p.name = true → p.admitChild name = .ok q) ∧
      Scanned ⟨name, 0, false⟩ f children ∧ (isContainer name = true → f.children ≠ 0) := by
  rw [Xml.tokens, scan_cons, bind_ok_iff] at h
  obtain ⟨st₁, hstart, h⟩ := h
  obtain ⟨q, rfl, hopen, hadmitted⟩ := startElement_ok hstart
  rw [scan_append, bind_ok_iff] at h
  obtain ⟨st₂, hin, h⟩ := h
  obtain ⟨f, rfl, hscan⟩ := hchildren hin
  rw [scan_cons, bind_ok_iff] at h
  obtain ⟨st₃, hend, h⟩ := h
  obtain ⟨rfl, hne⟩ := endElement_ok hend
  cases h
  rw [hscan.name_eq] at hne
  exact ⟨q, f, rfl, hopen, hadmitted, hscan, hne⟩

/-- The children of an element. -/
def inside : Xml → List Xml
  | .element _ _ _ children => children
  | _ => []

lemma ReadsBack.cons (hx : ReadsBack (inside x)) (hxs : ReadsBack xs) : ReadsBack (x :: xs) := by
  intro p rest r st' h
  cases x with
  | element =>
    rw [Xml.tokensAll, scan_append, bind_ok_iff] at h
    obtain ⟨st₁, helem, htail⟩ := h
    obtain ⟨q, f, rfl, hopen, hadmitted, hin, hend⟩ := scan_element hx helem
    obtain ⟨p', rfl, hrest⟩ := hxs htail
    exact ⟨p', rfl, .cons hopen hadmitted hin hend hrest⟩
  | text | other =>
    obtain ⟨p', hp', hrest⟩ := hxs h
    exact ⟨p', hp', .skip rfl hrest⟩
  | directive => cases h

lemma readsBack_nil : ReadsBack [] := by
  rintro p rest r st' ⟨⟩
  exact ⟨p, rfl, .nil p⟩

mutual

theorem readsBack_inside : ∀ x : Xml, ReadsBack (inside x)
  | .element _ _ _ children => readsBack children
  | .text _ => readsBack_nil
  | .directive => readsBack_nil
  | .other => readsBack_nil

theorem readsBack : ∀ xs : List Xml, ReadsBack xs
  | [] => readsBack_nil
  | x :: xs => .cons (readsBack_inside x) (readsBack xs)

end

/-- The root of an accepted document. -/
lemma scan_document {doc : List Xml}
    (h : scan ⟨[], 0⟩ (Xml.tokensAll doc) = .ok st') (hroots : st'.roots = 1) :
    ∃ children f, rootElement doc = some ("Filter".toList, children) ∧
      Scanned ⟨"Filter", 0, false⟩ f children ∧ f.children ≠ 0 := by
  induction doc with
  | nil =>
    cases h
    cases hroots
  | cons x xs ih =>
    cases x with
    | text | other => exact ih h
    | directive => cases h
    | element space name attrs children =>
      rw [Xml.tokensAll, scan_append, bind_ok_iff] at h
      obtain ⟨st₁, hx, -⟩ := h
      rw [Xml.tokens, scan_cons, bind_ok_iff] at hx
      obtain ⟨st₂, hstart, hx⟩ := hx
      have hroot : name = "Filter" ∧ st₂ = ⟨[⟨name, 0, false⟩], 1⟩ := by
        unfold Scan.step Scan.startElement at hstart
        dsimp only at hstart
        split at hstart
        case isTrue => cases hstart
        case isFalse hname =>
          split at hstart
          case isTrue => cases hstart
          case isFalse =>
            cases hstart
            exact ⟨by_contra fun hne => hname (.inr hne), rfl⟩
      obtain ⟨rfl, rfl⟩ := hroot
      rw [scan_append, bind_ok_iff] at hx
      obtain ⟨st₃, hin, hx⟩ := hx
      obtain ⟨f, rfl, hscan⟩ := readsBack children hin
      rw [scan_cons, bind_ok_iff] at hx
      obtain ⟨st₄, hend, -⟩ := hx
      obtain ⟨-, hne⟩ := endElement_ok hend
      rw [hscan.name_eq] at hne
      exact ⟨children, f, rfl, hscan, hne rfl⟩

lemma Kind.eq_resourceId (h : k.name = "ResourceId") : k = .resourceId := by
  rcases k with _ | _ | _ | (op | _ | _ | _ | _ | _ | op | _ | op) | _
  case resourceId => rfl
  all_goals first | (exact absurd h (by decide)) | (cases op <;> exact absurd h (by decide))

/-- A filter admits one child, or resource ids only. -/
lemma filterValid_of_admitAll {f : Container} {children : List Xml}
    (hadmitted : Container.admitAll ⟨"Filter", 0, false⟩ (Xml.names children) = .ok f)
    (hsupp : SupportedAll children) (hvalid : ∀ c ∈ decodeChildren children, c.Valid)
    (hne : f.children ≠ 0) : FilterValid (decodeChildren children) := by
  have hkinds := map_kind_decodeChildren hsupp
  have hlen := length_decodeChildren hadmitted hsupp
  cases hdec : decodeChildren children with
  | nil =>
    rw [hdec] at hlen
    exact absurd hlen.symm hne
  | cons c =>
    rw [hdec] at hkinds hvalid
    rw [← hkinds] at hadmitted
    obtain ⟨q, hq, hrest⟩ := bind_ok_iff.mp hadmitted
    obtain ⟨-, -, rfl⟩ := admitChild_ok hq
    have hfilter := admitAll_filter (p := ⟨"Filter", 0 + 1, _⟩) rfl (Nat.succ_pos _) hrest
    rcases hfilter with hnil | ⟨hres, hall⟩
    · rw [map_eq_nil_iff] at hnil
      subst hnil
      exact .single (hvalid c (mem_singleton.mpr rfl))
    · refine .resourceIds (cons_ne_nil _ _) ?_
      intro d hd
      rcases mem_cons.mp hd with rfl | hd
      · exact Kind.eq_resourceId (of_decide_eq_true hres)
      · exact Kind.eq_resourceId (hall _ (mem_map_of_mem hd))

/-- Decoding an accepted document: every element that stands for a predicate is
decoded, and the result is a valid filter. -/
theorem parseFESFilter_valid {doc} {filter} (h : parseFESFilter doc = .ok filter) :
    ∃ children, rootElement doc = some ("Filter".toList, children) ∧ SupportedAll children ∧
      filter = decodeChildren children ∧ FilterValid filter := by
  unfold parseFESFilter validateFilterStructure at h
  cases hscan : scan ⟨[], 0⟩ (Xml.tokensAll doc) with
  | error =>
    rw [hscan] at h
    cases h
  | ok st =>
    rw [hscan] at h
    dsimp only at h
    by_cases hroots : st.roots = 1
    · obtain ⟨children, f, hroot, hin, hne⟩ := scan_document hscan hroots
      rw [if_neg (not_not_intro hroots), hroot] at h
      cases h
      obtain ⟨hadmitted, hsupp, hvalid⟩ := hin.2 rfl
      refine ⟨children, hroot, hsupp, rfl, ?_⟩
      exact filterValid_of_admitAll hadmitted hsupp hvalid hne
    · rw [if_pos hroots] at h
      cases h

end NeoServer.Wfs.Fes
