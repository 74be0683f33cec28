import NeoServer.Filter.Grammar

/-!
# Filter.Relate — two instances of the compiler, production by production

`Related` says that two emitters keep a relation at every production, for the
names, operators and literals a derivation can supply there. The induction over
the grammar is done once (`BoolG.related`); what a dialect's text means, what
characters it is made of and how it compares with the other dialect's text are
instances, each a list of one fact per production.
-/

namespace NeoServer.Filter

open NeoServer.Sql (CmpOp ArithOp)

/-! ## The operators of the tokens -/

/-- The comparison operator a token's text stands for. -/
def cmpOfRaw (raw : Str) : CmpOp :=
  if raw = "=" then .eq
  else if raw = "<>" then .neq
  else if raw = "<" then .lt
  else if raw = ">" then .gt
  else if raw = "<=" then .le
  else .ge

/-- The arithmetic operator a token's text stands for. -/
def arithOfRaw (raw : Str) : ArithOp :=
  if raw = "+" then .add
  else if raw = "-" then .sub
  else if raw = "*" then .mul
  else .div

variable {typ : TokenType} {raw : Str}

lemma cmpOfRaw_text (h : IsCmp typ) (hadm : typ.Admits raw) : raw = (cmpOfRaw raw).text := by
  simp only [IsCmp, List.mem_cons, List.not_mem_nil, or_false] at h
  rcases h with rfl | rfl | rfl | rfl | rfl | rfl <;>
    · have hraw : raw = _ := hadm
      rw [hraw]
      rfl

lemma arithOfRaw_text {p : Nat} (h : scalarPrec typ = some p)
    (hadm : typ.Admits raw) : raw = (arithOfRaw raw).text := by
  cases typ <;> simp [scalarPrec] at h <;>
    · have hraw : raw = _ := hadm
      rw [hraw]
      rfl

@[simp] lemma arithOfRaw_arithOp (op : ArithOp) : arithOfRaw op.text = op := by
  cases op <;> rfl

@[simp] lemma cmpOfRaw_cmpOp (op : CmpOp) : cmpOfRaw op.text = op := by
  cases op <;> rfl

/-! ## Related emitters -/

/-- The text of a boolean literal. -/
def IsBool (v : Str) : Prop := v = "true" ∨ v = "false"

/-- The text of a temporal literal. -/
def IsTemporal (val : Str) : Prop := TokenType.temporal.Admits val

section Related

variable {F S G B A S' G' B' A' : Type} (opt : Options)

/-- Two emitters keep the relations `RS`, `RG` and `RB` between their scalar,
geometry and boolean results. -/
structure Related (E : Emitter F S G B A) (E' : Emitter F S' G' B' A') (RS : S → S' → Prop)
    (RG : G → G' → Prop) (RB : B → B' → Prop) : Prop where
  ident : ∀ {name}, name ∈ opt.allowedProperties → RS (E.ident name) (E'.ident name)
  lit : ∀ n l, RS (E.lit n l) (E'.lit n l)
  bool : ∀ {v}, IsBool v → RS (E.bool v) (E'.bool v)
  now : RS E.now E'.now
  temporal : ∀ n {val}, IsTemporal val → RS (E.temporal n val) (E'.temporal n val)
  arith : ∀ (op : ArithOp) {a a' b b'}, RS a a' → RS b b' →
    RS (E.arith a op.text b) (E'.arith a' op.text b')
  scalarParen : ∀ {a a'}, RS a a' → RS (E.scalarParen a) (E'.scalarParen a')
  geomProp : RG (E.geomProp opt.geometryProperty) (E'.geomProp opt.geometryProperty)
  geomLit : ∀ n wkt, RG (E.geomLit n wkt) (E'.geomLit n wkt)
  spatial : ∀ {op} {g₁ g₂ g₁' g₂'}, op ∈ spatialOps → RG g₁ g₁' → RG g₂ g₂' →
    RB (E.spatial (toLower op) g₁ g₂) (E'.spatial (toLower op) g₁' g₂')
  dwithin : ∀ {g₁ g₂ g₁' g₂'} n dist, RG g₁ g₁' → RG g₂ g₂' →
    RB (E.dwithin g₁ g₂ n dist) (E'.dwithin g₁' g₂' n dist)
  like : ∀ neg ci {prop} n pattern, prop ∈ opt.allowedProperties →
    RB (E.like neg ci prop n pattern) (E'.like neg ci prop n pattern)
  isNull : ∀ neg {prop}, prop ∈ opt.allowedProperties → RB (E.isNull neg prop) (E'.isNull neg prop)
  inList : ∀ neg {prop} {items}, prop ∈ opt.allowedProperties → items ≠ [] →
    RB (E.inList neg prop items) (E'.inList neg prop items)
  between : ∀ neg {x lo hi x' lo' hi'}, RS x x' → RS lo lo' → RS hi hi' →
    RB (E.between neg x lo hi) (E'.between neg x' lo' hi')
  compare : ∀ (op : CmpOp) {x y x' y'}, RS x x' → RS y y' →
    RB (E.compare x op.text y) (E'.compare x' op.text y')
  or : ∀ {a b a' b'}, RB a a' → RB b b' → RB (E.or a b) (E'.or a' b')
  and : ∀ {a b a' b'}, RB a a' → RB b b' → RB (E.and a b) (E'.and a' b')
  not : ∀ {a a'}, RB a a' → RB (E.not a) (E'.not a')
  paren : ∀ {a a'}, RB a a' → RB (E.paren a) (E'.paren a')

variable {fl : FloatOps F} {opt} {E : Emitter F S G B A} {E' : Emitter F S' G' B' A'}
  {RS : S → S' → Prop} {RG : G → G' → Prop} {RB : B → B' → Prop}

variable {ts : List Token}

variable {p : Nat} {a : Pred F}

lemma ScalarG.related (R : Related opt E E' RS RG RB) {x}
    (h : ScalarG fl opt p ts x) (hwf : ∀ t ∈ ts, t.WF) : RS (x.emit E) (x.emit E') := by
  induction h with
  | ident _ hmem => exact R.ident hmem
  | str n _ | num n _ _ => exact R.lit n _
  | bool ht =>
    rename_i t
    have hadm : t.typ.Admits t.raw := hwf t (by simp)
    rw [ht] at hadm
    have hbool : IsBool (toLower t.raw) := by
      rcases hadm with h | h <;> rw [h]
      · exact .inl rfl
      · exact .inr rfl
    exact R.bool hbool
  | now => exact R.now
  | temporal n ht =>
    rename_i t
    have hadm : t.typ.Admits t.raw := hwf t (by simp)
    rw [ht] at hadm
    exact R.temporal n hadm
  | paren _ _ _ ih => exact R.scalarParen (ih (by grind))
  | arith hx hop hy ihx ihy =>
    rename_i p op ts us x y
    have hop' := arithOfRaw_text hop (hwf op (by simp))
    have h := R.arith (arithOfRaw op.raw) (ihx (by grind)) (ihy (by grind))
    rwa [← hop'] at h
  | mono _ _ ih => exact ih hwf

lemma GeomG.related (R : Related opt E E' RS RG RB) {g : Geom}
    (h : GeomG fl opt ts g) : RG (g.emit E) (g.emit E') := by
  cases h with
  | prop _ hname =>
    rw [hname]
    exact R.geomProp
  | envelope n _ _ _ | literal n _ _ => exact R.geomLit n _

lemma ItemsG.ne_nil {items} (h : ItemsG fl ts items) : items ≠ [] := by
  cases h <;> simp

lemma PredG.related (R : Related opt E E' RS RG RB)
    (h : PredG fl opt ts a) (hwf : ∀ t ∈ ts, t.WF) : RB (a.emit E) (a.emit E') := by
  cases h with
  | spatial hop hlp hg₁ hc hg₂ hrp =>
    rename_i op lp c rp ts us g₁ g₂
    have hadm : op.typ.Admits op.raw := hwf op (by simp)
    rw [hop] at hadm
    exact R.spatial hadm (hg₁.related R) (hg₂.related R)
  | dwithin n hop hlp hg₁ hc₁ hg₂ =>
    exact R.dwithin n _ (hg₁.related R) (hg₂.related R)
  | like n _ hmem _ _ _ => exact R.like _ _ n _ hmem
  | isNull _ hmem _ _ _ => exact R.isNull _ hmem
  | inList _ hmem _ _ _ hitems _ => exact R.inList _ hmem hitems.ne_nil
  | between hx _ _ hlo _ hhi =>
    exact R.between _ (hx.related R (by grind)) (hlo.related R (by grind)) (hhi.related R (by grind))
  | compare hx hop hy =>
    rename_i op ts us x y
    have hop' := cmpOfRaw_text hop (hwf op (by simp))
    have h := R.compare (cmpOfRaw op.raw) (hx.related R (by grind)) (hy.related R (by grind))
    rwa [← hop'] at h

theorem BoolG.related (R : Related opt E E' RS RG RB)
    (h : BoolG fl opt p ts a) (hwf : ∀ t ∈ ts, t.WF) : RB (a.emit E) (a.emit E') := by
  induction h with
  | or _ _ _ iha ihb => exact R.or (iha (by grind)) (ihb (by grind))
  | and _ _ _ iha ihb => exact R.and (iha (by grind)) (ihb (by grind))
  | not _ _ ih => exact R.not (ih (by grind))
  | paren _ _ _ ih => exact R.paren (ih (by grind))
  | pred h => exact h.related R hwf
  | mono _ _ ih => exact ih hwf

end Related

/-! ## Compiled filters -/

section Compiled

variable {F : Type} {fl : FloatOps F} {d : Dialect} {opt : Options} {cql : Str}

/-- A filter accepted by the compiler: it is blank and has no text, or a tree of
the grammar and what is written and bound for it. -/
inductive CompiledAs (fl : FloatOps F) (d : Dialect) (opt : Options) (cql : Str) :
    Compiled F → Prop
  | blank : isBlank cql = true → CompiledAs fl d opt cql ⟨[], [], opt.start⟩
  | tree {t : Pred F} {args : List (Lit F)} {next : Nat} : isBlank cql = false →
      Accepted fl opt cql t args next →
      CompiledAs fl d opt cql ⟨t.emit d.emitter, args.map d.emitter.arg, next⟩

lemma compileWith_ok {r} (h : compileWith fl d opt cql = .ok r) : CompiledAs fl d opt cql r := by
  unfold compileWith at h
  rw [parse_emit] at h
  have hout := parse_grammar fl opt cql
  cases hp : parse fl (treeEmitter F) opt cql with
  | error =>
    rw [hp] at h
    cases h
  | ok out =>
    rw [hp] at h hout
    obtain ⟨t, args, next⟩ := out
    cases t with
    | none =>
      obtain ⟨hblank, rfl, rfl⟩ := hout
      cases h
      exact .blank hblank
    | some =>
      obtain ⟨hblank, hacc⟩ := hout
      cases h
      exact .tree hblank hacc

/-- Along an accepted filter two related emitters write related results. -/
lemma Accepted.related {S G B A S' G' B' A' : Type} {E : Emitter F S G B A}
    {E' : Emitter F S' G' B' A'} {RS : S → S' → Prop} {RG : G → G' → Prop} {RB : B → B' → Prop}
    {t : Pred F} {args : List (Lit F)} {next : Nat} (h : Accepted fl opt cql t args next)
    (R : Related opt.normalize E E' RS RG RB) : RB (t.emit E) (t.emit E') := by
  obtain ⟨ts, rest, htoks, -, hg⟩ := h.grammar
  refine hg.related R fun t ht => tokenize_wf cql t ?_
  rw [htoks]
  exact List.mem_append_left rest ht

end Compiled

/-! ## A sample filter -/

/-- Floats with one value, for filters without numbers that matter. -/
def sampleFloats : FloatOps Unit := ⟨fun _ => some (), fun _ _ => true⟩

def sampleOptions : Options := ⟨1, 0, 0, ["a", "b"], []⟩

def sampleFilter : Str := "a = 'x' OR NOT b = 'y'"

def sampleCompiled : Compiled Unit :=
  ⟨"(\"a\" = $1 OR (NOT \"b\" = $2))", [.str "x", .str "y"], 3⟩

lemma compile_sampleFilter :
    compile sampleFloats sampleFilter sampleOptions = .ok sampleCompiled := by
  rfl

lemma compileForDuckDB_sampleFilter :
    compileForDuckDB sampleFloats sampleFilter ⟨sampleOptions, []⟩ = .ok sampleCompiled := by
  rfl

end NeoServer.Filter
