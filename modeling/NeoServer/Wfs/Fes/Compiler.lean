import NeoServer.Wfs.Fes.Predicates

/-!
# Wfs.Fes.Compiler — the containers

`compile`, `compileAnd`, `compileOr` and `compileNot` go through the fields of
their container in the order of `predicateFields`, threading the next placeholder
and the arguments. The four differ in what they do with a field:

* `compileAnd`, `compileOr` compile every child of it, and leave out a nested
  connective whose SQL is empty;
* `compile` compiles the one child its pointer field can hold, and keeps its SQL
  even if it is empty;
* `compileNot` stops at the first field that is set.

All of them compile the resource ids of a container as one condition.
-/

namespace NeoServer.Wfs.Fes

open NeoServer.Filter (Arg)
open NeoServer.Sql (parens)

/-- The fields of `fesCompiler` that change. -/
structure CState (F : Type) where
  paramIdx : Nat
  args : List (Arg F)

abbrev C (F : Type) := Prog (CState F) FesError

/-- Append a predicate's arguments and write it. -/
def emit {F : Type} (fragment : Except FesError (Fragment F)) : C F Str := do
  let f ← Prog.ofExcept fragment
  let n ← Prog.gets CState.paramIdx
  Prog.modify fun st => ⟨st.paramIdx + f.args.length, st.args ++ f.args⟩
  return f.sql n

/-- A child of a container, as the container sees it: how to compile it, or the id
it names. -/
inductive Child (F : Type)
  | predicate (kind : Kind) (compile : C F Str)
  | resourceId (rid : Str)

/-- The field of a container for a kind. -/
def fieldOf {F : Type} (cs : List (Child F)) (k : Kind) : List (C F Str) :=
  cs.filterMap fun
    | .predicate kind compile => if kind = k then some compile else none
    | .resourceId _ => none

/-- The field `ResourceId` of a container. -/
def rids {F : Type} (cs : List (Child F)) : List Str :=
  cs.filterMap fun
    | .predicate _ _ => none
    | .resourceId rid => some rid

/-- Compile the members of a field one after the other, leaving out empty SQL if
`skip`. -/
def compileEach {F : Type} (skip : Bool) : List (C F Str) → C F (List Str)
  | [] => pure []
  | m :: ms => do
      let sql ← m
      let parts ← compileEach skip ms
      return if skip && sql = [] then parts else sql :: parts

/-- Run the compilations of the fields and put their parts together. -/
def collect {F : Type} : List (C F (List Str)) → C F (List Str)
  | [] => pure []
  | m :: ms => do
      let parts ← m
      let rest ← collect ms
      return parts ++ rest

namespace Compiler

section Containers

variable {F : Type} (rt : Runtime F) (c : Compiler) (cs : List (Child F))

/-- The condition on the resource ids of a container, if it has any. -/
def ridParts : C F (List Str) :=
  if rids cs = [] then pure []
  else do
    let sql ← emit (c.compileResourceIds rt (rids cs))
    return [sql]

/-- The parts of one field of a conjunction or a disjunction. -/
def fieldParts (k : Kind) : C F (List Str) :=
  match k with
  | .resourceId => c.ridParts rt cs
  | .and | .or | .not => compileEach true (fieldOf cs k)
  | .leaf _ => compileEach false (fieldOf cs k)

/-- `"(" + strings.Join(parts, sep) + ")"`, or nothing. -/
def joinParts (sep : Str) (parts : List Str) : Str :=
  if parts = [] then [] else parens (join sep parts)

def compileAnd : C F Str := do
  let parts ← collect (predicateFields.map (c.fieldParts rt cs))
  return joinParts " AND " parts

def compileOr : C F Str := do
  let parts ← collect (predicateFields.map (c.fieldParts rt cs))
  return joinParts " OR " parts

/-- The operand of a negation: the first field that is set. -/
def notOperand (cs : List (Child F)) : List Kind → C F Str
  | [] => pure []
  | .resourceId :: ks =>
    if rids cs = [] then notOperand cs ks else emit (c.compileResourceIds rt (rids cs))
  | k :: ks =>
    match fieldOf cs k with
    | [] => notOperand cs ks
    | m :: _ => m

def compileNot : C F Str := do
  let sql ← c.notOperand rt cs predicateFields
  return if sql = [] then [] else "NOT ".toList ++ sql

/-- The conditions of one field of the filter itself. -/
def filterParts (k : Kind) : C F (List Str) :=
  match k with
  | .resourceId => c.ridParts rt cs
  | k => compileEach false ((fieldOf cs k).take 1)

mutual

/-- A predicate, in any container. -/
def compilePredicate : Predicate → C F Str
  | .and cs => c.compileAnd rt (compileChildren cs)
  | .or cs => c.compileOr rt (compileChildren cs)
  | .not cs => c.compileNot rt (compileChildren cs)
  | .leaf l => emit (c.compileLeaf rt l)
  | .resourceId rid => emit (c.compileResourceIds rt [rid])

/-- The children of a container. -/
def compileChildren : List Predicate → List (Child F)
  | [] => []
  | .resourceId rid :: cs => .resourceId rid :: compileChildren cs
  | p :: cs => .predicate p.kind (compilePredicate p) :: compileChildren cs

end

/-- `compile`, on the filter itself. -/
def compile (filter : FESFilter) : C F Str := do
  let conditions ← collect (predicateFields.map (c.filterParts rt (c.compileChildren rt filter)))
  return joinParts " AND " conditions

end Containers

end Compiler

structure FESCompileOptions where
  dialect : SQLDialect
  tableAlias : Str
  geometryExpression : Str
  startParamIndex : Int
  sourceSRID : Int
  geometryProperty : Str
  allowedProperties : Option (List Str)
  collectionID : Str
  idColumn : Str

/-- The first placeholder index. -/
def FESCompileOptions.start (opts : FESCompileOptions) : Nat :=
  if opts.startParamIndex ≤ 0 then 1 else opts.startParamIndex.toNat

/-- The compiler `CompileFES` sets up. -/
def FESCompileOptions.compiler (opts : FESCompileOptions) : Compiler where
  dialect := opts.dialect
  tableAlias := if opts.tableAlias = [] then "t".toList else opts.tableAlias
  geometryExpression := opts.geometryExpression
  sourceSRID := if opts.sourceSRID = 0 then 4326 else opts.sourceSRID
  geomProp := opts.geometryProperty
  allowedProperties := opts.allowedProperties
  collectionID := opts.collectionID
  idColumn := if opts.idColumn = [] then "id".toList else opts.idColumn

/-- What `CompileFES` returns. -/
structure CompiledFES (F : Type) where
  sql : Str
  args : List (Arg F)
  paramIdx : Nat

def compileFES {F : Type} (rt : Runtime F) (filter : FESFilter) (opts : FESCompileOptions) :
    Except FesError (CompiledFES F) :=
  (opts.compiler.compile rt filter ⟨opts.start, []⟩).map fun r => ⟨r.1, r.2.args, r.2.paramIdx⟩

end NeoServer.Wfs.Fes
