import NeoServer.Text

/-!
# Xml — documents as `encoding/xml` reads them

* `Xml` — nodes of a document, names resolved to namespace and local part.
* `Xml.tokens` — the stream `Decoder.Token` returns for a node.
* `Content` — how `Unmarshal` fills a struct from an element: a string field
  takes the text of its last occurrence, a nested struct collects all of them.
-/

namespace NeoServer

/-- A node of a document. Attributes are given by local name and value. -/
inductive Xml
  | element (space name : Str) (attrs : List (Str × Str)) (children : List Xml)
  | text (s : Str)
  | directive
  /-- A comment or a processing instruction. -/
  | other

/-- The characters a document may contain (`isInCharacterRange`); the decoder refuses
every other one. -/
def isInCharacterRange (c : Char) : Bool :=
  let n := c.toNat
  n == 0x09 || n == 0x0a || n == 0x0d || (0x20 ≤ n && n ≤ 0xd7ff) ||
    (0xe000 ≤ n && n ≤ 0xfffd) || (0x10000 ≤ n && n ≤ 0x10ffff)

/-- Tokens of the decoder. -/
inductive XmlToken
  | startElement (space name : Str)
  | endElement
  | charData
  | directive
  | other
deriving DecidableEq, Repr

namespace Xml

mutual

/-- The tokens of a node. -/
def tokens : Xml → List XmlToken
  | .element space name _ children =>
    .startElement space name :: (tokensAll children ++ [.endElement])
  | .text _ => [.charData]
  | .directive => [.directive]
  | .other => [.other]

/-- The tokens of a sequence of nodes. -/
def tokensAll : List Xml → List XmlToken
  | [] => []
  | x :: xs => x.tokens ++ tokensAll xs

end

/-- The local name of an element. -/
def name? : Xml → Option Str
  | .element _ name _ _ => some name
  | _ => none

/-- The local names of the elements among some nodes. -/
def names (xs : List Xml) : List Str := xs.filterMap name?

@[simp] lemma names_cons_element (space name : Str) (attrs : List (Str × Str))
    (children xs : List Xml) :
    names (.element space name attrs children :: xs) = name :: names xs := rfl

/-- The character data directly inside an element. -/
def chardata (xs : List Xml) : Str :=
  xs.flatMap fun
    | .text s => s
    | _ => []

end Xml

/-- What a struct is filled from: the attributes and children of its element, or
of all its elements if it occurs several times. -/
structure Content where
  attrs : List (Str × Str)
  children : List Xml

namespace Content

/-- A string field with an `attr` tag. -/
def attr (e : Content) (name : Str) : Str :=
  match e.attrs.reverse.find? (fun a => a.1 = name) with
  | some a => a.2
  | none => []

/-- The children with a local name, in document order. -/
def named (e : Content) (name : Str) : List Content :=
  e.children.filterMap fun
    | .element _ n attrs children => if n = name then some ⟨attrs, children⟩ else none
    | _ => none

/-- A string field: each occurrence overwrites the one before. -/
def text (e : Content) (name : Str) : Str :=
  match (e.named name).getLast? with
  | some c => Xml.chardata c.children
  | none => []

/-- A field that points to a struct: the first occurrence allocates it, later ones
are read into it. -/
def pointer (e : Content) (name : Str) : Option Content :=
  match e.named name with
  | [] => none
  | es => some ⟨es.flatMap attrs, es.flatMap children⟩

/-- A field that is a struct. -/
def struct (e : Content) (name : Str) : Content := (e.pointer name).getD ⟨[], []⟩

end Content

end NeoServer
