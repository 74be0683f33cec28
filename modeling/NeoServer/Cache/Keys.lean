import Mathlib.Data.List.Basic
import NeoServer.Text

/-!
# Cache.Keys — the keys of the in-memory cache

Every cache type has keys of its own. The scope of a key is what invalidation goes by: for the
keys of `scopedKey` it is the workspace, written in base 64 so that it may hold any text; for the
older keys it is what stands after the first colon. Loads that are under way are found by a key
that also names the epoch of the fill token.

- `cacheScope`, `scopedKey`, `coalescingKey` : as in the source,
- `cacheScope_scopedKey` : the scope of a key is its workspace,
- `epoch_of_coalescingKey` : loads with one coalescing key have tokens of one epoch.
-/

namespace NeoServer.Cache

inductive CacheType
  | capabilities | collections | features | tiles | counts
deriving DecidableEq, Repr

def CacheType.name : CacheType → Str
  | .capabilities => "capabilities"
  | .collections => "collections"
  | .features => "features"
  | .tiles => "tiles"
  | .counts => "counts"

/-- `base64.RawURLEncoding` and SHA-256, of which only this is used. -/
structure Codec where
  encode : Str → Str
  decode : Str → Option Str
  decode_encode : ∀ s, decode (encode s) = some s
  encode_noColon : ∀ s, ':' ∉ encode s
  -- the hash of the fields, each after its length, in hexadecimal
  digest : List Str → Str

/-- A codec that writes two characters for one. -/
def pairDecode : Str → Option Str
  | [] => some []
  | [_] => none
  | a :: b :: rest => (pairDecode rest).map fun s => (if a = 'c' then ':' else b) :: s

def pairCodec : Codec where
  encode s := s.flatMap fun c => if c = ':' then ['c', 'c'] else ['p', c]
  decode := pairDecode
  decode_encode := by
    intro s
    induction s with
    | nil => rfl
    | cons c s ih =>
      by_cases hc : c = ':' <;> simp [hc, pairDecode, ih]
  encode_noColon := by
    intro s hmem
    rcases List.mem_flatMap.mp hmem with ⟨c, _, hc⟩
    split at hc
    · exact absurd hc (by decide)
    rename_i hne
    rcases List.mem_cons.mp hc with hp | hc
    · exact absurd hp (by decide)
    · exact hne (List.mem_singleton.mp hc).symm
  digest _ := []

variable (codec : Codec)

/-- The first part of the older keys. -/
def keyPrefixes : List Str :=
  ["capabilities", "collections", "collection", "features",
    "feature", "tiles", "wfs-features", "counts", "mvt",
    "maptile"]

def cacheScope (key : Str) : Str :=
  match splitChar ':' key with
  | [] => []
  | [part] => part
  | first :: second :: rest =>
    if first = "v2" ∧ 2 ≤ rest.length then (codec.decode second).getD []
    else if first ∈ keyPrefixes then second
    else first

def scopedKey (kind workspace : Str) (fields : List Str) : Str :=
  "v2:" ++ codec.encode workspace ++ ":" ++ kind ++ ":" ++ codec.digest fields

/-- Some handlers put more after the key. -/
theorem cacheScope_scopedKey (kind workspace : Str) (fields : List Str) (more : Str) :
    cacheScope codec (scopedKey codec kind workspace fields ++ more) = workspace := by
  have hsplit : splitChar ':' (scopedKey codec kind workspace fields ++ more) =
      "v2".toList :: codec.encode workspace ::
        (splitChar ':' kind ++ splitChar ':' (codec.digest fields ++ more)) := by
    have hkey : scopedKey codec kind workspace fields ++ more =
        "v2" ++ ':' :: (codec.encode workspace ++ ':' ::
          (kind ++ ':' :: (codec.digest fields ++ more))) := by
      simp [scopedKey]
    rw [hkey, splitChar_append_cons, splitChar_append_cons, splitChar_append_cons,
      splitChar_of_not_mem (codec.encode_noColon workspace), splitChar_of_not_mem (by decide)]
    rfl
  have hlen : 2 ≤ (splitChar ':' kind ++ splitChar ':' (codec.digest fields ++ more)).length := by
    have hkind := List.length_pos_of_ne_nil (splitChar_ne_nil ':' kind)
    have hmore := List.length_pos_of_ne_nil (splitChar_ne_nil ':' (codec.digest fields ++ more))
    rw [List.length_append]
    omega
  unfold cacheScope
  rw [hsplit]
  simp only [hlen, and_self, if_true, codec.decode_encode, Option.getD_some]

/-- `FillToken.CoalescingKey` of the key that the loads use. -/
def coalescingKey (kind : CacheType) (key : Str) (epoch : Nat) : Str :=
  kind.name ++ ":" ++ key ++ ":epoch=" ++ natDecimal epoch

/-- The epoch stands after the last equals sign. -/
theorem epoch_of_coalescingKey {kind kind'} {key key' : Str} {epoch epoch' : Nat}
    (h : coalescingKey kind key epoch = coalescingKey kind' key' epoch') : epoch = epoch' := by
  have hdigits : ∀ n, '=' ∉ natDecimal n := by
    intro n hmem
    exact absurd (isDigit_of_mem_natDecimal hmem) (by decide)
  have hshape : ∀ (kind : CacheType) (key : Str) (epoch : Nat), coalescingKey kind key epoch =
      (kind.name ++ ":" ++ key ++ ":epoch") ++ '=' :: natDecimal epoch := by
    intro kind key epoch
    simp [coalescingKey]
  have hsplit := congrArg (splitChar '=') h
  rw [hshape, hshape, splitChar_append_cons, splitChar_append_cons,
    splitChar_of_not_mem (hdigits epoch), splitChar_of_not_mem (hdigits epoch')] at hsplit
  have hlast := (List.append_inj' hsplit rfl).2
  exact natDecimal_injective (List.singleton_inj.mp hlast)

end NeoServer.Cache
