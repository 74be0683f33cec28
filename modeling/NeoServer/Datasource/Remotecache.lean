import NeoServer.Machine
import NeoServer.Tally
import NeoServer.Text

/-!
# Datasource.Remotecache — the cache of remote downloads

A download is kept under the digest of its URL, with the extension of the URL's path. Its
validators stand beside it, in a file whose name has `.json` at the end. A lease counts as a pin
from before the fetch until its release. After a fetch the quota pass lists the directory and,
under the lock of the pins, removes downloads that no pin holds.

- `evicted` : what a quota pass removes,
- `within_iff` : the directories that every quota pass leaves within the limit or leased,
- `leaseSafe_of_reachable` : in runs without downloads named `.json`, a leased file stays, the
  pins are the leases, and a download without leases can be removed.
-/

namespace NeoServer.Remotecache

open List Tally Function

/-! ## The quota pass -/

/-- What a file of the cache directory was written as. A fetch writes regular files. -/
inductive Role
  | download
  | metadata
  | other (isRegular : Bool)
deriving DecidableEq

/-- A file of the cache directory. Its name stands for its path. -/
structure Entry where
  name : Str
  role : Role
  size : Nat
  modTime : Int
deriving DecidableEq

namespace Entry

def isRegular (e : Entry) : Bool :=
  match e.role with
  | .other isRegular => isRegular
  | _ => true

/-- Whether the file is a download or the metadata of one. -/
def cached (e : Entry) : Bool := e.role = .download ∨ e.role = .metadata

def bytes (e : Entry) : Int := e.size

lemma bytes_nonneg (e : Entry) : 0 ≤ e.bytes := Int.natCast_nonneg e.size

end Entry

structure Options where
  RemoteCacheMaxBytes : Int
  RemoteCacheMaxAge : Int

/-- The names that the quota pass takes for hidden files and metadata. -/
def skips (name : Str) : Bool := ['.'].isPrefixOf name || (".json" : Str).isSuffixOf name

def Entry.counted (e : Entry) : Bool := e.isRegular && !skips e.name

open Entry

/-- The unpinned downloads, the least recently used first. -/
def candidates (pins : Str → Nat) (entries : List Entry) : List Entry :=
  (entries.filter fun e => e.counted && pins e.name == 0).insertionSort fun a b =>
    a.modTime ≤ b.modTime

/-- The loop over the candidates: those that are removed. -/
def evict (opts : Options) (now : Int) : Int → List Entry → List Entry
  | _, [] => []
  | total, c :: cs =>
    if 0 < opts.RemoteCacheMaxAge ∧ opts.RemoteCacheMaxAge < now - c.modTime ∨
        0 < opts.RemoteCacheMaxBytes ∧ opts.RemoteCacheMaxBytes < total then
      c :: evict opts now (total - c.size) cs
    else evict opts now total cs

/-- `enforceRemoteCacheQuota`: the paths that it hands to `removeDownload`. The order of `entries`
is any, so that files of one time are taken in any order. -/
def evicted (opts : Options) (now : Int) (pins : Str → Nat) (entries : List Entry) : List Str :=
  if opts.RemoteCacheMaxBytes ≤ 0 ∧ opts.RemoteCacheMaxAge ≤ 0 then []
  else
    (evict opts now (total bytes (entries.filter counted))
      (candidates pins entries)).map name

/-- Whether `removeDownload` of one of the paths removes a file. -/
def removed (paths : List Str) (name : Str) : Bool :=
  paths.any fun path => name = path ∨ name = path ++ (".json" : Str)

/-- The directory after the pass. -/
def enforceRemoteCacheQuota (opts : Options) (now : Int) (pins : Str → Nat) (entries : List Entry) :
    List Entry :=
  entries.filter fun e => !removed (evicted opts now pins entries) e.name

variable {pins : Str → Nat} {opts : Options}

section Evict

variable {now n : Int} {cs entries : List Entry} {e : Entry}

lemma mem_candidates :
    e ∈ candidates pins entries ↔ e ∈ entries ∧ e.counted ∧ pins e.name = 0 := by
  simp [candidates, mem_insertionSort]

lemma evict_sublist : evict opts now n cs <+ cs := by
  induction cs generalizing n with
  | nil => exact .refl _
  | cons c cs ih =>
    unfold evict
    split
    · exact ih.cons_cons c
    · exact ih.cons c

/-- A pass takes every candidate, or the rest is within the limit. -/
lemma evict_enough (hmax : 0 < opts.RemoteCacheMaxBytes) : evict opts now n cs = cs ∨
    n - total bytes (evict opts now n cs) ≤ opts.RemoteCacheMaxBytes := by
  induction cs generalizing n with
  | nil => exact Or.inl rfl
  | cons c cs ih =>
    unfold evict
    split
    · rcases ih (n := n - c.size) with hall | hrest
      · exact Or.inl (by rw [hall])
      refine Or.inr ?_
      rw [total_cons]
      have hsize : c.bytes = c.size := rfl
      omega
    · rename_i hkeep
      -- the total is within the limit already, and only falls
      have hnonneg : 0 ≤ total bytes (evict opts now n cs) :=
        total_nonneg fun r _ => bytes_nonneg r
      exact Or.inr (by omega)

lemma evict_eq_nil (hage : opts.RemoteCacheMaxAge ≤ 0) (hn : n ≤ opts.RemoteCacheMaxBytes) :
    evict opts now n cs = [] := by
  induction cs with
  | nil => rfl
  | cons c cs ih =>
    unfold evict
    rw [if_neg (by omega), ih]

lemma pins_of_mem_evicted {path : Str} (h : path ∈ evicted opts now pins entries) :
    pins path = 0 := by
  unfold evicted at h
  split at h
  · exact absurd h not_mem_nil
  · obtain ⟨e, he, rfl⟩ := mem_map.mp h
    exact (mem_candidates.mp (evict_sublist.subset he)).2.2

/-- What is left of the counted files is what the loop reckons with. -/
lemma total_kept_le : total bytes (entries.filter fun e => e.counted &&
      !removed ((evict opts now n (candidates pins entries)).map name) e.name) ≤
    total bytes (entries.filter counted) -
      total bytes (evict opts now n (candidates pins entries)) := by
  set ev := evict opts now n (candidates pins entries) with hev
  have hsub : ev <+~ entries.filter fun e => e.counted && removed (ev.map name) e.name := by
    have hcands : ev <+~ entries.filter fun e => e.counted && pins e.name == 0 :=
      evict_sublist.subperm.trans (perm_insertionSort _ _).subperm
    have hself : ev.filter (fun e => removed (ev.map name) e.name) = ev := by
      refine filter_eq_self.mpr fun e he => ?_
      exact any_eq_true.mpr ⟨e.name, mem_map_of_mem he, by simp⟩
    have hfilter := hcands.filter fun e => removed (ev.map name) e.name
    rw [hself, filter_filter] at hfilter
    refine hfilter.trans (Sublist.subperm (monotone_filter_right _ ?_))
    intro e he
    simp only [Bool.and_eq_true] at he ⊢
    exact ⟨he.2.1, he.1⟩
  have hsplit := total_filter_add_filter bytes (entries.filter counted)
    fun e => removed (ev.map name) e.name
  have hle := total_le_of_subperm hsub fun r _ => bytes_nonneg r
  simp only [filter_filter, Bool.and_comm] at hsplit hle ⊢
  omega

end Evict

/-! ## The limit -/

/-- What a quota pass is for: downloads and metadata are within the limit, or every download that
remains is leased. -/
def Within (opts : Options) (now : Int) (pins : Str → Nat) (entries : List Entry) : Prop :=
  total bytes ((enforceRemoteCacheQuota opts now pins entries).filter cached) ≤
      opts.RemoteCacheMaxBytes ∨
    ∀ e ∈ enforceRemoteCacheQuota opts now pins entries, e.role = .download → 0 < pins e.name

section Within

variable {now : Int} {files entries : List Entry} {e : Entry}

lemma mem_of_mem_enforce (h : e ∈ enforceRemoteCacheQuota opts now pins entries) : e ∈ entries :=
  (mem_filter.mp h).1

lemma within_of_evicted_nil (h : Within opts now pins entries)
    (hnil : evicted opts now pins entries = []) (hcached : entries.filter cached = entries) :
    total bytes entries ≤ opts.RemoteCacheMaxBytes ∨
      ∀ e ∈ entries, e.role = .download → 0 < pins e.name := by
  have hkept : enforceRemoteCacheQuota opts now pins entries = entries := by
    simp [enforceRemoteCacheQuota, hnil, removed]
  rwa [Within, hkept, hcached] at h

/-- Every download and every byte of metadata is in a file that the pass counts. -/
lemma within_of_counted (hmax : 0 < opts.RemoteCacheMaxBytes)
    (h : ∀ e ∈ entries, e.cached → skips e.name → e.role = .metadata ∧ e.size = 0) :
    Within opts now pins entries := by
  have hcounted : ∀ e ∈ entries, e.cached → e.counted ∨ e.role = .metadata ∧ e.size = 0 := by
    intro e he hcached
    by_cases hskips : skips e.name
    · exact Or.inr (h e he hcached hskips)
    · refine Or.inl ?_
      cases hrole : e.role <;> simp_all [cached, counted, isRegular]
  have hevicted : evicted opts now pins entries = (evict opts now
      (total bytes (entries.filter counted)) (candidates pins entries)).map name :=
    if_neg (by omega)
  rcases evict_enough hmax with hall | hrest
  · -- every candidate is removed
    refine Or.inr fun e he hrole => Nat.pos_of_ne_zero fun hpins => ?_
    obtain ⟨hmem, hkept⟩ := mem_filter.mp he
    have hc : e.counted := by
      rcases hcounted e hmem (by simp [cached, hrole]) with hc | hc
      · exact hc
      · simp [hrole] at hc
    have hcand : e ∈ candidates pins entries := mem_candidates.mpr ⟨hmem, hc, hpins⟩
    rw [hevicted, hall] at hkept
    have hgone : removed ((candidates pins entries).map name) e.name :=
      any_eq_true.mpr ⟨e.name, mem_map_of_mem hcand, by simp⟩
    simp [hgone] at hkept
  · refine Or.inl (le_trans ?_ (total_kept_le.trans hrest))
    rw [enforceRemoteCacheQuota, filter_filter, hevicted]
    refine total_filter_le_filter (fun r _ => bytes_nonneg r) fun e he hp hw => ?_
    simp only [Bool.and_eq_true] at hp ⊢
    rcases hcounted e he hp.1 with hc | hc
    · exact ⟨hc, hp.2⟩
    · simp [bytes, hc.2] at hw

/-- A skipped download is left even if everything else is leased and over the limit. -/
lemma total_le_of_skipped_download (hcache : entries.filter cached = entries)
    (h : ∀ pins, Within ⟨1, 0⟩ 0 pins entries) (he : e ∈ entries) (hskips : skips e.name)
    (hrole : e.role = .download) : total bytes entries ≤ 1 := by
  have hnone : candidates (fun n => if n = e.name then 0 else 1) entries = [] := by
    refine eq_nil_iff_forall_not_mem.mpr fun r hr => ?_
    obtain ⟨-, hcounted, hpins⟩ := mem_candidates.mp hr
    have hname : r.name = e.name := by simpa using hpins
    simp [counted, hname, hskips] at hcounted
  have hnil : evicted ⟨1, 0⟩ 0 (fun n => if n = e.name then 0 else 1) entries = [] := by
    simp [evicted, hnone, evict]
  rcases within_of_evicted_nil (h _) hnil hcache with hle | hleased
  · exact hle
  · simpa using hleased e he hrole

/-- What the pass skips is not within a limit that the counted files take up. -/
lemma total_skipped_le (hcache : entries.filter cached = entries)
    (h : ∀ opts, 0 < opts.RemoteCacheMaxBytes → Within opts 0 (fun _ => 0) entries)
    (he : e ∈ entries) (hrole : e.role = .download) (hbytes : 1 < total bytes entries) :
    total bytes (entries.filter fun r => !r.counted) ≤ 0 := by
  have hsplit := total_filter_add_filter bytes entries counted
  set T := total bytes (entries.filter counted)
  have hnil : evicted ⟨max T 1, 0⟩ 0 (fun _ => 0) entries = [] := by
    unfold evicted
    split
    · rfl
    · rw [evict_eq_nil le_rfl (le_max_left T 1), map_nil]
  rcases within_of_evicted_nil (h ⟨max T 1, 0⟩ (by simp)) hnil hcache with hle | hleased
  · have hmax : total bytes entries ≤ max T 1 := hle
    omega
  · simpa using hleased e he hrole

/-- The directories that every pass leaves within the limit or leased, whatever else lies in them:
those without a download, those of at most one byte, and those where the pass skips no download
and no metadata that takes space. -/
theorem within_iff (files : List Entry) :
    (∀ entries, entries.filter cached = files.filter cached → ∀ opts now pins,
      0 < opts.RemoteCacheMaxBytes → Within opts now pins entries) ↔
    (∀ e ∈ files, e.role ≠ .download) ∨ total bytes (files.filter cached) ≤ 1 ∨
      ∀ e ∈ files, e.cached → skips e.name → e.role = .metadata ∧ e.size = 0 := by
  constructor
  · intro h
    by_contra hnot
    push Not at hnot
    obtain ⟨⟨d, hd, hrole⟩, hbytes, e, he, hcached, hskips, hspace⟩ := hnot
    have hcache : (files.filter cached).filter cached = files.filter cached := by
      simp
    have hmem : e ∈ files.filter cached := mem_filter.mpr ⟨he, hcached⟩
    by_cases hdown : e.role = .download
    · have hle := total_le_of_skipped_download hcache (fun pins => h _ hcache ⟨1, 0⟩ 0 pins Int.one_pos)
        hmem hskips hdown
      exact absurd hle (not_le.mpr hbytes)
    · have hmeta : e.role = .metadata := by simpa [cached, hdown] using hcached
      have hle := total_skipped_le hcache (fun opts hmax => h _ hcache opts 0 _ hmax)
        (mem_filter.mpr ⟨hd, by simp [cached, hrole]⟩) hrole hbytes
      have hsub : [e] <+~ (files.filter cached).filter fun r => !r.counted :=
        singleton_subperm_iff.mpr (mem_filter.mpr ⟨hmem, by simp [counted, hskips]⟩)
      have hone := (total_le_of_subperm hsub fun r _ => bytes_nonneg r).trans hle
      have hsize := hspace hmeta
      simp only [total_cons, total_nil, bytes] at hone
      omega
  · rintro h entries hentries opts now pins hmax
    have hmem : ∀ e ∈ entries, e.cached → e ∈ files := fun e he hc =>
      (mem_filter.mp (hentries ▸ mem_filter.mpr ⟨he, hc⟩)).1
    rcases h with hnone | hsmall | hall
    · refine Or.inr fun e he hrole => absurd hrole (hnone e ?_)
      exact hmem e (mem_of_mem_enforce he) (by simp [cached, hrole])
    · refine Or.inl (le_trans ?_ (hsmall.trans hmax))
      rw [enforceRemoteCacheQuota, filter_filter, ← hentries]
      refine total_filter_le_filter (fun r _ => bytes_nonneg r) fun e _ hp _ => ?_
      exact (Bool.and_eq_true _ _ ▸ hp).1
    · exact within_of_counted hmax fun e he hc => hall e (hmem e he hc) hc

end Within

/-! ## Names -/

/-- `filepath.Ext`. -/
def ext (path : Str) : Str :=
  match cutLast '.' path with
  | some (_, e) => if '/' ∈ e then [] else '.' :: e
  | none => []

def safeExtension (extension : Str) : Bool :=
  2 ≤ extension.length && extension.length ≤ 16 && ['.'].isPrefixOf extension &&
    (extension.drop 1).all Char.isAlphanum

structure URL where
  string : Str
  path : Str

/-- The name of a download, for a digest of URLs. -/
def cacheLocation (digest : Str → Str) (target : URL) : Str :=
  let ext := ext target.path
  digest target.string ++ if safeExtension ext then toLower ext else []

def sampleURL (path : Str) : URL := ⟨"https://geo/" ++ path, "/" ++ path⟩

/-- The name that a URL is cached under, with its letters and digits for the digest. -/
def sampleName (path : Str) : Str := cacheLocation (filter Char.isAlphanum) (sampleURL path)

def sampleDownload (path : Str) : Entry := ⟨sampleName path, .download, 2, 0⟩

/-- A download named `.json` stays, with a limit of one byte and no lease. -/
lemma json_download_stays : ¬ Within ⟨1, 0⟩ 0 (fun _ => 0) [sampleDownload "roads.json"] := by
  rintro (h | h)
  · revert h
    decide
  · exact absurd (h (sampleDownload "roads.json") (by decide) rfl) (by decide)

/-! ## Leases -/

/-- How far an `Acquire` is: its lease is returned with the quota pass over the listed files. -/
inductive Phase
  | fetching
  | fetched
  | listed (entries : List Entry)
  | leased
  | released

/-- An `Acquire` and the lease it returns. One that fails ends as `released`. -/
structure Lease where
  path : Str
  phase : Phase

namespace Lease

def pinned (path : Str) (l : Lease) : Bool :=
  l.path = path && match l.phase with
    | .released => false
    | _ => true

/-- Whether the file has been seen or written, and not been given back. -/
def InUse (l : Lease) : Prop := l.phase = .fetched ∨ (∃ es, l.phase = .listed es) ∨ l.phase = .leased

end Lease

structure State where
  pins : Str → Nat
  files : List Str
  leases : List Lease

def pin (pins : Str → Nat) (path : Str) : Str → Nat := update pins path (pins path + 1)

def unpin (pins : Str → Nat) (path : Str) : Str → Nat :=
  update pins path (if pins path ≤ 1 then 0 else pins path - 1)

/-- The pins that are due: one for each `Acquire` that has neither failed nor been released. -/
def State.held (s : State) (path : Str) : Nat := s.leases.countP (Lease.pinned path)

inductive Label
  | acquire (target : URL)
  | fail
  | fetch (written : List Str)
  | readDir (entries : List Entry)
  | enforce (now : Int)
  | release

/-- What becomes of one `Acquire` or its lease, with the pins and the files. -/
inductive Step (opts : Options) (s : State) : Lease → Label → (Str → Nat) → List Str → Phase → Prop
  | fail {p} : Step opts s ⟨p, .fetching⟩ .fail (unpin s.pins p) s.files .released
  -- a fresh payload and its metadata are renamed into place, or there is a payload already
  | fetch {p written} (h : written ⊆ [p, p ++ (".json" : Str), p ++ (".json.tmp" : Str)])
      (hp : p ∈ written ++ s.files) :
      Step opts s ⟨p, .fetching⟩ (.fetch written) s.pins (written ++ s.files) .fetched
  | readDir {p entries} (h : ∀ e ∈ entries, e.name ∈ s.files) :
      Step opts s ⟨p, .fetched⟩ (.readDir entries) s.pins s.files (.listed entries)
  -- the pass holds the lock of the pins while it reads them and removes files
  | enforce {p entries now} : Step opts s ⟨p, .listed entries⟩ (.enforce now) s.pins
      (s.files.filter fun f => !removed (evicted opts now s.pins entries) f) .leased
  -- only the first call of `Release` has an effect
  | release {p} : Step opts s ⟨p, .leased⟩ .release (unpin s.pins p) s.files .released
  | again {p} : Step opts s ⟨p, .released⟩ .release s.pins s.files .released

/-- Acquires and releases in any order, the steps of one between those of others. -/
def machine (digest : Str → Str) (opts : Options) : Machine State (Nat × Label) where
  init s := s.pins = (fun _ => 0) ∧ s.leases = []
  step s l t := (∃ target, l.2 = .acquire target ∧
      t = ⟨pin s.pins (cacheLocation digest target), s.files,
        s.leases ++ [⟨cacheLocation digest target, .fetching⟩]⟩) ∨
    ∃ lease phase, s.leases[l.1]? = some lease ∧ Step opts s lease l.2 t.pins t.files phase ∧
      t.leases = s.leases.set l.1 ⟨lease.path, phase⟩

/-- Whether a quota pass that lists the file may remove it. -/
def Evictable (pins : Str → Nat) (path : Str) : Prop :=
  ∀ entries, ∀ e ∈ entries, e.name = path → e.isRegular → e ∈ candidates pins entries

structure LeaseSafe (s : State) : Prop where
  kept : ∀ l ∈ s.leases, l.phase = .leased → l.path ∈ s.files
  counted : ∀ path, s.pins path = s.held path
  evictable : ∀ l ∈ s.leases, s.held l.path = 0 → Evictable s.pins l.path

/-- The URL is not cached under a name that the quota pass skips. -/
def Plain (digest : Str → Str) (_ : State) (l : Nat × Label) (_ : State) : Prop :=
  ∀ target, l.2 = .acquire target → skips (cacheLocation digest target) = false

structure Inv (s : State) : Prop where
  counted : ∀ path, s.pins path = s.held path
  inUse : ∀ l ∈ s.leases, l.InUse → l.path ∈ s.files
  plain : ∀ l ∈ s.leases, skips l.path = false

section Inv

variable {s : State} {l : Lease} {label : Label} {files : List Str} {phase : Phase} {i : Nat}
  {path : Str}

lemma Lease.InUse.pinned (h : l.InUse) : l.pinned l.path := by
  rcases h with h | ⟨_, h⟩ | h <;> simp [Lease.pinned, h]

lemma Inv.pins_pos (h : Inv s) (hl : l ∈ s.leases) (hpinned : l.pinned path) :
    0 < s.pins path := by
  rw [h.counted]
  exact countP_pos_iff.mpr ⟨l, hl, hpinned⟩

/-- The quota pass leaves what a lease holds: it is not a candidate, and it is not the metadata
of one. -/
lemma Inv.not_removed (h : Inv s) (hl : l ∈ s.leases) (huse : l.InUse) (now : Int)
    (entries : List Entry) : removed (evicted opts now s.pins entries) l.path = false := by
  refine any_eq_false.mpr fun path hpath => ?_
  have hpins := pins_of_mem_evicted hpath
  simp only [decide_eq_true_eq]
  rintro (heq | heq)
  · exact absurd (heq ▸ hpins) (h.pins_pos hl huse.pinned).ne'
  · have hplain := h.plain l hl
    have hjson : (".json" : Str).isSuffixOf l.path :=
      isSuffixOf_iff_suffix.mpr (heq ▸ suffix_append path _)
    simp only [skips, hjson, Bool.or_true] at hplain
    cases hplain

/-- A step moves the pin of its own lease only. -/
lemma Step.pins_eq (h : Step opts s l label pins files phase) (hinv : Inv s) (hl : l ∈ s.leases)
    (path : Str) : pins path + (if l.pinned path then 1 else 0) =
      s.pins path + if Lease.pinned path ⟨l.path, phase⟩ then 1 else 0 := by
  cases h with
  | fetch | readDir | enforce | again => rfl
  | @fail p | @release p =>
    by_cases hp : p = path
    · subst hp
      have hpos : 0 < s.pins p := hinv.pins_pos hl (by simp [Lease.pinned])
      simp only [unpin, update_self, Lease.pinned]
      split <;> simp <;> omega
    · simp [unpin, update_of_ne (Ne.symm hp), Lease.pinned, hp]

lemma Step.inUse (h : Step opts s l label pins files phase) (hinv : Inv s) (hl : l ∈ s.leases) :
    (∀ k ∈ s.leases, k.InUse → k.path ∈ files) ∧
      (Lease.InUse ⟨l.path, phase⟩ → l.path ∈ files) := by
  cases h with
  | fail | release | again => exact ⟨hinv.inUse, by simp [Lease.InUse]⟩
  | fetch _ hp => exact ⟨fun k hk huse => mem_append_right _ (hinv.inUse k hk huse), fun _ => hp⟩
  | readDir => exact ⟨hinv.inUse, fun _ => hinv.inUse _ hl (Or.inl rfl)⟩
  | @enforce p entries now =>
    have hkept : ∀ k ∈ s.leases, k.InUse →
        k.path ∈ s.files.filter fun f => !removed (evicted opts now s.pins entries) f :=
      fun k hk huse =>
        mem_filter.mpr ⟨hinv.inUse k hk huse, by simp [hinv.not_removed hk huse]⟩
    exact ⟨hkept, fun _ => hkept _ hl (Or.inr (Or.inl ⟨_, rfl⟩))⟩

lemma Inv.step (hinv : Inv s) {t : State} (hi : s.leases[i]? = some l)
    (h : Step opts s l label t.pins t.files phase)
    (hset : t.leases = s.leases.set i ⟨l.path, phase⟩) : Inv t := by
  have hl := mem_of_getElem? hi
  have hmem : ∀ k ∈ t.leases, k ∈ s.leases ∨ k = ⟨l.path, phase⟩ := fun k hk =>
    mem_or_eq_of_mem_set (hset ▸ hk)
  constructor
  · intro path
    have hpins := h.pins_eq hinv hl path
    rw [hinv.counted] at hpins
    obtain ⟨hlt, rfl⟩ := List.getElem?_eq_some_iff.mp hi
    have hpos : s.leases[i].pinned path → 0 < s.held path := fun hp =>
      countP_pos_iff.mpr ⟨_, hl, hp⟩
    rw [State.held, hset, countP_set hlt, ← State.held]
    split at hpins <;> split at hpins <;> simp_all <;> omega
  · intro k hk huse
    rcases hmem k hk with hk | rfl
    · exact (h.inUse hinv hl).1 k hk huse
    · exact (h.inUse hinv hl).2 huse
  · intro k hk
    rcases hmem k hk with hk | rfl
    · exact hinv.plain k hk
    · exact hinv.plain l hl

end Inv

/-- In runs that acquire no URL whose download is named as metadata is, a leased file is not
removed, the pins are the leases, and without leases a download can be removed. -/
theorem leaseSafe_of_reachable {digest : Str → Str} {s : State}
    (h : ((machine digest opts).restrict (Plain digest)).Reachable s) : LeaseSafe s := by
  have hinv : Inv s := by
    refine Machine.Reachable.induct (I := Inv) ?_ ?_ h
    · rintro s ⟨hpins, hleases⟩
      exact ⟨by simp [hpins, hleases, State.held], by simp [hleases], by simp [hleases]⟩
    · rintro s l t - hinv ⟨⟨target, hl, rfl⟩ | ⟨lease, phase, hi, hstep, hset⟩, hplain⟩
      · refine ⟨fun path => ?_, ?_, ?_⟩
        · by_cases hp : cacheLocation digest target = path
          · subst hp
            simp [pin, hinv.counted, State.held, Lease.pinned]
          · simp [pin, update_of_ne (Ne.symm hp), hinv.counted, State.held, Lease.pinned, hp]
        · simpa [Lease.InUse, or_imp, forall_and] using hinv.inUse
        · simpa [or_imp, forall_and] using ⟨hinv.plain, hplain target hl⟩
      · exact hinv.step hi hstep hset
  refine ⟨fun l hl hphase => hinv.inUse l hl (Or.inr (Or.inr hphase)), hinv.counted, ?_⟩
  intro l hl hheld entries e he hname hregular
  refine mem_candidates.mpr ⟨he, ?_, ?_⟩
  · simp [counted, hregular, hname, hinv.plain l hl]
  · rw [hname, hinv.counted, hheld]

/-- A download that is acquired and released. -/
lemma released_reachable (path : Str) {P : State → Nat × Label → State → Prop}
    (hP : ∀ s t label, (∀ target, label = .acquire target → target = sampleURL path) →
      P s (0, label) t) :
    ((machine (filter Char.isAlphanum) ⟨1, 0⟩).restrict P).Reachable
      ⟨unpin (pin (fun _ => 0) (sampleName path)) (sampleName path), [sampleName path],
        [⟨sampleName path, .released⟩]⟩ := by
  set M := (machine (filter Char.isAlphanum) ⟨1, 0⟩).restrict P
  have next {s lease label pins files phase} (h : M.Reachable s)
      (hstep : Step ⟨1, 0⟩ s lease label pins files phase) (hlease : s.leases[0]? = some lease) :
      M.Reachable ⟨pins, files, s.leases.set 0 ⟨lease.path, phase⟩⟩ := by
    refine h.step (l := (0, label)) ⟨Or.inr ⟨_, _, hlease, hstep, rfl⟩, hP _ _ _ ?_⟩
    rintro _ rfl
    cases hstep
  have h₀ : M.Reachable ⟨fun _ => 0, [], []⟩ := .init ⟨rfl, rfl⟩
  have h₁ := h₀.step (l := (0, .acquire (sampleURL path)))
    ⟨Or.inl ⟨_, rfl, rfl⟩, hP _ _ _ (by rintro _ ⟨⟩; rfl)⟩
  have h₂ := next h₁ (.fetch (cons_subset.mpr ⟨mem_cons_self, nil_subset _⟩) mem_cons_self) rfl
  have h₃ := next h₂ (@Step.readDir _ _ _ [] nofun) rfl
  have h₄ := next h₃ (@Step.enforce _ _ _ _ 0) rfl
  exact next h₄ .release rfl

lemma leaseSafe_of_released : LeaseSafe
    ⟨unpin (pin (fun _ => 0) (sampleName "roads.parquet")) (sampleName "roads.parquet"),
      [sampleName "roads.parquet"], [⟨sampleName "roads.parquet", .released⟩]⟩ :=
  leaseSafe_of_reachable (released_reachable "roads.parquet" (P := Plain (filter Char.isAlphanum))
    fun _ _ _ honly _ htarget => honly _ htarget ▸ by decide)

/-- A download named `.json` is not removed by any quota pass, after its release either. -/
lemma json_download_not_evictable : ∃ s,
    (machine (filter Char.isAlphanum) ⟨1, 0⟩).Reachable s ∧ ¬ LeaseSafe s := by
  refine ⟨_, .of_restrict (released_reachable "roads.json" (P := fun _ _ _ => True) fun _ _ _ _ =>
    trivial), fun h => ?_⟩
  have hmem := h.evictable _ mem_cons_self (by decide) [sampleDownload "roads.json"] _
    mem_cons_self rfl rfl
  exact absurd hmem (by decide)

end NeoServer.Remotecache
