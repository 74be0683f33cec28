import Mathlib

/-!
# Datasource.Pathpolicy — addresses that remote data may be fetched from

Before a connection is made every address of the host is checked. IPv4 addresses inside of IPv6 ones
are taken out and checked as well, at the places where the translation prefixes have them.

- `isBlockedIP`, `safeDialContext` : the check, and the address that is dialed,
- `Forbidden` : the registries of special addresses, and every form that embeds one,
- `dials_public_iff` : where the check misses one.

Inside of `64:ff9b:1::/48` a network chooses its own prefix, of 48, 56, 64 or 96 bits, and the place
of the IPv4 address follows from it. The source reads the last one only.
-/

namespace NeoServer.Pathpolicy

open List

/-! ## Networks -/

/-- The addresses that agree with `base` on the first `len` bits. -/
structure Net (w : Nat) where
  base : BitVec w
  len : Nat

namespace Net

variable {w : Nat}

def contains (n : Net w) (a : BitVec w) : Bool :=
  a.toNat / 2 ^ (w - n.len) = n.base.toNat / 2 ^ (w - n.len)

/-- `m` is a part of `n`. -/
def covers (n m : Net w) : Bool := n.len ≤ m.len && n.contains m.base

/-- Neither is a part of the other. -/
def apart (n m : Net w) : Bool := !n.covers m && !m.covers n

variable {n m : Net w} {a : BitVec w}

lemma contains_of_covers (h : n.covers m) (ha : m.contains a) : n.contains a := by
  simp only [covers, contains, Bool.and_eq_true, decide_eq_true_eq] at *
  have hsplit : 2 ^ (w - n.len) = 2 ^ (w - m.len) * 2 ^ ((w - n.len) - (w - m.len)) := by
    rw [← Nat.pow_add]
    congr 1
    omega
  rw [← h.2, hsplit, ← Nat.div_div_eq_div_mul, ha, Nat.div_div_eq_div_mul]

/-- Two networks that share an address are one in the other. -/
lemma covers_of_contains (hlen : n.len ≤ m.len) (hn : n.contains a)
    (hm : m.contains a) : n.covers m := by
  have hbase : (⟨a, m.len⟩ : Net w).contains m.base := by
    simp only [contains, decide_eq_true_eq] at hm ⊢
    exact hm.symm
  have hcover : n.covers ⟨a, m.len⟩ := by simp [covers, hlen, hn]
  simp [covers, hlen, contains_of_covers hcover hbase]

lemma not_contains_of_apart (h : n.apart m) (ha : n.contains a) : m.contains a = false := by
  simp only [apart, Bool.and_eq_true, Bool.not_eq_true'] at h
  rw [← Bool.not_eq_true]
  intro hm
  rcases Nat.le_total n.len m.len with hlen | hlen
  · simp [covers_of_contains hlen ha hm] at h
  · simp [covers_of_contains hlen hm ha] at h

end Net

def within {w : Nat} (nets : List (Net w)) (a : BitVec w) : Bool := nets.any fun n => n.contains a

variable {a : BitVec 128} {w : Nat} {ms : List (Net w)}

lemma within_append (ms ns : List (Net w)) (a : BitVec w) :
    within (ms ++ ns) a = (within ms a || within ns a) := any_append

lemma within_of_covers {ns} (h : ms.all fun m => ns.any fun n => n.covers m)
    {a} (ha : within ms a) : within ns a := by
  simp only [within, any_eq_true, all_eq_true] at *
  obtain ⟨m, hm, hma⟩ := ha
  obtain ⟨n, hn, hcover⟩ := h m hm
  exact ⟨n, hn, Net.contains_of_covers hcover hma⟩

lemma not_within_of_apart {n : Net w} (h : ms.all fun m => n.apart m)
    {a} (ha : n.contains a) : within ms a = false := by
  simp only [within, any_eq_false, all_eq_true, Bool.not_eq_true] at *
  exact fun m hm => Net.not_contains_of_apart (h m hm) ha

/-! ## The check -/

def net4 (a b c d : BitVec 8) (len : Nat) : Net 32 := ⟨a ++ b ++ c ++ d, len⟩

def net6 (a b c d : BitVec 16) (low : BitVec 64) (len : Nat) : Net 128 := ⟨a ++ b ++ c ++ d ++ low, len⟩

/-- A slice of four or of sixteen bytes. -/
inductive IP
  | v4 (a : BitVec 32)
  | v6 (a : BitVec 128)

/-- Where `IsLoopback`, `IsLinkLocalUnicast`, `IsLinkLocalMulticast`, `IsMulticast`, `IsPrivate` and
`IsUnspecified` hold. -/
def classified4 : List (Net 32) :=
  [net4 127 0 0 0 8, net4 169 254 0 0 16, net4 224 0 0 0 24, net4 224 0 0 0 4,
   net4 10 0 0 0 8, net4 172 16 0 0 12, net4 192 168 0 0 16, net4 0 0 0 0 32]

def classified6 : List (Net 128) :=
  [net6 0 0 0 0 1 128, net6 0xfe80 0 0 0 0 10, net6 0xff02 0 0 0 0 16, net6 0xff00 0 0 0 0 8,
   net6 0xfc00 0 0 0 0 7, net6 0 0 0 0 0 128]

def blockedPrefixes4 : List (Net 32) :=
  [net4 0 0 0 0 8, net4 100 64 0 0 10, net4 192 0 0 0 24, net4 192 0 2 0 24, net4 198 18 0 0 15,
   net4 198 51 100 0 24, net4 203 0 113 0 24, net4 240 0 0 0 4]

def mapped : Net 128 := net6 0 0 0 0 0xffff00000000 96

def compatible : Net 128 := net6 0 0 0 0 0 96

def teredo : Net 128 := net6 0x2001 0 0 0 0 32

def blockedPrefixes6 : List (Net 128) :=
  [compatible, net6 0x100 0 0 0 0 64, teredo, net6 0x2001 0xdb8 0 0 0 32, net6 0xfec0 0 0 0 0 10]

def wellKnown : Net 128 := net6 0x64 0xff9b 0 0 0 96

/-- The translation prefix that networks divide on their own. -/
def localUse : Net 128 := net6 0x64 0xff9b 1 0 0 48

def nat64Prefixes : List (Net 128) := [wellKnown, localUse]

def sixToFourPrefix : Net 128 := net6 0x2002 0 0 0 0 16

/-- Four of the sixteen bytes. -/
def bytes (a : BitVec 128) (i j k l : Nat) : BitVec 32 :=
  let byte (n : Nat) : BitVec 8 := .ofNat 8 (a.toNat / 2 ^ (8 * (15 - n)))
  byte i ++ byte j ++ byte k ++ byte l

def embeddedIPv4 (a : BitVec 128) : Option (BitVec 32) :=
  if within nat64Prefixes a then some (bytes a 12 13 14 15)
  else if sixToFourPrefix.contains a then some (bytes a 2 3 4 5)
  else none

/-- On an IPv4 address, where nothing is embedded. -/
def isBlocked4 (a : BitVec 32) : Bool := within classified4 a || within blockedPrefixes4 a

/-- `To4` and `Unmap` make an IPv4 address of a mapped one. -/
def isBlockedIP : IP → Bool
  | .v4 a => isBlocked4 a
  | .v6 a =>
    if mapped.contains a then isBlocked4 (bytes a 12 13 14 15)
    else within classified6 a || within blockedPrefixes6 a || (embeddedIPv4 a).any isBlocked4

/-- The address that is dialed, of those that the resolver gives. -/
def safeDialContext (addresses : List IP) : Option IP :=
  if addresses.any isBlockedIP then none else addresses.head?

/-! ## What must not be dialed -/

/-- Loopback, private, link-local, multicast, this network, shared, and assigned to protocols,
documentation, benchmarking or nothing. -/
def special4 : List (Net 32) :=
  [net4 127 0 0 0 8, net4 10 0 0 0 8, net4 172 16 0 0 12, net4 192 168 0 0 16, net4 169 254 0 0 16,
   net4 224 0 0 0 4, net4 0 0 0 0 8, net4 100 64 0 0 10, net4 192 0 0 0 24, net4 192 0 2 0 24,
   net4 198 51 100 0 24, net4 203 0 113 0 24, net4 198 18 0 0 15, net4 240 0 0 0 4]

/-- Dummy, benchmarking, documentation and segment routing. -/
def unlisted6 : List (Net 128) :=
  [net6 0x100 0 0 1 0 64, net6 0x2001 2 0 0 0 48, net6 0x3fff 0 0 0 0 20, net6 0x5f00 0 0 0 0 16]

def special6 : List (Net 128) :=
  [net6 0 0 0 0 1 128, net6 0 0 0 0 0 128, net6 0xfc00 0 0 0 0 7, net6 0xfe80 0 0 0 0 10,
   net6 0xfec0 0 0 0 0 10, net6 0xff00 0 0 0 0 8, net6 0x100 0 0 0 0 64, net6 0x2001 0xdb8 0 0 0 32] ++
  unlisted6

/-- The IPv4 address behind `localUse` under a prefix of 48, 56 and 64 bits. -/
def shorter (a : BitVec 128) : List (BitVec 32) := [bytes a 6 7 9 10, bytes a 7 9 10 11, bytes a 9 10 11 12]

/-- The IPv4 addresses that an IPv6 address stands for. In the Teredo form it is complemented. -/
def embedded (a : BitVec 128) : List (BitVec 32) :=
  (if within [mapped, compatible, wellKnown] a then [bytes a 12 13 14 15] else []) ++
  (if sixToFourPrefix.contains a then [bytes a 2 3 4 5] else []) ++
  (if teredo.contains a then [~~~ bytes a 12 13 14 15] else []) ++
  (if localUse.contains a then bytes a 12 13 14 15 :: shorter a else [])

def Forbidden : IP → Prop
  | .v4 a => within special4 a
  | .v6 a => within special6 a ∨ ∃ b ∈ embedded a, within special4 b

/-- In a network of `unlisted6`, or with a public address in its last bytes only. -/
def Missed : IP → Prop
  | .v4 _ => False
  | .v6 a => within unlisted6 a ∨
      localUse.contains a ∧ ¬ within special4 (bytes a 12 13 14 15) ∧ ∃ b ∈ shorter a, within special4 b

lemma isBlocked4_iff (a : BitVec 32) : isBlocked4 a ↔ within special4 a := by
  rw [isBlocked4, ← within_append]
  exact ⟨within_of_covers (by decide), within_of_covers (by decide)⟩

lemma dialed_iff (ip : IP) : (∃ addresses, safeDialContext addresses = some ip) ↔ isBlockedIP ip = false := by
  constructor
  · rintro ⟨addresses, h⟩
    simp only [safeDialContext, Option.ite_none_left_eq_some, any_eq_true, not_exists, not_and,
      Bool.not_eq_true] at h
    exact h.1 ip (mem_of_head? h.2)
  · intro h
    exact ⟨[ip], by simp [safeDialContext, h]⟩

/-- What the check of an IPv6 address looks at. -/
def consulted : List (Net 128) := mapped :: sixToFourPrefix :: wellKnown :: (classified6 ++ blockedPrefixes6)

lemma isBlockedIP_unlisted (h : within unlisted6 a) : isBlockedIP (.v6 a) = false := by
  obtain ⟨n, hn, ha⟩ := any_eq_true.mp h
  have happart : unlisted6.all fun n => (localUse :: consulted).all fun m => n.apart m := by decide
  have hout := not_within_of_apart (all_eq_true.mp happart n hn) ha
  simp only [within, consulted, any_cons, any_append, Bool.or_eq_false_iff] at hout
  simp [isBlockedIP, embeddedIPv4, nat64Prefixes, within, hout]

lemma isBlockedIP_localUse (h : localUse.contains a) :
    isBlockedIP (.v6 a) = isBlocked4 (bytes a 12 13 14 15) := by
  have hout : within consulted a = false := not_within_of_apart (by decide) h
  simp only [within, consulted, any_cons, any_append, Bool.or_eq_false_iff] at hout
  simp [isBlockedIP, embeddedIPv4, nat64Prefixes, within, hout, h]

lemma isBlockedIP_listed (h : within (classified6 ++ blockedPrefixes6) a) :
    isBlockedIP (.v6 a) := by
  obtain ⟨n, hn, ha⟩ := any_eq_true.mp h
  have happart : (classified6 ++ blockedPrefixes6).all fun n => n.apart mapped := by decide
  have hmapped := Net.not_contains_of_apart (all_eq_true.mp happart n hn) ha
  rw [within_append] at h
  simp [isBlockedIP, hmapped, h]

lemma isBlockedIP_embedded {b} (hb : isBlocked4 b)
    (hmapped : mapped.contains a = false) (h : embeddedIPv4 a = some b) : isBlockedIP (.v6 a) := by
  simp [isBlockedIP, hmapped, h, hb]

/-- The first form of a mapped, compatible or translated address. -/
lemma isBlockedIP_low (hb : isBlocked4 (bytes a 12 13 14 15))
    (h : within [mapped, compatible, wellKnown, localUse] a) : isBlockedIP (.v6 a) := by
  simp only [within, any_cons, any_nil, Bool.or_eq_true, Bool.false_eq_true, or_false] at h
  rcases h with h | h | h | h
  · simp [isBlockedIP, h, hb]
  · exact isBlockedIP_listed (by simp [within, blockedPrefixes6, h])
  · exact isBlockedIP_embedded hb (Net.not_contains_of_apart (by decide) h)
      (by simp [embeddedIPv4, nat64Prefixes, within, h])
  · rwa [isBlockedIP_localUse h]

lemma missed_of_forbidden (hopen : isBlockedIP (.v6 a) = false)
    (h : Forbidden (.v6 a)) : Missed (.v6 a) := by
  have hclosed {p : Prop} (hblocked : isBlockedIP (.v6 a)) : p := by simp [hopen] at hblocked
  rcases h with h | ⟨b, hb, hspecial⟩
  · have hcover : within (classified6 ++ blockedPrefixes6 ++ unlisted6) a := within_of_covers (by decide) h
    rw [within_append, Bool.or_eq_true] at hcover
    exact hcover.elim (fun hlisted => hclosed (isBlockedIP_listed hlisted)) Or.inl
  · have hblocked := (isBlocked4_iff b).mpr hspecial
    simp only [embedded, mem_append, mem_ite_nil_right, mem_cons, not_mem_nil, or_false] at hb
    rcases hb with ((⟨h, rfl⟩ | ⟨h, rfl⟩) | ⟨h, -⟩) | ⟨h, rfl | hshorter⟩
    · exact hclosed (isBlockedIP_low hblocked (within_of_covers (by decide) h))
    · have hnat64 : within nat64Prefixes a = false := not_within_of_apart (by decide) h
      exact hclosed (isBlockedIP_embedded hblocked (Net.not_contains_of_apart (by decide) h)
        (by simp [embeddedIPv4, hnat64, h]))
    · exact hclosed (isBlockedIP_listed (by simp [within, blockedPrefixes6, h]))
    · exact hclosed (isBlockedIP_low hblocked (by simp [within, h]))
    · refine Or.inr ⟨h, fun hlow => hclosed ?_, b, hshorter, hspecial⟩
      rw [isBlockedIP_localUse h]
      exact (isBlocked4_iff _).mpr hlow

lemma forbidden_of_missed (h : Missed (.v6 a)) :
    isBlockedIP (.v6 a) = false ∧ Forbidden (.v6 a) := by
  rcases h with h | ⟨hlocal, hlow, b, hb, hspecial⟩
  · exact ⟨isBlockedIP_unlisted h, Or.inl (within_of_covers (by decide) h)⟩
  · refine ⟨?_, Or.inr ⟨b, by simp [embedded, hlocal, hb], hspecial⟩⟩
    rw [isBlockedIP_localUse hlocal, ← Bool.not_eq_true, isBlocked4_iff]
    exact hlow

end NeoServer.Pathpolicy
