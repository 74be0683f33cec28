import NeoServer.Text

/-!
# Transport — the client and its transport behind trusted proxies

`TransportSecurity` replaces the address of a request whose peer is a trusted
proxy by the one the proxies report in X-Forwarded-For, and believes
X-Forwarded-Proto of such a peer. Every proxy appends what it saw, to the last
line of a header or as a line of its own, so only the end of the list of all
lines is out of the client's hands. The code reads the first line of each
header and the first protocol of it.
-/

namespace NeoServer.Transport

open List

/-- What the code uses of `net` and `strings`, over addresses `IP`, with the
configured networks of trusted proxies. -/
structure Env (IP : Type) where
  parseIP : Str → Option IP
  /-- `IP.String`. -/
  string : IP → Str
  isLoopback : IP → Bool
  /-- Each network by its `IPNet.Contains`. -/
  trusted : List (IP → Bool)
  /-- The host `net.SplitHostPort` returns, when it returns no error. -/
  splitHostPort : Str → Option Str
  /-- The folding of `strings.EqualFold`. -/
  fold : Char → Char
  parseIP_nil : parseIP [] = none
  parseIP_string : ∀ ip, parseIP (string ip) = some ip
  string_plain : ∀ ip, (string ip).all fun c => c ∉ [',', '[', ']'] && !isSpaceRune c
  splitHostPort_string : ∀ ip, splitHostPort (string ip) = none

/-- A request, with the lines of its two forwarding headers. -/
structure Request where
  remoteAddr : Str
  tls : Bool
  forwardedFor : List Str
  forwardedProto : List Str

/-- `transportDecision`, with the address the middleware leaves in the request. -/
structure Decision where
  remoteAddr : Str
  secure : Bool
  encrypted : Bool

/-- `Header.Get`: the first line. -/
def get (lines : List Str) : Str := lines.headD []

/-- `strings.Trim` for the characters of `p`. -/
def trim (p : Char → Bool) (s : Str) : Str := ((s.dropWhile p).reverse.dropWhile p).reverse

lemma trim_eq_self {p : Char → Bool} {s : Str} (h : ∀ c ∈ s, p c = false) : trim p s = s := by
  have hdrop : ∀ t : Str, (∀ c ∈ t, p c = false) → t.dropWhile p = t := by
    intro t ht
    cases t with
    | nil => rfl
    | cons c t => exact dropWhile_cons_of_neg (by simp [ht c mem_cons_self])
  rw [trim, hdrop s h, hdrop _ fun c hc => h c (mem_reverse.mp hc), reverse_reverse]

/-- The elements of a header, over all its lines in order. -/
def elements (lines : List Str) : List Str := lines.flatMap (splitChar ',')

@[simp] lemma elements_cons (line : Str) (lines : List Str) :
    elements (line :: lines) = splitChar ',' line ++ elements lines := flatMap_cons

@[simp] lemma elements_replicate_nil (n : Nat) : elements (.replicate n []) = .replicate n [] := by
  induction n with
  | zero => rfl
  | succ n ih => simp [replicate_succ, ih, splitChar]

/-- The protocol the nearest proxy reported: it appends to what it received. -/
def reported (lines : List Str) : Option Str := (elements lines).getLast?.map trimSpace

/-- A header of one element reports what the code reads. -/
lemma reported_eq {lines} (h : (elements lines).length ≤ 1) :
    trimSpace ((splitChar ',' (get lines)).headD []) = (reported lines).getD [] := by
  cases lines with
  | nil => rfl
  | cons line rest =>
    cases hsplit : splitChar ',' line with
    | nil => exact absurd hsplit (splitChar_ne_nil _ _)
    | cons e es =>
      have hone : es ++ elements rest = [] := by
        rw [elements_cons, hsplit, cons_append] at h
        exact length_eq_zero_iff.mp (Nat.le_zero.mp (Nat.le_of_succ_le_succ h))
      simp [reported, hsplit, hone, get]

namespace Env

variable {IP : Type} (env : Env IP)

def remoteIP (addr : Str) : Option IP :=
  env.parseIP (trim (fun c => c = '[' || c = ']') ((env.splitHostPort addr).getD addr))

def ipInNetworks (ip : IP) : Bool := env.trusted.any fun contains => contains ip

/-- The test of a proxy, of the peer and of every address of the chain. -/
def isProxy (ip : IP) : Bool := env.isLoopback ip || env.ipInNetworks ip

/-- The loop of `forwardedClientIP`, over the entries from the last one on. -/
def forwardedFrom : IP → List Str → Option IP
  | current, [] => some current
  | current, entry :: rest =>
    if env.isProxy current then
      match env.parseIP (trimSpace entry) with
      | none => none
      | some next => forwardedFrom next rest
    else some current

def forwardedClientIP (header : Str) (peer : IP) : Option IP :=
  if header = [] then none else env.forwardedFrom peer (splitChar ',' header).reverse

/-- `strings.EqualFold(proto, "https")`. -/
def isHTTPS (proto : Str) : Bool := proto.map env.fold = "https".toList.map env.fold

/-- The peer, when it is a trusted proxy (`peerTrusted`). -/
def proxy (r : Request) : Option IP := (env.remoteIP r.remoteAddr).filter env.isProxy

def transportSecurity (r : Request) : Decision :=
  let proto := trimSpace ((splitChar ',' (get r.forwardedProto)).headD [])
  let encrypted := r.tls || ((env.proxy r).isSome && env.isHTTPS proto)
  let client := (env.proxy r).bind (env.forwardedClientIP (get r.forwardedFor))
  { remoteAddr := (client.map env.string).getD r.remoteAddr
    secure := encrypted || (env.remoteIP r.remoteAddr).any env.isLoopback
    encrypted }

def clientAddress (remoteAddr : Str) : Str := (env.splitHostPort remoteAddr).getD remoteAddr

/-- The address the handlers behind the middleware see. -/
def client (r : Request) : Str := env.clientAddress (env.transportSecurity r).remoteAddr

/-- The forwarded chain; an entry that is no address is `none`. -/
def chain (lines : List Str) : List (Option IP) :=
  (elements lines).map fun entry => env.parseIP (trimSpace entry)

/-- `ip` is the right-most untrusted address: everything behind it was appended
by trusted proxies, and everything before it is what the client sent. -/
def Rightmost (entries : List (Option IP)) (ip : IP) (behind : List (Option IP)) : Prop :=
  env.isProxy ip = false ∧ (∀ e ∈ behind, ∃ p, e = some p ∧ env.isProxy p) ∧
    ∃ sent, entries = sent ++ some ip :: behind

/-- The requests differ only in header content placed by an untrusted client. -/
structure Alike (r r' : Request) : Prop where
  remoteAddr : r.remoteAddr = r'.remoteAddr
  tls : r.tls = r'.tls
  headers : env.proxy r = none ∨
    (r.forwardedFor = r'.forwardedFor ∨ ∃ ip behind,
      env.Rightmost (env.chain r.forwardedFor) ip behind ∧
        env.Rightmost (env.chain r'.forwardedFor) ip behind) ∧
    reported r.forwardedProto = reported r'.forwardedProto

/-- The decisions on the requests of `S` are sound: an untrusted peer is the
client, a trusted one yields the right-most untrusted address, only TLS or the
nearest trusted proxy makes the transport encrypted, and the client cannot
change the decision by what it sends. -/
structure Sound (S : Request → Prop) : Prop where
  direct : ∀ r, S r → env.proxy r = none → env.client r = env.clientAddress r.remoteAddr
  forwarded : ∀ r, S r → (env.proxy r).isSome → ∀ ip behind,
    env.Rightmost (env.chain r.forwardedFor) ip behind → env.client r = env.string ip
  encrypted : ∀ r, S r → (env.transportSecurity r).encrypted →
    r.tls ∨ (env.proxy r).isSome ∧
      ∃ proto, reported r.forwardedProto = some proto ∧ env.isHTTPS proto
  same : ∀ r r', S r → S r' → env.Alike r r' → env.client r = env.client r' ∧
    (env.transportSecurity r).secure = (env.transportSecurity r').secure ∧
    (env.transportSecurity r).encrypted = (env.transportSecurity r').encrypted

variable {env : Env IP} {peer ip : IP} {behind : List (Option IP)} {lines : List Str}
  {r : Request} {addr : Str}

@[simp] lemma isHTTPS_nil : env.isHTTPS [] = false := by simp [isHTTPS]

/-- The loop passes over trusted addresses and stops at the first untrusted one. -/
lemma forwardedFrom_eq {sent} (hip : env.isProxy ip = false)
    (hpeer : env.isProxy peer) (hbehind : ∀ e ∈ behind, ∃ p, e = some p ∧ env.isProxy p) {entries}
    (h : (entries.map fun entry => env.parseIP (trimSpace entry)) = behind ++ some ip :: sent) :
    env.forwardedFrom peer entries = some ip := by
  induction behind generalizing peer entries with
  | nil =>
    obtain ⟨entry, rest, rfl, hentry, -⟩ := map_eq_cons_iff.mp h
    rw [forwardedFrom, if_pos hpeer, hentry]
    cases rest <;> simp [forwardedFrom, hip]
  | cons e behind ih =>
    obtain ⟨entry, rest, rfl, hentry, hrest⟩ := map_eq_cons_iff.mp h
    obtain ⟨p, rfl, hp⟩ := hbehind e mem_cons_self
    rw [forwardedFrom, if_pos hpeer, hentry]
    exact ih hp (fun e he => hbehind e (mem_cons_of_mem _ he)) hrest

lemma forwardedClientIP_eq (hpeer : env.isProxy peer) (hlines : lines.length ≤ 1)
    (h : env.Rightmost (env.chain lines) ip behind) :
    env.forwardedClientIP (get lines) peer = some ip := by
  obtain ⟨hip, hbehind, sent, hsent⟩ := h
  match lines, hlines with
  | [], _ => simp [chain, elements] at hsent
  | [line], _ =>
    have hline : get [line] ≠ [] := by
      -- the entry of an empty line is no address
      rintro rfl
      have hmem : some ip ∈ env.chain [[]] := by simp [hsent]
      simp [chain, elements, splitChar, trimSpace, env.parseIP_nil] at hmem
    have hrev : ((splitChar ',' line).reverse.map fun entry => env.parseIP (trimSpace entry)) =
        behind.reverse ++ some ip :: sent.reverse := by
      simpa [chain, elements] using congrArg reverse hsent
    rw [forwardedClientIP, if_neg hline]
    exact forwardedFrom_eq hip hpeer (fun e he => hbehind e (mem_reverse.mp he)) hrev

lemma chain_string (ip : IP) : env.chain [env.string ip] = [some ip] := by
  have hplain := all_eq_true.mp (env.string_plain ip)
  have hsplit : splitChar ',' (env.string ip) = [env.string ip] :=
    splitChar_of_not_mem fun hmem => by simpa using hplain _ hmem
  have htrim : trimSpace (env.string ip) = env.string ip :=
    trim_eq_self fun c hc => by simpa using (Bool.and_eq_true_iff.mp (hplain c hc)).2
  simp [chain, elements, hsplit, htrim, env.parseIP_string]

/-- The text of a trusted peer is not that of an untrusted address. -/
lemma clientAddress_ne (hpeer : env.remoteIP addr = some peer) (hproxy : env.isProxy peer)
    (hip : env.isProxy ip = false) : env.clientAddress addr ≠ env.string ip := by
  intro h
  have htrim : trim (fun c => c = '[' || c = ']') (env.string ip) = env.string ip :=
    trim_eq_self fun c hc => by
      have hplain := all_eq_true.mp (env.string_plain ip) c hc
      simp_all
  rw [remoteIP, ← clientAddress, h, htrim, env.parseIP_string, Option.some.injEq] at hpeer
  rw [hpeer, hproxy] at hip
  cases hip

lemma client_of_proxy (hpeer : env.proxy r = some peer) (hlines : r.forwardedFor.length ≤ 1)
    (h : env.Rightmost (env.chain r.forwardedFor) ip behind) : env.client r = env.string ip := by
  have hproxy := (Option.filter_eq_some_iff.mp hpeer).2
  simp [client, transportSecurity, hpeer, forwardedClientIP_eq hproxy hlines h, clientAddress,
    env.splitHostPort_string]

lemma client_of_untrusted (hpeer : env.proxy r = none) :
    env.client r = env.clientAddress r.remoteAddr := by
  simp [client, transportSecurity, hpeer]

/-- Headers of at most one line and one protocol are decided soundly. -/
lemma sound_of_shape {S : Request → Prop} (hfor : ∀ r, S r → r.forwardedFor.length ≤ 1)
    (hproto : ∀ r, S r → (elements r.forwardedProto).length ≤ 1) : env.Sound S := by
  constructor
  case direct => exact fun r _ => client_of_untrusted
  case forwarded =>
    intro r hr hsome ip behind hright
    obtain ⟨peer, hpeer⟩ := Option.isSome_iff_exists.mp hsome
    exact client_of_proxy hpeer (hfor r hr) hright
  case encrypted =>
    intro r hr h
    simp only [transportSecurity, reported_eq (hproto r hr), Bool.or_eq_true, Bool.and_eq_true] at h
    refine h.imp_right fun ⟨hsome, hhttps⟩ => ⟨hsome, ?_⟩
    cases hreported : reported r.forwardedProto with
    | none => simp [hreported] at hhttps
    | some proto => exact ⟨proto, rfl, by simpa [hreported] using hhttps⟩
  case same =>
    intro r r' hr hr' ⟨haddr, htls, hheaders⟩
    have hproxy : env.proxy r = env.proxy r' := by simp only [proxy, haddr]
    have hclient : env.client r = env.client r' := by
      cases hpeer : env.proxy r with
      | none => rw [client_of_untrusted hpeer, client_of_untrusted (hproxy ▸ hpeer), haddr]
      | some peer =>
        rcases (hheaders.resolve_left (by simp [hpeer])).1 with hsame | ⟨ip, behind, hright, hright'⟩
        · simp only [client, transportSecurity, hproxy, hsame, haddr]
        · rw [client_of_proxy hpeer (hfor r hr) hright,
            client_of_proxy (hproxy ▸ hpeer) (hfor r' hr') hright']
    have hencrypted : (env.transportSecurity r).encrypted = (env.transportSecurity r').encrypted := by
      simp only [transportSecurity, reported_eq (hproto r hr), reported_eq (hproto r' hr'), htls]
      rcases hheaders with hnone | ⟨-, hreported⟩
      · simp [← hproxy, hnone]
      · rw [hproxy, hreported]
    have hsecure : (env.transportSecurity r).secure = (env.transportSecurity r').secure := by
      simp only [transportSecurity, haddr] at hencrypted ⊢
      rw [hencrypted]
    exact ⟨hclient, hsecure, hencrypted⟩

end Env

/-- The proxy on this host, a client, and an address it makes up. -/
inductive Host
  | proxy
  | client
  | forged
deriving DecidableEq

def Host.text : Host → Str
  | proxy => "127.0.0.1"
  | client => "198.51.100.7"
  | forged => "203.0.113.9"

def hosts : Env Host where
  parseIP s := [Host.proxy, .client, .forged].find? fun h => h.text = s
  string := Host.text
  isLoopback h := h = .proxy
  trusted := []
  splitHostPort s := (cutLast ':' s).map Prod.fst
  fold := Char.toLower
  parseIP_nil := by decide
  parseIP_string h := by cases h <;> decide
  string_plain h := by cases h <;> decide
  splitHostPort_string h := by cases h <;> decide

end NeoServer.Transport
