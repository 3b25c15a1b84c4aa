import JsonRpc.Lib.SocketAddr
import Mathlib.Data.List.Dedup

/-!
# Validation of the host header

A server accepts a request only if one of its allowed hosts matches the host header. An
allowed host is a text that is cut into a name and a port, and then compiled as a glob. The
address that the server is bound to is printed, and added to the allowed hosts.
-/

namespace JsonRpc.ServerUtils

open Text

/-! ## Patterns -/

/-- A character that is special in a glob. -/
def isMetachar (c : Char) : Bool := c ∈ "?*[]{}\\,".toList

/-- The library of globs, which ignore the case. -/
structure Globset where
  /-- A compiled glob. -/
  Glob : Type
  build : Text → Option Glob
  isMatch : Glob → Text → Bool
  /-- A pattern without special characters matches the texts that are equal to it. -/
  literal : ∀ pattern : Text, (∀ c ∈ pattern, isMetachar c = false) →
    ∃ glob, build pattern = some glob ∧ ∀ s, isMatch glob s = eqIgnoreAsciiCase pattern s
  /-- A bracket has to be closed. -/
  unclosed : ∀ before after : Text, (∀ c ∈ before, isMetachar c = false) → ']' ∉ after →
    build (before ++ '[' :: after) = none

/-- The library of characters. -/
structure Unicode where
  toLowercase : Text → Text
  /-- Only letters have a case in ASCII. -/
  ascii : ∀ s : Text, (∀ c ∈ s, c.toNat < 128) → toLowercase s = s.map Char.toLower

/-- A pattern, compiled if it is a glob. -/
structure Matcher (G : Globset) where
  glob : Option G.Glob
  pattern : Text
  glob_eq : glob = G.build pattern

namespace Matcher

variable {G : Globset}

def new (string : Text) : Matcher G := ⟨G.build string, string, rfl⟩

def matchesText (m : Matcher G) (other : Text) : Bool :=
  match m.glob with
  | some glob => G.isMatch glob other
  | none => eqIgnoreAsciiCase m.pattern other

/-- Matchers are compared by their patterns. -/
instance : DecidableEq (Matcher G) := fun m m' =>
  decidable_of_iff (m.pattern = m'.pattern) ⟨fun h => by
    obtain ⟨glob, pattern, rfl⟩ := m
    obtain ⟨glob', pattern', rfl⟩ := m'
    cases h
    rfl, congrArg pattern⟩

end Matcher

/-! ## Hosts -/

/-- A pattern for a port. -/
inductive Port where
  | none
  | pattern (port : Text)
  | fixed (port : UInt16)
  deriving DecidableEq

def Port.ofOption : Option UInt16 → Port
  | .some port => .fixed port
  | .none => .none

/-- The part of a text between the protocol and the path. -/
def preProcess (U : Unicode) (host : Text) : Text :=
  let (protocol, rest) := splitOnce "://".toList host
  let host := match rest with
    | some data => (splitOnce "://".toList data).1
    | none => protocol
  U.toLowercase (splitOnce ['/'] host).1

def hostString (hostname : Text) : Port → Text
  | .fixed port => hostname ++ ':' :: decimal port.toNat
  | .pattern port => hostname ++ ':' :: port
  | .none => hostname

/-- An allowed host. -/
structure Host (G : Globset) where
  hostname : Text
  port : Port
  asString : Text
  matcher : Matcher G
  asString_eq : asString = hostString hostname port
  matcher_eq : matcher = .new asString

namespace Host

variable {G : Globset} (U : Unicode)

def new (hostname : Text) (port : Port) : Host G :=
  let hostname := preProcess U hostname
  ⟨hostname, port, hostString hostname port, .new (hostString hostname port), rfl, rfl⟩

def parse (hostname : Text) : Host G :=
  let (host, rest) := splitOnce [':'] (preProcess U hostname)
  let port : Port := match rest with
    | none => .none
    | some rest =>
      let port := (splitOnce [':'] rest).1
      match parseU16 port with
      | some num => .fixed num
      | none => .pattern port
  new U host port

def matchesText (host : Host G) (other : Text) : Bool := host.matcher.matchesText other

instance : DecidableEq (Host G) := fun host host' =>
  decidable_of_iff (host.hostname = host'.hostname ∧ host.port = host'.port) ⟨fun h => by
    obtain ⟨hostname, port, asString, matcher, rfl, rfl⟩ := host
    obtain ⟨hostname', port', asString', matcher', rfl, rfl⟩ := host'
    obtain ⟨rfl, rfl⟩ : hostname = hostname' ∧ port = port' := h
    rfl, fun h => ⟨congrArg hostname h, congrArg port h⟩⟩

end Host

/-- The host header is allowed. -/
def isHostValid {G : Globset} (host : Option Text) (allowedHosts : Option (List (Host G))) : Bool :=
  match allowedHosts with
  | none => true
  | some allowedHosts =>
    match host with
    | none => false
    | some host => allowedHosts.any fun h => h.matchesText host

/-- The hosts with the address that the server is bound to. The order of the set is the order
in which the hosts are inserted. -/
def update {G : Globset} (U : Unicode) (hosts : Option (List (Host G))) (address : SocketAddr) :
    Option (List (Host G)) :=
  hosts.map fun currentHosts =>
    let newHosts := currentHosts.dedup
    let newHosts :=
      if address.ip = .v4 .unspecified then
        (newHosts.insert
          (.parse U (replace "0.0.0.0".toList "127.0.0.1".toList address.text))).insert
          (.parse U (replace "0.0.0.0".toList "localhost".toList address.text))
      else if address.ip = .v4 .localhost then
        newHosts.insert (.parse U (replace "127.0.0.1".toList "localhost".toList address.text))
      else newHosts
    newHosts.insert (.parse U address.text)

/-! ## What an update adds -/

section Update

variable {G : Globset} {U : Unicode} {hosts : List (Host G)} {a : SocketAddr}

theorem isHostValid_some_iff {header : Option Text} :
    isHostValid header (some hosts) = true ↔
      ∃ text, header = some text ∧ ∃ h ∈ hosts, h.matchesText text = true := by
  cases header with
  | none => simp [isHostValid]
  | some text => simp [isHostValid]

/-- The hosts after an update. -/
theorem exists_update_eq (U : Unicode) (hosts : List (Host G)) (a : SocketAddr) :
    ∃ updated, update U (some hosts) a = some updated ∧ Host.parse U a.text ∈ updated ∧
      (∀ h ∈ hosts, h ∈ updated) ∧
      (a.isIpv4 = false → ∀ h ∈ updated, h = .parse U a.text ∨ h ∈ hosts) := by
  refine ⟨_, rfl, List.mem_insert_self, fun h hmem => ?_, fun hv6 h hmem => ?_⟩
  · apply List.mem_insert_of_mem
    have hdedup := List.mem_dedup.mpr hmem
    split
    · exact List.mem_insert_of_mem (List.mem_insert_of_mem hdedup)
    · split
      · exact List.mem_insert_of_mem hdedup
      · exact hdedup
  · cases a with
    | v4 ip port => cases hv6
    | v6 ip port scopeId =>
      rcases List.mem_insert_iff.mp hmem with rfl | hmem
      · exact .inl rfl
      · rw [if_neg nofun, if_neg nofun, List.mem_dedup] at hmem
        exact .inr hmem

/-- An update keeps the headers that were accepted. -/
theorem isHostValid_update_of_isHostValid {header : Option Text}
    (h : isHostValid header (some hosts) = true) :
    isHostValid header (update U (some hosts) a) = true := by
  obtain ⟨updated, hupdate, -, hkept, -⟩ := exists_update_eq U hosts a
  obtain ⟨text, hheader, host, hmem, hmatches⟩ := isHostValid_some_iff.mp h
  rw [hupdate]
  exact isHostValid_some_iff.mpr ⟨text, hheader, host, hkept host hmem, hmatches⟩

end Update

/-! ## The text of an address as a host -/

/-- What the characters of an address are not. -/
theorem addressChars_spec {c : Char} (hc : c ∈ addressChars) :
    c ≠ '/' ∧ c ≠ '[' ∧ c ≠ ']' ∧ c.toNat < 128 ∧ c.toLower = c ∧ isMetachar c = false := by
  have hall : addressChars.all (fun c => c ≠ '/' ∧ c ≠ '[' ∧ c ≠ ']' ∧ c.toNat < 128 ∧
      c.toLower = c ∧ isMetachar c = false) = true := by decide
  exact of_decide_eq_true (List.all_eq_true.mp hall c hc)

/-- A text of ASCII characters in lower case is its own lower case. -/
theorem Unicode.toLowercase_eq_self (U : Unicode) {s : Text}
    (hs : ∀ c ∈ s, c.toNat < 128 ∧ c.toLower = c) : U.toLowercase s = s := by
  rw [U.ascii s fun c hc => (hs c hc).1]
  exact (List.map_congr_left fun c hc => (hs c hc).2).trans (List.map_id s)

theorem Unicode.toLowercase_of_all (U : Unicode) {s : Text}
    (hs : s.all (fun c => c.toNat < 128 ∧ c.toLower = c) = true) : U.toLowercase s = s :=
  U.toLowercase_eq_self fun c hc => of_decide_eq_true (List.all_eq_true.mp hs c hc)

/-- A text without a slash is not cut. -/
theorem preProcess_of_notMem {U : Unicode} {s : Text} (hs : '/' ∉ s) :
    preProcess U s = U.toLowercase s := by
  rw [preProcess, splitOnce_of_notMem (c := '/') (by decide) hs]
  dsimp only
  rw [splitOnce_of_notMem (c := '/') (by decide) hs]

/-- A text of address characters and brackets is its own name. -/
theorem preProcess_eq_self (U : Unicode) {s : Text}
    (hs : ∀ c ∈ s, c ∈ addressChars ∨ c = '[' ∨ c = ']') : preProcess U s = s := by
  have hchar : ∀ c ∈ s, c ≠ '/' ∧ c.toNat < 128 ∧ c.toLower = c := by
    intro c hc
    rcases hs c hc with hc | rfl | rfl
    · obtain ⟨hslash, -, -, hascii, hlower, -⟩ := addressChars_spec hc
      exact ⟨hslash, hascii, hlower⟩
    · decide
    · decide
  have hslash : '/' ∉ s := fun hmem => (hchar _ hmem).1 rfl
  exact (preProcess_of_notMem hslash).trans (U.toLowercase_eq_self fun c hc => (hchar c hc).2)

section Parse

variable {G : Globset} {U : Unicode}

theorem Host.matchesText_eq (host : Host G) (s : Text) :
    host.matchesText s = (Matcher.new (G := G) host.asString).matchesText s := by
  rw [matchesText, host.matcher_eq]

/-- A text of address characters and brackets is cut at its first colon. -/
theorem asString_parse {host rest : Text}
    (hs : ∀ c ∈ host ++ ':' :: rest, c ∈ addressChars ∨ c = '[' ∨ c = ']') (hhost : ':' ∉ host) :
    (Host.parse U (host ++ ':' :: rest) : Host G).asString =
      hostString host (match parseU16 (splitOnce [':'] rest).1 with
        | some num => .fixed num
        | none => .pattern (splitOnce [':'] rest).1) := by
  have hname := preProcess_eq_self U fun c hc => hs c (List.mem_append_left _ hc)
  rw [Host.parse, preProcess_eq_self U hs, splitOnce_append hhost]
  exact congrArg (hostString · _) hname

theorem Matcher.matchesText_of_build_eq_some {s : Text} {glob : G.Glob}
    (h : G.build s = some glob) (t : Text) :
    (Matcher.new s : Matcher G).matchesText t = G.isMatch glob t := by
  rw [Matcher.matchesText, Matcher.new]
  dsimp only
  rw [h]

theorem Matcher.matchesText_of_build_eq_none {s : Text} (h : G.build s = none) (t : Text) :
    (Matcher.new s : Matcher G).matchesText t = eqIgnoreAsciiCase s t := by
  rw [Matcher.matchesText, Matcher.new]
  dsimp only
  rw [h]

/-- A text without special characters matches itself. -/
theorem Matcher.matchesText_self {s : Text} (hs : ∀ c ∈ s, isMetachar c = false) :
    (Matcher.new s : Matcher G).matchesText s = true := by
  obtain ⟨glob, hbuild, hmatch⟩ := G.literal s hs
  rw [Matcher.matchesText_of_build_eq_some hbuild, hmatch, eqIgnoreAsciiCase_self]

/-- The text of an IPv4 address is parsed as itself, and matches itself. -/
theorem matchesText_parse_v4 (ip : Ipv4Addr) (port : UInt16) :
    (Host.parse U (SocketAddr.v4 ip port).text : Host G).matchesText (SocketAddr.v4 ip port).text =
      true := by
  have hcolon : ':' ∉ decimal port.toNat := fun hmem => (mem_addressChars_of_mem_decimal hmem).2 rfl
  have hparse : (Host.parse U (SocketAddr.v4 ip port).text : Host G).asString =
      (SocketAddr.v4 ip port).text := by
    refine (asString_parse (fun c hc => SocketAddr.mem_addressChars (a := .v4 ip port) hc)
      fun hmem => (Ipv4Addr.mem_addressChars hmem).2 rfl).trans ?_
    rw [splitOnce_of_notMem (List.mem_singleton_self _) hcolon]
    dsimp only
    rw [parseU16_decimal]
    rfl
  have hliteral : ∀ c ∈ (SocketAddr.v4 ip port).text, isMetachar c = false := by
    intro c hc
    rcases List.mem_append.mp hc with hc | hc
    · exact (addressChars_spec (Ipv4Addr.mem_addressChars hc).1).2.2.2.2.2
    · rcases List.mem_cons.mp hc with rfl | hc
      · decide
      · exact (addressChars_spec (mem_addressChars_of_mem_decimal hc).1).2.2.2.2.2
  rw [Host.matchesText_eq, hparse]
  exact Matcher.matchesText_self hliteral

/-- An address in brackets is parsed as the text up to its second colon. -/
theorem exists_asString_parse_bracket {address after : Text}
    (haddress : ∀ c ∈ address, c ∈ addressChars) (hcolons : 2 ≤ address.count ':')
    (hafter : ∀ c ∈ after, c ∈ addressChars) :
    ∃ rest, ']' ∉ rest ∧
      (Host.parse U ('[' :: (address ++ ']' :: after)) : Host G).asString = '[' :: rest := by
  obtain ⟨x, y, z, rfl, hx, hy⟩ := exists_eq_append_of_two_le_count hcolons
  have hxclosed : ']' ∉ x := fun hmem => (addressChars_spec (haddress _ (by simp [hmem]))).2.2.1 rfl
  have hyclosed : ']' ∉ y := fun hmem => (addressChars_spec (haddress _ (by simp [hmem]))).2.2.1 rfl
  have htext : '[' :: (x ++ ':' :: (y ++ ':' :: z) ++ ']' :: after) =
      ('[' :: x) ++ ':' :: (y ++ ':' :: (z ++ ']' :: after)) := by simp
  have hmem : ∀ c ∈ '[' :: (x ++ ':' :: (y ++ ':' :: z) ++ ']' :: after),
      c ∈ addressChars ∨ c = '[' ∨ c = ']' := by
    intro c hc
    rcases List.mem_cons.mp hc with rfl | hc
    · exact .inr (.inl rfl)
    · rcases List.mem_append.mp hc with hc | hc
      · exact .inl (haddress c hc)
      · rcases List.mem_cons.mp hc with rfl | hc
        · exact .inr (.inr rfl)
        · exact .inl (hafter c hc)
  rw [htext] at hmem ⊢
  rw [asString_parse hmem (by simp [hx]), splitOnce_append hy]
  dsimp only
  split
  · rename_i num _
    have hnum : ']' ∉ decimal num.toNat := fun hc =>
      (addressChars_spec (mem_addressChars_of_mem_decimal hc).1).2.2.1 rfl
    exact ⟨x ++ ':' :: decimal num.toNat, by simp [hxclosed, hnum], rfl⟩
  · exact ⟨x ++ ':' :: y, by simp [hxclosed, hyclosed], rfl⟩

/-- A pattern with an open bracket is no glob, and does not match a text with a closing
bracket. -/
theorem Matcher.matchesText_bracket {before rest text : Text}
    (hbefore : ∀ c ∈ before, isMetachar c = false) (hclosed : ']' ∉ before) (hrest : ']' ∉ rest)
    (htext : ']' ∈ text) :
    (Matcher.new (before ++ '[' :: rest) : Matcher G).matchesText text = false := by
  rw [Matcher.matchesText_of_build_eq_none (G.unclosed before rest hbefore hrest)]
  exact eqIgnoreAsciiCase_eq_false (by decide) (by simp [hclosed, hrest]) htext

/-- The text of an IPv6 address is parsed as a text that is no glob and does not match the
address. -/
theorem matchesText_parse_v6 (ip : Ipv6Addr) (port : UInt16) (scopeId : UInt32) :
    (Host.parse U (SocketAddr.v6 ip port scopeId).text : Host G).matchesText
      (SocketAddr.v6 ip port scopeId).text = false := by
  have hport : ∀ c ∈ ':' :: decimal port.toNat, c ∈ addressChars := by
    intro c hc
    rcases List.mem_cons.mp hc with rfl | hc
    · decide
    · exact (mem_addressChars_of_mem_decimal hc).1
  obtain ⟨rest, hrest, hparse⟩ := exists_asString_parse_bracket (G := G) (U := U)
    (fun c hc => SocketAddr.mem_addressChars_of_mem_scopedText hc)
    (SocketAddr.two_le_count_scopedText ip scopeId) hport
  rw [Host.matchesText_eq, SocketAddr.text, hparse]
  exact @Matcher.matchesText_bracket G [] _ _ nofun nofun hrest (by simp)

end Parse

/-! ## The address of the server -/

/-- **Binding address.** After an update with an address, the address itself is accepted if
and only if it is an IPv4 address or was accepted before. Every header that was accepted
before is still accepted. -/
theorem isHostValid_update_iff (G : Globset) (U : Unicode) (hosts : List (Host G))
    (a : SocketAddr) :
    (isHostValid (some a.text) (update U (some hosts) a) = true ↔
        a.isIpv4 = true ∨ isHostValid (some a.text) (some hosts) = true) ∧
      ∀ header, isHostValid header (some hosts) = true →
        isHostValid header (update U (some hosts) a) = true := by
  refine ⟨⟨fun hvalid => ?_, ?_⟩, fun header h => isHostValid_update_of_isHostValid h⟩
  · obtain ⟨updated, hupdate, -, -, hnew⟩ := exists_update_eq U hosts a
    rw [hupdate] at hvalid
    obtain ⟨text, heq, h, hmem, hmatches⟩ := isHostValid_some_iff.mp hvalid
    cases heq
    cases a with
    | v4 ip port => exact .inl rfl
    | v6 ip port scopeId =>
      right
      rcases hnew rfl h hmem with rfl | hmem
      · rw [matchesText_parse_v6] at hmatches
        cases hmatches
      · exact isHostValid_some_iff.mpr ⟨_, rfl, h, hmem, hmatches⟩
  · rintro (hv4 | hvalid)
    · obtain ⟨updated, hupdate, hself, -⟩ := exists_update_eq U hosts a
      rw [hupdate]
      cases a with
      | v4 ip port =>
        exact isHostValid_some_iff.mpr ⟨_, rfl, _, hself, matchesText_parse_v4 ip port⟩
      | v6 ip port scopeId => cases hv4
    · exact isHostValid_update_of_isHostValid hvalid

/-- Globs of literal characters only. -/
def literalGlobset : Globset where
  Glob := Text
  build pattern := if pattern.all (!isMetachar ·) then some pattern else none
  isMatch := eqIgnoreAsciiCase
  literal pattern hpattern := ⟨pattern, by simpa using hpattern, fun _ => rfl⟩
  unclosed before after _ _ := by
    have hbracket : isMetachar '[' = true := by decide
    simp [hbracket]

/-- Lower case in ASCII only. -/
def asciiUnicode : Unicode := ⟨List.map Char.toLower, fun _ _ => rfl⟩

/-- The socket address of the IPv6 loopback on port 80. -/
def loopback : SocketAddr := .v6 ⟨[0, 0, 0, 0, 0, 0, 0, 1], rfl⟩ 80 0

/-- A server that is bound to the IPv6 loopback, and allows its binding address only, allows
`[:` and not its address. -/
theorem isHostValid_update_loopback :
    loopback.text = "[::1]:80".toList ∧
      isHostValid (some loopback.text)
        (update asciiUnicode (some ([] : List (Host literalGlobset))) loopback) = false ∧
      isHostValid (some "[:".toList)
        (update asciiUnicode (some ([] : List (Host literalGlobset))) loopback) = true := by
  decide

end JsonRpc.ServerUtils
