import JsonRpc.ServerUtils.Normal

/-!
# Canonical origins

A browser sends the origin of a page in a canonical form. An origin with a name or an IPv4
address is parsed as itself, so the response names the origin of the request, and an allow
list of that origin allows it. An IPv6 address is written in brackets and has colons of its
own: it is cut at the second one, and the origin is not allowed by its own allow list.
-/

namespace JsonRpc.ServerUtils

open Text

/-- The characters of a scheme. -/
def schemeChars : Text := "abcdefghijklmnopqrstuvwxyz0123456789+-.".toList

/-- The characters of the name of a host. -/
def nameChars : Text := "abcdefghijklmnopqrstuvwxyz0123456789-_.".toList

/-- The host of a canonical origin. An IPv4 address is a name. -/
inductive CanonicalHost where
  | name (hostname : Text) (hname : ∀ c ∈ hostname, c ∈ nameChars)
  | ipv6 (address : Text) (haddress : ∀ c ∈ address, c ∈ addressChars)
      (hcolons : 2 ≤ address.count ':')

/-- An origin as browsers send it. -/
structure CanonicalOrigin where
  scheme : Text
  scheme_chars : ∀ c ∈ scheme, c ∈ schemeChars
  host : CanonicalHost
  port : Option UInt16

namespace CanonicalHost

/-- The host of an IPv6 address. -/
def ofIpv6 (ip : Ipv6Addr) : CanonicalHost :=
  .ipv6 ip.text (fun _ hc => Ipv6Addr.mem_addressChars hc) ip.two_le_count_text

def isIpv6 : CanonicalHost → Bool
  | name _ _ => false
  | ipv6 _ _ _ => true

def text : CanonicalHost → Text
  | name hostname _ => hostname
  | ipv6 address _ _ => '[' :: (address ++ [']'])

end CanonicalHost

namespace CanonicalOrigin

/-- The text of a port. -/
def portText : Option UInt16 → Text
  | none => []
  | some port => ':' :: decimal port.toNat

def text (o : CanonicalOrigin) : Text :=
  o.scheme ++ "://".toList ++ (o.host.text ++ portText o.port)

/-! ## Characters -/

/-- What the characters of a scheme and of a name are not. -/
theorem canonicalChars_spec {c : Char} (hc : c ∈ schemeChars ∨ c ∈ nameChars) :
    c ≠ '/' ∧ c ≠ ':' ∧ c.toNat < 128 ∧ c.toLower = c ∧ isMetachar c = false := by
  have hall : (schemeChars ++ nameChars).all (fun c => c ≠ '/' ∧ c ≠ ':' ∧ c.toNat < 128 ∧
      c.toLower = c ∧ isMetachar c = false) = true := by decide
  exact of_decide_eq_true (List.all_eq_true.mp hall c (List.mem_append.mpr hc))

theorem mem_addressChars_of_mem_portText {port : Option UInt16} {c : Char}
    (hc : c ∈ portText port) : c ∈ addressChars := by
  cases port with
  | none => cases hc
  | some port =>
    rcases List.mem_cons.mp hc with rfl | hc
    · decide
    · exact (mem_addressChars_of_mem_decimal hc).1

variable {G : Globset} {U : Unicode} (o : CanonicalOrigin)

/-! ## Names -/

/-- The origin of a name, made of its parts. -/
def named (U : Unicode) (name : Text) : Origin G :=
  .new U (Origin.protocolOf o.scheme) name (.ofOption o.port)

theorem scheme_spec {c : Char} (hc : c ∈ o.scheme) :
    c ≠ '/' ∧ c ≠ ':' ∧ c.toNat < 128 ∧ c.toLower = c ∧ isMetachar c = false :=
  canonicalChars_spec (.inl (o.scheme_chars c hc))

theorem toLowercase_scheme (U : Unicode) : U.toLowercase o.scheme = o.scheme := by
  refine U.toLowercase_eq_self fun c hc => ?_
  obtain ⟨-, -, hascii, hlower, -⟩ := o.scheme_spec hc
  exact ⟨hascii, hlower⟩

theorem not_infix_scheme : ¬ "://".toList <:+: o.scheme := fun hpart =>
  (o.scheme_spec (hpart.subset (by decide : '/' ∈ "://".toList))).1 rfl

section Named

variable {name : Text} (hname : ∀ c ∈ name, c ∈ nameChars)

include hname

theorem name_spec {c : Char} (hc : c ∈ name) :
    c ≠ '/' ∧ c ≠ ':' ∧ c.toNat < 128 ∧ c.toLower = c ∧ isMetachar c = false :=
  canonicalChars_spec (.inr (hname c hc))

theorem toLowercase_name (U : Unicode) : U.toLowercase name = name := by
  refine U.toLowercase_eq_self fun c hc => ?_
  obtain ⟨-, -, hascii, hlower, -⟩ := name_spec hname hc
  exact ⟨hascii, hlower⟩

theorem hostname_named : (o.named U name : Origin G).host.hostname = name := by
  have hslash : '/' ∉ name := fun hmem => (name_spec hname hmem).1 rfl
  exact (preProcess_of_notMem hslash).trans (toLowercase_name hname U)

theorem hostString_named :
    (o.named U name : Origin G).host.asString = name ++ portText o.port := by
  have hport : (o.named U name : Origin G).host.port = .ofOption o.port := rfl
  rw [Host.asString_eq, o.hostname_named hname, hport]
  cases o.port with
  | none => exact (List.append_nil name).symm
  | some port => rfl

theorem asString_named :
    (o.named U name : Origin G).asString =
      o.scheme ++ "://".toList ++ (name ++ portText o.port) := by
  rw [← o.hostString_named (G := G) (U := U) hname]
  exact Origin.originString_protocolOf o.scheme _

/-- The characters of the host are in lower case, and none of them is a slash. -/
theorem hostString_spec {c : Char} (hc : c ∈ name ++ portText o.port) :
    c ≠ '/' ∧ c.toNat < 128 ∧ c.toLower = c := by
  rcases List.mem_append.mp hc with hc | hc
  · obtain ⟨hslash, -, hascii, hlower, -⟩ := name_spec hname hc
    exact ⟨hslash, hascii, hlower⟩
  · obtain ⟨hslash, -, -, hascii, hlower, -⟩ :=
      addressChars_spec (mem_addressChars_of_mem_portText hc)
    exact ⟨hslash, hascii, hlower⟩

theorem isNormal_named : (o.named U name : Origin G).IsNormal U := by
  constructor
  · constructor
    · rw [o.hostname_named hname]
      exact fun hmem => (name_spec hname hmem).2.1 rfl
    · rw [o.hostString_named hname]
      exact fun hmem => (o.hostString_spec hname hmem).1 rfl
    · rw [o.hostname_named hname]
      exact toLowercase_name hname U
    · rw [o.hostString_named hname]
      exact U.toLowercase_eq_self fun c hc => (o.hostString_spec hname hc).2
    · intro p hp
      have hpattern : ∀ number, Port.ofOption number ≠ .pattern p := by
        rintro (_ | number) h <;> cases h
      exact absurd hp (hpattern o.port)
  · intro p hp
    obtain ⟨rfl, hhttp, hhttps⟩ := Origin.eq_of_protocolOf_eq_custom hp
    exact ⟨o.toLowercase_scheme U, o.not_infix_scheme, hhttp, hhttps⟩

/-- The origin of a name is parsed as itself. -/
theorem parse_named : Origin.parse U (o.scheme ++ "://".toList ++ (name ++ portText o.port)) =
    (o.named U name : Origin G) := by
  rw [← o.asString_named (G := G) (U := U) hname]
  exact (o.isNormal_named hname).parse_eq

end Named

/-- A scheme has no special characters. -/
theorem isMetachar_scheme : ∀ c ∈ o.scheme ++ "://".toList, isMetachar c = false := by
  intro c hc
  rcases List.mem_append.mp hc with hc | hc
  · exact (o.scheme_spec hc).2.2.2.2
  · exact isMetachar_of_mem_separator hc

/-- The text of an origin with a name has no special characters. -/
theorem isMetachar_named {name : Text} (hname : ∀ c ∈ name, c ∈ nameChars) :
    ∀ c ∈ o.scheme ++ "://".toList ++ (name ++ portText o.port), isMetachar c = false := by
  intro c hc
  rcases List.mem_append.mp hc with hc | hc
  · exact o.isMetachar_scheme c hc
  · rcases List.mem_append.mp hc with hc | hc
    · exact (name_spec hname hc).2.2.2.2
    · exact (addressChars_spec (mem_addressChars_of_mem_portText hc)).2.2.2.2.2

/-! ## Addresses in brackets -/

/-- A scheme is cut off, and is in lower case. -/
theorem parse_scheme {host : Text} (hhost : '/' ∉ host) :
    (Origin.parse U (o.scheme ++ "://".toList ++ host) : Origin G) =
      .withHost (Origin.protocolOf o.scheme) (.parse U host) := by
  rw [Origin.parse_of_splitOnce_some (splitOnce_protocol o.not_infix_scheme),
    o.toLowercase_scheme, splitOnce_of_notMem (c := '/') (by decide) hhost]

/-- An origin with an IPv6 address is parsed as a text with an open bracket. -/
theorem exists_asString_parse_ipv6 {address : Text} (haddress : ∀ c ∈ address, c ∈ addressChars)
    (hcolons : 2 ≤ address.count ':') (htext : o.host.text = '[' :: (address ++ [']'])) :
    ∃ rest, ']' ∉ rest ∧
      (Origin.parse U o.text : Origin G).asString = o.scheme ++ "://".toList ++ '[' :: rest := by
  have hport : ∀ c ∈ portText o.port, c ∈ addressChars := fun c hc =>
    mem_addressChars_of_mem_portText hc
  have hhost : o.host.text ++ portText o.port = '[' :: (address ++ ']' :: portText o.port) := by
    simp [htext]
  have hslash : '/' ∉ '[' :: (address ++ ']' :: portText o.port) := by
    intro hmem
    rcases List.mem_cons.mp hmem with hmem | hmem
    · cases hmem
    · rcases List.mem_append.mp hmem with hmem | hmem
      · exact (addressChars_spec (haddress _ hmem)).1 rfl
      · rcases List.mem_cons.mp hmem with hmem | hmem
        · cases hmem
        · exact (addressChars_spec (hport _ hmem)).1 rfl
  obtain ⟨rest, hrest, hparse⟩ :=
    exists_asString_parse_bracket (G := G) (U := U) haddress hcolons hport
  rw [text, hhost, o.parse_scheme hslash]
  refine ⟨rest, hrest, ?_⟩
  rw [← hparse]
  exact Origin.originString_protocolOf o.scheme _

/-! ## The verdict on a canonical origin -/

theorem text_ne_null : o.text ≠ "null".toList := by
  intro hnull
  have hmem : ':' ∈ o.text := by simp [text]
  rw [hnull] at hmem
  revert hmem
  decide

/-- **Canonical origins.** A canonical origin is parsed as itself, and an allow list of it does
not judge it invalid, if and only if its host is not an IPv6 address. -/
theorem asString_parse_iff (G : Globset) (U : Unicode) (o : CanonicalOrigin) :
    ((Origin.parse U o.text : Origin G).asString = o.text ↔ o.host.isIpv6 = false) ∧
      ((∀ host, (getCorsAllowOrigin U (some o.text) host
        (some [.value (Origin.parse U o.text : Origin G)])).isInvalid = false) ↔
          o.host.isIpv6 = false) := by
  cases hhost : o.host with
  | name hostname hname =>
    have htext : o.text = o.scheme ++ "://".toList ++ (hostname ++ portText o.port) := by
      rw [text, hhost]
      rfl
    have hstring : (Origin.parse U o.text : Origin G).asString = o.text := by
      rw [htext, o.parse_named hname, o.asString_named hname]
    refine ⟨iff_of_true hstring rfl, iff_of_true (fun host => ?_) rfl⟩
    by_cases hsame : IsSameServer G U o.text host
    · rw [getCorsAllowOrigin_of_isSameServer hsame]
      rfl
    · rw [isInvalid_getCorsAllowOrigin_value hsame o.text_ne_null, Origin.matchesText_eq, hstring,
        Matcher.matchesText_self (htext ▸ o.isMetachar_named hname)]
      rfl
  | ipv6 address haddress hcolons =>
    obtain ⟨rest, hrest, hstring⟩ := o.exists_asString_parse_ipv6 (G := G) (U := U) haddress
      hcolons (by rw [hhost]; rfl)
    have hclosed : ']' ∈ o.text := by
      rw [text, hhost]
      simp [CanonicalHost.text]
    have hscheme : ']' ∉ o.scheme ++ "://".toList := fun hmem =>
      absurd (o.isMetachar_scheme _ hmem) (by decide)
    have hmatch : (Origin.parse U o.text : Origin G).matchesText o.text = false := by
      rw [Origin.matchesText_eq, hstring]
      exact Matcher.matchesText_bracket o.isMetachar_scheme hscheme hrest hclosed
    refine ⟨iff_of_false (fun heq => ?_) Bool.noConfusion,
      iff_of_false (fun hvalid => ?_) Bool.noConfusion⟩
    · rw [← heq, hstring] at hclosed
      rcases List.mem_append.mp hclosed with hmem | hmem
      · exact hscheme hmem
      · rcases List.mem_cons.mp hmem with hmem | hmem
        · cases hmem
        · exact hrest hmem
    · -- Without a host header, the origin is not that of the server.
      have hnone := hvalid none
      rw [isInvalid_getCorsAllowOrigin_value not_isSameServer_none o.text_ne_null, hmatch] at hnone
      cases hnone

/-- An origin with an IPv6 address. -/
def ipv6Origin : CanonicalOrigin where
  scheme := "http".toList
  scheme_chars c hc := by
    have hall : "http".toList.all (· ∈ schemeChars) = true := by decide
    exact of_decide_eq_true (List.all_eq_true.mp hall c hc)
  host := .ofIpv6 ⟨[0x2001, 0xdb8, 0, 0, 0, 0, 0, 1], rfl⟩
  port := some 8080

/-- An origin with an IPv6 address is cut in the address, and is not allowed by its own allow
list. -/
theorem isInvalid_ipv6Origin :
    ipv6Origin.text = "http://[2001:db8::1]:8080".toList ∧
      (Origin.parse asciiUnicode ipv6Origin.text : Origin literalGlobset).asString =
        "http://[2001:db8".toList ∧
      (getCorsAllowOrigin asciiUnicode (some ipv6Origin.text)
        (some "[2001:db8::1]:8080".toList) (some
          [.value (.parse asciiUnicode ipv6Origin.text : Origin literalGlobset)])).isInvalid =
            true := by
  decide

end CanonicalOrigin

end JsonRpc.ServerUtils
