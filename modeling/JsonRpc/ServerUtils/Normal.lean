import JsonRpc.ServerUtils.Cors

/-!
# Normal forms of hosts and origins

Parsing a host drops its protocol, its path and what follows its port, and puts it into lower
case. Parsing an origin does the same and keeps the protocol. What is left has no piece that
would be dropped, so parsing it again changes nothing, and a parsed host or origin is
determined by its text.
-/

namespace JsonRpc.ServerUtils

open Text

/-! ## Lower case -/

/-- A character becomes some characters in lower case. Only a separator becomes a separator. -/
def IsLowercaseOf (c : Char) (part : Text) : Prop :=
  part ≠ [] ∧ ∀ sep ∈ [':', '/'], sep ∈ part → part = [c]

/-- The library of characters, with what it says about lower case. -/
structure Lowercasing extends Unicode where
  /-- Characters that are in lower case stay as they are. -/
  fixed : ∀ s : Text, (∀ c ∈ s, ∃ t, c ∈ toLowercase t) → toLowercase s = s
  separators : ∀ s : Text, ∃ parts : List Text,
    toLowercase s = parts.flatten ∧ List.Forall₂ IsLowercaseOf s parts

section Separators

variable {s x y : Text} {sep : Char} {parts : List Text}

/-- A separator at the front comes from a separator at the front. -/
theorem head_of_flatten_eq (h : List.Forall₂ IsLowercaseOf s parts) (hsep : sep ∈ [':', '/'])
    (hflatten : parts.flatten = sep :: y) :
    ∃ b parts', s = sep :: b ∧ List.Forall₂ IsLowercaseOf b parts' ∧ parts'.flatten = y := by
  cases h with
  | nil => cases hflatten
  | @cons c part b parts' hpart hrest =>
    obtain ⟨d, part, rfl⟩ := List.exists_cons_of_ne_nil hpart.1
    obtain ⟨rfl, htail⟩ := List.cons.inj hflatten
    obtain ⟨rfl, rfl⟩ := List.cons.inj (hpart.2 d hsep (List.mem_cons_self ..))
    exact ⟨b, parts', rfl, hrest, htail⟩

/-- A separator comes from a separator, and what follows it from what follows that. -/
theorem exists_of_flatten_eq (h : List.Forall₂ IsLowercaseOf s parts) (hsep : sep ∈ [':', '/'])
    (hflatten : parts.flatten = x ++ sep :: y) :
    ∃ a b parts', s = a ++ sep :: b ∧ List.Forall₂ IsLowercaseOf b parts' ∧
      parts'.flatten = y := by
  induction h generalizing x with
  | nil => simp at hflatten
  | @cons c part s parts hpart hrest ih =>
    rw [List.flatten_cons, List.append_eq_append_iff] at hflatten
    rcases hflatten with ⟨z, rfl, hz⟩ | ⟨z, rfl, hz⟩
    · obtain ⟨a, b, parts', rfl, hb, hy⟩ := ih hz
      exact ⟨c :: a, b, parts', rfl, hb, hy⟩
    · cases z with
      | nil =>
        obtain ⟨a, b, parts', rfl, hb, hy⟩ := ih (x := []) hz.symm
        exact ⟨c :: a, b, parts', rfl, hb, hy⟩
      | cons d z =>
        obtain ⟨rfl, rfl⟩ := List.cons.inj hz
        have hsingle := hpart.2 sep hsep (by simp)
        obtain ⟨rfl, hcons⟩ := List.append_eq_singleton_iff.mp hsingle |>.resolve_right (by simp)
        obtain ⟨rfl, rfl⟩ := List.cons.inj hcons
        exact ⟨[], s, parts, rfl, hrest, rfl⟩

end Separators

namespace Lowercasing

variable (U : Lowercasing) {s : Text}

theorem notMem_toLowercase {sep : Char} (hsep : sep ∈ [':', '/']) (hs : sep ∉ s) :
    sep ∉ U.toLowercase s := by
  intro hmem
  obtain ⟨x, y, hxy⟩ := List.append_of_mem hmem
  obtain ⟨parts, hparts, hforall⟩ := U.separators s
  obtain ⟨a, b, -, rfl, -, -⟩ := exists_of_flatten_eq hforall hsep (hparts.symm.trans hxy)
  exact hs (by simp)

/-- Lower case brings about no protocol. -/
theorem not_infix_toLowercase (hs : ¬ "://".toList <:+: s) :
    ¬ "://".toList <:+: U.toLowercase s := by
  rintro ⟨x, y, hxy⟩
  obtain ⟨parts, hparts, hforall⟩ := U.separators s
  have hflatten : parts.flatten = x ++ ':' :: '/' :: '/' :: y := by
    rw [← hparts, ← hxy]
    simp
  obtain ⟨a, b, parts₁, rfl, hforall₁, hflatten₁⟩ :=
    exists_of_flatten_eq hforall (by simp) hflatten
  obtain ⟨b₁, parts₂, rfl, hforall₂, hflatten₂⟩ := head_of_flatten_eq hforall₁ (by simp) hflatten₁
  obtain ⟨b₂, parts₃, rfl, -, -⟩ := head_of_flatten_eq hforall₂ (by simp) hflatten₂
  exact hs ⟨a, b₂, by simp⟩

/-- A character is in lower case. -/
def IsLower (c : Char) : Prop := ∃ t, c ∈ U.toLowercase t

theorem isLower_of_ascii {c : Char} (hascii : c.toNat < 128) (hlower : c.toLower = c) :
    U.IsLower c := by
  refine ⟨[c], ?_⟩
  rw [U.ascii [c] (by simpa using hascii)]
  simp [hlower]

end Lowercasing

/-! ## Hosts -/

section Hosts

variable {G : Globset} {U : Unicode}

/-- What is left of a text is in lower case, and has no slash. -/
theorem exists_preProcess_eq (U : Unicode) (s : Text) :
    ∃ c, preProcess U s = U.toLowercase c ∧ '/' ∉ c :=
  ⟨_, rfl, notMem_splitOnce_fst⟩

namespace Host

/-- The text of a port is read as the port. -/
def portOf (port : Text) : Port :=
  match parseU16 port with
  | some num => .fixed num
  | none => .pattern port

/-- A text without a colon is a name. -/
theorem parse_of_notMem {s name : Text} (hs : preProcess U s = name) (hname : ':' ∉ name) :
    (Host.parse U s : Host G) = .new U name .none := by
  rw [Host.parse, hs, splitOnce_of_notMem (List.mem_singleton_self _) hname]

/-- A text with a colon is cut there, and what follows is cut at the next colon. -/
theorem parse_of_append {s name rest : Text} (hs : preProcess U s = name ++ ':' :: rest)
    (hname : ':' ∉ name) :
    (Host.parse U s : Host G) = .new U name (portOf (splitOnce [':'] rest).1) := by
  rw [Host.parse, hs, splitOnce_append hname]
  rfl

/-- Nothing of the text of a host is dropped or rewritten. -/
structure IsNormal (U : Unicode) (host : Host G) : Prop where
  colon : ':' ∉ host.hostname
  slash : '/' ∉ host.asString
  hostname : U.toLowercase host.hostname = host.hostname
  asString : U.toLowercase host.asString = host.asString
  port : ∀ port, host.port = .pattern port → ':' ∉ port ∧ parseU16 port = none

theorem mem_hostString {hostname : Text} {port : Port} {c : Char} (hc : c ∈ hostname) :
    c ∈ hostString hostname port := by
  cases port with
  | none => exact hc
  | fixed num | pattern port => exact List.mem_append_left _ hc

/-- A normal host is made from its name and its port. -/
theorem IsNormal.new_eq {host : Host G} (h : host.IsNormal U) :
    .new U host.hostname host.port = host := by
  have hslash : '/' ∉ host.hostname := fun hmem => h.slash (host.asString_eq ▸ mem_hostString hmem)
  have hname := (preProcess_of_notMem hslash).trans h.hostname
  obtain ⟨hostname, port, asString, matcher, rfl, rfl⟩ := host
  unfold new
  simp only [hname]

/-- A normal host is parsed from its text. -/
theorem IsNormal.parse_eq {host : Host G} (h : host.IsNormal U) :
    .parse U host.asString = host := by
  have htext : preProcess U host.asString = hostString host.hostname host.port := by
    rw [preProcess_of_notMem h.slash, h.asString, host.asString_eq]
  refine Eq.trans ?_ h.new_eq
  cases hport : host.port with
  | none =>
    rw [hport] at htext
    exact parse_of_notMem htext h.colon
  | fixed num =>
    have hdigits : ':' ∉ decimal num.toNat :=
      fun hmem => (mem_addressChars_of_mem_decimal hmem).2 rfl
    rw [hport] at htext
    rw [parse_of_append htext h.colon, splitOnce_of_notMem (List.mem_singleton_self _) hdigits,
      portOf, parseU16_decimal]
  | pattern port =>
    obtain ⟨hcolon, hnum⟩ := h.port port hport
    rw [hport] at htext
    rw [parse_of_append htext h.colon, splitOnce_of_notMem (List.mem_singleton_self _) hcolon,
      portOf, hnum]

/-- The characters of a parsed host are in lower case, and none of them is a slash. -/
def IsClean (U : Lowercasing) (s : Text) : Prop := ∀ c ∈ s, U.IsLower c ∧ c ≠ '/'

theorem isClean_append {U : Lowercasing} {s t : Text} (hs : IsClean U s) (ht : IsClean U t) :
    IsClean U (s ++ ':' :: t) := by
  intro c hc
  rcases List.mem_append.mp hc with hc | hc
  · exact hs c hc
  · rcases List.mem_cons.mp hc with rfl | hc
    · exact ⟨U.isLower_of_ascii (by decide) (by decide), by decide⟩
    · exact ht c hc

theorem isClean_decimal (U : Lowercasing) (n : ℕ) : IsClean U (decimal n) := by
  intro c hc
  obtain ⟨hslash, -, -, hascii, hlower, -⟩ :=
    addressChars_spec (mem_addressChars_of_mem_decimal hc).1
  exact ⟨U.isLower_of_ascii hascii hlower, hslash⟩

/-- A host from clean texts is normal. -/
theorem isNormal_new {U : Lowercasing} {name : Text} {port : Port} (hclean : IsClean U name)
    (hcolon : ':' ∉ name) (hport : ∀ p, port = .pattern p → IsClean U p ∧ ':' ∉ p ∧
      parseU16 p = none) :
    (Host.new U.toUnicode name port : Host G).IsNormal U.toUnicode := by
  have hfixed {s : Text} (hs : IsClean U s) : U.toLowercase s = s :=
    U.fixed s fun c hc => (hs c hc).1
  have hname : (Host.new U.toUnicode name port : Host G).hostname = name :=
    (preProcess_of_notMem fun hmem => (hclean _ hmem).2 rfl).trans (hfixed hclean)
  have htext : (Host.new U.toUnicode name port : Host G).asString = hostString name port :=
    congrArg (hostString · port) hname
  have hstring : IsClean U (hostString name port) := by
    cases port with
    | none => exact hclean
    | fixed num => exact isClean_append hclean (isClean_decimal U num.toNat)
    | pattern p => exact isClean_append hclean (hport p rfl).1
  refine ⟨?_, ?_, ?_, ?_, fun p hp => (hport p hp).2⟩
  · rwa [hname]
  · rw [htext]
    exact fun hmem => (hstring _ hmem).2 rfl
  · rw [hname, hfixed hclean]
  · rw [htext, hfixed hstring]

/-- A parsed host is normal. -/
theorem isNormal_parse (U : Lowercasing) (s : Text) :
    (Host.parse U.toUnicode s : Host G).IsNormal U.toUnicode := by
  obtain ⟨text, htext, hslash⟩ := exists_preProcess_eq U.toUnicode s
  have hclean : IsClean U (U.toLowercase text) := fun c hc =>
    ⟨⟨text, hc⟩, fun h => U.notMem_toLowercase (by simp) hslash (h ▸ hc)⟩
  by_cases hmem : ':' ∈ U.toLowercase text
  · obtain ⟨name, rest, happend, hname⟩ := List.eq_append_cons_of_mem hmem
    have hport : (splitOnce [':'] rest).1 <+: rest := splitOnce_fst_isPrefix
    rw [parse_of_append (htext.trans happend) hname]
    rw [happend] at hclean
    refine isNormal_new (fun c hc => hclean c (by simp [hc])) hname fun p hp => ?_
    unfold portOf at hp
    split at hp
    · cases hp
    · rename_i hnum
      cases hp
      exact ⟨fun c hc => hclean c (by simp [hport.subset hc]), notMem_splitOnce_fst, hnum⟩
  · rw [parse_of_notMem htext hmem]
    exact isNormal_new hclean hmem nofun

end Host

end Hosts

/-! ## Origins -/

section Origins

variable {G : Globset} {U : Unicode}

/-- A text is cut at the first protocol. -/
theorem splitOnce_protocol {p s : Text} (hp : ¬ "://".toList <:+: p) :
    splitOnce "://".toList (p ++ "://".toList ++ s) = (p, some s) := by
  induction p with
  | nil => rfl
  | cons c p ih =>
    have hno : ¬ "://".toList <+: c :: (p ++ "://".toList ++ s) := by
      intro hpre
      match p with
      | [] => simp at hpre
      | [d] => simp at hpre
      | d :: e :: p =>
        obtain ⟨rest, hrest⟩ := hpre
        have hchars : ':' :: '/' :: '/' :: rest = c :: d :: e :: (p ++ "://".toList ++ s) := hrest
        cases hchars
        exact hp ⟨[], p, rfl⟩
    have hrest : ¬ "://".toList <:+: p :=
      fun hpart => hp (hpart.trans (List.suffix_cons c p).isInfix)
    rw [List.cons_append, List.cons_append, splitOnce, if_neg hno, ih hrest]

theorem isMetachar_of_mem_separator {c : Char} (hc : c ∈ "://".toList) : isMetachar c = false := by
  have hall : "://".toList.all (isMetachar · = false) = true := by decide
  exact of_decide_eq_true (List.all_eq_true.mp hall c hc)

namespace Origin

theorem matchesText_eq (origin : Origin G) (s : Text) :
    origin.matchesText s = (Matcher.new (G := G) origin.asString).matchesText s := by
  rw [matchesText, origin.matcher_eq]

/-- The text of a protocol is read as the protocol. -/
def protocolOf (proto : Text) : OriginProtocol :=
  if proto = "http".toList then .http
  else if proto = "https".toList then .https
  else .custom proto

theorem eq_of_protocolOf_eq_custom {proto p : Text} (h : protocolOf proto = .custom p) :
    proto = p ∧ p ≠ "http".toList ∧ p ≠ "https".toList := by
  unfold protocolOf at h
  split at h
  · cases h
  · split at h
    · cases h
    · rename_i hhttp hhttps
      cases h
      exact ⟨rfl, hhttp, hhttps⟩

theorem originString_protocolOf (proto : Text) (host : Host G) :
    originString (protocolOf proto) host = proto ++ "://".toList ++ host.asString := by
  unfold protocolOf
  split
  · rename_i hhttp
    rw [hhttp]
    rfl
  · split
    · rename_i hhttps
      rw [hhttps]
      rfl
    · rfl

/-- A text is cut at the first protocol, and what follows is cut at the next. -/
theorem parse_of_splitOnce_some {s proto rest : Text}
    (hs : splitOnce "://".toList s = (proto, some rest)) :
    (Origin.parse U s : Origin G) = .withHost (protocolOf (U.toLowercase proto))
      (.parse U (splitOnce "://".toList rest).1) := by
  rw [Origin.parse, hs]
  unfold protocolOf
  dsimp only
  split
  · rfl
  · split <;> rfl

/-- A text without a protocol is a host. -/
theorem parse_of_splitOnce_none {s proto : Text}
    (hs : splitOnce "://".toList s = (proto, none)) :
    (Origin.parse U s : Origin G) = .withHost .http (.parse U proto) := by
  rw [Origin.parse, hs]

/-- Nothing of the text of an origin is dropped or rewritten. -/
structure IsNormal (U : Unicode) (origin : Origin G) : Prop where
  host : origin.host.IsNormal U
  protocol : ∀ p, origin.protocol = .custom p →
    U.toLowercase p = p ∧ ¬ "://".toList <:+: p ∧ p ≠ "http".toList ∧ p ≠ "https".toList

/-- A normal origin is parsed from its text. -/
theorem IsNormal.parse_eq {origin : Origin G} (h : origin.IsNormal U) :
    .parse U origin.asString = origin := by
  obtain ⟨protocol, host, asString, matcher, rfl, rfl⟩ := origin
  have hhost : splitOnce "://".toList host.asString = (host.asString, none) :=
    splitOnce_of_notMem (c := '/') (by decide) h.host.slash
  -- The text of the protocol is read as the protocol.
  have hproto {p : Text} (hp : ¬ "://".toList <:+: p) (hlower : U.toLowercase p = p)
      (hof : protocolOf p = protocol) :
      (Origin.parse U (p ++ "://".toList ++ host.asString) : Origin G) =
        .withHost protocol host := by
    rw [parse_of_splitOnce_some (splitOnce_protocol hp), hlower, hof, hhost, h.host.parse_eq]
  cases protocol with
  | http => exact hproto (by decide) (U.toLowercase_of_all (by decide)) (by decide)
  | https => exact hproto (by decide) (U.toLowercase_of_all (by decide)) (by decide)
  | custom p =>
    obtain ⟨hlower, hp, hhttp, hhttps⟩ := h.protocol p rfl
    refine hproto hp hlower ?_
    rw [protocolOf, if_neg hhttp, if_neg hhttps]

/-- A parsed origin is normal. -/
theorem isNormal_parse (U : Lowercasing) (s : Text) :
    (Origin.parse U.toUnicode s : Origin G).IsNormal U.toUnicode := by
  cases hs : splitOnce "://".toList s with
  | mk proto rest =>
    cases rest with
    | none =>
      rw [parse_of_splitOnce_none hs]
      exact ⟨Host.isNormal_parse U _, nofun⟩
    | some rest =>
      rw [parse_of_splitOnce_some hs]
      refine ⟨Host.isNormal_parse U _, fun p hp => ?_⟩
      have hproto : ¬ "://".toList <:+: proto := by
        have hfst := @not_infix_splitOnce_fst "://".toList s (by decide)
        rwa [hs] at hfst
      obtain ⟨rfl, hhttp, hhttps⟩ := eq_of_protocolOf_eq_custom hp
      exact ⟨U.fixed _ fun c hc => ⟨proto, hc⟩, U.not_infix_toLowercase hproto, hhttp, hhttps⟩

end Origin

end Origins

/-- **Normal forms.** Parsing a parsed host or origin again changes nothing, so parsed hosts
and parsed origins are equal if and only if their texts are. -/
theorem parse_parse (G : Globset) (U : Lowercasing) (s t : Text) :
    Host.parse U.toUnicode (Host.parse U.toUnicode s : Host G).asString =
        (Host.parse U.toUnicode s : Host G) ∧
      Origin.parse U.toUnicode (Origin.parse U.toUnicode s : Origin G).asString =
        (Origin.parse U.toUnicode s : Origin G) ∧
      ((Host.parse U.toUnicode s : Host G) = Host.parse U.toUnicode t ↔
        (Host.parse U.toUnicode s : Host G).asString =
          (Host.parse U.toUnicode t : Host G).asString) ∧
      ((Origin.parse U.toUnicode s : Origin G) = Origin.parse U.toUnicode t ↔
        (Origin.parse U.toUnicode s : Origin G).asString =
          (Origin.parse U.toUnicode t : Origin G).asString) := by
  have hhost (s : Text) := (Host.isNormal_parse (G := G) U s).parse_eq
  have horigin (s : Text) := (Origin.isNormal_parse (G := G) U s).parse_eq
  refine ⟨hhost s, horigin s, ⟨congrArg Host.asString, fun heq => ?_⟩,
    ⟨congrArg Origin.asString, fun heq => ?_⟩⟩
  · rw [← hhost s, heq, hhost t]
  · rw [← horigin s, heq, horigin t]

/-- Lower case in ASCII only. -/
def asciiLowercasing : Lowercasing where
  toUnicode := asciiUnicode
  fixed s hs := by
    refine (List.map_congr_left fun c hc => ?_).trans (List.map_id s)
    obtain ⟨t, ht⟩ := hs c hc
    obtain ⟨d, -, rfl⟩ := List.mem_map.mp ht
    exact toLower_toLower d
  separators s := by
    refine ⟨s.map fun c => [c.toLower], ?_, ?_⟩
    · induction s with
      | nil => rfl
      | cons c s ih => exact congrArg (c.toLower :: ·) ih
    · refine List.forall₂_map_right_iff.mpr (List.forall₂_same.mpr fun c _ => ⟨by simp, ?_⟩)
      intro sep hsep hmem
      have hlt : sep < 'a' := by
        rcases List.mem_pair.mp hsep with rfl | rfl <;> decide
      have heq : c.toLower = sep := (List.mem_singleton.mp hmem).symm
      rw [heq, eq_of_toLower_eq hlt heq]

example : (Origin.parse asciiLowercasing.toUnicode "HTTPS://A.com:080:1/x".toList :
    Origin literalGlobset).asString = "https://a.com:80".toList := by
  decide

end JsonRpc.ServerUtils
