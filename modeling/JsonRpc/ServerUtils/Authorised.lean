import JsonRpc.Lib.Wildcard
import JsonRpc.ServerUtils.Normal

/-!
# The origin that a verdict names

An allow list is asked about an origin as the request has it. The verdict names what the
origin is parsed as, which is without a path, a second port and the zeros of a port. A
pattern tells the two apart, so a verdict may name an origin that the list does not allow.
-/

namespace JsonRpc.ServerUtils

open Text

/-! ## Patterns with wildcards -/

/-- The library of globs, with what it says about wildcards. -/
structure WildcardGlobset extends Globset where
  /-- A pattern that is special in its wildcards only. Two stars in a row are something else. -/
  wildcard : ∀ pattern : Text, (∀ c ∈ pattern, isMetachar c = true → c = '*' ∨ c = '?') →
    ¬ "**".toList <:+: pattern →
      ∃ glob, build pattern = some glob ∧ ∀ s, isMatch glob s = wildMatch pattern s
  ignoreCase : ∀ glob s t, eqIgnoreAsciiCase s t = true → isMatch glob s = isMatch glob t

/-- Globs of literal characters and wildcards only. -/
def wildcardGlobset : WildcardGlobset where
  Glob := Text
  build pattern :=
    if pattern.all (fun c => !isMetachar c || c == '*' || c == '?') then some pattern else none
  isMatch := wildMatch
  literal pattern hpattern := by
    refine ⟨pattern, if_pos (List.all_eq_true.mpr fun c hc => ?_),
      wildMatch_eq_eqIgnoreAsciiCase fun c hc => ⟨?_, ?_⟩⟩
    · rw [hpattern c hc]
      rfl
    · rintro rfl
      exact absurd (hpattern _ hc) (by decide)
    · rintro rfl
      exact absurd (hpattern _ hc) (by decide)
  unclosed before after _ _ := by
    refine if_neg fun hall => ?_
    exact absurd (List.all_eq_true.mp hall '[' (by simp)) (by decide)
  wildcard pattern hpattern _ := by
    refine ⟨pattern, if_pos (List.all_eq_true.mpr fun c hc => ?_), fun _ => rfl⟩
    cases hmeta : isMetachar c with
    | false => rfl
    | true => rcases hpattern c hc hmeta with rfl | rfl <;> rfl
  ignoreCase _ _ _ := wildMatch_congr

section Authorised

variable {G : WildcardGlobset} {U : Unicode}

theorem Matcher.matchesText_congr (m : Matcher G.toGlobset) {s t : Text}
    (h : eqIgnoreAsciiCase s t = true) : m.matchesText s = m.matchesText t := by
  unfold Matcher.matchesText
  split
  · exact G.ignoreCase _ s t h
  · rw [eqIgnoreAsciiCase, eqIgnoreAsciiCase, beq_iff_eq.mp h]

/-! ## Verdicts -/

/-- An allow list that does not allow every origin. -/
structure AllowList (G : Globset) where
  entries : List (AccessControlAllowOrigin G)
  restricted : ∀ entry ∈ entries, entry ≠ .any

/-- The allow list of one origin. -/
def AllowList.only {G : Globset} (val : Origin G) : AllowList G where
  entries := [.value val]
  restricted entry hmem := by
    rw [List.mem_singleton.mp hmem]
    nofun

/-- The origin that a verdict names matches an entry of the allow list. -/
def Authorises {G : Globset} (U : Unicode) (origin : Text) (host : Option Text)
    (allowed : AllowList G) : Prop :=
  ∀ o, getCorsAllowOrigin U (some origin) host (some allowed.entries) = .ok (.value o) →
    ∃ val, .value val ∈ allowed.entries ∧ val.matchesText o.asString = true

theorem mem_asString {G : Globset} (origin : Origin G) : ':' ∈ origin.asString := by
  rw [origin.asString_eq]
  exact List.mem_append_left _ (List.mem_append_right _ (by decide))

/-- An origin that is parsed as itself is judged as it is named. -/
theorem authorises_of_eqIgnoreAsciiCase {origin : Text}
    (h : eqIgnoreAsciiCase origin (Origin.parse U origin : Origin G.toGlobset).asString = true)
    (host : Option Text) (allowed : AllowList G.toGlobset) : Authorises U origin host allowed := by
  have hnull : origin ≠ "null".toList := by
    rintro rfl
    rw [eqIgnoreAsciiCase_eq_false (d := ':') (by decide) (by decide) (mem_asString _)] at h
    cases h
  intro o ho
  by_cases hsame : IsSameServer G.toGlobset U origin host
  · rw [getCorsAllowOrigin_of_isSameServer hsame] at ho
    cases ho
  · rcases getCorsAllowOrigin_of_not_isSameServer hsame hnull with
      ⟨⟨entry, hmem, hallows⟩, hok⟩ | ⟨-, hinvalid⟩
    · rw [hok] at ho
      cases ho
      rcases hallows with hany | ⟨val, rfl, hmatch⟩
      · exact absurd hany (allowed.restricted entry hmem)
      · exact ⟨val, hmem, (val.matcher.matchesText_congr h).symm.trans hmatch⟩
    · rw [hinvalid] at ho
      cases ho

/-! ## The length of an origin -/

/-- An origin of ASCII characters with a protocol. -/
structure AsciiOrigin where
  text : Text
  ascii : ∀ c ∈ text, c.toNat < 128
  protocol : "://".toList <:+: text

theorem abbreviates_hostString (name port : Text) :
    Abbreviates (hostString name (Host.portOf port)) (name ++ ':' :: port) := by
  unfold Host.portOf
  split
  · rename_i hnum
    exact ((abbreviates_decimal_of_parseU16 hnum).append_left [':']).append_left name
  · exact .inr rfl

section Host

variable {G : Globset} {path : Text} (hascii : ∀ c ∈ path, c.toNat < 128) (hslash : '/' ∉ path)

include hascii hslash

/-- The characters of a host stay as they are, once they are in lower case. -/
theorem preProcess_of_mem_map_toLower {t : Text} (ht : ∀ c ∈ t, c ∈ path.map Char.toLower) :
    preProcess U t = t := by
  have hchar : ∀ c ∈ t, c ≠ '/' ∧ c.toNat < 128 ∧ c.toLower = c := by
    intro c hc
    obtain ⟨d, hd, rfl⟩ := List.mem_map.mp (ht c hc)
    refine ⟨fun h => hslash (eq_of_toLower_eq (by decide) h ▸ hd), ?_, toLower_toLower d⟩
    exact toNat_toLower_lt (hascii d hd)
  refine (preProcess_of_notMem fun hmem => (hchar _ hmem).1 rfl).trans ?_
  exact U.toLowercase_eq_self fun c hc => (hchar c hc).2

/-- A host without a port. -/
theorem Host.asString_parse_name {s : Text} (hs : preProcess U s = path.map Char.toLower)
    (hcolon : ':' ∉ path.map Char.toLower) :
    (Host.parse U s : Host G).asString = path.map Char.toLower := by
  rw [parse_of_notMem hs hcolon]
  exact preProcess_of_mem_map_toLower hascii hslash fun c hc => hc

/-- A host with a port. -/
theorem Host.asString_parse_port {s name rest : Text}
    (hs : preProcess U s = path.map Char.toLower)
    (happend : path.map Char.toLower = name ++ ':' :: rest) (hname : ':' ∉ name) :
    (Host.parse U s : Host G).asString = hostString name (portOf (splitOnce [':'] rest).1) := by
  rw [parse_of_append (hs.trans happend) hname]
  refine congrArg (hostString · _) (preProcess_of_mem_map_toLower hascii hslash fun c hc => ?_)
  rw [happend]
  simp [hc]

/-- A parsed host is shorter than its text, or is its text in lower case. -/
theorem Host.abbreviates_asString_path {s : Text} (hs : preProcess U s = path.map Char.toLower) :
    Abbreviates (Host.parse U s : Host G).asString (path.map Char.toLower) := by
  by_cases hmem : ':' ∈ path.map Char.toLower
  · obtain ⟨name, rest, happend, hname⟩ := List.eq_append_cons_of_mem hmem
    have hport : (splitOnce [':'] rest).1 <+: rest := splitOnce_fst_isPrefix
    rw [asString_parse_port hascii hslash hs happend hname, happend]
    refine (abbreviates_hostString name _).trans (.append_left name ?_)
    exact (Abbreviates.of_isPrefix hport).append_left [':']
  · exact .inr (asString_parse_name hascii hslash hs hmem)

end Host

/-- The path of a host is dropped, and the rest is in lower case. -/
theorem preProcess_of_ascii {s : Text} (hascii : ∀ c ∈ s, c.toNat < 128)
    (hproto : ¬ "://".toList <:+: s) :
    preProcess U s = (splitOnce ['/'] s).1.map Char.toLower := by
  have hpath : (splitOnce ['/'] s).1 <+: s := splitOnce_fst_isPrefix
  rw [preProcess, splitOnce_eq_self hproto]
  exact U.ascii _ fun c hc => hascii c (hpath.subset hc)

theorem Host.abbreviates_asString_parse {G : Globset} {s : Text} (hascii : ∀ c ∈ s, c.toNat < 128)
    (hproto : ¬ "://".toList <:+: s) :
    Abbreviates (Host.parse U s : Host G).asString ((splitOnce ['/'] s).1.map Char.toLower) := by
  have hpath : (splitOnce ['/'] s).1 <+: s := splitOnce_fst_isPrefix
  exact abbreviates_asString_path (fun c hc => hascii c (hpath.subset hc)) notMem_splitOnce_fst
    (preProcess_of_ascii hascii hproto)

/-! ## Texts that are parsed as themselves -/

/-- A host of which nothing is dropped or rewritten. -/
structure IsPlainHost (s : Text) : Prop where
  path : '/' ∉ s
  colon : s.count ':' ≤ 1
  /-- A port that is a number is printed as it is written. -/
  port : ∀ name port n, s = name ++ ':' :: port → parseU16 port = some n → port = decimal n.toNat

/-- An origin of which nothing is dropped or rewritten. -/
def IsPlainOrigin (s : Text) : Prop :=
  ∃ proto host, s = proto ++ "://".toList ++ host ∧ ¬ "://".toList <:+: proto ∧ IsPlainHost host

/-- A text with one colon is cut there. -/
theorem eq_of_append_cons_eq {name name' rest rest' : Text} (hname : ':' ∉ name)
    (hname' : ':' ∉ name') (h : name ++ ':' :: rest = name' ++ ':' :: rest') :
    name = name' ∧ rest = rest' := by
  have hsplit := splitOnce_append (t := rest) hname
  rw [h, splitOnce_append hname'] at hsplit
  cases hsplit
  exact ⟨rfl, rfl⟩

theorem colon_mem_map_toLower {s : Text} : ':' ∈ s.map Char.toLower ↔ ':' ∈ s := by
  constructor
  · intro hmem
    obtain ⟨c, hc, hlower⟩ := List.mem_map.mp hmem
    exact eq_of_toLower_eq (by decide) hlower ▸ hc
  · intro hmem
    exact List.mem_map.mpr ⟨':', hmem, by decide⟩

/-- A port is printed as it is written, up to the case, unless it is another number. -/
theorem hostString_portOf_eq_iff {name port : Text} :
    hostString name (Host.portOf (port.map Char.toLower)) =
        name ++ ':' :: port.map Char.toLower ↔
      ∀ n, parseU16 port = some n → port = decimal n.toNat := by
  unfold Host.portOf
  rw [parseU16_map_toLower]
  cases hparse : parseU16 port with
  | none => simp [hostString]
  | some n =>
    have hself : port.map Char.toLower = port :=
      (List.map_congr_left fun c hc => (toLower_of_parseU16 hparse hc).2).trans (List.map_id port)
    simp [hostString, hself, eq_comm]

/-- A host without a path is parsed as itself if it is plain. -/
theorem Host.asString_parse_isPlain_iff {G : Globset} {s : Text} (hascii : ∀ c ∈ s, c.toNat < 128)
    (hslash : '/' ∉ s) :
    (Host.parse U s : Host G).asString = s.map Char.toLower ↔ IsPlainHost s := by
  have hs : preProcess U s = s.map Char.toLower :=
    (preProcess_of_notMem hslash).trans (U.ascii s hascii)
  by_cases hmem : ':' ∈ s
  · obtain ⟨name, rest, rfl, hname⟩ := List.eq_append_cons_of_mem hmem
    have hname' : ':' ∉ name.map Char.toLower := fun h => hname (colon_mem_map_toLower.mp h)
    have happend : (name ++ ':' :: rest).map Char.toLower =
        name.map Char.toLower ++ ':' :: rest.map Char.toLower := by
      rw [List.map_append]
      rfl
    rw [asString_parse_port hascii hslash hs happend hname', happend]
    have hcount : (name ++ ':' :: rest).count ':' = rest.count ':' + 1 := by
      simp [List.count_eq_zero_of_not_mem hname]
    constructor
    · intro hstring
      have hport : (splitOnce [':'] (rest.map Char.toLower)).1 = rest.map Char.toLower := by
        have hlength :=
          (abbreviates_hostString (name.map Char.toLower)
            (splitOnce [':'] (rest.map Char.toLower)).1).length_le
        rw [hstring, List.length_append, List.length_append, List.length_cons,
          List.length_cons] at hlength
        exact splitOnce_fst_isPrefix.eq_of_length_le (by omega)
      have hrest : ':' ∉ rest := by
        rw [← colon_mem_map_toLower, ← hport]
        exact notMem_splitOnce_fst
      rw [hport, hostString_portOf_eq_iff] at hstring
      refine ⟨hslash, ?_, fun name' port n heq hparse => ?_⟩
      · rw [hcount, List.count_eq_zero_of_not_mem hrest]
      · have hname'' : ':' ∉ name' := by
          rw [heq, List.count_append, List.count_cons_self,
            List.count_eq_zero_of_not_mem hrest] at hcount
          exact List.count_eq_zero.mp (by omega)
        obtain ⟨rfl, rfl⟩ := eq_of_append_cons_eq hname hname'' heq
        exact hstring n hparse
    · intro hplain
      have hrest : ':' ∉ rest := by
        have hone := hplain.colon
        rw [hcount] at hone
        exact List.count_eq_zero.mp (by omega)
      rw [splitOnce_of_notMem (List.mem_singleton_self _) (mt colon_mem_map_toLower.mp hrest)]
      exact hostString_portOf_eq_iff.mpr fun n hn => hplain.port name rest n rfl hn
  · have hmem' : ':' ∉ s.map Char.toLower := fun h => hmem (colon_mem_map_toLower.mp h)
    refine iff_of_true (asString_parse_name hascii hslash hs hmem') ⟨hslash, ?_, ?_⟩
    · rw [List.count_eq_zero_of_not_mem hmem]
      exact Nat.zero_le 1
    · rintro name port n rfl
      exact absurd (by simp) hmem

variable (o : AsciiOrigin)

/-- An origin is parsed as its protocol and its host. -/
theorem AsciiOrigin.asString_parse {G : Globset} {proto rest : Text}
    (hsplit : splitOnce "://".toList o.text = (proto, some rest))
    (happend : o.text = proto ++ "://".toList ++ rest) :
    (Origin.parse U o.text : Origin G).asString = proto.map Char.toLower ++ "://".toList ++
      (Host.parse U (splitOnce "://".toList rest).1 : Host G).asString := by
  have hlower : U.toLowercase proto = proto.map Char.toLower :=
    U.ascii proto fun c hc => o.ascii c (by simp [happend, hc])
  rw [Origin.parse_of_splitOnce_some hsplit, hlower]
  exact Origin.originString_protocolOf _ _

/-- A parsed origin is shorter than its text, or is its text in lower case. -/
theorem AsciiOrigin.abbreviates_asString_parse {G : Globset} :
    Abbreviates (Origin.parse U o.text : Origin G).asString (o.text.map Char.toLower) := by
  obtain ⟨proto, rest, hsplit, happend⟩ := exists_splitOnce_eq (by decide) o.protocol
  have hhost : (splitOnce "://".toList rest).1 <+: rest := splitOnce_fst_isPrefix
  have hpath : (splitOnce ['/'] (splitOnce "://".toList rest).1).1 <+: rest :=
    splitOnce_fst_isPrefix.trans hhost
  have htext : o.text.map Char.toLower =
      proto.map Char.toLower ++ "://".toList ++ rest.map Char.toLower := by
    rw [happend, List.map_append, List.map_append]
    rfl
  rw [o.asString_parse hsplit happend, htext]
  apply Abbreviates.append_left
  refine (Host.abbreviates_asString_parse (fun c hc => o.ascii c ?_) ?_).trans ?_
  · simp [happend, hhost.subset hc]
  · exact not_infix_splitOnce_fst (by decide)
  · exact .of_isPrefix (hpath.map Char.toLower)

/-- An origin is parsed as itself up to the case, if and only if it is so in lower case. -/
theorem AsciiOrigin.eqIgnoreAsciiCase_parse_iff {G : Globset} :
    eqIgnoreAsciiCase o.text (Origin.parse U o.text : Origin G).asString = true ↔
      (Origin.parse U o.text : Origin G).asString = o.text.map Char.toLower := by
  have hlower : (o.text.map Char.toLower).map Char.toLower = o.text.map Char.toLower := by
    rw [List.map_map]
    exact List.map_congr_left fun c _ => toLower_toLower c
  rw [eqIgnoreAsciiCase, beq_iff_eq]
  constructor
  · intro h
    apply o.abbreviates_asString_parse.eq_of_length
    simpa using (congrArg List.length h).symm
  · intro h
    rw [h, hlower]

/-- **Plain origins.** An origin is parsed as itself up to the case, if and only if it has no
second protocol, no path, no second port, and no port that is printed in another way. -/
theorem AsciiOrigin.isPlainOrigin_iff {G : Globset} :
    eqIgnoreAsciiCase o.text (Origin.parse U o.text : Origin G).asString = true ↔
      IsPlainOrigin o.text := by
  rw [o.eqIgnoreAsciiCase_parse_iff]
  constructor
  · intro hstring
    obtain ⟨proto, rest, hsplit, happend⟩ := exists_splitOnce_eq (by decide) o.protocol
    have hproto : ¬ "://".toList <:+: proto := by
      have hfirst := not_infix_splitOnce_fst (s := o.text) (show "://".toList ≠ [] by decide)
      rwa [hsplit] at hfirst
    have hhost : (splitOnce "://".toList rest).1 <+: rest := splitOnce_fst_isPrefix
    have hpath : (splitOnce ['/'] (splitOnce "://".toList rest).1).1 <+:
        (splitOnce "://".toList rest).1 := splitOnce_fst_isPrefix
    have hascii : ∀ c ∈ rest, c.toNat < 128 := fun c hc => o.ascii c (by simp [happend, hc])
    rw [o.asString_parse hsplit happend, happend, List.map_append, List.map_append] at hstring
    have hsame : (Host.parse U (splitOnce "://".toList rest).1 : Host G).asString =
        rest.map Char.toLower := List.append_cancel_left hstring
    -- What is left of the host is as long as the rest of the text, so nothing is dropped.
    have hlength := (Host.abbreviates_asString_parse (U := U) (G := G)
      (fun c hc => hascii c (hhost.subset hc)) (not_infix_splitOnce_fst (by decide))).length_le
    rw [hsame, List.length_map, List.length_map] at hlength
    have hrest : (splitOnce "://".toList rest).1 = rest :=
      hhost.eq_of_length_le (hlength.trans hpath.length_le)
    rw [hrest] at hpath hlength hsame
    have hslash : '/' ∉ rest := by
      rw [← hpath.eq_of_length_le hlength]
      exact notMem_splitOnce_fst
    exact ⟨proto, rest, happend, hproto, (Host.asString_parse_isPlain_iff hascii hslash).mp hsame⟩
  · rintro ⟨proto, host, happend, hproto, hplain⟩
    have hsplit : splitOnce "://".toList o.text = (proto, some host) := by
      rw [happend]
      exact splitOnce_protocol hproto
    have hascii : ∀ c ∈ host, c.toNat < 128 := fun c hc => o.ascii c (by simp [happend, hc])
    rw [o.asString_parse hsplit happend, splitOnce_of_notMem (c := '/') (by decide) hplain.path,
      (Host.asString_parse_isPlain_iff hascii hplain.path).mpr hplain, happend, List.map_append,
      List.map_append]
    rfl

/-! ## Masks -/

/-- A pattern for the texts with a protocol and a host of given lengths. -/
def maskText (proto rest : Text) : Text :=
  List.replicate proto.length '?' ++ "://".toList ++ List.replicate rest.length '?'

/-- The allowed origin with that pattern. -/
def mask (U : Unicode) (proto rest : Text) : Origin G.toGlobset :=
  .new U (.custom (List.replicate proto.length '?')) (List.replicate rest.length '?') .none

theorem mem_maskText {proto rest : Text} {c : Char} (hc : c ∈ maskText proto rest) :
    c = '?' ∨ c ∈ "://".toList := by
  rcases List.mem_append.mp hc with hc | hc
  · rcases List.mem_append.mp hc with hc | hc
    · exact .inl (List.eq_of_mem_replicate hc)
    · exact .inr hc
  · exact .inl (List.eq_of_mem_replicate hc)

theorem asString_mask (proto rest : Text) :
    (mask U proto rest : Origin G.toGlobset).asString = maskText proto rest := by
  have hslash : '/' ∉ List.replicate rest.length '?' := fun hmem =>
    absurd (List.eq_of_mem_replicate hmem) (by decide)
  have hname : preProcess U (List.replicate rest.length '?') = List.replicate rest.length '?' := by
    refine (preProcess_of_notMem hslash).trans (U.toLowercase_eq_self fun c hc => ?_)
    rw [List.eq_of_mem_replicate hc]
    decide
  exact congrArg (List.replicate proto.length '?' ++ "://".toList ++ ·) hname

theorem matchesText_mask_iff (proto rest s : Text) :
    (mask U proto rest : Origin G.toGlobset).matchesText s = true ↔
      List.Forall₂ StandsFor (maskText proto rest) s := by
  have hstar : '*' ∉ maskText proto rest := fun hmem => by
    rcases mem_maskText hmem with h | h
    · cases h
    · exact absurd h (by decide)
  have hmeta : ∀ c ∈ maskText proto rest, isMetachar c = true → c = '*' ∨ c = '?' := by
    intro c hc hspecial
    rcases mem_maskText hc with rfl | hmem
    · exact .inr rfl
    · rw [isMetachar_of_mem_separator hmem] at hspecial
      cases hspecial
  have hstars : ¬ "**".toList <:+: maskText proto rest := fun hpart =>
    hstar (hpart.subset (by decide))
  obtain ⟨glob, hbuild, hmatch⟩ := G.wildcard _ hmeta hstars
  rw [Origin.matchesText_eq, asString_mask, Matcher.matchesText_of_build_eq_some hbuild, hmatch,
    wildMatch_iff_forall₂ hstar]

/-- A mask matches a text of its shape. -/
theorem forall₂_maskText (proto rest : Text) :
    List.Forall₂ StandsFor (maskText proto rest) (proto ++ "://".toList ++ rest) := by
  have hsep : List.Forall₂ StandsFor "://".toList "://".toList :=
    List.forall₂_same.mpr fun _ _ => .inr rfl
  exact List.rel_append (List.rel_append (forall₂_replicate_mark proto) hsep)
    (forall₂_replicate_mark rest)

/-- **Authorised origins.** A verdict names an origin that the allow list allows, if the
origin of the request is parsed as itself up to the case. For an origin of ASCII characters
with a protocol this is necessary: otherwise some allow list allows the request, but not the
origin that the verdict names. Such an origin is parsed as itself if and only if it is plain:
without a second protocol, a path, a second port, or a port that is printed in another way. -/
theorem authorises_iff (G : WildcardGlobset) (U : Unicode) :
    (∀ origin : Text,
      eqIgnoreAsciiCase origin (Origin.parse U origin : Origin G.toGlobset).asString = true →
        ∀ host (allowed : AllowList G.toGlobset), Authorises U origin host allowed) ∧
      ∀ o : AsciiOrigin,
        ((∀ host (allowed : AllowList G.toGlobset), Authorises U o.text host allowed) ↔
          eqIgnoreAsciiCase o.text (Origin.parse U o.text : Origin G.toGlobset).asString =
            true) ∧
        ((∀ host (allowed : AllowList G.toGlobset), Authorises U o.text host allowed) ↔
          IsPlainOrigin o.text) := by
  refine ⟨fun origin h => authorises_of_eqIgnoreAsciiCase h, fun o => ?_⟩
  rw [← o.isPlainOrigin_iff (G := G.toGlobset) (U := U), and_self]
  refine ⟨fun hall => ?_, authorises_of_eqIgnoreAsciiCase⟩
  -- The mask of the origin is the allow list that tells the two apart by their lengths.
  obtain ⟨proto, rest, -, happend⟩ := exists_splitOnce_eq (by decide) o.protocol
  have hmatch : (mask U proto rest : Origin G.toGlobset).matchesText o.text = true := by
    rw [matchesText_mask_iff, happend]
    exact forall₂_maskText proto rest
  have hnull : o.text ≠ "null".toList := fun h =>
    absurd (o.protocol.subset (by decide : ':' ∈ "://".toList)) (h ▸ by decide)
  have hverdict : getCorsAllowOrigin U (some o.text) none
      (some (AllowList.only (mask U proto rest : Origin G.toGlobset)).entries) =
        .ok (.value (.parse U o.text)) := by
    rcases getCorsAllowOrigin_of_not_isSameServer not_isSameServer_none hnull with
      ⟨-, hok⟩ | ⟨hnone, -⟩
    · exact hok
    · exact absurd (.inr ⟨_, rfl, hmatch⟩) (hnone _ (List.mem_singleton_self _))
  obtain ⟨val, hmem, hval⟩ := hall none _ _ hverdict
  cases List.mem_singleton.mp hmem
  have hlength := ((matchesText_mask_iff proto rest _).mp hval).length_eq
  rw [(forall₂_maskText proto rest).length_eq, ← happend] at hlength
  rw [o.eqIgnoreAsciiCase_parse_iff]
  exact o.abbreviates_asString_parse.eq_of_length (by rw [← hlength, List.length_map])

end Authorised

/-- An allow list of the origins under a domain. -/
def trustedOnly : AllowList wildcardGlobset.toGlobset :=
  .only (.parse asciiUnicode "http://*.trusted.com".toList)

/-- An origin of another domain, whose path ends as the domain does, is allowed. The verdict
names the other domain, which no entry of the allow list matches. -/
theorem not_authorises_trustedOnly :
    (Origin.parse asciiUnicode "http://evil.com/.trusted.com".toList :
        Origin wildcardGlobset.toGlobset).asString = "http://evil.com".toList ∧
      ¬ Authorises asciiUnicode "http://evil.com/.trusted.com".toList none trustedOnly := by
  refine ⟨by decide, fun h => ?_⟩
  obtain ⟨val, hmem, hval⟩ := h _ rfl
  cases List.mem_singleton.mp hmem
  revert hval
  decide

end JsonRpc.ServerUtils
