import JsonRpc.Http.Request

/-!
# The headers that a request asks for

A preflight request lists the headers of the request to come, separated by commas. There can be
blanks around the commas, and the list can go over several lines. The server takes the names
apart at the commas, and at one space after a comma. Other blanks stay in the names, and such a
name is not on any list.
-/

namespace JsonRpc.Http

open Text ServerUtils

/-! ## Spellings of a list of names -/

/-- A character of the name of a header. -/
def isTokenChar (c : Char) : Bool := 0x21 ≤ c.toNat && c.toNat ≤ 0x7E && c ≠ ','

/-- The name of a header. -/
structure Token where
  chars : Text
  ne_nil : chars ≠ []
  isToken : chars.all isTokenChar = true

/-- Optional whitespace. -/
inductive Blank where
  | space
  | tab
  deriving DecidableEq

def Blank.char : Blank → Char
  | .space => ' '
  | .tab => Char.ofNat 0x09

/-- A comma with the blanks around it. -/
structure Separator where
  before : List Blank
  after : List Blank
  deriving DecidableEq

def Separator.text (sep : Separator) : Text :=
  sep.before.map Blank.char ++ ',' :: sep.after.map Blank.char

/-- There is at most one space after the comma, and nothing else. -/
def Separator.isPlain (sep : Separator) : Bool :=
  sep.before = [] && (sep.after = [] || sep.after = [.space])

/-- A line with a list of names. -/
structure Line where
  first : Token
  rest : List (Separator × Token)

namespace Line

def text (line : Line) : Text :=
  line.first.chars ++ line.rest.flatMap fun entry => entry.1.text ++ entry.2.chars

def names (line : Line) : List Text := line.first.chars :: line.rest.map fun entry => entry.2.chars

def isPlain (line : Line) : Bool := line.rest.all fun entry => entry.1.isPlain

end Line

/-! ## The parts of a line -/

/-- The parts of a line at which the server arrives. -/
def requested (text : Text) : List Text := (split ", ".toList text).flatMap (split [','])

/-- The blanks after a comma, without one space. -/
def Separator.rest (sep : Separator) : Text :=
  match sep.after with
  | .space :: after => after.map Blank.char
  | after => after.map Blank.char

/-- The names with the blanks that stay. -/
def partsFrom (lead : Text) : List (Separator × Token) → List Text
  | [] => [lead]
  | (sep, name) :: rest =>
    (lead ++ sep.before.map Blank.char) :: partsFrom (sep.rest ++ name.chars) rest

section Requested

variable {s t : Text}

theorem requested_eq_singleton (hs : ',' ∉ s) : requested s = [s] := by
  have hcomma : split [','] s = [s] :=
    split_eq_singleton fun hpart => hs (hpart.subset (List.mem_singleton_self _))
  have hspace : split ", ".toList s = [s] :=
    split_eq_singleton fun hpart => hs (hpart.subset (List.mem_cons_self))
  rw [requested, hspace, List.flatMap_singleton, hcomma]

/-- One space after a comma goes with it. -/
theorem requested_append_space (hs : ',' ∉ s) :
    requested (s ++ ',' :: ' ' :: t) = s :: requested t := by
  have hsplit : split ", ".toList (s ++ ',' :: ' ' :: t) = s :: split ", ".toList t := by
    have happend := @split_append [' '] s t ',' hs
    rwa [List.append_assoc] at happend
  have hcomma : split [','] s = [s] :=
    split_eq_singleton fun hpart => hs (hpart.subset (List.mem_singleton_self _))
  rw [requested, hsplit, List.flatMap_cons, hcomma]
  rfl

/-- A comma without a space after it. -/
theorem requested_append (hs : ',' ∉ s) (ht : t.head? ≠ some ' ') :
    requested (s ++ ',' :: t) = s :: requested t := by
  obtain ⟨part, parts, hparts⟩ := exists_split_eq_cons ", ".toList t
  have hsplit : split ", ".toList (s ++ ',' :: t) = (s ++ ',' :: part) :: parts := by
    induction s with
    | nil =>
      refine split_cons (fun hpre => ht ?_) hparts
      obtain ⟨rest, hrest⟩ := (List.cons_prefix_cons.mp hpre).2
      rw [← hrest]
      rfl
    | cons d s ih =>
      obtain ⟨hne, hs⟩ := not_or.mp (List.mem_cons.not.mp hs)
      exact split_cons (fun hpre => hne (List.cons_prefix_cons.mp hpre).1) (ih hs)
  have hcomma : split [','] (s ++ ',' :: part) = s :: split [','] part := by
    have happend := @split_append [] s part ',' hs
    rwa [List.append_assoc] at happend
  rw [requested, hsplit, List.flatMap_cons, hcomma, requested, hparts, List.flatMap_cons]
  rfl

end Requested

theorem comma_notMem_blanks (blanks : List Blank) : ',' ∉ blanks.map Blank.char := by
  intro hmem
  obtain ⟨b, -, hb⟩ := List.mem_map.mp hmem
  cases b <;> cases hb

theorem Token.comma_notMem (name : Token) : ',' ∉ name.chars := by
  intro hmem
  have htoken := List.all_eq_true.mp name.isToken ',' hmem
  cases htoken

theorem Separator.comma_notMem_rest (sep : Separator) : ',' ∉ sep.rest := by
  unfold Separator.rest
  split <;> exact comma_notMem_blanks _

theorem Token.exists_eq_cons (name : Token) : ∃ d ds, name.chars = d :: ds ∧ d ≠ ' ' := by
  obtain ⟨d, ds, hchars⟩ := List.exists_cons_of_ne_nil name.ne_nil
  refine ⟨d, ds, hchars, ?_⟩
  rintro rfl
  have htoken := List.all_eq_true.mp name.isToken ' ' (hchars ▸ List.mem_cons_self)
  cases htoken

/-- The server takes a line apart at its commas. -/
theorem requested_append_rest {lead : Text} (hlead : ',' ∉ lead) (rest : List (Separator × Token)) :
    requested (lead ++ rest.flatMap fun entry => entry.1.text ++ entry.2.chars) =
      partsFrom lead rest := by
  induction rest generalizing lead with
  | nil =>
    rw [List.flatMap_nil, List.append_nil]
    exact requested_eq_singleton hlead
  | cons entry rest ih =>
    obtain ⟨sep, name⟩ := entry
    have hbefore : ',' ∉ lead ++ sep.before.map Blank.char := by
      simp [hlead, comma_notMem_blanks]
    have hnext : ',' ∉ sep.rest ++ name.chars := by
      simp [sep.comma_notMem_rest, name.comma_notMem]
    rw [partsFrom, ← ih hnext]
    obtain ⟨before, after⟩ := sep
    match after with
    | .space :: after =>
      rw [← requested_append_space hbefore]
      simp [Separator.text, Separator.rest, Blank.char]
    | .tab :: after =>
      rw [← requested_append hbefore]
      · simp [Separator.text, Separator.rest, Blank.char]
      · simp [Separator.rest, Blank.char]
    | [] =>
      obtain ⟨d, ds, hchars, hne⟩ := name.exists_eq_cons
      rw [← requested_append hbefore]
      · simp [Separator.text, Separator.rest]
      · simp [Separator.rest, hchars, hne]

/-- The parts of a line. -/
def Line.parts (line : Line) : List Text := partsFrom line.first.chars line.rest

theorem requested_text (line : Line) : requested line.text = line.parts :=
  requested_append_rest line.first.comma_notMem line.rest

/-! ## Plain spellings -/

theorem Separator.isPlain_iff (sep : Separator) :
    sep.isPlain = true ↔ sep.before = [] ∧ sep.rest = [] := by
  obtain ⟨before, after⟩ := sep
  match after with
  | [] => simp [Separator.isPlain, Separator.rest]
  | .tab :: after => simp [Separator.isPlain, Separator.rest]
  | .space :: after => simp [Separator.isPlain, Separator.rest]

/-- Without other blanks, the parts are the names. -/
theorem partsFrom_of_isPlain (lead : Text) {rest : List (Separator × Token)}
    (hrest : (rest.all fun entry => entry.1.isPlain) = true) :
    partsFrom lead rest = lead :: rest.map fun entry => entry.2.chars := by
  induction rest generalizing lead with
  | nil => rfl
  | cons entry rest ih =>
    obtain ⟨sep, name⟩ := entry
    obtain ⟨hsep, hrest⟩ := Bool.and_eq_true_iff.mp hrest
    obtain ⟨hbefore, hafter⟩ := sep.isPlain_iff.mp hsep
    rw [partsFrom, hbefore, hafter, ih _ hrest]
    simp

/-- Other blanks make the parts longer than the names. -/
theorem length_partsFrom_eq_iff (lead name : Text) (rest : List (Separator × Token)) :
    (partsFrom (lead ++ name) rest).map List.length =
        name.length :: rest.map (fun entry => entry.2.chars.length) ↔
      lead = [] ∧ (rest.all fun entry => entry.1.isPlain) = true := by
  induction rest generalizing lead name with
  | nil => simp [partsFrom]
  | cons entry rest ih =>
    obtain ⟨sep, next⟩ := entry
    simp only [partsFrom, List.map_cons, List.cons.injEq, List.all_cons, Bool.and_eq_true,
      sep.isPlain_iff, ih]
    constructor
    · rintro ⟨hfirst, hrest, hall⟩
      rw [List.length_append, List.length_append] at hfirst
      have hlead : lead.length = 0 := by omega
      have hbefore : (sep.before.map Blank.char).length = 0 := by omega
      exact ⟨List.length_eq_zero_iff.mp hlead,
        ⟨List.map_eq_nil_iff.mp (List.length_eq_zero_iff.mp hbefore), hrest⟩, hall⟩
    · rintro ⟨rfl, ⟨hbefore, hrest⟩, hall⟩
      refine ⟨?_, hrest, hall⟩
      rw [hbefore]
      simp

theorem length_partsFrom (lead : Text) (rest : List (Separator × Token)) :
    (partsFrom lead rest).length = rest.length + 1 := by
  induction rest generalizing lead with
  | nil => rfl
  | cons entry rest ih => simp [partsFrom, ih]

namespace Line

theorem length_parts (line : Line) : line.parts.length = line.names.length := by
  simp [parts, names, length_partsFrom]

theorem parts_of_isPlain {line : Line} (hline : line.isPlain = true) : line.parts = line.names :=
  partsFrom_of_isPlain line.first.chars hline

theorem map_length_parts_eq_iff (line : Line) :
    line.parts.map List.length = line.names.map List.length ↔ line.isPlain = true := by
  have hiff := length_partsFrom_eq_iff [] line.first.chars line.rest
  rw [List.nil_append, and_iff_right rfl] at hiff
  simpa [parts, names, isPlain, Function.comp_def] using hiff

end Line

/-- The parts of some lines are as long as their names if and only if the lines are plain. -/
theorem map_length_flatMap_parts_eq_iff (lines : List Line) :
    (lines.flatMap Line.parts).map List.length = (lines.flatMap Line.names).map List.length ↔
      lines.all Line.isPlain = true := by
  induction lines with
  | nil => simp
  | cons line lines ih =>
    rw [List.flatMap_cons, List.flatMap_cons, List.map_append, List.map_append, List.all_cons,
      Bool.and_eq_true, ← ih, ← line.map_length_parts_eq_iff]
    constructor
    · intro heq
      exact List.append_inj heq (by simp [line.length_parts])
    · rintro ⟨hline, hlines⟩
      rw [hline, hlines]

theorem flatMap_parts_of_isPlain {lines : List Line} (hlines : lines.all Line.isPlain = true) :
    lines.flatMap Line.parts = lines.flatMap Line.names := by
  induction lines with
  | nil => rfl
  | cons line lines ih =>
    obtain ⟨hline, hlines⟩ := Bool.and_eq_true_iff.mp hlines
    rw [List.flatMap_cons, List.flatMap_cons, Line.parts_of_isPlain hline, ih hlines]

/-! ## Headers as texts -/

/-- A character that the text of a header can have. -/
def isHeaderChar (c : Char) : Bool := 0x20 ≤ c.toNat && c.toNat ≤ 0x7E || c.toNat = 0x09

/-- The bytes of a text with such characters. -/
def headerBytes (s : Text) : HeaderValue := s.map fun c => .ofNat c.toNat

/-- The libraries of the server, with headers as visible text. -/
structure HeaderLibraries extends Libraries where
  toStr_headerBytes : ∀ s : Text, s.all isHeaderChar = true → toStr (headerBytes s) = some s
  fromStr_headerBytes : ∀ s : Text, s.all isHeaderChar = true → fromStr s = some (headerBytes s)

/-- The characters of the bytes. -/
theorem map_ofNat_headerBytes {s : Text} (hs : s.all isHeaderChar = true) :
    ((headerBytes s).map fun byte => Char.ofNat byte.toNat) = s := by
  rw [headerBytes, List.map_map]
  refine (List.map_congr_left fun c hc => ?_).trans (List.map_id s)
  have hchar := List.all_eq_true.mp hs c hc
  simp only [isHeaderChar, Bool.or_eq_true, Bool.and_eq_true, decide_eq_true_eq] at hchar
  have hbyte : (UInt8.ofNat c.toNat).toNat = c.toNat := by
    rw [UInt8.toNat_ofNat']
    omega
  simp [hbyte]

/-- Libraries in which a header is a text of visible characters. -/
def HeaderLibraries.visible : HeaderLibraries where
  unicode := asciiUnicode
  json := .ofTable []
  toStr value :=
    let s : Text := value.map fun byte => Char.ofNat byte.toNat
    if s.all isHeaderChar then some s else none
  fromStr s := if s.all isHeaderChar then some (headerBytes s) else none
  debug _ := ""
  toStr_headerBytes s hs := by
    dsimp only
    rw [map_ofNat_headerBytes hs, if_pos hs]
  fromStr_headerBytes s hs := if_pos hs

theorem isHeaderChar_of_isTokenChar {c : Char} (hc : isTokenChar c = true) :
    isHeaderChar c = true := by
  simp only [isTokenChar, isHeaderChar, Bool.and_eq_true, Bool.or_eq_true,
    decide_eq_true_eq] at hc ⊢
  omega

theorem isHeaderChar_blank (b : Blank) : isHeaderChar b.char = true := by
  cases b <;> rfl

theorem Token.isHeader (name : Token) : name.chars.all isHeaderChar = true :=
  List.all_eq_true.mpr fun c hc =>
    isHeaderChar_of_isTokenChar (List.all_eq_true.mp name.isToken c hc)

theorem isHeader_blanks (blanks : List Blank) :
    (blanks.map Blank.char).all isHeaderChar = true := by
  simp [isHeaderChar_blank]

theorem Separator.isHeader_rest (sep : Separator) : sep.rest.all isHeaderChar = true := by
  unfold Separator.rest
  split <;> exact isHeader_blanks _

theorem isHeader_partsFrom {lead : Text} (hlead : lead.all isHeaderChar = true)
    (rest : List (Separator × Token)) :
    ∀ part ∈ partsFrom lead rest, part.all isHeaderChar = true := by
  induction rest generalizing lead with
  | nil =>
    intro part hpart
    cases List.mem_singleton.mp hpart
    exact hlead
  | cons entry rest ih =>
    obtain ⟨sep, name⟩ := entry
    refine List.forall_mem_cons.mpr ⟨?_, ih ?_⟩
    · rw [List.all_append, hlead, isHeader_blanks]
      rfl
    · rw [List.all_append, sep.isHeader_rest, name.isHeader]
      rfl

theorem Line.isHeader_parts (line : Line) : ∀ part ∈ line.parts, part.all isHeaderChar = true :=
  isHeader_partsFrom line.first.isHeader line.rest

theorem Line.isHeader_text (line : Line) : line.text.all isHeaderChar = true := by
  have hcomma : isHeaderChar ',' = true := rfl
  simp only [Line.text, Separator.text, List.all_append, List.all_flatMap, List.all_cons,
    line.first.isHeader, isHeader_blanks, Token.isHeader, hcomma, Bool.and_self, Bool.true_and]
  simp

/-! ## Verdicts -/

/-- A name in lower case. -/
def lowercase (name : Text) : Text := name.map Char.toLower

/-- What should come of the names that a request asks for, with the headers that it has. -/
def expectedHeaders (headers names : List Text) :
    AccessControlAllowHeaders → AllowCors (List Text)
  | .any => .ok names
  | .only only =>
    if headers.all (isAllowedHeader only) && names.any (isAllowedHeader only) then
      .ok (names.filter (isAllowedHeader only))
    else .invalid

/-- A request that asks for some names, in some spelling. -/
structure Spelled (names : List Text) where
  request : Request
  lines : List Line
  lines_ne_nil : lines ≠ []
  values_eq : request.getAll "access-control-request-headers".toList =
    lines.map fun line => headerBytes line.text
  names_eq : (lines.flatMap Line.names).map lowercase = names.map lowercase

/-- The names of a verdict as texts in lower case. -/
def readNames (L : Libraries) (verdict : AllowCors (List HeaderValue)) :
    AllowCors (List (Option Text)) :=
  verdict.map (List.map fun value => (L.toStr value).map lowercase)

/-- The verdict is the one that the names should have. -/
def Spelled.IsRead {names : List Text} (L : HeaderLibraries) (r : Spelled names)
    (allow : AccessControlAllowHeaders) : Prop :=
  readNames L.toLibraries (corsAllowHeaders L.toLibraries r.request allow) =
    (expectedHeaders (r.request.headers.map Prod.fst) names allow).map
      (List.map fun name => some (lowercase name))

/-- The case of the letters does not matter. -/
theorem isAllowedHeader_congr (only : List Text) {name name' : Text}
    (h : lowercase name = lowercase name') :
    isAllowedHeader only name = isAllowedHeader only name' := by
  have hmap : name.map Char.toLower = name'.map Char.toLower := h
  simp only [isAllowedHeader, eqIgnoreAsciiCase, hmap]

theorem isAllowedHeader_lowercase (only : List Text) (name : Text) :
    isAllowedHeader only (lowercase name) = isAllowedHeader only name := by
  apply isAllowedHeader_congr
  rw [lowercase, lowercase, List.map_map]
  exact List.map_congr_left fun c _ => toLower_toLower c

theorem filter_map_lowercase (only names : List Text) :
    (names.map lowercase).filter (isAllowedHeader only) =
      (names.filter (isAllowedHeader only)).map lowercase := by
  rw [List.filter_map]
  congr 2
  exact funext (isAllowedHeader_lowercase only)

/-- What should come of some names does not depend on the case of their letters. -/
theorem map_expectedHeaders_congr (headers : List Text) {names names' : List Text}
    (h : names.map lowercase = names'.map lowercase) (allow : AccessControlAllowHeaders) :
    (expectedHeaders headers names allow).map (List.map fun name => some (lowercase name)) =
      (expectedHeaders headers names' allow).map
        (List.map fun name => some (lowercase name)) := by
  have hlower (names : List Text) : (names.map fun name => some (lowercase name)) =
      (names.map lowercase).map some := by
    rw [List.map_map]
    rfl
  cases allow with
  | any =>
    simp only [expectedHeaders, AllowCors.map, hlower, h]
  | only only =>
    have hany : names.any (isAllowedHeader only) = names'.any (isAllowedHeader only) := by
      have hmap (names : List Text) : (names.map lowercase).any (isAllowedHeader only) =
          names.any (isAllowedHeader only) := by
        rw [List.any_map]
        congr 1
        exact funext (isAllowedHeader_lowercase only)
      rw [← hmap names, ← hmap names', h]
    have hfilter := congrArg (List.filter (isAllowedHeader only)) h
    rw [filter_map_lowercase, filter_map_lowercase] at hfilter
    simp only [expectedHeaders, hany]
    split
    · simp only [AllowCors.map, hlower, hfilter]
    · rfl

/-- The names of a verdict are read back. -/
theorem map_toStr_fromStr (L : HeaderLibraries) {parts : List Text}
    (hparts : ∀ part ∈ parts, part.all isHeaderChar = true) :
    ((parts.map fun name => (L.fromStr name).getD (intoBytes "unknown")).map
        fun value => (L.toStr value).map lowercase) =
      parts.map fun name => some (lowercase name) := by
  rw [List.map_map]
  refine List.map_congr_left fun part hpart => ?_
  have hheader := hparts part hpart
  simp [L.fromStr_headerBytes part hheader, L.toStr_headerBytes part hheader]

/-- The verdict of the server on some parts of a line. -/
theorem readNames_getCorsAllowHeaders (L : HeaderLibraries) (headers : List Text)
    {parts : List Text} (hne : parts ≠ []) (hparts : ∀ part ∈ parts, part.all isHeaderChar = true)
    (allow : AccessControlAllowHeaders) :
    readNames L.toLibraries (getCorsAllowHeaders headers.dedup parts allow fun name =>
        (L.fromStr name).getD (intoBytes "unknown")) =
      (expectedHeaders headers parts allow).map (List.map fun name => some (lowercase name)) := by
  cases allow with
  | any =>
    have hempty : (parts.map fun name => (L.fromStr name).getD (intoBytes "unknown")).isEmpty =
        false := by simpa using hne
    simp only [getCorsAllowHeaders, Bool.not_true, Bool.false_eq_true, if_false, hempty,
      expectedHeaders]
    exact congrArg AllowCors.ok (map_toStr_fromStr L hparts)
  | only only =>
    have hdedup : headers.dedup.all (isAllowedHeader only) =
        headers.all (isAllowedHeader only) := by
      rw [Bool.eq_iff_iff]
      simp only [List.all_eq_true, List.mem_dedup]
    have hrequested : parts.isEmpty = false := by simpa using hne
    have hfilter : ∀ part ∈ parts.filter (isAllowedHeader only), part.all isHeaderChar = true :=
      fun part hpart => hparts part (List.mem_of_mem_filter hpart)
    have hempty : ((parts.filter (isAllowedHeader only)).map fun name =>
        (L.fromStr name).getD (intoBytes "unknown")).isEmpty =
          !parts.any (isAllowedHeader only) := by
      rw [Bool.eq_iff_iff]
      simp
    simp only [getCorsAllowHeaders, hdedup, hrequested, hempty, expectedHeaders]
    cases headers.all (isAllowedHeader only) <;> cases parts.any (isAllowedHeader only)
    · rfl
    · rfl
    · rfl
    · exact congrArg AllowCors.ok (map_toStr_fromStr L hfilter)

namespace Spelled

variable {names : List Text}

/-- The parts at which the server arrives. -/
def parts (r : Spelled names) : List Text := r.lines.flatMap Line.parts

theorem parts_ne_nil (r : Spelled names) : r.parts ≠ [] := by
  obtain ⟨line, lines, hlines⟩ := List.exists_cons_of_ne_nil r.lines_ne_nil
  intro hnil
  have hlength := congrArg List.length hnil
  rw [parts, hlines, List.flatMap_cons, List.length_append, line.length_parts] at hlength
  simp [Line.names] at hlength

theorem isHeader_parts (r : Spelled names) : ∀ part ∈ r.parts, part.all isHeaderChar = true := by
  intro part hpart
  obtain ⟨line, -, hline⟩ := List.mem_flatMap.mp hpart
  exact line.isHeader_parts part hline

/-- The server sees the parts of the lines. -/
theorem corsAllowHeaders_eq (L : HeaderLibraries) (r : Spelled names)
    (allow : AccessControlAllowHeaders) :
    corsAllowHeaders L.toLibraries r.request allow =
      getCorsAllowHeaders (r.request.headers.map Prod.fst).dedup r.parts allow fun name =>
        (L.fromStr name).getD (intoBytes "unknown") := by
  have hlines : (r.request.getAll "access-control-request-headers".toList).filterMap L.toStr =
      r.lines.map Line.text := by
    rw [r.values_eq, List.filterMap_map, ← List.filterMap_eq_map]
    refine List.filterMap_congr fun line _ => ?_
    exact L.toStr_headerBytes _ line.isHeader_text
  have hparts : ((r.lines.map Line.text).flatMap (split ", ".toList)).flatMap (split [',']) =
      r.parts := by
    rw [List.flatMap_assoc, List.flatMap_map]
    exact List.flatMap_congr fun line _ => requested_text line
  rw [corsAllowHeaders, hlines, hparts]

/-- The verdict is right if the parts are the names, up to the case of their letters. -/
theorem isRead_of_parts {L : HeaderLibraries} {r : Spelled names}
    (h : r.parts.map lowercase = names.map lowercase) (allow : AccessControlAllowHeaders) :
    r.IsRead L allow := by
  rw [IsRead, corsAllowHeaders_eq,
    readNames_getCorsAllowHeaders L _ r.parts_ne_nil r.isHeader_parts]
  exact map_expectedHeaders_congr _ h allow

/-- If every header is allowed, all the parts come back. -/
theorem parts_of_isRead {L : HeaderLibraries} {r : Spelled names} (h : r.IsRead L .any) :
    r.parts.map lowercase = names.map lowercase := by
  rw [IsRead, corsAllowHeaders_eq,
    readNames_getCorsAllowHeaders L _ r.parts_ne_nil r.isHeader_parts] at h
  have hsome : (r.parts.map lowercase).map some = (names.map lowercase).map some := by
    rw [List.map_map, List.map_map]
    exact AllowCors.ok.inj h
  exact List.map_injective_iff.mpr (Option.some_injective _) hsome

theorem map_length_lowercase (names : List Text) :
    (names.map lowercase).map List.length = names.map List.length := by
  simp [lowercase, Function.comp_def]

/-- **Spellings.** The server reads the names that a request asks for, whatever the headers that
are allowed, if and only if there is nothing around the commas but one space after them. -/
theorem isRead_iff_isPlain (L : HeaderLibraries) (r : Spelled names) :
    (∀ allow, r.IsRead L allow) ↔ r.lines.all Line.isPlain = true := by
  constructor
  · intro hread
    have hlower := (parts_of_isRead (hread .any)).trans r.names_eq.symm
    have hlength := congrArg (List.map List.length) hlower
    rw [map_length_lowercase, map_length_lowercase] at hlength
    exact (map_length_flatMap_parts_eq_iff r.lines).mp hlength
  · intro hplain allow
    apply isRead_of_parts
    rw [parts, flatMap_parts_of_isPlain hplain]
    exact r.names_eq

/-- A request that asks for two headers, with a tab after the comma. -/
def tabbed : Spelled ["X-A".toList, "X-B".toList] where
  request := ⟨.options, "/".toList, [("access-control-request-headers".toList,
    headerBytes ("X-A,".toList ++ Char.ofNat 0x09 :: "X-B".toList))], []⟩
  lines := [⟨⟨"X-A".toList, by decide, by decide⟩,
    [(⟨[], [.tab]⟩, ⟨"X-B".toList, by decide, by decide⟩)]⟩]
  lines_ne_nil := List.cons_ne_nil _ _
  values_eq := by decide
  names_eq := rfl

/-- The second header is allowed, and the request is refused. -/
theorem not_isRead_tabbed :
    corsAllowHeaders HeaderLibraries.visible.toLibraries tabbed.request
        (.only ["X-B".toList]) = .invalid ∧
      expectedHeaders (tabbed.request.headers.map Prod.fst) ["X-A".toList, "X-B".toList]
        (.only ["X-B".toList]) = .ok ["X-B".toList] := by
  constructor
  · rw [corsAllowHeaders_eq]
    rfl
  · rfl

end Spelled

end JsonRpc.Http
