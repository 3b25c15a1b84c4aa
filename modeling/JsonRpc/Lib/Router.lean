import Mathlib.Data.List.Basic
import Mathlib.Logic.Function.Basic
import Mathlib.Logic.Relation
import Mathlib.Tactic.Common

/-!
# Routing by a table

A router handles messages one after another. A message opens an entry of a table
for a subscriber, or turns a subscriber away, or names a key. The subscriber in the
entry of that key is sent something, or is found to be gone and loses the entry.
Every subscriber is opened or turned away at most once.

The life of a subscriber follows: from the event that opens it on, every message
that names its key goes to it and to nobody else, until another subscriber takes the
entry or the subscriber is found to be gone. After that it is never sent anything. A
key that was closed is opened before it is closed again.
-/

namespace Router

/-- What the handling of one message did. -/
inductive Event (K S : Type*) where
  /-- An entry was opened for a subscriber. -/
  | opened (key : K) (s : S)
  /-- A subscriber was turned away. -/
  | rejected (s : S)
  /-- The subscriber in the entry of a key was sent something. -/
  | sent (key : K) (s : S)
  /-- The subscriber in the entry of a key was gone, and the entry was removed. -/
  | closed (key : K) (s : S)
  /-- Nothing, because the message names no key or a key without an entry. -/
  | passed (key : Option K)

/-- The table of a router, and what happened so far. -/
structure State (K S : Type*) where
  table : K → Option S
  log : List (Event K S)

variable {K S I : Type*}

/-- The key that a message names. -/
def Event.key : Event K S → Option K
  | .sent key _ | .closed key _ => some key
  | .passed key => key
  | .opened _ _ | .rejected _ => none

/-- The subscriber that an event is about. -/
def Event.subscriber : Event K S → Option S
  | .opened _ s | .rejected s | .sent _ s | .closed _ s => some s
  | .passed _ => none

/-- The subscriber that comes to the router with an event. -/
def Event.newcomer : Event K S → Option S
  | .opened _ s | .rejected s => some s
  | _ => none

/-- The subscribers that were opened or turned away. -/
def used (log : List (Event K S)) : List S := log.filterMap Event.newcomer

/-- One message is handled. -/
inductive Step [DecidableEq K] (ident : S → I) (σ : State K S) : State K S → Prop where
  | accept (key : K) (s : S) (hfresh : ident s ∉ (used σ.log).map ident) :
      Step ident σ ⟨Function.update σ.table key (some s), σ.log ++ [.opened key s]⟩
  | reject (s : S) (hfresh : ident s ∉ (used σ.log).map ident) :
      Step ident σ ⟨σ.table, σ.log ++ [.rejected s]⟩
  | send (key : K) (s : S) (hentry : σ.table key = some s) :
      Step ident σ ⟨σ.table, σ.log ++ [.sent key s]⟩
  | close (key : K) (s : S) (hentry : σ.table key = some s) :
      Step ident σ ⟨Function.update σ.table key none, σ.log ++ [.closed key s]⟩
  | pass (key : Option K) (hentry : ∀ k ∈ key, σ.table k = none) :
      Step ident σ ⟨σ.table, σ.log ++ [.passed key]⟩

/-- The states of a router that starts with an empty table. -/
def Reachable [DecidableEq K] (ident : S → I) : State K S → Prop :=
  Relation.ReflTransGen (Step ident) ⟨fun _ => none, []⟩

/-! ## The life of a subscriber -/

section Life

variable (ident : S → I) (key : K) (s : S)

/-- The event is not about the subscriber. -/
def Spares (e : Event K S) : Prop := ∀ s' ∈ e.subscriber, ident s' ≠ ident s

/-- While the subscriber has the entry, it is sent whatever names the key, and no other
event is about it or opens the entry. -/
structure Serves (e : Event K S) : Prop where
  sent : e.key = some key → e = .sent key s
  spares : e.key ≠ some key → Spares ident s e
  keeps : ∀ s', e ≠ .opened key s'

/-- The subscriber loses the entry: another one takes it, or it is gone. -/
inductive Ends : Event K S → Prop where
  | replaced (s' : S) (hne : ident s' ≠ ident s) : Ends (.opened key s')
  | gone : Ends (.closed key s)

/-- What happened to a subscriber since it was opened, and what the table says about it:
it was served and has the entry, or it was served, lost the entry and was spared from
then on. -/
inductive Status (table : K → Option S) (events : List (Event K S)) : Prop where
  | active (hlive : ∀ e ∈ events, Serves ident key s e) (hentry : table key = some s)
      (hothers : ∀ k s', k ≠ key → table k = some s' → ident s' ≠ ident s)
  | ended (hlife : ∃ live e rest, events = live ++ e :: rest ∧
        (∀ e ∈ live, Serves ident key s e) ∧ Ends ident key s e ∧
        ∀ e' ∈ rest, Spares ident s e')
      (hnone : ∀ k s', table k = some s' → ident s' ≠ ident s)

variable {ident key s} {events : List (Event K S)}

/-- A subscriber that has the entry is served on. -/
theorem serves_concat (hlive : ∀ e ∈ events, Serves ident key s e) {e : Event K S}
    (he : Serves ident key s e) : ∀ e' ∈ events ++ [e], Serves ident key s e' := by
  intro e' hmem
  rcases List.mem_append.mp hmem with hmem | hmem
  · exact hlive e' hmem
  · rwa [List.mem_singleton.mp hmem]

/-- A subscriber that lost the entry is spared on. -/
theorem Status.ended_concat {table : K → Option S}
    (hlife : ∃ live e rest, events = live ++ e :: rest ∧
      (∀ e ∈ live, Serves ident key s e) ∧ Ends ident key s e ∧ ∀ e' ∈ rest, Spares ident s e')
    {e : Event K S} (he : Spares ident s e)
    (hnone : ∀ k s', table k = some s' → ident s' ≠ ident s) :
    Status ident key s table (events ++ [e]) := by
  obtain ⟨live, last, rest, rfl, hlive, hend, hrest⟩ := hlife
  refine .ended ⟨live, last, rest ++ [e], by simp, hlive, hend, fun e' hmem => ?_⟩ hnone
  rcases List.mem_append.mp hmem with hmem | hmem
  · exact hrest e' hmem
  · rwa [List.mem_singleton.mp hmem]

/-- An event that leaves the table as it is serves a subscriber that has the entry, and spares
one that lost it. -/
theorem Status.concat {table : K → Option S} (h : Status ident key s table events)
    {e : Event K S}
    (hserves : table key = some s → (∀ k s', k ≠ key → table k = some s' → ident s' ≠ ident s) →
      Serves ident key s e)
    (hspares : (∀ k s', table k = some s' → ident s' ≠ ident s) → Spares ident s e) :
    Status ident key s table (events ++ [e]) := by
  cases h with
  | active hlive hentry hothers =>
    exact .active (serves_concat hlive (hserves hentry hothers)) hentry hothers
  | ended hlife hnone => exact ended_concat hlife (hspares hnone) hnone

/-- An event that is about another subscriber spares this one. -/
theorem spares_of_subscriber {e : Event K S} {s' : S} (he : e.subscriber = some s')
    (hne : ident s' ≠ ident s) : Spares ident s e := by
  intro s'' hs''
  rw [he] at hs''
  cases hs''
  exact hne

end Life

section Steps

theorem used_append (log log' : List (Event K S)) : used (log ++ log') = used log ++ used log' :=
  List.filterMap_append

variable {ident : S → I}

/-- A newcomer is none of the subscribers that came before. -/
theorem ident_ne_of_fresh {log : List (Event K S)} {s s' : S}
    (hfresh : ident s' ∉ (used log).map ident) (hused : s ∈ used log) : ident s' ≠ ident s :=
  fun h => hfresh (h ▸ List.mem_map_of_mem hused)

variable [DecidableEq K] {σ σ' : State K S}

/-- The entries after one was opened or removed. -/
theorem entry_of_update {table : K → Option S} {key k : K} {entry : Option S} {s : S}
    (h : Function.update table key entry k = some s) :
    k = key ∧ entry = some s ∨ k ≠ key ∧ table k = some s := by
  by_cases hkey : k = key
  · subst hkey
    rw [Function.update_self] at h
    exact .inl ⟨rfl, h⟩
  · rw [Function.update_of_ne hkey] at h
    exact .inr ⟨hkey, h⟩

/-- The entries after one was removed. -/
theorem entry_of_update_none {table : K → Option S} {key k : K} {s : S}
    (h : Function.update table key none k = some s) : k ≠ key ∧ table k = some s :=
  (entry_of_update h).resolve_left fun hentry => nomatch hentry.2

/-- Every subscriber in the table was opened. -/
theorem Reachable.mem_used (h : Reachable ident σ) {key : K} {s : S}
    (hentry : σ.table key = some s) : s ∈ used σ.log := by
  induction h generalizing key s with
  | refl => cases hentry
  | tail _ hstep ih =>
    cases hstep with
    | accept key' s' hfresh =>
      rw [used_append]
      rcases entry_of_update hentry with ⟨rfl, ⟨⟩⟩ | ⟨-, hentry⟩
      · exact List.mem_append_right _ List.mem_cons_self
      · exact List.mem_append_left _ (ih hentry)
    | close key' s' hentry' =>
      rw [used_append]
      exact List.mem_append_left _ (ih (entry_of_update_none hentry).2)
    | reject | send | pass =>
      rw [used_append]
      exact List.mem_append_left _ (ih hentry)

/-- One step is one event. -/
theorem Step.exists_log_eq (hstep : Step ident σ σ') : ∃ e, σ'.log = σ.log ++ [e] := by
  cases hstep <;> exact ⟨_, rfl⟩

section Status

variable {key key' : K} {s s' : S} {events : List (Event K S)} {table : K → Option S}

/-- A newcomer takes the entry of a subscriber or another one. -/
theorem Status.accept (h : Status ident key s table events) (hne : ident s' ≠ ident s) :
    Status ident key s (Function.update table key' (some s')) (events ++ [.opened key' s']) := by
  cases h with
  | active hlive hentry hothers =>
    by_cases hkey : key' = key
    · subst hkey
      refine .ended ⟨events, _, [], rfl, hlive, .replaced s' hne, by simp⟩ fun k s'' hk => ?_
      rcases entry_of_update hk with ⟨-, ⟨⟩⟩ | ⟨hk, hs''⟩
      · exact hne
      · exact hothers k s'' hk hs''
    · have hserves : Serves ident key s (.opened key' s') :=
        ⟨nofun, fun _ => spares_of_subscriber rfl hne, fun _ h => hkey (by cases h; rfl)⟩
      refine .active (serves_concat hlive hserves) ?_ fun k s'' hk hs'' => ?_
      · exact (Function.update_of_ne (Ne.symm hkey) _ _).trans hentry
      · rcases entry_of_update hs'' with ⟨-, ⟨⟩⟩ | ⟨-, hs''⟩
        · exact hne
        · exact hothers k s'' hk hs''
  | ended hlife hnone =>
    refine ended_concat hlife (spares_of_subscriber rfl hne) fun k s'' hk => ?_
    rcases entry_of_update hk with ⟨-, ⟨⟩⟩ | ⟨-, hk⟩
    · exact hne
    · exact hnone k s'' hk

/-- The entry of a subscriber or another one is removed. -/
theorem Status.close (h : Status ident key s table events) (hentry' : table key' = some s') :
    Status ident key s (Function.update table key' none) (events ++ [.closed key' s']) := by
  cases h with
  | active hlive hentry hothers =>
    by_cases hkey : key' = key
    · subst hkey
      cases hentry.symm.trans hentry'
      refine .ended ⟨events, _, [], rfl, hlive, .gone, by simp⟩ fun k s'' hk => ?_
      have hk := entry_of_update_none hk
      exact hothers k s'' hk.1 hk.2
    · have hspares : Spares ident s (.closed key' s') :=
        spares_of_subscriber rfl (hothers key' s' hkey hentry')
      refine .active (serves_concat hlive
        ⟨fun h => absurd (Option.some.inj h) hkey, fun _ => hspares, nofun⟩) ?_ ?_
      · exact (Function.update_of_ne (Ne.symm hkey) _ _).trans hentry
      · exact fun k s'' hk hs'' => hothers k s'' hk (entry_of_update_none hs'').2
  | ended hlife hnone =>
    refine ended_concat hlife (spares_of_subscriber rfl (hnone _ _ hentry')) ?_
    exact fun k s'' hk => hnone k s'' (entry_of_update_none hk).2

end Status

/-- One step keeps the status of every subscriber that was opened. -/
theorem Status.step {key : K} {s : S} {events : List (Event K S)}
    (h : Status ident key s σ.table events) (hused : s ∈ used σ.log)
    (hstep : Step ident σ σ') :
    ∃ e, σ'.log = σ.log ++ [e] ∧ Status ident key s σ'.table (events ++ [e]) := by
  cases hstep with
  | accept key' s' hfresh => exact ⟨_, rfl, h.accept (ident_ne_of_fresh hfresh hused)⟩
  | reject s' hfresh =>
    have hspares : Spares ident s (.rejected s' : Event K S) :=
      spares_of_subscriber rfl (ident_ne_of_fresh hfresh hused)
    exact ⟨_, rfl, h.concat (fun _ _ => ⟨nofun, fun _ => hspares, nofun⟩) fun _ => hspares⟩
  | send key' s' hentry' =>
    refine ⟨_, rfl, h.concat (fun hentry hothers => ⟨fun hkey => ?_, fun hkey => ?_, nofun⟩)
      fun hnone => spares_of_subscriber rfl (hnone _ _ hentry')⟩
    · obtain rfl : key' = key := Option.some.inj hkey
      cases hentry.symm.trans hentry'
      rfl
    · exact spares_of_subscriber rfl (hothers key' s' (fun h => hkey (congrArg some h)) hentry')
  | close key' s' hentry' => exact ⟨_, rfl, h.close hentry'⟩
  | pass key' hentry' =>
    refine ⟨_, rfl, h.concat (fun hentry _ => ⟨fun hkey => ?_, fun _ => nofun, nofun⟩)
      fun _ => nofun⟩
    cases hentry.symm.trans (hentry' key hkey)

/-- **The life of a subscriber.** From the event that opens it on, a subscriber is served
until it loses the entry, and is spared from then on. -/
theorem Reachable.status (h : Reachable ident σ) {before after : List (Event K S)} {key : K} {s : S}
    (hlog : σ.log = before ++ .opened key s :: after) : Status ident key s σ.table after := by
  induction h generalizing after with
  | refl => simp at hlog
  | @tail σ σ' hreach hstep ih =>
    rcases List.eq_nil_or_concat after with rfl | ⟨after, e, rfl⟩
    · cases hstep with
      | accept key' s' hfresh =>
        obtain ⟨rfl, hopened⟩ := List.append_inj' hlog rfl
        cases hopened
        refine .active (by simp) (Function.update_self _ _ _) fun k s'' hk hs'' => ?_
        rcases entry_of_update hs'' with ⟨rfl, -⟩ | ⟨-, hs''⟩
        · exact absurd rfl hk
        · exact (ident_ne_of_fresh hfresh (Reachable.mem_used hreach hs'')).symm
      | reject | send | close | pass =>
        have hopened := (List.append_inj' hlog rfl).2
        cases hopened
    · rw [List.concat_eq_append, ← List.cons_append, ← List.append_assoc] at hlog
      rw [List.concat_eq_append]
      obtain ⟨e', he'⟩ := hstep.exists_log_eq
      obtain ⟨hbefore, he⟩ := List.append_inj' (he'.symm.trans hlog) rfl
      have hused : s ∈ used σ.log := by
        rw [hbefore, used_append]
        exact List.mem_append_right _ List.mem_cons_self
      obtain ⟨e'', he'', hstatus⟩ := (ih hbefore).step hused hstep
      cases List.append_cancel_left (he''.symm.trans (he'.trans (congrArg _ he)))
      exact hstatus

/-! ## Entries that were removed -/

/-- The table has no entry for a key that was closed and not opened again. -/
theorem Reachable.entry_eq_none (h : Reachable ident σ) {before mid : List (Event K S)} {key : K}
    {s : S} (hlog : σ.log = before ++ .closed key s :: mid) (hmid : ∀ s', .opened key s' ∉ mid) :
    σ.table key = none := by
  induction h generalizing mid with
  | refl => simp at hlog
  | @tail σ σ' hreach hstep ih =>
    rcases List.eq_nil_or_concat mid with rfl | ⟨mid, e, rfl⟩
    · cases hstep with
      | close key' s' hentry =>
        have hclosed := (List.append_inj' hlog rfl).2
        cases hclosed
        exact Function.update_self _ _ _
      | accept | reject | send | pass =>
        have hclosed := (List.append_inj' hlog rfl).2
        cases hclosed
    · rw [List.concat_eq_append] at hlog hmid
      rw [← List.cons_append, ← List.append_assoc] at hlog
      have hnone (hbefore : σ.log = before ++ .closed key s :: mid) : σ.table key = none :=
        ih hbefore fun s' hs' => hmid s' (List.mem_append_left _ hs')
      cases hstep with
      | accept key' s' hfresh =>
        obtain ⟨hbefore, he⟩ := List.append_inj' hlog rfl
        cases he
        have hkey : key ≠ key' := by
          rintro rfl
          exact hmid s' (List.mem_append_right _ List.mem_cons_self)
        exact (Function.update_of_ne hkey _ _).trans (hnone hbefore)
      | close key' s' hentry =>
        obtain ⟨hbefore, -⟩ := List.append_inj' hlog rfl
        by_cases hkey : key = key'
        · subst hkey
          exact Function.update_self _ _ _
        · exact (Function.update_of_ne hkey _ _).trans (hnone hbefore)
      | reject | send | pass =>
        obtain ⟨hbefore, -⟩ := List.append_inj' hlog rfl
        exact hnone hbefore

/-- Every closed entry was in the table of the router at that time. -/
theorem Reachable.exists_entry_of_closed (h : Reachable ident σ) {before after : List (Event K S)}
    {key : K} {s : S} (hlog : σ.log = before ++ .closed key s :: after) :
    ∃ σ₀, Reachable ident σ₀ ∧ σ₀.log = before ∧ σ₀.table key = some s := by
  induction h generalizing after with
  | refl => simp at hlog
  | @tail σ σ' hreach hstep ih =>
    rcases List.eq_nil_or_concat after with rfl | ⟨after, e, rfl⟩
    · cases hstep with
      | close key' s' hentry =>
        obtain ⟨hbefore, hclosed⟩ := List.append_inj' hlog rfl
        cases hclosed
        exact ⟨σ, hreach, hbefore, hentry⟩
      | accept | reject | send | pass =>
        have hclosed := (List.append_inj' hlog rfl).2
        cases hclosed
    · obtain ⟨e', he'⟩ := hstep.exists_log_eq
      rw [List.concat_eq_append, ← List.cons_append, ← List.append_assoc] at hlog
      exact ih (List.append_inj' (he'.symm.trans hlog) rfl).1

/-- **No key is closed twice in a row.** Between two events that close a key it was opened. -/
theorem Reachable.exists_opened (h : Reachable ident σ) {before mid after : List (Event K S)}
    {key : K} {s s' : S}
    (hlog : σ.log = before ++ .closed key s :: (mid ++ .closed key s' :: after)) :
    ∃ s'', .opened key s'' ∈ mid := by
  by_contra hmid
  rw [← List.cons_append, ← List.append_assoc] at hlog
  obtain ⟨σ₀, hreach, hlog₀, hentry⟩ := h.exists_entry_of_closed hlog
  have hnone := hreach.entry_eq_none hlog₀ (not_exists.mp hmid)
  rw [hnone] at hentry
  cases hentry

end Steps

end Router
