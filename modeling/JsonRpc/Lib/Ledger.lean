import Mathlib.Data.List.Basic
import Mathlib.Data.List.Nodup
import Mathlib.Logic.Function.Basic
import Mathlib.Logic.Relation
import Mathlib.Tactic.Common

/-!
# Entries that are settled once

A ledger has a table of entries. An entry leaves the table when a later entry takes
its key, when it is removed, or when a part of the table is cleared. From then on a
settlement is owed for it, and whoever owes it settles it at some later time. Every
entry is settled at most once, and once it has left the table and nothing is owed, it
was settled exactly once.
-/

namespace Ledger

/-- The table, what is owed for entries that left it, what was settled, and all entries
that were ever added. -/
structure State (K E R : Type*) where
  table : K → Option E
  owed : List (E × R)
  settled : List (E × R)
  added : List E

variable {K E R I : Type*} [DecidableEq I] {keyOf : E → K} {ident : E → I}

/-- One step of a ledger. -/
inductive Step [DecidableEq K] (keyOf : E → K) (ident : E → I) (σ : State K E R) :
    State K E R → Prop where
  /-- An entry is added, and may take the key of another one. -/
  | add (e : E) (r : R) (hfresh : ident e ∉ σ.added.map ident) :
      Step keyOf ident σ
        { σ with
          table := Function.update σ.table (keyOf e) (some e)
          owed := σ.owed ++ (σ.table (keyOf e)).toList.map (·, r)
          added := σ.added ++ [e] }
  /-- An entry is removed. -/
  | remove (e : E) (r : R) (hentry : σ.table (keyOf e) = some e) :
      Step keyOf ident σ
        { σ with
          table := Function.update σ.table (keyOf e) none
          owed := σ.owed ++ [(e, r)] }
  /-- A part of the table is cleared. -/
  | clear (part : K → Prop) [DecidablePred part] (out : List E) (r : R)
      (hnodup : (out.map ident).Nodup)
      (hout : ∀ e, e ∈ out ↔ part (keyOf e) ∧ σ.table (keyOf e) = some e) :
      Step keyOf ident σ
        { σ with
          table := fun k => if part k then none else σ.table k
          owed := σ.owed ++ out.map (·, r) }
  /-- Something that is owed is settled. -/
  | settle (x : E × R) (owed : List (E × R)) (howed : σ.owed.Perm (x :: owed)) :
      Step keyOf ident σ { σ with owed, settled := σ.settled ++ [x] }

/-- How often an entry is owed or settled. -/
def State.count (ident : E → I) (σ : State K E R) (e : E) : ℕ :=
  ((σ.owed ++ σ.settled).map fun x => ident x.1).count (ident e)

/-- An entry is in the table and neither owed nor settled, or it has left the table and is
owed or settled once. -/
structure Inv (keyOf : E → K) (ident : E → I) (σ : State K E R) : Prop where
  keyed : ∀ {k e}, σ.table k = some e → keyOf e = k ∧ e ∈ σ.added
  nodup_added : (σ.added.map ident).Nodup
  account_added : ∀ x ∈ σ.owed ++ σ.settled, x.1 ∈ σ.added
  once : ∀ e ∈ σ.added, σ.table (keyOf e) = some e ∧ σ.count ident e = 0 ∨
    σ.table (keyOf e) ≠ some e ∧ σ.count ident e = 1

/-- A ledger without entries. -/
theorem Inv.init : Inv keyOf ident (⟨fun _ => none, [], [], []⟩ : State K E R) :=
  ⟨nofun, .nil, nofun, nofun⟩

variable {σ : State K E R}

/-- The invariant is about the four parts of the state. -/
theorem Inv.of_eq {σ' : State K E R} (h : Inv keyOf ident σ) (htable : σ'.table = σ.table)
    (howed : σ'.owed = σ.owed) (hsettled : σ'.settled = σ.settled) (hadded : σ'.added = σ.added) :
    Inv keyOf ident σ' := by
  cases σ
  cases σ'
  subst htable howed hsettled hadded
  exact h

/-- Entries that were added are determined by their identity. -/
theorem Inv.eq_of_ident (h : Inv keyOf ident σ) {e e' : E} (he : e ∈ σ.added) (he' : e' ∈ σ.added)
    (hident : ident e = ident e') : e = e' :=
  List.inj_on_of_nodup_map h.nodup_added he he' hident

/-- An entry that is still to be added is neither owed nor settled. -/
theorem Inv.count_eq_zero (h : Inv keyOf ident σ) {e : E} (hfresh : ident e ∉ σ.added.map ident) :
    σ.count ident e = 0 := by
  apply List.count_eq_zero_of_not_mem
  intro hmem
  obtain ⟨x, hx, hident⟩ := List.mem_map.mp hmem
  exact hfresh (hident ▸ List.mem_map_of_mem (h.account_added x hx))

/-- Entries leave the table, and are owed from then on. -/
theorem Inv.release (h : Inv keyOf ident σ) {table : K → Option E} {out : List E} (r : R)
    (hnodup : (out.map ident).Nodup) (hout : ∀ e ∈ out, σ.table (keyOf e) = some e)
    (htable : ∀ k e, table k = some e ↔ σ.table k = some e ∧ e ∉ out) :
    Inv keyOf ident ⟨table, σ.owed ++ out.map (·, r), σ.settled, σ.added⟩ := by
  have hadded : ∀ e ∈ out, e ∈ σ.added := fun e he => (h.keyed (hout e he)).2
  have hcount (e : E) : State.count ident ⟨table, σ.owed ++ out.map (·, r), σ.settled, σ.added⟩ e =
      σ.count ident e + (out.map ident).count (ident e) := by
    have hmap : (out.map (·, r)).map (fun x => ident x.1) = out.map ident := List.map_map
    simp only [State.count, List.map_append, List.count_append, hmap]
    omega
  refine ⟨fun hk => h.keyed ((htable _ _).mp hk).1, h.nodup_added, fun x hx => ?_, fun e he => ?_⟩
  · simp only [List.append_assoc, List.mem_append] at hx
    rcases hx with hx | hx | hx
    · exact h.account_added x (List.mem_append_left _ hx)
    · obtain ⟨e, he, rfl⟩ := List.mem_map.mp hx
      exact hadded e he
    · exact h.account_added x (List.mem_append_right _ hx)
  · rw [hcount]
    by_cases hmem : e ∈ out
    · have hone := List.count_eq_one_of_mem hnodup (List.mem_map_of_mem hmem)
      rcases h.once e he with ⟨-, hzero⟩ | ⟨hleft, -⟩
      · exact .inr ⟨fun hkeep => ((htable _ _).mp hkeep).2 hmem, by omega⟩
      · exact absurd (hout e hmem) hleft
    · have hzero : (out.map ident).count (ident e) = 0 := by
        apply List.count_eq_zero_of_not_mem
        intro hident
        obtain ⟨e', he', heq⟩ := List.mem_map.mp hident
        exact hmem (h.eq_of_ident (hadded e' he') he heq ▸ he')
      rw [hzero]
      rcases h.once e he with ⟨hheld, hcount⟩ | ⟨hleft, hcount⟩
      · exact .inl ⟨(htable _ _).mpr ⟨hheld, hmem⟩, hcount⟩
      · exact .inr ⟨fun hkeep => hleft ((htable _ _).mp hkeep).1, hcount⟩

variable [DecidableEq K] {σ' : State K E R}

/-- An entry is added under a key without an entry. -/
theorem Inv.insert (h : Inv keyOf ident σ) {e : E} (hfresh : ident e ∉ σ.added.map ident)
    (hfree : σ.table (keyOf e) = none) :
    Inv keyOf ident
      { σ with
        table := Function.update σ.table (keyOf e) (some e)
        added := σ.added ++ [e] } := by
  refine ⟨fun {k e'} hk => ?_, ?_, fun x hx => ?_, fun e' he' => ?_⟩
  · dsimp only at hk ⊢
    by_cases hkey : k = keyOf e
    · subst hkey
      rw [Function.update_self] at hk
      cases hk
      exact ⟨rfl, List.mem_append_right _ List.mem_cons_self⟩
    · rw [Function.update_of_ne hkey] at hk
      exact ⟨(h.keyed hk).1, List.mem_append_left _ (h.keyed hk).2⟩
  · rw [List.map_append, List.nodup_append]
    refine ⟨h.nodup_added, List.nodup_singleton _, fun i hi j hj hij => ?_⟩
    rw [List.mem_singleton.mp hj] at hij
    exact hfresh (hij ▸ hi)
  · exact List.mem_append_left _ (h.account_added x hx)
  · rcases List.mem_append.mp he' with he' | he'
    · rcases h.once e' he' with ⟨hheld, hcount⟩ | ⟨hleft, hcount⟩
      · have hkey : keyOf e' ≠ keyOf e := by
          intro hkey
          rw [hkey, hfree] at hheld
          cases hheld
        exact .inl ⟨(Function.update_of_ne hkey _ _).trans hheld, hcount⟩
      · refine .inr ⟨fun hheld => ?_, hcount⟩
        dsimp only at hheld
        by_cases hkey : keyOf e' = keyOf e
        · rw [hkey, Function.update_self] at hheld
          cases hheld
          exact hfresh (List.mem_map_of_mem he')
        · exact hleft ((Function.update_of_ne hkey _ _).symm.trans hheld)
    · rw [List.mem_singleton.mp he']
      exact .inl ⟨Function.update_self _ _ _, h.count_eq_zero hfresh⟩

/-- The entries of a table after the one of a key has left it. -/
theorem Inv.update_none_eq_some (h : Inv keyOf ident σ) {key k : K} {e : E} :
    Function.update σ.table key none k = some e ↔
      σ.table k = some e ∧ e ∉ (σ.table key).toList := by
  by_cases hkey : k = key
  · subst hkey
    rw [Function.update_self]
    exact ⟨nofun, fun ⟨he, hne⟩ => absurd (Option.mem_toList.mpr he) hne⟩
  · rw [Function.update_of_ne hkey]
    refine ⟨fun he => ⟨he, fun hmem => hkey ?_⟩, And.left⟩
    exact (h.keyed he).1.symm.trans (h.keyed (Option.mem_toList.mp hmem)).1

/-- The entry of a key leaves the table. -/
theorem Inv.evict (h : Inv keyOf ident σ) (key : K) (r : R) :
    Inv keyOf ident
      { σ with
        table := Function.update σ.table key none
        owed := σ.owed ++ (σ.table key).toList.map (·, r) } := by
  refine h.release r ?_ (fun e he => ?_) fun k e => h.update_none_eq_some
  · cases σ.table key with
    | none => exact .nil
    | some e => exact List.nodup_singleton _
  · have hentry := Option.mem_toList.mp he
    rwa [(h.keyed hentry).1]

/-- Every step keeps the invariant. -/
theorem Inv.step (h : Inv keyOf ident σ) (hstep : Step keyOf ident σ σ') : Inv keyOf ident σ' := by
  cases hstep with
  | add e r hfresh =>
    have hinsert := (h.evict (keyOf e) r).insert hfresh (Function.update_self _ _ _)
    rwa [Function.update_idem] at hinsert
  | remove e r hentry =>
    have hevict := h.evict (keyOf e) r
    rwa [hentry] at hevict
  | @clear part _ out r hnodup hout =>
    refine h.release r hnodup (fun e he => ((hout e).mp he).2) fun k e => ?_
    by_cases hpart : part k
    · rw [if_pos hpart]
      refine ⟨nofun, fun ⟨he, hne⟩ => absurd ((hout e).mpr ?_) hne⟩
      rw [(h.keyed he).1]
      exact ⟨hpart, he⟩
    · rw [if_neg hpart]
      refine ⟨fun he => ⟨he, fun hmem => hpart ?_⟩, And.left⟩
      exact (h.keyed he).1 ▸ ((hout e).mp hmem).1
  | settle x owed howed =>
    have hperm : (owed ++ (σ.settled ++ [x])).Perm (σ.owed ++ σ.settled) := by
      rw [← List.append_assoc]
      exact List.perm_append_comm.trans (howed.symm.append_right σ.settled)
    refine ⟨h.keyed, h.nodup_added, fun y hy => h.account_added y (hperm.mem_iff.mp hy),
      fun e he => ?_⟩
    have hcount : State.count ident
        { σ with owed, settled := σ.settled ++ [x] } e = σ.count ident e :=
      (hperm.map _).count_eq _
    rw [hcount]
    exact h.once e he

end Ledger
