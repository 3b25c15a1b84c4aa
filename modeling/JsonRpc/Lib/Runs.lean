import Mathlib.Data.List.Induction
import Mathlib.Tactic.Common

/-!
# Runs of a machine

A machine is a step function on states and labels. A run takes one step for each
label of a list. A property that every step keeps holds after every run. What a run
leaves behind is a trace, and an observer of the trace sees some of its entries.
-/

namespace Runs

variable {S L : Type*}

/-- The state after taking one step for each label. -/
def run (step : S → L → S) (s : S) (ls : List L) : S := ls.foldl step s

variable (step : S → L → S) {s : S}

/-- A run after a run is a run. -/
theorem run_append (ls ls' : List L) : run step s (ls ++ ls') = run step (run step s ls) ls' :=
  List.foldl_append

/-- The last step of a run. -/
@[simp] theorem run_concat (ls : List L) (l : L) :
    run step s (ls ++ [l]) = step (run step s ls) l := by
  rw [run_append]
  rfl

variable {step}

/-- **Invariant rule.** A property of the start that every step keeps holds
after every run. -/
theorem run_invariant {I : S → Prop} (hstart : I s) (hstep : ∀ s l, I s → I (step s l))
    (ls : List L) : I (run step s ls) := by
  induction ls using List.reverseRecOn with
  | nil => exact hstart
  | append_singleton ls l ih =>
    rw [run_concat]
    exact hstep _ _ ih

/-- A property of the start that the steps of a run keep holds after the run. -/
theorem run_invariant_of_mem {I : S → Prop} {ls : List L} (hstart : I s)
    (hstep : ∀ s, ∀ l ∈ ls, I s → I (step s l)) : I (run step s ls) := by
  induction ls using List.reverseRecOn with
  | nil => exact hstart
  | append_singleton ls l ih =>
    rw [run_concat]
    exact hstep _ l (by simp) (ih fun s l hl => hstep s l (List.mem_append_left _ hl))

/-- A run takes a step with a property. -/
def Occurs (step : S → L → S) (s : S) (P : S → L → Prop) (ls : List L) : Prop :=
  ∃ before l rest, ls = before ++ l :: rest ∧ P (run step s before) l

variable {P : S → L → Prop}

theorem not_occurs_nil : ¬ Occurs step s P [] := by
  rintro ⟨before, l, rest, hnil, -⟩
  simp at hnil

theorem Occurs.append {ls : List L} (h : Occurs step s P ls) (ls' : List L) :
    Occurs step s P (ls ++ ls') := by
  obtain ⟨before, l, rest, rfl, hP⟩ := h
  exact ⟨before, l, rest ++ ls', by simp, hP⟩

theorem occurs_concat {ls : List L} {l : L} :
    Occurs step s P (ls ++ [l]) ↔ Occurs step s P ls ∨ P (run step s ls) l := by
  constructor
  · rintro ⟨before, l', rest, hls, hP⟩
    rcases List.eq_nil_or_concat rest with rfl | ⟨rest, l'', rfl⟩
    · obtain ⟨rfl, hl⟩ := List.append_inj' hls rfl
      cases hl
      exact .inr hP
    · rw [List.concat_eq_append, ← List.cons_append, ← List.append_assoc] at hls
      obtain ⟨rfl, -⟩ := List.append_inj' hls rfl
      exact .inl ⟨before, l', rest, rfl, hP⟩
  · rintro (⟨before, l', rest, rfl, hP⟩ | hP)
    · exact ⟨before, l', rest ++ [l], by simp, hP⟩
    · exact ⟨ls, l, [], rfl, hP⟩

/-- A property that the steps of a kind bring about, and every step keeps, holds after a run
that takes such a step. -/
theorem of_occurs {Q : S → Prop} (hP : ∀ s l, P s l → Q (step s l))
    (hQ : ∀ s l, Q s → Q (step s l)) {ls : List L} (h : Occurs step s P ls) :
    Q (run step s ls) := by
  obtain ⟨before, l, rest, rfl, hl⟩ := h
  rw [run_append]
  exact run_invariant (hP _ l hl) hQ rest

/-- A property of the end that did not hold at the start was gained by a step of the run. -/
theorem occurs_of_gained {I Q : S → Prop} (hI : I s) (hIstep : ∀ s l, I s → I (step s l))
    (hstart : ¬ Q s) (hstep : ∀ s l, I s → Q (step s l) → Q s ∨ P s l) (ls : List L)
    (hQ : Q (run step s ls)) : Occurs step s P ls := by
  induction ls using List.reverseRecOn with
  | nil => exact absurd hQ hstart
  | append_singleton ls l ih =>
    rw [run_concat] at hQ
    rw [occurs_concat]
    exact (hstep _ l (run_invariant hI hIstep ls) hQ).imp_left ih

/-- **History rule.** A property of states that is gained by the steps of a kind and never
lost says that a run took such a step. It is enough to look at states with an invariant. -/
theorem occurs_iff_of_invariant {I Q : S → Prop} (hI : I s) (hIstep : ∀ s l, I s → I (step s l))
    (hstart : ¬ Q s) (hstep : ∀ s l, I s → (Q (step s l) ↔ Q s ∨ P s l)) (ls : List L) :
    Occurs step s P ls ↔ Q (run step s ls) := by
  induction ls using List.reverseRecOn with
  | nil => exact iff_of_false not_occurs_nil hstart
  | append_singleton ls l ih =>
    rw [occurs_concat, ih, run_concat, hstep _ l (run_invariant hI hIstep ls)]

theorem occurs_iff {Q : S → Prop} (hstart : ¬ Q s) (hstep : ∀ s l, Q (step s l) ↔ Q s ∨ P s l)
    (ls : List L) : Occurs step s P ls ↔ Q (run step s ls) :=
  occurs_iff_of_invariant (I := fun _ => True) trivial (fun _ _ _ => trivial) hstart
    (fun s l _ => hstep s l) ls

/-- **Safety rule.** If a property of the start survives a step if and only if the step is
not of a kind, then it holds all along a run if and only if the run takes no such step. -/
theorem forall_prefix_iff_not_occurs {Q : S → Prop} (hstart : Q s)
    (hstep : ∀ s l, Q s → (Q (step s l) ↔ ¬ P s l)) (ls : List L) :
    (∀ before rest, ls = before ++ rest → Q (run step s before)) ↔ ¬ Occurs step s P ls := by
  constructor
  · rintro hall ⟨before, l, rest, rfl, hP⟩
    have hafter := hall (before ++ [l]) rest (by simp)
    rw [run_concat] at hafter
    exact (hstep _ l (hall before (l :: rest) rfl)).mp hafter hP
  · intro hnot before
    induction before using List.reverseRecOn with
    | nil => exact fun _ _ => hstart
    | append_singleton before l ih =>
      rintro rest rfl
      rw [run_concat, hstep _ l (ih (l :: rest) (by simp))]
      exact fun hP => hnot ⟨before, l, rest, by simp, hP⟩

/-! ## Outputs -/

section Outputs

variable {E : Type*} {out : S → L → E}

/-- What a machine puts out along a run, one output for each step. -/
def outputs (step : S → L → S) (out : S → L → E) (s : S) : List L → List E
  | [] => []
  | l :: ls => out s l :: outputs step out (step s l) ls

theorem outputs_append (ls ls' : List L) :
    outputs step out s (ls ++ ls') =
      outputs step out s ls ++ outputs step out (run step s ls) ls' := by
  induction ls generalizing s with
  | nil => rfl
  | cons first ls ih => exact congrArg (out s first :: ·) ih

@[simp] theorem outputs_concat (ls : List L) (l : L) :
    outputs step out s (ls ++ [l]) = outputs step out s ls ++ [out (run step s ls) l] :=
  outputs_append ls [l]

/-- **Invariant rule for outputs.** A relation between the state and what has been put out
holds after every run if every step keeps it. -/
theorem outputs_invariant {I : S → List E → Prop} (hstart : I s [])
    (hstep : ∀ s es l, I s es → I (step s l) (es ++ [out s l])) (ls : List L) :
    I (run step s ls) (outputs step out s ls) := by
  induction ls using List.reverseRecOn with
  | nil => exact hstart
  | append_singleton ls l ih =>
    rw [run_concat, outputs_concat]
    exact hstep _ _ _ ih

/-- An output is put out by a step, after a run that put out what comes before it. -/
theorem exists_of_outputs_eq {ls : List L} {before rest : List E} {e : E}
    (h : outputs step out s ls = before ++ e :: rest) :
    ∃ earlier l, outputs step out s earlier = before ∧ out (run step s earlier) l = e := by
  induction ls using List.reverseRecOn generalizing rest with
  | nil => simp [outputs] at h
  | append_singleton ls l ih =>
    rw [outputs_concat] at h
    rcases List.eq_nil_or_concat rest with rfl | ⟨rest, last, rfl⟩
    · obtain ⟨hbefore, he⟩ := List.append_inj' h rfl
      cases he
      exact ⟨ls, l, hbefore, rfl⟩
    · rw [List.concat_eq_append, ← List.cons_append, ← List.append_assoc] at h
      obtain ⟨hbefore, -⟩ := List.append_inj' h rfl
      exact ih hbefore

end Outputs

/-- An observer that sees no entry of a kind sees nothing in a trace of that kind. -/
theorem filterMap_eq_nil_of_all {E O : Type*} {kind : E → Bool} {observe : E → Option O}
    {trace : List E} (htrace : trace.all kind) (hobserve : ∀ e, kind e → observe e = none) :
    trace.filterMap observe = [] :=
  List.filterMap_eq_nil_iff.mpr fun e he => hobserve e (List.all_eq_true.mp htrace e he)

end Runs
