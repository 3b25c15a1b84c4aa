import JsonRpc.Lib.Runs

/-!
# The contract of a sink

A sink may be given an item only after it answered that it is ready, once for each
item. Whoever uses a sink makes a list of calls, and the contract is a property of
that list. It can be checked call by call, with one bit of memory: whether the sink
was ready since it was last given an item.
-/

namespace SinkContract

/-- A call of a sink. -/
inductive SinkCall (I : Type*) where
  /-- The sink was asked whether it is ready, and answered. -/
  | ready (answer : Bool)
  /-- The sink was given an item. -/
  | send (item : I)
  /-- The sink was asked to flush or to close. -/
  | other
  deriving DecidableEq

variable {I : Type*}

/-- The sink was ready, and was given no item afterwards. -/
def WasReady (calls : List (SinkCall I)) : Prop :=
  ∃ earlier later, calls = earlier ++ .ready true :: later ∧ ∀ item, .send item ∉ later

/-- Every item is given to the sink after the sink was ready, since the item before. -/
def Respects (calls : List (SinkCall I)) : Prop :=
  ∀ before item after, calls = before ++ .send item :: after → WasReady before

/-- Whether the sink is ready after a call. -/
def next (ready : Bool) : SinkCall I → Bool
  | .ready true => true
  | .send _ => false
  | .ready false | .other => ready

/-- The sink was ready since it was last given an item. -/
def isReady (calls : List (SinkCall I)) : Bool := Runs.run next false calls

/-- The calls respect the contract of a sink that is ready, or not. -/
def RespectsFrom : Bool → List (SinkCall I) → Prop
  | _, [] => True
  | ready, .send item :: calls => ready = true ∧ RespectsFrom (next ready (.send item)) calls
  | ready, call :: calls => RespectsFrom (next ready call) calls

theorem wasReady_concat (calls : List (SinkCall I)) (call : SinkCall I) :
    WasReady (calls ++ [call]) ↔
      call = .ready true ∨ WasReady calls ∧ ∀ item, call ≠ .send item := by
  constructor
  · rintro ⟨earlier, later, hcalls, hlater⟩
    rcases List.eq_nil_or_concat later with rfl | ⟨later, call', rfl⟩
    · obtain ⟨-, hcall⟩ := List.append_inj' hcalls rfl
      cases hcall
      exact .inl rfl
    · rw [List.concat_eq_append, ← List.cons_append, ← List.append_assoc] at hcalls
      rw [List.concat_eq_append] at hlater
      obtain ⟨hbefore, hcall⟩ := List.append_inj' hcalls rfl
      cases hcall
      refine .inr ⟨⟨earlier, later, hbefore, fun item hmem => ?_⟩, fun item hcall => ?_⟩
      · exact hlater item (List.mem_append_left _ hmem)
      · exact hlater item (List.mem_append_right _ (hcall ▸ List.mem_cons_self))
  · rintro (rfl | ⟨⟨earlier, later, rfl, hlater⟩, hcall⟩)
    · exact ⟨calls, [], rfl, nofun⟩
    · refine ⟨earlier, later ++ [call], by simp, fun item hmem => ?_⟩
      rcases List.mem_append.mp hmem with hmem | hmem
      · exact hlater item hmem
      · exact hcall item (List.mem_singleton.mp hmem).symm

theorem isReady_concat (calls : List (SinkCall I)) (call : SinkCall I) :
    isReady (calls ++ [call]) = next (isReady calls) call :=
  Runs.run_concat _ _ _

theorem isReady_iff (calls : List (SinkCall I)) : isReady calls = true ↔ WasReady calls := by
  induction calls using List.reverseRecOn with
  | nil => simp [isReady, Runs.run, WasReady]
  | append_singleton calls call ih =>
    rw [isReady_concat, wasReady_concat]
    cases call with
    | send item => simp [next]
    | other => simp [next, ih]
    | ready answer => cases answer <;> simp [next, ih]

theorem respectsFrom_append (ready : Bool) (calls calls' : List (SinkCall I)) :
    RespectsFrom ready (calls ++ calls') ↔
      RespectsFrom ready calls ∧ RespectsFrom (Runs.run next ready calls) calls' := by
  induction calls generalizing ready with
  | nil => simp [RespectsFrom, Runs.run]
  | cons call calls ih =>
    have hrun : Runs.run next ready (call :: calls) = Runs.run next (next ready call) calls := rfl
    cases call <;> simp only [List.cons_append, RespectsFrom, ih, hrun, and_assoc]

/-- The last call. -/
theorem respects_concat (calls : List (SinkCall I)) (call : SinkCall I) :
    Respects (calls ++ [call]) ↔
      Respects calls ∧ ∀ item, call = .send item → isReady calls = true := by
  constructor
  · intro h
    refine ⟨fun before item after hcalls => ?_, fun item hcall => ?_⟩
    · exact h before item (after ++ [call]) (by simp [hcalls])
    · exact (isReady_iff calls).mpr (h calls item [] (hcall ▸ rfl))
  · rintro ⟨h, hlast⟩ before item after hcalls
    rcases List.eq_nil_or_concat after with rfl | ⟨after, call', rfl⟩
    · obtain ⟨rfl, hcall⟩ := List.append_inj' hcalls rfl
      exact (isReady_iff _).mp (hlast item (List.singleton_inj.mp hcall))
    · rw [List.concat_eq_append, ← List.cons_append, ← List.append_assoc] at hcalls
      exact h before item after (List.append_inj' hcalls rfl).1

/-- The contract can be checked call by call. -/
theorem respects_iff (calls : List (SinkCall I)) : Respects calls ↔ RespectsFrom false calls := by
  induction calls using List.reverseRecOn with
  | nil => simp [Respects, RespectsFrom]
  | append_singleton calls call ih =>
    rw [respects_concat, respectsFrom_append, ih, ← isReady]
    cases call <;> simp [RespectsFrom]

/-- More calls respect the contract if they go on as they should. -/
theorem respects_append (calls calls' : List (SinkCall I)) :
    Respects (calls ++ calls') ↔ Respects calls ∧ RespectsFrom (isReady calls) calls' := by
  rw [respects_iff, respectsFrom_append, ← respects_iff]
  rfl

end SinkContract
