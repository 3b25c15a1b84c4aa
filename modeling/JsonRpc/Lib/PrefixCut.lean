import Mathlib.Data.List.Basic
import Mathlib.Data.List.Infix

/-!
# Cutting a growing buffer into frames

A stateless framing decoder looks at a buffer from its start and either finds
the end of a first frame or asks for more input. The cut it finds may depend
only on the bytes up to the cut. From that one property, this file derives that
the frames of a stream do not depend on how the stream arrives in chunks. The
alphabet is arbitrary.
-/

namespace PrefixCut

/-- A rule that finds the end of the first frame of a buffer. The last field
says that the end it finds is decided by the symbols before it. -/
structure Rule (α : Type*) where
  /-- The length of the first frame, when the buffer holds a complete one. -/
  cut : List α → Option ℕ
  /-- A frame is never empty, so cutting makes progress. -/
  cut_pos : ∀ {s n}, cut s = some n → 0 < n
  /-- A frame lies inside the buffer. -/
  cut_le : ∀ {s n}, cut s = some n → n ≤ s.length
  /-- More input does not move a cut that was found. -/
  cut_append : ∀ {s n} (t : List α), cut s = some n → cut (s ++ t) = some n

variable {α : Type*}

/-- All frames of a buffer, and the incomplete remainder after them. -/
def Rule.frames (rule : Rule α) (s : List α) : List (List α) × List α :=
  match _h : rule.cut s with
  | none => ([], s)
  | some n =>
    let tail := rule.frames (s.drop n)
    (s.take n :: tail.1, tail.2)
termination_by s.length
decreasing_by
  have hpos := rule.cut_pos _h
  have hle := rule.cut_le _h
  simp only [List.length_drop]
  omega

/-- A buffer without a complete frame is its own remainder. -/
theorem Rule.frames_of_cut_none {rule : Rule α} {s : List α} (h : rule.cut s = none) :
    rule.frames s = ([], s) := by
  rw [Rule.frames]
  split
  · rfl
  · simp_all

/-- A complete first frame is followed by the frames of what comes after it. -/
theorem Rule.frames_of_cut_some {rule : Rule α} {s : List α} {n : ℕ} (h : rule.cut s = some n) :
    rule.frames s = (s.take n :: (rule.frames (s.drop n)).1, (rule.frames (s.drop n)).2) := by
  rw [Rule.frames]
  split
  · simp_all
  · rename_i k hk
    have hkn : k = n := by simpa [h] using hk.symm
    subst hkn
    rfl

/-- Induction along the frames of a buffer. -/
theorem Rule.frames_induction (rule : Rule α) {motive : List α → Prop}
    (incomplete : ∀ s, rule.cut s = none → motive s)
    (frame : ∀ s n, rule.cut s = some n → motive (s.drop n) → motive s) (s : List α) :
    motive s := by
  induction hlen : s.length using Nat.strong_induction_on generalizing s with
  | _ len ih =>
    cases h : rule.cut s with
    | none => exact incomplete s h
    | some n =>
      have hpos := rule.cut_pos h
      have hle := rule.cut_le h
      refine frame s n h (ih (s.drop n).length ?_ _ rfl)
      simp only [List.length_drop]
      omega

/-- No symbol is lost or reordered: the frames followed by the remainder are
the buffer. -/
theorem Rule.frames_flatten (rule : Rule α) (s : List α) :
    (rule.frames s).1.flatten ++ (rule.frames s).2 = s := by
  induction s using rule.frames_induction with
  | incomplete s h => simp [Rule.frames_of_cut_none h]
  | frame s n h ih =>
    rw [Rule.frames_of_cut_some h]
    simp only [List.flatten_cons, List.append_assoc, ih, List.take_append_drop]

/-- The remainder holds no complete frame. -/
theorem Rule.cut_frames_snd (rule : Rule α) (s : List α) : rule.cut (rule.frames s).2 = none := by
  induction s using rule.frames_induction with
  | incomplete s h => rwa [Rule.frames_of_cut_none h]
  | frame s n h ih => rwa [Rule.frames_of_cut_some h]

/-- Appending input continues from the remainder: the frames found so far are
kept, and the new ones are those of the remainder with the input added. -/
theorem Rule.frames_append (rule : Rule α) (s t : List α) :
    rule.frames (s ++ t) =
      ((rule.frames s).1 ++ (rule.frames ((rule.frames s).2 ++ t)).1,
        (rule.frames ((rule.frames s).2 ++ t)).2) := by
  induction s using rule.frames_induction with
  | incomplete s h => simp [Rule.frames_of_cut_none h]
  | frame s n h ih =>
    have hle := rule.cut_le h
    rw [Rule.frames_of_cut_some (rule.cut_append t h), Rule.frames_of_cut_some h,
      List.drop_append_of_le_length hle, List.take_append_of_le_length hle, ih]
    rfl

/-- Frames of a stream that arrives in chunks: each chunk is appended to the
remainder of the previous ones, which is then cut as far as possible. -/
def Rule.feed (rule : Rule α) (start : List α) : List (List α) → List (List α) × List α
  | [] => ([], start)
  | chunk :: chunks =>
    let now := rule.frames (start ++ chunk)
    let later := rule.feed now.2 chunks
    (now.1 ++ later.1, later.2)

/-- Arrival in chunks gives the frames of the whole stream, provided the
remainder one starts from holds no complete frame. -/
theorem Rule.feed_eq_frames (rule : Rule α) {start : List α} (hstart : rule.cut start = none)
    (chunks : List (List α)) : rule.feed start chunks = rule.frames (start ++ chunks.flatten) := by
  induction chunks generalizing start with
  | nil => simp [Rule.feed, Rule.frames_of_cut_none hstart]
  | cons chunk chunks ih =>
    rw [Rule.feed, ih (rule.cut_frames_snd _), List.flatten_cons, ← List.append_assoc,
      rule.frames_append (start ++ chunk)]

end PrefixCut
