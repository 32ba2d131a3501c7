import Mathlib.Data.List.Basic

/-
  Input that is taken in blocks.

  `feed` takes a block off the input as long as there is one and
  `k` more, and leaves the rest. It does not matter how the input
  is cut.

  Main declarations:
    * `feed`
    * `feed_append`
-/

namespace Horus.Lib

variable {α H : Type} {n k : Nat} {f : H → List α → H} {h : H} {xs : List α}

def feed (n k : Nat) (f : H → List α → H) (h : H) (xs : List α) : H × List α :=
  if 0 < n ∧ n + k ≤ xs.length then feed n k f (f h (xs.take n)) (xs.drop n) else (h, xs)
termination_by xs.length
decreasing_by
  rw [List.length_drop]
  omega

theorem feed_short (hShort : xs.length < n + k) : feed n k f h xs = (h, xs) := by
  rw [feed, if_neg (by omega)]

/- The next block begins with what was left before. -/
theorem feed_next {ys : List α} (hPos : 0 < n) (hLe : ys.length ≤ n)
    (hEnough : n + k ≤ ys.length + xs.length) :
    feed n k f h (ys ++ xs) =
      feed n k f (f h (ys ++ xs.take (n - ys.length))) (xs.drop (n - ys.length)) := by
  rw [feed, if_pos ⟨hPos, by rwa [List.length_append]⟩, List.take_append, List.drop_append,
    List.take_of_length_le hLe, List.drop_of_length_le hLe, List.nil_append]

theorem feed_append (ys : List α) :
    feed n k f h (xs ++ ys) = feed n k f (feed n k f h xs).1 ((feed n k f h xs).2 ++ ys) := by
  fun_induction feed n k f h xs with
  | case1 h xs hMore ih =>
    have hLe : n ≤ xs.length := by omega
    have hStill : 0 < n ∧ n + k ≤ (xs ++ ys).length := by
      rw [List.length_append]
      omega
    rw [feed, if_pos hStill, List.take_append_of_le_length hLe, List.drop_append_of_le_length hLe]
    exact ih
  | case2 => rfl

theorem feed_rest (f : H → List α → H) (h : H) (xs : List α) (hPos : 0 < n) :
    (feed n k f h xs).2.length < n + k ∧ (feed n k f h xs).2.length % n = xs.length % n := by
  fun_induction feed n k f h xs with
  | case1 h xs hMore ih =>
    rw [List.length_drop, ← Nat.mod_eq_sub_mod (by omega)] at ih
    exact ih
  | case2 h xs hMore =>
    refine ⟨?_, rfl⟩
    dsimp only
    omega

/- What an update adds to the input, a list of chunks adds. -/
theorem foldl_chunks {S : Type} {update : S → List α → S} {P : S → List α → Prop}
    (hUpdate : ∀ s xs ys, P s xs → P (update s ys) (xs ++ ys)) (chunks : List (List α)) {s : S}
    (hStart : P s xs) : P (chunks.foldl update s) (xs ++ chunks.flatten) := by
  induction chunks generalizing s xs with
  | nil => rwa [List.flatten_nil, List.append_nil]
  | cons c _ ih =>
    rw [List.flatten_cons, ← List.append_assoc]
    exact ih (hUpdate s xs c hStart)

end Horus.Lib
