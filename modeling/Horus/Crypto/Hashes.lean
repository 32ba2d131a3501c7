import Horus.Lib.Blocks
import Horus.Lib.Bytes
import Mathlib.Algebra.Ring.Nat

/-
  The streaming hashes (`rust/src/sha256.rs`, `blake2b.rs`).

  The compression functions and the digest that is read off the
  last state are parameters. `buf` holds the bytes below
  `buf_len`. SHA-256 compresses a block when it is full, BLAKE2b
  only when a byte follows it, and the last one in `finalize`.

  Main results: `streaming_is_oneShot`.
-/

namespace Horus.Crypto

def sha256Block : Nat := 64

structure Sha256 (H : Type) where
  h : H
  buf : List UInt8
  total : Nat

namespace Sha256

variable {H : Type} (compress : H → List UInt8 → H) {h₀ : H} {s : Sha256 H} {m : List UInt8}

def new (h₀ : H) : Sha256 H := ⟨h₀, [], 0⟩

def update (s : Sha256 H) (data : List UInt8) : Sha256 H :=
  let need := sha256Block - s.buf.length
  let take := if data.length < need then data.length else need
  let (h, buf, rest) :=
    if 0 < s.buf.length then
      let buf := s.buf ++ data.take take
      if buf.length = sha256Block then (compress s.h buf, [], data.drop take)
      else (s.h, buf, data.drop take)
    else (s.h, s.buf, data)
  let (h, rest) := Lib.feed sha256Block 0 compress h rest
  ⟨h, if rest ≠ [] then rest else buf, (s.total + data.length) % 2 ^ 64⟩

def finalize (out : H → List UInt8) (s : Sha256 H) : List UInt8 :=
  let bitLen := s.total * 8 % 2 ^ 64
  let rem := s.buf.length % sha256Block
  let padLen := if rem < 56 then 56 - rem else 120 - rem
  let s := s.update compress ((0x80 :: List.replicate 71 0).take padLen)
  out (s.update compress (Lib.leBytes 8 bitLen).reverse).h

/- The message, 0x80, zeros and the length in bits. -/
def padded (m : List UInt8) : List UInt8 :=
  m ++ 0x80 :: List.replicate ((119 - m.length % 64) % 64) 0 ++
    (Lib.leBytes 8 (8 * m.length)).reverse

/- The state after the bytes `m`, however they came. -/
structure Fed (h₀ : H) (s : Sha256 H) (m : List UInt8) : Prop where
  state : (s.h, s.buf) = Lib.feed sha256Block 0 compress h₀ m
  total : s.total = m.length % 2 ^ 64

variable {compress}

theorem update_feeds (hRoom : s.buf.length < sha256Block) (data : List UInt8) :
    ((s.update compress data).h, (s.update compress data).buf) =
      Lib.feed sha256Block 0 compress s.h (s.buf ++ data) := by
  have hKeep : ∀ xs : List UInt8, (if xs ≠ [] then xs else []) = xs := by
    intro xs
    cases xs <;> rfl
  unfold update
  by_cases hEmpty : s.buf = []
  · simp [hEmpty, hKeep]
  have hPos := List.length_pos_of_ne_nil hEmpty
  by_cases hFew : data.length < sha256Block - s.buf.length
  · have hShort : (s.buf ++ data).length < sha256Block + 0 := by
      rw [List.length_append]
      omega
    have hNone : ([] : List UInt8).length < sha256Block + 0 := by decide
    have hNot : (s.buf ++ data).length ≠ sha256Block := by omega
    simp only [if_pos hPos, if_pos hFew, List.take_length, List.drop_length, if_neg hNot,
      Lib.feed_short hNone, Lib.feed_short hShort]
    rfl
  · have hFull : (s.buf ++ data.take (sha256Block - s.buf.length)).length = sha256Block := by
      rw [List.length_append, List.length_take]
      omega
    rw [Lib.feed_next (by decide) hRoom.le (by omega)]
    simp only [if_pos hPos, if_neg hFew, if_pos hFull, hKeep]

theorem Fed.room (hFed : Fed compress h₀ s m) :
    s.buf.length < sha256Block ∧ s.buf.length % sha256Block = m.length % sha256Block := by
  have hRest := Lib.feed_rest (k := 0) compress h₀ m (by decide : 0 < sha256Block)
  rwa [← hFed.state] at hRest

theorem Fed.update (hFed : Fed compress h₀ s m) (data : List UInt8) :
    Fed compress h₀ (s.update compress data) (m ++ data) where
  state := by
    rw [update_feeds hFed.room.1, Lib.feed_append (h := h₀), ← hFed.state]
  total := by
    simp only [Sha256.update, hFed.total, List.length_append, Nat.mod_add_mod]

theorem Fed.finalize (hFed : Fed compress h₀ s m) (out : H → List UInt8)
    (hShort : m.length < 2 ^ 61) :
    s.finalize compress out = out (Lib.feed sha256Block 0 compress h₀ (padded m)).1 ∧
      (Lib.feed sha256Block 0 compress h₀ (padded m)).2 = [] := by
  have hPad : (0x80 :: List.replicate 71 0).take
      (if s.buf.length % sha256Block < 56 then 56 - s.buf.length % sha256Block
        else 120 - s.buf.length % sha256Block) =
      (0x80 :: List.replicate ((119 - m.length % 64) % 64) 0 : List UInt8) := by
    have hLen : (if m.length % sha256Block < 56 then 56 - m.length % sha256Block
        else 120 - m.length % sha256Block) = (119 - m.length % 64) % 64 + 1 := by
      unfold sha256Block
      split <;> omega
    rw [hFed.room.2, hLen, List.take_succ_cons, List.take_replicate, Nat.min_eq_left (by omega)]
  have hBits : s.total * 8 % 2 ^ 64 = 8 * m.length := by
    rw [hFed.total]
    omega
  have hDone : Fed compress h₀ _ (padded m) := (hFed.update _).update _
  have hRest := hDone.room
  rw [← hDone.state]
  simp only [Sha256.finalize, hPad, hBits, true_and]
  apply List.eq_nil_of_length_eq_zero
  simp only [padded, sha256Block, List.length_append, List.length_cons, List.length_replicate,
    List.length_reverse, Lib.length_leBytes] at hRest
  omega

end Sha256

structure Blake2b (H : Type) where
  h : H
  t : Nat × Nat
  buf : List UInt8

namespace Blake2b

variable {H : Type} (compress : H → Nat × Nat → List UInt8 → Bool → H) {h₀ : H} {s : Blake2b H}
    {m : List UInt8}

def new (h₀ : H) : Blake2b H := ⟨h₀, (0, 0), []⟩

/- `inc_counter`: two words with a carry. -/
def incCounter (t : Nat × Nat) (n : Nat) : Nat × Nat :=
  ((t.1 + n) % 2 ^ 64, if 2 ^ 64 ≤ t.1 + n then (t.2 + 1) % 2 ^ 64 else t.2)

/- A block that is not the last. -/
def block (x : H × (Nat × Nat)) (data : List UInt8) : H × (Nat × Nat) :=
  (compress x.1 (incCounter x.2 128) data false, incCounter x.2 128)

def update (s : Blake2b H) (data : List UInt8) : Blake2b H :=
  if data = [] then s
  else
    let fill := 128 - s.buf.length
    if fill < data.length then
      let (x, rest) := Lib.feed 128 1 (block compress)
          (block compress (s.h, s.t) (s.buf ++ data.take fill)) (data.drop fill)
      ⟨x.1, x.2, rest⟩
    else ⟨s.h, s.t, s.buf ++ data⟩

def finalize (out : H → List UInt8) (s : Blake2b H) : List UInt8 :=
  out (compress s.h (incCounter s.t s.buf.length)
    (s.buf ++ List.replicate (128 - s.buf.length) 0) true)

/-
  The chain from a state after `count` bytes: the last block is
  not empty unless the message is, and only it is flagged.
-/
def chain (h : H) (count : Nat) (m : List UInt8) : H :=
  if 128 < m.length then
    chain (compress h (count + 128, 0) (m.take 128) false) (count + 128) (m.drop 128)
  else compress h (count + m.length, 0) (m ++ List.replicate (128 - m.length) 0) true
termination_by m.length
decreasing_by
  rw [List.length_drop]
  omega

def Fed (h₀ : H) (s : Blake2b H) (m : List UInt8) : Prop :=
  ((s.h, s.t), s.buf) = Lib.feed 128 1 (block compress) (h₀, (0, 0)) m

variable {compress}

theorem Fed.update (hFed : Fed compress h₀ s m) (data : List UInt8) :
    Fed compress h₀ (s.update compress data) (m ++ data) := by
  have hRoom := (Lib.feed_rest (k := 1) (block compress) (h₀, (0, 0)) m (by decide : 0 < 128)).1
  unfold Fed at hFed ⊢
  rw [Lib.feed_append, ← hFed]
  rw [← hFed] at hRoom
  unfold Blake2b.update
  split
  · rename_i hNone
    rw [hNone, List.append_nil, Lib.feed_short hRoom]
  dsimp only at hRoom ⊢
  split
  · rw [Lib.feed_next (by decide) (by omega) (by omega)]
  · rw [Lib.feed_short]
    rw [List.length_append]
    omega

theorem incCounter_small {count n : Nat} (hSmall : count + n < 2 ^ 64) :
    incCounter (count, 0) n = (count + n, 0) := by
  rw [incCounter, Nat.mod_eq_of_lt hSmall, if_neg (by dsimp only; omega)]

/- What is fed before the last block is the chain up to it. -/
theorem feed_chain {h : H} {count : Nat} (hSmall : count + m.length < 2 ^ 64) {x : H × (Nat × Nat)}
    {rest : List UInt8} (hFeed : Lib.feed 128 1 (block compress) (h, (count, 0)) m = (x, rest)) :
    compress x.1 (incCounter x.2 rest.length) (rest ++ List.replicate (128 - rest.length) 0) true =
      chain compress h count m := by
  fun_induction chain compress h count m with
  | case1 h count m hMore ih =>
    rw [Lib.feed, if_pos ⟨by decide, hMore⟩, block, incCounter_small (by omega)] at hFeed
    refine ih ?_ hFeed
    rw [List.length_drop]
    omega
  | case2 h count m hLast =>
    rw [Lib.feed_short (by omega)] at hFeed
    cases hFeed
    rw [incCounter_small hSmall]

end Blake2b

/-
  However a message is cut into chunks, its digest is that of
  the whole chain.
-/
theorem streaming_is_oneShot {S B : Type} (sha : S → List UInt8 → S)
    (blake : B → Nat × Nat → List UInt8 → Bool → B) (s₀ : S) (b₀ : B) (out : S → List UInt8)
    (out' : B → List UInt8) (chunks : List (List UInt8)) (hShort : chunks.flatten.length < 2 ^ 61) :
    ((chunks.foldl (Sha256.update sha) (.new s₀)).finalize sha out =
        out (Lib.feed sha256Block 0 sha s₀ (Sha256.padded chunks.flatten)).1 ∧
      (Lib.feed sha256Block 0 sha s₀ (Sha256.padded chunks.flatten)).2 = []) ∧
    (chunks.foldl (Blake2b.update blake) (.new b₀)).finalize blake out' =
      out' (Blake2b.chain blake b₀ 0 chunks.flatten) := by
  have hSha : Sha256.Fed sha s₀ (.new s₀) [] := by
    refine ⟨?_, rfl⟩
    rw [Lib.feed_short (by decide)]
    rfl
  have hBlake : Blake2b.Fed blake b₀ (.new b₀) [] := by
    rw [Blake2b.Fed, Lib.feed_short (by decide)]
    rfl
  have hSha' := Lib.foldl_chunks (fun _ _ data hFed => hFed.update data) chunks hSha
  have hBlake' := Lib.foldl_chunks (fun _ _ data hFed => hFed.update data) chunks hBlake
  exact ⟨hSha'.finalize out hShort,
    congrArg out' (Blake2b.feed_chain (by rw [List.nil_append]; omega) hBlake'.symm)⟩

theorem streaming_is_oneShot_cut :
    ([[7], [], [8, 9]].foldl (Sha256.update List.append) (.new [])).finalize List.append id =
      (Lib.feed sha256Block 0 List.append [] (Sha256.padded [7, 8, 9])).1 :=
  (streaming_is_oneShot List.append (fun h _ b _ => h ++ b) [] [] id id [[7], [], [8, 9]]
    (by decide)).1.1

end Horus.Crypto
