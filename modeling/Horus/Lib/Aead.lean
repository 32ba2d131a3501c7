import Mathlib.Data.List.Nodup

/-
  An ideal authenticated encryption scheme.

  The scheme keeps what was sealed so far. A ciphertext is
  opened only when it was sealed, under the same nonce, with
  the same authenticated data and the same tag; the bytes of
  ciphertexts and tags are whatever the scheme chose.
-/

namespace Horus.Lib

structure Sealed where
  nonce : List UInt8
  aad : List UInt8
  plain : List UInt8
  cipher : List UInt8
  tag : List UInt8
deriving DecidableEq, Repr

/- Opening, given all that was sealed. -/
def openSealed (log : List Sealed) (nonce aad cipher tag : List UInt8) : Option (List UInt8) :=
  (log.find? fun e => e.nonce = nonce ∧ e.aad = aad ∧ e.cipher = cipher ∧ e.tag = tag).map (·.plain)

theorem openSealed_some {log : List Sealed} {nonce aad cipher tag plain : List UInt8}
    (hOpen : openSealed log nonce aad cipher tag = some plain) :
    ∃ e ∈ log, e.nonce = nonce ∧ e.aad = aad ∧ e.cipher = cipher ∧ e.tag = tag ∧
      e.plain = plain := by
  obtain ⟨e, hFind, hPlain⟩ := Option.map_eq_some_iff.mp hOpen
  have hMem := List.mem_of_find?_eq_some hFind
  have hTest := List.find?_some hFind
  simp only [decide_eq_true_eq] at hTest
  obtain ⟨hNonce, hAad, hCipher, hTag⟩ := hTest
  exact ⟨e, hMem, hNonce, hAad, hCipher, hTag, hPlain⟩

/- No nonce was used for two seals. -/
def NoncesDistinct (log : List Sealed) : Prop := (log.map (·.nonce)).Nodup

end Horus.Lib
