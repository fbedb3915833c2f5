import Mathlib.Data.List.Lex

/-!
# Order of texts by their bytes

Texts are ordered by the code points of their characters. Written in UTF-8 they have the same order
by their bytes: the first byte of a character tells how many follow, a longer encoding starts with a
greater byte, and the bytes that follow are the digits of the code point in base 64.
-/

namespace Sentential.Text

/-- The bytes of a text in UTF-8. -/
def utf8Bytes (text : String) : List UInt8 := text.toByteArray.data.toList

/-- Bytes come before others if they are smaller at the first place where they differ, or if the
others start with them and go on. -/
def BytesPrecede (a b : List UInt8) : Prop := List.Lex (fun x y ↦ x.toNat < y.toNat) a b

private theorem utf8Bytes_eq (text : String) :
    utf8Bytes text = text.toList.flatMap String.utf8EncodeChar := by
  have bytes : text.toByteArray = text.toList.utf8Encode := by
    rw [← String.toByteArray_ofList, String.ofList_toList]
  rw [utf8Bytes, bytes, List.utf8Encode, List.data_toByteArray]

/-! ### The bytes of a character -/

-- Number of bytes that follow the first one in the encoding of a code point.
private def laterBytes (v : Nat) : Nat :=
  if v ≤ 0x7f then 0 else if v ≤ 0x7ff then 1 else if v ≤ 0xffff then 2 else 3

-- What marks a first byte that so many others follow.
private def leadMark : Nat → Nat
  | 0 => 0
  | 1 => 0xc0
  | 2 => 0xe0
  | _ => 0xf0

-- The first byte of the encoding of a code point.
private def leadByte (v : Nat) : Nat := v / Nat.pow 64 (laterBytes v) + leadMark (laterBytes v)

-- The last bytes of the encoding of a code point, so many of them: its lowest digits in base 64,
-- each with a mark.
private def digitBytes (v : Nat) : Nat → List UInt8
  | 0 => []
  | k + 1 => UInt8.ofNat (v / Nat.pow 64 k % 64 + 0x80) :: digitBytes v k

private theorem toNat_val_lt (c : Char) : c.val.toNat < 0x110000 := by
  rcases c.valid with h | h <;> omega

private theorem utf8EncodeChar_eq (c : Char) :
    String.utf8EncodeChar c =
      UInt8.ofNat (leadByte c.val.toNat) :: digitBytes c.val.toNat (laterBytes c.val.toNat) := by
  have bound := toNat_val_lt c
  rw [String.utf8EncodeChar, leadByte, laterBytes]
  generalize c.val.toNat = v at bound
  split
  · simp [leadMark, digitBytes, Nat.pow]
  · split
    · have lead : v / 64 % 32 = v / 64 := by omega
      simp [leadMark, digitBytes, Nat.pow, lead]
    · split
      · have lead : v / 4096 % 16 = v / 4096 := by omega
        simp [leadMark, digitBytes, Nat.pow, lead]
      · have lead : v / 262144 % 8 = v / 262144 := by omega
        simp [leadMark, digitBytes, Nat.pow, lead]

private theorem pow_sixty_four : Nat.pow 64 0 = 1 ∧ Nat.pow 64 1 = 64 ∧ Nat.pow 64 2 = 4096 ∧
    Nat.pow 64 3 = 262144 := by decide

private theorem laterBytes_cases (v : Nat) :
    (v ≤ 0x7f ∧ laterBytes v = 0) ∨ (0x7f < v ∧ v ≤ 0x7ff ∧ laterBytes v = 1) ∨
      (0x7ff < v ∧ v ≤ 0xffff ∧ laterBytes v = 2) ∨ (0xffff < v ∧ laterBytes v = 3) := by
  grind [laterBytes]

private theorem laterBytes_mono {v w : Nat} (h : v ≤ w) : laterBytes v ≤ laterBytes w := by
  have range := laterBytes_cases v
  have range' := laterBytes_cases w
  omega

private theorem leadByte_lt {v : Nat} (h : v < 0x110000) : leadByte v < 256 := by
  rcases laterBytes_cases v with ⟨_, k⟩ | ⟨_, _, k⟩ | ⟨_, _, k⟩ | ⟨_, k⟩ <;>
    simp only [leadByte, k, leadMark, pow_sixty_four] <;> omega

private theorem leadByte_lt_leadMark {v : Nat} (h : laterBytes v < 3) :
    leadByte v < leadMark (laterBytes v + 1) := by
  rcases laterBytes_cases v with ⟨_, k⟩ | ⟨_, _, k⟩ | ⟨_, _, k⟩ | ⟨_, k⟩ <;>
    simp only [leadByte, k, leadMark, pow_sixty_four] <;> omega

private theorem leadMark_mono {k l : Nat} (h : k ≤ l) : leadMark k ≤ leadMark l := by
  induction h with
  | refl => exact Nat.le_refl _
  | @step l _ ih =>
    apply Nat.le_trans ih
    match l with
    | 0 | 1 | 2 => decide
    | _ + 3 => exact Nat.le_refl _

private theorem leadByte_lt_of_laterBytes_lt {v w : Nat} (h : laterBytes v < laterBytes w) :
    leadByte v < leadByte w := by
  have few : laterBytes v < 3 := by
    have range := laterBytes_cases w
    omega
  calc
    leadByte v < leadMark (laterBytes v + 1) := leadByte_lt_leadMark few
    _ ≤ leadMark (laterBytes w) := leadMark_mono h
    _ ≤ leadByte w := Nat.le_add_left _ _

private theorem bytesPrecede_digitBytes {v w k : Nat} (h : v % Nat.pow 64 k < w % Nat.pow 64 k)
    (a b : List UInt8) : BytesPrecede (digitBytes v k ++ a) (digitBytes w k ++ b) := by
  induction k with
  | zero => exact absurd h (by simp [Nat.pow, Nat.mod_one])
  | succ k ih =>
    have digits (x : Nat) : x % Nat.pow 64 (k + 1) =
        x % Nat.pow 64 k + Nat.pow 64 k * (x / Nat.pow 64 k % 64) := Nat.mod_mul
    have byte (x : Nat) : (UInt8.ofNat (x / Nat.pow 64 k % 64 + 0x80)).toNat =
        x / Nat.pow 64 k % 64 + 0x80 := by
      apply UInt8.toNat_ofNat_of_lt'
      change _ < 256
      omega
    rw [digits, digits] at h
    simp only [digitBytes, List.cons_append]
    rcases Nat.lt_trichotomy (v / Nat.pow 64 k % 64) (w / Nat.pow 64 k % 64) with less | same | more
    · apply List.Lex.rel
      rw [byte, byte]
      omega
    · rw [same] at h ⊢
      exact List.Lex.cons (ih (Nat.lt_of_add_lt_add_right h))
    · -- A smaller digit is not made up for by the remainder.
      have positive : 0 < Nat.pow 64 k := Nat.pow_pos (by decide)
      have above := Nat.mul_le_mul_left (Nat.pow 64 k) (Nat.succ_le_of_lt more)
      have remainder := Nat.mod_lt w positive
      rw [Nat.mul_succ] at above
      omega

private theorem bytesPrecede_utf8EncodeChar {c d : Char} (h : c < d) (a b : List UInt8) :
    BytesPrecede (String.utf8EncodeChar c ++ a) (String.utf8EncodeChar d ++ b) := by
  have smaller : c.val.toNat < d.val.toNat := h
  have byte {e : Nat} (he : e < 0x110000) : (UInt8.ofNat (leadByte e)).toNat = leadByte e :=
    UInt8.toNat_ofNat_of_lt' (leadByte_lt he)
  have hv := toNat_val_lt c
  have hw := toNat_val_lt d
  rw [utf8EncodeChar_eq, utf8EncodeChar_eq]
  generalize c.val.toNat = v at *
  generalize d.val.toNat = w at *
  rcases Nat.lt_or_eq_of_le (laterBytes_mono (Nat.le_of_lt smaller)) with fewer | same
  · apply List.Lex.rel
    rw [byte hv, byte hw]
    exact leadByte_lt_of_laterBytes_lt fewer
  · have cutv := Nat.div_add_mod v (Nat.pow 64 (laterBytes v))
    have cutw := Nat.div_add_mod w (Nat.pow 64 (laterBytes v))
    have leads : v / Nat.pow 64 (laterBytes v) ≤ w / Nat.pow 64 (laterBytes v) :=
      Nat.div_le_div_right (Nat.le_of_lt smaller)
    rcases Nat.lt_or_eq_of_le leads with less | equal
    · apply List.Lex.rel
      rw [byte hv, byte hw, leadByte, leadByte, ← same]
      exact Nat.add_lt_add_right less _
    · have lead : leadByte v = leadByte w := by rw [leadByte, leadByte, ← same, equal]
      rw [lead, ← same]
      apply List.Lex.cons
      apply bytesPrecede_digitBytes
      rw [equal] at cutv
      omega

/-! ### The bytes of a text -/

private theorem bytesPrecede_flatMap {a b : List Char} (h : List.Lex (fun c d ↦ c < d) a b) :
    BytesPrecede (a.flatMap String.utf8EncodeChar) (b.flatMap String.utf8EncodeChar) := by
  induction h with
  | nil =>
    rw [List.flatMap_cons, utf8EncodeChar_eq]
    exact List.Lex.nil
  | cons _ ih => exact List.Lex.append_left _ ih _
  | rel h => exact bytesPrecede_utf8EncodeChar h _ _

/-- A smaller text comes first by its bytes. -/
theorem bytesPrecede_of_lt {a b : String} (h : a < b) :
    BytesPrecede (utf8Bytes a) (utf8Bytes b) := by
  rw [utf8Bytes_eq, utf8Bytes_eq]
  exact bytesPrecede_flatMap (String.lt_iff.1 h)

/-- Of two lists of bytes, one at most comes before the other. -/
theorem BytesPrecede.asymm {a b : List UInt8} (h : BytesPrecede a b) : ¬ BytesPrecede b a := by
  apply List.lex_asymm _ h
  intro x y
  exact Nat.lt_asymm

/-- Texts have the order of their bytes. -/
theorem bytesPrecede_iff {a b : String} : BytesPrecede (utf8Bytes a) (utf8Bytes b) ↔ a < b := by
  refine ⟨fun h ↦ ?_, bytesPrecede_of_lt⟩
  by_cases less : a < b
  · exact less
  · by_cases more : b < a
    · exact absurd h (bytesPrecede_of_lt more).asymm
    · have same : a = b := String.le_antisymm (String.not_lt.1 more) (String.not_lt.1 less)
      rw [same] at h
      exact absurd h h.asymm

end Sentential.Text
