import Mathlib.Data.Nat.Basic
import TagTemplate.Text.Utf8

/-!
# Well-formed bytes

What is written for a text is read as that text, without replacements. An ASCII byte stands for a
character of its own wherever it stands in well-formed bytes, which may therefore be cut in front of
it and behind it, and remain well formed when it is taken out.
-/

namespace TagTemplate

namespace Utf8

variable {low high : Byte} {missing bits n : Nat}

theorem ofLead?_two : ∀ k, k < 32 → 2 ≤ k →
    Pending.ofLead? (UInt8.ofNat (k + 0xC0)) = some ⟨1, 0x80, 0xBF, k⟩ := by
  decide

theorem ofLead?_three : ∀ k, k < 16 →
    Pending.ofLead? (UInt8.ofNat (k + 0xE0)) =
      some ⟨2, if k = 0 then 0xA0 else 0x80, if k = 0xD then 0x9F else 0xBF, k⟩ := by
  decide

theorem ofLead?_four : ∀ k, k < 5 →
    Pending.ofLead? (UInt8.ofNat (k + 0xF0)) =
      some ⟨3, if k = 0 then 0x90 else 0x80, if k = 4 then 0x8F else 0xBF, k⟩ := by
  decide

/-- The later byte of a sequence that stands for the last six bits of `n`. -/
def continuation (n : Nat) : Byte :=
  UInt8.ofNat (n % 64 + 0x80)

theorem toNat_continuation (n : Nat) : (continuation n).toNat = n % 64 + 0x80 := by
  apply UInt8.toNat_ofNat_of_lt'
  have hMod : n % 64 < 64 := Nat.mod_lt n (by decide)
  change n % 64 + 0x80 < 256
  omega

theorem le_continuation_iff : low ≤ continuation n ↔ low.toNat ≤ n % 64 + 0x80 := by
  rw [UInt8.le_iff_toNat_le, toNat_continuation]

theorem continuation_le_iff : continuation n ≤ high ↔ n % 64 + 0x80 ≤ high.toNat := by
  rw [UInt8.le_iff_toNat_le, toNat_continuation]

theorem decodeFrom_lead {b : Byte} {p : Pending} (hLead : Pending.ofLead? b = some p)
    (hb : 0x80 ≤ b) (rest : Bytes) : decode (b :: rest) = decodeFrom (some p) rest := by
  rw [decode, decodeFrom, next, first, if_neg (UInt8.not_lt.mpr hb), hLead]
  rfl

theorem decodeFrom_continuation (hLow : low.toNat ≤ n % 64 + 0x80)
    (hHigh : n % 64 + 0x80 ≤ high.toNat) (rest : Bytes) :
    decodeFrom (some ⟨missing + 2, low, high, bits⟩) (continuation n :: rest) =
      decodeFrom (some ⟨missing + 1, 0x80, 0xBF, bits * 64 + n % 64⟩) rest := by
  rw [decodeFrom, next, if_pos ⟨le_continuation_iff.mpr hLow, continuation_le_iff.mpr hHigh⟩]
  simp [toNat_continuation]

theorem decodeFrom_last (hLow : low.toNat ≤ n % 64 + 0x80) (hHigh : n % 64 + 0x80 ≤ high.toNat)
    (rest : Bytes) :
    decodeFrom (some ⟨1, low, high, bits⟩) (continuation n :: rest) =
      Char.ofNat (bits * 64 + n % 64) :: decode rest := by
  rw [decodeFrom, next, if_pos ⟨le_continuation_iff.mpr hLow, continuation_le_iff.mpr hHigh⟩]
  simp [toNat_continuation, decode]

section

variable {c : Char}

theorem encodeChar_one (h : c.toNat ≤ 0x7F) : String.utf8EncodeChar c = [UInt8.ofNat c.toNat] := by
  rw [String.utf8EncodeChar]
  exact if_pos h

theorem encodeChar_two (hLow : 0x7F < c.toNat) (hHigh : c.toNat ≤ 0x7FF) :
    String.utf8EncodeChar c = [UInt8.ofNat (c.toNat / 64 + 0xC0), continuation c.toNat] := by
  rw [String.utf8EncodeChar]
  refine (if_neg hLow.not_ge).trans ((if_pos hHigh).trans ?_)
  have hLead : c.toNat / 64 % 32 = c.toNat / 64 := Nat.mod_eq_of_lt (by omega)
  rw [← hLead]
  rfl

theorem encodeChar_three (hLow : 0x7FF < c.toNat) (hHigh : c.toNat ≤ 0xFFFF) :
    String.utf8EncodeChar c =
      [UInt8.ofNat (c.toNat / 4096 + 0xE0), continuation (c.toNat / 64), continuation c.toNat] := by
  rw [String.utf8EncodeChar]
  refine (if_neg (by change ¬c.toNat ≤ 0x7F; omega)).trans ?_
  refine (if_neg hLow.not_ge).trans ((if_pos hHigh).trans ?_)
  have hLead : c.toNat / 4096 % 16 = c.toNat / 4096 := Nat.mod_eq_of_lt (by omega)
  rw [← hLead]
  rfl

theorem encodeChar_four (hLow : 0xFFFF < c.toNat) :
    String.utf8EncodeChar c =
      [UInt8.ofNat (c.toNat / 262144 + 0xF0), continuation (c.toNat / 4096),
        continuation (c.toNat / 64), continuation c.toNat] := by
  rw [String.utf8EncodeChar]
  refine (if_neg (by change ¬c.toNat ≤ 0x7F; omega)).trans ?_
  refine (if_neg (by change ¬c.toNat ≤ 0x7FF; omega)).trans ((if_neg hLow.not_ge).trans ?_)
  have hValid := c.valid
  change c.toNat < 0xD800 ∨ 0xDFFF < c.toNat ∧ c.toNat < 0x110000 at hValid
  have hLead : c.toNat / 262144 % 8 = c.toNat / 262144 := Nat.mod_eq_of_lt (by omega)
  rw [← hLead]
  rfl

end

theorem le_lead {k : Nat} (hLow : 0x80 ≤ k) (hHigh : k < 0x100) : (0x80 : Byte) ≤ UInt8.ofNat k := by
  rw [UInt8.le_iff_toNat_le, UInt8.toNat_ofNat_of_lt' hHigh]
  exact hLow

theorem decode_ascii {b : Byte} (hb : b < 0x80) (rest : Bytes) :
    decode (b :: rest) = b.toChar :: decode rest := by
  rw [decode, decodeFrom, next, first, if_pos hb]
  rfl

theorem bounds_continuation (n : Nat) :
    (0x80 : Byte).toNat ≤ n % 64 + 0x80 ∧ n % 64 + 0x80 ≤ (0xBF : Byte).toNat := by
  simp
  omega

section

variable {P : Prop} [Decidable P] {b b' : Byte}

theorem toNat_ite_le (hb : P → b.toNat ≤ n) (hb' : b'.toNat ≤ n) :
    (if P then b else b').toNat ≤ n := by
  split
  · exact hb ‹_›
  · exact hb'

theorem le_toNat_ite (hb : P → n ≤ b.toNat) (hb' : n ≤ b'.toNat) :
    n ≤ (if P then b else b').toNat := by
  split
  · exact hb ‹_›
  · exact hb'

end

section

variable {c : Char}

theorem decode_encodeChar_two (hLow : 0x7F < c.toNat) (hHigh : c.toNat ≤ 0x7FF) (rest : Bytes) :
    decode (String.utf8EncodeChar c ++ rest) = c :: decode rest := by
  have hLast := bounds_continuation c.toNat
  have hBits : c.toNat / 64 * 64 + c.toNat % 64 = c.toNat := by omega
  rw [encodeChar_two hLow hHigh]
  simp only [List.cons_append, List.nil_append]
  rw [decodeFrom_lead (ofLead?_two _ (by omega) (by omega)) (le_lead (by omega) (by omega)),
    decodeFrom_last hLast.1 hLast.2, hBits, Char.ofNat_toNat]

theorem decode_encodeChar_three (hLow : 0x7FF < c.toNat) (hHigh : c.toNat ≤ 0xFFFF)
    (rest : Bytes) : decode (String.utf8EncodeChar c ++ rest) = c :: decode rest := by
  have hValid := c.valid
  change c.toNat < 0xD800 ∨ 0xDFFF < c.toNat ∧ c.toNat < 0x110000 at hValid
  have hSecond := bounds_continuation (c.toNat / 64)
  have hLast := bounds_continuation c.toNat
  -- The second byte is bounded below against longer sequences than needed, above against
  -- surrogates.
  have hAbove : (if c.toNat / 4096 = 0 then 0xA0 else 0x80 : Byte).toNat ≤
      c.toNat / 64 % 64 + 0x80 :=
    toNat_ite_le (by simp; omega) hSecond.1
  have hBelow : c.toNat / 64 % 64 + 0x80 ≤
      (if c.toNat / 4096 = 0xD then 0x9F else 0xBF : Byte).toNat :=
    le_toNat_ite (by simp; omega) hSecond.2
  have hBits : (c.toNat / 4096 * 64 + c.toNat / 64 % 64) * 64 + c.toNat % 64 = c.toNat := by omega
  rw [encodeChar_three hLow hHigh]
  simp only [List.cons_append, List.nil_append]
  rw [decodeFrom_lead (ofLead?_three _ (by omega)) (le_lead (by omega) (by omega)),
    decodeFrom_continuation hAbove hBelow, decodeFrom_last hLast.1 hLast.2, hBits,
    Char.ofNat_toNat]

theorem decode_encodeChar_four (hLow : 0xFFFF < c.toNat) (rest : Bytes) :
    decode (String.utf8EncodeChar c ++ rest) = c :: decode rest := by
  have hValid := c.valid
  change c.toNat < 0xD800 ∨ 0xDFFF < c.toNat ∧ c.toNat < 0x110000 at hValid
  have hSecond := bounds_continuation (c.toNat / 4096)
  have hThird := bounds_continuation (c.toNat / 64)
  have hLast := bounds_continuation c.toNat
  have hAbove : (if c.toNat / 262144 = 0 then 0x90 else 0x80 : Byte).toNat ≤
      c.toNat / 4096 % 64 + 0x80 :=
    toNat_ite_le (by simp; omega) hSecond.1
  have hBelow : c.toNat / 4096 % 64 + 0x80 ≤
      (if c.toNat / 262144 = 4 then 0x8F else 0xBF : Byte).toNat :=
    le_toNat_ite (by simp; omega) hSecond.2
  have hBits : ((c.toNat / 262144 * 64 + c.toNat / 4096 % 64) * 64 + c.toNat / 64 % 64) * 64 +
      c.toNat % 64 = c.toNat := by omega
  rw [encodeChar_four hLow]
  simp only [List.cons_append, List.nil_append]
  rw [decodeFrom_lead (ofLead?_four _ (by omega)) (le_lead (by omega) (by omega)),
    decodeFrom_continuation hAbove hBelow, decodeFrom_continuation hThird.1 hThird.2,
    decodeFrom_last hLast.1 hLast.2, hBits, Char.ofNat_toNat]

end

theorem decode_encodeChar (c : Char) (rest : Bytes) :
    decode (String.utf8EncodeChar c ++ rest) = c :: decode rest := by
  by_cases hOne : c.toNat ≤ 0x7F
  · have hToNat : (UInt8.ofNat c.toNat).toNat = c.toNat :=
      UInt8.toNat_ofNat_of_lt' (Nat.lt_of_le_of_lt hOne (by decide))
    have hAscii : UInt8.ofNat c.toNat < 0x80 := by
      rw [UInt8.lt_iff_toNat_lt, hToNat]
      exact Nat.lt_succ_of_le hOne
    rw [encodeChar_one hOne, List.singleton_append, decode_ascii hAscii, Byte.toChar, hToNat,
      Char.ofNat_toNat]
  by_cases hTwo : c.toNat ≤ 0x7FF
  · exact decode_encodeChar_two (Nat.lt_of_not_ge hOne) hTwo rest
  by_cases hThree : c.toNat ≤ 0xFFFF
  · exact decode_encodeChar_three (Nat.lt_of_not_ge hTwo) hThree rest
  · exact decode_encodeChar_four (Nat.lt_of_not_ge hThree) rest

/-- What is written for a text is read as that text. -/
theorem decode_encode (text : List Char) : decode (encode text) = text := by
  induction text with
  | nil => rfl
  | cons c text ih => rw [encode, List.flatMap_cons, decode_encodeChar, ← encode, ih]

theorem decode?_eq_some_iff {bytes : Bytes} {text : List Char} :
    decode? bytes = some text ↔ bytes = encode text := by
  constructor
  · intro h
    obtain ⟨hBytes, hText⟩ := Option.ite_none_right_eq_some.mp h
    rw [← Option.some.inj hText, hBytes]
  · rintro rfl
    rw [decode?, decode_encode]
    exact if_pos rfl

/-- Holds of the bytes that are written for some text. -/
def WellFormed (bytes : Bytes) : Prop :=
  ∃ text, bytes = encode text

theorem decode?_eq_none_iff {bytes : Bytes} : decode? bytes = none ↔ ¬WellFormed bytes := by
  simp only [Option.eq_none_iff_forall_ne_some, ne_eq, decode?_eq_some_iff, WellFormed, not_exists]

theorem wellFormed_nil : WellFormed [] := ⟨[], rfl⟩

theorem WellFormed.append {front back : Bytes} (h : WellFormed front) (hBack : WellFormed back) :
    WellFormed (front ++ back) := by
  obtain ⟨text, rfl⟩ := h
  obtain ⟨text', rfl⟩ := hBack
  exact ⟨text ++ text', List.flatMap_append.symm⟩

theorem le_continuation (n : Nat) : 0x80 ≤ continuation n :=
  le_continuation_iff.mpr (bounds_continuation n).1

theorem le_of_mem_encodeChar {c : Char} (h : 0x7F < c.toNat) :
    ∀ b ∈ String.utf8EncodeChar c, 0x80 ≤ b := by
  have hValid := c.valid
  change c.toNat < 0xD800 ∨ 0xDFFF < c.toNat ∧ c.toNat < 0x110000 at hValid
  have hCons {k : Nat} {bytes : Bytes} (hLow : 0x80 ≤ k) (hHigh : k < 0x100)
      (hBytes : ∀ b ∈ bytes, ∃ n, b = continuation n) :
      ∀ b ∈ UInt8.ofNat k :: bytes, 0x80 ≤ b := by
    refine List.forall_mem_cons.mpr ⟨le_lead hLow hHigh, fun b hb => ?_⟩
    obtain ⟨n, rfl⟩ := hBytes b hb
    exact le_continuation n
  by_cases hTwo : c.toNat ≤ 0x7FF
  · rw [encodeChar_two h hTwo]
    exact hCons (by omega) (by omega) (by simp)
  by_cases hThree : c.toNat ≤ 0xFFFF
  · rw [encodeChar_three (Nat.lt_of_not_ge hTwo) hThree]
    exact hCons (by omega) (by omega) (by simp)
  · rw [encodeChar_four (Nat.lt_of_not_ge hThree)]
    exact hCons (by omega) (by omega) (by simp)

/-- An ASCII byte is written only for the character that it is the code of. -/
theorem encodeChar_of_mem {c : Char} {b : Byte} (hb : b < 0x80)
    (h : b ∈ String.utf8EncodeChar c) : String.utf8EncodeChar c = [b] := by
  rcases Nat.lt_or_ge 0x7F c.toNat with hLong | hOne
  · exact absurd hb (UInt8.not_lt.mpr (le_of_mem_encodeChar hLong b h))
  · rw [encodeChar_one hOne] at h ⊢
    rw [List.mem_singleton.mp h]

theorem wellFormed_ascii {b : Byte} (hb : b < 0x80) : WellFormed [b] := by
  have hToNat : b.toChar.toNat ≤ 0x7F := by
    rw [Byte.toNat_toChar]
    exact Nat.le_of_lt_succ (UInt8.lt_iff_toNat_lt.mp hb)
  refine ⟨[b.toChar], ?_⟩
  rw [encode, List.flatMap_singleton, encodeChar_one hToNat, Byte.toNat_toChar, UInt8.ofNat_toNat]

/-- Well-formed bytes may be cut in front of an ASCII byte and behind it. -/
theorem WellFormed.split {b : Byte} (hb : b < 0x80) {front back : Bytes}
    (h : WellFormed (front ++ b :: back)) : WellFormed front ∧ WellFormed back := by
  obtain ⟨text, hText⟩ := h
  induction text generalizing front with
  | nil => exact absurd hText (by simp [encode])
  | cons c text ih =>
    rw [encode, List.flatMap_cons, ← encode] at hText
    rcases List.append_eq_append_iff.mp hText with ⟨tail, hChar, hBack⟩ | ⟨tail, hFront, hRest⟩
    · cases tail with
      | nil =>
        rw [List.append_nil] at hChar
        obtain ⟨-, hBack⟩ := @ih [] hBack
        exact ⟨⟨[c], by simp [encode, hChar]⟩, hBack⟩
      | cons b' tail =>
        obtain ⟨rfl, rfl⟩ := List.cons.inj hBack
        have hMem : b ∈ String.utf8EncodeChar c := by simp [hChar]
        rw [encodeChar_of_mem hb hMem] at hChar
        obtain ⟨rfl, rfl⟩ : front = [] ∧ tail = [] := by
          simpa [List.singleton_eq_append_iff] using hChar
        exact ⟨wellFormed_nil, text, rfl⟩
    · obtain ⟨hTail, hBack⟩ := ih hRest.symm
      exact ⟨hFront ▸ .append ⟨[c], by simp [encode]⟩ hTail, hBack⟩

theorem WellFormed.tail {b : Byte} (hb : b < 0x80) {back : Bytes} (h : WellFormed (b :: back)) :
    WellFormed back :=
  (@split b hb [] back h).2

end Utf8

end TagTemplate
