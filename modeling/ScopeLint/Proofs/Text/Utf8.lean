import Mathlib.Tactic.SplitIfs
import ScopeLint.Text.Utf8

/-!
# Decoding reads encoding back

Each character is read back from its bytes, whatever follows them, and no byte of a character of
several bytes is one of ASCII.
-/

namespace ScopeLint.Utf8

/-! ## Single bytes -/

theorem toNat_ofNat {n : Nat} (h : n < 256) : (UInt8.ofNat n).toNat = n := by
  rw [UInt8.toNat_ofNat']
  omega

theorem first_ofNat {n : Nat} (h : n < 256) :
    first (UInt8.ofNat n) =
      if n < 0x80 then .complete (Char.ofNat n)
      else if n < 0xC2 then .malformed
      else if n < 0xE0 then .begun ⟨n - 0xC0, 1, 0x80, 0xBF⟩
      else if n < 0xF0 then
        .begun ⟨n - 0xE0, 2, if n = 0xE0 then 0xA0 else 0x80, if n = 0xED then 0x9F else 0xBF⟩
      else if n < 0xF5 then
        .begun ⟨n - 0xF0, 3, if n = 0xF0 then 0x90 else 0x80, if n = 0xF4 then 0x8F else 0xBF⟩
      else .malformed := by
  simp only [first, UInt8.lt_iff_toNat_lt, ← UInt8.toNat_inj, toNat_ofNat h]
  rfl

theorem decodeFrom_complete {b : UInt8} {c : Char} (h : first b = .complete c)
    (rest : List UInt8) : decodeFrom none (b :: rest) = some c :: decodeFrom none rest := by
  rw [decodeFrom, h]

theorem decodeFrom_begun {b : UInt8} {q : Begun} (h : first b = .begun q) (rest : List UInt8) :
    decodeFrom none (b :: rest) = decodeFrom (some q) rest := by
  rw [decodeFrom, h]

theorem decodeFrom_next {bits owed n : Nat} {low high : UInt8} (h : n < 64)
    (hlow : low.toNat ≤ n + 0x80) (hhigh : n + 0x80 ≤ high.toNat) (rest : List UInt8) :
    decodeFrom (some ⟨bits, owed, low, high⟩) (UInt8.ofNat (n + 0x80) :: rest) =
      if owed = 1 then some (Char.ofNat (bits * 64 + n)) :: decodeFrom none rest
      else decodeFrom (some ⟨bits * 64 + n, owed - 1, 0x80, 0xBF⟩) rest := by
  have hbyte : (UInt8.ofNat (n + 0x80)).toNat = n + 0x80 := toNat_ofNat (by omega)
  have hnext : next ⟨bits, owed, low, high⟩ (UInt8.ofNat (n + 0x80)) =
      if owed = 1 then .complete (Char.ofNat (bits * 64 + n))
      else .begun ⟨bits * 64 + n, owed - 1, 0x80, 0xBF⟩ := by
    unfold next
    rw [if_pos]
    · simp only [hbyte, Nat.add_sub_cancel]
    · rw [UInt8.le_iff_toNat_le, UInt8.le_iff_toNat_le, hbyte]
      exact ⟨hlow, hhigh⟩
  rw [decodeFrom, hnext]
  split_ifs <;> rfl

theorem decodeFrom_tail {bits owed n : Nat} (h : n < 64) (rest : List UInt8) :
    decodeFrom (some ⟨bits, owed, 0x80, 0xBF⟩) (UInt8.ofNat (n + 0x80) :: rest) =
      if owed = 1 then some (Char.ofNat (bits * 64 + n)) :: decodeFrom none rest
      else decodeFrom (some ⟨bits * 64 + n, owed - 1, 0x80, 0xBF⟩) rest := by
  apply decodeFrom_next h
  · show 0x80 ≤ n + 0x80
    omega
  · show n + 0x80 ≤ 0xBF
    omega

/-! ## Characters -/

theorem toNat_bounds (c : Char) :
    c.val.toNat < 0xD800 ∨ 0xDFFF < c.val.toNat ∧ c.val.toNat < 0x110000 := c.valid

theorem first_of_two {n : Nat} (h : 2 ≤ n) (k : n < 32) :
    first (UInt8.ofNat (n + 0xC0)) = .begun ⟨n, 1, 0x80, 0xBF⟩ := by
  rw [first_ofNat (by omega), if_neg (by omega), if_neg (by omega), if_pos (by omega),
    Nat.add_sub_cancel]

theorem first_of_three {n : Nat} (h : n < 16) :
    first (UInt8.ofNat (n + 0xE0)) =
      .begun ⟨n, 2, if n = 0 then 0xA0 else 0x80, if n = 0xD then 0x9F else 0xBF⟩ := by
  rw [first_ofNat (by omega), if_neg (by omega), if_neg (by omega), if_neg (by omega),
    if_pos (by omega), Nat.add_sub_cancel]
  simp only [show n + 0xE0 = 0xE0 ↔ n = 0 by omega, show n + 0xE0 = 0xED ↔ n = 0xD by omega]

theorem first_of_four {n : Nat} (h : n < 5) :
    first (UInt8.ofNat (n + 0xF0)) =
      .begun ⟨n, 3, if n = 0 then 0x90 else 0x80, if n = 4 then 0x8F else 0xBF⟩ := by
  rw [first_ofNat (by omega), if_neg (by omega), if_neg (by omega), if_neg (by omega),
    if_neg (by omega), if_pos (by omega), Nat.add_sub_cancel]
  simp only [show n + 0xF0 = 0xF0 ↔ n = 0 by omega, show n + 0xF0 = 0xF4 ↔ n = 4 by omega]

/-- The bits of the later bytes are those of the code point, six by six. -/
theorem decodeFrom_encodeChar (c : Char) (rest : List UInt8) :
    decodeFrom none (String.utf8EncodeChar c ++ rest) = some c :: decodeFrom none rest := by
  have hbounds := toNat_bounds c
  have hc : Char.ofNat c.val.toNat = c := Char.ofNat_toNat c
  generalize hv : c.val.toNat = v at hbounds hc
  rw [String.utf8EncodeChar]
  simp only [hv]
  split_ifs with h₁ h₂ h₃
  · rw [List.singleton_append]
    apply decodeFrom_complete
    rw [first_ofNat (by omega), if_pos (by omega), hc]
  · have hbits : v / 64 % 32 * 64 + v % 64 = v := by omega
    simp only [List.cons_append, List.nil_append]
    rw [decodeFrom_begun (first_of_two (by omega) (by omega)), decodeFrom_tail (by omega),
      if_pos rfl, hbits, hc]
  · have hbits : (v / 4096 % 16 * 64 + v / 64 % 64) * 64 + v % 64 = v := by omega
    simp only [List.cons_append, List.nil_append]
    rw [decodeFrom_begun (first_of_three (by omega)), decodeFrom_next (by omega) ?_ ?_,
      if_neg (by decide), decodeFrom_tail (by omega), if_pos rfl, hbits, hc]
    · split_ifs
      · show 0xA0 ≤ v / 64 % 64 + 0x80
        omega
      · show 0x80 ≤ v / 64 % 64 + 0x80
        omega
    · split_ifs
      · show v / 64 % 64 + 0x80 ≤ 0x9F
        omega
      · show v / 64 % 64 + 0x80 ≤ 0xBF
        omega
  · have hbits :
        ((v / 262144 % 8 * 64 + v / 4096 % 64) * 64 + v / 64 % 64) * 64 + v % 64 = v := by omega
    simp only [List.cons_append, List.nil_append]
    rw [decodeFrom_begun (first_of_four (by omega)), decodeFrom_next (by omega) ?_ ?_,
      if_neg (by decide), decodeFrom_tail (by omega), if_neg (by decide),
      decodeFrom_tail (by omega), if_pos rfl, hbits, hc]
    · split_ifs
      · show 0x90 ≤ v / 4096 % 64 + 0x80
        omega
      · show 0x80 ≤ v / 4096 % 64 + 0x80
        omega
    · split_ifs
      · show v / 4096 % 64 + 0x80 ≤ 0x8F
        omega
      · show v / 4096 % 64 + 0x80 ≤ 0xBF
        omega

/-! ## Texts -/

theorem decodeFrom_encode_append (text : List Char) (rest : List UInt8) :
    decodeFrom none (encode text ++ rest) = text.map some ++ decodeFrom none rest := by
  induction text with
  | nil => rfl
  | cons c text ih =>
    rw [encode, List.flatMap_cons, List.append_assoc, decodeFrom_encodeChar, List.map_cons]
    exact congrArg (some c :: ·) ih

theorem decodeFrom_encode (text : List Char) : decodeFrom none (encode text) = text.map some := by
  have h := decodeFrom_encode_append text []
  rwa [List.append_nil, decodeFrom, List.append_nil] at h

@[simp] theorem decodeLossy_encode (text : List Char) : decodeLossy (encode text) = text := by
  unfold decodeLossy
  rw [decodeFrom_encode, List.map_map]
  exact List.map_id text

@[simp] theorem decode?_encode (text : List Char) : decode? (encode text) = some text := by
  unfold decode?
  rw [decodeFrom_encode, List.mapM_map, Function.id_comp]
  exact List.mapM_pure.trans (congrArg some (List.map_id text))

theorem isPrefix_of_encode {front text : List Char} (h : encode front <+: encode text) :
    front <+: text := by
  obtain ⟨rest, hrest⟩ := h
  have hdecode := congrArg decodeLossy hrest
  rw [decodeLossy_encode, decodeLossy, decodeFrom_encode_append, List.map_append, List.map_map]
    at hdecode
  refine ⟨(decodeFrom none rest).map (·.getD '\uFFFD'), ?_⟩
  rw [← hdecode]
  congr 1
  exact (List.map_id front).symm

/-! ## Bytes of ASCII -/

theorem utf8Size_eq_one_of_mem {c : Char} {b : UInt8} (h : b ∈ String.utf8EncodeChar c)
    (hb : b.toNat < 0x80) : c.utf8Size = 1 := by
  have high : ∀ n : Nat, 0x80 ≤ n → n < 256 → b ≠ UInt8.ofNat n := by
    rintro n hlow hhigh rfl
    rw [toNat_ofNat hhigh] at hb
    omega
  have hbounds := toNat_bounds c
  rw [← String.length_utf8EncodeChar]
  rw [String.utf8EncodeChar] at h ⊢
  generalize c.val.toNat = v at h hbounds ⊢
  split_ifs at h ⊢ with h₁ h₂ h₃
  · rfl
  all_goals
    exfalso
    simp only [List.mem_cons, List.not_mem_nil, or_false] at h
  · rcases h with h | h
    all_goals exact high _ (by omega) (by omega) h
  · rcases h with h | h | h
    all_goals exact high _ (by omega) (by omega) h
  · rcases h with h | h | h | h
    all_goals exact high _ (by omega) (by omega) h

theorem toNat_eq_of_mem {c : Char} {b : UInt8} (h : b ∈ String.utf8EncodeChar c)
    (hb : b.toNat < 0x80) : c.toNat = b.toNat := by
  have hone := utf8Size_eq_one_of_mem h hb
  have hle : c.val.toNat ≤ 127 := UInt32.le_iff_toNat_le.mp (Char.utf8Size_eq_one_iff.mp hone)
  rw [String.utf8EncodeChar_eq_singleton hone, List.mem_singleton] at h
  rw [h, UInt32.toNat_toUInt8]
  show c.val.toNat = _
  omega

end ScopeLint.Utf8
