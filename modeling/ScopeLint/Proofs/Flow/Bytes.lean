import ScopeLint.Proofs.Text.Line
import ScopeLint.Proofs.Text.Utf8

/-!
# Bytes of ASCII

A value is read byte by byte, and every byte that decides anything is of ASCII: the first byte of a
character tells which of them it is, and no byte in the middle of a character is one.
-/

namespace ScopeLint.Flow

def isAsciiBlank (c : Char) : Bool :=
  c == ' ' || c == '\t' || c == '\n' || c == '\x0c' || c == '\r'

def Blank (text : Line) : Prop := ∀ c ∈ text, isAsciiBlank c = true

theorem encode_cons_cases (c : Char) (rest : Line) :
    c.toNat < 0x80 ∧ c.utf8Size = 1 ∧ Utf8.encode (c :: rest) = c.toUInt8 :: Utf8.encode rest ∨
      0x80 ≤ c.toNat ∧ ∀ b ∈ String.utf8EncodeChar c, 0x80 ≤ b.toNat := by
  rw [Line.encode_cons]
  by_cases hc : c.utf8Size = 1
  · have hle : c.val.toNat ≤ 127 := UInt32.le_iff_toNat_le.mp (Char.utf8Size_eq_one_iff.mp hc)
    refine .inl ⟨Nat.lt_succ_of_le hle, hc, ?_⟩
    rw [String.utf8EncodeChar_eq_singleton hc]
    rfl
  · have hle : ¬c.val.toNat ≤ 127 := fun h =>
      hc (Char.utf8Size_eq_one_iff.mpr (UInt32.le_iff_toNat_le.mpr h))
    refine .inr ⟨Nat.lt_of_not_le hle, fun b hb => Nat.le_of_not_lt fun hlow => ?_⟩
    exact hc (Utf8.utf8Size_eq_one_of_mem hb hlow)

theorem toUInt8_inj {c x : Char} (hc : c.toNat < 0x80) (hx : x.toNat < 0x80) :
    c.toUInt8 = x.toUInt8 ↔ c = x := by
  have htoNat {y : Char} (hy : y.toNat < 0x80) : y.toUInt8.toNat = y.toNat := by
    have hmod : y.toUInt8.toNat = y.toNat % 256 := UInt32.toNat_toUInt8 y.val
    omega
  rw [← UInt8.toNat_inj, htoNat hc, htoNat hx, Char.toNat_inj]

theorem isBlankByte_toUInt8 {c : Char} (hc : c.toNat < 0x80) :
    isBlankByte c.toUInt8 = isAsciiBlank c := by
  have hall : ∀ n < 0x80, isBlankByte (Char.ofNat n).toUInt8 = isAsciiBlank (Char.ofNat n) := by
    decide
  have hchar := hall c.toNat hc
  rwa [Char.ofNat_toNat] at hchar

theorem ne_of_high_byte {b : UInt8} (hb : 0x80 ≤ b.toNat) :
    isBlankByte b = false ∧ ∀ x : Char, x.toNat < 0x80 → b ≠ x.toUInt8 := by
  constructor
  · refine Bool.eq_false_iff.mpr fun h => ?_
    simp only [isBlankByte, Bool.or_eq_true, beq_iff_eq] at h
    rcases h with (((rfl | rfl) | rfl) | rfl) | rfl <;> revert hb <;> decide
  · rintro x hx rfl
    have hmod : x.toUInt8.toNat = x.toNat % 256 := UInt32.toNat_toUInt8 x.val
    omega

theorem toNat_lt_of_isAsciiBlank {c : Char} (h : isAsciiBlank c = true) : c.toNat < 0x80 := by
  simp only [isAsciiBlank, Bool.or_eq_true, beq_iff_eq] at h
  rcases h with (((rfl | rfl) | rfl) | rfl) | rfl <;> decide

theorem exists_encode_cons (c : Char) (rest : Line) :
    ∃ b bytes, Utf8.encode (c :: rest) = b :: bytes ∧ isBlankByte b = isAsciiBlank c ∧
      (∀ x : Char, x.toNat < 0x80 → (b = x.toUInt8 ↔ c = x)) ∧
      (c.toNat < 0x80 → c.utf8Size = 1 ∧ bytes = Utf8.encode rest) := by
  rcases encode_cons_cases c rest with ⟨hc, hsize, hbytes⟩ | ⟨hc, hhigh⟩
  · exact ⟨_, _, hbytes, isBlankByte_toUInt8 hc, fun x hx => toUInt8_inj hc hx, fun _ => ⟨hsize, rfl⟩⟩
  · cases hchar : String.utf8EncodeChar c with
    | nil =>
      have hlength := String.length_utf8EncodeChar c
      have hpos := Char.utf8Size_pos c
      rw [hchar, List.length_nil] at hlength
      omega
    | cons b bytes =>
      have hb := hhigh b (by rw [hchar]; exact List.mem_cons_self)
      refine ⟨b, bytes ++ Utf8.encode rest, by rw [Line.encode_cons, hchar]; rfl, ?_, ?_, ?_⟩
      · rw [(ne_of_high_byte hb).1, eq_comm]
        exact Bool.eq_false_iff.mpr fun h => absurd (toNat_lt_of_isAsciiBlank h) (by omega)
      · refine fun x hx => iff_of_false ((ne_of_high_byte hb).2 x hx) ?_
        rintro rfl
        omega
      · omega

/-- Where a reading of bytes passes over blanks, it passes over a gap of characters. -/
theorem read_gap {α : Type} {read : Nat → List UInt8 → α}
    (hread : ∀ col b bytes, isBlankByte b = true → read col (b :: bytes) = read (col + 1) bytes)
    {gap : Line} (hgap : Blank gap) (text : Line) (col : Nat) :
    read col (Utf8.encode (gap ++ text)) = read (col + Line.size gap) (Utf8.encode text) := by
  induction gap generalizing col with
  | nil => rfl
  | cons c gap ih =>
    have hc := hgap c List.mem_cons_self
    obtain ⟨b, bytes, hbytes, hblank, -, hone⟩ := exists_encode_cons c (gap ++ text)
    obtain ⟨hsize, rfl⟩ := hone (toNat_lt_of_isAsciiBlank hc)
    rw [List.cons_append, hbytes, hread col b _ (hblank.trans hc),
      ih fun c' hc' => hgap c' (List.mem_cons_of_mem _ hc'), Line.size, hsize, Nat.add_assoc]

/-- In the middle of a character there is a byte behind those of ASCII, and behind the line none. -/
theorem drop_encode_of_not_isBoundary {line : Line} {start : Nat}
    (h : line.isBoundary start = false) :
    (Utf8.encode line).drop start = [] ∨
      ∃ b bytes, (Utf8.encode line).drop start = b :: bytes ∧ 0x80 ≤ b.toNat := by
  induction line generalizing start with
  | nil => exact .inl (by simp [Utf8.encode])
  | cons c rest ih =>
    rw [Line.isBoundary, Bool.or_eq_false_iff] at h
    obtain ⟨hzero, hrest⟩ := h
    have hpos : start ≠ 0 := by simpa using hzero
    by_cases hstart : c.utf8Size ≤ start
    · have hdrop : (Utf8.encode (c :: rest)).drop start =
          (Utf8.encode rest).drop (start - c.utf8Size) := by
        rw [Line.encode_cons, List.drop_append, String.length_utf8EncodeChar,
          List.drop_eq_nil_of_le (by rwa [String.length_utf8EncodeChar]), List.nil_append]
      rw [hdrop]
      exact ih (by simpa [hstart] using hrest)
    · rcases encode_cons_cases c rest with ⟨-, hsize, -⟩ | ⟨-, hhigh⟩
      · omega
      · have hlt : start < (String.utf8EncodeChar c).length := by
          rw [String.length_utf8EncodeChar]
          omega
        refine .inr ⟨(String.utf8EncodeChar c)[start],
          (String.utf8EncodeChar c).drop (start + 1) ++ Utf8.encode rest, ?_,
          hhigh _ (List.getElem_mem hlt)⟩
        rw [Line.encode_cons, List.drop_append_of_le_length (Nat.le_of_lt hlt),
          List.drop_eq_getElem_cons hlt, List.cons_append]

end ScopeLint.Flow
