import ScopeLint.Flow.Value
import ScopeLint.Proofs.Flow.Bytes

/-!
# Values of initializers

A value is read byte by byte, and all that decides where it starts and ends is of ASCII. So it is
known by the characters behind the variable's name.
-/

namespace ScopeLint.Flow

/-! ## Values in brackets -/

inductive Enclosing.Pairs : Enclosing → Char → Char → Prop where
  | parentheses : Pairs .parentheses '(' ')'
  | braces : Pairs .braces '\x7b' '\x7d'

variable {line : Line} {start col : Nat} {enclosing : Enclosing} {opening closing : Char}

theorem readValue_cons (h : enclosing.Pairs opening closing) (depth : Nat) (b : UInt8)
    (rest : List UInt8) : readValue line start enclosing (depth + 1 : Nat) col (b :: rest) =
      if b = opening.toUInt8 then readValue line start enclosing (depth + 2 : Nat) (col + 1) rest
      else if b = closing.toUInt8 then
        if depth = 0 then some (valueText line start col)
        else readValue line start enclosing depth (col + 1) rest
      else readValue line start enclosing (depth + 1 : Nat) (col + 1) rest := by
  have hopen : ((depth + 1 : Nat) : Int) = 0 ↔ False := iff_false_intro (by omega)
  have hmore : ((depth + 1 : Nat) : Int) + 1 = (depth + 2 : Nat) := by omega
  have hone : ((depth + 1 : Nat) : Int) = 1 ↔ depth = 0 := by omega
  have hless : ((depth + 1 : Nat) : Int) - 1 = (depth : Nat) := by omega
  have hblank : isBlankByte b = true → b ≠ opening.toUInt8 ∧ b ≠ closing.toUInt8 := by
    intro hb
    cases h <;> constructor <;> rintro rfl <;> revert hb <;> decide
  rw [readValue, hmore, hless]
  split
  · rename_i hb
    rw [if_neg (hblank hb).1, if_neg (hblank hb).2]
  · cases h <;> simp only [ne_eq, reduceCtorEq, not_true_eq_false, not_false_eq_true, and_true,
      and_false, or_false, false_or, hopen, hone, if_false]

theorem Enclosing.Pairs.ascii (h : enclosing.Pairs opening closing) :
    opening.toNat < 0x80 ∧ closing.toNat < 0x80 ∧ opening ≠ closing := by
  cases h <;> decide

theorem readValue_skip (h : enclosing.Pairs opening closing) (depth : Nat) {bytes : List UInt8}
    (hbytes : ∀ b ∈ bytes, 0x80 ≤ b.toNat) (rest : List UInt8) :
    readValue line start enclosing (depth + 1 : Nat) col (bytes ++ rest) =
      readValue line start enclosing (depth + 1 : Nat) (col + bytes.length) rest := by
  induction bytes generalizing col with
  | nil => rfl
  | cons b bytes ih =>
    obtain ⟨hopening, hclosing, -⟩ := h.ascii
    obtain ⟨-, hne⟩ := ne_of_high_byte (hbytes b List.mem_cons_self)
    rw [List.cons_append, readValue_cons h, if_neg (hne _ hopening), if_neg (hne _ hclosing),
      ih fun b' hb' => hbytes b' (List.mem_cons_of_mem _ hb'), List.length_cons,
      Nat.add_right_comm, Nat.add_assoc]

theorem readValue_char (h : enclosing.Pairs opening closing) (depth : Nat) (c : Char)
    (rest : Line) :
    readValue line start enclosing (depth + 1 : Nat) col (Utf8.encode (c :: rest)) =
      if c = opening then
        readValue line start enclosing (depth + 2 : Nat) (col + c.utf8Size) (Utf8.encode rest)
      else if c = closing then
        if depth = 0 then some (valueText line start col)
        else readValue line start enclosing depth (col + c.utf8Size) (Utf8.encode rest)
      else readValue line start enclosing (depth + 1 : Nat) (col + c.utf8Size)
        (Utf8.encode rest) := by
  obtain ⟨hopening, hclosing, -⟩ := h.ascii
  rcases encode_cons_cases c rest with ⟨hc, hsize, hbytes⟩ | ⟨hc, hbytes⟩
  · rw [hbytes, readValue_cons h, hsize]
    simp only [toUInt8_inj hc hopening, toUInt8_inj hc hclosing]
  · rw [Line.encode_cons, readValue_skip h depth hbytes, String.length_utf8EncodeChar, if_neg,
      if_neg]
    · rintro rfl
      omega
    · rintro rfl
      omega

/-- With `depth` brackets open in front of the text, all but one are closed behind it, and nowhere
before are all closed. -/
def LeavesOne (opening closing : Char) (depth : Nat) (text : Line) : Prop :=
  text.count closing + 1 = depth + text.count opening ∧
    ∀ part, part <+: text → part.count closing < depth + part.count opening

theorem leavesOne_cons {depth depth' : Nat} {c : Char} {text : Line} (hpos : 0 < depth)
    (h : depth + [c].count opening = depth' + [c].count closing) :
    LeavesOne opening closing depth (c :: text) ↔ LeavesOne opening closing depth' text := by
  have hcons (x : Char) (more : Line) : (c :: more).count x = [c].count x + more.count x := by
    rw [← List.singleton_append, List.count_append]
  constructor
  · rintro ⟨hcount, hparts⟩
    rw [hcons closing text, hcons opening text] at hcount
    refine ⟨by omega, fun part hpart => ?_⟩
    have hlt := hparts (c :: part) (List.cons_prefix_cons.mpr ⟨rfl, hpart⟩)
    rw [hcons closing part, hcons opening part] at hlt
    omega
  · rintro ⟨hcount, hparts⟩
    refine ⟨by rw [hcons closing text, hcons opening text]; omega, fun part hpart => ?_⟩
    rcases List.prefix_cons_iff.mp hpart with rfl | ⟨more, rfl, hmore⟩
    · simpa using hpos
    · have hlt := hparts more hmore
      rw [hcons closing more, hcons opening more]
      omega

theorem valueText_append (front mid back : Line) :
    valueText (front ++ (mid ++ back)) (Line.size front) (Line.size front + Line.size mid) = mid := by
  have hstop := Line.isBoundary_size (front ++ mid) back
  rw [Line.size_append, List.append_assoc] at hstop
  have hslice := Line.slice_append front mid back
  rw [List.append_assoc] at hslice
  rw [valueText, Line.cut?,
    if_pos ⟨Nat.le_add_right _ _, Line.isBoundary_size front (mid ++ back), hstop⟩, hslice]
  rfl

theorem readValue_eq_some_iff (h : enclosing.Pairs opening closing) {front mid text value : Line}
    {depth : Nat} :
    readValue (front ++ (mid ++ text)) (Line.size front) enclosing (depth + 1 : Nat)
        (Line.size front + Line.size mid) (Utf8.encode text) = some value ↔
      ∃ inner back, text = inner ++ closing :: back ∧ value = mid ++ inner ∧
        LeavesOne opening closing (depth + 1) inner := by
  obtain ⟨-, -, hne⟩ := h.ascii
  induction text generalizing mid depth with
  | nil => simp [Utf8.encode, readValue]
  | cons c text ih =>
    have hread {depth' : Nat} (hcount : depth + 1 + [c].count opening = depth' + 1 + [c].count closing)
        (hmore : c = closing → depth ≠ 0) :
        readValue (front ++ (mid ++ c :: text)) (Line.size front) enclosing (depth' + 1 : Nat)
            (Line.size front + Line.size mid + c.utf8Size) (Utf8.encode text) = some value ↔
          ∃ inner back, c :: text = inner ++ closing :: back ∧ value = mid ++ inner ∧
            LeavesOne opening closing (depth + 1) inner := by
      have hrest := @ih (mid ++ [c]) depth'
      rw [List.append_assoc, Line.size_append, ← Nat.add_assoc] at hrest
      refine hrest.trans ⟨?_, ?_⟩
      · rintro ⟨inner, back, rfl, rfl, hleaves⟩
        exact ⟨c :: inner, back, rfl, by simp, (leavesOne_cons (Nat.succ_pos _) hcount).mpr hleaves⟩
      · rintro ⟨inner, back, htext, rfl, hleaves⟩
        cases inner with
        | nil =>
          -- Then the closing bracket is the one that leaves none open.
          obtain ⟨rfl, -⟩ := List.cons.inj htext
          have hcount := hleaves.1
          simp only [List.count_nil] at hcount
          exact absurd (by omega) (hmore rfl)
        | cons x inner =>
          obtain ⟨rfl, rfl⟩ := List.cons.inj htext
          exact ⟨inner, back, rfl, by simp, (leavesOne_cons (Nat.succ_pos _) hcount).mp hleaves⟩
    rw [readValue_char h]
    split
    · rename_i hc
      exact hread (by simp [hc, hne]) fun hc' => absurd (hc ▸ hc') hne
    · rename_i hopening
      split
      · rename_i hc
        split
        · rename_i hzero
          rw [valueText_append, Option.some.injEq]
          constructor
          · rintro rfl
            refine ⟨[], text, by rw [hc, List.nil_append], (List.append_nil mid).symm, ?_, ?_⟩
            · simp [hzero]
            · intro part hpart
              rw [List.prefix_nil.mp hpart]
              exact Nat.succ_pos _
          · rintro ⟨inner, back, htext, rfl, -, hparts⟩
            cases inner with
            | nil => exact (List.append_nil mid).symm
            | cons x inner =>
              -- One closing bracket at the front would leave none open.
              obtain ⟨rfl, -⟩ := List.cons.inj htext
              have hlt := hparts [c] (List.cons_prefix_cons.mpr ⟨rfl, List.nil_prefix⟩)
              simp [hc, hne.symm, hzero] at hlt
        · rename_i hzero
          obtain ⟨d, rfl⟩ := Nat.exists_eq_succ_of_ne_zero hzero
          exact hread (by simp [hc, hne.symm]) fun _ => hzero
      · rename_i hclosing
        exact hread (by simp [hopening, hclosing]) fun hc => absurd hc hclosing

/-! ## Values without brackets -/

/-- The text up to the first semicolon of the line, which may stand in front of the value. -/
theorem valueText_statement (front text : Line) :
    valueText (front ++ text) (Line.size front)
        (((front ++ text).colsOf ';').head?.getD (front ++ text).size) =
      if ';' ∈ front then [] else text.takeWhile (· ≠ ';') := by
  rw [Line.colsOf, Line.colsFrom_append, Line.size_append, Nat.zero_add]
  split
  · rename_i hmem
    cases hcols : Line.colsFrom ';' 0 front with
    | nil => exact absurd hmem (Line.colsFrom_eq_nil_iff.mp hcols)
    | cons col cols =>
      have hlt : col < 0 + Line.size front :=
        Line.lt_of_mem_colsFrom (by rw [hcols]; exact List.mem_cons_self)
      rw [List.cons_append, List.head?_cons, Option.getD_some, valueText, Line.cut?,
        if_neg (by omega)]
      rfl
  · rename_i hmem
    rw [Line.colsFrom_eq_nil_iff.mpr hmem, List.nil_append, Line.head?_colsFrom]
    have hvalue := valueText_append front (text.takeWhile (· ≠ ';')) (text.dropWhile (· ≠ ';'))
    rwa [List.takeWhile_append_dropWhile] at hvalue

theorem readValue_gap {gap : Line} (hgap : Blank gap) (text : Line) :
    readValue line start .nothing 0 col (Utf8.encode (gap ++ text)) =
      readValue line start .nothing 0 (col + Line.size gap) (Utf8.encode text) :=
  read_gap (fun col b bytes hb => by rw [readValue, if_pos hb]) hgap text col

theorem readValue_plain {c : Char} (hblank : isAsciiBlank c = false)
    (hc : c ∉ ['(', ')', '\x7b', '\x7d']) (tail : Line) :
    readValue line start .nothing 0 col (Utf8.encode (c :: tail)) =
      some (valueText line start ((line.colsOf ';').head?.getD line.size)) := by
  obtain ⟨b, bytes, hbytes, hb, hbyte, -⟩ := exists_encode_cons c tail
  simp only [List.mem_cons, List.not_mem_nil, or_false, not_or] at hc
  obtain ⟨hopening, hclosing, hbrace, hclosingBrace⟩ := hc
  rw [hbytes, readValue, hb, hblank]
  simp [hbyte '(' (by decide), hbyte ')' (by decide), hbyte '\x7b' (by decide),
    hbyte '\x7d' (by decide), hopening, hclosing, hbrace, hclosingBrace]

theorem readValue_opening (h : enclosing.Pairs opening closing) (tail : Line) :
    readValue line start .nothing 0 col (Utf8.encode (opening :: tail)) =
      readValue line (col + 1) enclosing 1 (col + 1) (Utf8.encode tail) := by
  obtain ⟨b, bytes, hbytes, hb, hbyte, hone⟩ := exists_encode_cons opening tail
  obtain ⟨hascii, -⟩ := h.ascii
  obtain ⟨-, rfl⟩ := hone hascii
  rw [hbytes, (hbyte opening hascii).mpr rfl]
  cases h <;> rfl

/-! ## What follows a name -/

variable {isDeclaration : Bool}

theorem assignedFrom_gap {gap : Line} (hgap : Blank gap) (text : Line) :
    assignedFrom line isDeclaration col (Utf8.encode (gap ++ text)) =
      assignedFrom line isDeclaration (col + Line.size gap) (Utf8.encode text) :=
  read_gap (fun col b bytes hb => by rw [assignedFrom, if_pos hb]) hgap text col

theorem assignedFrom_equals (text : Line) :
    assignedFrom line isDeclaration col (Utf8.encode ('=' :: text)) =
      if text.head? = some '=' then none
      else readValue line (col + 1) .nothing 0 (col + 1) (Utf8.encode text) := by
  have hhead : (Utf8.encode text).head? = some '='.toUInt8 ↔ text.head? = some '=' := by
    cases text with
    | nil => exact iff_of_false (by simp [Utf8.encode]) (by simp)
    | cons c text =>
      obtain ⟨b, bytes, hbytes, -, hbyte, -⟩ := exists_encode_cons c text
      rw [hbytes, List.head?_cons, List.head?_cons, Option.some.injEq, Option.some.injEq]
      exact hbyte '=' (by decide)
  have hstep : assignedFrom line isDeclaration col (Utf8.encode ('=' :: text)) =
      if (Utf8.encode text).head? = some '='.toUInt8 then none
      else readValue line (col + 1) .nothing 0 (col + 1) (Utf8.encode text) := rfl
  rw [hstep]
  simp only [hhead]

theorem assignedFrom_opening (h : enclosing.Pairs opening closing) (text : Line) :
    assignedFrom line isDeclaration col (Utf8.encode (opening :: text)) =
      if isDeclaration then readValue line (col + 1) enclosing 1 (col + 1) (Utf8.encode text)
      else none := by
  cases h <;> cases isDeclaration <;> rfl

theorem assignedFrom_other {b : UInt8} (hblank : isBlankByte b = false)
    (hb : ∀ x ∈ ['=', '(', '\x7b'], b ≠ x.toUInt8) (bytes : List UInt8) :
    assignedFrom line isDeclaration col (b :: bytes) = none := by
  simp only [List.forall_mem_cons] at hb
  rw [assignedFrom, hblank]
  simp [hb]

/-! ## Initializers -/

/-- Every bracket that closes in the text has one that opens in front of it, and the other way
round. -/
def Balanced (opening closing : Char) (text : Line) : Prop :=
  text.count opening = text.count closing ∧
    ∀ part, part <+: text → part.count closing ≤ part.count opening

/-- The text up to the bracket that balances one in front of it is the value. -/
def Encloses (opening closing : Char) (text value : Line) : Prop :=
  ∃ back, text = value ++ closing :: back ∧ Balanced opening closing value

/-- The first character that is not blank is no bracket, and the text does not start with an equals
sign. -/
def IsPlain (text : Line) : Prop :=
  text.head? ≠ some '=' ∧ ∃ gap c tail, text = gap ++ c :: tail ∧ Blank gap ∧
    isAsciiBlank c = false ∧ c ∉ ['(', ')', '\x7b', '\x7d']

def brackets : List (Char × Char) := [('(', ')'), ('\x7b', '\x7d')]

/-- The value that is read from `rest`, which stands behind the mention of a variable at the end of
`front`. -/
structure Initializes (isDeclaration : Bool) (front rest : Line) (outcome : Option Line) :
    Prop where
  /-- A value without brackets ends with the statement, and nothing is left of it behind another
  statement of the line. -/
  plain : ∀ blanks text, rest = blanks ++ '=' :: text → Blank blanks → IsPlain text →
    outcome = some (if ';' ∈ front then [] else text.takeWhile (· ≠ ';'))
  bracketed : ∀ blanks gap opening closing text, (opening, closing) ∈ brackets →
    rest = blanks ++ '=' :: (gap ++ opening :: text) → Blank blanks → Blank gap →
    ∀ value, outcome = some value ↔ Encloses opening closing text value
  declared : isDeclaration = true → ∀ blanks opening closing text, (opening, closing) ∈ brackets →
    rest = blanks ++ opening :: text → Blank blanks →
    ∀ value, outcome = some value ↔ Encloses opening closing text value
  /-- Only an equals sign gives a value, or on a declaration a bracket. -/
  other : ∀ value, outcome = some value → ∃ blanks c text, rest = blanks ++ c :: text ∧
    Blank blanks ∧ (c = '=' ∧ text.head? ≠ some '=' ∨ isDeclaration = true ∧ c ∈ ['(', '\x7b'])

theorem exists_pairs (h : (opening, closing) ∈ brackets) :
    ∃ enclosing : Enclosing, enclosing.Pairs opening closing := by
  simp only [brackets, List.mem_cons, Prod.mk.injEq, List.not_mem_nil, or_false] at h
  rcases h with ⟨rfl, rfl⟩ | ⟨rfl, rfl⟩
  · exact ⟨_, .parentheses⟩
  · exact ⟨_, .braces⟩

theorem leavesOne_one_iff {text : Line} :
    LeavesOne opening closing 1 text ↔ Balanced opening closing text := by
  refine and_congr (by omega) (forall₂_congr fun part _ => by omega)

theorem readValue_enclosed (h : enclosing.Pairs opening closing) (front text value : Line) :
    readValue (front ++ text) (Line.size front) enclosing 1 (Line.size front) (Utf8.encode text) =
      some value ↔ Encloses opening closing text value := by
  have hread : readValue (front ++ ([] ++ text)) (Line.size front) enclosing (0 + 1 : Nat)
      (Line.size front + Line.size []) (Utf8.encode text) = some value ↔ _ :=
    readValue_eq_some_iff h
  refine hread.trans ⟨?_, ?_⟩
  · rintro ⟨inner, back, htext, rfl, hleaves⟩
    exact ⟨back, htext, leavesOne_one_iff.mp hleaves⟩
  · rintro ⟨back, htext, hbalanced⟩
    exact ⟨value, back, htext, rfl, leavesOne_one_iff.mpr hbalanced⟩

variable {front blanks gap text value : Line}

theorem size_equals (front blanks : Line) :
    Line.size (front ++ (blanks ++ ['='])) = Line.size front + Line.size blanks + 1 := by
  rw [Line.size_append, Line.size_append]
  rfl

theorem assignedFrom_plain (hblanks : Blank blanks) (htext : IsPlain text) :
    assignedFrom (front ++ (blanks ++ '=' :: text)) isDeclaration (Line.size front)
        (Utf8.encode (blanks ++ '=' :: text)) =
      some (if ';' ∈ front then [] else text.takeWhile (· ≠ ';')) := by
  obtain ⟨hhead, gap, c, tail, rfl, hgap, hc, hplain⟩ := htext
  have hline : front ++ (blanks ++ '=' :: (gap ++ c :: tail)) =
      front ++ (blanks ++ ['=']) ++ (gap ++ c :: tail) := by simp
  have hsemicolon : ';' ∈ front ++ (blanks ++ ['=']) ↔ ';' ∈ front := by
    have hblank : ';' ∉ blanks := fun hmem => absurd (hblanks ';' hmem) (by decide)
    simp [hblank]
  have hvalue := valueText_statement (front ++ (blanks ++ ['='])) (gap ++ c :: tail)
  rw [← hline, size_equals] at hvalue
  rw [assignedFrom_gap hblanks, assignedFrom_equals, if_neg hhead, readValue_gap hgap,
    readValue_plain hc hplain, hvalue]
  simp only [hsemicolon]

theorem assignedFrom_bracketed (h : enclosing.Pairs opening closing) (hblanks : Blank blanks)
    (hgap : Blank gap) :
    assignedFrom (front ++ (blanks ++ '=' :: (gap ++ opening :: text))) isDeclaration
        (Line.size front) (Utf8.encode (blanks ++ '=' :: (gap ++ opening :: text))) = some value ↔
      Encloses opening closing text value := by
  have hhead : (gap ++ opening :: text).head? ≠ some '=' := by
    cases gap with
    | nil => cases h <;> simp
    | cons c gap =>
      have hc := hgap c List.mem_cons_self
      rw [List.cons_append, List.head?_cons, ne_eq, Option.some.injEq]
      rintro rfl
      cases hc
  have hsize : Line.size (front ++ (blanks ++ ['=']) ++ (gap ++ [opening])) =
      Line.size front + Line.size blanks + 1 + Line.size gap + 1 := by
    rw [Line.size_append, size_equals, Line.size_append]
    cases h <;> rfl
  have hread := readValue_enclosed h (front ++ (blanks ++ ['=']) ++ (gap ++ [opening])) text value
  rw [hsize] at hread
  rw [assignedFrom_gap hblanks, assignedFrom_equals, if_neg hhead, readValue_gap hgap,
    readValue_opening h]
  simpa using hread

theorem assignedFrom_declared (h : enclosing.Pairs opening closing) (hblanks : Blank blanks) :
    assignedFrom (front ++ (blanks ++ opening :: text)) true (Line.size front)
        (Utf8.encode (blanks ++ opening :: text)) = some value ↔
      Encloses opening closing text value := by
  have hsize : Line.size (front ++ (blanks ++ [opening])) =
      Line.size front + Line.size blanks + 1 := by
    rw [Line.size_append, Line.size_append]
    cases h <;> rfl
  have hread := readValue_enclosed h (front ++ (blanks ++ [opening])) text value
  rw [hsize] at hread
  rw [assignedFrom_gap hblanks, assignedFrom_opening h, if_pos rfl]
  simpa using hread

theorem assignedFrom_form {rest : Line}
    (h : assignedFrom line isDeclaration col (Utf8.encode rest) = some value) :
    ∃ blanks c text, rest = blanks ++ c :: text ∧ Blank blanks ∧
      (c = '=' ∧ text.head? ≠ some '=' ∨ isDeclaration = true ∧ c ∈ ['(', '\x7b']) := by
  have hblanks : Blank (rest.takeWhile isAsciiBlank) := fun c hc =>
    List.all_eq_true.mp List.all_takeWhile c hc
  have hrest : rest.takeWhile isAsciiBlank ++ rest.dropWhile isAsciiBlank = rest :=
    List.takeWhile_append_dropWhile
  rw [← hrest, assignedFrom_gap hblanks] at h
  cases hbehind : rest.dropWhile isAsciiBlank with
  | nil =>
    rw [hbehind] at h
    cases h
  | cons c text =>
    have hcode : isAsciiBlank c = false := by
      have hne : rest.dropWhile isAsciiBlank ≠ [] := by rw [hbehind]; exact List.cons_ne_nil c text
      have hhead := List.head_dropWhile_not isAsciiBlank hne
      simpa [hbehind] using hhead
    rw [hbehind] at h hrest
    refine ⟨_, c, text, hrest.symm, hblanks, ?_⟩
    have hopens {opening closing : Char} {enclosing : Enclosing} (hpair : enclosing.Pairs opening closing)
        (hc : c = opening) : isDeclaration = true := by
      rw [hc, assignedFrom_opening hpair] at h
      split at h
      · assumption
      · cases h
    by_cases hequals : c = '='
    · rw [hequals, assignedFrom_equals] at h
      split at h
      · cases h
      · rename_i hhead
        exact .inl ⟨hequals, hhead⟩
    · by_cases hparenthesis : c = '('
      · exact .inr ⟨hopens .parentheses hparenthesis, by simp [hparenthesis]⟩
      · by_cases hbrace : c = '\x7b'
        · exact .inr ⟨hopens .braces hbrace, by simp [hbrace]⟩
        · obtain ⟨b, bytes, hbytes, hblank, hbyte, -⟩ := exists_encode_cons c text
          have hb : ∀ x ∈ ['=', '(', '\x7b'], b ≠ x.toUInt8 := by
            simp only [List.forall_mem_cons, List.not_mem_nil, false_implies, implies_true, and_true]
            exact ⟨mt (hbyte '=' (by decide)).mp hequals, mt (hbyte '(' (by decide)).mp hparenthesis,
              mt (hbyte '\x7b' (by decide)).mp hbrace⟩
          rw [hbytes, assignedFrom_other (hblank.trans hcode) hb] at h
          cases h

/-- A column in the middle of a character or behind the line gives no value. -/
theorem assigned?_eq_none (h : line.isBoundary start = false) :
    assigned? line start isDeclaration = none := by
  rw [assigned?]
  rcases drop_encode_of_not_isBoundary h with hnil | ⟨b, bytes, hbytes, hb⟩
  · rw [hnil]
    rfl
  · obtain ⟨hblank, hne⟩ := ne_of_high_byte hb
    rw [hbytes]
    refine assignedFrom_other hblank ?_ bytes
    simp only [List.forall_mem_cons, List.not_mem_nil, false_implies, implies_true, and_true]
    exact ⟨hne '=' (by decide), hne '(' (by decide), hne '\x7b' (by decide)⟩

/-- What a mention of a variable gives as its value, for every line and column. -/
theorem assigned?_initializes (line : Line) (start : Nat) (isDeclaration : Bool) :
    (∀ front rest, line = front ++ rest → start = Line.size front →
      Initializes isDeclaration front rest (assigned? line start isDeclaration)) ∧
    (line.isBoundary start = false → assigned? line start isDeclaration = none) := by
  refine ⟨?_, assigned?_eq_none⟩
  rintro front rest rfl rfl
  have hdrop : (Utf8.encode (front ++ rest)).drop (Line.size front) = Utf8.encode rest := by
    rw [Line.encode_append, List.drop_left' (Line.length_encode front)]
  rw [assigned?, hdrop]
  refine ⟨?_, ?_, ?_, fun _ => assignedFrom_form⟩
  · rintro blanks text rfl hblanks htext
    exact assignedFrom_plain hblanks htext
  · rintro blanks gap opening closing text hpair rfl hblanks hgap value
    obtain ⟨enclosing, h⟩ := exists_pairs hpair
    exact assignedFrom_bracketed h hblanks hgap
  · rintro rfl blanks opening closing text hpair rfl hblanks value
    obtain ⟨enclosing, h⟩ := exists_pairs hpair
    exact assignedFrom_declared h hblanks

theorem assigned?_call :
    assigned? "  x = compute(a, b);".toList 4 false = some " compute(a, b)".toList := by
  have hplain : IsPlain " compute(a, b);".toList :=
    ⟨by decide, [' '], 'c', _, rfl, by simp [Blank, isAsciiBlank], by decide, by decide⟩
  have hvalue := (assigned?_initializes "  x = compute(a, b);".toList 4 false).1 "  x ".toList
    "= compute(a, b);".toList rfl rfl
  exact hvalue.plain [] _ rfl (by simp [Blank]) hplain

/-- Behind another statement of its line nothing is left of a value. -/
theorem assigned?_secondStatement :
    IsPlain " q;".toList ∧ assigned? "  q = 1; p = q;".toList 10 false = some [] ∧
      " q;".toList.takeWhile (· ≠ ';') = " q".toList :=
  ⟨⟨by decide, [' '], 'q', [';'], rfl, by simp [Blank, isAsciiBlank], by decide, by decide⟩,
    by decide, by decide⟩

end ScopeLint.Flow
