import Pep10.Argument
import Pep10.Text.Quoted
import Pep10.Proofs.Hexadecimal

/-!
# Texts of operands

The text of an operand that is no symbol says which operand it is.  A number begins with a digit or
a minus sign, and only hexadecimal ones begin with `0x`; characters and texts begin with a mark of
their own.  Between two marks a byte is a printable character that stands for itself, or an escape,
and an escape says where it ends.  So bytes can be read back one after the other, and a mark that
is not escaped closes the text.
-/

namespace Pep10

namespace Text

/-- A printable character of seven bits. -/
def IsPrintable (c : Char) : Prop :=
  0x20 ≤ c.toNat ∧ c.toNat ≤ 0x7E

instance (c : Char) : Decidable (IsPrintable c) :=
  inferInstanceAs (Decidable (_ ∧ _))

/-- A character is escaped when the one before it is a backslash that is not escaped itself. -/
def Escaped (cs : List Char) : Nat → Prop
  | 0 => False
  | i + 1 => cs[i]? = some '\\' ∧ ¬ Escaped cs i

/-- A text of printable characters between two marks.  Every mark inside is escaped. -/
structure IsQuotation (mark : Char) (text : String) : Prop where
  isPrintable : ∀ c ∈ text.toList, IsPrintable c
  two_le_length : 2 ≤ text.toList.length
  mark_iff : ∀ i, text.toList[i]? = some mark ∧ ¬ Escaped text.toList i
    ↔ i = 0 ∨ i + 1 = text.toList.length

/-! ### Escaped characters -/

section

variable {mark : Char} {cs ds : List Char} {i : Nat}

/-- Whether a character is escaped depends on what stands before it. -/
theorem escaped_append_of_le (h : i ≤ cs.length) :
  Escaped (cs ++ ds) i ↔ Escaped cs i
  := by
  induction i with
  | zero => rfl
  | succ i ih => rw [Escaped, Escaped, List.getElem?_append_left h, ih (Nat.le_of_lt h)]

/-- Behind a text that ends with no open escape, it depends on what stands behind that text. -/
theorem escaped_append_length_add (h : ¬ Escaped cs cs.length) :
  Escaped (cs ++ ds) (cs.length + i) ↔ Escaped ds i
  := by
  induction i with
  | zero => simpa [Escaped, escaped_append_of_le] using h
  | succ i ih =>
      rw [Nat.add_succ, Escaped, Escaped, ih, List.getElem?_append_right (Nat.le_add_right _ _),
        Nat.add_sub_cancel_left]

/-- Every mark in a text is escaped, and the text ends with no open escape. -/
structure Guarded (mark : Char) (cs : List Char) : Prop where
  escaped_of_mark : ∀ i, cs[i]? = some mark → Escaped cs i
  closed : ¬ Escaped cs cs.length

theorem guarded_of_forall (h : ∀ c ∈ cs, c ≠ mark ∧ c ≠ '\\') :
  Guarded mark cs
  where
  escaped_of_mark i hi := by
    cases (h mark (List.mem_of_getElem? hi)).1 rfl
  closed := by
    cases hlength : cs.length with
    | zero => exact id
    | succ n =>
        rintro ⟨hlast, -⟩
        cases (h '\\' (List.mem_of_getElem? hlast)).2 rfl

/-- An escape of one character. -/
theorem guarded_pair (hmark : mark ≠ '\\') (c : Char) :
  Guarded mark ['\\', c]
  where
  escaped_of_mark i hi := by
    match i with
    | 0 => cases hmark (Option.some_inj.mp hi).symm
    | 1 => exact ⟨rfl, id⟩
  closed h := h.2 ⟨rfl, id⟩

theorem Guarded.append (hcs : Guarded mark cs) (hds : Guarded mark ds) :
  Guarded mark (cs ++ ds)
  where
  escaped_of_mark i hi := by
    by_cases hlt : i < cs.length
    · rw [List.getElem?_append_left hlt] at hi
      apply (escaped_append_of_le hlt.le).mpr (hcs.escaped_of_mark i hi)
    · obtain ⟨j, rfl⟩ := Nat.exists_eq_add_of_le (le_of_not_gt hlt)
      rw [List.getElem?_append_right (Nat.le_add_right _ _), Nat.add_sub_cancel_left] at hi
      apply (escaped_append_length_add hcs.closed).mpr (hds.escaped_of_mark j hi)
  closed := by
    rw [List.length_append, escaped_append_length_add hcs.closed]
    apply hds.closed

theorem guarded_flatMap {α : Type} {f : α → List Char} (h : ∀ a, Guarded mark (f a))
    (as : List α) :
  Guarded mark (as.flatMap f)
  := by
  induction as with
  | nil => apply guarded_of_forall (by simp)
  | cons a as ih =>
      rw [List.flatMap_cons]
      apply (h a).append ih

/-- What is guarded can be quoted. -/
theorem isQuotation_of_guarded (hmark : mark ≠ '\\') (h : Guarded mark cs)
    (hprintable : ∀ c ∈ mark :: cs, IsPrintable c) :
  IsQuotation mark (String.ofList (mark :: (cs ++ [mark])))
  := by
  constructor
  · rw [String.toList_ofList, ← List.cons_append, List.forall_mem_append,
      List.forall_mem_singleton]
    exact ⟨hprintable, hprintable mark List.mem_cons_self⟩
  · simp
  · rw [String.toList_ofList]
    intro i
    cases i with
    | zero => simp [Escaped]
    | succ j =>
        have hfirst : ¬ Escaped [mark] [mark].length := by
          rintro ⟨hlast, -⟩
          cases hmark (Option.some_inj.mp hlast)
        have hescaped : Escaped (mark :: (cs ++ [mark])) (j + 1) ↔ Escaped (cs ++ [mark]) j := by
          rw [Nat.add_comm]
          apply escaped_append_length_add hfirst
        rw [hescaped, List.getElem?_cons_succ]
        obtain hlt | rfl | hlt := Nat.lt_trichotomy j cs.length
        · rw [List.getElem?_append_left hlt, escaped_append_of_le hlt.le]
          simp only [List.length_cons, List.length_append, List.length_nil]
          constructor
          · rintro ⟨hj, hnot⟩
            cases hnot (h.escaped_of_mark j hj)
          · omega
        · have hend : ¬ Escaped (cs ++ [mark]) cs.length := by
            rw [escaped_append_of_le le_rfl]
            apply h.closed
          simp [hend]
        · have hnone : (cs ++ [mark])[j]? = none := by
            rw [List.getElem?_eq_none_iff, List.length_append]
            apply hlt
          simp only [hnone, List.length_cons, List.length_append, List.length_nil]
          constructor
          · rintro ⟨⟨⟩, -⟩
          · omega

end

/-! ### Bytes between two marks -/

theorem toNat_ofNat_byte (byte : UInt8) :
  (Char.ofNat byte.toNat).toNat = byte.toNat
  := by
  have hvalid : byte.toNat.isValidChar := by
    left
    apply Nat.lt_trans byte.toNat_lt
    decide
  rw [Char.ofNat, dif_pos hvalid]
  rfl

theorem ofNat_byte_inj {byte byte' : UInt8} :
  Char.ofNat byte.toNat = Char.ofNat byte'.toNat ↔ byte = byte'
  := by
  constructor
  · intro h
    rw [← UInt8.toNat_inj, ← toNat_ofNat_byte, h, toNat_ofNat_byte]
  · rintro rfl
    rfl

theorem isPrintable_ofNat_byte {byte : UInt8} (h : 0x20 ≤ byte ∧ byte ≤ 0x7E) :
  IsPrintable (Char.ofNat byte.toNat)
  := by
  rw [IsPrintable, toNat_ofNat_byte]
  apply h

/-- The two marks between which bytes are quoted. -/
def IsMark (quote : UInt8) : Prop :=
  quote = 0x22 ∨ quote = 0x27

variable {quote : UInt8}

theorem IsMark.ne_backslash (h : IsMark quote) :
  Char.ofNat quote.toNat ≠ '\\'
  := by
  obtain rfl | rfl := h
  · decide
  · decide

theorem IsMark.isPrintable (h : IsMark quote) :
  IsPrintable (Char.ofNat quote.toNat)
  := by
  apply isPrintable_ofNat_byte
  obtain rfl | rfl := h
  · decide
  · decide

/-- What a byte looks like between two marks: itself, an escape of one character, or an escape in
two digits. -/
theorem escapeByte_cases (hquote : IsMark quote) (byte : UInt8) :
  (escapeByte quote byte = [Char.ofNat byte.toNat] ∧ IsPrintable (Char.ofNat byte.toNat)
      ∧ Char.ofNat byte.toNat ≠ '\\' ∧ Char.ofNat byte.toNat ≠ Char.ofNat quote.toNat)
    ∨ (∃ c, escapeByte quote byte = ['\\', c] ∧ IsPrintable c
      ∧ ∀ rest, unescape (c :: rest) = some (Char.ofNat byte.toNat, rest))
    ∨ escapeByte quote byte = '\\' :: 'x' :: hexDigits 2 byte.toNat
  := by
  rw [escapeByte]
  split
  · next h =>
    right; left
    subst h
    exact ⟨'n', rfl, by decide, fun _ => rfl⟩
  split
  · next h =>
    right; left
    subst h
    exact ⟨'t', rfl, by decide, fun _ => rfl⟩
  split
  · next h =>
    right; left
    subst h
    exact ⟨'r', rfl, by decide, fun _ => rfl⟩
  split
  · next h =>
    right; left
    subst h
    exact ⟨'\\', rfl, by decide, fun _ => rfl⟩
  · next hbackslash =>
    split
    · next h =>
      right; left
      subst h
      refine ⟨_, rfl, hquote.isPrintable, ?_⟩
      obtain rfl | rfl := hquote
      · exact fun _ => rfl
      · exact fun _ => rfl
    · next hmark =>
      split
      · next h =>
        left
        have hne : Char.ofNat byte.toNat ≠ Char.ofNat (0x5C : UInt8).toNat :=
          ofNat_byte_inj.not.mpr hbackslash
        exact ⟨rfl, isPrintable_ofNat_byte h, hne, ofNat_byte_inj.not.mpr hmark⟩
      · right; right
        rfl

theorem escapeByte_ne_nil (hquote : IsMark quote) (byte : UInt8) :
  escapeByte quote byte ≠ []
  := by
  obtain ⟨h, -⟩ | ⟨c, h, -⟩ | h := escapeByte_cases hquote byte
  all_goals simp [h]

theorem hexDigit_printable {n : Nat} (h : n < 16) :
  IsPrintable (hexDigit n) ∧ hexDigit n ≠ '\\' ∧ hexDigit n ≠ '"' ∧ hexDigit n ≠ '\''
  := by
  revert n
  decide

theorem forall_mem_hexDigits_two {P : Char → Prop} (h : ∀ n < 16, P (hexDigit n)) (n : Nat) :
  ∀ c ∈ hexDigits 2 n, P c
  := by
  rw [hexDigits_two, List.forall_mem_cons, List.forall_mem_singleton]
  use h _ (Nat.mod_lt _ (by decide)), h _ (Nat.mod_lt _ (by decide))

theorem forall_mem_escapeByte_isPrintable (hquote : IsMark quote) (byte : UInt8) :
  ∀ c ∈ escapeByte quote byte, IsPrintable c
  := by
  have hbackslash : IsPrintable '\\' := by decide
  obtain ⟨h, hself, -⟩ | ⟨c, h, hc, -⟩ | h := escapeByte_cases hquote byte
  · rw [h, List.forall_mem_singleton]
    apply hself
  · rw [h, List.forall_mem_cons, List.forall_mem_singleton]
    exact ⟨hbackslash, hc⟩
  · have hx : IsPrintable 'x' := by decide
    rw [h, List.forall_mem_cons, List.forall_mem_cons]
    refine ⟨hbackslash, hx, ?_⟩
    apply forall_mem_hexDigits_two
    intro n hn
    apply (hexDigit_printable hn).1

/-- An escaped byte is guarded. -/
theorem guarded_escapeByte (hquote : IsMark quote) (byte : UInt8) :
  Guarded (Char.ofNat quote.toNat) (escapeByte quote byte)
  := by
  obtain ⟨h, -, hbackslash, hmark⟩ | ⟨c, h, -⟩ | h := escapeByte_cases hquote byte
  · rw [h]
    apply guarded_of_forall
    rw [List.forall_mem_singleton]
    use hmark
  · rw [h]
    apply guarded_pair hquote.ne_backslash
  · rw [h]
    apply (guarded_pair hquote.ne_backslash 'x').append
    apply guarded_of_forall
    apply forall_mem_hexDigits_two
    intro n hn
    obtain ⟨-, hbackslash, hdouble, hsingle⟩ := hexDigit_printable hn
    refine ⟨?_, hbackslash⟩
    obtain rfl | rfl := hquote
    · apply hdouble
    · apply hsingle

theorem isQuotation_quoteBytes (hquote : IsMark quote) (bytes : List UInt8) :
  IsQuotation (Char.ofNat quote.toNat) (quoteBytes quote bytes)
  := by
  apply isQuotation_of_guarded hquote.ne_backslash
  · apply guarded_flatMap (guarded_escapeByte hquote)
  · rw [List.forall_mem_cons, List.forall_mem_flatMap]
    use hquote.isPrintable
    intro byte _
    apply forall_mem_escapeByte_isPrintable hquote

/-! ### Reading bytes back -/

/-- The character at the start of a text, escaped or not, and the text behind it. -/
def charAt? : List Char → Option (Char × List Char)
  | [] => none
  | c :: rest => if c = '\\' then unescape rest else some (c, rest)

theorem unescape_hexDigits (byte : UInt8) (rest : List Char) :
  unescape ('x' :: (hexDigits 2 byte.toNat ++ rest)) = some (Char.ofNat byte.toNat, rest)
  := by
  have hvalue : byte.toNat % 16 ^ 2 = byte.toNat := Nat.mod_eq_of_lt byte.toNat_lt
  have hdigits := ofDigits?_hexDigits 2 byte.toNat
  rw [hvalue, hexDigits_two] at hdigits
  simp [hexDigits_two, unescape, hdigits]

/-- A byte between two marks is read back, whatever comes behind it. -/
theorem charAt?_escapeByte (hquote : IsMark quote) (byte : UInt8) (rest : List Char) :
  charAt? (escapeByte quote byte ++ rest) = some (Char.ofNat byte.toNat, rest)
  := by
  obtain ⟨h, -, hbackslash, -⟩ | ⟨c, h, -, hread⟩ | h := escapeByte_cases hquote byte
  · rw [h, List.singleton_append, charAt?, if_neg hbackslash]
  · rw [h, List.cons_append, charAt?, if_pos rfl, List.singleton_append, hread]
  · rw [h, List.cons_append, charAt?, if_pos rfl, List.cons_append, unescape_hexDigits]

theorem quotedRest_of_charAt? {fuel : Nat} {read cs rest : List Char} {c : Char}
    (h : charAt? cs = some (c, rest)) (hmark : cs.head? ≠ some '"') :
  quotedRest (fuel + 1) read cs = quotedRest fuel (c :: read) rest
  := by
  cases cs with
  | nil => cases h
  | cons d cs =>
      have hd : d ≠ '"' := by simpa using hmark
      rw [quotedRest, if_neg hd]
      rw [charAt?] at h
      by_cases hescape : d = '\\'
      · rw [if_pos hescape] at h
        rw [if_pos hescape, h]
      · rw [if_neg hescape] at h
        cases h
        rw [if_neg hescape]

theorem head?_escapeByte_append_ne (hquote : IsMark quote) (byte : UInt8) (rest : List Char) :
  (escapeByte quote byte ++ rest).head? ≠ some (Char.ofNat quote.toNat)
  := by
  obtain ⟨h, -, -, hmark⟩ | ⟨c, h, -⟩ | h := escapeByte_cases hquote byte
  · simpa [h] using hmark
  · simpa [h] using hquote.ne_backslash.symm
  · simpa [h] using hquote.ne_backslash.symm

/-- A quoted text is read up to its closing mark. -/
theorem quotedRest_quote (bytes : List UInt8) {fuel : Nat} (hfuel : bytes.length < fuel)
    (read rest : List Char) :
  quotedRest fuel read (bytes.flatMap (escapeByte 0x22) ++ '"' :: rest)
    = some (String.ofList (read.reverse ++ bytes.map (Char.ofNat ·.toNat)), rest)
  := by
  have hquote : IsMark 0x22 := .inl rfl
  induction bytes generalizing fuel read with
  | nil =>
      obtain ⟨fuel, rfl⟩ := Nat.exists_eq_succ_of_ne_zero (Nat.ne_of_gt hfuel)
      simp [quotedRest]
  | cons byte bytes ih =>
      obtain ⟨fuel, rfl⟩ := Nat.exists_eq_succ_of_ne_zero (Nat.ne_of_gt (Nat.zero_lt_of_lt hfuel))
      rw [List.flatMap_cons, List.append_assoc,
        quotedRest_of_charAt? (charAt?_escapeByte hquote byte _)
          (head?_escapeByte_append_ne hquote byte _),
        ih (Nat.lt_of_succ_lt_succ hfuel), List.reverse_cons, List.append_assoc,
        List.singleton_append, List.map_cons]

theorem length_le_length_flatMap_escapeByte (hquote : IsMark quote) (bytes : List UInt8) :
  bytes.length ≤ (bytes.flatMap (escapeByte quote)).length
  := by
  induction bytes with
  | nil => apply Nat.zero_le
  | cons byte bytes ih =>
      have hpos := List.length_pos_iff.mpr (escapeByte_ne_nil hquote byte)
      rw [List.flatMap_cons, List.length_append, List.length_cons]
      omega

/-! ### Decimal digits -/

theorem digitValue?_digitChar {n : Nat} (h : n < 10) :
  digitValue? n.digitChar = some n
  := by
  revert n
  decide

/-- The digits of a number are read as the number. -/
theorem ofDigits?_toDigits (n : Nat) :
  ofDigits? 10 (Nat.toDigits 10 n) = some n
  := by
  induction n using Nat.strongRecOn with
  | ind n ih =>
      obtain hlt | hle := Nat.lt_or_ge n 10
      · have hnil : ofDigits? 10 [] = some 0 := rfl
        rw [Nat.toDigits_of_lt_base hlt]
        simpa using ofDigits?_concat hnil (digitValue?_digitChar hlt) hlt
      · have hmod : n % 10 < 10 := Nat.mod_lt n (by decide)
        rw [Nat.toDigits_of_base_le (by decide) hle,
          ofDigits?_concat (ih (n / 10) (by omega)) (digitValue?_digitChar hmod) hmod,
          Nat.div_add_mod]

end Text

namespace Literal

/-- The mark around the text of a character or of a text. -/
def mark? : Literal → Option Char
  | .decimal _ => none
  | .hexadecimal _ => none
  | .character _ => some '\''
  | .text _ => some '"'

/-- The literal that some characters are the text of. -/
def read? : List Char → Option Literal
  | '\'' :: rest =>
    match Text.charAt? rest with
    | some (c, ['\'']) => some (.character (UInt8.ofNat c.toNat))
    | _ => none
  | '"' :: rest =>
    match Text.quotedRest (rest.length + 1) [] rest with
    | some (chars, []) => some (.text (chars.toList.map (UInt8.ofNat ·.toNat)))
    | _ => none
  | '0' :: 'x' :: digits => (Text.ofDigits? 16 digits).map fun n => .hexadecimal (UInt16.ofNat n)
  | '-' :: digits => (Text.ofDigits? 10 digits).map fun n : Nat => .decimal (Int32.ofInt (-n))
  | digits => (Text.ofDigits? 10 digits).map fun n : Nat => .decimal (Int32.ofInt n)

theorem read?_toDigits (n : Nat) :
  read? (Nat.toDigits 10 n) = some (.decimal (Int32.ofInt n))
  := by
  have hdigit : ∀ c ∈ Nat.toDigits 10 n, c.isDigit = true :=
    fun _ => Nat.isDigit_of_mem_toDigits (by decide) (by decide)
  have hread := Text.ofDigits?_toDigits n
  -- none of the other texts consists of digits
  unfold read?
  split
  · next heq =>
    rw [heq] at hdigit
    cases hdigit '\'' List.mem_cons_self
  · next heq =>
    rw [heq] at hdigit
    cases hdigit '"' List.mem_cons_self
  · next heq =>
    rw [heq] at hdigit
    cases hdigit 'x' (List.mem_cons_of_mem _ List.mem_cons_self)
  · next heq =>
    rw [heq] at hdigit
    cases hdigit '-' List.mem_cons_self
  · rw [hread, Option.map_some]

theorem read?_toString (n : Int) :
  read? (toString n).toList = some (.decimal (Int32.ofInt n))
  := by
  cases n with
  | ofNat n =>
      have htext : (toString (Int.ofNat n)).toList = Nat.toDigits 10 n := by
        apply String.toList_ofList
      rw [htext]
      apply read?_toDigits
  | negSucc n =>
      have htext : (toString (Int.negSucc n)).toList = '-' :: Nat.toDigits 10 (n + 1) := by
        show ("-" ++ (n + 1).repr).toList = _
        simp [Nat.repr]
      rw [htext, read?, Text.ofDigits?_toDigits, Option.map_some, Int.negSucc_eq]
      rfl

theorem read?_display_hexadecimal (value : UInt16) :
  read? (display (.hexadecimal value)).toList = some (.hexadecimal value)
  := by
  have hvalue : value.toNat % 16 ^ 4 = value.toNat := Nat.mod_eq_of_lt value.toNat_lt
  have htext : (display (.hexadecimal value)).toList
      = '0' :: 'x' :: Text.hexDigits 4 value.toNat := by
    simp [display, Text.hex]
  rw [htext, read?, Text.ofDigits?_hexDigits, hvalue, Option.map_some, UInt16.ofNat_toNat]

theorem read?_display_character (code : UInt8) :
  read? (display (.character code)).toList = some (.character code)
  := by
  have hread := Text.charAt?_escapeByte (.inr rfl) code ['\'']
  have htext : (display (.character code)).toList
      = '\'' :: (Text.escapeByte 0x27 code ++ ['\'']) := by
    rw [display, Text.quoteBytes, String.toList_ofList, List.flatMap_singleton]
    rfl
  rw [htext, read?, hread]
  simp only [Text.toNat_ofNat_byte, UInt8.ofNat_toNat]

theorem read?_display_text (bytes : List UInt8) :
  read? (display (.text bytes)).toList = some (.text bytes)
  := by
  have htext : (display (.text bytes)).toList
      = '"' :: (bytes.flatMap (Text.escapeByte 0x22) ++ ['"']) := by
    rw [display, Text.quoteBytes, String.toList_ofList]
    rfl
  have hfuel : bytes.length < (bytes.flatMap (Text.escapeByte 0x22) ++ ['"']).length + 1 := by
    have hle := Text.length_le_length_flatMap_escapeByte (.inl rfl) bytes
    rw [List.length_append]
    omega
  have hbytes : (fun c : Char => UInt8.ofNat c.toNat) ∘ (fun byte : UInt8 => Char.ofNat byte.toNat)
      = id := by
    funext byte
    rw [Function.comp_apply, Text.toNat_ofNat_byte, UInt8.ofNat_toNat, id]
  rw [htext, read?, Text.quotedRest_quote bytes hfuel]
  simp [hbytes]

/-- The text of a literal is read as that literal. -/
theorem read?_display (l : Literal) :
  read? l.display.toList = some l
  := by
  cases l with
  | decimal value =>
      rw [display, read?_toString, Int32.ofInt_toInt]
  | hexadecimal value => apply read?_display_hexadecimal
  | character code => apply read?_display_character
  | text bytes => apply read?_display_text

/-- What the text of a literal is: a decimal number, four digits in base sixteen, or a quotation
that is read as the literal. -/
inductive HasText : Literal → String → Prop
  | decimal (value : Int32) : HasText (.decimal value) (toString value.toInt)
  | hexadecimal {value : UInt16} {digits : List Char} (hlength : digits.length = 4)
      (hdigits : ∀ c ∈ digits, c ∈ Text.upperDigits)
      (hvalue : Text.ofDigits? 16 digits = some value.toNat) :
    HasText (.hexadecimal value) ("0x" ++ String.ofList digits)
  | character {code : UInt8} {text : String} (hquotation : Text.IsQuotation '\'' text)
      (hread : read? text.toList = some (.character code)) :
    HasText (.character code) text
  | text {bytes : List UInt8} {text : String} (hquotation : Text.IsQuotation '"' text)
      (hread : read? text.toList = some (.text bytes)) :
    HasText (.text bytes) text

theorem display_injective :
  Function.Injective display
  := by
  intro l l' h
  rw [← Option.some_inj, ← read?_display, h, read?_display]

theorem isQuotation_display {l : Literal} {mark : Char} (h : l.mark? = some mark) :
  Text.IsQuotation mark l.display
  := by
  cases l with
  | decimal value => cases h
  | hexadecimal value => cases h
  | character code =>
      cases h
      apply Text.isQuotation_quoteBytes (.inr rfl)
  | text bytes =>
      cases h
      apply Text.isQuotation_quoteBytes (.inl rfl)

theorem hasText_display (l : Literal) :
  l.HasText l.display
  := by
  cases l with
  | decimal value => apply HasText.decimal
  | hexadecimal value =>
      have hvalue : value.toNat % 16 ^ 4 = value.toNat := Nat.mod_eq_of_lt value.toNat_lt
      apply HasText.hexadecimal (Text.length_hexDigits 4 _)
      · intro c hc
        apply (Text.forall_mem_hexDigits 4 _ c hc).2
      · rw [Text.ofDigits?_hexDigits, hvalue]
  | character code => apply HasText.character (isQuotation_display rfl) (read?_display _)
  | text bytes => apply HasText.text (isQuotation_display rfl) (read?_display _)

end Literal

namespace Argument

/-- What the text of an operand is: the name of a symbol, or the text of a literal. -/
inductive HasText : Argument → String → Prop
  | symbolic (name : String) (r : SymbolRef) : HasText (.symbolic name r) name
  | literal {l : Literal} {text : String} (h : l.HasText text) : HasText (.literal l) text

theorem hasText_display (a : Argument) :
  a.HasText a.display
  := by
  cases a with
  | symbolic name r => apply HasText.symbolic
  | literal l => apply HasText.literal l.hasText_display

/-- The mark around the text of an operand. -/
def mark? : Argument → Option Char
  | .literal l => l.mark?
  | .symbolic _ _ => none

/-- The text of an operand that is no symbol is the text of that operand only.  If it has marks, it
is a quotation. -/
theorem unambiguous_display {a b : Argument} (ha : a.symbol? = none) (hb : b.symbol? = none) :
  (a.display = b.display ↔ a = b)
    ∧ ∀ mark, a.mark? = some mark → Text.IsQuotation mark a.display
  := by
  cases a with
  | symbolic name r => cases ha
  | literal l =>
      cases b with
      | symbolic name r => cases hb
      | literal l' =>
          constructor
          · rw [literal.injEq]
            apply Literal.display_injective.eq_iff
          · intro mark hmark
            apply Literal.isQuotation_display hmark

/-- An escape with the digit of another byte behind it, and the escape of one byte. -/
theorem unambiguous_display_digits :
  (literal (.text [0x01, 0x32])).symbol? = none ∧ (literal (.text [0x12])).symbol? = none
    ∧ ((literal (.text [0x01, 0x32])).display = (literal (.text [0x12])).display
      ↔ literal (.text [0x01, 0x32]) = literal (.text [0x12]))
    ∧ ∀ mark, (literal (.text [0x01, 0x32])).mark? = some mark →
      Text.IsQuotation mark (literal (.text [0x01, 0x32])).display
  := ⟨rfl, rfl, unambiguous_display rfl rfl⟩

end Argument

end Pep10
