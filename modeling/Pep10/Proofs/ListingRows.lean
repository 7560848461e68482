import Pep10.Proofs.Formats
import Pep10.Proofs.OneLine
import Mathlib.Data.List.GetD
import Mathlib.Data.List.TakeWhile

/-!
# The rows of a listing

A listing shows the object code of a program.  A row has its address in columns 0 to 3 and its code
in columns 5 to 10, and since the rows of a line cut its code into pieces that fit there, the code
of a section can be read off its rows.  Blanks at the end of a row are not written, but they are
never part of an address or of a code.

The rows are found again by splitting the listing at its newlines, if no name and no comment has a
newline in it.
-/

namespace Pep10

open Text (OneLine)

namespace Text

/-- The characters of a row in some columns, with a space in each column after the end. -/
def columns (start width : Nat) (row : List Char) : List Char :=
  (List.range' start width).map (row.getD · ' ')

/-- What stands in the code columns of some rows. -/
def codeCells (rows : List (List Char)) : List Char :=
  (rows.flatMap (columns 5 6)).filter (!isBlank ·)

theorem codeCells_eq_flatMap (rows : List (List Char)) :
  codeCells rows = rows.flatMap fun row => codeCells [row]
  := by
  simp [codeCells, List.filter_flatMap]

end Text

/-- The rows of a section: a header and the rows of each line. -/
structure ListedSection where
  header : List Char
  lines : List (List (List Char))

/-- The rows of a section one after the other. -/
def ListedSection.rows (p : ListedSection) : List (List Char) :=
  p.header :: p.lines.flatten

namespace Assembly

/-- The length of the span of a line. -/
def spanLength (a : Assembly) (line : LineId) : Nat :=
  match a.object.spans.get? line with
  | some span => span.stop - span.start
  | none => 0

/-- Rows show the address and the code of a line. -/
structure ShowsLine (a : Assembly) (l : NumberedLine) (rows : List (List Char)) : Prop where
  length_eq : rows.length = max 1 ((a.spanLength l.id + 2) / 3)
  /-- The first row of a line with an address has the address in upper-case digits. -/
  addressed : ∀ e, a.addresses.get? l.id = some e → ∀ row ∈ rows.head?,
    (∀ c ∈ Text.columns 0 4 row, c ∈ Text.upperDigits)
      ∧ Text.ofDigits? 16 (Text.columns 0 4 row) = some e.address.toNat
  unaddressed : a.addresses.get? l.id = none → ∀ row ∈ rows.head?,
    Text.columns 0 4 row = List.replicate 4 ' '
  continued : ∀ row ∈ rows.tail, Text.columns 0 4 row = List.replicate 4 ' '
  code : Text.IsHexOf (Text.codeCells rows) (a.codeOf l.id)

/-- Rows show the lines of a section and the bytes in its buffer. -/
structure ShowsSection (a : Assembly) (s : Section) (index : Nat) (p : ListedSection) : Prop where
  header_eq : p.header = (sectionHeader s).toList
  lines : List.Forall₂ a.ShowsLine s.lines p.lines
  code : Text.IsHexOf (Text.codeCells p.lines.flatten) (a.sectionBytes index)

end Assembly

/-! ### Columns -/

namespace Text

variable {start width : Nat}

theorem columns_append {before cells : List Char} (hstart : before.length = start)
    (hwidth : cells.length = width) (after : List Char) :
  columns start width (before ++ (cells ++ after)) = cells
  := by
  unfold columns
  apply List.ext_getElem
  · rw [List.length_map, List.length_range', hwidth]
  · intro i hi hi'
    rw [List.getElem_map, List.getElem_range', Nat.one_mul, ← hstart,
      List.getD_append_right _ _ _ _ (Nat.le_add_right _ _), Nat.add_sub_cancel_left,
      List.getD_append _ _ _ _ hi', List.getD_eq_getElem _ _ hi']

theorem exists_trimEnd (text : String) :
  ∃ blanks, text.toList = (trimEnd text).toList ++ blanks ∧ ∀ c ∈ blanks, isBlank c
  := by
  use (text.toList.reverse.takeWhile isBlank).reverse
  constructor
  · rw [trimEnd, String.toList_ofList, ← List.reverse_append, List.takeWhile_append_dropWhile,
      List.reverse_reverse]
  · intro c hc
    apply List.mem_takeWhile_imp (List.mem_reverse.mp hc)

/-- Trimming a row changes nothing in columns whose blanks are spaces. -/
theorem columns_trimEnd {text : String}
    (h : ∀ c ∈ columns start width text.toList, isBlank c → c = ' ') :
  columns start width (trimEnd text).toList = columns start width text.toList
  := by
  obtain ⟨blanks, htext, hblanks⟩ := exists_trimEnd text
  apply List.map_congr_left
  intro i hi
  have hcell := h _ (List.mem_map_of_mem hi)
  rw [htext] at hcell ⊢
  by_cases hlt : i < (trimEnd text).toList.length
  · rw [List.getD_append _ _ _ _ hlt]
  · rw [Nat.not_lt] at hlt
    rw [List.getD_append_right _ _ _ _ hlt] at hcell ⊢
    rw [List.getD_eq_default _ _ hlt]
    symm
    -- what is trimmed off in these columns is a space
    by_cases hblank : i - (trimEnd text).toList.length < blanks.length
    · rw [List.getD_eq_getElem _ _ hblank] at hcell ⊢
      apply hcell
      apply hblanks _ (List.getElem_mem hblank)
    · apply List.getD_eq_default _ _ (Nat.not_lt.mp hblank)

variable {text : String}

theorem toList_padEnd (width : Nat) (text : String) :
  (padEnd width text).toList = text.toList ++ List.replicate (width - text.length) ' '
  := by
  rw [padEnd, String.toList_append, String.toList_ofList]

theorem length_padEnd (h : text.length ≤ width) :
  (padEnd width text).length = width
  := by
  rw [← String.length_toList, toList_padEnd, List.length_append, List.length_replicate,
    String.length_toList, Nat.add_sub_cancel' h]

theorem filter_padEnd (width : Nat) (h : ∀ c ∈ text.toList, isBlank c = false) :
  (padEnd width text).toList.filter (!isBlank ·) = text.toList
  := by
  have hspaces : (List.replicate (width - text.length) ' ').filter (!isBlank ·) = [] := by
    apply List.filter_eq_nil_iff.mpr
    intro c hc
    rw [List.eq_of_mem_replicate hc]
    decide
  rw [toList_padEnd, List.filter_append, hspaces, List.append_nil, List.filter_eq_self]
  intro c hc
  rw [h c hc]
  rfl

/-- A text without blanks that fits in its columns is found there in a trimmed row. -/
theorem columns_trimEnd_padEnd {before : String} (hstart : before.length = start)
    (hwidth : text.length ≤ width) (h : ∀ c ∈ text.toList, isBlank c = false) (after : String) :
  columns start width (trimEnd (before ++ padEnd width text ++ after)).toList
    = (padEnd width text).toList
  := by
  have hlength : (padEnd width text).toList.length = width := by
    rw [String.length_toList, length_padEnd hwidth]
  have hcells : columns start width (before ++ padEnd width text ++ after).toList
      = (padEnd width text).toList := by
    rw [String.toList_append, String.toList_append, List.append_assoc]
    apply columns_append _ hlength
    rw [String.length_toList, hstart]
  rw [columns_trimEnd, hcells]
  rw [hcells, toList_padEnd, List.forall_mem_append]
  constructor
  · intro c hc hblank
    rw [h c hc] at hblank
    cases hblank
  · intro c hc _
    apply List.eq_of_mem_replicate hc

end Text

/-! ### One row -/

namespace ListingRow

variable {address code source : String}

/-- The address of a row and its code are in their columns. -/
theorem columns_display (source : String)
    (haddress : address.length ≤ 4 ∧ ∀ c ∈ address.toList, Text.isBlank c = false)
    (hcode : code.length ≤ 6 ∧ ∀ c ∈ code.toList, Text.isBlank c = false) :
  Text.columns 0 4 (display ⟨address, code, source⟩).toList = (Text.padEnd 4 address).toList
    ∧ Text.columns 5 6 (display ⟨address, code, source⟩).toList = (Text.padEnd 6 code).toList
  := by
  constructor
  · have hrow : display ⟨address, code, source⟩ = Text.trimEnd ("" ++ Text.padEnd 4 address
        ++ (" " ++ Text.padEnd 6 code ++ " " ++ source)) := by
      simp only [display, String.empty_append, String.append_assoc]
    rw [hrow]
    apply Text.columns_trimEnd_padEnd rfl haddress.1 haddress.2
  · have hrow : display ⟨address, code, source⟩ = Text.trimEnd (Text.padEnd 4 address ++ " "
        ++ Text.padEnd 6 code ++ (" " ++ source)) := by
      simp only [display, String.append_assoc]
    rw [hrow, Text.columns_trimEnd_padEnd _ hcode.1 hcode.2]
    rw [String.length_append, Text.length_padEnd haddress.1]
    rfl

theorem oneLine_display (haddress : OneLine address) (hcode : OneLine code)
    (hsource : OneLine source) :
  OneLine (display ⟨address, code, source⟩)
  := by
  have hspace : OneLine " " := by decide
  apply Text.OneLine.trimEnd
  simp [haddress, hcode, hsource, hspace]

end ListingRow

/-! ### The rows of a line -/

namespace Assembly

/-- The code of a line in pieces of three bytes, one for each of its rows. -/
def codeRows (code : List UInt8) : List (List UInt8) :=
  if code = [] then [[]] else Text.rows 2 code

theorem flatten_codeRows (code : List UInt8) :
  (codeRows code).flatten = code
  := by
  rw [codeRows]
  split
  · next hcode => rw [hcode, List.flatten_singleton]
  · rw [Text.flatten_rows]

theorem length_codeRows (code : List UInt8) :
  (codeRows code).length = max 1 ((code.length + 2) / 3)
  := by
  rw [codeRows]
  split
  · next hcode =>
    rw [hcode]
    rfl
  · next hcode =>
    have hpos := List.length_pos_iff.mpr hcode
    rw [Text.length_rows]
    omega

theorem length_le_of_codeRows_eq_cons {code piece : List UInt8} {pieces : List (List UInt8)}
    (h : codeRows code = piece :: pieces) :
  piece.length ≤ 3 ∧ ∀ p ∈ pieces, p.length ≤ 3
  := by
  have hshort : ∀ p ∈ codeRows code, p.length ≤ 3 := by
    rw [codeRows]
    split
    · rw [List.forall_mem_singleton]
      apply Nat.zero_le
    · intro p hp
      apply (Text.length_of_mem_rows hp).2
  rw [h, List.forall_mem_cons] at hshort
  apply hshort

variable {a : Assembly} {bytes : List UInt8} {symbols : SymbolTable} {l : NumberedLine}

/-- The address column of the first row of a line. -/
def addressText (a : Assembly) (line : LineId) : String :=
  ((a.addresses.get? line).map (Text.hex 4 ·.address.toNat)).getD ""

theorem exists_lineRows (symbols : SymbolTable)
    (hnone : a.addresses.get? l.id = none → a.lineBytes bytes l.id = []) :
  ∃ piece pieces, codeRows (a.lineBytes bytes l.id) = piece :: pieces
    ∧ a.lineRows bytes symbols l
      = { address := a.addressText l.id
          code := Text.hexBytes piece
          source := l.line.format symbols }
        :: pieces.map fun piece => { code := Text.hexBytes piece }
  := by
  unfold lineRows codeRows addressText
  cases haddress : a.addresses.get? l.id with
  | none =>
      use [], [], if_pos (hnone haddress)
      rfl
  | some e =>
      cases hrows : Text.rows 2 (a.lineBytes bytes l.id) with
      | nil =>
          use [], [], if_pos (Text.rows_eq_nil_iff.mp hrows)
          rfl
      | cons piece pieces =>
          have hne : a.lineBytes bytes l.id ≠ [] := by
            rw [Ne, ← Text.rows_eq_nil_iff (n := 2), hrows]
            apply List.cons_ne_nil
          use piece, pieces, if_neg hne
          simp only [List.map_cons, List.map_map, Option.map_some, Option.getD_some]
          rfl

theorem addressText_fits (a : Assembly) (line : LineId) :
  (a.addressText line).length ≤ 4 ∧ ∀ c ∈ (a.addressText line).toList, Text.isBlank c = false
  := by
  unfold addressText
  cases a.addresses.get? line with
  | none =>
      use Nat.zero_le 4
      intro c hc
      cases hc
  | some e =>
      rw [Option.map_some, Option.getD_some, Text.hex, String.length_ofList, String.toList_ofList,
        Text.length_hexDigits]
      use Nat.le_refl 4
      intro c hc
      apply (Text.forall_mem_hexDigits 4 _ c hc).1

/-- A row with at most three bytes of code shows the code. -/
theorem columns_display_hexBytes {address : String} {piece : List UInt8} (source : String)
    (haddress : address.length ≤ 4 ∧ ∀ c ∈ address.toList, Text.isBlank c = false)
    (hpiece : piece.length ≤ 3) :
  Text.columns 0 4 (ListingRow.display ⟨address, Text.hexBytes piece, source⟩).toList
      = (Text.padEnd 4 address).toList
    ∧ Text.codeCells [(ListingRow.display ⟨address, Text.hexBytes piece, source⟩).toList]
      = piece.flatMap fun byte => Text.hexDigits 2 byte.toNat
  := by
  have hlength : (Text.hexBytes piece).length ≤ 6 := by
    rw [Text.hexBytes, String.length_ofList, List.length_flatMap]
    simp only [Text.length_hexDigits, List.map_const', List.sum_replicate_nat]
    omega
  have hblank : ∀ c ∈ (Text.hexBytes piece).toList, Text.isBlank c = false := by
    rw [Text.hexBytes, String.toList_ofList, List.forall_mem_flatMap]
    intro byte _ c hc
    apply (Text.forall_mem_hexDigits 2 _ c hc).1
  obtain ⟨hfirst, hsecond⟩ :=
    ListingRow.columns_display source haddress ⟨hlength, hblank⟩
  use hfirst
  rw [Text.codeCells, List.flatMap_singleton, hsecond, Text.filter_padEnd 6 hblank, Text.hexBytes,
    String.toList_ofList]

theorem emptyText_fits :
  "".length ≤ 4 ∧ ∀ c ∈ "".toList, Text.isBlank c = false
  := by
  simp

/-- The rows of a line show its code. -/
theorem codeCells_lineRows (symbols : SymbolTable)
    (hnone : a.addresses.get? l.id = none → a.lineBytes bytes l.id = []) :
  Text.codeCells ((a.lineRows bytes symbols l).map (·.display.toList))
    = (a.lineBytes bytes l.id).flatMap fun byte => Text.hexDigits 2 byte.toNat
  := by
  obtain ⟨piece, pieces, hpieces, hrows⟩ := exists_lineRows symbols hnone
  have hshort := length_le_of_codeRows_eq_cons hpieces
  have hmore : pieces.flatMap (fun piece => Text.codeCells
      [(ListingRow.display { code := Text.hexBytes piece }).toList])
      = pieces.flatten.flatMap fun byte => Text.hexDigits 2 byte.toNat := by
    rw [List.flatten_eq_flatMap, List.flatMap_assoc]
    apply List.flatMap_congr
    intro p hp
    apply (columns_display_hexBytes "" emptyText_fits (hshort.2 p hp)).2
  rw [hrows, Text.codeCells_eq_flatMap, List.flatMap_map, List.flatMap_cons,
    (columns_display_hexBytes _ (a.addressText_fits l.id) hshort.1).2, List.flatMap_map, hmore,
    ← List.flatMap_append, ← List.flatten_cons, ← hpieces, flatten_codeRows]

/-- The rows of a line show its address and its code. -/
theorem showsLine_lineRows (hnone : a.addresses.get? l.id = none → a.lineBytes bytes l.id = [])
    (hcode : a.lineBytes bytes l.id = a.codeOf l.id)
    (hlength : (a.codeOf l.id).length = a.spanLength l.id) :
  a.ShowsLine l ((a.lineRows bytes symbols l).map (·.display.toList))
  := by
  have hcells := codeCells_lineRows symbols hnone
  obtain ⟨piece, pieces, hpieces, hrows⟩ := exists_lineRows symbols hnone
  have hshort := length_le_of_codeRows_eq_cons hpieces
  obtain ⟨hfirst, -⟩ :=
    columns_display_hexBytes (l.line.format symbols) (a.addressText_fits l.id) hshort.1
  rw [hrows, List.map_cons, List.map_map] at hcells ⊢
  refine {
    length_eq := ?_
    addressed := ?_
    unaddressed := ?_
    continued := ?_
    code := ?_ }
  · rw [List.length_cons, List.length_map, ← List.length_cons (a := piece), ← hpieces,
      length_codeRows, hcode, hlength]
  · intro e he row hrow
    obtain rfl := Option.mem_some_iff.mp hrow
    have haddress : (Text.padEnd 4 (a.addressText l.id)).toList
        = Text.hexDigits 4 e.address.toNat := by
      rw [addressText, he, Option.map_some, Option.getD_some, Text.toList_padEnd, Text.hex,
        String.toList_ofList, String.length_ofList, Text.length_hexDigits]
      apply List.append_nil
    have hvalue : e.address.toNat % 16 ^ 4 = e.address.toNat :=
      Nat.mod_eq_of_lt e.address.toNat_lt
    rw [hfirst, haddress, Text.ofDigits?_hexDigits, hvalue]
    use fun c hc => (Text.forall_mem_hexDigits 4 _ c hc).2
  · intro he row hrow
    obtain rfl := Option.mem_some_iff.mp hrow
    rw [hfirst, addressText, he]
    rfl
  · rw [List.tail_cons, List.forall_mem_map]
    intro p hp
    apply (columns_display_hexBytes "" emptyText_fits (hshort.2 p hp)).1
  · rw [hcells, hcode]
    apply Text.isHexOf_flatMap_hexDigits

end Assembly

/-! ### The rows of a section -/

namespace Assembly

/-- The rows of a section in a listing. -/
def listedSection (a : Assembly) (symbols : SymbolTable) (s : Section) (index : Nat) :
    ListedSection where
  header := (sectionHeader s).toList
  lines := s.lines.map fun l =>
    (a.lineRows (a.sectionBytes index) symbols l).map (·.display.toList)

theorem map_toList_sectionRows (a : Assembly) (symbols : SymbolTable) (s : Section) (index : Nat) :
  (a.sectionRows symbols s index).map String.toList = (a.listedSection symbols s index).rows
  := by
  rw [sectionRows, ListedSection.rows, listedSection, List.map_cons, List.map_map,
    List.map_flatMap, List.flatMap_def]
  rfl

end Assembly

namespace Assembly.Emits

variable {a : Assembly} {resolve : SymbolRef → Option UInt64} {codes : List SectionCode} {i : Nat}
  {s : Section} {l : NumberedLine}

/-- The span of a line is in the buffer of its section. -/
theorem span_bounds (h : a.Emits resolve codes) (hs : a.sections[i]? = some s) (hl : l ∈ s.lines)
    {span : Span} (hspan : a.object.spans.get? l.id = some span) :
  span.index = i ∧ span.start ≤ span.stop ∧ span.stop ≤ (a.sectionBytes i).length
  := by
  have hcontains : a.addresses.contains l.id := by
    rw [← h.contains_spans, LineTable.contains, hspan, Option.isSome_some]
  by_cases hzeroed : s.isZeroed
  · have hempty := (h.span_of_isZeroed hs hzeroed).2 l hl hcontains
    obtain rfl := Option.some_inj.mp (hempty.symm.trans hspan)
    exact ⟨rfl, Nat.le_refl 0, Nat.zero_le _⟩
  · obtain ⟨e, he⟩ := Option.isSome_iff_exists.mp hcontains
    obtain ⟨span', hspan', hindex, hle, hstop, -⟩ := h.exists_span hs hzeroed hl he
    obtain rfl := Option.some_inj.mp (hspan'.symm.trans hspan)
    use hindex, hle, hstop

/-- A listing takes the code of a line from the span of the line. -/
theorem lineBytes_eq (h : a.Emits resolve codes) (hs : a.sections[i]? = some s)
    (hl : l ∈ s.lines) :
  a.lineBytes (a.sectionBytes i) l.id = a.codeOf l.id
    ∧ (a.codeOf l.id).length = a.spanLength l.id
  := by
  unfold lineBytes codeOf spanLength
  cases hspan : a.object.spans.get? l.id with
  | none => exact ⟨rfl, rfl⟩
  | some span =>
      obtain ⟨rfl, hle, hstop⟩ := h.span_bounds hs hl hspan
      simp only [Text.slice?_eq_extract hle hstop, Option.getD_some, true_and]
      rw [List.extract_eq_take_drop, List.length_take, List.length_drop]
      apply Nat.min_eq_left
      apply Nat.sub_le_sub_right hstop

/-- The bytes of a section are those of its lines, also if it is zeroed. -/
theorem sectionBytes_eq_flatMap_lines (h : a.Emits resolve codes)
    (hs : a.sections[i]? = some s) :
  a.sectionBytes i = s.lines.flatMap fun l => a.codeOf l.id
  := by
  by_cases hzeroed : s.isZeroed
  · have hbytes := (h.span_of_isZeroed hs hzeroed).1
    rw [hbytes]
    symm
    rw [List.flatMap_eq_nil_iff]
    intro l hl
    cases hspan : a.object.spans.get? l.id with
    | none => rw [codeOf, hspan]
    | some span =>
        obtain ⟨rfl, -⟩ := h.span_bounds hs hl hspan
        rw [codeOf_eq_extract hspan, hbytes]
        simp
  · apply h.sectionBytes_eq hs hzeroed

theorem lineBytes_eq_nil (h : a.Emits resolve codes) (hs : a.sections[i]? = some s)
    (hl : l ∈ s.lines) (haddress : a.addresses.get? l.id = none) :
  a.lineBytes (a.sectionBytes i) l.id = []
  := by
  rw [(h.lineBytes_eq hs hl).1, h.codeOf_eq_nil haddress]

/-- The rows of a section show its lines and its bytes. -/
theorem showsSection (h : a.Emits resolve codes) (symbols : SymbolTable)
    (hs : a.sections[i]? = some s) :
  a.ShowsSection s i (a.listedSection symbols s i)
  := by
  have hcells : Text.codeCells (a.listedSection symbols s i).lines.flatten
      = (a.sectionBytes i).flatMap fun byte => Text.hexDigits 2 byte.toNat := by
    conv_rhs => rw [h.sectionBytes_eq_flatMap_lines hs, List.flatMap_assoc]
    rw [listedSection, ← List.flatMap_def, Text.codeCells_eq_flatMap, List.flatMap_assoc]
    apply List.flatMap_congr
    intro l hl
    rw [← Text.codeCells_eq_flatMap, codeCells_lineRows symbols (h.lineBytes_eq_nil hs hl),
      (h.lineBytes_eq hs hl).1]
  refine {
    header_eq := rfl
    lines := ?_
    code := ?_ }
  · rw [listedSection, List.forall₂_map_right_iff, List.forall₂_same]
    intro l hl
    obtain ⟨hcode, hlength⟩ := h.lineBytes_eq hs hl
    apply showsLine_lineRows (h.lineBytes_eq_nil hs hl) hcode hlength
  · rw [hcells]
    apply Text.isHexOf_flatMap_hexDigits

end Assembly.Emits

/-! ### Splitting a listing -/

section

variable {program : Program} {symbols : SymbolTable} {options : Options} {a : Assembly}
  {l : NumberedLine}

/-- A line that opens a section names one of the sections. -/
theorem exists_section_of_opening (h : (assemble program symbols options).outcome = .ok a)
    (hl : l ∈ sectionOrder a.sections) {heading : Heading}
    (hkind : l.line.kind = .opening heading) :
  ∃ s ∈ a.sections, s.name = heading.name
  := by
  obtain ⟨sections, laid, object, hsections, hassign, -, rfl⟩ := assemble_eq_ok_iff.mp h
  have hunplaced := (assign_laid hsections hassign).1
  have hnames : laid.map (·.name) = sections.map (·.name) := by
    have hmap := congrArg (List.map (fun s : Section => s.name)) hunplaced
    rw [List.map_map, List.map_map] at hmap
    apply hmap
  have hmem : heading.name ∈ laid.map (·.name) := by
    obtain ⟨-, -, rfl⟩ := Program.sections_eq_ok_iff.mp hsections
    rw [hnames, outline, map_name_sectionsOf, name_mem_firstOfEachName]
    apply List.mem_map_of_mem
    apply List.mem_cons_of_mem
    apply List.mem_filterMap.mpr
    use l, (mem_sectionOrder_iff h).mp hl
    rw [NumberedLine.heading?, hkind]
  obtain ⟨s, hs, hname⟩ := List.mem_map.mp hmem
  use s, hs

end

namespace Assembly

variable {a : Assembly} {bytes : List UInt8} {symbols : SymbolTable} {l : NumberedLine}

theorem oneLine_lineRows (hformat : OneLine (l.line.format symbols)) :
  ∀ r ∈ a.lineRows bytes symbols l, OneLine r.display
  := by
  have hempty : OneLine "" := by decide
  rw [lineRows]
  split
  · rw [List.forall_mem_singleton]
    apply ListingRow.oneLine_display hempty hempty hformat
  · next e he =>
    split
    · rw [List.forall_mem_singleton]
      apply ListingRow.oneLine_display (Text.oneLine_hex _ _) hempty hformat
    · next code more hcode =>
      have hcodes : ∀ c ∈ code :: more, OneLine c := by
        rw [← hcode, List.forall_mem_map]
        intro piece _
        apply Text.oneLine_hexBytes
      rw [List.forall_mem_cons] at hcodes
      rw [List.forall_mem_cons, List.forall_mem_map]
      constructor
      · apply ListingRow.oneLine_display (Text.oneLine_hex _ _) hcodes.1 hformat
      · intro c hc
        apply ListingRow.oneLine_display hempty (hcodes.2 c hc) hempty

end Assembly

theorem intercalate_cons {α : Type} (separator : α) (xs : List α) (rest : List (List α)) :
  [separator].intercalate (xs :: rest) = xs ++ rest.flatMap (separator :: ·)
  := by
  induction rest generalizing xs with
  | nil => rw [List.intercalate_singleton, List.flatMap_nil, List.append_nil]
  | cons ys rest ih =>
      rw [List.intercalate_cons_cons, ih, List.flatMap_cons, List.append_assoc]
      rfl

/-- Lists put together with an element before each of them but the first. -/
theorem flatMap_zipIdx_eq_intercalate {α β : Type} (f : α × Nat → List β) (separator : β)
    (xs : List α) :
  xs.zipIdx.flatMap (fun x => if x.2 = 0 then f x else separator :: f x)
    = [separator].intercalate (xs.zipIdx.map f)
  := by
  cases xs with
  | nil => rfl
  | cons x xs =>
      rw [List.zipIdx_cons, List.flatMap_cons, if_pos rfl, List.map_cons, intercalate_cons,
        List.flatMap_map]
      congr 1
      apply List.flatMap_congr
      intro y hy
      rw [if_neg (Nat.ne_of_gt (List.le_snd_of_mem_zipIdx hy))]

theorem Assembly.hasRows_listing {a : Assembly} {symbols : SymbolTable}
    (h : ∀ row ∈ a.listingRows symbols, OneLine row) :
  Text.HasRows (a.listing symbols)
    ([[]].intercalate (a.sections.zipIdx.map fun x => (a.listedSection symbols x.1 x.2).rows))
  := by
  have hrows : [[]].intercalate
      (a.sections.zipIdx.map fun x => (a.listedSection symbols x.1 x.2).rows)
      = (a.listingRows symbols).map String.toList := by
    rw [← flatMap_zipIdx_eq_intercalate, listingRows, List.map_flatMap]
    apply List.flatMap_congr
    rintro ⟨s, i⟩ _
    simp only
    split
    · rw [map_toList_sectionRows]
    · rw [List.map_cons, map_toList_sectionRows]
      rfl
  rw [hrows]
  apply Text.hasRows_unlines h

section

variable {program : Program} {symbols : SymbolTable} {options : Options} {a : Assembly}
  {table : SymbolTable}

theorem Assembly.oneLine_listingRows (h : (assemble program symbols options).outcome = .ok a)
    (hsections : ∀ s ∈ a.sections, OneLine s.name) (htable : ∀ e ∈ table.entries, OneLine e.name)
    (hlines : ∀ l ∈ program, l.OneLined) :
  ∀ row ∈ a.listingRows table, OneLine row
  := by
  intro row hrow
  obtain ⟨⟨s, i⟩, hs, hrow⟩ := List.mem_flatMap.mp hrow
  have hs := List.fst_mem_of_mem_zipIdx hs
  have hsection : ∀ row ∈ a.sectionRows table s i, OneLine row := by
    rw [sectionRows, List.forall_mem_cons, List.forall_mem_map, List.forall_mem_flatMap]
    use oneLine_sectionHeader (hsections s hs)
    intro l hl
    have hmem : l ∈ sectionOrder a.sections := List.mem_flatMap.mpr ⟨s, hs, hl⟩
    have hprogram : l.line ∈ program := by
      rw [← program.map_line_numbered]
      apply List.mem_map_of_mem ((mem_sectionOrder_iff h).mp hmem)
    apply oneLine_lineRows
    apply Line.oneLine_format (hlines _ hprogram) htable
    intro heading hkind
    obtain ⟨s', hs', hname⟩ := exists_section_of_opening h hmem hkind
    rw [← hname]
    apply hsections s' hs'
  simp only at hrow
  split at hrow
  · apply hsection row hrow
  · rcases List.mem_cons.mp hrow with rfl | hrow
    · decide
    · apply hsection row hrow

/-- The listing of an assembled program shows its object code. -/
theorem listing_of_assembly (h : (assemble program symbols options).outcome = .ok a)
    (hsections : ∀ s ∈ a.sections, OneLine s.name) (htable : ∀ e ∈ table.entries, OneLine e.name)
    (hlines : ∀ l ∈ program, l.OneLined) :
  ∃ listed : List ListedSection,
    List.Forall₂ (fun x p => a.ShowsSection x.1 x.2 p) a.sections.zipIdx listed
      ∧ Text.HasRows (a.listing table) ([[]].intercalate (listed.map (·.rows)))
  := by
  obtain ⟨codes, hemits⟩ := exists_emits h
  use a.sections.zipIdx.map fun x => a.listedSection table x.1 x.2
  constructor
  · rw [List.forall₂_map_right_iff, List.forall₂_same]
    rintro ⟨s, i⟩ hs
    apply hemits.showsSection table (List.mem_zipIdx_iff_getElem?.mp hs)
  · rw [List.map_map]
    apply Assembly.hasRows_listing (Assembly.oneLine_listingRows h hsections htable hlines)

end

/-- A text of two rows with a newline in it, a load, and a zeroed block. -/
def Program.greeting : Program :=
  [{ kind := .data .ascii (.literal (.text [0x48, 0x69, 0x0A, 0x00])), symbol? := some 0,
      comment? := some "two rows" },
    { kind := .comment, comment? := some "no code" },
    { kind := .dyadic .ldwa (some .direct) (.symbolic "hi" ⟨0, 0⟩) },
    { kind := .opening ⟨"zeros", { writable := true, zeroed := true }⟩ },
    { kind := .block (.literal (.decimal 4)) }]

/-- The symbols of the program `greeting`. -/
def SymbolTable.greeting : SymbolTable where
  id := 0
  entries := [{ name := "hi", state := .single }]

theorem sections_greeting :
  (assemble .greeting .greeting {}).outcome.map
    (fun a => (a.sections.map (·.name), a.object.buffers))
    = .ok ([".text", "zeros"], [[0x48, 0x69, 0x0A, 0x00, 0xC1, 0x00, 0x00], []])
  := by
  cbv

theorem listing_of_assembly_greeting :
  ∃ a, (assemble .greeting .greeting {}).outcome = .ok a
    ∧ a.object.buffers = [[0x48, 0x69, 0x0A, 0x00, 0xC1, 0x00, 0x00], []]
    ∧ (∀ s ∈ a.sections, OneLine s.name)
    ∧ (∀ e ∈ SymbolTable.greeting.entries, OneLine e.name)
    ∧ (∀ l ∈ Program.greeting, l.OneLined)
    ∧ ∃ listed : List ListedSection,
      List.Forall₂ (fun x p => a.ShowsSection x.1 x.2 p) a.sections.zipIdx listed
        ∧ Text.HasRows (a.listing .greeting) ([[]].intercalate (listed.map (·.rows)))
  := by
  obtain ⟨a, ha, heq⟩ := Except.map_eq_ok_iff.mp sections_greeting
  obtain ⟨hnames, hbuffers⟩ := Prod.mk.inj heq
  have hsections : ∀ s ∈ a.sections, OneLine s.name := by
    rw [← List.forall_mem_map (P := OneLine), hnames]
    decide
  have htable : ∀ e ∈ SymbolTable.greeting.entries, OneLine e.name := by decide
  have hlines : ∀ l ∈ Program.greeting, l.OneLined := by decide
  use a, ha, hbuffers, hsections, htable, hlines
  apply listing_of_assembly ha hsections htable hlines

end Pep10
