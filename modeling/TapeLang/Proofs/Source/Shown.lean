import TapeLang.Proofs.Source.Caret
import TapeLang.Proofs.Source.Places
import TapeLang.Proofs.Text.Subparts

/-!
# The line that is shown

The excerpt of a fault said without the functions that cut it out: from the whole source, by where
its newlines and its blanks are.

* `blanks` — what a line is trimmed of at its ends; `Cut` — the parts of a source around the line
  that holds an offset; `Cut.Shows` — what is shown of the line.
* `exists_cut` — there is such a cut around every byte that is no blank, and it shows what the
  excerpt is read from.
* `length_expandTabs` — how wide bytes are shown.
* `IsText` — bytes that are the encoding of a text; `IsText.of_append_cons` — ASCII bytes can be cut
  off them, `IsText.expandTabs` — and tabs expanded.
* `excerpt_shows_line` — the excerpt is the offending line, and the arrow the place of the bracket
  in it.
-/

namespace TapeLang.Source

open TapeLang.Text (isBlankByte)
open TapeLang.Text.Utf8 (Reads)

variable {source xs ys : List UInt8} {o : Nat} {b : UInt8}

/-! ## Cutting out a line -/

/-- What the ends of a line are trimmed of: tab, vertical tab, form feed, carriage return and
space. -/
def blanks : List UInt8 := [0x09, 0x0B, 0x0C, 0x0D, 0x20]

/-- **The parts of a source around the line that holds offset `o`**: the lines above it, the blanks
it begins with, what is kept of it, and the lines below it. -/
structure Cut (source : List UInt8) (o : Nat) where
  above : List UInt8
  margin : List UInt8
  kept : List UInt8
  below : List UInt8
  source_eq : source = above ++ (margin ++ kept) ++ below
  above_end : above = [] ∨ ∃ lines, above = lines ++ [newline]
  below_begin : below = [] ∨ ∃ lines, below = newline :: lines
  one_line : newline ∉ margin ++ kept
  holds : above.length ≤ o ∧ o < above.length + (margin ++ kept).length
  margin_blank : ∀ b ∈ margin, b ∈ blanks
  kept_head : ∀ b ∈ kept.head?, b ∉ blanks

namespace Cut

/-- The line that holds the offset. -/
def line (cut : Cut source o) : List UInt8 :=
  cut.margin ++ cut.kept

/-- The bytes from the first that is kept of the line up to the offset. -/
def between (cut : Cut source o) : List UInt8 :=
  (source.take o).drop (cut.above.length + cut.margin.length)

/-- **What is shown of the line**: what is kept of it with each tab as four spaces, without the
blanks that then stand at the end. -/
structure Shows (cut : Cut source o) (shown : List UInt8) : Prop where
  expanded : ∃ tail, expandTabs cut.kept = shown ++ tail ∧ ∀ b ∈ tail, b ∈ blanks
  last : ∀ b ∈ shown.getLast?, b ∉ blanks

end Cut

theorem isBlankByte_iff (hb : b ≠ newline) : isBlankByte b = true ↔ b ∈ blanks := by
  have hne : b.toNat ≠ 0x0A := fun h => hb (UInt8.toNat_inj.mp h)
  simp [isBlankByte, blanks, UInt8.le_iff_toNat_le, ← UInt8.toNat_inj]
  omega

theorem trimEnd_split (bytes : List UInt8) :
    ∃ tail, bytes = trimEnd bytes ++ tail ∧ (∀ b ∈ tail, isBlankByte b = true) ∧
    ∀ b ∈ (trimEnd bytes).getLast?, isBlankByte b = false := by
  refine ⟨(bytes.reverse.takeWhile isBlankByte).reverse, ?_, ?_, ?_⟩
  · rw [trimEnd, ← List.reverse_append, List.takeWhile_append_dropWhile, List.reverse_reverse]
  · intro b hb
    exact List.all_eq_true.mp List.all_takeWhile b (List.mem_reverse.mp hb)
  · intro b hb
    rw [trimEnd, List.getLast?_reverse] at hb
    have hhead := List.head?_dropWhile_not isBlankByte bytes.reverse
    rw [Option.mem_def.mp hb] at hhead
    exact hhead

theorem drop_margin (bytes : List UInt8) :
    bytes.drop (margin bytes) = bytes.dropWhile isBlankByte := by
  calc bytes.drop (margin bytes)
      = (bytes.takeWhile isBlankByte ++ bytes.dropWhile isBlankByte).drop
        (bytes.takeWhile isBlankByte).length := by
        rw [List.takeWhile_append_dropWhile, margin]
    _ = bytes.dropWhile isBlankByte := List.drop_left

theorem dropWhile_newline (bytes : List UInt8) :
    bytes.dropWhile (· != newline) = [] ∨ ∃ lines, bytes.dropWhile (· != newline) =
      newline :: lines := by
  cases hrest : bytes.dropWhile (· != newline) with
  | nil => exact .inl rfl
  | cons x lines =>
      have hhead := List.head?_dropWhile_not (· != newline) bytes
      rw [hrest, List.head?_cons] at hhead
      obtain rfl : x = newline := by simpa using hhead
      exact .inr ⟨lines, rfl⟩

/-- **There is a cut around every byte that is no blank.** -/
theorem exists_cut (h : source[o]? = some b) (hb : isBlankByte b = false) :
    ∃ cut : Cut source o, source.take o = cut.above ++ lineBefore source o ∧
      cut.margin = (lineAround source o).takeWhile isBlankByte ∧
        cut.kept = (lineAround source o).dropWhile isBlankByte := by
  have hnewline : b ≠ newline := by
    rintro rfl
    exact absurd hb (by decide)
  have hsplit : (lineAround source o).takeWhile isBlankByte ++
    (lineAround source o).dropWhile isBlankByte =
      lineAround source o := List.takeWhile_append_dropWhile
  obtain ⟨ho, _⟩ := List.getElem?_eq_some_iff.mp h
  obtain ⟨above, htake, _, habove⟩ := exists_append_lastLine (source.take o)
  have hlength : above.length + (lineBefore source o).length = o := by
    rw [lineBefore, ← List.length_append, ← htake, List.length_take_of_le (Nat.le_of_lt ho)]
  have hone := newline_notMem_lineAround source o
  refine ⟨⟨above, _, _, (source.drop o).dropWhile (· != newline), ?source_eq, habove,
    dropWhile_newline _, ?one_line, ?holds,
    ?margin_blank, ?kept_head⟩, htake, rfl, rfl⟩
  case source_eq =>
    rw [hsplit, lineAround, ← List.append_assoc, lineBefore, ← htake, List.append_assoc, lineFrom,
      List.takeWhile_append_dropWhile, List.take_append_drop]
  case one_line => rwa [hsplit]
  case holds =>
    rw [hsplit, lineAround, List.length_append, lineFrom_of_getElem? h hnewline, List.length_cons]
    omega
  case margin_blank =>
    intro x hx
    have hne : x ≠ newline := ne_of_mem_of_not_mem ((List.takeWhile_sublist _).mem hx) hone
    exact (isBlankByte_iff hne).mp (List.all_eq_true.mp List.all_takeWhile x hx)
  case kept_head =>
    intro x hx
    have hne : x ≠ newline :=
      ne_of_mem_of_not_mem ((List.dropWhile_sublist _).mem (List.mem_of_mem_head? hx)) hone
    have hhead := List.head?_dropWhile_not isBlankByte (lineAround source o)
    rw [Option.mem_def.mp hx] at hhead
    rw [← isBlankByte_iff hne, hhead]
    exact Bool.false_ne_true

/-- The excerpt is read from what is shown of the line. -/
theorem Cut.shows_shownLine {cut : Cut source o}
    (hkept : cut.kept = (lineAround source o).dropWhile isBlankByte) :
    cut.Shows (shownLine source o) := by
  have hshown : shownLine source o = trimEnd (expandTabs cut.kept) := by
    rw [shownLine, drop_margin, hkept]
  obtain ⟨tail, htail, hends, hlast⟩ := trimEnd_split (expandTabs cut.kept)
  have hne : ∀ x ∈ expandTabs cut.kept, x ≠ newline := by
    rintro x hx rfl
    obtain ⟨_, hx⟩ | ⟨hspace, _⟩ := mem_expandTabs_iff.mp hx
    · exact cut.one_line (List.mem_append_right _ hx)
    · exact absurd hspace (by decide)
  rw [hshown]
  refine ⟨⟨tail, htail, fun x hx => ?_⟩, fun x hx => ?_⟩
  · exact (isBlankByte_iff (hne x (htail ▸ List.mem_append_right _ hx))).mp (hends x hx)
  · have hmem : x ∈ expandTabs cut.kept := htail ▸ List.mem_append_left _ (List.mem_of_getLast? hx)
    rw [← isBlankByte_iff (hne x hmem), hlast x hx]
    exact Bool.false_ne_true

theorem Cut.shownBefore_eq {cut : Cut source o}
    (htake : source.take o = cut.above ++ lineBefore source o)
    (hmargin : cut.margin = (lineAround source o).takeWhile isBlankByte) :
    shownBefore source o = expandTabs cut.between := by
  rw [shownBefore, between, htake, List.drop_length_add_append, hmargin]
  rfl

/-- **A tab is as wide as four other bytes.** -/
theorem length_expandTabs (bytes : List UInt8) :
    (expandTabs bytes).length = bytes.countP (· ≠ 0x09) + 4 * bytes.count 0x09 := by
  induction bytes with
  | nil => rfl
  | cons b bytes ih =>
      rw [expandTabs, List.flatMap_cons, List.length_append, ← expandTabs, ih, List.countP_cons,
        List.count_cons, expandTab]
      split <;> simp_all <;> omega

/-! ## The encoding of a text -/

/-- Bytes that are the encoding of a text. -/
def IsText (bytes : List UInt8) : Prop :=
  ∃ text : String, ofString text = bytes

theorem isText_iff : IsText xs ↔ ∃ cs : List Char, cs.flatMap String.utf8EncodeChar = xs := by
  constructor
  · rintro ⟨text, h⟩
    exact ⟨text.toList, h⟩
  · rintro ⟨cs, h⟩
    exact ⟨String.ofList cs, by rw [ofString, String.toList_ofList, h]⟩

/-- **A byte of ASCII parts a text**: what stands before it and what stands behind it are texts. -/
theorem IsText.of_append_cons (h : IsText (xs ++ b :: ys)) (hascii : b < 0x80) :
    IsText xs ∧ IsText ys := by
  rw [isText_iff] at h
  obtain ⟨cs, hcs⟩ := h
  induction cs generalizing xs with
  | nil => simp at hcs
  | cons c cs ih =>
      rw [List.flatMap_cons, List.append_eq_append_iff] at hcs
      obtain ⟨before, rfl, hlater⟩ | ⟨behind, hc, hbehind⟩ := hcs
      · obtain ⟨hbefore, hys⟩ := ih hlater
        obtain ⟨text, rfl⟩ := isText_iff.mp hbefore
        exact ⟨isText_iff.mpr ⟨c :: text, List.flatMap_cons⟩, hys⟩
      · cases behind with
        | nil =>
            rw [List.append_nil] at hc
            obtain ⟨_, hys⟩ := @ih [] hbehind.symm
            exact ⟨isText_iff.mpr ⟨[c], by rw [← hc, List.flatMap_singleton]⟩, hys⟩
        | cons b' behind =>
            obtain ⟨rfl, hys⟩ := List.cons.inj hbehind
            have hsingle :=
              Text.Utf8.utf8EncodeChar_of_mem
              (hc ▸ List.mem_append_right _ List.mem_cons_self) hascii
            rw [hsingle] at hc
            obtain ⟨rfl, hnil⟩ : xs = [] ∧ behind = [] := by
              have hlength := congrArg List.length hc
              simp only [List.length_append, List.length_cons, List.length_nil] at hlength
              exact ⟨List.length_eq_zero_iff.mp (by omega), List.length_eq_zero_iff.mp (by omega)⟩
            subst hnil
            exact ⟨isText_iff.mpr ⟨[], rfl⟩, isText_iff.mpr ⟨cs, hys.symm⟩⟩

/-- A character as it is shown: a tab is four spaces. -/
def expandTabChar (c : Char) : List Char :=
  if c = '\t' then [' ', ' ', ' ', ' '] else [c]

theorem expandTabs_of_notMem (h : 0x09 ∉ xs) : expandTabs xs = xs := by
  induction xs with
  | nil => rfl
  | cons b xs ih =>
      obtain ⟨hb, hlater⟩ := List.ne_and_not_mem_of_not_mem_cons h
      rw [expandTabs, List.flatMap_cons, ← expandTabs, ih hlater, expandTab, if_neg hb.symm]
      rfl

theorem expandTabs_utf8EncodeChar (c : Char) :
    expandTabs (String.utf8EncodeChar c) = (expandTabChar c).flatMap String.utf8EncodeChar := by
  by_cases hc : c = '\t'
  · subst hc
    decide
  · have hnone : 0x09 ∉ String.utf8EncodeChar c := by
      intro hmem
      have htab : String.utf8EncodeChar c = String.utf8EncodeChar '\t' :=
        Text.Utf8.utf8EncodeChar_of_mem hmem (by decide)
      exact hc (Text.Utf8.utf8EncodeChar_prefixFree (htab ▸ List.prefix_refl _))
    rw [expandTabs_of_notMem hnone, expandTabChar, if_neg hc, List.flatMap_singleton]

theorem IsText.expandTabs (h : IsText xs) : IsText (expandTabs xs) := by
  rw [isText_iff] at h ⊢
  obtain ⟨cs, rfl⟩ := h
  refine ⟨cs.flatMap expandTabChar, ?_⟩
  induction cs with
  | nil => rfl
  | cons c cs ih =>
      rw [List.flatMap_cons, List.flatMap_cons, List.flatMap_append, expandTabs_append,
        expandTabs_utf8EncodeChar, ih]

theorem blanks_ascii (hb : b ∈ blanks) : b < 0x80 := by
  simp only [blanks, List.mem_cons, List.not_mem_nil, or_false] at hb
  rcases hb with rfl | rfl | rfl | rfl | rfl <;> decide

theorem IsText.of_append (h : IsText (xs ++ ys)) (hascii : ∀ b ∈ xs, b < 0x80) : IsText ys := by
  induction xs with
  | nil => exact h
  | cons b xs ih =>
      obtain ⟨hb, hlater⟩ := List.forall_mem_cons.mp hascii
      have hparted : IsText ([] ++ b :: (xs ++ ys)) := h
      exact ih (hparted.of_append_cons hb).2 hlater

/-- **What is shown of a line that is a text is a text.** -/
theorem Cut.Shows.isText {cut : Cut source o} {shown : List UInt8} (h : cut.Shows shown)
    (hline : IsText cut.line) :
    IsText shown := by
  have hkept : IsText cut.kept := hline.of_append fun b hb => blanks_ascii (cut.margin_blank b hb)
  obtain ⟨tail, htail, hblank⟩ := h.expanded
  have hexpanded : IsText (shown ++ tail) := htail ▸ hkept.expandTabs
  cases tail with
  | nil => rwa [List.append_nil] at hexpanded
  | cons b tail => exact (hexpanded.of_append_cons (blanks_ascii (hblank b List.mem_cons_self))).1

/-! ## The excerpt -/

/-- **The excerpt is the offending line, and the arrow the place of the bracket in it.** A source
that does not load is at fault at a bracket, and there is a cut around the line that holds it. Of
what is shown of that line, the byte that the arrow counts up to is the bracket, and stands behind
four bytes for each tab and one for each other byte between the first that is kept and the bracket.
The excerpt is what those bytes are read as; it has neither tabs nor newlines; and if the line is a
text, the excerpt is the text that the bytes are the encoding of. -/
theorem excerpt_shows_line {source : List UInt8} {e : LoadError}
    (h : Program.load source = .error e) :
    ∃ (o : Nat) (x : Instruction) (cut : Cut source o) (shown : List UInt8),
      e.offset = o ∧ e.kind.bracket? = some x ∧ source[o]? = some x.byte ∧ cut.Shows shown ∧
        e.arrow < shown.length ∧ shown[e.arrow]? = source[o]? ∧
        e.arrow = cut.between.countP (· ≠ 0x09) + 4 * cut.between.count 0x09 ∧
        (∀ cs, Reads shown cs ↔ e.excerpt.toList = cs) ∧ '\t' ∉ e.excerpt.toList ∧
          '\n' ∉ e.excerpt.toList ∧
        (IsText cut.line → ofString e.excerpt = shown) := by
  obtain ⟨o, x, hfault⟩ := Program.exists_faultAt h
  obtain ⟨hblank, hascii, _⟩ := hfault.plain
  have hat := hfault.getElem?_eq
  obtain ⟨cut, htake, hmargin, hkept⟩ := exists_cut hat hblank
  have hshows := Cut.shows_shownLine hkept
  have hbefore := Cut.shownBefore_eq htake hmargin
  have harrow : e.arrow = (shownBefore source o).length :=
    hfault.arrow_eq.trans (excerpt_split hat hblank hascii).2
  obtain ⟨later, hsplit⟩ := shownLine_split hat hblank
  have hreads : ∀ cs, Reads (shownLine source o) cs ↔ e.excerpt.toList = cs := by
    intro cs
    rw [Text.Utf8.reads_iff, hfault.excerpt_eq, excerpt, Text.Utf8.decode, String.toList_ofList]
  refine ⟨o, x, cut, shownLine source o, hfault.offset_eq, hfault.bracket, hat, hshows, ?_, ?_, ?_,
    hreads, ?_,
    hfault.oneLine_excerpt, ?_⟩
  · rw [harrow, hsplit, List.length_append, List.length_cons]
    omega
  · rw [harrow, hsplit, List.getElem?_append_right (Nat.le_refl _), Nat.sub_self, hat]
    rfl
  · rw [harrow, hbefore, length_expandTabs]
  · intro hmem
    obtain hreplaced | hbytes := ((hreads _).mpr rfl).mem hmem
    · exact absurd hreplaced (by decide)
    · obtain ⟨tail, htail, _⟩ := hshows.expanded
      have htab : 0x09 ∈ expandTabs cut.kept :=
        htail ▸ List.mem_append_left _ (hbytes.subset (by decide))
      obtain ⟨hne, _⟩ | ⟨hspace, _⟩ := mem_expandTabs_iff.mp htab
      · exact hne rfl
      · exact absurd hspace (by decide)
  · intro hline
    obtain ⟨text, htext⟩ := hshows.isText hline
    have hexcerpt : e.excerpt.toList = text.toList :=
      (hreads _).mp (htext ▸ Text.Utf8.reads_flatMap_utf8EncodeChar text.toList)
    rw [ofString, hexcerpt]
    exact htext

/-- On the second line, behind a tab and a letter of two bytes with another tab, and before a
carriage return. -/
theorem excerpt_shows_line_second :
    let e : LoadError := .locate .unopened (ofString "+\n\té\t]\r\n") 6 1
    Program.load (ofString "+\n\té\t]\r\n") = .error e ∧ e.excerpt = "é    ]" ∧ e.arrow = 6 ∧
      ∃ shown, shown[6]? = some Instruction.loopClose.byte ∧ Reads shown "é    ]".toList := by
  intro e
  have hload : Program.load (ofString "+\n\té\t]\r\n") = .error e := by decide +kernel
  have hexcerpt : e.excerpt = "é    ]" := by decide +kernel
  have harrow : e.arrow = 6 := by decide +kernel
  obtain ⟨o, x, cut, shown, _, hx, hat, _, _, hshown, _, hreads, _⟩ := excerpt_shows_line hload
  obtain rfl : Instruction.loopClose = x := Option.some.inj hx
  rw [harrow, hat] at hshown
  exact ⟨hload, hexcerpt, harrow, shown, hshown, (hreads _).mpr (congrArg String.toList hexcerpt)⟩

end TapeLang.Source
