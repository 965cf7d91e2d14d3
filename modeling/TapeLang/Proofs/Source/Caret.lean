import TapeLang.Proofs.Program.Loading
import TapeLang.Proofs.Text.Utf8

/-!
# The caret under a fault

The caret is placed by counting bytes, and the line above it is read as text.

* `Source.shownBefore` — what is shown of a line before an offset. `Source.excerpt_split` — where
  the byte at that offset is in the excerpt.
* `LoadError.FaultAt`, `Program.exists_faultAt` — a fault that was found in loading is at a bracket.
* `LoadError.diagnostic_lines` — a diagnostic has three lines.
* `LoadError.Pointed` — the caret stands under the bracket that is at fault.
* `LoadError.diagnostic_caret` — when it does, and where it stands at any rate: as far too far to
  the right as there are bytes more than characters before the bracket.
-/

namespace TapeLang

open Text (isBlankByte)
open Text.Utf8 (decodeFrom)

/-! ## The line that is shown -/

namespace Source

variable {source : List UInt8} {o : Nat} {b : UInt8}

/-- The bytes that are shown of a line before `offset`. -/
def shownBefore (source : List UInt8) (offset : Nat) : List UInt8 :=
  expandTabs ((lineBefore source offset).drop (margin (lineAround source offset)))

theorem lineFrom_of_getElem? (h : source[o]? = some b) (hb : b ≠ newline) :
    lineFrom source o = b :: lineFrom source (o + 1) := by
  obtain ⟨ho, rfl⟩ := List.getElem?_eq_some_iff.mp h
  rw [lineFrom, List.drop_eq_getElem_cons ho, List.takeWhile_cons_of_pos (by simpa using hb)]
  rfl

theorem mem_expandTabs_iff {bytes : List UInt8} :
    b ∈ expandTabs bytes ↔ b ≠ 0x09 ∧ b ∈ bytes ∨ b = 0x20 ∧ 0x09 ∈ bytes := by
  rw [expandTabs, List.mem_flatMap]
  constructor
  · rintro ⟨x, hx, hb⟩
    rw [expandTab] at hb
    split at hb
    · simp_all
    · simp_all
  · rintro (⟨hne, hb⟩ | ⟨rfl, htab⟩)
    · exact ⟨b, hb, by simp [expandTab, hne]⟩
    · exact ⟨0x09, htab, by decide⟩

theorem margin_le (before later : List UInt8) (hb : isBlankByte b = false) :
    margin (before ++ b :: later) ≤ before.length := by
  induction before with
  | nil => simp [margin, hb]
  | cons x before ih =>
      unfold margin at ih ⊢
      rw [List.cons_append, List.takeWhile_cons]
      split
      · exact Nat.succ_le_succ ih
      · exact Nat.zero_le _

theorem trimEnd_append_cons (before later : List UInt8) (hb : isBlankByte b = false) :
    trimEnd (before ++ b :: later) = before ++ b :: trimEnd later := by
  have hstop : ∀ ys zs : List UInt8, (ys ++ b :: zs).dropWhile isBlankByte =
    ys.dropWhile isBlankByte ++ b :: zs := by
    intro ys zs
    induction ys with
    | nil => simp [hb]
    | cons y ys ih =>
        rw [List.cons_append, List.dropWhile_cons, List.dropWhile_cons, ih]
        split <;> rfl
  simp [trimEnd, hstop]

theorem shownLine_split (h : source[o]? = some b) (hb : isBlankByte b = false) :
    ∃ later, shownLine source o = shownBefore source o ++ b :: later := by
  have hnewline : b ≠ newline := by
    rintro rfl
    exact absurd hb (by decide)
  have htab : expandTab b = [b] := by
    refine if_neg ?_
    rintro rfl
    exact absurd hb (by decide)
  have hline : lineAround source o = lineBefore source o ++ b :: lineFrom source (o + 1) := by
    rw [lineAround, lineFrom_of_getElem? h hnewline]
  have hmargin : margin (lineAround source o) ≤ (lineBefore source o).length :=
    hline ▸ margin_le _ _ hb
  have hshown : expandTabs ((lineAround source o).drop (margin (lineAround source o))) =
      shownBefore source o ++ b :: expandTabs (lineFrom source (o + 1)) := by
    conv_lhs => rw [hline, List.drop_append_of_le_length (hline ▸ hmargin)]
    rw [← hline, expandTabs_append, expandTabs, expandTabs, List.flatMap_cons, htab]
    rfl
  exact ⟨_, by rw [shownLine, hshown, trimEnd_append_cons _ _ hb]⟩

/-- **Where the byte at an offset is in the excerpt**: behind the characters of what is shown before
it. The arrow counts the bytes instead. -/
theorem excerpt_split (h : source[o]? = some b) (hb : isBlankByte b = false) (hascii : b < 0x80) :
    (excerpt source o).toList[(decodeFrom none (shownBefore source o)).length]? =
      some (Char.ofNat b.toNat) ∧
      arrow source o = (shownBefore source o).length := by
  have hnewline : b ≠ newline := by
    rintro rfl
    exact absurd hb (by decide)
  obtain ⟨later, hshown⟩ := shownLine_split h hb
  constructor
  · rw [excerpt, Text.Utf8.decode, String.toList_ofList, hshown,
      Text.Utf8.decodeFrom_append_ascii Text.Utf8.sound_none _ hascii]
    simp
  · rw [arrow, lineFrom_of_getElem? h hnewline]
    rfl

theorem newline_notMem_lineAround (source : List UInt8) (o : Nat) :
    newline ∉ lineAround source o := by
  have hnone : ∀ bytes : List UInt8, newline ∉ bytes.takeWhile (· != newline) := by
    intro bytes hmem
    have := List.all_eq_true.mp List.all_takeWhile newline hmem
    simp at this
  rw [lineAround, List.mem_append, not_or, lineBefore, lastLine, List.mem_reverse]
  exact ⟨hnone _, hnone _⟩

theorem newline_notMem_shownLine (source : List UInt8) (o : Nat) :
    newline ∉ shownLine source o := by
  intro hmem
  have hexpanded :
      newline ∈ expandTabs ((lineAround source o).drop (margin (lineAround source o))) := by
    rw [shownLine, trimEnd, List.mem_reverse] at hmem
    exact List.mem_reverse.mp ((List.dropWhile_sublist _).mem hmem)
  obtain ⟨_, hline⟩ | ⟨hspace, _⟩ := mem_expandTabs_iff.mp hexpanded
  · exact newline_notMem_lineAround source o (List.mem_of_mem_drop hline)
  · exact absurd hspace (by decide)

theorem newline_notMem_excerpt (source : List UInt8) (o : Nat) :
    '\n' ∉ (excerpt source o).toList := by
  rw [excerpt, Text.Utf8.decode, String.toList_ofList]
  exact Text.Utf8.newline_notMem_decodeFrom Text.Utf8.sound_none (newline_notMem_shownLine source o)

end Source

/-! ## Faults found in loading -/

/-- The bracket that is at fault. -/
def LoadError.Kind.bracket? : LoadError.Kind → Option Instruction
  | .malformed => none
  | .unclosed _ => some .loopOpen
  | .unopened => some .loopClose

/-- **A fault at a bracket**: the instruction `x` at byte `o` of the source. -/
structure LoadError.FaultAt (source : List UInt8) (e : LoadError) (o : Nat) (x : Instruction) :
    Prop where
  bracket : e.kind.bracket? = some x
  getElem?_eq : source[o]? = some x.byte
  located : ∃ index, e = .locate e.kind source o index

/-- A fault that was found in loading is at a bracket. -/
theorem Program.exists_faultAt {source : List UInt8} {e : LoadError}
    (h : Program.load source = .error e) :
    ∃ o x, e.FaultAt source o x := by
  have houtcome := Program.load_outcome source
  rw [h] at houtcome
  cases houtcome with
  | @stray s t hsource hbal =>
      have hat : source[s.length]? = some Instruction.loopClose.byte := by
        rw [hsource, List.getElem?_append_right (Nat.le_refl _), Nat.sub_self]
        rfl
      exact ⟨s.length, .loopClose, rfl, hat, _, rfl⟩
  | @unclosed places inner first hwait hplaces =>
      have hmem : first ∈ places := List.mem_reverse.mp (hplaces ▸ List.mem_cons_self)
      exact ⟨first, .loopOpen, rfl, ((hwait.mem_iff first).mp hmem).1, _, rfl⟩

namespace LoadError

variable {source : List UInt8} {e : LoadError} {o : Nat} {x : Instruction}

theorem FaultAt.excerpt_eq (h : e.FaultAt source o x) : e.excerpt = Source.excerpt source o := by
  obtain ⟨index, he⟩ := h.located
  rw [he, locate_natCast]

theorem FaultAt.arrow_eq (h : e.FaultAt source o x) : e.arrow = Source.arrow source o := by
  obtain ⟨index, he⟩ := h.located
  rw [he, locate_natCast]

theorem FaultAt.column_eq (h : e.FaultAt source o x) :
    e.column = ((Source.position source o).column : Int) := by
  obtain ⟨index, he⟩ := h.located
  rw [he, locate_natCast]

theorem FaultAt.offset_eq (h : e.FaultAt source o x) : e.offset = o := by
  obtain ⟨index, he⟩ := h.located
  rw [he, locate_natCast]

/-! ## The lines of a diagnostic -/

/-- A text without a newline. -/
def OneLine (text : String) : Prop :=
  '\n' ∉ text.toList

theorem OneLine.append {s t : String} (hs : OneLine s) (ht : OneLine t) : OneLine (s ++ t) := by
  rw [OneLine, String.toList_append, List.mem_append, not_or]
  exact ⟨hs, ht⟩

theorem oneLine_toString (n : Nat) : OneLine (toString n) := by
  intro hmem
  have hdigit : '\n'.isDigit = true :=
    Nat.isDigit_of_mem_toDigits (by decide) (by decide) (Nat.toList_repr ▸ hmem)
  exact absurd hdigit (by decide)

theorem oneLine_detail (k : Kind) : OneLine k.detail := by
  cases k with
  | malformed => simp [OneLine, Kind.detail]
  | unclosed positions => simp [OneLine, Kind.detail]
  | unopened => simp [OneLine, Kind.detail]

theorem FaultAt.oneLine_message (h : e.FaultAt source o x) : OneLine e.message := by
  have hcolumn : OneLine (toString e.column) := by
    rw [h.column_eq]
    exact oneLine_toString (Source.position source o).column
  have hline : OneLine ("syntax error at line " ++ toString e.line) :=
    OneLine.append (by simp [OneLine]) (oneLine_toString e.line)
  have hplace :
      OneLine ("syntax error at line " ++ toString e.line ++ ", column " ++ toString e.column) :=
    (hline.append (by simp [OneLine])).append hcolumn
  exact (hplace.append (by simp [OneLine])).append (oneLine_detail e.kind)

theorem FaultAt.oneLine_excerpt (h : e.FaultAt source o x) : OneLine e.excerpt := by
  rw [h.excerpt_eq]
  exact Source.newline_notMem_excerpt source o

theorem oneLine_marker (e : LoadError) : OneLine e.marker := by
  simp [OneLine, marker]

/-- **A diagnostic has three lines**: the message, the excerpt and the marker, the last two behind a
tab. -/
theorem FaultAt.diagnostic_lines (h : e.FaultAt source o x) :
    e.diagnostic.toList.splitOn '\n' = [e.message.toList, '\t' :: e.excerpt.toList,
      '\t' :: e.marker.toList] := by
  have hjoin : e.diagnostic.toList =
      ['\n'].intercalate [e.message.toList, '\t' :: e.excerpt.toList, '\t' :: e.marker.toList] := by
    simp [diagnostic, List.intercalate]
  have hlines : ∀ l ∈ [e.message.toList, '\t' :: e.excerpt.toList, '\t' :: e.marker.toList],
    '\n' ∉ l := by
    have hmessage : '\n' ∉ e.message.toList := h.oneLine_message
    have hexcerpt : '\n' ∉ e.excerpt.toList := h.oneLine_excerpt
    have hmarker : '\n' ∉ e.marker.toList := e.oneLine_marker
    simp [hmessage, hexcerpt, hmarker]
  rw [hjoin, List.splitOn_intercalate _ hlines (List.cons_ne_nil _ _)]

/-! ## The caret -/

theorem toList_marker (e : LoadError) : e.marker.toList =
    List.replicate e.arrow '-' ++ '^' :: List.replicate (e.excerpt.length - e.arrow - 1) '-' := by
  rw [marker, String.toList_ofList]

theorem count_marker (e : LoadError) : e.marker.toList.count '^' = 1 := by
  simp [toList_marker, List.count_replicate]

theorem getElem?_marker (e : LoadError) : e.marker.toList[e.arrow]? = some '^' := by
  simp [toList_marker]

theorem length_marker (e : LoadError) : e.marker.length = max e.excerpt.length (e.arrow + 1) := by
  rw [marker, String.length_ofList]
  simp only [List.length_append, List.length_replicate, List.length_cons]
  omega

/-- **The caret stands under the bracket**: the marker is as long as the excerpt, has one caret, and
the excerpt has the bracket that is at fault above it. -/
structure Pointed (e : LoadError) : Prop where
  length_eq : e.marker.length = e.excerpt.length
  single : e.marker.toList.count '^' = 1
  under : ∃ (i : Nat) (x : Instruction), e.marker.toList[i]? = some '^' ∧ e.kind.bracket? = some x ∧
    e.excerpt.toList[i]? = some x.symbol

/-- How many characters are shown before byte `o`. -/
def charsBefore (source : List UInt8) (o : Nat) : Nat :=
  (decodeFrom none (Source.shownBefore source o)).length

theorem FaultAt.plain (h : e.FaultAt source o x) :
    isBlankByte x.byte = false ∧ x.byte < 0x80 ∧ Char.ofNat x.byte.toNat = x.symbol := by
  cases x with
  | _ => exact ⟨by decide, by decide, by decide⟩

/-- **Where the caret stands.** The third line of a diagnostic has one caret, with as many dashes
before it as bytes are shown before the bracket; the bracket stands behind as many characters as
they make, which may be fewer. So the caret is under the bracket if each of them is a character, as
in ASCII. -/
theorem diagnostic_caret {source : List UInt8} {e : LoadError}
    (h : Program.load source = .error e) :
    e.diagnostic.toList.splitOn '\n' = [e.message.toList, '\t' :: e.excerpt.toList,
      '\t' :: e.marker.toList] ∧
      e.marker.toList.count '^' = 1 ∧ e.marker.toList[e.arrow]? = some '^' ∧
      e.marker.length = max e.excerpt.length (e.arrow + 1) ∧
      ∃ o x, e.FaultAt source o x ∧ e.excerpt.toList[charsBefore source o]? = some x.symbol ∧
        e.arrow = (Source.shownBefore source o).length ∧ charsBefore source o ≤ e.arrow ∧
        (charsBefore source o = e.arrow → e.Pointed) ∧
        ((∀ b ∈ Source.shownBefore source o, b < 0x80) → charsBefore source o = e.arrow) := by
  obtain ⟨o, x, hfault⟩ := Program.exists_faultAt h
  obtain ⟨hblank, hascii, hsymbol⟩ := hfault.plain
  obtain ⟨hbracket, harrow⟩ := Source.excerpt_split hfault.getElem?_eq hblank hascii
  have hexcerpt : e.excerpt.toList[charsBefore source o]? = some x.symbol := by
    rw [hfault.excerpt_eq, ← hsymbol]
    exact hbracket
  have hcount : e.arrow = (Source.shownBefore source o).length := hfault.arrow_eq.trans harrow
  refine ⟨hfault.diagnostic_lines, e.count_marker, e.getElem?_marker, e.length_marker, o, x, hfault,
    hexcerpt, hcount,
    ?_, ?_, ?_⟩
  · have hle := Text.Utf8.length_decodeFrom_le none (Source.shownBefore source o)
    rw [Option.toList_none, List.length_nil, Nat.zero_add] at hle
    exact hcount ▸ hle
  · intro hchars
    rw [hchars] at hexcerpt
    have hlt : e.arrow < e.excerpt.length := by
      rw [← String.length_toList]
      exact (List.getElem?_eq_some_iff.mp hexcerpt).1
    exact ⟨e.length_marker.trans (by omega), e.count_marker, e.arrow, x, e.getElem?_marker,
      hfault.bracket, hexcerpt⟩
  · intro hall
    rw [hcount, charsBefore, Text.Utf8.decodeFrom_of_ascii hall, List.length_map]

/-- Behind a tab and a sign the caret is under the bracket. -/
theorem diagnostic_caret_tab :
    let e : LoadError := .locate .unopened [0x2B, 0x09, 0x5D] 2 1
    Program.load [0x2B, 0x09, 0x5D] = .error e ∧ e.marker = "-----^" ∧ e.Pointed := by
  intro e
  have hload : Program.load [0x2B, 0x09, 0x5D] = .error e := by decide +kernel
  obtain ⟨_, _, _, _, o, x, hfault, _, _, _, hpointed, hascii⟩ := diagnostic_caret hload
  have ho : (o : Int) = 2 := hfault.offset_eq.symm
  obtain rfl : o = 2 := by omega
  exact ⟨hload, by decide +kernel, hpointed (hascii (by decide +kernel))⟩

/-- **The caret can stand beside the bracket**: a letter of two bytes before it moves the caret
behind the end of the excerpt. -/
theorem diagnostic_caret_letter :
    let e : LoadError := .locate .unopened (Source.ofString "é]") 2 0
    Program.loadText "é]" = .error e ∧ e.excerpt = "é]" ∧ e.marker = "--^" ∧ ¬e.Pointed := by
  intro e
  have hload : Program.loadText "é]" = .error e := by decide +kernel
  have hexcerpt : e.excerpt = "é]" := by decide +kernel
  have hmarker : e.marker = "--^" := by decide +kernel
  refine ⟨hload, hexcerpt, hmarker, ?_⟩
  intro hpointed
  have hlen := hpointed.length_eq
  rw [hexcerpt, hmarker] at hlen
  exact absurd hlen (by decide)

end LoadError

end TapeLang
