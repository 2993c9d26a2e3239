import Mathlib
import Sequencer.Proofs.Command.Session
import Sequencer.Proofs.Decoding
import Sequencer.Proofs.Program.Lines
import Sequencer.Proofs.Text.Radix

/-! Programs and their texts.

    A text that spells words line by line is read as these words, whatever comments, blanks and
    empty lines stand between them (`parse_of_numerals`). A listing spells its words in full
    (`exists_spells_wordText`), so its second column is the program again (`parse_columns`). Texts
    one after the other are read one after the other (`parse_append_of_ok`), and a text is refused
    for the first line that would be refused on its own (`exists_refused_line`). -/

namespace Sequencer.Program

open Text

variable {instr : Nat} {text line : List Char} {ds : List Nat} {c : Char} {w : Word}
  {words : List Word} {e : ProgramError}

/-! ### Numerals on a line -/

theorem isBlank_of_isHexDigit {d : Nat} (h : IsHexDigit c d) : isBlank c = false := by
  have hall : ∀ d : Fin 16, isBlank d.val.digitChar = false ∧
      isBlank d.val.digitChar.toUpper = false := by
    decide
  obtain ⟨hd, rfl | rfl⟩ := h
  · exact (hall ⟨d, hd⟩).1
  · exact (hall ⟨d, hd⟩).2

theorem Spells.isBlank (h : Spells text ds) (hc : c ∈ text) : isBlank c = false := by
  rcases h.mem hc with rfl | ⟨d, hd⟩
  · decide
  · exact isBlank_of_isHexDigit hd

/-- Digits and underscores alone are what stands on a line. -/
theorem standsOn_of_spells (h : Spells text ds) : StandsOn text text where
  parts := ⟨[], [], [], by simp, List.forall_mem_nil _, List.forall_mem_nil _, .inl rfl⟩
  uncommented := h.notMem rfl (by decide)
  first _ hc := h.isBlank (List.mem_of_head? hc)
  last _ hc := h.isBlank (List.mem_of_getLast? hc)

theorem wordsFrom_of_numerals (hinstr : instr ≤ 128) {ls : List (List Char)} {k : Nat}
    (hwords : ∀ w ∈ words, w.toNat < 2 ^ instr)
    (h : List.Forall₂ (fun text w => Numeral text w.toNat) ((ls.map content).filter (· ≠ []))
      words) : wordsFrom instr k ls = .ok words := by
  induction ls generalizing k words with
  | nil =>
    obtain rfl := List.forall₂_nil_left_iff.mp h
    rfl
  | cons line ls ih =>
    rw [List.map_cons] at h
    by_cases hcontent : content line = []
    · rw [List.filter_cons_of_neg (by simpa using hcontent)] at h
      have hline : lineWord instr line = .ok none :=
        (lineWord_eq_ok hinstr).mpr (.inl ⟨hcontent, rfl⟩)
      rw [wordsFrom_cons_of_ok hline, ih hwords h]
      rfl
    · rw [List.filter_cons_of_pos (by simpa using hcontent)] at h
      cases h with
      | @cons _ w _ words hnumeral h =>
        rw [List.forall_mem_cons] at hwords
        have hline : lineWord instr line = .ok (some w) :=
          (lineWord_eq_ok hinstr).mpr (.inr ⟨w, rfl, hnumeral.reads, hwords.1⟩)
        rw [wordsFrom_cons_of_ok hline, ih hwords.2 h]
        rfl

theorem parse_of_numerals (hinstr : instr ≤ 128) {source : String} {found : List (List Char)}
    (hwords : ∀ w ∈ words, w.toNat < 2 ^ instr)
    (hfound : List.Forall₂ StandsOn (lines source.toList) found)
    (h : List.Forall₂ (fun text w => Numeral text w.toNat) (found.filter (· ≠ [])) words) :
    parse instr source = .ok words := by
  have hcontent : (lines source.toList).map content = found := by
    rw [← List.forall₂_eq_eq_eq, List.forall₂_map_left_iff]
    exact hfound.imp fun _ _ hline => content_of_standsOn hline
  rw [← hcontent] at h
  exact wordsFrom_of_numerals hinstr hwords h

/-- Only words that fit come out. -/
theorem lt_of_parse (hinstr : instr ≤ 128) {source : String} (h : parse instr source = .ok words) :
    ∀ w ∈ words, w.toNat < 2 ^ instr := by
  obtain ⟨found, hfound, rfl⟩ := wordsFrom_eq_ok.mp h
  clear h
  generalize lines source.toList = ls at hfound
  induction hfound with
  | nil => exact List.forall_mem_nil _
  | @cons line word _ _ hline _ ih =>
    cases word with
    | none => exact ih
    | some w =>
      rw [List.reduceOption_cons_of_some, List.forall_mem_cons]
      refine ⟨?_, ih⟩
      rcases (lineWord_eq_ok hinstr).mp hline with ⟨-, hnone⟩ | ⟨w', hw', -, hlt⟩
      · cases hnone
      · obtain rfl := Option.some.inj hw'
        exact hlt

/-! ### Texts one after the other -/

theorem toList_append_newline (s t : String) :
    lines (s ++ "\n" ++ t).toList = lines s.toList ++ lines t.toList := by
  rw [String.toList_append, String.toList_append, List.append_assoc]
  exact lines_append s.toList t.toList

theorem parse_append_of_ok {s t : String} {words' : List Word} (hs : parse instr s = .ok words)
    (ht : parse instr t = .ok words') : parse instr (s ++ "\n" ++ t) = .ok (words ++ words') := by
  rw [parse] at hs
  -- the lines of `t` have other numbers here
  have ht' : wordsFrom instr (1 + (lines s.toList).length) (lines t.toList) = .ok words' :=
    wordsFrom_eq_ok.mpr (wordsFrom_eq_ok.mp ht)
  rw [parse, toList_append_newline, wordsFrom_append, hs]
  simp only [bind, Except.bind, ht']
  rfl

theorem parse_append_of_error {s : String} (hs : parse instr s = .error e) (t : String) :
    parse instr (s ++ "\n" ++ t) = .error e := by
  rw [parse] at hs
  rw [parse, toList_append_newline, wordsFrom_append, hs]
  rfl

/-! ### Lines on their own -/

theorem parse_line (h : '\n' ∉ line) :
    parse instr (String.ofList line) = wordsFrom instr 1 [line] := by
  rw [parse, String.toList_ofList, lines_of_notMem h]

theorem exists_parse_line (h : '\n' ∉ line) :
    (∃ words, parse instr (String.ofList line) = .ok words) ↔
      ∃ word, lineWord instr line = .ok word := by
  rw [parse_line h, exists_wordsFrom]
  simp

/-- A text is refused for its first line that is refused on its own. -/
theorem exists_refused_line {source : String} (h : parse instr source = .error e) :
    ∃ i line, (lines source.toList)[i]? = some line ∧ e.line = i + 1 ∧
      parse instr (String.ofList line) = .error ⟨1, e.error⟩ ∧
      ∀ line ∈ (lines source.toList).take i,
        ∃ words, parse instr (String.ofList line) = .ok words := by
  obtain ⟨i, line, hi, hnumber, hrefused, hbefore⟩ := wordsFrom_eq_error.mp h
  refine ⟨i, line, hi, by omega, ?_, ?_⟩
  · rw [parse_line (notMem_of_mem_lines (List.mem_of_getElem? hi))]
    exact wordsFrom_cons_of_error hrefused
  · intro line hline
    exact (exists_parse_line (notMem_of_mem_lines (List.mem_of_mem_take hline))).mpr
      (hbefore line hline)

/-! ### Listings -/

theorem spells_of_forall₂ (h : List.Forall₂ IsHexDigit text ds) : Spells text ds := by
  induction h with
  | nil => exact .nil
  | cons hd _ ih => exact .digit hd ih

/-- The digits of a word in a listing spell it. -/
theorem exists_spells_wordText (instr : Nat) (w : Word) :
    ∃ ds, Spells (wordText instr w).toList ds ∧ ds ≠ [] ∧ ofHexDigits ds = w.toNat := by
  obtain ⟨ds, hds, hvalue⟩ := exists_hexDigits w.toNat
  have hzeros (k : Nat) : List.Forall₂ IsHexDigit (List.replicate k '0') (List.replicate k 0) := by
    induction k with
    | zero => exact .nil
    | succ k ih => exact .cons (by decide) ih
  have hne : ds ≠ [] := by
    rintro rfl
    exact Nat.toDigits_ne_nil (List.forall₂_nil_right_iff.mp hds)
  refine ⟨List.replicate ((instr + 3) / 4 - (hexDigits w.toNat).length) 0 ++ ds, ?_, ?_, ?_⟩
  · rw [wordText, padLeft, String.toList_append, String.toList_ofList, hexDigits,
      String.toList_ofList]
    exact spells_of_forall₂ (List.rel_append (hzeros _) hds)
  · exact List.append_ne_nil_of_right_ne_nil _ hne
  · rw [ofHexDigits_replicate_zero, hvalue]

theorem parse_wordText (hinstr : instr ≤ 128) (hw : w.toNat < 2 ^ instr) :
    parse instr (wordText instr w) = .ok [w] := by
  obtain ⟨ds, hspells, hdigits, hvalue⟩ := exists_spells_wordText instr w
  have hnumeral : Numeral (wordText instr w).toList w.toNat := hvalue ▸ .plain hspells hdigits
  have hstands : List.Forall₂ StandsOn (lines (wordText instr w).toList)
      [(wordText instr w).toList] := by
    rw [lines_of_notMem (hspells.notMem rfl (by decide))]
    exact .cons (standsOn_of_spells hspells) .nil
  have hne : (wordText instr w).toList ≠ [] := by
    intro hnil
    rw [hnil] at hnumeral
    exact not_reads_nil hnumeral.reads
  refine parse_of_numerals hinstr (by simpa using hw) hstands ?_
  rw [List.filter_cons_of_pos (by simpa using hne)]
  exact .cons hnumeral .nil

/-- What stands in the second column of a line of a listing: behind the colon and a blank, up to the
    next blank. -/
def column (text : String) : String :=
  String.ofList (((text.toList.dropWhile (· ≠ ':')).drop 2).takeWhile (· ≠ ' '))

theorem column_append {a b : String} (ha : ':' ∉ a.toList) (hb : ' ' ∉ b.toList) (rest : String) :
    column (a ++ (": " ++ (b ++ ("  " ++ rest)))) = b := by
  rw [column, String.toList_append, List.dropWhile_append_of_pos (forall_ne_of_notMem ha),
    String.toList_append, String.toList_append, String.toList_append]
  change String.ofList ((b.toList ++ ' ' :: ' ' :: rest.toList).takeWhile (· ≠ ' ')) = b
  rw [List.takeWhile_append_of_pos (forall_ne_of_notMem hb), List.takeWhile_cons_of_neg (by decide),
    List.append_nil, String.ofList_toList]

theorem column_of_disassembled {l : Layout} {address : Nat} {text : String}
    (h : Session.disassembled l w address = .ok text) :
    column text = wordText l.widths.instr w := by
  obtain ⟨op, -, h⟩ := Checked.bind_eq_ok.mp h
  rw [← Except.ok.inj h]
  have haddress : ':' ∉ (padLeft 4 ' ' (toString address)).toList := by
    rw [padLeft, String.toList_append, String.toList_ofList, List.mem_append, List.mem_replicate]
    rintro (⟨-, hblank⟩ | hdigit)
    · exact absurd hblank (by decide)
    · exact notMem_toString (fun _ => Nat.digitChar_ne ':' rfl) address hdigit
  obtain ⟨ds, hspells, -, -⟩ := exists_spells_wordText l.widths.instr w
  simp only [String.append_assoc]
  exact column_append haddress (hspells.notMem rfl (by decide)) _

theorem column_of_listing {l : Layout} {texts : List String} {address : Nat}
    (h : Session.listing l words address = .ok texts) :
    texts.map column = words.map (wordText l.widths.instr) := by
  induction words generalizing address texts with
  | nil =>
    obtain rfl := Except.ok.inj h
    rfl
  | cons w words ih =>
    rw [Session.listing_cons] at h
    obtain ⟨text, htext, h⟩ := Checked.bind_eq_ok.mp h
    obtain ⟨rest, hrest, h⟩ := Checked.bind_eq_ok.mp h
    obtain rfl := Except.ok.inj h
    rw [List.map_cons, List.map_cons, column_of_disassembled htext, ih hrest]

/-- The second column of the listing of a program is the program. -/
theorem parse_columns {l : Layout} {texts : List String} {address : Nat}
    (hinstr : l.widths.instr ≤ 128) (hwords : ∀ w ∈ words, w.toNat < 2 ^ l.widths.instr)
    (h : Session.listing l words address = .ok texts) :
    parse l.widths.instr (String.join ((texts.map column).map (· ++ "\n"))) = .ok words := by
  rw [column_of_listing h]
  clear h
  induction words with
  | nil => rfl
  | cons w words ih =>
    rw [List.forall_mem_cons] at hwords
    rw [List.map_cons, List.map_cons, String.join_cons]
    exact parse_append_of_ok (parse_wordText hinstr hwords.1) (ih hwords.2)

theorem exists_listing {l : Layout} (h : l.Placed) (words : List Word) (address : Nat) :
    ∃ texts, Session.listing l words address = .ok texts := by
  refine Checked.exists_mapM fun p _ => ?_
  obtain ⟨op, hop, -⟩ := Layout.decode_ok h p.1
  exact ⟨_, by rw [Session.disassembled, hop]; rfl⟩

/-- What a listing prints has the program that was read in its second column. -/
theorem exists_columns_of_disasm {σ : Type} {fs : Storage (StateM σ)} {path : String}
    {configPath : Option String} {w w' : Output × σ} {u : Unit}
    (h : Session.Yields (Session.disasm fs path configPath) w u w') :
    ∃ config l words w₁ w₂ texts, Config.layout config = pure l ∧
      Session.Yields (Session.program fs l path) w₁ words w₂ ∧
      Session.listing l words 0 = .ok texts ∧ w'.1 = Session.printed w₂.1 (String.join texts) ∧
      parse l.widths.instr (String.join ((texts.map column).map (· ++ "\n"))) = .ok words := by
  obtain ⟨config, l, words, w₁, w₂, texts, hl, hwords, htexts, rfl⟩ := Session.exists_of_disasm h
  have hinstr : l.widths.instr ≤ 128 := (Core.placed_of_layout hl).2.2.limited.instr
  obtain ⟨source, hsource⟩ := Session.exists_of_program hwords
  exact ⟨config, l, words, w₁, w₂, texts, hl, hwords, htexts, rfl,
    parse_columns hinstr (lt_of_parse hinstr hsource) htexts⟩

end Sequencer.Program
