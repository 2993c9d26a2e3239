import Mathlib
import Sequencer.Proofs.Layout
import Sequencer.Proofs.Program.Numeral

/-! Programs line by line.

    What stands on a line is told by its blanks and its comment (`StandsOn`). Every line is read on
    its own, and its number matters only where it is refused. So the words of a program are those of
    its lines (`wordsFrom_eq_ok`), the words of lines behind one another are those of the first and
    then those of the others (`wordsFrom_append`), and an error is that of the first line that is
    refused, with its number (`wordsFrom_eq_error`). -/

namespace Sequencer.Text

variable {before text after : List Char}

/-! ### Blanks at the ends of a text -/

theorem forall_ne_of_notMem {a : Char} (h : a ∉ text) :
    ∀ c ∈ text, decide (c ≠ a) = true := by
  intro c hc
  rw [decide_eq_true_eq]
  rintro rfl
  exact h hc

theorem dropWhile_append {p : Char → Bool}
    (hbefore : ∀ c ∈ before, p c = true) (hfirst : ∀ c ∈ text.head?, p c = false) :
    (before ++ text).dropWhile p = text := by
  rw [List.dropWhile_append_of_pos hbefore]
  cases text with
  | nil => rfl
  | cons c text => rw [List.dropWhile_cons_of_neg (by simp [hfirst c rfl])]

theorem head?_dropWhile {p : Char → Bool} {c : Char}
    (h : c ∈ (text.dropWhile p).head?) : p c = false := by
  have hnot := List.head?_dropWhile_not p text
  rw [Option.mem_def.mp h] at hnot
  exact hnot

theorem trim_eq (hbefore : ∀ c ∈ before, isBlank c = true)
    (hafter : ∀ c ∈ after, isBlank c = true) (hfirst : ∀ c ∈ text.head?, isBlank c = false)
    (hlast : ∀ c ∈ text.getLast?, isBlank c = false) : trim (before ++ (text ++ after)) = text := by
  cases text with
  | nil =>
    have hblank : (before ++ after).dropWhile isBlank = [] := by
      rw [List.dropWhile_eq_nil_iff]
      intro c hc
      rcases List.mem_append.mp hc with hc | hc
      · exact hbefore c hc
      · exact hafter c hc
    rw [trim, List.nil_append, hblank]
    rfl
  | cons c text =>
    rw [trim, dropWhile_append hbefore (by simpa using hfirst), List.reverse_append,
      dropWhile_append (by simpa using hafter) (by rwa [List.head?_reverse]), List.reverse_reverse]

/-- Trimming takes off blanks and nothing else. -/
theorem exists_trim (text : List Char) : ∃ before after, text = before ++ (trim text ++ after) ∧
    (∀ c ∈ before, isBlank c = true) ∧ ∀ c ∈ after, isBlank c = true := by
  refine ⟨text.takeWhile isBlank, (text.dropWhile isBlank).rtakeWhile isBlank, ?_,
    fun c hc => List.mem_takeWhile_imp hc, fun c hc => List.mem_rtakeWhile_imp hc⟩
  have hright : trim text ++ (text.dropWhile isBlank).rtakeWhile isBlank = text.dropWhile isBlank :=
    List.rdropWhile_append_rtakeWhile
  rw [hright, List.takeWhile_append_dropWhile]

theorem head?_trim {c : Char} (h : c ∈ (trim text).head?) : isBlank c = false := by
  have hprefix : trim text <+: text.dropWhile isBlank := List.rdropWhile_prefix _ _
  obtain ⟨rest, hrest⟩ := hprefix
  have hfirst : c ∈ (text.dropWhile isBlank).head? := by
    rw [← hrest, List.head?_append, Option.mem_def.mp h]
    rfl
  exact head?_dropWhile hfirst

theorem getLast?_trim {c : Char} (h : c ∈ (trim text).getLast?) : isBlank c = false := by
  rw [trim, List.getLast?_reverse] at h
  exact head?_dropWhile h

end Sequencer.Text

namespace Sequencer.Program

open Text

variable {instr k : Nat} {lines₁ lines₂ : List (List Char)} {line source : List Char}
  {word : Option Word} {words : List Word} {e : ProgramError} {error : LineError}

/-! ### Lines of a text -/

theorem lines_append (s t : List Char) : lines (s ++ '\n' :: t) = lines s ++ lines t :=
  List.splitOn_append_cons_self s t

theorem lines_of_notMem (h : '\n' ∉ line) : lines line = [line] := List.splitOn_eq_singleton h

theorem notMem_of_mem_lines (h : line ∈ lines source) : '\n' ∉ line := by
  induction source generalizing line with
  | nil =>
    obtain rfl : line = [] := List.mem_singleton.mp h
    exact List.not_mem_nil
  | cons c source ih =>
    rw [lines, List.splitOn_eq_splitOnP, List.splitOnP_cons_eq_if_modifyHead,
      ← List.splitOn_eq_splitOnP] at h
    change line ∈ if (c == '\n') = true then [] :: lines source else
      (lines source).modifyHead (c :: ·) at h
    split at h
    case isTrue hc =>
      rcases List.mem_cons.mp h with rfl | h
      · exact List.not_mem_nil
      · exact ih h
    case isFalse hc =>
      cases hlines : lines source with
      | nil =>
        rw [hlines] at h
        cases h
      | cons first rest =>
        rw [hlines] at h ih
        rcases List.mem_cons.mp h with rfl | h
        · have hfirst := ih List.mem_cons_self
          simp only [List.mem_cons, not_or]
          exact ⟨fun heq => hc (by simp [← heq]), hfirst⟩
        · exact ih (List.mem_cons_of_mem _ h)

/-! ### What stands on a line -/

/-- `text` is what stands on the line: it lies between blanks, before the comment if there is one,
    and has no blank at its ends. -/
structure StandsOn (line text : List Char) : Prop where
  parts : ∃ before after comment, line = before ++ (text ++ after) ++ comment ∧
    (∀ c ∈ before, isBlank c = true) ∧ (∀ c ∈ after, isBlank c = true) ∧
    (comment = [] ∨ ∃ rest, comment = '#' :: rest)
  uncommented : '#' ∉ text
  first : ∀ c ∈ text.head?, isBlank c = false
  last : ∀ c ∈ text.getLast?, isBlank c = false

theorem content_of_standsOn {text : List Char} (h : StandsOn line text) : content line = text := by
  obtain ⟨⟨before, after, comment, rfl, hbefore, hafter, hcomment⟩, hhash, hfirst, hlast⟩ := h
  have hblank {blanks : List Char} (h : ∀ c ∈ blanks, isBlank c = true) : '#' ∉ blanks :=
    fun hmem => absurd (h '#' hmem) (by decide)
  have hhash' : '#' ∉ before ++ (text ++ after) := by
    simp [hblank hbefore, hblank hafter, hhash]
  have htake : (before ++ (text ++ after) ++ comment).takeWhile (· ≠ '#') =
      before ++ (text ++ after) := by
    rw [List.takeWhile_append_of_pos (forall_ne_of_notMem hhash')]
    rcases hcomment with rfl | ⟨rest, rfl⟩
    · exact List.append_nil _
    · rw [List.takeWhile_cons_of_neg (by decide), List.append_nil]
  rw [content, htake, trim_eq hbefore hafter hfirst hlast]

theorem standsOn_content (line : List Char) : StandsOn line (content line) := by
  have hcomment : line.dropWhile (· ≠ '#') = [] ∨
      ∃ rest, line.dropWhile (· ≠ '#') = '#' :: rest := by
    cases hdrop : line.dropWhile (· ≠ '#') with
    | nil => exact .inl rfl
    | cons c rest =>
      have hc : decide (c ≠ '#') = false := head?_dropWhile (by rw [hdrop]; rfl)
      exact .inr ⟨rest, by simpa using hc⟩
  obtain ⟨before, after, htrim, hbefore, hafter⟩ := exists_trim (line.takeWhile (· ≠ '#'))
  refine ⟨⟨before, after, line.dropWhile (· ≠ '#'), ?_, hbefore, hafter, hcomment⟩, ?_,
    fun _ => head?_trim, fun _ => getLast?_trim⟩
  · rw [content, ← htrim, List.takeWhile_append_dropWhile]
  · intro hmem
    have hmem' : '#' ∈ line.takeWhile (· ≠ '#') := by
      rw [htrim]
      exact List.mem_append_right _ (List.mem_append_left _ hmem)
    simpa using List.mem_takeWhile_imp hmem'

theorem content_eq_iff {text : List Char} : content line = text ↔ StandsOn line text :=
  ⟨fun h => h ▸ standsOn_content line, content_of_standsOn⟩

/-! ### One line -/

theorem lineWord_eq_ok (hinstr : instr ≤ 128) : lineWord instr line = .ok word ↔
    content line = [] ∧ word = none ∨
      ∃ w, word = some w ∧ Reads (content line) w.toNat ∧ w.toNat < 2 ^ instr := by
  rw [lineWord]
  cases hcontent : content line with
  | nil => simp [not_reads_nil, eq_comm]
  | cons c cs =>
    have hok (w : Word) : wordOf instr (c :: cs) = .ok w ↔
        Reads (c :: cs) w.toNat ∧ w.toNat < 2 ^ instr := wordOf_eq_ok hinstr
    cases h : wordOf instr (c :: cs) with
    | error e => simp [Except.map, ← hok, h]
    | ok w => simp [Except.map, ← hok, h, eq_comm]

/-- A line is read if it holds nothing, or what is read as a number of at most `instr` bits. -/
theorem exists_lineWord (hinstr : instr ≤ 128) : (∃ word, lineWord instr line = .ok word) ↔
    content line = [] ∨ ∃ n < 2 ^ instr, Reads (content line) n := by
  simp only [lineWord_eq_ok hinstr]
  constructor
  · rintro ⟨word, ⟨hcontent, -⟩ | ⟨w, -, hreads, hlt⟩⟩
    · exact .inl hcontent
    · exact .inr ⟨w.toNat, hlt, hreads⟩
  · rintro (hcontent | ⟨n, hlt, hreads⟩)
    · exact ⟨none, .inl ⟨hcontent, rfl⟩⟩
    · have hn : n < 2 ^ 128 := hlt.trans_le (Nat.pow_le_pow_right (by decide) hinstr)
      have htoNat : (BitVec.ofNat 128 n).toNat = n := Nat.mod_eq_of_lt hn
      exact ⟨some (BitVec.ofNat 128 n), .inr ⟨_, rfl, by rwa [htoNat], by rwa [htoNat]⟩⟩

/-! ### Lines one after the other -/

theorem wordsFrom_cons_of_ok (h : lineWord instr line = .ok word) :
    wordsFrom instr k (line :: lines₁) =
      (wordsFrom instr (k + 1) lines₁).map (word.toList ++ ·) := by
  rw [wordsFrom, h]

theorem wordsFrom_cons_of_error (h : lineWord instr line = .error error) :
    wordsFrom instr k (line :: lines₁) = .error ⟨k, error⟩ := by
  rw [wordsFrom, h]

theorem wordsFrom_eq_ok : wordsFrom instr k lines₁ = .ok words ↔
    ∃ found, List.Forall₂ (fun line word => lineWord instr line = .ok word) lines₁ found ∧
      found.reduceOption = words := by
  induction lines₁ generalizing k words with
  | nil => simp [wordsFrom, List.forall₂_nil_left_iff]
  | cons line rest ih =>
    cases h : lineWord instr line with
    | error error =>
      rw [wordsFrom_cons_of_error h]
      simp [List.forall₂_cons_left_iff, h]
    | ok word =>
      rw [wordsFrom_cons_of_ok h]
      have hcons (found : List (Option Word)) :
          (word :: found).reduceOption = word.toList ++ found.reduceOption := by
        cases word <;> rfl
      simp only [List.forall₂_cons_left_iff, h, Except.ok.injEq]
      constructor
      · intro hmap
        cases hrest : wordsFrom instr (k + 1) rest with
        | error e =>
          rw [hrest] at hmap
          cases hmap
        | ok ws =>
          rw [hrest] at hmap
          obtain ⟨found, hfound, rfl⟩ := ih.mp hrest
          exact ⟨word :: found, ⟨word, found, rfl, hfound, rfl⟩,
            (hcons found).trans (Except.ok.inj hmap)⟩
      · rintro ⟨_, ⟨_, found, rfl, hfound, rfl⟩, rfl⟩
        rw [ih.mpr ⟨found, hfound, rfl⟩, hcons]
        rfl

/-- Lines are read if each of them is. -/
theorem exists_wordsFrom : (∃ words, wordsFrom instr k lines₁ = .ok words) ↔
    ∀ line ∈ lines₁, ∃ word, lineWord instr line = .ok word := by
  induction lines₁ generalizing k with
  | nil => simp [wordsFrom]
  | cons line rest ih =>
    rw [List.forall_mem_cons, ← ih (k := k + 1)]
    cases h : lineWord instr line with
    | error error => simp [wordsFrom_cons_of_error h]
    | ok word =>
      rw [wordsFrom_cons_of_ok h]
      cases wordsFrom instr (k + 1) rest <;> simp [Except.map]

/-- An error is that of the first line that is refused. -/
theorem wordsFrom_eq_error : wordsFrom instr k lines₁ = .error e ↔
    ∃ i line, lines₁[i]? = some line ∧ e.line = k + i ∧ lineWord instr line = .error e.error ∧
      ∀ line ∈ lines₁.take i, ∃ word, lineWord instr line = .ok word := by
  induction lines₁ generalizing k with
  | nil => simp [wordsFrom]
  | cons line rest ih =>
    cases h : lineWord instr line with
    | error error =>
      rw [wordsFrom_cons_of_error h]
      constructor
      · intro he
        obtain rfl := Except.error.inj he
        exact ⟨0, line, rfl, rfl, h, by simp⟩
      · rintro ⟨i, line', hi, hline, hrefused, hbefore⟩
        cases i with
        | zero =>
          obtain rfl := Option.some.inj hi
          obtain ⟨number, reason⟩ := e
          obtain rfl := Except.error.inj (h.symm.trans hrefused)
          rw [show number = k from hline]
        | succ i =>
          obtain ⟨word, hword⟩ := hbefore line (by simp)
          cases h.symm.trans hword
    | ok word =>
      rw [wordsFrom_cons_of_ok h]
      have hmap : (wordsFrom instr (k + 1) rest).map (word.toList ++ ·) = .error e ↔
          wordsFrom instr (k + 1) rest = .error e := by
        cases wordsFrom instr (k + 1) rest <;> simp [Except.map]
      rw [hmap, ih]
      constructor
      · rintro ⟨i, line', hi, hline, hrefused, hbefore⟩
        refine ⟨i + 1, line', hi, by omega, hrefused, ?_⟩
        simpa [h] using hbefore
      · rintro ⟨i, line', hi, hline, hrefused, hbefore⟩
        cases i with
        | zero =>
          obtain rfl := Option.some.inj hi
          cases h.symm.trans hrefused
        | succ i =>
          refine ⟨i, line', hi, by omega, hrefused, ?_⟩
          simpa [h] using hbefore

theorem wordsFrom_append : wordsFrom instr k (lines₁ ++ lines₂) = (do
    let words₁ ← wordsFrom instr k lines₁
    let words₂ ← wordsFrom instr (k + lines₁.length) lines₂
    return words₁ ++ words₂) := by
  induction lines₁ generalizing k with
  | nil =>
    simp only [List.nil_append, wordsFrom, List.length_nil, Nat.add_zero]
    cases wordsFrom instr k lines₂ <;> rfl
  | cons line rest ih =>
    rw [List.cons_append]
    cases h : lineWord instr line with
    | error error =>
      rw [wordsFrom_cons_of_error h, wordsFrom_cons_of_error h]
      rfl
    | ok word =>
      rw [wordsFrom_cons_of_ok h, wordsFrom_cons_of_ok h, ih, List.length_cons,
        show k + 1 + rest.length = k + (rest.length + 1) by omega]
      cases wordsFrom instr (k + 1) rest with
      | error e => rfl
      | ok words₁ =>
        cases wordsFrom instr (k + (rest.length + 1)) lines₂ with
        | error e => rfl
        | ok words₂ =>
          change Except.ok (word.toList ++ (words₁ ++ words₂)) =
            Except.ok (word.toList ++ words₁ ++ words₂)
          rw [List.append_assoc]

/-! ### Texts -/

/-- A program is accepted exactly if on each of its lines there stands nothing, or any number of
    marks, a plus sign or none, and hexadecimal digits with underscores among them, of a number with
    at most as many bits as an instruction. Nothing or a numeral of so many bits stands on each line
    exactly if the program is accepted and there is no sign and no second mark on any line. -/
theorem accepts_exactly_readable_lines {widths : Widths} {l : Layout}
    (hl : Layout.ofWidths widths = pure l) (source : String) :
    ((∃ words, parse l.widths.instr source = .ok words) ↔
      ∀ line ∈ lines source.toList, ∃ text, StandsOn line text ∧
        (text = [] ∨ ∃ n < 2 ^ l.widths.instr, Reads text n)) ∧
    ((∀ line ∈ lines source.toList, ∃ text, StandsOn line text ∧
        (text = [] ∨ ∃ n < 2 ^ l.widths.instr, Numeral text n)) ↔
      (∃ words, parse l.widths.instr source = .ok words) ∧
        ∀ line ∈ lines source.toList, ∀ text, StandsOn line text →
          '+' ∉ text ∧ ¬ Remarked text) := by
  obtain ⟨rfl, hplaced⟩ := Layout.placed_of_ofWidths hl
  have hinstr : l.widths.instr ≤ 128 := hplaced.limited.instr
  simp only [← content_eq_iff, exists_eq_left', forall_eq']
  have haccepted : (∃ words, parse l.widths.instr source = .ok words) ↔
      ∀ line ∈ lines source.toList,
        content line = [] ∨ ∃ n < 2 ^ l.widths.instr, Reads (content line) n := by
    rw [parse, exists_wordsFrom]
    exact forall₂_congr fun line _ => exists_lineWord hinstr
  refine ⟨haccepted, ?_⟩
  rw [haccepted, ← forall₂_and]
  refine forall₂_congr fun line _ => ?_
  simp only [numeral_iff_reads]
  constructor
  · rintro (hcontent | ⟨n, hn, hreads, hsign, hmark⟩)
    · rw [hcontent]
      exact ⟨.inl rfl, List.not_mem_nil, by decide⟩
    · exact ⟨.inr ⟨n, hn, hreads⟩, hsign, hmark⟩
  · rintro ⟨hcontent | ⟨n, hn, hreads⟩, hsign, hmark⟩
    · exact .inl hcontent
    · exact .inr ⟨n, hn, hreads, hsign, hmark⟩

/-- Two marks, an underscore and a sign before the digit are accepted, although they are no
    numeral. -/
theorem accepts_exactly_readable_lines_signed :
    ∃ (l : Layout) (source : String), Layout.ofWidths {} = pure l ∧
      lines source.toList = ["0x0x_+1 # one\r".toList, []] ∧
      (∃ words, parse l.widths.instr source = .ok words) ∧
      ¬ ∀ line ∈ lines source.toList, ∃ text, StandsOn line text ∧
        (text = [] ∨ ∃ n < 2 ^ l.widths.instr, Numeral text n) := by
  have hl : ∃ l, Layout.ofWidths {} = pure l := ⟨_, rfl⟩
  obtain ⟨l, hl⟩ := hl
  have hlines : ∃ source : String, lines source.toList = ["0x0x_+1 # one\r".toList, []] :=
    ⟨"0x0x_+1 # one\r\n", by decide +kernel⟩
  obtain ⟨source, hlines⟩ := hlines
  have hfirst : StandsOn "0x0x_+1 # one\r".toList "0x0x_+1".toList :=
    content_eq_iff.mp (by decide +kernel)
  have hsigned : Reads (['_'] ++ '+' :: ['1']) (ofHexDigits [1]) :=
    .signed (by simp) (.digit (by decide) .nil) (by simp)
  obtain ⟨haccepted, hnumerals⟩ := accepts_exactly_readable_lines hl source
  rw [hlines] at haccepted hnumerals
  refine ⟨l, source, hl, hlines, haccepted.mpr ?_, ?_⟩
  · rw [List.forall_mem_cons, List.forall_mem_singleton]
    refine ⟨⟨_, hfirst, .inr ⟨ofHexDigits [1], ?_, .marked (.marked hsigned)⟩⟩,
      ⟨_, standsOn_content [], .inl rfl⟩⟩
    rw [(Layout.placed_of_ofWidths hl).1]
    decide
  · rw [hlines, hnumerals]
    rintro ⟨-, hall⟩
    exact (hall _ List.mem_cons_self _ hfirst).1 (by decide)

/-- A repeated mark is accepted, and so is a sign, although neither is a numeral. -/
theorem second_mark_and_sign_accepted :
    ∃ l, Layout.ofWidths {} = pure l ∧
      parse l.widths.instr "0x0x1" = .ok [1] ∧ parse l.widths.instr "+1" = .ok [1] ∧
      StandsOn "0x0x1".toList "0x0x1".toList ∧ (∀ n, ¬ Numeral "0x0x1".toList n) ∧
      StandsOn "+1".toList "+1".toList ∧ ∀ n, ¬ Numeral "+1".toList n := by
  have hl : ∃ l, Layout.ofWidths {} = pure l := ⟨_, rfl⟩
  obtain ⟨l, hl⟩ := hl
  have hinstr : l.widths.instr = 128 := by
    rw [(Layout.placed_of_ofWidths hl).1]
  have hmarks : StandsOn "0x0x1".toList "0x0x1".toList := content_eq_iff.mp (by decide +kernel)
  have hsign : StandsOn "+1".toList "+1".toList := content_eq_iff.mp (by decide +kernel)
  refine ⟨l, hl, ?_⟩
  rw [hinstr]
  refine ⟨by decide +kernel, by decide +kernel, hmarks, fun n h => ?_, hsign, fun n h => ?_⟩
  · exact (numeral_iff_reads.mp h).2.2 (by decide)
  · exact (numeral_iff_reads.mp h).2.1 (by decide)

end Sequencer.Program
