import QuantumNode.Assembly.Assemble
import QuantumNode.Proofs.Subroutine.RoundTrip

/-
  The text of instructions, one in a line, is read as these instructions again.
-/

open List

namespace QuantumNode
open Constants Source Text Words

namespace Text

---- Cutting and splitting

variable {s w : List Char}

theorem cut?_none (hNone : first ∉ s) : cut? (first :: needle) s = none := by
  induction s with
  | nil => rfl
  | cons c s ih =>
    rw [mem_cons, not_or] at hNone
    rw [cut?, ih hNone.2]
    simp [hNone.1]

theorem cut?_found (rest : List Char) (hNone : c ∉ w) :
    cut? [c] (w ++ c :: rest) = some (w, rest) := by
  induction w with
  | nil => simp [cut?]
  | cons b w ih =>
    rw [mem_cons, not_or] at hNone
    rw [cons_append, cut?, ih hNone.2]
    simp [hNone.1]

theorem splitAt_intercalate (hNone : ∀ w ∈ pieces, c ∉ w) (hSome : pieces ≠ []) :
    splitAt c ([c].intercalate pieces) = pieces := by
  have hSame : ∀ s, splitAt c s = s.splitOn c := by
    intro s
    induction s with
    | nil => rfl
    | cons d s ih =>
      rw [splitAt, ih, splitOn, splitOn, splitOnP_cons_eq_if_modifyHead]
      rcases hRest : s.splitOnP (· == c) with _ | _
      · exact absurd hRest (splitOnP_ne_nil _ _)
      · simp
  rw [hSame]
  exact splitOn_intercalate c hNone hSome

theorem join_eq : join sep pieces = sep.intercalate pieces := by
  fun_induction join sep pieces with
  | case1 => rfl
  | case2 => simp
  | case3 w _ hSome ih => rw [ih, intercalate_cons_of_ne_nil hSome]

theorem dropWhile_eq (hFirst : ∀ c ∈ s.head?, p c = false) : s.dropWhile p = s := by
  cases s with
  | nil => rfl
  | cons c s => simp [hFirst c rfl]

theorem trimBy_eq (hFirst : ∀ c ∈ s.head?, p c = false) (hLast : ∀ c ∈ s.getLast?, p c = false) :
    trimBy p s = s := by
  rw [trimBy, dropWhile_eq hFirst, trimRightBy, dropWhile_eq, reverse_reverse]
  rwa [head?_reverse]

---- Words

def wordChars : List Char := "abcdefghijklmnopqrstuvwxyz0123456789_-@[]:RCQM".toList

theorem of_all {P : Char → Prop} [DecidablePred P]
    (hAll : (s.all fun c => P c) = true) : ∀ c ∈ s, P c :=
  fun c hMem => of_decide_eq_true (all_eq_true.mp hAll c hMem)

theorem wordChars_solid : ∀ c ∈ wordChars, isBlank c = false ∧ c ≠ '(' ∧ c ≠ '/' ∧ c ≠ '#' :=
  of_all (by decide +kernel)

-- A word of a line, which does not look like a label.
structure IsWord (w : List Char) : Prop where
  nonempty : w ≠ []
  chars : ∀ c ∈ w, c ∈ wordChars
  last : w.getLast? ≠ some ':'

theorem strip_word (hChars : ∀ c ∈ w, c ∈ wordChars) : strip w = w :=
  trimBy_eq (fun _ hHead => (wordChars_solid _ (hChars _ (mem_of_head? hHead))).1)
    fun _ hLast => (wordChars_solid _ (hChars _ (mem_of_getLast? hLast))).1

structure IsLine (l : List Char) : Prop where
  nonempty : l ≠ []
  newline : '\n' ∉ l
  clean : cleanLine l = l
  body : isPreamble l = false

-- A line of words, with a space between neighbours.
def line (words : List (List Char)) : List Char := [' '].intercalate words

section Line
variable {words : List (List Char)} (hWords : ∀ w ∈ words, IsWord w) (hSome : words ≠ [])
include hWords
theorem chars_line : ∀ c ∈ line words, c = ' ' ∨ c ∈ wordChars := by
  intro c hMem
  induction words with
  | nil => cases hMem
  | cons w words ih =>
    rw [forall_mem_cons] at hWords
    cases words with
    | nil =>
      rw [line, intercalate_singleton] at hMem
      exact .inr (hWords.1.chars c hMem)
    | cons v words =>
      rw [line, intercalate_cons_cons, mem_append, mem_append, mem_singleton] at hMem
      rcases hMem with (hMem | hMem) | hMem
      · exact .inr (hWords.1.chars c hMem)
      · exact .inl hMem
      · exact ih hWords.2 hMem

include hSome
theorem head_line : (∃ c ∈ wordChars, (line words).head? = some c) := by
  cases words with
  | nil => exact absurd rfl hSome
  | cons w words =>
    have hWord := hWords w mem_cons_self
    cases w with
    | nil => exact absurd rfl hWord.nonempty
    | cons c w =>
      refine ⟨c, hWord.chars c mem_cons_self, ?_⟩
      cases words <;> simp [line]

theorem last_line : ∃ c ∈ wordChars, c ≠ ':' ∧ (line words).getLast? = some c := by
  induction words with
  | nil => exact absurd rfl hSome
  | cons w words ih =>
    rw [forall_mem_cons] at hWords
    cases words with
    | nil =>
      have hLast := getLast?_eq_some_getLast hWords.1.nonempty
      refine ⟨_, hWords.1.chars _ (getLast_mem hWords.1.nonempty), fun hColon => ?_, ?_⟩
      · exact hWords.1.last (hLast.trans (congrArg some hColon))
      · rw [line, intercalate_singleton, hLast]
    | cons v words =>
      rcases ih hWords.2 (cons_ne_nil _ _) with ⟨c, hMem, hColon, hLast⟩
      refine ⟨c, hMem, hColon, ?_⟩
      rw [line] at hLast
      rw [line, intercalate_cons_cons, getLast?_append, hLast, Option.some_or]

theorem strip_line : strip (line words) = line words := by
  rcases head_line hWords hSome with ⟨first, hFirst, hHead⟩
  rcases last_line hWords hSome with ⟨last, hMem, _, hLast⟩
  refine trimBy_eq (fun c hAt => ?_) (fun c hAt => ?_)
  · cases hHead.symm.trans hAt
    exact (wordChars_solid _ hFirst).1
  · cases hLast.symm.trans hAt
    exact (wordChars_solid _ hMem).1

theorem cutWords_line : cutWords .space (some .round) (line words ++ [' ']) = .ok words := by
  induction words with
  | nil => exact absurd rfl hSome
  | cons w words ih =>
    have hNoBracket : '(' ∉ line (w :: words) ++ [' '] := by
      rw [mem_append, mem_singleton]
      rintro (hMem | ⟨⟨⟩⟩)
      rcases chars_line hWords _ hMem with ⟨⟨⟩⟩ | hMem
      exact (wordChars_solid _ hMem).2.1 rfl
    rw [forall_mem_cons] at hWords
    have hNoSpace : ' ' ∉ w := fun hMem => by
      have hBlank := (wordChars_solid _ (hWords.1.chars _ hMem)).1
      exact absurd hBlank (by decide)
    obtain ⟨rest, hLine, hRest⟩ : ∃ rest, line (w :: words) ++ [' '] = w ++ ' ' :: rest ∧
        cutWords .space (some .round) rest = .ok words := by
      cases words with
      | nil =>
        refine ⟨[], by rw [line, intercalate_singleton], ?_⟩
        rw [cutWords]
        rfl
      | cons v words =>
        refine ⟨line (v :: words) ++ [' '], ?_, ih hWords.2 (cons_ne_nil _ _)⟩
        simp [line]
    rw [hLine] at hNoBracket ⊢
    have hMark : stopMark .space (some .round) (w ++ ' ' :: rest) = [' '] := by
      simp only [stopMark, opensFirst, Brackets.round, cut?_none hNoBracket]
      rfl
    have hCut := cut?_found rest hNoSpace
    rw [← hMark] at hCut
    rw [cutWords, if_neg (by simp)]
    split
    · rename_i hNone
      rw [hCut] at hNone
      cases hNone
    · rename_i _ _ hFound
      rw [hCut] at hFound
      cases hFound
      rw [hRest, hMark, dropLast_singleton, append_nil]

theorem split_line : split .space (some .round) (line words) = .ok words := by
  rw [split, strip_line hWords hSome]
  exact cutWords_line hWords hSome

-- A line of words is neither blank nor a comment nor a part of the preamble.
theorem isLine_line : IsLine (line words) := by
  have hOther : ∀ c, c ∉ ' ' :: wordChars → c ∉ line words := fun c hNone hMem =>
    hNone (mem_cons.mpr (chars_line hWords c hMem))
  rcases head_line hWords hSome with ⟨_, hFirst, hHead⟩
  constructor
  · exact fun hNil => by simp [hNil] at hHead
  · exact hOther _ (by decide +kernel)
  · have hSlash := hOther '/' (by decide +kernel)
    rw [cleanLine, strip_line hWords hSome, before, cut?_none hSlash]
  · rw [isPreamble, hHead, decide_eq_false_iff_not, Option.some.injEq]
    exact (wordChars_solid _ hFirst).2.2.2

end Line

section Lines
variable {lines : List (List Char)} (hLines : ∀ l ∈ lines, IsLine l) (hSome : lines ≠ [])
include hLines hSome
theorem sections_lines : sections (['\n'].intercalate lines) = .ok ([], lines) := by
  have hClean : (lines.map cleanLine).filter (· ≠ []) = lines := by
    rw [map_congr_left fun l hMem => (hLines l hMem).clean, map_id', filter_eq_self]
    exact fun l hMem => decide_eq_true (hLines l hMem).nonempty
  have hHead : lines.takeWhile isPreamble = [] ∧ lines.dropWhile isPreamble = lines := by
    cases lines with
    | nil => exact absurd rfl hSome
    | cons l lines => simp [(hLines l mem_cons_self).body]
  have hBody : lines.any isPreamble = false :=
    any_eq_false.mpr fun l hMem => by simp [(hLines l hMem).body]
  simp only [Source.sections, splitAt_intercalate (fun l hMem => (hLines l hMem).newline) hSome,
    hClean, hHead.1, hHead.2, hBody]
  rfl

theorem expand_lines : expand [] lines = lines := by
  rw [expand, if_neg (by simpa using hSome), foldl_nil, join_eq,
    splitAt_intercalate (fun l hMem => (hLines l hMem).newline) hSome]

theorem parse_lines (hText : text.toList = ['\n'].intercalate lines)
    (hItems : Source.parseItems lines = .ok items) :
    Source.parse text = .ok (Draft.ofItems none none items) := by
  have hPreamble : Source.parsePreamble [] = .ok ⟨none, none, []⟩ := rfl
  simp only [Source.parse, hText, sections_lines hLines hSome, bind, Except.bind, hPreamble,
    expand_lines hLines hSome, hItems]
  rfl

end Lines

---- Numbers and registers

def placeChars : List Char := "0123456789-RCQM".toList

theorem placeChars_plain :
    ∀ c ∈ placeChars, c ∈ wordChars ∧ c ≠ '@' ∧ c ≠ '[' ∧ c ≠ ']' ∧ c ≠ ':' :=
  of_all (by decide +kernel)

-- A number or a register, as a text.
structure IsPlace (w : List Char) : Prop where
  nonempty : w ≠ []
  chars : ∀ c ∈ w, c ∈ placeChars

theorem digits_toDigits (n : Nat) :
    Numeral.isDigits (Nat.toDigits 10 n) = true ∧ ∀ c ∈ Nat.toDigits 10 n, c ∈ "0123456789".toList := by
  have hAll : ∀ k ∈ List.range' 48 10, Numeral.isDigit (Char.ofNat k) = true ∧
      Char.ofNat k ∈ "0123456789".toList := by decide +kernel
  have hDigit : ∀ c ∈ Nat.toDigits 10 n, Numeral.isDigit c = true ∧ c ∈ "0123456789".toList := by
    intro c hMem
    have hClass := Nat.isDigit_of_mem_toDigits (by decide) (by decide) hMem
    rw [← Char.ofNat_toNat c]
    refine hAll c.toNat ?_
    simp only [Char.isDigit, Bool.and_eq_true, decide_eq_true_eq] at hClass
    exact mem_range'_1.mpr ⟨hClass.1, Nat.lt_succ_of_le hClass.2⟩
  refine ⟨?_, fun c hMem => (hDigit c hMem).2⟩
  simpa [Numeral.isDigits] using fun c hMem => (hDigit c hMem).1

theorem numeral_toString (v : Int) :
    IsPlace (toString v).toList ∧ Numeral.isNumeral (toString v).toList = true ∧
      Numeral.value (toString v).toList = v := by
  have hInside : ∀ c ∈ "0123456789".toList, c ∈ placeChars ∧ c ≠ '-' := of_all (by decide +kernel)
  have hRepr : ∀ n : Nat, n.repr.toList = Nat.toDigits 10 n := fun n =>
    (congrArg String.toList Nat.repr_eq_ofList_toDigits).trans String.toList_ofList
  have hValue : ∀ n, Numeral.digitsValue (Nat.toDigits 10 n) = n := fun n =>
    Nat.ofDigitChars_toDigits (by decide) (by decide)
  cases v with
  | ofNat n =>
    rcases digits_toDigits n with ⟨hDigits, hChars⟩
    have hText : (toString (Int.ofNat n)).toList = Nat.toDigits 10 n := hRepr n
    have hUnsigned : ∀ rest, Nat.toDigits 10 n ≠ '-' :: rest := fun rest hSign =>
      (hInside '-' (hChars '-' (hSign ▸ mem_cons_self))).2 rfl
    rw [hText]
    refine ⟨⟨Nat.toDigits_ne_nil, fun c hMem => (hInside c (hChars c hMem)).1⟩, ?_, ?_⟩
    · rw [Numeral.isNumeral, hDigits]
      exact hUnsigned
    · rw [Numeral.value, hValue]
      · rfl
      · exact hUnsigned
  | negSucc n =>
    rcases digits_toDigits (n + 1) with ⟨hDigits, hChars⟩
    have hText : (toString (Int.negSucc n)).toList = '-' :: Nat.toDigits 10 (n + 1) := by
      rw [← hRepr]
      exact String.toList_append
    rw [hText]
    refine ⟨⟨cons_ne_nil _ _, forall_mem_cons.mpr ⟨by decide +kernel, ?_⟩⟩, hDigits, ?_⟩
    · exact fun c hMem => (hInside c (hChars c hMem)).1
    · rw [Numeral.value, hValue]
      rfl

theorem parseIndex_int (v : Int) : parseIndex (toString v).toList = .ok (.int v) := by
  rcases numeral_toString v with ⟨_, hNumeral, hValue⟩
  rw [parseIndex, if_pos hNumeral, hValue]

theorem toList_reg (r : Reg) : r.text.toList = r.bank.letter :: (toString r.index).toList := by
  have hLetter : (toString r.bank.letter).toList = [r.bank.letter] := String.toList_singleton _
  simp [Reg.text, hLetter]

theorem parseIndex_reg
    (r : Reg) : IsPlace r.text.toList ∧ parseIndex r.text.toList = .ok (.reg r) := by
  rcases numeral_toString r.index with ⟨hPlace, hNumeral, hValue⟩
  rw [toList_reg]
  constructor
  · refine ⟨cons_ne_nil _ _, forall_mem_cons.mpr ⟨?_, hPlace.chars⟩⟩
    cases r.bank <;> decide +kernel
  · have hLetter : Numeral.isNumeral (r.bank.letter :: (toString r.index).toList) = false := by
      cases r.bank <;> rfl
    have hBank : Bank.ofLetter? r.bank.letter = some r.bank := by cases r.bank <;> rfl
    simp only [parseIndex, hLetter, Reg.parse, hBank, hNumeral, hValue]
    rfl

theorem IsPlace.colon_not_mem (hPlace : IsPlace w) : ':' ∉ w :=
  fun hMem => (placeChars_plain _ (hPlace.chars _ hMem)).2.2.2.2 rfl

theorem IsPlace.isWord (hPlace : IsPlace w) : IsWord w := by
  refine ⟨hPlace.nonempty, fun c hMem => (placeChars_plain c (hPlace.chars c hMem)).1, ?_⟩
  exact fun hLast => hPlace.colon_not_mem (mem_of_getLast? hLast)

theorem parseValue_place (hPlace : IsPlace w) : parseOperand w = parseValue w := by
  rw [parseOperand, if_neg]
  exact fun hHead => (placeChars_plain _ (hPlace.chars _ (mem_of_head? hHead))).2.1 rfl

section Address
variable (a : Int) {inner : List Char}

-- The texts of an address and of the cells of an array.
abbrev addressed : List Char := '@' :: (toString a).toList

abbrev bracketed (inner : List Char) : List Char := addressed a ++ '[' :: (inner ++ [']'])

theorem parseBase_address : parseBase (addressed a) = .ok a := by
  have hDrop : (addressed a).dropWhile (· = '@') = (toString a).toList := by
    rw [dropWhile_cons_of_pos (by rfl)]
    refine dropWhile_eq fun c hHead => decide_eq_false fun hAt => ?_
    exact (placeChars_plain c ((numeral_toString a).1.chars c (mem_of_head? hHead))).2.1 hAt
  rw [parseBase, if_pos (by rfl), hDrop, parseIndex_int]

theorem square_not_mem : '[' ∉ addressed a := by
  rw [mem_cons]
  rintro (⟨⟨⟩⟩ | hMem)
  exact (placeChars_plain _ ((numeral_toString a).1.chars _ hMem)).2.2.1 rfl

theorem parseAddress_plain : parseAddress (addressed a) = .ok (.addr a) := by
  have hSplit : splitBracket .square (addressed a) = .ok (addressed a, []) := by
    simp only [splitBracket, Brackets.square, cut?_none (square_not_mem a)]
  simp only [parseAddress, bind, Except.bind, hSplit, parseBase_address]
  rfl

theorem isWord_address : IsWord (addressed a) := by
  have hWord := (numeral_toString a).1.isWord
  refine ⟨cons_ne_nil _ _, forall_mem_cons.mpr ⟨by decide +kernel, hWord.chars⟩, ?_⟩
  rw [getLast?_cons_of_ne_nil hWord.nonempty]
  exact hWord.last

theorem last_bracketed : (bracketed a inner).getLast? = some ']' := by
  rw [bracketed, ← cons_append, ← append_assoc, getLast?_concat]

theorem isWord_bracketed (hInner : ∀ c ∈ inner, c ∈ wordChars) : IsWord (bracketed a inner) := by
  refine ⟨cons_ne_nil _ _, forall_mem_append.mpr ⟨(isWord_address a).chars, ?_⟩, ?_⟩
  · have hBrackets : '[' ∈ wordChars ∧ ']' ∈ wordChars := by decide +kernel
    exact forall_mem_cons.mpr ⟨hBrackets.1, forall_mem_append.mpr
      ⟨hInner, forall_mem_singleton.mpr hBrackets.2⟩⟩
  · rw [last_bracketed]
    decide

theorem inner_bracketed (hSome : inner ≠ []) (hInner : ∀ c ∈ inner, c ∈ placeChars ∨ c = ':') :
    strip (stripOf Brackets.square.chars ('[' :: (inner ++ [']']))) = inner := by
  have hPlain : ∀ c ∈ inner, c ∈ wordChars ∧ Brackets.square.chars.contains c = false := by
    have hAll : ∀ c ∈ ':' :: placeChars,
        c ∈ wordChars ∧ Brackets.square.chars.contains c = false := of_all (by decide +kernel)
    exact fun c hMem => hAll c (mem_cons.mpr (hInner c hMem).symm)
  have hFront : (inner ++ [']']).dropWhile Brackets.square.chars.contains = inner ++ [']'] := by
    refine dropWhile_eq fun c hHead => (hPlain c ?_).2
    rw [head?_append_of_ne_nil _ hSome] at hHead
    exact mem_of_head? hHead
  have hBack : inner.reverse.dropWhile Brackets.square.chars.contains = inner.reverse := by
    refine dropWhile_eq fun c hHead => (hPlain c ?_).2
    exact mem_reverse.mp (mem_of_head? hHead)
  rw [stripOf, trimBy, dropWhile_cons_of_pos (by rfl), hFront, trimRightBy,
    reverse_append, reverse_singleton, singleton_append,
    dropWhile_cons_of_pos (by rfl), hBack, reverse_reverse]
  exact strip_word fun c hMem => (hPlain c hMem).1

theorem splitBracket_bracketed :
    splitBracket .square (bracketed a inner) = .ok (addressed a, '[' :: (inner ++ [']'])) := by
  have hCut := cut?_found (inner ++ [']']) (square_not_mem a)
  simp only [splitBracket, Brackets.square, hCut, last_bracketed, if_true]

theorem parseAddress_entry (hPlace : IsPlace inner) (hIndex : parseIndex inner = .ok i) :
    parseAddress (bracketed a inner) = .ok (.entry a i) := by
  have hWhole : splitAt ':' inner = [inner] := by
    simpa using splitAt_intercalate (forall_mem_singleton.mpr hPlace.colon_not_mem)
      (cons_ne_nil _ _)
  have hInner := inner_bracketed hPlace.nonempty fun c hMem => .inl (hPlace.chars c hMem)
  simp only [parseAddress, bind, Except.bind, splitBracket_bracketed, parseBase_address,
    hInner, hWhole, hIndex]
  rfl

theorem parseAddress_slice (hStart : IsPlace start) (hStop : IsPlace stop)
    (hLo : parseIndex start = .ok lo) (hHi : parseIndex stop = .ok hi) :
    parseAddress (bracketed a (start ++ ':' :: stop)) = .ok (.slice a lo hi) := by
  have hNone : ∀ w ∈ [start, stop], ':' ∉ w := by simp [hStart.colon_not_mem, hStop.colon_not_mem]
  have hPieces : splitAt ':' (start ++ ':' :: stop) = [start, stop] := by
    simpa using splitAt_intercalate hNone (cons_ne_nil _ _)
  have hInner := @inner_bracketed (start ++ ':' :: stop) (by simp) fun c hMem => by
    rw [mem_append, mem_cons] at hMem
    rcases hMem with hMem | hMem | hMem
    · exact .inl (hStart.chars c hMem)
    · exact .inr hMem
    · exact .inl (hStop.chars c hMem)
  simp only [parseAddress, bind, Except.bind, splitBracket_bracketed, parseBase_address,
    hInner, hPieces, strip_word hStart.isWord.chars, hLo,
    strip_word hStop.isWord.chars, hHi]
  rfl

end Address

end Text

---- Operands

def Slot.isNumber (s : Slot) : Bool := s = .byte || s = .angle || s = .word

-- The operands of a slot that are written as registers and numerals.
inductive Slot.Plain : Slot → Operand → Prop
  | reg (r : Reg) : Plain .reg (.reg r)
  | number {s : Slot} (v : Int) (hNumber : s.isNumber) : Plain s (.imm v)
  | addr (a : Int) : Plain .addr (.addr a)
  | entry (a : Int) (r : Reg) : Plain .entry (.entry a (.reg r))
  | slice (a : Int) (lo hi : Reg) : Plain .slice (.slice a (.reg lo) (.reg hi))

-- The operand of a command for an operand of an instruction.
def Operand.drafted : Operand → Operand
  | imm v => int v
  | o => o

namespace Slot

theorem plain_of_accepts
    {s : Slot} {o : Operand} (hAccepts : s.Accepts o) (hBare : o.bare = o) : s.Plain o := by
  unfold Accepts at hAccepts
  split at hAccepts
  case h_1 => exact .reg _
  case h_2 | h_4 | h_6 => exact .number _ rfl
  case h_3 | h_5 | h_7 => cases hBare
  case h_8 => exact .addr _
  case h_9 => exact .entry _ _
  case h_10 => exact .slice _ _ _
  case h_11 => exact hAccepts.elim

section Plain
variable {s : Slot} {o : Operand} (hPlain : s.Plain o)
include hPlain
theorem Plain.parseOperand_text :
    IsWord o.text.toList ∧ parseOperand o.text.toList = .ok o.drafted := by
  cases hPlain with
  | reg r =>
    rcases parseIndex_reg r with ⟨hPlace, hIndex⟩
    refine ⟨hPlace.isWord, ?_⟩
    rw [Operand.text, Text.parseValue_place hPlace, Source.parseValue, hIndex]
    rfl
  | number v _ =>
    have hPlace := (numeral_toString v).1
    refine ⟨hPlace.isWord, ?_⟩
    rw [Operand.text, Text.parseValue_place hPlace, Source.parseValue, Text.parseIndex_int]
    rfl
  | addr a =>
    have hText : (Operand.addr a).text.toList = addressed a := by
      simp only [Operand.text, String.toList_append]
      rfl
    rw [hText]
    exact ⟨isWord_address a, (if_pos rfl).trans (parseAddress_plain a)⟩
  | entry a r =>
    rcases parseIndex_reg r with ⟨hPlace, hIndex⟩
    have hText : (Operand.entry a (.reg r)).text.toList =
        bracketed a r.text.toList := by
      simp only [Operand.text, String.toList_append, append_assoc]
      rfl
    rw [hText]
    refine ⟨isWord_bracketed a hPlace.isWord.chars, ?_⟩
    exact (if_pos rfl).trans (parseAddress_entry a hPlace hIndex)
  | slice a lo hi =>
    rcases parseIndex_reg lo with ⟨hLo, hFirst⟩
    rcases parseIndex_reg hi with ⟨hHi, hSecond⟩
    have hText : (Operand.slice a (.reg lo) (.reg hi)).text.toList =
        bracketed a (lo.text.toList ++ ':' :: hi.text.toList) := by
      simp only [Operand.text, bracketed, String.toList_append, append_assoc]
      rfl
    rw [hText]
    refine ⟨isWord_bracketed a (forall_mem_append.mpr ⟨hLo.isWord.chars, ?_⟩), ?_⟩
    · exact forall_mem_cons.mpr ⟨by decide +kernel, hHi.isWord.chars⟩
    · exact (if_pos rfl).trans (parseAddress_slice a hLo hHi hFirst hSecond)

theorem Plain.fit?_drafted : s.fit? o.drafted = some o := by
  cases hPlain with
  | number v hNumber => cases s <;> first | rfl | cases hNumber
  | _ => rfl

theorem Plain.bare_eq : o.bare = o := by cases hPlain <;> rfl

theorem Plain.template?_drafted : o.drafted.template? = none := by cases hPlain <;> rfl

end Plain

section Plains
variable {slots : List Slot} {operands : List Operand}
  (hPlain : Forall₂ Slot.Plain slots operands)

include hPlain
theorem exists_plain : ∀ o ∈ operands, ∃ s : Slot, s.Plain o := by
  induction hPlain with
  | nil => exact forall_mem_nil _
  | cons hFirst _ ih => exact forall_mem_cons.mpr ⟨⟨_, hFirst⟩, ih⟩

theorem parseOperands_texts :
    parseOperands (operands.map fun o => o.text.toList) = .ok (operands.map Operand.drafted) := by
  induction hPlain with
  | nil => rfl
  | cons hFirst _ ih =>
    rcases hFirst.parseOperand_text with ⟨hWord, hParse⟩
    simp only [map_cons, parseOperands, strip_word hWord.chars, hParse, ih]
    rfl

theorem fitAll?_drafted : fitAll? slots (operands.map Operand.drafted) = some operands := by
  induction hPlain with
  | nil => rfl
  | cons hFirst _ ih => simp [fitAll?, hFirst.fit?_drafted, ih]

theorem replaceOperands_drafted {c : Command} {j : Nat}
    (hKeeps : ∀ k s, slots[k]? = some s → s.isNumber → keeps c.op (j + k))
    (used : List Reg) (pending : Pending) :
    replaceOperands used c j pending (operands.map Operand.drafted) =
      .ok (operands.map Operand.drafted, pending) := by
  induction hPlain generalizing j with
  | nil => rfl
  | @cons s o _ _ hFirst _ ih =>
    have hRest := @ih (j + 1) fun k s hAt hNumber => by
      have hNext := hKeeps (k + 1) s hAt hNumber
      rwa [Nat.add_comm k, ← Nat.add_assoc] at hNext
    have hHere : replaceOperand used c j pending o.drafted = .ok (o.drafted, pending) := by
      cases hFirst with
      | number v hNumber => exact if_pos (hKeeps 0 _ rfl hNumber)
      | _ => rfl
    simp only [map_cons, replaceOperands, bind, Except.bind, hHere, hRest]
    rfl

end Plains

end Slot

namespace Op

theorem isWord_name (o : Op) : IsWord o.name.toList := by
  have hMem : o ∈ all := by cases o <;> decide
  have hChars : (all.all fun o => o.name.toList.all fun c => c ∈ wordChars) = true := by
    decide +kernel
  refine ⟨?_, of_all (all_eq_true.mp hChars o hMem), ?_⟩ <;> cases o <;> decide +kernel

theorem parse_name (o : Op) : parse o.name = .ok o := by cases o <;> decide +kernel

-- Constants stay where an operation has a slot for a number.
theorem keeps_numbers
    (o : Op) (k : Nat) (s : Slot) (hAt : o.slots[k]? = some s) (hNumber : s.isNumber) :
    keeps o k := by
  have hAll : ∀ k < 6, o.slots[k]?.any Slot.isNumber → keeps o k := by cases o <;> decide +kernel
  have hLength : o.slots.length ≤ 6 := by cases o <;> decide
  refine hAll k (Nat.lt_of_lt_of_le (List.getElem?_eq_some_iff.mp hAt).1 hLength) ?_
  rw [hAt]
  exact hNumber

end Op

theorem Flavour.byOp?_of_mem (f : Flavour) : ∀ p ∈ f.ops, f.byOp? p.2 = some p := by
  cases f <;> decide +kernel

namespace Instr

-- Instructions of a flavour that are written with registers and numerals only.
inductive Plain (f : Flavour) : Instr → Prop
  | op {family : Family} {o : Op} {operands : List Operand} (line : Option HostLine)
    (hMem : (family, o) ∈ f.ops) (hPlain : Forall₂ Slot.Plain o.slots operands) :
    Plain f (.op family o operands line)

def drafted : Instr → Item
  | op _ o operands _ => .command ⟨o, [], operands.map Operand.drafted, none⟩
  | note words => .label words none

section Plain
variable {f : Flavour} {i : Instr} (hPlain : i.Plain f)
include hPlain
-- The words of a printed instruction.
theorem Plain.line_text : ∃ words, words ≠ [] ∧ (∀ w ∈ words, IsWord w) ∧
      i.text.toList = Text.line words ∧ Source.parseItem (Text.line words) = .ok i.drafted := by
  rcases hPlain with @⟨family, o, operands, line, hMem, hPlain⟩
  let words := o.name.toList :: operands.map fun o => o.text.toList
  have hSome : words ≠ [] := cons_ne_nil _ _
  have hWords : ∀ w ∈ words, IsWord w :=
    forall_mem_cons.mpr ⟨o.isWord_name, forall_mem_map.mpr fun o hMem =>
      (Slot.exists_plain hPlain o hMem).elim fun _ hPlain => hPlain.parseOperand_text.1⟩
  refine ⟨words, hSome, hWords, ?_, ?_⟩
  · rw [text, String.toList_intercalate, map_cons, map_map]
    rfl
  · rcases last_line hWords hSome with ⟨_, _, hColon, hLast⟩
    have hNoBracket : splitBracket .round o.name.toList = .ok (o.name.toList, []) := by
      have hRound : '(' ∉ o.name.toList := fun hMem =>
        (wordChars_solid _ (o.isWord_name.chars _ hMem)).2.1 rfl
      simp [splitBracket, Words.Brackets.round, cut?_none hRound]
    simp only [Source.parseItem, hLast, Option.some.injEq, hColon, bind, Except.bind,
      Text.split_line hWords hSome, words, hNoBracket, String.ofList_toList, Op.parse_name,
        Slot.parseOperands_texts hPlain]
    rfl

theorem Plain.buildCommand_drafted :
    ∃ c, i.drafted = .command c ∧ c.args = [] ∧ Assembly.buildCommand f c = .ok i.bare ∧
      (∀ used, Constants.replaceCommand used c = .ok [.command c]) ∧
      (∀ table, c.operands.map (Labels.resolveOperand table) = c.operands) ∧
      c.operands.filterMap Operand.template? = [] := by
  rcases hPlain with @⟨family, o, operands, line, hMem, hPlain⟩
  have hEach := Slot.exists_plain hPlain
  refine ⟨_, rfl, rfl, ?_, fun used => ?_, fun table => ?_, ?_⟩
  · have hBare : operands.map Operand.bare = operands :=
      (map_congr_left fun o hMem => (hEach o hMem).elim fun _ hPlain => hPlain.bare_eq).trans
        (map_id operands)
    simp [Assembly.buildCommand, f.byOp?_of_mem _ hMem, Instr.ofOperands,
      Slot.fitAll?_drafted hPlain, Instr.bare, hBare]
  · have hSame := @Slot.replaceOperands_drafted _ _ hPlain
      ⟨o, [], operands.map Operand.drafted, none⟩ 0 (fun k s => by
        simpa using o.keeps_numbers k s) used ⟨[], []⟩
    simp only [Constants.replaceCommand, hSame]
    rfl
  · rw [map_map]
    exact map_congr_left fun o hMem => (hEach o hMem).elim fun _ hPlain => by cases hPlain <;> rfl
  · rw [filterMap_map, filterMap_eq_nil_iff]
    exact fun o hMem => (hEach o hMem).elim fun _ hPlain => hPlain.template?_drafted

end Plain

end Instr

namespace Assembly

def printed (instrs : List Instr) : String := "\n".intercalate (instrs.map Instr.text)

section Plains
variable {f : Flavour} {instrs : List Instr} (hPlain : ∀ i ∈ instrs, i.Plain f)
include hPlain
theorem parseItems_texts :
    Source.parseItems (instrs.map fun i => i.text.toList) = .ok (instrs.map Instr.drafted) := by
  induction instrs with
  | nil => rfl
  | cons i instrs ih =>
    rw [forall_mem_cons] at hPlain
    rcases hPlain.1.line_text with ⟨_, _, _, hText, hItem⟩
    simp only [map_cons, hText, Source.parseItems, hItem, ih hPlain.2]
    rfl

theorem parse_printed :
    Source.parse (printed instrs) = .ok (Draft.ofItems none none (instrs.map Instr.drafted)) := by
  cases instrs with
  | nil => rfl
  | cons i instrs =>
    have hText : (printed (i :: instrs)).toList =
        ['\n'].intercalate ((i :: instrs).map fun i => i.text.toList) := by
      rw [printed, String.toList_intercalate, map_map]
      rfl
    have hLines : ∀ l ∈ (i :: instrs).map fun i => i.text.toList, Text.IsLine l := by
      rw [forall_mem_map]
      intro j hMem
      rcases (hPlain j hMem).line_text with ⟨_, hSome, hWords, hLine, _⟩
      rw [hLine]
      exact Text.isLine_line hWords hSome
    exact Text.parse_lines hLines (cons_ne_nil _ _) hText (parseItems_texts hPlain)

-- No stage changes a draft of such instructions.
theorem stages_drafted :
    let items := instrs.map Instr.drafted
    items.map liftArgs = items ∧ (∀ used, replaceItems used items = .ok items) ∧
      (∀ n, Labels.positionsFrom [] n items = .ok []) ∧
      ((items.filterMap Item.command?).map fun c => Item.command
        { c with operands := c.operands.map (Labels.resolveOperand []) }) = items ∧
      buildItems f items = .ok (instrs.map Instr.bare) ∧ Draft.templates items = [] := by
  induction instrs with
  | nil => exact ⟨rfl, fun _ => rfl, fun _ => rfl, rfl, rfl, rfl⟩
  | cons i instrs ih =>
    rw [forall_mem_cons] at hPlain
    rcases hPlain.1.buildCommand_drafted with
      ⟨⟨_, _, _, _⟩, hCommand, rfl, hBuild, hReplace, hResolve, hNone⟩
    rcases ih hPlain.2 with ⟨hArgs, hReplaced, hPositions, hResolved, hBuilt, hTemplates⟩
    rw [map_cons, hCommand]
    refine ⟨congrArg _ hArgs, fun used => ?_, fun n => hPositions (n + 1), ?_, ?_, ?_⟩
    · simp only [replaceItems, hReplace, hReplaced]
      rfl
    · rw [filterMap_cons_some (by rfl), map_cons, hResolved, hResolve]
    · simp only [buildItems, hBuild, hBuilt]
      rfl
    · exact append_eq_nil_iff.mpr ⟨hNone, hTemplates⟩

end Plains

-- Instructions of a flavour whose numbers are shown as numerals are what their text says: the
-- assembly of the text sets no further register.
theorem ofText_printed (f : Flavour) (instrs : List Instr)
    (hOver : ∀ i ∈ instrs, i.Over f ∧ ∀ o ∈ i.operands, o.bare = o) :
    ofText .full f (printed instrs) = .ok ⟨none, none, [], instrs.map Instr.bare⟩ := by
  have hPlain : ∀ i ∈ instrs, i.Plain f := by
    intro i hMem
    rcases hOver i hMem with ⟨hOver, hBare⟩
    rcases i with ⟨_, o, _, line⟩ | _
    · refine .op line hOver.1 ?_
      rcases forall₂_iff_zip.mp hOver.2 with ⟨hLength, hAll⟩
      refine forall₂_iff_zip.mpr ⟨hLength, fun hMem => ?_⟩
      exact Slot.plain_of_accepts (hAll hMem) (hBare _ (of_mem_zip hMem).2)
    · exact hOver.elim
  rcases stages_drafted hPlain with ⟨hArgs, hReplaced, hPositions, hResolved, hBuilt, hTemplates⟩
  have hLabels : Labels.resolve (instrs.map Instr.drafted) = .ok (instrs.map Instr.drafted) := by
    simp only [Labels.resolve, Labels.positions, hPositions]
    exact congrArg Except.ok hResolved
  have hPrepared : prepare .full (instrs.map Instr.drafted) = .ok (instrs.map Instr.drafted) := by
    simp [prepare, optionally, hArgs, bind, Except.bind, Constants.replace, hReplaced, hLabels]
  simp only [ofText, parse_printed hPlain, assemble, Draft.ofItems, hPrepared, build, hBuilt,
    hTemplates, bind, Except.bind]
  rfl

-- A program with numbers below zero in all places.
def signed : List Instr :=
  let r : Reg := ⟨.r, -1⟩
  [core .set [.reg r, .imm (-7)],
    core .store [.reg ⟨.q, 2⟩, .entry (-3) (.reg r)],
    core .waitAll [.slice 4 (.reg r) (.reg ⟨.m, -20⟩)],
    core .retArr [.addr (-3)],
    .op .nv .crotX [.reg ⟨.c, 0⟩, .reg r, .imm 3, .imm (-2)] none,
    core .jmp [.imm (-1)]]

theorem ofText_printed_signed :
    (∀ i ∈ signed, i.Over .nv ∧ ∀ o ∈ i.operands, o.bare = o) ∧
      ofText .full .nv (printed signed) = .ok ⟨none, none, [], signed⟩ := by
  have hOver : ∀ i ∈ signed, i.Over .nv ∧ ∀ o ∈ i.operands, o.bare = o := by
    simp only [signed, forall_mem_cons]
    refine ⟨?_, ?_, ?_, ?_, ?_, ?_, forall_mem_nil _⟩ <;>
      exact ⟨⟨by decide, by simp [Op.slots, Slot.Accepts]⟩, by decide⟩
  exact ⟨hOver, ofText_printed .nv signed hOver⟩

end Assembly

end QuantumNode
