import Mathlib.Data.List.Infix
import QuantumNode.Proofs.Assembly.Printing

/-
  Words of a line.  Nothing is lost when a line is split: it is its
  words with separators between them, and it is refused exactly if
  one of them opens a bracket that is never closed.
-/

open List

namespace QuantumNode.Text

theorem cut?_cases (hSome : needle ≠ []) (s : List Char) :
    (cut? needle s = none ∧ ¬ needle <:+: s) ∨
      ∃ front back, cut? needle s = some (front, back) ∧ s = front ++ (needle ++ back) ∧
        ¬ needle <:+: front ++ needle.dropLast := by
  induction s with
  | nil => simp [cut?, hSome]
  | cons c s ih =>
    rw [cut?]
    split
    · rename_i hHere
      have hText := prefix_iff_eq_append.mp ( isPrefixOf_iff_prefix.mp hHere)
      refine .inr ⟨[], _, rfl, hText.symm, fun hInside => ?_⟩
      have hShorter := hInside.length_le
      have := length_pos_iff.mpr hSome
      simp only [nil_append, length_dropLast] at hShorter
      omega
    · rename_i hNotHere
      rw [ isPrefixOf_iff_prefix] at hNotHere
      rcases ih with ⟨hNone, hLater⟩ | ⟨front, back, hCut, rfl, hFirst⟩
      · exact .inl ⟨by rw [hNone]; rfl, fun hInside => (infix_cons_iff.mp hInside).elim hNotHere hLater⟩
      · refine .inr ⟨c :: front, back, by rw [hCut]; rfl, rfl, fun hInside => ?_⟩
        rcases infix_cons_iff.mp hInside with hHere | hLater
        · refine hNotHere (hHere.trans ((prefix_append_right_inj (c :: front)).mpr ?_))
          exact ( dropLast_prefix _).trans (prefix_append _ _)
        · exact hFirst hLater

namespace Words

-- The separator that is a single character.
def single (c : Char) : Separator := ⟨[c], cons_ne_nil _ _⟩

section Words

variable (b : Brackets) (c : Char)

-- There is an opening bracket before the first separator.
def Opens (text : List Char) : Prop := b.opening ∈ text.takeWhile (· ≠ c)

/-
  A word that opens a bracket goes on to the first closing bracket
  that a separator follows.  Any other has no separator.
-/
def IsWord (w : List Char) : Prop :=
  (Opens b c w ∧ ¬ [b.closing, c] <:+: w ∧ ∃ inner, w = inner ++ [b.closing]) ∨
    (¬ Opens b c w ∧ c ∉ w)

-- Words, each followed by the separator.
def ended (words : List (List Char)) : List Char := words.flatMap (· ++ [c])

-- Behind some words a bracket is opened, and no closing one with a separator follows.
def Unclosed (text : List Char) : Prop :=
  ∃ words rest, (∀ w ∈ words, IsWord b c w) ∧ text = ended c words ++ rest ∧
    Opens b c rest ∧ ¬ [b.closing, c] <:+: rest

end Words

variable {b : Brackets} {c : Char} {w s : List Char} {words : List (List Char)}

theorem ended_cons : ended c (w :: words) = w ++ c :: ended c words := by simp [ended]

theorem join_ended (hSome : words ≠ []) : join [c] words ++ [c] = ended c words := by
  fun_induction join [c] words with
  | case1 => exact absurd rfl hSome
  | case2 => simp [ended]
  | case3 _ _ hRest ih =>
    rw [ended_cons, ← ih hRest]
    simp

theorem opens_cons : Opens b c (d :: s) ↔ d ≠ c ∧ (b.opening = d ∨ Opens b c s) := by
  by_cases hSame : d = c <;> simp [Opens, hSame]

theorem opens_append : Opens b c (w ++ c :: back) ↔ Opens b c w := by
  induction w with
  | nil => simp [Opens]
  | cons d w ih => rw [cons_append, opens_cons, opens_cons, ih]

theorem opensFirst_iff (hMem : c ∈ s) : opensFirst (single c) b s = true ↔ Opens b c s := by
  rcases eq_append_cons_of_mem hMem with ⟨w, back, rfl, hNone⟩
  rw [opens_append, opensFirst, single, cut?_found back hNone]
  clear hMem
  induction w with
  | nil => rcases cut? [b.opening] ([] ++ c :: back) with _ | _ <;> simp [Opens]
  | cons d w ih =>
    rw [mem_cons, not_or] at hNone
    rw [cons_append, opens_cons, cut?, ← ih hNone.2]
    by_cases hHere : b.opening = d
    · simp [hHere, Ne.symm hNone.1]
    · rcases cut? [b.opening] (w ++ c :: back) with _ | _ <;> simp [hHere, Ne.symm hNone.1]

theorem stopMark_cases (hMem : c ∈ s) :
    (Opens b c s ∧ stopMark (single c) (some b) s = [b.closing, c]) ∨
      (¬ Opens b c s ∧ stopMark (single c) (some b) s = [c]) := by
  rw [← opensFirst_iff hMem, stopMark]
  split
  · exact .inl ⟨‹_›, rfl⟩
  · exact .inr ⟨‹_›, rfl⟩

-- What is cut off is a word, or a bracket that is never closed.
theorem cut_cases (hMem : c ∈ s) :
    (cut? (stopMark (single c) (some b) s) s = none ∧ Opens b c s ∧ ¬ [b.closing, c] <:+: s) ∨
    ∃ front back, cut? (stopMark (single c) (some b) s) s = some (front, back) ∧
      IsWord b c (front ++ (stopMark (single c) (some b) s).dropLast) ∧
      s = front ++ (stopMark (single c) (some b) s).dropLast ++ c :: back := by
  have hCases := cut?_cases (stopMark_ne_nil (single c) (some b) s) s
  rcases stopMark_cases (b := b) hMem with ⟨hOpens, hMark⟩ | ⟨hOpens, hMark⟩ <;>
    rw [hMark] at hCases ⊢ <;> rcases hCases with ⟨hCut, hNone⟩ | ⟨front, back, hCut, hText, hFirst⟩
  · exact .inl ⟨hCut, hOpens, hNone⟩
  · replace hText : s = front ++ [b.closing] ++ c :: back := by simpa using hText
    rw [hText, opens_append] at hOpens
    exact .inr ⟨front, back, hCut, .inl ⟨hOpens, hFirst, front, rfl⟩, hText⟩
  · exact absurd hMem (by simpa [singleton_infix_iff] using hNone)
  · replace hText : s = front ++ [] ++ c :: back := by simpa using hText
    rw [hText, opens_append] at hOpens
    exact .inr ⟨front, back, hCut, .inr ⟨hOpens, by simpa [singleton_infix_iff] using hFirst⟩, hText⟩

-- The induction is on the text that is left, which ends with a separator.
theorem cutWords_cases (hEnd : ∀ d ∈ s.getLast?, d = c) :
    (∃ words, cutWords (single c) (some b) s = .ok words ∧ (∀ w ∈ words, IsWord b c w) ∧
      s = ended c words) ∨
    (cutWords (single c) (some b) s = .error (.language .unclosedBracket) ∧ Unclosed b c s) := by
  have hCases {t} (hLast : ∀ d ∈ t.getLast?, d = c) (hSome : t ≠ []) :=
    cut_cases (b := b) (hLast _ (getLast?_eq_some_getLast hSome) ▸ getLast_mem hSome)
  have hBehind {t w back} (hLast : ∀ d ∈ t.getLast?, d = c) (hText : t = w ++ c :: back) :
      ∀ d ∈ back.getLast?, d = c := fun d hd =>
    hLast d (by rw [Option.mem_def] at hd; simp [hText, getLast?_cons, hd])
  fun_induction cutWords (single c) (some b) s with
  | case1 => exact .inl ⟨[], rfl, by simp, rfl⟩
  | case2 s hSome hCut =>
    rcases hCases hEnd hSome with ⟨_, hStuck⟩ | ⟨_, _, hFound, _⟩
    · exact .inr ⟨rfl, [], s, by simp, rfl, hStuck⟩
    · cases hCut.symm.trans hFound
  | case3 s hSome front back hCut _ hBack ih =>
    rcases hCases hEnd hSome with ⟨hNone, _⟩ | ⟨_, _, hFound, hWord, hText⟩
    · cases hCut.symm.trans hNone
    · cases hCut.symm.trans hFound
      rcases hBack ▸ ih (hBehind hEnd hText) with ⟨words, ⟨⟩, hWords, hRest⟩ | ⟨⟨⟩, _⟩
      exact .inl ⟨_, rfl, forall_mem_cons.mpr ⟨hWord, hWords⟩, by rwa [ended_cons, ← hRest]⟩
  | case4 s hSome front back hCut _ hBack ih =>
    rcases hCases hEnd hSome with ⟨hNone, _⟩ | ⟨_, _, hFound, hWord, hText⟩
    · cases hCut.symm.trans hNone
    · cases hCut.symm.trans hFound
      rcases hBack ▸ ih (hBehind hEnd hText) with ⟨_, ⟨⟩, _⟩ | ⟨⟨⟩, words, rest, hWords, hRest, hStuck⟩
      refine .inr ⟨rfl, _ :: words, rest, forall_mem_cons.mpr ⟨hWord, hWords⟩, ?_, hStuck⟩
      rwa [ended_cons, append_assoc, cons_append, ← hRest]

-- A longer word would have the end of the other one inside.
theorem not_shorter (hWord : IsWord b c w) (hWord' : IsWord b c w')
    (hSame : w ++ c :: back = w' ++ c :: back') : w'.length ≤ w.length := by
  by_contra hShorter
  have hPrefix : w ++ [c] <+: w' := prefix_of_prefix_length_le
    ⟨back, by simpa using hSame⟩ (prefix_append w' (c :: back')) (by simp; omega)
  have hOpens : Opens b c w ↔ Opens b c w' := by rw [← opens_append, hSame, opens_append]
  rcases hWord' with ⟨hOpens', hNone, _⟩ | ⟨_, hNone⟩
  · rcases hWord with ⟨_, _, inner, rfl⟩ | ⟨hOther, _⟩
    · rw [append_assoc] at hPrefix
      exact hNone ((suffix_append inner [b.closing, c]).isInfix.trans hPrefix.isInfix)
    · exact hOther (hOpens.mpr hOpens')
  · exact hNone (hPrefix.subset (by simp))

theorem not_unclosed (hWords : ∀ w ∈ words, IsWord b c w) : ¬ Unclosed b c (ended c words) := by
  rintro ⟨words', rest, hWords', hText, hOpens, hNone⟩
  induction words' generalizing words with
  | nil =>
    obtain rfl : ended c words = rest := hText
    cases words with
    | nil => simp [ended, Opens] at hOpens
    | cons w words =>
      rw [ended_cons] at hOpens hNone
      rcases hWords w mem_cons_self with ⟨_, _, inner, rfl⟩ | ⟨hOther, _⟩
      · exact hNone ⟨inner, ended c words, by simp⟩
      · exact hOther (opens_append.mp hOpens)
  | cons w' words' ih =>
    cases words with
    | nil => simp [ended] at hText
    | cons w words =>
      rw [ended_cons, ended_cons, append_assoc, cons_append] at hText
      rw [forall_mem_cons] at hWords hWords'
      have hLength := Nat.le_antisymm (not_shorter hWords'.1 hWords.1 hText.symm)
        (not_shorter hWords.1 hWords'.1 hText)
      exact ih hWords.2 hWords'.2 (cons.inj (append_inj_right hText hLength)).2

/-
  A line is refused exactly if a word of it, the separator put
  behind its end, opens a bracket that is never closed.  Otherwise
  its words joined by the separator are the line without outer
  white space, and a separator stands in a word only behind an
  opening bracket, up to a closing one that ends the word.
-/
theorem split_exactly (b : Brackets) (c : Char) (line : List Char) :
    (split (single c) (some b) line = .error (.language .unclosedBracket) ↔
      Unclosed b c (strip line ++ [c])) ∧
    (¬ Unclosed b c (strip line ++ [c]) → ∃ words, split (single c) (some b) line = .ok words ∧
      join [c] words = strip line ∧ ∀ w ∈ words, IsWord b c w ∧
        (c ∈ w → Opens b c w ∧ ∃ inner, w = inner ++ [b.closing])) := by
  rcases cutWords_cases (b := b) (c := c) (s := strip line ++ [c]) (by simp) with
    ⟨words, hOk, hWords, hText⟩ | ⟨hError, hUnclosed⟩
  · have hClosed := hText ▸ not_unclosed hWords
    have hSome : words ≠ [] := by
      rintro rfl
      simp [ended] at hText
    refine ⟨⟨fun hError => ?_, fun hUnclosed => absurd hUnclosed hClosed⟩, fun _ => ?_⟩
    · cases hError.symm.trans hOk
    · refine ⟨words, hOk, append_cancel_right ((join_ended hSome).trans hText.symm), fun w hMem => ?_⟩
      refine ⟨hWords w hMem, fun hSep => ?_⟩
      rcases hWords w hMem with ⟨hOpens, _, hInner⟩ | ⟨_, hNone⟩
      · exact ⟨hOpens, hInner⟩
      · exact absurd hSep hNone
  · exact ⟨⟨fun _ => hUnclosed, fun _ => hError⟩, fun hClosed => absurd hUnclosed hClosed⟩

end Words

end QuantumNode.Text
