import EditMining.Language.Lexer
import EditMining.Proofs.BracketScan

/-!
# What brackets count in code

Brackets of a pattern are counted in its text, by one rule for all languages: a
quote runs to the next quote of its kind that no backslash escapes. A tokenizer knows
the literals of its language, and makes one token of each. This file says for which
tokens the two agree, whatever tokenizer they come from.

A token without quotes and brackets is counted for nothing, and so is a literal that
one quote mark opens and the next unescaped one closes, with any lead in front of it
(`IsDelimited`). More generally a token counts for nothing if it is *self-contained*:
its own brackets are balanced, and it closes what it quotes. Nothing weaker will do.
Where a token is no bracket and not self-contained, it is miscounted on its own or in
front of another token (`countsAlike_iff_isSelfContained`), as a literal in three quotes
can be (`bracket_in_triple_quotes_counts`).
-/

namespace EditMining

variable {c q : Char} {text : List Char} {t : String} {ts : List String}

/-! ## Tokens without marks -/

/-- Quotes and brackets. -/
def marks : List Char :=
  ['\'', '"', '\x60', '(', '[', '\x7b', ')', ']', '\x7d']

def isMark (c : Char) : Bool :=
  marks.contains c

theorem isMark_eq_false (h : isMark c = false) :
    isQuoteMark c = false ∧ BracketKind.ofOpener? c = none ∧ BracketKind.ofCloser? c = none := by
  have hne : ∀ d, isMark d = true → c ≠ d := by
    rintro d hd rfl
    rw [h] at hd
    nomatch hd
  refine ⟨?_, ?_, ?_⟩
  · rw [isQuoteMark, beq_eq_false_iff_ne.2 (hne '\'' rfl), beq_eq_false_iff_ne.2 (hne '"' rfl),
      beq_eq_false_iff_ne.2 (hne '\x60' rfl)]
    rfl
  · rw [BracketKind.ofOpener?]
    · exact hne '(' rfl
    · exact hne '[' rfl
    · exact hne '\x7b' rfl
  · rw [BracketKind.ofCloser?]
    · exact hne ')' rfl
    · exact hne ']' rfl
    · exact hne '\x7d' rfl

/-- A text without quotes and brackets. -/
def IsUnmarked (text : List Char) : Prop :=
  ∀ c ∈ text, isMark c = false

theorem IsUnmarked.passes (h : IsUnmarked text) : Passes .outside text .outside := by
  induction text with
  | nil => exact ⟨rfl, fun _ => rfl⟩
  | cons c text ih =>
      obtain ⟨hc, htext⟩ := List.forall_mem_cons.1 h
      obtain ⟨hquote, hopener, hcloser⟩ := isMark_eq_false hc
      refine Passes.cons (fun d => ?_) ?_
      · rw [bracketStep, hopener, hcloser]
      · rw [QuoteState.step, hquote]
        exact ih htext

/-! ## Literals between two quotes -/

/-- What stands behind an opening quote, up to the first quote of its kind that no
backslash escapes. -/
inductive QuotedRest (q : Char) : List Char → Prop
  | close : QuotedRest q [q]
  | escaped (c : Char) {text : List Char} (rest : QuotedRest q text) :
      QuotedRest q ('\\' :: c :: text)
  | plain {c : Char} {text : List Char} (hescape : c ≠ '\\') (hquote : c ≠ q)
      (rest : QuotedRest q text) : QuotedRest q (c :: text)

/-- Up to the closing quote no bracket counts. -/
theorem QuotedRest.passes (h : QuotedRest q text) (hq : q ≠ '\\') :
    Passes (.inside q false) text .outside := by
  induction h with
  | close => exact Passes.closing hq
  | escaped c _ ih => exact ih.cons_escaped
  | plain hescape hquote _ ih => exact Passes.cons_quoted hescape hquote ih

/-- A literal: a lead without marks, a quote, and what it quotes. -/
def IsDelimited (token : List Char) : Prop :=
  ∃ lead quote rest, token = lead ++ quote :: rest ∧ IsUnmarked lead ∧
    isQuoteMark quote = true ∧ QuotedRest quote rest

theorem IsDelimited.passes (h : IsDelimited text) : Passes .outside text .outside := by
  obtain ⟨lead, quote, rest, rfl, hlead, hquote, hrest⟩ := h
  have hslash : quote ≠ '\\' := by
    rintro rfl
    nomatch hquote
  exact hlead.passes.append (Passes.cons_quote hquote (hrest.passes hslash))

/-! ## Tokens that count for nothing -/

theorem Passes.isSelfContained (h : Passes .outside text .outside) :
    isSelfContained text = true := by
  rw [EditMining.isSelfContained, bracketsBalanced, h.scan_eq, h.state_eq]
  rfl

/-- The brackets of the text that some tokens make up are balanced just if each kind is
balanced among the tokens. -/
def CountsAlike (ts : List String) : Prop :=
  ∀ (polarity : Polarity) (support : Nat),
    (Pattern.mk [⟨polarity, String.join ts⟩] support).hasBalancedBrackets = true ↔
      ∀ k : BracketKind, k.IsBalanced ts

theorem countsAlike_iff :
    CountsAlike ts ↔ (bracketsBalanced (ts.flatMap String.toList) = true ↔
      ∀ k : BracketKind, k.IsBalanced ts) := by
  have hchars : ∀ polarity support, (Pattern.mk [⟨polarity, String.join ts⟩] support).chars =
      ts.flatMap String.toList := fun _ _ => by
    rw [Pattern.chars, List.flatMap_singleton, String.toList_join]
  simp only [CountsAlike, Pattern.hasBalancedBrackets, hchars]
  exact ⟨fun h => h .kept 0, fun h _ _ => h⟩

theorem bracketScan_opener_inside {quote : Char} {escaped : Bool} (d : BracketDepths) :
    bracketScan (.inside quote escaped) d "(".toList = some d := rfl

/-- A token that is miscounted neither on its own nor in front of a bracket. -/
theorem isSelfContained_of_countsAlike (ht : ¬ IsBracketToken t) (hone : CountsAlike [t])
    (htwo : CountsAlike [t, "("]) : isSelfContained t.toList = true := by
  have hne : ∀ k : BracketKind, k.opener ≠ t ∧ k.closer ≠ t := fun k =>
    ⟨fun heq => ht ⟨k, .inl heq.symm⟩, fun heq => ht ⟨k, .inr heq.symm⟩⟩
  have hbalanced : bracketsBalanced t.toList = true := by
    have halone : ∀ k : BracketKind, k.IsBalanced [t] := fun k =>
      BracketKind.isBalanced_of_notMem (by simpa using (hne k).1) (by simpa using (hne k).2)
    simpa using (countsAlike_iff.1 hone).2 halone
  have hopen : ¬ BracketKind.round.IsBalanced [t, "("] := by
    rintro ⟨-, hcount⟩
    have hcloser : [t, "("].count BracketKind.round.closer = 0 := by
      rw [List.count_eq_zero, List.mem_cons, List.mem_singleton, not_or]
      exact ⟨(hne .round).2, by decide⟩
    have hopener : 0 < [t, "("].count BracketKind.round.opener := by
      rw [List.count_pos_iff]
      exact List.mem_cons_of_mem t (List.mem_singleton_self _)
    omega
  cases hstate : t.toList.foldl QuoteState.step .outside with
  | outside => rw [isSelfContained, hbalanced, hstate]; rfl
  | inside quote escaped =>
      -- The bracket behind it would not count.
      refine absurd ((countsAlike_iff.1 htwo).1 ?_ .round) hopen
      rw [bracketsBalanced, beq_iff_eq] at hbalanced ⊢
      rw [List.flatMap_cons, bracketScan_append, hbalanced, hstate, Option.bind_some]
      exact bracketScan_opener_inside _

/-- Take any tokens, among them an opening bracket. The brackets of all texts that are
made of them are balanced just if those among the tokens are, for all lists of the
tokens, just if each of them is one bracket or self-contained. A token without quotes and
brackets is, and a literal between two quotes. -/
theorem countsAlike_iff_isSelfContained (vocabulary : String → Prop) (hround : vocabulary "(") :
    ((∀ ts, (∀ t ∈ ts, vocabulary t) → CountsAlike ts) ↔
      ∀ t, vocabulary t → IsBracketToken t ∨ isSelfContained t.toList = true) ∧
    ∀ token, IsUnmarked token ∨ IsDelimited token → isSelfContained token = true := by
  refine ⟨⟨fun halike t ht => ?_, fun hself ts hts => ?_⟩, ?_⟩
  · by_cases hbracket : IsBracketToken t
    · exact .inl hbracket
    · refine .inr (isSelfContained_of_countsAlike hbracket (halike _ ?_) (halike _ ?_))
      · simpa using ht
      · simpa using ⟨ht, hround⟩
  · refine countsAlike_iff.2 (bracketsBalanced_iff_of_passes fun t ht => ?_)
    exact (hself t (hts t ht)).imp_right passes_of_isSelfContained
  · rintro token (h | h)
    · exact h.passes.isSelfContained
    · exact h.passes.isSelfContained

/-- A class in a regular expression and a template that quotes a bracket are
self-contained; an apostrophe that opens nothing is not. -/
theorem countsAlike_iff_isSelfContained_of_template :
    let tk := Tokenizer.ofParser .javaScript Language.javaScript.parse
    let ts := ["s", ".", "split", "(", "/[,;]/", ")", "[", "\x60)$\x7bb\x7d\x60", "]"]
    tk.tokenize "s.split(/[,;]/)[\x60)$\x7bb\x7d\x60]" = .ok ts ∧
      (Pattern.mk [⟨.kept, String.join ts⟩] 1).hasBalancedBrackets = true ∧
      (∀ k : BracketKind, k.IsBalanced ts) ∧
      ¬ ∀ us, (∀ t ∈ us, t = "(" ∨ t = "'") → CountsAlike us := by
  intro tk ts
  have hself : ∀ t ∈ ts, IsBracketToken t ∨ isSelfContained t.toList = true := by
    intro t ht
    simp only [ts, List.mem_cons, List.not_mem_nil, or_false] at ht
    obtain rfl | rfl | rfl | rfl | rfl | rfl | rfl | rfl | rfl := ht
    · exact .inr (by decide +kernel)
    · exact .inr (by decide +kernel)
    · exact .inr (by decide +kernel)
    · exact .inl ⟨.round, .inl rfl⟩
    · exact .inr (by decide +kernel)
    · exact .inl ⟨.round, .inr rfl⟩
    · exact .inl ⟨.square, .inl rfl⟩
    · exact .inr (by decide +kernel)
    · exact .inl ⟨.square, .inr rfl⟩
  have halike : CountsAlike ts := (countsAlike_iff_isSelfContained (· ∈ ts)
    (by decide)).1.2 hself ts fun _ ht => ht
  have hbalanced : (Pattern.mk [⟨.kept, String.join ts⟩] 1).hasBalancedBrackets = true := by
    decide +kernel
  refine ⟨by decide +kernel, hbalanced, (halike .kept 1).1 hbalanced, fun hall => ?_⟩
  have hquote := (countsAlike_iff_isSelfContained _ (.inl rfl)).1.1 hall "'" (.inr rfl)
  rcases hquote with ⟨k, heq | heq⟩ | hself
  · cases k <;> exact absurd heq (by decide)
  · cases k <;> exact absurd heq (by decide)
  · exact absurd hself (by decide +kernel)

/-- Quotes inside of three quotes end nothing for a tokenizer, but for the count they do,
and a bracket between them counts. -/
theorem bracket_in_triple_quotes_counts :
    let tk := Tokenizer.ofParser .python Language.python.parse
    let ts := ["s", "=", "\"\"\"say \"(\" here\"\"\""]
    tk.tokenize "s = \"\"\"say \"(\" here\"\"\"" = .ok ts ∧ (∀ k : BracketKind, k.IsBalanced ts) ∧
      (Pattern.mk [⟨.kept, String.join ts⟩] 1).hasBalancedBrackets = false := by
  intro tk ts
  have hbalanced : ∀ k : BracketKind, k.IsBalanced ts := fun k =>
    BracketKind.isBalanced_of_notMem (by cases k <;> decide) (by cases k <;> decide)
  exact ⟨by decide +kernel, hbalanced, by decide +kernel⟩

end EditMining
