import EditMining.Proofs.Commands
import Mathlib.Algebra.Group.Nat.Defs

/-!
# Lists of patterns and corpora survive a file

A list of patterns, or a corpus, is written as a document and read back from the
text. Token texts are any texts at all, since strings escape what would end them
or break a line; the only numbers are supports, and they have to fit the words in
which they are read. Under that one condition nothing is lost, neither in the text
nor in the file that it is put into (`written_lists_read_back`).

Writing can fail for a reason that has nothing to do with what is written: the
tree refuses the path. So for a file the statement has two ends, that refusal and
the same list read again (`IsKept`).
-/

namespace EditMining

namespace FileTree

/-- The tree refuses the path, or what is written is what is read from there
afterwards. -/
def IsKept {α : Type} (t : FileTree) (path : String) (a : α)
    (write : StateM FileTree (Result Unit)) (read : StateM FileTree (Result α)) : Prop :=
  (∃ e t', t'.Refuses path e ∧ write.run t = (.error e, t')) ∨
    ∃ t', write.run t = (.ok (), t') ∧ read.run t' = (.ok a, t')

theorem isKept_writeJson {α : Type} (t : FileTree) (path : String) {a : α} {v : Json}
    {read : StateM FileTree (Result α)}
    (h : ∀ t', t'.read path = .ok v.pretty → read.run t' = (.ok a, t')) :
    t.IsKept path a (storage.writeJson path v) read := by
  rcases run_writeJson t path v with hrefused | ⟨t', hrun, hread, -⟩
  · exact .inl hrefused
  · exact .inr ⟨t', hrun, h t' hread⟩

end FileTree

open FileTree (storage)

/-- Every list of patterns whose supports are below 2^64, and every corpus, is read
again from the text that is written for it, and from any file that can be
written. -/
theorem written_lists_read_back (t : FileTree) (path : String) :
    (∀ ps : List Pattern, (∀ p ∈ ps, p.support < 2 ^ 64) →
      Json.decode (Json.asList Pattern.ofJson?) (Json.array (ps.map Pattern.toJson)).pretty =
          some ps ∧
        t.IsKept path ps (storage.writePatterns path ps) (storage.readPatterns path)) ∧
    ∀ corpus : List TokenSequence,
      (Json.parse (Corpus.toJson corpus).pretty).map Corpus.ofJson = some (.ok corpus) ∧
        t.IsKept path corpus (storage.writeCorpus path corpus) (storage.readCorpus path) := by
  constructor
  · intro ps hsupports
    have hcounts : ∀ p ∈ ps, p.support < Decimal.wordLimit := hsupports
    refine ⟨decode_patterns hcounts, FileTree.isKept_writeJson t path fun t' hread => ?_⟩
    exact CommandLine.run_readPatterns hread hcounts
  · intro corpus
    constructor
    · rw [Json.parse_pretty (Corpus.hasCountsOnly_toJson corpus), Option.map_some,
        Corpus.ofJson_toJson]
    · exact FileTree.isKept_writeJson t path fun t' hread => CommandLine.run_readCorpus hread

/-- Token texts with quotes, backslashes, line breaks, other control characters and
characters beyond ASCII, and an empty one. -/
def awkwardTokens : TokenSequence :=
  [⟨.removed, "\"a\\\" \\u0041"⟩, ⟨.added, "\n\t\x00\x1f"⟩, ⟨.kept, "é😀\u2028"⟩, ⟨.kept, ""⟩]

theorem written_lists_read_back_of_awkward :
    let t := FileTree.withDirectory ["work"]
    let path := "nested/deep/patterns.json"
    let ps : List Pattern := [⟨awkwardTokens, 2 ^ 64 - 1⟩, ⟨[], 0⟩]
    (∀ p ∈ ps, p.support < 2 ^ 64) ∧
      (∃ t', (storage.writePatterns path ps).run t = (.ok (), t') ∧
        (storage.readPatterns path).run t' = (.ok ps, t')) := by
  intro t path ps
  have hsupports : ∀ p ∈ ps, p.support < 2 ^ 64 := by decide
  refine ⟨hsupports, ?_⟩
  rcases ((written_lists_read_back t path).1 ps hsupports).2 with ⟨e, t', -, hrun⟩ | hkept
  · have hwritten : ((storage.writePatterns path ps).run t).1.toBool = true := by decide +kernel
    rw [hrun] at hwritten
    nomatch hwritten
  · exact hkept

end EditMining
