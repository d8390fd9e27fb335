import EditMining.Proofs.DocumentRoundTrip
import EditMining.Proofs.Traversals

/-!
# What is wrong with a corpus is said of its first offender

A corpus may have been written by hand, so it is checked sequence by sequence and token
by token, up to the first item that does not belong. What is a corpus
(`Corpus.IsCorpus`) and what is wrong with any other document (`Corpus.CorpusFault`) is
said here of the document alone: a fault is the fault of some item, and the items before
it have none.

At each of the three levels the reader accepts what the writer writes and nothing else,
since a written token is its sign and its text. There is no second way to write a corpus,
and what is read is written back as it was.
-/

namespace EditMining

open Json

theorem Polarity.ofSymbol?_eq_none_iff {c : Char} :
    ofSymbol? c = none ↔ c ≠ '+' ∧ c ≠ '-' ∧ c ≠ '=' := by
  rw [ofSymbol?.eq_def]
  split <;> simp_all

theorem Token.parse_eq_error_iff {raw : String} {e : Error} :
    parse raw = .error e ↔
      (∀ c ∈ raw.toList.head?, c ≠ '+' ∧ c ≠ '-' ∧ c ≠ '=') ∧ missingSign raw = e := by
  simp only [← Polarity.ofSymbol?_eq_none_iff]
  rw [parse]
  cases raw.toList with
  | nil => simp
  | cons c text => cases hc : Polarity.ofSymbol? c <;> simp [hc]

namespace Corpus

/-! ## Corpora and their faults -/

/-- A string that begins with a sign. -/
def IsToken (v : Json) : Prop :=
  ∃ sign text, (sign = '+' ∨ sign = '-' ∨ sign = '=') ∧ v = .string (String.ofList (sign :: text))

/-- An array of tokens. -/
def IsSequence (v : Json) : Prop :=
  ∃ items, v = .array items ∧ ∀ t ∈ items, IsToken t

/-- An array of sequences. -/
def IsCorpus (v : Json) : Prop :=
  ∃ items, v = .array items ∧ ∀ s ∈ items, IsSequence s

/-- What is wrong with a token in the sequence with some index. -/
inductive TokenFault (index : Nat) : Json → Error → Prop
  | notString {v : Json} (h : ∀ raw, v ≠ .string raw) :
      TokenFault index v
        (.mismatch "Tokens must be strings" ("corpus[" ++ index.repr ++ "]") "string" v.typeName)
  | noSign {raw : String} (h : ∀ c ∈ raw.toList.head?, c ≠ '+' ∧ c ≠ '-' ∧ c ≠ '=') :
      TokenFault index (.string raw)
        (.mismatch "Token is missing its polarity prefix" "token" "one of '+', '-', '='" raw)

/-- What is wrong with the sequence with some index: it is none, or its first bad token. -/
inductive SequenceFault (index : Nat) : Json → Error → Prop
  | notArray {v : Json} (h : ∀ items, v ≠ .array items) :
      SequenceFault index v
        (.mismatch "All sequences must be arrays of tokens" ("corpus[" ++ index.repr ++ "]") "array"
          v.typeName)
  | token {front back : List Json} {v : Json} {e : Error} (hfront : ∀ t ∈ front, IsToken t)
      (h : TokenFault index v e) : SequenceFault index (.array (front ++ v :: back)) e

/-- What is wrong with a document: it is no corpus, or its first bad sequence. -/
inductive CorpusFault : Json → Error → Prop
  | notArray {v : Json} (h : ∀ items, v ≠ .array items) :
      CorpusFault v
        (.mismatch "Sequence corpus must be a JSON array" "corpus" "array of sequences" v.typeName)
  | sequence {front back : List Json} {v : Json} {e : Error} (hfront : ∀ s ∈ front, IsSequence s)
      (h : SequenceFault front.length v e) : CorpusFault (.array (front ++ v :: back)) e

variable {index : Nat} {v : Json} {e : Error}

/-! ## Tokens -/

theorem tokenOfJson_eq_ok_iff {t : Token} : tokenOfJson index v = .ok t ↔ t.toJson = v := by
  constructor
  · intro h
    cases v with
    | string raw => exact congrArg Json.string (Token.render_of_parse h)
    | null | bool _ | natural _ | negative _ | real _ | array _ | object _ | unreadable =>
        nomatch h
  · rintro rfl
    exact Token.parse_render t

theorem isToken_iff : IsToken v ↔ ∃ t, Token.toJson t = v := by
  constructor
  · rintro ⟨sign, text, hsign, rfl⟩
    obtain ⟨p, rfl⟩ : ∃ p : Polarity, p.symbol = sign := by
      rcases hsign with rfl | rfl | rfl
      · exact ⟨.added, rfl⟩
      · exact ⟨.removed, rfl⟩
      · exact ⟨.kept, rfl⟩
    refine ⟨⟨p, String.ofList text⟩, ?_⟩
    rw [Token.toJson, Token.render, String.toList_ofList]
  · rintro ⟨t, rfl⟩
    refine ⟨t.polarity.symbol, t.text.toList, ?_, rfl⟩
    cases t.polarity
    · exact .inl rfl
    · exact .inr (.inl rfl)
    · exact .inr (.inr rfl)

theorem tokenOfJson_eq_error_iff : tokenOfJson index v = .error e ↔ TokenFault index v e := by
  constructor
  · intro h
    cases v with
    | string raw =>
        obtain ⟨hsign, rfl⟩ := Token.parse_eq_error_iff.1 h
        exact .noSign hsign
    | null | bool _ | natural _ | negative _ | real _ | array _ | object _ | unreadable =>
        cases h
        exact .notString nofun
  · intro h
    cases h with
    | noSign hsign => exact Token.parse_eq_error_iff.2 ⟨hsign, rfl⟩
    | notString hno =>
        cases v with
        | string raw => exact absurd rfl (hno raw)
        | null | bool _ | natural _ | negative _ | real _ | array _ | object _ | unreadable => rfl

/-! ## Sequences -/

theorem sequenceOfJson_eq_ok_iff {s : TokenSequence} :
    sequenceOfJson index v = .ok s ↔ .array (s.map Token.toJson) = v := by
  constructor
  · intro h
    cases v with
    | array items =>
        have hitems := map_eq_map_of_mapM_ok id Token.toJson
          (fun x t hx => (tokenOfJson_eq_ok_iff.1 hx).symm) h
        rw [← hitems, List.map_id]
    | null | bool _ | natural _ | negative _ | real _ | string _ | object _ | unreadable =>
        nomatch h
  · rintro rfl
    exact sequenceOfJson_tokens index s

theorem isSequence_iff : IsSequence v ↔ ∃ s : TokenSequence, .array (s.map Token.toJson) = v := by
  constructor
  · rintro ⟨items, rfl, hitems⟩
    obtain ⟨s, rfl⟩ := forall_mem_exists_iff.1 fun t ht => isToken_iff.1 (hitems t ht)
    exact ⟨s, rfl⟩
  · rintro ⟨s, rfl⟩
    refine ⟨s.map Token.toJson, rfl, fun t ht => ?_⟩
    obtain ⟨t, -, rfl⟩ := List.mem_map.1 ht
    exact isToken_iff.2 ⟨t, rfl⟩

/-- Where tokens are read, those that can be read are tokens. -/
theorem forall_isToken_iff {items : List Json} :
    (∀ t ∈ items, IsToken t) ↔ ∀ t ∈ items, ∃ token, tokenOfJson index t = .ok token := by
  simp only [isToken_iff, tokenOfJson_eq_ok_iff]

theorem sequenceOfJson_eq_error_iff :
    sequenceOfJson index v = .error e ↔ SequenceFault index v e := by
  constructor
  · intro h
    cases v with
    | array items =>
        obtain ⟨front, t, back, rfl, hfront, ht⟩ := mapM_eq_error_iff.1 h
        exact .token (forall_isToken_iff.2 hfront) (tokenOfJson_eq_error_iff.1 ht)
    | null | bool _ | natural _ | negative _ | real _ | string _ | object _ | unreadable =>
        cases h
        exact .notArray nofun
  · intro h
    cases h with
    | token hfront ht =>
        exact mapM_eq_error_iff.2
          ⟨_, _, _, rfl, forall_isToken_iff.1 hfront, tokenOfJson_eq_error_iff.2 ht⟩
    | notArray hno =>
        cases v with
        | array items => exact absurd rfl (hno items)
        | null | bool _ | natural _ | negative _ | real _ | string _ | object _ | unreadable => rfl

/-! ## Whole documents -/

theorem sequencesFrom_eq_mapM (index : Nat) (items : List Json) :
    sequencesFrom index items =
      (items.zipIdx index).mapM fun item => sequenceOfJson item.2 item.1 := by
  induction items generalizing index with
  | nil => rfl
  | cons v rest ih =>
      rw [sequencesFrom, List.zipIdx_cons, List.mapM_cons, ih]
      rfl

theorem ofJson_eq_ok_iff {corpus : List TokenSequence} :
    ofJson v = .ok corpus ↔ toJson corpus = v := by
  constructor
  · intro h
    cases v with
    | array items =>
        rw [ofJson, sequencesFrom_eq_mapM] at h
        have hitems := map_eq_map_of_mapM_ok Prod.fst
          (fun s : TokenSequence => .array (s.map Token.toJson))
          (fun item s hs => (sequenceOfJson_eq_ok_iff.1 hs).symm) h
        rw [List.zipIdx_map_fst] at hitems
        rw [toJson, hitems]
    | null | bool _ | natural _ | negative _ | real _ | string _ | object _ | unreadable =>
        nomatch h
  · rintro rfl
    exact ofJson_toJson corpus

theorem isCorpus_iff : IsCorpus v ↔ ∃ corpus, toJson corpus = v := by
  constructor
  · rintro ⟨items, rfl, hitems⟩
    obtain ⟨corpus, rfl⟩ := forall_mem_exists_iff.1 fun s hs => isSequence_iff.1 (hitems s hs)
    exact ⟨corpus, rfl⟩
  · rintro ⟨corpus, rfl⟩
    refine ⟨_, rfl, fun s hs => ?_⟩
    obtain ⟨s, -, rfl⟩ := List.mem_map.1 hs
    exact isSequence_iff.2 ⟨s, rfl⟩

theorem forall_isSequence_iff {items : List Json} :
    (∀ s ∈ items, IsSequence s) ↔
      ∀ item ∈ items.zipIdx index, ∃ s, sequenceOfJson item.2 item.1 = .ok s := by
  have hitems := List.forall_mem_map (f := Prod.fst) (l := items.zipIdx index) (P := IsSequence)
  rw [List.zipIdx_map_fst] at hitems
  rw [hitems]
  simp only [isSequence_iff, sequenceOfJson_eq_ok_iff]

theorem ofJson_eq_error_iff : ofJson v = .error e ↔ CorpusFault v e := by
  constructor
  · intro h
    cases v with
    | array items =>
        rw [ofJson, sequencesFrom_eq_mapM, mapM_eq_error_iff] at h
        obtain ⟨_, _, _, hsplit, hfront, hfault⟩ := h
        -- The items are split where the numbered items are.
        obtain ⟨front, rest, rfl, rfl, hrest⟩ := List.zipIdx_eq_append_iff.1 hsplit
        obtain ⟨s, back, rfl, rfl, -⟩ := List.zipIdx_eq_cons_iff.1 hrest.symm
        rw [Nat.zero_add] at hfault
        exact .sequence (forall_isSequence_iff.2 hfront) (sequenceOfJson_eq_error_iff.1 hfault)
    | null | bool _ | natural _ | negative _ | real _ | string _ | object _ | unreadable =>
        cases h
        exact .notArray nofun
  · intro h
    cases h with
    | sequence hfront hfault =>
        rw [ofJson, sequencesFrom_eq_mapM, mapM_eq_error_iff, List.zipIdx_append, List.zipIdx_cons,
          Nat.zero_add]
        exact ⟨_, _, _, rfl, forall_isSequence_iff.1 hfront, sequenceOfJson_eq_error_iff.2 hfault⟩
    | notArray hno =>
        cases v with
        | array items => exact absurd rfl (hno items)
        | null | bool _ | natural _ | negative _ | real _ | string _ | object _ | unreadable => rfl

/-- Reading succeeds for corpora and for nothing else, and what is read is written as
the document that was read. For any other document the failure is its fault, that of its
first bad item. -/
theorem corpus_validation_exact (v : Json) :
    ((∃ corpus, ofJson v = .ok corpus) ↔ IsCorpus v) ∧
      (∀ corpus, ofJson v = .ok corpus ↔ toJson corpus = v) ∧
      ∀ e, ofJson v = .error e ↔ CorpusFault v e := by
  refine ⟨?_, fun corpus => ofJson_eq_ok_iff, fun e => ofJson_eq_error_iff⟩
  simp only [isCorpus_iff, ofJson_eq_ok_iff]

/-- A bad token counts before a later sequence that is none. -/
example : ofJson (.array [.array [], .array [.string "=a", .string "b", .null], .null]) =
    .error (.mismatch "Token is missing its polarity prefix" "token" "one of '+', '-', '='" "b") :=
  rfl

end Corpus

end EditMining
