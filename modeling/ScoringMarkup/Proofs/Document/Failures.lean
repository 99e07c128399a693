import ScoringMarkup.Proofs.Document.Messages

/-!
# How failures are reported

A document is read, or its failure is reported: as one of nesting where the limit of open
containers stops the reading, as one of parsing otherwise. The exceptions are failures that quote
the words of the nesting limit from the document, which are reported as ones of nesting too.
-/

namespace ScoringMarkup

namespace Document

open Json

variable {document : Bytes} {failure : Failure}

/-- Whether the limit of open containers stops the reading of a document: the byte at fault is a
bracket that opens one container more than the limit allows, and no higher limit stops it there. -/
structure StopsAtLimit (document : Bytes) (failure : Failure) : Prop where
  opens : ∃ b, IsOpening b ∧ Reached document ⟨containerLimit, .outside⟩ (b :: failure.rest)
  passes : ∀ limit, containerLimit < limit →
    readDocumentWithin limit grammar .expression document ≠ .error failure

/-- A failure has a reason in the grammar, under every limit. -/
theorem explains_of_readDocumentWithin {limit : Nat}
    (h : readDocumentWithin limit grammar .expression document = .error failure) :
    Explains grammar document limit failure := by
  have hmeets := readDocumentWithin_meets hasDistinctFields limit .expression document
  rw [h] at hmeets
  exact hmeets

/-- The cause of a failure tells whether the limit is behind it. -/
theorem stopsAtLimit_iff (h : readDocument grammar .expression document = .error failure) :
    StopsAtLimit document failure ↔ failure.cause = .tooDeep := by
  constructor
  · intro hstops
    rcases readDocument_curtails grammar (Nat.le_succ containerLimit) .expression document with
      ⟨rest, hdeep⟩ | heq
    · cases h.symm.trans hdeep
      rfl
    · exact absurd (heq.symm.trans h) (hstops.passes _ (Nat.lt_succ_self containerLimit))
  · intro hcause
    obtain ⟨b, hb, hreached⟩ := (explains_of_readDocumentWithin h).opens hcause
    refine ⟨⟨b, hb, hreached⟩, fun limit hlimit hwithin => ?_⟩
    -- Under two limits, one bracket would be reached with two numbers of open containers.
    obtain ⟨c, hc, hreached'⟩ := (explains_of_readDocumentWithin hwithin).opens hcause
    have heq := (hreached.opening hb).unique (hreached'.opening hc)
    simp only [Scan.mk.injEq] at heq
    omega

/-- The messages of a document that speak of nesting are those of failures that the limit causes
and those that quote the words. -/
theorem speaksOfNesting_iff_stopsAtLimit
    (h : readDocument grammar .expression document = .error failure) :
    speaksOfNesting failure.cause.message = true ↔
      StopsAtLimit document failure ∨ quotesNesting failure.cause = true := by
  rw [stopsAtLimit_iff h]
  exact speaksOfNesting_iff (explains_of_readDocumentWithin h)

/-- A failure is reported as one of nesting, with its place, where its message speaks of that. -/
theorem ofFailure_eq_nesting_iff
    (h : readDocument grammar .expression document = .error failure) {text : String} :
    ReadError.ofFailure document failure = .nesting text ↔
      speaksOfNesting failure.cause.message = true ∧
        text = failure.cause.message ++ " at " ++ (failure.position document).message := by
  unfold ReadError.ofFailure
  dsimp only
  rw [speaksOfNesting_messageAt]
  by_cases hspeaks : speaksOfNesting failure.cause.message = true
  · have hplaced := isPlaced_of_speaksOfNesting (explains_of_readDocumentWithin h) hspeaks
    rw [if_pos hspeaks, and_iff_right hspeaks, Failure.position?, if_pos hplaced,
      ReadError.nesting.injEq]
    exact eq_comm
  · rw [if_neg hspeaks]
    constructor
    · intro hparse
      cases hparse
    · rintro ⟨hspeaks', -⟩
      exact absurd hspeaks' hspeaks

/-- A failure is reported with its cause and its place, if it has one, where its message does not
speak of nesting. -/
theorem ofFailure_eq_parse_iff {cause : Cause} {position? : Option Position} :
    ReadError.ofFailure document failure = .parse cause position? ↔
      speaksOfNesting failure.cause.message ≠ true ∧
        cause = failure.cause ∧ position? = failure.position? document := by
  unfold ReadError.ofFailure
  dsimp only
  rw [speaksOfNesting_messageAt]
  by_cases hspeaks : speaksOfNesting failure.cause.message = true
  · rw [if_pos hspeaks]
    constructor
    · intro hnesting
      cases hnesting
    · rintro ⟨hsilent, -⟩
      exact absurd hspeaks hsilent
  · rw [if_neg hspeaks, and_iff_right hspeaks, ReadError.parse.injEq]
    exact and_congr eq_comm eq_comm

/-- Every datum that is read stands for an expression. -/
theorem exists_readExpression {d : Datum}
    (h : readDocument grammar .expression document = .ok d) :
    ∃ e, readExpression document = .ok e := by
  have hfits := readDocument_meets hasDistinctFields .expression document
  rw [h] at hfits
  obtain ⟨e, he, -⟩ := exists_expression hfits
  refine ⟨e, ?_⟩
  simp only [readExpression, readAs, h, he]
  rfl

/-- A document is refused for its failure alone. -/
theorem readExpression_eq_error_iff {error : ReadError} :
    readExpression document = .error error ↔
      ∃ failure, readDocument grammar .expression document = .error failure ∧
        ReadError.ofFailure document failure = error := by
  cases h : readDocument grammar .expression document with
  | ok d =>
    obtain ⟨e, he⟩ := exists_readExpression h
    simp [he]
  | error failure =>
    have heq : readExpression document = .error (.ofFailure document failure) := by
      simp only [readExpression, readAs, h]
      rfl
    simp [heq]

/-- An expression is read where a datum is. A failure is reported as one of nesting where the limit
stops the reading or where its message quotes the words from the document, and with its own cause
and place as one of parsing everywhere else. -/
theorem readExpression_reports (document : Bytes) :
    ((∃ e, readExpression document = .ok e) ↔
      ∃ d, readDocument grammar .expression document = .ok d) ∧
    (∀ text, readExpression document = .error (.nesting text) ↔
      ∃ failure, readDocument grammar .expression document = .error failure ∧
        (StopsAtLimit document failure ∨ quotesNesting failure.cause = true) ∧
        text = failure.cause.message ++ " at " ++ (failure.position document).message) ∧
    (∀ cause position?, readExpression document = .error (.parse cause position?) ↔
      ∃ failure, readDocument grammar .expression document = .error failure ∧
        ¬(StopsAtLimit document failure ∨ quotesNesting failure.cause = true) ∧
        cause = failure.cause ∧ position? = failure.position? document) := by
  refine ⟨⟨?read, fun ⟨_, h⟩ => exists_readExpression h⟩, fun text => ?nesting,
    fun cause position? => ?parse⟩
  case read =>
    rintro ⟨e, he⟩
    obtain ⟨d, hd, -⟩ := readExpression_eq_ok he
    exact ⟨d, hd⟩
  case nesting =>
    rw [readExpression_eq_error_iff]
    refine exists_congr fun failure => and_congr_right fun h => ?_
    rw [ofFailure_eq_nesting_iff h, speaksOfNesting_iff_stopsAtLimit h]
  case parse =>
    rw [readExpression_eq_error_iff]
    refine exists_congr fun failure => and_congr_right fun h => ?_
    rw [ofFailure_eq_parse_iff, Ne, speaksOfNesting_iff_stopsAtLimit h]

/-- A variant that is named by the words of the nesting limit. -/
def quotedVariant : Bytes := bytesOf "\x7b\"recursion limit exceeded\":1\x7d"

/-- A document of one container is reported as one of too many. -/
theorem readExpression_quotedVariant :
    mostOpen quotedVariant = 1 ∧
    ∃ failure expected, readDocument grammar .expression quotedVariant = .error failure ∧
      failure.cause = .unknownVariant "recursion limit exceeded" expected ∧
      ¬StopsAtLimit quotedVariant failure ∧
      readExpression quotedVariant =
        .error (.nesting (failure.cause.message ++ " at line 1 column 27")) := by
  have h : readDocument grammar .expression quotedVariant =
      .error ⟨.unknownVariant "recursion limit exceeded" (names (grammar .expression)),
        bytesOf ":1\x7d", true⟩ := by rfl
  refine ⟨by decide +kernel, _, _, h, rfl, ?_, ?_⟩
  · rw [stopsAtLimit_iff h]
    exact nofun
  · refine readExpression_eq_error_iff.mpr ⟨_, h, (ofFailure_eq_nesting_iff h).mpr ⟨?_, ?_⟩⟩
    · rw [speaksOfNesting_iff_stopsAtLimit h]
      exact Or.inr (by decide +kernel)
    · rw [String.append_assoc]
      exact congrArg _ (by decide +kernel)

end Document

end ScoringMarkup
