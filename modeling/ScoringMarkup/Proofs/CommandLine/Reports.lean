import ScoringMarkup.CommandLine.Run
import ScoringMarkup.Proofs.Conversion.Inspection
import ScoringMarkup.Proofs.Expression.Summaries

/-!
# Reports of failed conversions

A conversion that fails is told of twice: in a record, which shows the tree down to the sixteenth
level, and in the report, which shows all of it. So trees that agree on these levels and fail alike
have the same record, but not the same report unless they read alike in full.
-/

namespace ScoringMarkup

namespace Conversion

/-- The last record of a conversion that fails. -/
def failureRecord (summary : String) (error : ConversionError) : LogRecord :=
  match error with
  | .tooDeep limit => .rejected summary limit
  | .unsupported refusal => .failed summary (.unsupported refusal)

/-- A failed conversion ends with a record of the error and the summary of the tree. -/
theorem getLast?_records_of_error {configuration : Configuration} {e : Expression}
    {error : ConversionError} (h : (convert configuration e).outcome = .error error) :
    (convert configuration e).records.getLast? = some (failureRecord e.summary error) := by
  rcases convert_cases configuration e with ⟨limit, -, -, hconvert⟩ | ⟨-, hconvert⟩
  · rw [hconvert] at h ⊢
    cases h
    rfl
  rcases convertTree_cases e with ⟨-, htree⟩ | ⟨before, n, after, refusal, -, -, -, htree⟩
  · rw [hconvert, htree] at h
    cases h
  · rw [hconvert, htree] at h ⊢
    cases h
    exact List.getLast?_concat

/-- Entering nodes is no debug message. -/
theorem filter_debug_entries (es : List Expression) :
    (es.map entry).filter (fun r => r.level == "DEBUG") = [] := by
  refine List.filter_eq_nil_iff.mpr fun r hr => ?_
  obtain ⟨e, -, rfl⟩ := List.mem_map.mp hr
  simp [entry, LogRecord.level]

/-- A conversion leaves a debug message only of its failure. -/
theorem debugRecords_convert (configuration : Configuration) (e : Expression) :
    (convert configuration e).records.filter (fun r => r.level == "DEBUG") =
      match (convert configuration e).outcome with
      | .ok _ => []
      | .error error => [failureRecord e.summary error] := by
  rcases convert_cases configuration e with ⟨limit, -, -, hconvert⟩ | ⟨-, hconvert⟩
  · rw [hconvert]
    rfl
  rcases convertTree_cases e with ⟨-, htree⟩ | ⟨before, n, after, refusal, -, -, -, htree⟩
  · rw [hconvert, htree]
    exact filter_debug_entries e.preorder
  · rw [hconvert, htree, List.filter_append, filter_debug_entries]
    rfl

end Conversion

namespace CommandLine

open Conversion

theorem report_inj {text text' cause : String} :
    report text [cause] = report text' [cause] ↔ text = text' := by
  simp only [report, String.append_left_inj, String.append_right_inj]

/-- The answer to a request for a conversion that fails. -/
theorem respond_of_error {o : Options} {e : Expression} {error : ConversionError}
    (h : (convert o.configuration e).outcome = .error error) :
    respond o (.ok e) =
      failed ["Failed to translate expression '" ++ e.display ++ "'", error.message]
        (convert o.configuration e).records := by
  simp only [respond, h]

/-- A run on an expression writes one debug message, of what the expression is converted to or of
why it is not. -/
theorem debugMessages_respond (o : Options) (e : Expression) :
    ((respond o (.ok e)).records.filter fun r => r.level == "DEBUG").map LogRecord.message =
      match (convert o.configuration e).outcome with
      | .ok m => ["Translated expression with inferred type " ++ m.type.name]
      | .error error => [(failureRecord e.summary error).message] := by
  have hdebug := debugRecords_convert o.configuration e
  cases houtcome : (convert o.configuration e).outcome with
  | ok m =>
    rw [houtcome] at hdebug
    simp only [respond, houtcome, List.filter_append, hdebug]
    rfl
  | error error =>
    rw [houtcome] at hdebug
    rw [respond_of_error houtcome, failed, hdebug]
    rfl

/-- The report of a conversion that fails shows the full text of the tree, so two conversions that
fail alike are reported alike exactly when their trees have the same full text. The last records
are the same already where the trees agree down to the sixteenth level. Trees that differ in one
place, on whatever level, are reported alike only if the subtrees there have the same text. -/
theorem report_of_error {o : Options} {e e' : Expression} {error : ConversionError}
    (h : (convert o.configuration e).outcome = .error error)
    (h' : (convert o.configuration e').outcome = .error error) :
    (respond o (.ok e)).report =
        report ("Failed to translate expression '" ++ e.display ++ "'") [error.message] ∧
      ((respond o (.ok e)).report = (respond o (.ok e')).report ↔ e.display = e'.display) ∧
      (e.truncate .void Expression.summaryLevels = e'.truncate .void Expression.summaryLevels →
        (respond o (.ok e)).records.getLast? = (respond o (.ok e')).records.getLast?) ∧
      ∀ (C : Expression.Context) (n n' : Expression), e = C.fill n → e' = C.fill n' →
        ((respond o (.ok e)).report = (respond o (.ok e')).report ↔ n.display = n'.display) := by
  rw [respond_of_error h, respond_of_error h']
  have hreports : report ("Failed to translate expression '" ++ e.display ++ "'") [error.message] =
      report ("Failed to translate expression '" ++ e'.display ++ "'") [error.message] ↔
        e.display = e'.display := by
    rw [report_inj, String.append_left_inj, String.append_right_inj]
  refine ⟨rfl, hreports, fun htruncate => ?_, ?_⟩
  · have hsummary : e.summary = e'.summary := by
      rw [Expression.summary, Expression.summary, ← Expression.display_truncate .void, htruncate,
        Expression.display_truncate]
    change (convert o.configuration e).records.getLast? =
      (convert o.configuration e').records.getLast?
    rw [getLast?_records_of_error h, getLast?_records_of_error h', hsummary]
  · rintro C n n' rfl rfl
    exact hreports.trans (Expression.display_fill_inj C)

/-- Twenty logical negations of two fields are refused alike for their depth. The fields are not in
the records, but in the reports. -/
theorem report_of_deepNegations :
    let o : Options := { Options.empty with maxDepth := some 5 }
    let C : Expression.Context := List.replicate 20 .negation
    (respond o (.ok (C.fill (.field "p" .boolean)))).report ≠
        (respond o (.ok (C.fill (.field "q" .boolean)))).report ∧
      (respond o (.ok (C.fill (.field "p" .boolean)))).records.getLast? =
        (respond o (.ok (C.fill (.field "q" .boolean)))).records.getLast? := by
  intro o C
  have hdeep (name : String) (h : 5 < (C.fill (.field name .boolean)).height) :
      (convert o.configuration (C.fill (.field name .boolean))).outcome = .error (.tooDeep 5) := by
    have hconvert := convert_withMaxDepth_eq (C.fill (.field name .boolean)) 5
    rw [if_pos h] at hconvert
    exact congrArg Logged.outcome hconvert
  have hreport := report_of_error (hdeep "p" (by decide)) (hdeep "q" (by decide))
  refine ⟨?_, hreport.2.2.1 (Expression.truncate_fill C (by decide) _ _)⟩
  rw [Ne, hreport.2.2.2 C _ _ rfl rfl]
  decide

/-- Sixteen arithmetic negations of two fields agree on sixteen levels and fail with one error, but
the reports show the fields on the seventeenth. -/
theorem report_negated :
    let x := Expression.negated (.field "x" .long) 16
    let y := Expression.negated (.field "y" .long) 16
    let error := ConversionError.unsupported (.node "UnaryMinus" "----------------...")
    x.truncate .void Expression.summaryLevels = y.truncate .void Expression.summaryLevels ∧
      (convert Options.empty.configuration x).outcome = .error error ∧
      (convert Options.empty.configuration y).outcome = .error error ∧
      (respond .empty (.ok x)).report =
        "Error: Failed to translate expression '----------------x'\n\nCaused by:\n" ++
          "    Unsupported expression UnaryMinus: ----------------...\n" ∧
      (respond .empty (.ok y)).report =
        "Error: Failed to translate expression '----------------y'\n\nCaused by:\n" ++
          "    Unsupported expression UnaryMinus: ----------------...\n" ∧
      (respond .empty (.ok x)).report ≠ (respond .empty (.ok y)).report := by
  intro x y error
  have hx : (convert Options.empty.configuration x).outcome = .error error := by
    have hadmits : Admits Options.empty.configuration x := admits_withMaxDepth (by decide)
    rw [convert_of_admits hadmits]
    rfl
  have hy : (convert Options.empty.configuration y).outcome = .error error := by
    have hadmits : Admits Options.empty.configuration y := admits_withMaxDepth (by decide)
    rw [convert_of_admits hadmits]
    rfl
  rw [respond_of_error hx, respond_of_error hy]
  refine ⟨rfl, hx, hy, ?_, ?_, ?_⟩ <;> decide +kernel

end CommandLine

end ScoringMarkup
