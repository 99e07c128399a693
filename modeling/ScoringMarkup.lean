import ScoringMarkup.Main
import ScoringMarkup.Proofs.Conversion.Outcome
import ScoringMarkup.Proofs.Document.RoundTrip
import ScoringMarkup.Proofs.Conversion.Nullability
import ScoringMarkup.Proofs.Conversion.Aliases
import ScoringMarkup.Proofs.Json.Conformance
import ScoringMarkup.Proofs.Document.Depth
import ScoringMarkup.Proofs.Document.Failures
import ScoringMarkup.Proofs.Conversion.Congruence
import ScoringMarkup.Proofs.Conversion.Recovery
import ScoringMarkup.Proofs.Expression.Places
import ScoringMarkup.Proofs.Markup.Reading
import ScoringMarkup.Proofs.Expression.Tables
import ScoringMarkup.Proofs.Conversion.Exchange
import ScoringMarkup.Proofs.Conversion.Renaming
import ScoringMarkup.Proofs.Expression.Summaries
import ScoringMarkup.Proofs.Document.Doubles
import ScoringMarkup.Proofs.Document.Elements
import ScoringMarkup.Proofs.Document.Spelling
import ScoringMarkup.Proofs.Markup.Survival
import ScoringMarkup.Proofs.CommandLine.Reports
import ScoringMarkup.Proofs.Conversion.Refusals
import ScoringMarkup.Proofs.Conversion.Series
