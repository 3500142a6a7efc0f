import KeyRules.Candidate
import KeyRules.Condition.Basic
import KeyRules.Condition.Holds
import KeyRules.Condition.Literal
import KeyRules.Condition.Operator
import KeyRules.Condition.Source
import KeyRules.Condition.Text
import KeyRules.Decimal.Layout
import KeyRules.Decimal.Shortest
import KeyRules.Engine
import KeyRules.Error
import KeyRules.Event
import KeyRules.Expression.Group
import KeyRules.Expression.Parse
import KeyRules.Expression.Store
import KeyRules.Expression.Token
import KeyRules.Json.Basic
import KeyRules.Json.Build
import KeyRules.Json.Fault
import KeyRules.Json.Numeral
import KeyRules.Json.Reader
import KeyRules.Json.Strings
import KeyRules.Json.Write
import KeyRules.Rule
import KeyRules.RuleSet.Basic
import KeyRules.RuleSet.Config
import KeyRules.Session
import KeyRules.Text.Blank
import KeyRules.Text.Quoted
import KeyRules.Text.Ranges
import KeyRules.Text.SpelledOut
import KeyRules.Proofs.Nesting
import KeyRules.Proofs.Grammar
import KeyRules.Proofs.Placeholders
import KeyRules.Proofs.Verdict
import KeyRules.Proofs.Extraction
import KeyRules.Proofs.Balanced
import KeyRules.Proofs.Unbalanced
import KeyRules.Proofs.RoundTrip
import KeyRules.Proofs.Faults
import KeyRules.Proofs.Fetching
import KeyRules.Proofs.Sessions
import KeyRules.Proofs.Caching
import KeyRules.Proofs.JsonText
import KeyRules.Proofs.LiteralForm
import KeyRules.Proofs.LiteralText
import KeyRules.Proofs.Transparency
import KeyRules.Proofs.Records
import KeyRules.Proofs.Slots
import KeyRules.Proofs.Sharing
import KeyRules.Proofs.Rewritten
import KeyRules.Proofs.Reading
import KeyRules.Proofs.Feeding
import KeyRules.Proofs.Lockstep
import KeyRules.Proofs.Configs
import KeyRules.Proofs.RuleSets
import KeyRules.Proofs.Reload
import KeyRules.Proofs.Answers
import KeyRules.Proofs.LiteralRules
import KeyRules.Proofs.Loading
import KeyRules.Proofs.Makers
import KeyRules.Proofs.Replacement
import KeyRules.Proofs.Renaming
import KeyRules.Proofs.Monotone
import KeyRules.Proofs.Words
import KeyRules.Proofs.Logging
import KeyRules.Proofs.Regrouping
import KeyRules.Proofs.Witnesses
import KeyRules.Proofs.Moves
import KeyRules.Proofs.Reports
import KeyRules.Proofs.Spacing
