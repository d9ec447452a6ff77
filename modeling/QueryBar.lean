import QueryBar.Alphabet
import QueryBar.Token
import QueryBar.Literal
import QueryBar.Clause
import QueryBar.Clause.Pattern
import QueryBar.Tokenize
import QueryBar.Validation
import QueryBar.Provider
import QueryBar.Suggestion
import QueryBar.Suggestion.Next
import QueryBar.Click
import QueryBar.Text
import QueryBar.Language
import QueryBar.SearchBar
import QueryBar.SearchBar.Session
import QueryBar.Catalog
import QueryBar.Json.Value
import QueryBar.Json.Encode
import QueryBar.Json.Scalar
import QueryBar.Json.Reader
import QueryBar.Json.Decode
import QueryBar.Manual
import QueryBar.Command
import QueryBar.Command.Arguments
import QueryBar.Command.Line
import QueryBar.Main
import QueryBar.Proofs.Slots
import QueryBar.Proofs.Lossless
import QueryBar.Proofs.FirstReading
import QueryBar.Proofs.Extension
import QueryBar.Proofs.Words
import QueryBar.Proofs.Edits
import QueryBar.Proofs.Offers
import QueryBar.Proofs.Questions
import QueryBar.Proofs.Accepting
import QueryBar.Proofs.Freshness
import QueryBar.Proofs.Generations
import QueryBar.Proofs.Grammar
import QueryBar.Proofs.Checking
import QueryBar.Proofs.Drafts
import QueryBar.Proofs.Turns
import QueryBar.Proofs.Guidance
import QueryBar.Proofs.Building
import QueryBar.Proofs.FieldTokens
import QueryBar.Proofs.Separators
import QueryBar.Proofs.Arrivals
import QueryBar.Proofs.Truncation
import QueryBar.Proofs.Shape
import QueryBar.Proofs.Failures
import QueryBar.Proofs.Reading
import QueryBar.Proofs.RoundTrip
import QueryBar.Proofs.Growth
import QueryBar.Proofs.OpenLists
import QueryBar.Proofs.Clicks
import QueryBar.Proofs.Commands
