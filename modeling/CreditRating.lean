import CreditRating.Text
import CreditRating.Text.Base64
import CreditRating.Text.Utf8
import CreditRating.Decimal.Notation
import CreditRating.Decimal.Reading
import CreditRating.Table
import CreditRating.Client
import CreditRating.Rating
import CreditRating.Factor
import CreditRating.Engine
import CreditRating.Score
import CreditRating.Policy
import CreditRating.Log
import CreditRating.Batch
import CreditRating.Csv
import CreditRating.Files.Store
import CreditRating.Files.Path
import CreditRating.Files.Tree
import CreditRating.ClientFile
import CreditRating.Terminal.Style
import CreditRating.Terminal.Views
import CreditRating.Json
import CreditRating.OutcomeDocument
import CreditRating.Report
import CreditRating.Yaml.Fault
import CreditRating.Yaml.Cursor
import CreditRating.Yaml.Token
import CreditRating.Yaml.PlainText
import CreditRating.Yaml.QuotedText
import CreditRating.Yaml.BlockText
import CreditRating.Yaml.Layout
import CreditRating.Yaml.TokenReader
import CreditRating.Yaml.Node
import CreditRating.Yaml.NodeReader
import CreditRating.Yaml.Content
import CreditRating.Configuration
import CreditRating.ConfigurationFile
import CreditRating.ReportFile
import CreditRating.CommandLine
import CreditRating.Run
import CreditRating.Main
import CreditRating.Proofs.Text.Utf8
import CreditRating.Proofs.Text.ByteOrder
import CreditRating.Proofs.Table
import CreditRating.Proofs.Binary.Rounding
import CreditRating.Proofs.Binary.Unpacked
import CreditRating.Proofs.Binary.Packing
import CreditRating.Proofs.Binary.Arithmetic
import CreditRating.Proofs.Binary.Number
import CreditRating.Proofs.Binary.Near
import CreditRating.Proofs.Binary.Order
import CreditRating.Proofs.Binary.Neutral
import CreditRating.Proofs.Binary.Sign
import CreditRating.Proofs.Score.Share
import CreditRating.Proofs.Screening
import CreditRating.Proofs.Score.Clamp
import CreditRating.Proofs.Score.Range
import CreditRating.Proofs.Score.Exact
import CreditRating.Proofs.Score.Profile
import CreditRating.Proofs.Score.Accuracy
import CreditRating.Proofs.Score.Bands
import CreditRating.Proofs.Score.Order
import CreditRating.Proofs.Score.Raising
import CreditRating.Proofs.Score.Evaluation
import CreditRating.Proofs.Score.Account
import CreditRating.Proofs.Score.AgePeak
import CreditRating.Proofs.Batch.Partition
import CreditRating.Proofs.Batch.Rescoring
import CreditRating.Proofs.Policy.Breaches
import CreditRating.Proofs.Policy.Multipliers
import CreditRating.Proofs.Policy.Edits
import CreditRating.Proofs.Policy.Reach
import CreditRating.Proofs.Batch.Locality
import CreditRating.Proofs.Decimal.Basin
import CreditRating.Proofs.Decimal.Nearest
import CreditRating.Proofs.Decimal.Digits
import CreditRating.Proofs.Decimal.Numerals
import CreditRating.Proofs.Decimal.ReadBack
import CreditRating.Proofs.Decimal.FixedPlaces
import CreditRating.Proofs.Text.Trim
import CreditRating.Proofs.Text.Lines
import CreditRating.Proofs.Text.FixedWidth
import CreditRating.Proofs.Text.Pieces
import CreditRating.Proofs.Answers
import CreditRating.Proofs.Csv.Reading
import CreditRating.Proofs.Csv.Resuming
import CreditRating.Proofs.Csv.Lines
import CreditRating.Proofs.Csv.Unquoted
import CreditRating.Proofs.Csv.Written
import CreditRating.Proofs.ClientFile.Fields
import CreditRating.Proofs.ClientFile.Loading
import CreditRating.Proofs.ClientFile.Outcomes
import CreditRating.Proofs.ClientFile.Joining
import CreditRating.Proofs.ClientFile.ErrorLine
import CreditRating.Proofs.ClientFile.Unquoted
import CreditRating.Proofs.Files.Joined
import CreditRating.Proofs.Files.Tree
import CreditRating.Proofs.Files.Saving
import CreditRating.Proofs.Files.Replacing
import CreditRating.Proofs.Files.Naming
import CreditRating.Proofs.Run.Messages
import CreditRating.Proofs.Run.Stages
import CreditRating.Proofs.Run.Contract
import CreditRating.Proofs.Run.Diagnostics
import CreditRating.Proofs.Run.Warnings
import CreditRating.Proofs.Report.Decoding
import CreditRating.Proofs.Report.Names
import CreditRating.Proofs.Report.PrintedRating
import CreditRating.Proofs.Report.ScoreCell
import CreditRating.Proofs.Json.Reader
import CreditRating.Proofs.Json.Numbers
import CreditRating.Proofs.Json.Rereading
import CreditRating.Proofs.OutcomeDocument
import CreditRating.Proofs.Terminal.Lines
import CreditRating.Proofs.Terminal.Columns
import CreditRating.Proofs.Terminal.Colors
import CreditRating.Proofs.Terminal.Summary
