import ContentType.Config.File
import ContentType.Detector.File
import ContentType.Json.Printer
import ContentType.Rule.Codec
import ContentType.Rule.Printer
import ContentType.Proofs.Byte
import ContentType.Proofs.Config.Overlay
import ContentType.Proofs.Config.TimeDirs
import ContentType.Proofs.Detector.Agreement
import ContentType.Proofs.Detector.Links
import ContentType.Proofs.Detector.Unknown
import ContentType.Proofs.FileSystem.Pieces
import ContentType.Proofs.Guess.Checksum
import ContentType.Proofs.Guess.Comments
import ContentType.Proofs.Guess.Family
import ContentType.Proofs.Guess.Id3
import ContentType.Proofs.Guess.PlainText
import ContentType.Proofs.Guess.Runs
import ContentType.Proofs.Rule.Codec
import ContentType.Proofs.Rule.Comparison
import ContentType.Proofs.Rule.Constant
import ContentType.Proofs.Rule.Depth
import ContentType.Proofs.Rule.DescriptionSize
import ContentType.Proofs.Rule.Extension
import ContentType.Proofs.Rule.FieldRange
import ContentType.Proofs.Rule.Head
import ContentType.Proofs.Rule.Literal
import ContentType.Proofs.Rule.Location
import ContentType.Proofs.Rule.Numeral
import ContentType.Proofs.Rule.OctalLiteral
import ContentType.Proofs.Rule.Printer
import ContentType.Proofs.Rule.Radix
import ContentType.Proofs.Rule.RoundTrip
import ContentType.Proofs.Rule.StringOrder
import ContentType.Proofs.Rule.WellFormed
import ContentType.Proofs.RuleTable.Accounting
import ContentType.Proofs.RuleTable.Adoption
import ContentType.Proofs.RuleTable.Answer
import ContentType.Proofs.RuleTable.Concatenation
import ContentType.Proofs.RuleTable.Deepest
import ContentType.Proofs.RuleTable.Files
import ContentType.Proofs.RuleTable.Layout
import ContentType.Proofs.RuleTable.LevelBound
import ContentType.Proofs.RuleTable.Precedence
