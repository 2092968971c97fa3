import PlainC.Text
import PlainC.Text.Blank
import PlainC.Text.WordChar
import PlainC.Text.DecimalDigit
import PlainC.Text.Quoted
import PlainC.Span
import PlainC.Source
import PlainC.Pattern
import PlainC.Token
import PlainC.Token.Lexer
import PlainC.Token.Located
import PlainC.Typedef
import PlainC.Typedef.Substitution
import PlainC.Typedef.Unfolding
import PlainC.Diagnostic
import PlainC.Error
import PlainC.CompilationUnit
import PlainC.Toml.Value
import PlainC.Toml.Scalar
import PlainC.Toml.DateTimeTable
import PlainC.Toml.Document
import PlainC.LogLevel
import PlainC.Settings
import PlainC.Path
import PlainC.FileTree
import PlainC.Json
import PlainC.Dump.Location
import PlainC.Dump.Node
import PlainC.Text.Utf8
import PlainC.Log
import PlainC.Invocation
import PlainC.World
import PlainC.Scratch
import PlainC.Dump.Unit
import PlainC.UnitReader
import PlainC.Stripping
import PlainC.Expansion
import PlainC.Canonicalization
import PlainC.Settings.Discovery
import PlainC.CommandLine
import PlainC.CommandLine.Run
import PlainC.Main
import PlainC.Proofs.Text
import PlainC.Proofs.Position
import PlainC.Proofs.Source
import PlainC.Proofs.Pattern
import PlainC.Proofs.Lexing
import PlainC.Proofs.Utf8
import PlainC.Proofs.FileTree
import PlainC.Proofs.Places
import PlainC.Proofs.Footprint
import PlainC.Proofs.Action
import PlainC.Proofs.Stripping
import PlainC.Proofs.Detachment
import PlainC.Proofs.Trimming
import PlainC.Proofs.TagBodies
import PlainC.Proofs.KeptTypedefs
import PlainC.Proofs.Words
import PlainC.Proofs.Substitution
import PlainC.Proofs.BareAliases
import PlainC.Proofs.Alignment
import PlainC.Proofs.OpenLiterals
import PlainC.Proofs.TokenSpans
import PlainC.Proofs.MaximalMunch
import PlainC.Proofs.LexedPieces
import PlainC.Proofs.Effects
import PlainC.Proofs.DerivedFiles
import PlainC.Proofs.Stages
import PlainC.Proofs.Following
import PlainC.Proofs.StageOrder
import PlainC.Proofs.Edits
import PlainC.Proofs.WholeWords
import PlainC.Proofs.Trivia
import PlainC.Proofs.StrippedTokens
import PlainC.Proofs.DumpPlaces
import PlainC.Proofs.DumpStyles
import PlainC.Proofs.ExactDetachment
import PlainC.Proofs.RowsSetAside
import PlainC.Proofs.WideEnds
import PlainC.Proofs.Delimiters
import PlainC.Proofs.Diagnostic
import PlainC.Proofs.DerivedPaths
import PlainC.Proofs.InPlace
import PlainC.Proofs.SearchedDirectories
import PlainC.Proofs.AddressedPieces
import PlainC.Proofs.NearestSettings
import PlainC.Proofs.Margins
import PlainC.Proofs.NormalSettings
