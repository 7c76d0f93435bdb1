import Tetraglyph.CommandLine
import Tetraglyph.Main
import Tetraglyph.Numeral.Word
import Tetraglyph.Proofs.Machine.Ideal
import Tetraglyph.Proofs.Machine.Loops
import Tetraglyph.Proofs.Machine.Runs
import Tetraglyph.Proofs.Machine.Straight
import Tetraglyph.Proofs.Numeral.Exact
import Tetraglyph.Proofs.Numeral.LongDivision
import Tetraglyph.Proofs.Numeral.ShortPasses
import Tetraglyph.Proofs.Command.Driving
import Tetraglyph.Proofs.Numeral.RoundTrip
import Tetraglyph.Proofs.Numeral.Expressions
import Tetraglyph.Proofs.Numeral.Order
import Tetraglyph.Proofs.Numeral.Reading
import Tetraglyph.Proofs.Numeral.Words
import Tetraglyph.Proofs.Program.Matching
import Tetraglyph.Proofs.Program.Caching
import Tetraglyph.Proofs.Program.SharedCache
import Tetraglyph.Proofs.Program.Recency
import Tetraglyph.Proofs.Program.Spelling
import Tetraglyph.Proofs.Program.Workers
import Tetraglyph.Proofs.Command.Programs
import Tetraglyph.Proofs.Command.Sequence
import Tetraglyph.Proofs.Command.ExitCodes
import Tetraglyph.Proofs.Config
import Tetraglyph.Proofs.Command.Settings
import Tetraglyph.Proofs.Ring.Deque
import Tetraglyph.Proofs.Stack.Operations
import Tetraglyph.Proofs.Machine.TwoBases
import Tetraglyph.Proofs.Machine.Pipeline
import Tetraglyph.Proofs.Command.Loads
import Tetraglyph.Proofs.Machine.Below
import Tetraglyph.Proofs.Machine.NewestFirst
import Tetraglyph.Proofs.Program.Unmatched
import Tetraglyph.Proofs.Pattern.Equality
import Tetraglyph.Proofs.Program.Symbols
import Tetraglyph.Proofs.Numeral.DecimalText
import Tetraglyph.Proofs.Tokens.Words
import Tetraglyph.Proofs.Command.CallingOff
import Tetraglyph.Proofs.Stack.Rotation
import Tetraglyph.Proofs.Content.Id
import Tetraglyph.Proofs.Config.Loading
import Tetraglyph.Proofs.Cache
