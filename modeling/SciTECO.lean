import SciTECO.Expressions.Arithmetic
import SciTECO.Expressions.Balance
import SciTECO.Expressions.Literals
import SciTECO.Expressions.MacroReturn
import SciTECO.Expressions.NotReached
import SciTECO.Expressions.Precedence
import SciTECO.Expressions.UnaryMinus
import SciTECO.Expressions.Undo
import SciTECO.QReg.Current
import SciTECO.QReg.EdHook
import SciTECO.QReg.DocumentCounts
import SciTECO.QReg.DocumentParams
import SciTECO.Parser.Loops
import SciTECO.Parser.Invocation
import SciTECO.Parser.Simulation
import SciTECO.Parser.WellNested
import SciTECO.Parser.Comments
import SciTECO.Parser.Escaping
import SciTECO.Parser.Expansion
import SciTECO.Parser.FileCoord
import SciTECO.QReg.Environ
import SciTECO.QReg.Pop
import SciTECO.Parser.SpecContinue
import SciTECO.Parser.Following
import SciTECO.Parser.RewindingRuns
import SciTECO.Spawn.Ranges
import SciTECO.Spawn.Targets
import SciTECO.Glob.Escape
import SciTECO.Glob.Language
import SciTECO.QReg.GetCharacter
import SciTECO.Editing.Backslash
import SciTECO.Editing.KillRanges
import SciTECO.Editing.Layout
import SciTECO.Editing.SearchBalance
import SciTECO.Editing.SearchBuffers
import SciTECO.Editing.Words
import SciTECO.Lib.Utf8
import SciTECO.Pattern.RegisterSets
import SciTECO.Pattern.Boundaries
import SciTECO.Lib.CommonPrefix
import SciTECO.Completion.AutoComplete
import SciTECO.Completion.Reading
import SciTECO.Completion.Scans
import SciTECO.Completion.Lookup
import SciTECO.Completion.Soundness
import SciTECO.Parser.LoadedCoord
import SciTECO.QReg.EnvironFree
import SciTECO.Symbols.Lookup
import SciTECO.Memory.Usage
import SciTECO.Cmdline.Rollback
import SciTECO.Cmdline.Reinsert
import SciTECO.BufferRing.Sessions
