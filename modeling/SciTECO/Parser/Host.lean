import SciTECO.Expressions.Stacks
import SciTECO.QReg.Current
import SciTECO.Strings

/-!
# What the parser calls

The parser is generic in the commands that work on documents, registers, the
ring of buffers, the search engine, files and processes.  A `Host` supplies
them.  Such a command may do anything to the expression stacks, the loop stack
(by running a macro), the messages and the rest of the editor, and it reads and
clears the colon modifier.
-/

namespace SciTECO
namespace Parser

open QReg (Table)

/-!
## The editor
-/

/-- `teco_loop_context_t`. -/
structure LoopContext where
  counter : TecoInt
  pc : Nat
  braceLevel : Nat
  passThrough : Bool
deriving DecidableEq, Repr

/-- `teco_msg_t`. -/
inductive Severity where
  | user
  | info
  | warning
  | error
deriving DecidableEq, Repr

/-- A message of `teco_interface_msg()`, which is also written to the standard
output in batch mode. -/
structure Message where
  severity : Severity
  text : Bytes
deriving DecidableEq, Repr

/-- The global state that commands work on.  `world` has the registers with the
push-down stack, the documents and everything else that only a host knows.  The
top of the loop stack is at the head, the latest message too. -/
structure Editor (W : Type) where
  expr : Expressions
  loopStack : List LoopContext
  messages : List Message
  world : W
deriving DecidableEq, Repr

/-- What a command of the host sees: the editor and `modifier_colon`. -/
structure Command (W : Type) where
  editor : Editor W
  modifierColon : Nat
deriving DecidableEq, Repr

/-- What the parser reads of `teco_cmdline`. -/
structure CmdlineView where
  str : Bytes
  effectiveLen : Nat
  pc : Nat
deriving DecidableEq, Repr

/-- The constants of a macro invocation.  All machines of an invocation have
the same `must_undo`. -/
structure Env where
  mustUndo : Bool
  undoEnabled : Bool
  /-- Whether this is `teco_cmdline.machine`. -/
  isCmdline : Bool
  locals : Table
  cmdline : CmdlineView
deriving DecidableEq, Repr

/-!
## Commands
-/

/-- Transition callbacks and word commands which belong to the host.
`bufferHook` is the hook after a search that has changed the buffer. -/
inductive EditorCommand where
  | dot | zed | range | backslash
  | cmdlinePush
  | jump | move | reverse | line | back | killLines | deleteChars
  | get | typeout
  | words (factor : Int) (modifierAt : Bool)
  | deleteWords (factor : Int) (modifierAt : Bool)
  | date | time | octal | decimal | radix
  | lines2glyphs | glyphs2bytes | searchMode | lastRange | lastLength
  | typeoutGlyph | refresh
  | close | flags | properties | eol | encoding | version | exit
  | bufferHook
deriving DecidableEq, Repr

/-- The states defined by `TECO_DEFINE_STATE_EXPECTQREG()`; `macroCall` is
`teco_state_macro`. -/
inductive QRegCommand where
  | pushqreg | popqreg
  | eqcommand | epctcommand | queryqreg | ctlucommand | eucommand
  | getqregstring | setqreginteger | increaseqreg | macroCall | copytoqreg
  | egcommand | saveCmdline
deriving DecidableEq, Repr

/-- The states defined by `TECO_DEFINE_STATE_EXPECTSTRING()` and the macros
derived from it. -/
inductive StringCommand where
  | insertPlain | insertIndent
  | changedir | globPattern | globFilename
  | goto | help
  | loadqreg | saveqreg
  | setqregstringNobuilding | setqregstringBuilding
  | indirect
  | editFile | saveFile | readFile
  | search | searchAll | searchKill | searchDelete
  | replaceInsert | replaceIgnore | replace
  | replaceDefaultInsert | replaceDefaultIgnore
  | replaceDefault | replaceDefaultAll
  | execute | printString
  | scintillaSymbols | scintillaLparam
deriving DecidableEq, Repr

/-- `teco_qreg_type_t`. -/
inductive QRegType where
  | required
  | optional
  | optionalInit
deriving DecidableEq, Repr

/-- `expectqreg.type`. -/
def QRegCommand.type : QRegCommand -> QRegType
  | popqreg => .optionalInit
  | eqcommand => .optionalInit
  | ctlucommand => .optionalInit
  | eucommand => .optionalInit
  | setqreginteger => .optionalInit
  | increaseqreg => .optionalInit
  | copytoqreg => .optionalInit
  | egcommand => .optionalInit
  | saveCmdline => .optionalInit
  | pushqreg => .required
  | epctcommand => .required
  | queryqreg => .required
  | getqregstring => .required
  | macroCall => .required

namespace StringCommand

/-- `expectstring.string_building`. -/
def stringBuilding : StringCommand -> Bool
  | setqregstringNobuilding => false
  | help => false
  | _ => true

/-- `expectstring.last`. -/
def last : StringCommand -> Bool
  | replace => false
  | replaceDefault => false
  | replaceDefaultAll => false
  | globPattern => false
  | scintillaSymbols => false
  | _ => true

/-- The states with `teco_state_expectfile_process()`. -/
def isFile : StringCommand -> Bool
  | changedir => true
  | globPattern => true
  | globFilename => true
  | loadqreg => true
  | saveqreg => true
  | indirect => true
  | editFile => true
  | saveFile => true
  | readFile => true
  | _ => false

/-- The states with another `expectstring.process_cb`, which belongs to the
host: insertions and searches. -/
def isInteractive : StringCommand -> Bool
  | insertPlain => true
  | insertIndent => true
  | replaceInsert => true
  | replaceDefaultInsert => true
  | search => true
  | searchAll => true
  | searchKill => true
  | searchDelete => true
  | replace => true
  | replaceDefault => true
  | replaceDefaultAll => true
  | _ => false

/-- The states with an initial callback that belongs to the host. -/
def hasInitial : StringCommand -> Bool
  | insertPlain => true
  | insertIndent => true
  | help => true
  | setqregstringBuilding => true
  | editFile => true
  | search => true
  | searchAll => true
  | searchKill => true
  | searchDelete => true
  | replace => true
  | replaceDefault => true
  | replaceDefaultAll => true
  | replaceInsert => true
  | execute => true
  | _ => false

end StringCommand

/-!
## Hosts
-/

/-- Functions of glib. -/
structure Glib where
  toUpper : Gunichar -> Gunichar
  toLower : Gunichar -> Gunichar
  isAlpha : Gunichar -> Bool
  isAlnum : Gunichar -> Bool
  isDigit : Gunichar -> Bool
  isLower : Gunichar -> Bool
  isUpper : Gunichar -> Bool
  strUp : Bytes -> Bytes
  strDown : Bytes -> Bytes
  /-- `g_ascii_strtoll()` with base 0; `none` if the string is no number. -/
  strtoll : Bytes -> Option Int
  shellQuote : Bytes -> Bytes

/-- No error of the computation is `TECO_ERROR_RETURN`. -/
def NeverReturns {σ α : Type} (m : Exec σ α) : Prop :=
  forall s, Undoable.wp m (fun _ _ => True)
    (fun e _ => e.code ≠ ErrorCode.returned) (fun _ => True) s

/-- The commands and tables outside of the parser.  They run macros by
`teco_execute_macro()`, which does not pass `TECO_ERROR_RETURN` on. -/
structure Host (W Reg : Type) where
  glib : Glib
  /-- An interruption or the memory limit, which is checked before every
  character. -/
  check : Editor W -> Option TecoError
  defaultCodepage : Editor W -> Nat
  /-- `teco_qreg_table_find()`. -/
  find : Table -> Bytes -> Editor W -> Option Reg
  /-- Make and insert a plain register. -/
  create : Table -> Bytes -> Exec (Editor W) Reg
  /-- `teco_qreg_current`. -/
  current : Editor W -> Option Reg
  name : Reg -> Bytes
  getInteger : Reg -> Exec (Editor W) TecoInt
  /-- The contents of a register; `none` is `NULL`, without contents. -/
  getString : Reg -> Exec (Editor W) (Option Bytes)
  /-- The value of the register `^R` of a table of local registers. -/
  radix : Table -> Editor W -> TecoInt
  run : EditorCommand -> Env -> Exec (Command W) Unit
  gotRegister : QRegCommand -> Env -> Option Reg -> Table -> Bool ->
    Exec (Command W) Unit
  /-- The code page for string building, if the initial callback sets it. -/
  stringCodepage : StringCommand -> Env -> Option Reg ->
    Exec (Command W) (Option Nat)
  stringInitial : StringCommand -> Env -> Exec (Command W) Unit
  /-- The code page is the first number, the count of new bytes the second. -/
  stringProcess : StringCommand -> Env -> Nat -> Bytes -> Nat ->
    Exec (Command W) Unit
  stringDone : StringCommand -> Env -> Option (Reg × Table) -> Bytes ->
    Exec (Command W) Unit
  check_code : forall editor e, check editor = some e ->
    e.code ≠ ErrorCode.returned
  create_code : forall table name, NeverReturns (create table name)
  getInteger_code : forall reg, NeverReturns (getInteger reg)
  getString_code : forall reg, NeverReturns (getString reg)
  run_code : forall cmd env, NeverReturns (run cmd env)
  gotRegister_code : forall cmd env reg table modifierAt,
    NeverReturns (gotRegister cmd env reg table modifierAt)
  stringCodepage_code : forall cmd env reg,
    NeverReturns (stringCodepage cmd env reg)
  stringInitial_code : forall cmd env, NeverReturns (stringInitial cmd env)
  stringProcess_code : forall cmd env codepage str newChars,
    NeverReturns (stringProcess cmd env codepage str newChars)
  stringDone_code : forall cmd env qreg str,
    NeverReturns (stringDone cmd env qreg str)

end Parser
end SciTECO
