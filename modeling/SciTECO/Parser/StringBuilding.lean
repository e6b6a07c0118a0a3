import SciTECO.Lib.Lens
import SciTECO.Parser.Host

/-!
# String building and Q-Register specifications

The two machines contain each other: a string building construct names a
register, and the name of a register in brackets is built like a string.  The
inner machines are allocated on demand, so that a string building machine is a
chain of finite length.

Without a result the machine is in parse-only mode: it reads the same
characters and builds no text.
-/

namespace SciTECO
namespace Parser

open Undoable
open QReg (Table)

variable {σ W Reg : Type}

/-- Register an undo token on behalf of a machine. -/
def undo (env : Env) (token : σ -> σ) : Exec σ Unit :=
  if env.mustUndo then emit token else pure ()

/-!
## Machines
-/

/-- `teco_state_stringbuilding_*`. -/
inductive SBState where
  | start
  | ctl
  | escaped
  | lower
  | lowerCtl
  | upper
  | upperCtl
  | ctle
  | ctleNum
  | ctleU
  | ctleCode
  | ctleQ
  | ctleQuote
  | ctleN
deriving DecidableEq, Repr

/-- `teco_stringbuilding_mode_t`. -/
inductive SBMode where
  | normal
  | upper
  | lower
  | disabled
deriving DecidableEq, Repr

/-- A string building machine without its inner machine. -/
structure SBCore where
  current : SBState
  mode : SBMode
  escapeChar : Gunichar
  codepage : Nat
  code : Bytes
deriving DecidableEq, Repr

/-- `teco_state_qregspec_*`. -/
inductive SpecState where
  | start
  | startGlobal
  | caret
  | firstchar
  | secondchar
  | string
deriving DecidableEq, Repr

/-- A Q-Register specification machine without its inner machine. -/
structure SpecCore (Reg : Type) where
  current : SpecState
  type : QRegType
  parseOnly : Bool
  nesting : Int
  name : Bytes
  result : Option Reg
  resultTable : Table
deriving DecidableEq, Repr

/-- `teco_machine_stringbuilding_t`, where `machine_qregspec` may be `NULL`. -/
inductive StringBuilding (Reg : Type) where
  | plain (core : SBCore)
  | withSpec (core : SBCore) (spec : SpecCore Reg)
      (inner : StringBuilding Reg)
deriving DecidableEq, Repr

/-- `teco_machine_qregspec_t`. -/
structure QRegSpec (Reg : Type) where
  core : SpecCore Reg
  stringbuilding : StringBuilding Reg
deriving DecidableEq, Repr

/-- `SC_CP_UTF8`. -/
def codepageUtf8 : Nat := 65001

namespace StringBuilding

def core : StringBuilding Reg -> SBCore
  | plain core => core
  | withSpec core _ _ => core

def mapCore (f : SBCore -> SBCore) : StringBuilding Reg -> StringBuilding Reg
  | plain core => plain (f core)
  | withSpec core spec inner => withSpec (f core) spec inner

/-- `teco_machine_stringbuilding_init()`. -/
def init (escapeChar : Gunichar) (codepage : Nat) : StringBuilding Reg :=
  plain
    { current := SBState.start
      mode := SBMode.normal
      escapeChar := escapeChar
      codepage := codepage
      code := [] }

@[simp] theorem core_plain (core : SBCore) :
    (plain core : StringBuilding Reg).core = core := rfl

@[simp] theorem core_withSpec (core : SBCore) (spec : SpecCore Reg)
    (inner : StringBuilding Reg) :
    (withSpec core spec inner).core = core := rfl

@[simp] theorem core_mapCore (f : SBCore -> SBCore)
    (sb : StringBuilding Reg) : (sb.mapCore f).core = f sb.core := by
  cases sb <;> rfl

end StringBuilding

/-- `teco_machine_qregspec_new()`. -/
def QRegSpec.new (type : QRegType) (codepage : Nat) : QRegSpec Reg :=
  { core :=
      { current := SpecState.start
        type := type
        parseOnly := false
        nesting := 0
        name := []
        result := none
        resultTable := Table.globals }
    stringbuilding := StringBuilding.init '['.toNat codepage }

/-- The `machine_qregspec` of a machine that has one. -/
def specLens : Lens (StringBuilding Reg) (QRegSpec Reg) :=
  { get := fun sb =>
      match sb with
      | .plain core => QRegSpec.new QRegType.required core.codepage
      | .withSpec _ spec inner => { core := spec, stringbuilding := inner }
    set := fun q sb => .withSpec sb.core q.core q.stringbuilding }

/-- The `machine_stringbuilding` of a specification. -/
def innerLens : Lens (QRegSpec Reg) (StringBuilding Reg) :=
  { get := fun q => q.stringbuilding
    set := fun sb q => { q with stringbuilding := sb } }

@[simp] theorem specLens_get_withSpec (core : SBCore) (spec : SpecCore Reg)
    (inner : StringBuilding Reg) :
    specLens.get (.withSpec core spec inner) =
      { core := spec, stringbuilding := inner } := rfl

@[simp] theorem specLens_set (q : QRegSpec Reg) (sb : StringBuilding Reg) :
    specLens.set q sb = .withSpec sb.core q.core q.stringbuilding := rfl

@[simp] theorem innerLens_get (q : QRegSpec Reg) :
    innerLens.get q = q.stringbuilding := rfl

@[simp] theorem innerLens_set (sb : StringBuilding Reg) (q : QRegSpec Reg) :
    innerLens.set sb q = { q with stringbuilding := sb } := rfl

/-- The state of a machine together with the editor. -/
abbrev SBScope (W Reg : Type) : Type := StringBuilding Reg × Editor W

abbrev SpecScope (W Reg : Type) : Type := QRegSpec Reg × Editor W

def getCore : Exec (SBScope W Reg) SBCore := do
  let s <- get
  pure s.1.core

def modifyCore (f : SBCore -> SBCore) : Exec (SBScope W Reg) Unit :=
  modify (fun s => (s.1.mapCore f, s.2))

def undoCore (env : Env) (f : SBCore -> SBCore) :
    Exec (SBScope W Reg) Unit :=
  undo env (fun s => (s.1.mapCore f, s.2))

def getSpec : Exec (SpecScope W Reg) (SpecCore Reg) := do
  let s <- get
  pure s.1.core

def modifySpec (f : SpecCore Reg -> SpecCore Reg) :
    Exec (SpecScope W Reg) Unit :=
  modify (fun s => ({ s.1 with core := f s.1.core }, s.2))

def undoSpec (env : Env) (f : SpecCore Reg -> SpecCore Reg) :
    Exec (SpecScope W Reg) Unit :=
  undo env (fun s => ({ s.1 with core := f s.1.core }, s.2))

/-- Run a computation that only works on the editor. -/
def onEditor {ρ α : Type} (m : Exec (Editor W) α) :
    Exec (ρ × Editor W) α :=
  zoom { get := fun s => s.2, set := fun e s => (s.1, e) } m

/-!
## Resetting
-/

/-- `teco_state_stringbuilding_start` becomes current.  `resetSpec` is the reset
of the inner machine. -/
def resetStringBuildingWith (env : Env)
    (resetSpec : Exec (SBScope W Reg) Unit) : Exec (SBScope W Reg) Unit := do
  let core <- getCore
  if core.current ≠ SBState.start then
    undoCore env (fun c => { c with current := core.current })
  else
    pure ()
  modifyCore (fun c => { c with current := SBState.start })
  resetSpec
  undoCore env (fun c => { c with mode := core.mode })
  modifyCore (fun c => { c with mode := SBMode.normal })

/-- `teco_machine_qregspec_reset()`. -/
def resetQRegSpecWith (env : Env)
    (resetInner : Exec (SBScope W Reg) Unit) :
    Exec (SpecScope W Reg) Unit := do
  let spec <- getSpec
  if spec.current ≠ SpecState.start then
    undoSpec env (fun c => { c with current := spec.current })
  else
    pure ()
  modifySpec (fun c => { c with current := SpecState.start })
  zoom innerLens.left resetInner
  undoSpec env (fun c => { c with name := spec.name })
  undoSpec env (fun c => { c with nesting := spec.nesting })
  undoSpec env
    (fun c => { c with type := spec.type, parseOnly := spec.parseOnly })
  modifySpec (fun c =>
    { c with name := [], nesting := 0, resultTable := Table.globals })

/-- `teco_machine_stringbuilding_reset()` for a machine of the given shape. -/
def resetStringBuilding (env : Env) :
    StringBuilding Reg -> Exec (SBScope W Reg) Unit
  | .plain _ => resetStringBuildingWith env (pure ())
  | .withSpec _ _ inner =>
      resetStringBuildingWith env
        (zoom specLens.left
          (resetQRegSpecWith env (resetStringBuilding env inner)))

/-!
## Text
-/

/-- Case folding of `teco_machine_stringbuilding_append()`. -/
def foldText (glib : Glib) (core : SBCore) (str : Bytes) : Bytes :=
  match core.mode with
  | .upper =>
      (if core.codepage = codepageUtf8 then glib.strUp str
      else str.map (fun b => UInt8.ofNat (asciiToUpper b.toNat))).takeWhile
        (fun b => b != 0)
  | .lower =>
      (if core.codepage = codepageUtf8 then glib.strDown str
      else str.map (fun b => UInt8.ofNat (asciiToLower b.toNat))).takeWhile
        (fun b => b != 0)
  | _ => str

/-- `teco_machine_stringbuilding_append()`.  The functions of glib return `NULL`
for `NULL`, which has no length. -/
def appendText (glib : Glib) (core : SBCore) : Option Bytes ->
    Except Fault Bytes
  | some str => .ok (foldText glib core str)
  | none =>
      match core.mode with
      | .upper => .error Fault.nullPointer
      | .lower => .error Fault.nullPointer
      | _ => .ok []

/-- `teco_machine_stringbuilding_append_c()`, which fails for values outside of
the target encoding. -/
def appendC (glib : Glib) (core : SBCore) (value : Int) : Option Bytes :=
  if core.codepage = codepageUtf8 then
    if value < 0 ∨ unicharValidate (value.toNat % 2 ^ 32) = false then
      none
    else
      some (unicharToUtf8
        (match core.mode with
        | .upper => glib.toUpper (value.toNat % 2 ^ 32)
        | .lower => glib.toLower (value.toNat % 2 ^ 32)
        | _ => value.toNat % 2 ^ 32))
  else if value < 0 ∨ value > 0xFF then
    none
  else
    some [UInt8.ofNat
      (match core.mode with
      | .upper => asciiToUpper value.toNat
      | .lower => asciiToLower value.toNat
      | _ => value.toNat)]

/-- A character is not folded if it is outside of ASCII in a single-byte
encoding. -/
def foldChar (core : SBCore) (fold : Gunichar -> Gunichar) (chr : Gunichar) :
    Gunichar :=
  if core.codepage = codepageUtf8 ∨ chr < 0x80 then fold chr else chr

/-- The digits of `teco_expressions_format()`, the last one first.  `gchar` is
signed, so that only the bytes up to 0x7F are compared as greater. -/
def formatDigits (radix : Int) : Nat -> Int -> Bytes
  | 0, _ => []
  | fuel + 1, v =>
      let digit := UInt8.ofNat ((v.tmod radix).natAbs + '0'.toNat)
      let digit :=
        if '9'.toUInt8 < digit ∧ digit < 0x80 then digit + 7 else digit
      let v := v.tdiv radix
      digit :: (if v = 0 then [] else formatDigits radix fuel v)

/-- `teco_expressions_format()`.  The division traps for radix 0. -/
def formatNumber (number radix : TecoInt) : Except Fault Bytes :=
  if radix = 0 then
    .error Fault.arithmeticTrap
  else
    .ok ((if number.slt 0 then ['-'.toUInt8] else []) ++
      (formatDigits radix.toInt 66 number.toInt).reverse)

/-- `teco_globber_escape_pattern()`. -/
def globberEscapePattern (pattern : Bytes) : Bytes :=
  (pattern.takeWhile (fun b => b != 0)).flatMap (fun b =>
    if b = '*'.toUInt8 ∨ b = '?'.toUInt8 ∨ b = '['.toUInt8 then
      ['['.toUInt8, b, ']'.toUInt8]
    else
      [b])

/-!
## Q-Register specifications
-/

/-- `teco_error_invalidqreg_set()`. -/
def invalidQReg (name : Bytes) (table : Table) : TecoError :=
  { code := ErrorCode.invalidQReg
    message := "Invalid " ++
      (if table = Table.globals then "" else "local ") ++
      "Q-Register \"" ++ printable name ++ "\"" }

/-- `teco_error_qregcontainsnull_set()`. -/
def qregContainsNull (name : Bytes) (table : Table) : TecoError :=
  { code := ErrorCode.qregContainsNull
    message := (if table = Table.globals then "" else "Local ") ++
      "Q-Register \"" ++ printable name ++ "\" contains null-byte" }

section Machines

variable (host : Host W Reg) (env : Env)

/-- `teco_state_qregspec_done()`. -/
def specDone : Exec (SpecScope W Reg) SpecState := do
  let spec <- getSpec
  if spec.parseOnly then
    pure SpecState.start
  else do
    let s <- get
    let result := host.find spec.resultTable spec.name s.2
    modifySpec (fun c => { c with result := result })
    match spec.type, result with
    | .required, none => throw (invalidQReg spec.name spec.resultTable)
    | .optionalInit, none => do
        let reg <- onEditor (host.create spec.resultTable spec.name)
        modifySpec (fun c => { c with result := some reg })
        pure SpecState.start
    | _, _ => pure SpecState.start

/-- Add a character to the name, except in parse-only mode. -/
def specAppend (chr : Gunichar) : Exec (SpecScope W Reg) Unit := do
  let spec <- getSpec
  if spec.parseOnly then
    pure ()
  else do
    undoSpec env (fun c => { c with name := c.name.take spec.name.length })
    modifySpec (fun c => { c with name := c.name ++ unicharToUtf8 chr })

/-- `teco_state_qregspec_start_global_input()`. -/
def specStartGlobalInput (chr : Gunichar) :
    Exec (SpecScope W Reg) SpecState := do
  let spec <- getSpec
  match ascii chr with
  | some '^' => pure SpecState.caret
  | some '#' => pure SpecState.firstchar
  | some '[' => do
      undoSpec env (fun c => { c with nesting := spec.nesting })
      modifySpec (fun c => { c with nesting := c.nesting + 1 })
      pure SpecState.string
  | _ => do
      specAppend env (host.glib.toUpper chr)
      specDone host

/-- `teco_state_qregspec_start_input()`. -/
def specStartInput (chr : Gunichar) : Exec (SpecScope W Reg) SpecState := do
  let spec <- getSpec
  if chr = '.'.toNat then do
    undoSpec env (fun c => { c with resultTable := spec.resultTable })
    modifySpec (fun c => { c with resultTable := env.locals })
    pure SpecState.startGlobal
  else
    specStartGlobalInput host env chr

/-- `teco_state_qregspec_caret_input()`. -/
def specCaretInput (chr : Gunichar) : Exec (SpecScope W Reg) SpecState :=
  if asciiToUpper chr < '@'.toNat ∨ asciiToUpper chr > '_'.toNat then
    throw (TecoError.syntaxError (asciiToUpper chr))
  else do
    specAppend env (ctlKey (asciiToUpper chr))
    specDone host

/-- `teco_state_qregspec_string_input()`, given the inner machine. -/
def specStringInput (innerInput : Bool -> Exec (SBScope W Reg) Bytes)
    (chr : Gunichar) : Exec (SpecScope W Reg) SpecState := do
  let s <- get
  let spec := s.1.core
  let isStart := decide (s.1.stringbuilding.core.current = SBState.start)
  let feed : Exec (SpecScope W Reg) SpecState := do
    if spec.parseOnly then
      pure ()
    else
      undoSpec env (fun c => { c with name := c.name.take spec.name.length })
    let text <- zoom innerLens.left (innerInput (!spec.parseOnly))
    modifySpec (fun c => { c with name := c.name ++ text })
    pure SpecState.string
  if isStart ∧ chr = '['.toNat then do
    undoSpec env (fun c => { c with nesting := spec.nesting })
    modifySpec (fun c => { c with nesting := c.nesting + 1 })
    feed
  else if isStart ∧ chr = ']'.toNat then do
    undoSpec env (fun c => { c with nesting := spec.nesting })
    modifySpec (fun c => { c with nesting := c.nesting - 1 })
    if spec.nesting - 1 = 0 then
      specDone host
    else
      feed
  else
    feed

/-- The `input_cb` of the current state. -/
def specStateInput (innerInput : Bool -> Exec (SBScope W Reg) Bytes)
    (chr : Gunichar) : Exec (SpecScope W Reg) SpecState := do
  let spec <- getSpec
  match spec.current with
  | .start => specStartInput host env chr
  | .startGlobal => specStartGlobalInput host env chr
  | .caret => specCaretInput host env chr
  | .firstchar => do
      specAppend env (host.glib.toUpper chr)
      pure SpecState.secondchar
  | .secondchar => do
      specAppend env (host.glib.toUpper chr)
      specDone host
  | .string => specStringInput host env innerInput chr

/-- `teco_machine_qregspec_input()`.  The result is `none` as long as the
specification is incomplete.  Without `wanted` this is parse-only mode, in which
there is no register. -/
def specInput (wanted : Bool)
    (innerInput : Bool -> Exec (SBScope W Reg) Bytes) (chr : Gunichar) :
    Exec (SpecScope W Reg) (Option (Option Reg × Table)) := do
  modifySpec (fun c => { c with parseOnly := !wanted })
  let next <- specStateInput host env innerInput chr
  let spec <- getSpec
  if next ≠ spec.current then do
    undoSpec env (fun c => { c with current := spec.current })
    modifySpec (fun c => { c with current := next })
  else
    pure ()
  let spec <- getSpec
  if spec.current = SpecState.start then
    pure (some (if wanted then spec.result else none, spec.resultTable))
  else
    pure none

/-!
## String building
-/

/-- `teco_state_stringbuilding_escaped_input()`. -/
def escapedInput (result : Bool) (chr : Gunichar) :
    Exec (SBScope W Reg) (SBState × Bytes) := do
  let core <- getCore
  if result then
    pure (SBState.start, unicharToUtf8
      (match core.mode with
      | .upper => foldChar core host.glib.toUpper chr
      | .lower => foldChar core host.glib.toLower chr
      | _ => chr))
  else
    pure (SBState.start, [])

/-- `teco_state_stringbuilding_ctl_input()`. -/
def ctlInput (result : Bool) (chr : Gunichar) :
    Exec (SBScope W Reg) (SBState × Bytes) := do
  let chr := asciiToUpper chr
  let core <- getCore
  match ascii chr with
  | some '^' =>
      pure (SBState.start, if result then unicharToUtf8 chr else [])
  | some 'P' => do
      undoCore env (fun c => { c with mode := core.mode })
      modifyCore (fun c => { c with mode := SBMode.disabled })
      pure (SBState.start, [])
  | some 'Q' => pure (SBState.escaped, [])
  | some 'R' => pure (SBState.escaped, [])
  | some 'V' => pure (SBState.lower, [])
  | some 'W' => pure (SBState.upper, [])
  | some 'E' => pure (SBState.ctle, [])
  | _ =>
      if chr < '@'.toNat ∨ chr > '_'.toNat then
        pure (SBState.start,
          if result then '^'.toUInt8 :: unicharToUtf8 chr else [])
      else
        pure (SBState.start,
          if result then unicharToUtf8 (ctlKey chr) else [])

/-- `teco_state_stringbuilding_start_input()`. -/
def sbStartInput (result : Bool) (chr : Gunichar) :
    Exec (SBScope W Reg) (SBState × Bytes) := do
  let core <- getCore
  if core.mode = SBMode.disabled then
    escapedInput host result chr
  else if chr = '^'.toNat then
    pure (SBState.ctl, [])
  else if chr = ctlKey '^'.toNat then
    escapedInput host result chr
  else if isCtl chr then
    ctlInput env result (ctlEcho chr)
  else
    escapedInput host result chr

/-- `teco_state_stringbuilding_lower_ctl_input()` and
`teco_state_stringbuilding_upper_ctl_input()`: the key that was doubled selects
the mode. -/
def caseCtlInput (key : Char) (mode : SBMode) (result : Bool)
    (chr : Gunichar) : Exec (SBScope W Reg) (SBState × Bytes) := do
  let core <- getCore
  if result then
    if asciiToUpper chr = key.toNat then do
      undoCore env (fun c => { c with mode := core.mode })
      modifyCore (fun c => { c with mode := mode })
      pure (SBState.start, [])
    else
      pure (SBState.start, unicharToUtf8 (ctlKey (asciiToUpper chr)))
  else
    pure (SBState.start, [])

def lowerCtlInput : Bool -> Gunichar -> Exec (SBScope W Reg) (SBState × Bytes) :=
  caseCtlInput env 'V' SBMode.lower

def upperCtlInput : Bool -> Gunichar -> Exec (SBScope W Reg) (SBState × Bytes) :=
  caseCtlInput env 'W' SBMode.upper

/-- `teco_state_stringbuilding_lower_input()` and
`teco_state_stringbuilding_upper_input()`. -/
def caseInput (ctlState : SBState)
    (ctl : Bool -> Gunichar -> Exec (SBScope W Reg) (SBState × Bytes))
    (fold : Gunichar -> Gunichar) (result : Bool) (chr : Gunichar) :
    Exec (SBScope W Reg) (SBState × Bytes) := do
  let core <- getCore
  if chr = '^'.toNat then
    pure (ctlState, [])
  else if isCtl chr then
    ctl result (ctlEcho chr)
  else
    pure (SBState.start,
      if result then unicharToUtf8 (foldChar core fold chr) else [])

def lowerInput : Bool -> Gunichar -> Exec (SBScope W Reg) (SBState × Bytes) :=
  caseInput SBState.lowerCtl (lowerCtlInput env) host.glib.toLower

def upperInput : Bool -> Gunichar -> Exec (SBScope W Reg) (SBState × Bytes) :=
  caseInput SBState.upperCtl (upperCtlInput env) host.glib.toUpper

/-- Reset the specification machine, or allocate one. -/
def prepareSpec : Exec (SBScope W Reg) Unit := do
  let s <- get
  match s.1 with
  | .withSpec _ _ inner =>
      zoom specLens.left
        (resetQRegSpecWith env (resetStringBuilding env inner))
  | .plain core =>
      let spec : QRegSpec Reg :=
        QRegSpec.new QRegType.required (host.defaultCodepage s.2)
      modify (fun s =>
        (.withSpec core spec.core spec.stringbuilding, s.2))

/-- The construct that a character after `^E` starts. -/
def ctleState (chr : Gunichar) : Option SBState :=
  match ascii (asciiToUpper chr) with
  | some '\\' => some SBState.ctleNum
  | some 'U' => some SBState.ctleU
  | some '<' => some SBState.ctleCode
  | some 'Q' => some SBState.ctleQ
  | some '@' => some SBState.ctleQuote
  | some 'N' => some SBState.ctleN
  | _ => none

/-- `teco_state_stringbuilding_ctle_input()`. -/
def ctleInput (result : Bool) (chr : Gunichar) :
    Exec (SBScope W Reg) (SBState × Bytes) := do
  let core <- getCore
  match ctleState chr with
  | none =>
      pure (SBState.start,
        if result then
          foldText host.glib core
            (UInt8.ofNat (ctlKey 'E'.toNat) :: unicharToUtf8 chr)
        else [])
  | some next => do
      prepareSpec host env
      pure (next, [])

/-- The states which read a register: `next` is the state itself, and `expand`
the text for the register once it is known. -/
def ctleQRegInput (next : SBState)
    (expand : Reg -> Table -> Exec (SBScope W Reg) Bytes)
    (specMachine : Exec (SBScope W Reg) (Option (Option Reg × Table)))
    (result : Bool) : Exec (SBScope W Reg) (SBState × Bytes) := do
  let status <- specMachine
  match status with
  | none => pure (next, [])
  | some (qreg, table) =>
      if result then
        match qreg with
        | none => fault Fault.nullPointer
        | some reg => do
            let text <- expand reg table
            pure (SBState.start, text)
      else
        pure (SBState.start, [])

/-- `^E\`, where the length is `strlen(num)`. -/
def expandNum (reg : Reg) (_ : Table) : Exec (SBScope W Reg) Bytes := do
  let value <- onEditor (host.getInteger reg)
  let s <- get
  match formatNumber value (host.radix env.locals s.2) with
  | .error c => fault c
  | .ok num =>
      pure (foldText host.glib s.1.core (num.takeWhile (fun b => b != 0)))

/-- `^EU`. -/
def expandU (reg : Reg) (_ : Table) : Exec (SBScope W Reg) Bytes := do
  let value <- onEditor (host.getInteger reg)
  let core <- getCore
  match appendC host.glib core value.toInt with
  | some text => pure text
  | none =>
      throw
        { code := ErrorCode.codepoint
          message := "Q-Register \"" ++ printable (host.name reg) ++
            "\" does not contain a valid codepoint" }

/-- `^EQ`. -/
def expandQ (reg : Reg) (_ : Table) : Exec (SBScope W Reg) Bytes := do
  let str <- onEditor (host.getString reg)
  let core <- getCore
  match appendText host.glib core str with
  | .error c => fault c
  | .ok text => pure text

/-- `^E@` and `^EN`, which do not allow null-bytes. -/
def expandQuoted (quote : Bytes -> Bytes) (reg : Reg) (table : Table) :
    Exec (SBScope W Reg) Bytes := do
  let str <- onEditor (host.getString reg)
  if (0 : UInt8) ∈ str.getD [] then
    throw (qregContainsNull (host.name reg) table)
  else do
    let core <- getCore
    pure (foldText host.glib core (quote (str.getD [])))

/-- `teco_state_stringbuilding_ctle_code_input()`. -/
def ctleCodeInput (result : Bool) (chr : Gunichar) :
    Exec (SBScope W Reg) (SBState × Bytes) := do
  let core <- getCore
  if chr = '>'.toNat then
    if result then
      if core.code = [] then
        throw
          { code := ErrorCode.codepoint
            message := "Invalid empty ^E<> specified" }
      else
        match (host.glib.strtoll core.code).bind (appendC host.glib core) with
        | none =>
            throw
              { code := ErrorCode.codepoint
                message := "Invalid code ^E<" ++
                  printable core.code ++ "> specified" }
        | some text => do
            undoCore env (fun c => { c with code := core.code })
            modifyCore (fun c => { c with code := [] })
            pure (SBState.start, text)
    else
      pure (SBState.start, [])
  else if result then do
    undoCore env (fun c => { c with code := c.code.take core.code.length })
    modifyCore (fun c => { c with code := c.code ++ unicharToUtf8 chr })
    pure (SBState.ctleCode, [])
  else
    pure (SBState.ctleCode, [])

/-- The `input_cb` of the current state. -/
def sbStateInput
    (specMachine : Exec (SBScope W Reg) (Option (Option Reg × Table)))
    (result : Bool) (chr : Gunichar) :
    Exec (SBScope W Reg) (SBState × Bytes) := do
  let core <- getCore
  match core.current with
  | .start => sbStartInput host env result chr
  | .ctl => ctlInput env result chr
  | .escaped => escapedInput host result chr
  | .lower => lowerInput host env result chr
  | .lowerCtl => lowerCtlInput env result chr
  | .upper => upperInput host env result chr
  | .upperCtl => upperCtlInput env result chr
  | .ctle => ctleInput host env result chr
  | .ctleNum =>
      ctleQRegInput SBState.ctleNum (expandNum host env) specMachine result
  | .ctleU => ctleQRegInput SBState.ctleU (expandU host) specMachine result
  | .ctleCode => ctleCodeInput host env result chr
  | .ctleQ => ctleQRegInput SBState.ctleQ (expandQ host) specMachine result
  | .ctleQuote =>
      ctleQRegInput SBState.ctleQuote (expandQuoted host host.glib.shellQuote)
        specMachine result
  | .ctleN =>
      ctleQRegInput SBState.ctleN (expandQuoted host globberEscapePattern)
        specMachine result

/-- `teco_machine_input()` for string building.  The text is what is appended
to the result. -/
def sbInputWith
    (specMachine : Exec (SBScope W Reg) (Option (Option Reg × Table)))
    (result : Bool) (chr : Gunichar) : Exec (SBScope W Reg) Bytes := do
  let (next, text) <- sbStateInput host env specMachine result chr
  let core <- getCore
  if next ≠ core.current then do
    undoCore env (fun c => { c with current := core.current })
    modifyCore (fun c => { c with current := next })
    pure text
  else
    pure text

/-- `teco_machine_stringbuilding_input()` for a machine of the given shape. -/
def sbInputOf (chr : Gunichar) :
    StringBuilding Reg -> Bool -> Exec (SBScope W Reg) Bytes
  | .plain _, result =>
      sbInputWith host env (fault Fault.nullPointer) result chr
  | .withSpec _ _ inner, result =>
      sbInputWith host env
        (zoom specLens.left
          (specInput host env result (sbInputOf chr inner) chr))
        result chr

def sbInput (result : Bool) (chr : Gunichar) :
    Exec (SBScope W Reg) Bytes := fun s =>
  sbInputOf host env chr s.1 result s

/-- `teco_machine_stringbuilding_reset()`. -/
def sbReset : Exec (SBScope W Reg) Unit := fun s =>
  resetStringBuilding env s.1 s

/-- `teco_machine_qregspec_input()` for a whole specification machine. -/
def qregSpecInput (wanted : Bool) (chr : Gunichar) :
    Exec (SpecScope W Reg) (Option (Option Reg × Table)) := fun s =>
  specInput host env wanted (sbInputOf host env chr s.1.stringbuilding) chr s

end Machines

end Parser
end SciTECO
