import SciTECO.Parser.Execution

/-!
# A small host

One document and the command line replacement register.  Text is inserted at
the end.  The other commands do nothing.  Results about all hosts are evaluated
on this one.
-/

namespace SciTECO
namespace Parser

open Undoable
open QReg (Table)

/-- The document, the contents of the replacement register, and whether this
register is being edited. -/
structure SampleWorld where
  document : Bytes
  replacement : Bytes
  editsReplacement : Bool
deriving DecidableEq, Repr

inductive SampleReg where
  | search
  | replacement
  | named (name : Bytes)
deriving DecidableEq, Repr

namespace SampleWorld

def empty : SampleWorld :=
  { document := [], replacement := [], editsReplacement := false }

/-- Insert into the document or the register that is being edited. -/
def insert (str : Bytes) (w : SampleWorld) : SampleWorld :=
  if w.editsReplacement then
    { w with replacement := w.replacement ++ str }
  else
    { w with document := w.document ++ str }

/-- Copy the command line into the register and edit it. -/
def editReplacement (cmdline : CmdlineView) (w : SampleWorld) : SampleWorld :=
  { w with
    replacement := cmdline.str.take cmdline.pc
    editsReplacement := true }

end SampleWorld

/-- Change the world, with an undo token. -/
def sampleChange (f : SampleWorld -> SampleWorld) :
    Exec (Command SampleWorld) Unit := do
  let c <- get
  emit (fun d =>
    { d with editor := { d.editor with world := c.editor.world } })
  modify (fun d =>
    { d with editor := { d.editor with world := f d.editor.world } })

theorem neverReturns_pure {σ α : Type} (a : α) :
    NeverReturns (pure a : Exec σ α) := fun _ => trivial

theorem neverReturns_sampleChange (f : SampleWorld -> SampleWorld) :
    NeverReturns (sampleChange f) := by
  intro s
  simp [sampleChange]

def sampleGlib : Glib :=
  { toUpper := asciiToUpper
    toLower := asciiToLower
    isAlpha := fun chr =>
      decide ('A'.toNat <= asciiToUpper chr ∧ asciiToUpper chr <= 'Z'.toNat)
    isAlnum := fun chr =>
      decide (('A'.toNat <= asciiToUpper chr ∧
          asciiToUpper chr <= 'Z'.toNat) ∨
        ('0'.toNat <= chr ∧ chr <= '9'.toNat))
    isDigit := fun chr => decide ('0'.toNat <= chr ∧ chr <= '9'.toNat)
    isLower := fun chr => decide ('a'.toNat <= chr ∧ chr <= 'z'.toNat)
    isUpper := fun chr => decide ('A'.toNat <= chr ∧ chr <= 'Z'.toNat)
    strUp := fun str => str.map (fun b => UInt8.ofNat (asciiToUpper b.toNat))
    strDown := fun str =>
      str.map (fun b => UInt8.ofNat (asciiToLower b.toNat))
    strtoll := fun _ => none
    shellQuote := fun str => ['\''.toUInt8] ++ str ++ ['\''.toUInt8] }

/-- The register of a name; others are made on demand. -/
def sampleFind (name : Bytes) : Option SampleReg :=
  if name = ['_'.toUInt8] then some SampleReg.search
  else if name = [0x1B] then some SampleReg.replacement
  else none

def sampleRun (cmd : EditorCommand) (env : Env) :
    Exec (Command SampleWorld) Unit :=
  match cmd with
  | .cmdlinePush => sampleChange (SampleWorld.editReplacement env.cmdline)
  | _ => pure ()

def sampleProcess (cmd : StringCommand) (str : Bytes) (newChars : Nat) :
    Exec (Command SampleWorld) Unit :=
  match cmd with
  | .insertPlain =>
      sampleChange (SampleWorld.insert (str.drop (str.length - newChars)))
  | _ => pure ()

def sampleHost : Host SampleWorld SampleReg :=
  { glib := sampleGlib
    check := fun _ => none
    defaultCodepage := fun _ => codepageUtf8
    find := fun _ name _ => sampleFind name
    create := fun _ name => pure (SampleReg.named name)
    current := fun e =>
      if e.world.editsReplacement then some SampleReg.replacement else none
    name := fun reg =>
      match reg with
      | .search => ['_'.toUInt8]
      | .replacement => [0x1B]
      | .named name => name
    getInteger := fun _ => pure 0
    getString := fun reg => do
      let e <- get
      match reg with
      | .search => pure (some [])
      | .replacement => pure (some e.world.replacement)
      | .named _ => pure none
    radix := fun _ _ => 10
    run := sampleRun
    gotRegister := fun _ _ _ _ _ => pure ()
    stringCodepage := fun _ _ _ => pure none
    stringInitial := fun _ _ => pure ()
    stringProcess := fun cmd _ _ str newChars =>
      sampleProcess cmd str newChars
    stringDone := fun _ _ _ _ => pure ()
    check_code := fun _ _ h => by simp at h
    create_code := fun _ _ => neverReturns_pure _
    getInteger_code := fun _ => neverReturns_pure _
    getString_code := fun reg s => by cases reg <;> trivial
    run_code := fun cmd env => by
      cases cmd <;>
        first
        | exact neverReturns_pure _
        | exact neverReturns_sampleChange _
    gotRegister_code := fun _ _ _ _ _ => neverReturns_pure _
    stringCodepage_code := fun _ _ _ => neverReturns_pure _
    stringInitial_code := fun _ _ => neverReturns_pure _
    stringProcess_code := fun cmd _ _ _ _ => by
      cases cmd <;>
        first
        | exact neverReturns_pure _
        | exact neverReturns_sampleChange _
    stringDone_code := fun _ _ _ _ => neverReturns_pure _ }

/-- `^U` on the replacement register. -/
def sampleDone (cmd : StringCommand) (qreg : Option (SampleReg × Table))
    (str : Bytes) : Exec (Command SampleWorld) Unit :=
  match cmd, qreg with
  | .setqregstringNobuilding, some (.replacement, _) =>
      sampleChange (fun w => { w with replacement := str })
  | _, _ => pure ()

/-- The replacement register can also be set. -/
def settingHost : Host SampleWorld SampleReg :=
  { sampleHost with
    stringDone := fun cmd _ qreg str => sampleDone cmd qreg str
    stringDone_code := by
      intro cmd env qreg str
      unfold sampleDone
      split
      case h_1 => exact neverReturns_sampleChange _
      case h_2 => exact neverReturns_pure _ }

/-- The command line, at the given position. -/
def sampleEnv (str : Bytes) (effectiveLen pc : Nat) : Env :=
  { mustUndo := true
    undoEnabled := true
    isCmdline := true
    locals := Table.globals
    cmdline := { str := str, effectiveLen := effectiveLen, pc := pc } }

/-- The state at program start. -/
def sampleStart : State SampleWorld SampleReg :=
  { machine := Machine.init 0 codepageUtf8
    editor :=
      { expr := Expressions.initial
        loopStack := []
        messages := []
        world := SampleWorld.empty }
    gotoSkipLabel := []
    gotoBackupPc := none
    isExecuting := false
    returnArgs := 0 }

/-- The state after the first characters of a macro which has no errors. -/
def sampleSteps (text : Bytes) : Nat -> State SampleWorld SampleReg
  | 0 => sampleStart
  | count + 1 =>
      let s := sampleSteps text count
      match stepCharacter sampleHost (sampleEnv text text.length 0) text s with
      | .ok _ t _ => t
      | _ => s

end Parser
end SciTECO
