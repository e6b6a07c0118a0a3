import SciTECO.Expressions.Undo
import SciTECO.Parser.Flow
import SciTECO.Parser.Parts
import SciTECO.Parser.SpecUndo

/-!
# Rewinding the main machine

The tokens of a command lead back to the state in which the command was begun.
This is meant up to what is set anew before it is read: the position in the
macro, the messages, and machines which have been allocated but not been used.
-/

namespace SciTECO
namespace Parser

open Undoable
open QReg (Table)

variable {W Reg : Type}

/-!
## Restored states
-/

/-- What may remain of a command that is taken back. -/
structure Tolerance (W : Type) where
  /-- The codepages of machines which have been allocated. -/
  codepages : Nat -> Prop
  /-- What only the host knows. -/
  world : W -> W -> Prop

structure Editor.Rewound (tol : Tolerance W) (e f : Editor W) : Prop where
  expr : e.expr = f.expr
  loopStack : e.loopStack = f.loopStack
  world : tol.world e.world f.world

structure Command.Rewound (tol : Tolerance W) (c d : Command W) : Prop where
  editor : c.editor.Rewound tol d.editor
  modifierColon : c.modifierColon = d.modifierColon

/-- What has been read of a string argument. -/
def State.argument (s : State W Reg) : Bytes × Nat × Int :=
  (s.machine.expectstring.string, s.machine.expectstring.insertLen,
    s.machine.expectstring.nesting)

/-- The state is restored, and the string argument up to a relation. -/
structure Rewound (tol : Tolerance W)
    (argument : Bytes × Nat × Int -> Bytes × Nat × Int -> Prop)
    (u s : State W Reg) : Prop where
  current : u.machine.current = s.machine.current
  flags : u.machine.flags = s.machine.flags
  nestLevel : u.machine.nestLevel = s.machine.nestLevel
  loopStackFp : u.machine.loopStackFp = s.machine.loopStackFp
  gotoTable : u.machine.gotoTable = s.machine.gotoTable
  gotoComplete : u.machine.gotoComplete = s.machine.gotoComplete
  gotoLabel : u.machine.gotoLabel = s.machine.gotoLabel
  gotoSkipLabel : u.gotoSkipLabel = s.gotoSkipLabel
  gotoBackupPc : u.gotoBackupPc = s.gotoBackupPc
  argument : argument u.argument s.argument
  building : u.machine.expectstring.machine.Same tol.codepages
    s.machine.expectstring.machine
  expectqreg : Option.Rel (QRegSpec.Same tol.codepages) u.machine.expectqreg
    s.machine.expectqreg
  editor : u.editor.Rewound tol s.editor

/-- The commands of the host take back what they do. -/
structure Host.Rewinds (host : Host W Reg) (env : Env) (tol : Tolerance W) :
    Prop where
  defaultCodepage : forall e, tol.codepages (host.defaultCodepage e)
  create : forall table name,
    Restores (Editor.Rewound tol) (host.create table name)
  getInteger : forall reg,
    Restores (Editor.Rewound tol) (host.getInteger reg)
  getString : forall reg,
    Restores (Editor.Rewound tol) (host.getString reg)
  run : forall cmd, Restores (Command.Rewound tol) (host.run cmd env)
  gotRegister : forall cmd reg table modifierAt,
    Restores (Command.Rewound tol)
      (host.gotRegister cmd env reg table modifierAt)
  stringCodepage : forall cmd reg,
    Restores (Command.Rewound tol) (host.stringCodepage cmd env reg)
  stringInitial : forall cmd,
    Restores (Command.Rewound tol) (host.stringInitial cmd env)
  stringProcess : forall cmd codepage str newChars,
    Restores (Command.Rewound tol)
      (host.stringProcess cmd env codepage str newChars)
  stringDone : forall cmd qreg str,
    Restores (Command.Rewound tol) (host.stringDone cmd env qreg str)
  /-- A number is read without running a macro. -/
  keepsLoops : forall reg, Keeps Editor.loopStack (host.getInteger reg)

/-- From every state, the tokens lead back. -/
abbrev Rewinds (tol : Tolerance W)
    (argument : Bytes × Nat × Int -> Bytes × Nat × Int -> Prop) {α : Type}
    (m : Exec (State W Reg) α) : Prop :=
  Restores (Rewound tol argument) m

section Parts

variable {host : Host W Reg} {env : Env} {tol : Tolerance W}
  {argument : Bytes × Nat × Int -> Bytes × Nat × Int -> Prop} {α : Type}

/-!
## Parts of the state
-/

variable (hundo : env.mustUndo = true)

include hundo

end Parts

end Parser
end SciTECO
