import SciTECO.Eol.RoundTrip

/-!
# The callbacks of a running child

EC and EG run a main loop until the child has exited.  Its standard output is
read whenever there is some, and once more when it has exited (on UNIX).  What
has been read is inserted into the document or written to a register.
-/

namespace SciTECO
namespace Spawn

open Eol

/-- The string part of a `teco_qreg_t` with its `vtable`. -/
structure VTable (ρ : Type) where
  setString : Bytes -> ρ -> Except TecoError ρ
  appendString : Bytes -> ρ -> Except TecoError ρ
  getString : ρ -> Bytes
  get_set : forall {str : Bytes} {reg reg' : ρ},
    setString str reg = .ok reg' -> getString reg' = str
  get_append : forall {str : Bytes} {reg reg' : ρ},
    appendString str reg = .ok reg' -> getString reg' = getString reg ++ str

/-- `teco_qreg_plain_set_string()` and its siblings. -/
def VTable.plain : VTable Bytes where
  setString str _ := .ok str
  appendString str reg := .ok (reg ++ str)
  getString := id
  get_set h := (Except.ok.inj h).symm
  get_append h := (Except.ok.inj h).symm

/-- Where the output of a child goes: the text that has been inserted into the
document, or `register_argument`. -/
inductive Output (ρ : Type) where
  | document (added : Bytes)
  | register (reg : ρ)
deriving DecidableEq

/-- `teco_spawn_ctx.error`. -/
inductive Failure where
  | teco (e : TecoError)
  /-- An error of the domain `G_SPAWN_EXIT_ERROR`. -/
  | exit (code : Int)
  | killed
deriving DecidableEq

/-- `teco_bool_t`. -/
def tecoSuccess : Int := -1

def tecoFailure : Int := 0

/-- The parts of `teco_spawn_ctx` that depend on the output of the child.
`memory` has the results of the next calls of `teco_memory_check()`; later ones
succeed.  `quit` is set by `g_main_loop_quit()`. -/
structure Context (ρ : Type) where
  reader : Reader
  output : Output ρ
  textAdded : Bool
  memory : List (Option TecoError)
  error : Option Failure
  rc : Int
  quit : Bool
deriving DecidableEq

variable {ρ : Type}

namespace Context

/-- When the main loop is entered. -/
def start (stream : Stream) (output : Output ρ)
    (memory : List (Option TecoError)) : Context ρ :=
  { reader := stream.reader
    output := output
    textAdded := false
    memory := memory
    error := none
    rc := tecoFailure
    quit := false }

/-- An error ends the main loop. -/
def fail (e : TecoError) (s : Context ρ) : Context ρ :=
  { s with error := some (.teco e), quit := true }

/-- `teco_memory_check()`. -/
def memoryCheck (s : Context ρ) : Option TecoError × Context ρ :=
  match s.memory with
  | [] => (none, s)
  | result :: memory => (result, { s with memory := memory })

end Context

/-- Pass a block on. -/
def Output.add (vtable : VTable ρ) (textAdded : Bool) (block : Bytes) :
    Output ρ -> Except TecoError (Output ρ)
  | .document added => .ok (.document (added ++ block))
  | .register reg =>
      if textAdded then
        (vtable.appendString block reg).map .register
      else
        (vtable.setString block reg).map .register

/-- What has been inserted, or the string of the register. -/
def Output.text (vtable : VTable ρ) : Output ρ -> Bytes
  | .document added => added
  | .register reg => vtable.getString reg

/-- Enough for the `gio.buffer` of the reader. -/
def readerFuel : Nat := 1024 + 1

/-- The loop of `teco_spawn_stdout_watch_cb()`. -/
def stdoutLoop (vtable : VTable ρ) (readToEof : Bool) :
    Nat -> Context ρ -> Option (Context ρ)
  | 0, _ => none
  | fuel + 1, s =>
      match s.reader.convert true readerFuel with
      | none => none
      | some (.error e, reader) => some ({ s with reader := reader }.fail e)
      | some (.eof, reader) => some { s with reader := reader }
      | some (.normal block, reader) =>
          let s := { s with reader := reader }
          if readToEof = false ∧ block = [] then
            some s
          else
            match s.output.add vtable s.textAdded block with
            | .error e => some (s.fail e)
            | .ok output =>
                let s := { s with output := output, textAdded := true }
                match s.memoryCheck with
                | (some e, s) => some (s.fail e)
                | (none, s) => stdoutLoop vtable readToEof fuel s

/-- `teco_spawn_stdout_watch_cb()`. -/
def stdoutWatch (vtable : VTable ρ) (readToEof : Bool) (fuel : Nat)
    (s : Context ρ) : Option (Context ρ) :=
  if s.error = none then
    stdoutLoop vtable readToEof fuel s
  else
    -- source has already been dispatched
    some s

/-- `teco_spawn_stdin_watch_cb()`, given the result of
`teco_eol_writer_convert()`. -/
def stdinWatch (written : Except TecoError Nat) (s : Context ρ) : Context ρ :=
  if s.error = none then
    match written with
    | .error e => s.fail e
    | .ok _ => s
  else
    s

/-- The status of a child process that has been reaped. -/
inductive WaitStatus where
  | exited (code : Int)
  | signaled
deriving DecidableEq

/-- `teco_spawn_check_wait_status()`. -/
def checkWaitStatus : WaitStatus -> Option Failure
  | .exited code => if code = 0 then none else some (.exit code)
  | .signaled => some .killed

/-- `teco_spawn_child_watch_cb()`. -/
def childWatch (vtable : VTable ρ) (fuel : Nat) (status : WaitStatus)
    (s : Context ρ) : Option (Context ρ) :=
  if s.error = none then
    match stdoutWatch vtable false fuel s with
    | none => none
    | some s =>
        if s.error = none then
          match checkWaitStatus status with
          | none => some { s with quit := true }
          | some (.exit code) =>
              some { s with error := some (.exit code), rc := code.natAbs,
                            quit := true }
          | some e =>
              some { s with error := some e, rc := tecoFailure, quit := true }
        else
          some { s with quit := true }
  else
    some s

/-- What the main loop dispatches. -/
inductive Event where
  | stdin (written : Except TecoError Nat)
  | stdout
  | child (status : WaitStatus)
deriving DecidableEq

def dispatch (vtable : VTable ρ) (fuel : Nat) (s : Context ρ) :
    Event -> Option (Context ρ)
  | .stdin written => some (stdinWatch written s)
  | .stdout => stdoutWatch vtable false fuel s
  | .child status => childWatch vtable fuel status s

/-- `g_main_loop_run()` with the events in the order of their dispatch; `none`
if they do not end the loop. -/
def mainLoop (vtable : VTable ρ) (fuel : Nat) :
    List Event -> Context ρ -> Option (Context ρ)
  | [], s => if s.quit then some s else none
  | event :: events, s =>
      if s.quit then
        some s
      else
        match dispatch vtable fuel s event with
        | none => none
        | some s => mainLoop vtable fuel events s

end Spawn
end SciTECO
