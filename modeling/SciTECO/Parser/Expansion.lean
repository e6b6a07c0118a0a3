import SciTECO.Parser.Escaping

/-!
# Expansions in string arguments

The constructs `^EQ`, `^E\`, `^EU`, `^E@` and `^EN` insert the contents of a
register with case folding.  A folded string is appended as a null-terminated
one.
-/

namespace SciTECO
namespace Parser

open Undoable
open QReg (Table)

variable {W Reg : Type}

/-!
## Case folding
-/

/-- The text between the null characters is UTF-8. -/
def CharacterText (str : Bytes) : Prop :=
  forall piece, piece ∈ str.splitOn 0 -> ValidUtf8 piece

instance (str : Bytes) : Decidable (CharacterText str) :=
  inferInstanceAs
    (Decidable (forall piece, piece ∈ str.splitOn 0 ->
      validateUtf8 piece.length piece = true))

/-- Fold what stands between the null characters. -/
def foldPieces (fold : Bytes -> Bytes) (str : Bytes) : Option Bytes :=
  if CharacterText str then
    some ([(0 : UInt8)].intercalate ((str.splitOn 0).map fold))
  else
    none

/-- A text with every character folded according to the mode.  Bytes which are
no characters cannot be folded. -/
def foldedText (glib : Glib) (core : SBCore) (str : Bytes) : Option Bytes :=
  match core.mode with
  | .upper =>
      if core.codepage = codepageUtf8 then foldPieces glib.strUp str
      else some (str.map (fun b => UInt8.ofNat (asciiToUpper b.toNat)))
  | .lower =>
      if core.codepage = codepageUtf8 then foldPieces glib.strDown str
      else some (str.map (fun b => UInt8.ofNat (asciiToLower b.toNat)))
  | _ => some str

/-- The mode does not leave the characters alone. -/
def SBMode.folds : SBMode -> Bool
  | upper => true
  | lower => true
  | _ => false

/-- A text can be folded: it has no null characters, and it is UTF-8 if this is
the codepage. -/
def Foldable (core : SBCore) (str : Bytes) : Prop :=
  core.mode.folds = true ->
    (0 : UInt8) ∉ str ∧ (core.codepage = codepageUtf8 -> ValidUtf8 str)

/-- The contents of a register can be folded. -/
def Whole (core : SBCore) (contents : Option Bytes) : Prop :=
  core.mode.folds = true ->
    exists str, contents = some str ∧ Foldable core str

/-- The constructs with a register. -/
inductive Expansion where
  | num
  | u
  | q
  | quote
  | n
deriving DecidableEq, Repr

/-- A code which is documented: in UTF-8 it is not truncated. -/
def documentedC (glib : Glib) (core : SBCore) (value : Int) : Option Bytes :=
  if core.codepage = codepageUtf8 ∧ 2 ^ 32 ≤ value then none
  else appendC glib core value

namespace Expansion

variable (host : Host W Reg) (env : Env)

/-- The state which reads the register. -/
def state : Expansion -> SBState
  | num => SBState.ctleNum
  | u => SBState.ctleU
  | q => SBState.ctleQ
  | quote => SBState.ctleQuote
  | n => SBState.ctleN

/-- What the code appends for a register. -/
def appended : Expansion -> Reg -> Table -> Exec (SBScope W Reg) Bytes
  | num => expandNum host env
  | u => expandU host
  | q => expandQ host
  | quote => expandQuoted host host.glib.shellQuote
  | n => expandQuoted host globberEscapePattern

/-- The folded contents, quoted if they have no null characters. -/
def quoted (quote : Bytes -> Bytes) (reg : Reg) (table : Table) :
    Exec (SBScope W Reg) (Option Bytes) := do
  let contents <- onEditor (host.getString reg)
  if (0 : UInt8) ∈ contents.getD [] then
    throw (qregContainsNull (host.name reg) table)
  else do
    let core <- getCore
    pure (foldedText host.glib core (quote (contents.getD [])))

/-- The documented expansion for a register: its number, the character with the
code, or its contents, with case folding. -/
def documented : Expansion -> Reg -> Table ->
    Exec (SBScope W Reg) (Option Bytes)
  | num => fun reg _ => do
      let value <- onEditor (host.getInteger reg)
      let s <- get
      match formatNumber value (host.radix env.locals s.2) with
      | .error c => fault c
      | .ok digits => pure (foldedText host.glib s.1.core digits)
  | u => fun reg _ => do
      let value <- onEditor (host.getInteger reg)
      let core <- getCore
      match documentedC host.glib core value.toInt with
      | some text => pure (some text)
      | none =>
          throw
            { code := ErrorCode.codepoint
              message := "Q-Register \"" ++ printable (host.name reg) ++
                "\" does not contain a valid codepoint" }
  | q => fun reg _ => do
      let contents <- onEditor (host.getString reg)
      let core <- getCore
      pure (foldedText host.glib core (contents.getD []))
  | quote => quoted host host.glib.shellQuote
  | n => quoted host globberEscapePattern

/-- The quoted contents can be folded. -/
def QuoteFoldable (quote : Bytes -> Bytes) (reg : Reg) (t : SBScope W Reg) :
    Prop :=
  wp (onEditor (host.getString reg))
    (fun contents u => (0 : UInt8) ∉ contents.getD [] ->
      Foldable u.1.core (quote (contents.getD [])))
    (fun _ _ => True) (fun _ => True) t

/-- Nothing of the expansion is lost: the digits of the number are characters,
the code is not truncated, and the contents can be folded. -/
def Complete (reg : Reg) (t : SBScope W Reg) : Expansion -> Prop
  | num =>
      wp (onEditor (host.getInteger reg))
        (fun value u => forall digits,
          formatNumber value (host.radix env.locals u.2) = .ok digits ->
            (0 : UInt8) ∉ digits ∧ Foldable u.1.core digits)
        (fun _ _ => True) (fun _ => True) t
  | u =>
      wp (onEditor (host.getInteger reg))
        (fun value u => u.1.core.codepage = codepageUtf8 ->
          2 ^ 32 ≤ value.toInt ->
            unicharValidate (value.toInt.toNat % 2 ^ 32) = false)
        (fun _ _ => True) (fun _ => True) t
  | q =>
      wp (onEditor (host.getString reg))
        (fun contents u => Whole u.1.core contents) (fun _ _ => True)
        (fun _ => True) t
  | quote => QuoteFoldable host host.glib.shellQuote reg t
  | n => QuoteFoldable host globberEscapePattern reg t

end Expansion

section Single

variable {host : Host W Reg} {env : Env}

end Single

/-!
## Constructs
-/

/-- A construct: `^E`, which may be typed with a caret, the character that
selects it, and the name of a register. -/
structure CtleConstruct where
  opening : List Gunichar
  kind : Expansion
  letter : Gunichar
  name : List Gunichar
  opens : opening ∈ [[ctlKey 'E'.toNat], ['^'.toNat, 'E'.toNat],
    ['^'.toNat, 'e'.toNat]]
  selects : ctleState letter = some kind.state

/-- The characters of a construct. -/
def CtleConstruct.chars (c : CtleConstruct) : List Gunichar :=
  c.opening ++ c.letter :: c.name

section Reading

variable (host : Host W Reg) (env : Env)

/-- Feed characters to the string building machine. -/
def sbFeed : List Gunichar -> Exec (SBScope W Reg) Bytes
  | [] => pure []
  | chr :: rest => do
      let text <- sbInput host env true chr
      let more <- sbFeed rest
      pure (text ++ more)

/-- `teco_state_stringbuilding_*` becomes current. -/
def setCurrent (state : SBState) : Exec (SBScope W Reg) Unit :=
  modifyCore (fun c => { c with current := state })

/-- A character of a specification. -/
def specChar (chr : Gunichar) :
    Exec (SBScope W Reg) (Option (Option Reg × Table)) := fun t =>
  match t.1 with
  | .plain _ => fault Fault.nullPointer t
  | .withSpec _ _ inner =>
      zoom specLens.left
        (specInput host env true (sbInputOf host env chr inner) chr) t

/-- The register of a name, which is nothing but a complete specification. -/
def readName : List Gunichar ->
    Exec (SBScope W Reg) (Option (Option Reg × Table))
  | [] => pure none
  | chr :: rest => do
      let status <- specChar host env chr
      match status with
      | none => readName rest
      | some found => pure (if rest = [] then some found else none)

/-- The machine reads the register of a construct. -/
def CtleConstruct.reading (c : CtleConstruct) :
    Exec (SBScope W Reg) (Option (Option Reg × Table)) := do
  setCurrent SBState.ctle
  prepareSpec host env
  setCurrent c.kind.state
  readName host env c.name

/-- What follows once the register is known. -/
def expandFound {α : Type} (nothing : α)
    (expand : Reg -> Table -> Exec (SBScope W Reg) α) :
    Option (Option Reg × Table) -> Exec (SBScope W Reg) α
  | none => pure nothing
  | some (none, _) => fault Fault.nullPointer
  | some (some reg, table) => do
      let text <- expand reg table
      setCurrent SBState.start
      pure text

/-- The characters of a construct are a complete specification, or an error. -/
def CtleConstruct.Named (c : CtleConstruct) (t : SBScope W Reg) : Prop :=
  wp (c.reading host env) (fun found _ => found.isSome = true)
    (fun _ _ => True) (fun _ => True) t

end Reading

section Machine

variable {host : Host W Reg} {env : Env}

/-- The machine itself, without its inner one. -/
def coreOf (t : SBScope W Reg) : SBCore := t.1.core

theorem setCurrent_same {t : SBScope W Reg} {state : SBState}
    (h : (coreOf t).current = state) :
    (t.1.mapCore (fun c => { c with current := state }), t.2) = t := by
  have hcore : t.1.mapCore (fun c => { c with current := state }) = t.1 := by
    apply mapCore_same
    rw [<- h]
    rfl
  rw [hcore]

/-- The next state is entered. -/
def enterSB (env : Env) (next : SBState) (text : Bytes) :
    Exec (SBScope W Reg) Bytes := do
  let core <- getCore
  if next ≠ core.current then do
    undoCore env (fun c => { c with current := core.current })
    modifyCore (fun c => { c with current := next })
    pure text
  else
    pure text

theorem result_enterSB (next : SBState) (text : Bytes) (t : SBScope W Reg) :
    result (enterSB env next text) t =
      .ok (text, (t.1.mapCore (fun c => { c with current := next }), t.2)) := by
  unfold enterSB
  rw [result_bind_of_ok (result_getCore t)]
  split
  · unfold undoCore modifyCore
    rw [result_bind_of_ok (result_undo _ t),
      result_bind_of_ok (result_modify _ t), result_pure]
  · next hsame =>
      rw [setCurrent_same (of_not_not hsame).symm, result_pure]

theorem sbInputWith_eq
    (m : Exec (SBScope W Reg) (Option (Option Reg × Table)))
    (result : Bool) (chr : Gunichar) :
    sbInputWith host env m result chr = (do
      let p <- sbStateInput host env m result chr
      enterSB env p.1 p.2) := rfl

/-- The documented effect of a construct. -/
def CtleConstruct.documented (host : Host W Reg) (env : Env)
    (c : CtleConstruct) : Exec (SBScope W Reg) (Option Bytes) :=
  c.reading host env >>=
    expandFound (some []) (c.kind.documented host env)

/-- The expansion of a construct is complete for its register. -/
def CtleConstruct.Complete (host : Host W Reg) (env : Env) (c : CtleConstruct)
    (t : SBScope W Reg) : Prop :=
  wp (c.reading host env)
    (fun found u => forall reg table, found = some (some reg, table) ->
      c.kind.Complete host env reg u)
    (fun _ _ => True) (fun _ => True) t

end Machine

/-!
## Constructs in a string argument
-/

/-- A string argument is being typed. -/
structure Typing (cmd : StringCommand) (s : State W Reg) : Prop where
  current : s.machine.current = MainState.expectstring cmd
  building : cmd.stringBuilding = true
  modifierAt : s.machine.flags.modifierAt = false
  mode : s.mode = Mode.normal
  nesting : s.machine.expectstring.nesting ≠ 0

/-- The state with more text in the argument, and another string building
machine. -/
def State.typed (s : State W Reg) (p : Bytes × SBScope W Reg) : State W Reg :=
  (sbLens.set p.2 s).mapString (fun e =>
    { e with
      string := e.string ++ p.1
      insertLen := e.insertLen + p.1.length })

theorem Typing.typed {cmd : StringCommand} {s : State W Reg}
    (h : Typing cmd s) (p : Bytes × SBScope W Reg) : Typing cmd (s.typed p) :=
  { current := h.current
    building := h.building
    modifierAt := h.modifierAt
    mode := h.mode
    nesting := h.nesting }

theorem get_typed (s : State W Reg) (p : Bytes × SBScope W Reg) :
    sbLens.get (s.typed p) = p.2 := rfl

theorem typed_typed (s : State W Reg) (p q : Bytes × SBScope W Reg) :
    (s.typed p).typed q = s.typed (p.1 ++ q.1, q.2) := by
  simp [State.typed, State.mapString, sbLens, Nat.add_assoc]

theorem typed_nil (s : State W Reg) : s.typed ([], sbLens.get s) = s := by
  simp [State.typed, State.mapString, sbLens]

section Typing

variable {host : Host W Reg} {env : Env}

theorem Typing.accumulate {cmd : StringCommand} {s : State W Reg}
    (h : Typing cmd s) (chr : Gunichar) :
    result (accumulateString host env cmd chr) s =
      (result (sbInput host env true chr) (sbLens.get s)).map
        (fun p => (MainState.expectstring cmd, s.typed p)) := by
  unfold accumulateString
  rw [result_bind_of_ok (result_get s)]
  simp only [h.mode, h.building, decide_true, if_true]
  rw [result_bind_of_ok (result_undo _ s), result_bind, result_zoom]
  cases result (sbInput host env true chr) (sbLens.get s) with
  | error e => rfl
  | ok p =>
      show result _ (sbLens.set p.2 s) = _
      rw [result_bind_of_ok (result_modify _ _),
        result_bind_of_ok (result_get _), result_bind_of_ok (result_undo _ _),
        result_bind_of_ok (result_modify _ _)]
      simp [State.typed, State.mapString, sbLens, Except.map]

/-- No character changes the nesting level. -/
def Unnested (host : Host W Reg) (env : Env) :
    List Gunichar -> SBScope W Reg -> Prop
  | [], _ => True
  | chr :: rest, t =>
      ((coreOf t).current = SBState.start ->
        nestingChange host.glib (coreOf t).escapeChar chr = 0) ∧
      wp (sbInput host env true chr) (fun _ u => Unnested host env rest u)
        (fun _ _ => True) (fun _ => True) t

/-!
### Characters of a construct
-/

/-- A part of a string argument: a construct, or any other characters. -/
inductive Piece where
  | construct (c : CtleConstruct)
  | other (chars : List Gunichar)

def Piece.chars : Piece -> List Gunichar
  | construct c => c.chars
  | other chars => chars

/-- What the documentation says about a piece.  Only constructs have an
expansion. -/
def Piece.documented (host : Host W Reg) (env : Env) :
    Piece -> Exec (SBScope W Reg) (Option Bytes)
  | construct c => c.documented host env
  | other chars => some <$> sbFeed host env chars

/-- A piece stands where string building reads it as one. -/
def Piece.Fits (host : Host W Reg) (env : Env) (s : State W Reg) :
    Piece -> Prop
  | construct c =>
      s.machine.expectstring.machine.core.current = SBState.start ∧
        s.machine.expectstring.machine.core.mode ≠ SBMode.disabled ∧
        c.Named host env (sbLens.get s) ∧
        forall chr, chr ∈ c.opening.head? ->
          nestingChange host.glib
            s.machine.expectstring.machine.core.escapeChar chr = 0
  | other chars => Unnested host env chars (sbLens.get s)

/-- The expansion of a piece is complete. -/
def Piece.Complete (host : Host W Reg) (env : Env) (s : State W Reg) :
    Piece -> Prop
  | construct c => c.Complete host env (sbLens.get s)
  | other _ => True

variable [DecidableEq Reg]

/-- A character which does not change the nesting level. -/
theorem Typing.machineInput {cmd : StringCommand} {s : State W Reg}
    (h : Typing cmd s) {chr : Gunichar}
    (hchange : s.machine.expectstring.machine.core.current = SBState.start ->
      nestingChange host.glib s.machine.expectstring.machine.core.escapeChar
        chr = 0) :
    result (machineInput host env chr) s =
      (result (sbInput host env true chr) (sbLens.get s)).map
        (fun p => ((), s.typed p)) := by
  have hcount : result (countNesting host env chr) s = .ok ((), s) := by
    by_cases hstart :
        s.machine.expectstring.machine.core.current = SBState.start
    · rw [result_countNesting chr hstart, hchange hstart]
      simp [State.mapString]
    · exact result_countNesting_inside chr hstart
  have hinput : result (stateInput host env s.machine.current chr) s =
      (result (sbInput host env true chr) (sbLens.get s)).map
        (fun p => (s.machine.current, s.typed p)) := by
    rw [h.current, stateInput, expectstringInput,
      result_bind_of_ok (result_get s),
      if_neg (fun hand => absurd (h.modifierAt.symm.trans hand.1) (by decide)),
      result_bind_of_ok (result_evalAt h.modifierAt), if_neg (by decide),
      result_bind_of_ok hcount, result_bind_of_ok (result_get s),
      if_neg h.nesting, h.accumulate chr]
  cases hchr : result (sbInput host env true chr) (sbLens.get s) with
  | error e =>
      rw [hchr] at hinput
      unfold Parser.machineInput
      rw [result_bind_of_ok (result_get s), result_bind, hinput]
      rfl
  | ok p =>
      rw [hchr] at hinput
      exact machineInput_stays hinput rfl

/-- The argument is what string building makes of it. -/
theorem Typing.feed {cmd : StringCommand} {s : State W Reg}
    (h : Typing cmd s) {chars : List Gunichar}
    (hchars : Unnested host env chars (sbLens.get s)) :
    result (feed host env chars) s =
      (result (sbFeed host env chars) (sbLens.get s)).map
        (fun p => ((), s.typed p)) := by
  induction chars generalizing s with
  | nil =>
      show Except.ok ((), s) = Except.ok ((), s.typed ([], sbLens.get s))
      rw [typed_nil]
  | cons chr rest ih =>
      rcases hchars with ⟨hchange, hrest⟩
      rw [Parser.feed, result_bind, h.machineInput hchange, sbFeed, result_bind]
      cases hchr : result (sbInput host env true chr) (sbLens.get s) with
      | error e => rfl
      | ok p =>
          show result (Parser.feed host env rest) (s.typed p) =
            (result (sbFeed host env rest >>= fun more =>
              pure (p.1 ++ more)) p.2).map (fun p => ((), s.typed p))
          have hunnested := wp_result hrest hchr
          rw [ih (h.typed p) hunnested, get_typed, result_bind]
          cases result (sbFeed host env rest) p.2 with
          | error e => rfl
          | ok q =>
              show Except.ok ((), (s.typed p).typed q) = _
              rw [typed_typed]
              rfl

end Typing

/-!
## Null characters
-/

end Parser
end SciTECO
