import SciTECO.Characters
import SciTECO.Parser.Comments

/-!
# Verbatim string arguments

The string argument of `^U` and of the help command is taken as it is.  It ends
at the character chosen with `@`, which is the same in both cases, or at the
closing brace that belongs to `{`.
-/

namespace SciTECO
namespace Parser

open Undoable

variable {W Reg : Type} {host : Host W Reg} {env : Env}

/-!
## Texts and their terminators
-/

/-- A text in which the braces are balanced. -/
inductive Balanced : List Gunichar -> Prop
  | nil : Balanced []
  | char {chr : Gunichar} {rest : List Gunichar}
      (hopen : chr ≠ '{'.toNat) (hclose : chr ≠ '}'.toNat)
      (hrest : Balanced rest) : Balanced (chr :: rest)
  | nest {inner rest : List Gunichar} (hinner : Balanced inner)
      (hrest : Balanced rest) :
      Balanced ('{'.toNat :: inner ++ '}'.toNat :: rest)

/-- Characters that differ in case only. -/
def SameLetter (glib : Glib) (x c : Gunichar) : Prop :=
  glib.toUpper x = glib.toUpper c

/-- The upper case of `g_unichar_toupper()` is a brace for a brace only. -/
def BraceHasNoCase (glib : Glib) : Prop :=
  forall chr, glib.toUpper chr = '{'.toNat <-> chr = '{'.toNat

/-- `Delimited glib opening text closing`: a text between the terminators
`opening` and `closing`. -/
inductive Delimited (glib : Glib) :
    Gunichar -> List Gunichar -> Gunichar -> Prop
  | letter {c : Gunichar} {text : List Gunichar} (hbrace : c ≠ '{'.toNat)
      (hnoop : isNoop c = false)
      (htext : forall x, x ∈ text -> ¬ SameLetter glib x c) :
      Delimited glib c text c
  | braces {text : List Gunichar} (htext : Balanced text) :
      Delimited glib '{'.toNat text '}'.toNat

/-!
## The machine in an argument
-/

/-- The string machine before an argument. -/
structure Unfilled (e : ExpectString Reg) : Prop where
  string : e.string = []
  insertLen : e.insertLen = 0
  nesting : e.nesting = 1
  start : e.machine.core.current = SBState.start

/-- The string machine between two commands, with the default terminator. -/
structure Idle (e : ExpectString Reg) : Prop extends Unfilled e where
  escapeChar : e.machine.core.escapeChar = 0x1B

/-- A command with a verbatim argument is followed by the terminator. -/
structure AwaitsTerminator (cmd : StringCommand) (s : State W Reg) :
    Prop where
  current : s.machine.current = MainState.expectstring cmd
  verbatim : cmd.stringBuilding = false
  modifierAt : s.machine.flags.modifierAt = true
  unfilled : Unfilled s.machine.expectstring

/-- What has been collected of a text: nothing in the parse-only modes. -/
def State.collects (s : State W Reg) (text : List Gunichar) : Bytes :=
  if s.mode = Mode.normal then encoded text else []

/-- The state with more text in the argument and another nesting level. -/
def State.collected (s : State W Reg) (text : List Gunichar)
    (change : Int) : State W Reg :=
  s.mapString (fun e =>
    { e with
      string := e.string ++ s.collects text
      insertLen := e.insertLen + (s.collects text).length
      nesting := e.nesting + change })

/-- The state behind the terminator after `@`. -/
def State.opened (s : State W Reg) (escapeChar : Gunichar) : State W Reg :=
  (s.mapFlags (fun f => { f with modifierAt := false })).mapString (fun e =>
    { e with
      machine :=
        e.machine.mapCore (fun c => { c with escapeChar := escapeChar }) })

/-- How `chr` changes the nesting level. -/
def nestingChange (glib : Glib) (escapeChar chr : Gunichar) : Int :=
  if escapeChar = '{'.toNat then
    if chr = '{'.toNat then 1 else if chr = '}'.toNat then -1 else 0
  else if glib.toUpper chr = escapeChar then -1
  else 0

theorem result_countNesting {s : State W Reg} (chr : Gunichar)
    (h : s.machine.expectstring.machine.core.current = SBState.start) :
    result (countNesting host env chr) s =
      .ok ((), s.mapString (fun e =>
        { e with
          nesting := e.nesting + nestingChange host.glib
            s.machine.expectstring.machine.core.escapeChar chr })) := by
  unfold countNesting
  rw [result_bind_of_ok (result_get s)]
  simp only [h, ne_eq, not_true_eq_false, if_false]
  rw [show (if s.machine.expectstring.machine.core.escapeChar = '{'.toNat then
      if chr = '{'.toNat then (1 : Int)
      else if chr = '}'.toNat then -1 else 0
    else if host.glib.toUpper chr =
      s.machine.expectstring.machine.core.escapeChar then -1
    else 0) = nestingChange host.glib
      s.machine.expectstring.machine.core.escapeChar chr from rfl]
  split
  · next hzero =>
      rw [hzero]
      simp [State.mapString]
  · rw [result_bind_of_ok (result_undo _ s)]
    rfl

theorem result_evalAt {s : State W Reg}
    (h : s.machine.flags.modifierAt = false) :
    result (evalAt env) s = .ok (false, s) := by
  unfold evalAt
  rw [result_bind_of_ok (result_get s), h]
  rfl

theorem result_accumulateString {cmd : StringCommand} {s : State W Reg}
    (hcmd : cmd.stringBuilding = false) (chr : Gunichar) :
    result (accumulateString host env cmd chr) s =
      .ok (MainState.expectstring cmd, s.collected [chr] 0) := by
  have hone : encoded [chr] = unicharToUtf8 chr := by simp [encoded]
  unfold accumulateString
  rw [result_bind_of_ok (result_get s)]
  by_cases hmode : s.mode = Mode.normal
  · simp only [hmode, hcmd, decide_true, if_true, Bool.false_eq_true, if_false]
    rw [result_bind_of_ok (result_undo _ s),
      result_bind_of_ok (result_pure _ s),
      result_bind_of_ok (result_modify _ s),
      result_bind_of_ok (result_get _),
      result_bind_of_ok (result_undo _ _),
      result_bind_of_ok (result_modify _ _)]
    simp [State.collected, State.collects, State.mapString, hmode, hone]
  · simp only [hmode, hcmd, decide_false, Bool.false_eq_true, if_false]
    rw [result_bind_of_ok (result_pure _ s),
      result_bind_of_ok (result_get _),
      result_bind_of_ok (result_undo _ _),
      result_bind_of_ok (result_modify _ _)]
    simp [State.collected, State.collects, State.mapString, hmode]

@[simp] theorem collected_collected (s : State W Reg)
    (first second : List Gunichar) (m n : Int) :
    (s.collected first m).collected second n =
      s.collected (first ++ second) (m + n) := by
  unfold State.collected State.collects encoded State.mapString State.mode
  by_cases hmode : s.machine.flags.mode = Mode.normal
  · simp [hmode, Nat.add_assoc, Int.add_assoc]
  · simp [hmode, Int.add_assoc]

/-- Nothing has been collected yet. -/
@[simp] theorem collected_nil (s : State W Reg) : s.collected [] 0 = s := by
  simp [State.collected, State.collects, encoded, State.mapString]

@[simp] theorem nesting_collected (s : State W Reg) (text : List Gunichar)
    (change : Int) :
    (s.collected text change).machine.expectstring.nesting =
      s.machine.expectstring.nesting + change := rfl

/-!
## Reading the text
-/

/-- The machine behind the terminator `opening`. -/
structure Reading (cmd : StringCommand) (escapeChar : Gunichar)
    (s : State W Reg) : Prop where
  current : s.machine.current = MainState.expectstring cmd
  verbatim : cmd.stringBuilding = false
  modifierAt : s.machine.flags.modifierAt = false
  start : s.machine.expectstring.machine.core.current = SBState.start
  escapeChar : s.machine.expectstring.machine.core.escapeChar = escapeChar

theorem Reading.collected {cmd : StringCommand} {escapeChar : Gunichar}
    {s : State W Reg} (h : Reading cmd escapeChar s) (text : List Gunichar)
    (change : Int) : Reading cmd escapeChar (s.collected text change) :=
  ⟨h.current, h.verbatim, h.modifierAt, h.start, h.escapeChar⟩

theorem Reading.input {cmd : StringCommand} {escapeChar : Gunichar}
    {s : State W Reg} (h : Reading cmd escapeChar s) (chr : Gunichar)
    {post : MainState -> State W Reg -> Prop}
    {fail : TecoError -> State W Reg -> Prop} {bad : Fault -> Prop} :
    wp (expectstringInput host env cmd chr) post fail bad s <->
      wp (do
        let s <- get
        if s.machine.expectstring.nesting = 0 then
          finishString host env cmd
        else
          accumulateString host env cmd chr) post fail bad
        (s.collected [] (nestingChange host.glib escapeChar chr)) := by
  unfold expectstringInput
  rw [wp_bind_of_ok (result_get s),
    if_neg (by rw [h.modifierAt]; exact fun hand => absurd hand.1 (by decide)),
    wp_bind_of_ok (result_evalAt h.modifierAt), if_neg (by decide),
    wp_bind_of_ok (result_countNesting chr h.start), h.escapeChar]
  simp [State.collected, State.collects, encoded]

variable [DecidableEq Reg]

/-- A machine that stays in its state. -/
theorem machineInput_stays {s t : State W Reg} {chr : Gunichar}
    (hinput : result (stateInput host env s.machine.current chr) s =
      .ok (s.machine.current, t))
    (hcurrent : t.machine.current = s.machine.current) :
    result (machineInput host env chr) s = .ok ((), t) := by
  unfold machineInput
  rw [result_bind_of_ok (result_get s), result_bind_of_ok hinput]
  unfold enterState
  rw [result_bind_of_ok (result_get t), if_pos hcurrent.symm]
  rfl

/-- A character that does not end the argument. -/
theorem Reading.character {cmd : StringCommand} {escapeChar : Gunichar}
    {s : State W Reg} (h : Reading cmd escapeChar s) {chr : Gunichar}
    (hnesting : s.machine.expectstring.nesting +
      nestingChange host.glib escapeChar chr ≠ 0) :
    result (machineInput host env chr) s =
      .ok ((), s.collected [chr]
        (nestingChange host.glib escapeChar chr)) := by
  apply machineInput_stays
  · rw [h.current, stateInput, result_congr_of_wp (fun _ _ _ => h.input chr),
      result_bind_of_ok (result_get _), nesting_collected, if_neg hnesting,
      result_accumulateString h.verbatim, collected_collected, Int.add_zero,
      List.nil_append]
  · rfl

/-- A text without the terminator is collected. -/
theorem Reading.letters {cmd : StringCommand} {escapeChar : Gunichar}
    {s : State W Reg} (h : Reading cmd escapeChar s)
    (hbrace : escapeChar ≠ '{'.toNat)
    (hnesting : s.machine.expectstring.nesting ≠ 0)
    {text : List Gunichar}
    (htext : forall x, x ∈ text -> host.glib.toUpper x ≠ escapeChar) :
    result (feed host env text) s = .ok ((), s.collected text 0) := by
  induction text generalizing s with
  | nil => rw [collected_nil, feed, result_pure]
  | cons chr text ih =>
      have hchange : nestingChange host.glib escapeChar chr = 0 := by
        unfold nestingChange
        rw [if_neg hbrace, if_neg (htext chr List.mem_cons_self)]
      have hchr := @Reading.character _ _ host env _ _ _ _ h chr
        (by rw [hchange, Int.add_zero]; exact hnesting)
      rw [hchange] at hchr
      have hnext : (s.collected [chr] 0).machine.expectstring.nesting ≠ 0 := by
        rw [nesting_collected, Int.add_zero]
        exact hnesting
      rw [feed, result_bind_of_ok hchr,
        ih (h.collected [chr] 0) hnext
          (fun x hx => htext x (List.mem_cons_of_mem chr hx)),
        collected_collected]
      rfl

/-- A text with balanced braces is collected within braces. -/
theorem Reading.balanced {cmd : StringCommand} {s : State W Reg}
    (h : Reading cmd '{'.toNat s)
    (hnesting : 0 < s.machine.expectstring.nesting) {text : List Gunichar}
    (htext : Balanced text) :
    result (feed host env text) s = .ok ((), s.collected text 0) := by
  induction htext generalizing s with
  | nil => rw [collected_nil, feed, result_pure]
  | @char chr rest hopen hclose hrest ih =>
      have hchange : nestingChange host.glib '{'.toNat chr = 0 := by
        unfold nestingChange
        rw [if_pos rfl, if_neg hopen, if_neg hclose]
      have hchr := @Reading.character _ _ host env _ _ _ _ h chr
        (by rw [hchange]; omega)
      rw [hchange] at hchr
      rw [feed, result_bind_of_ok hchr, ih (h.collected [chr] 0)
        (by rw [nesting_collected]; omega), collected_collected]
      rfl
  | @nest inner rest hinner hrest ihinner ihrest =>
      have hopen : nestingChange host.glib '{'.toNat '{'.toNat = 1 := rfl
      have hclose : nestingChange host.glib '{'.toNat '}'.toNat = -1 := rfl
      have hfirst := @Reading.character _ _ host env _ _ _ _ h '{'.toNat
        (by rw [hopen]; omega)
      have hinside := ihinner (h.collected ['{'.toNat] 1)
        (by rw [nesting_collected]; omega)
      rw [collected_collected] at hinside
      have hlast := @Reading.character _ _ host env _ _ _ _
        (h.collected (['{'.toNat] ++ inner) (1 + 0)) '}'.toNat
        (by rw [hclose, nesting_collected]; omega)
      rw [hclose, collected_collected] at hlast
      have hafter := ihrest
        (h.collected (['{'.toNat] ++ inner ++ ['}'.toNat]) (1 + 0 + -1))
        (by rw [nesting_collected]; omega)
      rw [collected_collected] at hafter
      rw [List.cons_append, feed, result_bind_of_ok hfirst, hopen, feed_append,
        result_bind_of_ok hinside, feed, result_bind_of_ok hlast, hafter]
      simp

omit [DecidableEq Reg] in
theorem result_stringProcess {cmd : StringCommand} {s : State W Reg}
    (hcmd : cmd.stringBuilding = false) :
    result (stringProcess host env cmd) s = .ok ((), s) := by
  have hnone : cmd.isFile = false ∧ cmd.isInteractive = false := by
    revert hcmd
    cases cmd <;> decide
  unfold stringProcess
  rw [result_bind_of_ok (result_get s)]
  simp [hnone]

/-- The end of the argument. -/
theorem Reading.closing {cmd : StringCommand} {escapeChar : Gunichar}
    {s : State W Reg} (h : Reading cmd escapeChar s) {chr : Gunichar}
    (hnesting : s.machine.expectstring.nesting +
      nestingChange host.glib escapeChar chr = 0)
    {post : Unit -> State W Reg -> Prop}
    {fail : TecoError -> State W Reg -> Prop} {bad : Fault -> Prop} :
    wp (machineInput host env chr) post fail bad s <->
      wp (do
        let next <- ensuring
          (stringDone host env cmd s.machine.expectstring.string)
          (resetString env cmd)
        enterState host env next) post fail bad
        (s.collected [] (nestingChange host.glib escapeChar chr)) := by
  have hstring : (s.collected []
      (nestingChange host.glib escapeChar chr)).machine.expectstring.string =
        s.machine.expectstring.string := by
    simp [State.collected, State.collects, State.mapString, encoded]
  unfold machineInput
  rw [wp_bind_of_ok (result_get s), h.current, stateInput, wp_bind, h.input,
    wp_bind_of_ok (result_get _), nesting_collected, if_pos hnesting,
    finishString, wp_bind_of_ok (result_stringProcess h.verbatim),
    wp_bind_of_ok (result_get _), hstring, <- wp_bind]

/-!
## Terminators
-/

omit [DecidableEq Reg] in
theorem result_setEscapeChar (chr : Gunichar) (s : State W Reg) :
    result (setEscapeChar env chr) s =
      .ok ((), s.mapString (fun e =>
        { e with
          machine :=
            e.machine.mapCore (fun c => { c with escapeChar := chr }) })) := by
  unfold setEscapeChar getCore undoCore modifyCore
  rw [result_zoom]
  simp [result_bind, result_undo]
  rfl

theorem AwaitsTerminator.noop {cmd : StringCommand} {s : State W Reg}
    (h : AwaitsTerminator cmd s) {spaces : List Gunichar}
    (hspaces : forall x, x ∈ spaces -> isNoop x = true) :
    result (feed host env spaces) s = .ok ((), s) := by
  induction spaces with
  | nil => rw [feed, result_pure]
  | cons chr spaces ih =>
      have hchr : result (machineInput host env chr) s = .ok ((), s) := by
        apply machineInput_stays _ rfl
        rw [h.current, stateInput, expectstringInput,
          result_bind_of_ok (result_get s),
          if_pos ⟨h.modifierAt, hspaces chr List.mem_cons_self⟩, result_pure]
      rw [feed, result_bind_of_ok hchr]
      exact ih (fun x hx => hspaces x (List.mem_cons_of_mem chr hx))

theorem AwaitsTerminator.opening {cmd : StringCommand} {s : State W Reg}
    (h : AwaitsTerminator cmd s) {c : Gunichar} (hnoop : isNoop c = false) :
    result (machineInput host env c) s =
      .ok ((), s.opened (host.glib.toUpper c)) := by
  apply machineInput_stays
  · rw [h.current, stateInput, expectstringInput,
      result_bind_of_ok (result_get s), if_neg (by rw [hnoop]; simp),
      evalAt, bind_assoc, result_bind_of_ok (result_get s)]
    simp only [h.modifierAt, if_true, bind_assoc]
    rw [undoFlags, bind_assoc, result_bind_of_ok (result_get s),
      result_bind_of_ok (result_undo _ s),
      result_bind_of_ok (result_modify _ s),
      result_bind_of_ok (result_pure true _), if_pos rfl,
      result_bind_of_ok (result_setEscapeChar _ _), result_pure]
    rfl
  · rfl

omit [DecidableEq Reg] in
theorem AwaitsTerminator.opened {cmd : StringCommand} {s : State W Reg}
    (h : AwaitsTerminator cmd s) (escapeChar : Gunichar) :
    Reading cmd escapeChar (s.opened escapeChar) :=
  { current := h.current
    verbatim := h.verbatim
    modifierAt := rfl
    start := by
      show (StringBuilding.mapCore _ _).core.current = SBState.start
      rw [StringBuilding.core_mapCore]
      exact h.unfilled.start
    escapeChar := by
      show (StringBuilding.mapCore _ _).core.escapeChar = escapeChar
      rw [StringBuilding.core_mapCore] }

/-- The text up to the second terminator is collected. -/
theorem Delimited.collected {cmd : StringCommand} {s : State W Reg}
    {opening closing : Gunichar} {text : List Gunichar}
    (htext : Delimited host.glib opening text closing)
    (hglib : BraceHasNoCase host.glib)
    (h : Reading cmd (host.glib.toUpper opening) s)
    (hnesting : s.machine.expectstring.nesting = 1) :
    result (feed host env text) s = .ok ((), s.collected text 0) ∧
      nestingChange host.glib (host.glib.toUpper opening) closing = -1 := by
  cases htext with
  | letter hbrace hnoop htext =>
      have hupper : host.glib.toUpper opening ≠ '{'.toNat :=
        fun heq => hbrace ((hglib opening).mp heq)
      constructor
      · exact h.letters hupper (by rw [hnesting]; decide) htext
      · rw [nestingChange, if_neg hupper, if_pos rfl]
  | braces htext =>
      rw [(hglib '{'.toNat).mpr rfl] at h ⊢
      constructor
      · exact h.balanced (by rw [hnesting]; decide) htext
      · rfl

theorem Delimited.noop {glib : Glib} {opening closing : Gunichar}
    {text : List Gunichar} (h : Delimited glib opening text closing) :
    isNoop opening = false := by
  cases h with
  | letter hbrace hnoop htext => exact hnoop
  | braces htext => rfl

/-!
## The end of the argument
-/

omit [DecidableEq Reg] in
theorem wp_hostStringDone_expectstring {s : State W Reg}
    (cmd : StringCommand) (qreg : Option (Option Reg × QReg.Table))
    (str : Bytes) :
    wp (hostStringDone host env cmd qreg str)
      (fun _ t => t.machine.expectstring = s.machine.expectstring)
      (fun _ t => t.machine.expectstring = s.machine.expectstring)
      (fun _ => True) s := by
  unfold hostStringDone getMode onHost
  simp only [wp_bind, wp_get, wp_pure, wp_ite, wp_zoom]
  split
  · trivial
  · exact wp_of_forall (fun _ _ => rfl) (fun _ _ => rfl) (fun _ => trivial)

omit [DecidableEq Reg] in
/-- The callback does not touch the string machine. -/
theorem wp_stringDone_verbatim {cmd : StringCommand} {s : State W Reg}
    (hcmd : cmd.stringBuilding = false) (str : Bytes) :
    wp (stringDone host env cmd str)
      (fun next t => next = MainState.start ∧
        t.machine.expectstring = s.machine.expectstring)
      (fun _ t => t.machine.expectstring = s.machine.expectstring)
      (fun _ => True) s := by
  cases cmd with
  | help =>
      show wp (do
        hostStringDone host env StringCommand.help none str
        pure MainState.start) _ _ _ s
      rw [wp_bind]
      apply wp_call (wp_hostStringDone_expectstring _ none str)
      intro _ t ht
      exact ⟨rfl, ht⟩
  | setqregstringNobuilding =>
      show wp (qregStringDone host env
        StringCommand.setqregstringNobuilding str) _ _ _ s
      unfold qregStringDone expectqregResults expectqregReset
      rw [bind_assoc, wp_bind_of_ok (result_get s)]
      cases s.machine.expectqreg with
      | none => trivial
      | some spec =>
          rw [wp_bind_of_ok (result_pure _ s), bind_assoc,
            wp_bind_of_ok (result_get s), bind_assoc,
            wp_bind_of_ok (result_undo _ s),
            wp_bind_of_ok (result_modify _ s), wp_bind]
          apply wp_call (wp_hostStringDone_expectstring _ _ str)
          intro _ t ht
          exact ⟨rfl, ht⟩
  | _ => cases hcmd

omit [DecidableEq Reg] in
theorem wp_resetString_verbatim {cmd : StringCommand} {s : State W Reg}
    (hcmd : cmd.stringBuilding = false)
    (hstart : s.machine.expectstring.machine.core.current = SBState.start) :
    wp (resetString env cmd : Exec (State W Reg) Unit)
      (fun _ t => Idle t.machine.expectstring) (fun _ _ => False)
      (fun _ => False) s := by
  have hlast : cmd.last = true := by
    revert hcmd
    cases cmd <;> decide
  unfold resetString
  rw [wp_bind_of_ok (result_get s), wp_bind_of_ok (result_undo _ s),
    wp_bind_of_ok (result_modify _ s), hlast, hcmd]
  simp only [if_true, Bool.false_eq_true, if_false]
  rw [wp_bind_of_ok (result_setEscapeChar _ _),
    wp_bind_of_ok (result_modify _ _), wp_bind_of_ok (result_undo _ _),
    wp_modify]
  exact
    { string := rfl
      insertLen := rfl
      nesting := rfl
      start := by
        show (StringBuilding.mapCore _ _).core.current = SBState.start
        rw [StringBuilding.core_mapCore]
        exact hstart
      escapeChar := by
        show (StringBuilding.mapCore _ _).core.escapeChar = 0x1B
        rw [StringBuilding.core_mapCore] }

omit [DecidableEq Reg] in
/-- The callback and what follows it. -/
theorem wp_finish_verbatim {cmd : StringCommand} {s : State W Reg}
    (hcmd : cmd.stringBuilding = false) (str : Bytes)
    (hstart : s.machine.expectstring.machine.core.current = SBState.start) :
    wp (do
        let next <- ensuring (stringDone host env cmd str)
          (resetString env cmd)
        enterState host env next)
      (fun _ t => t.machine.current = MainState.start ∧
        Idle t.machine.expectstring)
      (fun _ t => Idle t.machine.expectstring) (fun _ => True) s := by
  rw [wp_bind, wp_ensuring]
  apply wp_mono (wp_stringDone_verbatim hcmd str)
  · rintro next t ⟨rfl, ht⟩
    apply wp_mono (wp_resetString_verbatim hcmd (ht ▸ hstart))
    · intro _ u hu
      unfold enterState
      rw [wp_bind_of_ok (result_get u), wp_ite]
      split
      · next hcurrent => exact ⟨hcurrent.symm, hu⟩
      · rw [wp_bind_of_ok (result_undo _ u),
          wp_bind_of_ok (result_modify _ u)]
        exact ⟨rfl, hu⟩
    · exact fun _ _ hfalse => hfalse.elim
    · exact fun _ hfalse => hfalse.elim
  · intro e t ht
    apply wp_mono (wp_resetString_verbatim hcmd (ht ▸ hstart))
    · exact fun _ _ hidle => hidle
    · exact fun _ _ hfalse => hfalse.elim
    · exact fun _ hfalse => hfalse.elim
  · exact fun _ _ => trivial

/-- `done_cb()` receives a text, of which nothing is collected in the parse-only
modes.  The string machine is idle afterwards, even if the callback fails. -/
structure Receives (host : Host W Reg) (env : Env) (cmd : StringCommand)
    (s : State W Reg) (argument : List Gunichar) (escapeChar : Gunichar)
    (text : List Gunichar) : Prop where
  done : result (feed host env argument) s =
    result (do
      let next <- ensuring (stringDone host env cmd (s.collects text))
        (resetString env cmd)
      enterState host env next)
      ((s.opened escapeChar).collected text (-1))
  idle : wp (feed host env argument)
    (fun _ t => t.machine.current = MainState.start ∧
      Idle t.machine.expectstring)
    (fun _ t => Idle t.machine.expectstring) (fun _ => True) s

/-- The whole argument. -/
theorem AwaitsTerminator.argument {cmd : StringCommand} {s : State W Reg}
    {spaces text : List Gunichar} {opening closing : Gunichar}
    (hglib : BraceHasNoCase host.glib) (h : AwaitsTerminator cmd s)
    (hspaces : forall x, x ∈ spaces -> isNoop x = true)
    (htext : Delimited host.glib opening text closing)
    {post : Unit -> State W Reg -> Prop}
    {fail : TecoError -> State W Reg -> Prop} {bad : Fault -> Prop} :
    wp (feed host env (spaces ++ opening :: text ++ [closing])) post fail bad
        s <->
      wp (do
        let next <- ensuring (stringDone host env cmd (s.collects text))
          (resetString env cmd)
        enterState host env next) post fail bad
        ((s.opened (host.glib.toUpper opening)).collected text (-1)) := by
  let t := s.opened (host.glib.toUpper opening)
  have hreading : Reading cmd (host.glib.toUpper opening) t := h.opened _
  have hnesting : t.machine.expectstring.nesting = 1 := h.unfilled.nesting
  rcases @Delimited.collected _ _ host env _ _ _ _ _ _ htext hglib hreading
    hnesting with ⟨hfeed, hchange⟩
  have hstring : (t.collected text 0).machine.expectstring.string =
      s.collects text := by
    show s.machine.expectstring.string ++ s.collects text = s.collects text
    rw [h.unfilled.string, List.nil_append]
  rw [List.append_assoc, feed_append, wp_bind_of_ok (h.noop hspaces),
    List.cons_append, feed, wp_bind_of_ok (h.opening htext.noop),
    feed_append, wp_bind_of_ok hfeed, feed, feed, bind_pure_unit,
    (hreading.collected text 0).closing
      (by rw [nesting_collected, hnesting, hchange]; rfl),
    hstring, hchange, collected_collected, List.append_nil, Int.zero_add]

theorem braceHasNoCase_sampleGlib : BraceHasNoCase sampleGlib := by
  have hlower : forall chr : Nat, chr ≤ 122 ->
      (chr - 32 = 123 <-> chr = 123) := by
    intro chr hle
    omega
  intro chr
  show asciiToUpper chr = '{'.toNat <-> chr = '{'.toNat
  unfold asciiToUpper
  split
  · next h => exact hlower chr h.2
  · exact Iff.rfl

/-- `@?` with white space. -/
def helpArgument : State SampleWorld SampleReg :=
  (sampleStart.mapMachine (fun m =>
    { m with current := MainState.expectstring StringCommand.help })).mapFlags
      (fun f => { f with modifierAt := true })

theorem awaitsTerminator_helpArgument :
    AwaitsTerminator StringCommand.help helpArgument :=
  { current := rfl
    verbatim := rfl
    modifierAt := rfl
    unfilled :=
      { string := rfl, insertLen := rfl, nesting := rfl, start := rfl } }

/-- A verbatim argument is what stands between its terminators. -/
theorem feed_verbatim {cmd : StringCommand} {s : State W Reg}
    {spaces text : List Gunichar} {opening closing : Gunichar}
    (hglib : BraceHasNoCase host.glib) (h : AwaitsTerminator cmd s)
    (hspaces : forall x, x ∈ spaces -> isNoop x = true)
    (htext : Delimited host.glib opening text closing) :
    Receives host env cmd s (spaces ++ opening :: text ++ [closing])
      (host.glib.toUpper opening) text := by
  constructor
  · exact result_congr_of_wp (fun _ _ _ => h.argument hglib hspaces htext)
  · rw [h.argument hglib hspaces htext]
    exact wp_finish_verbatim h.verbatim _ (h.opened _).start

/-- White space, a NUL and braces between braces. -/
theorem feed_verbatim_braces :
    Receives sampleHost (sampleEnv [] 0 0) StringCommand.help helpArgument
      ([' '.toNat] ++ '{'.toNat ::
        [' '.toNat, 0, '{'.toNat, 'a'.toNat, '}'.toNat] ++ ['}'.toNat])
      (sampleHost.glib.toUpper '{'.toNat)
      [' '.toNat, 0, '{'.toNat, 'a'.toNat, '}'.toNat] := by
  have hinner : Balanced ['a'.toNat] :=
    .char (by decide) (by decide) .nil
  have htext : Balanced [' '.toNat, 0, '{'.toNat, 'a'.toNat, '}'.toNat] :=
    .char (by decide) (by decide)
      (.char (by decide) (by decide) (.nest hinner .nil))
  exact feed_verbatim braceHasNoCase_sampleGlib awaitsTerminator_helpArgument
    (by decide) (.braces htext)

end Parser
end SciTECO
