import SciTECO.Parser.Verbatim

/-!
# Escaping for string arguments

Auto-completion escapes what it inserts into a string argument.  Only the
terminators are escaped, but not the characters that are special in string
building.
-/

namespace SciTECO
namespace Parser

open Undoable

variable {W Reg : Type} {host : Host W Reg} {env : Env}

/-!
## The escape function
-/

/-- `TECO_CTL_KEY('Q')`. -/
def quoteChar : Gunichar := ctlKey 'Q'.toNat

/-- The characters behind `^Q`. -/
def sbNeedsEscape (glib : Glib) (escapeChar chr : Gunichar) : Bool :=
  glib.toUpper chr == escapeChar ||
    (escapeChar == '['.toNat && chr == ']'.toNat) ||
    (escapeChar == '{'.toNat && chr == '}'.toNat)

/-- The loop of `teco_machine_stringbuilding_escape()`, where the fuel is the
length. -/
def sbEscapeFrom (glib : Glib) (escapeChar : Gunichar) :
    Nat -> Bytes -> Bytes
  | _, [] => []
  | 0, _ => []
  | fuel + 1, b :: rest =>
      let chr := utf8GetChar (b :: rest)
      let lenc := utf8Skip b
      (if sbNeedsEscape glib escapeChar chr then
          [UInt8.ofNat (ctlKey 'Q'.toNat)]
        else []) ++ (b :: rest).take lenc ++
        sbEscapeFrom glib escapeChar fuel ((b :: rest).drop lenc)

/-- `teco_machine_stringbuilding_escape()`. -/
def sbEscape (glib : Glib) (core : SBCore) (str : Bytes) : Bytes :=
  sbEscapeFrom glib core.escapeChar str.length str

/-- The escaped characters. -/
def escapeChars (glib : Glib) (escapeChar : Gunichar)
    (text : List Gunichar) : List Gunichar :=
  text.flatMap (fun chr =>
    if sbNeedsEscape glib escapeChar chr then [quoteChar, chr] else [chr])

@[simp] theorem escapeChars_nil (glib : Glib) (escapeChar : Gunichar) :
    escapeChars glib escapeChar [] = [] := rfl

theorem escapeChars_escaped {glib : Glib} {escapeChar chr : Gunichar}
    (h : sbNeedsEscape glib escapeChar chr = true) (text : List Gunichar) :
    escapeChars glib escapeChar (chr :: text) =
      quoteChar :: chr :: escapeChars glib escapeChar text := by
  simp [escapeChars, h]

theorem escapeChars_other {glib : Glib} {escapeChar chr : Gunichar}
    (h : sbNeedsEscape glib escapeChar chr = false) (text : List Gunichar) :
    escapeChars glib escapeChar (chr :: text) =
      chr :: escapeChars glib escapeChar text := by
  simp [escapeChars, h]

theorem validText_escapeChars {glib : Glib} {escapeChar : Gunichar}
    {text : List Gunichar} (h : ValidText text) :
    ValidText (escapeChars glib escapeChar text) := by
  intro x hx
  rcases List.mem_flatMap.mp hx with ⟨chr, hchr, hmem⟩
  split at hmem
  · rcases List.mem_cons.mp hmem with rfl | hmem
    · rfl
    · rw [List.mem_singleton.mp hmem]
      exact h chr hchr
  · rw [List.mem_singleton.mp hmem]
    exact h chr hchr

theorem sbEscapeFrom_encoded {glib : Glib} {escapeChar : Gunichar}
    {text : List Gunichar} (h : ValidText text) (fuel : Nat)
    (hfuel : (encoded text).length ≤ fuel) :
    sbEscapeFrom glib escapeChar fuel (encoded text) =
      encoded (escapeChars glib escapeChar text) := by
  induction text generalizing fuel with
  | nil => cases fuel <;> rfl
  | cons chr text ih =>
      have hchr := lt_of_unicharValidate (h chr List.mem_cons_self)
      rcases unicharToUtf8_readsAs hchr with ⟨b, tail, heq, hread⟩
      rw [encoded_cons, heq] at hfuel ⊢
      cases fuel with
      | zero => cases hfuel
      | succ fuel =>
          have hrest : (encoded text).length ≤ fuel := by
            simp only [List.length_append, List.length_cons] at hfuel
            omega
          have htake : (b :: tail ++ encoded text).take (utf8Skip b) =
              unicharToUtf8 chr := by
            rw [hread.skip, heq]
            exact @List.take_left _ (b :: tail) (encoded text)
          have hdrop : (b :: tail ++ encoded text).drop (utf8Skip b) =
              encoded text := by
            rw [hread.skip]
            exact List.drop_left
          rw [List.cons_append, sbEscapeFrom, <- List.cons_append, hread.char,
            htake, hdrop,
            ih (fun x hx => h x (List.mem_cons_of_mem chr hx)) fuel hrest]
          cases hneeds : sbNeedsEscape glib escapeChar chr with
          | true =>
              rw [escapeChars_escaped hneeds, encoded_cons, encoded_cons,
                List.append_assoc]
              rfl
          | false =>
              rw [escapeChars_other hneeds, encoded_cons]
              rfl

/-- The characters of an escaped string. -/
theorem characters_sbEscape {glib : Glib} {core : SBCore} {str : Bytes}
    (h : ValidUtf8 str) :
    characters (sbEscape glib core str) =
      escapeChars glib core.escapeChar (characters str) := by
  rcases encoded_characters h with ⟨heq, hvalid⟩
  unfold sbEscape
  have hloop : sbEscapeFrom glib core.escapeChar str.length
      (encoded (characters str)) =
        encoded (escapeChars glib core.escapeChar (characters str)) :=
    sbEscapeFrom_encoded hvalid str.length (by rw [heq])
  rw [heq] at hloop
  rw [hloop, characters_encoded (validText_escapeChars hvalid)]

/-!
## The machine in a string argument
-/

/-- A string is being built in normal mode. -/
structure Building (cmd : StringCommand) (escapeChar : Gunichar)
    (state : SBState) (s : State W Reg) : Prop where
  current : s.machine.current = MainState.expectstring cmd
  building : cmd.stringBuilding = true
  modifierAt : s.machine.flags.modifierAt = false
  mode : s.mode = Mode.normal
  state : s.machine.expectstring.machine.core.current = state
  normal : s.machine.expectstring.machine.core.mode = SBMode.normal
  escapeChar : s.machine.expectstring.machine.core.escapeChar = escapeChar

/-- The state with more text in the argument. -/
def State.built (s : State W Reg) (state : SBState) (text : Bytes) :
    State W Reg :=
  s.mapString (fun e =>
    { e with
      string := e.string ++ text
      insertLen := e.insertLen + text.length
      machine := e.machine.mapCore (fun c => { c with current := state }) })

theorem mapCore_mapCore (sb : StringBuilding Reg) (f g : SBCore -> SBCore) :
    (sb.mapCore f).mapCore g = sb.mapCore (fun c => g (f c)) := by
  cases sb <;> rfl

theorem mapCore_same {sb : StringBuilding Reg} {f : SBCore -> SBCore}
    (h : f sb.core = sb.core) : sb.mapCore f = sb := by
  cases sb with
  | plain core =>
      show StringBuilding.plain (f core) = StringBuilding.plain core
      rw [show f core = core from h]
  | withSpec core spec inner =>
      show StringBuilding.withSpec (f core) spec inner = _
      rw [show f core = core from h]

@[simp] theorem built_built (s : State W Reg) (state next : SBState)
    (first second : Bytes) :
    (s.built state first).built next second =
      s.built next (first ++ second) := by
  simp [State.built, State.mapString, mapCore_mapCore, Nat.add_assoc]

theorem Building.built {cmd : StringCommand} {escapeChar : Gunichar}
    {state : SBState} {s : State W Reg} (h : Building cmd escapeChar state s)
    (next : SBState) (text : Bytes) :
    Building cmd escapeChar next (s.built next text) :=
  { current := h.current
    building := h.building
    modifierAt := h.modifierAt
    mode := h.mode
    state := by
      show (StringBuilding.mapCore _ _).core.current = next
      rw [StringBuilding.core_mapCore]
    normal := by
      show (StringBuilding.mapCore _ _).core.mode = SBMode.normal
      rw [StringBuilding.core_mapCore]
      exact h.normal
    escapeChar := by
      show (StringBuilding.mapCore _ _).core.escapeChar = escapeChar
      rw [StringBuilding.core_mapCore]
      exact h.escapeChar }

/-!
## Literal characters
-/

/-- The characters which are special in string building: `^` and some control
characters. -/
def specialChars : List Gunichar :=
  ['^'.toNat, ctlKey 'E'.toNat, ctlKey 'P'.toNat, quoteChar, ctlKey 'R'.toNat,
    ctlKey 'V'.toNat, ctlKey 'W'.toNat]

/-- What a character that stands for itself does in normal mode. -/
inductive LiteralStep : SBState -> Gunichar -> SBState -> Bytes -> Prop
  | caret : LiteralStep SBState.start '^'.toNat SBState.ctl []
  | quote : LiteralStep SBState.start quoteChar SBState.escaped []
  | ctle : LiteralStep SBState.start (ctlKey 'E'.toNat) SBState.ctle []
  | plain {chr : Gunichar} (h : chr ∉ specialChars) :
      LiteralStep SBState.start chr SBState.start (unicharToUtf8 chr)
  | quoted {chr : Gunichar} :
      LiteralStep SBState.escaped chr SBState.start (unicharToUtf8 chr)
  | outside {chr : Gunichar}
      (h : asciiToUpper chr < '@'.toNat ∨ asciiToUpper chr > '_'.toNat) :
      LiteralStep SBState.ctl chr SBState.start (encoded ['^'.toNat, chr])
  | noConstruct {chr : Gunichar} (h : ctleState chr = none) :
      LiteralStep SBState.ctle chr SBState.start
        (encoded [ctlKey 'E'.toNat, chr])

theorem result_getCore (t : SBScope W Reg) :
    result (getCore : Exec (SBScope W Reg) SBCore) t = .ok (t.1.core, t) := rfl

theorem result_escapedInput {chr : Gunichar} {t : SBScope W Reg}
    (hmode : t.1.core.mode = SBMode.normal) :
    result (escapedInput host true chr) t =
      .ok ((SBState.start, unicharToUtf8 chr), t) := by
  unfold escapedInput
  rw [result_bind_of_ok (result_getCore t), if_pos rfl, result_pure, hmode]

/-- A character which selects nothing behind `^`. -/
theorem result_ctlInput {chr : Gunichar} {t : SBScope W Reg}
    (h : forall c, ascii (asciiToUpper chr) = some c ->
      c ∉ ['^', 'P', 'Q', 'R', 'V', 'W', 'E']) :
    result (ctlInput env true chr) t =
      .ok ((SBState.start,
        if asciiToUpper chr < '@'.toNat ∨ asciiToUpper chr > '_'.toNat then
          '^'.toUInt8 :: unicharToUtf8 (asciiToUpper chr)
        else unicharToUtf8 (ctlKey (asciiToUpper chr))), t) := by
  unfold ctlInput
  rw [result_bind_of_ok (result_getCore t)]
  split
  · next hc => exact absurd (by decide) (h _ hc)
  · next hc => exact absurd (by decide) (h _ hc)
  · next hc => exact absurd (by decide) (h _ hc)
  · next hc => exact absurd (by decide) (h _ hc)
  · next hc => exact absurd (by decide) (h _ hc)
  · next hc => exact absurd (by decide) (h _ hc)
  · next hc => exact absurd (by decide) (h _ hc)
  · split <;> rfl

/-- The letters in the range from `@` to `_` remain there. -/
theorem asciiToUpper_outside {chr : Gunichar}
    (h : asciiToUpper chr < '@'.toNat ∨ asciiToUpper chr > '_'.toNat) :
    asciiToUpper chr = chr := by
  have hrange : forall n : Nat, 97 ≤ n -> n ≤ 122 ->
      ¬ (n - 32 < 64 ∨ n - 32 > 95) := by
    intro n hlow hhigh
    omega
  unfold asciiToUpper at h ⊢
  split at h
  · next hlower => exact absurd h (hrange chr hlower.1 hlower.2)
  · next hlower => rw [if_neg hlower]

/-- Control characters between `^@` and `^_`. -/
theorem ctlEcho_facts : forall x : Fin 0x20,
    ctlKey (asciiToUpper (ctlEcho x.val)) = x.val ∧
      ¬ (asciiToUpper (ctlEcho x.val) < '@'.toNat ∨
        asciiToUpper (ctlEcho x.val) > '_'.toNat) ∧
      (['^', 'P', 'Q', 'R', 'V', 'W', 'E'].all (fun c =>
        ascii (asciiToUpper (ctlEcho x.val)) != some c ||
          x.val == ctlKey c.toNat)) = true := by
  decide

theorem result_ctlInput_echo {chr : Gunichar} {t : SBScope W Reg}
    (hctl : chr < 0x20) (hcaret : chr ≠ ctlKey '^'.toNat)
    (hplain : chr ∉ specialChars) :
    result (ctlInput env true (ctlEcho chr)) t =
      .ok ((SBState.start, unicharToUtf8 chr), t) := by
  rcases ctlEcho_facts ⟨chr, hctl⟩ with ⟨hkey, hrange, hall⟩
  have hselect : forall c, ascii (asciiToUpper (ctlEcho chr)) = some c ->
      c ∉ ['^', 'P', 'Q', 'R', 'V', 'W', 'E'] := by
    intro c hc hmem
    have hone := List.all_eq_true.mp hall c hmem
    simp only [hc, bne_self_eq_false, Bool.false_or, beq_iff_eq] at hone
    apply hplain
    simp only [List.mem_cons, List.not_mem_nil, or_false] at hmem
    rcases hmem with rfl | rfl | rfl | rfl | rfl | rfl | rfl
    · exact absurd hone hcaret
    all_goals
      rw [hone]
      decide
  rw [result_ctlInput hselect, if_neg hrange, hkey]

theorem result_sbStartInput {chr : Gunichar} {t : SBScope W Reg}
    (hmode : t.1.core.mode = SBMode.normal) (hplain : chr ∉ specialChars) :
    result (sbStartInput host env true chr) t =
      .ok ((SBState.start, unicharToUtf8 chr), t) := by
  unfold sbStartInput
  rw [result_bind_of_ok (result_getCore t),
    if_neg (by rw [hmode]; decide), if_neg]
  · split
    · exact result_escapedInput hmode
    · next hcaret =>
        split
        · next hctl =>
            exact result_ctlInput_echo (of_decide_eq_true hctl) hcaret hplain
        · exact result_escapedInput hmode
  · rintro rfl
    exact hplain (by decide)

/-- The special characters which are read in the start state. -/
theorem result_sbStartInput_special {chr : Gunichar} {next : SBState}
    {t : SBScope W Reg} (hmode : t.1.core.mode = SBMode.normal)
    (h : chr = '^'.toNat ∧ next = SBState.ctl ∨
      chr = quoteChar ∧ next = SBState.escaped ∨
      chr = ctlKey 'E'.toNat ∧ next = SBState.ctle) :
    result (sbStartInput host env true chr) t = .ok ((next, []), t) := by
  unfold sbStartInput
  rw [result_bind_of_ok (result_getCore t), if_neg (by rw [hmode]; decide)]
  rcases h with ⟨rfl, rfl⟩ | ⟨rfl, rfl⟩ | ⟨rfl, rfl⟩ <;> rfl

theorem result_ctlInput_outside {chr : Gunichar} {t : SBScope W Reg}
    (h : asciiToUpper chr < '@'.toNat ∨ asciiToUpper chr > '_'.toNat) :
    result (ctlInput env true chr) t =
      .ok ((SBState.start, encoded ['^'.toNat, chr]), t) := by
  have hselect : forall c, ascii (asciiToUpper chr) = some c ->
      c ∉ ['^', 'P', 'Q', 'R', 'V', 'W', 'E'] := by
    intro c hc hmem
    rw [ascii_eq hc] at h
    revert h
    simp only [List.mem_cons, List.not_mem_nil, or_false] at hmem
    rcases hmem with rfl | rfl | rfl | rfl | rfl | rfl | rfl <;> decide
  rw [result_ctlInput hselect, if_pos h, asciiToUpper_outside h]
  simp [encoded]
  rfl

theorem result_ctleInput_none {chr : Gunichar} {t : SBScope W Reg}
    (hmode : t.1.core.mode = SBMode.normal) (h : ctleState chr = none) :
    result (ctleInput host env true chr) t =
      .ok ((SBState.start, encoded [ctlKey 'E'.toNat, chr]), t) := by
  unfold ctleInput
  rw [result_bind_of_ok (result_getCore t), h]
  simp only [if_true, result_pure, foldText, hmode]
  simp [encoded]
  rfl

theorem LiteralStep.result {state next : SBState} {chr : Gunichar}
    {text : Bytes} {t : SBScope W Reg}
    (h : LiteralStep state chr next text)
    (hstate : t.1.core.current = state) (hmode : t.1.core.mode = SBMode.normal)
    (spec : Exec (SBScope W Reg) (Option (Option Reg × QReg.Table))) :
    Undoable.result (sbStateInput host env spec true chr) t =
      .ok ((next, text), t) := by
  unfold sbStateInput
  rw [result_bind_of_ok (result_getCore t), hstate]
  cases h with
  | caret => exact result_sbStartInput_special hmode (.inl ⟨rfl, rfl⟩)
  | quote => exact result_sbStartInput_special hmode (.inr (.inl ⟨rfl, rfl⟩))
  | ctle => exact result_sbStartInput_special hmode (.inr (.inr ⟨rfl, rfl⟩))
  | plain h => exact result_sbStartInput hmode h
  | quoted => exact result_escapedInput hmode
  | outside h => exact result_ctlInput_outside h
  | noConstruct h => exact result_ctleInput_none hmode h

/-- The string building machine after a literal character. -/
theorem LiteralStep.sbInput {state next : SBState} {chr : Gunichar}
    {text : Bytes} {t : SBScope W Reg}
    (h : LiteralStep state chr next text)
    (hstate : t.1.core.current = state)
    (hmode : t.1.core.mode = SBMode.normal) :
    Undoable.result (sbInput host env true chr) t =
      .ok (text, (t.1.mapCore (fun c => { c with current := next }), t.2)) := by
  have hwith (spec : Exec (SBScope W Reg) (Option (Option Reg × QReg.Table))) :
      Undoable.result (sbInputWith host env spec true chr) t =
        .ok (text,
          (t.1.mapCore (fun c => { c with current := next }), t.2)) := by
    unfold sbInputWith
    rw [result_bind_of_ok (h.result hstate hmode spec)]
    show Undoable.result (do
      let core <- getCore
      if next ≠ core.current then do
        undoCore env (fun c => { c with current := core.current })
        modifyCore (fun c => { c with current := next })
        pure text
      else
        pure text) t = _
    rw [result_bind_of_ok (result_getCore t)]
    split
    · unfold undoCore modifyCore
      rw [result_bind_of_ok (result_undo _ t),
        result_bind_of_ok (result_modify _ t), result_pure]
    · next hsame =>
        have hcore : t.1.mapCore (fun c => { c with current := next }) =
            t.1 := by
          apply mapCore_same
          rw [of_not_not hsame]
        rw [hcore, result_pure]
  show Undoable.result (sbInputOf host env chr t.1 true) t = _
  cases t with
  | mk sb editor =>
      cases sb with
      | plain core => exact hwith _
      | withSpec core spec inner => exact hwith _

theorem result_countNesting_inside {s : State W Reg} (chr : Gunichar)
    (h : s.machine.expectstring.machine.core.current ≠ SBState.start) :
    result (countNesting host env chr) s = .ok ((), s) := by
  unfold countNesting
  rw [result_bind_of_ok (result_get s)]
  simp only [if_pos h, if_true, result_pure]

/-- Nothing happens to the nesting level. -/
theorem Building.countNesting {cmd : StringCommand} {escapeChar : Gunichar}
    {state : SBState} {s : State W Reg} (h : Building cmd escapeChar state s)
    {chr : Gunichar} (hchange : state = SBState.start ->
      nestingChange host.glib escapeChar chr = 0) :
    result (Parser.countNesting host env chr) s = .ok ((), s) := by
  by_cases hstart : state = SBState.start
  · rw [result_countNesting chr (h.state.trans hstart), h.escapeChar,
      hchange hstart]
    simp [State.mapString]
  · exact result_countNesting_inside chr (by rw [h.state]; exact hstart)

theorem Building.accumulate {cmd : StringCommand} {escapeChar : Gunichar}
    {state next : SBState} {s : State W Reg}
    (h : Building cmd escapeChar state s) {chr : Gunichar} {text : Bytes}
    (hstep : LiteralStep state chr next text) :
    result (accumulateString host env cmd chr) s =
      .ok (MainState.expectstring cmd, s.built next text) := by
  have hinput : result (zoom sbLens (sbInput host env true chr)) s =
      .ok (text, s.mapString (fun e =>
        { e with
          machine :=
            e.machine.mapCore (fun c => { c with current := next }) })) := by
    rw [result_zoom, hstep.sbInput h.state h.normal]
    rfl
  unfold accumulateString
  rw [result_bind_of_ok (result_get s)]
  simp only [h.mode, h.building, decide_true, if_true]
  rw [result_bind_of_ok (result_undo _ s), result_bind_of_ok hinput,
    result_bind_of_ok (result_modify _ _), result_bind_of_ok (result_get _),
    result_bind_of_ok (result_undo _ _), result_bind_of_ok (result_modify _ _)]
  simp [State.built, State.mapString]

variable [DecidableEq Reg]

/-- A literal character. -/
theorem Building.machineInput {cmd : StringCommand} {escapeChar : Gunichar}
    {state next : SBState} {s : State W Reg}
    (h : Building cmd escapeChar state s) {chr : Gunichar} {text : Bytes}
    (hstep : LiteralStep state chr next text)
    (hchange : state = SBState.start ->
      nestingChange host.glib escapeChar chr = 0)
    (hnesting : s.machine.expectstring.nesting ≠ 0) :
    result (machineInput host env chr) s = .ok ((), s.built next text) := by
  apply machineInput_stays
  · rw [h.current, stateInput, expectstringInput,
      result_bind_of_ok (result_get s),
      if_neg (by rw [h.modifierAt]; exact fun hand => absurd hand.1 (by decide)),
      result_bind_of_ok (result_evalAt h.modifierAt), if_neg (by decide),
      result_bind_of_ok (h.countNesting hchange),
      result_bind_of_ok (result_get s), if_neg hnesting, h.accumulate hstep]
  · rfl

/-!
## Accumulated text
-/

/-- `chars` accumulates exactly `text`, and does not end the argument. -/
structure Accumulates (host : Host W Reg) (env : Env) (cmd : StringCommand)
    (s : State W Reg) (chars : List Gunichar) (text : Bytes) : Prop where
  inside : forall part, part <+: chars ->
    exists t, result (feed host env part) s = .ok ((), t) ∧
      t.machine.current = MainState.expectstring cmd
  text : exists t, result (feed host env chars) s = .ok ((), t) ∧
    t.machine.expectstring.string = s.machine.expectstring.string ++ text ∧
    t.machine.expectstring.nesting = s.machine.expectstring.nesting

theorem Accumulates.nil {cmd : StringCommand} {s : State W Reg}
    (h : s.machine.current = MainState.expectstring cmd) :
    Accumulates host env cmd s [] [] := by
  constructor
  · intro part hpart
    rw [List.prefix_nil.mp hpart]
    exact ⟨s, rfl, h⟩
  · exact ⟨s, rfl, (List.append_nil _).symm, rfl⟩

theorem Accumulates.cons {cmd : StringCommand} {s : State W Reg}
    {chr : Gunichar} {chars : List Gunichar} {state : SBState}
    {first text : Bytes}
    (hcurrent : s.machine.current = MainState.expectstring cmd)
    (hchr : result (machineInput host env chr) s =
      .ok ((), s.built state first))
    (h : Accumulates host env cmd (s.built state first) chars text) :
    Accumulates host env cmd s (chr :: chars) (first ++ text) := by
  constructor
  · intro part hpart
    cases part with
    | nil => exact ⟨s, rfl, hcurrent⟩
    | cons x part =>
        rcases List.cons_prefix_cons.mp hpart with ⟨rfl, hrest⟩
        rw [feed, result_bind_of_ok hchr]
        exact h.inside part hrest
  · rcases h.text with ⟨t, ht, hstring, hnesting⟩
    refine ⟨t, ?_, ?_, hnesting⟩
    · rw [feed, result_bind_of_ok hchr]
      exact ht
    · rw [hstring]
      exact List.append_assoc _ _ _

/-- What follows a character accumulates the rest. -/
theorem Accumulates.tail {cmd : StringCommand} {s : State W Reg}
    {chr : Gunichar} {chars : List Gunichar} {state : SBState}
    {first text : Bytes}
    (hchr : result (machineInput host env chr) s =
      .ok ((), s.built state first))
    (h : Accumulates host env cmd s (chr :: chars) (first ++ text)) :
    Accumulates host env cmd (s.built state first) chars text := by
  have hfeed (part : List Gunichar) :
      result (feed host env (chr :: part)) s =
        result (feed host env part) (s.built state first) := by
    rw [feed, result_bind_of_ok hchr]
  constructor
  · intro part hpart
    rw [<- hfeed]
    exact h.inside (chr :: part) (List.cons_prefix_cons.mpr ⟨rfl, hpart⟩)
  · rcases h.text with ⟨t, ht, hstring, hnesting⟩
    refine ⟨t, (hfeed chars).symm.trans ht, ?_, hnesting⟩
    rw [hstring]
    exact (List.append_assoc _ _ _).symm

/-!
## Strings that are escaped right
-/

/-- Text that stands for itself once it is escaped: a terminator is escaped if
`^Q` is not the terminator itself, and a caret or `^E` is followed by a character
that it does not combine with. -/
inductive Inert (glib : Glib) (escapeChar : Gunichar) : List Gunichar -> Prop
  | nil : Inert glib escapeChar []
  | escaped {chr : Gunichar} {rest : List Gunichar}
      (h : sbNeedsEscape glib escapeChar chr = true)
      (hquote : glib.toUpper quoteChar ≠ escapeChar)
      (hrest : Inert glib escapeChar rest) :
      Inert glib escapeChar (chr :: rest)
  | plain {chr : Gunichar} {rest : List Gunichar}
      (h : sbNeedsEscape glib escapeChar chr = false)
      (hplain : chr ∉ specialChars) (hrest : Inert glib escapeChar rest) :
      Inert glib escapeChar (chr :: rest)
  | caret {chr : Gunichar} {rest : List Gunichar}
      (hcaret : sbNeedsEscape glib escapeChar '^'.toNat = false)
      (h : sbNeedsEscape glib escapeChar chr = false)
      (hchr : asciiToUpper chr < '@'.toNat ∨ asciiToUpper chr > '_'.toNat)
      (hrest : Inert glib escapeChar rest) :
      Inert glib escapeChar ('^'.toNat :: chr :: rest)
  | ctle {chr : Gunichar} {rest : List Gunichar}
      (hctle : sbNeedsEscape glib escapeChar (ctlKey 'E'.toNat) = false)
      (h : sbNeedsEscape glib escapeChar chr = false)
      (hchr : ctleState chr = none) (hrest : Inert glib escapeChar rest) :
      Inert glib escapeChar (ctlKey 'E'.toNat :: chr :: rest)

theorem nestingChange_other {glib : Glib} {escapeChar chr : Gunichar}
    (hglib : BraceHasNoCase glib)
    (h : sbNeedsEscape glib escapeChar chr = false) :
    nestingChange glib escapeChar chr = 0 := by
  simp only [sbNeedsEscape, Bool.or_eq_false_iff, Bool.and_eq_false_iff,
    beq_eq_false_iff_ne] at h
  rcases h with ⟨⟨hupper, _⟩, hclose⟩
  unfold nestingChange
  split
  · next hbrace =>
      have hopen : chr ≠ '{'.toNat := by
        intro hchr
        rw [hbrace] at hupper
        exact hupper ((hglib chr).mpr hchr)
      rw [if_neg hopen, if_neg (hclose.resolve_left (fun h => h hbrace))]
  · rfl

theorem nestingChange_quote {glib : Glib} {escapeChar : Gunichar}
    (h : glib.toUpper quoteChar ≠ escapeChar) :
    nestingChange glib escapeChar quoteChar = 0 := by
  unfold nestingChange
  split <;> rfl

/-- A character is read and the rest accumulates. -/
theorem Building.cons {cmd : StringCommand} {escapeChar : Gunichar}
    {state next : SBState} {s : State W Reg}
    (h : Building cmd escapeChar state s) {chr : Gunichar}
    {chars : List Gunichar} {first text : Bytes}
    (hstep : LiteralStep state chr next first)
    (hchange : state = SBState.start ->
      nestingChange host.glib escapeChar chr = 0)
    (hnesting : s.machine.expectstring.nesting ≠ 0)
    (hrest : Accumulates host env cmd (s.built next first) chars text) :
    Accumulates host env cmd s (chr :: chars) (first ++ text) :=
  hrest.cons h.current (h.machineInput hstep hchange hnesting)

/-- A character without text. -/
theorem Building.silent {cmd : StringCommand} {escapeChar : Gunichar}
    {state next : SBState} {s : State W Reg}
    (h : Building cmd escapeChar state s) {chr : Gunichar}
    {chars : List Gunichar} {text : Bytes}
    (hstep : LiteralStep state chr next [])
    (hchange : state = SBState.start ->
      nestingChange host.glib escapeChar chr = 0)
    (hnesting : s.machine.expectstring.nesting ≠ 0)
    (hrest : Accumulates host env cmd (s.built next []) chars text) :
    Accumulates host env cmd s (chr :: chars) text :=
  h.cons hstep hchange hnesting hrest

/-- A character which is escaped if it is special at all. -/
def Neutralised (glib : Glib) (escapeChar chr : Gunichar) : Prop :=
  if sbNeedsEscape glib escapeChar chr then glib.toUpper quoteChar ≠ escapeChar
  else chr ∉ specialChars

/-- The current state of the main machine. -/
def State.current (s : State W Reg) : MainState := s.machine.current

section Current

omit [DecidableEq Reg]

theorem keepsCurrent_zoomString {α : Type} (m : Exec (SBScope W Reg) α) :
    Keeps State.current (zoom sbLens m : Exec (State W Reg) α) :=
  Keeps.zoom m (fun _ _ => rfl)

theorem keepsCurrent_onHost {α : Type} (m : Exec (Command W) α) :
    Keeps State.current (onHost m : Exec (State W Reg) α) :=
  Keeps.zoom m (fun _ _ => rfl)

theorem keepsCurrent_getMode :
    Keeps State.current (getMode : Exec (State W Reg) Mode) := by
  apply Keeps.bind Keeps.get
  intro s
  exact Keeps.pure _

theorem keepsCurrent_fixed {α : Type} {m : Exec (State W Reg) α}
    (h : Keeps State.fixed m) : Keeps State.current m :=
  h.comp (fun p => p.1.current)

theorem keepsCurrent_expectqregNew (type : QRegType) :
    Keeps State.current (expectqregNew env host type) := by
  apply Keeps.bind Keeps.get
  intro s
  apply Keeps.bind
  · exact Keeps.modify (fun _ => rfl)
  · intro _
    exact keeps_undo _

theorem keepsCurrent_stringInitial (cmd : StringCommand) :
    Keeps State.current (stringInitial host env cmd) := by
  have hcodepage (codepage : Nat) : Keeps State.current
      (setCodepage env codepage : Exec (State W Reg) Unit) :=
    keepsCurrent_zoomString _
  unfold stringInitial
  split
  · apply Keeps.bind (keepsCurrent_zoomString _)
    intro _
    apply Keeps.bind keepsCurrent_getMode
    intro mode
    apply Keeps.ite (Keeps.pure ())
    apply Keeps.bind (keepsCurrent_fixed keeps_evalColon)
    intro colon
    apply Keeps.bind Keeps.get
    intro s
    exact hcodepage _
  · exact Keeps.pure ()
  · apply Keeps.ite
    · apply Keeps.bind keepsCurrent_getMode
      intro mode
      apply Keeps.ite (Keeps.pure ())
      apply Keeps.bind Keeps.get
      intro s
      apply Keeps.bind (keepsCurrent_onHost _)
      intro codepage
      cases codepage with
      | none => exact keepsCurrent_onHost _
      | some codepage =>
          apply Keeps.bind (hcodepage codepage)
          intro _
          exact keepsCurrent_onHost _
    · apply Keeps.bind Keeps.get
      intro s
      exact Keeps.ite (hcodepage _) (Keeps.pure ())

theorem keepsCurrent_stateInitial [DecidableEq Reg] (state : MainState) :
    Keeps State.current (stateInitial host env state) := by
  unfold stateInitial
  split
  · exact Keeps.ite (Keeps.throw _) (Keeps.pure ())
  · exact keepsCurrent_fixed (keeps_printInitial _)
  · exact keepsCurrent_fixed (keeps_printInitial _)
  · apply Keeps.bind Keeps.get
    intro s
    split <;> exact keepsCurrent_expectqregNew _
  · exact keepsCurrent_stringInitial _
  · exact Keeps.pure ()

end Current

/-- The state that is entered is the current one afterwards. -/
theorem wp_enterState_current (next : MainState) (s : State W Reg) :
    wp (enterState host env next) (fun _ t => t.machine.current = next)
      (fun _ _ => True) (fun _ => True) s := by
  unfold enterState
  rw [wp_bind_of_ok (result_get s), wp_ite]
  split
  · next hsame => exact hsame.symm
  · rw [wp_bind_of_ok (result_undo _ s), wp_bind_of_ok (result_modify _ s)]
    apply (keepsCurrent_stateInitial next).wp
    · intro _ t ht
      exact ht
    · exact fun _ _ => trivial
    · exact fun _ => trivial

/-- The next state is another one. -/
theorem afterString_ne (cmd : StringCommand) :
    (Syntax.afterString cmd).normalize ≠
      (MainState.expectstring cmd).normalize := by
  cases cmd <;> decide

/-- The argument ends with this character. -/
theorem Building.ends {cmd : StringCommand} {escapeChar : Gunichar}
    {s : State W Reg} (h : Building cmd escapeChar SBState.start s)
    {chr : Gunichar} (hnesting : s.machine.expectstring.nesting +
      nestingChange host.glib escapeChar chr = 0) :
    wp (Parser.machineInput host env chr)
      (fun _ t => t.machine.current ≠ MainState.expectstring cmd)
      (fun _ _ => True) (fun _ => True) s := by
  have hnext (u : State W Reg) : wp (finishString host env cmd)
      (fun next _ => next ≠ MainState.expectstring cmd) (fun _ _ => True)
      (fun _ => True) u := by
    unfold finishString
    rw [wp_bind]
    apply wp_of_forall _ (fun _ _ => trivial) (fun _ => trivial)
    intro _ v
    rw [wp_bind_of_ok (result_get v), wp_ensuring]
    apply wp_mono (wp_stringDone_any cmd _)
    · intro next t ht
      apply wp_of_forall _ (fun _ _ => trivial) (fun _ => trivial)
      rintro _ _ rfl
      exact afterString_ne cmd ht.2.1.symm
    · intro _ _ _
      exact wp_of_forall (fun _ _ => trivial) (fun _ _ => trivial)
        (fun _ => trivial)
    · exact fun _ _ => trivial
  have hzero : (s.mapString (fun e =>
      { e with
        nesting := e.nesting +
          nestingChange host.glib escapeChar chr
      })).machine.expectstring.nesting = 0 := hnesting
  unfold Parser.machineInput
  rw [wp_bind_of_ok (result_get s), h.current, stateInput, wp_bind,
    expectstringInput, wp_bind_of_ok (result_get s),
    if_neg (by rw [h.modifierAt]; exact fun hand => absurd hand.1 (by decide)),
    wp_bind_of_ok (result_evalAt h.modifierAt), if_neg (by decide),
    wp_bind_of_ok (result_countNesting chr h.state), h.escapeChar,
    wp_bind_of_ok (result_get _), if_pos hzero]
  apply wp_call (hnext _)
  intro next t hne
  apply wp_call (wp_enterState_current next t)
  rintro _ u rfl
  exact hne

/-!
## Exactness
-/

/-- The string machine is in an argument which ends with `c`. -/
structure InArgument (cmd : StringCommand) (c : Gunichar)
    (s : State W Reg) : Prop extends Building cmd c SBState.start s where
  nesting : 0 < s.machine.expectstring.nesting
  single : c ≠ '{'.toNat -> s.machine.expectstring.nesting = 1

/-- What follows a neutralised character accumulates on its own. -/
theorem InArgument.following {cmd : StringCommand} {escapeChar : Gunichar}
    {s : State W Reg} (h : InArgument cmd escapeChar s)
    (hglib : BraceHasNoCase host.glib) {chr : Gunichar}
    (hchr : Neutralised host.glib escapeChar chr) {rest : List Gunichar}
    (hacc : Accumulates host env cmd s
      (escapeChars host.glib escapeChar (chr :: rest))
      (encoded (chr :: rest))) :
    Accumulates host env cmd (s.built SBState.start (unicharToUtf8 chr))
      (escapeChars host.glib escapeChar rest) (encoded rest) := by
  have hnesting : s.machine.expectstring.nesting ≠ 0 := by
    have hpos := h.nesting
    omega
  unfold Neutralised at hchr
  split at hchr
  · next hneeds =>
      rw [escapeChars_escaped hneeds] at hacc
      have hrest : Accumulates host env cmd (s.built SBState.escaped [])
          (chr :: escapeChars host.glib escapeChar rest)
          (encoded (chr :: rest)) :=
        hacc.tail (h.toBuilding.machineInput .quote
          (fun _ => nestingChange_quote hchr) hnesting)
      have htail := hrest.tail
        ((h.toBuilding.built SBState.escaped []).machineInput .quoted
          (fun hstart => by cases hstart) hnesting)
      rw [built_built] at htail
      exact htail
  · next hneeds =>
      have hfalse := Bool.eq_false_iff.mpr hneeds
      rw [escapeChars_other hfalse] at hacc
      exact hacc.tail (h.toBuilding.machineInput (.plain hchr)
        (fun _ => nestingChange_other hglib hfalse) hnesting)

end Parser
end SciTECO
