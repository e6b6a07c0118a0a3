import SciTECO.Parser.Coherent
import SciTECO.Parser.SampleHost

/-!
# Well-nested code

Which characters open and close conditionals and loops is a matter of syntax:
those in strings, labels and comments and those of flow control commands do
not.  Code is well-nested if every opening character has its closing one.
-/

namespace SciTECO
namespace Parser

open Undoable

variable {W Reg : Type} {host : Host W Reg} {env : Env}

/-- What can be nested. -/
inductive Construct where
  | conditional
  | loop
deriving DecidableEq, Repr

namespace Construct

/-- The parse-only modes which look for the end of such a construct. -/
def Skips : Construct -> Mode -> Prop
  | conditional, mode =>
      mode = Mode.parseOnlyCond ∨ mode = Mode.parseOnlyCondForce
  | loop, mode => mode = Mode.parseOnlyLoop

/-- The type of a conditional, or `<`. -/
def Opens (kind : Construct) (y : Syntax) (chr : Gunichar) : Prop :=
  match kind with
  | conditional => y.current = MainState.condcommand
  | loop => y.current.startsCommand chr = true ∧ chr = '<'.toNat

/-- The command `'` or `>`. -/
def Closes (kind : Construct) (y : Syntax) (chr : Gunichar) : Prop :=
  y.current.startsCommand chr = true ∧
    match kind with
    | conditional => chr = '\''.toNat
    | loop => chr = '>'.toNat

/-- The command `|`. -/
def Alternates (kind : Construct) (y : Syntax) (chr : Gunichar) : Prop :=
  kind = conditional ∧ y.current.startsCommand chr = true ∧
    chr = '|'.toNat

end Construct

/-- Code that takes the syntactic state `y` to `z` and in which the constructs
are well-nested.  `inner` tells whether it is part of one, where a conditional
may have an else-part. -/
inductive WellNested (toUpper : Gunichar -> Gunichar) (env : Env)
    (kind : Construct) : Bool -> Syntax -> List Gunichar -> Syntax -> Prop
  | nil {inner : Bool} {y : Syntax} : WellNested toUpper env kind inner y [] y
  | character {inner : Bool} {y next z : Syntax} {chr : Gunichar}
      {rest : List Gunichar}
      (hstep : y.step toUpper env chr = some next)
      (hopen : ¬kind.Opens y chr) (hclose : ¬kind.Closes y chr)
      (helse : kind.Alternates y chr -> inner = true)
      (hrest : WellNested toUpper env kind inner next rest z) :
      WellNested toUpper env kind inner y (chr :: rest) z
  | construct {inner : Bool} {y start stop next z : Syntax}
      {chr close : Gunichar} {body rest : List Gunichar}
      (hopen : kind.Opens y chr) (hstart : y.step toUpper env chr = some start)
      (hbody : WellNested toUpper env kind true start body stop)
      (hclose : kind.Closes stop close)
      (hstop : stop.step toUpper env close = some next)
      (hrest : WellNested toUpper env kind inner next rest z) :
      WellNested toUpper env kind inner y (chr :: body ++ close :: rest) z

/-- A machine is between two commands.  It may look ahead behind `$`, `^C`, `=`
and `==`. -/
structure Syntax.BetweenCommands (y : Syntax) : Prop where
  current : y.current = MainState.start ∨ y.current = MainState.escape ∨
    y.current = MainState.ctlc ∨ y.current = MainState.printDecimal ∨
    y.current = MainState.printOctal
  modifierAt : y.modifierAt = false

/-!
## Commands
-/

section Syntaxes

variable {toUpper : Gunichar -> Gunichar} {kind : Construct} {inner : Bool}

theorem wellNested_append {y m z : Syntax} {first second : List Gunichar}
    (h : WellNested toUpper env kind inner y first m)
    (h' : WellNested toUpper env kind inner m second z) :
    WellNested toUpper env kind inner y (first ++ second) z := by
  induction h with
  | nil => exact h'
  | character hstep hopen hclose helse _ ih =>
      exact WellNested.character hstep hopen hclose helse (ih h')
  | construct hopen hstart hbody hclose hstop _ _ ih =>
      rw [List.append_assoc]
      exact WellNested.construct hopen hstart hbody hclose hstop (ih h')

/-- The syntactic state of a new machine. -/
def Syntax.fresh : Syntax :=
  { current := MainState.start
    modifierAt := false
    escapeChar := 0x1B
    nesting := 1
    stringbuilding := SBSyntax.fresh
    qregspec := none
    labelEmpty := true }

/-- A character which starts no command is neither an opening nor a closing
one. -/
theorem wellNested_inside {y next z : Syntax} {chr : Gunichar}
    {rest : List Gunichar} (hstarts : y.current.startsCommand chr = false)
    (hcond : y.current ≠ MainState.condcommand)
    (hstep : y.step toUpper env chr = some next)
    (hrest : WellNested toUpper env kind inner next rest z) :
    WellNested toUpper env kind inner y (chr :: rest) z := by
  apply WellNested.character hstep
  · cases kind with
    | conditional => exact hcond
    | loop =>
        intro hopen
        rw [hopen.1] at hstarts
        cases hstarts
  · intro hclose
    rw [hclose.1] at hstarts
    cases hstarts
  · intro helse
    rw [helse.2.1] at hstarts
    cases hstarts
  · exact hrest

/-- The first character of a command. -/
theorem wellNested_first {y next z : Syntax} {chr : Gunichar}
    {rest : List Gunichar} (hcurrent : y.current = MainState.start)
    (hchr : chr ∉ delimiters.map Char.toNat)
    (hstep : y.step toUpper env chr = some next)
    (hrest : WellNested toUpper env kind inner next rest z) :
    WellNested toUpper env kind inner y (chr :: rest) z := by
  have hne {c : Char} (hc : c ∈ delimiters) : chr ≠ c.toNat := by
    intro heq
    exact hchr (heq ▸ List.mem_map_of_mem hc)
  apply WellNested.character hstep
  · cases kind with
    | conditional =>
        intro hopen
        rw [Construct.Opens, hcurrent] at hopen
        cases hopen
    | loop => exact fun hopen => hne (by decide) hopen.2
  · cases kind with
    | conditional => exact fun hclose => hne (by decide) hclose.2
    | loop => exact fun hclose => hne (by decide) hclose.2
  · exact fun helse => absurd helse.2.2 (hne (by decide))
  · exact hrest

/-- The flow control commands. -/
theorem wellNested_flow {c : Char} (hc : c ∈ delimiters) :
    WellNested toUpper env kind inner Syntax.fresh
      ['F'.toNat, c.toNat] Syntax.fresh := by
  apply wellNested_first rfl (by decide) rfl
  apply wellNested_inside rfl (by decide) _ WellNested.nil
  simp only [delimiters, List.mem_cons, List.not_mem_nil, or_false] at hc
  rcases hc with rfl | rfl | rfl | rfl
  · rfl
  · rfl
  · rfl
  · rfl

/-- A label with at least one character. -/
def Syntax.inLabel : Syntax :=
  { Syntax.fresh with current := MainState.label, labelEmpty := false }

/-- Labels. -/
theorem wellNested_label {chr : Gunichar} {text : List Gunichar}
    (hchr : chr ≠ '*'.toNat) (htext : '!'.toNat ∉ chr :: text) :
    WellNested toUpper env kind inner Syntax.fresh
      ('!'.toNat :: chr :: text ++ ['!'.toNat]) Syntax.fresh := by
  have hstep (chr : Gunichar) (hchr : chr ≠ '!'.toNat) :
      Syntax.inLabel.step toUpper env chr = some Syntax.inLabel := by
    have hinput : Syntax.inLabel.labelInput chr =
        (MainState.label, Syntax.inLabel) := by
      rw [Syntax.labelInput, if_neg (fun h => absurd h.1 (by decide)),
        if_neg (fun h => hchr h.2), if_neg hchr]
      rfl
    change (some (Syntax.inLabel.labelInput chr)).bind _ = _
    rw [hinput]
    rfl
  have hrest (text : List Gunichar) (htext : '!'.toNat ∉ text) :
      WellNested toUpper env kind inner Syntax.inLabel
        (text ++ ['!'.toNat]) Syntax.fresh := by
    induction text with
    | nil => exact wellNested_inside rfl (by decide) rfl WellNested.nil
    | cons chr text ih =>
        rw [List.mem_cons, not_or] at htext
        exact wellNested_inside rfl (by decide)
          (hstep chr (fun h => htext.1 h.symm)) (ih htext.2)
  rw [List.mem_cons, not_or] at htext
  have hne : chr ≠ '!'.toNat := fun h => htext.1 h.symm
  have hfirst : ({ Syntax.fresh with current := MainState.label } :
      Syntax).step toUpper env chr = some Syntax.inLabel := by
    have hinput : ({ Syntax.fresh with current := MainState.label } :
        Syntax).labelInput chr = (MainState.label, Syntax.inLabel) := by
      rw [Syntax.labelInput, if_neg (fun h => hchr h.2),
        if_neg (fun h => hne h.2), if_neg hne]
      rfl
    change (some (Syntax.labelInput _ chr)).bind _ = _
    rw [hinput]
    rfl
  apply wellNested_first rfl (by decide) rfl
  exact wellNested_inside rfl (by decide) hfirst (hrest text htext.2)

/-- Within the string argument of `I`. -/
def Syntax.inInsertion : Syntax :=
  { Syntax.fresh with
    current := MainState.expectstring StringCommand.insertPlain }

/-- Insertions of plain text. -/
theorem wellNested_insert {text : List Gunichar}
    (htext : forall chr, chr ∈ text ->
      toUpper chr ≠ 0x1B ∧ chr ≠ '^'.toNat ∧ isCtl chr = false)
    (hescape : toUpper 0x1B = 0x1B) :
    WellNested toUpper env kind inner Syntax.fresh
      ('I'.toNat :: text ++ [0x1B]) Syntax.fresh := by
  have hstep (chr : Gunichar) (hchr : toUpper chr ≠ 0x1B ∧
      chr ≠ '^'.toNat ∧ isCtl chr = false) :
      Syntax.inInsertion.step toUpper env chr = some Syntax.inInsertion := by
    have hnesting : Syntax.inInsertion.nestingChange toUpper chr = 0 :=
      if_neg hchr.1
    have hbuilding : SBSyntax.fresh.step chr = some SBSyntax.fresh := by
      change some (SBSyntax.startStep false chr) = _
      have hkey : chr ≠ ctlKey '^'.toNat := by
        intro heq
        rw [heq] at hchr
        exact absurd hchr.2.2 (by decide)
      rw [SBSyntax.startStep, if_neg (by simp), if_neg hchr.2.1, if_neg hkey,
        hchr.2.2]
      rfl
    have hinput : Syntax.inInsertion.expectstringInput toUpper
        StringCommand.insertPlain chr =
          some (MainState.expectstring StringCommand.insertPlain,
            Syntax.inInsertion) := by
      rw [expectstringInput_eq rfl, hnesting,
        if_neg (by simp [Syntax.inInsertion, Syntax.fresh])]
      exact congrArg (Option.map (fun inner =>
        (MainState.expectstring StringCommand.insertPlain,
          { Syntax.inInsertion with stringbuilding := inner }))) hbuilding
    change (Syntax.inInsertion.expectstringInput toUpper _ chr).bind _ = _
    rw [hinput]
    rfl
  have hend : Syntax.inInsertion.step toUpper env 0x1B =
      some Syntax.fresh := by
    have hnesting : Syntax.inInsertion.nestingChange toUpper 0x1B = -1 :=
      if_pos hescape
    have hinput : Syntax.inInsertion.expectstringInput toUpper
        StringCommand.insertPlain 0x1B =
          some (MainState.start, Syntax.inInsertion) := by
      rw [expectstringInput_eq rfl, hnesting]
      rfl
    change (Syntax.inInsertion.expectstringInput toUpper _ 0x1B).bind _ = _
    rw [hinput]
    rfl
  have hrest (text : List Gunichar)
      (htext : forall chr, chr ∈ text ->
        toUpper chr ≠ 0x1B ∧ chr ≠ '^'.toNat ∧ isCtl chr = false) :
      WellNested toUpper env kind inner Syntax.inInsertion
        (text ++ [0x1B]) Syntax.fresh := by
    induction text with
    | nil => exact wellNested_inside rfl (by decide) hend WellNested.nil
    | cons chr text ih =>
        exact wellNested_inside rfl (by decide)
          (hstep chr (htext chr List.mem_cons_self))
          (ih (fun c hc => htext c (List.mem_cons_of_mem _ hc)))
  apply wellNested_first rfl (by decide) rfl
  exact hrest text htext

/-- Conditionals and loops. -/
theorem wellNested_conditional {chr : Gunichar} {body : List Gunichar}
    (hchr : Syntax.isCondition chr = true)
    (hbody : WellNested toUpper env Construct.conditional true Syntax.fresh
      body Syntax.fresh) :
    WellNested toUpper env Construct.conditional inner Syntax.fresh
      ('"'.toNat :: chr :: body ++ ['\''.toNat]) Syntax.fresh := by
  have hstep : ({ Syntax.fresh with current := MainState.condcommand } :
      Syntax).step toUpper env chr = some Syntax.fresh := by
    change (if Syntax.isCondition chr then some _ else none).bind _ = _
    rw [if_pos hchr]
    rfl
  apply wellNested_first rfl (by decide) rfl
  exact WellNested.construct rfl hstep hbody ⟨rfl, rfl⟩ rfl WellNested.nil

/-- The beginning of an else-part. -/
theorem wellNested_else :
    WellNested toUpper env kind true Syntax.fresh ['|'.toNat]
      Syntax.fresh := by
  apply WellNested.character rfl _ _ (fun _ => rfl) WellNested.nil
  · cases kind with
    | conditional => simp [Construct.Opens, Syntax.fresh]
    | loop => exact fun hopen => absurd hopen.2 (by decide)
  · cases kind with
    | conditional => exact fun hclose => absurd hclose.2 (by decide)
    | loop => exact fun hclose => absurd hclose.2 (by decide)

end Syntaxes

/-!
## Skipping a character
-/

theorem startsCommand_normalize (current : MainState) (chr : Gunichar) :
    current.normalize.startsCommand chr = current.startsCommand chr := by
  cases current with
  | expectstring cmd => cases cmd <;> rfl
  | _ => rfl

/-- Only states for string arguments share their syntax. -/
theorem normalize_eq_iff {a b : MainState}
    (hb : forall cmd, b ≠ MainState.expectstring cmd) :
    a.normalize = b <-> a = b := by
  cases a with
  | expectstring cmd =>
      constructor
      · intro h
        rw [normalize_expectstring] at h
        exact absurd h.symm (hb _)
      · intro h
        exact absurd h.symm (hb _)
  | _ => exact Iff.rfl

theorem skipStep_normalize (k : Skip) (current : MainState) (chr : Gunichar) :
    k.step current.normalize chr = k.step current chr := by
  unfold Skip.step
  have hcond : current.normalize = MainState.condcommand <->
      current = MainState.condcommand := normalize_eq_iff (by simp)
  simp only [startsCommand_normalize, hcond]

section Steps

variable {kind : Construct} {k : Skip} {y : Syntax} {chr : Gunichar}

theorem skipStep_opens (hmode : kind.Skips k.mode) (h : kind.Opens y chr) :
    k.step y.current chr = { k with nestLevel := k.nestLevel + 1 } := by
  cases kind with
  | conditional =>
      have hcurrent : y.current = MainState.condcommand := h
      unfold Skip.step
      rw [hcurrent, if_neg (by simp [MainState.startsCommand]),
        if_pos ⟨rfl, hmode⟩]
  | loop =>
      rcases h with ⟨hstarts, rfl⟩
      rw [Skip.step_command hstarts]
      exact if_pos hmode

theorem skipStep_closes (hmode : kind.Skips k.mode) (h : kind.Closes y chr) :
    k.step y.current chr = k.leave := by
  rcases h with ⟨hstarts, hchr⟩
  rw [Skip.step_command hstarts]
  cases kind with
  | conditional =>
      rw [show chr = '\''.toNat from hchr]
      exact if_pos hmode
  | loop =>
      rw [show chr = '>'.toNat from hchr]
      exact if_pos hmode

theorem skipStep_other (hmode : kind.Skips k.mode)
    (hopen : ¬kind.Opens y chr) (hclose : ¬kind.Closes y chr)
    (helse : kind.Alternates y chr -> k.nestLevel ≠ 0) :
    k.step y.current chr = k := by
  by_cases hstarts : y.current.startsCommand chr = true
  · rw [Skip.step_command hstarts]
    unfold Skip.command
    split
    case h_1 heq =>
        apply if_neg
        intro hloop
        cases kind with
        | conditional =>
            rw [hloop] at hmode
            simp [Construct.Skips] at hmode
        | loop => exact hopen ⟨hstarts, ascii_eq heq⟩
    case h_2 heq =>
        apply if_neg
        intro hloop
        cases kind with
        | conditional =>
            rw [hloop] at hmode
            simp [Construct.Skips] at hmode
        | loop => exact hclose ⟨hstarts, ascii_eq heq⟩
    case h_3 heq =>
        apply if_neg
        rintro ⟨hcond, hlevel⟩
        cases kind with
        | conditional => exact helse ⟨rfl, hstarts, ascii_eq heq⟩ hlevel
        | loop =>
            rw [hcond] at hmode
            simp [Construct.Skips] at hmode
    case h_4 heq =>
        apply if_neg
        intro hcond
        cases kind with
        | conditional => exact hclose ⟨hstarts, ascii_eq heq⟩
        | loop =>
            rw [show k.mode = Mode.parseOnlyLoop from hmode] at hcond
            simp at hcond
    case h_5 => rfl
  · unfold Skip.step
    rw [if_neg hstarts]
    apply if_neg
    rintro ⟨hcurrent, hcond⟩
    cases kind with
    | conditional => exact hopen hcurrent
    | loop =>
        rw [show k.mode = Mode.parseOnlyLoop from hmode] at hcond
        simp at hcond

end Steps

variable [DecidableEq Reg]

/-- What is known of a machine that skips code. -/
structure Skipping (s : State W Reg) (k : Skip) (y : Syntax) (pc : Nat) :
    Prop where
  wellFormed : s.WellFormed
  skip : s.skip = k
  toSyntax : s.toSyntax = y
  macroPc : s.machine.macroPc = pc

/-- A character is skipped. -/
theorem wp_machineInput_skipping {s : State W Reg} {k : Skip}
    {y next : Syntax} {pc : Nat} {chr : Gunichar} (h : Skipping s k y pc)
    (hk : k.Quiet) (hlabel : k.label = [])
    (hstep : y.step host.glib.toUpper env chr = some next) :
    wp (machineInput host env chr)
      (fun _ t => Skipping t (k.step y.current chr) next pc)
      (fun _ _ => False) (fun _ => False) s := by
  have hs : s.skip.Quiet := h.skip.symm ▸ hk
  have hinsert : s.machine.expectstring.insertLen = 0 := hs.insertLen
  have hmode : s.mode ≠ Mode.normal := hs.mode
  rw [← h.toSyntax] at hstep
  have hcurrent : y.current = s.machine.current.normalize :=
    congrArg Syntax.current h.toSyntax.symm
  have hreads : wp (machineInput host env chr)
      (fun _ t => t.WellFormed ∧ t.toSyntax = next ∧
        t.machine.macroPc = s.machine.macroPc)
      (fun _ _ => False) (fun _ => False) s := by
    apply wp_mono (wp_machineInput chr h.wellFormed
      (fun _ => processes_of_insertLen hinsert))
    · intro _ t ht
      rcases ht with ⟨hwf, _, hshape, hkept⟩
      rw [hstep] at hshape
      exact ⟨hwf, (Option.some.inj hshape).symm, (hkept hmode).1⟩
    · intro _ t ht
      rw [hstep] at ht
      cases (ht hmode).1
    · intro _ ht
      rw [hstep] at ht
      cases ht hmode
  apply wp_call_and hreads (wp_machineInput_skip chr hs)
  intro _ t ht hskip
  rcases ht with ⟨hwf, hshape, hpc⟩
  constructor
  · exact hwf
  · rw [h.skip] at hskip
    rcases hskip with hskip | ⟨hsearch, _⟩
    · rw [hskip, hcurrent, skipStep_normalize]
    · exact absurd hlabel hsearch
  · exact hshape
  · exact hpc.trans h.macroPc

/-!
## Skipping code
-/

theorem wp_feed_append {post : Unit -> State W Reg -> Prop}
    {fail : TecoError -> State W Reg -> Prop} {bad : Fault -> Prop}
    {s : State W Reg} (first second : List Gunichar) :
    wp (feed host env (first ++ second)) post fail bad s <->
      wp (feed host env first)
        (fun _ t => wp (feed host env second) post fail bad t) fail bad s := by
  induction first generalizing s with
  | nil => exact Iff.rfl
  | cons chr first ih =>
      simp only [List.cons_append, feed, wp_bind]
      have hany : wp (machineInput host env chr) (fun _ _ => True)
          (fun _ _ => True) (fun _ => True) s := by
        apply wp_of_forall
        · intro _ _
          trivial
        · intro _ _
          trivial
        · intro _
          trivial
      apply wp_congr hany
      intro _ t _
      exact ih

/-- Well-nested code is skipped with the nesting as it was. -/
theorem wp_feed_wellNested {kind : Construct} {inner : Bool} {k : Skip}
    {y z : Syntax} {pc : Nat} {body : List Gunichar} {s : State W Reg}
    (hbody : WellNested host.glib.toUpper env kind inner y body z)
    (hmode : kind.Skips k.mode) (hk : k.Quiet) (hlabel : k.label = [])
    (hlevel : 0 ≤ k.nestLevel)
    (hinner : inner = true -> k.nestLevel ≠ 0) (h : Skipping s k y pc) :
    wp (feed host env body) (fun _ t => Skipping t k z pc)
      (fun _ _ => False) (fun _ => False) s := by
  induction hbody generalizing s k with
  | nil => exact h
  | character hstep hopen hclose helse hrest ih =>
      rw [feed, wp_bind]
      apply wp_call (wp_machineInput_skipping h hk hlabel hstep)
      intro _ t ht
      rw [skipStep_other hmode hopen hclose (fun h => hinner (helse h))] at ht
      exact ih hmode hk hlabel hlevel hinner ht
  | @construct inner y start stop next z chr close body rest hopen hstart
      hbody hclose hstop hrest ihbody ihrest =>
      -- one level deeper
      have hk' : ({ k with nestLevel := k.nestLevel + 1 } : Skip).Quiet :=
        ⟨hk.mode, hk.insertLen⟩
      rw [List.cons_append, feed, wp_bind]
      apply wp_call (wp_machineInput_skipping h hk hlabel hstart)
      intro _ t ht
      rw [skipStep_opens hmode hopen] at ht
      rw [wp_feed_append]
      apply wp_call (@ihbody { k with nestLevel := k.nestLevel + 1 } t hmode
        hk' hlabel (by dsimp only; omega) (fun _ => by dsimp only; omega) ht)
      intro _ u hu
      rw [feed, wp_bind]
      apply wp_call (wp_machineInput_skipping hu hk' hlabel hstop)
      intro _ v hv
      rw [skipStep_closes (k := { k with nestLevel := k.nestLevel + 1 })
        hmode hclose] at hv
      have hleave : ({ k with nestLevel := k.nestLevel + 1 } : Skip).leave =
          k := by
        unfold Skip.leave
        rw [if_neg (by dsimp only; omega)]
        simp
      rw [hleave] at hv
      exact ihrest hmode hk hlabel hlevel hinner hv

/-- The characters which end the skipped code where nothing is open. -/
def Mode.EndsAt : Mode -> Gunichar -> Prop
  | .parseOnlyCond, chr => chr = '|'.toNat ∨ chr = '\''.toNat
  | .parseOnlyCondForce, chr => chr = '\''.toNat
  | .parseOnlyLoop, chr => chr = '>'.toNat
  | _, _ => False

/-- Between two commands, a character without arguments is a command. -/
theorem step_betweenCommands {toUpper : Gunichar -> Gunichar} {y : Syntax}
    {chr : Gunichar} (h : y.BetweenCommands)
    (hchr : chr = '|'.toNat ∨ chr = '\''.toNat ∨ chr = '>'.toNat) :
    y.current.startsCommand chr = true ∧
      exists next, y.step toUpper env chr = some next ∧
        next.current = MainState.start := by
  have hunmodified : y.unmodified = some (MainState.start, y) := by
    rw [Syntax.unmodified, h.modifierAt, if_neg (by simp)]
  have hstart : y.startInput env chr = some (MainState.start, y) := by
    rcases hchr with rfl | rfl | rfl
    · exact hunmodified
    · exact hunmodified
    · exact hunmodified
  have hstarts : y.current.startsCommand chr = true := by
    rcases h.current with hy | hy | hy | hy | hy <;>
      rcases hchr with rfl | rfl | rfl <;> rw [hy] <;> decide
  have hinput : y.input toUpper env chr = some (MainState.start, y) := by
    unfold Syntax.input
    rcases h.current with hy | hy | hy | hy | hy <;>
      rw [hy] <;> rcases hchr with rfl | rfl | rfl <;> exact hstart
  refine ⟨hstarts, ?_⟩
  have hstep : y.step toUpper env chr = y.enter env MainState.start := by
    rw [Syntax.step, hinput]
    rfl
  rw [hstep]
  unfold Syntax.enter
  split
  case isTrue hsame => exact ⟨y, rfl, hsame.symm⟩
  case isFalse => exact ⟨_, rfl, rfl⟩

/-- The end of the skipped code. -/
theorem ends_skip {kind : Construct} {mode : Mode} {y : Syntax}
    {chr : Gunichar} (hmode : kind.Skips mode) (hchr : mode.EndsAt chr)
    (hy : y.current.startsCommand chr = true) {k : Skip}
    (hk : k.mode = mode) (hlevel : k.nestLevel = 0) :
    k.step y.current chr = { k with mode := Mode.normal } := by
  have hleave : k.leave = { k with mode := Mode.normal } := if_pos hlevel
  rw [Skip.step_command hy, ← hleave]
  subst hk
  cases kind with
  | conditional =>
      rcases hmode with hcond | hforce
      · rw [hcond] at hchr
        rcases hchr with rfl | rfl
        · exact (if_pos ⟨hcond, hlevel⟩).trans hleave.symm
        · exact if_pos (Or.inl hcond)
      · rw [hforce] at hchr
        have hend : chr = '\''.toNat := hchr
        rw [hend]
        exact if_pos (Or.inr hforce)
  | loop =>
      have hloop : k.mode = Mode.parseOnlyLoop := hmode
      rw [hloop] at hchr
      have hend : chr = '>'.toNat := hchr
      rw [hend]
      exact if_pos hloop

theorem endsAt_cases {mode : Mode} {chr : Gunichar} (h : mode.EndsAt chr) :
    chr = '|'.toNat ∨ chr = '\''.toNat ∨ chr = '>'.toNat := by
  cases mode with
  | parseOnlyCond =>
      rcases h with h | h
      · exact Or.inl h
      · exact Or.inr (Or.inl h)
  | parseOnlyCondForce => exact Or.inr (Or.inl h)
  | parseOnlyLoop => exact Or.inr (Or.inr h)
  | _ => exact absurd h id

/-- The states between two commands. -/
def lookAheadStates : List MainState :=
  [.start, .escape, .ctlc, .printDecimal, .printOctal]

theorem mem_lookAheadStates {current : MainState}
    (h : current.normalize ∈ lookAheadStates) :
    current ∈ lookAheadStates := by
  have hne (cmd : StringCommand) :
      current.normalize ≠ MainState.expectstring cmd := by
    intro hcmd
    rw [hcmd] at h
    simp [lookAheadStates] at h
  rw [(normalize_eq_iff hne).mp rfl]
  exact h

/-- Skipping well-nested commands ends between two commands, in the same mode
and at the same nesting, and the character behind them ends it if nothing else
is open. -/
theorem skips_wellNested {kind : Construct} {n : Nat}
    {body : List Gunichar} {z : Syntax} {s : State W Reg} (hs : Coherent s)
    (hmode : kind.Skips s.mode) (hlevel : s.machine.nestLevel = n)
    (hbody : WellNested host.glib.toUpper env kind false s.toSyntax body z)
    (hz : z.BetweenCommands) :
    exists t tokens, feed host env body s = .ok () t tokens ∧
      t.machine.current ∈ lookAheadStates ∧ t.mode = s.mode ∧
      t.machine.nestLevel = n ∧ t.machine.macroPc = s.machine.macroPc ∧
      (n = 0 -> forall chr, s.mode.EndsAt chr ->
        exists u tokens', machineInput host env chr t = .ok () u tokens' ∧
          u.machine.current = MainState.start ∧ u.mode = Mode.normal ∧
          u.machine.macroPc = s.machine.macroPc) := by
  have hskips : s.mode ≠ Mode.normal ∧ s.mode ≠ Mode.parseOnlyGoto := by
    cases kind with
    | conditional => rcases hmode with h | h <;> rw [h] <;> decide
    | loop =>
        rw [show s.mode = Mode.parseOnlyLoop from hmode]
        decide
  have hquiet : s.skip.Quiet := ⟨hskips.1, hs.skipped hskips.1⟩
  have hlabel : s.skip.label = [] := by
    by_contra hsearch
    exact hskips.2 (hs.label hsearch)
  have hpos : 0 ≤ s.skip.nestLevel := by
    rw [show s.skip.nestLevel = s.machine.nestLevel from rfl, hlevel]
    exact Int.natCast_nonneg n
  have hskip : Skipping s s.skip s.toSyntax s.machine.macroPc :=
    ⟨hs.wellFormed, rfl, rfl, rfl⟩
  rcases exists_ok_of_wp (wp_feed_wellNested hbody hmode hquiet hlabel hpos
    (fun h => by cases h) hskip) with ⟨_, t, tokens, hrun, ht⟩
  have hcurrent : t.machine.current.normalize = z.current :=
    congrArg Syntax.current ht.toSyntax
  refine ⟨t, tokens, hrun, ?_, congrArg Skip.mode ht.skip,
    (congrArg Skip.nestLevel ht.skip).trans hlevel, ht.macroPc, ?_⟩
  · apply mem_lookAheadStates
    rw [hcurrent]
    rcases hz.current with hz | hz | hz | hz | hz <;> rw [hz] <;> decide
  · intro hzero chr hchr
    rcases @step_betweenCommands env host.glib.toUpper z chr hz
      (endsAt_cases hchr) with ⟨hstarts, next, hstep, hnext⟩
    rcases exists_ok_of_wp (wp_machineInput_skipping ht hquiet hlabel hstep) with
      ⟨_, u, tokens', hend, hu⟩
    have hnest : s.skip.nestLevel = 0 := by
      rw [show s.skip.nestLevel = s.machine.nestLevel from rfl, hlevel, hzero]
      rfl
    rw [ends_skip hmode hchr hstarts rfl hnest] at hu
    have hstart : u.machine.current.normalize = MainState.start :=
      (congrArg Syntax.current hu.toSyntax).trans hnext
    exact ⟨u, tokens', hend, (normalize_eq_iff (by simp)).mp hstart,
      congrArg Skip.mode hu.skip, hu.macroPc⟩

/-- A machine behind `0"N`. -/
def skippingStart : State SampleWorld SampleReg :=
  sampleStart.mapFlags (fun f => { f with mode := Mode.parseOnlyCond })

theorem coherent_skippingStart : Coherent skippingStart := by
  constructor
  · refine ⟨⟨rfl, fun _ => rfl⟩, ?_⟩
    intro spec hspec
    cases hspec
  · intro h
    exact absurd rfl h
  · exact fun _ => rfl
  · exact fun _ => rfl

/-- The code `!'!F'I|'$"N|'`. -/
theorem skips_wellNested_delimiters :
    exists t tokens,
      feed sampleHost (sampleEnv [] 0 0)
          ((['!'.toNat, '\''.toNat, '!'.toNat] ++ ['F'.toNat, '\''.toNat]) ++
            (['I'.toNat, '|'.toNat, '\''.toNat, 0x1B] ++
              ['"'.toNat, 'N'.toNat, '|'.toNat, '\''.toNat])) skippingStart =
        .ok () t tokens ∧
      t.machine.current ∈ lookAheadStates ∧ t.mode = Mode.parseOnlyCond ∧
      t.machine.nestLevel = 0 := by
  have hlabel := @wellNested_label (sampleEnv [] 0 0)
    sampleHost.glib.toUpper .conditional false '\''.toNat [] (by decide)
    (by decide)
  have hflow := @wellNested_flow (sampleEnv [] 0 0)
    sampleHost.glib.toUpper .conditional false '\'' (by decide)
  have hinsert := @wellNested_insert (sampleEnv [] 0 0)
    sampleHost.glib.toUpper .conditional false ['|'.toNat, '\''.toNat]
    (by decide) rfl
  have hcond := @wellNested_conditional (sampleEnv [] 0 0)
    sampleHost.glib.toUpper false 'N'.toNat _ (by decide) wellNested_else
  have hbody := wellNested_append (wellNested_append hlabel hflow)
    (wellNested_append hinsert hcond)
  rcases skips_wellNested coherent_skippingStart
    (show Construct.conditional.Skips skippingStart.mode from .inl rfl)
    (show skippingStart.machine.nestLevel = (0 : Nat) from rfl) hbody
    ⟨.inl rfl, rfl⟩ with ⟨t, tokens, hrun, hcurrent, hmode, hlevel, _⟩
  exact ⟨t, tokens, hrun, hcurrent, hmode, hlevel⟩

/-- Behind `=` another state looks ahead. -/
theorem skips_equals :
    WellNested sampleHost.glib.toUpper (sampleEnv [] 0 0) .conditional false
        skippingStart.toSyntax ['='.toNat]
        { Syntax.fresh with current := MainState.printDecimal } ∧
      exists t tokens,
        feed sampleHost (sampleEnv [] 0 0) ['='.toNat] skippingStart =
          .ok () t tokens ∧
        t.machine.current ≠ MainState.start ∧
        t.machine.current ≠ MainState.escape := by
  constructor
  · exact wellNested_first rfl (by decide) rfl WellNested.nil
  · refine ⟨_, _, rfl, ?_, ?_⟩
    · decide
    · decide

end Parser
end SciTECO
